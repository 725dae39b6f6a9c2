import Husarnet.IpAddress

/-! # The cryptographic library, identities and ngsocket_crypto.cpp

libsodium and the random sources are parameters. A key exchange returns `none` where the library
returns non-zero and leaves its output buffers alone; `secretboxOpen` returns `none` for a
forgery. The random sources are a tape: what each of them yields at its `n`-th draw.
-/

namespace Husarnet
open Octets
set_option autoImplicit false

/-- The functions of libsodium that the daemon calls. -/
structure Sodium where
  sha256 : Bytes → FString 32
  signDetached : (privkey : FString 64) → (msg : Bytes) → FString 64
  verifyDetached : (sig : FString 64) → (msg : Bytes) → (pubkey : FString 32) → Bool
  kxClientSessionKeys : (pk sk peerPk : FString 32) → Option (FString 32 × FString 32)
  kxServerSessionKeys : (pk sk peerPk : FString 32) → Option (FString 32 × FString 32)
  secretbox : (key : FString 32) → (nonce : FString 24) → Bytes → Bytes
  secretboxOpen : (key : FString 32) → (nonce : FString 24) → Bytes → Option Bytes

/-- The random sources of a process. A key pair is (public, private). -/
structure Tape where
  kxKeypair : ℕ → FString 32 × FString 32
  nonce : ℕ → FString 24
  ident : ℕ → FString 8
  cookie : ℕ → FString 16
  rand : ℕ → ℕ

/-- A pair (public, private) of key pairs agrees: the client's receive key is the server's
transmit key, and the other way round. -/
def Sodium.KxAgrees (S : Sodium) (k k' : FString 32 × FString 32) : Prop :=
  ∃ rx tx, S.kxClientSessionKeys k.1 k.2 k'.1 = some (rx, tx) ∧
    S.kxServerSessionKeys k'.1 k'.2 k.1 = some (tx, rx)

/-- A box opens under the key and the nonce it was sealed with, and is 16 bytes longer than its text. -/
structure Sodium.BoxOpens (S : Sodium) : Prop where
  opens : ∀ key nonce text, S.secretboxOpen key nonce (S.secretbox key nonce text) = some text
  length : ∀ key nonce text, (S.secretbox key nonce text).length = text.length + 16

/-- identity.h. -/
structure Identity where
  pubkey : FString 32
  privkey : FString 64
  deviceId : HusarnetAddress

namespace Identity

def sign (S : Sodium) (i : Identity) (msg : Bytes) : FString 64 := S.signDetached i.privkey msg

def isValid (i : Identity) : Bool := i.deviceId.isFC94

end Identity

namespace NgSocketCrypto
variable (S : Sodium)

def makeMessage (data kind : Bytes) : Bytes := kind ++ [0x0a] ++ data

def sign (data kind : Bytes) (identity : Identity) : FString 64 :=
  identity.sign S (makeMessage data kind)

/-- The proof-of-work test on the hash of a public key. -/
def proofOfWork (pubkey : FString 32) : Bool :=
  (S.sha256 pubkey.bytes).get 0 == 0 && (S.sha256 pubkey.bytes).get 1 < 50

def idOfHash (hash : FString 32) : HusarnetAddress :=
  ⟨⟨[0xfc, 0x94] ++ slice hash.bytes 3 14, by
    rw [List.length_append, slice_length (by rw [hash.size_eq]; decide)]; rfl⟩⟩

/-- A key that fails the test gets the address `IpAddress()`. -/
def pubkeyToDeviceId (pubkey : FString 32) : HusarnetAddress :=
  if proofOfWork S pubkey then idOfHash (S.sha256 pubkey.bytes) else IpAddress.invalid

def verifySignature (data kind : Bytes) (pubkey : FString 32) (sig : FString 64) : Bool :=
  S.verifyDetached sig (makeMessage data kind) pubkey

theorem isFC94_idOfHash (hash : FString 32) : (idOfHash hash).isFC94 = true := by
  simp [idOfHash, IpAddress.isFC94, IpAddress.byte, FString.get]

theorem idOfHash_ne_invalid (hash : FString 32) : idOfHash hash ≠ IpAddress.invalid :=
  IpAddress.ne_invalid_of_isFC94 (isFC94_idOfHash hash)

/-- The failure value tells a key that fails the test from one that passes it. -/
theorem pubkeyToDeviceId_eq_invalid (pubkey : FString 32) :
    pubkeyToDeviceId S pubkey = IpAddress.invalid ↔ proofOfWork S pubkey = false := by
  unfold pubkeyToDeviceId
  by_cases h : proofOfWork S pubkey = true
  · rw [if_pos h, h]
    exact ⟨fun he => absurd he (idOfHash_ne_invalid _), fun he => Bool.noConfusion he⟩
  · rw [if_neg h]
    exact ⟨fun _ => Bool.not_eq_true _ ▸ h, fun _ => rfl⟩

end NgSocketCrypto

/-! ## A library that hides nothing -/

def FString.pad (n : ℕ) (s : Bytes) : FString n :=
  ⟨(s ++ List.replicate n 0).take n, by simp⟩

/-- An instance with the laws of the library and no secrecy, to run the model on concrete inputs:
a private key is its public key, twice; a signature is the key and the start of the message; a
sealed box is the start of its key and the message. -/
def clearSodium : Sodium where
  sha256 key := .pad 32 ([0, 0, 0] ++ key)
  signDetached privkey msg := .pad 64 (privkey.bytes.take 32 ++ msg)
  verifyDetached sig msg pubkey := sig = .pad 64 (pubkey.bytes ++ msg)
  kxClientSessionKeys pk _ peerPk := some (peerPk, pk)
  kxServerSessionKeys pk _ peerPk := some (peerPk, pk)
  secretbox key _ msg := key.bytes.take 16 ++ msg
  secretboxOpen key _ box := if box.take 16 = key.bytes.take 16 ∧ 16 ≤ box.length then some (box.drop 16) else none

theorem boxOpens_clearSodium : clearSodium.BoxOpens where
  opens key nonce text := by
    have hkey : (key.bytes.take 16).length = 16 := by simp
    have htake : (key.bytes.take 16 ++ text).take 16 = key.bytes.take 16 := List.take_left' hkey
    have hdrop : (key.bytes.take 16 ++ text).drop 16 = text := List.drop_left' hkey
    simp only [clearSodium]
    rw [if_pos ⟨htake, by rw [List.length_append]; omega⟩, hdrop]
  length key nonce text := by
    simp only [clearSodium, List.length_append, List.length_take, FString.length_bytes]
    omega

/-- Random sources that yield the number of the draw. -/
def countingTape : Tape where
  kxKeypair n := (.pad 32 (leBytes 8 (n + 1)), .pad 32 (leBytes 8 (n + 1)))
  nonce n := .pad 24 (leBytes 8 n)
  ident n := .pad 8 (leBytes 8 n)
  cookie n := .pad 16 (leBytes 8 n)
  rand n := n

/-- The identity of the key that starts with `n`. -/
def clearIdentity (n : UInt8) : Identity where
  pubkey := .pad 32 [n]
  privkey := .pad 64 [n]
  deviceId := NgSocketCrypto.pubkeyToDeviceId clearSodium (.pad 32 [n])

/-- What `NgSocket::init` asserts and `Identity::init` ensures of the identity of a node. -/
structure Identity.Ready (S : Sodium) (i : Identity) : Prop where
  valid : i.isValid = true
  fromKey : NgSocketCrypto.pubkeyToDeviceId S i.pubkey = i.deviceId

end Husarnet
