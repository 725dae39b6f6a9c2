import Husarnet.Lib.Json
import Husarnet.Crypto

/-! # licensing.cpp and base64Decode of util.cpp

The check of a licence document: the required members, the string that is signed, and the
comparison of the declared signature with each built-in public key.
-/

namespace Husarnet
open Octets JsonDoc
set_option autoImplicit false

/-- What ends a call of the configuration code: typed JSON access, a text that does not parse, a
push on a full `etl::vector`, or a decoded signature too short to be read. -/
inductive ConfigFault where
  | json (fault : Fault)
  | parseError
  | vectorFull
  | shortSignature
  deriving DecidableEq, Repr

/-- Typed JSON access as a step of the configuration code. -/
def access {α : Type} (x : Except Fault α) : Except ConfigFault α := x.mapError .json

/-! ## base64Decode -/

def base64Characters : Bytes := ascii "ABCDEFGHIJKLMNOPQRSTUVWXYZabcdefghijklmnopqrstuvwxyz0123456789+/"

/-- `charmap[c]`, `none` for -1. -/
def charmap (c : UInt8) : Option ℕ := base64Characters.idxOf? c

/-- The loop: `val` collects six bits at a time, a byte is taken out whenever `pos` is not negative. -/
def base64Loop : UInt32 → ℤ → Bytes → Bytes
  | _, _, [] => []
  | val, pos, c :: s =>
    match charmap c with
    | none => base64Loop val pos s
    | some i =>
      let val := (val <<< 6) + UInt32.ofNat i
      let pos := pos + 6
      if 0 ≤ pos then ((val >>> UInt32.ofNat pos.toNat) &&& 0xff).toUInt8 :: base64Loop val (pos - 8) s
      else base64Loop val pos s

def base64Decode (s : Bytes) : Bytes := base64Loop 0 (-8) s

/-! ## The licence document -/

def LICENSE_VERSION_KEY : Bytes := ascii "version"
def LICENSE_INSTALLATION_ID_KEY : Bytes := ascii "installation_id"
def LICENSE_LICENSE_ID_KEY : Bytes := ascii "license_id"
def LICENSE_NAME_KEY : Bytes := ascii "name"
def LICENSE_MAX_DEVICES_KEY : Bytes := ascii "max_devices"
def LICENSE_DASHBOARD_URL_KEY : Bytes := ascii "dashboard_url"
def LICENSE_WEBSETUP_HOST_KEY : Bytes := ascii "websetup_host"
def LICENSE_BASE_SERVER_ADDRESSES_KEY : Bytes := ascii "base_server_addresses"
def LICENSE_ISSUED_KEY : Bytes := ascii "issued"
def LICENSE_VALID_UNTIL_KEY : Bytes := ascii "valid_until"
def LICENSE_API_SERVERS_KEY : Bytes := ascii "api_servers"
def LICENSE_EB_SERVERS_KEY : Bytes := ascii "eb_servers"
def LICENSE_SIGNATURE_V2_KEY : Bytes := ascii "signature_v2"

def PUBLIC_KEY : List (FString 32) :=
  [⟨[0x2a, 0x3f, 0x26, 0x7c, 0x2a, 0x68, 0xa6, 0x0f, 0x66, 0xf6, 0xaf, 0x2b, 0x0a, 0x42, 0x7b, 0x25,
     0xb5, 0x30, 0x7c, 0x23, 0x47, 0x80, 0x2d, 0xdf, 0x35, 0x24, 0xf4, 0x9a, 0xfe, 0x7d, 0x01, 0xe5], rfl⟩,
   ⟨[0x52, 0x67, 0x82, 0x64, 0xe6, 0xa8, 0xc7, 0xa8, 0x8c, 0xdd, 0x43, 0x4f, 0xc7, 0x77, 0x60, 0xe6,
     0xc5, 0x67, 0x75, 0xe7, 0x35, 0x2a, 0x83, 0xfe, 0x4f, 0x7f, 0xf7, 0x53, 0x2a, 0x5e, 0x6a, 0x34], rfl⟩,
   ⟨[0xd7, 0xf1, 0x42, 0x73, 0x36, 0xf2, 0xfc, 0xd8, 0x2c, 0xf4, 0x45, 0x27, 0xbb, 0x14, 0xe4, 0x55,
     0x31, 0xe5, 0x5e, 0x07, 0xd5, 0xa3, 0xb6, 0x38, 0x95, 0x75, 0xa5, 0x5c, 0xba, 0x28, 0xd6, 0x09], rfl⟩,
   ⟨[0x8d, 0xeb, 0xaa, 0xb5, 0x41, 0x8e, 0x73, 0x4a, 0x01, 0x94, 0x72, 0xf0, 0x64, 0x5f, 0x14, 0x32,
     0x87, 0xe0, 0xed, 0x54, 0xc8, 0xe0, 0x62, 0x9c, 0xfd, 0xea, 0x30, 0x6e, 0x8b, 0xb5, 0x9c, 0x9d], rfl⟩,
   ⟨[0x02, 0x5e, 0xb8, 0xb0, 0xb0, 0x51, 0xcf, 0xe7, 0x7e, 0x9f, 0x50, 0x4f, 0x43, 0x65, 0xcf, 0x10,
     0x14, 0xc1, 0xb1, 0xa3, 0xd5, 0x6d, 0xa2, 0x15, 0x5a, 0x98, 0xc4, 0x27, 0x45, 0x4e, 0xea, 0xa8], rfl⟩,
   ⟨[0x1d, 0x9b, 0x46, 0x36, 0x4a, 0x10, 0x45, 0x7a, 0x22, 0xb2, 0xaf, 0x2f, 0x9d, 0xf9, 0x4b, 0x03,
     0x8f, 0xe3, 0x01, 0xfb, 0x90, 0x6a, 0x48, 0xea, 0x26, 0x2e, 0xe6, 0xa4, 0x89, 0x79, 0x27, 0xf4], rfl⟩]

def setLast (s : Bytes) (c : UInt8) : Bytes := s.dropLast ++ [c]

def stringLine (licenseJson : Json) (key : Bytes) : Except Fault Bytes := do
  let s ← (← licenseJson.member key).getString
  return s ++ [0x0a]

def intLine (licenseJson : Json) (key : Bytes) : Except Fault Bytes := do
  let z ← (← licenseJson.member key).getInt
  return ascii (toString z) ++ [0x0a]

/-- Appends the strings of a list member, each followed by a comma, and overwrites the last
character of the result with a newline. -/
def appendList (licenseJson : Json) (key s : Bytes) : Except Fault Bytes := do
  let addresses ← (← licenseJson.member key).elements.mapM Json.getString
  return setLast (s ++ addresses.flatMap fun a => a ++ [0x2c]) 0x0a

def generateSignatureData (licenseJson : Json) : Except Fault Bytes := do
  let s := (← intLine licenseJson LICENSE_VERSION_KEY)
  let s := s ++ (← stringLine licenseJson LICENSE_INSTALLATION_ID_KEY)
  let s := s ++ (← stringLine licenseJson LICENSE_LICENSE_ID_KEY)
  let s := s ++ (← stringLine licenseJson LICENSE_NAME_KEY)
  let s := s ++ (← intLine licenseJson LICENSE_MAX_DEVICES_KEY)
  let s := s ++ (← stringLine licenseJson LICENSE_DASHBOARD_URL_KEY)
  let s := s ++ (← stringLine licenseJson LICENSE_WEBSETUP_HOST_KEY)
  let s ← appendList licenseJson LICENSE_BASE_SERVER_ADDRESSES_KEY s
  let s ← appendList licenseJson LICENSE_API_SERVERS_KEY s
  let s ← appendList licenseJson LICENSE_EB_SERVERS_KEY s
  let s := s ++ (← stringLine licenseJson LICENSE_ISSUED_KEY)
  return s ++ (← (← licenseJson.member LICENSE_VALID_UNTIL_KEY).getString)

/-- `none` is the discarded document of a text that does not parse. -/
def isJsonValid : Option Json → Bool
  | none => false
  | some j => !j.isEmpty && (j.contains LICENSE_DASHBOARD_URL_KEY
      && j.contains LICENSE_BASE_SERVER_ADDRESSES_KEY
      && j.contains LICENSE_API_SERVERS_KEY && j.contains LICENSE_EB_SERVERS_KEY)

def verifyLicenseSignature (S : Sodium) (licenseJson : Json) : Except ConfigFault Bool :=
  if !licenseJson.contains LICENSE_SIGNATURE_V2_KEY then .ok false
  else do
    let declared ← access (licenseJson.member LICENSE_SIGNATURE_V2_KEY)
    let declaredSignature := base64Decode (← access declared.getString)
    let signatureData ← access (generateSignatureData licenseJson)
    -- the library reads 64 bytes behind c_str(), whatever the string's size
    match FString.ofString 64 declaredSignature with
    | .error _ => throw .shortSignature
    | .ok sig => return PUBLIC_KEY.any fun key => S.verifyDetached sig signatureData key

def isLicenseValid (S : Sodium) (licenseJson : Option Json) : Except ConfigFault Bool :=
  if !isJsonValid licenseJson then .ok false
  else match licenseJson with
    | none => .ok false
    | some j => verifyLicenseSignature S j

example : base64Decode (ascii "aHVz-YXI=") = ascii "husar" := by decide +kernel

end Husarnet
