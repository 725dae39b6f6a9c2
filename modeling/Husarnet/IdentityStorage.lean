import Husarnet.AddressText
import Husarnet.Crypto

/-! # identity.cpp: the stored identity

An identity is stored as a line of three words: its address and its two keys in hex. What `init` reads of a file
goes into the identity without a look at the rest: only the address is checked, and only for its range.
-/

namespace Husarnet
open Octets Numerals JoinedTexts
set_option autoImplicit false

/-! ## encodeHex and decodeHex -/

def encodeHex (s : Bytes) : Bytes := s.flatMap hexByte

/-- The loop over the pairs of letters; only the lower-case letters are found. -/
def decodePairs : Bytes → Option Bytes
  | a :: b :: s =>
    if hexLetters.idxOf a = 16 ∨ hexLetters.idxOf b = 16 then none
    else (decodePairs s).map (UInt8.ofNat (hexLetters.idxOf a * 16 + hexLetters.idxOf b) :: ·)
  | _ => some []

/-- `(int)s.size()`, the end of the loop. -/
def intSize (s : Bytes) : ℕ := (Int.bmod s.length (2 ^ 32)).toNat

/-- Failure is the empty string. -/
def decodeHex (s : Bytes) : Bytes := if s.length % 2 ≠ 0 then [] else (decodePairs (s.take (intSize s))).getD []

/-! ## serialize and deserialize -/

/-- `stream >> word`: the next word, and what is left of the stream. -/
def nextWord (s : Bytes) : Bytes × Bytes :=
  let s := s.dropWhile IpAddress.isSpace
  (s.takeWhile fun c => !IpAddress.isSpace c, s.dropWhile fun c => !IpAddress.isSpace c)

/-- The first three words of a text. -/
def threeWords (s : Bytes) : Bytes × Bytes × Bytes :=
  let (ipStr, s) := nextWord s
  let (pubkeyStr, s) := nextWord s
  (ipStr, pubkeyStr, (nextWord s).1)

namespace Identity

/-- `Identity()`. -/
def new : Identity := ⟨default, default, .invalid⟩

def serialize (S : Sodium) (i : Identity) : Bytes :=
  (NgSocketCrypto.pubkeyToDeviceId S i.pubkey).toString ++ ascii " " ++ encodeHex i.pubkey.bytes ++ ascii " " ++
    encodeHex i.privkey.bytes ++ ascii "\n"

def deserialize (data : Bytes) : Checked Identity :=
  if data = [] then return new
  else do
    let (ipStr, pubkeyStr, privkeyStr) := threeWords data
    let pubkey ← FString.ofString 32 (decodeHex pubkeyStr)
    let privkey ← FString.ofString 64 (decodeHex privkeyStr)
    return ⟨pubkey, privkey, .parse ipStr⟩

/-- The key pairs that `crypto_sign_ed25519_keypair` yields. -/
abbrev KeySource : Type := ℕ → FString 32 × FString 64

/-- The loop of `create`, from the `n`-th draw on. -/
def createLoop (S : Sodium) (keys : KeySource) : ℕ → ℕ → Identity → Option Identity
  | 0, _, _ => none
  | fuel + 1, n, i =>
    if i.deviceId.isFC94 then some i
    else createLoop S keys fuel (n + 1) ⟨(keys n).1, (keys n).2, NgSocketCrypto.pubkeyToDeviceId S (keys n).1⟩

def create (S : Sodium) (keys : KeySource) (fuel : ℕ) : Option Identity := createLoop S keys fuel 0 new

/-- `init` on the content of the id storage: the identity, and what is written back; nothing while the loop
of `create` runs. -/
def init (S : Sodium) (keys : KeySource) (fuel : ℕ) (id_string : Bytes) : Checked (Option (Identity × Option Bytes)) := do
  let identity ← (if id_string = [] then pure new else deserialize id_string)
  if identity.isValid then return some (identity, none)
  else return (create S keys fuel).map fun identity => (identity, some (identity.serialize S))

end Identity

/-! ## Hex -/

/-- A letter is found at its place. -/
theorem hexLetters_idxOf {n : ℕ} (h : n < 16) : hexLetters.idxOf (hexLetters.getD n 0) = n := by
  have hall : ∀ n ∈ List.range 16, hexLetters.idxOf (hexLetters.getD n 0) = n := by decide +kernel
  exact hall n (List.mem_range.mpr h)

/-- The letters of a byte are those of its two halves. -/
theorem hexByte_halves : ∀ b : UInt8, hexByte b = [hexLetters.getD (b.toNat / 16) 0, hexLetters.getD (b.toNat % 16) 0] :=
  forall_byte (by decide +kernel)

theorem decodePairs_encodeHex (s : Bytes) : decodePairs (encodeHex s) = some s := by
  induction s with
  | nil => rfl
  | cons b s ih =>
    have hb := b.toNat_lt
    have hcons : encodeHex (b :: s) = hexByte b ++ encodeHex s := rfl
    have hfound : ¬ (b.toNat / 16 = 16 ∨ b.toNat % 16 = 16) := by omega
    have hvalue : b.toNat / 16 * 16 + b.toNat % 16 = b.toNat := by omega
    rw [hcons, hexByte_halves, List.cons_append, List.singleton_append, decodePairs, hexLetters_idxOf (by omega),
      hexLetters_idxOf (by omega), if_neg hfound, hvalue, UInt8.ofNat_toNat, ih]
    rfl

theorem encodeHex_length (s : Bytes) : (encodeHex s).length = 2 * s.length := by
  induction s with
  | nil => rfl
  | cons b s ih =>
    have hcons : (encodeHex (b :: s)).length = (encodeHex s).length + 2 := rfl
    rw [hcons, ih, List.length_cons]
    omega

theorem encodeHex_letters (s : Bytes) : ∀ c ∈ encodeHex s, IpAddress.isXDigit c = true := by
  intro c hc
  obtain ⟨b, -, hc⟩ := List.mem_flatMap.mp hc
  exact hexByte_digits b c hc

theorem intSize_of_lt {s : Bytes} (h : s.length < 2 ^ 31) : intSize s = s.length := by
  unfold intSize
  rw [Int.bmod_def]
  omega

theorem decodeHex_encodeHex {s : Bytes} (h : s.length < 2 ^ 30) : decodeHex (encodeHex s) = s := by
  have hlength := encodeHex_length s
  have heven : ¬ (encodeHex s).length % 2 ≠ 0 := by omega
  have hsize : intSize (encodeHex s) = (encodeHex s).length := intSize_of_lt (by omega)
  rw [decodeHex, if_neg heven, hsize, List.take_length, decodePairs_encodeHex]
  rfl

/-! ## Words -/

theorem nextWord_word {w rest : Bytes} (hne : w ≠ []) (hw : ∀ c ∈ w, IpAddress.isSpace c = false)
    (hrest : ∀ c ∈ rest.head?, IpAddress.isSpace c = true) : nextWord (w ++ rest) = (w, rest) := by
  obtain ⟨c, w, rfl⟩ := List.exists_cons_of_ne_nil hne
  have hfirst : (c :: w ++ rest).dropWhile IpAddress.isSpace = c :: w ++ rest := by
    rw [List.cons_append, List.dropWhile_cons_of_neg (by simp [hw c (List.mem_cons_self ..)])]
  have hword : ∀ d ∈ c :: w, (!IpAddress.isSpace d) = true := fun d hd => by simp [hw d hd]
  have hstop : ∀ d ∈ rest.head?, (!IpAddress.isSpace d) = false := fun d hd => by simp [hrest d hd]
  have htake : (c :: w ++ rest).takeWhile (fun d => !IpAddress.isSpace d) = c :: w := takeWhile_append_stop hword hstop
  have hdrop : (c :: w ++ rest).dropWhile (fun d => !IpAddress.isSpace d) = rest := by
    have hsplit := List.takeWhile_append_dropWhile (p := fun d => !IpAddress.isSpace d) (l := c :: w ++ rest)
    rw [htake] at hsplit
    exact List.append_cancel_left hsplit
  rw [nextWord, hfirst, htake, hdrop]

/-- One space in front of a word makes no difference. -/
theorem nextWord_space {c : UInt8} (hc : IpAddress.isSpace c = true) (s : Bytes) : nextWord (c :: s) = nextWord s := by
  rw [nextWord, nextWord, List.dropWhile_cons_of_pos hc]

/-- Three words with a space between them, and a line end. -/
theorem threeWords_line {a b c : Bytes} (ha : a ≠ [] ∧ ∀ x ∈ a, IpAddress.isSpace x = false)
    (hb : b ≠ [] ∧ ∀ x ∈ b, IpAddress.isSpace x = false) (hc : c ≠ [] ∧ ∀ x ∈ c, IpAddress.isSpace x = false) :
    threeWords (a ++ 0x20 :: (b ++ 0x20 :: (c ++ [0x0a]))) = (a, b, c) := by
  have hspace : ∀ (s : Bytes), ∀ x ∈ (0x20 :: s : Bytes).head?, IpAddress.isSpace x = true := by
    rintro s x ⟨⟩
    rfl
  have hend : ∀ x ∈ ([0x0a] : Bytes).head?, IpAddress.isSpace x = true := by
    rintro x ⟨⟩
    rfl
  have hblank : IpAddress.isSpace 0x20 = true := rfl
  rw [threeWords, nextWord_word ha.1 ha.2 (hspace _)]
  simp only [nextWord_space hblank]
  rw [nextWord_word hb.1 hb.2 (hspace _)]
  simp only [nextWord_space hblank]
  rw [nextWord_word hc.1 hc.2 hend]

namespace Identity

theorem hex_word {s : Bytes} (h : s ≠ []) :
    encodeHex s ≠ [] ∧ ∀ c ∈ encodeHex s, IpAddress.isSpace c = false := by
  have hletter : ∀ c, IpAddress.isXDigit c = true → IpAddress.isSpace c = false := forall_byte (by decide +kernel)
  constructor
  · have hlength := encodeHex_length s
    have hpos := List.length_pos_of_ne_nil h
    exact List.ne_nil_of_length_pos (by omega)
  · exact fun c hc => hletter c (encodeHex_letters s c hc)

/-- An address of the network is printed as one word. -/
theorem address_word {a : HusarnetAddress} (h : a.isFC94 = true) :
    a.toString ≠ [] ∧ ∀ c ∈ a.toString, IpAddress.isSpace c = false := by
  have hletter : ∀ c, IpAddress.isXDigit c = true → IpAddress.isSpace c = false := forall_byte (by decide +kernel)
  have hmapped : a.isMappedV4 = false := by
    refine Bool.eq_false_iff.mpr fun hm => ?_
    have hzero : a.byte 0 = 0 := by
      have hfront : a.data.bytes.take 12 = [0, 0, 0, 0, 0, 0, 0, 0, 0, 0, 0xff, 0xff] := beq_iff_eq.mp hm
      have hget : (a.data.bytes.take 12).getD 0 0 = a.byte 0 := by
        simp [IpAddress.byte, FString.get, List.getD_eq_getElem?_getD]
      rw [← hget, hfront]
      rfl
    simp [IpAddress.isFC94, hzero] at h
  refine ⟨List.ne_nil_of_mem (IpAddress.colon_mem_toString hmapped), fun c hc => ?_⟩
  rw [IpAddress.toString_groups hmapped] at hc
  obtain rfl | ⟨text, ht, hc⟩ := mem_intercalate hc
  · rfl
  · obtain ⟨i, -, rfl⟩ := List.mem_map.mp ht
    exact hletter c (IpAddress.groupText_hex a i c hc)

/-- What the stored line is. -/
theorem serialize_line (S : Sodium) (i : Identity) :
    i.serialize S = (NgSocketCrypto.pubkeyToDeviceId S i.pubkey).toString ++
      0x20 :: (encodeHex i.pubkey.bytes ++ 0x20 :: (encodeHex i.privkey.bytes ++ [0x0a])) := by
  have hspace : ascii " " = [0x20] := rfl
  have hend : ascii "\n" = [0x0a] := rfl
  rw [serialize, hspace, hend]
  simp only [List.append_assoc, List.cons_append, List.nil_append]

/-- The words of the stored line. -/
theorem threeWords_serialize (S : Sodium) (i : Identity) (h : (NgSocketCrypto.pubkeyToDeviceId S i.pubkey).isFC94 = true) :
    threeWords (i.serialize S) =
      ((NgSocketCrypto.pubkeyToDeviceId S i.pubkey).toString, encodeHex i.pubkey.bytes, encodeHex i.privkey.bytes) := by
  have hpub : i.pubkey.bytes ≠ [] := List.ne_nil_of_length_pos (by rw [i.pubkey.size_eq]; decide)
  have hpriv : i.privkey.bytes ≠ [] := List.ne_nil_of_length_pos (by rw [i.privkey.size_eq]; decide)
  rw [serialize_line]
  exact threeWords_line (address_word h) (hex_word hpub) (hex_word hpriv)

/-- A key read from its hex text. -/
theorem key_read {n : ℕ} (key : FString n) (h : n < 2 ^ 30) : FString.ofString n (decodeHex (encodeHex key.bytes)) = .ok key := by
  rw [decodeHex_encodeHex (by rwa [key.size_eq]), FString.ofString_bytes]

/-- **The identity survives storage.** -/
theorem deserialize_serialize (S : Sodium) (pubkey : FString 32) (privkey : FString 64)
    (h : (NgSocketCrypto.pubkeyToDeviceId S pubkey).isFC94 = true) :
    let i : Identity := ⟨pubkey, privkey, NgSocketCrypto.pubkeyToDeviceId S pubkey⟩
    deserialize (i.serialize S) = .ok i ∧ i.isValid = true := by
  intro i
  have hne : i.serialize S ≠ [] := by
    rw [serialize_line]
    simp
  refine ⟨?_, h⟩
  rw [deserialize, if_neg hne, threeWords_serialize S i h]
  simp only [key_read i.pubkey (by decide), key_read i.privkey (by decide), IpAddress.read_toString]
  rfl

/-- The key that starts with a one. -/
theorem deserialize_serialize_clear :
    deserialize ((clearIdentity 1).serialize clearSodium) = .ok (clearIdentity 1) ∧ (clearIdentity 1).isValid = true :=
  deserialize_serialize clearSodium (.pad 32 [1]) (.pad 64 [1]) (by decide)

end Identity

/-! ## What decodeHex reads -/

theorem hexByte_pair {a b : UInt8} (ha : hexLetters.idxOf a ≠ 16) (hb : hexLetters.idxOf b ≠ 16) :
    hexByte (UInt8.ofNat (hexLetters.idxOf a * 16 + hexLetters.idxOf b)) = [a, b] := by
  have hletter : ∀ c : UInt8, hexLetters.idxOf c ≠ 16 →
      hexLetters.idxOf c < 16 ∧ hexLetters.getD (hexLetters.idxOf c) 0 = c := forall_byte (by decide +kernel)
  obtain ⟨hlow, hfirst⟩ := hletter a ha
  obtain ⟨hlow', hsecond⟩ := hletter b hb
  have hvalue : (UInt8.ofNat (hexLetters.idxOf a * 16 + hexLetters.idxOf b)).toNat =
      hexLetters.idxOf a * 16 + hexLetters.idxOf b := by
    rw [UInt8.toNat_ofNat']
    omega
  have hhigh : (hexLetters.idxOf a * 16 + hexLetters.idxOf b) / 16 = hexLetters.idxOf a := by omega
  have hrest : (hexLetters.idxOf a * 16 + hexLetters.idxOf b) % 16 = hexLetters.idxOf b := by omega
  rw [hexByte_halves, hvalue, hhigh, hrest, hfirst, hsecond]

theorem encodeHex_of_decodePairs (s : Bytes) : s.length % 2 = 0 → ∀ data, decodePairs s = some data → s = encodeHex data := by
  fun_induction decodePairs s with
  | case1 a b s hnone => exact fun _ data h => by cases h
  | case2 a b s hfound ih =>
    intro heven data h
    rw [not_or] at hfound
    obtain ⟨rest, hrest, rfl⟩ := Option.map_eq_some_iff.mp h
    have hlength : s.length % 2 = 0 := by
      simp only [List.length_cons] at heven
      omega
    have hcons : encodeHex (UInt8.ofNat (hexLetters.idxOf a * 16 + hexLetters.idxOf b) :: rest) =
        hexByte (UInt8.ofNat (hexLetters.idxOf a * 16 + hexLetters.idxOf b)) ++ encodeHex rest := rfl
    rw [hcons, hexByte_pair hfound.1 hfound.2, ← ih hlength rest hrest]
    rfl
  | case3 s hshort =>
    intro heven data h
    cases s with
    | nil =>
      cases h
      rfl
    | cons a s =>
      cases s with
      | nil => exact absurd heven (by simp)
      | cons b s => exact absurd rfl (hshort a b s)

theorem decodePairs_eq_some_iff {s : Bytes} (heven : s.length % 2 = 0) (data : Bytes) :
    decodePairs s = some data ↔ s = encodeHex data := by
  refine ⟨encodeHex_of_decodePairs s heven data, ?_⟩
  rintro rfl
  exact decodePairs_encodeHex data

/-- A word that starts with the hex text of a key, as far as it is read, and goes on in pairs of lower-case letters. -/
def HoldsKey {n : ℕ} (word : Bytes) (key : FString n) : Prop :=
  word.length % 2 = 0 ∧ ∃ more, word.take (intSize word) = encodeHex (key.bytes ++ more)

theorem intSize_even {w : Bytes} (h : w.length % 2 = 0) : (w.take (intSize w)).length % 2 = 0 := by
  rw [List.length_take]
  unfold intSize
  rw [Int.bmod_def]
  omega

theorem FString.ofString_eq_ok {n : ℕ} {s : Bytes} {key : FString n} :
    ofString n s = .ok key ↔ ∃ more, s = key.bytes ++ more := by
  constructor
  · intro h
    unfold ofString at h
    split at h
    · cases h
      exact ⟨s.drop n, (List.take_append_drop n s).symm⟩
    · cases h
  · rintro ⟨more, rfl⟩
    have hlength : n ≤ (key.bytes ++ more).length := by
      rw [List.length_append, key.size_eq]
      omega
    rw [ofString, dif_pos hlength]
    congr 1
    ext1
    exact List.take_left' key.size_eq

/-- **The assertion of `fstring` holds** of what was decoded exactly if the word holds a key, and then it is this key. -/
theorem ofString_decodeHex {n : ℕ} (hn : 0 < n) {word : Bytes} {key : FString n} :
    FString.ofString n (decodeHex word) = .ok key ↔ HoldsKey word key := by
  have hne (more : Bytes) : key.bytes ++ more ≠ [] := by
    refine List.append_ne_nil_of_left_ne_nil (List.ne_nil_of_length_pos ?_) more
    rwa [key.size_eq]
  rw [FString.ofString_eq_ok]
  constructor
  · rintro ⟨more, hmore⟩
    unfold decodeHex at hmore
    split at hmore
    · exact absurd hmore.symm (hne more)
    · rename_i heven
      rw [not_not] at heven
      refine ⟨heven, more, (decodePairs_eq_some_iff (intSize_even heven) _).mp ?_⟩
      cases hpairs : decodePairs (word.take (intSize word)) with
      | none =>
        rw [hpairs] at hmore
        exact absurd hmore.symm (hne more)
      | some data =>
        rw [hpairs] at hmore
        rw [← hmore]
        rfl
  · rintro ⟨heven, more, hmore⟩
    refine ⟨more, ?_⟩
    rw [decodeHex, if_neg (not_not.mpr heven), hmore, decodePairs_encodeHex]
    rfl

/-! ## init -/

namespace Identity
variable {S : Sodium} {keys : KeySource}

/-- The identity of the `n`-th draw. -/
def drawn (S : Sodium) (keys : KeySource) (n : ℕ) : Identity :=
  ⟨(keys n).1, (keys n).2, NgSocketCrypto.pubkeyToDeviceId S (keys n).1⟩

/-- The loop ends at a draw that passes the test, at the latest. -/
theorem createLoop_ready (d : ℕ) : ∀ (m : ℕ) (i : Identity), (drawn S keys (m + d)).isValid = true →
    (i.isValid = true → i.Ready S) → ∃ r, r.Ready S ∧ ∀ fuel, d + 2 ≤ fuel → createLoop S keys fuel m i = some r := by
  induction d with
  | zero =>
    intro m i hgood hi
    by_cases hv : i.isValid = true
    · refine ⟨i, hi hv, fun fuel hfuel => ?_⟩
      obtain ⟨fuel, rfl⟩ := Nat.exists_eq_add_of_le' hfuel
      exact if_pos hv
    · refine ⟨drawn S keys m, ⟨hgood, rfl⟩, fun fuel hfuel => ?_⟩
      obtain ⟨fuel, rfl⟩ := Nat.exists_eq_add_of_le' hfuel
      have hnext : createLoop S keys (fuel + 1) (m + 1) (drawn S keys m) = some (drawn S keys m) := if_pos hgood
      exact (if_neg hv).trans hnext
  | succ d ih =>
    intro m i hgood hi
    by_cases hv : i.isValid = true
    · refine ⟨i, hi hv, fun fuel hfuel => ?_⟩
      obtain ⟨fuel, rfl⟩ := Nat.exists_eq_add_of_le' hfuel
      exact if_pos hv
    · have hnext : m + (d + 1) = m + 1 + d := by omega
      rw [hnext] at hgood
      obtain ⟨r, hr, hloop⟩ := ih (m + 1) (drawn S keys m) hgood fun hvalid => ⟨hvalid, rfl⟩
      refine ⟨r, hr, fun fuel hfuel => ?_⟩
      obtain ⟨fuel, rfl⟩ := Nat.exists_eq_add_of_le' hfuel
      exact (if_neg hv).trans (hloop (fuel + (d + 1 + 1)) (by omega))

/-- `create` returns once a draw passes the test, and what it returns is what `NgSocket::init` asserts. -/
theorem create_ready (h : ∃ n, (drawn S keys n).isValid = true) :
    ∃ r fuel₀, r.Ready S ∧ ∀ fuel, fuel₀ ≤ fuel → create S keys fuel = some r := by
  obtain ⟨n, hn⟩ := h
  rw [← Nat.zero_add n] at hn
  obtain ⟨r, hr, hloop⟩ := createLoop_ready n 0 new hn fun hv => absurd hv (by decide)
  exact ⟨r, n + 2, hr, hloop⟩

theorem deserialize_eq_ok {content : Bytes} (hne : content ≠ []) {i : Identity} :
    deserialize content = .ok i ↔ ∃ pubkey privkey, HoldsKey (threeWords content).2.1 pubkey ∧
      HoldsKey (threeWords content).2.2 privkey ∧ i = ⟨pubkey, privkey, .parse (threeWords content).1⟩ := by
  rw [deserialize, if_neg hne]
  constructor
  · intro h
    obtain ⟨pubkey, hpub, h⟩ := Checked.bind_eq_ok.mp h
    obtain ⟨privkey, hpriv, h⟩ := Checked.bind_eq_ok.mp h
    cases h
    exact ⟨pubkey, privkey, (ofString_decodeHex (by decide)).mp hpub, (ofString_decodeHex (by decide)).mp hpriv, rfl⟩
  · rintro ⟨pubkey, privkey, hpub, hpriv, rfl⟩
    refine Checked.bind_eq_ok.mpr ⟨pubkey, (ofString_decodeHex (by decide)).mpr hpub, ?_⟩
    exact Checked.bind_eq_ok.mpr ⟨privkey, (ofString_decodeHex (by decide)).mpr hpriv, rfl⟩

/-- `init` comes to an end without a violation, with an identity that `NgSocket::init` accepts. -/
def InitReady (S : Sodium) (keys : KeySource) (content : Bytes) : Prop :=
  ∃ (i : Identity) (written : Option Bytes) (fuel₀ : ℕ), i.Ready S ∧
    ∀ fuel, fuel₀ ≤ fuel → init S keys fuel content = .ok (some (i, written))

/-- An identity that is not valid is replaced by one that is ready. -/
theorem init_replaced {content : Bytes} {i : Identity} (hkeys : ∃ n, (drawn S keys n).isValid = true)
    (hread : (if content = [] then pure new else deserialize content) = (.ok i : Checked Identity)) (hi : ¬ i.isValid = true) :
    InitReady S keys content := by
  obtain ⟨r, fuel₀, hr, hcreate⟩ := create_ready hkeys
  refine ⟨r, some (r.serialize S), fuel₀, hr, fun fuel hfuel => ?_⟩
  refine Checked.bind_eq_ok.mpr ⟨i, hread, ?_⟩
  rw [if_neg hi, hcreate fuel hfuel]
  rfl

/-- **A stored identity is good for the node** exactly if the storage is empty, or the second and the third word
hold keys and an address of the network in the first word is that of the key in the second. -/
theorem init_ready_iff (S : Sodium) (keys : KeySource)
    (hkeys : ∃ n, (NgSocketCrypto.pubkeyToDeviceId S (keys n).1).isFC94 = true) (content : Bytes) :
    InitReady S keys content ↔ content = [] ∨ ∃ (pubkey : FString 32) (privkey : FString 64),
      HoldsKey (threeWords content).2.1 pubkey ∧ HoldsKey (threeWords content).2.2 privkey ∧
        ((IpAddress.parse (threeWords content).1).isFC94 = true →
          NgSocketCrypto.pubkeyToDeviceId S pubkey = .parse (threeWords content).1) := by
  constructor
  · rintro ⟨i, written, fuel, hready, hinit⟩
    by_cases hne : content = []
    · exact Or.inl hne
    · right
      obtain ⟨read, hread, hrest⟩ := Checked.bind_eq_ok.mp (hinit fuel le_rfl)
      rw [if_neg hne] at hread
      obtain ⟨pubkey, privkey, hpub, hpriv, rfl⟩ := (deserialize_eq_ok hne).mp hread
      refine ⟨pubkey, privkey, hpub, hpriv, fun hfc => ?_⟩
      rw [if_pos (by exact hfc)] at hrest
      cases hrest
      exact hready.fromKey
  · rintro (hempty | ⟨pubkey, privkey, hpub, hpriv, hmatch⟩)
    · exact init_replaced hkeys (if_pos hempty) (by decide)
    · have hne : content ≠ [] := by
        rintro rfl
        obtain ⟨-, more, hmore⟩ := hpub
        have hlength := congrArg List.length hmore
        rw [encodeHex_length, List.length_append, pubkey.size_eq] at hlength
        have hnone : (threeWords []).2.1 = [] := rfl
        rw [hnone, List.take_nil, List.length_nil] at hlength
        omega
      have hread := (deserialize_eq_ok hne).mpr ⟨pubkey, privkey, hpub, hpriv, rfl⟩
      by_cases hfc : (IpAddress.parse (threeWords content).1).isFC94 = true
      · refine ⟨⟨pubkey, privkey, .parse (threeWords content).1⟩, none, 0, ⟨hfc, hmatch hfc⟩, fun fuel _ => ?_⟩
        exact Checked.bind_eq_ok.mpr ⟨_, (if_neg hne).trans hread, if_pos hfc⟩
      · exact init_replaced hkeys ((if_neg hne).trans hread) hfc

/-- A storage that holds a stored identity. -/
theorem init_ready_iff_stored :
    InitReady clearSodium (fun _ => (.pad 32 [2], .pad 64 [2])) ((clearIdentity 1).serialize clearSodium) := by
  refine (init_ready_iff clearSodium (fun _ => (.pad 32 [2], .pad 64 [2])) ⟨0, by decide⟩ _).mpr
    (Or.inr ⟨.pad 32 [1], .pad 64 [1], ?_⟩)
  rw [threeWords_serialize clearSodium (clearIdentity 1) (by decide), IpAddress.read_toString]
  exact ⟨(ofString_decodeHex (by decide)).mp (key_read _ (by decide)),
    (ofString_decodeHex (by decide)).mp (key_read _ (by decide)), fun _ => rfl⟩

/-- A file of one word ends in the assertion of `fstring`. -/
theorem one_word_not_ready : ¬ InitReady clearSodium (fun _ => (.pad 32 [1], .pad 64 [1])) (ascii "garbage") := by
  rintro ⟨i, written, fuel, -, hinit⟩
  obtain ⟨read, hok, -⟩ := Checked.bind_eq_ok.mp (hinit fuel le_rfl)
  have hread : deserialize (ascii "garbage") = .error .shortString := rfl
  rw [if_neg (by decide), hread] at hok
  cases hok

end Identity

end Husarnet
