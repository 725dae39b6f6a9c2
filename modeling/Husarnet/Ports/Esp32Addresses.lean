import Husarnet.AddressText
import Mathlib.Data.List.Forall2
import Mathlib.Data.List.ReduceOption

/-! # The addresses of an ESP32

`Port::getLocalAddresses` prints every address into a buffer and rebuilds it from the bytes of the buffer, which are
characters. Which addresses survive that, for a printer that writes the usual text form.
-/

namespace Husarnet
open Octets Numerals JoinedTexts
set_option autoImplicit false

namespace Esp32

/-! ## The usual text form -/

def hexDigit (upper : Bool) (d : ℕ) : UInt8 :=
  if d < 10 then 0x30 + UInt8.ofNat d else (if upper then 0x37 else 0x57) + UInt8.ofNat d

/-- A number below 65536 without leading zeros. -/
def hexText (upper : Bool) (n : ℕ) : Bytes :=
  if n < 0x10 then [hexDigit upper n]
  else if n < 0x100 then [hexDigit upper (n / 0x10), hexDigit upper (n % 0x10)]
  else if n < 0x1000 then [hexDigit upper (n / 0x100), hexDigit upper (n / 0x10 % 0x10), hexDigit upper (n % 0x10)]
  else [hexDigit upper (n / 0x1000), hexDigit upper (n / 0x100 % 0x10), hexDigit upper (n / 0x10 % 0x10),
    hexDigit upper (n % 0x10)]

def groups (a : FString 16) : List ℕ := (List.range 8).map fun i => (a.get (2 * i)).toNat * 256 + (a.get (2 * i + 1)).toNat

def groupsText (upper : Bool) (gs : List ℕ) : Bytes := [0x3a].intercalate (gs.map (hexText upper))

def ip4Text (bytes : Bytes) : Bytes := [0x2e].intercalate (bytes.map fun b => decimalText b.toNat)

/-- The usual text form of an IPv6 address: its groups with colons between them, one run of zero groups written as two
colons or none, and the last four bytes of a mapped address in decimal. -/
inductive UsualText (upper : Bool) (a : FString 16) : Bytes → Prop where
  | full : UsualText upper a (groupsText upper (groups a))
  | compressed (front back : List ℕ) (zeros : ℕ) (h : groups a = front ++ List.replicate (zeros + 1) 0 ++ back) :
      UsualText upper a (groupsText upper front ++ [0x3a, 0x3a] ++ groupsText upper back)
  | mapped (h : a.bytes.take 12 = [0, 0, 0, 0, 0, 0, 0, 0, 0, 0, 0xff, 0xff]) :
      UsualText upper a ([0x3a, 0x3a] ++ hexText upper 0xffff ++ [0x3a] ++ ip4Text (a.bytes.drop 12))

/-! ## getLocalAddresses -/

structure Netif where
  ip6_addr : List (Option (FString 16))
  ip4_addr : Option (FString 4)

/-- The lwIP library: the interface of an index, the tests of addresses, and their printers. -/
structure LwIp where
  netif_get_by_index : UInt8 → Option Netif
  ip6_addr_isany : FString 16 → Bool
  ip6_addr_isloopback : FString 16 → Bool
  ip4_addr_isany : FString 4 → Bool
  ip4_addr_isloopback : FString 4 → Bool
  ip6addr_ntoa_r : FString 16 → Bytes
  ip4addr_ntoa_r : FString 4 → Bytes

/-- The tests by the bytes: of the any-address, and of `::1` or `127.0.0.0/8`. -/
def anyIp6 (a : FString 16) : Bool := a.bytes == List.replicate 16 0
def loopbackIp6 (a : FString 16) : Bool := a.bytes == List.replicate 15 0 ++ [1]
def anyIp4 (a : FString 4) : Bool := a.bytes == List.replicate 4 0
def loopbackIp4 (a : FString 4) : Bool := a.get 0 == 127

/-- The tests are those of these addresses. -/
structure LwIp.TestsAddresses (L : LwIp) : Prop where
  any6 : ∀ a, L.ip6_addr_isany a = anyIp6 a
  loopback6 : ∀ a, L.ip6_addr_isloopback a = loopbackIp6 a
  any4 : ∀ a, L.ip4_addr_isany a = anyIp4 a
  loopback4 : ∀ a, L.ip4_addr_isloopback a = loopbackIp4 a

/-- The printers write the usual text forms. -/
structure LwIp.PrintsUsual (L : LwIp) (upper : Bool) : Prop where
  text6 : ∀ a, UsualText upper a (L.ip6addr_ntoa_r a)
  text4 : ∀ a, L.ip4addr_ntoa_r a = ip4Text a.bytes

def IP6ADDR_STRLEN_MAX : ℕ := 46

/-- `char buf[IP6ADDR_STRLEN_MAX]`. -/
abbrev Buffer : Type := FString IP6ADDR_STRLEN_MAX

/-- A text and its NUL in the buffer; what stood behind them stays. -/
def Buffer.print (buf : Buffer) (text : Bytes) : Buffer :=
  ⟨(text ++ 0 :: buf.bytes.drop (text.length + 1)).take IP6ADDR_STRLEN_MAX, by
    refine List.length_take_of_le ?_
    have hsize : buf.bytes.length = IP6ADDR_STRLEN_MAX := buf.size_eq
    rw [List.length_append, List.length_cons, List.length_drop, hsize]
    omega⟩

theorem Buffer.room (buf : Buffer) : 16 ≤ buf.bytes.length := by
  have hsize : buf.bytes.length = IP6ADDR_STRLEN_MAX := buf.size_eq
  rw [hsize]
  decide

/-- One IPv6 address of an interface, with the buffer and the result. -/
def ip6Step (L : LwIp) (st : Buffer × List IpAddress) (ipv6 : Option (FString 16)) : Buffer × List IpAddress :=
  match ipv6 with
  | none => st
  | some ipv6 =>
    if L.ip6_addr_isany ipv6 || L.ip6_addr_isloopback ipv6 then st
    else
      let buf := st.1.print (L.ip6addr_ntoa_r ipv6)
      (buf, st.2 ++ [IpAddress.fromBinary buf.bytes buf.room])

def ip4Step (L : LwIp) (st : Buffer × List IpAddress) (ipv4 : Option (FString 4)) : List IpAddress :=
  match ipv4 with
  | none => st.2
  | some ipv4 =>
    if L.ip4_addr_isany ipv4 || L.ip4_addr_isloopback ipv4 then st.2
    else
      let buf := st.1.print (L.ip4addr_ntoa_r ipv4)
      st.2 ++ [IpAddress.fromBinary4 buf.bytes (Nat.le_trans (by decide) buf.room)]

/-- One turn of the loop over the interfaces: the buffer is a new one, with whatever is in that memory. -/
def netifStep (L : LwIp) (memory : Buffer) (result : List IpAddress) (netif : Netif) : List IpAddress :=
  ip4Step L (netif.ip6_addr.foldl (ip6Step L) (memory, result)) netif.ip4_addr

/-- The loop over the interfaces, from `idx` on: `u8_t` runs over to zero, where there is none. -/
def netifLoop (L : LwIp) (memory : UInt8 → Buffer) : ℕ → UInt8 → List IpAddress → List IpAddress
  | 0, _, result => result
  | n + 1, idx, result =>
    match L.netif_get_by_index idx with
    | none => result
    | some netif => netifLoop L memory n (idx + 1) (netifStep L (memory idx) result netif)

/-- `Port::getLocalAddresses`, `memory` being what the buffer of each interface holds at first. -/
def getLocalAddresses (L : LwIp) (memory : UInt8 → Buffer) : List IpAddress := netifLoop L memory 256 1 []

/-! ## The addresses that there are -/

/-- An address of an interface. -/
inductive LocalAddress where
  | ip6 (a : FString 16)
  | ip4 (a : FString 4)
  deriving DecidableEq

namespace LocalAddress

/-- Its value: the 16 bytes, or the mapped form of the four. -/
def value : LocalAddress → IpAddress
  | .ip6 a => IpAddress.fromBinary a.bytes a.size_eq.ge
  | .ip4 a => IpAddress.fromBinary4 a.bytes a.size_eq.ge

/-- Neither the any-address nor loopback. -/
def usable : LocalAddress → Bool
  | .ip6 a => !(anyIp6 a || loopbackIp6 a)
  | .ip4 a => !(anyIp4 a || loopbackIp4 a)

/-- What the code makes of it, by way of a buffer. -/
def reported (L : LwIp) (buf : Buffer) : LocalAddress → IpAddress
  | .ip6 a => IpAddress.fromBinary (buf.print (L.ip6addr_ntoa_r a)).bytes (Buffer.room _)
  | .ip4 a => IpAddress.fromBinary4 (buf.print (L.ip4addr_ntoa_r a)).bytes (Nat.le_trans (by decide) (Buffer.room _))

end LocalAddress

/-- The usable addresses of an interface, in their order. -/
def Netif.addresses (netif : Netif) : List LocalAddress :=
  (netif.ip6_addr.reduceOption.map LocalAddress.ip6 ++ netif.ip4_addr.toList.map LocalAddress.ip4).filter LocalAddress.usable

/-- The interfaces, in the order of their indices. -/
def LwIp.interfaces (L : LwIp) : List Netif := (List.range' 1 255).filterMap fun i => L.netif_get_by_index (UInt8.ofNat i)

/-- The values that should be reported. -/
def LwIp.localAddresses (L : LwIp) : List IpAddress := (L.interfaces.flatMap Netif.addresses).map LocalAddress.value

/-! ## Addresses that spell themselves -/

/-- `3333:3333:3a33:3333:333a:3341:3333:3a33`, or `3361` for `3341` without capitals. -/
def spelled6 (upper : Bool) : FString 16 :=
  ⟨[0x33, 0x33, 0x33, 0x33, 0x3a, 0x33, 0x33, 0x33, 0x33, 0x3a, 0x33, hexDigit upper 10, 0x33, 0x33, 0x3a, 0x33], rfl⟩

/-- `53.51.46.53`. -/
def spelled4 : FString 4 := ⟨[0x35, 0x33, 0x2e, 0x35], rfl⟩

/-- The address of each kind whose bytes are the first characters of its text. -/
def LocalAddress.spelled (upper : Bool) : LocalAddress → Bool
  | .ip6 a => decide (a = spelled6 upper)
  | .ip4 a => decide (a = spelled4)

theorem flatMap_join {sep : UInt8} {texts : List Bytes} (h : texts ≠ []) :
    texts.flatMap (fun text => text ++ [sep]) = [sep].intercalate texts ++ [sep] := by
  induction texts with
  | nil => exact absurd rfl h
  | cons text texts ih =>
    cases texts with
    | nil => simp
    | cons next texts =>
      rw [List.flatMap_cons, ih (List.cons_ne_nil next texts), List.intercalate_cons_cons]
      simp only [List.append_assoc]

theorem flatMap_hexText (upper : Bool) {gs : List ℕ} (h : gs ≠ []) :
    gs.flatMap (fun g => hexText upper g ++ [0x3a]) = groupsText upper gs ++ [0x3a] := by
  have hjoin := @flatMap_join 0x3a (gs.map (hexText upper)) (by simpa using h)
  rwa [List.flatMap_map] at hjoin

theorem groupsText_front (upper : Bool) {gs : List ℕ} {n : ℕ} (hn : n < gs.length) :
    ∃ rest, groupsText upper gs = (gs.take n).flatMap (fun g => hexText upper g ++ [0x3a]) ++ rest := by
  have hne : gs ≠ [] := List.ne_nil_of_length_pos (Nat.zero_lt_of_lt hn)
  have hdrop : gs.drop n ≠ [] := by
    rw [ne_eq, List.drop_eq_nil_iff]
    omega
  refine ⟨groupsText upper (gs.drop n), (List.append_left_inj [0x3a]).mp ?_⟩
  rw [← flatMap_hexText upper hne, List.append_assoc, ← flatMap_hexText upper hdrop, ← List.flatMap_append,
    List.take_append_drop]

/-- The groups that are not zero stand before the two colons. -/
theorem le_front {gs front back : List ℕ} {zeros n : ℕ} (h : gs = front ++ List.replicate (zeros + 1) 0 ++ back)
    (hne : ∀ g ∈ gs.take n, g ≠ 0) : n ≤ front.length := by
  by_contra hlt
  refine hne 0 ?_ rfl
  rw [h, List.append_assoc, List.take_append, List.replicate_succ]
  obtain ⟨m, hm⟩ : ∃ m, n - front.length = m + 1 := ⟨n - front.length - 1, by omega⟩
  rw [hm]
  simp

theorem groups_mapped {a : FString 16} (h : a.bytes.take 12 = [0, 0, 0, 0, 0, 0, 0, 0, 0, 0, 0xff, 0xff]) :
    (groups a).head? = some 0 := by
  have hbyte {i : ℕ} (hi : i < 2) : a.get i = 0 := by
    have hget := congrArg (fun bytes => bytes.getD i 0) h
    simp only [List.getD_eq_getElem?_getD, List.getElem?_take_of_lt (Nat.lt_of_lt_of_le hi (by decide : 2 ≤ 12))] at hget
    rw [FString.get, List.getD_eq_getElem?_getD, hget]
    obtain rfl | rfl : i = 0 ∨ i = 1 := by omega
    · rfl
    · rfl
  have hfirst : (groups a).head? = some ((a.get 0).toNat * 256 + (a.get 1).toNat) := rfl
  rw [hfirst, hbyte (by decide), hbyte (by decide)]
  rfl

/-- As many groups as are not zero stand in front, each with a colon behind it. -/
theorem usualText_front {upper : Bool} {a : FString 16} {text : Bytes} (h : UsualText upper a text) {n : ℕ} (hn : n < 8)
    (hne : ∀ g ∈ (groups a).take n, g ≠ 0) :
    ∃ rest, text = ((groups a).take n).flatMap (fun g => hexText upper g ++ [0x3a]) ++ rest := by
  cases h with
  | full => exact groupsText_front upper hn
  | compressed front back zeros hsplit =>
    have hle : n ≤ front.length := le_front hsplit hne
    have htake : (groups a).take n = front.take n := by rw [hsplit, List.append_assoc, List.take_append_of_le_length hle]
    rw [htake]
    by_cases hfront : front = []
    · subst hfront
      exact ⟨_, by rw [List.take_nil, List.flatMap_nil, List.nil_append]⟩
    · refine ⟨(front.drop n).flatMap (fun g => hexText upper g ++ [0x3a]) ++ ([0x3a] ++ groupsText upper back), ?_⟩
      have hcolons : ([0x3a, 0x3a] : Bytes) = [0x3a] ++ [0x3a] := rfl
      rw [← List.append_assoc, ← List.flatMap_append, List.take_append_drop, flatMap_hexText upper hfront, hcolons]
      simp only [List.append_assoc]
  | mapped hmapped =>
    cases n with
    | zero => exact ⟨_, rfl⟩
    | succ n =>
      obtain ⟨rest, hrest⟩ := List.head?_eq_some_iff.mp (groups_mapped hmapped)
      refine absurd rfl (hne 0 ?_)
      rw [hrest, List.take_succ_cons]
      exact List.mem_cons_self ..

theorem hexText_bytes (upper : Bool) {x : UInt8} (hx : 0x10 ≤ x.toNat) (y : UInt8) :
    hexText upper (x.toNat * 256 + y.toNat) =
      [hexDigit upper (x.toNat / 16), hexDigit upper (x.toNat % 16), hexDigit upper (y.toNat / 16),
        hexDigit upper (y.toNat % 16)] := by
  have hy := y.toNat_lt
  have h1 : (x.toNat * 256 + y.toNat) / 0x1000 = x.toNat / 16 := by omega
  have h2 : (x.toNat * 256 + y.toNat) / 0x100 % 0x10 = x.toNat % 16 := by omega
  have h3 : (x.toNat * 256 + y.toNat) / 0x10 % 0x10 = y.toNat / 16 := by omega
  have h4 : (x.toNat * 256 + y.toNat) % 0x10 = y.toNat % 16 := by omega
  rw [hexText, if_neg (by omega), if_neg (by omega), if_neg (by omega), h1, h2, h3, h4]

theorem usualText_first {upper : Bool} {a : FString 16} {text : Bytes} (h : UsualText upper a text) :
    ∃ c rest, text = c :: rest ∧ 0x30 ≤ c.toNat := by
  have hdigit (d : ℕ) (hd : d < 16) : 0x30 ≤ (hexDigit upper d).toNat := by
    have hall : ∀ d : Fin 16, ∀ upper, 0x30 ≤ (hexDigit upper d.val).toNat := by decide
    exact hall ⟨d, hd⟩ upper
  have hhex (g : ℕ) (hg : g < 65536) : ∃ c rest, hexText upper g = c :: rest ∧ 0x30 ≤ c.toNat := by
    unfold hexText
    split
    · exact ⟨_, _, rfl, hdigit _ (by omega)⟩
    · split
      · exact ⟨_, _, rfl, hdigit _ (by omega)⟩
      · split
        · exact ⟨_, _, rfl, hdigit _ (by omega)⟩
        · exact ⟨_, _, rfl, hdigit _ (by omega)⟩
  have hgroups {front : List ℕ} (hsub : ∀ g ∈ front, g ∈ groups a) (hne : front ≠ []) (behind : Bytes) :
      ∃ c rest, groupsText upper front ++ behind = c :: rest ∧ 0x30 ≤ c.toNat := by
    obtain ⟨g, front, rfl⟩ := List.exists_cons_of_ne_nil hne
    obtain ⟨i, -, hi⟩ := List.mem_map.mp (hsub g (List.mem_cons_self ..))
    obtain ⟨c, rest, htext, hc⟩ := hhex g (by
      have hx := (a.get (2 * i)).toNat_lt
      have hy := (a.get (2 * i + 1)).toNat_lt
      omega)
    rw [groupsText, List.map_cons, htext, intercalate_cons_head]
    exact ⟨c, _, List.cons_append, hc⟩
  cases h with
  | full =>
    have hall := hgroups (fun g hg => hg) (by simp [groups]) []
    rwa [List.append_nil] at hall
  | compressed front back zeros hsplit =>
    by_cases hfront : front = []
    · subst hfront
      exact ⟨0x3a, _, rfl, by decide⟩
    · rw [List.append_assoc]
      refine hgroups (fun g hg => ?_) hfront _
      rw [hsplit, List.append_assoc]
      exact List.mem_append_left _ hg
  | mapped => exact ⟨0x3a, _, rfl, by decide⟩

/-- A byte that is the digit of its own upper half. -/
theorem hexDigit_high {upper : Bool} {b : UInt8} (h : b = hexDigit upper (b.toNat / 16)) : b = 0x33 := by
  have hall : ∀ b : UInt8, ∀ upper, b = hexDigit upper (b.toNat / 16) → b = 0x33 := forall_byte (by decide +kernel)
  exact hall b upper h

theorem hexDigit_three (upper : Bool) : hexDigit upper 3 = 0x33 := by cases upper <;> rfl

/-- A group of four digits and the colon behind it. -/
def groupDigits (upper : Bool) (a : FString 16) (i : ℕ) : Bytes :=
  [hexDigit upper ((a.get (2 * i)).toNat / 16), hexDigit upper ((a.get (2 * i)).toNat % 16),
    hexDigit upper ((a.get (2 * i + 1)).toNat / 16), hexDigit upper ((a.get (2 * i + 1)).toNat % 16), 0x3a]

theorem usualText_digits {upper : Bool} {a : FString 16} {text : Bytes} (h : UsualText upper a text) {n : ℕ} (hn : n < 8)
    (hall : ∀ i < n, 0x10 ≤ (a.get (2 * i)).toNat) :
    ∃ rest, text = (List.range n).flatMap (groupDigits upper a) ++ rest := by
  have htake : (groups a).take n = (List.range n).map fun i => (a.get (2 * i)).toNat * 256 + (a.get (2 * i + 1)).toNat := by
    rw [groups, ← List.map_take, List.take_range, Nat.min_eq_left hn.le]
  have hfront := usualText_front h hn
  rw [htake] at hfront
  obtain ⟨rest, rfl⟩ := hfront (by
    refine List.forall_mem_map.mpr fun i hi => ?_
    have hlow := hall i (List.mem_range.mp hi)
    omega)
  refine ⟨rest, (List.append_left_inj rest).mpr ?_⟩
  rw [List.flatMap_map]
  refine List.flatMap_congr fun i hi => ?_
  rw [hexText_bytes upper (hall i (List.mem_range.mp hi))]
  rfl

/-- The bytes of an address that its text begins with: those at the place of a group are the digits of the group. -/
theorem printed_group {upper : Bool} {a : FString 16} {text behind : Bytes} (htext : UsualText upper a text)
    (h : (text ++ 0 :: behind).take 16 = a.bytes) {i r : ℕ} (hr : r < 5 ∧ 5 * i + r < 16)
    (hall : ∀ j ≤ i, 0x10 ≤ (a.get (2 * j)).toNat) : a.get (5 * i + r) = (groupDigits upper a i).getD r 0 := by
  obtain ⟨rest, rfl⟩ := usualText_digits htext (n := i + 1) (by omega) fun j hj => hall j (by omega)
  have hlength : ((List.range i).flatMap (groupDigits upper a)).length = 5 * i := by
    simp [List.length_flatMap, groupDigits, Nat.mul_comm]
  have hgroup : r < (groupDigits upper a i).length := hr.1
  rw [FString.get, ← h, List.getD_eq_getElem?_getD, List.getElem?_take_of_lt hr.2, List.append_assoc, List.range_succ,
    List.flatMap_append, List.append_assoc, List.getElem?_append_right (by omega), hlength, Nat.add_sub_cancel_left,
    List.flatMap_singleton, List.getElem?_append_left hgroup, ← List.getD_eq_getElem?_getD]

theorem bytes_eq_gets (a : FString 16) : a.bytes = (List.range 16).map a.get := by
  obtain ⟨bytes, hsize⟩ := a
  match bytes, hsize with
  | [_, _, _, _, _, _, _, _, _, _, _, _, _, _, _, _], _ => rfl

/-- The address that its own text begins with is found digit by digit: every digit is that of a byte which is known
already. -/
theorem spelled_ip6 {upper : Bool} {a : FString 16} {text : Bytes} (htext : UsualText upper a text) (behind : Bytes) :
    (text ++ 0 :: behind).take 16 = a.bytes ↔ a = spelled6 upper := by
  have hthree := hexDigit_three upper
  constructor
  · intro h
    have hprinted (i r : ℕ) := @printed_group upper a text behind htext h i r
    have hfirst : 0x10 ≤ (a.get 0).toNat := by
      obtain ⟨c, rest, rfl, hc⟩ := usualText_first htext
      rw [FString.get, ← h]
      exact Nat.le_trans (by decide) hc
    -- the first group has its own upper half as its first digit
    have hone : ∀ j ≤ 0, 0x10 ≤ (a.get (2 * j)).toNat := fun j hj => by rwa [Nat.le_zero.mp hj]
    have e0 : a.get 0 = 0x33 := hexDigit_high (hprinted 0 0 (by decide) hone)
    have e1 : a.get 1 = 0x33 := by rw [hprinted 0 1 (by decide) hone, ← hthree, groupDigits, e0]; rfl
    have e2 : a.get 2 = 0x33 := by rw [hprinted 0 2 (by decide) hone, ← hthree, groupDigits, e1]; rfl
    have e3 : a.get 3 = 0x33 := by rw [hprinted 0 3 (by decide) hone, ← hthree, groupDigits, e1]; rfl
    have e4 : a.get 4 = 0x3a := hprinted 0 4 (by decide) hone
    have htwo : ∀ j ≤ 1, 0x10 ≤ (a.get (2 * j)).toNat := fun j hj => by
      obtain rfl | rfl : j = 0 ∨ j = 1 := by omega
      · exact hfirst
      · rw [e2]; decide
    have e5 : a.get 5 = 0x33 := by rw [hprinted 1 0 (by decide) htwo, ← hthree, groupDigits, e2]; rfl
    have e6 : a.get 6 = 0x33 := by rw [hprinted 1 1 (by decide) htwo, ← hthree, groupDigits, e2]; rfl
    have e7 : a.get 7 = 0x33 := by rw [hprinted 1 2 (by decide) htwo, ← hthree, groupDigits, e3]; rfl
    have e8 : a.get 8 = 0x33 := by rw [hprinted 1 3 (by decide) htwo, ← hthree, groupDigits, e3]; rfl
    have e9 : a.get 9 = 0x3a := hprinted 1 4 (by decide) htwo
    have hall : ∀ j ≤ 3, 0x10 ≤ (a.get (2 * j)).toNat := fun j hj => by
      obtain hj | rfl | rfl : j ≤ 1 ∨ j = 2 ∨ j = 3 := by omega
      · exact htwo j hj
      · rw [e4]; decide
      · rw [e6]; decide
    have hthird : ∀ j ≤ 2, 0x10 ≤ (a.get (2 * j)).toNat := fun j hj => hall j (by omega)
    have e10 : a.get 10 = 0x33 := by rw [hprinted 2 0 (by decide) hthird, ← hthree, groupDigits, e4]; rfl
    have e11 : a.get 11 = hexDigit upper 10 := by rw [hprinted 2 1 (by decide) hthird, groupDigits, e4]; rfl
    have e12 : a.get 12 = 0x33 := by rw [hprinted 2 2 (by decide) hthird, ← hthree, groupDigits, e5]; rfl
    have e13 : a.get 13 = 0x33 := by rw [hprinted 2 3 (by decide) hthird, ← hthree, groupDigits, e5]; rfl
    have e14 : a.get 14 = 0x3a := hprinted 2 4 (by decide) hthird
    have e15 : a.get 15 = 0x33 := by rw [hprinted 3 0 (by decide) hall, ← hthree, groupDigits, e6]; rfl
    apply FString.ext
    rw [bytes_eq_gets]
    simp [spelled6, List.range_succ, e0, e1, e2, e3, e4, e5, e6, e7, e8, e9, e10, e11, e12, e13, e14, e15]
  · rintro rfl
    have hlow : ∀ i < 4, 0x10 ≤ ((spelled6 upper).get (2 * i)).toNat := by cases upper <;> decide +kernel
    have hdigits : ((List.range 4).flatMap (groupDigits upper (spelled6 upper))).take 16 = (spelled6 upper).bytes := by
      cases upper <;> decide +kernel
    obtain ⟨rest, rfl⟩ := usualText_digits htext (by decide) hlow
    rw [List.append_assoc, List.take_append_of_le_length (by simp [List.range_succ, groupDigits]), hdigits]

theorem spelled_ip4 (a : FString 4) (behind : Bytes) :
    (ip4Text a.bytes ++ 0 :: behind).take 4 = a.bytes ↔ a = spelled4 := by
  have hdecimal : ∀ b : UInt8, (decimalText b.toNat).head? = some b → b = 0x35 := forall_byte (by decide +kernel)
  have hfirst : decimalText (0x35 : UInt8).toNat = [0x35, 0x33] := by decide +kernel
  have hsecond : decimalText (0x33 : UInt8).toNat = [0x35, 0x31] := by decide +kernel
  obtain ⟨bytes, hsize⟩ := a
  match bytes, hsize with
  | [a, b, c, d], hsize =>
    have htext : ip4Text [a, b, c, d] = decimalText a.toNat ++ 0x2e :: (decimalText b.toNat ++ 0x2e ::
        (decimalText c.toNat ++ 0x2e :: decimalText d.toNat)) := by
      simp [ip4Text, List.intercalate_cons_cons]
    dsimp only
    rw [htext]
    constructor
    · intro h
      obtain rfl : a = 0x35 := by
        refine hdecimal a ?_
        have hhead := congrArg List.head? h
        obtain ⟨digit, digits, hdigits⟩ := List.exists_cons_of_ne_nil (decimalText_ne_nil a.toNat)
        rw [hdigits] at hhead ⊢
        exact hhead
      rw [hfirst] at h
      simp only [List.cons_append, List.nil_append, List.take_succ_cons, List.cons.injEq] at h
      obtain ⟨-, rfl, rfl, h⟩ := h
      rw [hsecond] at h
      simp only [List.cons_append, List.take_succ_cons, List.cons.injEq] at h
      obtain ⟨rfl, -⟩ := h
      rfl
    · intro h
      have hbytes := congrArg FString.bytes h
      simp only [spelled4, List.cons.injEq] at hbytes
      obtain ⟨rfl, rfl, rfl, rfl, -⟩ := hbytes
      rw [hfirst, hsecond]
      rfl

/-! ## What is reported -/

section Reported
variable {L : LwIp} {upper : Bool} (husual : L.PrintsUsual upper) (htests : L.TestsAddresses)

include husual in
/-- An address is reported as it is if and only if it spells itself, whatever is left in the buffer. -/
theorem reported_eq_value_iff (buf : Buffer) (x : LocalAddress) :
    x.reported L buf = x.value ↔ x.spelled upper = true := by
  have htake (buf : Buffer) (text : Bytes) {n : ℕ} (hn : n ≤ IP6ADDR_STRLEN_MAX) :
      (buf.print text).bytes.take n = (text ++ 0 :: buf.bytes.drop (text.length + 1)).take n := by
    rw [Buffer.print, List.take_take, Nat.min_eq_left hn]
  have hvalue {n : ℕ} (a : FString n) : a.bytes.take n = a.bytes := List.take_of_length_le a.size_eq.le
  cases x with
  | ip6 a =>
    have hspelled := spelled_ip6 (husual.text6 a) (buf.bytes.drop ((L.ip6addr_ntoa_r a).length + 1))
    rw [LocalAddress.spelled, decide_eq_true_eq, ← hspelled, ← htake buf _ (by decide)]
    simp only [LocalAddress.reported, LocalAddress.value, IpAddress.fromBinary, IpAddress.mk.injEq, FString.mk.injEq,
      hvalue]
  | ip4 a =>
    have hspelled := spelled_ip4 a (buf.bytes.drop ((ip4Text a.bytes).length + 1))
    rw [LocalAddress.spelled, decide_eq_true_eq, ← hspelled, ← htake buf _ (by decide)]
    simp only [LocalAddress.reported, LocalAddress.value, IpAddress.fromBinary4, IpAddress.mk.injEq, FString.mk.injEq,
      hvalue, List.append_right_inj, husual.text4]

/-- The value is what the code makes of the address, by way of some buffer. -/
def Reported (L : LwIp) (x : LocalAddress) (value : IpAddress) : Prop := ∃ buf, value = x.reported L buf

include husual in
theorem reported_values_iff {xs : List LocalAddress} {values : List IpAddress} (h : List.Forall₂ (Reported L) xs values) :
    values = xs.map LocalAddress.value ↔ ∀ x ∈ xs, x.spelled upper = true := by
  induction h with
  | nil => simp
  | cons hfirst _ ih =>
    obtain ⟨buf, rfl⟩ := hfirst
    rw [List.map_cons, List.cons.injEq, reported_eq_value_iff husual, ih, List.forall_mem_cons]

include htests in
theorem foldl_ip6Step (addrs : List (Option (FString 16))) (buf : Buffer) (result : List IpAddress) :
    ∃ buf' values, addrs.foldl (ip6Step L) (buf, result) = (buf', result ++ values) ∧
      List.Forall₂ (Reported L) ((addrs.reduceOption.map LocalAddress.ip6).filter LocalAddress.usable) values := by
  induction addrs generalizing buf result with
  | nil => exact ⟨buf, [], by rw [List.append_nil, List.foldl_nil], List.Forall₂.nil⟩
  | cons ipv6 addrs ih =>
    rw [List.foldl_cons]
    cases ipv6 with
    | none => exact ih buf result
    | some a =>
      rw [List.reduceOption_cons_of_some, List.map_cons, ip6Step]
      dsimp only
      rw [htests.any6, htests.loopback6]
      cases husable : anyIp6 a || loopbackIp6 a with
      | true =>
        rw [if_pos rfl, List.filter_cons_of_neg (by simp [LocalAddress.usable, husable])]
        exact ih buf result
      | false =>
        obtain ⟨buf', values, hfold, hvalues⟩ := ih (buf.print (L.ip6addr_ntoa_r a))
          (result ++ [IpAddress.fromBinary (buf.print (L.ip6addr_ntoa_r a)).bytes (Buffer.room _)])
        rw [if_neg Bool.false_ne_true, List.filter_cons_of_pos (by simp [LocalAddress.usable, husable]), hfold]
        exact ⟨buf', _ :: values, by rw [List.append_assoc]; rfl, .cons ⟨buf, rfl⟩ hvalues⟩

include htests in
theorem ip4Step_eq (buf : Buffer) (result : List IpAddress) (ipv4 : Option (FString 4)) :
    ∃ values, ip4Step L (buf, result) ipv4 = result ++ values ∧
      List.Forall₂ (Reported L) ((ipv4.toList.map LocalAddress.ip4).filter LocalAddress.usable) values := by
  cases ipv4 with
  | none => exact ⟨[], (List.append_nil result).symm, List.Forall₂.nil⟩
  | some a =>
    rw [ip4Step]
    dsimp only
    rw [htests.any4, htests.loopback4]
    cases husable : anyIp4 a || loopbackIp4 a with
    | true =>
      refine ⟨[], (if_pos rfl).trans (List.append_nil result).symm, ?_⟩
      simp [LocalAddress.usable, husable]
    | false =>
      refine ⟨_, if_neg Bool.false_ne_true, ?_⟩
      simp only [LocalAddress.usable, husable, Option.toList_some, List.map_cons, List.map_nil, Bool.not_false,
        List.filter_cons_of_pos, List.filter_nil]
      exact .cons ⟨buf, rfl⟩ .nil

include htests in
theorem netifStep_eq (memory : Buffer) (result : List IpAddress) (netif : Netif) :
    ∃ values, netifStep L memory result netif = result ++ values ∧ List.Forall₂ (Reported L) netif.addresses values := by
  obtain ⟨buf, values, hfold, hvalues⟩ := foldl_ip6Step htests netif.ip6_addr memory result
  obtain ⟨values', hstep, hvalues'⟩ := ip4Step_eq htests buf (result ++ values) netif.ip4_addr
  refine ⟨values ++ values', by rw [netifStep, hfold, hstep, List.append_assoc], ?_⟩
  rw [Netif.addresses, List.filter_append]
  exact List.rel_append hvalues hvalues'

/-- The interfaces up to the first index without one. -/
def LwIp.visited (L : LwIp) (i n : ℕ) : List Netif :=
  (((List.range' i n).map fun i => L.netif_get_by_index (UInt8.ofNat i)).takeWhile Option.isSome).reduceOption

include htests in
theorem netifLoop_eq (hzero : L.netif_get_by_index 0 = none) (memory : UInt8 → Buffer) (n : ℕ) {i : ℕ}
    (hi : i + n = 256) (result : List IpAddress) :
    ∃ values, netifLoop L memory (n + 1) (UInt8.ofNat i) result = result ++ values ∧
      List.Forall₂ (Reported L) ((L.visited i n).flatMap Netif.addresses) values := by
  induction n generalizing i result with
  | zero =>
    obtain rfl : i = 256 := by omega
    have hwrapped : UInt8.ofNat 256 = 0 := rfl
    rw [netifLoop, hwrapped, hzero]
    exact ⟨[], (List.append_nil result).symm, List.Forall₂.nil⟩
  | succ n ih =>
    have hnext : UInt8.ofNat i + 1 = UInt8.ofNat (i + 1) := (UInt8.ofNat_add i 1).symm
    rw [netifLoop, LwIp.visited, List.range'_succ, List.map_cons]
    cases hnetif : L.netif_get_by_index (UInt8.ofNat i) with
    | none => exact ⟨[], (List.append_nil result).symm, List.Forall₂.nil⟩
    | some netif =>
      obtain ⟨values, hstep, hvalues⟩ := netifStep_eq htests (memory (UInt8.ofNat i)) result netif
      have hrest : i + 1 + n = 256 := by omega
      obtain ⟨values', hloop, hvalues'⟩ := ih hrest (result ++ values)
      dsimp only
      rw [hstep, hnext, hloop, List.append_assoc]
      refine ⟨values ++ values', rfl, ?_⟩
      rw [List.takeWhile_cons_of_pos (by rfl), List.reduceOption_cons_of_some, List.flatMap_cons]
      exact List.rel_append hvalues hvalues'

theorem mem_dropWhile_isSome {α : Type} {l : List (Option α)} {x : α} :
    some x ∈ l.dropWhile Option.isSome ↔ ∃ i : ℕ, l[i]? = some (some x) ∧ ∃ j : ℕ, j < i ∧ l[j]? = some none := by
  induction l with
  | nil => simp
  | cons y l ih =>
    cases y with
    | none =>
      rw [List.dropWhile_cons_of_neg (by simp), List.mem_cons, or_iff_right (Option.some_ne_none x), List.mem_iff_getElem?]
      constructor
      · rintro ⟨i, hi⟩
        exact ⟨i + 1, hi, 0, by omega, rfl⟩
      · rintro ⟨i, hi, j, hj, -⟩
        obtain ⟨i, rfl⟩ := Nat.exists_eq_add_of_lt hj
        exact ⟨j + i, hi⟩
    | some y =>
      rw [List.dropWhile_cons_of_pos (by rfl), ih]
      constructor
      · rintro ⟨i, hi, j, hj, hgap⟩
        exact ⟨i + 1, hi, j + 1, by omega, hgap⟩
      · rintro ⟨i, hi, j, hj, hgap⟩
        cases j with
        | zero => cases hgap
        | succ j =>
          obtain ⟨i, rfl⟩ := Nat.exists_eq_add_of_lt hj
          exact ⟨j + 1 + i, hi, j, by omega, hgap⟩

/-- The interfaces are those that the loop gets to, and those behind the first index without one. -/
theorem interfaces_eq (L : LwIp) : L.interfaces = L.visited 1 255 ++
    (((List.range' 1 255).map fun i => L.netif_get_by_index (UInt8.ofNat i)).dropWhile Option.isSome).reduceOption := by
  rw [LwIp.visited, ← List.reduceOption_append, List.takeWhile_append_dropWhile, List.reduceOption, List.filterMap_map]
  rfl

theorem getElem?_indices (L : LwIp) (i : ℕ) (netif : Option Netif) :
    ((List.range' 1 255).map fun i => L.netif_get_by_index (UInt8.ofNat i))[i]? = some netif ↔
      i < 255 ∧ L.netif_get_by_index (UInt8.ofNat (i + 1)) = netif := by
  rw [List.getElem?_map]
  by_cases hi : i < 255
  · rw [List.getElem?_range' hi, Nat.one_mul, Nat.add_comm 1 i, Option.map_some, Option.some_inj, and_iff_right hi]
  · rw [List.getElem?_eq_none (by simpa using hi)]
    simp [hi]

theorem mem_behind (L : LwIp) (netif : Netif) :
    netif ∈ (((List.range' 1 255).map fun i => L.netif_get_by_index (UInt8.ofNat i)).dropWhile Option.isSome).reduceOption ↔
      ∃ idx, L.netif_get_by_index idx = some netif ∧ ∃ j, j ≠ 0 ∧ j < idx ∧ L.netif_get_by_index j = none := by
  rw [List.reduceOption_mem_iff, mem_dropWhile_isSome]
  simp only [getElem?_indices]
  have hindex (idx : UInt8) (hidx : idx ≠ 0) : idx.toNat - 1 < 255 ∧ UInt8.ofNat (idx.toNat - 1 + 1) = idx := by
    have hpos : idx.toNat ≠ 0 := fun h => hidx (UInt8.toNat.inj h)
    have hlt := idx.toNat_lt
    refine ⟨by omega, ?_⟩
    rw [Nat.sub_add_cancel (by omega), UInt8.ofNat_toNat]
  constructor
  · rintro ⟨i, ⟨hi, hnetif⟩, j, hj, -, hgap⟩
    refine ⟨_, hnetif, _, ?_, ?_, hgap⟩
    · intro h
      have hzero := congrArg UInt8.toNat h
      rw [UInt8.toNat_ofNat_of_lt' (by change j + 1 < 256; omega)] at hzero
      cases hzero
    · rw [UInt8.lt_iff_toNat_lt, UInt8.toNat_ofNat_of_lt' (by change j + 1 < 256; omega),
        UInt8.toNat_ofNat_of_lt' (by change i + 1 < 256; omega)]
      omega
  · rintro ⟨idx, hnetif, j, hj, hlt, hgap⟩
    rw [UInt8.lt_iff_toNat_lt] at hlt
    have hidx : idx ≠ 0 := by
      rintro rfl
      exact absurd hlt (Nat.not_lt_zero _)
    have hpos : j.toNat ≠ 0 := fun h => hj (UInt8.toNat.inj h)
    refine ⟨idx.toNat - 1, ⟨(hindex idx hidx).1, ?_⟩, j.toNat - 1, by omega, (hindex j hj).1, ?_⟩
    · rw [(hindex idx hidx).2, hnetif]
    · rw [(hindex j hj).2, hgap]

theorem mem_interfaces (hzero : L.netif_get_by_index 0 = none) (netif : Netif) :
    netif ∈ L.interfaces ↔ ∃ idx, L.netif_get_by_index idx = some netif := by
  rw [LwIp.interfaces, List.mem_filterMap]
  constructor
  · rintro ⟨i, -, hi⟩
    exact ⟨_, hi⟩
  · rintro ⟨idx, hidx⟩
    have hne : idx.toNat ≠ 0 := by
      intro h
      obtain rfl : idx = 0 := UInt8.toNat.inj h
      rw [hzero] at hidx
      cases hidx
    have hlt := idx.toNat_lt
    refine ⟨idx.toNat, ?_, by rw [UInt8.ofNat_toNat, hidx]⟩
    rw [List.mem_range'_1]
    omega

/-- **The addresses of an ESP32.** The addresses that are reported are those that there are if and only if every usable
address is the one of its kind that spells itself, and is not behind an index without an interface. -/
theorem esp32_addresses_iff (hzero : L.netif_get_by_index 0 = none) (htests : L.TestsAddresses)
    (husual : L.PrintsUsual upper) (memory : UInt8 → Buffer) :
    getLocalAddresses L memory = L.localAddresses ↔
      ∀ idx netif x, L.netif_get_by_index idx = some netif → x ∈ netif.addresses →
        x.spelled upper = true ∧ ∀ j, j ≠ 0 → j < idx → L.netif_get_by_index j ≠ none := by
  obtain ⟨values, hloop, hvalues⟩ := netifLoop_eq htests hzero memory 255 rfl []
  have hreported : getLocalAddresses L memory = values := hloop
  have hspelled := reported_values_iff husual hvalues
  rw [hreported, LwIp.localAddresses]
  constructor
  · intro h
    rw [interfaces_eq, List.flatMap_append, List.map_append] at h
    -- as many values as addresses in front of the gap leave none behind it
    have hbehind := congrArg List.length h
    rw [List.length_append, List.length_map, ← hvalues.length_eq, eq_comm, Nat.add_eq_left, List.length_eq_zero_iff] at hbehind
    rw [hbehind, List.append_nil] at h
    intro idx netif x hnetif hx
    have hnot : ¬ netif ∈ (((List.range' 1 255).map fun i => L.netif_get_by_index (UInt8.ofNat i)).dropWhile
        Option.isSome).reduceOption := by
      intro hmem
      rw [List.map_eq_nil_iff, List.flatMap_eq_nil_iff] at hbehind
      rw [hbehind netif hmem] at hx
      cases hx
    constructor
    · have hall := (mem_interfaces hzero netif).mpr ⟨idx, hnetif⟩
      rw [interfaces_eq, List.mem_append] at hall
      exact hspelled.mp h x (List.mem_flatMap.mpr ⟨netif, hall.resolve_right hnot, hx⟩)
    · exact fun j hj hlt hgap => hnot ((mem_behind L netif).mpr ⟨idx, hnetif, j, hj, hlt, hgap⟩)
  · intro h
    have hbehind : (((List.range' 1 255).map fun i => L.netif_get_by_index (UInt8.ofNat i)).dropWhile
        Option.isSome).reduceOption.flatMap Netif.addresses = [] := by
      refine List.flatMap_eq_nil_iff.mpr fun netif hmem => List.eq_nil_iff_forall_not_mem.mpr fun x hx => ?_
      obtain ⟨idx, hnetif, j, hj, hlt, hgap⟩ := (mem_behind L netif).mp hmem
      exact (h idx netif x hnetif hx).2 j hj hlt hgap
    rw [interfaces_eq, List.flatMap_append, hbehind, List.append_nil]
    refine hspelled.mpr fun x hx => ?_
    obtain ⟨netif, hmem, hx⟩ := List.mem_flatMap.mp hx
    obtain ⟨idx, hnetif⟩ := (mem_interfaces hzero netif).mp (by
      rw [interfaces_eq]
      exact List.mem_append_left _ hmem)
    exact (h idx netif x hnetif hx).1

end Reported

/-! ## One interface -/

/-- A library with one interface, and a printer that writes every group. -/
def oneInterface (netif : Netif) : LwIp where
  netif_get_by_index idx := if idx = 1 then some netif else none
  ip6_addr_isany := anyIp6
  ip6_addr_isloopback := loopbackIp6
  ip4_addr_isany := anyIp4
  ip4_addr_isloopback := loopbackIp4
  ip6addr_ntoa_r a := groupsText true (groups a)
  ip4addr_ntoa_r a := ip4Text a.bytes

theorem oneInterface_tests (netif : Netif) : (oneInterface netif).TestsAddresses :=
  ⟨fun _ => rfl, fun _ => rfl, fun _ => rfl, fun _ => rfl⟩

theorem oneInterface_prints (netif : Netif) : (oneInterface netif).PrintsUsual true := ⟨fun _ => .full, fun _ => rfl⟩

/-- `fd00:1:2:3:4:5:6:7` and `192.168.4.1`. -/
def accessPoint : Netif where
  ip6_addr := [none, some ⟨[0xfd, 0, 0, 1, 0, 2, 0, 3, 0, 4, 0, 5, 0, 6, 0, 7], rfl⟩]
  ip4_addr := some ⟨[192, 168, 4, 1], rfl⟩

theorem esp32_addresses_accessPoint :
    getLocalAddresses (oneInterface accessPoint) (fun _ => FString.zero 46) = (oneInterface accessPoint).localAddresses ↔
      ∀ idx netif x, (oneInterface accessPoint).netif_get_by_index idx = some netif → x ∈ netif.addresses →
        x.spelled true = true ∧ ∀ j, j ≠ 0 → j < idx → (oneInterface accessPoint).netif_get_by_index j ≠ none :=
  esp32_addresses_iff rfl (oneInterface_tests accessPoint) (oneInterface_prints accessPoint) _

/-- What is reported for it: `4644:3030:3a31:3a32:3a33:3a34:3a35:3a36` and `49.57.50.46`. -/
theorem esp32_reports_text :
    (oneInterface accessPoint).TestsAddresses ∧ (oneInterface accessPoint).PrintsUsual true ∧
    getLocalAddresses (oneInterface accessPoint) (fun _ => FString.zero 46) =
      [⟨⟨[0x46, 0x44, 0x30, 0x30, 0x3a, 0x31, 0x3a, 0x32, 0x3a, 0x33, 0x3a, 0x34, 0x3a, 0x35, 0x3a, 0x36], rfl⟩⟩,
        ⟨⟨[0, 0, 0, 0, 0, 0, 0, 0, 0, 0, 0xff, 0xff, 49, 57, 50, 46], rfl⟩⟩] ∧
    getLocalAddresses (oneInterface accessPoint) (fun _ => FString.zero 46) ≠ (oneInterface accessPoint).localAddresses :=
  ⟨oneInterface_tests accessPoint, oneInterface_prints accessPoint, by decide +kernel, by decide +kernel⟩

end Esp32
end Husarnet
