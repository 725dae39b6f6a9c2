import Husarnet.IpAddress
import Husarnet.Lib.Numerals

/-! # What the IPv6 scanner reads

`husarnet_ip6addr_aton` reads up to the first character that is neither a hex digit nor a colon. It takes
what it finds for groups with colons between them and makes a block of each, of any length; what it accepts
depends on the number of blocks only.
-/

namespace Husarnet
open Octets Numerals
set_option autoImplicit false

namespace IpAddress

def COLON : UInt8 := 0x3a

/-- A group of hex digits, which can be empty. -/
def HexGroup (group : Bytes) : Prop := ∀ c ∈ group, isXDigit c = true

/-- The word that is left of a group. -/
def blockOf (group : Bytes) : UInt32 := UInt32.ofNat (number 16 group)

/-- The scanner stops here. -/
def Stops (rest : Bytes) : Prop := ∀ c ∈ rest.head?, isXDigit c = false ∧ c ≠ COLON

theorem Stops.peek_ne {rest : Bytes} (h : Stops rest) : peek rest ≠ COLON := by
  cases rest with
  | nil => decide
  | cons c rest => exact (h c rfl).2

theorem colon_not_xdigit {c : UInt8} (h : isXDigit c = true) : c ≠ COLON := by
  rintro rfl
  exact absurd h (by decide)

namespace Ip6Scan

/-! ## The blocks in the words -/

/-- A block is the high half of a word or the low one. -/
def storeBlock (addr : List UInt32) (index : ℕ) (value : UInt32) : List UInt32 :=
  if index % 2 = 1 then addr.modify (index / 2) (· ||| value) else addr.set (index / 2) (value <<< 16)

def storedFrom : ℕ → List UInt32 → List UInt32 → List UInt32
  | _, addr, [] => addr
  | index, addr, value :: values => storedFrom (index + 1) (storeBlock addr index value) values

def stored (values : List UInt32) : List UInt32 := storedFrom 0 [0, 0, 0, 0] values

theorem storedFrom_append (index : ℕ) (addr values : List UInt32) (value : UInt32) :
    storedFrom index addr (values ++ [value]) =
      storeBlock (storedFrom index addr values) (index + values.length) value := by
  induction values generalizing index addr with
  | nil => rfl
  | cons v values ih =>
    have hlength : index + (v :: values).length = index + 1 + values.length := by
      rw [List.length_cons]
      omega
    rw [List.cons_append, storedFrom, ih, hlength, storedFrom]

/-- The variables between two groups, after these blocks. -/
def after (zeroBlocks : UInt32) (values : List UInt32) : Ip6Scan where
  addr := stored values
  addrIndex := values.length / 2
  zeroBlocks := zeroBlocks
  blockIndex := values.length
  blockValue := 0

theorem store_eq {st : Ip6Scan} (h : st.addrIndex = st.blockIndex / 2) :
    st.store = { st with
      addr := storeBlock st.addr st.blockIndex st.blockValue
      addrIndex := (st.blockIndex + 1) / 2 } := by
  unfold store storeBlock
  rw [h]
  split
  · have hindex : (st.blockIndex + 1) / 2 = st.blockIndex / 2 + 1 := by omega
    rw [hindex]
  · have hindex : (st.blockIndex + 1) / 2 = st.blockIndex / 2 := by omega
    rw [hindex, ← h]

theorem stored_append (values : List UInt32) (value : UInt32) :
    stored (values ++ [value]) = storeBlock (stored values) values.length value := by
  rw [stored, storedFrom_append, Nat.zero_add]
  rfl

/-- The next block is stored. -/
theorem after_store (zeroBlocks : UInt32) (values : List UInt32) (value : UInt32) :
    { { after zeroBlocks values with blockValue := value }.store with
      blockIndex := values.length + 1, blockValue := 0 } = after zeroBlocks (values ++ [value]) := by
  rw [store_eq rfl]
  simp [after, stored_append]

/-- A zero block is stored by the loop that fills in a "::". -/
theorem storeBlock_zero (addr : List UInt32) (index : ℕ) :
    storeBlock addr index 0 = if index % 2 = 1 then addr else addr.set (index / 2) 0 := by
  have hor : (fun w : UInt32 => w ||| 0) = id := by
    funext w
    exact UInt32.or_zero
  unfold storeBlock
  split
  · rw [hor, List.modify_id]
  · rfl

/-- A turn of the loop that fills in a "::". -/
theorem fillZeros_succ {zeroBlocks : UInt32} (hz : zeroBlocks ≠ 0) (fuel : ℕ) (values : List UInt32) :
    fillZeros (fuel + 1) (after zeroBlocks values) =
      if values.length + 1 > 7 then none else fillZeros fuel (after (zeroBlocks - 1) (values ++ [0])) := by
  have hzero : ¬ (after zeroBlocks values).zeroBlocks = 0 := hz
  rw [fillZeros, if_neg hzero]
  by_cases hodd : values.length % 2 = 1
  · have hcode : (after zeroBlocks values).blockIndex % 2 = 1 := hodd
    have hindex : (values.length + 1) / 2 = values.length / 2 + 1 := by omega
    simp only [if_pos hcode]
    simp [after, stored_append, storeBlock_zero, hodd, hindex]
  · have hcode : ¬ (after zeroBlocks values).blockIndex % 2 = 1 := hodd
    have hindex : (values.length + 1) / 2 = values.length / 2 := by omega
    simp only [if_neg hcode]
    simp [after, stored_append, storeBlock_zero, hodd, hindex]

/-- **The "::" loop** stores as many zero blocks as are left, if there is room for them. -/
theorem fillZeros_after {fuel : ℕ} {zeroBlocks : UInt32} {values : List UInt32} (hroom : values.length ≤ 7)
    (hfuel : 8 ≤ fuel + values.length) :
    fillZeros fuel (after zeroBlocks values) = if values.length + zeroBlocks.toNat ≤ 7 then
      some (after 0 (values ++ List.replicate zeroBlocks.toNat 0)) else none := by
  induction fuel generalizing zeroBlocks values with
  | zero => omega
  | succ fuel ih =>
    by_cases hz : zeroBlocks = 0
    · subst hz
      have hnone : values.length + (0 : UInt32).toNat ≤ 7 := hroom
      rw [if_pos hnone, fillZeros]
      simp [after]
    · have hpos : zeroBlocks.toNat ≠ 0 := fun h => hz (UInt32.toNat_inj.mp h)
      have hle : (1 : UInt32) ≤ zeroBlocks := by
        rw [UInt32.le_iff_toNat_le]
        exact Nat.one_le_iff_ne_zero.mpr hpos
      have hpred : (zeroBlocks - 1).toNat = zeroBlocks.toNat - 1 := UInt32.toNat_sub_of_le _ _ hle
      rw [fillZeros_succ hz]
      by_cases hfull : values.length + 1 > 7
      · rw [if_pos hfull, if_neg (by omega)]
      · have hnext := @ih (zeroBlocks - 1) (values ++ [0]) (by simp; omega) (by simp; omega)
        have hcount : zeroBlocks.toNat = zeroBlocks.toNat - 1 + 1 := by omega
        have hzeros : values ++ [0] ++ List.replicate (zeroBlocks.toNat - 1) 0 =
            values ++ List.replicate zeroBlocks.toNat (0 : UInt32) := by
          rw [List.append_assoc, hcount, List.replicate_succ]
          rfl
        have hroom' : (values ++ [0]).length + (zeroBlocks.toNat - 1) = values.length + zeroBlocks.toNat := by
          simp
          omega
        rw [if_neg hfull, hnext, hpred, hzeros, hroom']

/-! ## The loop over the characters -/

theorem digit_word6 : ∀ c, isXDigit c = true →
    (if isDigit c then c - 0x30 else if isLower c then 10 + (c - 0x61) else 10 + (c - 0x41)).toUInt32 =
      UInt32.ofNat (digitValue c) := forall_byte (by decide +kernel)

/-- The digits of a group. -/
theorem blocks_digits {group : Bytes} (h : HexGroup group) (st : Ip6Scan) (v : ℕ) (s : Bytes) :
    blocks { st with blockValue := UInt32.ofNat v } (group ++ s) =
      blocks { st with blockValue := UInt32.ofNat (numberFrom 16 v group) } s := by
  induction group generalizing v with
  | nil => rfl
  | cons c group ih =>
    have hx : isXDigit c = true := h c (List.mem_cons_self ..)
    have hc : ¬ c = 0x3a := colon_not_xdigit hx
    have hvalue : (UInt32.ofNat v <<< 4) + UInt32.ofNat (digitValue c) = UInt32.ofNat (v * 16 + digitValue c) := by
      rw [shift_add_digit, UInt32.ofNat_add, UInt32.ofNat_mul]
      rfl
    rw [List.cons_append, blocks, if_neg hc, if_pos hx]
    dsimp only
    rw [digit_word6 c hx, hvalue, ih fun d hd => h d (List.mem_cons_of_mem _ hd)]
    rfl

theorem blocks_after (zeroBlocks : UInt32) (values : List UInt32) {group : Bytes} (h : HexGroup group) (s : Bytes) :
    blocks (after zeroBlocks values) (group ++ s) =
      blocks { after zeroBlocks values with blockValue := blockOf group } s :=
  blocks_digits h (after zeroBlocks values) 0 s

theorem blocks_stop (st : Ip6Scan) {rest : Bytes} (h : Stops rest) : blocks st rest = some st := by
  cases rest with
  | nil => rfl
  | cons c rest =>
    obtain ⟨hx, hc⟩ := h c rfl
    have hcode : ¬ c = 0x3a := hc
    rw [blocks, if_neg hcode, hx]
    rfl

/-- The state behind a colon. -/
def nextBlock (st : Ip6Scan) : Ip6Scan := { st.store with blockIndex := st.blockIndex + 1, blockValue := 0 }

theorem nextBlock_after (zeroBlocks : UInt32) (values : List UInt32) (value : UInt32) :
    nextBlock { after zeroBlocks values with blockValue := value } = after zeroBlocks (values ++ [value]) :=
  after_store zeroBlocks values value

theorem blocks_colon (st : Ip6Scan) {s : Bytes} (h : peek s ≠ COLON) :
    blocks st (COLON :: s) = if st.blockIndex + 1 > 7 then none else blocks st.nextBlock s := by
  cases s with
  | nil =>
    unfold blocks
    rfl
  | cons d s =>
    have hd : ¬ d = 0x3a := h
    rw [blocks]
    simp only [COLON, if_pos, if_neg hd]
    rfl

theorem blocks_colons (st : Ip6Scan) (s : Bytes) :
    blocks st (COLON :: COLON :: s) =
      if st.blockIndex + 1 > 7 then none
      else if peek s = COLON then none
      else (fillZeros 8 st.nextBlock).bind fun st => blocks st s := by
  have hcolon : COLON = 0x3a := rfl
  rw [blocks, if_pos hcolon]
  by_cases hfull : st.blockIndex + 1 > 7
  · rw [if_pos hfull, if_pos hfull]
  · rw [if_neg hfull, if_neg hfull]
    dsimp only
    rw [if_pos hcolon]
    by_cases hthree : peek s = COLON
    · rw [if_pos hthree]
      exact if_pos hthree
    · rw [if_neg hthree]
      refine (if_neg hthree).trans ?_
      cases hfill : fillZeros 8 st.nextBlock with
      | none =>
        unfold nextBlock at hfill
        dsimp only at hfill
        rw [hfill]
        rfl
      | some st' =>
        unfold nextBlock at hfill
        dsimp only at hfill
        rw [hfill]
        rfl

/-! ## The loop over the groups -/

/-- The blocks that the scanner makes of the groups, and what it does at a "::". -/
def scanBlocks : UInt32 → List UInt32 → List Bytes → Option (List UInt32)
  | _, _, [] => none
  | _, values, [group] => if values.length = 7 then some (values ++ [blockOf group]) else none
  | zeroBlocks, values, group :: next :: groups =>
    if values.length + 1 > 7 then none
    else if next = [] ∧ groups ≠ [] then
      if groups.head? = some [] ∧ groups.tail ≠ [] then none
      else if values.length + 1 + zeroBlocks.toNat ≤ 7 then
        scanBlocks 0 (values ++ blockOf group :: List.replicate zeroBlocks.toNat 0) groups
      else none
    else scanBlocks zeroBlocks (values ++ [blockOf group]) (next :: groups)

/-- The last check, and the last block. -/
def finish (st : Ip6Scan) : Option (List UInt32) := if st.blockIndex ≠ 7 then none else some st.store.addr

theorem join_cons (group next : Bytes) (groups : List Bytes) (rest : Bytes) :
    [COLON].intercalate (group :: next :: groups) ++ rest =
      group ++ COLON :: ([COLON].intercalate (next :: groups) ++ rest) := by
  rw [List.intercalate_cons_cons]
  simp

/-- What follows a group begins with a colon if and only if a group follows the empty one. -/
theorem peek_join {groups : List Bytes} (hne : groups ≠ []) (hx : ∀ g ∈ groups, HexGroup g) {rest : Bytes}
    (hrest : Stops rest) :
    peek ([COLON].intercalate groups ++ rest) = COLON ↔ groups.head? = some [] ∧ groups.tail ≠ [] := by
  obtain ⟨group, groups, rfl⟩ := List.exists_cons_of_ne_nil hne
  cases group with
  | nil =>
    cases groups with
    | nil => simp [hrest.peek_ne]
    | cons next groups =>
      rw [join_cons]
      simp [peek]
  | cons c group =>
    have hc : c ≠ COLON := colon_not_xdigit (hx _ (List.mem_cons_self ..) c (List.mem_cons_self ..))
    have hpeek : peek ([COLON].intercalate ((c :: group) :: groups) ++ rest) = c := by
      cases groups with
      | nil =>
        rw [List.intercalate_singleton]
        rfl
      | cons next groups =>
        rw [join_cons]
        rfl
    rw [hpeek]
    simp [hc]

/-- A group and the colon behind it. -/
theorem blocks_group (zeroBlocks : UInt32) (values : List UInt32) {group next : Bytes} {groups : List Bytes}
    (hx : ∀ g ∈ group :: next :: groups, HexGroup g) {rest : Bytes} (hrest : Stops rest) :
    blocks (after zeroBlocks values) ([COLON].intercalate (group :: next :: groups) ++ rest) =
      if values.length + 1 > 7 then none
      else if next = [] ∧ groups ≠ [] then
        if groups.head? = some [] ∧ groups.tail ≠ [] then none
        else if values.length + 1 + zeroBlocks.toNat ≤ 7 then
          blocks (after 0 (values ++ blockOf group :: List.replicate zeroBlocks.toNat 0))
            ([COLON].intercalate groups ++ rest)
        else none
      else blocks (after zeroBlocks (values ++ [blockOf group])) ([COLON].intercalate (next :: groups) ++ rest) := by
  have hgroup : HexGroup group := hx group (by simp)
  have hnext : ∀ g ∈ next :: groups, HexGroup g := fun g hg => hx g (List.mem_cons_of_mem _ hg)
  have hindex : { after zeroBlocks values with blockValue := blockOf group : Ip6Scan }.blockIndex = values.length := rfl
  rw [join_cons, blocks_after zeroBlocks values hgroup]
  by_cases hdouble : next = [] ∧ groups ≠ []
  · obtain ⟨rfl, hne⟩ := hdouble
    obtain ⟨q, groups, rfl⟩ := List.exists_cons_of_ne_nil hne
    rw [join_cons, List.nil_append, blocks_colons, hindex, nextBlock_after]
    by_cases hfull : values.length + 1 > 7
    · rw [if_pos hfull, if_pos hfull]
    · have hlength : (values ++ [blockOf group]).length = values.length + 1 := by simp
      have hthree := peek_join hne (fun g hg => hnext g (List.mem_cons_of_mem _ hg)) hrest
      have hdouble : ([] : Bytes) = [] ∧ q :: groups ≠ [] := ⟨rfl, hne⟩
      rw [if_neg hfull, if_neg hfull, if_pos hdouble, fillZeros_after (by omega) (by omega), hlength,
        List.append_assoc]
      simp only [hthree]
      by_cases hbad : (q :: groups).head? = some [] ∧ (q :: groups).tail ≠ []
      · rw [if_pos hbad, if_pos hbad]
      · rw [if_neg hbad, if_neg hbad]
        split
        · rfl
        · rfl
  · have hpeek : peek ([COLON].intercalate (next :: groups) ++ rest) ≠ COLON := by
      intro hcolon
      have hhead := (peek_join (List.cons_ne_nil next groups) hnext hrest).mp hcolon
      exact hdouble ⟨Option.some.inj hhead.1, hhead.2⟩
    rw [blocks_colon _ hpeek, hindex, nextBlock_after, if_neg hdouble]

/-- **The scanner makes its blocks of the groups.** -/
theorem blocks_join (zeroBlocks : UInt32) (values : List UInt32) {groups : List Bytes} (hne : groups ≠ [])
    (hx : ∀ g ∈ groups, HexGroup g) {rest : Bytes} (hrest : Stops rest) :
    (blocks (after zeroBlocks values) ([COLON].intercalate groups ++ rest)).bind finish =
      (scanBlocks zeroBlocks values groups).map stored := by
  fun_induction scanBlocks zeroBlocks values groups with
  | case1 => exact absurd rfl hne
  | case2 zeroBlocks values group hlast =>
    have hindex : ¬ (after zeroBlocks values).blockIndex ≠ 7 := not_not.mpr hlast
    rw [List.intercalate_singleton, blocks_after zeroBlocks values (hx group (by simp)), blocks_stop _ hrest,
      Option.bind_some, finish, if_neg hindex, Option.map_some]
    exact congrArg (fun st => some (Ip6Scan.addr st)) (nextBlock_after zeroBlocks values (blockOf group))
  | case3 zeroBlocks values group hlast =>
    rw [List.intercalate_singleton, blocks_after zeroBlocks values (hx group (by simp)), blocks_stop _ hrest]
    exact if_pos hlast
  | case4 zeroBlocks values group next groups hfull =>
    rw [blocks_group zeroBlocks values hx hrest, if_pos hfull]
    rfl
  | case5 zeroBlocks values group next groups hfull hdouble hthree =>
    rw [blocks_group zeroBlocks values hx hrest, if_neg hfull, if_pos hdouble, if_pos hthree]
    rfl
  | case6 zeroBlocks values group next groups hfull hdouble hthree hroom ih =>
    rw [blocks_group zeroBlocks values hx hrest, if_neg hfull, if_pos hdouble, if_neg hthree, if_pos hroom]
    exact ih hdouble.2 fun g hg => hx g (List.mem_cons_of_mem _ (List.mem_cons_of_mem _ hg))
  | case7 zeroBlocks values group next groups hfull hdouble hthree hroom =>
    rw [blocks_group zeroBlocks values hx hrest, if_neg hfull, if_pos hdouble, if_neg hthree, if_neg hroom]
    rfl
  | case8 zeroBlocks values group next groups hfull hsingle ih =>
    rw [blocks_group zeroBlocks values hx hrest, if_neg hfull, if_neg hsingle]
    exact ih (List.cons_ne_nil next groups) fun g hg => hx g (List.mem_cons_of_mem _ hg)

/-! ## What is accepted -/

/-- No group between the first and the last one is empty. -/
def NoDouble (groups : List Bytes) : Prop := ∀ g ∈ groups.tail.dropLast, g ≠ []

/-- Without a "::" every group is a block. -/
theorem scanBlocks_plain (zeroBlocks : UInt32) (values : List UInt32) {groups : List Bytes} (hne : groups ≠ [])
    (h : NoDouble groups) :
    scanBlocks zeroBlocks values groups =
      if values.length + groups.length = 8 then some (values ++ groups.map blockOf) else none := by
  induction groups generalizing values with
  | nil => exact absurd rfl hne
  | cons group groups ih =>
    cases groups with
    | nil => simp [scanBlocks]
    | cons next groups =>
      have hsingle : ¬ (next = [] ∧ groups ≠ []) := by
        rintro ⟨rfl, hg⟩
        obtain ⟨q, groups, rfl⟩ := List.exists_cons_of_ne_nil hg
        exact h [] (by simp) rfl
      have hrest : NoDouble (next :: groups) := by
        intro g hg
        refine h g ?_
        cases groups with
        | nil => cases hg
        | cons q groups => exact List.mem_cons_of_mem next hg
      rw [scanBlocks, if_neg hsingle, ih _ (List.cons_ne_nil next groups) hrest]
      have hlength : (values ++ [blockOf group]).length + (next :: groups).length =
          values.length + (group :: next :: groups).length := by
        simp
        omega
      have hvalues : values ++ [blockOf group] ++ (next :: groups).map blockOf =
          values ++ (group :: next :: groups).map blockOf := by simp
      rw [hlength, hvalues]
      by_cases hfull : values.length + 1 > 7
      · have hlong : ¬ values.length + (group :: next :: groups).length = 8 := by
          simp only [List.length_cons]
          omega
        rw [if_pos hfull, if_neg hlong]
      · rw [if_neg hfull]

/-- The first "::", behind groups without one. -/
theorem scanBlocks_double (zeroBlocks : UInt32) (values : List UInt32) {front back : List Bytes} (hf : front ≠ [])
    (hb : back ≠ []) (h : ∀ g ∈ front.tail, g ≠ []) :
    scanBlocks zeroBlocks values (front ++ [] :: back) =
      if values.length + front.length > 7 then none
      else if back.head? = some [] ∧ back.tail ≠ [] then none
      else if values.length + front.length + zeroBlocks.toNat ≤ 7 then
        scanBlocks 0 (values ++ front.map blockOf ++ List.replicate zeroBlocks.toNat 0) back
      else none := by
  induction front generalizing values with
  | nil => exact absurd rfl hf
  | cons group front ih =>
    cases front with
    | nil =>
      have hdouble : ([] : Bytes) = [] ∧ back ≠ [] := ⟨rfl, hb⟩
      rw [List.singleton_append, scanBlocks, if_pos hdouble]
      simp
    | cons next front =>
      have hnext : next ≠ [] := h next (by simp)
      have hsingle : ¬ (next = [] ∧ front ++ [] :: back ≠ []) := fun hd => hnext hd.1
      have hrest : ∀ g ∈ (next :: front).tail, g ≠ [] := fun g hg => h g (List.mem_cons_of_mem next hg)
      have hnextstep := ih (values ++ [blockOf group]) (List.cons_ne_nil next front) hrest
      have hlength : (values ++ [blockOf group]).length + (next :: front).length =
          values.length + (group :: next :: front).length := by
        simp
        omega
      have hvalues : values ++ [blockOf group] ++ (next :: front).map blockOf =
          values ++ (group :: next :: front).map blockOf := by simp
      rw [hlength, hvalues] at hnextstep
      rw [List.cons_append, List.cons_append, scanBlocks, if_neg hsingle, ← List.cons_append, hnextstep]
      by_cases hfull : values.length + 1 > 7
      · have hlong : values.length + (group :: next :: front).length > 7 := by
          simp only [List.length_cons]
          omega
        rw [if_pos hfull, if_pos hlong]
      · rw [if_neg hfull]

/-- Where no zero block is left for a "::", one of them leaves a block too few. -/
theorem scanBlocks_zero {values result : List UInt32} {groups : List Bytes}
    (h : scanBlocks 0 values groups = some result) :
    8 ≤ values.length + groups.length ∧ (values.length + groups.length = 8 → NoDouble groups) ∧
      groups.length + 2 * values.length ≤ 16 := by
  generalize hz : (0 : UInt32) = zeroBlocks at h
  fun_induction scanBlocks zeroBlocks values groups with
  | case1 => cases h
  | case2 zeroBlocks values group hlast => exact ⟨by simp; omega, fun _ => by simp [NoDouble], by simp; omega⟩
  | case3 => cases h
  | case4 => cases h
  | case5 => cases h
  | case6 zeroBlocks values group next groups hfull hdouble hthree hroom ih =>
    subst hz
    have hnext := ih rfl h
    simp only [List.length_append, List.length_cons, List.length_replicate, UInt32.toNat_zero] at hnext ⊢
    exact ⟨by omega, fun heq => by omega, by omega⟩
  | case7 => cases h
  | case8 zeroBlocks values group next groups hfull hsingle ih =>
    obtain ⟨hmin, hplain, hmax⟩ := ih hz h
    simp only [List.length_append, List.length_cons, List.length_nil] at hmin hplain hmax ⊢
    refine ⟨by omega, fun heq g hg => ?_, by omega⟩
    cases groups with
    | nil => cases hg
    | cons q groups =>
      obtain rfl | hg := List.mem_cons.mp hg
      · exact fun hempty => hsingle ⟨hempty, List.cons_ne_nil q groups⟩
      · exact hplain (by omega) g hg

/-- Groups in front of the first "::" and behind it. -/
theorem first_double {groups : List Bytes} (h : ¬ NoDouble groups) :
    ∃ front back, groups = front ++ [] :: back ∧ front ≠ [] ∧ back ≠ [] ∧ ∀ g ∈ front.tail, g ≠ [] := by
  cases groups with
  | nil => exact absurd (fun g hg => by cases hg) h
  | cons group groups =>
    have hempty : [] ∈ groups.dropLast := by
      by_contra hnone
      exact h fun g hg hg' => hnone (hg' ▸ hg)
    obtain ⟨front, back, hsplit, hfirst⟩ := List.eq_append_cons_of_mem hempty
    have hne : groups ≠ [] := by
      rintro rfl
      cases hempty
    refine ⟨group :: front, back ++ [groups.getLast hne], ?_, List.cons_ne_nil group front, by simp, ?_⟩
    · have hwhole := List.dropLast_append_getLast hne
      rw [hsplit, List.append_assoc] at hwhole
      exact congrArg (group :: ·) hwhole.symm
    · intro g hg hg'
      exact hfirst (hg' ▸ hg)

/-- The groups have a "::" with at most eight blocks beside it, and no other group is empty but the first or the last. -/
structure Shortened (groups front back : List Bytes) : Prop where
  split : groups = front ++ [] :: back
  front_ne : front ≠ []
  back_ne : back ≠ []
  front_full : ∀ g ∈ front.tail, g ≠ []
  back_full : ∀ g ∈ back.dropLast, g ≠ []
  room : front.length + back.length ≤ 8

theorem Shortened.double {groups front back : List Bytes} (h : Shortened groups front back) : ¬ NoDouble groups := by
  obtain ⟨rfl, hf, hb, -, -, -⟩ := h
  intro hplain
  obtain ⟨g, front, rfl⟩ := List.exists_cons_of_ne_nil hf
  refine hplain [] ?_ rfl
  rw [List.cons_append, List.tail_cons, List.dropLast_append_of_ne_nil (List.cons_ne_nil _ back),
    List.dropLast_cons_of_ne_nil hb]
  simp

/-- The first "::" is the only one. -/
theorem Shortened.split_unique {front back front' back' : List Bytes}
    (h : Shortened (front ++ [] :: back) front' back') (hf : front ≠ []) (hfull : ∀ g ∈ front.tail, g ≠ []) :
    front = front' ∧ back = back' := by
  obtain ⟨group, front, rfl⟩ := List.exists_cons_of_ne_nil hf
  obtain ⟨group', front', rfl⟩ := List.exists_cons_of_ne_nil h.front_ne
  obtain ⟨rfl, hcons⟩ := List.cons.inj h.split
  have hrest : front ++ [] :: back = front' ++ [] :: back' := hcons
  have hnone : [] ∉ front := fun hm => hfull [] hm rfl
  have hnone' : [] ∉ front' := fun hm => h.front_full [] hm rfl
  obtain ⟨rfl, rfl⟩ := first_split_unique hnone hnone' hrest
  exact ⟨rfl, rfl⟩

/-- The values of the blocks around a "::". -/
def shortValues (front back : List Bytes) : List UInt32 :=
  front.map blockOf ++ List.replicate (8 - (front.length + back.length)) 0 ++ back.map blockOf

/-- The end of the groups behind the "::". -/
theorem back_full_iff {back : List Bytes} :
    (∀ g ∈ back.dropLast, g ≠ []) ↔ ¬ (back.head? = some [] ∧ back.tail ≠ []) ∧ NoDouble back := by
  cases back with
  | nil => simp [NoDouble]
  | cons group back =>
    cases back with
    | nil => simp [NoDouble]
    | cons next back =>
      rw [List.dropLast_cons_of_ne_nil (List.cons_ne_nil next back), List.forall_mem_cons]
      refine and_congr ?_ Iff.rfl
      simp

/-- The colons are counted before. -/
def zeroCount (groups : List Bytes) : UInt32 := 8 - UInt32.ofNat (groups.length - 1)

theorem zeroCount_mod {groups : List Bytes} (h : groups.length ≤ 2 ^ 32) :
    (zeroCount groups).toNat = (2 ^ 32 - (groups.length - 1) + 8) % 2 ^ 32 := by
  have hcount : (UInt32.ofNat (groups.length - 1)).toNat = groups.length - 1 := by
    rw [UInt32.toNat_ofNat']
    omega
  have height : (8 : UInt32).toNat = 8 := rfl
  rw [zeroCount, UInt32.toNat_sub, hcount, height]

theorem zeroCount_toNat {groups : List Bytes} (h : groups.length ≤ 9) :
    (zeroCount groups).toNat = 8 - (groups.length - 1) := by
  rw [zeroCount_mod (h.trans (by decide))]
  omega

/-- With more than eight colons the count has wrapped. -/
theorem zeroCount_wraps {groups : List Bytes} (h : 9 < groups.length) (hmax : groups.length ≤ 2 ^ 32) :
    7 < (zeroCount groups).toNat := by
  rw [zeroCount_mod hmax]
  omega

/-- **A "::" is accepted** with at most eight blocks beside it. -/
theorem scanBlocks_short_iff {front back : List Bytes} (hf : front ≠ []) (hb : back ≠ [])
    (hfull : ∀ g ∈ front.tail, g ≠ []) (result : List UInt32) :
    scanBlocks (zeroCount (front ++ [] :: back)) [] (front ++ [] :: back) = some result ↔
      Shortened (front ++ [] :: back) front back ∧ result = shortValues front back := by
  have hlength : (front ++ [] :: back).length = front.length + back.length + 1 := by
    rw [List.length_append, List.length_cons]
    omega
  have hfpos : 0 < front.length := List.length_pos_of_ne_nil hf
  have hbpos : 0 < back.length := List.length_pos_of_ne_nil hb
  rw [scanBlocks_double _ _ hf hb hfull, List.length_nil, Nat.zero_add, List.nil_append]
  constructor
  · intro h
    obtain ⟨hroom, h⟩ := Option.ite_none_left_eq_some.mp h
    obtain ⟨hthree, h⟩ := Option.ite_none_left_eq_some.mp h
    obtain ⟨hcount, h⟩ := Option.ite_none_right_eq_some.mp h
    obtain ⟨-, hplain, hmax⟩ := scanBlocks_zero h
    have hshort : (front ++ [] :: back).length ≤ 9 := by
      by_contra hlong
      have hwraps := zeroCount_wraps (not_le.mp hlong) (by omega)
      omega
    have hzeros := zeroCount_toNat hshort
    have height : (front.map blockOf ++ List.replicate (zeroCount (front ++ [] :: back)).toNat 0).length + back.length = 8 := by
      rw [List.length_append, List.length_map, List.length_replicate, hzeros]
      omega
    have hback := hplain height
    rw [scanBlocks_plain 0 _ hb hback, if_pos height, hzeros] at h
    refine ⟨⟨rfl, hf, hb, hfull, back_full_iff.mpr ⟨hthree, hback⟩, by omega⟩, ?_⟩
    rw [← Option.some.inj h, shortValues, hlength, Nat.add_sub_cancel]
  · rintro ⟨hs, rfl⟩
    have hroom := hs.room
    obtain ⟨hthree, hback⟩ := back_full_iff.mp hs.back_full
    have hzeros := @zeroCount_toNat (front ++ [] :: back) (by omega)
    rw [hlength, Nat.add_sub_cancel] at hzeros
    have height : (front.map blockOf ++ List.replicate (8 - (front.length + back.length)) 0).length + back.length = 8 := by
      rw [List.length_append, List.length_map, List.length_replicate]
      omega
    rw [if_neg (by omega), if_neg hthree, hzeros, if_pos (by omega), scanBlocks_plain 0 _ hb hback, if_pos height]
    rfl

/-- **What is accepted**, by the groups: eight of them, or fewer around a single "::". -/
theorem scanBlocks_iff {groups : List Bytes} (hne : groups ≠ []) (result : List UInt32) :
    scanBlocks (zeroCount groups) [] groups = some result ↔
      ((NoDouble groups ∧ groups.length = 8) ∧ result = groups.map blockOf) ∨
        ∃ front back, Shortened groups front back ∧ result = shortValues front back := by
  by_cases hplain : NoDouble groups
  · have hnone : ¬ ∃ front back, Shortened groups front back ∧ result = shortValues front back := by
      rintro ⟨front, back, hs, -⟩
      exact hs.double hplain
    rw [scanBlocks_plain _ _ hne hplain, or_iff_left hnone]
    simp [hplain, eq_comm]
  · obtain ⟨front, back, rfl, hf, hb, hfull⟩ := first_double hplain
    rw [scanBlocks_short_iff hf hb hfull, or_iff_right fun h => hplain h.1.1]
    constructor
    · intro h
      exact ⟨front, back, h⟩
    · rintro ⟨front', back', hs, rfl⟩
      obtain ⟨rfl, rfl⟩ := hs.split_unique hf hfull
      exact ⟨hs, rfl⟩

end Ip6Scan

/-! ## The scanner -/

open Ip6Scan

theorem ip6ZeroBlocks_group {group : Bytes} (h : HexGroup group) (n : UInt32) (s : Bytes) :
    ip6ZeroBlocks n (group ++ s) = ip6ZeroBlocks n s := by
  induction group with
  | nil => rfl
  | cons c group ih =>
    have hx : isXDigit c = true := h c (List.mem_cons_self ..)
    have hc : ¬ c = 0x3a := colon_not_xdigit hx
    rw [List.cons_append, ip6ZeroBlocks, if_neg hc, if_pos hx, ih fun d hd => h d (List.mem_cons_of_mem _ hd)]

theorem ip6ZeroBlocks_stop (n : UInt32) {rest : Bytes} (h : Stops rest) : ip6ZeroBlocks n rest = n := by
  cases rest with
  | nil => rfl
  | cons c rest =>
    obtain ⟨hx, hc⟩ := h c rfl
    have hcode : ¬ c = 0x3a := hc
    rw [ip6ZeroBlocks, if_neg hcode, hx]
    rfl

theorem ip6ZeroBlocks_join {groups : List Bytes} (hne : groups ≠ []) (hx : ∀ g ∈ groups, HexGroup g) {rest : Bytes}
    (hrest : Stops rest) (n : UInt32) :
    ip6ZeroBlocks n ([COLON].intercalate groups ++ rest) = n - UInt32.ofNat (groups.length - 1) := by
  induction groups generalizing n with
  | nil => exact absurd rfl hne
  | cons group groups ih =>
    have hgroup : HexGroup group := hx group (List.mem_cons_self ..)
    cases groups with
    | nil =>
      rw [List.intercalate_singleton, ip6ZeroBlocks_group hgroup, ip6ZeroBlocks_stop n hrest]
      simp
    | cons next groups =>
      have hcolon : COLON = 0x3a := rfl
      have hsucc : UInt32.ofNat ((group :: next :: groups).length - 1) =
          UInt32.ofNat 1 + UInt32.ofNat ((next :: groups).length - 1) := by
        rw [← UInt32.ofNat_add, List.length_cons, List.length_cons]
        congr 1
        omega
      rw [join_cons, ip6ZeroBlocks_group hgroup, ip6ZeroBlocks, if_pos hcolon,
        ih (List.cons_ne_nil next groups) fun g hg => hx g (List.mem_cons_of_mem _ hg), hsucc]
      grind

/-- **What the scanner reads.** The groups up to the first other character decide, and nothing behind them. -/
theorem husarnet_ip6addr_aton_join {groups : List Bytes} (hne : groups ≠ []) (hx : ∀ g ∈ groups, HexGroup g)
    {rest : Bytes} (hrest : Stops rest) :
    husarnet_ip6addr_aton ([COLON].intercalate groups ++ rest) =
      (scanBlocks (zeroCount groups) [] groups).map fun values => (stored values).flatMap htonl := by
  have hblocks := blocks_join (zeroCount groups) [] hne hx hrest
  have hstart : ip6ZeroBlocks 8 ([COLON].intercalate groups ++ rest) = zeroCount groups := ip6ZeroBlocks_join hne hx hrest 8
  have hmap (values : Option (List UInt32)) :
      (values.map fun values => (stored values).flatMap htonl) = (values.map stored).map fun words => words.flatMap htonl := by
    rw [Option.map_map]
    rfl
  rw [hmap, ← hblocks, husarnet_ip6addr_aton, hstart]
  have hafter : ({ zeroBlocks := zeroCount groups } : Ip6Scan) = after (zeroCount groups) [] := rfl
  rw [hafter]
  cases blocks (after (zeroCount groups) []) ([COLON].intercalate groups ++ rest) with
  | none => rfl
  | some st =>
    rw [Option.bind_some, finish]
    dsimp only
    split
    · rfl
    · rfl

end IpAddress
end Husarnet
