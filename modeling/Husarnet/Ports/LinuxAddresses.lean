import Husarnet.IdentityStorage
import Husarnet.NgSocket.Socket
import Husarnet.Util
import Mathlib.Data.Nat.Digits.Lemmas

/-! # The addresses of a Linux host

`Port::getLocalAddresses` reads the interface records of the kernel, those of IPv4 from an ioctl and those of IPv6 from
the text of `if_inet6`. Which of them get into the list of addresses that is told to the base.
-/

namespace Husarnet
open Octets
set_option autoImplicit false

namespace Linux

/-! ## The functions of the port -/

def isInterfaceBlacklisted (name : Bytes) : Bool :=
  (decide (2 < name.length) && name.take 2 == ascii "zt") || name == ascii "hnetl2"

def AF_INET : UInt16 := 2

/-- `struct ifreq`: the name, and the address as it stands in memory. -/
structure Ifreq where
  ifr_name : Bytes
  sa_family : UInt16
  s_addr : FString 4

def Ifreq.address (request : Ifreq) : IpAddress := IpAddress.fromBinary4 request.s_addr.bytes request.s_addr.size_eq.ge

/-- One turn of the loop over the requests; the word is read on a little-endian machine. -/
def ifreqStep (ret : List IpAddress) (request : Ifreq) : List IpAddress :=
  if isInterfaceBlacklisted request.ifr_name then ret
  else if request.sa_family ≠ AF_INET then ret
  else
    let addr32 := leNat request.s_addr.bytes
    if addr32 = 0x7f000001 then ret else ret ++ [request.address]

def getLocalIpv4Addresses (requests : List Ifreq) (ret : List IpAddress) : List IpAddress := requests.foldl ifreqStep ret

/-- `fgets`: at most `n` characters, up to a newline; what is read, and what is left. -/
def fgets : ℕ → Bytes → Bytes × Bytes
  | 0, s => ([], s)
  | _ + 1, [] => ([], [])
  | n + 1, c :: s => if c = NEWLINE then ([c], s) else ((c :: (fgets n s).1), (fgets n s).2)

def LOOPBACK_6 : IpAddress := ⟨⟨[0, 0, 0, 0, 0, 0, 0, 0, 0, 0, 0, 0, 0, 0, 0, 1], rfl⟩⟩

/-- What a buffer of `if_inet6` adds to the addresses: an assertion fails when it has no address, and `substr` throws
when it has one but ends in front of the name. -/
def inet6Step (ret : List IpAddress) (buf : Bytes) : Checked (List IpAddress) :=
  let line := IpAddress.cstr buf
  if line.length < 32 then return ret
  else do
    let ip ← IpAddress.fromBinaryString (decodeHex (line.take 32))
    if ip.isLinkLocal then return ret
    else if ip = LOOPBACK_6 then return ret
    else if line.length < 44 then throw .slice
    else
      let ifname := (line.drop 44).dropWhile fun c => c == 0x20
      return if isInterfaceBlacklisted ifname then ret else ret ++ [ip]

/-- The buffers that are read until the end of the file, each of 100 bytes. -/
def buffers : ℕ → Bytes → List Bytes
  | 0, _ => []
  | n + 1, s => if s.isEmpty then [] else (fgets 99 s).1 :: buffers n (fgets 99 s).2

def getLocalIpv6Addresses (if_inet6 : Bytes) (ret : List IpAddress) : Checked (List IpAddress) :=
  (buffers if_inet6.length if_inet6).foldlM inet6Step ret

def getLocalAddresses (requests : List Ifreq) (if_inet6 : Bytes) : Checked (List IpAddress) :=
  getLocalIpv6Addresses if_inet6 (getLocalIpv4Addresses requests [])

/-! ## The text of if_inet6 -/

/-- A number as `"%02x"` prints it. -/
def hex02 (n : ℕ) : Bytes :=
  let digits := (Nat.digits 16 n).reverse.map fun d => hexLetters.getD d 0
  List.replicate (2 - digits.length) 0x30 ++ digits

/-- A record of the kernel: an address, and the interface that it belongs to. -/
structure Inet6Record where
  addr : FString 16
  ifindex : ℕ
  prefixLength : UInt8
  scope : UInt8
  flags : UInt8
  name : Bytes
  ifindex_lt : ifindex < 2 ^ 31
  name_ne : name ≠ []
  name_length : name.length < 16
  name_chars : name.all fun c => !IpAddress.isSpace c && c != 0

namespace Inet6Record

def address (r : Inet6Record) : IpAddress := ⟨r.addr⟩

/-- A line of the file: the address, four numbers in hexadecimal, and the name in a field of eight characters. -/
def text (r : Inet6Record) : Bytes :=
  encodeHex r.addr.bytes ++ ([0x20] ++ hex02 r.ifindex ++ ([0x20] ++ hex02 r.prefixLength.toNat ++
    ([0x20] ++ hex02 r.scope.toNat ++ ([0x20] ++ hex02 r.flags.toNat ++
      ([0x20] ++ (List.replicate (8 - r.name.length) 0x20 ++ r.name))))))

end Inet6Record

def inet6File (records : List Inet6Record) : Bytes := records.flatMap fun r => r.text ++ [NEWLINE]

/-! ## The columns of a line -/

theorem hexLetters_isXDigit {d : ℕ} (h : d < 16) : IpAddress.isXDigit (hexLetters.getD d 0) = true := by
  have hall : ∀ d : Fin 16, IpAddress.isXDigit (hexLetters.getD d.val 0) = true := by decide +kernel
  exact hall ⟨d, h⟩

theorem hex02_digits (n : ℕ) : ∀ c ∈ hex02 n, IpAddress.isXDigit c = true := by
  rw [hex02]
  refine List.forall_mem_append.mpr ⟨fun c hc => ?_, fun c hc => ?_⟩
  · rw [List.eq_of_mem_replicate hc]
    decide
  · obtain ⟨d, hd, rfl⟩ := List.mem_map.mp hc
    exact hexLetters_isXDigit (Nat.digits_lt_base (by decide) (List.mem_reverse.mp hd))

theorem hex02_length (n : ℕ) : (hex02 n).length = max 2 (Nat.digits 16 n).length := by
  rw [hex02, List.length_append, List.length_replicate, List.length_map, List.length_reverse]
  omega

theorem hex02_byte (b : UInt8) : ∃ x y, hex02 b.toNat = [x, y] ∧ IpAddress.isXDigit x = true ∧ IpAddress.isXDigit y = true := by
  have hlength : (hex02 b.toNat).length = 2 := by
    have hdigits := (Nat.digits_length_le_iff (by decide : 1 < 16) b.toNat (k := 2)).mpr b.toNat_lt
    rw [hex02_length]
    omega
  obtain ⟨x, y, hxy⟩ := List.length_eq_two.mp hlength
  have hchars := hex02_digits b.toNat
  rw [hxy] at hchars
  exact ⟨x, y, hxy, hchars x (by simp), hchars y (by simp)⟩

/-- The index of an interface has two digits up to 255, and at most eight. -/
theorem hex02_ifindex (r : Inet6Record) :
    ((hex02 r.ifindex).length = 2 ↔ r.ifindex < 256) ∧ 2 ≤ (hex02 r.ifindex).length ∧ (hex02 r.ifindex).length ≤ 8 := by
  have htwo := Nat.digits_length_le_iff (by decide : 1 < 16) r.ifindex (k := 2)
  have height := (Nat.digits_length_le_iff (by decide : 1 < 16) r.ifindex (k := 8)).mpr
    (Nat.lt_trans r.ifindex_lt (by decide))
  rw [hex02_length]
  have hsquare : (16 : ℕ) ^ 2 = 256 := rfl
  omega

/-! ## What is read of a line -/

def Inet6Record.recognised (r : Inet6Record) : Bool := decide (r.ifindex < 256) && startsWith r.name (ascii "zt")

def Inet6Record.taken (r : Inet6Record) : Bool :=
  !r.address.isLinkLocal && !decide (r.address = LOOPBACK_6) && !r.recognised

namespace Inet6Record
variable (r : Inet6Record)

theorem name_char {c : UInt8} (h : c ∈ r.name) : IpAddress.isSpace c = false ∧ c ≠ 0 := by
  have hall := List.all_eq_true.mp r.name_chars c h
  simpa using hall

theorem text_chars : ∀ c ∈ r.text, c ≠ NEWLINE ∧ c ≠ 0 := by
  have hdigit : ∀ c, IpAddress.isXDigit c = true → c ≠ NEWLINE ∧ c ≠ 0 := forall_byte (by decide +kernel)
  have hblank : ∀ c ∈ ([0x20] : Bytes), c ≠ NEWLINE ∧ c ≠ 0 := by simp [NEWLINE]
  have hnumber (n : ℕ) : ∀ c ∈ hex02 n, c ≠ NEWLINE ∧ c ≠ 0 := fun c hc => hdigit c (hex02_digits n c hc)
  have hname : ∀ c ∈ r.name, c ≠ NEWLINE ∧ c ≠ 0 := by
    intro c hc
    obtain ⟨hspace, hzero⟩ := r.name_char hc
    refine ⟨?_, hzero⟩
    rintro rfl
    cases hspace
  rw [text]
  simp only [List.forall_mem_append]
  refine ⟨fun c hc => hdigit c (encodeHex_letters _ c hc), ⟨hblank, hnumber _⟩, ⟨hblank, hnumber _⟩, ⟨hblank, hnumber _⟩,
    ⟨hblank, hnumber _⟩, hblank, fun c hc => ?_, hname⟩
  rw [List.eq_of_mem_replicate hc]
  decide

theorem encodeHex_addr_length : (encodeHex r.addr.bytes).length = 32 := by rw [encodeHex_length, r.addr.size_eq]

theorem text_length : 44 ≤ r.text.length ∧ r.text.length < 99 := by
  have hindex := (hex02_ifindex r).2
  have hname := r.name_length
  obtain ⟨p₁, p₂, hprefix, -⟩ := hex02_byte r.prefixLength
  obtain ⟨s₁, s₂, hscope, -⟩ := hex02_byte r.scope
  obtain ⟨f₁, f₂, hflags, -⟩ := hex02_byte r.flags
  rw [text, hprefix, hscope, hflags]
  simp only [List.length_append, r.encodeHex_addr_length, List.length_cons, List.length_nil, List.length_replicate]
  omega

theorem dropBlanks_digit {c : UInt8} (h : IpAddress.isXDigit c = true) (rest : Bytes) :
    ∃ c' rest', (c :: rest).dropWhile (fun c => c == 0x20) = c' :: rest' ∧ IpAddress.isXDigit c' = true := by
  have hall : ∀ c, IpAddress.isXDigit c = true → ¬ (c == 0x20) = true := forall_byte (by decide +kernel)
  exact ⟨c, rest, List.dropWhile_cons_of_neg (hall c h), h⟩

theorem dropBlanks_blank (rest : Bytes) :
    (0x20 :: rest : Bytes).dropWhile (fun c => c == 0x20) = rest.dropWhile fun c => c == 0x20 :=
  List.dropWhile_cons_of_pos rfl

theorem dropBlanks_name (blanks : ℕ) : (List.replicate blanks 0x20 ++ (r.name ++ [NEWLINE])).dropWhile (fun c => c == 0x20) =
    r.name ++ [NEWLINE] := by
  obtain ⟨c, name, hname⟩ := List.exists_cons_of_ne_nil r.name_ne
  have hc : ¬ (c == 0x20) = true := by
    have hspace := (r.name_char (hname ▸ List.mem_cons_self ..)).1
    intro hblank
    rw [eq_of_beq hblank] at hspace
    cases hspace
  rw [hname, List.dropWhile_append_of_pos (by simp), List.cons_append]
  exact List.dropWhile_cons_of_neg hc

/-- What stands behind the column that the name is expected at. -/
theorem text_column :
    ((r.text ++ [NEWLINE]).drop 44).dropWhile (fun c => c == 0x20) = r.name ++ [NEWLINE] ∧ r.ifindex < 256 ∨
    (∃ c rest, ((r.text ++ [NEWLINE]).drop 44).dropWhile (fun c => c == 0x20) = c :: rest ∧ IpAddress.isXDigit c = true) ∧
      256 ≤ r.ifindex := by
  obtain ⟨htwo, hlow, hhigh⟩ := hex02_ifindex r
  obtain ⟨p₁, p₂, hprefix, -⟩ := hex02_byte r.prefixLength
  obtain ⟨s₁, s₂, hscope, hs₁, hs₂⟩ := hex02_byte r.scope
  obtain ⟨f₁, f₂, hflags, hf₁, hf₂⟩ := hex02_byte r.flags
  have hsplit : r.text ++ [NEWLINE] = encodeHex r.addr.bytes ++ [0x20] ++ hex02 r.ifindex ++
      (0x20 :: p₁ :: p₂ :: 0x20 :: s₁ :: s₂ :: 0x20 :: f₁ :: f₂ :: 0x20 ::
        (List.replicate (8 - r.name.length) 0x20 ++ (r.name ++ [NEWLINE]))) := by
    rw [text, hprefix, hscope, hflags]
    simp only [List.append_assoc, List.cons_append, List.nil_append]
  have hfront : (encodeHex r.addr.bytes ++ [0x20] ++ hex02 r.ifindex).length = 33 + (hex02 r.ifindex).length := by
    rw [List.length_append, List.length_append, r.encodeHex_addr_length, List.length_singleton]
  rw [hsplit, List.drop_append, List.drop_eq_nil_of_le (by omega), hfront, List.nil_append]
  obtain hlength | hlength | hlength | hlength | hlength | hlength | hlength :
      (hex02 r.ifindex).length = 2 ∨ (hex02 r.ifindex).length = 3 ∨ (hex02 r.ifindex).length = 4 ∨
      (hex02 r.ifindex).length = 5 ∨ (hex02 r.ifindex).length = 6 ∨ (hex02 r.ifindex).length = 7 ∨
      (hex02 r.ifindex).length = 8 := by omega
  · left
    refine ⟨?_, htwo.mp hlength⟩
    rw [hlength]
    simp only [List.drop_succ_cons, List.drop_zero]
    rw [dropBlanks_blank]
    exact r.dropBlanks_name _
  all_goals
    right
    refine ⟨?_, by
      by_contra hlt
      have := htwo.mpr (by omega)
      omega⟩
    rw [hlength]
    simp only [Nat.reduceAdd, Nat.reduceSub, List.drop_succ_cons, List.drop_zero]
  · exact dropBlanks_digit hf₂ _
  · exact dropBlanks_digit hf₁ _
  · rw [dropBlanks_blank]
    exact dropBlanks_digit hf₁ _
  · exact dropBlanks_digit hs₂ _
  · exact dropBlanks_digit hs₁ _
  · rw [dropBlanks_blank]
    exact dropBlanks_digit hs₁ _

end Inet6Record

theorem isInterfaceBlacklisted_digit {c : UInt8} (h : IpAddress.isXDigit c = true) (rest : Bytes) :
    isInterfaceBlacklisted (c :: rest) = false := by
  have hother : c ≠ 0x7a ∧ c ≠ 0x68 := by
    have hall : ∀ c, IpAddress.isXDigit c = true → c ≠ 0x7a ∧ c ≠ 0x68 := forall_byte (by decide +kernel)
    exact hall c h
  have hzt : ascii "zt" = [0x7a, 0x74] := by decide +kernel
  have hnetl : ascii "hnetl2" = [0x68, 0x6e, 0x65, 0x74, 0x6c, 0x32] := by decide +kernel
  simp [isInterfaceBlacklisted, hzt, hnetl, hother.1, hother.2]

/-- With the newline behind it, every name that begins with `zt` is long enough, and no name is `hnetl2`. -/
theorem isInterfaceBlacklisted_line {name : Bytes} (hne : name ≠ []) (h : NEWLINE ∉ name) :
    isInterfaceBlacklisted (name ++ [NEWLINE]) = startsWith name (ascii "zt") := by
  have hzt : ascii "zt" = [0x7a, 0x74] := by decide +kernel
  have hnetl : ascii "hnetl2" = [0x68, 0x6e, 0x65, 0x74, 0x6c] ++ [0x32] := by decide +kernel
  have hlast : (name ++ [NEWLINE] == ascii "hnetl2") = false := by
    rw [beq_eq_false_iff_ne, hnetl]
    intro heq
    exact absurd (List.append_inj_right' heq rfl) (by decide)
  rw [isInterfaceBlacklisted, hlast, Bool.or_false, startsWith, hzt]
  obtain ⟨c, name, rfl⟩ := List.exists_cons_of_ne_nil hne
  cases name with
  | nil => simp [NEWLINE]
  | cons d name => simp

theorem inet6Step_text (r : Inet6Record) (ret : List IpAddress) :
    inet6Step ret (r.text ++ [NEWLINE]) = .ok (if r.taken then ret ++ [r.address] else ret) := by
  have hlength := r.text_length
  have hcstr : IpAddress.cstr (r.text ++ [NEWLINE]) = r.text ++ [NEWLINE] := by
    refine IpAddress.cstr_of_not_mem fun hzero => ?_
    obtain hzero | hzero := List.mem_append.mp hzero
    · exact (r.text_chars 0 hzero).2 rfl
    · cases List.mem_singleton.mp hzero
  have htake : (r.text ++ [NEWLINE]).take 32 = encodeHex r.addr.bytes := by
    rw [Inet6Record.text, List.append_assoc, List.take_left' r.encodeHex_addr_length]
  have hip : IpAddress.fromBinaryString (decodeHex (encodeHex r.addr.bytes)) = .ok r.address := by
    rw [decodeHex_encodeHex (by rw [r.addr.size_eq]; decide), IpAddress.fromBinaryString, dif_pos r.addr.size_eq]
    rfl
  have hname : isInterfaceBlacklisted (((r.text ++ [NEWLINE]).drop 44).dropWhile fun c => c == 0x20) = r.recognised := by
    rw [Inet6Record.recognised]
    obtain ⟨hcolumn, hindex⟩ | ⟨⟨c, rest, hcolumn, hc⟩, hindex⟩ := r.text_column
    · have hnewline : NEWLINE ∉ r.name := by
        intro hmem
        cases (r.name_char hmem).1
      rw [hcolumn, isInterfaceBlacklisted_line r.name_ne hnewline, decide_eq_true hindex, Bool.true_and]
    · rw [hcolumn, isInterfaceBlacklisted_digit hc, decide_eq_false (by omega), Bool.false_and]
  have hlong : ¬ (r.text ++ [NEWLINE]).length < 32 ∧ ¬ (r.text ++ [NEWLINE]).length < 44 := by
    rw [List.length_append, List.length_singleton]
    omega
  rw [inet6Step, hcstr, htake, hip]
  dsimp only
  rw [if_neg hlong.1, Checked.bind_eq_ok]
  refine ⟨r.address, rfl, ?_⟩
  rw [if_neg hlong.2, hname, Inet6Record.taken]
  cases r.address.isLinkLocal with
  | true => rfl
  | false =>
    by_cases hloop : r.address = LOOPBACK_6
    · simp [hloop]
      rfl
    · cases r.recognised with
      | true => simp [hloop]; rfl
      | false => simp [hloop]; rfl

/-! ## Both loops -/

theorem fgets_line {line : Bytes} (h : NEWLINE ∉ line) {n : ℕ} (hn : line.length < n) (s : Bytes) :
    fgets n (line ++ NEWLINE :: s) = (line ++ [NEWLINE], s) := by
  induction line generalizing n with
  | nil =>
    obtain ⟨n, rfl⟩ := Nat.exists_eq_succ_of_ne_zero (Nat.ne_of_gt hn)
    rw [List.nil_append, fgets, if_pos rfl]
    rfl
  | cons c line ih =>
    rw [List.length_cons] at hn
    rw [List.mem_cons, not_or] at h
    obtain ⟨n, rfl⟩ := Nat.exists_eq_succ_of_ne_zero (Nat.ne_of_gt (Nat.zero_lt_of_lt hn))
    rw [List.cons_append, fgets, if_neg (Ne.symm h.1), ih h.2 (by omega)]
    rfl

theorem buffers_inet6File (records : List Inet6Record) {n : ℕ} (hn : (inet6File records).length ≤ n) :
    buffers n (inet6File records) = records.map fun r => r.text ++ [NEWLINE] := by
  induction records generalizing n with
  | nil => cases n <;> rfl
  | cons r records ih =>
    have hfile : inet6File (r :: records) = r.text ++ NEWLINE :: inet6File records := by
      rw [inet6File, List.flatMap_cons, List.append_assoc]
      rfl
    have hnewline : NEWLINE ∉ r.text := fun hmem => (r.text_chars _ hmem).1 rfl
    rw [hfile, List.length_append, List.length_cons] at hn
    obtain ⟨n, rfl⟩ := Nat.exists_eq_succ_of_ne_zero (show n ≠ 0 by omega)
    rw [buffers, hfile, fgets_line hnewline r.text_length.2, if_neg (by simp), ih (by omega), List.map_cons]

theorem getLocalIpv6Addresses_eq (records : List Inet6Record) (ret : List IpAddress) :
    getLocalIpv6Addresses (inet6File records) ret =
      .ok (ret ++ (records.filter Inet6Record.taken).map Inet6Record.address) := by
  rw [getLocalIpv6Addresses, buffers_inet6File records (Nat.le_refl _)]
  induction records generalizing ret with
  | nil => exact congrArg Except.ok (List.append_nil ret).symm
  | cons r records ih =>
    rw [List.map_cons, List.foldlM_cons, inet6Step_text, Checked.bind_eq_ok]
    refine ⟨_, rfl, ?_⟩
    cases htaken : r.taken with
    | false => rw [List.filter_cons_of_neg (by simp [htaken]), if_neg Bool.false_ne_true, ih]
    | true =>
      rw [List.filter_cons_of_pos htaken, if_pos rfl, ih, List.map_cons, List.append_assoc]
      rfl

/-- The address of a request is taken: `1.0.0.127` is what a little-endian word takes for `127.0.0.1`. -/
def Ifreq.taken (request : Ifreq) : Bool :=
  !isInterfaceBlacklisted request.ifr_name && decide (request.sa_family = AF_INET) &&
    !(request.s_addr.bytes == [1, 0, 0, 127])

theorem word_loopback (a : FString 4) : leNat a.bytes = 0x7f000001 ↔ a.bytes = [1, 0, 0, 127] := by
  constructor
  · intro h
    have hbytes := leBytes_leNat a.bytes
    rw [h, a.size_eq] at hbytes
    exact hbytes.symm
  · intro h
    rw [h]
    rfl

theorem getLocalIpv4Addresses_eq (requests : List Ifreq) (ret : List IpAddress) :
    getLocalIpv4Addresses requests ret = ret ++ (requests.filter Ifreq.taken).map Ifreq.address := by
  rw [getLocalIpv4Addresses]
  induction requests generalizing ret with
  | nil => exact (List.append_nil ret).symm
  | cons request requests ih =>
    have hstep : ifreqStep ret request = if request.taken then ret ++ [request.address] else ret := by
      rw [ifreqStep, Ifreq.taken]
      dsimp only
      by_cases hword : request.s_addr.bytes = [1, 0, 0, 127]
      · rw [if_pos ((word_loopback _).mpr hword)]
        simp [hword]
      · rw [if_neg (mt (word_loopback _).mp hword)]
        cases isInterfaceBlacklisted request.ifr_name with
        | true => rfl
        | false =>
          by_cases hfamily : request.sa_family = AF_INET
          · simp [hword, hfamily]
          · simp [hfamily]
    rw [List.foldl_cons, ih, hstep]
    cases htaken : request.taken with
    | false => rw [List.filter_cons_of_neg (by simp [htaken]), if_neg Bool.false_ne_true]
    | true =>
      rw [List.filter_cons_of_pos htaken, if_pos rfl, List.map_cons, List.append_assoc]
      rfl

/-! ## The addresses that are told -/

/-- `reloadLocalAddresses` keeps all addresses but those of the Husarnet network. -/
theorem mem_localAddresses (n : Node) (addresses : List IpAddress) (x : InetAddress) :
    x ∈ (n.reloadLocalAddresses addresses).1.localAddresses ↔
      x.ip ∈ addresses ∧ x.ip.isFC94 = false ∧ x.port = n.sourcePort := by
  have hlist : (n.reloadLocalAddresses addresses).1.localAddresses =
      InetAddress.sort ((addresses.filter fun a => !a.isFC94).map fun a => ⟨a, n.sourcePort⟩) := by
    rw [Node.reloadLocalAddresses]
    split
    · rfl
    · rename_i hsame
      exact (not_not.mp hsame).symm
  rw [hlist, InetAddress.sort, (List.perm_insertionSort _ _).mem_iff, List.mem_map]
  simp only [List.mem_filter, Bool.not_eq_eq_eq_not, Bool.not_true]
  constructor
  · rintro ⟨a, ⟨hmem, hfc⟩, rfl⟩
    exact ⟨hmem, hfc, rfl⟩
  · rintro ⟨hmem, hfc, hport⟩
    exact ⟨x.ip, ⟨hmem, hfc⟩, by rw [← hport]⟩

/-- Whatever the file holds, `::1` is not among the addresses that are read of it. -/
theorem loopback6_not_mem {requests : List Ifreq} {if_inet6 : Bytes} {addresses : List IpAddress}
    (h : getLocalAddresses requests if_inet6 = .ok addresses) : LOOPBACK_6 ∉ addresses := by
  have hsteps (lines : List Bytes) {ret addresses : List IpAddress} (hret : LOOPBACK_6 ∉ ret)
      (h : lines.foldlM inet6Step ret = .ok addresses) : LOOPBACK_6 ∉ addresses := by
    induction lines generalizing ret with
    | nil =>
      cases h
      exact hret
    | cons line lines ih =>
      rw [List.foldlM_cons, Checked.bind_eq_ok] at h
      obtain ⟨ret', hstep, hrest⟩ := h
      refine ih ?_ hrest
      rw [inet6Step] at hstep
      dsimp only at hstep
      split at hstep
      · cases hstep
        exact hret
      · obtain ⟨ip, -, hstep⟩ := Checked.bind_eq_ok.mp hstep
        split at hstep
        · cases hstep
          exact hret
        · split at hstep
          · cases hstep
            exact hret
          · rename_i hloop
            split at hstep
            · cases hstep
            · cases hstep
              split
              · exact hret
              · rw [List.mem_append, List.mem_singleton, not_or]
                exact ⟨hret, Ne.symm hloop⟩
  refine hsteps _ ?_ h
  rw [getLocalIpv4Addresses_eq, List.nil_append]
  intro hmem
  obtain ⟨request, -, heq⟩ := List.mem_map.mp hmem
  have hbyte := congrArg (fun a => a.byte 10) heq
  cases hbyte

def LOOPBACK_4 : IpAddress := IpAddress.fromBinary4 [127, 0, 0, 1] (by decide)

/-- `1.0.0.127`. -/
def REVERSED_4 : IpAddress := IpAddress.fromBinary4 [1, 0, 0, 127] (by decide)

def Ifreq.isInet (request : Ifreq) : Prop := request.sa_family = AF_INET

/-- The address of a record is told to the base. -/
def Inet6Record.kept (r : Inet6Record) : Bool := r.taken && !r.address.isFC94

section Told
variable (requests : List Ifreq) (records : List Inet6Record)

/-- An address of an interface that must not be used. -/
def OfRejectedInterface (a : IpAddress) : Prop :=
  (∃ r ∈ requests, r.isInet ∧ isInterfaceBlacklisted r.ifr_name = true ∧ r.address = a) ∨
  ∃ r ∈ records, isInterfaceBlacklisted r.name = true ∧ r.address = a

/-- The addresses that should be told: no loopback, no Husarnet address, none of a rejected interface, and every other
IPv4 address. -/
structure OnlyUsable (port : UInt16) (localAddresses : List InetAddress) : Prop where
  noLoopback : ∀ x ∈ localAddresses, x.ip ≠ LOOPBACK_4 ∧ x.ip ≠ LOOPBACK_6
  noFC94 : ∀ x ∈ localAddresses, x.ip.isFC94 = false
  noRejected : ∀ x ∈ localAddresses, ¬ OfRejectedInterface requests records x.ip
  others : ∀ r ∈ requests, r.isInet → r.address ≠ LOOPBACK_4 → ¬ OfRejectedInterface requests records r.address →
    ⟨r.address, port⟩ ∈ localAddresses

/-- What the records must be like. -/
structure TellsUsable : Prop where
  /-- `127.0.0.1` is an address of rejected interfaces only, in either file. -/
  loopback : ∀ r ∈ requests, r.isInet → isInterfaceBlacklisted r.ifr_name = false → r.address ≠ LOOPBACK_4
  mapped : ∀ r ∈ records, r.kept = true → r.address ≠ LOOPBACK_4
  /-- `1.0.0.127` is not reported, or need not be told, or is told as an IPv6 address. -/
  reversed : ∀ r ∈ requests, r.isInet → r.address = REVERSED_4 →
    OfRejectedInterface requests records REVERSED_4 ∨ ∃ r' ∈ records, r'.kept = true ∧ r'.address = REVERSED_4
  /-- The IPv6 addresses of a rejected interface are left out for their own sake, or its index is below 256 and its name
  begins with `zt`. -/
  rejected : ∀ r ∈ records, isInterfaceBlacklisted r.name = true → r.kept = false
  /-- No address that is told is also one of a rejected interface. -/
  unshared4 : ∀ r ∈ requests, r.isInet → isInterfaceBlacklisted r.ifr_name = false → r.address ≠ REVERSED_4 →
    ¬ OfRejectedInterface requests records r.address
  unshared6 : ∀ r ∈ records, isInterfaceBlacklisted r.name = false → r.kept = true →
    ¬ OfRejectedInterface requests records r.address

end Told

theorem Ifreq.taken_iff (r : Ifreq) :
    r.taken = true ↔ r.isInet ∧ isInterfaceBlacklisted r.ifr_name = false ∧ r.address ≠ REVERSED_4 := by
  have haddress : r.address = REVERSED_4 ↔ r.s_addr.bytes = [1, 0, 0, 127] := by
    rw [Ifreq.address, REVERSED_4, IpAddress.fromBinary4, IpAddress.fromBinary4, IpAddress.mk.injEq, FString.mk.injEq,
      List.append_right_inj, List.take_of_length_le r.s_addr.size_eq.le]
    rfl
  rw [Ifreq.taken, ne_eq, haddress, Ifreq.isInet]
  simp only [Bool.and_eq_true, Bool.not_eq_true', decide_eq_true_eq, beq_eq_false_iff_ne]
  constructor
  · rintro ⟨⟨hname, hfamily⟩, hother⟩
    exact ⟨hfamily, hname, hother⟩
  · rintro ⟨hfamily, hname, hother⟩
    exact ⟨⟨hname, hfamily⟩, hother⟩

theorem Ifreq.address_not_fc94 (r : Ifreq) : r.address.isFC94 = false := rfl

theorem mem_told (n : Node) (requests : List Ifreq) (records : List Inet6Record) (x : InetAddress) :
    x ∈ (n.reloadLocalAddresses ((requests.filter Ifreq.taken).map Ifreq.address ++
        (records.filter Inet6Record.taken).map Inet6Record.address)).1.localAddresses ↔
      x.port = n.sourcePort ∧ ((∃ r ∈ requests, r.taken = true ∧ r.address = x.ip) ∨
        ∃ r ∈ records, r.kept = true ∧ r.address = x.ip) := by
  rw [mem_localAddresses, List.mem_append, List.mem_map, List.mem_map]
  simp only [List.mem_filter, Inet6Record.kept, Bool.and_eq_true, Bool.not_eq_true']
  constructor
  · rintro ⟨⟨r, ⟨hmem, htaken⟩, heq⟩ | ⟨r, ⟨hmem, htaken⟩, heq⟩, hfc, hport⟩
    · exact ⟨hport, Or.inl ⟨r, hmem, htaken, heq⟩⟩
    · exact ⟨hport, Or.inr ⟨r, hmem, ⟨htaken, heq ▸ hfc⟩, heq⟩⟩
  · rintro ⟨hport, ⟨r, hmem, htaken, heq⟩ | ⟨r, hmem, ⟨htaken, hfc⟩, heq⟩⟩
    · exact ⟨Or.inl ⟨r, ⟨hmem, htaken⟩, heq⟩, heq ▸ r.address_not_fc94, hport⟩
    · exact ⟨Or.inr ⟨r, ⟨hmem, htaken⟩, heq⟩, heq ▸ hfc, hport⟩

section Records
variable {requests : List Ifreq} {records : List Inet6Record} {port : UInt16} {localAddresses : List InetAddress}

/-- The addresses are those of the records that are taken and kept. -/
def ToldOf (requests : List Ifreq) (records : List Inet6Record) (port : UInt16) (localAddresses : List InetAddress) : Prop :=
  ∀ x, x ∈ localAddresses ↔ x.port = port ∧
    ((∃ r ∈ requests, r.taken = true ∧ r.address = x.ip) ∨ ∃ r ∈ records, r.kept = true ∧ r.address = x.ip)

theorem ToldOf.request (h : ToldOf requests records port localAddresses) {r : Ifreq} (hmem : r ∈ requests)
    (htaken : r.taken = true) : ⟨r.address, port⟩ ∈ localAddresses := (h _).mpr ⟨rfl, Or.inl ⟨r, hmem, htaken, rfl⟩⟩

theorem ToldOf.record (h : ToldOf requests records port localAddresses) {r : Inet6Record} (hmem : r ∈ records)
    (hkept : r.kept = true) : ⟨r.address, port⟩ ∈ localAddresses := (h _).mpr ⟨rfl, Or.inr ⟨r, hmem, hkept, rfl⟩⟩

theorem OnlyUsable.tellsUsable (h : OnlyUsable requests records port localAddresses)
    (htold : ToldOf requests records port localAddresses) : TellsUsable requests records := by
  obtain ⟨hloop, -, hrejected, hothers⟩ := h
  constructor
  · intro r hmem hinet hname heq
    have htaken := r.taken_iff.mpr ⟨hinet, hname, by rw [heq]; decide⟩
    exact (hloop _ (htold.request hmem htaken)).1 heq
  · exact fun r hmem hkept => (hloop _ (htold.record hmem hkept)).1
  · intro r hmem hinet heq
    by_cases hof : OfRejectedInterface requests records REVERSED_4
    · exact Or.inl hof
    · have hadvertised := hothers r hmem hinet (by rw [heq]; decide) (heq ▸ hof)
      obtain ⟨-, ⟨r', -, htaken, heq'⟩ | hrecord⟩ := (htold _).mp hadvertised
      · exact absurd (heq'.trans heq) (r'.taken_iff.mp htaken).2.2
      · exact Or.inr (heq ▸ hrecord)
  · intro r hmem hname
    by_contra hkept
    exact hrejected _ (htold.record hmem (by simpa using hkept)) (Or.inr ⟨r, hmem, hname, rfl⟩)
  · exact fun r hmem hinet hname hother => hrejected _ (htold.request hmem (r.taken_iff.mpr ⟨hinet, hname, hother⟩))
  · exact fun r hmem _ hkept => hrejected _ (htold.record hmem hkept)

theorem TellsUsable.onlyUsable (h : TellsUsable requests records) (htold : ToldOf requests records port localAddresses)
    (hsix : ∀ x ∈ localAddresses, x.ip ≠ LOOPBACK_6) (hfc : ∀ x ∈ localAddresses, x.ip.isFC94 = false) :
    OnlyUsable requests records port localAddresses := by
  obtain ⟨hloop, hmapped, hreversed, hrejected, hunshared4, hunshared6⟩ := h
  refine ⟨fun x hx => ⟨?_, hsix x hx⟩, hfc, ?_, ?_⟩
  · obtain ⟨-, ⟨r, hmem, htaken, heq⟩ | ⟨r, hmem, hkept, heq⟩⟩ := (htold x).mp hx
    · obtain ⟨hinet, hname, -⟩ := r.taken_iff.mp htaken
      exact heq ▸ hloop r hmem hinet hname
    · exact heq ▸ hmapped r hmem hkept
  · intro x hx
    obtain ⟨-, ⟨r, hmem, htaken, heq⟩ | ⟨r, hmem, hkept, heq⟩⟩ := (htold x).mp hx
    · obtain ⟨hinet, hname, hother⟩ := r.taken_iff.mp htaken
      exact heq ▸ hunshared4 r hmem hinet hname hother
    · have hname : isInterfaceBlacklisted r.name = false := by
        by_contra hname
        rw [hrejected r hmem (by simpa using hname)] at hkept
        cases hkept
      exact heq ▸ hunshared6 r hmem hname hkept
  · intro r hmem hinet hother hof
    have hname : isInterfaceBlacklisted r.ifr_name = false := by
      by_contra hname
      exact hof (Or.inl ⟨r, hmem, hinet, by simpa using hname, rfl⟩)
    by_cases heq : r.address = REVERSED_4
    · obtain hrev | ⟨r', hmem', hkept, heq'⟩ := hreversed r hmem hinet heq
      · exact absurd (heq ▸ hrev) hof
      · exact (htold _).mpr ⟨rfl, Or.inr ⟨r', hmem', hkept, heq'.trans heq.symm⟩⟩
    · exact htold.request hmem (r.taken_iff.mpr ⟨hinet, hname, heq⟩)

end Records

/-- **The addresses of a Linux host.** Whatever `if_inet6` holds, neither `::1` nor a Husarnet address is told. For the
records of the kernel the call returns, and it tells what should be told if and only if the records are such as
`TellsUsable` says. -/
theorem linux_addresses_iff (n : Node) (requests : List Ifreq) :
    (∀ if_inet6 addresses, getLocalAddresses requests if_inet6 = .ok addresses →
      ∀ x ∈ (n.reloadLocalAddresses addresses).1.localAddresses, x.ip ≠ LOOPBACK_6 ∧ x.ip.isFC94 = false) ∧
    ∀ records, ∃ addresses, getLocalAddresses requests (inet6File records) = .ok addresses ∧
      (OnlyUsable requests records n.sourcePort (n.reloadLocalAddresses addresses).1.localAddresses ↔
        TellsUsable requests records) := by
  have hnever (if_inet6 : Bytes) (addresses : List IpAddress) (h : getLocalAddresses requests if_inet6 = .ok addresses) :
      ∀ x ∈ (n.reloadLocalAddresses addresses).1.localAddresses, x.ip ≠ LOOPBACK_6 ∧ x.ip.isFC94 = false := by
    intro x hx
    obtain ⟨hmem, hfc, -⟩ := (mem_localAddresses n addresses x).mp hx
    refine ⟨?_, hfc⟩
    intro hloop
    exact loopback6_not_mem h (hloop ▸ hmem)
  refine ⟨hnever, fun records => ?_⟩
  have hread : getLocalAddresses requests (inet6File records) = .ok ((requests.filter Ifreq.taken).map Ifreq.address ++
      (records.filter Inet6Record.taken).map Inet6Record.address) := by
    rw [getLocalAddresses, getLocalIpv6Addresses_eq, getLocalIpv4Addresses_eq, List.nil_append]
  have htold : ToldOf requests records n.sourcePort _ := mem_told n requests records
  have hsafe := hnever _ _ hread
  refine ⟨_, hread, fun h => h.tellsUsable htold, fun h => ?_⟩
  exact h.onlyUsable htold (fun x hx => (hsafe x hx).1) fun x hx => (hsafe x hx).2

/-- The loopback interface of every host: its address is told to the base. -/
theorem loopback_told :
    getLocalAddresses [⟨ascii "lo", AF_INET, ⟨[127, 0, 0, 1], rfl⟩⟩] (inet6File []) = .ok [LOOPBACK_4] ∧
    ∀ n : Node, ¬ OnlyUsable [⟨ascii "lo", AF_INET, ⟨[127, 0, 0, 1], rfl⟩⟩] [] n.sourcePort
      (n.reloadLocalAddresses [LOOPBACK_4]).1.localAddresses := by
  constructor
  · decide +kernel
  · intro n h
    have htold := (mem_localAddresses n [LOOPBACK_4] ⟨LOOPBACK_4, n.sourcePort⟩).mpr ⟨by simp, rfl, rfl⟩
    exact (h.noLoopback _ htold).1 rfl

end Linux
end Husarnet
