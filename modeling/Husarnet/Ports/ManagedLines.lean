import Husarnet.AddressText
import Husarnet.Util

/-! # The hosts file

An update drops the lines that an earlier one wrote, which it knows by their marker, and writes those of the new map
behind the lines that are left.
-/

namespace Husarnet
open Octets JoinedTexts Numerals
set_option autoImplicit false

namespace IpAddress

theorem toString_chars (a : IpAddress) : ∀ c ∈ a.toString, isXDigit c = true ∨ c = DOT ∨ c = COLON := by
  intro c hc
  cases hmapped : a.isMappedV4 with
  | true =>
    rw [toString_dotted hmapped] at hc
    obtain rfl | ⟨text, htext, hc⟩ := mem_intercalate hc
    · exact Or.inr (Or.inl rfl)
    · obtain ⟨b, -, rfl⟩ := List.mem_map.mp htext
      have hdigit : ∀ c, isDigit c = true → isXDigit c = true := forall_byte (by decide +kernel)
      exact Or.inl (hdigit c (decimal_isDigit (decimalText_digits _ c hc)))
  | false =>
    rw [toString_groups hmapped] at hc
    obtain rfl | ⟨text, htext, hc⟩ := mem_intercalate hc
    · exact Or.inr (Or.inr rfl)
    · obtain ⟨i, -, rfl⟩ := List.mem_map.mp htext
      exact Or.inl (groupText_hex a i c hc)

theorem toString_no_space (a : IpAddress) : ∀ c ∈ a.toString, isSpace c = false := by
  have hall : ∀ c, isXDigit c = true ∨ c = DOT ∨ c = COLON → isSpace c = false := forall_byte (by decide +kernel)
  exact fun c hc => hall c (a.toString_chars c hc)

end IpAddress

namespace HostsFile

/-! ## updateHostsFileInternal -/

/-- `std::map<std::string, IpAddress>`: the entries in the order of their names. -/
structure HostsMap where
  entries : List (Bytes × IpAddress)
  sorted : (entries.map Prod.fst).Pairwise (· < ·)

def hostnameCharacter (c : UInt8) : Bool :=
  (0x61 ≤ c && c ≤ 0x7a) || (0x41 ≤ c && c ≤ 0x5a) || (0x30 ≤ c && c ≤ 0x39) || c == 0x5f || c == 0x2d || c == 0x2e

def validateHostname (hostname : Bytes) : Bool := !hostname.isEmpty && hostname.all hostnameCharacter

def marker : Bytes := ascii " # managed by Husarnet"

/-- CR and LF in a Windows build, LF in any other. -/
def lineEnding (portWindows : Bool) : Bytes := if portWindows then [0x0d, 0x0a] else [0x0a]

def managedLine (entry : Bytes × IpAddress) : Bytes := entry.2.toString ++ [0x20] ++ entry.1 ++ marker

/-- The first loop of `updateHostsFileInternal`: every line but the managed ones. -/
def keepLine (portWindows : Bool) (newContent line : Bytes) : Bytes :=
  let line := rtrim line
  if !endsWith line marker then newContent ++ (line ++ lineEnding portWindows) else newContent

/-- The second loop: a line for each name that can stand in the file. -/
def addLine (portWindows : Bool) (newContent : Bytes) (entry : Bytes × IpAddress) : Bytes :=
  if !validateHostname entry.1 then newContent else newContent ++ (managedLine entry ++ lineEnding portWindows)

def updateHostsFileInternal (portWindows : Bool) (data : HostsMap) (oldContent : Bytes) : Bytes :=
  let newContent := (getLines oldContent).foldl (keepLine portWindows) []
  data.entries.foldl (addLine portWindows) newContent

/-! ## Both loops as lists of lines -/

def isManaged (line : Bytes) : Bool := endsWith line marker

/-- The lines of a content, as an update compares them. -/
def trimmedLines (content : Bytes) : List Bytes := (getLines content).map rtrim

def userLines (content : Bytes) : List Bytes := (trimmedLines content).filter fun line => !isManaged line

def managedLines (data : HostsMap) : List Bytes :=
  (data.entries.filter fun entry => validateHostname entry.1).map managedLine

def writeLines (portWindows : Bool) (lines : List Bytes) : Bytes :=
  lines.flatMap fun line => line ++ lineEnding portWindows

theorem writeLines_append (portWindows : Bool) (lines lines' : List Bytes) :
    writeLines portWindows (lines ++ lines') = writeLines portWindows lines ++ writeLines portWindows lines' :=
  List.flatMap_append

theorem foldl_keepLine (portWindows : Bool) (lines : List Bytes) (newContent : Bytes) :
    lines.foldl (keepLine portWindows) newContent =
      newContent ++ writeLines portWindows ((lines.map rtrim).filter fun line => !isManaged line) := by
  induction lines generalizing newContent with
  | nil => exact (List.append_nil newContent).symm
  | cons line lines ih =>
    rw [List.foldl_cons, ih, List.map_cons, keepLine]
    by_cases hmanaged : isManaged (rtrim line) = true
    · have hskip : ¬ (!endsWith (rtrim line) marker) = true := by simpa [isManaged] using hmanaged
      rw [if_neg hskip, List.filter_cons_of_neg (by simpa using hmanaged)]
    · have htake : (!endsWith (rtrim line) marker) = true := by simpa [isManaged] using hmanaged
      rw [if_pos htake, List.filter_cons_of_pos (by simpa using hmanaged), writeLines, writeLines, List.flatMap_cons,
        List.append_assoc]

theorem foldl_addLine (portWindows : Bool) (entries : List (Bytes × IpAddress)) (newContent : Bytes) :
    entries.foldl (addLine portWindows) newContent =
      newContent ++ writeLines portWindows ((entries.filter fun entry => validateHostname entry.1).map managedLine) := by
  induction entries generalizing newContent with
  | nil => exact (List.append_nil newContent).symm
  | cons entry entries ih =>
    rw [List.foldl_cons, ih, addLine]
    cases hvalid : validateHostname entry.1 with
    | false =>
      rw [List.filter_cons_of_neg (by simp [hvalid])]
      rfl
    | true =>
      have htake : ¬ (!true) = true := by decide
      rw [if_neg htake, List.filter_cons_of_pos (by simpa using hvalid), List.map_cons, writeLines, writeLines,
        List.flatMap_cons, List.append_assoc]

theorem updateHostsFileInternal_eq (portWindows : Bool) (data : HostsMap) (oldContent : Bytes) :
    updateHostsFileInternal portWindows data oldContent =
      writeLines portWindows (userLines oldContent ++ managedLines data) := by
  rw [updateHostsFileInternal, foldl_addLine, foldl_keepLine, List.nil_append, writeLines_append]
  rfl

/-! ## Reading the lines again -/

/-- A line that is read again as it was written. -/
def Settled (line : Bytes) : Prop := NEWLINE ∉ line ∧ rtrim line = line

theorem settled_rtrim {line : Bytes} (h : NEWLINE ∉ line) : Settled (rtrim line) :=
  ⟨fun hmem => h (mem_of_mem_rdropWhile hmem), rtrim_rtrim line⟩

theorem hostnameCharacter_no_space {c : UInt8} (h : hostnameCharacter c = true) : IpAddress.isSpace c = false := by
  have hall : ∀ c, hostnameCharacter c = true → IpAddress.isSpace c = false := forall_byte (by decide +kernel)
  exact hall c h

theorem newline_isSpace : IpAddress.isSpace NEWLINE = true := rfl

theorem marker_split : marker = ascii " # managed by Husarne" ++ [0x74] := by decide +kernel

theorem settled_managedLine {entry : Bytes × IpAddress} (h : validateHostname entry.1 = true) :
    Settled (managedLine entry) := by
  constructor
  · rw [managedLine]
    simp only [List.mem_append, not_or]
    refine ⟨⟨⟨fun hmem => ?_, by decide⟩, fun hmem => ?_⟩, by decide +kernel⟩
    · have hspace := entry.2.toString_no_space NEWLINE hmem
      rw [newline_isSpace] at hspace
      cases hspace
    · rw [validateHostname, Bool.and_eq_true, List.all_eq_true] at h
      have hspace := hostnameCharacter_no_space (h.2 NEWLINE hmem)
      rw [newline_isSpace] at hspace
      cases hspace
  · rw [managedLine, marker_split, ← List.append_assoc]
    exact rtrim_concat _ rfl

theorem isManaged_managedLine (entry : Bytes × IpAddress) : isManaged (managedLine entry) = true :=
  (endsWith_iff _ _).mpr (List.suffix_append _ marker)

theorem settled_lines (content : Bytes) (data : HostsMap) :
    ∀ line ∈ userLines content ++ managedLines data, Settled line := by
  refine List.forall_mem_append.mpr ⟨fun line hline => ?_, fun line hline => ?_⟩
  · obtain ⟨raw, hraw, rfl⟩ := List.mem_map.mp (List.mem_filter.mp hline).1
    exact settled_rtrim (newline_not_mem_getLines content raw hraw)
  · obtain ⟨entry, hentry, rfl⟩ := List.mem_map.mp hline
    exact settled_managedLine (List.mem_filter.mp hentry).2

/-- What is written with either line end is read again, the CR being white space. -/
theorem trimmedLines_writeLines (portWindows : Bool) {lines : List Bytes} (h : ∀ line ∈ lines, Settled line) :
    trimmedLines (writeLines portWindows lines) = lines := by
  obtain ⟨tail, hblank, hnewline, hending⟩ : ∃ tail : Bytes, (∀ c ∈ tail, IpAddress.isSpace c = true) ∧
      NEWLINE ∉ tail ∧ lineEnding portWindows = tail ++ [NEWLINE] := by
    cases portWindows with
    | false => exact ⟨[], by simp, by decide, rfl⟩
    | true => exact ⟨[0x0d], by simp [IpAddress.isSpace], by decide, rfl⟩
  have hwritten : writeLines portWindows lines = (lines.map (· ++ tail)).flatMap fun line => line ++ [NEWLINE] := by
    rw [writeLines, hending, List.flatMap_map]
    simp only [List.append_assoc]
  have hfree : ∀ line ∈ lines.map (· ++ tail), NEWLINE ∉ line := by
    refine List.forall_mem_map.mpr fun line hline => ?_
    rw [List.mem_append, not_or]
    exact ⟨(h line hline).1, hnewline⟩
  rw [trimmedLines, hwritten, getLines_join hfree, List.map_map]
  refine (List.map_congr_left fun line hline => ?_).trans (List.map_id lines)
  rw [Function.comp_apply, rtrim_append hblank, (h line hline).2]
  rfl

theorem trimmedLines_update (portWindows : Bool) (data : HostsMap) (content : Bytes) :
    trimmedLines (updateHostsFileInternal portWindows data content) = userLines content ++ managedLines data := by
  rw [updateHostsFileInternal_eq, trimmedLines_writeLines portWindows (settled_lines content data)]

/-- An update knows the lines that it wrote before, and no other. -/
theorem userLines_update (portWindows : Bool) (data : HostsMap) (content : Bytes) :
    userLines (updateHostsFileInternal portWindows data content) = userLines content := by
  have huser : (userLines content).filter (fun line => !isManaged line) = userLines content :=
    List.filter_eq_self.mpr fun line hline => (List.mem_filter.mp hline).2
  have hmanaged : (managedLines data).filter (fun line => !isManaged line) = [] := by
    refine List.filter_eq_nil_iff.mpr fun line hline => ?_
    obtain ⟨entry, -, rfl⟩ := List.mem_map.mp hline
    simp [isManaged_managedLine]
  rw [userLines, trimmedLines_update, List.filter_append, huser, hmanaged, List.append_nil]

/-! ## One line a name -/

def namesHost (hostname line : Bytes) : Bool := endsWith line ([0x20] ++ hostname ++ marker)

/-- The name of a managed line stands behind its last blank but those of the marker. -/
theorem namesHost_managedLine {hostname : Bytes} (h : validateHostname hostname = true) {entry : Bytes × IpAddress}
    (hentry : validateHostname entry.1 = true) : namesHost hostname (managedLine entry) = decide (entry.1 = hostname) := by
  have hfree {name : Bytes} (hname : validateHostname name = true) : (0x20 : UInt8) ∉ name.reverse := by
    intro hmem
    rw [validateHostname, Bool.and_eq_true, List.all_eq_true] at hname
    exact absurd (hname.2 0x20 (List.mem_reverse.mp hmem)) (by decide)
  rw [Bool.eq_iff_iff, namesHost, endsWith_iff, decide_eq_true_eq, managedLine]
  constructor
  · rintro ⟨front, hfront⟩
    have hcut : front ++ [0x20] ++ hostname = entry.2.toString ++ [0x20] ++ entry.1 := by
      refine (List.append_left_inj marker).mp ?_
      simpa only [List.append_assoc] using hfront
    have hreversed := congrArg List.reverse hcut
    simp only [List.reverse_append, List.reverse_singleton, List.singleton_append] at hreversed
    obtain ⟨hnames, -⟩ := first_split_unique (hfree h) (hfree hentry) hreversed
    exact (List.reverse_inj.mp hnames).symm
  · rintro rfl
    exact ⟨entry.2.toString, by simp only [List.append_assoc]⟩

theorem nodup_names (data : HostsMap) : (data.entries.map Prod.fst).Nodup := by
  refine data.sorted.imp fun {name next} h => ?_
  rintro rfl
  exact List.lt_irrefl name h

/-- A name that can stand in the file has one line in it if the map has it, and none otherwise. -/
theorem countP_namesHost (content : Bytes) (data : HostsMap) {hostname : Bytes} (h : validateHostname hostname = true) :
    (userLines content ++ managedLines data).countP (namesHost hostname) =
      if hostname ∈ data.entries.map Prod.fst then 1 else 0 := by
  have huser : (userLines content).countP (namesHost hostname) = 0 := by
    refine List.countP_eq_zero.mpr fun line hline hnames => ?_
    have hmanaged : isManaged line = true :=
      (endsWith_iff _ _).mpr ((List.suffix_append _ marker).trans ((endsWith_iff _ _).mp hnames))
    have hnot := (List.mem_filter.mp hline).2
    rw [hmanaged] at hnot
    cases hnot
  have hmanaged : (managedLines data).countP (namesHost hostname) = (data.entries.map Prod.fst).count hostname := by
    rw [managedLines, List.countP_map, List.countP_filter, List.count, List.countP_map]
    refine List.countP_congr fun entry _ => ?_
    rw [Function.comp_apply, Function.comp_apply, Bool.and_eq_true, beq_iff_eq]
    constructor
    · rintro ⟨hnames, hvalid⟩
      rw [namesHost_managedLine h hvalid] at hnames
      exact of_decide_eq_true hnames
    · rintro rfl
      rw [namesHost_managedLine h h]
      exact ⟨decide_eq_true rfl, h⟩
  rw [List.countP_append, huser, hmanaged, Nat.zero_add]
  split
  · rename_i hmem
    exact List.count_eq_one_of_mem (nodup_names data) hmem
  · rename_i hmem
    exact List.count_eq_zero_of_not_mem hmem

/-- **Rewriting the hosts file.** The new content is the lines of the user, trimmed at their ends and in their order,
and behind them the lines of the map; read again it has these lines, one for each name that can stand in the file. A
second update changes nothing, and an update leaves nothing of the one before it. -/
theorem hosts_file_rewritten (portWindows : Bool) (data : HostsMap) (content : Bytes) :
    updateHostsFileInternal portWindows data content =
      writeLines portWindows (userLines content ++ managedLines data) ∧
    trimmedLines (updateHostsFileInternal portWindows data content) = userLines content ++ managedLines data ∧
    (∀ hostname, validateHostname hostname = true →
      (trimmedLines (updateHostsFileInternal portWindows data content)).countP (namesHost hostname) =
        if hostname ∈ data.entries.map Prod.fst then 1 else 0) ∧
    (∀ line ∈ trimmedLines (updateHostsFileInternal portWindows data content), isManaged line = true →
      ∃ entry ∈ data.entries, validateHostname entry.1 = true ∧ line = managedLine entry) ∧
    updateHostsFileInternal portWindows data (updateHostsFileInternal portWindows data content) =
      updateHostsFileInternal portWindows data content ∧
    ∀ data₁ : HostsMap, updateHostsFileInternal portWindows data (updateHostsFileInternal portWindows data₁ content) =
      updateHostsFileInternal portWindows data content := by
  have hlast (data₁ : HostsMap) : updateHostsFileInternal portWindows data
      (updateHostsFileInternal portWindows data₁ content) = updateHostsFileInternal portWindows data content := by
    rw [updateHostsFileInternal_eq portWindows data, userLines_update, ← updateHostsFileInternal_eq]
  refine ⟨updateHostsFileInternal_eq portWindows data content, trimmedLines_update portWindows data content, ?_, ?_,
    hlast data, hlast⟩
  · intro hostname h
    rw [trimmedLines_update]
    exact countP_namesHost content data h
  · intro line hline hmanaged
    rw [trimmedLines_update, List.mem_append] at hline
    obtain huser | hline := hline
    · have hnot := (List.mem_filter.mp huser).2
      rw [hmanaged] at hnot
      cases hnot
    · obtain ⟨entry, hentry, rfl⟩ := List.mem_map.mp hline
      obtain ⟨hmem, hvalid⟩ := List.mem_filter.mp hentry
      exact ⟨entry, hmem, hvalid, rfl⟩

end HostsFile
end Husarnet
