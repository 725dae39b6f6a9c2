import Husarnet.Lib.Containers
import Husarnet.Util

/-! # Settings

The scanner of `defaults.ini`, the variables of the environment that override it, and `ConfigEnv`, which puts the
second over the first.
-/

namespace Husarnet
open Octets Containers
set_option autoImplicit false

inductive EnvKey where
  | tldFqdn
  | logVerbosity
  | logBackendSleepDurationMs
  | enableHooks
  | enableControlPlane
  | enableJsonLogging
  | daemonInterface
  | daemonApiInterface
  | daemonApiHost
  | daemonApiPort
  | daemonWorkerQueueSize
  deriving DecidableEq, Repr

def ENV_KEY_OPTIONS : ℕ := 11

def envMap : List (Bytes × EnvKey) :=
  [(ascii "HUSARNET_INSTANCE_FQDN", .tldFqdn),
   (ascii "HUSARNET_LOG_VERBOSITY", .logVerbosity),
   (ascii "HUSARNET_LOG_BACKEND_SLEEP_DURATION_MS", .logBackendSleepDurationMs),
   (ascii "HUSARNET_ENABLE_HOOKS", .enableHooks),
   (ascii "HUSARNET_ENABLE_CONTROLPLANE", .enableControlPlane),
   (ascii "HUSARNET_ENABLE_JSON_LOGGING", .enableJsonLogging),
   (ascii "HUSARNET_DAEMON_INTERFACE", .daemonInterface),
   (ascii "HUSARNET_DAEMON_API_INTERFACE", .daemonApiInterface),
   (ascii "HUSARNET_DAEMON_API_HOST", .daemonApiHost),
   (ascii "HUSARNET_DAEMON_API_PORT", .daemonApiPort),
   (ascii "HUSARNET_DAEMON_WORKER_QUEUE_SIZE", .daemonWorkerQueueSize)]

/-- `etl::map<EnvKey, std::string, ENV_KEY_OPTIONS>`. -/
structure EnvSettings where
  entries : List (EnvKey × Bytes)
  nodup : (entries.map Prod.fst).Nodup

namespace EnvSettings

def empty : EnvSettings := ⟨[], List.nodup_nil⟩

def get? (m : EnvSettings) (k : EnvKey) : Option Bytes := Containers.get? m.entries k

def assign (m : EnvSettings) (k : EnvKey) (v : Bytes) : EnvSettings :=
  ⟨Containers.assign m.entries k v, nodup_assign m.nodup k v⟩

/-- A map has room for every key. -/
theorem fits (m : EnvSettings) : m.entries.length ≤ ENV_KEY_OPTIONS := by
  have hall : m.entries.map Prod.fst ⊆ envMap.map Prod.snd := fun k _ => by cases k <;> decide
  have hlength := (List.subperm_of_subset m.nodup hall).length_le
  rwa [List.length_map] at hlength

theorem get?_assign (m : EnvSettings) (k k' : EnvKey) (v : Bytes) :
    (m.assign k v).get? k' = if k' = k then some v else m.get? k' := Containers.get?_assign m.entries k k' v

/-- The loop that puts one map over another. -/
def overlay (m upper : EnvSettings) : EnvSettings := upper.entries.foldl (fun m x => m.assign x.1 x.2) m

theorem entries_foldl_assign (entries : List (EnvKey × Bytes)) (m : EnvSettings) :
    (entries.foldl (fun m x => m.assign x.1 x.2) m).entries =
      entries.foldl (fun m x => Containers.assign m x.1 x.2) m.entries := by
  induction entries generalizing m with
  | nil => rfl
  | cons x entries ih => rw [List.foldl_cons, ih, List.foldl_cons, assign]

theorem get?_overlay (m upper : EnvSettings) (k : EnvKey) : (m.overlay upper).get? k = (upper.get? k).or (m.get? k) := by
  rw [overlay, get?, entries_foldl_assign, get?_foldl_assign upper.nodup]
  rfl

end EnvSettings

namespace Settings

/-! ## The names of the keys -/

def HUSARNET_ : Bytes := ascii "HUSARNET_"

def envName (k : EnvKey) : Bytes := ((envMap.find? fun entry => entry.2 = k).map Prod.fst).getD []

def iniName (k : EnvKey) : Bytes := (envName k).drop HUSARNET_.length

theorem mem_envMap (k : EnvKey) : (envName k, k) ∈ envMap := by
  have hfound : (envMap.find? fun entry => entry.2 = k).isSome = true := by cases k <;> rfl
  obtain ⟨⟨name, k'⟩, hentry⟩ := Option.isSome_iff_exists.mp hfound
  have hkey := List.find?_some hentry
  obtain rfl : k' = k := of_decide_eq_true hkey
  rw [envName, hentry]
  exact List.mem_of_find?_eq_some hentry

theorem get?_envMap (name : Bytes) (k : EnvKey) : get? envMap name = some k ↔ name = envName k := by
  have hnames : (envMap.map Prod.fst).Nodup := by decide +kernel
  have hkeys : (envMap.map Prod.snd).Nodup := by decide
  rw [get?_eq_some_iff hnames]
  constructor
  · intro hmem
    exact congrArg Prod.fst (List.inj_on_of_nodup_map hkeys hmem (mem_envMap k) rfl)
  · rintro rfl
    exact mem_envMap k

theorem envName_eq (k : EnvKey) : envName k = HUSARNET_ ++ iniName k := by
  have hall : envMap.all (fun entry => startsWith entry.1 HUSARNET_) = true := by decide +kernel
  have hfront : startsWith (envName k) HUSARNET_ = true := List.all_eq_true.mp hall _ (mem_envMap k)
  obtain ⟨rest, hrest⟩ := (startsWith_iff _ _).mp hfront
  rw [iniName, ← hrest, List.drop_left]

/-- What the file puts in front of a name is in capitals already. -/
theorem strToUpper_name (name : Bytes) (k : EnvKey) :
    strToUpper (HUSARNET_ ++ name) = envName k ↔ strToUpper name = iniName k := by
  have hcapitals : strToUpper HUSARNET_ = HUSARNET_ := by decide +kernel
  have happend : strToUpper (HUSARNET_ ++ name) = HUSARNET_ ++ strToUpper name := by
    rw [strToUpper, List.map_append, ← strToUpper, hcapitals, strToUpper]
  rw [envName_eq, happend, List.append_right_inj]

/-! ## getEnvironmentDefaultsFromIniFile -/

inductive IniSection where
  | Unknown
  | Daemon
  | Common
  deriving DecidableEq, Repr

/-- The section that a line in brackets begins. -/
def headerSection (line : Bytes) : IniSection :=
  if startsWith (strToLower line) (ascii "[common]") then .Common
  else if startsWith (strToLower line) (ascii "[daemon]") then .Daemon
  else .Unknown

structure IniScan where
  currentSection : IniSection
  commonSection : EnvSettings
  daemonSection : EnvSettings

def IniScan.new : IniScan := ⟨.Unknown, .empty, .empty⟩

def isComment (line : Bytes) : Bool := line.isEmpty || line.headD 0 == 0x3b

def isHeader (line : Bytes) : Bool := startsWith line (ascii "[")

/-- One turn of the loop over the lines. -/
def iniLine (st : IniScan) (line : Bytes) : IniScan :=
  if isComment line then st
  else if isHeader line then { st with currentSection := headerSection line }
  else if st.currentSection = .Unknown then st
  else match split line 0x3d 1 with
    | name :: text :: _ =>
      let key := strToUpper (HUSARNET_ ++ trim name)
      let value := trim text
      match get? envMap key with
      | none => st
      | some k =>
        if st.currentSection = .Common then { st with commonSection := st.commonSection.assign k value }
        else { st with daemonSection := st.daemonSection.assign k value }
    | _ => st

def getEnvironmentDefaultsFromIniFile (contents : Bytes) : EnvSettings :=
  if contents.isEmpty then .empty
  else
    let st := (getLines contents).foldl iniLine .new
    st.commonSection.overlay st.daemonSection

/-! ## getEnvironmentOverrides and ConfigEnv -/

/-- One turn of the loop over `environ`. -/
def environLine (result : EnvSettings) (variable_ : Bytes) : EnvSettings :=
  match split variable_ 0x3d 1 with
  | name :: value :: _ =>
    match get? envMap (strToUpper name) with
    | none => result
    | some k => result.assign k value
  | _ => result

def getEnvironmentOverrides (environ : List Bytes) : EnvSettings := environ.foldl environLine .empty

def configEnv (contents : Bytes) (environ : List Bytes) : EnvSettings :=
  (getEnvironmentDefaultsFromIniFile contents).overlay (getEnvironmentOverrides environ)

/-! ## What the sources say about a key -/

/-- What a variable of the environment says. -/
def variableValue (k : EnvKey) (variable_ : Bytes) : Option Bytes :=
  match cutAt 0x3d variable_ with
  | none => none
  | some (name, value) => if strToUpper name = envName k then some value else none

/-- What a line of a section says: everything behind the first `=` is the value. -/
def assignedValue (k : EnvKey) (line : Bytes) : Option Bytes :=
  if isComment line || isHeader line then none
  else match cutAt 0x3d line with
    | none => none
    | some (name, text) => if strToUpper (trim name) = iniName k then some (trim text) else none

def nextSection (sec : IniSection) (line : Bytes) : IniSection :=
  if !isComment line && isHeader line then headerSection line else sec

/-- The lines with the sections that they stand in. -/
def inSections : IniSection → List Bytes → List (IniSection × Bytes)
  | _, [] => []
  | sec, line :: lines => (sec, line) :: inSections (nextSection sec line) lines

/-- What a line says when it stands in a section. -/
def valueIn (sec : IniSection) (k : EnvKey) (entry : IniSection × Bytes) : Option Bytes :=
  if entry.1 = sec then assignedValue k entry.2 else none

/-- The last value that a section of a file has for a key. -/
def lastInSection (contents : Bytes) (sec : IniSection) (k : EnvKey) : Option Bytes :=
  ((inSections .Unknown (getLines contents)).filterMap (valueIn sec k)).getLast?

/-- The last value that the environment has for a key. -/
def lastVariable (environ : List Bytes) (k : EnvKey) : Option Bytes := (environ.filterMap (variableValue k)).getLast?

/-! ## The loops -/

theorem get?_environLine (result : EnvSettings) (variable_ : Bytes) (k : EnvKey) :
    (environLine result variable_).get? k = (variableValue k variable_).or (result.get? k) := by
  rw [environLine, variableValue, split_one]
  cases cutAt 0x3d variable_ with
  | none => rfl
  | some pieces =>
    obtain ⟨name, value⟩ := pieces
    dsimp only
    by_cases hname : strToUpper name = envName k
    · rw [(get?_envMap _ k).mpr hname, if_pos hname]
      dsimp only
      rw [EnvSettings.get?_assign, if_pos rfl, Option.some_or]
    · rw [if_neg hname, Option.none_or]
      cases hkey : get? envMap (strToUpper name) with
      | none => rfl
      | some k' =>
        have hother : k ≠ k' := by
          rintro rfl
          exact hname ((get?_envMap _ k).mp hkey)
        dsimp only
        rw [EnvSettings.get?_assign, if_neg hother]

theorem get?_getEnvironmentOverrides (environ : List Bytes) (k : EnvKey) :
    (getEnvironmentOverrides environ).get? k = lastVariable environ k := by
  have hlast := @foldl_last _ _ _ (fun m => EnvSettings.get? m k) environLine (variableValue k)
    (fun result variable_ => get?_environLine result variable_ k) environ .empty
  rw [getEnvironmentOverrides, lastVariable, hlast]
  exact Option.or_none

def IniScan.sectionMap (st : IniScan) : IniSection → EnvSettings
  | .Unknown => .empty
  | .Common => st.commonSection
  | .Daemon => st.daemonSection

theorem iniLine_currentSection (st : IniScan) (line : Bytes) : (iniLine st line).currentSection = nextSection st.currentSection line := by
  rw [iniLine, nextSection]
  cases isComment line with
  | true => rfl
  | false =>
    cases isHeader line with
    | true => rfl
    | false =>
      simp only [Bool.and_false, if_neg Bool.false_ne_true]
      split
      · rfl
      · split
        · split
          · rfl
          · split <;> rfl
        · rfl

/-- A line sets the key that it names, in the map of the section that it stands in. -/
theorem get?_iniLine (st : IniScan) (line : Bytes) {sec : IniSection} (hsec : sec ≠ .Unknown) (k : EnvKey) :
    ((iniLine st line).sectionMap sec).get? k = (valueIn sec k (st.currentSection, line)).or ((st.sectionMap sec).get? k) := by
  have hkept : (none : Option Bytes).or ((st.sectionMap sec).get? k) = (st.sectionMap sec).get? k := Option.none_or
  rw [valueIn, assignedValue, iniLine, split_one]
  cases isComment line with
  | true =>
    simp only [Bool.true_or, if_true, ite_self]
    exact hkept.symm
  | false =>
    cases isHeader line with
    | true =>
      simp only [Bool.or_true, if_true, ite_self, if_neg Bool.false_ne_true]
      rw [hkept]
      cases sec <;> rfl
    | false =>
      simp only [Bool.or_false, if_neg Bool.false_ne_true]
      by_cases hunknown : st.currentSection = .Unknown
      · rw [if_pos hunknown, if_neg fun h => hsec (h.symm.trans hunknown), hkept]
      · rw [if_neg hunknown]
        cases cutAt 0x3d line with
        | none =>
          dsimp only
          rw [ite_self, hkept]
        | some pieces =>
          obtain ⟨name, text⟩ := pieces
          dsimp only
          by_cases hname : strToUpper (trim name) = iniName k
          · rw [(get?_envMap _ k).mpr ((strToUpper_name _ k).mpr hname), if_pos hname]
            dsimp only
            cases hst : st.currentSection with
            | Unknown => exact absurd hst hunknown
            | Common => cases sec <;> simp [IniScan.sectionMap, EnvSettings.get?_assign]
            | Daemon => cases sec <;> simp [IniScan.sectionMap, EnvSettings.get?_assign]
          · rw [if_neg hname, ite_self, hkept]
            cases hkey : get? envMap (strToUpper (HUSARNET_ ++ trim name)) with
            | none => rfl
            | some k' =>
              have hother : k ≠ k' := by
                rintro rfl
                exact hname ((strToUpper_name _ k).mp ((get?_envMap _ k).mp hkey))
              dsimp only
              split
              · cases sec <;> simp [IniScan.sectionMap, EnvSettings.get?_assign, hother]
              · cases sec <;> simp [IniScan.sectionMap, EnvSettings.get?_assign, hother]

theorem get?_scan (lines : List Bytes) (st : IniScan) {sec : IniSection} (hsec : sec ≠ .Unknown) (k : EnvKey) :
    ((lines.foldl iniLine st).sectionMap sec).get? k =
      (((inSections st.currentSection lines).filterMap (valueIn sec k)).getLast?).or ((st.sectionMap sec).get? k) := by
  induction lines generalizing st with
  | nil => rfl
  | cons line lines ih =>
    rw [List.foldl_cons, ih, iniLine_currentSection, get?_iniLine st line hsec, inSections, getLast?_filterMap_cons,
      Option.or_assoc]

theorem get?_getEnvironmentDefaultsFromIniFile (contents : Bytes) (k : EnvKey) :
    (getEnvironmentDefaultsFromIniFile contents).get? k =
      (lastInSection contents .Daemon k).or (lastInSection contents .Common k) := by
  have hscan {sec : IniSection} (hsec : sec ≠ .Unknown) :
      (((getLines contents).foldl iniLine .new).sectionMap sec).get? k = lastInSection contents sec k := by
    rw [get?_scan _ _ hsec]
    cases sec <;> exact Option.or_none
  have hdaemon := @hscan .Daemon (by decide)
  have hcommon := @hscan .Common (by decide)
  rw [getEnvironmentDefaultsFromIniFile]
  split
  · rename_i hempty
    rw [List.isEmpty_iff.mp hempty]
    rfl
  · dsimp only
    rw [EnvSettings.get?_overlay]
    exact congrArg₂ Option.or hdaemon hcommon

/-- **Settings by precedence.** The value of a key is that of the last variable of the environment with the key's
name; without one, that of the last line for the key in a `[daemon]` section; without one, that of the last line for
the key in a `[common]` section. -/
theorem settings_by_precedence (contents : Bytes) (environ : List Bytes) (k : EnvKey) :
    (configEnv contents environ).get? k =
      (lastVariable environ k).or ((lastInSection contents .Daemon k).or (lastInSection contents .Common k)) := by
  rw [configEnv, EnvSettings.get?_overlay, get?_getEnvironmentOverrides, get?_getEnvironmentDefaultsFromIniFile]

example : (configEnv (ascii "[daemon]\nLog_Verbosity = a=b\r\n[common]\nlog_verbosity=c\n") []).get? .logVerbosity =
    some (ascii "a=b") := by decide +kernel

end Settings
end Husarnet
