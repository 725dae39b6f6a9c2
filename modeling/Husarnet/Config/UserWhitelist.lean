import Husarnet.Config.ConfigFrames
import Mathlib.Algebra.Group.Even
import Mathlib.Algebra.Order.Ring.Nat

/-! # The user whitelist across a restart

The whitelist lives in a set and in the document that is written to config.json. `userWhitelistAdd`
changes the set and writes the document, which stays as it was read; `userWhitelistRm` changes the
set. So a restart reads what the previous start read, and it finds the set of just before the
restart when the calls in between cancel.
-/

namespace Husarnet
open Octets JsonDoc Containers StateProgram
set_option autoImplicit false

/-- What the JSON library promises of a member of a document that it parsed: written on its own it
reads back, and so does the empty object; no document is written as the empty text. -/
structure JsonText.ReadsBack (T : JsonText) : Prop where
  member : ∀ contents doc key v, T.parse contents = some doc → doc.find? key = some v →
    T.parse (T.dump (.object [(key, v)])) = some (.object [(key, v)])
  empty : T.parse (T.dump (.object [])) = some (.object [])
  dump_ne_nil : ∀ doc, T.dump doc ≠ []

namespace ConfigManager

/-- The reads of config.json at the start of `periodicThread`. -/
def bootUserConfig (T : JsonText) : Cm Unit := do
  let read ← readUserConfig T
  if read then updateUserConfigData

inductive WhitelistCall where
  | add (address : HusarnetAddress)
  | rm (address : HusarnetAddress)

namespace WhitelistCall

def address : WhitelistCall → HusarnetAddress
  | add a => a
  | rm a => a

def run (T : JsonText) : WhitelistCall → Cm Bool
  | add a => userWhitelistAdd T a
  | rm a => userWhitelistRm a

/-- Does the call change a whitelist? An add does when the address is absent and there is room, a
removal when it is present. -/
def accepted (w : BoundedSet HusarnetAddress USER_WHITELIST_SIZE_LIMIT) : WhitelistCall → Bool
  | add a => a ∉ w ∧ w.full = false
  | rm a => a ∈ w

def apply (w : BoundedSet HusarnetAddress USER_WHITELIST_SIZE_LIMIT) :
    WhitelistCall → BoundedSet HusarnetAddress USER_WHITELIST_SIZE_LIMIT
  | add a => if a ∈ w then w else if w.full then w else w.insert a
  | rm a => if a ∈ w then w.erase a else w

def acceptedAddresses (w : BoundedSet HusarnetAddress USER_WHITELIST_SIZE_LIMIT) :
    List WhitelistCall → List HusarnetAddress
  | [] => []
  | call :: calls => (if call.accepted w then [call.address] else []) ++ acceptedAddresses (call.apply w) calls

def runAll (T : JsonText) (cm : ConfigManager) (calls : List WhitelistCall) : ConfigManager :=
  calls.foldl (fun cm call => after (call.run T) cm) cm

/-! ## The set -/

/-- An accepted call moves its address in or out, and nothing else moves. -/
theorem mem_apply_iff (w : BoundedSet HusarnetAddress USER_WHITELIST_SIZE_LIMIT) (call : WhitelistCall)
    (b : HusarnetAddress) :
    (b ∈ call.apply w ↔ b ∈ w) ↔ ¬ (call.accepted w = true ∧ b = call.address) := by
  cases call with
  | add a =>
    simp only [apply, accepted, address, decide_eq_true_eq]
    by_cases ha : a ∈ w
    · simp [ha]
    · by_cases hf : w.full = true
      · simp [ha, hf]
      · have hroom : w.elems.length < USER_WHITELIST_SIZE_LIMIT := by simpa [BoundedSet.full] using hf
        rw [if_neg ha, if_neg hf, BoundedSet.mem_insert]
        by_cases hb : b = a
        · simp [hb, ha, hf, hroom]
        · simp [hb]
  | rm a =>
    simp only [apply, accepted, address, decide_eq_true_eq]
    by_cases ha : a ∈ w
    · rw [if_pos ha, BoundedSet.mem_erase]
      by_cases hb : b = a
      · simp [hb, ha]
      · simp [hb]
    · simp [ha]

theorem run_userWhitelist (T : JsonText) (call : WhitelistCall) (cm : ConfigManager) :
    (after (call.run T) cm).userWhitelist = call.apply cm.userWhitelist := by
  cases call with
  | add a =>
    simp only [run, userWhitelistAdd, apply, after, get_bind]
    by_cases ha : a ∈ cm.userWhitelist
    · rw [if_pos ha, if_pos ha]
      rfl
    · by_cases hf : cm.userWhitelist.full = true
      · rw [if_neg ha, if_pos hf, if_neg ha, if_pos hf]
        rfl
      · rw [if_neg ha, if_neg hf, if_neg ha, if_neg hf]
        rfl
  | rm a =>
    simp only [run, userWhitelistRm, apply, after, get_bind]
    by_cases ha : a ∈ cm.userWhitelist
    · rw [if_pos ha, if_pos ha]
      rfl
    · rw [if_neg ha, if_neg ha]
      rfl

/-- An address ends where it began if and only if the accepted calls name it an even number of times. -/
theorem mem_runAll_iff (T : JsonText) (cm : ConfigManager) (calls : List WhitelistCall) (b : HusarnetAddress) :
    (b ∈ (runAll T cm calls).userWhitelist ↔ b ∈ cm.userWhitelist) ↔
      Even ((acceptedAddresses cm.userWhitelist calls).count b) := by
  induction calls generalizing cm with
  | nil => simp [runAll, acceptedAddresses]
  | cons call calls ih =>
    have hrest := ih (after (call.run T) cm)
    have hone := mem_apply_iff cm.userWhitelist call b
    rw [run_userWhitelist] at hrest
    rw [runAll, List.foldl_cons, acceptedAddresses, List.count_append]
    by_cases hc : call.accepted cm.userWhitelist = true ∧ b = call.address
    · have hcount : [call.address].count b = 1 := by rw [hc.2, List.count_singleton_self]
      rw [if_pos hc.1, hcount, Nat.even_add, ← hrest]
      have hodd : ¬ Even 1 := by decide
      have hmoved := mt hone.mp (not_not.mpr hc)
      rw [not_iff] at hmoved
      rw [runAll, iff_false_left hodd, not_iff, ← hmoved]
      exact iff_not_comm.trans iff_comm
    · have hcount : (if call.accepted cm.userWhitelist = true then [call.address] else []).count b = 0 := by
        split
        · rename_i hacc
          exact List.count_eq_zero.mpr fun hb => hc ⟨hacc, List.mem_singleton.mp hb⟩
        · rfl
      rw [hcount, Nat.zero_add, ← hrest, hone.mpr hc, runAll]

end WhitelistCall

/-! ## The document -/

def whitelistDocument : Option (List Json) → Json
  | some xs => .object [(USERCONFIG_KEY_WHITELIST, .array xs)]
  | none => .object []

/-- The document in memory after config.json was read: its whitelist member, when that is an array. -/
def loadedDocument (T : JsonText) (configFile : Bytes) : Json :=
  whitelistDocument ((T.parse (if configFile.isEmpty then ascii "{}" else configFile)).bind whitelistEntries)

def loadedWhitelist (entries : Option (List Json)) : BoundedSet HusarnetAddress USER_WHITELIST_SIZE_LIMIT :=
  match entries.map fun xs => (Json.array xs).getStrings with
  | some (.ok strings) => BoundedSet.empty.insertAll ((strings.map IpAddress.parse).filter (·.isFC94))
  | _ => .empty

theorem whitelistEntries_document (entries : Option (List Json)) :
    whitelistEntries (whitelistDocument entries) = entries := by
  cases entries with
  | none => rfl
  | some xs => simp [whitelistDocument, whitelistEntries, Json.find?, get?]

theorem storeUserConfig_eq (doc : Json) (cm : ConfigManager) (h : cm.userConfigJson = .object []) :
    storeUserConfig doc cm =
      .ok () { cm with userConfigJson := whitelistDocument (whitelistEntries doc) } := by
  unfold storeUserConfig
  cases whitelistEntries doc with
  | some xs =>
    show EStateM.Result.ok () { cm with userConfigJson := cm.userConfigJson.setMember _ _ } = _
    rw [h]
    rfl
  | none =>
    show EStateM.Result.ok () cm = .ok () { cm with userConfigJson := .object [] }
    rw [← h]

theorem readUserConfig_eq (T : JsonText) (cm : ConfigManager) (h : cm.userConfigJson = .object []) :
    ∃ read, readUserConfig T cm = .ok read { cm with userConfigJson := loadedDocument T cm.configFile } ∧
      (read = false → loadedDocument T cm.configFile = whitelistDocument none) := by
  rw [readUserConfig, get_bind, loadedDocument]
  generalize hp : T.parse (if cm.configFile.isEmpty then ascii "{}" else cm.configFile) = parsed
  cases parsed with
  | none =>
    refine ⟨false, ?_, fun _ => rfl⟩
    simp only [Option.bind_none, run_bind, storeUserConfig_eq _ _ h]
    rfl
  | some doc =>
    refine ⟨true, ?_, fun hf => by cases hf⟩
    simp only [Option.bind_some, run_bind, storeUserConfig_eq _ _ h]
    rfl

theorem updateUserConfigData_eq (cm : ConfigManager) (h : cm.userWhitelist = .empty) :
    after updateUserConfigData cm =
      { cm with userWhitelist := loadedWhitelist (whitelistEntries cm.userConfigJson) } := by
  rw [updateUserConfigData, after_get_bind]
  cases whitelistEntries cm.userConfigJson with
  | some xs =>
    simp only [loadedWhitelist, Option.map_some]
    cases (Json.array xs).getStrings with
    | ok strings => rfl
    | error fault => rfl
  | none =>
    show cm = { cm with userWhitelist := .empty }
    rw [← h]

theorem bootUserConfig_eq (T : JsonText) (cm : ConfigManager) (hdoc : cm.userConfigJson = .object [])
    (hset : cm.userWhitelist = .empty) :
    after (bootUserConfig T) cm = { cm with
      userConfigJson := loadedDocument T cm.configFile
      userWhitelist := loadedWhitelist (whitelistEntries (loadedDocument T cm.configFile)) } := by
  obtain ⟨read, hread, hfalse⟩ := readUserConfig_eq T cm hdoc
  rw [bootUserConfig, after_bind_ok hread]
  cases read with
  | true =>
    rw [if_pos rfl]
    exact updateUserConfigData_eq _ hset
  | false =>
    rw [if_neg Bool.false_ne_true, hfalse rfl]
    show { cm with userConfigJson := whitelistDocument none } =
      { cm with userConfigJson := whitelistDocument none, userWhitelist := .empty }
    rw [← hset]

theorem loadedDocument_dump {T : JsonText} (hT : T.ReadsBack) (configFile : Bytes) :
    loadedDocument T (T.dump (loadedDocument T configFile)) = loadedDocument T configFile := by
  have hback : T.parse (T.dump (loadedDocument T configFile)) = some (loadedDocument T configFile) := by
    unfold loadedDocument
    generalize hp : T.parse (if configFile.isEmpty then ascii "{}" else configFile) = parsed
    cases parsed with
    | none => exact hT.empty
    | some doc =>
      rw [Option.bind_some]
      cases he : whitelistEntries doc with
      | none => exact hT.empty
      | some xs =>
        have hfind : doc.find? USERCONFIG_KEY_WHITELIST = some (.array xs) := by
          unfold whitelistEntries at he
          split at he
          · rename_i ys hys
            cases he
            exact hys
          · cases he
        exact hT.member _ doc _ _ hp hfind
  have hne : (T.dump (loadedDocument T configFile)).isEmpty = false :=
    List.isEmpty_eq_false_iff.mpr (hT.dump_ne_nil _)
  rw [loadedDocument, hne, if_neg Bool.false_ne_true, hback, Option.bind_some]
  conv_rhs => rw [loadedDocument]
  conv_lhs => rw [loadedDocument, whitelistEntries_document]

/-! ## A sequence of calls and a restart -/

/-- A call leaves the document in memory; the file stays too, or becomes that document's text. -/
theorem run_files (T : JsonText) (call : WhitelistCall) (cm : ConfigManager) :
    (after (call.run T) cm).userConfigJson = cm.userConfigJson ∧
      ((after (call.run T) cm).configFile = cm.configFile ∨
        (after (call.run T) cm).configFile = T.dump cm.userConfigJson) := by
  cases call with
  | add a =>
    simp only [WhitelistCall.run, userWhitelistAdd, after, get_bind]
    by_cases ha : a ∈ cm.userWhitelist
    · rw [if_pos ha]
      exact ⟨rfl, Or.inl rfl⟩
    · by_cases hf : cm.userWhitelist.full = true
      · rw [if_neg ha, if_pos hf]
        exact ⟨rfl, Or.inl rfl⟩
      · rw [if_neg ha, if_neg hf]
        exact ⟨rfl, Or.inr rfl⟩
  | rm a =>
    simp only [WhitelistCall.run, userWhitelistRm, after, get_bind]
    by_cases ha : a ∈ cm.userWhitelist
    · rw [if_pos ha]
      exact ⟨rfl, Or.inl rfl⟩
    · rw [if_neg ha]
      exact ⟨rfl, Or.inl rfl⟩

theorem runAll_files (T : JsonText) (calls : List WhitelistCall) (cm : ConfigManager) :
    (WhitelistCall.runAll T cm calls).userConfigJson = cm.userConfigJson ∧
      ((WhitelistCall.runAll T cm calls).configFile = cm.configFile ∨
        (WhitelistCall.runAll T cm calls).configFile = T.dump cm.userConfigJson) := by
  induction calls generalizing cm with
  | nil => exact ⟨rfl, Or.inl rfl⟩
  | cons call calls ih =>
    obtain ⟨hj, hf⟩ := run_files T call cm
    obtain ⟨hj', hf'⟩ := ih (after (call.run T) cm)
    rw [hj] at hj' hf'
    refine ⟨hj', ?_⟩
    rcases hf' with h | h
    · rcases hf with h' | h'
      · exact Or.inl (h.trans h')
      · exact Or.inr (h.trans h')
    · exact Or.inr h

theorem loadedDocument_runAll {T : JsonText} (hT : T.ReadsBack) (calls : List WhitelistCall) (cm : ConfigManager)
    (h : cm.userConfigJson = loadedDocument T cm.configFile) :
    loadedDocument T (WhitelistCall.runAll T cm calls).configFile = loadedDocument T cm.configFile := by
  rcases (runAll_files T calls cm).2 with hf | hf
  · rw [hf]
  · rw [hf, h, loadedDocument_dump hT]

/-- **The whitelist across a restart.** For every initial config.json and every sequence of calls:
a restart finds, on the Husarnet addresses, the whitelist of just before it if and only if the
accepted calls name each Husarnet address an even number of times. -/
theorem whitelist_restart_iff (T : JsonText) (hT : T.ReadsBack) (enableControlplane : Bool)
    (ourIp : HusarnetAddress) (clock clock' : ℤ) (configFile cacheFile : Bytes) (calls : List WhitelistCall) :
    let cm₀ := after (bootUserConfig T) (new enableControlplane ourIp clock configFile cacheFile)
    let cm := WhitelistCall.runAll T cm₀ calls
    let cm' := after (bootUserConfig T) (new enableControlplane ourIp clock' cm.configFile cm.cacheFile)
    (∀ a : HusarnetAddress, a.isFC94 = true → (a ∈ cm'.userWhitelist ↔ a ∈ cm.userWhitelist)) ↔
      ∀ a : HusarnetAddress, a.isFC94 = true →
        Even ((WhitelistCall.acceptedAddresses cm₀.userWhitelist calls).count a) := by
  intro cm₀ cm cm'
  have h0 : cm₀ = _ := bootUserConfig_eq T (new enableControlplane ourIp clock configFile cacheFile) rfl rfl
  have h' : cm' = _ := bootUserConfig_eq T (new enableControlplane ourIp clock' cm.configFile cm.cacheFile) rfl rfl
  have hset : cm'.userWhitelist = cm₀.userWhitelist := by
    have hload := loadedDocument_runAll hT calls cm₀ (by rw [h0])
    have hfile : cm₀.configFile = configFile := by rw [h0]; rfl
    rw [hfile] at hload
    rw [h', h0]
    show loadedWhitelist (whitelistEntries (loadedDocument T cm.configFile)) =
      loadedWhitelist (whitelistEntries (loadedDocument T configFile))
    rw [hload]
  refine forall_congr' fun a => imp_congr_right fun _ => ?_
  rw [hset, ← WhitelistCall.mem_runAll_iff T cm₀ calls a]
  exact Iff.comm

/-! ## A whitelist that is lost -/

/-- A text side that knows the empty document and the one with an empty whitelist. -/
def plainText : JsonText where
  parse s := if s = ascii "{}" then some (.object []) else none
  dump _ := ascii "{}"

theorem plainText_readsBack : plainText.ReadsBack where
  member contents doc key v hparse hfind := by
    simp only [plainText] at hparse
    split at hparse
    · cases hparse
      cases hfind
    · cases hparse
  empty := rfl
  dump_ne_nil doc := (by decide : ascii "{}" ≠ [])

def peerAddress : HusarnetAddress := .parse (ascii "fc94::1")

/-- Adding an address to the whitelist of a fresh host and removing it again, and the restart. -/
theorem whitelist_restart_add_rm :
    let cm₀ := after (bootUserConfig plainText) (new true .invalid 0 [] [])
    let cm := WhitelistCall.runAll plainText cm₀ [.add peerAddress, .rm peerAddress]
    let cm' := after (bootUserConfig plainText) (new true .invalid 0 cm.configFile cm.cacheFile)
    (∀ a : HusarnetAddress, a.isFC94 = true → (a ∈ cm'.userWhitelist ↔ a ∈ cm.userWhitelist)) ↔
      ∀ a : HusarnetAddress, a.isFC94 = true →
        Even ((WhitelistCall.acceptedAddresses cm₀.userWhitelist [.add peerAddress, .rm peerAddress]).count a) :=
  whitelist_restart_iff plainText plainText_readsBack true .invalid 0 0 [] [] _

/-- An address added to the whitelist of a fresh host is not there after the restart. -/
theorem whitelist_lost_on_restart :
    let cm₀ := after (bootUserConfig plainText) (new true .invalid 0 [] [])
    let cm := WhitelistCall.runAll plainText cm₀ [.add peerAddress]
    let cm' := after (bootUserConfig plainText) (new true .invalid 0 cm.configFile cm.cacheFile)
    peerAddress.isFC94 = true ∧ peerAddress ∈ cm.userWhitelist ∧ peerAddress ∉ cm'.userWhitelist := by
  decide +kernel

end ConfigManager
end Husarnet
