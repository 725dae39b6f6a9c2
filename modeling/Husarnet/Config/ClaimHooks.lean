import Husarnet.Config.GetConfigPayload
import Husarnet.Config.LicenseInEffect
import Husarnet.Config.ConfigPush
import Husarnet.HooksManager

/-! # Hooks of a claim

The hooks that the configuration manager schedules: one when the device gets an owner, the other when it loses
it. They come in turns, and the hooks thread runs them in turns as well, unless one is scheduled while another one
still waits.
-/

namespace Husarnet
open Octets JsonDoc Containers StateProgram Runs Countdown
set_option autoImplicit false

/-- The hooks among the calls of the configuration manager. -/
def scheduled (calls : List PortCall) : List HookType := calls.filterMap fun call => match call with
  | .scheduleHook hook => some hook
  | _ => none

/-- What an update schedules for the owner before it and behind it. -/
def hooksBetween (previousOwner owner : Bytes) : List HookType :=
  (if previousOwner.isEmpty && !owner.isEmpty then [.claimed] else []) ++
    if !previousOwner.isEmpty && owner.isEmpty then [.unclaimed] else []

/-- The first `n` of claimed, unclaimed, claimed and so on. -/
def alternating (n : ℕ) : List HookType := (List.range n).map fun i => if i % 2 = 0 then .claimed else .unclaimed

theorem alternating_succ (n : ℕ) :
    alternating (n + 1) = alternating n ++ [if n % 2 = 0 then .claimed else .unclaimed] := by
  simp [alternating, List.range_succ]

theorem scheduled_append (calls calls' : List PortCall) :
    scheduled (calls ++ calls') = scheduled calls ++ scheduled calls' := List.filterMap_append

theorem scheduled_ite (c : Bool) (hook : HookType) :
    scheduled (if c then [.scheduleHook hook] else []) = if c then [hook] else [] := by
  cases c <;> rfl

theorem hooksBetween_self (owner : Bytes) : hooksBetween owner owner = [] := by
  cases owner <;> rfl

namespace ConfigManager

/-! ## What an update schedules -/

theorem updateClaimInfo_onError (latestConfig : Json) : FrameOnError portCalls (updateClaimInfo latestConfig) := by
  refine .bind (.lift _) fun _ => .bind (.lift _) fun _ => .bind (.lift _) fun _ => ?_
  refine .bind (.modify fun _ => rfl) fun _ => .bind (.lift _) fun _ => ?_
  exact .seq (.of_frame (.lift _)) fun _ s => ⟨_, _, rfl⟩

theorem updateClaimPart_onError (latestConfig : Json) : FrameOnError portCalls (updateClaimPart latestConfig) := by
  refine .bind (.modify fun _ => rfl) fun _ => .bind .get fun _ => .bind (.lift _) fun _ => ?_
  refine .bind (.modify fun _ => rfl) fun _ => .seq ?_ fun _ s => ⟨_, _, rfl⟩
  exact .ite (updateClaimInfo_onError latestConfig) (.of_frame (.modify fun _ => rfl))

theorem withClaim_calls (cm : ConfigManager) (claim : Option ClaimInfo) :
    ∃ news, (withClaim cm claim).portCalls = cm.portCalls ++ news ∧
      scheduled news = hooksBetween cm.claimedBy (withClaim cm claim).claimedBy := by
  refine ⟨_, (List.append_assoc ..).trans (List.append_assoc ..), ?_⟩
  have hname : scheduled ((claim.map fun info =>
      if info.syncHostname then [PortCall.setSelfHostname info.hostname] else []).getD []) = [] := by
    cases claim with
    | none => rfl
    | some info => cases hsync : info.syncHostname <;> simp [hsync, scheduled]
  rw [scheduled_append, hname, List.nil_append, scheduled_append, scheduled_ite, scheduled_ite]
  rfl

theorem updateHostsEntries_calls (latestConfig : Json) (cm : ConfigManager) :
    ∃ news, (after (updateHostsEntries latestConfig) cm).portCalls = cm.portCalls ++ news ∧
      (scheduled news = hooksBetween cm.claimedBy (after (updateHostsEntries latestConfig) cm).claimedBy ∨
        scheduled news = [] ∧ ¬ Completes (updateHostsEntries latestConfig) cm) := by
  rw [updateHostsEntries_eq]
  cases peerEntries latestConfig with
  | none => exact ⟨[], (List.append_nil _).symm, Or.inl (hooksBetween_self _).symm⟩
  | some peers =>
    have hclaim := updateClaimPart_spec latestConfig cm
    simp only [updateFromPeers_eq]
    cases hread : ClaimInfo.read latestConfig with
    | ok claim =>
      rw [hread] at hclaim
      obtain ⟨news, hnews, hhooks⟩ := withClaim_calls { cm with allowedPeers := .empty } claim
      rw [after_bind_ok hclaim, (updatePeerInfos_spec [] peers _).1]
      exact ⟨news, hnews, Or.inl hhooks⟩
    | error fault =>
      rw [hread] at hclaim
      obtain ⟨cm', hrun, -⟩ := hclaim
      have hfail : (updateClaimPart latestConfig >>= fun _ => updatePeerInfos [] peers) cm = .error fault cm' := by
        rw [run_bind, hrun]
      refine ⟨[], ?_, Or.inr ⟨rfl, ?_⟩⟩
      · rw [after_error hfail, List.append_nil]
        exact updateClaimPart_onError latestConfig cm fault cm' hrun
      · rintro ⟨entries, cm'', hok⟩
        rw [hfail] at hok
        cases hok

/-- What an update schedules: what the change of the owner asks for, or nothing, when the payload is malformed. -/
theorem updateGetConfigData_calls (cm : ConfigManager) :
    ∃ news, (after updateGetConfigData cm).portCalls = cm.portCalls ++ news ∧
      (scheduled news = hooksBetween cm.claimedBy (after updateGetConfigData cm).claimedBy ∨
        scheduled news = [] ∧ ¬ Completes updateGetConfigData cm) := by
  obtain ⟨j, hmember⟩ := cacheMember_eq CACHE_KEY_GETCONFIG cm
  obtain ⟨news, hnews, hhooks⟩ := updateHostsEntries_calls cm.cachedPayload { cm with cacheJson := j }
  rw [updateGetConfigData, after_bind_ok hmember, Completes, run_bind, hmember, ← cachedPayload]
  unfold after Completes at *
  dsimp only
  rw [run_bind]
  cases hrun : updateHostsEntries cm.cachedPayload { cm with cacheJson := j } with
  | ok entries cm' =>
    rw [hrun] at hnews hhooks
    refine ⟨news ++ [.updateHostsFile (insertNew entries (ascii "husarnet-local") cm'.ourIp)], ?_, Or.inl ?_⟩
    · show cm'.portCalls ++ _ = _
      rw [hnews, List.append_assoc]
      rfl
    · rcases hhooks with hhooks | ⟨-, hfail⟩
      · rw [scheduled_append, hhooks]
        exact List.append_nil _
      · exact absurd ⟨entries, cm', rfl⟩ hfail
  | error fault cm' =>
    rw [hrun] at hnews hhooks
    refine ⟨news, hnews, hhooks.imp_right fun h => ⟨h.1, ?_⟩⟩
    rintro ⟨a, t, hok⟩
    cases hok

/-- What only an update writes: the owner, and the calls. -/
def claimView (cm : ConfigManager) : Bytes × List PortCall := (cm.claimedBy, cm.portCalls)

theorem frame_claimView_updateLicenseData : Frame claimView updateLicenseData :=
  frame_updateLicenseData (fun _ _ => rfl) (fun _ _ _ => rfl) (fun _ _ _ => rfl) fun _ _ => rfl

end ConfigManager

namespace ConfigSystem
open ConfigManager
variable {T : JsonText} {S : Sodium}

def Dead (s : ConfigSystem) : Prop := ∃ fault, s.pc = .dead fault

/-- The step schedules what the change of the owner asks for, or nothing, when it is the last one of the thread. -/
structure ClaimStep (s t : ConfigSystem) (news : List PortCall) : Prop where
  calls : t.cm.portCalls = s.cm.portCalls ++ news
  hooks : scheduled news = hooksBetween s.cm.claimedBy t.cm.claimedBy ∨ scheduled news = [] ∧ t.Dead
  dead : s.Dead → t.Dead ∧ scheduled news = []

theorem claimStep_of_view {s t : ConfigSystem} (hv : t.cm.claimView = s.cm.claimView) (hd : s.Dead → t.Dead) :
    ∃ news, ClaimStep s t news := by
  have howner : t.cm.claimedBy = s.cm.claimedBy := congrArg Prod.fst hv
  have hcalls : t.cm.portCalls = s.cm.portCalls := congrArg Prod.snd hv
  refine ⟨[], hcalls.trans (List.append_nil _).symm, Or.inl ?_, fun h => ⟨hd h, rfl⟩⟩
  rw [howner, hooksBetween_self]
  rfl

theorem claimStep_call {s : ConfigSystem} {α : Type} {m : Cm α} (next : α → Pc) (hm : Frame claimView m)
    (hs : ¬ s.Dead) : ∃ news, ClaimStep s (s.call m next) news :=
  claimStep_of_view (call_frame s next hm) fun h => absurd h hs

theorem step_claimStep (s : ConfigSystem) (e : Event) : ∃ news, ClaimStep s (s.step T S e) news := by
  have hother {α : Type} {m : Cm α} (hm : Frame claimView m) : ∃ news, ClaimStep s (s.callOther m) news :=
    claimStep_of_view (hm s.cm) id
  cases e with
  | whitelistAdd address => exact hother (frame_userWhitelistAdd T address fun _ _ _ => rfl)
  | whitelistRm address => exact hother (frame_userWhitelistRm address fun _ _ _ => rfl)
  | tick ms => exact claimStep_of_view rfl id
  | message m =>
    show ∃ news, ClaimStep s (s.messageStep m) news
    unfold messageStep
    split
    · exact claimStep_of_view rfl id
    · exact claimStep_of_view rfl id
  | thread result =>
    show ∃ news, ClaimStep s (s.threadStep T S result) news
    by_cases hd : s.Dead
    · obtain ⟨fault, hpc⟩ := hd
      have hsame : s.threadStep T S result = s := by simp only [threadStep, hpc]
      rw [hsame]
      exact claimStep_of_view rfl id
    · have hstay {t : ConfigSystem} (ht : t.cm.claimView = s.cm.claimView) : ∃ news, ClaimStep s t news :=
        claimStep_of_view ht fun h => absurd h hd
      unfold threadStep
      cases hpc : s.pc with
      | readCache => exact claimStep_call _ (frame_readCache T fun _ _ => rfl) hd
      | readUserConfig => exact claimStep_call _ (frame_readUserConfig T fun _ _ => rfl) hd
      | updateUserConfigData => exact claimStep_call _ (frame_updateUserConfigData fun _ _ => rfl) hd
      | fetchLicense => exact claimStep_call _ (frame_fetchLicenseJson T S _ _ (fun _ _ => rfl) fun _ _ => rfl) hd
      | updateLicenseData => exact claimStep_call _ frame_claimView_updateLicenseData hd
      | firstWriteCache => exact claimStep_call _ (.modify fun _ => rfl) hd
      | waiting => exact hstay rfl
      | checkLicense now => exact hstay rfl
      | redownloadLicense now =>
        exact claimStep_call _ (frame_fetchLicenseJson T S _ _ (fun _ _ => rfl) fun _ _ => rfl) hd
      | checkGetConfig now w =>
        dsimp only
        split
        · exact hstay rfl
        · exact hstay rfl
      | getConfigRequested => exact claimStep_call _ (.lift _) hd
      | getConfigReceived apiResponse =>
        exact hstay (receive_frame (f := claimView) apiResponse (fun _ => .modify fun _ => rfl) s)
      | getConfigStored =>
        obtain ⟨news, hnews, hhooks⟩ := updateGetConfigData_calls s.cm
        refine ⟨news, ?_, ?_, fun h => absurd h hd⟩
        · rw [call_cm]
          exact hnews
        · rw [call_cm]
          refine hhooks.imp_right fun h => ⟨h.1, ?_⟩
          rcases call_pc s updateGetConfigData fun _ => Pc.getConfigApplied with ⟨a, cm, hok, -⟩ | hfault
          · exact absurd ⟨a, cm, hok⟩ h.2
          · exact hfault
      | getConfigApplied => exact hstay rfl
      | checkWriteCache w => exact claimStep_call _ (.ite (.modify fun _ => rfl) (.pure _)) hd
      | dead fault => exact absurd ⟨fault, hpc⟩ hd

/-- The hooks scheduled so far come in turns, and tell whether there is an owner as long as the thread lives. -/
def HooksAlternate (s : ConfigSystem) : Prop :=
  ∃ n, scheduled s.cm.portCalls = alternating n ∧ (¬ s.Dead → (s.cm.claimedBy ≠ [] ↔ n % 2 = 1))

theorem hooksBetween_alternating {n : ℕ} {previousOwner : Bytes} (owner : Bytes) (h : previousOwner ≠ [] ↔ n % 2 = 1) :
    ∃ m, alternating n ++ hooksBetween previousOwner owner = alternating m ∧ (owner ≠ [] ↔ m % 2 = 1) := by
  cases previousOwner with
  | nil =>
    have heven : n % 2 = 0 := by simp at h; omega
    cases owner with
    | nil => exact ⟨n, by simp [hooksBetween], by simp [heven]⟩
    | cons c owner => exact ⟨n + 1, by simp [hooksBetween, alternating_succ, heven], by simp; omega⟩
  | cons b previousOwner =>
    have hodd : n % 2 = 1 := by simpa using h
    cases owner with
    | nil => exact ⟨n + 1, by simp [hooksBetween, alternating_succ, hodd], by simp; omega⟩
    | cons c owner => exact ⟨n, by simp [hooksBetween], by simp [hodd]⟩

theorem HooksAlternate.step {s t : ConfigSystem} {news : List PortCall} (h : s.HooksAlternate) (ht : ClaimStep s t news) :
    t.HooksAlternate := by
  obtain ⟨n, hn, howner⟩ := h
  rw [HooksAlternate, ht.calls, scheduled_append, hn]
  by_cases hd : s.Dead
  · obtain ⟨hdead, hnone⟩ := ht.dead hd
    exact ⟨n, by rw [hnone, List.append_nil], fun h => absurd hdead h⟩
  · rcases ht.hooks with hhooks | ⟨hnone, hdead⟩
    · obtain ⟨m, hm, hmowner⟩ := hooksBetween_alternating t.cm.claimedBy (howner hd)
      exact ⟨m, by rw [hhooks, hm], fun _ => hmowner⟩
    · exact ⟨n, by rw [hnone, List.append_nil], fun h => absurd hdead h⟩

end ConfigSystem

/-! ## The hooks that run -/

structure HookedDaemon where
  config : ConfigSystem
  hooks : HooksManager
  ran : List HookType := []

inductive HookedEvent where
  | config (e : ConfigSystem.Event)
  | hooksRound

namespace HookedDaemon
open ConfigSystem
variable {T : JsonText} {S : Sodium}

def newHooks (s t : ConfigSystem) : List HookType := scheduled (t.cm.portCalls.drop s.cm.portCalls.length)

def step (T : JsonText) (S : Sodium) (d : HookedDaemon) : HookedEvent → HookedDaemon
  | .config e =>
    let config := d.config.step T S e
    { d with config := config, hooks := (newHooks d.config config).foldl HooksManager.scheduleHook d.hooks }
  | .hooksRound =>
    let (hooks, ran) := d.hooks.round
    { d with hooks := hooks, ran := d.ran ++ ran }

def Step (T : JsonText) (S : Sodium) (d : HookedDaemon) (e : HookedEvent) (d' : HookedDaemon) : Prop := d.step T S e = d'

/-- The daemon starts, with hooks enabled. -/
def start (enableControlplane : Bool) (ourIp : HusarnetAddress) (clock : ℤ) (configFile cacheFile : Bytes) :
    HookedDaemon where
  config := ConfigSystem.start enableControlplane ourIp clock configFile cacheFile
  hooks := .new true

/-- No hook waits. -/
def Idle (m : HooksManager) : Prop := ∀ hook, m.hookTimers hook < 0

def Schedules (x : HookedDaemon × HookedEvent × HookedDaemon) : Prop := newHooks x.1.config x.2.2.config ≠ []

/-- Only this hook waits. -/
structure Waits (m : HooksManager) (hook : HookType) : Prop where
  set : 0 ≤ m.hookTimers hook
  bumped : m.hookTimers hook ≤ HOOKS_BUMP_TIME
  others (other : HookType) : other ≠ hook → m.hookTimers other < 0

theorem Idle.waits {m : HooksManager} (h : Idle m) (hm : m.enabled = true) (hook : HookType) :
    Waits (m.scheduleHook hook) hook := by
  rw [HooksManager.scheduleHook, if_neg (by simp [hm])]
  refine ⟨by simp, by simp, fun other ho => ?_⟩
  simpa [ho] using h other

theorem turn_of_neg {t : ℤ} (h : t < 0) : turn HOOKS_PERIOD t = (t, false) := by
  rw [turn, if_neg (by omega)]

theorem Idle.round {m : HooksManager} (h : Idle m) (hm : m.enabled = true) : m.round = (m, []) := by
  rw [HooksManager.round_eq hm]
  refine Prod.ext ?_ ?_
  · simp [turn_of_neg (h _)]
  · simp [turn_of_neg (h _)]

theorem filter_only {hook : HookType} {f : HookType → Bool} (h : ∀ other, other ≠ hook → f other = false) :
    HookType.all.filter f = if f hook then [hook] else [] := by
  cases hook with
  | claimed => simp [HookType.all, List.filter_cons, h .unclaimed]
  | unclaimed => simp [HookType.all, List.filter_cons, h .claimed]

/-- A round runs the hook that waits, or leaves it waiting for less than a period. -/
theorem Waits.round {m : HooksManager} {hook : HookType} (h : Waits m hook) (hm : m.enabled = true) :
    (Idle m.round.1 ∧ m.round.2 = [hook]) ∨
      Waits m.round.1 hook ∧ m.round.2 = [] ∧ m.round.1.hookTimers hook ≤ HOOKS_PERIOD := by
  have hothers (other : HookType) (ho : other ≠ hook) : turn HOOKS_PERIOD (m.hookTimers other) = (m.hookTimers other, false) :=
    turn_of_neg (h.others other ho)
  rw [HooksManager.round_eq hm, filter_only fun other ho => by rw [hothers other ho]]
  have hset := h.set
  have hbumped := h.bumped
  have hbump : HOOKS_BUMP_TIME = 200 := rfl
  have hperiod : HOOKS_PERIOD = 100 := rfl
  by_cases hup : m.hookTimers hook - HOOKS_PERIOD ≤ 0
  · have hturn : turn HOOKS_PERIOD (m.hookTimers hook) = (-1, true) := by rw [turn, if_pos hset, if_pos hup]
    refine Or.inl ⟨fun other => ?_, by simp [hturn]⟩
    by_cases ho : other = hook
    · simp [ho, hturn]
    · simpa [hothers other ho] using h.others other ho
  · have hturn : turn HOOKS_PERIOD (m.hookTimers hook) = (m.hookTimers hook - HOOKS_PERIOD, false) := by
      rw [turn, if_pos hset, if_neg hup]
    refine Or.inr ⟨⟨?_, ?_, fun other ho => ?_⟩, by simp [hturn], ?_⟩
    · simp only [hturn]
      omega
    · simp only [hturn]
      omega
    · simpa [hothers other ho] using h.others other ho
    · simp only [hturn]
      omega

/-- The hooks that ran are the scheduled ones, up to one that waits. -/
structure InTurn (d : HookedDaemon) : Prop where
  enabled : d.hooks.enabled = true
  ran : (Idle d.hooks ∧ d.ran = scheduled d.config.cm.portCalls) ∨
    ∃ hook, Waits d.hooks hook ∧ d.ran ++ [hook] = scheduled d.config.cm.portCalls

theorem InTurn.hooksRound {d : HookedDaemon} (h : d.InTurn) : (d.step T S .hooksRound).InTurn := by
  have henabled : d.hooks.round.1.enabled = true := by
    rw [HooksManager.round_eq h.enabled]
    exact h.enabled
  refine ⟨henabled, ?_⟩
  simp only [step]
  rcases h.ran with ⟨hidle, hran⟩ | ⟨hook, hwaits, hran⟩
  · rw [hidle.round h.enabled, List.append_nil]
    exact Or.inl ⟨hidle, hran⟩
  · rcases hwaits.round h.enabled with ⟨hidle, hruns⟩ | ⟨hwaits', hnone, -⟩
    · rw [hruns]
      exact Or.inl ⟨hidle, hran⟩
    · rw [hnone, List.append_nil]
      exact Or.inr ⟨hook, hwaits', hran⟩

/-- Two rounds later nothing waits. -/
theorem InTurn.twoRounds {d : HookedDaemon} (h : d.InTurn) :
    ((d.step T S .hooksRound).step T S .hooksRound).ran = scheduled d.config.cm.portCalls := by
  have henabled : d.hooks.round.1.enabled = true := (h.hooksRound (T := T) (S := S)).enabled
  simp only [step]
  rcases h.ran with ⟨hidle, hran⟩ | ⟨hook, hwaits, hran⟩
  · simp [hidle.round h.enabled, hran]
  · rcases hwaits.round h.enabled with ⟨hidle, hruns⟩ | ⟨hwaits', hnone, hless⟩
    · rw [hidle.round henabled, hruns, List.append_nil, hran]
    · rcases hwaits'.round henabled with ⟨-, hruns⟩ | ⟨hmore, -, -⟩
      · rw [hnone, hruns, List.append_nil, hran]
      · have hagain := hmore.set
        rw [HooksManager.round_eq henabled] at hagain
        have hset := hwaits'.set
        simp only [turn, if_pos hset, if_pos (show d.hooks.round.1.hookTimers hook - HOOKS_PERIOD ≤ 0 by omega)] at hagain
        omega

theorem hooksBetween_cases (previousOwner owner : Bytes) :
    hooksBetween previousOwner owner = [] ∨ ∃ hook, hooksBetween previousOwner owner = [hook] := by
  cases previousOwner <;> cases owner <;> simp [hooksBetween]

theorem newHooks_eq {s t : ConfigSystem} {news : List PortCall} (h : ClaimStep s t news) : newHooks s t = scheduled news := by
  rw [newHooks, h.calls, List.drop_left]

theorem InTurn.config {d : HookedDaemon} (h : d.InTurn) (e : ConfigSystem.Event)
    (hg : Schedules (d, .config e, d.step T S (.config e)) → Idle d.hooks) : (d.step T S (.config e)).InTurn := by
  obtain ⟨news, hstep⟩ := step_claimStep (T := T) (S := S) d.config e
  have hnew := newHooks_eq hstep
  have hcalls := congrArg scheduled hstep.calls
  rw [scheduled_append] at hcalls
  have hone : scheduled news = [] ∨ ∃ hook, scheduled news = [hook] := by
    rcases hstep.hooks with hhooks | ⟨hnone, -⟩
    · exact hhooks ▸ hooksBetween_cases _ _
    · exact Or.inl hnone
  simp only [Schedules, step] at hg
  constructor
  · simp only [step, hnew]
    have hkeep (m : HooksManager) (hooks : List HookType) : (hooks.foldl HooksManager.scheduleHook m).enabled = m.enabled := by
      induction hooks generalizing m with
      | nil => rfl
      | cons hook hooks ih => simp [ih]
    rw [hkeep]
    exact h.enabled
  · simp only [step, hnew, hcalls]
    rw [hnew] at hg
    rcases hone with hnews | ⟨hook, hnews⟩
    · simpa [hnews] using h.ran
    · have hidle := hg (by simp [hnews])
      rw [hnews]
      rcases h.ran with ⟨-, hran⟩ | ⟨other, hwaits, -⟩
      · exact Or.inr ⟨hook, hidle.waits h.enabled hook, by rw [hran]⟩
      · exact absurd (hidle other) (not_lt.mpr hwaits.set)

/-- **The hooks of a claim come in turns.** An owner is found and lost in turns, and each time the hook for it is
scheduled. Where none is scheduled while another one waits, they run in this order, and two rounds later all have. -/
theorem hooks_in_turns (T : JsonText) (S : Sodium) (enableControlplane : Bool) (ourIp : HusarnetAddress) (clock : ℤ)
    (configFile cacheFile : Bytes) {tr : List (HookedEvent × HookedDaemon)}
    (hr : IsRun (Step T S) (start enableControlplane ourIp clock configFile cacheFile) tr) :
    let d₀ := start enableControlplane ourIp clock configFile cacheFile
    let d := last d₀ tr
    ∃ n, scheduled d.config.cm.portCalls = alternating n ∧
      (¬ d.config.Dead → (d.config.cm.claimedBy ≠ [] ↔ n % 2 = 1)) ∧
      ((∀ x ∈ transitions d₀ tr, Schedules x → Idle x.1.hooks) → d.ran <+: alternating n ∧ n ≤ d.ran.length + 1 ∧
        ((d.step T S .hooksRound).step T S .hooksRound).ran = alternating n) := by
  intro d₀ d
  have halternate : d.config.HooksAlternate := by
    refine hr.keeps (I := fun d => d.config.HooksAlternate) ⟨0, rfl, fun _ => by simp [start, ConfigSystem.start,
      ConfigManager.new]⟩ (fun s e t hs ht => ?_) _ (mem_states_last d₀ tr)
    obtain rfl := ht
    cases e with
    | config e =>
      obtain ⟨news, hstep⟩ := step_claimStep (T := T) (S := S) s.config e
      exact hs.step hstep
    | hooksRound => exact hs
  obtain ⟨n, hn, howner⟩ := halternate
  refine ⟨n, hn, howner, fun hg => ?_⟩
  have hinTurn : d.InTurn := by
    refine hr.invariant (I := InTurn) (G := fun s e t => Schedules (s, e, t) → Idle s.hooks)
      ⟨rfl, Or.inl ⟨fun _ => by simp [start, HooksManager.new], rfl⟩⟩ (fun s e t hs hg ht => ?_) hg _ (mem_states_last d₀ tr)
    obtain rfl := ht
    cases e with
    | config e => exact hs.config e hg
    | hooksRound => exact hs.hooksRound
  have hlen : (alternating n).length = n := by simp [alternating]
  rw [← hn]
  refine ⟨?_, ?_, hinTurn.twoRounds⟩
  · rcases hinTurn.ran with ⟨-, hran⟩ | ⟨hook, -, hran⟩
    · exact hran ▸ List.prefix_rfl
    · exact ⟨[hook], hran⟩
  · rw [← hlen, ← hn]
    rcases hinTurn.ran with ⟨-, hran⟩ | ⟨hook, -, hran⟩
    · rw [hran]
      omega
    · simp [← hran]

/-! ## A device that is claimed -/

/-- A text side that knows the empty object, and one reply that claims the device. -/
def claimText : JsonText where
  parse s :=
    if s = ascii "{}" then some (.object [])
    else if s = ascii "claim" then some (.object [(ascii "type", .string (ascii "success")), (ascii "payload", .object [
      (GETCONFIG_KEY_PEERS, .array []), (GETCONFIG_KEY_IS_CLAIMED, .bool true),
      (GETCONFIG_KEY_CLAIMINFO, .object [(GETCONFIG_KEY_CLAIMINFO_OWNER, .string (ascii "owner")),
        (GETCONFIG_KEY_CLAIMINFO_HOSTNAME, .string (ascii "host"))]),
      (GETCONFIG_KEY_FEATUREFLAGS, .object [(GETCONFIG_KEY_FEATUREFLAGS_SYNCHOSTNAME, .bool false)])])])
    else none
  dump _ := []

def claimedRun : List HookedEvent :=
  let step : HookedEvent := .config (.thread ⟨-1, []⟩)
  [step, step, step, step, step, step, .config (.tick 6000), step, step, step, step,
    .config (.thread ⟨200, ascii "claim"⟩), step, step]

instance (m : HooksManager) : Decidable (Idle m) :=
  decidable_of_iff (m.hookTimers .claimed < 0 ∧ m.hookTimers .unclaimed < 0)
    ⟨fun h hook => by cases hook <;> simp [h], fun h => ⟨h .claimed, h .unclaimed⟩⟩

instance (x : HookedDaemon × HookedEvent × HookedDaemon) : Decidable (Schedules x) :=
  inferInstanceAs (Decidable (newHooks x.1.config x.2.2.config ≠ []))

theorem hooks_in_turns_claimed :
    let d₀ := start true .invalid 0 [] []
    let d := last d₀ (trace (step claimText clearSodium) d₀ claimedRun)
    d.config.cm.claimedBy = ascii "owner" ∧
      ((d.step claimText clearSodium .hooksRound).step claimText clearSodium .hooksRound).ran = [.claimed] := by
  intro d₀ d
  obtain ⟨n, hn, -, hran⟩ := hooks_in_turns claimText clearSodium true .invalid 0 [] []
    (isRun_trace (step claimText clearSodium) d₀ claimedRun)
  have hscheduled : scheduled d.config.cm.portCalls = [.claimed] := by decide +kernel
  refine ⟨by decide +kernel, ?_⟩
  rw [(hran (by decide +kernel)).2.2, ← hn]
  exact hscheduled

end HookedDaemon
end Husarnet
