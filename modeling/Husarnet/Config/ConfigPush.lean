import Husarnet.Config.ConfigThread

/-! # Pushed configurations

A trigger sets the timer of the next get_config to the present; a fetch that ends sets it ten
minutes ahead, also when a trigger came while the fetch was under way. `Swallows` is that step.
A run without it never moves the timer past the last trigger that no request has answered, and
every iteration begun after such a trigger sends a request.
-/

namespace Husarnet
open Octets StateProgram Runs
set_option autoImplicit false

namespace ConfigSystem

/-! ## What is promised -/

/-- The timer is not later than the last trigger that no request has followed. -/
def PushKept (s : ConfigSystem) : Prop := ∀ t ∈ s.pushes.head?, s.cm.nextGetConfigUpdate ≤ t

/-- The same for every trigger that no request has followed. -/
def EveryPushKept (s : ConfigSystem) : Prop := ∀ t ∈ s.pushes, s.cm.nextGetConfigUpdate ≤ t

/-- An iteration that took its time at or after the last pending trigger sends a request. -/
def PushFetched (x : ConfigSystem × Event × ConfigSystem) : Prop :=
  ∀ result now w, x.2.1 = .thread result → x.1.pc = .checkGetConfig now w →
    (∃ t ∈ x.1.pushes.head?, t ≤ now) → x.2.2.pc = .getConfigRequested

/-- A fetch ends while a trigger is pending that came after the fetch's request. -/
def Swallows (x : ConfigSystem × Event × ConfigSystem) : Prop :=
  (∃ result, x.2.1 = .thread result) ∧ x.1.pc = .getConfigApplied ∧ x.1.pushes ≠ []

/-- A trigger comes while an earlier one is pending. -/
def Supersedes (x : ConfigSystem × Event × ConfigSystem) : Prop :=
  (∃ m, x.2.1 = .message m ∧ handleMessage m = true) ∧ ∃ t ∈ x.1.pushes, t < x.1.clock

/-! ## What a step does to the timer -/

section Step
variable {T : JsonText} {S : Sodium} {s t : ConfigSystem} {e : Event}

theorem trigger_eq (s : ConfigSystem) : s.trigger =
    { s with cm := { s.cm with nextGetConfigUpdate := s.clock }, pushes := s.clock :: s.pushes } := rfl

theorem call_timer {α : Type} {m : Cm α} (s : ConfigSystem) (next : α → Pc) (h : Frame ConfigManager.timer m) :
    (s.call m next).cm.timer = s.cm.timer := by
  rw [call_cm]
  exact h s.cm

theorem receive_frame (apiResponse : dashboardapi.Response) {τ : Type} {f : ConfigManager → τ}
    (h : ∀ doc, Frame f (ConfigManager.storeGetConfig doc)) (s : ConfigSystem) :
    f (s.receive apiResponse).cm = f s.cm := by
  unfold receive
  rw [call_cm]
  refine Frame.bind (.lift _) (fun stored => .ite ?_ ?_) s.cm
  · exact .bind (.lift _) fun _ => .bind (h _) fun _ => .pure _
  · exact .bind (.lift _) fun _ => .pure _

/-- Only the step that ends a fetch writes the timer, and only a request drops the pending triggers. -/
theorem threadStep_timer (result : HttpResult) (h : s.pc ≠ .getConfigApplied) :
    (s.threadStep T S result).cm.timer = s.cm.timer ∧ (s.threadStep T S result).clock = s.clock ∧
      ((s.threadStep T S result).pushes = s.pushes ∨ (s.threadStep T S result).pushes = []) := by
  unfold threadStep
  cases hpc : s.pc with
  | readCache => exact ⟨call_timer s _ (ConfigManager.frame_readCache T fun _ _ => rfl), by simp, by simp⟩
  | readUserConfig => exact ⟨call_timer s _ (ConfigManager.frame_readUserConfig T fun _ _ => rfl), by simp, by simp⟩
  | updateUserConfigData =>
    exact ⟨call_timer s _ (ConfigManager.frame_updateUserConfigData fun _ _ => rfl), by simp, by simp⟩
  | fetchLicense =>
    exact ⟨call_timer s _ (ConfigManager.frame_fetchLicenseJson T S _ _ (fun _ _ => rfl) fun _ _ => rfl),
      by simp, by simp⟩
  | updateLicenseData => exact ⟨call_timer s _ ConfigManager.frame_timer_updateLicenseData, by simp, by simp⟩
  | firstWriteCache => exact ⟨call_timer s _ (.modify fun _ => rfl), by simp, by simp⟩
  | waiting => exact ⟨rfl, rfl, Or.inl rfl⟩
  | checkLicense now => exact ⟨rfl, rfl, Or.inl rfl⟩
  | redownloadLicense now =>
    exact ⟨call_timer s _ (ConfigManager.frame_fetchLicenseJson T S _ _ (fun _ _ => rfl) fun _ _ => rfl),
      by simp, by simp⟩
  | checkGetConfig now w =>
    dsimp only
    by_cases hc : s.cm.enableControlplane ∧ s.cm.nextGetConfigUpdate ≤ now
    · rw [if_pos hc]
      exact ⟨rfl, rfl, Or.inr rfl⟩
    · rw [if_neg hc]
      exact ⟨rfl, rfl, Or.inl rfl⟩
  | getConfigRequested => exact ⟨call_timer s _ (.lift _), by simp, by simp⟩
  | getConfigReceived apiResponse =>
    refine ⟨?_, by simp [receive], by simp [receive]⟩
    exact receive_frame apiResponse (fun doc => ConfigManager.frame_timer_of_outside
      (ConfigManager.frame_storeGetConfig doc)) s
  | getConfigStored =>
    exact ⟨call_timer s _ (ConfigManager.frame_timer_of_outside ConfigManager.frame_updateGetConfigData),
      by simp, by simp⟩
  | getConfigApplied => exact absurd hpc h
  | checkWriteCache w => exact ⟨call_timer s _ (.ite (.modify fun _ => rfl) (.pure _)), by simp, by simp⟩
  | dead fault => exact ⟨rfl, rfl, Or.inl rfl⟩

theorem step_timer_cases (h : Step T S s e t) :
    ((∃ m, e = .message m ∧ handleMessage m = true) ∧ s.cm.enableControlplane = true ∧ t = s.trigger) ∨
    ((∃ result, e = .thread result) ∧ s.pc = .getConfigApplied ∧ t = s.setTimer) ∨
    (t.cm.timer = s.cm.timer ∧ s.clock ≤ t.clock ∧ (t.pushes = s.pushes ∨ t.pushes = [])) := by
  subst h
  cases e with
  | thread result =>
    by_cases hpc : s.pc = .getConfigApplied
    · refine Or.inr (Or.inl ⟨⟨result, rfl⟩, hpc, ?_⟩)
      simp only [step, threadStep, hpc]
    · obtain ⟨h1, h2, h3⟩ := threadStep_timer (T := T) (S := S) result hpc
      exact Or.inr (Or.inr ⟨h1, h2.ge, h3⟩)
  | message m =>
    by_cases hc : s.cm.enableControlplane ∧ handleMessage m
    · refine Or.inl ⟨⟨m, rfl, hc.2⟩, hc.1, ?_⟩
      simp only [step, messageStep, if_pos hc]
    · refine Or.inr (Or.inr ?_)
      simp only [step, messageStep, if_neg hc]
      exact ⟨trivial, le_refl _, Or.inl trivial⟩
  | whitelistAdd address =>
    exact Or.inr (Or.inr ⟨ConfigManager.frame_userWhitelistAdd T address (fun _ _ _ => rfl) s.cm, le_refl _, Or.inl rfl⟩)
  | whitelistRm address =>
    exact Or.inr (Or.inr ⟨ConfigManager.frame_userWhitelistRm address (fun _ _ _ => rfl) s.cm, le_refl _, Or.inl rfl⟩)
  | tick ms => exact Or.inr (Or.inr ⟨rfl, Int.le_add_of_nonneg_right (Int.natCast_nonneg ms), Or.inl rfl⟩)

end Step

/-! ## The invariant -/

/-- Pending triggers are in the past, the latest first, and the control plane is enabled. -/
structure PushInv (s : ConfigSystem) : Prop where
  past : ∀ t ∈ s.pushes, t ≤ s.clock
  enabled : s.pushes ≠ [] → s.cm.enableControlplane = true

section Inv
variable {T : JsonText} {S : Sodium} {s t : ConfigSystem} {e : Event}

theorem pushInv_step (hi : PushInv s) (h : Step T S s e t) : PushInv t := by
  rcases step_timer_cases h with ⟨-, hen, rfl⟩ | ⟨-, -, rfl⟩ | ⟨htimer, hclock, hpushes⟩
  · refine ⟨fun t ht => ?_, fun _ => hen⟩
    rcases List.mem_cons.mp ht with rfl | ht
    · exact le_refl _
    · exact hi.past t ht
  · exact ⟨hi.past, hi.enabled⟩
  · have hen : t.cm.enableControlplane = s.cm.enableControlplane := congrArg Prod.fst htimer
    rcases hpushes with hp | hp
    · refine ⟨fun u hu => ?_, fun hne => ?_⟩
      · rw [hp] at hu
        exact (hi.past u hu).trans hclock
      · rw [hp] at hne
        rw [hen]
        exact hi.enabled hne
    · refine ⟨fun u hu => ?_, fun hne => absurd hp hne⟩
      rw [hp] at hu
      cases hu

/-- A step that swallows no trigger is one, or drops the pending ones, or leaves them and the timer. -/
theorem step_pushes (hn : ¬ Swallows (s, e, t)) (h : Step T S s e t) :
    ((∃ m, e = .message m ∧ handleMessage m = true) ∧ t = s.trigger) ∨ t.pushes = [] ∨
      (t.pushes = s.pushes ∧ t.cm.nextGetConfigUpdate = s.cm.nextGetConfigUpdate) := by
  rcases step_timer_cases h with ⟨hm, -, ht⟩ | ⟨hthread, hpc, rfl⟩ | ⟨htimer, -, hpushes⟩
  · exact Or.inl ⟨hm, ht⟩
  · have hp : s.pushes = [] := not_not.mp fun hne => hn ⟨hthread, hpc, hne⟩
    exact Or.inr (Or.inl hp)
  · have hnext : t.cm.nextGetConfigUpdate = s.cm.nextGetConfigUpdate := congrArg Prod.snd htimer
    rcases hpushes with hp | hp
    · exact Or.inr (Or.inr ⟨hp, hnext⟩)
    · exact Or.inr (Or.inl hp)

/-- A step that swallows no trigger keeps the timer at the last one. -/
theorem pushKept_step (hk : PushKept s) (hn : ¬ Swallows (s, e, t)) (h : Step T S s e t) : PushKept t := by
  intro u hu
  rcases step_pushes hn h with ⟨-, rfl⟩ | hp | ⟨hp, hnext⟩
  · rw [trigger_eq, List.head?_cons, Option.mem_some_iff] at hu
    exact hu ▸ le_refl _
  · rw [hp] at hu
    cases hu
  · rw [hp] at hu
    exact hnext ▸ hk u hu

theorem everyPushKept_step (hk : EveryPushKept s) (hn : ¬ Swallows (s, e, t)) (hs : ¬ Supersedes (s, e, t))
    (h : Step T S s e t) : EveryPushKept t := by
  intro u hu
  rcases step_pushes hn h with ⟨hm, rfl⟩ | hp | ⟨hp, hnext⟩
  · rcases List.mem_cons.mp hu with rfl | hu
    · exact le_refl _
    · exact not_lt.mp fun hlt => hs ⟨hm, u, hu, hlt⟩
  · rw [hp] at hu
    cases hu
  · rw [hp] at hu
    exact hnext ▸ hk u hu

theorem pushFetched_of_kept (hi : PushInv s) (hk : PushKept s) (h : Step T S s e t) : PushFetched (s, e, t) := by
  rintro result now w rfl hpc ⟨u, hu, hle⟩
  have hen := hi.enabled fun hnil => by
    rw [hnil] at hu
    cases hu
  have hc : s.cm.enableControlplane ∧ s.cm.nextGetConfigUpdate ≤ now := ⟨hen, (hk u hu).trans hle⟩
  have ht : s.threadStep T S result = t := h
  dsimp only at hpc
  rw [← ht, threadStep, hpc]
  dsimp only
  rw [if_pos hc]

/-- A swallowed trigger leaves the timer ten minutes ahead of every trigger so far. -/
theorem setTimer_later (hi : PushInv s) {u : ℤ} (hu : u ∈ s.pushes) :
    u < s.setTimer.cm.nextGetConfigUpdate := by
  have h := hi.past u hu
  have hlt : (0 : ℤ) < getConfigRefreshPeriod := by decide
  show u < s.clock + getConfigRefreshPeriod
  omega

theorem not_pushKept_of_swallows (hi : PushInv s) (h : Step T S s e t) (hsw : Swallows (s, e, t)) :
    ¬ PushKept t := by
  obtain ⟨⟨result, rfl⟩, hpc, hne⟩ := hsw
  have ht : t = s.setTimer := by
    rcases step_timer_cases h with ⟨⟨m, hm, -⟩, -⟩ | ⟨-, -, ht⟩ | -
    · cases hm
    · exact ht
    · have ht : s.threadStep T S result = t := h
      dsimp only at hpc
      rw [← ht, threadStep, hpc]
  obtain ⟨u, rest, hp⟩ := List.exists_cons_of_ne_nil hne
  intro hk
  have hle := hk u (by rw [ht, setTimer]; dsimp only; rw [hp]; rfl)
  rw [ht] at hle
  have hlt := setTimer_later hi (u := u) (by rw [hp]; exact List.mem_cons_self ..)
  omega

theorem not_everyPushKept_of_supersedes (hi : PushInv s) (h : Step T S s e t) (hs : Supersedes (s, e, t)) :
    ¬ EveryPushKept t := by
  obtain ⟨⟨m, rfl, hm⟩, u, hu, hlt⟩ := hs
  have hen := hi.enabled fun hnil => by
    rw [hnil] at hu
    cases hu
  have ht : s.messageStep m = t := h
  rw [messageStep, if_pos ⟨hen, hm⟩] at ht
  intro hk
  have hle : s.clock ≤ u := by
    have h := hk u (by rw [← ht]; exact List.mem_cons_of_mem _ hu)
    rwa [← ht] at h
  exact absurd hlt (not_lt.mpr hle)

theorem pushKept_of_every (hk : EveryPushKept s) : PushKept s := fun u hu => hk u (List.mem_of_mem_head? hu)

end Inv

/-! ## Runs -/

theorem pushInv_start (enableControlplane : Bool) (ourIp : HusarnetAddress) (clock : ℤ)
    (configFile cacheFile : Bytes) : PushInv (start enableControlplane ourIp clock configFile cacheFile) :=
  ⟨fun _ h => absurd h List.not_mem_nil, fun h => absurd rfl h⟩

/-- **Triggers and fetches.** In every run of the periodic thread, the EventBus thread and the
daemon API, from every start: the timer stays at or before the last trigger that no request has
followed, and the next iteration sends a request, exactly when no fetch ends with a trigger
pending; and it stays at or before each such trigger exactly when, besides, none of them comes
before another. -/
theorem push_kept_iff_not_swallowed (T : JsonText) (S : Sodium) (enableControlplane : Bool)
    (ourIp : HusarnetAddress) (clock : ℤ) (configFile cacheFile : Bytes) (events : List Event) :
    let s₀ := start enableControlplane ourIp clock configFile cacheFile
    let tr := trace (step T S) s₀ events
    (((∀ s ∈ states s₀ tr, s.PushKept) ∧ ∀ x ∈ transitions s₀ tr, PushFetched x) ↔
      ∀ x ∈ transitions s₀ tr, ¬ Swallows x) ∧
    ((∀ s ∈ states s₀ tr, s.EveryPushKept) ↔ ∀ x ∈ transitions s₀ tr, ¬ Swallows x ∧ ¬ Supersedes x) := by
  intro s₀ tr
  have hrun : IsRun (Step T S) s₀ tr := isRun_trace (step T S) s₀ events
  have hstart : EveryPushKept s₀ := fun _ h => absurd h List.not_mem_nil
  have hinv : ∀ s ∈ states s₀ tr, PushInv s := hrun.keeps (pushInv_start ..) fun _ _ _ => pushInv_step
  refine ⟨⟨?_, ?_⟩, ?_, ?_⟩
  · rintro ⟨hkept, -⟩ x hx hsw
    obtain ⟨hmem, hstep⟩ := hrun.of_mem hx
    exact not_pushKept_of_swallows (hinv _ hmem) hstep hsw (hkept _ (target_mem_states hx))
  · intro hn
    have hkept : ∀ s ∈ states s₀ tr, s.PushKept :=
      hrun.invariant (G := fun s e t => ¬ Swallows (s, e, t)) (pushKept_of_every hstart)
        (fun _ _ _ hk hg h => pushKept_step hk hg h) hn
    refine ⟨hkept, fun x hx => ?_⟩
    obtain ⟨hmem, hstep⟩ := hrun.of_mem hx
    exact pushFetched_of_kept (hinv _ hmem) (hkept _ hmem) hstep
  · intro hkept x hx
    obtain ⟨hmem, hstep⟩ := hrun.of_mem hx
    have ht := hkept _ (target_mem_states hx)
    exact ⟨fun hsw => not_pushKept_of_swallows (hinv _ hmem) hstep hsw (pushKept_of_every ht),
      fun hs => not_everyPushKept_of_supersedes (hinv _ hmem) hstep hs ht⟩
  · exact fun hn => hrun.invariant (G := fun s e t => ¬ Swallows (s, e, t) ∧ ¬ Supersedes (s, e, t)) hstart
      (fun _ _ _ hk hg h => everyPushKept_step hk hg.1 hg.2 h) hn

/-! ## A swallowed push -/

/-- A text side that knows the empty object and one reply. -/
def replyText : JsonText where
  parse s :=
    if s = ascii "{}" then some (.object [])
    else if s = ascii "ok" then
      some (.object [(ascii "type", .string (ascii "success")), (ascii "payload", .object [])])
    else none
  dump _ := []

/-- A host without files and without a licence server; the first fetch is due after five seconds
and a push arrives before the reply to its request. -/
def pushDuringFetch : List Event :=
  let step : Event := .thread ⟨-1, []⟩
  [step, step, step, step, step, step, .tick 6000, step, step, step, step,
    .message ⟨.TEXT, ascii "get_config"⟩, .thread ⟨200, ascii "ok"⟩, step, step, step]

/-- After the run the push of time 6000 is pending and the next request is due at 606000. -/
theorem push_during_fetch_swallowed :
    let s₀ := start true .invalid 0 [] []
    let s := last s₀ (trace (step replyText clearSodium) s₀ pushDuringFetch)
    s.pushes = [6000] ∧ s.cm.nextGetConfigUpdate = 606000 := by
  decide +kernel

end ConfigSystem
end Husarnet
