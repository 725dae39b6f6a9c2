import Husarnet.Lib.Bytes
import Husarnet.Lib.Runs
import Husarnet.Lib.Totals

/-! # The search for an identity (`cli/daemon_commands.go`)

`genParallel` starts goroutines that each ask the daemon for one identity, as many at a time as the
semaphore lets in, until its loop sees that one of them has found what it looks for. A step is one
operation on the mutex, the semaphore or the wait group, or one answer of the daemon; any goroutine
may take the next one.
-/

namespace Husarnet
open Octets Totals Runs
set_option autoImplicit false

/-- What a search is given: the command line's two values and `runtime.NumCPU()`. -/
structure Search where
  needle : Bytes
  stripHaystack : Bool
  numCPU : ℕ
  numCPU_pos : 0 < numCPU

namespace Search

/-- What is printed up to the first blank, without its colons when they are to be stripped. -/
def haystack (p : Search) (result : Bytes) : Bytes :=
  let haystack := result.takeWhile (· ≠ 0x20)
  if p.stripHaystack then haystack.filter (· ≠ 0x3a) else haystack

/-- `genId` on what the daemon has printed. A daemon that fails ends the program. -/
def genId (p : Search) (result : Bytes) : Bytes × Bool :=
  if (find p.needle (p.haystack result)).isSome then (result, true) else ([], false)

theorem genId_eq_of_true {p : Search} {output : Bytes} (h : (p.genId output).2 = true) :
    p.genId output = (output, true) := by
  unfold genId at h ⊢
  split at h
  · rename_i hfound
    exact if_pos hfound
  · cases h

/-! ## The goroutines -/

/-- What the loop does next; `wait` is reached with the mutex held. -/
inductive Loop where
  | acquire
  | add
  | go
  | lock
  | check
  | unlock
  | wait
  | returned (result : Bytes)
deriving DecidableEq, Repr

/-- What a worker does next. -/
inductive Worker where
  | genId
  | lock (resultTmp : Bytes)
  | store (resultTmp : Bytes)
  | unlock
  | release
  | done
  | finished
deriving DecidableEq, Repr

structure State where
  loop : Loop
  workers : List Worker
  semaphore : ℕ
  wg : ℕ
  locked : Bool
  done : Bool
  result : Bytes
deriving DecidableEq, Repr

def start : State where
  loop := .acquire
  workers := []
  semaphore := 0
  wg := 0
  locked := false
  done := false
  result := []

/-- The next operation of `genParallel` itself. -/
def loopStep (p : Search) (s : State) : Option State :=
  match s.loop with
  | .acquire => if s.semaphore < p.numCPU then some { s with loop := .add, semaphore := s.semaphore + 1 } else none
  | .add => some { s with loop := .go, wg := s.wg + 1 }
  | .go => some { s with loop := .lock, workers := s.workers ++ [.genId] }
  | .lock => if s.locked then none else some { s with loop := .check, locked := true }
  -- the `break` leaves the mutex as it is
  | .check => some { s with loop := if s.done then .wait else .unlock }
  | .unlock => if s.locked then some { s with loop := .acquire, locked := false } else none
  | .wait => if s.wg = 0 then some { s with loop := .returned s.result } else none
  | .returned _ => none

/-- The next operation of worker `i`, which has its answer. -/
def workerStep (s : State) (i : ℕ) : Worker → Option State
  | .genId => none
  | .lock resultTmp =>
    if s.locked then none else some { s with locked := true, workers := s.workers.set i (.store resultTmp) }
  | .store resultTmp => some { s with done := true, result := resultTmp, workers := s.workers.set i .unlock }
  | .unlock => if s.locked then some { s with locked := false, workers := s.workers.set i .release } else none
  | .release =>
    if 0 < s.semaphore then some { s with semaphore := s.semaphore - 1, workers := s.workers.set i .done } else none
  | .done => if 0 < s.wg then some { s with wg := s.wg - 1, workers := s.workers.set i .finished } else none
  | .finished => none

/-- What a worker goes on with behind an answer of the daemon. -/
def afterGenId (p : Search) (output : Bytes) : Worker :=
  let (resultTmp, success) := p.genId output
  if success then .lock resultTmp else .release

def answered (p : Search) (s : State) (i : ℕ) (output : Bytes) : Worker → Option State
  | .genId => some { s with workers := s.workers.set i (p.afterGenId output) }
  | _ => none

inductive Action where
  | loop
  | genId (i : ℕ) (output : Bytes)
  | worker (i : ℕ)
deriving DecidableEq, Repr

/-- One step of the program; there is none where the goroutine is blocked. -/
def step (p : Search) (s : State) : Action → Option State
  | .loop => loopStep p s
  | .genId i output => s.workers[i]?.bind (answered p s i output)
  | .worker i => s.workers[i]?.bind (workerStep s i)

def Step (p : Search) (s : State) (a : Action) (t : State) : Prop := step p s a = some t

/-- No goroutine can go on and the search has not returned. -/
def Deadlocked (p : Search) (s : State) : Prop := (∀ r, s.loop ≠ .returned r) ∧ ∀ a, step p s a = none

/-- No worker has a find of its own once the loop has seen one: none waits for the mutex when the
loop leaves, and none finds anything behind that. -/
def Alone (p : Search) (s : State) : Action → Prop
  | .loop => s.loop = .check → s.done = true → ∀ r, Worker.lock r ∉ s.workers
  | .genId _ output => s.loop = .wait → (p.genId output).2 = false
  | .worker _ => True

/-! ## What the goroutines hold -/

def Worker.slot : Worker → ℕ
  | .genId | .lock _ | .store _ | .unlock | .release => 1
  | .done | .finished => 0

def Worker.member : Worker → ℕ
  | .finished => 0
  | _ => 1

def Worker.mutex : Worker → ℕ
  | .store _ | .unlock => 1
  | _ => 0

/-- The most operations that are left to a worker. -/
def Worker.left : Worker → ℕ
  | .genId => 6
  | .lock _ => 5
  | .store _ => 4
  | .unlock => 3
  | .release => 2
  | .done => 1
  | .finished => 0

def Loop.slot : Loop → ℕ
  | .add | .go => 1
  | _ => 0

def Loop.member : Loop → ℕ
  | .go => 1
  | _ => 0

def Loop.mutex : Loop → ℕ
  | .check | .unlock | .wait | .returned _ => 1
  | _ => 0

/-- The semaphore, the wait group and the mutex count the goroutines that hold them. -/
structure Counted (s : State) : Prop where
  slots : s.semaphore = total Worker.slot s.workers + s.loop.slot
  members : s.wg = total Worker.member s.workers + s.loop.member
  mutex : s.locked.toNat = total Worker.mutex s.workers + s.loop.mutex

theorem counted_start : Counted start := ⟨rfl, rfl, rfl⟩

/-! ## What a step does -/

/-- Worker `i` goes on from `w` to `w'`. -/
structure Moves (s t : State) (i : ℕ) (w w' : Worker) : Prop where
  found : s.workers[i]? = some w
  workers : t.workers = s.workers.set i w'
  loop : t.loop = s.loop
  slots : t.semaphore + w.slot = s.semaphore + w'.slot
  members : t.wg + w.member = s.wg + w'.member
  mutex : t.locked.toNat + w.mutex = s.locked.toNat + w'.mutex
  left : w'.left < w.left

/-- The find a worker has not stored yet. -/
def Worker.find? : Worker → Option Bytes
  | .lock resultTmp | .store resultTmp => some resultTmp
  | _ => none

/-- A worker's own operation: it brings no find with it but the one it stores. -/
structure Works (s t : State) (i : ℕ) (w w' : Worker) : Prop extends Moves s t i w w' where
  free : ∀ r, w = .lock r → s.locked = false
  entered : ∀ r, w' ≠ .lock r
  find : ∀ r, w'.find? = some r → w.find? = some r
  stored : t.done = s.done ∧ t.result = s.result ∨ t.done = true ∧ w.find? = some t.result

theorem works_of_workerStep {s t : State} {i : ℕ} {w : Worker} (hw : s.workers[i]? = some w)
    (h : workerStep s i w = some t) : ∃ w', Works s t i w w' := by
  cases w with
  | genId => cases h
  | lock r =>
    obtain ⟨hfree, rfl⟩ : s.locked = false ∧ _ = t := by simpa [workerStep] using h
    exact ⟨.store r, ⟨hw, rfl, rfl, rfl, rfl, by simp [hfree, Worker.mutex], Nat.lt_succ_self 4⟩, fun _ _ => hfree, by simp,
      fun r' hr => hr, Or.inl ⟨rfl, rfl⟩⟩
  | store r =>
    obtain rfl := Option.some.inj h
    exact ⟨.unlock, ⟨hw, rfl, rfl, rfl, rfl, rfl, Nat.lt_succ_self 3⟩, by simp, by simp, by simp [Worker.find?],
      Or.inr ⟨rfl, rfl⟩⟩
  | unlock =>
    obtain ⟨hheld, rfl⟩ : s.locked = true ∧ _ = t := by simpa [workerStep] using h
    exact ⟨.release, ⟨hw, rfl, rfl, rfl, rfl, by simp [hheld, Worker.mutex], by decide⟩, by simp, by simp,
      by simp [Worker.find?], Or.inl ⟨rfl, rfl⟩⟩
  | release =>
    obtain ⟨hslot, rfl⟩ : 0 < s.semaphore ∧ _ = t := by simpa [workerStep] using h
    exact ⟨.done, ⟨hw, rfl, rfl, Nat.sub_add_cancel hslot, rfl, rfl, by decide⟩, by simp, by simp,
      by simp [Worker.find?], Or.inl ⟨rfl, rfl⟩⟩
  | done =>
    obtain ⟨hmember, rfl⟩ : 0 < s.wg ∧ _ = t := by simpa [workerStep] using h
    exact ⟨.finished, ⟨hw, rfl, rfl, rfl, Nat.sub_add_cancel hmember, rfl, by decide⟩, by simp, by simp,
      by simp [Worker.find?], Or.inl ⟨rfl, rfl⟩⟩
  | finished => cases h

theorem afterGenId_eq (p : Search) (output : Bytes) :
    p.afterGenId output = if (p.genId output).2 then .lock output else .release := by
  by_cases h : (p.genId output).2 = true
  · rw [if_pos h]
    simp only [afterGenId, genId_eq_of_true h, if_true]
  · rw [if_neg h]
    simp only [afterGenId, h]
    rfl

theorem moves_of_answered {p : Search} {s t : State} {i : ℕ} {output : Bytes} {w : Worker} (hw : s.workers[i]? = some w)
    (h : answered p s i output w = some t) :
    Moves s t i .genId (p.afterGenId output) ∧ t.done = s.done ∧ t.result = s.result := by
  cases w with
  | genId =>
    obtain rfl := Option.some.inj h
    refine ⟨⟨hw, rfl, rfl, ?_, ?_, ?_, ?_⟩, rfl, rfl⟩
    all_goals
      rw [afterGenId_eq]
      split <;> simp [Worker.slot, Worker.member, Worker.mutex, Worker.left]
  | _ => cases h

theorem loopStep_cases {p : Search} {s t : State} (h : loopStep p s = some t) :
    (s.loop = .acquire ∧ s.semaphore < p.numCPU ∧ t = { s with loop := .add, semaphore := s.semaphore + 1 }) ∨
    (s.loop = .add ∧ t = { s with loop := .go, wg := s.wg + 1 }) ∨
    (s.loop = .go ∧ t = { s with loop := .lock, workers := s.workers ++ [.genId] }) ∨
    (s.loop = .lock ∧ s.locked = false ∧ t = { s with loop := .check, locked := true }) ∨
    (s.loop = .check ∧ t = { s with loop := if s.done then .wait else .unlock }) ∨
    (s.loop = .unlock ∧ s.locked = true ∧ t = { s with loop := .acquire, locked := false }) ∨
    (s.loop = .wait ∧ s.wg = 0 ∧ t = { s with loop := .returned s.result }) := by
  unfold loopStep at h
  cases hl : s.loop <;> simp_all

theorem step_cases {p : Search} {s t : State} {a : Action} (h : step p s a = some t) :
    (a = .loop ∧ loopStep p s = some t) ∨
    (∃ i output, a = .genId i output ∧ Moves s t i .genId (p.afterGenId output) ∧ t.done = s.done ∧ t.result = s.result) ∨
    ∃ i w w', a = .worker i ∧ Works s t i w w' := by
  cases a with
  | loop => exact Or.inl ⟨rfl, h⟩
  | genId i output =>
    obtain ⟨w, hw, ht⟩ := Option.bind_eq_some_iff.mp h
    exact Or.inr (Or.inl ⟨i, output, rfl, moves_of_answered hw ht⟩)
  | worker i =>
    obtain ⟨w, hw, ht⟩ := Option.bind_eq_some_iff.mp h
    obtain ⟨w', hworks⟩ := works_of_workerStep hw ht
    exact Or.inr (Or.inr ⟨i, w, w', rfl, hworks⟩)

/-! ## What is counted -/

theorem Counted.of_moves {s t : State} {i : ℕ} {w w' : Worker} (hc : Counted s) (hm : Moves s t i w w') : Counted t := by
  have hslots := total_set Worker.slot hm.found w'
  have hmembers := total_set Worker.member hm.found w'
  have hmutex := total_set Worker.mutex hm.found w'
  have hs := hm.slots
  have hg := hm.members
  have hx := hm.mutex
  rw [hc.slots] at hs
  rw [hc.members] at hg
  rw [hc.mutex] at hx
  constructor
  · rw [hm.workers, hm.loop]
    omega
  · rw [hm.workers, hm.loop]
    omega
  · rw [hm.workers, hm.loop]
    omega

theorem Counted.of_loopStep {p : Search} {s t : State} (hc : Counted s) (h : loopStep p s = some t) : Counted t := by
  obtain ⟨hslots, hmembers, hmutex⟩ := hc
  obtain ⟨hl, -, rfl⟩ | ⟨hl, rfl⟩ | ⟨hl, rfl⟩ | ⟨hl, hfree, rfl⟩ | ⟨hl, rfl⟩ | ⟨hl, hheld, rfl⟩ | ⟨hl, -, rfl⟩ := loopStep_cases h
  all_goals
    rw [hl] at hslots hmembers hmutex
  · exact ⟨by simpa [Loop.slot] using hslots, hmembers, hmutex⟩
  · exact ⟨hslots, by simpa [Loop.member] using hmembers, hmutex⟩
  · refine ⟨?_, ?_, ?_⟩
    · simpa [Loop.slot, Worker.slot] using hslots
    · simpa [Loop.member, Worker.member] using hmembers
    · simpa [Loop.mutex, Worker.mutex] using hmutex
  · refine ⟨hslots, hmembers, ?_⟩
    rw [hfree] at hmutex
    simpa [Loop.mutex] using hmutex.symm
  · cases s.done
    · exact ⟨hslots, hmembers, hmutex⟩
    · exact ⟨hslots, hmembers, hmutex⟩
  · refine ⟨hslots, hmembers, ?_⟩
    rw [hheld] at hmutex
    simpa [Loop.mutex, eq_comm] using hmutex
  · exact ⟨hslots, hmembers, hmutex⟩

theorem Counted.of_step {p : Search} {s t : State} {a : Action} (hc : Counted s) (h : Step p s a t) : Counted t := by
  obtain ⟨-, hloop⟩ | ⟨i, output, -, hmoves, -⟩ | ⟨i, w, w', -, hworks⟩ := step_cases h
  · exact hc.of_loopStep hloop
  · exact hc.of_moves hmoves
  · exact hc.of_moves hworks.toMoves

/-! ## Somebody can go on -/

theorem worker_goes_on {p : Search} {s : State} {i : ℕ} {w : Worker} (hc : Counted s) (hw : s.workers[i]? = some w)
    (hfree : ∀ r, w = .lock r → s.locked = false) (hleft : w ≠ .finished) : ∃ a, step p s a ≠ none := by
  have hmem : w ∈ s.workers := List.mem_of_getElem? hw
  have hslot := le_total Worker.slot hmem
  have hmember := le_total Worker.member hmem
  have hmutex := le_total Worker.mutex hmem
  have hslots := hc.slots
  have hmembers := hc.members
  have hlocked := hc.mutex
  cases w with
  | genId => exact ⟨.genId i [], by simp [step, hw, answered]⟩
  | lock r => exact ⟨.worker i, by simp [step, hw, workerStep, hfree r rfl]⟩
  | store r => exact ⟨.worker i, by simp [step, hw, workerStep]⟩
  | unlock =>
    have hheld : s.locked = true := by
      cases hl : s.locked with
      | true => rfl
      | false =>
        rw [hl] at hlocked
        simp only [Worker.mutex, Bool.toNat_false] at hmutex hlocked
        omega
    exact ⟨.worker i, by simp [step, hw, workerStep, hheld]⟩
  | release =>
    have hpos : 0 < s.semaphore := by
      simp only [Worker.slot] at hslot
      omega
    exact ⟨.worker i, by simp [step, hw, workerStep, hpos]⟩
  | done =>
    have hpos : 0 < s.wg := by
      simp only [Worker.member] at hmember
      omega
    exact ⟨.worker i, by simp [step, hw, workerStep, hpos]⟩
  | finished => exact absurd rfl hleft

/-- Every worker that is left waits for the mutex. -/
def Idle (s : State) : Prop := ∀ w ∈ s.workers, w ≠ .finished → ∃ r, w = .lock r

theorem goes_on_or_idle {p : Search} {s : State} (hc : Counted s) : (∃ a, step p s a ≠ none) ∨ Idle s := by
  by_cases hbusy : ∃ w ∈ s.workers, (∀ r, w ≠ .lock r) ∧ w ≠ .finished
  · obtain ⟨w, hmem, hlock, hleft⟩ := hbusy
    obtain ⟨i, hi⟩ := List.mem_iff_getElem?.mp hmem
    exact Or.inl (worker_goes_on hc hi (fun r hr => absurd hr (hlock r)) hleft)
  · refine Or.inr fun w hw hleft => ?_
    by_contra hnone
    exact hbusy ⟨w, hw, fun r hr => hnone ⟨r, hr⟩, hleft⟩

theorem Idle.total_eq_zero {s : State} (hi : Idle s) {f : Worker → ℕ} (hfinished : f .finished = 0)
    (hlock : ∀ r, .lock r ∈ s.workers → f (.lock r) = 0) : total f s.workers = 0 := by
  apply Totals.total_eq_zero
  intro w hw
  by_cases hleft : w = .finished
  · rw [hleft, hfinished]
  · obtain ⟨r, rfl⟩ := hi w hw hleft
    exact hlock r hw

/-- Then only the loop can hold the mutex. -/
theorem Idle.locked {s : State} (hi : Idle s) (hc : Counted s) : s.locked.toNat = s.loop.mutex := by
  have hmutex := hc.mutex
  rwa [hi.total_eq_zero rfl fun _ _ => rfl, Nat.zero_add] at hmutex

/-- Without a free place in the semaphore there is a worker with one, and no mutex to wait for. -/
theorem Idle.full_goes_on {p : Search} {s : State} (hi : Idle s) (hc : Counted s) (hl : s.loop = .acquire)
    (hfull : p.numCPU ≤ s.semaphore) : ∃ a, step p s a ≠ none := by
  have hslots := hc.slots
  have hcpu := p.numCPU_pos
  have hfree := hi.locked hc
  rw [hl] at hslots hfree
  simp only [Loop.slot] at hslots
  obtain ⟨w, hw, hslot⟩ := exists_of_total_ne_zero Worker.slot (l := s.workers) (by omega)
  obtain ⟨i, hw⟩ := List.mem_iff_getElem?.mp hw
  have hleft : w ≠ .finished := by
    rintro rfl
    exact hslot rfl
  exact worker_goes_on hc hw (fun r _ => Bool.toNat_eq_zero.mp hfree) hleft

/-- **Progress.** Until the search returns some goroutine can go on, unless the loop has left with a
worker waiting for the mutex. -/
theorem progress {p : Search} {s : State} (hc : Counted s) (halone : s.loop = .wait → ∀ r, Worker.lock r ∉ s.workers)
    (hreturned : ∀ r, s.loop ≠ .returned r) : ∃ a, step p s a ≠ none := by
  obtain hgoes | hi := goes_on_or_idle (p := p) hc
  · exact hgoes
  have hlocked := hi.locked hc
  cases hl : s.loop with
  | acquire =>
    by_cases hroom : s.semaphore < p.numCPU
    · exact ⟨.loop, by simp [step, loopStep, hl, hroom]⟩
    · exact hi.full_goes_on hc hl (not_lt.mp hroom)
  | add => exact ⟨.loop, by simp [step, loopStep, hl]⟩
  | go => exact ⟨.loop, by simp [step, loopStep, hl]⟩
  | lock =>
    rw [hl] at hlocked
    have hfree : s.locked = false := Bool.toNat_eq_zero.mp hlocked
    exact ⟨.loop, by simp [step, loopStep, hl, hfree]⟩
  | check => exact ⟨.loop, by simp [step, loopStep, hl]⟩
  | unlock =>
    rw [hl] at hlocked
    have hheld : s.locked = true := Bool.toNat_eq_one.mp hlocked
    exact ⟨.loop, by simp [step, loopStep, hl, hheld]⟩
  | wait =>
    have hwg := hc.members
    rw [hi.total_eq_zero rfl fun r hr => absurd hr (halone hl r), hl] at hwg
    exact ⟨.loop, by simp [step, loopStep, hl, hwg, Loop.member]⟩
  | returned r => exact absurd hl (hreturned r)

/-! ## The loop leaves alone -/

/-- Once the loop waits for the workers, none of them waits for the mutex it holds. -/
def Waited (s : State) : Prop := s.loop = .wait → ∀ r, Worker.lock r ∉ s.workers

theorem Waited.of_step {p : Search} {s t : State} {a : Action} (hw : Waited s) (ha : Alone p s a) (h : Step p s a t) :
    Waited t := by
  intro hwait r hr
  obtain ⟨rfl, hloop⟩ | ⟨i, output, rfl, hmoves, -⟩ | ⟨i, w, w', rfl, hworks⟩ := step_cases h
  · obtain ⟨-, -, rfl⟩ | ⟨-, rfl⟩ | ⟨-, rfl⟩ | ⟨-, -, rfl⟩ | ⟨hl, rfl⟩ | ⟨-, -, rfl⟩ | ⟨-, -, rfl⟩ := loopStep_cases hloop
    case inr.inr.inr.inr.inl =>
      cases hd : s.done with
      | true => exact ha hl hd r hr
      | false => simp [hd] at hwait
    all_goals cases hwait
  · have hl : s.loop = .wait := hmoves.loop.symm.trans hwait
    have hafter : p.afterGenId output = .release := by
      rw [afterGenId_eq, ha hl]
      rfl
    rw [hmoves.workers, hafter] at hr
    obtain hr | hr := List.mem_or_eq_of_mem_set hr
    · exact hw hl r hr
    · cases hr
  · have hl : s.loop = .wait := hworks.loop.symm.trans hwait
    rw [hworks.workers] at hr
    obtain hr | hr := List.mem_or_eq_of_mem_set hr
    · exact hw hl r hr
    · exact hworks.entered r hr.symm

/-! ## The loop does not leave alone -/

/-- The loop waits for a worker that waits for the mutex the loop has kept. -/
def Stuck (s : State) : Prop := s.loop = .wait ∧ ∃ r, Worker.lock r ∈ s.workers

theorem stuck_of_not_alone {p : Search} {s t : State} {a : Action} (ha : ¬ Alone p s a) (h : Step p s a t) : Stuck t := by
  obtain ⟨rfl, hloop⟩ | ⟨i, output, rfl, hmoves, -⟩ | ⟨i, w, w', rfl, -⟩ := step_cases h
  · simp only [Alone, not_forall, not_not] at ha
    obtain ⟨hl, hd, r, hr⟩ := ha
    have ht : some { s with loop := .wait } = some t := by
      rw [← hloop, loopStep, hl]
      simp only [hd, if_true]
    obtain rfl := Option.some.inj ht
    exact ⟨rfl, r, hr⟩
  · simp only [Alone, Classical.not_imp, Bool.not_eq_false] at ha
    obtain ⟨hl, hfound⟩ := ha
    have hafter : p.afterGenId output = .lock output := by
      rw [afterGenId_eq, if_pos hfound]
    refine ⟨hmoves.loop.trans hl, output, ?_⟩
    rw [hmoves.workers, hafter]
    exact List.mem_set (List.getElem?_eq_some_iff.mp hmoves.found).1 _
  · exact absurd trivial ha

/-- Behind that the workers run out, and the loop stays where it is. -/
theorem Stuck.of_step {p : Search} {s t : State} {a : Action} (hs : Stuck s) (hc : Counted s) (h : Step p s a t) :
    Stuck t ∧ total Worker.left t.workers < total Worker.left s.workers := by
  obtain ⟨hwait, r, hr⟩ := hs
  have hkept {i : ℕ} {w w' : Worker} (hm : Moves s t i w w') (hw : w ≠ .lock r) :
      Stuck t ∧ total Worker.left t.workers < total Worker.left s.workers := by
    refine ⟨⟨hm.loop.trans hwait, r, ?_⟩, ?_⟩
    · rw [hm.workers]
      exact mem_set_of_mem hr hm.found hw.symm
    · have hset := total_set Worker.left hm.found w'
      have hleft := hm.left
      rw [hm.workers]
      omega
  obtain ⟨rfl, hloop⟩ | ⟨i, output, rfl, hmoves, -⟩ | ⟨i, w, w', rfl, hworks⟩ := step_cases h
  · have hwg : s.wg = 0 := by
      simpa [loopStep, hwait] using Option.isSome_of_eq_some hloop
    have hmember := le_total Worker.member hr
    have hmembers := hc.members
    simp only [Worker.member] at hmember
    omega
  · exact hkept hmoves (by simp)
  · refine hkept hworks.toMoves ?_
    rintro rfl
    have hmutex := hc.mutex
    rw [hworks.free r rfl, hwait] at hmutex
    simp only [Bool.toNat_false, Loop.mutex] at hmutex
    omega

theorem Stuck.of_run {p : Search} {s : State} {tr : List (Action × State)} (hs : Stuck s) (hc : Counted s)
    (hr : IsRun (Step p) s tr) :
    tr.length ≤ total Worker.left s.workers ∧ ∀ t ∈ states s tr, Stuck t := by
  induction tr generalizing s with
  | nil => exact ⟨Nat.zero_le _, by simpa using hs⟩
  | cons x tr ih =>
    obtain ⟨hstuck, hless⟩ := hs.of_step hc hr.1
    obtain ⟨hlength, hall⟩ := ih hstuck (hc.of_step hr.1) hr.2
    refine ⟨?_, List.forall_mem_cons.mpr ⟨hs, hall⟩⟩
    rw [List.length_cons]
    omega

/-! ## What is returned -/

/-- One of the answers so far was the find `r`. -/
def Reported (p : Search) (past : List Action) (r : Bytes) : Prop :=
  ∃ i output, Action.genId i output ∈ past ∧ p.genId output = (r, true)

theorem Reported.mono {p : Search} {past past' : List Action} {r : Bytes} (h : Reported p past r)
    (hle : ∀ a ∈ past, a ∈ past') : Reported p past' r := by
  obtain ⟨i, output, hmem, hfound⟩ := h
  exact ⟨i, output, hle _ hmem, hfound⟩

/-- Whatever a worker or the loop has to show was reported. -/
structure Found (p : Search) (past : List Action) (s : State) : Prop where
  workers : ∀ w ∈ s.workers, ∀ r, w.find? = some r → Reported p past r
  result : s.done = true → Reported p past s.result
  wait : s.loop = .wait → s.done = true
  returned : ∀ r, s.loop = .returned r → Reported p past r

theorem found_start (p : Search) : Found p [] start where
  workers := List.forall_mem_nil _
  result := by simp [start]
  wait := by simp [start]
  returned := by simp [start]

theorem Found.mono {p : Search} {past past' : List Action} {s : State} (h : Found p past s)
    (hle : ∀ a ∈ past, a ∈ past') : Found p past' s where
  workers := fun w hw r hr => (h.workers w hw r hr).mono hle
  result := fun hd => (h.result hd).mono hle
  wait := h.wait
  returned := fun r hr => (h.returned r hr).mono hle

theorem Found.of_loopStep {p : Search} {past : List Action} {s t : State} (hf : Found p past s)
    (h : loopStep p s = some t) : Found p past t := by
  obtain ⟨hworkers, hresult, hwait, -⟩ := hf
  obtain ⟨-, -, rfl⟩ | ⟨-, rfl⟩ | ⟨-, rfl⟩ | ⟨-, -, rfl⟩ | ⟨-, rfl⟩ | ⟨-, -, rfl⟩ | ⟨hl, -, rfl⟩ := loopStep_cases h
  case inr.inr.inr.inr.inl =>
    refine ⟨hworkers, hresult, ?_, ?_⟩
    · cases s.done <;> simp
    · cases s.done <;> simp
  case inr.inr.inl =>
    refine ⟨?_, hresult, by simp, by simp⟩
    intro w hw r hr
    obtain hw | hw := List.mem_append.mp hw
    · exact hworkers w hw r hr
    · rw [List.mem_singleton.mp hw] at hr
      cases hr
  case inr.inr.inr.inr.inr.inr =>
    refine ⟨hworkers, hresult, by simp, ?_⟩
    intro r hr
    obtain rfl := Loop.returned.inj hr
    exact hresult (hwait hl)
  all_goals exact ⟨hworkers, hresult, by simp, by simp⟩

theorem Found.of_moves {p : Search} {past : List Action} {s t : State} {i : ℕ} {w w' : Worker} (hf : Found p past s)
    (hm : Moves s t i w w') (hfind : ∀ r, w'.find? = some r → Reported p past r)
    (hstored : t.done = s.done ∧ t.result = s.result ∨ t.done = true ∧ Reported p past t.result) : Found p past t where
  workers := by
    intro v hv r hr
    rw [hm.workers] at hv
    obtain hv | rfl := List.mem_or_eq_of_mem_set hv
    · exact hf.workers v hv r hr
    · exact hfind r hr
  result := by
    intro hd
    obtain ⟨hdone, hresult⟩ | ⟨-, hresult⟩ := hstored
    · rw [hresult]
      exact hf.result (hdone ▸ hd)
    · exact hresult
  wait := by
    intro hl
    obtain ⟨hdone, -⟩ | ⟨hdone, -⟩ := hstored
    · rw [hdone]
      exact hf.wait (hm.loop ▸ hl)
    · exact hdone
  returned := fun r hr => hf.returned r (hm.loop ▸ hr)

theorem Found.of_step {p : Search} {past : List Action} {s t : State} {a : Action} (hf : Found p past s)
    (h : Step p s a t) : Found p (past ++ [a]) t := by
  have hle : ∀ b ∈ past, b ∈ past ++ [a] := fun b hb => List.mem_append_left _ hb
  obtain ⟨-, hloop⟩ | ⟨i, output, rfl, hmoves, hdone, hresult⟩ | ⟨i, w, w', -, hworks⟩ := step_cases h
  · exact (hf.of_loopStep hloop).mono hle
  · refine (hf.mono hle).of_moves hmoves ?_ (Or.inl ⟨hdone, hresult⟩)
    intro r hr
    rw [afterGenId_eq] at hr
    split at hr
    · rename_i hfound
      obtain rfl := Option.some.inj hr
      exact ⟨i, output, List.mem_append_right _ (List.mem_singleton_self _), genId_eq_of_true hfound⟩
    · cases hr
  · refine (hf.of_moves hworks.toMoves ?_ ?_).mono hle
    · intro r hr
      exact hf.workers w (List.mem_of_getElem? hworks.found) r (hworks.find r hr)
    · obtain hkept | ⟨hdone, hstored⟩ := hworks.stored
      · exact Or.inl hkept
      · exact Or.inr ⟨hdone, hf.workers w (List.mem_of_getElem? hworks.found) _ hstored⟩

/-! ## Whole runs -/

theorem Counted.of_run {p : Search} {tr : List (Action × State)} (hr : IsRun (Step p) start tr) :
    ∀ s ∈ states start tr, Counted s :=
  hr.keeps counted_start fun _ _ _ hc h => hc.of_step h

theorem Found.of_run {p : Search} {tr : List (Action × State)} (hr : IsRun (Step p) start tr) {s : State}
    (hs : s ∈ states start tr) : Found p (tr.map Prod.fst) s := by
  obtain ⟨pre, post, rfl, rfl⟩ := exists_last_of_mem_states hs
  have hfound := hr.history (I := Found p) (G := fun _ _ _ => True) (found_start p)
    (fun _ _ _ _ hf _ h => hf.of_step h) (fun _ _ => trivial) pre post rfl
  rw [List.map_append]
  exact hfound.mono fun a ha => List.mem_append_left _ ha

/-- **`genParallel`.** A run whose steps all find or leave the workers alone has no deadlock. Behind any
other step the search never returns, and comes to its deadlock within six operations of each worker.
Whatever is returned is an answer that `genId` has reported. -/
theorem genParallel_runs (p : Search) {tr : List (Action × State)} (hr : IsRun (Step p) start tr) :
    ((∀ x ∈ transitions start tr, Alone p x.1 x.2.1) → ∀ s ∈ states start tr, ¬ Deadlocked p s) ∧
    (∀ x ∈ transitions start tr, ¬ Alone p x.1 x.2.1 → ∀ more, IsRun (Step p) x.2.2 more →
      more.length ≤ 6 * x.2.2.workers.length ∧ ∀ s ∈ states x.2.2 more, ∀ r, s.loop ≠ .returned r) ∧
    (∀ s ∈ states start tr, ∀ r, s.loop = .returned r →
      ∃ i output, Action.genId i output ∈ tr.map Prod.fst ∧ p.genId output = (r, true)) := by
  refine ⟨?_, ?_, ?_⟩
  · intro halone s hs hdead
    have hwaited : ∀ s ∈ states start tr, Waited s :=
      hr.invariant (G := fun s a _ => Alone p s a) (by simp [Waited, start]) (fun _ _ _ hw ha h => hw.of_step ha h) halone
    obtain ⟨a, ha⟩ := progress (p := p) (Counted.of_run hr s hs) (hwaited s hs) hdead.1
    exact ha (hdead.2 a)
  · intro x hx halone more hmore
    have hc : Counted x.2.2 := Counted.of_run hr _ (target_mem_states hx)
    have hstuck : Stuck x.2.2 := stuck_of_not_alone halone (hr.of_mem hx).2
    obtain ⟨hlength, hall⟩ := hstuck.of_run hc hmore
    refine ⟨hlength.trans (total_le _ ?_), ?_⟩
    · intro w
      cases w <;> simp [Worker.left]
    · intro s hs r hreturned
      rw [(hall s hs).1] at hreturned
      cases hreturned
  · intro s hs r hreturned
    exact (Found.of_run hr hs).returned r hreturned

def follow (p : Search) (as : List Action) : List (Action × State) :=
  trace (fun s a => (step p s a).getD s) start as

def oneCPU : Search where
  needle := [0x61]
  stripHaystack := false
  numCPU := 1
  numCPU_pos := Nat.one_pos

/-- The loop starts a worker and looks whether anything is found; the worker finds `a`. -/
def found : List Action :=
  [.loop, .loop, .loop, .loop, .loop, .loop, .genId 0 [0x61], .worker 0, .worker 0, .worker 0, .worker 0]

/-- The loop starts one worker more, which still waits for its answer when the loop leaves. -/
def leaves : List Action := found ++ [.loop, .loop, .loop, .loop, .loop, .worker 0]

theorem genParallel_runs_returned : Reported oneCPU (leaves ++ [.genId 1 [], .worker 1, .worker 1, .loop]) [0x61] := by
  have hr : IsRun (Step oneCPU) start (follow oneCPU (leaves ++ [.genId 1 [], .worker 1, .worker 1, .loop])) := by
    repeat first | exact trivial | refine ⟨rfl, ?_⟩
  have h := (genParallel_runs oneCPU hr).2.2 _ (mem_states_last start _) [0x61] rfl
  exact h

/-- **Not every run is without a deadlock**: here the second worker finds something too. -/
theorem genParallel_deadlocks : ∃ (p : Search) (tr : List (Action × State)), IsRun (Step p) start tr ∧
    Deadlocked p (last start tr) := by
  refine ⟨oneCPU, follow oneCPU (leaves ++ [.genId 1 [0x61]]), ?_, ?_, ?_⟩
  · repeat first | exact trivial | refine ⟨rfl, ?_⟩
  · intro r hr
    cases hr
  · rintro (_ | ⟨i, output⟩ | i)
    · rfl
    · rcases i with _ | _ | i <;> rfl
    · rcases i with _ | _ | i <;> rfl

end Search

end Husarnet
