import Husarnet.Lib.Runs
import Mathlib.Algebra.BigOperators.Group.Finset.Basic
import Mathlib.Algebra.Order.BigOperators.Group.Finset

/-! # Queues with a shared budget

A family of queues and one counter of all that waits in them. An item is queued while the counter is
below the budget, or handed on at once where nothing waits; a queue is handed on as a whole. Items
leave in the order in which they came, each of them once, and the counter is exact.
-/

namespace SharedQueues
open Runs
set_option autoImplicit false

structure Queues (ι α : Type) where
  queue : ι → List α
  count : ℤ

inductive Action (ι α : Type) where
  | push (i : ι) (a : α)
  | pass (i : ι) (a : α)
  | flush (i : ι)
  | idle

variable {ι α : Type}

/-- The queues outside of the set are empty, and the counter is the sum over the others. -/
structure CountedOn (q : Queues ι α) (s : Finset ι) : Prop where
  outside : ∀ i ∉ s, q.queue i = []
  count : q.count = ∑ i ∈ s, ((q.queue i).length : ℤ)

def Counted (q : Queues ι α) : Prop := ∃ s, CountedOn q s

theorem Counted.nonneg {q : Queues ι α} (h : Counted q) : 0 ≤ q.count := by
  obtain ⟨s, h⟩ := h
  rw [h.count]
  exact Finset.sum_nonneg fun i _ => Int.natCast_nonneg _

variable [DecidableEq ι]

inductive Step (budget : ℤ) (q : Queues ι α) : Action ι α → Queues ι α → Prop where
  | push (i : ι) (a : α) (h : q.count < budget) :
      Step budget q (.push i a) ⟨Function.update q.queue i (q.queue i ++ [a]), q.count + 1⟩
  | pass (i : ι) (a : α) (h : q.queue i = []) : Step budget q (.pass i a) q
  | flush (i : ι) : Step budget q (.flush i) ⟨Function.update q.queue i [], q.count - (q.queue i).length⟩
  | idle : Step budget q .idle q

variable {budget : ℤ} {q q' : Queues ι α} {e : Action ι α}

/-! ## The counter -/

/-- The sum is the same over every set with nothing outside. -/
theorem Counted.count_eq (h : Counted q) {s : Finset ι} (hs : ∀ i ∉ s, q.queue i = []) :
    q.count = ∑ i ∈ s, ((q.queue i).length : ℤ) := by
  obtain ⟨s₀, h₀⟩ := h
  have hall {s : Finset ι} (hs : ∀ i ∉ s, q.queue i = []) {t : Finset ι} (hst : s ⊆ t) :
      ∑ i ∈ s, ((q.queue i).length : ℤ) = ∑ i ∈ t, ((q.queue i).length : ℤ) := by
    refine Finset.sum_subset hst fun i _ hi => ?_
    rw [hs i hi]
    rfl
  have hleft : s₀ ⊆ s₀ ∪ s := Finset.subset_union_left
  have hright : s ⊆ s₀ ∪ s := Finset.subset_union_right
  rw [h₀.count, hall h₀.outside hleft, hall hs hright]

/-- One queue is written, and the counter follows. -/
theorem CountedOn.write {s : Finset ι} (h : CountedOn q s) (i : ι) (as : List α) :
    CountedOn ⟨Function.update q.queue i as, q.count + (as.length - (q.queue i).length)⟩ (insert i s) := by
  constructor
  · intro j hj
    rw [Finset.mem_insert, not_or] at hj
    show Function.update q.queue i as j = []
    rw [Function.update_of_ne hj.1]
    exact h.outside j hj.2
  · have hbefore : q.count = ∑ j ∈ insert i s, ((q.queue j).length : ℤ) :=
      Counted.count_eq ⟨s, h⟩ fun j hj => h.outside j fun hmem => hj (Finset.mem_insert_of_mem hmem)
    have hsplit (f : ι → List α) : ∑ j ∈ insert i s, ((f j).length : ℤ) =
        (f i).length + ∑ j ∈ (insert i s).erase i, ((f j).length : ℤ) :=
      (Finset.add_sum_erase _ _ (Finset.mem_insert_self i s)).symm
    have hrest : ∑ j ∈ (insert i s).erase i, ((Function.update q.queue i as j).length : ℤ) =
        ∑ j ∈ (insert i s).erase i, ((q.queue j).length : ℤ) := by
      refine Finset.sum_congr rfl fun j hj => ?_
      rw [Function.update_of_ne (Finset.ne_of_mem_erase hj)]
    show q.count + _ = ∑ j ∈ insert i s, ((Function.update q.queue i as j).length : ℤ)
    rw [hsplit, hrest, Function.update_self, hbefore, hsplit q.queue]
    omega

theorem Step.counted (h : Step budget q e q') (hq : Counted q) : Counted q' := by
  obtain ⟨s, hs⟩ := hq
  cases h with
  | push i a hroom =>
    have hwritten := hs.write i (q.queue i ++ [a])
    have hcount : q.count + (((q.queue i ++ [a]).length : ℤ) - (q.queue i).length) = q.count + 1 := by
      rw [List.length_append, List.length_singleton]
      omega
    rw [hcount] at hwritten
    exact ⟨_, hwritten⟩
  | pass _ _ _ => exact ⟨s, hs⟩
  | flush i =>
    have hwritten := hs.write i []
    have hcount : q.count + ((([] : List α).length : ℤ) - (q.queue i).length) = q.count - (q.queue i).length := by
      rw [List.length_nil]
      omega
    rw [hcount] at hwritten
    exact ⟨_, hwritten⟩
  | idle => exact ⟨s, hs⟩

theorem Step.within (h : Step budget q e q') (hq : q.count ≤ budget) : q'.count ≤ budget := by
  cases h with
  | push i a hroom =>
    show q.count + 1 ≤ budget
    omega
  | pass _ _ _ => exact hq
  | flush i =>
    show q.count - (q.queue i).length ≤ budget
    omega
  | idle => exact hq

/-! ## The order -/

/-- What the step takes over for `i`. -/
def taken (i : ι) : Action ι α → List α
  | .push j a | .pass j a => if j = i then [a] else []
  | .flush _ | .idle => []

/-- What the step hands on from `i`. -/
def handed (i : ι) (q : Queues ι α) : Action ι α → List α
  | .pass j a => if j = i then [a] else []
  | .flush j => if j = i then q.queue j else []
  | .push _ _ | .idle => []

/-- What waits and what comes is what goes and what waits then. -/
theorem Step.conserves (h : Step budget q e q') (i : ι) : q.queue i ++ taken i e = handed i q e ++ q'.queue i := by
  cases h with
  | push j a hroom =>
    by_cases hj : j = i
    · subst hj
      simp [taken, handed]
    · simp [taken, handed, if_neg hj, Function.update_of_ne (Ne.symm hj)]
  | pass j a hempty =>
    by_cases hj : j = i
    · subst hj
      simp [taken, handed, hempty]
    · simp [taken, handed, if_neg hj]
  | flush j =>
    by_cases hj : j = i
    · subst hj
      simp [taken, handed]
    · simp [taken, handed, if_neg hj, Function.update_of_ne (Ne.symm hj)]
  | idle => simp [taken, handed]

/-- What waits is not overtaken, and waits on until its queue is handed on. -/
theorem Step.waits (h : Step budget q e q') {i : ι} (hwaits : q.queue i ≠ []) (he : e ≠ .flush i) :
    handed i q e = [] ∧ q'.queue i ≠ [] := by
  have hnone : handed i q e = [] := by
    cases h with
    | push j a hroom => rfl
    | pass j a hempty =>
      have hj : j ≠ i := by
        rintro rfl
        exact hwaits hempty
      rw [handed, if_neg hj]
    | flush j =>
      have hj : j ≠ i := by
        rintro rfl
        exact he rfl
      rw [handed, if_neg hj]
    | idle => rfl
  refine ⟨hnone, fun hempty => hwaits ?_⟩
  have hboth := h.conserves i
  rw [hnone, hempty, List.append_nil] at hboth
  exact (List.append_eq_nil_iff.mp hboth).1

abbrev Transition (ι α : Type) := Queues ι α × Action ι α × Queues ι α

def takenIn (i : ι) (steps : List (Transition ι α)) : List α := steps.flatMap fun x => taken i x.2.1

def handedIn (i : ι) (steps : List (Transition ι α)) : List α := steps.flatMap fun x => handed i x.1 x.2.1

/-- **First in, first out.** -/
theorem run_conserves {tr : List (Action ι α × Queues ι α)} (hr : IsRun (Step budget) q tr) (i : ι) :
    q.queue i ++ takenIn i (transitions q tr) = handedIn i (transitions q tr) ++ (last q tr).queue i := by
  induction tr generalizing q with
  | nil => exact List.append_nil _
  | cons x tr ih =>
    obtain ⟨e, q'⟩ := x
    have hfirst : q.queue i ++ taken i e = handed i q e ++ q'.queue i := hr.1.conserves i
    have hrest := ih hr.2
    calc q.queue i ++ takenIn i (transitions q ((e, q') :: tr))
        = (q.queue i ++ taken i e) ++ takenIn i (transitions q' tr) := (List.append_assoc ..).symm
      _ = handed i q e ++ (q'.queue i ++ takenIn i (transitions q' tr)) := by rw [hfirst, List.append_assoc]
      _ = handed i q e ++ (handedIn i (transitions q' tr) ++ (last q' tr).queue i) := by rw [hrest]
      _ = handedIn i (transitions q ((e, q') :: tr)) ++ (last q ((e, q') :: tr)).queue i :=
        (List.append_assoc ..).symm

theorem run_waits {tr : List (Action ι α × Queues ι α)} (hr : IsRun (Step budget) q tr) {i : ι} (hwaits : q.queue i ≠ [])
    (hno : ∀ x ∈ transitions q tr, x.2.1 ≠ .flush i) : handedIn i (transitions q tr) = [] := by
  induction tr generalizing q with
  | nil => rfl
  | cons x tr ih =>
    obtain ⟨e, q'⟩ := x
    obtain ⟨hnone, hstill⟩ := hr.1.waits hwaits (hno (q, e, q') (List.mem_cons_self ..))
    have hrest := ih hr.2 hstill fun y hy => hno y (List.mem_cons_of_mem _ hy)
    show handed i q e ++ handedIn i (transitions q' tr) = []
    rw [hnone, hrest]
    rfl

/-- **An item that waits** is handed on when its queue is, behind those that waited before it and before
those that came later; none of the queue is handed on earlier. -/
theorem served {tr : List (Action ι α × Queues ι α)} (hr : IsRun (Step budget) q tr) {i : ι} {a : α}
    {before between after : List (Transition ι α)} {x y : Transition ι α}
    (he : transitions q tr = before ++ x :: between ++ y :: after) (hx : x.2.1 = .push i a) (hy : y.2.1 = .flush i)
    (hno : ∀ z ∈ between, z.2.1 ≠ .flush i) :
    handedIn i between = [] ∧ handed i y.1 y.2.1 = x.1.queue i ++ a :: takenIn i between ∧ y.2.2.queue i = [] := by
  rw [List.append_assoc, List.cons_append] at he
  obtain ⟨tr₁, x', tr₂, rfl, rfl, hx', he₂⟩ := transitions_eq_append_cons he
  obtain ⟨tr₃, y', tr₄, rfl, rfl, hy', -⟩ := transitions_eq_append_cons he₂
  obtain ⟨-, hr₂⟩ := (isRun_append q tr₁ _).mp hr
  obtain ⟨hr₃, hr₄⟩ := (isRun_append _ tr₃ _).mp hr₂.2
  subst hx' hy'
  have hpush := hr₂.1
  have hflush := hr₄.1
  obtain ⟨ex, qx⟩ := x'
  obtain ⟨ey, qy⟩ := y'
  obtain rfl : ex = .push i a := hx
  obtain rfl : ey = .flush i := hy
  have hpushed : qx.queue i = (last q tr₁).queue i ++ [a] := by
    have hall := hpush.conserves i
    rw [taken, if_pos rfl, handed, List.nil_append] at hall
    exact hall.symm
  have hwaits : qx.queue i ≠ [] := by
    rw [hpushed]
    exact List.concat_ne_nil a _
  have hnone : handedIn i (transitions qx tr₃) = [] := run_waits hr₃ hwaits hno
  have hqueue := run_conserves hr₃ i
  rw [hnone, List.nil_append, hpushed, List.append_assoc] at hqueue
  refine ⟨hnone, ?_, ?_⟩
  · rw [handed, if_pos rfl]
    exact hqueue.symm
  · have hall := hflush.conserves i
    rw [taken, List.append_nil, handed, if_pos rfl] at hall
    exact List.self_eq_append_right.mp hall

end SharedQueues
