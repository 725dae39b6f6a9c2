import Husarnet.Lib.Containers

/-! # Programs with a state that survives an exception

`EStateM` programs keep their writes when they throw, as C++ code does. `after` is the state such a
program leaves on either path, and `Frame f` is its frame rule: whatever the program does, it
leaves `f` of the state alone. The rule passes through every construct.
-/

namespace StateProgram
open Containers
set_option autoImplicit false

variable {ε σ α β τ : Type} {f : σ → τ}

/-- The state a program leaves, whether it returns or throws. -/
def after (m : EStateM ε σ α) (s : σ) : σ :=
  match m s with
  | .ok _ t => t
  | .error _ t => t

/-- An `Except` value as a program. -/
def lift : Except ε α → EStateM ε σ α
  | .ok a => pure a
  | .error e => throw e

theorem run_bind (m : EStateM ε σ α) (k : α → EStateM ε σ β) (s : σ) :
    (m >>= k) s = match m s with
      | .ok a t => k a t
      | .error e t => .error e t := rfl

theorem bind_eq_ok {m : EStateM ε σ α} {k : α → EStateM ε σ β} {s u : σ} {b : β} :
    (m >>= k) s = .ok b u ↔ ∃ a t, m s = .ok a t ∧ k a t = .ok b u := by
  rw [run_bind]
  cases m s with
  | ok a t =>
    exact ⟨fun h => ⟨a, t, rfl, h⟩, fun ⟨a', t', he, h⟩ => by cases he; exact h⟩
  | error e t => exact ⟨fun h => (by cases h), fun ⟨a', t', he, _⟩ => by cases he⟩

/-- The program returns. -/
def Completes (m : EStateM ε σ α) (s : σ) : Prop := ∃ a t, m s = .ok a t

theorem lift_eq_ok {x : Except ε α} {s t : σ} {a : α} : lift x s = .ok a t ↔ x = .ok a ∧ t = s := by
  cases x with
  | ok b =>
    constructor
    · intro h
      cases h
      exact ⟨rfl, rfl⟩
    · rintro ⟨h, rfl⟩
      cases h
      rfl
  | error e => exact ⟨fun h => (by cases h), fun h => by cases h.1⟩

theorem modify_eq_ok {f : σ → σ} {s t : σ} {a : PUnit} :
    (modify f : EStateM ε σ PUnit) s = .ok a t ↔ t = f s :=
  ⟨fun h => by cases h; rfl, fun h => by rw [h]; rfl⟩

theorem after_ok {m : EStateM ε σ α} {s t : σ} {a : α} (h : m s = .ok a t) : after m s = t := by
  rw [after, h]

theorem after_error {m : EStateM ε σ α} {s t : σ} {e : ε} (h : m s = .error e t) : after m s = t := by
  rw [after, h]

theorem get_bind (k : σ → EStateM ε σ α) (s : σ) : (get >>= k) s = k s s := rfl

theorem modify_bind (g : σ → σ) (k : PUnit → EStateM ε σ β) (s : σ) : (modify g >>= k) s = k () (g s) := rfl

theorem lift_ok_bind (a : α) (k : α → EStateM ε σ β) : (lift (.ok a) >>= k) = k a := rfl

theorem lift_error_bind (e : ε) (k : α → EStateM ε σ β) (s : σ) : (lift (.error e) >>= k) s = .error e s := rfl

theorem except_ok_bind (a : α) (k : α → Except ε β) : (Except.ok a >>= k) = k a := rfl

theorem except_bind_eq_ok {x : Except ε α} {k : α → Except ε β} {b : β} :
    x >>= k = .ok b ↔ ∃ a, x = .ok a ∧ k a = .ok b := by
  cases x with
  | ok a => exact ⟨fun h => ⟨a, rfl, h⟩, fun ⟨a', ha, h⟩ => by cases ha; exact h⟩
  | error e => exact ⟨fun h => (by cases h), fun ⟨a', ha, _⟩ => by cases ha⟩

/-- A program of two parts returns if and only if both parts do, where the second one does so or not
whatever the first one gives it. -/
theorem except_bind_completes {x : Except ε α} {k : α → Except ε β} {P Q : Prop} (hx : (∃ a, x = .ok a) ↔ P)
    (hk : ∀ a, (∃ b, k a = .ok b) ↔ Q) : (∃ b, x >>= k = .ok b) ↔ P ∧ Q := by
  rw [← hx]
  constructor
  · rintro ⟨b, h⟩
    obtain ⟨a, ha, hb⟩ := except_bind_eq_ok.mp h
    exact ⟨⟨a, ha⟩, (hk a).mp ⟨b, hb⟩⟩
  · rintro ⟨⟨a, ha⟩, hq⟩
    obtain ⟨b, hb⟩ := (hk a).mpr hq
    exact ⟨b, except_bind_eq_ok.mpr ⟨a, ha, hb⟩⟩

theorem except_map_completes {x : Except ε α} {f : α → β} :
    (∃ b, (x >>= fun a => pure (f a)) = .ok b) ↔ ∃ a, x = .ok a := by
  refine (except_bind_completes Iff.rfl (Q := True) fun a => ?_).trans (and_iff_left trivial)
  exact ⟨fun _ => trivial, fun _ => ⟨f a, rfl⟩⟩

theorem after_bind_ok {m : EStateM ε σ α} {k : α → EStateM ε σ β} {s t : σ} {a : α} (h : m s = .ok a t) :
    after (m >>= k) s = after (k a) t := by
  rw [after, run_bind, h, after]

theorem after_seq {m : EStateM ε σ α} {k : EStateM ε σ β} {s : σ} (h : Completes m s) :
    after (m >>= fun _ => k) s = after k (after m s) := by
  obtain ⟨a, t, hm⟩ := h
  rw [after_bind_ok hm, after_ok hm]

/-- Of two programs in a row, the second one runs where the first has returned. -/
theorem completes_seq {m : EStateM ε σ α} {k : EStateM ε σ β} {s : σ} :
    Completes (m >>= fun _ => k) s ↔ Completes m s ∧ Completes k (after m s) := by
  constructor
  · intro h
    obtain ⟨b, u, h⟩ := h
    obtain ⟨a, t, hm, hk⟩ := bind_eq_ok.mp h
    rw [after_ok hm]
    exact ⟨⟨a, t, hm⟩, b, u, hk⟩
  · intro h
    obtain ⟨⟨a, t, hm⟩, b, u, hk⟩ := h
    rw [after_ok hm] at hk
    exact ⟨b, u, bind_eq_ok.mpr ⟨a, t, hm, hk⟩⟩

theorem after_get_bind (k : σ → EStateM ε σ α) (s : σ) : after (get >>= k) s = after (k s) s := rfl

/-- A loop whose body appends its element appends the whole list. -/
theorem forM_appends {g : σ → List α} {k : α → EStateM ε σ PUnit}
    (hk : ∀ a s t, k a s = .ok () t → g t = g s ++ [a]) {xs : List α} {s t : σ}
    (h : xs.forM k s = .ok () t) : g t = g s ++ xs := by
  induction xs generalizing s with
  | nil =>
    cases h
    exact (List.append_nil _).symm
  | cons x xs ih =>
    obtain ⟨u, t', hx, h⟩ := bind_eq_ok.mp h
    rw [ih h, hk x s t' hx, List.append_assoc]
    rfl

/-- A program that pushes an element, or throws when the vector is full; `put` is the state with a new vector. -/
theorem push_appends {cap : ℕ} {m : EStateM ε σ PUnit} {a : α} {s t : σ} (e : ε) (get : σ → BoundedVec α cap)
    (put : BoundedVec α cap → σ) (hfull : (get s).push a = none → m s = .error e s)
    (hroom : ∀ v, (get s).push a = some v → m s = .ok () (put v)) (hget : ∀ v, get (put v) = v)
    (h : m s = .ok () t) : (get t).elems = (get s).elems ++ [a] := by
  cases hp : (get s).push a with
  | none =>
    rw [hfull hp] at h
    cases h
  | some v =>
    rw [hroom v hp] at h
    cases h
    rw [hget]
    exact BoundedVec.push_elems hp

/-- A loop that pushes its elements on a vector of fixed capacity and throws when the vector is
full; `put` is the state with a new vector, after some elements. -/
theorem forM_pushes {cap : ℕ} (get : σ → BoundedVec α cap) (put : σ → BoundedVec α cap → List α → σ)
    {k : α → EStateM ε σ PUnit} {e : ε}
    (hfull : ∀ a s, (get s).push a = none → k a s = .error e s)
    (hroom : ∀ a s v, (get s).push a = some v → k a s = .ok () (put s v [a]))
    (hnil : ∀ s, put s (get s) [] = s) (hget : ∀ s v as, get (put s v as) = v)
    (hcons : ∀ s v w a as, put (put s v [a]) w as = put s w (a :: as)) (as : List α) (s : σ) :
    as.forM k s =
      let t := put s ((get s).pushAll as) (as.take (cap - (get s).elems.length))
      if (get s).elems.length + as.length ≤ cap then .ok () t else .error e t := by
  dsimp only
  induction as generalizing s with
  | nil =>
    have hfits : (get s).elems.length + ([] : List α).length ≤ cap := (get s).bounded
    rw [if_pos hfits, BoundedVec.pushAll_nil, List.take_nil, hnil]
    rfl
  | cons a as ih =>
    show (k a >>= fun _ => as.forM k) s = _
    rw [run_bind]
    cases hp : (get s).push a with
    | none =>
      have hlen : ¬ (get s).elems.length < cap := by
        rw [← BoundedVec.push_isSome_iff (get s) a, hp]
        exact Bool.false_ne_true
      have hzero : cap - (get s).elems.length = 0 := by omega
      have hover : ¬ (get s).elems.length + (a :: as).length ≤ cap := by
        rw [List.length_cons]
        omega
      rw [hfull a s hp, if_neg hover, BoundedVec.pushAll_full (by omega), hzero, List.take_zero, hnil]
    | some v =>
      have hlt : (get s).elems.length < cap := by
        rw [← BoundedVec.push_isSome_iff (get s) a, hp]
        rfl
      have hlen : v.elems.length = (get s).elems.length + 1 := by
        rw [BoundedVec.push_elems hp, List.length_append, List.length_singleton]
      have htake : cap - (get s).elems.length = (cap - ((get s).elems.length + 1)) + 1 := by omega
      rw [hroom a s v hp]
      dsimp only
      rw [ih, hget, hlen, hcons, BoundedVec.pushAll_cons hp, htake, List.take_succ_cons]
      simp only [List.length_cons, Nat.add_assoc, Nat.add_comm 1]

/-- The program leaves `f` of the state alone. -/
def Frame (f : σ → τ) (m : EStateM ε σ α) : Prop := ∀ s, f (after m s) = f s

namespace Frame

theorem comp {ρ : Type} {m : EStateM ε σ α} (h : Frame f m) {g : τ → ρ} : Frame (fun s => g (f s)) m :=
  fun s => congrArg g (h s)

theorem of_ok {m : EStateM ε σ α} (h : Frame f m) {s t : σ} {a : α} (hm : m s = .ok a t) : f t = f s := by
  have := h s
  rwa [after_ok hm] at this

theorem pure (a : α) : Frame f (Pure.pure a : EStateM ε σ α) := fun _ => rfl

theorem throw (e : ε) : Frame f (throw e : EStateM ε σ α) := fun _ => rfl

theorem get : Frame f (get : EStateM ε σ σ) := fun _ => rfl

theorem lift (x : Except ε α) : Frame f (lift x : EStateM ε σ α) := by
  cases x with
  | ok a => exact pure a
  | error e => exact throw e

theorem modify {g : σ → σ} (h : ∀ s, f (g s) = f s) : Frame f (modify g : EStateM ε σ PUnit) := h

theorem bind {m : EStateM ε σ α} {k : α → EStateM ε σ β} (hm : Frame f m) (hk : ∀ a, Frame f (k a)) :
    Frame f (m >>= k) := by
  intro s
  have h1 := hm s
  rw [after] at h1 ⊢
  rw [run_bind]
  cases hr : m s with
  | ok a t =>
    rw [hr] at h1
    have h2 := hk a t
    rw [after] at h2
    exact h2.trans h1
  | error e t =>
    rw [hr] at h1
    exact h1

theorem forM {k : α → EStateM ε σ PUnit} (hk : ∀ a, Frame f (k a)) (xs : List α) : Frame f (xs.forM k) := by
  induction xs with
  | nil => exact pure _
  | cons x xs ih => exact bind (hk x) fun _ => ih

theorem ite {c : Prop} [Decidable c] {m n : EStateM ε σ α} (hm : Frame f m) (hn : Frame f n) :
    Frame f (if c then m else n) := by
  by_cases h : c
  · rwa [if_pos h]
  · rwa [if_neg h]

end Frame

/-- A program that fails leaves `f` of the state alone. -/
def FrameOnError (f : σ → τ) (m : EStateM ε σ α) : Prop := ∀ s e t, m s = .error e t → f t = f s

namespace FrameOnError

theorem of_frame {m : EStateM ε σ α} (h : Frame f m) : FrameOnError f m := by
  intro s e t hm
  rw [← h s, after_error hm]

theorem bind {m : EStateM ε σ α} {k : α → EStateM ε σ β} (hm : Frame f m) (hk : ∀ a, FrameOnError f (k a)) :
    FrameOnError f (m >>= k) := by
  intro s e t h
  rw [run_bind] at h
  cases hr : m s with
  | ok a u =>
    rw [hr] at h
    exact (hk a u e t h).trans (hm.of_ok hr)
  | error e' u =>
    rw [hr] at h
    cases h
    exact of_frame hm s _ _ hr

/-- What comes behind it cannot fail. -/
theorem seq {m : EStateM ε σ α} {k : α → EStateM ε σ β} (hm : FrameOnError f m) (hk : ∀ a s, Completes (k a) s) :
    FrameOnError f (m >>= k) := by
  intro s e t h
  rw [run_bind] at h
  cases hr : m s with
  | ok a u =>
    rw [hr] at h
    obtain ⟨b, v, hb⟩ := hk a u
    simp only [hb] at h
    cases h
  | error e' u =>
    rw [hr] at h
    cases h
    exact hm s _ _ hr

theorem ite {c : Prop} [Decidable c] {m n : EStateM ε σ α} (hm : FrameOnError f m) (hn : FrameOnError f n) :
    FrameOnError f (if c then m else n) := by
  by_cases h : c
  · rwa [if_pos h]
  · rwa [if_neg h]

end FrameOnError

end StateProgram
