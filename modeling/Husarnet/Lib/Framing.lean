import Mathlib.Data.List.Basic
import Mathlib.Data.List.Flatten

/-! # Framing of a stream

A framer looks at the front of what has arrived: there is a packet, or the reader stops for a
reason. A final reason stays one, and a packet stays the same, when more arrives. So a reader that
is fed a stream piece by piece gives out what it gives out for the stream in one piece.
-/

namespace Framing
set_option autoImplicit false

variable {β π ε : Type}

/-- What is at the front: a packet and its size on the wire, or a reason to stop. -/
inductive Front (π ε : Type) where
  | stop (why : ε)
  | packet (p : π) (size : ℕ)

structure Framer (β π ε : Type) where
  next : List β → Front π ε
  final : ε → Bool
  size_pos : ∀ {s p n}, next s = .packet p n → 0 < n
  size_le : ∀ {s p n}, next s = .packet p n → n ≤ s.length
  packet_stable : ∀ {s p n} (t), next s = .packet p n → next (s ++ t) = .packet p n
  final_stable : ∀ {s e} (t), next s = .stop e → final e = true → next (s ++ t) = .stop e

/-- The packets taken off, what is left and why the reader stopped there. -/
structure Drained (β π ε : Type) where
  packets : List π
  rest : List β
  exit : ε
  deriving DecidableEq

namespace Drained

def before (ps : List π) (d : Drained β π ε) : Drained β π ε := { d with packets := ps ++ d.packets }

@[simp] theorem before_packets (ps : List π) (d : Drained β π ε) : (d.before ps).packets = ps ++ d.packets := rfl
@[simp] theorem before_rest (ps : List π) (d : Drained β π ε) : (d.before ps).rest = d.rest := rfl
theorem before_append (ps qs : List π) (d : Drained β π ε) : (d.before qs).before ps = d.before (ps ++ qs) := by
  rw [before, before, before, List.append_assoc]

end Drained

namespace Framer

variable (F : Framer β π ε)

/-- Packets are taken off while there are any. -/
def drain (s : List β) : Drained β π ε :=
  match _h : F.next s with
  | .stop why => ⟨[], s, why⟩
  | .packet p n => (drain (s.drop n)).before [p]
termination_by s.length
decreasing_by
  have hpos := F.size_pos _h
  have hle := F.size_le _h
  rw [List.length_drop]
  omega

variable {F}

theorem drain_stop {s : List β} {why : ε} (h : F.next s = .stop why) : F.drain s = ⟨[], s, why⟩ := by
  rw [drain]
  split
  · rename_i h'
    rw [h] at h'
    cases h'
    rfl
  · rename_i h'
    rw [h] at h'
    cases h'

theorem drain_packet {s : List β} {p : π} {n : ℕ} (h : F.next s = .packet p n) :
    F.drain s = (F.drain (s.drop n)).before [p] := by
  rw [drain]
  split
  · rename_i h'
    rw [h] at h'
    cases h'
  · rename_i h'
    rw [h] at h'
    cases h'
    rfl

/-- The reader stops where there is no packet. -/
theorem next_rest (s : List β) : F.next (F.drain s).rest = .stop (F.drain s).exit := by
  induction s using drain.induct F with
  | case1 s why h =>
    rw [drain_stop h]
    exact h
  | case2 s p n h ih =>
    rw [drain_packet h]
    exact ih

theorem drain_rest (s : List β) : F.drain (F.drain s).rest = ⟨[], (F.drain s).rest, (F.drain s).exit⟩ :=
  drain_stop (next_rest s)

theorem rest_suffix (s : List β) : (F.drain s).rest <:+ s := by
  induction s using drain.induct F with
  | case1 s why h => simp only [drain_stop h, List.suffix_rfl]
  | case2 s p n h ih =>
    rw [drain_packet h]
    exact ih.trans (List.drop_suffix n s)

theorem rest_length_le (s : List β) : (F.drain s).rest.length ≤ s.length := (rest_suffix s).length_le

/-- What is left of a stream is drained again with what arrives behind it. -/
theorem drain_append {s : List β} (t : List β) (h : F.final (F.drain s).exit = false) :
    F.drain (s ++ t) = (F.drain ((F.drain s).rest ++ t)).before (F.drain s).packets := by
  induction s using drain.induct F with
  | case1 s why hs =>
    rw [drain_stop hs]
    rfl
  | case2 s p n hs ih =>
    rw [drain_packet hs] at h ⊢
    rw [drain_packet (F.packet_stable t hs), List.drop_append_of_le_length (F.size_le hs), ih h, Drained.before_append]
    rfl

theorem drain_append_final {s : List β} (t : List β) (h : F.final (F.drain s).exit = true) :
    F.drain (s ++ t) = { F.drain s with rest := (F.drain s).rest ++ t } := by
  induction s using drain.induct F with
  | case1 s why hs =>
    rw [drain_stop hs] at h ⊢
    exact drain_stop (F.final_stable t hs h)
  | case2 s p n hs ih =>
    rw [drain_packet hs] at h ⊢
    rw [drain_packet (F.packet_stable t hs), List.drop_append_of_le_length (F.size_le hs), ih h]
    rfl

/-! ## Encoded packets -/

/-- Items whose encodings are read back at the front of every stream come out of the stream they are in. -/
theorem drain_encoded {τ : Type} (encode : τ → List β) (read : τ → π) {xs : List τ} (t : List β)
    (h : ∀ x ∈ xs, ∀ t, F.next (encode x ++ t) = .packet (read x) (encode x).length) :
    F.drain (xs.flatMap encode ++ t) = (F.drain t).before (xs.map read) := by
  induction xs with
  | nil => rfl
  | cons x xs ih =>
    have hx := h x (List.mem_cons_self ..) (xs.flatMap encode ++ t)
    rw [List.flatMap_cons, List.append_assoc, drain_packet hx, List.drop_left,
      ih fun y hy => h y (List.mem_cons_of_mem _ hy), Drained.before_append]
    rfl

/-- A stream is its packets and what is left, where a packet is at the front in its encoding only. -/
theorem drain_decodes {encode : π → List β} (h : ∀ {s p n}, F.next s = .packet p n → s.take n = encode p)
    (s : List β) :
    s = (F.drain s).packets.flatMap encode ++ (F.drain s).rest := by
  induction s using drain.induct F with
  | case1 s why hs =>
    rw [drain_stop hs]
    rfl
  | case2 s p n hs ih =>
    rw [drain_packet hs, Drained.before_packets, Drained.before_rest, List.singleton_append, List.flatMap_cons,
      List.append_assoc, ← ih, ← h hs, List.take_append_drop]

end Framer
end Framing
