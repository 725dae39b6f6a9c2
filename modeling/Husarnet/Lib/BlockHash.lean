import Mathlib.Data.List.Basic

/-! # Hashing block by block

A message goes into the hash in blocks of one size. What is hashed while it comes in pieces of any size is the state
behind the whole blocks so far, with the rest in front of the next block.
-/

namespace BlockHash
set_option autoImplicit false

variable {α σ : Type} (size : ℕ) (compress : σ → List α → σ)

/-- The state behind the first `n` blocks of a message. -/
def chain (s₀ : σ) (msg : List α) : ℕ → σ
  | 0 => s₀
  | n + 1 => compress (chain s₀ msg n) ((msg.drop (size * n)).take size)

theorem chain_append (s₀ : σ) (msg data : List α) {n : ℕ} (h : size * n ≤ msg.length) :
    chain size compress s₀ (msg ++ data) n = chain size compress s₀ msg n := by
  induction n with
  | zero => rfl
  | succ n ih =>
    rw [Nat.mul_succ] at h
    rw [chain, chain, ih (by omega), List.drop_append_of_le_length (by omega), List.take_append_of_le_length]
    rw [List.length_drop]
    omega

/-- The hash holds the message: the state behind its whole blocks, and the rest of it. -/
structure Absorbed (s₀ state : σ) (pending msg : List α) : Prop where
  chained : state = chain size compress s₀ msg (msg.length / size)
  rest : pending = msg.drop (size * (msg.length / size))

namespace Absorbed
variable {size compress} {s₀ state : σ} {pending msg : List α}

theorem nil (s₀ : σ) : Absorbed size compress s₀ s₀ [] [] where
  chained := by simp [chain]
  rest := by simp

theorem length_pending (h : Absorbed size compress s₀ state pending msg) : pending.length = msg.length % size := by
  have hdiv := Nat.div_add_mod msg.length size
  rw [h.rest, List.length_drop]
  omega

/-- Data that does not fill the block waits with the rest. -/
theorem append (h : Absorbed size compress s₀ state pending msg) (data : List α)
    (hroom : pending.length + data.length < size) : Absorbed size compress s₀ state (pending ++ data) (msg ++ data) := by
  have hpending := h.length_pending
  have hdiv := Nat.div_add_mod msg.length size
  have hsame : (msg ++ data).length / size = msg.length / size := by
    have hlen : (msg ++ data).length = (pending.length + data.length) + size * (msg.length / size) := by
      rw [List.length_append]
      omega
    rw [hlen, Nat.add_mul_div_left _ _ (by omega), Nat.div_eq_of_lt hroom, Nat.zero_add]
  have hwhole : size * (msg.length / size) ≤ msg.length := by omega
  constructor
  · rw [hsame, chain_append _ _ _ _ _ hwhole]
    exact h.chained
  · rw [hsame, List.drop_append_of_le_length hwhole, h.rest]

/-- Data that fills the block is hashed with the rest. -/
theorem fill (h : Absorbed size compress s₀ state pending msg) (hsize : 0 < size) (data : List α)
    (hfull : pending.length + data.length = size) :
    Absorbed size compress s₀ (compress state (pending ++ data)) [] (msg ++ data) := by
  have hpending := h.length_pending
  have hdiv := Nat.div_add_mod msg.length size
  have hlen : (msg ++ data).length = size * (msg.length / size + 1) := by
    rw [List.length_append, Nat.mul_succ]
    omega
  have hnext : (msg ++ data).length / size = msg.length / size + 1 := by
    rw [hlen, Nat.mul_div_cancel_left _ hsize]
  have hwhole : size * (msg.length / size) ≤ msg.length := by omega
  constructor
  · have hblock : ((msg ++ data).drop (size * (msg.length / size))).take size = pending ++ data := by
      rw [List.drop_append_of_le_length hwhole, ← h.rest]
      apply List.take_of_length_le
      rw [List.length_append]
      omega
    rw [hnext, chain, chain_append _ _ _ _ _ hwhole, ← h.chained, hblock]
  · rw [hnext, ← hlen, List.drop_length]

end Absorbed
end BlockHash
