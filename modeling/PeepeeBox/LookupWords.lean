import Mathlib.Algebra.Group.Nat.Defs
import Mathlib.Data.Set.Basic

set_option autoImplicit false

/-!
# Words looked up digit by digit

A key is a family of digits, and each position of a word is a table lookup on one of
them.
-/
namespace PeepeeBox.LookupWords

variable {ι κ α β : Type*}

structure Lookup (ι κ α β : Type*) where
  digit : ι → κ
  tab : ι → α → β

namespace Lookup

variable (L : Lookup ι κ α β)

def spell (x : κ → α) (i : ι) : β := L.tab i (x (L.digit i))

/-- `v` explains every position of `P` that looks at digit `k`. -/
def Candidate (P : Set ι) (w : ι → β) (k : κ) (v : α) : Prop :=
  ∀ i ∈ P, L.digit i = k → L.tab i v = w i

theorem candidate_of_spell {P : Set ι} {w : ι → β} {x : κ → α}
    (h : ∀ i ∈ P, L.spell x i = w i) (k : κ) : L.Candidate P w k (x k) := by
  intro i hi hk
  have hs := h i hi
  subst hk
  exact hs

theorem exists_spell_iff (P : Set ι) (w : ι → β) :
    (∃ x : κ → α, ∀ i ∈ P, L.spell x i = w i) ↔ ∀ k, ∃ v, L.Candidate P w k v := by
  constructor
  · rintro ⟨x, hx⟩ k
    exact ⟨x k, L.candidate_of_spell hx k⟩
  · intro h
    choose x hx using h
    exact ⟨x, fun i hi => hx (L.digit i) i hi rfl⟩

end Lookup

theorem exists_packed (b : ℕ) (x : ℕ → ℕ) (hx : ∀ i, x i < b) (n : ℕ) :
    ∃ N < b ^ n, ∀ i < n, N / b ^ i % b = x i := by
  induction n generalizing x with
  | zero => exact ⟨0, by simp, by simp⟩
  | succ n ih =>
    obtain ⟨N, hN, hd⟩ := ih (fun i => x (i + 1)) (fun i => hx (i + 1))
    have h0 := hx 0
    have hb : 0 < b := by omega
    have hdiv : (x 0 + b * N) / b = N := by
      rw [Nat.add_mul_div_left _ _ hb, Nat.div_eq_of_lt h0, Nat.zero_add]
    refine ⟨x 0 + b * N, ?_, ?_⟩
    · calc x 0 + b * N < b + b * N := by omega
        _ = b * (N + 1) := by rw [Nat.mul_add, Nat.mul_one, Nat.add_comm]
        _ ≤ b * b ^ n := Nat.mul_le_mul_left b hN
        _ = b ^ (n + 1) := by rw [Nat.pow_succ, Nat.mul_comm]
    · intro i hi
      cases i with
      | zero =>
        rw [Nat.pow_zero, Nat.div_one, Nat.add_mul_mod_self_left, Nat.mod_eq_of_lt h0]
      | succ i =>
        rw [Nat.pow_succ, Nat.mul_comm (b ^ i) b, ← Nat.div_div_eq_div_mul, hdiv]
        exact hd i (by omega)

end PeepeeBox.LookupWords
