import Mathlib.Data.List.Basic
import Mathlib.Logic.Function.Basic

set_option autoImplicit false

/-!
# Fixed buffers with memory behind them

A buffer of `n` cells is kept as a function on all indices.  Filling the indices from `n`
on with arbitrary contents makes its bounds visible: an operation that commutes with the
filling neither reads nor writes them.
-/
namespace PeepeeBox.BufferSlack

variable {α β : Type*} {n : ℕ} {g f : ℕ → α}

/-- The buffer `f` of `n` cells with `g` behind it. -/
def behind (n : ℕ) (g f : ℕ → α) : ℕ → α := fun i => if i < n then f i else g i

theorem behind_read {i : ℕ} (hi : i < n) : behind n g f i = f i := if_pos hi

theorem behind_past {i : ℕ} (hi : n ≤ i) : behind n g f i = g i := if_neg (Nat.not_lt.mpr hi)

theorem update_behind {i : ℕ} (x : α) (hi : i < n) :
    Function.update (behind n g f) i x = behind n g (Function.update f i x) := by
  funext j
  by_cases hj : j = i
  · subst hj
    rw [Function.update_self, behind_read hi, Function.update_self]
  · rw [Function.update_of_ne hj]
    unfold behind
    rw [Function.update_of_ne hj]

theorem behind_prefix {m : ℕ} (h : ℕ → α) (hm : m ≤ n) :
    (fun i => if i < m then h i else behind n g f i) =
      behind n g (fun i => if i < m then h i else f i) := by
  funext i
  unfold behind
  dsimp only
  by_cases hi : i < m
  · rw [if_pos hi, if_pos (Nat.lt_of_lt_of_le hi hm), if_pos hi]
  · rw [if_neg hi, if_neg hi]

theorem ite_commute {γ : Type*} (φ : β → γ) {c : Prop} [Decidable c] {x y : β} {x' y' : γ}
    (hx : x' = φ x) (hy : y' = φ y) : (if c then x' else y') = φ (if c then x else y) := by
  rw [hx, hy, apply_ite φ]

theorem foldl_range_congr (step step' : β → ℕ → β) (b : β) (m : ℕ)
    (h : ∀ i < m, ∀ b, step b i = step' b i) :
    (List.range m).foldl step b = (List.range m).foldl step' b := by
  induction m with
  | zero => rfl
  | succ m ih =>
    rw [List.range_succ, List.foldl_append, List.foldl_append,
      ih fun i hi => h i (Nat.lt_succ_of_lt hi)]
    exact h m (Nat.lt_succ_self m) _

theorem foldl_range_commute {γ : Type*} (φ : β → γ) (step : β → ℕ → β) (step' : γ → ℕ → γ)
    (b : β) (m : ℕ) (h : ∀ i < m, ∀ b, step' (φ b) i = φ (step b i)) :
    (List.range m).foldl step' (φ b) = φ ((List.range m).foldl step b) := by
  induction m with
  | zero => rfl
  | succ m ih =>
    rw [List.range_succ, List.foldl_append, List.foldl_append,
      ih fun i hi => h i (Nat.lt_succ_of_lt hi)]
    exact h m (Nat.lt_succ_self m) _

end PeepeeBox.BufferSlack
