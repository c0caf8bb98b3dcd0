import Mathlib.Algebra.BigOperators.Fin
import Mathlib.Data.Matrix.Mul

set_option autoImplicit false

/-!
# Triangular systems of affine forms

A form is a row of coefficients with a constant.
-/
namespace PeepeeBox.AffineForms

variable {R : Type*} [CommRing R] {n : ℕ}

abbrev Form (R : Type*) (n : ℕ) := (Fin n → R) × R

def value (f : Form R n) (x : Fin n → R) : R := f.1 ⬝ᵥ x + f.2

@[simp] theorem value_zero (x : Fin n → R) : value 0 x = 0 := by
  simp [value]

@[simp] theorem value_add (f g : Form R n) (x : Fin n → R) : value (f + g) x = value f x + value g x := by
  unfold value
  rw [Prod.fst_add, Prod.snd_add, add_dotProduct]
  exact add_add_add_comm _ _ _ _

theorem value_const {f : Form R n} (h : f.1 = 0) (x : Fin n → R) : value f x = f.2 := by
  unfold value
  rw [h, zero_dotProduct, zero_add]

theorem value_single {f : Form R n} {c : Fin n} (h : f.1 = Pi.single c 1) (x : Fin n → R) : value f x = x c + f.2 := by
  unfold value
  rw [h, single_one_dotProduct]

/-- The first coefficient is a one in column `c`. -/
structure Leads (f : Form R n) (c : Fin n) : Prop where
  one : f.1 c = 1
  before : ∀ d < c, f.1 d = 0

theorem value_update {f : Form R n} {c : Fin n} (x : Fin n → R) (a : R) :
    value f (Function.update x c a) = value f x + f.1 c * (a - x c) := by
  have hsplit : Function.update x c a = x + Pi.single c (a - x c) := by
    funext d
    by_cases hd : d = c
    · subst hd
      simp
    · simp [hd]
  unfold value
  rw [hsplit, dotProduct_add, dotProduct_single]
  exact add_right_comm _ _ _

theorem exists_solution (piv : Fin n → Option (Form R n)) (hpiv : ∀ c f, piv c = some f → Leads f c) (y : Fin n → R) :
    ∃ x, (∀ c f, piv c = some f → value f x = 0) ∧ ∀ c, piv c = none → x c = y c := by
  -- from the last column to the first: a form does not read the columns before its own
  have hsuffix (j : ℕ) (hj : j ≤ n) :
      ∃ x, (∀ c f, n - j ≤ c.val → piv c = some f → value f x = 0) ∧ ∀ c, piv c = none → x c = y c := by
    induction j with
    | zero => exact ⟨y, fun c f hc => absurd c.isLt (Nat.not_lt.mpr hc), fun c _ => rfl⟩
    | succ j ih =>
      obtain ⟨x, hx, hfree⟩ := ih (Nat.le_of_succ_le hj)
      have hlt : n - (j + 1) < n := by omega
      cases hc : piv ⟨n - (j + 1), hlt⟩ with
      | none =>
        refine ⟨x, fun d f hd hf => ?_, hfree⟩
        rcases Nat.lt_or_ge d.val (n - j) with hlow | hhigh
        · obtain rfl : d = ⟨n - (j + 1), hlt⟩ := Fin.ext (by dsimp only; omega)
          rw [hc] at hf
          cases hf
        · exact hx d f hhigh hf
      | some f =>
        have hlead := hpiv _ f hc
        refine ⟨Function.update x ⟨n - (j + 1), hlt⟩ (x ⟨n - (j + 1), hlt⟩ - value f x), fun d g hd hg => ?_,
          fun d hd => ?_⟩
        · rw [value_update]
          rcases Nat.lt_or_ge d.val (n - j) with hlow | hhigh
          · obtain rfl : d = ⟨n - (j + 1), hlt⟩ := Fin.ext (by dsimp only; omega)
            obtain rfl : f = g := Option.some.inj (hc.symm.trans hg)
            rw [hlead.one]
            ring
          · have hbefore : (⟨n - (j + 1), hlt⟩ : Fin n) < d := Fin.lt_def.mpr (by dsimp only; omega)
            rw [hx d g hhigh hg, (hpiv d g hg).before _ hbefore, zero_mul, zero_add]
        · have hne : d ≠ ⟨n - (j + 1), hlt⟩ := by
            rintro rfl
            rw [hc] at hd
            cases hd
          rw [Function.update_of_ne hne]
          exact hfree d hd
  obtain ⟨x, hx, hfree⟩ := hsuffix n (Nat.le_refl n)
  exact ⟨x, fun c f hf => hx c f (by omega) hf, hfree⟩

theorem exists_other [Nontrivial R] (piv : Fin n → Option (Form R n)) (hpiv : ∀ c f, piv c = some f → Leads f c)
    {c : Fin n} (hc : piv c = none) (x : Fin n → R) : ∃ x', (∀ c f, piv c = some f → value f x' = 0) ∧ x' ≠ x := by
  obtain ⟨x', hx', hfree⟩ := exists_solution piv hpiv (Function.update x c (x c + 1))
  refine ⟨x', hx', ?_⟩
  rintro rfl
  have hsame := hfree c hc
  rw [Function.update_self] at hsame
  exact one_ne_zero (left_eq_add.mp hsame)

end PeepeeBox.AffineForms
