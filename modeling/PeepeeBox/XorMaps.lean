import Mathlib.Data.Nat.Find
import Mathlib.Tactic.ByContra

set_option autoImplicit false

/-!
# Maps of words that respect exclusive or

A map that respects exclusive or is what it makes of the single bits.
-/
namespace PeepeeBox.XorMaps

variable {n m k : ℕ}

def Additive (f : BitVec n → BitVec m) : Prop := ∀ x y, f (x ^^^ y) = f x ^^^ f y

theorem Additive.zero {f : BitVec n → BitVec m} (h : Additive f) : f 0#n = 0#m := by
  have hself := h 0#n 0#n
  rw [BitVec.xor_self, BitVec.xor_self] at hself
  exact hself

theorem Additive.comp {f : BitVec m → BitVec k} {g : BitVec n → BitVec m} (hf : Additive f) (hg : Additive g) :
    Additive fun x => f (g x) := by
  intro x y
  dsimp only
  rw [hg, hf]

theorem Additive.id : Additive fun x : BitVec n => x := fun _ _ => rfl

theorem xor_xor_xor_comm (a b c d : BitVec n) : a ^^^ b ^^^ (c ^^^ d) = a ^^^ c ^^^ (b ^^^ d) := by
  rw [BitVec.xor_assoc, ← BitVec.xor_assoc b, BitVec.xor_comm b c, BitVec.xor_assoc, ← BitVec.xor_assoc]

/-- The columns at the bits below `j` that are set. -/
def combineTo (cols : ℕ → BitVec m) (x : BitVec n) : ℕ → BitVec m
  | 0 => 0#m
  | j + 1 => combineTo cols x j ^^^ if x.getLsbD j then cols j else 0#m

/-- The matrix with these columns times `x`. -/
def combine (cols : ℕ → BitVec m) (x : BitVec n) : BitVec m := combineTo cols x n

theorem combineTo_xor (cols : ℕ → BitVec m) (x y : BitVec n) (j : ℕ) :
    combineTo cols (x ^^^ y) j = combineTo cols x j ^^^ combineTo cols y j := by
  induction j with
  | zero => exact BitVec.xor_self.symm
  | succ j ih =>
    unfold combineTo
    rw [ih, xor_xor_xor_comm, BitVec.getLsbD_xor]
    cases x.getLsbD j <;> cases y.getLsbD j <;> simp

theorem combine_additive (cols : ℕ → BitVec m) : Additive fun x : BitVec n => combine cols x :=
  fun x y => combineTo_xor cols x y n

theorem combineTo_twoPow (cols : ℕ → BitVec m) (i j : ℕ) (hj : j ≤ n) :
    combineTo cols (BitVec.twoPow n i) j = if i < j then cols i else 0#m := by
  induction j with
  | zero => rfl
  | succ j ih =>
    unfold combineTo
    rw [ih (by omega), BitVec.getLsbD_twoPow]
    rcases Nat.lt_trichotomy i j with hlt | rfl | hlt
    · simp [hlt, Nat.lt_succ_of_lt hlt, show ¬i = j by omega]
    · simp [show i < n by omega]
    · simp [show ¬i < j by omega, show ¬i < j + 1 by omega, show ¬i = j by omega]

theorem combine_twoPow (cols : ℕ → BitVec m) {i : ℕ} (hi : i < n) : combine cols (BitVec.twoPow n i) = cols i := by
  unfold combine
  rw [combineTo_twoPow cols i n (Nat.le_refl n), if_pos hi]

theorem map_combineTo {f : BitVec m → BitVec k} (hf : Additive f) (cols : ℕ → BitVec m) (x : BitVec n) (j : ℕ) :
    f (combineTo cols x j) = combineTo (fun i => f (cols i)) x j := by
  induction j with
  | zero => exact hf.zero
  | succ j ih =>
    unfold combineTo
    rw [hf, ih]
    cases x.getLsbD j
    · rw [if_neg Bool.false_ne_true, if_neg Bool.false_ne_true, hf.zero]
    · rw [if_pos rfl, if_pos rfl]

theorem combine_bits (x : BitVec n) : combine (BitVec.twoPow n) x = x := by
  have hbits (j i : ℕ) (hj : j ≤ n) :
      (combineTo (BitVec.twoPow n) x j).getLsbD i = (decide (i < j) && x.getLsbD i) := by
    induction j with
    | zero => simp [combineTo]
    | succ j ih =>
      unfold combineTo
      rw [BitVec.getLsbD_xor, ih (by omega)]
      by_cases hij : i = j
      · subst hij
        cases hbit : x.getLsbD i <;> simp [show i < n by omega]
      · have hother : (if x.getLsbD j then BitVec.twoPow n j else 0#n).getLsbD i = false := by
          cases x.getLsbD j <;> simp [BitVec.getLsbD_twoPow, show ¬j = i from fun h => hij h.symm]
        have hlt : decide (i < j + 1) = decide (i < j) := decide_eq_decide.mpr (by omega)
        rw [hother, Bool.xor_false, hlt]
  apply BitVec.eq_of_getLsbD_eq
  intro i hi
  unfold combine
  rw [hbits n i (Nat.le_refl n), decide_eq_true hi, Bool.true_and]

theorem Additive.eq_combine {f : BitVec n → BitVec m} (hf : Additive f) (x : BitVec n) :
    f x = combine (fun i => f (BitVec.twoPow n i)) x := by
  have h := map_combineTo hf (BitVec.twoPow n) x n
  rw [show combineTo (BitVec.twoPow n) x n = x from combine_bits x] at h
  exact h

theorem combineTo_congr {cols cols' : ℕ → BitVec m} (x : BitVec n) {j : ℕ} (h : ∀ i < j, cols i = cols' i) :
    combineTo cols x j = combineTo cols' x j := by
  induction j with
  | zero => rfl
  | succ j ih =>
    unfold combineTo
    rw [ih fun i hi => h i (by omega), h j (by omega)]

theorem Additive.ext {f g : BitVec n → BitVec m} (hf : Additive f) (hg : Additive g)
    (h : ∀ i < n, f (BitVec.twoPow n i) = g (BitVec.twoPow n i)) (x : BitVec n) : f x = g x := by
  rw [hf.eq_combine, hg.eq_combine]
  exact combineTo_congr x h

theorem getLsbD_and_neg (x : BitVec n) (i : ℕ) :
    (x &&& -x).getLsbD i = (x.getLsbD i && !decide (∃ j < i, x.getLsbD j = true)) := by
  rw [BitVec.getLsbD_and, BitVec.getLsbD_neg]
  by_cases hi : i < n
  · rw [decide_eq_true hi, Bool.true_and]
    cases x.getLsbD i <;> simp
  · rw [BitVec.getLsbD_of_ge x i (Nat.not_lt.mp hi)]
    rfl

theorem lowest {x : BitVec n} (hx : x ≠ 0#n) :
    ∃ i < n, x &&& -x = BitVec.twoPow n i ∧ x &&& (x - 1#n) = x ^^^ BitVec.twoPow n i ∧ x.getLsbD i = true ∧
      ∀ j < i, x.getLsbD j = false := by
  have hexists : ∃ i, x.getLsbD i = true := by
    by_contra hnone
    exact hx (BitVec.eq_of_getLsbD_eq fun i _ => by simpa using not_exists.mp hnone i)
  have hbit := Nat.find_spec hexists
  have hbelow : ∀ j < Nat.find hexists, x.getLsbD j = false := fun j hj => by simpa using Nat.find_min hexists hj
  generalize Nat.find hexists = i at hbit hbelow
  have hi : i < n := by
    by_contra hge
    rw [BitVec.getLsbD_of_ge x i (Nat.not_lt.mp hge)] at hbit
    cases hbit
  have hneg : x &&& -x = BitVec.twoPow n i := by
    apply BitVec.eq_of_getLsbD_eq
    intro j hj
    rw [getLsbD_and_neg, BitVec.getLsbD_twoPow, decide_eq_true hi, Bool.true_and]
    rcases Nat.lt_trichotomy i j with hlt | rfl | hlt
    · rw [decide_eq_true (⟨i, hlt, hbit⟩ : ∃ k < j, x.getLsbD k = true), decide_eq_false (Nat.ne_of_lt hlt)]
      simp
    · have hnone : ¬∃ k < i, x.getLsbD k = true := by
        rintro ⟨k, hk, hset⟩
        rw [hbelow k hk] at hset
        cases hset
      rw [hbit, decide_eq_false hnone, decide_eq_true rfl]
      rfl
    · rw [hbelow j hlt, decide_eq_false (Nat.ne_of_gt hlt)]
      rfl
  refine ⟨i, hi, hneg, ?_, hbit, hbelow⟩
  rw [← BitVec.not_neg, ← hneg]
  apply BitVec.eq_of_getLsbD_eq
  intro j hj
  simp only [BitVec.getLsbD_and, BitVec.getLsbD_not, BitVec.getLsbD_xor, hj, decide_true, Bool.true_and]
  cases x.getLsbD j <;> simp

end PeepeeBox.XorMaps
