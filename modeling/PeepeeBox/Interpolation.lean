import Mathlib

set_option autoImplicit false

/-!
# Interpolation in whole numbers

From an interval onto the one from zero to `m`, rounded towards zero.
-/
namespace PeepeeBox.Interpolation

def interp (a b m x : ℤ) : ℤ := ((x - a) * m).tdiv (b - a)

/-- How far outside the interval `x` is; inside it is not positive. -/
def beyond (a b x : ℤ) : ℤ := max (min a b - x) (x - max a b)

variable {a b m x y : ℤ}

theorem beyond_pos_iff : 0 < beyond a b x ↔ x ∉ Set.uIcc a b := by
  rw [Set.uIcc, Set.mem_Icc, beyond, lt_max_iff]
  omega

theorem interp_left : interp a b m a = 0 := by simp [interp]

theorem interp_right (h : a ≠ b) : interp a b m b = m := by
  have hne : b - a ≠ 0 := sub_ne_zero.mpr h.symm
  rw [interp, mul_comm]
  exact Int.mul_tdiv_cancel m hne

theorem interp_neg : interp (-a) (-b) m (-x) = interp a b m x := by
  have hnum : (-x - -a) * m = -((x - a) * m) := by ring
  have hden : -b - -a = -(b - a) := by ring
  rw [interp, hnum, hden, Int.neg_tdiv_neg, interp]

theorem beyond_neg : beyond (-a) (-b) (-x) = beyond a b x := by
  unfold beyond
  omega

theorem interp_neg_height : interp a b (-m) x = -interp a b m x := by
  rw [interp, mul_neg, Int.neg_tdiv, interp]

theorem interp_mono_of_lt (h : a < b) (hm : 0 ≤ m) : Monotone (interp a b m) := by
  intro x y hxy
  have hnum : (x - a) * m ≤ (y - a) * m := mul_le_mul_of_nonneg_right (by omega) hm
  exact Int.tdiv_le_tdiv (sub_pos.mpr h) hnum

theorem interp_anti_of_gt (h : b < a) (hm : 0 ≤ m) : Antitone (interp a b m) := by
  intro x y hxy
  rw [← interp_neg (x := x), ← interp_neg (x := y)]
  exact interp_mono_of_lt (by omega) hm (neg_le_neg hxy)

theorem interp_monotone_or_antitone (h : a ≠ b) (m : ℤ) : Monotone (interp a b m) ∨ Antitone (interp a b m) := by
  have hflip : interp a b m = fun x => -interp a b (-m) x := by
    funext x
    rw [interp_neg_height, neg_neg]
  rcases lt_or_gt_of_ne h with hlt | hgt
  · rcases le_total 0 m with hm | hm
    · exact .inl (interp_mono_of_lt hlt hm)
    · rw [hflip]
      exact .inr (interp_mono_of_lt hlt (neg_nonneg.mpr hm)).neg
  · rcases le_total 0 m with hm | hm
    · exact .inr (interp_anti_of_gt hgt hm)
    · rw [hflip]
      exact .inl (interp_anti_of_gt hgt (neg_nonneg.mpr hm)).neg

theorem interp_mem (h : a ≠ b) (hx : x ∈ Set.uIcc a b) : interp a b m x ∈ Set.uIcc 0 m := by
  have hends : Set.uIcc 0 m = Set.uIcc (interp a b m a) (interp a b m b) := by rw [interp_left, interp_right h]
  rw [hends]
  rcases interp_monotone_or_antitone h m with hmono | hanti
  · exact hmono.mapsTo_uIcc hx
  · exact hanti.mapsTo_uIcc hx

theorem tdiv_neg_iff {n d : ℤ} (hd : 0 < d) : n.tdiv d < 0 ↔ n ≤ -d := by
  have hneg : n.tdiv d = -(-n).tdiv d := by rw [Int.neg_tdiv, neg_neg]
  constructor
  · intro h
    by_contra hsmall
    have hzero : 0 ≤ n.tdiv d := by
      rcases le_total 0 n with hn | hn
      · exact Int.tdiv_nonneg hn hd.le
      · have hlt : (-n).tdiv d = 0 := Int.tdiv_eq_zero_of_lt (by omega) (by omega)
        rw [hneg, hlt, neg_zero]
    omega
  · intro h
    have hone : 1 ≤ (-n).tdiv d := Int.le_tdiv_of_mul_le hd (by omega)
    omega

theorem lt_tdiv_iff {n d : ℤ} (hd : 0 < d) (hm : 0 ≤ m) : m < n.tdiv d ↔ (m + 1) * d ≤ n := by
  constructor
  · intro h
    have hn : 0 ≤ n := by
      by_contra hneg
      have hle : n.tdiv d ≤ (0 : ℤ).tdiv d := Int.tdiv_le_tdiv hd (by omega)
      rw [Int.zero_tdiv] at hle
      omega
    rw [Int.tdiv_eq_ediv_of_nonneg hn] at h
    exact (Int.le_ediv_iff_mul_le hd).mp h
  · exact fun h => Int.le_tdiv_of_mul_le hd h

theorem interp_outside_of_lt (h : a < b) (hm : 0 < m) :
    interp a b m x < 0 ∨ m < interp a b m x ↔ b - a ≤ m * beyond a b x := by
  have hd : 0 < b - a := sub_pos.mpr h
  have hbelow : (x - a) * m ≤ -(b - a) ↔ b - a ≤ m * (a - x) := by
    rw [show (x - a) * m = -(m * (a - x)) by ring]
    exact neg_le_neg_iff
  have habove : (m + 1) * (b - a) ≤ (x - a) * m ↔ b - a ≤ m * (x - b) := by
    rw [show (m + 1) * (b - a) = m * (b - a) + (b - a) by ring, show (x - a) * m = m * (b - a) + m * (x - b) by ring]
    exact add_le_add_iff_left _
  rw [interp, tdiv_neg_iff hd, lt_tdiv_iff hd hm.le, hbelow, habove, beyond, min_eq_left h.le, max_eq_right h.le,
    mul_max_of_nonneg _ _ hm.le, le_max_iff]

theorem interp_outside (h : a ≠ b) (hm : 0 < m) :
    interp a b m x < 0 ∨ m < interp a b m x ↔ |b - a| ≤ m * beyond a b x := by
  rcases lt_or_gt_of_ne h with hlt | hgt
  · rw [abs_of_pos (sub_pos.mpr hlt)]
    exact interp_outside_of_lt hlt hm
  · rw [← interp_neg, ← beyond_neg, abs_of_neg (sub_neg.mpr hgt), neg_sub, ← neg_sub_neg b a]
    exact interp_outside_of_lt (neg_lt_neg hgt) hm

theorem abs_interp_le {k : ℤ} (h : a ≠ b) (hk : |x - a| * |m| < (k + 1) * |b - a|) : |interp a b m x| ≤ k := by
  have hd : 0 < |b - a| := abs_pos.mpr (sub_ne_zero.mpr h.symm)
  have habs : |interp a b m x| = (|x - a| * |m|) / |b - a| := by
    rw [interp, ← abs_mul, Int.abs_eq_natAbs, Int.abs_eq_natAbs, Int.abs_eq_natAbs, Int.natAbs_tdiv]
    exact Int.natCast_div _ _
  rw [habs]
  exact Int.lt_add_one_iff.mp (Int.ediv_lt_of_lt_mul hd hk)

end PeepeeBox.Interpolation
