import Mathlib.Data.List.Basic
import Mathlib.Data.List.GetD
import Mathlib.Data.List.Induction

set_option autoImplicit false

/-!
# Words on a one-bit line

Most significant bit first serialisation of fixed-width words, and the shift
register that takes the bits back in.
-/
namespace PeepeeBox.SerialBits

variable {w : ℕ}

/-- The bits of a word in the order a most-significant-first line carries them. -/
def msbBits (x : BitVec w) : List Bool := (List.range w).map fun i => x.getLsbD (w - 1 - i)

def shiftIn (x : BitVec w) (b : Bool) : BitVec w := x <<< 1 ||| (BitVec.ofBool b).setWidth w

def collect (x : BitVec w) (bits : List Bool) : BitVec w := bits.foldl shiftIn x

@[simp] theorem msbBits_length (x : BitVec w) : (msbBits x).length = w := by
  simp [msbBits]

theorem msbBits_getElem (x : BitVec w) (i : ℕ) (hi : i < (msbBits x).length) :
    (msbBits x)[i] = x.getLsbD (w - 1 - i) := by
  simp [msbBits]

theorem shiftIn_getLsbD (x : BitVec w) (b : Bool) (i : ℕ) (hi : i < w) :
    (shiftIn x b).getLsbD i = if i = 0 then b else x.getLsbD (i - 1) := by
  simp only [shiftIn, BitVec.getLsbD_or, BitVec.getLsbD_shiftLeft, BitVec.getLsbD_setWidth,
    BitVec.getLsbD_ofBool, hi, decide_true, Bool.true_and]
  by_cases h0 : i = 0
  · subst h0
    simp
  · simp [h0, show ¬ i < 1 by omega]

theorem collect_append (x : BitVec w) (xs ys : List Bool) :
    collect x (xs ++ ys) = collect (collect x xs) ys := by
  simp [collect]

theorem collect_getLsbD (x : BitVec w) (bits : List Bool) (i : ℕ) (hi : i < w) :
    (collect x bits).getLsbD i =
      if i < bits.length then bits.getD (bits.length - 1 - i) false
      else x.getLsbD (i - bits.length) := by
  induction bits using List.reverseRecOn generalizing i with
  | nil => simp [collect]
  | append_singleton bits b ih =>
    rw [collect_append]
    change (shiftIn (collect x bits) b).getLsbD i = _
    rw [shiftIn_getLsbD _ _ _ hi]
    simp only [List.length_append, List.length_singleton]
    by_cases h0 : i = 0
    · subst h0
      simp
    · rw [if_neg h0, ih (i - 1) (by omega)]
      by_cases hb : i < bits.length + 1
      · rw [if_pos (show i - 1 < bits.length by omega), if_pos hb,
          List.getD_append _ _ _ _ (by omega)]
        congr 1
        omega
      · rw [if_neg (show ¬ i - 1 < bits.length by omega), if_neg hb]
        congr 1
        omega

theorem collect_msbBits (x y : BitVec w) : collect x (msbBits y) = y := by
  apply BitVec.eq_of_getLsbD_eq
  intro i hi
  rw [collect_getLsbD _ _ _ hi, msbBits_length, if_pos hi,
    List.getD_eq_getElem _ _ (by simp; omega), msbBits_getElem]
  congr 1
  omega

theorem collect_zero_msbBits {v : ℕ} (y : BitVec w) :
    collect (0 : BitVec v) (msbBits y) = y.setWidth v := by
  apply BitVec.eq_of_getLsbD_eq
  intro i hi
  rw [collect_getLsbD _ _ _ hi, msbBits_length, BitVec.getLsbD_setWidth]
  by_cases hw : i < w
  · rw [if_pos hw, List.getD_eq_getElem _ _ (by simp; omega), msbBits_getElem]
    simp only [hi, decide_true, Bool.true_and]
    congr 1
    omega
  · rw [if_neg hw, BitVec.getLsbD_of_ge y i (by omega)]
    simp

theorem flatMap_msbBits (x : ℕ → BitVec w) (hw : 0 < w) (n : ℕ) :
    ((List.range n).map x).flatMap msbBits =
      (List.range (n * w)).map fun j => (x (j / w)).getLsbD (w - 1 - j % w) := by
  induction n with
  | zero => simp
  | succ n ih =>
    have hlast : (List.range w).map ((fun j => (x (j / w)).getLsbD (w - 1 - j % w)) ∘
        fun j => n * w + j) = msbBits (x n) := by
      rw [msbBits]
      apply List.map_congr_left
      intro j hj
      have hlt := List.mem_range.mp hj
      have hdiv : (n * w + j) / w = n := by
        rw [Nat.add_comm, Nat.add_mul_div_right _ _ hw, Nat.div_eq_of_lt hlt, Nat.zero_add]
      have hmod : (n * w + j) % w = j := by
        rw [Nat.add_comm, Nat.add_mul_mod_self_right, Nat.mod_eq_of_lt hlt]
      simp only [Function.comp_apply, hdiv, hmod]
    rw [List.range_succ, List.map_append, List.flatMap_append, ih, Nat.succ_mul, List.range_add,
      List.map_append, List.map_map, hlast]
    simp

theorem flatMap_msbBits_length (f : ℕ → BitVec w) (n : ℕ) :
    ((List.range n).flatMap fun i => msbBits (f i)).length = n * w := by
  induction n with
  | zero => simp
  | succ n ih =>
    rw [List.range_succ, List.flatMap_append, List.length_append, ih, Nat.succ_mul]
    simp

theorem flatMap_msbBits_word (f : ℕ → BitVec w) (n i : ℕ) (hi : i < n) :
    (((List.range n).flatMap fun i => msbBits (f i)).drop (i * w)).take w = msbBits (f i) := by
  obtain ⟨m, hm⟩ : ∃ m, n = i + (1 + m) := ⟨n - i - 1, by omega⟩
  subst hm
  rw [List.range_add, List.flatMap_append,
    List.drop_left' (flatMap_msbBits_length f i), List.range_add, List.map_append,
    List.flatMap_append]
  simp [List.take_left']

end PeepeeBox.SerialBits
