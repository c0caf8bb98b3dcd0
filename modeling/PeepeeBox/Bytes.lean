import Mathlib.Algebra.Group.Int.Defs
import Mathlib.Algebra.GroupWithZero.Nat
import Mathlib.Data.Nat.Notation

set_option autoImplicit false

namespace PeepeeBox

/-- The code's `uint8_t`. -/
abbrev Byte := BitVec 8

instance lawfulByte : LawfulBEq Byte := inferInstance

/-- Bits of a byte and registers of a port are numbered below 8. -/
instance neZeroEight : NeZero 8 := ⟨by decide⟩

/-- Some bit of `mask` is set. -/
def has (x mask : Byte) : Bool := x &&& mask ≠ 0

theorem has_one (x : Byte) : has x 0x01 = x.getLsbD 0 := by
  revert x
  decide +kernel

theorem has_or {m k : Byte} (h : k &&& m = 0) (x : Byte) : has (x ||| k) m = has x m := by
  unfold has
  rw [BitVec.and_or_distrib_right, h, show (x &&& m ||| (0 : Byte)) = x &&& m from BitVec.or_zero]

theorem has_or_self {m : Byte} (h : m ≠ 0) (x : Byte) : has (x ||| m) m = true := by
  have hself : (x ||| m) &&& m = m := by
    rw [BitVec.and_or_distrib_right, BitVec.and_self]
    apply BitVec.eq_of_getLsbD_eq
    intro i hi
    simp only [BitVec.getLsbD_or, BitVec.getLsbD_and]
    cases x.getLsbD i <;> simp
  unfold has
  rw [hself]
  exact decide_eq_true h

theorem has_and {m k : Byte} (h : k &&& m = m) (x : Byte) : has (x &&& k) m = has x m := by
  unfold has
  rw [BitVec.and_assoc, h]

theorem has_mask (x k : Byte) (val m : Byte) (h : k &&& m = 0) (h' : m &&& 0x1F = m) :
    has (x &&& k ||| val &&& 0x1F) m = has val m := by
  unfold has
  rw [BitVec.and_or_distrib_right, BitVec.and_assoc, h, BitVec.and_assoc, BitVec.and_comm 0x1F m, h',
    show x &&& (0 : Byte) = 0 from BitVec.and_zero, show (0 : Byte) ||| val &&& m = val &&& m from BitVec.zero_or]

theorem has_xor (x y : Byte) : has (x ^^^ y) 0x01 = (has x 0x01 ^^ has y 0x01) := by
  rw [has_one, has_one, has_one, BitVec.getLsbD_xor]

theorem word_of_bytes (w : BitVec 16) : ((w >>> 8).setWidth 8 : Byte) ++ (w.setWidth 8 : Byte) = w := by
  apply BitVec.eq_of_getLsbD_eq
  intro i hi
  rw [BitVec.getLsbD_append, BitVec.getLsbD_setWidth, BitVec.getLsbD_setWidth, BitVec.getLsbD_ushiftRight]
  by_cases hlow : i < 8
  · rw [if_pos hlow, decide_eq_true hlow, Bool.true_and]
  · have hback : 8 + (i - 8) = i := by omega
    have hrest : i - 8 < 8 := by omega
    rw [if_neg hlow, decide_eq_true hrest, Bool.true_and, hback]

end PeepeeBox
