import Mathlib.Tactic.SplitIfs
import PeepeeBox.Pit

set_option autoImplicit false

/-!
# Counts as numbers

The counting element holds a number in binary or in decimal digits.  Counting is arithmetic on that number.
-/
namespace PeepeeBox.PitCounts
open Pit

/-- How many counts bring the element back where it was. -/
def span (bcd : Bool) : ℕ := if bcd then 10000 else 0x10000

def digits (element : ℕ) : ℕ :=
  element % 0x10 + element / 0x10 % 0x10 * 10 + element / 0x100 % 0x10 * 100 + element / 0x1000 * 1000

def value (bcd : Bool) (element : ℕ) : ℕ :=
  if element = 0x10000 then span bcd else if bcd then digits element else element

@[simp] theorem value_binary {element : ℕ} (h : element < 0x10000) : value false element = element := by
  unfold value
  rw [if_neg (by omega)]
  rfl

@[simp] theorem value_decimal {element : ℕ} (h : element < 0x10000) : value true element = digits element := by
  unfold value
  rw [if_neg (by omega)]
  rfl

@[simp] theorem value_full (bcd : Bool) : value bcd 0x10000 = span bcd := if_pos rfl

theorem span_pos (bcd : Bool) : 10000 ≤ span bcd ∧ span bcd ≤ 0x10000 ∧ span bcd % 2 = 0 := by
  cases bcd <;> decide

theorem bcdDecrement_lt {element : ℕ} : bcdDecrement element < 0x10000 := by
  unfold bcdDecrement
  split_ifs <;> omega

theorem decremented_lt (bcd : Bool) (element : ℕ) : decremented bcd element < 0x10000 := by
  unfold decremented
  split_ifs
  · exact bcdDecrement_lt
  · omega
  · omega
  · omega

def spell (a b c d : ℕ) : ℕ := a + b * 0x10 + c * 0x100 + d * 0x1000

theorem spell_digits (element : ℕ) :
    ∃ a b c d, a < 0x10 ∧ b < 0x10 ∧ c < 0x10 ∧ element = spell a b c d := by
  refine ⟨element % 0x10, element / 0x10 % 0x10, element / 0x10 / 0x10 % 0x10, element / 0x10 / 0x10 / 0x10, ?_, ?_,
    ?_, ?_⟩
  · omega
  · omega
  · omega
  · unfold spell
    omega

section
variable {a b c d : ℕ} (ha : a < 0x10) (hb : b < 0x10) (hc : c < 0x10)
include ha hb hc

theorem spell_places : spell a b c d % 0x10 = a ∧ spell a b c d / 0x10 % 0x10 = b ∧ spell a b c d / 0x100 % 0x10 = c ∧
    spell a b c d / 0x1000 = d := by
  unfold spell
  refine ⟨?_, ?_, ?_, ?_⟩
  · omega
  · omega
  · omega
  · omega

theorem digits_spell : digits (spell a b c d) = a + b * 10 + c * 100 + d * 1000 := by
  obtain ⟨h0, h1, h2, h3⟩ := spell_places (d := d) ha hb hc
  unfold digits
  rw [h0, h1, h2, h3]

end

theorem digits_bcdDecrement {element : ℕ} (h : element < 0x10000) :
    digits (bcdDecrement element) = if digits element = 0 then 9999 else digits element - 1 := by
  obtain ⟨a, b, c, d, ha, hb, hc, rfl⟩ := spell_digits element
  obtain ⟨h0, h1, h2, -⟩ := spell_places (d := d) ha hb hc
  rw [digits_spell ha hb hc]
  unfold bcdDecrement
  rw [h0, h1, h2]
  have hmod (k : ℕ) : (spell a b c d - k) % 0x10000 = spell a b c d - k := Nat.mod_eq_of_lt (by omega)
  rw [hmod, hmod, hmod, hmod]
  unfold spell at h ⊢
  have nine : (9 : ℕ) < 0x10 := by decide
  split_ifs with hzero htop ha0 ha0' hb0 hb0' hc0 hc0'
  · rfl
  · omega
  · omega
  · have hnext : a + b * 0x10 + c * 0x100 + d * 0x1000 - 1 = spell (a - 1) b c d := by
      unfold spell
      omega
    rw [hnext, digits_spell (by omega) hb hc]
    omega
  · omega
  · have hnext : a + b * 0x10 + c * 0x100 + d * 0x1000 - 0x07 = spell 9 (b - 1) c d := by
      unfold spell
      omega
    rw [hnext, digits_spell nine (by omega) hc]
    omega
  · omega
  · have hnext : a + b * 0x10 + c * 0x100 + d * 0x1000 - 0x67 = spell 9 9 (c - 1) d := by
      unfold spell
      omega
    rw [hnext, digits_spell nine nine (by omega)]
    omega
  · omega
  · have hnext : a + b * 0x10 + c * 0x100 + d * 0x1000 - 0x667 = spell 9 9 9 (d - 1) := by
      unfold spell
      omega
    rw [hnext, digits_spell nine nine nine]
    omega

theorem value_decremented (bcd : Bool) {element : ℕ} (h : element ≤ 0x10000) :
    value bcd (decremented bcd element) = if value bcd element = 0 then span bcd - 1 else value bcd element - 1 := by
  rcases Nat.eq_or_lt_of_le h with rfl | hlt
  · cases bcd <;> rfl
  · have hless := decremented_lt bcd element
    cases bcd with
    | false =>
      rw [value_binary hless, value_binary hlt]
      unfold decremented span
      simp only [Bool.false_eq_true, if_false]
      split_ifs <;> omega
    | true =>
      rw [value_decimal hless, value_decimal hlt]
      exact digits_bcdDecrement hlt

theorem value_zero (bcd : Bool) {element : ℕ} (h : element < 0x10000) : value bcd element = 0 ↔ element = 0 := by
  cases bcd with
  | false => rw [value_binary h]
  | true =>
    obtain ⟨a, b, c, d, ha, hb, hc, rfl⟩ := spell_digits element
    rw [value_decimal h, digits_spell ha hb hc]
    unfold spell
    omega

theorem value_one (bcd : Bool) {element : ℕ} (h : element < 0x10000) : value bcd element = 1 ↔ element = 1 := by
  cases bcd with
  | false => rw [value_binary h]
  | true =>
    obtain ⟨a, b, c, d, ha, hb, hc, rfl⟩ := spell_digits element
    rw [value_decimal h, digits_spell ha hb hc]
    unfold spell
    omega

theorem value_parity (bcd : Bool) {element : ℕ} (h : element ≤ 0x10000) : value bcd element % 2 = element % 2 := by
  rcases Nat.eq_or_lt_of_le h with rfl | hlt
  · cases bcd <;> rfl
  · cases bcd with
    | false => rw [value_binary hlt]
    | true =>
      rw [value_decimal hlt]
      unfold digits
      omega

theorem value_le (bcd : Bool) {element : ℕ} (h : element ≤ 0x10000) : value bcd element ≤ 0x10000 := by
  rcases Nat.eq_or_lt_of_le h with rfl | hlt
  · rw [value_full]
    exact (span_pos bcd).2.1
  · cases bcd with
    | false =>
      rw [value_binary hlt]
      omega
    | true =>
      rw [value_decimal hlt]
      unfold digits
      omega

theorem value_evenPart (bcd : Bool) {element : ℕ} (h : element < 0x10000) (hodd : element % 2 = 1) :
    value bcd (evenPart element) = value bcd element - 1 := by
  have heven : evenPart element = element - 1 := by
    unfold evenPart
    omega
  rw [heven]
  cases bcd with
  | false => rw [value_binary h, value_binary (by omega)]
  | true =>
    rw [value_decimal h, value_decimal (by omega)]
    unfold digits
    omega

theorem visibleCount_lt {element : ℕ} (h : element < 0x10000) : visibleCount element = element := by
  unfold visibleCount
  rw [if_neg (by omega), Nat.mod_eq_of_lt h]

theorem value_visible (bcd : Bool) {element : ℕ} (h : element ≤ 0x10000) :
    value bcd (visibleCount element) ≤ value bcd element := by
  rcases Nat.eq_or_lt_of_le h with rfl | hlt
  · cases bcd <;> decide
  · exact Nat.le_of_eq (by rw [visibleCount_lt hlt])

end PeepeeBox.PitCounts
