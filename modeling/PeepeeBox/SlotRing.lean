import Mathlib.Data.List.Basic
import Mathlib.Logic.Function.Basic

set_option autoImplicit false

/-!
# Rings of slots

A ring that hands a value over for the one its slot holds, so that no slot is ever without one.
-/
namespace PeepeeBox.SlotRing

structure Ring (α : Type) where
  slots : ℕ → α
  head : ℕ
  tail : ℕ

variable {α : Type} (n : ℕ)

def next (i : ℕ) : ℕ := (i + 1) % n

def full (r : Ring α) : Bool := decide (next n r.head = r.tail)

def empty (r : Ring α) : Bool := decide (r.head = r.tail)

/-- Put `x` in and give the slot's old value back. -/
def put (r : Ring α) (x : α) : Ring α × α :=
  ({ r with slots := Function.update r.slots r.head x, head := next n r.head }, r.slots r.head)

/-- Take the oldest value and leave `y` in its slot. -/
def get (r : Ring α) (y : α) : Ring α × α :=
  ({ r with slots := Function.update r.slots r.tail y, tail := next n r.tail }, r.slots r.tail)

def used (r : Ring α) : ℕ := (r.head + n - r.tail) % n

/-- The values, the oldest first. -/
def contents (r : Ring α) : List α := (List.range (used n r)).map fun i => r.slots ((r.tail + i) % n)

structure Within (r : Ring α) : Prop where
  head : r.head < n
  tail : r.tail < n

variable {n}

theorem within_put {r : Ring α} (h : Within n r) (x : α) : Within n (put n r x).1 :=
  ⟨Nat.mod_lt _ (Nat.zero_lt_of_lt h.head), h.tail⟩

theorem within_get {r : Ring α} (h : Within n r) (y : α) : Within n (get n r y).1 :=
  ⟨h.head, Nat.mod_lt _ (Nat.zero_lt_of_lt h.head)⟩

theorem next_eq {i : ℕ} (h : i < n) : next n i = if i + 1 = n then 0 else i + 1 := by
  unfold next
  split
  · rename_i hlast
    rw [hlast, Nat.mod_self]
  · exact Nat.mod_eq_of_lt (by omega)

theorem used_eq {r : Ring α} (h : Within n r) :
    used n r = if r.tail ≤ r.head then r.head - r.tail else r.head + n - r.tail := by
  obtain ⟨hhead, htail⟩ := h
  unfold used
  split
  · rw [show r.head + n - r.tail = r.head - r.tail + n by omega, Nat.add_mod_right]
    exact Nat.mod_eq_of_lt (by omega)
  · exact Nat.mod_eq_of_lt (by omega)

theorem used_put {r : Ring α} (h : Within n r) (hroom : full n r = false) (x : α) :
    used n (put n r x).1 = used n r + 1 := by
  have hnext := next_eq h.head
  unfold full at hroom
  rw [decide_eq_false_iff_not, hnext] at hroom
  rw [used_eq (within_put h x), used_eq h]
  change (if r.tail ≤ next n r.head then next n r.head - r.tail else next n r.head + n - r.tail) = _
  rw [hnext]
  obtain ⟨hhead, htail⟩ := h
  split_ifs at hroom ⊢ <;> omega

theorem used_get {r : Ring α} (h : Within n r) (hany : empty r = false) (y : α) :
    used n r = used n (get n r y).1 + 1 := by
  have hnext := next_eq h.tail
  unfold empty at hany
  rw [decide_eq_false_iff_not] at hany
  rw [used_eq (within_get h y), used_eq h]
  change _ = (if next n r.tail ≤ r.head then r.head - next n r.tail else r.head + n - next n r.tail) + 1
  rw [hnext]
  obtain ⟨hhead, htail⟩ := h
  split_ifs <;> omega

theorem full_eq {r : Ring α} (h : Within n r) : full n r = decide (used n r + 1 = n) := by
  unfold full
  rw [used_eq h, next_eq h.head]
  obtain ⟨hhead, htail⟩ := h
  apply decide_eq_decide.mpr
  split_ifs <;> omega

theorem slot_ne_head {r : Ring α} (h : Within n r) {i : ℕ} (hi : i < used n r) : (r.tail + i) % n ≠ r.head := by
  rw [used_eq h] at hi
  obtain ⟨hhead, htail⟩ := h
  by_cases hwrap : r.tail + i < n
  · rw [Nat.mod_eq_of_lt hwrap]
    split_ifs at hi <;> omega
  · rw [show r.tail + i = r.tail + i - n + n by omega, Nat.add_mod_right]
    rw [Nat.mod_eq_of_lt (by split_ifs at hi <;> omega)]
    split_ifs at hi <;> omega

theorem tail_used {r : Ring α} (h : Within n r) : (r.tail + used n r) % n = r.head := by
  rw [used_eq h]
  obtain ⟨hhead, htail⟩ := h
  split_ifs
  · rw [show r.tail + (r.head - r.tail) = r.head by omega, Nat.mod_eq_of_lt hhead]
  · rw [show r.tail + (r.head + n - r.tail) = r.head + n by omega, Nat.add_mod_right, Nat.mod_eq_of_lt hhead]

theorem contents_put {r : Ring α} (h : Within n r) (hroom : full n r = false) (x : α) :
    contents n (put n r x).1 = contents n r ++ [x] := by
  unfold contents
  rw [used_put h hroom, List.range_succ, List.map_append]
  have hlast : ((put n r x).1.tail + used n r) % n = r.head := tail_used h
  congr 1
  · refine List.map_congr_left fun i hi => ?_
    exact Function.update_of_ne (slot_ne_head h (List.mem_range.mp hi)) x r.slots
  · rw [List.map_singleton, hlast]
    simp [put]

theorem used_lt {r : Ring α} (h : Within n r) : used n r < n := Nat.mod_lt _ (Nat.zero_lt_of_lt h.head)

theorem slot_next (r : Ring α) (i : ℕ) : (next n r.tail + i) % n = (r.tail + (i + 1)) % n := by
  unfold next
  rw [Nat.mod_add_mod, Nat.add_right_comm, Nat.add_assoc]

theorem slot_ne_tail {r : Ring α} (h : Within n r) {i : ℕ} (hi : i + 1 < n) : (r.tail + (i + 1)) % n ≠ r.tail := by
  obtain ⟨-, htail⟩ := h
  by_cases hwrap : r.tail + (i + 1) < n
  · rw [Nat.mod_eq_of_lt hwrap]
    omega
  · rw [show r.tail + (i + 1) = r.tail + (i + 1) - n + n by omega, Nat.add_mod_right, Nat.mod_eq_of_lt (by omega)]
    omega

theorem contents_get {r : Ring α} (h : Within n r) (hany : empty r = false) (y : α) :
    contents n r = (get n r y).2 :: contents n (get n r y).1 := by
  have hused := used_get h hany y
  have hlt := used_lt h
  unfold contents
  rw [hused, List.range_succ_eq_map, List.map_cons, List.map_map]
  congr 1
  · rw [Nat.add_zero, Nat.mod_eq_of_lt h.tail]
    rfl
  · refine List.map_congr_left fun i hi => ?_
    have hi' := List.mem_range.mp hi
    change r.slots ((r.tail + (i + 1)) % n) = Function.update r.slots r.tail y ((next n r.tail + i) % n)
    rw [slot_next, Function.update_of_ne (slot_ne_tail h (by omega))]

theorem contents_empty {r : Ring α} (h : Within n r) (hempty : empty r = true) : contents n r = [] := by
  unfold empty at hempty
  rw [decide_eq_true_iff] at hempty
  unfold contents
  rw [used_eq h, hempty, if_pos (Nat.le_refl _), Nat.sub_self]
  rfl

theorem contents_ne_nil {r : Ring α} (h : Within n r) (hany : empty r = false) : contents n r ≠ [] := by
  rw [contents_get h hany (r.slots r.tail)]
  exact List.cons_ne_nil _ _

theorem slots_put {r : Ring α} {P : α → Prop} (h : ∀ i, P (r.slots i)) {x : α} (hx : P x) :
    (∀ i, P ((put n r x).1.slots i)) ∧ P (put n r x).2 := by
  refine ⟨fun i => ?_, h r.head⟩
  by_cases hi : i = r.head
  · simpa [put, hi] using hx
  · simpa [put, hi] using h i

theorem slots_get {r : Ring α} {P : α → Prop} (h : ∀ i, P (r.slots i)) {y : α} (hy : P y) :
    (∀ i, P ((get n r y).1.slots i)) ∧ P (get n r y).2 := by
  refine ⟨fun i => ?_, h r.tail⟩
  by_cases hi : i = r.tail
  · simpa [get, hi] using hy
  · simpa [get, hi] using h i

end PeepeeBox.SlotRing
