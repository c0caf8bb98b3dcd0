import Mathlib.Data.List.Induction
import Mathlib.Data.Nat.ModEq
import Mathlib.Logic.Function.Basic
import PeepeeBox.HaspRecord

set_option autoImplicit false

/-!
# The byte queue

`fifo8.c`: a circular buffer of a capacity fixed at its creation.  The assertions are kept
as a record of whether each one held, so that the functions stay total, as they are in a
build without assertions.
-/
namespace PeepeeBox.ByteFifo

structure Fifo8 (capacity : ℕ) where
  data : ℕ → Byte
  head : ℕ
  num : ℕ
  /-- Every assertion met so far has held. -/
  asserted : Bool

variable {capacity : ℕ}

def fifo8Create (capacity : ℕ) : Fifo8 capacity :=
  { data := fun _ => 0, head := 0, num := 0, asserted := true }

def fifo8Reset (f : Fifo8 capacity) : Fifo8 capacity := { f with num := 0, head := 0 }

def fifo8Push (f : Fifo8 capacity) (x : Byte) : Fifo8 capacity :=
  { f with
    data := Function.update f.data ((f.head + f.num) % capacity) x
    num := f.num + 1
    asserted := f.asserted && decide (f.num < capacity) }

def fifo8PushAll (f : Fifo8 capacity) (xs : List Byte) : Fifo8 capacity :=
  let start := (f.head + f.num) % capacity
  let avail := capacity - start
  { f with
    data :=
      if start + xs.length ≤ capacity then HaspRecord.memcpy f.data start xs
      else HaspRecord.memcpy (HaspRecord.memcpy f.data start (xs.take avail)) 0 (xs.drop avail)
    num := f.num + xs.length
    asserted := f.asserted && decide (f.num + xs.length ≤ capacity) }

def fifo8Pop (f : Fifo8 capacity) : Fifo8 capacity × Byte :=
  ({ f with
      head := (f.head + 1) % capacity
      num := f.num - 1
      asserted := f.asserted && decide (0 < f.num) },
    f.data f.head)

def fifo8NumUsed (f : Fifo8 capacity) : ℕ := f.num

/-- The last `n` bytes pushed, oldest first. -/
def newest (f : Fifo8 capacity) (n : ℕ) : List Byte :=
  (List.range n).map fun i => f.data ((f.head + (f.num - n) + i) % capacity)

def pushes (f : Fifo8 capacity) (xs : List Byte) : Fifo8 capacity := xs.foldl fifo8Push f

theorem pushes_snoc (f : Fifo8 capacity) (xs : List Byte) (x : Byte) :
    pushes f (xs ++ [x]) = fifo8Push (pushes f xs) x := by
  unfold pushes
  rw [List.foldl_append]
  rfl

theorem pushes_cursors (f : Fifo8 capacity) (xs : List Byte) :
    (pushes f xs).head = f.head ∧ (pushes f xs).num = f.num + xs.length := by
  induction xs using List.reverseRecOn with
  | nil => exact ⟨rfl, rfl⟩
  | append_singleton xs x ih =>
    obtain ⟨hhead, hnum⟩ := ih
    rw [pushes_snoc, List.length_append]
    refine ⟨hhead, ?_⟩
    change (pushes f xs).num + 1 = _
    rw [hnum]
    rfl

theorem pushes_asserted (f : Fifo8 capacity) (xs : List Byte) (hfit : f.num ≤ capacity) :
    (pushes f xs).asserted = (f.asserted && decide (f.num + xs.length ≤ capacity)) := by
  induction xs using List.reverseRecOn with
  | nil =>
    have hnow : f.num + ([] : List Byte).length ≤ capacity := hfit
    rw [decide_eq_true hnow, Bool.and_true]
    rfl
  | append_singleton xs x ih =>
    have hlast : (decide (f.num + xs.length ≤ capacity) && decide (f.num + xs.length < capacity)) =
        decide (f.num + (xs ++ [x]).length ≤ capacity) := by
      rw [List.length_append, ← Bool.decide_and, decide_eq_decide]
      change _ ↔ f.num + (xs.length + 1) ≤ capacity
      omega
    rw [pushes_snoc]
    change ((pushes f xs).asserted && decide ((pushes f xs).num < capacity)) = _
    rw [ih, (pushes_cursors f xs).2, Bool.and_assoc, hlast]

theorem slot_ne (base len i : ℕ) (hi : i < len) (hlen : len < capacity) :
    (base + i) % capacity ≠ (base + len) % capacity := by
  intro hsame
  have hdvd := (Nat.modEq_iff_dvd' (show base + i ≤ base + len by omega)).mp hsame
  have hgap := Nat.le_of_dvd (by omega) hdvd
  omega

theorem newest_pushes (f : Fifo8 capacity) (xs : List Byte) (hlen : xs.length ≤ capacity) :
    newest (pushes f xs) xs.length = xs := by
  have hcells : ∀ i (hi : i < xs.length),
      (pushes f xs).data ((f.head + f.num + i) % capacity) = xs[i] := by
    induction xs using List.reverseRecOn with
    | nil => exact fun i hi => absurd hi (Nat.not_lt_zero i)
    | append_singleton xs x ih =>
      intro i hi
      have hlen' : xs.length < capacity := by
        rw [List.length_append] at hlen
        exact hlen
      obtain ⟨hhead, hnum⟩ := pushes_cursors f xs
      rw [pushes_snoc]
      change Function.update (pushes f xs).data (((pushes f xs).head + (pushes f xs).num) % capacity) x
        ((f.head + f.num + i) % capacity) = _
      rw [hhead, hnum, ← Nat.add_assoc]
      by_cases hold : i < xs.length
      · rw [Function.update_of_ne (slot_ne _ _ i hold hlen'), List.getElem_append_left hold]
        exact ih (Nat.le_of_lt hlen') i hold
      · have hi' : i = xs.length := by
          rw [List.length_append] at hi
          change i < xs.length + 1 at hi
          omega
        subst hi'
        rw [Function.update_self, List.getElem_append_right (Nat.le_refl _)]
        simp
  obtain ⟨hhead, hnum⟩ := pushes_cursors f xs
  unfold newest
  rw [hhead, hnum, Nat.add_sub_cancel]
  apply List.ext_getElem
  · simp
  · intro i h₁ h₂
    rw [List.getElem_map, List.getElem_range]
    exact hcells i h₂

end PeepeeBox.ByteFifo
