import Mathlib.Data.Int.Notation
import Mathlib.Data.List.Basic
import PeepeeBox.Bytes

set_option autoImplicit false

/-!
# Pointers into a C string

A pointer is the list of bytes from it to the terminating NUL, or a place beyond the
terminator, where reading is a fault.
-/
namespace PeepeeBox.CString

/-- What ends a C program's good behaviour: a read beyond the terminator, an index outside
    its array, or a loop that goes on for longer than its caller granted. -/
inductive Fault where
  | overread
  | index (i : ℤ)
  | running
deriving DecidableEq, Repr

inductive Cursor where
  | inside (rest : List Byte)
  | beyond
deriving DecidableEq, Repr

/-- The bytes up to the first NUL. -/
def cstr (buf : List Byte) : List Byte := buf.takeWhile fun c => c ≠ 0

namespace Cursor

/-- `*p` -/
def read : Cursor → Except Fault Byte
  | inside [] => .ok 0
  | inside (c :: _) => .ok c
  | beyond => .error .overread

/-- `p++` -/
def next : Cursor → Cursor
  | inside (_ :: rest) => inside rest
  | _ => beyond

def skipFrom (keep : Byte → Bool) : List Byte → Except Fault Cursor
  | [] => if keep 0 then .error .overread else .ok (inside [])
  | c :: rest => if keep c then skipFrom keep rest else .ok (inside (c :: rest))

/-- `while (keep(*p)) p++;` -/
def skip (keep : Byte → Bool) : Cursor → Except Fault Cursor
  | inside rest => skipFrom keep rest
  | beyond => .error .overread

def collectFrom (keep pick : Byte → Bool) : List Byte → ℕ → Except Fault (List Byte × Cursor)
  | [], _ => if keep 0 then .error .overread else .ok ([], inside [])
  | c :: rest, 0 => .ok ([], inside (c :: rest))
  | c :: rest, n + 1 =>
    if keep c then
      if pick c then (collectFrom keep pick rest n).map fun r => (c :: r.1, r.2)
      else collectFrom keep pick rest (n + 1)
    else .ok ([], inside (c :: rest))

/-- `while (keep(*p) && n < max) { c = *p++; if (pick(c)) buf[n++] = c; }` -/
def collect (keep pick : Byte → Bool) (max : ℕ) : Cursor → Except Fault (List Byte × Cursor)
  | inside rest => collectFrom keep pick rest max
  | beyond => .error .overread

def left : Cursor → ℕ
  | inside rest => rest.length
  | beyond => 0

end Cursor

@[simp] theorem ok_bind {α β : Type} (x : α) (f : α → Except Fault β) :
    (Except.ok x >>= f) = f x := rfl

def Every {α : Type} (P : α → Prop) (r : Except Fault α) : Prop := ∀ a, r = .ok a → P a

theorem Every.ok {α : Type} {P : α → Prop} {a : α} (h : P a) : Every P (.ok a) := by
  rintro b ⟨rfl⟩
  exact h

theorem Every.bind {α β : Type} {P : β → Prop} {x : Except Fault α} {f : α → Except Fault β}
    (h : ∀ a, Every P (f a)) : Every P (x >>= f) := by
  cases x with
  | error fault => exact fun _ h => (nomatch h)
  | ok a => exact h a

theorem Every.ite {α : Type} {P : α → Prop} {q : Prop} [Decidable q] {r r' : Except Fault α}
    (h : Every P r) (h' : Every P r') : Every P (if q then r else r') := by
  split
  · exact h
  · exact h'

variable {keep pick : Byte → Bool}

variable (keep) in
theorem skip_all (hstop : keep 0 = false) (rest : List Byte) :
    Cursor.skip keep (.inside rest) = .ok (.inside (rest.dropWhile keep)) := by
  change Cursor.skipFrom keep rest = _
  induction rest with
  | nil =>
    unfold Cursor.skipFrom
    rw [hstop]
    rfl
  | cons c rest ih =>
    unfold Cursor.skipFrom
    by_cases hc : keep c = true
    · rw [if_pos hc, ih, List.dropWhile_cons_of_pos hc]
    · rw [if_neg hc, List.dropWhile_cons_of_neg hc]

theorem step_inside (q : Byte → Prop) [DecidablePred q] (hstop : ¬ q 0) (rest : List Byte) :
    ∃ c tail, Cursor.read (.inside rest) = .ok c ∧
      (if q c then (Cursor.inside rest).next else .inside rest) = .inside tail ∧ tail <:+ rest := by
  cases rest with
  | nil => exact ⟨0, [], rfl, if_neg hstop, List.suffix_refl []⟩
  | cons c rest =>
    by_cases hc : q c
    · exact ⟨c, rest, rfl, if_pos hc, List.suffix_cons c rest⟩
    · exact ⟨c, c :: rest, rfl, if_neg hc, List.suffix_refl _⟩

variable (keep pick) in
theorem collect_inside (hstop : keep 0 = false) (rest : List Byte) (max : ℕ) :
    ∃ buf tail, Cursor.collect keep pick max (.inside rest) = .ok (buf, .inside tail) ∧
      tail <:+ rest := by
  change ∃ buf tail, Cursor.collectFrom keep pick rest max = .ok (buf, .inside tail) ∧ tail <:+ rest
  induction rest generalizing max with
  | nil =>
    refine ⟨[], [], ?_, List.suffix_refl []⟩
    unfold Cursor.collectFrom
    rw [hstop]
    rfl
  | cons c rest ih =>
    cases max with
    | zero => exact ⟨[], c :: rest, rfl, List.suffix_refl _⟩
    | succ max =>
      unfold Cursor.collectFrom
      by_cases hc : keep c = true
      · rw [if_pos hc]
        by_cases hpick : pick c = true
        · obtain ⟨buf, tail, hrun, hsuffix⟩ := ih max
          refine ⟨c :: buf, tail, ?_, hsuffix.trans (List.suffix_cons c rest)⟩
          rw [if_pos hpick, hrun]
          rfl
        · obtain ⟨buf, tail, hrun, hsuffix⟩ := ih (max + 1)
          exact ⟨buf, tail, by rw [if_neg hpick, hrun], hsuffix.trans (List.suffix_cons c rest)⟩
      · exact ⟨[], c :: rest, by rw [if_neg hc], List.suffix_refl _⟩

variable (keep) in
theorem collect_all (hstop : keep 0 = false) (rest : List Byte) :
    Cursor.collect keep (fun _ => true) rest.length (.inside rest) =
      .ok (rest.takeWhile keep, .inside (rest.dropWhile keep)) := by
  change Cursor.collectFrom keep (fun _ => true) rest rest.length = _
  induction rest with
  | nil =>
    unfold Cursor.collectFrom
    rw [hstop]
    rfl
  | cons c rest ih =>
    rw [List.length_cons]
    unfold Cursor.collectFrom
    by_cases hc : keep c = true
    · rw [if_pos hc, if_pos rfl, ih, List.takeWhile_cons_of_pos hc, List.dropWhile_cons_of_pos hc]
      rfl
    · rw [if_neg hc, List.takeWhile_cons_of_neg hc, List.dropWhile_cons_of_neg hc]

end PeepeeBox.CString
