import Mathlib.Data.List.Basic
import Mathlib.Logic.Function.Iterate

set_option autoImplicit false

/-!
# Exclusive-or streams over a register that never sees the data

A register walks by `next` and masks one word per step.
-/
namespace PeepeeBox.MaskWalk

variable {σ : Type*} {w : ℕ}

structure Walk (σ : Type*) (w : ℕ) where
  next : σ → σ
  mask : σ → BitVec w

namespace Walk

variable (k : Walk σ w)

def cipher : σ → List (BitVec w) → List (BitVec w)
  | _, [] => []
  | s, x :: xs => (x ^^^ k.mask s) :: cipher (k.next s) xs

/-- The keystream itself, one word per step of the walk. -/
def stream (s : σ) (i : ℕ) : BitVec w := k.mask (k.next^[i] s)

@[simp] theorem cipher_nil (s : σ) : k.cipher s [] = [] := rfl

@[simp] theorem cipher_cons (s : σ) (x : BitVec w) (xs : List (BitVec w)) :
    k.cipher s (x :: xs) = (x ^^^ k.mask s) :: k.cipher (k.next s) xs := rfl

@[simp] theorem cipher_length (s : σ) (xs : List (BitVec w)) :
    (k.cipher s xs).length = xs.length := by
  induction xs generalizing s with
  | nil => rfl
  | cons x xs ih => simp [ih]

theorem cipher_append (s : σ) (xs ys : List (BitVec w)) :
    k.cipher s (xs ++ ys) = k.cipher s xs ++ k.cipher (k.next^[xs.length] s) ys := by
  induction xs generalizing s with
  | nil => rfl
  | cons x xs ih =>
    simp only [List.cons_append, cipher_cons, List.length_cons, Function.iterate_succ_apply]
    rw [ih]

theorem cipher_getElem? (s : σ) (xs : List (BitVec w)) (i : ℕ) :
    (k.cipher s xs)[i]? = xs[i]?.map (· ^^^ k.stream s i) := by
  induction xs generalizing s i with
  | nil => simp
  | cons x xs ih =>
    cases i with
    | zero => rfl
    | succ i =>
      simp only [cipher_cons, List.getElem?_cons_succ, stream, Function.iterate_succ_apply]
      exact ih (k.next s) i

theorem cipher_cipher (s : σ) (xs : List (BitVec w)) : k.cipher s (k.cipher s xs) = xs := by
  induction xs generalizing s with
  | nil => rfl
  | cons x xs ih =>
    simp only [cipher_cons, ih]
    rw [BitVec.xor_assoc, BitVec.xor_self, BitVec.xor_zero]

theorem fill_loop (src dst : ℕ → BitVec w) (s : σ) (n : ℕ) :
    (List.range n).foldl
      (fun p i => (Function.update p.1 i (src i ^^^ k.mask p.2), k.next p.2)) (dst, s) =
      (fun i => if i < n then src i ^^^ k.stream s i else dst i, k.next^[n] s) := by
  induction n with
  | zero => simp
  | succ n ih =>
    rw [List.range_succ, List.foldl_append, ih]
    simp only [List.foldl_cons, List.foldl_nil, Function.iterate_succ_apply', Prod.mk.injEq,
      and_true]
    funext i
    by_cases hn : i = n
    · subst hn
      simp [stream]
    · rw [Function.update_of_ne hn]
      have hc : i < n + 1 ↔ i < n := by omega
      simp only [hc]

end Walk

end PeepeeBox.MaskWalk
