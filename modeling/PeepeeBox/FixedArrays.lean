import Mathlib.Data.List.Basic
import Mathlib.Data.List.GetD

set_option autoImplicit false

/-!
# Rows written over rows

A row of values is laid over a longer one; an array of a fixed size takes only what fits in it.
-/
namespace PeepeeBox.FixedArrays

variable {α : Type}

def put (d : List α) (s : ℕ) (xs : List α) : List α := d.take s ++ xs ++ d.drop (s + xs.length)

theorem put_length {d xs : List α} {s : ℕ} (h : s + xs.length ≤ d.length) :
    (put d s xs).length = d.length := by
  simp [put]
  omega

theorem put_getD {d xs : List α} {s : ℕ} (h : s + xs.length ≤ d.length) (x : ℕ) (b : α) :
    (put d s xs).getD x b =
      if s ≤ x ∧ x < s + xs.length then xs.getD (x - s) b else d.getD x b := by
  have hs : (d.take s).length = s := by simp; omega
  unfold put
  by_cases hx : x < s
  · rw [if_neg (by omega), List.append_assoc, List.getD_append _ _ _ _ (by omega)]
    simp [List.getD_eq_getElem?_getD, hx]
  · rw [List.append_assoc, List.getD_append_right _ _ _ _ (by omega), hs]
    by_cases hxs : x < s + xs.length
    · rw [if_pos ⟨by omega, hxs⟩, List.getD_append _ _ _ _ (by omega)]
    · rw [if_neg (by omega), List.getD_append_right _ _ _ _ (by omega)]
      simp [List.getD_eq_getElem?_getD]
      rw [show s + xs.length + (x - s - xs.length) = x by omega]

theorem mem_put {d xs : List α} {s : ℕ} {x : α} (h : x ∈ xs) : x ∈ put d s xs := by
  simp [put, h]

theorem take_put {d xs : List α} {s : ℕ} (h : s + xs.length ≤ d.length) :
    (put d s xs).take (s + xs.length) = d.take s ++ xs := by
  have hlen : (d.take s ++ xs).length = s + xs.length := by
    simp
    omega
  unfold put
  rw [← hlen, List.take_left]

theorem eq_of_getD {xs ys : List α} (b : α) (hlen : xs.length = ys.length)
    (h : ∀ i < xs.length, xs.getD i b = ys.getD i b) : xs = ys := by
  refine List.ext_getElem hlen ?_
  intro i hi hi'
  have hget := h i hi
  rwa [List.getD_eq_getElem _ _ hi, List.getD_eq_getElem _ _ hi'] at hget

structure Arr (α : Type) (n : ℕ) where
  vals : List α
  size : vals.length = n

variable {n : ℕ}

namespace Arr

def fill (n : ℕ) (x : α) : Arr α n := ⟨List.replicate n x, List.length_replicate ..⟩

theorem put_size (a : Arr α n) {s : ℕ} {xs : List α} (h : s + xs.length ≤ n) :
    (put a.vals s xs).length = n := by
  rw [put_length (by rw [a.size]; exact h), a.size]

def store (a : Arr α n) (s : ℕ) (xs : List α) : Option (Arr α n) :=
  if h : s + xs.length ≤ n then some ⟨put a.vals s xs, a.put_size h⟩ else none

theorem store_fits (a : Arr α n) {s : ℕ} {xs : List α} (h : s + xs.length ≤ n) :
    a.store s xs = some ⟨put a.vals s xs, a.put_size h⟩ := dif_pos h

theorem store_none (a : Arr α n) {s : ℕ} {xs : List α} (h : n < s + xs.length) : a.store s xs = none :=
  dif_neg (Nat.not_le.mpr h)

end Arr

end PeepeeBox.FixedArrays
