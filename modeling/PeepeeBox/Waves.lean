import Mathlib.Logic.Function.Iterate
import Mathlib.Tactic.SplitIfs

set_option autoImplicit false

/-!
# Two-level waves

A signal that holds each of its levels for a fixed time, as a machine that knows the level and how long it is still to
last; where the signal stands after any number of ticks; and machines that refine it.
-/
namespace PeepeeBox.Waves

structure Wave where
  level : Bool
  left : ℕ
deriving DecidableEq, Repr

namespace Wave

variable (half : Bool → ℕ)

/-- On the last tick of a level the other one begins. -/
def tick (w : Wave) : Wave := if w.left ≤ 1 then ⟨!w.level, half (!w.level)⟩ else ⟨w.level, w.left - 1⟩

/-- The wave at the start of a level. -/
def start (level : Bool) : Wave := ⟨level, half level⟩

theorem tick_turn {w : Wave} (h : w.left ≤ 1) : w.tick half = start half (!w.level) := if_pos h

theorem tick_hold {w : Wave} (h : 1 < w.left) : w.tick half = ⟨w.level, w.left - 1⟩ := if_neg (by omega)

theorem iterate_hold {w : Wave} {k : ℕ} (h : k < w.left) : (tick half)^[k] w = ⟨w.level, w.left - k⟩ := by
  induction k with
  | zero => rfl
  | succ k ih =>
    rw [Function.iterate_succ_apply', ih (by omega), tick_hold half (by change 1 < w.left - k; omega)]
    change Wave.mk w.level (w.left - k - 1) = _
    rw [Nat.sub_sub]

theorem iterate_turn {w : Wave} (h : 0 < w.left) : (tick half)^[w.left] w = start half (!w.level) := by
  obtain ⟨k, hk⟩ := Nat.exists_eq_succ_of_ne_zero (Nat.ne_of_gt h)
  rw [hk, Function.iterate_succ_apply', iterate_hold half (by omega)]
  exact tick_turn half (by change w.left - k ≤ 1; omega)

variable (hhigh : 0 < half true) (hlow : 0 < half false)
include hhigh hlow

theorem start_pos (level : Bool) : 0 < (start half level).left := by
  cases level with
  | false => exact hlow
  | true => exact hhigh

theorem iterate_period (level : Bool) :
    (tick half)^[half true + half false] (start half level) = start half level := by
  have hfirst := iterate_turn half (start_pos half hhigh hlow level)
  have hsecond := iterate_turn half (start_pos half hhigh hlow (!level))
  cases level with
  | true =>
    rw [Nat.add_comm, Function.iterate_add_apply]
    change (tick half)^[half false] ((tick half)^[(start half true).left] (start half true)) = _
    rw [hfirst]
    exact hsecond
  | false =>
    rw [Function.iterate_add_apply]
    change (tick half)^[half true] ((tick half)^[(start half false).left] (start half false)) = _
    rw [hfirst]
    exact hsecond

theorem iterate_mod (level : Bool) (k : ℕ) :
    (tick half)^[k] (start half level) = (tick half)^[k % (half true + half false)] (start half level) := by
  have hperiods (n : ℕ) : (tick half)^[(half true + half false) * n] (start half level) = start half level := by
    rw [Function.iterate_mul]
    exact Function.iterate_fixed (iterate_period half hhigh hlow level) n
  calc (tick half)^[k] (start half level)
      = (tick half)^[k % (half true + half false) + (half true + half false) * (k / (half true + half false))]
          (start half level) := by rw [Nat.mod_add_div]
    _ = (tick half)^[k % (half true + half false)] (start half level) := by
        rw [Function.iterate_add_apply, hperiods]

theorem level_iterate (level : Bool) (k : ℕ) :
    ((tick half)^[k] (start half level)).level =
      if k % (half true + half false) < half level then level else !level := by
  have hlength : half true + half false = half level + half (!level) := by
    cases level with
    | true => rfl
    | false => exact Nat.add_comm _ _
  have hother := start_pos half hhigh hlow (!level)
  have hless : k % (half true + half false) < half level + half (!level) := by
    rw [← hlength]
    exact Nat.mod_lt _ (by omega)
  rw [iterate_mod half hhigh hlow level k]
  generalize k % (half true + half false) = r at hless ⊢
  split_ifs with hr
  · rw [iterate_hold half hr]
    rfl
  · have hsplit : r = (r - half level) + half level := by omega
    have hturn := iterate_turn half (start_pos half hhigh hlow level)
    change (tick half)^[half level] (start half level) = start half (!level) at hturn
    rw [hsplit, Function.iterate_add_apply, hturn, iterate_hold half (by change r - half level < half (!level); omega)]
    rfl

/-- The level changes within the bound, and from the second change on it is the wave. -/
def Settles (bound : ℕ) (out : ℕ → Bool) : Prop :=
  ∃ first second, 0 < first ∧ first ≤ bound ∧ (∀ j, j < first → out j = out 0) ∧ out first = !out 0 ∧
    first < second ∧ (∀ j, first ≤ j → j < second → out j = out first) ∧ out second = !out first ∧
      ∀ j, out (second + j) = if j % (half true + half false) < half (out second) then out second else !out second

theorem settles {w : Wave} (hleft : 0 < w.left) {bound : ℕ} (hbound : w.left ≤ bound) {out : ℕ → Bool}
    (hout : ∀ j, out j = ((tick half)^[j] w).level) : Settles half bound out := by
  have hother := start_pos half hhigh hlow (!w.level)
  have hheld (j : ℕ) (hj : j < w.left) : out j = w.level := by
    rw [hout, iterate_hold half hj]
  have hfrom (j : ℕ) : out (w.left + j) = ((tick half)^[j] (start half (!w.level))).level := by
    rw [hout, Nat.add_comm, Function.iterate_add_apply, iterate_turn half hleft]
  have hnext (j : ℕ) (hj : j < half (!w.level)) : out (w.left + j) = !w.level := by
    rw [hfrom, iterate_hold half hj]
    rfl
  have hback (j : ℕ) : out (w.left + half (!w.level) + j) = ((tick half)^[j] (start half w.level)).level := by
    have hturn := iterate_turn half hother
    change (tick half)^[half (!w.level)] (start half (!w.level)) = start half (!!w.level) at hturn
    rw [Bool.not_not] at hturn
    rw [Nat.add_assoc, hfrom, Nat.add_comm, Function.iterate_add_apply, hturn]
  have hfirst : out w.left = !w.level := hnext 0 hother
  have hsecond : out (w.left + half (!w.level)) = w.level := hback 0
  refine ⟨w.left, w.left + half (!w.level), hleft, hbound, fun j hj => ?_, ?_, ?_, fun j hge hlt => ?_, ?_, fun j => ?_⟩
  · rw [hheld j hj, hheld 0 hleft]
  · rw [hfirst, hheld 0 hleft]
  · exact Nat.lt_add_of_pos_right hother
  · obtain ⟨i, rfl⟩ := Nat.exists_eq_add_of_le hge
    rw [hnext i (by omega), hfirst]
  · rw [hsecond, hfirst, Bool.not_not]
  · rw [hback, hsecond]
    exact level_iterate half hhigh hlow w.level j

end Wave

/-- `step` follows the wave wherever `inv` holds. -/
structure Refines {σ : Type*} (step : σ → σ) (inv : σ → Prop) (wave : σ → Wave) (half : Bool → ℕ) : Prop where
  keeps : ∀ s, inv s → inv (step s)
  follows : ∀ s, inv s → wave (step s) = (wave s).tick half

theorem Refines.iterate {σ : Type*} {step : σ → σ} {inv : σ → Prop} {wave : σ → Wave} {half : Bool → ℕ}
    (h : Refines step inv wave half) {s : σ} (hs : inv s) (k : ℕ) :
    inv (step^[k] s) ∧ wave (step^[k] s) = (Wave.tick half)^[k] (wave s) := by
  induction k with
  | zero => exact ⟨hs, rfl⟩
  | succ k ih =>
    obtain ⟨hinv, hwave⟩ := ih
    rw [Function.iterate_succ_apply', Function.iterate_succ_apply', ← hwave]
    exact ⟨h.keeps _ hinv, h.follows _ hinv⟩

end PeepeeBox.Waves
