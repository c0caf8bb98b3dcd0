import PeepeeBox.DumpSolver

set_option autoImplicit false

/-!
# How much of the register is used

The register is never cut.
-/
namespace PeepeeBox.RegisterWidth
open DumpSolver KeyedRound SoftPart

/-- The answers to bytes offered one after another; `view` is done to the register before each step. -/
def answers (part : Part) (view : BitVec 32 → BitVec 32) (t : Keyed) : List Byte → List Bool
  | [] => []
  | v :: vs =>
    let s := tStep part { t with cur := view t.cur } v
    s.2 :: answers part view s.1 vs

/-- `t_cur` cut to 11 bits. -/
def cut (cur : BitVec 32) : BitVec 32 := cur &&& 0x7FF

theorem cut_getLsbD (cur : BitVec 32) (i : ℕ) : (cut cur).getLsbD i = (cur.getLsbD i && decide (i < 11)) := by
  have hmask : (0x7FF : BitVec 32) = (BitVec.allOnes 11).setWidth 32 := by decide
  unfold cut
  rw [hmask, BitVec.getLsbD_and, BitVec.getLsbD_setWidth, BitVec.getLsbD_allOnes]
  by_cases hi : i < 11
  · simp [hi, Nat.lt_trans hi (by decide : 11 < 32)]
  · simp [hi]

theorem shifted_bit (x : BitVec 32) (n : ℕ) : (x >>> n).getLsbD 0 = x.getLsbD n := BitVec.getLsbD_ushiftRight ..

theorem modeTerm_bit {cur cur' : BitVec 32} (h : ∀ i < 11, cur.getLsbD i = cur'.getLsbD i) (mode : ℕ) (i5 : BitVec 32) :
    (tModeTerm mode cur i5).getLsbD 0 = (tModeTerm mode cur' i5).getLsbD 0 := by
  unfold tModeTerm
  dsimp only
  split
  · simp only [BitVec.getLsbD_and, shifted_bit, h 3 (by decide)]
  · rfl
  · simp only [BitVec.getLsbD_and, BitVec.getLsbD_xor, shifted_bit, h 0 (by decide), h 3 (by decide)]
  · simp only [BitVec.getLsbD_and, BitVec.getLsbD_xor, shifted_bit, h 6 (by decide)]
  · rfl

theorem consult_low {cur cur' : BitVec 32} (h : ∀ i < 11, cur.getLsbD i = cur'.getLsbD i) (key : BitVec 32) (mode : ℕ)
    (i5 : BitVec 32) :
    (∀ i < 11, (consult key mode cur i5).1.getLsbD i = (consult key mode cur' i5).1.getLsbD i) ∧
      (consult key mode cur i5).2 = (consult key mode cur' i5).2 := by
  constructor
  · intro i hi
    cases i with
    | zero =>
      unfold consult
      dsimp only
      rw [shiftIn_zero, shiftIn_zero, BitVec.getLsbD_xor, BitVec.getLsbD_xor, modeTerm_bit h, feedback_bit, feedback_bit,
        h 10 (by decide), h 7 (by decide), h 5 (by decide), h 8 (by decide)]
    | succ i => rw [consult_succ _ _ _ _ (by omega), consult_succ _ _ _ _ (by omega), h i (by omega)]
  · rw [consult_answer, consult_answer, h 10 (by decide)]

theorem answers_low (part : Part) (vals : List Byte) {t t' : Keyed} (hmode : t.mode = t'.mode)
    (h : ∀ i < 11, t.cur.getLsbD i = t'.cur.getLsbD i) : answers part cut t vals = answers part id t' vals := by
  induction vals generalizing t t' with
  | nil => rfl
  | cons v vals ih =>
    have hcut (i : ℕ) (hi : i < 11) : (cut t.cur).getLsbD i = t'.cur.getLsbD i := by
      rw [cut_getLsbD, decide_eq_true hi, Bool.and_true, h i hi]
    obtain ⟨hnext, hanswer⟩ := consult_low hcut part.tKey t'.mode (queryIndex v)
    have hhead : (tStep part { t with cur := cut t.cur } v).2 = (tStep part t' v).2 := by
      unfold tStep
      rw [hmode, registerStep_consult, registerStep_consult]
      exact hanswer
    have htail : answers part cut (tStep part { t with cur := cut t.cur } v).1 vals =
        answers part id (tStep part t' v).1 vals := by
      have hmode' : (tStep part { t with cur := cut t.cur } v).1.mode = (tStep part t' v).1.mode := hmode
      apply ih hmode'
      unfold tStep
      rw [hmode, registerStep_consult, registerStep_consult]
      exact hnext
    exact congrArg₂ List.cons hhead htail

theorem answers_modes (part : Part) (vals : List Byte) {t t' : Keyed} (n : ℕ)
    (h : ∀ i < 11, n ≤ i → t.cur.getLsbD i = t'.cur.getLsbD i) :
    (answers part id t vals).take (11 - n) = (answers part id t' vals).take (11 - n) := by
  induction vals generalizing t t' n with
  | nil => rfl
  | cons v vals ih =>
    rcases Nat.lt_or_ge n 11 with hn | hn
    · obtain ⟨m, hm⟩ : ∃ m, 11 - n = m + 1 := ⟨10 - n, by omega⟩
      have hrest : m = 11 - (n + 1) := by omega
      have hhead : (tStep part t v).2 = (tStep part t' v).2 := by
        unfold tStep
        rw [registerStep_consult, registerStep_consult]
        dsimp only
        rw [consult_answer, consult_answer, h 10 (by decide) (by omega)]
      have htail := @ih (tStep part t v).1 (tStep part t' v).1 (n + 1) (by
        intro i hi hni
        obtain ⟨j, rfl⟩ : ∃ j, i = j + 1 := ⟨i - 1, by omega⟩
        unfold tStep
        rw [registerStep_consult, registerStep_consult]
        dsimp only
        rw [consult_succ _ _ _ _ (by omega), consult_succ _ _ _ _ (by omega), h j (by omega) (by omega)])
      have hcons (t : Keyed) : answers part id t (v :: vals) = (tStep part t v).2 :: answers part id (tStep part t v).1 vals :=
        rfl
      rw [hm, hcons, hcons, List.take_succ_cons, List.take_succ_cons, hhead, hrest, htail]
    · rw [Nat.sub_eq_zero_of_le hn, List.take_zero, List.take_zero]

/-- Cutting the register to 11 bits before each step changes no answer, and two modes give the same first eleven. -/
theorem register_eleven (part : Part) (t : Keyed) (vals : List Byte) :
    answers part cut t vals = answers part id t vals ∧
      ∀ mode mode', (answers part id { t with mode := mode } vals).take 11 =
        (answers part id { t with mode := mode' } vals).take 11 := by
  refine ⟨answers_low part vals rfl fun _ _ => rfl, ?_⟩
  intro mode mode'
  have hmodes := @answers_modes part vals { t with mode := mode } { t with mode := mode' } 0 fun _ _ _ => rfl
  rw [Nat.sub_zero] at hmodes
  exact hmodes

end PeepeeBox.RegisterWidth
