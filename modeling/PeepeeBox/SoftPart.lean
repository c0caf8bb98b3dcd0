import Mathlib.Data.Nat.Find
import PeepeeBox.KeyedRound

set_option autoImplicit false

/-!
# The part in software

`softpart.py` answers a keyed round without a part.
-/
namespace PeepeeBox.SoftPart
open KeyedRound

def poly : BitVec 32 := 0x80500062

def keyedLoop (key : BitVec 32) : ℕ → BitVec 32 → BitVec 32 → BitVec 32 → BitVec 32
  | 0, _, data, _ => data
  | n + 1, index, data, cur =>
    let i5 := data >>> (8 * index) &&& 0x1F
    let st := key >>> i5 &&& 1
    let b0 := i5 ^^^ ((st ^^^ 1) &&& i5 >>> 3) ^^^ i5 >>> 4
    let b0 := b0 ^^^ cur >>> 10
    let b0 := b0 ^^^ cur >>> 7
    let b0 := if i5 &&& 2 ≠ 0 then b0 ^^^ cur >>> 5 else b0
    let b0 := if i5 &&& 4 ≠ 0 then b0 ^^^ cur >>> 8 else b0
    let cur := (cur ^^^ (i5 &&& 1) <<< 2) <<< 1 ||| (b0 &&& 1)
    let ans := (cur >>> 11 ^^^ st) &&& 1
    let index := (data &&& 1) <<< 1 ||| ans
    let data := if data &&& 1 = ans then data >>> 1 else data >>> 1 ^^^ poly
    keyedLoop key n index data cur

/-- What the part returns for `data`. -/
def keyedRound (data key cur : BitVec 32) : BitVec 32 := keyedLoop key 39 0 data cur

structure Walk where
  index : BitVec 32
  data : BitVec 32
  cur : BitVec 32
  deriving DecidableEq

def Walk.offered (w : Walk) : BitVec 32 := w.data >>> (8 * w.index) &&& 0x1F

/-- The feedback bit without a term, in bit 0. -/
def feedback (key cur i5 : BitVec 32) : BitVec 32 :=
  let st := key >>> i5 &&& 1
  let b0 := i5 ^^^ ((st ^^^ 1) &&& i5 >>> 3) ^^^ i5 >>> 4
  let b0 := b0 ^^^ cur >>> 10
  let b0 := b0 ^^^ cur >>> 7
  let b0 := if i5 &&& 2 ≠ 0 then b0 ^^^ cur >>> 5 else b0
  if i5 &&& 4 ≠ 0 then b0 ^^^ cur >>> 8 else b0

def shiftIn (cur i5 b0 : BitVec 32) : BitVec 32 := (cur ^^^ (i5 &&& 1) <<< 2) <<< 1 ||| (b0 &&& 1)

def answer (key cur' i5 : BitVec 32) : BitVec 32 := (cur' >>> 11 ^^^ (key >>> i5 &&& 1)) &&& 1

def consult (key : BitVec 32) (mode : ℕ) (cur i5 : BitVec 32) : BitVec 32 × Bool :=
  let cur' := shiftIn cur i5 (feedback key cur i5 ^^^ tModeTerm mode cur i5)
  (cur', answer key cur' i5 ≠ 0)

theorem registerStep_consult (key : BitVec 32) (mode : ℕ) (cur : BitVec 32) (val : Byte) :
    registerStep key mode cur val = consult key mode cur (queryIndex val) := rfl

def shift (index data : BitVec 32) : BitVec 32 :=
  if (index ^^^ data) &&& 1 ≠ 0 then data >>> 1 ^^^ poly else data >>> 1

def bit (b : Bool) : BitVec 32 := if b then 1 else 0

def nextIndex (ans : Bool) (data : BitVec 32) : BitVec 32 := bit ans ||| (data &&& 1) <<< 1

def Walk.step (key : BitVec 32) (mode : ℕ) (w : Walk) : Walk :=
  let r := consult key mode w.cur w.offered
  { index := nextIndex r.2 w.data
    data := shift (nextIndex r.2 w.data) w.data
    cur := r.1 }

def walk (key : BitVec 32) (mode : ℕ) : ℕ → Walk → Walk
  | 0, w => w
  | n + 1, w => (walk key mode n w).step key mode

theorem walk_succ (key : BitVec 32) (mode n : ℕ) (w : Walk) :
    walk key mode (n + 1) w = walk key mode n (w.step key mode) := by
  induction n with
  | zero => rfl
  | succ n ih => exact congrArg (Walk.step key mode) ih

/-- The first of the forty questions. -/
def begin (cur data : BitVec 32) : Walk where
  index := 0
  data := data
  cur := cur

theorem low_bit (x : BitVec 32) : x &&& 1 = bit (x.getLsbD 0) := by
  change x &&& 1#32 = _
  rw [BitVec.and_one_eq_setWidth_ofBool_getLsbD]
  cases x.getLsbD 0 <;> rfl

theorem bit_inj {a b : Bool} (h : bit a = bit b) : a = b := by
  cases a <;> cases b <;> first | rfl | cases h

theorem bit_ne_zero (b : Bool) : bit b ≠ 0 ↔ b = true := by
  cases b <;> decide

theorem bit_and (x : BitVec 32) : bit (decide (x &&& 1 ≠ 0)) = x &&& 1 := by
  rw [low_bit]
  cases x.getLsbD 0 <;> rfl

theorem nextIndex_low (ans : Bool) (data : BitVec 32) : (nextIndex ans data).getLsbD 0 = ans := by
  unfold nextIndex
  rw [low_bit, BitVec.getLsbD_or]
  cases ans <;> cases data.getLsbD 0 <;> rfl

theorem shift_nextIndex (ans : Bool) (data : BitVec 32) :
    shift (nextIndex ans data) data = if data.getLsbD 0 = ans then data >>> 1 else data >>> 1 ^^^ poly := by
  have hbit : ((nextIndex ans data ^^^ data) &&& 1 ≠ 0) ↔ ¬ data.getLsbD 0 = ans := by
    rw [low_bit, bit_ne_zero, BitVec.getLsbD_xor, nextIndex_low]
    cases ans <;> cases data.getLsbD 0 <;> decide
  unfold shift
  by_cases h : data.getLsbD 0 = ans
  · rw [if_pos h, if_neg (fun hb => hbit.mp hb h)]
  · rw [if_neg h, if_pos (hbit.mpr h)]

theorem keyedLoop_walk (key : BitVec 32) (n : ℕ) (w : Walk) :
    keyedLoop key n w.index w.data w.cur = (walk key 0 n w).data := by
  induction n generalizing w with
  | zero => rfl
  | succ n ih =>
    have hloop : keyedLoop key (n + 1) w.index w.data w.cur =
        (let cur := shiftIn w.cur w.offered (feedback key w.cur w.offered)
        let ans := answer key cur w.offered
        keyedLoop key n ((w.data &&& 1) <<< 1 ||| ans)
          (if w.data &&& 1 = ans then w.data >>> 1 else w.data >>> 1 ^^^ poly) cur) := rfl
    have hterm : feedback key w.cur w.offered ^^^ tModeTerm 0 w.cur w.offered = feedback key w.cur w.offered :=
      BitVec.xor_zero
    have hstep : Walk.step key 0 w =
        (let cur := shiftIn w.cur w.offered (feedback key w.cur w.offered ^^^ tModeTerm 0 w.cur w.offered)
        let ans := decide (answer key cur w.offered ≠ 0)
        { index := nextIndex ans w.data, data := shift (nextIndex ans w.data) w.data, cur := cur }) := rfl
    rw [walk_succ, ← ih, hloop, hstep, hterm]
    dsimp only
    generalize shiftIn w.cur w.offered (feedback key w.cur w.offered) = cur
    unfold answer
    generalize cur >>> 11 ^^^ (key >>> w.offered &&& 1) = x
    have hdata : (w.data &&& 1 = x &&& 1) ↔ w.data.getLsbD 0 = decide (x &&& 1 ≠ 0) := by
      constructor
      · intro h
        rw [low_bit w.data, ← bit_and x] at h
        exact bit_inj h
      · intro h
        rw [low_bit w.data, h, bit_and]
    rw [shift_nextIndex]
    unfold nextIndex
    rw [bit_and, BitVec.or_comm]
    by_cases h : w.data &&& 1 = x &&& 1
    · rw [if_pos h, if_pos (hdata.mp h)]
    · rw [if_neg h, if_neg (fun hb => h (hdata.mpr hb))]

theorem keyedRound_walk (data key cur : BitVec 32) : keyedRound data key cur = (walk key 0 39 (begin cur data)).data :=
  keyedLoop_walk key 39 (begin cur data)

theorem term_bit (mode : ℕ) (cur i5 : BitVec 32) : tModeTerm mode cur i5 = 0 ∨ tModeTerm mode cur i5 = 1 := by
  have hbit (b : Bool) : bit b = 0 ∨ bit b = 1 := by
    cases b
    · exact Or.inl rfl
    · exact Or.inr rfl
  have hparity (x : BitVec 32) : 1 ^^^ (x &&& 1) = 0 ∨ 1 ^^^ (x &&& 1) = 1 := by
    rw [low_bit]
    cases x.getLsbD 0
    · exact Or.inr rfl
    · exact Or.inl rfl
  unfold tModeTerm
  dsimp only
  split
  · rw [low_bit]
    exact hbit _
  · exact hparity _
  · rw [low_bit]
    exact hbit _
  · rw [low_bit]
    exact hbit _
  · exact Or.inl rfl

theorem shiftIn_zero (cur i5 b0 : BitVec 32) : (shiftIn cur i5 b0).getLsbD 0 = b0.getLsbD 0 := by
  unfold shiftIn
  rw [BitVec.getLsbD_or, BitVec.getLsbD_shiftLeft, low_bit b0]
  cases b0.getLsbD 0 <;> simp [bit]

theorem shiftIn_succ (cur i5 b0 : BitVec 32) {i : ℕ} (hi : i + 1 < 32) :
    (shiftIn cur i5 b0).getLsbD (i + 1) = (cur.getLsbD i ^^ ((i5 &&& 1) <<< 2).getLsbD i) := by
  have hlow : (b0 &&& 1).getLsbD (i + 1) = false := by
    rw [low_bit]
    cases b0.getLsbD 0 <;> simp [bit]
  unfold shiftIn
  rw [BitVec.getLsbD_or, hlow, Bool.or_false, BitVec.getLsbD_shiftLeft, ← BitVec.getLsbD_xor]
  simp [hi]

theorem answer_true (key cur' i5 : BitVec 32) :
    decide (answer key cur' i5 ≠ 0) = (cur'.getLsbD 11 ^^ (key >>> i5).getLsbD 0) := by
  unfold answer
  rw [low_bit, BitVec.getLsbD_xor, BitVec.getLsbD_ushiftRight, low_bit (key >>> i5)]
  cases cur'.getLsbD 11 <;> cases (key >>> i5).getLsbD 0 <;> rfl

/-- The walks are at one place, and their registers differ below bit `j` at most. -/
structure Agree (j : ℕ) (w w' : Walk) : Prop where
  index : w.index = w'.index
  data : w.data = w'.data
  cur : ∀ i, j ≤ i → w.cur.getLsbD i = w'.cur.getLsbD i

theorem Agree.offered {j : ℕ} {w w' : Walk} (h : Agree j w w') : w.offered = w'.offered := by
  unfold Walk.offered
  rw [h.index, h.data]

theorem consult_succ (key : BitVec 32) (mode : ℕ) (cur i5 : BitVec 32) {i : ℕ} (hi : i + 1 < 32) :
    (consult key mode cur i5).1.getLsbD (i + 1) = (cur.getLsbD i ^^ ((i5 &&& 1) <<< 2).getLsbD i) :=
  shiftIn_succ _ _ _ hi

theorem consult_answer (key : BitVec 32) (mode : ℕ) (cur i5 : BitVec 32) :
    (consult key mode cur i5).2 =
      ((cur.getLsbD 10 ^^ ((i5 &&& 1) <<< 2).getLsbD 10) ^^ (key >>> i5).getLsbD 0) := by
  rw [← consult_succ key mode cur i5 (by decide : 10 + 1 < 32)]
  exact answer_true _ _ _

theorem queryBit (key i5 : BitVec 32) : (key >>> i5).getLsbD 0 = key.getLsbD i5.toNat := by
  rw [BitVec.ushiftRight_eq', BitVec.getLsbD_ushiftRight, Nat.add_zero]

theorem consult_keyBit (key : BitVec 32) (mode : ℕ) (cur i5 : BitVec 32) :
    (consult key mode cur i5).2 = (cur.getLsbD 10 ^^ key.getLsbD i5.toNat) := by
  have hentered : ((i5 &&& 1) <<< 2).getLsbD 10 = false := by
    rw [low_bit]
    cases i5.getLsbD 0 <;> rfl
  rw [consult_answer, hentered, Bool.xor_false, queryBit]

theorem agree_step {j : ℕ} (hj : j ≤ 10) {w w' : Walk} (h : Agree j w w') (key : BitVec 32) (mode mode' : ℕ) :
    Agree (j + 1) (w.step key mode) (w'.step key mode') := by
  have hoffered := h.offered
  have hanswer : (consult key mode w.cur w.offered).2 = (consult key mode' w'.cur w'.offered).2 := by
    rw [consult_answer, consult_answer, h.cur 10 hj, hoffered]
  unfold Walk.step
  dsimp only
  rw [hanswer, h.data]
  refine ⟨rfl, rfl, ?_⟩
  intro i hi
  dsimp only
  cases i with
  | zero => exact absurd hi (Nat.not_succ_le_zero j)
  | succ i =>
    by_cases hlt : i + 1 < 32
    · rw [consult_succ _ _ _ _ hlt, consult_succ _ _ _ _ hlt, h.cur i (Nat.le_of_succ_le_succ hi), hoffered]
    · rw [BitVec.getLsbD_of_ge _ _ (Nat.not_lt.mp hlt), BitVec.getLsbD_of_ge _ _ (Nat.not_lt.mp hlt)]

theorem agree_walk {w w' : Walk} (h : w = w') (key : BitVec 32) (mode mode' : ℕ) {n : ℕ} (hn : n ≤ 11) :
    Agree n (walk key mode n w) (walk key mode' n w') := by
  induction n with
  | zero => exact ⟨congrArg Walk.index h, congrArg Walk.data h, fun i _ => by rw [h]; rfl⟩
  | succ n ih => exact agree_step (Nat.le_of_succ_le_succ hn) (ih (Nat.le_of_succ_le hn)) key mode mode'

/-- They differ in bit `j` and agree above it. -/
structure Forked (j : ℕ) (w w' : Walk) : Prop where
  agree : Agree (j + 1) w w'
  bit : w.cur.getLsbD j ≠ w'.cur.getLsbD j

theorem forked_step {j : ℕ} (hj : j < 10) {w w' : Walk} (h : Forked j w w') (key : BitVec 32) (mode mode' : ℕ) :
    Forked (j + 1) (w.step key mode) (w'.step key mode') := by
  refine ⟨agree_step hj h.agree key mode mode', ?_⟩
  change (consult key mode w.cur w.offered).1.getLsbD (j + 1) ≠ (consult key mode' w'.cur w'.offered).1.getLsbD (j + 1)
  have hlt : j + 1 < 32 := by omega
  rw [consult_succ _ _ _ _ hlt, consult_succ _ _ _ _ hlt, h.agree.offered]
  intro heq
  exact h.bit (Bool.xor_left_inj.mp heq)

theorem forked_walk {w w' : Walk} (h : Forked 0 w w') (key : BitVec 32) (mode mode' : ℕ) {n : ℕ} (hn : n ≤ 10) :
    Forked n (walk key mode n w) (walk key mode' n w') := by
  induction n with
  | zero => exact h
  | succ n ih => exact forked_step hn (ih (Nat.le_of_succ_le hn)) key mode mode'

theorem forked_part {w w' : Walk} (h : Forked 10 w w') (key : BitVec 32) (mode mode' : ℕ) :
    (w.step key mode).data ^^^ (w'.step key mode').data = poly := by
  have hanswer : (consult key mode w.cur w.offered).2 ≠ (consult key mode' w'.cur w'.offered).2 := by
    rw [consult_answer, consult_answer, h.agree.offered]
    intro heq
    exact h.bit (Bool.xor_left_inj.mp (Bool.xor_left_inj.mp heq))
  change shift (nextIndex _ w.data) w.data ^^^ shift (nextIndex _ w'.data) w'.data = poly
  rw [shift_nextIndex, shift_nextIndex, h.agree.data]
  generalize (consult key mode w.cur w.offered).2 = a at hanswer ⊢
  generalize (consult key mode' w'.cur w'.offered).2 = b at hanswer ⊢
  have hleft (x : BitVec 32) : x ^^^ (x ^^^ poly) = poly := by
    rw [← BitVec.xor_assoc, BitVec.xor_self, BitVec.zero_xor]
  have hright (x : BitVec 32) : x ^^^ poly ^^^ x = poly := by
    rw [BitVec.xor_comm, hleft]
  by_cases ha : w'.data.getLsbD 0 = a
  · rw [if_pos ha, if_neg (fun hb => hanswer (ha.symm.trans hb)), hleft]
  · have hb : w'.data.getLsbD 0 = b := by
      cases a <;> cases b <;> cases hlow : w'.data.getLsbD 0 <;> simp_all
    rw [if_neg ha, if_pos hb, hright]

def Apart (r : ℕ) (w w' : Walk) : Prop := ∃ i, 31 ≤ i + r ∧ i < 32 ∧ (w.data ^^^ w'.data).getLsbD i = true

theorem apart_step {r : ℕ} (hr : r < 31) {w w' : Walk} (h : Apart r w w') (key : BitVec 32) (mode mode' : ℕ) :
    Apart (r + 1) (w.step key mode) (w'.step key mode') := by
  obtain ⟨i, hi, hlt, hbit⟩ := h
  have htop : poly.getLsbD 31 = true := by decide
  have hshift (x : BitVec 32) (k : ℕ) : (x >>> 1).getLsbD k = x.getLsbD (1 + k) := BitVec.getLsbD_ushiftRight ..
  have hend (x : BitVec 32) : (x >>> 1).getLsbD 31 = false := by
    rw [hshift]
    exact BitVec.getLsbD_of_ge _ _ (by decide)
  obtain ⟨j, rfl⟩ : ∃ j, i = 1 + j := ⟨i - 1, by omega⟩
  rw [BitVec.getLsbD_xor] at hbit
  change ∃ i, _ ∧ _ ∧ (shift (nextIndex _ w.data) w.data ^^^ shift (nextIndex _ w'.data) w'.data).getLsbD i = true
  rw [shift_nextIndex, shift_nextIndex]
  split
  · split
    · refine ⟨j, by omega, by omega, ?_⟩
      rw [BitVec.getLsbD_xor, hshift, hshift, hbit]
    · refine ⟨31, by omega, by omega, ?_⟩
      rw [BitVec.getLsbD_xor, BitVec.getLsbD_xor, hend, hend, htop]
      rfl
  · split
    · refine ⟨31, by omega, by omega, ?_⟩
      rw [BitVec.getLsbD_xor, BitVec.getLsbD_xor, hend, hend, htop]
      rfl
    · refine ⟨j, by omega, by omega, ?_⟩
      rw [BitVec.getLsbD_xor, BitVec.getLsbD_xor, BitVec.getLsbD_xor, hshift, hshift, ← hbit]
      cases w.data.getLsbD (1 + j) <;> cases w'.data.getLsbD (1 + j) <;> cases poly.getLsbD j <;> rfl

theorem apart_walk {w w' : Walk} {r : ℕ} (h : Apart r w w') (key : BitVec 32) (mode mode' : ℕ) {n : ℕ} (hn : r + n ≤ 31) :
    Apart (r + n) (walk key mode n w) (walk key mode' n w') := by
  induction n with
  | zero => exact h
  | succ n ih => exact apart_step (by omega) (ih (by omega)) key mode mode'

theorem apart_ne {w w' : Walk} {r : ℕ} (h : Apart r w w') : w.data ≠ w'.data := by
  obtain ⟨i, -, -, hbit⟩ := h
  intro heq
  rw [heq, BitVec.xor_self] at hbit
  simp at hbit

theorem walk_add (key : BitVec 32) (mode m n : ℕ) (w : Walk) :
    walk key mode (m + n) w = walk key mode n (walk key mode m w) := by
  induction n with
  | zero => rfl
  | succ n ih => exact congrArg (Walk.step key mode) ih

/-- The mode's term is zero at each of the first 28 steps of the round. -/
def Quiet (key : BitVec 32) (mode : ℕ) (w : Walk) : Prop :=
  ∀ k < 28, tModeTerm mode (walk key 0 k w).cur (walk key 0 k w).offered = 0

instance (key : BitVec 32) (mode : ℕ) (w : Walk) : Decidable (Quiet key mode w) :=
  inferInstanceAs (Decidable (∀ k < 28, _))

theorem step_quiet {key : BitVec 32} {mode : ℕ} {w : Walk} (h : tModeTerm mode w.cur w.offered = 0) :
    w.step key mode = w.step key 0 := by
  have hconsult : consult key mode w.cur w.offered = consult key 0 w.cur w.offered := by
    unfold consult
    rw [h]
    rfl
  unfold Walk.step
  rw [hconsult]

theorem walk_quiet {key : BitVec 32} {mode n : ℕ} {w : Walk}
    (h : ∀ k < n, tModeTerm mode (walk key 0 k w).cur (walk key 0 k w).offered = 0) :
    walk key mode n w = walk key 0 n w := by
  induction n with
  | zero => rfl
  | succ n ih =>
    have hbefore := ih fun k hk => h k (Nat.lt_succ_of_lt hk)
    change (walk key mode n w).step key mode = (walk key 0 n w).step key 0
    rw [hbefore]
    exact step_quiet (h n (Nat.lt_succ_self n))

theorem quiet_path {key : BitVec 32} {mode : ℕ} {w : Walk} (h : Quiet key mode w) {n : ℕ} (hn : n ≤ 39) :
    (walk key mode n w).index = (walk key 0 n w).index ∧ (walk key mode n w).data = (walk key 0 n w).data := by
  by_cases hlate : n ≤ 28
  · rw [walk_quiet fun k hk => h k (by omega)]
    exact ⟨rfl, rfl⟩
  · obtain ⟨m, rfl⟩ := Nat.exists_eq_add_of_le (Nat.le_of_not_le hlate)
    have hagree := agree_walk (walk_quiet h) key mode 0 (by omega : m ≤ 11)
    rw [walk_add, walk_add]
    exact ⟨hagree.index, hagree.data⟩

theorem step_forked {key : BitVec 32} {mode : ℕ} {w : Walk} (h : tModeTerm mode w.cur w.offered ≠ 0) :
    Forked 0 (w.step key mode) (w.step key 0) := by
  have hone := (term_bit mode w.cur w.offered).resolve_left h
  refine ⟨agree_step (Nat.zero_le 10) ⟨rfl, rfl, fun _ _ => rfl⟩ key mode 0, ?_⟩
  change (shiftIn w.cur w.offered (_ ^^^ tModeTerm mode w.cur w.offered)).getLsbD 0 ≠
    (shiftIn w.cur w.offered (_ ^^^ tModeTerm 0 w.cur w.offered)).getLsbD 0
  have htrue : (1 : BitVec 32).getLsbD 0 = true := by decide
  have hfalse : (tModeTerm 0 w.cur w.offered).getLsbD 0 = false := BitVec.getLsbD_zero
  rw [shiftIn_zero, shiftIn_zero, hone, BitVec.getLsbD_xor, BitVec.getLsbD_xor, htrue, hfalse]
  cases (feedback key w.cur w.offered).getLsbD 0 <;> decide

theorem round_exact (key : BitVec 32) (mode : ℕ) (w : Walk) :
    (walk key mode 39 w).data = (walk key 0 39 w).data ↔ Quiet key mode w := by
  refine ⟨?_, fun h => (quiet_path h (Nat.le_refl 39)).2⟩
  intro hsame
  by_contra hloud
  have hexists : ∃ k, k < 28 ∧ tModeTerm mode (walk key 0 k w).cur (walk key 0 k w).offered ≠ 0 := by
    unfold Quiet at hloud
    simpa using hloud
  -- the first term that is not zero
  classical
  obtain ⟨hk, hterm⟩ := Nat.find_spec hexists
  have hfirst : ∀ j < Nat.find hexists, tModeTerm mode (walk key 0 j w).cur (walk key 0 j w).offered = 0 := by
    intro j hj
    by_contra hne
    exact Nat.find_min hexists hj ⟨Nat.lt_trans hj hk, hne⟩
  generalize Nat.find hexists = k at hk hterm hfirst
  have hbefore := walk_quiet hfirst
  have hfork : Forked 0 (walk key mode (k + 1) w) (walk key 0 (k + 1) w) := by
    change Forked 0 ((walk key mode k w).step key mode) ((walk key 0 k w).step key 0)
    rw [hbefore]
    exact step_forked hterm
  have hten := forked_walk hfork key mode 0 (Nat.le_refl 10)
  rw [← walk_add, ← walk_add] at hten
  have hpart := forked_part hten key mode 0
  have hapart : Apart 0 (walk key mode (k + 1 + 10 + 1) w) (walk key 0 (k + 1 + 10 + 1) w) := by
    have hdiffer : (walk key mode (k + 1 + 10 + 1) w).data ^^^ (walk key 0 (k + 1 + 10 + 1) w).data = poly := hpart
    refine ⟨31, by decide, by decide, ?_⟩
    rw [hdiffer]
    decide
  obtain ⟨n, hn⟩ := Nat.exists_eq_add_of_le (by omega : k + 1 + 10 + 1 ≤ 39)
  have hend := apart_ne (apart_walk hapart key mode 0 (by omega : 0 + n ≤ 31))
  rw [← walk_add, ← walk_add, ← hn] at hend
  exact hend hsame

end PeepeeBox.SoftPart
