import Mathlib.Algebra.CharP.Two
import Mathlib.Algebra.Field.ZMod
import Mathlib.Data.ZMod.Basic
import PeepeeBox.AffineForms
import PeepeeBox.SoftPart

set_option autoImplicit false

/-!
# DONGDUMP's solver

Every answer of the part is one linear equation in the 32 key bits and the eleven bits of the starting register.
-/
namespace PeepeeBox.DumpSolver
open KeyedRound SoftPart AffineForms

/-- `t_model_step`: the next register, of which twelve bits are kept, and the answer. -/
def tModelStep (cur key i5 : BitVec 32) : BitVec 32 × Bool :=
  let st := key >>> i5 &&& 1
  let b0 := i5 ^^^ ((st ^^^ 1) &&& i5 >>> 3) ^^^ i5 >>> 4
  let b0 := b0 ^^^ cur >>> 10
  let b0 := b0 ^^^ cur >>> 7
  let b0 := if i5 &&& 2 ≠ 0 then b0 ^^^ cur >>> 5 else b0
  let b0 := if i5 &&& 4 ≠ 0 then b0 ^^^ cur >>> 8 else b0
  let pre := cur ^^^ (i5 &&& 1) <<< 2
  let cur := (pre <<< 1 ||| (b0 &&& 1)) &&& 0xFFF
  (cur, (cur >>> 11 ^^^ st) &&& 1 ≠ 0)

def nunk : ℕ := 43

structure Lin where
  a0 : BitVec 32
  a1 : BitVec 32
  c : Bool
  deriving DecidableEq

def linZero : Lin := ⟨0, 0, false⟩

def linXor (d s : Lin) : Lin := ⟨d.a0 ^^^ s.a0, d.a1 ^^^ s.a1, d.c ^^ s.c⟩

def linBit (l : Lin) (col : ℕ) : Bool := if col < 32 then l.a0.getLsbD col else l.a1.getLsbD (col - 32)

def linSet (l : Lin) (col : ℕ) : Lin :=
  if col < 32 then { l with a0 := l.a0 ||| BitVec.twoPow 32 col }
  else { l with a1 := l.a1 ||| BitVec.twoPow 32 (col - 32) }

def linFlip (l : Lin) (c : Bool) : Lin := { l with c := l.c ^^ c }

structure Gauss where
  piv : ℕ → Lin
  has : ℕ → Bool
  rank : ℕ
  contra : ℕ
  rows : ℕ

def gaussInit : Gauss where
  piv := fun _ => linZero
  has := fun _ => false
  rank := 0
  contra := 0
  rows := 0

/-- The columns from `c` on, `fuel` of them. -/
def gaussAddLoop (g : Gauss) : ℕ → ℕ → Lin → Gauss
  | 0, _, row => if row.c then { g with contra := g.contra + 1 } else g
  | fuel + 1, c, row =>
    if linBit row c = false then gaussAddLoop g fuel (c + 1) row
    else if g.has c then gaussAddLoop g fuel (c + 1) (linXor row (g.piv c))
    else
      { g with
        piv := Function.update g.piv c row
        has := Function.update g.has c true
        rank := g.rank + 1 }

def gaussAdd (g : Gauss) (row : Lin) : Gauss := gaussAddLoop { g with rows := g.rows + 1 } nunk 0 row

/-- Column `c` is taken out of the rows before `d`. -/
def clearColumn (c : ℕ) : ℕ → Gauss → Gauss
  | 0, g => g
  | d + 1, g =>
    let g := clearColumn c d g
    if linBit (g.piv d) c then { g with piv := Function.update g.piv d (linXor (g.piv d) (g.piv c)) } else g

/-- From column `n - 1` down. -/
def backSubstitute : ℕ → Gauss → Gauss
  | 0, g => g
  | c + 1, g => backSubstitute c (clearColumn c c g)

def gather (f : ℕ → Bool) : ℕ → BitVec 32
  | 0 => 0
  | n + 1 => if f n then gather f n ||| BitVec.twoPow 32 n else gather f n

/-- The key and the register, when every unknown is pinned. -/
def gaussSolve (g : Gauss) : Option (BitVec 32 × BitVec 32) :=
  if g.rank ≠ nunk then none
  else
    let g := backSubstitute nunk g
    some (gather (fun c => (g.piv c).c) 32, gather (fun c => (g.piv (32 + c)).c) (nunk - 32))

def symReset : ℕ → Lin := fun i => if i < 11 then linSet linZero (32 + i) else linZero

def symStep (cur : ℕ → Lin) (i5 : BitVec 32) : (ℕ → Lin) × Lin :=
  let st := linSet linZero i5.toNat
  let ans := linXor (cur 10) st
  let b0 := linFlip linZero (i5.getLsbD 0)
  let b0 := if i5 &&& 8 ≠ 0 then linFlip (linXor b0 st) true else b0
  let b0 := linFlip b0 (i5.getLsbD 4)
  let b0 := linXor b0 (cur 10)
  let b0 := linXor b0 (cur 7)
  let b0 := if i5 &&& 2 ≠ 0 then linXor b0 (cur 5) else b0
  let b0 := if i5 &&& 4 ≠ 0 then linXor b0 (cur 8) else b0
  let cur := Function.update cur 2 (linFlip (cur 2) (i5.getLsbD 0))
  (fun j => if j = 0 then b0 else if j < 12 then cur (j - 1) else cur j, ans)

def feedRound (g : Gauss) (cur : ℕ → Lin) : List (BitVec 5 × Bool) → Gauss
  | [] => g
  | (q, a) :: obs =>
    let s := symStep cur (q.setWidth 32)
    feedRound (gaussAdd g (linFlip s.2 a)) s.1 obs

def feed (rounds : List (List (BitVec 5 × Bool))) : Gauss :=
  rounds.foldl (fun g obs => feedRound g symReset obs) gaussInit

def modelRound (key cur : BitVec 32) : List (BitVec 5) → List Bool
  | [] => []
  | q :: qs =>
    let s := tModelStep cur key (q.setWidth 32)
    s.2 :: modelRound key s.1 qs

/-- Queries with the model's answers. -/
def observed (key init : BitVec 32) (rounds : List (List (BitVec 5))) : List (List (BitVec 5 × Bool)) :=
  rounds.map fun qs => qs.zip (modelRound key init qs)

def Reproduces (key init : BitVec 32) (rounds : List (List (BitVec 5 × Bool))) : Prop :=
  ∀ obs ∈ rounds, modelRound key init (obs.map Prod.fst) = obs.map Prod.snd

/-- What the emulated part answers to one payload after the other. -/
def partRound (part : Part) (t : Keyed) : List Byte → List Bool
  | [] => []
  | v :: vs =>
    let s := tStep part t v
    s.2 :: partRound part s.1 vs

def toZ (b : Bool) : ZMod 2 := if b then 1 else 0

@[simp] theorem toZ_true : toZ true = 1 := rfl

@[simp] theorem toZ_false : toZ false = 0 := rfl

theorem toZ_xor (a b : Bool) : toZ (a ^^ b) = toZ a + toZ b := by
  cases a <;> cases b <;> decide

theorem toZ_inj {a b : Bool} (h : toZ a = toZ b) : a = b := by
  cases a <;> cases b <;> first | rfl | exact absurd h (by decide)

theorem toZ_surjective (x : ZMod 2) : ∃ b, toZ b = x := by
  fin_cases x
  · exact ⟨false, rfl⟩
  · exact ⟨true, rfl⟩

def form (l : Lin) : Form (ZMod 2) nunk := (fun i => toZ (linBit l i), toZ l.c)

theorem linBit_linXor (d s : Lin) (i : ℕ) : linBit (linXor d s) i = (linBit d i ^^ linBit s i) := by
  unfold linBit linXor
  by_cases hi : i < 32
  · simp [hi]
  · simp [hi]

theorem form_linXor (d s : Lin) : form (linXor d s) = form d + form s :=
  Prod.ext (funext fun i => (congrArg toZ (linBit_linXor d s i)).trans (toZ_xor _ _)) (toZ_xor _ _)

theorem form_linFlip (l : Lin) (c : Bool) : form (linFlip l c) = form l + (0, toZ c) :=
  Prod.ext (add_zero _).symm (toZ_xor _ _)

theorem form_linZero : form linZero = 0 := by
  refine Prod.ext (funext fun i => ?_) rfl
  have hbit : linBit linZero i = false := by
    unfold linBit linZero
    by_cases hi : i.val < 32
    · simp [hi]
    · simp [hi]
  exact congrArg toZ hbit

theorem form_linSet {col : ℕ} (h : col < nunk) : form (linSet linZero col) = (Pi.single ⟨col, h⟩ 1, 0) := by
  have hc : (linSet linZero col).c = false := by
    unfold linSet
    split <;> rfl
  refine Prod.ext (funext fun i => ?_) (congrArg toZ hc)
  have hbit : linBit (linSet linZero col) i = decide (i.val = col) := by
    have hlt : i.val < 43 := i.isLt
    have hcol : col < 43 := h
    unfold linBit linSet linZero
    by_cases hi : i.val < 32
    · by_cases hl : col < 32
      · simp [hi, hl, eq_comm]
      · simp [hi, hl, show i.val ≠ col by omega]
    · by_cases hl : col < 32
      · simp [hi, hl, show i.val ≠ col by omega]
      · have hsame : (col - 32 = i.val - 32) ↔ i.val = col := by omega
        simp [hi, hl, BitVec.getLsbD_twoPow, hsame]
        omega
  change toZ (linBit (linSet linZero col) i) = (Pi.single ⟨col, h⟩ 1 : Fin nunk → ZMod 2) i
  rw [hbit, Pi.single_apply]
  by_cases hi : i.val = col
  · rw [if_pos (Fin.ext hi), decide_eq_true hi, toZ_true]
  · rw [if_neg fun heq => hi (congrArg Fin.val heq), decide_eq_false hi, toZ_false]

def unknown (key init : BitVec 32) (col : ℕ) : Bool := if col < 32 then key.getLsbD col else init.getLsbD (col - 32)

def vec (key init : BitVec 32) : Fin nunk → ZMod 2 := fun i => toZ (unknown key init i)

def val (l : Lin) (key init : BitVec 32) : ZMod 2 := value (form l) (vec key init)

section Val
variable (key init : BitVec 32)

@[simp] theorem val_linXor (d s : Lin) : val (linXor d s) key init = val d key init + val s key init := by
  unfold val
  rw [form_linXor, value_add]

@[simp] theorem val_linFlip (l : Lin) (c : Bool) : val (linFlip l c) key init = val l key init + toZ c := by
  unfold val
  rw [form_linFlip, value_add, value_const (f := ((0, toZ c) : Form (ZMod 2) nunk)) rfl]

@[simp] theorem val_linZero : val linZero key init = 0 := by
  unfold val
  rw [form_linZero, value_zero]

theorem val_linSet {col : ℕ} (h : col < nunk) : val (linSet linZero col) key init = toZ (unknown key init col) := by
  unfold val
  rw [form_linSet h, value_single rfl]
  exact add_zero _

end Val

theorem gather_bit (f : ℕ → Bool) {n : ℕ} (hn : n ≤ 32) (i : ℕ) :
    (gather f n).getLsbD i = (decide (i < n) && f i) := by
  induction n with
  | zero => simp [gather]
  | succ n ih =>
    have hbit : (gather f (n + 1)).getLsbD i = ((gather f n).getLsbD i || f n && decide (n = i)) := by
      have hstep : gather f (n + 1) = if f n then gather f n ||| BitVec.twoPow 32 n else gather f n := rfl
      rw [hstep]
      cases hf : f n with
      | true => rw [if_pos rfl, BitVec.getLsbD_or, BitVec.getLsbD_twoPow, decide_eq_true (by omega : n < 32)]
      | false => rw [if_neg Bool.false_ne_true, Bool.false_and, Bool.or_false]
    rw [hbit, ih (Nat.le_of_succ_le hn)]
    rcases Nat.lt_trichotomy i n with hlt | rfl | hgt
    · simp [hlt, Nat.lt_succ_of_lt hlt, Nat.ne_of_gt hlt]
    · simp
    · have hno : ¬ i < n + 1 := by omega
      simp [hno, Nat.lt_asymm hgt, Nat.ne_of_lt hgt]

theorem vec_gather (x : ℕ → Bool) :
    vec (gather x 32) (gather (fun i => x (32 + i)) (nunk - 32)) = fun i => toZ (x i.val) := by
  funext i
  have hlt : i.val < 43 := i.isLt
  unfold vec unknown
  congr 1
  by_cases hi : i.val < 32
  · rw [if_pos hi, gather_bit _ (Nat.le_refl 32), decide_eq_true hi, Bool.true_and]
  · have hback : 32 + (i.val - 32) = i.val := by omega
    rw [if_neg hi, gather_bit _ (by decide), decide_eq_true (by unfold nunk; omega), Bool.true_and, hback]

theorem vec_inj {key key' init init' : BitVec 32} (h : vec key init = vec key' init') :
    key = key' ∧ ∀ i < 11, init.getLsbD i = init'.getLsbD i := by
  have hbit (i : ℕ) (hi : i < 43) : unknown key init i = unknown key' init' i := toZ_inj (congrFun h ⟨i, hi⟩)
  constructor
  · refine BitVec.eq_of_getLsbD_eq fun i hi => ?_
    have hkey := hbit i (by omega)
    unfold unknown at hkey
    rwa [if_pos hi, if_pos hi] at hkey
  · intro i hi
    have hinit := hbit (32 + i) (by omega)
    unfold unknown at hinit
    rwa [if_neg (by omega), if_neg (by omega), Nat.add_sub_cancel_left] at hinit

theorem mask_bit (x : BitVec 32) {i : ℕ} (hi : i < 32) : x &&& BitVec.twoPow 32 i ≠ 0 ↔ x.getLsbD i = true := by
  rw [BitVec.and_twoPow]
  cases x.getLsbD i with
  | false => simp
  | true =>
    refine iff_of_true (fun h => ?_) rfl
    have hbit := congrArg (fun y : BitVec 32 => y.getLsbD i) h
    simp [hi] at hbit

theorem masked_xor (i5 : BitVec 32) {m : BitVec 32} {i : ℕ} (hi : i < 32) (hm : m = BitVec.twoPow 32 i) (x y : BitVec 32) :
    (if i5 &&& m ≠ 0 then x ^^^ y else x).getLsbD 0 = (x.getLsbD 0 ^^ (i5.getLsbD i && y.getLsbD 0)) := by
  have hmask := mask_bit i5 hi
  rw [← hm] at hmask
  cases hbit : i5.getLsbD i with
  | true => rw [if_pos (hmask.mpr hbit), BitVec.getLsbD_xor, Bool.true_and]
  | false =>
    rw [if_neg fun hne => Bool.false_ne_true (hbit.symm.trans (hmask.mp hne)), Bool.false_and, Bool.xor_false]

theorem feedback_bit (key cur i5 : BitVec 32) :
    (feedback key cur i5).getLsbD 0 =
      (i5.getLsbD 0 ^^ (!key.getLsbD i5.toNat && i5.getLsbD 3) ^^ i5.getLsbD 4 ^^ cur.getLsbD 10 ^^ cur.getLsbD 7 ^^
        (i5.getLsbD 1 && cur.getLsbD 5) ^^ (i5.getLsbD 2 && cur.getLsbD 8)) := by
  have hshift (x : BitVec 32) (n : ℕ) : (x >>> n).getLsbD 0 = x.getLsbD n := BitVec.getLsbD_ushiftRight ..
  have hone : (1 : BitVec 32).getLsbD 0 = true := by decide
  have hst : (((key >>> i5 &&& (1 : BitVec 32)) ^^^ 1) &&& i5 >>> 3).getLsbD 0 =
      (!key.getLsbD i5.toNat && i5.getLsbD 3) := by
    rw [BitVec.getLsbD_and, BitVec.getLsbD_xor, BitVec.getLsbD_and, queryBit, hone, hshift]
    cases key.getLsbD i5.toNat <;> rfl
  unfold feedback
  dsimp only
  rw [masked_xor i5 (m := 4) (i := 2) (by decide) rfl, masked_xor i5 (m := 2) (i := 1) (by decide) rfl, BitVec.getLsbD_xor, BitVec.getLsbD_xor, BitVec.getLsbD_xor, BitVec.getLsbD_xor, hst, hshift, hshift,
    hshift, hshift, hshift]

theorem tModelStep_eq (cur key i5 : BitVec 32) :
    tModelStep cur key i5 = ((consult key 0 cur i5).1 &&& 0xFFF, (consult key 0 cur i5).2) := by
  have hcur : (tModelStep cur key i5).1 = (consult key 0 cur i5).1 &&& 0xFFF := by
    have hterm : feedback key cur i5 ^^^ tModeTerm 0 cur i5 = feedback key cur i5 := BitVec.xor_zero
    unfold consult
    rw [hterm]
    rfl
  have hans : (tModelStep cur key i5).2 = decide (answer key (tModelStep cur key i5).1 i5 ≠ 0) := rfl
  have hmask : (0xFFF : BitVec 32).getLsbD 11 = true := by decide
  refine Prod.ext hcur ?_
  rw [hans, answer_true, hcur, BitVec.getLsbD_and, hmask, Bool.and_true, ← answer_true]
  rfl

theorem tModelStep_succ (cur key i5 : BitVec 32) {i : ℕ} (hi : i + 1 < 12) :
    (tModelStep cur key i5).1.getLsbD (i + 1) = (cur.getLsbD i ^^ ((i5 &&& 1) <<< 2).getLsbD i) := by
  have hmask : ∀ j < 12, (0xFFF : BitVec 32).getLsbD j = true := by decide
  rw [tModelStep_eq, BitVec.getLsbD_and, hmask _ hi, Bool.and_true]
  exact consult_succ key 0 cur i5 (Nat.lt_trans hi (by decide))

theorem tModelStep_zero (cur key i5 : BitVec 32) :
    (tModelStep cur key i5).1.getLsbD 0 = (feedback key cur i5).getLsbD 0 := by
  have hmask : (0xFFF : BitVec 32).getLsbD 0 = true := by decide
  have hterm : feedback key cur i5 ^^^ tModeTerm 0 cur i5 = feedback key cur i5 := BitVec.xor_zero
  rw [tModelStep_eq, BitVec.getLsbD_and, hmask, Bool.and_true]
  unfold consult
  dsimp only
  rw [shiftIn_zero, hterm]

def Tracks (key init cur : BitVec 32) (sym : ℕ → Lin) : Prop := ∀ j < 12, val (sym j) key init = toZ (cur.getLsbD j)

theorem tracks_reset {key init : BitVec 32} (h : init < 2048) : Tracks key init init symReset := by
  intro j hj
  unfold symReset
  by_cases hlow : j < 11
  · rw [if_pos hlow, val_linSet key init (by unfold nunk; omega)]
    unfold unknown
    rw [if_neg (by omega), Nat.add_sub_cancel_left]
  · obtain rfl : j = 11 := by omega
    have hhigh : init.getLsbD 11 = false := by
      rw [BitVec.getLsbD, Nat.testBit_lt_two_pow (BitVec.lt_def.mp h)]
    rw [if_neg hlow, val_linZero, hhigh]
    rfl

theorem preamble_bit (i5 : BitVec 32) {i : ℕ} (hi : i < 32) :
    ((i5 &&& 1) <<< 2).getLsbD i = (decide (i = 2) && i5.getLsbD 0) := by
  rw [low_bit, BitVec.getLsbD_shiftLeft]
  cases i5.getLsbD 0 with
  | false => simp [bit]
  | true =>
    by_cases h2 : i = 2
    · subst h2
      decide
    · rcases Nat.lt_or_ge i 2 with hlt | hge
      · simp [hlt, h2]
      · obtain ⟨k, rfl⟩ := Nat.exists_eq_add_of_le hge
        have hk : k ≠ 0 := by omega
        simp [bit, hk]

theorem symStep_val (key init : BitVec 32) (sym : ℕ → Lin) (i5 : BitVec 32) (hi5 : i5.toNat < 32) :
    val ((symStep sym i5).1 0) key init =
      toZ (i5.getLsbD 0) + toZ (!key.getLsbD i5.toNat && i5.getLsbD 3) + toZ (i5.getLsbD 4) + val (sym 10) key init +
        val (sym 7) key init + toZ (i5.getLsbD 1) * val (sym 5) key init + toZ (i5.getLsbD 2) * val (sym 8) key init ∧
    val (symStep sym i5).2 key init = val (sym 10) key init + toZ (key.getLsbD i5.toNat) := by
  have hst : val (linSet linZero i5.toNat) key init = toZ (key.getLsbD i5.toNat) := by
    rw [val_linSet key init (Nat.lt_trans hi5 (by decide))]
    exact congrArg toZ (if_pos hi5)
  have hmask (m : BitVec 32) (i : ℕ) (hi : i < 32) (hm : m = BitVec.twoPow 32 i) (x y : Lin) (z : ZMod 2)
      (hx : val x key init = val y key init + z) :
      val (if i5 &&& m ≠ 0 then x else y) key init = val y key init + toZ (i5.getLsbD i) * z := by
    have hbit := mask_bit i5 hi
    rw [← hm] at hbit
    cases hset : i5.getLsbD i with
    | true => rw [if_pos (hbit.mpr hset), hx, toZ_true, one_mul]
    | false =>
      rw [if_neg fun hne => Bool.false_ne_true (hset.symm.trans (hbit.mp hne)), toZ_false, zero_mul, add_zero]
  refine ⟨?_, by rw [← hst]; exact val_linXor key init _ _⟩
  unfold symStep
  dsimp only
  rw [if_pos rfl, hmask 4 2 (by decide) rfl _ _ _ (val_linXor key init _ _),
    hmask 2 1 (by decide) rfl _ _ _ (val_linXor key init _ _), val_linXor, val_linXor, val_linFlip,
    hmask 8 3 (by decide) rfl _ _ (toZ (key.getLsbD i5.toNat) + 1)
      (by rw [val_linFlip, val_linXor, hst, add_assoc]; rfl),
    val_linFlip, val_linZero, zero_add]
  have hnot : toZ (i5.getLsbD 3) * (toZ (key.getLsbD i5.toNat) + 1) = toZ (!key.getLsbD i5.toNat && i5.getLsbD 3) := by
    cases i5.getLsbD 3 <;> cases key.getLsbD i5.toNat <;> decide
  rw [hnot]

theorem tracks_step {key init cur : BitVec 32} {sym : ℕ → Lin} (h : Tracks key init cur sym) (i5 : BitVec 32)
    (hi5 : i5.toNat < 32) :
    Tracks key init (tModelStep cur key i5).1 (symStep sym i5).1 ∧
      val (symStep sym i5).2 key init = toZ (tModelStep cur key i5).2 := by
  obtain ⟨hfirst, hans⟩ := symStep_val key init sym i5 hi5
  constructor
  · intro j hj
    cases j with
    | zero =>
      have hand (a b : Bool) : toZ (a && b) = toZ a * toZ b := by
        cases a <;> cases b <;> decide
      rw [hfirst, tModelStep_zero, feedback_bit, h 10 (by decide), h 7 (by decide), h 5 (by decide), h 8 (by decide)]
      simp only [toZ_xor, hand]
    | succ j =>
      have hshift : (symStep sym i5).1 (j + 1) = Function.update sym 2 (linFlip (sym 2) (i5.getLsbD 0)) j := by
        unfold symStep
        dsimp only
        rw [if_neg (Nat.succ_ne_zero j), if_pos hj, Nat.add_sub_cancel]
      have hlt : j < 12 := Nat.lt_of_succ_lt hj
      rw [hshift, tModelStep_succ _ _ _ hj, preamble_bit _ (Nat.lt_trans hlt (by decide)), toZ_xor, ← h j hlt]
      by_cases h2 : j = 2
      · subst h2
        rw [Function.update_self, val_linFlip]
        rfl
      · rw [Function.update_of_ne h2, decide_eq_false h2, Bool.false_and, toZ_false, add_zero]
  · have hinject : ((i5 &&& 1) <<< 2).getLsbD 10 = false := by
      rw [preamble_bit _ (by decide)]
      rfl
    rw [hans, tModelStep_eq, consult_answer, queryBit, hinject, Bool.xor_false, toZ_xor, h 10 (by decide)]

def Solves (g : Gauss) (x : Fin nunk → ZMod 2) : Prop :=
  g.contra = 0 ∧ ∀ c : Fin nunk, g.has c = true → value (form (g.piv c)) x = 0

structure Formed (g : Gauss) : Prop where
  leads : ∀ c : Fin nunk, g.has c = true → Leads (form (g.piv c)) c
  rank : g.rank = (Finset.univ.filter fun c : Fin nunk => g.has c = true).card

theorem formed_init : Formed gaussInit := by
  refine ⟨fun _ hc => absurd hc Bool.false_ne_true, ?_⟩
  simp [gaussInit]

theorem solves_init (x : Fin nunk → ZMod 2) : Solves gaussInit x :=
  ⟨rfl, fun _ hc => absurd hc Bool.false_ne_true⟩

theorem leads_form {l : Lin} {c : Fin nunk} :
    Leads (form l) c ↔ linBit l c = true ∧ ∀ d < c.val, linBit l d = false := by
  constructor
  · intro h
    refine ⟨toZ_inj h.one, fun d hd => ?_⟩
    exact toZ_inj (h.before ⟨d, Nat.lt_trans hd c.isLt⟩ hd)
  · rintro ⟨hone, hbefore⟩
    exact ⟨congrArg toZ hone, fun d hd => congrArg toZ (hbefore d.val hd)⟩

theorem gaussAddLoop_exact {g : Gauss} (hg : Formed g) (fuel c : ℕ) (hfuel : c + fuel = nunk) (row : Lin)
    (hbefore : ∀ d < c, linBit row d = false) :
    Formed (gaussAddLoop g fuel c row) ∧
      ∀ x, Solves (gaussAddLoop g fuel c row) x ↔ Solves g x ∧ value (form row) x = 0 := by
  induction fuel generalizing c row with
  | zero =>
    have hempty : (form row).1 = 0 :=
      funext fun i => congrArg toZ (hbefore i.val (Nat.lt_of_lt_of_eq i.isLt hfuel.symm))
    have hvalue (x : Fin nunk → ZMod 2) : value (form row) x = toZ row.c := value_const hempty x
    unfold gaussAddLoop
    cases hc : row.c with
    | true =>
      rw [if_pos rfl]
      refine ⟨⟨hg.leads, hg.rank⟩, fun x => iff_of_false (fun hx => Nat.succ_ne_zero _ hx.1) fun hx => ?_⟩
      have hzero := hx.2
      rw [hvalue, hc] at hzero
      exact absurd hzero (by decide)
    | false =>
      rw [if_neg Bool.false_ne_true]
      refine ⟨hg, fun x => (and_iff_left ?_).symm⟩
      rw [hvalue, hc]
      rfl
  | succ fuel ih =>
    have hlt : c < nunk := by omega
    have hgrow (row' : Lin) (hcol : linBit row' c = false) (hrest : ∀ d < c, linBit row' d = false) (d : ℕ) (hd : d < c + 1) :
        linBit row' d = false := by
      rcases Nat.lt_succ_iff_lt_or_eq.mp hd with hlow | rfl
      · exact hrest d hlow
      · exact hcol
    unfold gaussAddLoop
    cases hbit : linBit row c with
    | false =>
      rw [if_pos rfl]
      exact ih (c + 1) (by omega) row (hgrow row hbit hbefore)
    | true =>
      rw [if_neg (fun h => Bool.false_ne_true h.symm)]
      cases hhas : g.has c with
      | true =>
        rw [if_pos rfl]
        have hrow := fun d => linBit_linXor row (g.piv c) d
        obtain ⟨hone, hlow⟩ := leads_form.mp (hg.leads ⟨c, hlt⟩ hhas)
        obtain ⟨hformed, hsolves⟩ := ih (c + 1) (by omega) (linXor row (g.piv c))
          (hgrow _ (by rw [hrow, hbit, hone]; rfl) fun d hd => by rw [hrow, hbefore d hd, hlow d hd]; rfl)
        refine ⟨hformed, fun x => (hsolves x).trans (and_congr_right fun hx => ?_)⟩
        rw [form_linXor, value_add, hx.2 ⟨c, hlt⟩ hhas, add_zero]
      | false =>
        rw [if_neg Bool.false_ne_true]
        have hother (d : Fin nunk) (hd : d ≠ ⟨c, hlt⟩) : d.val ≠ c := fun heq => hd (Fin.ext heq)
        refine ⟨⟨fun d hd => ?_, ?_⟩, fun x => ⟨fun hx => ⟨⟨hx.1, fun d hd => ?_⟩, ?_⟩, fun hx => ⟨hx.1.1, fun d hd => ?_⟩⟩⟩
        · by_cases hc : d = ⟨c, hlt⟩
          · subst hc
            dsimp only
            rw [Function.update_self]
            exact leads_form.mpr ⟨hbit, hbefore⟩
          · dsimp only at hd ⊢
            rw [Function.update_of_ne (hother d hc)] at hd ⊢
            exact hg.leads d hd
        · have hinsert : (Finset.univ.filter fun d : Fin nunk => Function.update g.has c true d = true) =
              insert ⟨c, hlt⟩ (Finset.univ.filter fun d : Fin nunk => g.has d = true) := by
            ext d
            by_cases hc : d = ⟨c, hlt⟩
            · simp [hc]
            · simp [hc, Function.update_of_ne (hother d hc)]
          have hnew : (⟨c, hlt⟩ : Fin nunk) ∉ Finset.univ.filter fun d : Fin nunk => g.has d = true := by
            simp [hhas]
          dsimp only
          rw [hinsert, Finset.card_insert_of_notMem hnew, hg.rank]
        · have hne : d.val ≠ c := by
            intro heq
            rw [heq, hhas] at hd
            cases hd
          have hpiv := hx.2 d ((Function.update_of_ne hne ..).trans hd)
          dsimp only at hpiv
          rwa [Function.update_of_ne hne] at hpiv
        · have hpiv := hx.2 ⟨c, hlt⟩ (Function.update_self ..)
          dsimp only at hpiv
          rwa [Function.update_self] at hpiv
        · by_cases hc : d = ⟨c, hlt⟩
          · subst hc
            dsimp only
            rw [Function.update_self]
            exact hx.2
          · dsimp only at hd ⊢
            rw [Function.update_of_ne (hother d hc)] at hd ⊢
            exact hx.1.2 d hd

theorem gaussAdd_exact {g : Gauss} (hg : Formed g) (row : Lin) :
    Formed (gaussAdd g row) ∧ ∀ x, Solves (gaussAdd g row) x ↔ Solves g x ∧ value (form row) x = 0 :=
  gaussAddLoop_exact (g := { g with rows := g.rows + 1 }) ⟨hg.leads, hg.rank⟩ nunk 0 (Nat.zero_add nunk) row
    fun d hd => absurd hd (Nat.not_lt_zero d)

theorem feedRound_exact {key init : BitVec 32} (obs : List (BitVec 5 × Bool)) {g : Gauss} (hg : Formed g)
    {cur : BitVec 32} {sym : ℕ → Lin} (h : Tracks key init cur sym) :
    Formed (feedRound g sym obs) ∧ (Solves (feedRound g sym obs) (vec key init) ↔
      Solves g (vec key init) ∧ modelRound key cur (obs.map Prod.fst) = obs.map Prod.snd) := by
  induction obs generalizing g cur sym with
  | nil => exact ⟨hg, (and_iff_left rfl).symm⟩
  | cons o obs ih =>
    obtain ⟨q, a⟩ := o
    have hq : (q.setWidth 32).toNat < 32 := by
      rw [BitVec.toNat_setWidth]
      exact Nat.lt_of_le_of_lt (Nat.mod_le _ _) q.isLt
    obtain ⟨htracks, hans⟩ := tracks_step h (q.setWidth 32) hq
    obtain ⟨hformed, hsolves⟩ := gaussAdd_exact hg (linFlip (symStep sym (q.setWidth 32)).2 a)
    obtain ⟨hrest, hiff⟩ := ih hformed htracks
    have hrow : value (form (linFlip (symStep sym (q.setWidth 32)).2 a)) (vec key init) = 0 ↔
        (tModelStep cur key (q.setWidth 32)).2 = a := by
      have hval := val_linFlip key init (symStep sym (q.setWidth 32)).2 a
      unfold val at hval hans
      rw [hval, hans, CharTwo.add_eq_zero]
      exact ⟨toZ_inj, congrArg toZ⟩
    have hanswers : modelRound key cur (((q, a) :: obs).map Prod.fst) = ((q, a) :: obs).map Prod.snd ↔
        (tModelStep cur key (q.setWidth 32)).2 = a ∧
          modelRound key (tModelStep cur key (q.setWidth 32)).1 (obs.map Prod.fst) = obs.map Prod.snd :=
      List.cons_eq_cons
    refine ⟨hrest, hiff.trans ?_⟩
    rw [hsolves, hrow, hanswers, and_assoc]

theorem feed_exact (rounds : List (List (BitVec 5 × Bool))) :
    Formed (feed rounds) ∧ ∀ key init : BitVec 32, init < 2048 →
      (Solves (feed rounds) (vec key init) ↔ Reproduces key init rounds) := by
  have hloop (rounds : List (List (BitVec 5 × Bool))) (g : Gauss) (hg : Formed g) :
      Formed (rounds.foldl (fun g obs => feedRound g symReset obs) g) ∧ ∀ key init : BitVec 32, init < 2048 →
        (Solves (rounds.foldl (fun g obs => feedRound g symReset obs) g) (vec key init) ↔
          Solves g (vec key init) ∧ Reproduces key init rounds) := by
    induction rounds generalizing g with
    | nil => exact ⟨hg, fun key init _ => (and_iff_left fun obs hobs => absurd hobs List.not_mem_nil).symm⟩
    | cons obs rounds ih =>
      have hzero : Tracks 0 0 0 symReset := tracks_reset (by decide)
      obtain ⟨hformed, hiff⟩ := ih (feedRound g symReset obs) (feedRound_exact obs hg hzero).1
      refine ⟨hformed, fun key init hinit => (hiff key init hinit).trans ?_⟩
      rw [(feedRound_exact obs hg (tracks_reset hinit)).2, and_assoc]
      unfold Reproduces
      rw [List.forall_mem_cons]
  obtain ⟨hformed, hiff⟩ := hloop rounds gaussInit formed_init
  exact ⟨hformed, fun key init hinit => (hiff key init hinit).trans (and_iff_right (solves_init _))⟩

theorem clearColumn_row (c : ℕ) (g : Gauss) {d : ℕ} (hd : d ≤ c) (r : ℕ) :
    (clearColumn c d g).piv r =
      if r < d ∧ linBit (g.piv r) c = true then linXor (g.piv r) (g.piv c) else g.piv r := by
  induction d generalizing r with
  | zero => exact (if_neg fun h => Nat.not_lt_zero r h.1).symm
  | succ d ih =>
    have hrow : (clearColumn c d g).piv d = g.piv d := (ih (Nat.le_of_succ_le hd) d).trans (if_neg fun h => Nat.lt_irrefl d h.1)
    have hpivot : (clearColumn c d g).piv c = g.piv c :=
      (ih (Nat.le_of_succ_le hd) c).trans (if_neg fun h => Nat.lt_asymm h.1 hd)
    have hstep : (clearColumn c (d + 1) g).piv r =
        if linBit (g.piv d) c = true ∧ r = d then linXor (g.piv d) (g.piv c) else (clearColumn c d g).piv r := by
      have hdef : clearColumn c (d + 1) g =
          if linBit ((clearColumn c d g).piv d) c then
            { clearColumn c d g with
              piv := Function.update (clearColumn c d g).piv d
                (linXor ((clearColumn c d g).piv d) ((clearColumn c d g).piv c)) }
          else clearColumn c d g := rfl
      rw [hdef, hrow, hpivot]
      by_cases hbit : linBit (g.piv d) c = true
      · rw [if_pos hbit]
        by_cases hr : r = d
        · rw [if_pos ⟨hbit, hr⟩, hr]
          exact Function.update_self ..
        · rw [if_neg fun h => hr h.2]
          exact Function.update_of_ne hr ..
      · rw [if_neg hbit, if_neg fun h => hbit h.1]
    rw [hstep, ih (Nat.le_of_succ_le hd)]
    by_cases hr : r = d
    · subst hr
      by_cases hbit : linBit (g.piv r) c = true
      · rw [if_pos ⟨hbit, rfl⟩, if_pos ⟨Nat.lt_succ_self r, hbit⟩]
      · rw [if_neg fun h => hbit h.1, if_neg fun h => hbit h.2, if_neg fun h => hbit h.2]
    · rw [if_neg fun h => hr h.2]
      exact if_congr (and_congr_left fun _ => by omega) rfl rfl

/-- Every row is a pivot, and the columns from `n` on have only it. -/
structure Reduced (g : Gauss) (n : ℕ) : Prop where
  leads : ∀ c : Fin nunk, Leads (form (g.piv c)) c
  clear : ∀ c < nunk, ∀ d < nunk, n ≤ d → d ≠ c → linBit (g.piv c) d = false

def Zeros (g : Gauss) (x : Fin nunk → ZMod 2) : Prop := ∀ c : Fin nunk, value (form (g.piv c)) x = 0

theorem clearColumn_reduced {g : Gauss} {n : ℕ} (hn : n < nunk) (h : Reduced g (n + 1)) :
    Reduced (clearColumn n n g) n ∧ ∀ x, Zeros (clearColumn n n g) x ↔ Zeros g x := by
  have hrow := clearColumn_row n g (Nat.le_refl n)
  obtain ⟨hone, hlow⟩ := leads_form.mp (h.leads ⟨n, hn⟩)
  dsimp only at hone hlow
  refine ⟨⟨fun c => ?_, fun c hc d hd hnd hdc => ?_⟩, fun x => ⟨fun hx c => ?_, fun hx c => ?_⟩⟩
  · obtain ⟨hc, hbefore⟩ := leads_form.mp (h.leads c)
    rw [hrow]
    by_cases hclear : c.val < n ∧ linBit (g.piv c) n = true
    · rw [if_pos hclear]
      refine leads_form.mpr ⟨?_, fun d hd => ?_⟩
      · rw [linBit_linXor, hc, hlow c hclear.1]
        rfl
      · rw [linBit_linXor, hbefore d hd, hlow d (Nat.lt_trans hd hclear.1)]
        rfl
    · rw [if_neg hclear]
      exact h.leads c
  · rw [hrow]
    by_cases hclear : c < n ∧ linBit (g.piv c) n = true
    · rw [if_pos hclear, linBit_linXor]
      by_cases hdn : d = n
      · subst hdn
        rw [hclear.2, hone]
        rfl
      · rw [h.clear c hc d hd (by omega) hdc, h.clear n hn d hd (by omega) hdn]
        rfl
    · rw [if_neg hclear]
      by_cases hdn : d = n
      · subst hdn
        rcases Nat.lt_trichotomy c d with hlt | heq | hgt
        · exact Bool.eq_false_iff.mpr fun hbit => hclear ⟨hlt, hbit⟩
        · exact absurd heq.symm hdc
        · exact (leads_form.mp (h.leads ⟨c, hc⟩)).2 d hgt
      · exact h.clear c hc d hd (by omega) hdc
  · have hpivot : value (form (g.piv n)) x = 0 := by
      have hzero := hx ⟨n, hn⟩
      rwa [hrow, if_neg fun h => Nat.lt_irrefl n h.1] at hzero
    have hzero := hx c
    rw [hrow] at hzero
    by_cases hclear : c.val < n ∧ linBit (g.piv c) n = true
    · rwa [if_pos hclear, form_linXor, value_add, hpivot, add_zero] at hzero
    · rwa [if_neg hclear] at hzero
  · rw [hrow]
    by_cases hclear : c.val < n ∧ linBit (g.piv c) n = true
    · rw [if_pos hclear, form_linXor, value_add, hx c, hx ⟨n, hn⟩, add_zero]
    · rw [if_neg hclear]
      exact hx c

theorem backSubstitute_reduced {n : ℕ} (hn : n ≤ nunk) {g : Gauss} (h : Reduced g n) :
    Reduced (backSubstitute n g) 0 ∧ ∀ x, Zeros (backSubstitute n g) x ↔ Zeros g x := by
  induction n generalizing g with
  | zero => exact ⟨h, fun x => Iff.rfl⟩
  | succ n ih =>
    obtain ⟨hreduced, hzeros⟩ := clearColumn_reduced hn h
    obtain ⟨hrest, hsame⟩ := ih (Nat.le_of_succ_le hn) hreduced
    exact ⟨hrest, fun x => (hsame x).trans (hzeros x)⟩

theorem formed_rank {g : Gauss} (hg : Formed g) : g.rank = nunk ↔ ∀ c : Fin nunk, g.has c = true := by
  rw [hg.rank]
  constructor
  · intro h c
    have hall := Finset.eq_univ_of_card _ (h.trans (Fintype.card_fin nunk).symm)
    have hc : c ∈ Finset.univ.filter fun c : Fin nunk => g.has c = true := by
      rw [hall]
      exact Finset.mem_univ c
    exact (Finset.mem_filter.mp hc).2
  · intro h
    rw [Finset.filter_true_of_mem fun c _ => h c]
    exact Fintype.card_fin nunk

theorem gaussSolve_full {g : Gauss} (hg : Formed g) (hfull : ∀ c : Fin nunk, g.has c = true) :
    ∃ key init : BitVec 32, gaussSolve g = some (key, init) ∧ init < 2048 ∧ ∀ x, Zeros g x ↔ x = vec key init := by
  obtain ⟨hreduced, hzeros⟩ := backSubstitute_reduced (Nat.le_refl nunk) (g := g)
    ⟨fun c => hg.leads c (hfull c), fun c _ d hd hnd => absurd hd (Nat.not_lt.mpr hnd)⟩
  refine ⟨_, _, if_neg (not_not.mpr ((formed_rank hg).mpr hfull)), ?_, fun x => (hzeros x).symm.trans ?_⟩
  · rw [BitVec.lt_def]
    apply Nat.lt_pow_two_of_testBit (n := 11)
    intro i hi
    have hbit := gather_bit (fun c => ((backSubstitute nunk g).piv (32 + c)).c) (by decide : nunk - 32 ≤ 32) i
    rw [decide_eq_false (by unfold nunk; omega), Bool.false_and] at hbit
    exact hbit
  · rw [vec_gather fun c => ((backSubstitute nunk g).piv c).c, funext_iff]
    refine forall_congr' fun c => ?_
    have hunit : (form ((backSubstitute nunk g).piv c)).1 = Pi.single c 1 := by
      funext d
      rw [Pi.single_apply]
      by_cases hd : d = c
      · rw [if_pos hd, hd]
        exact (hreduced.leads c).one
      · rw [if_neg hd]
        exact congrArg toZ (hreduced.clear c c.isLt d d.isLt (Nat.zero_le _) fun h => hd (Fin.ext h))
    rw [value_single hunit, CharTwo.add_eq_zero]
    exact Iff.rfl

def pivots (g : Gauss) (c : Fin nunk) : Option (Form (ZMod 2) nunk) :=
  if g.has c then some (form (g.piv c)) else none

theorem pivots_lead {g : Gauss} (hg : Formed g) (c : Fin nunk) (f : Form (ZMod 2) nunk) (h : pivots g c = some f) :
    Leads f c := by
  unfold pivots at h
  by_cases hc : g.has c = true
  · rw [if_pos hc] at h
    obtain rfl := Option.some.inj h
    exact hg.leads c hc
  · rw [if_neg hc] at h
    cases h

theorem exists_solves {g : Gauss} (hg : Formed g) (hcontra : g.contra = 0) : ∃ x, Solves g x := by
  obtain ⟨x, hx, -⟩ := exists_solution (pivots g) (pivots_lead hg) 0
  exact ⟨x, hcontra, fun c hc => hx c _ (if_pos hc)⟩

theorem exists_unlike {g : Gauss} (hg : Formed g) (hcontra : g.contra = 0) {c : Fin nunk} (hc : g.has c = false)
    (x : Fin nunk → ZMod 2) : ∃ x', Solves g x' ∧ x' ≠ x := by
  have hfree : pivots g c = none := if_neg (Bool.eq_false_iff.mp hc)
  obtain ⟨x', hx', hne⟩ := exists_other (pivots g) (pivots_lead hg) hfree x
  exact ⟨x', ⟨hcontra, fun c hc => hx' c _ (if_pos hc)⟩, hne⟩

theorem exists_vec (x : Fin nunk → ZMod 2) : ∃ (key : BitVec 32) (init : BitVec 11), vec key (init.setWidth 32) = x := by
  choose b hb using fun i => toZ_surjective (x i)
  let bits : ℕ → Bool := fun i => if h : i < nunk then b ⟨i, h⟩ else false
  have hreg : ((gather (fun i => bits (32 + i)) (nunk - 32)).setWidth 11).setWidth 32 =
      gather (fun i => bits (32 + i)) (nunk - 32) := by
    refine BitVec.eq_of_getLsbD_eq fun i hi => ?_
    rw [BitVec.getLsbD_setWidth, BitVec.getLsbD_setWidth, gather_bit _ (by decide)]
    unfold nunk
    by_cases hlow : i < 11
    · simp [hi, hlow]
    · simp [hlow]
  refine ⟨gather bits 32, (gather (fun i => bits (32 + i)) (nunk - 32)).setWidth 11, ?_⟩
  rw [hreg, vec_gather bits]
  funext i
  rw [← hb i]
  exact congrArg toZ (dif_pos i.isLt)

theorem register_small (init : BitVec 11) : init.setWidth 32 < (2048 : BitVec 32) := by
  rw [BitVec.lt_def, BitVec.toNat_setWidth]
  exact Nat.lt_of_le_of_lt (Nat.mod_le _ _) init.isLt

theorem register_vec {key key' : BitVec 32} {init init' : BitVec 11}
    (h : vec key (init.setWidth 32) = vec key' (init'.setWidth 32)) : key = key' ∧ init = init' := by
  obtain ⟨hkey, hinit⟩ := vec_inj h
  refine ⟨hkey, BitVec.eq_of_getLsbD_eq fun i hi => ?_⟩
  have hbit := hinit i hi
  rw [BitVec.getLsbD_setWidth, BitVec.getLsbD_setWidth, decide_eq_true (Nat.lt_trans hi (by decide))] at hbit
  simpa using hbit

theorem modelRound_part (part : Part) (vals : List Byte) (t : Keyed) (hmode : t.mode = 0) (cur : BitVec 32)
    (hcur : ∀ i < 12, cur.getLsbD i = t.cur.getLsbD i) :
    partRound part t vals = modelRound part.tKey cur (vals.map fun v => (queryIndex v).setWidth 5) := by
  induction vals generalizing t cur with
  | nil => rfl
  | cons v vals ih =>
    have hindex : ((queryIndex v).setWidth 5).setWidth 32 = queryIndex v := by
      revert v
      decide +kernel
    have hstep : tStep part t v =
        ({ t with cur := (consult part.tKey 0 t.cur (queryIndex v)).1 }, (consult part.tKey 0 t.cur (queryIndex v)).2) := by
      unfold tStep
      rw [hmode, registerStep_consult]
    have hans : (tModelStep cur part.tKey (queryIndex v)).2 = (consult part.tKey 0 t.cur (queryIndex v)).2 := by
      rw [tModelStep_eq, consult_answer, consult_answer, hcur 10 (by decide)]
    have hnext (i : ℕ) (hi : i < 12) :
        (tModelStep cur part.tKey (queryIndex v)).1.getLsbD i = (consult part.tKey 0 t.cur (queryIndex v)).1.getLsbD i := by
      cases i with
      | zero =>
        have hterm : feedback part.tKey t.cur (queryIndex v) ^^^ tModeTerm 0 t.cur (queryIndex v) =
            feedback part.tKey t.cur (queryIndex v) := BitVec.xor_zero
        have hconsult : (consult part.tKey 0 t.cur (queryIndex v)).1 =
            shiftIn t.cur (queryIndex v) (feedback part.tKey t.cur (queryIndex v) ^^^ tModeTerm 0 t.cur (queryIndex v)) := rfl
        rw [tModelStep_zero, hconsult, hterm, shiftIn_zero, feedback_bit, feedback_bit, hcur 10 (by decide),
          hcur 7 (by decide), hcur 5 (by decide), hcur 8 (by decide)]
      | succ i =>
        rw [tModelStep_succ _ _ _ hi, consult_succ _ _ _ _ (Nat.lt_trans hi (by decide)), hcur i (Nat.lt_of_succ_lt hi)]
    have hround (i5 : BitVec 32) (hi5 : ((queryIndex v).setWidth 5).setWidth 32 = i5) :
        modelRound part.tKey cur ((v :: vals).map fun v => (queryIndex v).setWidth 5) =
          (tModelStep cur part.tKey i5).2 ::
            modelRound part.tKey (tModelStep cur part.tKey i5).1 (vals.map fun v => (queryIndex v).setWidth 5) := by
      rw [← hi5]
      rfl
    have hpart : partRound part t (v :: vals) = (tStep part t v).2 :: partRound part (tStep part t v).1 vals := rfl
    rw [hround _ hindex, hans, hpart, hstep]
    exact congrArg (List.cons _)
      (ih { t with cur := (consult part.tKey 0 t.cur (queryIndex v)).1 } hmode
        (tModelStep cur part.tKey (queryIndex v)).1 hnext)

theorem modelRound_length (key : BitVec 32) (qs : List (BitVec 5)) (cur : BitVec 32) :
    (modelRound key cur qs).length = qs.length := by
  induction qs generalizing cur with
  | nil => rfl
  | cons q qs ih => exact congrArg Nat.succ (ih _)

theorem reproduces_observed (key init key' init' : BitVec 32) (rounds : List (List (BitVec 5))) :
    Reproduces key' init' (observed key init rounds) ↔ observed key' init' rounds = observed key init rounds := by
  have hfst (k r : BitVec 32) (qs : List (BitVec 5)) : (qs.zip (modelRound k r qs)).map Prod.fst = qs :=
    List.map_fst_zip (Nat.le_of_eq (modelRound_length k qs r).symm)
  have hsnd (k r : BitVec 32) (qs : List (BitVec 5)) : (qs.zip (modelRound k r qs)).map Prod.snd = modelRound k r qs :=
    List.map_snd_zip (Nat.le_of_eq (modelRound_length k qs r))
  unfold Reproduces observed
  rw [List.map_inj_left, List.forall_mem_map]
  refine forall₂_congr fun qs _ => ?_
  rw [hfst, hsnd]
  constructor
  · intro h
    rw [h]
  · intro h
    rw [← hsnd key' init' qs, h, hsnd]

/-- The solver is sound and complete for the answers of the model, which are those of the part in mode 0. -/
theorem solver_exact :
    (∀ (key : BitVec 32) (init : BitVec 11) (rounds : List (List (BitVec 5))),
      let g := feed (observed key (init.setWidth 32) rounds)
      g.contra = 0 ∧
        ((∀ (key' : BitVec 32) (init' : BitVec 11),
          observed key' (init'.setWidth 32) rounds = observed key (init.setWidth 32) rounds → key' = key ∧ init' = init) ↔
          (gaussSolve g).isSome) ∧
        ∀ s, gaussSolve g = some s → s = (key, init.setWidth 32)) ∧
    (∀ obs : List (List (BitVec 5 × Bool)),
      ((feed obs).contra = 0 ↔
        ∃ (key : BitVec 32) (init : BitVec 11), Reproduces key (init.setWidth 32) obs) ∧
      ((feed obs).contra = 0 → ∀ key init, gaussSolve (feed obs) = some (key, init) →
        init < 2048 ∧ Reproduces key init obs)) ∧
    ∀ (part : Part) (t : Keyed) (vals : List Byte), t.mode = 0 →
      partRound part t vals = modelRound part.tKey t.cur (vals.map fun v => (queryIndex v).setWidth 5) := by
  have hzeros {g : Gauss} (hfull : ∀ c : Fin nunk, g.has c = true) (hcontra : g.contra = 0) (x : Fin nunk → ZMod 2) :
      Solves g x ↔ Zeros g x :=
    ⟨fun h c => h.2 c (hfull c), fun h => ⟨hcontra, fun c _ => h c⟩⟩
  have hfull {g : Gauss} (hg : Formed g) {s : BitVec 32 × BitVec 32} (hs : gaussSolve g = some s) :
      ∀ c : Fin nunk, g.has c = true := by
    apply (formed_rank hg).mp
    by_contra hrank
    unfold gaussSolve at hs
    rw [if_pos hrank] at hs
    cases hs
  refine ⟨fun key init rounds => ?_, fun obs => ⟨⟨fun hcontra => ?_, ?_⟩, fun hcontra key init hsolve => ?_⟩,
    fun part t vals hmode => modelRound_part part vals t hmode t.cur fun _ _ => rfl⟩
  · intro g
    obtain ⟨hg, hexact⟩ := feed_exact (observed key (init.setWidth 32) rounds)
    have hself : Solves g (vec key (init.setWidth 32)) :=
      (hexact key _ (register_small init)).mpr ((reproduces_observed _ _ _ _ rounds).mpr rfl)
    have hother (key' : BitVec 32) (init' : BitVec 11) : Solves g (vec key' (init'.setWidth 32)) ↔
        observed key' (init'.setWidth 32) rounds = observed key (init.setWidth 32) rounds :=
      (hexact key' _ (register_small init')).trans (reproduces_observed _ _ _ _ rounds)
    refine ⟨hself.1, ⟨fun hunique => ?_, fun hsome key' init' hsame => ?_⟩, fun s hs => ?_⟩
    · have hall (c : Fin nunk) : g.has c = true := by
        by_contra hc
        obtain ⟨x', hx', hne⟩ := exists_unlike hg hself.1 (Bool.eq_false_iff.mpr hc) (vec key (init.setWidth 32))
        obtain ⟨key', init', rfl⟩ := exists_vec x'
        obtain ⟨rfl, rfl⟩ := hunique key' init' ((hother key' init').mp hx')
        exact hne rfl
      obtain ⟨key', init', hsolve, -⟩ := gaussSolve_full hg hall
      rw [hsolve]
      rfl
    · obtain ⟨s, hs⟩ := Option.isSome_iff_exists.mp hsome
      have hall := hfull hg hs
      obtain ⟨k, r, -, -, honly⟩ := gaussSolve_full hg hall
      have hmine := (honly _).mp ((hzeros hall hself.1 _).mp hself)
      have htheirs := (honly _).mp ((hzeros hall hself.1 _).mp ((hother key' init').mpr hsame))
      exact register_vec (htheirs.trans hmine.symm)
    · have hall := hfull hg hs
      obtain ⟨k, r, hsolve, hr, honly⟩ := gaussSolve_full hg hall
      obtain rfl : (k, r) = s := Option.some.inj (hsolve.symm.trans hs)
      have hmine := (honly _).mp ((hzeros hall hself.1 _).mp hself)
      obtain ⟨hkey, hinit⟩ := vec_inj hmine
      refine Prod.ext hkey.symm (BitVec.eq_of_getLsbD_eq fun i _ => ?_)
      by_cases hi : i < 11
      · exact (hinit i hi).symm
      · have hsmall (x : BitVec 32) (hx : x < 2048) : x.getLsbD i = false :=
          Nat.testBit_lt_two_pow (Nat.lt_of_lt_of_le (BitVec.lt_def.mp hx)
            (Nat.pow_le_pow_right (by decide) (Nat.not_lt.mp hi) : 2 ^ 11 ≤ 2 ^ i))
        rw [hsmall r hr, hsmall _ (register_small init)]
  · obtain ⟨hg, hexact⟩ := feed_exact obs
    obtain ⟨x, hx⟩ := exists_solves hg hcontra
    obtain ⟨key, init, rfl⟩ := exists_vec x
    exact ⟨key, init, (hexact key _ (register_small init)).mp hx⟩
  · rintro ⟨key, init, hrepr⟩
    exact (((feed_exact obs).2 key _ (register_small init)).mpr hrepr).1
  · obtain ⟨hg, hexact⟩ := feed_exact obs
    have hall := hfull hg hsolve
    obtain ⟨k, r, hs, hr, honly⟩ := gaussSolve_full hg hall
    obtain ⟨rfl, rfl⟩ := Prod.mk.inj (Option.some.inj (hs.symm.trans hsolve))
    exact ⟨hr, (hexact k r hr).mp ((hzeros hall hcontra _).mpr ((honly _).mpr rfl))⟩

end PeepeeBox.DumpSolver
