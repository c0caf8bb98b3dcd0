import Mathlib.Logic.Function.Basic
import PeepeeBox.SoftPart
import PeepeeBox.XorMaps

set_option autoImplicit false

/-!
# The block cipher around the part

Two keyless stages of six rounds with a keyed round after each: `softpart.py` decodes, `mklist.py` solves a block
whose plaintext is known, and `dongcap.c` goes through a block from either end.
-/
namespace PeepeeBox.CipherBlocks
open XorMaps

def ca : BitVec 32 := 0x5B2C004A

def cb : BitVec 32 := 0x803425C3

abbrev Block := BitVec 32 × BitVec 32

def rol (v : BitVec 32) (s : ℕ) : BitVec 32 :=
  let s := s &&& 31
  if s = 0 then v else v <<< s ||| v >>> (32 - s)

/-- One keyless round with the constant `k`. -/
def crossRound (k : BitVec 32) (b : Block) (s : ℕ) : Block := (rol (b.1 ^^^ k) s ^^^ b.2, b.1)

def aRounds (b0 b1 : BitVec 32) : Block := [25, 20, 15, 10, 5, 0].foldl (crossRound ca) (b0, b1)

def bRounds (b0 b1 : BitVec 32) : Block := [10, 8, 6, 4, 2, 0].foldl (crossRound cb) (b0, b1)

def bitLength (v : BitVec 32) : ℕ := if v = 0 then 0 else Nat.log2 v.toNat + 1

abbrev Basis := ℕ → Option (BitVec 32 × BitVec 32)

/-- The inner loop of `_linmap` for one column, `fuel` times at most. -/
def insert : ℕ → Basis → BitVec 32 → BitVec 32 → Option Basis
  | 0, _, _, _ => none
  | fuel + 1, basis, v, m =>
    if v = 0 then some basis
    else
      let hb := bitLength v - 1
      match basis hb with
      | some (bv, bm) => insert fuel basis (v ^^^ bv) (m ^^^ bm)
      | none => some (Function.update basis hb (some (v, m)))

/-- The loop that makes `1 << i` of the basis; a bit the basis has no entry for is an error. -/
def express : ℕ → Basis → BitVec 32 → BitVec 32 → Option (BitVec 32)
  | 0, _, _, _ => none
  | fuel + 1, basis, t, x =>
    if t = 0 then some x
    else
      match basis (bitLength t - 1) with
      | some (bv, bm) => express fuel basis (t ^^^ bv) (x ^^^ bm)
      | none => none

def column (i : ℕ) : BitVec 32 := (bRounds ((1 : BitVec 32) <<< i) 0).1 ^^^ (bRounds 0 0).1

def linmap : Option (List (BitVec 32)) := do
  let basis ← (List.range 32).foldlM (fun basis i => insert 33 basis (column i) ((1 : BitVec 32) <<< i)) fun _ => none
  (List.range 32).mapM fun i => express 33 basis ((1 : BitVec 32) <<< i) 0

def inv : List (BitVec 32) := linmap.getD []

/-- The loop of `apply_mat`, `fuel` times at most. -/
def applyLoop (cols : List (BitVec 32)) : ℕ → BitVec 32 → BitVec 32 → BitVec 32
  | 0, _, r => r
  | fuel + 1, x, r =>
    if x = 0 then r
    else applyLoop cols fuel (x &&& (x - 1)) (r ^^^ cols.getD (bitLength (x &&& -x) - 1) 0)

def applyMat (cols : List (BitVec 32)) (x : BitVec 32) : BitVec 32 := applyLoop cols 32 x 0

/-- `(L1, f1, L3, f2)` of a block whose plaintext is known. -/
def solveFromPlain (c0 c1 p0 p1 : BitVec 32) : Option (BitVec 32 × BitVec 32 × BitVec 32 × BitVec 32) :=
  let (l1, r1) := aRounds c0 c1
  let const := (bRounds r1 l1).1
  let f1 := applyMat inv (p1 ^^^ const)
  let (l3, r3) := bRounds (f1 ^^^ r1) l1
  if l3 ≠ p1 then none else some (l1, f1, l3, p0 ^^^ r3)

/-- `decode_block` over any keyed function. -/
def decodeWith (f : BitVec 32 → BitVec 32) (c0 c1 : BitVec 32) : Block :=
  let (b0, b1) := aRounds c0 c1
  let tmp := b0
  let b0 := f b0 ^^^ b1
  let b1 := tmp
  let (b0, b1) := bRounds b0 b1
  let tmp := b0
  let b0 := f b0 ^^^ b1
  (b0, tmp)

def decodeBlock (c0 c1 key cur : BitVec 32) : Block := decodeWith (fun v => SoftPart.keyedRound v key cur) c0 c1

def bRoundsFirst (b0 b1 : BitVec 32) : BitVec 32 := ([10, 8, 6, 4, 2, 0].foldl (crossRound cb) (b0, b1)).1

def ascend (b : Block) (s : ℕ) : Block := (b.2, rol (b.2 ^^^ cb) s ^^^ b.1)

def bRoundsFwdSecond (b0 b1 : BitVec 32) : BitVec 32 := ([0, 2, 4, 6, 8, 10].foldl ascend (b0, b1)).2

/-- What the capture stores of an entry of the decode direction: the answers to `L1` and to `L3`. -/
def decodeEntry (keyedRound : BitVec 32 → BitVec 32) (l1 r1 : BitVec 32) : Block :=
  let f1 := keyedRound l1
  let l3 := bRoundsFirst (f1 ^^^ r1) l1
  let f2 := keyedRound l3
  (f1, f2)

/-- What it stores of an entry of the encode direction, in the same slots. -/
def encodeEntry (keyedRound : BitVec 32 → BitVec 32) (p0 p1 : BitVec 32) : Block :=
  let l3 := p1
  let f2 := keyedRound l3
  let r3 := p0 ^^^ f2
  let l1 := bRoundsFwdSecond l3 r3
  let f1 := keyedRound l1
  (f1, f2)

theorem rol_getLsbD (v : BitVec 32) (s j : ℕ) (hj : j < 32) :
    (rol v s).getLsbD j = if j < s % 32 then v.getLsbD (32 - s % 32 + j) else v.getLsbD (j - s % 32) := by
  unfold rol
  rw [show s &&& 31 = s % 32 from Nat.and_two_pow_sub_one_eq_mod s 5]
  dsimp only
  have hs := Nat.mod_lt s (by decide : 0 < 32)
  generalize s % 32 = r at hs ⊢
  by_cases hr : r = 0
  · simp [hr]
  · rw [if_neg hr, BitVec.getLsbD_or, BitVec.getLsbD_shiftLeft, BitVec.getLsbD_ushiftRight]
    by_cases hlt : j < r
    · simp [hlt]
    · rw [BitVec.getLsbD_of_ge v (32 - r + j) (by omega)]
      simp [hlt, hj]

theorem rol_additive (s : ℕ) : Additive fun v => rol v s := by
  intro x y
  apply BitVec.eq_of_getLsbD_eq
  intro j hj
  rw [BitVec.getLsbD_xor, rol_getLsbD _ _ _ hj, rol_getLsbD _ _ _ hj, rol_getLsbD _ _ _ hj, BitVec.getLsbD_xor,
    BitVec.getLsbD_xor]
  split <;> rfl

theorem foldl_cross_xor (k : BitVec 32) (ss : List ℕ) (b d : Block) :
    ss.foldl (crossRound k) (b.1 ^^^ d.1, b.2 ^^^ d.2) =
      ((ss.foldl (crossRound k) b).1 ^^^ (ss.foldl (crossRound 0) d).1,
        (ss.foldl (crossRound k) b).2 ^^^ (ss.foldl (crossRound 0) d).2) := by
  induction ss generalizing b d with
  | nil => rfl
  | cons s ss ih =>
    rw [List.foldl_cons, List.foldl_cons, List.foldl_cons, ← ih]
    have hkeys : b.1 ^^^ d.1 ^^^ k = (b.1 ^^^ k) ^^^ d.1 := by
      rw [BitVec.xor_assoc, BitVec.xor_comm d.1, ← BitVec.xor_assoc]
    have hrol := rol_additive s (b.1 ^^^ k) d.1
    have hzero : d.1 ^^^ 0 = d.1 := BitVec.xor_zero
    unfold crossRound
    dsimp only at hrol ⊢
    rw [hkeys, hrol, hzero, xor_xor_xor_comm]

def spread (x : BitVec 32) : BitVec 32 := ([10, 8, 6, 4, 2, 0].foldl (crossRound 0) (x, 0)).1

theorem bRounds_spread (x r l : BitVec 32) : (bRounds (x ^^^ r) l).1 = spread x ^^^ (bRounds r l).1 := by
  have h := foldl_cross_xor cb [10, 8, 6, 4, 2, 0] (r, l) (x, 0)
  dsimp only at h
  rw [show l ^^^ 0 = l from BitVec.xor_zero, BitVec.xor_comm r x] at h
  rw [BitVec.xor_comm (spread x)]
  exact congrArg Prod.fst h

theorem spread_additive : Additive spread := by
  intro x y
  have h := foldl_cross_xor 0 [10, 8, 6, 4, 2, 0] (x, 0) (y, 0)
  rw [show (x, (0 : BitVec 32)).2 ^^^ (y, (0 : BitVec 32)).2 = 0 from BitVec.xor_self] at h
  exact congrArg Prod.fst h

theorem bitLength_twoPow : ∀ i < 32, bitLength (BitVec.twoPow 32 i) - 1 = i := by decide +kernel

theorem applyLoop_combine (cols : List (BitVec 32)) (fuel j : ℕ) (hfuel : fuel + j = 32) (x r : BitVec 32)
    (hlow : ∀ i < j, x.getLsbD i = false) :
    applyLoop cols fuel x r = r ^^^ combine (fun i => cols.getD i 0) x := by
  induction fuel generalizing j x r with
  | zero =>
    have hx : x = 0#32 := BitVec.eq_of_getLsbD_eq fun i hi => by simpa using hlow i (by omega)
    rw [hx, (combine_additive _).zero, BitVec.xor_zero]
    rfl
  | succ fuel ih =>
    unfold applyLoop
    by_cases hx : x = 0
    · rw [if_pos hx, hx, show combine (fun i => cols.getD i 0) (0 : BitVec 32) = 0#32 from (combine_additive _).zero,
        BitVec.xor_zero]
    · obtain ⟨i, hi, hneg, hpred, hbit, hbelow⟩ := lowest hx
      have hij : j ≤ i := by
        by_contra hlt
        rw [hlow i (by omega)] at hbit
        cases hbit
      rw [if_neg hx, hneg, bitLength_twoPow i hi, show x &&& (x - 1) = _ from hpred, ih (j + 1) (by omega)]
      · have hrest := combineTo_xor (fun i => cols.getD i 0) x (BitVec.twoPow 32 i) 32
        change combine _ _ = combine _ _ ^^^ combine _ _ at hrest
        rw [hrest, combine_twoPow _ hi, BitVec.xor_assoc, BitVec.xor_comm (cols.getD i 0), BitVec.xor_assoc,
          BitVec.xor_self, BitVec.xor_zero]
      · intro k hk
        rw [BitVec.getLsbD_xor, BitVec.getLsbD_twoPow]
        rcases Nat.lt_or_ge k i with hki | hki
        · rw [hbelow k hki, decide_eq_false (Nat.ne_of_gt hki), Bool.and_false]
          rfl
        · obtain rfl : k = i := by omega
          rw [hbit, decide_eq_true hi, decide_eq_true rfl]
          rfl

theorem applyMat_additive (cols : List (BitVec 32)) : Additive (applyMat cols) := by
  have hmat (x : BitVec 32) : applyMat cols x = combine (fun i => cols.getD i 0) x := by
    unfold applyMat
    rw [applyLoop_combine cols 32 0 rfl x 0 (fun i hi => absurd hi (Nat.not_lt_zero i))]
    exact BitVec.zero_xor
  intro x y
  rw [hmat, hmat, hmat]
  exact combine_additive _ x y

theorem inv_spread (x : BitVec 32) : applyMat inv (spread x) = x := by
  refine ((applyMat_additive inv).comp spread_additive).ext Additive.id ?_ x
  decide +kernel

theorem spread_inv (x : BitVec 32) : spread (applyMat inv x) = x := by
  refine (spread_additive.comp (applyMat_additive inv)).ext Additive.id ?_ x
  decide +kernel

theorem answer_unique (f1 r1 l1 p1 : BitVec 32) :
    (bRounds (f1 ^^^ r1) l1).1 = p1 ↔ applyMat inv (p1 ^^^ (bRounds r1 l1).1) = f1 := by
  rw [bRounds_spread]
  constructor
  · rintro rfl
    rw [BitVec.xor_assoc, BitVec.xor_self, BitVec.xor_zero, inv_spread]
  · rintro rfl
    rw [spread_inv, BitVec.xor_assoc, BitVec.xor_self, BitVec.xor_zero]

theorem solveFromPlain_eq (c0 c1 p0 p1 : BitVec 32) :
    let l1 := (aRounds c0 c1).1
    let r1 := (aRounds c0 c1).2
    let f1 := applyMat inv (p1 ^^^ (bRounds r1 l1).1)
    solveFromPlain c0 c1 p0 p1 = some (l1, f1, p1, p0 ^^^ (bRounds (f1 ^^^ r1) l1).2) := by
  intro l1 r1 f1
  have hfirst : (bRounds (f1 ^^^ r1) l1).1 = p1 := (answer_unique f1 r1 l1 p1).mpr rfl
  unfold solveFromPlain
  dsimp only
  rw [if_neg (not_not.mpr hfirst), hfirst]

theorem decodeWith_fst (f : BitVec 32 → BitVec 32) (c0 c1 : BitVec 32) :
    (decodeWith f c0 c1).2 = (bRounds (f (aRounds c0 c1).1 ^^^ (aRounds c0 c1).2) (aRounds c0 c1).1).1 := rfl

theorem decodeWith_snd (f : BitVec 32 → BitVec 32) (c0 c1 : BitVec 32) :
    (decodeWith f c0 c1).1 = f (decodeWith f c0 c1).2 ^^^
      (bRounds (f (aRounds c0 c1).1 ^^^ (aRounds c0 c1).2) (aRounds c0 c1).1).2 := rfl

theorem solve_decoded (f : BitVec 32 → BitVec 32) (c0 c1 : BitVec 32) :
    let l1 := (aRounds c0 c1).1
    let p := decodeWith f c0 c1
    solveFromPlain c0 c1 p.1 p.2 = some (l1, f l1, p.2, f p.2) := by
  intro l1 p
  have hsolve := solveFromPlain_eq c0 c1 p.1 p.2
  have hfirst := (answer_unique (f l1) (aRounds c0 c1).2 l1 p.2).mp (decodeWith_fst f c0 c1).symm
  dsimp only at hsolve
  rw [hsolve, hfirst, decodeWith_snd f c0 c1, BitVec.xor_assoc, BitVec.xor_self, BitVec.xor_zero]

theorem solve_sound {c0 c1 p0 p1 l1 f1 l3 f2 : BitVec 32} (h : solveFromPlain c0 c1 p0 p1 = some (l1, f1, l3, f2))
    (hone : l1 = l3 → f1 = f2) : ∃ f : BitVec 32 → BitVec 32, f l1 = f1 ∧ f l3 = f2 ∧ decodeWith f c0 c1 = (p0, p1) := by
  have hsolve := solveFromPlain_eq c0 c1 p0 p1
  dsimp only at hsolve
  rw [hsolve] at h
  simp only [Option.some.injEq, Prod.mk.injEq] at h
  obtain ⟨rfl, rfl, rfl, rfl⟩ := h
  generalize hl1 : (aRounds c0 c1).1 = l1 at *
  generalize hr1 : (aRounds c0 c1).2 = r1 at *
  generalize hf1 : applyMat inv (p1 ^^^ (bRounds r1 l1).1) = f1 at *
  have hfirst : (bRounds (f1 ^^^ r1) l1).1 = p1 := (answer_unique f1 r1 l1 p1).mpr hf1
  have hfl1 : Function.update (fun _ => p0 ^^^ (bRounds (f1 ^^^ r1) l1).2) l1 f1 l1 = f1 := Function.update_self ..
  have hfl3 : Function.update (fun _ => p0 ^^^ (bRounds (f1 ^^^ r1) l1).2) l1 f1 p1 =
      p0 ^^^ (bRounds (f1 ^^^ r1) l1).2 := by
    by_cases hsame : l1 = p1
    · rw [← hsame, hfl1]
      exact hone hsame
    · exact Function.update_of_ne (fun h => hsame h.symm) ..
  refine ⟨Function.update (fun _ => p0 ^^^ (bRounds (f1 ^^^ r1) l1).2) l1 f1, hfl1, hfl3, ?_⟩
  generalize Function.update (fun _ => p0 ^^^ (bRounds (f1 ^^^ r1) l1).2) l1 f1 = f at hfl1 hfl3
  have hsecond : (decodeWith f c0 c1).2 = p1 := by rw [decodeWith_fst, hl1, hr1, hfl1, hfirst]
  refine Prod.ext ?_ hsecond
  rw [decodeWith_snd, hsecond, hl1, hr1, hfl1, hfl3, BitVec.xor_assoc, BitVec.xor_self, BitVec.xor_zero]

theorem ascend_cross (b : Block) (s : ℕ) : ascend (crossRound cb b s) s = b := by
  unfold ascend crossRound
  dsimp only
  rw [← BitVec.xor_assoc, BitVec.xor_self, BitVec.zero_xor]

theorem ascend_bRounds (b0 b1 : BitVec 32) :
    bRoundsFwdSecond (bRounds b0 b1).1 (bRounds b0 b1).2 = b1 := by
  unfold bRoundsFwdSecond bRounds
  simp only [List.foldl_cons, List.foldl_nil, Prod.eta, ascend_cross]

theorem entries_agree (f : BitVec 32 → BitVec 32) (c0 c1 : BitVec 32) :
    encodeEntry f (decodeWith f c0 c1).1 (decodeWith f c0 c1).2 =
      decodeEntry f (aRounds c0 c1).1 (aRounds c0 c1).2 := by
  have hback : (decodeWith f c0 c1).1 ^^^ f (decodeWith f c0 c1).2 =
      (bRounds (f (aRounds c0 c1).1 ^^^ (aRounds c0 c1).2) (aRounds c0 c1).1).2 := by
    rw [decodeWith_snd, BitVec.xor_comm (f _), BitVec.xor_assoc, BitVec.xor_self, BitVec.xor_zero]
  have hl1 : bRoundsFwdSecond (decodeWith f c0 c1).2 ((decodeWith f c0 c1).1 ^^^ f (decodeWith f c0 c1).2) =
      (aRounds c0 c1).1 := by
    rw [hback, decodeWith_fst]
    exact ascend_bRounds _ _
  unfold encodeEntry decodeEntry
  dsimp only
  rw [hl1]
  rfl

def feistel (f : BitVec 32 → BitVec 32) (b : Block) : Block := (f b.1 ^^^ b.2, b.1)

theorem feistel_bijective (f : BitVec 32 → BitVec 32) : Function.Bijective (feistel f) := by
  refine Function.bijective_iff_has_inverse.mpr ⟨fun b => (b.2, f b.2 ^^^ b.1), fun b => ?_, fun b => ?_⟩
  · change (b.1, f b.1 ^^^ (f b.1 ^^^ b.2)) = b
    rw [← BitVec.xor_assoc, BitVec.xor_self, BitVec.zero_xor]
  · change (f b.2 ^^^ (f b.2 ^^^ b.1), b.2) = b
    rw [← BitVec.xor_assoc, BitVec.xor_self, BitVec.zero_xor]

theorem foldl_cross_bijective (k : BitVec 32) (ss : List ℕ) : Function.Bijective fun b => ss.foldl (crossRound k) b := by
  induction ss with
  | nil => exact Function.bijective_id
  | cons s ss ih => exact ih.comp (feistel_bijective fun x => rol (x ^^^ k) s)

theorem decodeWith_bijective (f : BitVec 32 → BitVec 32) :
    Function.Bijective fun b : Block => decodeWith f b.1 b.2 := by
  have hfirst := (feistel_bijective f).comp (foldl_cross_bijective ca [25, 20, 15, 10, 5, 0])
  have hsecond := (feistel_bijective f).comp (foldl_cross_bijective cb [10, 8, 6, 4, 2, 0])
  exact hsecond.comp hfirst

/-- The two directions and the solver agree, for every keyed function; of a plaintext that is not known to be one
    the solver's answers belong to a function as long as they do not contradict each other. -/
theorem directions_agree (f : BitVec 32 → BitVec 32) (c0 c1 : BitVec 32) :
    (let l1 := (aRounds c0 c1).1
    let r1 := (aRounds c0 c1).2
    let p := decodeWith f c0 c1
    solveFromPlain c0 c1 p.1 p.2 = some (l1, f l1, p.2, f p.2) ∧
      (∀ p0 p1 l1 f1 l3 f2, solveFromPlain c0 c1 p0 p1 = some (l1, f1, l3, f2) →
        ((∃ g : BitVec 32 → BitVec 32, g l1 = f1 ∧ g l3 = f2 ∧ decodeWith g c0 c1 = (p0, p1)) ↔
          (l1 = l3 → f1 = f2))) ∧
      encodeEntry f p.1 p.2 = decodeEntry f l1 r1 ∧
      Function.Bijective fun b : Block => decodeWith f b.1 b.2) := by
  refine ⟨solve_decoded f c0 c1, fun p0 p1 l1 f1 l3 f2 h => ⟨?_, solve_sound h⟩, entries_agree f c0 c1,
    decodeWith_bijective f⟩
  rintro ⟨g, rfl, rfl, -⟩ rfl
  rfl

/-- Two answers to one question. -/
theorem solved_apart :
    ∃ p0 p1 l1 f1 l3 f2, solveFromPlain 0 0 p0 p1 = some (l1, f1, l3, f2) ∧
      ¬∃ g : BitVec 32 → BitVec 32, g l1 = f1 ∧ g l3 = f2 ∧ decodeWith g 0 0 = (p0, p1) := by
  refine ⟨0, (aRounds 0 0).1, (aRounds 0 0).1, applyMat inv ((aRounds 0 0).1 ^^^ (bRounds (aRounds 0 0).2 (aRounds 0 0).1).1),
    (aRounds 0 0).1, _, solveFromPlain_eq 0 0 0 (aRounds 0 0).1, ?_⟩
  rintro ⟨g, h1, h2, -⟩
  exact absurd (h1.symm.trans h2) (by decide +kernel)

end PeepeeBox.CipherBlocks
