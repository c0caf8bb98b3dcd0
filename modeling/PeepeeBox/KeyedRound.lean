import Mathlib.Logic.Function.Basic
import Mathlib.Tactic.SplitIfs
import PeepeeBox.DonglePart

set_option autoImplicit false

/-!
# The keyed round of the picture cipher

The `t_*` half of the part: a shift register seeded by a preamble, consulted either on
the bit-4 edge of a DATA write (`t_data`) or, on a release whose session layer carries
bit 7, at the STATUS read (`t_read_query`).
-/
namespace PeepeeBox.KeyedRound

structure Keyed where
  holdVal : Byte
  cur : BitVec 32
  last : Byte
  ans : Bool
  pending : Bool
  /-- Distinct DATA values since the last STATUS read, newest in cell 2. -/
  recent : ℕ → Byte
  nrecent : ℕ
  modeclk : ℕ
  mode : ℕ
  qn : ℕ
  modeRounds : ℕ → ℕ

/-- The one feedback term HaspEncodeData's modes 1 to 4 add. -/
def tModeTerm (mode : ℕ) (cur i5 : BitVec 32) : BitVec 32 :=
  let p := i5 &&& 0x1F
  let p := p ^^^ p >>> 4
  let p := p ^^^ p >>> 2
  let p := p ^^^ p >>> 1
  let p := p &&& 1
  match mode with
  | 1 => cur >>> 3 &&& 1
  | 2 => 1 ^^^ p
  | 3 => (cur ^^^ cur >>> 3) &&& 1
  | 4 => (1 ^^^ p ^^^ cur >>> 6) &&& 1
  | _ => 0

/-- The five bits of a query payload the framing keeps. -/
def queryIndex (val : Byte) : BitVec 32 :=
  (val.setWidth 32 >>> 1 &&& 0x07) ||| (val.setWidth 32 >>> 2 &&& 0x18)

/-- `t_step` on the register alone: the next register and the answer. -/
def registerStep (key : BitVec 32) (mode : ℕ) (cur : BitVec 32) (val : Byte) : BitVec 32 × Bool :=
  let i5 := queryIndex val
  let st := key >>> i5 &&& 1
  let b0 := i5 ^^^ ((st ^^^ 1) &&& i5 >>> 3) ^^^ i5 >>> 4
  let b0 := b0 ^^^ cur >>> 10
  let b0 := b0 ^^^ cur >>> 7
  let b0 := if i5 &&& 2 ≠ 0 then b0 ^^^ cur >>> 5 else b0
  let b0 := if i5 &&& 4 ≠ 0 then b0 ^^^ cur >>> 8 else b0
  let b0 := b0 ^^^ tModeTerm mode cur i5
  let pre := cur ^^^ (i5 &&& 1) <<< 2
  let cur' := pre <<< 1 ||| (b0 &&& 1)
  (cur', (cur' >>> 11 ^^^ st) &&& 1 ≠ 0)

def tStep (part : Part) (t : Keyed) (val : Byte) : Keyed × Bool :=
  let r := registerStep part.tKey t.mode t.cur val
  ({ t with cur := r.1 }, r.2)

/-- One consultation on a bit-7 release; the counters feed the log only. -/
def tAnswer (part : Part) (t : Keyed) (val : Byte) : Keyed × Bool :=
  let k := t.mode
  let rounds :=
    if t.qn = 38 ∧ 1 ≤ k ∧ k ≤ 4 then Function.update t.modeRounds k (t.modeRounds k + 1)
    else t.modeRounds
  tStep part { t with qn := t.qn + 1, modeRounds := rounds } val

/-- The three writes before this read, if they frame a query: `p`, `p | 0x10`, `p`. -/
def tFramed (part : Part) (t : Keyed) : Option Byte :=
  let r := fun i => t.recent (3 - t.nrecent + i)
  let p := r 0
  if part.tSessHi = false ∨ part.tKey = 0 ∨ t.nrecent < 3 then none
  else if r 2 ≠ p ∨ r 1 ≠ p ||| 0x10 ∨ p &&& 0x80 = 0 ∨ p &&& 0x11 ≠ 0 then none
  else some (r 1)

def tReadQuery (part : Part) (t : Keyed) : Keyed × Option Bool :=
  match tFramed part t with
  | none => (t, none)
  | some q => let r := tAnswer part t q; (r.1, some r.2)

def tWindow (t : Keyed) (val : Byte) : Keyed :=
  if t.nrecent = 0 ∨ t.recent 2 ≠ val then
    { t with
      recent := fun i =>
        if i = 0 then t.recent 1 else if i = 1 then t.recent 2 else if i = 2 then val
        else t.recent i
      nrecent := if t.nrecent < 3 then t.nrecent + 1 else t.nrecent }
  else t

/-- EncodeData's mode clocks: an 84 starts the count, CA to DA advances it. -/
def tModeClock (t : Keyed) (val : Byte) : Keyed :=
  if val = 0x84 then { t with modeclk := 0 }
  else if val = 0xDA ∧ t.last = 0xCA then { t with modeclk := t.modeclk + 1 }
  else t

/-- A held answer lasts as long as the DATA value it belongs to, on a bit-7 release. -/
def tRelease (part : Part) (t : Keyed) (val : Byte) : Keyed :=
  if part.tSessHi ∧ val ≠ t.holdVal then { t with pending := false } else t

/-- The two clock edges, seen only while bit 7 is set. -/
def tEdges (part : Part) (t : Keyed) (val : Byte) : Keyed :=
  let rose := val &&& ~~~t.last
  let preamble : Bool := rose &&& 0x01 ≠ 0
  let query : Bool := !preamble && !part.tSessHi && decide (rose &&& 0x10 ≠ 0)
  if preamble then
    { t with cur := part.tInit.setWidth 32, pending := false, qn := 0, mode := t.modeclk }
  else if query then
    let r := tStep part t val
    { r.1 with ans := r.2, pending := true, holdVal := val }
  else t

def tData (part : Part) (t : Keyed) (val : Byte) : Keyed :=
  let t := tWindow t val
  let t := tModeClock t val
  let t := tRelease part t val
  let t := if val &&& 0x80 = 0 then t else tEdges part t val
  { t with last := val }

theorem tWindow_newest (t : Keyed) (v : Byte) : (tWindow t v).recent 2 = v := by
  unfold tWindow
  by_cases hslide : t.nrecent = 0 ∨ t.recent 2 ≠ v
  · rw [if_pos hslide]
    rfl
  · rw [if_neg hslide]
    exact Classical.not_not.mp fun hne => hslide (.inr hne)

structure Unclocked (part : Part) (t t' : Keyed) (v : Byte) : Prop where
  recent : t'.recent = (tWindow t v).recent
  nrecent : t'.nrecent = (tWindow t v).nrecent
  cur : t'.cur = t.cur
  mode : t'.mode = t.mode
  ans : t'.ans = t.ans
  pending : t'.pending = if part.tSessHi = true ∧ v ≠ t.holdVal then false else t.pending

theorem tWindow_rest (t : Keyed) (v : Byte) :
    (tWindow t v).cur = t.cur ∧ (tWindow t v).mode = t.mode ∧ (tWindow t v).ans = t.ans ∧
      (tWindow t v).pending = t.pending ∧ (tWindow t v).holdVal = t.holdVal ∧
      (tWindow t v).last = t.last ∧ (tWindow t v).modeclk = t.modeclk := by
  unfold tWindow
  split_ifs <;> exact ⟨rfl, rfl, rfl, rfl, rfl, rfl, rfl⟩

theorem tModeClock_rest (t : Keyed) (v : Byte) :
    (tModeClock t v).recent = t.recent ∧ (tModeClock t v).nrecent = t.nrecent ∧
      (tModeClock t v).cur = t.cur ∧ (tModeClock t v).mode = t.mode ∧
      (tModeClock t v).ans = t.ans ∧ (tModeClock t v).pending = t.pending ∧
      (tModeClock t v).holdVal = t.holdVal ∧ (tModeClock t v).last = t.last := by
  unfold tModeClock
  split_ifs <;> exact ⟨rfl, rfl, rfl, rfl, rfl, rfl, rfl, rfl⟩

theorem tRelease_rest (part : Part) (t : Keyed) (v : Byte) :
    (tRelease part t v).recent = t.recent ∧ (tRelease part t v).nrecent = t.nrecent ∧
      (tRelease part t v).cur = t.cur ∧ (tRelease part t v).mode = t.mode ∧
      (tRelease part t v).ans = t.ans ∧ (tRelease part t v).holdVal = t.holdVal ∧
      (tRelease part t v).last = t.last ∧ (tRelease part t v).modeclk = t.modeclk := by
  unfold tRelease
  split_ifs <;> exact ⟨rfl, rfl, rfl, rfl, rfl, rfl, rfl, rfl⟩

def prepared (part : Part) (t : Keyed) (v : Byte) : Keyed :=
  tRelease part (tModeClock (tWindow t v) v) v

theorem prepared_rest (part : Part) (t : Keyed) (v : Byte) :
    (prepared part t v).recent = (tWindow t v).recent ∧
      (prepared part t v).nrecent = (tWindow t v).nrecent ∧ (prepared part t v).cur = t.cur ∧
      (prepared part t v).mode = t.mode ∧ (prepared part t v).ans = t.ans ∧
      (prepared part t v).holdVal = t.holdVal ∧ (prepared part t v).last = t.last := by
  obtain ⟨wcur, wmode, wans, -, whold, wlast, -⟩ := tWindow_rest t v
  obtain ⟨mrecent, mnrecent, mcur, mmode, mans, -, mhold, mlast⟩ := tModeClock_rest (tWindow t v) v
  obtain ⟨recent, nrecent, cur, mode, ans, hold, last, -⟩ :=
    tRelease_rest part (tModeClock (tWindow t v) v) v
  unfold prepared
  exact ⟨recent.trans mrecent, nrecent.trans mnrecent, (cur.trans mcur).trans wcur,
    (mode.trans mmode).trans wmode, (ans.trans mans).trans wans, (hold.trans mhold).trans whold,
    (last.trans mlast).trans wlast⟩

theorem prepared_pending (part : Part) (t : Keyed) (v : Byte) :
    (prepared part t v).pending =
      if part.tSessHi = true ∧ v ≠ t.holdVal then false else t.pending := by
  obtain ⟨-, -, -, wpend, whold, -, -⟩ := tWindow_rest t v
  obtain ⟨-, -, -, -, -, mpend, mhold, -⟩ := tModeClock_rest (tWindow t v) v
  unfold prepared tRelease
  rw [mhold, whold]
  split_ifs
  · rfl
  · exact mpend.trans wpend

theorem tData_eq (part : Part) (t : Keyed) (v : Byte) :
    tData part t v =
      { (if v &&& 0x80 = 0 then prepared part t v else tEdges part (prepared part t v) v) with
        last := v } := rfl

theorem rose_zero (v w m : Byte) (h : v &&& m = 0) : (v &&& ~~~w) &&& m = 0 := by
  have hswap : (v &&& ~~~w) &&& m = (v &&& m) &&& ~~~w := by
    rw [BitVec.and_assoc, BitVec.and_comm (~~~w), ← BitVec.and_assoc]
  rw [hswap, h]
  exact BitVec.zero_and

theorem tData_unclocked (part : Part) (t : Keyed) (v : Byte)
    (hv : v &&& 0x80 = 0 ∨ (v &&& ~~~t.last) &&& 0x01 = 0 ∧
      (part.tSessHi = true ∨ (v &&& ~~~t.last) &&& 0x10 = 0)) :
    Unclocked part t (tData part t v) v := by
  obtain ⟨hrecent, hnrecent, hcur, hmode, hans, -, hlast⟩ := prepared_rest part t v
  have hpend := prepared_pending part t v
  rw [tData_eq]
  generalize prepared part t v = u at hrecent hnrecent hcur hmode hans hlast hpend
  have hedges : (if v &&& 0x80 = 0 then u else tEdges part u v) = u := by
    by_cases hlow : v &&& 0x80 = 0
    · exact if_pos hlow
    · obtain ⟨hpre, hquery⟩ := hv.resolve_left hlow
      rw [if_neg hlow]
      unfold tEdges
      dsimp only
      rw [hlast, if_neg (by rw [hpre]; decide), if_neg]
      rcases hquery with hhi | hmid
      · rw [hhi, Bool.not_true, Bool.and_false, Bool.false_and]
        decide
      · rw [hmid]
        simp
  rw [hedges]
  exact ⟨hrecent, hnrecent, hcur, hmode, hans, hpend⟩

theorem tFramed_some_iff (part : Part) (t : Keyed) (q : Byte) :
    tFramed part t = some q ↔ (part.tSessHi = true ∧ part.tKey ≠ 0 ∧ 3 ≤ t.nrecent) ∧
      (t.recent 2 = t.recent 0 ∧ t.recent 1 = t.recent 0 ||| 0x10) ∧
      (t.recent 0 &&& 0x80 ≠ 0 ∧ t.recent 0 &&& 0x11 = 0) ∧ t.recent 1 = q := by
  unfold tFramed
  dsimp only
  by_cases hopen : part.tSessHi = false ∨ part.tKey = 0 ∨ t.nrecent < 3
  · rw [if_pos hopen]
    constructor
    · intro h
      cases h
    · intro h
      obtain ⟨⟨hhi, hkey, hthree⟩, -⟩ := h
      rcases hopen with hlow | hzero | hfew
      · rw [hhi] at hlow
        cases hlow
      · exact absurd hzero hkey
      · omega
  · have hhi : part.tSessHi = true := by
      cases hs : part.tSessHi with
      | true => rfl
      | false => exact absurd (.inl hs) hopen
    have hkey : part.tKey ≠ 0 := fun hz => hopen (.inr (.inl hz))
    have hthree : 3 ≤ t.nrecent := by
      apply Nat.le_of_not_lt
      exact fun hlt => hopen (.inr (.inr hlt))
    have hzero : 3 - t.nrecent = 0 := by omega
    rw [if_neg hopen, hzero]
    simp only [Nat.zero_add]
    split_ifs with hshape
    · constructor
      · intro h
        cases h
      · intro h
        obtain ⟨-, ⟨hends, hmid⟩, ⟨htop, hlow⟩, -⟩ := h
        rcases hshape with hc | hc | hc | hc
        · exact absurd hends hc
        · exact absurd hmid hc
        · exact absurd hc htop
        · exact absurd hlow hc
    · simp only [not_or, not_not] at hshape
      obtain ⟨hends, hmid, htop, hlow⟩ := hshape
      constructor
      · intro h
        exact ⟨⟨hhi, hkey, hthree⟩, ⟨hends, hmid⟩, ⟨htop, hlow⟩, Option.some.inj h⟩
      · intro h
        rw [h.2.2.2]

theorem tEdges_rest (part : Part) (t : Keyed) (v : Byte) :
    (tEdges part t v).recent = t.recent ∧ (tEdges part t v).nrecent = t.nrecent ∧
      (tEdges part t v).modeclk = t.modeclk ∧
      (part.tSessHi = true → (tEdges part t v).holdVal = t.holdVal) ∧
      (part.tSessHi = true → t.pending = false → (tEdges part t v).pending = false) := by
  unfold tEdges
  dsimp only
  split_ifs with hpre hquery
  · exact ⟨rfl, rfl, rfl, fun _ => rfl, fun _ _ => rfl⟩
  · have hlow : part.tSessHi ≠ true := by
      intro hhi
      rw [hhi, Bool.not_true, Bool.and_false, Bool.false_and] at hquery
      cases hquery
    exact ⟨rfl, rfl, rfl, fun hhi => absurd hhi hlow, fun hhi => absurd hhi hlow⟩
  · exact ⟨rfl, rfl, rfl, fun _ => rfl, fun _ h => h⟩

theorem tData_held (part : Part) (t : Keyed) (v : Byte) (hhi : part.tSessHi = true)
    (h : t.pending = false) : (tData part t v).pending = false := by
  have hprep : (prepared part t v).pending = false := by
    rw [prepared_pending, h]
    split_ifs <;> rfl
  rw [tData_eq]
  split_ifs
  · exact hprep
  · exact (tEdges_rest part _ v).2.2.2.2 hhi hprep

end PeepeeBox.KeyedRound
