import Mathlib.Data.Fintype.Basic
import Mathlib.Data.List.Dedup
import Mathlib.Data.List.Nodup
import PeepeeBox.SoftPart

set_option autoImplicit false

/-!
# Keys from rounds

`softpart.py` walks a round backwards: its output forces the last 32 decisions, the first seven are tried, and each
decision says which bit the key has at the index that was asked.
-/
namespace PeepeeBox.KeyRecovery
open KeyedRound SoftPart

abbrev PartialKey := Fin 32 → Option Bool

def PartialKey.empty : PartialKey := fun _ => none

def PartialKey.setDefault (m : PartialKey) (i : Fin 32) (st : Bool) : PartialKey × Bool :=
  match m i with
  | some held => (m, held)
  | none => (Function.update m i (some st), st)

def keyIndex (i5 : BitVec 32) : Fin 32 := Fin.ofNat 32 i5.toNat

/-- The loop of `_forced`, from bit `b - 1` down. -/
def forcedLoop (vout : BitVec 32) : ℕ → BitVec 32 → (ℕ → Bool) → ℕ → Bool
  | 0, _, c => c
  | b + 1, acc, c =>
    if (vout ^^^ acc).getLsbD b then
      forcedLoop vout b (acc ^^^ poly >>> (31 - b)) (Function.update c (8 + b) true)
    else forcedLoop vout b acc (Function.update c (8 + b) false)

def forced (vout : BitVec 32) : ℕ → Bool := forcedLoop vout 32 0 fun _ => false

def choose (base : ℕ → Bool) (free : ℕ) : ℕ → Bool := fun k =>
  if 1 ≤ k ∧ k < 8 then free.testBit (k - 1) else base k

def followStep (c : ℕ → Bool) (it : ℕ) (s : Walk × PartialKey) : Option (Walk × PartialKey) :=
  let w := s.1
  let i5 := w.data >>> (8 * w.index) &&& 0x1F
  let ans := c (it + 1) ^^ w.data.getLsbD 0
  let pre := w.cur ^^^ (i5 &&& 1) <<< 2
  let st := ans ^^ pre.getLsbD 10
  let r := s.2.setDefault (keyIndex i5) st
  if r.2 ≠ st then none
  else
    let b0 := i5 ^^^ ((bit st ^^^ 1) &&& i5 >>> 3) ^^^ i5 >>> 4
    let b0 := b0 ^^^ w.cur >>> 10
    let b0 := b0 ^^^ w.cur >>> 7
    let b0 := if i5 &&& 2 ≠ 0 then b0 ^^^ w.cur >>> 5 else b0
    let b0 := if i5 &&& 4 ≠ 0 then b0 ^^^ w.cur >>> 8 else b0
    let cur := pre <<< 1 ||| (b0 &&& 1)
    let index := (w.data &&& 1) <<< 1 ||| bit ans
    let data := if w.data &&& 1 = bit ans then w.data >>> 1 else w.data >>> 1 ^^^ poly
    some ({ index := index, data := data, cur := cur }, r.1)

def follow (c : ℕ → Bool) (s : Walk × PartialKey) : ℕ → Option (Walk × PartialKey)
  | 0 => some s
  | n + 1 => (follow c s n).bind (followStep c n)

def keyOf (v0 vout cur0 : BitVec 32) (free : ℕ) : Option PartialKey := do
  let (w, key) ← follow (choose (forced vout) free) (begin cur0 v0, PartialKey.empty) 39
  if w.data = vout then some key else none

def keysAllowedBy (v0 vout cur0 : BitVec 32) : List PartialKey := (List.range 128).filterMap (keyOf v0 vout cur0)

abbrev Pair := BitVec 32 × BitVec 32

def clash (m c : PartialKey) : Bool := decide (∃ k, m k ≠ none ∧ c k ≠ none ∧ c k ≠ m k)

def update (m c : PartialKey) : PartialKey := fun k => (c k).or (m k)

/-- `seen` has the items of each entry of `merged`. -/
def mergeOne (merged : List PartialKey) (m c : PartialKey) : List PartialKey :=
  if clash m c then merged
  else
    let d := update m c
    if d ∈ merged then merged else merged ++ [d]

def merge (live cands : List PartialKey) : List PartialKey :=
  live.foldl (fun merged m => cands.foldl (fun merged c => mergeOne merged m c) merged) []

def isFull (m : PartialKey) : Bool := decide (∀ i, m i ≠ none)

def keySum (k : PartialKey) : ℕ → ℕ
  | 0 => 0
  | n + 1 => keySum k n + ((k (Fin.ofNat 32 n)).getD false).toNat <<< n

inductive Fit where
  | settled (key : BitVec 32) (pairs : ℕ)
  | admitsNone (n : ℕ)
  | contradicts (n : ℕ)
  | unsettled (hypotheses : ℕ)
  deriving DecidableEq

def Fit.report : Fit → Option (BitVec 32) × String
  | .settled key pairs => (some key, "settled after " ++ toString pairs ++ " pairs")
  | .admitsNone n => (none, "pair " ++ toString n ++ " admits no key -- wrong plaintext, or not this cipher")
  | .contradicts n => (none, "pair " ++ toString n ++ " contradicts every surviving key")
  | .unsettled hypotheses => (none, "did not settle (" ++ toString hypotheses ++ " hypotheses left)")

/-- The loop of `fit_key` from pair `n` on. -/
def fitLoop (cur0 : BitVec 32) : ℕ → Option (List PartialKey) → List Pair → Fit
  | _, live, [] => .unsettled (live.getD []).length
  | n, live, (v0, vout) :: pairs =>
    let cands := keysAllowedBy v0 vout cur0
    if cands = [] then .admitsNone n
    else
      let live :=
        match live with
        | none => cands
        | some live => merge live cands
      if live = [] then .contradicts n
      else
        match (live.filter isFull).dedup with
        | [k] => if 8 ≤ n then .settled (BitVec.ofNat 32 (keySum k 32)) (n + 1) else fitLoop cur0 (n + 1) (some live) pairs
        | _ => fitLoop cur0 (n + 1) (some live) pairs

def fit (pairs : List Pair) (cur0 : BitVec 32) : Fit := fitLoop cur0 0 none pairs

def fitKey (pairs : List Pair) (cur0 : BitVec 32) : Option (BitVec 32) × String := (fit pairs cur0).report

def decision (key : BitVec 32) (w : Walk) : Bool := (consult key 0 w.cur w.offered).2 ^^ w.data.getLsbD 0

/-- The 39 decisions of a round. -/
def decisions (v0 key cur0 : BitVec 32) : List Bool :=
  (List.range 39).map fun it => decision key (walk key 0 it (begin cur0 v0))

/-- The key has the bits that are known. -/
def Extends (key : BitVec 32) (m : PartialKey) : Prop := ∀ i b, m i = some b → key.getLsbD i = b

/-- The round asks the key for bit `i` among its first `n` steps. -/
def Consulted (key : BitVec 32) (w : Walk) (n : ℕ) (i : Fin 32) : Prop :=
  ∃ it < n, keyIndex (walk key 0 it w).offered = i

instance (key : BitVec 32) (w : Walk) (n : ℕ) (i : Fin 32) : Decidable (Consulted key w n i) :=
  inferInstanceAs (Decidable (∃ it < n, _))

def restricted (key : BitVec 32) (w : Walk) (n : ℕ) : PartialKey := fun i =>
  if Consulted key w n i then some (key.getLsbD i) else none

theorem extends_restricted (key : BitVec 32) (w : Walk) (n : ℕ) : Extends key (restricted key w n) := by
  intro i b h
  unfold restricted at h
  by_cases hasked : Consulted key w n i
  · rw [if_pos hasked] at h
    exact Option.some.inj h
  · rw [if_neg hasked] at h
    cases h

theorem consulted_succ (key : BitVec 32) (w : Walk) (n : ℕ) (i : Fin 32) :
    Consulted key w (n + 1) i ↔ Consulted key w n i ∨ keyIndex (walk key 0 n w).offered = i := by
  constructor
  · rintro ⟨it, hit, rfl⟩
    rcases Nat.lt_succ_iff_lt_or_eq.mp hit with hlt | rfl
    · exact Or.inl ⟨it, hlt, rfl⟩
    · exact Or.inr rfl
  · rintro (⟨it, hit, rfl⟩ | rfl)
    · exact ⟨it, Nat.lt_succ_of_lt hit, rfl⟩
    · exact ⟨n, Nat.lt_succ_self n, rfl⟩

theorem setDefault_some {m : PartialKey} {i : Fin 32} {held : Bool} (h : m i = some held) (st : Bool) :
    m.setDefault i st = (m, held) := by
  unfold PartialKey.setDefault
  rw [h]

theorem setDefault_none {m : PartialKey} {i : Fin 32} (h : m i = none) (st : Bool) :
    m.setDefault i st = (Function.update m i (some st), st) := by
  unfold PartialKey.setDefault
  rw [h]

theorem setDefault_restricted (key : BitVec 32) (w : Walk) (n : ℕ) (st : Bool)
    (hst : key.getLsbD (keyIndex (walk key 0 n w).offered) = st) :
    (restricted key w n).setDefault (keyIndex (walk key 0 n w).offered) st = (restricted key w (n + 1), st) := by
  have hgrown (i : Fin 32) (hi : keyIndex (walk key 0 n w).offered ≠ i) :
      restricted key w (n + 1) i = restricted key w n i := by
    have hsame : Consulted key w (n + 1) i ↔ Consulted key w n i :=
      (consulted_succ key w n i).trans (or_iff_left hi)
    unfold restricted
    simp only [hsame]
  have hasked : restricted key w (n + 1) (keyIndex (walk key 0 n w).offered) = some st := by
    unfold restricted
    rw [if_pos ((consulted_succ key w n _).mpr (Or.inr rfl)), hst]
  by_cases hbefore : Consulted key w n (keyIndex (walk key 0 n w).offered)
  · have hheld : restricted key w n (keyIndex (walk key 0 n w).offered) = some st := by
      unfold restricted
      rw [if_pos hbefore, hst]
    rw [setDefault_some hheld]
    refine Prod.ext (funext fun i => ?_) rfl
    change restricted key w n i = restricted key w (n + 1) i
    by_cases hi : keyIndex (walk key 0 n w).offered = i
    · rw [← hi, hasked, hheld]
    · exact (hgrown i hi).symm
  · have hheld : restricted key w n (keyIndex (walk key 0 n w).offered) = none := by
      unfold restricted
      rw [if_neg hbefore]
    rw [setDefault_none hheld]
    refine Prod.ext (funext fun i => ?_) rfl
    change Function.update (restricted key w n) _ (some st) i = restricted key w (n + 1) i
    by_cases hi : keyIndex (walk key 0 n w).offered = i
    · rw [← hi, hasked, Function.update_self]
    · rw [hgrown i hi, Function.update_of_ne (Ne.symm hi)]

/-- The bit that the decision asks for at the index. -/
def wanted (c : ℕ → Bool) (it : ℕ) (w : Walk) : Bool :=
  (c (it + 1) ^^ w.data.getLsbD 0) ^^ (w.cur ^^^ (w.offered &&& 1) <<< 2).getLsbD 10

theorem keyIndex_bit (key : BitVec 32) (w : Walk) : key.getLsbD (keyIndex w.offered) = (key >>> w.offered).getLsbD 0 := by
  have hle : w.offered.toNat ≤ 31 := by
    unfold Walk.offered
    rw [BitVec.toNat_and]
    exact Nat.and_le_right
  have hindex : (keyIndex w.offered).val = w.offered.toNat := Nat.mod_eq_of_lt (Nat.lt_succ_of_le hle)
  rw [hindex, queryBit]

theorem wanted_iff (c : ℕ → Bool) (it : ℕ) (w : Walk) (key : BitVec 32) :
    key.getLsbD (keyIndex w.offered) = wanted c it w ↔ decision key w = c (it + 1) := by
  unfold wanted decision
  rw [consult_answer, keyIndex_bit, BitVec.getLsbD_xor]
  generalize (w.cur.getLsbD 10 ^^ ((w.offered &&& 1) <<< 2).getLsbD 10) = x
  cases c (it + 1) <;> cases w.data.getLsbD 0 <;> cases x <;> cases (key >>> w.offered).getLsbD 0 <;> decide

def fed (st cur i5 : BitVec 32) : BitVec 32 :=
  let b0 := i5 ^^^ ((st ^^^ 1) &&& i5 >>> 3) ^^^ i5 >>> 4
  let b0 := b0 ^^^ cur >>> 10
  let b0 := b0 ^^^ cur >>> 7
  let b0 := if i5 &&& 2 ≠ 0 then b0 ^^^ cur >>> 5 else b0
  if i5 &&& 4 ≠ 0 then b0 ^^^ cur >>> 8 else b0

theorem followStep_eq (c : ℕ → Bool) (it : ℕ) (w : Walk) (m : PartialKey) :
    (((m.setDefault (keyIndex w.offered) (wanted c it w)).2 ≠ wanted c it w) → followStep c it (w, m) = none) ∧
    ∀ key : BitVec 32, key.getLsbD (keyIndex w.offered) = wanted c it w →
      (m.setDefault (keyIndex w.offered) (wanted c it w)).2 = wanted c it w →
      followStep c it (w, m) = some (w.step key 0, (m.setDefault (keyIndex w.offered) (wanted c it w)).1) := by
  constructor
  · intro h
    exact if_pos h
  · intro key hkey hheld
    have hst : key >>> w.offered &&& 1 = bit (wanted c it w) := by
      rw [low_bit, ← keyIndex_bit, hkey]
    have hans : (consult key 0 w.cur w.offered).2 = (c (it + 1) ^^ w.data.getLsbD 0) := by
      rw [← (wanted_iff c it w key).mp hkey]
      unfold decision
      rw [Bool.xor_assoc, Bool.xor_self, Bool.xor_false]
    have hfeedback : feedback key w.cur w.offered = fed (bit (wanted c it w)) w.cur w.offered := by
      rw [← hst]
      rfl
    have hcur : (consult key 0 w.cur w.offered).1 =
        shiftIn w.cur w.offered (fed (bit (wanted c it w)) w.cur w.offered) := by
      rw [← hfeedback]
      exact congrArg (shiftIn w.cur w.offered) BitVec.xor_zero
    have hstep : w.step key 0 =
        { index := nextIndex (consult key 0 w.cur w.offered).2 w.data
          data := shift (nextIndex (consult key 0 w.cur w.offered).2 w.data) w.data
          cur := (consult key 0 w.cur w.offered).1 } := rfl
    have hdata (ans : Bool) : (w.data &&& 1 = bit ans) ↔ w.data.getLsbD 0 = ans := by
      rw [low_bit]
      exact ⟨bit_inj, congrArg bit⟩
    rw [hstep, hans, hcur, shift_nextIndex]
    simp only [← hdata]
    refine (if_neg (not_not.mpr hheld)).trans ?_
    unfold nextIndex
    rw [BitVec.or_comm]
    rfl

def Decides (c : ℕ → Bool) (key : BitVec 32) (w : Walk) (n : ℕ) : Prop :=
  ∀ it < n, decision key (walk key 0 it w) = c (it + 1)

theorem follow_decided {c : ℕ → Bool} {key : BitVec 32} {w : Walk} {n : ℕ} (h : Decides c key w n) :
    follow c (w, PartialKey.empty) n = some (walk key 0 n w, restricted key w n) := by
  induction n with
  | zero =>
    have hempty : restricted key w 0 = PartialKey.empty := by
      funext i
      exact if_neg fun ⟨it, hit, _⟩ => Nat.not_lt_zero it hit
    rw [hempty]
    rfl
  | succ n ih =>
    have hbit := (wanted_iff c n (walk key 0 n w) key).mpr (h n (Nat.lt_succ_self n))
    have hset := setDefault_restricted key w n _ hbit
    unfold follow
    rw [ih fun it hit => h it (Nat.lt_succ_of_lt hit), Option.bind_some]
    rw [(followStep_eq c n (walk key 0 n w) (restricted key w n)).2 key hbit (congrArg Prod.snd hset), hset]
    rfl

theorem setDefault_grows {m : PartialKey} {i : Fin 32} {st : Bool} (h : (m.setDefault i st).2 = st) {key : BitVec 32}
    (hext : Extends key (m.setDefault i st).1) : Extends key m ∧ key.getLsbD i = st := by
  cases hi : m i with
  | some held =>
    rw [setDefault_some hi] at h hext
    obtain rfl : held = st := h
    exact ⟨hext, hext i held hi⟩
  | none =>
    rw [setDefault_none hi] at hext
    refine ⟨fun k b hk => ?_, hext i st (Function.update_self ..)⟩
    have hne : k ≠ i := by
      rintro rfl
      rw [hi] at hk
      cases hk
    exact hext k b ((Function.update_of_ne hne ..).trans hk)

theorem follow_sound {c : ℕ → Bool} {w : Walk} {n : ℕ} {s : Walk × PartialKey}
    (h : follow c (w, PartialKey.empty) n = some s) {key : BitVec 32} (hext : Extends key s.2) : Decides c key w n := by
  induction n generalizing s with
  | zero => exact fun it hit => absurd hit (Nat.not_lt_zero it)
  | succ n ih =>
    unfold follow at h
    obtain ⟨⟨w', m⟩, hbefore, hstep⟩ := Option.bind_eq_some_iff.mp h
    obtain ⟨hnone, hsome⟩ := followStep_eq c n w' m
    have hheld : (m.setDefault (keyIndex w'.offered) (wanted c n w')).2 = wanted c n w' := by
      by_contra hne
      rw [hnone hne] at hstep
      cases hstep
    have hmap : s.2 = (m.setDefault (keyIndex w'.offered) (wanted c n w')).1 := by
      obtain ⟨other, hother⟩ : ∃ other : BitVec 32, other.getLsbD (keyIndex w'.offered) = wanted c n w' := by
        cases wanted c n w' with
        | false => exact ⟨0, BitVec.getLsbD_zero⟩
        | true => exact ⟨BitVec.allOnes 32, by rw [BitVec.getLsbD_allOnes, decide_eq_true (Fin.isLt _)]⟩
      rw [hsome other hother hheld] at hstep
      exact (congrArg Prod.snd (Option.some.inj hstep)).symm
    rw [hmap] at hext
    obtain ⟨hm, hbit⟩ := setDefault_grows hheld hext
    have hrun := ih hbefore hm
    have hwalk : w' = walk key 0 n w := by
      have hsame := hbefore.symm.trans (follow_decided hrun)
      exact congrArg Prod.fst (Option.some.inj hsame)
    intro it hit
    rcases Nat.lt_succ_iff_lt_or_eq.mp hit with hlt | rfl
    · exact hrun it hlt
    · rw [← hwalk]
      exact (wanted_iff c it w' key).mp hbit

theorem keySum_lt (k : PartialKey) (n : ℕ) : keySum k n < 2 ^ n := by
  induction n with
  | zero => exact Nat.one_pos
  | succ n ih =>
    have hbit : ((k (Fin.ofNat 32 n)).getD false).toNat <<< n ≤ 2 ^ n := by
      cases (k (Fin.ofNat 32 n)).getD false <;> simp [Nat.shiftLeft_eq]
    unfold keySum
    omega

theorem keySum_testBit (k : PartialKey) (n j : ℕ) :
    (keySum k n).testBit j = (decide (j < n) && (k (Fin.ofNat 32 j)).getD false) := by
  induction n with
  | zero => simp [keySum]
  | succ n ih =>
    have hsum : keySum k (n + 1) = 2 ^ n * ((k (Fin.ofNat 32 n)).getD false).toNat + keySum k n := by
      rw [Nat.mul_comm, ← Nat.shiftLeft_eq]
      exact Nat.add_comm _ _
    rw [hsum, Nat.testBit_two_pow_mul_add _ (keySum_lt k n)]
    rcases Nat.lt_trichotomy j n with hlt | rfl | hgt
    · rw [if_pos hlt, ih, decide_eq_true hlt, decide_eq_true (Nat.lt_succ_of_lt hlt)]
    · rw [if_neg (Nat.lt_irrefl j), Nat.sub_self, decide_eq_true (Nat.lt_succ_self j)]
      cases (k (Fin.ofNat 32 j)).getD false <;> rfl
    · obtain ⟨i, rfl⟩ := Nat.exists_eq_add_of_lt hgt
      rw [if_neg (by omega), decide_eq_false (by omega), show n + i + 1 - n = i + 1 by omega, Nat.testBit_succ]
      cases (k (Fin.ofNat 32 n)).getD false <;> simp

theorem extends_keySum (m : PartialKey) : Extends (BitVec.ofNat 32 (keySum m 32)) m := by
  intro i b h
  have hi : Fin.ofNat 32 i.val = i := Fin.ext (Nat.mod_eq_of_lt i.isLt)
  rw [BitVec.getLsbD_ofNat, keySum_testBit, hi, h, decide_eq_true i.isLt]
  rfl

theorem step_data (key : BitVec 32) (w : Walk) :
    (w.step key 0).data = w.data >>> 1 ^^^ if decision key w then poly else 0 := by
  have hstep : (w.step key 0).data = shift (nextIndex (consult key 0 w.cur w.offered).2 w.data) w.data := rfl
  rw [hstep, shift_nextIndex]
  unfold decision
  cases w.data.getLsbD 0 <;> cases (consult key 0 w.cur w.offered).2 <;> simp

theorem forcedLoop_decisions (data : ℕ → BitVec 32) (d : ℕ → Bool)
    (hdata : ∀ n, data (n + 1) = data n >>> 1 ^^^ if d (n + 1) then poly else 0) (vout : BitVec 32) (b : ℕ) (hb : b ≤ 32)
    (acc : BitVec 32) (c : ℕ → Bool) (hacc : vout ^^^ acc = data (7 + b) >>> (32 - b)) (k : ℕ) :
    forcedLoop vout b acc c k = if 8 ≤ k ∧ k < 8 + b then d k else c k := by
  induction b generalizing acc c with
  | zero => exact (if_neg (by omega)).symm
  | succ b ih =>
    have hshift : 32 - b = 1 + (32 - (b + 1)) := by omega
    have hdrop (x : BitVec 32) : x >>> 1 >>> (32 - (b + 1)) = x >>> (32 - b) := by
      rw [hshift, BitVec.shiftRight_add]
    have htop : (vout ^^^ acc).getLsbD b = d (8 + b) := by
      have hbit : 32 - (b + 1) + b = 31 := by omega
      have hend : (data (7 + b) >>> 1).getLsbD 31 = false := by
        rw [BitVec.getLsbD_ushiftRight]
        exact BitVec.getLsbD_of_ge _ _ (by decide)
      rw [hacc, BitVec.getLsbD_ushiftRight, hbit, ← Nat.add_assoc, hdata, BitVec.getLsbD_xor, hend,
        show 7 + b + 1 = 8 + b by omega]
      cases d (8 + b) <;> decide
    have hnext : data (7 + (b + 1)) = data (7 + b) >>> 1 ^^^ if d (8 + b) then poly else 0 := by
      rw [← Nat.add_assoc, hdata, show 7 + b + 1 = 8 + b by omega]
    have hsplit (v : Bool) (hv : d (8 + b) = v) :
        (if 8 ≤ k ∧ k < 8 + b then d k else Function.update c (8 + b) v k) =
          if 8 ≤ k ∧ k < 8 + (b + 1) then d k else c k := by
      by_cases hk : k = 8 + b
      · rw [if_neg (by omega), if_pos (by omega), hk, hv, Function.update_self]
      · rw [Function.update_of_ne hk]
        exact if_congr (by omega) rfl rfl
    unfold forcedLoop
    rw [htop]
    cases hd : d (8 + b) with
    | true =>
      rw [hd] at hnext
      rw [if_pos rfl, ih (by omega), hsplit true hd]
      rw [← BitVec.xor_assoc, hacc, hnext, BitVec.ushiftRight_xor_distrib, hdrop, if_pos rfl,
        show 31 - b = 32 - (b + 1) by omega, BitVec.xor_assoc, BitVec.xor_self, BitVec.xor_zero]
    | false =>
      rw [hd] at hnext
      rw [if_neg Bool.false_ne_true, ih (by omega), hsplit false hd]
      rw [hacc, hnext, if_neg Bool.false_ne_true]
      rw [show data (7 + b) >>> 1 ^^^ (0 : BitVec 32) = data (7 + b) >>> 1 from BitVec.xor_zero, hdrop]

theorem forced_decisions (v0 key cur0 : BitVec 32) (it : ℕ) (hlow : 7 ≤ it) (hhigh : it < 39) :
    forced (keyedRound v0 key cur0) (it + 1) = decision key (walk key 0 it (begin cur0 v0)) := by
  have hloop := forcedLoop_decisions (fun n => (walk key 0 n (begin cur0 v0)).data)
    (fun n => decision key (walk key 0 (n - 1) (begin cur0 v0))) (fun n => step_data key _)
    (keyedRound v0 key cur0) 32 (Nat.le_refl 32) 0 (fun _ => false)
    (by rw [keyedRound_walk]; exact BitVec.xor_zero) (it + 1)
  rw [if_pos (by omega)] at hloop
  exact hloop

def path (c : ℕ → Bool) : List Bool := (List.range 39).map fun it => c (it + 1)

theorem decides_path {c : ℕ → Bool} {v0 key cur0 : BitVec 32} :
    Decides c key (begin cur0 v0) 39 ↔ decisions v0 key cur0 = path c := by
  unfold decisions path
  rw [List.map_inj_left]
  exact ⟨fun h it hit => h it (List.mem_range.mp hit), fun h it hit => h it (List.mem_range.mpr hit)⟩

theorem choose_low (base : ℕ → Bool) (free : ℕ) {it : ℕ} (h : it < 7) : choose base free (it + 1) = free.testBit it :=
  if_pos (by omega)

theorem choose_high (base : ℕ → Bool) (free : ℕ) {it : ℕ} (h : 7 ≤ it) : choose base free (it + 1) = base (it + 1) :=
  if_neg (by omega)

theorem path_choose_inj (base : ℕ → Bool) {i j : ℕ} (hi : i < 128) (hj : j < 128)
    (h : path (choose base i) = path (choose base j)) : i = j := by
  unfold path at h
  rw [List.map_inj_left] at h
  apply Nat.eq_of_testBit_eq
  intro k
  by_cases hk : k < 7
  · have hbit := h k (List.mem_range.mpr (by omega))
    rwa [choose_low base i hk, choose_low base j hk] at hbit
  · have hlarge : 2 ^ 7 ≤ 2 ^ k := Nat.pow_le_pow_right (by decide) (Nat.not_lt.mp hk)
    rw [Nat.testBit_lt_two_pow (by omega : i < 2 ^ k), Nat.testBit_lt_two_pow (by omega : j < 2 ^ k)]

theorem decides_choose (v0 key cur0 : BitVec 32) :
    ∃ free < 128, Decides (choose (forced (keyedRound v0 key cur0)) free) key (begin cur0 v0) 39 := by
  let tried : PartialKey := fun i => some (decision key (walk key 0 i.val (begin cur0 v0)))
  refine ⟨keySum tried 7, keySum_lt tried 7, ?_⟩
  intro it hit
  by_cases hlow : it < 7
  · have hi : (Fin.ofNat 32 it).val = it := Nat.mod_eq_of_lt (by omega)
    rw [choose_low _ _ hlow, keySum_testBit, decide_eq_true hlow, Bool.true_and]
    change _ = decision key (walk key 0 (Fin.ofNat 32 it).val (begin cur0 v0))
    rw [hi]
  · rw [choose_high _ _ (Nat.not_lt.mp hlow), forced_decisions v0 key cur0 it (Nat.not_lt.mp hlow) hit]

theorem keyOf_decided {v0 key cur0 : BitVec 32} {free : ℕ}
    (h : Decides (choose (forced (keyedRound v0 key cur0)) free) key (begin cur0 v0) 39) :
    keyOf v0 (keyedRound v0 key cur0) cur0 free = some (restricted key (begin cur0 v0) 39) := by
  unfold keyOf
  rw [follow_decided h]
  exact if_pos (keyedRound_walk v0 key cur0).symm

theorem keyOf_sound {v0 vout cur0 : BitVec 32} {free : ℕ} {m : PartialKey} (h : keyOf v0 vout cur0 free = some m)
    (key : BitVec 32) : Extends key m ↔ Decides (choose (forced vout) free) key (begin cur0 v0) 39 := by
  unfold keyOf at h
  obtain ⟨⟨w, m'⟩, hfollow, hdata⟩ := Option.bind_eq_some_iff.mp h
  obtain rfl : m' = m := by
    change (if w.data = vout then some m' else none) = some m at hdata
    by_cases heq : w.data = vout
    · rw [if_pos heq] at hdata
      exact Option.some.inj hdata
    · rw [if_neg heq] at hdata
      cases hdata
  refine ⟨fun hext => follow_sound hfollow hext, fun hdecides => ?_⟩
  have hsame := hfollow.symm.trans (follow_decided hdecides)
  have hmap : m' = restricted key (begin cur0 v0) 39 := congrArg Prod.snd (Option.some.inj hsame)
  rw [hmap]
  exact extends_restricted key _ _

theorem keyOf_round {v0 vout cur0 : BitVec 32} {free : ℕ} {m : PartialKey} (h : keyOf v0 vout cur0 free = some m)
    {key : BitVec 32} (hext : Extends key m) :
    keyedRound v0 key cur0 = vout ∧ m = restricted key (begin cur0 v0) 39 := by
  have hdecides := (keyOf_sound h key).mp hext
  unfold keyOf at h
  rw [follow_decided hdecides] at h
  change (if (walk key 0 39 (begin cur0 v0)).data = vout then some _ else none) = some m at h
  rw [← keyedRound_walk] at h
  by_cases heq : keyedRound v0 key cur0 = vout
  · rw [if_pos heq] at h
    exact ⟨heq, (Option.some.inj h).symm⟩
  · rw [if_neg heq] at h
    cases h

theorem mem_keysAllowedBy {v0 vout cur0 : BitVec 32} {m : PartialKey} :
    m ∈ keysAllowedBy v0 vout cur0 ↔
      ∃ key, keyedRound v0 key cur0 = vout ∧ m = restricted key (begin cur0 v0) 39 := by
  unfold keysAllowedBy
  rw [List.mem_filterMap]
  constructor
  · rintro ⟨free, -, hfree⟩
    exact ⟨_, keyOf_round hfree (extends_keySum m)⟩
  · rintro ⟨key, rfl, rfl⟩
    obtain ⟨free, hlt, hdecides⟩ := decides_choose v0 key cur0
    exact ⟨free, List.mem_range.mpr hlt, keyOf_decided hdecides⟩

theorem restricted_exact {v0 vout cur0 : BitVec 32} {m : PartialKey} (h : m ∈ keysAllowedBy v0 vout cur0)
    {key : BitVec 32} (hext : Extends key m) :
    keyedRound v0 key cur0 = vout ∧ m = restricted key (begin cur0 v0) 39 := by
  obtain ⟨free, -, hfree⟩ := List.mem_filterMap.mp h
  exact keyOf_round hfree hext

def paths (v0 vout cur0 : BitVec 32) : List (List Bool) :=
  (List.range 128).filterMap fun free =>
    (keyOf v0 vout cur0 free).map fun _ => path (choose (forced vout) free)

theorem paths_nodup (v0 vout cur0 : BitVec 32) : (paths v0 vout cur0).Nodup := by
  have hpick (free : ℕ) (hfree : free ∈ List.range 128) (p : List Bool)
      (hp : ((keyOf v0 vout cur0 free).map fun _ => path (choose (forced vout) free)) = some p) :
      p = path (choose (forced vout) free) := by
    obtain ⟨m, -, rfl⟩ := Option.map_eq_some_iff.mp hp
    rfl
  unfold paths
  rw [List.nodup_iff_pairwise_ne, List.pairwise_filterMap]
  refine (List.nodup_range (n := 128)).pairwise_of_forall_ne ?_
  intro i hi j hj hne p hp q hq heq
  rw [hpick i hi p hp, hpick j hj q hq] at heq
  exact hne (path_choose_inj _ (List.mem_range.mp hi) (List.mem_range.mp hj) heq)

theorem forall₂_filterMap {α β γ : Type} (f : α → Option β) (g : α → γ) (R : γ → β → Prop) (l : List α)
    (h : ∀ a b, f a = some b → R (g a) b) :
    List.Forall₂ R (l.filterMap fun a => (f a).map fun _ => g a) (l.filterMap f) := by
  induction l with
  | nil => exact List.Forall₂.nil
  | cons a l ih =>
    cases hf : f a with
    | none => simpa [hf] using ih
    | some b => simpa [hf] using ⟨h a b hf, ih⟩

theorem paths_keys (v0 vout cur0 : BitVec 32) :
    List.Forall₂ (fun p m => ∀ key, Extends key m ↔ decisions v0 key cur0 = p) (paths v0 vout cur0)
      (keysAllowedBy v0 vout cur0) :=
  forall₂_filterMap (keyOf v0 vout cur0) (fun free => path (choose (forced vout) free)) _ _
    fun _ _ hm key => (keyOf_sound hm key).trans decides_path

theorem mem_paths {v0 vout cur0 : BitVec 32} {p : List Bool} :
    p ∈ paths v0 vout cur0 ↔ ∃ key, keyedRound v0 key cur0 = vout ∧ decisions v0 key cur0 = p := by
  unfold paths
  rw [List.mem_filterMap]
  constructor
  · rintro ⟨free, -, hfree⟩
    obtain ⟨m, hm, rfl⟩ := Option.map_eq_some_iff.mp hfree
    have hext := extends_keySum m
    exact ⟨_, (keyOf_round hm hext).1, decides_path.mp ((keyOf_sound hm _).mp hext)⟩
  · rintro ⟨key, rfl, rfl⟩
    obtain ⟨free, hlt, hdecides⟩ := decides_choose v0 key cur0
    refine ⟨free, List.mem_range.mpr hlt, ?_⟩
    rw [keyOf_decided hdecides, decides_path.mp hdecides]
    rfl

theorem extends_update {m c : PartialKey} (h : clash m c = false) (key : BitVec 32) :
    Extends key (update m c) ↔ Extends key m ∧ Extends key c := by
  have hagree (k : Fin 32) (hm : m k ≠ none) (hc : c k ≠ none) : c k = m k := by
    by_contra hne
    exact of_decide_eq_false h ⟨k, hm, hc, hne⟩
  constructor
  · intro hext
    constructor
    · intro k b hk
      apply hext
      unfold update
      cases hc : c k with
      | none => exact hk
      | some b' =>
        have hsame := hagree k (by rw [hk]; exact Option.some_ne_none b) (by rw [hc]; exact Option.some_ne_none b')
        rw [← hc, hsame, hk]
        rfl
    · intro k b hk
      apply hext
      unfold update
      rw [hk]
      rfl
  · rintro ⟨hm, hc⟩ k b hk
    unfold update at hk
    cases hck : c k with
    | none =>
      rw [hck] at hk
      exact hm k b hk
    | some b' =>
      rw [hck] at hk
      obtain rfl : b' = b := Option.some.inj hk
      exact hc k b' hck

theorem clash_extends {m c : PartialKey} {key : BitVec 32} (hm : Extends key m) (hc : Extends key c) :
    clash m c = false := by
  apply decide_eq_false
  rintro ⟨k, hmk, hck, hne⟩
  obtain ⟨b, hb⟩ := Option.ne_none_iff_exists'.mp hmk
  obtain ⟨b', hb'⟩ := Option.ne_none_iff_exists'.mp hck
  rw [hb, hb', ← hm k b hb, ← hc k b' hb'] at hne
  exact hne rfl

theorem mem_mergeOne {merged : List PartialKey} {m c d : PartialKey} :
    d ∈ mergeOne merged m c ↔ d ∈ merged ∨ clash m c = false ∧ d = update m c := by
  unfold mergeOne
  cases clash m c with
  | true => simp
  | false =>
    by_cases hmem : update m c ∈ merged
    · rw [if_neg Bool.false_ne_true, if_pos hmem]
      exact ⟨Or.inl, fun h => h.elim id fun hd => hd.2 ▸ hmem⟩
    · simp [hmem]

theorem mem_merge {live cands : List PartialKey} {d : PartialKey} :
    d ∈ merge live cands ↔ ∃ m ∈ live, ∃ c ∈ cands, clash m c = false ∧ d = update m c := by
  have hinner (m : PartialKey) (cands merged : List PartialKey) :
      d ∈ cands.foldl (fun merged c => mergeOne merged m c) merged ↔
        d ∈ merged ∨ ∃ c ∈ cands, clash m c = false ∧ d = update m c := by
    induction cands generalizing merged with
    | nil => simp
    | cons c cands ih => simp [ih, mem_mergeOne, or_assoc]
  have houter (live merged : List PartialKey) :
      d ∈ live.foldl (fun merged m => cands.foldl (fun merged c => mergeOne merged m c) merged) merged ↔
        d ∈ merged ∨ ∃ m ∈ live, ∃ c ∈ cands, clash m c = false ∧ d = update m c := by
    induction live generalizing merged with
    | nil => simp
    | cons m live ih => rw [List.foldl_cons, ih, hinner, List.exists_mem_cons_iff, or_assoc]
  unfold merge
  simpa using houter live []

def Reproduces (cur0 key : BitVec 32) (pairs : List Pair) : Prop := ∀ p ∈ pairs, keyedRound p.1 key cur0 = p.2

def Live (cur0 : BitVec 32) (live : List PartialKey) (done : List Pair) : Prop :=
  ∀ m ∈ live, ∀ key, Extends key m → Reproduces cur0 key done

/-- The hypotheses with those of one more pair. -/
def joined (live : Option (List PartialKey)) (cands : List PartialKey) : List PartialKey :=
  match live with
  | none => cands
  | some live => merge live cands

theorem joined_live {cur0 : BitVec 32} {live : Option (List PartialKey)} {done : List Pair}
    (hnone : live = none → done = []) (hsome : ∀ l, live = some l → Live cur0 l done) (p : Pair) :
    Live cur0 (joined live (keysAllowedBy p.1 p.2 cur0)) (done ++ [p]) := by
  intro m hm key hext q hq
  cases live with
  | none =>
    rw [hnone rfl] at hq
    obtain rfl : q = p := List.mem_singleton.mp hq
    exact (restricted_exact hm hext).1
  | some l =>
    obtain ⟨m', hm', c, hc, hclash, rfl⟩ := mem_merge.mp hm
    obtain ⟨hextm, hextc⟩ := (extends_update hclash key).mp hext
    rcases List.mem_append.mp hq with hdone | hlast
    · exact hsome l rfl m' hm' key hextm q hdone
    · obtain rfl : q = p := List.mem_singleton.mp hlast
      exact (restricted_exact hc hextc).1

theorem joined_kept {cur0 key : BitVec 32} {live : Option (List PartialKey)}
    (hkept : ∀ l, live = some l → ∃ m ∈ l, Extends key m) {p : Pair} (hp : keyedRound p.1 key cur0 = p.2) :
    ∃ m ∈ joined live (keysAllowedBy p.1 p.2 cur0), Extends key m := by
  have hmem : restricted key (begin cur0 p.1) 39 ∈ keysAllowedBy p.1 p.2 cur0 := mem_keysAllowedBy.mpr ⟨key, hp, rfl⟩
  have hext := extends_restricted key (begin cur0 p.1) 39
  cases live with
  | none => exact ⟨_, hmem, hext⟩
  | some l =>
    obtain ⟨m, hm, hextm⟩ := hkept l rfl
    have hclash := clash_extends hextm hext
    exact ⟨_, mem_merge.mpr ⟨m, hm, _, hmem, hclash, rfl⟩, (extends_update hclash key).mpr ⟨hextm, hext⟩⟩

theorem fitLoop_cons (cur0 : BitVec 32) (n : ℕ) (live : Option (List PartialKey)) (p : Pair) (pairs : List Pair) :
    let cands := keysAllowedBy p.1 p.2 cur0
    let l := joined live cands
    cands = [] ∧ fitLoop cur0 n live (p :: pairs) = .admitsNone n ∨
      l = [] ∧ fitLoop cur0 n live (p :: pairs) = .contradicts n ∨
      (∃ k ∈ l, fitLoop cur0 n live (p :: pairs) = .settled (BitVec.ofNat 32 (keySum k 32)) (n + 1)) ∨
      fitLoop cur0 n live (p :: pairs) = fitLoop cur0 (n + 1) (some l) pairs := by
  intro cands l
  have hloop : fitLoop cur0 n live (p :: pairs) =
      if cands = [] then .admitsNone n
      else if l = [] then .contradicts n
      else
        match (l.filter isFull).dedup with
        | [k] => if 8 ≤ n then .settled (BitVec.ofNat 32 (keySum k 32)) (n + 1) else fitLoop cur0 (n + 1) (some l) pairs
        | _ => fitLoop cur0 (n + 1) (some l) pairs := by
    cases live <;> rfl
  rw [hloop]
  by_cases hcands : cands = []
  · exact Or.inl ⟨hcands, if_pos hcands⟩
  rw [if_neg hcands]
  by_cases hl : l = []
  · exact Or.inr (Or.inl ⟨hl, if_pos hl⟩)
  rw [if_neg hl]
  split
  case _ k hfull =>
    have hk : k ∈ l := by
      have hmem : k ∈ (l.filter isFull).dedup := by
        rw [hfull]
        exact List.mem_singleton_self k
      exact (List.mem_filter.mp (List.mem_dedup.mp hmem)).1
    by_cases hn : 8 ≤ n
    · exact Or.inr (Or.inr (Or.inl ⟨k, hk, if_pos hn⟩))
    · exact Or.inr (Or.inr (Or.inr (if_neg hn)))
  case _ => exact Or.inr (Or.inr (Or.inr rfl))

theorem fitLoop_sound {cur0 : BitVec 32} {n : ℕ} {live : Option (List PartialKey)} {done pairs : List Pair}
    (hnone : live = none → done = []) (hsome : ∀ l, live = some l → Live cur0 l done) {key : BitVec 32} {k : ℕ}
    (h : fitLoop cur0 n live pairs = .settled key k) :
    ∃ j ≤ pairs.length, k = n + j ∧ Reproduces cur0 key (done ++ pairs.take j) := by
  induction pairs generalizing n live done with
  | nil => cases h
  | cons p pairs ih =>
    have hlive := joined_live hnone hsome p
    rcases fitLoop_cons cur0 n live p pairs with ⟨-, heq⟩ | ⟨-, heq⟩ | ⟨m, hm, heq⟩ | heq
    · exact Fit.noConfusion (heq.symm.trans h)
    · exact Fit.noConfusion (heq.symm.trans h)
    · obtain ⟨rfl, rfl⟩ := Fit.settled.inj (heq.symm.trans h)
      exact ⟨1, by simp, rfl, hlive m hm _ (extends_keySum m)⟩
    · obtain ⟨j, hj, rfl, hrepr⟩ := ih (fun hno => absurd hno (Option.some_ne_none _))
        (fun l hl => Option.some.inj hl ▸ hlive) (heq.symm.trans h)
      refine ⟨j + 1, Nat.succ_le_succ hj, by omega, ?_⟩
      rw [List.append_assoc] at hrepr
      exact hrepr

theorem fitLoop_kept {cur0 key : BitVec 32} {n : ℕ} {live : Option (List PartialKey)} {pairs : List Pair}
    (hkept : ∀ l, live = some l → ∃ m ∈ l, Extends key m) (hkey : Reproduces cur0 key pairs) (k : ℕ) :
    fitLoop cur0 n live pairs ≠ .admitsNone k ∧ fitLoop cur0 n live pairs ≠ .contradicts k := by
  induction pairs generalizing n live with
  | nil => exact ⟨Fit.noConfusion, Fit.noConfusion⟩
  | cons p pairs ih =>
    have hp := hkey p List.mem_cons_self
    have hmem : restricted key (begin cur0 p.1) 39 ∈ keysAllowedBy p.1 p.2 cur0 := mem_keysAllowedBy.mpr ⟨key, hp, rfl⟩
    obtain ⟨m, hm, hext⟩ := joined_kept hkept hp
    rcases fitLoop_cons cur0 n live p pairs with ⟨hnil, -⟩ | ⟨hnil, -⟩ | ⟨m', -, heq⟩ | heq
    · rw [hnil] at hmem
      cases hmem
    · rw [hnil] at hm
      cases hm
    · rw [heq]
      exact ⟨Fit.noConfusion, Fit.noConfusion⟩
    · rw [heq]
      exact ih (fun l hl => Option.some.inj hl ▸ ⟨m, hm, hext⟩) fun q hq => hkey q (List.mem_cons_of_mem p hq)

/-- The partial keys of a round are exact, one for each path a key can take through it; a key that is fitted reproduces
    the pairs that were looked at, and pairs of one key are never found to contradict each other. -/
theorem recovery_exact (v0 vout cur0 : BitVec 32) :
    (∀ m, m ∈ keysAllowedBy v0 vout cur0 ↔
      ∀ key, Extends key m →
        keyedRound v0 key cur0 = vout ∧ ∀ i, m i ≠ none ↔ Consulted key (begin cur0 v0) 39 i) ∧
    (∃ ps : List (List Bool), ps.Nodup ∧
      (∀ p, p ∈ ps ↔ ∃ key, keyedRound v0 key cur0 = vout ∧ decisions v0 key cur0 = p) ∧
      List.Forall₂ (fun p m => ∀ key, Extends key m ↔ decisions v0 key cur0 = p) ps (keysAllowedBy v0 vout cur0)) ∧
    (∀ key, restricted key (begin cur0 v0) 39 ∈ keysAllowedBy v0 (keyedRound v0 key cur0) cur0) ∧
    ∀ pairs : List Pair,
      (∀ key n, fit pairs cur0 = .settled key n →
        n ≤ pairs.length ∧ ∀ p ∈ pairs.take n, keyedRound p.1 key cur0 = p.2) ∧
      ((∃ key, ∀ p ∈ pairs, keyedRound p.1 key cur0 = p.2) →
        ∀ n, fit pairs cur0 ≠ .admitsNone n ∧ fit pairs cur0 ≠ .contradicts n) := by
  have hasked (key : BitVec 32) (i : Fin 32) :
      restricted key (begin cur0 v0) 39 i ≠ none ↔ Consulted key (begin cur0 v0) 39 i := by
    unfold restricted
    by_cases h : Consulted key (begin cur0 v0) 39 i
    · simp [h]
    · simp [h]
  refine ⟨fun m => ⟨fun hm key hext => ?_, fun h => ?_⟩, ⟨paths v0 vout cur0, paths_nodup v0 vout cur0,
    fun p => mem_paths, paths_keys v0 vout cur0⟩, fun key => mem_keysAllowedBy.mpr ⟨key, rfl, rfl⟩, fun pairs => ⟨?_, ?_⟩⟩
  · obtain ⟨hround, hm⟩ := restricted_exact hm hext
    refine ⟨hround, fun i => ?_⟩
    rw [hm]
    exact hasked key i
  · have hext := extends_keySum m
    obtain ⟨hround, hdom⟩ := h _ hext
    refine mem_keysAllowedBy.mpr ⟨_, hround, funext fun i => ?_⟩
    unfold restricted
    cases hi : m i with
    | none => exact (if_neg fun hc => (hdom i).mpr hc hi).symm
    | some b =>
      rw [if_pos ((hdom i).mp (by rw [hi]; exact Option.some_ne_none b)), hext i b hi]
  · intro key n h
    have hnone : (none : Option (List PartialKey)) = none → ([] : List Pair) = [] := fun _ => rfl
    obtain ⟨j, hj, rfl, hrepr⟩ := fitLoop_sound hnone (fun l hl => absurd hl.symm (Option.some_ne_none l)) h
    rw [Nat.zero_add]
    exact ⟨hj, hrepr⟩
  · rintro ⟨key, hkey⟩ n
    exact fitLoop_kept (fun l hl => absurd hl.symm (Option.some_ne_none l)) hkey n

end PeepeeBox.KeyRecovery
