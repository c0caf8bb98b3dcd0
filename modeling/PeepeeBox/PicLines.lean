import Mathlib.Data.Fintype.Card
import PeepeeBox.Pic

set_option autoImplicit false

/-!
# Interrupt lines that are shared

A level-signalling device counts on the lines its request is routed to, from the call that raises it to the one that
lowers it.
-/
namespace PeepeeBox.PicLines
open Pic

structure Setup (D : Type) where
  board : Board
  mask : D → BitVec 16

inductive Step (D : Type) where
  | level (d : D) (set : Bool)
  | edge (d : D) (set : Bool)
  | write (chip : Chip) (odd : Bool) (val : Byte)
  | read (chip : Chip) (odd : Bool)
  | elcr (chip : Chip) (val : Byte)
  | tick
  | acknowledge

structure State (D : Type) where
  pics : Pics
  /-- The devices' `irq_state` bytes. -/
  irqState : D → Bool

section
variable {D : Type} [DecidableEq D] (c : Setup D)

/-- `none` where an acknowledge cycle follows a pointer that is not there. -/
def apply (s : State D) : Step D → Option (State D)
  | .level d set =>
    let r := picintCommon c.board s.pics (c.mask d) true set (s.irqState d)
    some { pics := r.1, irqState := Function.update s.irqState d r.2 }
  | .edge d set => some { s with pics := (picintCommon c.board s.pics (c.mask d) false set false).1 }
  | .write chip odd val => some { s with pics := picWrite c.board s.pics chip odd val }
  | .read chip odd => some { s with pics := picRead c.board s.pics chip odd }
  | .elcr chip val => some { s with pics := picElcrWrite s.pics chip val }
  | .tick => some { s with pics := updatePending c.board s.pics }
  | .acknowledge => (picinterrupt c.board s.pics).map fun r => { s with pics := r.1 }

def start : State D := { pics := picReset, irqState := fun _ => false }

def run (steps : List (Step D)) (s : State D) : Option (State D) := steps.foldlM (apply c) s

def routed (b : Board) (icw3 : Byte) (num : BitVec 16) : BitVec 16 :=
  if slaves icw3 = 0 then route b icw3 num &&& 0x00FF else route b icw3 num

def lineOf (s : Pics) (i : ℕ) : BitVec 32 := (s.dev (chipOf i)).lines (i % 8)

def irrOf (s : Pics) (i : ℕ) : Bool := (s.dev (chipOf i)).irr.getLsbD (i % 8)

def isLevel (b : Board) (s : Pics) (i : ℕ) : Bool := picLevelTriggered b (s.dev (chipOf i)) (i % 8)

def asserts (s : State D) (d : D) (i : ℕ) : Bool :=
  s.irqState d && (routed c.board s.pics.pic.icw3 (c.mask d)).getLsbD i

def count [Fintype D] (s : State D) (i : ℕ) : ℕ := (Finset.univ.filter fun d => asserts c s d i = true).card

/-- What the write makes of a chip's ICW3. -/
def nextIcw3 (b : Board) (s : Pics) (chip : Chip) : Step D → Byte
  | .write chip' odd val =>
    if chip' = chip then
      if odd then if (s.dev chip).state = .icw3 then val else (s.dev chip).icw3
      else if has val 0x10 ∧ ¬(b.pci ∧ has val 0xE0) then 0 else (s.dev chip).icw3
    else (s.dev chip).icw3
  | _ => (s.dev chip).icw3

/-- No device that asserts a line is routed elsewhere by the step. -/
def Steady (s : State D) (a : Step D) : Prop :=
  ∀ d, s.irqState d = true →
    routed c.board (nextIcw3 c.board s.pics .pic a) (c.mask d) = routed c.board s.pics.pic.icw3 (c.mask d)

/-- The step leaves the line's request to the level-signalling devices: the line is not the one that the slave's ICW3
    names, no edge comes to it, and ELCR does not make it level-triggered while its request is not as its count. -/
def Alone (s : State D) (a : Step D) (i : ℕ) : Prop :=
  (c.board.at' = true → i < 8 → s.pics.pic2.icw3.toNat ≠ i ∧ (nextIcw3 c.board s.pics .pic2 a).toNat ≠ i) ∧
    match a with
    | .edge d _ => isLevel c.board s.pics i = true → (routed c.board s.pics.pic.icw3 (c.mask d)).getLsbD i = false
    | .elcr chip val =>
      isLevel c.board (picElcrWrite s.pics chip val) i = true → isLevel c.board s.pics i = false →
        (irrOf s.pics i = true ↔ lineOf s.pics i ≠ 0)
    | _ => True

end

/-- Lines and modes are kept, and so is the request of a level-triggered line with a right count, unless the slave's
    request comes in on it. -/
structure Frame (b : Board) (s s' : Pics) : Prop where
  lines : ∀ chip, (s'.dev chip).lines = (s.dev chip).lines
  icw1 : ∀ chip, (s'.dev chip).icw1 = (s.dev chip).icw1
  icw3 : ∀ chip, (s'.dev chip).icw3 = (s.dev chip).icw3
  elcr : ∀ chip, (s'.dev chip).elcr = (s.dev chip).elcr
  irr : ∀ chip n, n < 8 → picLevelTriggered b (s.dev chip) n = true → ((s.dev chip).lines n = 0 → (s.dev chip).irr.getLsbD n = false) →
    (b.at' = true → chip = .pic → s.pic2.icw3.toNat ≠ n) → (s'.dev chip).irr.getLsbD n = (s.dev chip).irr.getLsbD n

variable {b : Board}

theorem Frame.refl (s : Pics) : Frame b s s := ⟨fun _ => rfl, fun _ => rfl, fun _ => rfl, fun _ => rfl, fun _ _ _ _ _ _ => rfl⟩

theorem levelTriggered_congr {d d' : Dev} (hicw1 : d'.icw1 = d.icw1) (helcr : d'.elcr = d.elcr) (n : ℕ) :
    picLevelTriggered b d' n = picLevelTriggered b d n := by
  unfold picLevelTriggered
  rw [hicw1, helcr]

theorem Frame.trans {s t u : Pics} (h : Frame b s t) (h' : Frame b t u) : Frame b s u where
  lines chip := (h'.lines chip).trans (h.lines chip)
  icw1 chip := (h'.icw1 chip).trans (h.icw1 chip)
  icw3 chip := (h'.icw3 chip).trans (h.icw3 chip)
  elcr chip := (h'.elcr chip).trans (h.elcr chip)
  irr chip n hn hlevel hright hcascade := by
    have hfirst := h.irr chip n hn hlevel hright hcascade
    refine (h'.irr chip n hn ?_ ?_ ?_).trans hfirst
    · rw [levelTriggered_congr (h.icw1 chip) (h.elcr chip), hlevel]
    · rw [h.lines chip, hfirst]
      exact hright
    · intro hat hchip
      have hicw3 := h.icw3 .pic2
      change t.pic2.icw3 = s.pic2.icw3 at hicw3
      rw [hicw3]
      exact hcascade hat hchip

theorem setBit_getLsbD (x : Byte) (i j : ℕ) : (setBit x i).getLsbD j = (x.getLsbD j || decide (j < 8 ∧ i = j)) := by
  have hpow : setBit x i = x ||| BitVec.twoPow 8 i := rfl
  rw [hpow, BitVec.getLsbD_or, BitVec.getLsbD_twoPow]
  by_cases hij : i = j
  · subst hij
    simp
  · simp [hij]

theorem clearBit_getLsbD (x : Byte) (i j : ℕ) : (clearBit x i).getLsbD j = (x.getLsbD j && !decide (j < 8 ∧ i = j)) := by
  have hpow : clearBit x i = x &&& ~~~BitVec.twoPow 8 i := rfl
  rw [hpow, BitVec.getLsbD_and, BitVec.getLsbD_not, BitVec.getLsbD_twoPow]
  by_cases hj : j < 8
  · by_cases hij : i = j
    · subst hij
      simp [hj]
    · simp [hj, hij]
  · rw [BitVec.getLsbD_of_ge x j (Nat.not_lt.mp hj)]
    simp

theorem frame_put {s : Pics} {chip : Chip} {d : Dev} (hlines : d.lines = (s.dev chip).lines)
    (hicw1 : d.icw1 = (s.dev chip).icw1) (hicw3 : d.icw3 = (s.dev chip).icw3) (helcr : d.elcr = (s.dev chip).elcr)
    (hirr : ∀ n < 8, picLevelTriggered b (s.dev chip) n = true →
      ((s.dev chip).lines n = 0 → (s.dev chip).irr.getLsbD n = false) →
      (b.at' = true → chip = .pic → s.pic2.icw3.toNat ≠ n) → d.irr.getLsbD n = (s.dev chip).irr.getLsbD n) : Frame b s (s.put chip d) := by
  cases chip with
  | pic =>
    constructor
    · rintro (_ | _)
      · exact hlines
      · rfl
    · rintro (_ | _)
      · exact hicw1
      · rfl
    · rintro (_ | _)
      · exact hicw3
      · rfl
    · rintro (_ | _)
      · exact helcr
      · rfl
    · rintro (_ | _) n hn hlevel hright hcascade
      · exact hirr n hn hlevel hright hcascade
      · rfl
  | pic2 =>
    constructor
    · rintro (_ | _)
      · rfl
      · exact hlines
    · rintro (_ | _)
      · rfl
      · exact hicw1
    · rintro (_ | _)
      · rfl
      · exact hicw3
    · rintro (_ | _)
      · rfl
      · exact helcr
    · rintro (_ | _) n hn hlevel hright hcascade
      · rfl
      · exact hirr n hn hlevel hright hcascade

theorem frame_still {s : Pics} {chip : Chip} {d : Dev} (hlines : d.lines = (s.dev chip).lines)
    (hicw1 : d.icw1 = (s.dev chip).icw1) (hicw3 : d.icw3 = (s.dev chip).icw3) (helcr : d.elcr = (s.dev chip).elcr)
    (hirr : d.irr = (s.dev chip).irr) : Frame b s (s.put chip d) :=
  frame_put hlines hicw1 hicw3 helcr fun _ _ _ _ _ => by rw [hirr]

theorem frame_updatePending (s : Pics) : Frame b s (updatePending b s) := by
  unfold updatePending
  split
  case isTrue hat =>
    unfold updatePendingAt
    split
    · exact Frame.refl s
    · have hpic2 : Frame b s (s.put .pic2 (findBestInterrupt s.pic2)) := frame_still rfl rfl rfl rfl rfl
      refine hpic2.trans (@frame_put b _ .pic _ rfl rfl rfl rfl fun n hn _ _ hcascade => ?_)
      have hne := hcascade hat rfl
      change s.pic2.icw3.toNat ≠ n at hne
      change (if (findBestInterrupt s.pic2).intPending = true then setBit s.pic.irr s.pic2.icw3.toNat
        else clearBit s.pic.irr s.pic2.icw3.toNat).getLsbD n = s.pic.irr.getLsbD n
      split
      · simp [setBit_getLsbD, hne]
      · simp [clearBit_getLsbD, hne]
  case isFalse =>
    unfold updatePendingXt
    split
    · exact Frame.refl s
    · exact @frame_still b s .pic _ rfl rfl rfl rfl rfl

theorem acknowledge_irr {d d' : Dev} (hirr : d'.irr = d.irr) (hlines : d'.lines = d.lines) (hicw1 : d'.icw1 = d.icw1)
    (helcr : d'.elcr = d.elcr) {n : ℕ} (hlevel : picLevelTriggered b d n = true)
    (hright : d.lines n = 0 → d.irr.getLsbD n = false) : (picAcknowledge b d').irr.getLsbD n = d.irr.getLsbD n := by
  have hcongr := levelTriggered_congr (b := b) hicw1 helcr
  unfold picAcknowledge
  dsimp only
  split
  case isTrue hclear =>
    dsimp only
    rw [hirr, clearBit_getLsbD]
    by_cases hn : BitVec.toNat (d'.interrupt &&& 7) = n
    · rw [hn] at hclear
      have hzero : d.lines n = 0 := by
        rcases hclear with hedge | hzero
        · have hlevel' := (hcongr n).trans hlevel
          exact absurd (hedge.symm.trans hlevel') Bool.false_ne_true
        · rw [← hlines]
          exact hzero
      rw [hright hzero, Bool.false_and]
    · rw [decide_eq_false fun h => hn h.2, Bool.not_false, Bool.and_true]
  case isFalse =>
    dsimp only
    rw [hirr]

theorem acknowledge_kept (d : Dev) :
    (picAcknowledge b d).lines = d.lines ∧ (picAcknowledge b d).icw1 = d.icw1 ∧ (picAcknowledge b d).icw3 = d.icw3 ∧
      (picAcknowledge b d).elcr = d.elcr := by
  unfold picAcknowledge
  dsimp only
  split <;> exact ⟨rfl, rfl, rfl, rfl⟩

theorem frame_action (s : Pics) (chip : Chip) (irq : Option ℕ) (eoi rotate : Bool) :
    Frame b s (picAction b s chip irq eoi rotate) := by
  cases irq with
  | none => exact Frame.refl s
  | some irq =>
    refine Frame.trans (frame_still ?_ ?_ ?_ ?_ ?_) (frame_updatePending _) <;>
      cases eoi <;> cases rotate <;> rfl

theorem frame_autoEoi (s : Pics) (chip : Chip) : Frame b s (picAutoNonSpecificEoi b s chip) := by
  unfold picAutoNonSpecificEoi
  dsimp only
  split
  · exact frame_action s chip _ _ _
  · exact Frame.refl s

theorem put_put (s : Pics) (chip : Chip) (d d' : Dev) : (s.put chip d).put chip d' = s.put chip d' := by
  cases chip <;> rfl

theorem dev_put (s : Pics) (chip : Chip) (d : Dev) : (s.put chip d).dev chip = d := by
  cases chip <;> rfl

theorem frame_command {s : Pics} {chip : Chip} {d : Dev} (hlines : d.lines = (s.dev chip).lines)
    (hicw1 : d.icw1 = (s.dev chip).icw1) (hicw3 : d.icw3 = (s.dev chip).icw3) (helcr : d.elcr = (s.dev chip).elcr)
    (hirr : d.irr = (s.dev chip).irr) : Frame b s (picCommand b (s.put chip d) chip) := by
  have hfirst : Frame b s (s.put chip d) := frame_still hlines hicw1 hicw3 helcr hirr
  unfold picCommand
  dsimp only
  split
  · exact hfirst.trans (frame_action _ chip _ _ _)
  · refine hfirst.trans (frame_still rfl rfl rfl rfl rfl)

theorem frame_acknowledge {s : Pics} {chip : Chip} {d d' : Dev} (hlines : d.lines = (s.dev chip).lines)
    (hicw1 : d.icw1 = (s.dev chip).icw1) (hicw3 : d.icw3 = (s.dev chip).icw3) (helcr : d.elcr = (s.dev chip).elcr)
    (hirr : d.irr = (s.dev chip).irr) (hlines' : d'.lines = (picAcknowledge b d).lines)
    (hicw1' : d'.icw1 = (picAcknowledge b d).icw1) (hicw3' : d'.icw3 = (picAcknowledge b d).icw3)
    (helcr' : d'.elcr = (picAcknowledge b d).elcr) (hirr' : d'.irr = (picAcknowledge b d).irr) :
    Frame b s (s.put chip d') := by
  obtain ⟨klines, kicw1, kicw3, kelcr⟩ := acknowledge_kept (b := b) d
  refine frame_put ((hlines'.trans klines).trans hlines) ((hicw1'.trans kicw1).trans hicw1)
    ((hicw3'.trans kicw3).trans hicw3) ((helcr'.trans kelcr).trans helcr) fun n _ hlevel hright _ => ?_
  rw [hirr']
  exact acknowledge_irr hirr hlines hicw1 helcr hlevel hright

theorem frame_poll {s : Pics} {chip : Chip} {d : Dev} (hlines : d.lines = (s.dev chip).lines)
    (hicw1 : d.icw1 = (s.dev chip).icw1) (hicw3 : d.icw3 = (s.dev chip).icw3) (helcr : d.elcr = (s.dev chip).elcr)
    (hirr : d.irr = (s.dev chip).irr) : Frame b s (picPoll b (s.put chip d) chip) := by
  unfold picPoll
  dsimp only
  rw [dev_put]
  split
  · rw [put_put]
    refine Frame.trans ?_ (frame_still rfl rfl rfl rfl rfl)
    refine Frame.trans ?_ (frame_updatePending _)
    refine frame_acknowledge ?_ ?_ ?_ ?_ ?_ rfl rfl rfl rfl rfl
    · exact hlines
    · exact hicw1
    · exact hicw3
    · exact helcr
    · exact hirr
  · rw [put_put, dev_put, put_put]
    exact frame_still hlines hicw1 hicw3 helcr hirr

theorem frame_read (s : Pics) (chip : Chip) (odd : Bool) : Frame b s (picRead b s chip odd) := by
  unfold picRead
  dsimp only
  split
  · exact frame_still rfl rfl rfl rfl rfl
  · split
    · exact frame_poll rfl rfl rfl rfl rfl
    · split
      · exact frame_still rfl rfl rfl rfl rfl
      · split
        · exact frame_still rfl rfl rfl rfl rfl
        · exact frame_still rfl rfl rfl rfl rfl

theorem frame_answer {slaveRead : Pics → Option Pics} (hslave : ∀ s s', slaveRead s = some s' → Frame b s s') {s s' : Pics}
    {chip : Chip} {own : Byte} (h : ackAnswer b slaveRead s chip own = some s') : Frame b s s' := by
  unfold ackAnswer at h
  dsimp only at h
  split at h
  · split at h
    · obtain ⟨t, ht, rfl⟩ := Option.map_eq_some_iff.mp h
      exact (hslave s t ht).trans (frame_still rfl rfl rfl rfl rfl)
    · cases h
  · obtain rfl := Option.some.inj h
    exact frame_still rfl rfl rfl rfl rfl

theorem frame_phase {slaveRead : Pics → Option Pics} (hslave : ∀ s s', slaveRead s = some s' → Frame b s s') {s s' : Pics}
    {chip : Chip} {phase : ℕ} (h : ackPhase b slaveRead s chip phase = some s') : Frame b s s' := by
  have hlast {d : Dev} {own : Byte} (hd : d = { s.dev chip with intPending := false })
      (h : ((ackAnswer b slaveRead (s.put chip d) chip own).map fun s => picAutoNonSpecificEoi b s chip) = some s') :
      Frame b s s' := by
    obtain ⟨t, ht, rfl⟩ := Option.map_eq_some_iff.mp h
    refine Frame.trans ?_ ((frame_answer hslave ht).trans (frame_autoEoi t chip))
    rw [hd]
    exact frame_still rfl rfl rfl rfl rfl
  unfold ackPhase at h
  dsimp only at h
  split at h
  · refine Frame.trans ?_ (frame_answer hslave h)
    refine frame_acknowledge ?_ ?_ ?_ ?_ ?_ rfl rfl rfl rfl rfl <;> rfl
  · split at h
    · exact hlast rfl h
    · split at h
      · exact frame_answer hslave h
      · split at h
        · exact hlast rfl h
        · obtain rfl := Option.some.inj h
          exact Frame.refl s

theorem frame_ackRead {s s' : Pics} {phase : ℕ} (h : picIrqAckRead b s phase = some s') : Frame b s s' := by
  have hnone (s s' : Pics) (h : (none : Option Pics) = some s') : Frame b s s' := by cases h
  exact frame_phase (fun _ _ ht => frame_phase hnone ht) h

theorem frame_thaw (s : Pics) : Frame b s (thaw b s) := by
  have hpic (t : Pics) : Frame b t (updatePending b (t.put .pic { t.pic with interrupt := 0x17 })) := by
    have hput : Frame b t (t.put .pic { t.pic with interrupt := 0x17 }) := frame_still rfl rfl rfl rfl rfl
    exact hput.trans (frame_updatePending _)
  have hpic2 : Frame b s (s.put .pic2 { s.pic2 with interrupt := 0x17 }) := frame_still rfl rfl rfl rfl rfl
  unfold thaw
  split
  · exact hpic2.trans (hpic _)
  · exact hpic s

theorem frame_ackDone (s : Pics) : Frame b s (ackDone b s) := by
  have hbytes : Frame b s (s.put .pic { s.pic with ackBytes := nextAckBytes s.pic }) := frame_still rfl rfl rfl rfl rfl
  unfold ackDone
  dsimp only
  split
  · exact hbytes.trans (frame_thaw _)
  · exact hbytes

theorem frame_ackCycle {s s' : Pics} (h : ackCycle b s = some s') : Frame b s s' := by
  obtain ⟨t, ht, rfl⟩ := Option.map_eq_some_iff.mp h
  exact (frame_ackRead ht).trans (frame_ackDone t)

theorem frame_ackPrepare {s s' : Pics} (h : ackPrepare s = some s') : Frame b s s' := by
  unfold ackPrepare at h
  dsimp only at h
  split at h
  · split at h
    · cases h
    · split at h
      · split at h
        · cases h
        · split at h
          · obtain rfl := Option.some.inj h
            exact @frame_still b s .pic2 _ rfl rfl rfl rfl rfl
          · obtain rfl := Option.some.inj h
            exact @frame_still b s .pic _ rfl rfl rfl rfl rfl
      · obtain rfl := Option.some.inj h
        exact Frame.refl s
  · obtain rfl := Option.some.inj h
    exact @frame_still b s .pic _ rfl rfl rfl rfl rfl

theorem frame_picinterrupt {s : Pics} {r : Pics × Byte} (h : picinterrupt b s = some r) : Frame b s r.1 := by
  unfold picinterrupt at h
  obtain ⟨s₁, h₁, h⟩ := Option.bind_eq_some_iff.mp h
  obtain ⟨s₂, h₂, h⟩ := Option.bind_eq_some_iff.mp h
  obtain ⟨s₃, h₃, h⟩ := Option.bind_eq_some_iff.mp h
  obtain rfl := Option.some.inj h
  exact (frame_ackPrepare h₁).trans ((frame_ackCycle h₂).trans ((frame_ackRead h₃).trans (frame_ackDone s₃)))

def bump (set : Bool) (x : BitVec 32) : BitVec 32 := if set then x + 1 else x - 1

theorem bump_true_toNat {x : BitVec 32} (h : x.toNat + 1 < 2 ^ 32) : (bump true x).toNat = x.toNat + 1 := by
  have hone : (1 : BitVec 32).toNat = 1 := rfl
  rw [bump, if_pos rfl, BitVec.toNat_add, hone, Nat.mod_eq_of_lt h]

theorem bump_false_toNat {x : BitVec 32} (h : 0 < x.toNat) : (bump false x).toNat = x.toNat - 1 := by
  have hone : (1 : BitVec 32).toNat = 1 := rfl
  have hlt := x.isLt
  rw [bump, if_neg Bool.false_ne_true, BitVec.toNat_sub, hone]
  omega

theorem chipOf_inj {i j : ℕ} (hi : i < 16) (hj : j < 16) (hchip : chipOf i = chipOf j) (hmod : i % 8 = j % 8) :
    i = j := by
  simp only [chipOf] at hchip
  by_cases hi8 : i < 8 <;> by_cases hj8 : j < 8
  · omega
  · simp [hi8, hj8] at hchip
  · simp [hi8, hj8] at hchip
  · omega

theorem put_dev_of_ne {s : Pics} {chip chip' : Chip} {d : Dev} (h : chip' ≠ chip) : (s.put chip d).dev chip' = s.dev chip' := by
  cases chip <;> cases chip' <;> first | rfl | exact absurd rfl h

/-- The first `m` lines of a request have been counted. -/
structure Counted (b : Board) (s : Pics) (num : BitVec 16) (set irqState : Bool) (m : ℕ) (r : Pics × BitVec 16) : Prop where
  others : ∀ chip, r.1.dev chip = { s.dev chip with lines := (r.1.dev chip).lines }
  line : ∀ i < 16, lineOf r.1 i = if i < m ∧ num.getLsbD i = true ∧ irqState ≠ set then bump set (lineOf s i) else lineOf s i
  change : ∀ i < 16, r.2.getLsbD i = true ↔ i < m ∧ num.getLsbD i = true ∧
    (isLevel b s i = false ∨ irqState ≠ set ∧ lineOf r.1 i = if set then 1 else 0)

theorem or_bit_getLsbD (w : BitVec 16) (i j : ℕ) : (w ||| (1 : BitVec 16) <<< i).getLsbD j = (w.getLsbD j || decide (j < 16 ∧ i = j)) := by
  have hpow : (1 : BitVec 16) <<< i = BitVec.twoPow 16 i := rfl
  rw [hpow, BitVec.getLsbD_or, BitVec.getLsbD_twoPow]
  by_cases hij : i = j
  · subst hij
    simp
  · simp [hij]

theorem counted_succ {s : Pics} {num : BitVec 16} {set irqState : Bool} {m : ℕ} (hm : m < 16) {r : Pics × BitVec 16}
    (h : Counted b s num set irqState m r) : Counted b s num set irqState (m + 1) (levelLine b num set irqState r m) := by
  unfold levelLine
  by_cases hnum : num.getLsbD m = true
  · rw [if_pos hnum]
    dsimp only
    generalize hd : (if irqState ≠ set then
        { r.1.dev (chipOf m) with
          lines := Function.update (r.1.dev (chipOf m)).lines (m % 8)
            (if set = true then (r.1.dev (chipOf m)).lines (m % 8) + 1 else (r.1.dev (chipOf m)).lines (m % 8) - 1) }
      else r.1.dev (chipOf m) : Dev) = d
    have hdev : d = { r.1.dev (chipOf m) with lines := d.lines } := by
      rw [← hd]
      split <;> rfl
    have hown : d.lines (m % 8) = if irqState ≠ set then bump set (lineOf s m) else lineOf s m := by
      have hline := h.line m hm
      rw [if_neg (fun h => absurd h.1 (Nat.lt_irrefl m))] at hline
      rw [← hd, ← hline]
      split
      · simp [bump, lineOf]
      · rfl
    have hother (n : ℕ) (hn : n ≠ m % 8) : d.lines n = (r.1.dev (chipOf m)).lines n := by
      rw [← hd]
      split
      · simp [hn]
      · rfl
    have hlevel : picLevelTriggered b d (m % 8) = isLevel b s m := by
      rw [hdev]
      unfold isLevel picLevelTriggered
      rw [h.others (chipOf m)]
    have hlineOf (i : ℕ) (hi : i < 16) :
        lineOf (r.1.put (chipOf m) d) i = if i = m then d.lines (m % 8) else lineOf r.1 i := by
      unfold lineOf
      by_cases him : i = m
      · rw [if_pos him, him, dev_put]
      · rw [if_neg him]
        by_cases hchip : chipOf i = chipOf m
        · have hmod : i % 8 ≠ m % 8 := fun hmod => him (chipOf_inj hi hm hchip hmod)
          rw [hchip, dev_put, hother _ hmod]
        · rw [put_dev_of_ne hchip]
    constructor
    case others =>
      intro chip
      by_cases hchip : chip = chipOf m
      · rw [hchip, dev_put, hdev, h.others (chipOf m)]
      · rw [put_dev_of_ne hchip]
        exact h.others chip
    case line =>
      intro i hi
      rw [hlineOf i hi]
      by_cases him : i = m
      · subst him
        rw [if_pos rfl, hown]
        simp [hnum]
      · have hlt : i < m + 1 ↔ i < m := by omega
        rw [if_neg him, h.line i hi]
        simp only [hlt]
    case change =>
      intro i hi
      rw [hlineOf i hi, hlevel]
      have hold := h.change i hi
      generalize (if set = true then 1 else 0 : BitVec 32) = one at hold ⊢
      dsimp only
      by_cases him : i = m
      · subst him
        have hnot : r.2.getLsbD i = false := by
          rw [Bool.eq_false_iff]
          exact fun hbit => absurd (hold.mp hbit).1 (Nat.lt_irrefl i)
        rw [if_pos rfl]
        split
        case isTrue hchange =>
          rw [or_bit_getLsbD, hnot]
          simpa [hi, hnum] using hchange
        case isFalse hchange =>
          rw [hnot]
          simpa [hnum] using hchange
      · have hlt : i < m + 1 ↔ i < m := by omega
        rw [if_neg him, hlt, ← hold]
        split
        · rw [or_bit_getLsbD]
          simp [Ne.symm him]
        · rfl
  · rw [if_neg hnum]
    have hlt (i : ℕ) (hbit : num.getLsbD i = true) : i < m + 1 ↔ i < m := by
      have hne : i ≠ m := fun him => hnum (him ▸ hbit)
      omega
    constructor
    case others => exact h.others
    case line =>
      intro i hi
      rw [h.line i hi]
      have hiff := and_congr_left (c := num.getLsbD i = true ∧ irqState ≠ set) fun hrest => hlt i hrest.1
      simp only [hiff]
    case change =>
      intro i hi
      rw [h.change i hi]
      exact and_congr_left fun hrest => (hlt i hrest.1).symm

theorem levelLines_counted (s : Pics) (num : BitVec 16) (set irqState : Bool) :
    ∀ m ≤ 16, Counted b s num set irqState m (levelLines b s num set irqState m) := by
  intro m
  induction m with
  | zero =>
    intro _
    constructor
    · exact fun _ => rfl
    · intro i _
      rw [if_neg (fun h => absurd h.1 (Nat.not_lt_zero i))]
      rfl
    · intro i _
      simp [levelLines]
  | succ m ih =>
    intro hm
    have hfold : levelLines b s num set irqState (m + 1) = levelLine b num set irqState (levelLines b s num set irqState m) m := by
      unfold levelLines
      rw [List.range_succ, List.foldl_append]
      rfl
    rw [hfold]
    exact counted_succ (by omega) (ih (by omega))

def Right (b : Board) (s : Pics) (i : ℕ) : Prop := isLevel b s i = true → (irrOf s i = true ↔ lineOf s i ≠ 0)

theorem Frame.lineOf {s s' : Pics} (h : Frame b s s') (i : ℕ) : lineOf s' i = lineOf s i := by
  unfold PicLines.lineOf
  rw [h.lines]

theorem Frame.isLevel {s s' : Pics} (h : Frame b s s') (i : ℕ) : isLevel b s' i = isLevel b s i :=
  levelTriggered_congr (h.icw1 _) (h.elcr _) _

theorem Frame.right {s s' : Pics} (h : Frame b s s') {i : ℕ} (hcascade : b.at' = true → i < 8 → s.pic2.icw3.toNat ≠ i)
    (hright : Right b s i) : Right b s' i := by
  intro hlevel
  rw [h.isLevel] at hlevel
  have hiff := hright hlevel
  have hirr : irrOf s' i = irrOf s i := by
    apply h.irr (chipOf i) (i % 8) (Nat.mod_lt i (by decide)) hlevel
    · intro hzero
      rw [Bool.eq_false_iff]
      exact fun hbit => hiff.mp hbit hzero
    · intro hat hpic
      have hi : i < 8 := by
        by_contra hge
        simp [chipOf, hge] at hpic
      rw [Nat.mod_eq_of_lt hi]
      exact hcascade hat hi
  rw [h.lineOf, hirr]
  exact hiff

structure Requested (b : Board) (s : Pics) (num : BitVec 16) (set irqState : Bool) (u : Pics) : Prop where
  icw1 : ∀ chip, (u.dev chip).icw1 = (s.dev chip).icw1
  icw3 : ∀ chip, (u.dev chip).icw3 = (s.dev chip).icw3
  elcr : ∀ chip, (u.dev chip).elcr = (s.dev chip).elcr
  line : ∀ i < 16, lineOf u i = if num.getLsbD i = true ∧ irqState ≠ set then bump set (lineOf s i) else lineOf s i
  irr : ∀ i < 16, isLevel b s i = true →
    irrOf u i = if num.getLsbD i = true ∧ irqState ≠ set ∧ lineOf u i = if set then 1 else 0 then set else irrOf s i

theorem irrOf_raiseLines (s : Pics) (num : BitVec 16) {i : ℕ} (hi : i < 16) :
    irrOf (raiseLines b s num) i = (irrOf s i || num.getLsbD i) := by
  unfold irrOf chipOf
  by_cases hi8 : i < 8
  · rw [if_pos hi8, Nat.mod_eq_of_lt hi8]
    simp [raiseLines, Pics.dev, hi8]
  · have hmod : 8 + i % 8 = i := by omega
    rw [if_neg hi8]
    simp [raiseLines, Pics.dev, Nat.mod_lt, hmod]

theorem irrOf_lowerLines (s : Pics) (num : BitVec 16) {i : ℕ} (hi : i < 16) :
    irrOf (lowerLines b s num) i = (irrOf s i && !num.getLsbD i) := by
  unfold irrOf chipOf
  by_cases hi8 : i < 8
  · rw [if_pos hi8, Nat.mod_eq_of_lt hi8]
    simp [lowerLines, Pics.dev, hi8]
  · have hmod : 8 + i % 8 = i := by omega
    rw [if_neg hi8]
    simp [lowerLines, Pics.dev, Nat.mod_lt, hmod]

theorem raiseLines_kept (s : Pics) (num : BitVec 16) (chip : Chip) :
    (raiseLines b s num).dev chip = { s.dev chip with irr := ((raiseLines b s num).dev chip).irr } := by
  cases chip <;> rfl

theorem lowerLines_kept (s : Pics) (num : BitVec 16) (chip : Chip) :
    (lowerLines b s num).dev chip = { s.dev chip with irr := ((lowerLines b s num).dev chip).irr } := by
  cases chip <;> rfl

def setLines (b : Board) (s : Pics) (num : BitVec 16) (set : Bool) : Pics := if set then raiseLines b s num else lowerLines b s num

theorem setLines_kept (s : Pics) (num : BitVec 16) (set : Bool) (chip : Chip) :
    (setLines b s num set).dev chip = { s.dev chip with irr := ((setLines b s num set).dev chip).irr } := by
  cases set
  · exact lowerLines_kept s num chip
  · exact raiseLines_kept s num chip

theorem frame_setLines_zero (s : Pics) (set : Bool) : Frame b (setLines b s 0 set) s := by
  have hirr (chip : Chip) : ((setLines b s 0 set).dev chip).irr = (s.dev chip).irr := by
    cases chip <;> cases set <;> simp [setLines, raiseLines, lowerLines, Pics.dev]
    all_goals exact BitVec.and_allOnes
  have hkept (chip : Chip) : (setLines b s 0 set).dev chip = s.dev chip := by
    rw [setLines_kept, hirr]
  constructor
  · exact fun chip => by rw [hkept]
  · exact fun chip => by rw [hkept]
  · exact fun chip => by rw [hkept]
  · exact fun chip => by rw [hkept]
  · exact fun chip _ _ _ _ _ => by rw [hkept]

theorem irrOf_setLines (s : Pics) (num : BitVec 16) (set : Bool) {i : ℕ} (hi : i < 16) :
    irrOf (setLines b s num set) i = if num.getLsbD i = true then set else irrOf s i := by
  cases set
  · exact (irrOf_lowerLines s num hi).trans (by cases num.getLsbD i <;> simp)
  · exact (irrOf_raiseLines s num hi).trans (by cases num.getLsbD i <;> simp)

theorem routed_getLsbD (icw3 : Byte) (num : BitVec 16) {i : ℕ} (hi : i < 16) :
    (routed b icw3 num).getLsbD i = true ↔
      i < (if slaves icw3 = 0 then 8 else 16) ∧ (route b icw3 num).getLsbD i = true := by
  unfold routed
  split
  · have hmask : (0x00FF : BitVec 16) = (BitVec.allOnes 8).setWidth 16 := rfl
    rw [hmask, BitVec.getLsbD_and, BitVec.getLsbD_setWidth, BitVec.getLsbD_allOnes]
    simp [hi, and_comm]
  · simp [hi]

theorem requested_of_counted {s : Pics} {num : BitVec 16} {set irqState : Bool} {r : Pics × BitVec 16}
    (h : Counted b s (route b s.pic.icw3 num) set irqState (if slaves s.pic.icw3 = 0 then 8 else 16) r) :
    Requested b s (routed b s.pic.icw3 num) set irqState (setLines b r.1 r.2 set) := by
  have hkept (chip : Chip) : (setLines b r.1 r.2 set).dev chip =
      { s.dev chip with
        lines := (r.1.dev chip).lines
        irr := ((setLines b r.1 r.2 set).dev chip).irr } := by
    rw [setLines_kept, h.others chip]
  have hline (i : ℕ) : lineOf (setLines b r.1 r.2 set) i = lineOf r.1 i := by
    unfold lineOf
    rw [hkept]
  constructor
  case icw1 => exact fun chip => by rw [hkept]
  case icw3 => exact fun chip => by rw [hkept]
  case elcr => exact fun chip => by rw [hkept]
  case line =>
    intro i hi
    rw [hline, h.line i hi]
    simp only [routed_getLsbD _ _ hi, and_assoc]
  case irr =>
    intro i hi hlevel
    have hirr : irrOf r.1 i = irrOf s i := by
      unfold irrOf
      rw [h.others]
    have hchange := h.change i hi
    rw [hlevel] at hchange
    rw [irrOf_setLines _ _ _ hi, hirr, hline]
    simp only [hchange, routed_getLsbD _ _ hi, and_assoc]
    simp

theorem level_requested (s : Pics) (num : BitVec 16) (set irqState : Bool) :
    ∃ u, Requested b s (routed b s.pic.icw3 num) set irqState u ∧ Frame b u (picintCommon b s num true set irqState).1 := by
  have hmax : (if slaves s.pic.icw3 = 0 then 8 else 16) ≤ 16 := by
    split <;> decide
  have hcounted := levelLines_counted (b := b) s (route b s.pic.icw3 num) set irqState _ hmax
  have hrequested := requested_of_counted hcounted
  generalize hr : levelLines b s (route b s.pic.icw3 num) set irqState (if slaves s.pic.icw3 = 0 then 8 else 16) = r
    at hcounted hrequested
  have hmask : (if slaves s.pic.icw3 = 0 then r.2 &&& 0x00FF else r.2) = r.2 := by
    split
    case isTrue hnone =>
      apply BitVec.eq_of_getLsbD_eq
      intro i hi
      have hwide : (0x00FF : BitVec 16) = (BitVec.allOnes 8).setWidth 16 := rfl
      have hchange := hcounted.change i hi
      rw [if_pos hnone] at hchange
      rw [hwide, BitVec.getLsbD_and, BitVec.getLsbD_setWidth, BitVec.getLsbD_allOnes]
      cases hbit : r.2.getLsbD i with
      | false => rfl
      | true => simp [hi, (hchange.mp hbit).1]
    case isFalse => rfl
  unfold picintCommon
  dsimp only
  split
  case isTrue hzero =>
    refine ⟨s, ⟨fun _ => rfl, fun _ => rfl, fun _ => rfl, ?_, ?_⟩, Frame.refl s⟩
    · intro i hi
      simp [routed, hzero]
    · intro i hi _
      simp [routed, hzero]
  case isFalse =>
    rw [if_pos rfl, hr, hmask]
    split
    case isTrue hzero =>
      rw [hzero] at hrequested
      exact ⟨_, hrequested, frame_setLines_zero r.1 set⟩
    case isFalse => exact ⟨_, hrequested, frame_updatePending _⟩

theorem edge_requested (s : Pics) (num : BitVec 16) (set irqState : Bool) :
    ∃ u : Pics, (∀ chip, u.dev chip = { s.dev chip with irr := (u.dev chip).irr }) ∧
      (∀ i < 16, (routed b s.pic.icw3 num).getLsbD i = false → irrOf u i = irrOf s i) ∧
      Frame b u (picintCommon b s num false set irqState).1 := by
  have hsame : ∃ u : Pics, (∀ chip, u.dev chip = { s.dev chip with irr := (u.dev chip).irr }) ∧
      (∀ i < 16, (routed b s.pic.icw3 num).getLsbD i = false → irrOf u i = irrOf s i) ∧ Frame b u s :=
    ⟨s, fun _ => rfl, fun _ _ _ => rfl, Frame.refl s⟩
  unfold picintCommon
  dsimp only
  split
  case isTrue => exact hsame
  case isFalse =>
    have hnum : (if slaves s.pic.icw3 = 0 then route b s.pic.icw3 num &&& 0x00FF else route b s.pic.icw3 num) =
      routed b s.pic.icw3 num := rfl
    rw [if_neg Bool.false_ne_true]
    dsimp only
    rw [hnum]
    split
    case isTrue => exact hsame
    case isFalse =>
      refine ⟨setLines b s (routed b s.pic.icw3 num) set, setLines_kept _ _ _, ?_, frame_updatePending _⟩
      intro i hi hother
      rw [irrOf_setLines _ _ _ hi, hother, if_neg Bool.false_ne_true]

theorem heldIrr_getLsbD (lines : ℕ → BitVec 32) {n : ℕ} (hn : n < 8) :
    (heldIrr lines).getLsbD n = true ↔ lines n ≠ 0 := by
  have hfold : ∀ m ≤ 8, ((List.range m).foldl (fun irr i => if lines i ≠ 0 then setBit irr i else irr) 0).getLsbD n = true ↔
      n < m ∧ lines n ≠ 0 := by
    intro m
    induction m with
    | zero => simp
    | succ m ih =>
      intro hm
      have ihm := ih (by omega)
      rw [List.range_succ, List.foldl_append, List.foldl_cons, List.foldl_nil]
      generalize (List.range m).foldl (fun irr i => if lines i ≠ 0 then setBit irr i else irr) 0 = irr at ihm ⊢
      by_cases hmn : m = n
      · subst hmn
        split
        case isTrue hheld =>
          rw [setBit_getLsbD, decide_eq_true ⟨hn, rfl⟩, Bool.or_true]
          exact iff_of_true rfl ⟨Nat.lt_succ_self m, hheld⟩
        case isFalse hnot =>
          rw [ihm]
          exact iff_of_false (fun h => hnot h.2) (fun h => hnot h.2)
      · have hlt : n < m + 1 ↔ n < m := by omega
        rw [hlt, ← ihm]
        split
        · simp [setBit_getLsbD, hmn]
        · rfl
  have height := hfold 8 (Nat.le_refl 8)
  unfold heldIrr
  rw [height]
  simp [hn]

/-- A write keeps the lines and ELCR, sets ICW3 as said, and keeps a right request, unless the slave's comes in on it. -/
structure Written (b : Board) (s s' : Pics) (next : Chip → Byte) : Prop where
  lines : ∀ chip, (s'.dev chip).lines = (s.dev chip).lines
  icw3 : ∀ chip, (s'.dev chip).icw3 = next chip
  right : ∀ i < 16, (b.at' = true → i < 8 → s.pic2.icw3.toNat ≠ i ∧ (next .pic2).toNat ≠ i) → Right b s i → Right b s' i

theorem Frame.written {s s' : Pics} (h : Frame b s s') {next : Chip → Byte} (hicw3 : ∀ chip, next chip = (s.dev chip).icw3) :
    Written b s s' next where
  lines := h.lines
  icw3 chip := by rw [h.icw3, hicw3]
  right _ _ hcascade := h.right fun hat hi => (hcascade hat hi).1

theorem written_put {s s' : Pics} {chip : Chip} {d : Dev} (hlines : d.lines = (s.dev chip).lines)
    (hright : ∀ n < 8, picLevelTriggered b d n = true →
      (picLevelTriggered b (s.dev chip) n = true → ((s.dev chip).irr.getLsbD n = true ↔ (s.dev chip).lines n ≠ 0)) →
      (d.irr.getLsbD n = true ↔ d.lines n ≠ 0))
    (hframe : Frame b (s.put chip d) s') {next : Chip → Byte} (hicw3 : ∀ c, next c = ((s.put chip d).dev c).icw3) :
    Written b s s' next := by
  constructor
  case lines =>
    intro c
    rw [hframe.lines]
    by_cases hc : c = chip
    · rw [hc, dev_put, hlines]
    · rw [put_dev_of_ne hc]
  case icw3 => exact fun c => by rw [hframe.icw3, hicw3]
  case right =>
    intro i hi hcascade hs
    apply hframe.right
    · intro hat hi8
      have hown := (hcascade hat hi8).2
      rwa [hicw3 .pic2] at hown
    · unfold Right isLevel irrOf lineOf at hs ⊢
      by_cases hc : chipOf i = chip
      · rw [hc, dev_put]
        rw [hc] at hs
        exact fun hlevel => hright _ (Nat.mod_lt i (by decide)) hlevel hs
      · rw [put_dev_of_ne hc]
        exact hs

theorem written_icw1 (s : Pics) (chip : Chip) (d : Dev) (hlines : d.lines = (s.dev chip).lines) (val : Byte)
    {next : Chip → Byte} (hicw3 : ∀ c, next c = if c = chip then 0 else (s.dev c).icw3) :
    Written b s (updatePending b (s.put chip (icw1Dev d val))) next := by
  refine written_put (d := icw1Dev d val) hlines ?_ (frame_updatePending _) ?_
  · intro n hn _ _
    exact heldIrr_getLsbD d.lines hn
  · intro c
    rw [hicw3]
    by_cases hc : c = chip
    · rw [if_pos hc, hc, dev_put]
      rfl
    · rw [if_neg hc, put_dev_of_ne hc]

theorem written_icw3 (s : Pics) (chip : Chip) {d : Dev} (hlines : d.lines = (s.dev chip).lines)
    (hirr : d.irr = (s.dev chip).irr) (hicw1 : d.icw1 = (s.dev chip).icw1) (helcr : d.elcr = (s.dev chip).elcr)
    {next : Chip → Byte} (hicw3 : ∀ c, next c = if c = chip then d.icw3 else (s.dev c).icw3) :
    Written b s (s.put chip d) next := by
  refine written_put hlines ?_ (Frame.refl _) ?_
  · intro n _ hlevel hs
    rw [levelTriggered_congr hicw1 helcr] at hlevel
    rw [hirr, hlines]
    exact hs hlevel
  · intro c
    rw [hicw3]
    by_cases hc : c = chip
    · rw [if_pos hc, hc, dev_put]
    · rw [if_neg hc, put_dev_of_ne hc]

theorem write_written {D : Type} (s : Pics) (chip : Chip) (odd : Bool) (val : Byte) :
    Written b s (picWrite b s chip odd val) fun c => nextIcw3 b s c (Step.write chip odd val : Step D) := by
  have hnext (x : Byte) (hown : nextIcw3 b s chip (Step.write chip odd val : Step D) = x) (c : Chip) :
      nextIcw3 b s c (Step.write chip odd val : Step D) = if c = chip then x else (s.dev c).icw3 := by
    by_cases hc : c = chip
    · rw [if_pos hc, hc, hown]
    · rw [if_neg hc]
      exact if_neg (Ne.symm hc)
  have hkept (hown : nextIcw3 b s chip (Step.write chip odd val : Step D) = (s.dev chip).icw3) {s' : Pics}
      (h : Frame b s s') : Written b s s' fun c => nextIcw3 b s c (Step.write chip odd val : Step D) := by
    apply h.written
    intro c
    rw [hnext _ hown]
    split
    case isTrue hc => rw [hc]
    case isFalse => rfl
  unfold picWrite
  dsimp only
  split
  case isTrue hodd =>
    unfold icwWrite
    dsimp only
    split
    case h_1 hstate =>
      apply hkept
      · simp [nextIcw3, hodd, hstate]
      · exact frame_still rfl rfl rfl rfl rfl
    case h_2 hstate =>
      refine written_icw3 s chip ?_ ?_ ?_ ?_ ?_
      case refine_5 => exact hnext val (by simp [nextIcw3, hodd, hstate])
      all_goals rfl
    case h_3 hstate =>
      apply hkept
      · simp [nextIcw3, hodd, hstate]
      · exact frame_still rfl rfl rfl rfl rfl
    case h_4 hstate =>
      apply hkept
      · simp [nextIcw3, hodd, hstate]
      · have himr : Frame b s (s.put chip { s.dev chip with dataBus := val, imr := val }) := frame_still rfl rfl rfl rfl rfl
        split
        · exact himr.trans (frame_updatePending _)
        · exact himr
  case isFalse hodd =>
    split
    case isTrue hicw1 =>
      split
      case isTrue hpci =>
        apply hkept
        · exact (if_pos rfl).trans ((if_neg hodd).trans (if_neg fun h => h.2 hpci))
        · exact frame_still rfl rfl rfl rfl rfl
      case isFalse hpci =>
        apply written_icw1 s chip { s.dev chip with dataBus := val } rfl val
        exact hnext 0 ((if_pos rfl).trans ((if_neg hodd).trans (if_pos ⟨hicw1, hpci⟩)))
    case isFalse hicw1 =>
      apply hkept
      · exact (if_pos rfl).trans ((if_neg hodd).trans (if_neg fun h => hicw1 h.1))
      · split
        · apply frame_still <;> (unfold ocw3Dev; dsimp only; split <;> split <;> rfl)
        · exact frame_command rfl rfl rfl rfl rfl

section
variable {D : Type} [DecidableEq D] {c : Setup D}

/-- Every step of the run is taken where `P` holds. -/
def Always (c : Setup D) (P : State D → Step D → Prop) : List (Step D) → State D → Prop
  | [], _ => True
  | a :: steps, s => P s a ∧ ∀ s', apply c s a = some s' → Always c P steps s'

theorem quiet_step {s s' : State D} {a : Step D} (h : apply c s a = some s') :
    (∃ d set, a = .level d set) ∨ s'.irqState = s.irqState ∧
      (∀ i < 16, lineOf s'.pics i = lineOf s.pics i) ∧
      (∀ chip, (s'.pics.dev chip).icw3 = nextIcw3 c.board s.pics chip a) ∧
      ∀ i < 16, Alone c s a i → Right c.board s.pics i → Right c.board s'.pics i := by
  have hframe {a : Step D} {u : Pics} (hnext : ∀ chip, nextIcw3 c.board s.pics chip a = (s.pics.dev chip).icw3)
      (h : Frame c.board s.pics u) :
      (∀ i < 16, lineOf u i = lineOf s.pics i) ∧ (∀ chip, (u.dev chip).icw3 = nextIcw3 c.board s.pics chip a) ∧
        ∀ i < 16, Alone c s a i → Right c.board s.pics i → Right c.board u i :=
    ⟨fun i _ => h.lineOf i, fun chip => by rw [h.icw3, hnext],
      fun _ _ halone => h.right fun hat hi => (halone.1 hat hi).1⟩
  cases a with
  | level d set => exact .inl ⟨d, set, rfl⟩
  | edge d set =>
    obtain rfl := Option.some.inj h
    obtain ⟨u, hkept, hother, hu⟩ := edge_requested (b := c.board) s.pics (c.mask d) set false
    refine .inr ⟨rfl, ?_, ?_, ?_⟩
    · intro i _
      rw [hu.lineOf]
      unfold lineOf
      rw [hkept]
    · intro chip
      rw [hu.icw3, hkept]
      rfl
    · intro i hi halone hright
      apply hu.right
      · intro hat hi8
        have hicw3 : (u.dev .pic2).icw3 = (s.pics.dev .pic2).icw3 := by rw [hkept]
        change (u.dev .pic2).icw3.toNat ≠ i
        rw [hicw3]
        exact (halone.1 hat hi8).1
      · have hisLevel : isLevel c.board u i = isLevel c.board s.pics i := by
          unfold isLevel
          rw [hkept]
          rfl
        intro hlevel
        rw [hisLevel] at hlevel
        have hline : lineOf u i = lineOf s.pics i := by
          unfold lineOf
          rw [hkept]
        rw [hother i hi (halone.2 hlevel), hline]
        exact hright hlevel
  | write chip odd val =>
    obtain rfl := Option.some.inj h
    have hwritten := @write_written c.board D s.pics chip odd val
    refine .inr ⟨rfl, ?_, hwritten.icw3, ?_⟩
    · intro i _
      unfold lineOf
      rw [hwritten.lines]
    · exact fun i hi halone => hwritten.right i hi halone.1
  | read chip odd =>
    obtain rfl := Option.some.inj h
    exact .inr ⟨rfl, hframe (fun _ => rfl) (frame_read s.pics chip odd)⟩
  | elcr chip val =>
    obtain rfl := Option.some.inj h
    have hkept (c' : Chip) : (picElcrWrite s.pics chip val).dev c' =
        { s.pics.dev c' with elcr := ((picElcrWrite s.pics chip val).dev c').elcr } := by
      cases chip <;> cases c' <;> rfl
    have hline (i : ℕ) : lineOf (picElcrWrite s.pics chip val) i = lineOf s.pics i := by
      unfold lineOf
      rw [hkept]
    refine .inr ⟨rfl, fun i _ => hline i, ?_, ?_⟩
    · intro c'
      rw [hkept]
      rfl
    · intro i _ halone hright hlevel
      have hirr : irrOf (picElcrWrite s.pics chip val) i = irrOf s.pics i := by
        unfold irrOf
        rw [hkept]
      rw [hirr, hline]
      cases hbefore : isLevel c.board s.pics i with
      | true => exact hright hbefore
      | false => exact halone.2 hlevel hbefore
  | tick =>
    obtain rfl := Option.some.inj h
    exact .inr ⟨rfl, hframe (fun _ => rfl) (frame_updatePending s.pics)⟩
  | acknowledge =>
    obtain ⟨r, hr, rfl⟩ := Option.map_eq_some_iff.mp h
    exact .inr ⟨rfl, hframe (fun _ => rfl) (frame_picinterrupt hr)⟩

theorem level_asserts (s : State D) (d : D) (set : Bool) {s' : State D} (h : apply c s (.level d set) = some s') (e : D) (i : ℕ) :
    asserts c s' e i = if e = d then set && (routed c.board s.pics.pic.icw3 (c.mask d)).getLsbD i else asserts c s e i := by
  obtain rfl := Option.some.inj h
  obtain ⟨u, hu, hframe⟩ := level_requested (b := c.board) s.pics (c.mask d) set (s.irqState d)
  have hicw3 : (picintCommon c.board s.pics (c.mask d) true set (s.irqState d)).1.pic.icw3 = s.pics.pic.icw3 :=
    (hframe.icw3 .pic).trans (hu.icw3 .pic)
  unfold asserts
  dsimp only
  rw [hicw3]
  split
  case isTrue he =>
    subst he
    rw [Function.update_self]
    unfold picintCommon
    dsimp only
    split
    case isTrue hzero => simp [routed, hzero]
    case isFalse =>
      rw [if_pos rfl, apply_ite Prod.snd]
      dsimp only
      rw [ite_self, if_pos rfl]
  case isFalse he => rw [Function.update_of_ne he]

variable [Fintype D]

omit [DecidableEq D] in
theorem count_congr {s s' : State D} {i : ℕ} (h : ∀ d, asserts c s' d i = asserts c s d i) : count c s' i = count c s i := by
  unfold count
  simp only [h]

theorem count_level {s s' : State D} {d : D} {set : Bool} (h : apply c s (.level d set) = some s') (i : ℕ) :
    if (routed c.board s.pics.pic.icw3 (c.mask d)).getLsbD i = true ∧ s.irqState d ≠ set then
      if set then count c s' i = count c s i + 1 else count c s i = count c s' i + 1
    else count c s' i = count c s i := by
  have hafter := level_asserts s d set h
  split
  case isTrue hchange =>
    obtain ⟨hrouted, hstate⟩ := hchange
    cases set with
    | true =>
      have hnot : asserts c s d i = false := by simp [asserts, Bool.eq_false_iff.mpr hstate]
      have hinsert : (Finset.univ.filter fun e => asserts c s' e i = true) =
          insert d (Finset.univ.filter fun e => asserts c s e i = true) := by
        ext e
        by_cases he : e = d
        · simp [hafter, he, hrouted]
        · simp [hafter, he]
      rw [if_pos rfl]
      unfold count
      rw [hinsert, Finset.card_insert_of_notMem (by simp [hnot])]
    | false =>
      have hdoes : asserts c s d i = true := by
        have hone : s.irqState d = true := by simpa using hstate
        simp [asserts, hone, hrouted]
      have hinsert : (Finset.univ.filter fun e => asserts c s e i = true) =
          insert d (Finset.univ.filter fun e => asserts c s' e i = true) := by
        ext e
        by_cases he : e = d
        · simp [he, hdoes]
        · simp [hafter, he]
      rw [if_neg Bool.false_ne_true]
      unfold count
      rw [hinsert, Finset.card_insert_of_notMem (by simp [hafter])]
  case isFalse hsame =>
    apply count_congr
    intro e
    rw [hafter]
    split
    case isTrue he =>
      subst he
      unfold asserts
      cases hrouted : (routed c.board s.pics.pic.icw3 (c.mask e)).getLsbD i with
      | false => simp
      | true =>
        have hstate : s.irqState e = set := by
          by_contra hne
          exact hsame ⟨hrouted, hne⟩
        rw [hstate]
    case isFalse => rfl

omit [DecidableEq D] in
theorem count_le_card (s : State D) (i : ℕ) : count c s i ≤ Fintype.card D := Finset.card_le_univ _

def Counts (c : Setup D) (s : State D) : Prop := ∀ i < 16, (lineOf s.pics i).toNat = count c s i

theorem counts_step (hcard : Fintype.card D < 2 ^ 32) {s s' : State D} {a : Step D} (h : apply c s a = some s')
    (hsteady : Steady c s a) (hs : Counts c s) : Counts c s' := by
  intro i hi
  rcases quiet_step h with ⟨d, set, rfl⟩ | ⟨hstate, hline, hicw3, -⟩
  · have hcount := count_level h i
    have hbefore := hs i hi
    have hmax : count c s' i < 2 ^ 32 := (count_le_card s' i).trans_lt hcard
    have hmax' : count c s i < 2 ^ 32 := (count_le_card s i).trans_lt hcard
    obtain rfl := Option.some.inj h
    obtain ⟨u, hu, hframe⟩ := level_requested (b := c.board) s.pics (c.mask d) set (s.irqState d)
    have hlineOf := (hframe.lineOf i).trans (hu.line i hi)
    dsimp only
    rw [hlineOf]
    split at hcount
    case isTrue hchange =>
      rw [if_pos hchange]
      cases set with
      | true =>
        rw [if_pos rfl] at hcount
        rw [bump_true_toNat (by omega)]
        omega
      | false =>
        rw [if_neg Bool.false_ne_true] at hcount
        rw [bump_false_toNat (by omega)]
        omega
    case isFalse hsame =>
      rw [if_neg hsame, hcount]
      exact hbefore
  · rw [hline i hi, hs i hi]
    apply Eq.symm
    apply count_congr
    intro d
    unfold asserts
    rw [hstate]
    cases hd : s.irqState d with
    | false => rfl
    | true =>
      have hrouted := hsteady d hd
      have hpic : s'.pics.pic.icw3 = nextIcw3 c.board s.pics .pic a := hicw3 .pic
      rw [hpic, hrouted]

theorem right_step (hcard : Fintype.card D < 2 ^ 32) {s s' : State D} {a : Step D} (h : apply c s a = some s')
    (hcounts : Counts c s) {i : ℕ} (hi : i < 16) (halone : Alone c s a i) (hright : Right c.board s.pics i) :
    Right c.board s'.pics i := by
  rcases quiet_step h with ⟨d, set, rfl⟩ | ⟨-, -, -, hkeep⟩
  · have hcount := count_level h i
    have hbefore := hcounts i hi
    have hmax : count c s' i < 2 ^ 32 := (count_le_card s' i).trans_lt hcard
    obtain rfl := Option.some.inj h
    obtain ⟨u, hu, hframe⟩ := level_requested (b := c.board) s.pics (c.mask d) set (s.irqState d)
    apply hframe.right
    · intro hat hi8
      have hicw3 : u.pic2.icw3 = s.pics.pic2.icw3 := hu.icw3 .pic2
      rw [hicw3]
      exact (halone.1 hat hi8).1
    · intro hlevel
      have hsame : isLevel c.board u i = isLevel c.board s.pics i := levelTriggered_congr (hu.icw1 _) (hu.elcr _) _
      rw [hsame] at hlevel
      have hiff := hright hlevel
      rw [hu.irr i hi hlevel, hu.line i hi]
      split at hcount
      case isTrue hchange =>
        rw [if_pos hchange]
        cases set with
        | true =>
          rw [if_pos rfl] at hcount
          have hne : bump true (lineOf s.pics i) ≠ 0 := by
            intro hzero
            have hnat := congrArg BitVec.toNat hzero
            rw [bump_true_toNat (by omega)] at hnat
            exact absurd hnat (Nat.succ_ne_zero _)
          apply iff_of_true _ hne
          rw [if_pos (rfl : true = true)]
          split
          case isTrue => rfl
          case isFalse hmore =>
            apply hiff.mpr
            intro hzero
            rw [hzero] at hmore
            exact hmore ⟨hchange.1, hchange.2, rfl⟩
        | false =>
          rw [if_neg Bool.false_ne_true] at hcount
          have hne : lineOf s.pics i ≠ 0 := by
            intro hzero
            rw [hzero, hcount] at hbefore
            exact absurd hbefore (Nat.succ_ne_zero _).symm
          rw [if_neg Bool.false_ne_true]
          split
          case isTrue hlast => exact iff_of_false Bool.false_ne_true fun h => h hlast.2.2
          case isFalse hmore =>
            rw [hiff.mpr hne]
            exact iff_of_true rfl fun hzero => hmore ⟨hchange.1, hchange.2, hzero⟩
      case isFalse hkept =>
        rw [if_neg hkept, if_neg fun h => hkept ⟨h.1, h.2.1⟩]
        exact hiff
  · exact hkeep i hi halone hright

omit [DecidableEq D] in
theorem counts_start (c : Setup D) : Counts c (start : State D) := by
  intro i _
  have hnone : (Finset.univ.filter fun d => asserts c (start : State D) d i = true) = ∅ := by
    ext d
    simp [asserts, start]
  unfold count
  rw [hnone]
  unfold lineOf chipOf
  split <;> rfl

theorem right_start (b : Board) (i : ℕ) : Right b picReset i := by
  intro _
  unfold irrOf lineOf chipOf
  split <;> simp [picReset, resetDev, Pics.dev]

theorem run_counts (hcard : Fintype.card D < 2 ^ 32) {steps : List (Step D)} {s t : State D} (hrun : run c steps s = some t)
    (hsteady : Always c (Steady c) steps s) (hs : Counts c s) : Counts c t := by
  induction steps generalizing s with
  | nil =>
    obtain rfl := Option.some.inj hrun
    exact hs
  | cons a steps ih =>
    obtain ⟨u, hu, hrest⟩ := Option.bind_eq_some_iff.mp hrun
    exact ih hrest (hsteady.2 u hu) (counts_step hcard hu hsteady.1 hs)

theorem run_right (hcard : Fintype.card D < 2 ^ 32) {steps : List (Step D)} {s t : State D} (hrun : run c steps s = some t)
    (hsteady : Always c (Steady c) steps s) (hs : Counts c s) {i : ℕ} (hi : i < 16)
    (halone : Always c (fun s a => Alone c s a i) steps s) (hright : Right c.board s.pics i) : Right c.board t.pics i := by
  induction steps generalizing s with
  | nil =>
    obtain rfl := Option.some.inj hrun
    exact hright
  | cons a steps ih =>
    obtain ⟨u, hu, hrest⟩ := Option.bind_eq_some_iff.mp hrun
    exact ih hrest (hsteady.2 u hu) (counts_step hcard hu hsteady.1 hs) (halone.2 u hu)
      (right_step hcard hu hs hi halone.1 hright)

/-- While no call or write moves an asserting device to another line, every counter is the number of devices that assert
    its line, and the request of a level-triggered line that is left to them stands while there are any. -/
theorem shared_lines_exact (hcard : Fintype.card D < 2 ^ 32) {steps : List (Step D)} {s : State D}
    (hrun : run c steps start = some s) (hsteady : Always c (Steady c) steps start) {i : ℕ} (hi : i < 16) :
    (lineOf s.pics i).toNat = count c s i ∧
      (Always c (fun s a => Alone c s a i) steps start → isLevel c.board s.pics i = true →
        (irrOf s.pics i = true ↔ 0 < count c s i)) := by
  have hcounts := run_counts hcard hrun hsteady (counts_start c)
  refine ⟨hcounts i hi, ?_⟩
  intro halone hlevel
  have hright := run_right hcard hrun hsteady (counts_start c) hi halone (right_start c.board i)
  rw [hright hlevel, ← hcounts i hi]
  simp [Nat.pos_iff_ne_zero, BitVec.toNat_eq]

end

def atBoard : Board where
  at' := true
  imrAtOnce := true
  elcrEnabled := true
  pci := false
  shadow := false
  kbdLatch := false
  mouseLatch := false
  smiIrqMask := 0
  vectorOverride := fun _ => none

/-- The BIOS's initialisation of both chips. -/
def initPics {D : Type} : List (Step D) :=
  [.write .pic false 0x11, .write .pic true 0x08, .write .pic true 0x04, .write .pic true 0x01,
    .write .pic2 false 0x11, .write .pic2 true 0x70, .write .pic2 true 0x02, .write .pic2 true 0x01]

instance decidableAlways {D : Type} [DecidableEq D] (c : Setup D) (P : State D → Step D → Prop) [∀ s a, Decidable (P s a)] :
    ∀ steps s, Decidable (Always c P steps s)
  | [], _ => isTrue trivial
  | a :: steps, s =>
    have hrest : Decidable (∀ s', apply c s a = some s' → Always c P steps s') :=
      match h : apply c s a with
      | none => isTrue fun _ hnone => by cases hnone
      | some s' =>
        match decidableAlways c P steps s' with
        | isTrue hall => isTrue fun t ht => Option.some.inj ht ▸ hall
        | isFalse hnot => isFalse fun hall => hnot (hall s' rfl)
    inferInstanceAs (Decidable (P s a ∧ ∀ s', apply c s a = some s' → Always c P steps s'))

instance {D : Type} [Fintype D] (c : Setup D) (s : State D) (a : Step D) : Decidable (Steady c s a) :=
  inferInstanceAs (Decidable (∀ d, s.irqState d = true →
    routed c.board (nextIcw3 c.board s.pics .pic a) (c.mask d) = routed c.board s.pics.pic.icw3 (c.mask d)))

instance {D : Type} (c : Setup D) (s : State D) (a : Step D) (i : ℕ) : Decidable (Alone c s a i) := by
  cases a <;> unfold Alone <;> infer_instance

/-- Two devices on IRQ 5, one of them done. -/
def twoDevices : Setup Bool := { board := atBoard, mask := fun _ => 0x0020 }

def twoRaised : List (Step Bool) :=
  initPics ++ [.elcr .pic 0x20, .level false true, .level true true, .acknowledge, .level false false]

theorem twoRaised_exact : ∃ s, run twoDevices twoRaised start = some s ∧ (lineOf s.pics 5).toNat = count twoDevices s 5 ∧
    (isLevel atBoard s.pics 5 = true → (irrOf s.pics 5 = true ↔ 0 < count twoDevices s 5)) := by
  have hsome : (run twoDevices twoRaised start).isSome = true := by decide +kernel
  obtain ⟨s, hrun⟩ := Option.isSome_iff_exists.mp hsome
  have hsteady : Always twoDevices (Steady twoDevices) twoRaised start := by decide +kernel
  have halone : Always twoDevices (fun s a => Alone twoDevices s a 5) twoRaised start := by decide +kernel
  have hexact := shared_lines_exact (by decide) hrun hsteady (by decide : 5 < 16)
  exact ⟨s, hrun, hexact.1, hexact.2 halone⟩

def oneDevice (mask : BitVec 16) : Setup Unit := { board := atBoard, mask := fun _ => mask }

/-- IRQ 2 raised before the slave is told of and lowered after, when it is IRQ 9; and an edge on a level-triggered line
    that is held. -/
theorem moved_line :
    (run (oneDevice 0x0004) (.level () true :: initPics ++ [.level () false]) start).map
        (fun s => (lineOf s.pics 2, lineOf s.pics 9, count (oneDevice 0x0004) s 2, count (oneDevice 0x0004) s 9)) =
      some (1, 0xFFFFFFFF, 0, 0) ∧
    (run (oneDevice 0x0020) (initPics ++ [.elcr .pic 0x20, .level () true, .edge () false]) start).map
        (fun s => (isLevel atBoard s.pics 5, irrOf s.pics 5, lineOf s.pics 5, count (oneDevice 0x0020) s 5)) =
      some (true, false, 1, 1) := by
  decide +kernel

end PeepeeBox.PicLines
