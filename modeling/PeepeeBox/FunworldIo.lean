import Mathlib.Data.Fin.VecNotation
import Mathlib.Data.Fintype.Basic
import Mathlib.Data.Int.Notation
import Mathlib.Logic.Function.Basic
import PeepeeBox.Bytes
import PeepeeBox.TraceMachine

set_option autoImplicit false

/-!
# The funworld I/O card

`funworld_io.c` with the walk off: an 8255 whose inputs are the coin, note and button lines, each held for a while by
a timer of its own.
-/
namespace PeepeeBox.FunworldIo
open TraceMachine

inductive Port where
  | a
  | b
  | c
  deriving DecidableEq

instance : Fintype Port := ⟨{.a, .b, .c}, fun port => by cases port <;> decide⟩

/-- What the environment and the configuration fix. -/
structure Setup where
  base : BitVec 16
  /-- `fwio_idle` -/
  idle : Port → Byte
  /-- `fwio_hold_mask`, the pinned lines. -/
  holdMask : Port → Byte
  /-- `FWIO_COIN_MS`, in the ticks of the timers. -/
  hold : ℕ
  /-- `MAX_USEC`, in the same. -/
  second : ℕ
  hold_pos : 0 < hold

/-- What `timer_on_auto` and `timer_process` know of one timer. -/
structure Release where
  enabled : Bool
  ts : ℕ
  period : ℕ
  split : Bool
  deriving DecidableEq

structure Fwio where
  ctrl : Byte
  out : Port → Byte
  input : Port → Byte
  release : Fin 12 → Release
  held : BitVec 16
  tsc : ℕ

variable (c : Setup)

def fwioIdleAll (dev : Fwio) : Fwio :=
  { dev with input := fun port => c.idle port ^^^ c.holdMask port }

def fwioReset (dev : Fwio) : Fwio :=
  { fwioIdleAll c { dev with ctrl := 0x9b, out := fun _ => 0 } with held := 0 }

def register (port : BitVec 16) : Byte := (port - c.base).setWidth 8

def fwioRead (dev : Fwio) (port : BitVec 16) : Byte :=
  match register c port with
  | 0 => dev.input .a
  | 1 => dev.input .b
  | 2 => dev.input .c
  | _ => 0xff

def fwioWrite (dev : Fwio) (port : BitVec 16) (val : Byte) : Fwio :=
  match register c port with
  | 0 => { dev with out := Function.update dev.out .a val }
  | 1 => { dev with out := Function.update dev.out .b val }
  | 2 => { dev with out := Function.update dev.out .c val }
  | 3 =>
    if val &&& 0x80 ≠ 0 then { dev with ctrl := val, out := fun _ => 0 }
    else
      let mask : Byte := 1 <<< ((val >>> 1) &&& 7).toNat
      { dev with
        out := Function.update dev.out .c (if val &&& 1 ≠ 0 then dev.out .c ||| mask else dev.out .c &&& ~~~mask) }
  | _ => dev

def lineMap : Fin 12 → Port × Fin 8 :=
  ![(.c, 4), (.c, 5), (.c, 6), (.c, 7), (.a, 6), (.a, 7), (.a, 0), (.a, 1), (.c, 0), (.c, 1), (.c, 2), (.c, 3)]

def fwioSetBit (dev : Fwio) (port : Port) (bit : Fin 8) (asserted : Bool) : Fwio :=
  let mask : Byte := 1 <<< bit.val
  let high : Bool := c.idle port &&& mask = 0
  { dev with
    input := Function.update dev.input port
      (if asserted = high then dev.input port ||| mask else dev.input port &&& ~~~mask) }

def fwioSetLine (dev : Fwio) (line : Fin 12) (asserted : Bool) : Fwio :=
  fwioSetBit c dev (lineMap line).1 (lineMap line).2 asserted

def advanceEx (tsc : ℕ) (timer : Release) (start : Bool) : Release :=
  let ts := if start then tsc else timer.ts
  if c.second < timer.period then
    { enabled := true, ts := ts + c.second, period := timer.period - c.second, split := true }
  else if 0 < timer.period then { enabled := true, ts := ts + timer.period, period := 0, split := false }
  else { timer with enabled := false, period := 0, split := false }

/-- `timer_on_auto`, which no callback calls. -/
def timerOnAuto (tsc : ℕ) (timer : Release) (period : ℕ) : Release :=
  if 0 < period then advanceEx c tsc { timer with period } (timer.period = 0)
  else { timer with enabled := false, period := 0, split := false }

def funworldIoPulse (dev : Fwio) (line : ℤ) : Fwio :=
  if h : 0 ≤ line ∧ line < 12 then
    let line : Fin 12 := ⟨line.toNat, by omega⟩
    let dev := fwioSetLine c dev line true
    { dev with
      held := dev.held ||| 1 <<< line.val
      release := Function.update dev.release line (timerOnAuto c dev.tsc (dev.release line) c.hold) }
  else dev

def fwioRelease (dev : Fwio) (line : Fin 12) : Fwio :=
  { fwioSetLine c dev line false with held := dev.held &&& ~~~(1 <<< line.val : BitVec 16) }

/-- `timer_process` comes to the timer of a line. -/
def timerProcess (dev : Fwio) (line : Fin 12) : Fwio :=
  let timer := dev.release line
  if timer.enabled && timer.ts ≤ dev.tsc then
    if timer.split then
      { dev with release := Function.update dev.release line (advanceEx c dev.tsc timer false) }
    else
      fwioRelease c { dev with release := Function.update dev.release line { timer with enabled := false } } line
  else dev

def fwioInit : Fwio :=
  fwioReset c
    { ctrl := 0
      out := fun _ => 0
      input := fun _ => 0
      release := fun _ => { enabled := false, ts := 0, period := 0, split := false }
      held := 0
      tsc := 0 }

inductive Event where
  | pulse (line : ℤ)
  | expire (line : Fin 12)
  | pass (ticks : ℕ)
  | write (port : BitVec 16) (val : Byte)

/-- The card, and when each line was last pulsed. -/
structure Watched where
  dev : Fwio
  pulsed : Fin 12 → Option ℕ

def card : Machine Watched Event Unit where
  step w e :=
    match e with
    | .pulse line =>
      ({ dev := funworldIoPulse c w.dev line
         pulsed := fun l => if (l : ℤ) = line then some w.dev.tsc else w.pulsed l }, none)
    | .expire line => ({ w with dev := timerProcess c w.dev line }, none)
    | .pass ticks => ({ w with dev := { w.dev with tsc := w.dev.tsc + ticks } }, none)
    | .write port val => ({ w with dev := fwioWrite c w.dev port val }, none)

def switchedOn : Watched where
  dev := fwioInit c
  pulsed := fun _ => none

def pressed (w : Watched) (line : Fin 12) : Bool :=
  match w.pulsed line with
  | none => false
  | some since => w.dev.tsc < since + c.hold

/-- `timer_process` has nothing left to do. -/
def Settled (w : Watched) : Prop :=
  ∀ line, (w.dev.release line).enabled = true → w.dev.tsc < (w.dev.release line).ts

instance (w : Watched) : Decidable (Settled w) :=
  inferInstanceAs (Decidable (∀ line, (w.dev.release line).enabled = true → w.dev.tsc < (w.dev.release line).ts))

def offset : Port → BitVec 16
  | .a => 0
  | .b => 1
  | .c => 2

def pinned (port : Port) (bit : Fin 8) : Bool := (c.holdMask port).getLsbD bit

/-- Every input is away from its idle level when it is pinned or its line is pressed, and only then. -/
def Shows (w : Watched) : Prop :=
  ∀ port (bit : Fin 8), (fwioRead c w.dev (c.base + offset port)).getLsbD bit =
    ((c.idle port).getLsbD bit ^^
      (pinned c port bit || decide (∃ line, lineMap line = (port, bit) ∧ pressed c w line = true)))

instance (w : Watched) : Decidable (Shows c w) :=
  inferInstanceAs (Decidable (∀ port, ∀ bit : Fin 8, (fwioRead c w.dev (c.base + offset port)).getLsbD bit =
    ((c.idle port).getLsbD bit ^^
      (pinned c port bit || decide (∃ line, lineMap line = (port, bit) ∧ pressed c w line = true)))))

variable {c}

theorem read_port (dev : Fwio) (port : Port) : fwioRead c dev (c.base + offset port) = dev.input port := by
  have hreg : register c (c.base + offset port) = (offset port).setWidth 8 := by
    rw [register, BitVec.add_comm, BitVec.add_sub_cancel]
  rw [fwioRead, hreg]
  cases port <;> rfl

theorem line_alone {line other : Fin 12} (h : lineMap line = lineMap other) : line = other := by
  revert line other
  decide

theorem mask_bit (bit i : Fin 8) : (1 <<< bit.val : Byte).getLsbD i = decide (i = bit) := by
  revert bit i
  decide

theorem mask_and_eq_zero (x : Byte) (bit : Fin 8) :
    x &&& (1 <<< bit.val : Byte) = 0 ↔ x.getLsbD bit = false := by
  constructor
  · intro h
    have hbit := congrArg (BitVec.getLsbD · bit) h
    simp only [BitVec.getLsbD_and, mask_bit, decide_true, Bool.and_true] at hbit
    rw [hbit]
    exact BitVec.getLsbD_zero
  · intro h
    apply BitVec.eq_of_getLsbD_eq
    intro i hi
    rw [BitVec.getLsbD_and, mask_bit bit ⟨i, hi⟩]
    by_cases hib : (⟨i, hi⟩ : Fin 8) = bit
    · subst hib
      simpa using h
    · simp [hib]

theorem setBit_input (dev : Fwio) (port q : Port) (bit i : Fin 8) (asserted : Bool) :
    ((fwioSetBit c dev port bit asserted).input q).getLsbD i =
      if q = port ∧ i = bit then (c.idle port).getLsbD bit ^^ asserted else (dev.input q).getLsbD i := by
  by_cases hq : q = port
  · subst hq
    simp only [fwioSetBit, Function.update_self, mask_and_eq_zero, true_and]
    by_cases hi : i = bit
    · subst hi
      cases (c.idle q).getLsbD i <;> cases asserted <;>
        simp only [BitVec.getLsbD_and, BitVec.getLsbD_or, BitVec.getLsbD_not, mask_bit, decide_true, decide_false,
          Bool.or_true, Bool.not_true, Bool.and_false, if_true, if_false, reduceCtorEq, Bool.xor_false, Bool.xor_true,
          Bool.not_false]
    · split <;> simp only [BitVec.getLsbD_and, BitVec.getLsbD_or, BitVec.getLsbD_not, mask_bit, hi, decide_false,
        Bool.or_false, Bool.not_false, Bool.and_true, i.isLt, decide_true]
  · simp [fwioSetBit, hq]

theorem write_input (dev : Fwio) (port : BitVec 16) (val : Byte) : (fwioWrite c dev port val).input = dev.input := by
  rw [fwioWrite]
  split <;> try rfl
  split <;> rfl

theorem write_release (dev : Fwio) (port : BitVec 16) (val : Byte) :
    (fwioWrite c dev port val).release = dev.release ∧ (fwioWrite c dev port val).tsc = dev.tsc := by
  rw [fwioWrite]
  split <;> try exact ⟨rfl, rfl⟩
  split <;> exact ⟨rfl, rfl⟩

/-- The timer is set for `ends`, in one leg or in several. -/
structure Runs (timer : Release) (ends : ℕ) : Prop where
  enabled : timer.enabled = true
  ends : timer.ts + timer.period = ends
  split : timer.split = true ↔ 0 < timer.period

theorem advanceEx_runs (tsc : ℕ) {timer : Release} (h : 0 < timer.period) (start : Bool) :
    Runs (advanceEx c tsc timer start) ((if start then tsc else timer.ts) + timer.period) := by
  rw [advanceEx]
  split
  · rename_i hlong
    refine ⟨rfl, ?_, by simpa using Nat.sub_pos_of_lt hlong⟩
    dsimp only
    omega
  · exact ⟨rfl, rfl, by simp⟩

theorem timerOnAuto_runs (tsc : ℕ) {timer : Release} (h : timer.period = 0) :
    Runs (timerOnAuto c tsc timer c.hold) (tsc + c.hold) := by
  let fresh : Release := { timer with period := c.hold }
  have hruns := advanceEx_runs (c := c) tsc (show 0 < fresh.period from c.hold_pos) true
  simp only [timerOnAuto, c.hold_pos, if_true, h, decide_true]
  exact hruns

/-- The timer of each line runs from its last pulse to the end of the hold, and the inputs show the lines whose
timers run. -/
structure Sound (c : Setup) (w : Watched) : Prop where
  running : ∀ line, (w.dev.release line).enabled = true →
    ∃ since, w.pulsed line = some since ∧ Runs (w.dev.release line) (since + c.hold)
  stopped : ∀ line, (w.dev.release line).enabled = false → (w.dev.release line).period = 0 ∧
    ∀ since, w.pulsed line = some since → since + c.hold ≤ w.dev.tsc
  inputs : ∀ port (bit : Fin 8), (w.dev.input port).getLsbD bit =
    ((c.idle port).getLsbD bit ^^
      (pinned c port bit || decide (∃ line, lineMap line = (port, bit) ∧ (w.dev.release line).enabled = true)))

theorem switchedOn_sound (c : Setup) : Sound c (switchedOn c) where
  running _ h := by cases h
  stopped _ _ := ⟨rfl, fun _ h => by cases h⟩
  inputs port bit := by
    simp [switchedOn, fwioInit, fwioReset, fwioIdleAll, pinned]

theorem inputs_of_line {dev dev' : Fwio} {line : Fin 12} {on : Bool}
    (h : ∀ port (bit : Fin 8), (dev.input port).getLsbD bit = ((c.idle port).getLsbD bit ^^
      (pinned c port bit || decide (∃ l, lineMap l = (port, bit) ∧ (dev.release l).enabled = true))))
    (hinput : dev'.input = (fwioSetLine c dev line on).input)
    (hself : (dev'.release line).enabled = on) (hothers : ∀ l, l ≠ line → dev'.release l = dev.release l)
    (hfree : on = false → pinned c (lineMap line).1 (lineMap line).2 = false) (port : Port) (bit : Fin 8) :
    (dev'.input port).getLsbD bit = ((c.idle port).getLsbD bit ^^
      (pinned c port bit || decide (∃ l, lineMap l = (port, bit) ∧ (dev'.release l).enabled = true))) := by
  rw [hinput, fwioSetLine, setBit_input]
  by_cases hown : (port, bit) = lineMap line
  · have hport : port = (lineMap line).1 := congrArg Prod.fst hown
    have hbit : bit = (lineMap line).2 := congrArg Prod.snd hown
    subst hport hbit
    have hlit : (∃ l, lineMap l = ((lineMap line).1, (lineMap line).2) ∧ (dev'.release l).enabled = true) ↔
        on = true := by
      constructor
      · rintro ⟨l, hl, hlit⟩
        rw [← hself, ← line_alone hl]
        exact hlit
      · intro hon
        exact ⟨line, rfl, hself.trans hon⟩
    simp only [and_self, if_true, hlit, Bool.decide_eq_true]
    cases on with
    | false => simp [hfree rfl]
    | true => simp
  · have hnot : ¬(port = (lineMap line).1 ∧ bit = (lineMap line).2) := by
      rintro ⟨rfl, rfl⟩
      exact hown rfl
    have hlit : (∃ l, lineMap l = (port, bit) ∧ (dev'.release l).enabled = true) ↔
        ∃ l, lineMap l = (port, bit) ∧ (dev.release l).enabled = true := by
      apply exists_congr
      intro l
      apply and_congr_right
      intro hl
      have hl' : l ≠ line := by
        rintro rfl
        exact hown hl.symm
      rw [hothers l hl']
    simp only [if_neg hnot, hlit]
    exact h port bit

/-- In a step of the run: no line is pulsed again that has more than one leg of its hold to go, and no pinned line
is let go. -/
def LetGo (c : Setup) (w : Watched) : Event → Prop
  | .pulse line => ∀ l : Fin 12, (l : ℤ) = line → (w.dev.release l).split = false
  | .expire line =>
    (w.dev.release line).enabled = true → (w.dev.release line).ts ≤ w.dev.tsc →
      (w.dev.release line).split = false → pinned c (lineMap line).1 (lineMap line).2 = false
  | _ => True

theorem pulse_sound {w : Watched} {line : Fin 12} (hfree : (w.dev.release line).split = false) (h : Sound c w) :
    Sound c ((card c).next w (.pulse line)) := by
  have hperiod : (w.dev.release line).period = 0 := by
    cases he : (w.dev.release line).enabled with
    | false => exact (h.stopped line he).1
    | true =>
      obtain ⟨since, -, hruns⟩ := h.running line he
      have hsplit := hruns.split
      rw [hfree] at hsplit
      by_contra hne
      exact absurd (hsplit.mpr (Nat.pos_of_ne_zero hne)) (by simp)
  have hruns := timerOnAuto_runs (c := c) w.dev.tsc hperiod
  have hvalid : (0 : ℤ) ≤ line ∧ (line : ℤ) < 12 := by omega
  have hnext : (card c).next w (.pulse line) =
      { dev :=
          { fwioSetLine c w.dev line true with
            held := w.dev.held ||| 1 <<< line.val
            release := Function.update w.dev.release line
              (timerOnAuto c w.dev.tsc (w.dev.release line) c.hold) }
        pulsed := fun l => if (l : ℤ) = line then some w.dev.tsc else w.pulsed l } := by
    simp only [Machine.next, card, funworldIoPulse, hvalid, and_self, dif_pos]
    rfl
  rw [hnext]
  refine ⟨fun l hl => ?_, fun l hl => ?_, ?_⟩
  · by_cases hline : l = line
    · subst hline
      exact ⟨w.dev.tsc, by simp, by simpa using hruns⟩
    · have hne : ¬(l : ℤ) = line := by omega
      simp only [Function.update_of_ne hline] at hl
      simpa [hline, hne] using h.running l hl
  · by_cases hline : l = line
    · subst hline
      simp only [Function.update_self, hruns.enabled] at hl
      cases hl
    · have hne : ¬(l : ℤ) = line := by omega
      simp only [Function.update_of_ne hline] at hl
      simpa [hline, hne, fwioSetLine, fwioSetBit] using h.stopped l hl
  · have hself : (Function.update w.dev.release line (timerOnAuto c w.dev.tsc (w.dev.release line) c.hold) line).enabled =
        true := by
      simpa using hruns.enabled
    exact inputs_of_line h.inputs rfl hself (fun l hl => Function.update_of_ne hl _ _) (fun hon => by cases hon)

theorem expire_sound {w : Watched} {line : Fin 12} (hok : LetGo c w (.expire line)) (h : Sound c w) :
    Sound c ((card c).next w (.expire line)) := by
  change Sound c { w with dev := timerProcess c w.dev line }
  cases he : (w.dev.release line).enabled with
  | false =>
    simp only [timerProcess, he, Bool.false_and]
    exact h
  | true =>
    by_cases hdue : (w.dev.release line).ts ≤ w.dev.tsc
    swap
    · simp only [timerProcess, hdue, decide_false, Bool.and_false]
      exact h
    obtain ⟨since, hsince, hruns⟩ := h.running line he
    cases hs : (w.dev.release line).split with
    | true =>
      -- One leg is over and the next begins.
      have hleft : 0 < (w.dev.release line).period := hruns.split.mp hs
      have hnext := advanceEx_runs (c := c) w.dev.tsc hleft false
      simp only [Bool.false_eq_true, if_false, hruns.ends] at hnext
      simp only [timerProcess, he, hdue, hs, decide_true, Bool.and_self, if_true]
      have hothers : ∀ l, l ≠ line → Function.update w.dev.release line
          (advanceEx c w.dev.tsc (w.dev.release line) false) l = w.dev.release l :=
        fun l hl => Function.update_of_ne hl _ _
      have hlit : ∀ l, (Function.update w.dev.release line
          (advanceEx c w.dev.tsc (w.dev.release line) false) l).enabled = (w.dev.release l).enabled := by
        intro l
        by_cases hl : l = line
        · subst hl
          rw [Function.update_self, hnext.enabled, he]
        · rw [hothers l hl]
      refine ⟨fun l hl => ?_, fun l hl => ?_, fun port bit => ?_⟩
      · by_cases hline : l = line
        · subst hline
          exact ⟨since, hsince, by simpa using hnext⟩
        · dsimp only at hl ⊢
          rw [hothers l hline] at hl ⊢
          exact h.running l hl
      · dsimp only at hl ⊢
        rw [hlit] at hl
        have hline : l ≠ line := by
          rintro rfl
          rw [he] at hl
          cases hl
        rw [hothers l hline]
        exact h.stopped l hl
      · simp only [hlit]
        exact h.inputs port bit
    | false =>
      -- The hold is over.
      have hover : (w.dev.release line).period = 0 := by
        by_contra hne
        have hsplit := hruns.split.mpr (Nat.pos_of_ne_zero hne)
        rw [hs] at hsplit
        cases hsplit
      simp only [timerProcess, he, hdue, hs, decide_true, Bool.and_self, if_true, Bool.false_eq_true, if_false]
      refine ⟨fun l hl => ?_, fun l hl => ?_, ?_⟩
      · have hline : l ≠ line := by
          rintro rfl
          simp [fwioRelease, fwioSetLine, fwioSetBit] at hl
        simp only [fwioRelease, fwioSetLine, fwioSetBit, Function.update_of_ne hline] at hl ⊢
        exact h.running l hl
      · by_cases hline : l = line
        · subst hline
          simp only [fwioRelease, fwioSetLine, fwioSetBit, Function.update_self]
          refine ⟨hover, fun since' hsince' => ?_⟩
          have hends := hruns.ends
          rw [hsince] at hsince'
          cases hsince'
          omega
        · simp only [fwioRelease, fwioSetLine, fwioSetBit, Function.update_of_ne hline] at hl ⊢
          exact h.stopped l hl
      · let dev' : Fwio := fwioRelease c
          { w.dev with
            release := Function.update w.dev.release line
              { w.dev.release line with enabled := false, split := false } } line
        have hinput : dev'.input = (fwioSetLine c w.dev line false).input := rfl
        have hself : (dev'.release line).enabled = false := by
          simp [dev', fwioRelease, fwioSetLine, fwioSetBit]
        have hothers : ∀ l, l ≠ line → dev'.release l = w.dev.release l := fun l hl => Function.update_of_ne hl _ _
        exact inputs_of_line h.inputs hinput hself hothers fun _ => hok he hdue hs

theorem next_sound (w : Watched) (e : Event) (hok : LetGo c w e) (h : Sound c w) : Sound c ((card c).next w e) := by
  cases e with
  | pulse line =>
    by_cases hvalid : 0 ≤ line ∧ line < 12
    · lift line to ℕ using hvalid.1
      have hline : ((⟨line, by omega⟩ : Fin 12) : ℤ) = line := rfl
      rw [← hline]
      exact pulse_sound (hok _ rfl) h
    · -- The card does not know the line.
      have hnone : ∀ l : Fin 12, ¬(l : ℤ) = line := by
        intro l hl
        omega
      have hnext : (card c).next w (.pulse line) = w := by
        simp [Machine.next, card, funworldIoPulse, hvalid, hnone]
      rw [hnext]
      exact h
  | expire line => exact expire_sound hok h
  | pass ticks =>
    refine ⟨h.running, fun l hl => ?_, h.inputs⟩
    obtain ⟨hperiod, hover⟩ := h.stopped l hl
    refine ⟨hperiod, fun since hsince => ?_⟩
    exact (hover since hsince).trans (Nat.le_add_right _ _)
  | write port val =>
    obtain ⟨hrelease, htsc⟩ := write_release (c := c) w.dev port val
    change Sound c { w with dev := fwioWrite c w.dev port val }
    refine ⟨?_, ?_, ?_⟩
    · simpa only [hrelease] using h.running
    · simpa only [hrelease, htsc] using h.stopped
    · simpa only [hrelease, write_input] using h.inputs

theorem shows_of_sound {w : Watched} (h : Sound c w) (hsettled : Settled w) : Shows c w := by
  have hpressed : ∀ line, pressed c w line = true ↔ (w.dev.release line).enabled = true := by
    intro line
    cases he : (w.dev.release line).enabled with
    | true =>
      obtain ⟨since, hsince, hruns⟩ := h.running line he
      have hlater := hsettled line he
      have hends := hruns.ends
      simp only [pressed, hsince, decide_eq_true_eq, iff_true]
      omega
    | false =>
      have hover := (h.stopped line he).2
      cases hsince : w.pulsed line with
      | none => simp [pressed, hsince]
      | some since => simpa [pressed, hsince] using hover since hsince
  intro port bit
  rw [read_port]
  simp only [hpressed]
  exact h.inputs port bit

/-- The inputs show the pins and the lines pressed, whenever the timers are done, and a guest's write changes none of
them. -/
theorem lines_shown (es : List Event) (hok : (card c).Along (LetGo c) (switchedOn c) es) :
    (Settled ((card c).run (switchedOn c) es) → Shows c ((card c).run (switchedOn c) es)) ∧
      ∀ port val, (fwioWrite c ((card c).run (switchedOn c) es).dev port val).input =
        ((card c).run (switchedOn c) es).dev.input := by
  have hsound : Sound c ((card c).run (switchedOn c) es) :=
    (card c).run_invariant_along (fun w e hok h => next_sound w e hok h) (switchedOn_sound c) es hok
  exact ⟨shows_of_sound hsound, fun port val => write_input _ port val⟩

/-- The wiring of the cabinet, with A6 pinned. -/
def coinPinned : Setup where
  base := 0x210
  idle port := if port = .c then 0xf0 else 0xff
  holdMask port := if port = .a then 0x40 else 0
  hold := 100
  second := 1000
  hold_pos := by decide

/-- Two coins at once, and a button. -/
theorem lines_shown_coins :
    Settled ((card coinPinned).run (switchedOn coinPinned) [.pulse 0, .pass 50, .pulse 1, .pass 50, .expire 0]) ∧
      Shows coinPinned
        ((card coinPinned).run (switchedOn coinPinned) [.pulse 0, .pass 50, .pulse 1, .pass 50, .expire 0]) := by
  have hsettled :
      Settled ((card coinPinned).run (switchedOn coinPinned) [.pulse 0, .pass 50, .pulse 1, .pass 50, .expire 0]) := by
    decide +kernel
  refine ⟨hsettled, (lines_shown _ ?_).1 hsettled⟩
  refine ⟨?_, trivial, ?_, trivial, ?_, trivial⟩
  · intro l hl
    rfl
  · intro l hl
    have hone : l = 1 := by omega
    subst hone
    rfl
  · intro _ _ _
    rfl

/-- A coin on the pinned line takes the pin with it when it goes. -/
theorem coin_unpins :
    ¬∀ c es, Settled ((card c).run (switchedOn c) es) → Shows c ((card c).run (switchedOn c) es) := by
  intro h
  have hshows := h coinPinned [.pulse 4, .pass 100, .expire 4] (by decide +kernel)
  revert hshows
  decide +kernel

end PeepeeBox.FunworldIo
