import PeepeeBox.EventFifo

set_option autoImplicit false

/-!
# A FIFO against a bounded queue

The operations of `fifo.c` that call the owner and those that do not, on one ring, beside a queue of
bytes with a level.
-/
namespace PeepeeBox.FifoQueue
open EventFifo

variable {S : Type}

def fifoWrite (val : Byte) (f : Fifo) : Fifo :=
  let f := { f with dFull := false, dEmpty := false, dReady := false, dOverrun := false }
  if f.full then { f with overrun := true }
  else
    let f := { f with buf := Function.update f.buf f.end_ val, end_ := (f.end_ + 1) % f.len }
    let f := if f.end_ = f.start then { f with full := true } else f
    let f := { f with empty := false }
    if f.triggerLen ≤ fifoGetCount f then { f with ready := true } else f

def fifoRead (f : Fifo) : Byte × Fifo :=
  if f.empty then (0, f)
  else
    let ret := f.buf f.start
    let f := { f with start := (f.start + 1) % f.len, full := false }
    let count := fifoGetCount f
    (ret,
      if count < f.triggerLen then
        let f := { f with ready := false }
        if count = 0 then { f with empty := true } else f
      else f)

def fifoSetTriggerLen (triggerLen : ℤ) (f : Fifo) : Fifo := { f with triggerLen := triggerLen.toNat }

inductive Op where
  | write (val : Byte)
  | writeEvt (val : Byte)
  | read
  | readEvt
  | reset
  | setTriggerLen (triggerLen : ℤ)

/-- The byte read, the FIFO, and what the owner makes of its calls. -/
def step (evts : Events S) (x : Fifo × S) : Op → Option Byte × Fifo × S
  | .write val => (none, fifoWrite val x.1, x.2)
  | .writeEvt val => (none, fifoWriteEvt evts val x.1 x.2)
  | .read => (some (fifoRead x.1).1, (fifoRead x.1).2, x.2)
  | .readEvt => (some (fifoReadEvt evts x.1 x.2).1, (fifoReadEvt evts x.1 x.2).2)
  | .reset => (none, fifoReset x.1, x.2)
  | .setTriggerLen t => (none, fifoSetTriggerLen t x.1, x.2)

structure Queue where
  items : List Byte
  overrun : Bool
  level : ℤ

/-- A queue has at most `len` bytes; the byte that finds no room is lost. -/
def Queue.put (len : ℕ) (val : Byte) (q : Queue) : Queue :=
  if q.items.length = len then { q with overrun := true } else { q with items := q.items ++ [val] }

def Queue.step (len : ℕ) (q : Queue) : Op → Option Byte × Queue
  | .write val | .writeEvt val => (none, q.put len val)
  | .read | .readEvt => (some (q.items.headD 0), { q with items := q.items.tail })
  | .reset => (none, { q with items := [], overrun := false })
  | .setTriggerLen t => (none, { q with level := t })

def Queue.init : Queue := { items := [], overrun := false, level := 0 }

structure Agrees (f : Fifo) (q : Queue) : Prop where
  contents : contents f = q.items
  count : fifoGetCount f = q.items.length
  overrun : f.overrun = q.overrun
  empty : f.empty = true ↔ q.items = []
  full : f.full = true ↔ q.items.length = f.len
  ready : f.ready = true ↔ q.level ≤ q.items.length

/-- After each operation the FIFO agrees with the queue, and the reads give its bytes. -/
def Follows (evts : Events S) (len : ℕ) : Fifo × S → Queue → List Op → Prop
  | _, _, [] => True
  | x, q, op :: ops =>
    ((step evts x op).1 = (q.step len op).1 ∧ Agrees (step evts x op).2.1 (q.step len op).2) ∧
      Follows evts len (step evts x op).2 (q.step len op).2 ops

/-- `fifo_init` and `fifo_reset` clear `ready`, `fifo_set_trigger_len` leaves it, and `fifo_read` tells the
last byte from the others only below the level. -/
def Meets (first : Bool) (q : Queue) : Op → Prop
  | .write _ | .writeEvt _ => True
  | .read => first = false ∧ (q.items.length = 1 → 0 < q.level)
  | .readEvt => first = false
  | .reset => 0 < q.level
  | .setTriggerLen t => t ≤ q.items.length ↔ first = false ∧ q.level ≤ q.items.length

def Careful (len : ℕ) : Bool → Queue → List Op → Prop
  | _, _, [] => True
  | first, q, op :: ops => Meets first q op ∧ Careful len false (q.step len op).2 ops

structure Ring (len : ℕ) (f : Fifo) (q : Queue) : Prop where
  sound : Sound f
  len : f.len = len
  level : f.triggerLen = q.level.toNat
  contents : contents f = q.items
  overrun : f.overrun = q.overrun

structure Writes (f : Fifo) (val : Byte) (g : Fifo) : Prop where
  room : f.full = false → Wrote f val g ∧ g.overrun = f.overrun ∧
    g.ready = (f.ready || decide (f.triggerLen ≤ fifoGetCount g))
  lost : f.full = true → g.overrun = true ∧ g.ready = f.ready ∧ g.start = f.start ∧ g.end_ = f.end_ ∧
    g.buf = f.buf ∧ g.full = f.full ∧ g.empty = f.empty
  len : g.len = f.len
  level : g.triggerLen = f.triggerLen

structure Takes (f g : Fifo) : Prop where
  took : Took f g
  overrun : g.overrun = f.overrun
  level : g.triggerLen = f.triggerLen
  ready : g.ready = (f.ready && decide (f.triggerLen ≤ fifoGetCount g))

section
variable {len : ℕ} {f g : Fifo} {q : Queue}

theorem Ring.count (h : Ring len f q) : fifoGetCount f = q.items.length := by
  rw [← h.contents, contents_length]

theorem Ring.full_iff (h : Ring len f q) : f.full = true ↔ q.items.length = len := by
  rw [h.sound.full_iff, h.count, h.len]

theorem Ring.empty_iff (h : Ring len f q) : f.empty = true ↔ q.items = [] := by
  rw [h.sound.empty_iff, h.contents]

theorem Ring.agrees_iff (h : Ring len f q) : Agrees f q ↔ (f.ready = true ↔ q.level ≤ q.items.length) := by
  constructor
  · exact Agrees.ready
  · intro hready
    exact ⟨h.contents, h.count, h.overrun, h.empty_iff, by rw [h.full_iff, h.len], hready⟩

theorem Ring.level_le (h : Ring len f q) (n : ℕ) : f.triggerLen ≤ n ↔ q.level ≤ n := by
  rw [h.level]
  exact Int.toNat_le

theorem fifoWrite_writes (val : Byte) (f : Fifo) : Writes f val (fifoWrite val f) := by
  unfold fifoWrite
  cases hfull : f.full with
  | true => constructor <;> simp [hfull]
  | false =>
    by_cases hend : (f.end_ + 1) % f.len = f.start
    · simp only [hend, Bool.false_eq_true, if_false, if_true]
      split <;> refine ⟨fun _ => ⟨⟨?_, ?_, ?_, ?_, ?_, ?_⟩, ?_, ?_⟩, ?_, ?_, ?_⟩ <;> simp_all [fifoGetCount]
    · simp only [hend, Bool.false_eq_true, if_false]
      split <;> refine ⟨fun _ => ⟨⟨?_, ?_, ?_, ?_, ?_, ?_⟩, ?_, ?_⟩, ?_, ?_, ?_⟩ <;> simp_all [fifoGetCount]

theorem fifoWriteEvt_writes (evts : Events S) (val : Byte) (f : Fifo) (s : S) :
    Writes f val (fifoWriteEvt evts val f s).1 := by
  by_cases hfull : f.full = true
  · have hlost : (fifoWriteEvt evts val f s).1 =
        { f with dFull := false, dEmpty := false, dReady := false, dOverrun := !f.overrun, overrun := true } := by
      unfold fifoWriteEvt call
      exact congrArg Prod.fst (if_pos hfull)
    rw [hlost]
    constructor <;> simp [hfull]
  · have hroom : f.full = false := Bool.eq_false_iff.mpr hfull
    have hwrote := write_room evts val hroom s
    have hrest : (fifoWriteEvt evts val f s).1.overrun = f.overrun ∧
        (fifoWriteEvt evts val f s).1.triggerLen = f.triggerLen ∧
        (fifoWriteEvt evts val f s).1.ready =
          (f.ready || decide (f.triggerLen ≤ fifoGetCount (fifoWriteEvt evts val f s).1)) := by
      unfold fifoWriteEvt noteReady noteFilled noteFull call
      by_cases hend : (f.end_ + 1) % f.len = f.start
      · simp only [hroom, hend, Bool.false_eq_true, if_false, if_true]
        split <;> simp_all [fifoGetCount]
      · simp only [hroom, hend, Bool.false_eq_true, if_false]
        split <;> simp_all [fifoGetCount]
    exact ⟨fun _ => ⟨hwrote, hrest.1, hrest.2.2⟩, fun h => absurd h hfull, hwrote.len, hrest.2.1⟩

def shifted (f : Fifo) : Fifo := { f with start := (f.start + 1) % f.len, full := false }

theorem shifted_zero (hs : Sound f) : fifoGetCount (shifted f) = 0 ↔ f.end_ = (f.start + 1) % f.len :=
  count_zero (f := shifted f) (Nat.mod_lt _ (Nat.zero_lt_of_lt hs.start)) rfl

theorem shifted_count (hs : Sound f) (h : f.empty = false) : fifoGetCount f = fifoGetCount (shifted f) + 1 :=
  @Took.count f { shifted f with empty := decide (f.end_ = (f.start + 1) % f.len) }
    ⟨rfl, rfl, rfl, rfl, rfl, rfl⟩ hs h

theorem fifoRead_some (h : f.empty = false) :
    fifoRead f = (f.buf f.start,
      if fifoGetCount (shifted f) < f.triggerLen then
        if fifoGetCount (shifted f) = 0 then { shifted f with ready := false, empty := true }
        else { shifted f with ready := false }
      else shifted f) :=
  if_neg (by simp [h])

theorem fifoRead_takes (hs : Sound f) (h : f.empty = false) (hlast : fifoGetCount f = 1 → 0 < f.triggerLen) :
    (fifoRead f).1 = f.buf f.start ∧ Takes f (fifoRead f).2 := by
  have hzero := shifted_zero hs
  have hcount := shifted_count hs h
  rw [fifoRead_some h]
  refine ⟨rfl, ?_⟩
  dsimp only
  by_cases hbelow : fifoGetCount (shifted f) < f.triggerLen
  · rw [if_pos hbelow]
    by_cases hnone : fifoGetCount (shifted f) = 0
    · rw [if_pos hnone]
      refine ⟨⟨rfl, rfl, rfl, rfl, rfl, (decide_eq_true (hzero.mp hnone)).symm⟩, rfl, rfl, ?_⟩
      change false = (f.ready && decide (f.triggerLen ≤ fifoGetCount (shifted f)))
      rw [decide_eq_false (Nat.not_le.mpr hbelow), Bool.and_false]
    · rw [if_neg hnone]
      refine ⟨⟨rfl, rfl, rfl, rfl, rfl, ?_⟩, rfl, rfl, ?_⟩
      · exact h.trans (decide_eq_false fun hend => hnone (hzero.mpr hend)).symm
      · change false = (f.ready && decide (f.triggerLen ≤ fifoGetCount (shifted f)))
        rw [decide_eq_false (Nat.not_le.mpr hbelow), Bool.and_false]
  · rw [if_neg hbelow]
    have hsome : fifoGetCount (shifted f) ≠ 0 := by
      intro hnone
      have hpositive := hlast (by omega)
      omega
    refine ⟨⟨rfl, rfl, rfl, rfl, rfl, ?_⟩, rfl, rfl, ?_⟩
    · exact h.trans (decide_eq_false fun hend => hsome (hzero.mpr hend)).symm
    · change f.ready = (f.ready && decide (f.triggerLen ≤ fifoGetCount (shifted f)))
      rw [decide_eq_true (Nat.not_lt.mp hbelow), Bool.and_true]

structure Levels (f g : Fifo) (ready : Bool) : Prop where
  count : fifoGetCount g = fifoGetCount f
  overrun : g.overrun = f.overrun
  level : g.triggerLen = f.triggerLen
  ready : g.ready = ready

theorem noteBelow_levels (evts : Events S) (f : Fifo) (s : S) :
    Levels f (noteBelow evts f s).1 (f.ready && decide (f.triggerLen ≤ fifoGetCount f)) := by
  unfold noteBelow call
  split
  · exact ⟨rfl, rfl, rfl, by simp_all⟩
  · exact ⟨rfl, rfl, rfl, by simp_all⟩

theorem noteEmpty_levels (evts : Events S) (f : Fifo) (s : S) : Levels f (noteEmpty evts f s).1 f.ready := by
  unfold noteEmpty call
  split
  · exact ⟨rfl, rfl, rfl, rfl⟩
  · exact ⟨rfl, rfl, rfl, rfl⟩

theorem fifoReadEvt_takes (evts : Events S) (hs : Sound f) (h : f.empty = false) (s : S) :
    (fifoReadEvt evts f s).1 = f.buf f.start ∧ Takes f (fifoReadEvt evts f s).2.1 := by
  obtain ⟨hret, htook⟩ := read_some evts hs h s
  have hlevels : ∃ g, g.overrun = f.overrun ∧ g.triggerLen = f.triggerLen ∧ g.ready = f.ready ∧
      Levels g (fifoReadEvt evts f s).2.1 (g.ready && decide (g.triggerLen ≤ fifoGetCount g)) := by
    unfold fifoReadEvt
    rw [if_neg (by simp [h])]
    refine ⟨{ f with start := (f.start + 1) % f.len, dFull := f.full, full := false, dEmpty := false, dReady := false },
      rfl, rfl, rfl, ?_⟩
    dsimp only [noteRoom, call]
    generalize (if f.full = true then _ else s) = s'
    have hbelow := noteBelow_levels evts
      { f with start := (f.start + 1) % f.len, dFull := f.full, full := false, dEmpty := false, dReady := false } s'
    generalize noteBelow evts _ s' = x at hbelow ⊢
    have hempty := noteEmpty_levels evts x.1 x.2
    exact ⟨hempty.count.trans hbelow.count, hempty.overrun.trans hbelow.overrun, hempty.level.trans hbelow.level,
      hempty.ready.trans hbelow.ready⟩
  obtain ⟨g, hoverrun, hlevel, hready, hall⟩ := hlevels
  refine ⟨hret, htook, hall.overrun.trans hoverrun, hall.level.trans hlevel, ?_⟩
  rw [hall.ready, hall.count, hready, hlevel]

theorem Writes.ring {val : Byte} (h : Writes f val g) (hring : Ring len f q) :
    Ring len g (q.put len val) ∧
      (g.ready = true ↔ f.ready = true ∨ q.items.length ≠ len ∧ q.level ≤ q.items.length + 1) := by
  unfold Queue.put
  by_cases hfull : f.full = true
  · obtain ⟨hoverrun, hready, hstart, hend, hbuf, hkept, hempty⟩ := h.lost hfull
    have hcount : fifoGetCount g = fifoGetCount f := by
      unfold fifoGetCount
      rw [hstart, hend, hkept, h.len]
    have hlen := hring.full_iff.mp hfull
    rw [if_pos hlen]
    refine ⟨⟨⟨?_, ?_, ?_, ?_⟩, h.len.trans hring.len, h.level.trans hring.level, ?_, hoverrun⟩, ?_⟩
    · rw [hstart, h.len]
      exact hring.sound.start
    · rw [hend, h.len]
      exact hring.sound.end_
    · rw [hkept, hend, hstart]
      exact hring.sound.full
    · rw [hempty, hend, hstart, hkept]
      exact hring.sound.empty
    · rw [← hring.contents]
      unfold EventFifo.contents
      rw [hbuf, h.len, hstart, hcount]
    · simp [hready, hlen]
  · have hroom : f.full = false := Bool.eq_false_iff.mpr hfull
    obtain ⟨hwrote, hoverrun, hready⟩ := h.room hroom
    have hlen : q.items.length ≠ len := fun hlen => hfull (hring.full_iff.mpr hlen)
    rw [if_neg hlen]
    refine ⟨⟨hwrote.sound hring.sound, h.len.trans hring.len, h.level.trans hring.level, ?_,
      hoverrun.trans hring.overrun⟩, ?_⟩
    · rw [hwrote.contents hring.sound hroom, hring.contents]
    · rw [hready, Bool.or_eq_true, decide_eq_true_iff, hwrote.count hring.sound hroom, hring.count, hring.level_le]
      simp [hlen]

theorem Takes.ring (h : Takes f g) (hring : Ring len f q) (hany : f.empty = false) :
    Ring len g { q with items := q.items.tail } ∧ f.buf f.start = q.items.headD 0 ∧
      (g.ready = true ↔ f.ready = true ∧ q.level ≤ q.items.tail.length) := by
  have hitems := h.took.contents hring.sound hany
  rw [hring.contents] at hitems
  have htail : q.items.tail = contents g := by rw [hitems, List.tail_cons]
  refine ⟨⟨h.took.sound hring.sound, h.took.len.trans hring.len, h.level.trans hring.level, htail.symm,
    h.overrun.trans hring.overrun⟩, ?_, ?_⟩
  · rw [hitems, List.headD_cons]
  · rw [h.ready, Bool.and_eq_true, decide_eq_true_iff, htail, contents_length, hring.level_le]

end

/-- Before the first operation `ready` is not set, though the level is zero. -/
structure Held (first : Bool) (len : ℕ) (f : Fifo) (q : Queue) : Prop where
  ring : Ring len f q
  ready : f.ready = true ↔ first = false ∧ q.level ≤ q.items.length
  fresh : first = true → q.items = [] ∧ q.level = 0

theorem held_init {len : ℕ} (h : 0 < len) : Held true len (fifoInit len) Queue.init where
  ring := ⟨sound_reset h, rfl, rfl, contents_reset _, rfl⟩
  ready := by simp [fifoInit, fifoReset]
  fresh := fun _ => ⟨rfl, rfl⟩

section
variable {first : Bool} {len : ℕ} {f g : Fifo} {q : Queue}

theorem Held.later (h : Ring len f q) (hready : f.ready = true ↔ q.level ≤ q.items.length) : Held false len f q :=
  ⟨h, by simp [hready], fun hfirst => nomatch hfirst⟩

theorem Held.write (h : Held first len f q) {val : Byte} (hwrites : Writes f val g) :
    Held false len g (q.put len val) := by
  obtain ⟨hring, hready⟩ := hwrites.ring h.ring
  refine Held.later hring (hready.trans ?_)
  rw [h.ready]
  have hlen : q.items.length = len → first = false := by
    intro hlen
    cases hfirst : first with
    | false => rfl
    | true =>
      rw [(h.fresh hfirst).1] at hlen
      exact absurd hlen (Nat.ne_of_lt (h.ring.len ▸ Nat.zero_lt_of_lt h.ring.sound.start))
  unfold Queue.put
  by_cases hfull : q.items.length = len
  · rw [if_pos hfull]
    simp [hfull, hlen hfull]
  · rw [if_neg hfull]
    dsimp only
    rw [List.length_append, List.length_singleton]
    constructor
    · rintro (hready | hready)
      · omega
      · exact hready.2
    · intro hlevel
      exact Or.inr ⟨hfull, hlevel⟩

theorem Held.take (h : Held false len f q) (htakes : Takes f g) (hany : f.empty = false) :
    f.buf f.start = q.items.headD 0 ∧ Held false len g { q with items := q.items.tail } := by
  obtain ⟨hring, hret, hready⟩ := htakes.ring h.ring hany
  refine ⟨hret, Held.later hring (hready.trans ?_)⟩
  rw [h.ready, List.length_tail]
  simp only [true_and, and_iff_right_iff_imp]
  omega

theorem tail_none (h : q.items = []) : { q with items := q.items.tail } = q := by
  cases q
  subst h
  rfl

theorem Ring.undone (h : Ring len f q) : Ring len { f with dFull := false, dEmpty := false, dReady := false } q :=
  ⟨⟨h.sound.start, h.sound.end_, h.sound.full, h.sound.empty⟩, h.len, h.level, h.contents, h.overrun⟩

theorem Ring.reset (h : Ring len f q) : Ring len (fifoReset f) { q with items := [], overrun := false } :=
  ⟨sound_reset (Nat.zero_lt_of_lt h.sound.start), h.len, h.level, contents_reset f, rfl⟩

theorem Ring.setLevel (h : Ring len f q) (t : ℤ) : Ring len (fifoSetTriggerLen t f) { q with level := t } :=
  ⟨⟨h.sound.start, h.sound.end_, h.sound.full, h.sound.empty⟩, h.len, rfl, h.contents, h.overrun⟩

theorem step_held (evts : Events S) (s : S) (h : Held first len f q) {op : Op} (hmeets : Meets first q op) :
    (step evts (f, s) op).1 = (q.step len op).1 ∧
      Held false len (step evts (f, s) op).2.1 (q.step len op).2 := by
  cases op with
  | write val => exact ⟨rfl, h.write (fifoWrite_writes val f)⟩
  | writeEvt val => exact ⟨rfl, h.write (fifoWriteEvt_writes evts val f s)⟩
  | read =>
    obtain ⟨rfl, hlast⟩ := hmeets
    by_cases hnone : f.empty = true
    · have hitems := h.ring.empty_iff.mp hnone
      have hread : fifoRead f = (0, f) := if_pos hnone
      change some (fifoRead f).1 = some (q.items.headD 0) ∧ Held false len (fifoRead f).2 { q with items := q.items.tail }
      rw [hread, tail_none hitems, hitems]
      exact ⟨rfl, h⟩
    · have hany : f.empty = false := Bool.eq_false_iff.mpr hnone
      have hlast' : fifoGetCount f = 1 → 0 < f.triggerLen := by
        rw [h.ring.count, h.ring.level]
        omega
      obtain ⟨hret, htakes⟩ := fifoRead_takes h.ring.sound hany hlast'
      obtain ⟨hhead, hheld⟩ := h.take htakes hany
      exact ⟨congrArg some (hret.trans hhead), hheld⟩
  | readEvt =>
    obtain rfl := hmeets
    by_cases hnone : f.empty = true
    · have hitems := h.ring.empty_iff.mp hnone
      have hread := read_none evts hnone s
      change some (fifoReadEvt evts f s).1 = some (q.items.headD 0) ∧
        Held false len (fifoReadEvt evts f s).2.1 { q with items := q.items.tail }
      rw [hread, tail_none hitems, hitems]
      exact ⟨rfl, h.ring.undone, h.ready, h.fresh⟩
    · have hany : f.empty = false := Bool.eq_false_iff.mpr hnone
      obtain ⟨hret, htakes⟩ := fifoReadEvt_takes evts h.ring.sound hany s
      obtain ⟨hhead, hheld⟩ := h.take htakes hany
      exact ⟨congrArg some (hret.trans hhead), hheld⟩
  | reset =>
    refine ⟨rfl, Held.later (h.ring.reset) ?_⟩
    exact ⟨fun hready => absurd hready Bool.false_ne_true, fun hlevel => absurd hlevel (Int.not_le.mpr hmeets)⟩
  | setTriggerLen t =>
    exact ⟨rfl, Held.later (h.ring.setLevel t) (h.ready.trans hmeets.symm)⟩

theorem step_strays (evts : Events S) (s : S) (h : Held first len f q) {op : Op} (hnot : ¬ Meets first q op) :
    ¬ Agrees (step evts (f, s) op).2.1 (q.step len op).2 := by
  -- nothing is read before the first operation, when the level is zero
  have hstale : first = true → ¬ (f.ready = true ↔ q.level ≤ q.items.length) ∧ f.empty = true ∧ q.items = [] := by
    intro hfirst
    obtain ⟨hitems, hlevel⟩ := h.fresh hfirst
    refine ⟨?_, h.ring.empty_iff.mpr hitems, hitems⟩
    rw [h.ready, hfirst, hitems, hlevel]
    simp
  cases op with
  | write val => exact absurd trivial hnot
  | writeEvt val => exact absurd trivial hnot
  | read =>
    cases hfirst : first with
    | true =>
      obtain ⟨hwrong, hnone, hitems⟩ := hstale hfirst
      have hread : fifoRead f = (0, f) := if_pos hnone
      change ¬ Agrees (fifoRead f).2 { q with items := q.items.tail }
      rw [hread, tail_none hitems]
      exact fun hagrees => hwrong hagrees.ready
    | false =>
      have hlast : q.items.length = 1 ∧ ¬ 0 < q.level := by
        by_contra hmeets
        exact hnot ⟨hfirst, fun hone => by_contra fun hlevel => hmeets ⟨hone, hlevel⟩⟩
      have hany : f.empty = false := by
        rw [Bool.eq_false_iff]
        intro hnone
        rw [h.ring.empty_iff.mp hnone] at hlast
        exact absurd hlast.1 Nat.zero_ne_one
      have hlevel : ¬ fifoGetCount (shifted f) < f.triggerLen := by
        rw [h.ring.level]
        omega
      have hempty : (fifoRead f).2.empty = false := by
        rw [fifoRead_some hany, if_neg hlevel]
        exact hany
      intro hagrees
      have hnone := hagrees.empty.mpr (List.eq_nil_of_length_eq_zero (by simp [Queue.step, hlast.1]))
      change (fifoRead f).2.empty = true at hnone
      rw [hempty] at hnone
      cases hnone
  | readEvt =>
    have hfirst : first = true := by
      cases hfirst : first with
      | true => rfl
      | false => exact absurd hfirst hnot
    obtain ⟨hwrong, hnone, hitems⟩ := hstale hfirst
    change ¬ Agrees (fifoReadEvt evts f s).2.1 { q with items := q.items.tail }
    rw [read_none evts hnone, tail_none hitems]
    exact fun hagrees => hwrong hagrees.ready
  | reset =>
    intro hagrees
    exact Bool.false_ne_true (hagrees.ready.mpr (Int.not_lt.mp hnot))
  | setTriggerLen t =>
    intro hagrees
    exact hnot (hagrees.ready.symm.trans h.ready)

theorem follows_iff (evts : Events S) (h : Held first len f q) (s : S) (ops : List Op) :
    Follows evts len (f, s) q ops ↔ Careful len first q ops := by
  induction ops generalizing first f q s with
  | nil => exact Iff.rfl
  | cons op ops ih =>
    unfold Follows Careful
    by_cases hmeets : Meets first q op
    · obtain ⟨hret, hheld⟩ := step_held evts s h hmeets
      have hagrees : Agrees (step evts (f, s) op).2.1 (q.step len op).2 :=
        hheld.ring.agrees_iff.mpr (hheld.ready.trans (and_iff_right rfl))
      rw [and_iff_right ⟨hret, hagrees⟩, and_iff_right hmeets]
      exact ih hheld _
    · exact ⟨fun hfollows => absurd hfollows.1.2 (step_strays evts s h hmeets), fun hcareful => absurd hcareful.1 hmeets⟩

end

/-- From `fifo_init`: the FIFO does as the queue does, as long as `fifo_read` takes no last byte and
`fifo_reset` is not called at a level of zero or below, no new level passes the count, and what comes first is a
write or a level above zero. -/
theorem fifo_refines (evts : Events S) (s : S) (len : ℕ) (hlen : 0 < len) (ops : List Op) :
    Follows evts len (fifoInit len, s) Queue.init ops ↔ Careful len true Queue.init ops :=
  follows_iff evts (held_init hlen) s ops

/-- At level 2 the bytes go through in order, whichever operations move them. -/
theorem fifo_refines_level_two :
    Follows ({} : Events Unit) 16 (fifoInit 16, ()) Queue.init
      [.setTriggerLen 2, .write 0x41, .writeEvt 0x42, .read, .readEvt, .reset] := by
  refine (fifo_refines {} () 16 (by decide) _).mpr ?_
  simp [Careful, Meets, Queue.step, Queue.put, Queue.init]

/-- At the level of `fifo_init` `fifo_read` takes the only byte off and leaves `empty` as it was. -/
theorem last_byte_not_told :
    ¬ Follows ({} : Events Unit) 16 (fifoInit 16, ()) Queue.init [.write 0x41, .read] := by
  intro hfollows
  have hempty := hfollows.2.1.2.empty
  revert hempty
  decide

end PeepeeBox.FifoQueue
