import PeepeeBox.LptFifo

set_option autoImplicit false

/-!
# What leaves a parallel port

Every byte taken into the FIFO reaches the attached device once and in order, for as long as no byte is fetched by DMA
into a full FIFO.
-/
namespace PeepeeBox.LptDelivery
open EventFifo TaggedFifo LptFifo

inductive Op where
  | dataFifo (val : Byte)
  | ecr (val : Byte)
  | tick (answer : Option (Byte × Bool))
  | readStatus
  | readEcr
deriving DecidableEq, Repr

def step (dev : Lpt) : Op → Lpt
  | .dataFifo val => lptWrite0400 dev val
  | .ecr val => lptWrite0402 dev val
  | .tick answer => timerTick dev answer
  | .readStatus => { dev with port := (lptReadStatus dev.port).2 }
  | .readEcr => dev

def Accepts (dev : Lpt) : Prop :=
  dev.fifo.fifo.full = false ∧
    (dev.port.ecr.toNat / 0x20 = 2 ∨ dev.port.ecr.toNat / 0x20 = 6 ∨
      dev.port.ecr.toNat / 0x20 = 3 ∧ lptGetCtrlRaw dev.port &&& 0x20 = 0)

/-- A tick calls `dma_channel_read`. -/
def Asks (dev : Lpt) : Prop :=
  dev.port.timer = true ∧ dev.port.ecr &&& 0xE0 ≠ 0xC0 ∧ dev.port.state = .readDma ∧ dev.port.dma ≠ 0xFF

instance (dev : Lpt) : Decidable (Accepts dev) := by
  unfold Accepts
  infer_instance

instance (dev : Lpt) : Decidable (Asks dev) := by
  unfold Asks
  infer_instance

structure Trace where
  dev : Lpt
  taken : List Byte
  ended : Option ℕ

def takes (dev : Lpt) : Op → List Byte
  | .dataFifo val => if Accepts dev then [val] else []
  | .tick (some (val, _)) => if Asks dev then [val] else []
  | _ => []

def endOf (t : Trace) : Op → Option ℕ
  | .tick (some (_, true)) => if Asks t.dev then some (t.taken.length + 1) else t.ended
  | _ => t.ended

def next (t : Trace) (op : Op) : Trace := ⟨step t.dev op, t.taken ++ takes t.dev op, endOf t op⟩

def run (t : Trace) (ops : List Op) : Trace := ops.foldl next t

def ticks (t : Trace) (answers : ℕ → Option (Byte × Bool)) : ℕ → Trace
  | 0 => t
  | n + 1 => next (ticks t answers n) (.tick (answers n))

def pulses (old : Bool) : List Byte → List Event
  | [] => []
  | val :: vals => [.writeData val, .strobe old true, .strobe true false] ++ pulses false vals

def byteOf : Event → Option Byte
  | .writeData val => some val
  | .strobe _ _ => none

def sentOf (told : List Event) : List Byte := told.filterMap byteOf

def sent (t : Trace) : List Byte := sentOf t.dev.port.told

def lineAfter (old : Bool) (vals : List Byte) : Bool := if vals = [] then old else false

theorem pulses_snoc (old : Bool) (vals : List Byte) (val : Byte) :
    pulses old (vals ++ [val]) =
      pulses old vals ++ [.writeData val, .strobe (lineAfter old vals) true, .strobe true false] := by
  induction vals generalizing old with
  | nil => rfl
  | cons first vals ih =>
    have hline : lineAfter false vals = lineAfter old (first :: vals) := by
      unfold lineAfter
      rw [if_neg (List.cons_ne_nil _ _)]
      split_ifs <;> rfl
    have hrest := ih false
    rw [hline] at hrest
    change [_, _, _] ++ pulses false (vals ++ [val]) = ([_, _, _] ++ pulses false vals) ++ _
    rw [hrest, List.append_assoc]

def core (p : Port) : Port := { p with fifoStat := 0x00, irqState := false }

theorem core_irq (p : Port) : core (lptEcpUpdateIrq p) = core p := by
  unfold lptEcpUpdateIrq
  split_ifs <;> rfl

theorem core_ready (f : Fifo) (p : Port) : core (lptFifoDReadyEvt f p) = core p := by
  unfold lptFifoDReadyEvt
  dsimp only
  split_ifs <;> exact core_irq _

theorem keeps_core (p : Port) : Keeps events (fun q => core q = core p) :=
  ⟨fun _ _ h => h, fun _ _ h => h, fun _ _ h => h, fun f q h => (core_ready f q).trans h⟩

theorem core_write (tag val : Byte) (f : Tagged) (p : Port) :
    core (fifoWriteEvtTagged events tag val f p).2 = core p :=
  (keeps_core p).write val f.fifo rfl

theorem core_read (f : Tagged) (p : Port) : core (fifoReadEvtTagged events f p).2.2.2 = core p :=
  (keeps_core p).read f.fifo rfl

theorem core_get {α : Type} (field : Port → α) (hfield : ∀ p, field (core p) = field p) {p q : Port} (h : core p = q) :
    field p = field q := by
  rw [← hfield p, h]

/-- A device that takes data and strobes. -/
def Connected (p : Port) : Prop :=
  p.outputEnabled = true ∧ p.dt.any Attached.writeData = true ∧ p.dt.any Attached.strobe = true

theorem Connected.same {p q : Port} (hq : Connected q) (houtput : p.outputEnabled = q.outputEnabled)
    (hdt : p.dt = q.dt) : Connected p := by
  unfold Connected
  rw [houtput, hdt]
  exact hq

theorem Connected.of_core {p q : Port} (hq : Connected q) (h : core p = core q) : Connected p :=
  hq.same (core_get Port.outputEnabled (fun _ => rfl) h :) (core_get Port.dt (fun _ => rfl) h :)

section
variable {dev : Lpt}

theorem write0400_accepts (h : Accepts dev) (val : Byte) : lptWrite0400 dev val = lptWriteFifo dev val 0x01 := by
  obtain ⟨-, hmode⟩ := h
  unfold lptWrite0400
  rcases hmode with hmode | hmode | ⟨hmode, hforward⟩
  · rw [hmode]
    rfl
  · rw [hmode]
    rfl
  · rw [hmode]
    exact if_pos hforward

theorem write0400_refuses (h : ¬Accepts dev) (val : Byte) : lptWrite0400 dev val = dev := by
  have hfull (hmode : dev.port.ecr.toNat / 0x20 = 2 ∨ dev.port.ecr.toNat / 0x20 = 6 ∨
      dev.port.ecr.toNat / 0x20 = 3 ∧ lptGetCtrlRaw dev.port &&& 0x20 = 0) : lptWriteFifo dev val 0x01 = dev := by
    cases hroom : dev.fifo.fifo.full with
    | true => exact if_pos hroom
    | false => exact absurd ⟨hroom, hmode⟩ h
  unfold lptWrite0400
  split
  · rename_i hmode
    exact hfull (.inl hmode)
  · rename_i hmode
    exact hfull (.inr (.inl hmode))
  · rename_i hmode
    split_ifs with hforward
    · exact hfull (.inr (.inr ⟨hmode, hforward⟩))
    · rfl
  · rfl

theorem writeFifo_room (hm : Marked 0x01 dev.fifo) (hroom : dev.fifo.fifo.full = false) (val : Byte) :
    Marked 0x01 (lptWriteFifo dev val 0x01).fifo ∧
      contents (lptWriteFifo dev val 0x01).fifo.fifo = contents dev.fifo.fifo ++ [val] ∧
        core (lptWriteFifo dev val 0x01).port = { core dev.port with timer := true } := by
  have hwrite : lptWriteFifo dev val 0x01 =
      ⟨{ (fifoWriteEvtTagged events 0x01 val dev.fifo dev.port).2 with timer := true },
        (fifoWriteEvtTagged events 0x01 val dev.fifo dev.port).1⟩ := if_neg (by simp [hroom])
  obtain ⟨hmarked, hcontents⟩ := @Marked.write _ events 0x01 val dev.fifo hm hroom dev.port
  rw [hwrite]
  refine ⟨hmarked, hcontents, ?_⟩
  exact congrArg (fun p : Port => { p with timer := true }) (core_write 0x01 val dev.fifo dev.port)

theorem readDma_none {answer : Option (Byte × Bool)} (h : dev.port.dma = 0xFF ∨ answer = none) :
    (readDma dev answer).fifo = dev.fifo ∧
      core (readDma dev answer).port =
        { core dev.port with
          timer := true
          state := if dev.port.dmaStat ≠ 0 ∨ dev.fifo.fifo.full = true then .writeFifo else dev.port.state } := by
  have hnone : (if dev.port.dma = 0xFF then none else answer) = none := by
    rcases h with h | h
    · exact if_pos h
    · rw [h, ite_self]
  unfold readDma
  rw [hnone]
  dsimp only
  split_ifs <;> exact ⟨rfl, rfl⟩

theorem readDma_some (hm : Marked 0x01 dev.fifo) (hdma : dev.port.dma ≠ 0xFF) (hroom : dev.fifo.fifo.full = false)
    (val : Byte) (tc : Bool) :
    Marked 0x01 (readDma dev (some (val, tc))).fifo ∧
      contents (readDma dev (some (val, tc))).fifo.fifo = contents dev.fifo.fifo ++ [val] ∧
        (readDma dev (some (val, tc))).fifo.fifo.len = dev.fifo.fifo.len ∧ ∃ dmaStat, dmaStat = (if tc then 0x08 else dev.port.dmaStat) ∧
          core (readDma dev (some (val, tc))).port =
            { core dev.port with
              timer := true, dmaStat := dmaStat
              state :=
                if dmaStat ≠ 0 ∨ (readDma dev (some (val, tc))).fifo.fifo.full = true then .writeFifo
                else dev.port.state } := by
  obtain ⟨hmarked, hcontents⟩ := @Marked.write _ events 0x01 val dev.fifo hm hroom dev.port
  have hport := core_write 0x01 val dev.fifo dev.port
  have hlen : (fifoWriteEvtTagged events 0x01 val dev.fifo dev.port).1.fifo.len = dev.fifo.fifo.len :=
    (write_room events val hroom dev.port).len
  obtain ⟨w, hw⟩ : ∃ w, w = fifoWriteEvtTagged events 0x01 val dev.fifo dev.port := ⟨_, rfl⟩
  rw [← hw] at hmarked hcontents hport hlen
  have hread : readDma dev (some (val, tc)) =
      let p := if tc then { w.2 with dmaStat := 0x08 } else w.2
      if p.dmaStat ≠ 0 ∨ w.1.fifo.full = true then
        ⟨{ p with timer := true, state := .writeFifo }, w.1⟩
      else ⟨{ p with timer := true }, w.1⟩ := by
    unfold readDma
    rw [if_neg hdma, hw]
  have hstate : w.2.state = dev.port.state := (core_get Port.state (fun _ => rfl) hport :)
  have hfifo : (readDma dev (some (val, tc))).fifo = w.1 := by
    rw [hread]
    dsimp only
    split_ifs <;> rfl
  rw [hfifo]
  refine ⟨hmarked, hcontents, hlen, _, rfl, ?_⟩
  have hcore (p : Port) (stat : Byte) (hp : core p = { core dev.port with dmaStat := stat }) :
      core (if p.dmaStat ≠ 0 ∨ w.1.fifo.full = true then (⟨{ p with timer := true, state := .writeFifo }, w.1⟩ : Lpt)
        else ⟨{ p with timer := true }, w.1⟩).port =
        { core dev.port with
          timer := true, dmaStat := stat
          state := if stat ≠ 0 ∨ w.1.fifo.full = true then .writeFifo else dev.port.state } := by
    have hpstat : p.dmaStat = stat := (core_get Port.dmaStat (fun _ => rfl) hp :)
    by_cases hdone : stat ≠ 0 ∨ w.1.fifo.full = true
    · rw [if_pos hdone, if_pos (by rwa [hpstat])]
      exact congrArg (fun p : Port => { p with timer := true, state := .writeFifo }) hp
    · rw [if_neg hdone, if_neg (by rwa [hpstat])]
      exact congrArg (fun p : Port => { p with timer := true }) hp
  rw [hread]
  refine hcore _ _ ?_
  cases tc with
  | true => exact congrArg (fun p : Port => { p with dmaStat := 0x08 }) hport
  | false => exact hport

theorem takeByte_some (hm : Marked 0x01 dev.fifo) (hc : Connected dev.port) (hany : dev.fifo.fifo.empty = false) :
    ∃ val, contents dev.fifo.fifo = val :: contents (takeByte dev).fifo.fifo ∧ Marked 0x01 (takeByte dev).fifo ∧
      core (takeByte dev).port =
        { core dev.port with
          told := dev.port.told ++ [.writeData val, .strobe dev.port.strobe true, .strobe true false]
          strobe := false } := by
  obtain ⟨val, htag, hval, hmarked, hcontents⟩ := @Marked.read _ events 0x01 dev.fifo hm hany dev.port
  have hport := core_read dev.fifo dev.port
  obtain ⟨r, hr⟩ : ∃ r, r = fifoReadEvtTagged events dev.fifo dev.port := ⟨_, rfl⟩
  rw [← hr] at htag hval hmarked hcontents hport
  have htake : takeByte dev = ⟨lptStrobe (lptStrobe (writeData r.2.2.2 val) true) false, r.2.2.1⟩ := by
    unfold takeByte
    rw [if_neg (by simp [hany]), ← hr]
    dsimp only
    rw [if_pos htag, hval]
  obtain ⟨hon, hdata, hstrobe⟩ : Connected r.2.2.2 := hc.of_core hport
  refine ⟨val, ?_, ?_, ?_⟩
  · rw [htake]
    exact hcontents
  · rw [htake]
    exact hmarked
  · have hwrite : writeData r.2.2.2 val = { r.2.2.2 with told := r.2.2.2.told ++ [.writeData val] } :=
      if_pos ⟨hon, hdata⟩
    rw [htake, hwrite]
    unfold lptStrobe
    dsimp only
    rw [if_pos ⟨hon, hstrobe⟩, if_pos ⟨hon, hstrobe⟩, List.append_assoc, List.append_assoc]
    have htold : r.2.2.2.told = dev.port.told := (core_get Port.told (fun _ => rfl) hport :)
    have hline : r.2.2.2.strobe = dev.port.strobe := (core_get Port.strobe (fun _ => rfl) hport :)
    rw [htold, hline]
    exact congrArg (fun p : Port => { p with
      told := dev.port.told ++ [Event.writeData val, .strobe dev.port.strobe true, .strobe true false], strobe := false })
        hport

theorem takeByte_none (hnone : dev.fifo.fifo.empty = true) : takeByte dev = dev := if_pos hnone

end

/-- The FIFO modes, and no test mode. -/
def FifoMode (ecr : Byte) : Prop := ecr &&& 0xC0 = 0x40

theorem FifoMode.not_test {ecr : Byte} (h : FifoMode ecr) : ecr &&& 0xE0 ≠ 0xC0 := by
  intro htest
  have hmasked := congrArg (· &&& (0xC0 : Byte)) htest
  simp only [BitVec.and_assoc] at hmasked
  exact absurd (h.symm.trans hmasked) (by decide)

structure Faithful (old : Bool) (t : Trace) : Prop where
  marked : Marked 0x01 t.dev.fifo
  connected : Connected t.dev.port
  mode : FifoMode t.dev.port.ecr
  told : t.dev.port.told = pulses old (sent t)
  line : t.dev.port.strobe = lineAfter old (sent t)
  order : sent t ++ contents t.dev.fifo.fifo = t.taken
  ended : t.dev.port.dmaStat ≠ 0 → ∃ e, t.ended = some e ∧ e ≤ t.taken.length ∧
    (t.dev.port.dmaStat &&& 0x04 ≠ 0 → e ≤ (sent t).length)

def Stage (dev : Lpt) : Prop :=
  match dev.port.state with
  | .idle => contents dev.fifo.fifo = []
  | .readDma => dev.port.timer = true ∧ dev.port.dmaStat = 0
  | .writeFifo => contents dev.fifo.fifo ≠ [] → dev.port.timer = true

structure Held (old : Bool) (t : Trace) : Prop where
  faithful : Faithful old t
  stage : Stage t.dev

section
variable {dev : Lpt}

theorem stage_idle (h : dev.port.state = .idle) : Stage dev ↔ contents dev.fifo.fifo = [] := by
  unfold Stage
  rw [h]

theorem stage_readDma (h : dev.port.state = .readDma) :
    Stage dev ↔ dev.port.timer = true ∧ dev.port.dmaStat = 0 := by
  unfold Stage
  rw [h]

theorem stage_writeFifo (h : dev.port.state = .writeFifo) :
    Stage dev ↔ (contents dev.fifo.fifo ≠ [] → dev.port.timer = true) := by
  unfold Stage
  rw [h]

end

section
variable {old : Bool} {t : Trace}

theorem sent_of {dev : Lpt} (h : dev.port.told = t.dev.port.told) (taken : List Byte) (ended : Option ℕ) :
    sent ⟨dev, taken, ended⟩ = sent t := congrArg sentOf h

theorem Faithful.frame (h : Faithful old t) {dev : Lpt} (hfifo : dev.fifo = t.dev.fifo)
    (hconnected : Connected dev.port) (hmode : FifoMode dev.port.ecr) (htold : dev.port.told = t.dev.port.told)
    (hline : dev.port.strobe = t.dev.port.strobe)
    (hstat : dev.port.dmaStat = t.dev.port.dmaStat ∨ dev.port.dmaStat = 0) :
    Faithful old ⟨dev, t.taken, t.ended⟩ := by
  have hsent := @sent_of t dev htold t.taken t.ended
  refine ⟨?_, hconnected, hmode, ?_, ?_, ?_, ?_⟩
  · change Marked 0x01 dev.fifo
    rw [hfifo]
    exact h.marked
  · rw [hsent]
    exact htold.trans h.told
  · rw [hsent]
    exact hline.trans h.line
  · rw [hsent]
    change _ ++ contents dev.fifo.fifo = _
    rw [hfifo]
    exact h.order
  · rw [hsent]
    rcases hstat with hstat | hstat
    · change dev.port.dmaStat ≠ 0 → ∃ e, t.ended = some e ∧ e ≤ t.taken.length ∧ (dev.port.dmaStat &&& 0x04 ≠ 0 → _)
      rw [hstat]
      exact h.ended
    · exact fun hdone => absurd hstat hdone

theorem Faithful.timed (h : Faithful old t) {dev : Lpt} (hfifo : dev.fifo = t.dev.fifo) {state : LptState} {timer : Bool}
    (hport : core dev.port = { core t.dev.port with state := state, timer := timer }) :
    Faithful old ⟨dev, t.taken, t.ended⟩ := by
  have hecr : dev.port.ecr = t.dev.port.ecr := (core_get Port.ecr (fun _ => rfl) hport :)
  have hmode := h.mode
  rw [← hecr] at hmode
  have hconnected : Connected dev.port :=
    h.connected.same (core_get Port.outputEnabled (fun _ => rfl) hport :) (core_get Port.dt (fun _ => rfl) hport :)
  exact h.frame hfifo hconnected hmode (core_get Port.told (fun _ => rfl) hport :)
    (core_get Port.strobe (fun _ => rfl) hport :) (.inl (core_get Port.dmaStat (fun _ => rfl) hport :))

theorem Faithful.taken (h : Faithful old t) {dev : Lpt} {val : Byte} (hmarked : Marked 0x01 dev.fifo)
    (hcontents : contents dev.fifo.fifo = contents t.dev.fifo.fifo ++ [val]) (hconnected : Connected dev.port)
    (hecr : dev.port.ecr = t.dev.port.ecr) (htold : dev.port.told = t.dev.port.told)
    (hline : dev.port.strobe = t.dev.port.strobe) {ended : Option ℕ}
    (hended : dev.port.dmaStat = t.dev.port.dmaStat ∧ ended = t.ended ∨
      dev.port.dmaStat = 0x08 ∧ ended = some (t.taken.length + 1)) :
    Faithful old ⟨dev, t.taken ++ [val], ended⟩ := by
  have hsent := @sent_of t dev htold (t.taken ++ [val]) ended
  refine ⟨hmarked, hconnected, ?_, ?_, ?_, ?_, ?_⟩
  · change FifoMode dev.port.ecr
    rw [hecr]
    exact h.mode
  · rw [hsent]
    exact htold.trans h.told
  · rw [hsent]
    exact hline.trans h.line
  · rw [hsent]
    change _ ++ contents dev.fifo.fifo = _
    rw [hcontents, ← List.append_assoc, h.order]
  · rw [hsent]
    intro hdone
    rcases hended with ⟨hstat, rfl⟩ | ⟨hstat, rfl⟩
    · change dev.port.dmaStat ≠ 0 at hdone
      rw [hstat] at hdone
      obtain ⟨e, he, hbefore, hout⟩ := h.ended hdone
      refine ⟨e, he, ?_, ?_⟩
      · rw [List.length_append]
        exact Nat.le_add_right_of_le hbefore
      · change dev.port.dmaStat &&& 0x04 ≠ 0 → _
        rw [hstat]
        exact hout
    · refine ⟨_, rfl, ?_, ?_⟩
      · rw [List.length_append]
        rfl
      · change dev.port.dmaStat &&& 0x04 ≠ 0 → _
        rw [hstat]
        exact fun hbad => absurd rfl hbad

theorem Faithful.out (h : Faithful old t) {dev : Lpt} {val : Byte} (hmarked : Marked 0x01 dev.fifo)
    (hcontents : contents t.dev.fifo.fifo = val :: contents dev.fifo.fifo)
    (hport : core dev.port =
      { core t.dev.port with
        told := t.dev.port.told ++ [.writeData val, .strobe t.dev.port.strobe true, .strobe true false]
        strobe := false }) :
    Faithful old ⟨dev, t.taken, t.ended⟩ := by
  have htold : dev.port.told =
      t.dev.port.told ++ [.writeData val, .strobe t.dev.port.strobe true, .strobe true false] :=
    (core_get Port.told (fun _ => rfl) hport :)
  have hecr : dev.port.ecr = t.dev.port.ecr := (core_get Port.ecr (fun _ => rfl) hport :)
  have hstat : dev.port.dmaStat = t.dev.port.dmaStat := (core_get Port.dmaStat (fun _ => rfl) hport :)
  have hsent : sent ⟨dev, t.taken, t.ended⟩ = sent t ++ [val] := by
    change sentOf dev.port.told = sentOf t.dev.port.told ++ [val]
    rw [htold]
    exact List.filterMap_append
  refine ⟨hmarked, ?_, ?_, ?_, ?_, ?_, ?_⟩
  · exact h.connected.same (core_get Port.outputEnabled (fun _ => rfl) hport :)
      (core_get Port.dt (fun _ => rfl) hport :)
  · change FifoMode dev.port.ecr
    rw [hecr]
    exact h.mode
  · rw [hsent, pulses_snoc, ← h.told, ← h.line]
    exact htold
  · rw [hsent]
    unfold lineAfter
    rw [if_neg (List.concat_ne_nil _ _)]
    exact (core_get Port.strobe (fun _ => rfl) hport :)
  · rw [hsent, List.append_assoc]
    have horder := h.order
    rwa [hcontents] at horder
  · rw [hsent]
    intro hdone
    change dev.port.dmaStat ≠ 0 at hdone
    rw [hstat] at hdone
    obtain ⟨e, he, hbefore, hout⟩ := h.ended hdone
    refine ⟨e, he, hbefore, fun hflag => ?_⟩
    change dev.port.dmaStat &&& 0x04 ≠ 0 at hflag
    rw [hstat] at hflag
    rw [List.length_append]
    exact Nat.le_add_right_of_le (hout hflag)

theorem Faithful.told_over (h : Faithful old t) (hnone : contents t.dev.fifo.fifo = [])
    (hstat : t.dev.port.dmaStat ≠ 0) :
    Held old ⟨{ t.dev with port := lptEcpUpdateIrq { t.dev.port with dmaStat := 0x04, state := .idle } }, t.taken,
      t.ended⟩ := by
  have hport := core_irq { t.dev.port with dmaStat := 0x04, state := .idle }
  obtain ⟨p, hp⟩ : ∃ p, p = lptEcpUpdateIrq { t.dev.port with dmaStat := 0x04, state := .idle } := ⟨_, rfl⟩
  rw [← hp] at hport ⊢
  have htold : p.told = t.dev.port.told := (core_get Port.told (fun _ => rfl) hport :)
  have hecr : p.ecr = t.dev.port.ecr := (core_get Port.ecr (fun _ => rfl) hport :)
  have hstate : p.state = .idle := (core_get Port.state (fun _ => rfl) hport :)
  have hline : p.strobe = t.dev.port.strobe := (core_get Port.strobe (fun _ => rfl) hport :)
  have hsent := @sent_of t { t.dev with port := p } htold t.taken t.ended
  refine ⟨⟨h.marked, ?_, ?_, ?_, ?_, ?_, ?_⟩, ?_⟩
  · exact h.connected.same (core_get Port.outputEnabled (fun _ => rfl) hport :)
      (core_get Port.dt (fun _ => rfl) hport :)
  · change FifoMode p.ecr
    rw [hecr]
    exact h.mode
  · rw [hsent]
    exact htold.trans h.told
  · rw [hsent]
    exact hline.trans h.line
  · rw [hsent]
    exact h.order
  · rw [hsent]
    obtain ⟨e, he, hbefore, -⟩ := h.ended hstat
    have horder := h.order
    rw [hnone, List.append_nil] at horder
    refine fun _ => ⟨e, he, hbefore, fun _ => ?_⟩
    rwa [horder]
  · refine (stage_idle ?_).mpr hnone
    exact hstate

theorem rearm_held (h : Faithful old t) (hstate : t.dev.port.state = .writeFifo) :
    Held old ⟨rearm t.dev, t.taken, t.ended⟩ := by
  have hempty := h.marked.sound.empty_iff
  unfold rearm
  split_ifs with hdma hnone hstat hnone
  · exact h.told_over (hempty.mp hnone) hstat
  · refine ⟨h.timed rfl rfl, ?_⟩
    exact (stage_readDma rfl).mpr ⟨rfl, not_not.mp hstat⟩
  · refine ⟨h.timed rfl rfl, ?_⟩
    refine (stage_writeFifo ?_).mpr fun _ => rfl
    exact hstate
  · refine ⟨h, ?_⟩
    exact (stage_writeFifo hstate).mpr fun hany => absurd (hempty.mp hnone) hany
  · refine ⟨h.timed rfl rfl, ?_⟩
    refine (stage_writeFifo ?_).mpr fun _ => rfl
    exact hstate

theorem takeByte_faithful (h : Faithful old t) :
    Faithful old ⟨takeByte t.dev, t.taken, t.ended⟩ ∧ (takeByte t.dev).port.state = t.dev.port.state := by
  cases hany : t.dev.fifo.fifo.empty with
  | true =>
    rw [takeByte_none hany]
    exact ⟨h, rfl⟩
  | false =>
    obtain ⟨val, hcontents, hmarked, hport⟩ := takeByte_some h.marked h.connected hany
    exact ⟨h.out hmarked hcontents hport, (core_get Port.state (fun _ => rfl) hport :)⟩

/-- A step on which no byte is lost or left behind: none is fetched into a full FIFO, and none is written while
nothing moves the FIFO. -/
def Kept (dev : Lpt) : Op → Prop
  | .dataFifo _ => Accepts dev → dev.port.state ≠ .idle
  | .tick (some _) => Asks dev → dev.fifo.fifo.full = false
  | _ => True

def Stays : Op → Prop
  | .ecr val => FifoMode val
  | _ => True

theorem requested_stage {dev : Lpt} (htimer : dev.port.timer = true)
    (hstate : dev.port.state =
      if dev.port.dmaStat ≠ 0 ∨ dev.fifo.fifo.full = true then LptState.writeFifo else .readDma) : Stage dev := by
  by_cases hdone : dev.port.dmaStat ≠ 0 ∨ dev.fifo.fifo.full = true
  · rw [if_pos hdone] at hstate
    exact (stage_writeFifo hstate).mpr fun _ => htimer
  · rw [if_neg hdone] at hstate
    exact (stage_readDma hstate).mpr ⟨htimer, not_not.mp (not_or.mp hdone).1⟩

theorem request_held (h : Faithful old t) (hstate : t.dev.port.state = .readDma) (answer : Option (Byte × Bool))
    (hroom : t.dev.port.dma ≠ 0xFF → answer.isSome = true → t.dev.fifo.fifo.full = false) {taken : List Byte}
    {ended : Option ℕ}
    (htaken : taken = t.taken ++ if t.dev.port.dma = 0xFF then [] else (answer.map Prod.fst).toList)
    (hended : ended =
      if t.dev.port.dma ≠ 0xFF ∧ (answer.map Prod.snd) = some true then some (t.taken.length + 1) else t.ended) :
    Held old ⟨readDma t.dev answer, taken, ended⟩ := by
  by_cases hdma : t.dev.port.dma = 0xFF ∨ answer = none
  · obtain ⟨hfifo, hport⟩ := readDma_none hdma
    have hnothing : taken = t.taken ∧ ended = t.ended := by
      rw [htaken, hended]
      rcases hdma with hdma | hdma
      · simp [hdma]
      · simp [hdma]
    obtain ⟨rfl, rfl⟩ := hnothing
    refine ⟨h.timed hfifo hport, requested_stage (core_get Port.timer (fun _ => rfl) hport :) ?_⟩
    have hstat : (readDma t.dev answer).port.dmaStat = t.dev.port.dmaStat :=
      (core_get Port.dmaStat (fun _ => rfl) hport :)
    change (readDma t.dev answer).port.state =
      if (readDma t.dev answer).port.dmaStat ≠ 0 ∨ (readDma t.dev answer).fifo.fifo.full = true then _ else _
    rw [hstat, hfifo, ← hstate]
    exact (core_get Port.state (fun _ => rfl) hport :)
  · obtain ⟨hchannel, hsome⟩ := not_or.mp hdma
    obtain ⟨⟨val, tc⟩, rfl⟩ := Option.ne_none_iff_exists'.mp hsome
    obtain ⟨hmarked, hcontents, -, dmaStat, hover, hport⟩ :=
      readDma_some h.marked hchannel (hroom hchannel rfl) val tc
    have hstat : (readDma t.dev (some (val, tc))).port.dmaStat = dmaStat :=
      (core_get Port.dmaStat (fun _ => rfl) hport :)
    have hconnected : Connected (readDma t.dev (some (val, tc))).port :=
      h.connected.same (core_get Port.outputEnabled (fun _ => rfl) hport :) (core_get Port.dt (fun _ => rfl) hport :)
    have hnew : taken = t.taken ++ [val] := by
      rw [htaken, if_neg hchannel]
      rfl
    rw [hnew]
    refine ⟨h.taken hmarked hcontents hconnected (core_get Port.ecr (fun _ => rfl) hport :)
      (core_get Port.told (fun _ => rfl) hport :) (core_get Port.strobe (fun _ => rfl) hport :) ?_,
      requested_stage (core_get Port.timer (fun _ => rfl) hport :) ?_⟩
    · rw [hstat, hover, hended]
      cases tc with
      | true => exact .inr ⟨rfl, if_pos ⟨hchannel, rfl⟩⟩
      | false => exact .inl ⟨rfl, if_neg fun hbad => absurd hbad.2 (by simp)⟩
    · change (readDma t.dev (some (val, tc))).port.state =
        if (readDma t.dev (some (val, tc))).port.dmaStat ≠ 0 ∨ _ then _ else _
      rw [hstat, ← hstate]
      exact (core_get Port.state (fun _ => rfl) hport :)

theorem tick_held (h : Held old t) (htimer : t.dev.port.timer = true) {answer : Option (Byte × Bool)}
    (hkept : Kept t.dev (.tick answer)) : Held old (next t (.tick answer)) := by
  have hmode := h.faithful.mode.not_test
  have hstart : Faithful old ⟨{ t.dev with port := { t.dev.port with timer := false } }, t.taken, t.ended⟩ :=
    h.faithful.timed rfl rfl
  have hcallback : timerTick t.dev answer =
      lptFifoOutCallback { t.dev with port := { t.dev.port with timer := false } } answer := if_pos htimer
  obtain ⟨dev, hdev⟩ : ∃ dev : Lpt, dev = { t.dev with port := { t.dev.port with timer := false } } := ⟨_, rfl⟩
  rw [← hdev] at hstart hcallback
  have hsame : dev.port.state = t.dev.port.state ∧ dev.port.dma = t.dev.port.dma ∧ dev.fifo = t.dev.fifo ∧
      dev.port.dmaStat = t.dev.port.dmaStat := by
    rw [hdev]
    exact ⟨rfl, rfl, rfl, rfl⟩
  obtain ⟨hstate, hdma, hfifo, hstat⟩ := hsame
  have hgate : lptFifoOutCallback dev answer =
      match dev.port.state with
      | .idle => dev
      | .readDma => readDma dev answer
      | .writeFifo => rearm (takeByte dev) := by
    refine if_neg ?_
    rw [hdev]
    exact hmode
  rw [hstate] at hgate
  have hidle (hnot : t.dev.port.state ≠ .readDma) : takes t.dev (.tick answer) = [] ∧ endOf t (.tick answer) = t.ended := by
    have hasks : ¬Asks t.dev := fun hbad => hnot hbad.2.2.1
    rcases answer with _ | ⟨val, _ | _⟩
    · exact ⟨rfl, rfl⟩
    · exact ⟨if_neg hasks, rfl⟩
    · exact ⟨if_neg hasks, if_neg hasks⟩
  cases hs : t.dev.port.state with
  | idle =>
    obtain ⟨htakes, hend⟩ := hidle (by simp [hs])
    rw [hs] at hgate
    have hnext : next t (.tick answer) = ⟨dev, t.taken, t.ended⟩ := by
      unfold next
      rw [htakes, hend, List.append_nil]
      exact congrArg (Trace.mk · t.taken t.ended) (hcallback.trans hgate)
    rw [hnext]
    refine ⟨hstart, (stage_idle (hstate.trans hs)).mpr ?_⟩
    rw [hfifo]
    exact (stage_idle hs).mp h.stage
  | writeFifo =>
    obtain ⟨htakes, hend⟩ := hidle (by simp [hs])
    rw [hs] at hgate
    have hnext : next t (.tick answer) = ⟨rearm (takeByte dev), t.taken, t.ended⟩ := by
      unfold next
      rw [htakes, hend, List.append_nil]
      exact congrArg (Trace.mk · t.taken t.ended) (hcallback.trans hgate)
    obtain ⟨htaken, hstill⟩ := takeByte_faithful hstart
    rw [hnext]
    exact rearm_held htaken (hstill.trans (hstate.trans hs))
  | readDma =>
    rw [hs] at hgate
    have hasks : Asks t.dev ↔ t.dev.port.dma ≠ 0xFF := ⟨fun h => h.2.2.2, fun h => ⟨htimer, hmode, hs, h⟩⟩
    have hnext : next t (.tick answer) =
        ⟨readDma dev answer, t.taken ++ takes t.dev (.tick answer), endOf t (.tick answer)⟩ :=
      congrArg (Trace.mk · _ _) (hcallback.trans hgate)
    rw [hnext]
    refine request_held hstart (hstate.trans hs) answer (fun hchannel hsome => ?_) ?_ ?_
    · change dev.port.dma ≠ 0xFF at hchannel
      rw [hdma] at hchannel
      change dev.fifo.fifo.full = false
      rw [hfifo]
      obtain ⟨byte, rfl⟩ := Option.isSome_iff_exists.mp hsome
      exact hkept (hasks.mpr hchannel)
    · change _ = t.taken ++ if dev.port.dma = 0xFF then [] else _
      rw [hdma]
      rcases answer with _ | ⟨val, tc⟩
      · simp [takes]
      · by_cases hchannel : t.dev.port.dma = 0xFF
        · rw [if_pos hchannel]
          exact congrArg _ (if_neg (hasks.not.mpr (not_not_intro hchannel)))
        · rw [if_neg hchannel]
          exact congrArg _ (if_pos (hasks.mpr hchannel))
    · change _ = if dev.port.dma ≠ 0xFF ∧ _ then some (t.taken.length + 1) else t.ended
      rw [hdma]
      rcases answer with _ | ⟨val, _ | _⟩
      · simp [endOf]
      · simp [endOf]
      · by_cases hchannel : t.dev.port.dma = 0xFF
        · rw [if_neg fun hbad => hbad.1 hchannel]
          exact if_neg (hasks.not.mpr (not_not_intro hchannel))
        · rw [if_pos ⟨hchannel, rfl⟩]
          exact if_pos (hasks.mpr hchannel)

theorem tick_off (h : Held old t) (htimer : t.dev.port.timer = false) (answer : Option (Byte × Bool)) :
    Held old (next t (.tick answer)) := by
  have hasks : ¬Asks t.dev := fun hbad => absurd hbad.1 (by simp [htimer])
  have hnext : next t (.tick answer) = t := by
    have hstep : step t.dev (.tick answer) = t.dev := if_neg (by simp [htimer])
    unfold next
    rw [hstep]
    rcases answer with _ | ⟨val, _ | _⟩
    · simp [takes, endOf]
    · simp [takes, endOf, hasks]
    · simp [takes, endOf, hasks]
  rw [hnext]
  exact h

theorem dataFifo_held (h : Held old t) (val : Byte) (hkept : Kept t.dev (.dataFifo val)) :
    Held old (next t (.dataFifo val)) := by
  by_cases haccepts : Accepts t.dev
  · obtain ⟨hmarked, hcontents, hport⟩ := writeFifo_room h.faithful.marked haccepts.1 val
    have htakes : takes t.dev (.dataFifo val) = [val] := if_pos haccepts
    have hnext : next t (.dataFifo val) = ⟨lptWriteFifo t.dev val 0x01, t.taken ++ [val], t.ended⟩ := by
      unfold next
      rw [htakes]
      exact congrArg (Trace.mk · _ _) (write0400_accepts haccepts val)
    have hconnected : Connected (lptWriteFifo t.dev val 0x01).port :=
      h.faithful.connected.same (core_get Port.outputEnabled (fun _ => rfl) hport :)
        (core_get Port.dt (fun _ => rfl) hport :)
    have htimer : (lptWriteFifo t.dev val 0x01).port.timer = true := (core_get Port.timer (fun _ => rfl) hport :)
    have hstate : (lptWriteFifo t.dev val 0x01).port.state = t.dev.port.state :=
      (core_get Port.state (fun _ => rfl) hport :)
    have hstat : (lptWriteFifo t.dev val 0x01).port.dmaStat = t.dev.port.dmaStat :=
      (core_get Port.dmaStat (fun _ => rfl) hport :)
    rw [hnext]
    refine ⟨h.faithful.taken hmarked hcontents hconnected (core_get Port.ecr (fun _ => rfl) hport :)
      (core_get Port.told (fun _ => rfl) hport :) (core_get Port.strobe (fun _ => rfl) hport :) (.inl ⟨hstat, rfl⟩), ?_⟩
    cases hs : t.dev.port.state with
    | idle => exact absurd hs (hkept haccepts)
    | readDma => exact (stage_readDma (hstate.trans hs)).mpr ⟨htimer, hstat.trans ((stage_readDma hs).mp h.stage).2⟩
    | writeFifo => exact (stage_writeFifo (hstate.trans hs)).mpr fun _ => htimer
  · have htakes : takes t.dev (.dataFifo val) = [] := if_neg haccepts
    have hnext : next t (.dataFifo val) = t := by
      unfold next
      rw [htakes, List.append_nil]
      exact congrArg (Trace.mk · _ _) (write0400_refuses haccepts val)
    rw [hnext]
    exact h

theorem write0402_spec (dev : Lpt) {val : Byte} (hval : FifoMode val) :
    (lptWrite0402 dev val).fifo = dev.fifo ∧ ∃ ecr dmaStat state,
      core (lptWrite0402 dev val).port =
          { core dev.port with ecr := ecr, retEcr := val, timer := true, dmaStat := dmaStat, state := state } ∧
        (ecr = val ∨ ecr = dev.port.ecr) ∧
          (dmaStat = 0 ∧ state = .readDma ∨
            dmaStat = dev.port.dmaStat ∧ (state = .writeFifo ∨ state = dev.port.state)) := by
  have hselect : ∃ dmaStat state,
      selectMode dev val =
          { dev with port := { dev.port with timer := true, dmaStat := dmaStat, state := state } } ∧
        (dmaStat = 0 ∧ state = .readDma ∨
          dmaStat = dev.port.dmaStat ∧ (state = .writeFifo ∨ state = dev.port.state)) := by
    unfold selectMode
    rw [if_pos (show val &&& 0xC0 = 0x40 from hval)]
    dsimp only
    split_ifs
    · exact ⟨_, _, rfl, .inl ⟨rfl, rfl⟩⟩
    · exact ⟨_, _, rfl, .inr ⟨rfl, .inl rfl⟩⟩
    · exact ⟨_, _, rfl, .inr ⟨rfl, .inr rfl⟩⟩
  obtain ⟨dmaStat, state, hselected, hmoved⟩ := hselect
  have hwrite : lptWrite0402 dev val =
      ⟨lptFifoDReadyEvt dev.fifo.fifo
        (storeEcr { dev.port with timer := true, dmaStat := dmaStat, state := state } val), dev.fifo⟩ := by
    unfold lptWrite0402
    rw [hselected]
  have hmode (m : Byte) (hm : m &&& 0xC0 ≠ 0x40) : val &&& 0xE0 ≠ m := by
    rintro rfl
    rw [BitVec.and_assoc] at hm
    exact hm hval
  rw [hwrite]
  refine ⟨rfl, _, dmaStat, state, core_ready _ _, ?_, hmoved⟩
  change (if dev.port.extRegs2 &&& 0x80 ≠ 0 then val else _) = val ∨ (if _ then val else _) = dev.port.ecr
  split_ifs with hext hother
  · exact .inl rfl
  · rcases hother with hother | hother | hother
    · exact absurd hother (hmode _ (by decide))
    · exact absurd hother (hmode _ (by decide))
    · exact absurd hother (hmode _ (by decide))
  · exact .inr rfl

theorem ecr_held (h : Held old t) {val : Byte} (hval : FifoMode val) : Held old (next t (.ecr val)) := by
  obtain ⟨hfifo, ecr, dmaStat, state, hport, hecr, hmoved⟩ := write0402_spec t.dev hval
  have hnext : next t (.ecr val) = ⟨lptWrite0402 t.dev val, t.taken, t.ended⟩ :=
    congrArg (Trace.mk _ · _) (List.append_nil _)
  have hnewecr : (lptWrite0402 t.dev val).port.ecr = ecr := (core_get Port.ecr (fun _ => rfl) hport :)
  have hstat : (lptWrite0402 t.dev val).port.dmaStat = dmaStat := (core_get Port.dmaStat (fun _ => rfl) hport :)
  have hstate : (lptWrite0402 t.dev val).port.state = state := (core_get Port.state (fun _ => rfl) hport :)
  have htimer : (lptWrite0402 t.dev val).port.timer = true := (core_get Port.timer (fun _ => rfl) hport :)
  have hmode : FifoMode (lptWrite0402 t.dev val).port.ecr := by
    rw [hnewecr]
    rcases hecr with rfl | rfl
    · exact hval
    · exact h.faithful.mode
  have hconnected : Connected (lptWrite0402 t.dev val).port :=
    h.faithful.connected.same (core_get Port.outputEnabled (fun _ => rfl) hport :)
      (core_get Port.dt (fun _ => rfl) hport :)
  rw [hnext]
  refine ⟨h.faithful.frame hfifo hconnected hmode (core_get Port.told (fun _ => rfl) hport :)
    (core_get Port.strobe (fun _ => rfl) hport :) ?_, ?_⟩
  · rw [hstat]
    exact hmoved.symm.imp And.left And.left
  · rcases hmoved with ⟨hclear, rfl⟩ | ⟨hsame, rfl | rfl⟩
    · exact (stage_readDma hstate).mpr ⟨htimer, hstat.trans hclear⟩
    · exact (stage_writeFifo hstate).mpr fun _ => htimer
    · cases hs : t.dev.port.state with
      | idle =>
        refine (stage_idle (hstate.trans hs)).mpr ?_
        rw [hfifo]
        exact (stage_idle hs).mp h.stage
      | readDma =>
        exact (stage_readDma (hstate.trans hs)).mpr
          ⟨htimer, hstat.trans (hsame.trans ((stage_readDma hs).mp h.stage).2)⟩
      | writeFifo => exact (stage_writeFifo (hstate.trans hs)).mpr fun _ => htimer

theorem readStatus_held (h : Held old t) : Held old (next t .readStatus) := by
  have hread : core (lptReadStatus t.dev.port).2 = core t.dev.port := by
    unfold lptReadStatus
    by_cases hext : t.dev.port.ext = true
    · rw [if_pos hext]
      dsimp only
      split <;> rfl
    · rw [if_neg hext]
      dsimp only
      split <;> rfl
  have hnext : next t .readStatus = ⟨{ t.dev with port := (lptReadStatus t.dev.port).2 }, t.taken, t.ended⟩ :=
    congrArg (Trace.mk _ · _) (List.append_nil _)
  obtain ⟨p, hp⟩ : ∃ p, p = (lptReadStatus t.dev.port).2 := ⟨_, rfl⟩
  rw [← hp] at hread hnext
  have hstate : p.state = t.dev.port.state := (core_get Port.state (fun _ => rfl) hread :)
  have htimer : p.timer = t.dev.port.timer := (core_get Port.timer (fun _ => rfl) hread :)
  have hstat : p.dmaStat = t.dev.port.dmaStat := (core_get Port.dmaStat (fun _ => rfl) hread :)
  rw [hnext]
  refine ⟨h.faithful.timed rfl hread, ?_⟩
  have hstage := h.stage
  unfold Stage at hstage ⊢
  dsimp only
  rwa [hstate, htimer, hstat]

theorem next_held (h : Held old t) {op : Op} (hstays : Stays op) (hkept : Kept t.dev op) : Held old (next t op) := by
  cases op with
  | dataFifo val => exact dataFifo_held h val hkept
  | ecr val => exact ecr_held h hstays
  | tick answer =>
    cases htimer : t.dev.port.timer with
    | true => exact tick_held h htimer hkept
    | false => exact tick_off h htimer answer
  | readStatus => exact readStatus_held h
  | readEcr =>
    have hnext : next t .readEcr = t := congrArg (Trace.mk _ · _) (List.append_nil _)
    rw [hnext]
    exact h

/-- Every access stays in the FIFO modes and every step is kept. -/
def Orderly (t : Trace) : List Op → Prop
  | [] => True
  | op :: ops => Stays op ∧ Kept t.dev op ∧ Orderly (next t op) ops

theorem run_held {ops : List Op} (h : Held old t) (hops : Orderly t ops) : Held old (run t ops) := by
  induction ops generalizing t with
  | nil => exact h
  | cons op ops ih =>
    obtain ⟨hstays, hkept, hrest⟩ := hops
    exact ih (next_held h hstays hkept) hrest

end

/-- The FIFO is empty and no transfer is under way. -/
structure Fresh (dev : Lpt) : Prop where
  sound : Sound dev.fifo.fifo
  empty : contents dev.fifo.fifo = []
  idle : dev.port.state = .idle
  dmaStat : dev.port.dmaStat = 0
  told : dev.port.told = []

/-- A port on its way into a FIFO mode. -/
def entered (dev : Lpt) (val : Byte) : Trace := ⟨lptWrite0402 dev val, [], none⟩

theorem entered_held {dev : Lpt} (h : Fresh dev) (hconnected : Connected dev.port) {val : Byte} (hval : FifoMode val)
    (hecr : FifoMode (entered dev val).dev.port.ecr) : Held dev.port.strobe (entered dev val) := by
  obtain ⟨hfifo, ecr, dmaStat, state, hport, -, hmoved⟩ := write0402_spec dev hval
  have htold : (lptWrite0402 dev val).port.told = [] := by
    have hsame : (lptWrite0402 dev val).port.told = dev.port.told := (core_get Port.told (fun _ => rfl) hport :)
    exact hsame.trans h.told
  have hstat : (lptWrite0402 dev val).port.dmaStat = dmaStat := (core_get Port.dmaStat (fun _ => rfl) hport :)
  have hstate : (lptWrite0402 dev val).port.state = state := (core_get Port.state (fun _ => rfl) hport :)
  have htimer : (lptWrite0402 dev val).port.timer = true := (core_get Port.timer (fun _ => rfl) hport :)
  have hline : (lptWrite0402 dev val).port.strobe = dev.port.strobe := (core_get Port.strobe (fun _ => rfl) hport :)
  have hsent : sent (entered dev val) = [] := by
    unfold sent
    change sentOf (lptWrite0402 dev val).port.told = []
    rw [htold]
    rfl
  have hcontents : contents (entered dev val).dev.fifo.fifo = [] := by
    change contents (lptWrite0402 dev val).fifo.fifo = []
    rw [hfifo]
    exact h.empty
  have hzero : dmaStat = 0 := by
    rcases hmoved with ⟨hzero, -⟩ | ⟨hsame, -⟩
    · exact hzero
    · exact hsame.trans h.dmaStat
  refine ⟨⟨?_, ?_, hecr, ?_, ?_, ?_, ?_⟩, ?_⟩
  · refine marked_empty ?_ hcontents
    change Sound (lptWrite0402 dev val).fifo.fifo
    rw [hfifo]
    exact h.sound
  · exact hconnected.same (core_get Port.outputEnabled (fun _ => rfl) hport :)
      (core_get Port.dt (fun _ => rfl) hport :)
  · rw [hsent]
    exact htold
  · rw [hsent]
    exact hline
  · rw [hsent, hcontents]
    rfl
  · exact fun hdone => absurd (hstat.trans hzero) hdone
  · rcases hmoved with ⟨-, rfl⟩ | ⟨-, rfl | rfl⟩
    · exact (stage_readDma hstate).mpr ⟨htimer, hstat.trans hzero⟩
    · exact (stage_writeFifo hstate).mpr fun _ => htimer
    · exact (stage_idle (hstate.trans h.idle)).mpr hcontents

section
variable {old : Bool} {t : Trace}

theorem ticks_add (t : Trace) (answers : ℕ → Option (Byte × Bool)) (m n : ℕ) :
    ticks t answers (m + n) = ticks (ticks t answers m) (fun i => answers (m + i)) n := by
  induction n with
  | zero => rfl
  | succ n ih => exact congrArg (next · (.tick (answers (m + n)))) ih

theorem tick_unasked (h : ¬Asks t.dev) (answer : Option (Byte × Bool)) :
    Kept t.dev (.tick answer) ∧ (next t (.tick answer)).taken = t.taken := by
  rcases answer with _ | ⟨val, tc⟩
  · exact ⟨trivial, List.append_nil _⟩
  · refine ⟨fun hasks => absurd hasks h, ?_⟩
    change t.taken ++ (if Asks t.dev then [val] else []) = t.taken
    rw [if_neg h, List.append_nil]

theorem drain_tick (h : Held old t) (hstate : t.dev.port.state = .writeFifo) (hany : contents t.dev.fifo.fifo ≠ [])
    (answer : Option (Byte × Bool)) :
    Held old (next t (.tick answer)) ∧ (next t (.tick answer)).taken = t.taken ∧
      (contents (next t (.tick answer)).dev.fifo.fifo).length + 1 = (contents t.dev.fifo.fifo).length ∧
        (contents (next t (.tick answer)).dev.fifo.fifo ≠ [] →
          (next t (.tick answer)).dev.port.state = .writeFifo) := by
  have hasks : ¬Asks t.dev := fun hbad => by
    have hreading := hbad.2.2.1
    rw [hstate] at hreading
    exact absurd hreading (by decide)
  obtain ⟨hkept, htaken⟩ := tick_unasked hasks answer
  have htimer := (stage_writeFifo hstate).mp h.stage hany
  have hempty := h.faithful.marked.sound.empty_iff
  have hsome : t.dev.fifo.fifo.empty = false := by
    cases hnone : t.dev.fifo.fifo.empty with
    | true => exact absurd (hempty.mp hnone) hany
    | false => rfl
  refine ⟨tick_held h htimer hkept, htaken, ?_⟩
  obtain ⟨dev, hdev⟩ : ∃ dev : Lpt, dev = { t.dev with port := { t.dev.port with timer := false } } := ⟨_, rfl⟩
  have hstep : (next t (.tick answer)).dev = rearm (takeByte dev) := by
    have hcallback : timerTick t.dev answer = lptFifoOutCallback dev answer := by
      rw [hdev]
      exact if_pos htimer
    have hgate : lptFifoOutCallback dev answer = rearm (takeByte dev) := by
      unfold lptFifoOutCallback
      rw [hdev, if_neg h.faithful.mode.not_test]
      dsimp only
      rw [hstate]
    exact hcallback.trans hgate
  have hmarked : Marked 0x01 dev.fifo := by
    rw [hdev]
    exact h.faithful.marked
  have hconnected : Connected dev.port := by
    rw [hdev]
    exact h.faithful.connected
  have hready : dev.fifo.fifo.empty = false := by
    rw [hdev]
    exact hsome
  obtain ⟨val, hcontents, hmid, hport⟩ := takeByte_some hmarked hconnected hready
  have hfifo : (rearm (takeByte dev)).fifo = (takeByte dev).fifo := by
    unfold rearm
    split_ifs <;> rfl
  have hstay : (takeByte dev).port.state = .writeFifo := by
    have hsame : (takeByte dev).port.state = dev.port.state := (core_get Port.state (fun _ => rfl) hport :)
    rw [hsame, hdev]
    exact hstate
  have hbefore : contents t.dev.fifo.fifo = contents dev.fifo.fifo := by rw [hdev]
  rw [hstep, hfifo, hbefore, hcontents]
  refine ⟨rfl, fun hmore => ?_⟩
  have hwaiting : ¬(takeByte dev).fifo.fifo.empty = true := fun hnone => hmore (hmid.sound.empty_iff.mp hnone)
  unfold rearm
  rw [if_neg hwaiting, if_neg hwaiting]
  split_ifs
  · exact hstay
  · exact hstay

theorem drained (h : Held old t) (hstate : t.dev.port.state = .writeFifo) (answers : ℕ → Option (Byte × Bool)) :
    ∃ n, t.taken = sent (ticks t answers n) := by
  obtain ⟨n, hn⟩ : ∃ n, n = (contents t.dev.fifo.fifo).length := ⟨_, rfl⟩
  have hall (i : ℕ) (hi : i ≤ n) : Held old (ticks t answers i) ∧ (ticks t answers i).taken = t.taken ∧
      (contents (ticks t answers i).dev.fifo.fifo).length + i = n ∧
        (contents (ticks t answers i).dev.fifo.fifo ≠ [] → (ticks t answers i).dev.port.state = .writeFifo) := by
    induction i with
    | zero => exact ⟨h, rfl, hn.symm, fun _ => hstate⟩
    | succ i ih =>
      obtain ⟨hheld, htaken, hleft, hwriting⟩ := ih (by omega)
      have hany : contents (ticks t answers i).dev.fifo.fifo ≠ [] := by
        intro hnone
        rw [hnone] at hleft
        change 0 + i = n at hleft
        omega
      obtain ⟨hnext, hsame, hfewer, hwriting'⟩ := drain_tick hheld (hwriting hany) hany (answers i)
      refine ⟨hnext, hsame.trans htaken, ?_, hwriting'⟩
      change (contents (next (ticks t answers i) (.tick (answers i))).dev.fifo.fifo).length + (i + 1) = n
      omega
  obtain ⟨hheld, htaken, hleft, -⟩ := hall n (Nat.le_refl n)
  have hnone : contents (ticks t answers n).dev.fifo.fifo = [] := List.length_eq_zero_iff.mp (by omega)
  have horder := hheld.faithful.order
  rw [hnone, List.append_nil] at horder
  exact ⟨n, (horder.trans htaken).symm⟩

theorem fetch_tick (h : Held old t) (hstate : t.dev.port.state = .readDma) {answer : Option (Byte × Bool)}
    (hdma : t.dev.port.dma ≠ 0xFF) (hkept : Kept t.dev (.tick answer)) :
    Held old (next t (.tick answer)) ∧ t.taken <+: (next t (.tick answer)).taken ∧
      ((next t (.tick answer)).dev.port.state = .writeFifo ∨ (next t (.tick answer)).dev.port.state = .readDma) ∧
        (next t (.tick answer)).dev.port.dma ≠ 0xFF ∧
          (next t (.tick answer)).dev.fifo.fifo.len = t.dev.fifo.fifo.len ∧
            (contents (next t (.tick answer)).dev.fifo.fifo).length =
              (contents t.dev.fifo.fifo).length + if answer.isSome then 1 else 0 := by
  have htimer := ((stage_readDma hstate).mp h.stage).1
  have hmode := h.faithful.mode.not_test
  refine ⟨tick_held h htimer hkept, List.prefix_append _ _, ?_⟩
  obtain ⟨dev, hdev⟩ : ∃ dev : Lpt, dev = { t.dev with port := { t.dev.port with timer := false } } := ⟨_, rfl⟩
  have hstep : (next t (.tick answer)).dev = readDma dev answer := by
    have hcallback : timerTick t.dev answer = lptFifoOutCallback dev answer := by
      rw [hdev]
      exact if_pos htimer
    have hgate : lptFifoOutCallback dev answer = readDma dev answer := by
      unfold lptFifoOutCallback
      rw [hdev, if_neg hmode]
      dsimp only
      rw [hstate]
    exact hcallback.trans hgate
  have hsame : dev.fifo = t.dev.fifo ∧ dev.port.dma = t.dev.port.dma ∧ dev.port.state = .readDma := by
    rw [hdev]
    exact ⟨rfl, rfl, hstate⟩
  obtain ⟨hfifo, hchannel, hreading⟩ := hsame
  rw [hstep, ← hfifo]
  rcases answer with _ | ⟨val, tc⟩
  · obtain ⟨hkeep, hport⟩ := @readDma_none dev none (.inr rfl)
    have hnew : (readDma dev none).port.state = _ := (core_get Port.state (fun _ => rfl) hport :)
    have hdma' : (readDma dev none).port.dma = dev.port.dma := (core_get Port.dma (fun _ => rfl) hport :)
    rw [hnew, hkeep, hdma', hchannel]
    refine ⟨?_, hdma, rfl, rfl⟩
    change (if _ then LptState.writeFifo else dev.port.state) = _ ∨ (if _ then LptState.writeFifo else dev.port.state) = _
    rw [hreading]
    split_ifs
    · exact .inl rfl
    · exact .inr rfl
  · have hroom : dev.fifo.fifo.full = false := by
      rw [hfifo]
      exact hkept ⟨htimer, hmode, hstate, hdma⟩
    have hmarked : Marked 0x01 dev.fifo := by
      rw [hfifo]
      exact h.faithful.marked
    rw [← hchannel] at hdma
    obtain ⟨-, hcontents, hlen, dmaStat, -, hport⟩ := readDma_some hmarked hdma hroom val tc
    have hnew : (readDma dev (some (val, tc))).port.state = _ := (core_get Port.state (fun _ => rfl) hport :)
    have hdma' : (readDma dev (some (val, tc))).port.dma = dev.port.dma := (core_get Port.dma (fun _ => rfl) hport :)
    rw [hnew, hlen, hdma', hcontents]
    refine ⟨?_, hdma, rfl, ?_⟩
    · change (if _ then LptState.writeFifo else dev.port.state) = _ ∨ (if _ then LptState.writeFifo else dev.port.state) = _
      rw [hreading]
      split_ifs
      · exact .inl rfl
      · exact .inr rfl
    · rw [List.length_append]
      rfl

theorem fetched (h : Held old t) (hstate : t.dev.port.state = .readDma) {answers : ℕ → Option (Byte × Bool)}
    (hdma : t.dev.port.dma ≠ 0xFF) (hgranted : ∀ i, ∃ j, i ≤ j ∧ (answers j).isSome = true)
    (hkept : ∀ i, Kept (ticks t answers i).dev (.tick (answers i))) :
    ∃ n, Held old (ticks t answers n) ∧ (ticks t answers n).dev.port.state = .writeFifo ∧
      t.taken <+: (ticks t answers n).taken := by
  by_contra hnever
  have hall (n : ℕ) : Held old (ticks t answers n) ∧ t.taken <+: (ticks t answers n).taken ∧
      (ticks t answers n).dev.port.state = .readDma ∧ (ticks t answers n).dev.port.dma ≠ 0xFF ∧
        (ticks t answers n).dev.fifo.fifo.len = t.dev.fifo.fifo.len := by
    induction n with
    | zero => exact ⟨h, List.prefix_rfl, hstate, hdma, rfl⟩
    | succ n ih =>
      obtain ⟨hheld, hfetched, hreading, hchannel, hlen⟩ := ih
      obtain ⟨hnext, hmore, hstates, hchannel', hlen', -⟩ := fetch_tick hheld hreading hchannel (hkept n)
      refine ⟨hnext, hfetched.trans hmore, ?_, hchannel', hlen'.trans hlen⟩
      rcases hstates with hwriting | hreading'
      · exact absurd ⟨n + 1, hnext, hwriting, hfetched.trans hmore⟩ hnever
      · exact hreading'
  have hcount (n : ℕ) : (contents (ticks t answers (n + 1)).dev.fifo.fifo).length =
      (contents (ticks t answers n).dev.fifo.fifo).length + if (answers n).isSome then 1 else 0 := by
    obtain ⟨hheld, -, hreading, hchannel, -⟩ := hall n
    exact (fetch_tick hheld hreading hchannel (hkept n)).2.2.2.2.2
  have hmono : Monotone fun n => (contents (ticks t answers n).dev.fifo.fifo).length :=
    monotone_nat_of_le_succ fun n => by
      rw [hcount n]
      exact Nat.le_add_right _ _
  have hmany (m : ℕ) : ∃ n, m ≤ (contents (ticks t answers n).dev.fifo.fifo).length := by
    induction m with
    | zero => exact ⟨0, Nat.zero_le _⟩
    | succ m ih =>
      obtain ⟨n, hn⟩ := ih
      obtain ⟨j, hj, hsome⟩ := hgranted n
      have hgrown := hmono hj
      refine ⟨j + 1, ?_⟩
      rw [hcount j, if_pos hsome]
      dsimp only at hgrown
      omega
  obtain ⟨n, hn⟩ := hmany (t.dev.fifo.fifo.len + 1)
  obtain ⟨hheld, -, -, -, hlen⟩ := hall n
  have hle := hheld.faithful.marked.sound.count_le
  rw [contents_length] at hn
  omega

end

def Answered (t : Trace) (answers : ℕ → Option (Byte × Bool)) : Prop :=
  t.dev.port.state = .readDma → t.dev.port.dma ≠ 0xFF ∧ ∀ i, ∃ j, i ≤ j ∧ (answers j).isSome = true

structure Delivers (old : Bool) (t : Trace) : Prop where
  /-- Each byte is written once, with one strobe. -/
  told : t.dev.port.told = pulses old (sent t)
  /-- What is not sent yet waits in the FIFO, in the order taken in. -/
  order : sent t ++ contents t.dev.fifo.fifo = t.taken
  /-- And it is sent as the timer goes on. -/
  reaches : ∀ answers, Answered t answers → (∀ i, Kept (ticks t answers i).dev (.tick (answers i))) →
    ∃ n, t.taken <+: sent (ticks t answers n)
  /-- The end of a block is told once its last byte is sent. -/
  tc : t.dev.port.dmaStat &&& 0x04 ≠ 0 → ∃ e, t.ended = some e ∧ e ≤ (sent t).length

theorem Held.delivers {old : Bool} {t : Trace} (h : Held old t) : Delivers old t := by
  refine ⟨h.faithful.told, h.faithful.order, fun answers hanswered hkept => ?_, fun hflag => ?_⟩
  · cases hs : t.dev.port.state with
    | idle =>
      have horder := h.faithful.order
      rw [(stage_idle hs).mp h.stage, List.append_nil] at horder
      refine ⟨0, ?_⟩
      exact horder ▸ List.prefix_rfl
    | writeFifo =>
      obtain ⟨n, hn⟩ := drained h hs answers
      refine ⟨n, ?_⟩
      exact hn ▸ List.prefix_rfl
    | readDma =>
      obtain ⟨hdma, hgranted⟩ := hanswered hs
      obtain ⟨m, hheld, hwriting, hfetched⟩ := fetched h hs hdma hgranted hkept
      obtain ⟨n, hn⟩ := drained hheld hwriting fun i => answers (m + i)
      refine ⟨m + n, ?_⟩
      rw [ticks_add, ← hn]
      exact hfetched
  · have hstat : t.dev.port.dmaStat ≠ 0 := fun hzero => hflag (by rw [hzero]; rfl)
    obtain ⟨e, he, -, hout⟩ := h.faithful.ended hstat
    exact ⟨e, he, hout hflag⟩

/-- In every run that loses and strands no byte. -/
theorem delivers_run {dev : Lpt} (hfresh : Fresh dev) (hconnected : Connected dev.port) {val : Byte}
    (hval : FifoMode val) (hecr : FifoMode (entered dev val).dev.port.ecr) {ops : List Op}
    (hops : Orderly (entered dev val) ops) : Delivers dev.port.strobe (run (entered dev val) ops) :=
  (run_held (entered_held hfresh hconnected hval hecr) hops).delivers

instance (ecr : Byte) : Decidable (FifoMode ecr) := inferInstanceAs (Decidable (_ = _))

/-- A port that its board has put into extended capabilities mode, with DMA channel 3. -/
def ecpPort : Lpt :=
  let dev := lptInit 3 7 (some ⟨true, true, none, none⟩)
  { dev with port := { dev.port with ecp := true } }

theorem ecpPort_fresh : Fresh ecpPort ∧ Connected ecpPort.port :=
  ⟨⟨⟨by decide, by decide, by decide, by decide⟩, rfl, rfl, rfl, rfl⟩, rfl, rfl, rfl⟩

theorem delivers_block :
    Delivers false (run (entered ecpPort 0x40)
      [.dataFifo 0x41, .tick none, .ecr 0x48, .tick (some (0x42, false)), .dataFifo 0x43, .tick none,
        .tick (some (0x44, true)), .readStatus, .tick none, .readEcr]) := by
  obtain ⟨hfresh, hconnected⟩ := ecpPort_fresh
  refine delivers_run hfresh hconnected (by decide) (by decide) ?_
  refine ⟨trivial, fun _ => by decide, trivial, trivial, rfl, trivial, trivial, fun _ => by decide +kernel, trivial,
    fun _ => by decide +kernel, trivial, trivial, trivial, fun _ => by decide +kernel, trivial, trivial, trivial, trivial,
    trivial, trivial, trivial⟩

/-- Sixteen bytes written, DMA switched on over them, and a block of one byte. -/
theorem delivers_full :
    let bytes : List Byte := [1, 2, 3, 4, 5, 6, 7, 8, 9, 10, 11, 12, 13, 14, 15, 16]
    let ops := bytes.map Op.dataFifo ++ [.ecr 0x48, .tick (some (0xAA, true))]
    let t := run (entered ecpPort 0x40) (ops ++ List.replicate 16 (.tick none))
    (∀ op ∈ ops, Stays op) ∧ t.taken = bytes ++ [0xAA] ∧ sent t = bytes ∧ contents t.dev.fifo.fifo = [] ∧
      t.dev.port.dmaStat &&& 0x04 ≠ 0 ∧ t.ended = some 17 ∧ ¬Delivers false t := by
  intro bytes ops t
  have htaken : t.taken = bytes ++ [0xAA] := by decide +kernel
  have hsent : sent t = bytes := by decide +kernel
  have hnone : contents t.dev.fifo.fifo = [] := by decide +kernel
  refine ⟨?_, htaken, hsent, hnone, by decide +kernel, by decide +kernel, fun hbad => ?_⟩
  · intro op hop
    rcases List.mem_append.mp hop with hwrite | hswitch
    · obtain ⟨val, -, rfl⟩ := List.mem_map.mp hwrite
      trivial
    · rcases List.mem_pair.mp hswitch with rfl | rfl
      · exact (by decide : FifoMode 0x48)
      · trivial
  · have horder := hbad.order
    rw [hsent, hnone, htaken] at horder
    exact absurd horder (by decide)

end PeepeeBox.LptDelivery
