import PeepeeBox.Uart

set_option autoImplicit false

/-!
# The receiver of the serial port

What the guest and the devices have to do with of a port's receiving side, and what each function
of the port does to it.
-/
namespace PeepeeBox.UartReceiver
open EventFifo Uart

@[ext] structure Receiver where
  type : ℕ
  fifoEnabled : Bool
  /-- The enable bit of the FIFO control register. -/
  enable : Bool
  queue : List Byte
  dat : Byte
  shift : Option Byte
  loopback : Bool
  /-- Data ready, in the line status. -/
  ready : Bool
  /-- The character timeout is pending. -/
  pending : Bool
  /-- The character timeout runs. -/
  timer : Bool

def view (s : Serial) : Receiver :=
  { type := s.type
    fifoEnabled := s.fifoEnabled
    enable := has s.fcr 1
    queue := contents s.rcvrFifo
    dat := s.dat
    shift := s.outNew
    loopback := has s.mctrl 0x10
    ready := has s.lsr 0x01
    pending := has s.intStatus serialIntTimeout
    timer := s.timeoutTimer }

structure Fit (s : Serial) : Prop where
  sound : Sound s.rcvrFifo
  len : s.rcvrFifo.len = 16

theorem has_timeout (x : Byte) : has x serialIntTimeout = x.getLsbD 1 := by
  revert x
  decide +kernel

@[simp] theorem view_updateInts (s : Serial) : view (serialUpdateInts s) = view s := rfl

theorem view_clearTimeout (s : Serial) : view (serialClearTimeout s) = { view s with pending := false, timer := false } := by
  have hclear : has (s.intStatus &&& ~~~serialIntTimeout) serialIntTimeout = false := by
    rw [has_timeout]
    simp [serialIntTimeout]
  unfold serialClearTimeout
  ext1 <;> first | rfl | exact hclear

theorem xmit_keeps (s : Serial) : Keeps xmitEvents fun s' => view s' = view s ∧ s'.rcvrFifo = s.rcvrFifo := by
  have hxmit (f : Fifo) (s' : Serial) : view (serialXmitDEmptyEvt f s') = view s' := by
    unfold serialXmitDEmptyEvt view
    dsimp only
    congr 1
    · rw [has_one, has_one]
      split_ifs <;> simp
    · rw [has_timeout, has_timeout]
      split_ifs <;> simp [serialIntTransmit]
  exact
    { dEmptyEvt := fun f s' hs => ⟨(hxmit f s').trans hs.1, hs.2⟩
      dOverrunEvt := fun _ _ hs => hs
      dFullEvt := fun _ _ hs => hs
      dReadyEvt := fun _ _ hs => hs }

/-- All of the receiver but the FIFO's own part. -/
def rest (s : Serial) : Receiver := { view s with queue := [], ready := false }

theorem rcvr_keeps (s : Serial) : Keeps rcvrEvents fun s' => rest s' = rest s := by
  have hready (f : Fifo) (s' : Serial) : rest (serialRcvrDReadyEvt f s') = rest s' := by
    have hpending : has (s'.intStatus &&& ~~~serialIntReceive ||| if f.ready then serialIntReceive else 0)
        serialIntTimeout = has s'.intStatus serialIntTimeout := by
      rw [has_timeout, has_timeout]
      split_ifs <;> simp [serialIntReceive]
    unfold serialRcvrDReadyEvt rest
    rw [view_updateInts]
    ext1 <;> first | rfl | exact hpending
  exact
    { dEmptyEvt := fun _ _ hs => hs
      dOverrunEvt := fun _ _ hs => hs
      dFullEvt := fun _ _ hs => hs
      dReadyEvt := fun f s' hs => (hready f s').trans hs }

theorem view_eq {s : Serial} {r : Receiver} (hrest : rest s = { r with queue := [], ready := false })
    (hqueue : contents s.rcvrFifo = r.queue) (hready : has s.lsr 0x01 = r.ready) : view s = r := by
  obtain ⟨htype, hfifo, henable, -, hdat, hshift, hloop, -, hpending, htimer⟩ := Receiver.mk.inj hrest
  ext1
  · exact htype
  · exact hfifo
  · exact henable
  · exact hqueue
  · exact hdat
  · exact hshift
  · exact hloop
  · exact hready
  · exact hpending
  · exact htimer

theorem ready_told (f : Fifo) (s : Serial) : has (serialRcvrDEmptyEvt f s).lsr 0x01 = !f.empty := by
  unfold serialRcvrDEmptyEvt
  rw [has_one]
  cases f.empty <;> simp

theorem ready_overrun (f : Fifo) (s : Serial) : has (serialRcvrDOverrunEvt f s).lsr 0x01 = has s.lsr 0x01 := by
  unfold serialRcvrDOverrunEvt
  rw [has_one, has_one]
  split_ifs <;> simp

theorem noteReady_lsr (f : Fifo) (s : Serial) : (noteReady rcvrEvents f s).2.lsr = s.lsr := by
  unfold noteReady call
  split
  · split <;> rfl
  · rfl

theorem noteBelow_lsr (f : Fifo) (s : Serial) : (noteBelow rcvrEvents f s).2.lsr = s.lsr := by
  unfold noteBelow call
  split
  · split <;> rfl
  · rfl

theorem noteFull_told (f : Fifo) (s : Serial) :
    (noteFull rcvrEvents f s).2 = s ∧ (noteFull rcvrEvents f s).1.empty = f.empty := by
  unfold noteFull call
  split
  · exact ⟨ite_self s, rfl⟩
  · exact ⟨rfl, rfl⟩

theorem noteFilled_ready (f : Fifo) (s : Serial) :
    has (noteFilled rcvrEvents f s).2.lsr 0x01 = (f.empty || has s.lsr 0x01) := by
  unfold noteFilled call
  cases f.empty with
  | true => exact ready_told _ s
  | false => rfl

theorem noteEmpty_ready {f : Fifo} (h : f.empty = false) (s : Serial) :
    has (noteEmpty rcvrEvents f s).2.lsr 0x01 = (!(noteEmpty rcvrEvents f s).1.empty && has s.lsr 0x01) := by
  unfold noteEmpty call
  rw [h]
  split
  · exact ready_told _ s
  · rw [h]
    rfl

theorem rcvrWrite_ready {s : Serial} (h : s.rcvrFifo.full = false) (val : Byte) :
    has (rcvrWrite s val).lsr 0x01 = (s.rcvrFifo.empty || has s.lsr 0x01) := by
  unfold rcvrWrite fifoWriteEvt
  dsimp only
  rw [if_neg (by simp [h]), noteReady_lsr, noteFilled_ready, (noteFull_told _ s).1, (noteFull_told _ s).2]

theorem Fit.room {s : Serial} (h : Fit s) : s.rcvrFifo.full = false ↔ (view s).queue.length < 16 := by
  have hle := h.sound.count_le
  have hfull := h.sound.full_iff
  rw [h.len] at hle hfull
  change _ ↔ (contents s.rcvrFifo).length < 16
  rw [contents_length, ← Bool.not_eq_true, hfull]
  omega

theorem rcvrWrite_room {s : Serial} (h : Fit s) (hroom : (view s).queue.length < 16) (val : Byte) :
    Fit (rcvrWrite s val) ∧ view (rcvrWrite s val) =
      { view s with
        queue := (view s).queue ++ [val], ready := decide ((view s).queue = []) || (view s).ready } := by
  have hfull := h.room.mpr hroom
  have hwrote := write_room rcvrEvents val hfull s
  refine ⟨⟨hwrote.sound h.sound, hwrote.len.trans h.len⟩, view_eq ?_ (hwrote.contents h.sound hfull) ?_⟩
  · exact (rcvr_keeps s).write val s.rcvrFifo rfl
  · rw [rcvrWrite_ready hfull]
    congr 1
    exact Bool.eq_iff_iff.mpr (h.sound.empty_iff.trans decide_eq_true_iff.symm)

theorem rcvrWrite_full {s : Serial} (h : Fit s) (hfull : 16 ≤ (view s).queue.length) (val : Byte) :
    Fit (rcvrWrite s val) ∧ view (rcvrWrite s val) = view s := by
  have hfull' : s.rcvrFifo.full = true := by
    rw [← Bool.not_eq_false, h.room]
    omega
  obtain ⟨hsame, hsound⟩ := write_full rcvrEvents val hfull' s
  have hlen : (fifoWriteEvt rcvrEvents val s.rcvrFifo s).1.len = s.rcvrFifo.len := by
    unfold fifoWriteEvt
    rw [if_pos hfull']
    rfl
  refine ⟨⟨hsound h.sound, hlen.trans h.len⟩, view_eq ((rcvr_keeps s).write val s.rcvrFifo rfl) hsame ?_⟩
  unfold rcvrWrite fifoWriteEvt
  dsimp only
  rw [if_pos hfull']
  unfold call
  split
  · exact ready_overrun _ s
  · rfl

theorem rcvrRead_none {s : Serial} (h : Fit s) (hnone : (view s).queue = []) :
    Fit (rcvrRead s).2 ∧ view (rcvrRead s).2 = view s := by
  have hempty := h.sound.empty_iff.mpr hnone
  unfold rcvrRead
  rw [read_none rcvrEvents hempty s]
  exact ⟨⟨{ start := h.sound.start, end_ := h.sound.end_, full := h.sound.full, empty := h.sound.empty }, h.len⟩, rfl⟩

theorem rcvrRead_some {s : Serial} (h : Fit s) {b : Byte} {bs : List Byte} (hsome : (view s).queue = b :: bs) :
    Fit (rcvrRead s).2 ∧ (rcvrRead s).1 = b ∧
      view (rcvrRead s).2 = { view s with queue := bs, ready := !decide (bs = []) && (view s).ready } := by
  have hany : s.rcvrFifo.empty = false := by
    rw [← Bool.not_eq_true, h.sound.empty_iff]
    intro hnone
    exact List.cons_ne_nil b bs (hsome.symm.trans hnone)
  obtain ⟨hfirst, htook⟩ := read_some rcvrEvents h.sound hany s
  obtain ⟨hbyte, hqueue⟩ := List.cons.inj ((htook.contents h.sound hany).symm.trans hsome)
  have hsound := htook.sound h.sound
  refine ⟨⟨hsound, htook.len.trans h.len⟩, hfirst.trans hbyte, view_eq ((rcvr_keeps s).read s.rcvrFifo rfl) hqueue ?_⟩
  have hempty : (rcvrRead s).2.rcvrFifo.empty = decide (bs = []) :=
    Bool.eq_iff_iff.mpr ((hsound.empty_iff.trans (by rw [hqueue])).trans decide_eq_true_iff.symm)
  rw [← hempty]
  unfold rcvrRead fifoReadEvt
  dsimp only
  rw [if_neg (by simp [hany])]
  dsimp only [noteRoom, call]
  obtain ⟨ready, dReady, hbelow⟩ := noteBelow_cursors rcvrEvents
    { s.rcvrFifo with
      start := (s.rcvrFifo.start + 1) % s.rcvrFifo.len, dFull := s.rcvrFifo.full, full := false, dEmpty := false
      dReady := false } s
  rw [show rcvrEvents.dFullEvt = fun _ s => s from rfl, ite_self, noteEmpty_ready, noteBelow_lsr]
  · rfl
  · rw [hbelow]
    exact hany

theorem rcvrReset_view {s : Serial} (h : Fit s) :
    Fit (rcvrReset s) ∧ view (rcvrReset s) = { view s with queue := [], ready := false } := by
  have hlen : 0 < s.rcvrFifo.len := by
    rw [h.len]
    decide
  have hreset := sound_reset hlen
  refine ⟨⟨{ start := hreset.start, end_ := hreset.end_, full := hreset.full, empty := hreset.empty }, h.len⟩,
    view_eq ((rcvr_keeps s).reset s.rcvrFifo rfl) (contents_reset s.rcvrFifo) ?_⟩
  exact ready_told _ _

structure Quiet (s s' : Serial) : Prop where
  receiver : view s' = view s
  fifo : s'.rcvrFifo = s.rcvrFifo

theorem Quiet.refl (s : Serial) : Quiet s s := ⟨rfl, rfl⟩

theorem Quiet.trans {s t u : Serial} (h : Quiet s t) (h' : Quiet t u) : Quiet s u :=
  ⟨h'.receiver.trans h.receiver, h'.fifo.trans h.fifo⟩

theorem Fit.congr {s s' : Serial} (hs : Fit s) (h : s'.rcvrFifo = s.rcvrFifo) : Fit s' := ⟨h ▸ hs.sound, h ▸ hs.len⟩

theorem Quiet.fit {s s' : Serial} (h : Quiet s s') (hs : Fit s) : Fit s' := hs.congr h.fifo

theorem quiet_if {s t u : Serial} {c : Prop} [Decidable c] (ht : Quiet s t) (hu : Quiet s u) :
    Quiet s (if c then t else u) := by
  split
  · exact ht
  · exact hu

theorem quiet_status (s : Serial) {lsr intStatus : Byte} (hlsr : has lsr 0x01 = has s.lsr 0x01)
    (hstatus : has intStatus serialIntTimeout = has s.intStatus serialIntTimeout) :
    Quiet s { s with lsr, intStatus } := by
  refine ⟨?_, rfl⟩
  unfold view
  rw [hlsr, hstatus]

theorem quiet_updateInts (s : Serial) : Quiet s (serialUpdateInts s) := ⟨rfl, rfl⟩

theorem Quiet.updateSpeed {s t : Serial} (h : Quiet s t) : Quiet s (serialUpdateSpeed t) := by
  unfold serialUpdateSpeed
  exact h.trans (quiet_if ⟨rfl, rfl⟩ ⟨rfl, rfl⟩)

theorem Quiet.xmitWrite {s t : Serial} (h : Quiet s t) (val : Byte) : Quiet s (xmitWrite t val) := by
  obtain ⟨hview, hfifo⟩ := (xmit_keeps t).write val t.xmitFifo ⟨rfl, rfl⟩
  exact h.trans ⟨hview, hfifo⟩

theorem quiet_xmitRead (s : Serial) : Quiet s (xmitRead s).2 := by
  obtain ⟨hview, hfifo⟩ := (xmit_keeps s).read s.xmitFifo ⟨rfl, rfl⟩
  exact ⟨hview, hfifo⟩

theorem quiet_xmitReset (s : Serial) : Quiet s (xmitReset s) := by
  obtain ⟨hview, hfifo⟩ := (xmit_keeps s).reset s.xmitFifo ⟨rfl, rfl⟩
  exact ⟨hview, hfifo⟩

theorem quiet_raiseMsr (s : Serial) : Quiet s (raiseMsr s) := by
  unfold raiseMsr
  refine quiet_if ?_ (Quiet.refl s)
  exact (quiet_status s rfl (has_or rfl _)).trans (quiet_updateInts _)

theorem quiet_writeData (s : Serial) (val : Byte) : Quiet s (writeData s val) := by
  unfold writeData
  refine quiet_if ?_ (quiet_if ?_ (quiet_if ?_ (Quiet.refl s)))
  · exact Quiet.updateSpeed ⟨rfl, rfl⟩
  · refine Quiet.xmitWrite ?_ val
    exact ⟨rfl, rfl⟩
  · have hquiet := quiet_status s (has_and (k := 0x9F) rfl s.lsr) (has_and (k := ~~~serialIntTransmit) rfl s.intStatus)
    exact (hquiet.trans (quiet_updateInts _)).trans ⟨rfl, rfl⟩

theorem quiet_writeIer (s : Serial) (val : Byte) : Quiet s (writeIer s val) := by
  unfold writeIer
  refine quiet_if (Quiet.updateSpeed ⟨rfl, rfl⟩) ?_
  have hraised : Quiet s (if has val 2 && has s.lsr 0x20 then { s with intStatus := s.intStatus ||| serialIntTransmit }
      else s) := quiet_if (quiet_status s rfl (has_or rfl _)) (Quiet.refl s)
  exact hraised.trans ⟨rfl, rfl⟩

theorem quiet_writeMsr (s : Serial) (val : Byte) : Quiet s (writeMsr s val) := by
  unfold writeMsr
  refine Quiet.trans (t := { s with msr := s.msr &&& 0xF0 ||| val &&& 0x0F }) ⟨rfl, rfl⟩ ?_
  refine Quiet.trans (quiet_if ?_ ?_) (quiet_updateInts _)
  · exact quiet_status _ rfl (has_or rfl _)
  · exact quiet_status _ rfl (has_and rfl _)

theorem quiet_writeScratch (s : Serial) (val : Byte) : Quiet s (writeScratch s val) := by
  unfold writeScratch
  exact quiet_if ⟨rfl, rfl⟩ (Quiet.refl s)

theorem quiet_readIir (s : Serial) : Quiet s (readIir s).2 := by
  unfold readIir
  exact quiet_if ((quiet_status s rfl (has_and rfl _)).trans (quiet_updateInts _)) (Quiet.refl s)

theorem quiet_readLsr (s : Serial) : Quiet s (readLsr s).2 := by
  unfold readLsr
  have hread : Quiet s (if has s.lsr 0x1F then { s with lsr := s.lsr &&& ~~~0x1E } else s) :=
    quiet_if (quiet_status s (has_and rfl _) rfl) (Quiet.refl s)
  exact hread.trans ((quiet_status _ rfl (has_and rfl _)).trans (quiet_updateInts _))

theorem quiet_readMsr (s : Serial) : Quiet s (readMsr s).2 := by
  unfold readMsr
  refine Quiet.trans (t := { s with msr := s.msr &&& ~~~0x0F }) ⟨rfl, rfl⟩ ?_
  exact (quiet_status _ rfl (has_and rfl _)).trans (quiet_updateInts _)

theorem quiet_xmitDEmptyEvt (f : Fifo) (s : Serial) : Quiet s (serialXmitDEmptyEvt f s) := by
  obtain ⟨hview, hfifo⟩ := (xmit_keeps s).dEmptyEvt f s ⟨rfl, rfl⟩
  exact ⟨hview, hfifo⟩

theorem quiet_fillTxsr (s : Serial) : Quiet s (fillTxsr s) := by
  unfold fillTxsr
  refine quiet_if ?_ ?_
  · exact (quiet_xmitRead s).trans ⟨rfl, rfl⟩
  · exact Quiet.trans (t := { s with txsr := s.thr, thr := 0, thrEmpty := true }) ⟨rfl, rfl⟩ (quiet_xmitDEmptyEvt _ _)

theorem quiet_stopMoving (s : Serial) : Quiet s (stopMoving s) := by
  unfold stopMoving
  exact quiet_if ⟨rfl, rfl⟩ (Quiet.refl s)

theorem quiet_goOn (s : Serial) : Quiet s (goOn s) := by
  unfold goOn
  exact quiet_if ⟨rfl, rfl⟩ ⟨rfl, rfl⟩

theorem quiet_moveToTxsr (s : Serial) : Quiet s (serialMoveToTxsr s) := by
  unfold serialMoveToTxsr
  have hfilled := quiet_fillTxsr { s with txsrEmpty := false }
  have hcleared := hfilled.trans (quiet_status _ (has_and (k := ~~~0x40) rfl _) rfl)
  have hmoved := hcleared.trans (quiet_stopMoving _)
  exact Quiet.trans (t := { s with txsrEmpty := false }) ⟨rfl, rfl⟩ (hmoved.trans ⟨rfl, rfl⟩)

structure Feeds (s s' : Serial) : Prop where
  receiver : ∃ shift, view s' = { view s with shift } ∧
    ((view s).loopback = false → shift = (view s).shift)
  fifo : s'.rcvrFifo = s.rcvrFifo

theorem Quiet.feeds {s t u : Serial} (h : Quiet s t) (h' : Feeds t u) : Feeds s u := by
  obtain ⟨⟨shift, hview, hshift⟩, hfifo⟩ := h'
  rw [h.receiver] at hview hshift
  exact ⟨⟨shift, hview, hshift⟩, hfifo.trans h.fifo⟩

theorem Feeds.quiet {s t u : Serial} (h : Feeds s t) (h' : Quiet t u) : Feeds s u := by
  obtain ⟨⟨shift, hview, hshift⟩, hfifo⟩ := h
  exact ⟨⟨shift, h'.receiver.trans hview, hshift⟩, h'.fifo.trans hfifo⟩

theorem Feeds.refl (s : Serial) : Feeds s s := ⟨⟨(view s).shift, rfl, fun _ => rfl⟩, rfl⟩

theorem feeds_if {s t u : Serial} {c : Prop} [Decidable c] (ht : Feeds s t) (hu : Feeds s u) :
    Feeds s (if c then t else u) := by
  split
  · exact ht
  · exact hu

theorem feeds_transmit (s : Serial) (val : Byte) : Feeds s (serialTransmit s val) := by
  unfold serialTransmit
  split
  · rename_i hloop
    exact ⟨⟨some val, rfl, fun hoff => absurd (hloop.symm.trans hoff) Bool.true_eq_false.mp⟩, rfl⟩
  · exact Feeds.refl s

theorem feeds_processTxsr (s : Serial) : Feeds s (serialProcessTxsr s) := by
  unfold serialProcessTxsr
  have hsent : Feeds s { serialTransmit s s.txsr with txsr := 0, txsrEmpty := true } :=
    (feeds_transmit s s.txsr).quiet ⟨rfl, rfl⟩
  have hempty := hsent.quiet (quiet_xmitDEmptyEvt (serialTransmit s s.txsr).xmitFifo _)
  have hcounted := (hempty.quiet (u := { serialXmitDEmptyEvt (serialTransmit s s.txsr).xmitFifo
    { serialTransmit s s.txsr with txsr := 0, txsrEmpty := true } with baudCycles := 0 }) ⟨rfl, rfl⟩).quiet (quiet_goOn _)
  exact hcounted.quiet (quiet_updateInts _)

theorem feeds_transmitTimer (s : Serial) : Feeds s (serialTransmitTimer s) := by
  have hprocessed (t : Serial) (c : Bool) : Feeds t (if c then serialProcessTxsr t else t) :=
    feeds_if (feeds_processTxsr t) (Feeds.refl t)
  have hmoved (t : Serial) (c : Bool) : Quiet t (if c then serialMoveToTxsr t else t) :=
    quiet_if (quiet_moveToTxsr t) (Quiet.refl t)
  have hagain (t : Serial) : Quiet t (if has t.transmitEnabled 3 then { t with transmitTimer := true } else t) :=
    quiet_if ⟨rfl, rfl⟩ (Quiet.refl t)
  have hcounted : Quiet s { s with baudCycles := s.baudCycles + 1 } := ⟨rfl, rfl⟩
  unfold serialTransmitTimer
  refine feeds_if ?_ ⟨⟨(view s).shift, rfl, fun _ => rfl⟩, rfl⟩
  exact ((hcounted.feeds (hprocessed _ _)).quiet (hmoved _ _)).quiet (hagain _)

theorem writeMctrl_view (s : Serial) (val : Byte) :
    (writeMctrl s val).rcvrFifo = s.rcvrFifo ∧ view (writeMctrl s val) = { view s with loopback := has val 0x10 } := by
  have hset (msr : Byte) : view { s with mctrl := val &&& 0x1F, msr } = { view s with loopback := has val 0x10 } := by
    have hkept : has (val &&& 0x1F) 0x10 = has val 0x10 := has_and rfl val
    ext1 <;> first | rfl | exact hkept
  have hraised (msr : Byte) := quiet_raiseMsr { s with mctrl := val &&& 0x1F, msr }
  unfold writeMctrl
  dsimp only
  split
  · exact ⟨(hraised _).fifo, (hraised _).receiver.trans (hset _)⟩
  · split
    · exact ⟨(hraised _).fifo, (hraised _).receiver.trans (hset _)⟩
    · exact ⟨rfl, hset s.msr⟩

theorem writeLsr_view (s : Serial) (val : Byte) :
    (writeLsr s val).rcvrFifo = s.rcvrFifo ∧ view (writeLsr s val) = { view s with ready := has val 0x01 } := by
  have hset : view { s with lsr := s.lsr &&& 0xE0 ||| val &&& 0x1F } = { view s with ready := has val 0x01 } := by
    have hready := has_mask s.lsr 0xE0 val 0x01 rfl rfl
    ext1 <;> first | rfl | exact hready
  have hraised (t : Serial) (mask bits : Byte) (h : bits &&& serialIntTimeout = 0) :
      Quiet t (if has t.lsr mask then { t with intStatus := t.intStatus ||| bits } else t) :=
    quiet_if (quiet_status t rfl (has_or h _)) (Quiet.refl t)
  unfold writeLsr
  have htold := ((hraised { s with lsr := s.lsr &&& 0xE0 ||| val &&& 0x1F } 0x01 serialIntReceive rfl).trans
    (hraised _ 0x1E serialIntLsr rfl)).trans (hraised _ 0x20 serialIntTransmit rfl)
  exact ⟨htold.fifo, htold.receiver.trans hset⟩

theorem timeoutTimer_view (s : Serial) :
    (serialTimeoutTimer s).rcvrFifo = s.rcvrFifo ∧
      view (serialTimeoutTimer s) = { view s with ready := true, pending := true } := by
  have hready : has (s.lsr ||| 0x01) 0x01 = true := by
    rw [has_one]
    simp
  have hpending : has (s.intStatus ||| serialIntTimeout) serialIntTimeout = true := by
    rw [has_timeout]
    simp [serialIntTimeout]
  refine ⟨rfl, ?_⟩
  unfold serialTimeoutTimer
  ext1 <;> first | rfl | exact hready | exact hpending

theorem writeFifo_view (s : Serial) (dat : Byte) :
    (serialWriteFifo s dat).rcvrFifo = s.rcvrFifo ∧
      view (serialWriteFifo s dat) =
        { view s with shift := if (view s).loopback then (view s).shift else some dat } := by
  unfold serialWriteFifo
  split
  · rename_i hloop
    have hloop' : (view s).loopback = true := hloop
    rw [hloop']
    exact ⟨rfl, rfl⟩
  · rename_i hloop
    have hloop' : (view s).loopback = false := Bool.not_eq_true _ ▸ hloop
    rw [hloop']
    exact ⟨rfl, rfl⟩

/-- What a byte that arrives leaves in the receive buffer or the FIFO. -/
def take (r : Receiver) (b : Byte) : Receiver :=
  if r.fifoEnabled then
    if r.queue.length < 16 then { r with queue := r.queue ++ [b], ready := decide (r.queue = []) || r.ready } else r
  else { r with dat := b, ready := true }

theorem take_plain {r : Receiver} (h : r.fifoEnabled = false) (b : Byte) : take r b = { r with dat := b, ready := true } := by
  unfold take
  exact if_neg (by simp [h])

theorem take_room {r : Receiver} (h : r.fifoEnabled = true) (hroom : r.queue.length < 16) (b : Byte) :
    take r b = { r with queue := r.queue ++ [b], ready := decide (r.queue = []) || r.ready } := by
  unfold take
  rw [if_pos h, if_pos hroom]

theorem take_full {r : Receiver} (h : r.fifoEnabled = true) (hfull : ¬ r.queue.length < 16) (b : Byte) :
    take r b = r := by
  unfold take
  rw [if_pos h, if_neg hfull]

@[simp] theorem take_fifoEnabled (r : Receiver) (b : Byte) : (take r b).fifoEnabled = r.fifoEnabled := by
  unfold take
  split_ifs <;> rfl

theorem take_queue {r : Receiver} (h : r.fifoEnabled = true) (b : Byte) : (take r b).queue ≠ [] := by
  by_cases hroom : r.queue.length < 16
  · simp [take_room h hroom]
  · rw [take_full h hroom]
    intro hnone
    exact hroom (by simp [hnone])

theorem rcvrWrite_view {s : Serial} (h : Fit s) (hfifo : s.fifoEnabled = true) (b : Byte) :
    Fit (rcvrWrite s b) ∧ view (rcvrWrite s b) = take (view s) b := by
  have henabled : (view s).fifoEnabled = true := hfifo
  unfold take
  rw [if_pos henabled]
  split
  · rename_i hroom
    exact rcvrWrite_room h hroom b
  · rename_i hfull
    exact rcvrWrite_full h (Nat.le_of_not_lt hfull) b

theorem quiet_overrun (s : Serial) : Quiet s (if has s.lsr 0x01 then { s with lsr := s.lsr ||| 0x02 } else s) :=
  quiet_if (quiet_status s (has_or rfl _) rfl) (Quiet.refl s)

theorem placed_view (s : Serial) (b : Byte) (outNew : Option Byte) :
    view { s with dat := b, outNew, lsr := s.lsr ||| 0x01, intStatus := s.intStatus ||| serialIntReceive } =
      { view s with dat := b, shift := outNew, ready := true } := by
  have hready : has (s.lsr ||| 0x01) 0x01 = true := by
    rw [has_one]
    simp
  have hpending := has_or (m := serialIntTimeout) (k := serialIntReceive) rfl s.intStatus
  ext1 <;> first | rfl | exact hready | exact hpending

theorem receivePlain_view (s : Serial) (hfifo : s.fifoEnabled = false) (b : Byte) :
    (receivePlain s b).rcvrFifo = s.rcvrFifo ∧ view (receivePlain s b) = { take (view s) b with shift := none } := by
  have hraised (t : Serial) : Quiet t (if has t.lsr 0x02 then { t with intStatus := t.intStatus ||| serialIntLsr } else t) :=
    quiet_if (quiet_status t rfl (has_or rfl _)) (Quiet.refl t)
  have hover := quiet_overrun s
  have hplaced := placed_view (if has s.lsr 0x01 then { s with lsr := s.lsr ||| 0x02 } else s) b none
  have htold := hraised { (if has s.lsr 0x01 then { s with lsr := s.lsr ||| 0x02 } else s) with
    dat := b, outNew := none, lsr := (if has s.lsr 0x01 then { s with lsr := s.lsr ||| 0x02 } else s).lsr ||| 0x01
    intStatus := (if has s.lsr 0x01 then { s with lsr := s.lsr ||| 0x02 } else s).intStatus ||| serialIntReceive }
  rw [take_plain (r := view s) hfifo]
  rw [hover.receiver] at hplaced
  exact ⟨htold.fifo.trans hover.fifo, htold.receiver.trans hplaced⟩

theorem rcvr_bits (n : ℕ) : Keeps rcvrEvents fun s => s.bits = n :=
  { dEmptyEvt := fun _ _ hs => hs
    dOverrunEvt := fun _ _ hs => hs
    dFullEvt := fun _ _ hs => hs
    dReadyEvt := fun _ _ hs => hs }

theorem take_timeout (r : Receiver) (b : Byte) (pending timer : Bool) :
    take { r with pending, timer } b = { take r b with pending, timer } := by
  unfold take
  dsimp only
  split_ifs <;> rfl

theorem receiveFifo_view {s : Serial} (h : Fit s) (hfifo : s.fifoEnabled = true) (b : Byte) :
    Fit (receiveFifo s b) ∧ view (receiveFifo s b) =
      { take (view s) b with shift := none, pending := false, timer := armed s } := by
  obtain ⟨hfit, hview⟩ := rcvrWrite_view (s := serialClearTimeout s) ⟨h.sound, h.len⟩ hfifo b
  rw [view_clearTimeout, take_timeout] at hview
  have hbits : (rcvrWrite (serialClearTimeout s) b).bits = s.bits :=
    (rcvr_bits s.bits).write b s.rcvrFifo (s := serialClearTimeout s) rfl
  have hset : view (receiveFifo s b) = { view (rcvrWrite (serialClearTimeout s) b) with
      shift := none, timer := decide ((rcvrWrite (serialClearTimeout s) b).bits ≠ 0) } := rfl
  refine ⟨⟨hfit.sound, hfit.len⟩, ?_⟩
  rw [hset, hview, hbits]
  rfl

/-- What the receive timer does: it takes the byte out of the shift register. -/
def received (r : Receiver) (armed : Bool) : Receiver :=
  match r.shift with
  | none => r
  | some b =>
    if r.fifoEnabled then { take r b with shift := none, pending := false, timer := armed }
    else { take r b with shift := none }

@[simp] theorem received_fifoEnabled (r : Receiver) (armed : Bool) : (received r armed).fifoEnabled = r.fifoEnabled := by
  unfold received
  split
  · rfl
  · split_ifs <;> exact take_fifoEnabled _ _

theorem receiveTimer_view {s : Serial} (h : Fit s) :
    Fit (serialReceiveTimer s) ∧ view (serialReceiveTimer s) = received (view s) (armed s) := by
  have htimer : Fit { s with receiveTimer := armed s } := ⟨h.sound, h.len⟩
  unfold serialReceiveTimer received
  dsimp only
  split
  · rename_i hnone
    rw [show (view s).shift = none from hnone]
    exact ⟨htimer, rfl⟩
  · rename_i b hsome
    rw [show (view s).shift = some b from hsome]
    split
    · rename_i hfifo
      dsimp only
      rw [if_pos (show (view s).fifoEnabled = true from hfifo)]
      exact receiveFifo_view htimer hfifo b
    · rename_i hfifo
      dsimp only
      rw [if_neg (show (view s).fifoEnabled ≠ true from hfifo)]
      obtain ⟨hsame, hview⟩ := receivePlain_view { s with receiveTimer := armed s } (Bool.not_eq_true _ ▸ hfifo) b
      exact ⟨htimer.congr hsame, hview⟩

theorem loopbackBreak_view {s : Serial} (h : Fit s) :
    Fit (serialReceiveLoopbackBreak s) ∧ view (serialReceiveLoopbackBreak s) = take (view s) 0x00 := by
  have htold (t : Serial) : Quiet t (serialUpdateInts { t with
      lsr := t.lsr ||| 0x1C, intStatus := t.intStatus ||| serialIntLsr }) :=
    (quiet_status t (has_or rfl _) (has_or rfl _)).trans (quiet_updateInts _)
  unfold serialReceiveLoopbackBreak
  dsimp only
  split
  · rename_i hfifo
    obtain ⟨hfit, hview⟩ := rcvrWrite_view h hfifo 0x00
    exact ⟨(htold _).fit hfit, (htold _).receiver.trans hview⟩
  · rename_i hfifo
    have hover := quiet_overrun s
    have hplaced := placed_view (if has s.lsr 0x01 then { s with lsr := s.lsr ||| 0x02 } else s) 0x00
      (view (if has s.lsr 0x01 then { s with lsr := s.lsr ||| 0x02 } else s)).shift
    have htake := take_plain (r := view s) (Bool.not_eq_true _ ▸ hfifo) 0x00
    rw [htake, ← hover.receiver]
    exact ⟨(htold _).fit ((hover.fit h).congr rfl), (htold _).receiver.trans hplaced⟩

def emptied (r : Receiver) (val : Byte) : Bool := has val 0x01 ^^ r.enable || has val 0x01 && has val 0x02

def controlled (r : Receiver) (val : Byte) : Receiver :=
  { r with
    fifoEnabled := has val 0x01
    enable := has val 0x01
    queue := if emptied r val || !has val 0x01 then [] else r.queue
    ready := !emptied r val && r.ready
    shift := if has val 0x01 then none else r.shift }

theorem reset_if {s : Serial} (h : Fit s) (c : Bool) {t : Serial} (ht : Fit s → Fit t ∧ view t =
    { view s with queue := [], ready := false }) :
    Fit (if c then t else s) ∧ view (if c then t else s) =
      { view s with queue := if c then [] else (view s).queue, ready := !c && (view s).ready } := by
  cases c with
  | true => exact ht h
  | false => exact ⟨h, rfl⟩

theorem resetFifo_view {s : Serial} (h : Fit s) :
    Fit (serialResetFifo s) ∧ view (serialResetFifo s) = { view s with queue := [], ready := false } := by
  obtain ⟨hfit, hview⟩ := rcvrReset_view ((quiet_xmitReset s).fit h)
  rw [(quiet_xmitReset s).receiver] at hview
  exact ⟨hfit.congr rfl, hview⟩

theorem writeFcr_old {s : Serial} (h : s.type < serial16550) (val : Byte) : writeFcr s val = s := by
  unfold writeFcr
  exact if_pos h

theorem writeFcr_view {s : Serial} (h : Fit s) (htype : ¬ s.type < serial16550) (val : Byte) :
    Fit (writeFcr s val) ∧ view (writeFcr s val) = controlled (view s) val := by
  obtain ⟨hfit, hview⟩ := reset_if h (has (val ^^^ s.fcr) 0x01) resetFifo_view
  rw [has_xor] at hfit hview
  unfold writeFcr controlled emptied
  rw [if_neg htype, has_xor]
  dsimp only
  generalize (if (has val 0x01 ^^ has s.fcr 0x01) = true then serialResetFifo s else s) = t at hfit hview ⊢
  have hcontrol : view { t with fcr := val &&& 0xF9, fifoEnabled := has val 0x01 } =
      { view t with fifoEnabled := has val 0x01, enable := has val 0x01 } := by
    have henable : has (val &&& 0xF9) 0x01 = has val 0x01 := has_and rfl val
    ext1 <;> first | rfl | exact henable
  rw [hview] at hcontrol
  cases hon : has val 0x01 with
  | false =>
    have hreset := sound_reset (f := t.rcvrFifo) (by rw [hfit.len]; decide)
    have hempty : view { t with
        fcr := val &&& 0xF9, fifoEnabled := false, xmitFifo := fifoReset t.xmitFifo, rcvrFifo := fifoReset t.rcvrFifo } =
        { view { t with fcr := val &&& 0xF9, fifoEnabled := false } with queue := [] } := rfl
    rw [hon] at hcontrol
    refine ⟨⟨hreset, hfit.len⟩, hempty.trans ?_⟩
    rw [hcontrol]
    simp [view]
  | true =>
    rw [hon] at hcontrol
    have hset : Fit { t with fcr := val &&& 0xF9, fifoEnabled := true } := hfit.congr rfl
    obtain ⟨hfit', hview'⟩ := reset_if hset (has val 0x02) rcvrReset_view
    generalize (if has val 0x02 = true then rcvrReset { t with fcr := val &&& 0xF9, fifoEnabled := true }
      else { t with fcr := val &&& 0xF9, fifoEnabled := true }) = u at hfit' hview' ⊢
    have hxmit : Quiet u (if has val 0x04 = true then xmitReset u else u) :=
      quiet_if (quiet_xmitReset u) (Quiet.refl u)
    generalize (if has val 0x04 = true then xmitReset u else u) = v at hxmit ⊢
    have hfit'' := hxmit.fit hfit'
    refine ⟨⟨{ start := hfit''.sound.start, end_ := hfit''.sound.end_, full := hfit''.sound.full
               empty := hfit''.sound.empty }, hfit''.len⟩, ?_⟩
    have hlast : view { v with
        rcvrFifo := { v.rcvrFifo with triggerLen := triggerLen val }
        xmitFifo := { v.xmitFifo with triggerLen := 16 }, outNew := none } = { view v with shift := none } := rfl
    rw [hcontrol] at hview'
    refine hlast.trans ?_
    rw [hxmit.receiver, hview', show has s.fcr 0x01 = (view s).enable from rfl]
    cases (view s).enable <;> cases has val 0x02 <;> simp

def breaks (s : Serial) (val : Byte) : Bool := !has s.lcr 0x40 && has val 0x40 && has s.mctrl 0x10

theorem writeLcr_view {s : Serial} (h : Fit s) (val : Byte) :
    Fit (writeLcr s val) ∧ view (writeLcr s val) = if breaks s val then take (view s) 0x00 else view s := by
  have hquiet : Quiet s (if has (s.lcr ^^^ val) 0x3F then
      serialUpdateSpeed { s with lcr := val, bits := characterBits val } else { s with lcr := val }) :=
    quiet_if (Quiet.updateSpeed ⟨rfl, rfl⟩) ⟨rfl, rfl⟩
  unfold writeLcr breaks
  dsimp only
  generalize (if has (s.lcr ^^^ val) 0x3F = true then
      serialUpdateSpeed { s with lcr := val, bits := characterBits val } else { s with lcr := val }) = t at hquiet ⊢
  have hloop : has t.mctrl 0x10 = has s.mctrl 0x10 := congrArg Receiver.loopback hquiet.receiver
  rw [hloop, ← hquiet.receiver]
  split
  · exact loopbackBreak_view (hquiet.fit h)
  · exact ⟨hquiet.fit h, rfl⟩

def readOut (r : Receiver) (armed : Bool) : Receiver :=
  if r.fifoEnabled then
    let ready := if r.queue.length = 1 then false else r.ready
    { r with queue := r.queue.tail, ready, pending := false, timer := ready && armed }
  else { r with ready := false }

theorem readFifo_view {s : Serial} (h : Fit s) (hfifo : s.fifoEnabled = true) :
    Fit (readFifo s).2 ∧ (readFifo s).1 = (view s).queue.headD 0 ∧ view (readFifo s).2 = readOut (view s) (armed s) := by
  have hclear := view_clearTimeout s
  have hfit : Fit (serialClearTimeout s) := h.congr rfl
  have hbits : (rcvrRead (serialClearTimeout s)).2.bits = s.bits :=
    (rcvr_bits s.bits).read s.rcvrFifo (s := serialClearTimeout s) rfl
  have hread : Fit (rcvrRead (serialClearTimeout s)).2 ∧
      (rcvrRead (serialClearTimeout s)).1 = (view s).queue.headD 0 ∧ view (rcvrRead (serialClearTimeout s)).2 =
        { view s with
          queue := (view s).queue.tail
          ready := if (view s).queue.length = 1 then false else (view s).ready
          pending := false, timer := false } := by
    cases hqueue : (view s).queue with
    | nil =>
      have hnone : (view (serialClearTimeout s)).queue = [] := hqueue
      obtain ⟨hfit', hview⟩ := rcvrRead_none hfit hnone
      have hzero : (rcvrRead (serialClearTimeout s)).1 = 0 := by
        have hempty := hfit.sound.empty_iff.mpr hnone
        unfold rcvrRead
        rw [read_none rcvrEvents hempty]
      refine ⟨hfit', hzero, hview.trans (hclear.trans ?_)⟩
      simp [hqueue]
    | cons b bs =>
      have hsome : (view (serialClearTimeout s)).queue = b :: bs := hqueue
      obtain ⟨hfit', hbyte, hview⟩ := rcvrRead_some hfit hsome
      refine ⟨hfit', hbyte, hview.trans ?_⟩
      rw [hclear]
      cases bs <;> simp
  obtain ⟨hfit', hbyte, hview⟩ := hread
  unfold readFifo
  dsimp only
  generalize rcvrRead (serialClearTimeout s) = p at hbits hfit' hbyte hview ⊢
  have hready : has p.2.lsr 0x01 = if (view s).queue.length = 1 then false else (view s).ready :=
    congrArg Receiver.ready hview
  have hrearm : view (if has p.2.lsr 0x01 then { p.2 with timeoutTimer := armed p.2 } else p.2) =
      { view p.2 with timer := if has p.2.lsr 0x01 then armed p.2 else p.2.timeoutTimer } := by
    split <;> rfl
  refine ⟨?_, hbyte, hrearm.trans ?_⟩
  · split
    · exact hfit'.congr rfl
    · exact hfit'
  · have harmed : armed p.2 = armed s := by
      unfold armed
      rw [hbits]
    have hstopped : p.2.timeoutTimer = false := congrArg Receiver.timer hview
    have htimer (ready : Bool) : (if ready = true then armed s else false) = (ready && armed s) := by
      cases ready <;> rfl
    unfold readOut
    rw [if_pos (show (view s).fifoEnabled = true from hfifo), hready, harmed, hstopped, hview, htimer]

theorem readPlain_view (s : Serial) (hfifo : s.fifoEnabled = false) :
    (readPlain s).2.rcvrFifo = s.rcvrFifo ∧ view (readPlain s).2 = readOut (view s) (armed s) := by
  have hplain : (view s).fifoEnabled ≠ true := fun h => Bool.false_ne_true (hfifo.symm.trans h)
  have hready : has (s.lsr &&& 0xFE) 0x01 = false := by
    rw [has_one]
    simp
  have hpending := has_and (m := serialIntTimeout) (k := ~~~serialIntReceive) rfl s.intStatus
  refine ⟨rfl, ?_⟩
  unfold readPlain readOut
  rw [if_neg hplain]
  ext1 <;> first | rfl | exact hready | exact hpending

theorem readData_view {s : Serial} (h : Fit s) :
    Fit (readData s).2 ∧ view (readData s).2 = if has s.lcr 0x80 then view s else readOut (view s) (armed s) := by
  unfold readData
  split
  · exact ⟨h, rfl⟩
  · split
    · rename_i hfifo
      obtain ⟨hfit, -, hview⟩ := readFifo_view h hfifo
      exact ⟨hfit, hview⟩
    · rename_i hfifo
      obtain ⟨hsame, hview⟩ := readPlain_view s (Bool.not_eq_true _ ▸ hfifo)
      exact ⟨h.congr hsame, hview⟩

/-- All that an event can do to the receiver; `fed` is what the transmitter leaves in the shift register. -/
def after (s : Serial) (fed : Option Byte) : Event → Receiver
  | .arrives dat => { view s with shift := if (view s).loopback then (view s).shift else some dat }
  | .receiveTimer => if s.receiveTimer then received (view s) (armed s) else view s
  | .transmitTimer => { view s with shift := fed }
  | .timeoutTimer => if s.timeoutTimer then { view s with ready := true, pending := true, timer := false } else view s
  | .write 2 val => if s.type < serial16550 then view s else controlled (view s) val
  | .write 3 val => if breaks s val then take (view s) 0x00 else view s
  | .write 4 val => { view s with loopback := has val 0x10 }
  | .write 5 val => { view s with ready := has val 0x01 }
  | .write _ _ => view s
  | .read 0 => if has s.lcr 0x80 then view s else readOut (view s) (armed s)
  | .read _ => view s

theorem Quiet.step {s s' : Serial} (h : Fit s) (hquiet : Quiet s s') : Fit s' ∧ view s' = view s :=
  ⟨hquiet.fit h, hquiet.receiver⟩

theorem write_view {s : Serial} (h : Fit s) (addr : Fin 8) (val : Byte) (fed : Option Byte) :
    Fit (serialWrite s addr val) ∧ view (serialWrite s addr val) = after s fed (.write addr val) := by
  match addr with
  | 0 => exact (quiet_writeData s val).step h
  | 1 => exact (quiet_writeIer s val).step h
  | 2 =>
    change Fit (writeFcr s val) ∧ view (writeFcr s val) = if s.type < serial16550 then view s else controlled (view s) val
    split
    · rename_i hold
      rw [writeFcr_old hold]
      exact ⟨h, rfl⟩
    · rename_i hnew
      exact writeFcr_view h hnew val
  | 3 => exact writeLcr_view h val
  | 4 => exact ⟨h.congr (writeMctrl_view s val).1, (writeMctrl_view s val).2⟩
  | 5 => exact ⟨h.congr (writeLsr_view s val).1, (writeLsr_view s val).2⟩
  | 6 => exact (quiet_writeMsr s val).step h
  | 7 => exact (quiet_writeScratch s val).step h

theorem read_view {s : Serial} (h : Fit s) (addr : Fin 8) (fed : Option Byte) :
    Fit (serialRead s addr).2 ∧ view (serialRead s addr).2 = after s fed (.read addr) := by
  match addr with
  | 0 => exact readData_view h
  | 1 => exact ⟨h, rfl⟩
  | 2 => exact (quiet_readIir s).step h
  | 3 => exact ⟨h, rfl⟩
  | 4 => exact ⟨h, rfl⟩
  | 5 => exact (quiet_readLsr s).step h
  | 6 => exact (quiet_readMsr s).step h
  | 7 => exact ⟨h, rfl⟩

theorem timer_view {s t : Serial} (h : Fit s) (on : Bool) {r : Receiver} (ht : on = true → Fit t ∧ view t = r) :
    Fit (if on then t else s) ∧ view (if on then t else s) = if on then r else view s := by
  cases on with
  | true => exact ht rfl
  | false => exact ⟨h, rfl⟩

theorem port_view {s : Serial} (h : Fit s) (e : Event) :
    Fit (port.next s e) ∧ ∃ fed, ((view s).loopback = false → fed = (view s).shift) ∧
      view (port.next s e) = after s fed e := by
  cases e with
  | arrives dat =>
    obtain ⟨hsame, hview⟩ := writeFifo_view s dat
    exact ⟨h.congr hsame, (view s).shift, fun _ => rfl, hview⟩
  | receiveTimer =>
    obtain ⟨hfit, hview⟩ := timer_view h s.receiveTimer (r := received (view s) (armed s)) fun _ =>
      receiveTimer_view (s := { s with receiveTimer := false }) (h.congr rfl)
    exact ⟨hfit, (view s).shift, fun _ => rfl, hview⟩
  | transmitTimer =>
    change Fit (if s.transmitTimer then serialTransmitTimer { s with transmitTimer := false } else s) ∧ _
    split
    · rename_i hrun
      obtain ⟨⟨fed, hview, hfed⟩, hsame⟩ := feeds_transmitTimer { s with transmitTimer := false }
      refine ⟨h.congr hsame, fed, hfed, ?_⟩
      change view (if s.transmitTimer then serialTransmitTimer { s with transmitTimer := false } else s) = _
      rw [if_pos hrun]
      exact hview
    · rename_i hrun
      refine ⟨h, (view s).shift, fun _ => rfl, ?_⟩
      change view (if s.transmitTimer then serialTransmitTimer { s with transmitTimer := false } else s) = _
      rw [if_neg hrun]
      rfl
  | timeoutTimer =>
    obtain ⟨hfit, hview⟩ := timer_view h s.timeoutTimer
      (r := { view s with ready := true, pending := true, timer := false }) fun _ =>
        ⟨h.congr (timeoutTimer_view { s with timeoutTimer := false }).1,
          (timeoutTimer_view { s with timeoutTimer := false }).2⟩
    exact ⟨hfit, (view s).shift, fun _ => rfl, hview⟩
  | write addr val =>
    obtain ⟨hfit, hview⟩ := write_view h addr val (view s).shift
    exact ⟨hfit, (view s).shift, fun _ => rfl, hview⟩
  | read addr =>
    obtain ⟨hfit, hview⟩ := read_view h addr (view s).shift
    exact ⟨hfit, (view s).shift, fun _ => rfl, hview⟩

theorem init_fit (type : ℕ) : Fit (serialInit type) := by
  have hinit := sound_reset (f := fifoInit 16) (by decide)
  exact ⟨{ start := hinit.start, end_ := hinit.end_, full := hinit.full, empty := hinit.empty }, rfl⟩

theorem view_init (type : ℕ) : view (serialInit type) =
    { type, fifoEnabled := false, enable := false, queue := [], dat := 0, shift := none, loopback := false, ready := false,
      pending := false, timer := false } := by
  have hzero (mask : Byte) : has 0 mask = false := by simp [has]
  have hempty : has 0x60 0x01 = false := by decide
  unfold serialInit
  rw [view_updateInts]
  change ({ type, fifoEnabled := false, enable := has 0 1, queue := [], dat := 0, shift := none, loopback := has 0 0x10
            ready := has 0x60 0x01, pending := has 0 serialIntTimeout, timer := false } : Receiver) = _
  rw [hzero, hzero, hzero, hempty]

end PeepeeBox.UartReceiver
