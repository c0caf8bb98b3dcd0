import PeepeeBox.Bytes

set_option autoImplicit false

/-!
# The receiving side of a serial port

`serial.c`: a byte on its way from a device to the guest waits in the receive shift register until
the receive timer moves it into the receive buffer.  The interrupts and the timeout timer are left
out, and no character device is attached.
-/
namespace PeepeeBox.SerialReceive

structure Serial where
  fifoEnabled : Bool
  mctrl : Byte
  lcr : Byte
  lsr : Byte
  dlab : BitVec 16
  /-- The receive shift register. -/
  outNew : Option Byte
  /-- The receive buffer without the FIFO. -/
  dat : Byte
  rcvrFifo : List Byte
  overrun : Bool

def rcvrLen : ℕ := 16

def fifoWrite (s : Serial) (val : Byte) : Serial :=
  if s.rcvrFifo.length = rcvrLen then
    { s with overrun := true, lsr := if s.overrun then s.lsr else s.lsr &&& 0xFD ||| 0x02 }
  else
    { s with rcvrFifo := s.rcvrFifo ++ [val], lsr := if s.rcvrFifo = [] then s.lsr &&& 0xFE ||| 0x01 else s.lsr }

def fifoRead (s : Serial) : Byte × Serial :=
  match s.rcvrFifo with
  | [] => (0, s)
  | b :: rest => (b, { s with rcvrFifo := rest, lsr := if rest = [] then s.lsr &&& 0xFE else s.lsr })

def receiveTimer (s : Serial) : Serial :=
  match s.outNew with
  | none => s
  | some b =>
    if s.fifoEnabled then { fifoWrite s b with outNew := none }
    else
      let s := if s.lsr &&& 0x01 ≠ 0 then { s with lsr := s.lsr ||| 0x02 } else s
      { s with dat := b, outNew := none, lsr := s.lsr ||| 0x01 }

def writeFifo (s : Serial) (dat : Byte) : Serial :=
  if s.mctrl &&& 0x10 = 0 then { s with outNew := some dat } else s

/-- `serial_read` of the data register. -/
def readData (s : Serial) : Byte × Serial :=
  if s.lcr &&& 0x80 ≠ 0 then (s.dlab.setWidth 8, s)
  else if s.fifoEnabled then fifoRead s
  else (s.dat, { s with lsr := s.lsr &&& 0xFE })

/-- `serial_read` of the line status register. -/
def readStatus (s : Serial) : Byte × Serial :=
  (s.lsr, if s.lsr &&& 0x1F ≠ 0 then { s with lsr := s.lsr &&& 0xE1 } else s)

def buffered (s : Serial) : List Byte :=
  if s.fifoEnabled then s.rcvrFifo else if s.lsr &&& 0x01 ≠ 0 then [s.dat] else []

def room (s : Serial) : Bool := (buffered s).length < if s.fifoEnabled then rcvrLen else 1

def ready (s : Serial) : Bool := s.lsr &&& 0x01 ≠ 0

structure Listening (s : Serial) : Prop where
  loopback : s.mctrl &&& 0x10 = 0
  dlab : s.lcr &&& 0x80 = 0
  status : s.fifoEnabled = true → (ready s = true ↔ s.rcvrFifo ≠ [])

theorem Listening.ready_iff {s : Serial} (h : Listening s) : ready s = true ↔ buffered s ≠ [] := by
  unfold buffered
  by_cases hfifo : s.fifoEnabled = true
  · rw [if_pos hfifo]
    exact h.status hfifo
  · rw [if_neg hfifo]
    unfold ready
    simp

theorem ready_set (lsr : Byte) : (lsr &&& 0xFE ||| 0x01) &&& 0x01 ≠ 0 := by
  revert lsr
  decide +kernel

theorem ready_or (lsr : Byte) : (lsr ||| 0x01) &&& 0x01 ≠ 0 := by
  revert lsr
  decide +kernel

theorem ready_cleared (lsr : Byte) : lsr &&& 0xFE &&& 0x01 = 0 := by
  revert lsr
  decide +kernel

theorem ready_errors (lsr : Byte) : lsr &&& 0xE1 &&& 0x01 = lsr &&& 0x01 := by
  revert lsr
  decide +kernel

theorem writeFifo_eq {s : Serial} (h : Listening s) (dat : Byte) : writeFifo s dat = { s with outNew := some dat } := by
  unfold writeFifo
  rw [if_pos h.loopback]

theorem receive_none {s : Serial} (h : s.outNew = none) : receiveTimer s = s := by
  unfold receiveTimer
  rw [h]

theorem receive_some {s : Serial} (h : Listening s) {b : Byte} (hnew : s.outNew = some b) (hroom : room s = true) :
    Listening (receiveTimer s) ∧ buffered (receiveTimer s) = buffered s ++ [b] ∧
      (receiveTimer s).outNew = none := by
  unfold room at hroom
  have hlt := of_decide_eq_true hroom
  unfold receiveTimer
  rw [hnew]
  dsimp only
  by_cases hfifo : s.fifoEnabled = true
  · unfold buffered at hlt ⊢
    rw [if_pos hfifo, if_pos hfifo] at hlt
    rw [if_pos hfifo, if_pos hfifo]
    have hwrite : fifoWrite s b =
        { s with rcvrFifo := s.rcvrFifo ++ [b], lsr := if s.rcvrFifo = [] then s.lsr &&& 0xFE ||| 0x01 else s.lsr } := by
      unfold fifoWrite
      rw [if_neg (by omega)]
    rw [hwrite]
    refine ⟨⟨h.loopback, h.dlab, fun _ => ?_⟩, if_pos hfifo, rfl⟩
    have hset : ready { s with
        rcvrFifo := s.rcvrFifo ++ [b], lsr := if s.rcvrFifo = [] then s.lsr &&& 0xFE ||| 0x01 else s.lsr } = true := by
      by_cases hempty : s.rcvrFifo = []
      · unfold ready
        rw [if_pos hempty]
        exact decide_eq_true (ready_set s.lsr)
      · have hready := (h.status hfifo).mpr hempty
        unfold ready at hready ⊢
        rw [if_neg hempty]
        exact hready
    exact ⟨fun _ => by simp, fun _ => hset⟩
  · unfold buffered at hlt ⊢
    rw [if_neg hfifo, if_neg hfifo] at hlt
    rw [if_neg hfifo, if_neg hfifo]
    have hfree : ¬ s.lsr &&& 0x01 ≠ 0 := by
      intro hset
      rw [if_pos hset] at hlt
      exact Nat.lt_irrefl 1 hlt
    rw [if_neg hfree, if_neg hfree]
    refine ⟨⟨h.loopback, h.dlab, fun h' => absurd h' hfifo⟩, ?_, rfl⟩
    dsimp only
    rw [if_neg hfifo, if_pos (ready_or s.lsr)]
    rfl

theorem read_ready {s : Serial} (h : Listening s) (hready : ready s = true) :
    Listening (readData s).2 ∧ buffered s = (readData s).1 :: buffered (readData s).2 ∧
      (readData s).2.outNew = s.outNew := by
  unfold readData
  rw [if_neg (not_not_intro h.dlab)]
  by_cases hfifo : s.fifoEnabled = true
  · rw [if_pos hfifo]
    unfold fifoRead buffered
    obtain ⟨b, rest, heq⟩ := List.exists_cons_of_ne_nil ((h.status hfifo).mp hready)
    rw [if_pos hfifo, heq]
    refine ⟨⟨h.loopback, h.dlab, fun _ => ?_⟩, ?_, rfl⟩
    · unfold ready at hready ⊢
      by_cases hempty : rest = []
      · simpa [hempty] using ready_cleared s.lsr
      · simpa [hempty] using hready
    · rw [if_pos hfifo]
  · rw [if_neg hfifo]
    unfold buffered
    rw [if_neg hfifo, if_neg hfifo, if_pos (of_decide_eq_true hready), if_neg (not_not_intro (ready_cleared s.lsr))]
    exact ⟨⟨h.loopback, h.dlab, fun h' => absurd h' hfifo⟩, rfl, rfl⟩

theorem status_same {s : Serial} (h : Listening s) :
    Listening (readStatus s).2 ∧ buffered (readStatus s).2 = buffered s ∧ (readStatus s).2.outNew = s.outNew := by
  unfold readStatus
  dsimp only
  split
  · refine ⟨⟨h.loopback, h.dlab, fun hfifo => ?_⟩, ?_, rfl⟩
    · have hstatus := h.status hfifo
      unfold ready at hstatus ⊢
      rwa [ready_errors]
    · unfold buffered
      rw [ready_errors]
  · exact ⟨h, rfl, rfl⟩

end PeepeeBox.SerialReceive
