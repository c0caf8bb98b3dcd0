import PeepeeBox.EventFifo
import PeepeeBox.TraceMachine

set_option autoImplicit false

/-!
# The serial port

`serial.c`: the registers, the two FIFOs with the events they raise, and the three timers, of which only
whether they run is kept.  The interrupt line and what the transmitter sends out are left out, and no
character device is attached.
-/
namespace PeepeeBox.Uart
open EventFifo TraceMachine

def serial16450 : ℕ := 3
def serial16550 : ℕ := 4

def serialIntLsr : Byte := 1
def serialIntTimeout : Byte := 2
def serialIntReceive : Byte := 4
def serialIntTransmit : Byte := 8
def serialIntMsr : Byte := 16

structure Serial where
  type : ℕ
  lsr : Byte
  thr : Byte
  mctrl : Byte
  iir : Byte
  ier : Byte
  lcr : Byte
  msr : Byte
  dat : Byte
  intStatus : Byte
  scratch : Byte
  fcr : Byte
  transmitEnabled : Byte
  fifoEnabled : Bool
  bits : ℕ
  dataBits : ℕ
  baudCycles : Byte
  txsr : Byte
  txsrEmpty : Bool
  msrSet : Byte
  dlab : BitVec 16
  /-- The receive shift register; empty at 0xffff. -/
  outNew : Option Byte
  thrEmpty : Bool
  rcvrFifo : Fifo
  xmitFifo : Fifo
  transmitTimer : Bool
  timeoutTimer : Bool
  receiveTimer : Bool

def ierMap : List Byte := [0x04, 0x01, 0x01, 0x02, 0x08, 0x40, 0x80]
def iirMap : List Byte := [0x06, 0x0C, 0x04, 0x02, 0x00, 0x0E, 0x0A]

def serialUpdateInts (s : Serial) : Serial :=
  let iir := s.iir &&& 0xF0 ||| 0x01
  let first := (List.range 7).find? fun i => has s.ier (ierMap.getD i 0) && has s.intStatus (1 <<< i)
  { s with
    iir :=
      match first with
      | some i => iir &&& 0xF0 ||| iirMap.getD i 0
      | none => iir }

def armed (s : Serial) : Bool := s.bits ≠ 0

def serialClearTimeout (s : Serial) : Serial :=
  serialUpdateInts { s with timeoutTimer := false, intStatus := s.intStatus &&& ~~~serialIntTimeout }

def serialRcvrDEmptyEvt (f : Fifo) (s : Serial) : Serial :=
  { s with lsr := s.lsr &&& 0xFE ||| if f.empty then 0 else 1 }

def serialRcvrDOverrunEvt (f : Fifo) (s : Serial) : Serial :=
  { s with lsr := s.lsr &&& 0xFD ||| if f.overrun then 2 else 0 }

def serialRcvrDReadyEvt (f : Fifo) (s : Serial) : Serial :=
  serialUpdateInts
    { s with intStatus := s.intStatus &&& ~~~serialIntReceive ||| if f.ready then serialIntReceive else 0 }

def rcvrEvents : Events Serial :=
  { dEmptyEvt := serialRcvrDEmptyEvt, dOverrunEvt := serialRcvrDOverrunEvt, dReadyEvt := serialRcvrDReadyEvt }

def serialXmitDEmptyEvt (f : Fifo) (s : Serial) : Serial :=
  let isEmpty := if s.fifoEnabled then f.empty else s.thrEmpty
  { s with
    lsr := s.lsr &&& 0x9F ||| (if isEmpty then 0x20 else 0) ||| if s.txsrEmpty && isEmpty then 0x40 else 0
    intStatus := s.intStatus &&& ~~~serialIntTransmit ||| if isEmpty then serialIntTransmit else 0 }

def xmitEvents : Events Serial := { dEmptyEvt := serialXmitDEmptyEvt }

def rcvrWrite (s : Serial) (val : Byte) : Serial :=
  let (f, s) := fifoWriteEvt rcvrEvents val s.rcvrFifo s
  { s with rcvrFifo := f }

def rcvrRead (s : Serial) : Byte × Serial :=
  let (ret, f, s) := fifoReadEvt rcvrEvents s.rcvrFifo s
  (ret, { s with rcvrFifo := f })

def rcvrReset (s : Serial) : Serial :=
  let (f, s) := fifoResetEvt rcvrEvents s.rcvrFifo s
  { s with rcvrFifo := f }

def xmitWrite (s : Serial) (val : Byte) : Serial :=
  let (f, s) := fifoWriteEvt xmitEvents val s.xmitFifo s
  { s with xmitFifo := f }

def xmitRead (s : Serial) : Byte × Serial :=
  let (ret, f, s) := fifoReadEvt xmitEvents s.xmitFifo s
  (ret, { s with xmitFifo := f })

def xmitReset (s : Serial) : Serial :=
  let (f, s) := fifoResetEvt xmitEvents s.xmitFifo s
  { s with xmitFifo := f }

def receiveFifo (s : Serial) (b : Byte) : Serial :=
  let s := serialClearTimeout s
  let s := { rcvrWrite s b with outNew := none }
  { s with timeoutTimer := armed s }

def receivePlain (s : Serial) (b : Byte) : Serial :=
  let s := if has s.lsr 0x01 then { s with lsr := s.lsr ||| 0x02 } else s
  let s := { s with dat := b, outNew := none }
  let s := { s with lsr := s.lsr ||| 0x01, intStatus := s.intStatus ||| serialIntReceive }
  let s := if has s.lsr 0x02 then { s with intStatus := s.intStatus ||| serialIntLsr } else s
  serialUpdateInts s

def serialReceiveTimer (s : Serial) : Serial :=
  let s := { s with receiveTimer := armed s }
  match s.outNew with
  | none => s
  | some b => if s.fifoEnabled then receiveFifo s b else receivePlain s b

def writeFifo (s : Serial) (dat : Byte) : Serial := { s with outNew := some dat }

def serialReceiveLoopbackBreak (s : Serial) : Serial :=
  let s :=
    if s.fifoEnabled then rcvrWrite s 0x00
    else
      let s := if has s.lsr 0x01 then { s with lsr := s.lsr ||| 0x02 } else s
      { s with dat := 0x00, lsr := s.lsr ||| 0x01, intStatus := s.intStatus ||| serialIntReceive }
  serialUpdateInts { s with lsr := s.lsr ||| 0x1C, intStatus := s.intStatus ||| serialIntLsr }

def serialWriteFifo (s : Serial) (dat : Byte) : Serial := if has s.mctrl 0x10 then s else writeFifo s dat

def serialTimeoutTimer (s : Serial) : Serial :=
  serialUpdateInts { s with lsr := s.lsr ||| 0x01, intStatus := s.intStatus ||| serialIntTimeout }

def serialTransmit (s : Serial) (val : Byte) : Serial := if has s.mctrl 0x10 then writeFifo s val else s

def fillTxsr (s : Serial) : Serial :=
  if s.fifoEnabled then
    let (b, s) := xmitRead s
    { s with txsr := b }
  else
    let s := { s with txsr := s.thr, thr := 0, thrEmpty := true }
    serialXmitDEmptyEvt s.xmitFifo s

def stopMoving (s : Serial) : Serial :=
  if !s.fifoEnabled || fifoGetCount s.xmitFifo = 0 then
    let s := serialUpdateInts s
    { s with transmitEnabled := s.transmitEnabled &&& ~~~1 }
  else s

def serialMoveToTxsr (s : Serial) : Serial :=
  let s := fillTxsr { s with txsrEmpty := false }
  let s := stopMoving { s with lsr := s.lsr &&& ~~~0x40 }
  { s with transmitEnabled := s.transmitEnabled ||| 2 }

def goOn (s : Serial) : Serial :=
  if s.fifoEnabled && fifoGetCount s.xmitFifo ≠ 0 then { s with transmitEnabled := s.transmitEnabled ||| 1 }
  else { s with transmitEnabled := s.transmitEnabled &&& ~~~2 }

def serialProcessTxsr (s : Serial) : Serial :=
  let s := serialTransmit s s.txsr
  let s := { s with txsr := 0, txsrEmpty := true }
  let s := serialXmitDEmptyEvt s.xmitFifo s
  serialUpdateInts (goOn { s with baudCycles := 0 })

def serialTransmitTimer (s : Serial) : Serial :=
  if has s.transmitEnabled 3 then
    let delay := if has s.transmitEnabled 1 && has s.transmitEnabled 2 then s.dataBits + 1 else 1
    let s := { s with baudCycles := s.baudCycles + 1 }
    let s := if s.baudCycles.toNat = s.bits + 1 && has s.transmitEnabled 2 then serialProcessTxsr s else s
    let s := if s.baudCycles.toNat = delay && has s.transmitEnabled 1 then serialMoveToTxsr s else s
    if has s.transmitEnabled 3 then { s with transmitTimer := true } else s
  else { s with baudCycles := 0 }

def serialUpdateSpeed (s : Serial) : Serial :=
  let s := { s with receiveTimer := armed s }
  if has s.transmitEnabled 3 then { s with transmitTimer := true } else s

def writeData (s : Serial) (val : Byte) : Serial :=
  if has s.lcr 0x80 then serialUpdateSpeed { s with dlab := s.dlab &&& 0xFF00 ||| val.setWidth 16 }
  else if s.fifoEnabled && decide (fifoGetCount s.xmitFifo < 16) then
    xmitWrite { s with transmitTimer := true, transmitEnabled := s.transmitEnabled ||| 1 } val
  else if !s.fifoEnabled then
    let s := serialUpdateInts { s with lsr := s.lsr &&& 0x9F, intStatus := s.intStatus &&& ~~~serialIntTransmit }
    { s with transmitTimer := true, transmitEnabled := s.transmitEnabled ||| 1, thr := val, thrEmpty := false }
  else s

def writeIer (s : Serial) (val : Byte) : Serial :=
  if has s.lcr 0x80 then serialUpdateSpeed { s with dlab := s.dlab &&& 0x00FF ||| val.setWidth 16 <<< 8 }
  else
    let s := if has val 2 && has s.lsr 0x20 then { s with intStatus := s.intStatus ||| serialIntTransmit } else s
    serialUpdateInts { s with ier := val &&& 0xF }

def serialResetFifo (s : Serial) : Serial := serialUpdateInts (rcvrReset (xmitReset s))

def triggerLen (val : Byte) : ℕ := [1, 4, 8, 14].getD (val >>> 6).toNat 0

def writeFcr (s : Serial) (val : Byte) : Serial :=
  if s.type < serial16550 then s
  else
    let s := if has (val ^^^ s.fcr) 0x01 then serialResetFifo s else s
    let s := { s with fcr := val &&& 0xF9, fifoEnabled := has val 0x01 }
    if !s.fifoEnabled then { s with xmitFifo := fifoReset s.xmitFifo, rcvrFifo := fifoReset s.rcvrFifo }
    else
      let s := if has val 0x02 then rcvrReset s else s
      let s := if has val 0x04 then xmitReset s else s
      { s with
        rcvrFifo := { s.rcvrFifo with triggerLen := triggerLen val }
        xmitFifo := { s.xmitFifo with triggerLen := 16 }
        outNew := none }

def characterBits (lcr : Byte) : ℕ :=
  (lcr &&& 0x03).toNat + 5 + 1 + 1 + (if has lcr 0x04 then 1 else 0) + if has lcr 0x08 then 1 else 0

def writeLcr (s : Serial) (val : Byte) : Serial :=
  let old := s.lcr
  let s := { s with lcr := val }
  let s := if has (old ^^^ val) 0x3F then serialUpdateSpeed { s with bits := characterBits val } else s
  if !has old 0x40 && has val 0x40 && has s.mctrl 0x10 then serialReceiveLoopbackBreak s else s

def raiseMsr (s : Serial) : Serial :=
  if has s.msr 0x0F then serialUpdateInts { s with intStatus := s.intStatus ||| serialIntMsr } else s

/-- The modem inputs changed to the high half of `msr`. -/
def latchMsr (msr newMsr : Byte) : Byte :=
  newMsr ||| (if has (msr ^^^ newMsr) 0x10 then 0x01 else 0) ||| (if has (msr ^^^ newMsr) 0x20 then 0x02 else 0) |||
    (if has (msr ^^^ newMsr) 0x80 then 0x08 else 0) ||| if has msr 0x40 && !has newMsr 0x40 then 0x04 else 0

def writeMctrl (s : Serial) (val : Byte) : Serial :=
  let old := s.mctrl
  let s := { s with mctrl := val &&& 0x1F }
  if has val 0x10 then
    let newMsr :=
      (val &&& 0x0C) <<< 4 ||| (if has val 0x02 then 0x10 else 0) ||| (if has val 0x01 then 0x20 else 0) |||
        (s.msr &&& 0x0F)
    raiseMsr { s with msr := latchMsr s.msr newMsr }
  else if has old 0x10 then raiseMsr { s with msr := latchMsr s.msr (s.msrSet &&& 0xF0 ||| s.msr &&& 0x0F) }
  else s

def writeLsr (s : Serial) (val : Byte) : Serial :=
  let s := { s with lsr := s.lsr &&& 0xE0 ||| val &&& 0x1F }
  let s := if has s.lsr 0x01 then { s with intStatus := s.intStatus ||| serialIntReceive } else s
  let s := if has s.lsr 0x1E then { s with intStatus := s.intStatus ||| serialIntLsr } else s
  let s := if has s.lsr 0x20 then { s with intStatus := s.intStatus ||| serialIntTransmit } else s
  serialUpdateInts s

def writeMsr (s : Serial) (val : Byte) : Serial :=
  let s := { s with msr := s.msr &&& 0xF0 ||| val &&& 0x0F }
  serialUpdateInts
    (if has s.msr 0x0F then { s with intStatus := s.intStatus ||| serialIntMsr }
    else { s with intStatus := s.intStatus &&& ~~~serialIntMsr })

def writeScratch (s : Serial) (val : Byte) : Serial :=
  if serial16450 ≤ s.type then { s with scratch := val } else s

def serialWrite (s : Serial) (addr : Fin 8) (val : Byte) : Serial :=
  match addr with
  | 0 => writeData s val
  | 1 => writeIer s val
  | 2 => writeFcr s val
  | 3 => writeLcr s val
  | 4 => writeMctrl s val
  | 5 => writeLsr s val
  | 6 => writeMsr s val
  | 7 => writeScratch s val

def readFifo (s : Serial) : Byte × Serial :=
  let (ret, s) := rcvrRead (serialClearTimeout s)
  (ret, if has s.lsr 0x01 then { s with timeoutTimer := armed s } else s)

def readPlain (s : Serial) : Byte × Serial :=
  (s.dat, serialUpdateInts { s with lsr := s.lsr &&& 0xFE, intStatus := s.intStatus &&& ~~~serialIntReceive })

def readData (s : Serial) : Byte × Serial :=
  if has s.lcr 0x80 then (s.dlab.setWidth 8, s) else if s.fifoEnabled then readFifo s else readPlain s

def readIer (s : Serial) : Byte := if has s.lcr 0x80 then (s.dlab >>> 8).setWidth 8 else s.ier

def readIir (s : Serial) : Byte × Serial :=
  let ret := s.iir
  (if has s.fcr 1 then ret ||| 0xC0 else ret,
    if ret &&& 0xE = 2 then serialUpdateInts { s with intStatus := s.intStatus &&& ~~~serialIntTransmit } else s)

def readLsr (s : Serial) : Byte × Serial :=
  let ret := s.lsr
  let s := if has s.lsr 0x1F then { s with lsr := s.lsr &&& ~~~0x1E } else s
  (ret, serialUpdateInts { s with intStatus := s.intStatus &&& ~~~serialIntLsr })

def readMsr (s : Serial) : Byte × Serial :=
  (if has s.mctrl 0x10 then s.msr else s.msr ||| s.msrSet,
    serialUpdateInts { s with msr := s.msr &&& ~~~0x0F, intStatus := s.intStatus &&& ~~~serialIntMsr })

def serialRead (s : Serial) (addr : Fin 8) : Byte × Serial :=
  match addr with
  | 0 => readData s
  | 1 => (readIer s, s)
  | 2 => readIir s
  | 3 => (s.lcr, s)
  | 4 => (s.mctrl, s)
  | 5 => readLsr s
  | 6 => readMsr s
  | 7 => (s.scratch, s)

def serialInit (type : ℕ) : Serial :=
  serialUpdateInts
    { type, lsr := 0x60, thr := 0, mctrl := 0, iir := 0, ier := 0, lcr := 0, msr := 0, dat := 0, intStatus := 0,
      scratch := 0, fcr := 0, transmitEnabled := 0, fifoEnabled := false, bits := 0, dataBits := 0, baudCycles := 0,
      txsr := 0, txsrEmpty := true, msrSet := 0, dlab := 96, outNew := none, thrEmpty := true,
      rcvrFifo := fifoInit 16, xmitFifo := fifoInit 16, transmitTimer := false, timeoutTimer := false,
      receiveTimer := false }

inductive Event where
  | arrives (dat : Byte)
  | receiveTimer
  | transmitTimer
  | timeoutTimer
  | write (addr : Fin 8) (val : Byte)
  | read (addr : Fin 8)
  deriving DecidableEq

/-- A timer that does not run does not fire, and one that fires has stopped. -/
def port : Machine Serial Event Byte where
  step s e :=
    match e with
    | .arrives dat => (serialWriteFifo s dat, none)
    | .receiveTimer => (if s.receiveTimer then serialReceiveTimer { s with receiveTimer := false } else s, none)
    | .transmitTimer => (if s.transmitTimer then serialTransmitTimer { s with transmitTimer := false } else s, none)
    | .timeoutTimer => (if s.timeoutTimer then serialTimeoutTimer { s with timeoutTimer := false } else s, none)
    | .write addr val => (serialWrite s addr val, none)
    | .read addr => let (ret, s) := serialRead s addr; (s, some ret)

end PeepeeBox.Uart
