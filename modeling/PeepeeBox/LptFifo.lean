import PeepeeBox.TaggedFifo

set_option autoImplicit false

/-!
# The FIFO of a parallel port

The extended capabilities of `lpt.c` in the forward direction.  One timer fills the FIFO from a DMA channel and
empties it into the attached device.  No character device is attached.
-/
namespace PeepeeBox.LptFifo
open EventFifo TaggedFifo

inductive Event where
  | writeData (val : Byte)
  | strobe (old val : Bool)
deriving DecidableEq, Repr

structure Attached where
  writeData : Bool
  strobe : Bool
  readStatus : Option (List Event → Byte)
  readCtrl : Option (List Event → Byte)

inductive LptState where
  | idle
  | readDma
  | writeFifo
deriving DecidableEq, Repr

structure Port where
  outputEnabled : Bool
  irq : Byte
  irqState : Bool
  dma : Byte
  ctrl : Byte
  ext : Bool
  epp : Bool
  ecp : Bool
  ecr : Byte
  retEcr : Byte
  fifoStat : Byte
  dmaStat : Byte
  state : LptState
  strobe : Bool
  enableIrq : Byte
  /-- `ext_regs[0x02]`. -/
  extRegs2 : Byte
  dt : Option Attached
  /-- `fifo_out_timer` is enabled. -/
  timer : Bool
  told : List Event

structure Lpt where
  port : Port
  fifo : Tagged

/-- A port as `lpt_init` leaves it, with its channel, its line and what is attached. -/
def lptInit (dma irq : Byte) (dt : Option Attached) : Lpt where
  port :=
    { outputEnabled := true, irq := irq, irqState := false, dma := dma, ctrl := 0x00, ext := false, epp := false
      ecp := false, ecr := 0x15, retEcr := 0x15, fifoStat := 0x00, dmaStat := 0x00, state := .idle, strobe := false
      enableIrq := 0x00, extRegs2 := 0x80, dt := dt, timer := false, told := [] }
  fifo := fifoInit 16 8

def lptGetCtrlRaw (dev : Port) : Byte :=
  match dev.dt.bind Attached.readCtrl with
  | some readCtrl => readCtrl dev.told &&& 0xEF ||| dev.enableIrq
  | none => 0xC0 ||| dev.ctrl ||| dev.enableIrq

def lptIsEpp (dev : Port) : Bool := dev.epp || (dev.ecp && dev.ecr &&& 0xE0 == 0x80)

def lptEcpUpdateIrq (dev : Port) : Port :=
  if dev.irq = 0xFF then dev
  else { dev with irqState := dev.ecr &&& 0x04 == 0 && (dev.fifoStat ||| dev.dmaStat) &&& 0x04 != 0 }

def lptFifoDReadyEvt (f : Fifo) (dev : Port) : Port :=
  if dev.ecr &&& 0x08 = 0 then
    let waiting :=
      if dev.ecr &&& 0xE0 = 0xC0 ∨ dev.ecr &&& 0xE0 = 0x40 ∨ lptGetCtrlRaw dev &&& 0x20 ≠ 0 then f.ready else !f.ready
    lptEcpUpdateIrq { dev with fifoStat := if waiting then 0x04 else 0x00 }
  else lptEcpUpdateIrq dev

def events : Events Port where
  dReadyEvt := lptFifoDReadyEvt

def lptWriteFifo (dev : Lpt) (val tag : Byte) : Lpt :=
  if dev.fifo.fifo.full then dev
  else
    let (fifo, port) := fifoWriteEvtTagged events tag val dev.fifo dev.port
    ⟨{ port with timer := true }, fifo⟩

def writeData (dev : Port) (val : Byte) : Port :=
  if dev.outputEnabled ∧ dev.dt.any Attached.writeData then { dev with told := dev.told ++ [.writeData val] } else dev

def lptStrobe (dev : Port) (val : Bool) : Port :=
  { dev with
    told := dev.told ++ if dev.outputEnabled ∧ dev.dt.any Attached.strobe then [.strobe dev.strobe val] else []
    strobe := val }

def readDma (dev : Lpt) (answer : Option (Byte × Bool)) : Lpt :=
  let dev : Lpt :=
    match if dev.port.dma = 0xFF then none else answer with
    | some (val, tc) =>
      let (fifo, port) := fifoWriteEvtTagged events 0x01 val dev.fifo dev.port
      -- the internal flag
      ⟨if tc then { port with dmaStat := 0x08 } else port, fifo⟩
    | none => { dev with port := { dev.port with fifoStat := dev.port.fifoStat &&& 0xFB } }
  let dev := { dev with port := { dev.port with timer := true } }
  if dev.port.dmaStat ≠ 0 ∨ dev.fifo.fifo.full = true then
    { dev with port := { dev.port with state := .writeFifo } }
  else dev

def takeByte (dev : Lpt) : Lpt :=
  if dev.fifo.fifo.empty then dev
  else
    let (tag, val, fifo, port) := fifoReadEvtTagged events dev.fifo dev.port
    ⟨if tag = 0x01 then lptStrobe (lptStrobe (writeData port val) true) false else port, fifo⟩

def rearm (dev : Lpt) : Lpt :=
  if dev.port.ecr &&& 0xE0 ≠ 0xC0 ∧ dev.port.ecr &&& 0x08 ≠ 0 then
    if dev.fifo.fifo.empty then
      if dev.port.dmaStat ≠ 0 then
        -- now the external flag
        { dev with port := lptEcpUpdateIrq { dev.port with dmaStat := 0x04, state := .idle } }
      else { dev with port := { dev.port with state := .readDma, timer := true } }
    else { dev with port := { dev.port with timer := true } }
  else if dev.fifo.fifo.empty then dev
  else { dev with port := { dev.port with timer := true } }

def lptFifoOutCallback (dev : Lpt) (answer : Option (Byte × Bool)) : Lpt :=
  if dev.port.ecr &&& 0xE0 = 0xC0 then dev
  else
    match dev.port.state with
    | .idle => dev
    | .readDma => readDma dev answer
    | .writeFifo => rearm (takeByte dev)

def timerTick (dev : Lpt) (answer : Option (Byte × Bool)) : Lpt :=
  if dev.port.timer then lptFifoOutCallback { dev with port := { dev.port with timer := false } } answer else dev

/-- A write to the data FIFO, `case 0x0400`. -/
def lptWrite0400 (dev : Lpt) (val : Byte) : Lpt :=
  match dev.port.ecr.toNat / 0x20 with
  | 2 | 6 => lptWriteFifo dev val 0x01
  | 3 => if lptGetCtrlRaw dev.port &&& 0x20 = 0 then lptWriteFifo dev val 0x01 else dev
  | _ => dev

def selectMode (dev : Lpt) (val : Byte) : Lpt :=
  if val &&& 0xC0 = 0x40 then
    let port :=
      if dev.port.ecr &&& 0x0C ≠ 0x08 ∧ val &&& 0x0C = 0x08 then { dev.port with dmaStat := 0x00, state := .readDma }
      else if val &&& 0x0C ≠ 0x08 then { dev.port with state := .writeFifo }
      else dev.port
    { dev with port := { port with timer := true } }
  else
    { fifo := if dev.port.ecr &&& 0xC0 ≠ 0 ∧ val &&& 0xC0 = 0 then fifoReset dev.fifo else dev.fifo
      port := { dev.port with state := .idle, timer := false } }

def storeEcr (dev : Port) (val : Byte) : Port :=
  let mode := val &&& 0xE0
  { dev with
    ecr :=
      if dev.extRegs2 &&& 0x80 ≠ 0 then val
      else if mode = 0x00 ∨ mode = 0x20 ∨ mode = 0x80 then val &&& 0x1F ||| 0x60
      else dev.ecr
    retEcr := val }

/-- A write to the extended control register, `case 0x0402`. -/
def lptWrite0402 (dev : Lpt) (val : Byte) : Lpt :=
  let dev := selectMode dev val
  { dev with port := lptFifoDReadyEvt dev.fifo.fifo (storeEcr dev.port val) }

def lptReadStatus (dev : Port) : Byte × Port :=
  let (low, dev) : Byte × Port :=
    if dev.ext then (0x03 ||| if dev.irqState then 0x00 else 0x04, { dev with irqState := false }) else (0x07, dev)
  let low :=
    if dev.epp || dev.ecp then
      (if lptIsEpp dev then 0x02 else 0x03) |||
        if lptGetCtrlRaw dev &&& 0x10 ≠ 0 ∧ dev.irqState = true then 0x00 else 0x04
    else low
  match dev.dt.bind Attached.readStatus with
  | some readStatus => (readStatus dev.told &&& 0xF8 ||| low, dev)
  | none => (0xD8 ||| low, dev)

def lptRead0402 (dev : Lpt) : Byte :=
  let ret := dev.port.retEcr &&& 0xFC
  if 0x20 < (dev.port.ecr &&& 0xE0).toNat then
    let ret := ret ||| dev.port.fifoStat ||| (dev.port.dmaStat &&& 0x04)
    let ret := if dev.fifo.fifo.full then ret ||| 0x02 else ret &&& 0xFD
    if dev.fifo.fifo.empty then ret ||| 0x01 else ret &&& 0xFE
  else ret ||| 0x01

end PeepeeBox.LptFifo
