import Mathlib.Data.Int.Notation
import Mathlib.Logic.Function.Basic
import PeepeeBox.Bytes

set_option autoImplicit false

/-!
# The edge-exact interval timer

`pit_exact.c`: three channels of an 8253 or an 8254, advanced by one clock edge at a time.
-/
namespace PeepeeBox.Pit

inductive Chip where
  | i8253 | i8254
deriving DecidableEq, Repr

inductive PitState where
  | waitCount | waitTrigger | waitGate | loadNext | counting | reloadNext | strobeRecover | done
deriving DecidableEq, Repr

structure Channel where
  type : Chip
  control : Byte
  modeRaw : ℕ
  mode : ℕ
  rwMode : ℕ
  bcd : Bool
  writePhase : ℕ
  readPhase : ℕ
  countLatched : Bool
  statusLatched : Bool
  outputLatch : ℕ
  statusLatch : Byte
  countRegister : ℕ
  /-- 0x10000 represents a reload of zero. -/
  countingElement : ℕ
  nullCount : Bool
  gate : Bool
  output : Bool
  armed : Bool
  initialLoad : Bool
  incompleteReload : Bool
  ceUndefined : Bool
  toggleOnReload : Bool
  state : PitState
  clocks : ℕ
deriving DecidableEq, Repr

structure Device where
  type : Chip
  channel : ℕ → Channel
  lastControl : Byte

def canonicalMode (raw : ℕ) : ℕ :=
  let raw := raw % 8
  if 5 < raw then raw % 4 else raw

def reloadOf (countRegister : ℕ) : ℕ := if countRegister = 0 then 0x10000 else countRegister

def reloadValue (c : Channel) : ℕ := reloadOf c.countRegister

def visibleCount (value : ℕ) : ℕ := if value = 0x10000 then 0 else value % 0x10000

def evenPart (x : ℕ) : ℕ := x % 0x10000 / 2 * 2

def updateLiveLatch (c : Channel) : Channel :=
  if c.countLatched then c else { c with outputLatch := visibleCount c.countingElement }

def bcdDecrement (value : ℕ) : ℕ :=
  if value = 0 ∨ value = 0x10000 then 0x9999
  else if value % 0x10 ≠ 0 then (value - 1) % 0x10000
  else if value / 0x10 % 0x10 ≠ 0 then (value - 0x07) % 0x10000
  else if value / 0x100 % 0x10 ≠ 0 then (value - 0x67) % 0x10000
  else (value - 0x667) % 0x10000

def decremented (bcd : Bool) (element : ℕ) : ℕ :=
  if bcd then bcdDecrement element
  else if element = 0 then 0xFFFF
  else if element = 0x10000 then 0xFFFF
  else (element - 1) % 0x10000

def decrement (c : Channel) : Channel :=
  updateLiveLatch { c with countingElement := decremented c.bcd c.countingElement }

def decrementN : ℕ → Channel → Channel
  | 0, c => c
  | n + 1, c => decrementN n (decrement c)

def setOutput (c : Channel) (output : Bool) : Channel := { c with output := output }

def setElement (c : Channel) (element : ℕ) : Channel := { c with countingElement := element }

def enterSquare (c : Channel) : Channel :=
  let c :=
    if c.toggleOnReload then { setOutput c (!c.output) with toggleOnReload := false }
    else if c.state ≠ .reloadNext then setOutput c true
    else c
  { c with state := if c.gate then .counting else .waitGate }

def enterLoaded (c : Channel) : Channel :=
  match c.mode with
  | 0 | 1 => { setOutput c false with state := .counting }
  | 2 => { setOutput c true with state := if c.gate then .counting else .waitGate }
  | 3 => enterSquare c
  | 4 | 5 => { setOutput c true with state := .counting }
  | _ => c

def loadCountingElement (c : Channel) : Channel :=
  let load := reloadValue c
  let load := if c.type = .i8254 ∧ c.mode = 3 ∧ c.countRegister % 2 = 1 then evenPart load else load
  let c := { c with countingElement := load, nullCount := false, ceUndefined := false }
  let c := if c.rwMode = 3 ∧ c.writePhase = 1 then { c with incompleteReload := true } else c
  enterLoaded (updateLiveLatch c)

def resetChannel (type : Chip) : Channel :=
  { type := type, control := 0, modeRaw := 0, mode := 0, rwMode := 1, bcd := false, writePhase := 0, readPhase := 0
    countLatched := false, statusLatched := false, outputLatch := 0, statusLatch := 0, countRegister := 0
    countingElement := 0, nullCount := true, gate := false, output := false, armed := false, initialLoad := true
    incompleteReload := false, ceUndefined := false, toggleOnReload := false, state := .waitCount, clocks := 0 }

def pitxReset (type : Chip) : Device := { type := type, channel := fun _ => resetChannel type, lastControl := 0 }

def latchCount (c : Channel) : Channel :=
  if c.countLatched then c
  else { c with outputLatch := visibleCount c.countingElement, countLatched := true, readPhase := 0 }

def statusByte (c : Channel) : Byte :=
  (if c.output then 0x80 else 0) ||| (if c.nullCount then 0x40 else 0) ||| (c.control &&& 0x3F)

def latchStatus (c : Channel) : Channel :=
  if c.statusLatched then c else { c with statusLatch := statusByte c, statusLatched := true }

def programMode (c : Channel) (control : Byte) : Channel :=
  let raw := control.toNat / 2 % 8
  setOutput
    { c with
      control := control, modeRaw := raw, mode := canonicalMode raw, rwMode := control.toNat / 16 % 4
      bcd := control.getLsbD 0, writePhase := 0, readPhase := 0, countLatched := false, statusLatched := false
      nullCount := true, armed := false, initialLoad := true, incompleteReload := false, ceUndefined := true
      toggleOnReload := false, state := .waitCount }
    (canonicalMode raw != 0)

/-- What the read-back command does to one selected channel. -/
def readBack (value : Byte) (c : Channel) : Channel :=
  let c := if value &&& 0x20 = 0 then latchCount c else c
  if value &&& 0x10 = 0 then latchStatus c else c

def pitxControlWrite (pit : Device) (value : Byte) : Device :=
  let select := value.toNat / 64
  let pit := { pit with lastControl := value }
  if select = 3 then
    if pit.type ≠ .i8254 then pit
    else
      { pit with
        channel := fun i =>
          if i < 3 ∧ value.getLsbD (1 + i) = true then readBack value (pit.channel i) else pit.channel i }
  else
    let c := pit.channel select
    let c := if value &&& 0x30 = 0 then latchCount c else programMode c value
    { pit with channel := Function.update pit.channel select c }

def finalizeWrite (c : Channel) : Channel :=
  -- the illegal divisor 1
  let c :=
    if c.countRegister = 1 then
      if c.mode = 2 then { c with countRegister := 2 }
      else if c.mode = 3 then { c with countRegister := 0 }
      else c
    else c
  let c := { c with nullCount := true, armed := true }
  if c.initialLoad then
    { c with initialLoad := false, state := if c.mode = 1 ∨ c.mode = 5 then .waitTrigger else .loadNext }
  else
    { c with
      state := if c.incompleteReload = true ∨ c.mode = 0 ∨ c.mode = 4 then .loadNext else c.state
      incompleteReload := false }

def dataWrite (c : Channel) (value : Byte) : Channel :=
  match c.rwMode with
  | 1 => finalizeWrite { c with countRegister := value.toNat }
  | 2 => finalizeWrite { c with countRegister := value.toNat * 0x100 }
  | 3 =>
    if c.writePhase = 0 then
      let c := { c with countRegister := c.countRegister / 0x100 * 0x100 + value.toNat, writePhase := 1 }
      -- in mode 0 the first byte stops the count
      if c.mode = 0 then setOutput { c with state := .waitCount } false else c
    else
      finalizeWrite { c with countRegister := c.countRegister % 0x100 + value.toNat * 0x100, writePhase := 0 }
  | _ => c

def onChannel (f : Channel → Channel) (pit : Device) (channel : ℕ) : Device :=
  if 3 ≤ channel then pit else { pit with channel := Function.update pit.channel channel (f (pit.channel channel)) }

def pitxDataWrite (pit : Device) (channel : ℕ) (value : Byte) : Device :=
  onChannel (fun c => dataWrite c value) pit channel

def dataRead (c : Channel) : Channel × Byte :=
  if c.statusLatched then ({ c with statusLatched := false }, c.statusLatch)
  else
    let value := if c.countLatched then c.outputLatch else visibleCount c.countingElement
    -- during an unfinished write of a pair a live read returns the pending byte inverted
    if c.countLatched = false ∧ c.rwMode = 3 ∧ c.writePhase = 1 then (c, ~~~BitVec.ofNat 8 c.countRegister)
    else
      match c.rwMode with
      | 1 => ({ c with countLatched := false }, BitVec.ofNat 8 value)
      | 2 => ({ c with countLatched := false }, BitVec.ofNat 8 (value / 0x100))
      | 3 =>
        if c.readPhase = 0 then ({ c with readPhase := 1 }, BitVec.ofNat 8 value)
        else ({ c with readPhase := 0, countLatched := false }, BitVec.ofNat 8 (value / 0x100))
      | _ => (c, 0)

def pitxDataRead (pit : Device) (channel : ℕ) : Device × Byte :=
  if 3 ≤ channel then (pit, 0xFF)
  else (onChannel (fun c => (dataRead c).1) pit channel, (dataRead (pit.channel channel)).2)

def setGate (c : Channel) (gate : Bool) : Channel :=
  let old := c.gate
  let c := { c with gate := gate }
  if old = false ∧ gate = true then
    match c.mode with
    | 1 | 5 => if c.state ≠ .waitCount then { c with armed := true, state := .loadNext } else c
    | 2 | 3 => if c.state ≠ .waitCount then { c with state := .loadNext } else c
    | _ => c
  else if old = true ∧ gate = false then
    match c.mode with
    | 2 | 3 =>
      let c := setOutput c true
      if c.state ≠ .waitCount then { c with state := .waitGate } else c
    | _ => c
  else c

def pitxSetGate (pit : Device) (channel : ℕ) (gate : Bool) : Device :=
  onChannel (fun c => setGate c gate) pit channel

def deferToggle (c : Channel) : Channel := { c with toggleOnReload := true, state := .reloadNext }

def countMode3 (c : Channel) : Channel :=
  let odd := c.countRegister % 2 = 1
  if odd ∧ c.type = .i8254 then
    let c := decrementN 2 c
    if visibleCount c.countingElement = 0 then
      if c.output then deferToggle c
      else updateLiveLatch (setElement (setOutput c true) (evenPart (reloadValue c)))
    else c
  else
    let c :=
      if odd ∧ c.countingElement % 2 = 1 then decrementN (if c.output then 1 else 3) c else decrementN 2 c
    if visibleCount c.countingElement = 0 then
      updateLiveLatch (setElement (setOutput c (!c.output)) (reloadValue c))
    else c

def countTick (c : Channel) : Channel :=
  match c.mode with
  | 0 =>
    if c.gate then
      let c := decrement c
      if visibleCount c.countingElement = 0 then setOutput c true else c
    else c
  | 1 =>
    let c := decrement c
    if visibleCount c.countingElement = 0 then
      { (if c.armed then setOutput c true else c) with armed := false }
    else c
  | 2 =>
    if c.gate then
      let c := decrement c
      if visibleCount c.countingElement = 1 then { setOutput c false with state := .reloadNext } else c
    else c
  | 3 => if c.gate then countMode3 c else c
  | 4 =>
    if c.gate then
      let c := decrement c
      if visibleCount c.countingElement = 0 then { setOutput c false with state := .strobeRecover } else c
    else c
  | 5 =>
    let c := decrement c
    if visibleCount c.countingElement = 0 then { setOutput c false with armed := false, state := .strobeRecover }
    else c
  | _ => c

def clockEdge (c : Channel) : Channel :=
  match c.state with
  | .loadNext => loadCountingElement c
  | .reloadNext => loadCountingElement c
  | .strobeRecover => { setOutput c true with state := .counting }
  | .waitTrigger =>
    -- the undefined count before the first trigger reads as three
    if c.ceUndefined = true ∧ c.armed = true then updateLiveLatch (setElement c 3) else c
  | .waitCount => c
  | .waitGate => c
  | .done => c
  | .counting => countTick c

def tickChannel (c : Channel) : Channel := clockEdge { c with clocks := c.clocks + 1 }

def pitxTickChannel (pit : Device) (channel : ℕ) : Device := onChannel tickChannel pit channel

def pitxTick (pit : Device) : Device :=
  pitxTickChannel (pitxTickChannel (pitxTickChannel pit 0) 1) 2

def pitxGetCount (pit : Device) (channel : ℕ) : ℕ :=
  if 3 ≤ channel then 0 else visibleCount (pit.channel channel).countingElement

def pitxGetOutput (pit : Device) (channel : ℕ) : Bool := decide (channel < 3) && (pit.channel channel).output

end PeepeeBox.Pit
