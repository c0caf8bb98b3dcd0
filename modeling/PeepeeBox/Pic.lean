import Mathlib.Data.List.Basic
import PeepeeBox.Bytes

set_option autoImplicit false

/-!
# The interrupt controllers

Two 8259s, the second on a line of the first.
-/
namespace PeepeeBox.Pic

inductive Icw where
  | none
  | icw2
  | icw3
  | icw4
  deriving DecidableEq

structure Dev where
  icw1 : Byte
  icw2 : Byte
  icw3 : Byte
  icw4 : Byte
  imr : Byte
  isr : Byte
  irr : Byte
  ocw2 : Byte
  ocw3 : Byte
  intPending : Bool
  isMaster : Bool
  elcr : Byte
  state : Icw
  ackBytes : ℕ
  priority : ℕ
  specialMaskMode : Bool
  autoEoiRotate : Bool
  interrupt : Byte
  dataBus : Byte
  lines : ℕ → BitVec 32

inductive Chip where
  | pic
  | pic2
  deriving DecidableEq

/-- What the machine is, and what does not change while it runs. -/
structure Board where
  at' : Bool
  /-- A write to the mask looks at the requests at once. -/
  imrAtOnce : Bool
  elcrEnabled : Bool
  pci : Bool
  shadow : Bool
  kbdLatch : Bool
  mouseLatch : Bool
  smiIrqMask : BitVec 16
  vectorOverride : ℕ → Option Byte

structure Pics where
  pic : Dev
  pic2 : Dev
  latchedIrqs : BitVec 16
  smiIrqStatus : BitVec 16
  /-- How often `smi_raise` was called. -/
  smiRaised : ℕ

def Pics.dev (s : Pics) : Chip → Dev
  | .pic => s.pic
  | .pic2 => s.pic2

def Pics.put (s : Pics) (chip : Chip) (d : Dev) : Pics :=
  match chip with
  | .pic => { s with pic := d }
  | .pic2 => { s with pic2 := d }

def resetDev (isMaster : Bool) : Dev where
  icw1 := 0
  icw2 := 0
  icw3 := 0
  icw4 := 0
  imr := 0
  isr := 0
  irr := 0
  ocw2 := 0
  ocw3 := 0
  intPending := false
  isMaster := isMaster
  elcr := 0
  state := .none
  ackBytes := 0
  priority := 0
  specialMaskMode := false
  autoEoiRotate := false
  interrupt := 0x17
  dataBus := 0
  lines := fun _ => 0

def picReset : Pics where
  pic := resetDev true
  pic2 := resetDev false
  latchedIrqs := 0
  smiIrqStatus := 0
  smiRaised := 0

def picCascadeMode (dev : Dev) : Bool := !has dev.icw1 2

/-- `channel` is below 32, else the shift is not defined. -/
def picSlaveOn (dev : Dev) (channel : ℕ) : Bool :=
  picCascadeMode dev && (dev.isMaster || dev.icw4 &&& 0x0C = 0x0C) && dev.icw3.getLsbD channel

def picLevelTriggered (b : Board) (dev : Dev) (irq : ℕ) : Bool :=
  if b.elcrEnabled then dev.elcr.getLsbD irq else has dev.icw1 8

def setBit (x : Byte) (i : ℕ) : Byte := x ||| (1 : Byte) <<< i

def clearBit (x : Byte) (i : ℕ) : Byte := x &&& ~~~((1 : Byte) <<< i)

/-- The levels from the `i`th in priority on, `n` of them. -/
def findFrom (dev : Dev) : ℕ → ℕ → Option ℕ
  | 0, _ => none
  | n + 1, i =>
    let j := (i + dev.priority) % 8
    if dev.isr.getLsbD j then none
    else if dev.state = .none ∧ (dev.irr &&& ~~~dev.imr).getLsbD j then some j
    else findFrom dev n (i + 1)

def findBest (dev : Dev) : Option ℕ := findFrom dev 8 0

/-- The level found goes to `interrupt`, and whether there is one to `int_pending`. -/
def findBestInterrupt (dev : Dev) : Dev :=
  { dev with
    interrupt := (findBest dev).elim 0x17 (BitVec.ofNat 8)
    intPending := (findBest dev).isSome }

def frozen (s : Pics) : Bool := has s.pic.interrupt 0x20

def updatePendingXt (s : Pics) : Pics := if frozen s then s else { s with pic := findBestInterrupt s.pic }

def updatePendingAt (s : Pics) : Pics :=
  if frozen s then s
  else
    let pic2 := findBestInterrupt s.pic2
    let irr := if pic2.intPending then setBit s.pic.irr pic2.icw3.toNat else clearBit s.pic.irr pic2.icw3.toNat
    { s with pic := findBestInterrupt { s.pic with irr := irr }, pic2 := pic2 }

def updatePending (b : Board) (s : Pics) : Pics := if b.at' then updatePendingAt s else updatePendingXt s

def picAcknowledge (b : Board) (dev : Dev) : Dev :=
  let picInt := (dev.interrupt &&& 7).toNat
  let dev := { dev with isr := setBit dev.isr picInt }
  if picLevelTriggered b dev picInt = false ∨ dev.lines picInt = 0 then { dev with irr := clearBit dev.irr picInt } else dev

def nonSpecificFrom (dev : Dev) : ℕ → ℕ → Option ℕ
  | 0, _ => none
  | n + 1, i =>
    let j := (i + dev.priority) % 8
    if dev.isr.getLsbD j ∧ (dev.specialMaskMode = false ∨ dev.imr.getLsbD j = false) then some j
    else nonSpecificFrom dev n (i + 1)

def picNonSpecificFind (dev : Dev) : Option ℕ := nonSpecificFrom dev 8 0

def picAction (b : Board) (s : Pics) (chip : Chip) (irq : Option ℕ) (eoi rotate : Bool) : Pics :=
  match irq with
  | none => s
  | some irq =>
    let dev := s.dev chip
    let dev := if eoi then { dev with isr := clearBit dev.isr irq } else dev
    let dev := if rotate then { dev with priority := (irq + 1) % 8 } else dev
    updatePending b (s.put chip dev)

def picAutoNonSpecificEoi (b : Board) (s : Pics) (chip : Chip) : Pics :=
  let dev := s.dev chip
  if has dev.icw4 2 then picAction b s chip (picNonSpecificFind dev) true dev.autoEoiRotate else s

def picCommand (b : Board) (s : Pics) (chip : Chip) : Pics :=
  let dev := s.dev chip
  if has dev.ocw2 0x60 then
    let irq := if has dev.ocw2 0x40 then some (dev.ocw2 &&& 7).toNat else picNonSpecificFind dev
    picAction b s chip irq (has dev.ocw2 0x20) (has dev.ocw2 0x80)
  else s.put chip { dev with autoEoiRotate := has dev.ocw2 0x80 }

def shadowRead (dev : Dev) (odd : Bool) : Byte :=
  if odd then (dev.icw2 &&& 0xF8) >>> 3
  else
    (dev.ocw3 &&& 0x20) >>> 5 <<< 4 ||| (dev.ocw2 &&& 0x80) >>> 7 <<< 3 ||| (dev.icw4 &&& 0x10) >>> 4 <<< 2 |||
      (dev.icw4 &&& 0x02) >>> 1 <<< 1 ||| (dev.icw4 &&& 0x08) >>> 3

def picPoll (b : Board) (s : Pics) (chip : Chip) : Pics :=
  let dev := s.dev chip
  let dev := { dev with interrupt := dev.interrupt &&& ~~~0x20 }
  let s :=
    if dev.intPending then
      let dev := picAcknowledge b { dev with dataBus := 0x80 ||| (dev.interrupt &&& 7) }
      updatePending b (s.put chip { dev with intPending := false })
    else s.put chip { dev with dataBus := 0 }
  s.put chip { s.dev chip with ocw3 := (s.dev chip).ocw3 &&& ~~~0x04 }

def picRead (b : Board) (s : Pics) (chip : Chip) (odd : Bool) : Pics :=
  let dev := s.dev chip
  if b.shadow then s.put chip { dev with dataBus := shadowRead dev odd }
  else
    let dev := { dev with dataBus := dev.irr }
    if has dev.ocw3 0x04 then picPoll b (s.put chip dev) chip
    else if odd then s.put chip { dev with dataBus := dev.imr }
    else if has dev.ocw3 0x02 ∧ has dev.ocw3 0x01 then s.put chip { dev with dataBus := dev.isr }
    else s.put chip dev

def heldIrr (lines : ℕ → BitVec 32) : Byte :=
  (List.range 8).foldl (fun irr i => if lines i ≠ 0 then setBit irr i else irr) 0

def icw1Dev (dev : Dev) (val : Byte) : Dev :=
  { dev with
    icw1 := val
    icw2 := 0
    icw3 := 0
    icw4 := if has val 1 then dev.icw4 else 0
    ocw2 := 0
    ocw3 := 0
    irr := heldIrr dev.lines
    imr := 0
    isr := 0
    ackBytes := 0
    priority := 0
    autoEoiRotate := false
    specialMaskMode := false
    interrupt := 0x17
    intPending := false
    state := .icw2 }

def ocw3Dev (dev : Dev) (val : Byte) : Dev :=
  let dev := { dev with ocw3 := val }
  let dev := if has val 0x04 then { dev with interrupt := dev.interrupt ||| 0x20 } else dev
  if has val 0x40 then { dev with specialMaskMode := has val 0x20 } else dev

def afterIcw3 (dev : Dev) : Icw := if has dev.icw1 1 then .icw4 else .none

def icwWrite (b : Board) (s : Pics) (chip : Chip) (dev : Dev) (val : Byte) : Pics :=
  match dev.state with
  | .icw2 => s.put chip { dev with icw2 := val, state := if picCascadeMode dev then .icw3 else afterIcw3 dev }
  | .icw3 => s.put chip { dev with icw3 := val, state := afterIcw3 dev }
  | .icw4 => s.put chip { dev with icw4 := val, state := .none }
  | .none =>
    let s := s.put chip { dev with imr := val }
    if b.imrAtOnce then updatePending b s else s

def picWrite (b : Board) (s : Pics) (chip : Chip) (odd : Bool) (val : Byte) : Pics :=
  let dev := { s.dev chip with dataBus := val }
  if odd then icwWrite b s chip dev val
  else if has val 0x10 then
    if b.pci ∧ has val 0xE0 then s.put chip dev
    else updatePending b (s.put chip (icw1Dev dev val))
  else if has val 0x08 then s.put chip (ocw3Dev dev val)
  else picCommand b (s.put chip { dev with ocw2 := val }) chip

def picElcrWrite (s : Pics) (chip : Chip) (val : Byte) : Pics :=
  s.put chip { s.dev chip with elcr := if chip = .pic2 then val &&& 0xDE else val &&& 0xF8 }

/-- The lines that are the slaves' are taken out, and 2 becomes 9 on an AT. -/
def route (b : Board) (icw3 : Byte) (num : BitVec 16) : BitVec 16 :=
  (List.range 8).foldl
    (fun num i =>
      if icw3.getLsbD i ∧ num.getLsbD i then
        let num := num &&& ~~~((1 : BitVec 16) <<< i)
        if b.at' ∧ i = 2 then num ||| (1 : BitVec 16) <<< 9 else num
      else num)
    num

def slaves (icw3 : Byte) : ℕ := (List.range 8).countP fun i => icw3.getLsbD i

def chipOf (i : ℕ) : Chip := if i < 8 then .pic else .pic2

def levelLine (b : Board) (num : BitVec 16) (set irqState : Bool) (acc : Pics × BitVec 16) (i : ℕ) : Pics × BitVec 16 :=
  if num.getLsbD i then
    let dev := acc.1.dev (chipOf i)
    let n := i % 8
    let dev :=
      if irqState ≠ set then
        { dev with lines := Function.update dev.lines n (if set then dev.lines n + 1 else dev.lines n - 1) }
      else dev
    let change : Bool :=
      picLevelTriggered b dev n = false ∨ irqState ≠ set ∧ dev.lines n = if set then 1 else 0
    (acc.1.put (chipOf i) dev, if change then acc.2 ||| (1 : BitVec 16) <<< i else acc.2)
  else acc

def levelLines (b : Board) (s : Pics) (num : BitVec 16) (set irqState : Bool) (max : ℕ) : Pics × BitVec 16 :=
  (List.range max).foldl (levelLine b num set irqState) (s, 0)

def raiseLines (b : Board) (s : Pics) (num : BitVec 16) : Pics :=
  let smi := b.smiIrqMask &&& num
  { s with
    smiIrqStatus := if smi ≠ 0 then s.smiIrqStatus ||| num else s.smiIrqStatus
    smiRaised := if smi ≠ 0 then s.smiRaised + 1 else s.smiRaised
    latchedIrqs :=
      s.latchedIrqs ||| (if b.mouseLatch then num &&& 0x1000 else 0) ||| (if b.kbdLatch then num &&& 0x0002 else 0)
    pic := { s.pic with irr := s.pic.irr ||| num.setWidth 8 }
    pic2 := { s.pic2 with irr := s.pic2.irr ||| (num >>> 8).setWidth 8 } }

def lowerLines (b : Board) (s : Pics) (num : BitVec 16) : Pics :=
  { s with
    smiIrqStatus := s.smiIrqStatus &&& ~~~num
    latchedIrqs :=
      s.latchedIrqs &&& ~~~(if b.mouseLatch then num &&& 0x1000 else 0) &&&
        ~~~(if b.kbdLatch then num &&& 0x0002 else 0)
    pic := { s.pic with irr := s.pic.irr &&& ~~~num.setWidth 8 }
    pic2 := { s.pic2 with irr := s.pic2.irr &&& ~~~(num >>> 8).setWidth 8 } }

def picintCommon (b : Board) (s : Pics) (num : BitVec 16) (level set irqState : Bool) : Pics × Bool :=
  let sl := slaves s.pic.icw3
  let num := route b s.pic.icw3 num
  if num = 0 then (s, irqState)
  else
    let r := if level then levelLines b s num set irqState (if sl = 0 then 8 else 16) else (s, num)
    let num := if sl = 0 then r.2 &&& 0x00FF else r.2
    let irqState := if level then set else irqState
    if num = 0 then (r.1, irqState)
    else (updatePending b (if set then raiseLines b r.1 num else lowerLines b r.1 num), irqState)

def picI86Mode (dev : Dev) : Bool := has dev.icw4 1

/-- The byte that the chip answers: its own, or its slave's; the only slave is the master's on line 2. -/
def ackAnswer (b : Board) (slaveRead : Pics → Option Pics) (s : Pics) (chip : Chip) (own : Byte) : Option Pics :=
  let intr := (s.dev chip).interrupt &&& 0x47
  if has intr 0x40 then
    if chip = .pic ∧ intr &&& 0x07 = 2 ∧ b.at' then
      (slaveRead s).map fun s => s.put chip { s.dev chip with dataBus := s.pic2.dataBus }
    else none
  else some (s.put chip { s.dev chip with dataBus := own })

def ackVector (b : Board) (chip : Chip) (dev : Dev) : Byte :=
  let intr := dev.interrupt &&& 0x07
  let own := intr + (dev.icw2 &&& 0xF8)
  if chip = .pic then (b.vectorOverride intr.toNat).getD own else own

def callByte (dev : Dev) : Byte :=
  let intr := dev.interrupt &&& 0x07
  if has dev.icw1 0x04 then intr <<< 2 + (dev.icw1 &&& 0xE0) else intr <<< 3 + (dev.icw1 &&& 0xC0)

def ackPhase (b : Board) (slaveRead : Pics → Option Pics) (s : Pics) (chip : Chip) (phase : ℕ) : Option Pics :=
  let dev := s.dev chip
  if phase = 0 then
    let dev := picAcknowledge b { dev with interrupt := dev.interrupt ||| 0x20 }
    ackAnswer b slaveRead (s.put chip dev) chip (if picI86Mode dev then 0xFF else 0xCD)
  else if picI86Mode dev then
    (ackAnswer b slaveRead (s.put chip { dev with intPending := false }) chip (ackVector b chip dev)).map fun s =>
      picAutoNonSpecificEoi b s chip
  else if phase = 1 then ackAnswer b slaveRead s chip (callByte dev)
  else if phase = 2 then
    (ackAnswer b slaveRead (s.put chip { dev with intPending := false }) chip dev.icw2).map fun s =>
      picAutoNonSpecificEoi b s chip
  else some s

/-- `pic_irq_ack_read`; `none` where the code follows a pointer that is not there. -/
def picIrqAckRead (b : Board) (s : Pics) (phase : ℕ) : Option Pics :=
  ackPhase b (fun s => ackPhase b (fun _ => none) s .pic2 phase) s .pic phase

def nextAckBytes (dev : Dev) : ℕ := (dev.ackBytes + 1) % if picI86Mode dev then 2 else 3

def thaw (b : Board) (s : Pics) : Pics :=
  let s := if has s.pic.interrupt 0x40 then s.put .pic2 { s.pic2 with interrupt := 0x17 } else s
  updatePending b (s.put .pic { s.pic with interrupt := 0x17 })

def ackDone (b : Board) (s : Pics) : Pics :=
  let s := s.put .pic { s.pic with ackBytes := nextAckBytes s.pic }
  if s.pic.ackBytes = 0 then thaw b s else s

def ackCycle (b : Board) (s : Pics) : Option Pics := (picIrqAckRead b s s.pic.ackBytes).map (ackDone b)

/-- What `picinterrupt` does before the cycles. -/
def ackPrepare (s : Pics) : Option Pics :=
  if s.pic.intPending then
    let channel := s.pic.interrupt.toNat
    if 32 ≤ channel then none
    else if picSlaveOn s.pic channel then
      if channel ≠ 2 then none
      else if s.pic2.intPending = false then
        some { s with pic2 := { s.pic2 with intPending := true, interrupt := 0x07 } }
      else some { s with pic := { s.pic with interrupt := s.pic.interrupt ||| 0x40 } }
    else some s
  else some { s with pic := { s.pic with intPending := true, interrupt := 0x07 } }

def picinterrupt (b : Board) (s : Pics) : Option (Pics × Byte) := do
  let s ← ackPrepare s
  let s ← ackCycle b s
  let s ← picIrqAckRead b s s.pic.ackBytes
  some (ackDone b s, s.pic.dataBus)

end PeepeeBox.Pic
