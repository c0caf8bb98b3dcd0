import Mathlib.Data.Int.Notation
import Mathlib.Logic.Function.Basic
import PeepeeBox.CharModem

set_option autoImplicit false

/-!
# The Elo SmartSet touch controller

`mouse_elo_touchscreen.c`: the settings and their NVRAM file, the packets that go out, and the path of a touch
from a poll to its report.  Of a timer only whether it runs is kept; the coordinates of a poll come in rounded,
before the axes are swapped.
-/
namespace PeepeeBox.Elo
open CharModem (ch toupper padded)

def eloRawMax : ℤ := 4095

def eloM1Initial : Byte := 0x01
def eloM1Stream : Byte := 0x02
def eloM1Untouch : Byte := 0x04
def eloM1Rangechk : Byte := 0x40
def eloM1Zreserved : Byte := 0x80

def eloM2Trim : Byte := 0x02
def eloM2Cal : Byte := 0x04
def eloM2Scale : Byte := 0x08
def eloM2Track : Byte := 0x40

def eloStOutofrange : Byte := 0x40

def eloErrNone : Byte := ch '0'
def eloErrChecksum : Byte := ch '3'
def eloErrIllegalcmd : Byte := ch '5'
def eloErrCalcancel : Byte := ch '6'
def eloErrNoset : Byte := ch 'A'
def eloErrSubcmd : Byte := ch 'C'
def eloErrRange : Byte := ch 'D'
def eloErrNoquery : Byte := ch 'G'

def elo280Lo : ℤ := 2
def elo280Hi : ℤ := 255

structure Setup where
  mode1 : Byte
  mode2 : Byte
  ser1 : Byte
  ser2 : Byte
  untouchDelay : Byte
  repDelay : Byte
  keyValue : Byte
  lowPower : Byte
  filterSlen : Byte
  filterWidth : Byte
  filterStates : Byte
  filterControl : Byte
  timerEnable : Byte
  timerMode : Byte
  emulFormat : Byte
  emulTouchflag : Bool
  timerInterval : BitVec 16
  swapAxes : Bool
  invertMask : Byte
  owner : List Byte
  deriving DecidableEq

/-- The axes are numbered 0 and 1. -/
scoped instance neZeroAxes : NeZero 2 := ⟨by decide⟩

structure Points where
  lo : Fin 2 → ℤ
  hi : Fin 2 → ℤ

structure MouseElo where
  body : List Byte
  /-- None while waiting for a lead byte. -/
  cmdPos : Option ℕ
  inKeyed : Bool
  inKey : Byte
  resp : List Byte
  baudRate : ℕ
  inReset : Bool
  setup : Setup
  quietAll : Bool
  quietTimer : Bool
  quietTouch : Bool
  cal : Points
  calActive : Bool
  calStep : ℕ
  calButOld : Bool
  calPoints : ℕ → Fin 2 → ℤ
  scale : Points
  diagResult : Byte
  untouchPending : Bool
  repReady : Bool
  warn : List Byte
  but : Bool
  butOld : Bool
  butPollPrev : Bool
  rawX : ℤ
  rawY : ℤ
  rawXOld : ℤ
  rawYOld : ℤ
  haveSent : Bool
  sentX : ℤ
  sentY : ℤ
  untouchTimer : Bool
  repDelayTimer : Bool
  userTimer : Bool
  resetTimer : Bool

def eloBaudTable : List ℕ := [300, 600, 1200, 2400, 4800, 9600, 19200, 38400]

def eloAreaSetup : Byte := 0x01
def eloAreaCal : Byte := 0x02
def eloAreaScale : Byte := 0x04

structure NvrSetup where
  mode1 : Byte
  mode2 : Byte
  ser1 : Byte
  ser2 : Byte
  untouchDelay : Byte
  repDelay : Byte
  keyValue : Byte
  lowPower : Byte
  filterSlen : Byte
  filterWidth : Byte
  filterStates : Byte
  filterControl : Byte
  timerEnable : Byte
  timerMode : Byte
  emulFormat : Byte
  emulTouchflag : Byte
  timerInterval : BitVec 16
  swapAxes : Byte
  invertMask : Byte
  owner : List Byte
  deriving DecidableEq

structure NvrFile where
  magic : BitVec 32
  setup : NvrSetup
  cal : Fin 2 → Points
  scale : Fin 2 → Points

def eloNvrMagic : BitVec 32 := 0x314F4C45

def zeroPoints : Points := { lo := fun _ => 0, hi := fun _ => 0 }

def blankFile : NvrFile where
  magic := 0
  setup :=
    { mode1 := 0, mode2 := 0, ser1 := 0, ser2 := 0, untouchDelay := 0, repDelay := 0, keyValue := 0, lowPower := 0
      filterSlen := 0, filterWidth := 0, filterStates := 0, filterControl := 0, timerEnable := 0, timerMode := 0
      emulFormat := 0, emulTouchflag := 0, timerInterval := 0, swapAxes := 0, invertMask := 0
      owner := List.replicate 7 0 }
  cal _ := zeroPoints
  scale _ := zeroPoints

def eloNvrReadFile (nvr : Option NvrFile) : NvrFile :=
  match nvr with
  | some f => if f.magic ≠ eloNvrMagic then blankFile else f
  | none => blankFile

def saveSetup (s : Setup) : NvrSetup where
  mode1 := s.mode1
  mode2 := s.mode2
  ser1 := s.ser1
  ser2 := s.ser2
  untouchDelay := s.untouchDelay
  repDelay := s.repDelay
  keyValue := s.keyValue
  lowPower := s.lowPower
  filterSlen := s.filterSlen
  filterWidth := s.filterWidth
  filterStates := s.filterStates
  filterControl := s.filterControl
  timerEnable := s.timerEnable
  timerMode := s.timerMode
  timerInterval := s.timerInterval
  emulFormat := s.emulFormat
  emulTouchflag := if s.emulTouchflag then 1 else 0
  swapAxes := if s.swapAxes then 1 else 0
  invertMask := s.invertMask
  owner := s.owner

def eloSaveNvrAreas (dev : MouseElo) (nvr : Option NvrFile) (areas : Byte) (page : Fin 2) : NvrFile :=
  let f := { eloNvrReadFile nvr with magic := eloNvrMagic }
  let f := if has areas eloAreaSetup then { f with setup := saveSetup dev.setup } else f
  let f := if has areas eloAreaCal then { f with cal := Function.update f.cal page dev.cal } else f
  if has areas eloAreaScale then { f with scale := Function.update f.scale page dev.scale } else f

def eloLoadDefaults (dev : MouseElo) : MouseElo :=
  { dev with
    setup :=
      { dev.setup with
        mode1 := eloM1Zreserved ||| eloM1Initial ||| eloM1Stream ||| eloM1Untouch
        mode2 := 0, swapAxes := false, invertMask := 0, untouchDelay := 0, repDelay := 2, filterSlen := 4
        filterWidth := 8, filterStates := 8, filterControl := 0x90, timerEnable := 0, timerMode := 0
        timerInterval := 100, keyValue := 0, lowPower := 0, emulFormat := 4, emulTouchflag := true
        owner := [ch 'E', ch 'l', ch 'o', ch 'I', ch 'n', ch 'c', ch '.'] }
    cal := { lo := fun _ => 0, hi := fun _ => eloRawMax }
    scale := { lo := fun _ => 0, hi := fun _ => eloRawMax } }

def loadSetup (f : NvrSetup) : Setup where
  mode1 := f.mode1 ||| eloM1Zreserved
  mode2 := f.mode2
  ser1 := f.ser1
  ser2 := f.ser2
  untouchDelay := f.untouchDelay
  repDelay := f.repDelay
  keyValue := f.keyValue
  lowPower := f.lowPower
  filterSlen := f.filterSlen
  filterWidth := f.filterWidth
  filterStates := f.filterStates
  filterControl := f.filterControl
  timerEnable := f.timerEnable
  timerMode := f.timerMode
  timerInterval := f.timerInterval
  emulFormat := f.emulFormat &&& 7
  emulTouchflag := f.emulTouchflag ≠ 0
  swapAxes := f.swapAxes ≠ 0
  invertMask := f.invertMask
  owner := f.owner

def eloLoadNvrAreas (dev : MouseElo) (nvr : Option NvrFile) (areas : Byte) (page : Fin 2) : MouseElo :=
  let f := eloNvrReadFile nvr
  if f.magic ≠ eloNvrMagic then dev
  else
    let dev := if has areas eloAreaSetup then { dev with setup := loadSetup f.setup } else dev
    let dev := if has areas eloAreaCal then { dev with cal := f.cal page } else dev
    if has areas eloAreaScale then { dev with scale := f.scale page } else dev

def eloLoadNvr (dev : MouseElo) (nvr : Option NvrFile) : MouseElo :=
  eloLoadNvrAreas (eloLoadDefaults dev) nvr (eloAreaSetup ||| eloAreaCal ||| eloAreaScale) 0

def respSize : ℕ := 512

def send (dev : MouseElo) (buf : List Byte) : MouseElo :=
  if respSize - dev.resp.length < buf.length then dev else { dev with resp := dev.resp ++ buf }

def eloEmitRaw (dev : MouseElo) (buf : List Byte) : MouseElo := if dev.quietAll then dev else send dev buf

/-- A packet, with the key in front of the checksum if there is one. -/
def packet (key cmd : Byte) (data : List Byte) : List Byte :=
  let buf := [if key ≠ 0 then 0x16 else 0x55, cmd] ++ data ++ if key ≠ 0 then [key] else []
  buf ++ [buf.foldl (· + ·) 0xAA]

def eloEnqueue (dev : MouseElo) (cmd : Byte) (data : List Byte) : MouseElo :=
  if dev.quietAll then dev else send dev (packet dev.setup.keyValue cmd data)

def eloAck (dev : MouseElo) (err : Byte) : MouseElo := eloEnqueue dev (ch 'A') [err, 0, 0, 0, 0, 0, 0]

def eloAckWarnings (dev : MouseElo) : MouseElo :=
  let data := dev.warn.map fun w => if w ≠ 0 then w else eloErrNone
  eloEnqueue { dev with warn := List.replicate 4 0 } (ch 'A') (data ++ [0, 0, 0])

def noted (code : Byte) : List Byte → List Byte
  | [] => []
  | w :: warn => if w = 0 then code :: warn else w :: noted code warn

def eloWarn (dev : MouseElo) (code : Byte) : MouseElo := { dev with warn := noted code dev.warn }

def low (v : ℤ) : Byte := (BitVec.ofInt 16 v).setWidth 8

def high (v : ℤ) : Byte := (BitVec.ofInt 16 v >>> 8).setWidth 8

/-- The code's `int32_t`. -/
def toInt32 (v : ℤ) : ℤ := (BitVec.ofInt 32 v).toInt

/-- A reading as it goes out, and whether it was outside the calibrated area. -/
def eloTransform (dev : MouseElo) (axis : Fin 2) (raw : ℤ) : ℤ × Bool :=
  let (mid, oor) :=
    if has dev.setup.mode2 eloM2Cal then
      let lo := dev.cal.lo axis
      let hi := dev.cal.hi axis
      let mid := if hi ≠ lo then toInt32 (((raw - lo) * eloRawMax).tdiv (hi - lo)) else 0
      if mid < 0 ∨ eloRawMax < mid then
        (if has dev.setup.mode2 eloM2Trim && has dev.setup.mode1 eloM1Rangechk then min (max mid 0) eloRawMax else mid,
          has dev.setup.mode1 eloM1Rangechk)
      else (mid, false)
    else (raw, false)
  if has dev.setup.mode2 eloM2Scale then
    let lo := dev.scale.lo axis
    let hi := dev.scale.hi axis
    let out := lo + toInt32 ((mid * (hi - lo)).tdiv eloRawMax)
    (if has dev.setup.invertMask (1 <<< axis.val) then lo + hi - out else out, oor)
  else (mid, oor)

/-- `%0*d` -/
def zeroPadded (width : ℕ) (v : ℤ) : List Byte :=
  if v < 0 then ch '-' :: padded (width - 1) ((Nat.toDigits 10 v.natAbs).map ch)
  else padded width ((Nat.toDigits 10 v.natAbs).map ch)

def eloAsciiCoord (v : ℤ) : List Byte :=
  if v < 0 then ch '-' :: zeroPadded 4 (-v) else zeroPadded 4 v

/-- `%02X` of a low byte. -/
def hexByte (v : ℤ) : List Byte := padded 2 ((Nat.toDigits 16 (low v).toNat).map fun c => toupper (ch c))

/-- The six bits of `v` from bit `i` on. -/
def six (v : ℤ) (i : ℕ) : Byte := (BitVec.ofInt 32 v >>> i).setWidth 8 &&& 0x3F

def eloSendTouch (dev : MouseElo) (status : Byte) (x y z : ℤ) : MouseElo :=
  let untouch := has status eloM1Untouch
  let letter := if untouch then ch 'U' else ch 'T'
  let zz := if dev.setup.emulTouchflag && untouch then 0 else z
  let flag := dev.setup.emulTouchflag
  let crlf : List Byte := [0x0D, 0x0A]
  match dev.setup.emulFormat.toNat with
  | 0 => eloEmitRaw dev [0xC0 ||| six x 6, 0x80 ||| six x 0, 0x40 ||| six y 6, six y 0]
  | 6 => eloEmitRaw dev [0xC0 ||| six x 6, 0x80 ||| six x 0, 0x40 ||| six y 6, six y 0, six zz 6, six zz 0]
  | 1 =>
    eloEmitRaw dev (crlf ++ zeroPadded 4 x ++ [ch ' '] ++ zeroPadded 4 y ++ if flag then [ch ' ', letter] else [])
  | 7 => eloEmitRaw dev (crlf ++ zeroPadded 4 x ++ [ch ' '] ++ zeroPadded 4 y ++ [ch ' '] ++ zeroPadded 4 zz)
  | 2 => eloEmitRaw dev [if flag && untouch then 0x81 else 0x01, low x, low y]
  | 3 =>
    eloEmitRaw dev (hexByte x ++ [ch ','] ++ hexByte y ++ (if flag then [ch ',', letter] else []) ++ crlf)
  | 5 =>
    eloEmitRaw dev (eloAsciiCoord x ++ [ch ' '] ++ eloAsciiCoord y ++ [ch ' '] ++ eloAsciiCoord z ++
      (if flag then [ch ' ', letter] else []) ++ crlf)
  | _ => eloEnqueue dev (ch 'T') [status, low x, high x, low y, high y, low z, high z]

def eloZValue (dev : MouseElo) : ℤ := if dev.setup.emulFormat = 6 then 15 else 255

def eloResetComplete (dev : MouseElo) : MouseElo := { dev with inReset := false }

def eloSoftReset (dev : MouseElo) : MouseElo := { dev with resp := [], calActive := false }

def eloRepDelayDone (dev : MouseElo) : MouseElo := { dev with repReady := true }

def eloUntouchDone (dev : MouseElo) : MouseElo := { dev with untouchPending := false }

def runs (s : Setup) : Bool := s.timerInterval ≠ 0

def eloUserTimerFire (dev : MouseElo) : MouseElo :=
  if dev.setup.timerEnable = 0 then dev
  else
    let dev :=
      if dev.quietTimer then dev
      else
        eloEnqueue dev (ch 'H')
          [dev.setup.timerEnable, dev.setup.timerMode, dev.setup.timerInterval.setWidth 8,
            (dev.setup.timerInterval >>> 8).setWidth 8, 0, 0, 0]
    if has dev.setup.timerMode 1 then { dev with userTimer := runs dev.setup }
    else { dev with setup := { dev.setup with timerEnable := 0 } }

def eloTimerApply (dev : MouseElo) : MouseElo := { dev with userTimer := dev.setup.timerEnable ≠ 0 && runs dev.setup }

/-- A report sent: its status, and where. -/
structure Report where
  status : Byte
  x : ℤ
  y : ℤ
  deriving DecidableEq

def statusOf (dev : MouseElo) : Option (Byte × Bool) :=
  let stream := if has dev.setup.mode1 eloM1Stream then some (eloM1Stream, true) else none
  if dev.but then
    if !dev.butOld && has dev.setup.mode1 eloM1Initial then some (eloM1Initial, false) else stream
  else if has dev.setup.mode1 eloM1Untouch then some (eloM1Untouch, false)
  else none

def eloPrepareTransmit (dev : MouseElo) : MouseElo × Option Report :=
  if dev.calActive || dev.untouchPending then (dev, none)
  else if !dev.but && !dev.butOld then (dev, none)
  else
    let (x, oorX) := eloTransform dev 0 (if dev.but then dev.rawX else dev.rawXOld)
    let (y, oorY) := eloTransform dev 1 (if dev.but then dev.rawY else dev.rawYOld)
    let held (stream : Bool) : Bool :=
      stream && dev.setup.repDelay ≠ 0 && !dev.repReady ||
        stream && has dev.setup.mode2 eloM2Track && dev.haveSent && x = dev.sentX && y = dev.sentY
    let (dev, sent) :=
      match statusOf dev with
      | some (status, stream) =>
        if held stream || dev.quietTouch then (dev, none)
        else
          let status := if oorX || oorY then status ||| eloStOutofrange else status
          let dev := eloSendTouch dev status x y (eloZValue dev)
          let dev := { dev with haveSent := true, sentX := x, sentY := y }
          let dev :=
            if stream && dev.setup.repDelay ≠ 0 then { dev with repReady := false, repDelayTimer := true } else dev
          (dev, some (Report.mk status x y))
      | none => (dev, none)
    ({ dev with
        rawXOld := dev.rawX, rawYOld := dev.rawY, butOld := dev.but
        haveSent := if dev.but then dev.haveSent else false },
      sent)

/-- One transmit tick; `free` is what the port says, and the byte popped goes to it. -/
def eloWriteToHost (dev : MouseElo) (free : Bool) : MouseElo × Option Byte × Option Report :=
  if !free || dev.inReset then (dev, none, none)
  else
    match dev.resp with
    | b :: resp => ({ dev with resp }, some b, none)
    | [] =>
      let (dev, sent) := eloPrepareTransmit dev
      (dev, none, sent)

def holdUntouch (dev : MouseElo) : MouseElo :=
  if dev.but then
    if dev.untouchPending then { dev with untouchTimer := false, untouchPending := false } else dev
  else if dev.butPollPrev && dev.butOld && dev.setup.untouchDelay ≠ 0 && !dev.untouchPending then
    { dev with untouchPending := true, untouchTimer := true }
  else dev

def calibrate (dev : MouseElo) : MouseElo :=
  if dev.calActive then
    let dev :=
      if dev.but && !dev.calButOld then
        let point : Fin 2 → ℤ := fun axis => if axis = 0 then dev.rawX else dev.rawY
        let dev :=
          { dev with calPoints := Function.update dev.calPoints dev.calStep point, calStep := dev.calStep + 1 }
        let dev := eloAck dev 0
        if dev.calStep ≥ 2 then
          { dev with cal := { lo := dev.calPoints 0, hi := dev.calPoints 1 }, calActive := false }
        else dev
      else dev
    { dev with calButOld := dev.but }
  else dev

def eloPoll (dev : MouseElo) (but : Bool) (x y : ℤ) : MouseElo :=
  let dev :=
    if dev.setup.swapAxes then { dev with but, rawX := y, rawY := x } else { dev with but, rawX := x, rawY := y }
  let dev := holdUntouch dev
  calibrate { dev with butPollPrev := dev.but }

end PeepeeBox.Elo
