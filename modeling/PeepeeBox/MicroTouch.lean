import PeepeeBox.ByteFifo
import PeepeeBox.CString

set_option autoImplicit false

/-!
# The MicroTouch controller

`mouse_microtouch_touchscreen.c`: the commands of the host, the timer that feeds the serial
port, and the touch reports.  Coordinates are doubles in the source; here they are of any type,
and the arithmetic on them is one structure of functions.  The NOVRAM file is left out.
-/
namespace PeepeeBox.MicroTouch
open ByteFifo HaspRecord

inductive Format where
  | dec | hex | raw | tablet | binary | zone | calRaw
deriving DecidableEq, Repr

inductive Mode where
  | downup | inactive | point | stream | polled
deriving DecidableEq, Repr

/-- Touchdown, continued touch, liftoff. -/
inductive Ev where
  | down | cont | up
deriving DecidableEq, Repr

inductive Cal where
  | new | extended | interactive
deriving DecidableEq, Repr

/-- What the code computes with doubles of type `C` and calibrations of type `T`. -/
structure Analog (C T : Type) where
  /-- `1 - y` -/
  flip : C → C
  /-- `(uint16_t) (16383 * x)` -/
  tablet : C → BitVec 16
  /-- `(uint16_t) (999 * x)` -/
  decimal : C → BitVec 16
  /-- `(uint16_t) (1023 * x)` -/
  hexadecimal : C → BitVec 16
  /-- `(int) (1023 * x)` -/
  ten : C → BitVec 32
  /-- `(int) (v * 2047.) - 1024` -/
  signed : C → BitVec 32
  /-- The corner signals of Format Raw: upper left, upper right, lower left, lower right. -/
  corners : Bool → Byte → C → C → BitVec 32 × BitVec 32 × BitVec 32 × BitVec 32
  /-- Scale, offset and clamp a point; whether it was inside. -/
  calibrate : T → C → C → C × C × Bool
  lowerLeft : C → C → Bool
  upperRight : C → C → Bool
  /-- The calibration two points make, unless they are too close. -/
  solve : Cal → C × C → C × C → Option T
  /-- Scale 1, offset 0. -/
  factory : T

structure Touch (C T : Type) where
  cmd : List Byte
  absX : C
  absY : C
  rawX : C
  rawY : C
  lastX : C
  lastY : C
  lastRawX : C
  lastRawY : C
  inZone : Bool
  lastInZone : Bool
  scale : T
  but : BitVec 32
  butOld : BitVec 32
  baudRate : ℕ
  format : Format
  prevFormat : Format
  mode : Mode
  id : Fin 4
  calCntr : ℕ
  calType : Cal
  penMode : Byte
  sensitivity : Byte
  filter : Byte
  serialCfg : Byte
  touchSamples : ℕ
  cal : ℕ → C × C
  modeStatus : Bool
  soh : Bool
  autobaud : Bool
  inReset : Bool
  reset : Bool
  powerOn : Bool
  utReset : Bool
  xon : Bool
  pqDown : Bool
  pqUp : Bool
  pqDownX : C
  pqDownY : C
  pqUpX : C
  pqUpY : C
  pqDownZone : Bool
  pqUpZone : Bool
  resp : Fifo8 256

variable {C T : Type} (A : Analog C T)

def mtouchIdentity : Fin 4 → List Byte
  | 0 => ascii "A30100"
  | 1 => ascii "A40100"
  | 2 => ascii "P50100"
  | 3 => ascii "Q10100"

def mtouchPush (dev : Touch C T) (x : Byte) : Touch C T := { dev with resp := fifo8Push dev.resp x }

def mtouchPushAll (dev : Touch C T) (xs : List Byte) : Touch C T :=
  { dev with resp := fifo8PushAll dev.resp xs }

def mtouchAck (dev : Touch C T) (c : Byte) : Touch C T :=
  mtouchPush (mtouchPush (mtouchPush dev 0x01) c) 0x0D

def mtouchResetComplete (dev : Touch C T) : Touch C T :=
  mtouchAck { dev with reset := true, utReset := true, inReset := false } 0x30

/-- Factory defaults: SMT2 Decimal, the others Tablet. -/
def mtouchDefaults (dev : Touch C T) : Touch C T :=
  let format := if dev.id.val < 2 then Format.dec else Format.tablet
  { dev with
    format := format, prevFormat := format, mode := .stream, modeStatus := false
    autobaud := false, penMode := 3, sensitivity := 0, filter := 0
    serialCfg := if dev.id.val < 2 then 0x0C else 0x00 }

def mtouchBaudFromCode (c : Byte) : ℕ :=
  if c = 0x31 then 19200 else if c = 0x33 then 4800 else if c = 0x34 then 2400
  else if c = 0x35 then 1200 else 9600

structure Report (C : Type) where
  ev : Ev
  x : C
  y : C
  rx : C
  ry : C
  zone : Bool
deriving DecidableEq

def mtouchStatusByte : Ev → Byte
  | .down => 0x19
  | .up => 0x18
  | .cont => 0x1C

def mtouchPush1023 (dev : Touch C T) (v : BitVec 32) : Touch C T :=
  mtouchPush (mtouchPush dev (0x20 ||| ((v.sshiftRight 5).setWidth 8 &&& 0x1F)))
    (0x20 ||| (v.setWidth 8 &&& 0x1F))

/-- Calibrate Raw coordinate: 10 bits and a sign. -/
def mtouchPushSigned (dev : Touch C T) (v01 : C) : Touch C T :=
  let v := A.signed v01
  let v := if v.toInt < -1024 then BitVec.ofInt 32 (-1024) else v
  let v := if 1023 < v.toInt then 1023 else v
  mtouchPush
    (mtouchPush dev ((v.setWidth 8 &&& 0x0F) <<< 3 ||| ((v.sshiftRight 4).setWidth 8 &&& 0x07)))
    ((if v.toInt < 0 then 0x40 else 0x00) ||| ((v.sshiftRight 7).setWidth 8 &&& 0x07) <<< 3)

def threeDigits (base : ℕ) (n : ℕ) : List Byte :=
  let digits := (Nat.toDigits base n).map fun c => BitVec.ofNat 8 c.toUpper.toNat
  List.replicate (3 - digits.length) 0x30 ++ digits

/-- `snprintf` into sixteen bytes. -/
def reportText (base : ℕ) (x y : BitVec 16) : List Byte :=
  (threeDigits base x.toNat ++ [0x2C] ++ threeDigits base y.toNat ++ [0x0D]).take 15

def penBits (dev : Touch C T) (ev : Ev) : Byte :=
  if dev.penMode = 2 then 0x20 ||| (if ev ≠ .up then dev.but.setWidth 8 &&& 3 else 0) else 0

def zoneLetter (zone : Bool) : Ev → Byte
  | .down => if zone then 0x44 else 0x4C
  | .cont => if zone then 0x42 else 0x4A
  | .up => if zone then 0x41 else 0x49

def mtouchReport (dev : Touch C T) (r : Report C) : Touch C T :=
  match dev.format with
  | .tablet =>
    let x14 := A.tablet r.x
    let y14 := A.tablet (A.flip r.y)
    let dev := mtouchPush dev (0x88 ||| (if r.ev ≠ .up then 0x40 else 0x00) ||| penBits dev r.ev)
    let dev := mtouchPush dev (x14.setWidth 8 &&& 0x7F)
    let dev := mtouchPush dev ((x14 >>> 7).setWidth 8 &&& 0x7F)
    let dev := mtouchPush dev (y14.setWidth 8 &&& 0x7F)
    mtouchPush dev ((y14 >>> 7).setWidth 8 &&& 0x7F)
  | .dec =>
    let dev := mtouchPush dev (if dev.modeStatus then mtouchStatusByte r.ev else 0x01)
    mtouchPushAll dev (reportText 10 (A.decimal r.x) (A.decimal (A.flip r.y)))
  | .hex =>
    let dev := mtouchPush dev (if dev.modeStatus then mtouchStatusByte r.ev else 0x01)
    mtouchPushAll dev (reportText 16 (A.hexadecimal r.x) (A.hexadecimal (A.flip r.y)))
  | .binary =>
    let dev := if r.ev = .down then mtouchPushAll dev [0x17, 0x20, 0x20, 0x20, 0x20] else dev
    let dev := mtouchPush dev (mtouchStatusByte r.ev)
    mtouchPush1023 (mtouchPush1023 dev (A.ten r.x)) (A.ten (A.flip r.y))
  | .zone =>
    let dev :=
      mtouchPush dev (if dev.modeStatus then mtouchStatusByte r.ev else zoneLetter r.zone r.ev)
    mtouchPush1023 (mtouchPush1023 dev (A.ten r.x)) (A.ten (A.flip r.y))
  | .calRaw =>
    let dev := mtouchPush dev (0x80 ||| (if r.ev ≠ .up then 0x40 else 0x00) ||| penBits dev r.ev)
    mtouchPushSigned A (mtouchPushSigned A dev r.rx) (A.flip r.ry)
  | .raw => dev

def mtouchReportRaw (dev : Touch C T) : Touch C T :=
  let (ul, ur, ll, lr) := A.corners (dev.but != 0) dev.sensitivity dev.rawX dev.rawY
  let high := fun (v : BitVec 32) => (v.sshiftRight 7).setWidth 8 &&& 7
  let low := fun (v : BitVec 32) => v.setWidth 8 &&& 0x7F
  let dev := mtouchPush dev (0x80 ||| 0x0A)
  let dev := mtouchPush dev (high ul ||| high ll <<< 4)
  let dev := mtouchPush dev (high lr ||| high ur <<< 4)
  let dev := mtouchPush dev (low ll)
  let dev := mtouchPush dev (low ul)
  let dev := mtouchPush dev (low ur)
  mtouchPush dev (low lr)

def mtouchCalibrationPoint (dev : Touch C T) : Touch C T :=
  let idx := 2 - dev.calCntr
  let x := dev.lastRawX
  let y := dev.lastRawY
  let dec := dev.format = .dec ∨ dev.format = .hex
  let swapped := dev.calType ≠ .extended ∧ idx = 1 ∧ dec
  let pos : Byte := if swapped then 0x30 else 0x31
  let neg : Byte := if swapped then 0x31 else 0x30
  if dev.touchSamples < 30 then if 2 ≤ dev.id.val then mtouchAck dev 0x32 else dev
  else
    let valid :=
      if dev.calType = .interactive then true
      else if idx = 0 then A.lowerLeft x y
      else A.upperRight x y
    if !valid then mtouchAck dev neg
    else
      let dev := mtouchAck { dev with cal := Function.update dev.cal idx (x, y) } pos
      let dev := { dev with calCntr := dev.calCntr - 1 }
      if dev.calCntr ≠ 0 then dev
      else
        match A.solve dev.calType (dev.cal 0) (dev.cal 1) with
        | some scale => { dev with scale := scale }
        | none => dev

def mtouchSetFormat (dev : Touch C T) (format : Format) : Touch C T :=
  let dev :=
    if format = .dec ∨ format = .hex ∨ format = .zone then
      { dev with mode := if dev.format = .binary then .stream else dev.mode, modeStatus := false }
    else dev
  let dev := if format ≠ .raw ∧ format ≠ .calRaw then { dev with prevFormat := format } else dev
  { dev with format := format }

def isdigit (c : Byte) : Bool := decide (0x30 ≤ c ∧ c ≤ 0x39)

/-- `atoi`, kept to a byte. -/
def atoiByte (c : List Byte) : Byte :=
  (c.takeWhile isdigit).foldl (fun n d => 10 * n + (d - 0x30)) 0

def mtouchReply (dev : Touch C T) (c : List Byte) : Option (Touch C T) :=
  let at_ := fun i => c.getD i 0
  if c = ascii "OI" then
    some (mtouchPush (mtouchPushAll (mtouchPush dev 0x01) (mtouchIdentity dev.id)) 0x0D)
  else if c = ascii "OS" then
    let a : Byte := 0x40 ||| if dev.powerOn ∧ dev.id.val < 2 then 0x20 else 0x00
    let b : Byte := 0x40 ||| if dev.reset then 0x20 else 0x00
    some { mtouchPush (mtouchPush (mtouchPush (mtouchPush dev 0x01) a) b) 0x0D with powerOn := false }
  else if at_ 0 = 0x50 ∧ (c.length = 4 ∨ c.length = 5) ∧ (ascii "NOE").contains (at_ 1) ∧
      (at_ 2 = 0x37 ∨ at_ 2 = 0x38) ∧ (at_ 3 = 0x31 ∨ at_ 3 = 0x32) then
    let cfg : Byte :=
      (if at_ 1 = 0x4F then 1 else if at_ 1 = 0x45 then 2 else 0) |||
        (if at_ 2 = 0x37 then 4 else 0) ||| (if at_ 3 = 0x32 then 8 else 0)
    let dev := mtouchAck { dev with serialCfg := cfg } 0x30
    some (if c.length = 5 then { dev with baudRate := mtouchBaudFromCode (at_ 4) } else dev)
  else if c = ascii "R" ∨ c = ascii "RD" then
    let dev :=
      { dev with
        resp := fifo8Reset dev.resp, inReset := true, calCntr := 0
        xon := false, pqDown := false, pqUp := false, butOld := 0
        format := if dev.format = .raw ∨ dev.format = .calRaw then dev.prevFormat else dev.format }
    some (if at_ 1 = 0x44 then { mtouchDefaults dev with baudRate := 9600, scale := A.factory }
      else dev)
  else if c = ascii "SP1" then some (mtouchAck dev 0x41)
  else if c = ascii "UT" ∨ c = ascii "UV" then
    let unit := if dev.id.val = 2 then ascii "TP" else ascii "QM"
    let flags := if dev.id.val = 2 ∧ dev.utReset then ascii "20" else ascii "00"
    some (mtouchPush
      (mtouchPushAll (mtouchPush { dev with utReset := false } 0x01) (unit ++ ascii "****" ++ flags))
      0x0D)
  else none

def mtouchSet (dev : Touch C T) (c : List Byte) : Touch C T :=
  let at_ := fun i => c.getD i 0
  if c = ascii "AD" then { dev with autobaud := false }
  else if c = ascii "AE" then { dev with autobaud := true }
  else if c = ascii "CN" then { dev with calType := .new, calCntr := 2 }
  else if c = ascii "CX" then { dev with calType := .extended, calCntr := 2 }
  else if c = ascii "CI" then { dev with calType := .interactive, calCntr := 2 }
  else if c = ascii "CR" then mtouchSetFormat dev .calRaw
  else if at_ 0 = 0x46 ∧ at_ 1 = 0x4E ∧ isdigit (at_ 2) then { dev with filter := atoiByte (c.drop 2) }
  else if c = ascii "FO" then { dev with penMode := 1 }
  else if c = ascii "FB" then
    { mtouchSetFormat dev .binary with mode := .polled, modeStatus := true }
  else if c = ascii "FBS" then
    { mtouchSetFormat dev .binary with mode := .stream, modeStatus := true }
  else if c = ascii "FD" then mtouchSetFormat dev .dec
  else if c = ascii "FH" then mtouchSetFormat dev .hex
  else if c = ascii "FR" then { mtouchSetFormat dev .raw with calCntr := 0 }
  else if c = ascii "FT" then mtouchSetFormat dev .tablet
  else if c = ascii "FZ" then { mtouchSetFormat dev .zone with mode := .stream }
  else if at_ 0 = 0x03 ∧ at_ 1 = 0x46 then dev
  else if c = ascii "GP1" then
    mtouchPushAll (mtouchAck dev 0x41) (ascii "0000000000000000000000000\r")
  else if c = ascii "MDU" then { dev with mode := .downup }
  else if c = ascii "MI" then { dev with mode := .inactive }
  else if c = ascii "MP" then { dev with mode := .point }
  else if c = ascii "MQ" then
    { dev with mode := .polled, xon := false, pqDown := false, pqUp := false }
  else if c = ascii "MT" then { dev with modeStatus := true }
  else if c = ascii "MS" then { dev with mode := .stream }
  else if c = ascii "PO" then { dev with penMode := 2 }
  else if c = ascii "PF" then { dev with penMode := 3 }
  else if at_ 0 = 0x53 ∧ at_ 1 = 0x45 ∧ isdigit (at_ 2) then
    { dev with sensitivity := (at_ 2 - 0x30) &&& 3 }
  else dev

def mtouchProcessCommands (dev : Touch C T) : Touch C T :=
  let c := CString.cstr dev.cmd
  match mtouchReply A dev c with
  | some dev => dev
  | none => mtouchAck (mtouchSet dev c) 0x30

def mtouchWrite (dev : Touch C T) (data : Byte) : Touch C T :=
  if data = 0x01 then { dev with soh := true, cmd := [] }
  else if dev.soh then
    if data ≠ 0x0D then
      if dev.cmd.length < 256 - 2 then { dev with cmd := dev.cmd ++ [data] } else dev
    else if dev.cmd = [] then { dev with soh := false }
    else { mtouchProcessCommands A { dev with soh := false } with cmd := [] }
  else if data = 0x11 then { dev with xon := true }
  else dev

def mtouchEvent (dev : Touch C T) : Option Ev :=
  if dev.but ≠ 0 ∧ dev.butOld = 0 then some .down
  else if dev.but ≠ 0 then some .cont
  else if dev.butOld ≠ 0 then some .up
  else none

def mtouchSample (dev : Touch C T) (ev : Option Ev) : Touch C T :=
  let dev := { dev with butOld := dev.but }
  if ev = some .down ∨ ev = some .cont then
    { dev with
      touchSamples := (if ev = some .down then 0 else dev.touchSamples) + 1
      lastX := dev.absX, lastY := dev.absY, lastRawX := dev.rawX, lastRawY := dev.rawY
      lastInZone := dev.inZone }
  else dev

def lastReport (dev : Touch C T) (ev : Ev) : Report C :=
  { ev := ev, x := dev.lastX, y := dev.lastY, rx := dev.lastRawX, ry := dev.lastRawY
    zone := dev.lastInZone }

def mtouchPolled (dev : Touch C T) (ev : Option Ev) : Touch C T × Option (Report C) :=
  let dev :=
    match ev with
    | some .down =>
      { dev with
        pqDown := true, pqUp := false, pqDownX := dev.lastX, pqDownY := dev.lastY
        pqDownZone := dev.lastInZone }
    | some .up =>
      { dev with pqUp := true, pqUpX := dev.lastX, pqUpY := dev.lastY, pqUpZone := dev.lastInZone }
    | _ => dev
  if !dev.xon then (dev, none)
  else if dev.pqDown then
    ({ dev with pqDown := false, xon := false },
      some { lastReport dev .down with x := dev.pqDownX, y := dev.pqDownY, zone := dev.pqDownZone })
  else if dev.but ≠ 0 ∧ ev ≠ some .down then ({ dev with xon := false }, some (lastReport dev .cont))
  else if dev.pqUp then
    ({ dev with pqUp := false, xon := false },
      some { lastReport dev .up with x := dev.pqUpX, y := dev.pqUpY, zone := dev.pqUpZone })
  else (dev, none)

def mtouchChoose (dev : Touch C T) (ev : Option Ev) : Touch C T × Option (Report C) :=
  match dev.mode with
  | .stream => (dev, ev.map (lastReport dev))
  | .point => (dev, if ev = some .down then some (lastReport dev .down) else none)
  | .downup =>
    (dev, if ev = some .down then some (lastReport dev .down)
      else if ev = some .up then some (lastReport dev .up) else none)
  | .polled => mtouchPolled dev ev
  | .inactive => (dev, none)

def mtouchPrepareTransmit (dev : Touch C T) : Touch C T × Option (Report C) :=
  if dev.format = .raw then (mtouchReportRaw A dev, none)
  else
    let ev := mtouchEvent dev
    let dev := mtouchSample dev ev
    if dev.calCntr ≠ 0 then (if ev = some .up then mtouchCalibrationPoint A dev else dev, none)
    else
      let (dev, report) := mtouchChoose dev ev
      match report with
      | some r => (mtouchReport A dev r, some r)
      | none => (dev, none)

/-- The transmit tick; `free` when the UART can take a byte. -/
def mtouchWriteToHost (dev : Touch C T) (free : Bool) : Touch C T × Option (Report C) :=
  if !free || dev.inReset then (dev, none)
  else if fifo8NumUsed dev.resp ≠ 0 then ({ dev with resp := (fifo8Pop dev.resp).1 }, none)
  else mtouchPrepareTransmit A dev

def mtouchPoll (dev : Touch C T) (but : BitVec 32) (x y : C) : Touch C T :=
  let (ax, ay, zone) := A.calibrate dev.scale x y
  { dev with but := but, rawX := x, rawY := y, absX := ax, absY := ay, inZone := zone }

/-- Power-on with an empty NOVRAM. -/
def mtouchInit (zero : C) (id : Fin 4) (baudRate : ℕ) : Touch C T :=
  mtouchDefaults
    { cmd := [], absX := zero, absY := zero, rawX := zero, rawY := zero, lastX := zero
      lastY := zero, lastRawX := zero, lastRawY := zero, inZone := false, lastInZone := false
      scale := A.factory, but := 0, butOld := 0, baudRate := baudRate, format := .dec
      prevFormat := .dec, mode := .stream, id := id, calCntr := 0, calType := .new, penMode := 0
      sensitivity := 0, filter := 0, serialCfg := 0, touchSamples := 0
      cal := fun _ => (zero, zero), modeStatus := false, soh := false, autobaud := false
      inReset := false, reset := false, powerOn := true, utReset := true, xon := false
      pqDown := false, pqUp := false, pqDownX := zero, pqDownY := zero, pqUpX := zero
      pqUpY := zero, pqDownZone := false, pqUpZone := false, resp := fifo8Create 256 }

end PeepeeBox.MicroTouch
