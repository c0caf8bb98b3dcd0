import PeepeeBox.Elo
import PeepeeBox.TraceMachine

set_option autoImplicit false

/-!
# The commands of the Elo controller

`elo_process_command` with one definition for each command, the framing of `elo_write`, and the controller with
its timers and its NVRAM file as one machine.
-/
namespace PeepeeBox.Elo
open CharModem (ch toupper)
open TraceMachine

def islower (c : Byte) : Bool := decide (0x61 ≤ c ∧ c ≤ 0x7A)

def word (lo hi : Byte) : BitVec 16 := hi ++ lo

def arg (data : List Byte) (i : ℕ) : Byte := data.getD i 0

/-- What a command leaves to be done after it: nothing, an answer to a query and the Acknowledge, or the
    Acknowledge alone. -/
inductive Outcome where
  | returns (dev : MouseElo)
  | answers (dev : MouseElo) (resp : List Byte)
  | acks (dev : MouseElo)

def resp7 (resp : List Byte) : List Byte := resp ++ List.replicate (7 - resp.length) 0

def acknowledge (dev : MouseElo) : Outcome :=
  let dev := if dev.calActive then eloWarn { dev with calActive := false } eloErrCalcancel else dev
  .returns (eloAckWarnings dev)

def touch (dev : MouseElo) (query : Bool) : Outcome :=
  if query then
    let (x, oorX) := eloTransform dev 0 dev.rawX
    let (y, oorY) := eloTransform dev 1 dev.rawY
    let st := if dev.but then eloM1Stream else eloM1Untouch
    let st := if oorX || oorY then st ||| eloStOutofrange else st
    .returns (eloAck (eloSendTouch dev st x y (eloZValue dev)) eloErrNone)
  else .returns (eloAck dev eloErrNoset)

def reset (dev : MouseElo) (data : List Byte) : Outcome :=
  if has (arg data 0) 1 then .answers (eloSoftReset dev) [arg data 0]
  else .returns { dev with inReset := true, resetTimer := true }

def reportDelays (dev : MouseElo) (query : Bool) (data : List Byte) : Outcome :=
  let dev :=
    if query then dev
    else
      { dev with
        setup := { dev.setup with untouchDelay := arg data 0 &&& 0x0F, repDelay := arg data 1 }
        repReady := true }
  .answers dev [dev.setup.untouchDelay, dev.setup.repDelay]

def format (fmt : Byte) : Byte := if ch '0' ≤ fmt ∧ fmt ≤ ch '7' then fmt - ch '0' else fmt

def emulate (dev : MouseElo) (query : Bool) (data : List Byte) : Outcome :=
  let tf := arg data 0
  let fmt := format (arg data 1)
  if !query && (tf ≠ ch '0' && tf ≠ ch '1') then .returns (eloAck dev eloErrSubcmd)
  else if !query && 7 < fmt then .returns (eloAck dev eloErrRange)
  else
    let dev :=
      if query then dev
      else
        let dev := { dev with setup := { dev.setup with emulTouchflag := tf = ch '1', emulFormat := fmt } }
        if fmt = 2 ∨ fmt = 3 then
          { dev with
            scale := { lo := fun _ => elo280Lo, hi := fun _ => elo280Hi }
            setup := { dev.setup with mode2 := dev.setup.mode2 ||| eloM2Scale } }
        else dev
    .answers dev [if dev.setup.emulTouchflag then ch '1' else ch '0', ch '0' + dev.setup.emulFormat]

def setPoints (p : Points) (axis : Fin 2) (lo hi : ℤ) : Points where
  lo := Function.update p.lo axis lo
  hi := Function.update p.hi axis hi

def calibration (dev : MouseElo) (query : Bool) (data : List Byte) : Outcome :=
  let sub := arg data 0
  if sub = ch '2' then
    .answers (if query then dev else { dev with calActive := true, calStep := 0, calButOld := dev.but }) [ch '2']
  else if sub = ch 'S' then
    let dev := if query then dev else { dev with setup := { dev.setup with swapAxes := has (arg data 1) 1 } }
    .answers dev [ch 'S', if dev.setup.swapAxes then 1 else 0]
  else if sub = ch 'X' ∨ sub = ch 'Y' then
    let axis : Fin 2 := if sub = ch 'X' then 0 else 1
    let dev :=
      if query then dev
      else
        { dev with
          cal := setPoints dev.cal axis (word (arg data 1) (arg data 2)).toNat (word (arg data 3) (arg data 4)).toNat }
    .answers dev
      [sub, low (dev.cal.lo axis), high (dev.cal.lo axis), low (dev.cal.hi axis), high (dev.cal.hi axis)]
  else if sub = ch 'x' ∨ sub = ch 'y' then
    let axis : Fin 2 := if sub = ch 'x' then 0 else 1
    let dev :=
      if query then dev
      else
        let offset := (word (arg data 1) (arg data 2)).toInt
        let denom := (word (arg data 5) (arg data 6)).toInt
        { dev with cal := setPoints dev.cal axis offset (offset + denom) }
    let offset := dev.cal.lo axis
    let denom := dev.cal.hi axis - dev.cal.lo axis
    .answers dev [sub, low offset, high offset, 1, 0, low denom, high denom]
  else .answers dev [sub]

def diagnostics (dev : MouseElo) (query : Bool) : Outcome :=
  let dev := if query then dev else { dev with diagResult := 0 }
  .answers dev [dev.diagResult]

def filter (dev : MouseElo) (query : Bool) (data : List Byte) : Outcome :=
  let dev :=
    if query then dev
    else
      { dev with
        setup :=
          { dev.setup with
            filterSlen := arg data 1, filterWidth := arg data 2, filterStates := arg data 3
            filterControl := arg data 4 } }
  .answers dev
    [ch '0', dev.setup.filterSlen, dev.setup.filterWidth, dev.setup.filterStates, dev.setup.filterControl]

def eloConfigPackets : ℕ := 15

/-- What `elo_dump_config` puts, in order. -/
def configPackets (s : Setup) (cal scale : Points) : List (Byte × List Byte) :=
  let points (p : Points) (axis : Fin 2) : List Byte :=
    [low (p.lo axis), high (p.lo axis), low (p.hi axis), high (p.hi axis), 0, 0]
  [(ch 'M', [0, s.mode1, s.mode2, 0, 0, 0, 0]),
    (ch 'B', [s.untouchDelay, s.repDelay, 0, 0, 0, 0, 0]),
    (ch 'C', ch 'X' :: points cal 0),
    (ch 'C', ch 'Y' :: points cal 1),
    (ch 'C', [ch 'S', if s.swapAxes then 1 else 0, 0, 0, 0, 0, 0]),
    (ch 'S', ch 'X' :: points scale 0),
    (ch 'S', ch 'Y' :: points scale 1),
    (ch 'S', [ch 'I', s.invertMask, 0, 0, 0, 0, 0]),
    (ch 'F', [ch '0', s.filterSlen, s.filterWidth, s.filterStates, s.filterControl, 0, 0]),
    (ch 'H',
      [s.timerEnable, s.timerMode, s.timerInterval.setWidth 8, (s.timerInterval >>> 8).setWidth 8, 0, 0, 0]),
    (ch 'E', [if s.emulTouchflag then ch '1' else ch '0', ch '0' + s.emulFormat, 0, 0, 0, 0, 0]),
    (ch 'L', [s.lowPower, 0, 0, 0, 0, 0, 0]),
    (ch 'K', [s.keyValue, 0, 0, 0, 0, 0, 0]),
    (ch 'O', s.owner),
    (ch 'P', [ch '0', s.ser1, s.ser2, 0, 0, 0, 0])]

def eloDumpConfig (dev : MouseElo) : MouseElo :=
  (configPackets dev.setup dev.cal dev.scale).foldl (fun dev p => eloEnqueue dev p.1 p.2) dev

def configuration (dev : MouseElo) (query : Bool) : Outcome :=
  if query then .acks (eloDumpConfig dev) else .returns (eloAck dev eloErrNoset)

/-- `cur` is what the timer has left to run, in its ticks. -/
def timer (cur : BitVec 16) (dev : MouseElo) (query : Bool) (data : List Byte) : Outcome :=
  let dev :=
    if query then dev
    else
      eloTimerApply
        { dev with
          setup :=
            { dev.setup with
              timerEnable := arg data 0 &&& 1, timerMode := arg data 1 &&& 1
              timerInterval := word (arg data 2) (arg data 3) } }
  let s := dev.setup
  let cur := if s.timerEnable ≠ 0 ∧ dev.userTimer then cur else 0
  .answers dev
    [s.timerEnable, s.timerMode, s.timerInterval.setWidth 8, (s.timerInterval >>> 8).setWidth 8, cur.setWidth 8,
      (cur >>> 8).setWidth 8]

def identity (dev : MouseElo) : Outcome :=
  .answers dev [ch '0', ch '0', 0x80, 1, 2, BitVec.ofNat 8 eloConfigPackets, 0]

def jumpers (dev : MouseElo) : Outcome :=
  .answers dev [ch '0', ch '0', ch '0', ch '1', dev.setup.ser1 &&& 7, 1, 1]

def key (dev : MouseElo) (query : Bool) (data : List Byte) : Outcome :=
  let dev := if query then dev else { dev with setup := { dev.setup with keyValue := arg data 0 } }
  .answers dev [dev.setup.keyValue]

def lowPower (dev : MouseElo) (query : Bool) (data : List Byte) : Outcome :=
  let dev := if query then dev else { dev with setup := { dev.setup with lowPower := arg data 0 &&& 1 } }
  .answers dev [dev.setup.lowPower]

def modeLetter (c : Byte) : Option (Byte × Byte) :=
  if c = ch 'I' then some (eloM1Initial, 0)
  else if c = ch 'S' then some (eloM1Stream, 0)
  else if c = ch 'U' then some (eloM1Untouch, 0)
  else if c = ch 'T' then some (0, eloM2Track)
  else if c = ch 'P' then some (eloM1Rangechk, eloM2Trim ||| eloM2Cal)
  else if c = ch 'C' then some (0, eloM2Cal)
  else if c = ch 'M' then some (0, eloM2Scale)
  else if c = ch 'B' then some (eloM1Rangechk, 0)
  else none

def modeLetters : List Byte → Byte × Byte → Byte × Byte
  | [], m => m
  | c :: str, m =>
    if c = 0 then m
    else
      match modeLetter c with
      | some bits => modeLetters str (m.1 ||| bits.1, m.2 ||| bits.2)
      | none => m

def eloProcessModeAscii (dev : MouseElo) (str : List Byte) : MouseElo :=
  let m := modeLetters (str.take 7) (eloM1Zreserved, 0)
  { dev with setup := { dev.setup with mode1 := m.1, mode2 := m.2 } }

def mode (dev : MouseElo) (query : Bool) (data : List Byte) : Outcome :=
  let dev :=
    if query then dev
    else if arg data 0 = 0 then
      { dev with setup := { dev.setup with mode1 := arg data 1 ||| eloM1Zreserved, mode2 := arg data 2 } }
    else eloProcessModeAscii dev data
  .answers dev [0, dev.setup.mode1, dev.setup.mode2]

def owner (dev : MouseElo) (query : Bool) (data : List Byte) : Outcome :=
  let dev := if query then dev else { dev with setup := { dev.setup with owner := data.take 7 } }
  .answers dev dev.setup.owner

def parameter (dev : MouseElo) (query : Bool) (data : List Byte) : Outcome :=
  let dev :=
    if query then dev
    else
      { dev with
        setup := { dev.setup with ser1 := arg data 1, ser2 := arg data 2 }
        baudRate := eloBaudTable.getD (arg data 1 &&& 7).toNat 0 }
  .answers dev [ch '0', dev.setup.ser1, dev.setup.ser2]

def quiet (dev : MouseElo) (query : Bool) (data : List Byte) : Outcome :=
  let dev :=
    if query then dev
    else
      { dev with
        quietAll := has (arg data 0) 1, quietTimer := has (arg data 0) 2, quietTouch := has (arg data 0) 4 }
  .answers dev
    [(if dev.quietAll then 1 else 0) ||| (if dev.quietTimer then 2 else 0) ||| (if dev.quietTouch then 4 else 0)]

def scaling (dev : MouseElo) (query : Bool) (data : List Byte) : Outcome :=
  let sub := arg data 0
  if sub = ch 'I' then
    let dev := if query then dev else { dev with setup := { dev.setup with invertMask := arg data 1 &&& 0x07 } }
    .answers dev [ch 'I', dev.setup.invertMask]
  else if sub = ch 'X' ∨ sub = ch 'Y' then
    let axis : Fin 2 := if sub = ch 'X' then 0 else 1
    let dev :=
      if query then dev
      else
        { dev with
          scale :=
            setPoints dev.scale axis (word (arg data 1) (arg data 2)).toInt (word (arg data 3) (arg data 4)).toInt }
    .answers dev
      [sub, low (dev.scale.lo axis), high (dev.scale.lo axis), low (dev.scale.hi axis), high (dev.scale.hi axis)]
  else if sub = ch 'x' ∨ sub = ch 'y' then
    let axis : Fin 2 := if sub = ch 'x' then 0 else 1
    let dev :=
      if query then dev
      else
        let offset := (word (arg data 1) (arg data 2)).toInt
        let numer := (word (arg data 3) (arg data 4)).toInt
        { dev with scale := setPoints dev.scale axis offset (offset + numer) }
    let offset := dev.scale.lo axis
    let numer := dev.scale.hi axis - dev.scale.lo axis
    .answers dev [sub, low offset, high offset, low numer, high numer, 1, 0]
  else .answers dev [sub]

/-- Every command but the NVRAM's. -/
def command (cur : BitVec 16) (dev : MouseElo) (base : Byte) (query : Bool) (data : List Byte) : Outcome :=
  if base = ch 'A' then acknowledge dev
  else if base = ch 'T' then touch dev query
  else if base = ch 'R' then reset dev data
  else if base = ch 'B' then reportDelays dev query data
  else if base = ch 'E' then emulate dev query data
  else if base = ch 'C' then calibration dev query data
  else if base = ch 'D' then diagnostics dev query
  else if base = ch 'F' then filter dev query data
  else if base = ch 'G' then configuration dev query
  else if base = ch 'H' then timer cur dev query data
  else if base = ch 'I' then identity dev
  else if base = ch 'J' then jumpers dev
  else if base = ch 'K' then key dev query data
  else if base = ch 'L' then lowPower dev query data
  else if base = ch 'M' then mode dev query data
  else if base = ch 'O' then owner dev query data
  else if base = ch 'P' then parameter dev query data
  else if base = ch 'Q' then quiet dev query data
  else if base = ch 'S' then scaling dev query data
  else .returns (eloAck dev eloErrIllegalcmd)

theorem command_all_of {P : Outcome → Prop} {cur : BitVec 16} {dev : MouseElo} {query : Bool} {data : List Byte}
    {base : Byte} (acknowledge : P (Elo.acknowledge dev)) (touch : P (Elo.touch dev query))
    (reset : P (Elo.reset dev data)) (delays : P (Elo.reportDelays dev query data))
    (emulate : P (Elo.emulate dev query data)) (calibration : P (Elo.calibration dev query data))
    (diagnostics : P (Elo.diagnostics dev query)) (filter : P (Elo.filter dev query data))
    (configuration : P (Elo.configuration dev query)) (timer : base = ch 'H' → P (Elo.timer cur dev query data))
    (identity : P (Elo.identity dev)) (jumpers : P (Elo.jumpers dev)) (key : P (Elo.key dev query data)) (lowPower : P (Elo.lowPower dev query data))
    (mode : P (Elo.mode dev query data)) (owner : P (Elo.owner dev query data))
    (parameter : P (Elo.parameter dev query data)) (quiet : P (Elo.quiet dev query data))
    (scaling : P (Elo.scaling dev query data)) (illegal : P (.returns (eloAck dev eloErrIllegalcmd))) :
    P (command cur dev base query data) := by
  unfold command
  refine iteInduction (fun _ => acknowledge) fun _ => ?_
  refine iteInduction (fun _ => touch) fun _ => ?_
  refine iteInduction (fun _ => reset) fun _ => ?_
  refine iteInduction (fun _ => delays) fun _ => ?_
  refine iteInduction (fun _ => emulate) fun _ => ?_
  refine iteInduction (fun _ => calibration) fun _ => ?_
  refine iteInduction (fun _ => diagnostics) fun _ => ?_
  refine iteInduction (fun _ => filter) fun _ => ?_
  refine iteInduction (fun _ => configuration) fun _ => ?_
  refine iteInduction timer fun _ => ?_
  refine iteInduction (fun _ => identity) fun _ => ?_
  refine iteInduction (fun _ => jumpers) fun _ => ?_
  refine iteInduction (fun _ => key) fun _ => ?_
  refine iteInduction (fun _ => lowPower) fun _ => ?_
  refine iteInduction (fun _ => mode) fun _ => ?_
  refine iteInduction (fun _ => owner) fun _ => ?_
  refine iteInduction (fun _ => parameter) fun _ => ?_
  refine iteInduction (fun _ => quiet) fun _ => ?_
  refine iteInduction (fun _ => scaling) fun _ => ?_
  exact illegal

theorem command_all {P : Outcome → Prop} {cur : BitVec 16} {dev : MouseElo} {query : Bool} {data : List Byte}
    (acknowledge : P (Elo.acknowledge dev)) (touch : P (Elo.touch dev query)) (reset : P (Elo.reset dev data))
    (delays : P (Elo.reportDelays dev query data)) (emulate : P (Elo.emulate dev query data))
    (calibration : P (Elo.calibration dev query data)) (diagnostics : P (Elo.diagnostics dev query))
    (filter : P (Elo.filter dev query data)) (configuration : P (Elo.configuration dev query))
    (timer : P (Elo.timer cur dev query data)) (identity : P (Elo.identity dev)) (jumpers : P (Elo.jumpers dev))
    (key : P (Elo.key dev query data)) (lowPower : P (Elo.lowPower dev query data))
    (mode : P (Elo.mode dev query data)) (owner : P (Elo.owner dev query data))
    (parameter : P (Elo.parameter dev query data)) (quiet : P (Elo.quiet dev query data))
    (scaling : P (Elo.scaling dev query data)) (illegal : P (.returns (eloAck dev eloErrIllegalcmd))) (base : Byte) :
    P (command cur dev base query data) :=
  command_all_of acknowledge touch reset delays emulate calibration diagnostics filter configuration (fun _ => timer)
    identity jumpers key lowPower mode owner parameter quiet scaling illegal

def finish (base : Byte) (query : Bool) : Outcome → MouseElo
  | .returns dev => dev
  | .answers dev resp => eloAck (if query then eloEnqueue dev base (resp7 resp) else dev) 0
  | .acks dev => eloAck dev 0

/-- The controller and its NVRAM file. -/
structure Controller where
  dev : MouseElo
  nvr : Option NvrFile

def nvramAreas (data : List Byte) : Byte := arg data 1 &&& (eloAreaSetup ||| eloAreaCal ||| eloAreaScale)

def nvramPage (data : List Byte) : Fin 2 := if has (arg data 2) 1 then 1 else 0

def nvram (u : Controller) (query : Bool) (data : List Byte) : Controller :=
  if query then { u with dev := eloAck u.dev eloErrNoquery }
  else if nvramAreas data = 0 then { u with dev := eloAck u.dev eloErrRange }
  else if has (arg data 0) 1 then
    { dev := eloAck u.dev 0, nvr := some (eloSaveNvrAreas u.dev u.nvr (nvramAreas data) (nvramPage data)) }
  else
    { u with dev := eloAck (eloTimerApply (eloLoadNvrAreas u.dev u.nvr (nvramAreas data) (nvramPage data))) 0 }

def eloProcessCommand (cur : BitVec 16) (u : Controller) (body : List Byte) : Controller :=
  let cmd := arg body 0
  let data := body.drop 1
  let query := islower cmd
  let base := toupper cmd
  if base = ch 'N' then nvram u query data
  else { u with dev := finish base query (command cur u.dev base query data) }

def inSum (dev : MouseElo) : Byte :=
  let sum := dev.body.foldl (· + ·) (0xAA + if dev.inKeyed then 0x16 else 0x55)
  if dev.inKeyed then sum + dev.inKey else sum

def eloWrite (cur : BitVec 16) (u : Controller) (data : Byte) : Controller :=
  let dev := u.dev
  match dev.cmdPos with
  | none =>
    if data = 0x55 then { u with dev := { dev with cmdPos := some 0, body := [], inKeyed := false } }
    else if data = 0x16 then { u with dev := { dev with cmdPos := some 0, body := [], inKeyed := true } }
    else u
  | some pos =>
    if pos < 8 then { u with dev := { dev with cmdPos := some (pos + 1), body := dev.body ++ [data] } }
    else if dev.inKeyed && pos = 8 then { u with dev := { dev with inKey := data, cmdPos := some (pos + 1) } }
    else
      let dev := { dev with cmdPos := none }
      if has dev.setup.ser2 1 && inSum dev ≠ data then { u with dev := eloAck dev eloErrChecksum }
      else if dev.inKeyed && dev.inKey ≠ dev.setup.keyValue then { u with dev }
      else eloProcessCommand cur { u with dev } dev.body

def eloBaudIndex (baud : ℕ) : Byte :=
  match eloBaudTable.idxOf? baud with
  | some i => BitVec.ofNat 8 i
  | none => 5

def zeroed : MouseElo where
  body := []
  cmdPos := none
  inKeyed := false
  inKey := 0
  resp := []
  baudRate := 0
  inReset := false
  setup := { loadSetup blankFile.setup with mode1 := 0 }
  quietAll := false
  quietTimer := false
  quietTouch := false
  cal := zeroPoints
  calActive := false
  calStep := 0
  calButOld := false
  calPoints _ _ := 0
  scale := zeroPoints
  diagResult := 0
  untouchPending := false
  repReady := false
  warn := List.replicate 4 0
  but := false
  butOld := false
  butPollPrev := false
  rawX := 0
  rawY := 0
  rawXOld := 0
  rawYOld := 0
  haveSent := false
  sentX := 0
  sentY := 0
  untouchTimer := false
  repDelayTimer := false
  userTimer := false
  resetTimer := false

/-- `speed` is the line speed the user picked. -/
def eloInit (speed : ℤ) (nvr : Option NvrFile) : Controller :=
  let baud := if speed ≤ 0 then 9600 else speed.toNat
  let dev :=
    { zeroed with
      baudRate := baud, repReady := true, setup := { zeroed.setup with ser1 := eloBaudIndex baud, ser2 := 0x04 } }
  let dev := eloTimerApply (eloLoadNvr dev nvr)
  let ser1 := dev.setup.ser1 &&& ~~~7 ||| eloBaudIndex baud
  { dev := { dev with setup := { dev.setup with ser1 }, baudRate := eloBaudTable.getD (ser1 &&& 7).toNat 0 }, nvr }

inductive Event where
  | write (data : Byte) (cur : BitVec 16)
  | poll (but : Bool) (x y : ℤ)
  | tick (free : Bool)
  | untouchDone
  | repDelayDone
  | userTimerFire
  | resetComplete
  /-- The machine is closed and started again. -/
  | restart (speed : ℤ)

def step (u : Controller) : Event → Controller × Option Report
  | .write data cur => (eloWrite cur u data, none)
  | .poll but x y => ({ u with dev := eloPoll u.dev but x y }, none)
  | .tick free =>
    let (dev, _, sent) := eloWriteToHost u.dev free
    ({ u with dev }, sent)
  | .untouchDone =>
    (if u.dev.untouchTimer then { u with dev := eloUntouchDone { u.dev with untouchTimer := false } } else u, none)
  | .repDelayDone =>
    (if u.dev.repDelayTimer then { u with dev := eloRepDelayDone { u.dev with repDelayTimer := false } } else u, none)
  | .userTimerFire =>
    (if u.dev.userTimer then { u with dev := eloUserTimerFire { u.dev with userTimer := false } } else u, none)
  | .resetComplete =>
    (if u.dev.resetTimer then { u with dev := eloResetComplete { u.dev with resetTimer := false } } else u, none)
  | .restart speed => (eloInit speed u.nvr, none)

/-- The controller; it answers the reports it sends. -/
def elo : Machine Controller Event Report where
  step := step

/-- Only the queue differs. -/
def Queued (dev dev' : MouseElo) : Prop := ∃ resp, dev' = { dev with resp := resp }

theorem send_queued (dev : MouseElo) (buf : List Byte) : Queued dev (send dev buf) := by
  unfold send
  split
  · exact ⟨dev.resp, rfl⟩
  · exact ⟨dev.resp ++ buf, rfl⟩

theorem eloEmitRaw_queued (dev : MouseElo) (buf : List Byte) : Queued dev (eloEmitRaw dev buf) := by
  unfold eloEmitRaw
  split
  · exact ⟨dev.resp, rfl⟩
  · exact send_queued dev buf

theorem eloEnqueue_queued (dev : MouseElo) (cmd : Byte) (data : List Byte) : Queued dev (eloEnqueue dev cmd data) := by
  unfold eloEnqueue
  split
  · exact ⟨dev.resp, rfl⟩
  · exact send_queued dev _

theorem eloAck_queued (dev : MouseElo) (err : Byte) : Queued dev (eloAck dev err) := eloEnqueue_queued dev _ _

theorem eloSendTouch_queued (dev : MouseElo) (status : Byte) (x y z : ℤ) :
    Queued dev (eloSendTouch dev status x y z) := by
  unfold eloSendTouch
  dsimp only
  split
  all_goals exact eloEmitRaw_queued dev _

theorem eloDumpConfig_queued (dev : MouseElo) : Queued dev (eloDumpConfig dev) := by
  unfold eloDumpConfig
  generalize configPackets dev.setup dev.cal dev.scale = packets
  induction packets generalizing dev with
  | nil => exact ⟨dev.resp, rfl⟩
  | cons p packets ih =>
    obtain ⟨resp, hresp⟩ := eloEnqueue_queued dev p.1 p.2
    rw [List.foldl_cons, hresp]
    obtain ⟨resp', hresp'⟩ := ih { dev with resp := resp }
    exact ⟨resp', hresp'⟩

def left : Outcome → MouseElo
  | .returns dev => dev
  | .answers dev _ => dev
  | .acks dev => dev

theorem calibrate_eq (dev : MouseElo) :
    ∃ resp cal calActive calStep calButOld calPoints,
      calibrate dev = { dev with resp, cal, calActive, calStep, calButOld, calPoints } ∧
        (dev.calActive = false → calibrate dev = dev) := by
  unfold calibrate
  split
  · rename_i hactive
    have hskip {P : Prop} (h : dev.calActive = false) : P := by
      rw [hactive] at h
      cases h
    split
    · obtain ⟨resp, hresp⟩ := eloAck_queued
        { dev with
          calPoints := Function.update dev.calPoints dev.calStep fun axis => if axis = 0 then dev.rawX else dev.rawY
          calStep := dev.calStep + 1 } 0
      dsimp only
      rw [hresp]
      split
      · exact ⟨_, _, _, _, _, _, rfl, hskip⟩
      · exact ⟨_, _, _, _, _, _, rfl, hskip⟩
    · exact ⟨_, _, _, _, _, _, rfl, hskip⟩
  · exact ⟨_, _, _, _, _, _, rfl, fun _ => rfl⟩

theorem eloUserTimerFire_eq (dev : MouseElo) :
    ∃ resp userTimer timerEnable,
      eloUserTimerFire dev = { dev with resp, userTimer, setup := { dev.setup with timerEnable } } ∧
        (timerEnable = dev.setup.timerEnable ∨ timerEnable = 0) := by
  unfold eloUserTimerFire
  split
  · exact ⟨_, _, _, rfl, .inl rfl⟩
  · obtain ⟨resp, hresp⟩ : ∃ resp, (if dev.quietTimer then dev else
        eloEnqueue dev (ch 'H')
          [dev.setup.timerEnable, dev.setup.timerMode, dev.setup.timerInterval.setWidth 8,
            (dev.setup.timerInterval >>> 8).setWidth 8, 0, 0, 0]) = { dev with resp := resp } := by
      split
      · exact ⟨dev.resp, rfl⟩
      · exact eloEnqueue_queued dev _ _
    rw [hresp]
    dsimp only
    split
    · exact ⟨_, _, _, rfl, .inl rfl⟩
    · exact ⟨_, _, _, rfl, .inr rfl⟩

end PeepeeBox.Elo
