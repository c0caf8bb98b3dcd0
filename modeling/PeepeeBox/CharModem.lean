import Mathlib.Logic.Function.Basic
import PeepeeBox.CString
import PeepeeBox.HaspRecord

set_option autoImplicit false

/-!
# The fun.net modem

`char_modem.c`: the AT command parser, the line's state machine and the data mode of the
two modems on COM4.  The speaker and the logs are left out, and the int arguments of the
commands wrap at 32 bits.  Socket calls are answered by the environment of each call.
-/
namespace PeepeeBox.CharModem
open HaspRecord CString

def ch (c : Char) : Byte := BitVec.ofNat 8 c.toNat

def isdigit (c : Byte) : Bool := decide (0x30 ≤ c ∧ c ≤ 0x39)

def toupper (c : Byte) : Byte := if 0x61 ≤ c ∧ c ≤ 0x7A then c - 0x20 else c

def modemOutSize : ℕ := 4096

def modemCmdSize : ℕ := 256

def modemSettleMs : BitVec 32 := 100

/-- What is on the other side of the RJ11. -/
inductive Line where
  | dead | tcp
deriving DecidableEq, Repr

inductive LineState where
  | idle | dialing | connecting | answering | online
deriving DecidableEq, Repr

/-- Result codes, in the numeric order every Hayes modem uses. -/
inductive Res where
  | ok | connect | ring | noCarrier | error | connect1200 | noDialtone | busy | noAnswer
deriving DecidableEq, Repr

def Res.code : Res → ℕ
  | .ok => 0
  | .connect => 1
  | .ring => 2
  | .noCarrier => 3
  | .error => 4
  | .connect1200 => 5
  | .noDialtone => 6
  | .busy => 7
  | .noAnswer => 8

def modemResText : Res → List Byte
  | .ok => ascii "OK"
  | .connect => ascii "CONNECT"
  | .ring => ascii "RING"
  | .noCarrier => ascii "NO CARRIER"
  | .error => ascii "ERROR"
  | .connect1200 => ascii "CONNECT 1200"
  | .noDialtone => ascii "NO DIALTONE"
  | .busy => ascii "BUSY"
  | .noAnswer => ascii "NO ANSWER"

/-- Which `ATIn` carries the identification, the firmware and the country, and the rest of
    `ATI0` to `ATI9`. -/
structure ModemModel where
  identAt : ℕ
  ident : List Byte
  fmwAt : ℕ
  fmw : List Byte
  countryAt : ℕ
  info : ℕ → Option (List Byte)

def modemModelSupra : ModemModel :=
  { identAt := 3, ident := ascii "SupraExpress 56e PRO"
    fmwAt := 7, fmw := ascii "V1.100-V90_2M_DLS"
    countryAt := 5
    info := fun n =>
      match n with
      | 0 => some (ascii "1794")
      | 1 => some (ascii "168")
      | 2 => some (ascii "OK")
      | 4 => some (ascii "Diamond Multimedia SupraExpress 56e PRO")
      | 6 => some (ascii "RCVDL56ACF/SP Rev 1.100")
      | _ => none }

def modemModelElsa : ModemModel :=
  { identAt := 6, ident := ascii "ELSA MicroLink 56k"
    fmwAt := 3, fmw := ascii "2.274"
    countryAt := 5
    info := fun n =>
      match n with
      | 0 => some (ascii "1442")
      | 1 => some (ascii "168")
      | 2 => some (ascii "OK")
      | 4 => some (ascii "ELSA MicroLink 56k")
      | 7 => some (ascii "ELSA AG, Aachen")
      | _ => none }

instance neZeroRegisters : NeZero 100 := ⟨by decide⟩

def modemSDefaults : Fin 100 → Byte := fun i =>
  match i.val with
  | 2 => 43
  | 3 => 13
  | 4 => 10
  | 5 => 8
  | 6 => 2
  | 7 => 50
  | 8 => 2
  | 9 => 6
  | 10 => 14
  | 11 => 95
  | 12 => 50
  | _ => 0

structure Modem where
  model : ModemModel
  line : Line
  ident : List Byte
  firmware : List Byte
  connectRate : ℕ
  /-- The ring to the DTE, oldest byte first. -/
  out : List Byte
  /-- The command line being collected: `cmdlen` bytes of it. -/
  cmd : List Byte
  lastcmd : List Byte
  s : Fin 100 → Byte
  echo : Bool
  verbose : Bool
  quiet : Bool
  xresult : BitVec 32
  wresult : BitVec 32
  dcdMode : BitVec 32
  dsrMode : BitVec 32
  dtrMode : BitVec 32
  flow : BitVec 32
  country : BitVec 32
  online : Bool
  state : LineState
  sock : Bool
  deadline : BitVec 32
  saidConnect : Bool
  dtr : Bool
  lastData : BitVec 32
  pluses : ℕ
  spkMode : BitVec 32
  spkLevel : BitVec 32
  pulse : Bool
  answerAt : BitVec 32
  refused : Bool

/-- What the host answers while a call is being placed. -/
structure Host where
  now : BitVec 32
  /-- `plat_netsocket_create` and `plat_netsocket_connect` both succeed. -/
  connects : Bool
  /-- The answer of `plat_netsocket_connected`: 1, 0 or -1. -/
  connected : ℤ

/-- What `plat_netsocket_receive` finds. -/
inductive Received where
  | bytes (bs : List Byte)
  | wouldblock
  | closed
deriving DecidableEq, Repr

def modemOutByte (dev : Modem) (val : Byte) : Modem :=
  if dev.out.length = modemOutSize - 1 then dev else { dev with out := dev.out ++ [val] }

def modemOutStr (dev : Modem) (str : List Byte) : Modem := str.foldl modemOutByte dev

def modemOutLine (dev : Modem) (str : List Byte) : Modem :=
  modemOutStr dev ([dev.s 3, dev.s 4] ++ str ++ [dev.s 3, dev.s 4])

def decimal (n : ℕ) : List Byte := (Nat.toDigits 10 n).map ch

/-- `%0*d` -/
def padded (width : ℕ) (digits : List Byte) : List Byte :=
  List.replicate (width - digits.length) (ch '0') ++ digits

def hex2 (v : BitVec 32) : List Byte :=
  padded 2 ((Nat.toDigits 16 v.toNat).map fun c => toupper (ch c))

def resCode (dev : Modem) (code : Res) : Res :=
  if dev.xresult = 0 then
    match code with
    | .noDialtone => .noCarrier
    | .busy => .noCarrier
    | .noAnswer => .noCarrier
    | code => code
  else
    let code :=
      if code = .noDialtone ∧ dev.xresult ≠ 2 ∧ dev.xresult ≠ 4 then .noCarrier else code
    if code = .busy ∧ dev.xresult.toInt < 3 then .noCarrier else code

def resText (dev : Modem) (code : Res) : List Byte :=
  if code = .connect then
    if dev.xresult = 0 then ascii "CONNECT"
    else if dev.wresult = 2 then ascii "CONNECT " ++ decimal dev.connectRate ++ ascii "/V90"
    else ascii "CONNECT " ++ decimal dev.connectRate
  else modemResText code

def modemResult (dev : Modem) (code : Option Res) : Modem :=
  match code with
  | none => dev
  | some code =>
    if dev.quiet then dev
    else
      let code := resCode dev code
      if dev.verbose then modemOutLine dev (resText dev code)
      else modemOutByte (modemOutStr dev (decimal code.code)) (dev.s 3)

def modemHangup (dev : Modem) : Modem :=
  { dev with sock := false, state := .idle, online := false, pluses := 0 }

def modemSoundHandshakeMs (v90 : Bool) : BitVec 32 :=
  150 + 1300 + 1300 + 450 + 300 + 160 + 550 + 1500 + 1300 + if v90 then 1200 else 0

def modemAnswered (dev : Modem) (now : BitVec 32) : Modem :=
  { dev with
    state := .answering
    saidConnect := false
    deadline := now + modemSoundHandshakeMs (decide (33600 < dev.connectRate)) }

def modemOnline (dev : Modem) : Modem := { dev with state := .online, online := true }

def soundDialChar (s8 : Byte) (ms : BitVec 32) (pulse : Bool) (c : Byte) : BitVec 32 × Bool :=
  if c = ch 'T' ∨ c = ch 't' then (ms, false)
  else if c = ch 'P' ∨ c = ch 'p' then (ms, true)
  else if c = ch ',' then (ms + s8.setWidth 32 * 1000, pulse)
  else if c = ch 'W' ∨ c = ch 'w' then (ms + 1500, pulse)
  else if isdigit c then
    if pulse then
      let n : BitVec 32 := if c = ch '0' then 10 else c.setWidth 32 - 0x30
      (ms + (n * (40 + 60) + 700), pulse)
    else (ms + (90 + 90), pulse)
  else if c = ch '*' ∨ c = ch '#' ∨ (ch 'A' ≤ c ∧ c ≤ ch 'D') then
    (ms + if pulse then 0 else 90 + 90, pulse)
  else (ms, pulse)

def modemSoundDialMs (number : List Byte) (s8 : Byte) (pulse : Bool) : BitVec 32 :=
  (number.foldl (fun acc c => soundDialChar s8 acc.1 acc.2 c) (800, pulse)).1 + 600

def modemSoundRingMs : BitVec 32 := 2600

def modemDial (host : Host) (dev : Modem) (number : List Byte) : Modem :=
  let now := host.now
  let dev :=
    { dev with
      refused := false
      answerAt := now + modemSoundDialMs number (dev.s 8) dev.pulse + modemSoundRingMs }
  if dev.line = .tcp then
    if host.connects then
      { dev with
        sock := true
        state := .connecting
        deadline := now + (dev.s 7).setWidth 32 * 1000 }
    else
      -- it rings, and nobody answers
      { dev with sock := false, state := .dialing, deadline := dev.answerAt + 5000 }
  else
    { dev with
      state := .dialing
      deadline :=
        now + if dev.xresult = 2 ∨ dev.xresult = 4 then 1500 else (dev.s 7).setWidth 32 * 1000 }

def modemRefused (now : BitVec 32) (dev : Modem) : Modem :=
  if dev.refused then dev
  else
    { dev with
      refused := true
      deadline := (if 0 < (dev.answerAt - now).toInt then dev.answerAt else now) + 5000 }

def modemPollLine (host : Host) (dev : Modem) : Modem :=
  let now := host.now
  match dev.state with
  | .dialing =>
    if (now - dev.deadline).toInt < 0 then dev
    else
      modemResult (modemHangup dev)
        (some (if dev.line = .dead ∧ (dev.xresult = 2 ∨ dev.xresult = 4) then .noDialtone
          else .noCarrier))
  | .connecting =>
    let connected := if dev.refused then -1 else host.connected
    if connected = 1 then
      if 0 ≤ (now - dev.answerAt).toInt then modemAnswered dev now else dev
    else if connected = -1 then
      let dev := modemRefused now dev
      if 0 ≤ (now - dev.deadline).toInt then modemResult (modemHangup dev) (some .noCarrier)
      else dev
    else if 0 ≤ (now - dev.deadline).toInt then modemResult (modemHangup dev) (some .noCarrier)
    else dev
  | .answering =>
    if (now - dev.deadline).toInt < 0 then dev
    else if !dev.saidConnect then
      { modemResult dev (some .connect) with saidConnect := true, deadline := now + modemSettleMs }
    else if dev.out = [] then modemOnline dev
    else dev
  | _ => dev

/-- A decimal argument, 0 when there is none. -/
def modemArg (p : Cursor) : Except Fault (BitVec 32 × Cursor) := do
  let p ← p.skip fun c => c = ch ' '
  let (digits, p) ← p.collect isdigit (fun _ => true) p.left
  return (digits.foldl (fun val c => val * 10 + (c.setWidth 32 - 0x30)) 0, p)

def modemInfo (dev : Modem) (n : BitVec 32) : Modem :=
  if n.toInt < 0 ∨ 9 < n.toInt then dev
  else if n.toNat = dev.model.identAt then modemOutLine dev dev.ident
  else if n.toNat = dev.model.fmwAt then modemOutLine dev dev.firmware
  else if n.toNat = dev.model.countryAt then
    modemOutLine dev (ascii "Country Code: " ++ hex2 dev.country)
  else
    match dev.model.info n.toNat with
    | some text => modemOutLine dev text
    | none => dev

def modemLoadDefaults (dev : Modem) : Modem :=
  { dev with
    s := modemSDefaults, echo := true, verbose := true, quiet := false, xresult := 4, wresult := 0
    dcdMode := 1, dsrMode := 0, dtrMode := 2, flow := 3, spkMode := 1, spkLevel := 2
    pulse := false }

/-- What one turn of the parser's loop leaves: a result for the whole line, or the place the
    next command starts at. -/
inductive Turn where
  | finish (dev : Modem) (res : Option Res)
  | more (dev : Modem) (p : Cursor)

def argLetter (c : Byte) : Option (Modem → BitVec 32 → Modem) :=
  if c = ch 'E' then some fun dev n => { dev with echo := n != 0 }
  else if c = ch 'H' then some fun dev n => if n = 0 then modemHangup dev else dev
  else if c = ch 'I' then some modemInfo
  else if c = ch 'Q' then some fun dev n => { dev with quiet := n != 0 }
  else if c = ch 'V' then some fun dev n => { dev with verbose := n != 0 }
  else if c = ch 'W' then some fun dev n => { dev with wresult := n }
  else if c = ch 'X' then some fun dev n => { dev with xresult := n }
  else if c = ch 'Z' then some fun dev _ => modemLoadDefaults (modemHangup dev)
  else if c = ch 'L' then some fun dev n => { dev with spkLevel := n }
  else if c = ch 'M' then some fun dev n => { dev with spkMode := n }
  else if c = ch 'B' ∨ c = ch 'N' then some fun dev _ => dev
  else none

def plainLetter (c : Byte) : Option (Modem → Modem) :=
  if c = ch ' ' then some fun dev => dev
  else if c = ch 'P' then some fun dev => { dev with pulse := true }
  else if c = ch 'T' then some fun dev => { dev with pulse := false }
  else none

/-- `dev->s[reg]`, a fault outside the array. -/
def sRegister (reg : BitVec 32) : Except Fault (Fin 100) :=
  if h : 0 ≤ reg.toInt ∧ reg.toInt < 100 then .ok ⟨reg.toInt.toNat, by omega⟩
  else .error (.index reg.toInt)

/-- `ATS`: read or write a register. -/
def modemRegister (dev : Modem) (p : Cursor) : Except Fault Turn := do
  let (reg, p) ← modemArg p
  if 100 ≤ reg.toInt then return .finish dev (some .error)
  let p ← p.skip fun c => c = ch ' '
  let c ← p.read
  if c = ch '=' then
    let (n, p) ← modemArg p.next
    let i ← sRegister reg
    return .more { dev with s := Function.update dev.s i (n.setWidth 8) } p
  else if c = ch '?' then
    let i ← sRegister reg
    return .more (modemOutLine dev (padded 3 (decimal (dev.s i).toNat))) p.next
  else return .finish dev (some .error)

def ampLetter (a : Byte) : Modem → BitVec 32 → Modem :=
  if a = ch 'C' then fun dev n => { dev with dcdMode := n }
  else if a = ch 'D' then fun dev n => { dev with dtrMode := n }
  else if a = ch 'K' then fun dev n => { dev with flow := n }
  else if a = ch 'S' then fun dev n => { dev with dsrMode := n }
  else if a = ch 'F' then fun dev _ => modemLoadDefaults dev
  else fun dev _ => dev

def modemAmpersand (dev : Modem) (p : Cursor) : Except Fault Turn := do
  let a := toupper (← p.read)
  let p := p.next
  if a = ch 'V' then return .more (modemOutLine dev dev.ident) p
  else if a = 0 then return .finish dev (some .error)
  else
    let (n, p) ← modemArg p
    if a = ch 'W' ∨ a = ch 'Y' ∨ a = ch 'Z' then
      -- a stored profile: there is no NVRAM behind it
      if (← p.read) = ch '=' then return .more dev (← p.skip fun c => c ≠ 0 ∧ c ≠ ch ';')
      else return .more dev p
    else return .more (ampLetter a dev n) p

/-- `AT\`, `AT%`, `AT-`: a letter and its argument, accepted. -/
def modemExtended (dev : Modem) (p : Cursor) : Except Fault Turn := do
  if (← p.read) = 0 then return .finish dev (some .error)
  let (_, p) ← modemArg p.next
  return .more dev p

/-- `AT*NC`: the country. -/
def modemStar (dev : Modem) (p : Cursor) : Except Fault Turn := do
  let a := toupper (← p.read)
  if a = 0 then return .finish dev (some .error)
  let p := p.next
  let c := toupper (← p.read)
  let (n, p) ← modemArg (if c = ch 'C' then p.next else p)
  return .more (if a = ch 'N' then { dev with country := n } else dev) p

def isspace (c : Byte) : Bool := decide (c = ch ' ' ∨ (0x09 ≤ c ∧ c ≤ 0x0D))

def isxdigit (c : Byte) : Bool :=
  isdigit c || decide (ch 'A' ≤ toupper c ∧ toupper c ≤ ch 'F')

def xdigit (c : Byte) : ℕ := if isdigit c then c.toNat - 0x30 else (toupper c).toNat - 0x37

def hexPrefix : Cursor → Cursor
  | .inside (z :: x :: d :: rest) =>
    if z = ch '0' ∧ toupper x = ch 'X' ∧ isxdigit d then .inside (d :: rest)
    else .inside (z :: x :: d :: rest)
  | p => p

/-- `strtol(p, &end, 16)`, a long of 64 bits; without a digit `end` is `p`. -/
def strtol16 (p : Cursor) : Except Fault (ℤ × Cursor) := do
  let q ← p.skip isspace
  let sign ← q.read
  let q := if sign = ch '-' ∨ sign = ch '+' then q.next else q
  let q := hexPrefix q
  let (digits, tail) ← q.collect isxdigit (fun _ => true) q.left
  if digits = [] then return (0, p)
  let n : ℤ := digits.foldl (fun n c => 16 * n + xdigit c) 0
  let v := if sign = ch '-' then max (-n) (-2 ^ 63) else min n (2 ^ 63 - 1)
  return (v, tail)

def modemPlus (dev : Modem) (p : Cursor) : Except Fault Turn := do
  let (letters, p) ← p.collect (fun c => c ≠ 0 ∧ c ≠ ch '=' ∧ c ≠ ch '?') (fun _ => true) 15
  let name := letters.map toupper
  if name = ascii "GCI" then
    let c ← p.read
    if c = ch '?' then
      return .more (modemOutLine dev (ascii "+GCI: " ++ hex2 dev.country)) p.next
    else if c = ch '=' then
      let (v, p) ← strtol16 p.next
      return .more { dev with country := BitVec.ofInt 32 v } p
    else return .finish dev (some .error)
  else if name = ascii "MS" ∨ name = ascii "FCLASS" ∨ name = ascii "IFC" ∨ name = ascii "ES" then
    return .more dev (← p.skip fun c => c ≠ 0 ∧ c ≠ ch ';')
  else return .finish dev (some .error)

/-- What a dialled string is made of. -/
def dialled (d : Byte) : Bool :=
  isdigit d || [ch '*', ch '#', ch ','].contains d || (ascii "WwTtPp").contains d

def modemLast (host : Host) (dev : Modem) (c : Byte) (p : Cursor) : Except Fault Turn := do
  if c = ch 'A' then return .finish dev (some .noCarrier)
  else if c = ch 'D' then
    if dev.state ≠ .idle then return .finish dev (some .error)
    let (number, _) ← p.collect (fun d => d ≠ 0) dialled 63
    return .finish (modemDial host dev number) none
  else if c = ch 'O' then
    if dev.state ≠ .online then return .finish dev (some .error)
    let _ ← modemArg p
    return .finish { dev with online := true } none
  else return .finish dev (some .error)

/-- The switch of `modem_execute`, `p` being behind the letter. -/
def modemLetter (host : Host) (dev : Modem) (c : Byte) (p : Cursor) : Except Fault Turn := do
  match argLetter c, plainLetter c with
  | some act, _ =>
    let (n, p) ← modemArg p
    return .more (act dev n) p
  | none, some act => return .more (act dev) p
  | none, none =>
    if c = ch 'S' then modemRegister dev p
    else if c = ch '&' then modemAmpersand dev p
    else if c = 0x5C ∨ c = ch '%' ∨ c = ch '-' then modemExtended dev p
    else if c = ch '*' then modemStar dev p
    else if c = ch '+' then modemPlus dev p
    else modemLast host dev c p

/-- The parser's loop, for at most `fuel` turns. -/
def modemExecute (host : Host) : ℕ → Modem → Cursor → Except Fault (Modem × Option Res)
  | 0, _, _ => .error .running
  | fuel + 1, dev, p => do
    let c ← p.read
    if c = 0 then return (dev, some .ok)
    match ← modemLetter host dev (toupper c) p.next with
    | .finish dev res => return (dev, res)
    | .more dev p => modemExecute host fuel dev p

/-- A line without its `AT`: remembered, executed, and its result reported. -/
def modemCommand (host : Host) (dev : Modem) (line : List Byte) : Except Fault Modem := do
  let str := cstr line
  let dev := { dev with lastcmd := str.take (modemCmdSize - 1) }
  let (dev, res) ← modemExecute host (str.length + 1) dev (.inside str)
  return modemResult dev res

def modemReturn (host : Host) (dev : Modem) : Except Fault Modem :=
  let reported :=
    if 2 ≤ dev.cmd.length then
      if toupper (dev.cmd.getD 0 0) = ch 'A' ∧ toupper (dev.cmd.getD 1 0) = ch 'T' then
        modemCommand host dev (dev.cmd.drop 2)
      else .ok (modemResult dev (some .error))
    else if 0 < dev.cmd.length then .ok (modemResult dev (some .error))
    else .ok dev
  reported.map fun dev => { dev with cmd := [] }

def modemCommandByte (host : Host) (dev : Modem) (val : Byte) : Except Fault Modem :=
  if val = dev.s 5 then
    if dev.cmd = [] then .ok dev
    else
      let dev := { dev with cmd := dev.cmd.dropLast }
      .ok (if dev.echo then modemOutStr dev [dev.s 5, ch ' ', dev.s 5] else dev)
  else
    let dev := if dev.echo ∧ val ≠ dev.s 4 then modemOutByte dev val else dev
    if val = dev.s 3 then modemReturn host dev
    else if val = dev.s 4 then .ok dev
    else if dev.cmd.length = 1 ∧ val = ch '/' ∧ toupper (dev.cmd.getD 0 0) = ch 'A' then
      modemCommand host { dev with cmd := [] } dev.lastcmd
    else if dev.cmd.length < modemCmdSize - 1 then .ok { dev with cmd := dev.cmd ++ [val] }
    else .ok dev

/-- The escape guard time, in ticks. -/
def guardTime (dev : Modem) : BitVec 32 := (dev.s 12).setWidth 32 * 20

def modemPass (now : BitVec 32) (dev : Modem) (val : Byte) : Modem × List Byte :=
  ({ dev with pluses := 0, lastData := now },
    if dev.sock then List.replicate dev.pluses (dev.s 2) ++ [val] else [])

/-- A byte written on line; answered with the bytes handed to the socket. -/
def modemDataByte (now : BitVec 32) (dev : Modem) (val : Byte) : Modem × List Byte :=
  if val = dev.s 2 ∧ (0 < dev.pluses ∨ guardTime dev ≤ now - dev.lastData) then
    let dev := { dev with pluses := dev.pluses + 1, lastData := now }
    if dev.pluses ≤ 3 then (dev, []) else modemPass now dev val
  else modemPass now dev val

def modemInit (model : ModemModel) (line : Line) (connectRate : ℕ) (host ident firmware : List Byte) :
    Modem :=
  modemLoadDefaults
    { model := model
      line := if line = .tcp ∧ host = [] then .dead else line
      ident := if ident = [] then model.ident else ident
      firmware := if firmware = [] then model.fmw else firmware
      connectRate := connectRate
      out := [], cmd := [], lastcmd := [], s := fun _ => 0, echo := false, verbose := false
      quiet := false, xresult := 0, wresult := 0, dcdMode := 0, dsrMode := 0, dtrMode := 0
      flow := 0, country := 0, online := false, state := .idle, sock := false, deadline := 0
      saidConnect := false, dtr := false, lastData := 0, pluses := 0, spkMode := 0
      spkLevel := 0, pulse := false, answerAt := 0, refused := false }

def modemWrite (host : Host) (dev : Modem) (val : Byte) : Except Fault (Modem × List Byte) :=
  if dev.online then .ok (modemDataByte host.now dev val)
  else (modemCommandByte host dev val).map fun dev => (dev, [])

def modemSilence (now : BitVec 32) (dev : Modem) : Modem :=
  if dev.online ∧ 3 ≤ dev.pluses ∧ guardTime dev ≤ now - dev.lastData then
    modemResult { dev with pluses := 0, online := false } (some .ok)
  else dev

def modemReceive (received : Received) (dev : Modem) : Modem :=
  if dev.online ∧ dev.sock then
    let room := min (modemOutSize - 1 - dev.out.length) 256
    if room = 0 then dev
    else
      match received with
      | .bytes (b :: bs) => modemOutStr dev ((b :: bs).take room)
      | .wouldblock => dev
      | _ => modemResult (modemHangup dev) (some .noCarrier)
  else dev

def modemPoll (host : Host) (received : Received) (dev : Modem) : Modem :=
  modemReceive received (modemSilence host.now (modemPollLine host dev))

def modemRead (host : Host) (received : Received) (len : ℕ) (dev : Modem) : Modem × List Byte :=
  let dev := modemPoll host received dev
  ({ dev with out := dev.out.drop len }, dev.out.take len)

def modemControl (dtr : Bool) (dev : Modem) : Modem :=
  let drop := dev.dtr && !dtr
  let dev := { dev with dtr := dtr }
  if !drop then dev
  else if dev.dtrMode = 1 then { dev with online := false }
  else if dev.dtrMode = 2 then
    if dev.state ≠ .idle then modemResult (modemHangup dev) (some .noCarrier) else dev
  else if dev.dtrMode = 3 then modemLoadDefaults (modemHangup dev)
  else dev

end PeepeeBox.CharModem
