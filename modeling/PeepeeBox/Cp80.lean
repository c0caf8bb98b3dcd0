import PeepeeBox.HaspRecord

set_option autoImplicit false

/-!
# The receipt printer

`prn_cp80.c`: what the printer makes of the bytes the guest sends it, the paper, the record
transfer with its checksum and the reply to a command.  The trace, the sounds and the attention
counters are left out.
-/
namespace PeepeeBox.Cp80
open HaspRecord (ascii)

def paperMax : ℕ := 4 * 1024 * 1024

def tabs : ℕ := 8

def enq : Byte := 0x05

/-- The sixteenth byte is the one the guest looks at. -/
def reply : List Byte := ascii "DATAPRINT V1.0 C\n"

def outMax : ℕ := 64

structure Buf where
  s : List Byte
  full : Bool

def note : List Byte := ascii "\n[buffer full -- not recording any more]\n"

def put (b : Buf) (s : List Byte) (max : ℕ) : Buf :=
  if b.full then b
  else if max < b.s.length + s.length then { s := b.s ++ note, full := true }
  else { b with s := b.s ++ s }

inductive Esc where
  | none
  /-- The command byte comes next. -/
  | command
  | collecting
deriving DecidableEq

structure Parser where
  paper : Buf
  col : ℕ
  pendingCr : Bool
  esc : Esc
  escIntro : Byte
  escCmd : Byte
  escWant : ℤ
  escZero : Bool
  escImage : ℤ
  escPar : List Byte
  escGot : ℕ

def lit (p : Parser) (s : List Byte) : Parser := { p with paper := put p.paper s paperMax }

/-- The upper half of code page 437. -/
def cp437 : List (BitVec 16) :=
  [0x00C7, 0x00FC, 0x00E9, 0x00E2, 0x00E4, 0x00E0, 0x00E5, 0x00E7,
    0x00EA, 0x00EB, 0x00E8, 0x00EF, 0x00EE, 0x00EC, 0x00C4, 0x00C5,
    0x00C9, 0x00E6, 0x00C6, 0x00F4, 0x00F6, 0x00F2, 0x00FB, 0x00F9,
    0x00FF, 0x00D6, 0x00DC, 0x00A2, 0x00A3, 0x00A5, 0x20A7, 0x0192,
    0x00E1, 0x00ED, 0x00F3, 0x00FA, 0x00F1, 0x00D1, 0x00AA, 0x00BA,
    0x00BF, 0x2310, 0x00AC, 0x00BD, 0x00BC, 0x00A1, 0x00AB, 0x00BB,
    0x2591, 0x2592, 0x2593, 0x2502, 0x2524, 0x2561, 0x2562, 0x2556,
    0x2555, 0x2563, 0x2551, 0x2557, 0x255D, 0x255C, 0x255B, 0x2510,
    0x2514, 0x2534, 0x252C, 0x251C, 0x2500, 0x253C, 0x255E, 0x255F,
    0x255A, 0x2554, 0x2569, 0x2566, 0x2560, 0x2550, 0x256C, 0x2567,
    0x2568, 0x2564, 0x2565, 0x2559, 0x2558, 0x2552, 0x2553, 0x256B,
    0x256A, 0x2518, 0x250C, 0x2588, 0x2584, 0x258C, 0x2590, 0x2580,
    0x03B1, 0x00DF, 0x0393, 0x03C0, 0x03A3, 0x03C3, 0x00B5, 0x03C4,
    0x03A6, 0x0398, 0x03A9, 0x03B4, 0x221E, 0x03C6, 0x03B5, 0x2229,
    0x2261, 0x00B1, 0x2265, 0x2264, 0x2320, 0x2321, 0x00F7, 0x2248,
    0x00B0, 0x2219, 0x00B7, 0x221A, 0x207F, 0x00B2, 0x25A0, 0x00A0]

def utf8 (c : Byte) : List Byte :=
  if c < 0x80 then [c]
  else
    let u := cp437.getD (c - 0x80).toNat 0
    if u < 0x800 then [0xC0 ||| (u >>> 6).setWidth 8, 0x80 ||| (u &&& 0x3F).setWidth 8]
    else
      [0xE0 ||| (u >>> 12).setWidth 8, 0x80 ||| (u >>> 6 &&& 0x3F).setWidth 8, 0x80 ||| (u &&& 0x3F).setWidth 8]

def printable (p : Parser) (c : Byte) : Parser := { lit p (utf8 c) with col := p.col + 1 }

/-- How many parameter bytes follow a command; with `zero` they run until a NUL. -/
inductive Params where
  | unknown
  | zero
  | bytes (n : ℕ)
deriving DecidableEq

def escLen (cmd : Byte) : Params :=
  if cmd ∈ ascii "S" then .bytes 0
  else if cmd ∈ ascii "K" then .bytes 2
  else if cmd ∈ ascii "C" then .bytes 4
  else if cmd ∈ ascii "@FH012456789<=>" then .bytes 0
  else if cmd ∈ ascii "!-3AJNQRUWadlrsw%/" then .bytes 1
  else if cmd ∈ ascii "$f" then .bytes 2
  else if cmd ∈ ascii ":" then .bytes 3
  else if cmd ∈ ascii "DBb" then .zero
  else .unknown

def gsLen (cmd : Byte) : Params :=
  if cmd ∈ ascii "V!Bhwfr" then .bytes 1
  else if cmd ∈ ascii "LWH" then .bytes 2
  else .unknown

def feed (p : Parser) : ℕ → Parser
  | 0 => p
  | n + 1 => feed (lit p [0x0A]) n

def escDone (p : Parser) : Parser :=
  let p :=
    if p.escIntro = 0x1B then
      if p.escCmd = 0x40 then { p with col := 0 }
      else if p.escCmd = 0x64 ∧ 1 ≤ p.escGot then { feed p (p.escPar.getD 0 0).toNat with col := 0 }
      else p
    else if p.escCmd = 0x56 then
      { lit p (ascii "\n----------------------- cut -----------------------\n") with col := 0 }
    else p
  { p with esc := .none }

def escCommand (p : Parser) (c : Byte) : Parser :=
  let p := { p with escCmd := c, escGot := 0 }
  match if p.escIntro = 0x1B then escLen c else gsLen c with
  | .unknown => { p with esc := .none }
  | .zero => { p with escZero := true, esc := .collecting }
  | .bytes 0 => escDone p
  | .bytes (n + 1) => { p with escWant := n + 1, esc := .collecting }

def escCollect (p : Parser) (c : Byte) : Parser :=
  if p.escZero then
    if c = 0 then escDone { p with escZero := false }
    else if p.escGot < 4 then { p with escPar := p.escPar.set p.escGot c, escGot := p.escGot + 1 }
    else p
  else
    let p := if p.escGot < 4 then { p with escPar := p.escPar.set p.escGot c } else p
    let p := { p with escGot := p.escGot + 1, escWant := p.escWant - 1 }
    if 0 < p.escWant then p
    else if p.escImage = -1 then
      let image := (p.escPar.getD 0 0).toNat + (p.escPar.getD 1 0).toNat * 256
      if 0 < image then { p with escWant := image, escGot := 4, escImage := -2 }
      else { p with escImage := 0, esc := .none }
    else if p.escImage = -2 then { p with escImage := 0, esc := .none }
    else escDone p

def tab (p : Parser) : ℕ → Parser
  | 0 => p
  | n + 1 => tab { lit p [0x20] with col := p.col + 1 } n

/-- A byte that is not part of an escape sequence. -/
def plain (p : Parser) (c : Byte) : Parser :=
  if c = 0x1B ∨ c = 0x1D then { p with escIntro := c, esc := .command, escZero := false, escImage := 0 }
  else if c = 0x0A then { lit p [0x0A] with col := 0 }
  else if c = 0x0D then { p with pendingCr := true }
  else if c = 0x0C then
    { lit p (ascii "\n-------------------- form feed --------------------\n") with col := 0 }
  else if c = 0x09 then tab p ((p.col / tabs + 1) * tabs - p.col)
  else if c = 0x08 then
    if p.paper.s ≠ [] ∧ p.paper.s.getLast? ≠ some 0x0A then
      { p with paper := { p.paper with s := p.paper.s.dropLast }, col := p.col - 1 }
    else p
  else if c < 0x20 then p
  else printable p c

def byte (p : Parser) (c : Byte) : Parser :=
  -- a CR that turned out not to be the front half of a CRLF
  let p := if p.pendingCr ∧ c ≠ 0x0A then { lit p [0x0A] with col := 0 } else p
  let p := { p with pendingCr := false }
  match p.esc with
  | .command => escCommand p c
  | .collecting => escCollect p c
  | .none => plain p c

inductive Phase where
  | idle
  | command
  /-- The line feeds after the command. -/
  | lfs
  | body
  | trailer
deriving DecidableEq

structure Transfer where
  active : Bool
  serial : BitVec 64
  completed : BitVec 64
  /-- 1 valid, -1 bad checksum or trailer, 0 none. -/
  result : ℤ
  sum : BitVec 16
  expected : BitVec 16
  phase : Phase
  lfs : ℕ
  trailer : ℕ

def hexDigit (val : Byte) : Option ℕ :=
  if 0x30 ≤ val ∧ val ≤ 0x39 then some (val.toNat - 0x30)
  else if 0x41 ≤ val ∧ val ≤ 0x46 then some (val.toNat - 0x41 + 10)
  else if 0x61 ≤ val ∧ val ≤ 0x66 then some (val.toNat - 0x61 + 10)
  else none

def report (t : Transfer) (val : Byte) : Transfer :=
  let t := { t with sum := t.sum + val.setWidth 16 }
  if val = 0x04 then { t with phase := .trailer, trailer := 0 } else t

def trail (t : Transfer) (val : Byte) : Transfer :=
  let t :=
    if t.trailer < 2 then if val ≠ [0x1B, 0x43].getD t.trailer 0 then { t with result := -1 } else t
    else if t.trailer < 6 then
      match hexDigit val with
      | none => { t with result := -1 }
      | some digit => { t with expected := t.expected <<< 4 ||| BitVec.ofNat 16 digit }
    else if t.trailer = 6 then
      let t := if val ≠ 0x16 ∧ val ≠ 0x0A then { t with result := -1 } else t
      let t := if t.result = 0 then { t with result := if t.expected = t.sum then 1 else -1 } else t
      { t with completed := t.serial, active := false }
    else t
  { t with trailer := t.trailer + 1 }

def transferByte (t : Transfer) (val : Byte) : Transfer :=
  if val = 0x11 then
    { t with
      active := true
      serial := if t.serial + 1 = 0 then 1 else t.serial + 1
      result := 0
      sum := 0
      expected := 0
      phase := .command
      lfs := 0
      trailer := 0 }
  else if t.active then
    match t.phase with
    | .command => if val = 0x03 then { t with phase := .lfs, lfs := 2 } else t
    | .lfs =>
      if val = 0x0A ∧ 0 < t.lfs then
        if t.lfs - 1 = 0 then { t with lfs := 0, phase := .body } else { t with lfs := t.lfs - 1 }
      else report { t with phase := .body } val
    | .body => report t val
    | .trailer => trail t val
    | .idle => t
  else t

/-- The printer on its one port; `outQ` is what the ring from `out_head` to `out_tail` holds. -/
structure Printer where
  port : ℕ
  connected : Bool
  outQ : List Byte
  outPort : ℕ
  transfer : Transfer
  parser : Parser

def outPending (d : Printer) : Bool := d.outQ ≠ []

def say (d : Printer) (port : ℕ) : List Byte → Printer
  | [] => { d with outPort := port }
  | b :: bytes => if d.outQ.length + 1 = outMax then d else say { d with outQ := d.outQ ++ [b] } port bytes

def write (d : Printer) (val : Byte) : Printer :=
  let d := { d with transfer := transferByte d.transfer val }
  let d := { d with parser := byte d.parser val }
  if val = 0x03 ∧ d.connected ∧ outPending d = false then say d d.port reply else d

/-- The printer as it is attached to `port`. -/
def init (port : ℕ) : Printer where
  port := port
  connected := false
  outQ := []
  outPort := 0
  transfer :=
    { active := false, serial := 0, completed := 0, result := 0, sum := 0, expected := 0, phase := .idle, lfs := 0,
      trailer := 0 }
  parser :=
    { paper := { s := [], full := false }, col := 0, pendingCr := false, esc := .none, escIntro := 0, escCmd := 0,
      escWant := 0, escZero := false, escImage := 0, escPar := [0, 0, 0, 0], escGot := 0 }

@[simp] theorem say_transfer (port : ℕ) (bytes : List Byte) (d : Printer) :
    (say d port bytes).transfer = d.transfer := by
  induction bytes generalizing d with
  | nil => rfl
  | cons b bytes ih =>
    unfold say
    split
    · rfl
    · rw [ih]

theorem write_transfer (d : Printer) (val : Byte) : (write d val).transfer = transferByte d.transfer val := by
  unfold write
  dsimp only
  split
  · rw [say_transfer]
  · rfl

end PeepeeBox.Cp80
