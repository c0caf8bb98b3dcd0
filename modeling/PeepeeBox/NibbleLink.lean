import Mathlib.Data.List.Basic
import Mathlib.Logic.Function.Basic
import PeepeeBox.Bytes

set_option autoImplicit false

/-!
# The 1999 dongle's nibble link

Two nibbles a byte, low first: to the dongle on STROBE edges, back on STATUS bits 3 to 6
with BUSY as the ready flag and DATA bit 4 as the acknowledge.
-/
namespace PeepeeBox.NibbleLink

def ppOutMax : ℕ := 512

def ppInMax : ℕ := 256

structure Link where
  inNib : Byte
  inHave : Bool
  lastData : Byte
  lastCtrl : Byte
  cmd : ℕ → Byte
  cmdLen : ℕ
  haveStrobeHook : Bool
  out : ℕ → Byte
  outLen : ℕ
  outPos : ℕ
  busy : Bool
  block : ℕ → Byte

def ppSendLen (type : Byte) : ℕ := [0, 10, 50, 2].getD type.toNat 0

def ppRecvLen (type : Byte) : ℕ := [0, 4, 0, 48].getD type.toNat 0

/-- The game's keystream: a clamped `+0x75` walk. -/
def ppNextKey (k : Byte) : Byte :=
  let k := k + 0x75
  let k := if k < 0x28 then 0xCB else k
  if 0xC8 < k then 0x13 else k

/-- The keystream type 1 answers under: a clamped `+0x25` walk. -/
def ppNextKey1 (k : Byte) : Byte :=
  let k := k + 0x25
  let k := if k < 0x1E then 0x7B else k
  if 0xAE < k then 0x17 else k

/-- Type 1: a keyed hash of the eight-byte name, all arithmetic mod 256. -/
def ppType1 (name : ℕ → Byte) : List Byte :=
  let v0 := 4 * name 0 + 0x11 + 3 * name 1
  let v1 := 7 * name 2 + 0xA7 + 2 * name 3
  let v2 := 4 * name 4 + 0x75 + 7 * name 5
  let v3 := name 6 + 0x17 + 4 * name 7
  -- one extra round, selected by the data itself
  match (v0 + v1 &&& 3).toNat with
  | 0 => [v0, v1, v2, 6 * v3 + v1 + 0x75]
  | 1 => [v0, v1, v0 + 2 * v3 + 0x0C, v3]
  | 2 => [v0, 4 * v0 + 0x37 + 4 * v1, v2, v3]
  | _ => [5 * v2 + 0x64, v1, v2, v3]

def ppQueue (l : Link) (b : Byte) : Link :=
  if ppOutMax < l.outLen + 2 then l
  else
    { l with
      out := Function.update (Function.update l.out l.outLen (b &&& 0x0F)) (l.outLen + 1)
        (b >>> 4 &&& 0x0F)
      outLen := l.outLen + 2 }

/-- Queue `n` bytes, each under the next key of a walk. -/
def ppQueueKeyed (next : Byte → Byte) (plain : ℕ → Byte) (n : ℕ) (l : Link) (k : Byte) : Link :=
  ((List.range n).foldl (fun p i => (ppQueue p.1 (plain i ^^^ p.2), next p.2)) (l, k)).1

/-- Programming: the record arrives under the keystream type 3 answers with. -/
def ppProgram (l : Link) : Link :=
  { l with
    block := ((List.range 48).foldl
      (fun p i => (Function.update p.1 i (l.cmd (2 + i) ^^^ p.2), ppNextKey p.2))
      (l.block, l.cmd 1)).1 }

def ppRespond (l : Link) : Link :=
  let l := { l with outLen := 0, outPos := 0 }
  let l :=
    if l.cmd 0 = 3 then ppQueueKeyed ppNextKey l.block (ppRecvLen 3) l (l.cmd 1)
    else if l.cmd 0 = 1 then
      ppQueueKeyed ppNextKey1 (fun i => (ppType1 fun j => l.cmd (1 + j)).getD i 0) (ppRecvLen 1) l
        (l.cmd 9)
    else if l.cmd 0 = 2 then ppProgram l
    else l
  { l with busy := 0 < l.outLen }

def ppStore (l : Link) (b : Byte) : Link :=
  if l.cmdLen < ppInMax then
    { l with cmd := Function.update l.cmd l.cmdLen b, cmdLen := l.cmdLen + 1 }
  else l

def ppHostByte (l : Link) (b : Byte) : Link :=
  if l.cmdLen = 0 ∧ 3 < b then l
  else
    let l := ppStore l b
    if ppSendLen (l.cmd 0) ≤ l.cmdLen then { ppRespond l with cmdLen := 0 } else l

def ppTakeNibble (l : Link) (nib : Byte) : Link :=
  if l.inHave = false then { l with inNib := nib, inHave := true }
  else { ppHostByte l (l.inNib ||| nib <<< 4) with inHave := false }

def ppLatchNibble (lpt : Option Byte) (l : Link) : Link :=
  ppTakeNibble l (lpt.getD l.lastData &&& 0x0F)

/-- The read handshake: DATA bit 4 is the host's acknowledge. -/
def ppAckEdge (l : Link) (cur : Byte) : Link :=
  let was : Bool := l.lastData &&& 0x10 ≠ 0
  let now : Bool := cur &&& 0x10 ≠ 0
  let l :=
    if !was && now then
      { l with outPos := if l.outPos < l.outLen then l.outPos + 1 else l.outPos, busy := false }
    else if was && !now then { l with busy := l.outPos < l.outLen }
    else l
  { l with lastData := cur }

/-- Any movement of CTRL bits 2 and 3 resets the link; otherwise a rising STROBE latches,
    unless the port's strobe hook is already delivering the edges. -/
def ppWriteCtrl (lpt : Option Byte) (l : Link) (val : Byte) : Link :=
  if (val ^^^ l.lastCtrl) &&& 0x0C ≠ 0 then
    { l with
      inHave := false, cmdLen := 0, outLen := 0, outPos := 0, busy := false, lastCtrl := val }
  else
    let l :=
      if l.haveStrobeHook = false ∧ l.lastCtrl &&& 0x01 = 0 ∧ val &&& 0x01 ≠ 0 then
        ppLatchNibble lpt l
      else l
    { l with lastCtrl := val }

def ppStrobe (lpt : Option Byte) (l : Link) (old val : Byte) : Link :=
  let l := { l with haveStrobeHook := true }
  if old &&& 0x01 = 0 ∧ val &&& 0x01 ≠ 0 then ppLatchNibble lpt l else l

/-- What STATUS shows of the queue: BUSY, and the next nibble on bits 3 to 6. -/
def ppStatus (l : Link) : Byte :=
  if l.busy then
    (if l.outPos < l.outLen then (l.out l.outPos &&& 0x0F) <<< 3 else 0) ||| 0x80
  else 0

end PeepeeBox.NibbleLink
