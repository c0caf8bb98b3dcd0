import Mathlib.Data.List.Basic
import Mathlib.Logic.Function.Basic
import PeepeeBox.Bytes

set_option autoImplicit false

/-!
# The 1-Wire slave of the two tokens

`dongle_photoplay.c` and `char_funlink.c` each write this state machine out: one UART byte is
one bit slot.  They differ in the size of the queue and in what READ MEMORY answers, which are
the parameters here; the logs are left out.
-/
namespace PeepeeBox.TokenSlave

def crc8Tab (i : Byte) : Byte :=
  (List.range 8).foldl (fun c _ => if c &&& 1 ≠ 0 then c >>> 1 ^^^ 0x8C else c >>> 1) i

def tableCrc8 (d : List Byte) (crc : Byte) : Byte := d.foldl (fun crc x => crc8Tab (crc ^^^ x)) crc

inductive State where
  | cmd
  | ta
  | done
deriving DecidableEq

structure Token where
  rom : Vector Byte 8
  mem : Vector Byte 128
  inbits : Byte
  nbits : ℕ
  out : List Byte
  outLen : ℕ
  outPos : ℕ
  state : State
  ta : ℕ → Byte
  nta : ℕ

def resetState (t : Token) : Token :=
  { t with inbits := 0, nbits := 0, outLen := 0, outPos := 0, state := .cmd, nta := 0 }

def queue (cap : ℕ) (t : Token) (d : List Byte) : Token :=
  let n := min d.length cap
  { t with out := d.take n ++ t.out.drop n, outLen := n, outPos := 0 }

section Slots

variable (cap : ℕ) (page : Vector Byte 128 → Byte → Byte → List Byte)

def onByte (t : Token) (val : Byte) : Token :=
  match t.state with
  | .cmd =>
    if val = 0x33 then { queue cap t t.rom.toList with state := .done }
    else if val = 0xCC then { t with state := .cmd }
    else if val = 0xF0 then { t with nta := 0, state := .ta }
    else { t with state := .done }
  | .ta =>
    let t := { t with ta := Function.update t.ta t.nta val, nta := t.nta + 1 }
    if t.nta = 2 then { queue cap t (page t.mem (t.ta 0) (t.ta 1)) with state := .done } else t
  | .done => t

def onSlot (t : Token) (host : Byte) : Token × Byte :=
  if t.outPos < t.outLen * 8 then
    let bit := t.out.getD (t.outPos >>> 3) 0 >>> (t.outPos &&& 7) &&& 1
    ({ t with outPos := t.outPos + 1 }, if bit ≠ 0 then 0xFF else 0x00)
  else
    let inbits := if host ≠ 0 then t.inbits ||| 1 <<< t.nbits else t.inbits
    let nbits := t.nbits + 1
    (if nbits = 8 then onByte cap page { t with inbits := 0, nbits := 0 } inbits
      else { t with inbits := inbits, nbits := nbits }, if host ≠ 0 then 0xFF else 0x00)

end Slots

def targetAddress (lo hi : Byte) : ℕ := (lo.setWidth 16 ||| hi.setWidth 16 <<< 8).toNat

end PeepeeBox.TokenSlave
