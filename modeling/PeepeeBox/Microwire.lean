import Mathlib.Logic.Function.Basic
import PeepeeBox.Bytes

set_option autoImplicit false

/-!
# HDONGLE: the Microwire decoder

`hd_write_data`: bits are clocked in on the rising edge of SK while CS is high; taking
CS low abandons whatever was in flight.
-/
namespace PeepeeBox.Microwire

inductive HdPhase where
  | idle | op | addr | read | write | done
deriving DecidableEq, Repr

structure Hd where
  sk : Bool
  ph : HdPhase
  n : ℕ
  op : ℕ
  addr : Byte
  sr : BitVec 16
  dout : Bool
  wen : Bool
  ready : Bool
  mem : ℕ → BitVec 16

/-- DATA bit 1. -/
def hdCs (val : Byte) : Bool := val &&& 0x02 ≠ 0

/-- DATA bit 5. -/
def hdSk (val : Byte) : Bool := val &&& 0x20 ≠ 0

/-- DATA bit 6. -/
def hdDi (val : Byte) : Bool := val &&& 0x40 ≠ 0

def hdWords : ℕ := 64

def hdExecute (abits : ℕ) (h : Hd) : Hd :=
  match h.op with
  | 2 => { h with sr := h.mem h.addr.toNat, ph := .read }
  | 1 => { h with sr := 0, ph := .write }
  | 3 =>
    { h with
      mem := if h.wen then Function.update h.mem h.addr.toNat 0xFFFF else h.mem
      ready := true
      ph := .done }
  | _ => { h with wen := h.addr >>> (abits - 2) = 3, ph := .done }

def hdClock (abits : ℕ) (h : Hd) (dat : Bool) : Hd :=
  match h.ph with
  | .idle => if dat then { h with ph := .op, n := 0, op := 0, ready := false } else h
  | .op =>
    let h := { h with op := h.op <<< 1 ||| dat.toNat, n := h.n + 1 }
    if h.n = 2 then { h with ph := .addr, n := 0, addr := 0 } else h
  | .addr =>
    let h := { h with addr := h.addr <<< 1 ||| (BitVec.ofBool dat).setWidth 8, n := h.n + 1 }
    if h.n = abits then
      hdExecute abits { h with n := 0, addr := h.addr &&& BitVec.ofNat 8 (hdWords - 1) }
    else h
  | .read =>
    { h with dout := if h.n < 16 then h.sr.getLsbD (15 - h.n) else h.dout, n := h.n + 1 }
  | .write =>
    let h := { h with sr := h.sr <<< 1 ||| (BitVec.ofBool dat).setWidth 16, n := h.n + 1 }
    if h.n = 16 then
      { h with
        mem := if h.wen then Function.update h.mem h.addr.toNat h.sr else h.mem
        ready := true
        ph := .done }
    else h
  | .done => h

def hdWriteData (abits : ℕ) (h : Hd) (val : Byte) : Hd :=
  let h' :=
    if hdCs val = false then { h with ph := .idle, n := 0 }
    else if hdSk val = true ∧ h.sk = false then hdClock abits h (hdDi val)
    else h
  { h' with sk := hdSk val }

end PeepeeBox.Microwire
