import Mathlib.Data.Int.Notation
import Mathlib.Data.List.Basic
import Mathlib.Logic.Function.Basic
import PeepeeBox.Bytes

set_option autoImplicit false

/-!
# The burst collector of the session layer

`hs_burst_class` and `hb_data`: command bytes are clocked on DATA bit 0, collected
after a 46, and judged once fifteen of them are in.
-/
namespace PeepeeBox.BurstCollector

/-- What a burst leaves the part doing. -/
inductive BurstClass where
  | other | sweep | ident | foreign
deriving DecidableEq, Repr

def burstRows : List (List Byte) := [
  [0x1E, 0x2E, 0x48, 0x06, 0x18, 0x28, 0x0C, 0x00,
   0x6A, 0x0C, 0x3A, 0x5A, 0x22, 0x42, 0x4E, 0x12],
  [0x58, 0x68, 0x70, 0x38, 0x58, 0x68, 0x70, 0x7C,
   0x7C, 0x38, 0x38, 0x58, 0x38, 0x58, 0x68, 0x38],
  [0x4A, 0x7A, 0x1A, 0x52, 0x4A, 0x7A, 0x5E, 0x52,
   0x1A, 0x5E, 0x7A, 0x1A, 0x7A, 0x1A, 0x1A, 0x4A],
  [0x7A, 0x3E, 0x1A, 0x7A, 0x1A, 0x7A, 0x7A, 0x2A,
   0x2A, 0x1A, 0x7A, 0x32, 0x2A, 0x1A, 0x3E, 0x32],
  [0x34, 0x04, 0x1C, 0x54, 0x34, 0x04, 0x1C, 0x10,
   0x10, 0x54, 0x54, 0x34, 0x54, 0x34, 0x04, 0x54],
  [0x4C, 0x08, 0x08, 0x68, 0x08, 0x68, 0x58, 0x08,
   0x68, 0x58, 0x40, 0x08, 0x68, 0x58, 0x40, 0x4C],
  [0x68, 0x2C, 0x08, 0x68, 0x08, 0x68, 0x68, 0x38,
   0x38, 0x08, 0x68, 0x20, 0x38, 0x08, 0x2C, 0x20],
  [0x04, 0x40, 0x40, 0x20, 0x40, 0x20, 0x10, 0x40,
   0x20, 0x10, 0x08, 0x40, 0x20, 0x10, 0x08, 0x04],
  [0x52, 0x32, 0x02, 0x1A, 0x52, 0x32, 0x02, 0x1A,
   0x16, 0x16, 0x52, 0x52, 0x32, 0x52, 0x32, 0x02],
  [0x70, 0x10, 0x58, 0x40, 0x70, 0x10, 0x58, 0x40,
   0x54, 0x54, 0x10, 0x10, 0x10, 0x70, 0x40, 0x70],
  [0x70, 0x10, 0x20, 0x38, 0x70, 0x10, 0x20, 0x38,
   0x34, 0x34, 0x70, 0x70, 0x10, 0x70, 0x10, 0x20],
  [0x08, 0x08, 0x4C, 0x4C, 0x2C, 0x4C, 0x2C, 0x1C,
   0x4C, 0x2C, 0x1C, 0x04, 0x4C, 0x2C, 0x1C, 0x04],
  [0x3E, 0x5E, 0x16, 0x0E, 0x3E, 0x5E, 0x16, 0x0E,
   0x1A, 0x1A, 0x5E, 0x5E, 0x5E, 0x3E, 0x0E, 0x3E],
  [0x1C, 0x1C, 0x1C, 0x1C, 0x1C, 0x1C, 0x1C, 0x1C,
   0x1C, 0x1C, 0x1C, 0x1C, 0x1C, 0x1C, 0x1C, 0x1C],
  [0x38, 0x38, 0x7C, 0x7C, 0x1C, 0x7C, 0x1C, 0x2C,
   0x7C, 0x1C, 0x2C, 0x34, 0x7C, 0x1C, 0x2C, 0x34]]

def hsBurstTab (i v : ℕ) : Byte := (burstRows.getD i []).getD v 0

def hsBurstNib (i : ℕ) : ℕ := [0, 1, 2, 3, 4, 5, 6, 7, 7, 6, 5, 4, 3, 0, 1].getD i 0

def hsRampBurst (i : ℕ) : Byte :=
  [0x0A, 0x78, 0x5A, 0x3A, 0x14, 0x48, 0x28, 0x00,
    0x12, 0x50, 0x30, 0x0C, 0x1E, 0x5C, 0x3C].getD i 0

/-- Index of the byte the identity variant sets to 50. -/
def hsBurstMode : ℕ := 9

/-- Nibble `n` of a password word, `(pw >> (4 * n)) & 0x0F`. -/
def passNibble (pw : BitVec 32) (n : ℕ) : ℕ := ((pw >>> (4 * n)) &&& 0x0F#32).toNat

/-- The values whose table entry at byte `i` is `x`, as a mask. -/
def burstFits (i : ℕ) (x : Byte) : BitVec 16 :=
  (List.range 16).foldl (fun fits v => if hsBurstTab i v = x then fits ||| 1#16 <<< v else fits) 0

structure BurstScan where
  own : Bool
  ident : Bool
  cand : ℕ → BitVec 16

def scanStart : BurstScan := { own := true, ident := false, cand := fun _ => 0xFFFF }

def scanByte (b : ℕ → Byte) (pw : BitVec 32) (s : BurstScan) (i : ℕ) : BurstScan :=
  let n := hsBurstNib i
  let want := hsBurstTab i (passNibble pw n)
  if i = hsBurstMode ∧ b i = 0x50 ∧ want ≠ 0x50 then { s with ident := true }
  else
    { s with
      own := s.own && b i == want
      cand := Function.update s.cand n (s.cand n &&& burstFits i (b i)) }

def scanBurst (b : ℕ → Byte) (pw : BitVec 32) (n : ℕ) : BurstScan :=
  (List.range n).foldl (scanByte b pw) scanStart

def hsBurstClass (b : ℕ → Byte) (pw : BitVec 32) : BurstClass :=
  if (List.range 15).all fun i => b i == hsRampBurst i then .ident
  else
    let s := scanBurst b pw 15
    if s.own then (if s.ident then .ident else .sweep)
    else if (List.range 8).any fun n => s.cand n == 0 then .other
    else .foreign

structure Hb where
  prev : Byte
  n : ℤ
  win : ℕ → Byte
  mode : BurstClass

/-- A write raising DATA bit 0 clocks its payload, bits 7 and 0 dropped. -/
def hbClocks (h : Hb) (val : Byte) : Bool := val.getLsbD 0 && !h.prev.getLsbD 0

def hbPayload (val : Byte) : Byte := val &&& 0x7E

def hbCollect (pw : BitVec 32) (h : Hb) (b : Byte) : Hb :=
  let win := Function.update h.win h.n.toNat b
  let n := h.n + 1
  if n = 15 then
    let c := hsBurstClass win pw
    { h with win := win, n := -1, mode := if c = .other then h.mode else c }
  else { h with win := win, n := n }

def hbData (pw : BitVec 32) (h : Hb) (val : Byte) : Hb :=
  let h' :=
    if hbClocks h val then
      let b := hbPayload val
      if b = 0x46 then { h with n := 0 }
      else if 0 ≤ h.n then hbCollect pw h b
      else h
    else h
  { h' with prev := val }

end PeepeeBox.BurstCollector
