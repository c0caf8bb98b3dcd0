import PeepeeBox.SerialBits

set_option autoImplicit false

/-!
# A three-wire serial EEPROM

The instruction set of the 93Cxx parts at any word and address width: what an instruction
looks like on the data line, and what it does to the memory and its write latch.
-/
namespace PeepeeBox.SerialEeprom
open SerialBits

variable {k w : ℕ}

/-- Enabling and disabling take the top two address bits; the other `k` are not looked at. -/
inductive Instr (k w : ℕ) where
  | read (a : BitVec (k + 2))
  | write (a : BitVec (k + 2)) (d : BitVec w)
  | erase (a : BitVec (k + 2))
  | ewen (x : BitVec k)
  | ewds (x : BitVec k)

namespace Instr

def opcode : Instr k w → BitVec 2
  | read _ => 2
  | write _ _ => 1
  | erase _ => 3
  | ewen _ => 0
  | ewds _ => 0

def address : Instr k w → BitVec (k + 2)
  | read a => a
  | write a _ => a
  | erase a => a
  | ewen x => x.setWidth (k + 2) ||| 3 <<< k
  | ewds x => x.setWidth (k + 2)

def data : Instr k w → List Bool
  | write _ d => msbBits d
  | _ => []

def header (i : Instr k w) : List Bool := msbBits i.opcode ++ msbBits i.address

/-- The whole instruction on the line, its start bit first. -/
def bits (i : Instr k w) : List Bool := true :: (i.header ++ i.data)

theorem header_length (i : Instr k w) : i.header.length = k + 4 := by
  rw [header, List.length_append, msbBits_length, msbBits_length]
  omega

end Instr

structure Eeprom (k w : ℕ) where
  mem : BitVec (k + 2) → BitVec w
  wen : Bool

namespace Eeprom

def store (e : Eeprom k w) (a : BitVec (k + 2)) (d : BitVec w) : Eeprom k w :=
  { e with mem := if e.wen then Function.update e.mem a d else e.mem }

def exec (e : Eeprom k w) : Instr k w → Eeprom k w
  | .read _ => e
  | .write a d => e.store a d
  | .erase a => e.store a (BitVec.allOnes w)
  | .ewen _ => { e with wen := true }
  | .ewds _ => { e with wen := false }

end Eeprom

end PeepeeBox.SerialEeprom
