import Mathlib.Data.List.Basic
import Mathlib.Logic.Function.Iterate
import PeepeeBox.Bytes
import PeepeeBox.TraceMachine

set_option autoImplicit false

/-!
# One bit a slot

The Dallas 1-Wire line as a UART sees it: bytes travel least significant bit first, a slot
carries one bit, and a part that has something queued drives the line itself.  The check
byte of the family and the memory parts' transactions are stated on bits.
-/
namespace PeepeeBox.OneWire
open TraceMachine

def lsbBits (d : Byte) : List Bool := (List.range 8).map d.getLsbD

def wireBits (ds : List Byte) : List Bool := ds.flatMap lsbBits

/-- What the UART reads for a bit on the line. -/
def level (b : Bool) : Byte := if b then 0xFF else 0x00

def slots (ds : List Byte) : List Byte := (wireBits ds).map level

@[simp] theorem lsbBits_length (d : Byte) : (lsbBits d).length = 8 := rfl

@[simp] theorem wireBits_nil : wireBits [] = [] := rfl

@[simp] theorem wireBits_cons (d : Byte) (ds : List Byte) :
    wireBits (d :: ds) = lsbBits d ++ wireBits ds := rfl

theorem wireBits_append (ds es : List Byte) : wireBits (ds ++ es) = wireBits ds ++ wireBits es :=
  List.flatMap_append

@[simp] theorem wireBits_length (ds : List Byte) : (wireBits ds).length = 8 * ds.length := by
  induction ds with
  | nil => rfl
  | cons d ds ih =>
    rw [wireBits_cons, List.length_append, lsbBits_length, ih, List.length_cons]
    omega

@[simp] theorem slots_length (ds : List Byte) : (slots ds).length = 8 * ds.length := by
  unfold slots
  rw [List.length_map, wireBits_length]

theorem slots_append (ds es : List Byte) : slots (ds ++ es) = slots ds ++ slots es := by
  unfold slots
  rw [wireBits_append, List.map_append]

theorem wireBits_getElem? (ds : List Byte) (i : ℕ) (hi : i < 8 * ds.length) :
    (wireBits ds)[i]? = some ((ds.getD (i / 8) 0).getLsbD (i % 8)) := by
  induction ds generalizing i with
  | nil => exact absurd hi (by simp)
  | cons d ds ih =>
    rw [wireBits_cons]
    by_cases hfirst : i < 8
    · rw [List.getElem?_append_left (by simpa using hfirst), Nat.div_eq_of_lt hfirst,
        Nat.mod_eq_of_lt hfirst]
      unfold lsbBits
      rw [List.getElem?_map, List.getElem?_range hfirst]
      rfl
    · have hrest : i - 8 < 8 * ds.length := by
        rw [List.length_cons] at hi
        omega
      have hdiv : i / 8 = (i - 8) / 8 + 1 := by omega
      have hmod : i % 8 = (i - 8) % 8 := by omega
      rw [List.getElem?_append_right (by simpa using Nat.le_of_not_lt hfirst), lsbBits_length,
        ih (i - 8) hrest, hdiv, hmod, List.getD_cons_succ]

/-- One bit into the register of x⁸ + x⁵ + x⁴ + 1, which shifts towards its low end. -/
def crcBit (c : Byte) (b : Bool) : Byte :=
  if c.getLsbD 0 ^^ b then c >>> 1 ^^^ 0x8C else c >>> 1

def crc8 (ds : List Byte) : Byte := (wireBits ds).foldl crcBit 0

def crcShift (c : Byte) : Byte := crcBit c false

theorem crcBit_run (c d : Byte) (n : ℕ) :
    ((List.range n).map d.getLsbD).foldl crcBit c = crcShift^[n] (c ^^^ d) ^^^ d >>> n := by
  induction n with
  | zero =>
    change c = c ^^^ d ^^^ d >>> 0
    rw [BitVec.ushiftRight_zero, BitVec.xor_assoc, BitVec.xor_self, BitVec.xor_zero]
  | succ n ih =>
    rw [List.range_succ, List.map_append, List.foldl_append, ih, Function.iterate_succ_apply']
    generalize crcShift^[n] (c ^^^ d) = s
    change crcBit (s ^^^ d >>> n) (d.getLsbD n) = _
    have hlow : ((s ^^^ d >>> n).getLsbD 0 ^^ d.getLsbD n) = s.getLsbD 0 := by
      rw [BitVec.getLsbD_xor, BitVec.getLsbD_ushiftRight, Nat.add_zero, Bool.xor_assoc,
        Bool.xor_self, Bool.xor_false]
    have hhigh : (s ^^^ d >>> n) >>> 1 = s >>> 1 ^^^ d >>> (n + 1) := by
      rw [BitVec.ushiftRight_xor_distrib, BitVec.shiftRight_add]
    unfold crcShift crcBit
    rw [hlow, hhigh, Bool.xor_false]
    split
    · rw [BitVec.xor_assoc, BitVec.xor_comm (d >>> (n + 1)), ← BitVec.xor_assoc]
    · rfl

theorem crc_byte (c d : Byte) : (lsbBits d).foldl crcBit c = crcShift^[8] (c ^^^ d) := by
  have hgone : d >>> 8 = 0 := BitVec.ushiftRight_eq_zero (Nat.le_refl 8)
  unfold lsbBits
  rw [crcBit_run, hgone]
  exact BitVec.xor_zero

theorem crc8_snoc (ds : List Byte) (d : Byte) : crc8 (ds ++ [d]) = crcShift^[8] (crc8 ds ^^^ d) := by
  unfold crc8
  rw [wireBits_append, List.foldl_append, wireBits_cons, wireBits_nil, List.append_nil, crc_byte]

theorem crc8_closed (ds : List Byte) : crc8 (ds ++ [crc8 ds]) = 0 := by
  rw [crc8_snoc, BitVec.xor_self]
  rfl

def deposit (v : Byte) (n : ℕ) (b : Bool) : Byte := if b then v ||| 1 <<< n else v

/-- The byte whose bits have arrived, the first in bit 0. -/
def assemble (bits : List Bool) : Byte := bits.zipIdx.foldl (fun v p => deposit v p.2 p.1) 0

theorem assemble_snoc (bits : List Bool) (b : Bool) :
    assemble (bits ++ [b]) = deposit (assemble bits) bits.length b := by
  unfold assemble
  rw [List.zipIdx_append, List.foldl_append, Nat.zero_add]
  rfl

theorem assemble_lsbBits : ∀ d : Byte, assemble (lsbBits d) = d := by decide +kernel

/-- What a memory part answers from: its ROM, and its reply to READ MEMORY at an address. -/
structure Part where
  rom : List Byte
  page : Byte → Byte → List Byte

inductive Phase where
  | command
  | address (low : Option Byte)
  | done

structure Slave where
  queue : List Bool
  held : List Bool
  phase : Phase

def Slave.reset : Slave := { queue := [], held := [], phase := .command }

namespace Part

def byte (p : Part) (s : Slave) (v : Byte) : Slave :=
  match s.phase with
  | .command =>
    if v = 0x33 then { s with queue := wireBits p.rom, phase := .done }
    else if v = 0xCC then s
    else if v = 0xF0 then { s with phase := .address none }
    else { s with phase := .done }
  | .address none => { s with phase := .address (some v) }
  | .address (some low) => { s with queue := wireBits (p.page low v), phase := .done }
  | .done => s

def slot (p : Part) (s : Slave) (b : Bool) : Slave × Bool :=
  match s.queue with
  | q :: rest => ({ s with queue := rest }, q)
  | [] =>
    let held := s.held ++ [b]
    (if held.length = 8 then p.byte { s with held := [] } (assemble held)
      else { s with held := held }, b)

def slave (p : Part) : Machine Slave Byte Byte where
  step s host := ((p.slot s (decide (host ≠ 0))).1, some (level (p.slot s (decide (host ≠ 0))).2))

end Part

theorem level_host (b : Bool) : decide (level b ≠ 0) = b := by
  cases b <;> rfl

section Transactions

variable (p : Part)

theorem slave_step (s : Slave) (b : Bool) :
    p.slave.next s (level b) = (p.slot s b).1 ∧
      p.slave.answer s (level b) = some (level (p.slot s b).2) := by
  unfold Machine.next Machine.answer Part.slave
  dsimp only
  rw [level_host]
  exact ⟨rfl, rfl⟩

theorem slave_held (phase : Phase) (held bits : List Bool) (h : held.length + bits.length < 8) :
    p.slave.run ⟨[], held, phase⟩ (bits.map level) = ⟨[], held ++ bits, phase⟩ ∧
      p.slave.trace ⟨[], held, phase⟩ (bits.map level) = bits.map level := by
  induction bits generalizing held with
  | nil =>
    rw [List.append_nil]
    exact ⟨rfl, rfl⟩
  | cons b bits ih =>
    rw [List.length_cons] at h
    have hshort : (held ++ [b]).length ≠ 8 := by
      rw [List.length_append, List.length_singleton]
      omega
    have hslot : p.slot ⟨[], held, phase⟩ b = (⟨[], held ++ [b], phase⟩, b) := by
      unfold Part.slot
      dsimp only
      rw [if_neg hshort]
    have hrest := ih (held ++ [b]) (by
      rw [List.length_append, List.length_singleton]
      omega)
    rw [List.map_cons, Machine.run_cons, Machine.trace_cons, (slave_step p _ b).1,
      (slave_step p _ b).2, hslot]
    dsimp only
    rw [hrest.1, hrest.2, List.append_assoc]
    exact ⟨rfl, rfl⟩

theorem slave_write (phase : Phase) (v : Byte) :
    p.slave.run ⟨[], [], phase⟩ (slots [v]) = p.byte ⟨[], [], phase⟩ v ∧
      p.slave.trace ⟨[], [], phase⟩ (slots [v]) = slots [v] := by
  have hbits : wireBits [v] = (List.range 7).map v.getLsbD ++ [v.getLsbD 7] := rfl
  obtain ⟨hrun, htrace⟩ := slave_held p phase [] ((List.range 7).map v.getLsbD)
    (by rw [List.length_map, List.length_range]; decide)
  have hslot : p.slot ⟨[], (List.range 7).map v.getLsbD, phase⟩ (v.getLsbD 7) =
      (p.byte ⟨[], [], phase⟩ v, v.getLsbD 7) := by
    unfold Part.slot
    dsimp only
    rw [if_pos (by rfl), ← hbits, wireBits_cons, wireBits_nil, List.append_nil, assemble_lsbBits]
  unfold slots
  rw [hbits, List.map_append, Machine.run_append, Machine.trace_append, hrun, htrace,
    List.nil_append, List.map_singleton, Machine.run_cons, Machine.trace_cons,
    (slave_step p _ _).1, (slave_step p _ _).2, hslot]
  exact ⟨rfl, rfl⟩

theorem slave_read (queue held : List Bool) (bits : List Bool) :
    p.slave.trace ⟨queue, held, .done⟩ (bits.map level) =
      (queue.take bits.length ++ bits.drop queue.length).map level := by
  induction bits generalizing queue held with
  | nil => rw [List.length_nil, List.take_zero, List.drop_nil]; rfl
  | cons b bits ih =>
    rw [List.map_cons, Machine.trace_cons, (slave_step p _ b).1, (slave_step p _ b).2]
    cases queue with
    | cons q queue =>
      have hslot : p.slot ⟨q :: queue, held, .done⟩ b = (⟨queue, held, .done⟩, q) := rfl
      rw [hslot, ih]
      rfl
    | nil =>
      have hslot : ∃ held', p.slot ⟨[], held, .done⟩ b = (⟨[], held', .done⟩, b) := by
        unfold Part.slot
        dsimp only
        split
        · exact ⟨[], rfl⟩
        · exact ⟨held ++ [b], rfl⟩
      obtain ⟨held', hslot⟩ := hslot
      rw [hslot, ih, List.take_nil, List.take_nil]
      rfl

/-- What `n` read slots show of a queued row: its bits, then an idle line. -/
def readBack (ds : List Byte) (n : ℕ) : List Byte :=
  (slots ds).take n ++ List.replicate (n - 8 * ds.length) 0xFF

theorem slave_readBack (ds : List Byte) (held : List Bool) (n : ℕ) :
    p.slave.trace ⟨wireBits ds, held, .done⟩ (List.replicate n 0xFF) = readBack ds n := by
  have hones : List.replicate n (0xFF : Byte) = (List.replicate n true).map level := by
    rw [List.map_replicate]
    rfl
  rw [hones, slave_read, List.length_replicate, wireBits_length, List.map_append, List.map_take,
    List.drop_replicate, List.map_replicate]
  rfl

theorem readMemory (low high : Byte) (n : ℕ) :
    p.slave.trace Slave.reset (slots [0xCC, 0xF0, low, high] ++ List.replicate n 0xFF) =
      slots [0xCC, 0xF0, low, high] ++ readBack (p.page low high) n := by
  have hsplit : slots [0xCC, 0xF0, low, high] =
      slots [0xCC] ++ (slots [0xF0] ++ (slots [low] ++ slots [high])) := by
    rw [← slots_append, ← slots_append, ← slots_append]
    rfl
  have hskip := slave_write p .command 0xCC
  have hread := slave_write p .command 0xF0
  have hlow := slave_write p (.address none) low
  have hhigh := slave_write p (.address (some low)) high
  rw [hsplit]
  simp only [List.append_assoc]
  unfold Slave.reset
  rw [Machine.trace_append, hskip.1, hskip.2]
  change _ ++ p.slave.trace ⟨[], [], .command⟩ _ = _
  rw [Machine.trace_append, hread.1, hread.2]
  change _ ++ (_ ++ p.slave.trace ⟨[], [], .address none⟩ _) = _
  rw [Machine.trace_append, hlow.1, hlow.2]
  change _ ++ (_ ++ (_ ++ p.slave.trace ⟨[], [], .address (some low)⟩ _)) = _
  rw [Machine.trace_append, hhigh.1, hhigh.2]
  change _ ++ (_ ++ (_ ++ (_ ++ p.slave.trace ⟨wireBits (p.page low high), [], .done⟩ _))) = _
  rw [slave_readBack]

theorem readRom (n : ℕ) :
    p.slave.trace Slave.reset (slots [0x33] ++ List.replicate n 0xFF) =
      slots [0x33] ++ readBack p.rom n := by
  have hread := slave_write p .command 0x33
  unfold Slave.reset
  rw [Machine.trace_append, hread.1, hread.2]
  change _ ++ p.slave.trace ⟨wireBits p.rom, [], .done⟩ _ = _
  rw [slave_readBack]

end Transactions

end PeepeeBox.OneWire
