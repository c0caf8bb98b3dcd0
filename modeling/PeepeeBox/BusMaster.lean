import Mathlib.Data.Int.Notation
import Mathlib.Logic.Function.Basic
import PeepeeBox.Bytes

set_option autoImplicit false

/-!
# The bus master of the IDE controller

`hdc_ide_sff8038i.c` with the copies of `dma.c` that it makes, in longs of guest memory.  A call's
buffer is exactly as long as the call says; a copy that would leave it comes to nothing, as does
a loop that does not end.  Interrupts and the vendor's own registers are left out.
-/
namespace PeepeeBox.BusMaster

structure Memory where
  installed : BitVec 32 → Bool
  byte : BitVec 32 → Byte

def memReadbPhys (m : Memory) (addr : BitVec 32) : Byte := if m.installed addr then m.byte addr else 0xFF

def memWritebPhys (m : Memory) (addr : BitVec 32) (val : Byte) : Memory :=
  if m.installed addr then { m with byte := Function.update m.byte addr val } else m

def memReadPhys (m : Memory) (addr : BitVec 32) (size : ℕ) : List Byte :=
  (List.range size).map fun i => memReadbPhys m (addr + BitVec.ofNat 32 i)

def memWritePhys (m : Memory) (addr : BitVec 32) : List Byte → Memory
  | [] => m
  | b :: bs => memWritePhys (memWritebPhys m addr b) (addr + 1) bs

def slice (data : List Byte) (pos n : ℕ) : Option (List Byte) :=
  if pos + n ≤ data.length then some ((data.drop pos).take n) else none

def put (data : List Byte) (pos : ℕ) (bs : List Byte) : Option (List Byte) :=
  if pos + bs.length ≤ data.length then some (data.take pos ++ bs ++ data.drop (pos + bs.length))
  else none

/-- The divisible block of `dma_bm_read`, `k` units of it. -/
def readUnits (m : Memory) (addr : BitVec 32) (data : List Byte) (pos size : ℕ) : ℕ → Option (List Byte)
  | 0 => some data
  | k + 1 =>
    (readUnits m addr data pos size k).bind fun data =>
      put data (pos + size * k) (memReadPhys m (addr + BitVec.ofNat 32 (size * k)) size)

def dmaBmRead (m : Memory) (addr : BitVec 32) (data : List Byte) (pos total size : ℕ) :
    Option (List Byte) :=
  let n := total / size * size
  let n2 := total - n
  (readUnits m addr data pos size (total / size)).bind fun data =>
    if n2 ≠ 0 then put data (pos + n) ((memReadPhys m (addr + BitVec.ofNat 32 n) size).take n2)
    else some data

def writeUnits (m : Memory) (addr : BitVec 32) (data : List Byte) (pos size : ℕ) : ℕ → Option Memory
  | 0 => some m
  | k + 1 =>
    (writeUnits m addr data pos size k).bind fun m =>
      (slice data (pos + size * k) size).map (memWritePhys m (addr + BitVec.ofNat 32 (size * k)))

def dmaBmWrite (m : Memory) (addr : BitVec 32) (data : List Byte) (pos total size : ℕ) : Option Memory :=
  let n := total / size * size
  let n2 := total - n
  (writeUnits m addr data pos size (total / size)).bind fun m =>
    if n2 ≠ 0 then
      let bytes := memReadPhys m (addr + BitVec.ofNat 32 n) size
      (slice data (pos + n) n2).map fun bs =>
        memWritePhys m (addr + BitVec.ofNat 32 n) (bs ++ bytes.drop n2)
    else some m

structure Sff where
  command : Byte
  status : Byte
  dmaMode : Byte
  ptr0 : Byte
  ptr : BitVec 32
  ptrCur : BitVec 32
  addr : BitVec 32
  count : BitVec 32
  eot : Bool

def long (bs : List Byte) : BitVec 32 := bs.getD 3 0 ++ bs.getD 2 0 ++ bs.getD 1 0 ++ bs.getD 0 0

def sffBusMasterNextAddr (m : Memory) (dev : Sff) : Sff :=
  let addr := long (memReadPhys m dev.ptrCur 4)
  let count := long (memReadPhys m (dev.ptrCur + 4) 4)
  { dev with
    eot := count.getLsbD 31
    count := if count &&& 0xFFFE = 0 then 65536 else count &&& 0xFFFE
    addr := addr &&& 0xFFFFFFFE
    ptrCur := dev.ptrCur + 8 }

def sffBusMasterWrite (memSize : BitVec 32) (m : Memory) (dev : Sff) (port : BitVec 16) (val : Byte) : Sff :=
  match (port &&& 7).toNat with
  | 0 =>
    let dev :=
      if val.getLsbD 0 = true ∧ dev.command.getLsbD 0 = false then
        let dev := sffBusMasterNextAddr m { dev with ptrCur := dev.ptr }
        { dev with status := dev.status ||| 1 }
      else dev
    let dev :=
      if val.getLsbD 0 = false ∧ dev.command.getLsbD 0 = true then
        { dev with status := dev.status &&& ~~~1 }
      else dev
    { dev with command := val }
  | 1 => { dev with dmaMode := val &&& 0x03 }
  | 2 =>
    let dev := { dev with status := dev.status &&& 0x07 ||| val &&& 0x60 }
    let dev := if val &&& 0x04 ≠ 0 then { dev with status := dev.status &&& ~~~0x04 } else dev
    if val &&& 0x02 ≠ 0 then { dev with status := dev.status &&& ~~~0x02 } else dev
  | 4 =>
    { dev with
      ptr := (dev.ptr &&& 0xFFFFFF00 ||| (val &&& 0xFC).setWidth 32) % (memSize * 1024), ptr0 := val }
  | 5 => { dev with ptr := (dev.ptr &&& 0xFFFF00FC ||| val.setWidth 32 <<< 8) % (memSize * 1024) }
  | 6 => { dev with ptr := (dev.ptr &&& 0xFF00FFFC ||| val.setWidth 32 <<< 16) % (memSize * 1024) }
  | 7 => { dev with ptr := (dev.ptr &&& 0x00FFFFFC ||| val.setWidth 32 <<< 24) % (memSize * 1024) }
  | _ => dev

/-- What a call of `sff_bus_master_dma` leaves: memory, device, its buffer and its answer. -/
structure Done where
  mem : Memory
  dev : Sff
  data : List Byte
  ret : ℕ

/-- To the buffer when `out`, to memory otherwise. -/
def copy (out : Bool) (m : Memory) (addr : BitVec 32) (data : List Byte) (pos total : ℕ) :
    Option (Memory × List Byte) :=
  if out then (dmaBmRead m addr data pos total 4).map (m, ·)
  else (dmaBmWrite m addr data pos total 4).map (·, data)

def dmaLoop (out : Bool) (totalLength : ℤ) : ℕ → Memory → Sff → List Byte → ℕ → ℕ → Option Done
  | 0, _, _, _, _, _ => none
  | fuel + 1, m, dev, data, bufferPos, transferLength =>
    if dev.count.toNat ≤ transferLength then
      (copy out m dev.addr data bufferPos dev.count.toNat).bind fun (m, data) =>
        let left := transferLength - dev.count.toNat
        if left = 0 ∧ dev.eot = false then
          if totalLength ≠ 0 then
            some { mem := m, dev := sffBusMasterNextAddr m dev, data := data, ret := 1 }
          else some { mem := m, dev := { dev with status := dev.status &&& ~~~2 }, data := data, ret := 1 }
        else if left ≠ 0 ∧ dev.eot = true then
          some { mem := m, dev := { dev with status := dev.status ||| 2 }, data := data, ret := 0 }
        else if dev.eot = true then
          some { mem := m, dev := { dev with status := dev.status &&& ~~~3 }, data := data, ret := 3 }
        else
          dmaLoop out totalLength fuel m (sffBusMasterNextAddr m dev) data
            (bufferPos + dev.count.toNat) left
    else
      (copy out m dev.addr data bufferPos transferLength).map fun (m, data) =>
        { mem := m
          dev := { dev with
            addr := dev.addr + BitVec.ofNat 32 transferLength
            count := dev.count - BitVec.ofNat 32 transferLength
            status := dev.status &&& ~~~2 }
          data := data
          ret := 1 }

/-- Every round of the loop takes a byte or more, so `transferLength + 1` rounds are enough. -/
def sffBusMasterDma (m : Memory) (dev : Sff) (data : List Byte) (transferLength : ℕ) (totalLength : ℤ)
    (out : Bool) : Option Done :=
  if dev.status.getLsbD 0 = false then some { mem := m, dev := dev, data := data, ret := 2 }
  else dmaLoop out totalLength (transferLength + 1) m dev data 0 transferLength

structure Call where
  out : Bool
  data : List Byte
  totalLength : ℤ

structure Answer where
  data : List Byte
  ret : ℕ

structure Result where
  mem : Memory
  dev : Sff
  answers : List Answer

def dmaCalls (m : Memory) (dev : Sff) : List Call → Option Result
  | [] => some { mem := m, dev := dev, answers := [] }
  | c :: cs =>
    (sffBusMasterDma m dev c.data c.data.length c.totalLength c.out).bind fun d =>
      (dmaCalls d.mem d.dev cs).map fun r => { r with answers := { data := d.data, ret := d.ret } :: r.answers }

end PeepeeBox.BusMaster
