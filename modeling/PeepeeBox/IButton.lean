import PeepeeBox.TokenSlave

set_option autoImplicit false

/-!
# The second token: an iButton behind a UART

`dongle_photoplay.c`: the 16550-class UART at 0x268 and the DS1982 on its line.
-/
namespace PeepeeBox.IButton
open TokenSlave

def ibBase : BitVec 16 := 0x268

def ibMemsize : ℕ := 128

structure IB where
  lcr : Byte
  mcr : Byte
  ier : Byte
  scr : Byte
  dll : Byte
  dlm : Byte
  rbr : Byte
  rxFull : Bool
  slave : Token

def ibCrc8 (d : List Byte) (crc : Byte) : Byte := tableCrc8 d crc

def ibResetState (ib : IB) : IB := { ib with slave := resetState ib.slave }

/-- The device answers with its CRC8 of command and address, then the page. -/
def ibPage (mem : Vector Byte 128) (lo hi : Byte) : List Byte :=
  ibCrc8 [0xF0, lo, hi] 0 ::
    if targetAddress lo hi < ibMemsize then mem.toList.drop (targetAddress lo hi) else []

def ibOnByte (t : Token) (val : Byte) : Token := onByte (ibMemsize + 16) ibPage t val

def ibOnSlot (t : Token) (host : Byte) : Token × Byte :=
  onSlot (ibMemsize + 16) ibPage t host

def ibTx (ib : IB) (val : Byte) : IB :=
  if val = 0xF0 then { ibResetState ib with rbr := 0xE0, rxFull := true }
  else
    let r := ibOnSlot ib.slave val
    { ib with slave := r.1, rbr := r.2, rxFull := true }

def ibOut (port : BitVec 16) (val : Byte) (ib : IB) : IB :=
  if port - ibBase = 0 then
    if ib.lcr &&& 0x80 ≠ 0 then { ib with dll := val } else ibTx ib val
  else if port - ibBase = 1 then
    if ib.lcr &&& 0x80 ≠ 0 then { ib with dlm := val } else { ib with ier := val }
  else if port - ibBase = 3 then { ib with lcr := val }
  else if port - ibBase = 4 then { ib with mcr := val }
  else if port - ibBase = 7 then { ib with scr := val }
  else ib

def ibIn (port : BitVec 16) (ib : IB) : IB × Byte :=
  if port - ibBase = 0 then
    if ib.lcr &&& 0x80 ≠ 0 then (ib, ib.dll) else ({ ib with rxFull := false }, ib.rbr)
  else if port - ibBase = 1 then (ib, if ib.lcr &&& 0x80 ≠ 0 then ib.dlm else ib.ier)
  else if port - ibBase = 2 then (ib, 0x01)
  else if port - ibBase = 3 then (ib, ib.lcr)
  else if port - ibBase = 4 then (ib, ib.mcr)
  else if port - ibBase = 5 then (ib, 0x60 ||| if ib.rxFull then 0x01 else 0x00)
  else if port - ibBase = 6 then (ib, 0xB0)
  else if port - ibBase = 7 then (ib, ib.scr)
  else (ib, 0xFF)

/-- "Photo Play 2000 Version 3" -/
def ibText : List Byte := [
  0x50, 0x68, 0x6F, 0x74, 0x6F, 0x20, 0x50, 0x6C, 0x61, 0x79, 0x20, 0x32, 0x30, 0x30, 0x30,
  0x20, 0x56, 0x65, 0x72, 0x73, 0x69, 0x6F, 0x6E, 0x20, 0x33]

def ibRom (serial : Vector Byte 6) : Vector Byte 8 :=
  let rom : Vector Byte 7 := (#v[(0x09 : Byte)] ++ serial).cast rfl
  rom.push (ibCrc8 rom.toList 0)

def ibMem : Vector Byte 128 := Vector.ofFn fun i => (List.replicate 5 0 ++ ibText).getD i 0

def ibStart (serial : Vector Byte 6) : IB where
  lcr := 0
  mcr := 0
  ier := 0
  scr := 0
  dll := 0
  dlm := 0
  rbr := 0
  rxFull := false
  slave :=
    resetState
      { rom := ibRom serial, mem := ibMem, inbits := 0, nbits := 0
        out := List.replicate (ibMemsize + 16) 0, outLen := 0, outPos := 0, state := .cmd
        ta := fun _ => 0, nta := 0 }

end PeepeeBox.IButton
