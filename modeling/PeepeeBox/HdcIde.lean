import Mathlib.Data.Int.Bitwise
import Mathlib.Data.Int.Notation
import Mathlib.Logic.Function.Basic
import PeepeeBox.HddImage
import PeepeeBox.TraceMachine

set_option autoImplicit false

/-!
# The ATA controller

`hdc_ide.c` for a board with a hard disk in each of its two positions: the task files, the
commands, the data port, resets, and the worker that reads ahead of the completion callback.
Packet devices, empty positions and the interrupt lines are left out; a timer is armed or not,
since every delay the code computes is positive.
-/
namespace PeepeeBox.HdcIde
open HddImage HostFile TraceMachine

def errStat : Byte := 0x01

def drqStat : Byte := 0x08

def dscStat : Byte := 0x10

def drdyStat : Byte := 0x40

def bsyStat : Byte := 0x80

def abrtErr : Byte := 0x04

def idnfErr : Byte := 0x10

def uncErr : Byte := 0x40

def winRead : Byte := 0x20

def winReadNoretry : Byte := 0x21

def winVerify : Byte := 0x40

def winPacketcmd : Byte := 0xA0

def winReadMultiple : Byte := 0xC4

def winWriteMultiple : Byte := 0xC5

def winSetidle1 : Byte := 0xE3

def winIdentify : Byte := 0xEC

def winInvalid : Byte := 0xFF

/-- The commands as the two switches tell them apart. -/
inductive Command where
  | recal
  | seek
  | srst
  | idle
  | power
  | read
  | readDma
  | readMultiple
  | write
  | writeDma
  | writeMultiple
  | verify
  | format
  | specify
  | diagnostics
  | pidentify
  | setMultiple
  | setFeatures
  | readNativeMax
  | identify
  | packet
  | invalid
deriving DecidableEq

def decode (val : Byte) : Command :=
  if 0x10 ≤ val ∧ val ≤ 0x1F then .recal
  else if 0x70 ≤ val ∧ val ≤ 0x7F then .seek
  else if val = 0x08 then .srst
  else if val = 0x00 ∨ val = 0xE0 ∨ val = 0xE1 ∨ val = winSetidle1 then .idle
  else if val = 0xE5 ∨ val = 0xE6 then .power
  else if val = winRead ∨ val = winReadNoretry then .read
  else if val = 0xC8 ∨ val = 0xC9 then .readDma
  else if val = winReadMultiple then .readMultiple
  else if val = 0x30 ∨ val = 0x31 then .write
  else if val = 0xCA ∨ val = 0xCB then .writeDma
  else if val = winWriteMultiple then .writeMultiple
  else if val = winVerify ∨ val = 0x41 then .verify
  else if val = 0x50 then .format
  else if val = 0x91 then .specify
  else if val = 0x90 then .diagnostics
  else if val = 0xA1 then .pidentify
  else if val = 0xC6 then .setMultiple
  else if val = 0xEF then .setFeatures
  else if val = 0xF8 then .readNativeMax
  else if val = winIdentify then .identify
  else if val = winPacketcmd then .packet
  else .invalid

structure Tf where
  cylprecomp : Byte
  secount : Byte
  cylinder : BitVec 16
  atastat : Byte
  error : Byte
  sector : Byte
  drvsel : Byte
  pos : ℕ

def Tf.head (tf : Tf) : Byte := tf.drvsel &&& 0x0F

def Tf.lba (tf : Tf) : Bool := tf.drvsel.getLsbD 6

def Tf.setHead (tf : Tf) (head : Byte) : Tf :=
  { tf with drvsel := tf.drvsel &&& 0xF0 ||| head &&& 0x0F }

structure AsyncRead where
  pending : Bool
  complete : Bool
  result : Bool
  sector : BitVec 32
  count : BitVec 32

structure Drive where
  command : Byte
  tf : Tf
  selected : Bool
  reset : Bool
  irqstat : Bool
  service : Bool
  blocksize : ℕ
  blockcount : ℕ
  sectorPos : ℕ
  doInitialRead : Bool
  paramsSpecified : Bool
  mdmaMode : ℕ
  cfgSpt : BitVec 32
  cfgHpc : BitVec 32
  lbaAddr : BitVec 32
  tracks : BitVec 32
  hpc : BitVec 32
  buffer : ℕ → BitVec 16
  sectorBuffer : ℕ → Byte
  timer : Bool
  maxMultipleBlock : Byte
  speedPreset : BitVec 32
  image : Image
  async : AsyncRead

structure BoardConfig where
  /-- The bus master, if there is one, and whether it has a DMA routine. -/
  bm : Option Bool
  forceAta3 : Bool
  /-- Whether `ide_async_read_start` starts anything. -/
  background : Bool
  /-- The IDENTIFY page for a block size, a translation and a transfer mode. -/
  identify : ℕ → Bool → BitVec 32 → BitVec 32 → ℕ → ℕ → BitVec 16

/-- What the bus master's routine comes to: switched off, the whole transfer, or an error. -/
inductive Dma where
  | disabled
  | done (memory : ℕ → Byte)
  | failed (moved : List Byte)

def ideIrq (d : Drive) (set : Bool) : Drive :=
  { d with irqstat := set, service := d.service || set }

def ideIrqRaise (d : Drive) : Drive := ideIrq d true

def ideIrqLower (d : Drive) : Drive := ideIrq d false

def ideSetSignature (d : Drive) : Drive :=
  { d with tf := { d.tf.setHead 0 with sector := 1, secount := 1, cylinder := 0x0000 } }

/-- 0 stands for 256. -/
def sectorCount (tf : Tf) : ℕ := if tf.secount ≠ 0 then tf.secount.toNat else 256

def chsTrack (d : Drive) : ℕ := (d.tf.cylinder.toNat * d.cfgHpc.toNat + d.tf.head.toNat) * d.cfgSpt.toNat

def ideGetSector (d : Drive) : ℕ :=
  if d.tf.lba then d.lbaAddr.toNat
  else chsTrack d + (if d.tf.sector ≠ 0 then d.tf.sector.toNat - 1 else 0)

def ideGetLastSector (d : Drive) : ℕ := ideGetSector d + (sectorCount d.tf - 1)

def ideGetSectorFormat (d : Drive) : ℕ := if d.tf.lba then d.lbaAddr.toNat else chsTrack d

def ideNextSector (d : Drive) : Drive :=
  let sector := d.tf.sector.setWidth 32
  let head := d.tf.head.setWidth 32
  if d.tf.lba then { d with lbaAddr := d.lbaAddr + 1 }
  else if sector + 1 = 0 ∨ sector + 1 = d.cfgSpt + 1 then
    if head + 1 = d.cfgHpc then
      { d with
        tf := { d.tf.setHead 0 with sector := 1, cylinder := d.tf.cylinder + 1 } }
    else { d with tf := { d.tf.setHead ((head + 1).setWidth 8) with sector := 1 } }
  else { d with tf.sector := (sector + 1).setWidth 8 }

/-- The check every transfer makes. -/
def outOfRange (d : Drive) : Bool :=
  (!d.tf.lba && d.cfgSpt = 0) || d.image.lastSector.toNat < ideGetSector d ||
    d.image.lastSector.toNat < ideGetLastSector d

def overlay (f : ℕ → Byte) (bs : List Byte) : ℕ → Byte :=
  fun i => if i < bs.length then bs.getD i 0 else f i

def asyncReadStart (cfg : BoardConfig) (d : Drive) (sector count : BitVec 32) : Drive :=
  if cfg.background = false ∨ d.async.pending = true ∨ count = 0 then d
  else
    { d with
      async := { pending := true, complete := false, result := false, sector := sector, count := count } }

def asyncReadWork (d : Drive) : Drive :=
  if d.async.pending = true ∧ d.async.complete = false then
    match hddImageRead d.image d.async.sector d.async.count with
    | some data =>
      { d with
        sectorBuffer := overlay d.sectorBuffer data
        async.complete := true
        async.result := true }
    | none => { d with async.complete := true, async.result := false }
  else d

/-- The worker gets as far as `n` bytes. -/
def asyncReadFill (d : Drive) (n : ℕ) : Drive :=
  if d.async.pending = true ∧ d.async.complete = false then
    match hddImageRead d.image d.async.sector d.async.count with
    | some data => { d with sectorBuffer := overlay d.sectorBuffer (data.take n) }
    | none => d
  else d

def asyncReadFinish (d : Drive) : Drive × Option Bool :=
  if d.async.pending then
    let d := asyncReadWork d
    ({ d with async.pending := false, async.complete := false }, some d.async.result)
  else (d, none)

def asyncReadDiscard (d : Drive) : Drive := (asyncReadFinish d).1

def asyncReadStartCurrent (cfg : BoardConfig) (d : Drive) : Drive :=
  if outOfRange d = true ∨ (d.command = winReadMultiple ∧ d.blocksize = 0) then d
  else asyncReadStart cfg d (BitVec.ofNat 32 (ideGetSector d)) (BitVec.ofNat 32 (sectorCount d.tf))

/-- `hdd_image_read` into the sector buffer, unless the worker has done it. -/
def initialRead (d : Drive) (sector count : ℕ) : Drive × Bool :=
  match asyncReadFinish d with
  | (d, some ok) => (d, ok)
  | (d, none) =>
    match hddImageRead d.image (BitVec.ofNat 32 sector) (BitVec.ofNat 32 count) with
    | some data => ({ d with sectorBuffer := overlay d.sectorBuffer data }, true)
    | none => (d, false)

def loadBuffer (d : Drive) : Drive :=
  { d with
    buffer := fun i =>
      if i < 256 then
        d.sectorBuffer (512 * d.sectorPos + 2 * i + 1) ++ d.sectorBuffer (512 * d.sectorPos + 2 * i)
      else d.buffer i }

def bufferBytes (d : Drive) : List Byte :=
  (List.range 512).map fun i =>
    if i % 2 = 0 then (d.buffer (i / 2)).setWidth 8 else (d.buffer (i / 2) >>> 8).setWidth 8

def ideGetMax (cfg : BoardConfig) (type : ℕ) : ℤ :=
  if cfg.forceAta3 = false ∧ cfg.bm.isSome = true then ([4, -1, 2, 5] : List ℤ).getD type (-1)
  else ([3, -1, -1, -1] : List ℤ).getD type (-1)

def ideSetFeatures (cfg : BoardConfig) (d : Drive) : Option Drive :=
  let submode := (d.tf.secount &&& 7).toNat
  let mode (type flag : ℕ) : Option Drive :=
    if ideGetMax cfg type < submode then none else some { d with mdmaMode := 1 <<< submode ||| flag }
  if d.tf.cylprecomp = 0x03 then
    match (d.tf.secount >>> 3).toNat with
    | 0x00 =>
      if (if 3 ≤ ideGetMax cfg 0 then 1 else 0) < submode then none
      else some { d with mdmaMode := 1 <<< (ideGetMax cfg 0).toNat }
    | 0x01 => mode 0 0
    | 0x02 => mode 1 0x100
    | 0x04 => mode 2 0x200
    | 0x08 => mode 3 0x300
    | _ => none
  else if d.tf.cylprecomp = 0x5D ∨ d.tf.cylprecomp = 0x5E ∨ d.tf.cylprecomp = 0xDD ∨
      d.tf.cylprecomp = 0xDE then
    if ideGetMax cfg 2 = -1 then none else some d
  else if d.tf.cylprecomp = 0x66 ∨ d.tf.cylprecomp = 0xCC then some d
  else none

def ideSetSector (d : Drive) (n : ℤ) : Drive :=
  if d.tf.lba then
    { d with
      tf :=
        { d.tf.setHead (BitVec.ofInt 8 (n >>> 24)) with
          cylinder := BitVec.ofInt 16 (n >>> 8)
          sector := BitVec.ofInt 8 n } }
  else
    let spt : ℤ := d.image.geometry.spt.toNat
    let track : ℤ := (d.image.geometry.hpc * d.image.geometry.spt).toNat
    { d with
      tf :=
        { d.tf.setHead (BitVec.ofInt 8 ((n.tmod track).tdiv spt)) with
          cylinder := BitVec.ofInt 16 (n.tdiv track)
          sector := BitVec.ofInt 8 ((n.tmod track).tmod spt + 1) } }

/-- A command's callback: the drive, the error it ends with, and what it gives the bus master. -/
structure Outcome where
  drive : Drive
  err : Byte
  dma : Option (List Byte)

def Outcome.plain (d : Drive) : Outcome := { drive := d, err := 0, dma := none }

def Outcome.failed (d : Drive) (err : Byte) : Outcome := { drive := d, err := err, dma := none }

def ready (d : Drive) : Drive := ideIrqRaise { d with tf.atastat := drdyStat ||| dscStat }

def readSector (d : Drive) : Drive × Bool :=
  let r :=
    if d.doInitialRead then
      initialRead { d with doInitialRead := false, sectorPos := 0 } (ideGetSector d) (sectorCount d.tf)
    else (d, true)
  let d := loadBuffer r.1
  ({ d with
      sectorPos := d.sectorPos + 1
      tf.pos := 0
      tf.atastat := drqStat ||| drdyStat ||| dscStat }, r.2)

def callbackRead (d : Drive) : Outcome :=
  if outOfRange d then .failed d idnfErr
  else
    let r := readSector d
    { drive := ideIrqRaise r.1, err := if r.2 then 0 else uncErr, dma := none }

def callbackReadMultiple (d : Drive) : Outcome :=
  if d.blocksize = 0 then .failed d abrtErr
  else if outOfRange d then .failed d idnfErr
  else
    let r := readSector d
    let d := if r.1.blockcount = 0 then ideIrqRaise r.1 else r.1
    let blockcount := d.blockcount + 1
    { drive := { d with blockcount := if d.blocksize ≤ blockcount then 0 else blockcount }
      err := if r.2 then 0 else uncErr
      dma := none }

def callbackReadDma (cfg : BoardConfig) (dma : Dma) (d : Drive) : Outcome :=
  if cfg.forceAta3 = true ∨ cfg.bm = none then .failed d abrtErr
  else if outOfRange d then .failed d idnfErr
  else
    let count := sectorCount d.tf
    let d := { d with sectorPos := count, tf.pos := 0 }
    let r :=
      if d.doInitialRead then initialRead { d with doInitialRead := false } (ideGetSector d) count
      else (d, true)
    let d := r.1
    if r.2 = false then .failed d uncErr
    else if cfg.bm = some true then
      let data := (List.range (512 * count)).map d.sectorBuffer
      match dma with
      | .disabled =>
        .plain { d with tf.atastat := drqStat ||| drdyStat ||| dscStat, timer := true }
      | .done _ => { drive := ready d, err := 0, dma := some data }
      | .failed _ => { drive := d, err := abrtErr, dma := some data }
    else .failed d abrtErr

def writeSector (d : Drive) : Drive × Bool :=
  let r := hddImageWrite d.image (BitVec.ofNat 32 (ideGetSector d)) 1 (bufferBytes d)
  ({ d with image := r.1 }, r.2)

def afterWrite (d : Drive) : Drive :=
  let d := { d with tf.secount := d.tf.secount - 1 }
  if d.tf.secount ≠ 0 then
    ideNextSector { d with tf.atastat := drqStat ||| drdyStat ||| dscStat, tf.pos := 0 }
  else { d with tf.atastat := drdyStat ||| dscStat, command := winInvalid }

def callbackWrite (d : Drive) : Outcome :=
  if outOfRange d then .failed d idnfErr
  else
    let r := writeSector d
    { drive := afterWrite (ideIrqRaise r.1), err := if r.2 then 0 else uncErr, dma := none }

def callbackWriteMultiple (d : Drive) : Outcome :=
  if d.blocksize = 0 then .failed d abrtErr
  else if outOfRange d then .failed d idnfErr
  else
    let r := writeSector d
    let d := r.1
    let blockcount := d.blockcount + 1
    let d :=
      if d.blocksize ≤ blockcount ∨ d.tf.secount = 1 then ideIrqRaise { d with blockcount := 0 }
      else { d with blockcount := blockcount }
    { drive := afterWrite d, err := if r.2 then 0 else uncErr, dma := none }

def callbackWriteDma (cfg : BoardConfig) (dma : Dma) (d : Drive) : Outcome :=
  if cfg.forceAta3 = true ∨ cfg.bm = none then .failed d abrtErr
  else if outOfRange d then .failed d idnfErr
  else if cfg.bm = some true then
    let count := sectorCount d.tf
    let d := { d with sectorPos := count }
    match dma with
    | .disabled =>
      .plain { d with tf.atastat := drqStat ||| drdyStat ||| dscStat, timer := true }
    | .done memory =>
      let data := (List.range (512 * count)).map memory
      let d := { d with sectorBuffer := overlay d.sectorBuffer data }
      let r := hddImageWrite d.image (BitVec.ofNat 32 (ideGetSector d)) (BitVec.ofNat 32 count)
        ((List.range (512 * count)).map d.sectorBuffer)
      { drive := ready { d with image := r.1 }, err := if r.2 then 0 else uncErr, dma := none }
    | .failed moved =>
      .failed { d with sectorBuffer := overlay d.sectorBuffer (moved.take (512 * count)) } abrtErr
  else .failed d abrtErr

def callbackFormat (d : Drive) : Outcome :=
  if !d.tf.lba && d.cfgSpt = 0 then .failed d idnfErr
  else
    let r := hddImageZero d.image (BitVec.ofNat 32 (ideGetSectorFormat d)) (d.tf.secount.setWidth 32)
    { drive := ready { d with image := r.1 }, err := if r.2 then 0 else uncErr, dma := none }

def callbackIdentify (cfg : BoardConfig) (d : Drive) : Outcome :=
  .plain (ideIrqRaise
    { d with
      buffer := fun i =>
        if i < 256 then cfg.identify d.blocksize d.paramsSpecified d.cfgHpc d.cfgSpt d.mdmaMode i
        else d.buffer i
      tf.pos := 0
      tf.atastat := drqStat ||| drdyStat ||| dscStat })

def commandCallback (cfg : BoardConfig) (dma : Dma) (d : Drive) : Outcome :=
  match decode d.command with
  | .seek =>
    if d.tf.lba = false ∧ (d.tracks.toNat ≤ d.tf.cylinder.toNat ∨ d.hpc.toNat ≤ d.tf.head.toNat) then
      .failed d idnfErr
    else .plain (ready d)
  | .recal => .plain (ready d)
  | .srst => .failed d abrtErr
  | .idle => .plain (ready d)
  | .power => .plain (ready { d with tf.secount := 0xFF })
  | .read => callbackRead d
  | .readDma => callbackReadDma cfg dma d
  | .readMultiple => callbackReadMultiple d
  | .write => callbackWrite d
  | .writeDma => callbackWriteDma cfg dma d
  | .writeMultiple => callbackWriteMultiple d
  | .verify =>
    if !d.tf.lba && d.cfgSpt = 0 then .failed d idnfErr
    else .plain (ready { d with tf.pos := 0 })
  | .format => callbackFormat d
  | .specify =>
    .plain (ready
      { d with
        cfgSpt := if d.tf.secount = 0 then 256 else d.tf.secount.setWidth 32
        cfgHpc := d.tf.head.setWidth 32 + 1
        paramsSpecified := true
        command := 0x00
        tf.error := 1 })
  | .pidentify => .failed d abrtErr
  | .setMultiple =>
    if d.tf.secount < 2 ∨ d.maxMultipleBlock < d.tf.secount then .failed d abrtErr
    else .plain (ready { d with blocksize := d.tf.secount.toNat })
  | .setFeatures =>
    match ideSetFeatures cfg d with
    | none => .failed d abrtErr
    | some d => .plain (ready d)
  | .readNativeMax =>
    let g := d.image.geometry
    .plain (ready (ideSetSector d ((g.spt * g.hpc * g.tracks).toInt - 1)))
  | .identify => callbackIdentify cfg d
  | .packet => .failed d abrtErr
  | .diagnostics => .failed d abrtErr
  | .invalid => .failed d abrtErr

def ideCallback (cfg : BoardConfig) (dma : Dma) (d : Drive) : Drive × Option (List Byte) :=
  let r := commandCallback cfg dma d
  if r.err ≠ 0 then
    (ideIrqRaise
      { r.drive with
        tf.atastat := drdyStat ||| errStat ||| dscStat
        tf.error := r.err
        tf.pos := 0 }, r.dma)
  else (r.drive, r.dma)

def callbackNow (cfg : BoardConfig) (d : Drive) : Drive := (ideCallback cfg .disabled d).1

def sectorGiven (cfg : BoardConfig) (d : Drive) : Drive :=
  if d.command = winWriteMultiple then
    if d.speedPreset = 0 then callbackNow cfg d
    else if d.blocksize ≤ d.blockcount + 1 ∨ d.tf.secount = 1 then { d with timer := true }
    else callbackNow cfg d
  else { d with timer := true }

def ideWriteData (cfg : BoardConfig) (d : Drive) (val : BitVec 16) : Drive :=
  if d.command = winInvalid then d
  else if d.command = winPacketcmd then { d with tf.pos := 0 }
  else
    let buffer := Function.update d.buffer (d.tf.pos >>> 1) val
    if 512 ≤ d.tf.pos + 2 then
      sectorGiven cfg { d with buffer := buffer, tf.pos := 0, tf.atastat := bsyStat }
    else { d with buffer := buffer, tf.pos := d.tf.pos + 2 }

def isPioRead (command : Byte) : Bool :=
  command = winRead || command = winReadNoretry || command = winReadMultiple

def sectorDue (cfg : BoardConfig) (d : Drive) : Drive :=
  if d.command = winReadMultiple then
    if d.speedPreset = 0 then callbackNow cfg d
    else if d.blockcount = 0 then { d with timer := true }
    else callbackNow cfg d
  else { d with timer := true }

def sectorTaken (cfg : BoardConfig) (d : Drive) : Drive :=
  if isPioRead d.command then
    let secount := d.tf.secount - 1
    if secount ≠ 0 then
      let d := ideNextSector { d with tf.secount := secount }
      sectorDue cfg { d with tf.atastat := bsyStat ||| drdyStat ||| dscStat }
    else { d with tf.secount := secount, command := winInvalid }
  else { d with command := winInvalid }

def ideReadData (cfg : BoardConfig) (d : Drive) : Drive × BitVec 16 :=
  if d.command = winInvalid then (d, 0)
  else if d.command = winPacketcmd then ({ d with tf.pos := 0 }, 0)
  else
    let ret := d.buffer (d.tf.pos >>> 1)
    if 512 ≤ d.tf.pos + 2 then
      (sectorTaken cfg { d with tf.pos := 0, tf.atastat := drdyStat ||| dscStat }, ret)
    else ({ d with tf.pos := d.tf.pos + 2 }, ret)

end PeepeeBox.HdcIde
