import Mathlib
import PeepeeBox.HdcIde

set_option autoImplicit false

/-!
# Two drives on one cable

The board of `hdc_ide.c`: the registers both drives hear, the command register, soft reset
and diagnostics, and everything that may happen to a board in any order.
-/
namespace PeepeeBox.IdeBoard
open HdcIde HddImage HostFile TraceMachine

/-- Position `false` is device 0, position `true` device 1. -/
structure Board where
  devctl : Byte
  curDev : Bool
  diag : Bool
  timer : Bool
  drive : Bool → Drive

def Board.current (b : Board) : Drive := b.drive b.curDev

def Board.put (b : Board) (ch : Bool) (d : Drive) : Board :=
  { b with drive := Function.update b.drive ch d }

def Board.both (b : Board) (f : Drive → Drive) : Board := { b with drive := fun ch => f (b.drive ch) }

def busy (d : Drive) : Bool := d.tf.atastat &&& (bsyStat ||| drqStat) ≠ 0

def atRest (f : Drive → Drive) (d : Drive) : Drive := if busy d then d else f d

def devReset (d : Drive) : Drive := ideSetSignature (asyncReadDiscard d)

def ideResetRegisters (d : Drive) : Drive :=
  { d with
    tf :=
      { d.tf.setHead 0 with
        atastat := drdyStat ||| dscStat, error := 1, secount := 1, cylinder := 0x0000, sector := 1 }
    reset := false
    timer := false }

def resetting (d : Drive) : Drive :=
  let d := devReset d
  { d with tf.atastat := bsyStat, tf.error := 1, timer := false }

/-- Device 0 is selected and the board's timer runs. -/
def startReset (b : Board) (diag : Bool) : Board :=
  let b := b.both resetting
  { b with
    diag := diag
    timer := true
    curDev := false
    drive := fun ch =>
      { b.drive ch with selected := !ch, reset := (b.drive ch).reset || ch == (b.curDev && !diag) } }

def writeDrvsel (b : Board) (val : Byte) : Board :=
  let ch := val.getLsbD 4
  let moved := ch ≠ b.curDev
  let b :=
    if moved then
      { b with curDev := ch, drive := fun c => { b.drive c with selected := c == ch } }
    else b
  if moved ∧ ((b.drive false).reset = true ∨ (b.drive true).reset = true) then
    { b.both ideResetRegisters with timer := false }
  else
    let head := b.current
    let lba (d : Drive) (head : Byte) : BitVec 32 :=
      d.lbaAddr &&& 0x0FFFFFF ||| head.setWidth 32 <<< 24
    let b := b.put ch (atRest (fun d =>
      let tf := { d.tf with drvsel := val &&& 0xEF }
      { d with tf := tf, lbaAddr := lba d tf.head }) head)
    b.put (!ch) (atRest (fun d =>
      { d with tf.drvsel := val &&& 0xEF, lbaAddr := lba d b.current.tf.head }) (b.drive !ch))

def startCommand (cfg : BoardConfig) (prev : Byte) (d : Drive) : Drive :=
  let later (d : Drive) (stat : Byte) : Drive := { d with tf.atastat := stat, timer := true }
  let now (d : Drive) : Drive := callbackNow cfg { d with tf.atastat := bsyStat }
  let wanted (d : Drive) : Drive := { d with tf.atastat := drqStat ||| dscStat ||| drdyStat, tf.pos := 0 }
  let fetched (d : Drive) : Drive :=
    let d := { d with tf.atastat := bsyStat, doInitialRead := true }
    if d.command = winRead ∧ prev = winSetidle1 then callbackNow cfg d
    else asyncReadStartCurrent cfg { d with timer := true }
  match decode d.command with
  | .recal => later d (drdyStat ||| bsyStat)
  | .seek => later d (drdyStat ||| bsyStat)
  | .srst => later d drdyStat
  | .readMultiple => fetched { d with blockcount := 0 }
  | .read => fetched d
  | .readDma => fetched d
  | .writeMultiple => wanted { d with blockcount := 0 }
  | .write => wanted d
  | .writeDma => later d bsyStat
  | .verify => later d bsyStat
  | .identify => now d
  | .setFeatures => now d
  | .readNativeMax => later d bsyStat
  | .format => { d with tf.atastat := drqStat, tf.pos := 0 }
  | .specify => later d bsyStat
  | .diagnostics => d
  | .pidentify => now d
  | .setMultiple => now d
  | .idle => now d
  | .power => now d
  | .packet => later { d with tf.pos := 0 } bsyStat
  | .invalid =>
    ideIrqRaise { d with tf.atastat := drdyStat ||| errStat ||| dscStat, tf.error := abrtErr }

def writeCommand (cfg : BoardConfig) (b : Board) (val : Byte) : Board :=
  let d := b.current
  if busy d = true ∧ (val ≠ winVerify ∨ d.command ≠ winIdentify) then b
  else
    let accepted := { ideIrqLower d with command := val, tf.error := 0 }
    if decode val = .diagnostics then startReset (b.put b.curDev accepted) true
    else b.put b.curDev (startCommand cfg d.command accepted)

def ideWriteb (cfg : BoardConfig) (b : Board) (addr : BitVec 3) (val : Byte) : Board :=
  match addr.toNat with
  | 0 => b.put b.curDev (ideWriteData cfg b.current (val ++ val))
  | 1 => b.both (atRest fun d => { d with tf.cylprecomp := val })
  | 2 => b.both (atRest fun d => { d with tf.secount := val })
  | 3 =>
    b.both (atRest fun d =>
      { d with tf.sector := val, lbaAddr := d.lbaAddr &&& 0xFFFFF00 ||| val.setWidth 32 })
  | 4 =>
    b.both (atRest fun d =>
      { d with
        tf.cylinder := d.tf.cylinder &&& 0xFF00 ||| val.setWidth 16
        lbaAddr := d.lbaAddr &&& 0xFFF00FF ||| val.setWidth 32 <<< 8 })
  | 5 =>
    b.both (atRest fun d =>
      { d with
        tf.cylinder := d.tf.cylinder &&& 0x00FF ||| val.setWidth 16 <<< 8
        lbaAddr := d.lbaAddr &&& 0xF00FFFF ||| val.setWidth 32 <<< 16 })
  | 6 => writeDrvsel b val
  | _ => writeCommand cfg b val

def ideReadb (cfg : BoardConfig) (b : Board) (addr : BitVec 3) : Board × Byte :=
  let d := b.current
  match addr.toNat with
  | 0 => (b.put b.curDev (ideReadData cfg d).1, (ideReadData cfg d).2.setWidth 8)
  | 1 => (b, d.tf.error)
  | 2 => (b, d.tf.secount)
  | 3 => (b, d.tf.sector)
  | 4 => (b, d.tf.cylinder.setWidth 8)
  | 5 => (b, (d.tf.cylinder >>> 8).setWidth 8)
  | 6 => (b, d.tf.drvsel ||| if b.curDev then 0xB0 else 0xA0)
  | _ => (b.put b.curDev (ideIrqLower d), d.tf.atastat)

def ideWriteDevctl (b : Board) (val : Byte) : Board :=
  let b := { b with diag := false }
  let b :=
    if val.getLsbD 2 = true ∧ b.devctl.getLsbD 2 = false then
      b.both fun d => { d with tf.atastat := bsyStat, tf.error := 1, timer := false }
    else if val.getLsbD 2 = false ∧ b.devctl.getLsbD 2 = true then startReset b false
    else b
  { b with devctl := val }

def ideBoardCallback (b : Board) : Board :=
  let b :=
    { b.both fun d => { d with tf.atastat := drdyStat ||| dscStat, reset := false } with
      curDev := false }
  if b.diag then { b.put false (ideIrqRaise (b.drive false)) with diag := false } else b

/-- `ide_board_setup` for a loaded image and what its speed preset says. -/
def setupDrive (cfg : BoardConfig) (img : Image) (preset : BitVec 32) (maxMultiple : Byte) (ch : Bool) :
    Drive where
  command := 0
  tf :=
    { cylprecomp := 0, secount := 1, cylinder := 0, atastat := drdyStat ||| dscStat, error := 1
      sector := 1, drvsel := 0, pos := 0 }
  selected := !ch
  reset := false
  irqstat := false
  service := false
  blocksize := maxMultiple.toNat
  blockcount := 0
  sectorPos := 0
  doInitialRead := false
  paramsSpecified := false
  mdmaMode := 1 <<< (ideGetMax cfg 0).toNat
  cfgSpt := if 63 < img.geometry.spt then 63 else img.geometry.spt
  cfgHpc := if 16 < img.geometry.hpc then 16 else img.geometry.hpc
  lbaAddr := 0
  tracks := img.geometry.tracks
  hpc := img.geometry.hpc
  buffer _ := 0
  sectorBuffer _ := 0
  timer := false
  maxMultipleBlock := maxMultiple
  speedPreset := preset
  image := img
  async := { pending := false, complete := false, result := false, sector := 0, count := 0 }

def setupBoard (cfg : BoardConfig) (img : Bool → Image) (preset : BitVec 32) (maxMultiple : Byte) :
    Board where
  devctl := 0
  curDev := false
  diag := false
  timer := false
  drive ch := setupDrive cfg (img ch) preset maxMultiple ch

inductive Event where
  | writeb (addr : BitVec 3) (val : Byte)
  | writeData (val : BitVec 16)
  | readb (addr : BitVec 3)
  | readData
  | readAltStatus
  | writeDevctl (val : Byte)
  /-- A drive's timer, and what the bus master makes of a transfer. -/
  | tick (ch : Bool) (dma : Dma)
  | boardTick
  /-- The worker of a drive gets to a byte of its request, or to the end. -/
  | fill (ch : Bool) (n : ℕ)
  | work (ch : Bool)

inductive Output where
  | byte (val : Byte)
  | word (val : BitVec 16)
  | moved (data : List Byte)

/-- A timer that is not armed does not run out. -/
def boardStep (cfg : BoardConfig) (b : Board) : Event → Board × Option Output
  | .writeb addr val => (ideWriteb cfg b addr val, none)
  | .writeData val => (b.put b.curDev (ideWriteData cfg b.current val), none)
  | .readb addr => ((ideReadb cfg b addr).1, some (.byte (ideReadb cfg b addr).2))
  | .readData =>
    (b.put b.curDev (ideReadData cfg b.current).1, some (.word (ideReadData cfg b.current).2))
  | .readAltStatus => (b, some (.byte b.current.tf.atastat))
  | .writeDevctl val => (ideWriteDevctl b val, none)
  | .tick ch dma =>
    if (b.drive ch).timer then
      let r := ideCallback cfg dma { b.drive ch with timer := false }
      (b.put ch r.1, r.2.map .moved)
    else (b, none)
  | .boardTick => if b.timer then (ideBoardCallback { b with timer := false }, none) else (b, none)
  | .fill ch n => (b.put ch (asyncReadFill (b.drive ch) n), none)
  | .work ch => (b.put ch (asyncReadWork (b.drive ch)), none)

def boardMachine (cfg : BoardConfig) : Machine Board Event Output where
  step := boardStep cfg

end PeepeeBox.IdeBoard
