import Mathlib.Tactic.IntervalCases
import Mathlib.Tactic.SplitIfs
import PeepeeBox.AtaRange
import PeepeeBox.TwinCells

set_option autoImplicit false

/-!
# The block address and the registers that show it

A drive of `hdc_ide.c` keeps its block address in `lba_addr` and again in the sector, cylinder
and head registers.
-/
namespace PeepeeBox.LbaRegisters
open AtaRange AtaTwins HdcIde HddImage HostFile IdeBoard TraceMachine TwinCells

inductive Reg where
  | sector
  | cylLow
  | cylHigh
  | head
deriving DecidableEq

/-- A register's part of a block address. -/
def part (lba : BitVec 32) : Reg → Byte
  | .sector => lba.setWidth 8
  | .cylLow => (lba >>> 8).setWidth 8
  | .cylHigh => (lba >>> 16).setWidth 8
  | .head => (lba >>> 24).setWidth 8

def used (d : Drive) (r : Reg) : Byte := part d.lbaAddr r

def shown (d : Drive) : Reg → Byte
  | .sector => d.tf.sector
  | .cylLow => d.tf.cylinder.setWidth 8
  | .cylHigh => (d.tf.cylinder >>> 8).setWidth 8
  | .head => d.tf.head

/-- The number a guest gets from the four registers of the selected drive. -/
def readBack (cfg : BoardConfig) (b : Board) : BitVec 28 :=
  (ideReadb cfg b 6).2.setWidth 4 ++ (ideReadb cfg b 5).2 ++ (ideReadb cfg b 4).2 ++
    (ideReadb cfg b 3).2

theorem lbaAddr_parts (d : Drive) :
    d.lbaAddr = used d .head ++ used d .cylHigh ++ used d .cylLow ++ used d .sector := by
  apply BitVec.eq_of_getLsbD_eq
  intro i hi
  simp only [used, part, BitVec.getLsbD_append, BitVec.getLsbD_setWidth, BitVec.getLsbD_ushiftRight]
  grind

theorem low_nibble (x : Byte) : x &&& 0x0F = (x.setWidth 4).setWidth 8 := by
  apply BitVec.eq_of_getLsbD_eq
  intro i hi
  simp
  interval_cases i <;> simp

theorem selected_nibble (x : Byte) (dev : Bool) :
    (x ||| if dev then 0xB0 else 0xA0).setWidth 4 = x.setWidth 4 := by
  apply BitVec.eq_of_getLsbD_eq
  intro i hi
  cases dev <;> interval_cases i <;> simp

theorem wider_parts (h : BitVec 4) (c l s : Byte) :
    (h ++ c ++ l ++ s).setWidth 32 = h.setWidth 8 ++ c ++ l ++ s := by
  apply BitVec.eq_of_getLsbD_eq
  intro i hi
  simp only [BitVec.getLsbD_append, BitVec.getLsbD_setWidth]
  grind

theorem readBack_parts (cfg : BoardConfig) (b : Board) :
    (readBack cfg b).setWidth 32 =
      shown b.current .head ++ shown b.current .cylHigh ++ shown b.current .cylLow ++
        shown b.current .sector := by
  have hhead : (ideReadb cfg b 6).2.setWidth 4 = b.current.tf.drvsel.setWidth 4 :=
    selected_nibble b.current.tf.drvsel b.curDev
  unfold readBack
  rw [wider_parts, hhead, ← low_nibble]
  rfl

theorem shown_address (cfg : BoardConfig) {b : Board} (hlba : b.current.tf.lba = true)
    (h : ∀ r, used b.current r = shown b.current r) :
    ideGetSector b.current = (readBack cfg b).toNat := by
  have hwide := readBack_parts cfg b
  rw [← h .head, ← h .cylHigh, ← h .cylLow, ← h .sector, ← lbaAddr_parts] at hwide
  have hsmall := (readBack cfg b).isLt
  unfold ideGetSector
  rw [if_pos hlba, ← hwide, BitVec.toNat_setWidth, Nat.mod_eq_of_lt (by omega)]

structure SameAddress (d e : Drive) : Prop where
  lba : e.lbaAddr = d.lbaAddr
  drvsel : e.tf.drvsel = d.tf.drvsel
  cylinder : e.tf.cylinder = d.tf.cylinder
  sector : e.tf.sector = d.tf.sector

theorem SameAddress.refl (d : Drive) : SameAddress d d := ⟨rfl, rfl, rfl, rfl⟩

theorem SameAddress.trans {d e f : Drive} (h : SameAddress d e) (h' : SameAddress e f) : SameAddress d f :=
  ⟨h'.lba.trans h.lba, h'.drvsel.trans h.drvsel, h'.cylinder.trans h.cylinder, h'.sector.trans h.sector⟩

theorem SameAddress.used {d e : Drive} (h : SameAddress d e) (r : Reg) : used e r = used d r :=
  congrArg (part · r) h.lba

theorem SameAddress.shown {d e : Drive} (h : SameAddress d e) (r : Reg) : shown e r = shown d r := by
  cases r <;> simp only [LbaRegisters.shown, Tf.head, h.drvsel, h.cylinder, h.sector]

theorem asyncReadWork_address (d : Drive) : SameAddress d (asyncReadWork d) := by
  unfold asyncReadWork
  split
  · split
    · exact ⟨rfl, rfl, rfl, rfl⟩
    · exact ⟨rfl, rfl, rfl, rfl⟩
  · exact .refl d

theorem asyncReadFill_address (d : Drive) (n : ℕ) : SameAddress d (asyncReadFill d n) := by
  unfold asyncReadFill
  split
  · split
    · exact ⟨rfl, rfl, rfl, rfl⟩
    · exact .refl d
  · exact .refl d

theorem asyncReadFinish_address (d : Drive) : SameAddress d (asyncReadFinish d).1 := by
  have hwork := asyncReadWork_address d
  unfold asyncReadFinish
  split
  · exact ⟨hwork.lba, hwork.drvsel, hwork.cylinder, hwork.sector⟩
  · exact .refl d

theorem asyncReadStartCurrent_address (cfg : BoardConfig) (d : Drive) :
    SameAddress d (asyncReadStartCurrent cfg d) := by
  unfold asyncReadStartCurrent asyncReadStart
  split
  · exact .refl d
  split
  · exact .refl d
  · exact ⟨rfl, rfl, rfl, rfl⟩

theorem initialRead_address (d : Drive) (sector count : ℕ) : SameAddress d (initialRead d sector count).1 := by
  have hfinish := asyncReadFinish_address d
  unfold initialRead
  split
  · rename_i e ok hdone
    rw [hdone] at hfinish
    exact hfinish
  · rename_i e hdone
    rw [hdone] at hfinish
    split
    · exact ⟨hfinish.lba, hfinish.drvsel, hfinish.cylinder, hfinish.sector⟩
    · exact hfinish

theorem readSector_address (d : Drive) : SameAddress d (readSector d).1 := by
  unfold readSector
  dsimp only
  split
  · have hread := initialRead_address { d with doInitialRead := false, sectorPos := 0 } (ideGetSector d)
      (sectorCount d.tf)
    exact ⟨hread.lba, hread.drvsel, hread.cylinder, hread.sector⟩
  · exact ⟨rfl, rfl, rfl, rfl⟩

theorem ideNextSector_address {d e : Drive} (h : SameAddress d e) (hspt : e.cfgSpt = d.cfgSpt)
    (hhpc : e.cfgHpc = d.cfgHpc) : SameAddress (ideNextSector d) (ideNextSector e) := by
  have hlba : e.tf.lba = d.tf.lba := congrArg (·.getLsbD 6) h.drvsel
  have hhead : e.tf.head = d.tf.head := congrArg (· &&& 0x0F) h.drvsel
  have hset (head : Byte) : (e.tf.setHead head).drvsel = (d.tf.setHead head).drvsel :=
    congrArg (fun x => x &&& 0xF0 ||| head &&& 0x0F) h.drvsel
  unfold ideNextSector
  dsimp only
  rw [hlba, h.sector, hspt, hhead, hhpc]
  by_cases hblock : d.tf.lba = true
  · rw [if_pos hblock, if_pos hblock]
    exact ⟨congrArg (· + 1) h.lba, h.drvsel, h.cylinder, h.sector⟩
  rw [if_neg hblock, if_neg hblock]
  split
  · split
    · exact ⟨h.lba, hset 0, congrArg (· + 1) h.cylinder, rfl⟩
    · exact ⟨h.lba, hset _, h.cylinder, rfl⟩
  · exact ⟨h.lba, h.drvsel, h.cylinder, rfl⟩

def callbackMoves (d : Drive) : Drive :=
  match decode d.command with
  | .write => if outOfRange d = false ∧ d.tf.secount ≠ 1 then ideNextSector d else d
  | .writeMultiple =>
    if d.blocksize ≠ 0 ∧ outOfRange d = false ∧ d.tf.secount ≠ 1 then ideNextSector d else d
  | .readNativeMax =>
    let g := d.image.geometry
    ideSetSector d ((g.spt * g.hpc * g.tracks).toInt - 1)
  | _ => d

theorem afterWrite_address {d e : Drive} (h : SameAddress d e) (hcount : e.tf.secount = d.tf.secount)
    (hspt : e.cfgSpt = d.cfgSpt) (hhpc : e.cfgHpc = d.cfgHpc) :
    SameAddress (if d.tf.secount ≠ 1 then ideNextSector d else d) (afterWrite e) := by
  have hlast : d.tf.secount - 1 ≠ 0 ↔ d.tf.secount ≠ 1 := by
    constructor
    · intro hmore hone
      simp [hone] at hmore
    · intro hone hmore
      apply hone
      bv_omega
  unfold afterWrite
  simp only [hcount, hlast]
  split
  · refine ideNextSector_address ?_ hspt hhpc
    exact ⟨h.lba, h.drvsel, h.cylinder, h.sector⟩
  · exact ⟨h.lba, h.drvsel, h.cylinder, h.sector⟩

theorem fetchAll_address (d : Drive) : SameAddress d (fetchAll d).1 := by
  unfold fetchAll
  split
  · have hread := initialRead_address { wholeRead d with doInitialRead := false } (ideGetSector d)
      (sectorCount d.tf)
    exact ⟨hread.lba, hread.drvsel, hread.cylinder, hread.sector⟩
  · exact ⟨rfl, rfl, rfl, rfl⟩

theorem callbackReadDma_address (cfg : BoardConfig) (dma : Dma) (d : Drive) :
    SameAddress d (callbackReadDma cfg dma d).drive := by
  have hfetch := fetchAll_address d
  rw [callbackReadDma_eq]
  split
  · exact .refl d
  split
  · exact .refl d
  unfold deliver
  split
  · exact hfetch
  split
  · cases dma with
    | disabled => exact hfetch.trans ⟨rfl, rfl, rfl, rfl⟩
    | done memory => exact hfetch.trans ⟨rfl, rfl, rfl, rfl⟩
    | failed moved => exact hfetch
  · exact hfetch

theorem callbackWriteDma_address (cfg : BoardConfig) (dma : Dma) (d : Drive) :
    SameAddress d (callbackWriteDma cfg dma d).drive := by
  unfold callbackWriteDma
  split
  · exact .refl d
  split
  · exact .refl d
  split
  · cases dma with
    | disabled => exact ⟨rfl, rfl, rfl, rfl⟩
    | done memory => exact ⟨rfl, rfl, rfl, rfl⟩
    | failed moved => exact ⟨rfl, rfl, rfl, rfl⟩
  · exact .refl d

theorem callbackRead_address (d : Drive) : SameAddress d (callbackRead d).drive := by
  unfold callbackRead
  split
  · exact .refl d
  · exact (readSector_address d).trans ⟨rfl, rfl, rfl, rfl⟩

theorem callbackReadMultiple_address (d : Drive) : SameAddress d (callbackReadMultiple d).drive := by
  have hread := readSector_address d
  unfold callbackReadMultiple
  split
  · exact .refl d
  split
  · exact .refl d
  dsimp only
  split
  · exact hread.trans ⟨rfl, rfl, rfl, rfl⟩
  · exact hread.trans ⟨rfl, rfl, rfl, rfl⟩

theorem callbackWrite_address (d : Drive) :
    SameAddress (if outOfRange d = false ∧ d.tf.secount ≠ 1 then ideNextSector d else d)
      (callbackWrite d).drive := by
  have hnext : SameAddress (if d.tf.secount ≠ 1 then ideNextSector d else d)
      (afterWrite (ideIrqRaise (writeSector d).1)) :=
    afterWrite_address ⟨rfl, rfl, rfl, rfl⟩ rfl rfl rfl
  unfold callbackWrite
  cases hrange : outOfRange d with
  | true => simpa [Outcome.failed] using SameAddress.refl d
  | false => simpa using hnext

theorem blockWritten_address (d : Drive) :
    SameAddress d (blockWritten d) ∧ (blockWritten d).tf.secount = d.tf.secount ∧
      (blockWritten d).cfgSpt = d.cfgSpt ∧ (blockWritten d).cfgHpc = d.cfgHpc := by
  unfold blockWritten
  split
  · exact ⟨⟨rfl, rfl, rfl, rfl⟩, rfl, rfl, rfl⟩
  · exact ⟨⟨rfl, rfl, rfl, rfl⟩, rfl, rfl, rfl⟩

theorem callbackWriteMultiple_address (d : Drive) :
    SameAddress (if d.blocksize ≠ 0 ∧ outOfRange d = false ∧ d.tf.secount ≠ 1 then ideNextSector d else d)
      (callbackWriteMultiple d).drive := by
  have hnext : SameAddress (if d.tf.secount ≠ 1 then ideNextSector d else d)
      (afterWrite (blockWritten (writeSector d).1)) := by
    obtain ⟨haddress, hcount, hspt, hhpc⟩ := blockWritten_address (writeSector d).1
    refine afterWrite_address ?_ hcount hspt hhpc
    exact ⟨haddress.lba, haddress.drvsel, haddress.cylinder, haddress.sector⟩
  unfold callbackWriteMultiple
  by_cases hblock : d.blocksize = 0
  · simpa [hblock, Outcome.failed] using SameAddress.refl d
  cases hrange : outOfRange d with
  | true => simpa [hblock, Outcome.failed] using SameAddress.refl d
  | false =>
    rw [if_neg hblock, if_neg Bool.false_ne_true]
    simp only [Ne, hblock, not_false_eq_true, true_and]
    exact hnext

theorem commandCallback_address (cfg : BoardConfig) (dma : Dma) (d : Drive) :
    SameAddress (callbackMoves d) (commandCallback cfg dma d).drive := by
  unfold commandCallback callbackMoves
  cases decode d.command with
  | read => exact callbackRead_address d
  | readMultiple => exact callbackReadMultiple_address d
  | readDma => exact callbackReadDma_address cfg dma d
  | write => exact callbackWrite_address d
  | writeMultiple => exact callbackWriteMultiple_address d
  | writeDma => exact callbackWriteDma_address cfg dma d
  | format =>
    dsimp only
    unfold callbackFormat
    split
    · exact .refl d
    · exact ⟨rfl, rfl, rfl, rfl⟩
  | seek =>
    dsimp only
    split
    · exact .refl d
    · exact ⟨rfl, rfl, rfl, rfl⟩
  | verify =>
    dsimp only
    split
    · exact .refl d
    · exact ⟨rfl, rfl, rfl, rfl⟩
  | setMultiple =>
    dsimp only
    split
    · exact .refl d
    · exact ⟨rfl, rfl, rfl, rfl⟩
  | setFeatures =>
    have hmap := ideSetFeatures_map cfg d d rfl rfl
    dsimp only
    split
    · exact .refl d
    · rename_i e hset
      rw [hset, Option.map_some] at hmap
      rw [Option.some.inj hmap]
      exact ⟨rfl, rfl, rfl, rfl⟩
  | readNativeMax => exact ⟨rfl, rfl, rfl, rfl⟩
  | recal => exact ⟨rfl, rfl, rfl, rfl⟩
  | idle => exact ⟨rfl, rfl, rfl, rfl⟩
  | power => exact ⟨rfl, rfl, rfl, rfl⟩
  | specify => exact ⟨rfl, rfl, rfl, rfl⟩
  | identify => exact ⟨rfl, rfl, rfl, rfl⟩
  | srst => exact .refl d
  | pidentify => exact .refl d
  | packet => exact .refl d
  | diagnostics => exact .refl d
  | invalid => exact .refl d

theorem ideCallback_address (cfg : BoardConfig) (dma : Dma) (d : Drive) :
    SameAddress (callbackMoves d) (ideCallback cfg dma d).1 := by
  have hcommand := commandCallback_address cfg dma d
  unfold ideCallback
  dsimp only
  split
  · exact hcommand.trans ⟨rfl, rfl, rfl, rfl⟩
  · exact hcommand

def takenMoves (d : Drive) : Drive :=
  if isPioRead d.command = true ∧ 512 ≤ d.tf.pos + 2 ∧ d.tf.secount ≠ 1 then ideNextSector d else d

def givenMoves (d : Drive) (val : BitVec 16) : Drive :=
  match writeDataCalls d val with
  | some called => callbackMoves called
  | none => d

theorem callbackNow_address (cfg : BoardConfig) (d : Drive) :
    SameAddress (callbackMoves d) (callbackNow cfg d) := ideCallback_address cfg .disabled d

theorem ideWriteData_address (cfg : BoardConfig) (d : Drive) (val : BitVec 16) :
    SameAddress (givenMoves d val) (ideWriteData cfg d val) := by
  unfold ideWriteData givenMoves writeDataCalls
  dsimp only
  by_cases hover : d.command = winInvalid
  · rw [if_pos hover, if_pos (Or.inl hover)]
    exact .refl d
  rw [if_neg hover]
  by_cases hpacket : d.command = winPacketcmd
  · rw [if_pos hpacket, if_pos (Or.inr (Or.inl hpacket))]
    exact ⟨rfl, rfl, rfl, rfl⟩
  rw [if_neg hpacket]
  by_cases hmore : d.tf.pos + 2 < 512
  · have hpart : ¬ 512 ≤ d.tf.pos + 2 := by omega
    rw [if_neg hpart, if_pos (Or.inr (Or.inr hmore))]
    exact ⟨rfl, rfl, rfl, rfl⟩
  have hfull : 512 ≤ d.tf.pos + 2 := by omega
  rw [if_pos hfull, if_neg fun h => h.elim hover fun h => h.elim hpacket hmore]
  unfold sectorGiven givenCalls
  dsimp only
  by_cases hcommand : d.command = winWriteMultiple
  · rw [if_pos hcommand]
    by_cases hpreset : d.speedPreset = 0
    · rw [if_pos hpreset, if_pos ⟨hcommand, Or.inl hpreset⟩]
      exact callbackNow_address cfg _
    rw [if_neg hpreset]
    by_cases hblock : d.blocksize ≤ d.blockcount + 1 ∨ d.tf.secount = 1
    · rw [if_pos hblock, if_neg fun h => h.2.elim hpreset fun hn => hn hblock]
      exact ⟨rfl, rfl, rfl, rfl⟩
    · rw [if_neg hblock, if_pos ⟨hcommand, Or.inr hblock⟩]
      exact callbackNow_address cfg _
  · rw [if_neg hcommand, if_neg fun h => hcommand h.1]
    exact ⟨rfl, rfl, rfl, rfl⟩

theorem sectorDue_address (cfg : BoardConfig) (d : Drive) : SameAddress d (sectorDue cfg d) := by
  have hnow (h : d.command = winReadMultiple) : SameAddress d (callbackNow cfg d) := by
    have hcall := callbackNow_address cfg d
    unfold callbackMoves at hcall
    rw [h] at hcall
    exact hcall
  unfold sectorDue
  split
  · rename_i hcommand
    split
    · exact hnow hcommand
    split
    · exact ⟨rfl, rfl, rfl, rfl⟩
    · exact hnow hcommand
  · exact ⟨rfl, rfl, rfl, rfl⟩

theorem ideReadData_address (cfg : BoardConfig) (d : Drive) :
    SameAddress (takenMoves d) (ideReadData cfg d).1 := by
  have hquiet {c : Byte} (h : d.command = c) (hread : isPioRead c = false) : takenMoves d = d := by
    unfold takenMoves
    rw [h, hread]
    simp
  unfold ideReadData
  split
  · rename_i hover
    rw [hquiet hover rfl]
    exact .refl d
  split
  · rename_i hpacket
    rw [hquiet hpacket rfl]
    exact ⟨rfl, rfl, rfl, rfl⟩
  dsimp only
  unfold takenMoves
  by_cases hfull : 512 ≤ d.tf.pos + 2
  · rw [if_pos hfull]
    unfold sectorTaken
    dsimp only
    by_cases hread : isPioRead d.command = true
    · rw [if_pos hread]
      by_cases hone : d.tf.secount = 1
      · have hlast : ¬ d.tf.secount - 1 ≠ 0 := by simp [hone]
        rw [if_neg hlast, if_neg fun h => h.2.2 hone]
        exact ⟨rfl, rfl, rfl, rfl⟩
      · have hmore : d.tf.secount - 1 ≠ 0 := by bv_omega
        have hnext : SameAddress (ideNextSector d)
            (ideNextSector
              { d with
                tf.pos := 0, tf.atastat := drdyStat ||| dscStat, tf.secount := d.tf.secount - 1 }) :=
          ideNextSector_address ⟨rfl, rfl, rfl, rfl⟩ rfl rfl
        rw [if_pos hmore, if_pos ⟨hread, hfull, hone⟩]
        refine SameAddress.trans ?_ (sectorDue_address cfg _)
        exact ⟨hnext.lba, hnext.drvsel, hnext.cylinder, hnext.sector⟩
    · rw [if_neg hread, if_neg fun h => hread h.1]
      exact ⟨rfl, rfl, rfl, rfl⟩
  · rw [if_neg hfull, if_neg fun h => hfull h.2.1]
    exact ⟨rfl, rfl, rfl, rfl⟩

theorem startCommand_address (cfg : BoardConfig) (prev : Byte) (d : Drive) :
    SameAddress d (startCommand cfg prev d) := by
  have hnow {e : Drive} (h : SameAddress d e) (hstill : callbackMoves e = e) :
      SameAddress d (callbackNow cfg e) := by
    have hcall := callbackNow_address cfg e
    rw [hstill] at hcall
    exact h.trans hcall
  have hfetched {e : Drive} (h : SameAddress d e) : SameAddress d (asyncReadStartCurrent cfg e) :=
    h.trans (asyncReadStartCurrent_address cfg e)
  have hstill {e : Drive} {c : Command} (h : decode e.command = c)
      (hc : c ≠ .write ∧ c ≠ .writeMultiple ∧ c ≠ .readNativeMax) :
      callbackMoves e = e := by
    unfold callbackMoves
    rw [h]
    cases c <;> simp_all
  unfold startCommand
  dsimp only
  cases hdecode : decode d.command with
  | read =>
    dsimp only
    split
    · exact hnow ⟨rfl, rfl, rfl, rfl⟩ (hstill hdecode (by decide))
    · exact hfetched ⟨rfl, rfl, rfl, rfl⟩
  | readMultiple =>
    dsimp only
    split
    · rename_i hread
      rw [hread.1] at hdecode
      exact absurd hdecode (by decide)
    · exact hfetched ⟨rfl, rfl, rfl, rfl⟩
  | readDma =>
    dsimp only
    split
    · rename_i hread
      rw [hread.1] at hdecode
      exact absurd hdecode (by decide)
    · exact hfetched ⟨rfl, rfl, rfl, rfl⟩
  | identify => exact hnow ⟨rfl, rfl, rfl, rfl⟩ (hstill hdecode (by decide))
  | setFeatures => exact hnow ⟨rfl, rfl, rfl, rfl⟩ (hstill hdecode (by decide))
  | pidentify => exact hnow ⟨rfl, rfl, rfl, rfl⟩ (hstill hdecode (by decide))
  | setMultiple => exact hnow ⟨rfl, rfl, rfl, rfl⟩ (hstill hdecode (by decide))
  | idle => exact hnow ⟨rfl, rfl, rfl, rfl⟩ (hstill hdecode (by decide))
  | power => exact hnow ⟨rfl, rfl, rfl, rfl⟩ (hstill hdecode (by decide))
  | diagnostics => exact .refl d
  | recal => exact ⟨rfl, rfl, rfl, rfl⟩
  | seek => exact ⟨rfl, rfl, rfl, rfl⟩
  | srst => exact ⟨rfl, rfl, rfl, rfl⟩
  | write => exact ⟨rfl, rfl, rfl, rfl⟩
  | writeMultiple => exact ⟨rfl, rfl, rfl, rfl⟩
  | writeDma => exact ⟨rfl, rfl, rfl, rfl⟩
  | verify => exact ⟨rfl, rfl, rfl, rfl⟩
  | readNativeMax => exact ⟨rfl, rfl, rfl, rfl⟩
  | format => exact ⟨rfl, rfl, rfl, rfl⟩
  | specify => exact ⟨rfl, rfl, rfl, rfl⟩
  | packet => exact ⟨rfl, rfl, rfl, rfl⟩
  | invalid => exact ⟨rfl, rfl, rfl, rfl⟩

theorem ideSetSignature_address {d e : Drive} (h : SameAddress d e) :
    SameAddress (ideSetSignature d) (ideSetSignature e) :=
  ⟨h.lba, congrArg (fun x => x &&& 0xF0 ||| 0 &&& 0x0F) h.drvsel, rfl, rfl⟩

theorem resetting_address (d : Drive) : SameAddress (ideSetSignature d) (resetting d) := by
  have hdiscard := ideSetSignature_address (asyncReadFinish_address d)
  exact ⟨hdiscard.lba, hdiscard.drvsel, hdiscard.cylinder, hdiscard.sector⟩

theorem startReset_address (b : Board) (diag ch : Bool) :
    SameAddress (ideSetSignature (b.drive ch)) ((startReset b diag).drive ch) := by
  have hreset := resetting_address (b.drive ch)
  exact ⟨hreset.lba, hreset.drvsel, hreset.cylinder, hreset.sector⟩

structure Writes (d e : Drive) (r : Reg) (same : Prop) : Prop where
  alike : used e r = shown e r ↔ same
  rest : ∀ q, q ≠ r → used d q = shown d q → used e q = shown e q

theorem part_sector (x : BitVec 32) (val : Byte) (r : Reg) :
    part (x &&& 0xFFFFF00 ||| val.setWidth 32) r =
      if r = .sector then val else if r = .head then part x .head &&& 0x0F else part x r := by
  apply BitVec.eq_of_getLsbD_eq
  intro i hi
  cases r <;> simp only [part] <;> interval_cases i <;> simp

theorem part_cylLow (x : BitVec 32) (val : Byte) (r : Reg) :
    part (x &&& 0xFFF00FF ||| val.setWidth 32 <<< 8) r =
      if r = .cylLow then val else if r = .head then part x .head &&& 0x0F else part x r := by
  apply BitVec.eq_of_getLsbD_eq
  intro i hi
  cases r <;> simp only [part] <;> interval_cases i <;> simp

theorem part_cylHigh (x : BitVec 32) (val : Byte) (r : Reg) :
    part (x &&& 0xF00FFFF ||| val.setWidth 32 <<< 16) r =
      if r = .cylHigh then val else if r = .head then part x .head &&& 0x0F else part x r := by
  apply BitVec.eq_of_getLsbD_eq
  intro i hi
  cases r <;> simp only [part] <;> interval_cases i <;> simp

theorem part_head (x : BitVec 32) (val : Byte) (r : Reg) :
    part (x &&& 0x0FFFFFF ||| val.setWidth 32 <<< 24) r = if r = .head then val else part x r := by
  apply BitVec.eq_of_getLsbD_eq
  intro i hi
  cases r <;> simp only [part] <;> interval_cases i <;> simp

theorem head_fits {d : Drive} (h : used d .head = shown d .head) : used d .head &&& 0x0F = used d .head := by
  rw [h]
  simp only [shown, Tf.head, BitVec.and_assoc]
  rfl

theorem Writes.of_parts {d e : Drive} {r : Reg} {x y : Byte}
    (hused : ∀ q, used e q = if q = r then x else if q = .head then used d .head &&& 0x0F else used d q)
    (hshown : ∀ q, shown e q = if q = r then y else shown d q) : Writes d e r (x = y) := by
  constructor
  · rw [hused, hshown, if_pos rfl, if_pos rfl]
  · intro q hq h
    rw [hused, hshown, if_neg hq, if_neg hq]
    split
    · rename_i hhead
      subst hhead
      rw [head_fits h, h]
    · exact h

theorem Writes.iff {d e : Drive} {r : Reg} {p q : Prop} (h : Writes d e r p) (hpq : p ↔ q) :
    Writes d e r q := ⟨h.alike.trans hpq, h.rest⟩

theorem writes_sector (d : Drive) (val : Byte) :
    Writes d { d with tf.sector := val, lbaAddr := d.lbaAddr &&& 0xFFFFF00 ||| val.setWidth 32 } .sector True := by
  refine Writes.iff (Writes.of_parts (fun q => part_sector d.lbaAddr val q) fun q => ?_) (iff_of_true rfl trivial)
  cases q <;> rfl

theorem writes_cylLow (d : Drive) (val : Byte) :
    Writes d
      { d with
        tf.cylinder := d.tf.cylinder &&& 0xFF00 ||| val.setWidth 16
        lbaAddr := d.lbaAddr &&& 0xFFF00FF ||| val.setWidth 32 <<< 8 } .cylLow True := by
  refine Writes.iff (Writes.of_parts (fun q => part_cylLow d.lbaAddr val q) fun q => ?_) (iff_of_true rfl trivial)
  apply BitVec.eq_of_getLsbD_eq
  intro i hi
  cases q <;> simp only [shown] <;> interval_cases i <;> simp [Tf.head]

theorem writes_cylHigh (d : Drive) (val : Byte) :
    Writes d
      { d with
        tf.cylinder := d.tf.cylinder &&& 0x00FF ||| val.setWidth 16 <<< 8
        lbaAddr := d.lbaAddr &&& 0xF00FFFF ||| val.setWidth 32 <<< 16 } .cylHigh True := by
  refine Writes.iff (Writes.of_parts (fun q => part_cylHigh d.lbaAddr val q) fun q => ?_) (iff_of_true rfl trivial)
  apply BitVec.eq_of_getLsbD_eq
  intro i hi
  cases q <;> simp only [shown] <;> interval_cases i <;> simp [Tf.head]

theorem written_head (val : Byte) : val &&& 0xEF &&& 0x0F = val &&& 0x0F := by
  rw [BitVec.and_assoc]
  rfl

theorem writes_head (val head : Byte) (d : Drive) :
    Writes d (setDrvsel val head d) .head (head = val &&& 0x0F) := by
  have hpart (q : Reg) : used (setDrvsel val head d) q = if q = .head then head else used d q :=
    part_head d.lbaAddr head q
  apply Writes.of_parts
  · intro q
    rw [hpart]
    split <;> simp_all
  · intro q
    cases q with
    | head => exact written_head val
    | sector => rfl
    | cylLow => rfl
    | cylHigh => rfl

def endsReset (b : Board) (val : Byte) : Bool :=
  val.getLsbD 4 != b.curDev && ((b.drive false).reset || (b.drive true).reset)

def startsDiagnostics (b : Board) (val : Byte) : Bool :=
  decode val == .diagnostics && (!busy b.current || (val == winVerify && b.current.command == winIdentify))

def endsSoftReset (b : Board) (val : Byte) : Bool := !val.getLsbD 2 && b.devctl.getLsbD 2

/-- The register of the address that a step writes in every drive at rest. -/
def written (b : Board) : Event → Option Reg
  | .writeb addr val =>
    match addr.toNat with
    | 3 => some .sector
    | 4 => some .cylLow
    | 5 => some .cylHigh
    | 6 => if endsReset b val then none else some .head
    | _ => none
  | _ => none

/-- What a step leads the drive in position `ch` to do with its address. -/
def ownMove (b : Board) (ch : Bool) : Event → Drive
  | .writeb addr val =>
    match addr.toNat with
    | 0 => if b.curDev = ch then givenMoves b.current (val ++ val) else b.drive ch
    | 6 => if endsReset b val then ideSetSignature (b.drive ch) else b.drive ch
    | 7 => if startsDiagnostics b val then ideSetSignature (b.drive ch) else b.drive ch
    | _ => b.drive ch
  | .writeData val => if b.curDev = ch then givenMoves b.current val else b.drive ch
  | .readb addr => if addr = 0 ∧ b.curDev = ch then takenMoves b.current else b.drive ch
  | .readData => if b.curDev = ch then takenMoves b.current else b.drive ch
  | .writeDevctl val => if endsSoftReset b val then ideSetSignature (b.drive ch) else b.drive ch
  | .tick c _ =>
    if c = ch ∧ (b.drive ch).timer = true then callbackMoves { b.drive ch with timer := false }
    else b.drive ch
  | _ => b.drive ch

def strays (b : Board) (ch : Bool) : Event → Bool
  | .writeb addr val =>
    addr.toNat == 6 && ch != val.getLsbD 4 && busy (b.drive (val.getLsbD 4)) &&
      (b.drive (val.getLsbD 4)).tf.head != val &&& 0x0F
  | _ => false

theorem put_address {b : Board} {c : Bool} {d e : Drive} (h : SameAddress d e) (ch : Bool) :
    SameAddress (if c = ch then d else b.drive ch) ((b.put c e).drive ch) := by
  rw [put_drive]
  split
  · exact h
  · exact .refl _

theorem put_still {b : Board} {c : Bool} {e : Drive} (h : SameAddress (b.drive c) e) (ch : Bool) :
    SameAddress (b.drive ch) ((b.put c e).drive ch) := by
  rw [put_drive]
  split
  · rename_i hc
    rw [← hc]
    exact h
  · exact .refl _

theorem select_address (b : Board) (ch c : Bool) : SameAddress (b.drive c) ((select b ch).drive c) := by
  unfold select
  split
  · exact ⟨rfl, rfl, rfl, rfl⟩
  · exact .refl _

theorem select_busy (b : Board) (ch c : Bool) : busy ((select b ch).drive c) = busy (b.drive c) := by
  unfold select
  split <;> rfl

theorem select_reset (b : Board) (ch c : Bool) :
    ((select b ch).drive c).reset = (b.drive c).reset := by
  unfold select
  split <;> rfl

def headSent (b : Board) (ch : Bool) (val : Byte) (c : Bool) : Byte :=
  if c = ch then val &&& 0xEF &&& 0x0F
  else (atRest (setDrvsel val (val &&& 0xEF &&& 0x0F)) (b.drive ch)).tf.head

theorem headWritten_drive {b : Board} {ch : Bool} (hch : b.curDev = ch) (val : Byte) (c : Bool) :
    (headWritten b ch val).drive c = atRest (setDrvsel val (headSent b ch val c)) (b.drive c) := by
  subst hch
  unfold headWritten headSent Board.current
  dsimp only
  rw [put_drive, put_drive, put_drive]
  by_cases hc : c = b.curDev
  · subst hc
    simp [put_drive]
  · have hother : (!b.curDev) = c := by
      cases c <;> cases hcur : b.curDev <;> simp_all
    rw [if_pos hother, if_neg hc, ← hother]
    simp [Board.put]

theorem writeDrvsel_ends {b : Board} {val : Byte} (h : endsReset b val = true) :
    writeDrvsel b val = { (select b (val.getLsbD 4)).both ideResetRegisters with timer := false } := by
  have hends : val.getLsbD 4 ≠ b.curDev ∧ (((select b (val.getLsbD 4)).drive false).reset = true ∨
      ((select b (val.getLsbD 4)).drive true).reset = true) := by
    simpa [endsReset, select_reset] using h
  rw [writeDrvsel_eq, if_pos hends]

theorem writeDrvsel_signs {b : Board} {val : Byte} (h : endsReset b val = true) (ch : Bool) :
    SameAddress (ideSetSignature (b.drive ch)) ((writeDrvsel b val).drive ch) := by
  have hsign := ideSetSignature_address (select_address b (val.getLsbD 4) ch)
  rw [writeDrvsel_ends h]
  exact ⟨hsign.lba, hsign.drvsel, hsign.cylinder, hsign.sector⟩

theorem writeDrvsel_drive {b : Board} {val : Byte} (h : endsReset b val = false) (c : Bool) :
    (writeDrvsel b val).drive c =
      atRest (setDrvsel val (headSent (select b (val.getLsbD 4)) (val.getLsbD 4) val c))
        ((select b (val.getLsbD 4)).drive c) := by
  have hends : ¬ (val.getLsbD 4 ≠ b.curDev ∧ (((select b (val.getLsbD 4)).drive false).reset = true ∨
      ((select b (val.getLsbD 4)).drive true).reset = true)) := by
    simpa [endsReset, select_reset] using h
  rw [writeDrvsel_eq, if_neg hends]
  exact headWritten_drive (select_curDev b _) val c

theorem writeCommand_address (cfg : BoardConfig) (b : Board) (val : Byte) (ch : Bool) :
    SameAddress (if startsDiagnostics b val then ideSetSignature (b.drive ch) else b.drive ch)
      ((writeCommand cfg b val).drive ch) := by
  have haccepted : SameAddress b.current { ideIrqLower b.current with command := val, tf.error := 0 } :=
    ⟨rfl, rfl, rfl, rfl⟩
  have hbusy : startsDiagnostics b val = true ↔ decode val = .diagnostics ∧
      ¬ (busy b.current = true ∧ (val ≠ winVerify ∨ b.current.command ≠ winIdentify)) := by
    simp only [startsDiagnostics, Bool.and_eq_true, beq_iff_eq, Bool.or_eq_true, Bool.not_eq_true',
      ← Bool.not_eq_true]
    tauto
  unfold writeCommand
  dsimp only
  by_cases hrefused : busy b.current = true ∧ (val ≠ winVerify ∨ b.current.command ≠ winIdentify)
  · rw [if_pos hrefused, if_neg fun h => (hbusy.mp h).2 hrefused]
    exact .refl _
  rw [if_neg hrefused]
  by_cases hdiag : decode val = .diagnostics
  · rw [if_pos hdiag, if_pos (hbusy.mpr ⟨hdiag, hrefused⟩)]
    exact (ideSetSignature_address (put_still haccepted ch)).trans (startReset_address _ true ch)
  · rw [if_neg hdiag, if_neg fun h => hdiag (hbusy.mp h).1]
    exact put_still (haccepted.trans (startCommand_address cfg _ _)) ch

theorem ideWriteDevctl_address (b : Board) (val : Byte) (ch : Bool) :
    SameAddress (if endsSoftReset b val then ideSetSignature (b.drive ch) else b.drive ch)
      ((ideWriteDevctl b val).drive ch) := by
  unfold ideWriteDevctl endsSoftReset
  dsimp only
  cases hset : val.getLsbD 2 with
  | true =>
    cases hheld : b.devctl.getLsbD 2 with
    | true => exact .refl _
    | false => exact ⟨rfl, rfl, rfl, rfl⟩
  | false =>
    cases hheld : b.devctl.getLsbD 2 with
    | true => exact startReset_address { b with diag := false } false ch
    | false => exact .refl _

theorem ideBoardCallback_address (b : Board) (ch : Bool) :
    SameAddress (b.drive ch) ((ideBoardCallback b).drive ch) := by
  unfold ideBoardCallback
  dsimp only
  split
  · refine SameAddress.trans ?_ (put_still ?_ ch)
    · exact ⟨rfl, rfl, rfl, rfl⟩
    · exact ⟨rfl, rfl, rfl, rfl⟩
  · exact ⟨rfl, rfl, rfl, rfl⟩

theorem atRest_busy {f : Drive → Drive} {d : Drive} (h : busy d = true) : atRest f d = d := if_pos h

theorem atRest_free {f : Drive → Drive} {d : Drive} (h : busy d = false) : atRest f d = f d :=
  if_neg (by simp [h])

theorem atRest_address {f : Drive → Drive} (hf : ∀ d, SameAddress d (f d)) (d : Drive) :
    SameAddress d (atRest f d) := by
  unfold atRest
  split
  · exact .refl d
  · exact hf d

theorem ideWriteb_address (cfg : BoardConfig) (b : Board) (addr : BitVec 3) (val : Byte) (ch : Bool)
    (h : written b (.writeb addr val) = none ∨ busy (b.drive ch) = true) :
    SameAddress (ownMove b ch (.writeb addr val)) ((ideWriteb cfg b addr val).drive ch) := by
  have hn := addr.isLt
  dsimp only [written] at h
  dsimp only [ownMove, ideWriteb]
  generalize addr.toNat = n at *
  interval_cases n
  · exact put_address (ideWriteData_address cfg b.current (val ++ val)) ch
  · have hother (d : Drive) : SameAddress d { d with tf.cylprecomp := val } := ⟨rfl, rfl, rfl, rfl⟩
    exact atRest_address hother (b.drive ch)
  · have hother (d : Drive) : SameAddress d { d with tf.secount := val } := ⟨rfl, rfl, rfl, rfl⟩
    exact atRest_address hother (b.drive ch)
  · have hbusy := h.resolve_left (Option.some_ne_none _)
    simp only [Board.both, atRest_busy hbusy]
    exact .refl _
  · have hbusy := h.resolve_left (Option.some_ne_none _)
    simp only [Board.both, atRest_busy hbusy]
    exact .refl _
  · have hbusy := h.resolve_left (Option.some_ne_none _)
    simp only [Board.both, atRest_busy hbusy]
    exact .refl _
  · change SameAddress (if endsReset b val then ideSetSignature (b.drive ch) else b.drive ch)
      ((writeDrvsel b val).drive ch)
    cases hends : endsReset b val with
    | true => exact writeDrvsel_signs hends ch
    | false =>
      rw [hends] at h
      have hbusy := h.resolve_left (Option.some_ne_none _)
      rw [writeDrvsel_drive hends, atRest_busy ((select_busy b _ ch).trans hbusy)]
      exact select_address b _ ch
  · exact writeCommand_address cfg b val ch

theorem ideReadb_address (cfg : BoardConfig) (b : Board) (addr : BitVec 3) (ch : Bool) :
    SameAddress (ownMove b ch (.readb addr)) ((ideReadb cfg b addr).1.drive ch) := by
  unfold ownMove
  dsimp only
  by_cases hdata : addr = 0
  · subst hdata
    simp only [true_and]
    exact put_address (ideReadData_address cfg b.current) ch
  rw [if_neg fun h => hdata h.1]
  unfold ideReadb
  dsimp only
  split
  · rename_i hzero
    exact absurd (BitVec.eq_of_toNat_eq hzero) hdata
  · exact .refl _
  · exact .refl _
  · exact .refl _
  · exact .refl _
  · exact .refl _
  · exact .refl _
  · refine put_still ?_ ch
    exact ⟨rfl, rfl, rfl, rfl⟩

theorem boardStep_address (cfg : BoardConfig) (b : Board) (e : Event) (ch : Bool)
    (h : written b e = none ∨ busy (b.drive ch) = true) :
    SameAddress (ownMove b ch e) ((boardStep cfg b e).1.drive ch) := by
  cases e with
  | writeb addr val => exact ideWriteb_address cfg b addr val ch h
  | writeData val => exact put_address (ideWriteData_address cfg b.current val) ch
  | readb addr => exact ideReadb_address cfg b addr ch
  | readData => exact put_address (ideReadData_address cfg b.current) ch
  | readAltStatus => exact .refl _
  | writeDevctl val => exact ideWriteDevctl_address b val ch
  | tick c dma =>
    dsimp only [boardStep, ownMove]
    by_cases hc : c = ch
    · subst hc
      by_cases htimer : (b.drive c).timer = true
      · rw [if_pos ⟨rfl, htimer⟩, if_pos htimer, put_drive, if_pos rfl]
        exact ideCallback_address cfg dma _
      · rw [if_neg fun h => htimer h.2, if_neg htimer]
        exact .refl _
    · rw [if_neg fun h => hc h.1]
      split
      · rw [put_drive, if_neg hc]
        exact .refl _
      · exact .refl _
  | boardTick =>
    dsimp only [boardStep, ownMove]
    split
    · exact ideBoardCallback_address { b with timer := false } ch
    · exact .refl _
  | fill c n => exact put_still (asyncReadFill_address _ n) ch
  | work c => exact put_still (asyncReadWork_address _) ch

theorem head_sent (b : Board) (val : Byte) (ch : Bool) :
    headSent (select b (val.getLsbD 4)) (val.getLsbD 4) val ch = val &&& 0x0F ↔
      strays b ch (.writeb 6 val) = false := by
  have hstrays : strays b ch (.writeb 6 val) =
      (ch != val.getLsbD 4 && busy (b.drive (val.getLsbD 4)) &&
        (b.drive (val.getLsbD 4)).tf.head != val &&& 0x0F) := rfl
  have hhead : ((select b (val.getLsbD 4)).drive (val.getLsbD 4)).tf.head =
      (b.drive (val.getLsbD 4)).tf.head := (select_address b _ _).shown .head
  rw [hstrays]
  unfold headSent
  generalize val.getLsbD 4 = sel at *
  by_cases hch : ch = sel
  · rw [if_pos hch]
    simp only [written_head, hch, bne_self_eq_false, Bool.false_and]
  rw [if_neg hch]
  cases hbusy : busy (b.drive sel) with
  | true =>
    rw [atRest_busy ((select_busy b _ _).trans hbusy), hhead]
    simp [hch]
  | false =>
    rw [atRest_free ((select_busy b _ _).trans hbusy)]
    simp only [Bool.and_false, Bool.false_and, iff_true]
    exact written_head val

theorem writeDrvsel_writes {b : Board} {val : Byte} {ch : Bool} (hends : endsReset b val = false)
    (hrest : busy (b.drive ch) = false) :
    Writes (b.drive ch) ((writeDrvsel b val).drive ch) .head (strays b ch (.writeb 6 val) = false) := by
  have haddress := select_address b (val.getLsbD 4) ch
  have hwrites := (writes_head val (headSent (select b (val.getLsbD 4)) (val.getLsbD 4) val ch)
    ((select b (val.getLsbD 4)).drive ch)).iff (head_sent b val ch)
  rw [writeDrvsel_drive hends, atRest_free ((select_busy b _ ch).trans hrest)]
  refine ⟨hwrites.alike, fun q hq h => hwrites.rest q hq ?_⟩
  rw [haddress.used, haddress.shown, h]

theorem ideWriteb_writes (cfg : BoardConfig) {b : Board} {addr : BitVec 3} {val : Byte} {ch : Bool} {r : Reg}
    (h : written b (.writeb addr val) = some r) (hrest : busy (b.drive ch) = false) :
    Writes (b.drive ch) ((ideWriteb cfg b addr val).drive ch) r (strays b ch (.writeb addr val) = false) := by
  have hn := addr.isLt
  by_cases hhead : addr = 6
  · subst hhead
    change (if endsReset b val then none else some Reg.head) = some r at h
    cases hends : endsReset b val with
    | true => simp [hends] at h
    | false =>
      simp only [hends, Bool.false_eq_true, if_false, Option.some.injEq] at h
      subst h
      exact writeDrvsel_writes hends hrest
  have hsix : addr.toNat ≠ 6 := fun hsix => hhead (BitVec.eq_of_toNat_eq hsix)
  have hstays : strays b ch (.writeb addr val) = false := by simp [strays, hsix]
  rw [hstays]
  dsimp only [written] at h
  dsimp only [ideWriteb]
  generalize addr.toNat = n at *
  interval_cases n
  · cases h
  · cases h
  · cases h
  · obtain rfl := Option.some.inj h
    simp only [Board.both, atRest_free hrest]
    exact (writes_sector (b.drive ch) val).iff (by simp)
  · obtain rfl := Option.some.inj h
    simp only [Board.both, atRest_free hrest]
    exact (writes_cylLow (b.drive ch) val).iff (by simp)
  · obtain rfl := Option.some.inj h
    simp only [Board.both, atRest_free hrest]
    exact (writes_cylHigh (b.drive ch) val).iff (by simp)
  · exact absurd rfl hsix
  · cases h

theorem boardStep_writes (cfg : BoardConfig) {b : Board} {e : Event} {ch : Bool} {r : Reg}
    (h : written b e = some r) (hrest : busy (b.drive ch) = false) :
    Writes (b.drive ch) ((boardStep cfg b e).1.drive ch) r (strays b ch e = false) := by
  cases e with
  | writeb addr val => exact ideWriteb_writes cfg h hrest
  | writeData val => cases h
  | readb addr => cases h
  | readData => cases h
  | readAltStatus => cases h
  | writeDevctl val => cases h
  | tick c dma => cases h
  | boardTick => cases h
  | fill c n => cases h
  | work c => cases h

def OneCopy (d e : Drive) : Prop := (∀ r, used e r = used d r) ∨ ∀ r, shown e r = shown d r

theorem ideSetSignature_one (d : Drive) : OneCopy d (ideSetSignature d) := Or.inl fun _ => rfl

theorem ideSetSector_one (d : Drive) (n : ℤ) : OneCopy d (ideSetSector d n) := by
  left
  intro r
  unfold ideSetSector
  split <;> rfl

theorem ideNextSector_one (d : Drive) : OneCopy d (ideNextSector d) := by
  unfold ideNextSector
  dsimp only
  split
  · exact Or.inr fun _ => rfl
  split
  · split
    · exact Or.inl fun _ => rfl
    · exact Or.inl fun _ => rfl
  · exact Or.inl fun _ => rfl

theorem OneCopy.refl (d : Drive) : OneCopy d d := Or.inl fun _ => rfl

theorem callbackMoves_one (d : Drive) : OneCopy d (callbackMoves d) := by
  unfold callbackMoves
  split
  · split
    · exact ideNextSector_one d
    · exact .refl d
  · split
    · exact ideNextSector_one d
    · exact .refl d
  · exact ideSetSector_one d _
  · exact .refl d

theorem writeDataCalls_address {d called : Drive} {val : BitVec 16}
    (h : writeDataCalls d val = some called) : SameAddress d called := by
  unfold writeDataCalls givenCalls at h
  split at h
  · cases h
  split at h
  · obtain rfl := Option.some.inj h
    exact ⟨rfl, rfl, rfl, rfl⟩
  · cases h

theorem givenMoves_one (d : Drive) (val : BitVec 16) : OneCopy d (givenMoves d val) := by
  unfold givenMoves
  split
  · rename_i called hcalled
    have hsame := writeDataCalls_address hcalled
    have hone := callbackMoves_one called
    unfold OneCopy at hone ⊢
    simpa only [hsame.used, hsame.shown] using hone
  · exact .refl d

theorem takenMoves_one (d : Drive) : OneCopy d (takenMoves d) := by
  unfold takenMoves
  split
  · exact ideNextSector_one d
  · exact .refl d

theorem OneCopy.of_ite {p : Prop} [Decidable p] {d e : Drive} (h : p → OneCopy d e) :
    OneCopy d (if p then e else d) := by
  split
  · rename_i hp
    exact h hp
  · exact .refl d

theorem ownMove_one (b : Board) (ch : Bool) (e : Event) : OneCopy (b.drive ch) (ownMove b ch e) := by
  have hsign (p : Bool) : OneCopy (b.drive ch) (if p then ideSetSignature (b.drive ch) else b.drive ch) :=
    .of_ite fun _ => ideSetSignature_one _
  have hgiven (val : BitVec 16) :
      OneCopy (b.drive ch) (if b.curDev = ch then givenMoves b.current val else b.drive ch) := by
    apply OneCopy.of_ite
    rintro rfl
    exact givenMoves_one b.current val
  have htaken {p : Prop} [Decidable p] (h : p → b.curDev = ch) :
      OneCopy (b.drive ch) (if p then takenMoves b.current else b.drive ch) := by
    apply OneCopy.of_ite
    intro hp
    rw [← h hp]
    exact takenMoves_one b.current
  cases e with
  | writeb addr val =>
    dsimp only [ownMove]
    split
    · exact hgiven _
    · exact hsign _
    · exact hsign _
    · exact .refl _
  | writeData val => exact hgiven val
  | readb addr => exact htaken fun h => h.2
  | readData => exact htaken fun h => h
  | readAltStatus => exact .refl _
  | writeDevctl val => exact hsign _
  | tick c dma =>
    apply OneCopy.of_ite
    exact fun _ => callbackMoves_one { b.drive ch with timer := false }
  | boardTick => exact .refl _
  | fill c n => exact .refl _
  | work c => exact .refl _

/-- A register of a drive that is written alike in both copies, left as alike as it was, or moved
    in one of them. -/
def effect (b : Board) (e : Event) (c : Bool × Reg) : Effect :=
  if busy (b.drive c.1) = false ∧ written b e ≠ none then
    if written b e = some c.2 then if strays b c.1 e then .moved else .alike else .left
  else if used (ownMove b c.1 e) c.2 = used (b.drive c.1) c.2 ∧
      shown (ownMove b c.1 e) c.2 = shown (b.drive c.1) c.2 then .left
  else .moved

theorem effect_kept (cfg : BoardConfig) {b : Board} {e : Event} {c : Bool × Reg}
    (h : ¬ (busy (b.drive c.1) = false ∧ written b e ≠ none)) :
    SameAddress (ownMove b c.1 e) ((boardStep cfg b e).1.drive c.1) := by
  apply boardStep_address
  by_contra hnone
  rw [not_or, Bool.not_eq_true] at hnone
  exact h ⟨hnone.2, hnone.1⟩

theorem effect_left (cfg : BoardConfig) {b : Board} {e : Event} {c : Bool × Reg} (h : effect b e c = .left)
    (hagree : used (b.drive c.1) c.2 = shown (b.drive c.1) c.2) :
    used ((boardStep cfg b e).1.drive c.1) c.2 = shown ((boardStep cfg b e).1.drive c.1) c.2 := by
  unfold effect at h
  split at h
  · rename_i htask
    obtain ⟨r, hr⟩ := Option.ne_none_iff_exists'.mp htask.2
    by_cases hc : r = c.2
    · rw [hr, hc, if_pos rfl] at h
      split at h <;> cases h
    · exact (boardStep_writes cfg hr htask.1).rest c.2 (Ne.symm hc) hagree
  · rename_i htask
    have hsame := effect_kept cfg htask
    split at h
    · rename_i hstill
      rw [hsame.used, hsame.shown, hstill.1, hstill.2, hagree]
    · cases h

theorem effect_alike (cfg : BoardConfig) {b : Board} {e : Event} {c : Bool × Reg} (h : effect b e c = .alike) :
    used ((boardStep cfg b e).1.drive c.1) c.2 = shown ((boardStep cfg b e).1.drive c.1) c.2 := by
  unfold effect at h
  split at h
  · rename_i htask
    split at h
    · rename_i hr
      split at h
      · cases h
      · rename_i hstays
        exact (boardStep_writes cfg hr htask.1).alike.mpr (Bool.eq_false_iff.mpr hstays)
    · cases h
  · split at h <;> cases h

theorem effect_moved (cfg : BoardConfig) {b : Board} {e : Event} {c : Bool × Reg} (h : effect b e c = .moved)
    (hagree : used (b.drive c.1) c.2 = shown (b.drive c.1) c.2) :
    used ((boardStep cfg b e).1.drive c.1) c.2 ≠ shown ((boardStep cfg b e).1.drive c.1) c.2 := by
  unfold effect at h
  split at h
  · rename_i htask
    split at h
    · rename_i hr
      split at h
      · rename_i hstrays
        intro hsame
        rw [(boardStep_writes cfg hr htask.1).alike.mp hsame] at hstrays
        cases hstrays
      · cases h
    · cases h
  · rename_i htask
    have hsame := effect_kept cfg htask
    split at h
    · cases h
    · rename_i hmoved
      rw [hsame.used, hsame.shown]
      intro heq
      apply hmoved
      cases ownMove_one b c.1 e with
      | inl hused =>
        rw [hused] at heq
        exact ⟨hused c.2, by rw [← heq, hagree]⟩
      | inr hshown =>
        rw [hshown] at heq
        exact ⟨by rw [heq, hagree], hshown c.2⟩

/-- The address registers of both drives, and the block addresses the controller works with. -/
def addressTwins (cfg : BoardConfig) : Twins (boardMachine cfg) (Bool × Reg) Byte where
  used b c := used (b.drive c.1) c.2
  shown b c := shown (b.drive c.1) c.2
  effect := effect
  left _ _ _ := effect_left cfg
  alike _ _ _ := effect_alike cfg
  moved _ _ _ := effect_moved cfg

/-- A command for a drive that is neither busy nor requesting data and has the LBA bit set. -/
def LbaCommand (b : Board) (e : Event) : Prop :=
  (∃ val, e = .writeb 7 val) ∧ busy b.current = false ∧ b.current.tf.lba = true

/-- Such a command works with all of its drive's address. -/
def commandUses (b : Board) (e : Event) (c : Bool × Reg) : Prop := LbaCommand b e ∧ c.1 = b.curDev

/-- At power-on the sector register shows 1 and the block address is 0. -/
def settledAtPowerOn (c : Bool × Reg) : Prop := c.2 ≠ .sector

theorem powerOn_sound (cfg : BoardConfig) (img : Bool → Image) (preset : BitVec 32) (maxMultiple : Byte) :
    (addressTwins cfg).Sound (setupBoard cfg img preset maxMultiple, settledAtPowerOn) := by
  rintro ⟨ch, r⟩ hr
  change part 0 r = shown (setupDrive cfg (img ch) preset maxMultiple ch) r
  cases r with
  | sector => exact absurd rfl hr
  | cylLow => simp [part, shown, setupDrive]
  | cylHigh => simp [part, shown, setupDrive]
  | head => simp [part, shown, setupDrive, Tf.head]

/-- A command in LBA mode uses the number its registers show, in a run that gives such commands to a
    drive with every address register written since the drive last moved one copy of it; and a drive
    that moves one copy of a register leaves it different from the other. -/
theorem lba_shown (cfg : BoardConfig) (img : Bool → Image) (preset : BitVec 32) (maxMultiple : Byte) :
    (∀ is : List Event,
      (addressTwins cfg).watched.Along (Twins.AsksSettled commandUses)
        (setupBoard cfg img preset maxMultiple, settledAtPowerOn) is →
      ∀ before e after, is = before ++ e :: after →
        LbaCommand ((boardMachine cfg).run (setupBoard cfg img preset maxMultiple) before) e →
        ideGetSector ((boardMachine cfg).run (setupBoard cfg img preset maxMultiple) before).current =
          (readBack cfg ((boardMachine cfg).run (setupBoard cfg img preset maxMultiple) before)).toNat) ∧
      ∀ b e ch r, effect b e (ch, r) = .moved → used (b.drive ch) r = shown (b.drive ch) r →
        used ((boardStep cfg b e).1.drive ch) r ≠ shown ((boardStep cfg b e).1.drive ch) r := by
  constructor
  · intro is his before e after hsplit hcommand
    apply shown_address cfg hcommand.2.2
    intro r
    exact (addressTwins cfg).asked_settled (powerOn_sound cfg img preset maxMultiple) is his before e after
      hsplit (_, r) ⟨hcommand, rfl⟩
  · intro b e ch r hmoved hagree
    exact effect_moved cfg hmoved hagree

/-! A drive of 680 sectors. -/

def smallImage : Image where
  file := some (Stream.ofFile (grow empty 348160))
  base := 0
  lastSector := 679
  type := .raw
  loaded := true
  geometry := { spt := 17, hpc := 4, tracks := 10 }

def smallBoard : Board := setupBoard plainConfig (fun _ => smallImage) 0 32

def readSeven : List Event := [.writeb 6 0xE0, .writeb 3 7, .writeb 7 0x20]

theorem readSeven_settled :
    (addressTwins plainConfig).watched.Along (Twins.AsksSettled commandUses)
      (smallBoard, settledAtPowerOn) readSeven := by
  have hselect (r : Reg) : effect smallBoard (.writeb 6 0xE0) (false, r) = .left ∨
      effect smallBoard (.writeb 6 0xE0) (false, r) = .alike := by
    cases r <;> decide
  have hsector (r : Reg) : effect ((boardMachine plainConfig).next smallBoard (.writeb 6 0xE0)) (.writeb 3 7)
      (false, r) = if r = .sector then .alike else .left := by
    cases r <;> decide
  refine ⟨?_, ?_, ?_, trivial⟩
  · rintro c ⟨⟨⟨val, he⟩, -⟩, -⟩
    cases he
  · rintro c ⟨⟨⟨val, he⟩, -⟩, -⟩
    cases he
  · rintro ⟨ch, r⟩ ⟨-, hch⟩
    obtain rfl : ch = false := hch
    change (effect ((boardMachine plainConfig).next smallBoard (.writeb 6 0xE0)) (.writeb 3 7) (false, r)).after
      ((effect smallBoard (.writeb 6 0xE0) (false, r)).after (settledAtPowerOn (false, r)))
    rw [hsector]
    by_cases hr : r = .sector
    · rw [if_pos hr]
      trivial
    rw [if_neg hr]
    cases hselect r with
    | inl h => rw [h]; exact hr
    | inr h => rw [h]; trivial

theorem lba_shown_seven :
    ideGetSector ((boardMachine plainConfig).run smallBoard [.writeb 6 0xE0, .writeb 3 7]).current = 7 ∧
      (readBack plainConfig
        ((boardMachine plainConfig).run smallBoard [.writeb 6 0xE0, .writeb 3 7])).toNat = 7 := by
  have hseven := (lba_shown plainConfig (fun _ => smallImage) 0 32).1 readSeven readSeven_settled
    [.writeb 6 0xE0, .writeb 3 7] (.writeb 7 0x20) [] rfl ⟨⟨_, rfl⟩, by decide, by decide⟩
  have hshown : (readBack plainConfig
      ((boardMachine plainConfig).run smallBoard [.writeb 6 0xE0, .writeb 3 7])).toNat = 7 := by decide
  exact ⟨hseven.trans hshown, hshown⟩

/-- READ NATIVE MAX shows the last sector and leaves the block address at 0. -/
theorem native_max_unused :
    ¬ ∀ (cfg : BoardConfig) (img : Bool → Image) (preset : BitVec 32) (maxMultiple : Byte)
        (before : List Event) (e : Event),
      LbaCommand ((boardMachine cfg).run (setupBoard cfg img preset maxMultiple) before) e →
      ideGetSector ((boardMachine cfg).run (setupBoard cfg img preset maxMultiple) before).current =
        (readBack cfg ((boardMachine cfg).run (setupBoard cfg img preset maxMultiple) before)).toNat := by
  intro h
  have hread := h plainConfig (fun _ => smallImage) 0 32
    [.writeb 6 0xE0, .writeb 7 0xF8, .tick false .disabled] (.writeb 7 0x20)
    ⟨⟨_, rfl⟩, by decide, by decide⟩
  exact absurd hread (by decide)

end PeepeeBox.LbaRegisters
