import PeepeeBox.AtaTwins

set_option autoImplicit false

/-!
# Where an ATA command may reach

Every transfer checks its sectors against the end of the drive, FORMAT alone does not.
-/
namespace PeepeeBox.AtaRange
open AtaTwins HdcIde HddImage HostFile IdeBoard ImageBounds TraceMachine

/-- Nothing, or it stores checked sectors, or it is FORMAT. -/
inductive ImageStep (d : Drive) : Outcome → Prop where
  | left {o : Outcome} (image : o.drive.image = d.image) : ImageStep d o
  | stored {o : Outcome} (err : o.err = 0 ∨ o.err = uncErr) (s : BitVec 32) (bs : List Byte) (n : ℕ)
      (image : o.drive.image = store d.image s bs) (length : bs.length = 512 * n)
      (covers : Covers d.image s.toNat n) : ImageStep d o
  | formatted {o : Outcome} (err : o.err = 0 ∨ o.err = uncErr) (command : decode d.command = .format)
      (given : d.tf.lba = true ∨ d.cfgSpt ≠ 0)
      (image : o.drive.image = store d.image (BitVec.ofNat 32 (ideGetSectorFormat d))
        (List.replicate (512 * d.tf.secount.toNat) 0)) : ImageStep d o

theorem err_of (ok : Bool) :
    (if ok then 0 else uncErr) = (0 : Byte) ∨ (if ok then 0 else uncErr) = uncErr := by
  cases ok with
  | false => exact Or.inr rfl
  | true => exact Or.inl rfl

theorem callbackRead_image (d : Drive) : (callbackRead d).drive.image = d.image := by
  unfold callbackRead
  split
  · rfl
  · exact readSector_image d

theorem callbackReadMultiple_image (d : Drive) : (callbackReadMultiple d).drive.image = d.image := by
  unfold callbackReadMultiple
  split
  · rfl
  split
  · rfl
  · exact (countSector_image (readSector d).1).trans (readSector_image d)

theorem fetchAll_image (d : Drive) : (fetchAll d).1.image = d.image := by
  unfold fetchAll
  split
  · exact initialRead_image _ _ _
  · rfl

theorem deliver_image (cfg : BoardConfig) (dma : Dma) (count : ℕ) (r : Drive × Bool) :
    (deliver cfg dma count r).drive.image = r.1.image := by
  unfold deliver
  split
  · rfl
  split
  · cases dma with
    | disabled => rfl
    | done memory => rfl
    | failed moved => rfl
  · rfl

theorem callbackReadDma_image (cfg : BoardConfig) (dma : Dma) (d : Drive) :
    (callbackReadDma cfg dma d).drive.image = d.image := by
  rw [callbackReadDma_eq]
  split
  · rfl
  split
  · rfl
  · exact (deliver_image cfg dma _ _).trans (fetchAll_image d)

theorem bufferBytes_length (d : Drive) : (bufferBytes d).length = 512 := by
  unfold bufferBytes
  rw [List.length_map, List.length_range]

theorem writeSector_image (d : Drive) :
    (writeSector d).1.image = store d.image (BitVec.ofNat 32 (ideGetSector d)) (bufferBytes d) := by
  unfold writeSector
  dsimp only
  rw [hddImageWrite_store, List.take_of_length_le]
  rw [bufferBytes_length]
  decide

theorem covers_one {d : Drive} (h : outOfRange d = false) :
    Covers d.image (BitVec.ofNat 32 (ideGetSector d)).toNat 1 := by
  obtain ⟨hcovers, -, hcount⟩ := covers_of_range h
  rw [hcount] at hcovers
  unfold Covers sectorCount at *
  split at hcovers
  · rename_i hne
    have hpos : d.tf.secount.toNat ≠ 0 := fun h0 => hne (BitVec.eq_of_toNat_eq h0)
    omega
  · omega

theorem callbackWrite_step (d : Drive) : ImageStep d (callbackWrite d) := by
  unfold callbackWrite
  split
  · exact .left rfl
  · rename_i hrange
    refine .stored (err_of _) _ (bufferBytes d) 1 ?_ (bufferBytes_length d)
      (covers_one (Bool.eq_false_iff.mpr hrange))
    exact (afterWrite_image _).trans (writeSector_image d)

theorem callbackWriteMultiple_step (d : Drive) : ImageStep d (callbackWriteMultiple d) := by
  unfold callbackWriteMultiple
  split
  · exact .left rfl
  split
  · exact .left rfl
  · rename_i hrange
    refine .stored (err_of _) _ (bufferBytes d) 1 ?_ (bufferBytes_length d)
      (covers_one (Bool.eq_false_iff.mpr hrange))
    exact (afterWrite_image _).trans ((blockWritten_image _).trans (writeSector_image d))

theorem storeAll_image (memory : ℕ → Byte) (d : Drive) :
    ∃ bs : List Byte, bs.length = 512 * (BitVec.ofNat 32 (sectorCount d.tf)).toNat ∧
      (storeAll memory d).1.image = store d.image (BitVec.ofNat 32 (ideGetSector d)) bs := by
  have hcount : (BitVec.ofNat 32 (sectorCount d.tf)).toNat ≤ sectorCount d.tf := by
    rw [BitVec.toNat_ofNat]
    exact Nat.mod_le _ _
  refine ⟨_, ?_, hddImageWrite_store d.image _ _ _⟩
  rw [List.length_take, List.length_map, List.length_range]
  change min (512 * (BitVec.ofNat 32 (sectorCount d.tf)).toNat) (512 * sectorCount d.tf) = _
  omega

theorem callbackWriteDma_step (cfg : BoardConfig) (dma : Dma) (d : Drive) :
    ImageStep d (callbackWriteDma cfg dma d) := by
  obtain hall := fun memory => storeAll_image memory d
  unfold callbackWriteDma
  split
  · exact .left rfl
  split
  · exact .left rfl
  rename_i hrange
  obtain ⟨hcovers, -, -⟩ := covers_of_range (Bool.eq_false_iff.mpr hrange)
  split
  · cases dma with
    | disabled => exact .left rfl
    | done memory =>
      obtain ⟨bs, hlength, himage⟩ := hall memory
      exact .stored (err_of _) _ bs _ himage hlength hcovers
    | failed moved => exact .left rfl
  · exact .left rfl

theorem callbackFormat_step {d : Drive} (h : decode d.command = .format) :
    ImageStep d (callbackFormat d) := by
  unfold callbackFormat
  split
  · exact .left rfl
  · rename_i hspt
    refine .formatted (err_of _) h ?_ ?_
    · by_contra hnone
      have hlba : d.tf.lba = false := Bool.eq_false_iff.mpr fun hl => hnone (Or.inl hl)
      have hzero : d.cfgSpt = 0 := by
        by_contra hne
        exact hnone (Or.inr hne)
      apply hspt
      rw [hlba, hzero]
      rfl
    · have hsecount : (d.tf.secount.setWidth 32).toNat = d.tf.secount.toNat := by
        rw [BitVec.toNat_setWidth]
        have hlt := d.tf.secount.isLt
        omega
      have hzero := hddImageZero_store d.image (BitVec.ofNat 32 (ideGetSectorFormat d))
        (d.tf.secount.setWidth 32)
      rw [hsecount] at hzero
      exact hzero

theorem ideSetFeatures_image {cfg : BoardConfig} {d e : Drive} (h : ideSetFeatures cfg d = some e) :
    e.image = d.image := by
  have hself := ideSetFeatures_map cfg d d rfl rfl
  rw [h] at hself
  rw [Option.some.inj hself]

theorem commandCallback_step (cfg : BoardConfig) (dma : Dma) (d : Drive) :
    ImageStep d (commandCallback cfg dma d) := by
  unfold commandCallback
  cases hdecode : decode d.command with
  | read => exact .left (callbackRead_image d)
  | readMultiple => exact .left (callbackReadMultiple_image d)
  | readDma => exact .left (callbackReadDma_image cfg dma d)
  | write => exact callbackWrite_step d
  | writeMultiple => exact callbackWriteMultiple_step d
  | writeDma => exact callbackWriteDma_step cfg dma d
  | format => exact callbackFormat_step hdecode
  | seek =>
    dsimp only
    split
    · exact .left rfl
    · exact .left rfl
  | verify =>
    dsimp only
    split
    · exact .left rfl
    · exact .left rfl
  | setMultiple =>
    dsimp only
    split
    · exact .left rfl
    · exact .left rfl
  | setFeatures =>
    dsimp only
    split
    · exact .left rfl
    · rename_i hset
      have himage := ideSetFeatures_image hset
      exact .left himage
  | readNativeMax => exact .left (ideSetSector_image d _)
  | recal => exact .left rfl
  | idle => exact .left rfl
  | power => exact .left rfl
  | specify => exact .left rfl
  | identify => exact .left rfl
  | srst => exact .left rfl
  | pidentify => exact .left rfl
  | packet => exact .left rfl
  | diagnostics => exact .left rfl
  | invalid => exact .left rfl

theorem ImageStep.refused {d : Drive} {o : Outcome} (h : ImageStep d o)
    (herr : o.err = idnfErr ∨ o.err = abrtErr) : o.drive.image = d.image := by
  have hnot : ¬ (o.err = 0 ∨ o.err = uncErr) := by
    cases herr with
    | inl herr =>
      rw [herr]
      decide
    | inr herr =>
      rw [herr]
      decide
  cases h with
  | left image => exact image
  | stored err => exact absurd err hnot
  | formatted err => exact absurd err hnot

def FormatInside (d : Drive) : Prop :=
  decode d.command = .format → d.tf.lba = true ∨ d.cfgSpt ≠ 0 →
    d.tf.secount = 0 ∨ Covers d.image (ideGetSectorFormat d) d.tf.secount.toNat

theorem ImageStep.within {d : Drive} {o : Outcome} (h : ImageStep d o) (hformat : FormatInside d)
    (hcomplete : Complete d.image) : Within d.image o.drive.image := by
  cases h with
  | left image =>
    rw [image]
    exact Within.refl _
  | stored err s bs n image length covers =>
    rw [image]
    exact store_within length covers hcomplete
  | formatted err command given image =>
    rw [image]
    cases hformat command given with
    | inl hnone =>
      rw [hnone]
      exact store_nil _ _
    | inr hcovers =>
      by_cases hnone : d.tf.secount.toNat = 0
      · rw [hnone]
        exact store_nil _ _
      have hlast := d.image.lastSector.isLt
      have hsector : (BitVec.ofNat 32 (ideGetSectorFormat d)).toNat = ideGetSectorFormat d := by
        unfold Covers at hcovers
        rw [BitVec.toNat_ofNat]
        omega
      refine store_within (n := d.tf.secount.toNat) List.length_replicate ?_ hcomplete
      rw [hsector]
      exact hcovers

theorem ImageStep.complete {d : Drive} {o : Outcome} (h : ImageStep d o) (hcomplete : Complete d.image) :
    Complete o.drive.image ∧ (o.drive.image.file = none ↔ d.image.file = none) := by
  cases h with
  | left image =>
    rw [image]
    exact ⟨hcomplete, Iff.rfl⟩
  | stored err s bs n image length covers =>
    rw [image]
    exact ⟨store_complete hcomplete s bs, store_file _ s bs⟩
  | formatted err command given image =>
    rw [image]
    exact ⟨store_complete hcomplete _ _, store_file _ _ _⟩

def startCalls (prev : Byte) (d : Drive) : Option Drive :=
  match decode d.command with
  | .read =>
    if d.command = winRead ∧ prev = winSetidle1 then
      some { d with tf.atastat := bsyStat, doInitialRead := true }
    else none
  | .identify => some { d with tf.atastat := bsyStat }
  | .setFeatures => some { d with tf.atastat := bsyStat }
  | .pidentify => some { d with tf.atastat := bsyStat }
  | .setMultiple => some { d with tf.atastat := bsyStat }
  | .idle => some { d with tf.atastat := bsyStat }
  | .power => some { d with tf.atastat := bsyStat }
  | _ => none

def commandCalls (b : Board) (val : Byte) : Option Drive :=
  let d := b.current
  if busy d = true ∧ (val ≠ winVerify ∨ d.command ≠ winIdentify) then none
  else startCalls d.command { ideIrqLower d with command := val, tf.error := 0 }

def givenCalls (d : Drive) : Option Drive :=
  if d.command = winWriteMultiple ∧
      (d.speedPreset = 0 ∨ ¬ (d.blocksize ≤ d.blockcount + 1 ∨ d.tf.secount = 1)) then some d
  else none

def writeDataCalls (d : Drive) (val : BitVec 16) : Option Drive :=
  if d.command = winInvalid ∨ d.command = winPacketcmd ∨ d.tf.pos + 2 < 512 then none
  else
    givenCalls
      { d with
        buffer := Function.update d.buffer (d.tf.pos >>> 1) val, tf.pos := 0, tf.atastat := bsyStat }

def dueCalls (d : Drive) : Option Drive :=
  if d.command = winReadMultiple ∧ (d.speedPreset = 0 ∨ d.blockcount ≠ 0) then some d else none

def takenCalls (d : Drive) : Option Drive :=
  let secount := d.tf.secount - 1
  if isPioRead d.command = true ∧ secount ≠ 0 then
    let d := ideNextSector { d with tf.secount := secount }
    dueCalls { d with tf.atastat := bsyStat ||| drdyStat ||| dscStat }
  else none

def readDataCalls (d : Drive) : Option Drive :=
  if d.command = winInvalid ∨ d.command = winPacketcmd ∨ d.tf.pos + 2 < 512 then none
  else takenCalls { d with tf.pos := 0, tf.atastat := drdyStat ||| dscStat }

/-- The position a step makes a callback for, what the bus master makes of it, and the drive as
    the callback gets it; a step makes at most one. -/
def calls (b : Board) : Event → Option (Bool × Dma × Drive)
  | .writeb addr val =>
    if addr = 0 then (writeDataCalls b.current (val ++ val)).map fun d => (b.curDev, .disabled, d)
    else if addr = 7 then (commandCalls b val).map fun d => (b.curDev, .disabled, d)
    else none
  | .writeData val => (writeDataCalls b.current val).map fun d => (b.curDev, .disabled, d)
  | .readb addr =>
    if addr = 0 then (readDataCalls b.current).map fun d => (b.curDev, .disabled, d) else none
  | .readData => (readDataCalls b.current).map fun d => (b.curDev, .disabled, d)
  | .tick ch dma =>
    if (b.drive ch).timer then some (ch, dma, { b.drive ch with timer := false }) else none
  | _ => none

theorem calls_tick {b : Board} {ch : Bool} (h : (b.drive ch).timer = true) (dma : Dma) :
    calls b (.tick ch dma) = some (ch, dma, { b.drive ch with timer := false }) := if_pos h

structure ByCall (cfg : BoardConfig) (d e : Drive) (dma : Dma) (call : Option Drive) : Prop where
  image : e.image = (call.map fun f => (commandCallback cfg dma f).drive.image).getD d.image
  same : ∀ f ∈ call, f.image = d.image

theorem callbackNow_call (cfg : BoardConfig) {d f : Drive} (h : f.image = d.image) :
    ByCall cfg d (callbackNow cfg f) .disabled (some f) := by
  refine ⟨ideCallback_image cfg .disabled f, ?_⟩
  intro g hg
  rw [← Option.some.inj hg]
  exact h

theorem ByCall.none {cfg : BoardConfig} {d e : Drive} (h : e.image = d.image) (dma : Dma) :
    ByCall cfg d e dma none := ⟨h, fun _ hf => absurd hf (Option.not_mem_none _)⟩

theorem sectorGiven_call (cfg : BoardConfig) (d : Drive) :
    ByCall cfg d (sectorGiven cfg d) .disabled (givenCalls d) := by
  unfold sectorGiven givenCalls
  by_cases hcommand : d.command = winWriteMultiple
  · rw [if_pos hcommand]
    by_cases hpreset : d.speedPreset = 0
    · rw [if_pos hpreset, if_pos ⟨hcommand, Or.inl hpreset⟩]
      exact callbackNow_call cfg rfl
    rw [if_neg hpreset]
    by_cases hblock : d.blocksize ≤ d.blockcount + 1 ∨ d.tf.secount = 1
    · rw [if_pos hblock, if_neg fun h => h.2.elim hpreset fun hn => hn hblock]
      refine ByCall.none ?_ _
      rfl
    · rw [if_neg hblock, if_pos ⟨hcommand, Or.inr hblock⟩]
      exact callbackNow_call cfg rfl
  · rw [if_neg hcommand, if_neg fun h => hcommand h.1]
    refine ByCall.none ?_ _
    rfl

theorem ByCall.of_eq {cfg : BoardConfig} {d d' e : Drive} {dma : Dma} {call : Option Drive}
    (h : ByCall cfg d' e dma call) (himage : d'.image = d.image) : ByCall cfg d e dma call :=
  ⟨by rw [h.image, himage], fun f hf => (h.same f hf).trans himage⟩

theorem ideWriteData_call (cfg : BoardConfig) (d : Drive) (val : BitVec 16) :
    ByCall cfg d (ideWriteData cfg d val) .disabled (writeDataCalls d val) := by
  unfold ideWriteData writeDataCalls
  dsimp only
  by_cases hover : d.command = winInvalid
  · rw [if_pos hover, if_pos (Or.inl hover)]
    exact ByCall.none rfl _
  rw [if_neg hover]
  by_cases hpacket : d.command = winPacketcmd
  · rw [if_pos hpacket, if_pos (Or.inr (Or.inl hpacket))]
    refine ByCall.none ?_ _
    rfl
  rw [if_neg hpacket]
  by_cases hmore : d.tf.pos + 2 < 512
  · rw [if_neg (by omega), if_pos (Or.inr (Or.inr hmore))]
    refine ByCall.none ?_ _
    rfl
  · rw [if_pos (by omega), if_neg fun h => h.elim hover fun h => h.elim hpacket hmore]
    exact (sectorGiven_call cfg _).of_eq rfl

theorem sectorDue_call (cfg : BoardConfig) (d : Drive) :
    ByCall cfg d (sectorDue cfg d) .disabled (dueCalls d) := by
  unfold sectorDue dueCalls
  by_cases hcommand : d.command = winReadMultiple
  · rw [if_pos hcommand]
    by_cases hpreset : d.speedPreset = 0
    · rw [if_pos hpreset, if_pos ⟨hcommand, Or.inl hpreset⟩]
      exact callbackNow_call cfg rfl
    rw [if_neg hpreset]
    by_cases hfirst : d.blockcount = 0
    · rw [if_pos hfirst, if_neg fun h => h.2.elim hpreset fun hn => hn hfirst]
      refine ByCall.none ?_ _
      rfl
    · rw [if_neg hfirst, if_pos ⟨hcommand, Or.inr hfirst⟩]
      exact callbackNow_call cfg rfl
  · rw [if_neg hcommand, if_neg fun h => hcommand h.1]
    refine ByCall.none ?_ _
    rfl

theorem sectorTaken_call (cfg : BoardConfig) (d : Drive) :
    ByCall cfg d (sectorTaken cfg d) .disabled (takenCalls d) := by
  unfold sectorTaken takenCalls
  dsimp only
  by_cases hread : isPioRead d.command = true
  · rw [if_pos hread]
    by_cases hmore : d.tf.secount - 1 ≠ 0
    · rw [if_pos hmore, if_pos ⟨hread, hmore⟩]
      exact (sectorDue_call cfg _).of_eq (ideNextSector_image _)
    · rw [if_neg hmore, if_neg fun h => hmore h.2]
      refine ByCall.none ?_ _
      rfl
  · rw [if_neg hread, if_neg fun h => hread h.1]
    refine ByCall.none ?_ _
    rfl

theorem ideReadData_call (cfg : BoardConfig) (d : Drive) :
    ByCall cfg d (ideReadData cfg d).1 .disabled (readDataCalls d) := by
  unfold ideReadData readDataCalls
  dsimp only
  by_cases hover : d.command = winInvalid
  · rw [if_pos hover, if_pos (Or.inl hover)]
    exact ByCall.none rfl _
  rw [if_neg hover]
  by_cases hpacket : d.command = winPacketcmd
  · rw [if_pos hpacket, if_pos (Or.inr (Or.inl hpacket))]
    refine ByCall.none ?_ _
    rfl
  rw [if_neg hpacket]
  by_cases hmore : d.tf.pos + 2 < 512
  · rw [if_neg (by omega), if_pos (Or.inr (Or.inr hmore))]
    refine ByCall.none ?_ _
    rfl
  · rw [if_pos (by omega), if_neg fun h => h.elim hover fun h => h.elim hpacket hmore]
    exact (sectorTaken_call cfg _).of_eq rfl

theorem startCommand_call (cfg : BoardConfig) (prev : Byte) (d : Drive) :
    ByCall cfg d (startCommand cfg prev d) .disabled (startCalls prev d) := by
  have hstart (e : Drive) (himage : e.image = d.image) :
      ByCall cfg d (asyncReadStartCurrent cfg e) .disabled none :=
    ByCall.none ((asyncReadStartCurrent_image cfg e).trans himage) _
  have hnow (e : Drive) (himage : e.image = d.image) :
      ByCall cfg d (callbackNow cfg e) .disabled (some e) := callbackNow_call cfg himage
  have hleft (e : Drive) (himage : e.image = d.image) : ByCall cfg d e .disabled none :=
    ByCall.none himage _
  unfold startCommand startCalls
  dsimp only
  cases hdecode : decode d.command with
  | read =>
    dsimp only
    by_cases hfirst : d.command = winRead ∧ prev = winSetidle1
    · rw [if_pos hfirst, if_pos hfirst]
      exact hnow _ rfl
    · rw [if_neg hfirst, if_neg hfirst]
      exact hstart _ rfl
  | readMultiple =>
    have hfirst : ¬ (d.command = winRead ∧ prev = winSetidle1) := by
      intro h
      rw [h.1] at hdecode
      exact absurd hdecode (by decide)
    dsimp only
    rw [if_neg hfirst]
    exact hstart _ rfl
  | readDma =>
    have hfirst : ¬ (d.command = winRead ∧ prev = winSetidle1) := by
      intro h
      rw [h.1] at hdecode
      exact absurd hdecode (by decide)
    dsimp only
    rw [if_neg hfirst]
    exact hstart _ rfl
  | identify => exact hnow _ rfl
  | setFeatures => exact hnow _ rfl
  | pidentify => exact hnow _ rfl
  | setMultiple => exact hnow _ rfl
  | idle => exact hnow _ rfl
  | power => exact hnow _ rfl
  | recal => exact hleft _ rfl
  | seek => exact hleft _ rfl
  | srst => exact hleft _ rfl
  | writeMultiple => exact hleft _ rfl
  | write => exact hleft _ rfl
  | writeDma => exact hleft _ rfl
  | verify => exact hleft _ rfl
  | readNativeMax => exact hleft _ rfl
  | format => exact hleft _ rfl
  | specify => exact hleft _ rfl
  | diagnostics => exact hleft _ rfl
  | packet => exact hleft _ rfl
  | invalid => exact hleft _ rfl

def imageAfter (cfg : BoardConfig) (b : Board) (c : Bool) : Option (Bool × Dma × Drive) → Image
  | some (ch, dma, d) => if ch = c then (commandCallback cfg dma d).drive.image else (b.drive c).image
  | none => (b.drive c).image

structure BoardCall (cfg : BoardConfig) (b b' : Board) (call : Option (Bool × Dma × Drive)) :
    Prop where
  image : ∀ c, (b'.drive c).image = imageAfter cfg b c call
  same : ∀ ch dma d, call = some (ch, dma, d) → d.image = (b.drive ch).image

theorem BoardCall.none {cfg : BoardConfig} {b b' : Board}
    (h : ∀ c, (b'.drive c).image = (b.drive c).image) : BoardCall cfg b b' none :=
  ⟨h, fun _ _ _ hcall => absurd hcall.symm (Option.some_ne_none _)⟩

theorem put_drive (b : Board) (ch c : Bool) (d : Drive) :
    (b.put ch d).drive c = if ch = c then d else b.drive c := by
  unfold Board.put
  by_cases h : ch = c
  · rw [if_pos h, ← h]
    exact Function.update_self ch d b.drive
  · rw [if_neg h]
    exact Function.update_of_ne (Ne.symm h) d b.drive

theorem put_image {b : Board} {ch : Bool} {d : Drive} (h : d.image = (b.drive ch).image) (c : Bool) :
    ((b.put ch d).drive c).image = (b.drive c).image := by
  rw [put_drive]
  split
  · rename_i hc
    rw [h, hc]
  · rfl

theorem BoardCall.put {cfg : BoardConfig} {b : Board} {ch : Bool} {e : Drive} {dma : Dma}
    {call : Option Drive} (h : ByCall cfg (b.drive ch) e dma call) :
    BoardCall cfg b (b.put ch e) (call.map fun d => (ch, dma, d)) := by
  cases call with
  | none => exact BoardCall.none (put_image h.image)
  | some f =>
    refine ⟨?_, ?_⟩
    · intro c
      rw [put_drive]
      change (if ch = c then e else b.drive c).image =
        if ch = c then (commandCallback cfg dma f).drive.image else (b.drive c).image
      split
      · exact h.image
      · rfl
    · intro ch' dma' d hcall
      have heq := Option.some.inj hcall
      rw [← (Prod.mk.inj heq).1, ← (Prod.mk.inj (Prod.mk.inj heq).2).2]
      exact h.same f rfl

theorem resetting_image (d : Drive) : (resetting d).image = d.image := asyncReadFinish_image d

theorem startReset_image (b : Board) (diag c : Bool) :
    ((startReset b diag).drive c).image = (b.drive c).image := resetting_image (b.drive c)

theorem atRest_image {f : Drive → Drive} (hf : ∀ d, (f d).image = d.image) (d : Drive) :
    (atRest f d).image = d.image := by
  unfold atRest
  split
  · rfl
  · exact hf d

theorem select_image (b : Board) (ch c : Bool) : ((select b ch).drive c).image = (b.drive c).image := by
  unfold select
  split <;> rfl

theorem select_curDev (b : Board) (ch : Bool) : (select b ch).curDev = ch := by
  unfold select
  split
  · rfl
  · rename_i h
    exact (not_not.mp h).symm

theorem headWritten_image {b : Board} {ch : Bool} (hch : b.curDev = ch) (val : Byte) (c : Bool) :
    ((headWritten b ch val).drive c).image = (b.drive c).image := by
  have hset (head : Byte) (d : Drive) : (setDrvsel val head d).image = d.image := rfl
  have hfirst := @put_image b ch (atRest (setDrvsel val (val &&& 0xEF &&& 0x0F)) b.current)
    ((atRest_image (hset _) _).trans (by unfold Board.current; rw [hch]))
  unfold headWritten
  dsimp only
  rw [put_image ?_ c, hfirst c]
  rw [atRest_image (hset _), hfirst]

theorem writeDrvsel_image (b : Board) (val : Byte) (c : Bool) :
    ((writeDrvsel b val).drive c).image = (b.drive c).image := by
  rw [writeDrvsel_eq]
  split
  · exact select_image b _ c
  · exact (headWritten_image (select_curDev b _) val c).trans (select_image b _ c)

theorem writeCommand_call (cfg : BoardConfig) (b : Board) (val : Byte) :
    BoardCall cfg b (writeCommand cfg b val)
      ((commandCalls b val).map fun d => (b.curDev, .disabled, d)) := by
  unfold writeCommand commandCalls
  dsimp only
  split
  · exact BoardCall.none fun _ => rfl
  have hstart := startCommand_call cfg b.current.command
    { ideIrqLower b.current with command := val, tf.error := 0 }
  split
  · rename_i hdiag
    have hnone : startCalls b.current.command
        { ideIrqLower b.current with command := val, tf.error := 0 } = none := by
      unfold startCalls
      dsimp only
      rw [hdiag]
    rw [hnone]
    refine BoardCall.none ?_
    intro c
    rw [startReset_image]
    refine put_image ?_ c
    rfl
  · exact BoardCall.put (hstart.of_eq rfl)

theorem ideWriteb_image (cfg : BoardConfig) (b : Board) {addr : BitVec 3} (val : Byte)
    (hdata : addr ≠ 0) (hcommand : addr ≠ 7) (c : Bool) :
    ((ideWriteb cfg b addr val).drive c).image = (b.drive c).image := by
  have hlt := addr.isLt
  have hboth (f : Drive → Drive) (hf : ∀ d, (f d).image = d.image) :
      ((b.both (atRest f)).drive c).image = (b.drive c).image := atRest_image hf _
  unfold ideWriteb
  split
  · rename_i hzero
    exact absurd (BitVec.eq_of_toNat_eq hzero) hdata
  · exact hboth _ fun _ => rfl
  · exact hboth _ fun _ => rfl
  · exact hboth _ fun _ => rfl
  · exact hboth _ fun _ => rfl
  · exact hboth _ fun _ => rfl
  · exact writeDrvsel_image b val c
  · rename_i h0 h1 h2 h3 h4 h5 h6
    have hne : addr.toNat ≠ 0 ∧ addr.toNat ≠ 1 ∧ addr.toNat ≠ 2 ∧ addr.toNat ≠ 3 ∧
        addr.toNat ≠ 4 ∧ addr.toNat ≠ 5 ∧ addr.toNat ≠ 6 := ⟨h0, h1, h2, h3, h4, h5, h6⟩
    have hseven : addr.toNat = 7 := by omega
    exact absurd (BitVec.eq_of_toNat_eq hseven) hcommand

theorem ideWriteb_call (cfg : BoardConfig) (b : Board) (addr : BitVec 3) (val : Byte) :
    BoardCall cfg b (ideWriteb cfg b addr val) (calls b (.writeb addr val)) := by
  by_cases hdata : addr = 0
  · rw [hdata]
    exact BoardCall.put (ideWriteData_call cfg b.current (val ++ val))
  by_cases hcommand : addr = 7
  · rw [hcommand]
    exact writeCommand_call cfg b val
  have hnone : calls b (.writeb addr val) = none := by
    change (if addr = 0 then _ else if addr = 7 then _ else _) = _
    rw [if_neg hdata, if_neg hcommand]
  rw [hnone]
  exact BoardCall.none (ideWriteb_image cfg b val hdata hcommand)

theorem ideReadb_call (cfg : BoardConfig) (b : Board) (addr : BitVec 3) :
    BoardCall cfg b (ideReadb cfg b addr).1 (calls b (.readb addr)) := by
  by_cases hdata : addr = 0
  · rw [hdata]
    exact BoardCall.put (ideReadData_call cfg b.current)
  have hnone : calls b (.readb addr) = none := by
    change (if addr = 0 then _ else _) = _
    rw [if_neg hdata]
  rw [hnone]
  refine BoardCall.none ?_
  intro c
  unfold ideReadb
  dsimp only
  split
  · rename_i hzero
    exact absurd (BitVec.eq_of_toNat_eq hzero) hdata
  · rfl
  · rfl
  · rfl
  · rfl
  · rfl
  · rfl
  · refine put_image ?_ c
    rfl

theorem ideWriteDevctl_image (b : Board) (val : Byte) (c : Bool) :
    ((ideWriteDevctl b val).drive c).image = (b.drive c).image := by
  unfold ideWriteDevctl
  dsimp only
  split
  · rfl
  split
  · exact startReset_image _ _ c
  · rfl

theorem ideBoardCallback_image (b : Board) (c : Bool) :
    ((ideBoardCallback b).drive c).image = (b.drive c).image := by
  unfold ideBoardCallback
  dsimp only
  split
  · refine (put_image ?_ c).trans ?_
    · rfl
    · rfl
  · rfl

theorem boardStep_call (cfg : BoardConfig) (b : Board) (e : Event) :
    BoardCall cfg b (boardStep cfg b e).1 (calls b e) := by
  cases e with
  | writeb addr val => exact ideWriteb_call cfg b addr val
  | writeData val => exact BoardCall.put (ideWriteData_call cfg b.current val)
  | readb addr => exact ideReadb_call cfg b addr
  | readData => exact BoardCall.put (ideReadData_call cfg b.current)
  | readAltStatus => exact BoardCall.none fun _ => rfl
  | writeDevctl val => exact BoardCall.none (ideWriteDevctl_image b val)
  | tick ch dma =>
    unfold boardStep calls
    dsimp only
    split
    · have hcall : ByCall cfg (b.drive ch)
          (ideCallback cfg dma { b.drive ch with timer := false }).1 dma
          (some { b.drive ch with timer := false }) := by
        refine ⟨ideCallback_image cfg dma _, ?_⟩
        intro f hf
        rw [← Option.some.inj hf]
      exact BoardCall.put hcall
    · exact BoardCall.none fun _ => rfl
  | boardTick =>
    refine BoardCall.none ?_
    intro c
    unfold boardStep
    dsimp only
    split
    · exact ideBoardCallback_image _ c
    · rfl
  | fill ch n => exact BoardCall.none (put_image (asyncReadFill_image _ n))
  | work ch => exact BoardCall.none (put_image (asyncReadWork_image _))

/-- The callback of a step, if it is FORMAT's, stays on the drive. -/
def FormatsInside (b : Board) (e : Event) : Prop :=
  ∀ ch dma d, calls b e = some (ch, dma, d) → FormatInside d

theorem boardStep_within (cfg : BoardConfig) {b : Board} {e : Event} (hformat : FormatsInside b e)
    (hcomplete : ∀ c, Complete (b.drive c).image) (c : Bool) :
    Within (b.drive c).image ((boardStep cfg b e).1.drive c).image := by
  obtain ⟨himage, hsame⟩ := boardStep_call cfg b e
  rw [himage c]
  cases hcall : calls b e with
  | none => exact Within.refl _
  | some call =>
    obtain ⟨ch, dma, d⟩ := call
    change Within _ (if ch = c then (commandCallback cfg dma d).drive.image else (b.drive c).image)
    have hd := hsame ch dma d hcall
    split
    · rename_i hch
      rw [← hch, ← hd]
      refine (commandCallback_step cfg dma d).within (hformat ch dma d hcall) ?_
      rw [hd]
      exact hcomplete ch
    · exact Within.refl _

theorem run_within (cfg : BoardConfig) {b : Board} (hcomplete : ∀ c, Complete (b.drive c).image)
    (is : List Event) (hformats : (boardMachine cfg).Along FormatsInside b is) (c : Bool) :
    Within (b.drive c).image (((boardMachine cfg).run b is).drive c).image := by
  have hrun := (boardMachine cfg).run_invariant_along
    (I := fun s => ∀ c, Within (b.drive c).image (s.drive c).image)
    (?_ : ∀ s e, FormatsInside s e → _ → _) (fun c => Within.refl _) is hformats
  · exact hrun c
  · intro s e hformat hs c
    exact (hs c).trans (boardStep_within cfg hformat (fun c => (hs c).complete (hcomplete c)) c)

theorem run_quiet (cfg : BoardConfig) {b : Board} (is : List Event)
    (hquiet : (boardMachine cfg).Along (fun b e => calls b e = none) b is) (c : Bool) :
    (((boardMachine cfg).run b is).drive c).image = (b.drive c).image := by
  have hrun := (boardMachine cfg).run_invariant_along
    (I := fun s => ∀ c, (s.drive c).image = (b.drive c).image)
    (?_ : ∀ s e, calls s e = none → _ → _) (fun c => rfl) is hquiet
  · exact hrun c
  · intro s e hnone hs c
    have himage := (boardStep_call cfg s e).image c
    rw [hnone] at himage
    exact himage.trans (hs c)

/-- No command reaches outside the drive, unless it is FORMAT past the end or the file is cut:
    the file keeps its length and the bytes around the drive, the answers do not depend on those
    bytes, and a first callback that refuses its command leaves every byte. -/
theorem ata_range (cfg : BoardConfig) :
    (∀ (b : Board) (is : List Event), (∀ c, Complete (b.drive c).image) →
      (boardMachine cfg).Along FormatsInside b is →
      ∀ c, Within (b.drive c).image (((boardMachine cfg).run b is).drive c).image) ∧
    (∀ (a b : Board) (is : List Event), Twins a b →
      (boardMachine cfg).trace b is = (boardMachine cfg).trace a is) ∧
    (∀ (b : Board) (is : List Event) (e : Event) (ch : Bool) (dma : Dma) (d : Drive),
      (boardMachine cfg).Along (fun b e => calls b e = none) b is →
      calls ((boardMachine cfg).run b is) e = some (ch, dma, d) →
      (commandCallback cfg dma d).err = idnfErr ∨ (commandCallback cfg dma d).err = abrtErr →
      ∀ c, (((boardMachine cfg).run b (is ++ [e])).drive c).image = (b.drive c).image) := by
  refine ⟨fun b is hcomplete hformats c => run_within cfg hcomplete is hformats c, ?_, ?_⟩
  · intro a b is h
    have hsim : Simulation (boardMachine cfg) (boardMachine cfg) (fun _ => True) Twins :=
      ⟨fun _ _ e _ hst => (boardStep_twins cfg hst e).1,
        fun _ _ e _ hst => ((boardStep_twins cfg hst e).2).symm⟩
    exact (hsim.trace h is fun _ _ => trivial).symm
  · intro b is e ch dma d hquiet hcall herr c
    have hrest := run_quiet cfg is hquiet c
    obtain ⟨himage, hsame⟩ := boardStep_call cfg ((boardMachine cfg).run b is) e
    rw [Machine.run_append, Machine.run_cons, Machine.run_nil]
    have hstep := himage c
    rw [hcall] at hstep
    refine hstep.trans ?_
    change (if ch = c then (commandCallback cfg dma d).drive.image else _) = _
    split
    · rename_i hch
      rw [(commandCallback_step cfg dma d).refused herr, hsame ch dma d hcall, hch]
      exact hrest
    · exact hrest

/-! A drive of one sector. -/

def plainConfig : BoardConfig where
  bm := none
  forceAta3 := false
  background := true
  identify _ _ _ _ _ _ := 0

def oneSector : Image where
  file := some (Stream.ofFile (grow empty 512))
  base := 0
  lastSector := 0
  type := .raw
  loaded := true
  geometry := { spt := 1, hpc := 1, tracks := 1 }

def oneSectorBoard : Board := setupBoard plainConfig (fun _ => oneSector) 0 32

theorem oneSector_complete : Complete oneSector := by
  intro _
  change 0 + 512 * (0 + 1) ≤ 0 + 512
  exact Nat.le_refl _

/-- The same sector with a byte behind it. -/
def tailed (tail : Byte) : Image :=
  { oneSector with file := some (Stream.ofFile (write (grow empty 512) 512 [tail])) }

theorem tailed_content (tail : Byte) : contentOf (tailed tail) = write (grow empty 512) 512 [tail] :=
  write_nil _ _

theorem tailed_same (x y : Byte) : SameInside (tailed x) (tailed y) where
  file := ⟨fun h => absurd h (Option.some_ne_none _), fun h => absurd h (Option.some_ne_none _)⟩
  base := rfl
  lastSector := rfl
  geometry := rfl
  len := by rw [tailed_content, tailed_content, write_len, write_len]; rfl
  inside i hi := by
    obtain ⟨-, hhigh⟩ := hi
    change i < 0 + 512 * (0 + 1) at hhigh
    rw [tailed_content, tailed_content, write_outside _ (Or.inl (by omega)),
      write_outside _ (Or.inl (by omega))]

theorem setup_twins (cfg : BoardConfig) {i j : Bool → Image} (h : ∀ ch, SameInside (i ch) (j ch))
    (preset : BitVec 32) (maxMultiple : Byte) :
    Twins (setupBoard cfg i preset maxMultiple) (setupBoard cfg j preset maxMultiple) := by
  refine ⟨rfl, rfl, rfl, rfl, fun ch => ?_⟩
  have hon : (setupBoard cfg j preset maxMultiple).drive ch =
      on ((setupBoard cfg i preset maxMultiple).drive ch) (j ch) := by
    change setupDrive cfg (j ch) preset maxMultiple ch =
      on (setupDrive cfg (i ch) preset maxMultiple ch) (j ch)
    unfold setupDrive on
    rw [(h ch).geometry]
  rw [hon]
  exact Twin.on (j ch) (h ch) fun hpending => absurd hpending Bool.false_ne_true

theorem FormatsInside.of_none {b : Board} {e : Event} (h : (calls b e).isNone = true) :
    FormatsInside b e := by
  intro ch dma d hcall
  rw [hcall] at h
  exact absurd h Bool.false_ne_true

def readPast : List Event := [.writeb 6 0xE0, .writeb 3 1, .writeb 7 0x20]

theorem readPast_quiet :
    (boardMachine plainConfig).Along (fun b e => (calls b e).isNone = true) oneSectorBoard readPast :=
  ⟨by decide +kernel, by decide +kernel, by decide +kernel, trivial⟩

theorem ata_range_one_sector :
    (∀ c, Within oneSector (((boardMachine plainConfig).run oneSectorBoard readPast).drive c).image) ∧
    (boardMachine plainConfig).trace (setupBoard plainConfig (fun _ => tailed 7) 0 32) readPast =
      (boardMachine plainConfig).trace (setupBoard plainConfig (fun _ => tailed 0) 0 32) readPast ∧
    ∀ c, (((boardMachine plainConfig).run oneSectorBoard
      (readPast ++ [.tick false .disabled])).drive c).image = oneSector := by
  obtain ⟨hwithin, htrace, hrefused⟩ := ata_range plainConfig
  obtain ⟨h6, h3, h7, -⟩ := readPast_quiet
  refine ⟨hwithin oneSectorBoard readPast (fun _ => oneSector_complete) ?_, ?_, ?_⟩
  · exact ⟨.of_none h6, .of_none h3, .of_none h7, trivial⟩
  · exact htrace _ _ readPast (setup_twins plainConfig (fun _ => tailed_same 0 7) 0 32)
  · have htimer :
        (((boardMachine plainConfig).run oneSectorBoard readPast).drive false).timer = true := by
      decide +kernel
    refine hrefused oneSectorBoard readPast (.tick false .disabled) false .disabled
      { ((boardMachine plainConfig).run oneSectorBoard readPast).drive false with timer := false }
      ⟨Option.isNone_iff_eq_none.mp h6, Option.isNone_iff_eq_none.mp h3,
        Option.isNone_iff_eq_none.mp h7, trivial⟩ ?_ ?_
    · exact calls_tick htimer _
    · exact Or.inl (by decide +kernel)

def formatPast : List Event :=
  [.writeb 6 0xE0, .writeb 2 1, .writeb 3 1, .writeb 7 0x50] ++
    List.replicate 256 (.writeData 0) ++ [.tick false .disabled]

def formatted : Board := (boardMachine plainConfig).run oneSectorBoard formatPast

theorem formatted_len : (contentOf (formatted.drive false).image).len = 1024 := by
  decide +kernel

/-- FORMAT makes the file grow. -/
theorem format_grows :
    (∀ c, Complete (oneSectorBoard.drive c).image) ∧
      ¬ Within (oneSectorBoard.drive false).image (formatted.drive false).image := by
  refine ⟨fun _ => oneSector_complete, ?_⟩
  intro h
  have hlen := h.len
  rw [formatted_len] at hlen
  exact absurd hlen (by decide)

end PeepeeBox.AtaRange
