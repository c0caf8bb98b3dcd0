import Mathlib.Tactic.SplitIfs
import PeepeeBox.IdeBoard
import PeepeeBox.ImageBounds

set_option autoImplicit false

/-!
# Boards that differ outside their drives

Two boards whose images agree on the sectors of the drives, and may differ in the rest of the
file, take every step alike: nothing of the rest is read.
-/
namespace PeepeeBox.AtaTwins
open HdcIde HddImage HostFile IdeBoard ImageBounds TraceMachine

theorem asyncReadWork_image (d : Drive) : (asyncReadWork d).image = d.image := by
  unfold asyncReadWork
  split
  · split <;> rfl
  · rfl

theorem asyncReadFill_image (d : Drive) (n : ℕ) : (asyncReadFill d n).image = d.image := by
  unfold asyncReadFill
  split
  · split <;> rfl
  · rfl

theorem asyncReadFinish_image (d : Drive) : (asyncReadFinish d).1.image = d.image := by
  unfold asyncReadFinish
  split
  · exact asyncReadWork_image d
  · rfl

theorem asyncReadStart_image (cfg : BoardConfig) (d : Drive) (sector count : BitVec 32) :
    (asyncReadStart cfg d sector count).image = d.image := by
  unfold asyncReadStart
  split <;> rfl

theorem asyncReadStartCurrent_image (cfg : BoardConfig) (d : Drive) :
    (asyncReadStartCurrent cfg d).image = d.image := by
  unfold asyncReadStartCurrent
  split
  · rfl
  · exact asyncReadStart_image cfg d _ _

theorem initialRead_image (d : Drive) (sector count : ℕ) :
    (initialRead d sector count).1.image = d.image := by
  have hfinish := asyncReadFinish_image d
  unfold initialRead
  split
  · rename_i h
    rw [h] at hfinish
    exact hfinish
  · rename_i h
    rw [h] at hfinish
    split <;> exact hfinish

theorem readSector_image (d : Drive) : (readSector d).1.image = d.image := by
  unfold readSector loadBuffer
  cases d.doInitialRead with
  | false => rfl
  | true => exact initialRead_image _ _ _

theorem ideNextSector_image (d : Drive) : (ideNextSector d).image = d.image := by
  unfold ideNextSector
  dsimp only
  split_ifs <;> rfl

theorem afterWrite_image (d : Drive) : (afterWrite d).image = d.image := by
  unfold afterWrite
  dsimp only
  split
  · exact ideNextSector_image _
  · rfl

theorem ideSetFeatures_map (cfg : BoardConfig) (d e : Drive) (htf : e.tf = d.tf)
    (hmode : e.mdmaMode = d.mdmaMode) :
    ideSetFeatures cfg e =
      (ideSetFeatures cfg d).map fun r => { e with mdmaMode := r.mdmaMode } := by
  have hkeep : e = { e with tf := d.tf, mdmaMode := d.mdmaMode } := by rw [← htf, ← hmode]
  unfold ideSetFeatures
  rw [htf]
  dsimp only
  split
  · split
    · split_ifs <;> rfl
    · split <;> rfl
    · split <;> rfl
    · split <;> rfl
    · split <;> rfl
    · rfl
  · split
    · split
      · rfl
      · exact congrArg some hkeep
    · split
      · exact congrArg some hkeep
      · rfl

theorem ideCallback_done {cfg : BoardConfig} {dma : Dma} {d e : Drive} {data : Option (List Byte)}
    (h : commandCallback cfg dma d = { drive := e, err := 0, dma := data }) :
    ideCallback cfg dma d = (e, data) := by
  unfold ideCallback
  rw [h]
  rfl

theorem ideCallback_failed {cfg : BoardConfig} {dma : Dma} {d e : Drive} {err : Byte}
    {data : Option (List Byte)} (h : commandCallback cfg dma d = { drive := e, err := err, dma := data })
    (herr : err ≠ 0) :
    ideCallback cfg dma d =
      (ideIrqRaise
        { e with tf.atastat := drdyStat ||| errStat ||| dscStat, tf.error := err, tf.pos := 0 },
        data) := by
  unfold ideCallback
  rw [h]
  exact if_pos herr

theorem ideCallback_image (cfg : BoardConfig) (dma : Dma) (d : Drive) :
    (ideCallback cfg dma d).1.image = (commandCallback cfg dma d).drive.image := by
  unfold ideCallback
  dsimp only
  split <;> rfl

def on (d : Drive) (j : Image) : Drive := { d with image := j }

def Reach (d : Drive) : Prop :=
  d.async.pending = true → Covers d.image d.async.sector.toNat d.async.count.toNat

inductive Twin (d : Drive) : Drive → Prop where
  | on (j : Image) (same : SameInside d.image j) (reach : Reach d) : Twin d (on d j)

theorem Twin.refl {d : Drive} (h : Reach d) : Twin d d :=
  Twin.on d.image (SameInside.refl d.image) h

theorem Twin.update {d d' : Drive} {j : Image} (same : SameInside d.image j)
    (himage : d'.image = d.image) (reach : Reach d') : Twin d' (AtaTwins.on d' j) := by
  refine Twin.on j ?_ reach
  rw [himage]
  exact same

theorem Twin.map {d e : Drive} (h : Twin d e) (f : Drive → Drive)
    (hf : ∀ d j, f (AtaTwins.on d j) = AtaTwins.on (f d) j) (hreach : Reach d → Reach (f d)) :
    Twin (f d) (f e) := by
  have himage : (f d).image = d.image := by
    have hself := congrArg Drive.image (hf d d.image)
    exact hself
  cases h with
  | on j same reach =>
    rw [hf]
    exact Twin.update same himage (hreach reach)

theorem Twin.same_reset {d e : Drive} (h : Twin d e) : e.reset = d.reset := by
  cases h with
  | on j same reach => rfl

theorem Twin.same_command {d e : Drive} (h : Twin d e) : e.command = d.command := by
  cases h with
  | on j same reach => rfl

theorem Twin.same_timer {d e : Drive} (h : Twin d e) : e.timer = d.timer := by
  cases h with
  | on j same reach => rfl

theorem Twin.same_tf {d e : Drive} (h : Twin d e) : e.tf = d.tf := by
  cases h with
  | on j same reach => rfl

theorem covers_of_range {d : Drive} (h : outOfRange d = false) :
    Covers d.image (BitVec.ofNat 32 (ideGetSector d)).toNat
      (BitVec.ofNat 32 (sectorCount d.tf)).toNat ∧
      (BitVec.ofNat 32 (ideGetSector d)).toNat = ideGetSector d ∧
      (BitVec.ofNat 32 (sectorCount d.tf)).toNat = sectorCount d.tf := by
  have hlast := d.image.lastSector.isLt
  have hsecount := d.tf.secount.isLt
  have hcount : 1 ≤ sectorCount d.tf ∧ sectorCount d.tf ≤ 256 := by
    unfold sectorCount
    split
    · rename_i hne
      have hpos : d.tf.secount.toNat ≠ 0 := fun h0 => hne (BitVec.eq_of_toNat_eq h0)
      omega
    · omega
  unfold outOfRange ideGetLastSector at h
  rw [Bool.or_eq_false_iff, Bool.or_eq_false_iff, decide_eq_false_iff_not,
    decide_eq_false_iff_not] at h
  have hsector : (BitVec.ofNat 32 (ideGetSector d)).toNat = ideGetSector d := by
    rw [BitVec.toNat_ofNat]
    omega
  have hofcount : (BitVec.ofNat 32 (sectorCount d.tf)).toNat = sectorCount d.tf := by
    rw [BitVec.toNat_ofNat]
    omega
  refine ⟨?_, hsector, hofcount⟩
  unfold Covers
  omega

theorem outOfRange_on {d : Drive} {j : Image} (same : SameInside d.image j) :
    outOfRange (on d j) = outOfRange d := by
  change ((!d.tf.lba && d.cfgSpt = 0) || decide (j.lastSector.toNat < ideGetSector d) ||
    decide (j.lastSector.toNat < ideGetLastSector d)) = _
  rw [same.lastSector]
  rfl

theorem asyncReadWork_twin {d e : Drive} (h : Twin d e) :
    Twin (asyncReadWork d) (asyncReadWork e) := by
  cases h with
  | on j same reach =>
    have himage : (on d j).image = j := rfl
    have hasync : (on d j).async = d.async := rfl
    unfold asyncReadWork
    rw [himage, hasync]
    split
    · rename_i hpending
      rw [same.read (reach hpending.1)]
      cases hddImageRead d.image d.async.sector d.async.count with
      | none => exact Twin.update same rfl reach
      | some data => exact Twin.update same rfl reach
    · exact Twin.on j same reach

theorem asyncReadFill_twin {d e : Drive} (h : Twin d e) (n : ℕ) :
    Twin (asyncReadFill d n) (asyncReadFill e n) := by
  cases h with
  | on j same reach =>
    have himage : (on d j).image = j := rfl
    have hasync : (on d j).async = d.async := rfl
    unfold asyncReadFill
    rw [himage, hasync]
    split
    · rename_i hpending
      rw [same.read (reach hpending.1)]
      cases hddImageRead d.image d.async.sector d.async.count with
      | none => exact Twin.update same rfl reach
      | some data => exact Twin.update same rfl reach
    · exact Twin.on j same reach

structure Same {α : Type} (r s : Drive × α) : Prop where
  drive : Twin r.1 s.1
  answer : s.2 = r.2

theorem asyncReadFinish_same {d e : Drive} (h : Twin d e) :
    Same (asyncReadFinish d) (asyncReadFinish e) := by
  have hwork := asyncReadWork_twin h
  cases h with
  | on j same reach =>
    unfold asyncReadFinish
    change Same _ (if d.async.pending = true then _ else _)
    split
    · generalize asyncReadWork d = w at hwork
      generalize asyncReadWork (on d j) = v at hwork
      cases hwork with
      | on j same _ => exact ⟨Twin.update same rfl fun h => absurd h Bool.false_ne_true, rfl⟩
    · exact ⟨Twin.on j same reach, rfl⟩

theorem initialRead_same {d e : Drive} (h : Twin d e) {sector count : ℕ}
    (hcovers : Covers d.image (BitVec.ofNat 32 sector).toNat (BitVec.ofNat 32 count).toNat) :
    Same (initialRead d sector count) (initialRead e sector count) := by
  have himage := asyncReadFinish_image d
  have hfinish := asyncReadFinish_same h
  unfold initialRead
  generalize asyncReadFinish d = r at hfinish himage
  generalize asyncReadFinish e = s at hfinish
  obtain ⟨f, a⟩ := r
  obtain ⟨g, b⟩ := s
  obtain ⟨htwin, hanswer⟩ := hfinish
  change b = a at hanswer
  subst hanswer
  cases b with
  | some ok => exact ⟨htwin, rfl⟩
  | none =>
    change Twin f g at htwin
    cases htwin with
    | on j same reach =>
      have hread : hddImageRead (on f j).image (BitVec.ofNat 32 sector) (BitVec.ofNat 32 count) =
          hddImageRead f.image (BitVec.ofNat 32 sector) (BitVec.ofNat 32 count) := by
        refine same.read ?_
        change f.image = d.image at himage
        rw [himage]
        exact hcovers
      dsimp only
      rw [hread]
      cases hddImageRead f.image (BitVec.ofNat 32 sector) (BitVec.ofNat 32 count) with
      | none => exact ⟨Twin.on j same reach, rfl⟩
      | some data => exact ⟨Twin.update same rfl reach, rfl⟩

def fetchSectors (d : Drive) : Drive × Bool :=
  if d.doInitialRead then
    initialRead { d with doInitialRead := false, sectorPos := 0 } (ideGetSector d) (sectorCount d.tf)
  else (d, true)

def presentSector (d : Drive) : Drive :=
  { loadBuffer d with
    sectorPos := d.sectorPos + 1
    tf.pos := 0
    tf.atastat := drqStat ||| drdyStat ||| dscStat }

theorem readSector_eq (d : Drive) :
    readSector d = (presentSector (fetchSectors d).1, (fetchSectors d).2) := rfl

theorem fetchSectors_same {d e : Drive} (h : Twin d e) (hrange : outOfRange d = false) :
    Same (fetchSectors d) (fetchSectors e) := by
  obtain ⟨hcovers, -, -⟩ := covers_of_range hrange
  have hfirst := h.map (fun d => { d with doInitialRead := false, sectorPos := 0 })
    (fun _ _ => rfl) fun reach => reach
  cases h with
  | on j same reach =>
    unfold fetchSectors
    change Same _ (if d.doInitialRead = true then _ else _)
    split
    · exact initialRead_same hfirst hcovers
    · exact ⟨Twin.on j same reach, rfl⟩

theorem readSector_same {d e : Drive} (h : Twin d e) (hrange : outOfRange d = false) :
    Same (readSector d) (readSector e) := by
  have hfetch := fetchSectors_same h hrange
  rw [readSector_eq, readSector_eq]
  exact ⟨hfetch.drive.map presentSector (fun _ _ => rfl) fun reach => reach, hfetch.answer⟩

structure SameOutcome (o p : Outcome) : Prop where
  drive : Twin o.drive p.drive
  err : p.err = o.err
  dma : p.dma = o.dma

theorem SameOutcome.update {d d' : Drive} {j : Image} (same : SameInside d.image j)
    (himage : d'.image = d.image) (reach : Reach d') (err : Byte) (dma : Option (List Byte)) :
    SameOutcome { drive := d', err := err, dma := dma } { drive := on d' j, err := err, dma := dma } :=
  ⟨Twin.update same himage reach, rfl, rfl⟩

theorem SameOutcome.of_same {r s : Drive × Bool} (h : Same r s) (f : Drive → Drive)
    (hf : ∀ d j, f (on d j) = on (f d) j) (hreach : ∀ d, Reach d → Reach (f d)) :
    SameOutcome { drive := f r.1, err := if r.2 then 0 else uncErr, dma := none }
      { drive := f s.1, err := if s.2 then 0 else uncErr, dma := none } := by
  refine ⟨h.drive.map f hf (hreach _), ?_, rfl⟩
  rw [h.answer]

theorem callbackRead_same {d e : Drive} (h : Twin d e) :
    SameOutcome (callbackRead d) (callbackRead e) := by
  have hread := readSector_same h
  cases h with
  | on j same reach =>
    unfold callbackRead
    rw [outOfRange_on same]
    split
    · exact SameOutcome.update same rfl reach _ _
    · rename_i hrange
      exact SameOutcome.of_same (hread (Bool.eq_false_iff.mpr hrange)) ideIrqRaise (fun _ _ => rfl)
        fun _ reach => reach

def countSector (d : Drive) : Drive :=
  let d := if d.blockcount = 0 then ideIrqRaise d else d
  let blockcount := d.blockcount + 1
  { d with blockcount := if d.blocksize ≤ blockcount then 0 else blockcount }

theorem countSector_on (d : Drive) (j : Image) : countSector (on d j) = on (countSector d) j := by
  unfold countSector
  by_cases hfirst : d.blockcount = 0
  · rw [if_pos hfirst, if_pos (show (on d j).blockcount = 0 from hfirst)]
    rfl
  · rw [if_neg hfirst, if_neg (show (on d j).blockcount ≠ 0 from hfirst)]
    rfl

theorem countSector_async (d : Drive) : (countSector d).async = d.async := by
  unfold countSector
  dsimp only
  split <;> rfl

theorem countSector_image (d : Drive) : (countSector d).image = d.image := by
  unfold countSector
  dsimp only
  split <;> rfl

theorem Reach.of_eq {d e : Drive} (h : Reach d) (himage : e.image = d.image)
    (hasync : e.async = d.async) : Reach e := by
  unfold Reach
  rw [himage, hasync]
  exact h

theorem callbackReadMultiple_same {d e : Drive} (h : Twin d e) :
    SameOutcome (callbackReadMultiple d) (callbackReadMultiple e) := by
  have hread := readSector_same h
  cases h with
  | on j same reach =>
    unfold callbackReadMultiple
    rw [outOfRange_on same]
    change SameOutcome _ (if d.blocksize = 0 then _ else _)
    split
    · exact SameOutcome.update same rfl reach _ _
    split
    · exact SameOutcome.update same rfl reach _ _
    · rename_i hrange
      exact SameOutcome.of_same (hread (Bool.eq_false_iff.mpr hrange)) countSector countSector_on
        fun d reach => reach.of_eq (countSector_image d) (countSector_async d)

def wholeRead (d : Drive) : Drive := { d with sectorPos := sectorCount d.tf, tf.pos := 0 }

def fetchAll (d : Drive) : Drive × Bool :=
  if d.doInitialRead then
    initialRead { wholeRead d with doInitialRead := false } (ideGetSector d) (sectorCount d.tf)
  else (wholeRead d, true)

def deliver (cfg : BoardConfig) (dma : Dma) (count : ℕ) (r : Drive × Bool) : Outcome :=
  if r.2 = false then .failed r.1 uncErr
  else if cfg.bm = some true then
    let data := (List.range (512 * count)).map r.1.sectorBuffer
    match dma with
    | .disabled =>
      .plain { r.1 with tf.atastat := drqStat ||| drdyStat ||| dscStat, timer := true }
    | .done _ => { drive := ready r.1, err := 0, dma := some data }
    | .failed _ => { drive := r.1, err := abrtErr, dma := some data }
  else .failed r.1 abrtErr

theorem callbackReadDma_eq (cfg : BoardConfig) (dma : Dma) (d : Drive) :
    callbackReadDma cfg dma d =
      if cfg.forceAta3 = true ∨ cfg.bm = none then .failed d abrtErr
      else if outOfRange d then .failed d idnfErr
      else deliver cfg dma (sectorCount d.tf) (fetchAll d) := rfl

theorem fetchAll_same {d e : Drive} (h : Twin d e) (hrange : outOfRange d = false) :
    Same (fetchAll d) (fetchAll e) := by
  obtain ⟨hcovers, -, -⟩ := covers_of_range hrange
  have hset := h.map wholeRead (fun _ _ => rfl) fun reach => reach
  have hfirst := hset.map (fun d => { d with doInitialRead := false })
    (fun _ _ => rfl) fun reach => reach
  cases h with
  | on j same reach =>
    unfold fetchAll
    change Same _ (if d.doInitialRead = true then _ else _)
    split
    · exact initialRead_same hfirst hcovers
    · exact ⟨hset, rfl⟩

theorem deliver_same (cfg : BoardConfig) (dma : Dma) (count : ℕ) {r s : Drive × Bool}
    (h : Same r s) : SameOutcome (deliver cfg dma count r) (deliver cfg dma count s) := by
  obtain ⟨d, ok⟩ := r
  obtain ⟨e, ok'⟩ := s
  obtain ⟨htwin, hanswer⟩ := h
  change ok' = ok at hanswer
  subst hanswer
  change Twin d e at htwin
  cases htwin with
  | on j same reach =>
    unfold deliver
    dsimp only
    split
    · exact SameOutcome.update same rfl reach _ _
    split
    · cases dma with
      | disabled => exact ⟨Twin.update same rfl reach, rfl, rfl⟩
      | done memory => exact ⟨Twin.update same rfl reach, rfl, rfl⟩
      | failed moved => exact ⟨Twin.update same rfl reach, rfl, rfl⟩
    · exact SameOutcome.update same rfl reach _ _

theorem callbackReadDma_same (cfg : BoardConfig) (dma : Dma) {d e : Drive} (h : Twin d e) :
    SameOutcome (callbackReadDma cfg dma d) (callbackReadDma cfg dma e) := by
  have hfetch := fetchAll_same h
  rw [callbackReadDma_eq, callbackReadDma_eq]
  cases h with
  | on j same reach =>
    rw [outOfRange_on same]
    split
    · exact SameOutcome.update same rfl reach _ _
    split
    · exact SameOutcome.update same rfl reach _ _
    · rename_i hrange
      exact deliver_same cfg dma _ (hfetch (Bool.eq_false_iff.mpr hrange))

/-! Writes store the same row in both images. -/

theorem Twin.store {d : Drive} {j : Image} (same : SameInside d.image j) (reach : Reach d)
    (s : BitVec 32) (bs : List Byte) :
    Twin { d with image := ImageBounds.store d.image s bs }
      (AtaTwins.on { d with image := ImageBounds.store d.image s bs } (ImageBounds.store j s bs)) :=
  Twin.on (ImageBounds.store j s bs) (same.store s bs) reach

theorem hddImageWrite_same {i j : Image} (h : SameInside i j) (s count : BitVec 32)
    (buffer : List Byte) : (hddImageWrite j s count buffer).2 = (hddImageWrite i s count buffer).2 := by
  unfold hddImageWrite
  cases hi : i.file with
  | none => rw [h.file.mpr hi]
  | some st =>
    obtain ⟨st', hj⟩ := Option.ne_none_iff_exists'.mp fun hnone =>
      Option.some_ne_none st (hi.symm.trans (h.file.mp hnone))
    rw [hj]

theorem writeSector_same {d e : Drive} (h : Twin d e) : Same (writeSector d) (writeSector e) := by
  cases h with
  | on j same reach =>
    refine ⟨?_, hddImageWrite_same same _ _ _⟩
    unfold writeSector
    dsimp only
    rw [hddImageWrite_store, hddImageWrite_store]
    exact Twin.store same reach _ _

theorem ideNextSector_on (d : Drive) (j : Image) : ideNextSector (on d j) = on (ideNextSector d) j := by
  unfold ideNextSector on
  dsimp only
  split_ifs <;> rfl

theorem ideNextSector_async (d : Drive) : (ideNextSector d).async = d.async := by
  unfold ideNextSector
  dsimp only
  split_ifs <;> rfl

theorem afterWrite_on (d : Drive) (j : Image) : afterWrite (on d j) = on (afterWrite d) j := by
  unfold afterWrite on
  dsimp only
  split
  · exact ideNextSector_on
      { d with tf.secount := d.tf.secount - 1, tf.atastat := drqStat ||| drdyStat ||| dscStat, tf.pos := 0 } j
  · rfl

theorem afterWrite_async (d : Drive) : (afterWrite d).async = d.async := by
  unfold afterWrite
  dsimp only
  split
  · exact ideNextSector_async _
  · rfl

def blockWritten (d : Drive) : Drive :=
  if d.blocksize ≤ d.blockcount + 1 ∨ d.tf.secount = 1 then ideIrqRaise { d with blockcount := 0 }
  else { d with blockcount := d.blockcount + 1 }

theorem blockWritten_on (d : Drive) (j : Image) : blockWritten (on d j) = on (blockWritten d) j := by
  unfold blockWritten on
  dsimp only
  split <;> rfl

theorem blockWritten_async (d : Drive) : (blockWritten d).async = d.async := by
  unfold blockWritten
  split <;> rfl

theorem blockWritten_image (d : Drive) : (blockWritten d).image = d.image := by
  unfold blockWritten
  split <;> rfl

theorem callbackWrite_same {d e : Drive} (h : Twin d e) :
    SameOutcome (callbackWrite d) (callbackWrite e) := by
  have hwrite := writeSector_same h
  cases h with
  | on j same reach =>
    unfold callbackWrite
    rw [outOfRange_on same]
    split
    · exact SameOutcome.update same rfl reach _ _
    · exact SameOutcome.of_same hwrite (fun d => afterWrite (ideIrqRaise d))
        (fun d j => afterWrite_on (ideIrqRaise d) j)
        fun d reach => reach.of_eq (afterWrite_image _) (afterWrite_async _)

theorem callbackWriteMultiple_same {d e : Drive} (h : Twin d e) :
    SameOutcome (callbackWriteMultiple d) (callbackWriteMultiple e) := by
  have hwrite := writeSector_same h
  cases h with
  | on j same reach =>
    unfold callbackWriteMultiple
    rw [outOfRange_on same]
    change SameOutcome _ (if d.blocksize = 0 then _ else _)
    split
    · exact SameOutcome.update same rfl reach _ _
    split
    · exact SameOutcome.update same rfl reach _ _
    · exact SameOutcome.of_same hwrite (fun d => afterWrite (blockWritten d))
        (fun d j => by rw [blockWritten_on, afterWrite_on])
        fun d reach => reach.of_eq
          ((afterWrite_image _).trans (blockWritten_image d))
          ((afterWrite_async _).trans (blockWritten_async d))

def storeAll (memory : ℕ → Byte) (d : Drive) : Drive × Bool :=
  let data := (List.range (512 * sectorCount d.tf)).map memory
  let d := { d with sectorPos := sectorCount d.tf, sectorBuffer := overlay d.sectorBuffer data }
  let r := hddImageWrite d.image (BitVec.ofNat 32 (ideGetSector d))
    (BitVec.ofNat 32 (sectorCount d.tf)) ((List.range (512 * sectorCount d.tf)).map d.sectorBuffer)
  ({ d with image := r.1 }, r.2)

theorem storeAll_same (memory : ℕ → Byte) {d e : Drive} (h : Twin d e) :
    Same (storeAll memory d) (storeAll memory e) := by
  cases h with
  | on j same reach =>
    refine ⟨?_, hddImageWrite_same same _ _ _⟩
    unfold storeAll
    dsimp only
    rw [hddImageWrite_store, hddImageWrite_store]
    exact Twin.on _ (same.store _ _) reach

theorem callbackWriteDma_same (cfg : BoardConfig) (dma : Dma) {d e : Drive} (h : Twin d e) :
    SameOutcome (callbackWriteDma cfg dma d) (callbackWriteDma cfg dma e) := by
  have hall (memory : ℕ → Byte) := storeAll_same memory h
  cases h with
  | on j same reach =>
    unfold callbackWriteDma
    rw [outOfRange_on same]
    split
    · exact SameOutcome.update same rfl reach _ _
    split
    · exact SameOutcome.update same rfl reach _ _
    split
    · cases dma with
      | disabled => exact ⟨Twin.update same rfl reach, rfl, rfl⟩
      | done memory =>
        exact SameOutcome.of_same (hall memory) ready (fun _ _ => rfl) fun _ reach => reach
      | failed moved => exact ⟨Twin.update same rfl reach, rfl, rfl⟩
    · exact SameOutcome.update same rfl reach _ _

theorem hddImageZero_same {i j : Image} (h : SameInside i j) (s count : BitVec 32) :
    (hddImageZero j s count).2 = (hddImageZero i s count).2 := by
  unfold hddImageZero
  cases hi : i.file with
  | none => rw [h.file.mpr hi]
  | some st =>
    obtain ⟨st', hj⟩ := Option.ne_none_iff_exists'.mp fun hnone =>
      Option.some_ne_none st (hi.symm.trans (h.file.mp hnone))
    rw [hj]

def zeroed (d : Drive) : Drive × Bool :=
  let r := hddImageZero d.image (BitVec.ofNat 32 (ideGetSectorFormat d)) (d.tf.secount.setWidth 32)
  ({ d with image := r.1 }, r.2)

theorem callbackFormat_same {d e : Drive} (h : Twin d e) :
    SameOutcome (callbackFormat d) (callbackFormat e) := by
  cases h with
  | on j same reach =>
    have hzero : Same (zeroed d) (zeroed (on d j)) := by
      refine ⟨?_, hddImageZero_same same _ _⟩
      unfold zeroed
      dsimp only
      rw [hddImageZero_store, hddImageZero_store]
      exact Twin.store same reach _ _
    unfold callbackFormat
    change SameOutcome _ (if (!d.tf.lba && d.cfgSpt = 0) = true then _ else _)
    split
    · exact SameOutcome.update same rfl reach _ _
    · exact SameOutcome.of_same hzero ready (fun _ _ => rfl) fun _ reach => reach

theorem ideSetSector_on {d : Drive} {j : Image} (same : SameInside d.image j) (n : ℤ) :
    ideSetSector (on d j) n = on (ideSetSector d n) j := by
  have hj : j.geometry = d.image.geometry := same.geometry
  unfold ideSetSector on
  dsimp only
  rw [hj]
  split <;> rfl

theorem ideSetSector_async (d : Drive) (n : ℤ) : (ideSetSector d n).async = d.async := by
  unfold ideSetSector
  split <;> rfl

theorem ideSetSector_image (d : Drive) (n : ℤ) : (ideSetSector d n).image = d.image := by
  unfold ideSetSector
  split <;> rfl

theorem commandCallback_same (cfg : BoardConfig) (dma : Dma) {d e : Drive} (h : Twin d e) :
    SameOutcome (commandCallback cfg dma d) (commandCallback cfg dma e) := by
  have hread := callbackRead_same h
  have hreadMultiple := callbackReadMultiple_same h
  have hreadDma := callbackReadDma_same cfg dma h
  have hwrite := callbackWrite_same h
  have hwriteMultiple := callbackWriteMultiple_same h
  have hwriteDma := callbackWriteDma_same cfg dma h
  have hformat := callbackFormat_same h
  cases h with
  | on j same reach =>
    have hcommand : (on d j).command = d.command := rfl
    unfold commandCallback
    rw [hcommand]
    cases decode d.command with
    | read => exact hread
    | readMultiple => exact hreadMultiple
    | readDma => exact hreadDma
    | write => exact hwrite
    | writeMultiple => exact hwriteMultiple
    | writeDma => exact hwriteDma
    | format => exact hformat
    | seek =>
      dsimp only
      change SameOutcome _ (if d.tf.lba = false ∧ (d.tracks.toNat ≤ d.tf.cylinder.toNat ∨
        d.hpc.toNat ≤ d.tf.head.toNat) then _ else _)
      split
      · exact SameOutcome.update same rfl reach _ _
      · exact ⟨Twin.update same rfl reach, rfl, rfl⟩
    | verify =>
      dsimp only
      change SameOutcome _ (if (!d.tf.lba && d.cfgSpt = 0) = true then _ else _)
      split
      · exact SameOutcome.update same rfl reach _ _
      · exact ⟨Twin.update same rfl reach, rfl, rfl⟩
    | setMultiple =>
      dsimp only
      change SameOutcome _ (if d.tf.secount < 2 ∨ d.maxMultipleBlock < d.tf.secount then _ else _)
      split
      · exact SameOutcome.update same rfl reach _ _
      · exact ⟨Twin.update same rfl reach, rfl, rfl⟩
    | setFeatures =>
      dsimp only
      have hmap := ideSetFeatures_map cfg d (on d j) rfl rfl
      have hself := ideSetFeatures_map cfg d d rfl rfl
      cases hset : ideSetFeatures cfg d with
      | none =>
        rw [hset] at hmap
        rw [hmap]
        exact SameOutcome.update same rfl reach _ _
      | some f =>
        rw [hset] at hmap hself
        have hf := Option.some.inj hself
        rw [hmap, hf]
        exact ⟨Twin.update same rfl reach, rfl, rfl⟩
    | readNativeMax =>
      dsimp only
      change SameOutcome _ (Outcome.plain (ready (ideSetSector (on d j)
        ((j.geometry.spt * j.geometry.hpc * j.geometry.tracks).toInt - 1))))
      rw [same.geometry, ideSetSector_on same]
      exact ⟨Twin.update same (ideSetSector_image d _)
        (reach.of_eq (ideSetSector_image d _) (ideSetSector_async d _)), rfl, rfl⟩
    | recal => exact ⟨Twin.update same rfl reach, rfl, rfl⟩
    | idle => exact ⟨Twin.update same rfl reach, rfl, rfl⟩
    | power => exact ⟨Twin.update same rfl reach, rfl, rfl⟩
    | specify => exact ⟨Twin.update same rfl reach, rfl, rfl⟩
    | identify => exact ⟨Twin.update same rfl reach, rfl, rfl⟩
    | srst => exact ⟨Twin.on j same reach, rfl, rfl⟩
    | pidentify => exact ⟨Twin.on j same reach, rfl, rfl⟩
    | packet => exact ⟨Twin.on j same reach, rfl, rfl⟩
    | diagnostics => exact ⟨Twin.on j same reach, rfl, rfl⟩
    | invalid => exact ⟨Twin.on j same reach, rfl, rfl⟩

theorem ideCallback_same (cfg : BoardConfig) (dma : Dma) {d e : Drive} (h : Twin d e) :
    Same (ideCallback cfg dma d) (ideCallback cfg dma e) := by
  have hcommand := commandCallback_same cfg dma h
  unfold ideCallback
  dsimp only
  rw [hcommand.err]
  split
  · refine ⟨hcommand.drive.map (fun f => ideIrqRaise
      { f with
        tf.atastat := drdyStat ||| errStat ||| dscStat
        tf.error := (commandCallback cfg dma d).err
        tf.pos := 0 }) (fun _ _ => rfl) fun reach => reach, hcommand.dma⟩
  · exact ⟨hcommand.drive, hcommand.dma⟩

theorem callbackNow_twin (cfg : BoardConfig) {d e : Drive} (h : Twin d e) :
    Twin (callbackNow cfg d) (callbackNow cfg e) := (ideCallback_same cfg .disabled h).drive

theorem armed_twin {d e : Drive} (h : Twin d e) :
    Twin { d with timer := true } { e with timer := true } :=
  h.map (fun d => { d with timer := true }) (fun _ _ => rfl) fun reach => reach

theorem sectorGiven_twin (cfg : BoardConfig) {d e : Drive} (h : Twin d e) :
    Twin (sectorGiven cfg d) (sectorGiven cfg e) := by
  have hnow := callbackNow_twin cfg h
  have harmed := armed_twin h
  cases h with
  | on j same reach =>
    have hcommand : (on d j).command = d.command := rfl
    have hpreset : (on d j).speedPreset = d.speedPreset := rfl
    have hblock : (on d j).blocksize = d.blocksize := rfl
    have hcount : (on d j).blockcount = d.blockcount := rfl
    have hsecount : (on d j).tf.secount = d.tf.secount := rfl
    unfold sectorGiven
    rw [hcommand, hpreset, hblock, hcount, hsecount]
    split
    · split
      · exact hnow
      · split
        · exact harmed
        · exact hnow
    · exact harmed

theorem ideWriteData_twin (cfg : BoardConfig) {d e : Drive} (h : Twin d e) (val : BitVec 16) :
    Twin (ideWriteData cfg d val) (ideWriteData cfg e val) := by
  have hgiven := sectorGiven_twin cfg (h.map (fun d =>
    { d with
      buffer := Function.update d.buffer (d.tf.pos >>> 1) val, tf.pos := 0, tf.atastat := bsyStat })
    (fun _ _ => rfl) fun reach => reach)
  have hnext := h.map (fun d =>
    { d with buffer := Function.update d.buffer (d.tf.pos >>> 1) val, tf.pos := d.tf.pos + 2 })
    (fun _ _ => rfl) fun reach => reach
  have hpacket := h.map (fun d => { d with tf.pos := 0 }) (fun _ _ => rfl) fun reach => reach
  cases h with
  | on j same reach =>
    have hcommand : (on d j).command = d.command := rfl
    have hpos : (on d j).tf.pos = d.tf.pos := rfl
    unfold ideWriteData
    dsimp only
    rw [hcommand, hpos]
    split
    · exact Twin.on j same reach
    split
    · exact hpacket
    split
    · exact hgiven
    · exact hnext

theorem sectorDue_twin (cfg : BoardConfig) {d e : Drive} (h : Twin d e) :
    Twin (sectorDue cfg d) (sectorDue cfg e) := by
  have hnow := callbackNow_twin cfg h
  have harmed := armed_twin h
  cases h with
  | on j same reach =>
    have hcommand : (on d j).command = d.command := rfl
    have hpreset : (on d j).speedPreset = d.speedPreset := rfl
    have hcount : (on d j).blockcount = d.blockcount := rfl
    unfold sectorDue
    rw [hcommand, hpreset, hcount]
    split
    · split
      · exact hnow
      · split
        · exact harmed
        · exact hnow
    · exact harmed

theorem ideNextSector_twin {d e : Drive} (h : Twin d e) :
    Twin (ideNextSector d) (ideNextSector e) :=
  h.map ideNextSector ideNextSector_on fun reach =>
    reach.of_eq (ideNextSector_image d) (ideNextSector_async d)

theorem sectorTaken_twin (cfg : BoardConfig) {d e : Drive} (h : Twin d e) :
    Twin (sectorTaken cfg d) (sectorTaken cfg e) := by
  have hless := h.map (fun d => { d with tf.secount := d.tf.secount - 1 }) (fun _ _ => rfl)
    fun reach => reach
  have hdue := sectorDue_twin cfg ((ideNextSector_twin hless).map
    (fun d => { d with tf.atastat := bsyStat ||| drdyStat ||| dscStat }) (fun _ _ => rfl)
    fun reach => reach)
  have hlast := hless.map (fun d => { d with command := winInvalid }) (fun _ _ => rfl)
    fun reach => reach
  have hover := h.map (fun d => { d with command := winInvalid }) (fun _ _ => rfl)
    fun reach => reach
  cases h with
  | on j same reach =>
    have hcommand : (on d j).command = d.command := rfl
    have hsecount : (on d j).tf.secount = d.tf.secount := rfl
    unfold sectorTaken
    dsimp only
    rw [hcommand, hsecount]
    split
    · split
      · exact hdue
      · exact hlast
    · exact hover

theorem ideReadData_same (cfg : BoardConfig) {d e : Drive} (h : Twin d e) :
    Same (ideReadData cfg d) (ideReadData cfg e) := by
  have htaken := sectorTaken_twin cfg (h.map
    (fun d => { d with tf.pos := 0, tf.atastat := drdyStat ||| dscStat }) (fun _ _ => rfl)
    fun reach => reach)
  have hnext := h.map (fun d => { d with tf.pos := d.tf.pos + 2 }) (fun _ _ => rfl)
    fun reach => reach
  have hpacket := h.map (fun d => { d with tf.pos := 0 }) (fun _ _ => rfl) fun reach => reach
  cases h with
  | on j same reach =>
    have hcommand : (on d j).command = d.command := rfl
    have hpos : (on d j).tf.pos = d.tf.pos := rfl
    unfold ideReadData
    dsimp only
    rw [hcommand, hpos]
    split
    · exact ⟨Twin.on j same reach, rfl⟩
    split
    · exact ⟨hpacket, rfl⟩
    split
    · exact ⟨htaken, rfl⟩
    · exact ⟨hnext, rfl⟩

theorem asyncReadStart_twin (cfg : BoardConfig) {d e : Drive} (h : Twin d e)
    {sector count : BitVec 32} (hcovers : Covers d.image sector.toNat count.toNat) :
    Twin (asyncReadStart cfg d sector count) (asyncReadStart cfg e sector count) := by
  cases h with
  | on j same reach =>
    have hasync : (on d j).async = d.async := rfl
    unfold asyncReadStart
    rw [hasync]
    split
    · exact Twin.on j same reach
    · exact Twin.update same rfl fun _ => hcovers

theorem asyncReadStartCurrent_twin (cfg : BoardConfig) {d e : Drive} (h : Twin d e) :
    Twin (asyncReadStartCurrent cfg d) (asyncReadStartCurrent cfg e) := by
  have hstart (hrange : outOfRange d = false) :=
    asyncReadStart_twin cfg h (covers_of_range hrange).1
  cases h with
  | on j same reach =>
    have hcommand : (on d j).command = d.command := rfl
    have hblock : (on d j).blocksize = d.blocksize := rfl
    unfold asyncReadStartCurrent
    rw [outOfRange_on same, hcommand, hblock]
    split
    · exact Twin.on j same reach
    · rename_i hskip
      exact hstart (Bool.eq_false_iff.mpr fun hrange => hskip (Or.inl hrange))

theorem atRest_twin {f : Drive → Drive} (hf : ∀ {d e : Drive}, Twin d e → Twin (f d) (f e))
    {d e : Drive} (h : Twin d e) : Twin (atRest f d) (atRest f e) := by
  have hmoved := hf h
  cases h with
  | on j same reach =>
    have hbusy : busy (on d j) = busy d := rfl
    unfold atRest
    rw [hbusy]
    split
    · exact Twin.on j same reach
    · exact hmoved

theorem startCommand_twin (cfg : BoardConfig) (prev : Byte) {d e : Drive} (h : Twin d e) :
    Twin (startCommand cfg prev d) (startCommand cfg prev e) := by
  have hlater (stat : Byte) {d e : Drive} (h : Twin d e) :
      Twin { d with tf.atastat := stat, timer := true } { e with tf.atastat := stat, timer := true } :=
    h.map (fun d => { d with tf.atastat := stat, timer := true }) (fun _ _ => rfl) fun reach => reach
  have hnow : Twin (callbackNow cfg { d with tf.atastat := bsyStat })
      (callbackNow cfg { e with tf.atastat := bsyStat }) :=
    callbackNow_twin cfg
      (h.map (fun d => { d with tf.atastat := bsyStat }) (fun _ _ => rfl) fun reach => reach)
  have hzero := h.map (fun d => { d with blockcount := 0 }) (fun _ _ => rfl) fun reach => reach
  have hwanted {d e : Drive} (h : Twin d e) :
      Twin { d with tf.atastat := drqStat ||| dscStat ||| drdyStat, tf.pos := 0 }
        { e with tf.atastat := drqStat ||| dscStat ||| drdyStat, tf.pos := 0 } :=
    h.map (fun d => { d with tf.atastat := drqStat ||| dscStat ||| drdyStat, tf.pos := 0 })
      (fun _ _ => rfl) fun reach => reach
  have hfetched {d e : Drive} (h : Twin d e) :
      Twin
        (if d.command = winRead ∧ prev = winSetidle1 then
          callbackNow cfg { d with tf.atastat := bsyStat, doInitialRead := true }
        else asyncReadStartCurrent cfg
          { { d with tf.atastat := bsyStat, doInitialRead := true } with timer := true })
        (if e.command = winRead ∧ prev = winSetidle1 then
          callbackNow cfg { e with tf.atastat := bsyStat, doInitialRead := true }
        else asyncReadStartCurrent cfg
          { { e with tf.atastat := bsyStat, doInitialRead := true } with timer := true }) := by
    have hbusy := h.map (fun d => { d with tf.atastat := bsyStat, doInitialRead := true })
      (fun _ _ => rfl) fun reach => reach
    have hfirst := callbackNow_twin cfg hbusy
    have hstart := asyncReadStartCurrent_twin cfg (armed_twin hbusy)
    cases h with
    | on j same reach =>
      have hcommand : (on d j).command = d.command := rfl
      rw [hcommand]
      split
      · exact hfirst
      · exact hstart
  have hpacket := hlater bsyStat
    (h.map (fun d => { d with tf.pos := 0 }) (fun _ _ => rfl) fun reach => reach)
  have hfilled := h.map (fun d => { d with tf.atastat := drqStat, tf.pos := 0 }) (fun _ _ => rfl)
    fun reach => reach
  have hbad := h.map (fun d =>
      ideIrqRaise { d with tf.atastat := drdyStat ||| errStat ||| dscStat, tf.error := abrtErr })
    (fun _ _ => rfl) fun reach => reach
  have hdecode : decode e.command = decode d.command := congrArg decode h.same_command
  unfold startCommand
  dsimp only
  rw [hdecode]
  cases decode d.command with
  | recal => exact hlater _ h
  | seek => exact hlater _ h
  | srst => exact hlater _ h
  | readMultiple => exact hfetched hzero
  | read => exact hfetched h
  | readDma => exact hfetched h
  | writeMultiple => exact hwanted hzero
  | write => exact hwanted h
  | writeDma => exact hlater _ h
  | verify => exact hlater _ h
  | identify => exact hnow
  | setFeatures => exact hnow
  | readNativeMax => exact hlater _ h
  | format => exact hfilled
  | specify => exact hlater _ h
  | diagnostics => exact h
  | pidentify => exact hnow
  | setMultiple => exact hnow
  | idle => exact hnow
  | power => exact hnow
  | packet => exact hpacket
  | invalid => exact hbad

structure Twins (a b : Board) : Prop where
  devctl : b.devctl = a.devctl
  curDev : b.curDev = a.curDev
  diag : b.diag = a.diag
  timer : b.timer = a.timer
  drive : ∀ ch, Twin (a.drive ch) (b.drive ch)

theorem Twins.current {a b : Board} (h : Twins a b) : Twin a.current b.current := by
  unfold Board.current
  rw [h.curDev]
  exact h.drive a.curDev

theorem Twins.put {a b : Board} (h : Twins a b) (ch : Bool) {d e : Drive} (hd : Twin d e) :
    Twins (a.put ch d) (b.put ch e) := by
  refine ⟨h.devctl, h.curDev, h.diag, h.timer, ?_⟩
  intro c
  unfold Board.put
  by_cases hc : c = ch
  · rw [hc]
    simpa using hd
  · simpa [hc] using h.drive c

theorem Twins.both {a b : Board} (h : Twins a b) {f : Drive → Drive}
    (hf : ∀ {d e : Drive}, Twin d e → Twin (f d) (f e)) : Twins (a.both f) (b.both f) :=
  ⟨h.devctl, h.curDev, h.diag, h.timer, fun ch => hf (h.drive ch)⟩

theorem Twins.map {a b : Board} (h : Twins a b) (f : Drive → Drive)
    (hf : ∀ d j, f (on d j) = on (f d) j) (hreach : ∀ d, Reach d → Reach (f d)) :
    Twins (a.both f) (b.both f) :=
  h.both fun hd => hd.map f hf (hreach _)

theorem resetting_twin {d e : Drive} (h : Twin d e) : Twin (resetting d) (resetting e) :=
  (asyncReadFinish_same h).drive.map (fun f =>
      { ideSetSignature f with
        tf.atastat := bsyStat
        tf.error := 1
        timer := false }) (fun _ _ => rfl) fun reach => reach

theorem startReset_twins {a b : Board} (h : Twins a b) (diag : Bool) :
    Twins (startReset a diag) (startReset b diag) := by
  have hboth := h.both resetting_twin
  have hcur : (b.both resetting).curDev = (a.both resetting).curDev := h.curDev
  unfold startReset
  dsimp only
  rw [hcur]
  refine ⟨hboth.devctl, rfl, rfl, rfl, ?_⟩
  intro ch
  exact (hboth.drive ch).map (fun d =>
      { d with selected := !ch, reset := d.reset || ch == ((a.both resetting).curDev && !diag) })
    (fun _ _ => rfl) fun reach => reach

theorem ideResetRegisters_twin {d e : Drive} (h : Twin d e) :
    Twin (ideResetRegisters d) (ideResetRegisters e) :=
  h.map ideResetRegisters (fun _ _ => rfl) fun reach => reach

def setDrvsel (val head : Byte) (d : Drive) : Drive :=
  { d with
    tf.drvsel := val &&& 0xEF
    lbaAddr := d.lbaAddr &&& 0x0FFFFFF ||| head.setWidth 32 <<< 24 }

theorem setDrvsel_twin (val head : Byte) {d e : Drive} (h : Twin d e) :
    Twin (setDrvsel val head d) (setDrvsel val head e) :=
  h.map (setDrvsel val head) (fun _ _ => rfl) fun reach => reach

def select (b : Board) (ch : Bool) : Board :=
  if ch ≠ b.curDev then
    { b with curDev := ch, drive := fun c => { b.drive c with selected := c == ch } }
  else b

theorem select_twins {a b : Board} (h : Twins a b) (ch : Bool) :
    Twins (select a ch) (select b ch) := by
  unfold select
  rw [h.curDev]
  split
  · refine ⟨h.devctl, rfl, h.diag, h.timer, ?_⟩
    intro c
    exact (h.drive c).map (fun d => { d with selected := c == ch }) (fun _ _ => rfl)
      fun reach => reach
  · exact h

def headWritten (b : Board) (ch : Bool) (val : Byte) : Board :=
  let b := b.put ch (atRest (setDrvsel val (val &&& 0xEF &&& 0x0F)) b.current)
  b.put (!ch) (atRest (setDrvsel val b.current.tf.head) (b.drive !ch))

theorem writeDrvsel_eq (b : Board) (val : Byte) :
    writeDrvsel b val =
      if val.getLsbD 4 ≠ b.curDev ∧ (((select b (val.getLsbD 4)).drive false).reset = true ∨
          ((select b (val.getLsbD 4)).drive true).reset = true) then
        { (select b (val.getLsbD 4)).both ideResetRegisters with timer := false }
      else headWritten (select b (val.getLsbD 4)) (val.getLsbD 4) val := rfl

theorem headWritten_twins {a b : Board} (h : Twins a b) (ch : Bool) (val : Byte) :
    Twins (headWritten a ch val) (headWritten b ch val) := by
  have hput := h.put ch (atRest_twin (setDrvsel_twin val (val &&& 0xEF &&& 0x0F)) h.current)
  unfold headWritten
  dsimp only
  rw [hput.current.same_tf]
  exact hput.put _ (atRest_twin (setDrvsel_twin val _) (hput.drive _))

theorem writeDrvsel_twins {a b : Board} (h : Twins a b) (val : Byte) :
    Twins (writeDrvsel a val) (writeDrvsel b val) := by
  have hselect := select_twins h (val.getLsbD 4)
  have hboth := hselect.both ideResetRegisters_twin
  rw [writeDrvsel_eq, writeDrvsel_eq, h.curDev, (hselect.drive false).same_reset,
    (hselect.drive true).same_reset]
  split
  · exact ⟨hboth.devctl, hboth.curDev, hboth.diag, rfl, hboth.drive⟩
  · exact headWritten_twins hselect _ val

theorem writeCommand_twins (cfg : BoardConfig) {a b : Board} (h : Twins a b) (val : Byte) :
    Twins (writeCommand cfg a val) (writeCommand cfg b val) := by
  have hcurrent := h.current
  have haccepted := hcurrent.map (fun d => { ideIrqLower d with command := val, tf.error := 0 })
    (fun _ _ => rfl) fun reach => reach
  have hbusy : busy b.current = busy a.current := by
    unfold busy
    rw [hcurrent.same_tf]
  have hcommand := hcurrent.same_command
  unfold writeCommand
  dsimp only
  rw [hbusy, hcommand, h.curDev]
  split
  · exact h
  split
  · exact startReset_twins (h.put _ haccepted) true
  · exact h.put _ (startCommand_twin cfg _ haccepted)

theorem ideWriteb_twins (cfg : BoardConfig) {a b : Board} (h : Twins a b) (addr : BitVec 3)
    (val : Byte) : Twins (ideWriteb cfg a addr val) (ideWriteb cfg b addr val) := by
  have hdata := h.put a.curDev (ideWriteData_twin cfg h.current (val ++ val))
  unfold ideWriteb
  rw [h.curDev]
  split
  · exact hdata
  · exact h.both (atRest_twin fun h => h.map _ (fun _ _ => rfl) fun reach => reach)
  · exact h.both (atRest_twin fun h => h.map _ (fun _ _ => rfl) fun reach => reach)
  · exact h.both (atRest_twin fun h => h.map _ (fun _ _ => rfl) fun reach => reach)
  · exact h.both (atRest_twin fun h => h.map _ (fun _ _ => rfl) fun reach => reach)
  · exact h.both (atRest_twin fun h => h.map _ (fun _ _ => rfl) fun reach => reach)
  · exact writeDrvsel_twins h val
  · exact writeCommand_twins cfg h val

theorem ideReadb_twins (cfg : BoardConfig) {a b : Board} (h : Twins a b) (addr : BitVec 3) :
    Twins (ideReadb cfg a addr).1 (ideReadb cfg b addr).1 ∧
      (ideReadb cfg b addr).2 = (ideReadb cfg a addr).2 := by
  have hread := ideReadData_same cfg h.current
  have hlower := h.current.map ideIrqLower (fun _ _ => rfl) fun reach => reach
  have htf := h.current.same_tf
  unfold ideReadb
  dsimp only
  rw [h.curDev, htf, hread.answer]
  split
  · exact ⟨h.put _ hread.drive, rfl⟩
  · exact ⟨h, rfl⟩
  · exact ⟨h, rfl⟩
  · exact ⟨h, rfl⟩
  · exact ⟨h, rfl⟩
  · exact ⟨h, rfl⟩
  · exact ⟨h, rfl⟩
  · exact ⟨h.put _ hlower, rfl⟩

theorem ideWriteDevctl_twins {a b : Board} (h : Twins a b) (val : Byte) :
    Twins (ideWriteDevctl a val) (ideWriteDevctl b val) := by
  have hquiet : Twins { a with diag := false } { b with diag := false } :=
    ⟨h.devctl, h.curDev, rfl, h.timer, h.drive⟩
  have hhold := hquiet.map (fun d =>
    { d with tf.atastat := bsyStat, tf.error := 1, timer := false }) (fun _ _ => rfl)
    fun _ reach => reach
  have hstart := startReset_twins hquiet false
  have hset {a b : Board} (h : Twins a b) : Twins { a with devctl := val } { b with devctl := val } :=
    ⟨rfl, h.curDev, h.diag, h.timer, h.drive⟩
  unfold ideWriteDevctl
  dsimp only
  rw [h.devctl] at hhold hstart hquiet ⊢
  apply hset
  split
  · exact hhold
  split
  · exact hstart
  · exact hquiet

theorem ideBoardCallback_twins {a b : Board} (h : Twins a b) :
    Twins (ideBoardCallback a) (ideBoardCallback b) := by
  have hboth := h.map (fun d => { d with tf.atastat := drdyStat ||| dscStat, reset := false })
    (fun _ _ => rfl) fun _ reach => reach
  have hdone : Twins
      { a.both fun d => { d with tf.atastat := drdyStat ||| dscStat, reset := false } with
        curDev := false }
      { b.both fun d => { d with tf.atastat := drdyStat ||| dscStat, reset := false } with
        curDev := false } := ⟨hboth.devctl, rfl, hboth.diag, hboth.timer, hboth.drive⟩
  have hraise := hdone.put false ((hdone.drive false).map ideIrqRaise (fun _ _ => rfl)
    fun reach => reach)
  have hdiag := h.diag
  unfold ideBoardCallback
  dsimp only
  change Twins (if a.diag = true then _ else _) (if b.diag = true then _ else _)
  rw [hdiag]
  split
  · exact ⟨hraise.devctl, hraise.curDev, rfl, hraise.timer, hraise.drive⟩
  · exact hdone

theorem boardStep_twins (cfg : BoardConfig) {a b : Board} (h : Twins a b) (e : Event) :
    Twins (boardStep cfg a e).1 (boardStep cfg b e).1 ∧
      (boardStep cfg b e).2 = (boardStep cfg a e).2 := by
  have hcurrent := h.current
  cases e with
  | writeb addr val => exact ⟨ideWriteb_twins cfg h addr val, rfl⟩
  | writeData val =>
    unfold boardStep
    dsimp only
    rw [h.curDev]
    exact ⟨h.put _ (ideWriteData_twin cfg hcurrent val), rfl⟩
  | readb addr =>
    obtain ⟨hboard, hval⟩ := ideReadb_twins cfg h addr
    refine ⟨hboard, ?_⟩
    unfold boardStep
    dsimp only
    rw [hval]
  | readData =>
    have hread := ideReadData_same cfg hcurrent
    unfold boardStep
    dsimp only
    rw [h.curDev, hread.answer]
    exact ⟨h.put _ hread.drive, rfl⟩
  | readAltStatus =>
    unfold boardStep
    dsimp only
    rw [hcurrent.same_tf]
    exact ⟨h, rfl⟩
  | writeDevctl val => exact ⟨ideWriteDevctl_twins h val, rfl⟩
  | tick ch dma =>
    have hdrive := h.drive ch
    have hcallback := ideCallback_same cfg dma
      (hdrive.map (fun d => { d with timer := false }) (fun _ _ => rfl) fun reach => reach)
    unfold boardStep
    dsimp only
    rw [hdrive.same_timer]
    split
    · refine ⟨h.put ch hcallback.drive, ?_⟩
      dsimp only
      rw [hcallback.answer]
    · exact ⟨h, rfl⟩
  | boardTick =>
    have hoff : Twins { a with timer := false } { b with timer := false } :=
      ⟨h.devctl, h.curDev, h.diag, rfl, h.drive⟩
    unfold boardStep
    dsimp only
    rw [h.timer]
    split
    · exact ⟨ideBoardCallback_twins hoff, rfl⟩
    · exact ⟨h, rfl⟩
  | fill ch n => exact ⟨h.put ch (asyncReadFill_twin (h.drive ch) n), rfl⟩
  | work ch => exact ⟨h.put ch (asyncReadWork_twin (h.drive ch)), rfl⟩

end PeepeeBox.AtaTwins
