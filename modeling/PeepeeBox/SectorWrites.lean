import Mathlib.Data.Nat.Find
import PeepeeBox.AtaRange
import PeepeeBox.DataPort
import PeepeeBox.SectorStepping

set_option autoImplicit false

/-!
# Sectors written one by one

WRITE SECTORS and WRITE MULTIPLE: each sector of data goes to the sector the registers name by
then.
-/
namespace PeepeeBox.SectorWrites
open AtaRange AtaTwins DataPort HdcIde HddImage HostFile IdeBoard ImageBounds SectorStepping
open TraceMachine

def IsWrite (c : Byte) : Prop := c = 0x30 ∨ c = 0x31 ∨ c = winWriteMultiple

theorem IsWrite.moves {c : Byte} (h : IsWrite c) : Moves c := by
  rcases h with rfl | rfl | rfl
  · exact ⟨by decide, by decide⟩
  · exact ⟨by decide, by decide⟩
  · exact ⟨by decide, by decide⟩

theorem sectorCount_pos (tf : Tf) : 1 ≤ sectorCount tf ∧ sectorCount tf ≤ 256 := by
  have hlt := tf.secount.isLt
  unfold sectorCount
  split
  · rename_i hne
    have hpos : tf.secount.toNat ≠ 0 := fun h0 => hne (BitVec.eq_of_toNat_eq h0)
    omega
  · omega

theorem outOfRange_index {d : Drive} (h : (placeOf d).Valid) :
    outOfRange d = false ↔ (placeOf d).index + sectorCount d.tf ≤ d.image.lastSector.toNat + 1 := by
  have hcount := sectorCount_pos d.tf
  have hspt : d.cfgSpt ≠ 0 := by
    intro h0
    have hpos : 1 ≤ d.cfgSpt.toNat := h.spt.1
    rw [h0] at hpos
    exact absurd hpos (by decide)
  unfold outOfRange ideGetLastSector
  rw [ideGetSector_index, decide_eq_false hspt, Bool.and_false, Bool.false_or,
    Bool.or_eq_false_iff, decide_eq_false_iff_not, decide_eq_false_iff_not]
  omega

theorem ideNextSector_fields (d : Drive) :
    ∃ (sector drvsel : Byte) (cylinder : BitVec 16) (addr : BitVec 32),
      ideNextSector d =
        { d with
          tf := { d.tf with sector := sector, drvsel := drvsel, cylinder := cylinder }
          lbaAddr := addr } := by
  unfold ideNextSector
  dsimp only
  split_ifs
  · exact ⟨_, _, _, _, rfl⟩
  · exact ⟨_, _, _, _, rfl⟩
  · exact ⟨_, _, _, _, rfl⟩
  · exact ⟨_, _, _, _, rfl⟩

theorem afterWrite_more {d : Drive} (hmore : d.tf.secount - 1 ≠ 0) (hvalid : (placeOf d).Valid) :
    ∃ (sector drvsel : Byte) (cylinder : BitVec 16) (addr : BitVec 32),
      afterWrite d =
        { d with
          tf :=
            { d.tf with
              secount := d.tf.secount - 1, atastat := drqStat ||| drdyStat ||| dscStat, pos := 0
              sector := sector, drvsel := drvsel, cylinder := cylinder }
          lbaAddr := addr } ∧
      placeOf (afterWrite d) = (placeOf d).next := by
  have hafter : afterWrite d = ideNextSector
      { d with
        tf.secount := d.tf.secount - 1, tf.atastat := drqStat ||| drdyStat ||| dscStat, tf.pos := 0 } := by
    unfold afterWrite
    exact if_pos hmore
  obtain ⟨sector, drvsel, cylinder, addr, hfields⟩ := ideNextSector_fields
    { d with
      tf.secount := d.tf.secount - 1, tf.atastat := drqStat ||| drdyStat ||| dscStat, tf.pos := 0 }
  refine ⟨sector, drvsel, cylinder, addr, hafter.trans hfields, ?_⟩
  rw [hafter]
  exact ideNextSector_place hvalid

theorem afterWrite_last {d : Drive} (hlast : d.tf.secount - 1 = 0) :
    afterWrite d =
      { d with
        tf.secount := d.tf.secount - 1, tf.atastat := drdyStat ||| dscStat, command := winInvalid } := by
  unfold afterWrite
  exact if_neg (not_not.mpr hlast)

theorem hddImageWrite_ok {img : Image} (hfile : img.file ≠ none) (s count : BitVec 32)
    (buffer : List Byte) : (hddImageWrite img s count buffer).2 = true := by
  obtain ⟨st, hst⟩ := Option.ne_none_iff_exists'.mp hfile
  unfold hddImageWrite
  rw [hst]

theorem write_callback (cfg : BoardConfig) (dma : Dma) {d : Drive} (hcommand : IsWrite d.command)
    (hblock : 0 < d.blocksize) (hrange : outOfRange d = false) (hfile : d.image.file ≠ none) :
    ∃ (irqstat service : Bool) (blockcount : ℕ),
      (ideCallback cfg dma d).1 = afterWrite
        { d with
          image := store d.image (BitVec.ofNat 32 (ideGetSector d)) (bufferBytes d)
          irqstat := irqstat
          service := service
          blockcount := blockcount } := by
  have himage := writeSector_image d
  have hok : (writeSector d).2 = true := hddImageWrite_ok hfile _ _ _
  have hwrote : (writeSector d).1 = { d with
      image := store d.image (BitVec.ofNat 32 (ideGetSector d)) (bufferBytes d) } := by
    rw [← himage]
    rfl
  have hsingle (hdecode : decode d.command = .write) :
      (ideCallback cfg dma d).1 = afterWrite (ideIrqRaise (writeSector d).1) := by
    have hcallback : commandCallback cfg dma d =
        { drive := afterWrite (ideIrqRaise (writeSector d).1), err := 0, dma := none } := by
      unfold commandCallback callbackWrite
      rw [hdecode]
      dsimp only
      rw [if_neg (Bool.eq_false_iff.mp hrange), if_pos hok]
    rw [ideCallback_done hcallback]
  rcases hcommand with hc | hc | hc
  · have hdecode : decode d.command = .write := by
      rw [hc]
      decide
    rw [hsingle hdecode, hwrote]
    exact ⟨true, d.service || true, d.blockcount, rfl⟩
  · have hdecode : decode d.command = .write := by
      rw [hc]
      decide
    rw [hsingle hdecode, hwrote]
    exact ⟨true, d.service || true, d.blockcount, rfl⟩
  · have hdecode : decode d.command = .writeMultiple := by
      rw [hc]
      decide
    have hmultiple : (ideCallback cfg dma d).1 = afterWrite (blockWritten (writeSector d).1) := by
      have hcallback : commandCallback cfg dma d =
          { drive := afterWrite (blockWritten (writeSector d).1), err := 0, dma := none } := by
        unfold commandCallback callbackWriteMultiple
        rw [hdecode]
        dsimp only
        rw [if_neg (by omega), if_neg (Bool.eq_false_iff.mp hrange), if_pos hok]
        rfl
      rw [ideCallback_done hcallback]
    rw [hmultiple, hwrote]
    unfold blockWritten
    split
    · exact ⟨true, d.service || true, 0, rfl⟩
    · exact ⟨d.irqstat, d.service, d.blockcount + 1, rfl⟩

theorem write_refused (cfg : BoardConfig) (dma : Dma) {d : Drive} (hcommand : IsWrite d.command)
    (hblock : 0 < d.blocksize) (hrange : outOfRange d = true) :
    (ideCallback cfg dma d).1 = ideIrqRaise
      { d with tf.atastat := drdyStat ||| errStat ||| dscStat, tf.error := idnfErr, tf.pos := 0 } := by
  have hcallback : commandCallback cfg dma d = .failed d idnfErr := by
    have hsingle (hdecode : decode d.command = .write) :
        commandCallback cfg dma d = .failed d idnfErr := by
      unfold commandCallback callbackWrite
      rw [hdecode]
      exact if_pos hrange
    rcases hcommand with hc | hc | hc
    · refine hsingle ?_
      rw [hc]
      decide
    · refine hsingle ?_
      rw [hc]
      decide
    · have hdecode : decode d.command = .writeMultiple := by
        rw [hc]
        decide
      unfold commandCallback callbackWriteMultiple
      rw [hdecode]
      dsimp only
      rw [if_neg (by omega), if_pos hrange]
  rw [ideCallback_failed hcallback (by decide)]

theorem ideNextSector_timer (d : Drive) : (ideNextSector d).timer = d.timer := by
  obtain ⟨sector, drvsel, cylinder, addr, hfields⟩ := ideNextSector_fields d
  rw [hfields]

theorem afterWrite_timer (d : Drive) : (afterWrite d).timer = d.timer := by
  unfold afterWrite
  dsimp only
  split
  · exact ideNextSector_timer _
  · rfl

theorem write_timer (cfg : BoardConfig) (dma : Dma) {d : Drive} (hcommand : IsWrite d.command)
    (hblock : 0 < d.blocksize) (hfile : d.image.file ≠ none) :
    (ideCallback cfg dma d).1.timer = d.timer := by
  cases hrange : outOfRange d with
  | false =>
    obtain ⟨irqstat, service, blockcount, hcallback⟩ :=
      write_callback cfg dma hcommand hblock hrange hfile
    rw [hcallback, afterWrite_timer]
  | true =>
    rw [write_refused cfg dma hcommand hblock hrange]
    rfl

def sectorIn (ch : Bool) (ws : List (BitVec 16)) : List Event :=
  ws.map .writeData ++ [.tick ch .disabled]

def given (d : Drive) (ws : List (BitVec 16)) : Drive :=
  { d with buffer := fill d.buffer 0 ws, tf.pos := 0, tf.atastat := bsyStat }

def written (cfg : BoardConfig) (d : Drive) (ws : List (BitVec 16)) : Drive :=
  (ideCallback cfg .disabled (given d ws)).1

theorem sectorGiven_cases (cfg : BoardConfig) (d : Drive) :
    sectorGiven cfg d = callbackNow cfg d ∨ sectorGiven cfg d = { d with timer := true } := by
  unfold sectorGiven
  split
  · split
    · exact Or.inl rfl
    · split
      · exact Or.inr rfl
      · exact Or.inl rfl
  · exact Or.inr rfl

theorem run_sectorIn (cfg : BoardConfig) {b : Board} (hcommand : IsWrite b.current.command)
    (hpos : b.current.tf.pos = 0) (htimer : b.current.timer = false)
    (hblock : 0 < b.current.blocksize) (hfile : b.current.image.file ≠ none)
    {ws : List (BitVec 16)} (hlength : ws.length = 256) :
    (boardMachine cfg).run b (sectorIn b.curDev ws) = b.put b.curDev (written cfg b.current ws) := by
  unfold sectorIn
  rw [Machine.run_append, run_writes, writes_sector cfg hcommand.moves hpos hlength]
  change (boardMachine cfg).next
    (b.put b.curDev (sectorGiven cfg (given b.current ws))) (.tick b.curDev .disabled) = _
  have hdrive : (b.put b.curDev (sectorGiven cfg (given b.current ws))).drive b.curDev =
      sectorGiven cfg (given b.current ws) := current_put b _
  cases sectorGiven_cases cfg (given b.current ws) with
  | inl hnow =>
    rw [tick_off cfg]
    · rw [hnow]
      rfl
    · rw [hdrive, hnow]
      exact (write_timer cfg .disabled (d := given b.current ws) hcommand hblock hfile).trans htimer
  | inr hlater =>
    rw [tick_armed cfg, hdrive, hlater, put_put]
    · congr 3
      change { given b.current ws with timer := false } = given b.current ws
      rw [← htimer]
      rfl
    · rw [hdrive, hlater]

theorem run_sectorIn_over (cfg : BoardConfig) {b : Board} (hcommand : b.current.command = winInvalid)
    (htimer : b.current.timer = false) (ws : List (BitVec 16)) :
    (boardMachine cfg).run b (sectorIn b.curDev ws) = b := by
  have hwords : ws.foldl (ideWriteData cfg) b.current = b.current := by
    induction ws with
    | nil => rfl
    | cons w ws ih =>
      have hfirst : ideWriteData cfg b.current w = b.current := if_pos hcommand
      rw [List.foldl_cons, hfirst, ih]
  unfold sectorIn
  rw [Machine.run_append, run_writes, hwords, put_current]
  exact tick_off cfg htimer .disabled

/-- The drive waits for `n` more sectors, the next one for the sector at `p`. -/
structure Asking (c : Byte) (p : Place) (n : ℕ) (d : Drive) : Prop where
  command : d.command = c
  stat : d.tf.atastat = drqStat ||| drdyStat ||| dscStat
  pos : d.tf.pos = 0
  timer : d.timer = false
  place : placeOf d = p
  count : sectorCount d.tf = n
  blocksize : 0 < d.blocksize
  file : d.image.file ≠ none

structure Written (i j : Image) (off : ℕ) (bs : List Byte) : Prop where
  file : j.file ≠ none
  base : j.base = i.base
  lastSector : j.lastSector = i.lastSector
  content : contentOf j = write (contentOf i) off bs

theorem Written.store {i : Image} (hfile : i.file ≠ none) (s : BitVec 32) (bs : List Byte) :
    Written i (ImageBounds.store i s bs) (i.base.toNat + 512 * s.toNat) bs := by
  refine ⟨?_, rfl, rfl, content_store i s bs hfile⟩
  unfold ImageBounds.store
  dsimp only
  rw [Ne, Option.map_eq_none_iff]
  exact hfile

theorem Written.append {i j k : Image} {off : ℕ} {xs ys : List Byte} (h : Written i j off xs)
    (h' : Written j k (off + xs.length) ys) : Written i k off (xs ++ ys) := by
  refine ⟨h'.file, h'.base.trans h.base, h'.lastSector.trans h.lastSector, ?_⟩
  rw [h'.content, h.content, write_append]

theorem secount_step {tf : Tf} (hmore : sectorCount tf ≠ 1) :
    tf.secount - 1 ≠ 0 ∧ sectorCount { tf with secount := tf.secount - 1 } = sectorCount tf - 1 := by
  have hlt := tf.secount.isLt
  have hsub : (tf.secount - 1).toNat = (tf.secount.toNat + 255) % 256 := by
    rw [BitVec.toNat_sub]
    change (2 ^ 8 - 1 + tf.secount.toNat) % 2 ^ 8 = _
    omega
  have hzero : tf.secount = 0 ↔ tf.secount.toNat = 0 := by
    rw [← BitVec.toNat_inj]
    rfl
  have hnext : tf.secount - 1 = 0 ↔ (tf.secount - 1).toNat = 0 := by
    rw [← BitVec.toNat_inj]
    rfl
  unfold sectorCount at hmore ⊢
  dsimp only
  by_cases h0 : tf.secount = 0
  · have h1 := hzero.mp h0
    rw [if_neg (not_not.mpr h0)] at hmore ⊢
    have hne : tf.secount - 1 ≠ 0 := by
      rw [Ne, hnext]
      omega
    rw [if_pos hne]
    exact ⟨hne, by omega⟩
  · rw [if_pos h0] at hmore ⊢
    rw [hzero] at h0
    have hne : tf.secount - 1 ≠ 0 := by
      rw [Ne, hnext]
      omega
    rw [if_pos hne]
    exact ⟨hne, by omega⟩

theorem secount_last {tf : Tf} (hlast : sectorCount tf = 1) : tf.secount - 1 = 0 := by
  have hone : tf.secount = 1 := by
    unfold sectorCount at hlast
    split at hlast
    · exact BitVec.eq_of_toNat_eq hlast
    · exact absurd hlast (by decide)
  rw [hone]
  decide

theorem asking_after {c : Byte} {p : Place} {n : ℕ} {d : Drive} (hcommand : d.command = c)
    (htimer : d.timer = false) (hplace : placeOf d = p) (hcount : sectorCount d.tf = n)
    (hblock : 0 < d.blocksize) (hfile : d.image.file ≠ none) (hvalid : p.Valid) :
    (n = 1 → (afterWrite d).tf.atastat = drdyStat ||| dscStat) ∧
      (n ≠ 1 → Asking c p.next (n - 1) (afterWrite d)) := by
  constructor
  · intro hone
    rw [afterWrite_last (secount_last (hcount.trans hone))]
  · intro hmore
    obtain ⟨hne, hnext⟩ := @secount_step d.tf (by rw [hcount]; exact hmore)
    obtain ⟨sector, drvsel, cylinder, addr, hafter, hplaced⟩ :=
      afterWrite_more hne (by rw [hplace]; exact hvalid)
    rw [hplace] at hplaced
    rw [hcount] at hnext
    rw [hafter] at hplaced ⊢
    exact ⟨hcommand, rfl, rfl, htimer, hplaced, hnext, hblock, hfile⟩

theorem asking_step (cfg : BoardConfig) {c : Byte} {p : Place} {n : ℕ} {d : Drive}
    (h : Asking c p n d) (hwrite : IsWrite c) (hvalid : p.Valid)
    (hrange : p.index + n ≤ d.image.lastSector.toNat + 1) {ws : List (BitVec 16)}
    (hlength : ws.length = 256) :
    Written d.image (written cfg d ws).image (d.image.base.toNat + 512 * p.index) (bytesOf ws) ∧
      (n = 1 → (written cfg d ws).tf.atastat = drdyStat ||| dscStat) ∧
      (n ≠ 1 → Asking c p.next (n - 1) (written cfg d ws)) := by
  have hplace : placeOf (given d ws) = p := h.place
  have hin : outOfRange (given d ws) = false := by
    rw [outOfRange_index (by rw [hplace]; exact hvalid), hplace]
    change p.index + sectorCount d.tf ≤ d.image.lastSector.toNat + 1
    rw [h.count]
    exact hrange
  have hbytes : bufferBytes (given d ws) = bytesOf ws :=
    bufferBytes_of hlength fun i hi => fill_word d.buffer ws (by omega)
  have hsector : (BitVec.ofNat 32 (ideGetSector (given d ws))).toNat = p.index := by
    rw [(covers_of_range hin).2.1, ideGetSector_index, hplace]
  have hcommand : IsWrite (given d ws).command := by
    change IsWrite d.command
    rw [h.command]
    exact hwrite
  obtain ⟨irqstat, service, blockcount, hcallback⟩ :=
    write_callback cfg .disabled hcommand h.blocksize hin h.file
  rw [hbytes] at hcallback
  have hstored := Written.store h.file (BitVec.ofNat 32 (ideGetSector (given d ws))) (bytesOf ws)
  have hfile := hstored.file
  rw [hsector] at hstored
  unfold written
  rw [hcallback]
  refine ⟨?_, asking_after h.command h.timer h.place h.count h.blocksize hfile hvalid⟩
  rw [afterWrite_image]
  exact hstored

theorem sectorIn_drq (cfg : BoardConfig) {b : Board} (hcommand : IsWrite b.current.command)
    (hstat : b.current.tf.atastat = drqStat ||| drdyStat ||| dscStat) (hpos : b.current.tf.pos = 0)
    {ws : List (BitVec 16)} (hlength : ws.length = 256) :
    (boardMachine cfg).Along WhileDrq b (sectorIn b.curDev ws) := by
  unfold sectorIn
  refine (boardMachine cfg).along_append ?_ ⟨trivial, trivial⟩
  refine writes_drq cfg hcommand.moves ?_ (k := 0) hpos ws (by omega)
  rw [hstat]
  decide

theorem run_sectors (cfg : BoardConfig) {c : Byte} (hwrite : IsWrite c)
    {sectors : List (List (BitVec 16))} {p : Place} {b : Board}
    (h : Asking c p sectors.length b.current) (hvalid : p.Valid) (hlinear : p.Linear sectors.length)
    (hrange : p.index + sectors.length ≤ b.current.image.lastSector.toNat + 1)
    (hlength : ∀ ws ∈ sectors, ws.length = 256) (hsome : sectors ≠ []) :
    (boardMachine cfg).Along WhileDrq b (sectors.flatMap (sectorIn b.curDev)) ∧
      ∃ e, (boardMachine cfg).run b (sectors.flatMap (sectorIn b.curDev)) = b.put b.curDev e ∧
        Written b.current.image e.image (b.current.image.base.toNat + 512 * p.index)
          (sectors.flatMap bytesOf) ∧
        e.tf.atastat = drdyStat ||| dscStat := by
  induction sectors generalizing p b with
  | nil => exact absurd rfl hsome
  | cons ws sectors ih =>
    have hws := hlength ws List.mem_cons_self
    have hcommand : IsWrite b.current.command := by
      rw [h.command]
      exact hwrite
    obtain ⟨hstored, hlast, hmore⟩ := asking_step cfg h hwrite hvalid hrange hws
    have hrun := run_sectorIn cfg hcommand h.pos h.timer h.blocksize h.file hws
    have hdrq := sectorIn_drq cfg hcommand h.stat h.pos hws
    rw [List.flatMap_cons, List.flatMap_cons, Machine.run_append, hrun]
    by_cases hnil : sectors = []
    · rw [hnil] at hlast ⊢
      rw [List.flatMap_nil, List.flatMap_nil, List.append_nil, List.append_nil, Machine.run_nil]
      exact ⟨hdrq, _, rfl, hstored, hlast rfl⟩
    · obtain ⟨n, hn⟩ : ∃ n, sectors.length = n + 1 :=
        Nat.exists_eq_succ_of_ne_zero fun h0 => hnil (List.eq_nil_of_length_eq_zero h0)
      rw [List.length_cons, hn] at hlinear hrange
      obtain ⟨hindex, hrest⟩ := Place.Linear.step.mp hlinear
      have hcurrent := current_put b (written cfg b.current ws)
      have hasking := hmore (by rw [List.length_cons, hn]; omega)
      rw [List.length_cons, Nat.add_sub_cancel] at hasking
      obtain ⟨hdrqs, e, hruns, hwritten, hstat⟩ := ih (p := p.next)
        (b := b.put b.curDev (written cfg b.current ws)) (by rw [hcurrent]; exact hasking)
        hvalid.next (by rw [hn]; exact hrest)
        (by rw [hcurrent, hstored.lastSector, hindex, hn]; omega)
        (fun ws hws => hlength ws (List.mem_cons_of_mem _ hws)) hnil
      rw [hcurrent, hindex, hstored.base] at hwritten
      refine ⟨(boardMachine cfg).along_append hdrq ?_, e, ?_, ?_, hstat⟩
      · rw [hrun]
        exact hdrqs
      · exact hruns.trans (put_put b _ _ _)
      · have hoffset : b.current.image.base.toNat + 512 * (p.index + 1) =
            b.current.image.base.toNat + 512 * p.index + (bytesOf ws).length := by
          rw [bytesOf_length, hws]
          omega
        rw [hoffset] at hwritten
        exact hstored.append hwritten

/-- A drive between two commands. -/
structure Idle (d : Drive) : Prop where
  stat : busy d = false
  timer : d.timer = false
  pending : d.async.pending = false
  blocksize : 0 < d.blocksize

theorem busy_rest {d : Drive} (h : d.tf.atastat = drdyStat ||| dscStat) : busy d = false := by
  unfold busy
  rw [h]
  decide

theorem start_write (cfg : BoardConfig) {b : Board} (hidle : Idle b.current)
    (hfile : b.current.image.file ≠ none) {c : Byte} (hwrite : IsWrite c) :
    ∃ d, (boardMachine cfg).next b (.writeb 7 c) = b.put b.curDev d ∧
      Asking c (placeOf b.current) (sectorCount b.current.tf) d ∧
      d.image = b.current.image := by
  have hwanted : drqStat ||| dscStat ||| drdyStat = drqStat ||| drdyStat ||| dscStat := by decide
  have hcommand : (boardMachine cfg).next b (.writeb 7 c) = writeCommand cfg b c := rfl
  have hnow : ¬ (busy b.current = true ∧ (c ≠ winVerify ∨ b.current.command ≠ winIdentify)) := by
    rw [hidle.stat]
    exact fun h => Bool.false_ne_true h.1
  have hstart (hdecode : decode c ≠ .diagnostics) :
      writeCommand cfg b c = b.put b.curDev (startCommand cfg b.current.command
        { ideIrqLower b.current with command := c, tf.error := 0 }) := by
    unfold writeCommand
    dsimp only
    rw [if_neg hnow, if_neg hdecode]
  have hsingle (hdecode : decode c = .write) :
      ∃ d, (boardMachine cfg).next b (.writeb 7 c) = b.put b.curDev d ∧
        Asking c (placeOf b.current) (sectorCount b.current.tf) d ∧ d.image = b.current.image := by
    refine ⟨_, hcommand.trans (hstart (by rw [hdecode]; decide)), ?_⟩
    unfold startCommand
    dsimp only
    rw [hdecode]
    exact ⟨⟨rfl, hwanted, rfl, hidle.timer, rfl, rfl, hidle.blocksize, hfile⟩, rfl⟩
  rcases hwrite with hc | hc | hc
  · refine hsingle ?_
    rw [hc]
    decide
  · refine hsingle ?_
    rw [hc]
    decide
  · have hdecode : decode c = .writeMultiple := by
      rw [hc]
      decide
    refine ⟨_, hcommand.trans (hstart (by rw [hdecode]; decide)), ?_⟩
    unfold startCommand
    dsimp only
    rw [hdecode]
    exact ⟨⟨rfl, hwanted, rfl, hidle.timer, rfl, rfl, hidle.blocksize, hfile⟩, rfl⟩

def writeProgram (ch : Bool) (c : Byte) (sectors : List (List (BitVec 16))) : List Event :=
  .writeb 7 c :: sectors.flatMap (sectorIn ch)

theorem writes_stored (cfg : BoardConfig) {b : Board} (hidle : Idle b.current)
    (hfile : b.current.image.file ≠ none) (hvalid : (placeOf b.current).Valid)
    (hrange : outOfRange b.current = false)
    (hlinear : (placeOf b.current).Linear (sectorCount b.current.tf)) {c : Byte} (hwrite : IsWrite c)
    {sectors : List (List (BitVec 16))} (hcount : sectors.length = sectorCount b.current.tf)
    (hlength : ∀ ws ∈ sectors, ws.length = 256) :
    (boardMachine cfg).Along WhileDrq b (writeProgram b.curDev c sectors) ∧
      ∃ e, (boardMachine cfg).run b (writeProgram b.curDev c sectors) = b.put b.curDev e ∧
        Written b.current.image e.image
          (b.current.image.base.toNat + 512 * ideGetSector b.current) (sectors.flatMap bytesOf) ∧
        e.tf.atastat = drdyStat ||| dscStat := by
  have hpos := (sectorCount_pos b.current.tf).1
  obtain ⟨d, hnext, hasking, himage⟩ := start_write cfg hidle hfile hwrite
  rw [outOfRange_index hvalid] at hrange
  have hcurrent := current_put b d
  obtain ⟨hdrq, e, hrun, hwritten, hstat⟩ := @run_sectors cfg c hwrite sectors (placeOf b.current)
    (b.put b.curDev d) (by rw [hcurrent, hcount]; exact hasking) hvalid
    (by rw [hcount]; exact hlinear) (by rw [hcurrent, himage, hcount]; exact hrange) hlength
    (by intro hnil; rw [hnil] at hcount; change 0 = _ at hcount; omega)
  rw [hcurrent, himage] at hwritten
  unfold writeProgram
  refine ⟨⟨trivial, ?_⟩, e, ?_, ?_, hstat⟩
  · rw [hnext]
    exact hdrq
  · rw [Machine.run_cons, hnext]
    exact hrun.trans (put_put b _ _ _)
  · rw [ideGetSector_index]
    exact hwritten

/-- Whatever has become of the command. -/
structure Steady (c : Byte) (d : Drive) : Prop where
  command : d.command = c ∨ d.command = winInvalid
  pos : d.tf.pos = 0
  timer : d.timer = false
  blocksize : 0 < d.blocksize
  file : d.image.file ≠ none

theorem Asking.steady {c : Byte} {p : Place} {n : ℕ} {d : Drive} (h : Asking c p n d) : Steady c d :=
  ⟨Or.inl h.command, h.pos, h.timer, h.blocksize, h.file⟩

theorem afterWrite_steady {c : Byte} {d : Drive} (hcommand : d.command = c) (hpos : d.tf.pos = 0)
    (htimer : d.timer = false) (hblock : 0 < d.blocksize) (hfile : d.image.file ≠ none) :
    Steady c (afterWrite d) := by
  by_cases hlast : d.tf.secount - 1 = 0
  · rw [afterWrite_last hlast]
    exact ⟨Or.inr rfl, hpos, htimer, hblock, hfile⟩
  · have hafter : afterWrite d = ideNextSector
        { d with
          tf.secount := d.tf.secount - 1, tf.atastat := drqStat ||| drdyStat ||| dscStat, tf.pos := 0 } := by
      unfold afterWrite
      exact if_pos hlast
    obtain ⟨sector, drvsel, cylinder, addr, hfields⟩ := ideNextSector_fields
      { d with
        tf.secount := d.tf.secount - 1, tf.atastat := drqStat ||| drdyStat ||| dscStat, tf.pos := 0 }
    rw [hafter, hfields]
    exact ⟨Or.inl hcommand, rfl, htimer, hblock, hfile⟩

theorem steady_step (cfg : BoardConfig) {c : Byte} (hwrite : IsWrite c) {b : Board}
    (h : Steady c b.current) {ws : List (BitVec 16)} (hlength : ws.length = 256) :
    ∃ e, (boardMachine cfg).run b (sectorIn b.curDev ws) = b.put b.curDev e ∧ Steady c e ∧
      (e.image = b.current.image ∨
        e.image = store b.current.image (BitVec.ofNat 32 (ideGetSector b.current)) (bytesOf ws) ∧
          (BitVec.ofNat 32 (ideGetSector b.current)).toNat = ideGetSector b.current) := by
  cases h.command with
  | inr hover =>
    refine ⟨b.current, ?_, h, Or.inl rfl⟩
    rw [put_current]
    exact run_sectorIn_over cfg hover h.timer ws
  | inl hc =>
    have hcommand : IsWrite b.current.command := by
      rw [hc]
      exact hwrite
    have hrun := run_sectorIn cfg hcommand h.pos h.timer h.blocksize h.file hlength
    refine ⟨_, hrun, ?_⟩
    unfold written
    cases hrange : outOfRange (given b.current ws) with
    | true =>
      rw [write_refused cfg .disabled (d := given b.current ws) hcommand h.blocksize hrange]
      exact ⟨⟨Or.inl hc, rfl, h.timer, h.blocksize, h.file⟩, Or.inl rfl⟩
    | false =>
      obtain ⟨irqstat, service, blockcount, hcallback⟩ :=
        write_callback cfg .disabled (d := given b.current ws) hcommand h.blocksize hrange h.file
      have hbytes : bufferBytes (given b.current ws) = bytesOf ws :=
        bufferBytes_of hlength fun i hi => fill_word b.current.buffer ws (by omega)
      have hfile := (Written.store h.file (BitVec.ofNat 32 (ideGetSector b.current)) (bytesOf ws)).file
      rw [hbytes] at hcallback
      rw [hcallback]
      refine ⟨afterWrite_steady hc rfl h.timer h.blocksize hfile, Or.inr ⟨?_, ?_⟩⟩
      · rw [afterWrite_image]
        rfl
      · exact (covers_of_range hrange).2.1

/-- The first byte of sector `t` of an image. -/
def firstByte (img : Image) (t : ℕ) : Byte := (contentOf img).byte (img.base.toNat + 512 * t)

theorem store_firstByte {img : Image} (hfile : img.file ≠ none) {s : BitVec 32}
    {ws : List (BitVec 16)} (hlength : ws.length = 256) (t : ℕ) :
    firstByte (store img s (bytesOf ws)) t =
      if s.toNat = t then byteAt ws 0 else firstByte img t := by
  change (contentOf (store img s (bytesOf ws))).byte (img.base.toNat + 512 * t) = _
  rw [content_store img s _ hfile, write_byte, bytesOf_length, hlength]
  by_cases hhere : s.toNat = t
  · rw [if_pos hhere, if_pos (by omega), hhere, Nat.sub_self, bytesOf_getD ws (by omega)]
  · rw [if_neg hhere, if_neg (by omega)]
    rfl

theorem steady_keeps (cfg : BoardConfig) {c : Byte} (hwrite : IsWrite c) {b : Board}
    (h : Steady c b.current) {ws : List (BitVec 16)} (hlength : ws.length = 256) {t : ℕ}
    (hkeep : byteAt ws 0 = firstByte b.current.image t ∨ ideGetSector b.current ≠ t) :
    ∃ e, (boardMachine cfg).run b (sectorIn b.curDev ws) = b.put b.curDev e ∧ Steady c e ∧
      firstByte e.image t = firstByte b.current.image t := by
  obtain ⟨e, hrun, hsteady, himage⟩ := steady_step cfg hwrite h hlength
  refine ⟨e, hrun, hsteady, ?_⟩
  rcases himage with himage | ⟨himage, hsector⟩
  · rw [himage]
  · rw [himage, store_firstByte h.file hlength, hsector]
    split
    · rename_i hhere
      exact hkeep.resolve_right fun hne => hne hhere
    · rfl

theorem run_keeps (cfg : BoardConfig) {c : Byte} (hwrite : IsWrite c)
    {sectors : List (List (BitVec 16))} {b : Board} (h : Steady c b.current) {t : ℕ}
    (hlength : ∀ ws ∈ sectors, ws.length = 256)
    (hkeep : ∀ ws ∈ sectors, byteAt ws 0 = firstByte b.current.image t) :
    ∃ e, (boardMachine cfg).run b (sectors.flatMap (sectorIn b.curDev)) = b.put b.curDev e ∧
      Steady c e ∧ firstByte e.image t = firstByte b.current.image t := by
  induction sectors generalizing b with
  | nil => exact ⟨b.current, (put_current b).symm, h, rfl⟩
  | cons ws sectors ih =>
    obtain ⟨e, hrun, hsteady, hbyte⟩ := steady_keeps cfg hwrite h
      (hlength ws List.mem_cons_self) (Or.inl (hkeep ws List.mem_cons_self))
    have hcurrent := current_put b e
    obtain ⟨f, hruns, hsteady', hbyte'⟩ := ih (b := b.put b.curDev e)
      (by rw [hcurrent]; exact hsteady) (fun ws hws => hlength ws (List.mem_cons_of_mem _ hws))
      (fun ws hws => by rw [hcurrent, hbyte]; exact hkeep ws (List.mem_cons_of_mem _ hws))
    rw [hcurrent, hbyte] at hbyte'
    refine ⟨f, ?_, hsteady', hbyte'⟩
    rw [List.flatMap_cons, Machine.run_append, hrun]
    exact hruns.trans (put_put b _ _ _)

theorem run_early (cfg : BoardConfig) {c : Byte} (hwrite : IsWrite c)
    {sectors : List (List (BitVec 16))} {p : Place} {n : ℕ} {b : Board}
    (h : Asking c p n b.current) (hvalid : p.Valid) (hlinear : p.Linear sectors.length)
    (hrange : sectors ≠ [] → p.index + n ≤ b.current.image.lastSector.toNat + 1)
    (hroom : sectors.length < n) (hlength : ∀ ws ∈ sectors, ws.length = 256) :
    ∃ e, (boardMachine cfg).run b (sectors.flatMap (sectorIn b.curDev)) = b.put b.curDev e ∧
      Asking c (Place.next^[sectors.length] p) (n - sectors.length) e := by
  induction sectors generalizing p n b with
  | nil => exact ⟨b.current, (put_current b).symm, h⟩
  | cons ws sectors ih =>
    have hws := hlength ws List.mem_cons_self
    have hcommand : IsWrite b.current.command := by
      rw [h.command]
      exact hwrite
    have hin := hrange (List.cons_ne_nil _ _)
    obtain ⟨hstored, -, hmore⟩ := asking_step cfg h hwrite hvalid hin hws
    have hrun := run_sectorIn cfg hcommand h.pos h.timer h.blocksize h.file hws
    rw [List.length_cons] at hroom hlinear
    have hcurrent := current_put b (written cfg b.current ws)
    have hstep : sectors ≠ [] → p.next.index = p.index + 1 ∧ p.next.Linear sectors.length := by
      intro hsome
      obtain ⟨k, hk⟩ : ∃ k, sectors.length = k + 1 :=
        Nat.exists_eq_succ_of_ne_zero fun h0 => hsome (List.eq_nil_of_length_eq_zero h0)
      rw [hk] at hlinear ⊢
      exact Place.Linear.step.mp hlinear
    have hrest : p.next.Linear sectors.length := by
      by_cases hnil : sectors = []
      · rw [hnil]
        exact fun k hk => absurd hk (Nat.not_lt_zero k)
      · exact (hstep hnil).2
    obtain ⟨e, hruns, hasking⟩ := ih (p := p.next) (n := n - 1)
      (b := b.put b.curDev (written cfg b.current ws))
      (by rw [hcurrent]; exact hmore (by omega)) hvalid.next hrest
      (fun hsome => by rw [hcurrent, hstored.lastSector, (hstep hsome).1]; omega) (by omega)
      (fun ws hws => hlength ws (List.mem_cons_of_mem _ hws))
    refine ⟨e, ?_, ?_⟩
    · rw [List.flatMap_cons, Machine.run_append, hrun]
      exact hruns.trans (put_put b _ _ _)
    · rw [List.length_cons]
      have hleft : n - 1 - sectors.length = n - (sectors.length + 1) := by omega
      rw [hleft] at hasking
      exact hasking

def plain (x : Byte) : List (BitVec 16) := List.replicate 256 (x.setWidth 16)

theorem plain_first (x : Byte) : byteAt (plain x) 0 = x := by
  change (x.setWidth 16 : BitVec 16).setWidth 8 = x
  apply BitVec.eq_of_toNat_eq
  have hx := x.isLt
  rw [BitVec.toNat_setWidth, BitVec.toNat_setWidth]
  omega

theorem plain_length (x : Byte) : (plain x).length = 256 := List.length_replicate

theorem plains_length (z : Byte) (m : ℕ) : ∀ ws ∈ List.replicate m (plain z), ws.length = 256 := by
  intro ws hws
  rw [List.eq_of_mem_replicate hws, plain_length]

theorem plains_first (z : Byte) (m : ℕ) : ∀ ws ∈ List.replicate m (plain z), byteAt ws 0 = z := by
  intro ws hws
  rw [List.eq_of_mem_replicate hws, plain_first]

/-- `n` sectors that start with the same byte, but for number `k`. -/
def oddSector (z : Byte) (k n : ℕ) : List (List (BitVec 16)) :=
  List.replicate k (plain z) ++ plain (z + 1) :: List.replicate (n - k - 1) (plain z)

theorem oddSector_count (z : Byte) {k n : ℕ} (hk : k < n) : (oddSector z k n).length = n := by
  unfold oddSector
  rw [List.length_append, List.length_cons, List.length_replicate, List.length_replicate]
  omega

theorem oddSector_length (z : Byte) (k n : ℕ) : ∀ ws ∈ oddSector z k n, ws.length = 256 := by
  intro ws hws
  rcases List.mem_append.mp hws with hws | hws
  · exact plains_length z k ws hws
  · rcases List.mem_cons.mp hws with hws | hws
    · rw [hws, plain_length]
    · exact plains_length z _ ws hws

theorem oddSector_first (z : Byte) (k n : ℕ) : byteAt ((oddSector z k n).getD k []) 0 = z + 1 := by
  unfold oddSector
  rw [List.getD_append_right _ _ _ _ (by rw [List.length_replicate]), List.length_replicate,
    Nat.sub_self, List.getD_cons_zero, plain_first]

theorem add_one_ne (z : Byte) : z ≠ z + 1 := by
  intro h
  have hnat := congrArg BitVec.toNat h
  rw [BitVec.toNat_add] at hnat
  have hlt := z.isLt
  change z.toNat = (z.toNat + 1) % 2 ^ 8 at hnat
  omega

theorem oddSector_run (cfg : BoardConfig) {c : Byte} (hwrite : IsWrite c) {p : Place} {n k : ℕ}
    {b : Board} (h : Asking c p n b.current) (hvalid : p.Valid) (hlinear : p.Linear k)
    (hrange : p.index + n ≤ b.current.image.lastSector.toNat + 1) (hk : k < n) {t : ℕ}
    (hmiss : (Place.next^[k] p).index ≠ t) :
    ∃ e, (boardMachine cfg).run b
          ((oddSector (firstByte b.current.image t) k n).flatMap (sectorIn b.curDev)) =
        b.put b.curDev e ∧
      firstByte e.image t = firstByte b.current.image t := by
  generalize hz : firstByte b.current.image t = z
  obtain ⟨e, hrun, hplace⟩ := @run_early cfg _ hwrite (List.replicate k (plain z)) _ _ _ h hvalid
    (by rw [List.length_replicate]; exact hlinear) (fun _ => hrange)
    (by rw [List.length_replicate]; exact hk) (plains_length z k)
  obtain ⟨e', hrun', hsteady, hbyte⟩ := @run_keeps cfg _ hwrite (List.replicate k (plain z)) _ h.steady t
    (plains_length z k) (by rw [hz]; exact plains_first z k)
  have hee : e' = e := (current_put _ e').symm.trans
    ((congrArg Board.current (hrun'.symm.trans hrun)).trans (current_put _ e))
  rw [hee] at hsteady hbyte
  rw [hz] at hbyte
  rw [List.length_replicate] at hplace
  have hcurrent := current_put b e
  obtain ⟨f, hrunf, hsteadyf, hbytef⟩ := @steady_keeps cfg _ hwrite (b.put b.curDev e)
    (by rw [hcurrent]; exact hsteady) _ (plain_length (z + 1)) t
    (Or.inr (by rw [hcurrent, ideGetSector_index, hplace.place]; exact hmiss))
  rw [hcurrent, hbyte] at hbytef
  have hcurrentf := current_put b f
  obtain ⟨g, hrung, -, hbyteg⟩ := @run_keeps cfg _ hwrite (List.replicate (n - k - 1) (plain z))
    (b.put b.curDev f) (by rw [hcurrentf]; exact hsteadyf) t (plains_length z _)
    (by rw [hcurrentf, hbytef]; exact plains_first z _)
  rw [hcurrentf, hbytef] at hbyteg
  refine ⟨g, ?_, hbyteg⟩
  have hsecond := hrunf.trans (put_put b _ _ _)
  unfold oddSector
  rw [List.flatMap_append, List.flatMap_cons, Machine.run_append, Machine.run_append, hrun]
  exact (congrArg (fun s => (boardMachine cfg).run s _) hsecond).trans (hrung.trans (put_put b _ _ _))

theorem writes_missed (cfg : BoardConfig) {b : Board} (hidle : Idle b.current)
    (hfile : b.current.image.file ≠ none) (hvalid : (placeOf b.current).Valid)
    (hrange : outOfRange b.current = false)
    (hnot : ¬ (placeOf b.current).Linear (sectorCount b.current.tf)) {c : Byte} (hwrite : IsWrite c) :
    ∃ sectors : List (List (BitVec 16)), sectors.length = sectorCount b.current.tf ∧
      (∀ ws ∈ sectors, ws.length = 256) ∧
      ¬ Written b.current.image
        ((boardMachine cfg).run b (writeProgram b.curDev c sectors)).current.image
        (b.current.image.base.toNat + 512 * ideGetSector b.current) (sectors.flatMap bytesOf) := by
  classical
  -- the first sector that the registers do not count to
  have hex : ∃ k, k < sectorCount b.current.tf ∧
      (Place.next^[k] (placeOf b.current)).index ≠ (placeOf b.current).index + k := by
    by_contra hnone
    refine hnot fun k hk => ?_
    by_contra hne
    exact hnone ⟨k, hk, hne⟩
  obtain ⟨hk, hmiss⟩ := Nat.find_spec hex
  have hlinear : (placeOf b.current).Linear (Nat.find hex) := by
    intro j hj
    by_contra hne
    exact Nat.find_min hex hj ⟨by omega, hne⟩
  generalize Nat.find hex = k at hk hmiss hlinear
  rw [outOfRange_index hvalid] at hrange
  rw [ideGetSector_index]
  obtain ⟨d, hnext, hasking, himage⟩ := start_write cfg hidle hfile hwrite
  have hcurrent := current_put b d
  generalize sectorCount b.current.tf = n at *
  generalize placeOf b.current = p at *
  obtain ⟨g, hrun, hbyte⟩ := oddSector_run cfg hwrite (b := b.put b.curDev d)
    (by rw [hcurrent]; exact hasking) hvalid hlinear (by rw [hcurrent, himage]; exact hrange) hk hmiss
  rw [hcurrent, himage] at hbyte hrun
  generalize firstByte b.current.image (p.index + k) = z at hbyte hrun
  have hcount := oddSector_count z hk
  have hlength := oddSector_length z k n
  refine ⟨oddSector z k n, hcount, hlength, ?_⟩
  intro hwritten
  have hfinal : (boardMachine cfg).run b (writeProgram b.curDev c (oddSector z k n)) =
      b.put b.curDev g := by
    unfold writeProgram
    rw [Machine.run_cons, hnext]
    exact hrun.trans (put_put b _ _ _)
  rw [hfinal, current_put] at hwritten
  have hgot : firstByte g.image (p.index + k) = z + 1 := by
    unfold firstByte
    rw [hwritten.content, hwritten.base, write_byte, sectors_length hlength, hcount,
      if_pos (by omega)]
    have hoffset : b.current.image.base.toNat + 512 * (p.index + k) -
        (b.current.image.base.toNat + 512 * p.index) = 512 * k + 0 := by omega
    rw [hoffset, sectors_getD hlength (by omega) (by decide), oddSector_first]
  exact add_one_ne z (hbyte.symm.trans hgot)

end PeepeeBox.SectorWrites
