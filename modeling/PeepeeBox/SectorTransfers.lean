import PeepeeBox.SectorReads

set_option autoImplicit false

/-!
# The same sectors in both directions

A transfer of any number of sectors is stored in order and read back as it was, exactly where the
registers that name a sector do not run over on the way.
-/
namespace PeepeeBox.SectorTransfers
open AtaRange AtaTwins DataPort HdcIde HddImage HostFile IdeBoard ImageBounds SectorReads SectorStepping
open SectorWrites TraceMachine

structure SameTask (d e : Drive) : Prop where
  secount : e.tf.secount = d.tf.secount
  cylinder : e.tf.cylinder = d.tf.cylinder
  sector : e.tf.sector = d.tf.sector
  drvsel : e.tf.drvsel = d.tf.drvsel
  lbaAddr : e.lbaAddr = d.lbaAddr
  cfgSpt : e.cfgSpt = d.cfgSpt
  cfgHpc : e.cfgHpc = d.cfgHpc

theorem SameTask.place {d e : Drive} (h : SameTask d e) : placeOf e = placeOf d := by
  unfold placeOf Tf.lba Tf.head
  rw [h.cylinder, h.sector, h.drvsel, h.lbaAddr, h.cfgSpt, h.cfgHpc]

theorem SameTask.count {d e : Drive} (h : SameTask d e) : sectorCount e.tf = sectorCount d.tf := by
  unfold sectorCount
  rw [h.secount]

/-- The sectors are asked for one by one and stored in order, nothing else of the file changes, and
    any read with the same task file, at any later time that finds the image so, gets them back. -/
structure Transfers (cfg : BoardConfig) (b : Board) (c : Byte) (sectors : List (List (BitVec 16))) :
    Prop where
  asked : (boardMachine cfg).Along WhileDrq b (writeProgram b.curDev c sectors)
  stored : Written b.current.image
    ((boardMachine cfg).run b (writeProgram b.curDev c sectors)).current.image
    (b.current.image.base.toNat + 512 * ideGetSector b.current) (sectors.flatMap bytesOf)
  done : busy ((boardMachine cfg).run b (writeProgram b.curDev c sectors)).current = false
  back : ∀ (a : Board) (r : Byte), IsRead r → Idle a.current → SameTask b.current a.current →
    a.current.image =
      ((boardMachine cfg).run b (writeProgram b.curDev c sectors)).current.image →
    (boardMachine cfg).Along WhileDrq a (readProgram a.curDev r (sectorCount a.current.tf)) ∧
      (boardMachine cfg).trace a (readProgram a.curDev r (sectorCount a.current.tf)) =
        sectors.flatMap (fun ws => ws.map Output.word) ∧
      busy ((boardMachine cfg).run a
        (readProgram a.curDev r (sectorCount a.current.tf))).current = false

theorem wordsAt_sectors {sectors : List (List (BitVec 16))} (hlength : ∀ ws ∈ sectors, ws.length = 256)
    {k : ℕ} (hk : k < sectors.length) :
    wordsAt (sectors.flatMap bytesOf) k = (sectors.getD k []).map Output.word := by
  have hws : (sectors.getD k []).length = 256 := by
    rw [List.getD_eq_getElem _ _ hk]
    exact hlength _ (List.getElem_mem hk)
  unfold wordsAt
  apply List.ext_getElem
  · rw [List.length_map, List.length_map, List.length_range, hws]
  · intro i hi hi'
    rw [List.length_map, List.length_range] at hi
    rw [List.getElem_map, List.getElem_map, List.getElem_range, Nat.add_assoc,
      sectors_getD hlength hk (by omega), sectors_getD hlength hk (by omega), byteAt_pair,
      List.getD_eq_getElem _ _ (by omega)]

theorem flatMap_getD (sectors : List (List (BitVec 16))) :
    (List.range sectors.length).flatMap (fun k => (sectors.getD k []).map Output.word) =
      sectors.flatMap (fun ws => ws.map Output.word) := by
  have hself : (List.range sectors.length).map (fun k => sectors.getD k []) = sectors := by
    apply List.ext_getElem
    · rw [List.length_map, List.length_range]
    · intro i hi hi'
      rw [List.getElem_map, List.getElem_range, List.getD_eq_getElem _ _ hi']
  calc (List.range sectors.length).flatMap (fun k => (sectors.getD k []).map Output.word)
      = ((List.range sectors.length).map fun k => sectors.getD k []).flatMap
          (fun ws => ws.map Output.word) := by rw [List.flatMap_map]
    _ = sectors.flatMap (fun ws => ws.map Output.word) := by rw [hself]

theorem written_read {i j : Image} {s n : ℕ} {bs : List Byte}
    (h : Written i j (i.base.toNat + 512 * s) bs) (hlength : bs.length = 512 * n)
    (hs : (BitVec.ofNat 32 s).toNat = s) (hn : (BitVec.ofNat 32 n).toNat = n) :
    hddImageRead j (BitVec.ofNat 32 s) (BitVec.ofNat 32 n) = some bs := by
  obtain ⟨st, hst⟩ := Option.ne_none_iff_exists'.mp h.file
  have hcontent : contentOf j = st.content := by
    unfold contentOf
    rw [hst]
    rfl
  unfold hddImageRead
  rw [hst, Option.map_some, sectorOffset_eq, h.base, hs, hn, ← hcontent, h.content, ← hlength,
    read_write]

theorem transfers_of_linear (cfg : BoardConfig) {b : Board} (hidle : Idle b.current)
    (hfile : b.current.image.file ≠ none) (hvalid : (placeOf b.current).Valid)
    (hrange : outOfRange b.current = false)
    (hlinear : (placeOf b.current).Linear (sectorCount b.current.tf)) {c : Byte} (hwrite : IsWrite c)
    {sectors : List (List (BitVec 16))} (hcount : sectors.length = sectorCount b.current.tf)
    (hlength : ∀ ws ∈ sectors, ws.length = 256) : Transfers cfg b c sectors := by
  obtain ⟨hasked, e, hrun, hstored, hstat⟩ :=
    writes_stored cfg hidle hfile hvalid hrange hlinear hwrite hcount hlength
  have hcurrent := current_put b e
  refine ⟨hasked, ?_, ?_, ?_⟩
  · rw [hrun, hcurrent]
    exact hstored
  · rw [hrun, hcurrent]
    exact busy_rest hstat
  · intro a r hread hidle' hsame himage
    rw [hrun, hcurrent] at himage
    have hplace := hsame.place
    have hcount' := hsame.count
    have hindex : ideGetSector a.current = ideGetSector b.current := by
      rw [ideGetSector_index, ideGetSector_index, hplace]
    have hrange' : outOfRange a.current = false := by
      rw [outOfRange_index (by rw [hplace]; exact hvalid), hplace, hcount', himage,
        hstored.lastSector]
      exact (outOfRange_index hvalid).mp hrange
    obtain ⟨-, hsector, hsectors⟩ := covers_of_range hrange
    have hbytes : (sectors.flatMap bytesOf).length = 512 * sectorCount b.current.tf := by
      rw [sectors_length hlength, hcount]
    have hdata := written_read hstored hbytes hsector hsectors
    rw [← himage, ← hindex, ← hcount'] at hdata
    obtain ⟨hasked', htrace, g, hrun', hbusy⟩ := reads_fetched cfg hidle'
      (by rw [hplace]; exact hvalid) hrange' (by rw [hplace, hcount']; exact hlinear) hdata
      (by rw [hcount', hbytes]) hread
    refine ⟨hasked', ?_, ?_⟩
    · rw [htrace, hcount', ← hcount, ← flatMap_getD]
      refine List.flatMap_congr ?_
      intro k hk
      exact wordsAt_sectors hlength (List.mem_range.mp hk)
    · rw [hrun', current_put]
      exact hbusy

/-- Multi-sector transfers name the same sectors in both directions, for all data, exactly where
    the 8-bit sector, 4-bit head and 16-bit cylinder registers do not run over. -/
theorem transfers_iff (cfg : BoardConfig) (b : Board) (c : Byte) (hwrite : IsWrite c)
    (hidle : Idle b.current) (hfile : b.current.image.file ≠ none)
    (hspt : 1 ≤ b.current.cfgSpt.toNat ∧ b.current.cfgSpt.toNat ≤ 256)
    (hhpc : 1 ≤ b.current.cfgHpc.toNat ∧ b.current.cfgHpc.toNat ≤ 16)
    (hrange : outOfRange b.current = false) :
    (∀ sectors : List (List (BitVec 16)), sectors.length = sectorCount b.current.tf →
        (∀ ws ∈ sectors, ws.length = 256) → Transfers cfg b c sectors) ↔
      (placeOf b.current).Fits (sectorCount b.current.tf) := by
  have hvalid : (placeOf b.current).Valid :=
    ⟨b.current.lbaAddr.isLt, b.current.tf.cylinder.isLt, head_lt _, b.current.tf.sector.isLt, hspt,
      hhpc⟩
  have hroom : (placeOf b.current).lba = true →
      (placeOf b.current).addr + sectorCount b.current.tf ≤ 2 ^ 32 := by
    intro hlba
    have hlast := b.current.image.lastSector.isLt
    rw [outOfRange_index hvalid] at hrange
    unfold Place.index at hrange
    rw [if_pos hlba] at hrange
    omega
  rw [← Place.linear_iff hvalid (sectorCount_pos _).1 hroom]
  constructor
  · intro h
    by_contra hnot
    obtain ⟨sectors, hcount, hlength, hmissed⟩ :=
      writes_missed cfg hidle hfile hvalid hrange hnot hwrite
    exact hmissed (h sectors hcount hlength).stored
  · intro hlinear sectors hcount hlength
    exact transfers_of_linear cfg hidle hfile hvalid hrange hlinear hwrite hcount hlength

/-! A drive of ten cylinders. -/

def tenCylinders : Image where
  file := some (Stream.ofFile (grow empty (512 * 10080)))
  base := 0
  lastSector := 10079
  type := .raw
  loaded := true
  geometry := { spt := 63, hpc := 16, tracks := 10 }

def registersSet (es : List Event) : Board :=
  (boardMachine plainConfig).run (setupBoard plainConfig (fun _ => tenCylinders) 0 32) es

/-- Four sectors from the last but one of a cylinder on. -/
def crossing : Board :=
  registersSet [.writeb 2 4, .writeb 3 62, .writeb 4 2, .writeb 5 0, .writeb 6 0x0F]

theorem transfers_iff_crossing :
    sectorCount crossing.current.tf = 4 ∧
    ∀ sectors : List (List (BitVec 16)), sectors.length = sectorCount crossing.current.tf →
      (∀ ws ∈ sectors, ws.length = 256) → Transfers plainConfig crossing winWriteMultiple sectors := by
  refine ⟨by decide +kernel,
    (transfers_iff plainConfig crossing winWriteMultiple (Or.inr (Or.inr rfl)) ?_ ?_ ?_ ?_ ?_).mpr ?_⟩
  · exact ⟨by decide +kernel, by decide +kernel, by decide +kernel, by decide +kernel⟩
  · exact Option.some_ne_none _
  · decide +kernel
  · decide +kernel
  · decide +kernel
  · unfold Place.Fits
    decide +kernel

/-- Two sectors from number 255 on, after WIN_SPECIFY for 256 sectors a track. -/
def wrapping : Board :=
  registersSet
    [.writeb 2 0, .writeb 6 0x0F, .writeb 7 0x91, .tick false .disabled, .writeb 2 2, .writeb 3 255,
      .writeb 6 0]

/-- The board after one sector of 0x11 and one of 0x22 were given to it. -/
def wrapped : Board :=
  (boardMachine plainConfig).run wrapping (writeProgram wrapping.curDev 0x30 [plain 0x11, plain 0x22])

theorem wrapped_byte : (contentOf wrapped.current.image).byte (512 * 255) = 0 := by
  decide +kernel

/-- The second sector goes to the first of the track. -/
theorem second_wraps :
    (Idle wrapping.current ∧ outOfRange wrapping.current = false ∧
      wrapping.current.cfgSpt = 256 ∧ wrapping.current.cfgHpc = 16) ∧
    ¬ Transfers plainConfig wrapping 0x30 [plain 0x11, plain 0x22] := by
  refine ⟨⟨⟨by decide +kernel, by decide +kernel, by decide +kernel, by decide +kernel⟩,
    by decide +kernel, by decide +kernel, by decide +kernel⟩, ?_⟩
  intro h
  have hbase : wrapping.current.image.base.toNat = 0 := by decide +kernel
  have hsector : ideGetSector wrapping.current = 254 := by decide +kernel
  have hstored := h.stored.content
  rw [hbase, hsector, Nat.zero_add] at hstored
  have hgiven : (write (contentOf wrapping.current.image) (512 * 254)
      ([plain 0x11, plain 0x22].flatMap bytesOf)).byte (512 * 255) = 0x22 := by
    decide +kernel
  rw [← hstored] at hgiven
  have hzero := wrapped_byte
  unfold wrapped at hzero
  rw [hzero] at hgiven
  exact absurd hgiven (by decide)

end PeepeeBox.SectorTransfers
