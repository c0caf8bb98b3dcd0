import PeepeeBox.SectorWrites

set_option autoImplicit false

/-!
# Sectors read back

READ SECTORS and READ MULTIPLE fetch all their sectors from where the registers point when the
first callback comes, and hand them out one by one; the registers step along, and are checked
again with each sector.
-/
namespace PeepeeBox.SectorReads
open AtaRange AtaTwins DataPort HdcIde HddImage HostFile IdeBoard ImageBounds SectorStepping
open SectorWrites TraceMachine

def IsRead (c : Byte) : Prop := c = winRead ∨ c = winReadNoretry ∨ c = winReadMultiple

theorem IsRead.moves {c : Byte} (h : IsRead c) : Moves c := by
  rcases h with rfl | rfl | rfl
  · exact ⟨by decide, by decide⟩
  · exact ⟨by decide, by decide⟩
  · exact ⟨by decide, by decide⟩

theorem IsRead.pio {c : Byte} (h : IsRead c) : isPioRead c = true := by
  rcases h with rfl | rfl | rfl
  · decide
  · decide
  · decide

theorem fetch_first {d : Drive} (hfirst : d.doInitialRead = true) {data : List Byte}
    (hread : hddImageRead d.image (BitVec.ofNat 32 (ideGetSector d))
      (BitVec.ofNat 32 (sectorCount d.tf)) = some data)
    (hrequest : d.async.pending = false ∨
      d.async.complete = false ∧ d.async.sector = BitVec.ofNat 32 (ideGetSector d) ∧
        d.async.count = BitVec.ofNat 32 (sectorCount d.tf)) :
    ∃ a : AsyncRead, a.pending = false ∧
      fetchSectors d =
        ({ d with
            doInitialRead := false
            sectorPos := 0
            sectorBuffer := overlay d.sectorBuffer data
            async := a }, true) := by
  unfold fetchSectors
  rw [if_pos hfirst]
  unfold initialRead asyncReadFinish
  cases hpending : d.async.pending with
  | false =>
    refine ⟨d.async, hpending, ?_⟩
    rw [if_neg Bool.false_ne_true]
    dsimp only
    rw [hread]
  | true =>
    obtain ⟨hcomplete, hsector, hcount⟩ := hrequest.resolve_left (by rw [hpending]; decide)
    have hwork : asyncReadWork { d with doInitialRead := false, sectorPos := 0 } =
        { d with
          doInitialRead := false
          sectorPos := 0
          sectorBuffer := overlay d.sectorBuffer data
          async := { d.async with complete := true, result := true } } := by
      unfold asyncReadWork
      dsimp only
      rw [if_pos ⟨hpending, hcomplete⟩, hsector, hcount, hread]
    refine ⟨{ d.async with pending := false, complete := false, result := true }, rfl, ?_⟩
    rw [if_pos rfl, hwork]

theorem fetch_later {d : Drive} (hfirst : d.doInitialRead = false) : fetchSectors d = (d, true) := by
  unfold fetchSectors
  rw [if_neg (Bool.eq_false_iff.mp hfirst)]

theorem read_callback (cfg : BoardConfig) (dma : Dma) {d : Drive} (hcommand : IsRead d.command)
    (hblock : 0 < d.blocksize) (hrange : outOfRange d = false) {f : Drive}
    (hfetch : fetchSectors d = (f, true)) :
    ∃ (irqstat service : Bool) (blockcount : ℕ),
      ideCallback cfg dma d =
        ({ presentSector f with irqstat := irqstat, service := service, blockcount := blockcount },
          none) := by
  have hread : readSector d = (presentSector f, true) := by
    rw [readSector_eq, hfetch]
  have hsingle (hdecode : decode d.command = .read) :
      ideCallback cfg dma d = (ideIrqRaise (presentSector f), none) := by
    have hcallback : commandCallback cfg dma d =
        { drive := ideIrqRaise (presentSector f), err := 0, dma := none } := by
      unfold commandCallback callbackRead
      rw [hdecode]
      dsimp only
      rw [if_neg (Bool.eq_false_iff.mp hrange), hread]
      rfl
    exact ideCallback_done hcallback
  rcases hcommand with hc | hc | hc
  · rw [hsingle (by rw [hc]; decide)]
    exact ⟨true, (presentSector f).service || true, (presentSector f).blockcount, rfl⟩
  · rw [hsingle (by rw [hc]; decide)]
    exact ⟨true, (presentSector f).service || true, (presentSector f).blockcount, rfl⟩
  · have hdecode : decode d.command = .readMultiple := by
      rw [hc]
      decide
    have hcallback : commandCallback cfg dma d =
        { drive := countSector (presentSector f), err := 0, dma := none } := by
      unfold commandCallback callbackReadMultiple
      rw [hdecode]
      dsimp only
      rw [if_neg (by omega), if_neg (Bool.eq_false_iff.mp hrange), hread]
      rfl
    rw [ideCallback_done hcallback]
    unfold countSector
    dsimp only
    split
    · exact ⟨true, (presentSector f).service || true, _, rfl⟩
    · exact ⟨(presentSector f).irqstat, (presentSector f).service, _, rfl⟩

def Buffered (sb : ℕ → Byte) (data : List Byte) : Prop := ∀ i < data.length, sb i = data.getD i 0

theorem overlay_buffered (sb : ℕ → Byte) (data : List Byte) : Buffered (overlay sb data) data :=
  fun _ hi => if_pos hi

/-- A callback is due that has `n` more sectors to hand out, the next one being number `k` of
    what was fetched. -/
structure Due (c : Byte) (p : Place) (data : List Byte) (k n : ℕ) (d : Drive) : Prop where
  command : d.command = c
  place : placeOf d = p
  count : sectorCount d.tf = n
  blocksize : 0 < d.blocksize
  timer : d.timer = false
  fetched : ∃ (sb : ℕ → Byte) (a : AsyncRead), Buffered sb data ∧ a.pending = false ∧
    fetchSectors d =
      ({ d with doInitialRead := false, sectorPos := k, sectorBuffer := sb, async := a }, true)

/-- Sector `k` is in the buffer of the data port. -/
structure Offering (c : Byte) (p : Place) (data : List Byte) (k n : ℕ) (d : Drive) : Prop where
  command : d.command = c
  stat : d.tf.atastat = drqStat ||| drdyStat ||| dscStat
  pos : d.tf.pos = 0
  place : placeOf d = p
  count : sectorCount d.tf = n
  blocksize : 0 < d.blocksize
  timer : d.timer = false
  fetched : d.doInitialRead = false
  sectorPos : d.sectorPos = k + 1
  pending : d.async.pending = false
  held : Buffered d.sectorBuffer data
  buffer : ∀ i < 256, d.buffer i =
    d.sectorBuffer (512 * k + 2 * i + 1) ++ d.sectorBuffer (512 * k + 2 * i)

theorem due_step (cfg : BoardConfig) {c : Byte} {p : Place} {data : List Byte} {k n : ℕ} {d : Drive}
    (h : Due c p data k n d) (hread : IsRead c) (hvalid : p.Valid)
    (hrange : p.index + n ≤ d.image.lastSector.toNat + 1) :
    Offering c p data k n (ideCallback cfg .disabled d).1 ∧
      (ideCallback cfg .disabled d).1.image = d.image ∧ (ideCallback cfg .disabled d).2 = none := by
  obtain ⟨sb, a, hheld, hpending, hfetch⟩ := h.fetched
  have hin : outOfRange d = false := by
    rw [outOfRange_index (by rw [h.place]; exact hvalid), h.place, h.count]
    exact hrange
  obtain ⟨irqstat, service, blockcount, hcallback⟩ :=
    read_callback cfg .disabled (by rw [h.command]; exact hread) h.blocksize hin hfetch
  rw [hcallback]
  exact ⟨⟨h.command, rfl, rfl, h.place, h.count, h.blocksize, h.timer, rfl, rfl, hpending, hheld,
    fun i hi => if_pos hi⟩, rfl, rfl⟩

def Waiting (cfg : BoardConfig) (d f : Drive) : Prop :=
  f = callbackNow cfg d ∨ f = { d with timer := true }

theorem sectorDue_waiting (cfg : BoardConfig) (d : Drive) : Waiting cfg d (sectorDue cfg d) := by
  unfold sectorDue
  split
  · split
    · exact Or.inl rfl
    · split
      · exact Or.inr rfl
      · exact Or.inl rfl
  · exact Or.inr rfl

theorem tick_waiting (cfg : BoardConfig) {b : Board} {d : Drive} (h : Waiting cfg d b.current)
    (htimer : d.timer = false) (hnow : (callbackNow cfg d).timer = false)
    (hquiet : (ideCallback cfg .disabled d).2 = none) :
    (boardMachine cfg).next b (.tick b.curDev .disabled) = b.put b.curDev (callbackNow cfg d) ∧
      (boardMachine cfg).answer b (.tick b.curDev .disabled) = none := by
  cases h with
  | inl hdone =>
    have hoff : (b.drive b.curDev).timer = false := by
      change b.current.timer = false
      rw [hdone]
      exact hnow
    refine ⟨?_, ?_⟩
    · rw [tick_off cfg hoff, ← hdone, put_current]
    · change (if (b.drive b.curDev).timer = true then _ else _ : Board × Option Output).2 = _
      rw [if_neg (Bool.eq_false_iff.mp hoff)]
  | inr harmed =>
    have hon : (b.drive b.curDev).timer = true := by
      change b.current.timer = true
      rw [harmed]
    have hdrive : { b.drive b.curDev with timer := false } = d := by
      change { b.current with timer := false } = d
      rw [harmed, ← htimer]
    refine ⟨?_, ?_⟩
    · rw [tick_armed cfg hon, hdrive]
      rfl
    · change (if (b.drive b.curDev).timer = true then _ else _ : Board × Option Output).2 = _
      rw [if_pos hon, hdrive]
      dsimp only
      rw [hquiet]
      rfl

theorem offering_taken (cfg : BoardConfig) {c : Byte} {p : Place} {data : List Byte} {k n : ℕ}
    {d : Drive} (h : Offering c p data k n d) (hread : IsRead c) (hvalid : p.Valid) :
    (n = 1 → busy (sectorTaken cfg { d with tf.pos := 0, tf.atastat := drdyStat ||| dscStat }) = false) ∧
      (n ≠ 1 → ∃ e,
        Waiting cfg e (sectorTaken cfg { d with tf.pos := 0, tf.atastat := drdyStat ||| dscStat }) ∧
        Due c p.next data (k + 1) (n - 1) e ∧ e.image = d.image) := by
  have hpio : isPioRead d.command = true := by
    rw [h.command]
    exact hread.pio
  constructor
  · intro hone
    have hlast := secount_last (h.count.trans hone)
    unfold sectorTaken
    dsimp only
    rw [if_pos hpio, if_neg (not_not.mpr hlast)]
    exact busy_rest rfl
  · intro hmore
    obtain ⟨hne, hcount⟩ := @secount_step d.tf (by rw [h.count]; exact hmore)
    rw [h.count] at hcount
    have hplace := @ideNextSector_place
      { d with
        tf.secount := d.tf.secount - 1, tf.pos := 0, tf.atastat := drdyStat ||| dscStat } (by
          change (placeOf d).Valid
          rw [h.place]
          exact hvalid)
    obtain ⟨sector, drvsel, cylinder, addr, hfields⟩ := ideNextSector_fields
      { d with tf.secount := d.tf.secount - 1, tf.pos := 0, tf.atastat := drdyStat ||| dscStat }
    have htaken : sectorTaken cfg { d with tf.pos := 0, tf.atastat := drdyStat ||| dscStat } =
        sectorDue cfg
          { ideNextSector { d with
              tf.secount := d.tf.secount - 1, tf.pos := 0, tf.atastat := drdyStat ||| dscStat } with
            tf.atastat := bsyStat ||| drdyStat ||| dscStat } := by
      unfold sectorTaken
      dsimp only
      rw [if_pos hpio, if_pos hne]
    refine ⟨_, by rw [htaken]; exact sectorDue_waiting cfg _, ?_, ?_⟩
    · rw [hfields] at hplace ⊢
      refine ⟨h.command, ?_, hcount, h.blocksize, h.timer, d.sectorBuffer, d.async, h.held, h.pending, ?_⟩
      · exact hplace.trans (congrArg Place.next h.place)
      · refine Eq.trans (fetch_later ?_) ?_
        · exact h.fetched
        · rw [h.fetched, h.sectorPos]
    · rw [hfields]

def sectorOut (ch : Bool) : List Event := .tick ch .disabled :: List.replicate 256 .readData

def wordsAt (data : List Byte) (k : ℕ) : List Output :=
  (List.range 256).map fun i =>
    .word (data.getD (512 * k + 2 * i + 1) 0 ++ data.getD (512 * k + 2 * i) 0)

theorem run_sectorOut (cfg : BoardConfig) {c : Byte} (hread : IsRead c) {p : Place}
    {data : List Byte} {k n : ℕ} {d : Drive} (h : Due c p data k n d) {b : Board}
    (hwait : Waiting cfg d b.current) (hvalid : p.Valid)
    (hrange : p.index + n ≤ d.image.lastSector.toNat + 1) (hdata : 512 * (k + 1) ≤ data.length) :
    (boardMachine cfg).Along WhileDrq b (sectorOut b.curDev) ∧
      (boardMachine cfg).trace b (sectorOut b.curDev) = wordsAt data k ∧
      ∃ g, (boardMachine cfg).run b (sectorOut b.curDev) = b.put b.curDev g ∧
        (n = 1 → busy g = false) ∧
        (n ≠ 1 → ∃ e, Waiting cfg e g ∧ Due c p.next data (k + 1) (n - 1) e ∧ e.image = d.image) := by
  obtain ⟨hoffer, himage, hquiet⟩ := due_step cfg h hread hvalid hrange
  obtain ⟨hnext, hanswer⟩ := tick_waiting cfg hwait h.timer hoffer.timer hquiet
  have hcurrent := current_put b (callbackNow cfg d)
  change Offering c p data k n (callbackNow cfg d) at hoffer
  change (callbackNow cfg d).image = d.image at himage
  generalize callbackNow cfg d = f at *
  obtain ⟨hrun, htrace, halong⟩ := reads_sector cfg (b := b.put b.curDev f)
    (by rw [hcurrent, hoffer.command]; exact hread.moves)
    (by rw [hcurrent, hoffer.stat]; decide) (by rw [hcurrent]; exact hoffer.pos)
  rw [hcurrent] at hrun htrace
  obtain ⟨hlast, hmore⟩ := offering_taken cfg hoffer hread hvalid
  unfold sectorOut
  refine ⟨⟨trivial, ?_⟩, ?_, ?_⟩
  · rw [hnext]
    exact halong
  · rw [Machine.trace_cons, hanswer, hnext, htrace]
    refine List.map_congr_left ?_
    intro i hi
    have hlt := List.mem_range.mp hi
    rw [hoffer.buffer i hlt, hoffer.held _ (by omega), hoffer.held _ (by omega)]
  · refine ⟨_, ?_, hlast, ?_⟩
    · rw [Machine.run_cons, hnext, hrun]
      exact put_put b _ _ _
    · intro hne
      obtain ⟨e, hwait', hdue, himage'⟩ := hmore hne
      exact ⟨e, hwait', hdue, himage'.trans himage⟩

theorem run_sectorsOut (cfg : BoardConfig) {c : Byte} (hread : IsRead c) {data : List Byte} {n : ℕ}
    {p : Place} {k : ℕ} {d : Drive} {b : Board} (h : Due c p data k (n + 1) d)
    (hwait : Waiting cfg d b.current) (hvalid : p.Valid) (hlinear : p.Linear (n + 1))
    (hrange : p.index + (n + 1) ≤ d.image.lastSector.toNat + 1)
    (hdata : 512 * (k + (n + 1)) ≤ data.length) :
    (boardMachine cfg).Along WhileDrq b (List.replicate (n + 1) (sectorOut b.curDev)).flatten ∧
      (boardMachine cfg).trace b (List.replicate (n + 1) (sectorOut b.curDev)).flatten =
        (List.range' k (n + 1)).flatMap (wordsAt data) ∧
      ∃ g, (boardMachine cfg).run b (List.replicate (n + 1) (sectorOut b.curDev)).flatten =
          b.put b.curDev g ∧ busy g = false := by
  induction n generalizing p k d b with
  | zero =>
    obtain ⟨halong, htrace, g, hrun, hlast, -⟩ :=
      run_sectorOut cfg hread h hwait hvalid hrange (by omega)
    rw [List.replicate_one, List.flatten_singleton]
    refine ⟨halong, ?_, g, hrun, hlast rfl⟩
    rw [htrace, List.range'_one, List.flatMap_singleton]
  | succ n ih =>
    obtain ⟨halong, htrace, g, hrun, -, hmore⟩ :=
      run_sectorOut cfg hread h hwait hvalid hrange (by omega)
    obtain ⟨e, hwait', hdue, himage⟩ := hmore (by omega)
    obtain ⟨hindex, hrest⟩ := Place.Linear.step.mp hlinear
    have hcurrent := current_put b g
    obtain ⟨halong', htrace', g', hrun', hbusy⟩ := ih (b := b.put b.curDev g) hdue
      (by rw [hcurrent]; exact hwait') hvalid.next hrest (by rw [himage, hindex]; omega) (by omega)
    rw [List.replicate_succ, List.flatten_cons, Machine.trace_append, Machine.run_append, hrun]
    refine ⟨(boardMachine cfg).along_append halong ?_, ?_, g', hrun'.trans (put_put b _ _ _), hbusy⟩
    · rw [hrun]
      exact halong'
    · rw [htrace, List.range'_succ, List.flatMap_cons]
      exact congrArg _ htrace'

def begun (d : Drive) : Drive := { d with tf.atastat := bsyStat, doInitialRead := true }

def started (cfg : BoardConfig) (prev : Byte) (d : Drive) : Drive :=
  if d.command = winRead ∧ prev = winSetidle1 then callbackNow cfg (begun d)
  else asyncReadStartCurrent cfg { begun d with timer := true }

theorem begun_due {c : Byte} {d : Drive} (hcommand : d.command = c) (htimer : d.timer = false)
    (hblock : 0 < d.blocksize) {data : List Byte}
    (hdata : hddImageRead d.image (BitVec.ofNat 32 (ideGetSector d))
      (BitVec.ofNat 32 (sectorCount d.tf)) = some data) {a : AsyncRead}
    (hrequest : a.pending = false ∨
      a.complete = false ∧ a.sector = BitVec.ofNat 32 (ideGetSector d) ∧
        a.count = BitVec.ofNat 32 (sectorCount d.tf)) :
    Due c (placeOf d) data 0 (sectorCount d.tf) { begun d with async := a } := by
  obtain ⟨a', hpending, hfetch⟩ := fetch_first (d := { begun d with async := a }) rfl hdata hrequest
  exact ⟨hcommand, rfl, rfl, hblock, htimer, _, a', overlay_buffered _ _, hpending, hfetch⟩

theorem started_waiting (cfg : BoardConfig) (prev : Byte) {c : Byte} {d : Drive}
    (hcommand : d.command = c) (htimer : d.timer = false) (hblock : 0 < d.blocksize)
    (hpending : d.async.pending = false) (hrange : outOfRange d = false) {data : List Byte}
    (hdata : hddImageRead d.image (BitVec.ofNat 32 (ideGetSector d))
      (BitVec.ofNat 32 (sectorCount d.tf)) = some data) :
    ∃ e, Waiting cfg e (started cfg prev d) ∧ Due c (placeOf d) data 0 (sectorCount d.tf) e ∧
      e.image = d.image := by
  have hsame := begun_due hcommand htimer hblock hdata (a := d.async) (Or.inl hpending)
  unfold started
  split
  · exact ⟨begun d, Or.inl rfl, hsame, rfl⟩
  · have hskip : ¬ (outOfRange { begun d with timer := true } = true ∨
        ({ begun d with timer := true } : Drive).command = winReadMultiple ∧
          ({ begun d with timer := true } : Drive).blocksize = 0) := by
      rintro (hout | ⟨-, hzero⟩)
      · exact Bool.false_ne_true (hrange.symm.trans hout)
      · change d.blocksize = 0 at hzero
        omega
    unfold asyncReadStartCurrent
    rw [if_neg hskip]
    unfold asyncReadStart
    split
    · exact ⟨begun d, Or.inr rfl, hsame, rfl⟩
    · exact ⟨_, Or.inr rfl, begun_due hcommand htimer hblock hdata (Or.inr ⟨rfl, rfl, rfl⟩), rfl⟩

theorem start_read (cfg : BoardConfig) {b : Board} (hidle : Idle b.current)
    (hrange : outOfRange b.current = false) {data : List Byte}
    (hdata : hddImageRead b.current.image (BitVec.ofNat 32 (ideGetSector b.current))
      (BitVec.ofNat 32 (sectorCount b.current.tf)) = some data) {c : Byte} (hread : IsRead c) :
    ∃ d f, (boardMachine cfg).next b (.writeb 7 c) = b.put b.curDev f ∧ Waiting cfg d f ∧
      Due c (placeOf b.current) data 0 (sectorCount b.current.tf) d ∧
      d.image = b.current.image := by
  have hcommand : (boardMachine cfg).next b (.writeb 7 c) = writeCommand cfg b c := rfl
  have hnow : ¬ (busy b.current = true ∧ (c ≠ winVerify ∨ b.current.command ≠ winIdentify)) := by
    rw [hidle.stat]
    exact fun h => Bool.false_ne_true h.1
  have hstart (hdecode : decode c ≠ .diagnostics) :
      writeCommand cfg b c = b.put b.curDev (startCommand cfg b.current.command
        { ideIrqLower b.current with command := c, tf.error := 0 }) := by
    unfold writeCommand
    dsimp only
    rw [if_neg hnow, if_neg hdecode]
  have hsingle (hdecode : decode c = .read) :
      startCommand cfg b.current.command { ideIrqLower b.current with command := c, tf.error := 0 } =
        started cfg b.current.command
          { ideIrqLower b.current with command := c, tf.error := 0 } := by
    unfold startCommand
    dsimp only
    rw [hdecode]
    rfl
  have hmultiple (hdecode : decode c = .readMultiple) :
      startCommand cfg b.current.command { ideIrqLower b.current with command := c, tf.error := 0 } =
        started cfg b.current.command
          { ideIrqLower b.current with command := c, tf.error := 0, blockcount := 0 } := by
    unfold startCommand
    dsimp only
    rw [hdecode]
    rfl
  rcases hread with hc | hc | hc
  · have hdecode : decode c = .read := by
      rw [hc]
      decide
    obtain ⟨d, hwait, hdue, himage⟩ := started_waiting cfg b.current.command
      (d := { ideIrqLower b.current with command := c, tf.error := 0 }) rfl hidle.timer
      hidle.blocksize hidle.pending hrange hdata
    rw [← hsingle hdecode] at hwait
    exact ⟨d, _, hcommand.trans (hstart (by rw [hdecode]; decide)), hwait, hdue, himage⟩
  · have hdecode : decode c = .read := by
      rw [hc]
      decide
    obtain ⟨d, hwait, hdue, himage⟩ := started_waiting cfg b.current.command
      (d := { ideIrqLower b.current with command := c, tf.error := 0 }) rfl hidle.timer
      hidle.blocksize hidle.pending hrange hdata
    rw [← hsingle hdecode] at hwait
    exact ⟨d, _, hcommand.trans (hstart (by rw [hdecode]; decide)), hwait, hdue, himage⟩
  · have hdecode : decode c = .readMultiple := by
      rw [hc]
      decide
    obtain ⟨d, hwait, hdue, himage⟩ := started_waiting cfg b.current.command
      (d := { ideIrqLower b.current with command := c, tf.error := 0, blockcount := 0 }) rfl
      hidle.timer hidle.blocksize hidle.pending hrange hdata
    rw [← hmultiple hdecode] at hwait
    exact ⟨d, _, hcommand.trans (hstart (by rw [hdecode]; decide)), hwait, hdue, himage⟩

def readProgram (ch : Bool) (c : Byte) (n : ℕ) : List Event :=
  .writeb 7 c :: (List.replicate n (sectorOut ch)).flatten

theorem reads_fetched (cfg : BoardConfig) {b : Board} (hidle : Idle b.current)
    (hvalid : (placeOf b.current).Valid) (hrange : outOfRange b.current = false)
    (hlinear : (placeOf b.current).Linear (sectorCount b.current.tf)) {data : List Byte}
    (hdata : hddImageRead b.current.image (BitVec.ofNat 32 (ideGetSector b.current))
      (BitVec.ofNat 32 (sectorCount b.current.tf)) = some data)
    (hlength : 512 * sectorCount b.current.tf ≤ data.length) {c : Byte} (hread : IsRead c) :
    (boardMachine cfg).Along WhileDrq b (readProgram b.curDev c (sectorCount b.current.tf)) ∧
      (boardMachine cfg).trace b (readProgram b.curDev c (sectorCount b.current.tf)) =
        (List.range (sectorCount b.current.tf)).flatMap (wordsAt data) ∧
      ∃ g, (boardMachine cfg).run b (readProgram b.curDev c (sectorCount b.current.tf)) =
          b.put b.curDev g ∧ busy g = false := by
  obtain ⟨d, f, hnext, hwait, hdue, himage⟩ := start_read cfg hidle hrange hdata hread
  rw [outOfRange_index hvalid] at hrange
  have hcurrent := current_put b f
  obtain ⟨n, hn⟩ := Nat.exists_eq_add_of_le' (sectorCount_pos b.current.tf).1
  rw [hn] at hrange hlinear hdue hlength ⊢
  obtain ⟨halong, htrace, g, hrun, hbusy⟩ := run_sectorsOut cfg hread (b := b.put b.curDev f) hdue
    (by rw [hcurrent]; exact hwait) hvalid hlinear (by rw [himage]; exact hrange) (by omega)
  have hdev : (b.put b.curDev f).curDev = b.curDev := rfl
  have hanswer : (boardMachine cfg).answer b (.writeb 7 c) = none := rfl
  rw [hdev] at halong htrace hrun
  rw [put_put] at hrun
  unfold readProgram
  refine ⟨⟨trivial, ?_⟩, ?_, g, ?_, hbusy⟩
  · rw [hnext]
    exact halong
  · rw [Machine.trace_cons, hanswer, hnext, htrace, List.range_eq_range']
    rfl
  · rw [Machine.run_cons, hnext, hrun]

end PeepeeBox.SectorReads
