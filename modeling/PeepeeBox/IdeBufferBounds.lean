import PeepeeBox.AtaRange
import PeepeeBox.DataPort
import PeepeeBox.LbaRegisters

set_option autoImplicit false

/-!
# The bounds of the ATA buffers

`hdc_ide.c` moves a sector through a buffer of 256 words and takes the sectors of a read from a
buffer of 256 sectors.
-/
namespace PeepeeBox.IdeBufferBounds
open AtaRange AtaTwins DataPort HdcIde HddImage HostFile IdeBoard LbaRegisters TraceMachine

def portWord (d : Drive) : Option ℕ :=
  if d.command = winInvalid ∨ d.command = winPacketcmd then none else some (d.tf.pos >>> 1)

/-- The word of the buffer that a step moves through the data port. -/
def wordMoved (b : Board) : Event → Option ℕ
  | .writeb addr _ => if addr = 0 then portWord b.current else none
  | .writeData _ => portWord b.current
  | .readb addr => if addr = 0 then portWord b.current else none
  | .readData => portWord b.current
  | _ => none

def copyOf (d : Drive) : Option ℕ :=
  if isPioRead d.command = true ∧ (d.command = winReadMultiple → d.blocksize ≠ 0) ∧ outOfRange d = false then
    some (if d.doInitialRead then 0 else d.sectorPos)
  else none

def sectorCopied (b : Board) (e : Event) : Option ℕ :=
  match calls b e with
  | some (_, _, d) => copyOf d
  | none => none

def started (d : Drive) : Bool := isPioRead d.command && !d.doInitialRead

def reached (d : Drive) : ℕ := d.sectorPos + if d.timer then 1 else 0

def InBuffer (d : Drive) : Prop := started d = true → reached d ≤ 256

theorem sectorCount_range (tf : Tf) : 1 ≤ sectorCount tf ∧ sectorCount tf ≤ 256 := by
  have hlt := tf.secount.isLt
  unfold sectorCount
  split
  · rename_i h
    have hpos : tf.secount.toNat ≠ 0 := fun hzero => h (BitVec.eq_of_toNat_eq hzero)
    omega
  · omega

structure Keeps (d e : Drive) : Prop where
  command : e.command = d.command
  initial : e.doInitialRead = d.doInitialRead
  sectorPos : e.sectorPos = d.sectorPos
  secount : e.tf.secount = d.tf.secount
  timer : e.timer = d.timer
  pos : e.tf.pos = d.tf.pos

theorem Keeps.refl (d : Drive) : Keeps d d := ⟨rfl, rfl, rfl, rfl, rfl, rfl⟩

theorem Keeps.trans {d e f : Drive} (h : Keeps d e) (h' : Keeps e f) : Keeps d f :=
  ⟨h'.command.trans h.command, h'.initial.trans h.initial, h'.sectorPos.trans h.sectorPos,
    h'.secount.trans h.secount, h'.timer.trans h.timer, h'.pos.trans h.pos⟩

theorem Keeps.started {d e : Drive} (h : Keeps d e) : started e = started d := by
  simp only [IdeBufferBounds.started, h.command, h.initial]

theorem Keeps.inBuffer {d e : Drive} (h : Keeps d e) : InBuffer e ↔ InBuffer d := by
  unfold InBuffer reached
  rw [h.started, h.sectorPos, h.timer]

theorem asyncReadWork_keeps (d : Drive) : Keeps d (asyncReadWork d) := by
  unfold asyncReadWork
  split
  · split
    · exact ⟨rfl, rfl, rfl, rfl, rfl, rfl⟩
    · exact ⟨rfl, rfl, rfl, rfl, rfl, rfl⟩
  · exact .refl d

theorem asyncReadFill_keeps (d : Drive) (n : ℕ) : Keeps d (asyncReadFill d n) := by
  unfold asyncReadFill
  split
  · split
    · exact ⟨rfl, rfl, rfl, rfl, rfl, rfl⟩
    · exact .refl d
  · exact .refl d

theorem asyncReadFinish_keeps (d : Drive) : Keeps d (asyncReadFinish d).1 := by
  have hwork := asyncReadWork_keeps d
  unfold asyncReadFinish
  split
  · exact hwork.trans ⟨rfl, rfl, rfl, rfl, rfl, rfl⟩
  · exact .refl d

theorem asyncReadStartCurrent_keeps (cfg : BoardConfig) (d : Drive) :
    Keeps d (asyncReadStartCurrent cfg d) := by
  unfold asyncReadStartCurrent asyncReadStart
  split
  · exact .refl d
  split
  · exact .refl d
  · exact ⟨rfl, rfl, rfl, rfl, rfl, rfl⟩

theorem initialRead_keeps (d : Drive) (sector count : ℕ) : Keeps d (initialRead d sector count).1 := by
  have hfinish := asyncReadFinish_keeps d
  unfold initialRead
  split
  · rename_i e ok hdone
    rw [hdone] at hfinish
    exact hfinish
  · rename_i e hdone
    rw [hdone] at hfinish
    split
    · exact hfinish.trans ⟨rfl, rfl, rfl, rfl, rfl, rfl⟩
    · exact hfinish

theorem ideNextSector_keeps (d : Drive) : Keeps d (ideNextSector d) := by
  unfold ideNextSector
  dsimp only
  split
  · exact ⟨rfl, rfl, rfl, rfl, rfl, rfl⟩
  split
  · split
    · exact ⟨rfl, rfl, rfl, rfl, rfl, rfl⟩
    · exact ⟨rfl, rfl, rfl, rfl, rfl, rfl⟩
  · exact ⟨rfl, rfl, rfl, rfl, rfl, rfl⟩

/-- Sector `p` has gone to the buffer. -/
structure Copied (d e : Drive) (p : ℕ) : Prop where
  command : e.command = d.command
  initial : e.doInitialRead = false
  sectorPos : e.sectorPos = p + 1
  secount : e.tf.secount = d.tf.secount
  timer : e.timer = d.timer
  pos : e.tf.pos = 0

theorem Copied.keeps {d e f : Drive} {p : ℕ} (h : Copied d e p) (h' : Keeps e f) : Copied d f p :=
  ⟨h'.command.trans h.command, h'.initial.trans h.initial, h'.sectorPos.trans h.sectorPos,
    h'.secount.trans h.secount, h'.timer.trans h.timer, h'.pos.trans h.pos⟩

theorem readSector_copied (d : Drive) :
    Copied d (readSector d).1 (if d.doInitialRead then 0 else d.sectorPos) := by
  unfold readSector
  dsimp only
  cases hfirst : d.doInitialRead with
  | true =>
    have hread := initialRead_keeps { d with doInitialRead := false, sectorPos := 0 } (ideGetSector d)
      (sectorCount d.tf)
    exact ⟨hread.command, hread.initial, congrArg (· + 1) hread.sectorPos, hread.secount, hread.timer, rfl⟩
  | false => exact ⟨rfl, hfirst, rfl, rfl, rfl, rfl⟩

def Reads (d e : Drive) : Prop :=
  match copyOf d with
  | some p => Copied d e p
  | none => Keeps { d with tf.pos := 0 } e

theorem ideCallback_fails {cfg : BoardConfig} {dma : Dma} {d : Drive} {err : Byte} (herr : err ≠ 0)
    (h : commandCallback cfg dma d = .failed d err) :
    Keeps { d with tf.pos := 0 } (ideCallback cfg dma d).1 := by
  unfold ideCallback
  rw [h]
  dsimp only [Outcome.failed]
  rw [if_pos herr]
  exact ⟨rfl, rfl, rfl, rfl, rfl, rfl⟩

theorem ideCallback_copies {cfg : BoardConfig} {dma : Dma} {d : Drive} {p : ℕ}
    (h : Copied d (commandCallback cfg dma d).drive p) : Copied d (ideCallback cfg dma d).1 p := by
  unfold ideCallback
  dsimp only
  split
  · exact ⟨h.command, h.initial, h.sectorPos, h.secount, h.timer, rfl⟩
  · exact h

theorem callbackRead_reads {cfg : BoardConfig} {dma : Dma} {d : Drive} (h : decode d.command = .read)
    (hpio : isPioRead d.command = true) (hone : d.command ≠ winReadMultiple) :
    Reads d (ideCallback cfg dma d).1 := by
  have hcommand : commandCallback cfg dma d = callbackRead d := by
    unfold commandCallback
    rw [h]
  have hcopied := readSector_copied d
  unfold Reads copyOf
  cases hrange : outOfRange d with
  | true =>
    rw [if_neg fun h => Bool.noConfusion h.2.2]
    have hfails : commandCallback cfg dma d = .failed d idnfErr := hcommand.trans (if_pos hrange)
    exact ideCallback_fails (by decide) hfails
  | false =>
    rw [if_pos ⟨hpio, fun hmany => absurd hmany hone, rfl⟩]
    apply ideCallback_copies
    rw [hcommand]
    unfold callbackRead
    rw [hrange]
    exact hcopied.keeps ⟨rfl, rfl, rfl, rfl, rfl, rfl⟩

theorem callbackReadMultiple_reads {cfg : BoardConfig} {dma : Dma} {d : Drive}
    (h : d.command = winReadMultiple) : Reads d (ideCallback cfg dma d).1 := by
  have hcommand : commandCallback cfg dma d = callbackReadMultiple d := by
    unfold commandCallback
    rw [h]
    rfl
  have hcopied := readSector_copied d
  unfold Reads copyOf
  by_cases hblock : d.blocksize = 0
  · rw [if_neg fun hc => hc.2.1 h hblock]
    have hfails : commandCallback cfg dma d = .failed d abrtErr := hcommand.trans (if_pos hblock)
    exact ideCallback_fails (by decide) hfails
  cases hrange : outOfRange d with
  | true =>
    rw [if_neg fun h => Bool.noConfusion h.2.2]
    have hfails : commandCallback cfg dma d = .failed d idnfErr :=
      hcommand.trans ((if_neg hblock).trans (if_pos hrange))
    exact ideCallback_fails (by decide) hfails
  | false =>
    rw [if_pos ⟨by rw [h]; rfl, fun _ => hblock, rfl⟩]
    apply ideCallback_copies
    rw [hcommand]
    unfold callbackReadMultiple
    rw [if_neg hblock, hrange]
    dsimp only
    rw [if_neg Bool.false_ne_true]
    split
    · exact hcopied.keeps ⟨rfl, rfl, rfl, rfl, rfl, rfl⟩
    · exact hcopied.keeps ⟨rfl, rfl, rfl, rfl, rfl, rfl⟩

theorem ideCallback_reads (cfg : BoardConfig) (dma : Dma) {d : Drive} (h : isPioRead d.command = true) :
    Reads d (ideCallback cfg dma d).1 := by
  have hcases : d.command = winRead ∨ d.command = winReadNoretry ∨ d.command = winReadMultiple := by
    simpa [isPioRead, or_assoc] using h
  rcases hcases with hread | hread | hread
  · exact callbackRead_reads (by rw [hread]; rfl) h (by rw [hread]; decide)
  · exact callbackRead_reads (by rw [hread]; rfl) h (by rw [hread]; decide)
  · exact callbackReadMultiple_reads hread

structure Elsewhere (d e : Drive) : Prop where
  command : isPioRead e.command = false
  pos : e.tf.pos = d.tf.pos ∨ e.tf.pos = 0

theorem Elsewhere.of_keeps {d e : Drive} (h : isPioRead d.command = false) (hkeeps : Keeps d e) :
    Elsewhere d e := ⟨by rw [hkeeps.command, h], Or.inl hkeeps.pos⟩

theorem Elsewhere.trans {d e f : Drive} (h : Elsewhere d e) (h' : Elsewhere e f) : Elsewhere d f := by
  refine ⟨h'.command, ?_⟩
  cases h'.pos with
  | inl hsame =>
    rw [hsame]
    exact h.pos
  | inr hzero => exact Or.inr hzero

theorem afterWrite_elsewhere {d : Drive} (h : isPioRead d.command = false) : Elsewhere d (afterWrite d) := by
  unfold afterWrite
  dsimp only
  split
  · have hnext := ideNextSector_keeps
      { d with
        tf.secount := d.tf.secount - 1, tf.atastat := drqStat ||| drdyStat ||| dscStat, tf.pos := 0 }
    exact ⟨by rw [hnext.command]; exact h, Or.inr hnext.pos⟩
  · exact ⟨rfl, Or.inl rfl⟩

theorem blockWritten_fields (d : Drive) :
    (blockWritten d).command = d.command ∧ (blockWritten d).tf.pos = d.tf.pos := by
  unfold blockWritten
  split
  · exact ⟨rfl, rfl⟩
  · exact ⟨rfl, rfl⟩

theorem callbackWrite_elsewhere {d : Drive} (h : isPioRead d.command = false) :
    Elsewhere d (callbackWrite d).drive := by
  unfold callbackWrite
  split
  · exact ⟨h, Or.inl rfl⟩
  · have hwritten : isPioRead (ideIrqRaise (writeSector d).1).command = false := h
    have hnext := afterWrite_elsewhere hwritten
    exact ⟨hnext.command, hnext.pos⟩

theorem callbackWriteMultiple_elsewhere {d : Drive} (h : isPioRead d.command = false) :
    Elsewhere d (callbackWriteMultiple d).drive := by
  have hfields := blockWritten_fields (writeSector d).1
  have hblock : Elsewhere d (blockWritten (writeSector d).1) :=
    ⟨by rw [hfields.1]; exact h, Or.inl hfields.2⟩
  unfold callbackWriteMultiple
  split
  · exact ⟨h, Or.inl rfl⟩
  split
  · exact ⟨h, Or.inl rfl⟩
  · exact hblock.trans (afterWrite_elsewhere hblock.command)

theorem fetchAll_fields (d : Drive) :
    (fetchAll d).1.command = d.command ∧ (fetchAll d).1.tf.pos = 0 := by
  unfold fetchAll
  split
  · have hread := initialRead_keeps { wholeRead d with doInitialRead := false } (ideGetSector d)
      (sectorCount d.tf)
    exact ⟨hread.command, hread.pos⟩
  · exact ⟨rfl, rfl⟩

theorem callbackReadDma_elsewhere (cfg : BoardConfig) (dma : Dma) {d : Drive}
    (h : isPioRead d.command = false) : Elsewhere d (callbackReadDma cfg dma d).drive := by
  have hfields := fetchAll_fields d
  have hfetch : Elsewhere d (fetchAll d).1 := ⟨by rw [hfields.1, h], Or.inr hfields.2⟩
  rw [callbackReadDma_eq]
  split
  · exact ⟨h, Or.inl rfl⟩
  split
  · exact ⟨h, Or.inl rfl⟩
  unfold deliver
  split
  · exact hfetch
  split
  · cases dma with
    | disabled => exact ⟨hfetch.command, hfetch.pos⟩
    | done memory => exact ⟨hfetch.command, hfetch.pos⟩
    | failed moved => exact hfetch
  · exact hfetch

theorem callbackWriteDma_elsewhere (cfg : BoardConfig) (dma : Dma) {d : Drive}
    (h : isPioRead d.command = false) : Elsewhere d (callbackWriteDma cfg dma d).drive := by
  unfold callbackWriteDma
  split
  · exact ⟨h, Or.inl rfl⟩
  split
  · exact ⟨h, Or.inl rfl⟩
  split
  · cases dma with
    | disabled => exact ⟨h, Or.inl rfl⟩
    | done memory => exact ⟨h, Or.inl rfl⟩
    | failed moved => exact ⟨h, Or.inl rfl⟩
  · exact ⟨h, Or.inl rfl⟩

theorem ideSetSector_fields (d : Drive) (n : ℤ) :
    (ideSetSector d n).command = d.command ∧ (ideSetSector d n).tf.pos = d.tf.pos := by
  unfold ideSetSector
  split
  · exact ⟨rfl, rfl⟩
  · exact ⟨rfl, rfl⟩

theorem decode_pioRead :
    ∀ {c : Byte}, decode c = .read ∨ decode c = .readMultiple → isPioRead c = true := by
  decide +kernel

theorem commandCallback_elsewhere (cfg : BoardConfig) (dma : Dma) {d : Drive}
    (h : isPioRead d.command = false) : Elsewhere d (commandCallback cfg dma d).drive := by
  have hsame : Elsewhere d d := ⟨h, Or.inl rfl⟩
  unfold commandCallback
  cases hdecode : decode d.command with
  | read =>
    rw [decode_pioRead (Or.inl hdecode)] at h
    cases h
  | readMultiple =>
    rw [decode_pioRead (Or.inr hdecode)] at h
    cases h
  | readDma => exact callbackReadDma_elsewhere cfg dma h
  | write => exact callbackWrite_elsewhere h
  | writeMultiple => exact callbackWriteMultiple_elsewhere h
  | writeDma => exact callbackWriteDma_elsewhere cfg dma h
  | format =>
    dsimp only
    unfold callbackFormat
    split
    · exact hsame
    · exact ⟨h, Or.inl rfl⟩
  | seek =>
    dsimp only
    split
    · exact hsame
    · exact ⟨h, Or.inl rfl⟩
  | verify =>
    dsimp only
    split
    · exact hsame
    · exact ⟨h, Or.inr rfl⟩
  | setMultiple =>
    dsimp only
    split
    · exact hsame
    · exact ⟨h, Or.inl rfl⟩
  | setFeatures =>
    have hmap := ideSetFeatures_map cfg d d rfl rfl
    dsimp only
    split
    · exact hsame
    · rename_i e hset
      rw [hset, Option.map_some] at hmap
      rw [Option.some.inj hmap]
      exact ⟨h, Or.inl rfl⟩
  | readNativeMax =>
    have hset := ideSetSector_fields d
    exact ⟨by dsimp only [Outcome.plain, ready, ideIrqRaise, ideIrq]; rw [(hset _).1, h], Or.inl (hset _).2⟩
  | recal => exact ⟨h, Or.inl rfl⟩
  | idle => exact ⟨h, Or.inl rfl⟩
  | power => exact ⟨h, Or.inl rfl⟩
  | specify => exact ⟨rfl, Or.inl rfl⟩
  | identify => exact ⟨h, Or.inr rfl⟩
  | srst => exact hsame
  | pidentify => exact hsame
  | packet => exact hsame
  | diagnostics => exact hsame
  | invalid => exact hsame

theorem ideCallback_elsewhere (cfg : BoardConfig) (dma : Dma) {d : Drive}
    (h : isPioRead d.command = false) : Elsewhere d (ideCallback cfg dma d).1 := by
  have hcommand := commandCallback_elsewhere cfg dma h
  unfold ideCallback
  dsimp only
  split
  · exact ⟨hcommand.command, Or.inr rfl⟩
  · exact hcommand

theorem ideCallback_pos (cfg : BoardConfig) (dma : Dma) (d : Drive) :
    (ideCallback cfg dma d).1.tf.pos = d.tf.pos ∨ (ideCallback cfg dma d).1.tf.pos = 0 := by
  cases h : isPioRead d.command with
  | false => exact (ideCallback_elsewhere cfg dma h).pos
  | true =>
    have hreads := ideCallback_reads cfg dma h
    unfold Reads at hreads
    split at hreads
    · exact Or.inr hreads.pos
    · exact Or.inr hreads.pos

theorem InBuffer.of_not_started {d : Drive} (h : started d = false) : InBuffer d := by
  intro hstarted
  rw [h] at hstarted
  cases hstarted

theorem InBuffer.of_not_read {d : Drive} (h : isPioRead d.command = false) : InBuffer d := by
  apply InBuffer.of_not_started
  rw [started, h, Bool.false_and]

theorem ideCallback_copied (cfg : BoardConfig) (dma : Dma) {d : Drive} {p : ℕ} (h : copyOf d = some p) :
    InBuffer (ideCallback cfg dma d).1 ↔ p + 1 + (if d.timer then 1 else 0) ≤ 256 := by
  have hpio : isPioRead d.command = true := by
    unfold copyOf at h
    split at h
    · rename_i hcopies
      exact hcopies.1
    · cases h
  have hcopied := ideCallback_reads cfg dma hpio
  unfold Reads at hcopied
  rw [h] at hcopied
  have hstarted : started (ideCallback cfg dma d).1 = true := by
    simp [started, hcopied.command, hcopied.initial, hpio]
  unfold InBuffer reached
  rw [hcopied.sectorPos, hcopied.timer]
  simp [hstarted]

theorem ideCallback_rests (cfg : BoardConfig) (dma : Dma) {d : Drive} (h : copyOf d = none) (hinBuffer : InBuffer d) :
    InBuffer (ideCallback cfg dma d).1 := by
  cases hpio : isPioRead d.command with
  | false => exact .of_not_read (ideCallback_elsewhere cfg dma hpio).command
  | true =>
    have hkeeps := ideCallback_reads cfg dma hpio
    unfold Reads at hkeeps
    rw [h] at hkeeps
    exact hkeeps.inBuffer.mpr hinBuffer

theorem copyOf_started {d : Drive} {p : ℕ} (h : copyOf d = some p) :
    (d.doInitialRead = true ∧ p = 0) ∨ (started d = true ∧ p = d.sectorPos) := by
  unfold copyOf at h
  split at h
  · rename_i hcopies
    have hp := Option.some.inj h
    cases hfirst : d.doInitialRead with
    | true => exact Or.inl ⟨rfl, by simpa [hfirst] using hp.symm⟩
    | false =>
      refine Or.inr ⟨by simp [started, hcopies.1, hfirst], ?_⟩
      simpa [hfirst] using hp.symm
  · cases h

theorem more_to_come {tf : Tf} (h : tf.secount - 1 ≠ 0) : 2 ≤ sectorCount tf := by
  have hlt := tf.secount.isLt
  unfold sectorCount
  split
  · bv_omega
  · omega

theorem sectorDue_pos (cfg : BoardConfig) (d : Drive) :
    (sectorDue cfg d).tf.pos = d.tf.pos ∨ (sectorDue cfg d).tf.pos = 0 := by
  unfold sectorDue
  split
  · split
    · exact ideCallback_pos cfg _ d
    split
    · exact Or.inl rfl
    · exact ideCallback_pos cfg _ d
  · exact Or.inl rfl

theorem armed_iff (d : Drive) : InBuffer { d with timer := true } ↔ (started d = true → d.sectorPos ≤ 255) := by
  constructor
  · intro h hstarted
    have hreached : d.sectorPos + 1 ≤ 256 := h hstarted
    omega
  · intro h hstarted
    have hroom := h hstarted
    change d.sectorPos + 1 ≤ 256
    omega

theorem sectorDue_inBuffer (cfg : BoardConfig) {d : Drive} (h : started d = true → reached d ≤ 255) :
    InBuffer (sectorDue cfg d) := by
  have harmed : InBuffer { d with timer := true } := by
    apply (armed_iff d).mpr
    intro hstarted
    have hreached := h hstarted
    unfold reached at hreached
    omega
  have hnow : InBuffer (callbackNow cfg d) := by
    cases hcopy : copyOf d with
    | none =>
      refine ideCallback_rests cfg _ hcopy fun hstarted => ?_
      have hreached := h hstarted
      omega
    | some p =>
      apply (ideCallback_copied cfg _ hcopy).mpr
      cases copyOf_started hcopy with
      | inl hfirst =>
        rw [hfirst.2]
        split <;> omega
      | inr hnext =>
        have hreached := h hnext.1
        unfold reached at hreached
        rw [hnext.2]
        omega
  unfold sectorDue
  split
  · split
    · exact hnow
    split
    · exact harmed
    · exact hnow
  · exact harmed

theorem sectorTaken_pos (cfg : BoardConfig) (d : Drive) :
    (sectorTaken cfg d).tf.pos = d.tf.pos ∨ (sectorTaken cfg d).tf.pos = 0 := by
  unfold sectorTaken
  dsimp only
  split
  · split
    · have hnext := (ideNextSector_keeps { d with tf.secount := d.tf.secount - 1 }).pos
      have hdue := sectorDue_pos cfg
        { ideNextSector { d with tf.secount := d.tf.secount - 1 } with
          tf.atastat := bsyStat ||| drdyStat ||| dscStat }
      exact hdue.imp_left fun hsame => hsame.trans hnext
    · exact Or.inl rfl
  · exact Or.inl rfl

def needed (d : Drive) : ℕ := reached d + sectorCount d.tf

theorem sectorTaken_inBuffer (cfg : BoardConfig) {d : Drive} (h : started d = true → needed d ≤ 257) :
    InBuffer (sectorTaken cfg d) := by
  unfold sectorTaken
  dsimp only
  split
  · split
    · rename_i hmore
      have hcount := more_to_come hmore
      have hnext : Keeps { d with tf.secount := d.tf.secount - 1 }
          { ideNextSector { d with tf.secount := d.tf.secount - 1 } with
            tf.atastat := bsyStat ||| drdyStat ||| dscStat } :=
        (ideNextSector_keeps _).trans ⟨rfl, rfl, rfl, rfl, rfl, rfl⟩
      apply sectorDue_inBuffer
      intro hstarted
      rw [hnext.started] at hstarted
      have hneeded := h hstarted
      unfold needed reached at hneeded
      unfold reached
      rw [hnext.sectorPos, hnext.timer]
      dsimp only
      omega
    · exact .of_not_read rfl
  · exact .of_not_read rfl

theorem ideReadData_pos (cfg : BoardConfig) {d : Drive} (h : d.tf.pos < 512) :
    (ideReadData cfg d).1.tf.pos < 512 := by
  unfold ideReadData
  split
  · exact h
  split
  · exact Nat.zero_lt_succ _
  dsimp only
  split
  · have htaken := sectorTaken_pos cfg { d with tf.pos := 0, tf.atastat := drdyStat ||| dscStat }
    rw [or_self] at htaken
    exact Nat.lt_of_le_of_lt (Nat.le_of_eq htaken) (Nat.zero_lt_succ _)
  · dsimp only
    omega

def TakenCounted (d : Drive) : Prop := started d = true → 512 ≤ d.tf.pos + 2 → needed d ≤ 257

theorem ideReadData_inBuffer (cfg : BoardConfig) {d : Drive} (h : InBuffer d) (hcounted : TakenCounted d) :
    InBuffer (ideReadData cfg d).1 := by
  unfold ideReadData
  split
  · exact h
  split
  · exact h
  dsimp only
  split
  · rename_i hfull
    exact sectorTaken_inBuffer cfg fun hstarted => hcounted hstarted hfull
  · exact h

def GivenCounted (d : Drive) : Prop :=
  started d = true → 512 ≤ d.tf.pos + 2 → d.sectorPos + sectorCount d.tf ≤ 256

theorem ideWriteData_pos (cfg : BoardConfig) {d : Drive} (val : BitVec 16) (h : d.tf.pos < 512) :
    (ideWriteData cfg d val).tf.pos < 512 := by
  have hgiven (e : Drive) (he : e.tf.pos = 0) : (sectorGiven cfg e).tf.pos = 0 := by
    have hcall := ideCallback_pos cfg .disabled e
    rw [he, or_self] at hcall
    unfold sectorGiven
    split
    · split
      · exact hcall
      split
      · exact he
      · exact hcall
    · exact he
  unfold ideWriteData
  split
  · exact h
  split
  · exact Nat.zero_lt_succ _
  dsimp only
  split
  · rw [hgiven _ rfl]
    exact Nat.zero_lt_succ _
  · dsimp only
    omega

theorem ideWriteData_inBuffer (cfg : BoardConfig) {d : Drive} (val : BitVec 16) (h : InBuffer d)
    (hcounted : GivenCounted d) : InBuffer (ideWriteData cfg d val) := by
  unfold ideWriteData
  split
  · exact h
  split
  · exact h
  dsimp only
  split
  · rename_i hfull
    unfold sectorGiven
    dsimp only
    split
    · rename_i hmultiple
      have hpio : isPioRead d.command = false := by
        rw [hmultiple]
        rfl
      have hnow (e : Drive) (he : e.command = d.command) : InBuffer (callbackNow cfg e) :=
        .of_not_read (ideCallback_elsewhere cfg .disabled (by rw [he, hpio])).command
      split
      · exact hnow _ rfl
      split
      · exact .of_not_read hpio
      · exact hnow _ rfl
    · apply (armed_iff _).mpr
      intro hstarted
      have hrange := sectorCount_range d.tf
      have hroom := hcounted hstarted hfull
      change d.sectorPos ≤ 255
      omega
  · exact h

theorem startCommand_pos (cfg : BoardConfig) (prev : Byte) (d : Drive) :
    (startCommand cfg prev d).tf.pos = d.tf.pos ∨ (startCommand cfg prev d).tf.pos = 0 := by
  have hnow (e : Drive) (he : e.tf.pos = d.tf.pos) :
      (callbackNow cfg e).tf.pos = d.tf.pos ∨ (callbackNow cfg e).tf.pos = 0 := by
    have hcall := ideCallback_pos cfg .disabled e
    rwa [he] at hcall
  have hfetch (e : Drive) (he : e.tf.pos = d.tf.pos) :
      (asyncReadStartCurrent cfg e).tf.pos = d.tf.pos :=
    (asyncReadStartCurrent_keeps cfg e).pos.trans he
  unfold startCommand
  dsimp only
  cases decode d.command with
  | read =>
    dsimp only
    split
    · exact hnow _ rfl
    · exact Or.inl (hfetch _ rfl)
  | readMultiple =>
    dsimp only
    split
    · exact hnow _ rfl
    · exact Or.inl (hfetch _ rfl)
  | readDma =>
    dsimp only
    split
    · exact hnow _ rfl
    · exact Or.inl (hfetch _ rfl)
  | identify => exact hnow _ rfl
  | setFeatures => exact hnow _ rfl
  | pidentify => exact hnow _ rfl
  | setMultiple => exact hnow _ rfl
  | idle => exact hnow _ rfl
  | power => exact hnow _ rfl
  | write => exact Or.inr rfl
  | writeMultiple => exact Or.inr rfl
  | format => exact Or.inr rfl
  | packet => exact Or.inr rfl
  | diagnostics => exact Or.inl rfl
  | recal => exact Or.inl rfl
  | seek => exact Or.inl rfl
  | srst => exact Or.inl rfl
  | writeDma => exact Or.inl rfl
  | verify => exact Or.inl rfl
  | readNativeMax => exact Or.inl rfl
  | specify => exact Or.inl rfl
  | invalid => exact Or.inl rfl

theorem startCommand_other (cfg : BoardConfig) (prev : Byte) {d : Drive} (h : isPioRead d.command = false) :
    isPioRead (startCommand cfg prev d).command = false := by
  have hnow (e : Drive) (he : e.command = d.command) : isPioRead (callbackNow cfg e).command = false :=
    (ideCallback_elsewhere cfg .disabled (by rw [he, h])).command
  unfold startCommand
  dsimp only
  cases hdecode : decode d.command with
  | read =>
    rw [decode_pioRead (Or.inl hdecode)] at h
    cases h
  | readMultiple =>
    rw [decode_pioRead (Or.inr hdecode)] at h
    cases h
  | readDma =>
    dsimp only
    split
    · exact hnow _ rfl
    · rw [(asyncReadStartCurrent_keeps cfg _).command]
      exact h
  | identify => exact hnow _ rfl
  | setFeatures => exact hnow _ rfl
  | pidentify => exact hnow _ rfl
  | setMultiple => exact hnow _ rfl
  | idle => exact hnow _ rfl
  | power => exact hnow _ rfl
  | write => exact h
  | writeMultiple => exact h
  | format => exact h
  | packet => exact h
  | diagnostics => exact h
  | recal => exact h
  | seek => exact h
  | srst => exact h
  | writeDma => exact h
  | verify => exact h
  | readNativeMax => exact h
  | specify => exact h
  | invalid => exact h

theorem decode_of_pioRead {c : Byte} (h : isPioRead c = true) :
    decode c = .read ∨ decode c = .readMultiple := by
  have hcases : c = winRead ∨ c = winReadNoretry ∨ c = winReadMultiple := by
    simpa [isPioRead, or_assoc] using h
  rcases hcases with rfl | rfl | rfl
  · exact Or.inl rfl
  · exact Or.inl rfl
  · exact Or.inr rfl

theorem fetched_now (cfg : BoardConfig) {d : Drive} (hfirst : d.doInitialRead = true) :
    InBuffer (callbackNow cfg d) := by
  cases hcopy : copyOf d with
  | none =>
    apply ideCallback_rests cfg _ hcopy
    apply InBuffer.of_not_started
    simp [started, hfirst]
  | some p =>
    apply (ideCallback_copied cfg _ hcopy).mpr
    cases copyOf_started hcopy with
    | inl hzero =>
      rw [hzero.2]
      split <;> omega
    | inr hnext =>
      have hstarted := hnext.1
      simp [started, hfirst] at hstarted

theorem startCommand_read (cfg : BoardConfig) (prev : Byte) {d : Drive} (h : isPioRead d.command = true) :
    InBuffer (startCommand cfg prev d) := by
  have hlater (e : Drive) (he : e.doInitialRead = true) : InBuffer (asyncReadStartCurrent cfg e) := by
    apply InBuffer.of_not_started
    rw [(asyncReadStartCurrent_keeps cfg e).started]
    simp [started, he]
  unfold startCommand
  dsimp only
  cases decode_of_pioRead h with
  | inl hone =>
    rw [hone]
    dsimp only
    split
    · exact fetched_now cfg rfl
    · exact hlater _ rfl
  | inr hmany =>
    rw [hmany]
    dsimp only
    split
    · exact fetched_now cfg rfl
    · exact hlater _ rfl

/-- A sector moved through the data port while a read goes on leaves room in the sector buffer for the
    sectors that the count register still asks for. -/
def Counted (b : Board) : Event → Prop
  | .writeb addr _ => addr = 0 → GivenCounted b.current
  | .writeData _ => GivenCounted b.current
  | .readb addr => addr = 0 → TakenCounted b.current
  | .readData => TakenCounted b.current
  | _ => True

def AllInBuffer (b : Board) : Prop := ∀ ch, InBuffer (b.drive ch)

theorem AllInBuffer.put {b : Board} (h : AllInBuffer b) (c : Bool) {e : Drive} (he : InBuffer e) :
    AllInBuffer (b.put c e) := by
  intro ch
  rw [put_drive]
  split
  · exact he
  · exact h ch

theorem AllInBuffer.of_keeps {b b' : Board} (h : AllInBuffer b)
    (hkeeps : ∀ ch, Keeps (b.drive ch) (b'.drive ch)) : AllInBuffer b' :=
  fun ch => (hkeeps ch).inBuffer.mpr (h ch)

theorem disarmed_inBuffer {d e : Drive} (h : InBuffer d) (hcommand : e.command = d.command)
    (hinitial : e.doInitialRead = d.doInitialRead) (hpos : e.sectorPos = d.sectorPos)
    (htimer : e.timer = false) : InBuffer e := by
  intro hstarted
  have hreached : reached d ≤ 256 := h (by simpa [started, hcommand, hinitial] using hstarted)
  unfold reached at hreached ⊢
  rw [hpos, htimer]
  simp only [Bool.false_eq_true, if_false]
  omega

theorem startReset_inBuffer {b : Board} (diag : Bool) (h : AllInBuffer b) : AllInBuffer (startReset b diag) := by
  intro ch
  have hfinish := asyncReadFinish_keeps (b.drive ch)
  exact disarmed_inBuffer (h ch) hfinish.command hfinish.initial hfinish.sectorPos rfl

theorem select_keeps (b : Board) (ch c : Bool) : Keeps (b.drive c) ((select b ch).drive c) := by
  unfold select
  split
  · exact ⟨rfl, rfl, rfl, rfl, rfl, rfl⟩
  · exact .refl _

theorem atRest_keeps {f : Drive → Drive} (hf : ∀ d, Keeps d (f d)) (d : Drive) : Keeps d (atRest f d) := by
  unfold atRest
  split
  · exact .refl d
  · exact hf d

theorem setDrvsel_keeps (val head : Byte) (d : Drive) : Keeps d (setDrvsel val head d) :=
  ⟨rfl, rfl, rfl, rfl, rfl, rfl⟩

theorem writeDrvsel_keeps {b : Board} {val : Byte} (h : endsReset b val = false) (ch : Bool) :
    Keeps (b.drive ch) ((writeDrvsel b val).drive ch) := by
  rw [writeDrvsel_drive h]
  exact (select_keeps b _ ch).trans (atRest_keeps (setDrvsel_keeps val _) _)

theorem writeDrvsel_inBuffer {b : Board} (val : Byte) (h : AllInBuffer b) : AllInBuffer (writeDrvsel b val) := by
  cases hends : endsReset b val with
  | true =>
    intro ch
    have hselect := select_keeps b (val.getLsbD 4) ch
    rw [writeDrvsel_ends hends]
    exact disarmed_inBuffer (h ch) hselect.command hselect.initial hselect.sectorPos rfl
  | false => exact h.of_keeps (writeDrvsel_keeps hends)

theorem startCommand_inBuffer (cfg : BoardConfig) (prev : Byte) (d : Drive) : InBuffer (startCommand cfg prev d) := by
  cases hpio : isPioRead d.command with
  | false => exact .of_not_read (startCommand_other cfg prev hpio)
  | true => exact startCommand_read cfg prev hpio

theorem writeCommand_inBuffer (cfg : BoardConfig) {b : Board} (val : Byte) (h : AllInBuffer b) :
    AllInBuffer (writeCommand cfg b val) := by
  have hother (hdiag : decode val = .diagnostics) : isPioRead val = false := by
    cases hpio : isPioRead val with
    | false => rfl
    | true =>
      cases decode_of_pioRead hpio with
      | inl hone => exact absurd (hone.symm.trans hdiag) (by decide)
      | inr hmany => exact absurd (hmany.symm.trans hdiag) (by decide)
  unfold writeCommand
  dsimp only
  split
  · exact h
  split
  · rename_i hdiag
    exact startReset_inBuffer true (h.put _ (.of_not_read (hother hdiag)))
  · exact h.put _ (startCommand_inBuffer cfg _ _)

theorem both_keeps {b : Board} {f : Drive → Drive} (hf : ∀ d, InBuffer d → InBuffer (f d)) (h : AllInBuffer b) :
    AllInBuffer (b.both (atRest f)) := by
  intro ch
  change InBuffer (atRest f (b.drive ch))
  unfold atRest
  split
  · exact h ch
  · exact hf _ (h ch)

theorem ideWriteb_inBuffer (cfg : BoardConfig) {b : Board} (addr : BitVec 3) (val : Byte) (h : AllInBuffer b)
    (hcounted : addr = 0 → GivenCounted b.current) : AllInBuffer (ideWriteb cfg b addr val) := by
  have hn := addr.isLt
  have hzero (hn : addr.toNat = 0) : GivenCounted b.current := hcounted (BitVec.eq_of_toNat_eq hn)
  dsimp only [ideWriteb]
  generalize addr.toNat = n at *
  interval_cases n
  · exact h.put _ (ideWriteData_inBuffer cfg _ (h b.curDev) (hzero rfl))
  · exact both_keeps (fun _ hd => hd) h
  · exact both_keeps (fun _ hd => hd) h
  · exact both_keeps (fun _ hd => hd) h
  · exact both_keeps (fun _ hd => hd) h
  · exact both_keeps (fun _ hd => hd) h
  · exact writeDrvsel_inBuffer val h
  · exact writeCommand_inBuffer cfg val h

theorem ideReadb_inBuffer (cfg : BoardConfig) {b : Board} (addr : BitVec 3) (h : AllInBuffer b)
    (hcounted : addr = 0 → TakenCounted b.current) : AllInBuffer (ideReadb cfg b addr).1 := by
  unfold ideReadb
  dsimp only
  split
  · rename_i hn
    exact h.put _ (ideReadData_inBuffer cfg (h b.curDev) (hcounted (BitVec.eq_of_toNat_eq hn)))
  · exact h
  · exact h
  · exact h
  · exact h
  · exact h
  · exact h
  · exact h.put _ (h b.curDev)

theorem ideWriteDevctl_inBuffer {b : Board} (val : Byte) (h : AllInBuffer b) : AllInBuffer (ideWriteDevctl b val) := by
  unfold ideWriteDevctl
  dsimp only
  split
  · intro ch
    have hquiet := h ch
    exact disarmed_inBuffer hquiet rfl rfl rfl rfl
  split
  · exact startReset_inBuffer (b := { b with diag := false }) false h
  · exact h

theorem ideBoardCallback_inBuffer {b : Board} (h : AllInBuffer b) : AllInBuffer (ideBoardCallback b) := by
  have hboth : AllInBuffer
      { b.both fun d => { d with tf.atastat := drdyStat ||| dscStat, reset := false } with
        curDev := false } := h
  unfold ideBoardCallback
  dsimp only
  split
  · exact hboth.put false (hboth false)
  · exact hboth

theorem tick_inBuffer (cfg : BoardConfig) (dma : Dma) {d : Drive} (htimer : d.timer = true) (h : InBuffer d) :
    InBuffer (ideCallback cfg dma { d with timer := false }).1 := by
  cases hcopy : copyOf { d with timer := false } with
  | none => exact ideCallback_rests cfg dma hcopy (disarmed_inBuffer h rfl rfl rfl rfl)
  | some p =>
    apply (ideCallback_copied cfg dma hcopy).mpr
    simp only [Bool.false_eq_true, if_false]
    cases copyOf_started hcopy with
    | inl hfirst => omega
    | inr hnext =>
      have hreached := h hnext.1
      unfold reached at hreached
      rw [htimer, if_pos rfl] at hreached
      rw [hnext.2]
      exact hreached

theorem boardStep_inBuffer (cfg : BoardConfig) {b : Board} (e : Event) (h : AllInBuffer b)
    (hcounted : Counted b e) : AllInBuffer (boardStep cfg b e).1 := by
  cases e with
  | writeb addr val => exact ideWriteb_inBuffer cfg addr val h hcounted
  | writeData val => exact h.put _ (ideWriteData_inBuffer cfg val (h b.curDev) hcounted)
  | readb addr => exact ideReadb_inBuffer cfg addr h hcounted
  | readData => exact h.put _ (ideReadData_inBuffer cfg (h b.curDev) hcounted)
  | readAltStatus => exact h
  | writeDevctl val => exact ideWriteDevctl_inBuffer val h
  | tick ch dma =>
    unfold boardStep
    dsimp only
    split
    · rename_i htimer
      exact h.put ch (tick_inBuffer cfg dma htimer (h ch))
    · exact h
  | boardTick =>
    unfold boardStep
    dsimp only
    split
    · exact ideBoardCallback_inBuffer (b := { b with timer := false }) h
    · exact h
  | fill ch n => exact h.put ch ((asyncReadFill_keeps _ n).inBuffer.mpr (h ch))
  | work ch => exact h.put ch ((asyncReadWork_keeps _).inBuffer.mpr (h ch))

def Places (b : Board) : Prop := ∀ ch, (b.drive ch).tf.pos < 512

theorem put_places {b : Board} (h : Places b) (c : Bool) {e : Drive} (he : e.tf.pos < 512) :
    Places (b.put c e) := by
  intro ch
  rw [put_drive]
  split
  · exact he
  · exact h ch

theorem Places.of_keeps {b b' : Board} (h : Places b) (hkeeps : ∀ ch, Keeps (b.drive ch) (b'.drive ch)) :
    Places b' := fun ch => by rw [(hkeeps ch).pos]; exact h ch

theorem kept_or_reset {k n : ℕ} (h : n < 512) (hk : k = n ∨ k = 0) : k < 512 := by omega

theorem startReset_places {b : Board} (h : Places b) (diag : Bool) : Places (startReset b diag) := by
  intro ch
  have hfinish := (asyncReadFinish_keeps (b.drive ch)).pos
  change (asyncReadFinish (b.drive ch)).1.tf.pos < 512
  rw [hfinish]
  exact h ch

theorem writeCommand_places (cfg : BoardConfig) {b : Board} (val : Byte) (h : Places b) :
    Places (writeCommand cfg b val) := by
  have hcurrent : b.current.tf.pos < 512 := h b.curDev
  have hstart := startCommand_pos cfg b.current.command
    { ideIrqLower b.current with command := val, tf.error := 0 }
  have hput : Places (b.put b.curDev { ideIrqLower b.current with command := val, tf.error := 0 }) :=
    put_places h _ hcurrent
  unfold writeCommand
  dsimp only
  split
  · exact h
  split
  · exact startReset_places hput true
  · exact put_places h _ (kept_or_reset hcurrent hstart)

theorem ideWriteb_places (cfg : BoardConfig) {b : Board} (addr : BitVec 3) (val : Byte) (h : Places b) :
    Places (ideWriteb cfg b addr val) := by
  have hn := addr.isLt
  have hboth (f : Drive → Drive) (hf : ∀ d, (f d).tf.pos = d.tf.pos) : Places (b.both (atRest f)) := by
    intro ch
    change (atRest f (b.drive ch)).tf.pos < 512
    unfold atRest
    split
    · exact h ch
    · rw [hf]
      exact h ch
  dsimp only [ideWriteb]
  generalize addr.toNat = n at *
  interval_cases n
  · exact put_places h _ (ideWriteData_pos cfg _ (h b.curDev))
  · exact hboth _ fun _ => rfl
  · exact hboth _ fun _ => rfl
  · exact hboth _ fun _ => rfl
  · exact hboth _ fun _ => rfl
  · exact hboth _ fun _ => rfl
  · change Places (writeDrvsel b val)
    cases hends : endsReset b val with
    | true =>
      intro ch
      rw [writeDrvsel_ends hends]
      change ((select b (val.getLsbD 4)).drive ch).tf.pos < 512
      rw [(select_keeps b _ ch).pos]
      exact h ch
    | false => exact h.of_keeps (writeDrvsel_keeps hends)
  · exact writeCommand_places cfg val h

theorem ideBoardCallback_places {b : Board} (h : Places b) : Places (ideBoardCallback b) := by
  have hboth : Places
      { b.both fun d => { d with tf.atastat := drdyStat ||| dscStat, reset := false } with
        curDev := false } := h
  unfold ideBoardCallback
  dsimp only
  split
  · exact put_places hboth false (hboth false)
  · exact hboth

theorem boardStep_places (cfg : BoardConfig) {b : Board} (e : Event) (h : Places b) :
    Places (boardStep cfg b e).1 := by
  cases e with
  | writeb addr val => exact ideWriteb_places cfg addr val h
  | writeData val => exact put_places h _ (ideWriteData_pos cfg val (h b.curDev))
  | readb addr =>
    change Places (ideReadb cfg b addr).1
    unfold ideReadb
    dsimp only
    split
    · exact put_places h _ (ideReadData_pos cfg (h b.curDev))
    · exact h
    · exact h
    · exact h
    · exact h
    · exact h
    · exact h
    · exact put_places h _ (h b.curDev)
  | readData => exact put_places h _ (ideReadData_pos cfg (h b.curDev))
  | readAltStatus => exact h
  | writeDevctl val =>
    change Places (ideWriteDevctl b val)
    unfold ideWriteDevctl
    dsimp only
    split
    · exact h
    split
    · exact startReset_places (b := { b with diag := false }) h false
    · exact h
  | tick ch dma =>
    unfold boardStep
    dsimp only
    split
    · exact put_places h ch (kept_or_reset (h ch) (ideCallback_pos cfg dma { b.drive ch with timer := false }))
    · exact h
  | boardTick =>
    unfold boardStep
    dsimp only
    split
    · exact ideBoardCallback_places (b := { b with timer := false }) h
    · exact h
  | fill ch n => exact put_places h ch (by rw [(asyncReadFill_keeps _ n).pos]; exact h ch)
  | work ch => exact put_places h ch (by rw [(asyncReadWork_keeps _).pos]; exact h ch)

theorem copyOf_lt {d : Drive} {p : ℕ} (h : started d = true → d.sectorPos < 256) (hcopy : copyOf d = some p) :
    p < 256 := by
  cases copyOf_started hcopy with
  | inl hfirst => omega
  | inr hnext =>
    rw [hnext.2]
    exact h hnext.1

theorem copyOf_other {d : Drive} (h : isPioRead d.command = false) : copyOf d = none := by
  unfold copyOf
  rw [h]
  simp

theorem writeDataCalls_copies {d called : Drive} {val : BitVec 16} (h : writeDataCalls d val = some called) :
    copyOf called = none := by
  apply copyOf_other
  unfold writeDataCalls givenCalls at h
  split at h
  · cases h
  split at h
  · rename_i hmultiple
    obtain rfl := Option.some.inj h
    rw [hmultiple.1]
    rfl
  · cases h

theorem readDataCalls_copies {d called : Drive} {p : ℕ} (hcounted : TakenCounted d)
    (h : readDataCalls d = some called) (hcopy : copyOf called = some p) : p < 256 := by
  unfold readDataCalls takenCalls at h
  split at h
  · cases h
  rename_i hfull
  dsimp only at h
  split at h
  · rename_i hmore
    have hcount : d.tf.secount - 1 ≠ 0 := hmore.2
    have htwo : 2 ≤ sectorCount d.tf := more_to_come hcount
    have hnext := ideNextSector_keeps
      { d with tf.secount := d.tf.secount - 1, tf.pos := 0, tf.atastat := drdyStat ||| dscStat }
    have hcalled : Keeps
        { d with tf.secount := d.tf.secount - 1, tf.pos := 0, tf.atastat := drdyStat ||| dscStat } called := by
      unfold dueCalls at h
      split at h
      · rw [← Option.some.inj h]
        exact hnext.trans ⟨rfl, rfl, rfl, rfl, rfl, rfl⟩
      · cases h
    refine copyOf_lt (fun hstarted => ?_) hcopy
    rw [hcalled.started] at hstarted
    have hneeded := hcounted hstarted (by simp only [not_or, not_lt] at hfull; omega)
    unfold needed reached at hneeded
    rw [hcalled.sectorPos]
    dsimp only
    omega
  · cases h

theorem startCalls_fields {prev : Byte} {d called : Drive} (h : startCalls prev d = some called) :
    called.command = d.command ∧ (isPioRead d.command = true → called.doInitialRead = true) := by
  have hother {c : Command} (hdecode : decode d.command = c) (hread : c ≠ .read) (hmany : c ≠ .readMultiple) :
      isPioRead d.command = true → called.doInitialRead = true := by
    intro hpio
    cases decode_of_pioRead hpio with
    | inl hone => exact absurd (hdecode.symm.trans hone) hread
    | inr hmult => exact absurd (hdecode.symm.trans hmult) hmany
  unfold startCalls at h
  cases hdecode : decode d.command <;> rw [hdecode] at h <;> dsimp only at h
  case read =>
    split at h
    · rw [← Option.some.inj h]
      exact ⟨rfl, fun _ => rfl⟩
    · cases h
  case identify => exact ⟨by rw [← Option.some.inj h], hother hdecode (by decide) (by decide)⟩
  case setFeatures => exact ⟨by rw [← Option.some.inj h], hother hdecode (by decide) (by decide)⟩
  case pidentify => exact ⟨by rw [← Option.some.inj h], hother hdecode (by decide) (by decide)⟩
  case setMultiple => exact ⟨by rw [← Option.some.inj h], hother hdecode (by decide) (by decide)⟩
  case idle => exact ⟨by rw [← Option.some.inj h], hother hdecode (by decide) (by decide)⟩
  case power => exact ⟨by rw [← Option.some.inj h], hother hdecode (by decide) (by decide)⟩
  all_goals cases h

theorem commandCalls_copies {b : Board} {val : Byte} {called : Drive} {p : ℕ}
    (h : commandCalls b val = some called) (hcopy : copyOf called = some p) : p < 256 := by
  unfold commandCalls at h
  dsimp only at h
  split at h
  · cases h
  have hfields := startCalls_fields h
  cases copyOf_started hcopy with
  | inl hfirst => omega
  | inr hnext =>
    have hstarted : isPioRead called.command = true ∧ called.doInitialRead = false := by
      simpa [started] using hnext.1
    have hfirst := hfields.2 (hfields.1 ▸ hstarted.1)
    rw [hstarted.2] at hfirst
    cases hfirst

theorem tick_copies {d : Drive} {p : ℕ} (htimer : d.timer = true) (h : InBuffer d)
    (hcopy : copyOf { d with timer := false } = some p) : p < 256 := by
  refine copyOf_lt (fun hstarted => ?_) hcopy
  have hreached := h hstarted
  unfold reached at hreached
  rw [htimer, if_pos rfl] at hreached
  exact hreached

theorem copied_in_buffer {b : Board} (h : AllInBuffer b) {e : Event} (hcounted : Counted b e) {p : ℕ}
    (hcopied : sectorCopied b e = some p) : p < 256 := by
  have hgiven {val : BitVec 16} {called : Drive} (hcall : writeDataCalls b.current val = some called)
      (hcopy : copyOf called = some p) : p < 256 := by
    rw [writeDataCalls_copies hcall] at hcopy
    cases hcopy
  unfold sectorCopied at hcopied
  split at hcopied
  · rename_i ch dma called hcalls
    cases e with
    | writeb addr val =>
      dsimp only [calls] at hcalls
      split at hcalls
      · obtain ⟨d, hcall, hd⟩ := Option.map_eq_some_iff.mp hcalls
        cases hd
        exact hgiven hcall hcopied
      split at hcalls
      · obtain ⟨d, hcall, hd⟩ := Option.map_eq_some_iff.mp hcalls
        cases hd
        exact commandCalls_copies hcall hcopied
      · cases hcalls
    | writeData val =>
      obtain ⟨d, hcall, hd⟩ := Option.map_eq_some_iff.mp hcalls
      cases hd
      exact hgiven hcall hcopied
    | readb addr =>
      dsimp only [calls] at hcalls
      split at hcalls
      · rename_i haddr
        obtain ⟨d, hcall, hd⟩ := Option.map_eq_some_iff.mp hcalls
        cases hd
        exact readDataCalls_copies (hcounted haddr) hcall hcopied
      · cases hcalls
    | readData =>
      obtain ⟨d, hcall, hd⟩ := Option.map_eq_some_iff.mp hcalls
      cases hd
      exact readDataCalls_copies hcounted hcall hcopied
    | tick c dma =>
      dsimp only [calls] at hcalls
      split at hcalls
      · rename_i htimer
        cases hcalls
        exact tick_copies htimer (h _) hcopied
      · cases hcalls
    | readAltStatus => cases hcalls
    | writeDevctl val => cases hcalls
    | boardTick => cases hcalls
    | fill c n => cases hcalls
    | work c => cases hcalls
  · cases hcopied

theorem setup_inBuffer (cfg : BoardConfig) (img : Bool → Image) (preset : BitVec 32) (maxMultiple : Byte) :
    AllInBuffer (setupBoard cfg img preset maxMultiple) := fun _ => .of_not_read rfl

theorem setup_places (cfg : BoardConfig) (img : Bool → Image) (preset : BitVec 32) (maxMultiple : Byte) :
    Places (setupBoard cfg img preset maxMultiple) := fun _ => Nat.zero_lt_succ _

theorem moved_in_buffer {b : Board} (h : Places b) (e : Event) {i : ℕ} (hmoved : wordMoved b e = some i) :
    i < 256 := by
  have hport (hword : portWord b.current = some i) : i < 256 := by
    have hplace : b.current.tf.pos < 512 := h b.curDev
    unfold portWord at hword
    split at hword
    · cases hword
    · rw [← Option.some.inj hword, Nat.shiftRight_eq_div_pow]
      omega
  cases e with
  | writeb addr val =>
    dsimp only [wordMoved] at hmoved
    split at hmoved
    · exact hport hmoved
    · cases hmoved
  | readb addr =>
    dsimp only [wordMoved] at hmoved
    split at hmoved
    · exact hport hmoved
    · cases hmoved
  | writeData val => exact hport hmoved
  | readData => exact hport hmoved
  | readAltStatus => cases hmoved
  | writeDevctl val => cases hmoved
  | tick c dma => cases hmoved
  | boardTick => cases hmoved
  | fill c n => cases hmoved
  | work c => cases hmoved

/-- The buffer is never left, and the sector buffer is not by a guest that moves sectors through the data
    port of a read no further than the count register and the sectors copied allow. -/
theorem ide_buffers (cfg : BoardConfig) (img : Bool → Image) (preset : BitVec 32) (maxMultiple : Byte) :
    (∀ before e, ∀ i ∈ wordMoved ((boardMachine cfg).run (setupBoard cfg img preset maxMultiple) before) e,
      i < 256) ∧
      ∀ is, (boardMachine cfg).Along Counted (setupBoard cfg img preset maxMultiple) is →
        ∀ before e after, is = before ++ e :: after →
          ∀ p ∈ sectorCopied ((boardMachine cfg).run (setupBoard cfg img preset maxMultiple) before) e,
            p < 256 := by
  constructor
  · intro before e i hmoved
    have hplaces := Machine.run_invariant (boardMachine cfg) (I := Places)
      (fun b i h => boardStep_places cfg i h) (setup_places cfg img preset maxMultiple) before
    exact moved_in_buffer hplaces e hmoved
  · intro is his before e after hsplit p hcopied
    subst hsplit
    obtain ⟨hbefore, hcounted, -⟩ := (boardMachine cfg).along_split his
    have hall := Machine.run_invariant_along (boardMachine cfg) (I := AllInBuffer)
      (fun b i hi h => boardStep_inBuffer cfg i h hi) (setup_inBuffer cfg img preset maxMultiple) before hbefore
    exact copied_in_buffer hall hcounted hcopied

/-! A read of one sector, and sectors written to the data port instead of the sector being read. -/

def readOne : List Event := [.writeb 6 0xE0, .writeb 7 0x20, .tick false .disabled]

theorem readOne_counted : (boardMachine plainConfig).Along Counted smallBoard readOne := by
  refine ⟨?_, ?_, trivial, trivial⟩
  · intro hdata
    exact absurd hdata (by decide)
  · intro hdata
    exact absurd hdata (by decide)

theorem ide_buffers_one :
    sectorCopied ((boardMachine plainConfig).run smallBoard [.writeb 6 0xE0, .writeb 7 0x20])
        (.tick false .disabled) = some 0 ∧
      ∀ p ∈ sectorCopied ((boardMachine plainConfig).run smallBoard [.writeb 6 0xE0, .writeb 7 0x20])
        (.tick false .disabled), p < 256 := by
  have hbounded := (ide_buffers plainConfig (fun _ => smallImage) 0 32).2 readOne readOne_counted
    [.writeb 6 0xE0, .writeb 7 0x20] (.tick false .disabled) [] rfl
  exact ⟨by decide, hbounded⟩

def writeSectorWords : List Event := (List.replicate 256 0).map .writeData

def again : List Event := writeSectorWords ++ [.tick false .disabled]

/-- A read of the drive in position 0 that goes on at sector `k`. -/
structure Rolling (b : Board) (k : ℕ) : Prop where
  curDev : b.curDev = false
  command : b.current.command = winRead
  initial : b.current.doInitialRead = false
  sectorPos : b.current.sectorPos = k
  pos : b.current.tf.pos = 0
  range : outOfRange b.current = false

theorem rolling_one : Rolling ((boardMachine plainConfig).run smallBoard readOne) 1 := by
  constructor
  · decide
  · decide
  · decide
  · decide
  · decide
  · decide

theorem rolling_written {b : Board} {k : ℕ} (h : Rolling b k) :
    ∃ buffer, (boardMachine plainConfig).run b writeSectorWords =
      b.put false { b.current with buffer := buffer, tf.pos := 0, tf.atastat := bsyStat, timer := true } := by
  have hmoves : Moves b.current.command := by
    rw [h.command]
    exact ⟨by decide, by decide⟩
  have hwrites := writes_sector plainConfig hmoves h.pos (List.length_replicate (n := 256) (a := (0 : BitVec 16)))
  refine ⟨fill b.current.buffer 0 (List.replicate 256 0), ?_⟩
  rw [writeSectorWords, run_writes, hwrites, h.curDev]
  unfold sectorGiven
  dsimp only
  rw [if_neg (by rw [h.command]; decide)]

theorem ideCallback_next {d : Drive} (hcommand : d.command = winRead) (hinitial : d.doInitialRead = false)
    (hrange : outOfRange d = false) :
    (ideCallback plainConfig .disabled d).1 =
      ideIrqRaise
        { loadBuffer d with
          sectorPos := d.sectorPos + 1, tf.pos := 0, tf.atastat := drqStat ||| drdyStat ||| dscStat } := by
  have hread : readSector d =
      ({ loadBuffer d with
          sectorPos := d.sectorPos + 1, tf.pos := 0, tf.atastat := drqStat ||| drdyStat ||| dscStat }, true) := by
    unfold readSector
    rw [hinitial]
    rfl
  have hcallback : commandCallback plainConfig .disabled d = callbackRead d := by
    unfold commandCallback
    rw [hcommand]
    rfl
  unfold ideCallback
  rw [hcallback]
  unfold callbackRead
  rw [hrange, hread]
  rfl

theorem rolling_again {b : Board} {k : ℕ} (h : Rolling b k) :
    Rolling ((boardMachine plainConfig).run b again) (k + 1) := by
  obtain ⟨buffer, hwritten⟩ := rolling_written h
  have hnext := ideCallback_next
    (d := { b.current with buffer := buffer, tf.pos := 0, tf.atastat := bsyStat, timer := false })
    h.command h.initial h.range
  have hrun : (boardMachine plainConfig).run b again =
      b.put false (ideIrqRaise
        { loadBuffer
            { b.current with buffer := buffer, tf.pos := 0, tf.atastat := bsyStat, timer := false } with
          sectorPos := b.current.sectorPos + 1
          tf.pos := 0
          tf.atastat := drqStat ||| drdyStat ||| dscStat }) := by
    have hdrive := (put_drive b false false
      { b.current with buffer := buffer, tf.pos := 0, tf.atastat := bsyStat, timer := true }).trans (if_pos rfl)
    rw [again, Machine.run_append, hwritten, Machine.run_cons, Machine.run_nil,
      tick_armed plainConfig (by rw [hdrive]), hdrive, put_put]
    exact congrArg (b.put false) hnext
  have hcurrent : ((boardMachine plainConfig).run b again).current =
      ideIrqRaise
        { loadBuffer
            { b.current with buffer := buffer, tf.pos := 0, tf.atastat := bsyStat, timer := false } with
          sectorPos := b.current.sectorPos + 1
          tf.pos := 0
          tf.atastat := drqStat ||| drdyStat ||| dscStat } := by
    rw [hrun, ← h.curDev]
    exact current_put b _
  have hrange := h.range
  constructor
  · rw [hrun]
    exact h.curDev
  · rw [hcurrent]
    exact h.command
  · rw [hcurrent]
    exact h.initial
  · rw [hcurrent]
    exact congrArg (· + 1) h.sectorPos
  · rw [hcurrent]
    rfl
  · rw [hcurrent]
    exact hrange

theorem rolling_on (n : ℕ) :
    Rolling ((boardMachine plainConfig).run smallBoard (readOne ++ (List.replicate n again).flatten)) (n + 1) := by
  induction n with
  | zero =>
    rw [List.replicate_zero, List.flatten_nil, List.append_nil]
    exact rolling_one
  | succ n ih =>
    rw [List.replicate_succ', List.flatten_append, ← List.append_assoc, Machine.run_append]
    simpa using rolling_again ih

theorem rolling_copies {b : Board} {k : ℕ} (h : Rolling b k) :
    sectorCopied ((boardMachine plainConfig).run b writeSectorWords) (.tick false .disabled) = some k := by
  obtain ⟨buffer, hwritten⟩ := rolling_written h
  have hdrive := (put_drive b false false
    { b.current with buffer := buffer, tf.pos := 0, tf.atastat := bsyStat, timer := true }).trans (if_pos rfl)
  have hcalls := calls_tick (b := b.put false
      { b.current with buffer := buffer, tf.pos := 0, tf.atastat := bsyStat, timer := true }) (by rw [hdrive])
    .disabled
  have hpio : isPioRead b.current.command = true := by
    rw [h.command]
    rfl
  have hone : b.current.command ≠ winReadMultiple := by
    rw [h.command]
    decide
  have hcopy : copyOf { b.current with buffer := buffer, tf.pos := 0, tf.atastat := bsyStat, timer := false } =
      some b.current.sectorPos := by
    have hinitial := h.initial
    refine (if_pos ⟨hpio, fun hmany => absurd hmany hone, h.range⟩).trans ?_
    dsimp only
    rw [hinitial]
    rfl
  unfold sectorCopied
  rw [hwritten, hcalls, hdrive]
  exact hcopy.trans (congrArg some h.sectorPos)

/-- The guest that gives 256 sectors to a read of one has a sector copied from behind the buffer. -/
theorem copies_past_end :
    ¬ ∀ (cfg : BoardConfig) (img : Bool → Image) (preset : BitVec 32) (maxMultiple : Byte)
        (before : List Event) (e : Event),
      ∀ p ∈ sectorCopied ((boardMachine cfg).run (setupBoard cfg img preset maxMultiple) before) e,
        p < 256 := by
  intro h
  have hcopies := rolling_copies (rolling_on 255)
  rw [← Machine.run_append] at hcopies
  exact absurd (h plainConfig (fun _ => smallImage) 0 32 _ _ 256 hcopies) (Nat.lt_irrefl 256)

end PeepeeBox.IdeBufferBounds
