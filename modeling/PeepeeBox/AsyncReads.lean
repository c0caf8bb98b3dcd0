import PeepeeBox.AsyncShadow

set_option autoImplicit false

/-!
# The background read is not seen

Everything a board may be given, with and without reads in the background: the data port, the
start of a command, resets, and the whole board.
-/
namespace PeepeeBox.AsyncReads
open AsyncShadow AtaRange AtaTwins DataPort HdcIde HddImage HostFile IdeBoard ImageBounds SectorWrites
open TraceMachine

variable {cfg : BoardConfig}

theorem callbackNow_shadow {d : Drive} {f : ℕ → Byte} {a : AsyncRead} (h : Called cfg d f)
    (hidle : a.pending = false) :
    Shadow cfg (callbackNow cfg d) (callbackNow (foreground cfg) (under d f a)) :=
  (ideCallback_shadow .disabled h hidle).1

theorem called_other {d : Drive} {f : ℕ → Byte} (complete : Complete d.image)
    (missing : d.image.file = none → f = d.sectorBuffer) (idle : d.async.pending = false)
    (hfetch : ¬ IsFetch d.command) : Called cfg d f := by
  refine ⟨complete, missing, ?_, fun h => absurd h hfetch, fun h => absurd h hfetch⟩
  intro hpending
  exact absurd (idle.symm.trans hpending) Bool.false_ne_true

theorem fetch_other {c : Byte} (h : IsFetch c) : c ≠ winInvalid ∧ c ≠ winPacketcmd ∧ c ≠ winWriteMultiple :=
  read_drq c h

theorem sectorGiven_shadow {d : Drive} {f : ℕ → Byte} {a : AsyncRead} (complete : Complete d.image)
    (missing : d.image.file = none → f = d.sectorBuffer) (hpending : d.async.pending = false)
    (hidle : a.pending = false) (hstat : d.tf.atastat = bsyStat)
    (hfetch : IsFetch d.command → decode d.command = .readDma)
    (hagree : IsFetch d.command → d.doInitialRead = false → d.image.file ≠ none →
      AgreeTo f d.sectorBuffer (sectorCount d.tf)) :
    Shadow cfg (sectorGiven cfg d) (sectorGiven (foreground cfg) (under d f a)) := by
  have hbusy : busy { d with timer := true } = true := bsy_busy (by
    change d.tf.atastat &&& bsyStat ≠ 0
    rw [hstat]
    decide)
  have hdrq : ¬ drq { d with timer := true } := by
    unfold drq
    dsimp only
    rw [hstat]
    decide
  have harmed : Shadow cfg { d with timer := true } (under { d with timer := true } f a) := by
    refine Shadow.under f a hidle ?_
    by_cases hread : IsFetch d.command
    · by_cases hfirst : d.doInitialRead = true
      · exact Hidden.quiet (d := { d with timer := true }) complete missing hpending
          (fun _ _ => Or.inl hfirst) fun _ => hdrq
      · exact Hidden.waiting (d := { d with timer := true }) complete missing hpending (hfetch hread)
          hbusy (hagree hread (Bool.eq_false_iff.mpr hfirst))
    · exact Hidden.other (d := { d with timer := true }) complete missing hpending hread
  unfold sectorGiven
  change Shadow cfg _ (if d.command = winWriteMultiple then
      if d.speedPreset = 0 then callbackNow (foreground cfg) (under d f a)
      else if d.blocksize ≤ d.blockcount + 1 ∨ d.tf.secount = 1 then under { d with timer := true } f a
      else callbackNow (foreground cfg) (under d f a)
    else under { d with timer := true } f a)
  split
  · rename_i hmultiple
    have hnow : Shadow cfg (callbackNow cfg d) (callbackNow (foreground cfg) (under d f a)) := by
      refine callbackNow_shadow (called_other complete missing hpending ?_) hidle
      intro hread
      exact (fetch_other hread).2.2 hmultiple
    split
    · exact hnow
    split
    · exact harmed
    · exact hnow
  · exact harmed

theorem ideWriteData_shadow {d e : Drive} (h : Shadow cfg d e) (hdrq : drq d) (val : BitVec 16)
    (hpio : isPioRead d.command = true → d.tf.pos + 2 < 512) :
    Shadow cfg (ideWriteData cfg d val) (ideWriteData (foreground cfg) e val) := by
  cases h with
  | under f a hidle h =>
    have hpending := h.idle_of_drq hdrq
    unfold ideWriteData
    change Shadow cfg _ (if d.command = winInvalid then under d f a
      else if d.command = winPacketcmd then under { d with tf.pos := 0 } f a
      else if 512 ≤ d.tf.pos + 2 then
        sectorGiven (foreground cfg) (under { d with
          buffer := Function.update d.buffer (d.tf.pos >>> 1) val, tf.pos := 0, tf.atastat := bsyStat } f a)
      else under { d with
        buffer := Function.update d.buffer (d.tf.pos >>> 1) val, tf.pos := d.tf.pos + 2 } f a)
    split
    · exact Shadow.under f a hidle h
    split
    · exact Shadow.under f a hidle
        (h.mark d.irqstat d.service d.selected d.reset d.blockcount 0 d.buffer d.tf.error)
    dsimp only
    split
    · rename_i hwhole
      refine sectorGiven_shadow (d := { d with
          buffer := Function.update d.buffer (d.tf.pos >>> 1) val, tf.pos := 0, tf.atastat := bsyStat })
        h.complete h.missing hpending hidle rfl ?_ ?_
      · intro hread
        rcases hread with hread | hread | hread
        · have hlt := hpio ((pio_decode _).mpr (Or.inl hread))
          omega
        · have hlt := hpio ((pio_decode _).mpr (Or.inr hread))
          omega
        · exact hread
      · intro hread hfirst hfile
        refine (h.agree ⟨hread, hfirst, Or.inr hdrq⟩ hfile).mono ?_
        have hdma : decode d.command = .readDma := by
          rcases hread with hread | hread | hread
          · have hlt := hpio ((pio_decode _).mpr (Or.inl hread))
            omega
          · have hlt := hpio ((pio_decode _).mpr (Or.inr hread))
            omega
          · exact hread
        unfold window due
        rw [if_neg fun h => h.1 hdma, if_pos hdma]
        exact Nat.le_refl _
    · exact Shadow.under f a hidle
        (h.mark d.irqstat d.service d.selected d.reset d.blockcount (d.tf.pos + 2) _ d.tf.error)

theorem Hidden.next {d : Drive} {f : ℕ → Byte} (complete : Complete d.image)
    (missing : d.image.file = none → f = d.sectorBuffer) (idle : d.async.pending = false)
    (hbusy : busy d = true) (hdrq : ¬ drq d)
    (hagree : IsFetch d.command → d.doInitialRead = false → d.image.file ≠ none →
      AgreeTo f d.sectorBuffer (due d)) : Hidden cfg d f := by
  refine ⟨complete, missing, ?_, fun _ _ => hbusy, ?_, fun _ h => absurd h hdrq⟩
  · intro hpending
    exact absurd (idle.symm.trans hpending) Bool.false_ne_true
  · intro hlive hfile
    unfold window
    rw [if_neg fun h => hdrq h.2]
    exact hagree hlive.1 hlive.2.1 hfile

theorem sectorDue_shadow {d : Drive} {f : ℕ → Byte} {a : AsyncRead} (complete : Complete d.image)
    (missing : d.image.file = none → f = d.sectorBuffer) (hpending : d.async.pending = false)
    (hidle : a.pending = false) (hstat : d.tf.atastat = bsyStat ||| drdyStat ||| dscStat)
    (hsingle : decode d.command = .readMultiple → d.timer = false)
    (hagree : IsFetch d.command → d.doInitialRead = false → d.image.file ≠ none →
      AgreeTo f d.sectorBuffer (due d)) :
    Shadow cfg (sectorDue cfg d) (sectorDue (foreground cfg) (under d f a)) := by
  have hbusy : busy { d with timer := true } = true := bsy_busy (by
    change d.tf.atastat &&& bsyStat ≠ 0
    rw [hstat]
    decide)
  have hdrq : ¬ drq { d with timer := true } := by
    unfold drq
    dsimp only
    rw [hstat]
    decide
  have harmed : Shadow cfg { d with timer := true } (under { d with timer := true } f a) :=
    Shadow.under f a hidle
      (Hidden.next (d := { d with timer := true }) complete missing hpending hbusy hdrq hagree)
  unfold sectorDue
  change Shadow cfg _ (if d.command = winReadMultiple then
      if d.speedPreset = 0 then callbackNow (foreground cfg) (under d f a)
      else if d.blockcount = 0 then under { d with timer := true } f a
      else callbackNow (foreground cfg) (under d f a)
    else under { d with timer := true } f a)
  split
  · rename_i hmultiple
    have hnow : Shadow cfg (callbackNow cfg d) (callbackNow (foreground cfg) (under d f a)) := by
      refine callbackNow_shadow ⟨complete, missing, ?_, ?_, hagree⟩ hidle
      · intro h
        exact absurd (hpending.symm.trans h) Bool.false_ne_true
      · intro _
        exact Or.inl (hsingle ((multiple_decode _).mp hmultiple))
    split
    · exact hnow
    split
    · exact harmed
    · exact hnow
  · exact harmed

theorem sectorCount_pred {tf : Tf} (h : tf.secount - 1 ≠ 0) (tf' : Tf)
    (htf : tf'.secount = tf.secount - 1) : sectorCount tf' = sectorCount tf - 1 := by
  have hstep := (secount_step fun hone => h (secount_last hone)).2
  unfold sectorCount at hstep ⊢
  rw [htf]
  exact hstep

theorem sectorTaken_shadow {d : Drive} {f : ℕ → Byte} {a : AsyncRead} (complete : Complete d.image)
    (missing : d.image.file = none → f = d.sectorBuffer) (hpending : d.async.pending = false)
    (hidle : a.pending = false) (hsingle : decode d.command = .readMultiple → d.timer = false)
    (hagree : isPioRead d.command = true → d.doInitialRead = false → d.image.file ≠ none →
      AgreeTo f d.sectorBuffer (d.sectorPos + sectorCount d.tf - 1)) :
    Shadow cfg (sectorTaken cfg d) (sectorTaken (foreground cfg) (under d f a)) := by
  unfold sectorTaken
  change Shadow cfg _ (if isPioRead d.command = true then
      if d.tf.secount - 1 ≠ 0 then
        sectorDue (foreground cfg) { ideNextSector (under { d with tf.secount := d.tf.secount - 1 } f a) with
          tf.atastat := bsyStat ||| drdyStat ||| dscStat }
      else under { d with tf.secount := d.tf.secount - 1, command := winInvalid } f a
    else under { d with command := winInvalid } f a)
  split
  · rename_i hpio
    dsimp only
    split
    · rename_i hmore
      rw [ideNextSector_under]
      obtain ⟨sector, drvsel, cylinder, addr, hfields⟩ :=
        ideNextSector_fields { d with tf.secount := d.tf.secount - 1 }
      rw [hfields]
      refine sectorDue_shadow (d := { d with
          tf := { d.tf with
            secount := d.tf.secount - 1, sector := sector, drvsel := drvsel, cylinder := cylinder
            atastat := bsyStat ||| drdyStat ||| dscStat }
          lbaAddr := addr }) complete missing hpending hidle rfl hsingle ?_
      intro hread hfirst hfile
      refine (hagree hpio hfirst hfile).mono ?_
      have hcount := sectorCount_pred hmore
        { d.tf with
          secount := d.tf.secount - 1, sector := sector, drvsel := drvsel, cylinder := cylinder
          atastat := bsyStat ||| drdyStat ||| dscStat } rfl
      have hpos := sectorCount_pos d.tf
      have hdma : decode d.command ≠ .readDma := by
        rcases (pio_decode _).mp hpio with h | h
        · rw [h]
          decide
        · rw [h]
          decide
      unfold due
      rw [if_neg hdma]
      change d.sectorPos + sectorCount _ ≤ _
      rw [hcount]
      omega
    · exact Shadow.under f a hidle (Hidden.other
        (d := { d with tf.secount := d.tf.secount - 1, command := winInvalid }) complete missing
        hpending not_fetch_invalid)
  · exact Shadow.under f a hidle (Hidden.other (d := { d with command := winInvalid }) complete missing
      hpending not_fetch_invalid)

theorem ideReadData_shadow {d e : Drive} (h : Shadow cfg d e) (hdrq : drq d) :
    Shadow cfg (ideReadData cfg d).1 (ideReadData (foreground cfg) e).1 ∧
      (ideReadData (foreground cfg) e).2 = (ideReadData cfg d).2 := by
  cases h with
  | under f a hidle h =>
    have hpending := h.idle_of_drq hdrq
    unfold ideReadData
    change Shadow cfg _ (if d.command = winInvalid then (under d f a, 0)
        else if d.command = winPacketcmd then (under { d with tf.pos := 0 } f a, 0)
        else if 512 ≤ d.tf.pos + 2 then
          (sectorTaken (foreground cfg) (under { d with
            tf.pos := 0, tf.atastat := drdyStat ||| dscStat } f a), d.buffer (d.tf.pos >>> 1))
        else (under { d with tf.pos := d.tf.pos + 2 } f a, d.buffer (d.tf.pos >>> 1))).1 ∧
      (if d.command = winInvalid then (under d f a, 0)
        else if d.command = winPacketcmd then (under { d with tf.pos := 0 } f a, 0)
        else if 512 ≤ d.tf.pos + 2 then
          (sectorTaken (foreground cfg) (under { d with
            tf.pos := 0, tf.atastat := drdyStat ||| dscStat } f a), d.buffer (d.tf.pos >>> 1))
        else (under { d with tf.pos := d.tf.pos + 2 } f a, d.buffer (d.tf.pos >>> 1))).2 = _
    split
    · exact ⟨Shadow.under f a hidle h, rfl⟩
    split
    · exact ⟨Shadow.under f a hidle
        (h.mark d.irqstat d.service d.selected d.reset d.blockcount 0 d.buffer d.tf.error), rfl⟩
    dsimp only
    split
    · refine ⟨sectorTaken_shadow (d := { d with tf.pos := 0, tf.atastat := drdyStat ||| dscStat })
        h.complete h.missing hpending hidle (fun hmultiple => h.single hmultiple hdrq) ?_, rfl⟩
      intro hpio hfirst hfile
      have hread : IsFetch d.command := by
        rcases (pio_decode _).mp hpio with hc | hc
        · exact Or.inl hc
        · exact Or.inr (Or.inl hc)
      have hdma : decode d.command ≠ .readDma := by
        rcases (pio_decode _).mp hpio with hc | hc
        · rw [hc]
          decide
        · rw [hc]
          decide
      have hagree := h.agree ⟨hread, hfirst, Or.inr hdrq⟩ hfile
      unfold window due at hagree
      rw [if_pos ⟨hdma, hdrq⟩, if_neg hdma] at hagree
      exact hagree
    · exact ⟨Shadow.under f a hidle
        (h.mark d.irqstat d.service d.selected d.reset d.blockcount (d.tf.pos + 2) d.buffer d.tf.error), rfl⟩

theorem asyncReadStart_asked {d : Drive} {f : ℕ → Byte} {a : AsyncRead} (complete : Complete d.image)
    (missing : d.image.file = none → f = d.sectorBuffer) (hpending : d.async.pending = false)
    (hidle : a.pending = false) (hfetch : IsFetch d.command) (hfirst : d.doInitialRead = true)
    (hstat : d.tf.atastat = bsyStat)
    (husable : decode d.command = .readDma → outOfRange d = false → Usable cfg) :
    Shadow cfg (asyncReadStartCurrent cfg d)
      (asyncReadStartCurrent (foreground cfg) (under d f a)) := by
  have hdrq : ¬ drq d := by
    unfold drq
    rw [hstat]
    decide
  have hnone : Shadow cfg d (under d f a) :=
    Shadow.under f a hidle (Hidden.quiet complete missing hpending (fun _ _ => Or.inl hfirst) fun _ => hdrq)
  have hforeground : asyncReadStartCurrent (foreground cfg) (under d f a) = under d f a := by
    unfold asyncReadStartCurrent asyncReadStart
    split
    · rfl
    · exact if_pos (Or.inl rfl)
  rw [hforeground]
  unfold asyncReadStartCurrent
  split
  · exact hnone
  · rename_i hgood
    have hrange : outOfRange d = false := Bool.eq_false_iff.mpr fun h => hgood (Or.inl h)
    unfold asyncReadStart
    split
    · exact hnone
    · refine Shadow.under f a hidle ⟨complete, missing, ?_, ?_, ?_, fun _ h => absurd h hdrq⟩
      · intro _
        refine ⟨hfetch, hfirst, ?_, hdrq, hrange, ?_, fun h => husable h hrange, rfl, rfl, ?_, ?_⟩
        · change d.tf.atastat &&& bsyStat ≠ 0
          rw [hstat]
          decide
        · intro hmultiple hblock
          exact hgood (Or.inr ⟨(multiple_decode _).mpr hmultiple, hblock⟩)
        · intro h
          cases h
        · intro h
          cases h
      · intro hlive
        exact absurd (hlive.2.1.symm.trans hfirst) Bool.false_ne_true
      · intro hlive
        exact absurd (hlive.2.1.symm.trans hfirst) Bool.false_ne_true

theorem startCommand_shadow (prev : Byte) {d : Drive} {f : ℕ → Byte} {a : AsyncRead}
    (complete : Complete d.image) (missing : d.image.file = none → f = d.sectorBuffer)
    (hpending : d.async.pending = false) (hidle : a.pending = false)
    (husable : decode d.command = .readDma → outOfRange d = false → Usable cfg) :
    Shadow cfg (startCommand cfg prev d) (startCommand (foreground cfg) prev (under d f a)) := by
  have hfetched (blockcount : ℕ) (hfetch : IsFetch d.command) :
      Shadow cfg
        (if d.command = winRead ∧ prev = winSetidle1 then
          callbackNow cfg { d with
            blockcount := blockcount, tf.atastat := bsyStat, doInitialRead := true }
        else asyncReadStartCurrent cfg { d with
          blockcount := blockcount, tf.atastat := bsyStat, doInitialRead := true, timer := true })
        (if d.command = winRead ∧ prev = winSetidle1 then
          callbackNow (foreground cfg) (under { d with
            blockcount := blockcount, tf.atastat := bsyStat, doInitialRead := true } f a)
        else asyncReadStartCurrent (foreground cfg) (under { d with
          blockcount := blockcount, tf.atastat := bsyStat, doInitialRead := true, timer := true } f a)) := by
    split
    · rename_i hnow
      refine callbackNow_shadow (d := { d with
        blockcount := blockcount, tf.atastat := bsyStat, doInitialRead := true })
        ⟨complete, missing, ?_, ?_, ?_⟩ hidle
      · intro h
        exact absurd (hpending.symm.trans h) Bool.false_ne_true
      · intro _
        refine Or.inr ⟨?_, rfl⟩
        change decode d.command = .read
        rw [hnow.1]
        decide
      · intro _ hfirst
        cases hfirst
    · exact asyncReadStart_asked (d := { d with
        blockcount := blockcount, tf.atastat := bsyStat, doInitialRead := true, timer := true })
        complete missing hpending hidle hfetch rfl rfl husable
  have hlater (hfetch : ¬ IsFetch d.command) (stat : Byte) (pos : ℕ) :
      Shadow cfg { d with tf.atastat := stat, tf.pos := pos, timer := true }
        (under { d with tf.atastat := stat, tf.pos := pos, timer := true } f a) :=
    Shadow.under f a hidle (Hidden.other
      (d := { d with tf.atastat := stat, tf.pos := pos, timer := true }) complete missing hpending hfetch)
  have hwanted (hfetch : ¬ IsFetch d.command) (blockcount : ℕ) (stat : Byte) :
      Shadow cfg { d with blockcount := blockcount, tf.atastat := stat, tf.pos := 0 }
        (under { d with blockcount := blockcount, tf.atastat := stat, tf.pos := 0 } f a) :=
    Shadow.under f a hidle (Hidden.other
      (d := { d with blockcount := blockcount, tf.atastat := stat, tf.pos := 0 }) complete missing
      hpending hfetch)
  have hnow (hfetch : ¬ IsFetch d.command) :
      Shadow cfg (callbackNow cfg { d with tf.atastat := bsyStat })
        (callbackNow (foreground cfg) (under { d with tf.atastat := bsyStat } f a)) :=
    callbackNow_shadow (called_other (d := { d with tf.atastat := bsyStat }) complete missing hpending
      hfetch) hidle
  have hother {c : Command} (hdecode : decode d.command = c) (hc : c ≠ .read ∧ c ≠ .readMultiple ∧ c ≠ .readDma) :
      ¬ IsFetch d.command := by
    unfold IsFetch
    rw [hdecode]
    exact fun h => h.elim hc.1 fun h => h.elim hc.2.1 hc.2.2
  have hcommand : (under d f a).command = d.command := rfl
  unfold startCommand
  dsimp only
  rw [hcommand]
  cases hdecode : decode d.command with
  | read => exact hfetched d.blockcount (Or.inl hdecode)
  | readMultiple => exact hfetched 0 (Or.inr (Or.inl hdecode))
  | readDma => exact hfetched d.blockcount (Or.inr (Or.inr hdecode))
  | recal => exact hlater (hother hdecode (by decide)) _ d.tf.pos
  | seek => exact hlater (hother hdecode (by decide)) _ d.tf.pos
  | srst => exact hlater (hother hdecode (by decide)) _ d.tf.pos
  | writeMultiple => exact hwanted (hother hdecode (by decide)) 0 _
  | write => exact hwanted (hother hdecode (by decide)) d.blockcount _
  | writeDma => exact hlater (hother hdecode (by decide)) _ d.tf.pos
  | verify => exact hlater (hother hdecode (by decide)) _ d.tf.pos
  | identify => exact hnow (hother hdecode (by decide))
  | setFeatures => exact hnow (hother hdecode (by decide))
  | readNativeMax => exact hlater (hother hdecode (by decide)) _ d.tf.pos
  | format => exact hwanted (hother hdecode (by decide)) d.blockcount _
  | specify => exact hlater (hother hdecode (by decide)) _ d.tf.pos
  | diagnostics =>
    exact Shadow.under f a hidle
      (Hidden.other complete missing hpending (hother hdecode (by decide)))
  | pidentify => exact hnow (hother hdecode (by decide))
  | setMultiple => exact hnow (hother hdecode (by decide))
  | idle => exact hnow (hother hdecode (by decide))
  | power => exact hnow (hother hdecode (by decide))
  | packet => exact hlater (hother hdecode (by decide)) _ 0
  | invalid =>
    exact Shadow.under f a hidle (Hidden.other
      (d := ideIrqRaise { d with tf.atastat := drdyStat ||| errStat ||| dscStat, tf.error := abrtErr })
      complete missing hpending (hother hdecode (by decide)))

theorem asyncReadWork_reset (d : Drive) : (asyncReadWork d).reset = d.reset := by
  unfold asyncReadWork
  split
  · split <;> rfl
  · rfl

theorem asyncReadFill_reset (d : Drive) (n : ℕ) : (asyncReadFill d n).reset = d.reset := by
  unfold asyncReadFill
  split
  · split <;> rfl
  · rfl

theorem asyncReadFinish_reset (d : Drive) : (asyncReadFinish d).1.reset = d.reset := by
  unfold asyncReadFinish
  split
  · exact asyncReadWork_reset d
  · rfl

theorem initialRead_reset (d : Drive) (sector count : ℕ) :
    (initialRead d sector count).1.reset = d.reset := by
  have hfinish := asyncReadFinish_reset d
  unfold initialRead
  split
  · rename_i h
    rw [h] at hfinish
    exact hfinish
  · rename_i h
    rw [h] at hfinish
    split <;> exact hfinish

theorem readSector_reset (d : Drive) : (readSector d).1.reset = d.reset := by
  unfold readSector loadBuffer
  cases d.doInitialRead with
  | false => rfl
  | true => exact initialRead_reset _ _ _

theorem callbackRead_reset (d : Drive) : (callbackRead d).drive.reset = d.reset := by
  unfold callbackRead
  split
  · rfl
  · exact readSector_reset d

theorem callbackReadMultiple_reset (d : Drive) : (callbackReadMultiple d).drive.reset = d.reset := by
  unfold callbackReadMultiple
  split
  · rfl
  split
  · rfl
  · obtain ⟨irqstat, service, blockcount, hkeep⟩ := countSector_keep (readSector d).1
    have hcount : (countSector (readSector d).1).reset = (readSector d).1.reset := by rw [hkeep]
    exact hcount.trans (readSector_reset d)

theorem callbackReadDma_reset (dma : Dma) (d : Drive) :
    (callbackReadDma cfg dma d).drive.reset = d.reset := by
  have hall : (fetchAll d).1.reset = d.reset := by
    unfold fetchAll
    split
    · exact initialRead_reset _ _ _
    · rfl
  have hdeliver (count : ℕ) (r : Drive × Bool) : (deliver cfg dma count r).drive.reset = r.1.reset := by
    unfold deliver
    split
    · rfl
    split
    · cases dma with
      | disabled => rfl
      | done memory => rfl
      | failed moved => rfl
    · rfl
  rw [callbackReadDma_eq]
  split
  · rfl
  split
  · rfl
  · exact (hdeliver _ _).trans hall

theorem ideNextSector_reset (d : Drive) : (ideNextSector d).reset = d.reset := by
  obtain ⟨sector, drvsel, cylinder, addr, hfields⟩ := ideNextSector_fields d
  rw [hfields]

theorem afterWrite_reset (d : Drive) : (afterWrite d).reset = d.reset := by
  unfold afterWrite
  dsimp only
  split
  · exact ideNextSector_reset _
  · rfl

theorem blockWritten_reset (d : Drive) : (blockWritten d).reset = d.reset := by
  unfold blockWritten
  split <;> rfl

theorem commandCallback_reset (dma : Dma) (d : Drive) :
    (commandCallback cfg dma d).drive.reset = d.reset := by
  unfold commandCallback
  cases decode d.command with
  | read => exact callbackRead_reset d
  | readMultiple => exact callbackReadMultiple_reset d
  | readDma => exact callbackReadDma_reset dma d
  | write =>
    dsimp only
    unfold callbackWrite
    split
    · rfl
    · exact afterWrite_reset _
  | writeMultiple =>
    dsimp only
    unfold callbackWriteMultiple
    split
    · rfl
    split
    · rfl
    · exact (afterWrite_reset _).trans (blockWritten_reset (writeSector d).1)
  | writeDma =>
    dsimp only
    unfold callbackWriteDma
    split
    · rfl
    split
    · rfl
    split
    · cases dma with
      | disabled => rfl
      | done memory => rfl
      | failed moved => rfl
    · rfl
  | format =>
    dsimp only
    unfold callbackFormat
    split <;> rfl
  | seek =>
    dsimp only
    split <;> rfl
  | verify =>
    dsimp only
    split <;> rfl
  | setMultiple =>
    dsimp only
    split <;> rfl
  | setFeatures =>
    dsimp only
    split
    · rfl
    · rename_i hset
      have hself := ideSetFeatures_map cfg d d rfl rfl
      rw [hset] at hself
      have hreset := congrArg Drive.reset (Option.some.inj hself)
      exact hreset
  | readNativeMax =>
    dsimp only
    unfold ideSetSector
    split <;> rfl
  | recal => rfl
  | idle => rfl
  | power => rfl
  | specify => rfl
  | identify => rfl
  | srst => rfl
  | pidentify => rfl
  | packet => rfl
  | diagnostics => rfl
  | invalid => rfl

theorem ideCallback_reset (dma : Dma) (d : Drive) : (ideCallback cfg dma d).1.reset = d.reset := by
  rw [ideCallback_finish]
  unfold finish
  dsimp only
  split
  · exact commandCallback_reset dma d
  · exact commandCallback_reset dma d

theorem sectorGiven_reset (d : Drive) : (sectorGiven cfg d).reset = d.reset := by
  unfold sectorGiven
  split
  · split
    · exact ideCallback_reset .disabled d
    · split
      · rfl
      · exact ideCallback_reset .disabled d
  · rfl

theorem ideWriteData_reset (d : Drive) (val : BitVec 16) : (ideWriteData cfg d val).reset = d.reset := by
  unfold ideWriteData
  split
  · rfl
  split
  · rfl
  dsimp only
  split
  · exact sectorGiven_reset _
  · rfl

theorem sectorDue_reset (d : Drive) : (sectorDue cfg d).reset = d.reset := by
  unfold sectorDue
  split
  · split
    · exact ideCallback_reset .disabled d
    · split
      · rfl
      · exact ideCallback_reset .disabled d
  · rfl

theorem sectorTaken_reset (d : Drive) : (sectorTaken cfg d).reset = d.reset := by
  unfold sectorTaken
  split
  · dsimp only
    split
    · exact (sectorDue_reset _).trans (ideNextSector_reset _)
    · rfl
  · rfl

theorem ideReadData_reset (d : Drive) : (ideReadData cfg d).1.reset = d.reset := by
  unfold ideReadData
  split
  · rfl
  split
  · rfl
  dsimp only
  split
  · exact sectorTaken_reset _
  · rfl

theorem asyncReadStartCurrent_reset (d : Drive) : (asyncReadStartCurrent cfg d).reset = d.reset := by
  unfold asyncReadStartCurrent
  split
  · rfl
  · unfold asyncReadStart
    split <;> rfl

theorem startCommand_reset (prev : Byte) (d : Drive) : (startCommand cfg prev d).reset = d.reset := by
  have hfetched (d : Drive) :
      (if d.command = winRead ∧ prev = winSetidle1 then
        callbackNow cfg { d with tf.atastat := bsyStat, doInitialRead := true }
      else asyncReadStartCurrent cfg { d with
        tf.atastat := bsyStat, doInitialRead := true, timer := true }).reset = d.reset := by
    split
    · exact ideCallback_reset .disabled _
    · exact asyncReadStartCurrent_reset _
  have hnow : (callbackNow cfg { d with tf.atastat := bsyStat }).reset = d.reset :=
    ideCallback_reset .disabled _
  unfold startCommand
  dsimp only
  cases decode d.command with
  | read => exact hfetched d
  | readMultiple => exact hfetched { d with blockcount := 0 }
  | readDma => exact hfetched d
  | identify => exact hnow
  | setFeatures => exact hnow
  | pidentify => exact hnow
  | setMultiple => exact hnow
  | idle => exact hnow
  | power => exact hnow
  | recal => rfl
  | seek => rfl
  | srst => rfl
  | writeMultiple => rfl
  | write => rfl
  | writeDma => rfl
  | verify => rfl
  | readNativeMax => rfl
  | format => rfl
  | specify => rfl
  | diagnostics => rfl
  | packet => rfl
  | invalid => rfl

def OnRequest (b : Board) : Event → Prop
  | .writeb addr _ => addr = 0 → drq b.current
  | .writeData _ => drq b.current
  | .readb addr => addr = 0 → drq b.current
  | .readData => drq b.current
  | _ => True

def InPio (d : Drive) : Prop := isPioRead d.command = true ∧ drq d

def TakenFirst (b : Board) : Event → Prop
  | .writeb addr _ => addr = 0 → InPio b.current → b.current.tf.pos + 2 < 512
  | .writeData _ => InPio b.current → b.current.tf.pos + 2 < 512
  | .tick ch _ => ¬ InPio (b.drive ch)
  | _ => True

def Answered (cfg : BoardConfig) (b : Board) : Event → Prop
  | .writeb addr val =>
    addr = 7 →
      (decode val = .readDma → busy b.current = false → outOfRange b.current = false → Usable cfg) ∧
      (val = winVerify → b.current.command = winIdentify → b.timer = false)
  | _ => True

structure Fair (cfg : BoardConfig) (b : Board) (e : Event) : Prop where
  request : OnRequest b e
  taken : TakenFirst b e
  answered : Answered cfg b e

structure Held (d : Drive) : Prop where
  pending : d.async.pending = false
  timer : d.timer = false
  stat : d.tf.atastat = bsyStat

theorem Held.busy {d : Drive} (h : Held d) : IdeBoard.busy d = true := by
  unfold IdeBoard.busy
  rw [h.stat]
  decide

theorem Held.still {d : Drive} (h : Held d) : ¬ drq d := by
  unfold drq
  rw [h.stat]
  decide

structure Boards (cfg : BoardConfig) (a b : Board) : Prop where
  devctl : b.devctl = a.devctl
  curDev : b.curDev = a.curDev
  diag : b.diag = a.diag
  timer : b.timer = a.timer
  drive : ∀ ch, Shadow cfg (a.drive ch) (b.drive ch)
  held : a.timer = true → ∀ ch, Held (a.drive ch)
  reset : ∀ ch, (a.drive ch).reset = true → a.timer = true

theorem Boards.current {a b : Board} (h : Boards cfg a b) : Shadow cfg a.current b.current := by
  unfold Board.current
  rw [h.curDev]
  exact h.drive a.curDev

theorem put_other (b : Board) (ch : Bool) (d : Drive) {c : Bool} (hc : c ≠ ch) :
    (b.put ch d).drive c = b.drive c := Function.update_of_ne hc _ _

theorem put_same (b : Board) (ch : Bool) (d : Drive) : (b.put ch d).drive ch = d :=
  Function.update_self _ _ _

theorem Boards.put {a b : Board} (h : Boards cfg a b) (ch : Bool) {d e : Drive} (hd : Shadow cfg d e)
    (hreset : d.reset = (a.drive ch).reset) (hheld : a.timer = true → Held d) :
    Boards cfg (a.put ch d) (b.put ch e) := by
  refine ⟨h.devctl, h.curDev, h.diag, h.timer, ?_, ?_, ?_⟩
  · intro c
    by_cases hc : c = ch
    · rw [hc, put_same, put_same]
      exact hd
    · rw [put_other _ _ _ hc, put_other _ _ _ hc]
      exact h.drive c
  · intro htimer c
    by_cases hc : c = ch
    · rw [hc, put_same]
      exact hheld htimer
    · rw [put_other _ _ _ hc]
      exact h.held htimer c
  · intro c
    by_cases hc : c = ch
    · rw [hc, put_same, hreset]
      exact h.reset ch
    · rw [put_other _ _ _ hc]
      exact h.reset c

theorem Boards.off_of_drq {a b : Board} (h : Boards cfg a b) (hdrq : drq a.current) : a.timer = false := by
  cases htimer : a.timer with
  | false => rfl
  | true => exact absurd hdrq (h.held htimer a.curDev).still

structure Registers (g : Drive → Drive) : Prop where
  under : ∀ d f a, g (under d f a) = AsyncShadow.under (g d) f a
  fields : ∀ d, ∃ (tf : Tf) (addr : BitVec 32), g d = { d with tf := tf, lbaAddr := addr } ∧
    tf.atastat = d.tf.atastat

theorem Registers.shadow {g : Drive → Drive} (hg : Registers g) {d e : Drive} (h : Shadow cfg d e) :
    Shadow cfg (atRest g d) (atRest g e) := by
  cases h with
  | under f a hidle h =>
    unfold atRest
    change Shadow cfg _ (if busy d = true then _ else _)
    split
    · exact Shadow.under f a hidle h
    · rename_i hrest
      rw [hg.under]
      refine Shadow.under f a hidle ?_
      obtain ⟨tf, addr, heq, hstat⟩ := hg.fields d
      rw [heq]
      exact h.rest (Bool.eq_false_iff.mpr hrest) tf hstat addr

theorem Registers.reset {g : Drive → Drive} (hg : Registers g) (d : Drive) :
    (atRest g d).reset = d.reset := by
  unfold atRest
  split
  · rfl
  · obtain ⟨tf, addr, heq, -⟩ := hg.fields d
    rw [heq]

theorem atRest_held {g : Drive → Drive} {d : Drive} (h : Held d) : Held (atRest g d) := by
  unfold atRest
  rw [if_pos h.busy]
  exact h

theorem Boards.registers {a b : Board} (h : Boards cfg a b) {g : Drive → Drive} (hg : Registers g) :
    Boards cfg (a.both (atRest g)) (b.both (atRest g)) := by
  refine ⟨h.devctl, h.curDev, h.diag, h.timer, ?_, ?_, ?_⟩
  · intro ch
    exact hg.shadow (h.drive ch)
  · intro htimer ch
    exact atRest_held (h.held htimer ch)
  · intro ch hreset
    refine h.reset ch ?_
    rw [← hg.reset]
    exact hreset

theorem Hidden.marked {d : Drive} {f : ℕ → Byte} (h : Hidden cfg d f) (selected : Bool) :
    Hidden cfg { d with selected := selected } f :=
  h.mark d.irqstat d.service selected d.reset d.blockcount d.tf.pos d.buffer d.tf.error

theorem select_boards {a b : Board} (h : Boards cfg a b) (ch : Bool) :
    Boards cfg (select a ch) (select b ch) := by
  unfold select
  rw [h.curDev]
  split
  · refine ⟨h.devctl, rfl, h.diag, h.timer, ?_, ?_, h.reset⟩
    · intro c
      exact (h.drive c).map (fun d => { d with selected := c == ch }) (fun _ _ => rfl)
        fun f hf => Hidden.marked hf _
    · intro htimer c
      have hheld := h.held htimer c
      exact ⟨hheld.pending, hheld.timer, hheld.stat⟩
  · exact h

theorem setDrvsel_registers (val head : Byte) : Registers (setDrvsel val head) :=
  ⟨fun _ _ _ => rfl, fun d => ⟨{ d.tf with drvsel := val &&& 0xEF }, _, rfl, rfl⟩⟩

theorem headWritten_boards {a b : Board} (h : Boards cfg a b) (ch : Bool) (hch : a.curDev = ch)
    (val : Byte) : Boards cfg (headWritten a ch val) (headWritten b ch val) := by
  have hfirst := setDrvsel_registers val (val &&& 0xEF &&& 0x0F)
  have hcurrent : a.current = a.drive ch := by
    unfold Board.current
    rw [hch]
  have hput := h.put ch (hfirst.shadow h.current) (by rw [hfirst.reset, hcurrent])
    fun htimer => atRest_held (h.held htimer a.curDev)
  unfold headWritten
  dsimp only
  rw [hput.current.same_tf]
  have hsecond := setDrvsel_registers val
    (a.put ch (atRest (setDrvsel val (val &&& 0xEF &&& 0x0F)) a.current)).current.tf.head
  refine hput.put (!ch) (hsecond.shadow (hput.drive _)) (hsecond.reset _) ?_
  intro htimer
  exact atRest_held (hput.held htimer _)

theorem ideResetRegisters_shadow {d e : Drive} (h : Shadow cfg d e) (hpending : d.async.pending = false) :
    Shadow cfg (ideResetRegisters d) (ideResetRegisters e) := by
  refine h.map ideResetRegisters (fun _ _ => rfl) ?_
  intro f hf
  refine Hidden.quiet (d := ideResetRegisters d) hf.complete hf.missing hpending
    (fun _ _ => Or.inr rfl) fun _ => ?_
  change ¬ (drdyStat ||| dscStat) &&& drqStat ≠ 0
  decide

theorem writeDrvsel_boards {a b : Board} (h : Boards cfg a b) (val : Byte) :
    Boards cfg (writeDrvsel a val) (writeDrvsel b val) := by
  have hselect := select_boards h (val.getLsbD 4)
  rw [writeDrvsel_eq, writeDrvsel_eq, h.curDev, (hselect.drive false).same_reset,
    (hselect.drive true).same_reset]
  split
  · rename_i hmoved
    have htimer : (select a (val.getLsbD 4)).timer = true := by
      rcases hmoved.2 with hflag | hflag
      · exact hselect.reset _ hflag
      · exact hselect.reset _ hflag
    refine ⟨hselect.devctl, hselect.curDev, hselect.diag, rfl, ?_, ?_, ?_⟩
    · intro ch
      exact ideResetRegisters_shadow (hselect.drive ch) (hselect.held htimer ch).pending
    · intro hoff
      cases hoff
    · intro ch hflag
      cases hflag
  · exact headWritten_boards hselect _ (select_curDev a _) val

theorem resetting_shadow {d e : Drive} (h : Shadow cfg d e) :
    Shadow cfg (resetting d) (resetting e) ∧ Held (resetting d) := by
  cases h with
  | under f a hidle h =>
    have hfinish : asyncReadFinish (under d f a) = (under d f a, none) := by
      unfold asyncReadFinish
      exact if_neg (Bool.eq_false_iff.mp hidle)
    have hdiscard : ∃ (sb : ℕ → Byte) (r : AsyncRead),
        asyncReadDiscard d = under d sb r ∧ r.pending = false ∧
          (d.image.file = none → sb = d.sectorBuffer) := by
      unfold asyncReadDiscard asyncReadFinish
      cases hpending : d.async.pending with
      | false => exact ⟨d.sectorBuffer, d.async, rfl, hpending, fun _ => rfl⟩
      | true =>
        obtain ⟨sb, hwork, -, hnone⟩ := work_own hpending (h.asked hpending).own
        rw [if_pos rfl, hwork]
        refine ⟨sb, _, rfl, rfl, ?_⟩
        intro hfile
        refine hnone ?_
        unfold hddImageRead
        rw [hfile, Option.map_none]
    obtain ⟨sb, r, hd, hr, hmissing⟩ := hdiscard
    have hother : asyncReadDiscard (under d f a) = under d f a := by
      unfold asyncReadDiscard
      rw [hfinish]
    have hstart : resetting (under d f a) =
        under { ideSetSignature (under d sb r) with
          tf.atastat := bsyStat, tf.error := 1, timer := false } f a := by
      unfold resetting devReset
      rw [hother]
      rfl
    have hself : resetting d =
        { ideSetSignature (under d sb r) with
          tf.atastat := bsyStat, tf.error := 1, timer := false } := by
      unfold resetting devReset
      rw [hd]
    rw [hstart, hself]
    refine ⟨Shadow.under f a hidle ?_, hr, rfl, rfl⟩
    apply Hidden.quiet
    · exact h.complete
    · intro hfile
      exact (h.missing hfile).trans (hmissing hfile).symm
    · exact hr
    · exact fun _ _ => Or.inr rfl
    · intro _
      change ¬ bsyStat &&& drqStat ≠ 0
      decide

theorem startReset_boards {a b : Board} (h : Boards cfg a b) (diag : Bool) :
    Boards cfg (startReset a diag) (startReset b diag) := by
  have hcur : (b.both resetting).curDev = (a.both resetting).curDev := h.curDev
  unfold startReset
  dsimp only
  rw [hcur]
  refine ⟨h.devctl, rfl, rfl, rfl, ?_, ?_, fun _ _ => rfl⟩
  · intro ch
    refine (resetting_shadow (h.drive ch)).1.map (fun d =>
        { d with selected := !ch, reset := d.reset || ch == ((a.both resetting).curDev && !diag) })
      (fun _ _ => rfl) ?_
    intro f hf
    exact hf.mark _ _ (!ch) _ _ _ _ _
  · intro _ ch
    have hheld := (resetting_shadow (h.drive ch)).2
    exact ⟨hheld.pending, hheld.timer, hheld.stat⟩

def accepted (val : Byte) (d : Drive) : Drive := { ideIrqLower d with command := val, tf.error := 0 }

theorem writeCommand_eq (cfg : BoardConfig) (b : Board) (val : Byte) :
    writeCommand cfg b val =
      if busy b.current = true ∧ (val ≠ winVerify ∨ b.current.command ≠ winIdentify) then b
      else if decode val = .diagnostics then startReset (b.put b.curDev (accepted val b.current)) true
      else b.put b.curDev (startCommand cfg b.current.command (accepted val b.current)) := rfl

theorem Shadow.parts {d e : Drive} (h : Shadow cfg d e) :
    ∃ (f : ℕ → Byte) (a : AsyncRead), e = under d f a ∧ a.pending = false ∧ Hidden cfg d f := by
  cases h with
  | under f a hidle h => exact ⟨f, a, rfl, hidle, h⟩

theorem writeCommand_boards {a b : Board} (h : Boards cfg a b) (val : Byte)
    (husable : decode val = .readDma → busy a.current = false → outOfRange a.current = false →
      Usable cfg)
    (hverify : val = winVerify → a.current.command = winIdentify → a.timer = false) :
    Boards cfg (writeCommand cfg a val) (writeCommand (foreground cfg) b val) := by
  have hbusy : busy b.current = busy a.current := by
    unfold busy
    rw [h.current.same_tf]
  rw [writeCommand_eq, writeCommand_eq, hbusy, h.current.same_command]
  split
  · exact h
  · rename_i htaken
    have hrest : busy a.current = true → val = winVerify ∧ a.current.command = winIdentify := by
      intro htrue
      constructor
      · by_contra hne
        exact htaken ⟨htrue, Or.inl hne⟩
      · by_contra hne
        exact htaken ⟨htrue, Or.inr hne⟩
    have htimer : a.timer = false := by
      cases htimer : a.timer with
      | false => rfl
      | true =>
        obtain ⟨hval, hcommand⟩ := hrest (h.held htimer a.curDev).busy
        exact htimer.symm.trans (hverify hval hcommand)
    have hheld {d : Drive} : a.timer = true → Held d := by
      intro htrue
      exact absurd (htimer.symm.trans htrue) Bool.false_ne_true
    obtain ⟨f, r, he, hidle, hidden⟩ := Shadow.parts h.current
    have hpending : a.current.async.pending = false := by
      cases hpending : a.current.async.pending with
      | false => rfl
      | true =>
        have hasked := hidden.asked hpending
        have hfetch := hasked.fetch
        rw [(hrest (bsy_busy hasked.bsy)).2] at hfetch
        unfold IsFetch at hfetch
        exact absurd hfetch (by decide)
    rw [he, h.curDev]
    split
    · rename_i hdiag
      refine startReset_boards ?_ true
      refine h.put a.curDev (Shadow.under f r hidle ?_) rfl hheld
      refine Hidden.other (d := accepted val a.current) hidden.complete hidden.missing hpending ?_
      change ¬ IsFetch val
      unfold IsFetch
      rw [hdiag]
      decide
    · refine h.put a.curDev ?_ (startCommand_reset _ _) hheld
      refine startCommand_shadow (d := accepted val a.current) _ hidden.complete hidden.missing hpending
        hidle ?_
      intro hdma hrange
      refine husable hdma ?_ hrange
      cases hb : busy a.current with
      | false => rfl
      | true =>
        change decode val = .readDma at hdma
        rw [(hrest hb).1] at hdma
        exact absurd hdma (by decide)

theorem ideWriteb_boards {a b : Board} (h : Boards cfg a b) {addr : BitVec 3} {val : Byte}
    (hfair : Fair cfg a (.writeb addr val)) :
    Boards cfg (ideWriteb cfg a addr val) (ideWriteb (foreground cfg) b addr val) := by
  have hrequest := hfair.request
  have htaken := hfair.taken
  have hanswered := hfair.answered
  unfold ideWriteb
  match haddr : addr with
  | 0 =>
    have hdrq : drq a.current := hrequest rfl
    have hoff := h.off_of_drq hdrq
    change Boards cfg (a.put a.curDev _) (b.put b.curDev _)
    rw [h.curDev]
    refine h.put a.curDev (ideWriteData_shadow h.current hdrq _ ?_) (ideWriteData_reset _ _) ?_
    · intro hpio
      exact htaken rfl ⟨hpio, hdrq⟩
    · intro htimer
      exact absurd (hoff.symm.trans htimer) Bool.false_ne_true
  | 1 => exact h.registers ⟨fun _ _ _ => rfl, fun d => ⟨{ d.tf with cylprecomp := val }, d.lbaAddr, rfl, rfl⟩⟩
  | 2 => exact h.registers ⟨fun _ _ _ => rfl, fun d => ⟨{ d.tf with secount := val }, d.lbaAddr, rfl, rfl⟩⟩
  | 3 => exact h.registers ⟨fun _ _ _ => rfl, fun d => ⟨{ d.tf with sector := val }, _, rfl, rfl⟩⟩
  | 4 =>
    exact h.registers ⟨fun _ _ _ => rfl, fun d =>
      ⟨{ d.tf with cylinder := d.tf.cylinder &&& 0xFF00 ||| val.setWidth 16 }, _, rfl, rfl⟩⟩
  | 5 =>
    exact h.registers ⟨fun _ _ _ => rfl, fun d =>
      ⟨{ d.tf with cylinder := d.tf.cylinder &&& 0x00FF ||| val.setWidth 16 <<< 8 }, _, rfl, rfl⟩⟩
  | 6 => exact writeDrvsel_boards h val
  | 7 =>
    obtain ⟨husable, hverify⟩ := hanswered rfl
    exact writeCommand_boards h val husable hverify

theorem ideReadb_boards {a b : Board} (h : Boards cfg a b) {addr : BitVec 3}
    (hfair : Fair cfg a (.readb addr)) :
    Boards cfg (ideReadb cfg a addr).1 (ideReadb (foreground cfg) b addr).1 ∧
      (ideReadb (foreground cfg) b addr).2 = (ideReadb cfg a addr).2 := by
  have hrequest := hfair.request
  have htf := h.current.same_tf
  unfold ideReadb
  dsimp only
  match haddr : addr with
  | 0 =>
    have hdrq : drq a.current := hrequest rfl
    have hoff := h.off_of_drq hdrq
    have hread := ideReadData_shadow h.current hdrq
    refine ⟨?_, congrArg (BitVec.setWidth 8) hread.2⟩
    change Boards cfg (a.put a.curDev _) (b.put b.curDev _)
    rw [h.curDev]
    refine h.put a.curDev hread.1 (ideReadData_reset _) ?_
    intro htimer
    exact absurd (hoff.symm.trans htimer) Bool.false_ne_true
  | 1 => exact ⟨h, congrArg Tf.error htf⟩
  | 2 => exact ⟨h, congrArg Tf.secount htf⟩
  | 3 => exact ⟨h, congrArg Tf.sector htf⟩
  | 4 => exact ⟨h, congrArg (fun tf : Tf => tf.cylinder.setWidth 8) htf⟩
  | 5 => exact ⟨h, congrArg (fun tf : Tf => (tf.cylinder >>> 8).setWidth 8) htf⟩
  | 6 =>
    refine ⟨h, ?_⟩
    change b.current.tf.drvsel ||| (if b.curDev = true then 0xB0 else 0xA0) =
      a.current.tf.drvsel ||| (if a.curDev = true then 0xB0 else 0xA0)
    rw [htf, h.curDev]
  | 7 =>
    refine ⟨?_, congrArg Tf.atastat htf⟩
    change Boards cfg (a.put a.curDev (ideIrqLower a.current)) (b.put b.curDev (ideIrqLower b.current))
    rw [h.curDev]
    refine h.put a.curDev (h.current.map ideIrqLower (fun _ _ => rfl) ?_) rfl ?_
    · intro f hf
      exact hf.mark false (a.current.service || false) _ _ _ _ _ _
    · intro htimer
      have hheld := h.held htimer a.curDev
      exact ⟨hheld.pending, hheld.timer, hheld.stat⟩

theorem srst_shadow {d e : Drive} (h : Shadow cfg d e) :
    Shadow cfg { d with tf.atastat := bsyStat, tf.error := 1, timer := false }
      { e with tf.atastat := bsyStat, tf.error := 1, timer := false } := by
  refine h.map (fun d => { d with tf.atastat := bsyStat, tf.error := 1, timer := false })
    (fun _ _ => rfl) ?_
  intro f hf
  have hdrq : ¬ drq { d with tf.atastat := bsyStat, tf.error := 1, timer := false } := by
    change ¬ bsyStat &&& drqStat ≠ 0
    decide
  have hnot : ¬ Live { d with tf.atastat := bsyStat, tf.error := 1, timer := false } := by
    rintro ⟨-, -, hshown⟩
    cases hshown with
    | inl htimer => cases htimer
    | inr h => exact hdrq h
  refine ⟨hf.complete, hf.missing, ?_, fun hlive => absurd hlive hnot, fun hlive => absurd hlive hnot,
    fun _ h => absurd h hdrq⟩
  intro hpending
  have hasked := hf.asked hpending
  have hown := hasked.own
  refine ⟨hasked.fetch, hasked.first, ?_, hdrq, hasked.range, hasked.block, hasked.dma,
    ⟨hown.sector, hown.count, hown.result, hown.data⟩⟩
  change bsyStat &&& bsyStat ≠ 0
  decide

theorem ideWriteDevctl_boards {a b : Board} (h : Boards cfg a b) (val : Byte) :
    Boards cfg (ideWriteDevctl a val) (ideWriteDevctl b val) := by
  have hquiet : Boards cfg { a with diag := false } { b with diag := false } :=
    ⟨h.devctl, h.curDev, rfl, h.timer, h.drive, h.held, h.reset⟩
  have hhold : Boards cfg
      ({ a with diag := false }.both fun d =>
        { d with tf.atastat := bsyStat, tf.error := 1, timer := false })
      ({ b with diag := false }.both fun d =>
        { d with tf.atastat := bsyStat, tf.error := 1, timer := false }) := by
    refine ⟨h.devctl, h.curDev, rfl, h.timer, fun ch => srst_shadow (h.drive ch), ?_, h.reset⟩
    intro htimer ch
    exact ⟨(h.held htimer ch).pending, rfl, rfl⟩
  have hstart := startReset_boards hquiet false
  have hset {a b : Board} (h : Boards cfg a b) :
      Boards cfg { a with devctl := val } { b with devctl := val } :=
    ⟨rfl, h.curDev, h.diag, h.timer, h.drive, h.held, h.reset⟩
  unfold ideWriteDevctl
  dsimp only
  rw [h.devctl] at hhold hstart hquiet ⊢
  apply hset
  split
  · exact hhold
  split
  · exact hstart
  · exact hquiet

theorem released_shadow {d e : Drive} (h : Shadow cfg d e) (hheld : Held d) :
    Shadow cfg { d with tf.atastat := drdyStat ||| dscStat, reset := false }
      { e with tf.atastat := drdyStat ||| dscStat, reset := false } := by
  refine h.map (fun d => { d with tf.atastat := drdyStat ||| dscStat, reset := false })
    (fun _ _ => rfl) ?_
  intro f hf
  refine Hidden.quiet (d := { d with tf.atastat := drdyStat ||| dscStat, reset := false })
    hf.complete hf.missing hheld.pending (fun _ _ => Or.inr hheld.timer) fun _ => ?_
  change ¬ (drdyStat ||| dscStat) &&& drqStat ≠ 0
  decide

def released (b : Board) : Board :=
  { b.both fun d => { d with tf.atastat := drdyStat ||| dscStat, reset := false } with
    curDev := false, timer := false }

theorem ideBoardCallback_boards {a b : Board} (h : Boards cfg a b) (htimer : a.timer = true) :
    Boards cfg (ideBoardCallback { a with timer := false })
      (ideBoardCallback { b with timer := false }) := by
  have hdone : Boards cfg (released a) (released b) := by
    refine ⟨h.devctl, rfl, h.diag, rfl, fun ch => released_shadow (h.drive ch) (h.held htimer ch), ?_, ?_⟩
    · intro hoff
      cases hoff
    · intro ch hflag
      cases hflag
  have hraise : Boards cfg ((released a).put false (ideIrqRaise ((released a).drive false)))
      ((released b).put false (ideIrqRaise ((released b).drive false))) := by
    refine hdone.put false ((hdone.drive false).map ideIrqRaise (fun _ _ => rfl) ?_) rfl ?_
    · intro f hf
      exact hf.mark true (((released a).drive false).service || true) _ _ _ _ _ _
    · intro hoff
      cases hoff
  unfold ideBoardCallback
  change Boards cfg
    (if a.diag = true then
      { (released a).put false (ideIrqRaise ((released a).drive false)) with diag := false }
    else released a)
    (if b.diag = true then
      { (released b).put false (ideIrqRaise ((released b).drive false)) with diag := false }
    else released b)
  rw [h.diag]
  split
  · exact ⟨hraise.devctl, hraise.curDev, rfl, hraise.timer, hraise.drive, hraise.held, hraise.reset⟩
  · exact hdone

theorem asyncReadFill_shadow {d e : Drive} (h : Shadow cfg d e) (n : ℕ) :
    Shadow cfg (asyncReadFill d n) (asyncReadFill e n) := by
  cases h with
  | under f a hidle h =>
    have hother : asyncReadFill (under d f a) n = under d f a := by
      unfold asyncReadFill
      exact if_neg fun hand => Bool.false_ne_true (hidle.symm.trans hand.1)
    rw [hother]
    unfold asyncReadFill
    split
    · rename_i hout
      have hasked := h.asked hout.1
      have hown := hasked.own
      split
      · rename_i data hread
        refine Shadow.under f a hidle ⟨h.complete, ?_, ?_, h.occupied, ?_, h.single⟩
        · intro hfile
          unfold hddImageRead at hread
          rw [hfile, Option.map_none] at hread
          cases hread
        · intro _
          refine ⟨hasked.fetch, hasked.first, hasked.bsy, hasked.still, hasked.range, hasked.block,
            hasked.dma, hown.sector, hown.count, hown.result, ?_⟩
          intro hcomplete
          exact absurd (hout.2.symm.trans hcomplete) Bool.false_ne_true
        · intro hlive
          exact absurd (hlive.2.1.symm.trans hasked.first) Bool.false_ne_true
      · exact Shadow.under f a hidle h
    · exact Shadow.under f a hidle h

theorem asyncReadWork_shadow {d e : Drive} (h : Shadow cfg d e) :
    Shadow cfg (asyncReadWork d) (asyncReadWork e) := by
  cases h with
  | under f a hidle h =>
    have hother : asyncReadWork (under d f a) = under d f a := by
      unfold asyncReadWork
      exact if_neg fun hand => Bool.false_ne_true (hidle.symm.trans hand.1)
    rw [hother]
    cases hpending : d.async.pending with
    | false =>
      have hself : asyncReadWork d = d := by
        unfold asyncReadWork
        exact if_neg fun hand => Bool.false_ne_true (hpending.symm.trans hand.1)
      rw [hself]
      exact Shadow.under f a hidle h
    | true =>
      have hasked := h.asked hpending
      obtain ⟨sb, hwork, hdata, hnone⟩ := work_own hpending hasked.own
      rw [hwork]
      refine Shadow.under f a hidle ⟨h.complete, ?_, ?_, h.occupied, ?_, h.single⟩
      · intro hfile
        refine (h.missing hfile).trans (hnone ?_).symm
        unfold hddImageRead
        rw [hfile, Option.map_none]
      · intro _
        exact ⟨hasked.fetch, hasked.first, hasked.bsy, hasked.still, hasked.range, hasked.block,
          hasked.dma, hasked.own.sector, hasked.own.count, fun _ => rfl, fun _ => hdata⟩
      · intro hlive
        exact absurd (hlive.2.1.symm.trans hasked.first) Bool.false_ne_true

theorem tick_called {d : Drive} {f : ℕ → Byte} (h : Hidden cfg d f) (htimer : d.timer = true)
    (htaken : ¬ InPio d) : Called cfg { d with timer := false } f := by
  refine ⟨h.complete, h.missing, ?_, fun _ => Or.inl rfl, ?_⟩
  · intro hpending
    have hasked := h.asked hpending
    have hown := hasked.own
    exact ⟨hasked.fetch, hasked.first, hasked.bsy, hasked.still, hasked.range, hasked.block, hasked.dma,
      ⟨hown.sector, hown.count, hown.result, hown.data⟩⟩
  · intro hfetch hfirst hfile
    have hagree := h.agree ⟨hfetch, hfirst, Or.inl htimer⟩ hfile
    have hwindow : window d = due d := by
      unfold window
      refine if_neg ?_
      rintro ⟨hdma, hdrq⟩
      refine htaken ⟨?_, hdrq⟩
      rcases hfetch with hc | hc | hc
      · exact (pio_decode _).mpr (Or.inl hc)
      · exact (pio_decode _).mpr (Or.inr hc)
      · exact absurd hc hdma
    rw [hwindow] at hagree
    exact hagree

theorem port_boards {a b : Board} (h : Boards cfg a b) (hdrq : drq a.current) {d e : Drive}
    (hd : Shadow cfg d e) (hreset : d.reset = a.current.reset) :
    Boards cfg (a.put a.curDev d) (b.put b.curDev e) := by
  have hoff := h.off_of_drq hdrq
  rw [h.curDev]
  refine h.put a.curDev hd hreset ?_
  intro htimer
  exact absurd (hoff.symm.trans htimer) Bool.false_ne_true

theorem tick_boards {a b : Board} (h : Boards cfg a b) {ch : Bool} {dma : Dma}
    (hfair : Fair cfg a (.tick ch dma)) :
    Boards cfg (boardStep cfg a (.tick ch dma)).1 (boardStep (foreground cfg) b (.tick ch dma)).1 ∧
      (boardStep cfg a (.tick ch dma)).2 = (boardStep (foreground cfg) b (.tick ch dma)).2 := by
  obtain ⟨f, r, he, hidle, hidden⟩ := Shadow.parts (h.drive ch)
  have htaken : ¬ InPio (a.drive ch) := hfair.taken
  unfold boardStep
  dsimp only
  rw [(h.drive ch).same_timer]
  split
  · rename_i htimer
    have hcallback := ideCallback_shadow dma (tick_called hidden htimer htaken) hidle
    rw [he]
    change Boards cfg _ (b.put ch (ideCallback (foreground cfg) dma
      (under { a.drive ch with timer := false } f r)).1) ∧ _ =
        (ideCallback (foreground cfg) dma (under { a.drive ch with timer := false } f r)).2.map Output.moved
    refine ⟨h.put ch hcallback.1 (ideCallback_reset _ _) ?_, ?_⟩
    · intro hboard
      exact absurd ((h.held hboard ch).timer.symm.trans htimer) Bool.false_ne_true
    · rw [hcallback.2]
  · exact ⟨h, rfl⟩

theorem boardStep_boards {a b : Board} (h : Boards cfg a b) {e : Event} (hfair : Fair cfg a e) :
    Boards cfg (boardStep cfg a e).1 (boardStep (foreground cfg) b e).1 ∧
      (boardStep cfg a e).2 = (boardStep (foreground cfg) b e).2 := by
  cases e with
  | writeb addr val => exact ⟨ideWriteb_boards h hfair, rfl⟩
  | writeData val =>
    have hdrq : drq a.current := hfair.request
    refine ⟨port_boards h hdrq (ideWriteData_shadow h.current hdrq val ?_) (ideWriteData_reset _ _), rfl⟩
    intro hpio
    exact hfair.taken ⟨hpio, hdrq⟩
  | readb addr =>
    obtain ⟨hboards, hval⟩ := ideReadb_boards h hfair
    refine ⟨hboards, ?_⟩
    unfold boardStep
    dsimp only
    rw [hval]
  | readData =>
    have hdrq : drq a.current := hfair.request
    have hread := ideReadData_shadow h.current hdrq
    refine ⟨port_boards h hdrq hread.1 (ideReadData_reset _), ?_⟩
    unfold boardStep
    dsimp only
    rw [hread.2]
  | readAltStatus =>
    unfold boardStep
    dsimp only
    rw [h.current.same_tf]
    exact ⟨h, rfl⟩
  | writeDevctl val => exact ⟨ideWriteDevctl_boards h val, rfl⟩
  | tick ch dma => exact tick_boards h hfair
  | boardTick =>
    unfold boardStep
    dsimp only
    rw [h.timer]
    split
    · rename_i htimer
      exact ⟨ideBoardCallback_boards h htimer, rfl⟩
    · exact ⟨h, rfl⟩
  | fill ch n =>
    refine ⟨h.put ch (asyncReadFill_shadow (h.drive ch) n) (asyncReadFill_reset _ _) ?_, rfl⟩
    intro htimer
    have hheld := h.held htimer ch
    have hself : asyncReadFill (a.drive ch) n = a.drive ch := by
      unfold asyncReadFill
      exact if_neg fun hand => Bool.false_ne_true (hheld.pending.symm.trans hand.1)
    rw [hself]
    exact hheld
  | work ch =>
    refine ⟨h.put ch (asyncReadWork_shadow (h.drive ch)) (asyncReadWork_reset _) ?_, rfl⟩
    intro htimer
    have hheld := h.held htimer ch
    have hself : asyncReadWork (a.drive ch) = a.drive ch := by
      unfold asyncReadWork
      exact if_neg fun hand => Bool.false_ne_true (hheld.pending.symm.trans hand.1)
    rw [hself]
    exact hheld

theorem simulation (cfg : BoardConfig) :
    SimulationAlong (boardMachine cfg) (boardMachine (foreground cfg)) (Fair cfg) (Boards cfg) where
  next _ _ _ hfair h := (boardStep_boards h hfair).1
  answer _ _ _ hfair h := (boardStep_boards h hfair).2

theorem setup_boards (cfg : BoardConfig) {img : Bool → Image} (hcomplete : ∀ ch, Complete (img ch))
    (preset : BitVec 32) (maxMultiple : Byte) :
    Boards cfg (setupBoard cfg img preset maxMultiple) (setupBoard cfg img preset maxMultiple) := by
  refine ⟨rfl, rfl, rfl, rfl, ?_, ?_, ?_⟩
  · intro ch
    refine Shadow.under (d := setupDrive cfg (img ch) preset maxMultiple ch) (fun _ => 0)
      (setupDrive cfg (img ch) preset maxMultiple ch).async rfl ?_
    refine Hidden.other (hcomplete ch) (fun _ => rfl) rfl ?_
    change ¬ IsFetch 0
    unfold IsFetch
    decide
  · intro htimer
    cases htimer
  · intro ch hreset
    cases hreset

/-- What the guest cannot tell about a drive, and what a read and a write by DMA come to. -/
structure Unseen (cfg : BoardConfig) (d e : Drive) : Prop where
  tf : e.tf = d.tf
  image : e.image = d.image
  fetched : IsFetch d.command → d.doInitialRead = true →
    ∃ (sb : ℕ → Byte) (a : AsyncRead), Fetched d (ideGetSector d) (sectorCount d.tf) sb a
  idle : decode d.command = .writeDma → d.async.pending = false
  stored : decode d.command = .writeDma → outOfRange d = false → cfg.forceAta3 = false →
    cfg.bm = some true → ∀ memory : ℕ → Byte,
      (commandCallback cfg (.done memory) d).drive.image =
        (hddImageWrite d.image (BitVec.ofNat 32 (ideGetSector d)) (BitVec.ofNat 32 (sectorCount d.tf))
          ((List.range (512 * sectorCount d.tf)).map memory)).1

theorem Shadow.unseen {d e : Drive} (h : Shadow cfg d e) : Unseen cfg d e := by
  obtain ⟨f, a, -, -, hidden⟩ := Shadow.parts h
  refine ⟨h.same_tf, h.same_image, ?_, ?_, ?_⟩
  · intro _ _
    exact initialRead_fetched fun hpending => (hidden.asked hpending).own
  · intro hdecode
    cases hpending : d.async.pending with
    | false => rfl
    | true =>
      have hfetch := (hidden.asked hpending).fetch
      unfold IsFetch at hfetch
      rw [hdecode] at hfetch
      exact absurd hfetch (by decide)
  · intro hdecode hrange hata hbm memory
    unfold commandCallback
    rw [hdecode]
    dsimp only
    unfold callbackWriteDma
    rw [if_neg (by rw [hata, hbm]; decide), if_neg (Bool.eq_false_iff.mp hrange), if_pos hbm]
    change (hddImageWrite d.image _ _ ((List.range (512 * sectorCount d.tf)).map
      (overlay d.sectorBuffer ((List.range (512 * sectorCount d.tf)).map memory)))).1 = _
    rw [overlay_row]
    rfl

/-- Nobody can tell whether reads are started in the background. -/
theorem background_unseen (cfg : BoardConfig) (img : Bool → Image) (hcomplete : ∀ ch, Complete (img ch))
    (preset : BitVec 32) (maxMultiple : Byte) (is : List Event)
    (hfair : (boardMachine cfg).Along (Fair cfg) (setupBoard cfg img preset maxMultiple) is) :
    (boardMachine cfg).trace (setupBoard cfg img preset maxMultiple) is =
        (boardMachine (foreground cfg)).trace (setupBoard cfg img preset maxMultiple) is ∧
      ∀ ch, Unseen cfg
        (((boardMachine cfg).run (setupBoard cfg img preset maxMultiple) is).drive ch)
        (((boardMachine (foreground cfg)).run (setupBoard cfg img preset maxMultiple) is).drive ch) := by
  have hstart := setup_boards cfg hcomplete preset maxMultiple
  refine ⟨(simulation cfg).trace hstart is hfair, ?_⟩
  intro ch
  exact Shadow.unseen (((simulation cfg).run hstart is hfair).drive ch)

/-! A drive of two sectors. -/

def twoSectors : Image where
  file := some (Stream.ofFile (write (grow empty 1024) 512 [0x5A]))
  base := 0
  lastSector := 1
  type := .raw
  loaded := true
  geometry := { spt := 2, hpc := 1, tracks := 1 }

theorem twoSectors_complete : Complete twoSectors := by
  intro _
  decide +kernel

def twoSectorBoard : Board := setupBoard plainConfig (fun _ => twoSectors) 0 32

theorem background_unseen_read :
    (boardMachine plainConfig).trace twoSectorBoard
        [.writeb 7 0x20, .work false, .tick false .disabled, .readData] =
      (boardMachine (foreground plainConfig)).trace twoSectorBoard
        [.writeb 7 0x20, .work false, .tick false .disabled, .readData] := by
  refine (background_unseen plainConfig (fun _ => twoSectors) (fun _ => twoSectors_complete) 0 32
    [.writeb 7 0x20, .work false, .tick false .disabled, .readData] ⟨?_, ?_, ?_, ?_, trivial⟩).1
  · exact ⟨fun h => absurd h (by decide), fun h => absurd h (by decide),
      fun _ => ⟨fun h => absurd h (by decide), fun h => absurd h (by decide)⟩⟩
  · exact ⟨trivial, trivial, trivial⟩
  · exact ⟨trivial, fun h => absurd h.2 (by decide +kernel), trivial⟩
  · refine ⟨?_, trivial, trivial⟩
    change drq _
    decide +kernel

/-- READ DMA of sector 1 on a board without a bus master, then a READ of sector 0. -/
def abortedFirst : List Event :=
  [.writeb 3 2, .writeb 7 0xC8, .tick false .disabled, .writeb 3 1, .writeb 7 0x20,
    .tick false .disabled, .readData]

def wordOf : Output → Option (BitVec 16)
  | .word val => some val
  | _ => none

/-- The READ delivers the sector of the command before. -/
theorem aborted_read_delivered :
    ((boardMachine plainConfig).trace twoSectorBoard abortedFirst).map wordOf = [some 0x005A] ∧
      ((boardMachine (foreground plainConfig)).trace twoSectorBoard abortedFirst).map wordOf =
        [some 0x0000] ∧
      (boardMachine plainConfig).trace twoSectorBoard abortedFirst ≠
        (boardMachine (foreground plainConfig)).trace twoSectorBoard abortedFirst := by
  have hbackground : ((boardMachine plainConfig).trace twoSectorBoard abortedFirst).map wordOf =
      [some 0x005A] := by
    decide +kernel
  have hforeground :
      ((boardMachine (foreground plainConfig)).trace twoSectorBoard abortedFirst).map wordOf =
        [some 0x0000] := by
    decide +kernel
  refine ⟨hbackground, hforeground, ?_⟩
  intro hsame
  rw [hsame, hforeground] at hbackground
  exact absurd hbackground (by decide)

end PeepeeBox.AsyncReads
