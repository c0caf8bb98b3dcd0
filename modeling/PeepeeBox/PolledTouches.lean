import PeepeeBox.AskedReports
import PeepeeBox.TouchTaps

set_option autoImplicit false

/-!
# Packets in Mode Polled

Mode Polled is a reporter on request: ^Q asks, and what the edge detector finds is remembered in
`pq_down` and `pq_up`.
-/
namespace PeepeeBox.PolledTouches
open ByteFifo HaspRecord EdgeReports AskedReports MicroTouch TouchTaps TraceMachine

variable {C T : Type}

/-- Where a packet says the touch is. -/
abbrev Spot (C : Type) := C × C × Bool

def pending (dev : Touch C T) : Pending (Spot C) :=
  { asked := dev.xon
    begun := if dev.pqDown then some (dev.pqDownX, dev.pqDownY, dev.pqDownZone) else none
    ended := if dev.pqUp then some (dev.pqUpX, dev.pqUpY, dev.pqUpZone) else none
    touching := dev.butOld != 0 }

def spoken (r : Report C) : Edge × Spot C := (edge r.ev, r.x, r.y, r.zone)

def commandMoment (c : List Byte) : Moment (Spot C) :=
  if c = ascii "MQ" then .select else if c = ascii "R" ∨ c = ascii "RD" then .reset else .still

def sampleMoment (dev : Touch C T) : Moment (Spot C) :=
  if dev.calCntr ≠ 0 then .missed (dev.but != 0)
  else
    match mtouchEvent dev with
    | some .down => .begins (dev.absX, dev.absY, dev.inZone)
    | some .cont => .goesOn (dev.absX, dev.absY, dev.inZone)
    | some .up => .ends (dev.lastX, dev.lastY, dev.lastInZone)
    | none => .idle

def moment (dev : Touch C T) : Input C → Moment (Spot C)
  | .write data =>
    if data = 0x01 then .still
    else if dev.soh then if data = 0x0D then commandMoment (CString.cstr dev.cmd) else .still
    else if data = 0x11 then .ask
    else .still
  | .tick free =>
    if !free || dev.inReset then .still
    else if fifo8NumUsed dev.resp ≠ 0 then .still
    else if dev.format = .raw then .still
    else sampleMoment dev
  | _ => .still

variable {A : Analog C T}

theorem pending_queued {dev dev' : Touch C T} (h : Queued dev dev') : pending dev' = pending dev := by
  obtain ⟨resp, rfl⟩ := h
  rfl

theorem ack_queued (dev : Touch C T) (c : Byte) : Queued dev (mtouchAck dev c) :=
  (((Queued.refl dev).push _).push _).push _

theorem pending_ack (dev : Touch C T) (c : Byte) : pending (mtouchAck dev c) = pending dev :=
  pending_queued (ack_queued dev c)

theorem pending_if {p : Prop} [Decidable p] {dev dev' : Touch C T} {now : Pending (Spot C)}
    (h : p → pending dev = now) (h' : pending dev' = now) : pending (if p then dev else dev') = now := by
  split
  · next hp => exact h hp
  · exact h'

theorem pending_setFormat (dev : Touch C T) (format : Format) :
    pending (mtouchSetFormat dev format) = pending dev := by
  unfold mtouchSetFormat
  dsimp only
  split_ifs <;> rfl

theorem pending_calibrationPoint (dev : Touch C T) :
    pending (mtouchCalibrationPoint A dev) = pending dev := by
  unfold mtouchCalibrationPoint
  extract_lets idx x y dec swapped pos neg valid dev1 dev2
  clear_value pos neg valid
  split
  · split
    · exact pending_ack _ _
    · rfl
  · by_cases hvalid : (!valid) = true
    · rw [if_pos hvalid]
      exact pending_ack _ _
    · rw [if_neg hvalid]
      have hdev1 : pending dev1 = pending dev := pending_ack _ _
      have hdev2 : pending dev2 = pending dev1 := rfl
      clear_value dev2
      rw [← hdev1, ← hdev2]
      split
      · rfl
      · split <;> rfl

theorem reportRaw_queued (dev : Touch C T) : Queued dev (mtouchReportRaw A dev) :=
  (((((((Queued.refl dev).push _).push _).push _).push _).push _).push _).push _

theorem commandMoment_other {c : List Byte} (hpolled : c ≠ ascii "MQ") (hreset : c ≠ ascii "R")
    (hdefaults : c ≠ ascii "RD") : commandMoment (C := C) c = .still := by
  unfold commandMoment
  rw [if_neg hpolled, if_neg (fun h => h.elim hreset hdefaults)]

theorem commandMoment_reset {c : List Byte} (h : c = ascii "R" ∨ c = ascii "RD") :
    commandMoment (C := C) c = .reset := by
  have hpolled : c ≠ ascii "MQ" := by
    rcases h with rfl | rfl <;> decide +kernel
  unfold commandMoment
  rw [if_neg hpolled, if_pos h]

theorem pending_defaults (dev : Touch C T) : pending (mtouchDefaults dev) = pending dev := rfl

theorem reply_pending {dev dev' : Touch C T} {c : List Byte} (h : mtouchReply A dev c = some dev') :
    pending dev' = reporter.next (pending dev) (commandMoment c) := by
  unfold mtouchReply at h
  extract_lets at_ a b status cfg acked started defaulted unit flags at h
  by_cases hidentity : c = ascii "OI"
  · rw [if_pos hidentity] at h
    obtain rfl := Option.some.inj h
    subst hidentity
    exact pending_queued ((((Queued.refl dev).push _).pushAll _).push _)
  rw [if_neg hidentity] at h
  by_cases hstatus : c = ascii "OS"
  · rw [if_pos hstatus] at h
    obtain rfl := Option.some.inj h
    subst hstatus
    have hqueued : Queued dev status := ((((Queued.refl dev).push _).push _).push _).push _
    have hstatus : pending status = pending dev := pending_queued hqueued
    clear_value status
    exact hstatus
  rw [if_neg hstatus] at h
  split at h
  · next hset =>
    obtain rfl := Option.some.inj h
    have hstill : commandMoment (C := C) c = .still := by
      apply commandMoment_other <;> rintro rfl <;> exact absurd hset.1 (by decide +kernel)
    rw [hstill]
    have hacked : pending acked = pending dev := pending_ack _ _
    clear_value acked
    exact pending_if (fun _ => hacked) hacked
  by_cases hreset : c = ascii "R" ∨ c = ascii "RD"
  · rw [if_pos hreset] at h
    obtain rfl := Option.some.inj h
    rw [commandMoment_reset hreset]
    have hstarted : pending started = reporter.next (pending dev) .reset := rfl
    have hdefaulted : pending defaulted = pending started := pending_defaults started
    clear_value defaulted started
    exact pending_if (fun _ => hdefaulted.trans hstarted) hstarted
  rw [if_neg hreset] at h
  have hresets := not_or.mp hreset
  by_cases hparameters : c = ascii "SP1"
  · rw [if_pos hparameters] at h
    obtain rfl := Option.some.inj h
    subst hparameters
    exact pending_ack _ _
  rw [if_neg hparameters] at h
  by_cases hunit : c = ascii "UT" ∨ c = ascii "UV"
  · rw [if_pos hunit] at h
    obtain rfl := Option.some.inj h
    have hstill : commandMoment (C := C) c = .still := by
      apply commandMoment_other _ hresets.1 hresets.2
      rcases hunit with rfl | rfl <;> decide +kernel
    rw [hstill]
    exact (pending_queued ((((Queued.refl { dev with utReset := false }).push _).pushAll _).push _) :)
  · rw [if_neg hunit] at h
    exact nomatch h

theorem reply_none {dev : Touch C T} {c : List Byte} (h : mtouchReply A dev c = none) :
    c ≠ ascii "R" ∧ c ≠ ascii "RD" := by
  constructor <;> rintro rfl <;> exact nomatch h

theorem set_pending (dev : Touch C T) {c : List Byte} (h : c ≠ ascii "R" ∧ c ≠ ascii "RD") :
    pending (mtouchSet dev c) = reporter.next (pending dev) (commandMoment c) := by
  by_cases hpolled : c = ascii "MQ"
  · subst hpolled
    rfl
  · rw [commandMoment_other hpolled h.1 h.2]
    change _ = pending dev
    unfold mtouchSet
    extract_lets at_
    clear_value at_
    have hmoded : ∀ (d : Touch C T) (mode : Mode) (status : Bool),
        pending { d with mode := mode, modeStatus := status } = pending d := fun _ _ _ => rfl
    have hbinary := pending_setFormat dev .binary
    have hraw := pending_setFormat dev .raw
    have hzone := pending_setFormat dev .zone
    -- The table in the order of the source.
    iterate 5 refine pending_if (fun _ => rfl) ?_
    refine pending_if (fun _ => pending_setFormat dev _) ?_
    iterate 2 refine pending_if (fun _ => rfl) ?_
    iterate 2 refine pending_if (fun _ => (hmoded _ _ _).trans hbinary) ?_
    iterate 2 refine pending_if (fun _ => pending_setFormat dev _) ?_
    refine pending_if (fun _ => hraw) ?_
    refine pending_if (fun _ => pending_setFormat dev _) ?_
    refine pending_if (fun _ => hzone) ?_
    refine pending_if (fun _ => rfl) ?_
    refine pending_if (fun _ => pending_queued ((ack_queued dev _).pushAll _)) ?_
    iterate 3 refine pending_if (fun _ => rfl) ?_
    refine pending_if (fun h => absurd h hpolled) ?_
    iterate 5 refine pending_if (fun _ => rfl) ?_
    rfl

theorem processCommands_pending (dev : Touch C T) : pending (mtouchProcessCommands A dev) =
    reporter.next (pending dev) (commandMoment (CString.cstr dev.cmd)) := by
  unfold mtouchProcessCommands
  dsimp only
  split
  · next dev' h => exact reply_pending h
  · next h =>
    rw [pending_ack]
    exact set_pending dev (reply_none h)

theorem write_pending (dev : Touch C T) (data : Byte) : pending (mtouchWrite A dev data) =
    reporter.next (pending dev) (moment dev (.write data)) := by
  unfold mtouchWrite moment
  dsimp only
  by_cases hstart : data = 0x01
  · rw [if_pos hstart, if_pos hstart]
    rfl
  · rw [if_neg hstart, if_neg hstart]
    by_cases hsoh : dev.soh = true
    · rw [if_pos hsoh, if_pos hsoh]
      by_cases hend : data = 0x0D
      · rw [if_neg (fun hne => hne hend), if_pos hend]
        by_cases hcmd : dev.cmd = []
        · rw [if_pos hcmd, hcmd]
          rfl
        · rw [if_neg hcmd]
          exact processCommands_pending { dev with soh := false }
      · rw [if_pos hend, if_neg hend]
        split <;> rfl
    · rw [if_neg hsoh, if_neg hsoh]
      split <;> rfl

theorem sampleMoment_fits (dev : Touch C T) : Fits (pending dev) (sampleMoment dev) := by
  unfold sampleMoment
  by_cases hcal : dev.calCntr ≠ 0
  · rw [if_pos hcal]
    exact trivial
  · rw [if_neg hcal]
    by_cases hbut : dev.but = 0
    · rw [mtouchEvent_released hbut]
      by_cases hold : dev.butOld = 0
      · rw [if_pos hold]
        exact trivial
      · rw [if_neg hold]
        exact bne_iff_ne.mpr hold
    · rw [mtouchEvent_pressed hbut]
      by_cases hold : dev.butOld = 0
      · rw [if_pos hold]
        exact beq_iff_eq.mp (by simp [pending, hold])
      · rw [if_neg hold]
        exact bne_iff_ne.mpr hold

def remember (dev : Touch C T) : Option Ev → Touch C T
  | some .down =>
    { dev with
      pqDown := true, pqUp := false, pqDownX := dev.lastX, pqDownY := dev.lastY
      pqDownZone := dev.lastInZone }
  | some .up =>
    { dev with pqUp := true, pqUpX := dev.lastX, pqUpY := dev.lastY, pqUpZone := dev.lastInZone }
  | _ => dev

theorem remember_place (dev : Touch C T) (ev : Option Ev) : (remember dev ev).but = dev.but ∧
    (remember dev ev).lastX = dev.lastX ∧ (remember dev ev).lastY = dev.lastY ∧
    (remember dev ev).lastInZone = dev.lastInZone := by
  rcases ev with _ | (_ | _ | _) <;> exact ⟨rfl, rfl, rfl, rfl⟩

theorem polled_take (dev : Touch C T) (ev : Option Ev) :
    (pending (mtouchPolled dev ev).1, (mtouchPolled dev ev).2.map spoken) =
      (pending (remember dev ev)).take
        (if dev.but ≠ 0 ∧ ev ≠ some .down then some (.goesOn, dev.lastX, dev.lastY, dev.lastInZone)
          else none) := by
  obtain ⟨hbut, hx, hy, hzone⟩ := remember_place dev ev
  rw [← hbut, ← hx, ← hy, ← hzone]
  unfold mtouchPolled
  extract_lets dev'
  have hdev' : dev' = remember dev ev := by
    rcases ev with _ | (_ | _ | _) <;> rfl
  rw [← hdev']
  clear_value dev'
  unfold Pending.take
  have hsilent : (!false) = true := rfl
  have hasks : ¬ (!true) = true := by decide
  have htrue : true = true := rfl
  have hfalse : ¬ false = true := by decide
  cases hxon : dev'.xon with
  | false =>
    have hasked : (pending dev').asked = false := hxon
    rw [if_pos hsilent, hasked, if_pos hsilent]
    rfl
  | true =>
    have hasked : (pending dev').asked = true := hxon
    rw [if_neg hasks, hasked, if_neg hasks]
    cases hdown : dev'.pqDown with
    | true =>
      have hbegun : (pending dev').begun = some (dev'.pqDownX, dev'.pqDownY, dev'.pqDownZone) := if_pos hdown
      rw [if_pos htrue, hbegun]
      rfl
    | false =>
      have hbegun : (pending dev').begun = none := if_neg (by simp [hdown])
      rw [if_neg hfalse, hbegun]
      by_cases hgoes : dev'.but ≠ 0 ∧ ev ≠ some .down
      · rw [if_pos hgoes, if_pos hgoes]
        rfl
      · rw [if_neg hgoes, if_neg hgoes]
        cases hup : dev'.pqUp with
        | true =>
          have hended : (pending dev').ended = some (dev'.pqUpX, dev'.pqUpY, dev'.pqUpZone) := if_pos hup
          rw [if_pos htrue, hended]
          rfl
        | false =>
          have hended : (pending dev').ended = none := if_neg (by simp [hup])
          rw [if_neg hfalse, hended]
          rfl

theorem sample_mode (dev : Touch C T) (ev : Option Ev) :
    (mtouchSample dev ev).mode = dev.mode ∧ (mtouchSample dev ev).calCntr = dev.calCntr ∧
      (mtouchSample dev ev).but = dev.but := by
  unfold mtouchSample
  dsimp only
  split <;> exact ⟨rfl, rfl, rfl⟩

theorem sample_pending (dev : Touch C T) (ev : Option Ev) :
    pending (mtouchSample dev ev) = { pending dev with touching := dev.but != 0 } := by
  unfold mtouchSample
  dsimp only
  split <;> rfl

theorem sampled_step (dev : Touch C T) :
    (pending (mtouchPolled (mtouchSample dev (mtouchEvent dev)) (mtouchEvent dev)).1,
      (mtouchPolled (mtouchSample dev (mtouchEvent dev)) (mtouchEvent dev)).2.map spoken) =
      reporter.step (pending dev)
        (match mtouchEvent dev with
        | some .down => .begins (dev.absX, dev.absY, dev.inZone)
        | some .cont => .goesOn (dev.absX, dev.absY, dev.inZone)
        | some .up => .ends (dev.lastX, dev.lastY, dev.lastInZone)
        | none => .idle) := by
  rw [polled_take, (sample_mode dev _).2.2]
  have hpending := sample_pending dev
  by_cases hbut : dev.but = 0
  · have htouching : (dev.but != 0) = false := by simp [hbut]
    rw [if_neg (fun h => h.1 hbut), mtouchEvent_released hbut]
    by_cases hold : dev.butOld = 0
    · rw [if_pos hold]
      have hsame : pending (remember (mtouchSample dev none) none) = pending dev := by
        have hwas : (dev.butOld != 0) = false := by simp [hold]
        refine (hpending none).trans ?_
        rw [htouching, ← hwas]
        rfl
      rw [hsame]
      rfl
    · rw [if_neg hold]
      have hended : pending (remember (mtouchSample dev (some .up)) (some .up)) =
          { pending dev with
            ended := some (dev.lastX, dev.lastY, dev.lastInZone), touching := dev.but != 0 } := rfl
      rw [hended, htouching]
      rfl
  · have htouching : (dev.but != 0) = true := bne_iff_ne.mpr hbut
    rw [mtouchEvent_pressed hbut]
    by_cases hold : dev.butOld = 0
    · rw [if_pos hold, if_neg (fun h => h.2 rfl)]
      have hbegun : pending (remember (mtouchSample dev (some .down)) (some .down)) =
          { pending dev with
            begun := some (dev.absX, dev.absY, dev.inZone), ended := none
            touching := dev.but != 0 } := rfl
      rw [hbegun, htouching]
      rfl
    · rw [if_neg hold, if_pos ⟨hbut, by decide⟩]
      have hsame : pending (remember (mtouchSample dev (some .cont)) (some .cont)) = pending dev := by
        have hwas : (dev.butOld != 0) = true := bne_iff_ne.mpr hold
        refine (hpending (some .cont)).trans ?_
        rw [htouching, ← hwas]
        rfl
      rw [hsame]
      rfl

theorem prepareTransmit_pending (dev : Touch C T) (hmode : dev.mode = .polled)
    (hformat : dev.format ≠ .raw) :
    (pending (mtouchPrepareTransmit A dev).1, (mtouchPrepareTransmit A dev).2.map spoken) =
      reporter.step (pending dev) (sampleMoment dev) := by
  unfold mtouchPrepareTransmit sampleMoment
  rw [if_neg hformat]
  dsimp only
  obtain ⟨hsmode, hcal, -⟩ := sample_mode dev (mtouchEvent dev)
  rw [hcal]
  by_cases hcal0 : dev.calCntr ≠ 0
  · rw [if_pos hcal0, if_pos hcal0]
    have hpending := sample_pending dev (mtouchEvent dev)
    split
    · exact congrArg (fun p => (p, none)) ((pending_calibrationPoint _).trans hpending)
    · exact congrArg (fun p => (p, none)) hpending
  · rw [if_neg hcal0, if_neg hcal0]
    unfold mtouchChoose
    rw [hsmode, hmode]
    dsimp only
    rw [← sampled_step]
    generalize mtouchPolled (mtouchSample dev (mtouchEvent dev)) (mtouchEvent dev) = chosen
    obtain ⟨dev', report⟩ := chosen
    cases report with
    | none => rfl
    | some r => exact congrArg (fun p => (p, some (spoken r))) (pending_queued (mtouchReport_queued dev' r))

theorem polled_step (dev : Touch C T) (i : Input C) (hmode : dev.mode = .polled) :
    (pending ((controller A).next dev i), ((controller A).answer dev i).map spoken) =
      reporter.step (pending dev) (moment dev i) := by
  cases i with
  | write data =>
    have hsilent : (reporter.step (pending dev) (moment dev (.write data))).2 = none := by
      unfold moment commandMoment
      dsimp only
      split_ifs <;> rfl
    apply Prod.ext
    · exact write_pending dev data
    · exact hsilent.symm
  | tick free =>
    change (pending (mtouchWriteToHost A dev free).1, (mtouchWriteToHost A dev free).2.map spoken) = _
    unfold mtouchWriteToHost moment
    dsimp only
    by_cases hfree : (!free || dev.inReset) = true
    · rw [if_pos hfree, if_pos hfree]
      rfl
    rw [if_neg hfree, if_neg hfree]
    by_cases hresp : fifo8NumUsed dev.resp ≠ 0
    · rw [if_pos hresp, if_pos hresp]
      rfl
    rw [if_neg hresp, if_neg hresp]
    by_cases hraw : dev.format = .raw
    · rw [if_pos hraw]
      unfold mtouchPrepareTransmit
      rw [if_pos hraw]
      exact congrArg (fun p => (p, none)) (pending_queued (reportRaw_queued dev))
    · rw [if_neg hraw]
      exact prepareTransmit_pending dev hmode hraw
  | poll but x y => rfl
  | resetDone =>
    change (pending (if dev.inReset then mtouchResetComplete dev else dev), none) = (pending dev, none)
    split
    · exact congrArg (fun p => (p, none)) (pending_ack _ _)
    · rfl

theorem moment_fits (dev : Touch C T) (i : Input C) : Fits (pending dev) (moment dev i) := by
  cases i with
  | write data =>
    unfold moment commandMoment
    dsimp only
    split_ifs <;> exact trivial
  | tick free =>
    unfold moment
    dsimp only
    split
    · exact trivial
    split
    · exact trivial
    split
    · exact trivial
    · exact sampleMoment_fits dev
  | poll but x y => exact trivial
  | resetDone => exact trivial

theorem polled_reporting :
    Reporting (controller A) moment spoken pending (fun dev _ => dev.mode = .polled) where
  next dev i hmode := congrArg Prod.fst (polled_step dev i hmode)
  answer dev i hmode := congrArg Prod.snd (polled_step dev i hmode)
  fits := moment_fits

theorem set_polled (dev : Touch C T) {c : List Byte} (h : c = ascii "MQ" ∨ c = ascii "FB") :
    (mtouchSet dev c).mode = .polled := by
  rcases h with rfl | rfl <;> rfl

theorem reply_polled (dev : Touch C T) {c : List Byte} (h : c = ascii "MQ" ∨ c = ascii "FB") :
    mtouchReply A dev c = none := by
  rcases h with rfl | rfl <;> rfl

theorem ack_mode (dev : Touch C T) (c : Byte) : (mtouchAck dev c).mode = dev.mode := by
  obtain ⟨resp, hresp⟩ := ack_queued dev c
  rw [hresp]

theorem selected_mode {dev : Touch C T} (hsoh : dev.soh = true)
    (hcmd : CString.cstr dev.cmd = ascii "MQ" ∨ CString.cstr dev.cmd = ascii "FB") :
    (mtouchWrite A dev 0x0D).mode = .polled := by
  have hsome : dev.cmd ≠ [] := by
    intro hempty
    rw [hempty] at hcmd
    revert hcmd
    decide +kernel
  unfold mtouchWrite
  rw [if_neg (by decide), if_pos hsoh, if_neg (by decide), if_neg hsome]
  change (mtouchProcessCommands A { dev with soh := false }).mode = .polled
  unfold mtouchProcessCommands
  dsimp only
  rw [reply_polled _ hcmd]
  exact (ack_mode _ _).trans (set_polled _ hcmd)

theorem selected_clear {dev : Touch C T} (hsoh : dev.soh = true)
    (hcmd : CString.cstr dev.cmd = ascii "MQ" ∨ CString.cstr dev.cmd = ascii "FB" ∧ Clear (pending dev)) :
    Clear (pending (mtouchWrite A dev 0x0D)) := by
  have hmoment : moment dev (.write 0x0D) = commandMoment (CString.cstr dev.cmd) := by
    unfold moment
    dsimp only
    rw [if_neg (by decide), if_pos hsoh, if_pos rfl]
  rw [write_pending, hmoment]
  rcases hcmd with hcmd | ⟨hcmd, hclear⟩
  · rw [hcmd]
    exact ⟨rfl, rfl, rfl⟩
  · rw [hcmd]
    exact hclear

theorem along_polled {dev : Touch C T} (hmode : dev.mode = .polled) {is : List (Input C)}
    (hstay : (controller A).Along (fun dev i => ((controller A).next dev i).mode = .polled) dev is) :
    (controller A).Along (fun dev _ => dev.mode = .polled) dev is := by
  induction is generalizing dev with
  | nil => exact trivial
  | cons i is ih => exact ⟨hmode, ih hstay.1 hstay.2⟩

/-- The packets after the command that selects Mode Polled, while the mode stays: no more of them
    than ^Q, and in the order of the touches sampled, when no touchdown or liftoff falls into a
    calibration.  After FB, which forgets nothing, only if there is nothing to forget. -/
theorem polled_answers (dev : Touch C T) (hsoh : dev.soh = true)
    (hcmd : CString.cstr dev.cmd = ascii "MQ" ∨ CString.cstr dev.cmd = ascii "FB" ∧ Clear (pending dev))
    (is : List (Input C))
    (hstay : (controller A).Along (fun dev i => ((controller A).next dev i).mode = .polled)
      (mtouchWrite A dev 0x0D) is) :
    let t := ((tallied (controller A) moment spoken).run (mtouchWrite A dev 0x0D, blank) is).2
    t.packets.length ≤ t.asked ∧
      ((controller A).Along (fun dev i => plain (pending dev) (moment dev i))
        (mtouchWrite A dev 0x0D) is → t.InOrder) := by
  have hclear := selected_clear (A := A) hsoh hcmd
  have hmode := selected_mode (A := A) hsoh (hcmd.imp id And.left)
  have hpolled := along_polled hmode hstay
  constructor
  · exact polled_reporting.counted hclear.counted is hpolled
  · intro hplain
    exact polled_reporting.inOrder hclear.kept is hpolled hplain

/-- A touch after MQ, asked for twice. -/
theorem polled_answers_touch :
    let start := mtouchInit exactly 0 0 9600
    let dev := (controller exactly).run start (([0x01] ++ ascii "MQ").map .write)
    let is : List (Input Rat) :=
      [.tick true, .tick true, .tick true, .write 0x11, .poll 1 (1 / 4) (1 / 2), .tick true]
    let t := ((tallied (controller exactly) moment spoken).run (mtouchWrite exactly dev 0x0D, blank) is).2
    t.packets.length ≤ t.asked ∧
      ((controller exactly).Along (fun dev i => plain (pending dev) (moment dev i))
        (mtouchWrite exactly dev 0x0D) is → t.InOrder) := by
  apply polled_answers
  · rfl
  · exact Or.inl rfl
  · refine ⟨?_, ?_, ?_, ?_, ?_, ?_, trivial⟩ <;> decide +kernel

/-- A ^Q of Mode Stream is answered in the Mode Polled that FB selects, where none was asked for. -/
theorem polled_unasked :
    let start := mtouchInit exactly 0 0 9600
    let dev := (controller exactly).run start (([0x11, 0x01] ++ ascii "FB").map .write)
    let is : List (Input Rat) :=
      [.tick true, .tick true, .tick true, .poll 1 (1 / 4) (1 / 2), .tick true]
    let t := ((tallied (controller exactly) moment spoken).run (mtouchWrite exactly dev 0x0D, blank) is).2
    dev.soh = true ∧ CString.cstr dev.cmd = ascii "FB" ∧
      (controller exactly).Along (fun dev i => ((controller exactly).next dev i).mode = .polled)
        (mtouchWrite exactly dev 0x0D) is ∧ t.asked = 0 ∧ t.packets.length = 1 := by
  refine ⟨rfl, rfl, ⟨?_, ?_, ?_, ?_, ?_, trivial⟩, ?_, ?_⟩ <;> decide +kernel

end PeepeeBox.PolledTouches
