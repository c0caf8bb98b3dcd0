import PeepeeBox.EloCommands

set_option autoImplicit false

/-!
# The settings a controller can have

What the set commands and the NVRAM make sure of, over any run from a power on without a file.
-/
namespace PeepeeBox.EloSettings
open Elo TraceMachine

/-- What every setting command sees to. -/
structure Sound (s : Setup) : Prop where
  mode1 : s.mode1 ||| eloM1Zreserved = s.mode1
  untouchDelay : s.untouchDelay &&& 0x0F = s.untouchDelay
  lowPower : s.lowPower &&& 1 = s.lowPower
  timerEnable : s.timerEnable &&& 1 = s.timerEnable
  timerMode : s.timerMode &&& 1 = s.timerMode
  emulFormat : s.emulFormat ≤ 7
  invertMask : s.invertMask &&& 0x07 = s.invertMask
  owner : s.owner.length = 7

structure Settings where
  setup : Setup
  cal : Points
  scale : Points

def settings (dev : MouseElo) : Settings where
  setup := dev.setup
  cal := dev.cal
  scale := dev.scale

theorem settings_queued {dev dev' : MouseElo} (h : Queued dev dev') : settings dev' = settings dev := by
  obtain ⟨resp, rfl⟩ := h
  rfl

structure Core where
  setup : Setup
  body : List Byte
  cmdPos : Option ℕ

def core (dev : MouseElo) : Core where
  setup := dev.setup
  body := dev.body
  cmdPos := dev.cmdPos

theorem core_queued {dev dev' : MouseElo} (h : Queued dev dev') : core dev' = core dev := by
  obtain ⟨resp, rfl⟩ := h
  rfl

@[simp] theorem core_eloAck (dev : MouseElo) (err : Byte) : core (eloAck dev err) = core dev :=
  core_queued (eloAck_queued dev err)

@[simp] theorem core_eloEnqueue (dev : MouseElo) (cmd : Byte) (data : List Byte) :
    core (eloEnqueue dev cmd data) = core dev := core_queued (eloEnqueue_queued dev cmd data)

@[simp] theorem core_eloSendTouch (dev : MouseElo) (status : Byte) (x y z : ℤ) :
    core (eloSendTouch dev status x y z) = core dev := core_queued (eloSendTouch_queued dev status x y z)

theorem core_finish (base : Byte) (query : Bool) (o : Outcome) : core (finish base query o) = core (left o) := by
  cases o with
  | returns dev => rfl
  | answers dev resp =>
    unfold finish left
    cases query <;> simp
  | acks dev => exact core_eloAck dev 0

theorem and_and_self (x m : Byte) : x &&& m &&& m = x &&& m := by rw [BitVec.and_assoc, BitVec.and_self]

theorem or_or_self (x m : Byte) : x ||| m ||| m = x ||| m := by rw [BitVec.or_assoc, BitVec.or_self]

theorem modeLetters_reserved (str : List Byte) (m : Byte × Byte) (h : m.1 ||| eloM1Zreserved = m.1) :
    (modeLetters str m).1 ||| eloM1Zreserved = (modeLetters str m).1 := by
  induction str generalizing m with
  | nil => exact h
  | cons c str ih =>
    unfold modeLetters
    split
    · exact h
    · split
      · refine ih _ ?_
        change m.1 ||| _ ||| eloM1Zreserved = m.1 ||| _
        rw [BitVec.or_assoc, BitVec.or_comm _ eloM1Zreserved, ← BitVec.or_assoc, h]
      · exact h

theorem sound_command {dev : MouseElo} (h : Sound dev.setup) (cur : BitVec 16) (base : Byte) (query : Bool)
    {data : List Byte} (hdata : data.length = 7) : Sound (left (command cur dev base query data)).setup := by
  have hsame {dev' : MouseElo} (hcore : core dev' = core dev) : Sound dev'.setup := by
    rw [show dev'.setup = dev.setup from congrArg Core.setup hcore]
    exact h
  refine command_all (P := fun o => Sound (left o).setup) ?acknowledge ?touch ?reset ?delays ?emulate ?calibration
    ?diagnostics ?filter ?configuration ?timer ?identity ?jumpers ?key ?lowPower ?mode ?owner ?parameter ?quiet
    ?scaling ?illegal base
  case acknowledge =>
    unfold acknowledge
    cases dev.calActive <;> exact hsame ((core_eloEnqueue _ _ _).trans rfl)
  case touch =>
    unfold touch
    cases query
    · exact hsame (core_eloAck _ _)
    · exact hsame ((core_eloAck _ _).trans (core_eloSendTouch _ _ _ _ _))
  case reset =>
    unfold reset
    split <;> exact h
  case delays =>
    cases query
    · exact { h with untouchDelay := and_and_self _ _ }
    · exact h
  case emulate =>
    unfold emulate
    cases query
    · simp only [Bool.not_false, Bool.true_and, Bool.false_eq_true, if_false]
      split_ifs with hflag hrange hscaled
      · exact hsame (core_eloAck _ _)
      · exact hsame (core_eloAck _ _)
      all_goals
        have hformat : format (arg data 1) ≤ 7 := by simpa using hrange
        exact { h with emulFormat := hformat }
    · exact h
  case calibration =>
    unfold calibration
    dsimp only
    split_ifs <;> cases query <;> first | exact h | exact { h with }
  case configuration =>
    unfold configuration
    cases query
    · exact hsame (core_eloAck _ _)
    · exact hsame (core_queued (eloDumpConfig_queued _))
  case timer =>
    cases query
    · exact { h with timerEnable := and_and_self _ _, timerMode := and_and_self _ _ }
    · exact h
  case lowPower =>
    cases query
    · exact { h with lowPower := and_and_self _ _ }
    · exact h
  case mode =>
    unfold mode
    cases query
    · by_cases hbinary : arg data 0 = 0
      · simp only [hbinary, Bool.false_eq_true, if_true, if_false]
        exact { h with mode1 := or_or_self _ _ }
      · simp only [hbinary, Bool.false_eq_true, if_false]
        exact { h with mode1 := modeLetters_reserved _ _ (BitVec.or_self) }
    · exact h
  case owner =>
    cases query
    · exact { h with owner := by simp [left, owner, hdata] }
    · exact h
  case parameter =>
    cases query
    · exact { h with }
    · exact h
  case filter =>
    cases query
    · exact { h with }
    · exact h
  case key =>
    cases query
    · exact { h with }
    · exact h
  case scaling =>
    unfold scaling
    dsimp only
    split_ifs <;> cases query <;> first | exact h | exact { h with invertMask := and_and_self _ _ }
  case illegal => exact hsame (core_eloAck _ _)
  all_goals cases query <;> exact h

def FileSound (nvr : Option NvrFile) : Prop := ∀ f, nvr = some f → f.magic = eloNvrMagic ∧ Sound (loadSetup f.setup)

/-- What every run keeps. -/
structure Whole (u : Controller) : Prop where
  setup : Sound u.dev.setup
  file : FileSound u.nvr
  framed : ∀ pos, u.dev.cmdPos = some pos → u.dev.body.length = min pos 8

theorem loadSetup_saveSetup {s : Setup} (h : Sound s) : loadSetup (saveSetup s) = s := by
  have hformat : s.emulFormat &&& 7 = s.emulFormat := by
    have hle := h.emulFormat
    revert hle
    generalize s.emulFormat = x
    revert x
    decide +kernel
  unfold loadSetup saveSetup
  dsimp only
  rw [h.mode1, hformat]
  obtain ⟨⟩ := s
  rename_i flag _ swap _ _
  cases flag <;> cases swap <;> rfl

theorem sound_blank : Sound (loadSetup blankFile.setup) := by
  constructor <;> decide +kernel

theorem sound_load {dev : MouseElo} (h : Sound dev.setup) {nvr : Option NvrFile} (hfile : FileSound nvr) (areas : Byte)
    (page : Fin 2) : Sound (eloLoadNvrAreas dev nvr areas page).setup := by
  unfold eloLoadNvrAreas
  cases nvr with
  | none => exact h
  | some f =>
    obtain ⟨hmagic, hsetup⟩ := hfile f rfl
    have hread : eloNvrReadFile (some f) = f := if_neg (not_not.mpr hmagic)
    rw [hread]
    dsimp only
    rw [if_neg (not_not.mpr hmagic)]
    cases has areas eloAreaSetup <;> cases has areas eloAreaCal <;> cases has areas eloAreaScale <;>
      first | exact h | exact hsetup

theorem eloNvrReadFile_sound {nvr : Option NvrFile} (hfile : FileSound nvr) :
    Sound (loadSetup (eloNvrReadFile nvr).setup) := by
  cases nvr with
  | none => exact sound_blank
  | some f =>
    obtain ⟨hmagic, hsetup⟩ := hfile f rfl
    rw [show eloNvrReadFile (some f) = f from if_neg (not_not.mpr hmagic)]
    exact hsetup

theorem fileSound_save {dev : MouseElo} (h : Sound dev.setup) {nvr : Option NvrFile} (hfile : FileSound nvr)
    (areas : Byte) (page : Fin 2) : FileSound (some (eloSaveNvrAreas dev nvr areas page)) := by
  intro f hf
  obtain rfl := Option.some.inj hf
  have hold := eloNvrReadFile_sound hfile
  have hnew : Sound (loadSetup (saveSetup dev.setup)) := by
    rw [loadSetup_saveSetup h]
    exact h
  unfold eloSaveNvrAreas
  cases has areas eloAreaSetup <;> cases has areas eloAreaCal <;> cases has areas eloAreaScale <;>
    first | exact ⟨rfl, hold⟩ | exact ⟨rfl, hnew⟩

theorem body_load (dev : MouseElo) (nvr : Option NvrFile) (areas : Byte) (page : Fin 2) :
    (eloLoadNvrAreas dev nvr areas page).body = dev.body ∧ (eloLoadNvrAreas dev nvr areas page).cmdPos = dev.cmdPos := by
  unfold eloLoadNvrAreas
  dsimp only
  split
  · exact ⟨rfl, rfl⟩
  · cases has areas eloAreaSetup <;> cases has areas eloAreaCal <;> cases has areas eloAreaScale <;> exact ⟨rfl, rfl⟩

theorem body_command (cur : BitVec 16) (dev : MouseElo) (base : Byte) (query : Bool) (data : List Byte) :
    (left (command cur dev base query data)).body = dev.body ∧
      (left (command cur dev base query data)).cmdPos = dev.cmdPos := by
  have hcore {dev' : MouseElo} (h : core dev' = core dev) : dev'.body = dev.body ∧ dev'.cmdPos = dev.cmdPos :=
    ⟨congrArg Core.body h, congrArg Core.cmdPos h⟩
  refine command_all (P := fun o => (left o).body = dev.body ∧ (left o).cmdPos = dev.cmdPos) ?acknowledge ?touch ?reset
    ?delays ?emulate ?calibration ?diagnostics ?filter ?configuration ?timer ?identity ?jumpers ?key ?lowPower ?mode
    ?owner ?parameter ?quiet ?scaling ?illegal base
  case acknowledge =>
    unfold acknowledge
    cases dev.calActive <;> exact hcore ((core_eloEnqueue _ _ _).trans rfl)
  case touch =>
    unfold touch
    cases query
    · exact hcore (core_eloAck _ _)
    · exact hcore ((core_eloAck _ _).trans (core_eloSendTouch _ _ _ _ _))
  case reset =>
    unfold reset
    split <;> exact ⟨rfl, rfl⟩
  case emulate =>
    unfold emulate
    cases query
    · simp only [Bool.not_false, Bool.true_and, Bool.false_eq_true, if_false]
      split_ifs <;> first | exact hcore (core_eloAck _ _) | exact ⟨rfl, rfl⟩
    · exact ⟨rfl, rfl⟩
  case calibration =>
    unfold calibration
    dsimp only
    split_ifs <;> cases query <;> exact ⟨rfl, rfl⟩
  case configuration =>
    unfold configuration
    cases query
    · exact hcore (core_eloAck _ _)
    · exact hcore (core_queued (eloDumpConfig_queued _))
  case mode =>
    unfold mode
    cases query
    · by_cases hbinary : arg data 0 = 0 <;> simp only [hbinary, Bool.false_eq_true, if_true, if_false] <;>
        exact ⟨rfl, rfl⟩
    · exact ⟨rfl, rfl⟩
  case scaling =>
    unfold scaling
    dsimp only
    split_ifs <;> cases query <;> exact ⟨rfl, rfl⟩
  case illegal => exact hcore (core_eloAck _ _)
  all_goals cases query <;> exact ⟨rfl, rfl⟩

theorem Whole.core {u : Controller} (h : Whole u) {dev : MouseElo} (hcore : core dev = core u.dev) :
    Whole { u with dev := dev } where
  setup := by
    rw [show dev.setup = u.dev.setup from congrArg Core.setup hcore]
    exact h.setup
  file := h.file
  framed := by
    rw [show dev.cmdPos = u.dev.cmdPos from congrArg Core.cmdPos hcore,
      show dev.body = u.dev.body from congrArg Core.body hcore]
    exact h.framed

theorem whole_process {u : Controller} (h : Whole u) (hidle : u.dev.cmdPos = none) (cur : BitVec 16) {body : List Byte}
    (hbody : body.length = 8) : Whole (eloProcessCommand cur u body) := by
  have hdata : (body.drop 1).length = 7 := by rw [List.length_drop, hbody]
  have hframed {dev : MouseElo} (hpos : dev.cmdPos = none) : ∀ pos, dev.cmdPos = some pos → dev.body.length = min pos 8 := by
    intro pos hp
    rw [hpos] at hp
    cases hp
  unfold eloProcessCommand
  dsimp only
  split
  · unfold nvram
    split_ifs
    · exact h.core (core_eloAck _ _)
    · exact h.core (core_eloAck _ _)
    · have hwhole : Whole { u with nvr := some (eloSaveNvrAreas u.dev u.nvr (nvramAreas (body.drop 1))
          (nvramPage (body.drop 1))) } := ⟨h.setup, fileSound_save h.setup h.file _ _, h.framed⟩
      exact hwhole.core (core_eloAck _ _)
    · have hload := sound_load h.setup h.file (nvramAreas (body.drop 1)) (nvramPage (body.drop 1))
      have hpos := (body_load u.dev u.nvr (nvramAreas (body.drop 1)) (nvramPage (body.drop 1))).2.trans hidle
      have hwhole : Whole { u with dev := eloTimerApply (eloLoadNvrAreas u.dev u.nvr (nvramAreas (body.drop 1))
          (nvramPage (body.drop 1))) } := ⟨hload, h.file, hframed hpos⟩
      exact hwhole.core (core_eloAck _ _)
  · have hset := sound_command h.setup cur (CharModem.toupper (arg body 0)) (islower (arg body 0)) hdata
    have hpos := (body_command cur u.dev (CharModem.toupper (arg body 0)) (islower (arg body 0)) (body.drop 1)).2.trans
      hidle
    have hwhole : Whole { u with dev := left (command cur u.dev (CharModem.toupper (arg body 0)) (islower (arg body 0))
        (body.drop 1)) } := ⟨hset, h.file, hframed hpos⟩
    exact hwhole.core (core_finish _ _ _)

theorem whole_write {u : Controller} (h : Whole u) (cur : BitVec 16) (data : Byte) : Whole (eloWrite cur u data) := by
  have hidle : Whole { u with dev := { u.dev with cmdPos := none } } := ⟨h.setup, h.file, fun pos hp => nomatch hp⟩
  unfold eloWrite
  dsimp only
  split
  · split_ifs
    · exact ⟨h.setup, h.file, fun pos hp => by rw [← Option.some.inj hp]; rfl⟩
    · exact ⟨h.setup, h.file, fun pos hp => by rw [← Option.some.inj hp]; rfl⟩
    · exact h
  · rename_i pos hpos
    have hlength := h.framed pos hpos
    split
    · refine ⟨h.setup, h.file, fun pos' hp => ?_⟩
      rw [← Option.some.inj hp]
      simp only [List.length_append, List.length_singleton]
      omega
    · rename_i hlong
      split
      · refine ⟨h.setup, h.file, fun pos' hp => ?_⟩
        rw [← Option.some.inj hp]
        simp only
        omega
      · split_ifs
        · exact hidle.core (core_eloAck _ _)
        · exact hidle
        · refine whole_process hidle rfl cur ?_
          omega

theorem core_eloPoll (dev : MouseElo) (but : Bool) (x y : ℤ) : core (eloPoll dev but x y) = core dev := by
  have hcalibrate (dev : MouseElo) : core (calibrate dev) = core dev := by
    obtain ⟨resp, cal, calActive, calStep, calButOld, calPoints, heq, _⟩ := calibrate_eq dev
    rw [heq]
    rfl
  have hhold (dev : MouseElo) : core (holdUntouch dev) = core dev := by
    unfold holdUntouch
    split_ifs <;> rfl
  unfold eloPoll
  dsimp only
  rw [hcalibrate]
  split
  · exact hhold _
  · exact hhold _

theorem core_settled {dev : MouseElo} (sent : MouseElo × Option Report) (h : core sent.1 = core dev) :
    core
        (match sent with
          | (dev, sent) =>
            ({ dev with
                rawXOld := dev.rawX, rawYOld := dev.rawY, butOld := dev.but
                haveSent := if dev.but then dev.haveSent else false },
              sent)).1 =
      core dev := by
  obtain ⟨dev', sent⟩ := sent
  exact h

theorem core_eloPrepareTransmit (dev : MouseElo) : core (eloPrepareTransmit dev).1 = core dev := by
  unfold eloPrepareTransmit
  split
  · rfl
  split
  · rfl
  refine core_settled _ ?_
  cases statusOf dev with
  | none => rfl
  | some what =>
    refine iteInduction (motive := fun sent : MouseElo × Option Report => core sent.1 = core dev) (fun _ => rfl)
      fun _ => ?_
    refine iteInduction (motive := fun dev' => core dev' = core dev) ?_ ?_
    · exact fun _ => core_eloSendTouch dev _ _ _ _
    · exact fun _ => core_eloSendTouch dev _ _ _ _

theorem core_eloWriteToHost (dev : MouseElo) (free : Bool) : core (eloWriteToHost dev free).1 = core dev := by
  unfold eloWriteToHost
  split
  · rfl
  · split
    · rfl
    · exact core_eloPrepareTransmit dev

theorem sound_defaults (dev : MouseElo) : Sound (eloLoadDefaults dev).setup where
  mode1 := show eloM1Zreserved ||| eloM1Initial ||| eloM1Stream ||| eloM1Untouch ||| eloM1Zreserved =
    eloM1Zreserved ||| eloM1Initial ||| eloM1Stream ||| eloM1Untouch by decide
  untouchDelay := BitVec.zero_and
  lowPower := BitVec.zero_and
  timerEnable := BitVec.zero_and
  timerMode := BitVec.zero_and
  emulFormat := show (4 : Byte) ≤ 7 by decide
  invertMask := BitVec.zero_and
  owner := rfl

theorem whole_init (speed : ℤ) {nvr : Option NvrFile} (hfile : FileSound nvr) : Whole (eloInit speed nvr) := by
  have hload (dev : MouseElo) : Sound (eloLoadNvr dev nvr).setup := sound_load (sound_defaults dev) hfile _ 0
  refine ⟨{ hload _ with }, hfile, fun pos hp => ?_⟩
  have hidle (dev : MouseElo) (h : dev.cmdPos = none) : (eloLoadNvr dev nvr).cmdPos = none :=
    (body_load (eloLoadDefaults dev) nvr _ 0).2.trans h
  exact nomatch (hidle _ rfl).symm.trans hp

theorem whole_userTimerFire {u : Controller} (h : Whole u) : Whole { u with dev := eloUserTimerFire u.dev } := by
  obtain ⟨resp, userTimer, timerEnable, heq, henable⟩ := eloUserTimerFire_eq u.dev
  rw [heq]
  refine ⟨?_, h.file, h.framed⟩
  rcases henable with rfl | rfl
  · exact h.setup
  · exact { h.setup with timerEnable := BitVec.zero_and }

theorem whole_step {u : Controller} (h : Whole u) (e : Event) : Whole (elo.next u e) := by
  cases e with
  | write data cur => exact whole_write h cur data
  | poll but x y => exact h.core (core_eloPoll u.dev but x y)
  | tick free => exact h.core (core_eloWriteToHost u.dev free)
  | untouchDone =>
    change Whole (if u.dev.untouchTimer then _ else u)
    split
    · exact h.core rfl
    · exact h
  | repDelayDone =>
    change Whole (if u.dev.repDelayTimer then _ else u)
    split
    · exact h.core rfl
    · exact h
  | userTimerFire =>
    change Whole (if u.dev.userTimer then _ else u)
    split
    · exact whole_userTimerFire (u := { u with dev := { u.dev with userTimer := false } }) (h.core rfl)
    · exact h
  | resetComplete =>
    change Whole (if u.dev.resetTimer then _ else u)
    split
    · exact h.core rfl
    · exact h
  | restart speed => exact whole_init speed h.file

theorem whole_run (speed : ℤ) (is : List Event) : Whole (elo.run (eloInit speed none) is) := by
  have hnone : FileSound none := fun f hf => nomatch hf
  exact elo.run_invariant (I := Whole) (fun _ e h => whole_step h e) (whole_init speed hnone) is

end PeepeeBox.EloSettings
