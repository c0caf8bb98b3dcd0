import PeepeeBox.EloCommands

set_option autoImplicit false

/-!
# The settings in force

The rate, the format and the timers of the controller against the settings it reports, over any run: what a command
or the NVRAM must not bring for them to stay in step.
-/
namespace PeepeeBox.EloInForce
open CharModem (ch toupper)
open Elo TraceMachine

structure Force where
  setup : Setup
  baudRate : ℕ
  userTimer : Bool
  untouchPending : Bool
  untouchTimer : Bool

def force (dev : MouseElo) : Force where
  setup := dev.setup
  baudRate := dev.baudRate
  userTimer := dev.userTimer
  untouchPending := dev.untouchPending
  untouchTimer := dev.untouchTimer

/-- The rate `ser1` names. -/
def rateOf (ser1 : Byte) : ℕ := eloBaudTable.getD (ser1 &&& 7).toNat 0

structure InForce (f : Force) : Prop where
  rate : f.baudRate = rateOf f.setup.ser1
  format : f.setup.emulFormat ≤ 7
  armed : f.setup.timerEnable ≠ 0 → f.userTimer = true
  held : f.untouchPending = true → f.untouchTimer = true

/-- A query of the parameters names the rate in use, and a Configuration query that rate, the format and a timer
that runs if it is enabled. -/
structure Reported (dev : MouseElo) : Prop where
  parameter : ∀ data dev' resp, parameter dev true data = .answers dev' resp → dev.baudRate = rateOf (arg resp 1)
  rate : ∀ d, (ch 'P', d) ∈ configPackets dev.setup dev.cal dev.scale → dev.baudRate = rateOf (arg d 1)
  format : ∀ d, (ch 'E', d) ∈ configPackets dev.setup dev.cal dev.scale → arg d 1 ≤ ch '7'
  timer : ∀ d, (ch 'H', d) ∈ configPackets dev.setup dev.cal dev.scale → arg d 0 ≠ 0 → dev.userTimer = true

theorem reported_of_inForce {dev : MouseElo} (h : InForce (force dev)) : Reported dev where
  parameter data dev' resp heq := by
    cases heq
    exact h.rate
  rate d hd := by
    simp [configPackets, ch] at hd
    rw [hd]
    exact h.rate
  format d hd := by
    simp [configPackets, ch] at hd
    rw [hd]
    have hformat : dev.setup.emulFormat ≤ 7 := h.format
    change ch '0' + dev.setup.emulFormat ≤ ch '7'
    revert hformat
    generalize dev.setup.emulFormat = x
    revert x
    decide +kernel
  timer d hd := by
    simp [configPackets, ch] at hd
    rw [hd]
    exact h.armed

def accepted (u : Controller) (data : Byte) : Option (List Byte) :=
  match u.dev.cmdPos with
  | none => none
  | some pos =>
    if pos < 8 then none
    else if u.dev.inKeyed && pos = 8 then none
    else if has u.dev.setup.ser2 1 && inSum { u.dev with cmdPos := none } ≠ data then none
    else if u.dev.inKeyed && u.dev.inKey ≠ u.dev.setup.keyValue then none
    else some u.dev.body

/-- Timer enabled, no interval. -/
def Idle (enable : Byte) (interval : BitVec 16) : Prop := enable ≠ 0 ∧ interval = 0

instance (enable : Byte) (interval : BitVec 16) : Decidable (Idle enable interval) :=
  inferInstanceAs (Decidable (_ ∧ _))

/-- What the file would bring. -/
def Armable (nvr : Option NvrFile) : Prop :=
  (eloNvrReadFile nvr).magic = eloNvrMagic →
    ¬ Idle (eloNvrReadFile nvr).setup.timerEnable (eloNvrReadFile nvr).setup.timerInterval

def Restores (data : List Byte) : Prop := has (arg data 0) 1 = false ∧ has (nvramAreas data) eloAreaSetup = true

structure Minded (u : Controller) (body : List Byte) : Prop where
  timer : toupper (arg body 0) = ch 'H' → islower (arg body 0) = false →
    ¬ Idle (arg (body.drop 1) 0 &&& 1) (word (arg (body.drop 1) 2) (arg (body.drop 1) 3))
  restored : toupper (arg body 0) = ch 'N' → islower (arg body 0) = false → Restores (body.drop 1) →
    Armable u.nvr ∧
      ((eloNvrReadFile u.nvr).magic = eloNvrMagic → u.dev.baudRate = rateOf (eloNvrReadFile u.nvr).setup.ser1)

def Keeps (u : Controller) : Event → Prop
  | .write data _ => ∀ body, accepted u data = some body → Minded u body
  | .restart _ => Armable u.nvr
  | _ => True

structure Sane (f : Force) : Prop extends InForce f where
  timed : ¬ Idle f.setup.timerEnable f.setup.timerInterval

theorem force_queued {dev dev' : MouseElo} (h : Queued dev dev') : force dev' = force dev := by
  obtain ⟨resp, rfl⟩ := h
  rfl

@[simp] theorem force_eloAck (dev : MouseElo) (err : Byte) : force (eloAck dev err) = force dev :=
  force_queued (eloAck_queued dev err)

@[simp] theorem force_eloEnqueue (dev : MouseElo) (cmd : Byte) (data : List Byte) :
    force (eloEnqueue dev cmd data) = force dev := force_queued (eloEnqueue_queued dev cmd data)

@[simp] theorem force_eloSendTouch (dev : MouseElo) (status : Byte) (x y z : ℤ) :
    force (eloSendTouch dev status x y z) = force dev := force_queued (eloSendTouch_queued dev status x y z)

@[simp] theorem force_eloDumpConfig (dev : MouseElo) : force (eloDumpConfig dev) = force dev :=
  force_queued (eloDumpConfig_queued dev)

theorem force_finish (base : Byte) (query : Bool) (o : Outcome) : force (finish base query o) = force (left o) := by
  cases o with
  | returns dev => rfl
  | answers dev resp =>
    unfold finish left
    cases query <;> simp
  | acks dev => exact force_eloAck dev 0

theorem Sane.apply {dev : MouseElo} (h : Sane (force dev)) : Sane (force (eloTimerApply dev)) where
  rate := h.rate
  format := h.format
  armed henable := by
    have hinterval : dev.setup.timerInterval ≠ 0 := fun hzero => h.timed ⟨henable, hzero⟩
    change dev.setup.timerEnable ≠ 0 at henable
    simpa [force, eloTimerApply, runs] using And.intro henable hinterval
  held := h.held
  timed := h.timed

theorem not_idle_of_apply {dev : MouseElo} (h : InForce (force (eloTimerApply dev))) :
    ¬ Idle dev.setup.timerEnable dev.setup.timerInterval := by
  rintro ⟨henable, hzero⟩
  have harmed : (eloTimerApply dev).userTimer = true := h.armed henable
  simp [eloTimerApply, runs, hzero] at harmed

theorem sane_command {dev : MouseElo} (h : Sane (force dev)) {cur : BitVec 16} {base : Byte} {query : Bool}
    {data : List Byte}
    (htimer : base = ch 'H' → query = false → ¬ Idle (arg data 0 &&& 1) (word (arg data 2) (arg data 3))) :
    Sane (force (left (command cur dev base query data))) := by
  have hsame {dev' : MouseElo} (hforce : force dev' = force dev) : Sane (force dev') := by
    rw [hforce]
    exact h
  refine command_all_of (P := fun o => Sane (force (left o))) ?acknowledge ?touch ?reset ?delays ?emulate ?calibration
    ?diagnostics ?filter ?configuration ?timer ?identity ?jumpers ?key ?lowPower ?mode ?owner ?parameter ?quiet
    ?scaling ?illegal
  case acknowledge =>
    unfold acknowledge
    cases dev.calActive <;> exact hsame ((force_eloEnqueue _ _ _).trans rfl)
  case touch =>
    unfold touch
    cases query <;> exact hsame (by simp [left])
  case reset =>
    unfold reset
    split <;> exact h
  case delays =>
    cases query
    · exact { h with }
    · exact h
  case emulate =>
    unfold emulate
    cases query
    · simp only [Bool.not_false, Bool.true_and, Bool.false_eq_true, if_false]
      split_ifs with hflag hrange hscaled
      · exact hsame (force_eloAck _ _)
      · exact hsame (force_eloAck _ _)
      all_goals
        have hformat : format (arg data 1) ≤ 7 := by simpa using hrange
        exact { h with format := hformat }
    · exact h
  case calibration =>
    unfold calibration
    dsimp only
    split_ifs <;> cases query <;> first | exact h | exact { h with }
  case configuration =>
    unfold configuration
    cases query <;> exact hsame (by simp [left])
  case timer =>
    intro hbase
    cases query
    · have hnew := htimer hbase rfl
      exact @Sane.apply
        { dev with
          setup :=
            { dev.setup with
              timerEnable := arg data 0 &&& 1, timerMode := arg data 1 &&& 1
              timerInterval := word (arg data 2) (arg data 3) }
          userTimer := true }
        { h with armed := fun _ => rfl, timed := hnew }
    · exact h
  case lowPower =>
    cases query
    · exact { h with }
    · exact h
  case mode =>
    unfold mode
    cases query
    · by_cases hbinary : arg data 0 = 0 <;> simp only [hbinary, Bool.false_eq_true, if_true, if_false] <;>
        exact { h with }
    · exact h
  case owner =>
    cases query
    · exact { h with }
    · exact h
  case parameter =>
    cases query
    · exact { h with rate := rfl }
    · exact h
  case filter =>
    cases query
    · exact { h with }
    · exact h
  case key =>
    cases query
    · exact { h with }
    · exact h
  case scaling =>
    unfold scaling
    dsimp only
    split_ifs <;> cases query <;> first | exact h | exact { h with }
  case illegal => exact hsame (force_eloAck _ _)
  all_goals cases query <;> exact h

theorem sane_load {dev : MouseElo} (h : Sane (force dev)) {nvr : Option NvrFile} {areas : Byte} (page : Fin 2)
    (harmable : has areas eloAreaSetup = true → Armable nvr)
    (hrate : has areas eloAreaSetup = true → (eloNvrReadFile nvr).magic = eloNvrMagic →
      dev.baudRate = rateOf (eloNvrReadFile nvr).setup.ser1) :
    Sane (force (eloTimerApply (eloLoadNvrAreas dev nvr areas page))) := by
  have hformat (x : Byte) : x &&& 7 ≤ 7 := by
    revert x
    decide +kernel
  unfold eloLoadNvrAreas
  dsimp only
  split
  · exact h.apply
  · rename_i hmagic
    rw [not_not] at hmagic
    cases hsetup : has areas eloAreaSetup with
    | false =>
      cases has areas eloAreaCal <;> cases has areas eloAreaScale <;> exact h.apply
    | true =>
      have hloaded : Sane (force { dev with setup := loadSetup (eloNvrReadFile nvr).setup, userTimer := true }) :=
        { rate := hrate hsetup hmagic, format := hformat _, armed := fun _ => rfl, held := h.held
          timed := harmable hsetup hmagic }
      cases has areas eloAreaCal <;> cases has areas eloAreaScale <;> exact hloaded.apply

theorem load_setup (dev : MouseElo) {nvr : Option NvrFile} {areas : Byte} (page : Fin 2)
    (hmagic : (eloNvrReadFile nvr).magic = eloNvrMagic) (hsetup : has areas eloAreaSetup = true) :
    (eloLoadNvrAreas dev nvr areas page).setup = loadSetup (eloNvrReadFile nvr).setup ∧
      (eloLoadNvrAreas dev nvr areas page).baudRate = dev.baudRate := by
  unfold eloLoadNvrAreas
  dsimp only
  rw [if_neg (not_not.mpr hmagic), hsetup]
  cases has areas eloAreaCal <;> cases has areas eloAreaScale <;> exact ⟨rfl, rfl⟩

variable {u : Controller}

theorem sane_process (h : Sane (force u.dev)) (cur : BitVec 16) {body : List Byte} (hbody : Minded u body) :
    Sane (force (eloProcessCommand cur u body).dev) := by
  unfold eloProcessCommand
  dsimp only
  split
  · rename_i hbase
    unfold nvram
    split_ifs with hquery hareas hsave
    · rw [force_eloAck]
      exact h
    · rw [force_eloAck]
      exact h
    · rw [force_eloAck]
      exact h
    · rw [force_eloAck]
      have hrestored (hsetup : has (nvramAreas (body.drop 1)) eloAreaSetup = true) :=
        hbody.restored hbase (Bool.not_eq_true _ ▸ hquery) ⟨Bool.not_eq_true _ ▸ hsave, hsetup⟩
      exact sane_load h _ (fun hsetup => (hrestored hsetup).1) fun hsetup => (hrestored hsetup).2
  · rw [force_finish]
    exact sane_command h hbody.timer

theorem minded_of_process (cur : BitVec 16) {body : List Byte}
    (h : InForce (force (eloProcessCommand cur u body).dev)) : Minded u body where
  timer hbase hquery := by
    unfold eloProcessCommand at h
    dsimp only at h
    rw [hbase, hquery, if_neg (by decide), force_finish] at h
    have happlied := @not_idle_of_apply
      { u.dev with
        setup :=
          { u.dev.setup with
            timerEnable := arg (body.drop 1) 0 &&& 1, timerMode := arg (body.drop 1) 1 &&& 1
            timerInterval := word (arg (body.drop 1) 2) (arg (body.drop 1) 3) } } h
    exact happlied
  restored hbase hquery hrestores := by
    obtain ⟨hsave, hsetup⟩ := hrestores
    have hareas : nvramAreas (body.drop 1) ≠ 0 := by
      intro hzero
      rw [hzero] at hsetup
      exact absurd hsetup (by decide)
    unfold eloProcessCommand at h
    dsimp only at h
    rw [if_pos hbase, hquery] at h
    unfold nvram at h
    rw [if_neg Bool.false_ne_true, if_neg hareas, hsave, if_neg Bool.false_ne_true, force_eloAck] at h
    refine ⟨fun hmagic => ?_, fun hmagic => ?_⟩
    · have hloaded := (load_setup u.dev (nvramPage (body.drop 1)) hmagic hsetup).1
      have hidle := not_idle_of_apply h
      rw [hloaded] at hidle
      exact hidle
    · obtain ⟨hloaded, hbaud⟩ := load_setup u.dev (nvramPage (body.drop 1)) hmagic hsetup
      have hrate : (eloLoadNvrAreas u.dev u.nvr (nvramAreas (body.drop 1)) (nvramPage (body.drop 1))).baudRate =
          rateOf (eloLoadNvrAreas u.dev u.nvr (nvramAreas (body.drop 1)) (nvramPage (body.drop 1))).setup.ser1 :=
        h.rate
      rw [hloaded, hbaud] at hrate
      exact hrate

theorem write_cases (cur : BitVec 16) (u : Controller) (data : Byte) :
    match accepted u data with
    | none => force (eloWrite cur u data).dev = force u.dev
    | some body =>
      eloWrite cur u data = eloProcessCommand cur { u with dev := { u.dev with cmdPos := none } } body := by
  unfold accepted eloWrite
  dsimp only
  cases u.dev.cmdPos with
  | none =>
    dsimp only
    split_ifs <;> rfl
  | some pos =>
    dsimp only
    split_ifs
    · rfl
    · rfl
    · exact force_eloAck _ _
    · rfl
    · rfl

theorem write_iff (h : Sane (force u.dev)) (cur : BitVec 16) (data : Byte) :
    (Keeps u (.write data cur) → Sane (force (eloWrite cur u data).dev)) ∧
      (InForce (force (eloWrite cur u data).dev) → Keeps u (.write data cur)) := by
  have hcases := write_cases cur u data
  unfold Keeps
  cases haccepted : accepted u data with
  | none =>
    rw [haccepted] at hcases
    rw [hcases]
    exact ⟨fun _ => h, fun _ body hbody => absurd (haccepted.symm.trans hbody) (Option.some_ne_none body).symm⟩
  | some body =>
    rw [haccepted] at hcases
    rw [hcases]
    constructor
    · intro hminded
      obtain ⟨htimer, hrestored⟩ := hminded body haccepted
      exact sane_process (u := { u with dev := { u.dev with cmdPos := none } }) h cur ⟨htimer, hrestored⟩
    · intro hafter body' hbody
      obtain rfl := Option.some.inj (haccepted.symm.trans hbody)
      obtain ⟨htimer, hrestored⟩ := minded_of_process cur hafter
      exact ⟨htimer, hrestored⟩

theorem sane_holdUntouch {dev : MouseElo} (h : Sane (force dev)) : Sane (force (holdUntouch dev)) := by
  unfold holdUntouch
  split_ifs
  · exact { h with held := fun hpending => nomatch hpending }
  · exact h
  · exact { h with held := fun _ => rfl }
  · exact h

theorem sane_poll {dev : MouseElo} (h : Sane (force dev)) (but : Bool) (x y : ℤ) :
    Sane (force (eloPoll dev but x y)) := by
  have hcalibrate (dev : MouseElo) : force (calibrate dev) = force dev := by
    obtain ⟨resp, cal, calActive, calStep, calButOld, calPoints, heq, _⟩ := calibrate_eq dev
    rw [heq]
    rfl
  unfold eloPoll
  dsimp only
  rw [hcalibrate]
  split
  · exact @sane_holdUntouch { dev with but, rawX := y, rawY := x } h
  · exact @sane_holdUntouch { dev with but, rawX := x, rawY := y } h

theorem force_eloPrepareTransmit (dev : MouseElo) : force (eloPrepareTransmit dev).1 = force dev := by
  have hsettled (sent : MouseElo × Option Report) (h : force sent.1 = force dev) :
      force
          { sent.1 with
            rawXOld := sent.1.rawX, rawYOld := sent.1.rawY, butOld := sent.1.but
            haveSent := if sent.1.but then sent.1.haveSent else false } =
        force dev := h
  unfold eloPrepareTransmit
  split
  · rfl
  split
  · rfl
  refine hsettled _ ?_
  cases statusOf dev with
  | none => rfl
  | some what =>
    refine iteInduction (motive := fun sent : MouseElo × Option Report => force sent.1 = force dev) (fun _ => rfl)
      fun _ => ?_
    refine iteInduction (motive := fun dev' => force dev' = force dev) ?_ ?_
    · exact fun _ => force_eloSendTouch dev _ _ _ _
    · exact fun _ => force_eloSendTouch dev _ _ _ _

theorem force_eloWriteToHost (dev : MouseElo) (free : Bool) : force (eloWriteToHost dev free).1 = force dev := by
  unfold eloWriteToHost
  split
  · rfl
  · split
    · rfl
    · exact force_eloPrepareTransmit dev

theorem sane_userTimerFire {dev : MouseElo} (h : Sane (force dev)) :
    Sane (force (eloUserTimerFire { dev with userTimer := false })) := by
  unfold eloUserTimerFire
  dsimp only
  split
  · rename_i hzero
    exact { h with armed := fun henable => absurd hzero henable }
  · rename_i henable
    have hinterval : dev.setup.timerInterval ≠ 0 := fun hzero => h.timed ⟨henable, hzero⟩
    obtain ⟨resp, hresp⟩ : ∃ resp, (if dev.quietTimer then { dev with userTimer := false } else
        eloEnqueue { dev with userTimer := false } (ch 'H')
          [dev.setup.timerEnable, dev.setup.timerMode, dev.setup.timerInterval.setWidth 8,
            (dev.setup.timerInterval >>> 8).setWidth 8, 0, 0, 0]) = { dev with userTimer := false, resp := resp } := by
      split
      · exact ⟨dev.resp, rfl⟩
      · exact eloEnqueue_queued _ _ _
    rw [hresp]
    dsimp only
    split
    · have hruns : runs dev.setup = true := by simpa [runs] using hinterval
      exact { h with armed := fun _ => hruns }
    · exact { h with armed := fun hno => absurd rfl hno, timed := fun hidle => hidle.1 rfl }

theorem init_setup (speed : ℤ) (nvr : Option NvrFile) :
    ∃ s : Setup, s.emulFormat ≤ 7 ∧
      (Idle s.timerEnable s.timerInterval ↔
        (eloNvrReadFile nvr).magic = eloNvrMagic ∧
          Idle (eloNvrReadFile nvr).setup.timerEnable (eloNvrReadFile nvr).setup.timerInterval) ∧
      ∃ ser1, force (eloInit speed nvr).dev =
        { setup := { s with ser1 }, baudRate := rateOf ser1, userTimer := s.timerEnable ≠ 0 && runs s
          untouchPending := false, untouchTimer := false } := by
  have hformat (x : Byte) : x &&& 7 ≤ 7 := by
    revert x
    decide +kernel
  unfold eloInit eloLoadNvr eloLoadNvrAreas
  dsimp only
  by_cases hmagic : (eloNvrReadFile nvr).magic ≠ eloNvrMagic
  · rw [if_pos hmagic]
    refine ⟨_, ?_, ?_, _, rfl⟩
    · exact (by decide : (4 : Byte) ≤ 7)
    · exact ⟨fun hidle => absurd rfl hidle.1, fun h => absurd h.1 hmagic⟩
  · rw [if_neg hmagic, if_pos (by decide), if_pos (by decide), if_pos (by decide)]
    refine ⟨_, ?_, ?_, _, rfl⟩
    · exact hformat _
    · exact ⟨fun hidle => ⟨not_not.mp hmagic, hidle⟩, fun h => h.2⟩

theorem init_iff (speed : ℤ) (nvr : Option NvrFile) :
    (Armable nvr → Sane (force (eloInit speed nvr).dev)) ∧
      (InForce (force (eloInit speed nvr).dev) → Armable nvr) := by
  obtain ⟨s, hformat, hidle, ser1, hinit⟩ := init_setup speed nvr
  rw [hinit]
  constructor
  · intro harmable
    have htimed : ¬ Idle s.timerEnable s.timerInterval := fun h => harmable (hidle.mp h).1 (hidle.mp h).2
    refine { rate := rfl, format := hformat, armed := fun henable => ?_, held := (nomatch ·), timed := htimed }
    have hinterval : s.timerInterval ≠ 0 := fun hzero => htimed ⟨henable, hzero⟩
    change s.timerEnable ≠ 0 at henable
    simpa [runs] using And.intro henable hinterval
  · intro h hmagic hfile
    have hs := hidle.mpr ⟨hmagic, hfile⟩
    have harmed := h.armed hs.1
    simp [runs, hs.2] at harmed

theorem sane_step (e : Event) (hkeeps : Keeps u e) (h : Sane (force u.dev)) : Sane (force (elo.next u e).dev) := by
  cases e with
  | write data cur => exact (write_iff h cur data).1 hkeeps
  | poll but x y => exact sane_poll h but x y
  | tick free =>
    change Sane (force (eloWriteToHost u.dev free).1)
    rw [force_eloWriteToHost]
    exact h
  | untouchDone =>
    change Sane (force (if u.dev.untouchTimer then _ else u).dev)
    split
    · exact { h with held := fun hpending => nomatch hpending }
    · exact h
  | repDelayDone =>
    change Sane (force (if u.dev.repDelayTimer then _ else u).dev)
    split <;> exact h
  | userTimerFire =>
    change Sane (force (if u.dev.userTimer then _ else u).dev)
    split
    · exact sane_userTimerFire h
    · exact h
  | resetComplete =>
    change Sane (force (if u.dev.resetTimer then _ else u).dev)
    split <;> exact h
  | restart speed => exact (init_iff speed u.nvr).1 hkeeps

theorem keeps_of_step (e : Event) (h : Sane (force u.dev)) (hafter : InForce (force (elo.next u e).dev)) :
    Keeps u e := by
  cases e with
  | write data cur => exact (write_iff h cur data).2 hafter
  | restart speed => exact (init_iff speed u.nvr).2 hafter
  | poll | tick | untouchDone | repDelayDone | userTimerFire | resetComplete => trivial

/-- The settings reported are in force all along a run just when the file and every step keep to their part. -/
theorem settings_in_force (speed : ℤ) (nvr : Option NvrFile) (es : List Event) :
    (∀ before after, es = before ++ after →
      InForce (force (elo.run (eloInit speed nvr) before).dev) ∧ Reported (elo.run (eloInit speed nvr) before).dev) ↔
      Armable nvr ∧ elo.Along Keeps (eloInit speed nvr) es := by
  have halong (hs : Sane (force (eloInit speed nvr).dev)) :=
    elo.along_iff (I := fun u => Sane (force u.dev)) (P := fun u => InForce (force u.dev) ∧ Reported u.dev)
      (Q := fun _ => True) (fun u e _ (hkeeps : Keeps u e) h => sane_step e hkeeps h)
      (fun _ h => ⟨h.toInForce, reported_of_inForce h.toInForce⟩) (fun _ e _ h hafter => keeps_of_step e h hafter.1)
      hs es fun _ _ => trivial
  constructor
  · intro hall
    have harmable := (init_iff speed nvr).2 (hall [] es rfl).1
    exact ⟨harmable, (halong ((init_iff speed nvr).1 harmable)).mp hall⟩
  · rintro ⟨harmable, hkeeps⟩
    exact (halong ((init_iff speed nvr).1 harmable)).mpr hkeeps

def sentTo (body : List Byte) : List Event :=
  (0x55 :: body ++ [body.foldl (· + ·) (0xAA + 0x55)]).map fun data => .write data 0

/-- The Setup is saved, the rate changed from 9600 to 2400, and the Setup restored. -/
def rateRestored : List Event :=
  sentTo [ch 'N', 1, 1, 0, 0, 0, 0, 0] ++ sentTo [ch 'P', 0, 3, 4, 0, 0, 0, 0] ++ sentTo [ch 'N', 0, 1, 0, 0, 0, 0, 0]

/-- A restore brings a rate back that is not the one in use, and a timer is enabled that never runs. -/
theorem restored_rate_not_used :
    ¬ InForce (force (elo.run (eloInit 9600 none) rateRestored).dev) ∧
      ¬ InForce (force (elo.run (eloInit 9600 none) (sentTo [ch 'H', 1, 1, 0, 0, 0, 0, 0])).dev) := by
  have hrates : (force (elo.run (eloInit 9600 none) rateRestored).dev).baudRate = 2400 ∧
      rateOf (force (elo.run (eloInit 9600 none) rateRestored).dev).setup.ser1 = 9600 := by decide +kernel
  have htimer :
      (force (elo.run (eloInit 9600 none) (sentTo [ch 'H', 1, 1, 0, 0, 0, 0, 0])).dev).setup.timerEnable = 1 ∧
      (force (elo.run (eloInit 9600 none) (sentTo [ch 'H', 1, 1, 0, 0, 0, 0, 0])).dev).userTimer = false := by
    decide +kernel
  refine ⟨fun h => ?_, fun h => ?_⟩
  · have hrate := h.rate
    rw [hrates.1, hrates.2] at hrate
    exact absurd hrate (by decide)
  · have harmed := h.armed
    rw [htimer.1, htimer.2] at harmed
    exact absurd (harmed (by decide)) (by decide)

end PeepeeBox.EloInForce
