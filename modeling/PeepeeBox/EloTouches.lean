import Mathlib.Data.List.Induction
import PeepeeBox.EdgeReports
import PeepeeBox.EloCommands

set_option autoImplicit false

/-!
# The reports of a touch

The touch as the transmit path knows it, the Untouch delay that holds a release back, and what the reports of a
run say, for polls, ticks and timers in any order.
-/
namespace PeepeeBox.EloTouches
open EdgeReports Elo TraceMachine

structure Hold where
  but : Bool
  butOld : Bool
  butPollPrev : Bool
  pending : Bool
  timer : Bool

def hold (dev : MouseElo) : Hold where
  but := dev.but
  butOld := dev.butOld
  butPollPrev := dev.butPollPrev
  pending := dev.untouchPending
  timer := dev.untouchTimer

structure Linked (h : Hold) : Prop where
  prev : h.butPollPrev = h.but
  pending : h.pending = true → h.but = false ∧ h.butOld = true ∧ h.timer = true

theorem hold_queued {dev dev' : MouseElo} (h : Queued dev dev') : hold dev' = hold dev := by
  obtain ⟨resp, rfl⟩ := h
  rfl

@[simp] theorem hold_eloEnqueue (dev : MouseElo) (cmd : Byte) (data : List Byte) :
    hold (eloEnqueue dev cmd data) = hold dev := hold_queued (eloEnqueue_queued dev cmd data)

@[simp] theorem hold_eloAck (dev : MouseElo) (err : Byte) : hold (eloAck dev err) = hold dev :=
  hold_queued (eloAck_queued dev err)

@[simp] theorem hold_eloSendTouch (dev : MouseElo) (status : Byte) (x y z : ℤ) :
    hold (eloSendTouch dev status x y z) = hold dev := hold_queued (eloSendTouch_queued dev status x y z)

@[simp] theorem hold_eloDumpConfig (dev : MouseElo) : hold (eloDumpConfig dev) = hold dev :=
  hold_queued (eloDumpConfig_queued dev)

theorem hold_finish (base : Byte) (query : Bool) (o : Outcome) : hold (finish base query o) = hold (left o) := by
  cases o with
  | returns dev => rfl
  | answers dev resp =>
    unfold finish left
    cases query <;> simp
  | acks dev => exact hold_eloAck dev 0

theorem hold_command (cur : BitVec 16) (dev : MouseElo) (base : Byte) (query : Bool) (data : List Byte) :
    hold (left (command cur dev base query data)) = hold dev := by
  refine command_all (P := fun o => hold (left o) = hold dev) ?acknowledge ?touch ?reset ?delays ?emulate ?calibration
    ?diagnostics ?filter ?configuration ?timer ?identity ?jumpers ?key ?lowPower ?mode ?owner ?parameter ?quiet
    ?scaling ?illegal base
  case acknowledge =>
    unfold acknowledge
    cases dev.calActive <;> exact (hold_eloEnqueue _ _ _).trans rfl
  case touch =>
    unfold touch
    cases query <;> simp [left]
  case reset =>
    unfold reset
    split <;> rfl
  case emulate =>
    unfold emulate
    cases query with
    | true => rfl
    | false =>
      dsimp only
      split_ifs <;> first | exact hold_eloAck _ _ | rfl
  case calibration =>
    unfold calibration
    dsimp only
    split_ifs <;> cases query <;> rfl
  case configuration =>
    unfold configuration
    cases query <;> simp [left]
  case mode =>
    unfold mode
    cases query with
    | true => rfl
    | false => by_cases hbinary : arg data 0 = 0 <;> simp only [hbinary, Bool.false_eq_true, if_true, if_false] <;> rfl
  case scaling =>
    unfold scaling
    dsimp only
    split_ifs <;> cases query <;> rfl
  case illegal => exact hold_eloAck _ _
  all_goals cases query <;> rfl

theorem hold_eloLoadNvrAreas (dev : MouseElo) (nvr : Option NvrFile) (areas : Byte) (page : Fin 2) :
    hold (eloLoadNvrAreas dev nvr areas page) = hold dev := by
  unfold eloLoadNvrAreas
  dsimp only
  split
  · rfl
  · cases has areas eloAreaSetup <;> cases has areas eloAreaCal <;> cases has areas eloAreaScale <;> rfl

theorem hold_nvram (u : Controller) (query : Bool) (data : List Byte) :
    hold (nvram u query data).dev = hold u.dev := by
  unfold nvram
  split_ifs
  · exact hold_eloAck _ _
  · exact hold_eloAck _ _
  · exact hold_eloAck _ _
  · rw [hold_eloAck]
    exact hold_eloLoadNvrAreas _ _ _ _

theorem hold_eloWrite (cur : BitVec 16) (u : Controller) (data : Byte) :
    hold (eloWrite cur u data).dev = hold u.dev := by
  unfold eloWrite
  dsimp only
  split
  · split_ifs <;> rfl
  · split_ifs
    · rfl
    · rfl
    · exact hold_eloAck _ _
    · rfl
    · unfold eloProcessCommand
      dsimp only
      split_ifs
      · exact hold_nvram _ _ _
      · rw [hold_finish, hold_command]
        rfl

/-- No byte comes in, and the controller is not restarted. -/
def commandFree : Event → Prop
  | .write _ _ | .restart _ => False
  | _ => True

instance : DecidablePred commandFree
  | .write _ _ | .restart _ => isFalse id
  | .poll _ _ _ | .tick _ | .untouchDone | .repDelayDone | .userTimerFire | .resetComplete => isTrue trivial

def looks (dev : MouseElo) (free : Bool) : Bool :=
  free && !dev.inReset && dev.resp.isEmpty && !dev.calActive && !dev.untouchPending && (dev.but || dev.butOld)

def place (dev : MouseElo) : ℤ × ℤ := ((eloTransform dev 0 dev.rawX).1, (eloTransform dev 1 dev.rawY).1)

def placeOld (dev : MouseElo) : ℤ × ℤ := ((eloTransform dev 0 dev.rawXOld).1, (eloTransform dev 1 dev.rawYOld).1)

/-- A stream report must wait for the pace. -/
def paced (dev : MouseElo) : Bool := dev.butOld && dev.setup.repDelay ≠ 0 && !dev.repReady

def edgeOf (status : Byte) : Edge :=
  if has status eloM1Untouch then .ends else if has status eloM1Initial then .begins else .goesOn

def kind (r : Report) : Edge := edgeOf r.status

/-- Initial, Stream and Untouch reports are on, and nothing is quieted. -/
structure Reporting (dev : MouseElo) : Prop where
  initial : has dev.setup.mode1 eloM1Initial = true
  stream : has dev.setup.mode1 eloM1Stream = true
  untouch : has dev.setup.mode1 eloM1Untouch = true
  quietAll : dev.quietAll = false
  quietTouch : dev.quietTouch = false

structure Same (dev dev' : MouseElo) : Prop where
  mode1 : dev'.setup.mode1 = dev.setup.mode1
  mode2 : dev'.setup.mode2 = dev.setup.mode2
  invertMask : dev'.setup.invertMask = dev.setup.invertMask
  repDelay : dev'.setup.repDelay = dev.setup.repDelay
  untouchDelay : dev'.setup.untouchDelay = dev.setup.untouchDelay
  scale : dev'.scale = dev.scale
  quietAll : dev'.quietAll = dev.quietAll
  quietTouch : dev'.quietTouch = dev.quietTouch

theorem eloPrepareTransmit_idle {dev : MouseElo}
    (h : dev.calActive = true ∨ dev.untouchPending = true ∨ dev.but = false ∧ dev.butOld = false) :
    eloPrepareTransmit dev = (dev, none) := by
  unfold eloPrepareTransmit
  rcases h with hcal | hpending | ⟨hbut, hold⟩
  · simp [hcal]
  · simp [hpending]
  · simp [hbut, hold]

theorem eloWriteToHost_looks {dev : MouseElo} {free : Bool} (h : looks dev free = true) :
    eloWriteToHost dev free = ((eloPrepareTransmit dev).1, none, (eloPrepareTransmit dev).2) := by
  simp only [looks, Bool.and_eq_true, Bool.not_eq_true', List.isEmpty_iff] at h
  obtain ⟨⟨⟨⟨⟨hfree, hreset⟩, hresp⟩, _⟩, _⟩, _⟩ := h
  unfold eloWriteToHost
  simp [hfree, hreset, hresp]

theorem eloWriteToHost_skips {dev : MouseElo} {free : Bool} (h : looks dev free = false) :
    ∃ resp, (eloWriteToHost dev free).1 = { dev with resp := resp } ∧ (eloWriteToHost dev free).2.2 = none := by
  unfold eloWriteToHost
  split
  · exact ⟨dev.resp, rfl, rfl⟩
  · rename_i hfree
    split
    · rename_i resp _
      exact ⟨resp, rfl, rfl⟩
    · rename_i hresp
      rw [eloPrepareTransmit_idle]
      · exact ⟨dev.resp, rfl, rfl⟩
      · simp only [Bool.not_eq_true, Bool.or_eq_false_iff, Bool.not_eq_false'] at hfree
        simp only [looks, hfree, hresp, List.isEmpty_nil, Bool.and_true, Bool.true_and, Bool.not_false] at h
        grind

structure Looked (dev dev' : MouseElo) : Prop where
  same : Same dev dev'
  cal : dev'.cal = dev.cal
  calActive : dev'.calActive = dev.calActive
  hold : hold dev' = { hold dev with butOld := dev.but }
  rawXOld : dev'.rawXOld = dev.rawX
  rawYOld : dev'.rawYOld = dev.rawY

structure Sent (dev : MouseElo) (sent : Option Report) (edge : Edge) (at_ : ℤ × ℤ) : Prop where
  report : ∃ r, sent = some r ∧ kind r = edge ∧ (r.x, r.y) = at_
  haveSent : dev.haveSent = dev.but
  sentAt : (dev.sentX, dev.sentY) = at_

variable {dev : MouseElo}

theorem transmit_report {status : Byte} {edge : Edge} (dev : MouseElo) (stream oor : Bool) (x y : ℤ)
    (hkind : ∀ oor : Bool, edgeOf (if oor then status ||| eloStOutofrange else status) = edge) :
    let dev' := eloSendTouch dev (if oor then status ||| eloStOutofrange else status) x y (eloZValue dev)
    let dev' := { dev' with haveSent := true, sentX := x, sentY := y }
    let dev' :=
      if stream && dev'.setup.repDelay ≠ 0 then { dev' with repReady := false, repDelayTimer := true } else dev'
    let dev' :=
      { dev' with
        rawXOld := dev'.rawX, rawYOld := dev'.rawY, butOld := dev'.but
        haveSent := if dev'.but then dev'.haveSent else false }
    Looked dev dev' ∧
      Sent dev' (some (Report.mk (if oor then status ||| eloStOutofrange else status) x y)) edge (x, y) := by
  obtain ⟨resp, hresp⟩ :=
    eloSendTouch_queued dev (if oor then status ||| eloStOutofrange else status) x y (eloZValue dev)
  dsimp only
  rw [hresp]
  cases hslow : stream && decide (dev.setup.repDelay ≠ 0)
  all_goals
    simp only [if_true, if_false, Bool.false_eq_true]
    refine ⟨⟨⟨rfl, rfl, rfl, rfl, rfl, rfl, rfl, rfl⟩, rfl, rfl, rfl, rfl, rfl⟩, ⟨_, rfl, hkind oor, rfl⟩, ?_, rfl⟩
    cases dev.but <;> simp

theorem edgeOf_initial (oor : Bool) :
    edgeOf (if oor then eloM1Initial ||| eloStOutofrange else eloM1Initial) = .begins := by
  cases oor <;> decide

theorem edgeOf_stream (oor : Bool) :
    edgeOf (if oor then eloM1Stream ||| eloStOutofrange else eloM1Stream) = .goesOn := by
  cases oor <;> decide

theorem edgeOf_untouch (oor : Bool) :
    edgeOf (if oor then eloM1Untouch ||| eloStOutofrange else eloM1Untouch) = .ends := by
  cases oor <;> decide

theorem prepare_begins (hr : Reporting dev) (hcal : dev.calActive = false) (hpending : dev.untouchPending = false)
    (hbut : dev.but = true) (hold : dev.butOld = false) :
    Looked dev (eloPrepareTransmit dev).1 ∧
      Sent (eloPrepareTransmit dev).1 (eloPrepareTransmit dev).2 .begins (place dev) := by
  have hstatus : statusOf dev = some (eloM1Initial, false) := by simp [statusOf, hbut, hold, hr.initial]
  have hreport := transmit_report dev false ((eloTransform dev 0 dev.rawX).2 || (eloTransform dev 1 dev.rawY).2)
    (place dev).1 (place dev).2 edgeOf_initial
  unfold eloPrepareTransmit
  simp only [hcal, hpending, hstatus, hr.quietTouch, Bool.false_and, Bool.or_false, Bool.false_eq_true, if_false]
  simp only [hbut, Bool.not_true, Bool.false_and, Bool.false_eq_true, if_false, if_true] at hreport ⊢
  exact hreport

theorem prepare_ends (hr : Reporting dev) (hcal : dev.calActive = false) (hpending : dev.untouchPending = false)
    (hbut : dev.but = false) (hold : dev.butOld = true) :
    Looked dev (eloPrepareTransmit dev).1 ∧
      Sent (eloPrepareTransmit dev).1 (eloPrepareTransmit dev).2 .ends (placeOld dev) := by
  have hstatus : statusOf dev = some (eloM1Untouch, false) := by simp [statusOf, hbut, hr.untouch]
  have hreport := transmit_report dev false ((eloTransform dev 0 dev.rawXOld).2 || (eloTransform dev 1 dev.rawYOld).2)
    (placeOld dev).1 (placeOld dev).2 edgeOf_untouch
  unfold eloPrepareTransmit
  simp only [hcal, hpending, hstatus, hr.quietTouch, Bool.false_and, Bool.or_false, Bool.false_eq_true, if_false]
  simp only [hbut, hold, Bool.not_true, Bool.not_false, Bool.and_false, Bool.false_and, Bool.false_eq_true,
    if_false] at hreport ⊢
  exact hreport

theorem prepare_goesOn (hr : Reporting dev) (hcal : dev.calActive = false) (hpending : dev.untouchPending = false)
    (hbut : dev.but = true) (hold : dev.butOld = true) :
    Looked dev (eloPrepareTransmit dev).1 ∧
      (Sent (eloPrepareTransmit dev).1 (eloPrepareTransmit dev).2 .goesOn (place dev) ∨
        (eloPrepareTransmit dev).2 = none ∧ (eloPrepareTransmit dev).1.haveSent = dev.haveSent ∧
          (eloPrepareTransmit dev).1.sentX = dev.sentX ∧ (eloPrepareTransmit dev).1.sentY = dev.sentY ∧
            (paced dev = true ∨ place dev = (dev.sentX, dev.sentY))) := by
  have hstatus : statusOf dev = some (eloM1Stream, true) := by simp [statusOf, hbut, hold, hr.stream]
  have hreport := transmit_report dev true ((eloTransform dev 0 dev.rawX).2 || (eloTransform dev 1 dev.rawY).2)
    (place dev).1 (place dev).2 edgeOf_stream
  unfold eloPrepareTransmit
  simp only [hcal, hpending, hstatus, hr.quietTouch, Bool.or_false, Bool.false_eq_true, if_false]
  simp only [hbut, hold, Bool.not_true, Bool.false_and, Bool.true_and, Bool.false_eq_true, if_false, if_true]
    at hreport ⊢
  by_cases hheld : (decide (dev.setup.repDelay ≠ 0) && !dev.repReady ||
      has dev.setup.mode2 eloM2Track && dev.haveSent && decide (((eloTransform dev 0 dev.rawX)).1 = dev.sentX) &&
        decide (((eloTransform dev 1 dev.rawY)).1 = dev.sentY)) = true
  · rw [if_pos hheld]
    refine ⟨⟨⟨rfl, rfl, rfl, rfl, rfl, rfl, rfl, rfl⟩, rfl, rfl, rfl, rfl, rfl⟩, .inr ⟨rfl, ?_, rfl, rfl, ?_⟩⟩
    · simp [hbut]
    · rcases (Bool.or_eq_true _ _).mp hheld with hpace | htrack
      · exact .inl (by rw [paced, hold, Bool.true_and]; exact hpace)
      · simp only [Bool.and_eq_true, decide_eq_true_eq] at htrack
        exact .inr (Prod.ext htrack.1.2 htrack.2)
  · rw [if_neg hheld]
    exact ⟨hreport.1, .inl hreport.2⟩

theorem eloPrepareTransmit_looked (hr : Reporting dev) {free : Bool} (h : looks dev free = true) :
    Looked dev (eloPrepareTransmit dev).1 := by
  simp only [looks, Bool.and_eq_true, Bool.not_eq_true'] at h
  obtain ⟨⟨⟨_, hcal⟩, hpending⟩, htouch⟩ := h
  cases hbut : dev.but with
  | true =>
    cases hold : dev.butOld with
    | false => exact (prepare_begins hr hcal hpending hbut hold).1
    | true => exact (prepare_goesOn hr hcal hpending hbut hold).1
  | false => exact (prepare_ends hr hcal hpending hbut (by simpa [hbut] using htouch)).1

structure Sample where
  place : ℤ × ℤ
  paced : Bool

def sampleOf (dev : MouseElo) : Event → Option Sample
  | .tick free => if looks dev free && dev.but then some { place := place dev, paced := paced dev } else none
  | _ => none

/-- The controller, answering the looks it takes at a touch. -/
def taken : Machine Controller Event Sample where
  step u e := (elo.next u e, sampleOf u.dev e)

theorem taken_run (u : Controller) (is : List Event) : taken.run u is = elo.run u is := by
  induction is generalizing u with
  | nil => rfl
  | cons e is ih => exact ih (elo.next u e)

/-- Touches reported from begin to end. -/
def rounds (ns : List ℕ) : List Edge := ns.flatMap fun n => .begins :: List.replicate n .goesOn ++ [.ends]

/-- Touches reported from begin to end, and then one that goes on if `open_`. -/
def Rounds (open_ : Bool) (es : List Edge) : Prop :=
  ∃ ns, if open_ then ∃ n, es = rounds ns ++ .begins :: List.replicate n .goesOn else es = rounds ns

theorem Rounds.begins {es : List Edge} (h : Rounds false es) : Rounds true (es ++ [.begins]) := by
  obtain ⟨ns, rfl⟩ := h
  exact ⟨ns, 0, rfl⟩

theorem Rounds.goesOn {es : List Edge} (h : Rounds true es) : Rounds true (es ++ [.goesOn]) := by
  obtain ⟨ns, n, rfl⟩ := h
  refine ⟨ns, n + 1, ?_⟩
  rw [List.replicate_succ', List.append_assoc, List.cons_append]

theorem Rounds.ends {es : List Edge} (h : Rounds true es) : Rounds false (es ++ [.ends]) := by
  obtain ⟨ns, n, rfl⟩ := h
  refine ⟨ns ++ [n], ?_⟩
  simp [rounds]

/-- What the looks and the reports so far say of the touch under way. -/
structure Follows (dev : MouseElo) (samples : List Sample) (reports : List Report) : Prop where
  linked : Linked (hold dev)
  rounds : Rounds dev.butOld (reports.map kind)
  settled : dev.butOld = true → dev.calActive = false ∧ dev.haveSent = true
  sampled : dev.butOld = true → ∃ p, samples.getLast? = some p ∧ p.place = placeOld dev ∧
    (p.paced = false → p.place = (dev.sentX, dev.sentY))
  told : dev.butOld = true → ∃ r, reports.getLast? = some r ∧ (r.x, r.y) = (dev.sentX, dev.sentY)

variable {samples : List Sample} {reports : List Report}

theorem eloTransform_same {dev dev' : MouseElo} (h : Same dev dev') (hcal : dev'.cal = dev.cal) (axis : Fin 2)
    (raw : ℤ) :
    eloTransform dev' axis raw = eloTransform dev axis raw := by
  unfold eloTransform
  rw [h.mode1, h.mode2, h.invertMask, h.scale, hcal]

theorem Follows.frame (h : Follows dev samples reports) {dev' : MouseElo} (hsame : Same dev dev')
    (hcal : dev.butOld = true → dev'.cal = dev.cal ∧ dev'.calActive = dev.calActive) (hlinked : Linked (hold dev'))
    (hold : dev'.butOld = dev.butOld) (hx : dev'.rawXOld = dev.rawXOld) (hy : dev'.rawYOld = dev.rawYOld)
    (hhave : dev'.haveSent = dev.haveSent) (hsentX : dev'.sentX = dev.sentX) (hsentY : dev'.sentY = dev.sentY) :
    Follows dev' samples reports where
  linked := hlinked
  rounds := by
    rw [hold]
    exact h.rounds
  settled hopen := by
    rw [hold] at hopen
    rw [(hcal hopen).2, hhave]
    exact h.settled hopen
  sampled hopen := by
    rw [hold] at hopen
    obtain ⟨p, hlast, hplace, hpaced⟩ := h.sampled hopen
    refine ⟨p, hlast, ?_, by rw [hsentX, hsentY]; exact hpaced⟩
    rw [placeOld, eloTransform_same hsame (hcal hopen).1, eloTransform_same hsame (hcal hopen).1, hx, hy]
    exact hplace
  told hopen := by
    rw [hold] at hopen
    rw [hsentX, hsentY]
    exact h.told hopen

theorem Linked.look {h : Hold} (hl : Linked h) (hpending : h.pending = false) (b : Bool) :
    Linked { h with butOld := b } where
  prev := hl.prev
  pending hp := by
    rw [hpending] at hp
    cases hp

theorem Looked.placeOld {dev dev' : MouseElo} (h : Looked dev dev') : placeOld dev' = place dev := by
  unfold EloTouches.placeOld place
  rw [eloTransform_same h.same h.cal, eloTransform_same h.same h.cal, h.rawXOld, h.rawYOld]

theorem Looked.butOld {dev dev' : MouseElo} (h : Looked dev dev') : dev'.butOld = dev.but :=
  congrArg Hold.butOld h.hold

theorem Looked.follows {dev' : MouseElo} (hlook : Looked dev dev') (hlinked : Linked (EloTouches.hold dev))
    (hcal : dev.calActive = false) (hpending : dev.untouchPending = false) (hbut : dev.but = true)
    (hrounds : Rounds true (reports.map kind)) (hhave : dev'.haveSent = true)
    (htold : ∃ r, reports.getLast? = some r ∧ (r.x, r.y) = (dev'.sentX, dev'.sentY))
    (hpaced : paced dev = false → place dev = (dev'.sentX, dev'.sentY)) :
    Follows dev' (samples ++ [{ place := place dev, paced := paced dev }]) reports where
  linked := by
    rw [hlook.hold]
    exact hlinked.look hpending _
  rounds := by
    rw [hlook.butOld, hbut]
    exact hrounds
  settled _ := ⟨hlook.calActive.trans hcal, hhave⟩
  sampled _ := ⟨_, List.getLast?_concat, hlook.placeOld.symm, hpaced⟩
  told _ := htold

theorem Follows.look (h : Follows dev samples reports) (hr : Reporting dev) {free : Bool}
    (hlooks : looks dev free = true) :
    Follows (eloPrepareTransmit dev).1 (samples ++ (sampleOf dev (.tick free)).toList)
      (reports ++ (eloPrepareTransmit dev).2.toList) := by
  have hconds := hlooks
  simp only [looks, Bool.and_eq_true, Bool.not_eq_true'] at hconds
  obtain ⟨⟨⟨_, hcal⟩, hpending⟩, htouch⟩ := hconds
  have hsample : sampleOf dev (.tick free) =
      if dev.but then some { place := place dev, paced := paced dev } else none := by
    simp [sampleOf, hlooks]
  rw [hsample]
  cases hbut : dev.but with
  | true =>
    rw [if_pos rfl]
    cases hold : dev.butOld with
    | false =>
      obtain ⟨hlook, ⟨r, hsent, hkind, hplace⟩, hhave, hat⟩ := prepare_begins hr hcal hpending hbut hold
      have hrounds := h.rounds
      rw [hold] at hrounds
      rw [hsent]
      refine hlook.follows h.linked hcal hpending hbut ?_ ?_ ⟨r, List.getLast?_concat, ?_⟩ fun _ => hat.symm
      · simpa [hkind] using hrounds.begins
      · rw [hhave]
        exact (congrArg Hold.but hlook.hold).trans hbut
      · rw [hplace, hat]
    | true =>
      have hrounds := h.rounds
      rw [hold] at hrounds
      obtain ⟨hlook, ⟨⟨r, hsent, hkind, hplace⟩, hhave, hat⟩ | ⟨hsent, hhave, hx, hy, hwithheld⟩⟩ :=
        prepare_goesOn hr hcal hpending hbut hold
      · rw [hsent]
        refine hlook.follows h.linked hcal hpending hbut ?_ ?_ ⟨r, List.getLast?_concat, ?_⟩ fun _ => hat.symm
        · simpa [hkind] using hrounds.goesOn
        · rw [hhave]
          exact (congrArg Hold.but hlook.hold).trans hbut
        · rw [hplace, hat]
      · rw [hsent, Option.toList_none, List.append_nil]
        refine hlook.follows h.linked hcal hpending hbut hrounds (hhave.trans (h.settled hold).2) ?_ fun hnot => ?_
        · rw [hx, hy]
          exact h.told hold
        · rw [hx, hy]
          rcases hwithheld with hpaced | hsame
          · rw [hnot] at hpaced
            cases hpaced
          · exact hsame
  | false =>
    have hold : dev.butOld = true := by simpa [hbut] using htouch
    have hrounds := h.rounds
    rw [hold] at hrounds
    obtain ⟨hlook, ⟨r, hsent, hkind, _⟩, _, _⟩ := prepare_ends hr hcal hpending hbut hold
    have hclosed : (eloPrepareTransmit dev).1.butOld = false := hlook.butOld.trans hbut
    have hnever {P : Prop} (hopen : (eloPrepareTransmit dev).1.butOld = true) : P := by
      rw [hclosed] at hopen
      cases hopen
    rw [if_neg Bool.false_ne_true, hsent]
    refine ⟨?_, ?_, hnever, hnever, hnever⟩
    · rw [hlook.hold]
      exact h.linked.look hpending _
    · rw [hclosed]
      simpa [hkind] using hrounds.ends

theorem holdUntouch_eq (dev : MouseElo) :
    ∃ pending timer, holdUntouch dev = { dev with untouchPending := pending, untouchTimer := timer } ∧
      ((dev.untouchPending = true → dev.butOld = true ∧ dev.untouchTimer = true) → pending = true →
        dev.but = false ∧ dev.butOld = true ∧ timer = true) ∧
      (dev.but = false → dev.untouchPending = true ∨
        dev.butPollPrev = true ∧ dev.butOld = true ∧ dev.setup.untouchDelay ≠ 0 → pending = true) := by
  unfold holdUntouch
  split
  · rename_i hbut
    have hnot {P : Prop} (h : dev.but = false) : P := by
      rw [hbut] at h
      cases h
    split
    · exact ⟨false, false, rfl, (fun _ hp => nomatch hp), hnot⟩
    · rename_i hnone
      exact ⟨dev.untouchPending, dev.untouchTimer, rfl, fun _ hp => absurd hp hnone, hnot⟩
  · rename_i hbut
    have hrelease := Bool.not_eq_true _ ▸ hbut
    split
    · rename_i hstart
      simp only [Bool.and_eq_true] at hstart
      exact ⟨true, true, rfl, fun _ _ => ⟨hrelease, hstart.1.1.2, rfl⟩, fun _ _ => rfl⟩
    · rename_i hnone
      refine ⟨dev.untouchPending, dev.untouchTimer, rfl, fun hwas hp => ⟨hrelease, hwas hp⟩, fun _ hwhy => ?_⟩
      rcases hwhy with hp | ⟨hprev, hold, hdelay⟩
      · exact hp
      · by_contra hp
        exact hnone (by simpa [hprev, hold, hp] using hdelay)

theorem eloPoll_frame (hlinked : Linked (hold dev)) (but : Bool) (x y : ℤ) :
    ∃ resp cal calActive calStep calButOld calPoints untouchPending untouchTimer rawX rawY,
      eloPoll dev but x y =
        { dev with
          resp, cal, calActive, calStep, calButOld, calPoints, untouchPending, untouchTimer, rawX, rawY, but
          butPollPrev := but } ∧
        (dev.calActive = false → cal = dev.cal ∧ calActive = false) ∧
        (untouchPending = true → but = false ∧ dev.butOld = true ∧ untouchTimer = true) ∧
        (but = false → dev.untouchPending = true ∨
          dev.but = true ∧ dev.butOld = true ∧ dev.setup.untouchDelay ≠ 0 → untouchPending = true) := by
  obtain ⟨rawX, rawY, hraw⟩ : ∃ rawX rawY, (if dev.setup.swapAxes then { dev with but, rawX := y, rawY := x }
      else { dev with but, rawX := x, rawY := y }) = { dev with but, rawX, rawY } := by
    cases dev.setup.swapAxes
    · exact ⟨x, y, rfl⟩
    · exact ⟨y, x, rfl⟩
  obtain ⟨pending, timer, hhold, hpending, hheld⟩ := holdUntouch_eq { dev with but, rawX, rawY }
  obtain ⟨resp, cal, calActive, calStep, calButOld, calPoints, hcal, hskip⟩ :=
    calibrate_eq { dev with but, rawX, rawY, untouchPending := pending, untouchTimer := timer, butPollPrev := but }
  unfold eloPoll
  rw [hraw]
  dsimp only
  rw [hhold]
  refine ⟨resp, cal, calActive, calStep, calButOld, calPoints, pending, timer, rawX, rawY, hcal, fun h => ?_, ?_, ?_⟩
  · have hsame := hcal.symm.trans (hskip h)
    exact ⟨congrArg MouseElo.cal hsame, (congrArg MouseElo.calActive hsame).trans h⟩
  · exact hpending fun hp => (hlinked.pending hp).2
  · rw [← show dev.butPollPrev = dev.but from hlinked.prev]
    exact hheld

theorem Follows.step {u : Controller} (h : Follows u.dev samples reports) (hr : Reporting u.dev) {e : Event}
    (he : commandFree e) :
    Follows (elo.next u e).dev (samples ++ (taken.answer u e).toList) (reports ++ (elo.answer u e).toList) ∧
      Same u.dev (elo.next u e).dev := by
  cases e with
  | write data cur => exact he.elim
  | restart speed => exact he.elim
  | poll but x y =>
    obtain ⟨resp, cal, calActive, calStep, calButOld, calPoints, pending, timer, rawX, rawY, heq, hcal, hpending, _⟩ :=
      eloPoll_frame h.linked but x y
    rw [show elo.next u (.poll but x y) = { u with dev := eloPoll u.dev but x y } from rfl, heq]
    refine ⟨?_, ⟨rfl, rfl, rfl, rfl, rfl, rfl, rfl, rfl⟩⟩
    rw [show taken.answer u (.poll but x y) = none from rfl, show elo.answer u (.poll but x y) = none from rfl]
    simp only [Option.toList_none, List.append_nil]
    refine h.frame ⟨rfl, rfl, rfl, rfl, rfl, rfl, rfl, rfl⟩ (fun hopen => ?_) ⟨rfl, hpending⟩ rfl rfl rfl rfl rfl rfl
    have hidle := (h.settled hopen).1
    exact ⟨(hcal hidle).1, (hcal hidle).2.trans hidle.symm⟩
  | tick free =>
    have hnext : elo.next u (.tick free) = { u with dev := (eloWriteToHost u.dev free).1 } := rfl
    have hanswer : elo.answer u (.tick free) = (eloWriteToHost u.dev free).2.2 := rfl
    have htaken : taken.answer u (.tick free) = sampleOf u.dev (.tick free) := rfl
    rw [hnext, hanswer, htaken]
    cases hlooks : looks u.dev free with
    | true =>
      rw [eloWriteToHost_looks hlooks]
      exact ⟨h.look hr hlooks, (eloPrepareTransmit_looked hr hlooks).same⟩
    | false =>
      obtain ⟨resp, hdev, hsent⟩ := eloWriteToHost_skips hlooks
      rw [hdev, hsent, show sampleOf u.dev (.tick free) = none by simp [sampleOf, hlooks]]
      simp only [Option.toList_none, List.append_nil]
      exact ⟨h.frame ⟨rfl, rfl, rfl, rfl, rfl, rfl, rfl, rfl⟩ (fun _ => ⟨rfl, rfl⟩) h.linked rfl rfl rfl rfl rfl rfl,
        ⟨rfl, rfl, rfl, rfl, rfl, rfl, rfl, rfl⟩⟩
  | untouchDone =>
    rw [show taken.answer u .untouchDone = none from rfl, show elo.answer u .untouchDone = none from rfl]
    simp only [Option.toList_none, List.append_nil]
    change Follows (if u.dev.untouchTimer then _ else u).dev _ _ ∧ Same _ (if u.dev.untouchTimer then _ else u).dev
    split
    · refine ⟨h.frame ⟨rfl, rfl, rfl, rfl, rfl, rfl, rfl, rfl⟩ (fun _ => ⟨rfl, rfl⟩) ⟨h.linked.prev, ?_⟩ rfl rfl rfl rfl
        rfl rfl, ⟨rfl, rfl, rfl, rfl, rfl, rfl, rfl, rfl⟩⟩
      exact fun hp => nomatch hp
    · exact ⟨h, ⟨rfl, rfl, rfl, rfl, rfl, rfl, rfl, rfl⟩⟩
  | repDelayDone =>
    rw [show taken.answer u .repDelayDone = none from rfl, show elo.answer u .repDelayDone = none from rfl]
    simp only [Option.toList_none, List.append_nil]
    change Follows (if u.dev.repDelayTimer then _ else u).dev _ _ ∧
      Same _ (if u.dev.repDelayTimer then _ else u).dev
    split
    · exact ⟨h.frame ⟨rfl, rfl, rfl, rfl, rfl, rfl, rfl, rfl⟩ (fun _ => ⟨rfl, rfl⟩) h.linked rfl rfl rfl rfl rfl rfl,
        ⟨rfl, rfl, rfl, rfl, rfl, rfl, rfl, rfl⟩⟩
    · exact ⟨h, ⟨rfl, rfl, rfl, rfl, rfl, rfl, rfl, rfl⟩⟩
  | userTimerFire =>
    rw [show taken.answer u .userTimerFire = none from rfl, show elo.answer u .userTimerFire = none from rfl]
    simp only [Option.toList_none, List.append_nil]
    change Follows (if u.dev.userTimer then _ else u).dev _ _ ∧ Same _ (if u.dev.userTimer then _ else u).dev
    split
    · obtain ⟨resp, userTimer, timerEnable, heq, _⟩ := eloUserTimerFire_eq { u.dev with userTimer := false }
      dsimp only
      rw [heq]
      exact ⟨h.frame ⟨rfl, rfl, rfl, rfl, rfl, rfl, rfl, rfl⟩ (fun _ => ⟨rfl, rfl⟩) h.linked rfl rfl rfl rfl rfl rfl,
        ⟨rfl, rfl, rfl, rfl, rfl, rfl, rfl, rfl⟩⟩
    · exact ⟨h, ⟨rfl, rfl, rfl, rfl, rfl, rfl, rfl, rfl⟩⟩
  | resetComplete =>
    rw [show taken.answer u .resetComplete = none from rfl, show elo.answer u .resetComplete = none from rfl]
    simp only [Option.toList_none, List.append_nil]
    change Follows (if u.dev.resetTimer then _ else u).dev _ _ ∧ Same _ (if u.dev.resetTimer then _ else u).dev
    split
    · exact ⟨h.frame ⟨rfl, rfl, rfl, rfl, rfl, rfl, rfl, rfl⟩ (fun _ => ⟨rfl, rfl⟩) h.linked rfl rfl rfl rfl rfl rfl,
        ⟨rfl, rfl, rfl, rfl, rfl, rfl, rfl, rfl⟩⟩
    · exact ⟨h, ⟨rfl, rfl, rfl, rfl, rfl, rfl, rfl, rfl⟩⟩

theorem Reporting.same {dev dev' : MouseElo} (h : Reporting dev) (hsame : Same dev dev') : Reporting dev' where
  initial := by rw [hsame.mode1, h.initial]
  stream := by rw [hsame.mode1, h.stream]
  untouch := by rw [hsame.mode1, h.untouch]
  quietAll := by rw [hsame.quietAll, h.quietAll]
  quietTouch := by rw [hsame.quietTouch, h.quietTouch]

theorem Same.trans {a b c : MouseElo} (h : Same a b) (h' : Same b c) : Same a c where
  mode1 := h'.mode1.trans h.mode1
  mode2 := h'.mode2.trans h.mode2
  invertMask := h'.invertMask.trans h.invertMask
  repDelay := h'.repDelay.trans h.repDelay
  untouchDelay := h'.untouchDelay.trans h.untouchDelay
  scale := h'.scale.trans h.scale
  quietAll := h'.quietAll.trans h.quietAll
  quietTouch := h'.quietTouch.trans h.quietTouch

theorem follows_run {u : Controller} (hlinked : Linked (hold u.dev)) (hr : Reporting u.dev)
    (hnew : u.dev.butOld = false) (is : List Event) (his : ∀ e ∈ is, commandFree e) :
    Follows (elo.run u is).dev (taken.trace u is) (elo.trace u is) ∧ Same u.dev (elo.run u is).dev := by
  induction is using List.reverseRecOn with
  | nil =>
    have hnever {P : Prop} (hopen : u.dev.butOld = true) : P := by
      rw [hnew] at hopen
      cases hopen
    refine ⟨⟨hlinked, ⟨[], ?_⟩, hnever, hnever, hnever⟩, ⟨rfl, rfl, rfl, rfl, rfl, rfl, rfl, rfl⟩⟩
    rw [Machine.run_nil, hnew]
    rfl
  | append_singleton is e ih =>
    obtain ⟨hfollows, hsame⟩ := ih fun e he => his e (List.mem_append_left _ he)
    have hstep := hfollows.step (hr.same hsame) (his e (by simp))
    rw [Machine.run_append, Machine.trace_append, Machine.trace_append, taken_run]
    simp only [Machine.run_cons, Machine.run_nil, Machine.trace_cons, Machine.trace_nil, List.append_nil]
    exact ⟨hstep.1, hsame.trans hstep.2⟩

theorem hold_settled (sent : MouseElo × Option Report) (h : hold sent.1 = hold dev) :
    hold
        (match sent with
          | (dev, sent) =>
            ({ dev with
                rawXOld := dev.rawX, rawYOld := dev.rawY, butOld := dev.but
                haveSent := if dev.but then dev.haveSent else false },
              sent)).1 =
      { hold dev with butOld := dev.but } := by
  obtain ⟨dev', sent⟩ := sent
  rw [← h, show dev.but = dev'.but from (congrArg Hold.but h).symm]
  rfl

theorem hold_eloPrepareTransmit (hcal : dev.calActive = false) (hpending : dev.untouchPending = false)
    (htouch : (dev.but || dev.butOld) = true) :
    hold (eloPrepareTransmit dev).1 = { hold dev with butOld := dev.but } := by
  have hseen : (!dev.but && !dev.butOld) = false := by
    rw [← Bool.not_or, htouch]
    rfl
  unfold eloPrepareTransmit
  rw [if_neg (by simp [hcal, hpending]), if_neg (by simp [hseen])]
  refine hold_settled _ ?_
  cases statusOf dev with
  | none => rfl
  | some what =>
    refine iteInduction (motive := fun sent : MouseElo × Option Report => hold sent.1 = hold dev) (fun _ => rfl)
      fun _ => ?_
    refine iteInduction (motive := fun dev' => hold dev' = hold dev) ?_ ?_
    · exact fun _ => hold_eloSendTouch dev _ _ _ _
    · exact fun _ => hold_eloSendTouch dev _ _ _ _

theorem linked_init (speed : ℤ) (nvr : Option NvrFile) : Linked (hold (eloInit speed nvr).dev) := by
  have hload (dev : MouseElo) : hold (eloLoadNvr dev nvr) = hold dev := hold_eloLoadNvrAreas _ _ _ _
  have hinit : hold (eloInit speed nvr).dev = hold zeroed := hload _
  rw [hinit]
  exact ⟨rfl, fun hp => nomatch hp⟩

theorem linked_step {u : Controller} (h : Linked (hold u.dev)) (e : Event) : Linked (hold (elo.next u e).dev) := by
  cases e with
  | write data cur =>
    rw [show elo.next u (.write data cur) = eloWrite cur u data from rfl, hold_eloWrite]
    exact h
  | poll but x y =>
    obtain ⟨resp, cal, calActive, calStep, calButOld, calPoints, pending, timer, rawX, rawY, heq, _, hpending, _⟩ :=
      eloPoll_frame h but x y
    rw [show elo.next u (.poll but x y) = { u with dev := eloPoll u.dev but x y } from rfl, heq]
    exact ⟨rfl, hpending⟩
  | tick free =>
    rw [show elo.next u (.tick free) = { u with dev := (eloWriteToHost u.dev free).1 } from rfl]
    cases hlooks : looks u.dev free with
    | true =>
      have hconds := hlooks
      simp only [looks, Bool.and_eq_true, Bool.not_eq_true'] at hconds
      obtain ⟨⟨⟨_, hcal⟩, hpending⟩, htouch⟩ := hconds
      rw [eloWriteToHost_looks hlooks, hold_eloPrepareTransmit hcal hpending htouch]
      exact h.look hpending _
    | false =>
      obtain ⟨resp, hdev, _⟩ := eloWriteToHost_skips hlooks
      rw [hdev]
      exact h
  | untouchDone =>
    change Linked (hold (if u.dev.untouchTimer then _ else u).dev)
    split
    · exact ⟨h.prev, fun hp => nomatch hp⟩
    · exact h
  | repDelayDone =>
    change Linked (hold (if u.dev.repDelayTimer then _ else u).dev)
    split <;> exact h
  | userTimerFire =>
    change Linked (hold (if u.dev.userTimer then _ else u).dev)
    split
    · obtain ⟨resp, userTimer, timerEnable, heq, _⟩ := eloUserTimerFire_eq { u.dev with userTimer := false }
      dsimp only
      rw [heq]
      exact h
    · exact h
  | resetComplete =>
    change Linked (hold (if u.dev.resetTimer then _ else u).dev)
    split <;> exact h
  | restart speed => exact linked_init speed u.nvr

/-- No new press, and the delay does not run out. -/
def waits : Event → Prop
  | .poll but _ _ => but = false
  | .untouchDone => False
  | e => commandFree e

structure Gap (touching : Bool) (u : Controller) : Prop where
  linked : Linked (hold u.dev)
  but : u.dev.but = false
  butOld : u.dev.butOld = touching
  pending : touching = true → u.dev.untouchPending = true

variable {touching : Bool} {u : Controller}

theorem looks_held {dev : MouseElo} (hpending : dev.butOld = true → dev.untouchPending = true)
    (hbut : dev.but = false) (free : Bool) :
    looks dev free = false := by
  unfold looks
  cases hold : dev.butOld with
  | true => simp [hpending hold]
  | false => simp [hbut]

theorem Gap.silent (h : Gap touching u) {e : Event} (he : waits e) : elo.answer u e = none := by
  have hlooks : ∀ free, looks u.dev free = false :=
    looks_held (fun hopen => h.pending (h.butOld.symm.trans hopen)) h.but
  cases e with
  | tick free =>
    obtain ⟨_, _, hsent⟩ := eloWriteToHost_skips (hlooks free)
    exact hsent
  | _ => rfl

theorem Gap.step (h : Gap touching u) {e : Event} (he : waits e) : Gap touching (elo.next u e) := by
  have hlinked := linked_step h.linked e
  cases e with
  | write data cur => exact he.elim
  | restart speed => exact he.elim
  | untouchDone => exact he.elim
  | poll but x y =>
    have hrelease : but = false := he
    obtain ⟨resp, cal, calActive, calStep, calButOld, calPoints, pending, timer, rawX, rawY, heq, _, _, hheld⟩ :=
      eloPoll_frame h.linked but x y
    rw [show elo.next u (.poll but x y) = { u with dev := eloPoll u.dev but x y } from rfl, heq] at hlinked ⊢
    exact ⟨hlinked, hrelease, h.butOld, fun hopen => hheld hrelease (.inl (h.pending hopen))⟩
  | tick free =>
    have hlooks : looks u.dev free = false :=
      looks_held (fun hopen => h.pending (h.butOld.symm.trans hopen)) h.but free
    obtain ⟨resp, hdev, _⟩ := eloWriteToHost_skips hlooks
    have hnext : elo.next u (.tick free) = { u with dev := { u.dev with resp := resp } } := by
      rw [← hdev]
      rfl
    rw [hnext]
    exact ⟨h.linked, h.but, h.butOld, h.pending⟩
  | repDelayDone =>
    change Gap touching (if u.dev.repDelayTimer then _ else u)
    split
    · exact ⟨h.linked, h.but, h.butOld, h.pending⟩
    · exact h
  | userTimerFire =>
    change Gap touching (if u.dev.userTimer then _ else u)
    split
    · obtain ⟨resp, userTimer, timerEnable, heq, _⟩ := eloUserTimerFire_eq { u.dev with userTimer := false }
      rw [heq]
      exact ⟨h.linked, h.but, h.butOld, h.pending⟩
    · exact h
  | resetComplete =>
    change Gap touching (if u.dev.resetTimer then _ else u)
    split
    · exact ⟨h.linked, h.but, h.butOld, h.pending⟩
    · exact h

theorem Gap.run (h : Gap touching u) (mid : List Event) (hmid : ∀ e ∈ mid, waits e) :
    Gap touching (elo.run u mid) ∧ elo.trace u mid = [] := by
  induction mid generalizing u with
  | nil => exact ⟨h, rfl⟩
  | cons e mid ih =>
    have he := hmid e (by simp)
    obtain ⟨hgap, htrace⟩ := ih (h.step he) fun e' he' => hmid e' (by simp [he'])
    refine ⟨hgap, ?_⟩
    rw [Machine.trace_cons, h.silent he, htrace]
    rfl

theorem Gap.release (hlinked : Linked (hold u.dev)) (hdelay : u.dev.setup.untouchDelay ≠ 0) (hbut : u.dev.but = true)
    (x y : ℤ) : Gap u.dev.butOld (elo.next u (.poll false x y)) := by
  have hnext := linked_step hlinked (.poll false x y)
  obtain ⟨resp, cal, calActive, calStep, calButOld, calPoints, pending, timer, rawX, rawY, heq, _, _, hheld⟩ :=
    eloPoll_frame hlinked false x y
  rw [show elo.next u (.poll false x y) = { u with dev := eloPoll u.dev false x y } from rfl, heq] at hnext ⊢
  exact ⟨hnext, rfl, rfl, fun hopen => hheld rfl (.inr ⟨hbut, hopen, hdelay⟩)⟩

theorem gap_closed (hlinked : Linked (hold u.dev)) (hdelay : u.dev.setup.untouchDelay ≠ 0) (hbut : u.dev.but = true)
    (mid : List Event) (hmid : ∀ e ∈ mid, waits e) (x y x' y' : ℤ) :
    elo.trace u (.poll false x y :: mid ++ [.poll true x' y']) = [] ∧
      (elo.run u (.poll false x y :: mid ++ [.poll true x' y'])).dev.butOld = u.dev.butOld := by
  obtain ⟨hgap, htrace⟩ := (Gap.release hlinked hdelay hbut x y).run mid hmid
  obtain ⟨resp, cal, calActive, calStep, calButOld, calPoints, pending, timer, rawX, rawY, heq, _, _, _⟩ :=
    eloPoll_frame hgap.linked true x' y'
  rw [Machine.trace_append, Machine.run_append, Machine.trace_cons, Machine.run_cons, htrace]
  refine ⟨rfl, ?_⟩
  change (eloPoll _ true x' y').butOld = _
  rw [heq]
  exact hgap.butOld

theorem answer_ends {u : Controller} (hr : Reporting u.dev) {e : Event} {r : Report} (hsent : elo.answer u e = some r)
    (hkind : kind r = .ends) : u.dev.butOld = true ∧ (r.x, r.y) = placeOld u.dev := by
  cases e with
  | tick free =>
    have hanswer : (eloWriteToHost u.dev free).2.2 = some r := hsent
    cases hlooks : looks u.dev free with
    | false =>
      obtain ⟨_, _, hnone⟩ := eloWriteToHost_skips hlooks
      rw [hnone] at hanswer
      cases hanswer
    | true =>
      rw [eloWriteToHost_looks hlooks] at hanswer
      simp only [looks, Bool.and_eq_true, Bool.not_eq_true'] at hlooks
      obtain ⟨⟨⟨_, hcal⟩, hpending⟩, htouch⟩ := hlooks
      have hother {edge : Edge} {at_ : ℤ × ℤ}
          (h : Sent (eloPrepareTransmit u.dev).1 (eloPrepareTransmit u.dev).2 edge at_) :
          edge = .ends ∧ (r.x, r.y) = at_ := by
        obtain ⟨r', hr', hedge, hat⟩ := h.report
        obtain rfl := Option.some.inj (hr'.symm.trans hanswer)
        exact ⟨hedge.symm.trans hkind, hat⟩
      cases hbut : u.dev.but with
      | true =>
        exfalso
        cases hold : u.dev.butOld with
        | false => exact nomatch (hother (prepare_begins hr hcal hpending hbut hold).2).1
        | true =>
          rcases (prepare_goesOn hr hcal hpending hbut hold).2 with hsent | ⟨hnone, _⟩
          · exact nomatch (hother hsent).1
          · rw [hnone] at hanswer
            cases hanswer
      | false =>
        have hold : u.dev.butOld = true := by simpa [hbut] using htouch
        exact ⟨hold, (hother (prepare_ends hr hcal hpending hbut hold).2).2⟩
  | _ => exact nomatch hsent

/-- The reports of a run alternate, an Untouch is where the last look at the touch was, which is where the last
    report was unless the pace held the report of that look back, and of a gap shorter than the delay nothing is
    reported. -/
theorem reports_alternate (speed : ℤ) (nvr : Option NvrFile) (earlier is : List Event) (u : Controller)
    (hu : u = elo.run (eloInit speed nvr) earlier) (hr : Reporting u.dev) (hnew : u.dev.butOld = false)
    (his : ∀ e ∈ is, commandFree e) :
    Rounds (elo.run u is).dev.butOld ((elo.trace u is).map kind) ∧
      (∀ before after e r, is = before ++ e :: after → elo.answer (elo.run u before) e = some r → kind r = .ends →
        ∃ p, (taken.trace u before).getLast? = some p ∧ (r.x, r.y) = p.place ∧
          (p.paced = false → ∃ q, (elo.trace u before).getLast? = some q ∧ (q.x, q.y) = p.place)) ∧
      ∀ before mid after x y x' y', is = before ++ (.poll false x y :: mid ++ [.poll true x' y']) ++ after →
        (∀ e ∈ mid, waits e) → u.dev.setup.untouchDelay ≠ 0 → (elo.run u before).dev.but = true →
          elo.trace (elo.run u before) (.poll false x y :: mid ++ [.poll true x' y']) = [] ∧
            (elo.run u (before ++ (.poll false x y :: mid ++ [.poll true x' y']))).dev.butOld =
              (elo.run u before).dev.butOld := by
  have hlinked : Linked (hold u.dev) := by
    rw [hu]
    exact elo.run_invariant (I := fun u => Linked (hold u.dev)) (fun _ e h => linked_step h e)
      (linked_init speed nvr) _
  refine ⟨(follows_run hlinked hr hnew is his).1.rounds, ?_, ?_⟩
  · intro before after e r hsplit hsent hkind
    have hbefore : ∀ e ∈ before, commandFree e := fun e he => his e (by simp [hsplit, he])
    obtain ⟨hfollows, hsame⟩ := follows_run hlinked hr hnew before hbefore
    obtain ⟨hopen, hat⟩ := answer_ends (hr.same hsame) hsent hkind
    obtain ⟨p, hlast, hplace, hpaced⟩ := hfollows.sampled hopen
    refine ⟨p, hlast, hat.trans hplace.symm, fun hnot => ?_⟩
    obtain ⟨q, hq, hqat⟩ := hfollows.told hopen
    exact ⟨q, hq, hqat.trans (hpaced hnot).symm⟩
  · intro before mid after x y x' y' hsplit hmid hdelay hbut
    have hbefore : ∀ e ∈ before, commandFree e := fun e he => his e (by simp [hsplit, he])
    obtain ⟨hfollows, hsame⟩ := follows_run hlinked hr hnew before hbefore
    rw [Machine.run_append]
    exact gap_closed hfollows.linked (by rw [hsame.untouchDelay]; exact hdelay) hbut mid hmid x y x' y'

/-- A touch that slides while the pace holds its reports back. -/
def slide : List Event :=
  .poll true 100 100 :: List.replicate 22 (.tick true) ++ [.poll true 200 200, .tick true, .poll false 200 200]

theorem reporting_init : Reporting (eloInit 9600 none).dev := by
  constructor <;> decide +kernel

theorem reports_alternate_slide :
    Rounds false ((elo.trace (eloInit 9600 none) (slide ++ [.tick true])).map kind) ∧
      ∃ p, (taken.trace (eloInit 9600 none) slide).getLast? = some p ∧ (200, 200) = p.place := by
  have hfree : ∀ e ∈ slide ++ [.tick true], commandFree e := by decide
  have h := reports_alternate 9600 none [] (slide ++ [.tick true]) _ rfl reporting_init rfl hfree
  have hsent : elo.answer (elo.run (eloInit 9600 none) slide) (.tick true) = some (Report.mk 4 200 200) := by
    decide +kernel
  have hopen : (elo.run (eloInit 9600 none) (slide ++ [.tick true])).dev.butOld = false := by decide +kernel
  refine ⟨?_, ?_⟩
  · have hrounds := h.1
    rw [Machine.run_nil, hopen] at hrounds
    exact hrounds
  · obtain ⟨p, hlast, hplace, _⟩ := h.2.1 slide [] (.tick true) _ rfl hsent (by decide)
    exact ⟨p, hlast, hplace⟩

/-- An Untouch is not where the last report was. -/
theorem untouch_elsewhere :
    ∃ (is : List Event) (r q : Report), (∀ e ∈ is, commandFree e) ∧ Reporting (eloInit 9600 none).dev ∧
      (eloInit 9600 none).dev.butOld = false ∧
      elo.answer (elo.run (eloInit 9600 none) is) (.tick true) = some r ∧ kind r = .ends ∧
      (elo.trace (eloInit 9600 none) is).getLast? = some q ∧ (r.x, r.y) ≠ (q.x, q.y) := by
  have hreports : (elo.trace (eloInit 9600 none) slide).getLast? = some (Report.mk 2 100 100) := by decide +kernel
  refine ⟨slide, Report.mk 4 200 200, Report.mk 2 100 100, by decide, reporting_init, rfl, ?_, by decide, hreports,
    by decide⟩
  decide +kernel

end PeepeeBox.EloTouches
