import Mathlib.Data.List.Induction
import Mathlib.Tactic.FinCases
import PeepeeBox.EdgeReports
import PeepeeBox.MicroTouch
import PeepeeBox.TraceMachine

set_option autoImplicit false

/-!
# Taps in Mode Stream

The controller between polls and transmit ticks is the sampled contact: a poll overwrites the
press, an idle tick with an empty queue samples it, and every other tick moves nothing of it.
-/
namespace PeepeeBox.TouchTaps
open ByteFifo EdgeReports MicroTouch TraceMachine

variable {C T : Type}

inductive Input (C : Type) where
  | write (data : Byte)
  | tick (free : Bool)
  | poll (but : BitVec 32) (x y : C)
  | resetDone

/-- The controller; answered with the report queued, if one is. -/
def controller (A : Analog C T) : Machine (Touch C T) (Input C) (Report C) where
  step dev i :=
    match i with
    | .write data => (mtouchWrite A dev data, none)
    | .tick free => mtouchWriteToHost A dev free
    | .poll but x y => (mtouchPoll A dev but x y, none)
    | .resetDone => (if dev.inReset then mtouchResetComplete dev else dev, none)

/-- Where a report says the touch is, raw and calibrated. -/
abbrev Place (C : Type) := C × C × C × C × Bool

def edge : Ev → Edge
  | .down => .begins
  | .cont => .goesOn
  | .up => .ends

def tell (r : Report C) : Edge × Place C := (edge r.ev, r.x, r.y, r.rx, r.ry, r.zone)

/-- The contact the controller's fields amount to. -/
def view (dev : Touch C T) : Contact (Place C) :=
  { seen :=
      if dev.but ≠ 0 then some (dev.absX, dev.absY, dev.rawX, dev.rawY, dev.inZone) else none
    touch :=
      if dev.butOld ≠ 0 then
        some (dev.lastX, dev.lastY, dev.lastRawX, dev.lastRawY, dev.lastInZone)
      else none }

def pollSees (A : Analog C T) (scale : T) (but : BitVec 32) (x y : C) : Option (Place C) :=
  let (ax, ay, zone) := A.calibrate scale x y
  if but ≠ 0 then some (ax, ay, x, y, zone) else none

def polls (A : Analog C T) (scale : T) (is : List (Input C)) : List (Option (Place C)) :=
  is.filterMap fun i =>
    match i with
    | .poll but x y => some (pollSees A scale but x y)
    | _ => none

/-- Mode Stream, not calibrating, no Format Raw. -/
structure Streaming (dev : Touch C T) : Prop where
  mode : dev.mode = .stream
  calCntr : dev.calCntr = 0
  format : dev.format ≠ .raw

/-- The step is not a command. -/
def silent : Input C → Prop
  | .write _ => False
  | _ => True

/-- A poll that changes whether a press is seen finds the poll before it sampled: `but_old` set
    as `but` is, and while pressed the last point the point of that poll. -/
def sampledFirst (A : Analog C T) (dev : Touch C T) : Input C → Prop
  | .poll but x y => Steady (view dev) (pollSees A dev.scale but x y)
  | _ => True

variable {A : Analog C T}

theorem view_poll (dev : Touch C T) (but : BitVec 32) (x y : C) :
    view (mtouchPoll A dev but x y) = (view dev).poll (pollSees A dev.scale but x y) := rfl

/-- Only the queue differs. -/
def Queued (dev dev' : Touch C T) : Prop := ∃ resp, dev' = { dev with resp := resp }

theorem Queued.refl (dev : Touch C T) : Queued dev dev := ⟨dev.resp, rfl⟩

theorem Queued.push {dev dev' : Touch C T} (h : Queued dev dev') (x : Byte) :
    Queued dev (mtouchPush dev' x) := by
  obtain ⟨resp, rfl⟩ := h
  exact ⟨fifo8Push resp x, rfl⟩

theorem Queued.pushAll {dev dev' : Touch C T} (h : Queued dev dev') (xs : List Byte) :
    Queued dev (mtouchPushAll dev' xs) := by
  obtain ⟨resp, rfl⟩ := h
  exact ⟨fifo8PushAll resp xs, rfl⟩

theorem Queued.push1023 {dev dev' : Touch C T} (h : Queued dev dev') (v : BitVec 32) :
    Queued dev (mtouchPush1023 dev' v) := (h.push _).push _

theorem mtouchReport_queued (dev : Touch C T) (r : Report C) :
    Queued dev (mtouchReport A dev r) := by
  have hrefl := Queued.refl dev
  unfold mtouchReport
  split
  · exact ((((hrefl.push _).push _).push _).push _).push _
  · exact (hrefl.push _).pushAll _
  · exact (hrefl.push _).pushAll _
  · dsimp only
    split
    · exact (((hrefl.pushAll _).push _).push1023 _).push1023 _
    · exact ((hrefl.push _).push1023 _).push1023 _
  · exact ((hrefl.push _).push1023 _).push1023 _
  · exact (((hrefl.push _).push _).push _ |>.push _).push _
  · exact hrefl

/-- A tick that moves nothing, and a tick that samples. -/
inductive Ticked (dev : Touch C T) : Touch C T × Option (Report C) → Prop
  | still (dev' : Touch C T) (view : view dev' = view dev) (stream : Streaming dev')
      (scale : dev'.scale = dev.scale) : Ticked dev (dev', none)
  | sampled (dev' : Touch C T) (report : Option (Report C)) (view : view dev' = (view dev).sample)
      (told : report.map tell = (TouchTaps.view dev).report) (stream : Streaming dev')
      (scale : dev'.scale = dev.scale) : Ticked dev (dev', report)

theorem mtouchSample_streaming (dev : Touch C T) (ev : Option Ev) (h : Streaming dev) :
    Streaming (mtouchSample dev ev) ∧ (mtouchSample dev ev).scale = dev.scale := by
  unfold mtouchSample
  dsimp only
  split <;> exact ⟨⟨h.mode, h.calCntr, h.format⟩, rfl⟩

theorem view_pressed {dev : Touch C T} (h : dev.but ≠ 0) :
    (view dev).seen = some (dev.absX, dev.absY, dev.rawX, dev.rawY, dev.inZone) := if_pos h

theorem view_released {dev : Touch C T} (h : dev.but = 0) : (view dev).seen = none :=
  if_neg fun hbut => hbut h

theorem view_touched {dev : Touch C T} (h : dev.butOld ≠ 0) : (view dev).touch =
    some (dev.lastX, dev.lastY, dev.lastRawX, dev.lastRawY, dev.lastInZone) := if_pos h

theorem view_untouched {dev : Touch C T} (h : dev.butOld = 0) : (view dev).touch = none :=
  if_neg fun hold => hold h

theorem mtouchEvent_pressed {dev : Touch C T} (h : dev.but ≠ 0) :
    mtouchEvent dev = some (if dev.butOld = 0 then .down else .cont) := by
  unfold mtouchEvent
  by_cases hold : dev.butOld = 0
  · rw [if_pos ⟨h, hold⟩, if_pos hold]
  · rw [if_neg (fun hnew => hold hnew.2), if_pos h, if_neg hold]

theorem mtouchEvent_released {dev : Touch C T} (h : dev.but = 0) :
    mtouchEvent dev = if dev.butOld = 0 then none else some .up := by
  unfold mtouchEvent
  rw [if_neg (fun hnew => hnew.1 h), if_neg (fun hbut => hbut h)]
  by_cases hold : dev.butOld = 0
  · rw [if_neg (fun hup => hup hold), if_pos hold]
  · rw [if_pos hold, if_neg hold]

theorem mtouchSample_view (dev : Touch C T) :
    view (mtouchSample dev (mtouchEvent dev)) = (view dev).sample := by
  by_cases hbut : dev.but = 0
  · have hev : ¬ (mtouchEvent dev = some .down ∨ mtouchEvent dev = some .cont) := by
      rw [mtouchEvent_released hbut]
      split <;> rintro (h | h) <;> cases h
    unfold mtouchSample
    dsimp only
    rw [if_neg hev]
    have htouch : (view { dev with butOld := dev.but }).touch = (view dev).seen :=
      (view_untouched hbut).trans (view_released hbut).symm
    exact congrArg (Contact.mk (view dev).seen) htouch
  · have hev : mtouchEvent dev = some .down ∨ mtouchEvent dev = some .cont := by
      rw [mtouchEvent_pressed hbut]
      split
      · exact Or.inl rfl
      · exact Or.inr rfl
    unfold mtouchSample
    dsimp only
    rw [if_pos hev]
    rfl

theorem mtouchEvent_report (dev : Touch C T) :
    ((mtouchEvent dev).map (lastReport (mtouchSample dev (mtouchEvent dev)))).map tell =
      (view dev).report := by
  unfold Contact.report
  by_cases hbut : dev.but = 0
  · rw [mtouchEvent_released hbut, view_released hbut]
    by_cases hold : dev.butOld = 0
    · rw [if_pos hold, view_untouched hold]
      rfl
    · rw [if_neg hold, view_touched hold]
      rfl
  · rw [mtouchEvent_pressed hbut, view_pressed hbut]
    by_cases hold : dev.butOld = 0
    · rw [if_pos hold, view_untouched hold]
      rfl
    · rw [if_neg hold, view_touched hold]
      rfl

theorem prepareTransmit_ticked (dev : Touch C T) (h : Streaming dev) :
    Ticked dev (mtouchPrepareTransmit A dev) := by
  have hview := mtouchSample_view dev
  have htold := mtouchEvent_report dev
  obtain ⟨hstream, hscale⟩ := mtouchSample_streaming dev (mtouchEvent dev) h
  unfold mtouchPrepareTransmit
  rw [if_neg h.format]
  dsimp only
  generalize mtouchSample dev (mtouchEvent dev) = sample at hview htold hstream hscale ⊢
  rw [if_neg (fun hcal => hcal hstream.calCntr)]
  unfold mtouchChoose
  rw [hstream.mode]
  dsimp only
  generalize (mtouchEvent dev).map (lastReport sample) = report at htold ⊢
  cases report with
  | none => exact .sampled sample none hview htold hstream hscale
  | some r =>
    obtain ⟨resp, hresp⟩ := mtouchReport_queued (A := A) sample r
    dsimp only
    rw [hresp]
    exact .sampled _ _ hview htold ⟨hstream.mode, hstream.calCntr, hstream.format⟩ hscale

theorem tick_ticked (dev : Touch C T) (free : Bool) (h : Streaming dev) :
    Ticked dev (mtouchWriteToHost A dev free) := by
  unfold mtouchWriteToHost
  split
  · exact .still dev rfl h rfl
  · split
    · exact .still _ rfl ⟨h.mode, h.calCntr, h.format⟩ rfl
    · exact prepareTransmit_ticked dev h

/-- The code's arithmetic without rounding, the scales and offsets in the order x, y. -/
def exactly : Analog Rat (Rat × Rat × Rat × Rat) where
  flip y := 1 - y
  tablet x := BitVec.ofInt 16 (16383 * x).floor
  decimal x := BitVec.ofInt 16 (999 * x).floor
  hexadecimal x := BitVec.ofInt 16 (1023 * x).floor
  ten x := BitVec.ofInt 32 (1023 * x).floor
  signed v := BitVec.ofInt 32 ((v * 2047).floor - 1024)
  corners pressed sensitivity x y :=
    let amount : Rat := if pressed then 500 + 100 * sensitivity.toNat else 0
    let level := fun part : Rat => BitVec.ofInt 32 (200 + (amount * part).floor)
    (level ((1 - x) * (1 - y)), level (x * (1 - y)), level ((1 - x) * y), level (x * y))
  calibrate scale x y :=
    let clamp := fun v : Rat => if 1 ≤ v then 1 else if v ≤ 0 then 0 else v
    let ax := scale.1 * x + scale.2.2.1
    let ay := scale.2.1 * y + scale.2.2.2
    (clamp ax, clamp ay, decide (0 ≤ ax ∧ ax ≤ 1 ∧ 0 ≤ ay ∧ ay ≤ 1))
  lowerLeft x y := decide (x < 1 / 3 ∧ 2 / 3 < y)
  upperRight x y := decide (2 / 3 < x ∧ y < 1 / 3)
  solve kind p q :=
    let inset : Rat := if kind = .extended then 1 / 8 else 0
    let swap := decide (kind = .interactive)
    let x1 := if swap && decide (q.1 < p.1) then q.1 else p.1
    let x2 := if swap && decide (q.1 < p.1) then p.1 else q.1
    let y1 := if swap && decide (p.2 < q.2) then q.2 else p.2
    let y2 := if swap && decide (p.2 < q.2) then p.2 else q.2
    if x2 - x1 < 1 / 20 ∨ y1 - y2 < 1 / 20 then none
    else
      let sx := (1 - inset - inset) / (x2 - x1)
      let sy := (inset - (1 - inset)) / (y2 - y1)
      some (sx, sy, inset - sx * x1, 1 - inset - sy * y1)
  factory := (1, 1, 0, 0)

/-- A tap pressed at one poll and released at the next, with no tick in between, is over and
    never reported. -/
theorem tap_lost :
    let dev := mtouchInit exactly 0 0 9600
    let is : List (Input Rat) := [.poll 1 (1 / 4) (1 / 2), .poll 0 (1 / 4) (1 / 2), .tick true, .tick true]
    (controller exactly).trace dev is = [] ∧
      (contacts (polls exactly dev.scale is)).former = [[(1 / 4, 1 / 2, 1 / 4, 1 / 2, true)]] := by
  decide +kernel

/-- The reports of a run from a state without an outstanding touch: one group of a touchdown,
    continued touches and a liftoff for each run of polls that saw a press, the liftoff at the
    place of its last poll. -/
theorem taps_reported (dev : Touch C T) (hstream : Streaming dev) (hstart : dev.butOld = 0)
    (is : List (Input C)) (hsilent : ∀ i ∈ is, silent i)
    (hsampled : ∀ before i after, is = before ++ i :: after →
      sampledFirst A ((controller A).run dev before) i) :
    Faithful ((view dev).seen :: polls A dev.scale is) (view ((controller A).run dev is))
      (((controller A).trace dev is).map tell) := by
  suffices hall : Streaming ((controller A).run dev is) ∧
      ((controller A).run dev is).scale = dev.scale ∧
      Faithful ((view dev).seen :: polls A dev.scale is) (view ((controller A).run dev is))
        (((controller A).trace dev is).map tell) from hall.2.2
  induction is using List.reverseRecOn with
  | nil =>
    have hnone : (view dev).touch = none := if_neg (fun h => h hstart)
    exact ⟨hstream, rfl, Faithful.start (view dev) hnone⟩
  | append_singleton is i ih =>
    have hbefore : ∀ before j after, is = before ++ j :: after →
        sampledFirst A ((controller A).run dev before) j := by
      intro before j after hsplit
      apply hsampled before j (after ++ [i])
      rw [hsplit, List.append_assoc, List.cons_append]
    obtain ⟨hmid, hscale, hfaithful⟩ :=
      ih (fun j hj => hsilent j (List.mem_append_left _ hj)) hbefore
    have hsteady := hsampled is i [] rfl
    have hquiet := hsilent i (List.mem_append_right _ List.mem_cons_self)
    rw [Machine.run_append, Machine.trace_append, Machine.run_cons, Machine.run_nil,
      Machine.trace_cons, Machine.trace_nil, List.append_nil]
    generalize (controller A).run dev is = mid at hmid hscale hfaithful hsteady ⊢
    generalize (controller A).trace dev is = told at hfaithful ⊢
    have hpolls : polls A dev.scale (is ++ [i]) = polls A dev.scale is ++ polls A dev.scale [i] :=
      List.filterMap_append
    rw [hpolls, ← List.cons_append]
    generalize (view dev).seen :: polls A dev.scale is = history at hfaithful ⊢
    cases i with
    | write data => exact absurd hquiet id
    | poll but x y =>
      refine ⟨⟨hmid.mode, hmid.calCntr, hmid.format⟩, hscale, ?_⟩
      have hpoll := hfaithful.poll (pollSees A mid.scale but x y) hsteady
      rw [hscale] at hpoll
      change Faithful (history ++ [pollSees A dev.scale but x y]) (view (mtouchPoll A mid but x y))
        ((told ++ []).map tell)
      rw [view_poll, hscale, List.append_nil]
      exact hpoll
    | tick free =>
      have htick := tick_ticked (A := A) mid free hmid
      change Streaming (mtouchWriteToHost A mid free).1 ∧
        (mtouchWriteToHost A mid free).1.scale = dev.scale ∧
        Faithful (history ++ []) (view (mtouchWriteToHost A mid free).1)
          ((told ++ (mtouchWriteToHost A mid free).2.toList).map tell)
      rw [List.append_nil, List.map_append]
      generalize mtouchWriteToHost A mid free = after at htick ⊢
      cases htick with
      | still dev' hview hstream' hscale' =>
        refine ⟨hstream', hscale'.trans hscale, ?_⟩
        rw [hview]
        change Faithful history (view mid) (told.map tell ++ [])
        rw [List.append_nil]
        exact hfaithful
      | sampled dev' report hview htold hstream' hscale' =>
        refine ⟨hstream', hscale'.trans hscale, ?_⟩
        have hsample := hfaithful.sample
        rw [← hview, ← htold] at hsample
        cases report <;> exact hsample
    | resetDone =>
      change Streaming (if mid.inReset then mtouchResetComplete mid else mid) ∧
        (if mid.inReset then mtouchResetComplete mid else mid).scale = dev.scale ∧
        Faithful (history ++ []) (view (if mid.inReset then mtouchResetComplete mid else mid))
          ((told ++ []).map tell)
      rw [List.append_nil, List.append_nil]
      split
      · exact ⟨⟨hmid.mode, hmid.calCntr, hmid.format⟩, hscale, hfaithful⟩
      · exact ⟨hmid, hscale, hfaithful⟩

/-- A tap sampled while it is down. -/
theorem taps_reported_tap :
    let dev := mtouchInit exactly 0 0 9600
    let is : List (Input Rat) := [.poll 1 (1 / 4) (1 / 2), .tick true, .poll 0 (1 / 4) (1 / 2)]
    Faithful ((view dev).seen :: polls exactly dev.scale is) (view ((controller exactly).run dev is))
      (((controller exactly).trace dev is).map tell) := by
  apply taps_reported
  · exact ⟨rfl, rfl, by decide⟩
  · rfl
  · intro i hi
    fin_cases hi <;> exact trivial
  · intro before i after hsplit
    match before, hsplit with
    | [], hsplit =>
      obtain ⟨rfl, -⟩ := List.cons.inj hsplit
      exact fun _ => by decide +kernel
    | [_], hsplit =>
      obtain ⟨rfl, -⟩ := List.cons.inj (List.cons.inj hsplit).2
      exact trivial
    | [_, _], hsplit =>
      obtain ⟨rfl, hrest⟩ := List.cons.inj hsplit
      obtain ⟨rfl, hlast⟩ := List.cons.inj hrest
      obtain ⟨rfl, -⟩ := List.cons.inj hlast
      exact fun _ => by decide +kernel
    | _ :: _ :: _ :: before, hsplit =>
      have hlength := congrArg List.length hsplit
      simp only [List.length_append, List.length_cons, List.length_nil] at hlength
      omega

end PeepeeBox.TouchTaps
