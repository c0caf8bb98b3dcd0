import PeepeeBox.PitPeriod

set_option autoImplicit false

/-!
# One event per load

Modes 0, 1, 4 and 5 answer a count or a trigger with one event, once the count is over.
-/
namespace PeepeeBox.PitEvents
open Pit PitCounts PitSquare PitRuns PitPeriod

structure Kind where
  gated : Bool
  strobe : Bool
deriving DecidableEq, Repr

structure Shot where
  gate : Bool
  /-- The next edge loads. -/
  pending : Bool
  /-- The counts since the last load. -/
  age : Option ℕ
  /-- The last edge was one of them. -/
  counted : Bool
deriving DecidableEq, Repr

namespace Shot

/-- A clock edge; the one that ends a strobe is not a count. -/
def edge (kind : Kind) (n : ℕ) (s : Shot) : Shot :=
  if s.pending then { s with pending := false, age := some 0, counted := false }
  else
    match s.age with
    | none => s
    | some a =>
      if kind.strobe = true ∧ a = n ∧ s.counted = true then { s with counted := false }
      else if kind.gated = true ∧ s.gate = false then { s with counted := false }
      else { s with age := some (a + 1), counted := true }

section
variable {kind : Kind} {n : ℕ} {s : Shot}

theorem edge_load (h : s.pending = true) :
    s.edge kind n = { s with pending := false, age := some 0, counted := false } := if_pos h

theorem edge_none (h : s.pending = false) (hage : s.age = none) : s.edge kind n = s := by
  unfold edge
  rw [if_neg (by simp [h]), hage]

theorem edge_some (h : s.pending = false) {a : ℕ} (hage : s.age = some a) :
    s.edge kind n =
      if kind.strobe = true ∧ a = n ∧ s.counted = true then { s with counted := false }
      else if kind.gated = true ∧ s.gate = false then { s with counted := false }
      else { s with age := some (a + 1), counted := true } := by
  unfold edge
  rw [if_neg (by simp [h]), hage]

theorem edge_goes {a : ℕ} (ha : n ≤ a) (k : ℕ) :
    (edge kind n)^[k + 1] ⟨true, false, some a, false⟩ = ⟨true, false, some (a + k + 1), true⟩ := by
  induction k with
  | zero =>
    have hfirst := @edge_some kind n ⟨true, false, some a, false⟩ rfl a rfl
    exact hfirst.trans (by simp)
  | succ k ih =>
    have hpast : a + k + 1 ≠ n := by omega
    have hnext := @edge_some kind n ⟨true, false, some (a + k + 1), true⟩ rfl (a + k + 1) rfl
    rw [Function.iterate_succ_apply', ih]
    exact hnext.trans (by simp [hpast]; rfl)

end

def setGate (kind : Kind) (s : Shot) (level : Bool) : Shot :=
  { s with gate := level, pending := s.pending || (!kind.gated && !s.gate && level) }

/-- OUT, given what it was before the first load. -/
def shown (kind : Kind) (n : ℕ) (before : Bool) (s : Shot) : Bool :=
  match s.age with
  | none => before
  | some a => if kind.strobe then !(decide (a = n) && s.counted) else decide (n ≤ a)

def step (kind : Kind) (n : ℕ) (s : Shot) : ChannelOp → Shot
  | .tick => s.edge kind n
  | .gate level => s.setGate kind level
  | .program _ | .latch | .readBack _ | .write _ | .read => s

def run (kind : Kind) (n : ℕ) (s : Shot) (ops : List ChannelOp) : Shot := ops.foldl (step kind n) s

def Below (bound : ℕ) (s : Shot) : Prop := ∀ a, s.age = some a → a < bound

end Shot

def kindOf (mode : ℕ) : Kind := ⟨mode = 0 ∨ mode = 4, mode = 4 ∨ mode = 5⟩

def Single (mode : ℕ) : Prop := mode = 0 ∨ mode = 1 ∨ mode = 4 ∨ mode = 5

def Completes (c : Channel) : Prop := c.rwMode = 1 ∨ c.rwMode = 2 ∨ c.rwMode = 3 ∧ c.writePhase ≠ 0

/-- A count just written, or a trigger just given, with OUT as it is until the load. -/
inductive Begins : Channel → Shot → Bool → Prop where
  | count (d : Channel) (value : Byte) (hmode : d.mode = 0 ∨ d.mode = 4) (h : Completes d) :
      Begins (dataWrite d value) ⟨d.gate, true, none, false⟩ (dataWrite d value).output
  | first (d : Channel) (word : Byte) (bytes : List Byte) (register : ℕ) (hmode : modeOf word = 1 ∨ modeOf word = 5)
      (h : Expresses (rwOf word) bytes register) : Begins (programmed d word bytes) ⟨d.gate, false, none, false⟩ true
  | trigger (d : Channel) (hmode : d.mode = 1 ∨ d.mode = 5) (h : d.countRegister < 0x10000)
      (hstate : d.state ≠ .waitCount) (hgate : d.gate = false) :
      Begins (setGate d true) ⟨true, true, none, false⟩ d.output

/-- OUT is that of the shot all along the run. -/
def Matches (kind : Kind) (n : ℕ) (before : Bool) : Channel → Shot → List ChannelOp → Prop
  | c, s, [] => c.output = s.shown kind n before
  | c, s, op :: ops =>
    c.output = s.shown kind n before ∧ Matches kind n before (channelStep c op) (s.step kind n op) ops

def AllBelow (kind : Kind) (n bound : ℕ) : Shot → List ChannelOp → Prop
  | s, [] => s.Below bound
  | s, op :: ops => s.Below bound ∧ AllBelow kind n bound (s.step kind n op) ops

structure Struck (c c' : Channel) : Prop where
  config : configOf c' = configOf c
  element : c'.countingElement = reloadOf c.countRegister
  output : c'.output = (kindOf c.mode).strobe
  state : c'.state = .counting
  armed : c'.armed = c.armed

theorem load_single {c : Channel} (hmode : Single c.mode) : Struck c (loadCountingElement c) := by
  have hload : (if c.type = .i8254 ∧ c.mode = 3 ∧ c.countRegister % 2 = 1 then evenPart (reloadValue c)
      else reloadValue c) = reloadOf c.countRegister := by
    have hthree : c.mode ≠ 3 := by
      unfold Single at hmode
      omega
    exact if_neg fun h => hthree h.2.1
  have henter {d : Channel} (hd : d.mode = c.mode) :
      enterLoaded d = { setOutput d (kindOf c.mode).strobe with state := .counting } := by
    unfold enterLoaded
    rw [hd]
    rcases hmode with hm | hm | hm | hm
    · rw [hm]
      rfl
    · rw [hm]
      rfl
    · rw [hm]
      rfl
    · rw [hm]
      rfl
  obtain ⟨l, i, hl⟩ := load_eq c
  rw [hload] at hl
  rw [hl, henter (by rfl)]
  exact ⟨rfl, rfl, rfl, rfl, rfl⟩

def counted (c : Channel) (l : ℕ) : Channel :=
  { c with countingElement := decremented c.bcd c.countingElement, outputLatch := l }

@[simp] theorem counted_output (c : Channel) (l : ℕ) : (counted c l).output = c.output := rfl

@[simp] theorem counted_state (c : Channel) (l : ℕ) : (counted c l).state = c.state := rfl

@[simp] theorem counted_armed (c : Channel) (l : ℕ) : (counted c l).armed = c.armed := rfl

theorem countTick_single {c : Channel} (hmode : Single c.mode) (hstill : (kindOf c.mode).gated = true → c.gate = true) :
    ∃ l, countTick c =
      if visibleCount (decremented c.bcd c.countingElement) = 0 then
        if (kindOf c.mode).strobe then
          { counted c l with output := false, armed := if c.mode = 5 then false else c.armed, state := .strobeRecover }
        else if c.mode = 0 then { counted c l with output := true }
        else { counted c l with output := c.output || c.armed, armed := false }
      else counted c l := by
  obtain ⟨l, hl⟩ := decrement_eq c
  refine ⟨l, ?_⟩
  have hl' : decrement c = counted c l := hl
  unfold countTick
  dsimp only
  rw [hl']
  rcases hmode with hm | hm | hm | hm
  · have hgate := hstill (by rw [hm]; rfl)
    simp [hm, hgate, kindOf, counted, setOutput]
  · cases harmed : c.armed with
    | true => simp [hm, harmed, kindOf, counted, setOutput]
    | false => simp [hm, harmed, kindOf, counted]
  · have hgate := hstill (by rw [hm]; rfl)
    simp [hm, hgate, kindOf, counted, setOutput]
  · simp [hm, kindOf, counted, setOutput]

theorem countTick_still {c : Channel} (hgated : (kindOf c.mode).gated = true) (hgate : c.gate = false) :
    countTick c = c := by
  have hmode : c.mode = 0 ∨ c.mode = 4 := by simpa [kindOf] using hgated
  unfold countTick
  rcases hmode with hm | hm
  · simp [hm, hgate]
  · simp [hm, hgate]

def remains (n span a : ℕ) : ℕ := if a ≤ n then n - a else n + span - a

/-- A channel that is where the shot is. -/
structure Agrees (type : Chip) (bcd : Bool) (register mode : ℕ) (before : Bool) (c : Channel) (s : Shot) : Prop where
  config : configOf c = ⟨type, bcd, register, mode, s.gate⟩
  output : c.output = s.shown (kindOf mode) (periodOf bcd register) before
  pending : s.pending = true → c.state = .loadNext ∧ c.armed = true
  waits : s.pending = false → s.age = none → c.state = .waitTrigger
  counts : s.pending = false → ∀ a, s.age = some a →
    c.countingElement ≤ 0x10000 ∧
      (c.state =
        if (kindOf mode).strobe = true ∧ a = periodOf bcd register ∧ s.counted = true then .strobeRecover
        else .counting) ∧
      ((kindOf mode).strobe = true ∨ a < periodOf bcd register →
        value bcd c.countingElement = remains (periodOf bcd register) (span bcd) a) ∧
      (mode = 1 → c.armed = decide (a < periodOf bcd register))

section
variable {type : Chip} {bcd : Bool} {register mode : ℕ} {before : Bool}

theorem Agrees.of_bare {c c' : Channel} {s : Shot} (h : bare c = bare c')
    (hc : Agrees type bcd register mode before c s) : Agrees type bcd register mode before c' s := by
  have hconfig : configOf c = configOf c' := bare_congr configOf (fun _ => rfl) h
  have helement : c.countingElement = c'.countingElement := bare_congr Channel.countingElement (fun _ => rfl) h
  have hstate : c.state = c'.state := bare_congr Channel.state (fun _ => rfl) h
  have harmed : c.armed = c'.armed := bare_congr Channel.armed (fun _ => rfl) h
  have hout : c.output = c'.output := bare_congr Channel.output (fun _ => rfl) h
  refine ⟨hconfig ▸ hc.config, hout ▸ hc.output, ?_, ?_, ?_⟩
  · rw [← hstate, ← harmed]
    exact hc.pending
  · rw [← hstate]
    exact hc.waits
  · rw [← helement, ← hstate, ← harmed]
    exact hc.counts

theorem periodOf_pos (bcd : Bool) {register : ℕ} (h : register < 0x10000) : 0 < periodOf bcd register := by
  have hspan := span_pos bcd
  unfold periodOf reloadOf
  split_ifs with hzero
  · rw [value_full]
    omega
  · have := (value_zero bcd h).not.mpr hzero
    omega

theorem agrees_load (h : register < 0x10000) (hmode : Single mode) {c : Channel} {g : Bool}
    (hconfig : configOf c = ⟨type, bcd, register, mode, g⟩) (harmed : c.armed = true) :
    Agrees type bcd register mode before (loadCountingElement c) ⟨g, false, some 0, false⟩ := by
  have hm : c.mode = mode := congrArg Config.mode hconfig
  have hregister : c.countRegister = register := congrArg Config.register hconfig
  have hstruck := load_single (hm ▸ hmode)
  have hpos := periodOf_pos bcd h
  refine ⟨hstruck.config.trans hconfig, ?_, (nomatch ·), fun _ => (nomatch ·), ?_⟩
  · have hyoung : ¬ periodOf bcd register ≤ 0 := by omega
    rw [hstruck.output, hm]
    simp [Shot.shown, hyoung]
  · rintro - a ha
    cases ha
    rw [hstruck.element, hregister, hstruck.state, hstruck.armed]
    refine ⟨reloadOf_le h, ?_, fun _ => ?_, fun _ => ?_⟩
    · exact (if_neg (by simp)).symm
    · exact (if_pos (Nat.zero_le _)).symm
    · rw [harmed]
      exact (decide_eq_true hpos).symm

theorem agrees_waits {c : Channel} {s : Shot} (hc : Agrees type bcd register mode before c s)
    (hpending : s.pending = false) (hage : s.age = none) : Agrees type bcd register mode before (clockEdge c) s := by
  have hset (e : ℕ) : Agrees type bcd register mode before (setElement c e) s := by
    refine ⟨hc.config, hc.output, hc.pending, hc.waits, fun _ a ha => ?_⟩
    rw [hage] at ha
    cases ha
  unfold clockEdge
  rw [hc.waits hpending hage]
  dsimp only
  split_ifs
  · exact Agrees.of_bare (bare_updateLiveLatch _).symm (hset 3)
  · exact hc

theorem remains_next {n a : ℕ} (bcd : Bool) {element : ℕ} (h : element ≤ 0x10000)
    (hvalue : value bcd element = remains n (span bcd) a) (hin : a + 1 < n + span bcd) :
    value bcd (decremented bcd element) = remains n (span bcd) (a + 1) ∧
      (visibleCount (decremented bcd element) = 0 ↔ a + 1 = n) := by
  have hspan := span_pos bcd
  have hnext : value bcd (decremented bcd element) = remains n (span bcd) (a + 1) := by
    rw [value_decremented bcd h, hvalue]
    unfold remains
    split_ifs <;> omega
  rw [visible_zero bcd (decremented_lt bcd element), hnext]
  refine ⟨rfl, ?_⟩
  unfold remains
  split_ifs <;> omega

section
variable {c d : Channel} {s : Shot} {a : ℕ} (hc : Agrees type bcd register mode before c s)
  (hpending : s.pending = false) (hage : s.age = some a)
include hc hpending hage

theorem agrees_counted (hin : (kindOf mode).strobe = true → a + 1 < periodOf bcd register + span bcd)
    (hconfig : configOf d = ⟨type, bcd, register, mode, s.gate⟩)
    (helement : d.countingElement = decremented bcd c.countingElement)
    (hout : d.output = if (kindOf mode).strobe then !decide (a + 1 = periodOf bcd register)
      else decide (periodOf bcd register ≤ a + 1))
    (hstate : d.state = if (kindOf mode).strobe = true ∧ a + 1 = periodOf bcd register then .strobeRecover
      else .counting)
    (harmed : mode = 1 → d.armed = decide (a + 1 < periodOf bcd register)) :
    Agrees type bcd register mode before d { s with age := some (a + 1), counted := true } := by
  have hspan := span_pos bcd
  obtain ⟨hfits, -, hvalue, -⟩ := hc.counts hpending a hage
  refine ⟨hconfig, ?_, fun hp => ?_, fun _ => (nomatch ·), fun _ b hb => ?_⟩
  · rw [hout]
    simp [Shot.shown]
  · rw [hpending] at hp
    cases hp
  · cases hb
    rw [helement, hstate]
    refine ⟨Nat.le_of_lt (decremented_lt bcd _), by simp, fun hknown => ?_, harmed⟩
    have hbound : a + 1 < periodOf bcd register + span bcd := by
      rcases hknown with hs | ha
      · exact hin hs
      · omega
    exact (remains_next bcd hfits (hvalue (hknown.imp_right fun ha => Nat.lt_of_succ_lt ha)) hbound).1

theorem strobe_counts (hmode : mode = 4 ∨ mode = 5) (hstate : c.state = .counting)
    (hstill : (kindOf mode).gated = true → c.gate = true) (hin : a + 1 < periodOf bcd register + span bcd) :
    Agrees type bcd register mode before (countTick c) { s with age := some (a + 1), counted := true } := by
  have hs : (kindOf mode).strobe = true := by simpa [kindOf] using hmode
  have hm : c.mode = mode := congrArg Config.mode hc.config
  have hbcd : c.bcd = bcd := congrArg Config.bcd hc.config
  have hone : mode ≠ 1 := by omega
  have hsingle : Single c.mode := by
    rw [hm]
    exact .inr (.inr hmode)
  obtain ⟨hfits, hat, hvalue, -⟩ := hc.counts hpending a hage
  obtain ⟨-, hends⟩ := remains_next bcd hfits (hvalue (.inl hs)) hin
  have hhigh : c.output = true := by
    have hout := hc.output
    simp only [Shot.shown, hage, hs, if_true] at hout
    rw [hstate, hs] at hat
    rw [hout]
    by_contra hlow
    rw [if_pos (by simpa using hlow)] at hat
    cases hat
  obtain ⟨l, hl⟩ := countTick_single hsingle (hm ▸ hstill)
  have helement : (counted c l).countingElement = decremented bcd c.countingElement := by
    rw [← hbcd]
    rfl
  rw [hl, hm, hbcd]
  by_cases hterminal : visibleCount (decremented bcd c.countingElement) = 0
  · have ha := hends.mp hterminal
    rw [if_pos hterminal, if_pos hs]
    refine agrees_counted hc hpending hage (fun _ => hin) hc.config helement ?_ ?_ fun hm1 => absurd hm1 hone
    · simp [hs, ha]
    · simp [hs, ha]
  · have ha := mt hends.mpr hterminal
    rw [if_neg hterminal]
    refine agrees_counted hc hpending hage (fun _ => hin) hc.config helement ?_ ?_ fun hm1 => absurd hm1 hone
    · simpa [hs, ha] using hhigh
    · simpa [hs, ha] using hstate

theorem level_counts (hmode : mode = 0 ∨ mode = 1) (hstate : c.state = .counting)
    (hstill : (kindOf mode).gated = true → c.gate = true) :
    Agrees type bcd register mode before (countTick c) { s with age := some (a + 1), counted := true } := by
  have hspan := span_pos bcd
  have hs : (kindOf mode).strobe = false := by
    rcases hmode with rfl | rfl <;> rfl
  have hm : c.mode = mode := congrArg Config.mode hc.config
  have hbcd : c.bcd = bcd := congrArg Config.bcd hc.config
  have hsingle : Single c.mode := by
    rw [hm]
    exact hmode.elim .inl fun h => .inr (.inl h)
  obtain ⟨hfits, -, hvalue, harmed⟩ := hc.counts hpending a hage
  have hout := hc.output
  simp only [Shot.shown, hage, hs] at hout
  rw [if_neg Bool.false_ne_true] at hout
  obtain ⟨l, hl⟩ := countTick_single hsingle (hm ▸ hstill)
  have helement : (counted c l).countingElement = decremented bcd c.countingElement := by
    rw [← hbcd]
    rfl
  have hlevel : (counted c l).state =
      if (kindOf mode).strobe = true ∧ a + 1 = periodOf bcd register then .strobeRecover else .counting := by
    rw [hs]
    exact hstate.trans (if_neg (nomatch ·.1)).symm
  have hbound : (kindOf mode).strobe = true → a + 1 < periodOf bcd register + span bcd := by
    rw [hs]
    exact (nomatch ·)
  have hends (ha : a < periodOf bcd register) := (remains_next bcd hfits (hvalue (.inr ha)) (by omega)).2
  rw [hl, hm, hbcd]
  by_cases hterminal : visibleCount (decremented bcd c.countingElement) = 0
  · have hdone : periodOf bcd register ≤ a + 1 := by
      by_contra hmore
      have := (hends (by omega)).mp hterminal
      omega
    rw [if_pos hterminal, hs, if_neg Bool.false_ne_true]
    rcases hmode with rfl | rfl
    · rw [if_pos rfl]
      refine agrees_counted hc hpending hage hbound hc.config helement ?_ hlevel (nomatch ·)
      simp [hs, hdone]
    · rw [if_neg Nat.one_ne_zero]
      refine agrees_counted hc hpending hage hbound hc.config helement ?_ hlevel fun _ => ?_
      · rw [hs, hout, harmed rfl]
        by_cases ha : a < periodOf bcd register
        · simp [ha, hdone]
        · simp [Nat.not_lt.mp ha, hdone]
      · simpa using hdone
  · rw [if_neg hterminal]
    by_cases ha : a < periodOf bcd register
    · have hmore := mt (hends ha).mpr hterminal
      have hyoung : ¬ periodOf bcd register ≤ a + 1 := by omega
      have hyoung' : ¬ periodOf bcd register ≤ a := by omega
      refine agrees_counted hc hpending hage hbound hc.config helement ?_ hlevel fun hm1 => ?_
      · rw [hs]
        simpa [hyoung, hyoung'] using hout
      · have hmore' : a + 1 < periodOf bcd register := by omega
        simp [harmed hm1, ha, hmore']
    · have hold : periodOf bcd register ≤ a := Nat.not_lt.mp ha
      have hold' : periodOf bcd register ≤ a + 1 := by omega
      refine agrees_counted hc hpending hage hbound hc.config helement ?_ hlevel fun hm1 => ?_
      · rw [hs]
        simpa [hold, hold'] using hout
      · have hover : ¬ a + 1 < periodOf bcd register := by omega
        simp [harmed hm1, ha, hover]

theorem strobe_recovers (hs : (kindOf mode).strobe = true) (ha : a = periodOf bcd register)
    (hcounted : s.counted = true) :
    Agrees type bcd register mode before (clockEdge c) { s with counted := false } := by
  obtain ⟨hfits, hat, hvalue, harmed⟩ := hc.counts hpending a hage
  rw [if_pos ⟨hs, ha, hcounted⟩] at hat
  have hrecovers : clockEdge c = { setOutput c true with state := .counting } := by
    unfold clockEdge
    rw [hat]
  rw [hrecovers]
  refine ⟨hc.config, ?_, fun hp => ?_, fun _ h => ?_, fun _ b hb => ?_⟩
  · simp [Shot.shown, hage, hs, setOutput]
  · exact absurd (hpending.symm.trans hp) Bool.false_ne_true
  · exact absurd (hage.symm.trans h) (Option.some_ne_none _)
  · cases hage.symm.trans hb
    exact ⟨hfits, by simp, hvalue, harmed⟩

theorem still_edge (hstate : c.state = .counting) (hgated : (kindOf mode).gated = true) (hgate : s.gate = false) :
    Agrees type bcd register mode before (clockEdge c) { s with counted := false } := by
  have hm : c.mode = mode := congrArg Config.mode hc.config
  have hlow : c.gate = false := (congrArg Config.gate hc.config).trans hgate
  obtain ⟨hfits, hat, hvalue, harmed⟩ := hc.counts hpending a hage
  rw [clockEdge_counting hstate, countTick_still (hm ▸ hgated) hlow]
  refine ⟨hc.config, ?_, fun hp => ?_, fun _ h => ?_, fun _ b hb => ?_⟩
  · have hout := hc.output
    simp only [Shot.shown, hage] at hout ⊢
    rw [hout]
    cases hs : (kindOf mode).strobe with
    | false => rfl
    | true =>
      rw [hstate, hs] at hat
      by_cases hlast : a = periodOf bcd register ∧ s.counted = true
      · rw [if_pos ⟨rfl, hlast⟩] at hat
        cases hat
      · simpa [imp_iff_not_or] using hlast
  · exact absurd (hpending.symm.trans hp) Bool.false_ne_true
  · exact absurd (hage.symm.trans h) (nomatch ·)
  · cases hage.symm.trans hb
    exact ⟨hfits, by simpa using hstate, hvalue, harmed⟩

theorem second_strobe (hmode : mode = 4 ∨ mode = 5) (hstill : (kindOf mode).gated = true → c.gate = true)
    (hround : a + 1 = periodOf bcd register + span bcd) : (countTick c).output = false := by
  have hspan := span_pos bcd
  have hs : (kindOf mode).strobe = true := by simpa [kindOf] using hmode
  have hm : c.mode = mode := congrArg Config.mode hc.config
  have hbcd : c.bcd = bcd := congrArg Config.bcd hc.config
  have hsingle : Single c.mode := by
    rw [hm]
    exact .inr (.inr hmode)
  obtain ⟨hfits, -, hvalue, -⟩ := hc.counts hpending a hage
  have hone := hvalue (.inl hs)
  have hlast : value bcd (decremented bcd c.countingElement) = 0 := by
    rw [value_decremented bcd hfits, hone]
    unfold remains
    split_ifs <;> omega
  obtain ⟨l, hl⟩ := countTick_single hsingle (hm ▸ hstill)
  rw [hl, hm, hbcd, if_pos ((visible_zero bcd (decremented_lt bcd _)).mpr hlast), if_pos hs]

end

theorem agrees_edge (h : register < 0x10000) (hmode : Single mode) {c : Channel} {s : Shot}
    (hc : Agrees type bcd register mode before c s)
    (hbelow : (kindOf mode).strobe = true →
      (s.edge (kindOf mode) (periodOf bcd register)).Below (periodOf bcd register + span bcd)) :
    Agrees type bcd register mode before (clockEdge c) (s.edge (kindOf mode) (periodOf bcd register)) := by
  have hgate : c.gate = s.gate := congrArg Config.gate hc.config
  by_cases hp : s.pending = true
  · obtain ⟨hstate, harmed⟩ := hc.pending hp
    rw [clockEdge_load (.inl hstate), Shot.edge_load hp]
    exact agrees_load h hmode hc.config harmed
  · have hpending : s.pending = false := by simpa using hp
    rcases hage : s.age with _ | a
    · rw [Shot.edge_none hpending hage]
      exact agrees_waits hc hpending hage
    · rw [Shot.edge_some hpending hage] at hbelow ⊢
      by_cases hlast : (kindOf mode).strobe = true ∧ a = periodOf bcd register ∧ s.counted = true
      · rw [if_pos hlast]
        exact strobe_recovers hc hpending hage hlast.1 hlast.2.1 hlast.2.2
      · have hstate : c.state = .counting := (hc.counts hpending a hage).2.1.trans (if_neg hlast)
        rw [if_neg hlast] at hbelow ⊢
        by_cases hoff : (kindOf mode).gated = true ∧ s.gate = false
        · rw [if_pos hoff]
          exact still_edge hc hpending hage hstate hoff.1 hoff.2
        · have hstill : (kindOf mode).gated = true → c.gate = true := by
            intro hgated
            rw [hgate]
            simpa [hgated] using hoff
          rw [if_neg hoff] at hbelow ⊢
          rw [clockEdge_counting hstate]
          have hkinds : (mode = 0 ∨ mode = 1) ∨ (mode = 4 ∨ mode = 5) := by
            unfold Single at hmode
            omega
          rcases hkinds with hlevel | hstrobe
          · exact level_counts hc hpending hage hlevel hstate hstill
          · have hs : (kindOf mode).strobe = true := by simpa [kindOf] using hstrobe
            exact strobe_counts hc hpending hage hstrobe hstate hstill (hbelow hs _ rfl)

theorem edge_broken {c : Channel} {s : Shot} (hc : Agrees type bcd register mode before c s)
    (hstrobe : (kindOf mode).strobe = true) (hbelow : s.Below (periodOf bcd register + span bcd))
    (hround : ¬ (s.edge (kindOf mode) (periodOf bcd register)).Below (periodOf bcd register + span bcd)) :
    (clockEdge c).output ≠
      (s.edge (kindOf mode) (periodOf bcd register)).shown (kindOf mode) (periodOf bcd register) before := by
  have hspan := span_pos bcd
  have hgate : c.gate = s.gate := congrArg Config.gate hc.config
  have hlate : mode = 4 ∨ mode = 5 := by simpa [kindOf] using hstrobe
  by_cases hp : s.pending = true
  · refine absurd (fun a ha => ?_) hround
    rw [Shot.edge_load hp] at ha
    cases ha
    omega
  · have hpending : s.pending = false := by simpa using hp
    rcases hage : s.age with _ | a
    · rw [Shot.edge_none hpending hage] at hround
      exact absurd hbelow hround
    · rw [Shot.edge_some hpending hage] at hround ⊢
      have ha := hbelow a hage
      by_cases hlast : (kindOf mode).strobe = true ∧ a = periodOf bcd register ∧ s.counted = true
      · rw [if_pos hlast] at hround
        exact absurd hbelow hround
      · have hstate : c.state = .counting := (hc.counts hpending a hage).2.1.trans (if_neg hlast)
        rw [if_neg hlast] at hround ⊢
        by_cases hoff : (kindOf mode).gated = true ∧ s.gate = false
        · rw [if_pos hoff] at hround
          exact absurd hbelow hround
        · have hstill : (kindOf mode).gated = true → c.gate = true := by
            intro hgated
            rw [hgate]
            simpa [hgated] using hoff
          rw [if_neg hoff] at hround ⊢
          have hlow : a + 1 = periodOf bcd register + span bcd := by
            by_contra hne
            refine hround fun b hb => ?_
            cases hb
            omega
          have hagain : a + 1 ≠ periodOf bcd register := by omega
          rw [clockEdge_counting hstate, second_strobe hc hpending hage hlate hstill hlow]
          simp [Shot.shown, hstrobe, hagain]

theorem agrees_gate (hmode : Single mode) {c : Channel} {s : Shot} (hc : Agrees type bcd register mode before c s)
    (level : Bool) : Agrees type bcd register mode before (setGate c level) (s.setGate (kindOf mode) level) := by
  have hgate : c.gate = s.gate := congrArg Config.gate hc.config
  have hm : c.mode = mode := congrArg Config.mode hc.config
  have hconfig : configOf { c with gate := level } = ⟨type, bcd, register, mode, level⟩ := by
    have hall := hc.config
    unfold configOf at hall ⊢
    rw [Config.mk.injEq] at hall ⊢
    exact ⟨hall.1, hall.2.1, hall.2.2.1, hall.2.2.2.1, rfl⟩
  have hstarted : c.state ≠ .waitCount := by
    by_cases hp : s.pending = true
    · simp [(hc.pending hp).1]
    · have hpending : s.pending = false := by simpa using hp
      rcases hage : s.age with _ | a
      · simp [hc.waits hpending hage]
      · rw [(hc.counts hpending a hage).2.1]
        split_ifs <;> simp
  by_cases htrigger : (kindOf mode).gated = false ∧ s.gate = false ∧ level = true
  · obtain ⟨hhard, hlow, rfl⟩ := htrigger
    have hlate : mode = 1 ∨ mode = 5 := by
      unfold Single at hmode
      have hsoft : ¬(mode = 0 ∨ mode = 4) := by simpa [kindOf] using hhard
      omega
    have hrise : setGate c true = { c with gate := true, armed := true, state := .loadNext } := by
      unfold setGate
      rcases hlate with hm1 | hm5
      · simp [hm, hm1, hgate, hlow, hstarted]
      · simp [hm, hm5, hgate, hlow, hstarted]
    have hpends : s.setGate (kindOf mode) true = { s with gate := true, pending := true } := by
      simp [Shot.setGate, hhard, hlow]
    rw [hrise, hpends]
    exact ⟨hconfig, hc.output, fun _ => ⟨rfl, rfl⟩, (nomatch ·), (nomatch ·)⟩
  · have hsame : setGate c level = { c with gate := level } := by
      have hquiet : (kindOf mode).gated = false → ¬(c.gate = false ∧ level = true) := fun hhard h =>
        htrigger ⟨hhard, hgate.symm.trans h.1, h.2⟩
      unfold setGate
      dsimp only
      rw [hm]
      rcases hmode with rfl | rfl | rfl | rfl
      · simp
      · rw [if_neg (hquiet rfl)]
        simp
      · simp
      · rw [if_neg (hquiet rfl)]
        simp
    have hpends : s.setGate (kindOf mode) level = { s with gate := level } := by
      unfold Shot.setGate
      by_cases hhard : (kindOf mode).gated = true
      · simp [hhard]
      · have hsoft : (kindOf mode).gated = false := by simpa using hhard
        cases hlow : s.gate with
        | true => simp
        | false =>
          cases level with
          | false => simp
          | true => exact absurd ⟨hsoft, hlow, rfl⟩ htrigger
    rw [hsame, hpends]
    exact ⟨hconfig, hc.output, hc.pending, hc.waits, hc.counts⟩

end

theorem finalize_soft {c : Channel} (hmode : c.mode = 0 ∨ c.mode = 4) :
    ∃ i, finalizeWrite c =
      { c with nullCount := true, armed := true, initialLoad := false, incompleteReload := i, state := .loadNext } := by
  have h2 : c.mode ≠ 2 := by omega
  have h3 : c.mode ≠ 3 := by omega
  have hhard : ¬(c.mode = 1 ∨ c.mode = 5) := by omega
  have hsoft : c.incompleteReload = true ∨ c.mode = 0 ∨ c.mode = 4 := .inr hmode
  unfold finalizeWrite
  rw [if_neg h2, if_neg h3, ite_self]
  dsimp only
  cases hfirst : c.initialLoad with
  | true =>
    refine ⟨c.incompleteReload, ?_⟩
    rw [if_pos rfl, if_neg hhard]
  | false =>
    refine ⟨false, ?_⟩
    rw [if_neg Bool.false_ne_true, if_pos hsoft]

theorem finalize_hard {c : Channel} (hmode : c.mode = 1 ∨ c.mode = 5) (hfirst : c.initialLoad = true) :
    finalizeWrite c = { c with nullCount := true, armed := true, initialLoad := false, state := .waitTrigger } := by
  have h2 : c.mode ≠ 2 := by omega
  have h3 : c.mode ≠ 3 := by omega
  unfold finalizeWrite
  rw [if_neg h2, if_neg h3, ite_self]
  dsimp only
  rw [if_pos hfirst, if_pos hmode]

theorem dataWrite_completes {c : Channel} (h : Completes c) (value : Byte) :
    ∃ r phase, r < 0x10000 ∧ dataWrite c value = finalizeWrite { c with countRegister := r, writePhase := phase } := by
  have hvalue := value.isLt
  rcases h with hrw | hrw | ⟨hrw, hphase⟩
  · exact ⟨value.toNat, c.writePhase, by omega, dataWrite_low value hrw⟩
  · exact ⟨value.toNat * 0x100, c.writePhase, by omega, dataWrite_high value hrw⟩
  · exact ⟨_, 0, by omega, dataWrite_second value hrw hphase⟩

theorem Begins.agrees {c : Channel} {s : Shot} {before : Bool} (h : Begins c s before) :
    Single c.mode ∧ c.countRegister < 0x10000 ∧ s.age = none ∧
      Agrees c.type c.bcd c.countRegister c.mode before c s := by
  cases h with
  | count d value hmode hcompletes =>
    obtain ⟨r, phase, hr, hwrite⟩ := dataWrite_completes hcompletes value
    obtain ⟨i, hi⟩ := @finalize_soft { d with countRegister := r, writePhase := phase } hmode
    rw [hwrite, hi]
    exact ⟨hmode.elim .inl fun hm => .inr (.inr (.inl hm)), hr, rfl, rfl, rfl, fun _ => ⟨rfl, rfl⟩, (nomatch ·),
      (nomatch ·)⟩
  | first d word bytes register hmode hbytes =>
    have hhard := @finalize_hard { programMode d word with countRegister := register } hmode rfl
    have hhigh : (programMode d word).output = true := by
      change (modeOf word != 0) = true
      rcases hmode with hm | hm
      · rw [hm]
        rfl
      · rw [hm]
        rfl
    rw [programmed_eq d word hbytes, hhard]
    exact ⟨.inr (hmode.elim .inl fun hm => .inr (.inr hm)), expresses_lt hbytes, rfl, rfl, hhigh, (nomatch ·),
      fun _ _ => rfl, fun _ a ha => nomatch (ha : none = some a)⟩
  | trigger d hmode hr hstate hgate =>
    have hrise : setGate d true = { d with gate := true, armed := true, state := .loadNext } := by
      unfold setGate
      rcases hmode with hm | hm
      · simp [hm, hgate, hstate]
      · simp [hm, hgate, hstate]
    rw [hrise]
    exact ⟨.inr (hmode.elim .inl fun hm => .inr (.inr hm)), hr, rfl, rfl, rfl, fun _ => ⟨rfl, rfl⟩, (nomatch ·),
      (nomatch ·)⟩

theorem Matches.head {kind : Kind} {n : ℕ} {before : Bool} {c : Channel} {s : Shot} {ops : List ChannelOp}
    (h : Matches kind n before c s ops) : c.output = s.shown kind n before := by
  cases ops with
  | nil => exact h
  | cons op ops => exact h.1

theorem AllBelow.head {kind : Kind} {n bound : ℕ} {s : Shot} {ops : List ChannelOp}
    (h : AllBelow kind n bound s ops) : s.Below bound := by
  cases ops with
  | nil => exact h
  | cons op ops => exact h.1

theorem AllBelow.ticks {kind : Kind} {n bound : ℕ} {s : Shot} {k : ℕ}
    (h : AllBelow kind n bound s (List.replicate k .tick)) : ((Shot.edge kind n)^[k] s).Below bound := by
  induction k generalizing s with
  | zero => exact h
  | succ k ih => exact ih h.2

section
variable {type : Chip} {bcd : Bool} {register mode : ℕ} {before : Bool}

theorem agrees_step (h : register < 0x10000) (hmode : Single mode) {c : Channel} {s : Shot}
    (hc : Agrees type bcd register mode before c s) {op : ChannelOp} (hop : Unwritten op)
    (hbelow : (kindOf mode).strobe = true →
      (s.step (kindOf mode) (periodOf bcd register) op).Below (periodOf bcd register + span bcd)) :
    Agrees type bcd register mode before (channelStep c op) (s.step (kindOf mode) (periodOf bcd register) op) := by
  cases op with
  | tick =>
    have hlater : Agrees type bcd register mode before { c with clocks := c.clocks + 1 } s :=
      Agrees.of_bare (by rfl) hc
    exact agrees_edge h hmode hlater hbelow
  | gate level => exact agrees_gate hmode hc level
  | latch => exact hc.of_bare (bare_latchCount c).symm
  | readBack value => exact hc.of_bare (bare_readBack value c).symm
  | read => exact hc.of_bare (bare_dataRead c).symm
  | program word => exact absurd hop id
  | write value => exact absurd hop id

theorem agrees_run (h : register < 0x10000) (hmode : Single mode) {c : Channel} {s : Shot}
    (hc : Agrees type bcd register mode before c s) {ops : List ChannelOp} (hops : ∀ op ∈ ops, Unwritten op)
    (hbelow : (kindOf mode).strobe = true → s.Below (periodOf bcd register + span bcd)) :
    Matches (kindOf mode) (periodOf bcd register) before c s ops ↔
      ((kindOf mode).strobe = true →
        AllBelow (kindOf mode) (periodOf bcd register) (periodOf bcd register + span bcd) s ops) := by
  induction ops generalizing c s with
  | nil => exact ⟨fun _ => hbelow, fun _ => hc.output⟩
  | cons op ops ih =>
    have hop := hops op List.mem_cons_self
    have hrest : ∀ o ∈ ops, Unwritten o := fun o ho => hops o (List.mem_cons_of_mem op ho)
    by_cases hgoes : (kindOf mode).strobe = true →
        (s.step (kindOf mode) (periodOf bcd register) op).Below (periodOf bcd register + span bcd)
    · have hrun := ih (agrees_step h hmode hc hop hgoes) hrest hgoes
      exact ⟨fun hm hs => ⟨hbelow hs, hrun.mp hm.2 hs⟩, fun hb => ⟨hc.output, hrun.mpr fun hs => (hb hs).2⟩⟩
    · obtain ⟨hs, hround⟩ := Classical.not_imp.mp hgoes
      have hbroken : (channelStep c op).output ≠
          (s.step (kindOf mode) (periodOf bcd register) op).shown (kindOf mode) (periodOf bcd register) before := by
        cases op with
        | tick =>
          have hlater : Agrees type bcd register mode before { c with clocks := c.clocks + 1 } s :=
            Agrees.of_bare (by rfl) hc
          exact edge_broken hlater hs (hbelow hs) hround
        | gate level => exact absurd (hbelow hs) hround
        | latch => exact absurd (hbelow hs) hround
        | readBack value => exact absurd (hbelow hs) hround
        | read => exact absurd (hbelow hs) hround
        | program word => exact absurd hop id
        | write value => exact absurd hop id
      exact ⟨fun hm => absurd hm.2.head hbroken, fun hb => absurd (hb hs).2.head hround⟩

end

/-- A decimal count of one in mode 4 on an 8254. -/
def strobed : Channel := programmed (setGate (resetChannel .i8254) true) 0x39 [1, 0]

theorem strobed_begins : Begins strobed ⟨true, true, none, false⟩ true :=
  .count (dataWrite (programMode (setGate (resetChannel .i8254) true) 0x39) 1) 0 (.inr (by decide +kernel))
    (.inr (.inr (by decide +kernel)))

/-- A load, a count, the end of the strobe, and ten thousand counts. -/
theorem strobed_again :
    Begins strobed ⟨true, true, none, false⟩ true ∧
      ¬ Matches (kindOf 4) 1 true strobed ⟨true, true, none, false⟩ (List.replicate 10003 .tick) := by
  have hperiod : periodOf strobed.bcd strobed.countRegister = 1 := by decide +kernel
  have hspan : span strobed.bcd = 10000 := by decide +kernel
  have hmode : strobed.mode = 4 := by decide +kernel
  obtain ⟨hsingle, hr, -, hagrees⟩ := strobed_begins.agrees
  have hiff := @agrees_run _ _ _ _ _ hr hsingle _ _ hagrees (List.replicate 10003 .tick)
    (fun op hop => by rw [List.eq_of_mem_replicate hop]; trivial) fun _ a ha => nomatch (ha : none = some a)
  rw [hperiod, hspan, hmode] at hiff
  refine ⟨strobed_begins, fun hmatches => ?_⟩
  have hbelow := (hiff.mp hmatches rfl).ticks
  have hthree : (Shot.edge (kindOf 4) 1)^[3] ⟨true, true, none, false⟩ = ⟨true, false, some 1, false⟩ := rfl
  have hround : (Shot.edge (kindOf 4) 1)^[9999 + 1 + 3] ⟨true, true, none, false⟩ =
      ⟨true, false, some (1 + 9999 + 1), true⟩ := by
    rw [Function.iterate_add_apply, hthree]
    exact Shot.edge_goes (Nat.le_refl 1) 9999
  have hage := congrArg Shot.age hround
  exact absurd (hbelow _ hage) (by decide)

/-- One event for a count or a trigger: always in modes 0 and 1, and in modes 4 and 5 in the runs in which the counts
after a load come to less than a round more than the count. -/
theorem one_event {c : Channel} {s : Shot} {before : Bool} (h : Begins c s before) {ops : List ChannelOp}
    (hops : ∀ op ∈ ops, Unwritten op) :
    Matches (kindOf c.mode) (periodOf c.bcd c.countRegister) before c s ops ↔
      (c.mode = 4 ∨ c.mode = 5 →
        AllBelow (kindOf c.mode) (periodOf c.bcd c.countRegister) (periodOf c.bcd c.countRegister + span c.bcd) s
          ops) := by
  obtain ⟨hsingle, hr, hage, hagrees⟩ := h.agrees
  have hstrobe : (kindOf c.mode).strobe = true ↔ c.mode = 4 ∨ c.mode = 5 := by simp [kindOf]
  have hfresh : s.Below (periodOf c.bcd c.countRegister + span c.bcd) := fun a ha => by
    rw [hage] at ha
    cases ha
  rw [agrees_run hr hsingle hagrees hops fun _ => hfresh, hstrobe]

theorem one_event_triggered :
    let c := programmed (resetChannel .i8253) 0x32 [2, 0]
    Matches (kindOf c.mode) (periodOf c.bcd c.countRegister) true c ⟨false, false, none, false⟩
      [.tick, .gate true, .tick, .latch, .tick, .gate false, .tick, .tick] := by
  have hbegins := Begins.first (resetChannel .i8253) 0x32 [2, 0] 2 (.inl (by decide +kernel))
    (.inr (.inr ⟨by decide +kernel, 2, 0, rfl, rfl⟩))
  have hops : ∀ op ∈ [.tick, .gate true, .tick, .latch, .tick, .gate false, .tick, ChannelOp.tick], Unwritten op := by
    simp [Unwritten]
  exact (one_event hbegins hops).mpr fun hmode => absurd hmode (by decide +kernel)

end PeepeeBox.PitEvents
