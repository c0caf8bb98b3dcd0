import PeepeeBox.PitRecount

set_option autoImplicit false

/-!
# GATE and the periodic modes

In modes 2 and 3 a low GATE holds OUT high and stops the count, and a rise starts the counter as if it had just been
programmed, unless GATE fell on the very edge that an 8254 had left its toggle to.
-/
namespace PeepeeBox.PitGate
open Pit PitCounts PitSquare PitRuns PitPeriod PitRecount

/-- A counter just programmed with the count that `c` has. -/
def Fresh (c f : Channel) : Prop :=
  (∃ d word bytes register, f = programmed d word bytes ∧ Expresses (rwOf word) bytes register) ∧
    configOf f = { configOf c with gate := true }

def freshElement (c : Channel) : ℕ := if c.mode = 3 then loadedOf c.type c.countRegister else reloadOf c.countRegister

def Still (c : Channel) : Prop :=
  ∀ ops, (∀ op ∈ ops, Idle op) → (channelRun c ops).output = true ∧
    ((channelRun c ops).countingElement = c.countingElement ∨
      c.state = .loadNext ∧ (channelRun c ops).countingElement = freshElement c)

def InPhase (c : Channel) : Prop :=
  (tickChannel (setGate c true)).output = true ∧
    ∀ f, Fresh c f → ∀ ops, (∀ op ∈ ops, Idle op) → 1 ≤ ticks ops →
      (channelRun (setGate c true) ops).output = (tickChannel^[ticks ops] f).output ∧
        visibleCount (channelRun (setGate c true) ops).countingElement =
          visibleCount (tickChannel^[ticks ops] f).countingElement

/-- What holds of a programmed channel while its GATE is low. -/
def Holds (c : Channel) : Prop := c.initialLoad = false → c.gate = false → Still c ∧ InPhase c

/-- GATE falls while a toggle is left to the next edge. -/
def FallsDeferred (c : Channel) (op : ChannelOp) : Prop :=
  op = .gate false ∧ c.gate = true ∧ c.toggleOnReload = true

def Always (p : Channel → Prop) : Channel → List ChannelOp → Prop
  | c, [] => p c
  | c, op :: ops => p c ∧ Always p (channelStep c op) ops

def Undisturbed : Channel → List ChannelOp → Prop
  | _, [] => True
  | c, op :: ops => ¬ FallsDeferred c op ∧ Undisturbed (channelStep c op) ops

instance (c : Channel) (op : ChannelOp) : Decidable (FallsDeferred c op) := inferInstanceAs (Decidable (_ ∧ _))

instance decidableUndisturbed : ∀ c ops, Decidable (Undisturbed c ops)
  | _, [] => .isTrue trivial
  | c, op :: ops =>
    have := decidableUndisturbed (channelStep c op) ops
    inferInstanceAs (Decidable (_ ∧ _))

/-- A channel in mode 2 or 3 whose GATE has never fallen on a deferred toggle. -/
structure Calm (c : Channel) : Prop where
  mode : c.mode = 2 ∨ c.mode = 3
  stage :
    c.initialLoad = true ∧ c.state = .waitCount ∨
      c.initialLoad = false ∧ c.armed = true ∧
        (c.state = .loadNext ∨ c.state = .waitGate ∨ (c.state = .counting ∨ c.state = .reloadNext) ∧ c.gate = true)
  toggle : c.toggleOnReload = true → c.mode = 3 ∧ c.gate = true ∧ c.initialLoad = false
  low : c.gate = false → c.output = true

theorem Calm.of_bare {c c' : Channel} (h : bare c = bare c') (hc : Calm c) : Calm c' := by
  have hmode : c.mode = c'.mode := bare_congr Channel.mode (fun _ => rfl) h
  have hinitial : c.initialLoad = c'.initialLoad := bare_congr Channel.initialLoad (fun _ => rfl) h
  have harmed : c.armed = c'.armed := bare_congr Channel.armed (fun _ => rfl) h
  have htoggle : c.toggleOnReload = c'.toggleOnReload := bare_congr Channel.toggleOnReload (fun _ => rfl) h
  have hstate : c.state = c'.state := bare_congr Channel.state (fun _ => rfl) h
  have hgate : c.gate = c'.gate := bare_congr Channel.gate (fun _ => rfl) h
  have hout : c.output = c'.output := bare_congr Channel.output (fun _ => rfl) h
  refine ⟨hmode ▸ hc.mode, ?_, ?_, ?_⟩
  · rw [← hinitial, ← harmed, ← hstate, ← hgate]
    exact hc.stage
  · rw [← htoggle, ← hmode, ← hgate, ← hinitial]
    exact hc.toggle
  · rw [← hgate, ← hout]
    exact hc.low

theorem Calm.written {c c' : Channel} (hc : Calm c) (h : Written c c') : Calm c' := by
  have hmode : c'.mode = c.mode := congrArg Config.mode h.config
  have hgate : c'.gate = c.gate := congrArg Config.gate h.config
  refine ⟨hmode ▸ hc.mode, ?_, ?_, ?_⟩
  · rcases h.complete with ⟨hinitial, harmed, hstate⟩ | ⟨hinitial, harmed, hstate⟩
    · rw [hinitial, harmed, hstate, hgate]
      exact hc.stage
    · refine .inr ⟨hinitial, harmed, ?_⟩
      rcases hstate with hstate | ⟨hlater, hstate⟩
      · exact .inl hstate
      · rcases hc.stage with ⟨hfirst, -⟩ | ⟨-, -, hstage⟩
        · rw [hlater] at hfirst
          cases hfirst
        · rw [hstate, hgate]
          exact hstage
  · rw [h.toggle, hmode, hgate]
    intro htoggle
    obtain ⟨hthree, hhigh, hinitial⟩ := hc.toggle htoggle
    refine ⟨hthree, hhigh, ?_⟩
    rcases h.complete with ⟨hsame, -, -⟩ | ⟨hdone, -, -⟩
    · exact hsame.trans hinitial
    · exact hdone
  · rw [hgate, h.output]
    exact hc.low

theorem Calm.started {c : Channel} (hc : Calm c) (hstate : c.state ≠ .waitCount) :
    c.initialLoad = false ∧ c.armed = true := by
  rcases hc.stage with ⟨-, hwaits⟩ | ⟨hinitial, harmed, -⟩
  · exact absurd hwaits hstate
  · exact ⟨hinitial, harmed⟩

theorem Calm.ready {c : Channel} (hc : Calm c) (hinitial : c.initialLoad = false) : c.state ≠ .waitCount := by
  rcases hc.stage with ⟨hfirst, -⟩ | ⟨-, -, hs | hs | ⟨hs | hs, -⟩⟩
  · rw [hinitial] at hfirst
    cases hfirst
  · simp [hs]
  · simp [hs]
  · simp [hs]
  · simp [hs]

theorem Calm.gated {c : Channel} (hc : Calm c) (level : Bool) (hop : ¬ FallsDeferred c (.gate level)) :
    Calm (setGate c level) := by
  by_cases hsame : c.gate = level
  · rw [setGate_same hsame]
    exact hc
  · cases level with
    | true =>
      have hoff : c.gate = false := by simpa using hsame
      have htoggle : c.toggleOnReload = false := by
        by_contra hset
        rw [(hc.toggle (by simpa using hset)).2.1] at hoff
        cases hoff
      by_cases hstate : c.state = .waitCount
      · rw [setGate_unwritten hc.mode hstate]
        refine ⟨hc.mode, ?_, fun hset => ?_, (nomatch ·)⟩
        · rcases hc.stage with hfirst | ⟨hinitial, -, -⟩
          · exact .inl hfirst
          · exact absurd hstate (hc.ready hinitial)
        · rw [htoggle] at hset
          cases hset
      · rw [setGate_rise hc.mode hoff hstate]
        obtain ⟨hinitial, harmed⟩ := hc.started hstate
        refine ⟨hc.mode, .inr ⟨hinitial, harmed, .inl rfl⟩, fun hset => ?_, (nomatch ·)⟩
        rw [htoggle] at hset
        cases hset
    | false =>
      have hon : c.gate = true := by simpa using hsame
      have htoggle : c.toggleOnReload = false := by
        by_contra hset
        exact hop ⟨rfl, hon, by simpa using hset⟩
      rw [setGate_fall hc.mode hon]
      refine ⟨hc.mode, ?_, fun hset => ?_, fun _ => rfl⟩
      · rcases hc.stage with ⟨hinitial, hwaits⟩ | ⟨hinitial, harmed, -⟩
        · rw [hwaits]
          exact .inl ⟨hinitial, rfl⟩
        · rw [if_pos (hc.ready hinitial)]
          exact .inr ⟨hinitial, harmed, .inr (.inl rfl)⟩
      · rw [htoggle] at hset
        cases hset

theorem load_kept (c : Channel) :
    (loadCountingElement c).initialLoad = c.initialLoad ∧ (loadCountingElement c).armed = c.armed ∧
      (loadCountingElement c).ceUndefined = false := by
  have henter (d : Channel) : (enterLoaded d).initialLoad = d.initialLoad ∧ (enterLoaded d).armed = d.armed ∧
      (enterLoaded d).ceUndefined = d.ceUndefined := by
    unfold enterLoaded enterSquare
    dsimp only
    split
    · exact ⟨rfl, rfl, rfl⟩
    · exact ⟨rfl, rfl, rfl⟩
    · exact ⟨rfl, rfl, rfl⟩
    · split_ifs <;> exact ⟨rfl, rfl, rfl⟩
    · exact ⟨rfl, rfl, rfl⟩
    · exact ⟨rfl, rfl, rfl⟩
    · exact ⟨rfl, rfl, rfl⟩
  obtain ⟨l, i, hl⟩ := load_eq c
  rw [hl]
  exact henter _

theorem load_high {c : Channel} (hmode : c.mode = 2 ∨ c.mode = 3) (htoggle : c.toggleOnReload = false)
    (hstate : c.state = .loadNext) : (loadCountingElement c).output = true := by
  rcases hmode with hm | hm
  · exact (load_mode2 hm).output
  · rw [(load_mode3 hm).output, htoggle, hstate, if_neg Bool.false_ne_true, if_pos (nomatch ·)]

theorem load_state {c : Channel} (hmode : c.mode = 2 ∨ c.mode = 3) :
    (loadCountingElement c).state = (if c.gate then .counting else .waitGate) ∧
      (loadCountingElement c).countingElement = freshElement c ∧
        configOf (loadCountingElement c) = configOf c := by
  unfold freshElement
  rcases hmode with hm | hm
  · rw [hm]
    exact ⟨(load_mode2 hm).state, (load_mode2 hm).element, (load_mode2 hm).config⟩
  · rw [hm]
    exact ⟨(load_mode3 hm).state, (load_mode3 hm).element, (load_mode3 hm).config⟩

theorem Calm.load {c : Channel} (hc : Calm c) (hstate : c.state = .loadNext ∨ c.state = .reloadNext) :
    Calm (loadCountingElement c) := by
  obtain ⟨hinitial, harmed⟩ := hc.started (by rcases hstate with hs | hs <;> simp [hs])
  obtain ⟨hkept, harmed', -⟩ := load_kept c
  obtain ⟨hnext, -, hconfig⟩ := load_state hc.mode
  have hmode : (loadCountingElement c).mode = c.mode := congrArg Config.mode hconfig
  have hgate : (loadCountingElement c).gate = c.gate := congrArg Config.gate hconfig
  refine ⟨hmode ▸ hc.mode, .inr ⟨hkept.trans hinitial, harmed'.trans harmed, ?_⟩, fun hset => ?_, fun hoff => ?_⟩
  · rw [hnext, hgate]
    cases c.gate with
    | true => exact .inr (.inr ⟨.inl rfl, rfl⟩)
    | false => exact .inr (.inl rfl)
  · rcases hc.mode with hm | hm
    · rw [(load_mode2 hm).toggle] at hset
      have := (hc.toggle hset).1
      omega
    · rw [(load_mode3 hm).toggle] at hset
      cases hset
  · have hoff' : c.gate = false := hgate ▸ hoff
    have htoggle : c.toggleOnReload = false := by
      by_contra hset
      rw [(hc.toggle (by simpa using hset)).2.1] at hoff'
      cases hoff'
    refine load_high hc.mode htoggle ?_
    rcases hc.stage with ⟨hfirst, -⟩ | ⟨-, -, hs | hs | ⟨-, hon⟩⟩
    · rw [hinitial] at hfirst
      cases hfirst
    · exact hs
    · rcases hstate with hs' | hs'
      · exact hs'
      · rw [hs] at hs'
        cases hs'
    · rw [hoff'] at hon
      cases hon

theorem Calm.tick {c : Channel} (hc : Calm c) : Calm (tickChannel c) := by
  have hedge {c : Channel} (hc : Calm c) : Calm (clockEdge c) := by
    rcases hc.stage with ⟨-, hs⟩ | ⟨hinitial, harmed, hs | hs | ⟨hs | hs, hon⟩⟩
    · rw [clockEdge_waits (.inl hs)]
      exact hc
    · rw [clockEdge_load (.inl hs)]
      exact hc.load (.inl hs)
    · rw [clockEdge_waits (.inr (.inl hs))]
      exact hc
    · rw [clockEdge_counting hs]
      have hkept (n : ℕ) : (decrementN n c).initialLoad = c.initialLoad ∧ (decrementN n c).armed = c.armed := by
        obtain ⟨l, hl⟩ := decrementN_eq n c
        rw [hl]
        exact ⟨rfl, rfl⟩
      -- with GATE high only the toggle is of interest
      have hcalm {d : Channel} (hmode : d.mode = c.mode) (hgate : d.gate = true) (hfirst : d.initialLoad = false)
          (hready : d.armed = true) (hstate : d.state = .counting ∨ d.state = .reloadNext)
          (htoggle : d.toggleOnReload = true → d.mode = 3) : Calm d := by
        refine ⟨hmode ▸ hc.mode, .inr ⟨hfirst, hready, .inr (.inr ⟨hstate, hgate⟩)⟩, fun hset => ?_, fun hoff => ?_⟩
        · exact ⟨htoggle hset, hgate, hfirst⟩
        · rw [hgate] at hoff
          cases hoff
      rcases hc.mode with hm | hm
      · have hcounted := decrement_counted c
        have hlatched : (decrement c).initialLoad = c.initialLoad ∧ (decrement c).armed = c.armed := hkept 1
        rw [countTick_mode2 hm hon]
        generalize decrement c = d at hcounted hlatched
        have hmode : d.mode = c.mode := congrArg Config.mode hcounted.config
        have hgate : d.gate = c.gate := congrArg Config.gate hcounted.config
        have htoggle : d.toggleOnReload = true → d.mode = 3 := by
          rw [hcounted.toggle, hmode]
          exact fun hset => (hc.toggle hset).1
        have hfirst := hlatched.1.trans hinitial
        have hready := hlatched.2.trans harmed
        split_ifs
        · exact hcalm hmode (hgate.trans hon) hfirst hready (.inr rfl) htoggle
        · exact hcalm hmode (hgate.trans hon) hfirst hready (.inl (hcounted.state.trans hs)) htoggle
      · have hcounted := decrementN_counted c (stride_pos c)
        have hlatched := hkept (stride c)
        rw [countTick_mode3 hm hon, countMode3_eq]
        generalize decrementN (stride c) c = d at hcounted hlatched
        have hmode : d.mode = c.mode := congrArg Config.mode hcounted.config
        have hgate : d.gate = c.gate := congrArg Config.gate hcounted.config
        have hthree : d.mode = 3 := hmode.trans hm
        have hfirst := hlatched.1.trans hinitial
        have hready := hlatched.2.trans harmed
        have hcounts := hcounted.state.trans hs
        split_ifs
        · exact hcalm hmode (hgate.trans hon) hfirst hready (.inr rfl) fun _ => hthree
        · apply Calm.of_bare (bare_updateLiveLatch _).symm
          exact hcalm hmode (hgate.trans hon) hfirst hready (.inl hcounts) fun _ => hthree
        · exact hcalm hmode (hgate.trans hon) hfirst hready (.inl hcounts) fun _ => hthree
    · rw [clockEdge_load (.inr hs)]
      exact hc.load (.inr hs)
  exact hedge ⟨hc.mode, hc.stage, hc.toggle, hc.low⟩

theorem Calm.step {c : Channel} (hc : Calm c) {op : ChannelOp} (hop : ∀ word, op ≠ .program word)
    (hfall : ¬ FallsDeferred c op) : Calm (channelStep c op) := by
  cases op with
  | program word => exact absurd rfl (hop word)
  | latch => exact hc.of_bare (bare_latchCount c).symm
  | readBack value => exact hc.of_bare (bare_readBack value c).symm
  | write value => exact hc.written (written_dataWrite hc.mode value)
  | read => exact hc.of_bare (bare_dataRead c).symm
  | gate level => exact hc.gated level hfall
  | tick => exact hc.tick

theorem Calm.run {c : Channel} (hc : Calm c) {ops : List ChannelOp} (hops : ∀ op ∈ ops, ∀ word, op ≠ .program word)
    (h : Undisturbed c ops) : Calm (channelRun c ops) := by
  induction ops generalizing c with
  | nil => exact hc
  | cons op ops ih =>
    exact ih (hc.step (hops op List.mem_cons_self) h.1) (fun o ho => hops o (List.mem_cons_of_mem op ho)) h.2

theorem programmed_calm (c : Channel) {word : Byte} (hmode : modeOf word = 2 ∨ modeOf word = 3) :
    Calm (programMode c word) := by
  refine ⟨hmode, .inl ⟨rfl, rfl⟩, (nomatch ·), fun _ => ?_⟩
  change (modeOf word != 0) = true
  rcases hmode with hm | hm
  · rw [hm]
    rfl
  · rw [hm]
    rfl

theorem waiting_iterate {c : Channel} (hstate : c.state = .waitGate) (k : ℕ) : bare (tickChannel^[k] c) = bare c := by
  have htick : bare (tickChannel c) = bare c := by
    have hwaits : tickChannel c = { c with clocks := c.clocks + 1 } := clockEdge_waits (.inr (.inl hstate))
    rw [hwaits]
    rfl
  induction k with
  | zero => rfl
  | succ k ih =>
    rw [Function.iterate_succ_apply']
    exact (bare_tick ih).trans htick

theorem Calm.still {c : Channel} (hc : Calm c) (hinitial : c.initialLoad = false) (hoff : c.gate = false) :
    Still c := by
  intro ops hops
  have hrun := idle_run c hops
  have hout : (channelRun c ops).output = (tickChannel^[ticks ops] c).output :=
    bare_congr Channel.output (fun _ => rfl) hrun
  have helement : (channelRun c ops).countingElement = (tickChannel^[ticks ops] c).countingElement :=
    bare_congr Channel.countingElement (fun _ => rfl) hrun
  rw [hout, helement]
  rcases hc.stage with ⟨hfirst, -⟩ | ⟨-, -, hs | hs | ⟨-, hon⟩⟩
  · rw [hinitial] at hfirst
    cases hfirst
  · cases ticks ops with
    | zero => exact ⟨hc.low hoff, .inl rfl⟩
    | succ k =>
      have hfirst : tickChannel c = loadCountingElement { c with clocks := c.clocks + 1 } := clockEdge_load (.inl hs)
      have hcalm := hc.tick
      obtain ⟨hstate, hloaded, hconfig⟩ := @load_state { c with clocks := c.clocks + 1 } hc.mode
      rw [← hfirst] at hstate hloaded hconfig
      have hgate : (tickChannel c).gate = false := (congrArg Config.gate hconfig).trans hoff
      rw [show Channel.gate { c with clocks := c.clocks + 1 } = false from hoff] at hstate
      have hwaits := waiting_iterate hstate k
      rw [Function.iterate_succ_apply, bare_congr Channel.output (fun _ => rfl) hwaits,
        bare_congr Channel.countingElement (fun _ => rfl) hwaits]
      exact ⟨hcalm.low hgate, .inr ⟨hs, hloaded⟩⟩
  · have hwaits := waiting_iterate hs (ticks ops)
    rw [bare_congr Channel.output (fun _ => rfl) hwaits, bare_congr Channel.countingElement (fun _ => rfl) hwaits]
    exact ⟨hc.low hoff, .inl rfl⟩
  · rw [hoff] at hon
    cases hon

theorem finalize_first {c : Channel} (hmode : ¬(c.mode = 1 ∨ c.mode = 5)) (hinitial : c.initialLoad = true) :
    ∃ r, finalizeWrite c =
      { c with countRegister := r, nullCount := true, armed := true, initialLoad := false, state := .loadNext } := by
  obtain ⟨r, -, hmap⟩ := legal_eq c
  refine ⟨r, ?_⟩
  unfold finalizeWrite
  dsimp only
  rw [hmap]
  dsimp only
  rw [if_pos hinitial, if_neg hmode]

theorem fresh_ready {c f : Channel} (hmode : c.mode = 2 ∨ c.mode = 3) (hf : Fresh c f) :
    f.state = .loadNext ∧ f.toggleOnReload = false ∧ f.armed = true ∧ f.initialLoad = false := by
  obtain ⟨⟨d, word, bytes, register, rfl, hbytes⟩, hconfig⟩ := hf
  have hm : (programmed d word bytes).mode = c.mode := congrArg Config.mode hconfig
  have hword : (programmed d word bytes).mode = modeOf word := by
    rw [programmed_eq d word hbytes]
    unfold finalizeWrite
    dsimp only
    split_ifs <;> rfl
  have hperiodic : ¬(modeOf word = 1 ∨ modeOf word = 5) := by omega
  obtain ⟨r, hr⟩ := @finalize_first { programMode d word with countRegister := register } hperiodic rfl
  rw [programmed_eq d word hbytes, hr]
  exact ⟨rfl, rfl, rfl, rfl⟩

theorem bare_ext {c c' : Channel} (hconfig : configOf c = configOf c')
    (helement : c.countingElement = c'.countingElement) (hout : c.output = c'.output) (harmed : c.armed = c'.armed)
    (hinitial : c.initialLoad = c'.initialLoad) (hundefined : c.ceUndefined = c'.ceUndefined)
    (htoggle : c.toggleOnReload = c'.toggleOnReload) (hstate : c.state = c'.state) : bare c = bare c' := by
  unfold configOf at hconfig
  obtain ⟨htype, hbcd, hregister, hmode, hgate⟩ := Config.mk.inj hconfig
  unfold bare
  rw [htype, hbcd, hregister, hmode, hgate, helement, hout, harmed, hinitial, hundefined, htoggle, hstate]

theorem load_alike {c f : Channel} (hmode : c.mode = 2 ∨ c.mode = 3) (hconfig : configOf c = configOf f)
    (hstate : c.state = .loadNext) (hstate' : f.state = .loadNext) (htoggle : c.toggleOnReload = false)
    (htoggle' : f.toggleOnReload = false) (hready : c.initialLoad = false ∧ c.armed = true)
    (hready' : f.initialLoad = false ∧ f.armed = true) :
    bare (loadCountingElement c) = bare (loadCountingElement f) := by
  have hsame : c.mode = f.mode := congrArg Config.mode hconfig
  have hmode' : f.mode = 2 ∨ f.mode = 3 := hsame ▸ hmode
  obtain ⟨hnext, hloaded, hconfig'⟩ := load_state hmode
  obtain ⟨hnext', hloaded', hconfig''⟩ := load_state hmode'
  obtain ⟨hinitial, harmed, hdefined⟩ := load_kept c
  obtain ⟨hinitial', harmed', hdefined'⟩ := load_kept f
  have hclear {d : Channel} (hd : d.mode = 2 ∨ d.mode = 3) (h : d.toggleOnReload = false) :
      (loadCountingElement d).toggleOnReload = false := by
    rcases hd with hm | hm
    · exact (load_mode2 hm).toggle.trans h
    · exact (load_mode3 hm).toggle
  apply bare_ext
  · rw [hconfig', hconfig'', hconfig]
  · have hregister : c.countRegister = f.countRegister := congrArg Config.register hconfig
    have htype : c.type = f.type := congrArg Config.type hconfig
    rw [hloaded, hloaded', freshElement, freshElement, hsame, hregister, htype]
  · rw [load_high hmode htoggle hstate, load_high hmode' htoggle' hstate']
  · rw [harmed, harmed', hready.2, hready'.2]
  · rw [hinitial, hinitial', hready.1, hready'.1]
  · rw [hdefined, hdefined']
  · rw [hclear hmode htoggle, hclear hmode' htoggle']
  · have hgate : c.gate = f.gate := congrArg Config.gate hconfig
    rw [hnext, hnext', hgate]

theorem Calm.inPhase {c : Channel} (hc : Calm c) (hinitial : c.initialLoad = false) (hoff : c.gate = false) :
    InPhase c := by
  have htoggle : c.toggleOnReload = false := by
    by_contra hset
    rw [(hc.toggle (by simpa using hset)).2.1] at hoff
    cases hoff
  have hready := hc.started (hc.ready hinitial)
  obtain ⟨d, hrise, hfirst⟩ : ∃ d : Channel, setGate c true = d ∧
      tickChannel d = loadCountingElement { c with gate := true, state := .loadNext, clocks := c.clocks + 1 } :=
    ⟨_, setGate_rise hc.mode hoff (hc.ready hinitial), clockEdge_load (.inl rfl)⟩
  rw [InPhase, hrise]
  constructor
  · rw [hfirst]
    exact load_high hc.mode htoggle rfl
  · intro f hf ops hops hticks
    obtain ⟨hstate, hclear, harmed, hdone⟩ := fresh_ready hc.mode hf
    have hfresh : tickChannel f = loadCountingElement { f with clocks := f.clocks + 1 } := clockEdge_load (.inl hstate)
    have hloads : bare (tickChannel d) = bare (tickChannel f) := by
      rw [hfirst, hfresh]
      exact load_alike hc.mode hf.2.symm rfl hstate htoggle hclear hready ⟨hdone, harmed⟩
    have hrun : bare (channelRun d ops) = bare (tickChannel^[ticks ops] f) := by
      obtain ⟨k, hk⟩ := Nat.exists_eq_add_of_le' hticks
      rw [idle_run d hops, hk, Function.iterate_succ_apply, Function.iterate_succ_apply]
      exact bare_iterate hloads k
    exact ⟨bare_congr Channel.output (fun _ => rfl) hrun,
      bare_congr (fun e => visibleCount e.countingElement) (fun _ => rfl) hrun⟩

theorem rise_deferred {c : Channel} (hmode : c.mode = 3) (hoff : c.gate = false) (hset : c.toggleOnReload = true)
    (hout : c.output = true) (hstate : c.state ≠ .waitCount) : (tickChannel (setGate c true)).output = false := by
  obtain ⟨d, hrise, hfirst⟩ : ∃ d : Channel, setGate c true = d ∧
      tickChannel d = loadCountingElement { c with gate := true, state := .loadNext, clocks := c.clocks + 1 } :=
    ⟨_, setGate_rise (.inr hmode) hoff hstate, clockEdge_load (.inl rfl)⟩
  have hturned := (@load_mode3 { c with gate := true, state := .loadNext, clocks := c.clocks + 1 } hmode).output
  rw [hrise, hfirst, hturned]
  simp [hset, hout]

theorem falls_low {c : Channel} (hc : Calm c) {op : ChannelOp} (h : FallsDeferred c op) :
    ¬ Holds (channelStep c op) := by
  obtain ⟨rfl, hon, hset⟩ := h
  obtain ⟨hthree, -, hinitial⟩ := hc.toggle hset
  obtain ⟨d, hfall, hd⟩ : ∃ d : Channel, setGate c false = d ∧
      d = { c with gate := false, output := true, state := .waitGate } := by
    refine ⟨_, setGate_fall hc.mode hon, ?_⟩
    rw [if_pos (hc.ready hinitial)]
  intro hholds
  change Holds (setGate c false) at hholds
  rw [hfall, hd] at hholds
  have hhigh := (hholds hinitial rfl).2.1
  rw [rise_deferred (by exact hthree) rfl (by exact hset) rfl
    (show PitState.waitGate ≠ .waitCount by decide)] at hhigh
  cases hhigh

theorem Calm.holds {c : Channel} (hc : Calm c) : Holds c :=
  fun hinitial hoff => ⟨hc.still hinitial hoff, hc.inPhase hinitial hoff⟩

/-- GATE restarts a periodic counter in phase in every state of a run in which it never falls on a deferred toggle, and
in no other run. -/
theorem restarts_iff (c : Channel) {word : Byte} (hmode : modeOf word = 2 ∨ modeOf word = 3) {ops : List ChannelOp}
    (hops : ∀ op ∈ ops, ∀ word, op ≠ .program word) :
    Always Holds (programMode c word) ops ↔ Undisturbed (programMode c word) ops := by
  have hall {c : Channel} (hc : Calm c) {ops : List ChannelOp} (hops : ∀ op ∈ ops, ∀ word, op ≠ .program word) :
      Always Holds c ops ↔ Undisturbed c ops := by
    induction ops generalizing c with
    | nil => exact ⟨fun _ => trivial, fun _ => hc.holds⟩
    | cons op ops ih =>
      have hrest : ∀ o ∈ ops, ∀ word, o ≠ .program word := fun o ho => hops o (List.mem_cons_of_mem op ho)
      by_cases hfall : FallsDeferred c op
      · have hbroken := falls_low hc hfall
        refine ⟨fun h => absurd ?_ hbroken, fun h => absurd hfall h.1⟩
        cases ops with
        | nil => exact h.2
        | cons next rest => exact h.2.1
      · have hnext := ih (hc.step (hops op List.mem_cons_self) hfall) hrest
        exact ⟨fun h => ⟨hfall, hnext.mp h.2⟩, fun h => ⟨hc.holds, hnext.mpr h.2⟩⟩
  exact hall (programmed_calm c hmode) hops

/-- An 8254 with a count of five, one edge before its high half ends. -/
def odd54 : List ChannelOp := [.write 5, .write 0, .tick, .tick, .tick]

theorem restarts_odd_falls :
    let c := channelRun (programMode (setGate (resetChannel .i8254) true) 0x36) odd54
    FallsDeferred c (.gate false) ∧ ¬ Holds (channelStep c (.gate false)) := by
  intro c
  have hfalls : FallsDeferred c (.gate false) := by decide +kernel
  have hc : Calm c := (programmed_calm _ (.inr (by decide +kernel))).run (by decide) (by decide +kernel)
  exact ⟨hfalls, falls_low hc hfalls⟩

theorem restarts_odd :
    Always Holds (programMode (setGate (resetChannel .i8254) true) 0x36)
      [.write 5, .write 0, .tick, .tick, .gate false, .tick, .gate true, .tick] := by
  have hiff := @restarts_iff (setGate (resetChannel .i8254) true) 0x36 (.inr (by decide +kernel))
    [.write 5, .write 0, .tick, .tick, .gate false, .tick, .gate true, .tick] (by decide)
  apply hiff.mpr
  decide +kernel

end PeepeeBox.PitGate
