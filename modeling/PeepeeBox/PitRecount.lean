import PeepeeBox.PitPeriod

set_option autoImplicit false

/-!
# Changing the count of a square wave

A count may be written at any time while mode 3 runs.
-/
namespace PeepeeBox.PitRecount
open Pit PitCounts PitSquare PitRuns PitPeriod Waves

theorem decremented_parity (bcd : Bool) {element : ℕ} (h : element ≤ 0x10000) :
    decremented bcd element % 2 = (element + 1) % 2 := by
  have hspan := span_pos bcd
  have hparity := value_parity bcd h
  have hless := value_parity bcd (Nat.le_of_lt (decremented_lt bcd element))
  rw [value_decremented bcd h] at hless
  split_ifs at hless <;> omega

theorem iterate_parity (bcd : Bool) {element : ℕ} (h : element ≤ 0x10000) (n : ℕ) :
    (decremented bcd)^[n] element % 2 = (element + n) % 2 := by
  induction n with
  | zero => rfl
  | succ n ih =>
    have hfits : (decremented bcd)^[n] element ≤ 0x10000 := by
      rcases Nat.eq_zero_or_pos n with rfl | hpos
      · exact h
      · exact Nat.le_of_lt (iterate_lt bcd element hpos)
    rw [Function.iterate_succ_apply', decremented_parity bcd hfits]
    omega

/-- What a count write does to a channel that runs in mode 2 or 3. -/
structure Written (c c' : Channel) : Prop where
  config : configOf c' = { configOf c with register := c'.countRegister }
  register : c.countRegister < 0x10000 → c'.countRegister < 0x10000
  element : c'.countingElement = c.countingElement
  output : c'.output = c.output
  toggle : c'.toggleOnReload = c.toggleOnReload
  loaded : c'.ceUndefined = c.ceUndefined
  complete :
    c'.initialLoad = c.initialLoad ∧ c'.armed = c.armed ∧ c'.state = c.state ∨
      c'.initialLoad = false ∧ c'.armed = true ∧
        (c'.state = .loadNext ∨ c.initialLoad = false ∧ c'.state = c.state)

theorem Written.state {c c' : Channel} (h : Written c c') : c'.state = c.state ∨ c'.state = .loadNext := by
  rcases h.complete with ⟨-, -, hs⟩ | ⟨-, -, hs | ⟨-, hs⟩⟩
  · exact .inl hs
  · exact .inr hs
  · exact .inl hs

theorem legal_eq (c : Channel) :
    ∃ r, (c.countRegister < 0x10000 → r < 0x10000) ∧ (if c.countRegister = 1 then
      if c.mode = 2 then { c with countRegister := 2 }
      else if c.mode = 3 then { c with countRegister := 0 }
      else c
    else c) = { c with countRegister := r } := by
  split_ifs
  · exact ⟨2, fun _ => by decide, rfl⟩
  · exact ⟨0, fun _ => by decide, rfl⟩
  · exact ⟨c.countRegister, id, rfl⟩
  · exact ⟨c.countRegister, id, rfl⟩

theorem written_finalize {c : Channel} (hmode : c.mode = 2 ∨ c.mode = 3) : Written c (finalizeWrite c) := by
  have hlater : ¬(c.mode = 1 ∨ c.mode = 5) := by omega
  obtain ⟨r, hr, hmap⟩ := legal_eq c
  unfold finalizeWrite
  dsimp only
  rw [hmap]
  dsimp only
  split_ifs with hfirst hreload
  · exact ⟨rfl, hr, rfl, rfl, rfl, rfl, .inr ⟨rfl, rfl, .inl rfl⟩⟩
  · exact ⟨rfl, hr, rfl, rfl, rfl, rfl, .inr ⟨by simpa using hfirst, rfl, .inl rfl⟩⟩
  · exact ⟨rfl, hr, rfl, rfl, rfl, rfl, .inr ⟨by simpa using hfirst, rfl, .inr ⟨by simpa using hfirst, rfl⟩⟩⟩

theorem written_dataWrite {c : Channel} (hmode : c.mode = 2 ∨ c.mode = 3) (value : Byte) :
    Written c (dataWrite c value) := by
  have hvalue := value.isLt
  have hfinal {r phase : ℕ} (hr : c.countRegister < 0x10000 → r < 0x10000) :
      Written c (finalizeWrite { c with countRegister := r, writePhase := phase }) := by
    have hw := @written_finalize { c with countRegister := r, writePhase := phase } hmode
    exact ⟨hw.config, fun h => hw.register (hr h), hw.element, hw.output, hw.toggle, hw.loaded, hw.complete⟩
  have hstarted : c.mode ≠ 0 := by omega
  unfold dataWrite
  split
  · exact @hfinal value.toNat c.writePhase fun _ => by omega
  · exact @hfinal (value.toNat * 0x100) c.writePhase fun _ => by omega
  · split_ifs with hphase
    · dsimp only
      rw [if_neg hstarted]
      refine ⟨rfl, fun h => ?_, rfl, rfl, rfl, rfl, .inl ⟨rfl, rfl, rfl⟩⟩
      change c.countRegister / 0x100 * 0x100 + value.toNat < _
      omega
    · exact hfinal fun _ => by omega
  · exact ⟨rfl, id, rfl, rfl, rfl, rfl, .inl ⟨rfl, rfl, rfl⟩⟩

/-- A channel in mode 3 with a count in its element. -/
structure Loaded (c : Channel) : Prop where
  element : c.countingElement ≤ 0x10000
  even : c.type = .i8254 → c.countingElement % 2 = 0
  toggle : c.state = .counting → c.toggleOnReload = false
  stage : c.state = .counting ∨ c.state = .reloadNext ∨ c.state = .loadNext ∨ c.state = .waitGate ∧ c.gate = false

/-- A channel as mode 3 leaves it, whatever has been written. -/
structure Reached (c : Channel) : Prop where
  mode : c.mode = 3
  register : c.countRegister < 0x10000
  loaded : c.ceUndefined = false → Loaded c

theorem loadedOf_even {register : ℕ} : loadedOf .i8254 register % 2 = 0 := by
  by_cases hodd : register % 2 = 1
  · rw [loadedOf_masked hodd]
    unfold evenPart
    omega
  · rw [loadedOf_whole fun h => hodd h.2]
    unfold reloadOf
    split_ifs <;> omega

theorem Reached.of_bare {c c' : Channel} (h : bare c = bare c') (hc : Reached c) : Reached c' := by
  have hmode : c.mode = c'.mode := bare_congr Channel.mode (fun _ => rfl) h
  have hregister : c.countRegister = c'.countRegister := bare_congr Channel.countRegister (fun _ => rfl) h
  have hundefined : c.ceUndefined = c'.ceUndefined := bare_congr Channel.ceUndefined (fun _ => rfl) h
  have htype : c.type = c'.type := bare_congr Channel.type (fun _ => rfl) h
  have helement : c.countingElement = c'.countingElement := bare_congr Channel.countingElement (fun _ => rfl) h
  have htoggle : c.toggleOnReload = c'.toggleOnReload := bare_congr Channel.toggleOnReload (fun _ => rfl) h
  have hstate : c.state = c'.state := bare_congr Channel.state (fun _ => rfl) h
  have hgate : c.gate = c'.gate := bare_congr Channel.gate (fun _ => rfl) h
  refine ⟨hmode ▸ hc.mode, hregister ▸ hc.register, fun hl => ?_⟩
  have hloaded := hc.loaded (hundefined.trans hl)
  exact ⟨helement ▸ hloaded.element, by rw [← htype, ← helement]; exact hloaded.even,
    by rw [← hstate, ← htoggle]; exact hloaded.toggle, by rw [← hstate, ← hgate]; exact hloaded.stage⟩

theorem Reached.written {c c' : Channel} (hc : Reached c) (h : Written c c') : Reached c' := by
  have hmode : c'.mode = c.mode := congrArg Config.mode h.config
  have htype : c'.type = c.type := congrArg Config.type h.config
  have hgate : c'.gate = c.gate := congrArg Config.gate h.config
  refine ⟨hmode.trans hc.mode, h.register hc.register, fun hl => ?_⟩
  have hloaded := hc.loaded (h.loaded ▸ hl)
  refine ⟨h.element ▸ hloaded.element, by rw [htype, h.element]; exact hloaded.even, fun hcounts => ?_, ?_⟩
  · rw [h.toggle]
    rcases h.state with hs | hs
    · exact hloaded.toggle (hs ▸ hcounts)
    · rw [hs] at hcounts
      cases hcounts
  · rcases h.state with hs | hs
    · rw [hs, hgate]
      exact hloaded.stage
    · exact .inr (.inr (.inl hs))

theorem Reached.gated {c : Channel} (hc : Reached c) (level : Bool) : Reached (setGate c level) := by
  by_cases hsame : c.gate = level
  · rw [setGate_same hsame]
    exact hc
  · cases level with
    | true =>
      by_cases hstarted : c.state = .waitCount
      · rw [setGate_unwritten (.inr hc.mode) hstarted]
        refine ⟨hc.mode, hc.register, fun hl => ?_⟩
        have hstage := (hc.loaded hl).stage
        rw [hstarted] at hstage
        simp at hstage
      · rw [setGate_rise (.inr hc.mode) (by simpa using hsame) hstarted]
        refine ⟨hc.mode, hc.register, fun hl => ?_⟩
        have hloaded := hc.loaded hl
        exact ⟨hloaded.element, hloaded.even, (nomatch ·), .inr (.inr (.inl rfl))⟩
    | false =>
      rw [setGate_fall (.inr hc.mode) (by simpa using hsame)]
      refine ⟨hc.mode, hc.register, fun hl => ?_⟩
      have hloaded := hc.loaded hl
      have hstarted : c.state ≠ .waitCount := by
        rcases hloaded.stage with hs | hs | hs | ⟨hs, -⟩
        · simp [hs]
        · simp [hs]
        · simp [hs]
        · simp [hs]
      rw [if_pos hstarted]
      exact ⟨hloaded.element, hloaded.even, (nomatch ·), .inr (.inr (.inr ⟨rfl, rfl⟩))⟩

theorem reached_load {c : Channel} (hmode : c.mode = 3) (h : c.countRegister < 0x10000) :
    Reached (loadCountingElement c) := by
  have hload := load_mode3 hmode
  have hregister : (loadCountingElement c).countRegister = c.countRegister := congrArg Config.register hload.config
  have htype : (loadCountingElement c).type = c.type := congrArg Config.type hload.config
  have hgate : (loadCountingElement c).gate = c.gate := congrArg Config.gate hload.config
  refine ⟨(congrArg Config.mode hload.config).trans hmode, hregister ▸ h, fun _ => ⟨?_, ?_, fun _ => hload.toggle, ?_⟩⟩
  · rw [hload.element]
    exact loadedOf_le h
  · intro h54
    rw [hload.element, ← htype, h54]
    exact loadedOf_even
  · rw [hload.state, hgate]
    cases c.gate with
    | true => exact .inl rfl
    | false => exact .inr (.inr (.inr ⟨rfl, rfl⟩))

theorem reached_counts {c : Channel} (hc : Reached c) (hstate : c.state = .counting) : Reached (countMode3 c) := by
  have hcounted := decrementN_counted c (stride_pos c)
  have hundefined : (decrementN (stride c) c).ceUndefined = c.ceUndefined := by
    obtain ⟨l, hl⟩ := decrementN_eq (stride c) c
    rw [hl]
  rw [countMode3_eq]
  generalize decrementN (stride c) c = d at hcounted hundefined
  have hmode : d.mode = 3 := (congrArg Config.mode hcounted.config).trans hc.mode
  have htype : d.type = c.type := congrArg Config.type hcounted.config
  have hregister : d.countRegister < 0x10000 := by
    have hr : d.countRegister = c.countRegister := congrArg Config.register hcounted.config
    rw [hr]
    exact hc.register
  have hcounts := hcounted.state.trans hstate
  have heven (hl : c.ceUndefined = false) (h54 : c.type = .i8254) : d.countingElement % 2 = 0 := by
    have hloaded := hc.loaded hl
    have htwo : stride c = 2 := if_neg fun h => by
      rw [h54] at h
      exact nomatch h.1
    rw [hcounted.element, iterate_parity _ hloaded.element, htwo]
    have := hloaded.even h54
    omega
  split_ifs with hzero hdefer
  · refine ⟨hmode, hregister, fun hl => ?_⟩
    have hl' := hundefined.symm.trans hl
    exact ⟨Nat.le_of_lt hcounted.less, fun h => heven hl' (htype ▸ h), (nomatch ·), .inr (.inl rfl)⟩
  · refine Reached.of_bare (bare_updateLiveLatch _).symm ⟨hmode, hregister, fun hl => ?_⟩
    have hl' := hundefined.symm.trans hl
    have htoggle := hcounted.toggle.trans ((hc.loaded hl').toggle hstate)
    refine ⟨loadedOf_le hc.register, fun h => ?_, fun _ => htoggle, .inl hcounts⟩
    have h54 : c.type = .i8254 := htype ▸ h
    change loadedOf c.type c.countRegister % 2 = 0
    rw [h54]
    exact loadedOf_even
  · refine ⟨hmode, hregister, fun hl => ?_⟩
    have hl' := hundefined.symm.trans hl
    have htoggle := hcounted.toggle.trans ((hc.loaded hl').toggle hstate)
    exact ⟨Nat.le_of_lt hcounted.less, fun h => heven hl' (htype ▸ h), fun _ => htoggle, .inl hcounts⟩

theorem reached_tick {c : Channel} (hc : Reached c) : Reached (tickChannel c) := by
  have hedge {c : Channel} (hc : Reached c) : Reached (clockEdge c) := by
    cases hstate : c.state with
    | counting =>
      rw [clockEdge_counting hstate]
      cases hgate : c.gate with
      | true =>
        rw [countTick_mode3 hc.mode hgate]
        exact reached_counts hc hstate
      | false =>
        rw [countTick_gated (.inr hc.mode) hgate]
        exact hc
    | loadNext =>
      rw [clockEdge_load (.inl hstate)]
      exact reached_load hc.mode hc.register
    | reloadNext =>
      rw [clockEdge_load (.inr hstate)]
      exact reached_load hc.mode hc.register
    | waitCount | waitGate | done =>
      rw [clockEdge_waits (by simp [hstate])]
      exact hc
    | strobeRecover =>
      have hrecovers : clockEdge c = { setOutput c true with state := .counting } := by
        unfold clockEdge
        rw [hstate]
      rw [hrecovers]
      refine ⟨hc.mode, hc.register, fun hl => ?_⟩
      have hstage := (hc.loaded hl).stage
      rw [hstate] at hstage
      simp at hstage
    | waitTrigger =>
      by_cases hl : c.ceUndefined = false
      · have hstage := (hc.loaded hl).stage
        rw [hstate] at hstage
        simp at hstage
      · unfold clockEdge
        rw [hstate]
        dsimp only
        split_ifs
        · exact Reached.of_bare (bare_updateLiveLatch _).symm ⟨hc.mode, hc.register, fun h => absurd h hl⟩
        · exact hc
  exact hedge ⟨hc.mode, hc.register, fun hl => ⟨(hc.loaded hl).element, (hc.loaded hl).even, (hc.loaded hl).toggle,
    (hc.loaded hl).stage⟩⟩

theorem reached_step {c : Channel} (hc : Reached c) {op : ChannelOp} (hop : ∀ word, op ≠ .program word) :
    Reached (channelStep c op) := by
  cases op with
  | program word => exact absurd rfl (hop word)
  | latch => exact hc.of_bare (bare_latchCount c).symm
  | readBack value => exact hc.of_bare (bare_readBack value c).symm
  | write value => exact hc.written (written_dataWrite (.inr hc.mode) value)
  | read => exact hc.of_bare (bare_dataRead c).symm
  | gate level => exact hc.gated level
  | tick => exact reached_tick hc

theorem reached_run {c : Channel} (hc : Reached c) {ops : List ChannelOp}
    (hops : ∀ op ∈ ops, ∀ word, op ≠ .program word) : Reached (channelRun c ops) := by
  induction ops generalizing c with
  | nil => exact hc
  | cons op ops ih =>
    exact ih (reached_step hc (hops op List.mem_cons_self)) fun o ho => hops o (List.mem_cons_of_mem op ho)

theorem programmed_reached {c : Channel} (h : c.countRegister < 0x10000) {word : Byte} (hmode : modeOf word = 3) :
    Reached (programMode c word) := ⟨hmode, h, (nomatch ·)⟩

/-- OUT after so many ticks, whatever has been looked at. -/
def Follows (c : Channel) (out : ℕ → Bool) : Prop :=
  ∀ ops, (∀ op ∈ ops, Idle op) → (channelRun c ops).output = out (ticks ops)

theorem follows_ticks (c : Channel) : Follows c fun k => (tickChannel^[k] c).output :=
  fun _ hops => bare_congr Channel.output (fun _ => rfl) (idle_run c hops)

theorem Follows.eq {c : Channel} {out : ℕ → Bool} (h : Follows c out) (k : ℕ) :
    out k = (tickChannel^[k] c).output := by
  obtain ⟨hticks, hrun⟩ := ticks_run c k
  have hout := h (List.replicate k .tick) fun op hop => by
    rw [List.eq_of_mem_replicate hop]
    trivial
  rw [hticks, hrun] at hout
  exact hout.symm

/-- A square wave of the count, in a while. -/
def SquareWave (n : ℕ) (c : Channel) : Prop := ∃ out, Follows c out ∧ Wave.Settles (halfOf n) 65537 out

section
variable {type : Chip} {bcd : Bool} {register : ℕ}

theorem fullOf_le (bcd : Bool) {element : ℕ} (h : element ≤ 0x10000) : fullOf bcd element ≤ 0x10000 := by
  have hspan := span_pos bcd
  have hvalue := value_le bcd h
  unfold fullOf
  split_ifs <;> omega

theorem running_left {c : Channel} (hc : Running type bcd register c) :
    0 < (waveOf c).left ∧ (waveOf c).left ≤ 65537 := by
  have htype : c.type = type := congrArg Config.type hc.config
  have hbcd : c.bcd = bcd := congrArg Config.bcd hc.config
  have hregister : c.countRegister = register := congrArg Config.register hc.config
  have hspan := span_pos bcd
  have hfull := fullOf_le bcd hc.element
  have hvalue := value_le bcd hc.element
  have hparity := value_parity bcd hc.element
  unfold waveOf
  rcases hc.stage with ⟨hstate, -, hodd⟩ | ⟨hstate, -, -⟩
  · rw [hstate, if_neg (nomatch ·), htype, hbcd, hregister]
    have heven (h : c.countingElement % 2 = 0) := @fullOf_even bcd _ hc.element h
    by_cases hone : c.countingElement % 2 = 1
    · obtain ⟨rfl, hreg⟩ := hodd hone
      rw [leftAt_odd hreg hone]
      dsimp only
      split_ifs <;> omega
    · have hpos := heven (by omega)
      by_cases hmask : type = .i8254 ∧ register % 2 = 1
      · have hlevel := Bool.toNat_le c.output
        rw [hmask.1, leftAt_masked hmask.2]
        dsimp only
        omega
      · rw [leftAt_plain hmask fun h => hone h.2]
        dsimp only
        omega
  · rw [hstate, if_pos rfl]
    exact ⟨Nat.one_pos, Nat.succ_le_succ (Nat.zero_le _)⟩

theorem running_square (h : register < 0x10000) (hn : 2 ≤ periodOf bcd register) {c : Channel}
    (hc : Running type bcd register c) : SquareWave (periodOf bcd register) c := by
  obtain ⟨hpos, hbound⟩ := running_left hc
  refine ⟨_, follows_ticks c, ?_⟩
  apply Wave.settles _ (halfOf_pos hn true) (halfOf_pos hn false) hpos hbound
  intro j
  exact congrArg Wave.level ((running_tick h hn).iterate hc j).2

theorem loading_square (h : register < 0x10000) (hn : 2 ≤ periodOf bcd register) {c : Channel}
    (hconfig : configOf c = ⟨type, bcd, register, 3, true⟩) (hstate : c.state = .loadNext ∨ c.state = .reloadNext) :
    SquareWave (periodOf bcd register) c := by
  obtain ⟨hrunning, hwave⟩ := running_loaded (c := { c with clocks := c.clocks + 1 }) h hn hconfig
  have hfirst : tickChannel c = loadCountingElement { c with clocks := c.clocks + 1 } := clockEdge_load hstate
  rw [← hfirst] at hrunning hwave
  have hhalf : halfOf (periodOf bcd register) (tickChannel c).output ≤ 0x10000 := by
    have hperiod : periodOf bcd register ≤ 0x10000 := value_le bcd (reloadOf_le h)
    have hsum := halfOf_sum (periodOf bcd register)
    cases (tickChannel c).output <;> omega
  -- a wave that this edge takes to the start of a level
  obtain ⟨w, hlevel, hpos, hbound, htick⟩ : ∃ w : Wave, w.level = c.output ∧ 0 < w.left ∧ w.left ≤ 65537 ∧
      w.tick (halfOf (periodOf bcd register)) = waveOf (tickChannel c) := by
    rw [hwave]
    by_cases hsame : (tickChannel c).output = c.output
    · rw [hsame] at hhalf ⊢
      have hpos := halfOf_pos hn c.output
      exact ⟨⟨c.output, halfOf (periodOf bcd register) c.output + 1⟩, rfl, Nat.succ_pos _,
        Nat.le_trans (Nat.succ_le_succ hhalf) (Nat.le_refl _), Wave.tick_hold _ (Nat.lt_add_of_pos_left hpos)⟩
    · have hturned : (tickChannel c).output = !c.output := by
        rw [Bool.eq_not]
        exact hsame
      rw [hturned]
      exact ⟨⟨c.output, 1⟩, rfl, Nat.one_pos, Nat.succ_le_succ (Nat.zero_le _), Wave.tick_turn _ (Nat.le_refl 1)⟩
  refine ⟨_, follows_ticks c, ?_⟩
  apply Wave.settles _ (halfOf_pos hn true) (halfOf_pos hn false) hpos hbound
  intro j
  cases j with
  | zero => exact hlevel.symm
  | succ j =>
    rw [Function.iterate_succ_apply, Function.iterate_succ_apply, htick]
    exact congrArg Wave.level ((running_tick h hn).iterate hrunning j).2

end

structure Stuck (level : Bool) (c : Channel) : Prop where
  type : c.type = .i8253
  mode : c.mode = 3
  gate : c.gate = true
  register : c.countRegister % 2 = 0
  element : c.countingElement ≤ 0x10000
  odd : c.countingElement % 2 = 1
  state : c.state = .counting
  output : c.output = level

theorem stuck_tick {level : Bool} {c : Channel} (hc : Stuck level c) : Stuck level (tickChannel c) := by
  have hedge {c : Channel} (hc : Stuck level c) : Stuck level (clockEdge c) := by
    have heven := hc.register
    have hodd := hc.odd
    have hstride : stride c = 2 := if_neg fun h => by omega
    have hcounted := decrementN_counted c (stride_pos c)
    have hparity := iterate_parity c.bcd hc.element (stride c)
    rw [← hcounted.element, hstride] at hparity
    rw [clockEdge_counting hc.state, countTick_mode3 hc.mode hc.gate, countMode3_eq, hstride]
    rw [hstride] at hcounted
    have hnonzero : visibleCount (decrementN 2 c).countingElement ≠ 0 := by
      rw [visibleCount_lt hcounted.less]
      omega
    rw [if_neg hnonzero]
    have hconfig := hcounted.config
    exact ⟨(congrArg Config.type hconfig).trans hc.type, (congrArg Config.mode hconfig).trans hc.mode,
      (congrArg Config.gate hconfig).trans hc.gate,
      (congrArg (Config.register · % 2) hconfig).trans hc.register, Nat.le_of_lt hcounted.less, by omega,
      hcounted.state.trans hc.state, hcounted.output.trans hc.output⟩
  exact hedge ⟨hc.type, hc.mode, hc.gate, hc.register, hc.element, hc.odd, hc.state, hc.output⟩

theorem stuck_dead {level : Bool} {c : Channel} (hc : Stuck level c) (n : ℕ) : ¬ SquareWave n c := by
  rintro ⟨out, hfollows, first, -, -, -, -, hturn, -⟩
  have hstays (k : ℕ) : Stuck level (tickChannel^[k] c) := by
    induction k with
    | zero => exact hc
    | succ k ih =>
      rw [Function.iterate_succ_apply']
      exact stuck_tick ih
  rw [hfollows.eq, hfollows.eq, (hstays first).output, (hstays 0).output] at hturn
  cases level <;> cases hturn

/-- A count of five is loaded, and a count of four written at once. -/
def recounted (type : Chip) : Channel :=
  channelRun (programMode (setGate (resetChannel type) true) 0x36) [.write 5, .write 0, .tick, .write 4, .write 0]

theorem recounted_stuck :
    (recounted .i8253).ceUndefined = false ∧ (recounted .i8253).gate = true ∧ (recounted .i8253).writePhase = 0 ∧
      periodOf (recounted .i8253).bcd (recounted .i8253).countRegister = 4 ∧ ¬ SquareWave 4 (recounted .i8253) :=
  ⟨by decide +kernel, by decide +kernel, by decide +kernel, by decide +kernel,
    @stuck_dead true _ ⟨by decide +kernel, by decide +kernel, by decide +kernel, by decide +kernel,
      by decide +kernel, by decide +kernel, by decide +kernel, by decide +kernel⟩ 4⟩

/-- A square wave goes over to any count, but not on an 8253 with an even one while its element is odd. -/
theorem square_iff {c : Channel} (hfits : c.countRegister < 0x10000) {word : Byte} (hmode : modeOf word = 3)
    {ops : List ChannelOp} (hops : ∀ op ∈ ops, ∀ word, op ≠ .program word) :
    let now := channelRun (programMode c word) ops
    let n := periodOf now.bcd now.countRegister
    now.ceUndefined = false → now.gate = true → now.writePhase = 0 → 2 ≤ n →
      (SquareWave n now ↔ ¬(now.type = .i8253 ∧ now.state = .counting ∧ now.countingElement % 2 = 1 ∧
        now.countRegister % 2 = 0)) := by
  intro now n hl hgate _ hn
  have hreached : Reached now := reached_run (programmed_reached hfits hmode) hops
  have hloaded := hreached.loaded hl
  have hconfig : configOf now = ⟨now.type, now.bcd, now.countRegister, 3, true⟩ := by
    rw [← hreached.mode, ← hgate]
    rfl
  constructor
  · rintro hsquare ⟨htype, hstate, hodd, heven⟩
    exact stuck_dead ⟨htype, hreached.mode, hgate, heven, hloaded.element, hodd, hstate, rfl⟩ n hsquare
  · intro hparity
    rcases hloaded.stage with hstate | hstate | hstate | ⟨-, hoff⟩
    · refine running_square hreached.register hn ⟨hconfig, hloaded.element, .inl ⟨hstate, hloaded.toggle hstate, ?_⟩⟩
      intro hodd
      have htype : now.type = .i8253 := by
        cases htype : now.type with
        | i8253 => rfl
        | i8254 =>
          have := hloaded.even htype
          omega
      refine ⟨htype, ?_⟩
      by_contra heven
      exact hparity ⟨htype, hstate, hodd, by omega⟩
    · exact loading_square hreached.register hn hconfig (.inr hstate)
    · exact loading_square hreached.register hn hconfig (.inl hstate)
    · rw [hgate] at hoff
      cases hoff

theorem square_recounted : SquareWave 4 (recounted .i8254) := by
  have hperiod : periodOf (recounted .i8254).bcd (recounted .i8254).countRegister = 4 := by decide +kernel
  have hsquare := @square_iff (setGate (resetChannel .i8254) true) (by decide +kernel) 0x36 (by decide +kernel)
    [.write 5, .write 0, .tick, .write 4, .write 0] (by decide) (by decide +kernel) (by decide +kernel)
    (by decide +kernel) (by decide +kernel)
  have hwave := hsquare.mpr (by decide +kernel)
  rw [← hperiod]
  exact hwave

end PeepeeBox.PitRecount
