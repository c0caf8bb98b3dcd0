import PeepeeBox.PitRuns

set_option autoImplicit false

/-!
# The periods of modes 2 and 3

From the edge on which its count is loaded a channel in mode 2 or 3 is periodic, with the count for a period.
-/
namespace PeepeeBox.PitPeriod
open Pit PitCounts PitSquare PitRuns Waves

/-- The bytes that write a register in a read/write mode. -/
def Expresses (rwMode : ℕ) (bytes : List Byte) (register : ℕ) : Prop :=
  rwMode = 1 ∧ (∃ b : Byte, bytes = [b] ∧ register = b.toNat) ∨
    rwMode = 2 ∧ (∃ b : Byte, bytes = [b] ∧ register = b.toNat * 0x100) ∨
    rwMode = 3 ∧ ∃ lsb msb : Byte, bytes = [lsb, msb] ∧ register = lsb.toNat + msb.toNat * 0x100

theorem expresses_lt {rwMode : ℕ} {bytes : List Byte} {register : ℕ} (h : Expresses rwMode bytes register) :
    register < 0x10000 := by
  rcases h with ⟨-, b, -, rfl⟩ | ⟨-, b, -, rfl⟩ | ⟨-, lsb, msb, -, rfl⟩
  · have hb := b.isLt
    omega
  · have hb := b.isLt
    omega
  · have hl := lsb.isLt
    have hm := msb.isLt
    omega

/-- The mode a control word selects. -/
def modeOf (word : Byte) : ℕ := canonicalMode (word.toNat / 2 % 8)

/-- Its read/write mode. -/
def rwOf (word : Byte) : ℕ := word.toNat / 16 % 4

section
variable {c : Channel} (value : Byte)

theorem dataWrite_low (h : c.rwMode = 1) : dataWrite c value = finalizeWrite { c with countRegister := value.toNat } := by
  cases c
  cases h
  rfl

theorem dataWrite_high (h : c.rwMode = 2) :
    dataWrite c value = finalizeWrite { c with countRegister := value.toNat * 0x100 } := by
  cases c
  cases h
  rfl

theorem dataWrite_first (h : c.rwMode = 3) (hphase : c.writePhase = 0) :
    dataWrite c value =
      { c with
        countRegister := c.countRegister / 0x100 * 0x100 + value.toNat, writePhase := 1
        state := if c.mode = 0 then .waitCount else c.state, output := if c.mode = 0 then false else c.output } := by
  cases c
  cases h
  cases hphase
  unfold dataWrite
  dsimp only
  rw [if_pos rfl]
  split_ifs <;> rfl

theorem dataWrite_second (h : c.rwMode = 3) (hphase : c.writePhase ≠ 0) :
    dataWrite c value =
      finalizeWrite
        { c with countRegister := c.countRegister % 0x100 + value.toNat * 0x100, writePhase := 0 } := by
  cases c
  cases h
  exact if_neg hphase

end

/-- A control word and a whole count. -/
def programmed (c : Channel) (word : Byte) (bytes : List Byte) : Channel := bytes.foldl dataWrite (programMode c word)

theorem programmed_eq (c : Channel) (word : Byte) {bytes : List Byte} {register : ℕ}
    (h : Expresses (rwOf word) bytes register) :
    programmed c word bytes = finalizeWrite { programMode c word with countRegister := register } := by
  have hrw : (programMode c word).rwMode = rwOf word := rfl
  unfold programmed
  rcases h with ⟨hone, b, rfl, rfl⟩ | ⟨htwo, b, rfl, rfl⟩ | ⟨hthree, lsb, msb, rfl, rfl⟩
  · exact dataWrite_low b (hrw.trans hone)
  · exact dataWrite_high b (hrw.trans htwo)
  · have hstopped : (if (programMode c word).mode = 0 then false else (programMode c word).output) =
        (programMode c word).output := by
      change (if canonicalMode _ = 0 then false else (canonicalMode _ != 0)) = (canonicalMode _ != 0)
      split_ifs with hzero
      · rw [hzero]
        rfl
      · rfl
    have hlow : ((programMode c word).countRegister / 0x100 * 0x100 + lsb.toNat) % 0x100 = lsb.toNat := by
      have hl := lsb.isLt
      omega
    have hwaits : (if (programMode c word).mode = 0 then PitState.waitCount else (programMode c word).state) =
        (programMode c word).state := ite_self _
    rw [List.foldl_cons, List.foldl_cons, List.foldl_nil, dataWrite_first lsb (hrw.trans hthree) rfl, hstopped, hwaits]
    refine Eq.trans (dataWrite_second msb ?_ ?_) ?_
    · exact hrw.trans hthree
    · exact Nat.one_ne_zero
    · dsimp only
      rw [hlow]
      rfl

/-- Ready to load, for the modes that load at once. -/
structure Ready (c : Channel) (config : Config) : Prop where
  agrees : configOf c = config
  state : c.state = .loadNext
  toggle : c.toggleOnReload = false
  whole : c.writePhase = 0
  output : c.output = (config.mode != 0)

theorem programmed_ready (c : Channel) (word : Byte) {bytes : List Byte} {register : ℕ}
    (h : Expresses (rwOf word) bytes register) (hmode : modeOf word ≠ 1 ∧ modeOf word ≠ 5)
    (hlegal : register = 1 → modeOf word ≠ 2 ∧ modeOf word ≠ 3) :
    Ready (programmed c word bytes) ⟨c.type, word.getLsbD 0, register, modeOf word, c.gate⟩ := by
  have hmode' : (programMode c word).mode = modeOf word := rfl
  have hmap : (if register = 1 then
      if (programMode c word).mode = 2 then { programMode c word with countRegister := 2 }
      else if (programMode c word).mode = 3 then { programMode c word with countRegister := 0 }
      else { programMode c word with countRegister := register }
    else { programMode c word with countRegister := register }) =
      { programMode c word with countRegister := register } := by
    split_ifs with hone htwo hthree
    · exact absurd htwo (hlegal hone).1
    · exact absurd hthree (hlegal hone).2
    · rfl
    · rfl
  rw [programmed_eq c word h]
  unfold finalizeWrite
  dsimp only
  rw [hmap]
  dsimp only
  rw [if_pos (show (programMode c word).initialLoad = true from rfl)]
  refine ⟨rfl, ?_, rfl, rfl, rfl⟩
  rw [hmode']
  exact if_neg (not_or.mpr hmode)

/-- What a load leaves in mode 2. -/
structure Restarted (c c' : Channel) : Prop where
  config : configOf c' = configOf c
  element : c'.countingElement = reloadOf c.countRegister
  output : c'.output = true
  state : c'.state = if c.gate then .counting else .waitGate
  toggle : c'.toggleOnReload = c.toggleOnReload

theorem load_mode2 {c : Channel} (hmode : c.mode = 2) : Restarted c (loadCountingElement c) := by
  obtain ⟨l, i, hl⟩ := load_eq c
  have hload : (if c.type = .i8254 ∧ c.mode = 3 ∧ c.countRegister % 2 = 1 then evenPart (reloadValue c)
      else reloadValue c) = reloadOf c.countRegister := by
    unfold reloadValue
    simp [hmode]
  have henter {d : Channel} (hd : d.mode = 2) :
      enterLoaded d = { setOutput d true with state := if d.gate then .counting else .waitGate } := by
    unfold enterLoaded
    rw [hd]
    rfl
  rw [hload] at hl
  rw [hl, henter (by exact hmode)]
  exact ⟨rfl, rfl, rfl, rfl, rfl⟩

theorem countTick_mode2 {c : Channel} (hmode : c.mode = 2) (hgate : c.gate = true) :
    countTick c =
      if visibleCount (decrement c).countingElement = 1 then
        { setOutput (decrement c) false with state := .reloadNext }
      else decrement c := by
  unfold countTick
  rw [hmode]
  exact if_pos hgate

theorem countTick_gated {c : Channel} (hmode : c.mode = 2 ∨ c.mode = 3) (hgate : c.gate = false) : countTick c = c := by
  have hoff : ¬ c.gate = true := by
    rw [hgate]
    exact Bool.false_ne_true
  unfold countTick
  rcases hmode with hm | hm
  · rw [hm]
    exact if_neg hoff
  · rw [hm]
    exact if_neg hoff

theorem setGate_same {c : Channel} {level : Bool} (h : c.gate = level) : setGate c level = c := by
  cases c
  cases h
  rename_i gate _ _ _ _ _ _ _ _
  cases gate with
  | false => rfl
  | true => rfl

theorem setGate_rise {c : Channel} (hmode : c.mode = 2 ∨ c.mode = 3) (hgate : c.gate = false)
    (hstarted : c.state ≠ .waitCount) : setGate c true = { c with gate := true, state := .loadNext } := by
  unfold setGate
  dsimp only
  rw [if_pos ⟨hgate, rfl⟩]
  rcases hmode with hm | hm
  · simp [hm, hstarted]
  · simp [hm, hstarted]

theorem setGate_unwritten {c : Channel} (hmode : c.mode = 2 ∨ c.mode = 3) (hstate : c.state = .waitCount) :
    setGate c true = { c with gate := true } := by
  unfold setGate
  rcases hmode with hm | hm
  · simp [hm, hstate]
  · simp [hm, hstate]

theorem setGate_fall {c : Channel} (hmode : c.mode = 2 ∨ c.mode = 3) (hgate : c.gate = true) :
    setGate c false =
      { c with gate := false, output := true, state := if c.state ≠ .waitCount then .waitGate else c.state } := by
  unfold setGate
  dsimp only
  rw [if_neg fun h => Bool.false_ne_true h.2, if_pos ⟨hgate, rfl⟩]
  by_cases hs : c.state = .waitCount
  · rcases hmode with hm | hm
    · simp [hm, hs, setOutput]
    · simp [hm, hs, setOutput]
  · rcases hmode with hm | hm
    · simp [hm, hs, setOutput]
    · simp [hm, hs, setOutput]

theorem decrement_counted (c : Channel) : Counted 1 c (decrement c) := decrementN_counted c Nat.one_pos

theorem counted_value {c c' : Channel} {n : ℕ} (hc : Counted n c c') (h : c.countingElement ≤ 0x10000)
    (hn : n ≤ value c.bcd c.countingElement) :
    value c.bcd c'.countingElement = value c.bcd c.countingElement - n := by
  rw [hc.element, value_iterate c.bcd h (by omega), if_pos hn]

/-- Place `p` of a period in mode 2. -/
structure RateAt (type : Chip) (bcd : Bool) (register p : ℕ) (c : Channel) : Prop where
  config : configOf c = ⟨type, bcd, register, 2, true⟩
  place : p < periodOf bcd register
  element : c.countingElement ≤ 0x10000
  value : value bcd c.countingElement = periodOf bcd register - p
  output : c.output = decide (p ≠ periodOf bcd register - 1)
  state : c.state = if p = periodOf bcd register - 1 then .reloadNext else .counting

section
variable {type : Chip} {bcd : Bool} {register : ℕ}

theorem rate_loaded (h : register < 0x10000) (hn : 2 ≤ periodOf bcd register) {c : Channel}
    (hconfig : configOf c = ⟨type, bcd, register, 2, true⟩) :
    RateAt type bcd register 0 (loadCountingElement c) := by
  have hload := load_mode2 (congrArg Config.mode hconfig)
  have hregister : c.countRegister = register := congrArg Config.register hconfig
  have hgate : c.gate = true := congrArg Config.gate hconfig
  have hfirst : 0 ≠ periodOf bcd register - 1 := by omega
  refine ⟨hload.config.trans hconfig, by omega, ?_, ?_, ?_, ?_⟩
  · rw [hload.element, hregister]
    exact reloadOf_le h
  · rw [hload.element, hregister]
    rfl
  · rw [hload.output, decide_eq_true hfirst]
  · rw [hload.state, hgate, if_neg hfirst]
    rfl

theorem rate_edge (h : register < 0x10000) (hn : 2 ≤ periodOf bcd register) {p : ℕ} {c : Channel}
    (hc : RateAt type bcd register p c) :
    RateAt type bcd register ((p + 1) % periodOf bcd register) (clockEdge c) := by
  have hplace := hc.place
  by_cases hlast : p = periodOf bcd register - 1
  · have hstate : c.state = .reloadNext := by rw [hc.state, if_pos hlast]
    have hwrap : (p + 1) % periodOf bcd register = 0 := by
      rw [hlast, Nat.sub_add_cancel (by omega), Nat.mod_self]
    rw [clockEdge_load (.inr hstate), hwrap]
    exact rate_loaded h hn hc.config
  · have hstate : c.state = .counting := by rw [hc.state, if_neg hlast]
    have hbcd : c.bcd = bcd := congrArg Config.bcd hc.config
    have hgate : c.gate = true := congrArg Config.gate hc.config
    have hmode : c.mode = 2 := congrArg Config.mode hc.config
    have hnext : (p + 1) % periodOf bcd register = p + 1 := Nat.mod_eq_of_lt (by omega)
    have hcounted := decrement_counted c
    have hvalue := counted_value hcounted hc.element (by rw [hbcd, hc.value]; omega)
    rw [hbcd, hc.value] at hvalue
    rw [clockEdge_counting hstate, countTick_mode2 hmode hgate, hnext]
    generalize decrement c = d at hcounted hvalue
    have hconfig := hcounted.config.trans hc.config
    have hone : visibleCount d.countingElement = 1 ↔ p + 1 = periodOf bcd register - 1 := by
      rw [visibleCount_lt hcounted.less, ← value_one bcd hcounted.less, hvalue]
      omega
    split_ifs with hvisible
    · have hlow := hone.mp hvisible
      refine ⟨hconfig, by omega, Nat.le_of_lt hcounted.less, hvalue.trans (Nat.sub_sub _ _ _), ?_, ?_⟩
      · rw [decide_eq_false (not_not_intro hlow)]
        rfl
      · rw [if_pos hlow]
    · have hhigh := mt hone.mpr hvisible
      refine ⟨hconfig, by omega, Nat.le_of_lt hcounted.less, hvalue.trans (Nat.sub_sub _ _ _), ?_, ?_⟩
      · rw [hcounted.output, hc.output, decide_eq_true hlast, decide_eq_true hhigh]
      · rw [if_neg hhigh]
        exact hcounted.state.trans hstate

theorem rate_tick (h : register < 0x10000) (hn : 2 ≤ periodOf bcd register) {p : ℕ} {c : Channel}
    (hc : RateAt type bcd register p c) :
    RateAt type bcd register ((p + 1) % periodOf bcd register) (tickChannel c) := by
  have hlater : RateAt type bcd register p { c with clocks := c.clocks + 1 } :=
    ⟨hc.config, hc.place, hc.element, hc.value, hc.output, hc.state⟩
  exact rate_edge h hn hlater

theorem rate_run (h : register < 0x10000) (hn : 2 ≤ periodOf bcd register) {c : Channel}
    (hc : RateAt type bcd register 0 c) (k : ℕ) :
    RateAt type bcd register (k % periodOf bcd register) (tickChannel^[k] c) := by
  induction k with
  | zero =>
    rw [Nat.zero_mod]
    exact hc
  | succ k ih =>
    have hnext := rate_tick h hn ih
    rw [Nat.mod_add_mod] at hnext
    rw [Function.iterate_succ_apply']
    exact hnext

end

/-- Nobody writes to the channel. -/
def Unwritten : ChannelOp → Prop
  | .program _ | .write _ => False
  | .latch | .readBack _ | .read | .gate _ | .tick => True

/-- An element from which counting ends at zero, or at one in mode 2. -/
structure Steady (type : Chip) (bcd : Bool) (register mode element : ℕ) : Prop where
  fits : element ≤ 0x10000
  most : value bcd element ≤ periodOf bcd register
  least : (if mode = 2 then 2 else 1) ≤ value bcd element
  odd : mode = 3 → element % 2 = 1 → type = .i8253 ∧ register % 2 = 1 ∧ 3 ≤ value bcd element

/-- A channel in mode 2 or 3 whatever its GATE has done. -/
structure Within (type : Chip) (bcd : Bool) (register mode : ℕ) (c : Channel) : Prop where
  config : configOf c = ⟨type, bcd, register, mode, c.gate⟩
  element : c.countingElement ≤ 0x10000
  most : value bcd c.countingElement ≤ periodOf bcd register
  stage :
    c.state = .counting ∧ Steady type bcd register mode c.countingElement ∨
      c.state = .reloadNext ∨ c.state = .loadNext ∨ c.state = .waitGate

section
variable {type : Chip} {bcd : Bool} {register mode : ℕ}

theorem steady_reloadOf (h : register < 0x10000) (hn : 2 ≤ periodOf bcd register) :
    Steady type bcd register 2 (reloadOf register) :=
  ⟨reloadOf_le h, Nat.le_refl _, hn, (nomatch ·)⟩

theorem steady_loadedOf (h : register < 0x10000) (hn : 2 ≤ periodOf bcd register) :
    Steady type bcd register 3 (loadedOf type register) := by
  have hparity := value_parity bcd (reloadOf_le h)
  by_cases hodd : register % 2 = 1
  · have hthree : 3 ≤ periodOf bcd register := by
      have hp : periodOf bcd register % 2 = 1 := by
        unfold periodOf
        rw [hparity, reloadOf_odd hodd]
        exact hodd
      omega
    have hperiod : periodOf bcd register = value bcd register := by
      unfold periodOf
      rw [reloadOf_odd hodd]
    cases type with
    | i8253 =>
      rw [loadedOf_whole (not_masked register), reloadOf_odd hodd]
      refine ⟨Nat.le_of_lt h, by omega, ?_, fun _ _ => ⟨rfl, hodd, by omega⟩⟩
      rw [if_neg (by decide)]
      omega
    | i8254 =>
      have hvalue := value_evenPart bcd h hodd
      rw [loadedOf_masked hodd]
      refine ⟨?_, by omega, ?_, fun _ hodd' => ?_⟩
      · unfold evenPart
        omega
      · rw [if_neg (by decide)]
        omega
      · unfold evenPart at hodd'
        omega
  · rw [loadedOf_whole fun hc => hodd hc.2]
    refine ⟨reloadOf_le h, Nat.le_refl _, ?_, fun _ hodd' => ?_⟩
    · rw [if_neg (by decide)]
      exact Nat.le_of_lt hn
    · unfold reloadOf at hodd'
      split_ifs at hodd'
      exact absurd hodd' hodd

theorem Within.of_bare {c c' : Channel} (h : bare c = bare c') (hc : Within type bcd register mode c) :
    Within type bcd register mode c' := by
  have hconfig : configOf c = configOf c' := bare_congr configOf (fun _ => rfl) h
  have helement : c.countingElement = c'.countingElement := bare_congr Channel.countingElement (fun _ => rfl) h
  have hstate : c.state = c'.state := bare_congr Channel.state (fun _ => rfl) h
  have hgate : c.gate = c'.gate := bare_congr Channel.gate (fun _ => rfl) h
  exact ⟨by rw [← hconfig, hc.config, hgate], helement ▸ hc.element, helement ▸ hc.most,
    by rw [← hstate, ← helement]; exact hc.stage⟩

theorem within_load (h : register < 0x10000) (hn : 2 ≤ periodOf bcd register) (hmode : mode = 2 ∨ mode = 3)
    {c : Channel} (hc : configOf c = ⟨type, bcd, register, mode, c.gate⟩) :
    Within type bcd register mode (loadCountingElement c) := by
  have htype : c.type = type := congrArg Config.type hc
  have hregister : c.countRegister = register := congrArg Config.register hc
  have hentered {c' : Channel} (hconfig : configOf c' = configOf c)
      (hsteady : Steady type bcd register mode c'.countingElement)
      (hstate : c'.state = if c.gate then .counting else .waitGate) : Within type bcd register mode c' := by
    have hgate : c'.gate = c.gate := congrArg Config.gate hconfig
    refine ⟨by rw [hconfig, hc, hgate], hsteady.fits, hsteady.most, ?_⟩
    cases hg : c.gate with
    | true =>
      rw [hg, if_pos rfl] at hstate
      exact .inl ⟨hstate, hsteady⟩
    | false =>
      rw [hg, if_neg Bool.false_ne_true] at hstate
      exact .inr (.inr (.inr hstate))
  rcases hmode with rfl | rfl
  · have hload := load_mode2 (congrArg Config.mode hc)
    refine hentered hload.config ?_ hload.state
    rw [hload.element, hregister]
    exact steady_reloadOf h hn
  · have hload := load_mode3 (congrArg Config.mode hc)
    refine hentered hload.config ?_ hload.state
    rw [hload.element, hregister, htype]
    exact steady_loadedOf h hn

theorem within_counted {c c' : Channel} (hc : Within type bcd register mode c) {n : ℕ} (hcounted : Counted n c c')
    (hn : n ≤ value bcd c.countingElement) :
    configOf c' = ⟨type, bcd, register, mode, c'.gate⟩ ∧ c'.countingElement ≤ 0x10000 ∧
      value bcd c'.countingElement = value bcd c.countingElement - n := by
  have hbcd : c.bcd = bcd := congrArg Config.bcd hc.config
  have hgate : c'.gate = c.gate := congrArg Config.gate hcounted.config
  have hvalue := counted_value hcounted hc.element (by rw [hbcd]; exact hn)
  rw [hbcd] at hvalue
  exact ⟨by rw [hcounted.config, hc.config, hgate], Nat.le_of_lt hcounted.less, hvalue⟩

theorem within_mode2 {c : Channel} (hc : Within type bcd register 2 c) (hgate : c.gate = true)
    (hstate : c.state = .counting) (hsteady : Steady type bcd register 2 c.countingElement) :
    Within type bcd register 2 (countTick c) := by
  have hleast : 2 ≤ value bcd c.countingElement := hsteady.least
  have hmost := hsteady.most
  have hcounted := decrement_counted c
  obtain ⟨hconfig, hfits, hvalue⟩ := within_counted hc hcounted (by omega)
  rw [countTick_mode2 (congrArg Config.mode hc.config) hgate]
  generalize decrement c = d at hcounted hconfig hfits hvalue
  have hone := visibleCount_lt hcounted.less
  split_ifs with hvisible
  · exact ⟨hconfig, hfits, by change value bcd d.countingElement ≤ _; omega, .inr (.inl rfl)⟩
  · rw [hone, ← value_one bcd hcounted.less] at hvisible
    have hleft : 2 ≤ value bcd d.countingElement := by omega
    exact ⟨hconfig, hfits, by omega,
      .inl ⟨hcounted.state.trans hstate, ⟨hfits, by omega, hleft, (nomatch ·)⟩⟩⟩

theorem within_mode3 (h : register < 0x10000) (hn : 2 ≤ periodOf bcd register) {c : Channel}
    (hc : Within type bcd register 3 c) (hstate : c.state = .counting)
    (hsteady : Steady type bcd register 3 c.countingElement) : Within type bcd register 3 (countMode3 c) := by
  have htype : c.type = type := congrArg Config.type hc.config
  have hregister : c.countRegister = register := congrArg Config.register hc.config
  have hleast : 1 ≤ value bcd c.countingElement := hsteady.least
  have hmost := hsteady.most
  have hparity := value_parity bcd hc.element
  have hload := @steady_loadedOf type bcd register h hn
  -- a reload, and an edge that ends above zero
  have hreloaded {d : Channel} (hconfig : configOf d = ⟨type, bcd, register, 3, d.gate⟩) (hcounts : d.state = .counting)
      (level : Bool) {element : ℕ} (helement : element = loadedOf type register) :
      Within type bcd register 3 (updateLiveLatch (setElement (setOutput d level) element)) := by
    subst helement
    exact Within.of_bare (bare_updateLiveLatch _).symm ⟨hconfig, hload.fits, hload.most, .inl ⟨hcounts, hload⟩⟩
  have hon {d : Channel} {n : ℕ} (hcounted : Counted n c d) (hn : n ≤ value bcd c.countingElement)
      (hvisible : ¬ visibleCount d.countingElement = 0) (heven : (value bcd c.countingElement - n) % 2 = 0) :
      Within type bcd register 3 d := by
    obtain ⟨hconfig, hfits, hvalue⟩ := within_counted hc hcounted hn
    have hpos := mt (visible_zero bcd hcounted.less).mpr hvisible
    have hparity' := value_parity bcd hfits
    refine ⟨hconfig, hfits, by omega, .inl ⟨hcounted.state.trans hstate, hfits, by omega, ?_, fun _ hodd => by omega⟩⟩
    exact Nat.pos_of_ne_zero hpos
  unfold countMode3
  dsimp only
  rw [htype, hregister]
  by_cases hmask : type = .i8254 ∧ register % 2 = 1
  · rw [if_pos ⟨hmask.2, hmask.1⟩]
    have heven : c.countingElement % 2 = 0 := by
      by_contra hodd
      have h53 := (hsteady.odd rfl (by omega)).1
      rw [hmask.1] at h53
      cases h53
    have hcounted := decrementN_counted c Nat.two_pos
    obtain ⟨hconfig, hfits, hvalue⟩ := within_counted hc hcounted (by omega)
    generalize decrementN 2 c = d at hcounted hconfig hfits hvalue
    have hregister' : d.countRegister = register := congrArg Config.register hconfig
    split_ifs with hvisible hout
    · exact ⟨hconfig, hfits, by change value bcd d.countingElement ≤ _; omega, .inr (.inl rfl)⟩
    · apply hreloaded hconfig (hcounted.state.trans hstate) true
      obtain ⟨rfl, hreg⟩ := hmask
      unfold reloadValue
      rw [loadedOf_masked hreg, hregister', reloadOf_odd hreg]
    · exact hon hcounted (by omega) hvisible (by omega)
  · rw [if_neg fun hboth => hmask ⟨hboth.2, hboth.1⟩]
    obtain ⟨n, hpos, hn', hbranch, heven⟩ : ∃ n, 0 < n ∧ n ≤ value bcd c.countingElement ∧
        (if register % 2 = 1 ∧ c.countingElement % 2 = 1 then decrementN (if c.output then 1 else 3) c
          else decrementN 2 c) = decrementN n c ∧ (value bcd c.countingElement - n) % 2 = 0 := by
      by_cases hone : c.countingElement % 2 = 1
      · obtain ⟨-, hreg, hthree⟩ := hsteady.odd rfl hone
        rw [if_pos ⟨hreg, hone⟩]
        cases c.output with
        | true => exact ⟨1, by decide, by omega, rfl, by omega⟩
        | false => exact ⟨3, by decide, hthree, rfl, by omega⟩
      · exact ⟨2, by decide, by omega, if_neg fun hboth => hone hboth.2, by omega⟩
    have hcounted := decrementN_counted c hpos
    obtain ⟨hconfig, -, -⟩ := within_counted hc hcounted hn'
    rw [hbranch]
    generalize decrementN n c = d at hcounted hconfig
    have hregister' : d.countRegister = register := congrArg Config.register hconfig
    split_ifs with hvisible
    · apply hreloaded hconfig (hcounted.state.trans hstate) (!d.output)
      unfold reloadValue
      rw [loadedOf_whole hmask, hregister']
    · exact hon hcounted hn' hvisible heven

theorem within_tick (h : register < 0x10000) (hn : 2 ≤ periodOf bcd register) (hmode : mode = 2 ∨ mode = 3)
    {c : Channel} (hc : Within type bcd register mode c) : Within type bcd register mode (tickChannel c) := by
  have hedge (c : Channel) (hc : Within type bcd register mode c) : Within type bcd register mode (clockEdge c) := by
    have hmode' : c.mode = mode := congrArg Config.mode hc.config
    rcases hc.stage with ⟨hstate, hsteady⟩ | hstate | hstate | hstate
    · rw [clockEdge_counting hstate]
      cases hgate : c.gate with
      | false =>
        rw [countTick_gated (by rw [hmode']; exact hmode) hgate]
        exact hc
      | true =>
        rcases hmode with rfl | rfl
        · exact within_mode2 hc hgate hstate hsteady
        · rw [countTick_mode3 hmode' hgate]
          exact within_mode3 h hn hc hstate hsteady
    · rw [clockEdge_load (.inr hstate)]
      exact within_load h hn hmode hc.config
    · rw [clockEdge_load (.inl hstate)]
      exact within_load h hn hmode hc.config
    · rw [clockEdge_waits (.inr (.inl hstate))]
      exact hc
  exact hedge _ ⟨hc.config, hc.element, hc.most, hc.stage⟩

theorem within_iterate (h : register < 0x10000) (hn : 2 ≤ periodOf bcd register) (hmode : mode = 2 ∨ mode = 3)
    {c : Channel} (hc : Within type bcd register mode c) (k : ℕ) :
    Within type bcd register mode (tickChannel^[k] c) := by
  induction k with
  | zero => exact hc
  | succ k ih =>
    rw [Function.iterate_succ_apply']
    exact within_tick h hn hmode ih

theorem within_gate (hmode : mode = 2 ∨ mode = 3) {c : Channel} (hc : Within type bcd register mode c) (level : Bool) :
    Within type bcd register mode (setGate c level) := by
  have hstarted : c.state ≠ .waitCount := by
    rcases hc.stage with ⟨hstate, -⟩ | hstate | hstate | hstate
    · simp [hstate]
    · simp [hstate]
    · simp [hstate]
    · simp [hstate]
  have hmode' : c.mode = 2 ∨ c.mode = 3 := by
    have hm : c.mode = mode := congrArg Config.mode hc.config
    rw [hm]
    exact hmode
  have hconfig (g : Bool) : configOf { c with gate := g } = ⟨type, bcd, register, mode, g⟩ := by
    have hall := hc.config
    unfold configOf at hall ⊢
    rw [Config.mk.injEq] at hall ⊢
    exact ⟨hall.1, hall.2.1, hall.2.2.1, hall.2.2.2.1, rfl⟩
  by_cases hsame : c.gate = level
  · rw [setGate_same hsame]
    exact hc
  · cases level with
    | true =>
      rw [setGate_rise hmode' (by simpa using hsame) hstarted]
      exact ⟨hconfig true, hc.element, hc.most, .inr (.inr (.inl rfl))⟩
    | false =>
      rw [setGate_fall hmode' (by simpa using hsame), if_pos hstarted]
      exact ⟨hconfig false, hc.element, hc.most, .inr (.inr (.inr rfl))⟩

theorem within_run (h : register < 0x10000) (hn : 2 ≤ periodOf bcd register) (hmode : mode = 2 ∨ mode = 3)
    {c : Channel} (hc : Within type bcd register mode c) {ops : List ChannelOp} (hops : ∀ op ∈ ops, Unwritten op) :
    Within type bcd register mode (channelRun c ops) := by
  induction ops generalizing c with
  | nil => exact hc
  | cons op ops ih =>
    refine ih ?_ fun o ho => hops o (List.mem_cons_of_mem op ho)
    cases op with
    | tick => exact within_tick h hn hmode hc
    | gate level => exact within_gate hmode hc level
    | latch => exact hc.of_bare (bare_latchCount c).symm
    | readBack value => exact hc.of_bare (bare_readBack value c).symm
    | read => exact hc.of_bare (bare_dataRead c).symm
    | program word => exact absurd (hops _ List.mem_cons_self) id
    | write value => exact absurd (hops _ List.mem_cons_self) id

end

theorem Ready.loads {c : Channel} {config : Config} (h : Ready c config) :
    ∃ q, tickChannel c = loadCountingElement q ∧ configOf q = config ∧ q.toggleOnReload = false ∧
      q.state = .loadNext :=
  ⟨{ c with clocks := c.clocks + 1 }, clockEdge_load (.inl h.state), h.agrees, h.toggle, h.state⟩

theorem loaded_out {type : Chip} {bcd : Bool} {register mode : ℕ} (h : register < 0x10000)
    (hn : 2 ≤ periodOf bcd register) (hmode : mode = 2 ∨ mode = 3) {q : Channel}
    (hconfig : configOf q = ⟨type, bcd, register, mode, true⟩) (htoggle : q.toggleOnReload = false)
    (hstate : q.state = .loadNext) (k : ℕ) :
    (tickChannel^[k] (loadCountingElement q)).output =
      if mode = 2 then decide (k % periodOf bcd register ≠ periodOf bcd register - 1)
      else decide (k % periodOf bcd register < (periodOf bcd register + 1) / 2) := by
  rcases hmode with rfl | rfl
  · exact (rate_run h hn (rate_loaded h hn hconfig) k).output
  · obtain ⟨hrunning, hwave⟩ := running_loaded h hn hconfig
    have hhigh := (load_mode3 (congrArg Config.mode hconfig)).output
    have hfollows := ((running_tick h hn).iterate hrunning k).2
    have hthis := Wave.level_iterate (halfOf (periodOf bcd register)) (halfOf_pos hn true) (halfOf_pos hn false) true k
    rw [halfOf_sum] at hthis
    rw [htoggle, hstate, if_neg Bool.false_ne_true, if_pos (nomatch ·)] at hhigh
    rw [hwave, hhigh] at hfollows
    rw [if_neg (show (3 : ℕ) ≠ 2 by decide)]
    refine (congrArg Wave.level hfollows).trans (hthis.trans ?_)
    change (if _ < (periodOf bcd register + 1) / 2 then true else !true) = _
    split_ifs with hfirst
    · exact (decide_eq_true hfirst).symm
    · exact (decide_eq_false hfirst).symm

/-- A control word and a count for channel `i`. -/
def programs (i : ℕ) (word : Byte) (bytes : List Byte) : List Op := .control word :: bytes.map (.write i)

theorem expresses_written {word : Byte} {bytes : List Byte} {register : ℕ}
    (h : Expresses (rwOf word) bytes register) : word &&& 0x30 ≠ 0 := by
  intro hzero
  have hnone (w : Byte) : w &&& 0x30 = 0 → rwOf w = 0 := by
    revert w
    decide +kernel
  rw [hnone word hzero] at h
  rcases h with ⟨h, -⟩ | ⟨h, -⟩ | ⟨h, -⟩
  · cases h
  · cases h
  · cases h

theorem run_programs (pit : Device) {i : ℕ} (hi : i < 3) {word : Byte} (hselect : word.toNat / 64 = i)
    {bytes : List Byte} {register : ℕ} (h : Expresses (rwOf word) bytes register) :
    (run pit (programs i word bytes)).channel i = programmed (pit.channel i) word bytes := by
  have hword : seen pit.type i (.control word) = some (.program word) := by
    have hback : i ≠ 3 := Nat.ne_of_lt hi
    simp only [seen, hselect, hback, if_false, if_true]
    rw [if_neg (expresses_written h)]
  have hbytes : seenRun pit.type i (bytes.map (.write i)) = bytes.map .write := by
    clear h
    induction bytes with
    | nil => rfl
    | cons b bytes ih =>
      have hb : seen pit.type i (.write i b) = some (.write b) := if_pos rfl
      rw [List.map_cons, List.map_cons, seenRun, List.filterMap_cons, hb]
      exact congrArg (ChannelOp.write b :: ·) ih
  have hall : seenRun pit.type i (programs i word bytes) = .program word :: bytes.map .write := by
    unfold programs seenRun
    rw [List.filterMap_cons, hword]
    exact congrArg (ChannelOp.program word :: ·) hbytes
  rw [run_channel pit _ hi, hall]
  exact List.foldl_map

/-- From the loading edge on OUT is low on the last tick of a period in mode 2, and high for its longer half in mode 3;
the count that is read never passes the period. -/
theorem out_periodic (pit : Device) {i : ℕ} (hi : i < 3) {word : Byte} (hselect : word.toNat / 64 = i)
    (hmode : modeOf word = 2 ∨ modeOf word = 3) {bytes : List Byte} {register : ℕ}
    (h : Expresses (rwOf word) bytes register) (hn : 2 ≤ periodOf (word.getLsbD 0) register)
    (hgate : (pit.channel i).gate = true) {ops : List Op} (hops : ∀ op ∈ seenRun pit.type i ops, Idle op)
    (hload : 1 ≤ ticks (seenRun pit.type i ops)) {later : List Op}
    (hlater : ∀ op ∈ seenRun pit.type i later, Unwritten op) :
    let n := periodOf (word.getLsbD 0) register
    let place := (ticks (seenRun pit.type i ops) - 1) % n
    let loaded := run (run pit (programs i word bytes)) ops
    pitxGetOutput loaded i = (if modeOf word = 2 then decide (place ≠ n - 1) else decide (place < (n + 1) / 2)) ∧
      value (word.getLsbD 0) (pitxGetCount (run loaded later) i) ≤ n := by
  intro n place loaded
  have hlegal : register = 1 → modeOf word ≠ 2 ∧ modeOf word ≠ 3 := by
    rintro rfl
    have hone : periodOf (word.getLsbD 0) 1 = 1 := (value_one _ (by decide)).mpr rfl
    omega
  have hready := programmed_ready (pit.channel i) word h (by omega) hlegal
  have hlt := expresses_lt h
  have htype : (run pit (programs i word bytes)).type = pit.type := run_type pit _
  -- OUT and the count are those of a run of ticks alone
  obtain ⟨k, hk⟩ := Nat.exists_eq_add_of_le' hload
  have hplace : place = k % n := by
    change (ticks _ - 1) % n = k % n
    rw [hk, Nat.add_sub_cancel]
  have hbare : bare (loaded.channel i) =
      bare (tickChannel^[k] (tickChannel (programmed (pit.channel i) word bytes))) := by
    have hticks := idle_run ((run pit (programs i word bytes)).channel i) hops
    rw [hk, Function.iterate_succ_apply, ← htype, ← run_channel _ _ hi, run_programs pit hi hselect h] at hticks
    exact hticks
  generalize programmed (pit.channel i) word bytes = p at hready hbare
  rw [hgate] at hready
  obtain ⟨q, hfirst, hconfig, htoggle, hstate⟩ := hready.loads
  rw [hfirst] at hbare
  constructor
  · have hout : pitxGetOutput loaded i = (loaded.channel i).output := by simp [pitxGetOutput, hi]
    rw [hout, bare_congr Channel.output (fun _ => rfl) hbare, hplace]
    exact loaded_out hlt hn hmode hconfig htoggle hstate k
  · have hloaded : Within (pit.channel i).type (word.getLsbD 0) register (modeOf word) (loaded.channel i) := by
      have hload : Within (pit.channel i).type (word.getLsbD 0) register (modeOf word) (loadCountingElement q) := by
        apply within_load hlt hn hmode
        rw [hconfig, show q.gate = true from congrArg Config.gate hconfig]
      exact Within.of_bare hbare.symm (within_iterate hlt hn hmode hload k)
    have hlast := within_run hlt hn hmode hloaded hlater
    have hchannel : (run loaded later).channel i = channelRun (loaded.channel i) (seenRun pit.type i later) := by
      rw [run_channel _ _ hi, ← htype]
      congr 2
      exact run_type _ ops
    have hcount : pitxGetCount (run loaded later) i = visibleCount ((run loaded later).channel i).countingElement :=
      if_neg (by omega)
    rw [hcount, hchannel]
    refine Nat.le_trans ?_ hlast.most
    exact value_visible _ hlast.element

theorem out_periodic_odd :
    let pit := pitxSetGate (pitxReset .i8254) 1 true
    let loaded := run (run pit (programs 1 0x76 [3, 0])) [.tick 1, .tick 1, .read 1, .tick 1]
    pitxGetOutput loaded 1 = decide (2 % 3 < (3 + 1) / 2) ∧
      value false (pitxGetCount (run loaded [.tick 1, .gate 1 false, .tick 0]) 1) ≤ 3 := by
  intro pit
  have hseen : seenRun pit.type 1 [.tick 1, .tick 1, .read 1, .tick 1] = [.tick, .tick, .read, .tick] := by
    decide +kernel
  have hlater : seenRun pit.type 1 [.tick 1, .gate 1 false, .tick 0] = [.tick, .gate false] := by decide +kernel
  have hidle : ∀ op ∈ seenRun pit.type 1 [.tick 1, .tick 1, .read 1, .tick 1], Idle op := by
    rw [hseen]
    simp [Idle]
  have hunwritten : ∀ op ∈ seenRun pit.type 1 [.tick 1, .gate 1 false, .tick 0], Unwritten op := by
    rw [hlater]
    simp [Unwritten]
  have hbcd : (0x76 : Byte).getLsbD 0 = false := by decide
  obtain ⟨hout, hcount⟩ := out_periodic pit (i := 1) (by decide) (show (0x76 : Byte).toNat / 64 = 1 by decide)
    (.inr (by decide +kernel)) (.inr (.inr ⟨by decide +kernel, 3, 0, rfl, rfl⟩)) (by decide +kernel)
    (by decide +kernel) hidle (by rw [hseen]; decide +kernel) hunwritten
  have hperiod : periodOf false ((3 : Byte).toNat + (0 : Byte).toNat * 0x100) = 3 := by decide +kernel
  rw [hbcd] at hcount
  exact ⟨hout.trans (by decide +kernel), Nat.le_trans hcount (Nat.le_of_eq hperiod)⟩

end PeepeeBox.PitPeriod
