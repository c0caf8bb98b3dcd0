import PeepeeBox.PitCounts
import PeepeeBox.Waves

set_option autoImplicit false

/-!
# The square wave of mode 3

Both ways of halving an odd count, on the element of an 8253 and by the deferred reload of an 8254, count down the
ticks that are left of the level.  In that number mode 3 is the two-level wave.
-/
namespace PeepeeBox.PitSquare
open Pit PitCounts Waves

theorem updateLiveLatch_eq (c : Channel) : ∃ l, updateLiveLatch c = { c with outputLatch := l } := by
  unfold updateLiveLatch
  split_ifs
  · exact ⟨c.outputLatch, rfl⟩
  · exact ⟨visibleCount c.countingElement, rfl⟩

theorem decrement_eq (c : Channel) :
    ∃ l, decrement c = { c with countingElement := decremented c.bcd c.countingElement, outputLatch := l } := by
  obtain ⟨l, hl⟩ := updateLiveLatch_eq { c with countingElement := decremented c.bcd c.countingElement }
  exact ⟨l, hl⟩

theorem decrementN_eq (n : ℕ) (c : Channel) :
    ∃ l, decrementN n c =
      { c with countingElement := (decremented c.bcd)^[n] c.countingElement, outputLatch := l } := by
  induction n generalizing c with
  | zero => exact ⟨c.outputLatch, rfl⟩
  | succ n ih =>
    obtain ⟨l, hl⟩ := decrement_eq c
    obtain ⟨l', hl'⟩ := ih (decrement c)
    refine ⟨l', ?_⟩
    rw [decrementN, hl', hl]
    rfl

theorem iterate_lt (bcd : Bool) (element : ℕ) {n : ℕ} (hn : 0 < n) : (decremented bcd)^[n] element < 0x10000 := by
  obtain ⟨m, rfl⟩ := Nat.exists_eq_succ_of_ne_zero (Nat.ne_of_gt hn)
  rw [Function.iterate_succ_apply']
  exact decremented_lt bcd _

theorem value_iterate (bcd : Bool) {element : ℕ} (h : element ≤ 0x10000) {n : ℕ}
    (hn : n ≤ value bcd element + span bcd) :
    value bcd ((decremented bcd)^[n] element) =
      if n ≤ value bcd element then value bcd element - n else value bcd element + span bcd - n := by
  induction n with
  | zero => exact (if_pos (Nat.zero_le _)).symm
  | succ n ih =>
    have hbound : (decremented bcd)^[n] element ≤ 0x10000 := by
      rcases Nat.eq_zero_or_pos n with rfl | hpos
      · exact h
      · exact Nat.le_of_lt (iterate_lt bcd element hpos)
    have hspan := span_pos bcd
    rw [Function.iterate_succ_apply', value_decremented bcd hbound, ih (by omega)]
    split_ifs <;> omega

def halfOf (n : ℕ) (level : Bool) : ℕ := if level then (n + 1) / 2 else n / 2

def loadedOf (type : Chip) (register : ℕ) : ℕ :=
  if type = .i8254 ∧ register % 2 = 1 then evenPart (reloadOf register) else reloadOf register

def fullOf (bcd : Bool) (element : ℕ) : ℕ := if value bcd element = 0 then span bcd else value bcd element

def leftAt (type : Chip) (bcd : Bool) (register : ℕ) (level : Bool) (element : ℕ) : ℕ :=
  if type = .i8254 ∧ register % 2 = 1 then fullOf bcd element / 2 + level.toNat
  else if register % 2 = 1 ∧ element % 2 = 1 then
    if level then (value bcd element + 1) / 2
    else if value bcd element = 1 then span bcd / 2
    else value bcd element / 2
  else fullOf bcd element / 2

theorem not_masked (register : ℕ) : ¬(Chip.i8253 = .i8254 ∧ register % 2 = 1) := fun h => nomatch h.1

section
variable {type : Chip} {bcd : Bool} {register : ℕ} {level : Bool} {element : ℕ}

theorem leftAt_masked (hodd : register % 2 = 1) :
    leftAt .i8254 bcd register level element = fullOf bcd element / 2 + level.toNat := if_pos ⟨rfl, hodd⟩

theorem leftAt_odd (hodd : register % 2 = 1) (helement : element % 2 = 1) :
    leftAt .i8253 bcd register level element =
      if level then (value bcd element + 1) / 2
      else if value bcd element = 1 then span bcd / 2
      else value bcd element / 2 := by
  unfold leftAt
  rw [if_neg (not_masked register), if_pos ⟨hodd, helement⟩]

theorem leftAt_plain (hmask : ¬(type = .i8254 ∧ register % 2 = 1)) (hplain : ¬(register % 2 = 1 ∧ element % 2 = 1)) :
    leftAt type bcd register level element = fullOf bcd element / 2 := by
  unfold leftAt
  rw [if_neg hmask, if_neg hplain]

theorem fullOf_pos (h : 0 < value bcd element) : fullOf bcd element = value bcd element := if_neg (by omega)

theorem loadedOf_masked (hodd : register % 2 = 1) : loadedOf .i8254 register = evenPart register := by
  unfold loadedOf reloadOf
  rw [if_pos ⟨rfl, hodd⟩, if_neg (by omega)]

theorem loadedOf_whole (hmask : ¬(type = .i8254 ∧ register % 2 = 1)) : loadedOf type register = reloadOf register :=
  if_neg hmask

end

def waveOf (c : Channel) : Wave :=
  ⟨c.output, if c.state = .reloadNext then 1 else leftAt c.type c.bcd c.countRegister c.output c.countingElement⟩

theorem reloadOf_le {register : ℕ} (h : register < 0x10000) : reloadOf register ≤ 0x10000 := by
  unfold reloadOf
  split_ifs
  · exact Nat.le_refl _
  · exact Nat.le_of_lt h

theorem reloadOf_odd {register : ℕ} (hodd : register % 2 = 1) : reloadOf register = register :=
  if_neg (by omega)

theorem loadedOf_le {type : Chip} {register : ℕ} (h : register < 0x10000) : loadedOf type register ≤ 0x10000 := by
  unfold loadedOf
  split_ifs
  · unfold evenPart
    omega
  · exact reloadOf_le h

theorem leftAt_loaded (type : Chip) (bcd : Bool) {register : ℕ} (h : register < 0x10000)
    (hn : 2 ≤ value bcd (reloadOf register)) (level : Bool) :
    leftAt type bcd register level (loadedOf type register) = halfOf (value bcd (reloadOf register)) level := by
  have hparity := value_parity bcd (reloadOf_le h)
  unfold halfOf
  by_cases hodd : register % 2 = 1
  · rw [reloadOf_odd hodd] at hn hparity ⊢
    rw [hodd] at hparity
    cases type with
    | i8254 =>
      have heven := value_evenPart bcd h hodd
      rw [leftAt_masked hodd, loadedOf_masked hodd, fullOf_pos (by omega), heven]
      cases level with
      | true =>
        change _ + 1 = (value bcd register + 1) / 2
        omega
      | false =>
        change _ + 0 = value bcd register / 2
        omega
    | i8253 =>
      rw [loadedOf_whole (not_masked register), reloadOf_odd hodd, leftAt_odd hodd hodd]
      cases level with
      | true => rfl
      | false =>
        rw [if_neg (Bool.false_ne_true), if_neg (Bool.false_ne_true), if_neg (by omega)]
  · have hmask : ¬(type = .i8254 ∧ register % 2 = 1) := fun hc => hodd hc.2
    have heven : reloadOf register % 2 = 0 := by
      unfold reloadOf
      split_ifs <;> omega
    rw [loadedOf_whole hmask, leftAt_plain hmask fun hc => hodd hc.1, fullOf_pos (by omega)]
    cases level with
    | true =>
      change _ = (value bcd (reloadOf register) + 1) / 2
      omega
    | false => rfl

/-- What no clock edge changes. -/
structure Config where
  type : Chip
  bcd : Bool
  register : ℕ
  mode : ℕ
  gate : Bool
deriving DecidableEq, Repr

def configOf (c : Channel) : Config := ⟨c.type, c.bcd, c.countRegister, c.mode, c.gate⟩

theorem enterLoaded_mode3 {c : Channel} (hmode : c.mode = 3) : enterLoaded c = enterSquare c := by
  unfold enterLoaded
  rw [hmode]
  rfl

theorem load_eq (c : Channel) :
    ∃ l i, loadCountingElement c = enterLoaded
      { c with
        countingElement :=
          if c.type = .i8254 ∧ c.mode = 3 ∧ c.countRegister % 2 = 1 then evenPart (reloadValue c) else reloadValue c
        nullCount := false, ceUndefined := false, incompleteReload := i, outputLatch := l } := by
  unfold loadCountingElement
  dsimp only
  generalize (if c.type = .i8254 ∧ c.mode = 3 ∧ c.countRegister % 2 = 1 then evenPart (reloadValue c)
    else reloadValue c) = load
  split_ifs
  · obtain ⟨l, hl⟩ := updateLiveLatch_eq
      { c with countingElement := load, nullCount := false, ceUndefined := false, incompleteReload := true }
    exact ⟨l, true, congrArg enterLoaded hl⟩
  · obtain ⟨l, hl⟩ := updateLiveLatch_eq
      { c with countingElement := load, nullCount := false, ceUndefined := false }
    exact ⟨l, c.incompleteReload, congrArg enterLoaded hl⟩

/-- What a load leaves in mode 3. -/
structure Reloaded (c c' : Channel) : Prop where
  config : configOf c' = configOf c
  element : c'.countingElement = loadedOf c.type c.countRegister
  toggle : c'.toggleOnReload = false
  output : c'.output = if c.toggleOnReload then !c.output else if c.state ≠ .reloadNext then true else c.output
  state : c'.state = if c.gate then .counting else .waitGate

theorem load_mode3 {c : Channel} (hmode : c.mode = 3) : Reloaded c (loadCountingElement c) := by
  obtain ⟨l, i, hl⟩ := load_eq c
  have hload : (if c.type = .i8254 ∧ c.mode = 3 ∧ c.countRegister % 2 = 1 then evenPart (reloadValue c)
      else reloadValue c) = loadedOf c.type c.countRegister := by
    unfold loadedOf reloadValue
    simp [hmode]
  rw [hload] at hl
  rw [hl, enterLoaded_mode3 (by exact hmode)]
  unfold enterSquare
  dsimp only
  cases htoggle : c.toggleOnReload with
  | true => exact ⟨rfl, rfl, rfl, by rw [htoggle]; rfl, rfl⟩
  | false =>
    by_cases hstate : c.state = .reloadNext
    · rw [if_neg Bool.false_ne_true, if_neg (not_not_intro hstate)]
      exact ⟨rfl, rfl, rfl, by rw [htoggle, if_neg Bool.false_ne_true, if_neg (not_not_intro hstate)], rfl⟩
    · rw [if_neg Bool.false_ne_true, if_pos hstate]
      exact ⟨rfl, rfl, rfl, by rw [htoggle, if_neg Bool.false_ne_true, if_pos hstate]; rfl, rfl⟩

theorem halfOf_pos {n : ℕ} (hn : 2 ≤ n) (level : Bool) : 1 ≤ halfOf n level := by
  cases level with
  | true =>
    change 1 ≤ (n + 1) / 2
    omega
  | false =>
    change 1 ≤ n / 2
    omega

theorem halfOf_sum (n : ℕ) : halfOf n true + halfOf n false = n := by
  change (n + 1) / 2 + n / 2 = n
  omega

/-- The count a square wave is made from. -/
def periodOf (bcd : Bool) (register : ℕ) : ℕ := value bcd (reloadOf register)

/-- A channel in mode 3 that counts, or is about to end the high half of a masked count. -/
structure Running (type : Chip) (bcd : Bool) (register : ℕ) (c : Channel) : Prop where
  config : configOf c = ⟨type, bcd, register, 3, true⟩
  element : c.countingElement ≤ 0x10000
  stage :
    c.state = .counting ∧ c.toggleOnReload = false ∧ (c.countingElement % 2 = 1 → type = .i8253 ∧ register % 2 = 1) ∨
      c.state = .reloadNext ∧ c.toggleOnReload = true ∧ c.output = true

section
variable {type : Chip} {bcd : Bool} {register : ℕ}

theorem running_reloaded (h : register < 0x10000) (hn : 2 ≤ periodOf bcd register) {c : Channel}
    (hconfig : configOf c = ⟨type, bcd, register, 3, true⟩) (helement : c.countingElement = loadedOf type register)
    (hstate : c.state = .counting) (htoggle : c.toggleOnReload = false) :
    Running type bcd register c ∧ waveOf c = Wave.start (halfOf (periodOf bcd register)) c.output := by
  have htype : c.type = type := congrArg Config.type hconfig
  have hbcd : c.bcd = bcd := congrArg Config.bcd hconfig
  have hregister : c.countRegister = register := congrArg Config.register hconfig
  refine ⟨⟨hconfig, ?_, .inl ⟨hstate, htoggle, ?_⟩⟩, ?_⟩
  · rw [helement]
    exact loadedOf_le h
  · rw [helement]
    intro hodd
    by_cases hreg : register % 2 = 1
    · cases type with
      | i8253 => exact ⟨rfl, hreg⟩
      | i8254 =>
        rw [loadedOf_masked hreg] at hodd
        unfold evenPart at hodd
        omega
    · rw [loadedOf_whole fun hc => hreg hc.2] at hodd
      unfold reloadOf at hodd
      split_ifs at hodd
      exact absurd hodd hreg
  · unfold waveOf Wave.start
    rw [hstate, if_neg (nomatch ·), htype, hbcd, hregister, helement, leftAt_loaded type bcd h hn]
    rfl

theorem running_loaded (h : register < 0x10000) (hn : 2 ≤ periodOf bcd register) {c : Channel}
    (hconfig : configOf c = ⟨type, bcd, register, 3, true⟩) :
    Running type bcd register (loadCountingElement c) ∧
      waveOf (loadCountingElement c) = Wave.start (halfOf (periodOf bcd register)) (loadCountingElement c).output := by
  have htype : c.type = type := congrArg Config.type hconfig
  have hregister : c.countRegister = register := congrArg Config.register hconfig
  have hgate : c.gate = true := congrArg Config.gate hconfig
  have hload := load_mode3 (congrArg Config.mode hconfig)
  have helement := hload.element
  have hcounts := hload.state
  rw [htype, hregister] at helement
  rw [hgate, if_pos rfl] at hcounts
  exact running_reloaded h hn (hload.config.trans hconfig) helement hcounts hload.toggle

theorem running_deferred (h : register < 0x10000) (hn : 2 ≤ periodOf bcd register) {c : Channel}
    (hc : Running type bcd register c) (hstate : c.state = .reloadNext) (htoggle : c.toggleOnReload = true) :
    Running type bcd register (loadCountingElement c) ∧
      waveOf (loadCountingElement c) = (waveOf c).tick (halfOf (periodOf bcd register)) := by
  have hturned := (load_mode3 (congrArg Config.mode hc.config)).output
  rw [htoggle, if_pos rfl] at hturned
  obtain ⟨hrunning, hwave⟩ := running_loaded h hn hc.config
  have hturn : (waveOf c).left ≤ 1 := by
    unfold waveOf
    exact (congrArg (· ≤ 1) (if_pos hstate)).mpr (Nat.le_refl 1)
  refine ⟨hrunning, ?_⟩
  rw [Wave.tick_turn _ hturn, hwave, hturned]
  rfl

theorem fullOf_even {element : ℕ} (h : element ≤ 0x10000) (heven : element % 2 = 0) :
    2 ≤ fullOf bcd element ∧ fullOf bcd element % 2 = 0 := by
  have hspan := span_pos bcd
  have hparity := value_parity bcd h
  unfold fullOf
  split_ifs <;> omega

theorem value_two {element : ℕ} (h : element ≤ 0x10000) (heven : element % 2 = 0) :
    value bcd ((decremented bcd)^[2] element) = fullOf bcd element - 2 := by
  have hspan := span_pos bcd
  have hparity := value_parity bcd h
  rw [value_iterate bcd h (by omega)]
  unfold fullOf
  split_ifs <;> omega

/-- `n` counts off the element, and nothing else. -/
structure Counted (n : ℕ) (c c' : Channel) : Prop where
  config : configOf c' = configOf c
  state : c'.state = c.state
  toggle : c'.toggleOnReload = c.toggleOnReload
  output : c'.output = c.output
  element : c'.countingElement = (decremented c.bcd)^[n] c.countingElement
  less : c'.countingElement < 0x10000

theorem decrementN_counted (c : Channel) {n : ℕ} (hn : 0 < n) : Counted n c (decrementN n c) := by
  obtain ⟨l, hl⟩ := decrementN_eq n c
  rw [hl]
  exact ⟨rfl, rfl, rfl, rfl, rfl, iterate_lt c.bcd c.countingElement hn⟩

/-- How many counts an edge takes off in mode 3. -/
def stride (c : Channel) : ℕ :=
  if c.type = .i8253 ∧ c.countRegister % 2 = 1 ∧ c.countingElement % 2 = 1 then if c.output then 1 else 3 else 2

theorem stride_pos (c : Channel) : 0 < stride c := by
  unfold stride
  split_ifs <;> decide

theorem countMode3_eq (c : Channel) :
    countMode3 c =
      if visibleCount (decrementN (stride c) c).countingElement = 0 then
        if c.type = .i8254 ∧ c.countRegister % 2 = 1 ∧ c.output = true then deferToggle (decrementN (stride c) c)
        else
          updateLiveLatch (setElement (setOutput (decrementN (stride c) c) (!c.output))
            (loadedOf c.type c.countRegister))
      else decrementN (stride c) c := by
  have hcounted := decrementN_counted c (stride_pos c)
  have hregister : (decrementN (stride c) c).countRegister = c.countRegister := congrArg Config.register hcounted.config
  have hout := hcounted.output
  unfold countMode3
  dsimp only
  by_cases hmask : c.type = .i8254 ∧ c.countRegister % 2 = 1
  · have hstride : stride c = 2 := by
      unfold stride
      rw [if_neg]
      rw [hmask.1]
      exact fun h => nomatch h.1
    rw [hstride] at hregister hout ⊢
    rw [if_pos ⟨hmask.2, hmask.1⟩, hout]
    split_ifs with hzero hlevel hboth hboth
    · rfl
    · exact absurd ⟨hmask.1, hmask.2, hlevel⟩ hboth
    · exact absurd hboth.2.2 hlevel
    · have hloaded : evenPart (reloadValue (decrementN 2 c)) = loadedOf c.type c.countRegister := by
        unfold reloadValue
        rw [hregister, hmask.1, loadedOf_masked hmask.2, reloadOf_odd hmask.2]
      have hlow : c.output = false := Bool.eq_false_iff.mpr hlevel
      rw [hloaded, hlow]
      rfl
    · rfl
  · have hbranch : (if c.countRegister % 2 = 1 ∧ c.countingElement % 2 = 1 then
        decrementN (if c.output then 1 else 3) c else decrementN 2 c) = decrementN (stride c) c := by
      unfold stride
      by_cases hodd : c.countRegister % 2 = 1 ∧ c.countingElement % 2 = 1
      · have htype : c.type = .i8253 := by
          cases htype : c.type with
          | i8253 => rfl
          | i8254 => exact absurd ⟨htype, hodd.1⟩ hmask
        have hall : c.type = .i8253 ∧ c.countRegister % 2 = 1 ∧ c.countingElement % 2 = 1 := ⟨htype, hodd⟩
        rw [if_pos hodd, if_pos hall]
      · rw [if_neg hodd, if_neg fun h => hodd h.2]
    have hloaded : reloadValue (decrementN (stride c) c) = loadedOf c.type c.countRegister := by
      unfold reloadValue
      rw [hregister, loadedOf_whole hmask]
    have hmask' : ¬(c.countRegister % 2 = 1 ∧ c.type = .i8254) := fun h => hmask ⟨h.2, h.1⟩
    have hdefer : ¬(c.type = .i8254 ∧ c.countRegister % 2 = 1 ∧ c.output = true) := fun h => hmask ⟨h.1, h.2.1⟩
    rw [if_neg hmask', if_neg hdefer, hbranch, hloaded, hout]

theorem visible_zero (bcd : Bool) {element : ℕ} (h : element < 0x10000) :
    visibleCount element = 0 ↔ value bcd element = 0 := by
  rw [visibleCount_lt h, value_zero bcd h]

theorem running_on {c : Channel} (hconfig : configOf c = ⟨type, bcd, register, 3, true⟩) (hstate : c.state = .counting)
    (htoggle : c.toggleOnReload = false) (helement : c.countingElement < 0x10000)
    (heven : value bcd c.countingElement % 2 = 0) (hpos : value bcd c.countingElement ≠ 0) :
    Running type bcd register c ∧ waveOf c =
      ⟨c.output, value bcd c.countingElement / 2 +
        if type = .i8254 ∧ register % 2 = 1 then c.output.toNat else 0⟩ := by
  have htype : c.type = type := congrArg Config.type hconfig
  have hbcd : c.bcd = bcd := congrArg Config.bcd hconfig
  have hregister : c.countRegister = register := congrArg Config.register hconfig
  have hparity := value_parity bcd (Nat.le_of_lt helement)
  refine ⟨⟨hconfig, Nat.le_of_lt helement, .inl ⟨hstate, htoggle, fun hodd => by omega⟩⟩, ?_⟩
  unfold waveOf
  rw [hstate, if_neg (nomatch ·), htype, hbcd, hregister]
  split_ifs with hmask
  · obtain ⟨rfl, hodd⟩ := hmask
    rw [leftAt_masked hodd, fullOf_pos (Nat.pos_of_ne_zero hpos)]
  · rw [leftAt_plain hmask fun hc => by omega, fullOf_pos (Nat.pos_of_ne_zero hpos)]
    rfl

theorem running_turned (h : register < 0x10000) (hn : 2 ≤ periodOf bcd register) {c : Channel} (level : Bool)
    {element : ℕ} (hconfig : configOf c = ⟨type, bcd, register, 3, true⟩) (hstate : c.state = .counting)
    (htoggle : c.toggleOnReload = false) (helement : element = loadedOf type register) :
    let c' := updateLiveLatch (setElement (setOutput c level) element)
    Running type bcd register c' ∧ waveOf c' = Wave.start (halfOf (periodOf bcd register)) level := by
  intro c'
  obtain ⟨l, hl⟩ := updateLiveLatch_eq (setElement (setOutput c level) element)
  have hc' : c' = { setElement (setOutput c level) element with outputLatch := l } := hl
  rw [hc']
  exact running_reloaded h hn hconfig helement hstate htoggle

theorem masked_counts (h : register < 0x10000) (hn : 2 ≤ periodOf bcd register) (hreg : register % 2 = 1)
    {c : Channel} (hc : Running .i8254 bcd register c) (hstate : c.state = .counting)
    (htoggle : c.toggleOnReload = false) (heven : c.countingElement % 2 = 0) :
    Running .i8254 bcd register (countMode3 c) ∧
      waveOf (countMode3 c) = (waveOf c).tick (halfOf (periodOf bcd register)) := by
  have htype : c.type = .i8254 := congrArg Config.type hc.config
  have hbcd : c.bcd = bcd := congrArg Config.bcd hc.config
  have hregister : c.countRegister = register := congrArg Config.register hc.config
  have hwave : waveOf c = ⟨c.output, fullOf bcd c.countingElement / 2 + c.output.toNat⟩ := by
    unfold waveOf
    rw [hstate, if_neg (nomatch ·), htype, hbcd, hregister, leftAt_masked hreg]
  obtain ⟨hfull, hfull2⟩ := @fullOf_even bcd _ hc.element heven
  have htwo := @value_two bcd _ hc.element heven
  have hcounted := decrementN_counted c (n := 2) (by decide)
  have helement := hcounted.element
  rw [hbcd] at helement
  rw [← helement] at htwo
  unfold countMode3
  dsimp only
  rw [if_pos (by rw [hregister]; exact ⟨hreg, htype⟩), hwave]
  generalize decrementN 2 c = c' at hcounted htwo
  have hvisible := visible_zero bcd hcounted.less
  have hconfig := hcounted.config.trans hc.config
  have hstate' := hcounted.state.trans hstate
  have htoggle' := hcounted.toggle.trans htoggle
  have hout := hcounted.output
  by_cases hzero : value bcd c'.countingElement = 0
  · rw [if_pos (hvisible.mpr hzero)]
    have hlast : fullOf bcd c.countingElement / 2 = 1 := by omega
    rw [hlast]
    cases hlevel : c.output with
    | true =>
      rw [hlevel] at hout
      rw [if_pos hout, Wave.tick_hold _ (by decide)]
      refine ⟨⟨hconfig, Nat.le_of_lt hcounted.less, .inr ⟨rfl, rfl, hout⟩⟩, ?_⟩
      change Wave.mk c'.output 1 = _
      rw [hout]
      rfl
    | false =>
      rw [hlevel] at hout
      have hlow : ¬ c'.output = true := by
        rw [hout]
        exact Bool.false_ne_true
      have hloaded : evenPart (reloadValue c') = loadedOf .i8254 register := by
        have hregister' : c'.countRegister = register := congrArg Config.register hconfig
        unfold reloadValue
        rw [loadedOf_masked hreg, hregister', reloadOf_odd hreg]
      rw [if_neg hlow, Wave.tick_turn _ (by decide)]
      exact running_turned h hn true hconfig hstate' htoggle' hloaded
  · rw [if_neg (mt hvisible.mp hzero)]
    obtain ⟨hrunning, hon⟩ := running_on hconfig hstate' htoggle' hcounted.less (by omega) hzero
    refine ⟨hrunning, hon.trans ?_⟩
    have hmore : 1 < fullOf bcd c.countingElement / 2 + c.output.toNat := by omega
    have hleft : value bcd c'.countingElement / 2 + c.output.toNat =
        fullOf bcd c.countingElement / 2 + c.output.toNat - 1 := by omega
    rw [if_pos ⟨rfl, hreg⟩, hout, Wave.tick_hold _ hmore, hleft]

theorem plain_counts (h : register < 0x10000) (hn : 2 ≤ periodOf bcd register)
    (hmask : ¬(type = .i8254 ∧ register % 2 = 1)) {c : Channel} (hc : Running type bcd register c)
    (hstate : c.state = .counting) (htoggle : c.toggleOnReload = false)
    (hodd : c.countingElement % 2 = 1 → type = .i8253 ∧ register % 2 = 1) :
    Running type bcd register (countMode3 c) ∧
      waveOf (countMode3 c) = (waveOf c).tick (halfOf (periodOf bcd register)) := by
  have htype : c.type = type := congrArg Config.type hc.config
  have hbcd : c.bcd = bcd := congrArg Config.bcd hc.config
  have hregister : c.countRegister = register := congrArg Config.register hc.config
  have hspan := span_pos bcd
  have hparity := value_parity bcd hc.element
  have hwave : waveOf c = ⟨c.output, leftAt type bcd register c.output c.countingElement⟩ := by
    unfold waveOf
    rw [hstate, if_neg (nomatch ·), htype, hbcd, hregister]
  -- what is left, in terms of the number after this edge
  have hstep : ∃ n, 0 < n ∧ (if register % 2 = 1 ∧ c.countingElement % 2 = 1 then
      decrementN (if c.output then 1 else 3) c else decrementN 2 c) = decrementN n c ∧
      value bcd ((decremented bcd)^[n] c.countingElement) % 2 = 0 ∧
      leftAt type bcd register c.output c.countingElement =
        value bcd ((decremented bcd)^[n] c.countingElement) / 2 + 1 := by
    by_cases hone : c.countingElement % 2 = 1
    · obtain ⟨rfl, hreg⟩ := hodd hone
      rw [if_pos ⟨hreg, hone⟩, leftAt_odd hreg hone]
      cases c.output with
      | true =>
        refine ⟨1, by decide, rfl, ?_⟩
        rw [value_iterate bcd hc.element (by omega), if_pos (by omega), if_pos rfl]
        omega
      | false =>
        refine ⟨3, by decide, rfl, ?_⟩
        rw [value_iterate bcd hc.element (by omega), if_neg Bool.false_ne_true]
        split_ifs <;> omega
    · have heven : c.countingElement % 2 = 0 := by omega
      obtain ⟨hfull, hfull2⟩ := @fullOf_even bcd _ hc.element heven
      refine ⟨2, by decide, if_neg fun hboth => hone hboth.2, ?_⟩
      rw [value_two hc.element heven, leftAt_plain hmask fun hboth => hone hboth.2]
      omega
  obtain ⟨n, hpos, hbranch, heven, hleft⟩ := hstep
  have hcounted := decrementN_counted c hpos
  have helement := hcounted.element
  rw [hbcd] at helement
  rw [← helement] at heven hleft
  unfold countMode3
  dsimp only
  rw [if_neg (by rw [hregister, htype]; exact fun hboth => hmask ⟨hboth.2, hboth.1⟩), hregister, hbranch, hwave]
  generalize decrementN n c = c' at hcounted heven hleft
  have hvisible := visible_zero bcd hcounted.less
  have hconfig := hcounted.config.trans hc.config
  have hstate' := hcounted.state.trans hstate
  have htoggle' := hcounted.toggle.trans htoggle
  rw [hleft]
  by_cases hzero : value bcd c'.countingElement = 0
  · have hloaded : reloadValue c' = loadedOf type register := by
      have hregister' : c'.countRegister = register := congrArg Config.register hconfig
      unfold reloadValue
      rw [loadedOf_whole hmask, hregister']
    rw [if_pos (hvisible.mpr hzero), Wave.tick_turn _ (by change _ / 2 + 1 ≤ 1; omega), hcounted.output]
    exact running_turned h hn (!c.output) hconfig hstate' htoggle' hloaded
  · obtain ⟨hrunning, hon⟩ := running_on hconfig hstate' htoggle' hcounted.less heven hzero
    rw [if_neg (mt hvisible.mp hzero), Wave.tick_hold _ (by change 1 < _ / 2 + 1; omega)]
    refine ⟨hrunning, hon.trans ?_⟩
    rw [if_neg hmask, hcounted.output]
    rfl

theorem countTick_mode3 {c : Channel} (hmode : c.mode = 3) (hgate : c.gate = true) : countTick c = countMode3 c := by
  unfold countTick
  rw [hmode]
  exact if_pos hgate

theorem clockEdge_counting {c : Channel} (hstate : c.state = .counting) : clockEdge c = countTick c := by
  unfold clockEdge
  rw [hstate]

theorem clockEdge_load {c : Channel} (hstate : c.state = .loadNext ∨ c.state = .reloadNext) :
    clockEdge c = loadCountingElement c := by
  unfold clockEdge
  rcases hstate with hs | hs
  · rw [hs]
  · rw [hs]

theorem clockEdge_waits {c : Channel} (hstate : c.state = .waitCount ∨ c.state = .waitGate ∨ c.state = .done) :
    clockEdge c = c := by
  unfold clockEdge
  rcases hstate with hs | hs | hs
  · rw [hs]
  · rw [hs]
  · rw [hs]

theorem running_tick (h : register < 0x10000) (hn : 2 ≤ periodOf bcd register) :
    Refines tickChannel (Running type bcd register) waveOf (halfOf (periodOf bcd register)) := by
  have hedge (c : Channel) (hc : Running type bcd register c) : Running type bcd register (clockEdge c) ∧
      waveOf (clockEdge c) = (waveOf c).tick (halfOf (periodOf bcd register)) := by
    rcases hc.stage with ⟨hstate, htoggle, hodd⟩ | ⟨hstate, htoggle, -⟩
    · rw [clockEdge_counting hstate,
        countTick_mode3 (congrArg Config.mode hc.config) (congrArg Config.gate hc.config)]
      by_cases hmask : type = .i8254 ∧ register % 2 = 1
      · have heven : c.countingElement % 2 = 0 := by
          by_contra hne
          have h53 := (hodd (by omega)).1
          rw [hmask.1] at h53
          cases h53
        obtain ⟨rfl, hreg⟩ := hmask
        exact masked_counts h hn hreg hc hstate htoggle heven
      · exact plain_counts h hn hmask hc hstate htoggle hodd
    · rw [clockEdge_load (.inr hstate)]
      exact running_deferred h hn hc hstate htoggle
  have hlater (c : Channel) (hc : Running type bcd register c) :
      Running type bcd register { c with clocks := c.clocks + 1 } := ⟨hc.config, hc.element, hc.stage⟩
  exact ⟨fun c hc => (hedge _ (hlater c hc)).1, fun c hc => (hedge _ (hlater c hc)).2⟩

end

end PeepeeBox.PitSquare
