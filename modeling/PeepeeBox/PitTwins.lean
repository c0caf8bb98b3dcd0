import PeepeeBox.PitEvents
import PeepeeBox.PitFast

set_option autoImplicit false

/-!
# The two interval timers

A counter of the fast timer reports the edges of an exact channel on the same clocks, from its timer in every mode
compared here, and clocked from outside until the second high half of mode 3.
-/
namespace PeepeeBox.PitTwins
open Pit PitFast PitCounts PitSquare PitRuns PitPeriod PitEvents Waves

/-- OUT of a channel with this count and GATE high, `k` edges after the load. -/
def exactOut (mode n k : ℕ) : Bool :=
  if mode = 0 then decide (n ≤ k) else if mode = 2 then decide (k % n ≠ n - 1) else decide (k % n < (n + 1) / 2)

theorem exactOut_level (n k : ℕ) : exactOut 0 n k = decide (n ≤ k) := rfl

theorem exactOut_rate (n k : ℕ) : exactOut 2 n k = decide (k % n ≠ n - 1) := rfl

theorem exactOut_square (n k : ℕ) : exactOut 3 n k = decide (k % n < (n + 1) / 2) := rfl

theorem exact_level {type : Chip} {bcd : Bool} {register : ℕ} (h : register < 0x10000) {c : Channel}
    (hc : Agrees type bcd register 0 false c ⟨true, true, none, false⟩) (k : ℕ) :
    ∃ b, Agrees type bcd register 0 false (tickChannel^[k + 1] c) ⟨true, false, some k, b⟩ := by
  induction k with
  | zero => exact ⟨false, @agrees_step _ _ _ _ _ h (.inl rfl) _ _ hc .tick trivial (nomatch ·)⟩
  | succ k ih =>
    obtain ⟨b, hk⟩ := ih
    have hnext := @agrees_step _ _ _ _ _ h (.inl rfl) _ _ hk .tick trivial (nomatch ·)
    have hedge := @Shot.edge_some (kindOf 0) (periodOf bcd register) ⟨true, false, some k, b⟩ rfl k rfl
    have hcounts : Shot.edge (kindOf 0) (periodOf bcd register) ⟨true, false, some k, b⟩ =
        ⟨true, false, some (k + 1), true⟩ := hedge.trans (by simp [kindOf])
    rw [Function.iterate_succ_apply']
    exact ⟨true, hcounts ▸ hnext⟩

theorem exact_ticks {c : Channel} {word : Byte} {bytes : List Byte} {register : ℕ}
    (h : Expresses (rwOf word) bytes register) (hmode : modeOf word = 0 ∨ modeOf word = 2 ∨ modeOf word = 3)
    (hn : modeOf word ≠ 0 → 2 ≤ periodOf (word.getLsbD 0) register) (hgate : c.gate = true) (k : ℕ) :
    (tickChannel^[k + 1] (programmed c word bytes)).output =
      exactOut (modeOf word) (periodOf (word.getLsbD 0) register) k := by
  have hlt := expresses_lt h
  unfold exactOut
  by_cases hzero : modeOf word = 0
  · rw [if_pos hzero]
    have hagrees : Agrees c.type (word.getLsbD 0) register 0 false (programmed c word bytes)
        ⟨true, true, none, false⟩ := by
      obtain ⟨i, hi⟩ := @finalize_soft { programMode c word with countRegister := register } (.inl hzero)
      rw [programmed_eq c word h, hi]
      refine ⟨?_, ?_, fun _ => ⟨rfl, rfl⟩, fun hp => absurd hp (by decide), fun hp => absurd hp (by decide)⟩
      · change Config.mk c.type (word.getLsbD 0) register (modeOf word) c.gate = _
        rw [hzero, hgate]
      · change (modeOf word != 0) = false
        rw [hzero]
        rfl
    obtain ⟨b, hk⟩ := exact_level hlt hagrees k
    exact hk.output
  · have htwo := hn hzero
    have hperiodic : modeOf word = 2 ∨ modeOf word = 3 := hmode.resolve_left hzero
    have hlegal : register = 1 → modeOf word ≠ 2 ∧ modeOf word ≠ 3 := by
      rintro rfl
      have hone : periodOf (word.getLsbD 0) 1 = 1 := (value_one _ (by decide)).mpr rfl
      omega
    have hready := programmed_ready c word h (by omega) hlegal
    rw [hgate] at hready
    obtain ⟨q, hfirst, hconfig, htoggle, hstate⟩ := hready.loads
    rw [if_neg hzero, Function.iterate_succ_apply, hfirst]
    exact loaded_out hlt htwo hperiodic hconfig htoggle hstate k

/-- What a clock does to the count. -/
def moved (ctr : Counter) : ℤ :=
  if ctr.m = 3 then if ctr.newcount then if ctr.out then -1 else -3 else -2 else -1

theorem clock_timer {ctr : Counter} (ht : ctr.usingTimer = true) :
    clock ctr =
      timerProcess { ctr with calls := [], timer := { ctr.timer with now := ctr.timer.now + ctr.pitConst } } :=
  if_pos ht

theorem clock_counts {ctr : Counter} (ht : ctr.usingTimer = false) (hthit : ctr.thit = false)
    (henabled : ctr.enabled = true) :
    ∃ d : Counter, d =
      { ctr with calls := [], newcount := decide (ctr.m ≠ 3) && ctr.newcount, count := ctr.count + moved ctr } ∧
        clock ctr = if d.count = 0 then pitfOver d else d := by
  refine ⟨_, rfl, ?_⟩
  have hclock : clock ctr = pitfCtrClock { ctr with calls := [] } := if_neg (by simp [ht])
  rw [hclock]
  unfold pitfCtrClock moved addCount
  dsimp only
  rw [if_neg (by simp [hthit, henabled]), if_neg (by simp [ht])]
  by_cases hm : ctr.m = 3
  · cases hnew : ctr.newcount with
    | true => simp [hm]
    | false => simp [hm]
  · simp [hm]

structure Going (usingTimer : Bool) (m n : ℕ) (ctr : Counter) : Prop where
  mode : ctr.m = m
  full : fullCount ctr = n
  enabled : ctr.enabled = true
  disabled : ctr.disabled = false
  timer : ctr.usingTimer = usingTimer
  const : usingTimer = true → 0 < ctr.pitConst

/-- The count is over in `k` clocks. -/
def Due (ctr : Counter) (k : ℕ) : Prop :=
  if ctr.usingTimer then ctr.timer.enabled = true ∧ ctr.timer.deadline = ctr.timer.now + k * ctr.pitConst
  else ctr.thit = false ∧
    if ctr.m = 3 then
      if ctr.newcount then ctr.count = if ctr.out then 2 * k - 1 else 2 * k + 1 else ctr.count = 2 * k
    else ctr.count = k

section
variable {ctr : Counter} {k : ℕ}

theorem due_timer (ht : ctr.usingTimer = true) :
    Due ctr k ↔ ctr.timer.enabled = true ∧ ctr.timer.deadline = ctr.timer.now + k * ctr.pitConst := by
  unfold Due
  rw [if_pos ht]

theorem due_single (ht : ctr.usingTimer = false) (hm : ctr.m ≠ 3) :
    Due ctr k ↔ ctr.thit = false ∧ ctr.count = k := by
  unfold Due
  rw [if_neg (by simp [ht]), if_neg hm]

theorem due_double (ht : ctr.usingTimer = false) (hm : ctr.m = 3) :
    Due ctr k ↔ ctr.thit = false ∧
      if ctr.newcount then ctr.count = if ctr.out then 2 * k - 1 else 2 * k + 1 else ctr.count = 2 * k := by
  unfold Due
  rw [if_neg (by simp [ht]), if_pos hm]

theorem due_called (hm : ctr.m ≠ 3) (h : Due ctr k) (out : Bool) (calls : List Call) (running : Bool) :
    Due { ctr with out := out, calls := calls, running := running } k := by
  unfold Due at h ⊢
  simpa [hm] using h

end

theorem due_moved {ctr : Counter} (htimer : ctr.usingTimer = false) {k : ℕ} (hdue : Due ctr (k + 1)) :
    ctr.thit = false ∧ ctr.count + moved ctr = if ctr.m = 3 then 2 * k else k := by
  unfold Due at hdue
  rw [htimer, if_neg Bool.false_ne_true] at hdue
  obtain ⟨hthit, hcount⟩ := hdue
  refine ⟨hthit, ?_⟩
  unfold moved
  by_cases hm : ctr.m = 3
  · rw [if_pos hm] at hcount
    rw [if_pos hm, if_pos hm]
    cases hnew : ctr.newcount with
    | true =>
      rw [hnew, if_pos rfl] at hcount
      rw [if_pos rfl, hcount]
      cases ctr.out with
      | true =>
        rw [if_pos rfl, if_pos rfl]
        omega
      | false =>
        rw [if_neg Bool.false_ne_true, if_neg Bool.false_ne_true]
        omega
    | false =>
      rw [hnew, if_neg Bool.false_ne_true] at hcount
      rw [if_neg Bool.false_ne_true, hcount]
      omega
  · rw [if_neg hm] at hcount
    rw [if_neg hm, if_neg hm, hcount]
    omega

/-- A counter whose count has just come to its end. -/
structure Ended (usingTimer : Bool) (m n : ℕ) (ctr d : Counter) : Prop where
  going : Going usingTimer m n d
  calls : d.calls = []
  out : d.out = ctr.out
  thit : d.thit = ctr.thit
  due : usingTimer = true → d.timer.deadline = d.timer.now
  zero : usingTimer = false → d.count = 0 ∧ d.thit = false ∧ (m = 3 → d.newcount = false)

section
variable {usingTimer : Bool} {m n : ℕ} {ctr : Counter} (h : Going usingTimer m n ctr)
include h

theorem clock_waits {k : ℕ} (hk : 1 ≤ k) (hdue : Due ctr (k + 1)) :
    Going usingTimer m n (clock ctr) ∧ Due (clock ctr) k ∧ (clock ctr).calls = [] ∧ (clock ctr).out = ctr.out ∧
      (clock ctr).thit = ctr.thit := by
  cases ht : usingTimer with
  | true =>
    have htimer : ctr.usingTimer = true := h.timer.trans ht
    unfold Due at hdue
    rw [htimer, if_pos rfl] at hdue
    obtain ⟨hon, hdeadline⟩ := hdue
    have hconst := h.const ht
    have hlater : ¬(ctr.timer.enabled = true ∧ ctr.timer.deadline ≤ ctr.timer.now + ctr.pitConst) := by
      rw [hdeadline, Nat.add_mul, Nat.one_mul]
      have := Nat.mul_le_mul_right ctr.pitConst hk
      omega
    have hclock : clock ctr =
        { ctr with calls := [], timer := { ctr.timer with now := ctr.timer.now + ctr.pitConst } } :=
      (clock_timer htimer).trans (if_neg hlater)
    rw [hclock]
    refine ⟨⟨h.mode, h.full, h.enabled, h.disabled, htimer, fun _ => hconst⟩, ?_, rfl, rfl, rfl⟩
    unfold Due
    rw [if_pos htimer]
    refine ⟨hon, ?_⟩
    change ctr.timer.deadline = ctr.timer.now + ctr.pitConst + k * ctr.pitConst
    rw [hdeadline, Nat.add_mul]
    omega
  | false =>
    have htimer : ctr.usingTimer = false := h.timer.trans ht
    obtain ⟨hthit, hcount⟩ := due_moved htimer hdue
    obtain ⟨d, hd, hclock⟩ := clock_counts htimer hthit h.enabled
    have hmore : d.count ≠ 0 := by
      rw [hd]
      change ctr.count + moved ctr ≠ 0
      rw [hcount]
      split_ifs <;> omega
    rw [hclock, if_neg hmore, hd]
    refine ⟨⟨h.mode, h.full, h.enabled, h.disabled, htimer, (nomatch ·)⟩, ?_, rfl, rfl, rfl⟩
    unfold Due
    rw [if_neg (by simp [htimer])]
    refine ⟨hthit, ?_⟩
    by_cases hm : ctr.m = 3
    · rw [if_pos hm] at hcount
      simpa [hm] using hcount
    · rw [if_neg hm] at hcount
      simpa [hm] using hcount

theorem clock_over (hdue : Due ctr 1) : ∃ d, Ended usingTimer m n ctr d ∧ clock ctr = pitfOver d := by
  cases ht : usingTimer with
  | true =>
    have htimer : ctr.usingTimer = true := h.timer.trans ht
    unfold Due at hdue
    rw [htimer, if_pos rfl, Nat.one_mul] at hdue
    obtain ⟨hon, hdeadline⟩ := hdue
    have hclock := (clock_timer htimer).trans (if_pos ⟨hon, Nat.le_of_eq hdeadline⟩)
    refine ⟨timerDisable { ctr with calls := [], timer := { ctr.timer with now := ctr.timer.now + ctr.pitConst } }, ?_,
      hclock⟩
    exact ⟨⟨h.mode, h.full, h.enabled, h.disabled, htimer, fun _ => h.const ht⟩, rfl, rfl, rfl, fun _ => hdeadline,
      (nomatch ·)⟩
  | false =>
    have htimer : ctr.usingTimer = false := h.timer.trans ht
    obtain ⟨hthit, hcount⟩ := @due_moved ctr htimer 0 hdue
    obtain ⟨d, hd, hclock⟩ := clock_counts htimer hthit h.enabled
    have hend : d.count = 0 := by
      rw [hd]
      change ctr.count + moved ctr = 0
      rw [hcount]
      split_ifs <;> rfl
    rw [if_pos hend] at hclock
    refine ⟨d, ?_, hclock⟩
    subst hd
    refine ⟨⟨h.mode, h.full, h.enabled, h.disabled, htimer, (nomatch ·)⟩, rfl, rfl, rfl, (nomatch ·), fun _ => ?_⟩
    refine ⟨hend, hthit, fun hm => ?_⟩
    have hthree : ctr.m = 3 := h.mode.trans hm
    simp [hthree]

theorem setRunning_goes : setRunning ctr = { ctr with running := usingTimer } := by
  unfold setRunning
  dsimp only
  rw [h.enabled, h.disabled, h.timer]
  cases usingTimer with
  | true => simp
  | false => simp

end

section
variable {usingTimer : Bool} {m n : ℕ} {ctr : Counter}

theorem due_advance (h : Going usingTimer m n ctr) (hm : m ≠ 3) (hthit : ctr.thit = false)
    (hover : usingTimer = true → ctr.timer.deadline = ctr.timer.now) (hzero : usingTimer = false → ctr.count = 0)
    (k : ℕ) : Due (advance (addCount ctr k) k) k := by
  cases ht : usingTimer with
  | true =>
    have htimer : ctr.usingTimer = true := h.timer.trans ht
    have hmoves : advance (addCount ctr k) k = timerAdvance (addCount ctr k) (k * ctr.pitConst) := if_pos htimer
    rw [hmoves]
    refine (due_timer ?_).mpr ⟨rfl, ?_⟩
    · exact htimer
    change ctr.timer.deadline + k * ctr.pitConst = ctr.timer.now + k * ctr.pitConst
    rw [hover ht]
  | false =>
    have htimer : ctr.usingTimer = false := h.timer.trans ht
    have hstays : advance (addCount ctr k) k = addCount ctr k := if_neg (by simp [addCount, htimer])
    rw [hstays]
    refine (due_single ?_ ?_).mpr ⟨hthit, ?_⟩
    · exact htimer
    · exact fun hm3 => hm (h.mode.symm.trans hm3)
    change ctr.count + k = k
    rw [hzero ht]
    omega

end

section
variable {usingTimer : Bool} {n : ℕ} {ctr d : Counter}

theorem over_rate (hd : Ended usingTimer 2 n ctr d) (hthit : ctr.thit = false) :
    Going usingTimer 2 n (pitfOver d) ∧ Due (pitfOver d) n ∧ (pitfOver d).calls = [⟨false, ctr.out⟩, ⟨true, false⟩] ∧
      (pitfOver d).out = true ∧ (pitfOver d).thit = false := by
  have hg := hd.going
  have hover : pitfOver d = setRunning (pitfCtrSetOut (pitfCtrSetOut (advance (addCount d n) n) false) true) := by
    unfold pitfOver
    dsimp only
    rw [if_neg (by simp [hg.disabled]), hg.mode, hg.full]
    rfl
  have hdue := due_advance hg (by decide) (hd.thit.trans hthit) hd.due (fun ht => (hd.zero ht).1) n
  obtain ⟨e, he, hsame⟩ : ∃ e, e = advance (addCount d n) n ∧ Going usingTimer 2 n e ∧ e.calls = [] ∧
      e.out = ctr.out ∧ e.thit = false := by
    refine ⟨_, rfl, ?_⟩
    unfold advance addCount timerAdvance
    dsimp only
    split_ifs
    · exact ⟨⟨hg.mode, hg.full, hg.enabled, hg.disabled, hg.timer, hg.const⟩, hd.calls, hd.out, hd.thit.trans hthit⟩
    · exact ⟨⟨hg.mode, hg.full, hg.enabled, hg.disabled, hg.timer, hg.const⟩, hd.calls, hd.out, hd.thit.trans hthit⟩
  obtain ⟨hge, hcalls, hout, hthit'⟩ := hsame
  rw [← he] at hover hdue
  have hpulsed : Going usingTimer 2 n (pitfCtrSetOut (pitfCtrSetOut e false) true) :=
    ⟨hge.mode, hge.full, hge.enabled, hge.disabled, hge.timer, hge.const⟩
  rw [hover, setRunning_goes hpulsed]
  have hm : e.m ≠ 3 := by
    rw [hge.mode]
    decide
  refine ⟨⟨hge.mode, hge.full, hge.enabled, hge.disabled, hge.timer, hge.const⟩, due_called hm hdue _ _ _, ?_, rfl,
    hthit'⟩
  change (e.calls ++ [⟨false, e.out⟩]) ++ [⟨true, false⟩] = _
  rw [hcalls, hout]
  rfl

theorem over_falls (hd : Ended usingTimer 3 n ctr d) (hout : ctr.out = true) (hthit : ctr.thit = false) :
    Going usingTimer 3 n (pitfOver d) ∧ Due (pitfOver d) (n / 2) ∧ (pitfOver d).calls = [⟨false, true⟩] ∧
      (pitfOver d).out = false ∧ (pitfOver d).thit = false := by
  have hg := hd.going
  have hhigh : d.out = true := hd.out.trans hout
  have hclear := hd.thit.trans hthit
  have hcalls : d.calls ++ [⟨false, d.out⟩] = [⟨false, true⟩] := by rw [hd.calls, hhigh]; rfl
  cases ht : usingTimer with
  | true =>
    have htimer : d.usingTimer = true := hg.timer.trans ht
    have hover : pitfOver d =
        setRunning (timerAdvance (addCount (pitfCtrSetOut d false) (n / 2 : ℕ)) (n / 2 * d.pitConst)) := by
      unfold pitfOver advance
      dsimp only
      rw [if_neg (by simp [hg.disabled]), hg.mode, hg.full]
      simp [hhigh, htimer, pitfCtrSetOut, addCount]
    have hgoing : Going true 3 n
        (timerAdvance (addCount (pitfCtrSetOut d false) (n / 2 : ℕ)) (n / 2 * d.pitConst)) :=
      ⟨hg.mode, hg.full, hg.enabled, hg.disabled, htimer, fun _ => hg.const ht⟩
    rw [hover, setRunning_goes hgoing]
    refine ⟨⟨hg.mode, hg.full, hg.enabled, hg.disabled, htimer, fun _ => hg.const ht⟩, ?_, hcalls, rfl, hclear⟩
    refine (due_timer ?_).mpr ⟨rfl, ?_⟩
    · exact htimer
    change d.timer.deadline + n / 2 * d.pitConst = d.timer.now + n / 2 * d.pitConst
    rw [hd.due ht]
  | false =>
    have htimer : d.usingTimer = false := hg.timer.trans ht
    obtain ⟨hzero, -, -⟩ := hd.zero ht
    have hover : pitfOver d = setRunning { addCount (pitfCtrSetOut d false) n with newcount := n % 2 == 1 } := by
      unfold pitfOver
      dsimp only
      rw [if_neg (by simp [hg.disabled]), hg.mode, hg.full]
      simp [hhigh, htimer, pitfCtrSetOut, addCount]
    have hgoing : Going false 3 n { addCount (pitfCtrSetOut d false) n with newcount := n % 2 == 1 } :=
      ⟨hg.mode, hg.full, hg.enabled, hg.disabled, htimer, (nomatch ·)⟩
    rw [hover, setRunning_goes hgoing]
    refine ⟨⟨hg.mode, hg.full, hg.enabled, hg.disabled, htimer, (nomatch ·)⟩, ?_, hcalls, rfl, hclear⟩
    refine (due_double ?_ ?_).mpr ⟨hclear, ?_⟩
    · exact htimer
    · exact hg.mode
    change if (n % 2 == 1) = true then
        d.count + n = if false = true then 2 * ((n / 2 : ℕ) : ℤ) - 1 else 2 * ((n / 2 : ℕ) : ℤ) + 1
      else d.count + n = 2 * ((n / 2 : ℕ) : ℤ)
    rw [hzero]
    by_cases hodd : n % 2 = 1
    · rw [if_pos (by simpa using hodd), if_neg Bool.false_ne_true]
      omega
    · rw [if_neg (by simpa using hodd)]
      omega

theorem over_rises (hd : Ended true 3 n ctr d) (hout : ctr.out = false) (hthit : ctr.thit = false) :
    Going true 3 n (pitfOver d) ∧ Due (pitfOver d) ((n + 1) / 2) ∧ (pitfOver d).calls = [⟨true, false⟩] ∧
      (pitfOver d).out = true ∧ (pitfOver d).thit = false := by
  have hg := hd.going
  have hlow : d.out = false := hd.out.trans hout
  have hclear := hd.thit.trans hthit
  have hcalls : d.calls ++ [⟨true, d.out⟩] = [⟨true, false⟩] := by rw [hd.calls, hlow]; rfl
  have hover : pitfOver d = setRunning (timerAdvance
      (addCount (addCount (pitfCtrSetOut d true) ((n + 1) / 2 : ℕ)) (n / 2 : ℕ)) ((n + 1) / 2 * d.pitConst)) := by
    unfold pitfOver advance
    dsimp only
    rw [if_neg (by simp [hg.disabled]), hg.mode, hg.full]
    simp [hlow, hg.timer, pitfCtrSetOut, addCount]
  have hgoing : Going true 3 n (timerAdvance
      (addCount (addCount (pitfCtrSetOut d true) ((n + 1) / 2 : ℕ)) (n / 2 : ℕ)) ((n + 1) / 2 * d.pitConst)) :=
    ⟨hg.mode, hg.full, hg.enabled, hg.disabled, hg.timer, hg.const⟩
  rw [hover, setRunning_goes hgoing]
  refine ⟨⟨hg.mode, hg.full, hg.enabled, hg.disabled, hg.timer, hg.const⟩, ?_, hcalls, rfl, hclear⟩
  refine (due_timer ?_).mpr ⟨rfl, ?_⟩
  · exact hg.timer
  change d.timer.deadline + (n + 1) / 2 * d.pitConst = d.timer.now + (n + 1) / 2 * d.pitConst
  rw [hd.due rfl]

/-- A counter clocked from outside in the second high half and after, `j` clocks on. -/
structure Late (n j : ℕ) (ctr : Counter) : Prop where
  going : Going false 3 n ctr
  out : ctr.out = true
  thit : ctr.thit = false
  count : ctr.count + ctr.newcount.toNat = n + ((n + 1) / 2 : ℕ) + (n % 2 : ℕ) - 2 * j

theorem over_late (hd : Ended false 3 n ctr d) (hout : ctr.out = false) :
    Late n 0 (pitfOver d) ∧ (pitfOver d).calls = [⟨true, false⟩] := by
  have hg := hd.going
  have hlow : d.out = false := hd.out.trans hout
  obtain ⟨hzero, hclear, -⟩ := hd.zero rfl
  have hcalls : d.calls ++ [⟨true, d.out⟩] = [⟨true, false⟩] := by rw [hd.calls, hlow]; rfl
  have hover : pitfOver d = setRunning
      { addCount (addCount (pitfCtrSetOut d true) ((n + 1) / 2 : ℕ)) n with newcount := n % 2 == 1 } := by
    unfold pitfOver
    dsimp only
    rw [if_neg (by simp [hg.disabled]), hg.mode, hg.full]
    simp [hlow, hg.timer, pitfCtrSetOut, addCount]
  have hgoing : Going false 3 n
      { addCount (addCount (pitfCtrSetOut d true) ((n + 1) / 2 : ℕ)) n with newcount := n % 2 == 1 } :=
    ⟨hg.mode, hg.full, hg.enabled, hg.disabled, hg.timer, (nomatch ·)⟩
  rw [hover, setRunning_goes hgoing]
  refine ⟨⟨⟨hg.mode, hg.full, hg.enabled, hg.disabled, hg.timer, (nomatch ·)⟩, rfl, hclear, ?_⟩, hcalls⟩
  change d.count + ((n + 1) / 2 : ℕ) + n + (n % 2 == 1).toNat = _
  rw [hzero]
  rcases Nat.mod_two_eq_zero_or_one n with hn | hn
  · rw [hn]
    change (0 : ℤ) + _ + _ + 0 = _
    omega
  · rw [hn]
    change (0 : ℤ) + _ + _ + 1 = _
    omega

theorem late_clock (hn : 2 ≤ n) {j : ℕ} (hj : j < (n + 1) / 2) (hc : Late n j ctr) :
    Late n (j + 1) (clock ctr) ∧ (clock ctr).calls = [] := by
  have hg := hc.going
  obtain ⟨d, hd, hclock⟩ := clock_counts hg.timer hc.thit hg.enabled
  have hmoved : ctr.count + moved ctr = n + ((n + 1) / 2 : ℕ) + (n % 2 : ℕ) - 2 * (j + 1) := by
    have hcount := hc.count
    unfold moved
    rw [if_pos hg.mode, hc.out, if_pos rfl]
    cases hnew : ctr.newcount with
    | true =>
      rw [hnew] at hcount
      change ctr.count + 1 = _ at hcount
      rw [if_pos rfl]
      omega
    | false =>
      rw [hnew] at hcount
      change ctr.count + 0 = _ at hcount
      rw [if_neg Bool.false_ne_true]
      omega
  have hmore : d.count ≠ 0 := by
    rw [hd]
    change ctr.count + moved ctr ≠ 0
    omega
  rw [hclock, if_neg hmore, hd]
  refine ⟨⟨⟨hg.mode, hg.full, hg.enabled, hg.disabled, hg.timer, (nomatch ·)⟩, hc.out, hc.thit, ?_⟩, rfl⟩
  change ctr.count + moved ctr + (decide (ctr.m ≠ 3) && ctr.newcount).toNat = _
  rw [hmoved, hg.mode]
  change _ + (0 : ℤ) = _
  omega

/-- Mode 0 once its event is past. -/
structure Silent (ctr : Counter) : Prop where
  mode : ctr.m = 0
  thit : ctr.thit = true
  disabled : ctr.disabled = false

theorem setRunning_kept (ctr : Counter) :
    (setRunning ctr).m = ctr.m ∧ (setRunning ctr).thit = ctr.thit ∧ (setRunning ctr).disabled = ctr.disabled ∧
      (setRunning ctr).calls = ctr.calls := by
  unfold setRunning pitfDumpAndDisableTimer timerDisable
  dsimp only
  split_ifs
  · exact ⟨rfl, rfl, rfl, rfl⟩
  · exact ⟨rfl, rfl, rfl, rfl⟩
  · exact ⟨rfl, rfl, rfl, rfl⟩
  · exact ⟨rfl, rfl, rfl, rfl⟩

theorem over_mode0 (hm : d.m = 0) (hdisabled : d.disabled = false) :
    Silent (pitfOver d) ∧ (pitfOver d).calls = if d.thit then d.calls else d.calls ++ [⟨true, d.out⟩] := by
  obtain ⟨e, he, hover⟩ : ∃ e, e = (if d.thit then d else pitfCtrSetOut d true) ∧
      pitfOver d = setRunning (advance (addCount { e with thit := true } 0xffff) 0xffff) := by
    refine ⟨_, rfl, ?_⟩
    unfold pitfOver
    dsimp only
    rw [if_neg (by simp [hdisabled]), hm]
    rfl
  have hadvance (x : Counter) : (advance (addCount x 0xffff) 0xffff).m = x.m ∧
      (advance (addCount x 0xffff) 0xffff).thit = x.thit ∧
        (advance (addCount x 0xffff) 0xffff).disabled = x.disabled ∧
          (advance (addCount x 0xffff) 0xffff).calls = x.calls := by
    unfold advance addCount timerAdvance
    dsimp only
    split_ifs
    · exact ⟨rfl, rfl, rfl, rfl⟩
    · exact ⟨rfl, rfl, rfl, rfl⟩
  obtain ⟨hm', hthit', hdisabled', hcalls'⟩ :=
    setRunning_kept (advance (addCount { e with thit := true } 0xffff) 0xffff)
  obtain ⟨hm'', hthit'', hdisabled'', hcalls''⟩ := hadvance { e with thit := true }
  rw [hover]
  refine ⟨⟨hm'.trans (hm''.trans ?_), hthit'.trans hthit'', hdisabled'.trans (hdisabled''.trans ?_)⟩,
    hcalls'.trans (hcalls''.trans ?_)⟩
  · rw [he]
    split_ifs
    · exact hm
    · exact hm
  · rw [he]
    split_ifs
    · exact hdisabled
    · exact hdisabled
  · rw [he]
    split_ifs <;> rfl

theorem over_level (hd : Ended usingTimer 0 n ctr d) (hthit : ctr.thit = false) :
    Silent (pitfOver d) ∧ (pitfOver d).calls = [⟨true, ctr.out⟩] := by
  obtain ⟨hsilent, hcalls⟩ := over_mode0 hd.going.mode hd.going.disabled
  rw [hd.thit, hthit, if_neg Bool.false_ne_true, hd.calls, hd.out] at hcalls
  exact ⟨hsilent, hcalls⟩

theorem silent_clock (hc : Silent ctr) : Silent (clock ctr) ∧ (clock ctr).calls = [] := by
  cases ht : ctr.usingTimer with
  | true =>
    rw [clock_timer ht]
    unfold timerProcess
    split_ifs
    · obtain ⟨hsilent, hcalls⟩ := @over_mode0 (timerDisable { ctr with
        calls := [], timer := { ctr.timer with now := ctr.timer.now + ctr.pitConst } }) hc.mode hc.disabled
      refine ⟨hsilent, hcalls.trans ?_⟩
      exact if_pos hc.thit
    · exact ⟨⟨hc.mode, hc.thit, hc.disabled⟩, rfl⟩
  | false =>
    have hclock : clock ctr = { ctr with calls := [] } :=
      (if_neg (by simp [ht])).trans (if_pos (.inl hc.thit))
    rw [hclock]
    exact ⟨⟨hc.mode, hc.thit, hc.disabled⟩, rfl⟩

end

def Reports (ctr : Counter) (new : Bool) : Prop := ∃ call ∈ ctr.calls, call.new = new ∧ call.old ≠ new

/-- The edges compared in a mode. -/
def Watched (mode : ℕ) (new : Bool) : Prop := (mode = 0 → new = true) ∧ (mode = 2 → new = false)

section
variable {ctr : Counter} {new level old : Bool}

theorem reports_none (h : ctr.calls = []) : ¬Reports ctr new := by
  rintro ⟨call, hcall, -⟩
  rw [h] at hcall
  exact absurd hcall List.not_mem_nil

theorem reports_one (h : ctr.calls = [⟨level, old⟩]) (hturn : old ≠ level) : Reports ctr new ↔ new = level := by
  unfold Reports
  rw [h]
  constructor
  · rintro ⟨call, hcall, rfl, -⟩
    rw [List.mem_singleton.mp hcall]
  · rintro rfl
    exact ⟨_, List.mem_singleton_self _, rfl, hturn⟩

theorem reports_pulse (h : ctr.calls = [⟨false, true⟩, ⟨true, false⟩]) : Reports ctr false := by
  unfold Reports
  rw [h]
  simp

end

/-- A counter in mode 0, `k` clocks after its load. -/
def Level (usingTimer : Bool) (n k : ℕ) (ctr : Counter) : Prop :=
  if k < n then Going usingTimer 0 n ctr ∧ Due ctr (n - k) ∧ ctr.out = false ∧ ctr.thit = false else Silent ctr

theorem level_clock {usingTimer : Bool} {n k : ℕ} {ctr : Counter} (h : Level usingTimer n k ctr) :
    Level usingTimer n (k + 1) (clock ctr) ∧ (Reports (clock ctr) true ↔ k + 1 = n) := by
  unfold Level at h ⊢
  by_cases hbefore : k < n
  · rw [if_pos hbefore] at h
    obtain ⟨hgoing, hdue, hout, hthit⟩ := h
    by_cases hlast : k + 1 = n
    · rw [if_neg (by omega)]
      rw [show n - k = 1 by omega] at hdue
      obtain ⟨d, hd, hclock⟩ := clock_over hgoing hdue
      obtain ⟨hsilent, hcalls⟩ := over_level hd hthit
      rw [hclock]
      rw [hout] at hcalls
      exact ⟨hsilent, iff_of_true ((reports_one hcalls (by decide)).mpr rfl) hlast⟩
    · rw [if_pos (by omega)]
      rw [show n - k = n - (k + 1) + 1 by omega] at hdue
      obtain ⟨hnext, hlater, hcalls, hkept, hclear⟩ := clock_waits hgoing (by omega) hdue
      exact ⟨⟨hnext, hlater, hkept.trans hout, hclear.trans hthit⟩, iff_of_false (reports_none hcalls) hlast⟩
  · rw [if_neg hbefore] at h
    rw [if_neg (by omega)]
    obtain ⟨hsilent, hcalls⟩ := silent_clock h
    exact ⟨hsilent, iff_of_false (reports_none hcalls) (by omega)⟩

def following (n p : ℕ) : ℕ := if p + 1 = n then 0 else p + 1

theorem mod_succ {n : ℕ} (hn : 0 < n) (k : ℕ) : (k + 1) % n = following n (k % n) := by
  have hlt := Nat.mod_lt k hn
  unfold following
  rw [Nat.add_mod]
  split_ifs with hlast
  · by_cases hone : n = 1
    · rw [hone, Nat.mod_one]
    · rw [Nat.mod_eq_of_lt (show 1 < n by omega), hlast, Nat.mod_self]
  · rw [Nat.mod_eq_of_lt (show 1 < n by omega), Nat.mod_eq_of_lt (by omega)]

/-- A counter in mode 2, this far into its period. -/
structure Rate (usingTimer : Bool) (n p : ℕ) (ctr : Counter) : Prop where
  going : Going usingTimer 2 n ctr
  due : Due ctr (n - following n p)
  out : ctr.out = true
  thit : ctr.thit = false

theorem rate_clock {usingTimer : Bool} {n p : ℕ} (hn : 2 ≤ n) (hp : p < n) {ctr : Counter}
    (h : Rate usingTimer n p ctr) :
    Rate usingTimer n (following n p) (clock ctr) ∧ (Reports (clock ctr) false ↔ following n p = n - 1) := by
  have hdue := h.due
  obtain ⟨q, hq⟩ : ∃ q, q = following n p := ⟨_, rfl⟩
  have hlt : q < n := by
    rw [hq]
    unfold following
    split_ifs <;> omega
  rw [← hq] at hdue ⊢
  by_cases hlast : q = n - 1
  · rw [show n - q = 1 by omega] at hdue
    obtain ⟨d, hd, hclock⟩ := clock_over h.going hdue
    obtain ⟨hgoing, hnext, hcalls, hout, hthit⟩ := over_rate hd h.thit
    rw [h.out] at hcalls
    rw [hclock]
    refine ⟨⟨hgoing, ?_, hout, hthit⟩, iff_of_true (reports_pulse hcalls) hlast⟩
    have hround : following n q = 0 := if_pos (by omega)
    rw [hround]
    exact hnext
  · have hon : following n q = q + 1 := if_neg (by omega)
    rw [show n - q = n - following n q + 1 by omega] at hdue
    obtain ⟨hgoing, hnext, hcalls, hout, hthit⟩ := clock_waits h.going (by omega) hdue
    exact ⟨⟨hgoing, hnext, hout.trans h.out, hthit.trans h.thit⟩, iff_of_false (reports_none hcalls) hlast⟩

/-- A counter in mode 3, this far into its period. -/
structure Square (usingTimer : Bool) (n p : ℕ) (ctr : Counter) : Prop where
  going : Going usingTimer 3 n ctr
  due : Due ctr (if p < (n + 1) / 2 then (n + 1) / 2 - p else n - p)
  out : ctr.out = decide (p < (n + 1) / 2)
  thit : ctr.thit = false

theorem square_clock {usingTimer : Bool} {n p : ℕ} (hn : 2 ≤ n) (hp : p < n) {ctr : Counter}
    (h : Square usingTimer n p ctr) (hrise : usingTimer = true ∨ p + 1 ≠ n) :
    Square usingTimer n (following n p) (clock ctr) ∧
      ∀ new, Reports (clock ctr) new ↔
        decide (following n p < (n + 1) / 2) = new ∧ decide (p < (n + 1) / 2) ≠ new := by
  obtain ⟨hgoing, hdue, hout, hthit⟩ := h
  by_cases hhigh : p < (n + 1) / 2
  · rw [if_pos hhigh] at hdue
    rw [decide_eq_true hhigh] at hout ⊢
    have hon : following n p = p + 1 := if_neg (by omega)
    rw [hon]
    by_cases hlast : p + 1 < (n + 1) / 2
    · rw [show (n + 1) / 2 - p = (n + 1) / 2 - (p + 1) + 1 by omega] at hdue
      obtain ⟨hnext, hlater, hcalls, hkept, hclear⟩ := clock_waits hgoing (by omega) hdue
      refine ⟨⟨hnext, ?_, ?_, hclear.trans hthit⟩, fun new => ?_⟩
      · rw [if_pos hlast]
        exact hlater
      · rw [decide_eq_true hlast]
        exact hkept.trans hout
      · rw [decide_eq_true hlast]
        exact iff_of_false (reports_none hcalls) (fun hnew => hnew.2 hnew.1)
    · rw [show (n + 1) / 2 - p = 1 by omega] at hdue
      obtain ⟨d, hd, hclock⟩ := clock_over hgoing hdue
      obtain ⟨hnext, hlater, hcalls, hlow, hclear⟩ := over_falls hd hout hthit
      rw [hclock]
      refine ⟨⟨hnext, ?_, ?_, hclear⟩, fun new => ?_⟩
      · rw [if_neg hlast, show n - (p + 1) = n / 2 by omega]
        exact hlater
      · rw [decide_eq_false hlast]
        exact hlow
      · rw [decide_eq_false hlast]
        refine (reports_one hcalls (by decide)).trans ?_
        cases new <;> simp
  · rw [if_neg hhigh] at hdue
    rw [decide_eq_false hhigh] at hout ⊢
    by_cases hlast : p + 1 = n
    · obtain rfl : usingTimer = true := hrise.resolve_right (not_not_intro hlast)
      have hround : following n p = 0 := if_pos hlast
      have hfirst : 0 < (n + 1) / 2 := by omega
      rw [hround]
      rw [show n - p = 1 by omega] at hdue
      obtain ⟨d, hd, hclock⟩ := clock_over hgoing hdue
      obtain ⟨hnext, hlater, hcalls, hup, hclear⟩ := over_rises hd hout hthit
      rw [hclock]
      refine ⟨⟨hnext, ?_, ?_, hclear⟩, fun new => ?_⟩
      · rw [if_pos hfirst]
        exact hlater
      · rw [decide_eq_true hfirst]
        exact hup
      · rw [decide_eq_true hfirst]
        refine (reports_one hcalls (by decide)).trans ?_
        cases new <;> simp
    · have hon : following n p = p + 1 := if_neg hlast
      rw [hon]
      have hlow : ¬p + 1 < (n + 1) / 2 := by omega
      rw [show n - p = n - (p + 1) + 1 by omega] at hdue
      obtain ⟨hnext, hlater, hcalls, hkept, hclear⟩ := clock_waits hgoing (by omega) hdue
      refine ⟨⟨hnext, ?_, ?_, hclear.trans hthit⟩, fun new => ?_⟩
      · rw [if_neg hlow]
        exact hlater
      · rw [decide_eq_false hlow]
        exact hkept.trans hout
      · rw [decide_eq_false hlow]
        exact iff_of_false (reports_none hcalls) (fun hnew => hnew.2 hnew.1)

theorem square_late {n : ℕ} (hn : 2 ≤ n) {ctr : Counter} (h : Square false n (n - 1) ctr) :
    Late n 0 (clock ctr) ∧ ∀ new, Reports (clock ctr) new ↔ new = true := by
  obtain ⟨hgoing, hdue, hout, hthit⟩ := h
  have hlow : ¬n - 1 < (n + 1) / 2 := by omega
  rw [if_neg hlow, show n - (n - 1) = 1 by omega] at hdue
  rw [decide_eq_false hlow] at hout
  obtain ⟨d, hd, hclock⟩ := clock_over hgoing hdue
  obtain ⟨hlate, hcalls⟩ := over_late hd hout
  rw [hclock]
  exact ⟨hlate, fun new => reports_one hcalls (by decide)⟩

section
variable {ctr : Counter}

theorem fullCount_pos (ctr : Counter) : 0 < fullCount ctr := by
  unfold fullCount
  split_ifs with h
  · decide
  · exact Nat.pos_of_ne_zero h

theorem load_level (hm : ctr.m = 0) (hgate : ctr.gate = true) (hconst : ctr.usingTimer = true → 0 < ctr.pitConst)
    (wm : ℕ) : Level ctr.usingTimer (fullCount ctr) 0 { pitfCtrLoad ctr with wm := wm } := by
  unfold Level
  rw [if_pos (fullCount_pos ctr), Nat.sub_zero]
  cases ht : ctr.usingTimer with
  | true =>
    have hload : pitfCtrLoad ctr =
        { ctr with
          newcount := false, disabled := false, count := fullCount ctr, out := false
          calls := ctr.calls ++ [⟨false, ctr.out⟩], thit := false, enabled := true, initial := false, running := true
          timer := ⟨ctr.timer.now, ctr.timer.now + fullCount ctr * ctr.pitConst, true⟩ } := by
      cases ctr
      cases hm
      cases hgate
      cases ht
      rfl
    rw [hload]
    refine ⟨⟨hm, rfl, rfl, rfl, ht, fun _ => hconst ht⟩, (due_timer ?_).mpr ⟨rfl, rfl⟩, rfl, rfl⟩
    exact ht
  | false =>
    have hload : pitfCtrLoad ctr =
        { ctr with
          newcount := false, disabled := false, count := fullCount ctr, out := false
          calls := ctr.calls ++ [⟨false, ctr.out⟩], thit := false, enabled := true, initial := false
          running := false } := by
      cases ctr
      cases hm
      cases hgate
      cases ht
      rfl
    rw [hload]
    refine ⟨⟨hm, rfl, rfl, rfl, ht, (nomatch ·)⟩, (due_single ?_ ?_).mpr ⟨rfl, rfl⟩, rfl, rfl⟩
    · exact ht
    · exact fun hthree => absurd (hm.symm.trans hthree) (by decide)

theorem load_rate (hm : ctr.m = 2) (hgate : ctr.gate = true) (hinitial : ctr.initial = true)
    (hconst : ctr.usingTimer = true → 0 < ctr.pitConst) (hn : 2 ≤ fullCount ctr) (wm : ℕ) :
    Rate ctr.usingTimer (fullCount ctr) 0 { pitfCtrLoad ctr with wm := wm } := by
  have hfirst : following (fullCount ctr) 0 = 1 := if_neg (by omega)
  cases ht : ctr.usingTimer with
  | true =>
    have hload : pitfCtrLoad ctr =
        { ctr with
          newcount := false, disabled := false, count := (fullCount ctr : ℤ) - 1, out := true
          calls := ctr.calls ++ [⟨true, ctr.out⟩], thit := false, enabled := true, initial := false, running := true
          timer := ⟨ctr.timer.now, ctr.timer.now + (fullCount ctr - 1) * ctr.pitConst, true⟩ } := by
      cases ctr
      cases hm
      cases hgate
      cases hinitial
      cases ht
      rfl
    rw [hload]
    refine ⟨⟨hm, rfl, rfl, rfl, ht, fun _ => hconst ht⟩, (due_timer ?_).mpr ⟨rfl, ?_⟩, rfl, rfl⟩
    · exact ht
    · rw [hfirst]
  | false =>
    have hload : pitfCtrLoad ctr =
        { ctr with
          newcount := false, disabled := false, count := (fullCount ctr : ℤ) - 1, out := true
          calls := ctr.calls ++ [⟨true, ctr.out⟩], thit := false, enabled := true, initial := false
          running := false } := by
      cases ctr
      cases hm
      cases hgate
      cases hinitial
      cases ht
      rfl
    rw [hload]
    refine ⟨⟨hm, rfl, rfl, rfl, ht, (nomatch ·)⟩, (due_single ?_ ?_).mpr ⟨rfl, ?_⟩, rfl, rfl⟩
    · exact ht
    · exact fun hthree => absurd (hm.symm.trans hthree) (by decide)
    · rw [hfirst]
      change (fullCount ctr : ℤ) - 1 = (fullCount ctr - 1 : ℕ)
      omega

theorem load_square (hm : ctr.m = 3) (hgate : ctr.gate = true) (hinitial : ctr.initial = true)
    (hconst : ctr.usingTimer = true → 0 < ctr.pitConst) (hn : 2 ≤ fullCount ctr) (wm : ℕ) :
    Square ctr.usingTimer (fullCount ctr) 0 { pitfCtrLoad ctr with wm := wm } := by
  have hfirst : 0 < (fullCount ctr + 1) / 2 := by omega
  cases ht : ctr.usingTimer with
  | true =>
    have hload : pitfCtrLoad ctr =
        { ctr with
          newcount := false, disabled := false, count := fullCount ctr, out := true
          calls := ctr.calls ++ [⟨true, ctr.out⟩], thit := false, enabled := true, initial := false, running := true
          timer := ⟨ctr.timer.now, ctr.timer.now + (fullCount ctr + 1) / 2 * ctr.pitConst, true⟩ } := by
      cases ctr
      cases hm
      cases hgate
      cases hinitial
      cases ht
      rfl
    rw [hload]
    refine ⟨⟨hm, rfl, rfl, rfl, ht, fun _ => hconst ht⟩, (due_timer ?_).mpr ⟨rfl, ?_⟩, ?_, rfl⟩
    · exact ht
    · rw [if_pos hfirst]
      rfl
    · exact (decide_eq_true hfirst).symm
  | false =>
    have hload : pitfCtrLoad ctr =
        { ctr with
          newcount := fullCount ctr % 2 == 1, disabled := false, count := fullCount ctr, out := true
          calls := ctr.calls ++ [⟨true, ctr.out⟩], thit := false, enabled := true, initial := false
          running := false } := by
      cases ctr
      cases hm
      cases hgate
      cases hinitial
      cases ht
      rfl
    rw [hload]
    refine ⟨⟨hm, rfl, rfl, rfl, ht, (nomatch ·)⟩, (due_double ?_ ?_).mpr ⟨rfl, ?_⟩, ?_, rfl⟩
    · exact ht
    · exact hm
    · rw [if_pos hfirst]
      change if (fullCount ctr % 2 == 1) = true then
          (fullCount ctr : ℤ) =
            ((if true = true then 2 * ((fullCount ctr + 1) / 2 - 0) - 1
              else 2 * ((fullCount ctr + 1) / 2 - 0) + 1 : ℕ) : ℤ)
        else (fullCount ctr : ℤ) = 2 * (((fullCount ctr + 1) / 2 - 0 : ℕ) : ℤ)
      by_cases hodd : fullCount ctr % 2 = 1
      · rw [if_pos (by simpa using hodd), if_pos rfl]
        omega
      · rw [if_neg (by simpa using hodd)]
        omega
    · exact (decide_eq_true hfirst).symm

end

/-- A control word and a whole count. -/
def loaded (ctr : Counter) (word : Byte) (bytes : List Byte) : Counter := bytes.foldl pitfData (pitfControl ctr word)

theorem control_mode (ctr : Counter) (word : Byte) : (pitfControl ctr word).m = modeOf word := by
  change (if 5 < word.toNat / 2 % 8 then word.toNat / 2 % 8 % 4 else word.toNat / 2 % 8) = canonicalMode _
  unfold canonicalMode
  rw [Nat.mod_mod]

theorem loaded_eq (ctr : Counter) {word : Byte} {bytes : List Byte} {register : ℕ}
    (h : Expresses (rwOf word) bytes register) :
    ∃ before after,
      loaded ctr word bytes =
        { pitfCtrLoad { pitfControl ctr word with l := register, wm := before } with wm := after } := by
  have hwm : (pitfControl ctr word).wm = rwOf word := rfl
  obtain ⟨start, hstart⟩ : ∃ start, start = pitfControl ctr word := ⟨_, rfl⟩
  unfold loaded
  rw [← hstart] at hwm ⊢
  rcases h with ⟨hrw, b, rfl, rfl⟩ | ⟨hrw, b, rfl, rfl⟩ | ⟨hrw, lsb, msb, rfl, rfl⟩
  · rw [hrw] at hwm
    refine ⟨1, (pitfCtrLoad { start with l := b.toNat, wm := 1 }).wm, ?_⟩
    clear hstart
    cases start
    cases hwm
    rfl
  · rw [hrw] at hwm
    refine ⟨2, (pitfCtrLoad { start with l := b.toNat * 0x100, wm := 2 }).wm, ?_⟩
    clear hstart
    cases start
    cases hwm
    rfl
  · rw [hrw] at hwm
    refine ⟨0, 3, ?_⟩
    have hfirst : pitfData start lsb = { start with l := start.l % 0x10000 / 0x100 * 0x100 + lsb.toNat, wm := 0 } := by
      clear hstart
      cases start
      cases hwm
      rfl
    have hl := lsb.isLt
    have hregister : (start.l % 0x10000 / 0x100 * 0x100 + lsb.toNat) % 0x100 + msb.toNat * 0x100 =
        lsb.toNat + msb.toNat * 0x100 := by omega
    rw [List.foldl_cons, List.foldl_cons, List.foldl_nil, hfirst, ← hregister]
    rfl

theorem periodOf_binary {register : ℕ} (h : register < 0x10000) :
    periodOf false register = if register = 0 then 0x10000 else register := by
  unfold periodOf reloadOf
  split_ifs
  · rfl
  · exact value_binary h

section
variable {usingTimer : Bool} {n : ℕ} {ctr : Counter}

theorem level_run (h : Level usingTimer n 0 ctr) (k : ℕ) : Level usingTimer n k (clock^[k] ctr) := by
  induction k with
  | zero => exact h
  | succ k ih =>
    rw [Function.iterate_succ_apply']
    exact (level_clock ih).1

theorem rate_run (hn : 2 ≤ n) (h : Rate usingTimer n 0 ctr) (k : ℕ) : Rate usingTimer n (k % n) (clock^[k] ctr) := by
  induction k with
  | zero =>
    rw [Nat.zero_mod]
    exact h
  | succ k ih =>
    rw [Function.iterate_succ_apply', mod_succ (by omega)]
    exact (rate_clock hn (Nat.mod_lt _ (by omega)) ih).1

theorem square_run (hn : 2 ≤ n) (h : Square usingTimer n 0 ctr) (k : ℕ) (hk : usingTimer = true ∨ k < n) :
    Square usingTimer n (k % n) (clock^[k] ctr) := by
  induction k with
  | zero =>
    rw [Nat.zero_mod]
    exact h
  | succ k ih =>
    rw [Function.iterate_succ_apply', mod_succ (by omega)]
    refine (square_clock hn (Nat.mod_lt _ (by omega)) (ih (hk.imp id (by omega))) ?_).1
    refine hk.imp id fun hlt => ?_
    rw [Nat.mod_eq_of_lt (by omega)]
    omega

theorem late_run (hn : 2 ≤ n) (h : Square false n 0 ctr) {j : ℕ} (hj : j ≤ (n + 1) / 2) :
    Late n j (clock^[n + j] ctr) := by
  induction j with
  | zero =>
    have hlast := square_run hn h (n - 1) (.inr (by omega))
    rw [Nat.mod_eq_of_lt (by omega)] at hlast
    have hturn := (square_late hn hlast).1
    rwa [← Function.iterate_succ_apply' clock, show (n - 1).succ = n + 0 by omega] at hturn
  | succ j ih =>
    rw [show n + (j + 1) = (n + j).succ by omega, Function.iterate_succ_apply']
    exact (late_clock hn (by omega) (ih (by omega))).1

end

def Edge (mode n k : ℕ) (new : Bool) : Prop := exactOut mode n (k + 1) = new ∧ exactOut mode n k ≠ new

section
variable {n k : ℕ}

theorem edge_level : Edge 0 n k true ↔ k + 1 = n := by
  unfold Edge
  rw [exactOut_level, exactOut_level, decide_eq_true_eq, Ne, decide_eq_true_eq]
  omega

theorem edge_rate (hn : 2 ≤ n) : Edge 2 n k false ↔ following n (k % n) = n - 1 := by
  have hlt := Nat.mod_lt k (show 0 < n by omega)
  unfold Edge
  rw [exactOut_rate, exactOut_rate, mod_succ (by omega)]
  unfold following
  simp only [decide_eq_false_iff_not, not_not, ne_eq]
  split_ifs <;> omega

theorem edge_square (hn : 2 ≤ n) (new : Bool) :
    Edge 3 n k new ↔ decide (following n (k % n) < (n + 1) / 2) = new ∧ decide (k % n < (n + 1) / 2) ≠ new := by
  unfold Edge
  rw [exactOut_square, exactOut_square, mod_succ (by omega)]

variable {ctr : Counter}

theorem square_edge {usingTimer : Bool} (hn : 2 ≤ n) (h : Square usingTimer n 0 ctr)
    (hk : usingTimer = true ∨ k + 1 < n + (n + 1) / 2) (new : Bool) :
    Reports (clock^[k + 1] ctr) new ↔ Edge 3 n k new := by
  rw [Function.iterate_succ_apply', edge_square hn]
  by_cases htimed : usingTimer = true ∨ k + 1 < n
  · have hplace := square_run hn h k (htimed.imp id (by omega))
    refine (square_clock hn (Nat.mod_lt _ (by omega)) hplace (htimed.imp id fun hlt => ?_)).2 new
    rw [Nat.mod_eq_of_lt (by omega)]
    omega
  · obtain ⟨htimer, hlate⟩ := not_or.mp htimed
    obtain rfl : usingTimer = false := by simpa using htimer
    have hsoon := hk.resolve_left Bool.false_ne_true
    by_cases hturn : k + 1 = n
    · have hlast := square_run hn h k (.inr (by omega))
      have hround : following n (n - 1) = 0 := if_pos (by omega)
      rw [show k % n = n - 1 by rw [Nat.mod_eq_of_lt (by omega)]; omega] at hlast ⊢
      refine ((square_late hn hlast).2 new).trans ?_
      rw [hround, decide_eq_true (show 0 < (n + 1) / 2 by omega),
        decide_eq_false (show ¬n - 1 < (n + 1) / 2 by omega)]
      cases new <;> simp
    · obtain ⟨j, rfl⟩ : ∃ j, k = n + j := ⟨k - n, by omega⟩
      have hlate := @late_run n ctr hn h j (by omega)
      have hplace : (n + j) % n = j := by
        rw [Nat.add_mod_left]
        exact Nat.mod_eq_of_lt (by omega)
      have hon : following n j = j + 1 := if_neg (by omega)
      rw [hplace, hon, decide_eq_true (show j + 1 < (n + 1) / 2 by omega),
        decide_eq_true (show j < (n + 1) / 2 by omega)]
      exact iff_of_false (reports_none (late_clock hn (by omega) hlate).2) (fun hnew => hnew.2 hnew.1)

theorem late_edge (hn : 2 ≤ n) (h : Square false n 0 ctr) (hk : k + 1 = n + (n + 1) / 2) :
    ¬Reports (clock^[k + 1] ctr) false ∧ Edge 3 n k false := by
  obtain ⟨j, rfl⟩ : ∃ j, k = n + j := ⟨k - n, by omega⟩
  have hlate := @late_run n ctr hn h j (by omega)
  rw [Function.iterate_succ_apply']
  refine ⟨reports_none (late_clock hn (by omega) hlate).2, ?_⟩
  have hplace : (n + j) % n = j := by
    rw [Nat.add_mod_left]
    exact Nat.mod_eq_of_lt (by omega)
  have hon : following n j = j + 1 := if_neg (by omega)
  rw [edge_square hn, hplace, hon, decide_eq_false (show ¬j + 1 < (n + 1) / 2 by omega),
    decide_eq_true (show j < (n + 1) / 2 by omega)]
  exact ⟨rfl, by decide⟩

end

/-- The counter reports the edges of the channel, on the clocks on which they come. -/
def SameEdges (mode : ℕ) (exact : Channel) (fast : Counter) (clocks : ℕ) : Prop :=
  ∀ k < clocks, ∀ new, Watched mode new →
    (Reports (clock^[k + 1] fast) new ↔
      (tickChannel^[k + 1] exact).output = new ∧ (tickChannel^[k] exact).output ≠ new)

/-- With a timer always, and without one but in mode 3 from the second high half on. -/
theorem same_edges_iff {c : Channel} {ctr : Counter} {word : Byte} {bytes : List Byte} {register : ℕ}
    (h : Expresses (rwOf word) bytes register) (hbinary : word.getLsbD 0 = false)
    (hmode : modeOf word = 0 ∨ modeOf word = 2 ∨ modeOf word = 3)
    (hn : modeOf word ≠ 0 → 2 ≤ periodOf false register) (hgate : c.gate = true) (hfast : ctr.gate = true)
    (hconst : ctr.usingTimer = true → 0 < ctr.pitConst) (clocks : ℕ) :
    SameEdges (modeOf word) (tickChannel (programmed c word bytes)) (loaded ctr word bytes) clocks ↔
      ¬(modeOf word = 3 ∧ ctr.usingTimer = false ∧
        periodOf false register + (periodOf false register + 1) / 2 ≤ clocks) := by
  obtain ⟨n, hperiod⟩ : ∃ n, n = periodOf false register := ⟨_, rfl⟩
  have hexact (k : ℕ) :
      (tickChannel^[k] (tickChannel (programmed c word bytes))).output = exactOut (modeOf word) n k := by
    rw [← Function.iterate_succ_apply, exact_ticks h hmode (by rwa [hbinary]) hgate k, hbinary, hperiod]
  have hsame : SameEdges (modeOf word) (tickChannel (programmed c word bytes)) (loaded ctr word bytes) clocks ↔
      ∀ k < clocks, ∀ new, Watched (modeOf word) new →
        (Reports (clock^[k + 1] (loaded ctr word bytes)) new ↔ Edge (modeOf word) n k new) := by
    unfold SameEdges Edge
    simp only [hexact]
  obtain ⟨before, after, hloaded⟩ := loaded_eq ctr h
  obtain ⟨start, hstart⟩ : ∃ start, start = { pitfControl ctr word with l := register, wm := before } := ⟨_, rfl⟩
  have hm : start.m = modeOf word := by
    rw [hstart]
    exact control_mode ctr word
  have hfull : fullCount start = n := by
    rw [hperiod, periodOf_binary (expresses_lt h), hstart]
    rfl
  have hstarted : start.gate = true ∧ start.initial = true ∧ start.usingTimer = ctr.usingTimer ∧
      start.pitConst = ctr.pitConst := by
    rw [hstart]
    exact ⟨hfast, rfl, rfl, rfl⟩
  obtain ⟨hopen, hinitial, htimer, hpitConst⟩ := hstarted
  rw [← htimer, ← hpitConst] at hconst
  rw [hsame, hloaded, ← hstart, ← htimer, ← hperiod]
  rw [← hperiod, ← hfull] at hn
  rcases hmode with hzero | htwo | hthree
  · have hlevel := load_level (hm.trans hzero) hopen hconst after
    rw [hzero]
    refine iff_of_true (fun k hk new hnew => ?_) (fun hbad => absurd hbad.1 (by decide))
    rw [hnew.1 rfl, Function.iterate_succ_apply', ← hfull]
    exact (level_clock (level_run hlevel k)).2.trans edge_level.symm
  · have hlong := hn (by omega)
    have hrate := load_rate (hm.trans htwo) hopen hinitial hconst hlong after
    rw [htwo]
    refine iff_of_true (fun k hk new hnew => ?_) (fun hbad => absurd hbad.1 (by decide))
    rw [hnew.2 rfl, Function.iterate_succ_apply', ← hfull]
    refine (rate_clock hlong (Nat.mod_lt _ (by omega)) (PitTwins.rate_run hlong hrate k)).2.trans ?_
    exact (edge_rate hlong).symm
  · have hlong := hn (by omega)
    have hsquare := load_square (hm.trans hthree) hopen hinitial hconst hlong after
    rw [hthree, ← hfull]
    constructor
    · rintro hall ⟨-, huntimed, hmany⟩
      rw [huntimed] at hsquare
      obtain ⟨k, hk⟩ : ∃ k, k + 1 = fullCount start + (fullCount start + 1) / 2 :=
        ⟨_, Nat.sub_add_cancel (by omega)⟩
      obtain ⟨hmissed, hfalls⟩ := late_edge hlong hsquare hk
      exact hmissed ((hall k (by omega) false ⟨fun h0 => absurd h0 (by decide), fun h2 => absurd h2 (by decide)⟩).mpr
        hfalls)
    · intro hok k hk new hnew
      refine square_edge hlong hsquare ?_ new
      cases ht : start.usingTimer with
      | true => exact .inl rfl
      | false =>
        refine .inr ?_
        by_contra hfar
        exact hok ⟨rfl, ht, by omega⟩

theorem same_edges_three :
    SameEdges 3 (tickChannel (programmed { resetChannel .i8253 with gate := true } 0x56 [3]))
        (loaded { ctrReset with gate := true, pitConst := 5 } 0x56 [3]) 1000 ∧
      SameEdges 3 (tickChannel (programmed { resetChannel .i8253 with gate := true } 0x56 [3]))
        (loaded { ctrReset with gate := true, usingTimer := false } 0x56 [3]) 4 := by
  have hbytes : Expresses (rwOf 0x56) [3] 3 := .inl ⟨rfl, 3, rfl, rfl⟩
  constructor
  · exact (@same_edges_iff { resetChannel .i8253 with gate := true } { ctrReset with gate := true, pitConst := 5 }
      0x56 [3] 3 hbytes rfl (.inr (.inr rfl)) (fun _ => by decide) rfl rfl (fun _ => by decide) 1000).mpr (by decide)
  · exact (@same_edges_iff { resetChannel .i8253 with gate := true } { ctrReset with gate := true, usingTimer := false }
      0x56 [3] 3 hbytes rfl (.inr (.inr rfl)) (fun _ => by decide) rfl rfl (fun ht => absurd ht (by decide)) 4).mpr
        (by decide)

/-- A count of two in mode 3, clocked from outside, on the third clock. -/
theorem same_edges_two :
    let c := { resetChannel .i8253 with gate := true }
    let ctr := { ctrReset with gate := true, usingTimer := false }
    Expresses (rwOf 0x56) [2] 2 ∧ modeOf 0x56 = 3 ∧
      ¬SameEdges 3 (tickChannel (programmed c 0x56 [2])) (loaded ctr 0x56 [2]) 3 := by
  refine ⟨.inl ⟨rfl, 2, rfl, rfl⟩, rfl, fun hsame => ?_⟩
  have hthird := hsame 2 (by decide) false ⟨fun h => absurd h (by decide), fun h => absurd h (by decide)⟩
  exact reports_none (by decide +kernel) (hthird.mpr (by decide +kernel))

end PeepeeBox.PitTwins
