import PeepeeBox.BurstClassification

set_option autoImplicit false

/-!
# Bursts on the wire

How DATA writes carry the bytes of a burst, and what `hb_data` collects from them.
-/
namespace PeepeeBox.BurstClocking
open BurstClassification BurstCollector DongleDevice TraceMachine

/-- `ws` clocks the payloads one by one on DATA bit 0: low for at least one write, then
    raised with the payload above it, then held for as long as the host likes. -/
inductive Clocks : List Byte → List Byte → Prop where
  | nil : Clocks [] []
  | cons {ps ws : List Byte} (lows : List Byte) (rise : Byte) (highs : List Byte)
      (hne : lows ≠ []) (hlow : ∀ v ∈ lows, v.getLsbD 0 = false) (hrise : rise.getLsbD 0 = true)
      (hhigh : ∀ v ∈ highs, v.getLsbD 0 = true) (rest : Clocks ps ws) :
      Clocks (hbPayload rise :: ps) (lows ++ rise :: (highs ++ ws))

/-- The plainest host: each payload is written once with the clock low and once high. -/
def clockOut (ps : List Byte) : List Byte := ps.flatMap fun p => [p, p ||| 1]

theorem clocks_clockOut (ps : List Byte) (hps : ∀ p ∈ ps, p &&& 0x81 = 0) :
    Clocks ps (clockOut ps) := by
  have plain : ∀ p : Byte, p &&& 0x81 = 0 →
      p.getLsbD 0 = false ∧ (p ||| 1).getLsbD 0 = true ∧ hbPayload (p ||| 1) = p := by
    decide +kernel
  induction ps with
  | nil => exact .nil
  | cons p ps ih =>
    obtain ⟨hl, hr, hp⟩ := plain p (hps p (by simp))
    have rest := ih fun q hq => hps q (by simp [hq])
    have h := Clocks.cons [p] (p ||| 1) [] (by simp) (by simpa using hl) hr (by simp) rest
    rw [hp] at h
    exact h

def hbWindow (h : Hb) (p : Byte) : Option (List Byte) :=
  if p ≠ 0x46 ∧ h.n = 14 then
    some ((List.range 15).map (Function.update h.win h.n.toNat p))
  else none

/-- `hb_data` with the windows it hands to `hs_burst_class` as its answers. -/
def wire (pw : BitVec 32) : Machine Hb Byte (List Byte) :=
  ⟨fun h val => (hbData pw h val, if hbClocks h val then hbWindow h (hbPayload val) else none)⟩

def hbTake (pw : BitVec 32) (h : Hb) (p : Byte) : Hb :=
  if p = 0x46 then { h with n := 0 } else if 0 ≤ h.n then hbCollect pw h p else h

def collector (pw : BitVec 32) : Machine Hb Byte (List Byte) :=
  ⟨fun h p => (hbTake pw h p, hbWindow h p)⟩

variable (pw : BitVec 32)

theorem hbData_still (h : Hb) (val : Byte) (hc : hbClocks h val = false) :
    hbData pw h val = { h with prev := val } := by
  simp [hbData, hc]

theorem hbData_clock (h : Hb) (val : Byte) (hc : hbClocks h val = true) :
    hbData pw h val = { hbTake pw h (hbPayload val) with prev := val } := by
  simp only [hbData, hc, hbTake, if_true]

def hbJudge (mode : BurstClass) (w : List Byte) : BurstClass :=
  let c := hsBurstClass (fun i => w.getD i 0) pw
  if c = .other then mode else c

theorem hbTake_mode (h : Hb) (p : Byte) :
    (hbTake pw h p).mode = (hbWindow h p).toList.foldl (hbJudge pw) h.mode := by
  by_cases hp : p = 0x46
  · have hw : hbWindow h p = none := by
      rw [hbWindow, if_neg]
      exact fun hc => hc.1 hp
    rw [hw, hbTake, if_pos hp]
    rfl
  by_cases hn : h.n = 14
  · have hw : hbWindow h p = some ((List.range 15).map (Function.update h.win 14 p)) := by
      rw [hbWindow, if_pos ⟨hp, hn⟩, hn]
      rfl
    have hspell : hsBurstClass (Function.update h.win 14 p) pw =
        hsBurstClass
          (fun i => ((List.range 15).map (Function.update h.win 14 p)).getD i 0) pw := by
      apply hsBurstClass_congr
      intro i hi
      simp [hi]
    have hpos : 0 ≤ h.n := by omega
    have h15 : h.n + 1 = 15 := by omega
    rw [hw, hbTake, if_neg hp, if_pos hpos, hbCollect, if_pos h15, hn]
    simp only [Option.toList_some, List.foldl_cons, List.foldl_nil, hbJudge]
    rw [← hspell]
    rfl
  · have hw : hbWindow h p = none := by
      rw [hbWindow, if_neg]
      exact fun hc => hn hc.2
    have h15 : ¬h.n + 1 = 15 := by omega
    rw [hw, hbTake, if_neg hp]
    split
    · rw [hbCollect, if_neg h15]
      rfl
    · rfl

theorem wire_mode (h : Hb) (ws : List Byte) :
    ((wire pw).run h ws).mode = ((wire pw).trace h ws).foldl (hbJudge pw) h.mode := by
  induction ws generalizing h with
  | nil => rfl
  | cons v ws ih =>
    have hstep : ((wire pw).next h v).mode =
        ((wire pw).answer h v).toList.foldl (hbJudge pw) h.mode := by
      change (hbData pw h v).mode =
        (if hbClocks h v = true then hbWindow h (hbPayload v) else none).toList.foldl _ _
      cases hc : hbClocks h v with
      | false =>
        rw [hbData_still pw h v hc]
        rfl
      | true =>
        rw [hbData_clock pw h v hc]
        exact hbTake_mode pw h (hbPayload v)
    rw [Machine.run_cons, Machine.trace_cons, List.foldl_append, ← hstep]
    exact ih _

theorem hbTake_prev (h : Hb) (q p : Byte) :
    hbTake pw { h with prev := q } p = { hbTake pw h p with prev := q } := by
  simp only [hbTake, hbCollect]
  split
  · rfl
  · split
    · split <;> rfl
    · rfl

theorem collector_run_prev (h : Hb) (q : Byte) (ps : List Byte) :
    (collector pw).run { h with prev := q } ps = { (collector pw).run h ps with prev := q } ∧
      (collector pw).trace { h with prev := q } ps = (collector pw).trace h ps := by
  induction ps generalizing h with
  | nil => exact ⟨rfl, rfl⟩
  | cons p ps ih =>
    have hs : (collector pw).next { h with prev := q } p =
        { (collector pw).next h p with prev := q } := hbTake_prev pw h q p
    obtain ⟨hr, ht⟩ := ih ((collector pw).next h p)
    rw [Machine.run_cons, Machine.run_cons, Machine.trace_cons, Machine.trace_cons, hs]
    refine ⟨hr, ?_⟩
    rw [ht]
    rfl

theorem wire_still (h : Hb) (ws : List Byte) (b : Bool) (hb : ∀ v ∈ ws, v.getLsbD 0 = b)
    (hstill : b = false ∨ h.prev.getLsbD 0 = true) :
    ∃ q, (wire pw).run h ws = { h with prev := q } ∧ (wire pw).trace h ws = [] ∧
      (ws ≠ [] → q.getLsbD 0 = b) ∧ (ws = [] → q = h.prev) := by
  induction ws generalizing h with
  | nil => exact ⟨h.prev, rfl, rfl, by simp, by simp⟩
  | cons v ws ih =>
    have hv : v.getLsbD 0 = b := hb v (by simp)
    have hc : hbClocks h v = false := by
      rw [hbClocks, hv]
      rcases hstill with hf | hp
      · simp [hf]
      · simp [hp]
    have hnext : (wire pw).next h v = { h with prev := v } := hbData_still pw h v hc
    have hans : (wire pw).answer h v = none := by
      change (if hbClocks h v = true then hbWindow h (hbPayload v) else none) = none
      simp [hc]
    have hstill' : b = false ∨ ({ h with prev := v } : Hb).prev.getLsbD 0 = true := by
      cases b with
      | false => exact .inl rfl
      | true => exact .inr hv
    obtain ⟨q, hr, ht, hne, he⟩ := ih { h with prev := v } (fun u hu => hb u (by simp [hu])) hstill'
    refine ⟨q, ?_, ?_, ?_, by simp⟩
    · rw [Machine.run_cons, hnext, hr]
    · rw [Machine.trace_cons, hans, hnext, ht]
      rfl
    · intro _
      by_cases hw : ws = []
      · rw [he hw]
        exact hv
      · exact hne hw

theorem wire_clocks {ps ws : List Byte} (hc : Clocks ps ws) (h : Hb) :
    (wire pw).trace h ws = (collector pw).trace h ps ∧
      ∃ q, (wire pw).run h ws = { (collector pw).run h ps with prev := q } := by
  induction hc generalizing h with
  | nil => exact ⟨rfl, h.prev, rfl⟩
  | cons lows rise highs hne hlow hrise hhigh rest ih =>
    rename_i ps ws
    obtain ⟨q, hlr, hlt, hq, -⟩ := wire_still pw h lows false hlow (.inl rfl)
    have hclk : hbClocks { h with prev := q } rise = true := by
      rw [hbClocks, hrise, Bool.true_and]
      change (!q.getLsbD 0) = true
      rw [hq hne]
      rfl
    have hnext : (wire pw).next { h with prev := q } rise =
        { hbTake pw h (hbPayload rise) with prev := rise } := by
      have hd := hbData_clock pw { h with prev := q } rise hclk
      rw [hbTake_prev] at hd
      exact hd
    have hans : (wire pw).answer { h with prev := q } rise = hbWindow h (hbPayload rise) := by
      change (if hbClocks { h with prev := q } rise = true then
        hbWindow { h with prev := q } (hbPayload rise) else none) = _
      rw [if_pos hclk]
      rfl
    obtain ⟨q', hhr, hht, -, -⟩ := wire_still pw
      { hbTake pw h (hbPayload rise) with prev := rise } highs true hhigh (.inr hrise)
    obtain ⟨ht, q'', hr⟩ := ih { hbTake pw h (hbPayload rise) with prev := q' }
    obtain ⟨hcr, hct⟩ := collector_run_prev pw (hbTake pw h (hbPayload rise)) q' ps
    refine ⟨?_, q'', ?_⟩
    · rw [Machine.trace_append, hlt, hlr, List.nil_append, Machine.trace_cons, hnext, hans,
        Machine.trace_append, hht, hhr, ht, hct, List.nil_append]
      rfl
    · rw [Machine.run_append, hlr, Machine.run_cons, hnext, Machine.run_append, hhr, hr, hcr]
      rfl

theorem hbTake_resync (h : Hb) : hbTake pw h 0x46 = { h with n := 0 } := by
  simp [hbTake]

theorem collector_fill (ps : List Byte) (h : Hb) (k : ℕ) (hk : h.n = k)
    (hlen : k + ps.length ≤ 14) (hps : ∀ p ∈ ps, p ≠ 0x46) :
    (collector pw).trace h ps = [] ∧
      (collector pw).run h ps =
        { h with
          n := (k + ps.length : ℕ)
          win := fun i => if k ≤ i ∧ i < k + ps.length then ps.getD (i - k) 0 else h.win i } := by
  induction ps generalizing h k with
  | nil =>
    refine ⟨rfl, ?_⟩
    have hw : (fun i => if k ≤ i ∧ i < k then ([] : List Byte).getD (i - k) 0 else h.win i) =
        h.win := by
      funext i
      rw [if_neg (by omega)]
    simp only [List.length_nil, Nat.add_zero, hw, ← hk]
    rfl
  | cons p ps ih =>
    have hp : p ≠ 0x46 := hps p (by simp)
    simp only [List.length_cons] at hlen
    have hnext : (collector pw).next h p =
        { h with n := (k + 1 : ℕ), win := Function.update h.win k p } := by
      change hbTake pw h p = _
      have h15 : ¬(k : ℤ) + 1 = 15 := by omega
      rw [hbTake, if_neg hp, if_pos (by omega), hbCollect, hk]
      simp only [Int.toNat_natCast, if_neg h15]
      rfl
    have hans : (collector pw).answer h p = none := by
      change hbWindow h p = none
      rw [hbWindow, if_neg]
      rintro ⟨-, h14⟩
      omega
    obtain ⟨ht, hr⟩ := ih { h with n := (k + 1 : ℕ), win := Function.update h.win k p } (k + 1) rfl
      (by omega) (fun q hq => hps q (by simp [hq]))
    refine ⟨?_, ?_⟩
    · rw [Machine.trace_cons, hans, hnext, ht]
      rfl
    · rw [Machine.run_cons, hnext, hr]
      have hn : k + 1 + ps.length = k + (p :: ps).length := by
        simp only [List.length_cons]
        omega
      simp only [hn, Hb.mk.injEq, true_and, and_true]
      funext i
      by_cases hi : i = k
      · subst hi
        simp
      · rw [Function.update_of_ne hi]
        by_cases hin : k + 1 ≤ i ∧ i < k + (p :: ps).length
        · have hsub : i - k = i - (k + 1) + 1 := by omega
          rw [if_pos hin, if_pos (by omega), hsub, List.getD_cons_succ]
        · rw [if_neg hin, if_neg (by omega)]

theorem collector_short (ps : List Byte) (h : Hb) (k : ℕ) (h0 : 0 ≤ h.n) (hk : h.n ≤ k)
    (hlen : k + ps.length < 15) : (collector pw).trace h ps = [] := by
  induction ps generalizing h k with
  | nil => rfl
  | cons p ps ih =>
    simp only [List.length_cons] at hlen
    have hnone : hbWindow h p = none := by
      rw [hbWindow, if_neg]
      rintro ⟨-, h14⟩
      omega
    have hn : 0 ≤ (hbTake pw h p).n ∧ (hbTake pw h p).n ≤ (k + 1 : ℕ) := by
      rw [hbTake, if_pos h0]
      split
      · exact ⟨le_refl _, Int.natCast_nonneg _⟩
      · have h15 : ¬h.n + 1 = 15 := by omega
        rw [hbCollect, if_neg h15]
        constructor
        · change 0 ≤ h.n + 1
          omega
        · change h.n + 1 ≤ (k + 1 : ℕ)
          omega
    have ht := ih (hbTake pw h p) (k + 1) hn.1 hn.2 (by omega)
    rw [Machine.trace_cons]
    change (hbWindow h p).toList ++ (collector pw).trace (hbTake pw h p) ps = []
    rw [hnone, ht]
    rfl

/-- The fifteen bytes of a word, in the order they are clocked. -/
def word (b : ℕ → Byte) : List Byte := (List.range 15).map b

@[simp] theorem word_length (b : ℕ → Byte) : (word b).length = 15 := by simp [word]

theorem word_take_append (b : ℕ → Byte) : word b = (List.range 14).map b ++ [b 14] := rfl

theorem collector_judges (b : ℕ → Byte) (hb : ∀ i < 15, b i ≠ 0x46) (h : Hb) :
    (collector pw).trace h (0x46 :: word b) = [word b] := by
  have hne : ∀ p ∈ (List.range 14).map b, p ≠ 0x46 := by
    intro p hp
    obtain ⟨i, hi, rfl⟩ := List.mem_map.mp hp
    have := List.mem_range.mp hi
    exact hb i (by omega)
  obtain ⟨ht, hr⟩ := collector_fill pw ((List.range 14).map b) { h with n := 0 } 0 rfl
    (by simp) hne
  have hans : (collector pw).answer h 0x46 = none := by
    change hbWindow h 0x46 = none
    simp [hbWindow]
  have hnext : (collector pw).next h 0x46 = { h with n := 0 } := hbTake_resync pw h
  rw [Machine.trace_cons, hans, hnext, word_take_append, Machine.trace_append, ht, hr,
    Machine.trace_cons, Machine.trace_nil]
  change (hbWindow _ (b 14)).toList ++ [] = _
  rw [hbWindow, if_pos ⟨hb 14 (by omega), by simp⟩]
  simp only [Option.toList_some, List.append_nil, List.cons.injEq, and_true]
  rw [← word_take_append, word]
  apply List.map_congr_left
  intro i hi
  have hlt := List.mem_range.mp hi
  by_cases h14 : i = 14
  · subst h14
    simp
  · have hi14 : i < 14 := by omega
    simp [h14, hi14]

theorem collector_restarts (b : ℕ → Byte) (hb : ∃ i < 15, b i = 0x46) (h : Hb) :
    (collector pw).trace h (0x46 :: word b) = [] := by
  obtain ⟨i, hi, hbi⟩ := hb
  have hmem : (0x46 : Byte) ∈ word b := List.mem_map.mpr ⟨i, List.mem_range.mpr hi, hbi⟩
  obtain ⟨pre, post, hsplit⟩ := List.append_of_mem hmem
  have hlen := word_length b
  rw [hsplit] at hlen ⊢
  simp only [List.length_append, List.length_cons] at hlen
  have hans : ∀ g : Hb, (collector pw).answer g 0x46 = none := by
    intro g
    change hbWindow g 0x46 = none
    simp [hbWindow]
  have hnext : ∀ g : Hb, (collector pw).next g 0x46 = { g with n := 0 } := hbTake_resync pw
  have ht1 := collector_short pw pre { h with n := 0 } 0 (le_refl _) (le_refl _) (by omega)
  have ht2 := collector_short pw post
    { (collector pw).run { h with n := 0 } pre with n := 0 } 0 (le_refl _) (le_refl _) (by omega)
  rw [Machine.trace_cons, hans, hnext, Machine.trace_append, ht1, Machine.trace_cons, hans,
    hnext, ht2]
  rfl

theorem burstMeaning_of_resync (b : ℕ → Byte) (hb : ∃ i < 15, b i = 0x46) :
    burstMeaning b pw = .other := by
  obtain ⟨i, hi, hbi⟩ := hb
  have ramp : ¬Spells b hsRampBurst := by
    intro h
    exact (hsRampBurst_payload i hi).2 ((h i hi).symm.trans hbi)
  have burst : ∀ other, ¬Spells b (burstOf other) := by
    intro other h
    exact (hsBurstTab_payload i hi _ (passNibble_lt other _)).2 ((h i hi).symm.trans hbi)
  have ident : ∀ other, ¬Spells b (identBurst other) := by
    intro other h
    have hs := (h i hi).symm.trans hbi
    rw [identBurst] at hs
    split at hs
    · exact absurd hs (by decide)
    · exact (hsBurstTab_payload i hi _ (passNibble_lt other _)).2 hs
  rw [burstMeaning, if_neg (not_or.mpr ⟨ramp, ident pw⟩), if_neg (burst pw), if_neg]
  rintro ⟨other, -, h⟩
  exact h.elim (burst other) (ident other)

theorem device_hb (part : Part) (gate : part.hdProbe = true ∧ part.hbGate = true) (dev : Pp)
    (ops : List Op) :
    ((device part).run dev ops).hb = (wire part.hbPw).run dev.hb (ops.filterMap written) := by
  induction ops generalizing dev with
  | nil => rfl
  | cons op ops ih =>
    rw [Machine.run_cons, ih]
    cases op with
    | data val =>
      have hstep : ((device part).next dev (.data val)).hb = hbData part.hbPw dev.hb val := by
        change (ppWriteData part dev val).hb = _
        rw [(ppWriteData_hasp part dev val gate.1).1]
        exact if_pos gate.2
      rw [hstep]
      rfl
    | ctrl val => rfl
    | strobe old val => rfl
    | latch val => rfl
    | status =>
      have hstep : ((device part).next dev .status).hb = dev.hb := (ppReadStatus_rest part dev).2.1
      rw [hstep]
      rfl

/-- A burst is classified for what it means, and fifteen bytes clocked after a 46 are
    judged as they stand, once, unless one of them is itself a 46. -/
theorem burst_judged (part : Part) (gate : part.hdProbe = true ∧ part.hbGate = true) (dev : Pp)
    (ops : List Op) (b : ℕ → Byte) (hops : Clocks (0x46 :: word b) (ops.filterMap written)) :
    (∀ w, hsBurstClass w part.hbPw = burstMeaning w part.hbPw) ∧
      ((∀ i < 15, b i ≠ 0x46) →
        (wire part.hbPw).trace dev.hb (ops.filterMap written) = [word b]) ∧
      ((∃ i < 15, b i = 0x46) → hsBurstClass b part.hbPw = .other ∧
        (wire part.hbPw).trace dev.hb (ops.filterMap written) = []) ∧
      ((device part).run dev ops).hb.mode =
        if hsBurstClass b part.hbPw = .other then dev.hb.mode
        else hsBurstClass b part.hbPw := by
  have meaning := fun w => hsBurstClass_eq_meaning w part.hbPw
  have htrace := (wire_clocks part.hbPw hops dev.hb).1
  have hmode : ((device part).run dev ops).hb.mode =
      ((collector part.hbPw).trace dev.hb (0x46 :: word b)).foldl (hbJudge part.hbPw)
        dev.hb.mode := by
    rw [device_hb part gate, wire_mode, htrace]
  refine ⟨meaning, ?_, ?_, ?_⟩
  · intro hb
    rw [htrace, collector_judges part.hbPw b hb]
  · intro hb
    refine ⟨(meaning b).trans (burstMeaning_of_resync part.hbPw b hb), ?_⟩
    rw [htrace, collector_restarts part.hbPw b hb]
  · by_cases hb : ∃ i < 15, b i = 0x46
    · rw [hmode, collector_restarts part.hbPw b hb, meaning b,
        burstMeaning_of_resync part.hbPw b hb]
      rfl
    · have hne : ∀ i < 15, b i ≠ 0x46 := fun i hi h46 => hb ⟨i, hi, h46⟩
      have hspell : Spells (fun i => (word b).getD i 0) b := by
        intro i hi
        simp [word, hi]
      rw [hmode, collector_judges part.hbPw b hne]
      change (if hsBurstClass (fun i => (word b).getD i 0) part.hbPw = .other then _ else _) = _
      rw [hsBurstClass_congr hspell]

/-- An I.G.O. 2 part straight after power-up takes the zero password's burst for what it is. -/
theorem burst_judged_ramp :
    ((device (initPart (detected "Version 2002 (AT)"))).run (ppInit (detected "Version 2002 (AT)"))
      ((clockOut (0x46 :: word hsRampBurst)).map Op.data)).hb.mode = .ident := by
  have hops : ∀ ws : List Byte, (ws.map Op.data).filterMap written = ws := by
    intro ws
    rw [List.filterMap_map]
    exact List.filterMap_some
  have hclock := clocks_clockOut (0x46 :: word hsRampBurst) (by decide)
  rw [← hops (clockOut (0x46 :: word hsRampBurst))] at hclock
  have h := burst_judged (initPart (detected "Version 2002 (AT)")) (by decide +kernel)
    (ppInit (detected "Version 2002 (AT)")) _ hsRampBurst hclock
  rw [h.2.2.2]
  decide +kernel

/-- The ramp burst with DATA bit 7 raised under its first byte. -/
def markedRamp (i : ℕ) : Byte := if i = 0 then 0x8A else hsRampBurst i

/-- The collector drops bit 7, so this burst of even bytes is no known word and still
    turns a part to its identity table. -/
theorem marked_burst_taken :
    (∀ i < 15, (markedRamp i).getLsbD 0 = false) ∧
      hsBurstClass markedRamp (initPart (detected "Version 2002 (AT)")).hbPw = .other ∧
      (ppInit (detected "Version 2002 (AT)")).hb.mode = .sweep ∧
      ((device (initPart (detected "Version 2002 (AT)"))).run
        (ppInit (detected "Version 2002 (AT)"))
        ((clockOut (0x46 :: word markedRamp)).map Op.data)).hb.mode = .ident := by
  decide +kernel

end PeepeeBox.BurstClocking
