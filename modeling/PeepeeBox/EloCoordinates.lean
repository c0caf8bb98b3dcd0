import PeepeeBox.EloCommands
import PeepeeBox.Interpolation

set_option autoImplicit false

/-!
# What a coordinate goes out as

`elo_transform` as two interpolations one after the other: what its 32-bit steps can hold, where its results lie,
and how they follow the reading.
-/
namespace PeepeeBox.EloCoordinates
open Elo Interpolation TraceMachine

/-- What a host can set: two words, or an offset and what is added to it. -/
structure Settable (cal scale : Points) : Prop where
  calLo : ∀ axis, -32768 ≤ cal.lo axis ∧ cal.lo axis ≤ 65535
  calSpan : ∀ axis, |cal.hi axis - cal.lo axis| ≤ 65535
  scaleLo : ∀ axis, |scale.lo axis| ≤ 32768
  scaleHi : ∀ axis, |scale.hi axis| ≤ 65536
  scaleSpan : ∀ axis, |scale.hi axis - scale.lo axis| ≤ 65535

/-- What an `int32_t` holds. -/
def Fits32 (v : ℤ) : Prop := -2 ^ 31 ≤ v ∧ v < 2 ^ 31

instance (v : ℤ) : Decidable (Fits32 v) := inferInstanceAs (Decidable (_ ∧ _))

theorem toInt32_of_fits {v : ℤ} (h : Fits32 v) : toInt32 v = v :=
  BitVec.toInt_ofInt_eq_self (by decide) h.1 h.2

theorem fits32_of_abs {v k : ℤ} (h : |v| ≤ k) (hk : k < 2 ^ 31) : Fits32 v := by
  rw [abs_le] at h
  unfold Fits32
  omega

/-- Calibration is on. -/
def calOn (dev : MouseElo) : Bool := has dev.setup.mode2 eloM2Cal

def scaleOn (dev : MouseElo) : Bool := has dev.setup.mode2 eloM2Scale

def checked (dev : MouseElo) : Bool := has dev.setup.mode1 eloM1Rangechk

def trimmed (dev : MouseElo) : Bool := has dev.setup.mode2 eloM2Trim && checked dev

def inverted (dev : MouseElo) (axis : Fin 2) : Bool := has dev.setup.invertMask (1 <<< axis.val)

def calibrated (dev : MouseElo) (axis : Fin 2) (raw : ℤ) : ℤ × Bool :=
  if calOn dev then
    let lo := dev.cal.lo axis
    let hi := dev.cal.hi axis
    let mid := if hi ≠ lo then toInt32 (((raw - lo) * eloRawMax).tdiv (hi - lo)) else 0
    if mid < 0 ∨ eloRawMax < mid then (if trimmed dev then min (max mid 0) eloRawMax else mid, checked dev)
    else (mid, false)
  else (raw, false)

/-- What the 32-bit steps of `elo_transform` come to, a quotient before it is cast. -/
def steps (dev : MouseElo) (axis : Fin 2) (raw : ℤ) : List ℤ :=
  (if calOn dev then
      let lo := dev.cal.lo axis
      let hi := dev.cal.hi axis
      [raw - lo, hi - lo, ((raw - lo) * eloRawMax).tdiv (hi - lo)]
    else []) ++
    if scaleOn dev then
      let lo := dev.scale.lo axis
      let hi := dev.scale.hi axis
      let part := ((calibrated dev axis raw).1 * (hi - lo)).tdiv eloRawMax
      let out := lo + toInt32 part
      [hi - lo, part, out] ++ if inverted dev axis then [lo + hi, lo + hi - out] else []
    else []

/-- No step overflows. -/
def Contained (dev : MouseElo) (axis : Fin 2) (raw : ℤ) : Prop := ∀ v ∈ steps dev axis raw, Fits32 v

instance (dev : MouseElo) (axis : Fin 2) (raw : ℤ) : Decidable (Contained dev axis raw) :=
  inferInstanceAs (Decidable (∀ v ∈ _, Fits32 v))

/-- The reading is between the points of Calibration, or is brought there, or goes without. -/
def Kept (dev : MouseElo) (axis : Fin 2) (raw : ℤ) : Prop :=
  calOn dev = true → trimmed dev = true ∨ raw ∈ Set.uIcc (dev.cal.lo axis) (dev.cal.hi axis)

/-- What the points of Calibration go to. -/
def ends (dev : MouseElo) (axis : Fin 2) : ℤ × ℤ :=
  if scaleOn dev then
    if inverted dev axis then (dev.scale.hi axis, dev.scale.lo axis) else (dev.scale.lo axis, dev.scale.hi axis)
  else (0, eloRawMax)

section
variable {dev : MouseElo} {axis : Fin 2} {raw : ℤ}

theorem eloTransform_eq (dev : MouseElo) (axis : Fin 2) (raw : ℤ) :
    eloTransform dev axis raw =
      if scaleOn dev then
        let lo := dev.scale.lo axis
        let hi := dev.scale.hi axis
        let out := lo + toInt32 (((calibrated dev axis raw).1 * (hi - lo)).tdiv eloRawMax)
        (if inverted dev axis then lo + hi - out else out, (calibrated dev axis raw).2)
      else calibrated dev axis raw := rfl

def clamp (v : ℤ) : ℤ := min (max v 0) eloRawMax

theorem clamp_mono : Monotone clamp := fun _ _ h => min_le_min_right _ (max_le_max_right _ h)

theorem clamp_mem (v : ℤ) : clamp v ∈ Set.uIcc 0 eloRawMax := by
  rw [Set.uIcc_of_le (by decide), Set.mem_Icc]
  exact ⟨le_min (le_max_right _ _) (by decide), min_le_right _ _⟩

theorem clamp_of_mem {v : ℤ} (h : v ∈ Set.uIcc 0 eloRawMax) : clamp v = v := by
  rw [Set.uIcc_of_le (by decide), Set.mem_Icc] at h
  rw [clamp, max_eq_left h.1, min_eq_left h.2]

def middle (dev : MouseElo) (axis : Fin 2) (raw : ℤ) : ℤ :=
  if calOn dev then
    let mid := interp (dev.cal.lo axis) (dev.cal.hi axis) eloRawMax raw
    if trimmed dev then clamp mid else mid
  else raw

/-- What goes out, no step overflowing. -/
def outcome (dev : MouseElo) (axis : Fin 2) (raw : ℤ) : ℤ :=
  (ends dev axis).1 + interp 0 eloRawMax ((ends dev axis).2 - (ends dev axis).1) (middle dev axis raw)

theorem middle_mem (hcal : dev.cal.lo axis ≠ dev.cal.hi axis) (hraw : raw ∈ Set.uIcc 0 eloRawMax)
    (h : Kept dev axis raw) : middle dev axis raw ∈ Set.uIcc 0 eloRawMax := by
  unfold middle
  split
  · rename_i hon
    rcases h hon with htrim | hmem
    · simp only [htrim, if_true]
      exact clamp_mem _
    · split
      · exact clamp_mem _
      · exact interp_mem hcal hmem
  · exact hraw

theorem middle_monotone_or_antitone (hcal : dev.cal.lo axis ≠ dev.cal.hi axis) :
    Monotone (middle dev axis) ∨ Antitone (middle dev axis) := by
  unfold middle
  cases calOn dev with
  | false => exact .inl monotone_id
  | true =>
    cases trimmed dev with
    | false => exact interp_monotone_or_antitone hcal eloRawMax
    | true => exact (interp_monotone_or_antitone hcal eloRawMax).imp clamp_mono.comp clamp_mono.comp_antitone

theorem outcome_monotone_or_antitone (hcal : dev.cal.lo axis ≠ dev.cal.hi axis) :
    Monotone (outcome dev axis) ∨ Antitone (outcome dev axis) := by
  have hscale := interp_monotone_or_antitone (a := 0) (b := eloRawMax) (by decide)
    ((ends dev axis).2 - (ends dev axis).1)
  rcases middle_monotone_or_antitone hcal with hmid | hmid <;> rcases hscale with hline | hline
  · exact .inl ((hline.comp hmid).const_add _)
  · exact .inr ((hline.comp_monotone hmid).const_add _)
  · exact .inr ((hline.comp_antitone hmid).const_add _)
  · exact .inl ((hline.comp hmid).const_add _)

theorem outcome_mem (h : middle dev axis raw ∈ Set.uIcc 0 eloRawMax) :
    outcome dev axis raw ∈ Set.uIcc (ends dev axis).1 (ends dev axis).2 := by
  have hmem := interp_mem (m := (ends dev axis).2 - (ends dev axis).1) (by decide : (0 : ℤ) ≠ eloRawMax) h
  unfold outcome
  rw [Set.mem_uIcc] at hmem ⊢
  omega

theorem middle_lo (hon : calOn dev = true) : middle dev axis (dev.cal.lo axis) = 0 := by
  unfold middle
  rw [if_pos hon, interp_left]
  dsimp only
  split <;> rfl

theorem middle_hi (hon : calOn dev = true) (hcal : dev.cal.lo axis ≠ dev.cal.hi axis) :
    middle dev axis (dev.cal.hi axis) = eloRawMax := by
  unfold middle
  rw [if_pos hon, interp_right hcal]
  dsimp only
  split <;> rfl

theorem outcome_lo (hon : calOn dev = true) : outcome dev axis (dev.cal.lo axis) = (ends dev axis).1 := by
  rw [outcome, middle_lo hon, interp_left, add_zero]

theorem outcome_hi (hon : calOn dev = true) (hcal : dev.cal.lo axis ≠ dev.cal.hi axis) :
    outcome dev axis (dev.cal.hi axis) = (ends dev axis).2 := by
  rw [outcome, middle_hi hon hcal, interp_right (by decide), add_sub_cancel]

theorem calibrated_fst (hcal : dev.cal.lo axis ≠ dev.cal.hi axis)
    (hfits : calOn dev = true → Fits32 (interp (dev.cal.lo axis) (dev.cal.hi axis) eloRawMax raw)) :
    (calibrated dev axis raw).1 = middle dev axis raw := by
  unfold calibrated middle
  cases hon : calOn dev with
  | false => rfl
  | true =>
    simp only [if_true, ne_eq, hcal.symm, not_false_eq_true]
    rw [← interp, toInt32_of_fits (hfits hon)]
    cases htrim : trimmed dev with
    | false =>
      simp only [Bool.false_eq_true, if_false]
      split <;> rfl
    | true =>
      simp only [if_true]
      split
      · rfl
      · rename_i hin
        rw [not_or, not_lt, not_lt] at hin
        refine (clamp_of_mem ?_).symm
        rw [Set.uIcc_of_le (by decide)]
        exact hin

theorem calibrated_snd (hcal : dev.cal.lo axis ≠ dev.cal.hi axis)
    (hfits : calOn dev = true → Fits32 (interp (dev.cal.lo axis) (dev.cal.hi axis) eloRawMax raw)) :
    (calibrated dev axis raw).2 = true ↔
      calOn dev = true ∧ checked dev = true ∧
        |dev.cal.hi axis - dev.cal.lo axis| ≤ eloRawMax * beyond (dev.cal.lo axis) (dev.cal.hi axis) raw := by
  unfold calibrated
  cases hon : calOn dev with
  | false => simp
  | true =>
    simp only [if_true, ne_eq, hcal.symm, not_false_eq_true]
    rw [← interp, toInt32_of_fits (hfits hon), ← interp_outside hcal (by decide)]
    split
    · rename_i hout
      simp [hout]
    · rename_i hin
      simp [hin]

theorem transform_snd (dev : MouseElo) (axis : Fin 2) (raw : ℤ) :
    (eloTransform dev axis raw).2 = (calibrated dev axis raw).2 := by
  rw [eloTransform_eq]
  split <;> rfl

theorem Contained.cal (h : Contained dev axis raw) (hon : calOn dev = true) :
    Fits32 (interp (dev.cal.lo axis) (dev.cal.hi axis) eloRawMax raw) := by
  refine h _ ?_
  unfold steps
  rw [if_pos hon]
  simp [interp]

theorem Contained.scale (h : Contained dev axis raw) (hon : scaleOn dev = true) :
    Fits32 (((calibrated dev axis raw).1 * (dev.scale.hi axis - dev.scale.lo axis)).tdiv eloRawMax) := by
  refine h _ ?_
  unfold steps
  rw [if_pos hon]
  simp

theorem transform_contained (hcal : dev.cal.lo axis ≠ dev.cal.hi axis) (h : Contained dev axis raw) :
    (eloTransform dev axis raw).1 = outcome dev axis raw := by
  have hmid := calibrated_fst hcal h.cal
  have hscale := h.scale
  rw [hmid] at hscale
  have hpart (span : ℤ) :
      (middle dev axis raw * span).tdiv eloRawMax = interp 0 eloRawMax span (middle dev axis raw) := by
    rw [interp, sub_zero, sub_zero]
  rw [eloTransform_eq, outcome, ends]
  cases hon : scaleOn dev with
  | false =>
    simp only [Bool.false_eq_true, if_false]
    rw [hmid, zero_add, sub_zero, ← hpart, Int.mul_tdiv_cancel _ (by decide)]
  | true =>
    simp only [if_true]
    rw [hmid, toInt32_of_fits (hscale hon), hpart]
    cases hinv : inverted dev axis with
    | false => simp
    | true =>
      simp only [if_true]
      rw [← neg_sub (dev.scale.hi axis), interp_neg_height]
      ring

theorem reading_span (h : Settable dev.cal dev.scale) (hraw : raw ∈ Set.uIcc 0 eloRawMax) :
    |raw - dev.cal.lo axis| ≤ 65535 := by
  have hlo := h.calLo axis
  rw [Set.uIcc_of_le (by decide), Set.mem_Icc, eloRawMax] at hraw
  rw [abs_le]
  omega

theorem interp_reading {lo hi n k : ℤ} (hspan : |raw - lo| ≤ 65535) (hne : lo ≠ hi) (hn : n ≤ |hi - lo|)
    (hk : 65535 * eloRawMax < (k + 1) * n) (hpos : 0 ≤ k) : |interp lo hi eloRawMax raw| ≤ k := by
  refine abs_interp_le hne ?_
  calc |raw - lo| * |eloRawMax| ≤ 65535 * eloRawMax := mul_le_mul_of_nonneg_right hspan (by decide)
    _ < (k + 1) * n := hk
    _ ≤ (k + 1) * |hi - lo| := mul_le_mul_of_nonneg_left hn (by omega)

theorem interp_fits {lo hi : ℤ} (hspan : |raw - lo| ≤ 65535) (hne : lo ≠ hi) :
    Fits32 (interp lo hi eloRawMax raw) := by
  have hone : 1 ≤ |hi - lo| := Int.one_le_abs (sub_ne_zero.mpr hne.symm)
  exact fits32_of_abs (interp_reading (k := 268365825) hspan hne hone (by decide) (by decide)) (by decide)

def greatest : ℤ := 134182912

theorem middle_le (h : Settable dev.cal dev.scale) (hcal : dev.cal.lo axis ≠ dev.cal.hi axis)
    (hraw : raw ∈ Set.uIcc 0 eloRawMax)
    (hkept : Kept dev axis raw ∨ 2 ≤ |dev.cal.hi axis - dev.cal.lo axis|) :
    |middle dev axis raw| ≤ greatest := by
  have hsmall {v : ℤ} (hv : v ∈ Set.uIcc 0 eloRawMax) : |v| ≤ greatest := by
    rw [Set.uIcc_of_le (by decide), Set.mem_Icc, eloRawMax] at hv
    rw [abs_le, greatest]
    omega
  rcases hkept with hkept | hwide
  · exact hsmall (middle_mem hcal hraw hkept)
  · unfold middle
    split
    · dsimp only
      split
      · exact hsmall (clamp_mem _)
      · exact interp_reading (reading_span h hraw) hcal hwide (by decide) (by decide)
    · exact hsmall hraw

theorem contained_of_middle (h : Settable dev.cal dev.scale) (hcal : dev.cal.lo axis ≠ dev.cal.hi axis)
    (hspan : |raw - dev.cal.lo axis| ≤ 65535) (hmid : |middle dev axis raw| ≤ greatest) : Contained dev axis raw := by
  have hfits := interp_fits hspan hcal
  have hcalibrated := calibrated_fst hcal fun _ => hfits
  have hpart : |(middle dev axis raw * (dev.scale.hi axis - dev.scale.lo axis)).tdiv eloRawMax| ≤ 2147418104 := by
    have hline : |interp 0 eloRawMax (dev.scale.hi axis - dev.scale.lo axis) (middle dev axis raw)| ≤ 2147418104 := by
      refine abs_interp_le (by decide) ?_
      rw [sub_zero]
      calc |middle dev axis raw| * |dev.scale.hi axis - dev.scale.lo axis|
          ≤ greatest * 65535 := mul_le_mul hmid (h.scaleSpan axis) (abs_nonneg _) (by decide)
        _ < (2147418104 + 1) * |eloRawMax - 0| := by decide
    rw [interp, sub_zero, sub_zero] at hline
    exact hline
  have hlo := abs_le.mp (h.scaleLo axis)
  have hhi := abs_le.mp (h.scaleHi axis)
  have hcast := toInt32_of_fits (fits32_of_abs hpart (by decide))
  rw [abs_le] at hpart
  intro v hv
  unfold steps at hv
  rcases List.mem_append.mp hv with hv | hv
  · split at hv
    · simp only [List.mem_cons, List.not_mem_nil, or_false] at hv
      rcases hv with rfl | rfl | rfl
      · exact fits32_of_abs hspan (by decide)
      · exact fits32_of_abs (h.calSpan axis) (by decide)
      · exact hfits
    · cases hv
  · split at hv
    · dsimp only at hv
      rw [hcalibrated, hcast] at hv
      have hspan := abs_le.mp (h.scaleSpan axis)
      generalize (middle dev axis raw * (dev.scale.hi axis - dev.scale.lo axis)).tdiv eloRawMax = part at hv hpart
      unfold Fits32
      cases hinv : inverted dev axis with
      | false =>
        simp only [hinv, List.mem_append, List.mem_cons, List.not_mem_nil, or_false, Bool.false_eq_true, if_false]
          at hv
        rcases hv with rfl | rfl | rfl <;> omega
      | true =>
        simp only [hinv, List.mem_append, List.mem_cons, List.not_mem_nil, or_false, if_true] at hv
        rcases hv with (rfl | rfl | rfl) | rfl | rfl <;> omega
    · cases hv

theorem transform_point (h : Settable dev.cal dev.scale) (hcal : dev.cal.lo axis ≠ dev.cal.hi axis) {point : ℤ}
    (hspan : |point - dev.cal.lo axis| ≤ 65535) (hmid : middle dev axis point ∈ Set.uIcc 0 eloRawMax) :
    (eloTransform dev axis point).1 = outcome dev axis point := by
  refine transform_contained hcal (contained_of_middle h hcal hspan ?_)
  rw [Set.uIcc_of_le (by decide), Set.mem_Icc, eloRawMax] at hmid
  rw [abs_le, greatest]
  omega

end

/-- The steps hold as long as the points of Calibration are two apart or the reading is kept between them; what
is told to be outside is what is outside by enough to make a difference; what is kept goes out between the
scaling points, the points of Calibration exactly to them, and what goes out follows the reading. -/
theorem transform_follows {dev : MouseElo} {axis : Fin 2} (hset : Settable dev.cal dev.scale)
    (hcal : dev.cal.lo axis ≠ dev.cal.hi axis) :
    (∀ raw ∈ Set.uIcc 0 eloRawMax, Kept dev axis raw ∨ 2 ≤ |dev.cal.hi axis - dev.cal.lo axis| →
      Contained dev axis raw) ∧
    (∀ raw ∈ Set.uIcc 0 eloRawMax,
      (eloTransform dev axis raw).2 = true ↔
        calOn dev = true ∧ checked dev = true ∧
          |dev.cal.hi axis - dev.cal.lo axis| ≤ eloRawMax * beyond (dev.cal.lo axis) (dev.cal.hi axis) raw) ∧
    (|dev.cal.hi axis - dev.cal.lo axis| ≤ eloRawMax → ∀ raw ∈ Set.uIcc 0 eloRawMax,
      (eloTransform dev axis raw).2 = true ↔
        calOn dev = true ∧ checked dev = true ∧ raw ∉ Set.uIcc (dev.cal.lo axis) (dev.cal.hi axis)) ∧
    (∀ raw ∈ Set.uIcc 0 eloRawMax, Kept dev axis raw →
      (eloTransform dev axis raw).1 ∈ Set.uIcc (ends dev axis).1 (ends dev axis).2) ∧
    (calOn dev = true →
      (eloTransform dev axis (dev.cal.lo axis)).1 = (ends dev axis).1 ∧
        (eloTransform dev axis (dev.cal.hi axis)).1 = (ends dev axis).2) ∧
    (MonotoneOn (fun raw => (eloTransform dev axis raw).1) {raw | Contained dev axis raw} ∨
      AntitoneOn (fun raw => (eloTransform dev axis raw).1) {raw | Contained dev axis raw}) := by
  have hheld (raw : ℤ) (hraw : raw ∈ Set.uIcc 0 eloRawMax)
      (hkept : Kept dev axis raw ∨ 2 ≤ |dev.cal.hi axis - dev.cal.lo axis|) : Contained dev axis raw :=
    contained_of_middle hset hcal (reading_span hset hraw) (middle_le hset hcal hraw hkept)
  have htold (raw : ℤ) (hraw : raw ∈ Set.uIcc 0 eloRawMax) :=
    @calibrated_snd dev axis raw hcal fun _ => interp_fits (reading_span hset hraw) hcal
  refine ⟨hheld, fun raw hraw => ?_, fun hnear raw hraw => ?_, fun raw hraw hkept => ?_, fun hon => ⟨?_, ?_⟩, ?_⟩
  · rw [transform_snd]
    exact htold raw hraw
  · rw [transform_snd, htold raw hraw, ← beyond_pos_iff]
    have hwide : 0 < |dev.cal.hi axis - dev.cal.lo axis| := abs_pos.mpr (sub_ne_zero.mpr hcal.symm)
    rw [eloRawMax] at hnear ⊢
    refine and_congr_right fun _ => and_congr_right fun _ => ?_
    omega
  · rw [transform_contained hcal (hheld raw hraw (.inl hkept))]
    exact outcome_mem (middle_mem hcal hraw hkept)
  · rw [transform_point hset hcal (by simp) (by rw [middle_lo hon]; exact Set.left_mem_uIcc)]
    exact outcome_lo hon
  · rw [transform_point hset hcal (hset.calSpan axis) (by rw [middle_hi hon hcal]; exact Set.right_mem_uIcc)]
    exact outcome_hi hon hcal
  · refine (outcome_monotone_or_antitone hcal).imp (fun hup raw hraw raw' hraw' hle => ?_)
      fun hdown raw hraw raw' hraw' hle => ?_
    · dsimp only
      rw [transform_contained hcal hraw, transform_contained hcal hraw']
      exact hup hle
    · dsimp only
      rw [transform_contained hcal hraw, transform_contained hcal hraw']
      exact hdown hle

def screen (mode1 mode2 : Byte) (cal scale : ℤ × ℤ) : MouseElo :=
  { zeroed with
    setup := { zeroed.setup with mode1, mode2 }
    cal := { lo := fun _ => cal.1, hi := fun _ => cal.2 }
    scale := { lo := fun _ => scale.1, hi := fun _ => scale.2 } }

theorem screen_settable {mode1 mode2 : Byte} {cal scale : ℤ × ℤ}
    (hcal : (-32768 ≤ cal.1 ∧ cal.1 ≤ 65535) ∧ |cal.2 - cal.1| ≤ 65535)
    (hscale : |scale.1| ≤ 32768 ∧ |scale.2| ≤ 65536 ∧ |scale.2 - scale.1| ≤ 65535) :
    Settable (screen mode1 mode2 cal scale).cal (screen mode1 mode2 cal scale).scale where
  calLo _ := hcal.1
  calSpan _ := hcal.2
  scaleLo _ := hscale.1
  scaleHi _ := hscale.2.1
  scaleSpan _ := hscale.2.2

/-- A screen that is calibrated and scaled, its image reversed. -/
def reversed : MouseElo := screen eloM1Rangechk (eloM2Cal ||| eloM2Scale ||| eloM2Trim) (4000, 100) (-2000, 2000)

theorem transform_follows_reversed :
    (eloTransform reversed 0 4000).1 = -2000 ∧ (eloTransform reversed 0 100).1 = 2000 ∧
      ((eloTransform reversed 0 4095).2 = true ∧ (eloTransform reversed 0 4095).1 ∈ Set.uIcc (-2000) 2000) := by
  have hset : Settable reversed.cal reversed.scale := screen_settable (by decide) (by decide)
  have hall := @transform_follows reversed 0 hset (by decide)
  obtain ⟨-, -, hout, hbetween, hpoints, -⟩ := hall
  have hraw : (4095 : ℤ) ∈ Set.uIcc 0 eloRawMax := Set.right_mem_uIcc
  refine ⟨(hpoints rfl).1, (hpoints rfl).2, ?_, hbetween 4095 hraw fun _ => .inl rfl⟩
  refine (hout (by decide) 4095 hraw).mpr ⟨rfl, rfl, ?_⟩
  rw [Set.uIcc, Set.mem_Icc]
  decide

/-- Trim on, and no Range Checking. -/
def unchecked : MouseElo := screen 0 (eloM2Trim ||| eloM2Cal ||| eloM2Scale) (100, 200) (0, 1000)

/-- Calibrated to two points that are neighbours. -/
def neighbours : MouseElo := screen 0 (eloM2Cal ||| eloM2Scale) (65535, 65534) (-32768, 32767)

/-- Calibrated to points far apart. -/
def farApart : MouseElo := screen eloM1Rangechk eloM2Cal (1, 65535) (0, 1000)

/-- Trim without Range Checking keeps nothing; points that are neighbours overflow the scaling; and a reading
just outside points far apart is not told. -/
theorem trim_alone_keeps_nothing :
    (Settable unchecked.cal unchecked.scale ∧ has unchecked.setup.mode2 eloM2Trim = true ∧
      (eloTransform unchecked 0 0).1 ∉ Set.uIcc (unchecked.scale.lo 0) (unchecked.scale.hi 0)) ∧
    (Settable neighbours.cal neighbours.scale ∧ ¬ Contained neighbours 0 0) ∧
    (Settable farApart.cal farApart.scale ∧ checked farApart = true ∧
      (0 : ℤ) ∉ Set.uIcc (farApart.cal.lo 0) (farApart.cal.hi 0) ∧ (eloTransform farApart 0 0).2 = false) := by
  have hset {mode1 mode2 : Byte} {cal scale : ℤ × ℤ} := @screen_settable mode1 mode2 cal scale
  have hout : (eloTransform unchecked 0 0).1 = -1000 := by decide
  refine ⟨⟨hset (by decide) (by decide), rfl, ?_⟩, ⟨hset (by decide) (by decide), by decide⟩,
    ⟨hset (by decide) (by decide), rfl, ?_, by decide⟩⟩
  · rw [hout, Set.uIcc, Set.mem_Icc]
    decide
  · rw [Set.uIcc, Set.mem_Icc]
    decide

structure Marks where
  cal : Points
  scale : Points
  calPoints : ℕ → Fin 2 → ℤ
  rawX : ℤ
  rawY : ℤ

def marks (dev : MouseElo) : Marks where
  cal := dev.cal
  scale := dev.scale
  calPoints := dev.calPoints
  rawX := dev.rawX
  rawY := dev.rawY

def Reading (v : ℤ) : Prop := 0 ≤ v ∧ v ≤ eloRawMax

structure Handed (m : Marks) : Prop where
  points : Settable m.cal m.scale
  taken : ∀ n axis, Reading (m.calPoints n axis)
  rawX : Reading m.rawX
  rawY : Reading m.rawY

theorem marks_queued {dev dev' : MouseElo} (h : Queued dev dev') : marks dev' = marks dev := by
  obtain ⟨resp, rfl⟩ := h
  rfl

@[simp] theorem marks_eloAck (dev : MouseElo) (err : Byte) : marks (eloAck dev err) = marks dev :=
  marks_queued (eloAck_queued dev err)

@[simp] theorem marks_eloEnqueue (dev : MouseElo) (cmd : Byte) (data : List Byte) :
    marks (eloEnqueue dev cmd data) = marks dev := marks_queued (eloEnqueue_queued dev cmd data)

@[simp] theorem marks_eloSendTouch (dev : MouseElo) (status : Byte) (x y z : ℤ) :
    marks (eloSendTouch dev status x y z) = marks dev := marks_queued (eloSendTouch_queued dev status x y z)

theorem marks_finish (base : Byte) (query : Bool) (o : Outcome) : marks (finish base query o) = marks (left o) := by
  cases o with
  | returns dev => rfl
  | answers dev resp =>
    unfold finish left
    cases query <;> simp
  | acks dev => exact marks_eloAck dev 0

theorem Settable.mix {cal scale cal' scale' : Points} (h : Settable cal scale) (h' : Settable cal' scale') :
    Settable cal scale' where
  calLo := h.calLo
  calSpan := h.calSpan
  scaleLo := h'.scaleLo
  scaleHi := h'.scaleHi
  scaleSpan := h'.scaleSpan

theorem forall_update {P : ℤ → ℤ → Prop} {p : Points} {lo hi : ℤ} {axis : Fin 2} (h : ∀ a, P (p.lo a) (p.hi a))
    (hset : P lo hi) (a : Fin 2) : P ((setPoints p axis lo hi).lo a) ((setPoints p axis lo hi).hi a) := by
  by_cases ha : a = axis
  · subst ha
    simpa [setPoints] using hset
  · simpa [setPoints, Function.update_of_ne ha] using h a

theorem settable_setCal {cal scale : Points} (h : Settable cal scale) {lo hi : ℤ}
    (hlo : -32768 ≤ lo ∧ lo ≤ 65535) (hspan : |hi - lo| ≤ 65535) (axis : Fin 2) :
    Settable (setPoints cal axis lo hi) scale where
  calLo := forall_update (P := fun lo _ => -32768 ≤ lo ∧ lo ≤ 65535) h.calLo hlo
  calSpan := forall_update (P := fun lo hi => |hi - lo| ≤ 65535) h.calSpan hspan
  scaleLo := h.scaleLo
  scaleHi := h.scaleHi
  scaleSpan := h.scaleSpan

theorem settable_setScale {cal scale : Points} (h : Settable cal scale) {lo hi : ℤ} (hlo : |lo| ≤ 32768)
    (hhi : |hi| ≤ 65536) (hspan : |hi - lo| ≤ 65535) (axis : Fin 2) : Settable cal (setPoints scale axis lo hi) where
  calLo := h.calLo
  calSpan := h.calSpan
  scaleLo := forall_update (P := fun lo _ => |lo| ≤ 32768) h.scaleLo hlo
  scaleHi := forall_update (P := fun _ hi => |hi| ≤ 65536) h.scaleHi hhi
  scaleSpan := forall_update (P := fun lo hi => |hi - lo| ≤ 65535) h.scaleSpan hspan

theorem settable_calibration {dev : MouseElo} (h : Settable dev.cal dev.scale) (query : Bool) (data : List Byte) :
    Settable (left (calibration dev query data)).cal (left (calibration dev query data)).scale := by
  have hword (a b : Byte) : 0 ≤ ((word a b).toNat : ℤ) ∧ ((word a b).toNat : ℤ) ≤ 65535 := by
    have := (word a b).isLt
    omega
  have hshort (a b : Byte) : -32768 ≤ (word a b).toInt ∧ (word a b).toInt ≤ 32767 := by
    have := (word a b).toInt_lt
    have := (word a b).le_toInt
    omega
  unfold calibration
  dsimp only
  split_ifs
  all_goals cases query
  all_goals first | exact h | skip
  all_goals
    have hlow := hword (arg data 1) (arg data 2)
    have hhigh := hword (arg data 3) (arg data 4)
    have hoffset := hshort (arg data 1) (arg data 2)
    have hadded := hshort (arg data 5) (arg data 6)
    refine settable_setCal h ?_ (abs_le.mpr ?_) _
    all_goals omega

theorem settable_scaling {dev : MouseElo} (h : Settable dev.cal dev.scale) (query : Bool) (data : List Byte) :
    Settable (left (scaling dev query data)).cal (left (scaling dev query data)).scale := by
  have hshort (a b : Byte) : -32768 ≤ (word a b).toInt ∧ (word a b).toInt ≤ 32767 := by
    have := (word a b).toInt_lt
    have := (word a b).le_toInt
    omega
  unfold scaling
  dsimp only
  split_ifs
  all_goals cases query
  all_goals first | exact h | skip
  all_goals
    have hlow := hshort (arg data 1) (arg data 2)
    have hhigh := hshort (arg data 3) (arg data 4)
    refine settable_setScale h (abs_le.mpr ?_) (abs_le.mpr ?_) (abs_le.mpr ?_) _
    all_goals omega

theorem settable_bounds :
    Settable { lo := fun _ => 0, hi := fun _ => eloRawMax }
      { lo := fun _ => 0, hi := fun _ => eloRawMax } :=
  @screen_settable 0 0 (0, eloRawMax) (0, eloRawMax) (by decide) (by decide)

theorem handed_command {dev : MouseElo} (h : Handed (marks dev)) (cur : BitVec 16) (base : Byte) (query : Bool)
    (data : List Byte) : Handed (marks (left (command cur dev base query data))) := by
  have hsame {dev' : MouseElo} (hmarks : marks dev' = marks dev) : Handed (marks dev') := by
    rw [hmarks]
    exact h
  refine command_all (P := fun o => Handed (marks (left o))) ?acknowledge ?touch ?reset ?delays ?emulate ?calibration
    ?diagnostics ?filter ?configuration ?timer ?identity ?jumpers ?key ?lowPower ?mode ?owner ?parameter ?quiet
    ?scaling ?illegal base
  case acknowledge =>
    unfold acknowledge
    cases dev.calActive <;> exact hsame ((marks_eloEnqueue _ _ _).trans rfl)
  case touch =>
    unfold touch
    cases query <;> exact hsame (by simp [left])
  case reset =>
    unfold reset
    split <;> exact h
  case emulate =>
    have hpoints : Settable (marks dev).cal { lo := fun _ => elo280Lo, hi := fun _ => elo280Hi } :=
      h.points.mix (@screen_settable 0 0 (0, 0) (elo280Lo, elo280Hi)
        (by decide) (by decide))
    unfold emulate
    cases query
    · dsimp only
      split_ifs <;> first | exact h | exact { h with points := hpoints } | exact hsame (marks_eloAck _ _)
    · exact h
  case calibration =>
    have hpoints := settable_calibration h.points query data
    unfold calibration at hpoints ⊢
    dsimp only at hpoints ⊢
    split_ifs at hpoints ⊢ <;> exact { h with points := hpoints }
  case configuration =>
    unfold configuration
    cases query
    · exact hsame (marks_eloAck _ _)
    · exact hsame (marks_queued (eloDumpConfig_queued _))
  case mode =>
    unfold mode
    cases query
    · by_cases hbinary : arg data 0 = 0 <;> simp only [hbinary, Bool.false_eq_true, if_true, if_false] <;> exact h
    · exact h
  case scaling =>
    have hpoints := settable_scaling h.points query data
    unfold scaling at hpoints ⊢
    dsimp only at hpoints ⊢
    split_ifs at hpoints ⊢ <;> exact { h with points := hpoints }
  case illegal => exact hsame (marks_eloAck _ _)
  all_goals cases query <;> exact h

def Filed (f : NvrFile) : Prop := ∀ page page', Settable (f.cal page) (f.scale page')

structure Held (u : Controller) : Prop where
  dev : Handed (marks u.dev)
  file : ∀ f, u.nvr = some f → Filed f

theorem Held.frame {u : Controller} (h : Held u) {dev : MouseElo} (hmarks : marks dev = marks u.dev) :
    Held { u with dev := dev } where
  dev := by
    rw [hmarks]
    exact h.dev
  file := h.file

theorem filed_read {nvr : Option NvrFile} (h : ∀ f, nvr = some f → Filed f) : Filed (eloNvrReadFile nvr) := by
  have hblank : Filed blankFile := fun _ _ =>
    @screen_settable 0 0 (0, 0) (0, 0) (by decide) (by decide)
  cases nvr with
  | none => exact hblank
  | some f =>
    unfold eloNvrReadFile
    dsimp only
    split
    · exact hblank
    · exact h f rfl

theorem filed_save {u : Controller} (h : Held u) (areas : Byte) (page : Fin 2) :
    Filed (eloSaveNvrAreas u.dev u.nvr areas page) := by
  have hread := filed_read h.file
  have hcal (p p' : Fin 2) :
      Settable (Function.update (eloNvrReadFile u.nvr).cal page u.dev.cal p) ((eloNvrReadFile u.nvr).scale p') := by
    by_cases hp : p = page
    · subst hp
      rw [Function.update_self]
      exact h.dev.points.mix (hread p p')
    · rw [Function.update_of_ne hp]
      exact hread p p'
  have hscale (p p' : Fin 2) :
      Settable ((eloNvrReadFile u.nvr).cal p) (Function.update (eloNvrReadFile u.nvr).scale page u.dev.scale p') := by
    by_cases hp : p' = page
    · subst hp
      rw [Function.update_self]
      exact (hread p p').mix h.dev.points
    · rw [Function.update_of_ne hp]
      exact hread p p'
  unfold eloSaveNvrAreas
  cases has areas eloAreaSetup <;> cases has areas eloAreaCal <;> cases has areas eloAreaScale
  all_goals first | exact hread | exact hcal | exact hscale | exact fun p p' => (hcal p p').mix (hscale p p')

theorem handed_load {dev : MouseElo} (h : Handed (marks dev)) {nvr : Option NvrFile}
    (hfile : ∀ f, nvr = some f → Filed f) (areas : Byte) (page : Fin 2) :
    Handed (marks (eloLoadNvrAreas dev nvr areas page)) := by
  have hread := filed_read hfile page page
  unfold eloLoadNvrAreas
  dsimp only
  split
  · exact h
  · cases has areas eloAreaSetup <;> cases has areas eloAreaCal <;> cases has areas eloAreaScale
    all_goals
      first
      | exact h
      | exact { h with points := h.points.mix hread }
      | exact { h with points := hread.mix h.points }
      | exact { h with points := hread }

theorem held_process {u : Controller} (h : Held u) (cur : BitVec 16) (body : List Byte) :
    Held (eloProcessCommand cur u body) := by
  unfold eloProcessCommand
  dsimp only
  split
  · unfold nvram
    split_ifs
    · exact h.frame (marks_eloAck _ _)
    · exact h.frame (marks_eloAck _ _)
    · refine ⟨?_, fun f hf => ?_⟩
      · rw [marks_eloAck]
        exact h.dev
      · rw [← Option.some.inj hf]
        exact filed_save h _ _
    · refine ⟨?_, h.file⟩
      rw [marks_eloAck]
      exact handed_load h.dev h.file _ _
  · refine ⟨?_, h.file⟩
    rw [marks_finish]
    exact handed_command h.dev cur _ _ _

theorem held_write {u : Controller} (h : Held u) (cur : BitVec 16) (data : Byte) : Held (eloWrite cur u data) := by
  unfold eloWrite
  dsimp only
  split
  · split_ifs <;> first | exact h | exact h.frame rfl
  · split_ifs
    · exact h.frame rfl
    · exact h.frame rfl
    · exact h.frame (marks_eloAck _ _)
    · exact h.frame rfl
    · exact held_process (u := { u with dev := { u.dev with cmdPos := none } }) (h.frame rfl) cur _

theorem marks_holdUntouch (dev : MouseElo) : marks (holdUntouch dev) = marks dev := by
  unfold holdUntouch
  split_ifs <;> rfl

theorem settable_taken {lo hi : Fin 2 → ℤ} (hlo : ∀ axis, Reading (lo axis)) (hhi : ∀ axis, Reading (hi axis)) :
    Settable { lo, hi } { lo := fun _ => 0, hi := fun _ => eloRawMax } where
  calLo axis := by
    have hlow := hlo axis
    unfold Reading eloRawMax at hlow
    dsimp only
    omega
  calSpan axis := by
    have hlow := hlo axis
    have hhigh := hhi axis
    unfold Reading eloRawMax at hlow hhigh
    refine abs_le.mpr ?_
    dsimp only
    omega
  scaleLo := settable_bounds.scaleLo
  scaleHi := settable_bounds.scaleHi
  scaleSpan := settable_bounds.scaleSpan

theorem handed_calibrate {dev : MouseElo} (h : Handed (marks dev)) : Handed (marks (calibrate dev)) := by
  have htaken (n : ℕ) (axis : Fin 2) : Reading (Function.update dev.calPoints dev.calStep
      (fun axis => if axis = 0 then dev.rawX else dev.rawY) n axis) := by
    by_cases hn : n = dev.calStep
    · rw [hn, Function.update_self]
      exact iteInduction (fun _ => h.rawX) fun _ => h.rawY
    · rw [Function.update_of_ne hn]
      exact h.taken n axis
  unfold calibrate
  dsimp only
  generalize (Function.update dev.calPoints dev.calStep fun axis => if axis = 0 then dev.rawX else dev.rawY) = points
    at htaken ⊢
  split
  · split
    · obtain ⟨resp, hresp⟩ := eloAck_queued { dev with calPoints := points, calStep := dev.calStep + 1 } 0
      rw [hresp]
      split
      · exact ⟨(settable_taken (htaken 0) (htaken 1)).mix h.points, htaken, h.rawX, h.rawY⟩
      · exact ⟨h.points, htaken, h.rawX, h.rawY⟩
    · exact h
  · exact h

def OnScreen : Event → Prop
  | .poll _ x y => Reading x ∧ Reading y
  | _ => True

theorem handed_poll {dev : MouseElo} (h : Handed (marks dev)) (but : Bool) {x y : ℤ} (hx : Reading x)
    (hy : Reading y) : Handed (marks (eloPoll dev but x y)) := by
  unfold eloPoll
  dsimp only
  refine handed_calibrate ?_
  split
  · refine (marks_holdUntouch _ : _ = marks { dev with but, rawX := y, rawY := x }) ▸ ?_
    exact { h with rawX := hy, rawY := hx }
  · refine (marks_holdUntouch _ : _ = marks { dev with but, rawX := x, rawY := y }) ▸ ?_
    exact { h with rawX := hx, rawY := hy }

theorem marks_eloPrepareTransmit (dev : MouseElo) : marks (eloPrepareTransmit dev).1 = marks dev := by
  have hsettled (sent : MouseElo × Option Report) (h : marks sent.1 = marks dev) :
      marks
          { sent.1 with
            rawXOld := sent.1.rawX, rawYOld := sent.1.rawY, butOld := sent.1.but
            haveSent := if sent.1.but then sent.1.haveSent else false } =
        marks dev := h
  unfold eloPrepareTransmit
  split
  · rfl
  split
  · rfl
  refine hsettled _ ?_
  cases statusOf dev with
  | none => rfl
  | some what =>
    refine iteInduction (motive := fun sent : MouseElo × Option Report => marks sent.1 = marks dev) (fun _ => rfl)
      fun _ => ?_
    refine iteInduction (motive := fun dev' => marks dev' = marks dev) ?_ ?_
    · exact fun _ => marks_eloSendTouch dev _ _ _ _
    · exact fun _ => marks_eloSendTouch dev _ _ _ _

theorem marks_eloWriteToHost (dev : MouseElo) (free : Bool) : marks (eloWriteToHost dev free).1 = marks dev := by
  unfold eloWriteToHost
  split
  · rfl
  · split
    · rfl
    · exact marks_eloPrepareTransmit dev

theorem held_init (speed : ℤ) {nvr : Option NvrFile} (hfile : ∀ f, nvr = some f → Filed f) :
    Held (eloInit speed nvr) := by
  have hzero : Reading 0 := ⟨le_refl 0, by decide⟩
  have hload (dev : MouseElo) (h : Handed (marks (eloLoadDefaults dev))) : Handed (marks (eloLoadNvr dev nvr)) :=
    handed_load h hfile _ 0
  exact ⟨hload _ ⟨settable_bounds, fun _ _ => hzero, hzero, hzero⟩, hfile⟩

theorem held_step {u : Controller} (h : Held u) {e : Event} (hscreen : OnScreen e) : Held (elo.next u e) := by
  cases e with
  | write data cur => exact held_write h cur data
  | poll but x y => exact ⟨handed_poll h.dev but hscreen.1 hscreen.2, h.file⟩
  | tick free => exact h.frame (marks_eloWriteToHost u.dev free)
  | untouchDone =>
    change Held (if u.dev.untouchTimer then _ else u)
    split
    · exact h.frame rfl
    · exact h
  | repDelayDone =>
    change Held (if u.dev.repDelayTimer then _ else u)
    split
    · exact h.frame rfl
    · exact h
  | userTimerFire =>
    change Held (if u.dev.userTimer then _ else u)
    split
    · obtain ⟨resp, userTimer, timerEnable, heq, _⟩ := eloUserTimerFire_eq { u.dev with userTimer := false }
      refine h.frame ?_
      rw [heq]
      rfl
    · exact h
  | resetComplete =>
    change Held (if u.dev.resetTimer then _ else u)
    split
    · exact h.frame rfl
    · exact h
  | restart speed => exact held_init speed h.file

theorem settable_run (speed : ℤ) (es : List Event) (hscreen : ∀ e ∈ es, OnScreen e) :
    Settable (elo.run (eloInit speed none) es).dev.cal (elo.run (eloInit speed none) es).dev.scale := by
  have hrun (u : Controller) (hu : Held u) : Held (elo.run u es) := by
    induction es generalizing u with
    | nil => exact hu
    | cons e es ih =>
      have hnext := held_step hu (hscreen e List.mem_cons_self)
      exact ih (fun e he => hscreen e (List.mem_cons_of_mem _ he)) (elo.next u e) hnext
  have hnone (f : NvrFile) (hf : none = some f) : Filed f := nomatch hf
  exact (hrun _ (held_init speed hnone)).dev.points

theorem settable_touched :
    Settable (elo.run (eloInit 4 none) [.poll true 100 4000, .write 0x55 0, .restart 4]).dev.cal
      (elo.run (eloInit 4 none) [.poll true 100 4000, .write 0x55 0, .restart 4]).dev.scale :=
  settable_run 4 [.poll true 100 4000, .write 0x55 0, .restart 4] (by simp [OnScreen, Reading, eloRawMax])

end PeepeeBox.EloCoordinates
