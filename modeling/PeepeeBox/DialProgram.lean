import Mathlib.Data.List.Basic
import Mathlib.Logic.Function.Iterate
import PeepeeBox.CharModem

set_option autoImplicit false

/-!
# The dial program

`modem_sound.c`: what the speaker plays of a number, beside the time the modem is told it takes.
-/
namespace PeepeeBox.DialProgram
open CharModem

inductive Kind where
  | toneDial
  | dtmf
  | pulse
  | silence
deriving DecidableEq

/-- A step; the table has its length in samples. -/
structure Step where
  kind : Kind
  digit : Byte
  ms : BitVec 32
deriving DecidableEq

def maxSteps : ℕ := 256

def msToSamples (rate ms : BitVec 32) : BitVec 32 := ((ms.setWidth 64 * rate.signExtend 64) / 1000).setWidth 32

def Step.samples (rate : BitVec 32) (s : Step) : BitVec 32 := msToSamples rate s.ms

def add (steps : List Step) (s : Step) : List Step := if steps.length < maxSteps then steps ++ [s] else steps

def pulses (c : Byte) : ℕ := if c = ch '0' then 10 else (c - ch '0').toNat

def buildChar (s8 : BitVec 32) (steps : List Step) (pulse : Bool) (c : Byte) : List Step × Bool :=
  if c = ch 'T' ∨ c = ch 't' then (steps, false)
  else if c = ch 'P' ∨ c = ch 'p' then (steps, true)
  else if c = ch ',' then (add steps ⟨.toneDial, 0, s8 * 1000⟩, pulse)
  else if c = ch 'W' ∨ c = ch 'w' then (add steps ⟨.toneDial, 0, 1500⟩, pulse)
  else if isdigit c then
    if pulse then
      (add ((fun steps => add (add steps ⟨.pulse, 1, 60⟩) ⟨.silence, 0, 40⟩)^[pulses c] steps) ⟨.silence, 0, 700⟩,
        pulse)
    else (add (add steps ⟨.dtmf, c, 90⟩) ⟨.silence, 0, 90⟩, pulse)
  else if pulse = false ∧ (c = ch '*' ∨ c = ch '#' ∨ (ch 'A' ≤ c ∧ c ≤ ch 'D')) then
    (add (add steps ⟨.dtmf, c, 90⟩) ⟨.silence, 0, 90⟩, pulse)
  else (steps, pulse)

def buildDial (number : List Byte) (s8 : BitVec 32) (pulse : Bool) : List Step :=
  add (number.foldl (fun acc c => buildChar s8 acc.1 acc.2 c) (add [] ⟨.toneDial, 0, 800⟩, pulse)).1
    ⟨.silence, 0, 600⟩

def lengths (steps : List Step) : ℕ := (steps.map fun s => s.ms.toNat).sum

def modeAfter (pulse : Bool) (c : Byte) : Bool :=
  if c = ch 'T' ∨ c = ch 't' then false else if c = ch 'P' ∨ c = ch 'p' then true else pulse

def beats (n : ℕ) : List Step := (List.replicate n [⟨.pulse, 1, 60⟩, ⟨.silence, 0, 40⟩]).flatten

def charSteps (s8 : BitVec 32) (pulse : Bool) (c : Byte) : List Step :=
  if c = ch 'T' ∨ c = ch 't' then []
  else if c = ch 'P' ∨ c = ch 'p' then []
  else if c = ch ',' then [⟨.toneDial, 0, s8 * 1000⟩]
  else if c = ch 'W' ∨ c = ch 'w' then [⟨.toneDial, 0, 1500⟩]
  else if isdigit c then
    if pulse then beats (pulses c) ++ [⟨.silence, 0, 700⟩]
    else [⟨.dtmf, c, 90⟩, ⟨.silence, 0, 90⟩]
  else if pulse = false ∧ (c = ch '*' ∨ c = ch '#' ∨ (ch 'A' ≤ c ∧ c ≤ ch 'D')) then
    [⟨.dtmf, c, 90⟩, ⟨.silence, 0, 90⟩]
  else []

def spelled (s8 : BitVec 32) : Bool → List Byte → List Step × Bool
  | pulse, [] => ([], pulse)
  | pulse, c :: cs =>
    (charSteps s8 pulse c ++ (spelled s8 (modeAfter pulse c) cs).1, (spelled s8 (modeAfter pulse c) cs).2)

def program (s8 : BitVec 32) (pulse : Bool) (number : List Byte) : List Step :=
  ⟨.toneDial, 0, 800⟩ :: ((spelled s8 pulse number).1 ++ [⟨.silence, 0, 600⟩])

theorem spelled_append (s8 : BitVec 32) (pulse : Bool) (as bs : List Byte) :
    spelled s8 pulse (as ++ bs) =
      ((spelled s8 pulse as).1 ++ (spelled s8 (spelled s8 pulse as).2 bs).1, (spelled s8 (spelled s8 pulse as).2 bs).2) := by
  induction as generalizing pulse with
  | nil => rfl
  | cons c cs ih =>
    simp only [List.cons_append, spelled]
    rw [ih, List.append_assoc]

theorem add_take (steps : List Step) (s : Step) : add (steps.take maxSteps) s = (steps ++ [s]).take maxSteps := by
  unfold add
  by_cases hroom : steps.length < maxSteps
  · have hall : steps.take maxSteps = steps := List.take_of_length_le (Nat.le_of_lt hroom)
    rw [hall, if_pos hroom]
    rw [List.take_of_length_le]
    rw [List.length_append, List.length_singleton]
    exact hroom
  · have hfull : maxSteps ≤ steps.length := Nat.not_lt.mp hroom
    rw [List.length_take, Nat.min_eq_left hfull, if_neg (Nat.lt_irrefl _), List.take_append_of_le_length hfull]

theorem beats_take (steps : List Step) (n : ℕ) :
    (fun steps => add (add steps ⟨.pulse, 1, 60⟩) ⟨.silence, 0, 40⟩)^[n] (steps.take maxSteps) =
      (steps ++ beats n).take maxSteps := by
  induction n generalizing steps with
  | zero => simp [beats]
  | succ n ih =>
    rw [Function.iterate_succ_apply, add_take, add_take, ih]
    simp [beats, List.replicate_succ]

theorem buildChar_take (s8 : BitVec 32) (steps : List Step) (pulse : Bool) (c : Byte) :
    buildChar s8 (steps.take maxSteps) pulse c = ((steps ++ charSteps s8 pulse c).take maxSteps, modeAfter pulse c) := by
  unfold buildChar charSteps modeAfter
  split_ifs <;> simp only [add_take, beats_take, List.append_nil, List.append_assoc, List.singleton_append]

theorem foldl_build (s8 : BitVec 32) (number : List Byte) (steps : List Step) (pulse : Bool) :
    number.foldl (fun acc c => buildChar s8 acc.1 acc.2 c) (steps.take maxSteps, pulse) =
      ((steps ++ (spelled s8 pulse number).1).take maxSteps, (spelled s8 pulse number).2) := by
  induction number generalizing steps pulse with
  | nil => simp [spelled]
  | cons c cs ih =>
    rw [List.foldl_cons, buildChar_take, ih]
    simp [spelled]

theorem buildDial_eq (number : List Byte) (s8 : BitVec 32) (pulse : Bool) :
    buildDial number s8 pulse = (program s8 pulse number).take maxSteps := by
  unfold buildDial program
  have hfirst : add [] ⟨.toneDial, 0, 800⟩ = [(⟨.toneDial, 0, 800⟩ : Step)].take maxSteps := rfl
  rw [hfirst, foldl_build, add_take]
  rfl

@[simp] theorem lengths_nil : lengths [] = 0 := rfl

theorem lengths_cons (s : Step) (steps : List Step) : lengths (s :: steps) = s.ms.toNat + lengths steps := by
  simp [lengths]

theorem lengths_append (as bs : List Step) : lengths (as ++ bs) = lengths as + lengths bs := by
  simp [lengths]

theorem lengths_beats (n : ℕ) : lengths (beats n) = n * 100 := by
  induction n with
  | zero => rfl
  | succ n ih =>
    have hsplit : beats (n + 1) = [⟨.pulse, 1, 60⟩, ⟨.silence, 0, 40⟩] ++ beats n := by
      simp [beats, List.replicate_succ]
    rw [hsplit, lengths_append, ih]
    simp [lengths]
    omega

theorem pulses_ms (c : Byte) (h : isdigit c = true) :
    BitVec.ofNat 32 (pulses c * 100 + 700) =
      (if c = ch '0' then 10 else c.setWidth 32 - 0x30) * (40 + 60) + 700 := by
  revert c
  decide +kernel

theorem ofNat_single (s : Step) : BitVec.ofNat 32 (lengths [s]) = s.ms := by
  simp [lengths]

theorem ofNat_tone (c : Byte) : BitVec.ofNat 32 (lengths [⟨.dtmf, c, 90#32⟩, ⟨.silence, 0#8, 90#32⟩]) = 180#32 := by
  simp [lengths]

theorem soundDialChar_eq (s8 : Byte) (ms : BitVec 32) (pulse : Bool) (c : Byte) :
    soundDialChar s8 ms pulse c =
      (ms + BitVec.ofNat 32 (lengths (charSteps (s8.setWidth 32) pulse c)), modeAfter pulse c) := by
  have hpulses (h : isdigit c = true) : BitVec.ofNat 32 (lengths (beats (pulses c) ++ [⟨.silence, 0, 700⟩])) =
      (if c = ch '0' then 10 else c.setWidth 32 - 0x30) * (40 + 60) + 700 := by
    rw [lengths_append, lengths_beats]
    exact pulses_ms c h
  unfold soundDialChar charSteps modeAfter
  split_ifs <;> simp_all [ofNat_single, ofNat_tone]

def total (number : List Byte) (s8 : Byte) (pulse : Bool) : ℕ := lengths (program (s8.setWidth 32) pulse number)

theorem foldl_sound (s8 : Byte) (number : List Byte) (ms : BitVec 32) (pulse : Bool) :
    (number.foldl (fun acc c => soundDialChar s8 acc.1 acc.2 c) (ms, pulse)).1 =
      ms + BitVec.ofNat 32 (lengths (spelled (s8.setWidth 32) pulse number).1) := by
  induction number generalizing ms pulse with
  | nil => exact (BitVec.add_zero ms).symm
  | cons c cs ih =>
    rw [List.foldl_cons, soundDialChar_eq, ih]
    simp only [spelled]
    rw [lengths_append, BitVec.ofNat_add, BitVec.add_assoc]

theorem modemSoundDialMs_eq (number : List Byte) (s8 : Byte) (pulse : Bool) :
    modemSoundDialMs number s8 pulse = BitVec.ofNat 32 (total number s8 pulse) := by
  unfold modemSoundDialMs total program
  rw [foldl_sound, lengths_cons, lengths_append, BitVec.ofNat_add, BitVec.ofNat_add, BitVec.add_assoc]
  rfl

structure Ev where
  arg : BitVec 32
  number : List Byte

/-- The copy has room for 63 characters. -/
def modemSoundEvent (number : List Byte) (arg : BitVec 32) : Ev := { arg, number := number.take 63 }

def dialArg (s8 : Byte) (pulse : Bool) : BitVec 32 := s8.setWidth 32 &&& 0xFF ||| (if pulse then 1 else 0) <<< 8

/-- `take_events`, for `MODEM_SOUND_DIAL`. -/
def takeDial (e : Ev) : List Step := buildDial e.number (e.arg &&& 0xFF) (decide (e.arg.sshiftRight 8 &&& 1 ≠ 0))

def dialed (number : List Byte) (s8 : Byte) (pulse : Bool) : List Step :=
  takeDial (modemSoundEvent number (dialArg s8 pulse))

theorem dialed_eq (number : List Byte) (s8 : Byte) (pulse : Bool) :
    dialed number s8 pulse = (program (s8.setWidth 32) pulse (number.take 63)).take maxSteps := by
  have hs8 : ∀ (s8 : Byte) (pulse : Bool), dialArg s8 pulse &&& 0xFF = s8.setWidth 32 ∧
      decide ((dialArg s8 pulse).sshiftRight 8 &&& 1 ≠ 0) = pulse := by
    decide +kernel
  unfold dialed takeDial modemSoundEvent
  dsimp only
  rw [(hs8 s8 pulse).1, (hs8 s8 pulse).2, buildDial_eq]

/-- The program of the characters copied has a place in the table, and those left out take no time. -/
def Fits (number : List Byte) (s8 : Byte) (pulse : Bool) : Prop :=
  (program (s8.setWidth 32) pulse (number.take 63)).length ≤ maxSteps ∧
  lengths (spelled (s8.setWidth 32) (spelled (s8.setWidth 32) pulse (number.take 63)).2 (number.drop 63)).1 = 0

def lost (number : List Byte) (s8 : Byte) (pulse : Bool) : ℕ :=
  total number s8 pulse - lengths (dialed number s8 pulse)

theorem pulses_le (c : Byte) (h : isdigit c = true) : pulses c ≤ 10 := by
  revert c
  decide +kernel

theorem beats_length (n : ℕ) : (beats n).length = 2 * n := by
  simp [beats, Nat.mul_comm]

theorem charSteps_bounds (s8 : Byte) (pulse : Bool) (c : Byte) :
    (charSteps (s8.setWidth 32) pulse c).length ≤ 21 ∧
      ∀ s ∈ charSteps (s8.setWidth 32) pulse c, s.ms.toNat ≤ 255000 := by
  have hwait : ((s8.setWidth 32 : BitVec 32) * 1000).toNat ≤ 255000 := by
    have hs8 := s8.isLt
    rw [BitVec.toNat_mul, BitVec.toNat_setWidth]
    change s8.toNat % 2 ^ 32 * 1000 % 2 ^ 32 ≤ 255000
    rw [Nat.mod_eq_of_lt (by omega : s8.toNat < 2 ^ 32)]
    exact Nat.le_trans (Nat.mod_le _ _) (by omega)
  have htone : [(⟨.dtmf, c, 90⟩ : Step), ⟨.silence, 0, 90⟩].length ≤ 21 ∧
      ∀ s ∈ [(⟨.dtmf, c, 90⟩ : Step), ⟨.silence, 0, 90⟩], s.ms.toNat ≤ 255000 := by
    simp
  unfold charSteps
  split_ifs with hT hP hcomma hW hdigit hpulse hsign
  · exact ⟨Nat.zero_le _, fun s hs => absurd hs List.not_mem_nil⟩
  · exact ⟨Nat.zero_le _, fun s hs => absurd hs List.not_mem_nil⟩
  · exact ⟨Nat.le_add_left 1 20, fun s hs => by rw [List.mem_singleton.mp hs]; exact hwait⟩
  · exact ⟨Nat.le_add_left 1 20, fun s hs => by rw [List.mem_singleton.mp hs]; decide⟩
  · refine ⟨?_, fun s hs => ?_⟩
    · rw [List.length_append, beats_length]
      have hle := pulses_le c hdigit
      simp only [List.length_singleton]
      omega
    · rcases List.mem_append.mp hs with hbeat | hgap
      · obtain ⟨pair, hpair, hs⟩ := List.mem_flatten.mp hbeat
        rw [List.eq_of_mem_replicate hpair] at hs
        simp only [List.mem_cons, List.not_mem_nil, or_false] at hs
        rcases hs with rfl | rfl
        · decide
        · decide
      · rw [List.mem_singleton.mp hgap]
        decide
  · exact htone
  · exact htone
  · exact ⟨Nat.zero_le _, fun s hs => absurd hs List.not_mem_nil⟩

theorem spelled_bounds (s8 : Byte) (pulse : Bool) (number : List Byte) :
    (spelled (s8.setWidth 32) pulse number).1.length ≤ 21 * number.length ∧
      ∀ s ∈ (spelled (s8.setWidth 32) pulse number).1, s.ms.toNat ≤ 255000 := by
  induction number generalizing pulse with
  | nil => exact ⟨Nat.zero_le _, fun s hs => absurd hs List.not_mem_nil⟩
  | cons c cs ih =>
    obtain ⟨hlength, hms⟩ := charSteps_bounds s8 pulse c
    obtain ⟨hlengths, hrest⟩ := ih (modeAfter pulse c)
    simp only [spelled]
    refine ⟨?_, fun s hs => ?_⟩
    · rw [List.length_append, List.length_cons]
      omega
    · rcases List.mem_append.mp hs with hs | hs
      · exact hms s hs
      · exact hrest s hs

theorem program_bounds (s8 : Byte) (pulse : Bool) (number : List Byte) :
    (program (s8.setWidth 32) pulse number).length ≤ 21 * number.length + 2 ∧
      ∀ s ∈ program (s8.setWidth 32) pulse number, s.ms.toNat ≤ 255000 := by
  obtain ⟨hlength, hms⟩ := spelled_bounds s8 pulse number
  unfold program
  refine ⟨?_, fun s hs => ?_⟩
  · rw [List.length_cons, List.length_append, List.length_singleton]
    omega
  · rcases List.mem_cons.mp hs with rfl | hs
    · decide
    · rcases List.mem_append.mp hs with hs | hs
      · exact hms s hs
      · rw [List.mem_singleton.mp hs]
        decide

theorem lengths_le {steps : List Step} {bound : ℕ} (h : ∀ s ∈ steps, s.ms.toNat ≤ bound) :
    lengths steps ≤ steps.length * bound := by
  induction steps with
  | nil => exact Nat.zero_le _
  | cons s steps ih =>
    have hfirst := h s List.mem_cons_self
    have hrest := ih fun t ht => h t (List.mem_cons_of_mem _ ht)
    rw [lengths_cons, List.length_cons, Nat.add_mul, Nat.one_mul]
    omega

theorem lengths_take_le (steps : List Step) (n : ℕ) : lengths (steps.take n) ≤ lengths steps := by
  have hsplit := lengths_append (steps.take n) (steps.drop n)
  rw [List.take_append_drop] at hsplit
  omega

theorem dialed_short (number : List Byte) (s8 : Byte) (pulse : Bool) :
    lengths (dialed number s8 pulse) < 2 ^ 32 := by
  have hms : ∀ s ∈ dialed number s8 pulse, s.ms.toNat ≤ 255000 := by
    rw [dialed_eq]
    exact fun s hs => (program_bounds s8 pulse _).2 s (List.mem_of_mem_take hs)
  have hlength : (dialed number s8 pulse).length ≤ 256 := by
    rw [dialed_eq]
    exact List.length_take_le _ _
  have hle := lengths_le hms
  omega

theorem lost_iff (number : List Byte) (s8 : Byte) (pulse : Bool) :
    lengths (dialed number s8 pulse) ≤ total number s8 pulse ∧
      (lengths (dialed number s8 pulse) = total number s8 pulse ↔ Fits number s8 pulse) := by
  have htotal : total number s8 pulse = lengths (program (s8.setWidth 32) pulse (number.take 63)) +
      lengths (spelled (s8.setWidth 32) (spelled (s8.setWidth 32) pulse (number.take 63)).2 (number.drop 63)).1 := by
    unfold total program
    conv => lhs; rw [← List.take_append_drop 63 number, spelled_append]
    simp only [lengths_cons, lengths_append]
    omega
  unfold Fits
  rw [htotal, dialed_eq]
  generalize hrest : lengths (spelled _ _ (number.drop 63)).1 = rest
  have hle := lengths_take_le (program (s8.setWidth 32) pulse (number.take 63)) maxSteps
  refine ⟨by omega, ?_⟩
  by_cases hroom : (program (s8.setWidth 32) pulse (number.take 63)).length ≤ maxSteps
  · rw [List.take_of_length_le hroom]
    simp [hroom]
  · have hcut : lengths ((program (s8.setWidth 32) pulse (number.take 63)).take maxSteps) + 600 ≤
        lengths (program (s8.setWidth 32) pulse (number.take 63)) := by
      unfold program at hroom ⊢
      rw [← List.cons_append] at hroom ⊢
      rw [List.length_append, List.length_singleton] at hroom
      rw [List.take_append_of_le_length (by omega), lengths_append]
      exact Nat.add_le_add_right (lengths_take_le _ _) 600
    simp only [hroom, false_and, iff_false]
    omega

/-- The time the modem is told is that of the program played just when the number fits, the milliseconds
lost a multiple of 2³² apart; the numbers of the modem, 63 characters long at most, are far from that. -/
theorem dial_times_agree (number : List Byte) (s8 : Byte) (pulse : Bool) :
    (lengths (dialed number s8 pulse) = (modemSoundDialMs number s8 pulse).toNat ↔
      Fits number s8 pulse ∨ 2 ^ 32 ≤ total number s8 pulse ∧ 2 ^ 32 ∣ lost number s8 pulse) ∧
    (number.length ≤ 63 → total number s8 pulse < 2 ^ 32) := by
  obtain ⟨hle, hfits⟩ := lost_iff number s8 pulse
  have hshort := dialed_short number s8 pulse
  rw [modemSoundDialMs_eq, BitVec.toNat_ofNat]
  refine ⟨?_, fun hnumber => ?_⟩
  · by_cases hsmall : total number s8 pulse < 2 ^ 32
    · have hfar : ¬ (2 ^ 32 ≤ total number s8 pulse ∧ 2 ^ 32 ∣ lost number s8 pulse) :=
        fun h => Nat.not_le.mpr hsmall h.1
      rw [Nat.mod_eq_of_lt hsmall, hfits, or_iff_left hfar]
    · have hnot : ¬ Fits number s8 pulse := by
        rw [← hfits]
        omega
      simp only [hnot, false_or]
      unfold lost
      constructor
      · intro heq
        exact ⟨Nat.not_lt.mp hsmall, by omega⟩
      · rintro ⟨-, k, hk⟩
        omega
  · obtain ⟨hlength, hms⟩ := program_bounds s8 pulse number
    have hbound := lengths_le hms
    unfold total
    have hmul := Nat.mul_le_mul_right 255000 hlength
    omega

/-- Thirteen pulses of ten make more steps than there is room for. -/
theorem pulses_cut_short :
    lengths (dialed (List.replicate 13 (ch '0')) 7 true) ≠
      (modemSoundDialMs (List.replicate 13 (ch '0')) 7 true).toNat := by
  decide +kernel

end PeepeeBox.DialProgram
