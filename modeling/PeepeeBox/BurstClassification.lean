import PeepeeBox.BurstCollector
import PeepeeBox.DongleDevice
import PeepeeBox.LookupWords
import PeepeeBox.TraceMachine

set_option autoImplicit false

/-!
# What a password burst means

`hs_burst_class` intersects, nibble by nibble, the values a burst leaves possible.
-/
namespace PeepeeBox.BurstClassification
open BurstCollector DongleDevice LookupWords TraceMachine

def burstOf (pw : BitVec 32) (i : ℕ) : Byte := hsBurstTab i (passNibble pw (hsBurstNib i))

def identBurst (pw : BitVec 32) (i : ℕ) : Byte := if i = hsBurstMode then 0x50 else burstOf pw i

def Spells (b c : ℕ → Byte) : Prop := ∀ i < 15, b i = c i

instance (b c : ℕ → Byte) : Decidable (Spells b c) := by
  unfold Spells
  infer_instance

open Classical in
/-- What a burst says to a part holding `pw`. -/
noncomputable def burstMeaning (b : ℕ → Byte) (pw : BitVec 32) : BurstClass :=
  if Spells b hsRampBurst ∨ Spells b (identBurst pw) then .ident
  else if Spells b (burstOf pw) then .sweep
  else if ∃ other ≠ pw, Spells b (burstOf other) ∨ Spells b (identBurst other) then .foreign
  else .other

theorem passNibble_toNat (pw : BitVec 32) (n : ℕ) :
    passNibble pw n = pw.toNat / 16 ^ n % 16 := by
  have h16 : (16 : ℕ) ^ n = 2 ^ (4 * n) := by rw [Nat.pow_mul]
  rw [passNibble, BitVec.toNat_and, BitVec.toNat_ushiftRight, Nat.shiftRight_eq_div_pow, h16]
  exact Nat.and_two_pow_sub_one_eq_mod _ 4

theorem passNibble_lt (pw : BitVec 32) (n : ℕ) : passNibble pw n < 16 := by
  rw [passNibble_toNat]
  exact Nat.mod_lt _ (by omega)

theorem exists_password (x : ℕ → ℕ) (hx : ∀ n, x n < 16) :
    ∃ pw, ∀ n < 8, passNibble pw n = x n := by
  obtain ⟨N, hN, hd⟩ := exists_packed 16 x hx 8
  refine ⟨BitVec.ofNat 32 N, fun n hn => ?_⟩
  have hlt : N < 2 ^ 32 := hN
  rw [passNibble_toNat, BitVec.toNat_ofNat, Nat.mod_eq_of_lt hlt]
  exact hd n hn

theorem hsBurstNib_lt (i : ℕ) (hi : i < 15) : hsBurstNib i < 8 := by
  revert i
  decide

theorem hsBurstTab_payload : ∀ i < 15, ∀ v < 16,
    hbPayload (hsBurstTab i v) = hsBurstTab i v ∧ hsBurstTab i v ≠ 0x46 := by
  decide +kernel

theorem hsRampBurst_payload : ∀ i < 15,
    hbPayload (hsRampBurst i) = hsRampBurst i ∧ hsRampBurst i ≠ 0x46 := by
  decide +kernel

theorem mode_symbol_free : ∀ v < 16, hsBurstTab hsBurstMode v ≠ 0x50 := by
  decide +kernel

theorem burstOf_mode_ne (pw : BitVec 32) : burstOf pw hsBurstMode ≠ 0x50 :=
  mode_symbol_free _ (passNibble_lt pw _)

def Judged (b : ℕ → Byte) (i : ℕ) : Prop := ¬(i = hsBurstMode ∧ b i = 0x50)

instance (b : ℕ → Byte) (i : ℕ) : Decidable (Judged b i) := by
  unfold Judged
  infer_instance

theorem scanByte_skip (b : ℕ → Byte) (pw : BitVec 32) (s : BurstScan) (i : ℕ)
    (h : ¬Judged b i) : scanByte b pw s i = { s with ident := true } := by
  have hm : i = hsBurstMode ∧ b i = 0x50 := not_not.mp h
  have hw := burstOf_mode_ne pw
  have hc : i = hsBurstMode ∧ b i = 0x50 ∧ hsBurstTab i (passNibble pw (hsBurstNib i)) ≠ 0x50 := by
    refine ⟨hm.1, hm.2, ?_⟩
    rw [hm.1]
    exact hw
  rw [scanByte, if_pos hc]

theorem scanByte_judged (b : ℕ → Byte) (pw : BitVec 32) (s : BurstScan) (i : ℕ)
    (h : Judged b i) :
    scanByte b pw s i =
      { s with
        own := s.own && b i == burstOf pw i
        cand := Function.update s.cand (hsBurstNib i)
          (s.cand (hsBurstNib i) &&& burstFits i (b i)) } := by
  have hc : ¬(i = hsBurstMode ∧ b i = 0x50 ∧
      hsBurstTab i (passNibble pw (hsBurstNib i)) ≠ 0x50) := by
    rintro ⟨hi, hb, -⟩
    exact h ⟨hi, hb⟩
  rw [scanByte, if_neg hc]
  rfl

theorem fits_loop (i : ℕ) (x : Byte) (n v : ℕ) (hv : v < 16) :
    ((List.range n).foldl
      (fun fits u => if hsBurstTab i u = x then fits ||| 1#16 <<< u else fits) 0).getLsbD v =
      (decide (v < n) && decide (hsBurstTab i v = x)) := by
  induction n with
  | zero => simp
  | succ n ih =>
    rw [List.range_succ, List.foldl_append, List.foldl_cons, List.foldl_nil]
    have hbit : (1#16 <<< n).getLsbD v = decide (v = n) := by
      rw [BitVec.getLsbD_shiftLeft, BitVec.getLsbD_one]
      by_cases hvn : v = n
      · subst hvn
        simp [hv]
      · have hd : decide (v = n) = false := decide_eq_false hvn
        by_cases hlt : v < n
        · simp [hlt, hd]
        · have hpos : ¬(v - n = 0) := by omega
          simp [hpos, hd]
    split
    · rename_i hx
      rw [BitVec.getLsbD_or, ih, hbit]
      by_cases hvn : v = n
      · subst hvn
        simp [hx]
      · have hlt : v < n + 1 ↔ v < n := by omega
        simp [hvn, hlt]
    · rename_i hx
      rw [ih]
      by_cases hvn : v = n
      · subst hvn
        simp [hx]
      · have hlt : v < n + 1 ↔ v < n := by omega
        simp [hlt]

theorem burstFits_getLsbD (i : ℕ) (x : Byte) (v : ℕ) (hv : v < 16) :
    (burstFits i x).getLsbD v = decide (hsBurstTab i v = x) := by
  rw [burstFits, fits_loop i x 16 v hv]
  simp [hv]

def burstLookup : Lookup ℕ ℕ (Fin 16) Byte where
  digit := hsBurstNib
  tab := fun i v => hsBurstTab i v

/-- The positions below `n` that count. -/
def judgedBelow (b : ℕ → Byte) (n : ℕ) : Set ℕ := { i | i < n ∧ Judged b i }

theorem judgedBelow_succ (b : ℕ → Byte) (n i : ℕ) :
    i ∈ judgedBelow b (n + 1) ↔ i ∈ judgedBelow b n ∨ i = n ∧ Judged b n := by
  change (i < n + 1 ∧ Judged b i) ↔ (i < n ∧ Judged b i) ∨ i = n ∧ Judged b n
  constructor
  · rintro ⟨hi, hj⟩
    rcases Nat.lt_succ_iff_lt_or_eq.mp hi with hi | hi
    · exact .inl ⟨hi, hj⟩
    · subst hi
      exact .inr ⟨rfl, hj⟩
  · rintro (⟨hi, hj⟩ | ⟨hi, hj⟩)
    · exact ⟨by omega, hj⟩
    · subst hi
      exact ⟨by omega, hj⟩

/-- What the loop knows after `n` bytes. -/
structure ScanInv (b : ℕ → Byte) (pw : BitVec 32) (n : ℕ) (s : BurstScan) : Prop where
  own : s.own = true ↔ ∀ i ∈ judgedBelow b n, b i = burstOf pw i
  ident : s.ident = true ↔ ∃ i < n, ¬Judged b i
  cand : ∀ k (v : Fin 16),
    (s.cand k).getLsbD v = true ↔ burstLookup.Candidate (judgedBelow b n) b k v

theorem scanStart_inv (b : ℕ → Byte) (pw : BitVec 32) : ScanInv b pw 0 scanStart := by
  have empty : ∀ i, i ∉ judgedBelow b 0 := fun i hi => Nat.not_lt_zero i hi.1
  refine ⟨?_, ?_, ?_⟩
  · exact ⟨fun _ i hi => absurd hi (empty i), fun _ => rfl⟩
  · constructor
    · intro h
      cases h
    · rintro ⟨i, hi, -⟩
      omega
  · intro k v
    constructor
    · intro _ i hi
      exact absurd hi (empty i)
    · intro _
      have full : ∀ u : Fin 16, (0xFFFF : BitVec 16).getLsbD u = true := by decide
      exact full v

theorem scanByte_inv (b : ℕ → Byte) (pw : BitVec 32) (n : ℕ) (s : BurstScan)
    (h : ScanInv b pw n s) : ScanInv b pw (n + 1) (scanByte b pw s n) := by
  by_cases hj : Judged b n
  · rw [scanByte_judged b pw s n hj]
    refine ⟨?_, ?_, ?_⟩
    · change (s.own && b n == burstOf pw n) = true ↔ _
      rw [Bool.and_eq_true, beq_iff_eq, h.own]
      constructor
      · rintro ⟨ho, hn⟩ i hi
        rcases (judgedBelow_succ b n i).mp hi with hi | ⟨hi, -⟩
        · exact ho i hi
        · subst hi
          exact hn
      · intro ho
        exact ⟨fun i hi => ho i ((judgedBelow_succ b n i).mpr (.inl hi)),
          ho n ((judgedBelow_succ b n n).mpr (.inr ⟨rfl, hj⟩))⟩
    · rw [h.ident]
      constructor
      · rintro ⟨i, hi, hs⟩
        exact ⟨i, by omega, hs⟩
      · rintro ⟨i, hi, hs⟩
        have hne : i ≠ n := by
          rintro rfl
          exact hs hj
        exact ⟨i, by omega, hs⟩
    · intro k v
      have hstep : burstLookup.Candidate (judgedBelow b (n + 1)) b k v ↔
          burstLookup.Candidate (judgedBelow b n) b k v ∧
            (hsBurstNib n = k → hsBurstTab n v = b n) := by
        constructor
        · intro hc
          exact ⟨fun i hi => hc i ((judgedBelow_succ b n i).mpr (.inl hi)),
            hc n ((judgedBelow_succ b n n).mpr (.inr ⟨rfl, hj⟩))⟩
        · rintro ⟨hc, hn⟩ i hi
          rcases (judgedBelow_succ b n i).mp hi with hi | ⟨hi, -⟩
          · exact hc i hi
          · subst hi
            exact hn
      rw [hstep, ← h.cand k v]
      change (Function.update s.cand (hsBurstNib n)
        (s.cand (hsBurstNib n) &&& burstFits n (b n)) k).getLsbD v = true ↔ _
      by_cases hk : k = hsBurstNib n
      · subst hk
        rw [Function.update_self, BitVec.getLsbD_and, burstFits_getLsbD _ _ _ v.isLt]
        simp
      · rw [Function.update_of_ne hk]
        have hk' : hsBurstNib n ≠ k := fun e => hk e.symm
        simp [hk']
  · rw [scanByte_skip b pw s n hj]
    have hsame : ∀ i, i ∈ judgedBelow b (n + 1) ↔ i ∈ judgedBelow b n := by
      intro i
      rw [judgedBelow_succ]
      simp [hj]
    refine ⟨?_, ?_, ?_⟩
    · rw [h.own]
      exact forall_congr' fun i => imp_congr_left (hsame i).symm
    · exact ⟨fun _ => ⟨n, by omega, hj⟩, fun _ => rfl⟩
    · intro k v
      rw [h.cand k v]
      exact forall_congr' fun i => imp_congr_left (hsame i).symm

theorem scanBurst_inv (b : ℕ → Byte) (pw : BitVec 32) (n : ℕ) :
    ScanInv b pw n (scanBurst b pw n) := by
  induction n with
  | zero => exact scanStart_inv b pw
  | succ n ih =>
    rw [scanBurst, List.range_succ, List.foldl_append]
    exact scanByte_inv b pw n _ ih

theorem judged_agree_iff (b : ℕ → Byte) (pw : BitVec 32) :
    (∀ i ∈ judgedBelow b 15, b i = burstOf pw i) ↔
      Spells b (burstOf pw) ∨ Spells b (identBurst pw) := by
  constructor
  · intro h
    by_cases hm : b hsBurstMode = 0x50
    · right
      intro i hi
      rw [identBurst]
      split
      · rename_i hmode
        rw [hmode]
        exact hm
      · rename_i hmode
        exact h i ⟨hi, fun hs => hmode hs.1⟩
    · left
      intro i hi
      refine h i ⟨hi, ?_⟩
      rintro ⟨hmode, hb⟩
      rw [hmode] at hb
      exact hm hb
  · rintro (h | h) i ⟨hi, hj⟩
    · exact h i hi
    · have hb := h i hi
      rw [identBurst] at hb
      split at hb
      · rename_i hmode
        exact absurd ⟨hmode, hb⟩ hj
      · exact hb

theorem identBurst_mode (pw : BitVec 32) : identBurst pw hsBurstMode = 0x50 := by
  rw [identBurst, if_pos rfl]

theorem unjudged_iff (b : ℕ → Byte) : (∃ i < 15, ¬Judged b i) ↔ b hsBurstMode = 0x50 := by
  constructor
  · rintro ⟨i, -, hs⟩
    obtain ⟨hi, hb⟩ := not_not.mp hs
    rw [hi] at hb
    exact hb
  · intro hb
    exact ⟨hsBurstMode, by decide, not_not.mpr ⟨rfl, hb⟩⟩

theorem exists_password_iff (b : ℕ → Byte) (pw : BitVec 32) :
    (∃ other, ∀ i ∈ judgedBelow b 15, b i = burstOf other i) ↔
      ∀ n < 8, (scanBurst b pw 15).cand n ≠ 0 := by
  have inv := scanBurst_inv b pw 15
  constructor
  · rintro ⟨other, h⟩ n hn hzero
    have hc : burstLookup.Candidate (judgedBelow b 15) b n
        ⟨passNibble other n, passNibble_lt other n⟩ := by
      intro i hi hk
      change hsBurstTab i (passNibble other n) = b i
      rw [h i hi]
      change hsBurstNib i = n at hk
      rw [burstOf, hk]
    have hbit := (inv.cand n _).mpr hc
    rw [hzero] at hbit
    simp at hbit
  · intro h
    have some_digit : ∀ n, ∃ v, burstLookup.Candidate (judgedBelow b 15) b n v := by
      intro n
      by_cases hn : n < 8
      · by_contra none
        refine h n hn (BitVec.eq_of_getLsbD_eq fun v hv => ?_)
        have hv' : ¬((scanBurst b pw 15).cand n).getLsbD (⟨v, hv⟩ : Fin 16) = true :=
          fun hb => none ⟨⟨v, hv⟩, (inv.cand n ⟨v, hv⟩).mp hb⟩
        simpa using hv'
      · refine ⟨0, fun i hi hk => ?_⟩
        change hsBurstNib i = n at hk
        have := hsBurstNib_lt i hi.1
        omega
    obtain ⟨x, hx⟩ := (burstLookup.exists_spell_iff _ _).mpr some_digit
    obtain ⟨other, hother⟩ := exists_password (fun n => x n) (fun n => (x n).isLt)
    refine ⟨other, fun i hi => ?_⟩
    rw [burstOf, hother _ (hsBurstNib_lt i hi.1)]
    exact (hx i hi).symm

theorem spells_ramp_iff (b : ℕ → Byte) :
    ((List.range 15).all fun i => b i == hsRampBurst i) = true ↔ Spells b hsRampBurst := by
  simp [Spells]

theorem hsBurstClass_eq_meaning (b : ℕ → Byte) (pw : BitVec 32) :
    hsBurstClass b pw = burstMeaning b pw := by
  have inv := scanBurst_inv b pw 15
  have hown := inv.own.trans (judged_agree_iff b pw)
  have hident := inv.ident.trans (unjudged_iff b)
  rw [hsBurstClass, burstMeaning]
  by_cases hr : Spells b hsRampBurst
  · rw [if_pos ((spells_ramp_iff b).mpr hr), if_pos (.inl hr)]
  rw [if_neg (fun h => hr ((spells_ramp_iff b).mp h))]
  by_cases hi : Spells b (identBurst pw)
  · have h50 : b hsBurstMode = 0x50 := (hi hsBurstMode (by decide)).trans (identBurst_mode pw)
    rw [if_pos (hown.mpr (.inr hi)), if_pos (hident.mpr h50), if_pos (.inr hi)]
  by_cases hs : Spells b (burstOf pw)
  · have h50 : ¬b hsBurstMode = 0x50 := by
      rw [hs hsBurstMode (by decide)]
      exact burstOf_mode_ne pw
    rw [if_pos (hown.mpr (.inl hs)), if_neg (fun h => h50 (hident.mp h)),
      if_neg (not_or.mpr ⟨hr, hi⟩), if_pos hs]
  rw [if_neg (fun h => (hown.mp h).elim hs hi), if_neg (not_or.mpr ⟨hr, hi⟩), if_neg hs]
  have hexists : (∃ other ≠ pw, Spells b (burstOf other) ∨ Spells b (identBurst other)) ↔
      ∀ n < 8, (scanBurst b pw 15).cand n ≠ 0 := by
    rw [← exists_password_iff b pw]
    constructor
    · rintro ⟨other, -, h⟩
      exact ⟨other, (judged_agree_iff b other).mpr h⟩
    · rintro ⟨other, h⟩
      have h' := (judged_agree_iff b other).mp h
      refine ⟨other, ?_, h'⟩
      rintro rfl
      exact h'.elim hs hi
  have hany : ((List.range 8).any fun n => (scanBurst b pw 15).cand n == 0) = true ↔
      ¬∀ n < 8, (scanBurst b pw 15).cand n ≠ 0 := by
    simp
  by_cases ho : ∃ other ≠ pw, Spells b (burstOf other) ∨ Spells b (identBurst other)
  · rw [if_neg (fun h => hany.mp h (hexists.mp ho)), if_pos ho]
  · rw [if_pos (hany.mpr fun h => ho (hexists.mpr h)), if_neg ho]

theorem hsBurstClass_congr {b c : ℕ → Byte} (h : Spells b c) (pw : BitVec 32) :
    hsBurstClass b pw = hsBurstClass c pw := by
  have hs : ∀ d : ℕ → Byte, Spells b d ↔ Spells c d := by
    intro d
    exact ⟨fun hb i hi => (h i hi).symm.trans (hb i hi), fun hc i hi => (h i hi).trans (hc i hi)⟩
  rw [hsBurstClass_eq_meaning, hsBurstClass_eq_meaning, burstMeaning, burstMeaning]
  simp only [hs]

end PeepeeBox.BurstClassification
