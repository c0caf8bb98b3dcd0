import PeepeeBox.Cp80

set_option autoImplicit false

/-!
# The verdict on a record

What the bytes since the last XON must be for the printer to accept the record.
-/
namespace PeepeeBox.Cp80Record
open Cp80

def send (d : Printer) (bytes : List Byte) : Printer := bytes.foldl write d

/-- The 16-bit sum of the report and the EOT after it. -/
def checksum (body : List Byte) : ℕ := ((body.map BitVec.toNat).sum + 4) % 65536

def hexNumber (digits : List Byte) : Option ℕ := digits.foldlM (fun n b => (hexDigit b).map (16 * n + ·)) 0

/-- A command, its ETX and line feeds, the report and its EOT, and what follows. -/
def record (cmd : List Byte) (k : ℕ) (body rest : List Byte) : List Byte :=
  cmd ++ 0x03 :: (List.replicate k 0x0A ++ (body ++ 0x04 :: rest))

/-- Where the command and the report end: the report has what is left of the line feeds after two. -/
structure Parts (cmd : List Byte) (k : ℕ) (body : List Byte) : Prop where
  command : 0x03 ∉ cmd
  feeds : k ≤ 2
  first : k = 2 ∨ body.head? ≠ some 0x0A
  report : 0x04 ∉ body

def Trailer (body rest : List Byte) : Prop :=
  ∃ digits last, rest = 0x1B :: 0x43 :: (digits ++ [last]) ∧ digits.length = 4 ∧
    hexNumber digits = some (checksum body) ∧ (last = 0x16 ∨ last = 0x0A)

def Frame (bytes : List Byte) : Prop :=
  ∃ cmd k body rest, Parts cmd k body ∧ bytes = record cmd k body rest ∧ Trailer body rest

/-- What came after the last XON. -/
def SinceXon (bytes tail : List Byte) : Prop := ∃ before, bytes = before ++ 0x11 :: tail ∧ 0x11 ∉ tail

theorem not_mem_cons {x b : Byte} {bytes : List Byte} (h : x ∉ b :: bytes) : x ≠ b ∧ x ∉ bytes := by
  rwa [List.mem_cons, not_or] at h

theorem send_transfer (d : Printer) (bytes : List Byte) :
    (send d bytes).transfer = bytes.foldl transferByte d.transfer := by
  unfold send
  induction bytes generalizing d with
  | nil => rfl
  | cons b bytes ih => rw [List.foldl_cons, List.foldl_cons, ih, write_transfer]

theorem transfer_idle {t : Transfer} {val : Byte} (hidle : t.active = false) (hval : val ≠ 0x11) :
    transferByte t val = t := by
  unfold transferByte
  rw [if_neg hval, hidle]
  rfl

theorem run_idle {t : Transfer} (hidle : t.active = false) {bytes : List Byte} (hxon : 0x11 ∉ bytes) :
    bytes.foldl transferByte t = t := by
  induction bytes with
  | nil => rfl
  | cons b bytes ih =>
    obtain ⟨hb, hrest⟩ := not_mem_cons hxon
    rw [List.foldl_cons, transfer_idle hidle (Ne.symm hb), ih hrest]

section
variable {t : Transfer} {val : Byte} (hactive : t.active = true) (hxon : val ≠ 0x11)
include hactive hxon

theorem transfer_command (hphase : t.phase = .command) :
    transferByte t val = if val = 0x03 then { t with phase := .lfs, lfs := 2 } else t := by
  unfold transferByte
  rw [if_neg hxon, if_pos hactive, hphase]

theorem transfer_lfs (hphase : t.phase = .lfs) :
    transferByte t val =
      if val = 0x0A ∧ 0 < t.lfs then
        if t.lfs - 1 = 0 then { t with lfs := 0, phase := .body } else { t with lfs := t.lfs - 1 }
      else report { t with phase := .body } val := by
  unfold transferByte
  rw [if_neg hxon, if_pos hactive, hphase]

theorem transfer_body (hphase : t.phase = .body) : transferByte t val = report t val := by
  unfold transferByte
  rw [if_neg hxon, if_pos hactive, hphase]

theorem transfer_trailer (hphase : t.phase = .trailer) : transferByte t val = trail t val := by
  unfold transferByte
  rw [if_neg hxon, if_pos hactive, hphase]

end

structure Started (t : Transfer) : Prop where
  active : t.active = true
  result : t.result = 0
  sum : t.sum = 0
  expected : t.expected = 0
  phase : t.phase = .command

theorem xon_started (t : Transfer) : Started (transferByte t 0x11) := by
  unfold transferByte
  rw [if_pos rfl]
  exact ⟨rfl, rfl, rfl, rfl, rfl⟩

theorem run_command {t : Transfer} (hstart : Started t) {cmd : List Byte} (hetx : 0x03 ∉ cmd) (hxon : 0x11 ∉ cmd) :
    cmd.foldl transferByte t = t := by
  induction cmd with
  | nil => rfl
  | cons b cmd ih =>
    obtain ⟨hb, hrest⟩ := not_mem_cons hetx
    obtain ⟨hb', hrest'⟩ := not_mem_cons hxon
    have hstep : transferByte t b = t := by
      rw [transfer_command hstart.active (Ne.symm hb') hstart.phase]
      exact if_neg (Ne.symm hb)
    rw [List.foldl_cons, hstep, ih hrest hrest']

/-- After the command's ETX and `k` line feeds. -/
structure Fed (t : Transfer) (k : ℕ) : Prop where
  active : t.active = true
  result : t.result = 0
  sum : t.sum = 0
  expected : t.expected = 0
  phase : k < 2 ∧ t.phase = .lfs ∧ t.lfs = 2 - k ∨ k = 2 ∧ t.phase = .body

theorem etx_fed {t : Transfer} (hstart : Started t) : Fed (transferByte t 0x03) 0 := by
  rw [transfer_command hstart.active (by decide) hstart.phase]
  exact ⟨hstart.active, hstart.result, hstart.sum, hstart.expected, Or.inl ⟨by omega, rfl, rfl⟩⟩

theorem feed_fed {t : Transfer} {k : ℕ} (hfed : Fed t k) (hk : k < 2) : Fed (transferByte t 0x0A) (k + 1) := by
  rcases hfed.phase with ⟨-, hphase, hlfs⟩ | ⟨htwo, -⟩
  · rw [transfer_lfs hfed.active (by decide) hphase, if_pos ⟨rfl, by omega⟩]
    by_cases hlast : t.lfs - 1 = 0
    · rw [if_pos hlast]
      exact ⟨hfed.active, hfed.result, hfed.sum, hfed.expected, Or.inr ⟨by omega, rfl⟩⟩
    · rw [if_neg hlast]
      exact ⟨hfed.active, hfed.result, hfed.sum, hfed.expected, Or.inl ⟨by omega, hphase, by dsimp only; omega⟩⟩
  · omega

theorem run_feeds {t : Transfer} {j : ℕ} (hfed : Fed t j) {k : ℕ} (hk : j + k ≤ 2) :
    Fed ((List.replicate k 0x0A).foldl transferByte t) (j + k) := by
  induction k generalizing t j with
  | zero => exact hfed
  | succ k ih =>
    rw [List.replicate_succ, List.foldl_cons]
    have hnext := ih (feed_fed hfed (by omega)) (by omega)
    rwa [show j + 1 + k = j + (k + 1) by omega] at hnext

/-- Inside the report. -/
structure Reporting (t : Transfer) (body : List Byte) : Prop where
  active : t.active = true
  result : t.result = 0
  sum : t.sum.toNat = (body.map BitVec.toNat).sum % 65536
  expected : t.expected = 0
  phase : t.phase = .body

theorem sum_next {t : Transfer} {n : ℕ} (hsum : t.sum.toNat = n % 65536) (val : Byte) :
    (t.sum + val.setWidth 16).toNat = (n + val.toNat) % 65536 := by
  rw [BitVec.toNat_add, BitVec.toNat_setWidth, hsum]
  omega

theorem report_other {t : Transfer} {val : Byte} (hval : val ≠ 0x04) :
    report t val = { t with sum := t.sum + val.setWidth 16 } := by
  unfold report
  exact if_neg hval

theorem report_step {t : Transfer} {body : List Byte} (hin : Reporting t body) {val : Byte} (heot : val ≠ 0x04)
    (hxon : val ≠ 0x11) : Reporting (transferByte t val) (body ++ [val]) := by
  rw [transfer_body hin.active hxon hin.phase, report_other heot]
  refine ⟨hin.active, hin.result, ?_, hin.expected, hin.phase⟩
  rw [List.map_append, List.sum_append, List.map_singleton, List.sum_singleton]
  exact sum_next hin.sum val

theorem run_report {t : Transfer} {body : List Byte} (hin : Reporting t body) {more : List Byte} (heot : 0x04 ∉ more)
    (hxon : 0x11 ∉ more) : Reporting (more.foldl transferByte t) (body ++ more) := by
  induction more generalizing t body with
  | nil => rwa [List.append_nil]
  | cons b more ih =>
    obtain ⟨hb, hrest⟩ := not_mem_cons heot
    obtain ⟨hb', hrest'⟩ := not_mem_cons hxon
    have hnext := ih (report_step hin (Ne.symm hb) (Ne.symm hb')) hrest hrest'
    rwa [List.append_assoc] at hnext

theorem fed_report {t : Transfer} {k : ℕ} (hfed : Fed t k) {val : Byte} (hfirst : k = 2 ∨ val ≠ 0x0A)
    (heot : val ≠ 0x04) (hxon : val ≠ 0x11) : Reporting (transferByte t val) [val] := by
  have hzero : t.sum.toNat = 0 % 65536 := by
    rw [hfed.sum]
    rfl
  rcases hfed.phase with ⟨hk, hphase, -⟩ | ⟨-, hphase⟩
  · have hval : ¬ (val = 0x0A ∧ 0 < t.lfs) := by
      rintro ⟨hlf, -⟩
      rcases hfirst with htwo | hne
      · omega
      · exact hne hlf
    rw [transfer_lfs hfed.active hxon hphase, if_neg hval, report_other heot]
    exact ⟨hfed.active, hfed.result, (sum_next hzero val).trans (by simp), hfed.expected, rfl⟩
  · rw [transfer_body hfed.active hxon hphase, report_other heot]
    exact ⟨hfed.active, hfed.result, (sum_next hzero val).trans (by simp), hfed.expected, hphase⟩

/-- What the trailer has to begin with, ESC C and digits. -/
def Sound (tr : List Byte) : Prop :=
  ∀ i b, tr[i]? = some b → (i < 2 → b = [0x1B, 0x43].getD i 0) ∧ (2 ≤ i → hexDigit b ≠ none)

theorem sound_concat {tr : List Byte} {b : Byte} :
    Sound (tr ++ [b]) ↔ Sound tr ∧ (tr.length < 2 → b = [0x1B, 0x43].getD tr.length 0) ∧
      (2 ≤ tr.length → hexDigit b ≠ none) := by
  constructor
  · intro h
    refine ⟨?_, h tr.length b List.getElem?_concat_length⟩
    intro i c hi
    have hlt : i < tr.length := (List.getElem?_eq_some_iff.mp hi).1
    exact h i c ((List.getElem?_append_left hlt).trans hi)
  · rintro ⟨h, hlast⟩ i c hi
    by_cases hlt : i < tr.length
    · rw [List.getElem?_append_left hlt] at hi
      exact h i c hi
    · obtain ⟨hlen, -⟩ := List.getElem?_eq_some_iff.mp hi
      rw [List.length_append, List.length_singleton] at hlen
      have heq : i = tr.length := by omega
      subst heq
      rw [List.getElem?_concat_length] at hi
      cases hi
      exact hlast

theorem hexNumber_concat {digits : List Byte} {n d : ℕ} {b : Byte} (hn : hexNumber digits = some n)
    (hd : hexDigit b = some d) : hexNumber (digits ++ [b]) = some (16 * n + d) := by
  unfold hexNumber at hn ⊢
  rw [List.foldlM_append, hn, Option.bind_eq_bind, Option.bind_some, List.foldlM_cons, hd]
  rfl

theorem hexDigit_lt {b : Byte} {d : ℕ} (h : hexDigit b = some d) : d < 16 := by
  have hall : ∀ b, ∀ d ∈ hexDigit b, d < 16 := by decide +kernel
  exact hall b d h

theorem shift_digit {e : BitVec 16} {d : ℕ} (he : e.toNat < 4096) (hd : d < 16) :
    (e <<< 4 ||| BitVec.ofNat 16 d).toNat = 16 * e.toNat + d := by
  have hshift : (e <<< 4).toNat = 2 ^ 4 * e.toNat := by
    rw [BitVec.toNat_shiftLeft, Nat.shiftLeft_eq, Nat.mul_comm, Nat.mod_eq_of_lt (by omega)]
  rw [BitVec.toNat_or, hshift, BitVec.toNat_ofNat, Nat.mod_eq_of_lt (by omega : d < 2 ^ 16),
    ← Nat.two_pow_add_eq_or_of_lt (by omega)]

structure Trailing (t : Transfer) (body tr : List Byte) : Prop where
  active : t.active = true
  sum : t.sum.toNat = checksum body
  phase : t.phase = .trailer
  trailer : t.trailer = tr.length
  result : t.result = 0 ∧ Sound tr ∨ t.result = -1 ∧ ¬ Sound tr
  expected : Sound tr → hexNumber (tr.drop 2) = some t.expected.toNat
  small : Sound tr → t.expected.toNat < 16 ^ (tr.length - 2)

theorem report_eot (t : Transfer) : report t 0x04 = { t with sum := t.sum + 4, phase := .trailer, trailer := 0 } := by
  unfold report
  exact if_pos rfl

theorem eot_trailing {t : Transfer} {body : List Byte} (hactive : t.active = true) (hresult : t.result = 0)
    (hsum : t.sum.toNat = (body.map BitVec.toNat).sum % 65536) (hexpected : t.expected = 0) :
    Trailing (report t 0x04) body [] := by
  rw [report_eot]
  have hsound : Sound [] := by
    intro i b hi
    cases hi
  refine ⟨hactive, sum_next hsum 0x04, rfl, rfl, Or.inl ⟨hresult, hsound⟩, fun _ => ?_, fun _ => ?_⟩
  · dsimp only
    rw [hexpected]
    rfl
  · dsimp only
    rw [hexpected]
    decide

theorem fed_eot {t : Transfer} {k : ℕ} (hfed : Fed t k) : Trailing (transferByte t 0x04) [] [] := by
  have hzero : t.sum.toNat = 0 % 65536 := by
    rw [hfed.sum]
    rfl
  rcases hfed.phase with ⟨-, hphase, -⟩ | ⟨-, hphase⟩
  · rw [transfer_lfs hfed.active (by decide) hphase, if_neg (fun h => absurd h.1 (by decide))]
    exact eot_trailing hfed.active hfed.result hzero hfed.expected
  · rw [transfer_body hfed.active (by decide) hphase]
    exact eot_trailing hfed.active hfed.result hzero hfed.expected

theorem report_end {t : Transfer} {body : List Byte} (hin : Reporting t body) :
    Trailing (transferByte t 0x04) body [] := by
  rw [transfer_body hin.active (by decide) hin.phase]
  exact eot_trailing hin.active hin.result hin.sum hin.expected

theorem trail_step {t : Transfer} {body tr : List Byte} (hin : Trailing t body tr) (hshort : tr.length < 6)
    {val : Byte} (hxon : val ≠ 0x11) : Trailing (transferByte t val) body (tr ++ [val]) := by
  have hlength : (tr ++ [val]).length = tr.length + 1 := by rw [List.length_append, List.length_singleton]
  rw [transfer_trailer hin.active hxon hin.phase]
  unfold trail
  dsimp only
  by_cases htwo : tr.length < 2
  · have hdrop (bytes : List Byte) (h : bytes.length ≤ 2) : bytes.drop 2 = [] := List.drop_eq_nil_of_le h
    have hzero (h : Sound tr) : t.expected.toNat = 0 := by
      have hnumber := hin.expected h
      rw [hdrop tr (by omega)] at hnumber
      exact (Option.some.inj hnumber).symm
    rw [if_pos (by rw [hin.trailer]; exact htwo), hin.trailer]
    have hrest (t' : Transfer) (hexpected : t'.expected = t.expected) :
        (Sound (tr ++ [val]) → hexNumber ((tr ++ [val]).drop 2) = some t'.expected.toNat) ∧
          (Sound (tr ++ [val]) → t'.expected.toNat < 16 ^ ((tr ++ [val]).length - 2)) := by
      constructor
      · intro h
        rw [hdrop _ (by omega), hexpected, hzero (sound_concat.mp h).1]
        rfl
      · intro h
        rw [hexpected, hzero (sound_concat.mp h).1]
        exact Nat.pow_pos (by decide)
    by_cases hval : val = [0x1B, 0x43].getD tr.length 0
    · rw [if_neg (not_not_intro hval)]
      refine ⟨hin.active, hin.sum, hin.phase, by rw [hlength, ← hin.trailer], ?_, (hrest _ rfl).1, (hrest _ rfl).2⟩
      rw [sound_concat]
      rcases hin.result with ⟨hr, hs⟩ | ⟨hr, hs⟩
      · exact Or.inl ⟨hr, hs, fun _ => hval, fun h => absurd htwo (by omega)⟩
      · exact Or.inr ⟨hr, fun h => hs h.1⟩
    · rw [if_pos hval]
      refine ⟨hin.active, hin.sum, hin.phase, by dsimp only; rw [hlength, ← hin.trailer],
        Or.inr ⟨rfl, fun h => hval ((sound_concat.mp h).2.1 htwo)⟩, (hrest _ rfl).1, (hrest _ rfl).2⟩
  · rw [if_neg (by rw [hin.trailer]; exact htwo), if_pos (by rw [hin.trailer]; exact hshort)]
    cases hdigit : hexDigit val with
    | none =>
      have hnot : ¬ Sound (tr ++ [val]) := fun h => (sound_concat.mp h).2.2 (by omega) hdigit
      exact ⟨hin.active, hin.sum, hin.phase, by dsimp only; rw [hlength, ← hin.trailer], Or.inr ⟨rfl, hnot⟩,
        fun h => absurd h hnot, fun h => absurd h hnot⟩
    | some digit =>
      have hlt := hexDigit_lt hdigit
      have hiff : Sound (tr ++ [val]) ↔ Sound tr := by
        rw [sound_concat, hdigit]
        exact ⟨fun h => h.1, fun h => ⟨h, fun h' => absurd h' htwo, fun _ h' => nomatch h'⟩⟩
      have hvalue (h : Sound tr) : (t.expected <<< 4 ||| BitVec.ofNat 16 digit).toNat =
          16 * t.expected.toNat + digit := by
        refine shift_digit ?_ hlt
        have hpow : 16 ^ (tr.length - 2) ≤ 16 ^ 3 := Nat.pow_le_pow_right (by decide) (by omega)
        exact Nat.lt_of_lt_of_le (hin.small h) hpow
      refine ⟨hin.active, hin.sum, hin.phase, by dsimp only; rw [hlength, ← hin.trailer], ?_, ?_, ?_⟩
      · rw [hiff]
        exact hin.result
      · intro h
        have hsound := hiff.mp h
        dsimp only
        rw [hvalue hsound, List.drop_append_of_le_length (by omega)]
        exact hexNumber_concat (hin.expected hsound) hdigit
      · intro h
        have hsound := hiff.mp h
        have hsmall := hin.small hsound
        have hpow : 16 ^ ((tr ++ [val]).length - 2) = 16 * 16 ^ (tr.length - 2) := by
          rw [hlength, show tr.length + 1 - 2 = (tr.length - 2) + 1 by omega, Nat.pow_succ, Nat.mul_comm]
        dsimp only
        rw [hvalue hsound, hpow]
        omega

theorem run_trailer {t : Transfer} {body tr : List Byte} (hin : Trailing t body tr) {more : List Byte}
    (hshort : (tr ++ more).length ≤ 6) (hxon : 0x11 ∉ more) :
    Trailing (more.foldl transferByte t) body (tr ++ more) := by
  induction more generalizing t tr with
  | nil => rwa [List.append_nil]
  | cons b more ih =>
    obtain ⟨hb, hrest⟩ := not_mem_cons hxon
    rw [List.length_append, List.length_cons] at hshort
    have hnext := ih (trail_step hin (by omega) (Ne.symm hb))
      (by rw [List.length_append, List.length_append, List.length_singleton]; omega) hrest
    rwa [List.append_assoc] at hnext

theorem trailer_iff {body tr : List Byte} {last : Byte} (hlen : tr.length = 6) :
    Trailer body (tr ++ [last]) ↔
      Sound tr ∧ hexNumber (tr.drop 2) = some (checksum body) ∧ (last = 0x16 ∨ last = 0x0A) := by
  constructor
  · rintro ⟨digits, last', heq, hlen', hnumber, hlast⟩
    obtain ⟨rfl, hsame⟩ := List.append_inj' (heq.trans (List.append_assoc [0x1B, 0x43] digits [last']).symm) rfl
    cases hsame
    refine ⟨?_, hnumber, hlast⟩
    -- a number's bytes are digits: it is the fold that would have failed
    have hall (more : List Byte) : ∀ n, more.foldlM (fun n b => (hexDigit b).map (16 * n + ·)) n ≠ none →
        ∀ b ∈ more, hexDigit b ≠ none := by
      induction more with
      | nil => exact fun _ _ b hb => absurd hb List.not_mem_nil
      | cons c more ih =>
        intro n hn b hb
        rw [List.foldlM_cons] at hn
        cases hc : hexDigit c with
        | none => exact absurd (by rw [hc]; rfl) hn
        | some d =>
          rw [hc] at hn
          rcases List.mem_cons.mp hb with rfl | hb
          · rw [hc]
            exact fun h => nomatch h
          · exact ih _ hn b hb
    have hdigits := hall digits 0 (by rw [show digits.foldlM _ 0 = hexNumber digits from rfl, hnumber]; exact fun h => nomatch h)
    intro i b hi
    match i, hi with
    | 0, hi => exact ⟨fun _ => (Option.some.inj hi).symm, fun h => absurd h (by decide)⟩
    | 1, hi => exact ⟨fun _ => (Option.some.inj hi).symm, fun h => absurd h (by decide)⟩
    | i + 2, hi => exact ⟨fun h => absurd h (by omega), fun _ => hdigits b (List.mem_of_getElem? hi)⟩
  · rintro ⟨hsound, hnumber, hlast⟩
    match tr, hlen with
    | a :: b :: digits, hlen =>
      have ha : a = 0x1B := (hsound 0 a rfl).1 (by decide)
      have hb : b = 0x43 := (hsound 1 b rfl).1 (by decide)
      rw [ha, hb]
      exact ⟨digits, last, rfl, Nat.succ.inj (Nat.succ.inj hlen), hnumber, hlast⟩

theorem trail_last {t : Transfer} {body tr : List Byte} (hin : Trailing t body tr) (hlen : tr.length = 6)
    {last : Byte} (hxon : last ≠ 0x11) :
    (transferByte t last).active = false ∧ (transferByte t last).sum = t.sum ∧
      (Trailer body (tr ++ [last]) → (transferByte t last).result = 1) ∧
      (¬ Trailer body (tr ++ [last]) → (transferByte t last).result = -1) := by
  rw [trailer_iff hlen, transfer_trailer hin.active hxon hin.phase]
  unfold trail
  dsimp only
  rw [hin.trailer, hlen, if_neg (by decide), if_neg (by decide), if_pos rfl]
  by_cases hlast : last = 0x16 ∨ last = 0x0A
  · have hgood : ¬ (last ≠ 0x16 ∧ last ≠ 0x0A) := by tauto
    simp only [if_neg hgood]
    rcases hin.result with ⟨hr, hs⟩ | ⟨hr, hs⟩
    · have hnumber := hin.expected hs
      have hsame : t.expected = t.sum ↔ hexNumber (tr.drop 2) = some (checksum body) := by
        rw [hnumber, Option.some_inj, ← hin.sum, BitVec.toNat_inj]
      simp only [if_pos hr]
      refine ⟨trivial, trivial, fun h => ?_, fun h => ?_⟩
      · exact if_pos (hsame.mpr h.2.1)
      · exact if_neg fun heq => h ⟨hs, hsame.mp heq, hlast⟩
    · have hfailed : ¬ t.result = 0 := by
        rw [hr]
        decide
      simp only [if_neg hfailed]
      exact ⟨trivial, trivial, fun h => absurd h.1 hs, fun _ => hr⟩
  · have hbad : last ≠ 0x16 ∧ last ≠ 0x0A := by tauto
    have hfailed : ¬ (-1 : ℤ) = 0 := by decide
    simp only [if_pos hbad, if_neg hfailed]
    exact ⟨trivial, trivial, fun h => absurd h.2.2 hlast, fun _ => trivial⟩

theorem run_parts {t : Transfer} (hstart : Started t) {cmd body : List Byte} {k : ℕ} (hparts : Parts cmd k body)
    (hxon : 0x11 ∉ record cmd k body []) : Trailing ((record cmd k body []).foldl transferByte t) body [] := by
  unfold record at hxon ⊢
  rw [List.mem_append, not_or] at hxon
  obtain ⟨hcmd, hxon⟩ := hxon
  have hxon := (not_mem_cons hxon).2
  rw [List.mem_append, not_or] at hxon
  have hxon := hxon.2
  rw [List.mem_append, not_or] at hxon
  have hfed := run_feeds (etx_fed hstart) (Nat.zero_add k ▸ hparts.feeds)
  rw [Nat.zero_add] at hfed
  rw [List.foldl_append, run_command hstart hparts.command hcmd, List.foldl_cons, List.foldl_append, List.foldl_append,
    List.foldl_cons, List.foldl_nil]
  cases body with
  | nil => exact fed_eot hfed
  | cons b body =>
    obtain ⟨hb, heot⟩ := not_mem_cons hparts.report
    obtain ⟨hb', hrest⟩ := not_mem_cons hxon.1
    have hfirst : k = 2 ∨ b ≠ 0x0A := hparts.first.imp_right fun h h' => h (congrArg some h')
    exact report_end (run_report (fed_report hfed hfirst (Ne.symm hb) (Ne.symm hb')) heot hrest)

theorem record_append (cmd : List Byte) (k : ℕ) (body tr rest : List Byte) :
    record cmd k body (tr ++ rest) = record cmd k body tr ++ rest := by
  unfold record
  simp only [List.append_assoc, List.cons_append]

theorem run_record {t : Transfer} (hstart : Started t) {cmd body tr : List Byte} {k : ℕ} (hparts : Parts cmd k body)
    (hlen : tr.length = 7) (hxon : 0x11 ∉ record cmd k body tr) :
    ((record cmd k body tr).foldl transferByte t).active = false ∧
      ((record cmd k body tr).foldl transferByte t).sum.toNat = checksum body ∧
      (Trailer body tr → ((record cmd k body tr).foldl transferByte t).result = 1) ∧
      (¬ Trailer body tr → ((record cmd k body tr).foldl transferByte t).result = -1) := by
  obtain ⟨six, last, rfl⟩ : ∃ six last, tr = six ++ [last] :=
    ⟨tr.dropLast, tr.getLast (List.ne_nil_of_length_eq_add_one hlen), (List.dropLast_append_getLast _).symm⟩
  have hsix : six.length = 6 := by
    rw [List.length_append, List.length_singleton] at hlen
    omega
  have heq : record cmd k body (six ++ [last]) = record cmd k body [] ++ six ++ [last] := by
    rw [← record_append, ← record_append, List.nil_append]
  rw [heq] at hxon ⊢
  rw [List.mem_append, List.mem_append, not_or, not_or] at hxon
  obtain ⟨⟨hbody, hdigits⟩, hlast⟩ := hxon
  have htrailing := run_trailer (run_parts hstart hparts hbody) (by rw [List.nil_append]; omega) hdigits
  rw [List.nil_append] at htrailing
  rw [List.foldl_append, List.foldl_append, List.foldl_cons, List.foldl_nil]
  have hend := trail_last htrailing hsix (fun h => hlast (List.mem_singleton.mpr h.symm))
  exact ⟨hend.1, hend.2.1 ▸ htrailing.sum, hend.2.2⟩

theorem feeds_split (bytes : List Byte) :
    ∃ k rest, bytes = List.replicate k 0x0A ++ rest ∧ k ≤ 2 ∧ (k = 2 ∨ rest.head? ≠ some 0x0A) := by
  match bytes with
  | [] => exact ⟨0, [], rfl, by decide, Or.inr (by decide)⟩
  | a :: rest =>
    by_cases ha : a = 0x0A
    · match rest with
      | [] => exact ⟨1, [], by rw [ha]; rfl, by decide, Or.inr (by decide)⟩
      | b :: rest =>
        by_cases hb : b = 0x0A
        · exact ⟨2, rest, by rw [ha, hb]; rfl, by decide, Or.inl rfl⟩
        · exact ⟨1, b :: rest, by rw [ha]; rfl, by decide, Or.inr fun h => hb (Option.some.inj h)⟩
    · exact ⟨0, a :: rest, rfl, by decide, Or.inr fun h => ha (Option.some.inj h)⟩

/-- How far the bytes since an XON have taken a transfer: not to the trailer, into it, or beyond. -/
inductive Progress (t : Transfer) (tail : List Byte) : Prop
  | before (active : t.active = true) (phase : t.phase ≠ .trailer) (result : t.result = 0)
  | inside (cmd body tr : List Byte) (k : ℕ) (parts : Parts cmd k body) (split : tail = record cmd k body tr)
      (short : tr.length ≤ 6) (trailing : Trailing t body tr)
  | beyond (cmd body tr rest : List Byte) (k : ℕ) (parts : Parts cmd k body)
      (split : tail = record cmd k body tr ++ rest) (whole : tr.length = 7)

theorem progress {t : Transfer} (hstart : Started t) {tail : List Byte} (hxon : 0x11 ∉ tail) :
    Progress (tail.foldl transferByte t) tail := by
  by_cases hetx : 0x03 ∈ tail
  swap
  · rw [run_command hstart hetx hxon]
    exact .before hstart.active (by rw [hstart.phase]; decide) hstart.result
  obtain ⟨cmd, rest, rfl, hcmd⟩ := List.eq_append_cons_of_mem hetx
  obtain ⟨k, rest, rfl, hk, hfirst⟩ := feeds_split rest
  by_cases heot : 0x04 ∈ rest
  swap
  · rw [List.mem_append, not_or] at hxon
    have hrest := (not_mem_cons hxon.2).2
    rw [List.mem_append, not_or] at hrest
    have hfed := run_feeds (etx_fed hstart) (Nat.zero_add k ▸ hk)
    rw [Nat.zero_add] at hfed
    rw [List.foldl_append, run_command hstart hcmd hxon.1, List.foldl_cons, List.foldl_append]
    cases rest with
    | nil =>
      refine .before hfed.active ?_ hfed.result
      rcases hfed.phase with ⟨-, hphase, -⟩ | ⟨-, hphase⟩
      · exact fun h => nomatch hphase.symm.trans h
      · exact fun h => nomatch hphase.symm.trans h
    | cons b more =>
      obtain ⟨hb, hmore⟩ := not_mem_cons heot
      obtain ⟨hb', hmore'⟩ := not_mem_cons hrest.2
      have hfirst' : k = 2 ∨ b ≠ 0x0A := hfirst.imp_right fun h h' => h (congrArg some h')
      have hin := run_report (fed_report hfed hfirst' (Ne.symm hb) (Ne.symm hb')) hmore hmore'
      exact .before hin.active (fun h => nomatch hin.phase.symm.trans h) hin.result
  obtain ⟨body, tr, rfl, hbody⟩ := List.eq_append_cons_of_mem heot
  have hparts : Parts cmd k body := by
    refine ⟨hcmd, hk, hfirst.imp_right fun h h' => h ?_, hbody⟩
    cases body with
    | nil => cases h'
    | cons b more => exact h'
  have hwhole : cmd ++ 0x03 :: (List.replicate k 0x0A ++ (body ++ 0x04 :: tr)) = record cmd k body tr := rfl
  rw [hwhole] at hxon ⊢
  by_cases hshort : tr.length ≤ 6
  · have heq : record cmd k body tr = record cmd k body [] ++ tr := by rw [← record_append, List.nil_append]
    rw [heq, List.mem_append, not_or] at hxon
    have htrailing := run_trailer (run_parts hstart hparts hxon.1) hshort hxon.2
    refine .inside cmd body tr k hparts rfl hshort ?_
    rw [heq, List.foldl_append]
    exact htrailing
  · refine .beyond cmd body (tr.take 7) (tr.drop 7) k hparts ?_ ?_
    · rw [← record_append, List.take_append_drop]
    · rw [List.length_take]
      omega

theorem accepted_frame {t : Transfer} (hstart : Started t) {tail : List Byte} (hxon : 0x11 ∉ tail)
    (haccept : (tail.foldl transferByte t).result = 1) : ∃ frame rest, tail = frame ++ rest ∧ Frame frame := by
  have hnone : (0 : ℤ) ≠ 1 := by decide
  rcases progress hstart hxon with
    ⟨-, -, hresult⟩ | ⟨cmd, body, tr, k, -, -, -, htrailing⟩ | ⟨cmd, body, tr, rest, k, hparts, rfl, hlen⟩
  · exact absurd (hresult.symm.trans haccept) hnone
  · rcases htrailing.result with ⟨hr, -⟩ | ⟨hr, -⟩
    · exact absurd (hr.symm.trans haccept) hnone
    · exact absurd (hr.symm.trans haccept) (by decide)
  · rw [List.mem_append, not_or] at hxon
    have hrun := run_record hstart hparts hlen hxon.1
    rw [List.foldl_append, run_idle hrun.1 hxon.2] at haccept
    refine ⟨_, rest, rfl, cmd, k, body, tr, hparts, rfl, ?_⟩
    by_contra hnot
    exact absurd ((hrun.2.2.2 hnot).symm.trans haccept) (by decide)

theorem since_xon (bytes : List Byte) : 0x11 ∉ bytes ∨ ∃ tail, SinceXon bytes tail := by
  by_cases hxon : 0x11 ∈ bytes
  · right
    obtain ⟨after, before, heq, hafter⟩ := List.eq_append_cons_of_mem (List.mem_reverse.mpr hxon)
    refine ⟨after.reverse, before.reverse, ?_, fun h => hafter (List.mem_reverse.mp h)⟩
    rw [← List.reverse_reverse bytes, heq, List.reverse_append, List.reverse_cons, List.append_assoc]
    rfl
  · exact Or.inl hxon

theorem send_since {d : Printer} {bytes tail : List Byte} (hsince : SinceXon bytes tail) :
    0x11 ∉ tail ∧ ∃ t, Started t ∧ (send d bytes).transfer = tail.foldl transferByte t := by
  obtain ⟨before, rfl, hxon⟩ := hsince
  refine ⟨hxon, _, xon_started (before.foldl transferByte d.transfer), ?_⟩
  rw [send_transfer, List.foldl_append, List.foldl_cons]

theorem frame_accepted {d : Printer} {bytes frame rest : List Byte} (hsince : SinceXon bytes (frame ++ rest))
    (hframe : Frame frame) : (send d bytes).transfer.result = 1 := by
  obtain ⟨hxon, t, hstart, hsend⟩ := send_since hsince
  obtain ⟨cmd, k, body, tr, hparts, rfl, htrailer⟩ := hframe
  have hlen : tr.length = 7 := by
    obtain ⟨digits, last, rfl, hlen, -⟩ := htrailer
    simp only [List.length_cons, List.length_append, List.length_nil]
    omega
  rw [List.mem_append, not_or] at hxon
  have hrun := run_record hstart hparts hlen hxon.1
  rw [hsend, List.foldl_append, run_idle hrun.1 hxon.2]
  exact hrun.2.2.1 htrailer

end PeepeeBox.Cp80Record
