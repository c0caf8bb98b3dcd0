import Mathlib.Data.List.Induction
import Mathlib.Logic.Function.Iterate
import PeepeeBox.Cp80Record

set_option autoImplicit false

/-!
# The result of a transfer, as the window polls it

What a poll reads is one serial number with one verdict and one sum, kept in variables of their own; it
is of one record as long as no other has begun.
-/
namespace PeepeeBox.Cp80Snapshots
open Cp80 Cp80Record

structure TransferResult where
  serial : BitVec 64
  result : ℤ
  expected : BitVec 16
  calculated : BitVec 16

def transferResult (d : Printer) : TransferResult where
  serial := d.transfer.completed
  result := d.transfer.result
  expected := d.transfer.expected
  calculated := d.transfer.sum

/-- The number after `serial`; 0 is none. -/
def serialNext (serial : BitVec 64) : BitVec 64 := if serial + 1 = 0 then 1 else serial + 1

/-- The number of the `n`-th record that is begun. -/
def serialOf (n : ℕ) : BitVec 64 := serialNext^[n] 0

theorem report_serial (t : Transfer) (val : Byte) :
    (report t val).serial = t.serial ∧ (report t val).completed = t.completed := by
  unfold report
  dsimp only
  split <;> exact ⟨rfl, rfl⟩

theorem trail_serial (t : Transfer) (val : Byte) : (trail t val).serial = t.serial := by
  unfold trail
  dsimp only
  split_ifs
  · rfl
  · rfl
  · cases hexDigit val <;> rfl
  all_goals rfl

theorem serial_step (t : Transfer) (val : Byte) :
    (transferByte t val).serial = if val = 0x11 then serialNext t.serial else t.serial := by
  unfold transferByte
  by_cases hxon : val = 0x11
  · rw [if_pos hxon, if_pos hxon]
    rfl
  · rw [if_neg hxon, if_neg hxon]
    by_cases hactive : t.active = true
    · rw [if_pos hactive]
      cases t.phase with
      | idle => rfl
      | command => dsimp only; split <;> rfl
      | lfs =>
        dsimp only
        split_ifs
        · rfl
        · rfl
        · exact (report_serial _ val).1
      | body => exact (report_serial t val).1
      | trailer => exact trail_serial t val
    · rw [if_neg hactive]

theorem serial_run (t : Transfer) (bytes : List Byte) :
    (bytes.foldl transferByte t).serial = serialNext^[bytes.count 0x11] t.serial := by
  induction bytes generalizing t with
  | nil => rfl
  | cons b bytes ih =>
    rw [List.foldl_cons, ih, serial_step]
    by_cases hxon : b = 0x11
    · rw [hxon, if_pos rfl, List.count_cons_self, Function.iterate_succ_apply]
    · rw [if_neg hxon, List.count_cons_of_ne hxon]

def Completes (tail : List Byte) : Prop :=
  ∃ cmd k body tr, Parts cmd k body ∧ tail = record cmd k body tr ∧ tr.length = 7

def Verdict (tail : List Byte) (r : ℤ) (s : BitVec 16) : Prop :=
  ∃ cmd k body tr, Parts cmd k body ∧ tail = record cmd k body tr ∧ tr.length = 7 ∧ s.toNat = checksum body ∧
    (r = 1 ∧ Trailer body tr ∨ r = -1 ∧ ¬ Trailer body tr)

theorem completed_kept {t : Transfer} {val : Byte}
    (h : val = 0x11 ∨ t.active = false ∨ t.phase ≠ .trailer ∨ t.trailer ≠ 6) :
    (transferByte t val).completed = t.completed := by
  unfold transferByte
  by_cases hxon : val = 0x11
  · rw [if_pos hxon]
  rw [if_neg hxon]
  by_cases hactive : t.active = true
  · rw [if_pos hactive]
    cases hphase : t.phase with
    | idle => rfl
    | command => dsimp only; split <;> rfl
    | lfs =>
      dsimp only
      split_ifs
      · rfl
      · rfl
      · exact (report_serial _ val).2
    | body => exact (report_serial t val).2
    | trailer =>
      have hplace : t.trailer ≠ 6 := by
        rcases h with h | h | h | h
        · exact absurd h hxon
        · exact absurd (h.symm.trans hactive) Bool.false_ne_true
        · exact absurd hphase h
        · exact h
      dsimp only
      unfold trail
      dsimp only
      rw [if_neg hplace]
      split_ifs
      · rfl
      · rfl
      · cases hexDigit val <;> rfl
      · rfl
  · rw [if_neg hactive]

theorem trailing_completes {t : Transfer} {body tr : List Byte} (h : Trailing t body tr) (hlen : tr.length = 6)
    {val : Byte} (hxon : val ≠ 0x11) : (transferByte t val).completed = t.serial := by
  rw [transfer_trailer h.active hxon h.phase]
  unfold trail
  dsimp only
  rw [h.trailer, hlen, if_neg (by decide), if_neg (by decide), if_pos rfl]
  dsimp only
  split_ifs <;> rfl

structure Last (bytes before tail rest : List Byte) : Prop where
  split : bytes = before ++ 0x11 :: (tail ++ rest)
  xon : 0x11 ∉ tail
  complete : Completes tail
  last : ∀ r₀ tail' r₁, rest = r₀ ++ 0x11 :: (tail' ++ r₁) → 0x11 ∉ tail' → ¬ Completes tail'

theorem rest_kept {t : Transfer} (hidle : t.active = false) (rest : List Byte)
    (hnone : ∀ r₀ tail r₁, rest = r₀ ++ 0x11 :: (tail ++ r₁) → 0x11 ∉ tail → ¬ Completes tail) :
    (rest.foldl transferByte t).completed = t.completed := by
  induction rest using List.reverseRecOn with
  | nil => rfl
  | append_singleton rest v ih =>
    have hsofar : (rest.foldl transferByte t).completed = t.completed := by
      apply ih
      intro r₀ tail r₁ heq hxon
      apply hnone r₀ tail (r₁ ++ [v]) _ hxon
      rw [heq]
      simp
    rw [List.foldl_append, List.foldl_cons, List.foldl_nil, ← hsofar]
    apply completed_kept
    by_cases hv : v = 0x11
    · exact Or.inl hv
    rcases since_xon rest with hquiet | ⟨tail, before, rfl, hxon⟩
    · rw [run_idle hidle hquiet]
      exact Or.inr (Or.inl hidle)
    · rw [List.foldl_append, List.foldl_cons]
      have hnext : 0x11 ∉ tail ++ [v] := by
        rw [List.mem_append, not_or, List.mem_singleton]
        exact ⟨hxon, Ne.symm hv⟩
      rcases progress (xon_started (before.foldl transferByte t)) hxon with
        ⟨-, hphase, -⟩ | ⟨cmd, body, tr, k, hparts, hsplit, hshort, htrailing⟩ |
          ⟨cmd, body, tr, more, k, hparts, rfl, hlen⟩
      · exact Or.inr (Or.inr (Or.inl hphase))
      · refine Or.inr (Or.inr (Or.inr fun hsix => ?_))
        have hlen : (tr ++ [v]).length = 7 := by
          rw [List.length_append, List.length_singleton, ← htrailing.trailer, hsix]
        have hwhole : Completes (tail ++ [v]) :=
          ⟨cmd, k, body, tr ++ [v], hparts, by rw [hsplit, record_append], hlen⟩
        exact hnone before (tail ++ [v]) [] (by simp) hnext hwhole
      · have hshort : 0x11 ∉ record cmd k body tr := fun h => hxon (List.mem_append_left _ h)
        exact absurd ⟨cmd, k, body, tr, hparts, rfl, hlen⟩ (hnone before _ (more ++ [v]) (by simp) hshort)

def Alike (tail tail' : List Byte) : Prop :=
  ∃ cmd k body tr cmd' k' body' tr', Parts cmd k body ∧ tail = record cmd k body tr ∧ tr.length = 7 ∧
    ¬ Trailer body tr ∧ Parts cmd' k' body' ∧ tail' = record cmd' k' body' tr' ∧ tr'.length ≤ 6 ∧ ¬ Sound tr' ∧
    checksum body = checksum body'

/-- No record has been begun since the last was completed, or what has come of it makes no difference. -/
def Settled (bytes : List Byte) : Prop :=
  ∀ before tail rest, Last bytes before tail rest →
    0x11 ∉ rest ∨ ∃ tail', SinceXon rest tail' ∧ Alike tail tail'

theorem completed_state {t : Transfer} (hstart : Started t) {tail : List Byte} (hxon : 0x11 ∉ tail)
    (hcomplete : Completes tail) :
    (tail.foldl transferByte t).active = false ∧ (tail.foldl transferByte t).completed = t.serial ∧
      Verdict tail (tail.foldl transferByte t).result (tail.foldl transferByte t).sum := by
  obtain ⟨cmd, k, body, tr, hparts, rfl, hlen⟩ := hcomplete
  obtain ⟨hactive, hsum, hgood, hbad⟩ := run_record hstart hparts hlen hxon
  refine ⟨hactive, ?_, cmd, k, body, tr, hparts, rfl, hlen, hsum, ?_⟩
  · obtain ⟨six, last, rfl⟩ : ∃ six last, tr = six ++ [last] :=
      ⟨tr.dropLast, tr.getLast (List.ne_nil_of_length_eq_add_one hlen), (List.dropLast_append_getLast _).symm⟩
    have hsix : six.length = 6 := by
      rw [List.length_append, List.length_singleton] at hlen
      omega
    have heq : record cmd k body (six ++ [last]) = record cmd k body [] ++ six ++ [last] := by
      rw [← record_append, ← record_append, List.nil_append]
    rw [heq] at hxon ⊢
    rw [List.mem_append, List.mem_append, not_or, not_or] at hxon
    obtain ⟨⟨hbody, hdigits⟩, hlast⟩ := hxon
    have htrailing := run_trailer (run_parts hstart hparts hbody) (by rw [List.nil_append]; omega) hdigits
    rw [List.nil_append] at htrailing
    have hserial : (six.foldl transferByte ((record cmd k body []).foldl transferByte t)).serial = t.serial := by
      rw [serial_run, serial_run, List.count_eq_zero.mpr hbody, List.count_eq_zero.mpr hdigits]
      rfl
    rw [List.foldl_append, List.foldl_append, List.foldl_cons, List.foldl_nil,
      trailing_completes htrailing hsix fun h => hlast (List.mem_singleton.mpr h.symm), hserial]
  · by_cases htrailer : Trailer body tr
    · exact Or.inl ⟨hgood htrailer, htrailer⟩
    · exact Or.inr ⟨hbad htrailer, htrailer⟩

theorem unfinished {rest tail : List Byte} (hsince : SinceXon rest tail)
    (hnone : ∀ r₀ tail' r₁, rest = r₀ ++ 0x11 :: (tail' ++ r₁) → 0x11 ∉ tail' → ¬ Completes tail') (t : Transfer) :
    (rest.foldl transferByte t).result = 0 ∨
      ∃ cmd k body tr, Parts cmd k body ∧ tail = record cmd k body tr ∧ tr.length ≤ 6 ∧
        Trailing (rest.foldl transferByte t) body tr := by
  obtain ⟨before, rfl, hxon⟩ := hsince
  rw [List.foldl_append, List.foldl_cons]
  rcases progress (xon_started (before.foldl transferByte t)) hxon with
    ⟨-, -, hresult⟩ | ⟨cmd, body, tr, k, hparts, hsplit, hshort, htrailing⟩ |
      ⟨cmd, body, tr, more, k, hparts, rfl, hlen⟩
  · exact Or.inl hresult
  · exact Or.inr ⟨cmd, k, body, tr, hparts, hsplit, hshort, htrailing⟩
  · have hshort : 0x11 ∉ record cmd k body tr := fun h => hxon (List.mem_append_left _ h)
    exact absurd ⟨cmd, k, body, tr, hparts, rfl, hlen⟩ (hnone before _ more rfl hshort)

theorem trailing_wrong {t : Transfer} {body tr : List Byte} (h : Trailing t body tr) : t.result ≠ 0 ↔ ¬ Sound tr := by
  rcases h.result with ⟨hr, hs⟩ | ⟨hr, hs⟩
  · exact iff_of_false (fun hne => hne hr) fun hnot => hnot hs
  · exact iff_of_true (by rw [hr]; decide) hs

theorem poll_iff {port : ℕ} {bytes before tail rest : List Byte} (h : Last bytes before tail rest) :
    ((transferResult (send (init port) bytes)).serial = serialOf (before.count 0x11 + 1) ∧
      Verdict tail (transferResult (send (init port) bytes)).result
        (transferResult (send (init port) bytes)).calculated) ↔
      (0x11 ∉ rest ∨ ∃ tail', SinceXon rest tail' ∧ Alike tail tail') := by
  unfold transferResult
  dsimp only
  rw [send_transfer, h.split, List.foldl_append, List.foldl_cons, List.foldl_append]
  have hserial : (transferByte (before.foldl transferByte (init port).transfer) 0x11).serial =
      serialOf (before.count 0x11 + 1) := by
    rw [serial_step, if_pos rfl, serial_run]
    unfold serialOf
    rw [Function.iterate_succ_apply']
    rfl
  obtain ⟨hidle, hnumber, hverdict⟩ :=
    completed_state (xon_started (before.foldl transferByte (init port).transfer)) h.xon h.complete
  rw [hserial] at hnumber
  generalize tail.foldl transferByte (transferByte (before.foldl transferByte (init port).transfer) 0x11) = t
    at hidle hnumber hverdict ⊢
  have hkept := (rest_kept hidle rest h.last).trans hnumber
  rcases since_xon rest with hquiet | ⟨tail', hsince⟩
  · rw [run_idle hidle hquiet]
    exact iff_of_true ⟨hnumber, hverdict⟩ (Or.inl hquiet)
  · have hbegun : ¬ 0x11 ∉ rest := by
      obtain ⟨r₀, rfl, -⟩ := hsince
      simp
    have hstate := unfinished hsince h.last t
    rw [or_iff_right hbegun]
    constructor
    · rintro ⟨-, cmd, k, body, tr, hparts, hsplit, hlen, hsum, hresult⟩
      rcases hstate with hzero | ⟨cmd', k', body', tr', hparts', hsplit', hshort, htrailing⟩
      · rw [hzero] at hresult
        rcases hresult with ⟨hr, -⟩ | ⟨hr, -⟩ <;> exact absurd hr (by decide)
      · have hwrong : ¬ Sound tr' := by
          apply (trailing_wrong htrailing).mp
          rcases hresult with ⟨hr, -⟩ | ⟨hr, -⟩ <;> rw [hr] <;> decide
        have hrefused : ¬ Trailer body tr := by
          rcases hresult with ⟨hr, -⟩ | ⟨-, hnot⟩
          · rcases htrailing.result with ⟨-, hs⟩ | ⟨hr', -⟩
            · exact absurd hs hwrong
            · exact absurd (hr'.symm.trans hr) (by decide)
          · exact hnot
        exact ⟨tail', hsince, cmd, k, body, tr, cmd', k', body', tr', hparts, hsplit, hlen, hrefused, hparts', hsplit',
          hshort, hwrong, hsum.symm.trans htrailing.sum⟩
    · rintro ⟨tail'', hsince', cmd, k, body, tr, cmd', k', body', tr', hparts, hsplit, hlen, hrefused, hparts', rfl,
        hshort, hwrong, hsame⟩
      obtain ⟨r₀, rfl, hxon⟩ := hsince'
      have heq : record cmd' k' body' tr' = record cmd' k' body' [] ++ tr' := by
        rw [← record_append, List.nil_append]
      rw [heq, List.mem_append, not_or] at hxon
      have htrailing := run_trailer (run_parts (xon_started (r₀.foldl transferByte t)) hparts' hxon.1) hshort hxon.2
      rw [List.nil_append, ← List.foldl_append, ← heq] at htrailing
      refine ⟨hkept, cmd, k, body, tr, hparts, hsplit, hlen, ?_, Or.inr ⟨?_, hrefused⟩⟩
      · rw [List.foldl_append, List.foldl_cons, htrailing.sum, hsame]
      · rw [List.foldl_append, List.foldl_cons]
        rcases htrailing.result with ⟨-, hs⟩ | ⟨hr, -⟩
        · exact absurd hs hwrong
        · exact hr

inductive Op where
  | host (val : Byte)
  | poll

def Op.bytes : Op → List Byte
  | .host val => [val]
  | .poll => []

/-- A poll takes a copy and changes nothing. -/
def step (d : Printer) : Op → Printer
  | .host val => write d val
  | .poll => d

theorem run_heard (d : Printer) (ops : List Op) : ops.foldl step d = send d (ops.flatMap Op.bytes) := by
  induction ops generalizing d with
  | nil => rfl
  | cons op ops ih =>
    rw [List.foldl_cons, ih, List.flatMap_cons]
    cases op <;> rfl

/-- Every poll of a run reads what is right of the record completed last. -/
def AllRight (port : ℕ) (ops : List Op) : Prop :=
  ∀ sofar more, ops = sofar ++ .poll :: more →
    ∀ before tail rest, Last (sofar.flatMap Op.bytes) before tail rest →
      let read := transferResult (sofar.foldl step (init port))
      read.serial = serialOf (before.count 0x11 + 1) ∧ Verdict tail read.result read.calculated

/-- In any run the polls read the verdict and the sum of the record whose number they read exactly if each
    comes before another record has been begun, or when that makes no difference. -/
theorem snapshots_iff (port : ℕ) (ops : List Op) :
    AllRight port ops ↔ ∀ sofar more, ops = sofar ++ .poll :: more → Settled (sofar.flatMap Op.bytes) := by
  unfold AllRight Settled
  simp only [run_heard]
  constructor
  · intro h sofar more hops before tail rest hlast
    exact (poll_iff hlast).mp (h sofar more hops before tail rest hlast)
  · intro h sofar more hops before tail rest hlast
    exact (poll_iff hlast).mpr (h sofar more hops before tail rest hlast)

def emptyReport : List Byte := record [0x1B, 0x53, 0x13] 2 [] [0x1B, 0x43, 0x30, 0x30, 0x30, 0x34, 0x16]

def firstRecord : List Op := (0x11 :: emptyReport).map .host

/-- The first record has been accepted, the second begins, and the window polls: number 1 with no result. -/
theorem snapshot_torn :
    ¬ AllRight 1 (firstRecord ++ [Op.host 0x11, Op.poll]) ∧
      (transferResult (firstRecord.foldl step (init 1))).result = 1 ∧
      (transferResult ((firstRecord ++ [Op.host 0x11]).foldl step (init 1))).serial = 1 ∧
      (transferResult ((firstRecord ++ [Op.host 0x11]).foldl step (init 1))).result = 0 := by
  have hresult : (transferResult ((firstRecord ++ [Op.host 0x11]).foldl step (init 1))).result = 0 := by decide +kernel
  refine ⟨fun hright => ?_, by decide +kernel, by decide +kernel, hresult⟩
  have hparts : Parts [0x1B, 0x53, 0x13] 2 [] := ⟨by decide, by decide, Or.inl rfl, by decide⟩
  have hlast : Last ((firstRecord ++ [Op.host 0x11]).flatMap Op.bytes) [] emptyReport [0x11] := by
    refine ⟨rfl, by decide, ⟨_, 2, [], _, hparts, rfl, rfl⟩, ?_⟩
    rintro r₀ tail' r₁ heq - ⟨cmd, k, body, tr, -, rfl, -⟩
    have hlength := congrArg List.length heq
    simp [record] at hlength
    omega
  obtain ⟨-, cmd, k, body, tr, -, -, -, -, hverdict⟩ := hright _ [] (by simp) [] emptyReport [0x11] hlast
  rw [hresult] at hverdict
  rcases hverdict with ⟨hr, -⟩ | ⟨hr, -⟩ <;> exact absurd hr (by decide)

end PeepeeBox.Cp80Snapshots
