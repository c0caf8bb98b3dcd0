import PeepeeBox.DongleDevice

set_option autoImplicit false

/-!
# The identity ramp

Sixty-four writes with a read after each, and what the three machines behind STATUS can
still put on the line in the middle of them.
-/
namespace PeepeeBox.SessionIdentity
open DongleDevice HaspRecord KeyedRound Microwire TraceMachine

/-- Step `a` drives the address on DATA bits 1 to 6, under bit 7 where the session does. -/
def rampByte (hi : Bool) (a : ℕ) : Byte := (if hi then 0x80 else 0x00) + BitVec.ofNat 8 (2 * a)

def rampStep (hi : Bool) (a : ℕ) : List Op := [.data (rampByte hi a), .status]

def rampOps (hi : Bool) (n : ℕ) : List Op := (List.range n).flatMap (rampStep hi)

structure RampByte (hi : Bool) (a : ℕ) : Prop where
  even : rampByte hi a &&& 0x01 = 0
  clear : hi = false → rampByte hi a &&& 0x80 = 0
  address : sessionAddr (rampByte hi a) = a
  start : (rampByte hi a = 0x00 ∨ rampByte hi a = 0x80) ↔ a = 0
  next : rampByte hi (a + 1) = rampByte hi a + 2
  parked : a < 16 → hdSk (rampByte hi a) = false

theorem rampByte_facts (hi : Bool) (a : ℕ) (ha : a < 64) : RampByte hi a := by
  have table : ∀ hi : Bool, ∀ a < 64, rampByte hi a &&& 0x01 = 0 ∧
      (hi = false → rampByte hi a &&& 0x80 = 0) ∧ sessionAddr (rampByte hi a) = a ∧
      ((rampByte hi a = 0x00 ∨ rampByte hi a = 0x80) ↔ a = 0) ∧
      rampByte hi (a + 1) = rampByte hi a + 2 ∧ (a < 16 → hdSk (rampByte hi a) = false) := by
    decide +kernel
  obtain ⟨h₁, h₂, h₃, h₄, h₅, h₆⟩ := table hi a ha
  exact ⟨h₁, h₂, h₃, h₄, h₅, h₆⟩

variable (part : Part)

/-- The device after the first `k` steps, and what it answers at the next one. -/
def rampState (dev : Pp) (k : ℕ) : Pp := (device part).run dev (rampOps part.tSessHi k)

def rampWritten (dev : Pp) (k : ℕ) : Pp :=
  (device part).next (rampState part dev k) (.data (rampByte part.tSessHi k))

def rampAnswer (dev : Pp) (k : ℕ) : Byte := (ppReadStatus part (rampWritten part dev k)).2

theorem rampOps_succ (hi : Bool) (n : ℕ) : rampOps hi (n + 1) = rampOps hi n ++ rampStep hi n := by
  unfold rampOps
  rw [List.range_succ, List.flatMap_append, List.flatMap_singleton]

theorem rampState_succ (dev : Pp) (k : ℕ) :
    rampState part dev (k + 1) = (ppReadStatus part (rampWritten part dev k)).1 := by
  unfold rampState
  rw [rampOps_succ, Machine.run_append]
  rfl

theorem ramp_trace (dev : Pp) (n : ℕ) :
    (device part).trace dev (rampOps part.tSessHi n) = (List.range n).map (rampAnswer part dev) := by
  induction n with
  | zero => rfl
  | succ n ih =>
    rw [rampOps_succ, Machine.trace_append, ih, List.range_succ, List.map_append]
    rfl

/-- What the ramp is to read: the signature, address by address. -/
def rampIdentity : List Byte := (List.range 64).map fun a => hdDo (hdSignature.getLsbD a)

theorem identity_iff (dev : Pp) :
    (device part).trace dev (rampOps part.tSessHi 64) = rampIdentity ↔
      ∀ k < 64, rampAnswer part dev k = hdDo (hdSignature.getLsbD k) := by
  unfold rampIdentity
  rw [ramp_trace, List.map_inj_left]
  constructor
  · intro h k hk
    exact h k (List.mem_range.mpr hk)
  · intro h k hk
    exact h k (List.mem_range.mp hk)

section Session

variable {part}
variable (hsyn : part.tSynthIdent = 0)

include hsyn

theorem session_ramping (hb : BurstCollector.Hb) (hs : Hs) (w : Byte) (hr : hs.ramping = true)
    (hw : w = hs.rampPrev + 2) :
    sessionBit part hb hs w = ({ hs with rampPrev := w, sweep := 0 }, signatureBit w) := by
  unfold sessionBit
  dsimp only
  rw [if_neg (not_not.mpr hsyn), if_pos ⟨hr, hw⟩]

theorem session_start (hb : BurstCollector.Hb) (hs : Hs) (w : Byte) (hw : w = 0x00 ∨ w = 0x80) :
    (sessionBit part hb hs w).1.ramping = true ∧ (sessionBit part hb hs w).1.rampPrev = w ∧
      (sessionBit part hb hs w).2 = signatureBit w := by
  unfold sessionBit
  dsimp only
  rw [if_neg (not_not.mpr hsyn)]
  split_ifs with hramp
  · exact ⟨hramp.1, rfl, rfl⟩
  · exact ⟨rfl, rfl, rfl⟩

theorem session_off (hb : BurstCollector.Hb) (hs : Hs) (w : Byte)
    (hoff : ¬(hs.ramping = true ∧ w = hs.rampPrev + 2)) (hw : ¬(w = 0x00 ∨ w = 0x80)) :
    (sessionBit part hb hs w).1.ramping = false := by
  unfold sessionBit
  dsimp only
  rw [if_neg (not_not.mpr hsyn), if_neg hoff, if_neg hw]
  split_ifs <;> rfl

theorem session_alive (hb : BurstCollector.Hb) (hs : Hs)
    (hoff : ¬(hs.ramping = true ∧ rampByte part.tSessHi 15 = hs.rampPrev + 2)) :
    (sessionBit part hb hs (rampByte part.tSessHi 15)).2 = true := by
  have hsw : (if part.tSessHi = true then rampByte part.tSessHi 15 &&& 0x7F
      else rampByte part.tSessHi 15) = 0x1E := by
    cases part.tSessHi <;> rfl
  have hstart : ¬(rampByte part.tSessHi 15 = 0x00 ∨ rampByte part.tSessHi 15 = 0x80) := by
    cases part.tSessHi <;> decide
  have hsweep : ∀ n < 64, (0x1E : Byte) ≠ hsSweepW.getD n 0 := by
    decide
  unfold sessionBit
  dsimp only
  rw [if_neg (not_not.mpr hsyn), if_neg hoff, if_neg hstart, hsw,
    if_neg (fun hc => hsweep hs.sweep hc.1 hc.2), if_neg (hsweep 0 (by omega)), if_pos rfl]

end Session

structure Release : Prop where
  probe : part.hdProbe = true
  keyed : part.tKey ≠ 0
  ident : part.tSynthIdent = 0

theorem hdKeys_session : ∀ row ∈ hdKeys, row.tkey ≠ 0 ∧ row.synthIdent = 0 := by
  intro row hrow
  unfold hdKeys at hrow
  simp only [List.mem_cons, List.not_mem_nil, or_false] at hrow
  rcases hrow with h | h | h | h | h | h | h | h
  all_goals
    rw [h]
    exact ⟨by decide, rfl⟩

theorem hdRelease_mem (banner : List Byte) : hdRelease banner ∈ hdKeys := by
  unfold hdRelease
  cases hfind : hdReleaseOpt banner with
  | some row =>
    unfold hdReleaseOpt at hfind
    exact List.mem_of_find?_eq_some hfind
  | none => exact List.mem_cons_self

theorem release_initPart (cfg : Config) (hprobe : (initPart cfg).hdProbe = true) :
    Release (initPart cfg) := by
  unfold initPart at hprobe ⊢
  split_ifs at hprobe ⊢
  · obtain ⟨hkey, hident⟩ := hdKeys_session _ (hdRelease_mem cfg.banner)
    exact ⟨rfl, hkey, hident⟩
  · cases hprobe

structure Free (dev : Pp) : Prop where
  pending : dev.t.pending = false
  fresh : dev.t.nrecent = 0
  idle : dev.hd.ph = .idle

theorem idle_write (abits : ℕ) (h : Hd) (v : Byte) (hidle : h.ph = .idle) :
    (hdWriteData abits h v).ph ≠ .read ∧
      (h.ready = false → (hdWriteData abits h v).ready = false) := by
  unfold hdWriteData
  dsimp only
  split_ifs
  · exact ⟨(fun hc => nomatch hc), id⟩
  · unfold hdClock
    rw [hidle]
    dsimp only
    split_ifs
    · exact ⟨(fun hc => nomatch hc), fun _ => rfl⟩
    · exact ⟨by rw [hidle]; decide, id⟩
  · exact ⟨by rw [hidle]; decide, id⟩

theorem parked_write (abits : ℕ) (h : Hd) (v : Byte) (hv : hdSk v = false) :
    (hdWriteData abits h v).ready = h.ready := by
  unfold hdWriteData
  rw [hv]
  dsimp only
  split_ifs with hcs hclock
  · rfl
  · exact absurd hclock.1 (by decide)
  · rfl

structure Written (dev dev' : Pp) (k : ℕ) : Prop where
  keyed : Unclocked part dev.t dev'.t (rampByte part.tSessHi k)
  hs : dev'.hs = dev.hs
  last : dev'.link.lastData = rampByte part.tSessHi k
  hd : dev'.hd = dev.hd ∨ dev'.hd = hdWriteData part.hdAbits dev.hd (rampByte part.tSessHi k)

theorem ppAckEdge_last (l : NibbleLink.Link) (val : Byte) :
    (NibbleLink.ppAckEdge l val).lastData = val := rfl

theorem ramp_write (hrel : Release part) (dev : Pp) (k : ℕ) (hk : k < 64) :
    Written part dev ((device part).next dev (.data (rampByte part.tSessHi k))) k := by
  obtain ⟨-, ht, hhd⟩ := ppWriteData_hasp part dev (rampByte part.tSessHi k) hrel.probe
  have hfacts := rampByte_facts part.tSessHi k hk
  constructor
  · change Unclocked part dev.t (ppWriteData part dev _).t _
    rw [ht]
    unfold haspWrite
    dsimp only
    rw [if_pos hrel.keyed]
    apply tData_unclocked
    cases hhi : part.tSessHi with
    | false =>
      left
      have hclear := hfacts.clear hhi
      rw [hhi] at hclear
      exact hclear
    | true =>
      right
      have heven := hfacts.even
      rw [hhi] at heven
      exact ⟨rose_zero _ _ _ heven, .inl rfl⟩
  · exact ppWriteData_hs part dev _
  · change (ppWriteData part dev _).link.lastData = _
    rw [ppWriteData_link]
    exact ppAckEdge_last _ _
  · change (ppWriteData part dev _).hd = _ ∨ (ppWriteData part dev _).hd = _
    rw [hhd]
    unfold haspWrite
    dsimp only
    split_ifs
    · exact .inr rfl
    · exact .inl rfl

theorem session_read (hrel : Release part) (dev : Pp) (hframe : tFramed part dev.t = none)
    (hpend : dev.t.pending = false) (hph : dev.hd.ph ≠ .read) :
    (ppReadStatus part dev).2 =
        hdDo (dev.hd.ready || (sessionBit part dev.hb dev.hs dev.link.lastData).2) ∧
      (ppReadStatus part dev).1.hs = (sessionBit part dev.hb dev.hs dev.link.lastData).1 ∧
      (ppReadStatus part dev).1.hd.ready = dev.hd.ready ∧
      Free (ppReadStatus part dev).1 := by
  have hquery : tReadQuery part dev.t = (dev.t, none) := by
    unfold tReadQuery
    rw [hframe]
  rw [ppReadStatus_hasp part dev hrel.probe]
  unfold haspStatus
  rw [hquery]
  dsimp only
  rw [if_neg (by rw [hpend]; decide), if_neg hph]
  exact ⟨rfl, rfl, rfl, hpend, rfl, rfl⟩

theorem fresh_unframed (t t' : Keyed) (v : Byte) (h : Unclocked part t t' v)
    (hfresh : t.nrecent = 0) : tFramed part t' = none := by
  have hone : t'.nrecent = 1 := by
    rw [h.nrecent]
    unfold tWindow
    rw [if_pos (.inl hfresh), hfresh]
    rfl
  unfold tFramed
  dsimp only
  rw [if_pos]
  right
  right
  omega

theorem free_step (hrel : Release part) (dev : Pp) (k : ℕ) (hk : k < 64)
    (h : Free (rampState part dev k)) :
    let dev' := rampWritten part dev k
    let bit := sessionBit part dev'.hb (rampState part dev k).hs (rampByte part.tSessHi k)
    rampAnswer part dev k = hdDo (dev'.hd.ready || bit.2) ∧
      (rampState part dev (k + 1)).hs = bit.1 ∧
      (rampState part dev (k + 1)).hd.ready = dev'.hd.ready ∧
      Free (rampState part dev (k + 1)) := by
  intro dev' bit
  have hw : Written part (rampState part dev k) dev' k := ramp_write part hrel _ k hk
  have hpend : dev'.t.pending = false := by
    rw [hw.keyed.pending, h.pending]
    split_ifs <;> rfl
  have hph : dev'.hd.ph ≠ .read := by
    rcases hw.hd with hhd | hhd
    · rw [hhd, h.idle]
      decide
    · rw [hhd]
      exact (idle_write _ _ _ h.idle).1
  obtain ⟨hans, hhs, hready, hfree⟩ := session_read part hrel dev'
    (fresh_unframed part _ _ _ hw.keyed h.fresh) hpend hph
  rw [hw.hs, hw.last] at hans hhs
  rw [rampState_succ]
  exact ⟨hans, hhs, hready, hfree⟩

theorem step_ready (hrel : Release part) (dev : Pp) (k : ℕ) (hk : k < 64)
    (h : Free (rampState part dev k)) :
    ((rampState part dev k).hd.ready = false → (rampWritten part dev k).hd.ready = false) ∧
      (k < 16 → (rampWritten part dev k).hd.ready = (rampState part dev k).hd.ready) := by
  have hw : Written part (rampState part dev k) (rampWritten part dev k) k :=
    ramp_write part hrel _ k hk
  rcases hw.hd with hhd | hhd
  · rw [hhd]
    exact ⟨id, fun _ => rfl⟩
  · rw [hhd]
    exact ⟨(idle_write _ _ _ h.idle).2,
      fun h16 => parked_write _ _ _ ((rampByte_facts part.tSessHi k hk).parked h16)⟩

theorem hdDo_inj {b b' : Bool} (h : hdDo b = hdDo b') : b = b' := by
  cases b <;> cases b' <;> first | rfl | exact absurd h (by decide)

theorem free_run (hrel : Release part) (dev : Pp) (h : Free (rampState part dev 1)) (k : ℕ)
    (hk : k < 64) : Free (rampState part dev (k + 1)) := by
  induction k with
  | zero => exact h
  | succ k ih => exact (free_step part hrel dev (k + 1) hk (ih (by omega))).2.2.2

structure OnRamp (dev : Pp) (k : ℕ) : Prop where
  free : Free (rampState part dev (k + 1))
  busy : (rampState part dev (k + 1)).hd.ready = false
  ramping : (rampState part dev (k + 1)).hs.ramping = true
  prev : (rampState part dev (k + 1)).hs.rampPrev = rampByte part.tSessHi k

theorem onRamp_step (hrel : Release part) (dev : Pp) (k : ℕ) (hk : k + 1 < 64)
    (h : OnRamp part dev k) :
    rampAnswer part dev (k + 1) = hdDo (hdSignature.getLsbD (k + 1)) ∧ OnRamp part dev (k + 1) := by
  obtain ⟨hans, hhs, hready, hfree⟩ := free_step part hrel dev (k + 1) hk h.free
  have hbusy := (step_ready part hrel dev (k + 1) hk h.free).1 h.busy
  have hnext : rampByte part.tSessHi (k + 1) = (rampState part dev (k + 1)).hs.rampPrev + 2 := by
    rw [h.prev]
    exact (rampByte_facts part.tSessHi k (by omega)).next
  rw [session_ramping hrel.ident _ _ _ h.ramping hnext] at hans hhs
  constructor
  · rw [hans, hbusy]
    change hdDo (hdSignature.getLsbD (sessionAddr _)) = _
    rw [(rampByte_facts part.tSessHi (k + 1) hk).address]
  · exact ⟨hfree, by rw [hready, hbusy], by rw [hhs]; exact h.ramping, by rw [hhs]⟩

theorem onRamp_run (hrel : Release part) (dev : Pp) (h : OnRamp part dev 0) (k : ℕ)
    (hk : k < 64) : OnRamp part dev k := by
  induction k with
  | zero => exact h
  | succ k ih => exact (onRamp_step part hrel dev k hk (ih (by omega))).2

theorem ready_shows (hrel : Release part) (dev : Pp) (h : Free (rampState part dev 1))
    (hready : (rampState part dev 1).hd.ready = true) :
    rampAnswer part dev 2 ≠ hdDo (hdSignature.getLsbD 2) := by
  have h₂ := free_run part hrel dev h 1 (by omega)
  obtain ⟨-, -, hkeep₁, -⟩ := free_step part hrel dev 1 (by omega) h
  obtain ⟨hans, -, -, -⟩ := free_step part hrel dev 2 (by omega) h₂
  have hstay₁ := (step_ready part hrel dev 1 (by omega) h).2 (by omega)
  have hstay₂ := (step_ready part hrel dev 2 (by omega) h₂).2 (by omega)
  rw [hans, hstay₂, hkeep₁, hstay₁, hready, Bool.true_or]
  intro hc
  exact absurd (hdDo_inj hc) (by decide)

theorem probe_shows (hrel : Release part) (dev : Pp) (h : Free (rampState part dev 1))
    (hoff : ¬((rampState part dev 1).hs.ramping = true ∧
      (rampState part dev 1).hs.rampPrev = rampByte part.tSessHi 0)) :
    rampAnswer part dev 15 ≠ hdDo (hdSignature.getLsbD 15) := by
  have stalled : ∀ j, j ≤ 13 → (rampState part dev (j + 2)).hs.ramping = false := by
    intro j
    induction j with
    | zero =>
      intro _
      obtain ⟨-, hhs, -, -⟩ := free_step part hrel dev 1 (by omega) h
      rw [hhs]
      apply session_off hrel.ident
      · intro hc
        apply hoff
        refine ⟨hc.1, ?_⟩
        have hnext := (rampByte_facts part.tSessHi 0 (by omega)).next
        exact (BitVec.add_left_inj 2).mp (hc.2.symm.trans hnext)
      · intro hc
        exact absurd ((rampByte_facts part.tSessHi 1 (by omega)).start.mp hc) (by omega)
    | succ j ih =>
      intro hj
      have hlast := ih (by omega)
      have hfree := free_run part hrel dev h (j + 1) (by omega)
      obtain ⟨-, hhs, -, -⟩ := free_step part hrel dev (j + 2) (by omega) hfree
      rw [hhs]
      apply session_off hrel.ident
      · intro hc
        rw [hlast] at hc
        exact absurd hc.1 (by decide)
      · intro hc
        exact absurd ((rampByte_facts part.tSessHi (j + 2) (by omega)).start.mp hc) (by omega)
  obtain ⟨hans, -, -, -⟩ := free_step part hrel dev 15 (by omega)
    (free_run part hrel dev h 14 (by omega))
  rw [hans, session_alive hrel.ident]
  · intro hc
    rw [Bool.or_true] at hc
    exact absurd (hdDo_inj hc) (by decide)
  · intro hc
    rw [stalled 13 (by omega)] at hc
    exact absurd hc.1 (by decide)

theorem rest_of_ramp (hrel : Release part) (dev : Pp) (h : Free (rampState part dev 1)) :
    (∀ k, 1 ≤ k → k < 64 → rampAnswer part dev k = hdDo (hdSignature.getLsbD k)) ↔
      (rampState part dev 1).hd.ready = false ∧ (rampState part dev 1).hs.ramping = true ∧
        (rampState part dev 1).hs.rampPrev = rampByte part.tSessHi 0 := by
  constructor
  · intro hall
    refine ⟨?_, ?_⟩
    · cases hready : (rampState part dev 1).hd.ready with
      | false => rfl
      | true => exact absurd (hall 2 (by omega) (by omega)) (ready_shows part hrel dev h hready)
    · by_contra hoff
      exact probe_shows part hrel dev h hoff (hall 15 (by omega) (by omega))
  · intro hstart k hk h64
    obtain ⟨hbusy, hramp, hprev⟩ := hstart
    obtain ⟨j, hj⟩ : ∃ j, k = j + 1 := ⟨k - 1, by omega⟩
    rw [hj]
    exact (onRamp_step part hrel dev j (by omega)
      (onRamp_run part hrel dev ⟨h, hbusy, hramp, hprev⟩ j (by omega))).1

/-- The unread writes are one short of the query 80, 90, 80, or are that query. -/
def OpensQuery (t : Keyed) : Prop :=
  2 ≤ t.nrecent ∧ t.recent 1 = 0x80 ∧ t.recent 2 = 0x90 ∨
    3 ≤ t.nrecent ∧ t.recent 0 = 0x80 ∧ t.recent 1 = 0x90 ∧ t.recent 2 = 0x80

instance (t : Keyed) : Decidable (OpensQuery t) := inferInstanceAs (Decidable (_ ∨ _))

theorem window_opens (t : Keyed) :
    3 ≤ (tWindow t 0x80).nrecent ∧ (tWindow t 0x80).recent 0 = 0x80 ∧
      (tWindow t 0x80).recent 1 = 0x90 ↔ OpensQuery t := by
  unfold tWindow OpensQuery
  by_cases hslide : t.nrecent = 0 ∨ t.recent 2 ≠ 0x80
  · rw [if_pos hslide]
    have hcount : 3 ≤ (if t.nrecent < 3 then t.nrecent + 1 else t.nrecent) ↔ 2 ≤ t.nrecent := by
      split_ifs <;> omega
    constructor
    · intro h
      exact .inl ⟨hcount.mp h.1, h.2.1, h.2.2⟩
    · intro h
      rcases h with h | h
      · exact ⟨hcount.mpr h.1, h.2.1, h.2.2⟩
      · rcases hslide with hzero | hne
        · omega
        · exact absurd h.2.2.2 hne
  · rw [if_neg hslide]
    rw [not_or, not_not] at hslide
    constructor
    · intro h
      exact .inr ⟨h.1, h.2.1, h.2.2, hslide.2⟩
    · intro h
      rcases h with h | h
      · rw [hslide.2] at h
        exact absurd h.2.2 (by decide)
      · exact ⟨h.1, h.2.1, h.2.2.1⟩

theorem first_frame (hrel : Release part) (t t' : Keyed)
    (h : Unclocked part t t' (rampByte part.tSessHi 0)) :
    tFramed part t' =
      if part.tSessHi = true ∧ OpensQuery t then some 0x90 else none := by
  cases hhi : part.tSessHi with
  | false =>
    cases hframe : tFramed part t' with
    | none => exact (if_neg fun hc => absurd hc.1 (by decide)).symm
    | some q =>
      obtain ⟨⟨hc, -⟩, -⟩ := (tFramed_some_iff part t' q).mp hframe
      rw [hhi] at hc
      cases hc
  | true =>
    have hbyte : rampByte part.tSessHi 0 = 0x80 := by
      rw [hhi]
      rfl
    rw [hbyte] at h
    by_cases hopen : OpensQuery t
    · obtain ⟨hthree, hfirst, hmid⟩ := (window_opens t).mpr hopen
      rw [if_pos ⟨rfl, hopen⟩, tFramed_some_iff, h.recent, h.nrecent, tWindow_newest, hfirst, hmid]
      exact ⟨⟨hhi, hrel.keyed, hthree⟩, ⟨rfl, rfl⟩, ⟨by decide, rfl⟩, rfl⟩
    · rw [if_neg fun hc => hopen hc.2]
      cases hframe : tFramed part t' with
      | none => rfl
      | some q =>
        obtain ⟨⟨-, -, hthree⟩, ⟨hends, hmid⟩, -, -⟩ := (tFramed_some_iff part t' q).mp hframe
        rw [h.recent, tWindow_newest] at hends
        rw [h.recent, ← hends] at hmid
        rw [h.nrecent] at hthree
        exact absurd ((window_opens t).mp ⟨hthree, hends.symm, hmid⟩) hopen

theorem query_bit (key : BitVec 32) (mode : ℕ) (cur : BitVec 32) :
    (registerStep key mode cur 0x90).2 = (cur.getLsbD 10 ^^ key.getLsbD 0) := by
  have hbit : ∀ x : BitVec 32, decide (x &&& 1 ≠ 0) = x.getLsbD 0 := by
    intro x
    change decide (x &&& 1#32 ≠ 0#32) = _
    rw [BitVec.and_one_eq_setWidth_ofBool_getLsbD]
    cases x.getLsbD 0 <;> rfl
  have hindex : queryIndex 0x90 = 0 := rfl
  unfold registerStep
  dsimp only
  rw [hindex, hbit]
  simp

theorem held_read (hrel : Release part) (dev : Pp) (hlow : part.tSessHi = false)
    (hframe : tFramed part dev.t = none) (hpend : dev.t.pending = true) (hph : dev.hd.ph = .idle) :
    (ppReadStatus part dev).2 = hdDo dev.t.ans ∧ (ppReadStatus part dev).1.hs = dev.hs ∧
      (ppReadStatus part dev).1.hd.ready = dev.hd.ready ∧ Free (ppReadStatus part dev).1 := by
  have hquery : tReadQuery part dev.t = (dev.t, none) := by
    unfold tReadQuery
    rw [hframe]
  rw [ppReadStatus_hasp part dev hrel.probe]
  unfold haspStatus
  rw [hquery]
  dsimp only
  rw [if_pos hpend]
  exact ⟨rfl, rfl, rfl, hlow, rfl, hph⟩

theorem query_read (hrel : Release part) (dev : Pp) (q : Byte)
    (hframe : tFramed part dev.t = some q) (hpend : dev.t.pending = false) :
    (ppReadStatus part dev).2 = hdDo (registerStep part.tKey dev.t.mode dev.t.cur q).2 ∧
      (ppReadStatus part dev).1.hs = dev.hs ∧
      (ppReadStatus part dev).1.hd.ready = dev.hd.ready ∧ Free (ppReadStatus part dev).1 := by
  have hquery : tReadQuery part dev.t =
      ((tAnswer part dev.t q).1, some (tAnswer part dev.t q).2) := by
    unfold tReadQuery
    rw [hframe]
  rw [ppReadStatus_hasp part dev hrel.probe]
  unfold haspStatus
  rw [hquery]
  exact ⟨rfl, rfl, rfl, hpend, rfl, rfl⟩

theorem reading_read (hrel : Release part) (dev : Pp) (hframe : tFramed part dev.t = none)
    (hpend : dev.t.pending = false) (hph : dev.hd.ph = .read) :
    ppReadStatus part dev = ({ dev with t := { dev.t with nrecent := 0 } }, hdDo dev.hd.dout) := by
  have hquery : tReadQuery part dev.t = (dev.t, none) := by
    unfold tReadQuery
    rw [hframe]
  rw [ppReadStatus_hasp part dev hrel.probe]
  unfold haspStatus
  rw [hquery]
  dsimp only
  rw [if_neg (by rw [hpend]; decide), if_pos hph]

theorem high_write_hd (hrel : Release part) (dev : Pp) (k : ℕ) (hk : k < 2)
    (hhi : part.tSessHi = true) : (rampWritten part dev k).hd = (rampState part dev k).hd := by
  obtain ⟨-, -, hhd⟩ := ppWriteData_hasp part (rampState part dev k) (rampByte part.tSessHi k)
    hrel.probe
  have hblind : hdSees part (rampByte part.tSessHi k) = false := by
    have hbytes : ∀ k < 2, rampByte true k &&& 0x80 ≠ 0 ∧ rampByte true k &&& 0x1C ≠ 0x1C := by
      decide
    obtain ⟨htop, hmid⟩ := hbytes k hk
    unfold hdSees
    rw [hhi, hrel.ident, decide_eq_false htop, decide_eq_false hmid]
    rfl
  change (ppWriteData part _ _).hd = _
  rw [hhd]
  unfold haspWrite
  dsimp only
  rw [hblind]
  rfl

theorem low_write_hd (hrel : Release part) (dev : Pp) (hlow : part.tSessHi = false) :
    (rampWritten part dev 0).hd = { dev.hd with ph := .idle, n := 0, sk := false } := by
  obtain ⟨-, -, hhd⟩ := ppWriteData_hasp part dev (rampByte part.tSessHi 0) hrel.probe
  change (ppWriteData part dev _).hd = _
  rw [hhd]
  unfold haspWrite hdSees
  rw [hlow]
  rfl

theorem reading_shows (hrel : Release part) (dev : Pp) (hhi : part.tSessHi = true)
    (hpend : dev.t.pending = false) (hopen : ¬OpensQuery dev.t) (hph : dev.hd.ph = .read) :
    ¬(rampAnswer part dev 0 = hdDo (hdSignature.getLsbD 0) ∧
      rampAnswer part dev 1 = hdDo (hdSignature.getLsbD 1)) := by
  have hw₀ : Written part dev (rampWritten part dev 0) 0 := ramp_write part hrel dev 0 (by omega)
  have hpend₀ : (rampWritten part dev 0).t.pending = false := by
    rw [hw₀.keyed.pending, hpend]
    split_ifs <;> rfl
  have hframe₀ : tFramed part (rampWritten part dev 0).t = none := by
    rw [first_frame part hrel dev.t _ hw₀.keyed]
    exact if_neg fun hc => hopen hc.2
  have hhd₀ : (rampWritten part dev 0).hd = dev.hd := high_write_hd part hrel dev 0 (by omega) hhi
  have hread₀ := reading_read part hrel _ hframe₀ hpend₀ (by rw [hhd₀]; exact hph)
  have hans₀ : rampAnswer part dev 0 = hdDo dev.hd.dout := by
    unfold rampAnswer
    rw [hread₀, hhd₀]
  have hst := rampState_succ part dev 0
  rw [hread₀] at hst
  have hw₁ : Written part (rampState part dev 1) (rampWritten part dev 1) 1 :=
    ramp_write part hrel _ 1 (by omega)
  have hpend₁ : (rampWritten part dev 1).t.pending = false := by
    rw [hw₁.keyed.pending, hst]
    change (if _ then false else (rampWritten part dev 0).t.pending) = false
    rw [hpend₀]
    split_ifs <;> rfl
  have hframe₁ := fresh_unframed part _ _ _ hw₁.keyed (by rw [hst])
  have hhd₁ : (rampWritten part dev 1).hd = dev.hd := by
    rw [high_write_hd part hrel dev 1 (by omega) hhi, hst]
    exact hhd₀
  have hans₁ : rampAnswer part dev 1 = hdDo dev.hd.dout := by
    unfold rampAnswer
    rw [reading_read part hrel _ hframe₁ hpend₁ (by rw [hhd₁]; exact hph), hhd₁]
  intro h
  have h₀ := hdDo_inj (hans₀.symm.trans h.1)
  have h₁ := hdDo_inj (hans₁.symm.trans h.2)
  rw [h₀] at h₁
  exact absurd h₁ (by decide)

/-- Nothing left over reaches the ramp: the part does not owe a ready answer, and what holds
    the line at address 0, if anything does, agrees with the signature and leaves a ramp
    running that address 1 continues. -/
structure Unencumbered (dev : Pp) : Prop where
  busy : dev.hd.ready = false
  held : part.tSessHi = false → dev.t.pending = true →
    dev.t.ans = false ∧ dev.hs.ramping = true ∧ dev.hs.rampPrev = 0x00
  query : part.tSessHi = true → OpensQuery dev.t →
    dev.t.cur.getLsbD 10 = part.tKey.getLsbD 0 ∧ dev.hs.ramping = true ∧ dev.hs.rampPrev = 0x80
  reading : part.tSessHi = true → ¬OpensQuery dev.t → dev.hd.ph ≠ .read

theorem split_first (P : ℕ → Prop) :
    (∀ k < 64, P k) ↔ P 0 ∧ ∀ k, 1 ≤ k → k < 64 → P k := by
  constructor
  · intro h
    exact ⟨h 0 (by omega), fun k _ hk => h k hk⟩
  · intro h k hk
    by_cases hzero : k = 0
    · rw [hzero]
      exact h.1
    · exact h.2 k (by omega) hk

theorem session_first (hrel : Release part) (dev : Pp)
    (hframe : tFramed part (rampWritten part dev 0).t = none)
    (hpend : (rampWritten part dev 0).t.pending = false)
    (hph : (rampWritten part dev 0).hd.ph ≠ .read)
    (hready : (rampWritten part dev 0).hd.ready = dev.hd.ready) :
    (∀ k < 64, rampAnswer part dev k = hdDo (hdSignature.getLsbD k)) ↔ dev.hd.ready = false := by
  have hw : Written part dev (rampWritten part dev 0) 0 := ramp_write part hrel dev 0 (by omega)
  have hfacts := rampByte_facts part.tSessHi 0 (by omega)
  obtain ⟨hans, hhs, hkeep, hfree⟩ := session_read part hrel _ hframe hpend hph
  rw [hw.hs, hw.last] at hans hhs
  rw [← rampState_succ] at hhs hkeep hfree
  obtain ⟨hramp, hprev, hbit⟩ := session_start hrel.ident (rampWritten part dev 0).hb dev.hs
    (rampByte part.tSessHi 0) (hfacts.start.mpr rfl)
  rw [split_first, rest_of_ramp part hrel dev hfree, hkeep, hready, hhs]
  constructor
  · intro h
    exact h.2.1
  · intro h
    refine ⟨?_, h, hramp, hprev⟩
    change (ppReadStatus part (rampWritten part dev 0)).2 = _
    rw [hans, hready, h, hbit]
    change hdDo (hdSignature.getLsbD (sessionAddr _)) = _
    rw [hfacts.address]

theorem other_first (hrel : Release part) (dev : Pp) (bit : Bool)
    (hans : (ppReadStatus part (rampWritten part dev 0)).2 = hdDo bit)
    (hhs : (ppReadStatus part (rampWritten part dev 0)).1.hs = dev.hs)
    (hkeep : (ppReadStatus part (rampWritten part dev 0)).1.hd.ready = dev.hd.ready)
    (hfree : Free (ppReadStatus part (rampWritten part dev 0)).1) :
    (∀ k < 64, rampAnswer part dev k = hdDo (hdSignature.getLsbD k)) ↔
      bit = false ∧ dev.hd.ready = false ∧ dev.hs.ramping = true ∧
        dev.hs.rampPrev = rampByte part.tSessHi 0 := by
  rw [← rampState_succ] at hhs hkeep hfree
  rw [split_first, rest_of_ramp part hrel dev hfree, hkeep, hhs]
  have hzero : rampAnswer part dev 0 = hdDo (hdSignature.getLsbD 0) ↔ bit = false := by
    change (ppReadStatus part (rampWritten part dev 0)).2 = _ ↔ _
    rw [hans]
    constructor
    · exact fun h => hdDo_inj h
    · intro h
      rw [h]
      rfl
  rw [hzero]

theorem low_ramp_iff (hrel : Release part) (dev : Pp) (hlow : part.tSessHi = false) :
    (∀ k < 64, rampAnswer part dev k = hdDo (hdSignature.getLsbD k)) ↔ Unencumbered part dev := by
  have hw : Written part dev (rampWritten part dev 0) 0 := ramp_write part hrel dev 0 (by omega)
  have hnothi : ¬part.tSessHi = true := by
    rw [hlow]
    decide
  have hframe : tFramed part (rampWritten part dev 0).t = none := by
    rw [first_frame part hrel dev.t _ hw.keyed]
    exact if_neg fun hc => hnothi hc.1
  have hpend : (rampWritten part dev 0).t.pending = dev.t.pending := by
    rw [hw.keyed.pending]
    exact if_neg fun hc => hnothi hc.1
  have hhd := low_write_hd part hrel dev hlow
  have hbyte : rampByte part.tSessHi 0 = 0x00 := by
    rw [hlow]
    rfl
  cases hheld : dev.t.pending with
  | false =>
    rw [session_first part hrel dev hframe (hpend.trans hheld) (by rw [hhd]; exact fun hc => nomatch hc)
      (by rw [hhd])]
    constructor
    · intro h
      refine ⟨h, ?_, fun hc => absurd hc hnothi, fun hc => absurd hc hnothi⟩
      intro _ hc
      rw [hheld] at hc
      cases hc
    · exact fun h => h.busy
  | true =>
    obtain ⟨hans, hhs, hkeep, hfree⟩ := held_read part hrel _ hlow hframe (hpend.trans hheld)
      (by rw [hhd])
    rw [hw.keyed.ans] at hans
    rw [hw.hs] at hhs
    rw [other_first part hrel dev dev.t.ans hans hhs (by rw [hkeep, hhd]) hfree, hbyte]
    constructor
    · intro h
      exact ⟨h.2.1, fun _ _ => ⟨h.1, h.2.2⟩, fun hc => absurd hc hnothi, fun hc => absurd hc hnothi⟩
    · intro h
      obtain ⟨hfalse, hramp⟩ := h.held hlow hheld
      exact ⟨hfalse, h.busy, hramp⟩

theorem high_ramp_iff (hrel : Release part) (dev : Pp) (hhi : part.tSessHi = true)
    (hheld : dev.t.pending = false) :
    (∀ k < 64, rampAnswer part dev k = hdDo (hdSignature.getLsbD k)) ↔ Unencumbered part dev := by
  have hw : Written part dev (rampWritten part dev 0) 0 := ramp_write part hrel dev 0 (by omega)
  have hframe := first_frame part hrel dev.t _ hw.keyed
  have hpend : (rampWritten part dev 0).t.pending = false := by
    rw [hw.keyed.pending, hheld]
    split_ifs <;> rfl
  have hhd : (rampWritten part dev 0).hd = dev.hd := high_write_hd part hrel dev 0 (by omega) hhi
  have hbyte : rampByte part.tSessHi 0 = 0x80 := by
    rw [hhi]
    rfl
  have noHeld : part.tSessHi = false → dev.t.pending = true →
      dev.t.ans = false ∧ dev.hs.ramping = true ∧ dev.hs.rampPrev = 0x00 := by
    intro _ hc
    rw [hheld] at hc
    cases hc
  by_cases hopen : OpensQuery dev.t
  · rw [if_pos ⟨hhi, hopen⟩] at hframe
    obtain ⟨hans, hhs, hkeep, hfree⟩ := query_read part hrel _ 0x90 hframe hpend
    rw [hw.keyed.mode, hw.keyed.cur, query_bit] at hans
    rw [hw.hs] at hhs
    rw [other_first part hrel dev _ hans hhs (by rw [hkeep, hhd]) hfree, hbyte]
    have hxor : (dev.t.cur.getLsbD 10 ^^ part.tKey.getLsbD 0) = false ↔
        dev.t.cur.getLsbD 10 = part.tKey.getLsbD 0 := by
      cases dev.t.cur.getLsbD 10 <;> cases part.tKey.getLsbD 0 <;> decide
    rw [hxor]
    constructor
    · intro h
      exact ⟨h.2.1, noHeld, fun _ _ => ⟨h.1, h.2.2⟩, fun _ hc => absurd hopen hc⟩
    · intro h
      obtain ⟨hbit, hramp⟩ := h.query hhi hopen
      exact ⟨hbit, h.busy, hramp⟩
  · rw [if_neg fun hc => hopen hc.2] at hframe
    by_cases hph : dev.hd.ph = .read
    · constructor
      · intro h
        exact absurd ⟨h 0 (by omega), h 1 (by omega)⟩
          (reading_shows part hrel dev hhi hheld hopen hph)
      · intro h
        exact absurd hph (h.reading hhi hopen)
    · rw [session_first part hrel dev hframe hpend (by rw [hhd]; exact hph) (by rw [hhd])]
      constructor
      · intro h
        exact ⟨h, noHeld, fun _ hc => absurd hc hopen, fun _ _ => hph⟩
      · exact fun h => h.busy

theorem devStep_held (dev : Pp) (op : Op) (hhi : part.tSessHi = true)
    (h : dev.t.pending = false) : ((device part).next dev op).t.pending = false := by
  cases op with
  | data val =>
    change (ppWriteData part dev val).t.pending = false
    cases hp : part.hdProbe with
    | false => rw [(ppWriteData_bare part dev val hp).2.1, h]
    | true =>
      rw [(ppWriteData_hasp part dev val hp).2.1]
      unfold haspWrite
      dsimp only
      split_ifs
      · exact tData_held part dev.t val hhi h
      · exact h
  | ctrl val => exact h
  | strobe old val => exact h
  | status =>
    change (ppReadStatus part dev).1.t.pending = false
    cases hp : part.hdProbe with
    | false =>
      cases ha : dev.cd.active with
      | true => rw [ppReadStatus_token part dev hp ha, h]
      | false => rw [ppReadStatus_queue part dev hp ha, h]
    | true =>
      rw [ppReadStatus_hasp part dev hp]
      unfold haspStatus tReadQuery
      cases tFramed part dev.t with
      | some q => exact h
      | none =>
        dsimp only
        rw [if_neg (by rw [h]; decide)]
        split_ifs <;> exact h
  | latch val => exact h

theorem reached_held (cfg : Config) (hist : List Op) (hhi : part.tSessHi = true) :
    ((device part).run (ppInit cfg) hist).t.pending = false :=
  (device part).run_invariant (fun dev op h => devStep_held part dev op hhi h) rfl hist

/-- On every release and after every history, the ramp reads as the signature exactly when
    the state it starts from is unencumbered. -/
theorem identity_ramp (cfg : Config) (hprobe : (initPart cfg).hdProbe = true) (hist : List Op) :
    let dev := (device (initPart cfg)).run (ppInit cfg) hist
    (device (initPart cfg)).trace dev (rampOps (initPart cfg).tSessHi 64) = rampIdentity ↔
      Unencumbered (initPart cfg) dev := by
  intro dev
  have hrel := release_initPart cfg hprobe
  rw [identity_iff]
  cases hhi : (initPart cfg).tSessHi with
  | false => exact low_ramp_iff (initPart cfg) hrel dev hhi
  | true => exact high_ramp_iff (initPart cfg) hrel dev hhi (reached_held (initPart cfg) cfg hist hhi)

/-- A fresh I.G.O. 2 part is unencumbered. -/
theorem identity_ramp_fresh :
    (device (initPart (detected "Version 2002 (DE)"))).trace
        (ppInit (detected "Version 2002 (DE)")) (rampOps false 64) = rampIdentity := by
  have h := identity_ramp (detected "Version 2002 (DE)") (by decide +kernel) []
  have hlow : (initPart (detected "Version 2002 (DE)")).tSessHi = false := by decide +kernel
  rw [hlow] at h
  apply h.mpr
  refine ⟨rfl, ?_, ?_, ?_⟩
  · intro _ hc
    cases hc
  · intro hc
    rw [hlow] at hc
    cases hc
  · intro hc
    rw [hlow] at hc
    cases hc

/-- A query nobody read: its answer is still held when the ramp's first address, a write
    with bit 7 clear, is read back. -/
theorem held_ramp :
    (device (initPart (detected "Version 2002 (DE)"))).trace
        ((device (initPart (detected "Version 2002 (DE)"))).run
          (ppInit (detected "Version 2002 (DE)")) [.data 0x80, .data 0x90, .data 0x80])
        (rampOps (initPart (detected "Version 2002 (DE)")).tSessHi 64) ≠ rampIdentity := by
  decide +kernel

end PeepeeBox.SessionIdentity
