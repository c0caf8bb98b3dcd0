import PeepeeBox.CdongleTransport
import PeepeeBox.DongleDevice
import PeepeeBox.TraceMachine

set_option autoImplicit false

/-!
# One round, two framings

A round of queries is answered on the bit-4 edge or at the read, and the answers are the
same: repeated writes are not seen, and each query steps the register once either way.
-/
namespace PeepeeBox.KeyedQueryAgreement
open BurstCollector CdongleTransport DongleDevice KeyedRound Microwire TraceMachine

structure SameLine (dev dev' : Pp) : Prop where
  t : dev'.t = dev.t
  hd : dev'.hd = dev.hd
  hs : dev'.hs = dev.hs
  hb : dev'.hb = dev.hb
  last : dev'.link.lastData = dev.link.lastData

theorem SameLine.refl (dev : Pp) : SameLine dev dev := ⟨rfl, rfl, rfl, rfl, rfl⟩

theorem SameLine.symm {a b : Pp} (h : SameLine a b) : SameLine b a :=
  ⟨h.t.symm, h.hd.symm, h.hs.symm, h.hb.symm, h.last.symm⟩

theorem SameLine.trans {a b c : Pp} (h : SameLine a b) (h' : SameLine b c) : SameLine a c :=
  ⟨h'.t.trans h.t, h'.hd.trans h.hd, h'.hs.trans h.hs, h'.hb.trans h.hb, h'.last.trans h.last⟩

def keyedWrite (part : Part) (t : Keyed) (v : Byte) : Keyed :=
  if part.tKey ≠ 0 then tData part t v else t

def decoderWrite (part : Part) (h : Hd) (v : Byte) : Hd :=
  if hdSees part v then hdWriteData part.hdAbits h v else h

def burstWrite (part : Part) (h : Hb) (v : Byte) : Hb :=
  if part.hbGate then hbData part.hbPw h v else h

variable (part : Part)

theorem data_next (hp : part.hdProbe = true) (dev : Pp) (v : Byte) :
    let dev' := (device part).next dev (.data v)
    dev'.t = keyedWrite part dev.t v ∧ dev'.hd = decoderWrite part dev.hd v ∧ dev'.hs = dev.hs ∧
      dev'.hb = burstWrite part dev.hb v ∧ dev'.link.lastData = v := by
  intro dev'
  obtain ⟨hb, ht, hhd⟩ := ppWriteData_hasp part dev v hp
  refine ⟨ht, hhd, ppWriteData_hs part dev v, hb, ?_⟩
  change (ppWriteData part dev v).link.lastData = v
  rw [ppWriteData_link]
  rfl

theorem haspStatus_same (dev dev' : Pp) (h : SameLine dev dev') :
    (haspStatus part dev').2 = (haspStatus part dev).2 ∧
      SameLine (haspStatus part dev).1 (haspStatus part dev').1 := by
  unfold haspStatus
  rw [h.t]
  dsimp only
  split
  · exact ⟨rfl, rfl, by rw [h.hd], h.hs, h.hb, h.last⟩
  · split_ifs with hpend hread hread'
    · exact ⟨rfl, rfl, h.hd, h.hs, h.hb, h.last⟩
    · exact ⟨by rw [h.hd], rfl, h.hd, h.hs, h.hb, h.last⟩
    · rw [h.hd] at hread
      exact absurd hread hread'
    · rw [h.hd] at hread
      exact absurd ‹_› hread
    · exact ⟨by rw [h.hd, h.hs, h.hb, h.last], rfl, by rw [h.hd], by rw [h.hs, h.hb, h.last], h.hb,
        h.last⟩

theorem line_simulates (hp : part.hdProbe = true) :
    Simulation (device part) (device part) Plain SameLine := by
  constructor
  · intro dev dev' op hop h
    rcases hop with hop | ⟨v, hop⟩
    · rw [hop]
      change SameLine (ppReadStatus part dev).1 (ppReadStatus part dev').1
      rw [ppReadStatus_hasp part dev hp, ppReadStatus_hasp part dev' hp]
      exact (haspStatus_same part dev dev' h).2
    · rw [hop]
      obtain ⟨ht, hhd, hhs, hhb, hlast⟩ := data_next part hp dev v
      obtain ⟨ht', hhd', hhs', hhb', hlast'⟩ := data_next part hp dev' v
      constructor
      · rw [ht, ht', h.t]
      · rw [hhd, hhd', h.hd]
      · rw [hhs, hhs', h.hs]
      · rw [hhb, hhb', h.hb]
      · rw [hlast, hlast']
  · intro dev dev' op hop h
    rcases hop with hop | ⟨v, hop⟩
    · rw [hop]
      change some (ppReadStatus part dev).2 = some (ppReadStatus part dev').2
      rw [ppReadStatus_hasp part dev hp, ppReadStatus_hasp part dev' hp,
        (haspStatus_same part dev dev' h).1]
    · rw [hop]
      rfl

theorem tWindow_open (t : Keyed) (v : Byte) : (tWindow t v).nrecent ≠ 0 := by
  unfold tWindow
  split_ifs with hslide hfew
  · exact Nat.succ_ne_zero _
  · change t.nrecent ≠ 0
    omega
  · exact fun hz => hslide (.inl hz)

theorem tWindow_fix (t : Keyed) (v : Byte) (hsome : t.nrecent ≠ 0) (hnewest : t.recent 2 = v) :
    tWindow t v = t := by
  unfold tWindow
  exact if_neg fun hc => hc.elim hsome fun hne => hne hnewest

/-- EncodeData's mode clocks alone: the last value, and the count since an 84. -/
def modeClock (s : Byte × ℕ) (v : Byte) : Byte × ℕ :=
  (v, if v = 0x84 then 0 else if v = 0xDA ∧ s.1 = 0xCA then s.2 + 1 else s.2)

structure Seen (t t' : Keyed) (v : Byte) : Prop where
  recent : t'.recent = (tWindow t v).recent
  nrecent : t'.nrecent = (tWindow t v).nrecent
  clock : (t'.last, t'.modeclk) = modeClock (t.last, t.modeclk) v

theorem prepared_clock (t : Keyed) (v : Byte) :
    (prepared part t v).modeclk = (modeClock (t.last, t.modeclk) v).2 := by
  obtain ⟨-, -, -, -, -, wlast, wclk⟩ := tWindow_rest t v
  have hclk : (tModeClock (tWindow t v) v).modeclk = (modeClock (t.last, t.modeclk) v).2 := by
    unfold tModeClock modeClock
    rw [wlast]
    dsimp only
    split_ifs
    · rfl
    · exact congrArg (· + 1) wclk
    · exact wclk
  unfold prepared
  rw [(tRelease_rest part _ v).2.2.2.2.2.2.2, hclk]

theorem tData_seen (t : Keyed) (v : Byte) : Seen t (tData part t v) v := by
  obtain ⟨hrecent, hnrecent, -, -, -, -, -⟩ := prepared_rest part t v
  have hclk := prepared_clock part t v
  obtain ⟨erecent, enrecent, eclk, -, -⟩ := tEdges_rest part (prepared part t v) v
  rw [tData_eq]
  by_cases hlow : v &&& 0x80 = 0
  · rw [if_pos hlow]
    exact ⟨hrecent, hnrecent, congrArg (Prod.mk v) hclk⟩
  · rw [if_neg hlow]
    exact ⟨erecent.trans hrecent, enrecent.trans hnrecent,
      congrArg (Prod.mk v) (eclk.trans hclk)⟩

theorem tModeClock_fix (t : Keyed) (v : Byte) (hlast : t.last = v)
    (hzero : v = 0x84 → t.modeclk = 0) : tModeClock t v = t := by
  unfold tModeClock
  split_ifs with hreset hcount
  · rw [← hzero hreset]
  · rw [hlast, hcount.1] at hcount
    exact absurd hcount.2 (by decide)
  · rfl

theorem tEdges_still (t : Keyed) (v : Byte) (hlast : t.last = v) : tEdges part t v = t := by
  have hrose : v &&& ~~~v = 0 := BitVec.and_not_self v
  unfold tEdges
  rw [hlast, hrose]
  dsimp only
  rw [if_neg (by decide), if_neg]
  intro hc
  have hnone : decide ((0 : Byte) &&& 0x10 ≠ 0) = false := by decide
  rw [hnone, Bool.and_false] at hc
  cases hc

theorem tData_again (t : Keyed) (v : Byte) : tData part (tData part t v) v = tData part t v := by
  have hseen := tData_seen part t v
  have hlast : (tData part t v).last = v := congrArg Prod.fst hseen.clock
  have hclk : v = 0x84 → (tData part t v).modeclk = 0 := by
    intro hreset
    have hsnd := congrArg Prod.snd hseen.clock
    unfold modeClock at hsnd
    rw [if_pos hreset] at hsnd
    exact hsnd
  have hwindow : tWindow (tData part t v) v = tData part t v := by
    apply tWindow_fix
    · rw [hseen.nrecent]
      exact tWindow_open t v
    · rw [hseen.recent]
      exact tWindow_newest t v
  have hrelease : part.tSessHi = true ∧ v ≠ (tData part t v).holdVal →
      (tData part t v).pending = false := by
    intro hc
    obtain ⟨hhi, hhold⟩ := hc
    obtain ⟨-, -, -, ehold, epend⟩ := tEdges_rest part (prepared part t v) v
    have phold := (prepared_rest part t v).2.2.2.2.2.1
    have hdrop : v ≠ t.holdVal := by
      intro he
      apply hhold
      rw [tData_eq]
      split_ifs
      · exact he.trans phold.symm
      · exact he.trans ((ehold hhi).trans phold).symm
    have hprep : (prepared part t v).pending = false := by
      rw [prepared_pending]
      exact if_pos ⟨hhi, hdrop⟩
    rw [tData_eq]
    split_ifs
    · exact hprep
    · exact epend hhi hprep
  have hprepared : prepared part (tData part t v) v = tData part t v := by
    unfold prepared
    rw [hwindow, tModeClock_fix _ v hlast hclk]
    unfold tRelease
    split_ifs with hdrop
    · rw [← hrelease hdrop]
    · rfl
  rw [tData_eq part (tData part t v) v, hprepared, tEdges_still part _ v hlast]
  split_ifs <;> exact congrArg (fun b => { tData part t v with last := b }) hlast.symm

theorem hdWriteData_again (abits : ℕ) (h : Hd) (v : Byte) :
    hdWriteData abits (hdWriteData abits h v) v = hdWriteData abits h v := by
  have hsk : (hdWriteData abits h v).sk = hdSk v := rfl
  have hoff : hdCs v = false →
      { hdWriteData abits h v with ph := .idle, n := 0 } = hdWriteData abits h v := by
    intro hcs
    unfold hdWriteData
    rw [if_pos hcs]
  generalize hdWriteData abits h v = g at hsk hoff
  unfold hdWriteData
  by_cases hcs : hdCs v = false
  · rw [if_pos hcs, hoff hcs, ← hsk]
  · rw [if_neg hcs, if_neg, ← hsk]
    intro hc
    rw [hsk, hc.1] at hc
    exact absurd hc.2 (by decide)

theorem hbData_again (pw : BitVec 32) (h : Hb) (v : Byte) :
    hbData pw (hbData pw h v) v = hbData pw h v := by
  have hprev : (hbData pw h v).prev = v := rfl
  have hstill : ∀ g : Hb, g.prev = v → hbClocks g v = false := by
    intro g hg
    unfold hbClocks
    rw [hg]
    exact Bool.and_not_self _
  generalize hbData pw h v = g at hprev
  unfold hbData
  rw [hstill g hprev]
  exact congrArg (fun b => { g with prev := b }) hprev.symm

theorem next_again (hp : part.hdProbe = true) (dev : Pp) (v : Byte) :
    SameLine ((device part).next ((device part).next dev (.data v)) (.data v)) ((device part).next dev (.data v)) := by
  obtain ⟨ht, hhd, hhs, hhb, hlast⟩ := data_next part hp dev v
  obtain ⟨ht', hhd', hhs', hhb', hlast'⟩ := data_next part hp ((device part).next dev (.data v)) v
  constructor
  · rw [ht', ht]
    unfold keyedWrite
    split_ifs
    · exact (tData_again part dev.t v).symm
    · rfl
  · rw [hhd', hhd]
    unfold decoderWrite
    split_ifs
    · exact (hdWriteData_again part.hdAbits dev.hd v).symm
    · rfl
  · rw [hhs', hhs]
  · rw [hhb', hhb]
    unfold burstWrite
    split_ifs
    · exact (hbData_again part.hbPw dev.hb v).symm
    · rfl
  · rw [hlast', hlast]

def IsData (op : Op) : Prop := ∃ v, op = .data v

theorem repeats_unseen (hp : part.hdProbe = true) (dev : Pp) (xs ys : List Op)
    (hxs : ∀ op ∈ xs, Plain op) (h : Repeats IsData xs ys) :
    (device part).trace dev ys = (device part).trace dev xs := by
  apply (line_simulates part hp).trace_repeats _ _ (SameLine.refl dev) hxs h
  · intro s op hop
    obtain ⟨v, hop⟩ := hop
    rw [hop]
    rfl
  · intro s op hop
    obtain ⟨v, hop⟩ := hop
    rw [hop]
    exact next_again part hp s v

/-- The preamble: an 84, the mode clocks, and the command byte that latches them. -/
def preamble (modes : List Byte) (c : Byte) : List Byte :=
  0x84 :: modes ++ [c] ++ [c ||| 0x01, c]

def askOps (p : Byte) : List Op := [.data p, .data (p ||| 0x10), .data p, .status]

def roundOps (modes : List Byte) (c : Byte) (ps : List Byte) : List Op :=
  (preamble modes c).map .data ++ ps.flatMap askOps

def latched (modes : List Byte) (c : Byte) : ℕ := ((modes ++ [c]).foldl modeClock (0x84, 0)).2

def registerRun (key : BitVec 32) (mode : ℕ) : BitVec 32 → List Byte → List Bool
  | _, [] => []
  | cur, p :: ps =>
    let r := registerStep key mode cur (p ||| 0x10)
    r.2 :: registerRun key mode r.1 ps

def keyedRun (t : Keyed) (ws : List Byte) : Keyed := ws.foldl (tData part) t

theorem keyedRun_clock (t : Keyed) (ws : List Byte) :
    ((keyedRun part t ws).last, (keyedRun part t ws).modeclk) =
      ws.foldl modeClock (t.last, t.modeclk) := by
  induction ws generalizing t with
  | nil => rfl
  | cons v ws ih =>
    change ((keyedRun part (tData part t v) ws).last, (keyedRun part (tData part t v) ws).modeclk) = _
    rw [ih, (tData_seen part t v).clock]
    rfl

theorem preamble_clock (s : Byte × ℕ) (modes : List Byte) (c : Byte) :
    (0x84 :: modes ++ [c]).foldl modeClock s = (c, latched modes c) := by
  have hfirst : modeClock s 0x84 = (0x84, 0) := rfl
  have hlast : ((modes ++ [c]).foldl modeClock (0x84, 0)).1 = c := by
    rw [List.foldl_append]
    rfl
  rw [List.cons_append, List.foldl_cons, hfirst]
  unfold latched
  rw [← hlast]
  rw [hlast]
  exact Prod.ext hlast rfl

/-- The register holds `cur`, under `mode`, and no answer is held. -/
structure Poised (t : Keyed) (cur : BitVec 32) (mode : ℕ) : Prop where
  cur : t.cur = cur
  mode : t.mode = mode
  pending : t.pending = false

theorem pending_stays (t : Keyed) (v : Byte) (h : t.pending = false) :
    (if part.tSessHi = true ∧ v ≠ t.holdVal then false else t.pending) = false := by
  split_ifs
  · rfl
  · exact h

theorem command_edge (t : Keyed) (c : Byte) (m : ℕ) (hlast : t.last = c) (hclk : t.modeclk = m)
    (htop : c &&& 0x80 ≠ 0) (heven : c &&& 0x01 = 0) :
    Poised (tData part t (c ||| 0x01)) (part.tInit.setWidth 32) m := by
  have hbits : ∀ c : Byte, c &&& 0x80 ≠ 0 → c &&& 0x01 = 0 →
      (c ||| 0x01) &&& 0x80 ≠ 0 ∧ ((c ||| 0x01) &&& ~~~c) &&& 0x01 ≠ 0 ∧ c ||| 0x01 ≠ 0x84 ∧
        c ||| 0x01 ≠ 0xDA := by
    decide +kernel
  obtain ⟨hhigh, hrose, h84, hDA⟩ := hbits c htop heven
  have hmode : (prepared part t (c ||| 0x01)).modeclk = m := by
    rw [prepared_clock]
    unfold modeClock
    rw [if_neg h84, if_neg fun hc => hDA hc.1]
    exact hclk
  have hprev : (prepared part t (c ||| 0x01)).last = c :=
    ((prepared_rest part t (c ||| 0x01)).2.2.2.2.2.2).trans hlast
  have hedge : tEdges part (prepared part t (c ||| 0x01)) (c ||| 0x01) =
      { prepared part t (c ||| 0x01) with
        cur := part.tInit.setWidth 32, pending := false, qn := 0
        mode := (prepared part t (c ||| 0x01)).modeclk } := by
    unfold tEdges
    apply if_pos
    rw [hprev]
    exact decide_eq_true hrose
  rw [tData_eq, if_neg hhigh, hedge]
  exact ⟨rfl, hmode, rfl⟩

theorem preamble_run (t : Keyed) (modes : List Byte) (c : Byte) (htop : c &&& 0x80 ≠ 0)
    (heven : c &&& 0x01 = 0) :
    Poised (keyedRun part t (preamble modes c)) (part.tInit.setWidth 32) (latched modes c) := by
  have hsplit : keyedRun part t (preamble modes c) =
      tData part (tData part (keyedRun part t (0x84 :: modes ++ [c])) (c ||| 0x01)) c := by
    unfold keyedRun preamble
    rw [List.foldl_append]
    rfl
  have hclock := keyedRun_clock part t (0x84 :: modes ++ [c])
  rw [preamble_clock] at hclock
  rw [hsplit]
  generalize keyedRun part t (0x84 :: modes ++ [c]) = u at hclock
  have h := command_edge part u c (latched modes c) (congrArg Prod.fst hclock)
    (congrArg Prod.snd hclock) htop heven
  have hlast : (tData part u (c ||| 0x01)).last = c ||| 0x01 :=
    congrArg Prod.fst (tData_seen part u (c ||| 0x01)).clock
  -- the clock falls again, and a falling bit is no edge
  have hfall : ∀ c : Byte, c &&& ~~~(c ||| 0x01) = 0 := by
    decide +kernel
  have hkept := tData_unclocked part (tData part u (c ||| 0x01)) c
    (.inr (by rw [hlast, hfall c]; exact ⟨rfl, .inr rfl⟩))
  refine ⟨hkept.cur.trans h.cur, hkept.mode.trans h.mode, ?_⟩
  rw [hkept.pending]
  exact pending_stays part _ c h.pending

structure Payload (p : Byte) : Prop where
  top : p &&& 0x80 ≠ 0
  clear : p &&& 0x11 = 0

structure PayloadBits (p : Byte) : Prop where
  even : p &&& 0x01 = 0
  low : p &&& 0x10 = 0
  raisedTop : (p ||| 0x10) &&& 0x80 ≠ 0
  raisedEven : (p ||| 0x10) &&& 0x01 = 0
  rises : ((p ||| 0x10) &&& ~~~p) &&& 0x10 ≠ 0
  differs : p ≠ p ||| 0x10

theorem Payload.bits {p : Byte} (h : Payload p) : PayloadBits p := by
  have hbits : ∀ p : Byte, p &&& 0x80 ≠ 0 → p &&& 0x11 = 0 →
      (p &&& 0x01 = 0 ∧ p &&& 0x10 = 0) ∧ ((p ||| 0x10) &&& 0x80 ≠ 0 ∧ (p ||| 0x10) &&& 0x01 = 0) ∧
        ((p ||| 0x10) &&& ~~~p) &&& 0x10 ≠ 0 ∧ p ≠ p ||| 0x10 := by
    decide +kernel
  obtain ⟨⟨h₁, h₂⟩, ⟨h₃, h₄⟩, h₅, h₆⟩ := hbits p h.top h.clear
  exact ⟨h₁, h₂, h₃, h₄, h₅, h₆⟩

def queryRun (t : Keyed) (p : Byte) : Keyed :=
  tData part (tData part (tData part t p) (p ||| 0x10)) p

theorem tWindow_slides (t : Keyed) (v : Byte) (h : t.recent 2 ≠ v) (k : ℕ) (hk : k < 3)
    (hcount : k ≤ t.nrecent) :
    (tWindow t v).recent 0 = t.recent 1 ∧ (tWindow t v).recent 1 = t.recent 2 ∧
      k + 1 ≤ (tWindow t v).nrecent := by
  unfold tWindow
  rw [if_pos (.inr h)]
  refine ⟨rfl, rfl, ?_⟩
  dsimp only
  split_ifs <;> omega

theorem query_window (t : Keyed) (p : Byte) (hp : Payload p) :
    (queryRun part t p).recent 0 = p ∧ (queryRun part t p).recent 1 = p ||| 0x10 ∧
      (queryRun part t p).recent 2 = p ∧ 3 ≤ (queryRun part t p).nrecent := by
  have hdiff := hp.bits.differs
  have h₁ := tData_seen part t p
  have hopen : 1 ≤ (tData part t p).nrecent := by
    rw [h₁.nrecent]
    exact Nat.one_le_iff_ne_zero.mpr (tWindow_open t p)
  have hnewest₁ : (tData part t p).recent 2 = p := by
    rw [h₁.recent]
    exact tWindow_newest t p
  have h₂ := tData_seen part (tData part t p) (p ||| 0x10)
  obtain ⟨-, hmid₂, hcount₂⟩ := tWindow_slides (tData part t p) (p ||| 0x10)
    (by rw [hnewest₁]; exact hdiff) 1 (by omega) hopen
  have hnewest₂ := tWindow_newest (tData part t p) (p ||| 0x10)
  rw [← h₂.recent] at hmid₂ hnewest₂
  rw [← h₂.nrecent] at hcount₂
  have h₃ := tData_seen part (tData part (tData part t p) (p ||| 0x10)) p
  obtain ⟨hfirst₃, hmid₃, hcount₃⟩ := tWindow_slides (tData part (tData part t p) (p ||| 0x10)) p
    (by rw [hnewest₂]; exact hdiff.symm) 2 (by omega) hcount₂
  have hnewest₃ := tWindow_newest (tData part (tData part t p) (p ||| 0x10)) p
  rw [← h₃.recent] at hfirst₃ hmid₃ hnewest₃
  rw [← h₃.nrecent] at hcount₃
  exact ⟨hfirst₃.trans (hmid₂.trans hnewest₁), hmid₃.trans hnewest₂, hnewest₃, hcount₃⟩

theorem query_high (t : Keyed) (p : Byte) (cur : BitVec 32) (m : ℕ) (hp : Payload p)
    (hhi : part.tSessHi = true) (h : Poised t cur m) : Poised (queryRun part t p) cur m := by
  have step : ∀ u v, v &&& 0x01 = 0 → Poised u cur m → Poised (tData part u v) cur m := by
    intro u v hv hu
    have hkept := tData_unclocked part u v (.inr ⟨rose_zero v u.last 0x01 hv, .inl hhi⟩)
    refine ⟨hkept.cur.trans hu.cur, hkept.mode.trans hu.mode, ?_⟩
    rw [hkept.pending]
    exact pending_stays part u v hu.pending
  unfold queryRun
  exact step _ p hp.bits.even (step _ _ hp.bits.raisedEven (step _ p hp.bits.even h))

theorem query_low (t : Keyed) (p : Byte) (cur : BitVec 32) (m : ℕ) (hp : Payload p)
    (hlow : part.tSessHi = false) (h : Poised t cur m) :
    (queryRun part t p).cur = (registerStep part.tKey m cur (p ||| 0x10)).1 ∧
      (queryRun part t p).mode = m ∧ (queryRun part t p).pending = true ∧
      (queryRun part t p).ans = (registerStep part.tKey m cur (p ||| 0x10)).2 := by
  have hbits := hp.bits
  unfold queryRun
  have flat : ∀ u, Unclocked part u (tData part u p) p := by
    intro u
    exact tData_unclocked part u p
      (.inr ⟨rose_zero p u.last 0x01 hbits.even, .inr (rose_zero p u.last 0x10 hbits.low)⟩)
  have hkept := flat t
  have hlast : (tData part t p).last = p := congrArg Prod.fst (tData_seen part t p).clock
  generalize tData part t p = u at hkept hlast ⊢
  obtain ⟨-, -, pcur, pmode, -, -, plast⟩ := prepared_rest part u (p ||| 0x10)
  have hedge : tEdges part (prepared part u (p ||| 0x10)) (p ||| 0x10) =
      { (tStep part (prepared part u (p ||| 0x10)) (p ||| 0x10)).1 with
        ans := (tStep part (prepared part u (p ||| 0x10)) (p ||| 0x10)).2, pending := true
        holdVal := p ||| 0x10 } := by
    have hpre : decide (((p ||| 0x10) &&& ~~~(prepared part u (p ||| 0x10)).last) &&& 0x01 ≠ 0) =
        false := decide_eq_false (not_not.mpr (rose_zero _ _ _ hbits.raisedEven))
    have hquery : decide (((p ||| 0x10) &&& ~~~(prepared part u (p ||| 0x10)).last) &&& 0x10 ≠ 0) =
        true := by
      rw [plast, hlast]
      exact decide_eq_true hbits.rises
    unfold tEdges
    dsimp only
    rw [hpre, hquery, hlow]
    rfl
  have hraised : tData part u (p ||| 0x10) =
      { (tStep part (prepared part u (p ||| 0x10)) (p ||| 0x10)).1 with
        ans := (tStep part (prepared part u (p ||| 0x10)) (p ||| 0x10)).2, pending := true
        holdVal := p ||| 0x10, last := p ||| 0x10 } := by
    rw [tData_eq, if_neg hbits.raisedTop, hedge]
  have hregister : registerStep part.tKey (prepared part u (p ||| 0x10)).mode
      (prepared part u (p ||| 0x10)).cur (p ||| 0x10) = registerStep part.tKey m cur (p ||| 0x10) := by
    rw [pcur, pmode, hkept.cur, hkept.mode, h.cur, h.mode]
  have hdown := flat (tData part u (p ||| 0x10))
  have hpend : (tData part u (p ||| 0x10)).pending = true := by rw [hraised]
  refine ⟨?_, ?_, ?_, ?_⟩
  · rw [hdown.cur, hraised, ← hregister]
    rfl
  · rw [hdown.mode, hraised]
    exact pmode.trans (hkept.mode.trans h.mode)
  · rw [hdown.pending, hlow, if_neg (fun hc => absurd hc.1 (by decide)), hpend]
  · rw [hdown.ans, hraised, ← hregister]
    rfl

theorem data_runs (hp : part.hdProbe = true) (hkey : part.tKey ≠ 0) (dev : Pp) (ws : List Byte) :
    ((device part).run dev (ws.map Op.data)).t = keyedRun part dev.t ws ∧
      (device part).trace dev (ws.map Op.data) = [] := by
  induction ws generalizing dev with
  | nil => exact ⟨rfl, rfl⟩
  | cons v ws ih =>
    obtain ⟨ht, -⟩ := data_next part hp dev v
    obtain ⟨hrun, htrace⟩ := ih ((device part).next dev (.data v))
    refine ⟨?_, htrace⟩
    rw [List.map_cons, Machine.run_cons, hrun, ht]
    unfold keyedWrite
    rw [if_pos hkey]
    rfl

theorem ask_run (hp : part.hdProbe = true) (hkey : part.tKey ≠ 0) (dev : Pp) (p : Byte)
    (cur : BitVec 32) (m : ℕ) (hpay : Payload p) (h : Poised dev.t cur m) :
    (device part).trace dev (askOps p) =
        [hdDo (registerStep part.tKey m cur (p ||| 0x10)).2] ∧
      Poised ((device part).run dev (askOps p)).t (registerStep part.tKey m cur (p ||| 0x10)).1
        m := by
  obtain ⟨hrun, htrace⟩ := data_runs part hp hkey dev [p, p ||| 0x10, p]
  have hsplit : askOps p = [p, p ||| 0x10, p].map Op.data ++ [.status] := rfl
  have hthree : keyedRun part dev.t [p, p ||| 0x10, p] = queryRun part dev.t p := rfl
  rw [hsplit, Machine.trace_append, Machine.run_append, htrace]
  rw [hthree] at hrun
  generalize (device part).run dev ([p, p ||| 0x10, p].map Op.data) = asked at hrun
  change [(ppReadStatus part asked).2] = _ ∧ Poised (ppReadStatus part asked).1.t _ m
  rw [ppReadStatus_hasp part asked hp]
  cases hhi : part.tSessHi with
  | true =>
    have hpoised := query_high part dev.t p cur m hpay hhi h
    obtain ⟨hfirst, hmid, hends, hthree⟩ := query_window part dev.t p hpay
    rw [← hrun] at hpoised hfirst hmid hends hthree
    have hframe : tFramed part asked.t = some (p ||| 0x10) := by
      rw [tFramed_some_iff, hfirst, hmid, hends]
      exact ⟨⟨hhi, hkey, hthree⟩, ⟨rfl, rfl⟩, ⟨hpay.top, hpay.clear⟩, rfl⟩
    have hquery : tReadQuery part asked.t =
        ((tAnswer part asked.t (p ||| 0x10)).1, some (tAnswer part asked.t (p ||| 0x10)).2) := by
      unfold tReadQuery
      rw [hframe]
    have hstep : registerStep part.tKey asked.t.mode asked.t.cur (p ||| 0x10) =
        registerStep part.tKey m cur (p ||| 0x10) := by
      rw [hpoised.cur, hpoised.mode]
    unfold haspStatus
    rw [hquery]
    dsimp only
    rw [← hstep]
    exact ⟨rfl, rfl, hpoised.mode, hpoised.pending⟩
  | false =>
    obtain ⟨hcur, hmode, hpend, hans⟩ := query_low part dev.t p cur m hpay hhi h
    rw [← hrun] at hcur hmode hpend hans
    have hquery : tReadQuery part asked.t = (asked.t, none) := by
      have hframe : tFramed part asked.t = none := by
        unfold tFramed
        exact if_pos (.inl hhi)
      unfold tReadQuery
      rw [hframe]
    unfold haspStatus
    rw [hquery]
    dsimp only
    rw [if_pos hpend, hans]
    exact ⟨rfl, hcur, hmode, hhi⟩

theorem asks_run (hp : part.hdProbe = true) (hkey : part.tKey ≠ 0) (dev : Pp) (ps : List Byte)
    (cur : BitVec 32) (m : ℕ) (hps : ∀ p ∈ ps, Payload p) (h : Poised dev.t cur m) :
    (device part).trace dev (ps.flatMap askOps) = (registerRun part.tKey m cur ps).map hdDo := by
  induction ps generalizing dev cur with
  | nil => rfl
  | cons p ps ih =>
    obtain ⟨htrace, hnext⟩ := ask_run part hp hkey dev p cur m (hps p (by simp)) h
    rw [List.flatMap_cons, Machine.trace_append, htrace,
      ih _ _ (fun q hq => hps q (by simp [hq])) hnext]
    rfl

theorem round_keyed (hp : part.hdProbe = true) (hkey : part.tKey ≠ 0) (dev : Pp)
    (modes : List Byte) (c : Byte) (ps : List Byte) (htop : c &&& 0x80 ≠ 0)
    (heven : c &&& 0x01 = 0) (hps : ∀ p ∈ ps, Payload p) :
    (device part).trace dev (roundOps modes c ps) =
      (registerRun part.tKey (latched modes c) (part.tInit.setWidth 32) ps).map hdDo := by
  obtain ⟨hrun, htrace⟩ := data_runs part hp hkey dev (preamble modes c)
  unfold roundOps
  rw [Machine.trace_append, htrace]
  apply asks_run part hp hkey _ ps _ _ hps
  rw [hrun]
  exact preamble_run part dev.t modes c htop heven

def identAnswer (synth : ℕ) (p : Byte) : Bool :=
  if synth ≠ 0 then decide (sessionAddr p % 3 = 0) != decide (sessionAddr p = synth)
  else signatureBit p

theorem session_payload (hb : Hb) (hs : Hs) (p : Byte) (hp : Payload p) (hsweep : hs.sweep = 0) :
    (sessionBit part hb hs p).2 = identAnswer part.tSynthIdent p ∧
      (sessionBit part hb hs p).1.sweep = 0 := by
  have hbits : ∀ p : Byte, p &&& 0x11 = 0 →
      p &&& 0x7F ≠ 0x78 ∧ p ≠ 0x78 ∧ p &&& 0x7F ≠ 0x1E ∧ p ≠ 0x1E := by
    decide +kernel
  obtain ⟨h₁, h₂, h₃, h₄⟩ := hbits p hp.clear
  have hfirst : (if part.tSessHi = true then p &&& 0x7F else p) ≠ hsSweepW.getD 0 0 := by
    split_ifs
    · exact h₁
    · exact h₂
  have hprobe : (if part.tSessHi = true then p &&& 0x7F else p) ≠ 0x1E := by
    split_ifs
    · exact h₃
    · exact h₄
  unfold sessionBit identAnswer
  rw [hsweep]
  dsimp only
  generalize (if part.tSessHi = true then p &&& 0x7F else p) = sw at hfirst hprobe ⊢
  by_cases hsyn : part.tSynthIdent ≠ 0
  · rw [if_pos hsyn, if_pos hsyn]
    exact ⟨rfl, rfl⟩
  rw [if_neg hsyn, if_neg hsyn]
  by_cases hramp : hs.ramping = true ∧ p = hs.rampPrev + 2
  · rw [if_pos hramp]
    exact ⟨rfl, rfl⟩
  by_cases hstart : p = 0x00 ∨ p = 0x80
  · rw [if_neg hramp, if_pos hstart]
    exact ⟨rfl, rfl⟩
  rw [if_neg hramp, if_neg hstart, if_neg (fun hc => hfirst hc.2), if_neg hfirst, if_neg hprobe]
  exact ⟨rfl, rfl⟩

/-- At most `k` bits into an instruction, and nothing to report. -/
def Calm (h : Hd) (k : ℕ) : Prop := h.ready = false ∧ (h.ph = .idle ∨ h.ph = .op ∧ h.n < k)

theorem Calm.mono {h : Hd} {k : ℕ} (hc : Calm h k) : Calm h (k + 1) := by
  refine ⟨hc.1, ?_⟩
  rcases hc.2 with hidle | ⟨hop, hn⟩
  · exact .inl hidle
  · exact .inr ⟨hop, by omega⟩

theorem calm_write (abits : ℕ) (h : Hd) (v : Byte) (k : ℕ) (hk : k < 2) (hc : Calm h k) :
    Calm (hdWriteData abits h v) (k + 1) := by
  have hclock : Calm (hdClock abits h (hdDi v)) (k + 1) := by
    unfold hdClock
    rcases hc.2 with hidle | ⟨hop, hn⟩
    · rw [hidle]
      dsimp only
      split_ifs
      · exact ⟨rfl, .inr ⟨rfl, Nat.succ_pos k⟩⟩
      · exact hc.mono
    · rw [hop]
      dsimp only
      rw [if_neg (by omega)]
      exact ⟨hc.1, .inr ⟨rfl, Nat.succ_lt_succ hn⟩⟩
  have hmono := hc.mono
  unfold hdWriteData
  dsimp only
  split_ifs
  · exact ⟨hc.1, .inl rfl⟩
  · exact hclock
  · exact hmono

theorem calm_still (abits : ℕ) (h : Hd) (v : Byte) (k : ℕ) (hv : hdCs v = false ∨ hdSk v = false)
    (hc : Calm h k) : Calm (hdWriteData abits h v) k := by
  unfold hdWriteData
  dsimp only
  split_ifs with hcs hclk
  · exact ⟨hc.1, .inl rfl⟩
  · rcases hv with hv | hv
    · exact absurd hv hcs
    · rw [hv] at hclk
      exact absurd hclk.1 (by decide)
  · exact hc

theorem calm_run (h : Hd) (v : Byte) (ws : List Byte) (k : ℕ) (hk : k < 2) (hc : Calm h k)
    (hws : ∀ w ∈ ws, hdCs w = hdCs v ∧ hdSk w = hdSk v ∧ hdDi w = hdDi v) :
    Calm (ws.foldl (decoderWrite part) h) (k + 1) := by
  have halike : ∀ w ∈ ws, ∀ g, hdWriteData part.hdAbits g w = hdWriteData part.hdAbits g v := by
    intro w hw g
    obtain ⟨hcs, hsk, hdi⟩ := hws w hw
    unfold hdWriteData
    rw [hcs, hsk, hdi]
  have hone : ∀ ws : List Byte,
      (∀ w ∈ ws, ∀ g, hdWriteData part.hdAbits g w = hdWriteData part.hdAbits g v) → ∀ g,
      (g = h ∨ g = hdWriteData part.hdAbits h v) →
      ws.foldl (decoderWrite part) g = h ∨
        ws.foldl (decoderWrite part) g = hdWriteData part.hdAbits h v := by
    intro ws
    induction ws with
    | nil => exact fun _ g hg => hg
    | cons w ws ih =>
      intro halike g hg
      apply ih (fun u hu => halike u (by simp [hu]))
      unfold decoderWrite
      split_ifs
      · right
        rw [halike w (by simp)]
        rcases hg with hg | hg
        · rw [hg]
        · rw [hg, hdWriteData_again]
      · exact hg
  rcases hone ws halike h (.inl rfl) with hrun | hrun
  · rw [hrun]
    exact hc.mono
  · rw [hrun]
    exact calm_write part.hdAbits h v k hk hc

/-- Nothing is pending anywhere, which is how a STATUS read leaves the device. -/
structure Resting (dev : Pp) (k : ℕ) : Prop where
  pending : dev.t.pending = false
  calm : Calm dev.hd k
  sweep : dev.hs.sweep = 0

theorem keyless_runs (hp : part.hdProbe = true) (hkey : part.tKey = 0) (dev : Pp)
    (ws : List Byte) :
    let dev' := (device part).run dev (ws.map Op.data)
    dev'.t = dev.t ∧ dev'.hd = ws.foldl (decoderWrite part) dev.hd ∧ dev'.hs = dev.hs ∧
      (∀ v, ws.getLast? = some v → dev'.link.lastData = v) ∧
      (device part).trace dev (ws.map Op.data) = [] := by
  induction ws generalizing dev with
  | nil =>
    refine ⟨rfl, rfl, rfl, ?_, rfl⟩
    intro v hv
    cases hv
  | cons v ws ih =>
    obtain ⟨ht, hhd, hhs, -, hlast⟩ := data_next part hp dev v
    obtain ⟨ht', hhd', hhs', hlast', htrace⟩ := ih ((device part).next dev (.data v))
    have hkeep : keyedWrite part dev.t v = dev.t := by
      unfold keyedWrite
      exact if_neg (not_not.mpr hkey)
    refine ⟨?_, ?_, ?_, ?_, htrace⟩
    · rw [List.map_cons, Machine.run_cons, ht', ht, hkeep]
    · rw [List.map_cons, Machine.run_cons, hhd', hhd]
      rfl
    · rw [List.map_cons, Machine.run_cons, hhs', hhs]
    · intro w hw
      cases ws with
      | nil =>
        cases hw
        exact hlast
      | cons u us => exact hlast' w hw

theorem keyless_ask (hp : part.hdProbe = true) (hkey : part.tKey = 0) (dev : Pp) (p : Byte)
    (hpay : Payload p) (h : Resting dev 1) :
    (device part).trace dev (askOps p) = [hdDo (identAnswer part.tSynthIdent p)] ∧
      Resting ((device part).run dev (askOps p)) 1 := by
  obtain ⟨ht, hhd, hhs, hlast, htrace⟩ := keyless_runs part hp hkey dev [p, p ||| 0x10, p]
  have hlines : ∀ p : Byte, hdCs (p ||| 0x10) = hdCs p ∧ hdSk (p ||| 0x10) = hdSk p ∧
      hdDi (p ||| 0x10) = hdDi p := by
    decide +kernel
  have hcalm : Calm ([p, p ||| 0x10, p].foldl (decoderWrite part) dev.hd) 2 := by
    apply calm_run part dev.hd p _ 1 (by omega) h.calm
    intro w hw
    simp only [List.mem_cons, List.not_mem_nil, or_false] at hw
    rcases hw with hw | hw | hw
    · rw [hw]
      exact ⟨rfl, rfl, rfl⟩
    · rw [hw]
      exact hlines p
    · rw [hw]
      exact ⟨rfl, rfl, rfl⟩
  have hsplit : askOps p = [p, p ||| 0x10, p].map Op.data ++ [.status] := rfl
  rw [hsplit, Machine.trace_append, Machine.run_append, htrace]
  rw [← hhd] at hcalm
  have hdata := hlast p rfl
  generalize (device part).run dev ([p, p ||| 0x10, p].map Op.data) = asked at *
  change [(ppReadStatus part asked).2] = _ ∧ Resting (ppReadStatus part asked).1 1
  have hquery : tReadQuery part asked.t = (asked.t, none) := by
    have hframe : tFramed part asked.t = none := by
      unfold tFramed
      exact if_pos (.inr (.inl hkey))
    unfold tReadQuery
    rw [hframe]
  have hpend : ¬asked.t.pending = true := by
    rw [ht, h.pending]
    decide
  have hph : ¬asked.hd.ph = .read := by
    rcases hcalm.2 with hidle | ⟨hop, -⟩
    · rw [hidle]
      decide
    · rw [hop]
      decide
  obtain ⟨hbit, hsweep⟩ := session_payload part asked.hb asked.hs p hpay (by rw [hhs]; exact h.sweep)
  rw [ppReadStatus_hasp part asked hp]
  unfold haspStatus
  rw [hquery]
  dsimp only
  rw [if_neg hpend, if_neg hph, hcalm.1, hdata, hbit]
  refine ⟨rfl, ?_, ⟨rfl, .inl rfl⟩, hsweep⟩
  rw [ht]
  exact h.pending

theorem keyless_asks (hp : part.hdProbe = true) (hkey : part.tKey = 0) (dev : Pp) (ps : List Byte)
    (hps : ∀ p ∈ ps, Payload p) (h : Resting dev 1) :
    (device part).trace dev (ps.flatMap askOps) =
      (ps.map (identAnswer part.tSynthIdent)).map hdDo := by
  induction ps generalizing dev with
  | nil => rfl
  | cons p ps ih =>
    obtain ⟨htrace, hnext⟩ := keyless_ask part hp hkey dev p (hps p (by simp)) h
    rw [List.flatMap_cons, Machine.trace_append, htrace,
      ih _ (fun q hq => hps q (by simp [hq])) hnext]
    rfl

def modeBytes : List Byte := [0x84, 0xA4, 0xCA, 0xDA]

theorem calm_modes (h : Hd) (modes : List Byte) (hmodes : ∀ v ∈ modes, v ∈ modeBytes)
    (hc : Calm h 0) : Calm (modes.foldl (decoderWrite part) h) 0 := by
  have hstill : ∀ v ∈ modeBytes, hdCs v = false ∨ hdSk v = false := by
    decide
  induction modes generalizing h with
  | nil => exact hc
  | cons v modes ih =>
    apply ih _ fun u hu => hmodes u (by simp [hu])
    unfold decoderWrite
    split_ifs
    · exact calm_still part.hdAbits h v 0 (hstill v (hmodes v (by simp))) hc
    · exact hc

theorem calm_preamble (h : Hd) (modes : List Byte) (c : Byte)
    (hmodes : ∀ v ∈ modes, v ∈ modeBytes) (hc : Calm h 0) :
    Calm ((preamble modes c).foldl (decoderWrite part) h) 1 := by
  have hsplit : preamble modes c = (0x84 :: modes) ++ [c, c ||| 0x01, c] := by
    unfold preamble
    rw [List.append_assoc]
    rfl
  have hlines : ∀ c : Byte, hdCs (c ||| 0x01) = hdCs c ∧ hdSk (c ||| 0x01) = hdSk c ∧
      hdDi (c ||| 0x01) = hdDi c := by
    decide +kernel
  rw [hsplit, List.foldl_append]
  apply calm_run part _ c _ 0 (by omega)
  · apply calm_modes part h (0x84 :: modes) _ hc
    intro v hv
    rcases List.mem_cons.mp hv with hv | hv
    · rw [hv]
      exact List.mem_cons_self
    · exact hmodes v hv
  · intro w hw
    simp only [List.mem_cons, List.not_mem_nil, or_false] at hw
    rcases hw with hw | hw | hw
    · rw [hw]
      exact ⟨rfl, rfl, rfl⟩
    · rw [hw]
      exact hlines c
    · rw [hw]
      exact ⟨rfl, rfl, rfl⟩

theorem round_keyless (hp : part.hdProbe = true) (hkey : part.tKey = 0) (dev : Pp)
    (modes : List Byte) (c : Byte) (ps : List Byte) (hmodes : ∀ v ∈ modes, v ∈ modeBytes)
    (hps : ∀ p ∈ ps, Payload p) (h : Resting dev 0) :
    (device part).trace dev (roundOps modes c ps) =
      (ps.map (identAnswer part.tSynthIdent)).map hdDo := by
  obtain ⟨ht, hhd, hhs, -, htrace⟩ := keyless_runs part hp hkey dev (preamble modes c)
  unfold roundOps
  rw [Machine.trace_append, htrace]
  apply keyless_asks part hp hkey _ ps hps
  constructor
  · rw [ht]
    exact h.pending
  · rw [hhd]
    exact calm_preamble part dev.hd modes c hmodes h.calm
  · rw [hhs]
    exact h.sweep

/-- What the host of a round drives: a preamble from the mode bytes and a command byte, then
    queries with bit 7 up and the two clock bits down. -/
structure Round (modes : List Byte) (c : Byte) (ps : List Byte) : Prop where
  modes : ∀ v ∈ modes, v ∈ modeBytes
  top : c &&& 0x80 ≠ 0
  even : c &&& 0x01 = 0
  payloads : ∀ p ∈ ps, Payload p

def roundAnswers (key : BitVec 32) (init : BitVec 16) (synth : ℕ) (modes : List Byte) (c : Byte)
    (ps : List Byte) : List Byte :=
  (if key = 0 then ps.map (identAnswer synth)
    else registerRun key (latched modes c) (init.setWidth 32) ps).map hdDo

theorem roundOps_plain (modes : List Byte) (c : Byte) (ps : List Byte) :
    ∀ op ∈ roundOps modes c ps, Plain op := by
  intro op hop
  rcases List.mem_append.mp hop with hop | hop
  · obtain ⟨v, -, hv⟩ := List.mem_map.mp hop
    exact .inr ⟨v, hv.symm⟩
  · obtain ⟨p, -, hop⟩ := List.mem_flatMap.mp hop
    simp only [askOps, List.mem_cons, List.not_mem_nil, or_false] at hop
    rcases hop with hop | hop | hop | hop
    · exact .inr ⟨_, hop⟩
    · exact .inr ⟨_, hop⟩
    · exact .inr ⟨_, hop⟩
    · exact .inl hop

theorem round_answered (hp : part.hdProbe = true) (dev : Pp) (modes : List Byte) (c : Byte)
    (ps : List Byte) (ops : List Op) (h : Round modes c ps)
    (hrest : part.tKey = 0 → Resting dev 0) (hops : Repeats IsData (roundOps modes c ps) ops) :
    (device part).trace dev ops =
      roundAnswers part.tKey part.tInit part.tSynthIdent modes c ps := by
  rw [repeats_unseen part hp dev _ ops (roundOps_plain modes c ps) hops]
  unfold roundAnswers
  by_cases hkey : part.tKey = 0
  · rw [if_pos hkey]
    exact round_keyless part hp hkey dev modes c ps h.modes h.payloads (hrest hkey)
  · rw [if_neg hkey]
    exact round_keyed part hp hkey dev modes c ps h.top h.even h.payloads

/-- A HASP release with the given key, seed and identity rule, its queries recognised at the
    read (`hi`) or on the bit-4 edge. -/
def keyedRelease (part : Part) (hi : Bool) (key : BitVec 32) (init : BitVec 16) (synth : ℕ) : Part :=
  { part with
    hdProbe := true, tSessHi := hi, tKey := key, tInit := init, tSynthIdent := synth }

/-- A round is answered alike on the bit-4 edge and at the read, for any key and seed, from
    any two devices and under any repetition of the writes on either of them.  Without a key
    there is no round to answer, and both have to start at rest. -/
theorem framings_agree (edge read : Part) (key : BitVec 32) (init : BitVec 16) (synth : ℕ)
    (dev dev' : Pp) (modes : List Byte) (c : Byte) (ps : List Byte) (ops ops' : List Op)
    (h : Round modes c ps) (hrest : key = 0 → Resting dev 0 ∧ Resting dev' 0)
    (hops : Repeats IsData (roundOps modes c ps) ops)
    (hops' : Repeats IsData (roundOps modes c ps) ops') :
    (device (keyedRelease edge false key init synth)).trace dev ops =
      (device (keyedRelease read true key init synth)).trace dev' ops' := by
  have hedge := round_answered (keyedRelease edge false key init synth) rfl dev modes c ps ops h
    (fun hz => (hrest hz).1) hops
  have hread := round_answered (keyedRelease read true key init synth) rfl dev' modes c ps ops' h
    (fun hz => (hrest hz).2) hops'
  exact hedge.trans hread.symm

/-- The 2003 key on both framings: mode 1, two equal queries and a third, the second framing
    hearing the first write of the round three times. -/
theorem framings_agree_igo3 :
    let cfg := detected "Version 2003 (DE)"
    let edge := keyedRelease (initPart cfg) false 0xAB32E970 0x5DF 0
    let read := keyedRelease (initPart cfg) true 0xAB32E970 0x5DF 0
    let modes : List Byte := [0xA4, 0x84, 0xCA, 0xDA]
    let ops := roundOps modes 0x82 [0xCA, 0xCA, 0x8E]
    (device edge).trace (ppInit cfg) ops =
      (device read).trace (ppInit cfg) (.data 0x84 :: .data 0x84 :: ops) := by
  intro cfg edge read modes ops
  have once : ∀ xs : List Op, Repeats IsData xs xs := by
    intro xs
    induction xs with
    | nil => exact .nil
    | cons x xs ih => exact .once x ih
  have h : Round modes 0x82 [0xCA, 0xCA, 0x8E] := by
    constructor
    · decide
    · decide
    · decide
    · intro p hp
      simp only [List.mem_cons, List.not_mem_nil, or_false] at hp
      rcases hp with hp | hp | hp <;> rw [hp] <;> exact ⟨by decide, by decide⟩
  have hkey : (0xAB32E970 : BitVec 32) ≠ 0 := by decide
  exact framings_agree (initPart cfg) (initPart cfg) 0xAB32E970 0x5DF 0 (ppInit cfg) (ppInit cfg)
    modes 0x82 [0xCA, 0xCA, 0x8E] ops _ h (fun hz => absurd hz hkey) (once ops)
    (.more ⟨0x84, rfl⟩ (.more ⟨0x84, rfl⟩ (once ops)))

end PeepeeBox.KeyedQueryAgreement
