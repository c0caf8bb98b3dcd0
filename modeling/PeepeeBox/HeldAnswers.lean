import PeepeeBox.SessionIdentity
import PeepeeBox.KeyedQueryAgreement
import PeepeeBox.SoftPart

set_option autoImplicit false

/-!
# What a query's later reads find

On a bit-7 release a query is told at the STATUS read that follows its writes, and nothing is held: the next read is the
session layer's.
-/
namespace PeepeeBox.HeldAnswers
open BurstCollector CdongleTransport DongleDevice KeyedQueryAgreement KeyedRound Microwire SessionIdentity SoftPart
  TraceMachine

/-- A query's three writes, each made once or more. -/
def queryWrites (p : Byte) (i j k : ℕ) : List Op :=
  List.replicate (i + 1) (.data p) ++ List.replicate (j + 1) (.data (p ||| 0x10)) ++ List.replicate (k + 1) (.data p)

/-- Nothing but this is written to DATA. -/
def Steady (p : Byte) (op : Op) : Prop := ∀ v, written op = some v → v = p

def registerBit (part : Part) (t : Keyed) (p : Byte) : Bool :=
  t.cur.getLsbD 10 ^^ part.tKey.getLsbD (queryIndex (p ||| 0x10)).toNat

def AtSweep (hs : Hs) (p : Byte) : Prop :=
  hs.sweep < 64 ∧ p &&& 0x7F = hsSweepW.getD hs.sweep 0 ∧ ¬(hs.ramping = true ∧ p = hs.rampPrev + 2)

/-- DO as the rest of the part drives it at the payload: ready, or else the signature, once the step of a sweep that it
    happens to be has been answered. -/
def Agrees (part : Part) (dev : Pp) (p : Byte) : Prop :=
  let ready := (decoderWrite part dev.hd (p ||| 0x10)).ready
  registerBit part dev.t p = (ready || signatureBit p) ∧
    (AtSweep dev.hs p → registerBit part dev.t p = (ready || sweepAnswer part dev.hb dev.hs.sweep))

/-- However many reads and other accesses follow, up to another DATA value: they show what the query's own read shows, and
    the register is one step on. -/
def Stable (part : Part) (dev : Pp) (p : Byte) (i j k : ℕ) : Prop :=
  let asked := (device part).run dev (queryWrites p i j k)
  ∀ ops, (∀ op ∈ ops, Steady p op) →
    (∀ x ∈ (device part).trace asked (.status :: ops), x = (ppReadStatus part asked).2) ∧
      ((device part).run asked (.status :: ops)).t.cur =
        (registerStep part.tKey dev.t.mode dev.t.cur (p ||| 0x10)).1

variable {part : Part}

theorem run_replicate (hp : part.hdProbe = true) (v : Byte) (n : ℕ) {dev dev' : Pp} (h : SameLine dev dev') :
    SameLine ((device part).next dev (.data v)) ((device part).run dev' (List.replicate (n + 1) (.data v))) := by
  have hfirst := (line_simulates part hp).next dev dev' (.data v) (.inr ⟨v, rfl⟩) h
  induction n generalizing dev dev' with
  | zero => exact hfirst
  | succ n ih =>
    rw [List.replicate_succ, Machine.run_cons]
    have hsecond := (line_simulates part hp).next _ _ (.data v) (.inr ⟨v, rfl⟩) hfirst
    exact (next_again part hp dev v).symm.trans (ih hfirst hsecond)

theorem asked_same (hp : part.hdProbe = true) (dev : Pp) (p : Byte) (i j k : ℕ) :
    SameLine ((device part).run dev [.data p, .data (p ||| 0x10), .data p])
      ((device part).run dev (queryWrites p i j k)) := by
  unfold queryWrites
  rw [Machine.run_append, Machine.run_append]
  exact run_replicate hp p k (run_replicate hp (p ||| 0x10) j (run_replicate hp p i (SameLine.refl dev)))

section Link
open NibbleLink

theorem ppQueue_last (l : Link) (b : Byte) : (ppQueue l b).lastData = l.lastData := by
  unfold ppQueue
  split_ifs <;> rfl

theorem ppQueueKeyed_last (next : Byte → Byte) (plain : ℕ → Byte) (n : ℕ) (l : Link) (k : Byte) :
    (ppQueueKeyed next plain n l k).lastData = l.lastData := by
  unfold ppQueueKeyed
  induction n with
  | zero => rfl
  | succ n ih =>
    rw [List.range_succ, List.foldl_append, List.foldl_cons, List.foldl_nil]
    exact (ppQueue_last _ _).trans ih

theorem ppRespond_last (l : Link) : (ppRespond l).lastData = l.lastData := by
  unfold ppRespond
  dsimp only
  split_ifs
  · exact ppQueueKeyed_last _ _ _ _ _
  · exact ppQueueKeyed_last _ _ _ _ _
  · rfl
  · rfl

theorem ppHostByte_last (l : Link) (b : Byte) : (ppHostByte l b).lastData = l.lastData := by
  have hstore : (ppStore l b).lastData = l.lastData := by
    unfold ppStore
    split_ifs <;> rfl
  unfold ppHostByte
  dsimp only
  split_ifs
  · rfl
  · exact (ppRespond_last _).trans hstore
  · exact hstore

theorem ppLatchNibble_last (lpt : Option Byte) (l : Link) : (ppLatchNibble lpt l).lastData = l.lastData := by
  unfold ppLatchNibble ppTakeNibble
  split_ifs
  · rfl
  · exact ppHostByte_last _ _

theorem ppWriteCtrl_last (lpt : Option Byte) (l : Link) (val : Byte) :
    (NibbleLink.ppWriteCtrl lpt l val).lastData = l.lastData := by
  unfold NibbleLink.ppWriteCtrl
  dsimp only
  split_ifs
  · rfl
  · exact ppLatchNibble_last _ _
  · rfl

theorem ppStrobe_last (lpt : Option Byte) (l : Link) (old val : Byte) :
    (NibbleLink.ppStrobe lpt l old val).lastData = l.lastData := by
  unfold NibbleLink.ppStrobe
  dsimp only
  split_ifs
  · exact ppLatchNibble_last _ _
  · rfl

end Link

structure PayloadSweep (p : Byte) : Prop where
  first : p &&& 0x7F ≠ 0x78
  probe : p &&& 0x7F ≠ 0x1E
  once : ∀ n < 64, p &&& 0x7F = hsSweepW.getD n 0 → p &&& 0x7F ≠ hsSweepW.getD (n + 1) 0

theorem Payload.sweep {p : Byte} (hp : Payload p) : PayloadSweep p := by
  have hbits : ∀ p : Byte, p &&& 0x11 = 0 → p &&& 0x7F ≠ 0x78 ∧ p &&& 0x7F ≠ 0x1E ∧
      ∀ n < 64, p &&& 0x7F = hsSweepW.getD n 0 → p &&& 0x7F ≠ hsSweepW.getD (n + 1) 0 := by
    decide +kernel
  obtain ⟨h₁, h₂, h₃⟩ := hbits p hp.clear
  exact ⟨h₁, h₂, h₃⟩

theorem sessionBit_payload (hhi : part.tSessHi = true) (hident : part.tSynthIdent = 0) (hb : Hb) (hs : Hs) {p : Byte}
    (hp : Payload p) :
    (AtSweep hs p → (sessionBit part hb hs p).2 = sweepAnswer part hb hs.sweep) ∧
      (¬ AtSweep hs p → (sessionBit part hb hs p).2 = signatureBit p) ∧ ¬ AtSweep (sessionBit part hb hs p).1 p := by
  obtain ⟨hfirst, hprobe, honce⟩ := Payload.sweep hp
  have hleft (hs' : Hs) (hsweep : hs'.sweep = 0) : ¬ AtSweep hs' p := by
    intro hat
    have hzero := hat.2.1
    rw [hsweep] at hzero
    exact hfirst hzero
  have hblank : p = 0x80 → ∀ n < 64, p &&& 0x7F ≠ hsSweepW.getD n 0 := by
    intro h80
    subst h80
    decide
  unfold sessionBit
  rw [hhi, if_pos rfl, hident]
  dsimp only
  rw [if_neg (fun h => h rfl)]
  split_ifs with hramp hstart hsweep hzero
  · exact ⟨fun hat => absurd hramp hat.2.2, fun _ => rfl, hleft _ rfl⟩
  · have hp80 : p = 0x80 := by
      rcases hstart with h0 | h80
      · exact absurd (by rw [h0]; rfl) hp.top
      · exact h80
    exact ⟨fun hat => absurd hat.2.1 (hblank hp80 _ hat.1), fun _ => rfl, hleft _ rfl⟩
  · refine ⟨fun _ => rfl, fun hnot => absurd ⟨hsweep.1, hsweep.2, hramp⟩ hnot, ?_⟩
    intro hat
    exact honce _ hsweep.1 hsweep.2 hat.2.1
  · exact absurd hzero hfirst
  · exact ⟨fun hat => absurd ⟨hat.1, hat.2.1⟩ hsweep, fun _ => rfl, hleft _ rfl⟩

structure Answered (part : Part) (dev : Pp) (p : Byte) (s : Pp) : Prop where
  cur : s.t.cur = (registerStep part.tKey dev.t.mode dev.t.cur (p ||| 0x10)).1
  pending : s.t.pending = false
  few : s.t.nrecent ≤ 1
  newest : s.t.recent 2 = p
  idle : s.hd.ph = .idle
  ready : s.hd.ready = (decoderWrite part dev.hd (p ||| 0x10)).ready
  mode : s.hb.mode = dev.hb.mode
  lastData : s.link.lastData = p
  session : s.hs = dev.hs ∨ ¬ AtSweep s.hs p

def laterBit (part : Part) (dev : Pp) (hs : Hs) (p : Byte) : Bool :=
  (decoderWrite part dev.hd (p ||| 0x10)).ready || (sessionBit part dev.hb hs p).2

theorem payload_unseen (hhi : part.tSessHi = true) (hident : part.tSynthIdent = 0) {p : Byte} (hp : Payload p) :
    hdSees part p = false := by
  have hbits : ∀ p : Byte, p &&& 0x11 = 0 → p &&& 0x1C ≠ 0x1C := by
    decide +kernel
  unfold hdSees
  rw [hhi, hident, decide_eq_false hp.top, decide_eq_false (hbits p hp.clear)]
  rfl

theorem burst_payload (h : Hb) {p : Byte} (heven : p &&& 0x01 = 0) : (burstWrite part h p).mode = h.mode := by
  have hbit : ∀ p : Byte, p &&& 0x01 = 0 → p.getLsbD 0 = false := by
    decide +kernel
  unfold burstWrite
  split_ifs
  · unfold hbData hbClocks
    rw [hbit p heven]
    rfl
  · rfl

theorem answer_write (hrel : Release part) (hhi : part.tSessHi = true) {dev : Pp} {p : Byte} (hp : Payload p) {s : Pp}
    (h : Answered part dev p s) : Answered part dev p ((device part).next s (.data p)) := by
  obtain ⟨ht, hhd, hhs, hhb, hlast⟩ := data_next part hrel.probe s p
  have hkeyed : ((device part).next s (.data p)).t = tData part s.t p := by
    rw [ht]
    exact if_pos hrel.keyed
  have hkept := tData_unclocked part s.t p (.inr ⟨rose_zero p s.t.last 0x01 hp.bits.even, .inl hhi⟩)
  have hdecoder : ((device part).next s (.data p)).hd = s.hd := by
    rw [hhd]
    exact if_neg (by rw [payload_unseen hhi hrel.ident hp]; decide)
  constructor
  case cur => rw [hkeyed, hkept.cur, h.cur]
  case pending =>
    rw [hkeyed, hkept.pending]
    exact pending_stays part s.t p h.pending
  case few =>
    rw [hkeyed, hkept.nrecent]
    unfold tWindow
    split_ifs with hslide hthree
    · rcases hslide with hzero | hne
      · dsimp only
        omega
      · exact absurd h.newest hne
    · exact h.few
    · exact h.few
  case newest =>
    rw [hkeyed, hkept.recent]
    exact tWindow_newest s.t p
  case idle => rw [hdecoder, h.idle]
  case ready => rw [hdecoder, h.ready]
  case mode => rw [hhb, burst_payload s.hb hp.bits.even, h.mode]
  case lastData => exact hlast
  case session =>
    rw [hhs]
    exact h.session

theorem few_unframed {t : Keyed} (h : t.nrecent ≤ 1) : tFramed part t = none := by
  unfold tFramed
  dsimp only
  rw [if_pos]
  right
  right
  omega

theorem sessionBit_mode {hb hb' : Hb} (h : hb'.mode = hb.mode) (hs : Hs) (w : Byte) :
    sessionBit part hb' hs w = sessionBit part hb hs w := by
  have hanswer (n : ℕ) : sweepAnswer part hb' n = sweepAnswer part hb n := by
    unfold sweepAnswer
    rw [h]
  unfold sessionBit hsSweepBit
  simp only [hanswer]

theorem answer_read (hrel : Release part) (hhi : part.tSessHi = true) {dev : Pp} {p : Byte} (hp : Payload p) {s : Pp}
    (h : Answered part dev p s) :
    (ppReadStatus part s).2 = hdDo (laterBit part dev s.hs p) ∧ Answered part dev p (ppReadStatus part s).1 ∧
      ¬ AtSweep (ppReadStatus part s).1.hs p := by
  have hframe : tFramed part s.t = none := few_unframed h.few
  have hquery : tReadQuery part s.t = (s.t, none) := by
    unfold tReadQuery
    rw [hframe]
  have hph : s.hd.ph ≠ .read := by
    rw [h.idle]
    exact fun hc => nomatch hc
  have hread : ppReadStatus part s =
      ({ s with
          t := { s.t with nrecent := 0 }
          hd := { s.hd with ph := .idle, n := 0 }
          hs := (sessionBit part dev.hb s.hs p).1 }, hdDo (laterBit part dev s.hs p)) := by
    rw [ppReadStatus_hasp part s hrel.probe]
    unfold haspStatus laterBit
    rw [hquery]
    dsimp only
    rw [if_neg (by rw [h.pending]; decide), if_neg hph, h.lastData, sessionBit_mode h.mode, h.ready]
  have hleft := (sessionBit_payload hhi hrel.ident dev.hb s.hs hp).2.2
  rw [hread]
  exact ⟨rfl, ⟨h.cur, h.pending, Nat.zero_le 1, h.newest, rfl, h.ready, h.mode, h.lastData, .inr hleft⟩, hleft⟩

theorem answered_next (hrel : Release part) (hhi : part.tSessHi = true) {dev : Pp} {p : Byte} (hp : Payload p) {s : Pp}
    (h : Answered part dev p s) {op : Op} (hop : Steady p op) : Answered part dev p ((device part).next s op) := by
  cases op with
  | data v =>
    obtain rfl := hop v rfl
    exact answer_write hrel hhi hp h
  | ctrl v =>
    have hlast : (ppWriteCtrl s v).link.lastData = s.link.lastData := ppWriteCtrl_last _ _ _
    exact { h with lastData := hlast.trans h.lastData }
  | strobe old v =>
    have hlast : (ppStrobe s old v).link.lastData = s.link.lastData := ppStrobe_last _ _ _ _
    exact { h with lastData := hlast.trans h.lastData }
  | status => exact (answer_read hrel hhi hp h).2.1
  | latch v => exact { h with }

theorem first_read (hrel : Release part) (hhi : part.tSessHi = true) (dev : Pp) (hheld : dev.t.pending = false) {p : Byte}
    (hp : Payload p) (i j k : ℕ) :
    let asked := (device part).run dev (queryWrites p i j k)
    (ppReadStatus part asked).2 = hdDo (registerBit part dev.t p) ∧ (ppReadStatus part asked).1.hs = dev.hs ∧
      Answered part dev p (ppReadStatus part asked).1 := by
  intro asked
  have hsame := asked_same hrel.probe dev p i j k
  have hpay := hp.bits
  have hthree : ((device part).run dev [.data p, .data (p ||| 0x10), .data p]).t = queryRun part dev.t p :=
    (data_runs part hrel.probe hrel.keyed dev [p, p ||| 0x10, p]).1
  have ht : asked.t = queryRun part dev.t p := hsame.t.trans hthree
  have hpoised : Poised asked.t dev.t.cur dev.t.mode := by
    rw [ht]
    exact query_high part dev.t p dev.t.cur dev.t.mode hp hhi ⟨rfl, rfl, hheld⟩
  obtain ⟨hfirst, hmid, hends, hcount⟩ := query_window part dev.t p hp
  rw [← ht] at hfirst hmid hends hcount
  have hframe : tFramed part asked.t = some (p ||| 0x10) := by
    rw [tFramed_some_iff, hfirst, hmid, hends]
    exact ⟨⟨hhi, hrel.keyed, hcount⟩, ⟨rfl, rfl⟩, ⟨hp.top, hp.clear⟩, rfl⟩
  have hquery : tReadQuery part asked.t =
      ((tAnswer part asked.t (p ||| 0x10)).1, some (tAnswer part asked.t (p ||| 0x10)).2) := by
    unfold tReadQuery
    rw [hframe]
  -- the other halves of the device, write by write
  obtain ⟨-, hd₁, hs₁, hb₁, -⟩ := data_next part hrel.probe dev p
  obtain ⟨-, hd₂, hs₂, hb₂, -⟩ := data_next part hrel.probe ((device part).next dev (.data p)) (p ||| 0x10)
  obtain ⟨-, hd₃, hs₃, hb₃, hlast₃⟩ :=
    data_next part hrel.probe ((device part).next ((device part).next dev (.data p)) (.data (p ||| 0x10))) p
  have hunseen (h : Hd) : decoderWrite part h p = h := if_neg (by rw [payload_unseen hhi hrel.ident hp]; decide)
  rw [hunseen] at hd₁ hd₃
  have hhd : asked.hd = decoderWrite part dev.hd (p ||| 0x10) := by
    rw [hsame.hd]
    exact hd₃.trans (hd₂.trans (congrArg (decoderWrite part · (p ||| 0x10)) hd₁))
  have hhs : asked.hs = dev.hs := hsame.hs.trans (hs₃.trans (hs₂.trans hs₁))
  have hmode : asked.hb.mode = dev.hb.mode := by
    have hhb := hsame.hb.trans hb₃
    rw [hhb, burst_payload _ hpay.even, hb₂, burst_payload _ hpay.raisedEven, hb₁, burst_payload _ hpay.even]
  have hlast : asked.link.lastData = p := hsame.last.trans hlast₃
  have hregister : registerStep part.tKey asked.t.mode asked.t.cur (p ||| 0x10) =
      registerStep part.tKey dev.t.mode dev.t.cur (p ||| 0x10) := by
    rw [hpoised.cur, hpoised.mode]
  have hbit : (registerStep part.tKey dev.t.mode dev.t.cur (p ||| 0x10)).2 = registerBit part dev.t p :=
    consult_keyBit part.tKey dev.t.mode dev.t.cur (queryIndex (p ||| 0x10))
  have hread : ppReadStatus part asked =
      ({ asked with
          t := { (tAnswer part asked.t (p ||| 0x10)).1 with nrecent := 0 }
          hd := { asked.hd with ph := .idle, n := 0 } }, hdDo (tAnswer part asked.t (p ||| 0x10)).2) := by
    rw [ppReadStatus_hasp part asked hrel.probe]
    unfold haspStatus
    rw [hquery]
  rw [hread]
  refine ⟨?_, hhs, ?_⟩
  · rw [← hbit, ← hregister]
    rfl
  · constructor
    case cur => exact congrArg Prod.fst hregister
    case pending => exact hpoised.pending
    case few => exact Nat.zero_le 1
    case newest => exact hends
    case idle => rfl
    case ready =>
      change asked.hd.ready = _
      rw [hhd]
    case mode => exact hmode
    case lastData => exact hlast
    case session => exact .inl hhs

theorem hdDo_inj {a b : Bool} (h : hdDo a = hdDo b) : a = b := by
  cases a <;> cases b <;> first | rfl | exact absurd h (by decide)

theorem later_run (hrel : Release part) (hhi : part.tSessHi = true) {dev : Pp} {p : Byte} (hp : Payload p)
    (hagrees : Agrees part dev p) (ops : List Op) (hops : ∀ op ∈ ops, Steady p op) {s : Pp} (h : Answered part dev p s) :
    ∀ x ∈ (device part).trace s ops, x = hdDo (registerBit part dev.t p) := by
  induction ops generalizing s with
  | nil =>
    intro x hx
    cases hx
  | cons op ops ih =>
    have hop := hops op (by simp)
    have hrest := ih (fun o ho => hops o (by simp [ho])) (answered_next hrel hhi hp h hop)
    have hmute (hnone : (device part).answer s op = none) :
        ∀ x ∈ (device part).trace s (op :: ops), x = hdDo (registerBit part dev.t p) := by
      rw [Machine.trace_cons, hnone]
      exact hrest
    cases op with
    | data v => exact hmute rfl
    | ctrl v => exact hmute rfl
    | strobe old v => exact hmute rfl
    | latch v => exact hmute rfl
    | status =>
      have hshown : (device part).answer s .status = some (hdDo (laterBit part dev s.hs p)) :=
        congrArg some (answer_read hrel hhi hp h).1
      have hbit : laterBit part dev s.hs p = registerBit part dev.t p := by
        obtain ⟨hsweep, hsignature, -⟩ := sessionBit_payload hhi hrel.ident dev.hb s.hs hp
        unfold laterBit
        by_cases hat : AtSweep s.hs p
        · have hfirst : s.hs = dev.hs := h.session.resolve_right fun hnot => hnot hat
          rw [hsweep hat]
          rw [hfirst] at hat ⊢
          exact (hagrees.2 hat).symm
        · rw [hsignature hat]
          exact hagrees.1.symm
      intro x hx
      rw [Machine.trace_cons, hshown] at hx
      rcases List.mem_cons.mp hx with hhead | htail
      · rw [hhead, hbit]
      · exact hrest x htail

theorem answered_run (hrel : Release part) (hhi : part.tSessHi = true) {dev : Pp} {p : Byte} (hp : Payload p)
    (ops : List Op) (hops : ∀ op ∈ ops, Steady p op) {s : Pp} (h : Answered part dev p s) :
    Answered part dev p ((device part).run s ops) :=
  (device part).run_invariant_of (I := Answered part dev p) (fun _ _ hop h => answered_next hrel hhi hp h hop) h ops hops

/-- On a bit-7 release, from any history: the later reads show the first one's bit exactly where the rest of the part
    drives DO to it. -/
theorem later_reads_iff (cfg : Config) (hhi : (initPart cfg).tSessHi = true) (hist : List Op) (p : Byte) (hp : Payload p)
    (i j k : ℕ) :
    Stable (initPart cfg) ((device (initPart cfg)).run (ppInit cfg) hist) p i j k ↔
      Agrees (initPart cfg) ((device (initPart cfg)).run (ppInit cfg) hist) p := by
  generalize hpart : initPart cfg = part at hhi
  generalize hdev : (device part).run (ppInit cfg) hist = dev
  let asked := (device part).run dev (queryWrites p i j k)
  have hprobe : part.hdProbe = true := by
    rw [← hpart] at hhi ⊢
    unfold initPart at hhi ⊢
    split_ifs at hhi ⊢
    · rfl
    · cases hhi
  have hrel : Release part := by
    rw [← hpart] at hprobe ⊢
    exact release_initPart cfg hprobe
  have hheld : dev.t.pending = false := by
    rw [← hdev]
    exact reached_held part cfg hist hhi
  obtain ⟨hfirst, hhs, hanswered⟩ := first_read hrel hhi dev hheld hp i j k
  have htrace (ops : List Op) : (device part).trace asked (.status :: ops) =
      (ppReadStatus part asked).2 :: (device part).trace (ppReadStatus part asked).1 ops := rfl
  have hstatus : Steady p .status := fun _ hv => by cases hv
  constructor
  · intro hall
    have htwo := (hall [.status, .status] (by simp [hstatus])).1
    have hone := answer_read hrel hhi hp hanswered
    have htwice := answer_read hrel hhi hp hone.2.1
    have hthree : (device part).trace asked [.status, .status, .status] =
        [(ppReadStatus part asked).2, hdDo (laterBit part dev (ppReadStatus part asked).1.hs p),
          hdDo (laterBit part dev (ppReadStatus part (ppReadStatus part asked).1).1.hs p)] := by
      rw [← hone.1, ← htwice.1]
      rfl
    rw [hthree, hfirst] at htwo
    have hsecond := hdDo_inj (htwo _ (by simp : hdDo (laterBit part dev (ppReadStatus part asked).1.hs p) ∈ _))
    have hthird := hdDo_inj (htwo _
      (by simp : hdDo (laterBit part dev (ppReadStatus part (ppReadStatus part asked).1).1.hs p) ∈ _))
    rw [hhs] at hsecond
    constructor
    · rw [← hthird]
      unfold laterBit
      rw [(sessionBit_payload hhi hrel.ident dev.hb _ hp).2.1 hone.2.2]
    · intro hat
      rw [← hsecond]
      unfold laterBit
      rw [(sessionBit_payload hhi hrel.ident dev.hb _ hp).1 hat]
  · intro hagrees ops hops
    refine ⟨?_, (answered_run hrel hhi hp ops hops hanswered).cur⟩
    rw [htrace, hfirst]
    intro x hx
    rcases List.mem_cons.mp hx with hhead | htail
    · exact hhead
    · exact later_run hrel hhi hp hagrees ops hops hanswered x htail

/-- A payload at whose address the signature is as the register answers. -/
theorem later_reads_held :
    Stable (initPart (detected "Version 2003 (DE)")) (ppInit (detected "Version 2003 (DE)")) 0x82 3 3 3 :=
  (later_reads_iff (detected "Version 2003 (DE)") (by decide) [] 0x82 ⟨by decide, by decide⟩ 3 3 3).mpr
    ⟨by decide, fun hat => absurd hat.2.1 (by decide)⟩

/-- The register answers 1, and the session layer 0. -/
theorem later_read_lost :
    (device (initPart (detected "Version 2003 (DE)"))).trace (ppInit (detected "Version 2003 (DE)"))
      (queryWrites 0x80 3 3 3 ++ [.status, .status]) = [0x20, 0x00] := by
  decide +kernel

end PeepeeBox.HeldAnswers
