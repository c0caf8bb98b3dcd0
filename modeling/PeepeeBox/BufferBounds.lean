import PeepeeBox.BufferSlack
import PeepeeBox.DongleBounds

set_option autoImplicit false

/-!
# No port operation leaves its buffers

Whatever lies behind the dongle's arrays, a step reads none of it and writes none of it:
filling it in before the step or after the step is the same.
-/
namespace PeepeeBox.BufferBounds
open BufferSlack BurstCollector Cdongle CdongleFrames CdonglePictures DongleBounds DongleDevice
open KeyedRound Microwire NibbleLink

/-- What lies behind each array of `pp_t` and `cd_t`. -/
structure Slack where
  cmd : ℕ → Byte
  out : ℕ → Byte
  block : ℕ → Byte
  mem : ℕ → BitVec 16
  fold : ℕ → Byte
  win : ℕ → Byte
  recent : ℕ → Byte
  modeRounds : ℕ → ℕ
  hist : ℕ → Byte
  arg : ℕ → Byte
  tx : ℕ → Byte

def ppBlock : ℕ := 62

section Slack

variable (s : Slack)

def Slack.link (l : Link) : Link :=
  { l with
    cmd := behind ppInMax s.cmd l.cmd
    out := behind ppOutMax s.out l.out
    block := behind ppBlock s.block l.block }

def Slack.hd (h : Hd) : Hd := { h with mem := behind Microwire.hdWords s.mem h.mem }

def Slack.hs (h : Hs) : Hs := { h with fold := behind 8 s.fold h.fold }

def Slack.hb (h : Hb) : Hb := { h with win := behind 15 s.win h.win }

def Slack.keyed (t : Keyed) : Keyed :=
  { t with
    recent := behind 3 s.recent t.recent
    modeRounds := behind 5 s.modeRounds t.modeRounds }

def Slack.cd (cd : Cd) : Cd :=
  { cd with
    hist := behind 5 s.hist cd.hist
    arg := behind 12 s.arg cd.arg
    tx := behind cdRecord s.tx cd.tx }

def Slack.pp (dev : Pp) : Pp :=
  { dev with
    link := s.link dev.link
    hd := s.hd dev.hd
    hs := s.hs dev.hs
    hb := s.hb dev.hb
    t := s.keyed dev.t
    cd := s.cd dev.cd }

theorem link_cmd (l : Link) {i : ℕ} (hi : i < ppInMax) : (s.link l).cmd i = l.cmd i :=
  behind_read hi

theorem link_block (l : Link) {i : ℕ} (hi : i < ppBlock) : (s.link l).block i = l.block i :=
  behind_read hi

theorem ppQueue_slack (l : Link) (b : Byte) : ppQueue (s.link l) b = s.link (ppQueue l b) := by
  unfold ppQueue
  by_cases hfull : ppOutMax < l.outLen + 2
  · rw [if_pos hfull]
    exact if_pos hfull
  · rw [if_neg hfull]
    refine (if_neg hfull).trans ?_
    unfold Slack.link
    congr 1
    dsimp only
    rw [update_behind _ (show l.outLen < ppOutMax by omega),
      update_behind _ (show l.outLen + 1 < ppOutMax by omega)]

theorem ppQueueKeyed_slack (next : Byte → Byte) (plain plain' : ℕ → Byte) (n : ℕ) (l : Link)
    (k : Byte) (h : ∀ i < n, plain' i = plain i) :
    ppQueueKeyed next plain' n (s.link l) k = s.link (ppQueueKeyed next plain n l k) := by
  have hloop := foldl_range_commute (fun p : Link × Byte => (s.link p.1, p.2))
    (fun p i => (ppQueue p.1 (plain i ^^^ p.2), next p.2))
    (fun p i => (ppQueue p.1 (plain' i ^^^ p.2), next p.2)) (l, k) n
    (fun i hi p => by rw [h i hi, ppQueue_slack])
  unfold ppQueueKeyed
  exact congrArg Prod.fst hloop

theorem ppProgram_slack (l : Link) : ppProgram (s.link l) = s.link (ppProgram l) := by
  have hkey : (s.link l).cmd 1 = l.cmd 1 := link_cmd s l (by decide)
  have hloop := foldl_range_commute (fun p : (ℕ → Byte) × Byte => (behind ppBlock s.block p.1, p.2))
    (fun p i => (Function.update p.1 i (l.cmd (2 + i) ^^^ p.2), ppNextKey p.2))
    (fun p i => (Function.update p.1 i ((s.link l).cmd (2 + i) ^^^ p.2), ppNextKey p.2))
    (l.block, l.cmd 1) 48 (fun i hi p => by
      have hcmd : (s.link l).cmd (2 + i) = l.cmd (2 + i) :=
        link_cmd s l (by unfold ppInMax; omega)
      rw [hcmd, update_behind _ (show i < ppBlock by unfold ppBlock; omega)])
  unfold ppProgram
  rw [hkey]
  unfold Slack.link
  congr 1
  exact congrArg Prod.fst hloop

theorem ppType1_congr (name name' : ℕ → Byte) (h : ∀ j < 8, name j = name' j) :
    ppType1 name = ppType1 name' := by
  unfold ppType1
  rw [h 0 (by decide), h 1 (by decide), h 2 (by decide), h 3 (by decide), h 4 (by decide),
    h 5 (by decide), h 6 (by decide), h 7 (by decide)]

theorem ppRespond_slack (l : Link) : ppRespond (s.link l) = s.link (ppRespond l) := by
  have hname : (ppType1 fun j => (s.link l).cmd (1 + j)) = ppType1 fun j => l.cmd (1 + j) :=
    ppType1_congr _ _ fun j hj => link_cmd s l (by unfold ppInMax; omega)
  have hblock : ∀ i < ppRecvLen 3, (s.link l).block i = l.block i :=
    fun i hi => link_block s l (Nat.lt_trans hi (by decide))
  have hbusy : ∀ m : Link, { s.link m with busy := decide (0 < (s.link m).outLen) } =
      s.link { m with busy := decide (0 < m.outLen) } := fun m => rfl
  unfold ppRespond
  dsimp only
  change (fun l' : Link => { l' with busy := decide (0 < l'.outLen) })
      (if (s.link l).cmd 0 = 3 then ppQueueKeyed ppNextKey (s.link l).block (ppRecvLen 3)
          (s.link { l with outLen := 0, outPos := 0 }) ((s.link l).cmd 1)
        else if (s.link l).cmd 0 = 1 then
          ppQueueKeyed ppNextKey1 (fun i => (ppType1 fun j => (s.link l).cmd (1 + j)).getD i 0)
            (ppRecvLen 1) (s.link { l with outLen := 0, outPos := 0 }) ((s.link l).cmd 9)
        else if (s.link l).cmd 0 = 2 then ppProgram (s.link { l with outLen := 0, outPos := 0 })
        else s.link { l with outLen := 0, outPos := 0 }) = _
  rw [link_cmd s l (by decide), link_cmd s l (by decide), link_cmd s l (by decide), hname,
    ppQueueKeyed_slack s ppNextKey l.block _ _ _ _ hblock,
    ppQueueKeyed_slack s ppNextKey1 _ _ _ _ _ (fun i _ => rfl), ppProgram_slack]
  split_ifs
  all_goals exact hbusy _

theorem ppStore_slack (l : Link) (b : Byte) : ppStore (s.link l) b = s.link (ppStore l b) := by
  unfold ppStore
  by_cases hroom : l.cmdLen < ppInMax
  · rw [if_pos hroom]
    refine (if_pos hroom).trans ?_
    unfold Slack.link
    congr 1
    exact update_behind b hroom
  · rw [if_neg hroom]
    exact if_neg hroom

theorem ppHostByte_slack (l : Link) (b : Byte) :
    ppHostByte (s.link l) b = s.link (ppHostByte l b) := by
  unfold ppHostByte
  by_cases hsync : l.cmdLen = 0 ∧ 3 < b
  · rw [if_pos hsync]
    exact if_pos hsync
  · rw [if_neg hsync]
    refine (if_neg hsync).trans ?_
    have hfirst : (s.link (ppStore l b)).cmd 0 = (ppStore l b).cmd 0 :=
      link_cmd s _ (by decide)
    dsimp only
    rw [ppStore_slack, hfirst]
    by_cases hwhole : ppSendLen ((ppStore l b).cmd 0) ≤ (ppStore l b).cmdLen
    · rw [if_pos hwhole]
      refine (if_pos hwhole).trans ?_
      rw [ppRespond_slack]
      rfl
    · rw [if_neg hwhole]
      exact if_neg hwhole

theorem ppTakeNibble_slack (l : Link) (nib : Byte) :
    ppTakeNibble (s.link l) nib = s.link (ppTakeNibble l nib) := by
  unfold ppTakeNibble
  by_cases hlow : l.inHave = false
  · rw [if_pos hlow]
    exact if_pos hlow
  · rw [if_neg hlow]
    refine (if_neg hlow).trans ?_
    change { ppHostByte (s.link l) (l.inNib ||| nib <<< 4) with inHave := false } = _
    rw [ppHostByte_slack]
    rfl

theorem ppAckEdge_slack (l : Link) (cur : Byte) :
    ppAckEdge (s.link l) cur = s.link (ppAckEdge l cur) := by
  have hedge : ∀ up down : Bool,
      { (if up then
          { s.link l with
            outPos := if l.outPos < l.outLen then l.outPos + 1 else l.outPos, busy := false }
        else if down then { s.link l with busy := decide (l.outPos < l.outLen) }
        else s.link l) with lastData := cur } =
      s.link { (if up then
          { l with outPos := if l.outPos < l.outLen then l.outPos + 1 else l.outPos, busy := false }
        else if down then { l with busy := decide (l.outPos < l.outLen) }
        else l) with lastData := cur } := by
    intro up down
    cases up with
    | true => rfl
    | false =>
      cases down with
      | true => rfl
      | false => rfl
  exact hedge _ _

theorem ppWriteCtrl_slack (lpt : Option Byte) (l : Link) (val : Byte) :
    NibbleLink.ppWriteCtrl lpt (s.link l) val = s.link (NibbleLink.ppWriteCtrl lpt l val) := by
  have htake := ppTakeNibble_slack s l (lpt.getD l.lastData &&& 0x0F)
  unfold NibbleLink.ppWriteCtrl ppLatchNibble
  change (if (val ^^^ l.lastCtrl) &&& 0x0C ≠ 0 then _ else
    { (if l.haveStrobeHook = false ∧ l.lastCtrl &&& 0x01 = 0 ∧ val &&& 0x01 ≠ 0 then
        ppTakeNibble (s.link l) (lpt.getD l.lastData &&& 0x0F) else s.link l) with
      lastCtrl := val }) = _
  rw [htake]
  split_ifs
  all_goals rfl

theorem ppStrobe_slack (lpt : Option Byte) (l : Link) (old val : Byte) :
    NibbleLink.ppStrobe lpt (s.link l) old val = s.link (NibbleLink.ppStrobe lpt l old val) := by
  have htake := ppTakeNibble_slack s { l with haveStrobeHook := true } (lpt.getD l.lastData &&& 0x0F)
  unfold NibbleLink.ppStrobe ppLatchNibble
  dsimp only
  split_ifs
  · exact htake
  · rfl

theorem ppStatus_slack (l : Link) (h : LinkBounds l) : ppStatus (s.link l) = ppStatus l := by
  have hnext : l.outPos < l.outLen → (s.link l).out l.outPos = l.out l.outPos := by
    intro hmore
    have hlen := h.outLen
    exact behind_read (by omega)
  unfold ppStatus
  change (if l.busy then (if l.outPos < l.outLen then ((s.link l).out l.outPos &&& 0x0F) <<< 3 else 0)
    ||| 0x80 else 0) = _
  by_cases hmore : l.outPos < l.outLen
  · rw [hnext hmore]
  · rw [if_neg hmore, if_neg hmore]

theorem hdExecute_slack (abits : ℕ) (h : Hd) (ha : h.addr.toNat < Microwire.hdWords) :
    hdExecute abits (s.hd h) = s.hd (hdExecute abits h) := by
  obtain ⟨sk, ph, n, op, addr, sr, dout, wen, ready, mem⟩ := h
  have hread : behind Microwire.hdWords s.mem mem addr.toNat = mem addr.toNat := behind_read ha
  have herase := update_behind (g := s.mem) (f := mem) 0xFFFF ha
  unfold hdExecute Slack.hd
  dsimp only at *
  rw [hread, herase]
  rcases op with _ | _ | _ | _ | op
  · rfl
  · rfl
  · rfl
  · cases wen with
    | true => rfl
    | false => rfl
  · rfl

theorem hdClock_slack (abits : ℕ) (h : Hd) (dat : Bool) (hb : HdBounds h) :
    hdClock abits (s.hd h) dat = s.hd (hdClock abits h dat) := by
  have hstore := update_behind (g := s.mem) (f := h.mem)
    (h.sr <<< 1 ||| (BitVec.ofBool dat).setWidth 16) hb.addr
  have hmask : ∀ a : Byte, (a &&& BitVec.ofNat 8 (Microwire.hdWords - 1)).toNat <
      Microwire.hdWords := by
    intro a
    rw [BitVec.toNat_and]
    exact Nat.lt_of_le_of_lt Nat.and_le_right (by decide)
  obtain ⟨sk, ph, n, op, addr, sr, dout, wen, ready, mem⟩ := h
  unfold hdClock
  cases ph with
  | idle =>
    cases dat with
    | true => rfl
    | false => rfl
  | op =>
    dsimp only
    by_cases hlast : n + 1 = 2
    · rw [if_pos hlast]
      exact if_pos hlast
    · rw [if_neg hlast]
      exact if_neg hlast
  | addr =>
    dsimp only
    by_cases hlast : n + 1 = abits
    · rw [if_pos hlast]
      refine Eq.trans ?_ (hdExecute_slack s abits _ (hmask _))
      exact if_pos hlast
    · rw [if_neg hlast]
      exact if_neg hlast
  | read => rfl
  | write =>
    dsimp only
    by_cases hlast : n + 1 = 16
    · rw [if_pos hlast]
      refine (if_pos hlast).trans ?_
      cases wen with
      | true =>
        unfold Slack.hd
        congr 1
      | false => rfl
    · rw [if_neg hlast]
      exact if_neg hlast
  | done => rfl

theorem hdWriteData_slack (abits : ℕ) (h : Hd) (val : Byte) (hb : HdBounds h) :
    hdWriteData abits (s.hd h) val = s.hd (hdWriteData abits h val) := by
  unfold hdWriteData
  by_cases hcs : hdCs val = false
  · rw [if_pos hcs, if_pos hcs]
    rfl
  · rw [if_neg hcs, if_neg hcs]
    by_cases hsk : hdSk val = true ∧ h.sk = false
    · rw [if_pos hsk, if_pos (show hdSk val = true ∧ (s.hd h).sk = false from hsk),
        hdClock_slack s abits h _ hb]
      rfl
    · rw [if_neg hsk, if_neg (show ¬(hdSk val = true ∧ (s.hd h).sk = false) from hsk)]
      rfl

theorem hsBurstClass_congr (b b' : ℕ → Byte) (pw : BitVec 32) (h : ∀ i < 15, b i = b' i) :
    hsBurstClass b pw = hsBurstClass b' pw := by
  have hramp : ((List.range 15).all fun i => b i == hsRampBurst i) =
      (List.range 15).all fun i => b' i == hsRampBurst i := by
    rw [Bool.eq_iff_iff, List.all_eq_true, List.all_eq_true]
    constructor
    · intro hall i hi
      rw [← h i (List.mem_range.mp hi)]
      exact hall i hi
    · intro hall i hi
      rw [h i (List.mem_range.mp hi)]
      exact hall i hi
  have hscan : scanBurst b pw 15 = scanBurst b' pw 15 := by
    apply foldl_range_congr
    intro i hi sc
    unfold scanByte
    rw [h i hi]
  unfold hsBurstClass
  rw [hramp, hscan]

theorem hbCollect_slack (pw : BitVec 32) (h : Hb) (b : Byte) (hhigh : h.n ≤ 14) :
    hbCollect pw (s.hb h) b = s.hb (hbCollect pw h b) := by
  have hwin := update_behind (g := s.win) (f := h.win) b (show h.n.toNat < 15 by omega)
  have hclass : hsBurstClass (behind 15 s.win (Function.update h.win h.n.toNat b)) pw =
      hsBurstClass (Function.update h.win h.n.toNat b) pw :=
    hsBurstClass_congr _ _ pw fun i hi => behind_read hi
  unfold hbCollect Slack.hb
  dsimp only
  rw [hwin, hclass]
  by_cases hfull : h.n + 1 = 15
  · rw [if_pos hfull, if_pos hfull]
  · rw [if_neg hfull, if_neg hfull]

theorem hbData_slack (pw : BitVec 32) (h : Hb) (val : Byte) (hhigh : h.n ≤ 14) :
    hbData pw (s.hb h) val = s.hb (hbData pw h val) := by
  have hcollect := hbCollect_slack s pw h (hbPayload val) hhigh
  unfold hbData
  change { (if hbClocks h val then
      if hbPayload val = 0x46 then { s.hb h with n := 0 }
      else if 0 ≤ h.n then hbCollect pw (s.hb h) (hbPayload val)
      else s.hb h
    else s.hb h) with prev := val } = _
  rw [hcollect]
  dsimp only
  split_ifs
  all_goals rfl

theorem keyed_recent (t : Keyed) {i : ℕ} (hi : i < 3) : (s.keyed t).recent i = t.recent i :=
  behind_read hi

theorem tWindow_slack (t : Keyed) (val : Byte) :
    tWindow (s.keyed t) val = s.keyed (tWindow t val) := by
  have hshift : (fun i => if i = 0 then (s.keyed t).recent 1 else if i = 1 then (s.keyed t).recent 2
      else if i = 2 then val else (s.keyed t).recent i) =
      behind 3 s.recent (fun i => if i = 0 then t.recent 1 else if i = 1 then t.recent 2
        else if i = 2 then val else t.recent i) := by
    funext i
    rcases i with _ | _ | _ | i
    · rfl
    · rfl
    · rfl
    · have hpast : 3 ≤ i + 3 := Nat.le_add_left 3 i
      change behind 3 s.recent t.recent (i + 3) = behind 3 s.recent _ (i + 3)
      rw [behind_past hpast, behind_past hpast]
  unfold tWindow
  rw [hshift, keyed_recent s t (by decide)]
  by_cases hslide : t.nrecent = 0 ∨ t.recent 2 ≠ val
  · rw [if_pos hslide]
    exact if_pos hslide
  · rw [if_neg hslide]
    exact if_neg hslide

theorem tData_slack (part : Part) (t : Keyed) (val : Byte) :
    tData part (s.keyed t) val = s.keyed (tData part t val) := by
  have hclock : ∀ t : Keyed, tModeClock (s.keyed t) val = s.keyed (tModeClock t val) := by
    intro t
    unfold tModeClock
    split_ifs with h₁ h₂ h₃
    · rfl
    · rfl
    · exact absurd h₂ h₃
    · rename_i h₃
      exact absurd h₃ h₂
    · rfl
  have hrelease : ∀ t : Keyed, tRelease part (s.keyed t) val = s.keyed (tRelease part t val) := by
    intro t
    unfold tRelease
    by_cases hgone : part.tSessHi = true ∧ val ≠ t.holdVal
    · rw [if_pos hgone]
      exact if_pos hgone
    · rw [if_neg hgone]
      exact if_neg hgone
  have hedges : ∀ t : Keyed, tEdges part (s.keyed t) val = s.keyed (tEdges part t val) := by
    intro t
    have hedge : ∀ preamble query : Bool,
        (if preamble then
          { s.keyed t with
            cur := part.tInit.setWidth 32, pending := false, qn := 0, mode := t.modeclk }
        else if query then
          { (tStep part (s.keyed t) val).1 with
            ans := (tStep part t val).2, pending := true, holdVal := val }
        else s.keyed t) =
        s.keyed (if preamble then
          { t with cur := part.tInit.setWidth 32, pending := false, qn := 0, mode := t.modeclk }
        else if query then
          { (tStep part t val).1 with
            ans := (tStep part t val).2, pending := true, holdVal := val }
        else t) := by
      intro preamble query
      cases preamble with
      | true => rfl
      | false =>
        cases query with
        | true => rfl
        | false => rfl
    exact hedge _ _
  unfold tData
  dsimp only
  rw [tWindow_slack, hclock, hrelease, hedges]
  split_ifs
  · rfl
  · rfl

theorem tFramed_slack (part : Part) (t : Keyed) : tFramed part (s.keyed t) = tFramed part t := by
  unfold tFramed
  dsimp only
  by_cases hopen : part.tSessHi = false ∨ part.tKey = 0 ∨ t.nrecent < 3
  · rw [if_pos hopen]
    exact if_pos hopen
  · have hread : ∀ i < 3, (s.keyed t).recent (3 - t.nrecent + i) = t.recent (3 - t.nrecent + i) :=
      fun i hi => keyed_recent s t (by omega)
    rw [if_neg hopen]
    refine (if_neg hopen).trans ?_
    change (if (s.keyed t).recent (3 - t.nrecent + 2) ≠ (s.keyed t).recent (3 - t.nrecent + 0) ∨
      (s.keyed t).recent (3 - t.nrecent + 1) ≠ (s.keyed t).recent (3 - t.nrecent + 0) ||| 0x10 ∨
      (s.keyed t).recent (3 - t.nrecent + 0) &&& 0x80 = 0 ∨
      (s.keyed t).recent (3 - t.nrecent + 0) &&& 0x11 ≠ 0 then none
      else some ((s.keyed t).recent (3 - t.nrecent + 1))) = _
    rw [hread 0 (by decide), hread 1 (by decide), hread 2 (by decide)]

theorem tReadQuery_slack (part : Part) (t : Keyed) :
    tReadQuery part (s.keyed t) = (s.keyed (tReadQuery part t).1, (tReadQuery part t).2) := by
  have hrounds : (if t.qn = 38 ∧ 1 ≤ t.mode ∧ t.mode ≤ 4 then
      Function.update (s.keyed t).modeRounds t.mode ((s.keyed t).modeRounds t.mode + 1)
      else (s.keyed t).modeRounds) = behind 5 s.modeRounds
      (if t.qn = 38 ∧ 1 ≤ t.mode ∧ t.mode ≤ 4 then
        Function.update t.modeRounds t.mode (t.modeRounds t.mode + 1) else t.modeRounds) := by
    split_ifs with hround
    · have hmode : t.mode < 5 := by omega
      have hread : (s.keyed t).modeRounds t.mode = t.modeRounds t.mode := behind_read hmode
      rw [hread]
      exact update_behind _ hmode
    · rfl
  unfold tReadQuery
  rw [tFramed_slack]
  cases tFramed part t with
  | none => rfl
  | some q =>
    exact congrArg (fun rounds =>
      (({ s.keyed t with
          qn := t.qn + 1, modeRounds := rounds
          cur := (registerStep part.tKey t.mode t.cur q).1 } : Keyed),
        some (registerStep part.tKey t.mode t.cur q).2)) hrounds

theorem sweepFold_slack (h : Hs) (n : ℕ) (bit : Bool) :
    sweepFold (s.hs h) n bit = s.hs (sweepFold h n bit) := by
  have hcell : n < 64 → n >>> 3 < 8 := by
    intro hn
    rw [Nat.shiftRight_eq_div_pow]
    omega
  have hreset : HaspRecord.memset (s.hs h).fold 0 8 0 =
      behind 8 s.fold (HaspRecord.memset h.fold 0 8 0) := by
    funext i
    unfold HaspRecord.memset Slack.hs behind
    dsimp only
    split_ifs with hall hin hin
    · rfl
    · omega
    · rfl
    · rfl
  have hturn : ∀ h : Hs, n < 64 → Function.update (s.hs h).fold (n >>> 3)
      ((s.hs h).fold (n >>> 3) <<< 1 ||| (BitVec.ofBool bit).setWidth 8) =
      behind 8 s.fold (Function.update h.fold (n >>> 3)
        (h.fold (n >>> 3) <<< 1 ||| (BitVec.ofBool bit).setWidth 8)) := by
    intro h hn
    have hread : (s.hs h).fold (n >>> 3) = h.fold (n >>> 3) := behind_read (hcell hn)
    rw [hread]
    exact update_behind _ (hcell hn)
  have hstart : (if n ≠ (s.hs h).foldNext then
      { s.hs h with fold := HaspRecord.memset (s.hs h).fold 0 8 0, foldNext := 0 } else s.hs h) =
      s.hs (if n ≠ h.foldNext then
        { h with fold := HaspRecord.memset h.fold 0 8 0, foldNext := 0 } else h) := by
    rw [hreset, apply_ite s.hs]
    rfl
  unfold sweepFold
  rw [hstart]
  dsimp only
  by_cases hn : n < 64
  · rw [if_pos hn, if_pos hn]
    exact congrArg (fun f => { s.hs _ with fold := f, foldNext := if n = 63 then 0 else n + 1 })
      (hturn _ hn)
  · rw [if_neg hn, if_neg hn]

def Slack.session (r : Hs × Bool) : Hs × Bool := (s.hs r.1, r.2)

theorem sessionBit_slack (part : Part) (hb : Hb) (hs : Hs) (w : Byte) :
    sessionBit part (s.hb hb) (s.hs hs) w = s.session (sessionBit part hb hs w) := by
  have hbit : ∀ n, hsSweepBit part (s.hb hb) (s.hs hs) n = s.session (hsSweepBit part hb hs n) :=
    fun n => congrArg (fun h => (h, sweepAnswer part hb n)) (sweepFold_slack s hs n _)
  have hsweep : ∀ n m, (fun r : Hs × Bool => (({ r.1 with sweep := m, ramping := false } : Hs), r.2))
      (hsSweepBit part (s.hb hb) (s.hs hs) n) =
      s.session ((fun r : Hs × Bool => ({ r.1 with sweep := m, ramping := false }, r.2))
        (hsSweepBit part hb hs n)) := by
    intro n m
    rw [hbit]
    rfl
  unfold sessionBit
  generalize (if part.tSessHi = true then w &&& 0x7F else w) = sw
  refine ite_commute s.session rfl ?_
  refine ite_commute s.session rfl ?_
  refine ite_commute s.session rfl ?_
  refine ite_commute s.session (hsweep hs.sweep _) ?_
  refine ite_commute s.session (hsweep 0 1) ?_
  exact ite_commute s.session rfl rfl

section Token

variable (block block' : ℕ → Byte)

theorem cdShift_slack (cd : Cd) (val : Byte) :
    cdShift (s.cd cd) val = s.cd (cdShift cd val) := by
  have hslide : (fun i => if i < 4 then (s.cd cd).hist (i + 1) else (s.cd cd).hist i) =
      behind 5 s.hist (fun i => if i < 4 then cd.hist (i + 1) else cd.hist i) := by
    funext i
    by_cases hi : i < 4
    · rw [if_pos hi, behind_read (Nat.lt_succ_of_lt hi), if_pos hi]
      exact behind_read (Nat.succ_lt_succ hi)
    · rw [if_neg hi]
      unfold behind
      dsimp only
      rw [if_neg hi]
      rfl
  let slid : Cd → Cd := fun c =>
    if 5 ≤ c.nhist then
      { c with hist := fun i => if i < 4 then c.hist (i + 1) else c.hist i, nhist := 4 }
    else c
  let push : Cd → Cd := fun c =>
    { c with hist := Function.update c.hist c.nhist val, nhist := c.nhist + 1 }
  have hslid : slid (s.cd cd) = s.cd (slid cd) := by
    refine ite_commute s.cd ?_ rfl
    exact congrArg (fun hist => { s.cd cd with hist := hist, nhist := 4 }) hslide
  have hroom : (slid cd).nhist < 5 := by
    unfold slid
    split_ifs with hfull
    · exact Nat.lt_succ_self 4
    · exact Nat.lt_of_not_le hfull
  have hpush : push (s.cd (slid cd)) = s.cd (push (slid cd)) :=
    congrArg (fun hist => { s.cd (slid cd) with hist := hist, nhist := (slid cd).nhist + 1 })
      (update_behind val hroom)
  exact (congrArg push hslid).trans hpush

theorem cdFrame_slack (cd : Cd) : cdFrame (s.cd cd).hist = cdFrame cd.hist := by
  have hread : ∀ i < 5, (s.cd cd).hist i = cd.hist i := fun i hi => behind_read hi
  unfold cdFrame
  rw [hread 0 (by decide), hread 1 (by decide), hread 2 (by decide), hread 3 (by decide),
    hread 4 (by decide)]

theorem cdAssemble_slack (cd : Cd) (val : Byte) :
    cdAssemble (s.cd cd) val = (s.cd (cdAssemble cd val).1, (cdAssemble cd val).2) := by
  have hframe := cdFrame_slack s (cdShift cd val)
  unfold cdAssemble
  dsimp only
  rw [cdShift_slack, hframe]
  refine ite_commute (fun r : Cd × Option Byte => (s.cd r.1, r.2)) rfl ?_
  cases cdFrame (cdShift cd val).hist with
  | none => rfl
  | some b => rfl

theorem cdName_slack (cd : Cd) (h : cd.nargs ≤ 12) : cdName (s.cd cd) = cdName cd := by
  funext i
  unfold cdName
  change (if 4 + i < cd.nargs then (s.cd cd).arg (4 + i) else 0x20) = _
  by_cases hi : 4 + i < cd.nargs
  · rw [if_pos hi, if_pos hi]
    exact behind_read (by omega)
  · rw [if_neg hi, if_neg hi]

theorem cdQueue_slack (cd : Cd) (n : ℕ) (plain plain' : ℕ → Byte) (hn : n ≤ cdRecord)
    (h : ∀ i < n, plain' i = plain i) :
    cdQueue (s.cd cd) n plain' = s.cd (cdQueue cd n plain) := by
  have hbytes : (fun i => if i < n then plain' i ^^^ cd.key else (s.cd cd).tx i) =
      behind cdRecord s.tx (fun i => if i < n then plain i ^^^ cd.key else cd.tx i) := by
    rw [← behind_prefix _ hn]
    funext i
    by_cases hi : i < n
    · rw [if_pos hi, if_pos hi, h i hi]
    · rw [if_neg hi, if_neg hi]
      rfl
  exact congrArg (fun tx => { s.cd cd with txLen := n, tx := tx }) hbytes

theorem cd_arg (cd : Cd) {i : ℕ} (hi : i < 12) : (s.cd cd).arg i = cd.arg i := behind_read hi

theorem cdPreparePicture_slack (cd : Cd) (h : cd.nargs ≤ 12) :
    cdPreparePicture (s.cd cd) = (cdPreparePicture cd).map s.cd := by
  unfold cdPreparePicture
  have hcmd : (s.cd cd).cmd = cd.cmd := rfl
  rw [cd_arg s cd (by decide), cd_arg s cd (by decide), cdName_slack s cd h, hcmd]
  cases cdPictureCase cd.cmd ((cd.arg 3).setWidth 16 <<< 8 ||| (cd.arg 2).setWidth 16) with
  | none => rfl
  | some which =>
    dsimp only
    cases cdPicReply which (cdName cd) with
    | none => rfl
    | some r =>
      dsimp only [Option.map]
      have hrewound : (if (s.cd cd).picReady then s.cd cd else
          { s.cd cd with txBit := 0, picReady := true }) =
          s.cd (if cd.picReady then cd else { cd with txBit := 0, picReady := true }) :=
        ite_commute s.cd rfl rfl
      refine congrArg some ?_
      exact (congrArg (fun cd => cdQueue cd 9 (cdWire r)) hrewound).trans
        (cdQueue_slack s _ 9 (cdWire r) (cdWire r) (by decide) fun i _ => rfl)

variable (hblock : ∀ i < cdRecord, block' i = block i)

include hblock in
theorem cdPrepareOther_slack (cd : Cd) :
    cdPrepareOther block' (s.cd cd) = s.cd (cdPrepareOther block cd) := by
  have hargs : (List.range 3).map (s.cd cd).arg = (List.range 3).map cd.arg := by
    apply List.map_congr_left
    intro i hi
    exact cd_arg s cd (Nat.lt_trans (List.mem_range.mp hi) (by decide))
  have hqueue : ∀ c : Cd, ∀ n plain, n ≤ cdRecord →
      cdQueue (s.cd c) n plain = s.cd (cdQueue c n plain) :=
    fun c n plain hn => cdQueue_slack s c n plain plain hn (fun i _ => rfl)
  have hrecord : ∀ c : Cd, ∀ n, n ≤ cdRecord →
      cdQueue (s.cd c) n block' = s.cd (cdQueue c n block) :=
    fun c n hn => cdQueue_slack s c n block block' hn (fun i hi => hblock i (Nat.lt_of_lt_of_le hi hn))
  unfold cdPrepareOther
  dsimp only
  have hcmd : (s.cd cd).cmd = cd.cmd := rfl
  have hnargs : (s.cd cd).nargs = cd.nargs := rfl
  rw [hargs, cd_arg s cd (by decide), cd_arg s cd (by decide), cd_arg s cd (by decide), hcmd, hnargs]
  cases cdAnswers.find? fun a =>
      cd.cmd == a.cmd && decide (3 ≤ cd.nargs) && (List.range 3).map cd.arg == a.arg with
  | some a => exact hqueue { cd with txBit := 0 } 2 _ (by decide)
  | none =>
    refine ite_commute s.cd rfl ?_
    refine ite_commute s.cd (hqueue { cd with txBit := 0 } 2 _ (by decide)) ?_
    refine ite_commute s.cd (hqueue { cd with txBit := 0 } 1 _ (by decide)) ?_
    refine ite_commute s.cd ?_ (hrecord { cd with txBit := 0 } cdRecord (Nat.le_refl _))
    split_ifs with hodd
    · rfl
    · exact hrecord { cd with txBit := 0 } _ (by omega)

include hblock in
theorem cdPrepare_slack (cd : Cd) (h : cd.nargs ≤ 12) :
    cdPrepare block' (s.cd cd) = s.cd (cdPrepare block cd) := by
  have hpicture : cdPreparePicture { s.cd cd with refuse := false } =
      (cdPreparePicture { cd with refuse := false }).map s.cd :=
    cdPreparePicture_slack s { cd with refuse := false } h
  have hother : cdPrepareOther block' { s.cd cd with refuse := false } =
      s.cd (cdPrepareOther block { cd with refuse := false }) :=
    cdPrepareOther_slack s block block' hblock { cd with refuse := false }
  unfold cdPrepare
  refine ite_commute s.cd ?_ hother
  rw [hpicture, hother]
  cases cdPreparePicture { cd with refuse := false } with
  | none => rfl
  | some cd' => rfl

include hblock in
theorem cdTrailer_slack (cd : Cd) (val : Byte) (h : cd.nargs ≤ 12) :
    cdTrailer block' (s.cd cd) val = s.cd (cdTrailer block cd val) := by
  have hready : ∀ c : Cd, c.nargs ≤ 12 → { cdPrepare block' (s.cd c) with state := .ready } =
      s.cd { cdPrepare block c with state := .ready } := by
    intro c hc
    rw [cdPrepare_slack s block block' hblock c hc]
    rfl
  let grow : Cd → Cd := fun c =>
    if c.nargs < 12 then
      { c with arg := Function.update c.arg c.nargs (c.pending ^^^ c.key), nargs := c.nargs + 1 }
    else c
  let plain : Cd := { cd with awaitTrailer := false, claimable := true }
  have hgrow : grow (s.cd plain) = s.cd (grow plain) := by
    by_cases hroom : cd.nargs < 12
    · have harg := update_behind (g := s.arg) (f := cd.arg) (cd.pending ^^^ cd.key) hroom
      refine ite_commute s.cd ?_ rfl
      exact congrArg (fun arg => { s.cd plain with arg := arg, nargs := cd.nargs + 1 }) harg
    · exact (if_neg hroom).trans (congrArg s.cd (if_neg hroom).symm)
  have hgrown : (grow plain).nargs ≤ 12 := by
    unfold grow
    split_ifs with hroom
    · exact hroom
    · exact h
  unfold cdTrailer
  refine ite_commute s.cd ?_ (ite_commute s.cd rfl ?_)
  · exact hready
      { cd with
        awaitTrailer := false, claimable := true, key := cd.nonceRaw ^^^ 0xD3
        cmd := cd.pending ^^^ (cd.nonceRaw ^^^ 0xD3), haveCmd := true, picReady := false
        nargs := 0 } (Nat.zero_le _)
  · exact (congrArg (fun c => { cdPrepare block' c with state := .ready }) hgrow).trans
      (hready (grow plain) hgrown)

include hblock in
theorem cdListen_slack (cd : Cd) (val : Byte) (h : cd.nargs ≤ 12) :
    cdListen block' (s.cd cd) val = s.cd (cdListen block cd val) := by
  have htrail : (if cd.awaitTrailer then cdTrailer block' (s.cd cd) val else s.cd cd) =
      s.cd (if cd.awaitTrailer then cdTrailer block cd val else cd) :=
    ite_commute s.cd (cdTrailer_slack s block block' hblock cd val h) rfl
  have hasm := cdAssemble_slack s (if cd.awaitTrailer then cdTrailer block cd val else cd) val
  have hawait : (s.cd cd).awaitTrailer = cd.awaitTrailer := rfl
  unfold cdListen
  rw [hawait, htrail]
  dsimp only
  rw [hasm]
  generalize cdAssemble (if cd.awaitTrailer then cdTrailer block cd val else cd) val = r
  obtain ⟨c, o⟩ := r
  cases o with
  | none => rfl
  | some b => rfl

def Slack.switched (r : Cd × Bool) : Cd × Bool := (s.cd r.1, r.2)

include hblock in
theorem cdSwitch_slack (cd : Cd) (val : Byte) (h : cd.nargs ≤ 12) :
    cdSwitch block' (s.cd cd) val = s.switched (cdSwitch block cd val) := by
  have hlisten := cdListen_slack s block block' hblock cd val h
  have hstate : (s.cd cd).state = cd.state := rfl
  unfold cdSwitch
  rw [hlisten, hstate]
  cases cd.state with
  | idle => rfl
  | ready => rfl
  | armed => exact congrArg (fun c => (c, false)) (ite_commute s.cd rfl rfl)
  | hs =>
    refine congrArg (fun c => (c, false)) (ite_commute s.cd ?_ ?_)
    · exact ite_commute s.cd rfl rfl
    · exact ite_commute s.cd rfl (ite_commute s.cd rfl rfl)
  | stream =>
    refine ite_commute s.switched ?_ ?_
    · exact ite_commute s.switched rfl rfl
    · exact ite_commute s.switched (ite_commute s.switched rfl rfl) rfl

include hblock in
theorem cdWriteData_slack (cd : Cd) (val : Byte) (h : cd.nargs ≤ 12) :
    cdWriteData block' (s.cd cd) val = s.cd (cdWriteData block cd val) := by
  have hswitch := cdSwitch_slack s block block' hblock (cdNote cd val) val h
  unfold cdWriteData
  refine ite_commute s.cd rfl ?_
  change cdClaim (cdSwitch block' (s.cd (cdNote cd val)) val).1
    (cdSwitch block' (s.cd (cdNote cd val)) val).2 val = _
  rw [hswitch]
  exact ite_commute s.cd rfl rfl

end Token

theorem cdAck_local (cd : Cd) (tx : ℕ → Byte) (h : ∀ i < cd.txLen, tx i = cd.tx i) :
    cdAck { cd with tx := tx } = cdAck cd := by
  unfold cdAck
  dsimp only
  by_cases hmore : cd.txBit < cd.txLen * 8
  · have hcell : cd.txBit >>> 3 < cd.txLen := by
      rw [Nat.shiftRight_eq_div_pow]
      omega
    rw [h _ hcell]
  · rw [if_neg hmore, if_neg hmore]

theorem cdAck_slack (cd : Cd) (h : cd.txLen ≤ cdRecord) : cdAck (s.cd cd) = cdAck cd :=
  cdAck_local { cd with hist := behind 5 s.hist cd.hist, arg := behind 12 s.arg cd.arg }
    (behind cdRecord s.tx cd.tx) fun _ hi => behind_read (Nat.lt_of_lt_of_le hi h)

theorem haspWrite_slack (part : Part) (dev : Pp) (val : Byte) (h : Bounded dev) :
    haspWrite part (s.pp dev) val = s.pp (haspWrite part dev val) := by
  have hhb : (if part.hbGate then hbData part.hbPw (s.hb dev.hb) val else s.hb dev.hb) =
      s.hb (if part.hbGate then hbData part.hbPw dev.hb val else dev.hb) :=
    ite_commute s.hb (hbData_slack s part.hbPw dev.hb val h.collected) rfl
  have ht : (if part.tKey ≠ 0 then tData part (s.keyed dev.t) val else s.keyed dev.t) =
      s.keyed (if part.tKey ≠ 0 then tData part dev.t val else dev.t) :=
    ite_commute s.keyed (tData_slack s part dev.t val) rfl
  have hhd : (if hdSees part val then hdWriteData part.hdAbits (s.hd dev.hd) val else s.hd dev.hd) =
      s.hd (if hdSees part val then hdWriteData part.hdAbits dev.hd val else dev.hd) :=
    ite_commute s.hd (hdWriteData_slack s part.hdAbits dev.hd val h.hd) rfl
  unfold haspWrite Slack.pp
  dsimp only
  rw [hhb, ht, hhd]

theorem ppWriteData_slack (part : Part) (dev : Pp) (val : Byte) (h : Bounded dev) :
    ppWriteData part (s.pp dev) val = s.pp (ppWriteData part dev val) := by
  let heard : Pp → Pp := fun d => if part.hdProbe then haspWrite part d val else d
  let told : Pp → Pp := fun d =>
    { d with cd := cdWriteData d.link.block d.cd val, link := ppAckEdge d.link val }
  have hheard : heard (s.pp dev) = s.pp (heard dev) :=
    ite_commute s.pp (haspWrite_slack s part dev val h) rfl
  have hargs : (heard dev).cd.nargs ≤ 12 := by
    unfold heard
    split_ifs
    · exact h.cd.nargs
    · exact h.cd.nargs
  have htold : ∀ d : Pp, d.cd.nargs ≤ 12 → told (s.pp d) = s.pp (told d) := by
    intro d hd
    have hcd := cdWriteData_slack s d.link.block (s.link d.link).block
      (fun i hi => link_block s d.link (Nat.lt_trans hi (by decide))) d.cd val hd
    have hlink := ppAckEdge_slack s d.link val
    unfold told Slack.pp
    dsimp only
    rw [hcd, hlink]
  exact (congrArg told hheard).trans (htold (heard dev) hargs)

/-- A read's answer, with the state it leaves. -/
def Slack.read (r : Pp × Byte) : Pp × Byte := (s.pp r.1, r.2)

theorem haspStatus_slack (part : Part) (dev : Pp) :
    haspStatus part (s.pp dev) = s.read (haspStatus part dev) := by
  have hquery : tReadQuery part (s.pp dev).t =
      (s.keyed (tReadQuery part dev.t).1, (tReadQuery part dev.t).2) :=
    tReadQuery_slack s part dev.t
  have hsession := sessionBit_slack s part dev.hb dev.hs dev.link.lastData
  unfold haspStatus
  rw [hquery]
  dsimp only
  cases (tReadQuery part dev.t).2 with
  | some ans => rfl
  | none =>
    refine ite_commute s.read rfl (ite_commute s.read rfl ?_)
    exact congrArg (fun r : Hs × Bool =>
      ({ s.pp { dev with t := { (tReadQuery part dev.t).1 with nrecent := 0 } } with
          hd := { s.hd dev.hd with ph := .idle, n := 0 }, hs := r.1 },
        hdDo (dev.hd.ready || r.2))) hsession

theorem ppReadStatus_slack (part : Part) (dev : Pp) (h : Bounded dev) :
    ppReadStatus part (s.pp dev) = s.read (ppReadStatus part dev) := by
  cases hp : part.hdProbe with
  | true =>
    rw [ppReadStatus_hasp part dev hp, ppReadStatus_hasp part (s.pp dev) hp]
    exact haspStatus_slack s part dev
  | false =>
    cases ha : dev.cd.active with
    | true =>
      rw [ppReadStatus_token part dev hp ha, ppReadStatus_token part (s.pp dev) hp ha]
      exact congrArg (fun ack : Bool => (s.pp dev, if ack then (0x40 : Byte) else 0x00))
        (cdAck_slack s dev.cd h.cd.txLen)
    | false =>
      have hlink : pollLink (s.pp dev) = s.link (pollLink dev) := by
        have hlpt : (s.pp dev).lpt = dev.lpt := rfl
        unfold pollLink
        rw [hlpt]
        cases dev.lpt with
        | none => rfl
        | some dat => exact ppAckEdge_slack s dev.link dat
      rw [ppReadStatus_queue part dev hp ha, ppReadStatus_queue part (s.pp dev) hp ha, hlink,
        ppStatus_slack s _ (pollLink_bounds dev h.link)]
      rfl

theorem devStep_slack (part : Part) (dev : Pp) (op : Op) (h : Bounded dev) :
    devStep part (s.pp dev) op = (s.pp (devStep part dev op).1, (devStep part dev op).2) := by
  cases op with
  | data val =>
    have hwrite := ppWriteData_slack s part dev val h
    unfold devStep
    dsimp only
    rw [hwrite]
    rfl
  | ctrl val =>
    exact congrArg (fun l => ({ s.pp dev with link := l }, none))
      (ppWriteCtrl_slack s dev.lpt dev.link val)
  | strobe old val =>
    exact congrArg (fun l => ({ s.pp dev with link := l }, none))
      (ppStrobe_slack s dev.lpt dev.link old val)
  | status =>
    have hread := ppReadStatus_slack s part dev h
    unfold devStep
    dsimp only
    rw [hread]
    rfl
  | latch val => rfl

end Slack

/-- The cursors of `pp_t` and `cd_t` against the arrays they index. -/
structure InRange (dev : Pp) : Prop where
  cmdLen : dev.link.cmdLen < ppInMax
  outPos : dev.link.outPos ≤ dev.link.outLen
  outLen : dev.link.outLen ≤ ppOutMax
  addr : dev.hd.addr.toNat < 64
  sweep : dev.hs.sweep ≤ 64
  collecting : -1 ≤ dev.hb.n
  collected : dev.hb.n ≤ 14
  nrecent : dev.t.nrecent ≤ 3
  nhist : dev.cd.nhist ≤ 5
  nargs : dev.cd.nargs ≤ 12
  txLen : dev.cd.txLen ≤ 48
  attn : dev.cd.attn ≤ 8

theorem inRange_of_bounded {dev : Pp} (h : Bounded dev) : InRange dev :=
  { cmdLen := h.link.cmdLen
    outPos := h.link.outPos
    outLen := h.link.outLen
    addr := h.hd.addr
    sweep := h.hs.sweep
    collecting := h.collecting
    collected := h.collected
    nrecent := h.nrecent
    nhist := h.cd.nhist
    nargs := h.cd.nargs
    txLen := h.cd.txLen
    attn := h.cd.attn }

/-- After any traffic the cursors are in range, ACK is read off the reply's own bytes, the
    length table is entered at one of its four types, and the next operation stays inside
    every buffer whatever lies behind it. -/
theorem representation_invariant (cfg : Config) (ops : List Op) :
    let part := initPart cfg
    let dev := (device part).run (ppInit cfg) ops
    InRange dev ∧
      (∀ tx : ℕ → Byte, (∀ i < dev.cd.txLen, tx i = dev.cd.tx i) →
        cdAck { dev.cd with tx := tx } = cdAck dev.cd) ∧
      (∀ b, ¬(dev.link.cmdLen = 0 ∧ 3 < b) → (ppStore dev.link b).cmd 0 ≤ 3) ∧
      ∀ (s : Slack) (op : Op),
        devStep part (s.pp dev) op = (s.pp (devStep part dev op).1, (devStep part dev op).2) := by
  intro part dev
  have hbounds : Bounded dev := run_bounds cfg ops
  refine ⟨inRange_of_bounded hbounds, fun tx h => cdAck_local dev.cd tx h, ?_, ?_⟩
  · intro b hb
    exact ppStore_first dev.link b hbounds.link hb
  · intro s op
    exact devStep_slack s part dev op hbounds

end PeepeeBox.BufferBounds
