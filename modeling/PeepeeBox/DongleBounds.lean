import PeepeeBox.CdongleFrames
import PeepeeBox.SessionIdentity

set_option autoImplicit false

/-!
# The cursors of the dongle

Four protocol machines see the same writes, each with cursors of its own.
-/
namespace PeepeeBox.DongleBounds
open BurstCollector Cdongle CdongleFrames DongleDevice KeyedRound Microwire NibbleLink SessionIdentity

structure LinkBounds (l : Link) : Prop where
  framed : l.cmdLen = 0 ∨ l.cmd 0 ≤ 3 ∧ l.cmdLen < ppSendLen (l.cmd 0)
  outPos : l.outPos ≤ l.outLen
  outLen : l.outLen ≤ ppOutMax

theorem ppSendLen_le (type : Byte) (h : type ≤ 3) : ppSendLen type ≤ 50 := by
  have hcase : ∀ t : Byte, t ≤ 3 → ppSendLen t ≤ 50 := by decide +kernel
  exact hcase type h

theorem LinkBounds.cmdLen {l : Link} (h : LinkBounds l) : l.cmdLen < ppInMax := by
  unfold ppInMax
  rcases h.framed with hzero | ⟨htype, hlen⟩
  · omega
  · have hsend := ppSendLen_le (l.cmd 0) htype
    omega

theorem ppQueue_bounds (l : Link) (b : Byte) (h : l.outLen ≤ ppOutMax) :
    (ppQueue l b).outLen ≤ ppOutMax ∧ l.outLen ≤ (ppQueue l b).outLen := by
  unfold ppQueue
  split_ifs with hfull
  · exact ⟨h, Nat.le_refl _⟩
  · exact ⟨Nat.le_of_not_lt hfull, Nat.le_add_right _ 2⟩

theorem ppQueue_outPos (l : Link) (b : Byte) : (ppQueue l b).outPos = l.outPos := by
  unfold ppQueue
  split_ifs
  · rfl
  · rfl

theorem ppQueueKeyed_bounds (next : Byte → Byte) (plain : ℕ → Byte) (n : ℕ) (l : Link) (k : Byte)
    (h : l.outLen ≤ ppOutMax) :
    (ppQueueKeyed next plain n l k).outLen ≤ ppOutMax ∧
      (ppQueueKeyed next plain n l k).outPos = l.outPos := by
  unfold ppQueueKeyed
  induction n with
  | zero => exact ⟨h, rfl⟩
  | succ n ih =>
    rw [List.range_succ, List.foldl_append]
    obtain ⟨hlen, hpos⟩ := ih
    exact ⟨(ppQueue_bounds _ _ hlen).1, (ppQueue_outPos _ _).trans hpos⟩

theorem ppRespond_bounds (l : Link) :
    (ppRespond l).outLen ≤ ppOutMax ∧ (ppRespond l).outPos = 0 := by
  unfold ppRespond
  dsimp only
  split_ifs
  · exact ppQueueKeyed_bounds _ _ _ { l with outLen := 0, outPos := 0 } _ (Nat.zero_le _)
  · exact ppQueueKeyed_bounds _ _ _ { l with outLen := 0, outPos := 0 } _ (Nat.zero_le _)
  · exact ⟨Nat.zero_le _, rfl⟩
  · exact ⟨Nat.zero_le _, rfl⟩

theorem ppStore_first (l : Link) (b : Byte) (h : LinkBounds l) (hb : ¬(l.cmdLen = 0 ∧ 3 < b)) :
    (ppStore l b).cmd 0 ≤ 3 := by
  unfold ppStore
  rw [if_pos h.cmdLen]
  change Function.update l.cmd l.cmdLen b 0 ≤ 3
  rcases h.framed with hzero | ⟨htype, hlen⟩
  · rw [hzero, Function.update_self]
    exact BitVec.not_lt.mp fun hbig => hb ⟨hzero, hbig⟩
  · by_cases hfirst : l.cmdLen = 0
    · rw [hfirst, Function.update_self]
      exact BitVec.not_lt.mp fun hbig => hb ⟨hfirst, hbig⟩
    · rw [Function.update_of_ne (Ne.symm hfirst)]
      exact htype

theorem ppHostByte_bounds (l : Link) (b : Byte) (h : LinkBounds l) : LinkBounds (ppHostByte l b) := by
  unfold ppHostByte
  split_ifs with hsync
  · exact h
  · have hstore : (ppStore l b).outPos = l.outPos ∧ (ppStore l b).outLen = l.outLen := by
      unfold ppStore
      split_ifs
      · exact ⟨rfl, rfl⟩
      · exact ⟨rfl, rfl⟩
    dsimp only
    split_ifs with hwhole
    · obtain ⟨hlen, hpos⟩ := ppRespond_bounds (ppStore l b)
      refine ⟨.inl rfl, ?_, hlen⟩
      change (ppRespond (ppStore l b)).outPos ≤ _
      rw [hpos]
      exact Nat.zero_le _
    · refine ⟨.inr ⟨ppStore_first l b h hsync, Nat.lt_of_not_le hwhole⟩, ?_, ?_⟩
      · rw [hstore.1, hstore.2]
        exact h.outPos
      · rw [hstore.2]
        exact h.outLen

theorem ppTakeNibble_bounds (l : Link) (nib : Byte) (h : LinkBounds l) :
    LinkBounds (ppTakeNibble l nib) := by
  unfold ppTakeNibble
  split_ifs
  · exact ⟨h.framed, h.outPos, h.outLen⟩
  · have hbyte := ppHostByte_bounds l (l.inNib ||| nib <<< 4) h
    exact ⟨hbyte.framed, hbyte.outPos, hbyte.outLen⟩

theorem ppAckEdge_bounds (l : Link) (cur : Byte) (h : LinkBounds l) :
    LinkBounds (ppAckEdge l cur) := by
  unfold ppAckEdge
  dsimp only
  split_ifs with hrise hmore
  · exact ⟨h.framed, hmore, h.outLen⟩
  · exact ⟨h.framed, h.outPos, h.outLen⟩
  · exact ⟨h.framed, h.outPos, h.outLen⟩
  · exact ⟨h.framed, h.outPos, h.outLen⟩

theorem ppWriteCtrl_bounds (lpt : Option Byte) (l : Link) (val : Byte) (h : LinkBounds l) :
    LinkBounds (NibbleLink.ppWriteCtrl lpt l val) := by
  unfold NibbleLink.ppWriteCtrl
  split_ifs
  · exact ⟨.inl rfl, Nat.le_refl _, Nat.zero_le _⟩
  · have htake := ppTakeNibble_bounds l (lpt.getD l.lastData &&& 0x0F) h
    exact ⟨htake.framed, htake.outPos, htake.outLen⟩
  · exact ⟨h.framed, h.outPos, h.outLen⟩

theorem ppStrobe_bounds (lpt : Option Byte) (l : Link) (old val : Byte) (h : LinkBounds l) :
    LinkBounds (NibbleLink.ppStrobe lpt l old val) := by
  have hhook : LinkBounds { l with haveStrobeHook := true } := ⟨h.framed, h.outPos, h.outLen⟩
  unfold NibbleLink.ppStrobe
  dsimp only
  split_ifs
  · exact ppTakeNibble_bounds _ _ hhook
  · exact hhook

structure HdBounds (h : Hd) : Prop where
  addr : h.addr.toNat < hdWords
  arriving : h.ph = .addr → h.n < 6 ∧ h.addr.toNat < 2 ^ h.n

theorem shift_addr (a : Byte) (b : Bool) (n : ℕ) (hn : n < 6) (ha : a.toNat < 2 ^ n) :
    (a <<< 1 ||| (BitVec.ofBool b).setWidth 8).toNat < 2 ^ (n + 1) := by
  rw [BitVec.toNat_or]
  apply Nat.or_lt_two_pow
  · have hpow : 2 ^ n ≤ 2 ^ 5 := Nat.pow_le_pow_right (by decide) (by omega)
    rw [BitVec.toNat_shiftLeft, Nat.shiftLeft_eq, Nat.pow_succ, Nat.mod_eq_of_lt (by omega)]
    omega
  · have hbit : ((BitVec.ofBool b).setWidth 8).toNat ≤ 1 := by
      cases b with
      | true => decide
      | false => decide
    have hpow := Nat.one_lt_two_pow (Nat.succ_ne_zero n)
    omega

theorem hdExecute_addr (h : Hd) :
    (hdExecute 6 h).addr = h.addr ∧ ((hdExecute 6 h).ph ≠ .addr) := by
  unfold hdExecute
  split
  · exact ⟨rfl, nofun⟩
  · exact ⟨rfl, nofun⟩
  · exact ⟨rfl, nofun⟩
  · exact ⟨rfl, nofun⟩

theorem hdClock_bounds (h : Hd) (dat : Bool) (hb : HdBounds h) : HdBounds (hdClock 6 h dat) := by
  unfold hdClock
  cases hph : h.ph with
  | idle =>
    dsimp only
    split_ifs
    · exact ⟨hb.addr, nofun⟩
    · exact hb
  | op =>
    dsimp only
    split_ifs
    · exact ⟨Nat.zero_lt_succ 63, fun _ => ⟨Nat.zero_lt_succ 5, Nat.zero_lt_one⟩⟩
    · exact ⟨hb.addr, nofun⟩
  | addr =>
    obtain ⟨hn, ha⟩ := hb.arriving hph
    have hshift := shift_addr h.addr dat h.n hn ha
    dsimp only
    split_ifs with hlast
    · refine ⟨?_, fun hc => absurd hc (hdExecute_addr _).2⟩
      rw [(hdExecute_addr _).1, BitVec.toNat_and]
      exact Nat.lt_of_le_of_lt Nat.and_le_right (by decide)
    · have hroom : h.n + 1 < 6 := by omega
      have hpow : 2 ^ (h.n + 1) ≤ 2 ^ 6 := Nat.pow_le_pow_right (by decide) (by omega)
      exact ⟨Nat.lt_of_lt_of_le hshift hpow, fun _ => ⟨hroom, hshift⟩⟩
  | read => exact ⟨hb.addr, nofun⟩
  | write =>
    dsimp only
    split_ifs
    all_goals exact ⟨hb.addr, nofun⟩
  | done => exact hb

theorem hdWriteData_bounds (h : Hd) (val : Byte) (hb : HdBounds h) :
    HdBounds (hdWriteData 6 h val) := by
  have hclock := hdClock_bounds h (hdDi val) hb
  unfold hdWriteData
  dsimp only
  split_ifs
  · exact ⟨hb.addr, nofun⟩
  · exact ⟨hclock.addr, hclock.arriving⟩
  · exact ⟨hb.addr, hb.arriving⟩

theorem hbData_bounds (pw : BitVec 32) (h : Hb) (val : Byte) (hlow : -1 ≤ h.n) (hhigh : h.n ≤ 14) :
    -1 ≤ (hbData pw h val).n ∧ (hbData pw h val).n ≤ 14 := by
  unfold hbData
  dsimp only
  split_ifs with hclk hmark hopen
  · change (-1 : ℤ) ≤ 0 ∧ (0 : ℤ) ≤ 14
    omega
  · unfold hbCollect
    dsimp only
    by_cases hfull : h.n + 1 = 15
    · rw [if_pos hfull]
      change (-1 : ℤ) ≤ -1 ∧ (-1 : ℤ) ≤ 14
      omega
    · rw [if_neg hfull]
      change -1 ≤ h.n + 1 ∧ h.n + 1 ≤ 14
      omega
  · exact ⟨hlow, hhigh⟩
  · exact ⟨hlow, hhigh⟩

theorem tWindow_nrecent (t : Keyed) (val : Byte) (h : t.nrecent ≤ 3) :
    (tWindow t val).nrecent ≤ 3 := by
  unfold tWindow
  split_ifs with hslide hroom
  · exact hroom
  · exact h
  · exact h

theorem tData_nrecent (part : Part) (t : Keyed) (val : Byte) :
    (tData part t val).nrecent = (tWindow t val).nrecent := by
  unfold tData tEdges tRelease tModeClock tStep
  dsimp only
  split_ifs
  all_goals rfl

theorem sweepFold_bounds (hs : Hs) (n : ℕ) (bit : Bool) (h : hs.foldNext < 64) :
    (sweepFold hs n bit).foldNext < 64 := by
  unfold sweepFold
  dsimp only
  by_cases hin : n < 64
  · rw [if_pos hin]
    change (if n = 63 then 0 else n + 1) < 64
    split_ifs
    · exact Nat.zero_lt_succ 63
    · omega
  · rw [if_neg hin]
    split_ifs
    · exact Nat.zero_lt_succ 63
    · exact h

structure HsBounds (hs : Hs) : Prop where
  sweep : hs.sweep ≤ 64
  foldNext : hs.foldNext < 64

theorem sessionBit_bounds (part : Part) (hb : Hb) (hs : Hs) (w : Byte) (h : HsBounds hs) :
    HsBounds (sessionBit part hb hs w).1 := by
  unfold sessionBit
  dsimp only
  generalize (if part.tSessHi = true then w &&& 0x7F else w) = sw
  split_ifs with hsyn hramp hstart hsweep hfirst halive
  · exact ⟨Nat.zero_le _, h.foldNext⟩
  · exact ⟨Nat.zero_le _, h.foldNext⟩
  · exact ⟨Nat.zero_le _, h.foldNext⟩
  · exact ⟨hsweep.1, sweepFold_bounds hs _ _ h.foldNext⟩
  · exact ⟨Nat.succ_le_succ (Nat.zero_le 63), sweepFold_bounds hs _ _ h.foldNext⟩
  · exact ⟨Nat.zero_le _, h.foldNext⟩
  · exact ⟨Nat.zero_le _, h.foldNext⟩

structure CdBounds (cd : Cd) : Prop where
  nhist : cd.nhist ≤ 5
  nargs : cd.nargs ≤ 12
  txLen : cd.txLen ≤ cdRecord
  attn : cd.attn ≤ cdAttnLen

section Token

variable (block : ℕ → Byte)

theorem cdPrepare_bounds (cd : Cd) (h : CdBounds cd) : CdBounds (cdPrepare block cd) := by
  obtain ⟨n, t, b, p, r, hprep, hn, -⟩ := cdPrepare_eq block cd
  rw [hprep]
  exact ⟨h.nhist, h.nargs, hn, h.attn⟩

theorem cdTrailer_bounds (cd : Cd) (val : Byte) (h : CdBounds cd) :
    CdBounds (cdTrailer block cd val) := by
  have hready : ∀ c : Cd, CdBounds c → CdBounds { cdPrepare block c with state := .ready } := by
    intro c hc
    have hprep := cdPrepare_bounds block c hc
    exact ⟨hprep.nhist, hprep.nargs, hprep.txLen, hprep.attn⟩
  unfold cdTrailer
  dsimp only
  split_ifs with hcommand hnonce hroom
  · exact hready _ ⟨h.nhist, Nat.zero_le _, h.txLen, h.attn⟩
  · exact ⟨h.nhist, h.nargs, h.txLen, h.attn⟩
  · exact hready _ ⟨h.nhist, hroom, h.txLen, h.attn⟩
  · exact hready _ ⟨h.nhist, h.nargs, h.txLen, h.attn⟩

theorem cdAssemble_bounds (cd : Cd) (val : Byte) (h : CdBounds cd) :
    CdBounds (cdAssemble cd val).1 := by
  have hshift : CdBounds (cdShift cd val) := by
    obtain ⟨hist, hs⟩ := cdShift_eq cd val
    have hlen := cdShift_nhist cd val h.nhist
    refine ⟨by omega, ?_, ?_, ?_⟩
    all_goals rw [hs]
    · exact h.nargs
    · exact h.txLen
    · exact h.attn
  unfold cdAssemble
  dsimp only
  split_ifs
  · exact hshift
  · split
    · exact ⟨Nat.zero_le _, hshift.nargs, hshift.txLen, hshift.attn⟩
    · exact hshift

theorem cdListen_bounds (cd : Cd) (val : Byte) (h : CdBounds cd) :
    CdBounds (cdListen block cd val) := by
  have htrail : CdBounds (if cd.awaitTrailer then cdTrailer block cd val else cd) := by
    split_ifs
    · exact cdTrailer_bounds block cd val h
    · exact h
  have hasm := cdAssemble_bounds _ val htrail
  unfold cdListen
  dsimp only
  split
  · rename_i hframe
    rw [hframe] at hasm
    exact ⟨hasm.nhist, hasm.nargs, hasm.txLen, hasm.attn⟩
  · rename_i hframe
    rw [hframe] at hasm
    exact hasm

theorem cdHandshake_bounds (cd : Cd) (val : Byte) (h : CdBounds cd) :
    CdBounds (cdHandshake cd val) := by
  unfold cdHandshake
  split_ifs with hheard hstream hnext
  · exact ⟨h.nhist, h.nargs, h.txLen, h.attn⟩
  · exact h
  · exact ⟨h.nhist, h.nargs, h.txLen, Nat.lt_of_not_le hheard⟩
  · exact ⟨h.nhist, h.nargs, h.txLen, Nat.succ_le_succ (Nat.zero_le 7)⟩
  · exact h

theorem cdStream_bounds (cd : Cd) (val : Byte) (h : CdBounds cd) :
    CdBounds (cdStream cd val).1 := by
  unfold cdStream
  dsimp only
  split_ifs
  · exact ⟨h.nhist, h.nargs, h.txLen, Nat.zero_le _⟩
  · exact h
  · exact ⟨h.nhist, Nat.zero_le _, h.txLen, Nat.zero_le _⟩
  · exact ⟨h.nhist, h.nargs, h.txLen, h.attn⟩
  · exact h

theorem cdSwitch_bounds (cd : Cd) (val : Byte) (h : CdBounds cd) :
    CdBounds (cdSwitch block cd val).1 := by
  unfold cdSwitch
  cases cd.state with
  | idle => exact cdListen_bounds block cd val h
  | ready => exact cdListen_bounds block cd val h
  | armed =>
    change CdBounds (cdArmed cd val)
    unfold cdArmed
    split_ifs
    · exact ⟨h.nhist, h.nargs, h.txLen, Nat.succ_le_succ (Nat.zero_le 7)⟩
    · exact h
  | hs => exact cdHandshake_bounds cd val h
  | stream => exact cdStream_bounds cd val h

theorem cdWriteData_bounds (cd : Cd) (val : Byte) (h : CdBounds cd) :
    CdBounds (cdWriteData block cd val) := by
  unfold cdWriteData
  split_ifs
  · exact ⟨Nat.zero_le _, Nat.zero_le _, Nat.zero_le _, Nat.zero_le _⟩
  · have hnote : CdBounds (cdNote cd val) := ⟨h.nhist, h.nargs, h.txLen, h.attn⟩
    have hswitch := cdSwitch_bounds block (cdNote cd val) val hnote
    dsimp only
    unfold cdClaim
    split_ifs
    · exact ⟨hswitch.nhist, hswitch.nargs, hswitch.txLen, hswitch.attn⟩
    · exact hswitch

end Token

structure Bounded (dev : Pp) : Prop where
  link : LinkBounds dev.link
  hd : HdBounds dev.hd
  hs : HsBounds dev.hs
  collecting : -1 ≤ dev.hb.n
  collected : dev.hb.n ≤ 14
  nrecent : dev.t.nrecent ≤ 3
  cd : CdBounds dev.cd

theorem initPart_abits (cfg : Config) : (initPart cfg).hdAbits = 6 := by
  unfold initPart
  split_ifs
  · obtain ⟨-, hident⟩ := hdKeys_session _ (hdRelease_mem cfg.banner)
    exact if_neg (not_not.mpr hident)
  · rfl

theorem ppInit_bounds (cfg : Config) : Bounded (ppInit cfg) := by
  refine ⟨⟨.inl rfl, Nat.le_refl _, Nat.zero_le _⟩, ⟨Nat.zero_lt_succ 63, nofun⟩,
    ⟨Nat.zero_le _, Nat.zero_lt_succ 63⟩, ?_, ?_, Nat.zero_le _,
    ⟨Nat.zero_le _, Nat.zero_le _, Nat.zero_le _, Nat.zero_le _⟩⟩
  · change -1 ≤ if probes cfg then (-1 : ℤ) else 0
    split_ifs
    · omega
    · omega
  · change (if probes cfg then (-1 : ℤ) else 0) ≤ 14
    split_ifs
    · omega
    · omega

section Device

variable (part : Part)

theorem haspWrite_bounds (habits : part.hdAbits = 6) (dev : Pp) (val : Byte) (h : Bounded dev) :
    Bounded (haspWrite part dev val) := by
  have hcol := hbData_bounds part.hbPw dev.hb val h.collecting h.collected
  unfold haspWrite
  refine ⟨h.link, ?_, h.hs, ?_, ?_, ?_, h.cd⟩
  · dsimp only
    split_ifs
    · rw [habits]
      exact hdWriteData_bounds dev.hd val h.hd
    · exact h.hd
  · dsimp only
    split_ifs
    · exact hcol.1
    · exact h.collecting
  · dsimp only
    split_ifs
    · exact hcol.2
    · exact h.collected
  · dsimp only
    split_ifs
    · rw [tData_nrecent]
      exact tWindow_nrecent dev.t val h.nrecent
    · exact h.nrecent

theorem ppWriteData_bounds (habits : part.hdAbits = 6) (dev : Pp) (val : Byte) (h : Bounded dev) :
    Bounded (ppWriteData part dev val) := by
  have hhasp : Bounded (if part.hdProbe then haspWrite part dev val else dev) := by
    split_ifs
    · exact haspWrite_bounds part habits dev val h
    · exact h
  exact ⟨ppAckEdge_bounds _ val hhasp.link, hhasp.hd, hhasp.hs, hhasp.collecting,
    hhasp.collected, hhasp.nrecent, cdWriteData_bounds _ _ val hhasp.cd⟩

theorem haspStatus_bounds (dev : Pp) (h : Bounded dev) : Bounded (haspStatus part dev).1 := by
  unfold haspStatus
  dsimp only
  split
  · exact ⟨h.link, ⟨h.hd.addr, nofun⟩, h.hs, h.collecting, h.collected, Nat.zero_le _, h.cd⟩
  · split_ifs
    · exact ⟨h.link, h.hd, h.hs, h.collecting, h.collected, Nat.zero_le _, h.cd⟩
    · exact ⟨h.link, h.hd, h.hs, h.collecting, h.collected, Nat.zero_le _, h.cd⟩
    · exact ⟨h.link, ⟨h.hd.addr, nofun⟩, sessionBit_bounds part _ _ _ h.hs, h.collecting,
        h.collected, Nat.zero_le _, h.cd⟩

theorem pollLink_bounds (dev : Pp) (h : LinkBounds dev.link) : LinkBounds (pollLink dev) := by
  unfold pollLink
  cases dev.lpt with
  | none => exact h
  | some dat => exact ppAckEdge_bounds dev.link dat h

theorem ppReadStatus_bounds (dev : Pp) (h : Bounded dev) : Bounded (ppReadStatus part dev).1 := by
  cases hp : part.hdProbe with
  | true =>
    rw [ppReadStatus_hasp part dev hp]
    exact haspStatus_bounds part dev h
  | false =>
    cases ha : dev.cd.active with
    | true =>
      rw [ppReadStatus_token part dev hp ha]
      exact h
    | false =>
      rw [ppReadStatus_queue part dev hp ha]
      exact ⟨pollLink_bounds dev h.link, h.hd, h.hs, h.collecting, h.collected, h.nrecent, h.cd⟩

theorem devStep_bounds (habits : part.hdAbits = 6) (dev : Pp) (op : Op) (h : Bounded dev) :
    Bounded ((device part).next dev op) := by
  cases op with
  | data val =>
    have hw := ppWriteData_bounds part habits dev val h
    exact ⟨hw.link, hw.hd, hw.hs, hw.collecting, hw.collected, hw.nrecent, hw.cd⟩
  | ctrl val =>
    exact ⟨ppWriteCtrl_bounds _ _ val h.link, h.hd, h.hs, h.collecting, h.collected, h.nrecent,
      h.cd⟩
  | strobe old val =>
    exact ⟨ppStrobe_bounds _ _ old val h.link, h.hd, h.hs, h.collecting, h.collected, h.nrecent,
      h.cd⟩
  | status => exact ppReadStatus_bounds part dev h
  | latch val => exact ⟨h.link, h.hd, h.hs, h.collecting, h.collected, h.nrecent, h.cd⟩

end Device

theorem run_bounds (cfg : Config) (ops : List Op) :
    Bounded ((device (initPart cfg)).run (ppInit cfg) ops) :=
  (device (initPart cfg)).run_invariant
    (fun dev op h => devStep_bounds (initPart cfg) (initPart_abits cfg) dev op h)
    (ppInit_bounds cfg) ops

end PeepeeBox.DongleBounds
