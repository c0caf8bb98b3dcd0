import PeepeeBox.CdongleFrames
import PeepeeBox.DongleDevice
import PeepeeBox.SerialBits
import PeepeeBox.TraceMachine

set_option autoImplicit false

/-!
# CDONGLE transactions

Requests go in as frames under the nonce's key; replies come out one bit an ACK sample,
over as many claimed reads as the host likes.
-/
namespace PeepeeBox.CdongleTransport
open Cdongle CdongleFrames DongleDevice SerialBits TraceMachine

/-- Operations of a host that only writes DATA and reads STATUS. -/
def Plain (op : Op) : Prop := op = .status ∨ ∃ val, op = .data val

/-- ACK as the host samples it. -/
def ackLine (part : Part) : Machine Pp Op Bool :=
  ⟨fun dev op => ((devStep part dev op).1, if op = .status then some (cdAck dev.cd) else none)⟩

def cdPort (block : ℕ → Byte) : Machine Cd Op Bool :=
  ⟨fun cd op =>
    match op with
    | .data val => (cdWriteData block cd val, none)
    | .status => (cd, some (cdAck cd))
    | _ => (cd, none)⟩

theorem ackLine_simulates (part : Part) (block : ℕ → Byte) :
    Simulation (ackLine part) (cdPort block) Plain
      (fun dev cd => dev.cd = cd ∧ dev.link.block = block) := by
  constructor
  · intro dev cd op hop hr
    obtain ⟨hcd, hblock⟩ := hr
    subst hcd hblock
    rcases hop with h | h
    · subst h
      exact ⟨(ppReadStatus_rest part dev).1, ppReadStatus_block part dev⟩
    · obtain ⟨val, h⟩ := h
      subst h
      refine ⟨ppWriteData_cd part dev val, ?_⟩
      change (ppWriteData part dev val).link.block = _
      rw [ppWriteData_link]
      exact ppAckEdge_block dev.link val
  · intro dev cd op hop hr
    obtain ⟨hcd, -⟩ := hr
    subst hcd
    rcases hop with h | h
    · subst h
      rfl
    · obtain ⟨val, h⟩ := h
      subst h
      rfl

theorem ackLine_run (part : Part) (dev : Pp) (ops : List Op) :
    (ackLine part).run dev ops = (device part).run dev ops := by
  induction ops generalizing dev with
  | nil => rfl
  | cons op ops ih => exact ih _

theorem cdPort_writes (block : ℕ → Byte) (cd : Cd) (vals : List Byte) :
    (cdPort block).run cd (vals.map Op.data) = cdRun block cd vals ∧
      (cdPort block).trace cd (vals.map Op.data) = [] := by
  induction vals generalizing cd with
  | nil => exact ⟨rfl, rfl⟩
  | cons v vals ih => exact ih (cdWriteData block cd v)

variable (block : ℕ → Byte)

theorem cdAssemble_eq (cd : Cd) (val : Byte) :
    ∃ h n, (cdAssemble cd val).1 = { cd with hist := h, nhist := n } := by
  obtain ⟨h, hs⟩ := cdShift_eq cd val
  rw [cdAssemble]
  split_ifs
  · exact ⟨h, _, hs⟩
  · split
    · refine ⟨h, 0, ?_⟩
      rw [hs]
    · exact ⟨h, _, hs⟩

structure SameWire (cd cd' : Cd) : Prop where
  active : cd'.active = cd.active
  prev1 : cd'.prev1 = cd.prev1
  prev2 : cd'.prev2 = cd.prev2

theorem cdListen_wire (cd : Cd) (val : Byte) : SameWire cd (cdListen block cd val) := by
  have hasm : ∀ cd : Cd, SameWire cd (cdAssemble cd val).1 := by
    intro cd
    obtain ⟨h, n, he⟩ := cdAssemble_eq cd val
    rw [he]
    exact ⟨rfl, rfl, rfl⟩
  have htrail : SameWire cd (if cd.awaitTrailer then cdTrailer block cd val else cd) := by
    split_ifs
    · obtain ⟨s, k, c, hc, arg, n, z, len, tx, b, p, r, he, -⟩ := cdTrailer_eq block cd val
      rw [he]
      exact ⟨rfl, rfl, rfl⟩
    · exact ⟨rfl, rfl, rfl⟩
  have h := hasm (if cd.awaitTrailer then cdTrailer block cd val else cd)
  have hboth : SameWire cd
      (cdAssemble (if cd.awaitTrailer then cdTrailer block cd val else cd) val).1 :=
    ⟨h.active.trans htrail.active, h.prev1.trans htrail.prev1, h.prev2.trans htrail.prev2⟩
  rw [cdListen]
  split
  · rename_i he
    rw [he] at hboth
    exact ⟨hboth.active, hboth.prev1, hboth.prev2⟩
  · rename_i he
    rw [he] at hboth
    exact hboth

theorem cdSwitch_wire (cd : Cd) (val : Byte) : SameWire cd (cdSwitch block cd val).1 := by
  rw [cdSwitch]
  split
  · exact cdListen_wire block cd val
  · exact cdListen_wire block cd val
  · change SameWire cd (cdArmed cd val)
    rw [cdArmed]
    split_ifs
    all_goals exact ⟨rfl, rfl, rfl⟩
  · change SameWire cd (cdHandshake cd val)
    rw [cdHandshake]
    split_ifs
    all_goals exact ⟨rfl, rfl, rfl⟩
  · rw [cdStream]
    dsimp only
    split_ifs
    all_goals exact ⟨rfl, rfl, rfl⟩

theorem cdWriteData_wire (cd : Cd) (val : Byte) :
    (cdWriteData block cd val).prev1 = val ∧ (cdWriteData block cd val).prev2 = cd.prev1 ∧
      (cd.active = true → (cdWriteData block cd val).active = true) := by
  rw [cdWriteData]
  split_ifs
  · exact ⟨rfl, rfl, fun _ => rfl⟩
  · have h := cdSwitch_wire block (cdNote cd val) val
    dsimp only
    rw [cdClaim]
    split_ifs
    · exact ⟨h.prev1, h.prev2, fun ha => h.active.trans ha⟩
    · exact ⟨h.prev1, h.prev2, fun ha => h.active.trans ha⟩

def pulseTrain : List Byte := [0xBF, 0x7F, 0xBF]

def sendByte (b t : Byte) : List Byte := frame b ++ [t]

/-- A whole request: the nonce in clear, the command and its arguments under the key the
    nonce names. -/
def request (v c : Byte) (a : List Byte) : List Byte :=
  pulseTrain ++ sendByte v 0xDF ++ sendByte (c ^^^ (v ^^^ 0xD3)) 0xD0 ++
    a.flatMap fun x => sendByte (x ^^^ (v ^^^ 0xD3)) 0xDF

theorem pulse_run (cd : Cd) :
    ∃ cd' : Cd, cdRun block cd pulseTrain = cdReset { cd' with active := true } ∧
      cd'.prev1 = 0xBF := by
  have hsplit : cdRun block cd pulseTrain =
      cdWriteData block (cdWriteData block (cdWriteData block cd 0xBF) 0x7F) 0xBF := rfl
  have h1 := cdWriteData_wire block cd 0xBF
  have h2 := cdWriteData_wire block (cdWriteData block cd 0xBF) 0x7F
  refine ⟨cdNote (cdWriteData block (cdWriteData block cd 0xBF) 0x7F) 0xBF, ?_, rfl⟩
  rw [hsplit, cdWriteData]
  apply if_pos
  exact ⟨h2.2.1.trans h1.1, h2.1, rfl⟩

structure Owed (cd : Cd) : Prop where
  state : cd.state = .ready
  await : cd.awaitTrailer = false
  claimable : cd.claimable = true
  window : cd.nhist ≤ 5
  calm : cd.prev1 ≠ 0x7F
  apart : newest cd 0 &&& 0xF0 ≠ 0x90

structure Held (cd : Cd) (k c : Byte) (a : List Byte) : Prop extends Owed cd where
  key : cd.key = k
  cmd : cd.cmd = c
  haveCmd : cd.haveCmd = true
  args : (List.range cd.nargs).map cd.arg = a

theorem Owed.listening {cd : Cd} (h : Owed cd) : Listening cd :=
  ⟨.inr h.state, h.window, h.calm⟩

theorem Held.nargs {cd : Cd} {k c : Byte} {a : List Byte} (h : Held cd k c a) :
    cd.nargs = a.length := by
  have hlen := congrArg List.length h.args
  simpa using hlen

theorem owed_of_trailer (cd : Cd) (t : Byte) (ht : Trailer t) (hs : cd.state = .ready)
    (ha : cd.awaitTrailer = false) (hc : cd.claimable = true) (hp : cd.prev1 = t)
    (hn : cd.nhist = 1) (hh : cd.hist 0 = t) : Owed cd := by
  have hmark : t &&& 0xF0 ≠ 0x90 ∧ t ≠ 0x7F := by
    rcases ht with h | h
    · subst h
      decide
    · subst h
      decide
  refine ⟨hs, ha, hc, by omega, ?_, ?_⟩
  · rw [hp]
    exact hmark.2
  · rw [newest, hn]
    change cd.hist 0 &&& 0xF0 ≠ 0x90
    rw [hh]
    exact hmark.1

theorem nonce_run (cd : Cd) (v : Byte) (hl : Listening cd) (ha : cd.awaitTrailer = false)
    (hcmd : cd.haveCmd = false) :
    ∃ cd', cdRun block cd (sendByte v 0xDF) = cd' ∧ Listening cd' ∧ cd'.awaitTrailer = false ∧
      cd'.nonceRaw = v ∧ cd'.txBit = cd.txBit := by
  obtain ⟨h₀, h₁, p2, hrun, -⟩ := byte_run block cd v 0xDF (.inr rfl) hl ha
  have hne : ¬(0xDF : Byte) = 0xD0 := by decide
  rw [cdTrailer] at hrun
  simp only [hne, hcmd, if_false, if_true] at hrun
  refine ⟨_, hrun, ⟨hl.state, ?_, ?_⟩, rfl, rfl, rfl⟩
  · change 1 ≤ 5
    omega
  · change (0xDF : Byte) ≠ 0x7F
    decide

theorem command_run (cd : Cd) (c : Byte) (hl : Listening cd) (ha : cd.awaitTrailer = false)
    (hbit : cd.txBit = 0) :
    ∃ cd', cdRun block cd (sendByte (c ^^^ (cd.nonceRaw ^^^ 0xD3)) 0xD0) = cd' ∧
      Held cd' (cd.nonceRaw ^^^ 0xD3) c [] ∧ cd'.txBit = 0 := by
  obtain ⟨h₀, h₁, p2, hrun, hh⟩ :=
    byte_run block cd (c ^^^ (cd.nonceRaw ^^^ 0xD3)) 0xD0 (.inl rfl) hl ha
  rw [cdTrailer] at hrun
  simp only [if_true, BitVec.xor_assoc, BitVec.xor_self, BitVec.xor_zero] at hrun
  obtain ⟨n, tx, b, p, r, he, -, hb⟩ := cdPrepare_eq block
    { cd with
      hist := h₀, nhist := 0, prev1 := 0xD0, prev2 := p2, last := 0xD0
      pending := c ^^^ (cd.nonceRaw ^^^ 0xD3), awaitTrailer := false, claimable := true
      key := cd.nonceRaw ^^^ 0xD3, cmd := c, haveCmd := true, picReady := false, nargs := 0 }
  rw [he] at hrun
  refine ⟨_, hrun, ⟨owed_of_trailer _ 0xD0 (.inl rfl) rfl rfl rfl rfl rfl hh, rfl, rfl, rfl, rfl⟩,
    hb hbit⟩

theorem args_snoc (arg : ℕ → Byte) (n : ℕ) (x : Byte) :
    (List.range (n + 1)).map (Function.update arg n x) = (List.range n).map arg ++ [x] := by
  rw [List.range_succ, List.map_append]
  have hold : (List.range n).map (Function.update arg n x) = (List.range n).map arg := by
    apply List.map_congr_left
    intro i hi
    have hlt := List.mem_range.mp hi
    exact Function.update_of_ne (by omega) ..
  rw [hold, List.map_singleton, Function.update_self]

/-- The reply fields of two states agree. -/
structure SameReply (cd cd' : Cd) : Prop where
  tx : cd.tx = cd'.tx
  txLen : cd.txLen = cd'.txLen
  txBit : cd.txBit = cd'.txBit
  picReady : cd.picReady = cd'.picReady

/-- `q` is the state an argument's reply is prepared from. -/
structure Extended (cd q : Cd) (k c : Byte) (a : List Byte) : Prop where
  key : q.key = k
  cmd : q.cmd = c
  args : (List.range q.nargs).map q.arg = a
  txBit : q.txBit = cd.txBit
  picReady : q.picReady = cd.picReady

theorem arg_run (cd : Cd) (k c x : Byte) (a : List Byte) (h : Held cd k c a)
    (hlen : a.length < 12) :
    ∃ q : Cd, Extended cd q k c (a ++ [x]) ∧
      SameReply (cdRun block cd (sendByte (x ^^^ k) 0xDF)) (cdPrepare block q) ∧
      Held (cdRun block cd (sendByte (x ^^^ k) 0xDF)) k c (a ++ [x]) := by
  obtain ⟨h₀, h₁, p2, hrun, hh⟩ := byte_run block cd (x ^^^ k) 0xDF (.inr rfl) h.listening h.await
  have hne : ¬(0xDF : Byte) = 0xD0 := by decide
  have hroom : cd.nargs < 12 := by
    rw [h.nargs]
    exact hlen
  rw [cdTrailer] at hrun
  simp only [hne, h.haveCmd, h.key, hroom, Bool.true_eq_false, if_false, if_true,
    BitVec.xor_assoc, BitVec.xor_self, BitVec.xor_zero] at hrun
  have hargs : (List.range (cd.nargs + 1)).map (Function.update cd.arg cd.nargs x) = a ++ [x] := by
    rw [args_snoc, h.args]
  refine ⟨{ cd with
    hist := h₀, nhist := 0, prev1 := 0xDF, prev2 := p2, last := 0xDF, pending := x ^^^ k
    awaitTrailer := false, claimable := true, key := k, haveCmd := true
    arg := Function.update cd.arg cd.nargs x, nargs := cd.nargs + 1 },
    ⟨rfl, h.cmd, hargs, rfl, rfl⟩, ?_, ?_⟩
  · rw [sendByte, hrun]
    exact ⟨rfl, rfl, rfl, rfl⟩
  · obtain ⟨n, tx, b, p, r, he, -, -⟩ := cdPrepare_eq block
      { cd with
        hist := h₀, nhist := 0, prev1 := 0xDF, prev2 := p2, last := 0xDF, pending := x ^^^ k
        awaitTrailer := false, claimable := true, key := k, haveCmd := true
        arg := Function.update cd.arg cd.nargs x, nargs := cd.nargs + 1 }
    rw [sendByte, hrun, he]
    exact ⟨owed_of_trailer _ 0xDF (.inr rfl) rfl rfl rfl rfl rfl hh, rfl, h.cmd, rfl, hargs⟩

theorem args_run (cd : Cd) (k c : Byte) (a : List Byte) (h : Held cd k c []) (hbit : cd.txBit = 0)
    (ha : a.length ≤ 12) :
    Held (cdRun block cd (a.flatMap fun x => sendByte (x ^^^ k) 0xDF)) k c a ∧
      (cdRun block cd (a.flatMap fun x => sendByte (x ^^^ k) 0xDF)).txBit = 0 := by
  induction a using List.reverseRecOn with
  | nil => exact ⟨h, hbit⟩
  | append_singleton a x ih =>
    rw [List.length_append, List.length_singleton] at ha
    obtain ⟨hheld, hzero⟩ := ih (by omega)
    rw [List.flatMap_append, cdRun_append, List.flatMap_singleton]
    obtain ⟨q, hq, hreply, hnext⟩ := arg_run block _ k c x a hheld (by omega)
    refine ⟨hnext, ?_⟩
    obtain ⟨n, tx, b, p, r, he, -, hb⟩ := cdPrepare_eq block q
    rw [hreply.txBit, he]
    exact hb (hq.txBit.trans hzero)

theorem request_run (cd : Cd) (v c : Byte) (a : List Byte) (ha : a.length ≤ 12) :
    Held (cdRun block cd (request v c a)) (v ^^^ 0xD3) c a ∧
      (cdRun block cd (request v c a)).txBit = 0 := by
  obtain ⟨cd', hpulse, hprev⟩ := pulse_run block cd
  have hl : Listening (cdReset { cd' with active := true }) := by
    refine ⟨.inl rfl, Nat.zero_le _, ?_⟩
    change cd'.prev1 ≠ 0x7F
    rw [hprev]
    decide
  obtain ⟨cd₁, hnonce, hl₁, ha₁, hraw, hbit₁⟩ := nonce_run block _ v hl rfl rfl
  obtain ⟨cd₂, hcommand, hheld, hbit₂⟩ := command_run block cd₁ c hl₁ ha₁ (hbit₁.trans rfl)
  rw [hraw] at hcommand hheld
  rw [request, cdRun_append, cdRun_append, cdRun_append, hpulse, hnonce, hcommand]
  exact args_run block cd₂ (v ^^^ 0xD3) c a hheld hbit₂ ha

/-- One claimed read of some of the reply's bits. -/
structure Read where
  claim : Byte
  claims : claim &&& 0xF0 = 0xC0 ∨ claim &&& 0xF0 = 0x80
  bits : ℕ
  positive : 0 < bits

def bitOps : List Op := [.data 0xCF, .status, .data 0xFF]

def readOps (r : Read) : List Op :=
  (r.claim :: cdAttention).map Op.data ++ (List.replicate r.bits bitOps).flatten ++ [.data 0xBF]

/-- Bit `j` of the queued reply, first byte first and most significant bit first. -/
def txStream (cd : Cd) (j : ℕ) : Bool := (cd.tx (j / 8)).getLsbD (7 - j % 8)

/-- `c` is `cd` after wire traffic that moved none of its request or reply. -/
structure Moved (cd c : Cd) : Prop where
  window : c.nhist ≤ 5
  calm : c.prev1 ≠ 0x7F
  apart : newest c 0 &&& 0xF0 ≠ 0x90
  unclaimed : c.claimable = false
  rest : ∃ s h n p1 p2 l attn bit, c =
    { cd with
      state := s, hist := h, nhist := n, prev1 := p1, prev2 := p2, last := l, attn := attn
      txBit := bit, claimable := false }

theorem claim_run (cd : Cd) (r : Read) (h : Owed cd) :
    Moved cd (cdWriteData block cd r.claim) ∧
      (cdWriteData block cd r.claim).state = .armed ∧
      (cdWriteData block cd r.claim).txBit = cd.txBit := by
  have marks : ∀ v : Byte, v &&& 0xF0 = 0xC0 ∨ v &&& 0xF0 = 0x80 →
      v &&& 0xF0 ≠ 0xF0 ∧ v &&& 0xF0 ≠ 0x90 ∧ v ≠ 0x7F := by
    decide +kernel
  obtain ⟨hF, h9, h7F⟩ := marks r.claim r.claims
  obtain ⟨g, hshift⟩ := cdShift_eq (cdNote cd r.claim) r.claim
  have hlisten : cdListen block (cdNote cd r.claim) r.claim =
      cdShift (cdNote cd r.claim) r.claim := by
    have hawait : (cdNote cd r.claim).awaitTrailer = false := h.await
    rw [cdListen]
    simp only [hawait, cdAssemble_none (cdNote cd r.claim) r.claim h.window (.inr h.apart),
      Bool.false_eq_true, if_false]
  have hstep : cdWriteData block cd r.claim =
      { cdShift (cdNote cd r.claim) r.claim with state := .armed, claimable := false } := by
    rw [cdWriteData_listen block cd r.claim h.listening, hlisten, cdClaim]
    apply if_pos
    rw [hshift]
    refine ⟨h.state, ?_, rfl, r.claims⟩
    change (if r.claim &&& 0xF0 = 0xF0 then false else cd.claimable) = true
    rw [if_neg hF]
    exact h.claimable
  have hn := cdShift_nhist (cdNote cd r.claim) r.claim h.window
  have hnew := cdShift_newest_zero (cdNote cd r.claim) r.claim
  rw [hstep]
  refine ⟨⟨?_, ?_, ?_, rfl, ?_⟩, rfl, ?_⟩
  · change (cdShift (cdNote cd r.claim) r.claim).nhist ≤ 5
    omega
  · rw [hshift]
    exact h7F
  · change newest (cdShift (cdNote cd r.claim) r.claim) 0 &&& 0xF0 ≠ 0x90
    rw [hnew]
    exact h9
  · rw [hshift]
    exact ⟨.armed, g, (cdShift (cdNote cd r.claim) r.claim).nhist, r.claim, cd.prev1, r.claim,
      cd.attn, cd.txBit, rfl⟩
  · rw [hshift]
    rfl

theorem moved_step (cd c : Cd) (val : Byte) (h : Moved cd c) (hval : val ≠ 0x7F)
    (s : CdState) (attn bit : ℕ)
    (hstep : cdSwitch block (cdNote c val) val =
      ({ cdNote c val with state := s, attn := attn, txBit := bit }, false)) (hs : s ≠ .ready) :
    Moved cd (cdWriteData block c val) ∧ (cdWriteData block c val).state = s ∧
      (cdWriteData block c val).attn = attn ∧ (cdWriteData block c val).txBit = bit := by
  obtain ⟨s₀, h₀, n, p1, p2, l, attn₀, bit₀, hrest⟩ := h.rest
  have hclaim : cdWriteData block c val =
      { cdNote c val with state := s, attn := attn, txBit := bit } := by
    rw [cdWriteData_calm block c val h.calm, hstep, cdClaim]
    apply if_neg
    intro hc
    exact hs hc.1
  rw [hclaim]
  have hun : (cdNote c val).claimable = false := by
    change (if val &&& 0xF0 = 0xF0 then false else c.claimable) = false
    rw [h.unclaimed]
    exact ite_self _
  refine ⟨⟨h.window, hval, h.apart, hun, ?_⟩, rfl, rfl, rfl⟩
  refine ⟨s, h₀, n, val, p1, val, attn, bit, ?_⟩
  rw [hrest]
  simp only [cdNote, ite_self]

theorem attention_marks : ∀ i < 8, cdAttention.getD i 0 ≠ 0x7F ∧
    cdAttention.getD i 0 = cdAttention.getD i 0 &&& 0xFF := by
  decide

theorem attention_run (cd c : Cd) (h : Moved cd c) (hs : c.state = .armed) (i : ℕ) (hi : i < 8) :
    Moved cd (cdRun block c (cdAttention.take (i + 1))) ∧
      (cdRun block c (cdAttention.take (i + 1))).state = .hs ∧
      (cdRun block c (cdAttention.take (i + 1))).attn = i + 1 ∧
      (cdRun block c (cdAttention.take (i + 1))).txBit = c.txBit := by
  induction i with
  | zero =>
    apply moved_step block cd c 0xDF h (by decide) .hs 1 c.txBit
    · have hstate : (cdNote c 0xDF).state = .armed := hs
      rw [cdSwitch, hstate]
      rfl
    · decide
  | succ i ih =>
    obtain ⟨hm, hstate, hattn, hbit⟩ := ih (by omega)
    have hget : cdAttention[i + 1]?.toList = [cdAttention.getD (i + 1) 0] := by
      have hlen : i + 1 < cdAttention.length := hi
      rw [List.getElem?_eq_getElem hlen, List.getD_eq_getElem _ _ hlen]
      rfl
    rw [List.take_add_one, cdRun_append, hget]
    generalize cdRun block c (cdAttention.take (i + 1)) = c' at hm hstate hattn hbit
    have h7F := (attention_marks (i + 1) hi).1
    rw [← hbit]
    apply moved_step block cd c' _ hm h7F .hs (i + 1 + 1) c'.txBit
    · have hstate' : (cdNote c' (cdAttention.getD (i + 1) 0)).state = .hs := hstate
      have hattn' : (cdNote c' (cdAttention.getD (i + 1) 0)).attn = i + 1 := hattn
      have hmore : ¬cdAttnLen ≤ i + 1 := by
        change ¬8 ≤ i + 1
        omega
      rw [cdSwitch, hstate']
      change (cdHandshake _ _, false) = _
      rw [cdHandshake, hattn', if_neg hmore, if_pos rfl, ← hstate]
      rfl
    · decide

/-- Clocking out, or about to. -/
def Streaming (c : Cd) : Prop := c.state = .stream ∨ c.state = .hs ∧ c.attn = 8

theorem present_run (cd c : Cd) (h : Moved cd c) (hs : Streaming c) :
    Moved cd (cdWriteData block c 0xCF) ∧ (cdWriteData block c 0xCF).state = .stream ∧
      (cdWriteData block c 0xCF).txBit = c.txBit := by
  have hstep : cdSwitch block (cdNote c 0xCF) 0xCF =
      ({ cdNote c 0xCF with state := .stream, attn := c.attn, txBit := c.txBit }, false) := by
    rcases hs with hs | hs
    · have hstate : (cdNote c 0xCF).state = .stream := hs
      rw [cdSwitch, hstate]
      change cdStream _ _ = _
      rw [cdStream, if_neg (by decide), if_neg (by decide)]
      rw [← hs]
      rfl
    · have hstate : (cdNote c 0xCF).state = .hs := hs.1
      have hfull : cdAttnLen ≤ (cdNote c 0xCF).attn := Nat.le_of_eq hs.2.symm
      rw [cdSwitch, hstate]
      change (cdHandshake _ _, false) = _
      rw [cdHandshake, if_pos hfull, if_pos rfl]
      rfl
  obtain ⟨hm, hstate, -, hbit⟩ := moved_step block cd c 0xCF h (by decide) .stream c.attn c.txBit
    hstep (by decide)
  exact ⟨hm, hstate, hbit⟩

theorem advance_run (cd c : Cd) (h : Moved cd c) (hs : c.state = .stream)
    (hmore : c.txBit + 1 < c.txLen * 8) :
    Moved cd (cdWriteData block c 0xFF) ∧ (cdWriteData block c 0xFF).state = .stream ∧
      (cdWriteData block c 0xFF).txBit = c.txBit + 1 := by
  have hstep : cdSwitch block (cdNote c 0xFF) 0xFF =
      ({ cdNote c 0xFF with state := .stream, attn := c.attn, txBit := c.txBit + 1 }, false) := by
    have hstate : (cdNote c 0xFF).state = .stream := hs
    have hleft : ¬c.txLen * 8 ≤ c.txBit + 1 := by omega
    rw [cdSwitch, hstate]
    change cdStream _ _ = _
    rw [cdStream, if_neg (by decide), if_pos rfl]
    change (if c.txLen * 8 ≤ c.txBit + 1 then _ else _) = _
    rw [if_neg hleft, ← hs]
    rfl
  obtain ⟨hm, hstate, -, hbit⟩ := moved_step block cd c 0xFF h (by decide) .stream c.attn
    (c.txBit + 1) hstep (by decide)
  exact ⟨hm, hstate, hbit⟩

theorem cdAck_stream (cd c : Cd) (h : Moved cd c) (hs : c.state = .stream)
    (hbit : c.txBit < cd.txLen * 8) : cdAck c = txStream cd c.txBit := by
  obtain ⟨s, h₀, n, p1, p2, l, attn, bit, hrest⟩ := h.rest
  have hlen : c.txLen = cd.txLen := by rw [hrest]
  have htx : c.tx = cd.tx := by rw [hrest]
  rw [cdAck, if_pos hs, hlen, if_pos hbit, htx, txStream, Nat.shiftRight_eq_div_pow]

theorem bits_run (cd c : Cd) (n : ℕ) (h : Moved cd c) (hs : Streaming c)
    (hbits : c.txBit + n ≤ cd.txLen * 8) :
    (cdPort block).trace c (List.replicate n bitOps).flatten =
        (List.range n).map (fun j => txStream cd (c.txBit + j)) ∧
      (c.txBit + n < cd.txLen * 8 →
        Moved cd ((cdPort block).run c (List.replicate n bitOps).flatten) ∧
        Streaming ((cdPort block).run c (List.replicate n bitOps).flatten) ∧
        (0 < n → ((cdPort block).run c (List.replicate n bitOps).flatten).state = .stream) ∧
        ((cdPort block).run c (List.replicate n bitOps).flatten).txBit = c.txBit + n) := by
  induction n with
  | zero => exact ⟨rfl, fun _ => ⟨h, hs, fun h0 => absurd h0 (by omega), rfl⟩⟩
  | succ n ih =>
    obtain ⟨htrace, hrun⟩ := ih (by omega)
    obtain ⟨hm, hstream, -, hbit⟩ := hrun (by omega)
    have hsplit : (List.replicate (n + 1) bitOps).flatten =
        (List.replicate n bitOps).flatten ++ bitOps := by
      rw [List.replicate_succ', List.flatten_append]
      simp
    rw [hsplit, Machine.trace_append, Machine.run_append, htrace]
    generalize (cdPort block).run c (List.replicate n bitOps).flatten = c₁ at hm hstream hbit
    obtain ⟨hm₂, hs₂, hbit₂⟩ := present_run block cd c₁ hm hstream
    have htr : (cdPort block).trace c₁ bitOps = [cdAck (cdWriteData block c₁ 0xCF)] := rfl
    have hrn : (cdPort block).run c₁ bitOps =
        cdWriteData block (cdWriteData block c₁ 0xCF) 0xFF := rfl
    rw [htr, hrn, cdAck_stream cd _ hm₂ hs₂ (by omega), hbit₂, hbit]
    constructor
    · rw [List.range_succ, List.map_append]
      rfl
    · intro hmore
      have hlen : (cdWriteData block c₁ 0xCF).txLen = cd.txLen := by
        obtain ⟨s, h₀, n, p1, p2, l, attn, bit, hrest⟩ := hm₂.rest
        rw [hrest]
      obtain ⟨hm₃, hs₃, hbit₃⟩ := advance_run block cd _ hm₂ hs₂ (by rw [hlen]; omega)
      exact ⟨hm₃, .inl hs₃, fun _ => hs₃, by omega⟩

/-- What a read leaves alone: the request and the reply queued for it. -/
structure Kept (cd cd' : Cd) : Prop where
  key : cd'.key = cd.key
  cmd : cd'.cmd = cd.cmd
  haveCmd : cd'.haveCmd = cd.haveCmd
  arg : cd'.arg = cd.arg
  nargs : cd'.nargs = cd.nargs
  tx : cd'.tx = cd.tx
  txLen : cd'.txLen = cd.txLen
  picReady : cd'.picReady = cd.picReady

theorem signoff_run (cd c : Cd) (h : Moved cd c) (hs : c.state = .stream)
    (ha : cd.awaitTrailer = false) (hmore : c.txBit < c.txLen * 8) :
    Owed (cdWriteData block c 0xBF) ∧ Kept cd (cdWriteData block c 0xBF) ∧
      (cdWriteData block c 0xBF).txBit = c.txBit := by
  obtain ⟨s, h₀, n, p1, p2, l, attn, bit, hrest⟩ := h.rest
  have hstep : cdWriteData block c 0xBF =
      { cdNote c 0xBF with attn := 0, state := .ready, claimable := true } := by
    have hstate : (cdNote c 0xBF).state = .stream := hs
    have hswitch : cdSwitch block (cdNote c 0xBF) 0xBF =
        ({ cdNote c 0xBF with attn := 0, state := .ready, claimable := true }, true) := by
      rw [cdSwitch, hstate]
      change cdStream _ _ = _
      rw [cdStream, if_pos (by decide)]
      exact if_pos hmore
    rw [cdWriteData_calm block c 0xBF h.calm, hswitch, cdClaim]
    apply if_neg
    intro hc
    have hr : true = false := hc.2.2.1
    cases hr
  rw [hstep]
  refine ⟨⟨rfl, ?_, rfl, h.window, ?_, h.apart⟩, ?_, rfl⟩
  · change c.awaitTrailer = false
    rw [hrest]
    exact ha
  · change (0xBF : Byte) ≠ 0x7F
    decide
  · rw [hrest]
    exact ⟨rfl, rfl, rfl, rfl, rfl, rfl, rfl, rfl⟩

theorem read_run (cd : Cd) (r : Read) (h : Owed cd) (hbits : cd.txBit + r.bits ≤ cd.txLen * 8) :
    (cdPort block).trace cd (readOps r) =
        (List.range r.bits).map (fun j => txStream cd (cd.txBit + j)) ∧
      (cd.txBit + r.bits < cd.txLen * 8 →
        Owed ((cdPort block).run cd (readOps r)) ∧ Kept cd ((cdPort block).run cd (readOps r)) ∧
          ((cdPort block).run cd (readOps r)).txBit = cd.txBit + r.bits) := by
  obtain ⟨hm₁, hs₁, hbit₁⟩ := claim_run block cd r h
  obtain ⟨hm₂, hs₂, hattn₂, hbit₂⟩ := attention_run block cd _ hm₁ hs₁ 7 (by omega)
  have hfull : cdAttention.take (7 + 1) = cdAttention := rfl
  rw [hfull] at hm₂ hs₂ hattn₂ hbit₂
  obtain ⟨hwrites, hsilent⟩ := cdPort_writes block cd (r.claim :: cdAttention)
  simp only [readOps, Machine.trace_append, Machine.run_append, hsilent, hwrites, cdRun_cons]
  rw [hbit₁] at hbit₂
  generalize cdRun block (cdWriteData block cd r.claim) cdAttention = c at *
  obtain ⟨htrace, hrun⟩ := bits_run block cd c r.bits hm₂ (.inr ⟨hs₂, hattn₂⟩) (by omega)
  rw [htrace, hbit₂]
  have hlast : ∀ g, (cdPort block).trace g [.data 0xBF] = [] := fun g => rfl
  rw [hlast, List.nil_append, List.append_nil]
  refine ⟨rfl, fun hmore => ?_⟩
  obtain ⟨hm₃, -, hs₃, hbit₃⟩ := hrun (by omega)
  generalize (cdPort block).run c (List.replicate r.bits bitOps).flatten = c' at hm₃ hs₃ hbit₃
  have hlen : c'.txLen = cd.txLen := by
    obtain ⟨s, h₀, n, p1, p2, l, attn, bit, hrest⟩ := hm₃.rest
    rw [hrest]
  obtain ⟨ho, hk, hbit⟩ := signoff_run block cd c' hm₃ (hs₃ r.positive) h.await
    (by rw [hlen]; omega)
  exact ⟨ho, hk, hbit.trans (by omega)⟩

theorem reads_run (cd : Cd) (rs : List Read) (h : Owed cd)
    (hbits : cd.txBit + (rs.map Read.bits).sum ≤ cd.txLen * 8) :
    (cdPort block).trace cd (rs.flatMap readOps) =
      (List.range (rs.map Read.bits).sum).map fun j => txStream cd (cd.txBit + j) := by
  induction rs generalizing cd with
  | nil => rfl
  | cons r rs ih =>
    rw [List.map_cons, List.sum_cons] at hbits ⊢
    obtain ⟨htrace, hrun⟩ := read_run block cd r h (by omega)
    rw [List.flatMap_cons, Machine.trace_append, htrace]
    cases rs with
    | nil => simp
    | cons r' rs =>
      have hpos := r'.positive
      have hmore : cd.txBit + r.bits < cd.txLen * 8 := by
        rw [List.map_cons, List.sum_cons] at hbits
        omega
      obtain ⟨ho, hk, hbit⟩ := hrun hmore
      have hstream : ∀ j, txStream ((cdPort block).run cd (readOps r)) j = txStream cd j := by
        intro j
        rw [txStream, txStream, hk.tx]
      rw [ih _ ho (by rw [hbit, hk.txLen]; omega), List.range_add, List.map_append, List.map_map]
      congr 1
      apply List.map_congr_left
      intro j hj
      rw [hstream, hbit]
      simp only [Function.comp_apply, Nat.add_assoc]

/-- The queued reply, as bytes. -/
def txBytes (cd : Cd) : List Byte := (List.range cd.txLen).map cd.tx

/-- STATUS carries ACK on bit 6. -/
def ackStatus (b : Bool) : Byte := if b then 0x40 else 0x00

theorem token_trace (part : Part) (hp : part.hdProbe = false) (dev : Pp)
    (ha : dev.cd.active = true) (ops : List Op) (hops : ∀ op ∈ ops, Plain op) :
    (device part).trace dev ops = ((ackLine part).trace dev ops).map ackStatus := by
  induction ops generalizing dev with
  | nil => rfl
  | cons op ops ih =>
    have hop := hops op (by simp)
    have hrest : ∀ op ∈ ops, Plain op := fun o ho => hops o (by simp [ho])
    rw [Machine.trace_cons, Machine.trace_cons, List.map_append]
    rcases hop with h | h
    · subst h
      have hnext : ((device part).next dev .status).cd = dev.cd := (ppReadStatus_rest part dev).1
      have hans : (device part).answer dev .status = some (ackStatus (cdAck dev.cd)) := by
        change some (ppReadStatus part dev).2 = _
        rw [ppReadStatus_token part dev hp ha]
        rfl
      rw [hans, ih ((device part).next dev .status) (by rw [hnext]; exact ha) hrest]
      rfl
    · obtain ⟨val, h⟩ := h
      subst h
      have hnext : ((device part).next dev (.data val)).cd.active = true := by
        change (ppWriteData part dev val).cd.active = true
        rw [ppWriteData_cd]
        exact (cdWriteData_wire dev.link.block dev.cd val).2.2 ha
      rw [ih ((device part).next dev (.data val)) hnext hrest]
      rfl

theorem plain_readOps (rs : List Read) : ∀ op ∈ rs.flatMap readOps, Plain op := by
  intro op hop
  obtain ⟨r, -, hr⟩ := List.mem_flatMap.mp hop
  rw [readOps, List.mem_append, List.mem_append] at hr
  rcases hr with (hr | hr) | hr
  · obtain ⟨v, -, h⟩ := List.mem_map.mp hr
    exact .inr ⟨v, h.symm⟩
  · obtain ⟨bs, hbs, hmem⟩ := List.mem_flatten.mp hr
    rw [List.eq_of_mem_replicate hbs] at hmem
    simp only [bitOps, List.mem_cons, List.not_mem_nil, or_false] at hmem
    rcases hmem with h | h | h
    · exact .inr ⟨0xCF, h⟩
    · exact .inl h
    · exact .inr ⟨0xFF, h⟩
  · exact .inr ⟨0xBF, List.mem_singleton.mp hr⟩

theorem cdRun_active (cd : Cd) (vals : List Byte) (h : cd.active = true) :
    (cdRun block cd vals).active = true := by
  induction vals generalizing cd with
  | nil => exact h
  | cons v vals ih => exact ih _ ((cdWriteData_wire block cd v).2.2 h)

theorem request_active (cd : Cd) (v c : Byte) (a : List Byte) :
    (cdRun block cd (request v c a)).active = true := by
  obtain ⟨cd', hpulse, -⟩ := pulse_run block cd
  simp only [request, List.append_assoc]
  rw [cdRun_append, hpulse]
  exact cdRun_active block _ _ rfl

theorem device_writes (part : Part) (dev : Pp) (vals : List Byte) :
    ((device part).run dev (vals.map Op.data)).cd = cdRun dev.link.block dev.cd vals ∧
      ((device part).run dev (vals.map Op.data)).link.block = dev.link.block := by
  have hops : ∀ op ∈ vals.map Op.data, Plain op := by
    intro op hop
    obtain ⟨v, -, h⟩ := List.mem_map.mp hop
    exact .inr ⟨v, h.symm⟩
  have h := (ackLine_simulates part dev.link.block).run ⟨rfl, rfl⟩ (vals.map Op.data) hops
  rw [ackLine_run, (cdPort_writes dev.link.block dev.cd vals).1] at h
  exact h

/-- From any state of the device a request is taken down exactly, and its reply comes out
    bit for bit, however the host divides it into claimed reads. -/
theorem cdongle_transport (part : Part) (dev : Pp) (v c : Byte) (a : List Byte)
    (ha : a.length ≤ 12) :
    let sent := (device part).run dev ((request v c a).map Op.data)
    sent.cd.key = v ^^^ 0xD3 ∧ sent.cd.cmd = c ∧
      (List.range sent.cd.nargs).map sent.cd.arg = a ∧
      ∀ rs : List Read, (rs.map Read.bits).sum = sent.cd.txLen * 8 →
        (ackLine part).trace sent (rs.flatMap readOps) = (txBytes sent.cd).flatMap msbBits ∧
        (part.hdProbe = false →
          (device part).trace sent (rs.flatMap readOps) =
            ((txBytes sent.cd).flatMap msbBits).map ackStatus) := by
  intro sent
  obtain ⟨hcd, hblock⟩ := device_writes part dev (request v c a)
  obtain ⟨hheld, hzero⟩ := request_run dev.link.block dev.cd v c a ha
  have hactive := request_active dev.link.block dev.cd v c a
  rw [← hcd] at hheld hzero hactive
  refine ⟨hheld.key, hheld.cmd, hheld.args, fun rs hsum => ?_⟩
  have hacks : (ackLine part).trace sent (rs.flatMap readOps) =
      (txBytes sent.cd).flatMap msbBits := by
    rw [(ackLine_simulates part dev.link.block).trace ⟨rfl, hblock⟩ _ (plain_readOps rs),
      reads_run dev.link.block sent.cd rs hheld.toOwed (by rw [hzero, hsum]; omega), hsum,
      txBytes, flatMap_msbBits sent.cd.tx (by omega)]
    apply List.map_congr_left
    intro j hj
    rw [hzero, Nat.zero_add]
    rfl
  exact ⟨hacks, fun hp => by rw [token_trace part hp sent hactive _ (plain_readOps rs), hacks]⟩

/-- The licence query A0 86 2E D0 of a 2000 image, its two bytes read as three bits and
    thirteen. -/
theorem cdongle_transport_licence :
    let part := initPart (detected "Version 2000 (DE)")
    let sent := (device part).run (ppInit (detected "Version 2000 (DE)"))
      ((request 0x5A 0xA0 [0x86, 0x2E, 0xD0]).map Op.data)
    (device part).trace sent
        ([⟨0xCF, by decide, 3, by decide⟩, ⟨0x8F, by decide, 13, by decide⟩].flatMap readOps) =
      ((txBytes sent.cd).flatMap msbBits).map ackStatus := by
  intro part sent
  have h := cdongle_transport part (ppInit (detected "Version 2000 (DE)")) 0x5A 0xA0
    [0x86, 0x2E, 0xD0] (by decide)
  exact (h.2.2.2 _ (by decide +kernel)).2 (by decide +kernel)

end PeepeeBox.CdongleTransport
