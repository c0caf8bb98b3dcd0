import Mathlib.Data.List.Forall2
import PeepeeBox.CdongleTransport
import PeepeeBox.DongleDevice
import PeepeeBox.MaskWalk
import PeepeeBox.TraceMachine

set_option autoImplicit false

/-!
# Programming the 1999 token and reading it back

The record goes in on STROBE edges and comes out under the BUSY handshake, nibble by
nibble, with the host free to poll STATUS wherever it likes.
-/
namespace PeepeeBox.NibbleReadback
open CdongleTransport DongleDevice MaskWalk NibbleLink TraceMachine

structure Port where
  lpt : Option Byte
  link : Link

def linkPort : Machine Port Op Byte :=
  ⟨fun p op =>
    match op with
    | .data val => (⟨p.lpt.map fun _ => val, ppAckEdge p.link val⟩, none)
    | .ctrl val => (⟨p.lpt, NibbleLink.ppWriteCtrl p.lpt p.link val⟩, none)
    | .strobe old val => (⟨p.lpt, NibbleLink.ppStrobe p.lpt p.link old val⟩, none)
    | .latch val => (⟨p.lpt.map fun _ => val, p.link⟩, none)
    | .status =>
      let link := match p.lpt with
        | some dat => ppAckEdge p.link dat
        | none => p.link
      (⟨p.lpt, link⟩, some (ppStatus link))⟩

theorem cdWriteData_asleep (block : ℕ → Byte) (cd : Cdongle.Cd) (val : Byte) (hval : val ≠ 0xBF)
    (h : cd.active = false) : (Cdongle.cdWriteData block cd val).active = false := by
  rw [Cdongle.cdWriteData, if_neg (fun hp => hval hp.2.2)]
  have hw := cdSwitch_wire block (Cdongle.cdNote cd val) val
  dsimp only
  rw [Cdongle.cdClaim]
  split_ifs
  · exact hw.active.trans h
  · exact hw.active.trans h

theorem device_simulates (part : Part) (hp : part.hdProbe = false) :
    Simulation (device part) linkPort (fun op => op ≠ .data 0xBF)
      (fun dev p => dev.lpt = p.lpt ∧ dev.link = p.link ∧ dev.cd.active = false ∧ dev.nRs = 0) := by
  constructor
  · intro dev p op hop hr
    obtain ⟨hlpt, hlink, ha, hn⟩ := hr
    cases op with
    | data val =>
      refine ⟨?_, ?_, ?_, ?_⟩
      · change (ppWriteData part dev val).lpt.map _ = p.lpt.map _
        rw [ppWriteData_lpt, hlpt]
      · change (ppWriteData part dev val).link = ppAckEdge p.link val
        rw [ppWriteData_link, hlink]
      · change (ppWriteData part dev val).cd.active = false
        rw [ppWriteData_cd]
        exact cdWriteData_asleep _ _ val (fun h => hop (by rw [h])) ha
      · change (ppWriteData part dev val).nRs = 0
        rw [ppWriteData_nRs, hn]
    | ctrl val =>
      refine ⟨hlpt, ?_, ha, hn⟩
      change NibbleLink.ppWriteCtrl dev.lpt dev.link val = _
      rw [hlpt, hlink]
      rfl
    | strobe old val =>
      refine ⟨hlpt, ?_, ha, hn⟩
      change NibbleLink.ppStrobe dev.lpt dev.link old val = _
      rw [hlpt, hlink]
      rfl
    | latch val =>
      refine ⟨?_, hlink, ha, hn⟩
      change dev.lpt.map _ = p.lpt.map _
      rw [hlpt]
    | status =>
      have hstep : (device part).next dev .status = { dev with link := pollLink dev } := by
        change (ppReadStatus part dev).1 = _
        rw [ppReadStatus_queue part dev hp ha]
      rw [hstep]
      refine ⟨hlpt, ?_, ha, hn⟩
      change pollLink dev = _
      rw [pollLink, hlpt, hlink]
      rfl
  · intro dev p op hop hr
    obtain ⟨hlpt, hlink, ha, hn⟩ := hr
    cases op with
    | status =>
      have hans : (device part).answer dev .status = some (ppStatus (pollLink dev)) := by
        have hsweep : ¬(part.ngSweep = true ∧ dev.nRs = 1) := by
          rw [hn]
          exact fun h => absurd h.2 (by decide)
        change some (ppReadStatus part dev).2 = _
        rw [ppReadStatus_queue part dev hp ha, if_neg hsweep]
      rw [hans, pollLink, hlpt, hlink]
      rfl
    | data val => rfl
    | ctrl val => rfl
    | strobe old val => rfl
    | latch val => rfl

def Synced (p : Port) : Prop := ∀ dat, p.lpt = some dat → dat = p.link.lastData

theorem ppAckEdge_still (l : Link) : ppAckEdge l l.lastData = l := by
  rw [ppAckEdge]
  cases decide (l.lastData &&& 0x10 ≠ 0) <;> simp

theorem poll_link (p : Port) (h : Synced p) :
    (match p.lpt with
      | some dat => ppAckEdge p.link dat
      | none => p.link) = p.link := by
  cases hl : p.lpt with
  | none => rfl
  | some dat =>
    rw [h dat hl]
    exact ppAckEdge_still p.link

theorem poll_next (p : Port) (h : Synced p) :
    linkPort.next p .status = p ∧ linkPort.answer p .status = some (ppStatus p.link) := by
  constructor
  · change (⟨p.lpt, _⟩ : Port) = p
    rw [poll_link p h]
  · change some (ppStatus _) = _
    rw [poll_link p h]

structure SameLines (l l' : Link) : Prop where
  data : l'.lastData = l.lastData
  ctrl : l'.lastCtrl = l.lastCtrl
  hook : l'.haveStrobeHook = l.haveStrobeHook

theorem SameLines.refl (l : Link) : SameLines l l := ⟨rfl, rfl, rfl⟩

theorem SameLines.trans {l m n : Link} (h : SameLines l m) (h' : SameLines m n) : SameLines l n :=
  ⟨h'.data.trans h.data, h'.ctrl.trans h.ctrl, h'.hook.trans h.hook⟩

theorem ppQueue_lines (l : Link) (b : Byte) : SameLines l (ppQueue l b) := by
  rw [ppQueue]
  split_ifs <;> exact ⟨rfl, rfl, rfl⟩

theorem ppQueueKeyed_lines (next : Byte → Byte) (plain : ℕ → Byte) (n : ℕ) (l : Link)
    (k : Byte) : SameLines l (ppQueueKeyed next plain n l k) := by
  rw [ppQueueKeyed]
  induction n with
  | zero => exact SameLines.refl l
  | succ n ih =>
    rw [List.range_succ, List.foldl_append]
    exact ih.trans (ppQueue_lines _ _)

theorem ppRespond_lines (l : Link) : SameLines l (ppRespond l) := by
  have cleared : SameLines l { l with outLen := 0, outPos := 0 } := ⟨rfl, rfl, rfl⟩
  have busy : ∀ m : Link, SameLines l m → SameLines l { m with busy := 0 < m.outLen } :=
    fun m h => ⟨h.data, h.ctrl, h.hook⟩
  rw [ppRespond]
  dsimp only
  split_ifs
  · exact busy _ (cleared.trans (ppQueueKeyed_lines _ _ _ _ _))
  · exact busy _ (cleared.trans (ppQueueKeyed_lines _ _ _ _ _))
  · exact ⟨rfl, rfl, rfl⟩
  · exact ⟨rfl, rfl, rfl⟩

theorem ppHostByte_lines (l : Link) (b : Byte) : SameLines l (ppHostByte l b) := by
  have store : SameLines l (ppStore l b) := by
    rw [ppStore]
    split_ifs <;> exact ⟨rfl, rfl, rfl⟩
  rw [ppHostByte]
  split_ifs
  · exact SameLines.refl l
  · dsimp only
    split_ifs
    · have h := store.trans (ppRespond_lines (ppStore l b))
      exact ⟨h.data, h.ctrl, h.hook⟩
    · exact store

theorem ppTakeNibble_lines (l : Link) (nib : Byte) : SameLines l (ppTakeNibble l nib) := by
  rw [ppTakeNibble]
  split_ifs
  · exact ⟨rfl, rfl, rfl⟩
  · have h := ppHostByte_lines l (l.inNib ||| nib <<< 4)
    exact ⟨h.data, h.ctrl, h.hook⟩

def NoLatch (op : Op) : Prop := ∀ val, op ≠ .latch val

theorem synced_step (p : Port) (op : Op) (hop : NoLatch op) (h : Synced p) :
    Synced (linkPort.next p op) := by
  cases op with
  | data val =>
    intro dat hdat
    change p.lpt.map _ = some dat at hdat
    cases hl : p.lpt with
    | none => rw [hl] at hdat; cases hdat
    | some d =>
      rw [hl] at hdat
      cases hdat
      rfl
  | ctrl val =>
    intro dat hdat
    have hlast : (NibbleLink.ppWriteCtrl p.lpt p.link val).lastData = p.link.lastData := by
      rw [NibbleLink.ppWriteCtrl]
      split_ifs
      · rfl
      · exact (ppTakeNibble_lines _ _).data
      · rfl
    exact (h dat hdat).trans hlast.symm
  | strobe old val =>
    intro dat hdat
    have hlast : (NibbleLink.ppStrobe p.lpt p.link old val).lastData = p.link.lastData := by
      rw [NibbleLink.ppStrobe]
      split_ifs
      · exact (ppTakeNibble_lines _ _).data
      · rfl
    exact (h dat hdat).trans hlast.symm
  | status =>
    rw [(poll_next p h).1]
    exact h
  | latch val => exact absurd rfl (hop val)

def isAction (op : Op) : Bool := decide (op ≠ .status)

theorem run_without_polls (p : Port) (h : Synced p) (ops : List Op)
    (hops : ∀ op ∈ ops, NoLatch op) : linkPort.run p ops = linkPort.run p (ops.filter isAction) := by
  apply linkPort.run_filter isAction synced_step _ h ops hops
  intro q op hk hq
  have hop : op = .status := by
    rw [isAction, decide_eq_false_iff_not] at hk
    exact not_not.mp hk
  rw [hop]
  exact (poll_next q hq).1

def nibbles (bs : List Byte) : List Byte := bs.flatMap fun b => [b &&& 0x0F, b >>> 4]

def assemble : List Byte → List Byte
  | lo :: hi :: rest => (lo ||| hi <<< 4) :: assemble rest
  | _ => []

theorem nibbles_whole (b : Byte) : (b &&& (0x0F : Byte)) ||| (b >>> 4) <<< 4 = b := by
  revert b
  decide +kernel

theorem assemble_nibbles (bs : List Byte) : assemble (nibbles bs) = bs := by
  induction bs with
  | nil => rfl
  | cons b bs ih =>
    change ((b &&& (0x0F : Byte)) ||| (b >>> 4) <<< 4) :: assemble (nibbles bs) = b :: bs
    rw [nibbles_whole, ih]

theorem nibbles_length (bs : List Byte) : (nibbles bs).length = 2 * bs.length := by
  induction bs with
  | nil => rfl
  | cons b bs ih =>
    change (nibbles bs).length + 2 = 2 * (bs.length + 1)
    omega

theorem nibbles_narrow (bs : List Byte) :
    ∀ i < (nibbles bs).length, (nibbles bs).getD i 0 &&& 0x0F = (nibbles bs).getD i 0 := by
  intro i hi
  have hmem : (nibbles bs).getD i 0 ∈ nibbles bs := by
    rw [List.getD_eq_getElem _ _ hi]
    exact List.getElem_mem hi
  have hnarrow : ∀ b : Byte, (b &&& (0x0F : Byte)) &&& (0x0F : Byte) = b &&& (0x0F : Byte) ∧
      (b >>> 4) &&& (0x0F : Byte) = b >>> 4 := by
    decide +kernel
  generalize (nibbles bs).getD i 0 = x at hmem ⊢
  obtain ⟨b, -, hx⟩ := List.mem_flatMap.mp hmem
  rcases List.mem_pair.mp hx with hx | hx
  · rw [hx, (hnarrow b).1]
  · rw [hx, (hnarrow b).2]

/-- The game's keystream, seeded with a nonce. -/
def ppWalk : Walk Byte 8 := ⟨ppNextKey, id⟩

/-- What the host strobes in to program a record. -/
def programBytes (rec : List Byte) (m : Byte) : List Byte := 0x02 :: m :: ppWalk.cipher m rec

theorem ppProgram_block (l : Link) (i : ℕ) (hi : i < 48) :
    (ppProgram l).block i = l.cmd (2 + i) ^^^ ppWalk.stream (l.cmd 1) i := by
  have h := ppWalk.fill_loop (fun i => l.cmd (2 + i)) l.block (l.cmd 1) 48
  have hmask : ∀ k, ppWalk.mask k = k := fun _ => rfl
  have hnext : ∀ k, ppWalk.next k = ppNextKey k := fun _ => rfl
  simp only [hmask, hnext] at h
  simp only [ppProgram, h]
  exact if_pos hi

structure Queued (l : Link) (ys : List Byte) : Prop where
  len : l.outLen = ys.length
  cells : ∀ i < ys.length, l.out i = ys.getD i 0

theorem ppQueue_queued (l : Link) (ys : List Byte) (b : Byte) (hroom : ys.length + 2 ≤ 512)
    (h : Queued l ys) : Queued (ppQueue l b) (ys ++ [b &&& 0x0F, b >>> 4]) := by
  have hnib : (b >>> 4) &&& (0x0F : Byte) = b >>> 4 := by
    revert b
    decide +kernel
  have hfits : ¬ppOutMax < l.outLen + 2 := by
    rw [h.len]
    change ¬512 < ys.length + 2
    omega
  rw [ppQueue, if_neg hfits, hnib]
  constructor
  · change l.outLen + 2 = _
    rw [h.len, List.length_append]
    rfl
  · intro i hi
    rw [List.length_append] at hi
    change i < ys.length + 2 at hi
    change Function.update (Function.update l.out l.outLen (b &&& 0x0F)) (l.outLen + 1) (b >>> 4) i =
      _
    rw [h.len]
    by_cases h1 : i = ys.length + 1
    · subst h1
      rw [Function.update_self, List.getD_append_right _ _ _ _ (by omega)]
      simp
    · rw [Function.update_of_ne h1]
      by_cases h0 : i = ys.length
      · subst h0
        rw [Function.update_self, List.getD_append_right _ _ _ _ (by omega)]
        simp
      · rw [Function.update_of_ne h0, h.cells i (by omega), List.getD_append _ _ _ _ (by omega)]

def sameFrame (l l' : Link) : Prop := ∃ out n, l' = { l with out := out, outLen := n }

theorem ppQueueKeyed_queued (plain : ℕ → Byte) (n : ℕ) (hn : n ≤ 256) (l : Link) (k : Byte)
    (h : l.outLen = 0) :
    Queued (ppQueueKeyed ppNextKey plain n l k)
        (nibbles (ppWalk.cipher k ((List.range n).map plain))) ∧
      sameFrame l (ppQueueKeyed ppNextKey plain n l k) := by
  have loop : ∀ n ≤ 256, Queued ((List.range n).foldl
        (fun p i => (ppQueue p.1 (plain i ^^^ p.2), ppNextKey p.2)) (l, k)).1
        (nibbles (ppWalk.cipher k ((List.range n).map plain))) ∧
      sameFrame l ((List.range n).foldl
        (fun p i => (ppQueue p.1 (plain i ^^^ p.2), ppNextKey p.2)) (l, k)).1 ∧
      ((List.range n).foldl
        (fun p i => (ppQueue p.1 (plain i ^^^ p.2), ppNextKey p.2)) (l, k)).2 =
        ppNextKey^[n] k := by
    intro n
    induction n with
    | zero =>
      intro _
      exact ⟨⟨h, fun i hi => absurd hi (Nat.not_lt_zero i)⟩, ⟨l.out, l.outLen, rfl⟩, rfl⟩
    | succ n ih =>
      intro hn
      obtain ⟨hq, ⟨out, len, hs⟩, hk⟩ := ih (by omega)
      rw [List.range_succ, List.foldl_append, List.map_append, ppWalk.cipher_append]
      generalize (List.range n).foldl
        (fun p i => (ppQueue p.1 (plain i ^^^ p.2), ppNextKey p.2)) (l, k) = r at hq hs hk
      have hsplit : nibbles (ppWalk.cipher k ((List.range n).map plain) ++
          ppWalk.cipher (ppWalk.next^[((List.range n).map plain).length] k) ([n].map plain)) =
          nibbles (ppWalk.cipher k ((List.range n).map plain)) ++
            [(plain n ^^^ r.2) &&& 0x0F, (plain n ^^^ r.2) >>> 4] := by
        rw [nibbles, List.flatMap_append, hk, List.length_map, List.length_range]
        rfl
      have hroom : (nibbles (ppWalk.cipher k ((List.range n).map plain))).length + 2 ≤ 512 := by
        rw [nibbles_length, ppWalk.cipher_length, List.length_map, List.length_range]
        omega
      refine ⟨?_, ?_, ?_⟩
      · rw [hsplit]
        exact ppQueue_queued r.1 _ _ hroom hq
      · change sameFrame l (ppQueue r.1 (plain n ^^^ r.2))
        rw [ppQueue]
        split_ifs
        · exact ⟨out, len, hs⟩
        · rw [hs]
          exact ⟨_, _, rfl⟩
      · change ppNextKey r.2 = _
        rw [hk, Function.iterate_succ_apply']
  obtain ⟨hq, hs, -⟩ := loop n hn
  exact ⟨hq, hs⟩

/-- What the host drives to strobe one nibble: DATA, STROBE down and up on CTRL, and the
    edge as the port's own strobe hook reports it, where it does. -/
structure Strobe where
  data : Byte
  low : Byte
  high : Byte
  old : Byte
  new : Byte

/-- The strobe carries `nib`, with CTRL bits 2 and 3 held as in `c`. -/
structure Strobe.Carries (c : Byte) (s : Strobe) (nib : Byte) : Prop where
  range : s.data &&& 0xE0 = 0xE0
  nib : s.data &&& 0x0F = nib
  down : s.low &&& 0x01 = 0
  up : s.high &&& 0x01 ≠ 0
  lowKeeps : s.low &&& 0x0C = c &&& 0x0C
  highKeeps : s.high &&& 0x0C = c &&& 0x0C
  before : s.old &&& 0x01 = 0
  after : s.new &&& 0x01 ≠ 0

def strobeOps (hook : Bool) (s : Strobe) : List Op :=
  [.data s.data, .ctrl s.low] ++ (if hook then [.strobe s.old s.new] else []) ++ [.ctrl s.high]

/-- Between strobes: nothing queued, CTRL where the reset left it. -/
structure Quiet (p : Port) (c : Byte) (hook : Bool) : Prop where
  empty : p.link.outLen = 0
  start : p.link.outPos = 0
  busy : p.link.busy = false
  hooked : p.link.haveStrobeHook = hook
  ctrl : p.link.lastCtrl &&& 0x0C = c &&& 0x0C

theorem ppAckEdge_quiet {p : Port} {c : Byte} {hook : Bool} (h : Quiet p c hook) (val : Byte) :
    ppAckEdge p.link val = { p.link with lastData := val } := by
  have hpos : ¬p.link.outPos < p.link.outLen := by
    rw [h.empty, h.start]
    omega
  rw [ppAckEdge]
  dsimp only
  rw [if_neg hpos, decide_eq_false hpos, ← h.busy]
  split_ifs <;> rfl

theorem no_reset {a b c : Byte} (ha : a &&& 0x0C = c &&& 0x0C) (hb : b &&& 0x0C = c &&& 0x0C) :
    ¬(a ^^^ b) &&& 0x0C ≠ 0 := by
  have hdistrib : (a ^^^ b) &&& 0x0C = (a &&& 0x0C) ^^^ (b &&& 0x0C) :=
    BitVec.eq_of_getElem_eq (by simp [Bool.and_xor_distrib_right])
  rw [not_not, hdistrib, ha, hb, BitVec.xor_self]
  rfl

theorem strobe_run (p : Port) (c : Byte) (hook : Bool) (s : Strobe) (nib : Byte)
    (h : Quiet p c hook) (hs : s.Carries c nib) :
    ∃ l, linkPort.run p (strobeOps hook s) =
        ⟨p.lpt.map fun _ => s.data, { ppTakeNibble l nib with lastCtrl := s.high }⟩ ∧
      l = { p.link with lastData := s.data, lastCtrl := s.low } := by
  have hnib : (p.lpt.map fun _ => s.data).getD s.data &&& 0x0F = nib := by
    rw [← hs.nib]
    cases p.lpt <;> rfl
  have hdata : linkPort.next p (.data s.data) =
      ⟨p.lpt.map fun _ => s.data, { p.link with lastData := s.data }⟩ := by
    change (⟨_, ppAckEdge p.link s.data⟩ : Port) = _
    rw [ppAckEdge_quiet h]
  have hlow : linkPort.next ⟨p.lpt.map fun _ => s.data, { p.link with lastData := s.data }⟩
      (.ctrl s.low) =
      ⟨p.lpt.map fun _ => s.data, { p.link with lastData := s.data, lastCtrl := s.low }⟩ := by
    change (⟨_, NibbleLink.ppWriteCtrl _ _ s.low⟩ : Port) = _
    rw [NibbleLink.ppWriteCtrl, if_neg (no_reset hs.lowKeeps h.ctrl),
      if_neg (fun hc => hc.2.2 hs.down)]
  refine ⟨_, ?_, rfl⟩
  have hkeep := ppTakeNibble_lines { p.link with lastData := s.data, lastCtrl := s.low } nib
  cases hook with
  | true =>
    have hstrobe : linkPort.next
        ⟨p.lpt.map fun _ => s.data, { p.link with lastData := s.data, lastCtrl := s.low }⟩
        (.strobe s.old s.new) =
        ⟨p.lpt.map fun _ => s.data,
          ppTakeNibble { p.link with lastData := s.data, lastCtrl := s.low } nib⟩ := by
      change (⟨_, NibbleLink.ppStrobe _ _ s.old s.new⟩ : Port) = _
      rw [NibbleLink.ppStrobe, if_pos ⟨hs.before, hs.after⟩, ppLatchNibble, ← hnib, ← h.hooked]
    change linkPort.next (linkPort.next (linkPort.next (linkPort.next p (.data s.data))
      (.ctrl s.low)) (.strobe s.old s.new)) (.ctrl s.high) = _
    rw [hdata, hlow, hstrobe]
    change (⟨_, NibbleLink.ppWriteCtrl _ _ s.high⟩ : Port) = _
    rw [NibbleLink.ppWriteCtrl, if_neg (no_reset hs.highKeeps (by rw [hkeep.ctrl]; exact hs.lowKeeps)),
      if_neg]
    intro hc
    rw [hkeep.hook, h.hooked] at hc
    exact absurd hc.1 (by decide)
  | false =>
    change linkPort.next (linkPort.next (linkPort.next p (.data s.data)) (.ctrl s.low))
      (.ctrl s.high) = _
    rw [hdata, hlow]
    change (⟨_, NibbleLink.ppWriteCtrl _ _ s.high⟩ : Port) = _
    rw [NibbleLink.ppWriteCtrl, if_neg (no_reset hs.highKeeps hs.lowKeeps),
      if_pos ⟨h.hooked, hs.down, hs.up⟩, ppLatchNibble, hnib]

/-- The framer between two bytes of a command, `got` of them in. -/
structure Framing (p : Port) (c : Byte) (hook : Bool) (block : ℕ → Byte) (got : List Byte) :
    Prop extends Quiet p c hook where
  whole : p.link.inHave = false
  count : p.link.cmdLen = got.length
  bytes : ∀ i < got.length, p.link.cmd i = got.getD i 0
  block : p.link.block = block

theorem byte_strobes (p : Port) (c : Byte) (hook : Bool) (block : ℕ → Byte) (got : List Byte)
    (b : Byte) (s₁ s₂ : Strobe) (h : Framing p c hook block got) (h₁ : s₁.Carries c (b &&& 0x0F))
    (h₂ : s₂.Carries c (b >>> 4)) :
    ∃ l, linkPort.run p (strobeOps hook s₁ ++ strobeOps hook s₂) =
        ⟨p.lpt.map fun _ => s₂.data,
          { ppHostByte l b with inHave := false, lastCtrl := s₂.high }⟩ ∧
      l = { p.link with
        inNib := b &&& 0x0F, inHave := true, lastData := s₂.data, lastCtrl := s₂.low } := by
  obtain ⟨l₁, hrun₁, hl₁⟩ := strobe_run p c hook s₁ _ h.toQuiet h₁
  have htake₁ : ppTakeNibble l₁ (b &&& 0x0F) = { l₁ with inNib := b &&& 0x0F, inHave := true } := by
    have hw : l₁.inHave = false := by
      rw [hl₁]
      exact h.whole
    rw [ppTakeNibble, if_pos hw]
  rw [htake₁, hl₁] at hrun₁
  have hquiet : Quiet ⟨p.lpt.map fun _ => s₁.data,
      { p.link with
        inNib := b &&& 0x0F, inHave := true, lastData := s₁.data, lastCtrl := s₁.high }⟩ c hook :=
    ⟨h.empty, h.start, h.busy, h.hooked, h₁.highKeeps⟩
  obtain ⟨l₂, hrun₂, hl₂⟩ := strobe_run _ c hook s₂ _ hquiet h₂
  have htake₂ : ppTakeNibble l₂ (b >>> 4) = { ppHostByte l₂ b with inHave := false } := by
    have hw : l₂.inHave = true := by rw [hl₂]
    have hn : l₂.inNib = b &&& 0x0F := by rw [hl₂]
    rw [ppTakeNibble, if_neg (by rw [hw]; decide), hn, nibbles_whole]
  rw [htake₂] at hrun₂
  refine ⟨l₂, ?_, hl₂⟩
  rw [Machine.run_append, hrun₁, hrun₂, Option.map_map]
  rfl

theorem store_byte (p : Port) (c : Byte) (hook : Bool) (block : ℕ → Byte) (got : List Byte)
    (b : Byte) (l : Link) (h : Framing p c hook block got) (hcmd : l.cmd = p.link.cmd)
    (hlen : l.cmdLen = p.link.cmdLen) (hfirst : got = [] → b ≤ 3) (hroom : got.length < 256) :
    ∃ cmd, (∀ i < (got ++ [b]).length, cmd i = (got ++ [b]).getD i 0) ∧
      (got.length + 1 < ppSendLen ((got ++ [b]).getD 0 0) →
        ppHostByte l b = { l with cmd := cmd, cmdLen := got.length + 1 }) ∧
      (ppSendLen ((got ++ [b]).getD 0 0) = got.length + 1 →
        ppHostByte l b =
          { ppRespond { l with cmd := cmd, cmdLen := got.length + 1 } with cmdLen := 0 }) := by
  have hcmdLen : l.cmdLen = got.length := hlen.trans h.count
  have hfits : ¬(l.cmdLen = 0 ∧ 3 < b) := by
    intro hc
    have hle := hfirst (List.length_eq_zero_iff.mp (hcmdLen.symm.trans hc.1))
    exact absurd hc.2 (BitVec.not_lt.mpr hle)
  have hstore : ppStore l b =
      { l with cmd := Function.update l.cmd l.cmdLen b, cmdLen := l.cmdLen + 1 } := by
    rw [ppStore, if_pos]
    rw [hcmdLen]
    exact hroom
  have hbytes : ∀ i < (got ++ [b]).length,
      Function.update l.cmd l.cmdLen b i = (got ++ [b]).getD i 0 := by
    intro i hi
    rw [List.length_append, List.length_singleton] at hi
    rw [hcmdLen, hcmd]
    by_cases hlast : i = got.length
    · subst hlast
      rw [Function.update_self, List.getD_append_right _ _ _ _ (by omega)]
      simp
    · rw [Function.update_of_ne hlast, h.bytes i (by omega), List.getD_append _ _ _ _ (by omega)]
  have hstored : ppStore l b =
      { l with cmd := Function.update l.cmd l.cmdLen b, cmdLen := got.length + 1 } := by
    rw [hstore, hcmdLen]
  have htype : (ppStore l b).cmd 0 = (got ++ [b]).getD 0 0 := by
    rw [hstored]
    exact hbytes 0 (by simp)
  have hcount : (ppStore l b).cmdLen = got.length + 1 := by rw [hstored]
  refine ⟨Function.update l.cmd l.cmdLen b, hbytes, fun hshort => ?_, fun hfull => ?_⟩
  · rw [← hstored, ppHostByte, if_neg hfits]
    apply if_neg
    rw [htype, hcount]
    omega
  · rw [← hstored, ppHostByte, if_neg hfits]
    apply if_pos
    rw [htype, hcount]
    omega

theorem byte_more (p : Port) (c : Byte) (hook : Bool) (block : ℕ → Byte) (got : List Byte)
    (b : Byte) (s₁ s₂ : Strobe) (h : Framing p c hook block got) (h₁ : s₁.Carries c (b &&& 0x0F))
    (h₂ : s₂.Carries c (b >>> 4)) (hfirst : got = [] → b ≤ 3) (hroom : got.length < 256)
    (hshort : got.length + 1 < ppSendLen ((got ++ [b]).getD 0 0)) :
    Framing (linkPort.run p (strobeOps hook s₁ ++ strobeOps hook s₂)) c hook block
      (got ++ [b]) := by
  obtain ⟨l, hrun, hl⟩ := byte_strobes p c hook block got b s₁ s₂ h h₁ h₂
  obtain ⟨cmd, hbytes, hmore, -⟩ := store_byte p c hook block got b l h (by rw [hl]) (by rw [hl])
    hfirst hroom
  rw [hrun, hmore hshort, hl]
  refine ⟨⟨h.empty, h.start, h.busy, h.hooked, h₂.highKeeps⟩, rfl, ?_, hbytes, h.block⟩
  rw [List.length_append]
  rfl

theorem byte_last (p : Port) (c : Byte) (hook : Bool) (block : ℕ → Byte) (got : List Byte)
    (b : Byte) (s₁ s₂ : Strobe) (h : Framing p c hook block got) (h₁ : s₁.Carries c (b &&& 0x0F))
    (h₂ : s₂.Carries c (b >>> 4)) (hfirst : got = [] → b ≤ 3) (hroom : got.length < 256)
    (hfull : ppSendLen ((got ++ [b]).getD 0 0) = got.length + 1) :
    ∃ l, linkPort.run p (strobeOps hook s₁ ++ strobeOps hook s₂) =
        ⟨p.lpt.map fun _ => s₂.data,
          { ppRespond l with cmdLen := 0, inHave := false, lastCtrl := s₂.high }⟩ ∧
      (∀ i < (got ++ [b]).length, l.cmd i = (got ++ [b]).getD i 0) ∧ l.block = block ∧
      l.lastData = s₂.data ∧ l.haveStrobeHook = hook := by
  obtain ⟨l, hrun, hl⟩ := byte_strobes p c hook block got b s₁ s₂ h h₁ h₂
  obtain ⟨cmd, hbytes, -, hlast⟩ := store_byte p c hook block got b l h (by rw [hl]) (by rw [hl])
    hfirst hroom
  refine ⟨{ l with cmd := cmd, cmdLen := got.length + 1 }, ?_, hbytes, ?_, ?_, ?_⟩
  · rw [hrun, hlast hfull]
  · rw [hl]
    exact h.block
  · rw [hl]
  · rw [hl]
    exact h.hooked

def Strobed (c : Byte) (ss : List Strobe) (bs : List Byte) : Prop :=
  List.Forall₂ (Strobe.Carries c) ss (nibbles bs)

theorem strobed_cons {c b : Byte} {ss : List Strobe} {bs : List Byte}
    (h : Strobed c ss (b :: bs)) :
    ∃ s₁ s₂ rest, ss = s₁ :: s₂ :: rest ∧ s₁.Carries c (b &&& 0x0F) ∧ s₂.Carries c (b >>> 4) ∧
      Strobed c rest bs := by
  cases h with
  | cons h₁ hrest =>
    cases hrest with
    | cons h₂ hrest => exact ⟨_, _, _, rfl, h₁, h₂, hrest⟩

theorem bytes_run (p : Port) (c : Byte) (hook : Bool) (block : ℕ → Byte) (got bs : List Byte)
    (ss : List Strobe) (h : Framing p c hook block got) (hs : Strobed c ss bs)
    (hfirst : (got ++ bs).getD 0 0 ≤ 3) (hroom : (got ++ bs).length ≤ 256)
    (hshort : (got ++ bs).length < ppSendLen ((got ++ bs).getD 0 0)) :
    Framing (linkPort.run p (ss.flatMap (strobeOps hook))) c hook block (got ++ bs) := by
  induction bs generalizing p got ss with
  | nil =>
    cases hs
    rw [List.append_nil]
    exact h
  | cons b bs ih =>
    obtain ⟨s₁, s₂, rest, hss, h₁, h₂, hrest⟩ := strobed_cons hs
    have hassoc : got ++ b :: bs = got ++ [b] ++ bs := by simp
    have hhead : (got ++ [b] ++ bs).getD 0 0 = (got ++ [b]).getD 0 0 :=
      List.getD_append _ _ _ _ (by simp)
    rw [hassoc] at hfirst hroom hshort ⊢
    have hlen : (got ++ [b] ++ bs).length = got.length + 1 + bs.length := by
      simp only [List.length_append, List.length_singleton]
    have hnext := byte_more p c hook block got b s₁ s₂ h h₁ h₂
      (by
        intro hnil
        rw [hhead, hnil] at hfirst
        exact hfirst)
      (by omega) (by rw [← hhead]; omega)
    rw [hss, List.flatMap_cons, List.flatMap_cons, ← List.append_assoc, Machine.run_append]
    exact ih _ _ rest hnext hrest hfirst hroom hshort

theorem strobed_append {c : Byte} {ss : List Strobe} {bs bs' : List Byte}
    (h : Strobed c ss (bs ++ bs')) :
    ∃ ss₁ ss₂, ss = ss₁ ++ ss₂ ∧ Strobed c ss₁ bs ∧ Strobed c ss₂ bs' := by
  induction bs generalizing ss with
  | nil => exact ⟨[], ss, rfl, .nil, h⟩
  | cons b bs ih =>
    obtain ⟨s₁, s₂, rest, hss, h₁, h₂, hrest⟩ := strobed_cons h
    obtain ⟨ss₁, ss₂, hsplit, hl, hr⟩ := ih hrest
    refine ⟨s₁ :: s₂ :: ss₁, ss₂, ?_, .cons h₁ (.cons h₂ hl), hr⟩
    rw [hss, hsplit]
    rfl

theorem strobed_snoc {c b : Byte} {bs : List Byte} {ss : List Strobe}
    (h : Strobed c ss (bs ++ [b])) :
    ∃ rest s₁ s₂, ss = rest ++ [s₁, s₂] ∧ Strobed c rest bs ∧ s₁.Carries c (b &&& 0x0F) ∧
      s₂.Carries c (b >>> 4) := by
  obtain ⟨rest, two, hsplit, hl, hr⟩ := strobed_append h
  obtain ⟨s₁, s₂, none, htwo, h₁, h₂, hnone⟩ := strobed_cons hr
  cases hnone
  exact ⟨rest, s₁, s₂, by rw [hsplit, htwo], hl, h₁, h₂⟩

theorem command_run (p : Port) (c : Byte) (hook : Bool) (block : ℕ → Byte) (bs : List Byte)
    (b : Byte) (ss : List Strobe) (h : Framing p c hook block []) (hs : Strobed c ss (bs ++ [b]))
    (htype : (bs ++ [b]).getD 0 0 ≤ 3) (hroom : bs.length < 256)
    (hlen : ppSendLen ((bs ++ [b]).getD 0 0) = bs.length + 1) :
    ∃ (lpt : Option Byte) (l : Link) (s : Strobe),
      linkPort.run p (ss.flatMap (strobeOps hook)) =
        ⟨lpt.map fun _ => s.data,
          { ppRespond l with cmdLen := 0, inHave := false, lastCtrl := s.high }⟩ ∧
      (∀ i < (bs ++ [b]).length, l.cmd i = (bs ++ [b]).getD i 0) ∧ l.block = block ∧
      l.lastData = s.data ∧ l.haveStrobeHook = hook ∧ s.high &&& 0x0C = c &&& 0x0C ∧
      ss.getLast? = some s := by
  obtain ⟨rest, s₁, s₂, hss, hrest, h₁, h₂⟩ := strobed_snoc hs
  have hhead : bs ≠ [] → bs.getD 0 0 = (bs ++ [b]).getD 0 0 := by
    intro hne
    exact (List.getD_append _ _ _ _ (List.length_pos_of_ne_nil hne)).symm
  have hframing : Framing (linkPort.run p (rest.flatMap (strobeOps hook))) c hook block bs := by
    by_cases hnil : bs = []
    · subst hnil
      cases hrest
      exact h
    · have hrun := bytes_run p c hook block [] bs rest h hrest
        (by rw [List.nil_append, hhead hnil]; exact htype)
        (by rw [List.nil_append]; omega)
        (by rw [List.nil_append, hhead hnil]; omega)
      exact hrun
  obtain ⟨l, hrun, hcmd, hblock, hdata, hhook⟩ := byte_last _ c hook block bs b s₁ s₂ hframing h₁ h₂
    (by
      intro hnil
      rw [hnil] at htype
      exact htype) hroom hlen
  refine ⟨(linkPort.run p (rest.flatMap (strobeOps hook))).lpt, l, s₂, ?_, hcmd, hblock, hdata,
    hhook, h₂.highKeeps, ?_⟩
  · rw [hss, List.flatMap_append, Machine.run_append]
    have htwo : [s₁, s₂].flatMap (strobeOps hook) = strobeOps hook s₁ ++ strobeOps hook s₂ := by
      simp
    rw [htwo]
    exact hrun
  · rw [hss]
    simp

theorem programBytes_length (rec : List Byte) (m : Byte) (hrec : rec.length = 48) :
    (programBytes rec m).length = 50 := by
  simp [programBytes, hrec]

theorem three_is_type : (3 : Byte) ≤ 3 := by decide

theorem program_run (p : Port) (c : Byte) (hook : Bool) (block : ℕ → Byte) (rec : List Byte)
    (m : Byte) (ss : List Strobe) (hrec : rec.length = 48) (h : Framing p c hook block [])
    (hs : Strobed c ss (programBytes rec m)) :
    ∃ block', Framing (linkPort.run p (ss.flatMap (strobeOps hook))) c hook block' [] ∧
      (List.range 48).map block' = rec := by
  have hlen := programBytes_length rec m hrec
  have hne : programBytes rec m ≠ [] := List.ne_nil_of_length_pos (by omega)
  have hsplit := List.dropLast_append_getLast hne
  have hfront : (programBytes rec m).dropLast.length = 49 := by
    rw [List.length_dropLast, hlen]
  have hs' : Strobed c ss ((programBytes rec m).dropLast ++ [(programBytes rec m).getLast hne]) := by
    rw [hsplit]
    exact hs
  have hzero : (programBytes rec m).getD 0 0 = 0x02 := rfl
  obtain ⟨lpt, l, s, hrun, hcmd, hblock, hdata, hhook, hkeep, -⟩ := command_run p c hook block _ _ ss h
    hs' (by rw [hsplit, hzero]; decide) (by omega) (by rw [hsplit, hzero, hfront]; rfl)
  rw [hsplit] at hcmd
  have htype : l.cmd 0 = 2 := (hcmd 0 (by omega)).trans hzero
  have hnonce : l.cmd 1 = m := (hcmd 1 (by omega)).trans rfl
  have hrespond : ppRespond l = { ppProgram { l with outLen := 0, outPos := 0 } with busy := false } := by
    rw [ppRespond]
    dsimp only
    rw [htype]
    rfl
  refine ⟨(ppProgram { l with outLen := 0, outPos := 0 }).block, ?_, ?_⟩
  · rw [hrun, hrespond]
    exact ⟨⟨rfl, rfl, rfl, hhook, hkeep⟩, rfl, rfl, fun i hi => absurd hi (Nat.not_lt_zero i), rfl⟩
  · apply List.ext_getElem
    · simp [hrec]
    · intro i h₁ h₂
      have hi : i < 48 := by omega
      rw [List.getElem_map, List.getElem_range, ppProgram_block _ i hi]
      change l.cmd (2 + i) ^^^ ppWalk.stream (l.cmd 1) i = rec[i]
      have hcell : (programBytes rec m).getD (2 + i) 0 = rec[i] ^^^ ppWalk.stream m i := by
        have hget : (programBytes rec m)[2 + i]? = some (rec[i] ^^^ ppWalk.stream m i) := by
          rw [programBytes, Nat.add_comm, List.getElem?_cons_succ, List.getElem?_cons_succ,
            ppWalk.cipher_getElem?, List.getElem?_eq_getElem h₂]
          rfl
        rw [List.getD_eq_getElem?_getD, hget]
        rfl
      rw [hcmd (2 + i) (by omega), hcell, hnonce, BitVec.xor_assoc, BitVec.xor_self,
        BitVec.xor_zero]

/-- The host's acknowledge cycle for one nibble: it polls at least once, raises DATA bit 4,
    waits, and drops it again. -/
structure Ack where
  before : ℕ
  polled : 0 < before
  up : Byte
  raises : up &&& 0xF0 = 0xF0
  held : ℕ
  down : Byte
  drops : down &&& 0xF0 = 0xE0

def ackOps (a : Ack) : List Op :=
  List.replicate a.before .status ++ [.data a.up] ++ List.replicate a.held .status ++
    [.data a.down]

/-- What the host sees of one cycle: BUSY with the nibble on bits 3 to 6, then nothing. -/
def ackAnswers (nib : Byte) (a : Ack) : List Byte :=
  List.replicate a.before (nib <<< 3 ||| 0x80) ++ List.replicate a.held 0x00

theorem ack_raise (l : Link) (val : Byte) (hlow : l.lastData &&& 0x10 = 0)
    (hup : val &&& 0x10 ≠ 0) :
    ppAckEdge l val =
      { l with
        outPos := if l.outPos < l.outLen then l.outPos + 1 else l.outPos, busy := false
        lastData := val } := by
  have hwas : decide (l.lastData &&& 0x10 ≠ 0) = false := decide_eq_false (not_not.mpr hlow)
  have hnow : decide (val &&& 0x10 ≠ 0) = true := decide_eq_true hup
  simp only [ppAckEdge, hwas, hnow]
  rfl

theorem ack_drop (l : Link) (val : Byte) (hhigh : l.lastData &&& 0x10 ≠ 0)
    (hlow : val &&& 0x10 = 0) :
    ppAckEdge l val = { l with busy := decide (l.outPos < l.outLen), lastData := val } := by
  have hwas : decide (l.lastData &&& 0x10 ≠ 0) = true := decide_eq_true hhigh
  have hnow : decide (val &&& 0x10 ≠ 0) = false := decide_eq_false (not_not.mpr hlow)
  simp only [ppAckEdge, hwas, hnow]
  rfl

/-- The queue holds `ys` and `taken` of them are gone. -/
structure Draining (p : Port) (ys : List Byte) (taken : ℕ) : Prop where
  queued : Queued p.link ys
  pos : p.link.outPos = taken
  busy : p.link.busy = decide (taken < ys.length)
  synced : Synced p
  low : p.link.lastData &&& 0x10 = 0

theorem polls_run (p : Port) (h : Synced p) (n : ℕ) :
    linkPort.trace p (List.replicate n .status) = List.replicate n (ppStatus p.link) ∧
      linkPort.run p (List.replicate n .status) = p :=
  linkPort.trace_replicate p .status _ (poll_next p h).1 (poll_next p h).2 n

theorem ack_marks : ∀ v : Byte, (v &&& 0xF0 = 0xF0 → v &&& 0x10 ≠ 0 ∧ v &&& 0xE0 = 0xE0) ∧
    (v &&& 0xF0 = 0xE0 → v &&& 0x10 = 0 ∧ v &&& 0xE0 = 0xE0) := by
  decide +kernel

theorem synced_data (p : Port) (val : Byte) : Synced (linkPort.next p (.data val)) := by
  intro dat hdat
  change p.lpt.map _ = some dat at hdat
  cases hl : p.lpt with
  | none =>
    rw [hl] at hdat
    cases hdat
  | some d =>
    rw [hl] at hdat
    cases hdat
    rfl

theorem ack_run (p : Port) (ys : List Byte) (pos : ℕ) (a : Ack) (h : Draining p ys pos)
    (hpos : pos < ys.length) (hnib : ys.getD pos 0 &&& 0x0F = ys.getD pos 0) :
    linkPort.trace p (ackOps a) = ackAnswers (ys.getD pos 0) a ∧
      Draining (linkPort.run p (ackOps a)) ys (pos + 1) := by
  obtain ⟨hup, -⟩ := (ack_marks a.up).1 a.raises
  obtain ⟨hdown, -⟩ := (ack_marks a.down).2 a.drops
  have hshow : ppStatus p.link = ys.getD pos 0 <<< 3 ||| 0x80 := by
    have hmore : p.link.outPos < p.link.outLen := by
      rw [h.pos, h.queued.len]
      exact hpos
    rw [ppStatus, h.busy, decide_eq_true hpos, if_pos rfl, if_pos hmore, h.pos,
      h.queued.cells pos hpos, hnib]
  have hraise : linkPort.next p (.data a.up) =
      ⟨p.lpt.map fun _ => a.up,
        { p.link with outPos := pos + 1, busy := false, lastData := a.up }⟩ := by
    change (⟨_, ppAckEdge p.link a.up⟩ : Port) = _
    have hmore : p.link.outPos < p.link.outLen := by
      rw [h.pos, h.queued.len]
      exact hpos
    rw [ack_raise p.link a.up h.low hup, if_pos hmore, h.pos]
  have hsync := synced_data p a.up
  have hquiet : ppStatus (linkPort.next p (.data a.up)).link = 0x00 := by
    rw [hraise]
    rfl
  have hdrop : linkPort.next (linkPort.next p (.data a.up)) (.data a.down) =
      ⟨p.lpt.map fun _ => a.down,
        { p.link with
          outPos := pos + 1, busy := decide (pos + 1 < ys.length), lastData := a.down }⟩ := by
    rw [hraise]
    change (⟨_, ppAckEdge _ a.down⟩ : Port) = _
    rw [Option.map_map, ack_drop _ a.down hup hdown, ← h.queued.len]
    rfl
  obtain ⟨ht₁, hr₁⟩ := polls_run p h.synced a.before
  obtain ⟨ht₂, hr₂⟩ := polls_run _ hsync a.held
  have hsync₂ := synced_data (linkPort.next p (.data a.up)) a.down
  rw [hdrop] at hsync₂
  constructor
  · rw [ackOps, Machine.trace_append, Machine.trace_append, Machine.trace_append,
      Machine.run_append, ht₁, hr₁, hshow]
    have hone : linkPort.run p [.data a.up] = linkPort.next p (.data a.up) := rfl
    have hnone : linkPort.trace p [.data a.up] = [] := rfl
    have hlast : ∀ q, linkPort.trace q [.data a.down] = [] := fun _ => rfl
    rw [hone, hnone, hlast, ht₂, hquiet, List.append_nil, List.append_nil]
    rfl
  · rw [ackOps, Machine.run_append, Machine.run_append, Machine.run_append, hr₁]
    change Draining (linkPort.next (linkPort.run (linkPort.next p (.data a.up)) _) _) ys (pos + 1)
    rw [hr₂, hdrop]
    exact ⟨⟨h.queued.len, h.queued.cells⟩, rfl, rfl, hsync₂, hdown⟩

theorem acks_run (p : Port) (ys : List Byte) (pos : ℕ) (acks : List Ack)
    (h : Draining p ys pos) (hpos : pos + acks.length ≤ ys.length)
    (hnib : ∀ i < ys.length, ys.getD i 0 &&& 0x0F = ys.getD i 0) :
    linkPort.trace p (acks.flatMap ackOps) =
        (List.zipWith ackAnswers (ys.drop pos) acks).flatten ∧
      Draining (linkPort.run p (acks.flatMap ackOps)) ys (pos + acks.length) := by
  induction acks generalizing p pos with
  | nil =>
    rw [List.zipWith_nil_right]
    exact ⟨rfl, h⟩
  | cons a acks ih =>
    rw [List.length_cons] at hpos
    obtain ⟨htrace, hnext⟩ := ack_run p ys pos a h (by omega) (hnib pos (by omega))
    obtain ⟨htraces, hrest⟩ := ih _ (pos + 1) hnext (by omega)
    have hdrop : ys.drop pos = ys.getD pos 0 :: ys.drop (pos + 1) := by
      rw [List.getD_eq_getElem _ _ (by omega)]
      exact List.drop_eq_getElem_cons (by omega)
    rw [List.flatMap_cons, Machine.trace_append, Machine.run_append, htrace, htraces, hdrop,
      List.zipWith_cons_cons, List.flatten_cons, List.length_cons]
    refine ⟨rfl, ?_⟩
    have hsum : pos + (acks.length + 1) = pos + 1 + acks.length := by omega
    rw [hsum]
    exact hrest

/-- The 1999 host drives DATA only between E0 and FF, always through the write callback. -/
def Host (op : Op) : Prop :=
  match op with
  | .data val => val &&& 0xE0 = 0xE0
  | .latch _ => False
  | _ => True

theorem Host.noPulse {op : Op} (h : Host op) : op ≠ .data 0xBF := by
  intro he
  rw [he] at h
  have hrange : (0xBF : Byte) &&& 0xE0 = 0xE0 := h
  exact absurd hrange (by decide)

theorem Host.noLatch {op : Op} (h : Host op) : NoLatch op := by
  intro val he
  rw [he] at h
  exact h

theorem drained_silent (p : Port) (ops : List Op) (hops : ∀ op ∈ ops, Host op ∧ Plain op)
    (hsync : Synced p) (hempty : p.link.outPos = p.link.outLen) (hbusy : p.link.busy = false) :
    ∀ st ∈ linkPort.trace p ops, st = 0x00 := by
  induction ops generalizing p with
  | nil =>
    intro st hst
    cases hst
  | cons op ops ih =>
    have hrest : ∀ op ∈ ops, Host op ∧ Plain op := fun o ho => hops o (by simp [ho])
    obtain ⟨-, hplain⟩ := hops op (by simp)
    intro st hst
    rw [Machine.trace_cons, List.mem_append] at hst
    rcases hplain with h | h
    · subst h
      obtain ⟨hnext, hans⟩ := poll_next p hsync
      rw [hnext, hans, ppStatus, hbusy] at hst
      rcases hst with hst | hst
      · exact List.mem_singleton.mp hst
      · exact ih p hrest hsync hempty hbusy st hst
    · obtain ⟨val, h⟩ := h
      subst h
      have hnone : linkPort.answer p (.data val) = none := rfl
      rw [hnone] at hst
      rcases hst with hst | hst
      · cases hst
      · have hedge : (ppAckEdge p.link val).outPos = (ppAckEdge p.link val).outLen ∧
            (ppAckEdge p.link val).busy = false := by
          have hno : ¬p.link.outPos < p.link.outLen := by omega
          rw [ppAckEdge]
          dsimp only
          rw [if_neg hno, decide_eq_false hno]
          split_ifs
          · exact ⟨hempty, rfl⟩
          · exact ⟨hempty, rfl⟩
          · exact ⟨hempty, hbusy⟩
        exact ih _ hrest (synced_data p val) hedge.1 hedge.2 st hst

theorem run_from_reset (p : Port) (c val : Byte) (hook : Bool) (ops core : List Op)
    (h : Quiet p c hook) (hops : ∀ op ∈ ops, NoLatch op)
    (hcore : ops.filter isAction = .data val :: core) :
    linkPort.run p ops = linkPort.run p (.data val :: core) := by
  induction ops generalizing p with
  | nil => cases hcore
  | cons op ops ih =>
    have hrest : ∀ op ∈ ops, NoLatch op := fun o ho => hops o (by simp [ho])
    by_cases hop : op = .status
    · subst hop
      have htail : ops.filter isAction = .data val :: core := hcore
      -- the poll may move `lastData`, which the coming write overwrites
      have hpoll : ∃ d, linkPort.next p .status = ⟨p.lpt, { p.link with lastData := d }⟩ := by
        cases hl : p.lpt with
        | none =>
          refine ⟨p.link.lastData, ?_⟩
          change (⟨p.lpt, match p.lpt with
            | some dat => ppAckEdge p.link dat
            | none => p.link⟩ : Port) = _
          rw [hl]
        | some dat =>
          refine ⟨dat, ?_⟩
          change (⟨p.lpt, match p.lpt with
            | some dat => ppAckEdge p.link dat
            | none => p.link⟩ : Port) = _
          rw [hl]
          change (⟨some dat, ppAckEdge p.link dat⟩ : Port) = _
          rw [ppAckEdge_quiet h]
      obtain ⟨d, hd⟩ := hpoll
      have hquiet : Quiet ⟨p.lpt, { p.link with lastData := d }⟩ c hook :=
        ⟨h.empty, h.start, h.busy, h.hooked, h.ctrl⟩
      have hsame : linkPort.next ⟨p.lpt, { p.link with lastData := d }⟩ (.data val) =
          linkPort.next p (.data val) := by
        change (⟨_, ppAckEdge _ val⟩ : Port) = ⟨_, ppAckEdge p.link val⟩
        rw [ppAckEdge_quiet hquiet, ppAckEdge_quiet h]
      rw [Machine.run_cons, hd, ih _ hquiet hrest htail, Machine.run_cons, hsame]
      rfl
    · have hkeep : isAction op = true := by
        rw [isAction]
        exact decide_eq_true hop
      rw [List.filter_cons_of_pos hkeep] at hcore
      have hhead : op = .data val := List.head_eq_of_cons_eq hcore
      have htail : ops.filter isAction = core := List.tail_eq_of_cons_eq hcore
      subst hhead
      rw [Machine.run_cons, run_without_polls _ (synced_data p val) ops hrest, htail]
      rfl

theorem exchange_run (p : Port) (c : Byte) (hook : Bool) (rec : List Byte) (m n : Byte)
    (ss : List Strobe) (hrec : rec.length = 48) (h : Framing p c hook p.link.block [])
    (hs : Strobed c ss (programBytes rec m ++ [0x03, n])) :
    ∃ (lpt : Option Byte) (l : Link) (s : Strobe),
      linkPort.run p (ss.flatMap (strobeOps hook)) = ⟨lpt.map fun _ => s.data, l⟩ ∧
      Queued l (nibbles (ppWalk.cipher n rec)) ∧ l.outPos = 0 ∧ l.busy = true ∧
      l.lastData = s.data ∧ ss.getLast? = some s := by
  obtain ⟨ss₁, ss₂, hsplit, h₁, h₂⟩ := strobed_append hs
  obtain ⟨block, hframing, hblock⟩ := program_run p c hook p.link.block rec m ss₁ hrec h h₁
  obtain ⟨lpt, l, s, hrun, hcmd, hl, hdata, hhook, hkeep, hlast⟩ := command_run _ c hook block [0x03] n
    ss₂ hframing h₂ three_is_type (by change 1 < 256; omega) rfl
  subst hl
  have htype : l.cmd 0 = 3 := hcmd 0 (by change 0 < 2; omega)
  have hnonce : l.cmd 1 = n := hcmd 1 (by change 1 < 2; omega)
  -- nothing of the queue matters later but what it holds and where it starts
  obtain ⟨q, hq, hqueued, hpos⟩ : ∃ q,
      ppQueueKeyed ppNextKey l.block (ppRecvLen 3) { l with outLen := 0, outPos := 0 } n = q ∧
      Queued q (nibbles (ppWalk.cipher n rec)) ∧ q.outPos = 0 := by
    obtain ⟨hqueued, out, len, hframe⟩ := ppQueueKeyed_queued l.block 48 (by omega)
      { l with outLen := 0, outPos := 0 } n rfl
    rw [hblock] at hqueued
    refine ⟨_, rfl, hqueued, ?_⟩
    change (ppQueueKeyed ppNextKey l.block 48 _ n).outPos = 0
    rw [hframe]
  have hsome : 0 < q.outLen := by
    rw [hqueued.len, nibbles_length, ppWalk.cipher_length, hrec]
    omega
  have hrespond : ppRespond l = { q with busy := true } := by
    rw [ppRespond]
    dsimp only
    rw [if_pos htype, hnonce, hq, decide_eq_true hsome]
  have hlines := ppRespond_lines l
  rw [hrespond] at hrun hlines
  refine ⟨lpt, { q with busy := true, cmdLen := 0, inHave := false, lastCtrl := s.high }, s, ?_,
    ⟨hqueued.len, hqueued.cells⟩, hpos, rfl, hlines.data.trans hdata, ?_⟩
  · rw [hsplit, List.flatMap_append, Machine.run_append]
    exact hrun
  · rw [hsplit, List.getLast?_append, hlast]
    rfl

/-- The answer waits in the queue, DATA bit 4 still as the last strobe left it. -/
structure Loaded (p : Port) (ys : List Byte) : Prop where
  queued : Queued p.link ys
  pos : p.link.outPos = 0
  busy : p.link.busy = true
  synced : Synced p

def settleOps (settle : List Byte) : List Op := settle.map .data

theorem settle_step (p : Port) (ys : List Byte) (val : Byte) (h : Loaded p ys)
    (hys : 0 < ys.length) (hval : val &&& 0xF0 = 0xE0) :
    Loaded (linkPort.next p (.data val)) ys ∧
      (linkPort.next p (.data val)).link.lastData &&& 0x10 = 0 := by
  obtain ⟨hdown, -⟩ := (ack_marks val).2 hval
  have hedge : ppAckEdge p.link val = { p.link with lastData := val } := by
    by_cases hwas : p.link.lastData &&& 0x10 = 0
    · simp only [ppAckEdge, hwas, hdown]
      rfl
    · have hmore : p.link.outPos < p.link.outLen := by
        rw [h.pos, h.queued.len]
        exact hys
      rw [ack_drop p.link val hwas hdown, decide_eq_true hmore, ← h.busy]
  have hnext : linkPort.next p (.data val) =
      ⟨p.lpt.map fun _ => val, { p.link with lastData := val }⟩ := by
    change (⟨_, ppAckEdge p.link val⟩ : Port) = _
    rw [hedge]
  have hsync := synced_data p val
  rw [hnext] at hsync ⊢
  exact ⟨⟨⟨h.queued.len, h.queued.cells⟩, h.pos, h.busy, hsync⟩, hdown⟩

theorem settle_run (p : Port) (ys : List Byte) (settle : List Byte) (h : Loaded p ys)
    (hys : 0 < ys.length) (hvals : ∀ v ∈ settle, v &&& 0xF0 = 0xE0)
    (hlow : settle = [] → p.link.lastData &&& 0x10 = 0) :
    Draining (linkPort.run p (settleOps settle)) ys 0 := by
  induction settle generalizing p with
  | nil => exact ⟨h.queued, h.pos, h.busy.trans (decide_eq_true hys).symm, h.synced, hlow rfl⟩
  | cons v vs ih =>
    obtain ⟨hnext, hdown⟩ := settle_step p ys v h hys (hvals v (by simp))
    exact ih _ hnext (fun w hw => hvals w (by simp [hw])) fun _ => hdown

theorem reset_framing (p : Port) (c : Byte) (hreset : (c ^^^ p.link.lastCtrl) &&& 0x0C ≠ 0) :
    Framing (linkPort.next p (.ctrl c)) c p.link.haveStrobeHook
      (linkPort.next p (.ctrl c)).link.block [] := by
  have hnext : linkPort.next p (.ctrl c) =
      ⟨p.lpt, { p.link with
        inHave := false, cmdLen := 0, outLen := 0, outPos := 0, busy := false, lastCtrl := c }⟩ := by
    change (⟨_, NibbleLink.ppWriteCtrl p.lpt p.link c⟩ : Port) = _
    rw [NibbleLink.ppWriteCtrl, if_pos hreset]
  rw [hnext]
  exact ⟨⟨rfl, rfl, rfl, rfl, rfl⟩, rfl, rfl, fun i hi => absurd hi (Nat.not_lt_zero i), rfl⟩

theorem strobeOps_first (hook : Bool) (c : Byte) (ss : List Strobe) (bs : List Byte)
    (hbs : bs ≠ []) (hs : Strobed c ss bs) :
    ∃ val core, ss.flatMap (strobeOps hook) = .data val :: core := by
  cases bs with
  | nil => exact absurd rfl hbs
  | cons b bs =>
    obtain ⟨s₁, s₂, rest, hss, -, -, -⟩ := strobed_cons hs
    rw [hss]
    exact ⟨s₁.data, _, rfl⟩

/-- What the host drives from the reset to the point where it starts to drain. -/
structure Programming (c : Byte) (hook : Bool) (rec : List Byte) (m n : Byte)
    (ss : List Strobe) (settle : List Byte) (ops : List Op) : Prop where
  strobed : Strobed c ss (programBytes rec m ++ [0x03, n])
  settled : ∀ v ∈ settle, v &&& 0xF0 = 0xE0
  lowered : settle = [] → ∀ s, ss.getLast? = some s → s.data &&& 0x10 = 0
  host : ∀ op ∈ ops, Host op
  actions : ops.filter isAction = ss.flatMap (strobeOps hook) ++ settleOps settle

theorem programming_run (p : Port) (c : Byte) (rec : List Byte) (m n : Byte) (ss : List Strobe)
    (settle : List Byte) (ops : List Op) (hrec : rec.length = 48)
    (hreset : (c ^^^ p.link.lastCtrl) &&& 0x0C ≠ 0)
    (h : Programming c p.link.haveStrobeHook rec m n ss settle ops) :
    Draining (linkPort.run p (.ctrl c :: ops)) (nibbles (ppWalk.cipher n rec)) 0 := by
  have hframing := reset_framing p c hreset
  rw [Machine.run_cons]
  generalize linkPort.next p (.ctrl c) = q at hframing ⊢
  obtain ⟨val, core, hcore⟩ := strobeOps_first p.link.haveStrobeHook c ss _ (by simp) h.strobed
  have hops : ops.filter isAction = .data val :: (core ++ settleOps settle) := by
    rw [h.actions, hcore]
    rfl
  rw [run_from_reset q c val p.link.haveStrobeHook ops _ hframing.toQuiet
    (fun op hop => (h.host op hop).noLatch) hops, ← hops, h.actions, Machine.run_append]
  obtain ⟨lpt, l, s, hrun, hqueued, hpos, hbusy, hdata, hlast⟩ :=
    exchange_run q c _ rec m n ss hrec hframing h.strobed
  have hsync : Synced ⟨lpt.map fun _ => s.data, l⟩ := by
    intro dat hdat
    cases lpt with
    | none => cases hdat
    | some d =>
      cases hdat
      exact hdata.symm
  rw [hrun]
  apply settle_run _ _ settle ⟨hqueued, hpos, hbusy, hsync⟩
  · rw [nibbles_length, ppWalk.cipher_length, hrec]
    omega
  · exact h.settled
  · intro hnil
    change l.lastData &&& 0x10 = 0
    rw [hdata]
    exact h.lowered hnil s hlast

theorem readback_run (p : Port) (rec : List Byte) (n : Byte) (acks : List Ack) (tail : List Op)
    (hrec : rec.length = 48) (h : Draining p (nibbles (ppWalk.cipher n rec)) 0)
    (hacks : acks.length = 96) (htail : ∀ op ∈ tail, Host op ∧ Plain op) :
    linkPort.trace p (acks.flatMap ackOps) =
        (List.zipWith ackAnswers (nibbles (ppWalk.cipher n rec)) acks).flatten ∧
      ∀ st ∈ linkPort.trace (linkPort.run p (acks.flatMap ackOps)) tail, st = 0x00 := by
  have hcount : (nibbles (ppWalk.cipher n rec)).length = 96 := by
    rw [nibbles_length, ppWalk.cipher_length, hrec]
  obtain ⟨htrace, hend⟩ := acks_run p _ 0 acks h (by omega) (nibbles_narrow _)
  refine ⟨htrace, ?_⟩
  apply drained_silent _ tail htail hend.synced
  · rw [hend.pos, hend.queued.len]
    omega
  · rw [hend.busy]
    exact decide_eq_false (by omega)

theorem devStep_nRs (part : Part) (dev : Pp) (op : Op) :
    ((device part).next dev op).nRs = dev.nRs := by
  cases op with
  | data val => exact ppWriteData_nRs part dev val
  | ctrl val => rfl
  | strobe old val => rfl
  | status => exact (ppReadStatus_rest part dev).2.2.2
  | latch val => rfl

theorem reached_nRs (part : Part) (cfg : Config) (hist : List Op) :
    ((device part).run (ppInit cfg) hist).nRs = 0 :=
  (device part).run_invariant (fun dev op h => (devStep_nRs part dev op).trans h) rfl hist

theorem ackOps_host (acks : List Ack) : ∀ op ∈ acks.flatMap ackOps, Host op := by
  intro op hop
  obtain ⟨a, -, hop⟩ := List.mem_flatMap.mp hop
  rw [ackOps, List.mem_append, List.mem_append, List.mem_append] at hop
  rcases hop with ((hop | hop) | hop) | hop
  · rw [List.eq_of_mem_replicate hop]
    trivial
  · rw [List.mem_singleton.mp hop]
    exact ((ack_marks a.up).1 a.raises).2
  · rw [List.eq_of_mem_replicate hop]
    trivial
  · rw [List.mem_singleton.mp hop]
    exact ((ack_marks a.down).2 a.drops).2

/-- A 1999 device, whatever was driven at it before, takes a record and gives it back: the
    96 nibbles come out once each and in order, and nothing after them. -/
theorem record_readback (cfg : Config) (hist : List Op) (c : Byte) (rec : List Byte) (m n : Byte)
    (ss : List Strobe) (settle : List Byte) (ops : List Op) (acks : List Ack) (tail : List Op)
    (hprobe : (initPart cfg).hdProbe = false)
    (hactive : ((device (initPart cfg)).run (ppInit cfg) hist).cd.active = false)
    (hreset : (c ^^^ ((device (initPart cfg)).run (ppInit cfg) hist).link.lastCtrl) &&& 0x0C ≠ 0)
    (hrec : rec.length = 48)
    (h : Programming c ((device (initPart cfg)).run (ppInit cfg) hist).link.haveStrobeHook
      rec m n ss settle ops)
    (hacks : acks.length = 96) (htail : ∀ op ∈ tail, Host op ∧ Plain op) :
    let loaded := (device (initPart cfg)).run (ppInit cfg) (hist ++ .ctrl c :: ops)
    ∃ nibs : List Byte, nibs.length = 96 ∧
      (device (initPart cfg)).trace loaded (acks.flatMap ackOps) =
        (List.zipWith ackAnswers nibs acks).flatten ∧
      ppWalk.cipher n (assemble nibs) = rec ∧
      ∀ st ∈ (device (initPart cfg)).trace
        ((device (initPart cfg)).run loaded (acks.flatMap ackOps)) tail, st = 0x00 := by
  intro loaded
  have hloaded : loaded = (device (initPart cfg)).run ((device (initPart cfg)).run (ppInit cfg) hist)
      (.ctrl c :: ops) := Machine.run_append _ _ _ _
  have hnRs := reached_nRs (initPart cfg) cfg hist
  generalize (device (initPart cfg)).run (ppInit cfg) hist = dev at *
  have hsim := device_simulates (initPart cfg) hprobe
  have hstart : (fun (dev : Pp) (p : Port) =>
      dev.lpt = p.lpt ∧ dev.link = p.link ∧ dev.cd.active = false ∧ dev.nRs = 0)
      dev ⟨dev.lpt, dev.link⟩ := ⟨rfl, rfl, hactive, hnRs⟩
  have hprogram : ∀ op ∈ Op.ctrl c :: ops, op ≠ .data 0xBF := by
    intro op hop
    cases hop with
    | head => exact fun hc => nomatch hc
    | tail _ hop => exact (h.host op hop).noPulse
  have hdrain := programming_run ⟨dev.lpt, dev.link⟩ c rec m n ss settle ops hrec hreset h
  obtain ⟨htrace, hsilent⟩ := readback_run _ rec n acks tail hrec hdrain hacks htail
  have hread : ∀ op ∈ acks.flatMap ackOps, op ≠ .data 0xBF :=
    fun op hop => (ackOps_host acks op hop).noPulse
  have hrel := hsim.run hstart _ hprogram
  rw [← hloaded] at hrel
  refine ⟨nibbles (ppWalk.cipher n rec), ?_, ?_, ?_, ?_⟩
  · rw [nibbles_length, ppWalk.cipher_length, hrec]
  · rw [hsim.trace hrel _ hread, htrace]
  · rw [assemble_nibbles, ppWalk.cipher_cipher]
  · rw [hsim.trace (hsim.run hrel _ hread) tail fun op hop => (htail op hop).1.noPulse]
    exact hsilent

/-- The strobe a host makes that keeps CTRL bit 2 up and moves nothing else. -/
def steadyStrobe (nib : Byte) : Strobe := ⟨0xE0 ||| nib, 0x04, 0x05, 0x04, 0x05⟩

theorem steadyStrobe_carries : ∀ nib : Byte, nib &&& 0x0F = nib →
    (steadyStrobe nib).data &&& 0xE0 = 0xE0 ∧ (steadyStrobe nib).data &&& 0x0F = nib ∧
      (steadyStrobe nib).data &&& 0x10 = 0 := by
  decide +kernel

theorem steady_programming (rec : List Byte) (m n : Byte) :
    let nibs := nibbles (programBytes rec m ++ [0x03, n])
    Programming 0x04 false rec m n (nibs.map steadyStrobe) []
      ((nibs.map steadyStrobe).flatMap (strobeOps false)) := by
  intro nibs
  have hnarrow : ∀ nib ∈ nibs, nib &&& 0x0F = nib := by
    intro nib hnib
    obtain ⟨i, hi, hget⟩ := List.mem_iff_getElem.mp hnib
    have h := nibbles_narrow _ i hi
    rw [List.getD_eq_getElem _ _ hi] at h
    rw [← hget]
    exact h
  refine ⟨?_, ?_, ?_, ?_, ?_⟩
  · apply List.forall₂_map_left_iff.mpr
    apply List.forall₂_same.mpr
    intro nib hnib
    obtain ⟨hrange, hdata, -⟩ := steadyStrobe_carries nib (hnarrow nib hnib)
    have hup : (0x05 : Byte) &&& 0x01 ≠ 0 := by decide
    have hdown : (0x04 : Byte) &&& 0x01 = 0 := by decide
    exact ⟨hrange, hdata, hdown, hup, rfl, by change (0x05 : Byte) &&& 0x0C = _; decide, hdown, hup⟩
  · intro v hv
    cases hv
  · intro _ s hs
    obtain ⟨nib, hnib, hmap⟩ := List.mem_map.mp (List.mem_of_getLast? hs)
    rw [← hmap]
    exact (steadyStrobe_carries nib (hnarrow nib hnib)).2.2
  · intro op hop
    obtain ⟨s, hs, hop⟩ := List.mem_flatMap.mp hop
    obtain ⟨nib, hnib, hmap⟩ := List.mem_map.mp hs
    rw [← hmap] at hop
    rcases List.mem_cons.mp hop with hop | hop
    · rw [hop]
      exact (steadyStrobe_carries nib (hnarrow nib hnib)).1
    · rcases List.mem_pair.mp hop with hop | hop
      · rw [hop]
        trivial
      · rw [hop]
        trivial
  · rw [settleOps, List.map_nil, List.append_nil, List.filter_eq_self]
    intro op hop
    obtain ⟨s, -, hop⟩ := List.mem_flatMap.mp hop
    rcases List.mem_cons.mp hop with hop | hop
    · rw [hop]
      rfl
    · rcases List.mem_pair.mp hop with hop | hop
      · rw [hop]
        rfl
      · rw [hop]
        rfl

/-- A fresh 1999 image programmed with one constant record. -/
theorem record_readback_constant :
    let cfg := detected "Version 1999 (DE)"
    let record := List.replicate 48 (0x5A : Byte)
    let ss := (nibbles (programBytes record 0x11 ++ [0x03, 0x22])).map steadyStrobe
    let acks := List.replicate 96 (⟨1, by decide, 0xF0, by decide, 1, 0xE0, by decide⟩ : Ack)
    let loaded := (device (initPart cfg)).run (ppInit cfg)
      ([] ++ .ctrl 0x04 :: ss.flatMap (strobeOps false))
    ∃ nibs : List Byte, nibs.length = 96 ∧
      (device (initPart cfg)).trace loaded (acks.flatMap ackOps) =
        (List.zipWith ackAnswers nibs acks).flatten ∧
      ppWalk.cipher 0x22 (assemble nibs) = record ∧
      ∀ st ∈ (device (initPart cfg)).trace
        ((device (initPart cfg)).run loaded (acks.flatMap ackOps)) [.status, .status], st = 0x00 := by
  intro cfg record ss acks
  apply record_readback cfg [] 0x04 record 0x11 0x22 ss [] _ acks [.status, .status]
  · decide +kernel
  · rfl
  · decide
  · rfl
  · exact steady_programming record 0x11 0x22
  · exact List.length_replicate
  · intro op hop
    have hstatus : op = .status := by
      rcases List.mem_pair.mp hop with hop | hop
      · exact hop
      · exact hop
    rw [hstatus]
    exact ⟨trivial, .inl rfl⟩

end PeepeeBox.NibbleReadback
