import Mathlib.Tactic.IntervalCases
import PeepeeBox.Uart

set_option autoImplicit false

/-!
# The transmitter of the serial port

A byte that the guest writes waits in the holding register or the FIFO, is moved into the shift
register, and goes out a character's time later.
-/
namespace PeepeeBox.UartTransmitter
open EventFifo TraceMachine Uart

@[ext] structure Transmitter where
  type : ℕ
  fifoEnabled : Bool
  /-- The enable bit of the FIFO control register. -/
  enable : Bool
  fifo : Fifo
  thr : Byte
  thrEmpty : Bool
  txsr : Byte
  txsrEmpty : Bool
  transmitEnabled : Byte
  cycles : Byte
  bits : ℕ
  dataBits : ℕ
  /-- The holding register is empty, in the line status. -/
  thre : Bool
  /-- All is empty, in the line status. -/
  temt : Bool
  timer : Bool

def view (s : Serial) : Transmitter :=
  { type := s.type
    fifoEnabled := s.fifoEnabled
    enable := has s.fcr 1
    fifo := s.xmitFifo
    thr := s.thr
    thrEmpty := s.thrEmpty
    txsr := s.txsr
    txsrEmpty := s.txsrEmpty
    transmitEnabled := s.transmitEnabled
    cycles := s.baudCycles
    bits := s.bits
    dataBits := s.dataBits
    thre := has s.lsr 0x20
    temt := has s.lsr 0x40
    timer := s.transmitTimer }

@[simp] theorem view_updateInts (s : Serial) : view (serialUpdateInts s) = view s := rfl

def Quiet (s s' : Serial) : Prop := view s' = view s

theorem Quiet.refl (s : Serial) : Quiet s s := rfl

theorem Quiet.trans {s t u : Serial} (h : Quiet s t) (h' : Quiet t u) : Quiet s u := Eq.trans h' h

theorem quiet_if {s t u : Serial} {c : Prop} [Decidable c] (ht : Quiet s t) (hu : Quiet s u) :
    Quiet s (if c then t else u) := by
  split
  · exact ht
  · exact hu

theorem quiet_status (s : Serial) (lsr intStatus : Byte) (hthre : has lsr 0x20 = has s.lsr 0x20)
    (htemt : has lsr 0x40 = has s.lsr 0x40) : Quiet s { s with lsr, intStatus } := by
  unfold Quiet view
  rw [hthre, htemt]

theorem has_set {m k b : Byte} (hk : k &&& m = m) (hb : b &&& m = 0) (x : Byte) (c : Bool) :
    has (x &&& k ||| if c then b else 0) m = has x m := by
  cases c with
  | true => exact (has_or hb _).trans (has_and hk x)
  | false => exact (has_or (by simp) _).trans (has_and hk x)

theorem quiet_set (s : Serial) {k b : Byte} (hk : k &&& 0x20 = 0x20 ∧ k &&& 0x40 = 0x40) (hb : b &&& 0x20 = 0 ∧ b &&& 0x40 = 0)
    (c : Bool) : Quiet s { s with lsr := s.lsr &&& k ||| if c then b else 0 } :=
  quiet_status s _ s.intStatus (has_set hk.1 hb.1 s.lsr c) (has_set hk.2 hb.2 s.lsr c)

theorem rcvr_keeps (s : Serial) : Keeps rcvrEvents fun s' => Quiet s s' := by
  have hempty (f : Fifo) (t : Serial) : Quiet t (serialRcvrDEmptyEvt f t) := by
    have hset := quiet_set t (k := 0xFE) (b := 1) ⟨rfl, rfl⟩ ⟨rfl, rfl⟩ (!f.empty)
    unfold serialRcvrDEmptyEvt
    cases hf : f.empty <;> rw [hf] at hset <;> exact hset
  exact
    { dEmptyEvt := fun f t ht => ht.trans (hempty f t)
      dOverrunEvt := fun f t ht => ht.trans (quiet_set t (k := 0xFD) (b := 2) ⟨rfl, rfl⟩ ⟨rfl, rfl⟩ f.overrun)
      dFullEvt := fun _ _ ht => ht
      dReadyEvt := fun _ _ ht => ht }

theorem quiet_rcvrWrite (s : Serial) (val : Byte) : Quiet s (rcvrWrite s val) :=
  (rcvr_keeps s).write val s.rcvrFifo (Quiet.refl s)

theorem quiet_rcvrRead (s : Serial) : Quiet s (rcvrRead s).2 := (rcvr_keeps s).read s.rcvrFifo (Quiet.refl s)

theorem quiet_rcvrReset (s : Serial) : Quiet s (rcvrReset s) := (rcvr_keeps s).reset s.rcvrFifo (Quiet.refl s)

theorem quiet_raise (s : Serial) (c : Bool) (bits : Byte) :
    Quiet s (if c then { s with intStatus := s.intStatus ||| bits } else s) := quiet_if rfl rfl

theorem quiet_receiveTimer (s : Serial) : Quiet s (serialReceiveTimer s) := by
  unfold serialReceiveTimer
  dsimp only
  split
  · rfl
  · rename_i b _
    refine quiet_if ?_ ?_
    · exact (quiet_rcvrWrite (serialClearTimeout { s with receiveTimer := armed s }) b).trans rfl
    · have hover : Quiet { s with receiveTimer := armed s } (if has s.lsr 0x01 then
          { s with receiveTimer := armed s, lsr := s.lsr ||| 0x02 } else { s with receiveTimer := armed s }) :=
        quiet_if (quiet_status _ _ s.intStatus (has_or rfl _) (has_or rfl _)) (Quiet.refl _)
      unfold receivePlain
      dsimp only
      generalize (if has s.lsr 0x01 = true then _ else _) = t at hover ⊢
      have hready : Quiet t { t with dat := b, outNew := none, lsr := t.lsr ||| 0x01
                                     intStatus := t.intStatus ||| serialIntReceive } :=
        quiet_status { t with dat := b, outNew := none } _ _ (has_or rfl _) (has_or rfl _)
      exact (hover.trans hready).trans (quiet_raise _ _ serialIntLsr)

theorem quiet_loopbackBreak (s : Serial) : Quiet s (serialReceiveLoopbackBreak s) := by
  have htold (t : Serial) : Quiet t (serialUpdateInts { t with
      lsr := t.lsr ||| 0x1C, intStatus := t.intStatus ||| serialIntLsr }) :=
    quiet_status t _ (t.intStatus ||| serialIntLsr) (has_or rfl _) (has_or rfl _)
  unfold serialReceiveLoopbackBreak
  dsimp only
  refine Quiet.trans (quiet_if (quiet_rcvrWrite s 0) ?_) (htold _)
  have hover : Quiet s (if has s.lsr 0x01 then { s with lsr := s.lsr ||| 0x02 } else s) :=
    quiet_if (quiet_status s _ s.intStatus (has_or rfl _) (has_or rfl _)) (Quiet.refl s)
  generalize (if has s.lsr 0x01 = true then _ else _) = t at hover ⊢
  exact hover.trans (quiet_status { t with dat := 0 } _ _ (has_or rfl _) (has_or rfl _))

theorem quiet_raiseMsr (s : Serial) : Quiet s (raiseMsr s) := quiet_if rfl rfl

theorem quiet_writeIer (s : Serial) (val : Byte) (h : has s.lcr 0x80 = false) : Quiet s (writeIer s val) := by
  unfold writeIer
  rw [if_neg (by rw [h]; exact Bool.false_ne_true)]
  exact quiet_raise s _ serialIntTransmit

theorem quiet_writeMctrl (s : Serial) (val : Byte) : Quiet s (writeMctrl s val) := by
  unfold writeMctrl
  refine quiet_if ?_ (quiet_if ?_ rfl)
  · exact quiet_raiseMsr _
  · exact quiet_raiseMsr _

theorem quiet_writeLsr (s : Serial) (val : Byte) : Quiet s (writeLsr s val) := by
  have hset : Quiet s { s with lsr := s.lsr &&& 0xE0 ||| val &&& 0x1F } := by
    have hbit {m : Byte} (hm : 0xE0 &&& m = m) (hm' : 0x1F &&& m = 0) :
        has (s.lsr &&& 0xE0 ||| val &&& 0x1F) m = has s.lsr m := by
      have hnone : (val &&& 0x1F) &&& m = 0 := by
        rw [BitVec.and_assoc, hm']
        exact BitVec.and_zero
      rw [has_or hnone, has_and hm]
    exact quiet_status s _ s.intStatus (hbit rfl rfl) (hbit rfl rfl)
  exact ((hset.trans (quiet_raise _ _ serialIntReceive)).trans (quiet_raise _ _ serialIntLsr)).trans
    (quiet_raise _ _ serialIntTransmit)

theorem quiet_writeMsr (s : Serial) (val : Byte) : Quiet s (writeMsr s val) := quiet_if rfl rfl

theorem quiet_writeScratch (s : Serial) (val : Byte) : Quiet s (writeScratch s val) := quiet_if rfl rfl

theorem quiet_readData (s : Serial) : Quiet s (readData s).2 := by
  have hfifo : Quiet s (readFifo s).2 := by
    unfold readFifo
    dsimp only
    exact Quiet.trans (quiet_rcvrRead (serialClearTimeout s)) (quiet_if rfl rfl)
  have hplain : Quiet s (readPlain s).2 := quiet_status s _ (s.intStatus &&& ~~~serialIntReceive) (has_and rfl _) (has_and rfl _)
  unfold readData
  split
  · rfl
  · split
    · exact hfifo
    · exact hplain

theorem quiet_readLsr (s : Serial) : Quiet s (readLsr s).2 := by
  unfold readLsr
  exact (quiet_if (quiet_status s _ s.intStatus (has_and rfl _) (has_and rfl _)) (Quiet.refl s)).trans rfl

theorem registers {P : Fin 8 → Prop} (h0 : P 0) (h1 : P 1) (h2 : P 2) (h3 : P 3) (h4 : P 4) (h5 : P 5) (h6 : P 6)
    (h7 : P 7) (addr : Fin 8) : P addr := by
  obtain ⟨n, hn⟩ := addr
  interval_cases n <;> assumption

theorem quiet_read (s : Serial) (addr : Fin 8) : Quiet s (serialRead s addr).2 :=
  registers (P := fun addr => Quiet s (serialRead s addr).2) (quiet_readData s) rfl (quiet_if rfl rfl) rfl rfl (quiet_readLsr s) rfl rfl addr

theorem has_both (x : Byte) : has x 3 = (has x 1 || has x 2) := by
  revert x
  decide +kernel

theorem has_clear (x m : Byte) : has (x &&& ~~~m) m = false := by
  have hnone : x &&& ~~~m &&& m = 0 := by
    apply BitVec.eq_of_getLsbD_eq
    intro i hi
    simp [hi]
  unfold has
  rw [hnone]
  rfl

theorem has_told (x : Byte) (a b : Bool) :
    has (x &&& 0x9F ||| (if a then 0x20 else 0) ||| if b then 0x40 else 0) 0x20 = a ∧
      has (x &&& 0x9F ||| (if a then 0x20 else 0) ||| if b then 0x40 else 0) 0x40 = b := by
  revert x a b
  decide +kernel

def noneWaits (r : Transmitter) (f : Fifo) : Bool := if r.fifoEnabled then f.empty else r.thrEmpty

theorem xmitDEmptyEvt_view (f : Fifo) (s : Serial) :
    view (serialXmitDEmptyEvt f s) =
      { view s with thre := noneWaits (view s) f, temt := s.txsrEmpty && noneWaits (view s) f } := by
  obtain ⟨hthre, htemt⟩ := has_told s.lsr (noneWaits (view s) f) (s.txsrEmpty && noneWaits (view s) f)
  unfold serialXmitDEmptyEvt
  ext1 <;> first | rfl | exact hthre | exact htemt

theorem view_fifo (s : Serial) (f : Fifo) : view { s with xmitFifo := f } = { view s with fifo := f } := rfl

theorem write_owner {f : Fifo} (h : f.full = false) (val : Byte) (s : Serial) :
    ∃ g : Fifo, g.empty = false ∧
      (fifoWriteEvt xmitEvents val f s).2 = if f.empty then serialXmitDEmptyEvt g s else s := by
  have hfull (g : Fifo) : (noteFull xmitEvents g s).2 = s ∧ (noteFull xmitEvents g s).1.empty = g.empty := by
    unfold noteFull call
    split
    · exact ⟨ite_self s, rfl⟩
    · exact ⟨rfl, rfl⟩
  have hready (g : Fifo) (t : Serial) : (noteReady xmitEvents g t).2 = t := by
    unfold noteReady call
    split
    · exact ite_self t
    · rfl
  unfold fifoWriteEvt
  dsimp only
  rw [if_neg (by rw [h]; exact Bool.false_ne_true), hready]
  unfold noteFilled call
  dsimp only
  rw [(hfull _).1, (hfull _).2]
  exact ⟨_, rfl, rfl⟩

theorem read_owner {f : Fifo} (h : f.empty = false) (s : Serial) :
    ∃ g : Fifo, g.empty = true ∧ (fifoReadEvt xmitEvents f s).2.2 =
      if (fifoReadEvt xmitEvents f s).2.1.empty then serialXmitDEmptyEvt g s else s := by
  have hroom (g : Fifo) : (noteRoom xmitEvents g s).2 = s := ite_self s
  have hbelow (g : Fifo) : (noteBelow xmitEvents g s).2 = s ∧ (noteBelow xmitEvents g s).1.empty = g.empty := by
    unfold noteBelow call
    split
    · exact ⟨ite_self s, rfl⟩
    · exact ⟨rfl, rfl⟩
  have hlast {g : Fifo} (hg : g.empty = false) : ∃ g' : Fifo, g'.empty = true ∧
      (noteEmpty xmitEvents g s).2 = if (noteEmpty xmitEvents g s).1.empty then serialXmitDEmptyEvt g' s else s := by
    unfold noteEmpty call
    rw [hg]
    split
    · exact ⟨_, rfl, rfl⟩
    · exact ⟨{ g with empty := true }, rfl, by rw [hg]; rfl⟩
  unfold fifoReadEvt
  dsimp only
  rw [if_neg (by rw [h]; exact Bool.false_ne_true)]
  dsimp only
  rw [hroom, (hbelow _).1]
  refine hlast ?_
  rw [(hbelow _).2]
  exact h

theorem xmitWrite_view {s : Serial} (hfifo : s.fifoEnabled = true) (hroom : s.xmitFifo.full = false) (val : Byte) :
    view (xmitWrite s val) =
      { view s with
        fifo := (fifoWriteEvt xmitEvents val s.xmitFifo s).1
        thre := !s.xmitFifo.empty && has s.lsr 0x20
        temt := !s.xmitFifo.empty && has s.lsr 0x40 } := by
  obtain ⟨g, hg, howner⟩ := write_owner hroom val s
  unfold xmitWrite
  rw [view_fifo, howner]
  cases s.xmitFifo.empty with
  | true =>
    have hwaits : noneWaits (view s) g = false := (if_pos hfifo).trans hg
    rw [if_pos rfl, xmitDEmptyEvt_view, hwaits, Bool.and_false]
    rfl
  | false => rfl

theorem xmitRead_view {s : Serial} (hfifo : s.fifoEnabled = true) (hany : s.xmitFifo.empty = false) :
    view (xmitRead s).2 =
      { view s with
        fifo := (fifoReadEvt xmitEvents s.xmitFifo s).2.1
        thre := (fifoReadEvt xmitEvents s.xmitFifo s).2.1.empty || has s.lsr 0x20
        temt := if (fifoReadEvt xmitEvents s.xmitFifo s).2.1.empty then s.txsrEmpty else has s.lsr 0x40 } := by
  obtain ⟨g, hg, howner⟩ := read_owner hany s
  unfold xmitRead
  rw [view_fifo, howner]
  cases (fifoReadEvt xmitEvents s.xmitFifo s).2.1.empty with
  | true =>
    have hwaits : noneWaits (view s) g = true := (if_pos hfifo).trans hg
    rw [if_pos rfl, xmitDEmptyEvt_view, hwaits, Bool.and_true]
    rfl
  | false => rfl

theorem xmitReset_view (s : Serial) : ∃ f : Fifo, f.empty = true ∧ fifoGetCount f = 0 ∧ (0 < s.xmitFifo.len → Sound f) ∧
    f.len = s.xmitFifo.len ∧ view (xmitReset s) =
      { view s with fifo := f, thre := noneWaits (view s) f, temt := s.txsrEmpty && noneWaits (view s) f } := by
  refine ⟨(fifoResetEvt xmitEvents s.xmitFifo s).1, rfl, ?_, ?_, rfl, (view_fifo _ _).trans ?_⟩
  · exact count_reset s.xmitFifo
  · intro hlen
    have hreset := sound_reset hlen
    exact { start := hreset.start, end_ := hreset.end_, full := hreset.full, empty := hreset.empty }
  · change ({ view (serialXmitDEmptyEvt (fifoResetEvt xmitEvents s.xmitFifo s).1 s) with
      fifo := (fifoResetEvt xmitEvents s.xmitFifo s).1 } : Transmitter) = _
    rw [xmitDEmptyEvt_view]

def waiting (r : Transmitter) : List Byte :=
  if r.fifoEnabled then contents r.fifo else if r.thrEmpty then [] else [r.thr]

def shifting (r : Transmitter) : List Byte := if r.txsrEmpty then [] else [r.txsr]

/-- The bytes the guest has written that have not gone out. -/
def held (r : Transmitter) : List Byte := shifting r ++ waiting r

/-- Between two events of a run in which nothing is lost. -/
structure Steady (r : Transmitter) : Prop where
  sound : Sound r.fifo
  len : r.fifo.len = 16
  enable : r.enable = r.fifoEnabled
  other : if r.fifoEnabled then r.thrEmpty = true else contents r.fifo = []
  thre : r.thre = decide (waiting r = [])
  temt : r.temt = decide (held r = [])
  moving : has r.transmitEnabled 1 = decide (waiting r ≠ [])
  transmitting : r.txsrEmpty = false → has r.transmitEnabled 2 = true
  resting : held r = [] → has r.transmitEnabled 2 = false
  /-- No character has begun while the shift register is empty. -/
  start : r.txsrEmpty = true → r.cycles = 0
  counting : r.txsrEmpty = false → 1 ≤ r.cycles.toNat ∧ r.cycles.toNat ≤ r.bits
  dataBits : r.dataBits = 0
  bits : r.bits ≤ 12
  framed : held r ≠ [] → r.bits ≠ 0
  timer : held r ≠ [] → r.timer = true

section
variable {r : Transmitter} {s : Serial} {b : Byte} {bs : List Byte}

theorem waiting_fifo (h : r.fifoEnabled = true) : waiting r = contents r.fifo := if_pos h

theorem waiting_plain (h : r.fifoEnabled = false) : waiting r = if r.thrEmpty then [] else [r.thr] :=
  if_neg (by rw [h]; exact Bool.false_ne_true)

theorem noneWaits_iff (hsound : Sound r.fifo) : noneWaits r r.fifo = decide (waiting r = []) := by
  apply Bool.eq_iff_iff.mpr
  rw [decide_eq_true_iff]
  unfold noneWaits waiting
  split
  · exact hsound.empty_iff
  · cases r.thrEmpty <;> simp

theorem held_shift (h : r.txsrEmpty = true) : held r = waiting r := by
  simp [held, shifting, h]

theorem held_nil : held r = [] ↔ r.txsrEmpty = true ∧ waiting r = [] := by
  unfold held shifting
  cases r.txsrEmpty <;> simp

/-- What is told of a byte that was moved into the shift register. -/
def moved (r : Transmitter) : Transmitter :=
  { r with
    temt := false
    transmitEnabled :=
      (if !r.fifoEnabled || decide (fifoGetCount r.fifo = 0) then r.transmitEnabled &&& ~~~1 else r.transmitEnabled) ||| 2 }

theorem moveToTxsr_view (s : Serial) : view (serialMoveToTxsr s) = moved (view (fillTxsr { s with txsrEmpty := false })) := by
  have hcleared (t : Serial) : view { t with lsr := t.lsr &&& ~~~0x40 } = { view t with temt := false } := by
    have hthre : has (t.lsr &&& ~~~0x40) 0x20 = has t.lsr 0x20 := has_and rfl _
    have htemt : has (t.lsr &&& ~~~0x40) 0x40 = false := has_clear _ _
    ext1 <;> first | rfl | exact hthre | exact htemt
  have hstopped (t : Serial) : view { stopMoving t with transmitEnabled := (stopMoving t).transmitEnabled ||| 2 } =
      { view t with
        transmitEnabled :=
          (if !(view t).fifoEnabled || decide (fifoGetCount (view t).fifo = 0) then (view t).transmitEnabled &&& ~~~1
          else (view t).transmitEnabled) ||| 2 } := by
    unfold stopMoving
    change _ = ({ view t with transmitEnabled := (if !t.fifoEnabled || decide (fifoGetCount t.xmitFifo = 0) then
      t.transmitEnabled &&& ~~~1 else t.transmitEnabled) ||| 2 } : Transmitter)
    split <;> rfl
  unfold serialMoveToTxsr
  dsimp only
  rw [hstopped, hcleared]
  rfl

theorem fill_fifo (hfifo : s.fifoEnabled = true) (hsound : Sound s.xmitFifo) (hwait : contents s.xmitFifo = b :: bs) :
    ∃ g, Sound g ∧ g.len = s.xmitFifo.len ∧ contents g = bs ∧ view (fillTxsr s) =
      { view s with
        fifo := g, txsr := b, thre := decide (bs = []) || has s.lsr 0x20
        temt := if bs = [] then s.txsrEmpty else has s.lsr 0x40 } := by
  have hany : s.xmitFifo.empty = false := by
    rw [← Bool.not_eq_true, hsound.empty_iff, hwait]
    exact List.cons_ne_nil b bs
  obtain ⟨hfirst, htook⟩ := read_some xmitEvents hsound hany s
  obtain ⟨hbyte, hrest⟩ := List.cons.inj ((htook.contents hsound hany).symm.trans hwait)
  have hg := htook.sound hsound
  have hempty : (fifoReadEvt xmitEvents s.xmitFifo s).2.1.empty = decide (bs = []) :=
    Bool.eq_iff_iff.mpr ((hg.empty_iff.trans (by rw [hrest])).trans decide_eq_true_iff.symm)
  have hread : (xmitRead s).1 = b := hfirst.trans hbyte
  have hfill : view (fillTxsr s) = { view (xmitRead s).2 with txsr := (xmitRead s).1 } := by
    unfold fillTxsr
    rw [if_pos hfifo]
    rfl
  refine ⟨_, hg, htook.len, hrest, ?_⟩
  rw [hfill, xmitRead_view hfifo hany, hread, hempty]
  simp

theorem fill_plain (hfifo : s.fifoEnabled = false) :
    view (fillTxsr s) =
      { view s with txsr := s.thr, thr := 0, thrEmpty := true, thre := true, temt := s.txsrEmpty } := by
  have hwaits : noneWaits (view { s with txsr := s.thr, thr := 0, thrEmpty := true }) s.xmitFifo = true :=
    if_neg (by rw [show (view { s with txsr := s.thr, thr := 0, thrEmpty := true }).fifoEnabled = s.fifoEnabled from rfl, hfifo]
               exact Bool.false_ne_true)
  unfold fillTxsr
  rw [if_neg (by rw [hfifo]; exact Bool.false_ne_true)]
  dsimp only
  rw [xmitDEmptyEvt_view, hwaits, Bool.and_true]
  rfl

def processed (r : Transmitter) : Transmitter :=
  { r with
    txsr := 0, txsrEmpty := true, cycles := 0, thre := noneWaits r r.fifo, temt := noneWaits r r.fifo
    transmitEnabled :=
      if r.fifoEnabled && decide (fifoGetCount r.fifo ≠ 0) then r.transmitEnabled ||| 1 else r.transmitEnabled &&& ~~~2 }

theorem quiet_transmit (s : Serial) (val : Byte) : Quiet s (serialTransmit s val) := quiet_if rfl rfl

theorem processTxsr_view (s : Serial) : view (serialProcessTxsr s) = processed (view s) := by
  have hquiet := quiet_transmit s s.txsr
  unfold serialProcessTxsr
  dsimp only
  generalize serialTransmit s s.txsr = t at hquiet ⊢
  have hgone := xmitDEmptyEvt_view t.xmitFifo { t with txsr := 0, txsrEmpty := true }
  generalize serialXmitDEmptyEvt t.xmitFifo { t with txsr := 0, txsrEmpty := true } = u at hgone ⊢
  have hon (v : Serial) : view (serialUpdateInts (goOn v)) =
      { view v with
        transmitEnabled :=
          if (view v).fifoEnabled && decide (fifoGetCount (view v).fifo ≠ 0) then (view v).transmitEnabled ||| 1
          else (view v).transmitEnabled &&& ~~~2 } := by
    unfold goOn
    change _ = ({ view v with transmitEnabled := if v.fifoEnabled && decide (fifoGetCount v.xmitFifo ≠ 0) then
      v.transmitEnabled ||| 1 else v.transmitEnabled &&& ~~~2 } : Transmitter)
    split <;> rfl
  have hcleared : view { u with baudCycles := 0 } = { view u with cycles := 0 } := rfl
  rw [hon, hcleared, hgone]
  have hset : view { t with txsr := 0, txsrEmpty := true } = { view s with txsr := 0, txsrEmpty := true } :=
    congrArg (fun r : Transmitter => { r with txsr := 0, txsrEmpty := true }) hquiet
  rw [hset, ← show (view s).fifo = t.xmitFifo from (congrArg Transmitter.fifo hquiet).symm]
  rfl

def rearm (t : Serial) : Serial := if has t.transmitEnabled 3 then { t with transmitTimer := true } else t

theorem rearm_view (t : Serial) :
    view (rearm t) = { view t with timer := has t.transmitEnabled 3 || t.transmitTimer } := by
  unfold rearm
  cases has t.transmitEnabled 3 with
  | true => rfl
  | false => rfl

theorem timer_first (hon : has s.transmitEnabled 3 = true) (hdata : s.dataBits = 0) (hfirst : s.baudCycles = 0)
    (hbits : s.bits ≠ 0) (hmove : has s.transmitEnabled 1 = true) :
    serialTransmitTimer s = rearm (serialMoveToTxsr { s with baudCycles := 1 }) := by
  have hdelay : (if has s.transmitEnabled 1 && has s.transmitEnabled 2 then s.dataBits + 1 else 1) = 1 := by
    rw [hdata]
    exact ite_self 1
  have hcycles : s.baudCycles + 1 = 1 := by
    rw [hfirst]
    rfl
  have hlast : ¬ (decide ((1 : Byte).toNat = s.bits + 1) && has s.transmitEnabled 2) = true := by
    have hne : ¬ 1 = s.bits + 1 := fun h => hbits (Nat.succ.inj h).symm
    rw [show (1 : Byte).toNat = 1 from rfl, decide_eq_false hne]
    exact Bool.false_ne_true
  have hmoves : (decide ((1 : Byte).toNat = 1) && has s.transmitEnabled 1) = true := by
    rw [hmove]
    rfl
  unfold serialTransmitTimer
  rw [if_pos hon, hdelay, hcycles]
  dsimp only
  rw [if_neg hlast, if_pos hmoves]
  rfl

theorem cycles_next {c : Byte} {n : ℕ} (h : c.toNat ≤ n) (hn : n ≤ 12) : (c + 1).toNat = c.toNat + 1 := by
  rw [BitVec.toNat_add, show (1 : Byte).toNat = 1 from rfl]
  omega

theorem timer_later (htrans : has s.transmitEnabled 2 = true) (hdata : s.dataBits = 0)
    (hcount : 1 ≤ s.baudCycles.toNat ∧ s.baudCycles.toNat ≤ s.bits) (hbits : s.bits ≤ 12) :
    serialTransmitTimer s =
      rearm (if s.baudCycles.toNat = s.bits then serialProcessTxsr { s with baudCycles := s.baudCycles + 1 }
        else { s with baudCycles := s.baudCycles + 1 }) := by
  have hnext := cycles_next hcount.2 hbits
  have hon : has s.transmitEnabled 3 = true := by
    rw [has_both, htrans, Bool.or_true]
  have hdelay : (if has s.transmitEnabled 1 && has s.transmitEnabled 2 then s.dataBits + 1 else 1) = 1 := by
    rw [hdata]
    exact ite_self 1
  unfold serialTransmitTimer
  rw [if_pos hon, hdelay]
  dsimp only
  rw [htrans, hnext, Bool.and_true]
  by_cases hlast : s.baudCycles.toNat = s.bits
  · have hzero : (serialProcessTxsr { s with baudCycles := s.baudCycles + 1 }).baudCycles = 0 :=
      congrArg Transmitter.cycles (processTxsr_view { s with baudCycles := s.baudCycles + 1 })
    have hnot : ¬ (decide ((0 : Byte).toNat = 1) && has (serialProcessTxsr
        { s with baudCycles := s.baudCycles + 1 }).transmitEnabled 1) = true := Bool.false_ne_true
    have hdone : decide (s.baudCycles.toNat + 1 = s.bits + 1) = true := decide_eq_true (congrArg (· + 1) hlast)
    rw [if_pos hlast, if_pos hdone, hzero, if_neg hnot]
    rfl
  · have hnot : ¬ decide (s.baudCycles.toNat + 1 = s.bits + 1) = true := by
      rw [decide_eq_true_iff]
      omega
    have hfirst : ¬ (decide ((s.baudCycles + 1).toNat = 1) && has s.transmitEnabled 1) = true := by
      rw [hnext, decide_eq_false (by omega)]
      exact Bool.false_ne_true
    rw [if_neg hlast, if_neg hnot, if_neg hfirst]
    rfl

theorem has_or_two (x : Byte) : has (x ||| 2) 3 = true ∧ has (x ||| 2) 2 = true ∧ has (x ||| 2) 1 = has x 1 := by
  refine ⟨?_, has_or_self (by decide) x, has_or rfl x⟩
  rw [has_both, has_or_self (by decide), Bool.or_true]

theorem moved_timer (s : Serial) : view (rearm (serialMoveToTxsr s)) =
    { moved (view (fillTxsr { s with txsrEmpty := false })) with timer := true } := by
  have hview := moveToTxsr_view s
  have hon : has (serialMoveToTxsr s).transmitEnabled 3 = true := by
    have hset : (serialMoveToTxsr s).transmitEnabled = _ := congrArg Transmitter.transmitEnabled hview
    rw [hset]
    exact (has_or_two _).1
  rw [rearm_view, hon, hview, Bool.true_or]

structure Moves (r : Transmitter) (b : Byte) (bs : List Byte) (r' : Transmitter) : Prop where
  steady : Steady r'
  shifting : shifting r' = [b]
  waiting : waiting r' = bs
  bits : r'.bits = r.bits
  cycles : r'.cycles = 1

theorem moves_steady (h : Steady r) (hwait : waiting r = b :: bs) {r' : Transmitter}
    (hqueue : waiting r' = bs) (hshift : r'.txsrEmpty = false ∧ r'.txsr = b) (hfifo : r'.fifoEnabled = r.fifoEnabled)
    (hsound : Sound r'.fifo ∧ r'.fifo.len = 16) (hother : if r'.fifoEnabled then r'.thrEmpty = true else contents r'.fifo = [])
    (hkept : r'.enable = r.enable ∧ r'.bits = r.bits ∧ r'.dataBits = r.dataBits) (hthre : r'.thre = decide (bs = []))
    (htemt : r'.temt = false) (hcycles : r'.cycles = 1) (htimer : r'.timer = true)
    (hon : has r'.transmitEnabled 2 = true ∧ has r'.transmitEnabled 1 = decide (bs ≠ [])) : Moves r b bs r' := by
  have hsome : held r ≠ [] := fun hnone => by simp [(held_nil.mp hnone).2] at hwait
  have hshifting : shifting r' = [b] := by
    simp [shifting, hshift.1, hshift.2]
  have hheld : held r' = b :: bs := by
    simp [held, hshifting, hqueue]
  have hbits := h.framed hsome
  refine
    { steady :=
        { sound := hsound.1, len := hsound.2, enable := by rw [hkept.1, hfifo, h.enable], other := hother
          thre := by rw [hthre, hqueue]
          temt := by rw [htemt, hheld]; rfl
          moving := by rw [hon.2, hqueue]
          transmitting := fun _ => hon.1
          resting := fun hnone => by simp [hheld] at hnone
          start := fun hnone => absurd (hnone.symm.trans hshift.1) Bool.true_eq_false.mp
          counting := fun _ => by
            rw [hcycles, hkept.2.1]
            exact ⟨Nat.le_refl 1, Nat.one_le_iff_ne_zero.mpr hbits⟩
          dataBits := hkept.2.2.trans h.dataBits
          bits := by rw [hkept.2.1]; exact h.bits
          framed := fun _ => by rw [hkept.2.1]; exact hbits
          timer := fun _ => htimer }
      shifting := hshifting, waiting := hqueue, bits := hkept.2.1, cycles := hcycles }

theorem move_fifo (h : Steady r) (hs : view s = { r with timer := false, cycles := 1 }) (hfifo : r.fifoEnabled = true)
    (hwait : waiting r = b :: bs) : Moves r b bs (view (rearm (serialMoveToTxsr s))) := by
  have hon : s.fifoEnabled = true := (congrArg Transmitter.fifoEnabled hs).trans hfifo
  have hring : s.xmitFifo = r.fifo := congrArg Transmitter.fifo hs
  have hcontents : contents s.xmitFifo = b :: bs := by
    rw [hring, ← hwait, waiting_fifo hfifo]
  obtain ⟨g, hg, hlen, hrest, hview⟩ := fill_fifo (s := { s with txsrEmpty := false }) hon (hring ▸ h.sound) hcontents
  have hthre : has s.lsr 0x20 = false := by
    have htold : has s.lsr 0x20 = r.thre := congrArg Transmitter.thre hs
    rw [htold, h.thre, hwait]
    rfl
  have hmoving : has r.transmitEnabled 1 = true := by
    rw [h.moving, hwait]
    rfl
  have hcount : decide (fifoGetCount g = 0) = decide (bs = []) := by
    rw [← contents_length, hrest]
    simp
  have hlen16 : g.len = 16 := hlen.trans ((congrArg Fifo.len hring).trans h.len)
  have hset : view { s with txsrEmpty := false } = { r with timer := false, cycles := 1, txsrEmpty := false } :=
    congrArg (fun q : Transmitter => { q with txsrEmpty := false }) hs
  have hsteady := h.other
  rw [if_pos hfifo] at hsteady
  rw [hset] at hview
  rw [moved_timer, hview]
  refine moves_steady h hwait ?_ ⟨rfl, rfl⟩ rfl ⟨hg, hlen16⟩ ?_
    ⟨rfl, rfl, rfl⟩ ?_ rfl rfl rfl ⟨(has_or_two _).2.1, (has_or_two _).2.2.trans ?_⟩
  · exact (if_pos hfifo).trans hrest
  · exact (if_pos hfifo).mpr hsteady
  · change (decide (bs = []) || has s.lsr 0x20) = _
    rw [hthre, Bool.or_false]
  · change has (if !r.fifoEnabled || decide (fifoGetCount g = 0) then r.transmitEnabled &&& ~~~1 else r.transmitEnabled) 1 = _
    rw [hfifo, hcount, Bool.not_true, Bool.false_or]
    by_cases hbs : bs = []
    · rw [decide_eq_true hbs, if_pos rfl, has_clear]
      simp [hbs]
    · rw [decide_eq_false hbs, if_neg Bool.false_ne_true, hmoving]
      simp [hbs]

theorem move_plain (h : Steady r) (hs : view s = { r with timer := false, cycles := 1 }) (hfifo : r.fifoEnabled = false)
    (hwait : waiting r = b :: bs) : Moves r b bs (view (rearm (serialMoveToTxsr s))) := by
  have hoff : s.fifoEnabled = false := (congrArg Transmitter.fifoEnabled hs).trans hfifo
  have hview := fill_plain (s := { s with txsrEmpty := false }) hoff
  have hset : view { s with txsrEmpty := false } = { r with timer := false, cycles := 1, txsrEmpty := false } :=
    congrArg (fun q : Transmitter => { q with txsrEmpty := false }) hs
  have hthr : s.thr = r.thr := congrArg Transmitter.thr hs
  have hplain := waiting_plain hfifo
  rw [hwait] at hplain
  obtain ⟨hb, hbs⟩ : b = r.thr ∧ bs = [] := by
    cases hempty : r.thrEmpty <;> simp_all
  have hnot : ¬ r.fifoEnabled = true := Bool.eq_false_iff.mp hfifo
  have hsteady := h.other
  rw [if_neg hnot] at hsteady
  rw [hset] at hview
  rw [moved_timer, hview]
  refine moves_steady h hwait ?_ ⟨rfl, hthr.trans hb.symm⟩ rfl ⟨h.sound, h.len⟩ ?_ ⟨rfl, rfl, rfl⟩ ?_ rfl rfl rfl
    ⟨(has_or_two _).2.1, (has_or_two _).2.2.trans ?_⟩
  · rw [hbs]
    exact if_neg hnot
  · exact (if_neg hnot).mpr hsteady
  · rw [hbs]
    rfl
  · change has (if !r.fifoEnabled || decide (fifoGetCount r.fifo = 0) then r.transmitEnabled &&& ~~~1 else r.transmitEnabled) 1 = _
    rw [hfifo, Bool.not_false, Bool.true_or, if_pos rfl, has_clear, hbs]
    rfl

theorem move_steady (h : Steady r) (hs : view s = { r with timer := false, cycles := 1 }) (hwait : waiting r = b :: bs) :
    Moves r b bs (view (rearm (serialMoveToTxsr s))) := by
  cases hfifo : r.fifoEnabled with
  | true => exact move_fifo h hs hfifo hwait
  | false => exact move_plain h hs hfifo hwait

def left (r : Transmitter) : ℕ := (r.bits + 1) * (held r).length - r.cycles.toNat

structure Ticks (r : Transmitter) (out : Option Byte) (r' : Transmitter) : Prop where
  steady : Steady r'
  held : held r = out.toList ++ held r'
  left : UartTransmitter.held r ≠ [] → UartTransmitter.left r' + 1 = UartTransmitter.left r

theorem Moves.ticks {r' : Transmitter} (h : Moves r b bs r') (hr : Steady r) (hshift : r.txsrEmpty = true)
    (hwait : UartTransmitter.waiting r = b :: bs) : Ticks r none r' := by
  have hheld : held r' = held r := by
    rw [held_shift hshift, hwait]
    simp [held, h.shifting, h.waiting]
  refine { steady := h.steady, held := hheld.symm, left := fun hsome => ?_ }
  have hlen : 0 < (held r).length := List.length_pos_iff.mpr hsome
  have hpos : r.bits + 1 ≤ (r.bits + 1) * (held r).length := Nat.le_mul_of_pos_right _ hlen
  unfold left
  rw [hheld, h.bits, h.cycles, hr.start hshift]
  change (r.bits + 1) * (held r).length - 1 + 1 = _ - 0
  omega

theorem rest_ticks (h : Steady r) (hnone : held r = []) : Ticks r none { r with cycles := 0, timer := false } :=
  { steady :=
      { h with
        start := fun _ => rfl
        counting := fun hshift => absurd ((held_nil.mp hnone).1.symm.trans hshift) Bool.true_eq_false.mp
        timer := fun hsome => absurd hnone hsome }
    held := rfl
    left := fun hsome => absurd hnone hsome }

theorem count_ticks (h : Steady r) (hshift : r.txsrEmpty = false) (hmore : r.cycles.toNat ≠ r.bits) :
    Ticks r none { r with cycles := r.cycles + 1, timer := true } := by
  have hcount := h.counting hshift
  have hnext := cycles_next hcount.2 h.bits
  refine
    { steady :=
        { h with
          start := fun hempty => absurd (hempty.symm.trans hshift) Bool.true_eq_false.mp
          counting := fun _ => ?_
          timer := fun _ => rfl }
      held := rfl
      left := fun hsome => ?_ }
  · change 1 ≤ (r.cycles + 1).toNat ∧ (r.cycles + 1).toNat ≤ r.bits
    omega
  · have hlen : 0 < (held r).length := List.length_pos_iff.mpr hsome
    have hpos : r.bits + 1 ≤ (r.bits + 1) * (held r).length := Nat.le_mul_of_pos_right _ hlen
    change (r.bits + 1) * (held r).length - (r.cycles + 1).toNat + 1 = (r.bits + 1) * (held r).length - r.cycles.toNat
    omega

theorem send_ticks (h : Steady r) (hshift : r.txsrEmpty = false) (hlast : r.cycles.toNat = r.bits) {timer : Bool}
    (htimer : waiting r ≠ [] → timer = true) : Ticks r (some r.txsr) { processed r with timer } := by
  have hqueue : waiting { processed r with timer } = waiting r := rfl
  have hheld : held { processed r with timer } = waiting r := held_shift rfl
  have hall : held r = r.txsr :: waiting r := by
    simp [held, shifting, hshift]
  have hsome : held r ≠ [] := by simp [hall]
  have hempty := noneWaits_iff h.sound
  have htwo := h.transmitting hshift
  have hcount : decide (fifoGetCount r.fifo ≠ 0) = decide (contents r.fifo ≠ []) := by
    simp only [← contents_length, ne_eq, List.length_eq_zero_iff]
  have hbits : has (processed r).transmitEnabled 1 = decide (waiting r ≠ []) ∧
      (waiting r = [] → has (processed r).transmitEnabled 2 = false) := by
    have hone := h.moving
    unfold processed
    dsimp only
    rw [hcount]
    cases hfifo : r.fifoEnabled with
    | true =>
      rw [waiting_fifo hfifo] at hone ⊢
      by_cases hnone : contents r.fifo = []
      · rw [Bool.true_and, if_neg (by simp [hnone]), has_and rfl, hone]
        exact ⟨rfl, fun _ => has_clear _ _⟩
      · rw [Bool.true_and, if_pos (by simp [hnone]), has_or_self (by decide)]
        exact ⟨by simp [hnone], fun h => absurd h hnone⟩
    | false =>
      rw [Bool.false_and, if_neg Bool.false_ne_true, has_and rfl, hone]
      exact ⟨rfl, fun _ => has_clear _ _⟩
  refine
    { steady :=
        { h with
          thre := hempty
          temt := hempty.trans (by rw [hheld])
          moving := hbits.1
          transmitting := fun hno => absurd hno Bool.true_eq_false.mp
          resting := fun hnone => hbits.2 (hheld.symm.trans hnone)
          start := fun _ => rfl
          counting := fun hno => absurd hno Bool.true_eq_false.mp
          framed := fun _ => h.framed hsome
          timer := fun hmore => htimer (by rw [← hheld]; exact hmore) }
      held := ?_
      left := fun _ => ?_ }
  · rw [hheld, hall]
    rfl
  · unfold left
    rw [hheld, hall, List.length_cons, Nat.mul_succ]
    change (r.bits + 1) * (waiting r).length - 0 + 1 = _
    omega

/-- The byte that goes out in an event: `serial_process_txsr` hands it over to `serial_transmit`. -/
def sentBy (s : Serial) : Event → Option Byte
  | .transmitTimer =>
    if s.transmitTimer && has s.transmitEnabled 2 && decide ((s.baudCycles + 1).toNat = s.bits + 1) then some s.txsr
    else none
  | _ => none

theorem sentBy_tick (hrun : s.transmitTimer = true) : sentBy s .transmitTimer =
    if has s.transmitEnabled 2 && decide ((s.baudCycles + 1).toNat = s.bits + 1) then some s.txsr else none := by
  unfold sentBy
  rw [hrun, Bool.true_and]

theorem tick_shift (h : Steady (view s)) (hrun : s.transmitTimer = true) (hshift : s.txsrEmpty = false) :
    Ticks (view s) (sentBy s .transmitTimer) (view (serialTransmitTimer { s with transmitTimer := false })) := by
  have htwo : has s.transmitEnabled 2 = true := h.transmitting hshift
  have hcount : 1 ≤ s.baudCycles.toNat ∧ s.baudCycles.toNat ≤ s.bits := h.counting hshift
  have hnext := cycles_next hcount.2 h.bits
  rw [timer_later (s := { s with transmitTimer := false }) htwo h.dataBits hcount h.bits, rearm_view,
    sentBy_tick hrun, htwo, hnext, Bool.true_and]
  by_cases hlast : s.baudCycles.toNat = s.bits
  · rw [if_pos hlast, if_pos (decide_eq_true (congrArg (· + 1) hlast)), processTxsr_view]
    refine send_ticks h hshift hlast fun hwait => ?_
    have hone := (send_ticks h hshift hlast fun _ => (rfl : true = true)).steady.moving
    have hmore : has (processed (view s)).transmitEnabled 1 = true := hone.trans (decide_eq_true hwait)
    have hte : (serialProcessTxsr { s with transmitTimer := false, baudCycles := s.baudCycles + 1 }).transmitEnabled =
        (processed (view s)).transmitEnabled := congrArg Transmitter.transmitEnabled (processTxsr_view _)
    rw [hte, has_both, hmore]
    rfl
  · have hnot : ¬ decide (s.baudCycles.toNat + 1 = s.bits + 1) = true := by
      rw [decide_eq_true_iff]
      omega
    have hon : has s.transmitEnabled 3 = true := by
      rw [has_both, htwo, Bool.or_true]
    rw [if_neg hlast, if_neg hnot]
    change Ticks (view s) none { view s with cycles := s.baudCycles + 1, timer := has s.transmitEnabled 3 || false }
    rw [hon]
    exact count_ticks h hshift hlast

theorem tick_wait (h : Steady (view s)) (hrun : s.transmitTimer = true) (hshift : s.txsrEmpty = true) :
    Ticks (view s) (sentBy s .transmitTimer) (view (serialTransmitTimer { s with transmitTimer := false })) := by
  have hfirst : s.baudCycles = 0 := h.start hshift
  have hone : has s.transmitEnabled 1 = decide (waiting (view s) ≠ []) := h.moving
  rw [sentBy_tick hrun]
  cases hwait : waiting (view s) with
  | nil =>
    have hnone : held (view s) = [] := held_nil.mpr ⟨hshift, hwait⟩
    have htwo : has s.transmitEnabled 2 = false := h.resting hnone
    have hoff : ¬ has s.transmitEnabled 3 = true := by
      rw [has_both, htwo, hone, hwait]
      exact Bool.false_ne_true
    rw [htwo, Bool.false_and, if_neg Bool.false_ne_true]
    unfold serialTransmitTimer
    rw [if_neg hoff]
    exact rest_ticks h hnone
  | cons b bs =>
    have hmore : held (view s) ≠ [] := by
      rw [held_shift hshift, hwait]
      exact List.cons_ne_nil b bs
    have hbits : s.bits ≠ 0 := h.framed hmore
    have hmove : has s.transmitEnabled 1 = true := by
      rw [hone, hwait]
      rfl
    have hon : has s.transmitEnabled 3 = true := by
      rw [has_both, hmove, Bool.true_or]
    have hnot : ¬ (has s.transmitEnabled 2 && decide ((s.baudCycles + 1).toNat = s.bits + 1)) = true := by
      rw [hfirst, show ((0 : Byte) + 1).toNat = 1 from rfl, decide_eq_false fun h => hbits (Nat.succ.inj h).symm, Bool.and_false]
      exact Bool.false_ne_true
    rw [if_neg hnot, timer_first (s := { s with transmitTimer := false }) hon h.dataBits hfirst hbits hmove]
    exact (move_steady h rfl hwait).ticks h hshift hwait

theorem tick (h : Steady (view s)) :
    Ticks (view s) (sentBy s .transmitTimer) (view (port.next s .transmitTimer)) := by
  change Ticks _ _ (view (if s.transmitTimer then serialTransmitTimer { s with transmitTimer := false } else s))
  rcases Bool.eq_false_or_eq_true s.transmitTimer with hrun | hrun
  · rw [if_pos hrun]
    rcases Bool.eq_false_or_eq_true s.txsrEmpty with hshift | hshift
    · exact tick_wait h hrun hshift
    · exact tick_shift h hrun hshift
  · have hnone : held (view s) = [] := by
      by_contra hsome
      exact Bool.false_ne_true (hrun.symm.trans (h.timer hsome))
    have hout : sentBy s .transmitTimer = none := by
      unfold sentBy
      rw [hrun]
      rfl
    rw [hout, if_neg (Bool.eq_false_iff.mp hrun)]
    exact { steady := h, held := rfl, left := fun hsome => absurd hnone hsome }

def takenBy (s : Serial) : Event → Option Byte
  | .write 0 val =>
    if has s.lcr 0x80 || s.fifoEnabled && !decide (fifoGetCount s.xmitFifo < 16) then none else some val
  | _ => none

/-- A byte is written once the length of a character has been set, and where there is no FIFO only to an empty
holding register.  The FIFO is switched or emptied while nothing waits, and no character is made shorter than the part
of it that is out. -/
def Orderly (s : Serial) : Event → Prop
  | .write 0 val => takenBy s (.write 0 val) = some val → s.bits ≠ 0 ∧ (s.fifoEnabled = false → has s.lsr 0x20 = true)
  | .write 2 val =>
    s.type < serial16550 ∨ has s.lsr 0x40 = true ∨ has val 1 = s.fifoEnabled ∧ (has val 1 = true → has val 4 = false)
  | .write 3 val => has (s.lcr ^^^ val) 0x3F = true → s.baudCycles.toNat ≤ characterBits val
  | _ => True

instance (s : Serial) : (e : Event) → Decidable (Orderly s e)
  | .write 0 _ => inferInstanceAs (Decidable (_ → _))
  | .write 1 _ => inferInstanceAs (Decidable True)
  | .write 2 _ => inferInstanceAs (Decidable (_ ∨ _))
  | .write 3 _ => inferInstanceAs (Decidable (_ → _))
  | .write 4 _ => inferInstanceAs (Decidable True)
  | .write 5 _ => inferInstanceAs (Decidable True)
  | .write 6 _ => inferInstanceAs (Decidable True)
  | .write 7 _ => inferInstanceAs (Decidable True)
  | .arrives _ => inferInstanceAs (Decidable True)
  | .receiveTimer => inferInstanceAs (Decidable True)
  | .transmitTimer => inferInstanceAs (Decidable True)
  | .timeoutTimer => inferInstanceAs (Decidable True)
  | .read _ => inferInstanceAs (Decidable True)

instance decidableAlong : (s : Serial) → (events : List Event) → Decidable (port.Along Orderly s events)
  | _, [] => inferInstanceAs (Decidable True)
  | s, e :: events =>
    have := decidableAlong (port.next s e) events
    inferInstanceAs (Decidable (_ ∧ _))

structure Takes (r : Transmitter) (val : Option Byte) (r' : Transmitter) : Prop where
  steady : Steady r'
  held : held r' = held r ++ val.toList

theorem Quiet.takes {s' : Serial} (hquiet : Quiet s s') (h : Steady (view s)) : Takes (view s) none (view s') := by
  rw [hquiet]
  exact ⟨h, (List.append_nil _).symm⟩

theorem rearm_takes (h : Steady r) (c : Bool) : Takes r none { r with timer := c || r.timer } :=
  { steady := { h with timer := fun hsome => by rw [h.timer hsome, Bool.or_true] }
    held := (List.append_nil _).symm }

theorem updateSpeed_view (s : Serial) :
    view (serialUpdateSpeed s) = { view s with timer := has s.transmitEnabled 3 || s.transmitTimer } := by
  exact rearm_view { s with receiveTimer := armed s }

theorem updateSpeed_takes (h : Steady r) (hs : view s = r) : Takes r none (view (serialUpdateSpeed s)) := by
  rw [updateSpeed_view]
  subst hs
  exact rearm_takes h (has s.transmitEnabled 3)

def queued (r : Transmitter) (fifo : Fifo) (thr : Byte) (thrEmpty : Bool) : Transmitter :=
  { r with
    fifo, thr, thrEmpty, thre := false, temt := false, timer := true, transmitEnabled := r.transmitEnabled ||| 1 }

theorem queued_takes (h : Steady r) (hframed : r.bits ≠ 0) {g : Fifo} {thr val : Byte} {thrEmpty : Bool}
    (hqueue : waiting (queued r g thr thrEmpty) = waiting r ++ [val]) (hg : Sound g ∧ g.len = 16)
    (hother : if r.fifoEnabled then thrEmpty = true else contents g = []) :
    Takes r (some val) (queued r g thr thrEmpty) := by
  have hheld : held (queued r g thr thrEmpty) = held r ++ [val] := by
    unfold held
    rw [hqueue, List.append_assoc]
    rfl
  have hone : has (queued r g thr thrEmpty).transmitEnabled 1 = true := has_or_self (by decide) _
  have htwo : has (queued r g thr thrEmpty).transmitEnabled 2 = has r.transmitEnabled 2 := has_or rfl _
  refine
    { steady :=
        { h with
          sound := hg.1, len := hg.2, other := hother
          thre := by rw [hqueue]; simp [queued]
          temt := by rw [hheld]; simp [queued]
          moving := by rw [hone, hqueue]; simp
          transmitting := fun hshift => htwo.trans (h.transmitting hshift)
          resting := fun hnone => by simp [hheld] at hnone
          framed := fun _ => hframed
          timer := fun _ => rfl }
      held := hheld }

theorem write_fifo {val : Byte} (h : Steady (view s)) (hfifo : s.fifoEnabled = true)
    (hless : fifoGetCount s.xmitFifo < 16) (hbits : s.bits ≠ 0) :
    Takes (view s) (some val)
      (view (xmitWrite { s with transmitTimer := true, transmitEnabled := s.transmitEnabled ||| 1 } val)) := by
  have hsound : Sound s.xmitFifo := h.sound
  have hlen : s.xmitFifo.len = 16 := h.len
  have hroom : s.xmitFifo.full = false := by
    rw [← Bool.not_eq_true, hsound.full_iff]
    omega
  have hwrote := write_room xmitEvents val hroom { s with
    transmitTimer := true, transmitEnabled := s.transmitEnabled ||| 1 }
  have hthre : has s.lsr 0x20 = s.xmitFifo.empty := by
    have htold : has s.lsr 0x20 = decide (waiting (view s) = []) := h.thre
    have hempty : noneWaits (view s) s.xmitFifo = decide (waiting (view s) = []) := noneWaits_iff hsound
    rw [htold, ← hempty]
    exact if_pos hfifo
  have htemt : s.xmitFifo.empty = false → has s.lsr 0x40 = false := by
    intro hany
    have htold : has s.lsr 0x40 = decide (held (view s) = []) := h.temt
    rw [htold, decide_eq_false_iff_not, held_nil, waiting_fifo (r := view s) hfifo]
    intro hnone
    exact Bool.false_ne_true (hany.symm.trans (hsound.empty_iff.mpr hnone.2))
  rw [xmitWrite_view (s := { s with transmitTimer := true, transmitEnabled := s.transmitEnabled ||| 1 }) hfifo hroom]
  have hview : ({ view { s with transmitTimer := true, transmitEnabled := s.transmitEnabled ||| 1 } with
      fifo := (fifoWriteEvt xmitEvents val s.xmitFifo
        { s with transmitTimer := true, transmitEnabled := s.transmitEnabled ||| 1 }).1
      thre := !s.xmitFifo.empty && has s.lsr 0x20, temt := !s.xmitFifo.empty && has s.lsr 0x40 } : Transmitter) =
      queued (view s) (fifoWriteEvt xmitEvents val s.xmitFifo
        { s with transmitTimer := true, transmitEnabled := s.transmitEnabled ||| 1 }).1 s.thr s.thrEmpty := by
    rw [hthre]
    cases hany : s.xmitFifo.empty with
    | true => rfl
    | false =>
      rw [htemt hany]
      rfl
  rw [hview]
  refine queued_takes h hbits ?_ ⟨hwrote.sound hsound, hwrote.len.trans hlen⟩ ?_
  · have hcontents := hwrote.contents hsound hroom
    exact (if_pos hfifo).trans (hcontents.trans (congrArg (· ++ [val]) (waiting_fifo (r := view s) hfifo).symm))
  · have hother := h.other
    rw [if_pos (show (view s).fifoEnabled = true from hfifo)] at hother ⊢
    exact hother

theorem write_plain {val : Byte} (h : Steady (view s)) (hfifo : s.fifoEnabled = false)
    (hthre : has s.lsr 0x20 = true) (hbits : s.bits ≠ 0) :
    Takes (view s) (some val) (queued (view s) s.xmitFifo val false) := by
  have hnot : ¬ s.fifoEnabled = true := Bool.eq_false_iff.mp hfifo
  have hnone : waiting (view s) = [] := of_decide_eq_true (h.thre.symm.trans hthre)
  have hother : contents s.xmitFifo = [] := (if_neg hnot).mp h.other
  refine queued_takes h hbits ?_ ⟨h.sound, h.len⟩ ((if_neg hnot).mpr hother)
  rw [hnone]
  exact if_neg hnot

theorem writeData_takes {val : Byte} (h : Steady (view s)) (hok : Orderly s (.write 0 val)) :
    Takes (view s) (takenBy s (.write 0 val)) (view (writeData s val)) := by
  unfold writeData
  split
  · rename_i hlatch
    have hnone : takenBy s (.write 0 val) = none := if_pos (by rw [hlatch]; rfl)
    rw [hnone]
    exact updateSpeed_takes h rfl
  · rename_i hlatch
    rw [Bool.not_eq_true] at hlatch
    split
    · rename_i hroom
      obtain ⟨hfifo, hless⟩ := Bool.and_eq_true_iff.mp hroom
      have hsome : takenBy s (.write 0 val) = some val := if_neg (by rw [hlatch, hfifo, hless]; exact Bool.false_ne_true)
      rw [hsome]
      exact write_fifo h hfifo (of_decide_eq_true hless) (hok hsome).1
    · rename_i hroom
      split
      · rename_i hplain
        have hfifo : s.fifoEnabled = false := by simpa using hplain
        have hsome : takenBy s (.write 0 val) = some val := if_neg (by rw [hlatch, hfifo]; exact Bool.false_ne_true)
        have hcleared : has (s.lsr &&& 0x9F) 0x20 = false ∧ has (s.lsr &&& 0x9F) 0x40 = false := by
          generalize s.lsr = x
          revert x
          decide +kernel
        have hview : view { serialUpdateInts { s with
            lsr := s.lsr &&& 0x9F, intStatus := s.intStatus &&& ~~~serialIntTransmit } with
              transmitTimer := true, transmitEnabled := s.transmitEnabled ||| 1, thr := val, thrEmpty := false } =
            queued (view s) s.xmitFifo val false := by
          ext1 <;> first | rfl | exact hcleared.1 | exact hcleared.2
        rw [hsome]
        exact hview ▸ write_plain h hfifo ((hok hsome).2 hfifo) (hok hsome).1
      · rename_i hplain
        have hfifo : s.fifoEnabled = true := by simpa using hplain
        have hnone : takenBy s (.write 0 val) = none := by
          refine if_pos ?_
          rw [hfifo, Bool.true_and] at hroom ⊢
          rw [Bool.not_eq_true] at hroom
          rw [hroom, Bool.or_comm]
          rfl
        rw [hnone]
        exact (Quiet.refl s).takes h

/-- Nothing waits and nothing goes out, whichever of the two modes is on. -/
structure Clear (r : Transmitter) : Prop where
  sound : Sound r.fifo
  len : r.fifo.len = 16
  queue : contents r.fifo = []
  thr : r.thrEmpty = true
  txsr : r.txsrEmpty = true
  thre : r.thre = true
  temt : r.temt = true
  one : has r.transmitEnabled 1 = false
  two : has r.transmitEnabled 2 = false
  cycles : r.cycles = 0
  dataBits : r.dataBits = 0
  bits : r.bits ≤ 12

theorem Clear.waiting_nil (h : Clear r) : waiting r = [] := by
  unfold waiting
  rw [h.queue, h.thr, if_pos rfl]
  exact ite_self []

theorem Clear.steady (h : Clear r) (henable : r.enable = r.fifoEnabled) : Steady r ∧ held r = [] := by
  have hnone : held r = [] := held_nil.mpr ⟨h.txsr, h.waiting_nil⟩
  refine ⟨?_, hnone⟩
  exact
    { sound := h.sound, len := h.len, enable := henable, dataBits := h.dataBits, bits := h.bits
      other := by
        split
        · exact h.thr
        · exact h.queue
      thre := by rw [h.waiting_nil, h.thre]; rfl
      temt := by rw [hnone, h.temt]; rfl
      moving := by rw [h.waiting_nil, h.one]; rfl
      transmitting := fun hshift => absurd (h.txsr.symm.trans hshift) Bool.true_eq_false.mp
      resting := fun _ => h.two
      start := fun _ => h.cycles
      counting := fun hshift => absurd (h.txsr.symm.trans hshift) Bool.true_eq_false.mp
      framed := fun hsome => absurd hnone hsome
      timer := fun hsome => absurd hnone hsome }

theorem Steady.clear (h : Steady r) (hnone : held r = []) : Clear r := by
  obtain ⟨hshift, hwait⟩ := held_nil.mp hnone
  have hother := h.other
  have hboth : contents r.fifo = [] ∧ r.thrEmpty = true := by
    unfold waiting at hwait
    cases hfifo : r.fifoEnabled with
    | true =>
      rw [hfifo, if_pos rfl] at hother hwait
      exact ⟨hwait, hother⟩
    | false =>
      rw [hfifo, if_neg Bool.false_ne_true] at hother hwait
      refine ⟨hother, ?_⟩
      by_contra hfull
      simp [hfull] at hwait
  exact
    { sound := h.sound, len := h.len, queue := hboth.1, thr := hboth.2, txsr := hshift
      thre := by rw [h.thre, (held_nil.mp hnone).2]; rfl
      temt := by rw [h.temt, hnone]; rfl
      one := by rw [h.moving, (held_nil.mp hnone).2]; rfl
      two := h.resting hnone
      cycles := h.start hshift, dataBits := h.dataBits, bits := h.bits }

theorem xmitReset_clear (h : Clear (view s)) : Clear (view (xmitReset s)) ∧
    (view (xmitReset s)).enable = (view s).enable ∧ (view (xmitReset s)).fifoEnabled = (view s).fifoEnabled := by
  obtain ⟨f, hempty, hcount, hsound, hlen, hview⟩ := xmitReset_view s
  have h16 : s.xmitFifo.len = 16 := h.len
  have hwaits : noneWaits (view s) f = true := by
    unfold noneWaits
    rw [hempty, h.thr]
    exact ite_self true
  have hshift : s.txsrEmpty = true := h.txsr
  rw [hview, hwaits, hshift]
  refine ⟨{ h with sound := hsound (by rw [h16]; decide), len := hlen.trans h16, queue := ?_, thre := rfl, temt := rfl }, rfl, rfl⟩
  rw [← List.length_eq_zero_iff, contents_length]
  exact hcount

theorem Quiet.clear {s' : Serial} (hquiet : Quiet s s') (h : Clear (view s)) : Clear (view s') := hquiet ▸ h

theorem clear_if {t : Serial} (h : Clear (view s)) (ht : Clear (view s) → Clear (view t)) (c : Bool) :
    Clear (view (if c then t else s)) := by
  cases c with
  | true => exact ht h
  | false => exact h

/-- The write of the control register, once the change of the enable bit has emptied the FIFOs. -/
def control (s : Serial) (val : Byte) : Serial :=
  let s := { s with fcr := val &&& 0xF9, fifoEnabled := has val 0x01 }
  if !s.fifoEnabled then { s with xmitFifo := fifoReset s.xmitFifo, rcvrFifo := fifoReset s.rcvrFifo }
  else
    let s := if has val 0x02 then rcvrReset s else s
    let s := if has val 0x04 then xmitReset s else s
    { s with
      rcvrFifo := { s.rcvrFifo with triggerLen := triggerLen val }
      xmitFifo := { s.xmitFifo with triggerLen := 16 }
      outNew := none }

theorem writeFcr_eq (htype : ¬ s.type < serial16550) (val : Byte) :
    writeFcr s val = control (if has (val ^^^ s.fcr) 0x01 then serialResetFifo s else s) val := if_neg htype

theorem enabled_view (s : Serial) (val : Byte) : view { s with fcr := val &&& 0xF9, fifoEnabled := has val 0x01 } =
    { view s with fifoEnabled := has val 0x01, enable := has val 0x01 } := by
  have henable : has (val &&& 0xF9) 0x01 = has val 0x01 := has_and rfl val
  ext1 <;> first | rfl | exact henable

theorem control_off {val : Byte} (hval : has val 0x01 = false) : view (control s val) =
    { view s with fifoEnabled := false, enable := false, fifo := fifoReset s.xmitFifo } := by
  have hset := enabled_view s val
  unfold control
  rw [hval] at hset ⊢
  exact congrArg (fun r : Transmitter => { r with fifo := fifoReset s.xmitFifo }) hset

theorem control_on {val : Byte} (hval : has val 0x01 = true) :
    ∃ t : Serial, view t = { view s with fifoEnabled := true, enable := true } ∧
      view (control s val) =
        { view (if has val 0x04 then xmitReset t else t) with
          fifo := { (if has val 0x04 then xmitReset t else t).xmitFifo with triggerLen := 16 } } := by
  have hset := enabled_view s val
  rw [hval] at hset
  have hquiet : Quiet { s with fcr := val &&& 0xF9, fifoEnabled := true }
      (if has val 0x02 then rcvrReset { s with fcr := val &&& 0xF9, fifoEnabled := true }
        else { s with fcr := val &&& 0xF9, fifoEnabled := true }) := quiet_if (quiet_rcvrReset _) (Quiet.refl _)
  refine ⟨_, Eq.trans hquiet hset, ?_⟩
  unfold control
  rw [hval]
  rfl

theorem Clear.retrigger {f : Fifo} (h : Clear r) (hf : r.fifo = f) (n : ℕ) :
    Clear { r with fifo := { f with triggerLen := n } } := by
  subst hf
  exact
    { h with
      sound := { start := h.sound.start, end_ := h.sound.end_, full := h.sound.full, empty := h.sound.empty } }

theorem control_clear (val : Byte) (h : Clear (view s)) :
    Clear (view (control s val)) ∧ (view (control s val)).enable = (view (control s val)).fifoEnabled := by
  cases hval : has val 0x01 with
  | false =>
    have h16 : s.xmitFifo.len = 16 := h.len
    have hreset := sound_reset (f := s.xmitFifo) (by rw [h16]; decide)
    rw [control_off hval]
    exact ⟨{ h with sound := hreset, len := h16, queue := contents_reset s.xmitFifo }, rfl⟩
  | true =>
    obtain ⟨t, ht, hview⟩ := control_on (s := s) hval
    have hclear : Clear (view t) := ht ▸ { h with }
    have henable : (view t).enable = (view t).fifoEnabled := by rw [ht]
    rw [hview]
    cases has val 0x04 with
    | false => exact ⟨hclear.retrigger rfl 16, henable⟩
    | true =>
      obtain ⟨hreset, hen, hon⟩ := xmitReset_clear hclear
      exact ⟨hreset.retrigger rfl 16, hen.trans (henable.trans hon.symm)⟩

theorem refifo_takes (h : Steady r) {f : Fifo} (hf : Sound f ∧ f.len = 16)
    (hsame : if r.fifoEnabled then contents f = contents r.fifo else contents f = []) :
    Takes r none { r with fifo := f } := by
  have hqueue : waiting { r with fifo := f } = waiting r := by
    unfold waiting
    dsimp only
    split
    · rename_i hfifo
      rw [if_pos hfifo] at hsame
      exact hsame
    · rfl
  have hheld : held { r with fifo := f } = held r := congrArg (shifting r ++ ·) hqueue
  have hother := h.other
  refine
    { steady :=
        { h with
          sound := hf.1, len := hf.2
          other := by
            dsimp only
            split
            · rename_i hfifo
              rw [if_pos hfifo] at hother
              exact hother
            · rename_i hfifo
              rw [if_neg hfifo] at hsame
              exact hsame
          thre := hqueue ▸ h.thre
          temt := hheld ▸ h.temt
          moving := hqueue ▸ h.moving
          resting := hheld ▸ h.resting
          framed := hheld ▸ h.framed
          timer := hheld ▸ h.timer }
      held := by rw [hheld]; exact (List.append_nil _).symm }

theorem writeFcr_takes {val : Byte} (h : Steady (view s)) (hok : Orderly s (.write 2 val)) :
    Takes (view s) none (view (writeFcr s val)) := by
  by_cases htype : s.type < serial16550
  · have hold : writeFcr s val = s := if_pos htype
    rw [hold]
    exact (Quiet.refl s).takes h
  · rw [writeFcr_eq htype]
    obtain hold | htemt | ⟨hkept, hnot⟩ := hok
    · exact absurd hold htype
    · have hnone : held (view s) = [] := of_decide_eq_true (h.temt.symm.trans htemt)
      have hreset (hs : Clear (view s)) : Clear (view (serialResetFifo s)) :=
        (quiet_rcvrReset (xmitReset s)).clear (xmitReset_clear hs).1
      have hclear := control_clear val (clear_if (h.clear hnone) hreset (has (val ^^^ s.fcr) 0x01))
      obtain ⟨hsteady, hafter⟩ := hclear.1.steady hclear.2
      exact ⟨hsteady, by rw [hafter, hnone]; rfl⟩
    · have henable : has s.fcr 1 = s.fifoEnabled := h.enable
      have hsame : has (val ^^^ s.fcr) 0x01 = false := by
        rw [has_xor, henable, hkept, Bool.xor_self]
      rw [hsame, if_neg Bool.false_ne_true]
      have h16 : s.xmitFifo.len = 16 := h.len
      cases hval : has val 0x01 with
      | false =>
        have hoff : s.fifoEnabled = false := hkept.symm.trans hval
        have hview : ({ view s with fifoEnabled := false, enable := false, fifo := fifoReset s.xmitFifo } : Transmitter) =
            { view s with fifo := fifoReset s.xmitFifo } := by
          ext1 <;> first | rfl | exact hoff.symm | exact (henable.trans hoff).symm
        rw [control_off hval, hview]
        refine refifo_takes h ⟨sound_reset (by rw [h16]; decide), h16⟩ ?_
        exact (if_neg (Bool.eq_false_iff.mp hoff)).mpr (contents_reset s.xmitFifo)
      | true =>
        have hon : s.fifoEnabled = true := hkept.symm.trans hval
        obtain ⟨t, ht, hview⟩ := control_on (s := s) hval
        have hview' : ({ view s with fifoEnabled := true, enable := true } : Transmitter) = view s := by
          ext1 <;> first | rfl | exact hon.symm | exact (henable.trans hon).symm
        rw [hview, hnot hval, if_neg Bool.false_ne_true, show t.xmitFifo = (view t).fifo from rfl, ht, hview']
        have hsound := h.sound
        refine refifo_takes h ⟨⟨hsound.start, hsound.end_, hsound.full, hsound.empty⟩, h16⟩ ?_
        exact (if_pos hon).mpr rfl

theorem characterBits_le (lcr : Byte) : characterBits lcr ≤ 12 ∧ 1 ≤ characterBits lcr := by
  revert lcr
  decide +kernel

theorem writeLcr_takes {val : Byte} (h : Steady (view s)) (hok : Orderly s (.write 3 val)) :
    Takes (view s) none (view (writeLcr s val)) := by
  unfold writeLcr
  dsimp only
  have hframe : Takes (view s) none (view (if has (s.lcr ^^^ val) 0x3F then
      serialUpdateSpeed { s with lcr := val, bits := characterBits val } else { s with lcr := val })) := by
    split
    · rename_i hchange
      obtain ⟨hle, hpos⟩ := characterBits_le val
      have hbits : Takes (view s) none { view s with bits := characterBits val } :=
        { steady :=
            { h with
              counting := fun hshift => ⟨(h.counting hshift).1, hok hchange⟩
              bits := hle
              framed := fun _ => Nat.one_le_iff_ne_zero.mp hpos }
          held := (List.append_nil _).symm }
      have hspeed := updateSpeed_takes (s := { s with lcr := val, bits := characterBits val }) hbits.steady rfl
      exact ⟨hspeed.steady, hspeed.held⟩
    · exact (Quiet.refl s).takes h
  generalize (if has (s.lcr ^^^ val) 0x3F = true then _ else _) = t at hframe ⊢
  have hbreak : Quiet t (if !has s.lcr 0x40 && has val 0x40 && has t.mctrl 0x10 then serialReceiveLoopbackBreak t else t) :=
    quiet_if (quiet_loopbackBreak t) (Quiet.refl t)
  rw [hbreak]
  exact hframe

theorem writeIer_takes (h : Steady (view s)) (val : Byte) : Takes (view s) none (view (writeIer s val)) := by
  cases hlatch : has s.lcr 0x80 with
  | true =>
    unfold writeIer
    rw [if_pos hlatch]
    exact updateSpeed_takes h rfl
  | false => exact (quiet_writeIer s val hlatch).takes h

theorem write_takes (h : Steady (view s)) (addr : Fin 8) (val : Byte) (hok : Orderly s (.write addr val)) :
    Takes (view s) (takenBy s (.write addr val)) (view (serialWrite s addr val)) := by
  revert addr
  exact registers (fun hok => writeData_takes h hok) (fun _ => writeIer_takes h val) (fun hok => writeFcr_takes h hok)
    (fun hok => writeLcr_takes h hok) (fun _ => (quiet_writeMctrl s val).takes h)
    (fun _ => (quiet_writeLsr s val).takes h) (fun _ => (quiet_writeMsr s val).takes h)
    (fun _ => (quiet_writeScratch s val).takes h)

theorem port_step {e : Event} (h : Steady (view s)) (hok : Orderly s e) :
    Steady (view (port.next s e)) ∧
      held (view s) ++ (takenBy s e).toList = (sentBy s e).toList ++ held (view (port.next s e)) := by
  have hquiet {t : Serial} (ht : Quiet s t) : Steady (view t) ∧ held (view s) ++ [] = [] ++ held (view t) := by
    rw [ht]
    exact ⟨h, List.append_nil _⟩
  cases e with
  | arrives dat => exact hquiet (quiet_if (Quiet.refl s) rfl)
  | receiveTimer => exact hquiet (quiet_if (quiet_receiveTimer _) (Quiet.refl s))
  | transmitTimer =>
    have htick := tick h
    exact ⟨htick.steady, (List.append_nil _).trans htick.held⟩
  | timeoutTimer =>
    have htimeout : Quiet s (serialTimeoutTimer { s with timeoutTimer := false }) :=
      quiet_status s _ (s.intStatus ||| serialIntTimeout) (has_or rfl _) (has_or rfl _)
    exact hquiet (quiet_if htimeout (Quiet.refl s))
  | write addr val =>
    have htakes := write_takes h addr val hok
    exact ⟨htakes.steady, htakes.held.symm⟩
  | read addr => exact hquiet (quiet_read s addr)

end

def sending : Machine Serial Event Byte where
  step s e := (port.next s e, sentBy s e)

def taking : Machine Serial Event Byte where
  step s e := (port.next s e, takenBy s e)

def sent (s : Serial) (events : List Event) : List Byte := sending.trace s events

def taken (s : Serial) (events : List Event) : List Byte := taking.trace s events

theorem sent_cons (s : Serial) (e : Event) (events : List Event) :
    sent s (e :: events) = (sentBy s e).toList ++ sent (port.next s e) events := rfl

theorem taken_cons (s : Serial) (e : Event) (events : List Event) :
    taken s (e :: events) = (takenBy s e).toList ++ taken (port.next s e) events := rfl

theorem port_run {s : Serial} (h : Steady (view s)) (events : List Event) (hok : port.Along Orderly s events) :
    Steady (view (port.run s events)) ∧
      held (view s) ++ taken s events = sent s events ++ held (view (port.run s events)) := by
  induction events generalizing s with
  | nil => exact ⟨h, List.append_nil _⟩
  | cons e events ih =>
    obtain ⟨hnext, hstep⟩ := port_step h hok.1
    obtain ⟨hrun, hrest⟩ := ih hnext hok.2
    refine ⟨hrun, ?_⟩
    calc held (view s) ++ taken s (e :: events)
        = (held (view s) ++ (takenBy s e).toList) ++ taken (port.next s e) events := by
          rw [taken_cons, List.append_assoc]
      _ = (sentBy s e).toList ++ (held (view (port.next s e)) ++ taken (port.next s e) events) := by
          rw [hstep, List.append_assoc]
      _ = sent s (e :: events) ++ held (view (port.run (port.next s e) events)) := by
          rw [hrest, sent_cons, List.append_assoc]

theorem left_pos {r : Transmitter} (h : Steady r) (hsome : held r ≠ []) : 0 < left r := by
  have hlen : 0 < (held r).length := List.length_pos_iff.mpr hsome
  have hpos : r.bits + 1 ≤ (r.bits + 1) * (held r).length := Nat.le_mul_of_pos_right _ hlen
  have hcycles : r.cycles.toNat ≤ r.bits := by
    cases hshift : r.txsrEmpty with
    | true => simp [h.start hshift]
    | false => exact (h.counting hshift).2
  unfold left
  omega

theorem ticks_send {s : Serial} (h : Steady (view s)) {n : ℕ} (hn : left (view s) ≤ n) :
    sent s (List.replicate n .transmitTimer) = held (view s) := by
  induction n generalizing s with
  | zero =>
    by_contra hsome
    have hpos := left_pos h (Ne.symm hsome)
    omega
  | succ n ih =>
    have htick := tick h
    have hleft : left (view (port.next s .transmitTimer)) ≤ n := by
      by_cases hsome : held (view s) = []
      · have hnone : held (view (port.next s .transmitTimer)) = [] :=
          (List.append_eq_nil_iff.mp (htick.held.symm.trans hsome)).2
        unfold left
        simp [hnone]
      · have htaken := htick.left hsome
        omega
    rw [List.replicate_succ, sent_cons, ih htick.steady hleft, ← htick.held]

theorem view_init (type : ℕ) : view (serialInit type) =
    { type, fifoEnabled := false, enable := false, fifo := fifoInit 16, thr := 0, thrEmpty := true, txsr := 0
      txsrEmpty := true, transmitEnabled := 0, cycles := 0, bits := 0, dataBits := 0, thre := true, temt := true
      timer := false } := by
  have hzero : has 0 1 = false := by decide
  have hthre : has 0x60 0x20 = true := by decide
  have htemt : has 0x60 0x40 = true := by decide
  unfold serialInit
  rw [view_updateInts]
  unfold view
  rw [hzero, hthre, htemt]

theorem init_steady (type : ℕ) : Steady (view (serialInit type)) ∧ held (view (serialInit type)) = [] := by
  have hreset := sound_reset (f := fifoInit 16) (by decide)
  have hzero (mask : Byte) : has 0 mask = false := by simp [has]
  rw [view_init]
  refine Clear.steady ?_ rfl
  exact
    { sound := { start := hreset.start, end_ := hreset.end_, full := hreset.full, empty := hreset.empty }
      len := rfl, queue := contents_reset _, thr := rfl, txsr := rfl, thre := rfl, temt := rfl, one := hzero 1
      two := hzero 2, cycles := rfl, dataBits := rfl, bits := Nat.zero_le 12 }

/-- Two bytes through the FIFO, the second of them still on its way. -/
def twoBytes : List Event :=
  [.write 3 0x03, .write 2 0x01, .write 0 0x41, .write 0 0x42] ++ List.replicate 13 .transmitTimer

end PeepeeBox.UartTransmitter
