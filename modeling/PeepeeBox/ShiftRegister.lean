import PeepeeBox.UartReceiver

set_option autoImplicit false

/-!
# A serial peripheral and its port

A peripheral's transmit timer hands its queue over byte by byte, at its own pace, while the port's receive
timer empties the shift register at the guest's.
-/
namespace PeepeeBox.ShiftRegister
open EventFifo TraceMachine Uart UartReceiver

def busy (s : Serial) : Bool :=
  if serial16550 ≤ s.type ∧ s.fifoEnabled = true then s.rcvrFifo.full else has s.lsr 0x01

def writeToHost (held : Bool) (report : List Byte) (s : Serial) (resp : List Byte) : Serial × List Byte :=
  if busy s || held then (s, resp)
  else
    match resp with
    | b :: resp => (serialWriteFifo s b, resp)
    | [] => (s, report)

def eloWriteToHost (report : List Byte) (s : Serial) (inReset : Bool) (resp : List Byte) : Serial × List Byte :=
  writeToHost inReset report s resp

def scWriteToHost (s : Serial) (resp : List Byte) : Serial × List Byte := writeToHost false [] s resp

def mtouchWriteToHost (report : List Byte) (s : Serial) (inReset : Bool) (resp : List Byte) : Serial × List Byte :=
  writeToHost (inReset || s.outNew.isSome) report s resp

inductive Peripheral where
  | elo
  | igo8
  | microtouch
  deriving DecidableEq

def tick (p : Peripheral) (report : List Byte) (s : Serial) (inReset : Bool) (resp : List Byte) :
    Serial × List Byte :=
  match p with
  | .elo => eloWriteToHost report s inReset resp
  | .igo8 => scWriteToHost s resp
  | .microtouch => mtouchWriteToHost report s inReset resp

def held : Peripheral → Serial → Bool → Bool
  | .elo, _, inReset => inReset
  | .igo8, _, _ => false
  | .microtouch, s, inReset => inReset || s.outNew.isSome

theorem tick_eq (p : Peripheral) (report : List Byte) (s : Serial) (inReset : Bool) (resp : List Byte) :
    tick p report s inReset resp = writeToHost (held p s inReset) (if p = .igo8 then [] else report) s resp := by
  cases p <;> rfl

/-- What became of a byte in the receive buffer or the FIFO. -/
inductive Fate where
  /-- The guest read it, and this is what it read. -/
  | read (val : Byte)
  /-- The next one came over it; the line status says so, or not. -/
  | overrun (told : Bool)
  /-- The guest threw it away. -/
  | cleared
  deriving DecidableEq

structure Wire where
  serial : Serial
  resp : List Byte
  inReset : Bool
  /-- Every byte the peripheral has queued and not taken back. -/
  queued : List Byte
  /-- Every byte that has reached the receive buffer or the FIFO. -/
  landed : List Byte
  /-- Those of them that are still there. -/
  waiting : List Byte
  log : List (Byte × Fate)

inductive Input where
  | queue (bytes : List Byte)
  | withdraw
  | resetting (on : Bool)
  | tick (report : List Byte)
  | port (e : Event)
  deriving DecidableEq

def arriving (s : Serial) : Event → Option Byte
  | .receiveTimer =>
    if s.receiveTimer ∧ ¬ (s.fifoEnabled = true ∧ s.rcvrFifo.full = true) then s.outNew else none
  | _ => none

def arrive (w : Wire) (s' : Serial) (b : Byte) : Wire :=
  if s'.fifoEnabled then { w with serial := s', landed := w.landed ++ [b], waiting := w.waiting ++ [b] }
  else
    { w with
      serial := s', landed := w.landed ++ [b], waiting := [b]
      log := w.log ++ w.waiting.map fun old => (old, .overrun (has s'.lsr 0x02)) }

def clear (w : Wire) (s' : Serial) : Wire :=
  { w with serial := s', waiting := [], log := w.log ++ w.waiting.map fun old => (old, .cleared) }

def clears (s : Serial) : Event → Bool
  | .write 2 val => serial16550 ≤ s.type && (has (val ^^^ s.fcr) 0x01 || has val 0x01 && has val 0x02)
  | .write 5 val => !s.fifoEnabled && !has val 0x01
  | _ => false

def reads (s : Serial) (e : Event) : Bool := e = .read 0 && !has s.lcr 0x80

def readBack (w : Wire) (s' : Serial) (val : Byte) : Wire :=
  { w with
    serial := s', waiting := w.waiting.tail
    log := w.log ++ (w.waiting.take 1).map fun old => (old, .read val) }

def portStep (w : Wire) (e : Event) : Wire :=
  let s' := Uart.port.next w.serial e
  match arriving w.serial e with
  | some b => arrive w s' b
  | none =>
    if clears w.serial e then clear w s'
    else if reads w.serial e then readBack w s' ((Uart.port.answer w.serial e).getD 0)
    else { w with serial := s' }

def tickStep (p : Peripheral) (w : Wire) (report : List Byte) : Wire :=
  let r := tick p report w.serial w.inReset w.resp
  { w with serial := r.1, resp := r.2, queued := if w.resp = [] then w.queued ++ r.2 else w.queued }

def wire (p : Peripheral) : Machine Wire Input Empty where
  step w i :=
    (match i with
      | .queue bytes => { w with resp := w.resp ++ bytes, queued := w.queued ++ bytes }
      | .withdraw => { w with resp := [], queued := w.queued.take (w.queued.length - w.resp.length) }
      | .resetting on => { w with inReset := on }
      | .tick report => tickStep p w report
      | .port e => portStep w e,
    none)

def start (type : ℕ) : Wire :=
  { serial := serialInit type, resp := [], inReset := false, queued := [], landed := [], waiting := [], log := [] }

/-- Nothing else is on the line, and loopback stays off. -/
def OnLine : Input → Prop
  | .port (.arrives _) => False
  | .port (.write 4 val) => has val 0x10 = false
  | _ => True

def Faithful : Byte × Fate → Prop
  | (b, .read val) => val = b
  | (_, .overrun told) => told = true
  | (_, .cleared) => True

/-- The bytes queued are, in order, those that have landed, the one in flight and those still queued; and those
    that have landed are what the guest read, what it was told it lost or threw away itself, and what it will read. -/
structure Delivered (w : Wire) : Prop where
  order : w.queued = w.landed ++ w.serial.outNew.toList ++ w.resp
  account : w.landed = w.log.map Prod.fst ++ w.waiting
  log : ∀ entry ∈ w.log, Faithful entry
  fifo : w.serial.fifoEnabled = true → contents w.serial.rcvrFifo = w.waiting
  plain : w.serial.fifoEnabled = false → w.waiting = [] ∨ w.waiting = [w.serial.dat] ∧ has w.serial.lsr 0x01 = true

/-- Neither a byte handed over nor a write of the FIFO control register finds a byte in flight. -/
def fits (p : Peripheral) (w : Wire) : Input → Prop
  | .tick _ =>
    busy w.serial = false → held p w.serial w.inReset = false → w.resp ≠ [] → w.serial.outNew = none
  | .port (.write 2 val) => serial16550 ≤ w.serial.type → has val 0x01 = true → w.serial.outNew = none
  | _ => True

structure Right (r : Receiver) (w : Wire) : Prop where
  order : w.queued = w.landed ++ r.shift.toList ++ w.resp
  account : w.landed = w.log.map Prod.fst ++ w.waiting
  log : ∀ entry ∈ w.log, Faithful entry
  fifo : r.fifoEnabled = true → r.queue = w.waiting
  plain : r.fifoEnabled = false → r.queue = [] ∧ (w.waiting = [] ∨ w.waiting = [r.dat] ∧ r.ready = true)
  loopback : r.loopback = false
  enable : r.enable = r.fifoEnabled
  type : r.fifoEnabled = true → serial16550 ≤ r.type
  room : r.shift ≠ none → r.queue.length < 16

structure Sure (w : Wire) : Prop where
  fit : Fit w.serial
  right : Right (view w.serial) w

theorem sure_start (type : ℕ) : Sure (start type) := by
  refine ⟨init_fit type, ?_⟩
  unfold start
  rw [view_init]
  constructor <;> simp

theorem delivered_sure {w : Wire} (h : Sure w) : Delivered w :=
  { order := h.right.order
    account := h.right.account
    log := h.right.log
    fifo := h.right.fifo
    plain := fun hplain => (h.right.plain hplain).2 }

theorem busy_room {w : Wire} (h : Sure w) (hfree : busy w.serial = false) : (view w.serial).queue.length < 16 := by
  unfold busy at hfree
  cases hfifo : w.serial.fifoEnabled with
  | true =>
    have htype : serial16550 ≤ w.serial.type := h.right.type hfifo
    rw [if_pos ⟨htype, hfifo⟩] at hfree
    exact h.fit.room.mp hfree
  | false =>
    rw [(h.right.plain hfifo).1]
    decide

theorem tick_held {p : Peripheral} {w : Wire} (h : (busy w.serial || held p w.serial w.inReset) = true)
    (report : List Byte) : tickStep p w report = w := by
  unfold tickStep
  rw [tick_eq]
  unfold writeToHost
  rw [if_pos h]
  dsimp only
  split
  · rename_i hnone
    rw [hnone, List.append_nil, ← hnone]
  · rfl

theorem tick_prepares {p : Peripheral} {w : Wire} (h : ¬ (busy w.serial || held p w.serial w.inReset) = true)
    (hnone : w.resp = []) (report : List Byte) :
    ∃ bytes, tickStep p w report = { w with resp := bytes, queued := w.queued ++ bytes } := by
  refine ⟨if p = .igo8 then [] else report, ?_⟩
  unfold tickStep
  rw [tick_eq]
  unfold writeToHost
  rw [if_neg h]
  simp [hnone]

theorem tick_pops {p : Peripheral} {w : Wire} (h : ¬ (busy w.serial || held p w.serial w.inReset) = true)
    {b : Byte} {resp : List Byte} (hsome : w.resp = b :: resp) (report : List Byte) :
    tickStep p w report = { w with serial := serialWriteFifo w.serial b, resp } := by
  unfold tickStep
  rw [tick_eq]
  unfold writeToHost
  rw [if_neg h]
  simp [hsome]

theorem sure_tick {p : Peripheral} {w : Wire} (h : Sure w) (report : List Byte) (hfits : fits p w (.tick report)) :
    Sure (tickStep p w report) := by
  have hr := h.right
  by_cases hopen : (busy w.serial || held p w.serial w.inReset) = true
  · rw [tick_held hopen]
    exact h
  · cases hresp : w.resp with
    | nil =>
      obtain ⟨bytes, heq⟩ := tick_prepares hopen hresp report
      have horder := hr.order
      rw [hresp, List.append_nil] at horder
      rw [heq]
      exact ⟨h.fit, { hr with order := by rw [← horder] }⟩
    | cons b resp =>
      rw [Bool.not_eq_true, Bool.or_eq_false_iff] at hopen
      have hflight : (view w.serial).shift = none := hfits hopen.1 hopen.2 (by simp [hresp])
      have hroom := busy_room h hopen.1
      obtain ⟨hfifo, hview⟩ := writeFifo_view w.serial b
      have horder := hr.order
      rw [tick_pops (by simp [hopen]) hresp]
      refine ⟨h.fit.congr hfifo, ?_⟩
      change Right (view (serialWriteFifo w.serial b)) _
      rw [hview, hr.loopback]
      refine { hr with order := ?_, room := fun _ => hroom }
      rw [horder, hflight, hresp]
      simp

theorem right_arrive {r : Receiver} {w : Wire} (h : Right r w) {b : Byte} (hshift : r.shift = some b) (armed told : Bool)
    (htold : r.fifoEnabled = false → r.ready = true → told = true) {s' : Serial}
    (hmode : s'.fifoEnabled = r.fifoEnabled) (hlsr : has s'.lsr 0x02 = told) :
    Right (received r armed) (arrive w s' b) := by
  have horder := h.order
  have hroom := h.room (by simp [hshift])
  unfold received arrive
  rw [hshift] at horder ⊢
  rw [hmode]
  cases hfifo : r.fifoEnabled with
  | true =>
    have hqueue := h.fifo hfifo
    dsimp only
    rw [if_pos rfl, if_pos rfl, take_room hfifo hroom]
    refine { h with order := ?_, account := ?_, fifo := ?_, plain := ?_, room := ?_ }
    · rw [horder]
      simp
    · rw [h.account, List.append_assoc]
    · exact fun _ => congrArg (· ++ [b]) hqueue
    · exact fun hplain => absurd (hfifo.symm.trans hplain) Bool.true_eq_false.mp
    · exact fun hflight => absurd rfl hflight
  | false =>
    obtain ⟨hnone, hwait⟩ := h.plain hfifo
    have hentry : ∀ entry ∈ w.waiting.map (fun old => (old, Fate.overrun (has s'.lsr 0x02))), Faithful entry := by
      rcases hwait with hnothing | ⟨hdat, hready⟩
      · simp [hnothing]
      · rw [hdat, hlsr, htold hfifo hready]
        simp [Faithful]
    dsimp only
    rw [if_neg Bool.false_ne_true, if_neg Bool.false_ne_true, take_plain hfifo]
    refine { h with order := ?_, account := ?_, log := ?_, fifo := ?_, plain := ?_, room := ?_ }
    · rw [horder]
      simp
    · have hold : (w.waiting.map fun old => (old, Fate.overrun (has s'.lsr 0x02))).map Prod.fst = w.waiting := by
        rw [List.map_map]
        exact List.map_id w.waiting
      dsimp only
      rw [h.account, List.map_append, hold]
    · exact List.forall_mem_append.mpr ⟨h.log, hentry⟩
    · exact fun hon => absurd (hon.symm.trans hfifo) Bool.true_eq_false.mp
    · exact fun _ => ⟨hnone, .inr ⟨rfl, rfl⟩⟩
    · exact fun hflight => absurd rfl hflight

theorem faithful_cleared (bytes : List Byte) : ∀ entry ∈ bytes.map (fun old => (old, Fate.cleared)), Faithful entry := by
  intro entry hentry
  obtain ⟨old, -, rfl⟩ := List.mem_map.mp hentry
  exact trivial

theorem right_clear {r r' : Receiver} {w : Wire} (h : Right r w) (s' : Serial) (hshift : r'.shift = r.shift)
    (hqueue : r'.queue = []) (hloop : r'.loopback = false) (henable : r'.enable = r'.fifoEnabled)
    (htype : r'.fifoEnabled = true → serial16550 ≤ r'.type) : Right r' (clear w s') := by
  have hold : (w.waiting.map fun old => (old, Fate.cleared)).map Prod.fst = w.waiting := by
    rw [List.map_map]
    exact List.map_id w.waiting
  unfold clear
  refine { order := ?_, account := ?_, log := ?_, fifo := fun _ => hqueue, plain := fun _ => ⟨hqueue, .inl rfl⟩
           loopback := hloop, enable := henable, type := htype, room := fun _ => ?_ }
  · rw [hshift]
    exact h.order
  · dsimp only
    rw [h.account, List.map_append, hold, List.append_nil]
  · exact List.forall_mem_append.mpr ⟨h.log, faithful_cleared w.waiting⟩
  · rw [hqueue]
    decide

theorem right_read {r : Receiver} {w : Wire} (h : Right r w) (armed : Bool) {val : Byte} (s' : Serial)
    (hval : val = if r.fifoEnabled then r.queue.headD 0 else r.dat) : Right (readOut r armed) (readBack w s' val) := by
  have haccount : w.landed = (w.log ++ (w.waiting.take 1).map fun old => (old, Fate.read val)).map Prod.fst ++
      w.waiting.tail := by
    have hold : ((w.waiting.take 1).map fun old => (old, Fate.read val)).map Prod.fst = w.waiting.take 1 := by
      rw [List.map_map]
      exact List.map_id _
    rw [List.map_append, hold, List.append_assoc, ← List.drop_one, List.take_append_drop]
    exact h.account
  have hlog (hhead : ∀ old ∈ w.waiting.take 1, val = old) :
      ∀ entry ∈ w.log ++ (w.waiting.take 1).map fun old => (old, Fate.read val), Faithful entry := by
    refine List.forall_mem_append.mpr ⟨h.log, fun entry hentry => ?_⟩
    obtain ⟨old, hold, rfl⟩ := List.mem_map.mp hentry
    exact hhead old hold
  unfold readOut readBack
  by_cases hfifo : r.fifoEnabled = true
  · have hqueue := h.fifo hfifo
    rw [if_pos hfifo, hqueue] at hval
    rw [if_pos hfifo]
    refine { h with account := haccount, log := hlog ?_, fifo := ?_, plain := ?_, room := ?_ }
    · rw [hval]
      cases w.waiting <;> simp
    · exact fun _ => congrArg List.tail hqueue
    · exact fun hplain => absurd (hfifo.symm.trans hplain) Bool.true_eq_false.mp
    · intro hflight
      have hroom := h.room hflight
      dsimp only
      rw [List.length_tail]
      omega
  · obtain ⟨hnone, hwait⟩ := h.plain (Bool.not_eq_true _ ▸ hfifo)
    rw [if_neg hfifo] at hval
    rw [if_neg hfifo]
    refine { h with account := haccount, log := hlog ?_, fifo := ?_, plain := ?_ }
    · rw [hval]
      rcases hwait with hnothing | ⟨hdat, -⟩
      · simp [hnothing]
      · simp [hdat]
    · exact fun hon => absurd hon hfifo
    · refine fun _ => ⟨hnone, .inl ?_⟩
      rcases hwait with hnothing | ⟨hdat, -⟩
      · simp [hnothing]
      · simp [hdat]

theorem right_same {r r' : Receiver} {w : Wire} (h : Right r w) (s' : Serial) (hshift : r'.shift = r.shift)
    (hmode : r'.fifoEnabled = r.fifoEnabled) (hqueue : r'.queue = r.queue) (hdat : r'.dat = r.dat)
    (hready : w.waiting ≠ [] → r.fifoEnabled = false → r.ready = true → r'.ready = true) (hloop : r'.loopback = false)
    (henable : r'.enable = r'.fifoEnabled) (htype : r'.fifoEnabled = true → serial16550 ≤ r'.type) :
    Right r' { w with serial := s' } := by
  refine { order := ?_, account := h.account, log := h.log, fifo := ?_, plain := ?_, loopback := hloop
           enable := henable, type := htype, room := ?_ }
  · rw [hshift]
    exact h.order
  · rw [hmode, hqueue]
    exact h.fifo
  · rw [hmode, hqueue, hdat]
    intro hplain
    obtain ⟨hnone, hwait⟩ := h.plain hplain
    refine ⟨hnone, hwait.imp_right fun ⟨hone, hset⟩ => ⟨hone, hready ?_ hplain hset⟩⟩
    rw [hone]
    exact List.cons_ne_nil _ _
  · rw [hshift, hqueue]
    exact h.room

theorem arrive_serial (w : Wire) (s' : Serial) (b : Byte) : (arrive w s' b).serial = s' := by
  unfold arrive
  split <;> rfl

theorem step_arrives {w : Wire} {e : Event} {b : Byte} (h : arriving w.serial e = some b) :
    portStep w e = arrive w (Uart.port.next w.serial e) b := by
  unfold portStep
  rw [h]

theorem step_clears {w : Wire} {e : Event} (h : arriving w.serial e = none) (hclear : clears w.serial e = true) :
    portStep w e = clear w (Uart.port.next w.serial e) := by
  unfold portStep
  rw [h]
  exact if_pos hclear

theorem step_else {w : Wire} {e : Event} (h : arriving w.serial e = none) (hclear : clears w.serial e = false)
    (hread : reads w.serial e = false) : portStep w e = { w with serial := Uart.port.next w.serial e } := by
  unfold portStep
  rw [h]
  dsimp only
  rw [if_neg (by simp [hclear]), if_neg (by simp [hread])]

theorem step_reads {w : Wire} {e : Event} (h : arriving w.serial e = none) (hclear : clears w.serial e = false)
    (hread : reads w.serial e = true) :
    portStep w e = readBack w (Uart.port.next w.serial e) ((Uart.port.answer w.serial e).getD 0) := by
  unfold portStep
  rw [h]
  dsimp only
  rw [if_neg (by simp [hclear]), if_pos hread]

theorem Sure.same {w : Wire} (h : Sure w) {s' : Serial} (hfit : Fit s') (hview : view s' = view w.serial) :
    Sure { w with serial := s' } := by
  have hr := h.right
  refine ⟨hfit, ?_⟩
  rw [← hview] at hr
  exact { hr with }

theorem receivePlain_lsr {s : Serial} (hready : has s.lsr 0x01 = true) (b : Byte) :
    (receivePlain s b).lsr = s.lsr ||| 0x02 ||| 0x01 := by
  unfold receivePlain
  rw [if_pos hready]
  dsimp only
  split <;> rfl

theorem receive_told {s : Serial} {b : Byte} (hnew : s.outNew = some b) (hfifo : s.fifoEnabled = false)
    (hready : has s.lsr 0x01 = true) : has (serialReceiveTimer s).lsr 0x02 = true := by
  have hplain : serialReceiveTimer s = receivePlain { s with receiveTimer := armed s } b := by
    unfold serialReceiveTimer
    simp [hnew, hfifo]
  have hlsr := receivePlain_lsr (s := { s with receiveTimer := armed s }) hready b
  rw [hplain, hlsr, has_or rfl]
  exact has_or_self (by decide) s.lsr

theorem sure_receive {w : Wire} (h : Sure w) : Sure (portStep w .receiveTimer) := by
  have hr := h.right
  obtain ⟨hfit, fed, -, hview⟩ := port_view h.fit .receiveTimer
  change _ = if w.serial.receiveTimer then received (view w.serial) (armed w.serial) else view w.serial at hview
  cases hrun : w.serial.receiveTimer with
  | false =>
    rw [step_else (by simp [arriving, hrun]) rfl rfl]
    rw [hrun] at hview
    exact h.same hfit hview
  | true =>
    rw [hrun, if_pos rfl] at hview
    cases hnew : w.serial.outNew with
    | none =>
      have hnone : (view w.serial).shift = none := hnew
      rw [step_else (by simp [arriving, hnew]) rfl rfl]
      unfold received at hview
      rw [hnone] at hview
      exact h.same hfit hview
    | some b =>
      have hroom := h.fit.room.mpr (hr.room (by simp [view, hnew]))
      have hnext : Uart.port.next w.serial .receiveTimer = serialReceiveTimer { w.serial with receiveTimer := false } :=
        if_pos hrun
      rw [step_arrives (by simpa [arriving, hrun, hroom] using hnew)]
      refine ⟨arrive_serial w _ b ▸ hfit, ?_⟩
      rw [arrive_serial, hview]
      refine right_arrive hr hnew (armed w.serial) _ (fun hplain hready => ?_) ?_ rfl
      · rw [hnext]
        exact receive_told (s := { w.serial with receiveTimer := false }) hnew hplain hready
      · exact (congrArg Receiver.fifoEnabled hview).trans (received_fifoEnabled _ _)

theorem sure_control {p : Peripheral} {w : Wire} (h : Sure w) (val : Byte) (hfits : fits p w (.port (.write 2 val))) :
    Sure (portStep w (.write 2 val)) := by
  have hr := h.right
  obtain ⟨hfit, fed, -, hview⟩ := port_view h.fit (.write 2 val)
  change _ = if w.serial.type < serial16550 then view w.serial else controlled (view w.serial) val at hview
  by_cases hold : w.serial.type < serial16550
  · rw [if_pos hold] at hview
    rw [step_else rfl (by simp [clears, Nat.not_le.mpr hold]) rfl]
    exact h.same hfit hview
  · rw [if_neg hold] at hview
    have hnew := Nat.le_of_not_lt hold
    have hshift : (controlled (view w.serial) val).shift = (view w.serial).shift := by
      unfold controlled
      dsimp only
      split
      · rename_i hon
        exact (hfits hnew hon).symm
      · rfl
    have hclears : clears w.serial (.write 2 val) = emptied (view w.serial) val := by
      unfold emptied
      change (decide (serial16550 ≤ w.serial.type) && (has (val ^^^ w.serial.fcr) 0x01 || has val 0x01 && has val 0x02)) = _
      rw [has_xor, decide_eq_true hnew, Bool.true_and]
      rfl
    cases hempty : emptied (view w.serial) val with
    | true =>
      rw [step_clears rfl (hclears.trans hempty)]
      refine ⟨hfit, ?_⟩
      change Right (view (Uart.port.next w.serial (.write 2 val))) _
      rw [hview]
      exact right_clear hr _ hshift (by simp [controlled, hempty]) hr.loopback rfl fun _ => hnew
    | false =>
      have henable := hr.enable
      have hmode : has val 0x01 = (view w.serial).fifoEnabled := by
        unfold emptied at hempty
        have hxor := (Bool.or_eq_false_iff.mp hempty).1
        rw [henable] at hxor
        revert hxor
        cases has val 0x01 <;> cases (view w.serial).fifoEnabled <;> simp
      rw [step_else rfl (hclears.trans hempty) rfl]
      refine ⟨hfit, ?_⟩
      change Right (view (Uart.port.next w.serial (.write 2 val))) _
      rw [hview]
      refine right_same hr _ hshift hmode ?_ rfl ?_ hr.loopback rfl fun _ => hnew
      · unfold controlled
        dsimp only
        rw [hempty, hmode]
        cases hon : (view w.serial).fifoEnabled with
        | true => rfl
        | false => exact (hr.plain hon).1.symm
      · intro _ _ hready
        unfold controlled
        dsimp only
        rw [hempty, hready]
        rfl

theorem answer_data {s : Serial} (h : Fit s) (hdlab : has s.lcr 0x80 = false) :
    (Uart.port.answer s (.read 0)).getD 0 =
      if (view s).fifoEnabled then (view s).queue.headD 0 else (view s).dat := by
  have hread : (Uart.port.answer s (.read 0)).getD 0 = (readData s).1 := rfl
  rw [hread]
  unfold readData
  rw [hdlab, if_neg Bool.false_ne_true]
  split
  · rename_i hfifo
    rw [if_pos (show (view s).fifoEnabled = true from hfifo)]
    exact (readFifo_view h hfifo).2.1
  · rename_i hfifo
    rw [if_neg (show ¬ (view s).fifoEnabled = true from hfifo)]
    rfl

theorem sure_read {w : Wire} (h : Sure w) (addr : Fin 8) : Sure (portStep w (.read addr)) := by
  have hr := h.right
  obtain ⟨hfit, fed, -, hview⟩ := port_view h.fit (.read addr)
  match addr with
  | 0 =>
    change _ = if has w.serial.lcr 0x80 then view w.serial else readOut (view w.serial) (armed w.serial) at hview
    cases hdlab : has w.serial.lcr 0x80 with
    | true =>
      rw [hdlab, if_pos rfl] at hview
      rw [step_else rfl rfl (by unfold reads; rw [hdlab]; rfl)]
      exact h.same hfit hview
    | false =>
      rw [hdlab, if_neg Bool.false_ne_true] at hview
      rw [step_reads rfl rfl (by unfold reads; rw [hdlab]; rfl)]
      refine ⟨hfit, ?_⟩
      change Right (view (Uart.port.next w.serial (.read 0))) _
      rw [hview]
      exact right_read hr (armed w.serial) _ (answer_data h.fit hdlab)
  | 1 | 2 | 3 | 4 | 5 | 6 | 7 =>
    rw [step_else rfl rfl rfl]
    exact h.same hfit hview

theorem sure_status {w : Wire} (h : Sure w) (val : Byte) : Sure (portStep w (.write 5 val)) := by
  have hr := h.right
  obtain ⟨hfit, fed, -, hview⟩ := port_view h.fit (.write 5 val)
  change _ = { view w.serial with ready := has val 0x01 } at hview
  cases hclear : clears w.serial (.write 5 val) with
  | true =>
    have hplain : (view w.serial).fifoEnabled = false := by
      have hboth : (!w.serial.fifoEnabled && !has val 0x01) = true := hclear
      change w.serial.fifoEnabled = false
      simpa using (Bool.and_eq_true_iff.mp hboth).1
    rw [step_clears rfl hclear]
    refine ⟨hfit, ?_⟩
    change Right (view (Uart.port.next w.serial (.write 5 val))) _
    rw [hview]
    exact right_clear hr _ rfl (hr.plain hplain).1 hr.loopback hr.enable hr.type
  | false =>
    rw [step_else rfl hclear rfl]
    refine ⟨hfit, ?_⟩
    change Right (view (Uart.port.next w.serial (.write 5 val))) _
    rw [hview]
    refine right_same hr _ rfl rfl rfl rfl (fun _ hplain _ => ?_) hr.loopback hr.enable hr.type
    have hboth : (!w.serial.fifoEnabled && !has val 0x01) = false := hclear
    have hoff : w.serial.fifoEnabled = false := hplain
    simpa [hoff] using hboth

theorem sure_port {p : Peripheral} {w : Wire} (h : Sure w) (e : Event) (hline : OnLine (.port e))
    (hfits : fits p w (.port e)) : Sure (portStep w e) := by
  have hr := h.right
  obtain ⟨hfit, fed, hfed, hview⟩ := port_view h.fit e
  cases e with
  | arrives dat => exact hline.elim
  | receiveTimer => exact sure_receive h
  | transmitTimer =>
    rw [step_else rfl rfl rfl]
    rw [hfed hr.loopback] at hview
    exact h.same hfit hview
  | timeoutTimer =>
    rw [step_else rfl rfl rfl]
    refine ⟨hfit, ?_⟩
    change Right (view (Uart.port.next w.serial .timeoutTimer)) _
    rw [hview]
    change Right (if w.serial.timeoutTimer then { view w.serial with ready := true, pending := true, timer := false }
      else view w.serial) _
    split
    · exact right_same hr _ rfl rfl rfl rfl (fun _ _ _ => rfl) hr.loopback hr.enable hr.type
    · exact right_same hr _ rfl rfl rfl rfl (fun _ _ => id) hr.loopback hr.enable hr.type
  | write addr val =>
    match addr with
    | 2 => exact sure_control h val hfits
    | 3 =>
      have hnobreak : breaks w.serial val = false := by
        have hloop : has w.serial.mctrl 0x10 = false := hr.loopback
        unfold breaks
        rw [hloop, Bool.and_false]
      change _ = if breaks w.serial val then take (view w.serial) 0x00 else view w.serial at hview
      rw [hnobreak] at hview
      rw [step_else rfl rfl rfl]
      exact h.same hfit hview
    | 4 =>
      have hoff : has val 0x10 = false := hline
      rw [step_else rfl rfl rfl]
      refine ⟨hfit, ?_⟩
      change Right (view (Uart.port.next w.serial (.write 4 val))) _
      rw [hview]
      exact right_same hr _ rfl rfl rfl rfl (fun _ _ => id) hoff hr.enable hr.type
    | 5 => exact sure_status h val
    | 0 | 1 | 6 | 7 =>
      rw [step_else rfl rfl rfl]
      exact h.same hfit hview
  | read addr => exact sure_read h addr

theorem sure_step {p : Peripheral} {w : Wire} {i : Input} (hline : OnLine i) (hfits : fits p w i) (h : Sure w) :
    Sure ((wire p).next w i) := by
  have hr := h.right
  cases i with
  | queue bytes =>
    refine ⟨h.fit, { hr with order := ?_ }⟩
    change w.queued ++ bytes = w.landed ++ w.serial.outNew.toList ++ (w.resp ++ bytes)
    rw [← List.append_assoc]
    exact congrArg (· ++ bytes) hr.order
  | withdraw =>
    refine ⟨h.fit, { hr with order := ?_ }⟩
    have hlen : w.queued.length - w.resp.length = (w.landed ++ (view w.serial).shift.toList).length := by
      rw [hr.order, @List.length_append _ (w.landed ++ (view w.serial).shift.toList) w.resp, Nat.add_sub_cancel]
    change w.queued.take (w.queued.length - w.resp.length) = w.landed ++ (view w.serial).shift.toList ++ []
    rw [hlen, hr.order, List.take_left, List.append_nil]
  | resetting on => exact ⟨h.fit, { hr with }⟩
  | tick report => exact sure_tick h report hfits
  | port e => exact sure_port h e hline hfits

theorem step_control (w : Wire) (val : Byte) :
    (portStep w (.write 2 val)).serial = Uart.port.next w.serial (.write 2 val) ∧
      (portStep w (.write 2 val)).landed = w.landed ∧ (portStep w (.write 2 val)).resp = w.resp ∧
      (portStep w (.write 2 val)).queued = w.queued := by
  cases hclear : clears w.serial (.write 2 val) with
  | true =>
    rw [step_clears rfl hclear]
    exact ⟨rfl, rfl, rfl, rfl⟩
  | false =>
    rw [step_else rfl hclear rfl]
    exact ⟨rfl, rfl, rfl, rfl⟩

theorem fits_of_delivered {p : Peripheral} {w : Wire} {i : Input} (h : Sure w) (hd : Delivered ((wire p).next w i)) :
    fits p w i := by
  have horder := congrArg List.length h.right.order
  have hafter := congrArg List.length hd.order
  simp only [List.length_append] at horder hafter
  cases i with
  | tick report =>
    intro hfree hopen hany
    obtain ⟨b, resp, hresp⟩ := List.exists_cons_of_ne_nil hany
    have hpop : (wire p).next w (.tick report) = { w with serial := serialWriteFifo w.serial b, resp } :=
      tick_pops (by simp [hfree, hopen]) hresp report
    have hflight : (serialWriteFifo w.serial b).outNew = some b := by
      have hview := congrArg Receiver.shift (writeFifo_view w.serial b).2
      rw [h.right.loopback] at hview
      exact hview
    rw [hpop, hflight] at hafter
    change _ = _ + (w.serial.outNew.toList).length + _ at horder
    rw [hresp] at horder
    cases hnew : w.serial.outNew with
    | none => rfl
    | some a =>
      rw [hnew] at horder
      simp at horder hafter
      omega
  | port e =>
    cases e with
    | write addr val =>
      match addr with
      | 2 =>
        intro hnew hon
        obtain ⟨hserial, hlanded, hresp, hqueued⟩ := step_control w val
        obtain ⟨-, fed, -, hview⟩ := port_view h.fit (.write 2 val)
        have hcontrol := hview.trans (if_neg (Nat.not_lt.mpr hnew))
        have hthrown : (Uart.port.next w.serial (.write 2 val)).outNew = none :=
          (congrArg Receiver.shift hcontrol).trans (if_pos hon)
        change (portStep w (.write 2 val)).queued.length = (portStep w (.write 2 val)).landed.length +
          (portStep w (.write 2 val)).serial.outNew.toList.length + (portStep w (.write 2 val)).resp.length at hafter
        change _ = _ + (w.serial.outNew.toList).length + _ at horder
        rw [hserial, hlanded, hresp, hqueued, hthrown] at hafter
        cases hflight : w.serial.outNew with
        | none => rfl
        | some a =>
          rw [hflight] at horder
          simp at horder hafter
          omega
      | 0 | 1 | 3 | 4 | 5 | 6 | 7 => exact trivial
    | arrives dat => exact trivial
    | receiveTimer => exact trivial
    | transmitTimer => exact trivial
    | timeoutTimer => exact trivial
    | read addr => exact trivial
  | queue bytes => exact trivial
  | withdraw => exact trivial
  | resetting on => exact trivial

/-- Every byte queued reaches the guest in its turn, or is told lost, over exactly the runs whose steps all fit. -/
theorem bytes_delivered (p : Peripheral) (type : ℕ) (inputs : List Input) (hline : ∀ i ∈ inputs, OnLine i) :
    (∀ before after, inputs = before ++ after → Delivered ((wire p).run (start type) before)) ↔
      (wire p).Along (fits p) (start type) inputs :=
  (wire p).along_iff (I := Sure) (Q := OnLine) (fun _ _ hi hfits h => sure_step hi hfits h) (fun _ => delivered_sure)
    (fun _ _ _ h hd => fits_of_delivered h hd) (sure_start type) inputs hline

/-- Two bytes to a port with its FIFO off, each received before the next is handed over. -/
def exchange : List Input :=
  [.port (.write 3 0x03), .queue [0x41, 0x42], .tick [], .port .receiveTimer, .port (.read 0), .tick [],
    .port .receiveTimer, .port (.read 0)]

theorem bytes_delivered_exchange :
    (∀ i ∈ exchange, OnLine i) ∧
    ∀ before after, exchange = before ++ after → Delivered ((wire .elo).run (start serial16450) before) := by
  have honline : ∀ i ∈ exchange, OnLine i := by simp [exchange, OnLine]
  refine ⟨honline, (bytes_delivered .elo serial16450 exchange honline).mpr ?_⟩
  exact ⟨trivial, trivial, fun _ _ _ => rfl, trivial, trivial, fun _ _ _ => by decide +kernel, trivial, trivial, trivial⟩

/-- Handed over at a pace the port does not keep, the second byte comes over the first. -/
theorem bytes_lost :
    ¬ ∀ (p : Peripheral) (type : ℕ) (inputs : List Input), (∀ i ∈ inputs, OnLine i) →
      Delivered ((wire p).run (start type) inputs) := by
  intro h
  have horder := (h .elo serial16450 [.port (.write 3 0x03), .queue [0x41, 0x42], .tick [], .tick []]
    (by simp [OnLine])).order
  revert horder
  decide +kernel

end PeepeeBox.ShiftRegister
