import PeepeeBox.UartReceiver

set_option autoImplicit false

/-!
# The data ready flag

What the line status and the character timeout say of the bytes that wait, over any run of arrivals,
timers and register accesses.
-/
namespace PeepeeBox.DataReady
open EventFifo TraceMachine Uart UartReceiver

/-- The port, and whether the receive buffer holds a byte that nobody has read. -/
structure Tracked where
  port : Serial
  unread : Bool

def unreadAfter (s : Serial) (unread : Bool) : Event → Bool
  | .receiveTimer => s.receiveTimer && !s.fifoEnabled && s.outNew.isSome || unread
  | .write 3 val => breaks s val && !s.fifoEnabled || unread
  | .read 0 => (has s.lcr 0x80 || s.fifoEnabled) && unread
  | _ => unread

def tracked : Machine Tracked Event Byte where
  step t e := ({ port := Uart.port.next t.port e, unread := unreadAfter t.port t.unread e }, Uart.port.answer t.port e)

def start (type : ℕ) : Tracked := { port := serialInit type, unread := false }

structure Told (t : Tracked) : Prop where
  fifo : t.port.fifoEnabled = true → (has t.port.lsr 0x01 = true ↔ contents t.port.rcvrFifo ≠ [])
  plain : t.port.fifoEnabled = false → (has t.port.lsr 0x01 = true ↔ t.unread = true)
  timeout : has t.port.intStatus serialIntTimeout = true → contents t.port.rcvrFifo ≠ []

def resets (s : Serial) (val : Byte) : Bool := has (val ^^^ s.fcr) 0x01 || has val 0x01 && has val 0x02

/-- No reset leaves the timeout behind, none leaves FIFO mode over a byte not read, and no write of the line
    status changes its first bit. -/
def fits (t : Tracked) : Event → Prop
  | .write 2 val =>
    serial16550 ≤ t.port.type → resets t.port val = true →
      t.port.timeoutTimer = false ∧ has t.port.intStatus serialIntTimeout = false ∧
        (t.port.fifoEnabled = true → has val 0x01 = false → t.unread = false)
  | .write 5 val => has val 0x01 = has t.port.lsr 0x01
  | _ => True

/-- What the runs keep. -/
structure Kept (r : Receiver) (unread : Bool) : Prop where
  enable : r.enable = r.fifoEnabled
  fifo : r.fifoEnabled = true → (r.ready = true ↔ r.queue ≠ [])
  plain : r.fifoEnabled = false → r.ready = unread ∧ r.queue = []
  pending : r.pending = true → r.queue ≠ []
  timer : r.timer = true → r.queue ≠ []

theorem kept_take {r : Receiver} {unread : Bool} (h : Kept r unread) (b : Byte) :
    Kept (take r b) (!r.fifoEnabled || unread) := by
  obtain ⟨henable, hfifo, hplain, hpending, htimer⟩ := h
  cases hmode : r.fifoEnabled with
  | true =>
    by_cases hroom : r.queue.length < 16
    · rw [take_room hmode hroom]
      constructor <;> simp_all
      tauto
    · rw [take_full hmode hroom]
      constructor <;> simp_all
  | false =>
    rw [take_plain hmode]
    constructor <;> simp_all

theorem kept_received {r : Receiver} {unread : Bool} (h : Kept r unread) (armed : Bool) :
    Kept (received r armed) (!r.fifoEnabled && r.shift.isSome || unread) := by
  unfold received
  cases hshift : r.shift with
  | none => simpa using h
  | some b =>
    obtain ⟨henable, hfifo, hplain, hpending, htimer⟩ := kept_take h b
    cases hmode : r.fifoEnabled with
    | true =>
      have hqueue := take_queue hmode b
      constructor <;> simp_all
    | false => constructor <;> simp_all

theorem kept_readOut {r : Receiver} {unread : Bool} (h : Kept r unread) (armed : Bool) :
    Kept (readOut r armed) (r.fifoEnabled && unread) := by
  obtain ⟨type, fifoEnabled, enable, queue, dat, shift, loopback, ready, pending, timer⟩ := r
  obtain ⟨henable, hfifo, hplain, hpending, htimer⟩ := h
  unfold readOut
  cases fifoEnabled with
  | true =>
    match queue with
    | [] => constructor <;> simp_all
    | [b] => constructor <;> simp_all
    | b :: c :: bs => constructor <;> simp_all
  | false => constructor <;> simp_all

theorem kept_controlled {r : Receiver} {unread : Bool} (h : Kept r unread) (val : Byte)
    (hreset : emptied r val = true → r.timer = false ∧ r.pending = false ∧
      (r.fifoEnabled = true → has val 0x01 = false → unread = false)) :
    Kept (controlled r val) unread := by
  obtain ⟨type, fifoEnabled, enable, queue, dat, shift, loopback, ready, pending, timer⟩ := r
  obtain ⟨henable, hfifo, hplain, hpending, htimer⟩ := h
  unfold controlled
  unfold emptied at hreset ⊢
  cases hon : has val 0x01 <;> cases fifoEnabled <;> cases hclear : has val 0x02 <;> constructor <;> simp_all

theorem resets_eq (s : Serial) (val : Byte) : resets s val = emptied (view s) val := by
  unfold resets emptied
  rw [has_xor]
  rfl

theorem kept_timeout {r : Receiver} {unread : Bool} (h : Kept r unread) (htimer : r.timer = true) :
    Kept { r with ready := true, pending := true, timer := false } unread := by
  obtain ⟨henable, hfifo, hplain, hpending, htimer'⟩ := h
  have hqueue := htimer' htimer
  constructor <;> simp_all

structure Good (t : Tracked) : Prop where
  fit : Fit t.port
  kept : Kept (view t.port) t.unread

theorem good_start (type : ℕ) : Good (start type) := by
  refine ⟨init_fit type, ?_⟩
  unfold start
  rw [view_init]
  constructor <;> simp

theorem told_good {t : Tracked} (h : Good t) : Told t :=
  { fifo := h.kept.fifo
    plain := fun hplain => by rw [← (h.kept.plain hplain).1]; rfl
    timeout := h.kept.pending }

theorem good_step {t : Tracked} {e : Event} (hfits : fits t e) (h : Good t) : Good (tracked.next t e) := by
  obtain ⟨hfit, fed, -, hview⟩ := port_view h.fit e
  have hk := h.kept
  refine ⟨hfit, ?_⟩
  change Kept (view (Uart.port.next t.port e)) (unreadAfter t.port t.unread e)
  rw [hview]
  cases e with
  | arrives dat => exact ⟨hk.enable, hk.fifo, hk.plain, hk.pending, hk.timer⟩
  | receiveTimer =>
    change Kept (if t.port.receiveTimer then received (view t.port) (armed t.port) else view t.port)
      (t.port.receiveTimer && !t.port.fifoEnabled && t.port.outNew.isSome || t.unread)
    cases t.port.receiveTimer with
    | true => exact kept_received hk (armed t.port)
    | false => exact hk
  | transmitTimer => exact ⟨hk.enable, hk.fifo, hk.plain, hk.pending, hk.timer⟩
  | timeoutTimer =>
    change Kept (if t.port.timeoutTimer then { view t.port with ready := true, pending := true, timer := false }
      else view t.port) t.unread
    cases hrun : t.port.timeoutTimer with
    | true => exact kept_timeout hk hrun
    | false => exact hk
  | write addr val =>
    match addr with
    | 0 | 1 | 6 | 7 => exact hk
    | 2 =>
      change Kept (if t.port.type < serial16550 then view t.port else controlled (view t.port) val) t.unread
      split
      · exact hk
      · rename_i hnew
        refine kept_controlled hk val fun hreset => ?_
        exact hfits (Nat.le_of_not_lt hnew) ((resets_eq t.port val).trans hreset)
    | 3 =>
      change Kept (if breaks t.port val then take (view t.port) 0x00 else view t.port)
        (breaks t.port val && !t.port.fifoEnabled || t.unread)
      cases breaks t.port val with
      | true => exact kept_take hk 0x00
      | false => exact hk
    | 4 => exact ⟨hk.enable, hk.fifo, hk.plain, hk.pending, hk.timer⟩
    | 5 =>
      have hsame : has val 0x01 = (view t.port).ready := hfits
      change Kept { view t.port with ready := has val 0x01 } t.unread
      rw [hsame]
      exact hk
  | read addr =>
    match addr with
    | 0 =>
      change Kept (if has t.port.lcr 0x80 then view t.port else readOut (view t.port) (armed t.port))
        ((has t.port.lcr 0x80 || t.port.fifoEnabled) && t.unread)
      cases has t.port.lcr 0x80 with
      | true => exact hk
      | false => exact kept_readOut hk (armed t.port)
    | 1 | 2 | 3 | 4 | 5 | 6 | 7 => exact hk

theorem told_step {t : Tracked} (h : Good t) : Told t ∧ Told (tracked.next t .timeoutTimer) :=
  ⟨told_good h, told_good (good_step trivial h)⟩

theorem fits_of_told {t : Tracked} {e : Event} (h : Good t)
    (htold : Told (tracked.next t e) ∧ Told (tracked.next (tracked.next t e) .timeoutTimer)) : fits t e := by
  obtain ⟨hnow, hthen⟩ := htold
  cases e with
  | write addr val =>
    match addr with
    | 2 =>
      intro hnew hreset
      obtain ⟨hfit, fed, -, hview⟩ := port_view h.fit (.write 2 val)
      have hset : view (tracked.next t (.write 2 val)).port = controlled (view t.port) val :=
        hview.trans (if_neg (Nat.not_lt.mpr hnew))
      have hempty : emptied (view t.port) val = true := (resets_eq t.port val).symm.trans hreset
      have hqueue : contents (tracked.next t (.write 2 val)).port.rcvrFifo = [] := by
        refine (congrArg Receiver.queue hset).trans ?_
        simp [controlled, hempty]
      refine ⟨?_, ?_, fun hon hoff => ?_⟩
      · rw [← Bool.not_eq_true]
        intro htimer
        have hrun : (tracked.next t (.write 2 val)).port.timeoutTimer = true := (congrArg Receiver.timer hset).trans htimer
        obtain ⟨-, fed', -, hfired⟩ := port_view hfit .timeoutTimer
        have hlate := hfired.trans (if_pos hrun)
        exact hthen.timeout (congrArg Receiver.pending hlate) ((congrArg Receiver.queue hlate).trans hqueue)
      · have hpending : has (tracked.next t (.write 2 val)).port.intStatus serialIntTimeout =
            has t.port.intStatus serialIntTimeout := congrArg Receiver.pending hset
        rw [← Bool.not_eq_true, ← hpending]
        exact fun hset => hnow.timeout hset hqueue
      · have hready : has (tracked.next t (.write 2 val)).port.lsr 0x01 = false := by
          refine (congrArg Receiver.ready hset).trans ?_
          simp [controlled, hempty]
        have hplain := hnow.plain ((congrArg Receiver.fifoEnabled hset).trans hoff)
        rw [← Bool.not_eq_true]
        exact fun hunread => Bool.false_ne_true (hready.symm.trans (hplain.mpr hunread))
    | 5 =>
      obtain ⟨-, fed, -, hview⟩ := port_view h.fit (.write 5 val)
      have hset : view (Uart.port.next t.port (.write 5 val)) = { view t.port with ready := has val 0x01 } := hview
      change has val 0x01 = (view t.port).ready
      have hready : has (tracked.next t (.write 5 val)).port.lsr 0x01 = has val 0x01 := congrArg Receiver.ready hset
      have hmode : (tracked.next t (.write 5 val)).port.fifoEnabled = (view t.port).fifoEnabled :=
        congrArg Receiver.fifoEnabled hset
      have hqueue : contents (tracked.next t (.write 5 val)).port.rcvrFifo = (view t.port).queue :=
        congrArg Receiver.queue hset
      have hthen := hnow.fifo
      have hthen' := hnow.plain
      rw [hready, hmode, hqueue] at hthen
      rw [hready, hmode] at hthen'
      cases hon : (view t.port).fifoEnabled with
      | true => exact Bool.eq_iff_iff.mpr ((hthen hon).trans (h.kept.fifo hon).symm)
      | false =>
        rw [(h.kept.plain hon).1]
        exact Bool.eq_iff_iff.mpr (hthen' hon)
    | 0 | 1 | 3 | 4 | 6 | 7 => exact trivial
  | arrives dat => exact trivial
  | receiveTimer => exact trivial
  | transmitTimer => exact trivial
  | timeoutTimer => exact trivial
  | read addr => exact trivial

/-- Over every run, the flag and the timeout tell the truth, now and when the timeout comes, exactly when every
    step fits. -/
theorem ready_flag_kept (type : ℕ) (events : List Event) :
    (∀ before after, events = before ++ after →
      Told (tracked.run (start type) before) ∧ Told (tracked.run (start type) (before ++ [.timeoutTimer]))) ↔
      tracked.Along fits (start type) events := by
  have hiff := tracked.along_iff (I := Good) (P := fun t => Told t ∧ Told (tracked.next t .timeoutTimer))
    (Q := fun _ => True) (fun _ _ _ => good_step) (fun _ => told_step) (fun _ _ _ => fits_of_told) (good_start type)
    events (fun _ _ => trivial)
  rw [← hiff]
  simp only [Machine.run_append, Machine.run_cons, Machine.run_nil]

/-- A byte comes in, the guest empties the FIFO, and the timeout of that byte still comes. -/
theorem ready_flag_stale :
    ¬ ∀ (type : ℕ) (events : List Event), Told (tracked.run (start type) events) := by
  intro h
  have hfifo := (h serial16550
    [.write 3 0x03, .write 2 0x01, .arrives 0x41, .receiveTimer, .write 2 0x03, .timeoutTimer]).fifo
  revert hfifo
  decide +kernel

end PeepeeBox.DataReady
