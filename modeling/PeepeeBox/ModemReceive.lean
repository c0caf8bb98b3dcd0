import PeepeeBox.ModemSession

set_option autoImplicit false

/-!
# The modem's receive path

Line data and result codes share the ring to the DTE: in every session the line's bytes leave it
once, in the order in which they came, behind the CONNECT of their call.
-/
namespace PeepeeBox.ModemReceive
open HaspRecord CString CharModem AtParser DataMode ModemSession

def answer (dev : Modem) : Input → List Byte
  | .read host received len => (modemRead host received len dev).2
  | _ => []

theorem pollLine_dev (s : Terminal) (host : Host) : (s.pollLine host).dev = modemPollLine host s.dev := by
  unfold Terminal.pollLine
  dsimp only
  split_ifs <;> rfl

theorem receive_dev (s : Terminal) (received : Received) :
    (s.receive received).dev = modemReceive received s.dev := by
  unfold Terminal.receive
  dsimp only
  split_ifs <;> rfl

theorem pollLine_read (s : Terminal) (host : Host) :
    (s.pollLine host).read = s.read ∧ (s.pollLine host).now = s.now := by
  unfold Terminal.pollLine
  dsimp only
  split_ifs <;> exact ⟨rfl, rfl⟩

theorem receive_read (s : Terminal) (received : Received) :
    (s.receive received).read = s.read ∧ (s.receive received).now = s.now := by
  unfold Terminal.receive
  dsimp only
  split_ifs <;> exact ⟨rfl, rfl⟩

/-- The session as a read leaves it before the ring is drained. -/
def polled (s : Terminal) (elapsed : ℕ) (connected : ℤ) (received : Received) : Terminal :=
  let s := { s with now := s.now + elapsed }
  let host := hostAt s.now false connected
  ((s.pollLine host).silence host.now).receive received

theorem polled_dev (s : Terminal) (elapsed : ℕ) (connected : ℤ) (received : Received) :
    (polled s elapsed connected received).dev =
      modemPoll (hostAt (s.now + elapsed) false connected) received s.dev := by
  unfold polled
  dsimp only
  rw [receive_dev]
  change modemReceive received (modemSilence _ (Terminal.pollLine _ _).dev) = _
  rw [pollLine_dev]
  rfl

theorem polled_read (s : Terminal) (elapsed : ℕ) (connected : ℤ) (received : Received) :
    (polled s elapsed connected received).read = s.read ∧
      (polled s elapsed connected received).now = s.now + elapsed := by
  unfold polled
  dsimp only
  have hpoll := pollLine_read { s with now := s.now + elapsed } (hostAt (s.now + elapsed) false connected)
  have hreceive := receive_read
    (Terminal.silence (Terminal.pollLine { s with now := s.now + elapsed } (hostAt (s.now + elapsed) false connected))
      (hostAt (s.now + elapsed) false connected).now) received
  exact ⟨hreceive.1.trans hpoll.1, hreceive.2.trans hpoll.2⟩

theorem Sound.polled {s : Terminal} (h : Sound s) (elapsed : ℕ) (connected : ℤ) (received : Received) :
    Sound (polled s elapsed connected received) :=
  (((h.wait elapsed).pollLine (hostAt (s.now + elapsed) false connected) rfl).silence _).receive received

theorem step_read (s : Terminal) (elapsed : ℕ) (connected : ℤ) (received : Received) (len : ℕ) :
    s.step (.read elapsed connected received len) = .ok ((polled s elapsed connected received).drain len) := rfl

def inputs : ℕ → List Event → List Input
  | _, [] => []
  | now, e :: events => e.input now :: inputs (now + e.elapsed) events

/-- Operations that leave the ring in memory as the modem's state has it, and have handed over what
    the DTE has read. -/
def Ops (s : Terminal) (ops : List OutRing.Op) : Prop :=
  OutRing.pending (OutRing.run OutRing.empty ops).1 = s.dev.out ∧
    (OutRing.run OutRing.empty ops).2 = s.read.map Prod.snd

/-- No byte that is put overwrites one that waits to be read. -/
def Spared (ops : List OutRing.Op) : Prop :=
  ∀ xs val ys, ops = xs ++ .put val :: ys →
    ∀ i < (OutRing.pending (OutRing.run OutRing.empty xs).1).length,
      let r := (OutRing.run OutRing.empty xs).1
      (OutRing.outByte r val).out ((r.outTail.toNat + i) % modemOutSize) =
        r.out ((r.outTail.toNat + i) % modemOutSize)

theorem ops_put {s s' : Terminal} {ops : List OutRing.Op} (h : Ops s ops) {bs : List Byte}
    (hout : s'.dev.out = ring s.dev.out bs) (hread : s'.read = s.read) : Ops s' (ops ++ bs.map .put) := by
  unfold Ops
  obtain ⟨hpending, hnone⟩ := OutRing.run_puts (OutRing.run OutRing.empty ops).1 bs
  rw [OutRing.run_append]
  dsimp only
  rw [hpending, hnone, h.1, h.2, hout, hread, List.append_nil]
  exact ⟨rfl, rfl⟩

theorem ops_drain {s : Terminal} {ops : List OutRing.Op} (hsound : Sound s) (h : Ops s ops) (len : ℕ) :
    Ops (s.drain len) (ops ++ [.read len]) := by
  unfold Ops
  obtain ⟨hpending, htake⟩ := OutRing.pending_drain len (OutRing.run OutRing.empty ops).1
  rw [OutRing.run_append]
  constructor
  · exact hpending.trans (congrArg (List.drop len) h.1)
  · change (OutRing.run OutRing.empty ops).2 ++ ((OutRing.drain len (OutRing.run OutRing.empty ops).1).2 ++ []) =
      (s.read ++ s.queue.take len).map Prod.snd
    rw [htake, h.1, h.2, List.append_nil, List.map_append, List.map_take, hsound.queue]

theorem pollLine_out (host : Host) (dev : Modem) : ∃ bs, (modemPollLine host dev).out = ring dev.out bs := by
  have hpoll := modemPollLine_polled host dev
  generalize modemPollLine host dev = dev' at hpoll ⊢
  cases hpoll with
  | quiet _ called => exact called.out
  | answered => exact ⟨[], rfl⟩
  | said => exact ⟨resultLine dev (some .connect), by rw [modemResult_eq]⟩
  | online => exact ⟨[], rfl⟩

theorem receive_out (received : Received) {dev : Modem} (hroom : dev.out.length ≤ modemOutSize - 1) :
    ∃ bs, (modemReceive received dev).out = ring dev.out bs := by
  rcases modemReceive_data received hroom with ⟨-, -, hdev⟩ | ⟨-, hcalled⟩
  · refine ⟨lineData received dev, ?_⟩
    rw [hdev, ring_eq hroom, List.take_of_length_le (lineData_length received dev)]
  · exact hcalled.out

theorem poll_out (host : Host) (received : Received) {dev : Modem} (hroom : dev.out.length ≤ modemOutSize - 1) :
    ∃ bs, (modemPoll host received dev).out = ring dev.out bs := by
  obtain ⟨bs, hbs⟩ := pollLine_out host dev
  obtain ⟨bs₁, hbs₁⟩ := (modemSilence_called host.now (modemPollLine host dev)).out
  have hroom₁ : (modemSilence host.now (modemPollLine host dev)).out.length ≤ modemOutSize - 1 := by
    rw [hbs₁, hbs, ← ring_append]
    exact ring_length hroom _
  obtain ⟨bs₂, hbs₂⟩ := receive_out received hroom₁
  refine ⟨bs ++ bs₁ ++ bs₂, ?_⟩
  unfold modemPoll
  rw [hbs₂, hbs₁, hbs, ring_append, ring_append]

theorem ops_step {s s' : Terminal} {e : Event} {ops : List OutRing.Op} (hsound : Sound s) (h : Ops s ops)
    (hstep : s.step e = .ok s') : ∃ more, Ops s' (ops ++ more) := by
  cases e with
  | write elapsed connects connected val =>
    obtain ⟨dev, sent, hrun, rfl⟩ := step_write hstep
    obtain ⟨bs, hbs⟩ := (modemWrite_called hrun).out
    exact ⟨_, ops_put h hbs rfl⟩
  | read elapsed connected received len =>
    rw [step_read] at hstep
    obtain rfl := Except.ok.inj hstep
    have hpolled := Sound.polled hsound elapsed connected received
    obtain ⟨bs, hbs⟩ := poll_out (hostAt (s.now + elapsed) false connected) received hsound.room
    rw [← polled_dev s elapsed connected received] at hbs
    have hput := ops_put h hbs (polled_read s elapsed connected received).1
    refine ⟨bs.map .put ++ [.read len], ?_⟩
    rw [← List.append_assoc]
    exact ops_drain hpolled hput len
  | control dtr =>
    obtain rfl := Except.ok.inj hstep
    obtain ⟨bs, hbs⟩ := (modemControl_called dtr s.dev).out
    exact ⟨_, ops_put h hbs rfl⟩

theorem ops_run {s s' : Terminal} {events : List Event} {ops : List OutRing.Op} (hsound : Sound s)
    (h : Ops s ops) (hrun : s.run events = .ok s') : ∃ more, Ops s' (ops ++ more) := by
  induction events generalizing s ops with
  | nil =>
    obtain rfl := Except.ok.inj hrun
    exact ⟨[], (List.append_nil ops).symm ▸ h⟩
  | cons e events ih =>
    obtain ⟨s₁, hstep, hrest⟩ := run_cons hrun
    obtain ⟨more, hmore⟩ := ops_step hsound h hstep
    obtain ⟨rest, hops⟩ := ih (hsound.step hstep) hmore hrest
    exact ⟨more ++ rest, List.append_assoc ops more rest ▸ hops⟩

theorem ops_spared (ops : List OutRing.Op) : Spared ops := by
  intro xs val ys _ i hi
  exact OutRing.outByte_slot (OutRing.run OutRing.empty xs).1 val i hi

theorem put_ahead (s : Terminal) (source : Source) (dev : Modem) :
    s.stream <+: (s.put source dev).stream := by
  rw [put_stream]
  exact List.prefix_append _ _

theorem polled_ahead (s : Terminal) (elapsed : ℕ) (connected : ℤ) (received : Received) :
    s.stream <+: (polled s elapsed connected received).stream := by
  have hpoll : ∀ (s : Terminal) (host : Host), s.stream <+: (s.pollLine host).stream := by
    intro s host
    unfold Terminal.pollLine
    dsimp only
    split_ifs <;> exact put_ahead s _ _
  have hreceive : ∀ s : Terminal, s.stream <+: (s.receive received).stream := by
    intro s
    unfold Terminal.receive
    dsimp only
    split_ifs <;> exact put_ahead s _ _
  have hsilence : ∀ (s : Terminal) (now : BitVec 32), s.stream <+: (s.silence now).stream :=
    fun s now => put_ahead s .other (modemSilence now s.dev)
  exact ((hpoll { s with now := s.now + elapsed } (hostAt (s.now + elapsed) false connected)).trans
    (hsilence _ _)).trans (hreceive _)

theorem step_ahead {s s' : Terminal} {e : Event} (hstep : s.step e = .ok s') :
    s.stream <+: s'.stream ∧ min (s.read.length + e.len) s.stream.length ≤ s'.read.length := by
  have hread : s.read.length ≤ s.stream.length := List.length_append ▸ Nat.le_add_right _ _
  cases e with
  | write elapsed connects connected val =>
    obtain ⟨dev, sent, -, rfl⟩ := step_write hstep
    exact ⟨put_ahead _ _ _, Nat.min_le_left _ _⟩
  | read elapsed connected received len =>
    rw [step_read] at hstep
    obtain rfl := Except.ok.inj hstep
    have hahead := polled_ahead s elapsed connected received
    have hsame := (polled_read s elapsed connected received).1
    generalize polled s elapsed connected received = s₁ at hahead hsame ⊢
    refine ⟨hahead.trans (drain_stream s₁ len ▸ List.prefix_rfl), ?_⟩
    have hlength := hahead.length_le
    change min (s.read.length + len) s.stream.length ≤ (s₁.read ++ s₁.queue.take len).length
    have hstream : s₁.stream.length = s₁.read.length + s₁.queue.length := List.length_append
    rw [List.length_append, List.length_take, hsame]
    rw [hstream, hsame] at hlength
    omega
  | control dtr =>
    obtain rfl := Except.ok.inj hstep
    exact ⟨put_ahead _ _ _, Nat.min_le_left _ _⟩

theorem run_ahead {s s' : Terminal} {events : List Event} (hrun : s.run events = .ok s') :
    s.stream <+: s'.stream ∧
      min (s.read.length + (events.map Event.len).sum) s.stream.length ≤ s'.read.length := by
  induction events generalizing s with
  | nil =>
    obtain rfl := Except.ok.inj hrun
    exact ⟨List.prefix_rfl, Nat.min_le_left _ _⟩
  | cons e events ih =>
    obtain ⟨s₁, hstep, hrest⟩ := run_cons hrun
    obtain ⟨hahead, hread⟩ := step_ahead hstep
    obtain ⟨hahead', hread'⟩ := ih hrest
    refine ⟨hahead.trans hahead', ?_⟩
    have hlength := hahead.length_le
    rw [List.map_cons, List.sum_cons]
    omega

theorem run_delivers {s s' : Terminal} {events : List Event} (hrun : s.run events = .ok s')
    (hlen : s.queue.length ≤ (events.map Event.len).sum) : s.stream <+: s'.read := by
  obtain ⟨hahead, hread⟩ := run_ahead hrun
  have hstream : s.stream.length = s.read.length + s.queue.length := List.length_append
  apply List.prefix_of_prefix_length_le hahead (List.prefix_append _ _)
  omega

def Runs (events : List Event) (s : Terminal) : Prop :=
  ∃ model line connectRate host ident firmware now,
    (Terminal.start (modemInit model line connectRate host ident firmware) now).run events = .ok s

theorem Runs.sound {events : List Event} {s : Terminal} (h : Runs events s) : Sound s := by
  obtain ⟨model, line, connectRate, host, ident, firmware, now, hrun⟩ := h
  exact (Sound.start model line connectRate host ident firmware now).run hrun

theorem Runs.ops {events : List Event} {s : Terminal} (h : Runs events s) : ∃ ops, Ops s ops := by
  obtain ⟨model, line, connectRate, host, ident, firmware, now, hrun⟩ := h
  have hstart := Sound.start model line connectRate host ident firmware now
  have hnone : Ops (.start (modemInit model line connectRate host ident firmware) now) [] := ⟨rfl, rfl⟩
  obtain ⟨ops, hops⟩ := ops_run hstart hnone hrun
  exact ⟨[] ++ ops, hops⟩

/-- In every session: what has come off the line is, in its order and once, what the DTE has read of it
    and then what of it waits in the ring, which is the modem's; in data mode the CONNECT of the call has
    been queued, and none of its bytes follows one off the line; the ring in memory has gone
    through operations that spare the bytes not yet read; and what waits is read in every
    continuation that asks for as much. -/
theorem receive_path (events : List Event) (s : Terminal) (h : Runs events s) :
    (s.read ++ s.queue).filterMap lineByte = s.received ∧
    s.queue.map Prod.snd = s.dev.out ∧
    (s.dev.online = true → ∃ d, s.Queued d) ∧
    ((s.read ++ s.queue).Pairwise fun x y => ∀ call, x.1 = .line call → y.1 ≠ .connect call) ∧
    (∃ ops, Ops s ops ∧ Spared ops) ∧
    ∀ more s', s.run more = .ok s' → s.queue.length ≤ (more.map Event.len).sum →
      s.read ++ s.queue <+: s'.read := by
  have hsound := h.sound
  obtain ⟨ops, hops⟩ := h.ops
  refine ⟨hsound.lines, hsound.queue, fun honline => ?_, hsound.order, ⟨ops, hops, ops_spared ops⟩, ?_⟩
  · obtain ⟨d, hqueued, -⟩ := hsound.online (hsound.carrier.online honline)
    exact ⟨d, hqueued⟩
  · exact fun more s' hrun hlen => run_delivers hrun hlen

def callIn : List Event :=
  (ascii "ATD1\r").map (.write 0 true 1) ++
    [.read 5000 1 .wouldblock 4096, .read 9000 1 .wouldblock 4096, .read 1000 1 .wouldblock 4096,
      .read 10 1 (.bytes (ascii "abc")) 2]

def calledIn : Terminal := ((Terminal.start dialUp 0).run callIn).toOption.getD (.start dialUp 0)

theorem receive_path_call :
    (calledIn.read ++ calledIn.queue).filterMap lineByte = [(1, ch 'a'), (1, ch 'b'), (1, ch 'c')] ∧
      calledIn.queue.map Prod.snd = ascii "c" := by
  have hruns : Runs callIn calledIn := ⟨modemModelSupra, .tcp, 57600, ascii "localhost", [], [], 0, rfl⟩
  obtain ⟨hlines, hqueue, -⟩ := receive_path callIn calledIn hruns
  have hreceived : calledIn.received = [(1, ch 'a'), (1, ch 'b'), (1, ch 'c')] := rfl
  have hout : calledIn.dev.out = ascii "c" := rfl
  exact ⟨hlines.trans hreceived, hqueue.trans hout⟩

end PeepeeBox.ModemReceive
