import PeepeeBox.DataMode
import PeepeeBox.OutRing

set_option autoImplicit false

/-!
# What the DTE reads

Runs of the modem with everything its ring has ever held: which bytes came off the line and in
which call, which belong to the CONNECT of a call, and when that CONNECT was queued.
-/
namespace PeepeeBox.ModemSession
open HaspRecord CString CharModem AtParser DataMode

theorem ring_eq {out : List Byte} (h : out.length ≤ modemOutSize - 1) (bs : List Byte) :
    ring out bs = out ++ bs.take (modemOutSize - 1 - out.length) := by
  induction bs generalizing out with
  | nil => simp [ring]
  | cons b bs ih =>
    have hcons : ring out (b :: bs) =
        ring (if out.length = modemOutSize - 1 then out else out ++ [b]) bs := rfl
    rw [hcons]
    by_cases hfull : out.length = modemOutSize - 1
    · rw [if_pos hfull, ih h, hfull, Nat.sub_self, List.take_zero, List.take_zero]
    · have hlt : out.length < modemOutSize - 1 := Nat.lt_of_le_of_ne h hfull
      have hlength : (out ++ [b]).length = out.length + 1 := by simp
      obtain ⟨room, hroom⟩ : ∃ room, modemOutSize - 1 - out.length = room + 1 :=
        ⟨modemOutSize - 1 - out.length - 1, by omega⟩
      rw [if_neg hfull, ih (by omega), hlength, hroom, List.take_succ_cons, List.append_assoc]
      have hrest : modemOutSize - 1 - (out.length + 1) = room := by omega
      rw [hrest]
      rfl

theorem ring_length {out : List Byte} (h : out.length ≤ modemOutSize - 1) (bs : List Byte) :
    (ring out bs).length ≤ modemOutSize - 1 := by
  rw [ring_eq h, List.length_append, List.length_take]
  omega

structure Called (dev dev' : Modem) : Prop where
  out : ∃ bs, dev'.out = ring dev.out bs
  answering : dev'.state = .answering →
    dev.state = .answering ∧ dev'.saidConnect = dev.saidConnect ∧ dev'.deadline = dev.deadline
  online : dev'.state = .online → dev.state = .online

theorem Called.refl (dev : Modem) : Called dev dev := ⟨⟨[], rfl⟩, fun h => ⟨h, rfl, rfl⟩, id⟩

theorem Called.trans {dev dev₁ dev₂ : Modem} (h : Called dev dev₁) (h' : Called dev₁ dev₂) :
    Called dev dev₂ := by
  obtain ⟨bs, hbs⟩ := h.out
  obtain ⟨bs', hbs'⟩ := h'.out
  refine ⟨⟨bs ++ bs', ?_⟩, fun hstate => ?_, fun hstate => h.online (h'.online hstate)⟩
  · rw [hbs', hbs, ring_append]
  · obtain ⟨hstate₁, hsaid₁, hdeadline₁⟩ := h'.answering hstate
    obtain ⟨hstate₀, hsaid, hdeadline⟩ := h.answering hstate₁
    exact ⟨hstate₀, hsaid₁.trans hsaid, hdeadline₁.trans hdeadline⟩

theorem Called.puts (dev : Modem) (bs : List Byte) : Called dev { dev with out := ring dev.out bs } :=
  ⟨⟨bs, rfl⟩, fun h => ⟨h, rfl, rfl⟩, id⟩

theorem Called.line (dev : Modem) (text : List Byte) : Called dev (modemOutLine dev text) := by
  rw [modemOutLine_eq]
  exact Called.puts dev _

theorem Called.result (dev : Modem) (res : Option Res) : Called dev (modemResult dev res) := by
  rw [modemResult_eq]
  exact Called.puts dev _

theorem Called.hangup (dev : Modem) : Called dev (modemHangup dev) :=
  ⟨⟨[], rfl⟩, fun h => (nomatch (h : LineState.idle = .answering)),
    fun h => (nomatch (h : LineState.idle = .online))⟩

theorem Called.dial (host : Host) (dev : Modem) (number : List Byte) :
    Called dev (modemDial host dev number) := by
  have hstate := modemDial_state host dev number
  refine ⟨⟨[], modemDial_out dev number⟩, fun h => ?_, fun h => ?_⟩
  · rw [h] at hstate
    rcases hstate with hstate | hstate <;> cases hstate
  · rw [h] at hstate
    rcases hstate with hstate | hstate <;> cases hstate

theorem Called.info (dev : Modem) (n : BitVec 32) : Called dev (modemInfo dev n) := by
  unfold modemInfo
  split_ifs
  · exact .refl dev
  · exact .line dev _
  · exact .line dev _
  · exact .line dev _
  · split
    · exact .line dev _
    · exact .refl dev

def Turn.dev : Turn → Modem
  | .finish dev _ => dev
  | .more dev _ => dev

theorem Called.same {dev dev' : Modem} (hout : dev'.out = dev.out) (hstate : dev'.state = dev.state)
    (hsaid : dev'.saidConnect = dev.saidConnect) (hdeadline : dev'.deadline = dev.deadline) :
    Called dev dev' :=
  ⟨⟨[], hout⟩, fun h => ⟨hstate.symm.trans h, hsaid, hdeadline⟩, fun h => hstate.symm.trans h⟩

theorem argLetter_called (c : Byte) (act : Modem → BitVec 32 → Modem) :
    argLetter c = some act → ∀ dev n, Called dev (act dev n) := by
  have entry := @of_ite_some _ fun act : Modem → BitVec 32 → Modem => ∀ dev n, Called dev (act dev n)
  unfold argLetter
  refine entry (fun _ _ => .same rfl rfl rfl rfl) ?_
  refine entry (fun dev n => ?_) ?_
  · split
    · exact .hangup dev
    · exact .refl dev
  refine entry Called.info ?_
  iterate 4 refine entry (fun _ _ => .same rfl rfl rfl rfl) ?_
  refine entry (fun dev _ => (Called.hangup dev).trans (.same rfl rfl rfl rfl)) ?_
  iterate 3 refine entry (fun _ _ => .same rfl rfl rfl rfl) ?_
  intro h
  cases h

theorem plainLetter_called (c : Byte) (act : Modem → Modem) :
    plainLetter c = some act → ∀ dev, Called dev (act dev) := by
  have entry := @of_ite_some _ fun act : Modem → Modem => ∀ dev, Called dev (act dev)
  unfold plainLetter
  iterate 3 refine entry (fun _ => .same rfl rfl rfl rfl) ?_
  intro h
  cases h

theorem ampLetter_called (a : Byte) (dev : Modem) (n : BitVec 32) : Called dev (ampLetter a dev n) := by
  unfold ampLetter
  split_ifs <;> exact .same rfl rfl rfl rfl

theorem modemLetter_called (host : Host) (dev : Modem) (c : Byte) (p : Cursor) :
    Every (fun t => Called dev (Turn.dev t)) (modemLetter host dev c p) := by
  have hmore : ∀ {dev' p}, Called dev dev' →
      Every (fun t => Called dev (Turn.dev t)) (.ok (.more dev' p)) := fun h => .ok h
  have hfinish : ∀ {dev' res}, Called dev dev' →
      Every (fun t => Called dev (Turn.dev t)) (.ok (.finish dev' res)) := fun h => .ok h
  have hstar : ∀ (a : Byte) (n : BitVec 32),
      Called dev (if a = ch 'N' then { dev with country := n } else dev) := by
    intro a n
    split <;> exact .same rfl rfl rfl rfl
  unfold modemLetter modemRegister modemAmpersand modemExtended modemStar modemPlus modemLast
  split
  · next _ _ act hact =>
    apply Every.bind
    exact fun _ => hmore (argLetter_called c act hact dev _)
  · next act _ hact => exact hmore (plainLetter_called c act hact dev)
  · repeat' first
      | exact hmore (.same rfl rfl rfl rfl)
      | exact hmore (.line dev _)
      | exact hmore (ampLetter_called _ dev _)
      | exact hmore (hstar _ _)
      | exact hfinish (.same rfl rfl rfl rfl)
      | exact hfinish (.dial host dev _)
      | apply Every.ite
      | (apply Every.bind; intro b)

theorem modemExecute_called (host : Host) (fuel : ℕ) (dev dev' : Modem) (p : Cursor) (res : Option Res)
    (h : modemExecute host fuel dev p = .ok (dev', res)) : Called dev dev' := by
  induction fuel generalizing dev p with
  | zero => cases h
  | succ fuel ih =>
    cases hread : p.read with
    | error fault =>
      unfold modemExecute at h
      rw [hread] at h
      cases h
    | ok c =>
      unfold modemExecute at h
      rw [hread, ok_bind] at h
      by_cases hend : c = 0
      · rw [if_pos hend] at h
        obtain ⟨rfl, -⟩ := Prod.mk.inj (Except.ok.inj h)
        exact .refl dev
      · rw [if_neg hend] at h
        have hletter := modemLetter_called host dev (toupper c) p.next
        cases hturn : modemLetter host dev (toupper c) p.next with
        | error fault =>
          rw [hturn] at h
          cases h
        | ok turn =>
          rw [hturn] at h
          have hcalled := hletter turn hturn
          cases turn with
          | finish dev₁ res₁ =>
            obtain ⟨rfl, -⟩ := Prod.mk.inj (Except.ok.inj h)
            exact hcalled
          | more dev₁ p₁ => exact hcalled.trans (ih dev₁ p₁ h)

theorem modemCommand_called {host : Host} {dev dev' : Modem} {line : List Byte}
    (h : modemCommand host dev line = .ok dev') : Called dev dev' := by
  unfold modemCommand at h
  dsimp only at h
  cases hexec : modemExecute host ((cstr line).length + 1)
      { dev with lastcmd := (cstr line).take (modemCmdSize - 1) } (.inside (cstr line)) with
  | error fault =>
    rw [hexec] at h
    cases h
  | ok done =>
    obtain ⟨dev₁, res⟩ := done
    rw [hexec, ok_bind] at h
    obtain rfl := Except.ok.inj h
    have hstart : Called dev { dev with lastcmd := (cstr line).take (modemCmdSize - 1) } :=
      .same rfl rfl rfl rfl
    exact (hstart.trans (modemExecute_called host _ _ dev₁ _ res hexec)).trans (.result dev₁ res)

theorem modemReturn_called {host : Host} {dev dev' : Modem} (h : modemReturn host dev = .ok dev') :
    Called dev dev' := by
  unfold modemReturn at h
  dsimp only at h
  generalize hreported : (if 2 ≤ dev.cmd.length then _ else _ : Except Fault Modem) = reported at h
  cases reported with
  | error fault => cases h
  | ok dev₁ =>
    obtain rfl := Except.ok.inj h
    have hfirst : Called dev dev₁ := by
      split at hreported
      · split at hreported
        · exact modemCommand_called hreported
        · exact Except.ok.inj hreported ▸ .result dev _
      · split at hreported
        · exact Except.ok.inj hreported ▸ .result dev _
        · exact Except.ok.inj hreported ▸ .refl dev
    exact hfirst.trans (.same rfl rfl rfl rfl)

theorem modemCommandByte_called {host : Host} {dev dev' : Modem} {val : Byte}
    (h : modemCommandByte host dev val = .ok dev') : Called dev dev' := by
  unfold modemCommandByte at h
  rw [echoed_eq] at h
  dsimp only at h
  have hechoed := Called.puts dev (echoed dev val)
  split at h
  · split at h
    · exact Except.ok.inj h ▸ .refl dev
    · obtain rfl := Except.ok.inj h
      split
      · rw [modemOutStr_eq]
        exact ⟨⟨_, rfl⟩, fun h => ⟨h, rfl, rfl⟩, id⟩
      · exact .same rfl rfl rfl rfl
  · split at h
    · exact hechoed.trans (modemReturn_called h)
    · split at h
      · exact Except.ok.inj h ▸ hechoed
      · split at h
        · have hcleared : Called dev { dev with out := ring dev.out (echoed dev val), cmd := [] } :=
            ⟨⟨_, rfl⟩, fun hstate => ⟨hstate, rfl, rfl⟩, id⟩
          exact hcleared.trans (modemCommand_called h)
        · split at h
          · exact Except.ok.inj h ▸ hechoed.trans (.same rfl rfl rfl rfl)
          · exact Except.ok.inj h ▸ hechoed

theorem modemDataByte_called (now : BitVec 32) (dev : Modem) (val : Byte) :
    Called dev (modemDataByte now dev val).1 := by
  unfold modemDataByte
  split
  · dsimp only
    split <;> exact .same rfl rfl rfl rfl
  · exact .same rfl rfl rfl rfl

theorem modemWrite_called {host : Host} {dev dev' : Modem} {val : Byte} {sent : List Byte}
    (h : modemWrite host dev val = .ok (dev', sent)) : Called dev dev' := by
  unfold modemWrite at h
  split at h
  · have hdata := modemDataByte_called host.now dev val
    rw [Except.ok.inj h] at hdata
    exact hdata
  · cases hrun : modemCommandByte host dev val with
    | error fault =>
      rw [hrun] at h
      cases h
    | ok dev₁ =>
      rw [hrun] at h
      obtain ⟨rfl, -⟩ := Prod.mk.inj (Except.ok.inj h)
      exact modemCommandByte_called hrun

theorem modemControl_called (dtr : Bool) (dev : Modem) : Called dev (modemControl dtr dev) := by
  have hdtr : Called dev { dev with dtr := dtr } := .same rfl rfl rfl rfl
  unfold modemControl
  dsimp only
  split
  · exact hdtr
  · split
    · exact .same rfl rfl rfl rfl
    · split
      · split
        · exact hdtr.trans ((Called.hangup _).trans (.result _ _))
        · exact hdtr
      · split
        · exact hdtr.trans ((Called.hangup _).trans (.same rfl rfl rfl rfl))
        · exact hdtr

theorem modemSilence_called (now : BitVec 32) (dev : Modem) : Called dev (modemSilence now dev) := by
  have hoff : Called dev { dev with pluses := 0, online := false } := .same rfl rfl rfl rfl
  unfold modemSilence
  split
  · exact hoff.trans (.result _ _)
  · exact .refl dev

/-- What a poll of the line can find. -/
inductive Polled (now : BitVec 32) (dev : Modem) : Modem → Prop
  | quiet (dev' : Modem) (called : Called dev dev') : Polled now dev dev'
  | answered (state : dev.state = .connecting) : Polled now dev (modemAnswered dev now)
  | said (state : dev.state = .answering) (unsaid : dev.saidConnect = false) :
    Polled now dev
      { modemResult dev (some .connect) with saidConnect := true, deadline := now + modemSettleMs }
  | online (state : dev.state = .answering) (said : dev.saidConnect = true)
      (passed : ¬ (now - dev.deadline).toInt < 0) (drained : dev.out = []) : Polled now dev (modemOnline dev)

theorem modemPollLine_polled (host : Host) (dev : Modem) :
    Polled host.now dev (modemPollLine host dev) := by
  have hdrop : ∀ res, Called dev (modemResult (modemHangup dev) (some res)) :=
    fun res => (Called.hangup dev).trans (.result _ _)
  unfold modemPollLine
  cases hstate : dev.state with
  | idle => exact .quiet dev (.refl dev)
  | online => exact .quiet dev (.refl dev)
  | dialing =>
    dsimp only
    split
    · exact .quiet dev (.refl dev)
    · exact .quiet _ (hdrop _)
  | connecting =>
    have hrefused : Called dev (modemRefused host.now dev) := by
      have hnot : dev.state ≠ .answering := by rw [hstate]; decide
      unfold modemRefused
      split
      · exact .refl dev
      · exact ⟨⟨[], rfl⟩, fun h => absurd h hnot, id⟩
    dsimp only
    generalize (if dev.refused then (-1 : ℤ) else host.connected) = connected
    split
    · split
      · exact .answered hstate
      · exact .quiet dev (.refl dev)
    · split
      · split
        · exact .quiet _ (hrefused.trans ((Called.hangup _).trans (.result _ _)))
        · exact .quiet _ hrefused
      · split
        · exact .quiet _ (hdrop _)
        · exact .quiet dev (.refl dev)
  | answering =>
    dsimp only
    split
    · exact .quiet dev (.refl dev)
    · next hpassed =>
      split
      · next hunsaid => exact .said hstate (by simpa using hunsaid)
      · next hsaid =>
        split
        · next hdrained => exact .online hstate (by simpa using hsaid) hpassed hdrained
        · exact .quiet dev (.refl dev)

def lineData (received : Received) (dev : Modem) : List Byte :=
  if dev.online ∧ dev.sock then
    match received with
    | .bytes bs => bs.take (min (modemOutSize - 1 - dev.out.length) 256)
    | _ => []
  else []

theorem lineData_length (received : Received) (dev : Modem) :
    (lineData received dev).length ≤ modemOutSize - 1 - dev.out.length := by
  unfold lineData
  split
  · cases received with
    | wouldblock => exact Nat.zero_le _
    | closed => exact Nat.zero_le _
    | bytes bs =>
      have htake := List.length_take_le (min (modemOutSize - 1 - dev.out.length) 256) bs
      exact htake.trans (Nat.min_le_left _ _)
  · exact Nat.zero_le _

theorem modemReceive_data (received : Received) {dev : Modem} (hroom : dev.out.length ≤ modemOutSize - 1) :
    lineData received dev ≠ [] ∧ dev.online = true ∧
        modemReceive received dev = { dev with out := dev.out ++ lineData received dev } ∨
      lineData received dev = [] ∧ Called dev (modemReceive received dev) := by
  have hdrop : Called dev (modemResult (modemHangup dev) (some .noCarrier)) :=
    (Called.hangup dev).trans (.result _ _)
  unfold lineData modemReceive
  by_cases hup : dev.online ∧ dev.sock
  · rw [if_pos hup, if_pos hup]
    generalize hsize : min (modemOutSize - 1 - dev.out.length) 256 = size
    dsimp only
    by_cases hfull : size = 0
    · rw [if_pos hfull, hfull]
      refine Or.inr ⟨?_, .refl dev⟩
      cases received <;> rfl
    · rw [if_neg hfull]
      cases received with
      | wouldblock => exact Or.inr ⟨rfl, .refl dev⟩
      | closed => exact Or.inr ⟨rfl, hdrop⟩
      | bytes bs =>
        cases bs with
        | nil => exact Or.inr ⟨List.take_nil, hdrop⟩
        | cons b bs =>
          refine Or.inl ⟨?_, hup.1, ?_⟩
          · simp [hfull]
          · dsimp only
            have hfits : ((b :: bs).take size).take (modemOutSize - 1 - dev.out.length) = (b :: bs).take size := by
              apply List.take_of_length_le
              rw [List.length_take]
              omega
            rw [modemOutStr_eq, ring_eq hroom, hfits]
  · rw [if_neg hup, if_neg hup]
    exact Or.inr ⟨rfl, .refl dev⟩

/-- Where a byte of the ring comes from: the CONNECT of a call, the line in that call, or neither. -/
inductive Source where
  | other
  | connect (call : ℕ)
  | line (call : ℕ)
deriving DecidableEq

structure Said where
  time : ℕ
  text : List Byte
  room : ℕ

/-- The modem, the time in milliseconds, how many calls have been answered, the CONNECT of the last of
    them, the ring with the sources of its bytes, what the DTE has read, and what the line has brought. -/
structure Terminal where
  dev : Modem
  now : ℕ
  call : ℕ
  said : Option Said
  queue : List (Source × Byte)
  read : List (Source × Byte)
  received : List (ℕ × Byte)

/-- A call of the character device, and the time since the last one. -/
inductive Event where
  | write (elapsed : ℕ) (connects : Bool) (connected : ℤ) (val : Byte)
  | read (elapsed : ℕ) (connected : ℤ) (received : Received) (len : ℕ)
  | control (dtr : Bool)

/-- The modem's next state, and what it queued. -/
def Terminal.put (s : Terminal) (source : Source) (dev : Modem) : Terminal :=
  { s with dev := dev, queue := s.queue ++ (dev.out.drop s.dev.out.length).map fun b => (source, b) }

def Terminal.pollLine (s : Terminal) (host : Host) : Terminal :=
  let dev := modemPollLine host s.dev
  if s.dev.state = .connecting ∧ dev.state = .answering then
    { s.put .other dev with call := s.call + 1, said := none }
  else if s.dev.state = .answering ∧ dev.state = .answering ∧ s.dev.saidConnect ≠ dev.saidConnect then
    { s.put (.connect s.call) dev with
      said := some
        { time := s.now, text := resultLine s.dev (some .connect), room := modemOutSize - 1 - s.dev.out.length } }
  else s.put .other dev

def Terminal.silence (s : Terminal) (now : BitVec 32) : Terminal := s.put .other (modemSilence now s.dev)

def Terminal.receive (s : Terminal) (received : Received) : Terminal :=
  let data := lineData received s.dev
  let dev := modemReceive received s.dev
  if data = [] then s.put .other dev
  else { s.put (.line s.call) dev with received := s.received ++ data.map fun b => (s.call, b) }

def Terminal.drain (s : Terminal) (len : ℕ) : Terminal :=
  { s with
    dev := { s.dev with out := s.dev.out.drop len }
    queue := s.queue.drop len, read := s.read ++ s.queue.take len }

/-- The clock counts modulo 2³². -/
def hostAt (now : ℕ) (connects : Bool) (connected : ℤ) : Host := ⟨BitVec.ofNat 32 now, connects, connected⟩

def Event.elapsed : Event → ℕ
  | .write elapsed _ _ _ => elapsed
  | .read elapsed _ _ _ => elapsed
  | .control _ => 0

/-- The call of the character device that an event is. -/
def Event.input (now : ℕ) : Event → Input
  | .write elapsed connects connected val => .write (hostAt (now + elapsed) connects connected) val
  | .read elapsed connected received len => .read (hostAt (now + elapsed) false connected) received len
  | .control dtr => .control dtr

def Event.len : Event → ℕ
  | .read _ _ _ len => len
  | _ => 0

def Terminal.step (s : Terminal) : Event → Except Fault Terminal
  | .write elapsed connects connected val => do
    let s := { s with now := s.now + elapsed }
    let (dev, _) ← modemWrite (hostAt s.now connects connected) s.dev val
    return s.put .other dev
  | .read elapsed connected received len =>
    let s := { s with now := s.now + elapsed }
    let host := hostAt s.now false connected
    return (((s.pollLine host).silence host.now).receive received).drain len
  | .control dtr => return s.put .other (modemControl dtr s.dev)

def Terminal.run (s : Terminal) (events : List Event) : Except Fault Terminal := events.foldlM Terminal.step s

/-- Everything the ring has held, oldest first. -/
def Terminal.stream (s : Terminal) : List (Source × Byte) := s.read ++ s.queue

def lineByte : Source × Byte → Option (ℕ × Byte)
  | (.line call, b) => some (call, b)
  | _ => none

def connectByte (call : ℕ) (e : Source × Byte) : Option Byte := if e.1 = .connect call then some e.2 else none

/-- The CONNECT of the call has been queued, as far as the ring had room. -/
def Terminal.Queued (s : Terminal) (d : Said) : Prop :=
  s.said = some d ∧ s.stream.filterMap (connectByte s.call) = d.text.take d.room

structure Sound (s : Terminal) : Prop where
  carrier : Carrier s.dev
  room : s.dev.out.length ≤ modemOutSize - 1
  queue : s.queue.map Prod.snd = s.dev.out
  lines : s.stream.filterMap lineByte = s.received
  calls : ∀ e ∈ s.stream, ∀ n, e.1 = .line n ∨ e.1 = .connect n → n ≤ s.call
  order : s.stream.Pairwise fun x y => ∀ n, x.1 = .line n → y.1 ≠ .connect n
  unlined : s.dev.state = .answering → ∀ e ∈ s.stream, e.1 ≠ .line s.call
  unsaid : s.dev.state = .answering → s.dev.saidConnect = false → ∀ e ∈ s.stream, e.1 ≠ .connect s.call
  said : s.dev.state = .answering → s.dev.saidConnect = true → ∃ d, s.Queued d ∧ d.time ≤ s.now ∧
    s.dev.deadline = BitVec.ofNat 32 d.time + modemSettleMs
  online : s.dev.state = .online → ∃ d, s.Queued d ∧ d.time + 100 ≤ s.now ∧
    ∀ e ∈ s.queue, e.1 ≠ .connect s.call

theorem put_stream (s : Terminal) (source : Source) (dev : Modem) :
    (s.put source dev).stream = s.stream ++ (dev.out.drop s.dev.out.length).map fun b => (source, b) := by
  simp [Terminal.stream, Terminal.put]

theorem ring_keeps {out : List Byte} (h : out.length ≤ modemOutSize - 1) (bs : List Byte) :
    out ++ (ring out bs).drop out.length = ring out bs := by
  rw [ring_eq h, List.drop_append_length]

theorem put_queue {s : Terminal} (h : Sound s) (source : Source) {dev : Modem} {bs : List Byte}
    (hout : dev.out = ring s.dev.out bs) :
    (s.put source dev).queue.map Prod.snd = dev.out ∧ dev.out.length ≤ modemOutSize - 1 := by
  constructor
  · have hmap : (s.put source dev).queue.map Prod.snd = s.queue.map Prod.snd ++ dev.out.drop s.dev.out.length := by
      simp [Terminal.put, Function.comp_def]
    rw [hmap, h.queue, hout, ring_keeps h.room]
  · rw [hout]
    exact ring_length h.room bs

theorem Sound.wait {s : Terminal} (h : Sound s) (elapsed : ℕ) : Sound { s with now := s.now + elapsed } := by
  refine ⟨h.carrier, h.room, h.queue, h.lines, h.calls, h.order, h.unlined, h.unsaid, fun hstate hsaid => ?_,
    fun hstate => ?_⟩
  · obtain ⟨d, hqueued, htime, hdeadline⟩ := h.said hstate hsaid
    exact ⟨d, hqueued, Nat.le_add_right_of_le htime, hdeadline⟩
  · obtain ⟨d, hqueued, htime, hread⟩ := h.online hstate
    exact ⟨d, hqueued, Nat.le_add_right_of_le htime, hread⟩

theorem put_mem {s : Terminal} {source : Source} {dev : Modem} {e : Source × Byte}
    (he : e ∈ (s.put source dev).stream) : e ∈ s.stream ∨ e.1 = source := by
  rw [put_stream] at he
  rcases List.mem_append.mp he with he | he
  · exact Or.inl he
  · obtain ⟨b, -, rfl⟩ := List.mem_map.mp he
    exact Or.inr rfl

theorem put_queue_mem {s : Terminal} {source : Source} {dev : Modem} {e : Source × Byte}
    (he : e ∈ (s.put source dev).queue) : e ∈ s.queue ∨ e.1 = source := by
  rcases List.mem_append.mp he with he | he
  · exact Or.inl he
  · obtain ⟨b, -, rfl⟩ := List.mem_map.mp he
    exact Or.inr rfl

theorem put_lines (s : Terminal) {source : Source} (h : ∀ n, source ≠ .line n) (dev : Modem) :
    (s.put source dev).stream.filterMap lineByte = s.stream.filterMap lineByte := by
  rw [put_stream, List.filterMap_append, List.filterMap_map]
  have hnone : lineByte ∘ (fun b => (source, b)) = fun _ => none := by
    funext b
    cases source with
    | other => rfl
    | connect n => rfl
    | line n => exact absurd rfl (h n)
  rw [hnone]
  simp

theorem put_connects (s : Terminal) {source : Source} (h : source ≠ .connect s.call) (dev : Modem) :
    (s.put source dev).stream.filterMap (connectByte s.call) = s.stream.filterMap (connectByte s.call) := by
  rw [put_stream, List.filterMap_append, List.filterMap_map]
  have hnone : connectByte s.call ∘ (fun b => (source, b)) = fun _ => none := by
    funext b
    exact if_neg h
  rw [hnone]
  simp

theorem put_order {s : Terminal} (h : Sound s) {source : Source} (dev : Modem)
    (hsource : ∀ n, source = .connect n → ∀ e ∈ s.stream, e.1 ≠ .line n) :
    (s.put source dev).stream.Pairwise fun x y => ∀ n, x.1 = .line n → y.1 ≠ .connect n := by
  rw [put_stream]
  apply List.pairwise_append.mpr
  refine ⟨h.order, ?_, ?_⟩
  · apply List.pairwise_map.mpr
    apply List.pairwise_of_forall
    rintro b b' n hline hconnect
    exact nomatch hline.symm.trans hconnect
  · intro x hx y hy n hline hconnect
    obtain ⟨b, -, rfl⟩ := List.mem_map.mp hy
    exact hsource n hconnect x hx hline

theorem Sound.put {s : Terminal} (h : Sound s) {dev : Modem} (hcalled : Called s.dev dev)
    (hcarrier : Carrier dev) : Sound (s.put .other dev) := by
  obtain ⟨bs, hout⟩ := hcalled.out
  obtain ⟨hqueue, hroom⟩ := put_queue h .other hout
  have hother : Source.other ≠ .connect s.call := fun hn => nomatch hn
  have hqueued : ∀ d, s.Queued d → (s.put .other dev).Queued d := by
    rintro d ⟨hsaid, htext⟩
    exact ⟨hsaid, (put_connects s hother dev).trans htext⟩
  have hsaid : dev.state = .answering → s.dev.state = .answering ∧ dev.saidConnect = s.dev.saidConnect ∧
      dev.deadline = s.dev.deadline := hcalled.answering
  constructor
  · exact hcarrier
  · exact hroom
  · exact hqueue
  · exact (put_lines s (fun n (hn : Source.other = .line n) => nomatch hn) dev).trans h.lines
  · intro e he n hn
    rcases put_mem he with he | he
    · exact h.calls e he n hn
    · rw [he] at hn
      rcases hn with hn | hn <;> cases hn
  · exact put_order h dev fun n hn => nomatch hn
  · intro hstate e he
    rcases put_mem he with he | he
    · exact h.unlined (hsaid hstate).1 e he
    · rw [he]
      exact fun hn => nomatch hn
  · intro hstate hunsaid e he
    obtain ⟨hwas, heq, -⟩ := hsaid hstate
    rcases put_mem he with he | he
    · exact h.unsaid hwas (heq.symm.trans hunsaid) e he
    · rw [he]
      exact fun hn => nomatch hn
  · intro hstate hconnect
    obtain ⟨hwas, heq, hdeadline⟩ := hsaid hstate
    obtain ⟨d, hd, htime, hset⟩ := h.said hwas (heq.symm.trans hconnect)
    exact ⟨d, hqueued d hd, htime, hdeadline.trans hset⟩
  · intro hstate
    obtain ⟨d, hd, htime, hread⟩ := h.online (hcalled.online hstate)
    refine ⟨d, hqueued d hd, htime, fun e he => ?_⟩
    rcases put_queue_mem he with he | he
    · exact hread e he
    · rw [he]
      exact fun hn => nomatch hn

theorem put_same (s : Terminal) (source : Source) {dev : Modem} (hout : dev.out = s.dev.out) :
    s.put source dev = { s with dev := dev } := by
  unfold Terminal.put
  rw [hout, List.drop_length, List.map_nil, List.append_nil]

theorem Sound.answered {s : Terminal} (h : Sound s) (now : BitVec 32)
    (hcarrier : Carrier (modemAnswered s.dev now)) :
    Sound { s with dev := modemAnswered s.dev now, call := s.call + 1, said := none } := by
  have hnew : ∀ e ∈ s.stream, e.1 ≠ .line (s.call + 1) ∧ e.1 ≠ .connect (s.call + 1) := by
    intro e he
    constructor <;> intro hn
    · exact absurd (h.calls e he _ (Or.inl hn)) (by omega)
    · exact absurd (h.calls e he _ (Or.inr hn)) (by omega)
  constructor
  · exact hcarrier
  · exact h.room
  · exact h.queue
  · exact h.lines
  · exact fun e he n hn => Nat.le_succ_of_le (h.calls e he n hn)
  · exact h.order
  · exact fun _ e he => (hnew e he).1
  · exact fun _ _ e he => (hnew e he).2
  · exact fun _ hsaid => absurd (hsaid : false = true) Bool.false_ne_true
  · exact fun honline => nomatch (honline : LineState.answering = .online)

theorem Sound.connect {s : Terminal} (h : Sound s) {dev : Modem} (hstate : s.dev.state = .answering)
    (hunsaid : s.dev.saidConnect = false) (hcarrier : Carrier dev) (hanswering : dev.state = .answering)
    (hout : dev.out = ring s.dev.out (resultLine s.dev (some .connect)))
    (hdeadline : dev.deadline = BitVec.ofNat 32 s.now + modemSettleMs) (hsaid : dev.saidConnect = true) :
    Sound
      { s.put (.connect s.call) dev with
        said := some
          { time := s.now, text := resultLine s.dev (some .connect)
            room := modemOutSize - 1 - s.dev.out.length } } := by
  obtain ⟨hqueue, hroom⟩ := put_queue h (.connect s.call) hout
  constructor
  · exact hcarrier
  · exact hroom
  · exact hqueue
  · exact (put_lines s (fun n (hn : Source.connect s.call = .line n) => nomatch hn) dev).trans h.lines
  · intro e (he : e ∈ (s.put (.connect s.call) dev).stream) n hn
    rcases put_mem he with he | he
    · exact h.calls e he n hn
    · rw [he] at hn
      rcases hn with hn | hn
      · cases hn
      · exact Nat.le_of_eq (Source.connect.inj hn).symm
  · apply put_order h dev
    intro n hn
    rw [← Source.connect.inj hn]
    exact h.unlined hstate
  · intro _ e (he : e ∈ (s.put (.connect s.call) dev).stream)
    rcases put_mem he with he | he
    · exact h.unlined hstate e he
    · rw [he]
      exact fun hn => nomatch hn
  · exact fun _ hno => nomatch hsaid.symm.trans hno
  · intro _ _
    refine ⟨_, ⟨rfl, ?_⟩, Nat.le_refl _, hdeadline⟩
    change (s.put (.connect s.call) dev).stream.filterMap (connectByte s.call) = _
    rw [put_stream, List.filterMap_append, List.filterMap_map, hout, ring_eq h.room, List.drop_append_length]
    have hnone : s.stream.filterMap (connectByte s.call) = [] :=
      List.filterMap_eq_nil_iff.mpr fun e he => if_neg (h.unsaid hstate hunsaid e he)
    have hall : connectByte s.call ∘ (fun b => (Source.connect s.call, b)) = some := by
      funext b
      exact if_pos rfl
    rw [hnone, hall, List.filterMap_some, List.nil_append]
  · exact fun honline => nomatch hanswering.symm.trans honline

theorem settle_passed {time now : ℕ} (h : time ≤ now)
    (hpassed : ¬ (BitVec.ofNat 32 now - (BitVec.ofNat 32 time + modemSettleMs)).toInt < 0) :
    time + 100 ≤ now := by
  by_contra hshort
  obtain ⟨k, rfl⟩ := Nat.exists_eq_add_of_le h
  have hbefore : ∀ k < 100, (BitVec.ofNat 32 k - modemSettleMs).toInt < 0 := by decide
  have hclock : BitVec.ofNat 32 (time + k) - (BitVec.ofNat 32 time + modemSettleMs) =
      BitVec.ofNat 32 k - modemSettleMs := by
    rw [BitVec.ofNat_add]
    generalize BitVec.ofNat 32 time = since
    bv_omega
  rw [hclock] at hpassed
  exact hpassed (hbefore k (by omega))

theorem Sound.goOnline {s : Terminal} (h : Sound s) (hstate : s.dev.state = .answering)
    (hsaid : s.dev.saidConnect = true) (hpassed : ¬ (BitVec.ofNat 32 s.now - s.dev.deadline).toInt < 0)
    (hdrained : s.dev.out = []) (hcarrier : Carrier (modemOnline s.dev)) :
    Sound { s with dev := modemOnline s.dev } := by
  obtain ⟨d, hqueued, htime, hdeadline⟩ := h.said hstate hsaid
  constructor
  · exact hcarrier
  · exact h.room
  · exact h.queue
  · exact h.lines
  · exact h.calls
  · exact h.order
  · exact fun hanswering => nomatch (hanswering : LineState.online = .answering)
  · exact fun hanswering => nomatch (hanswering : LineState.online = .answering)
  · exact fun hanswering => nomatch (hanswering : LineState.online = .answering)
  · intro _
    refine ⟨d, hqueued, ?_, fun e he => ?_⟩
    · rw [hdeadline] at hpassed
      exact settle_passed htime hpassed
    · have hnone : s.queue = [] := by
        have hqueue := h.queue
        rw [hdrained] at hqueue
        exact List.map_eq_nil_iff.mp hqueue
      rw [hnone] at he
      exact absurd he List.not_mem_nil

theorem Sound.pollLine {s : Terminal} (h : Sound s) (host : Host) (hnow : host.now = BitVec.ofNat 32 s.now) :
    Sound (s.pollLine host) := by
  have hcarrier := h.carrier.pollLine host
  have hpoll := modemPollLine_polled host s.dev
  unfold Terminal.pollLine
  dsimp only
  generalize modemPollLine host s.dev = dev at hcarrier hpoll ⊢
  cases hpoll with
  | quiet _ called =>
    rw [if_neg, if_neg]
    · exact h.put called hcarrier
    · rintro ⟨-, hstate, hsaid⟩
      exact hsaid (called.answering hstate).2.1.symm
    · rintro ⟨hconnecting, hstate⟩
      exact nomatch hconnecting.symm.trans (called.answering hstate).1
  | answered state =>
    rw [if_pos ⟨state, rfl⟩, @put_same s .other (modemAnswered s.dev host.now) rfl]
    exact h.answered host.now hcarrier
  | said state unsaid =>
    have hnot : ¬ (s.dev.state = .connecting ∧ (modemResult s.dev (some .connect)).state = .answering) :=
      fun hconnecting => nomatch hconnecting.1.symm.trans state
    rw [modemResult_eq] at hcarrier hnot ⊢
    rw [if_neg hnot, if_pos ⟨state, state, by simp [unsaid]⟩]
    exact h.connect state unsaid hcarrier state rfl (by rw [hnow]) rfl
  | online state said passed drained =>
    have hnot : ∀ P : Prop, ¬ (P ∧ (modemOnline s.dev).state = .answering) :=
      fun P hanswering => nomatch (hanswering.2 : LineState.online = .answering)
    rw [if_neg (hnot _), if_neg fun hanswering => hnot _ ⟨hanswering.1, hanswering.2.1⟩,
      @put_same s .other (modemOnline s.dev) rfl]
    rw [hnow] at passed
    exact h.goOnline state said passed drained hcarrier

theorem Sound.silence {s : Terminal} (h : Sound s) (now : BitVec 32) : Sound (s.silence now) :=
  h.put (modemSilence_called now s.dev) (h.carrier.silence now)

theorem Sound.receive {s : Terminal} (h : Sound s) (received : Received) : Sound (s.receive received) := by
  have hcarrier := h.carrier.receive received
  have hdata := modemReceive_data received h.room
  have hfits := lineData_length received s.dev
  unfold Terminal.receive
  dsimp only
  generalize modemReceive received s.dev = dev at hcarrier hdata ⊢
  generalize lineData received s.dev = data at hdata hfits ⊢
  rcases hdata with ⟨hsome, honline, hdev⟩ | ⟨hnone, hcalled⟩
  · have hstate : dev.state = .online := by
      rw [hdev]
      exact h.carrier.online honline
    have hdrop : dev.out.drop s.dev.out.length = data := by
      rw [hdev]
      exact List.drop_left
    have hnot : dev.state ≠ .answering := fun hanswering => nomatch hstate.symm.trans hanswering
    have hline : Source.line s.call ≠ .connect s.call := fun hn => nomatch hn
    rw [if_neg hsome]
    constructor
    · exact hcarrier
    · change dev.out.length ≤ modemOutSize - 1
      have hroom := h.room
      rw [hdev, List.length_append]
      omega
    · change (s.put (.line s.call) dev).queue.map Prod.snd = dev.out
      have hmap : (s.put (.line s.call) dev).queue.map Prod.snd = s.queue.map Prod.snd ++ data := by
        simp [Terminal.put, Function.comp_def, hdrop]
      rw [hmap, h.queue, hdev]
    · change (s.put (.line s.call) dev).stream.filterMap lineByte = _
      have hall : lineByte ∘ (fun b => (Source.line s.call, b)) = some ∘ fun b => (s.call, b) := rfl
      rw [put_stream, List.filterMap_append, List.filterMap_map, h.lines, hdrop, hall, List.filterMap_eq_map]
    · intro e (he : e ∈ (s.put (.line s.call) dev).stream) n hn
      rcases put_mem he with he | he
      · exact h.calls e he n hn
      · rw [he] at hn
        rcases hn with hn | hn
        · exact Nat.le_of_eq (Source.line.inj hn).symm
        · cases hn
    · exact put_order h dev fun n hn => nomatch hn
    · exact fun hanswering => absurd hanswering hnot
    · exact fun hanswering => absurd hanswering hnot
    · exact fun hanswering => absurd hanswering hnot
    · intro _
      obtain ⟨d, ⟨hsaid, htext⟩, htime, hread⟩ := h.online (h.carrier.online honline)
      refine ⟨d, ⟨hsaid, (put_connects s hline dev).trans htext⟩, htime, fun e he => ?_⟩
      rcases put_queue_mem he with he | he
      · exact hread e he
      · rw [he]
        exact hline
  · rw [if_pos hnone]
    exact h.put hcalled hcarrier

theorem drain_stream (s : Terminal) (len : ℕ) : (s.drain len).stream = s.stream := by
  change s.read ++ s.queue.take len ++ s.queue.drop len = s.read ++ s.queue
  rw [List.append_assoc, List.take_append_drop]

theorem Sound.drain {s : Terminal} (h : Sound s) (len : ℕ) : Sound (s.drain len) := by
  have hstream := drain_stream s len
  constructor
  · exact h.carrier.out _
  · change (s.dev.out.drop len).length ≤ modemOutSize - 1
    rw [List.length_drop]
    exact (Nat.sub_le _ _).trans h.room
  · change (s.queue.drop len).map Prod.snd = s.dev.out.drop len
    rw [List.map_drop, h.queue]
  · exact (congrArg (List.filterMap lineByte) hstream).trans h.lines
  · rw [hstream]
    exact h.calls
  · rw [hstream]
    exact h.order
  · rw [hstream]
    exact h.unlined
  · rw [hstream]
    exact h.unsaid
  · intro hstate hsaid
    obtain ⟨d, ⟨hd, htext⟩, htime⟩ := h.said hstate hsaid
    exact ⟨d, ⟨hd, (congrArg (List.filterMap _) hstream).trans htext⟩, htime⟩
  · intro hstate
    obtain ⟨d, ⟨hd, htext⟩, htime, hread⟩ := h.online hstate
    refine ⟨d, ⟨hd, (congrArg (List.filterMap _) hstream).trans htext⟩, htime, fun e he => ?_⟩
    exact hread e (List.mem_of_mem_drop he)

/-- The modem as it is switched on. -/
def Terminal.start (dev : Modem) (now : ℕ) : Terminal := ⟨dev, now, 0, none, [], [], []⟩

theorem Sound.start (model : ModemModel) (line : Line) (connectRate : ℕ) (host ident firmware : List Byte)
    (now : ℕ) : Sound (.start (modemInit model line connectRate host ident firmware) now) := by
  have hidle : (modemInit model line connectRate host ident firmware).state = .idle := rfl
  constructor
  · exact Carrier.of_idle rfl rfl (Nat.zero_le 3)
  · exact Nat.zero_le _
  · rfl
  · rfl
  · exact fun e he => absurd he List.not_mem_nil
  · exact List.Pairwise.nil
  · exact fun hstate => nomatch hidle.symm.trans hstate
  · exact fun hstate => nomatch hidle.symm.trans hstate
  · exact fun hstate => nomatch hidle.symm.trans hstate
  · exact fun hstate => nomatch hidle.symm.trans hstate

theorem step_write {s s' : Terminal} {elapsed : ℕ} {connects : Bool} {connected : ℤ} {val : Byte}
    (hstep : s.step (.write elapsed connects connected val) = .ok s') :
    ∃ dev sent, modemWrite (hostAt (s.now + elapsed) connects connected) s.dev val = .ok (dev, sent) ∧
      s' = Terminal.put { s with now := s.now + elapsed } .other dev := by
  unfold Terminal.step at hstep
  dsimp only at hstep
  cases hrun : modemWrite (hostAt (s.now + elapsed) connects connected) s.dev val with
  | error fault =>
    rw [hrun] at hstep
    cases hstep
  | ok done =>
    rw [hrun, ok_bind] at hstep
    exact ⟨done.1, done.2, rfl, (Except.ok.inj hstep).symm⟩

theorem run_cons {s s' : Terminal} {e : Event} {events : List Event} (hrun : s.run (e :: events) = .ok s') :
    ∃ s₁, s.step e = .ok s₁ ∧ s₁.run events = .ok s' := by
  unfold Terminal.run at hrun
  rw [List.foldlM_cons] at hrun
  cases hstep : s.step e with
  | error fault =>
    rw [hstep] at hrun
    cases hrun
  | ok s₁ =>
    rw [hstep, ok_bind] at hrun
    exact ⟨s₁, rfl, hrun⟩

theorem Sound.step {s s' : Terminal} {e : Event} (h : Sound s) (hstep : s.step e = .ok s') : Sound s' := by
  cases e with
  | write elapsed connects connected val =>
    obtain ⟨dev, sent, hrun, rfl⟩ := step_write hstep
    apply (h.wait elapsed).put (modemWrite_called hrun)
    exact h.carrier.step (i := .write (hostAt (s.now + elapsed) connects connected) val) hrun
  | read elapsed connected received len =>
    obtain rfl := Except.ok.inj hstep
    have hpoll := (h.wait elapsed).pollLine (hostAt (s.now + elapsed) false connected) rfl
    exact ((hpoll.silence _).receive received).drain len
  | control dtr =>
    obtain rfl := Except.ok.inj hstep
    exact h.put (modemControl_called dtr s.dev) (h.carrier.control dtr)

theorem Sound.run {s s' : Terminal} {events : List Event} (h : Sound s) (hrun : s.run events = .ok s') :
    Sound s' := by
  induction events generalizing s with
  | nil =>
    obtain rfl := Except.ok.inj hrun
    exact h
  | cons e events ih =>
    obtain ⟨s₁, hstep, hrest⟩ := run_cons hrun
    exact ih (h.step hstep) hrest

end PeepeeBox.ModemSession
