import PeepeeBox.Cp80
import PeepeeBox.SerialReceive

set_option autoImplicit false

/-!
# What the guest hears from the printer

The printer's two timers hand their bytes to the port's shift register, which its receive timer
empties.
-/
namespace PeepeeBox.Cp80Replies
open Cp80 SerialReceive

structure Link where
  dev : Printer
  serial : Serial

def outTick (l : Link) : Link :=
  match l.dev.outQ with
  | [] => l
  | b :: rest =>
    if l.dev.connected then
      { dev := { l.dev with outQ := rest }
        serial := if l.dev.port = l.dev.outPort then writeFifo l.serial b else l.serial }
    else l

def enqTick (l : Link) : Link :=
  if l.dev.connected = false ∨ outPending l.dev then l else { l with serial := writeFifo l.serial enq }

def setConnected (d : Printer) (on : Bool) : Printer :=
  if d.connected = on then d
  else
    { d with
      connected := on
      transfer := if on then d.transfer else { d.transfer with active := false } }

inductive Event where
  /-- A byte from the guest. -/
  | host (val : Byte)
  | enq
  | reply
  | receive
  | read
  | status
  | plug (on : Bool)
deriving DecidableEq

structure Run where
  link : Link
  heard : List Byte
  commands : ℕ

def step (r : Run) : Event → Run
  | .host val =>
    { r with
      link := { r.link with dev := write r.link.dev val }
      commands := if val = 0x03 ∧ r.link.dev.connected then r.commands + 1 else r.commands }
  | .enq => { r with link := enqTick r.link }
  | .reply => { r with link := outTick r.link }
  | .receive => { r with link := { r.link with serial := receiveTimer r.link.serial } }
  | .read =>
    { r with
      link := { r.link with serial := (readData r.link.serial).2 }
      heard := r.heard ++ [(readData r.link.serial).1] }
  | .status => { r with link := { r.link with serial := (readStatus r.link.serial).2 } }
  | .plug on => { r with link := { r.link with dev := setConnected r.link.dev on } }

def run (r : Run) (events : List Event) : Run := events.foldl step r

/-- The ticks that hand over a byte. -/
def sends (l : Link) : Event → Bool
  | .enq => l.dev.connected ∧ outPending l.dev = false
  | .reply => l.dev.connected ∧ outPending l.dev
  | _ => false

/-- The receive timer comes between two ticks that hand over a byte, the guest takes what there is
and makes room for what comes, and it ends no command before it has the reply to the last one.
`free` is whether the receive timer has come. -/
def Fits (free : Bool) (l : Link) : Event → Prop
  | .host val => val = 0x03 → l.dev.connected = true → outPending l.dev = false
  | .receive => l.serial.outNew ≠ none → room l.serial = true
  | .read => ready l.serial = true
  | e => sends l e = true → free = true

def freed (free : Bool) (l : Link) (e : Event) : Bool := if e = .receive then true else free && !sends l e

def Paced : Bool → Run → List Event → Prop
  | _, _, [] => True
  | free, r, e :: events => Fits free r.link e ∧ Paced (freed free r.link e) (step r e) events

def freedAfter : Bool → Run → List Event → Bool
  | free, _, [] => free
  | free, r, e :: events => freedAfter (freed free r.link e) (step r e) events

instance decidableFits (free : Bool) (l : Link) (e : Event) : Decidable (Fits free l e) :=
  match e with
  | .host val => inferInstanceAs (Decidable (val = 0x03 → l.dev.connected = true → outPending l.dev = false))
  | .receive => inferInstanceAs (Decidable (l.serial.outNew ≠ none → room l.serial = true))
  | .read => inferInstanceAs (Decidable (ready l.serial = true))
  | .enq => inferInstanceAs (Decidable (sends l .enq = true → free = true))
  | .reply => inferInstanceAs (Decidable (sends l .reply = true → free = true))
  | .status => inferInstanceAs (Decidable (sends l .status = true → free = true))
  | .plug on => inferInstanceAs (Decidable (sends l (.plug on) = true → free = true))

instance decidablePaced : (free : Bool) → (r : Run) → (events : List Event) → Decidable (Paced free r events)
  | _, _, [] => .isTrue trivial
  | free, r, e :: events =>
    @instDecidableAnd _ _ (decidableFits free r.link e) (decidablePaced (freed free r.link e) (step r e) events)

/-- What the guest is to hear. -/
inductive Token where
  | enq
  | line
deriving DecidableEq

def Token.bytes : Token → List Byte
  | .enq => [Cp80.enq]
  | .line => reply

/-- The bytes between the printer and the guest, in their order. -/
def way (l : Link) : List Byte := buffered l.serial ++ (l.serial.outNew.toList ++ l.dev.outQ)

structure Whole (free : Bool) (r : Run) : Prop where
  listening : Listening r.link.serial
  slot : free = true ↔ r.link.serial.outNew = none
  port : r.link.dev.outQ ≠ [] → r.link.dev.port = r.link.dev.outPort
  stream : ∃ tokens : List Token, r.heard ++ way r.link = tokens.flatMap Token.bytes ∧
    tokens.count .line = r.commands

theorem outPending_iff (d : Printer) : outPending d = true ↔ d.outQ ≠ [] := decide_eq_true_iff

theorem outPending_false (d : Printer) : outPending d = false ↔ d.outQ = [] := by
  unfold outPending
  simp

theorem say_room (d : Printer) (port : ℕ) (bytes : List Byte) (hroom : d.outQ.length + bytes.length < outMax) :
    say d port bytes = { d with outQ := d.outQ ++ bytes, outPort := port } := by
  induction bytes generalizing d with
  | nil =>
    unfold say
    rw [List.append_nil]
  | cons b bytes ih =>
    rw [List.length_cons] at hroom
    unfold say
    rw [if_neg (by omega), ih]
    · dsimp only
      rw [List.append_assoc]
      rfl
    · dsimp only
      rw [List.length_append, List.length_singleton]
      omega

theorem write_queue (d : Printer) (val : Byte) :
    (write d val).connected = d.connected ∧ (write d val).port = d.port ∧
      if val = 0x03 ∧ d.connected = true ∧ d.outQ = [] then
        (write d val).outQ = reply ∧ (write d val).outPort = d.port
      else (write d val).outQ = d.outQ ∧ (write d val).outPort = d.outPort := by
  unfold write
  dsimp only
  by_cases hsay : val = 0x03 ∧ d.connected = true ∧ d.outQ = []
  · have hpending : outPending { d with
        transfer := transferByte d.transfer val, parser := byte d.parser val } = false :=
      (outPending_false _).mpr hsay.2.2
    rw [if_pos hsay, if_pos ⟨hsay.1, hsay.2.1, hpending⟩, say_room]
    · dsimp only
      rw [hsay.2.2, List.nil_append]
      exact ⟨rfl, rfl, rfl, rfl⟩
    · dsimp only
      rw [hsay.2.2]
      decide
  · rw [if_neg hsay, if_neg]
    · exact ⟨rfl, rfl, rfl, rfl⟩
    · rintro ⟨hval, hconnected, hpending⟩
      exact hsay ⟨hval, hconnected, (outPending_false _).mp hpending⟩

section
variable {free : Bool} {r : Run} (h : Whole free r)
include h

theorem host_whole {val : Byte} (hfits : Fits free r.link (.host val)) :
    Whole (freed free r.link (.host val)) (step r (.host val)) := by
  have hsame : freed free r.link (.host val) = free := by
    unfold freed sends
    rw [if_neg (fun h => nomatch h)]
    exact Bool.and_true free
  obtain ⟨tokens, hstream, hcount⟩ := h.stream
  obtain ⟨-, hport, hqueue⟩ := write_queue r.link.dev val
  rw [hsame]
  by_cases hetx : val = 0x03 ∧ r.link.dev.connected = true
  · have hempty := (outPending_false _).mp (hfits hetx.1 hetx.2)
    rw [if_pos ⟨hetx.1, hetx.2, hempty⟩] at hqueue
    refine ⟨h.listening, h.slot, fun _ => hport.trans hqueue.2.symm, tokens ++ [.line], ?_, ?_⟩
    · unfold step way
      dsimp only
      rw [hqueue.1, List.flatMap_append, List.flatMap_singleton, ← hstream]
      unfold way
      rw [hempty]
      simp only [List.append_nil, List.append_assoc]
      rfl
    · unfold step
      dsimp only
      rw [if_pos hetx, List.count_append, hcount]
      rfl
  · rw [if_neg (fun h' => hetx ⟨h'.1, h'.2.1⟩)] at hqueue
    refine ⟨h.listening, h.slot, ?_, tokens, ?_, ?_⟩
    · unfold step
      dsimp only
      rw [hqueue.1, hqueue.2, hport]
      exact h.port
    · rw [← hstream]
      unfold step way
      dsimp only
      rw [hqueue.1]
    · unfold step
      dsimp only
      rw [if_neg hetx, hcount]

theorem enq_whole (hfits : Fits free r.link .enq) : Whole (freed free r.link .enq) (step r .enq) := by
  obtain ⟨tokens, hstream, hcount⟩ := h.stream
  have hfreed : freed free r.link .enq = (free && !sends r.link .enq) := if_neg (fun h => nomatch h)
  rw [hfreed]
  unfold step enqTick
  dsimp only
  by_cases hsends : sends r.link .enq = true
  · have hboth : r.link.dev.connected = true ∧ outPending r.link.dev = false := of_decide_eq_true hsends
    have hempty := (outPending_false _).mp hboth.2
    have hslot := h.slot.mp (hfits hsends)
    have hnot : ¬ (r.link.dev.connected = false ∨ outPending r.link.dev = true) := by
      rw [hboth.1, hboth.2]
      decide
    rw [if_neg hnot, writeFifo_eq h.listening, hsends]
    refine ⟨⟨h.listening.loopback, h.listening.dlab, h.listening.status⟩, ?_, h.port, tokens ++ [.enq], ?_, ?_⟩
    · simp
    · rw [List.flatMap_append, List.flatMap_singleton, ← hstream]
      unfold way
      dsimp only
      rw [hempty, hslot]
      simp only [Option.toList_none, Option.toList_some, List.append_nil, List.append_assoc]
      rfl
    · rw [List.count_append, hcount]
      rfl
  · have hyes : r.link.dev.connected = false ∨ outPending r.link.dev = true := by
      unfold sends at hsends
      by_contra hnot
      rw [not_or, Bool.not_eq_false, Bool.not_eq_true] at hnot
      exact hsends (decide_eq_true hnot)
    rw [if_pos hyes, Bool.eq_false_iff.mpr hsends]
    exact ⟨h.listening, by simpa using h.slot, h.port, tokens, hstream, hcount⟩

theorem reply_whole (hfits : Fits free r.link .reply) : Whole (freed free r.link .reply) (step r .reply) := by
  obtain ⟨tokens, hstream, hcount⟩ := h.stream
  have hfreed : freed free r.link .reply = (free && !sends r.link .reply) := if_neg (fun h => nomatch h)
  rw [hfreed]
  unfold step outTick
  dsimp only
  cases hqueue : r.link.dev.outQ with
  | nil =>
    have hnot : sends r.link .reply = false := by
      unfold sends
      rw [(outPending_false _).mpr hqueue]
      simp
    rw [hnot]
    exact ⟨h.listening, by simpa using h.slot, h.port, tokens, hstream, hcount⟩
  | cons b rest =>
    have hpending : outPending r.link.dev = true := (outPending_iff _).mpr (by rw [hqueue]; exact fun h => nomatch h)
    dsimp only
    by_cases hconnected : r.link.dev.connected = true
    · have hsends : sends r.link .reply = true := decide_eq_true ⟨hconnected, hpending⟩
      have hslot := h.slot.mp (hfits hsends)
      have hport := h.port ((outPending_iff _).mp hpending)
      rw [if_pos hconnected, if_pos hport, writeFifo_eq h.listening, hsends]
      refine ⟨⟨h.listening.loopback, h.listening.dlab, h.listening.status⟩, ?_, fun _ => hport, tokens, ?_, hcount⟩
      · simp
      · rw [← hstream]
        unfold way
        dsimp only
        rw [hqueue, hslot]
        rfl
    · have hnot : sends r.link .reply = false := by
        unfold sends
        simp [hconnected]
      rw [if_neg hconnected, hnot]
      exact ⟨h.listening, by simpa using h.slot, h.port, tokens, hstream, hcount⟩

theorem receive_whole (hfits : Fits free r.link .receive) :
    Whole (freed free r.link .receive) (step r .receive) := by
  obtain ⟨tokens, hstream, hcount⟩ := h.stream
  have hfreed : freed free r.link .receive = true := if_pos rfl
  rw [hfreed]
  unfold step
  dsimp only
  cases hnew : r.link.serial.outNew with
  | none =>
    rw [receive_none hnew]
    exact ⟨h.listening, ⟨fun _ => hnew, fun _ => rfl⟩, h.port, tokens, hstream, hcount⟩
  | some b =>
    have hroom := hfits (by rw [hnew]; exact fun h => nomatch h)
    obtain ⟨hlistening, hbuffered, hslot⟩ := receive_some h.listening hnew hroom
    refine ⟨hlistening, ⟨fun _ => hslot, fun _ => rfl⟩, h.port, tokens, ?_, hcount⟩
    rw [← hstream]
    unfold way
    dsimp only
    rw [hbuffered, hslot, hnew]
    simp only [Option.toList_none, Option.toList_some, List.nil_append, List.append_assoc]

theorem read_whole (hfits : Fits free r.link .read) : Whole (freed free r.link .read) (step r .read) := by
  obtain ⟨tokens, hstream, hcount⟩ := h.stream
  have hsame : freed free r.link .read = free := Bool.and_true free
  rw [hsame]
  obtain ⟨hlistening, hbuffered, hslot⟩ := read_ready h.listening hfits
  refine ⟨hlistening, h.slot.trans (by unfold step; dsimp only; rw [hslot]), h.port, tokens, ?_, hcount⟩
  rw [← hstream]
  unfold step way
  dsimp only
  rw [hbuffered, hslot]
  simp only [List.append_assoc, List.cons_append, List.nil_append]

theorem status_whole : Whole (freed free r.link .status) (step r .status) := by
  obtain ⟨tokens, hstream, hcount⟩ := h.stream
  have hsame : freed free r.link .status = free := Bool.and_true free
  rw [hsame]
  obtain ⟨hlistening, hbuffered, hslot⟩ := status_same h.listening
  refine ⟨hlistening, h.slot.trans (by unfold step; dsimp only; rw [hslot]), h.port, tokens, ?_, hcount⟩
  rw [← hstream]
  unfold step way
  dsimp only
  rw [hbuffered, hslot]

theorem plug_whole (on : Bool) : Whole (freed free r.link (.plug on)) (step r (.plug on)) := by
  obtain ⟨tokens, hstream, hcount⟩ := h.stream
  have hsame : freed free r.link (.plug on) = free := by
    unfold freed sends
    rw [if_neg (fun h => nomatch h)]
    exact Bool.and_true free
  rw [hsame]
  unfold step setConnected
  dsimp only
  split
  · exact ⟨h.listening, h.slot, h.port, tokens, hstream, hcount⟩
  · exact ⟨h.listening, h.slot, h.port, tokens, hstream, hcount⟩

theorem step_whole {e : Event} (hfits : Fits free r.link e) : Whole (freed free r.link e) (step r e) := by
  cases e with
  | host val => exact host_whole h hfits
  | enq => exact enq_whole h hfits
  | reply => exact reply_whole h hfits
  | receive => exact receive_whole h hfits
  | read => exact read_whole h hfits
  | status => exact status_whole h
  | plug on => exact plug_whole h on

end

theorem run_append (r : Run) (before after : List Event) : run r (before ++ after) = run (run r before) after :=
  List.foldl_append

theorem paced_append {free : Bool} {r : Run} {before after : List Event} :
    Paced free r (before ++ after) ↔
      Paced free r before ∧ Paced (freedAfter free r before) (run r before) after := by
  induction before generalizing free r with
  | nil => exact ⟨fun h => ⟨trivial, h⟩, And.right⟩
  | cons e before ih => exact (and_congr_right fun _ => ih).trans and_assoc.symm

theorem run_whole {free : Bool} {r : Run} (h : Whole free r) {events : List Event} (hpaced : Paced free r events) :
    Whole (freedAfter free r events) (run r events) := by
  induction events generalizing free r with
  | nil => exact h
  | cons e events ih => exact ih (step_whole h hpaced.1) hpaced.2

theorem sends_empty {free : Bool} {r : Run} (h : Whole free r) {e : Event} (hfits : Fits free r.link e)
    (hsends : sends r.link e = true) : r.link.serial.outNew = none := by
  cases e with
  | enq => exact h.slot.mp (hfits hsends)
  | reply => exact h.slot.mp (hfits hsends)
  | _ => exact absurd hsends Bool.false_ne_true

def distance (l : Link) : ℕ :=
  (buffered l.serial).length + (2 * l.serial.outNew.toList.length + 3 * l.dev.outQ.length)

def onward (l : Link) : Option Event :=
  if ready l.serial then some .read
  else if l.serial.outNew ≠ none then some .receive
  else if outPending l.dev then some .reply
  else none

theorem onward_none {l : Link} (h : Listening l.serial) (hnone : onward l = none) : way l = [] := by
  unfold onward at hnone
  split at hnone
  · cases hnone
  · rename_i hready
    split at hnone
    · cases hnone
    · rename_i hslot
      split at hnone
      · cases hnone
      · rename_i hpending
        have hbuffered := not_not.mp (mt h.ready_iff.mpr hready)
        have hqueue := not_not.mp (mt (outPending_iff _).mpr hpending)
        unfold way
        rw [hbuffered, not_not.mp hslot, hqueue]
        rfl

theorem onward_step {free : Bool} {r : Run} (h : Whole free r) (hconnected : r.link.dev.connected = true) {e : Event}
    (honward : onward r.link = some e) :
    Fits free r.link e ∧ (step r e).link.dev.connected = true ∧ (step r e).commands = r.commands ∧
      distance (step r e).link < distance r.link := by
  unfold onward at honward
  split at honward
  · rename_i hready
    cases honward
    obtain ⟨-, hbuffered, hslot⟩ := read_ready h.listening hready
    refine ⟨hready, hconnected, rfl, ?_⟩
    unfold step distance
    dsimp only
    rw [hbuffered, hslot, List.length_cons]
    omega
  · rename_i hready
    have hempty := not_not.mp (mt h.listening.ready_iff.mpr hready)
    split at honward
    · rename_i hnew
      cases honward
      obtain ⟨b, hb⟩ := Option.ne_none_iff_exists'.mp hnew
      have hroom : room r.link.serial = true := by
        unfold room
        rw [hempty]
        apply decide_eq_true
        split
        · exact Nat.succ_pos 15
        · exact Nat.one_pos
      obtain ⟨-, hbuffered, hslot⟩ := receive_some h.listening hb hroom
      refine ⟨fun _ => hroom, hconnected, rfl, ?_⟩
      unfold step distance
      dsimp only
      rw [hbuffered, hslot, hb, hempty]
      simp only [Option.toList_none, Option.toList_some, List.nil_append, List.length_nil, List.length_singleton]
      omega
    · rename_i hslot
      split at honward
      · rename_i hpending
        cases honward
        obtain ⟨b, rest, hqueue⟩ := List.exists_cons_of_ne_nil ((outPending_iff _).mp hpending)
        refine ⟨fun _ => h.slot.mpr (not_not.mp hslot), ?_, rfl, ?_⟩
        · unfold step outTick
          dsimp only
          rw [hqueue]
          dsimp only
          rw [if_pos hconnected]
          exact hconnected
        · unfold step outTick distance
          dsimp only
          rw [hqueue]
          dsimp only
          rw [if_pos hconnected, if_pos (h.port ((outPending_iff _).mp hpending)), writeFifo_eq h.listening]
          have hsame : buffered { r.link.serial with outNew := some b } = buffered r.link.serial := rfl
          rw [hsame, not_not.mp hslot]
          simp only [Option.toList_none, Option.toList_some, List.length_nil, List.length_cons]
          omega
      · cases honward

theorem drained {free : Bool} {r : Run} (h : Whole free r) (hconnected : r.link.dev.connected = true) :
    ∃ more, Paced free r more ∧ way (run r more).link = [] ∧ (run r more).commands = r.commands := by
  induction hn : distance r.link using Nat.strongRecOn generalizing free r with
  | _ n ih =>
    cases honward : onward r.link with
    | none => exact ⟨[], trivial, onward_none h.listening honward, rfl⟩
    | some e =>
      obtain ⟨hfits, hconnected', hcommands, hless⟩ := onward_step h hconnected honward
      obtain ⟨more, hpaced, hway, hsame⟩ := ih _ (hn ▸ hless) (step_whole h hfits) hconnected' rfl
      exact ⟨e :: more, ⟨hfits, hpaced⟩, hway, hsame.trans hcommands⟩

/-- A port with nothing in its receiver. -/
structure Quiet (s : Serial) : Prop where
  listening : Listening s
  buffered : buffered s = []
  slot : s.outNew = none

def start (port : ℕ) (s : Serial) : Run where
  link := { dev := init port, serial := s }
  heard := []
  commands := 0

theorem start_whole (port : ℕ) {s : Serial} (hquiet : Quiet s) : Whole true (start port s) := by
  refine ⟨hquiet.listening, ⟨fun _ => hquiet.slot, fun _ => rfl⟩, fun h => absurd rfl h, [], ?_, rfl⟩
  unfold start way
  dsimp only
  rw [hquiet.buffered, hquiet.slot]
  rfl

/-- The guest hears ENQs and whole lines, one for each command, and no byte is overwritten on the way. -/
theorem replies_whole (port : ℕ) (s : Serial) (hquiet : Quiet s) (events : List Event)
    (hpaced : Paced true (start port s) events) :
    (∃ tokens : List Token, (run (start port s) events).heard ++ way (run (start port s) events).link =
      tokens.flatMap Token.bytes ∧ tokens.count .line = (run (start port s) events).commands) ∧
    (∀ before e after, events = before ++ e :: after → sends (run (start port s) before).link e = true →
      (run (start port s) before).link.serial.outNew = none) ∧
    ∃ more, Paced true (start port s) (events ++ .plug true :: more) ∧
      ∃ tokens : List Token, (run (start port s) (events ++ .plug true :: more)).heard = tokens.flatMap Token.bytes ∧
        tokens.count .line = (run (start port s) events).commands := by
  have hstart := start_whole port hquiet
  have hwhole := run_whole hstart hpaced
  refine ⟨hwhole.stream, ?_, ?_⟩
  · rintro before e after rfl
    obtain ⟨hbefore, hafter⟩ := paced_append.mp hpaced
    exact sends_empty (run_whole hstart hbefore) hafter.1
  · have hplug : Fits (freedAfter true (start port s) events) (run (start port s) events).link (.plug true) :=
      fun h => absurd h Bool.false_ne_true
    have hplugged := plug_whole hwhole true
    have hconnected : (step (run (start port s) events) (.plug true)).link.dev.connected = true := by
      unfold step setConnected
      dsimp only
      split
      · rename_i hon
        exact hon
      · rfl
    obtain ⟨more, hmore, hway, hcommands⟩ := drained hplugged hconnected
    have hend := run_whole hplugged hmore
    obtain ⟨tokens, hstream, hcount⟩ := hend.stream
    rw [hway, List.append_nil] at hstream
    refine ⟨more, paced_append.mpr ⟨hpaced, hplug, hmore⟩, tokens, ?_, hcount.trans hcommands⟩
    rw [run_append]
    exact hstream

/-- A port as it comes out of a reset. -/
def idle : Serial where
  fifoEnabled := false
  mctrl := 0
  lcr := 0
  lsr := 0x60
  dlab := 96
  outNew := none
  dat := 0
  rcvrFifo := []
  overrun := false

theorem idle_quiet : Quiet idle := by
  refine ⟨⟨by decide, by decide, fun h => ?_⟩, rfl, rfl⟩
  exact absurd h (by decide)

/-- A command, and the first byte of its reply. -/
theorem replies_whole_first :
    ∃ tokens : List Token, (run (start 1 idle) [.plug true, .host 0x03, .reply, .receive, .read]).heard ++
      way (run (start 1 idle) [.plug true, .host 0x03, .reply, .receive, .read]).link = tokens.flatMap Token.bytes ∧
      tokens.count .line = 1 :=
  (replies_whole 1 idle idle_quiet [.plug true, .host 0x03, .reply, .receive, .read] (by decide +kernel)).1

/-- The ENQ timer fires while the last byte of a reply is in the shift register. -/
def crowded : List Event :=
  [.plug true, .host 0x03] ++ (List.replicate 16 [.reply, .receive, .read]).flatten ++ [.reply, .enq, .receive, .read]

/-- The guest never hears the end of that line. -/
theorem replies_overwritten :
    Quiet idle ∧ (∃ before, before ++ [.enq, .receive, .read] = crowded ∧ sends (run (start 1 idle) before).link .enq = true ∧
      (run (start 1 idle) before).link.serial.outNew = some 0x0A) ∧
    way (run (start 1 idle) crowded).link = [] ∧ (run (start 1 idle) crowded).commands = 1 ∧
      ¬ ∃ tokens : List Token, (run (start 1 idle) crowded).heard = tokens.flatMap Token.bytes := by
  have hheard : (run (start 1 idle) crowded).heard = reply.dropLast ++ [enq] := by decide +kernel
  refine ⟨idle_quiet, ⟨[.plug true, .host 0x03] ++ (List.replicate 16 [.reply, .receive, .read]).flatten ++ [.reply],
    by decide, by decide +kernel, by decide +kernel⟩, by decide +kernel, by decide +kernel, ?_⟩
  rintro ⟨tokens, htokens⟩
  rw [hheard] at htokens
  match tokens with
  | [] => exact absurd htokens (by decide)
  | .enq :: rest =>
    have hfirst : some (0x44 : Byte) = some 0x05 := congrArg List.head? htokens
    exact absurd hfirst (by decide)
  | .line :: rest =>
    have hlength : Token.line.bytes.length = 17 := by decide
    have hfirst := congrArg (List.take 17) htokens
    rw [List.flatMap_cons, List.take_left' hlength] at hfirst
    exact absurd hfirst (by decide +kernel)

end PeepeeBox.Cp80Replies
