import PeepeeBox.Timer

set_option autoImplicit false

/-!
# The timers before `timer_init` and after `timer_close`

Most functions of `timer.c` do nothing as long as the timers are not initialised; `timer_enable` and
the loop of `timer_process` do not look.
-/
namespace PeepeeBox.TimerLife
open DoublyLinked Timer

variable {T D : Type} [DecidableEq T]

section Guarded
variable (inited : Bool)

def timerDisable (s : State T D) (t : T) : Except Fault (State T D) :=
  if inited then disable s t else .ok s

variable [Fintype T]

def timerEnable (s : State T D) (t : T) : Except Fault (State T D) := do
  let s ← (if s.enabled t then timerDisable inited s t else .ok s : Except Fault (State T D))
  enlist s t

def timerAdvance (s : State T D) (t : T) (delay : BitVec 64) : Except Fault (State T D) :=
  timerEnable inited
    { s with
      ts := Function.update s.ts t (advanced (s.ts t) (s.frac t) delay)
      frac := Function.update s.frac t (s.frac t + fracDelay delay) } t

def timerSetDelay (s : State T D) (t : T) (delay : BitVec 64) : Except Fault (State T D) :=
  timerEnable inited
    { s with
      ts := Function.update s.ts t (intDelay delay + s.tsc)
      frac := Function.update s.frac t (fracDelay delay) } t

variable (c : Setup T D)

def timerAdvanceEx (s : State T D) (t : T) (start : Bool) : Except Fault (State T D) :=
  if inited then advanceEx c s t start else .ok s

def timerStop (s : State T D) (t : T) : Except Fault (State T D) :=
  if inited then stop c s t else .ok s

def timerOnAuto (s : State T D) (t : T) (period : D) : Except Fault (State T D) :=
  if inited then onAuto c s t period else .ok s

/-- One round of the loop of `timer_process`. -/
def timerTurn (m : Machine T D) (rest : List (Frame T)) : Except Fault (Machine T D) :=
  match m.state.links.head with
  | none => .error .null
  | some t =>
    if lessThan (m.state.ts t) m.state.tsc = false then
      .ok { m with state := { m.state with target := m.state.ts t }, frames := rest }
    else do
      let s ← removeHead m.state
      let expired := (t, s.ts t) :: m.expired
      if s.split t then do
        let s ← timerAdvanceEx inited c s t false
        .ok { state := s, frames := .loop :: rest, expired := expired }
      else if c.callback t then
        .ok
          { state := { s with inCallback := Function.update s.inCallback t true }
            frames := .callback t :: rest
            expired := expired }
      else .ok { state := s, frames := .loop :: rest, expired := expired }

def timerCall (s : State T D) : Event T D → Except Fault (State T D)
  | .enable t => timerEnable inited s t
  | .disable t => timerDisable inited s t
  | .setDelay t delay => timerSetDelay inited s t delay
  | .advance t delay => timerAdvance inited s t delay
  | .onAuto t period => timerOnAuto inited c s t period
  | .stop t => timerStop inited c s t
  | .clock tsc => .ok { s with tsc := tsc }
  | _ => .ok s

def timerStep (m : Machine T D) (e : Event T D) : Except Fault (Machine T D) :=
  match e, m.frames with
  | .process, frames =>
    match m.state.links.head with
    | none => .ok m
    | some _ => .ok { m with frames := .loop :: frames, expired := if frames.isEmpty then [] else m.expired }
  | .turn, .loop :: rest => timerTurn inited c m rest
  | .ret, .callback t :: rest =>
    .ok { m with
      state := { m.state with inCallback := Function.update m.state.inCallback t false }
      frames := .loop :: rest }
  | e, _ => do
    let s ← timerCall inited c m.state e
    .ok { m with state := s }

end Guarded

structure Life (T D : Type) where
  machine : Machine T D
  /-- The timers whose callback is not `NULL`. -/
  callback : T → Bool
  inited : Bool

/-- The `memset` of `timer_add`; nothing is unlinked. -/
def cleared (c : Setup T D) (s : State T D) (t : T) : State T D :=
  { s with
    links := { s.links with next := Function.update s.links.next t none, prev := Function.update s.links.prev t none }
    ts := Function.update s.ts t 0
    frac := Function.update s.frac t 0
    enabled := Function.update s.enabled t false
    split := Function.update s.split t false
    inCallback := Function.update s.inCallback t false
    period := Function.update s.period t c.periods.zero }

variable [Fintype T]

def timerAdd (c : Setup T D) (l : Life T D) (t : T) (callback startTimer : Bool) : Except Fault (Life T D) := do
  let s ← (if startTimer then timerSetDelay l.inited (cleared c l.machine.state t) t 0
    else .ok (cleared c l.machine.state t) : Except Fault (State T D))
  .ok
    { l with
      machine := { l.machine with state := s }
      callback := Function.update l.callback t callback }

/-- The loop of `timer_close`, which goes on from the pointer that it has just cleared. -/
def closeLoop : ℕ → Links T → Option T → Except Fault (Links T)
  | _, l, none => .ok l
  | 0, _, some _ => .error .endless
  | n + 1, l, some r =>
    let l := { l with prev := Function.update l.prev r none, next := Function.update l.next r none }
    closeLoop n l (l.next r)

def timerClose (l : Life T D) : Except Fault (Life T D) := do
  let links ← closeLoop (Fintype.card T) l.machine.state.links l.machine.state.links.head
  .ok
    { l with
      machine := { l.machine with state := { l.machine.state with links := { links with head := none } } }
      inited := false }

def timerInit (l : Life T D) : Life T D :=
  { l with
    machine := { l.machine with state := { l.machine.state with target := 0, tsc := 0 } }
    inited := true }

/-- The loop of `timer_set_new_tsc`. -/
def retime (new : BitVec 64) : ℕ → State T D → Option T → Except Fault (State T D)
  | _, s, none => .ok s
  | 0, _, some _ => .error .endless
  | n + 1, s, some t =>
    retime new n { s with ts := Function.update s.ts t (new + (s.ts t - s.tsc)) } (s.links.next t)

def timerSetNewTsc (s : State T D) (new : BitVec 64) : Except Fault (State T D) :=
  match s.links.head with
  | none => .ok { s with tsc := new }
  | some head => do
    let s ← retime new (Fintype.card T) { s with target := new + (s.ts head - s.tsc) } (some head)
    .ok { s with tsc := new }

inductive Op (T D : Type) where
  | call (e : Event T D)
  | add (t : T) (callback startTimer : Bool)
  | close
  | init
  | setNewTsc (tsc : BitVec 64)

def lifeStep (c : Setup T D) (l : Life T D) : Op T D → Except Fault (Life T D)
  | .call e => do
    let m ← timerStep l.inited { c with callback := l.callback } l.machine e
    .ok { l with machine := m }
  | .add t callback startTimer => timerAdd c l t callback startTimer
  | .close => timerClose l
  | .init => .ok (timerInit l)
  | .setNewTsc tsc => do
    let s ← timerSetNewTsc l.machine.state tsc
    .ok { l with machine := { l.machine with state := s } }

/-- As the program finds it, with every timer zero and none of them initialised. -/
def birth (c : Setup T D) : Life T D where
  machine := start c
  callback := fun _ => false
  inited := false

end PeepeeBox.TimerLife
