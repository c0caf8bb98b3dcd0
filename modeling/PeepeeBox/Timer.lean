import Mathlib.Data.Fintype.Card
import PeepeeBox.DoublyLinked

set_option autoImplicit false

/-!
# The timer list

`timer.c` and the inline part of `timer.h`, after `timer_init`.  A field of `pc_timer_t` is a map
from the timers to its values, and the two pointers are those of `DoublyLinked`.
-/
namespace PeepeeBox.Timer
open DoublyLinked

structure Periods (D : Type) where
  zero : D
  /-- `> 0.0` -/
  positive : D → Bool
  /-- `<= 0.0` -/
  nonpositive : D → Bool
  /-- `> MAX_USEC` -/
  long : D → Bool
  /-- `- MAX_USEC` -/
  less : D → D
  /-- `(uint64_t) (period * (double) TIMER_USEC)` -/
  ticks : BitVec 64 → D → BitVec 64
  less_positive : ∀ p, long p = true → positive (less p) = true

/-- What is fixed: the timers' callbacks that are not `NULL`, and `TIMER_USEC`. -/
structure Setup (T D : Type) where
  periods : Periods D
  callback : T → Bool
  usec : BitVec 64

structure State (T D : Type) where
  links : Links T
  ts : T → BitVec 64
  frac : T → BitVec 32
  enabled : T → Bool
  split : T → Bool
  inCallback : T → Bool
  period : T → D
  tsc : BitVec 64
  target : BitVec 64

inductive Fault where
  /-- A null pointer is followed. -/
  | null
  /-- `fatal` in `timer_enable`. -/
  | linked
  /-- The deliberate crash of `timer_disable`. -/
  | isolated
  /-- The list runs in a circle. -/
  | endless
deriving DecidableEq

def maxUsec : BitVec 64 := 1000000

def lessThan (a b : BitVec 64) : Bool := decide ((a - b).toInt ≤ 0)

section
variable {T D : Type} [DecidableEq T]

def disable (s : State T D) (t : T) : Except Fault (State T D) :=
  if s.enabled t = false then .ok s
  else if s.links.next t = none ∧ s.links.prev t = none ∧ s.links.head ≠ some t then .error .isolated
  else
    .ok { s with
      enabled := Function.update s.enabled t false
      inCallback := Function.update s.inCallback t false
      links := unlink s.links t }

/-- The node the timer goes in front of, or the last one. -/
def place (s : State T D) (t : T) : ℕ → T → Except Fault (T × Bool)
  | 0, _ => .error .endless
  | n + 1, node =>
    if lessThan (s.ts t) (s.ts node) then .ok (node, true)
    else
      match s.links.next node with
      | none => .ok (node, false)
      | some node => place s t n node

variable [Fintype T]

/-- `timer_enable` once the timer is off the list. -/
def enlist (s : State T D) (t : T) : Except Fault (State T D) :=
  if s.links.next t ≠ none ∨ s.links.prev t ≠ none then .error .linked
  else
    let s := { s with enabled := Function.update s.enabled t true }
    match s.links.head with
    | none => .ok { s with links := single s.links t, target := s.ts t }
    | some head => do
      match ← place s t (Fintype.card T) head with
      | (node, true) =>
        .ok { s with
          links := before s.links node t
          target := if s.links.prev node = none then s.ts t else s.target }
      | (node, false) => .ok { s with links := behind s.links node t }

def enable (s : State T D) (t : T) : Except Fault (State T D) := do
  let s ← (if s.enabled t then disable s t else .ok s : Except Fault (State T D))
  enlist s t

def intDelay (delay : BitVec 64) : BitVec 64 :=
  if delay >>> 32 &&& 0x80000000 ≠ 0 then delay >>> 32 ||| 0xFFFFFFFF00000000 else delay >>> 32

def fracDelay (delay : BitVec 64) : BitVec 32 := delay.setWidth 32

def advanced (ts : BitVec 64) (frac : BitVec 32) (delay : BitVec 64) : BitVec 64 :=
  (if fracDelay delay + frac < fracDelay delay then ts + 1 else ts) + intDelay delay

def advance (s : State T D) (t : T) (delay : BitVec 64) : Except Fault (State T D) :=
  enable
    { s with
      ts := Function.update s.ts t (advanced (s.ts t) (s.frac t) delay)
      frac := Function.update s.frac t (s.frac t + fracDelay delay) } t

def setDelay (s : State T D) (t : T) (delay : BitVec 64) : Except Fault (State T D) :=
  enable
    { s with
      ts := Function.update s.ts t (intDelay delay + s.tsc)
      frac := Function.update s.frac t (fracDelay delay) } t

def doPeriod (s : State T D) (t : T) (period : BitVec 64) (start : Bool) : Except Fault (State T D) :=
  if start then setDelay s t period else advance s t period

variable (c : Setup T D)

def advanceEx (s : State T D) (t : T) (start : Bool) : Except Fault (State T D) :=
  if c.periods.long (s.period t) then do
    let s ← doPeriod s t (maxUsec * c.usec) start
    .ok { s with
      period := Function.update s.period t (c.periods.less (s.period t))
      split := Function.update s.split t true }
  else do
    let s ←
      (if c.periods.positive (s.period t) then doPeriod s t (c.periods.ticks c.usec (s.period t)) start
      else disable s t : Except Fault (State T D))
    .ok { s with
      period := Function.update s.period t c.periods.zero
      split := Function.update s.split t false }

def stop (s : State T D) (t : T) : Except Fault (State T D) := do
  let s := { s with period := Function.update s.period t c.periods.zero }
  let s ← (if s.enabled t then disable s t else .ok s : Except Fault (State T D))
  .ok { s with
    split := Function.update s.split t false
    inCallback := Function.update s.inCallback t false }

def on (s : State T D) (t : T) (period : D) (start : Bool) : Except Fault (State T D) :=
  advanceEx c { s with period := Function.update s.period t period } t start

def onAuto (s : State T D) (t : T) (period : D) : Except Fault (State T D) :=
  if c.periods.positive period then
    on c s t period (c.periods.nonpositive (s.period t) && !s.inCallback t)
  else stop c s t

def removeHead (s : State T D) : Except Fault (State T D) :=
  match s.links.head with
  | none => .ok s
  | some t =>
    match s.links.next t with
    | none => .error .null
    | some n =>
      .ok { s with
        links :=
          { head := some n
            next := Function.update s.links.next t none
            prev := Function.update (Function.update s.links.prev n none) t none }
        enabled := Function.update s.enabled t false }

/-- Where a `timer_process` that has been called stands. -/
inductive Frame (T : Type) where
  | loop
  | callback (t : T)
deriving DecidableEq

/-- `frames` are the calls of `timer_process`, the innermost first; `expired` what they have taken
off since the outermost of them began, the last first. -/
structure Machine (T D : Type) where
  state : State T D
  frames : List (Frame T)
  expired : List (T × BitVec 64)

/-- One round of the loop of `timer_process`. -/
def turn (m : Machine T D) (rest : List (Frame T)) : Except Fault (Machine T D) :=
  match m.state.links.head with
  | none => .error .null
  | some t =>
    if lessThan (m.state.ts t) m.state.tsc = false then
      .ok { m with state := { m.state with target := m.state.ts t }, frames := rest }
    else do
      let s ← removeHead m.state
      let expired := (t, s.ts t) :: m.expired
      if s.split t then do
        let s ← advanceEx c s t false
        .ok { state := s, frames := .loop :: rest, expired := expired }
      else if c.callback t then
        .ok
          { state := { s with inCallback := Function.update s.inCallback t true }
            frames := .callback t :: rest
            expired := expired }
      else .ok { state := s, frames := .loop :: rest, expired := expired }

/-- What the program does outside the loop: calls from anywhere, a callback's return, and time going on. -/
inductive Event (T D : Type) where
  | enable (t : T)
  | disable (t : T)
  | setDelay (t : T) (delay : BitVec 64)
  | advance (t : T) (delay : BitVec 64)
  | onAuto (t : T) (period : D)
  | stop (t : T)
  | clock (tsc : BitVec 64)
  | process
  | turn
  | ret

def call (s : State T D) : Event T D → Except Fault (State T D)
  | .enable t => enable s t
  | .disable t => disable s t
  | .setDelay t delay => setDelay s t delay
  | .advance t delay => advance s t delay
  | .onAuto t period => onAuto c s t period
  | .stop t => stop c s t
  | .clock tsc => .ok { s with tsc := tsc }
  | _ => .ok s

def step (m : Machine T D) (e : Event T D) : Except Fault (Machine T D) :=
  match e, m.frames with
  | .process, frames =>
    match m.state.links.head with
    | none => .ok m
    | some _ => .ok { m with frames := .loop :: frames, expired := if frames.isEmpty then [] else m.expired }
  | .turn, .loop :: rest => turn c m rest
  | .ret, .callback t :: rest =>
    .ok { m with
      state := { m.state with inCallback := Function.update m.state.inCallback t false }
      frames := .loop :: rest }
  | e, _ => do
    let s ← call c m.state e
    .ok { m with state := s }

/-- After `timer_init`, with every timer as `timer_add` leaves it when it does not start it. -/
def start : Machine T D where
  state :=
    { links := { head := none, next := fun _ => none, prev := fun _ => none }
      ts := fun _ => 0
      frac := fun _ => 0
      enabled := fun _ => false
      split := fun _ => false
      inCallback := fun _ => false
      period := fun _ => c.periods.zero
      tsc := 0
      target := 0 }
  frames := []
  expired := []

end

end PeepeeBox.Timer
