import Mathlib.Data.Int.Notation
import PeepeeBox.Pit

set_option autoImplicit false

/-!
# The fast interval timer

The counters of `pit_fast.c`.  A counter runs from a timer whose deadline it moves on, or is clocked from outside and
counts down itself.
-/
namespace PeepeeBox.PitFast
open Pit

/-- Timestamps have 32 bits after the point. -/
structure Timer where
  now : ℕ
  deadline : ℕ
  enabled : Bool
deriving DecidableEq, Repr

structure Call where
  new : Bool
  old : Bool
deriving DecidableEq, Repr

structure Counter where
  m : ℕ
  ctrl : Byte
  wm : ℕ
  gate : Bool
  out : Bool
  newcount : Bool
  usingTimer : Bool
  enabled : Bool
  disabled : Bool
  initial : Bool
  thit : Bool
  running : Bool
  count : ℤ
  l : ℕ
  pitConst : ℕ
  timer : Timer
  /-- What has been reported since the last clock. -/
  calls : List Call
deriving DecidableEq, Repr

/-- A counter as `ctr_reset` leaves a cleared one. -/
def ctrReset : Counter where
  m := 0
  ctrl := 0
  wm := 0
  gate := false
  out := false
  newcount := false
  usingTimer := true
  enabled := false
  disabled := false
  initial := false
  thit := true
  running := false
  count := 0
  l := 0xffff
  pitConst := 0
  timer := ⟨0, 0, false⟩
  calls := []

def timerSetDelay (ctr : Counter) (delay : ℕ) : Counter :=
  { ctr with timer := ⟨ctr.timer.now, ctr.timer.now + delay, true⟩ }

def timerAdvance (ctr : Counter) (delay : ℕ) : Counter :=
  { ctr with timer := ⟨ctr.timer.now, ctr.timer.deadline + delay, true⟩ }

def timerDisable (ctr : Counter) : Counter := { ctr with timer := { ctr.timer with enabled := false } }

def timerGetRemaining (t : Timer) : ℕ := if t.enabled then t.deadline - t.now else 0

def pitfCtrSetOut (ctr : Counter) (out : Bool) : Counter :=
  { ctr with out := out, calls := ctr.calls ++ [⟨out, ctr.out⟩] }

def addCount (ctr : Counter) (n : ℤ) : Counter := { ctr with count := ctr.count + n }

def pitfReadTimer (ctr : Counter) : ℤ :=
  if ctr.usingTimer ∧ ¬(ctr.m = 3 ∧ ctr.gate = false) ∧ ctr.timer.enabled then
    if ctr.pitConst = 0 then 0x10000
    else
      let read := timerGetRemaining ctr.timer / ctr.pitConst
      let read := if ctr.m = 2 then read + 1 else read
      let read := min read 0x10000
      if ctr.m = 3 then (read * 2 : ℕ) else read
  else if ctr.m = 2 then ctr.count + 1
  else ctr.count

def pitfDumpAndDisableTimer (ctr : Counter) : Counter :=
  if ctr.usingTimer ∧ ctr.timer.enabled then
    timerDisable { ctr with count := if ctr.m = 2 then pitfReadTimer ctr - 1 else pitfReadTimer ctr }
  else ctr

def fullCount (ctr : Counter) : ℕ := if ctr.l = 0 then 0x10000 else ctr.l

def setRunning (ctr : Counter) : Counter :=
  let running := ctr.enabled && ctr.usingTimer && !ctr.disabled
  let ctr := { ctr with running := running }
  if ctr.usingTimer ∧ running = false then pitfDumpAndDisableTimer ctr else ctr

def setDelay (ctr : Counter) (clocks : ℕ) : Counter :=
  if ctr.usingTimer then timerSetDelay ctr (clocks * ctr.pitConst) else ctr

def advance (ctr : Counter) (clocks : ℕ) : Counter :=
  if ctr.usingTimer then timerAdvance ctr (clocks * ctr.pitConst) else ctr

def pitfCtrLoad (ctr : Counter) : Counter :=
  let l := fullCount ctr
  let ctr := { ctr with newcount := false, disabled := false }
  let ctr :=
    match ctr.m with
    | 0 =>
      let ctr := pitfCtrSetOut (setDelay { ctr with count := l } l) false
      { ctr with thit := false, enabled := ctr.gate }
    | 1 => { ctr with enabled := true }
    | 2 =>
      let ctr :=
        if ctr.initial then
          { pitfCtrSetOut (setDelay { ctr with count := (l : ℤ) - 1 } (l - 1)) true with thit := false }
        else ctr
      { ctr with enabled := ctr.gate }
    | 3 =>
      let ctr :=
        if ctr.initial then
          let ctr := { ctr with count := (l : ℤ) }
          let ctr :=
            if ctr.usingTimer then timerSetDelay ctr ((l + 1) / 2 * ctr.pitConst)
            else { ctr with newcount := l % 2 == 1 }
          { pitfCtrSetOut ctr true with thit := false }
        else ctr
      { ctr with enabled := ctr.gate }
    | 4 =>
      let ctr :=
        if ctr.thit = false ∧ ctr.initial = false then { ctr with newcount := true }
        else { pitfCtrSetOut (setDelay { ctr with count := (l : ℤ) } l) false with thit := false }
      { ctr with enabled := ctr.gate }
    | 5 => { ctr with enabled := true }
    | _ => ctr
  setRunning { ctr with initial := false }

def pitfOver (ctr : Counter) : Counter :=
  let l := fullCount ctr
  if ctr.disabled then advance (addCount ctr 0xffff) 0xffff
  else
    let ctr :=
      match ctr.m with
      | 0 | 1 =>
        let ctr := if ctr.thit then ctr else pitfCtrSetOut ctr true
        advance (addCount { ctr with thit := true } 0xffff) 0xffff
      | 2 => pitfCtrSetOut (pitfCtrSetOut (advance (addCount ctr l) l) false) true
      | 3 =>
        if ctr.out then
          let ctr := pitfCtrSetOut ctr false
          if ctr.usingTimer then advance (addCount ctr (l / 2 : ℕ)) (l / 2)
          else { addCount ctr l with newcount := l % 2 == 1 }
        else
          let ctr := addCount (pitfCtrSetOut ctr true) ((l + 1) / 2 : ℕ)
          if ctr.usingTimer then advance (addCount ctr (l / 2 : ℕ)) ((l + 1) / 2)
          else { addCount ctr l with newcount := l % 2 == 1 }
      | 4 =>
        let ctr := if ctr.thit then ctr else pitfCtrSetOut (pitfCtrSetOut ctr false) true
        if ctr.newcount then advance (addCount { ctr with newcount := false } l) l
        else advance (addCount { ctr with thit := true } 0xffff) 0xffff
      | 5 =>
        let ctr := if ctr.thit then ctr else pitfCtrSetOut (pitfCtrSetOut ctr false) true
        advance (addCount { ctr with thit := true } 0xffff) 0xffff
      | _ => ctr
    setRunning ctr

def pitfCtrClock (ctr : Counter) : Counter :=
  if ctr.thit = true ∨ ctr.enabled = false then ctr
  else if ctr.usingTimer then ctr
  else
    let ctr :=
      if ctr.m = 3 ∧ ctr.newcount = true then
        { addCount ctr (if ctr.out then -1 else -3) with newcount := false }
      else addCount ctr (if ctr.m = 3 then -2 else -1)
    if ctr.count = 0 then pitfOver ctr else ctr

def timerProcess (ctr : Counter) : Counter :=
  if ctr.timer.enabled = true ∧ ctr.timer.deadline ≤ ctr.timer.now then pitfOver (timerDisable ctr) else ctr

def timerClock (ctr : Counter) : Counter :=
  timerProcess { ctr with timer := { ctr.timer with now := ctr.timer.now + ctr.pitConst } }

def clock (ctr : Counter) : Counter :=
  let ctr := { ctr with calls := [] }
  if ctr.usingTimer then timerClock ctr else pitfCtrClock ctr

def pitfControl (ctr : Counter) (val : Byte) : Counter :=
  let m := val.toNat / 2 % 8
  let m := if 5 < m then m % 4 else m
  let ctr := { ctr with ctrl := val, wm := val.toNat / 16 % 4, m := m, initial := true }
  { pitfCtrSetOut ctr (m != 0) with disabled := true, thit := false }

def pitfData (ctr : Counter) (val : Byte) : Counter :=
  match ctr.wm with
  | 1 => pitfCtrLoad { ctr with l := val.toNat }
  | 2 => pitfCtrLoad { ctr with l := val.toNat * 0x100 }
  | 0 => { pitfCtrLoad { ctr with l := ctr.l % 0x100 + val.toNat * 0x100 } with wm := 3 }
  | 3 => { ctr with l := ctr.l % 0x10000 / 0x100 * 0x100 + val.toNat, wm := 0 }
  | _ => ctr

end PeepeeBox.PitFast
