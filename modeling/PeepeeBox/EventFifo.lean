import Mathlib.Data.List.Range
import Mathlib.Logic.Function.Basic
import PeepeeBox.ByteFifo

set_option autoImplicit false

/-!
# A FIFO that reports its changes

`fifo.c`: a ring of bytes with a flag that tells a full one from an empty one, whose owner is called
when the flags change.  The tags of the bytes are left out.
-/
namespace PeepeeBox.EventFifo

structure Fifo where
  start : ℕ
  end_ : ℕ
  triggerLen : ℕ
  len : ℕ
  empty : Bool
  overrun : Bool
  full : Bool
  ready : Bool
  dEmpty : Bool
  dOverrun : Bool
  dFull : Bool
  dReady : Bool
  buf : ℕ → Byte

/-- What the owner does when it is called; nothing, where it left no function. -/
structure Events (S : Type) where
  dEmptyEvt : Fifo → S → S := fun _ s => s
  dOverrunEvt : Fifo → S → S := fun _ s => s
  dFullEvt : Fifo → S → S := fun _ s => s
  dReadyEvt : Fifo → S → S := fun _ s => s

variable {S : Type}

def fifoGetCount (f : Fifo) : ℕ :=
  if f.end_ = f.start then if f.full then f.len else 0
  else if f.start < f.end_ then f.end_ - f.start
  else f.len + f.end_ - f.start

def call (evt : Fifo → S → S) (changed : Bool) (f : Fifo) (s : S) : Fifo × S := (f, if changed then evt f s else s)

def noteFull (evts : Events S) (f : Fifo) (s : S) : Fifo × S :=
  if f.end_ = f.start then call evts.dFullEvt (!f.full) { f with dFull := !f.full, full := true } s else (f, s)

def noteFilled (evts : Events S) (f : Fifo) (s : S) : Fifo × S :=
  call evts.dEmptyEvt f.empty { f with dEmpty := f.empty, empty := false } s

def noteReady (evts : Events S) (f : Fifo) (s : S) : Fifo × S :=
  if f.triggerLen ≤ fifoGetCount f then
    call evts.dReadyEvt (!f.ready) { f with dReady := !f.ready, ready := true } s
  else (f, s)

def fifoWriteEvt (evts : Events S) (val : Byte) (f : Fifo) (s : S) : Fifo × S :=
  let f := { f with dFull := false, dEmpty := false, dReady := false, dOverrun := false }
  if f.full then call evts.dOverrunEvt (!f.overrun) { f with dOverrun := !f.overrun, overrun := true } s
  else
    let f := { f with buf := Function.update f.buf f.end_ val, end_ := (f.end_ + 1) % f.len }
    let (f, s) := noteFull evts f s
    let (f, s) := noteFilled evts f s
    noteReady evts f s

def noteRoom (evts : Events S) (f : Fifo) (s : S) : Fifo × S :=
  call evts.dFullEvt f.full { f with dFull := f.full, full := false } s

def noteBelow (evts : Events S) (f : Fifo) (s : S) : Fifo × S :=
  if fifoGetCount f < f.triggerLen then call evts.dReadyEvt f.ready { f with dReady := f.ready, ready := false } s
  else (f, s)

def noteEmpty (evts : Events S) (f : Fifo) (s : S) : Fifo × S :=
  if fifoGetCount f = 0 then call evts.dEmptyEvt (!f.empty) { f with dEmpty := !f.empty, empty := true } s else (f, s)

def fifoReadEvt (evts : Events S) (f : Fifo) (s : S) : Byte × Fifo × S :=
  let f := { f with dFull := false, dEmpty := false, dReady := false }
  if f.empty then (0, f, s)
  else
    let ret := f.buf f.start
    let f := { f with start := (f.start + 1) % f.len }
    let (f, s) := noteRoom evts f s
    let (f, s) := noteBelow evts f s
    (ret, noteEmpty evts f s)

def fifoReset (f : Fifo) : Fifo :=
  { f with start := 0, end_ := 0, full := false, overrun := false, empty := true, ready := false }

def fifoResetEvt (evts : Events S) (f : Fifo) (s : S) : Fifo × S :=
  let f := { fifoReset f with dFull := false, dOverrun := false, dEmpty := false, dReady := false }
  (f, evts.dReadyEvt f (evts.dEmptyEvt f (evts.dOverrunEvt f (evts.dFullEvt f s))))

def fifoInit (len : ℕ) : Fifo :=
  fifoReset
    { start := 0, end_ := 0, triggerLen := 0, len, empty := false, overrun := false, full := false, ready := false,
      dEmpty := false, dOverrun := false, dFull := false, dReady := false, buf := fun _ => 0 }

def window (buf : ℕ → Byte) (n start count : ℕ) : List Byte := (List.range count).map fun i => buf ((start + i) % n)

theorem window_snoc (buf : ℕ → Byte) {n start count : ℕ} (h : count < n) (val : Byte) :
    window (Function.update buf ((start + count) % n) val) n start (count + 1) = window buf n start count ++ [val] := by
  unfold window
  rw [List.range_succ, List.map_append]
  congr 1
  · refine List.map_congr_left fun i hi => ?_
    exact Function.update_of_ne (ByteFifo.slot_ne start count i (List.mem_range.mp hi) h) val buf
  · simp

theorem window_cons (buf : ℕ → Byte) {n start : ℕ} (h : start < n) (count : ℕ) :
    window buf n start (count + 1) = buf start :: window buf n ((start + 1) % n) count := by
  unfold window
  rw [List.range_succ_eq_map, List.map_cons, List.map_map, Nat.add_zero, Nat.mod_eq_of_lt h]
  congr 1
  refine List.map_congr_left fun i _ => ?_
  have hslot : (start + (i + 1)) % n = ((start + 1) % n + i) % n := by
    rw [Nat.mod_add_mod, Nat.add_right_comm, Nat.add_assoc]
  exact congrArg buf hslot

def contents (f : Fifo) : List Byte := window f.buf f.len f.start (fifoGetCount f)

/-- The flags agree with the cursors. -/
structure Sound (f : Fifo) : Prop where
  start : f.start < f.len
  end_ : f.end_ < f.len
  full : f.full = true → f.end_ = f.start
  empty : f.empty = true ↔ f.end_ = f.start ∧ f.full = false

@[simp] theorem contents_length (f : Fifo) : (contents f).length = fifoGetCount f := by
  simp [contents, window]

theorem sound_reset {f : Fifo} (h : 0 < f.len) : Sound (fifoReset f) :=
  { start := h, end_ := h, full := fun hfull => absurd hfull Bool.false_ne_true, empty := by simp [fifoReset] }

@[simp] theorem count_reset (f : Fifo) : fifoGetCount (fifoReset f) = 0 := by
  simp [fifoGetCount, fifoReset]

@[simp] theorem contents_reset (f : Fifo) : contents (fifoReset f) = [] := by
  simp [contents, window]

theorem Sound.empty_iff {f : Fifo} (h : Sound f) : f.empty = true ↔ contents f = [] := by
  have hlen : 0 < f.len := Nat.zero_lt_of_lt h.start
  have hstart := h.start
  rw [h.empty, ← List.length_eq_zero_iff, contents_length]
  unfold fifoGetCount
  cases hfull : f.full <;> split_ifs <;> simp_all <;> omega

theorem Sound.count_le {f : Fifo} (h : Sound f) : fifoGetCount f ≤ f.len := by
  have hstart := h.start
  have hend := h.end_
  unfold fifoGetCount
  split_ifs <;> omega

theorem Sound.full_iff {f : Fifo} (h : Sound f) : f.full = true ↔ fifoGetCount f = f.len := by
  have hstart := h.start
  have hend := h.end_
  have hfull := h.full
  unfold fifoGetCount
  cases hf : f.full <;> split_ifs <;> simp_all <;> omega

structure Wrote (f : Fifo) (val : Byte) (f' : Fifo) : Prop where
  start : f'.start = f.start
  end_ : f'.end_ = (f.end_ + 1) % f.len
  len : f'.len = f.len
  buf : f'.buf = Function.update f.buf f.end_ val
  full : f'.full = decide ((f.end_ + 1) % f.len = f.start)
  empty : f'.empty = false

theorem write_room (evts : Events S) (val : Byte) {f : Fifo} (h : f.full = false) (s : S) :
    Wrote f val (fifoWriteEvt evts val f s).1 := by
  unfold fifoWriteEvt noteReady noteFilled noteFull call
  by_cases hend : (f.end_ + 1) % f.len = f.start
  · simp only [h, hend, Bool.false_eq_true, if_false, if_true]
    split <;> constructor <;> simp [hend]
  · simp only [h, hend, Bool.false_eq_true, if_false]
    split <;> constructor <;> simp [hend]

structure Took (f f' : Fifo) : Prop where
  start : f'.start = (f.start + 1) % f.len
  end_ : f'.end_ = f.end_
  len : f'.len = f.len
  buf : f'.buf = f.buf
  full : f'.full = false
  empty : f'.empty = decide (f.end_ = (f.start + 1) % f.len)

theorem read_none (evts : Events S) {f : Fifo} (h : f.empty = true) (s : S) :
    fifoReadEvt evts f s = (0, { f with dFull := false, dEmpty := false, dReady := false }, s) := by
  simp [fifoReadEvt, h]

theorem next_eq {n i : ℕ} (h : i < n) : (i + 1) % n = if i + 1 = n then 0 else i + 1 := by
  split
  · rename_i hlast
    rw [hlast, Nat.mod_self]
  · exact Nat.mod_eq_of_lt (by omega)

theorem count_zero {f : Fifo} (hstart : f.start < f.len) (hfull : f.full = false) :
    fifoGetCount f = 0 ↔ f.end_ = f.start := by
  unfold fifoGetCount
  rw [hfull]
  split_ifs <;> simp_all <;> omega

theorem noteBelow_cursors (evts : Events S) (f : Fifo) (s : S) :
    ∃ ready dReady, (noteBelow evts f s).1 = { f with ready := ready, dReady := dReady } := by
  unfold noteBelow call
  split
  · exact ⟨false, f.ready, rfl⟩
  · exact ⟨f.ready, f.dReady, rfl⟩

theorem read_some (evts : Events S) {f : Fifo} (hs : Sound f) (h : f.empty = false) (s : S) :
    (fifoReadEvt evts f s).1 = f.buf f.start ∧ Took f (fifoReadEvt evts f s).2.1 := by
  have hstart : (f.start + 1) % f.len < f.len := Nat.mod_lt _ (Nat.zero_lt_of_lt hs.start)
  unfold fifoReadEvt
  rw [if_neg (by simp [h])]
  refine ⟨rfl, ?_⟩
  dsimp only [noteRoom, call]
  generalize (if f.full = true then _ else s) = s'
  obtain ⟨ready, dReady, hbelow⟩ := noteBelow_cursors evts
    { f with start := (f.start + 1) % f.len, dFull := f.full, full := false, dEmpty := false, dReady := false } s'
  have hcount := count_zero (f := { f with
    start := (f.start + 1) % f.len, dFull := f.full, full := false, dEmpty := false, ready, dReady }) hstart rfl
  rw [hbelow]
  unfold noteEmpty call
  by_cases hlast : f.end_ = (f.start + 1) % f.len
  · rw [if_pos (hcount.mpr hlast)]
    constructor <;> simp [hlast]
  · rw [if_neg fun hzero => hlast (hcount.mp hzero)]
    constructor <;> simp [h, hlast]

theorem end_slot {f : Fifo} (hs : Sound f) (hroom : f.full = false) : (f.start + fifoGetCount f) % f.len = f.end_ := by
  have hstart := hs.start
  have hend := hs.end_
  unfold fifoGetCount
  rw [hroom, if_neg Bool.false_ne_true]
  split_ifs with heq hlt
  · rw [heq, Nat.add_zero]
    exact Nat.mod_eq_of_lt hstart
  · rw [show f.start + (f.end_ - f.start) = f.end_ by omega]
    exact Nat.mod_eq_of_lt hend
  · rw [show f.start + (f.len + f.end_ - f.start) = f.end_ + f.len by omega, Nat.add_mod_right]
    exact Nat.mod_eq_of_lt hend

theorem Wrote.sound {f f' : Fifo} {val : Byte} (h : Wrote f val f') (hs : Sound f) : Sound f' := by
  have hlen := Nat.zero_lt_of_lt hs.start
  refine { start := ?_, end_ := ?_, full := ?_, empty := ?_ }
  · rw [h.start, h.len]
    exact hs.start
  · rw [h.end_, h.len]
    exact Nat.mod_lt _ hlen
  · rw [h.full, h.end_, h.start]
    exact of_decide_eq_true
  · rw [h.empty, h.full, h.end_, h.start]
    simp

theorem Wrote.count {f f' : Fifo} {val : Byte} (h : Wrote f val f') (hs : Sound f) (hroom : f.full = false) :
    fifoGetCount f' = fifoGetCount f + 1 := by
  have hnext := next_eq hs.end_
  have hstart := hs.start
  have hend := hs.end_
  unfold fifoGetCount
  rw [h.start, h.end_, h.len, h.full, hnext, hroom]
  split_ifs <;> simp_all <;> omega

theorem Wrote.contents {f f' : Fifo} {val : Byte} (h : Wrote f val f') (hs : Sound f) (hroom : f.full = false) :
    EventFifo.contents f' = EventFifo.contents f ++ [val] := by
  have hcount := hs.count_le
  have hnot : fifoGetCount f ≠ f.len := fun heq => by simp [hs.full_iff.mpr heq] at hroom
  unfold EventFifo.contents
  rw [h.count hs hroom, h.buf, h.len, h.start, ← end_slot hs hroom]
  exact window_snoc f.buf (by omega) val

theorem Took.sound {f f' : Fifo} (h : Took f f') (hs : Sound f) : Sound f' := by
  refine { start := ?_, end_ := ?_, full := ?_, empty := ?_ }
  · rw [h.start, h.len]
    exact Nat.mod_lt _ (Nat.zero_lt_of_lt hs.start)
  · rw [h.end_, h.len]
    exact hs.end_
  · simp [h.full]
  · simp [h.empty, h.full, h.start, h.end_]

theorem Took.count {f f' : Fifo} (h : Took f f') (hs : Sound f) (hany : f.empty = false) :
    fifoGetCount f = fifoGetCount f' + 1 := by
  have hnext := next_eq hs.start
  have hstart := hs.start
  have hend := hs.end_
  have hempty := hs.empty
  have hfull := hs.full
  unfold fifoGetCount
  rw [h.start, h.end_, h.len, h.full, hnext]
  cases hf : f.full <;> split_ifs <;> simp_all <;> omega

theorem Took.contents {f f' : Fifo} (h : Took f f') (hs : Sound f) (hany : f.empty = false) :
    EventFifo.contents f = f.buf f.start :: EventFifo.contents f' := by
  unfold EventFifo.contents
  rw [h.count hs hany, h.buf, h.len, h.start]
  exact window_cons f.buf hs.start _

theorem write_full (evts : Events S) (val : Byte) {f : Fifo} (h : f.full = true) (s : S) :
    contents (fifoWriteEvt evts val f s).1 = contents f ∧ (Sound f → Sound (fifoWriteEvt evts val f s).1) := by
  unfold fifoWriteEvt
  dsimp only
  rw [if_pos h]
  exact ⟨rfl, fun hs => { start := hs.start, end_ := hs.end_, full := hs.full, empty := hs.empty }⟩

/-- What the owner's functions keep, the operations keep. -/
structure Keeps (evts : Events S) (Q : S → Prop) : Prop where
  dEmptyEvt : ∀ f s, Q s → Q (evts.dEmptyEvt f s)
  dOverrunEvt : ∀ f s, Q s → Q (evts.dOverrunEvt f s)
  dFullEvt : ∀ f s, Q s → Q (evts.dFullEvt f s)
  dReadyEvt : ∀ f s, Q s → Q (evts.dReadyEvt f s)

theorem keeps_call {Q : S → Prop} {evt : Fifo → S → S} (h : ∀ f s, Q s → Q (evt f s)) (changed : Bool) (f : Fifo)
    {s : S} (hs : Q s) : Q (call evt changed f s).2 := by
  unfold call
  split
  · exact h f s hs
  · exact hs

theorem keeps_if {Q : S → Prop} {c : Prop} [Decidable c] {p : Fifo × S} {f : Fifo} {s : S} (hp : Q p.2) (hs : Q s) :
    Q (if c then p else (f, s)).2 := by
  split
  · exact hp
  · exact hs

variable {evts : Events S} {Q : S → Prop}

theorem Keeps.write (h : Keeps evts Q) (val : Byte) (f : Fifo) {s : S} (hs : Q s) :
    Q (fifoWriteEvt evts val f s).2 := by
  have hfull (g : Fifo) : Q (noteFull evts g s).2 := keeps_if (keeps_call h.dFullEvt _ _ hs) hs
  have hfilled (g g' : Fifo) : Q (noteFilled evts g' (noteFull evts g s).2).2 := keeps_call h.dEmptyEvt _ _ (hfull g)
  unfold fifoWriteEvt
  dsimp only
  split
  · exact keeps_call h.dOverrunEvt _ _ hs
  · exact keeps_if (keeps_call h.dReadyEvt _ _ (hfilled _ _)) (hfilled _ _)

theorem Keeps.read (h : Keeps evts Q) (f : Fifo) {s : S} (hs : Q s) : Q (fifoReadEvt evts f s).2.2 := by
  have hroom (g : Fifo) : Q (noteRoom evts g s).2 := keeps_call h.dFullEvt _ _ hs
  have hbelow (g g' : Fifo) : Q (noteBelow evts g' (noteRoom evts g s).2).2 :=
    keeps_if (keeps_call h.dReadyEvt _ _ (hroom g)) (hroom g)
  unfold fifoReadEvt
  dsimp only
  split
  · exact hs
  · exact keeps_if (keeps_call h.dEmptyEvt _ _ (hbelow _ _)) (hbelow _ _)

theorem Keeps.reset (h : Keeps evts Q) (f : Fifo) {s : S} (hs : Q s) : Q (fifoResetEvt evts f s).2 :=
  h.dReadyEvt _ _ (h.dEmptyEvt _ _ (h.dOverrunEvt _ _ (h.dFullEvt _ _ hs)))

end PeepeeBox.EventFifo
