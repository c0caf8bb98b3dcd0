import PeepeeBox.PitSquare

set_option autoImplicit false

/-!
# Runs of the interval timer

What the accesses to a timer do to one of its channels, the part of a channel that decides how it counts, and runs in
which nobody writes to it.
-/
namespace PeepeeBox.PitRuns
open Pit PitSquare

inductive ChannelOp where
  | program (word : Byte)
  | latch
  | readBack (value : Byte)
  | write (value : Byte)
  | read
  | gate (level : Bool)
  | tick
deriving DecidableEq, Repr

def channelStep (c : Channel) : ChannelOp → Channel
  | .program word => programMode c word
  | .latch => latchCount c
  | .readBack value => readBack value c
  | .write value => dataWrite c value
  | .read => (dataRead c).1
  | .gate level => setGate c level
  | .tick => tickChannel c

def channelRun (c : Channel) (ops : List ChannelOp) : Channel := ops.foldl channelStep c

/-- A clock edge, or an access that only looks. -/
def Idle : ChannelOp → Prop
  | .latch | .readBack _ | .read | .tick => True
  | .program _ | .write _ | .gate _ => False

def ticks (ops : List ChannelOp) : ℕ := ops.countP (· == .tick)

def bare (c : Channel) : Channel :=
  { resetChannel c.type with
    mode := c.mode, bcd := c.bcd, countRegister := c.countRegister, countingElement := c.countingElement
    gate := c.gate, output := c.output, armed := c.armed, initialLoad := c.initialLoad, ceUndefined := c.ceUndefined
    toggleOnReload := c.toggleOnReload, state := c.state }

theorem bare_latchCount (c : Channel) : bare (latchCount c) = bare c := by
  unfold latchCount
  split_ifs <;> rfl

theorem bare_latchStatus (c : Channel) : bare (latchStatus c) = bare c := by
  unfold latchStatus
  split_ifs <;> rfl

theorem bare_readBack (value : Byte) (c : Channel) : bare (readBack value c) = bare c := by
  unfold readBack
  dsimp only
  split_ifs
  · rw [bare_latchStatus, bare_latchCount]
  · exact bare_latchStatus c
  · exact bare_latchCount c
  · rfl

theorem bare_dataRead (c : Channel) : bare (dataRead c).1 = bare c := by
  unfold dataRead
  dsimp only
  generalize (if c.countLatched then c.outputLatch else visibleCount c.countingElement) = value
  split
  · rfl
  · split
    · rfl
    · split
      · rfl
      · rfl
      · split <;> rfl
      · rfl

theorem bare_idle {op : ChannelOp} (h : Idle op) (hop : op ≠ .tick) (c : Channel) :
    bare (channelStep c op) = bare c := by
  cases op with
  | latch => exact bare_latchCount c
  | readBack value => exact bare_readBack value c
  | read => exact bare_dataRead c
  | tick => exact absurd rfl hop
  | program word => exact absurd h id
  | write value => exact absurd h id
  | gate level => exact absurd h id

theorem bare_updateLiveLatch (c : Channel) : bare (updateLiveLatch c) = bare c := by
  unfold updateLiveLatch
  split_ifs <;> rfl

theorem bare_decrement (c : Channel) : bare (decrement c) = bare (decrement (bare c)) := by
  unfold decrement
  rw [bare_updateLiveLatch, bare_updateLiveLatch]
  rfl

theorem bare_decrementN (n : ℕ) {c c' : Channel} (h : bare c = bare c') :
    bare (decrementN n c) = bare (decrementN n c') := by
  induction n generalizing c c' with
  | zero => exact h
  | succ n ih =>
    apply ih
    rw [bare_decrement c, bare_decrement c', h]

theorem bare_congr {α : Type*} (f : Channel → α) (hf : ∀ c, f (bare c) = f c) {c c' : Channel} (h : bare c = bare c') :
    f c = f c' := by
  rw [← hf c, h, hf]

theorem bare_enterSquare (c : Channel) : bare (enterSquare c) = bare (enterSquare (bare c)) := by
  cases c
  dsimp only [enterSquare, bare, setOutput]
  split_ifs <;> rfl

theorem bare_enterLoaded (c : Channel) : bare (enterLoaded c) = bare (enterLoaded (bare c)) := by
  have hmode : (bare c).mode = c.mode := rfl
  unfold enterLoaded
  rw [hmode]
  split
  · rfl
  · rfl
  · rfl
  · exact bare_enterSquare c
  · rfl
  · rfl
  · rfl

theorem bare_load (c : Channel) : bare (loadCountingElement c) = bare (loadCountingElement (bare c)) := by
  obtain ⟨l, i, hl⟩ := load_eq c
  obtain ⟨l', i', hl'⟩ := load_eq (bare c)
  rw [hl, hl', bare_enterLoaded, bare_enterLoaded { bare c with
        countingElement := _, nullCount := _, ceUndefined := _, incompleteReload := i', outputLatch := l' }]
  rfl

theorem bare_countMode3 {c c' : Channel} (h : bare c = bare c') : bare (countMode3 c) = bare (countMode3 c') := by
  have hregister : c.countRegister = c'.countRegister := bare_congr Channel.countRegister (fun _ => rfl) h
  have htype : c.type = c'.type := bare_congr Channel.type (fun _ => rfl) h
  have helement : c.countingElement = c'.countingElement := bare_congr Channel.countingElement (fun _ => rfl) h
  have houtput : c.output = c'.output := bare_congr Channel.output (fun _ => rfl) h
  unfold countMode3
  dsimp only
  rw [hregister, htype, helement, houtput]
  split
  · have hd := bare_decrementN 2 h
    have helement' : (decrementN 2 c).countingElement = (decrementN 2 c').countingElement :=
      bare_congr Channel.countingElement (fun _ => rfl) hd
    have houtput' : (decrementN 2 c).output = (decrementN 2 c').output := bare_congr Channel.output (fun _ => rfl) hd
    rw [helement', houtput']
    split
    · split
      · exact bare_congr (fun d => bare (deferToggle d)) (fun _ => rfl) hd
      · rw [bare_updateLiveLatch, bare_updateLiveLatch]
        exact bare_congr (fun d => bare (setElement (setOutput d true) (evenPart (reloadValue d)))) (fun _ => rfl) hd
    · exact hd
  · have hd : bare (if c'.countRegister % 2 = 1 ∧ c'.countingElement % 2 = 1 then
          decrementN (if c'.output then 1 else 3) c else decrementN 2 c) =
        bare (if c'.countRegister % 2 = 1 ∧ c'.countingElement % 2 = 1 then
          decrementN (if c'.output then 1 else 3) c' else decrementN 2 c') := by
      split
      · exact bare_decrementN _ h
      · exact bare_decrementN 2 h
    generalize (if c'.countRegister % 2 = 1 ∧ c'.countingElement % 2 = 1 then
      decrementN (if c'.output then 1 else 3) c else decrementN 2 c) = d at hd ⊢
    generalize (if c'.countRegister % 2 = 1 ∧ c'.countingElement % 2 = 1 then
      decrementN (if c'.output then 1 else 3) c' else decrementN 2 c') = d' at hd ⊢
    have helement' : d.countingElement = d'.countingElement := bare_congr Channel.countingElement (fun _ => rfl) hd
    rw [helement']
    split
    · rw [bare_updateLiveLatch, bare_updateLiveLatch]
      exact bare_congr (fun d => bare (setElement (setOutput d (!d.output)) (reloadValue d))) (fun _ => rfl) hd
    · exact hd

theorem bare_countTick {c c' : Channel} (h : bare c = bare c') : bare (countTick c) = bare (countTick c') := by
  have hmode : c.mode = c'.mode := bare_congr Channel.mode (fun _ => rfl) h
  have hgate : c.gate = c'.gate := bare_congr Channel.gate (fun _ => rfl) h
  have hd : bare (decrement c) = bare (decrement c') := by rw [bare_decrement c, bare_decrement c', h]
  have helement : (decrement c).countingElement = (decrement c').countingElement := bare_congr Channel.countingElement (fun _ => rfl) hd
  have harmed : (decrement c).armed = (decrement c').armed := bare_congr Channel.armed (fun _ => rfl) hd
  unfold countTick
  dsimp only
  rw [hmode, hgate, helement, harmed]
  split
  · split
    · split
      · exact bare_congr (fun d => bare (setOutput d true)) (fun _ => rfl) hd
      · exact hd
    · exact h
  · split
    · split
      · exact bare_congr (fun d => bare { setOutput d true with armed := false }) (fun _ => rfl) hd
      · exact bare_congr (fun d => bare { d with armed := false }) (fun _ => rfl) hd
    · exact hd
  · split
    · split
      · exact bare_congr (fun d => bare { setOutput d false with state := .reloadNext }) (fun _ => rfl) hd
      · exact hd
    · exact h
  · split
    · exact bare_countMode3 h
    · exact h
  · split
    · split
      · exact bare_congr (fun d => bare { setOutput d false with state := .strobeRecover }) (fun _ => rfl) hd
      · exact hd
    · exact h
  · split
    · exact bare_congr (fun d => bare { setOutput d false with armed := false, state := .strobeRecover }) (fun _ => rfl) hd
    · exact hd
  · exact h

theorem bare_tick {c c' : Channel} (h : bare c = bare c') : bare (tickChannel c) = bare (tickChannel c') := by
  have hedge {c c' : Channel} (h : bare c = bare c') : bare (clockEdge c) = bare (clockEdge c') := by
    have hstate : c.state = c'.state := bare_congr Channel.state (fun _ => rfl) h
    have hundefined : c.ceUndefined = c'.ceUndefined := bare_congr Channel.ceUndefined (fun _ => rfl) h
    have harmed : c.armed = c'.armed := bare_congr Channel.armed (fun _ => rfl) h
    have hload : bare (loadCountingElement c) = bare (loadCountingElement c') := by
      rw [bare_load, h, ← bare_load]
    unfold clockEdge
    rw [hstate, hundefined, harmed]
    split
    · exact hload
    · exact hload
    · exact bare_congr (fun d => bare { setOutput d true with state := .counting }) (fun _ => rfl) h
    · split
      · rw [bare_updateLiveLatch, bare_updateLiveLatch]
        exact bare_congr (fun d => bare (setElement d 3)) (fun _ => rfl) h
      · exact h
    · exact h
    · exact h
    · exact h
    · exact bare_countTick h
  exact hedge (bare_congr (fun d => bare { d with clocks := d.clocks + 1 }) (fun _ => rfl) h)

theorem bare_iterate {c c' : Channel} (h : bare c = bare c') (n : ℕ) :
    bare (tickChannel^[n] c) = bare (tickChannel^[n] c') := by
  induction n with
  | zero => exact h
  | succ n ih =>
    rw [Function.iterate_succ_apply', Function.iterate_succ_apply']
    exact bare_tick ih

theorem ticks_cons (op : ChannelOp) (ops : List ChannelOp) :
    ticks (op :: ops) = ticks ops + if op = .tick then 1 else 0 := by
  unfold ticks
  rw [List.countP_cons]
  simp

theorem ticks_run (c : Channel) (k : ℕ) :
    ticks (List.replicate k .tick) = k ∧ channelRun c (List.replicate k .tick) = tickChannel^[k] c := by
  induction k generalizing c with
  | zero => exact ⟨rfl, rfl⟩
  | succ k ih =>
    rw [List.replicate_succ, ticks_cons, if_pos rfl, (ih c).1, Function.iterate_succ_apply]
    exact ⟨rfl, (ih (tickChannel c)).2⟩

theorem idle_run (c : Channel) {ops : List ChannelOp} (h : ∀ op ∈ ops, Idle op) :
    bare (channelRun c ops) = bare (tickChannel^[ticks ops] c) := by
  induction ops generalizing c with
  | nil => rfl
  | cons op ops ih =>
    have hrest := ih (channelStep c op) fun o ho => h o (List.mem_cons_of_mem op ho)
    rw [ticks_cons]
    refine hrest.trans ?_
    by_cases hop : op = .tick
    · subst hop
      rw [if_pos rfl, Function.iterate_succ_apply]
      rfl
    · rw [if_neg hop, Nat.add_zero]
      exact bare_iterate (bare_idle (h op List.mem_cons_self) hop c) (ticks ops)

inductive Op where
  | control (word : Byte)
  | write (channel : ℕ) (value : Byte)
  | read (channel : ℕ)
  | gate (channel : ℕ) (level : Bool)
  | tick (channel : ℕ)
deriving DecidableEq, Repr

def step (pit : Device) : Op → Device
  | .control word => pitxControlWrite pit word
  | .write channel value => pitxDataWrite pit channel value
  | .read channel => (pitxDataRead pit channel).1
  | .gate channel level => pitxSetGate pit channel level
  | .tick channel => pitxTickChannel pit channel

def run (pit : Device) (ops : List Op) : Device := ops.foldl step pit

/-- What channel `i` of a timer sees of an access. -/
def seen (type : Chip) (i : ℕ) : Op → Option ChannelOp
  | .control word =>
    if word.toNat / 64 = 3 then
      if type = .i8254 ∧ word.getLsbD (1 + i) = true then some (.readBack word) else none
    else if word.toNat / 64 = i then some (if word &&& 0x30 = 0 then .latch else .program word)
    else none
  | .write channel value => if channel = i then some (.write value) else none
  | .read channel => if channel = i then some .read else none
  | .gate channel level => if channel = i then some (.gate level) else none
  | .tick channel => if channel = i then some .tick else none

def applied (c : Channel) : Option ChannelOp → Channel
  | none => c
  | some op => channelStep c op

theorem onChannel_channel (f : Channel → Channel) (pit : Device) {i : ℕ} (hi : i < 3) (channel : ℕ) :
    (onChannel f pit channel).channel i = if channel = i then f (pit.channel i) else pit.channel i := by
  unfold onChannel
  split_ifs with hout hsame hsame
  · omega
  · rfl
  · subst hsame
    exact Function.update_self channel _ _
  · exact Function.update_of_ne (Ne.symm hsame) _ _

theorem onChannel_type (f : Channel → Channel) (pit : Device) (channel : ℕ) :
    (onChannel f pit channel).type = pit.type := by
  unfold onChannel
  split_ifs <;> rfl

theorem step_type (pit : Device) (op : Op) : (step pit op).type = pit.type := by
  cases op with
  | control word =>
    unfold step pitxControlWrite
    dsimp only
    split_ifs <;> rfl
  | write channel value => exact onChannel_type _ pit channel
  | read channel =>
    unfold step pitxDataRead
    dsimp only
    split_ifs
    · rfl
    · exact onChannel_type _ pit channel
  | gate channel level => exact onChannel_type _ pit channel
  | tick channel => exact onChannel_type _ pit channel

theorem step_channel (pit : Device) (op : Op) {i : ℕ} (hi : i < 3) :
    (step pit op).channel i = applied (pit.channel i) (seen pit.type i op) := by
  cases op with
  | control word =>
    unfold step pitxControlWrite seen
    dsimp only
    by_cases hback : word.toNat / 64 = 3
    · rw [if_pos hback, if_pos hback]
      by_cases htype : pit.type = .i8254
      · rw [if_neg (not_not_intro htype)]
        dsimp only
        by_cases hbit : word.getLsbD (1 + i) = true
        · rw [if_pos ⟨hi, hbit⟩, if_pos ⟨htype, hbit⟩]
          rfl
        · rw [if_neg fun h => hbit h.2, if_neg fun h => hbit h.2]
          rfl
      · rw [if_pos htype, if_neg fun h => htype h.1]
        rfl
    · rw [if_neg hback, if_neg hback]
      dsimp only
      by_cases hsame : word.toNat / 64 = i
      · rw [if_pos hsame, hsame, Function.update_self]
        split_ifs <;> rfl
      · rw [if_neg hsame]
        exact Function.update_of_ne (Ne.symm hsame) _ _
  | write channel value =>
    refine (onChannel_channel _ pit hi channel).trans ?_
    change _ = applied (pit.channel i) (if channel = i then some _ else none)
    split_ifs <;> rfl
  | read channel =>
    unfold step pitxDataRead seen
    dsimp only
    split_ifs with hout hsame hsame
    · omega
    · rfl
    · refine (onChannel_channel _ pit hi channel).trans ?_
      rw [if_pos hsame]
      rfl
    · refine (onChannel_channel _ pit hi channel).trans ?_
      rw [if_neg hsame]
      rfl
  | gate channel level =>
    refine (onChannel_channel _ pit hi channel).trans ?_
    change _ = applied (pit.channel i) (if channel = i then some _ else none)
    split_ifs <;> rfl
  | tick channel =>
    refine (onChannel_channel _ pit hi channel).trans ?_
    change _ = applied (pit.channel i) (if channel = i then some _ else none)
    split_ifs <;> rfl

theorem run_type (pit : Device) (ops : List Op) : (run pit ops).type = pit.type := by
  induction ops generalizing pit with
  | nil => rfl
  | cons op ops ih => exact (ih (step pit op)).trans (step_type pit op)

/-- What channel `i` sees of a run. -/
def seenRun (type : Chip) (i : ℕ) (ops : List Op) : List ChannelOp := ops.filterMap (seen type i)

theorem run_channel (pit : Device) (ops : List Op) {i : ℕ} (hi : i < 3) :
    (run pit ops).channel i = channelRun (pit.channel i) (seenRun pit.type i ops) := by
  induction ops generalizing pit with
  | nil => rfl
  | cons op ops ih =>
    have hnext := ih (step pit op)
    rw [step_type, step_channel pit op hi] at hnext
    refine hnext.trans ?_
    unfold seenRun
    rw [List.filterMap_cons]
    cases seen pit.type i op with
    | none => rfl
    | some o => rfl

end PeepeeBox.PitRuns
