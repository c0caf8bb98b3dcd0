import PeepeeBox.IdeBoard

set_option autoImplicit false

/-!
# A sector through the data port

The 256 words of a sector, one access after another, between the guest and the PIO buffer.
-/
namespace PeepeeBox.DataPort
open HdcIde IdeBoard TraceMachine

/-- The buffer with a row of words from `k` on. -/
def fill (f : ℕ → BitVec 16) (k : ℕ) (ws : List (BitVec 16)) : ℕ → BitVec 16 :=
  fun i => if k ≤ i ∧ i < k + ws.length then ws.getD (i - k) 0 else f i

theorem fill_nil (f : ℕ → BitVec 16) (k : ℕ) : fill f k [] = f := by
  funext i
  exact if_neg (by rw [List.length_nil]; omega)

theorem fill_cons (f : ℕ → BitVec 16) (k : ℕ) (w : BitVec 16) (ws : List (BitVec 16)) :
    fill (Function.update f k w) (k + 1) ws = fill f k (w :: ws) := by
  funext i
  unfold fill
  rw [List.length_cons]
  by_cases hbehind : k + 1 ≤ i ∧ i < k + 1 + ws.length
  · obtain ⟨j, rfl⟩ := Nat.exists_eq_add_of_le hbehind.1
    rw [if_pos hbehind, if_pos (by omega)]
    have hleft : k + 1 + j - (k + 1) = j := by omega
    have hright : k + 1 + j - k = j + 1 := by omega
    rw [hleft, hright, List.getD_cons_succ]
  rw [if_neg hbehind]
  by_cases hhere : i = k
  · rw [hhere, if_pos (by omega), Function.update_self, Nat.sub_self, List.getD_cons_zero]
  · rw [if_neg (by omega), Function.update_of_ne hhere]

def Moves (command : Byte) : Prop := command ≠ winInvalid ∧ command ≠ winPacketcmd

theorem writes_part (cfg : BoardConfig) {d : Drive} (hcommand : Moves d.command) {k : ℕ}
    (hpos : d.tf.pos = 2 * k) (ws : List (BitVec 16)) (hroom : k + ws.length < 256) :
    ws.foldl (ideWriteData cfg) d =
      { d with buffer := fill d.buffer k ws, tf.pos := 2 * (k + ws.length) } := by
  induction ws generalizing d k with
  | nil =>
    rw [fill_nil, List.length_nil, Nat.add_zero, ← hpos]
    rfl
  | cons w ws ih =>
    rw [List.length_cons] at hroom
    have hfirst : ideWriteData cfg d w =
        { d with buffer := Function.update d.buffer k w, tf.pos := 2 * (k + 1) } := by
      unfold ideWriteData
      rw [if_neg hcommand.1, if_neg hcommand.2, if_neg (by omega), hpos]
      have hindex : (2 * k) >>> 1 = k := by
        rw [Nat.shiftRight_eq_div_pow]
        omega
      rw [hindex]
      rfl
    rw [List.foldl_cons, hfirst, ih (k := k + 1)]
    · dsimp only
      rw [fill_cons, List.length_cons, Nat.add_right_comm, Nat.add_assoc]
    · exact hcommand
    · rfl
    · omega

theorem writes_sector (cfg : BoardConfig) {d : Drive} (hcommand : Moves d.command)
    (hpos : d.tf.pos = 0) {ws : List (BitVec 16)} (hlength : ws.length = 256) :
    ws.foldl (ideWriteData cfg) d =
      sectorGiven cfg
        { d with buffer := fill d.buffer 0 ws, tf.pos := 0, tf.atastat := bsyStat } := by
  obtain ⟨init, last, rfl⟩ : ∃ init last, ws = init ++ [last] := by
    refine ⟨ws.dropLast, ws.getLast ?_, (List.dropLast_append_getLast _).symm⟩
    intro hnil
    rw [hnil] at hlength
    exact absurd hlength (by decide)
  rw [List.length_append, List.length_singleton] at hlength
  have hinit : init.length = 255 := by omega
  have hpart := writes_part cfg hcommand (k := 0) hpos init (by omega)
  rw [hinit] at hpart
  rw [List.foldl_append, hpart, List.foldl_cons, List.foldl_nil]
  have hfill : Function.update (fill d.buffer 0 init) 255 last = fill d.buffer 0 (init ++ [last]) := by
    funext i
    unfold fill
    rw [List.length_append, List.length_singleton, hinit]
    by_cases hlast : i = 255
    · rw [hlast, Function.update_self, if_pos (by omega),
        List.getD_append_right _ _ _ _ (by omega), hinit]
      rfl
    rw [Function.update_of_ne hlast]
    by_cases hin : i < 255
    · rw [if_pos (by omega), if_pos (by omega), List.getD_append _ _ _ _ (by omega)]
    · rw [if_neg (by omega), if_neg (by omega)]
  unfold ideWriteData
  dsimp only
  rw [if_neg hcommand.1, if_neg hcommand.2, if_pos (by omega)]
  change sectorGiven cfg
    { d with
      buffer := Function.update (fill d.buffer 0 init) 255 last, tf.pos := 0, tf.atastat := bsyStat } = _
  rw [hfill]

/-! Words and bytes. -/

def byteAt (ws : List (BitVec 16)) (i : ℕ) : Byte :=
  if i % 2 = 0 then (ws.getD (i / 2) 0).setWidth 8 else (ws.getD (i / 2) 0 >>> 8).setWidth 8

def bytesOf (ws : List (BitVec 16)) : List Byte := (List.range (2 * ws.length)).map (byteAt ws)

theorem bytesOf_length (ws : List (BitVec 16)) : (bytesOf ws).length = 2 * ws.length := by
  unfold bytesOf
  rw [List.length_map, List.length_range]

theorem bytesOf_getD (ws : List (BitVec 16)) {i : ℕ} (hi : i < 2 * ws.length) :
    (bytesOf ws).getD i 0 = byteAt ws i := by
  unfold bytesOf
  rw [List.getD_eq_getElem?_getD, List.getElem?_map, List.getElem?_range hi]
  rfl

theorem sectors_length {sectors : List (List (BitVec 16))} (hlength : ∀ ws ∈ sectors, ws.length = 256) :
    (sectors.flatMap bytesOf).length = 512 * sectors.length := by
  induction sectors with
  | nil => rfl
  | cons ws sectors ih =>
    rw [List.flatMap_cons, List.length_append, bytesOf_length, hlength ws List.mem_cons_self,
      ih fun v hv => hlength v (List.mem_cons_of_mem _ hv), List.length_cons]
    omega

theorem sectors_getD {sectors : List (List (BitVec 16))} (hlength : ∀ ws ∈ sectors, ws.length = 256)
    {k i : ℕ} (hk : k < sectors.length) (hi : i < 512) :
    (sectors.flatMap bytesOf).getD (512 * k + i) 0 = byteAt (sectors.getD k []) i := by
  induction sectors generalizing k with
  | nil => exact absurd hk (Nat.not_lt_zero k)
  | cons ws sectors ih =>
    have hws := hlength ws List.mem_cons_self
    have hfirst : (bytesOf ws).length = 512 := by
      rw [bytesOf_length, hws]
    rw [List.flatMap_cons]
    cases k with
    | zero =>
      rw [List.getD_append _ _ _ _ (by omega), bytesOf_getD ws (by omega), List.getD_cons_zero]
      congr 1
      omega
    | succ k =>
      have hoffset : 512 * (k + 1) + i - (bytesOf ws).length = 512 * k + i := by omega
      rw [List.length_cons] at hk
      rw [List.getD_append_right _ _ _ _ (by omega), hoffset, List.getD_cons_succ]
      exact ih (fun v hv => hlength v (List.mem_cons_of_mem _ hv)) (by omega)

theorem byteAt_pair (ws : List (BitVec 16)) (i : ℕ) :
    byteAt ws (2 * i + 1) ++ byteAt ws (2 * i) = ws.getD i 0 := by
  have hodd : (2 * i + 1) / 2 = i := by omega
  have heven : 2 * i / 2 = i := by omega
  unfold byteAt
  rw [if_neg (by omega), if_pos (by omega), hodd, heven]
  exact word_of_bytes _

theorem fill_word (f : ℕ → BitVec 16) (ws : List (BitVec 16)) {i : ℕ} (hi : i < ws.length) :
    fill f 0 ws i = ws.getD i 0 := if_pos ⟨Nat.zero_le i, by omega⟩

theorem bufferBytes_of {d : Drive} {ws : List (BitVec 16)} (hlength : ws.length = 256)
    (hbuffer : ∀ i < 256, d.buffer i = ws.getD i 0) : bufferBytes d = bytesOf ws := by
  unfold bufferBytes bytesOf
  rw [hlength]
  refine List.map_congr_left ?_
  intro i hi
  have hlt := List.mem_range.mp hi
  unfold byteAt
  rw [hbuffer (i / 2) (by omega)]

theorem put_current (b : Board) : b.put b.curDev b.current = b := by
  unfold Board.put Board.current
  rw [Function.update_eq_self]

theorem put_put (b : Board) (ch : Bool) (d e : Drive) : (b.put ch d).put ch e = b.put ch e := by
  unfold Board.put
  rw [Function.update_idem]

theorem current_put (b : Board) (d : Drive) : (b.put b.curDev d).current = d :=
  Function.update_self _ _ _

theorem tick_armed (cfg : BoardConfig) {b : Board} {ch : Bool} (h : (b.drive ch).timer = true)
    (dma : Dma) :
    (boardMachine cfg).next b (.tick ch dma) =
      b.put ch (ideCallback cfg dma { b.drive ch with timer := false }).1 := by
  change (if (b.drive ch).timer = true then _ else _ : Board × Option Output).1 = _
  rw [if_pos h]

theorem tick_off (cfg : BoardConfig) {b : Board} {ch : Bool} (h : (b.drive ch).timer = false)
    (dma : Dma) : (boardMachine cfg).next b (.tick ch dma) = b := by
  change (if (b.drive ch).timer = true then _ else _ : Board × Option Output).1 = _
  rw [if_neg (Bool.eq_false_iff.mp h)]

theorem run_writes (cfg : BoardConfig) (b : Board) (ws : List (BitVec 16)) :
    (boardMachine cfg).run b (ws.map .writeData) =
      b.put b.curDev (ws.foldl (ideWriteData cfg) b.current) := by
  induction ws generalizing b with
  | nil => exact (put_current b).symm
  | cons w ws ih =>
    rw [List.map_cons, Machine.run_cons, List.foldl_cons, ih]
    change (b.put b.curDev (ideWriteData cfg b.current w)).put b.curDev
      (ws.foldl (ideWriteData cfg) (b.put b.curDev (ideWriteData cfg b.current w)).current) = _
    rw [put_put, current_put]

def WhileDrq (b : Board) : Event → Prop
  | .writeData _ => b.current.tf.atastat &&& drqStat ≠ 0
  | .readData => b.current.tf.atastat &&& drqStat ≠ 0
  | _ => True

theorem writes_drq (cfg : BoardConfig) {b : Board} (hcommand : Moves b.current.command)
    (hdrq : b.current.tf.atastat &&& drqStat ≠ 0) {k : ℕ} (hpos : b.current.tf.pos = 2 * k)
    (ws : List (BitVec 16)) (hroom : k + ws.length ≤ 256) :
    (boardMachine cfg).Along WhileDrq b (ws.map .writeData) := by
  induction ws generalizing b k with
  | nil => exact trivial
  | cons w ws ih =>
    rw [List.length_cons] at hroom
    refine ⟨hdrq, ?_⟩
    by_cases hlast : ws = []
    · rw [hlast]
      exact trivial
    have hmore : 0 < ws.length := List.length_pos_of_ne_nil hlast
    have hstep := writes_part cfg hcommand hpos [w] (by rw [List.length_singleton]; omega)
    have hnext : ((boardMachine cfg).next b (.writeData w)).current =
        { b.current with buffer := fill b.current.buffer k [w], tf.pos := 2 * (k + 1) } :=
      (current_put b _).trans hstep
    refine ih (k := k + 1) ?_ ?_ ?_ (by omega)
    · rw [hnext]
      exact hcommand
    · rw [hnext]
      exact hdrq
    · rw [hnext]

/-! Words out. -/

theorem read_word (cfg : BoardConfig) {d : Drive} (hcommand : Moves d.command) {k : ℕ}
    (hpos : d.tf.pos = 2 * k) (hroom : k + 1 < 256) :
    ideReadData cfg d = ({ d with tf.pos := 2 * (k + 1) }, d.buffer k) := by
  unfold ideReadData
  have hindex : (2 * k) >>> 1 = k := by
    rw [Nat.shiftRight_eq_div_pow]
    omega
  dsimp only
  rw [if_neg hcommand.1, if_neg hcommand.2, hpos, hindex, if_neg (by omega)]
  rfl

theorem read_last (cfg : BoardConfig) {d : Drive} (hcommand : Moves d.command)
    (hpos : d.tf.pos = 2 * 255) :
    ideReadData cfg d =
      (sectorTaken cfg { d with tf.pos := 0, tf.atastat := drdyStat ||| dscStat }, d.buffer 255) := by
  unfold ideReadData
  dsimp only
  rw [if_neg hcommand.1, if_neg hcommand.2, hpos, if_pos (by omega)]
  rfl

theorem reads_from (cfg : BoardConfig) {b : Board} (hcommand : Moves b.current.command)
    (hdrq : b.current.tf.atastat &&& drqStat ≠ 0) {k : ℕ} (hpos : b.current.tf.pos = 2 * k) {n : ℕ}
    (hroom : k + n + 1 = 256) :
    (boardMachine cfg).run b (List.replicate (n + 1) .readData) =
        b.put b.curDev
          (sectorTaken cfg { b.current with tf.pos := 0, tf.atastat := drdyStat ||| dscStat }) ∧
      (boardMachine cfg).trace b (List.replicate (n + 1) .readData) =
        (List.range' k (n + 1)).map (fun i => Output.word (b.current.buffer i)) ∧
      (boardMachine cfg).Along WhileDrq b (List.replicate (n + 1) .readData) := by
  induction n generalizing b k with
  | zero =>
    have hk : k = 255 := by omega
    rw [hk] at hpos ⊢
    have hlast := read_last cfg hcommand hpos
    refine ⟨?_, ?_, hdrq, trivial⟩
    · change b.put b.curDev (ideReadData cfg b.current).1 = _
      rw [hlast]
    · change [Output.word (ideReadData cfg b.current).2] = _
      rw [hlast]
      rfl
  | succ n ih =>
    have hword := read_word cfg hcommand hpos (by omega)
    have hnext : (boardMachine cfg).next b .readData =
        b.put b.curDev { b.current with tf.pos := 2 * (k + 1) } := by
      change b.put b.curDev (ideReadData cfg b.current).1 = _
      rw [hword]
    have hanswer : (boardMachine cfg).answer b .readData = some (.word (b.current.buffer k)) := by
      change some (Output.word (ideReadData cfg b.current).2) = _
      rw [hword]
    have hcurrent := current_put b { b.current with tf.pos := 2 * (k + 1) }
    obtain ⟨hrun, htrace, hrest⟩ := ih (b := b.put b.curDev { b.current with tf.pos := 2 * (k + 1) })
      (k := k + 1) (by rw [hcurrent]; exact hcommand) (by rw [hcurrent]; exact hdrq)
      (by rw [hcurrent]) (by omega)
    rw [hcurrent] at hrun htrace
    refine ⟨?_, ?_, ?_⟩
    · rw [List.replicate_succ, Machine.run_cons, hnext, hrun]
      exact put_put b _ _ _
    · rw [List.replicate_succ, Machine.trace_cons, hnext, hanswer, htrace]
      rfl
    · rw [List.replicate_succ]
      refine ⟨hdrq, ?_⟩
      rw [hnext]
      exact hrest

theorem reads_sector (cfg : BoardConfig) {b : Board} (hcommand : Moves b.current.command)
    (hdrq : b.current.tf.atastat &&& drqStat ≠ 0) (hpos : b.current.tf.pos = 0) :
    (boardMachine cfg).run b (List.replicate 256 .readData) =
        b.put b.curDev
          (sectorTaken cfg { b.current with tf.pos := 0, tf.atastat := drdyStat ||| dscStat }) ∧
      (boardMachine cfg).trace b (List.replicate 256 .readData) =
        (List.range 256).map (fun i => Output.word (b.current.buffer i)) ∧
      (boardMachine cfg).Along WhileDrq b (List.replicate 256 .readData) := by
  rw [List.range_eq_range']
  exact reads_from cfg hcommand hdrq (k := 0) hpos (n := 255) rfl

end PeepeeBox.DataPort
