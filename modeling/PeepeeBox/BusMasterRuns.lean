import PeepeeBox.BusMasterTransfers

set_option autoImplicit false

/-!
# Calls against a descriptor list

A start and the calls after it move the regions against the buffers once, in order, whatever the
lengths of the calls are.
-/
namespace PeepeeBox.BusMasterRuns
open BusMaster BusMasterCopies BusMasterTransfers ScatterGather

def rows (calls : List Call) : List (Bool × List Byte) := calls.map fun c => (c.out, c.data)

def moved (calls : List Call) : ℕ := (calls.map fun c => c.data.length).sum

def verdicts : ℕ → List Call → List ℕ
  | _, [] => []
  | s, c :: cs => verdict s c.data.length :: verdicts (s - c.data.length) cs

/-- No call comes after one that failed. -/
def Orderly : ℕ → List Call → Prop
  | _, [] => True
  | s, c :: cs => (0 < s → s < c.data.length → cs = []) ∧ Orderly (s - c.data.length) cs

instance decidableOrderly : (s : ℕ) → (calls : List Call) → Decidable (Orderly s calls)
  | _, [] => isTrue trivial
  | s, c :: cs =>
    have : Decidable (Orderly (s - c.data.length) cs) := decidableOrderly _ cs
    have : Decidable (cs = []) := decidable_of_iff (cs.length = 0) List.length_eq_zero_iff
    inferInstanceAs (Decidable (_ ∧ _))

theorem moved_cons (c : Call) (cs : List Call) : moved (c :: cs) = c.data.length + moved cs := List.sum_cons

/-- The calls `calls` have moved their bytes against the cells `cs`. -/
structure Ran (m : Memory) (cs : List (BitVec 32)) (calls : List Call) (r : Result) : Prop where
  mem : r.mem = { m with byte := (serveAll m.byte cs (rows calls)).1 }
  data : r.answers.map Answer.data = (serveAll m.byte cs (rows calls)).2
  ret : r.answers.map Answer.ret = verdicts cs.length calls
  part : moved calls < cs.length → r.dev.status.getLsbD 0 = true
  all : (∃ k, moved (calls.take k) = cs.length) →
    r.dev.status.getLsbD 0 = false ∧ r.dev.status.getLsbD 1 = false
  more : cs.length < moved calls → (∀ k, moved (calls.take k) ≠ cs.length) →
    r.dev.status.getLsbD 1 = true

theorem dmaCalls_idle (m : Memory) {dev : Sff} (hidle : dev.status.getLsbD 0 = false)
    (calls : List Call) :
    ∃ answers, dmaCalls m dev calls = some { mem := m, dev := dev, answers := answers } ∧
      answers.map Answer.data = (serveAll m.byte [] (rows calls)).2 ∧
      (serveAll m.byte [] (rows calls)).1 = m.byte ∧ answers.map Answer.ret = verdicts 0 calls := by
  induction calls with
  | nil => exact ⟨[], rfl, rfl, rfl, rfl⟩
  | cons c calls ih =>
    obtain ⟨answers, hcalls, hdata, hbyte, hret⟩ := ih
    have hcall : sffBusMasterDma m dev c.data c.data.length c.totalLength c.out =
        some { mem := m, dev := dev, data := c.data, ret := 2 } := if_pos hidle
    have hall : serveAll m.byte [] (rows (c :: calls)) =
        ((serveAll m.byte [] (rows calls)).1, c.data :: (serveAll m.byte [] (rows calls)).2) := by
      change (let r := serve c.out m.byte [] c.data
        let s := serveAll r.1 (([] : List (BitVec 32)).drop c.data.length) (rows calls)
        (s.1, r.2 :: s.2)) = _
      rw [serve_none, List.drop_nil]
    refine ⟨{ data := c.data, ret := 2 } :: answers, ?_, ?_, ?_, ?_⟩
    · unfold dmaCalls
      rw [hcall, Option.bind_some, hcalls]
      rfl
    · rw [hall, List.map_cons, hdata]
    · rw [hall]
      exact hbyte
    · unfold verdicts
      rw [List.map_cons, hret, Nat.zero_sub]
      rfl

theorem dmaCalls_ran {m : Memory} {dev : Sff} {cs : List (BitVec 32)} {rest : List Region}
    (h : Loaded m dev cs rest) (hactive : dev.status.getLsbD 0 = true) (calls : List Call)
    (hdata : ∀ c ∈ calls, c.data ≠ []) (htotals : ∀ c ∈ calls.dropLast, c.totalLength ≠ 0)
    (horderly : Orderly cs.length calls) : ∃ r, dmaCalls m dev calls = some r ∧ Ran m cs calls r := by
  induction calls generalizing m dev cs rest with
  | nil =>
    have hpos := h.pos
    have htotal := h.total
    refine ⟨_, rfl, rfl, rfl, rfl, fun _ => hactive, ?_, fun hlt => absurd hlt (Nat.not_lt_zero _)⟩
    intro ⟨k, hk⟩
    rw [List.take_nil] at hk
    exact absurd hk (by change 0 ≠ _; omega)
  | cons c calls ih =>
    have hpos := h.pos
    have htotal := h.total
    have hne := hdata c List.mem_cons_self
    obtain ⟨hstop, hnext⟩ := horderly
    obtain ⟨dev', hloop, hafter⟩ := @dmaLoop_row c.out c.totalLength
      (c.data.length + 1) _ _ _ _ h hactive [] _ hne (Nat.lt_succ_self _)
    have hcall : sffBusMasterDma m dev c.data c.data.length c.totalLength c.out =
        some
          { mem := served c.out m cs c.data
            dev := dev'
            data := (serve c.out m.byte cs c.data).2
            ret := verdict cs.length c.data.length } := by
      unfold sffBusMasterDma
      rw [if_neg (fun hidle => Bool.noConfusion (hactive.symm.trans hidle))]
      exact hloop
    have hdrop : (cs.drop c.data.length).length = cs.length - c.data.length := List.length_drop
    -- what the calls after this one do is put behind it
    have hcons {r : Result} (hcalls : dmaCalls (served c.out m cs c.data) dev' calls = some r) :
        dmaCalls m dev (c :: calls) =
          some
            { r with
              answers := { data := (serve c.out m.byte cs c.data).2
                           ret := verdict cs.length c.data.length } :: r.answers } := by
      unfold dmaCalls
      rw [hcall, Option.bind_some, hcalls]
      rfl
    have htake (k : ℕ) : moved ((c :: calls).take (k + 1)) = c.data.length + moved (calls.take k) := by
      rw [List.take_succ_cons, moved_cons]
    have hstart (k : ℕ) (hk : moved ((c :: calls).take k) = cs.length) :
        ∃ j, k = j + 1 ∧ c.data.length + moved (calls.take j) = cs.length := by
      cases k with
      | zero => exact absurd hk (by change 0 ≠ _; omega)
      | succ j => exact ⟨j, rfl, (htake j).symm.trans hk⟩
    rcases Nat.lt_trichotomy c.data.length cs.length with hlt | heq | hgt
    · obtain ⟨hstill, hloaded⟩ := hafter.part hlt
      have hrun : ∃ r, dmaCalls (served c.out m cs c.data) dev' calls = some r ∧
          Ran (served c.out m cs c.data) (cs.drop c.data.length) calls r := by
        cases hcalls : calls with
        | nil =>
          refine ⟨_, rfl, rfl, rfl, rfl, fun _ => hstill, ?_, fun hlt => absurd hlt (Nat.not_lt_zero _)⟩
          intro ⟨k, hk⟩
          rw [List.take_nil] at hk
          exact absurd hk (by change 0 ≠ _; omega)
        | cons d ds =>
          have hfirst : c ∈ (c :: calls).dropLast := by
            rw [hcalls]
            exact List.mem_cons_self
          obtain ⟨rest', hrest⟩ := hloaded (htotals c hfirst)
          rw [← hcalls]
          refine ih hrest hstill (fun e he => hdata e (List.mem_cons_of_mem _ he)) ?_ (hdrop ▸ hnext)
          intro e he
          refine htotals e ?_
          rw [hcalls] at he ⊢
          exact List.mem_cons_of_mem _ he
      obtain ⟨r, hcalls, hran⟩ := hrun
      refine ⟨_, hcons hcalls, hran.mem, congrArg _ hran.data, ?_, ?_, ?_, ?_⟩
      · have hret := hran.ret
        rw [hdrop] at hret
        exact congrArg _ hret
      · intro hless
        rw [moved_cons] at hless
        exact hran.part (by omega)
      · intro ⟨k, hk⟩
        obtain ⟨j, -, hj⟩ := hstart k hk
        exact hran.all ⟨j, by omega⟩
      · intro hover hno
        rw [moved_cons] at hover
        refine hran.more (by omega) ?_
        intro k hk
        exact hno (k + 1) ((htake k).trans (by omega))
    · have hboth := hafter.all heq
      have hnil : cs.drop c.data.length = [] := List.drop_eq_nil_of_le (Nat.le_of_eq heq.symm)
      obtain ⟨answers, hcalls, hanswers, hbyte, hret⟩ :=
        dmaCalls_idle (served c.out m cs c.data) hboth.1 calls
      have hall : serveAll m.byte cs (rows (c :: calls)) =
          ((served c.out m cs c.data).byte,
            (serve c.out m.byte cs c.data).2 ::
              (serveAll (served c.out m cs c.data).byte [] (rows calls)).2) := by
        change (let s := serveAll (served c.out m cs c.data).byte (cs.drop c.data.length) (rows calls)
          (s.1, (serve c.out m.byte cs c.data).2 :: s.2)) = _
        rw [hnil]
        exact congrArg (·, _) hbyte
      refine ⟨_, hcons hcalls, ?_, ?_, ?_, ?_, fun _ => hboth, ?_⟩
      · rw [hall]
        rfl
      · rw [hall]
        exact congrArg _ hanswers
      · unfold verdicts
        rw [← heq, Nat.sub_self]
        exact congrArg _ hret
      · intro hless
        rw [moved_cons] at hless
        omega
      · intro _ hno
        exact absurd ((htake 0).trans heq) (hno 1)
    · obtain rfl := hstop (by omega) hgt
      refine ⟨_, hcons rfl, rfl, rfl, rfl, ?_, ?_, fun _ _ => hafter.more hgt⟩
      · intro hless
        rw [moved_cons] at hless
        omega
      · intro ⟨k, hk⟩
        obtain ⟨j, -, hj⟩ := hstart k hk
        omega

/-- A descriptor list at `p`, with its regions in memory that is there. -/
structure Table (m : Memory) (p : BitVec 32) (rs : List Region) : Prop where
  regions : rs ≠ []
  listed : Listed m p rs
  valid : ∀ r ∈ rs, r.Valid
  disjoint : (allCells rs).Nodup
  installed : ∀ x ∈ allCells rs, m.installed x = true

structure Calls (calls : List Call) : Prop where
  data : ∀ c ∈ calls, c.data ≠ []
  totals : ∀ c ∈ calls.dropLast, c.totalLength ≠ 0

/-- What the calls are to do: value `k` of their buffers is against cell `k` of the regions. -/
structure Follows (m : Memory) (rs : List Region) (calls : List Call) (r : Result) : Prop where
  answers : r.answers.map (fun a => a.data.length) = calls.map fun c => c.data.length
  ret : ∀ (k : ℕ) (c : Call), calls[k]? = some c →
    (r.answers.map Answer.ret)[k]? =
      some (verdict ((allCells rs).length - moved (calls.take k)) c.data.length)
  value : ∀ (k : ℕ) (out : Bool) (b : Byte), (lane (rows calls))[k]? = some (out, b) →
    (r.answers.flatMap Answer.data)[k]? = some (if out then ((allCells rs)[k]?.map m.byte).getD b else b)
  cell : ∀ (k : ℕ) (b : Byte) (x : BitVec 32), (lane (rows calls))[k]? = some (false, b) →
    (allCells rs)[k]? = some x → r.mem.byte x = b
  other : ∀ x : BitVec 32,
    (∀ (k : ℕ) (b : Byte), (lane (rows calls))[k]? = some (false, b) → (allCells rs)[k]? ≠ some x) →
      r.mem.byte x = m.byte x
  part : moved calls < (allCells rs).length → r.dev.status.getLsbD 0 = true
  all : (∃ k, moved (calls.take k) = (allCells rs).length) →
    r.dev.status.getLsbD 0 = false ∧ r.dev.status.getLsbD 1 = false
  more : (allCells rs).length < moved calls → (∀ k, moved (calls.take k) ≠ (allCells rs).length) →
    r.dev.status.getLsbD 1 = true

theorem verdicts_get (s : ℕ) (calls : List Call) (k : ℕ) :
    (verdicts s calls)[k]? = calls[k]?.map fun c => verdict (s - moved (calls.take k)) c.data.length := by
  induction calls generalizing s k with
  | nil => rfl
  | cons c calls ih =>
    cases k with
    | zero => rfl
    | succ k =>
      unfold verdicts
      rw [List.getElem?_cons_succ, List.getElem?_cons_succ, ih, List.take_succ_cons, moved_cons]
      rw [Nat.sub_sub]

theorem serveAll_lengths (f : BitVec 32 → Byte) (cs : List (BitVec 32)) (calls : List Call) :
    (serveAll f cs (rows calls)).2.map List.length = calls.map fun c => c.data.length := by
  induction calls generalizing f cs with
  | nil => rfl
  | cons c calls ih =>
    have hhead := serve_length c.out f cs c.data
    have hrest := ih (serve c.out f cs c.data).1 (cs.drop c.data.length)
    exact congrArg₂ List.cons hhead hrest

theorem Ran.follows {m : Memory} {rs : List Region} {calls : List Call} {r : Result}
    (h : Ran m (allCells rs) calls r) (hdisjoint : (allCells rs).Nodup) : Follows m rs calls r := by
  have hpass := serveAll_pass m.byte (allCells rs) (rows calls)
  have hvalues : r.answers.flatMap Answer.data = (pass m.byte (allCells rs) (lane (rows calls))).2 := by
    rw [hpass, List.flatMap_def, h.data]
  have hcells : r.mem.byte = (pass m.byte (allCells rs) (lane (rows calls))).1 := by
    rw [hpass, h.mem]
  refine ⟨?_, ?_, ?_, ?_, ?_, h.part, h.all, h.more⟩
  · have hlengths := serveAll_lengths m.byte (allCells rs) calls
    rw [← h.data, List.map_map] at hlengths
    exact hlengths
  · intro k c hc
    rw [h.ret, verdicts_get, hc]
    rfl
  · intro k out b hb
    rw [hvalues]
    exact pass_value m.byte hdisjoint _ hb
  · intro k b x hb hx
    rw [hcells]
    exact pass_cell m.byte hdisjoint _ hb hx
  · intro x hx
    rw [hcells]
    exact pass_frame m.byte _ _ hx

theorem start_loaded {memSize : BitVec 32} {m : Memory} {dev : Sff} {rs : List Region} {port : BitVec 16}
    {val : Byte} (htable : Table m dev.ptr rs) (heven : ∀ r ∈ rs, r.count % 2 = 0)
    (hapart : ∀ x ∈ allCells rs, x ∉ span dev.ptr (8 * rs.length)) (hport : (port &&& 7).toNat = 0)
    (hval : val.getLsbD 0 = true) (hcommand : dev.command.getLsbD 0 = false) :
    Loaded m (sffBusMasterWrite memSize m dev port val) (allCells rs) rs.tail ∧
      (sffBusMasterWrite memSize m dev port val).status.getLsbD 0 = true := by
  have hset (status : Byte) : (status ||| 1).getLsbD 0 = true := by
    revert status
    decide +kernel
  cases hrs : rs with
  | nil => exact absurd hrs htable.regions
  | cons r rest =>
    rw [hrs] at htable heven hapart
    have hvalid := htable.valid r List.mem_cons_self
    have hhigh := hvalid.high
    have hlow := hvalid.low
    have hcount : (BitVec.ofNat 32 r.count).toNat = r.count := by
      rw [BitVec.toNat_ofNat]
      omega
    have hgo {p : Prop} : ¬ (val.getLsbD 0 = false ∧ p) := fun hboth =>
      Bool.noConfusion (hval.symm.trans hboth.1)
    have hnext := @nextAddr_entry m { dev with ptrCur := dev.ptr } _ _ htable.listed.1 hvalid
      (heven r List.mem_cons_self)
    have hstart : sffBusMasterWrite memSize m dev port val =
        { dev with
          command := val, status := dev.status ||| 1, ptrCur := dev.ptr + 8, addr := r.addr
          count := BitVec.ofNat 32 r.count, eot := rest.isEmpty } := by
      unfold sffBusMasterWrite
      rw [hport]
      dsimp only
      rw [if_neg hgo, if_pos ⟨hval, hcommand⟩, hnext]
      rfl
    rw [hstart]
    refine ⟨⟨?_, ?_, rfl, htable.listed.2, ?_, ?_, htable.installed⟩, hset _⟩
    · change 0 < (BitVec.ofNat 32 r.count).toNat
      omega
    · change _ = span r.addr (BitVec.ofNat 32 r.count).toNat ++ allCells rest
      rw [hcount]
      rfl
    · intro q hq
      have hmem := List.mem_cons_of_mem r hq
      exact ⟨htable.valid q hmem, heven q hmem⟩
    · intro x hx hmem
      refine hapart x hx ?_
      rw [List.length_cons, Nat.mul_succ, Nat.add_comm, span_add]
      exact List.mem_append_right _ hmem

theorem transfers_follow_list {memSize : BitVec 32} {m : Memory} {dev : Sff} {rs : List Region}
    {port : BitVec 16} {val : Byte} {calls : List Call} (htable : Table m dev.ptr rs)
    (heven : ∀ r ∈ rs, r.count % 2 = 0) (hapart : ∀ x ∈ allCells rs, x ∉ span dev.ptr (8 * rs.length))
    (hport : (port &&& 7).toNat = 0) (hval : val.getLsbD 0 = true)
    (hcommand : dev.command.getLsbD 0 = false) (hcalls : Calls calls)
    (horderly : Orderly (allCells rs).length calls) :
    ∃ r, dmaCalls m (sffBusMasterWrite memSize m dev port val) calls = some r ∧ Follows m rs calls r := by
  obtain ⟨hloaded, hactive⟩ :=
    @start_loaded memSize _ _ _ _ _ htable heven hapart hport hval hcommand
  obtain ⟨r, hrun, hran⟩ := dmaCalls_ran hloaded hactive calls hcalls.data hcalls.totals horderly
  exact ⟨r, hrun, hran.follows htable.disjoint⟩

def ram (bytes : List Byte) : Memory where
  installed a := a.toNat < 64
  byte a := bytes.getD a.toNat 0

def stopped : Sff where
  command := 0
  status := 0
  dmaMode := 0
  ptr0 := 0
  ptr := 0
  ptrCur := 0
  addr := 0
  count := 0
  eot := false

/-- Two regions, a call that ends inside the second and one that ends with it. -/
theorem transfers_follow_list_two :
    ∃ r, dmaCalls (ram [32, 0, 0, 0, 2, 0, 0, 0, 48, 0, 0, 0, 4, 0, 0, 0x80])
        (sffBusMasterWrite 4096
          (ram [32, 0, 0, 0, 2, 0, 0, 0, 48, 0, 0, 0, 4, 0, 0, 0x80]) stopped 0 9)
        [{ out := false, data := [1, 2, 3], totalLength := 3 },
          { out := true, data := [7, 7, 7], totalLength := 0 }] = some r ∧
      Follows (ram [32, 0, 0, 0, 2, 0, 0, 0, 48, 0, 0, 0, 4, 0, 0, 0x80]) [⟨32, 2⟩, ⟨48, 4⟩]
        [{ out := false, data := [1, 2, 3], totalLength := 3 },
          { out := true, data := [7, 7, 7], totalLength := 0 }] r := by
  refine transfers_follow_list ⟨by decide, ?_, ?_, by decide +kernel, List.all_eq_true.mp (by decide +kernel)⟩ (by decide)
    ?_ rfl rfl rfl ⟨by decide, by decide⟩ (by decide +kernel)
  · refine ⟨⟨?_, ?_, ?_⟩, ⟨?_, ?_, ?_⟩, trivial⟩ <;> decide +kernel
  · intro r hr
    rcases List.mem_pair.mp hr with rfl | rfl
    · exact ⟨rfl, by decide, by decide⟩
    · exact ⟨rfl, by decide, by decide⟩
  · have hall : (allCells [⟨32, 2⟩, ⟨48, 4⟩]).all (fun x => decide (x ∉ span 0 16)) = true := by
      decide +kernel
    intro x hx
    exact of_decide_eq_true (List.all_eq_true.mp hall x hx)

/-- A call after one that failed moves the last region again, an odd count ends a byte early, and
a list that a transfer overwrites is followed as it then reads. -/
theorem transfers_depart_from_list :
    (Table (ram [32, 0, 0, 0, 2, 0, 0, 0x80]) 0 [⟨32, 2⟩] ∧
      ¬ ∃ r, dmaCalls (ram [32, 0, 0, 0, 2, 0, 0, 0x80])
          (sffBusMasterWrite 4096 (ram [32, 0, 0, 0, 2, 0, 0, 0x80]) stopped 0 1)
          [{ out := false, data := [1, 2, 3], totalLength := 2 },
            { out := false, data := [4, 5], totalLength := 0 }] = some r ∧
        Follows (ram [32, 0, 0, 0, 2, 0, 0, 0x80]) [⟨32, 2⟩]
          [{ out := false, data := [1, 2, 3], totalLength := 2 },
            { out := false, data := [4, 5], totalLength := 0 }] r) ∧
      (Table (ram [32, 0, 0, 0, 3, 0, 0, 0x80]) 0 [⟨32, 3⟩] ∧
        ¬ ∃ r, dmaCalls (ram [32, 0, 0, 0, 3, 0, 0, 0x80])
            (sffBusMasterWrite 4096 (ram [32, 0, 0, 0, 3, 0, 0, 0x80]) stopped 0 1)
            [{ out := false, data := [1, 2, 3], totalLength := 0 }] = some r ∧
          Follows (ram [32, 0, 0, 0, 3, 0, 0, 0x80]) [⟨32, 3⟩]
            [{ out := false, data := [1, 2, 3], totalLength := 0 }] r) ∧
        Table (ram [8, 0, 0, 0, 8, 0, 0, 0, 32, 0, 0, 0, 2, 0, 0, 0x80]) 0 [⟨8, 8⟩, ⟨32, 2⟩] ∧
          ¬ ∃ r, dmaCalls (ram [8, 0, 0, 0, 8, 0, 0, 0, 32, 0, 0, 0, 2, 0, 0, 0x80])
              (sffBusMasterWrite 4096
                (ram [8, 0, 0, 0, 8, 0, 0, 0, 32, 0, 0, 0, 2, 0, 0, 0x80]) stopped 0 1)
              [{ out := false, data := List.replicate 8 0, totalLength := 2 },
                { out := false, data := [5, 6], totalLength := 0 }] = some r ∧
            Follows (ram [8, 0, 0, 0, 8, 0, 0, 0, 32, 0, 0, 0, 2, 0, 0, 0x80]) [⟨8, 8⟩, ⟨32, 2⟩]
              [{ out := false, data := List.replicate 8 0, totalLength := 2 },
                { out := false, data := [5, 6], totalLength := 0 }] r := by
  refine ⟨⟨⟨by decide, ?_, ?_, by decide +kernel, List.all_eq_true.mp (by decide +kernel)⟩, ?_⟩,
    ⟨⟨by decide, ?_, ?_, by decide +kernel, List.all_eq_true.mp (by decide +kernel)⟩, ?_⟩,
    ⟨by decide, ?_, ?_, by decide +kernel, List.all_eq_true.mp (by decide +kernel)⟩, ?_⟩
  · refine ⟨⟨?_, ?_, ?_⟩, trivial⟩ <;> decide +kernel
  · intro r hr
    obtain rfl := List.mem_singleton.mp hr
    exact ⟨rfl, by decide, by decide⟩
  · intro ⟨r, hrun, h⟩
    have hcell := h.cell 0 1 32 (by decide) (by decide)
    have hlast := congrArg (Option.map fun r => r.mem.byte 32) hrun
    rw [Option.map_some, hcell] at hlast
    revert hlast
    decide +kernel
  · refine ⟨⟨?_, ?_, ?_⟩, trivial⟩ <;> decide +kernel
  · intro r hr
    obtain rfl := List.mem_singleton.mp hr
    exact ⟨rfl, by decide, by decide⟩
  · intro ⟨r, hrun, h⟩
    have hret := h.ret 0 _ rfl
    have hfirst := congrArg (Option.bind · fun r => (r.answers.map Answer.ret)[0]?) hrun
    dsimp only [Option.bind_some] at hfirst
    rw [hret] at hfirst
    revert hfirst
    decide +kernel
  · refine ⟨⟨?_, ?_, ?_⟩, ⟨?_, ?_, ?_⟩, trivial⟩ <;> decide +kernel
  · intro r hr
    rcases List.mem_pair.mp hr with rfl | rfl
    · exact ⟨rfl, by decide, by decide⟩
    · exact ⟨rfl, by decide, by decide⟩
  · intro ⟨r, hrun, h⟩
    have hret := h.ret 1 _ rfl
    have hsecond := congrArg (Option.bind · fun r => (r.answers.map Answer.ret)[1]?) hrun
    dsimp only [Option.bind_some] at hsecond
    rw [hret] at hsecond
    revert hsecond
    decide +kernel

end PeepeeBox.BusMasterRuns
