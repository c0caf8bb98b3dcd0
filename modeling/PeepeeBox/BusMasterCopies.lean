import PeepeeBox.BusMaster
import PeepeeBox.ScatterGather

set_option autoImplicit false

/-!
# Copies in longs are copies of bytes

A copy moves exactly its bytes, at any address and of any length; the long at its end that it
shares with other bytes gets those back as they were.
-/
namespace PeepeeBox.BusMasterCopies
open BusMaster ScatterGather

/-- The addresses from `a` on. -/
def span (a : BitVec 32) (n : ℕ) : List (BitVec 32) :=
  (List.range n).map fun i => a + BitVec.ofNat 32 i

theorem span_length (a : BitVec 32) (n : ℕ) : (span a n).length = n := by
  unfold span
  rw [List.length_map, List.length_range]

theorem add_ofNat_add (a : BitVec 32) (i j : ℕ) :
    a + BitVec.ofNat 32 i + BitVec.ofNat 32 j = a + BitVec.ofNat 32 (i + j) := by
  rw [BitVec.add_assoc, BitVec.ofNat_add]

theorem span_add (a : BitVec 32) (i j : ℕ) :
    span a (i + j) = span a i ++ span (a + BitVec.ofNat 32 i) j := by
  unfold span
  rw [List.range_add, List.map_append, List.map_map]
  refine congrArg (_ ++ ·) (List.map_congr_left ?_)
  intro k _
  exact (add_ofNat_add a i k).symm

theorem span_succ (a : BitVec 32) (n : ℕ) : span a (n + 1) = a :: span (a + 1) n := by
  rw [Nat.add_comm n 1, span_add]
  unfold span
  rw [List.range_one, List.map_singleton, BitVec.add_zero]
  rfl

theorem span_take (a : BitVec 32) {i n : ℕ} (h : i ≤ n) : (span a n).take i = span a i := by
  obtain ⟨j, rfl⟩ := Nat.exists_eq_add_of_le h
  rw [span_add, List.take_left' (span_length a i)]

theorem span_drop (a : BitVec 32) {i n : ℕ} (h : i ≤ n) :
    (span a n).drop i = span (a + BitVec.ofNat 32 i) (n - i) := by
  obtain ⟨j, rfl⟩ := Nat.exists_eq_add_of_le h
  rw [span_add, List.drop_left' (span_length a i), Nat.add_sub_cancel_left]

theorem memReadPhys_add (m : Memory) (a : BitVec 32) (i j : ℕ) :
    memReadPhys m a (i + j) = memReadPhys m a i ++ memReadPhys m (a + BitVec.ofNat 32 i) j := by
  unfold memReadPhys
  rw [List.range_add, List.map_append, List.map_map]
  refine congrArg (_ ++ ·) (List.map_congr_left ?_)
  intro k _
  exact congrArg (memReadbPhys m) (add_ofNat_add a i k).symm

theorem memReadPhys_succ (m : Memory) (a : BitVec 32) (n : ℕ) :
    memReadPhys m a (n + 1) = memReadbPhys m a :: memReadPhys m (a + 1) n := by
  rw [Nat.add_comm n 1, memReadPhys_add]
  unfold memReadPhys
  rw [List.range_one, List.map_singleton, BitVec.add_zero]
  rfl

theorem memReadPhys_length (m : Memory) (a : BitVec 32) (n : ℕ) : (memReadPhys m a n).length = n := by
  unfold memReadPhys
  rw [List.length_map, List.length_range]

theorem memReadPhys_congr {m m' : Memory} {a : BitVec 32} {n : ℕ}
    (h : ∀ x ∈ span a n, memReadbPhys m' x = memReadbPhys m x) : memReadPhys m' a n = memReadPhys m a n := by
  unfold memReadPhys
  refine List.map_congr_left ?_
  intro i hi
  exact h _ (List.mem_map_of_mem hi)

theorem memWritePhys_append (m : Memory) (a : BitVec 32) (xs ys : List Byte) :
    memWritePhys m a (xs ++ ys) = memWritePhys (memWritePhys m a xs) (a + BitVec.ofNat 32 xs.length) ys := by
  induction xs generalizing m a with
  | nil =>
    rw [List.length_nil, BitVec.add_zero]
    rfl
  | cons x xs ih =>
    change memWritePhys (memWritebPhys m a x) (a + 1) (xs ++ ys) = _
    rw [ih, List.length_cons, Nat.add_comm, ← add_ofNat_add]
    rfl

theorem memWritebPhys_self (m : Memory) (a : BitVec 32) : memWritebPhys m a (memReadbPhys m a) = m := by
  unfold memWritebPhys memReadbPhys
  split
  · rw [Function.update_eq_self]
  · rfl

theorem memWritePhys_self (m : Memory) (a : BitVec 32) (n : ℕ) :
    memWritePhys m a (memReadPhys m a n) = m := by
  induction n generalizing a with
  | zero => rfl
  | succ n ih =>
    rw [memReadPhys_succ]
    change memWritePhys (memWritebPhys m a (memReadbPhys m a)) (a + 1) _ = m
    rw [memWritebPhys_self]
    exact ih (a + 1)

theorem memWritebPhys_other (m : Memory) {a x : BitVec 32} (b : Byte) (h : x ≠ a) :
    memReadbPhys (memWritebPhys m a b) x = memReadbPhys m x := by
  unfold memReadbPhys memWritebPhys
  split
  · dsimp only
    rw [Function.update_of_ne h]
  · rfl

theorem memWritePhys_other (m : Memory) {a x : BitVec 32} {bs : List Byte} (h : x ∉ span a bs.length) :
    memReadbPhys (memWritePhys m a bs) x = memReadbPhys m x := by
  induction bs generalizing m a with
  | nil => rfl
  | cons b bs ih =>
    rw [List.length_cons, span_succ] at h
    have hrest := ih (memWritebPhys m a b) (a := a + 1) fun hmem => h (List.mem_cons_of_mem _ hmem)
    exact hrest.trans (memWritebPhys_other m b fun heq => h (heq ▸ List.mem_cons_self))

theorem memWritePhys_scatter (m : Memory) (a : BitVec 32) (bs : List Byte)
    (h : ∀ x ∈ span a bs.length, m.installed x = true) :
    memWritePhys m a bs = { m with byte := scatter m.byte (span a bs.length) bs } := by
  induction bs generalizing m a with
  | nil => rfl
  | cons b bs ih =>
    rw [List.length_cons, span_succ] at h ⊢
    have hfirst : memWritebPhys m a b = { m with byte := Function.update m.byte a b } :=
      if_pos (h a List.mem_cons_self)
    change memWritePhys (memWritebPhys m a b) (a + 1) bs = _
    rw [hfirst]
    exact ih _ _ fun x hx => h x (List.mem_cons_of_mem _ hx)

theorem memReadPhys_gather (m : Memory) (a : BitVec 32) (bs : List Byte)
    (h : ∀ x ∈ span a bs.length, m.installed x = true) :
    memReadPhys m a bs.length = gather m.byte (span a bs.length) bs := by
  induction bs generalizing a with
  | nil => rfl
  | cons b bs ih =>
    rw [List.length_cons, span_succ] at h ⊢
    have hfirst : memReadbPhys m a = m.byte a := if_pos (h a List.mem_cons_self)
    rw [memReadPhys_succ, hfirst]
    exact congrArg (m.byte a :: ·) (ih _ fun x hx => h x (List.mem_cons_of_mem _ hx))

theorem slice_some {data : List Byte} {pos n : ℕ} (h : pos + n ≤ data.length) :
    slice data pos n = some ((data.drop pos).take n) := if_pos h

theorem row_add (data : List Byte) (pos i j : ℕ) :
    (data.drop pos).take (i + j) = (data.drop pos).take i ++ (data.drop (pos + i)).take j := by
  rw [List.take_add, List.drop_drop]

theorem row_length {data : List Byte} {pos n : ℕ} (h : pos + n ≤ data.length) :
    ((data.drop pos).take n).length = n := by
  rw [List.length_take, List.length_drop]
  omega

theorem put_some {data : List Byte} {pos : ℕ} {bs : List Byte} (h : pos + bs.length ≤ data.length) :
    put data pos bs = some (data.take pos ++ bs ++ data.drop (pos + bs.length)) := if_pos h

theorem put_put {data : List Byte} {pos : ℕ} {xs ys : List Byte}
    (h : pos + (xs.length + ys.length) ≤ data.length) :
    (put data pos xs).bind (fun data => put data (pos + xs.length) ys) = put data pos (xs ++ ys) := by
  have htake : (data.take pos).length = pos := by
    rw [List.length_take]
    omega
  have hboth : pos + (xs ++ ys).length ≤ data.length := by
    rw [List.length_append]
    exact h
  rw [put_some (by omega), Option.bind_some, put_some hboth]
  have hlen : (data.take pos ++ xs ++ data.drop (pos + xs.length)).length = data.length := by
    rw [List.length_append, List.length_append, List.length_drop, htake]
    omega
  have hfront : (data.take pos ++ xs).length = pos + xs.length := by
    rw [List.length_append, htake]
  rw [put_some (by rw [hlen]; omega), List.take_left' hfront, List.drop_append, hfront,
    List.drop_eq_nil_of_le (by omega), List.nil_append, List.drop_drop, List.length_append,
    List.append_assoc (data.take pos), Nat.add_sub_cancel_left]
  congr 3
  omega

theorem writeUnits_some (m : Memory) (addr : BitVec 32) {data : List Byte} {pos size k : ℕ}
    (h : pos + size * k ≤ data.length) :
    writeUnits m addr data pos size k = some (memWritePhys m addr ((data.drop pos).take (size * k))) := by
  induction k with
  | zero => rfl
  | succ k ih =>
    have hroom : pos + size * k + size ≤ data.length := by
      rw [Nat.mul_succ] at h
      omega
    unfold writeUnits
    rw [ih (by omega), Option.bind_some, slice_some hroom, Option.map_some, Nat.mul_succ, row_add,
      memWritePhys_append, row_length (by omega)]

theorem dmaBmWrite_some (m : Memory) (addr : BitVec 32) {data : List Byte} {pos total : ℕ}
    (h : pos + total ≤ data.length) :
    dmaBmWrite m addr data pos total 4 = some (memWritePhys m addr ((data.drop pos).take total)) := by
  have hdiv := Nat.div_add_mod total 4
  unfold dmaBmWrite
  dsimp only
  rw [writeUnits_some m addr (by omega), Option.bind_some, Nat.mul_comm (total / 4) 4]
  generalize hq : 4 * (total / 4) = n at *
  generalize hr : total % 4 = r at *
  have hlt : r < 4 := hr ▸ Nat.mod_lt _ (by decide)
  obtain rfl : total = n + r := hdiv.symm
  rw [Nat.add_sub_cancel_left]
  split
  · rename_i hsome
    rw [slice_some (by omega), Option.map_some, row_add, memWritePhys_append _ _ _ ((data.drop _).take r),
      row_length (by omega)]
    refine congrArg some ?_
    generalize memWritePhys m addr ((data.drop pos).take n) = w
    generalize addr + BitVec.ofNat 32 n = a
    have hrow : ((data.drop (pos + n)).take r).length = r := row_length (by omega)
    have hrest : (memReadPhys w a 4).drop r =
        memReadPhys (memWritePhys w a ((data.drop (pos + n)).take r)) (a + BitVec.ofNat 32 r) (4 - r) := by
      have hsplit : memReadPhys w a 4 =
          memReadPhys w a r ++ memReadPhys w (a + BitVec.ofNat 32 r) (4 - r) := by
        rw [← memReadPhys_add]
        congr 1
        omega
      rw [hsplit, List.drop_left' (memReadPhys_length w a r)]
      refine (memReadPhys_congr ?_).symm
      intro x hx
      refine memWritePhys_other w ?_
      rw [hrow]
      intro hmem
      obtain ⟨i, hi, rfl⟩ := List.mem_map.mp hmem
      obtain ⟨j, hj, heq⟩ := List.mem_map.mp hx
      rw [add_ofNat_add] at heq
      have hsame := (BitVec.add_right_inj a).mp heq
      have hi' := List.mem_range.mp hi
      have hj' := List.mem_range.mp hj
      have hnat := congrArg BitVec.toNat hsame
      rw [BitVec.toNat_ofNat, BitVec.toNat_ofNat] at hnat
      omega
    rw [memWritePhys_append, hrest, hrow, memWritePhys_self]
  · rename_i hnone
    rw [not_not.mp hnone, Nat.add_zero]

theorem readUnits_put (m : Memory) (addr : BitVec 32) {data : List Byte} {pos size k : ℕ}
    (h : pos + size * k ≤ data.length) :
    readUnits m addr data pos size k = put data pos (memReadPhys m addr (size * k)) := by
  induction k with
  | zero =>
    unfold readUnits
    rw [Nat.mul_zero, put_some (by rw [memReadPhys_length]; omega), memReadPhys_length]
    exact congrArg some (by simp [memReadPhys])
  | succ k ih =>
    rw [Nat.mul_succ] at h ⊢
    unfold readUnits
    rw [ih (by omega), memReadPhys_add]
    have hput := @put_put data pos (memReadPhys m addr (size * k))
      (memReadPhys m (addr + BitVec.ofNat 32 (size * k)) size) (by rw [memReadPhys_length, memReadPhys_length]; omega)
    rw [memReadPhys_length] at hput
    exact hput

theorem dmaBmRead_some (m : Memory) (addr : BitVec 32) {data : List Byte} {pos total : ℕ}
    (h : pos + total ≤ data.length) :
    dmaBmRead m addr data pos total 4 =
      some (data.take pos ++ memReadPhys m addr total ++ data.drop (pos + total)) := by
  have hall : put data pos (memReadPhys m addr total) =
      some (data.take pos ++ memReadPhys m addr total ++ data.drop (pos + total)) := by
    rw [put_some (by rw [memReadPhys_length]; exact h), memReadPhys_length]
  rw [← hall]
  have hdiv := Nat.div_add_mod total 4
  unfold dmaBmRead
  dsimp only
  rw [readUnits_put m addr (by omega), Nat.mul_comm (total / 4) 4]
  generalize 4 * (total / 4) = n at *
  generalize hr : total % 4 = r at *
  have hlt : r < 4 := hr ▸ Nat.mod_lt _ (by decide)
  obtain rfl : total = n + r := hdiv.symm
  rw [Nat.add_sub_cancel_left]
  by_cases hnone : r = 0
  · rw [hnone, Nat.add_zero, put_some (by rw [memReadPhys_length]; omega)]
    rfl
  · have hlong : (memReadPhys m (addr + BitVec.ofNat 32 n) 4).take r =
        memReadPhys m (addr + BitVec.ofNat 32 n) r := by
      have hsplit : memReadPhys m (addr + BitVec.ofNat 32 n) 4 =
          memReadPhys m (addr + BitVec.ofNat 32 n) r ++
            memReadPhys m (addr + BitVec.ofNat 32 n + BitVec.ofNat 32 r) (4 - r) := by
        rw [← memReadPhys_add]
        congr 1
        omega
      rw [hsplit, List.take_left' (memReadPhys_length _ _ _)]
    have hput := @put_put data pos (memReadPhys m addr n) (memReadPhys m (addr + BitVec.ofNat 32 n) r)
      (by rw [memReadPhys_length, memReadPhys_length]; exact h)
    rw [memReadPhys_length] at hput
    rw [memReadPhys_add, ← hput, hlong]
    refine congrArg _ (funext fun data => ?_)
    exact if_pos hnone

theorem copy_serve (out : Bool) (m : Memory) (addr : BitVec 32) {xs bs ys : List Byte}
    (h : ∀ x ∈ span addr bs.length, m.installed x = true) :
    copy out m addr (xs ++ (bs ++ ys)) xs.length bs.length =
      some ({ m with byte := (serve out m.byte (span addr bs.length) bs).1 },
        xs ++ ((serve out m.byte (span addr bs.length) bs).2 ++ ys)) := by
  have hroom : xs.length + bs.length ≤ (xs ++ (bs ++ ys)).length := by
    rw [List.length_append, List.length_append]
    omega
  have hrow : ((xs ++ (bs ++ ys)).drop xs.length).take bs.length = bs := by
    rw [List.drop_left, List.take_left]
  have hback : (xs ++ (bs ++ ys)).drop (xs.length + bs.length) = ys := by
    rw [← List.append_assoc, ← List.length_append, List.drop_left]
  unfold copy serve
  cases out with
  | true =>
    rw [if_pos rfl, if_pos rfl, dmaBmRead_some m addr hroom, hback, List.take_left,
      memReadPhys_gather m addr bs h, List.append_assoc]
    rfl
  | false =>
    rw [if_neg Bool.false_ne_true, if_neg Bool.false_ne_true, dmaBmWrite_some m addr hroom, hrow,
      memWritePhys_scatter m addr bs h]
    rfl

end PeepeeBox.BusMasterCopies
