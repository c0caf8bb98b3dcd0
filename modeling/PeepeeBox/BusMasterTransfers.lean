import Mathlib.Tactic.Common
import PeepeeBox.BusMasterCopies

set_option autoImplicit false

/-!
# Transfers along a descriptor list

However calls and regions fall against each other, the buffers of the calls are one row of bytes
against the cells of the regions.
-/
namespace PeepeeBox.BusMasterTransfers
open BusMaster BusMasterCopies ScatterGather

structure Region where
  addr : BitVec 32
  count : ℕ

def Region.cells (r : Region) : List (BitVec 32) := span r.addr r.count

def allCells (rs : List Region) : List (BitVec 32) := rs.flatMap Region.cells

/-- A region that a descriptor can name, bit 0 of a count being no part of it. -/
structure Region.Valid (r : Region) : Prop where
  even : r.addr.getLsbD 0 = false
  low : 2 ≤ r.count
  high : r.count ≤ 65536

/-- A descriptor in memory; its other bits are anything. -/
structure Entry (m : Memory) (p : BitVec 32) (r : Region) (last : Bool) : Prop where
  addr : long (memReadPhys m p 4) = r.addr
  count : (long (memReadPhys m (p + 4) 4)).setWidth 16 = BitVec.ofNat 16 r.count
  eot : (long (memReadPhys m (p + 4) 4)).getLsbD 31 = last

def Listed (m : Memory) : BitVec 32 → List Region → Prop
  | _, [] => True
  | p, r :: rs => Entry m p r rs.isEmpty ∧ Listed m (p + 8) rs

theorem mask_bits : ∀ i < 32, (0xFFFE : BitVec 32).getLsbD i = decide (1 ≤ i ∧ i < 16) := by
  decide

theorem addr_bits : ∀ i < 32, (0xFFFFFFFE : BitVec 32).getLsbD i = decide (1 ≤ i) := by
  decide

theorem masked_addr {a : BitVec 32} (h : a.getLsbD 0 = false) : a &&& 0xFFFFFFFE = a := by
  apply BitVec.eq_of_getLsbD_eq
  intro i hi
  rw [BitVec.getLsbD_and, addr_bits i hi]
  cases i with
  | zero => rw [h, Bool.false_and]
  | succ i => rw [decide_eq_true (by omega), Bool.and_true]

theorem masked_count {c : BitVec 32} (h : c.getLsbD 0 = false) :
    c &&& 0xFFFE = (c.setWidth 16).setWidth 32 := by
  apply BitVec.eq_of_getLsbD_eq
  intro i hi
  rw [BitVec.getLsbD_and, mask_bits i hi, BitVec.getLsbD_setWidth, BitVec.getLsbD_setWidth]
  cases i with
  | zero =>
    rw [h]
    rfl
  | succ i =>
    by_cases hlow : i + 1 < 16
    · rw [decide_eq_true (by omega), decide_eq_true hi, decide_eq_true hlow, Bool.and_true,
        Bool.true_and, Bool.true_and]
    · rw [decide_eq_false (by omega), decide_eq_false hlow, Bool.and_false, Bool.false_and,
        Bool.and_false]

theorem nextAddr_entry {m : Memory} {dev : Sff} {r : Region} {last : Bool}
    (h : Entry m dev.ptrCur r last) (hr : r.Valid) (heven : r.count % 2 = 0) :
    sffBusMasterNextAddr m dev =
      { dev with
        ptrCur := dev.ptrCur + 8, addr := r.addr, count := BitVec.ofNat 32 r.count, eot := last } := by
  have hhigh := hr.high
  have hlow := hr.low
  have hbit : (long (memReadPhys m (dev.ptrCur + 4) 4)).getLsbD 0 = false := by
    have hsame := congrArg (fun c : BitVec 16 => c.getLsbD 0) h.count
    rw [BitVec.getLsbD_setWidth, BitVec.getLsbD_ofNat, Nat.testBit_zero] at hsame
    rw [show (decide (0 < 16)) = true from rfl, Bool.true_and, Bool.true_and] at hsame
    rw [hsame]
    exact decide_eq_false (by omega)
  have hcount : (if long (memReadPhys m (dev.ptrCur + 4) 4) &&& 0xFFFE = 0 then 65536
      else long (memReadPhys m (dev.ptrCur + 4) 4) &&& 0xFFFE) = BitVec.ofNat 32 r.count := by
    rw [masked_count hbit, h.count]
    have hnat : ((BitVec.ofNat 16 r.count).setWidth 32).toNat = r.count % 65536 := by
      rw [BitVec.toNat_setWidth, BitVec.toNat_ofNat]
      omega
    split
    · rename_i hzero
      rw [hzero] at hnat
      have hfull : r.count = 65536 := by
        change 0 = _ at hnat
        omega
      rw [hfull]
      rfl
    · rename_i hpart
      apply BitVec.eq_of_toNat_eq
      rw [hnat, BitVec.toNat_ofNat]
      have hne : r.count ≠ 65536 := by
        intro hfull
        rw [hfull] at hpart
        exact hpart rfl
      omega
  unfold sffBusMasterNextAddr
  dsimp only
  rw [hcount, h.eot, h.addr, masked_addr hr.even]

theorem Listed.congr {m m' : Memory} {p : BitVec 32} {rs : List Region} (h : Listed m p rs)
    (hsame : ∀ x ∈ span p (8 * rs.length), memReadbPhys m' x = memReadbPhys m x) : Listed m' p rs := by
  induction rs generalizing p with
  | nil => exact trivial
  | cons r rs ih =>
    obtain ⟨hentry, hrest⟩ := h
    rw [List.length_cons, Nat.mul_succ, Nat.add_comm, span_add] at hsame
    have hhead (x : BitVec 32) (hx : x ∈ span p 8) : memReadbPhys m' x = memReadbPhys m x :=
      hsame x (List.mem_append_left _ hx)
    have hparts : span p 8 = span p 4 ++ span (p + 4) 4 := span_add p 4 4
    rw [hparts] at hhead
    have haddr : memReadPhys m' p 4 = memReadPhys m p 4 :=
      memReadPhys_congr fun x hx => hhead x (List.mem_append_left _ hx)
    have hcount : memReadPhys m' (p + 4) 4 = memReadPhys m (p + 4) 4 :=
      memReadPhys_congr fun x hx => hhead x (List.mem_append_right _ hx)
    refine ⟨⟨?_, ?_, ?_⟩, ih hrest fun x hx => hsame x (List.mem_append_right _ hx)⟩
    · rw [haddr]
      exact hentry.addr
    · rw [hcount]
      exact hentry.count
    · rw [hcount]
      exact hentry.eot

structure Loaded (m : Memory) (dev : Sff) (cs : List (BitVec 32)) (rest : List Region) : Prop where
  pos : 0 < dev.count.toNat
  cells : cs = span dev.addr dev.count.toNat ++ allCells rest
  eot : dev.eot = rest.isEmpty
  listed : Listed m dev.ptrCur rest
  valid : ∀ r ∈ rest, r.Valid ∧ r.count % 2 = 0
  apart : ∀ x ∈ cs, x ∉ span dev.ptrCur (8 * rest.length)
  installed : ∀ x ∈ cs, m.installed x = true

def served (out : Bool) (m : Memory) (cs : List (BitVec 32)) (bs : List Byte) : Memory :=
  { m with byte := (serve out m.byte cs bs).1 }

theorem served_other (out : Bool) (m : Memory) {cs : List (BitVec 32)} (bs : List Byte) {x : BitVec 32}
    (h : x ∉ cs) : memReadbPhys (served out m cs bs) x = memReadbPhys m x := by
  unfold memReadbPhys served
  dsimp only
  rw [serve_frame out m.byte bs h]

theorem Loaded.first {m : Memory} {dev : Sff} {cs : List (BitVec 32)} {rest : List Region}
    (h : Loaded m dev cs rest) {n : ℕ} (hn : n ≤ dev.count.toNat) : cs.take n = span dev.addr n := by
  rw [h.cells, List.take_append_of_le_length (by rw [span_length]; exact hn), span_take _ hn]

theorem Loaded.total {m : Memory} {dev : Sff} {cs : List (BitVec 32)} {rest : List Region}
    (h : Loaded m dev cs rest) : cs.length = dev.count.toNat + (allCells rest).length := by
  rw [h.cells, List.length_append, span_length]

theorem Loaded.part {m m' : Memory} {dev dev' : Sff} {cs : List (BitVec 32)} {rest : List Region}
    (h : Loaded m dev cs rest) {n : ℕ} (hn : n < dev.count.toNat)
    (hinstalled : m'.installed = m.installed)
    (hsame : ∀ x ∉ cs, memReadbPhys m' x = memReadbPhys m x)
    (haddr : dev'.addr = dev.addr + BitVec.ofNat 32 n)
    (hcount : dev'.count = dev.count - BitVec.ofNat 32 n) (heot : dev'.eot = dev.eot)
    (hptr : dev'.ptrCur = dev.ptrCur) : Loaded m' dev' (cs.drop n) rest := by
  have hlt := dev.count.isLt
  have hleft : dev'.count.toNat = dev.count.toNat - n := by
    rw [hcount, BitVec.toNat_sub, BitVec.toNat_ofNat]
    omega
  refine ⟨by omega, ?_, heot.trans h.eot, ?_, h.valid, ?_, ?_⟩
  · rw [h.cells, List.drop_append_of_le_length (by rw [span_length]; omega),
      span_drop _ (Nat.le_of_lt hn), haddr, hleft]
  · rw [hptr]
    refine h.listed.congr ?_
    intro x hx
    exact hsame x fun hmem => h.apart x hmem hx
  · intro x hx
    rw [hptr]
    exact h.apart x (List.mem_of_mem_drop hx)
  · intro x hx
    rw [hinstalled]
    exact h.installed x (List.mem_of_mem_drop hx)

theorem Loaded.next {m m' : Memory} {dev : Sff} {cs : List (BitVec 32)} {r : Region} {rs : List Region}
    (h : Loaded m dev cs (r :: rs)) (hinstalled : m'.installed = m.installed)
    (hsame : ∀ x ∉ cs, memReadbPhys m' x = memReadbPhys m x) :
    Loaded m' (sffBusMasterNextAddr m' dev) (cs.drop dev.count.toNat) rs := by
  obtain ⟨hvalid, heven⟩ := h.valid r List.mem_cons_self
  have hhigh := hvalid.high
  have hlow := hvalid.low
  have hlisted : Listed m' dev.ptrCur (r :: rs) :=
    h.listed.congr fun x hx => hsame x fun hmem => h.apart x hmem hx
  have hdrop : cs.drop dev.count.toNat = allCells (r :: rs) := by
    rw [h.cells, List.drop_left' (span_length _ _)]
  have hcount : (BitVec.ofNat 32 r.count).toNat = r.count := by
    rw [BitVec.toNat_ofNat]
    omega
  have hptr : span dev.ptrCur (8 * (r :: rs).length) =
      span dev.ptrCur 8 ++ span (dev.ptrCur + 8) (8 * rs.length) := by
    rw [List.length_cons, Nat.mul_succ, Nat.add_comm, span_add]
    rfl
  rw [nextAddr_entry hlisted.1 hvalid heven]
  refine ⟨?_, ?_, rfl, hlisted.2, fun r hr => h.valid r (List.mem_cons_of_mem _ hr), ?_, ?_⟩
  · change 0 < (BitVec.ofNat 32 r.count).toNat
    omega
  · change _ = span r.addr (BitVec.ofNat 32 r.count).toNat ++ allCells rs
    rw [hcount]
    exact hdrop
  · intro x hx hmem
    refine h.apart x (List.mem_of_mem_drop hx) ?_
    rw [hptr]
    exact List.mem_append_right _ hmem
  · intro x hx
    rw [hinstalled]
    exact h.installed x (List.mem_of_mem_drop hx)

theorem copy_first {out : Bool} {m : Memory} {dev : Sff} {cs : List (BitVec 32)} {rest : List Region}
    (h : Loaded m dev cs rest) (pre ys : List Byte) {xs : List Byte} (hxs : xs.length ≤ dev.count.toNat) :
    copy out m dev.addr (pre ++ (xs ++ ys)) pre.length xs.length =
      some (served out m cs xs, pre ++ ((serve out m.byte cs xs).2 ++ ys)) := by
  have hfirst := h.first hxs
  have hthere (x : BitVec 32) (hx : x ∈ span dev.addr xs.length) : m.installed x = true := by
    rw [← hfirst] at hx
    exact h.installed x (List.mem_of_mem_take hx)
  rw [copy_serve out m dev.addr hthere, ← hfirst, serve_take]
  rfl

theorem serve_rest (out : Bool) (m : Memory) {cs : List (BitVec 32)} {xs : List Byte}
    (h : xs.length ≤ cs.length) (ys : List Byte) :
    serve out m.byte cs (xs ++ ys) =
      ((serve out (served out m cs xs).byte (cs.drop xs.length) ys).1,
        (serve out m.byte cs xs).2 ++ (serve out (served out m cs xs).byte (cs.drop xs.length) ys).2) := by
  have htake : (cs.take xs.length).length = xs.length := by
    rw [List.length_take]
    omega
  have happend := serve_append out m.byte htake (cs.drop xs.length) ys
  rw [List.take_append_drop, serve_take] at happend
  exact happend

theorem served_rest (out : Bool) (m : Memory) {cs : List (BitVec 32)} {xs : List Byte}
    (h : xs.length ≤ cs.length) (ys : List Byte) :
    served out (served out m cs xs) (cs.drop xs.length) ys = served out m cs (xs ++ ys) := by
  change _ = { m with byte := (serve out m.byte cs (xs ++ ys)).1 }
  rw [serve_rest out m h ys]
  rfl

/-- What a call of `n` bytes is to answer when `s` are left. -/
def verdict (s n : ℕ) : ℕ := if s = 0 then 2 else if n < s then 1 else if n = s then 3 else 0

theorem verdict_part {s n : ℕ} (h : n < s) : verdict s n = 1 := by
  unfold verdict
  rw [if_neg (by omega), if_pos h]

theorem verdict_all {s : ℕ} (h : 0 < s) : verdict s s = 3 := by
  unfold verdict
  rw [if_neg (by omega), if_neg (Nat.lt_irrefl s), if_pos rfl]

theorem verdict_more {s n : ℕ} (hs : 0 < s) (h : s < n) : verdict s n = 0 := by
  unfold verdict
  rw [if_neg (by omega), if_neg (by omega), if_neg (by omega)]

theorem verdict_sub {s n k : ℕ} (hs : k < s) (hn : k ≤ n) : verdict (s - k) (n - k) = verdict s n := by
  unfold verdict
  have hnone : s - k = 0 ↔ s = 0 := by omega
  have hlt : n - k < s - k ↔ n < s := by omega
  have heq : n - k = s - k ↔ n = s := by omega
  rw [if_congr hnone rfl (if_congr hlt rfl (if_congr heq rfl rfl))]

/-- The device after `n` bytes against the cells `cs`. -/
structure After (totalLength : ℤ) (cs : List (BitVec 32)) (n : ℕ) (m : Memory) (dev : Sff) : Prop where
  part : n < cs.length →
    dev.status.getLsbD 0 = true ∧ (totalLength ≠ 0 → ∃ rest, Loaded m dev (cs.drop n) rest)
  all : n = cs.length → dev.status.getLsbD 0 = false ∧ dev.status.getLsbD 1 = false
  more : cs.length < n → dev.status.getLsbD 1 = true

theorem After.shift {totalLength : ℤ} {cs : List (BitVec 32)} {n k : ℕ} {m : Memory} {dev : Sff}
    (hs : k ≤ cs.length) (hn : k ≤ n) (h : After totalLength (cs.drop k) (n - k) m dev) :
    After totalLength cs n m dev := by
  have hlength : (cs.drop k).length = cs.length - k := List.length_drop
  refine ⟨?_, ?_, ?_⟩
  · intro hlt
    obtain ⟨hactive, hloaded⟩ := h.part (by omega)
    refine ⟨hactive, fun htotal => ?_⟩
    obtain ⟨rest, hrest⟩ := hloaded htotal
    rw [List.drop_drop, Nat.add_sub_cancel' hn] at hrest
    exact ⟨rest, hrest⟩
  · intro heq
    exact h.all (by omega)
  · intro hlt
    exact h.more (by omega)

theorem clear_error (status : Byte) : (status &&& ~~~2).getLsbD 0 = status.getLsbD 0 := by
  revert status
  decide +kernel

theorem set_error (status : Byte) : (status ||| 2).getLsbD 1 = true := by
  revert status
  decide +kernel

theorem clear_both (status : Byte) :
    (status &&& ~~~3).getLsbD 0 = false ∧ (status &&& ~~~3).getLsbD 1 = false := by
  revert status
  decide +kernel

theorem Region.Valid.cells_ne {r : Region} (h : r.Valid) (rs : List Region) : 0 < (allCells (r :: rs)).length := by
  have hlow := h.low
  change 0 < (r.cells ++ allCells rs).length
  rw [List.length_append]
  unfold Region.cells
  rw [span_length]
  omega

theorem dmaLoop_row {out : Bool} {totalLength : ℤ} (fuel : ℕ) {m : Memory} {dev : Sff}
    {cs : List (BitVec 32)} {rest : List Region} (h : Loaded m dev cs rest)
    (hactive : dev.status.getLsbD 0 = true) (pre : List Byte) {bs : List Byte} (hne : bs ≠ [])
    (hfuel : bs.length < fuel) :
    ∃ dev', dmaLoop out totalLength fuel m dev (pre ++ bs) pre.length bs.length =
        some
          { mem := served out m cs bs
            dev := dev'
            data := pre ++ (serve out m.byte cs bs).2
            ret := verdict cs.length bs.length } ∧
      After totalLength cs bs.length (served out m cs bs) dev' := by
  induction fuel generalizing m dev cs rest pre bs with
  | zero => exact absurd hfuel (Nat.not_lt_zero _)
  | succ fuel ih =>
    have hpos := List.length_pos_of_ne_nil hne
    have htotal := h.total
    have hcount := h.pos
    unfold dmaLoop
    by_cases hfit : dev.count.toNat ≤ bs.length
    · rw [if_pos hfit]
      -- the region at hand is used up
      obtain ⟨xs, ys, rfl, hxs⟩ : ∃ xs ys, bs = xs ++ ys ∧ xs.length = dev.count.toNat :=
        ⟨bs.take dev.count.toNat, bs.drop dev.count.toNat, (List.take_append_drop _ _).symm,
          List.length_take_of_le hfit⟩
      have hcs : xs.length ≤ cs.length := by omega
      have hlength : (xs ++ ys).length = xs.length + ys.length := List.length_append
      have hsame (x : BitVec 32) (hx : x ∉ cs) :
          memReadbPhys (served out m cs xs) x = memReadbPhys m x := served_other out m xs hx
      rw [← hxs, copy_first h pre ys (Nat.le_of_eq hxs), Option.bind_some, hlength,
        Nat.add_sub_cancel_left]
      dsimp only
      cases rest with
      | nil =>
        have heot : dev.eot = true := h.eot
        have hend : cs.length = xs.length := by
          rw [htotal, hxs]
          rfl
        have hrest : serve out m.byte cs (xs ++ ys) =
            ((serve out m.byte cs xs).1, (serve out m.byte cs xs).2 ++ ys) := by
          rw [serve_rest out m hcs, List.drop_eq_nil_of_le (Nat.le_of_eq hend), serve_none]
          rfl
        rw [if_neg (fun hboth => Bool.noConfusion (heot.symm.trans hboth.2))]
        by_cases hys : ys.length = 0
        · rw [if_neg (fun hboth => hboth.1 hys), if_pos heot]
          refine ⟨{ dev with status := dev.status &&& ~~~3 }, ?_, ?_⟩
          · rw [List.length_eq_zero_iff.mp hys, List.append_nil, List.append_nil, hend, List.length_nil,
              Nat.add_zero, verdict_all (by omega)]
          · have hboth := clear_both dev.status
            exact ⟨fun hlt => absurd hlt (by omega), fun _ => hboth, fun hlt => absurd hlt (by omega)⟩
        · rw [if_pos ⟨hys, heot⟩]
          refine ⟨{ dev with status := dev.status ||| 2 }, ?_, ?_⟩
          · unfold served
            rw [hrest, hend, verdict_more (by omega) (by omega)]
          · have hset := set_error dev.status
            exact ⟨fun hlt => absurd hlt (by omega), fun heq => absurd heq (by omega), fun _ => hset⟩
      | cons r rs =>
        have heot : dev.eot = false := h.eot
        have hmore := (h.valid r List.mem_cons_self).1.cells_ne rs
        have hnext : Loaded (served out m cs xs) (sffBusMasterNextAddr (served out m cs xs) dev)
            (cs.drop xs.length) rs := by
          rw [hxs]
          exact h.next rfl hsame
        have hne_eot : ¬ dev.eot = true := fun htrue => Bool.noConfusion (heot.symm.trans htrue)
        by_cases hys : ys.length = 0
        · obtain rfl := List.length_eq_zero_iff.mp hys
          simp only [List.append_nil]
          rw [if_pos ⟨rfl, heot⟩, List.length_nil, Nat.add_zero, verdict_part (by omega)]
          by_cases hend : totalLength = 0
          · rw [if_neg (not_not.mpr hend)]
            refine ⟨_, rfl, ?_⟩
            have hkeep := (clear_error dev.status).trans hactive
            exact ⟨fun _ => ⟨hkeep, fun hne => absurd hend hne⟩, fun heq => absurd heq (by omega),
              fun hlt => absurd hlt (by omega)⟩
          · rw [if_pos hend]
            refine ⟨_, rfl, ?_⟩
            exact ⟨fun _ => ⟨hactive, fun _ => ⟨rs, hnext⟩⟩, fun heq => absurd heq (by omega),
              fun hlt => absurd hlt (by omega)⟩
        · rw [if_neg (fun hboth => hys hboth.1), if_neg (fun hboth => hne_eot hboth.2), if_neg hne_eot]
          have hpre : pre.length + xs.length = (pre ++ (serve out m.byte cs xs).2).length := by
            rw [List.length_append, serve_length]
          have hys' : ys ≠ [] := fun hnil => hys (congrArg List.length hnil)
          obtain ⟨dev', hloop, hafter⟩ :=
            ih hnext hactive (pre ++ (serve out m.byte cs xs).2) hys' (by omega)
          rw [← List.append_assoc, hpre, hloop, served_rest out m hcs]
          refine ⟨dev', ?_, ?_⟩
          · rw [serve_rest out m hcs, List.append_assoc]
            have hverdict : verdict (cs.drop xs.length).length ys.length =
                verdict cs.length (xs.length + ys.length) := by
              have hsub := verdict_sub (s := cs.length) (n := xs.length + ys.length) (k := xs.length)
                (by omega) (Nat.le_add_right _ _)
              rw [Nat.add_sub_cancel_left] at hsub
              rw [List.length_drop, hsub]
            rw [hverdict]
          · rw [served_rest out m hcs] at hafter
            refine After.shift (k := xs.length) hcs (Nat.le_add_right _ _) ?_
            rw [Nat.add_sub_cancel_left]
            exact hafter
    · rw [if_neg hfit]
      have hlt : bs.length < dev.count.toNat := Nat.lt_of_not_le hfit
      have hcopy := @copy_first out _ _ _ _ h pre [] _ (Nat.le_of_lt hlt)
      rw [List.append_nil, List.append_nil] at hcopy
      rw [hcopy, Option.map_some, verdict_part (by omega)]
      refine ⟨_, rfl, ?_⟩
      have hkeep := (clear_error dev.status).trans hactive
      refine ⟨fun _ => ⟨hkeep, fun _ => ⟨rest, ?_⟩⟩, fun heq => absurd heq (by omega),
        fun hgt => absurd hgt (by omega)⟩
      exact h.part hlt rfl (fun x hx => served_other out m bs hx) rfl rfl rfl rfl

end PeepeeBox.BusMasterTransfers
