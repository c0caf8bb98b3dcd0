import Mathlib.Data.List.Perm.Basic
import Mathlib.Data.Fintype.Basic
import Mathlib.Tactic.FinCases
import Mathlib.Tactic.IntervalCases
import Mathlib.Tactic.Ring
import PeepeeBox.BusMaster

set_option autoImplicit false

/-!
# The descriptor pointer in parts

The pointer register of the bus master written and read as bytes, words and a long, and what a pointer half written
becomes when it is brought below the memory size.
-/
namespace PeepeeBox.DescriptorPointer
open BusMaster

def sffBusMasterWritew (memSize : BitVec 32) (m : Memory) (dev : Sff) (port : BitVec 16) (val : BitVec 16) : Sff :=
  match (port &&& 7).toNat with
  | 0 | 1 | 2 => sffBusMasterWrite memSize m dev port (val.setWidth 8)
  | 4 =>
    { dev with
      ptr := (dev.ptr &&& 0xFFFF0000 ||| (val &&& 0xFFFC).setWidth 32) % (memSize * 1024), ptr0 := val.setWidth 8 }
  | 6 => { dev with ptr := (dev.ptr &&& 0x0000FFFC ||| val.setWidth 32 <<< 16) % (memSize * 1024) }
  | _ => dev

def sffBusMasterWritel (memSize : BitVec 32) (m : Memory) (dev : Sff) (port : BitVec 16) (val : BitVec 32) : Sff :=
  match (port &&& 7).toNat with
  | 0 | 1 | 2 => sffBusMasterWrite memSize m dev port (val.setWidth 8)
  | 4 => { dev with ptr := (val &&& 0xFFFFFFFC) % (memSize * 1024), ptr0 := val.setWidth 8 }
  | _ => dev

def sffBusMasterRead (dev : Sff) (port : BitVec 16) : Byte :=
  match (port &&& 7).toNat with
  | 0 => dev.command
  | 1 => dev.dmaMode &&& 0x03
  | 2 => dev.status &&& 0x67
  | 4 => dev.ptr0
  | 5 => (dev.ptr >>> 8).setWidth 8
  | 6 => (dev.ptr >>> 16).setWidth 8
  | 7 => (dev.ptr >>> 24).setWidth 8
  | _ => 0xFF

def sffBusMasterReadw (dev : Sff) (port : BitVec 16) : BitVec 16 :=
  match (port &&& 7).toNat with
  | 0 | 1 | 2 => (sffBusMasterRead dev port).setWidth 16
  | 4 => dev.ptr0.setWidth 16 ||| (dev.ptr &&& 0xFF00).setWidth 16
  | 6 => (dev.ptr >>> 16).setWidth 16
  | _ => 0xFFFF

def sffBusMasterReadl (dev : Sff) (port : BitVec 16) : BitVec 32 :=
  match (port &&& 7).toNat with
  | 0 | 1 | 2 => (sffBusMasterRead dev port).setWidth 32
  | 4 => dev.ptr0.setWidth 32 ||| dev.ptr &&& 0xFFFFFF00
  | _ => 0xFFFFFFFF

inductive Part where
  | byte0
  | byte1
  | byte2
  | byte3
  | low
  | high
  | long
  deriving DecidableEq

def Part.bytes : Part → List (Fin 4)
  | .byte0 => [0]
  | .byte1 => [1]
  | .byte2 => [2]
  | .byte3 => [3]
  | .low => [0, 1]
  | .high => [2, 3]
  | .long => [0, 1, 2, 3]

/-- Every byte is written, and once. -/
def Whole (way : List Part) : Prop := (way.flatMap Part.bytes).Perm [0, 1, 2, 3]

def portAt (base : BitVec 13) (offset : BitVec 3) : BitVec 16 := base ++ offset

/-- One part of `addr` written to its port. -/
def writePart (memSize : BitVec 32) (m : Memory) (base : BitVec 13) (addr : BitVec 32) (dev : Sff) : Part → Sff
  | .byte0 => sffBusMasterWrite memSize m dev (portAt base 4) (addr.setWidth 8)
  | .byte1 => sffBusMasterWrite memSize m dev (portAt base 5) ((addr >>> 8).setWidth 8)
  | .byte2 => sffBusMasterWrite memSize m dev (portAt base 6) ((addr >>> 16).setWidth 8)
  | .byte3 => sffBusMasterWrite memSize m dev (portAt base 7) ((addr >>> 24).setWidth 8)
  | .low => sffBusMasterWritew memSize m dev (portAt base 4) (addr.setWidth 16)
  | .high => sffBusMasterWritew memSize m dev (portAt base 6) ((addr >>> 16).setWidth 16)
  | .long => sffBusMasterWritel memSize m dev (portAt base 4) addr

/-- The address is read back whatever the width. -/
structure ReadsBack (dev : Sff) (base : BitVec 13) (addr : BitVec 32) : Prop where
  byte0 : sffBusMasterRead dev (portAt base 4) = addr.setWidth 8
  byte1 : sffBusMasterRead dev (portAt base 5) = (addr >>> 8).setWidth 8
  byte2 : sffBusMasterRead dev (portAt base 6) = (addr >>> 16).setWidth 8
  byte3 : sffBusMasterRead dev (portAt base 7) = (addr >>> 24).setWidth 8
  low : sffBusMasterReadw dev (portAt base 4) = addr.setWidth 16
  high : sffBusMasterReadw dev (portAt base 6) = (addr >>> 16).setWidth 16
  long : sffBusMasterReadl dev (portAt base 4) = addr

def half (addr : BitVec 32) (ptr : BitVec 32) : Part → BitVec 32
  | .byte0 => ptr &&& 0xFFFFFF00 ||| addr &&& 0x000000FC
  | .byte1 => ptr &&& 0xFFFF00FC ||| addr &&& 0x0000FF00
  | .byte2 => ptr &&& 0xFF00FFFC ||| addr &&& 0x00FF0000
  | .byte3 => ptr &&& 0x00FFFFFC ||| addr &&& 0xFF000000
  | .low => ptr &&& 0xFFFF0000 ||| addr &&& 0x0000FFFC
  | .high => ptr &&& 0x0000FFFC ||| addr &&& 0xFFFF0000
  | .long => addr &&& 0xFFFFFFFC

theorem portAt_offset (base : BitVec 13) (offset : BitVec 3) : (portAt base offset &&& 7).toNat = offset.toNat := by
  have hmask : portAt base offset &&& 7 = offset.setWidth 16 := by
    apply BitVec.eq_of_getLsbD_eq
    intro i hi
    unfold portAt
    simp only [BitVec.getLsbD_and, BitVec.getLsbD_append, BitVec.getLsbD_setWidth]
    interval_cases i <;> simp
  have hlt := offset.isLt
  rw [hmask, BitVec.toNat_setWidth]
  omega

theorem writePart_ptr (memSize : BitVec 32) (m : Memory) (base : BitVec 13) (addr : BitVec 32) (dev : Sff)
    (part : Part) :
    (writePart memSize m base addr dev part).ptr = half addr dev.ptr part % (memSize * 1024) := by
  have hport (offset : BitVec 3) := portAt_offset base offset
  cases part
  case long =>
    simp only [writePart, sffBusMasterWritel, hport]
    rfl
  all_goals
    simp only [writePart, sffBusMasterWrite, sffBusMasterWritew, hport]
    refine congrArg (· % (memSize * 1024)) ?_
    apply BitVec.eq_of_getLsbD_eq
    intro i hi
    simp only [half, BitVec.getLsbD_or, BitVec.getLsbD_and, BitVec.getLsbD_shiftLeft, BitVec.getLsbD_setWidth,
      BitVec.getLsbD_ushiftRight]
    interval_cases i <;> simp

def byteOf (x : BitVec 32) (j : Fin 4) : Byte := x.extractLsb' (8 * j) 8

theorem toNat_bytes (x : BitVec 32) :
    x.toNat = (byteOf x 3).toNat * 2 ^ 24 + (byteOf x 2).toNat * 2 ^ 16 + (byteOf x 1).toNat * 2 ^ 8 +
      (byteOf x 0).toNat := by
  have hbyte (n : ℕ) : (x.extractLsb' n 8).toNat = x.toNat / 2 ^ n % 2 ^ 8 := by
    rw [BitVec.extractLsb'_toNat, Nat.shiftRight_eq_div_pow]
  have hx := x.isLt
  unfold byteOf
  rw [hbyte, hbyte, hbyte, hbyte]
  simp only [Fin.isValue, Fin.val_zero, Fin.val_one, Fin.val_two]
  have hthree : (3 : Fin 4).val = 3 := rfl
  rw [hthree]
  omega

def digit (x : BitVec 32) (j : Fin 4) : ℕ := if j = 0 then (byteOf x 0).toNat / 4 else (byteOf x j).toNat

def Aligned (x : BitVec 32) : Prop := x.toNat % 4 = 0

theorem byteOf_half (addr ptr : BitVec 32) (part : Part) (j : Fin 4) :
    byteOf (half addr ptr part) j =
      (if j ∈ part.bytes then byteOf addr j else byteOf ptr j) &&& if j = 0 then 0xFC else 0xFF := by
  apply BitVec.eq_of_getLsbD_eq
  intro i hi
  unfold byteOf
  fin_cases j <;> cases part
  all_goals
    simp only [half, Part.bytes, BitVec.getLsbD_extractLsb', BitVec.getLsbD_or, BitVec.getLsbD_and]
    interval_cases i <;> simp

theorem digit_half (addr ptr : BitVec 32) (part : Part) (j : Fin 4) :
    digit (half addr ptr part) j = if j ∈ part.bytes then digit addr j else digit ptr j := by
  have hlow (b : Byte) : (b &&& 0xFC).toNat / 4 = b.toNat / 4 := by
    revert b
    decide +kernel
  have hfull (b : Byte) : b &&& 0xFF = b := BitVec.and_allOnes
  unfold digit
  rw [byteOf_half, byteOf_half]
  split
  · rename_i hj
    subst hj
    simp only [if_true]
    rw [hlow]
    split <;> rfl
  · simp only [hfull]
    split <;> rfl

theorem aligned_half (addr ptr : BitVec 32) (part : Part) : Aligned (half addr ptr part) := by
  have hlow (b : Byte) : (b &&& 0xFC).toNat % 4 = 0 := by
    revert b
    decide +kernel
  have hbyte : byteOf (half addr ptr part) 0 = _ &&& 0xFC := byteOf_half addr ptr part 0
  unfold Aligned
  rw [toNat_bytes, hbyte]
  have hzero := hlow (if (0 : Fin 4) ∈ part.bytes then byteOf addr 0 else byteOf ptr 0)
  omega

theorem toNat_digits (x : BitVec 32) :
    x.toNat = digit x 3 * 2 ^ 24 + digit x 2 * 2 ^ 16 + digit x 1 * 2 ^ 8 + digit x 0 * 4 + x.toNat % 4 := by
  have hx := toNat_bytes x
  have hthree : digit x 3 = (byteOf x 3).toNat := rfl
  have htwo : digit x 2 = (byteOf x 2).toNat := rfl
  have hone : digit x 1 = (byteOf x 1).toNat := rfl
  have hzero : digit x 0 = (byteOf x 0).toNat / 4 := rfl
  have hrest : x.toNat % 4 = (byteOf x 0).toNat % 4 := by
    rw [hx, show (byteOf x 3).toNat * 2 ^ 24 + (byteOf x 2).toNat * 2 ^ 16 + (byteOf x 1).toNat * 2 ^ 8 =
      4 * ((byteOf x 3).toNat * 2 ^ 22 + (byteOf x 2).toNat * 2 ^ 14 + (byteOf x 1).toNat * 2 ^ 6) by ring,
      Nat.mul_add_mod]
  rw [hthree, htwo, hone, hzero, hrest, Nat.add_assoc, Nat.div_add_mod']
  exact hx

theorem digit_bounds (x : BitVec 32) : digit x 3 < 256 ∧ digit x 2 < 256 ∧ digit x 1 < 256 ∧ digit x 0 < 64 := by
  have hthree : digit x 3 = (byteOf x 3).toNat := rfl
  have htwo : digit x 2 = (byteOf x 2).toNat := rfl
  have hone : digit x 1 = (byteOf x 1).toNat := rfl
  have hzero : digit x 0 = (byteOf x 0).toNat / 4 := rfl
  have hlt (j : Fin 4) : (byteOf x j).toNat < 256 := (byteOf x j).isLt
  have hlt0 := hlt 0
  rw [hthree, htwo, hone, hzero]
  exact ⟨hlt 3, hlt 2, hlt 1, by omega⟩

theorem eq_of_digits {x y : BitVec 32} (hx : Aligned x) (hy : Aligned y) (h : ∀ j, digit x j = digit y j) : x = y := by
  apply BitVec.eq_of_toNat_eq
  have hxd := toNat_digits x
  have hyd := toNat_digits y
  unfold Aligned at hx hy
  rw [hxd, hyd, h 0, h 1, h 2, h 3, hx, hy]

def Behind (addr : BitVec 32) (written : List (Fin 4)) (x : BitVec 32) : Prop :=
  ∃ j ∈ written, digit x j < digit addr j ∧ ∀ k, j < k → digit x k ≤ digit addr k

theorem Behind.lt {addr x : BitVec 32} {written : List (Fin 4)} (h : Behind addr written x) (hx : Aligned x) :
    x.toNat < addr.toNat := by
  obtain ⟨j, -, hj, habove⟩ := h
  have hxd := toNat_digits x
  have hyd := toNat_digits addr
  have hxb := digit_bounds x
  have hyb := digit_bounds addr
  unfold Aligned at hx
  have hone := habove 1
  have htwo := habove 2
  have hthree := habove 3
  fin_cases j
  · have h1 := hone (by decide)
    have h2 := htwo (by decide)
    have h3 := hthree (by decide)
    simp only [Fin.zero_eta] at hj
    omega
  · have h2 := htwo (by decide)
    have h3 := hthree (by decide)
    simp only [Fin.mk_one] at hj
    omega
  · have h3 := hthree (by decide)
    simp only [Fin.reduceFinMk] at hj
    omega
  · simp only [Fin.reduceFinMk] at hj
    omega

def share (addr : BitVec 32) : Part → ℕ
  | .byte0 => digit addr 0 * 4
  | .byte1 => digit addr 1 * 2 ^ 8
  | .byte2 => digit addr 2 * 2 ^ 16
  | .byte3 => digit addr 3 * 2 ^ 24
  | .low => digit addr 0 * 4 + digit addr 1 * 2 ^ 8
  | .high => digit addr 2 * 2 ^ 16 + digit addr 3 * 2 ^ 24
  | .long => digit addr 0 * 4 + digit addr 1 * 2 ^ 8 + digit addr 2 * 2 ^ 16 + digit addr 3 * 2 ^ 24

theorem half_le (addr ptr : BitVec 32) (part : Part) : (half addr ptr part).toNat ≤ ptr.toNat + share addr part := by
  have hv := toNat_digits (half addr ptr part)
  have hp := toNat_digits ptr
  have haligned := aligned_half addr ptr part
  have h0 := digit_half addr ptr part 0
  have h1 := digit_half addr ptr part 1
  have h2 := digit_half addr ptr part 2
  have h3 := digit_half addr ptr part 3
  unfold Aligned at haligned
  cases part <;> simp [Part.bytes] at h0 h1 h2 h3 <;> simp only [share] <;> omega

theorem share_le (addr : BitVec 32) (part : Part) : share addr part ≤ addr.toNat := by
  have ha := toNat_digits addr
  cases part <;> simp only [share] <;> omega

theorem behind_of_lt_share {addr x : BitVec 32} {part : Part} (h : x.toNat < share addr part) :
    Behind addr part.bytes x := by
  have hx := toNat_digits x
  have hxb := digit_bounds x
  have hyb := digit_bounds addr
  have hfour {P : Fin 4 → Prop} (h0 : P 0) (h1 : P 1) (h2 : P 2) (h3 : P 3) (k : Fin 4) : P k := by
    fin_cases k <;> assumption
  have hat {j : Fin 4} (hj : j ∈ part.bytes) (hlt : digit x j < digit addr j)
      (h0 : j < 0 → digit x 0 ≤ digit addr 0) (h1 : j < 1 → digit x 1 ≤ digit addr 1)
      (h2 : j < 2 → digit x 2 ≤ digit addr 2) (h3 : j < 3 → digit x 3 ≤ digit addr 3) : Behind addr part.bytes x :=
    ⟨j, hj, hlt, hfour (P := fun k => j < k → digit x k ≤ digit addr k) h0 h1 h2 h3⟩
  cases part <;> simp only [share] at h
  case byte0 => exact hat (j := 0) (by decide) (by omega) (by omega) (by omega) (by omega) (by omega)
  case byte1 => exact hat (j := 1) (by decide) (by omega) (by omega) (by omega) (by omega) (by omega)
  case byte2 => exact hat (j := 2) (by decide) (by omega) (by omega) (by omega) (by omega) (by omega)
  case byte3 => exact hat (j := 3) (by decide) (by omega) (by omega) (by omega) (by omega) (by omega)
  case low =>
    by_cases h1 : digit x 1 < digit addr 1
    · exact hat (j := 1) (by decide) h1 (by omega) (by omega) (by omega) (by omega)
    · exact hat (j := 0) (by decide) (by omega) (by omega) (by omega) (by omega) (by omega)
  case high =>
    by_cases h3 : digit x 3 < digit addr 3
    · exact hat (j := 3) (by decide) h3 (by omega) (by omega) (by omega) (by omega)
    · exact hat (j := 2) (by decide) (by omega) (by omega) (by omega) (by omega) (by omega)
  case long =>
    by_cases h3 : digit x 3 < digit addr 3
    · exact hat (j := 3) (by decide) h3 (by omega) (by omega) (by omega) (by omega)
    by_cases h2 : digit x 2 < digit addr 2
    · exact hat (j := 2) (by decide) h2 (by omega) (by omega) (by omega) (by omega)
    by_cases h1 : digit x 1 < digit addr 1
    · exact hat (j := 1) (by decide) h1 (by omega) (by omega) (by omega) (by omega)
    · exact hat (j := 0) (by decide) (by omega) (by omega) (by omega) (by omega) (by omega)

section
variable {memory addr ptr : BitVec 32} {part : Part} {written : List (Fin 4)} {parts : List Part}

theorem behind_of_reached (hptr : ptr < memory) (haddr : addr < memory) (hreached : ¬ half addr ptr part < memory) :
    Behind addr part.bytes (half addr ptr part % memory) := by
  have hle := half_le addr ptr part
  have hshare := share_le addr part
  rw [BitVec.lt_def] at hptr haddr hreached
  have hback : (half addr ptr part % memory).toNat = (half addr ptr part).toNat - memory.toNat := by
    rw [BitVec.toNat_umod, Nat.mod_eq_sub_mod (Nat.le_of_not_lt hreached), Nat.mod_eq_of_lt (by omega)]
  refine behind_of_lt_share ?_
  rw [hback]
  omega

theorem mod_of_lt {x : BitVec 32} (h : x < memory) : x % memory = x := BitVec.umod_eq_of_lt h

theorem Behind.write (h : Behind addr written ptr) (hnew : ∀ j ∈ part.bytes, j ∉ written) (haddr : addr < memory) :
    Behind addr (written ++ part.bytes) (half addr ptr part % memory) := by
  obtain ⟨j, hj, hlow, habove⟩ := h
  have hbehind : Behind addr (written ++ part.bytes) (half addr ptr part) := by
    refine ⟨j, List.mem_append_left _ hj, ?_, fun k hk => ?_⟩
    · rw [digit_half, if_neg fun hin => hnew j hin hj]
      exact hlow
    · rw [digit_half]
      split
      · exact Nat.le_refl _
      · exact habove k hk
  have hlt := hbehind.lt (aligned_half addr ptr part)
  rw [BitVec.lt_def] at haddr
  rw [mod_of_lt (BitVec.lt_def.mpr (by omega))]
  exact hbehind

def merged (memory addr ptr : BitVec 32) (parts : List Part) : BitVec 32 :=
  parts.foldl (fun ptr part => half addr ptr part % memory) ptr

/-- However far it is written, the pointer is below the memory size: the bytes of the address that are, with the
bytes there were. -/
def StaysBelow (memory addr : BitVec 32) : BitVec 32 → List Part → Prop
  | _, [] => True
  | ptr, part :: parts => half addr ptr part < memory ∧ StaysBelow memory addr (half addr ptr part) parts

instance decidableStaysBelow (memory addr : BitVec 32) :
    (ptr : BitVec 32) → (parts : List Part) → Decidable (StaysBelow memory addr ptr parts)
  | _, [] => isTrue trivial
  | ptr, part :: parts =>
    have := decidableStaysBelow memory addr (half addr ptr part) parts
    inferInstanceAs (Decidable (_ ∧ _))

theorem Behind.writes (h : Behind addr written ptr) (hnew : (written ++ parts.flatMap Part.bytes).Nodup)
    (haddr : addr < memory) : Behind addr (written ++ parts.flatMap Part.bytes) (merged memory addr ptr parts) := by
  induction parts generalizing ptr written with
  | nil =>
    rw [List.flatMap_nil, List.append_nil]
    exact h
  | cons part parts ih =>
    rw [List.flatMap_cons, ← List.append_assoc] at hnew ⊢
    have hpart (j : Fin 4) (hj : j ∈ part.bytes) : j ∉ written := fun hin =>
      List.disjoint_of_nodup_append (List.nodup_append.mp hnew).1 hin hj
    exact ih (h.write hpart haddr) hnew

/-- What is written so far is the address's. -/
def Agrees (addr : BitVec 32) (written : List (Fin 4)) (x : BitVec 32) : Prop :=
  ∀ j ∈ written, digit x j = digit addr j

theorem Agrees.writes (h : Agrees addr written ptr) (hptr : ptr < memory) (haddr : addr < memory)
    (hnew : (written ++ parts.flatMap Part.bytes).Nodup) :
    if StaysBelow memory addr ptr parts then
      Agrees addr (written ++ parts.flatMap Part.bytes) (merged memory addr ptr parts)
    else Behind addr (written ++ parts.flatMap Part.bytes) (merged memory addr ptr parts) := by
  induction parts generalizing ptr written with
  | nil =>
    rw [List.flatMap_nil, List.append_nil]
    exact h
  | cons part parts ih =>
    have hnew' := hnew
    rw [List.flatMap_cons, ← List.append_assoc] at hnew' ⊢
    by_cases hbelow : half addr ptr part < memory
    · have hagrees : Agrees addr (written ++ part.bytes) (half addr ptr part) := by
        intro j hj
        rw [digit_half]
        split
        · rfl
        · rename_i hother
          exact h j ((List.mem_append.mp hj).resolve_right hother)
      have hrest := ih hagrees hbelow hnew'
      have hnext : merged memory addr ptr (part :: parts) = merged memory addr (half addr ptr part) parts := by
        change merged memory addr (half addr ptr part % memory) parts = _
        rw [mod_of_lt hbelow]
      rw [hnext]
      simpa only [StaysBelow, hbelow, true_and] using hrest
    · have hbehind := behind_of_reached hptr haddr hbelow
      have hwider : Behind addr (written ++ part.bytes) (half addr ptr part % memory) := by
        obtain ⟨j, hj, hrest⟩ := hbehind
        exact ⟨j, List.mem_append_right _ hj, hrest⟩
      rw [if_neg fun hstays => hbelow hstays.1]
      exact hwider.writes hnew' haddr

theorem aligned_mod {x : BitVec 32} (hx : Aligned x) (hmemory : memory.toNat % 4 = 0) : Aligned (x % memory) := by
  unfold Aligned
  rw [BitVec.toNat_umod, Nat.mod_mod_of_dvd _ (Nat.dvd_of_mod_eq_zero hmemory)]
  exact hx

theorem aligned_merged (hmemory : memory.toNat % 4 = 0) (hparts : parts ≠ []) :
    Aligned (merged memory addr ptr parts) := by
  obtain ⟨before, last, rfl⟩ := (List.eq_nil_or_concat' parts).resolve_left hparts
  unfold merged
  rw [List.foldl_append]
  exact aligned_mod (aligned_half _ _ _) hmemory

theorem merged_iff (hptr : ptr < memory) (haddr : addr < memory) (haligned : Aligned addr)
    (hmemory : memory.toNat % 4 = 0) (hparts : Whole parts) :
    merged memory addr ptr parts = addr ↔ StaysBelow memory addr ptr parts := by
  have hnodup : (parts.flatMap Part.bytes).Nodup := hparts.nodup_iff.mpr (by decide)
  have hall (j : Fin 4) : j ∈ parts.flatMap Part.bytes := hparts.mem_iff.mpr (by fin_cases j <;> decide)
  have hne : parts ≠ [] := by
    rintro rfl
    exact absurd (hall 0) (by simp)
  have hruns := Agrees.writes (fun j (hj : j ∈ []) => nomatch hj) hptr haddr hnodup
  rw [List.nil_append] at hruns
  constructor
  · intro heq
    by_contra hreached
    rw [if_neg hreached, heq] at hruns
    obtain ⟨j, -, hlow, -⟩ := hruns
    exact Nat.lt_irrefl _ hlow
  · intro hstays
    rw [if_pos hstays] at hruns
    exact eq_of_digits (aligned_merged hmemory hne) haligned fun j => hruns j (hall j)

end

/-- The parts of an address written to the pointer register, one after another. -/
def writeParts (memSize : BitVec 32) (m : Memory) (base : BitVec 13) (addr : BitVec 32) (dev : Sff)
    (parts : List Part) : Sff := parts.foldl (writePart memSize m base addr) dev

theorem writeParts_ptr (memSize : BitVec 32) (m : Memory) (base : BitVec 13) (addr : BitVec 32) (dev : Sff)
    (parts : List Part) :
    (writeParts memSize m base addr dev parts).ptr = merged (memSize * 1024) addr dev.ptr parts := by
  induction parts generalizing dev with
  | nil => rfl
  | cons part parts ih =>
    change (writeParts memSize m base addr (writePart memSize m base addr dev part) parts).ptr = _
    rw [ih, writePart_ptr]
    rfl

theorem writePart_ptr0 (memSize : BitVec 32) (m : Memory) (base : BitVec 13) (addr : BitVec 32) (dev : Sff)
    (part : Part) :
    (writePart memSize m base addr dev part).ptr0 = if 0 ∈ part.bytes then addr.setWidth 8 else dev.ptr0 := by
  have hport (offset : BitVec 3) := portAt_offset base offset
  cases part
  all_goals
    simp only [writePart, sffBusMasterWrite, sffBusMasterWritew, sffBusMasterWritel, hport]
    simp [Part.bytes]

theorem writeParts_ptr0 (memSize : BitVec 32) (m : Memory) (base : BitVec 13) (addr : BitVec 32) (dev : Sff)
    (parts : List Part) :
    (writeParts memSize m base addr dev parts).ptr0 =
      if 0 ∈ parts.flatMap Part.bytes then addr.setWidth 8 else dev.ptr0 := by
  induction parts generalizing dev with
  | nil => rfl
  | cons part parts ih =>
    change (writeParts memSize m base addr (writePart memSize m base addr dev part) parts).ptr0 = _
    rw [ih, writePart_ptr0, List.flatMap_cons]
    simp only [List.mem_append]
    by_cases hrest : (0 : Fin 4) ∈ parts.flatMap Part.bytes <;> simp [hrest]

theorem readsBack_of_ptr {dev : Sff} {addr : BitVec 32} (base : BitVec 13) (hptr : dev.ptr = addr)
    (hptr0 : dev.ptr0 = addr.setWidth 8) : ReadsBack dev base addr := by
  have hport (offset : BitVec 3) := portAt_offset base offset
  subst hptr
  constructor
  case byte0 =>
    simp only [sffBusMasterRead, hport]
    exact hptr0
  case byte1 | byte2 | byte3 | high =>
    simp only [sffBusMasterRead, sffBusMasterReadw, hport]
    rfl
  case low =>
    simp only [sffBusMasterReadw, hport]
    apply BitVec.eq_of_getLsbD_eq
    intro i hi
    change (dev.ptr0.setWidth 16 ||| (dev.ptr &&& 0xFF00).setWidth 16).getLsbD i = _
    rw [hptr0]
    simp only [BitVec.getLsbD_or, BitVec.getLsbD_and, BitVec.getLsbD_setWidth]
    interval_cases i <;> simp
  case long =>
    simp only [sffBusMasterReadl, hport]
    apply BitVec.eq_of_getLsbD_eq
    intro i hi
    change (dev.ptr0.setWidth 32 ||| dev.ptr &&& 0xFFFFFF00).getLsbD i = _
    rw [hptr0]
    simp only [BitVec.getLsbD_or, BitVec.getLsbD_and, BitVec.getLsbD_setWidth]
    interval_cases i <;> simp

/-- Written in parts in any order, the pointer is the address, and is read back as it, just when on the way it
never reaches the memory size. -/
theorem pointer_iff (memSize : BitVec 32) (m : Memory) (base : BitVec 13) (dev : Sff) (addr : BitVec 32)
    (parts : List Part) (hptr : dev.ptr < memSize * 1024) (haddr : addr < memSize * 1024) (haligned : Aligned addr)
    (hparts : Whole parts) :
    (writeParts memSize m base addr dev parts).ptr = addr ∧
        ReadsBack (writeParts memSize m base addr dev parts) base addr ↔
      StaysBelow (memSize * 1024) addr dev.ptr parts := by
  have hmemory : (memSize * 1024).toNat % 4 = 0 := by
    have hkilo : (1024 : BitVec 32).toNat = 1024 := rfl
    rw [BitVec.toNat_mul, hkilo]
    omega
  have hzero : (0 : Fin 4) ∈ parts.flatMap Part.bytes := hparts.mem_iff.mpr (by decide)
  have hptr0 := writeParts_ptr0 memSize m base addr dev parts
  rw [if_pos hzero] at hptr0
  rw [← merged_iff hptr haddr haligned hmemory hparts, ← writeParts_ptr memSize m base addr dev parts]
  exact ⟨fun h => h.1, fun h => ⟨h, readsBack_of_ptr base h hptr0⟩⟩

/-- No memory, and the pointer at `ptr`. -/
def pointing (ptr : BitVec 32) : Sff :=
  { command := 0, status := 0, dmaMode := 0, ptr0 := 0, ptr, ptrCur := 0, addr := 0, count := 0, eot := false }

def noMemory : Memory where
  installed _ := false
  byte _ := 0

/-- In 640 KiB, from the top down. -/
theorem pointer_iff_top :
    (writeParts 640 noMemory 0 0x9F000 (pointing 0x8FFFC) [.high, .byte1, .byte0]).ptr = 0x9F000 ∧
      ReadsBack (writeParts 640 noMemory 0 0x9F000 (pointing 0x8FFFC) [.high, .byte1, .byte0]) 0 0x9F000 := by
  refine (pointer_iff 640 noMemory 0 (pointing 0x8FFFC) 0x9F000 [.high, .byte1, .byte0] ?_ ?_ rfl ?_).mpr ?_
  · decide
  · decide
  · exact List.Perm.trans (by decide) (List.Perm.refl _)
  · decide

/-- In 577 KiB the address 0xFF00, written byte by byte over 0x90000, comes out as 0xFB00. -/
theorem pointer_depends_on_order :
    ((0x90000 : BitVec 32) < 577 * 1024 ∧ (0xFF00 : BitVec 32) < 577 * 1024) ∧
      (writeParts 577 noMemory 0 0xFF00 (pointing 0x90000) [.byte0, .byte1, .byte2, .byte3]).ptr = 0xFB00 ∧
      (writeParts 577 noMemory 0 0xFF00 (pointing 0x90000) [.byte3, .byte2, .byte1, .byte0]).ptr = 0xFF00 ∧
        (writeParts 577 noMemory 0 0xFF00 (pointing 0x90000) [.long]).ptr = 0xFF00 := by
  decide +kernel

end PeepeeBox.DescriptorPointer
