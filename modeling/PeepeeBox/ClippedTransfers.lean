import Mathlib.Data.Int.Notation
import PeepeeBox.ImageBounds

set_option autoImplicit false

/-!
# Clipped transfers

`hdd_image_read_ex` and its siblings: how much of a request they pass on, for an image of any kind, and how much of it
there is.
-/
namespace PeepeeBox.ClippedTransfers
open HddImage HostFile ImageBounds

/-- `hdd_image_read`, `hdd_image_write` and `hdd_image_zero` of an image; a failed read brings nothing. -/
structure Backend (σ : Type) where
  read : σ → BitVec 32 → BitVec 32 → Option (List Byte)
  write : σ → BitVec 32 → BitVec 32 → List Byte → σ × Bool
  zero : σ → BitVec 32 → BitVec 32 → σ × Bool

def fileBackend : Backend Image where
  read := hddImageRead
  write := hddImageWrite
  zero := hddImageZero

section
variable {σ : Type} (b : Backend σ) (lastSector : BitVec 32) (img : σ) (sector count : BitVec 32)

def hddSectors (lastSector : BitVec 32) : BitVec 32 := lastSector - 1

def transferSectors (lastSector sector count : BitVec 32) : BitVec 32 :=
  let sectors := hddSectors lastSector
  if sectors - sector < count then sectors - sector else count

def hddImageReadEx : Option (List Byte) × ℤ :=
  let transfer := transferSectors lastSector sector count
  match b.read img sector transfer with
  | none => (none, -1)
  | some bytes => (some bytes, if count ≠ transfer then 1 else 0)

def hddImageWriteEx (buffer : List Byte) : σ × ℤ :=
  let transfer := transferSectors lastSector sector count
  let (img, ok) := b.write img sector transfer buffer
  (img, if !ok then -1 else if count ≠ transfer then 1 else 0)

def hddImageZeroEx : σ × ℤ :=
  let transfer := transferSectors lastSector sector count
  ((b.zero img sector transfer).1, if count ≠ transfer then 1 else 0)

def present (lastSector sector count : BitVec 32) : ℕ := min count.toNat (lastSector.toNat + 1 - sector.toNat)

def told (lastSector sector count : BitVec 32) : ℤ := if present lastSector sector count < count.toNat then 1 else 0

def readPresent : Option (List Byte) × ℤ :=
  match b.read img sector (BitVec.ofNat 32 (present lastSector sector count)) with
  | none => (none, -1)
  | some bytes => (some bytes, told lastSector sector count)

def writePresent (buffer : List Byte) : σ × ℤ :=
  let (img, ok) := b.write img sector (BitVec.ofNat 32 (present lastSector sector count)) buffer
  (img, if !ok then -1 else told lastSector sector count)

def zeroPresent : σ × ℤ :=
  ((b.zero img sector (BitVec.ofNat 32 (present lastSector sector count))).1, told lastSector sector count)

end

/-- Whatever the image, what there is is transferred, and told. -/
structure Exact (lastSector sector count : BitVec 32) : Prop where
  read : ∀ (σ : Type) (b : Backend σ) (img : σ),
    hddImageReadEx b lastSector img sector count = readPresent b lastSector img sector count
  write : ∀ (σ : Type) (b : Backend σ) (img : σ) (buffer : List Byte),
    hddImageWriteEx b lastSector img sector count buffer = writePresent b lastSector img sector count buffer
  zero : ∀ (σ : Type) (b : Backend σ) (img : σ),
    hddImageZeroEx b lastSector img sector count = zeroPresent b lastSector img sector count

/-- Nothing is asked for, or nothing near the end, or the last sector alone; or the one sector of the image is
passed as far as can be. -/
def Unclipped (lastSector sector count : BitVec 32) : Prop :=
  count = 0 ∨ sector.toNat + count.toNat < lastSector.toNat ∨ sector = lastSector ∧ count = 1 ∨
    lastSector = 0 ∧ sector = 0xFFFFFFFF

variable {lastSector sector count : BitVec 32}

theorem present_toNat (lastSector sector count : BitVec 32) :
    (BitVec.ofNat 32 (present lastSector sector count)).toNat = present lastSector sector count := by
  have hcount := count.isLt
  rw [BitVec.toNat_ofNat]
  unfold present
  omega

theorem transferSectors_toNat (lastSector sector count : BitVec 32) :
    (transferSectors lastSector sector count).toNat =
      min count.toNat ((2 * 2 ^ 32 + lastSector.toNat - 1 - sector.toNat) % 2 ^ 32) := by
  have hleft : (lastSector - 1 - sector).toNat = (2 * 2 ^ 32 + lastSector.toNat - 1 - sector.toNat) % 2 ^ 32 := by
    have hsector := sector.isLt
    have hone : (1 : BitVec 32).toNat = 1 := rfl
    rw [BitVec.toNat_sub, BitVec.toNat_sub, hone]
    omega
  unfold transferSectors hddSectors
  dsimp only
  split
  · rename_i hclip
    rw [BitVec.lt_def, hleft] at hclip
    rw [hleft]
    omega
  · rename_i hclip
    rw [BitVec.lt_def, hleft] at hclip
    omega

theorem transfer_eq_present :
    (transferSectors lastSector sector count).toNat = present lastSector sector count ↔
      Unclipped lastSector sector count := by
  have hlast := lastSector.isLt
  have hsector := sector.isLt
  have hcount := count.isLt
  have heq {x y : BitVec 32} : x = y ↔ x.toNat = y.toNat := BitVec.toNat_inj.symm
  have hzero : (0 : BitVec 32).toNat = 0 := rfl
  have hone : (1 : BitVec 32).toNat = 1 := rfl
  have hmax : (0xFFFFFFFF : BitVec 32).toNat = 0xFFFFFFFF := rfl
  rw [transferSectors_toNat, present, Unclipped, heq, heq, heq, heq, heq, hzero, hone, hmax]
  rcases Nat.lt_trichotomy sector.toNat lastSector.toNat with hlt | hlt | hlt
  · have hleft : (2 * 2 ^ 32 + lastSector.toNat - 1 - sector.toNat) % 2 ^ 32 =
        lastSector.toNat - 1 - sector.toNat := by omega
    rw [hleft]
    omega
  · have hleft : (2 * 2 ^ 32 + lastSector.toNat - 1 - sector.toNat) % 2 ^ 32 = 2 ^ 32 - 1 := by omega
    rw [hleft]
    omega
  · have hleft : (2 * 2 ^ 32 + lastSector.toNat - 1 - sector.toNat) % 2 ^ 32 =
        2 ^ 32 + lastSector.toNat - 1 - sector.toNat := by omega
    rw [hleft]
    omega

/-- An image that keeps how many sectors were asked of it. -/
def counting : Backend (BitVec 32) where
  read _ _ n := some [n.setWidth 8]
  write _ _ n _ := (n, true)
  zero _ _ n := (n, true)

/-- What there is, and nothing else, is transferred and told just when the request is not clipped. -/
theorem clipped_transfers_iff (lastSector sector count : BitVec 32) :
    Exact lastSector sector count ↔ Unclipped lastSector sector count := by
  rw [← transfer_eq_present]
  constructor
  · intro h
    have hcounted : transferSectors lastSector sector count = BitVec.ofNat 32 (present lastSector sector count) :=
      congrArg Prod.fst (h.write _ counting 0 [])
    rw [hcounted, present_toNat]
  · intro h
    have htransfer : transferSectors lastSector sector count = BitVec.ofNat 32 (present lastSector sector count) :=
      BitVec.eq_of_toNat_eq (h.trans (present_toNat lastSector sector count).symm)
    have htold :
        (if count ≠ transferSectors lastSector sector count then 1 else 0) = told lastSector sector count := by
      have hle : present lastSector sector count ≤ count.toNat := Nat.min_le_left _ _
      have hne : count ≠ transferSectors lastSector sector count ↔ present lastSector sector count < count.toNat := by
        rw [ne_eq, ← BitVec.toNat_inj, h]
        omega
      unfold told
      simp only [hne]
    rw [htransfer] at htold
    refine ⟨fun σ b img => ?_, fun σ b img buffer => ?_, fun σ b img => ?_⟩
    · unfold hddImageReadEx readPresent
      dsimp only
      rw [htransfer, htold]
    · unfold hddImageWriteEx writePresent
      dsimp only
      rw [htransfer, htold]
    · unfold hddImageZeroEx zeroPresent
      dsimp only
      rw [htransfer, htold]

/-- Of a hundred sectors the last but one is not transferred, and one past the end is. -/
theorem last_but_one_not_read : ¬ Exact 99 98 1 ∧ ¬ Exact 99 100 1 := by
  refine ⟨fun h => ?_, fun h => ?_⟩
  · exact absurd (h.zero _ counting 0) (by decide)
  · exact absurd (h.zero _ counting 0) (by decide)

end PeepeeBox.ClippedTransfers
