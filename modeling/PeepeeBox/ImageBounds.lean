import PeepeeBox.HddImage

set_option autoImplicit false

/-!
# The sectors of a drive in its image file

Rows of bytes stored in the sectors of a drive, what they leave alone, and two images that
differ only outside the drive.
-/
namespace PeepeeBox.ImageBounds
open HddImage HostFile

def contentOf (img : Image) : File := img.file.elim empty Stream.content

/-- The bytes of the file that are sectors of the drive. -/
def Inside (img : Image) (x : ℕ) : Prop :=
  img.base.toNat ≤ x ∧ x < img.base.toNat + 512 * (img.lastSector.toNat + 1)

/-- Every sector of the drive is in the file. -/
def Complete (img : Image) : Prop :=
  img.file ≠ none → img.base.toNat + 512 * (img.lastSector.toNat + 1) ≤ (contentOf img).len

/-- `n` sectors from `s` on are sectors of the drive. -/
def Covers (img : Image) (s n : ℕ) : Prop := s + n ≤ img.lastSector.toNat + 1

theorem sectorOffset_eq (img : Image) (s : BitVec 32) :
    sectorOffset img s = img.base.toNat + 512 * s.toNat := by
  have hs := s.isLt
  have hbase := img.base.isLt
  unfold sectorOffset
  rw [BitVec.toNat_add, BitVec.toNat_shiftLeft, BitVec.toNat_setWidth, BitVec.toNat_setWidth,
    Nat.shiftLeft_eq]
  omega

/-- The second image is the first after changes to sectors of the drive only. -/
structure Within (i j : Image) : Prop where
  file : j.file = none ↔ i.file = none
  base : j.base = i.base
  lastSector : j.lastSector = i.lastSector
  geometry : j.geometry = i.geometry
  len : (contentOf j).len = (contentOf i).len
  outside : ∀ x, ¬ Inside i x → (contentOf j).byte x = (contentOf i).byte x

theorem Within.refl (i : Image) : Within i i where
  file := Iff.rfl
  base := rfl
  lastSector := rfl
  geometry := rfl
  len := rfl
  outside _ _ := rfl

theorem Within.inside {i j : Image} (h : Within i j) (x : ℕ) : Inside j x ↔ Inside i x := by
  unfold Inside
  rw [h.base, h.lastSector]

theorem Within.trans {i j k : Image} (h : Within i j) (h' : Within j k) : Within i k where
  file := h'.file.trans h.file
  base := h'.base.trans h.base
  lastSector := h'.lastSector.trans h.lastSector
  geometry := h'.geometry.trans h.geometry
  len := h'.len.trans h.len
  outside x hx := (h'.outside x fun hj => hx ((h.inside x).mp hj)).trans (h.outside x hx)

theorem Within.complete {i j : Image} (h : Within i j) (hi : Complete i) : Complete j := by
  intro hfile
  rw [h.base, h.lastSector, h.len]
  exact hi fun hnone => hfile (h.file.mpr hnone)

def store (img : Image) (s : BitVec 32) (bs : List Byte) : Image :=
  { img with
    file := img.file.map fun st =>
      ((st.seek (sectorOffset img s)).fwrite bs).flush }

theorem content_store (img : Image) (s : BitVec 32) (bs : List Byte) (hfile : img.file ≠ none) :
    contentOf (store img s bs) = write (contentOf img) (img.base.toNat + 512 * s.toNat) bs := by
  obtain ⟨st, hst⟩ := Option.ne_none_iff_exists'.mp hfile
  have hcontent : contentOf img = st.content := by
    unfold contentOf
    rw [hst]
    rfl
  have hstored : contentOf (store img s bs) =
      ((st.seek (sectorOffset img s)).fwrite bs).flush.content := by
    unfold contentOf store
    rw [hst]
    rfl
  rw [hstored, hcontent, ← sectorOffset_eq]
  change write (write st.content (sectorOffset img s + bs.length - ([] ++ bs).length) ([] ++ bs)) _ [] = _
  rw [write_nil, List.nil_append, Nat.add_sub_cancel]

theorem store_none {img : Image} (hfile : img.file = none) (s : BitVec 32) (bs : List Byte) :
    store img s bs = img := by
  unfold store
  rw [hfile]
  exact congrArg (fun f => { img with file := f }) hfile.symm

theorem store_nil (img : Image) (s : BitVec 32) : Within img (store img s []) := by
  by_cases hfile : img.file = none
  · rw [store_none hfile]
    exact Within.refl img
  have hcontent := content_store img s [] hfile
  rw [write_nil] at hcontent
  refine ⟨?_, rfl, rfl, rfl, ?_, ?_⟩
  · unfold store
    rw [Option.map_eq_none_iff]
  · rw [hcontent]
  · intro x _
    rw [hcontent]

theorem store_within {img : Image} {s : BitVec 32} {bs : List Byte} {n : ℕ} (hlen : bs.length = 512 * n)
    (hcovers : Covers img s.toNat n) (hcomplete : Complete img) : Within img (store img s bs) := by
  by_cases hfile : img.file = none
  · rw [store_none hfile]
    exact Within.refl img
  have hcontent := content_store img s bs hfile
  have hroom := hcomplete hfile
  unfold Covers at hcovers
  refine ⟨?_, rfl, rfl, rfl, ?_, ?_⟩
  · unfold store
    rw [Option.map_eq_none_iff]
  · rw [hcontent]
    exact write_len_inside _ (by omega)
  · intro x hx
    rw [hcontent]
    refine write_outside _ ?_
    unfold Inside at hx
    omega

theorem store_file (img : Image) (s : BitVec 32) (bs : List Byte) :
    (store img s bs).file = none ↔ img.file = none := by
  unfold store
  rw [Option.map_eq_none_iff]

theorem store_complete {img : Image} (h : Complete img) (s : BitVec 32) (bs : List Byte) :
    Complete (store img s bs) := by
  intro hfile
  have hold : img.file ≠ none := fun hnone => hfile ((store_file img s bs).mpr hnone)
  have hroom := h hold
  rw [content_store img s bs hold, write_len]
  change img.base.toNat + 512 * (img.lastSector.toNat + 1) ≤ _
  split
  · exact hroom
  · exact Nat.le_trans hroom (Nat.le_max_left _ _)

theorem hddImageWrite_store (img : Image) (s count : BitVec 32) (buffer : List Byte) :
    (hddImageWrite img s count buffer).1 = store img s (buffer.take (512 * count.toNat)) := by
  unfold hddImageWrite store
  cases hfile : img.file with
  | none => exact congrArg (fun f => { img with file := f }) hfile
  | some st => rfl

theorem zeroSectors_eq (n : ℕ) (st : Stream) :
    zeroSectors n st = st.fwrite (List.replicate (512 * n) 0) := by
  induction n generalizing st with
  | zero =>
    unfold zeroSectors Stream.fwrite
    rw [Nat.mul_zero, List.replicate_zero, List.append_nil]
    rfl
  | succ n ih =>
    have hsplit : List.replicate (512 * (n + 1)) (0 : Byte) =
        List.replicate 512 0 ++ List.replicate (512 * n) 0 := by
      rw [← List.replicate_add]
      congr 1
      omega
    unfold zeroSectors
    rw [ih, hsplit]
    unfold Stream.fwrite
    rw [List.append_assoc, List.length_append, Nat.add_assoc]

theorem hddImageZero_store (img : Image) (s count : BitVec 32) :
    (hddImageZero img s count).1 = store img s (List.replicate (512 * count.toNat) 0) := by
  unfold hddImageZero store
  cases hfile : img.file with
  | none => exact congrArg (fun f => { img with file := f }) hfile
  | some st =>
    dsimp only
    rw [zeroSectors_eq]
    rfl

structure SameInside (i j : Image) : Prop where
  file : j.file = none ↔ i.file = none
  base : j.base = i.base
  lastSector : j.lastSector = i.lastSector
  geometry : j.geometry = i.geometry
  len : (contentOf j).len = (contentOf i).len
  inside : ∀ x, Inside i x → (contentOf j).byte x = (contentOf i).byte x

theorem SameInside.refl (i : Image) : SameInside i i where
  file := Iff.rfl
  base := rfl
  lastSector := rfl
  geometry := rfl
  len := rfl
  inside _ _ := rfl

theorem SameInside.covers {i j : Image} (h : SameInside i j) (s n : ℕ) :
    Covers j s n ↔ Covers i s n := by
  unfold Covers
  rw [h.lastSector]

theorem SameInside.read {i j : Image} (h : SameInside i j) {s count : BitVec 32}
    (hcovers : Covers i s.toNat count.toNat) : hddImageRead j s count = hddImageRead i s count := by
  have hoffset : sectorOffset j s = sectorOffset i s := by
    rw [sectorOffset_eq, sectorOffset_eq, h.base]
  unfold hddImageRead
  cases hi : i.file with
  | none =>
    rw [h.file.mpr hi]
    rfl
  | some st =>
    obtain ⟨st', hj⟩ := Option.ne_none_iff_exists'.mp fun hnone =>
      Option.some_ne_none st (hi.symm.trans (h.file.mp hnone))
    have hcontent : contentOf i = st.content := by
      unfold contentOf
      rw [hi]
      rfl
    have hcontent' : contentOf j = st'.content := by
      unfold contentOf
      rw [hj]
      rfl
    have hlen := h.len
    have hinside := h.inside
    rw [hcontent, hcontent'] at hlen hinside
    rw [hj, Option.map_some, Option.map_some, hoffset]
    refine congrArg some (read_congr hlen ?_)
    intro x hlow hhigh
    unfold Covers at hcovers
    rw [sectorOffset_eq] at hlow hhigh
    exact hinside x ⟨by omega, by omega⟩

theorem SameInside.store {i j : Image} (h : SameInside i j) (s : BitVec 32) (bs : List Byte) :
    SameInside (store i s bs) (store j s bs) := by
  by_cases hi : i.file = none
  · rw [store_none hi, store_none (h.file.mpr hi)]
    exact h
  have hj : j.file ≠ none := fun hnone => hi (h.file.mp hnone)
  have hcontent := content_store i s bs hi
  have hcontent' := content_store j s bs hj
  refine ⟨?_, h.base, h.lastSector, h.geometry, ?_, ?_⟩
  · unfold ImageBounds.store
    rw [Option.map_eq_none_iff, Option.map_eq_none_iff]
    exact h.file
  · rw [hcontent, hcontent', h.base]
    rw [write_len, write_len, h.len]
  · intro x hx
    rw [hcontent, hcontent', h.base]
    rw [write_byte, write_byte, h.inside x hx]

end PeepeeBox.ImageBounds
