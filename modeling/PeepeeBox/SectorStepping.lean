import Mathlib.Logic.Function.Iterate
import Mathlib.Tactic.SplitIfs
import PeepeeBox.HdcIde

set_option autoImplicit false

/-!
# Stepping from sector to sector

`ide_next_sector` counts in an 8-bit sector, a 4-bit head and a 16-bit cylinder register.
-/
namespace PeepeeBox.SectorStepping
open HdcIde

structure Place where
  lba : Bool
  addr : ℕ
  cylinder : ℕ
  head : ℕ
  sector : ℕ
  spt : ℕ
  hpc : ℕ

namespace Place

structure Valid (p : Place) : Prop where
  addr : p.addr < 2 ^ 32
  cylinder : p.cylinder < 65536
  head : p.head < 16
  sector : p.sector < 256
  spt : 1 ≤ p.spt ∧ p.spt ≤ 256
  hpc : 1 ≤ p.hpc ∧ p.hpc ≤ 16

/-- The linear number of the sector; a sector register of 0 is taken for 1. -/
def index (p : Place) : ℕ :=
  if p.lba then p.addr else (p.cylinder * p.hpc + p.head) * p.spt + (p.sector - 1)

def next (p : Place) : Place :=
  if p.lba then { p with addr := (p.addr + 1) % 2 ^ 32 }
  else if p.sector = p.spt then
    if p.head + 1 = p.hpc then
      { p with sector := 1, head := 0, cylinder := (p.cylinder + 1) % 65536 }
    else { p with sector := 1, head := (p.head + 1) % 16 }
  else { p with sector := (p.sector + 1) % 256 }

/-- The `n` sectors from here on are visited in order. -/
def Linear (p : Place) (n : ℕ) : Prop := ∀ k < n, (next^[k] p).index = p.index + k

/-- Where the registers do not run over: one sector; a track of the sector register's own size,
    up to its end; tracks of the geometry, up to the last cylinder; or, from a head that the
    geometry does not have, up to the last head of the register. -/
def Fits (p : Place) (n : ℕ) : Prop :=
  p.lba = true ∨ n = 1 ∨
    1 ≤ p.sector ∧
      ((p.spt < p.sector ∨ p.spt = 256) ∧ p.sector + n ≤ 256 ∨
        p.sector ≤ p.spt ∧ p.spt ≤ 255 ∧
          (p.head < p.hpc ∧
              p.cylinder * p.hpc + p.head + (p.sector + n - 2) / p.spt < 65536 * p.hpc ∨
            p.hpc ≤ p.head ∧ p.head + (p.sector + n - 2) / p.spt ≤ 15))

theorem Valid.next {p : Place} (h : p.Valid) : p.next.Valid := by
  have haddr := Nat.mod_lt (p.addr + 1) (show 0 < 2 ^ 32 by decide)
  have hcylinder := Nat.mod_lt (p.cylinder + 1) (show 0 < 65536 by decide)
  have hhead := Nat.mod_lt (p.head + 1) (show 0 < 16 by decide)
  have hsector := Nat.mod_lt (p.sector + 1) (show 0 < 256 by decide)
  unfold Place.next
  split_ifs
  · exact ⟨haddr, h.cylinder, h.head, h.sector, h.spt, h.hpc⟩
  · exact ⟨h.addr, hcylinder, show 0 < 16 by decide, show 1 < 256 by decide, h.spt, h.hpc⟩
  · exact ⟨h.addr, h.cylinder, hhead, show 1 < 256 by decide, h.spt, h.hpc⟩
  · exact ⟨h.addr, h.cylinder, h.head, hsector, h.spt, h.hpc⟩

theorem next_lba (p : Place) : p.next.lba = p.lba := by
  unfold Place.next
  split_ifs <;> rfl

theorem Linear.step {p : Place} {n : ℕ} :
    p.Linear (n + 2) ↔ p.next.index = p.index + 1 ∧ p.next.Linear (n + 1) := by
  constructor
  · intro h
    have hone : p.next.index = p.index + 1 := h 1 (by omega)
    refine ⟨hone, ?_⟩
    intro k hk
    have hnext : (Place.next^[k] p.next).index = p.index + (k + 1) := h (k + 1) (by omega)
    omega
  · rintro ⟨hone, hrest⟩ k hk
    cases k with
    | zero => rfl
    | succ k =>
      have hnext : (Place.next^[k + 1] p).index = p.next.index + k := hrest k (by omega)
      omega

theorem index_chs {p : Place} (h : p.lba = false) :
    p.index = (p.cylinder * p.hpc + p.head) * p.spt + (p.sector - 1) := by
  unfold index
  rw [h]
  rfl

theorem track_succ {a b spt s : ℕ} (hspt : 1 ≤ spt) (hs : s + 1 = spt) :
    b * spt = a * spt + s + 1 ↔ b = a + 1 := by
  have hright : a * spt + s + 1 = (a + 1) * spt := by
    rw [Nat.add_mul, Nat.one_mul]
    omega
  rw [hright]
  exact Nat.mul_left_inj (by omega)

theorem div_step {spt n : ℕ} (hspt : 1 ≤ spt) : (spt + (n + 2) - 2) / spt = n / spt + 1 := by
  have hsum : spt + (n + 2) - 2 = n + spt := by omega
  rw [hsum]
  exact Nat.add_div_right n (by omega)

theorem Fits.step_cylinder {p : Place} (h : p.Valid) (hlba : p.lba = false)
    (htrack : p.sector = p.spt) (hhead : p.head + 1 = p.hpc) {n : ℕ} :
    p.Fits (n + 2) ↔ p.next.index = p.index + 1 ∧ p.next.Fits (n + 1) := by
  obtain ⟨-, hcylinder, -, hsector, ⟨hspt, -⟩, ⟨hhpc, -⟩⟩ := h
  have hnext : p.next = { p with sector := 1, head := 0, cylinder := (p.cylinder + 1) % 65536 } := by
    unfold Place.next
    rw [hlba, if_neg Bool.false_ne_true, if_pos htrack, if_pos hhead]
  have hindex : p.next.index = p.index + 1 ↔ p.cylinder + 1 < 65536 := by
    rw [index_chs hlba, hnext]
    change (if p.lba = true then _ else ((p.cylinder + 1) % 65536 * p.hpc + 0) * p.spt + (1 - 1)) = _ ↔ _
    rw [hlba, if_neg Bool.false_ne_true]
    change (p.cylinder + 1) % 65536 * p.hpc * p.spt = _ ↔ _
    rw [track_succ hspt (by omega)]
    have htrack' : p.cylinder * p.hpc + p.head + 1 = (p.cylinder + 1) * p.hpc := by
      rw [Nat.add_mul, Nat.one_mul]
      omega
    rw [htrack', Nat.mul_left_inj (by omega)]
    omega
  rw [hindex, hnext]
  unfold Fits
  dsimp only
  have hdiv := div_step (n := n) hspt
  have hdiv' : (1 + (n + 1) - 2) / p.spt = n / p.spt := by
    congr 1
    omega
  have hcount : n = 0 → n / p.spt = 0 := by
    intro h0
    rw [h0, Nat.zero_div]
  have hmul : (p.cylinder + 1) * p.hpc = p.cylinder * p.hpc + p.hpc := by
    rw [Nat.add_mul, Nat.one_mul]
  have hlast : p.cylinder + 1 < 65536 → (p.cylinder + 1) * p.hpc + p.hpc ≤ 65536 * p.hpc := by
    intro hlt
    rw [← Nat.succ_mul]
    exact Nat.mul_le_mul_right _ (by omega)
  have hover : p.cylinder + 1 = 65536 → (p.cylinder + 1) * p.hpc = 65536 * p.hpc := by
    intro heq
    rw [heq]
  have hmod : p.cylinder + 1 < 65536 → (p.cylinder + 1) % 65536 * p.hpc = (p.cylinder + 1) * p.hpc := by
    intro hlt
    rw [Nat.mod_eq_of_lt hlt]
  rw [htrack, hdiv, hdiv', hlba]
  generalize n / p.spt = q at *
  generalize p.cylinder * p.hpc = x at *
  generalize (p.cylinder + 1) * p.hpc = y at *
  generalize (p.cylinder + 1) % 65536 * p.hpc = z at *
  constructor
  · intro hfits
    have hroom : x + p.head + (q + 1) < 65536 * p.hpc := by
      rcases hfits with hfalse | hone | ⟨-, htwo | ⟨-, -, ⟨-, hroom⟩ | ⟨hbad, -⟩⟩⟩
      · exact absurd hfalse Bool.false_ne_true
      · omega
      · omega
      · exact hroom
      · omega
    have hlt : p.cylinder + 1 < 65536 := by omega
    have hz := hmod hlt
    refine ⟨hlt, Or.inr (Or.inr ⟨Nat.le_refl 1, Or.inr ⟨hspt, by omega, Or.inl ⟨by omega, by omega⟩⟩⟩)⟩
  · rintro ⟨hlt, hfits⟩
    have hz := hmod hlt
    have hl := hlast hlt
    refine Or.inr (Or.inr ⟨hspt, Or.inr ⟨Nat.le_refl _, by omega, Or.inl ⟨by omega, ?_⟩⟩⟩)
    rcases hfits with hfalse | hone | ⟨-, htwo | ⟨-, -, ⟨-, hroom⟩ | ⟨hbad, -⟩⟩⟩
    · exact absurd hfalse Bool.false_ne_true
    · have hq := hcount (by omega)
      omega
    · omega
    · omega
    · omega

theorem Fits.step_track {p : Place} (h : p.Valid) (hlba : p.lba = false)
    (htrack : p.sector = p.spt) (hhead : p.head + 1 ≠ p.hpc) {n : ℕ} :
    p.Fits (n + 2) ↔ p.next.index = p.index + 1 ∧ p.next.Fits (n + 1) := by
  obtain ⟨-, hcylinder, hheads, hsector, ⟨hspt, -⟩, ⟨hhpc, hhpc'⟩⟩ := h
  have hnext : p.next = { p with sector := 1, head := (p.head + 1) % 16 } := by
    unfold Place.next
    rw [hlba, if_neg Bool.false_ne_true, if_pos htrack, if_neg hhead]
  have hindex : p.next.index = p.index + 1 ↔ p.head + 1 ≤ 15 := by
    rw [index_chs hlba, hnext]
    change (if p.lba = true then _ else (p.cylinder * p.hpc + (p.head + 1) % 16) * p.spt + (1 - 1)) = _ ↔ _
    rw [hlba, if_neg Bool.false_ne_true]
    change (p.cylinder * p.hpc + (p.head + 1) % 16) * p.spt = _ ↔ _
    rw [track_succ hspt (by omega)]
    omega
  rw [hindex, hnext]
  unfold Fits
  dsimp only
  have hdiv := div_step (n := n) hspt
  have hdiv' : (1 + (n + 1) - 2) / p.spt = n / p.spt := by
    congr 1
    omega
  have hcount : n = 0 → n / p.spt = 0 := by
    intro h0
    rw [h0, Nat.zero_div]
  have hlast : p.cylinder * p.hpc + p.hpc ≤ 65536 * p.hpc := by
    rw [← Nat.succ_mul]
    exact Nat.mul_le_mul_right _ (by omega)
  rw [htrack, hdiv, hdiv', hlba]
  generalize n / p.spt = q at *
  generalize p.cylinder * p.hpc = x at *
  constructor
  · intro hfits
    rcases hfits with hfalse | hone | ⟨-, htwo | ⟨-, -, ⟨hin, hroom⟩ | ⟨hout, hroom⟩⟩⟩
    · exact absurd hfalse Bool.false_ne_true
    · omega
    · omega
    · refine ⟨by omega, Or.inr (Or.inr ⟨Nat.le_refl 1, Or.inr ⟨hspt, by omega, Or.inl ?_⟩⟩)⟩
      omega
    · refine ⟨by omega, Or.inr (Or.inr ⟨Nat.le_refl 1, Or.inr ⟨hspt, by omega, Or.inr ?_⟩⟩)⟩
      omega
  · rintro ⟨hlt, hfits⟩
    have hmod : (p.head + 1) % 16 = p.head + 1 := Nat.mod_eq_of_lt (by omega)
    rw [hmod] at hfits
    refine Or.inr (Or.inr ⟨hspt, Or.inr ⟨Nat.le_refl _, by omega, ?_⟩⟩)
    rcases hfits with hfalse | hone | ⟨-, htwo | ⟨-, -, ⟨hin, hroom⟩ | ⟨hout, hroom⟩⟩⟩
    · exact absurd hfalse Bool.false_ne_true
    · have hq := hcount (by omega)
      by_cases hin : p.head < p.hpc
      · exact Or.inl ⟨hin, by omega⟩
      · exact Or.inr ⟨by omega, by omega⟩
    · omega
    · exact Or.inl ⟨by omega, by omega⟩
    · exact Or.inr ⟨by omega, by omega⟩

theorem Fits.step_sector {p : Place} (h : p.Valid) (hlba : p.lba = false) (htrack : p.sector ≠ p.spt)
    {n : ℕ} : p.Fits (n + 2) ↔ p.next.index = p.index + 1 ∧ p.next.Fits (n + 1) := by
  obtain ⟨-, hcylinder, hheads, hsector, ⟨hspt, hspt'⟩, ⟨hhpc, hhpc'⟩⟩ := h
  have hnext : p.next = { p with sector := (p.sector + 1) % 256 } := by
    unfold Place.next
    rw [hlba, if_neg Bool.false_ne_true, if_neg htrack]
  have hindex : p.next.index = p.index + 1 ↔ 1 ≤ p.sector ∧ p.sector < 255 := by
    rw [index_chs hlba, hnext]
    change (if p.lba = true then _ else
      (p.cylinder * p.hpc + p.head) * p.spt + ((p.sector + 1) % 256 - 1)) = _ ↔ _
    rw [hlba, if_neg Bool.false_ne_true]
    omega
  have hlast : p.cylinder * p.hpc + p.hpc ≤ 65536 * p.hpc := by
    rw [← Nat.succ_mul]
    exact Nat.mul_le_mul_right _ (by omega)
  have hfirst : n = 0 → p.sector < p.spt → (p.sector + (n + 2) - 2) / p.spt = 0 := by
    intro h0 hlt
    exact Nat.div_eq_of_lt (by omega)
  have hsum : p.sector + 1 + (n + 1) - 2 = p.sector + (n + 2) - 2 := by omega
  rw [hindex, hnext]
  unfold Fits
  dsimp only
  rw [hlba]
  by_cases hin : p.sector < 255
  · rw [Nat.mod_eq_of_lt (show p.sector + 1 < 256 by omega), hsum]
    generalize (p.sector + (n + 2) - 2) / p.spt = q at *
    generalize p.cylinder * p.hpc = x at *
    simp only [Bool.false_eq_true, false_or]
    omega
  · have hzero : (p.sector + 1) % 256 = 0 := by omega
    rw [hzero]
    simp only [Bool.false_eq_true, false_or]
    omega

theorem linear_one (p : Place) : p.Linear 1 := by
  intro k hk
  have hzero : k = 0 := by omega
  rw [hzero]
  rfl

theorem Linear.of_lba {p : Place} (hlba : p.lba = true) {n : ℕ} (hroom : p.addr + n ≤ 2 ^ 32) :
    p.Linear n := by
  induction n generalizing p with
  | zero => exact fun k hk => absurd hk (Nat.not_lt_zero k)
  | succ n ih =>
    cases n with
    | zero => exact linear_one p
    | succ n =>
      have hnext : p.next = { p with addr := (p.addr + 1) % 2 ^ 32 } := by
        unfold Place.next
        rw [if_pos hlba]
      have haddr : p.next.addr = p.addr + 1 := by
        rw [hnext]
        exact Nat.mod_eq_of_lt (by omega)
      refine Linear.step.mpr ⟨?_, ih (p.next_lba.trans hlba) (by omega)⟩
      unfold index
      rw [p.next_lba, hlba, haddr]
      rfl

theorem linear_iff {p : Place} (h : p.Valid) {n : ℕ} (hn : 1 ≤ n)
    (hroom : p.lba = true → p.addr + n ≤ 2 ^ 32) : p.Linear n ↔ p.Fits n := by
  cases hlba : p.lba with
  | true => exact ⟨fun _ => Or.inl hlba, fun _ => Linear.of_lba hlba (hroom hlba)⟩
  | false =>
    obtain ⟨n, rfl⟩ := Nat.exists_eq_add_of_le' hn
    clear hroom hn
    induction n generalizing p with
    | zero => exact ⟨fun _ => Or.inr (Or.inl rfl), fun _ => linear_one p⟩
    | succ n ih =>
      have hfits : p.Fits (n + 2) ↔ p.next.index = p.index + 1 ∧ p.next.Fits (n + 1) := by
        by_cases htrack : p.sector = p.spt
        · by_cases hhead : p.head + 1 = p.hpc
          · exact Fits.step_cylinder h hlba htrack hhead
          · exact Fits.step_track h hlba htrack hhead
        · exact Fits.step_sector h hlba htrack
      rw [hfits, Linear.step, ih h.next (p.next_lba.trans hlba)]

end Place

def placeOf (d : Drive) : Place where
  lba := d.tf.lba
  addr := d.lbaAddr.toNat
  cylinder := d.tf.cylinder.toNat
  head := d.tf.head.toNat
  sector := d.tf.sector.toNat
  spt := d.cfgSpt.toNat
  hpc := d.cfgHpc.toNat

theorem setHead_head (tf : Tf) (head : Byte) : (tf.setHead head).head = head &&& 0x0F := by
  change (tf.drvsel &&& 0xF0 ||| head &&& 0x0F) &&& 0x0F = head &&& 0x0F
  rw [BitVec.and_or_distrib_right, BitVec.and_assoc, BitVec.and_assoc]
  have hnone : (0xF0 : Byte) &&& 0x0F = 0#8 := by decide
  have hall : (0x0F : Byte) &&& 0x0F = 0x0F := by decide
  rw [hnone, hall, BitVec.and_zero, BitVec.zero_or]

theorem setHead_lba (tf : Tf) (head : Byte) : (tf.setHead head).lba = tf.lba := by
  change (tf.drvsel &&& 0xF0 ||| head &&& 0x0F).getLsbD 6 = tf.drvsel.getLsbD 6
  rw [BitVec.getLsbD_or, BitVec.getLsbD_and, BitVec.getLsbD_and]
  have hhigh : (0xF0 : Byte).getLsbD 6 = true := by decide
  have hlow : (0x0F : Byte).getLsbD 6 = false := by decide
  rw [hhigh, hlow, Bool.and_true, Bool.and_false, Bool.or_false]

theorem and_head (b : Byte) : (b &&& 0x0F).toNat = b.toNat % 16 := by
  rw [BitVec.toNat_and]
  exact Nat.and_two_pow_sub_one_eq_mod b.toNat 4

theorem head_lt (tf : Tf) : tf.head.toNat < 16 := by
  unfold Tf.head
  rw [and_head]
  exact Nat.mod_lt _ (by decide)

theorem ideGetSector_index (d : Drive) : ideGetSector d = (placeOf d).index := by
  unfold ideGetSector Place.index chsTrack
  change (if d.tf.lba = true then _ else _) = if d.tf.lba = true then _ else _
  split
  · rfl
  · change _ = (d.tf.cylinder.toNat * d.cfgHpc.toNat + d.tf.head.toNat) * d.cfgSpt.toNat +
      (d.tf.sector.toNat - 1)
    congr 1
    split
    · rfl
    · rename_i hzero
      rw [not_not.mp hzero]
      rfl

theorem ideNextSector_place {d : Drive} (hvalid : (placeOf d).Valid) :
    placeOf (ideNextSector d) = (placeOf d).next := by
  have hhead := head_lt d.tf
  have hsector := d.tf.sector.isLt
  have hspt : d.cfgSpt.toNat ≤ 256 := hvalid.spt.2
  have hhpc : d.cfgHpc.toNat ≤ 16 := hvalid.hpc.2
  have hend : d.tf.sector.setWidth 32 + 1 = 0 ∨ d.tf.sector.setWidth 32 + 1 = d.cfgSpt + 1 ↔
      d.tf.sector.toNat = d.cfgSpt.toNat := by
    rw [← BitVec.toNat_inj, ← BitVec.toNat_inj, BitVec.toNat_add, BitVec.toNat_add,
      BitVec.toNat_setWidth]
    change (d.tf.sector.toNat % 2 ^ 32 + 1) % 2 ^ 32 = 0 ∨
      (d.tf.sector.toNat % 2 ^ 32 + 1) % 2 ^ 32 = (d.cfgSpt.toNat + 1) % 2 ^ 32 ↔ _
    omega
  have hlast : d.tf.head.setWidth 32 + 1 = d.cfgHpc ↔ d.tf.head.toNat + 1 = d.cfgHpc.toNat := by
    rw [← BitVec.toNat_inj, BitVec.toNat_add, BitVec.toNat_setWidth]
    change (d.tf.head.toNat % 2 ^ 32 + 1) % 2 ^ 32 = _ ↔ _
    omega
  have hnextHead : ((d.tf.head.setWidth 32 + 1).setWidth 8 &&& 0x0F : Byte).toNat =
      (d.tf.head.toNat + 1) % 16 := by
    rw [and_head, BitVec.toNat_setWidth, BitVec.toNat_add, BitVec.toNat_setWidth]
    change (d.tf.head.toNat % 2 ^ 32 + 1) % 2 ^ 32 % 2 ^ 8 % 16 = _
    omega
  have hnextSector : ((d.tf.sector.setWidth 32 + 1).setWidth 8 : Byte).toNat =
      (d.tf.sector.toNat + 1) % 256 := by
    rw [BitVec.toNat_setWidth, BitVec.toNat_add, BitVec.toNat_setWidth]
    change (d.tf.sector.toNat % 2 ^ 32 + 1) % 2 ^ 32 % 2 ^ 8 = _
    omega
  unfold ideNextSector Place.next
  dsimp only
  change placeOf (if d.tf.lba = true then _ else _) = if d.tf.lba = true then _ else
    if d.tf.sector.toNat = d.cfgSpt.toNat then
      if d.tf.head.toNat + 1 = d.cfgHpc.toNat then _ else _
    else _
  split
  · unfold placeOf
    dsimp only
    rw [BitVec.toNat_add]
    rfl
  by_cases htrack : d.tf.sector.toNat = d.cfgSpt.toNat
  · rw [if_pos htrack, if_pos (hend.mpr htrack)]
    by_cases hcylinder : d.tf.head.toNat + 1 = d.cfgHpc.toNat
    · rw [if_pos hcylinder, if_pos (hlast.mpr hcylinder)]
      change Place.mk (d.tf.setHead 0).lba d.lbaAddr.toNat (d.tf.cylinder + 1).toNat
        (d.tf.setHead 0).head.toNat 1 d.cfgSpt.toNat d.cfgHpc.toNat = _
      rw [setHead_lba, setHead_head, BitVec.toNat_add]
      rfl
    · rw [if_neg hcylinder, if_neg fun h => hcylinder (hlast.mp h)]
      change Place.mk (d.tf.setHead _).lba d.lbaAddr.toNat d.tf.cylinder.toNat
        (d.tf.setHead _).head.toNat 1 d.cfgSpt.toNat d.cfgHpc.toNat = _
      rw [setHead_lba, setHead_head, hnextHead]
      rfl
  · rw [if_neg htrack, if_neg fun h => htrack (hend.mp h)]
    unfold placeOf
    dsimp only
    rw [hnextSector]
    rfl

end PeepeeBox.SectorStepping
