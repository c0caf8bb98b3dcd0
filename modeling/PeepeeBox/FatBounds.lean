import PeepeeBox.PhotoplayFat
import PeepeeBox.Ppfix

set_option autoImplicit false

/-!
# Buffers of the FAT16 readers

Opening a volume stays inside its buffers on every image.
-/
namespace PeepeeBox.FatBounds
open Fat16 HostFile PhotoplayFat Ppfix

/-- No sector read and no lookup in the table leaves its buffer. -/
def Inside {α : Type} (r : Except Fault α) : Prop := r ≠ .error .sector ∧ r ≠ .error .table

theorem inside_ok {α : Type} (a : α) : Inside (.ok a : Except Fault α) :=
  ⟨fun h => (by cases h), fun h => (by cases h)⟩

theorem ok_bind {α β : Type} (a : α) (k : α → Except Fault β) : (Except.ok a >>= k) = k a := rfl

theorem error_bind {α β : Type} (e : Fault) (k : α → Except Fault β) : (Except.error e >>= k) = .error e := rfl

theorem getD_row (bs : List Byte) {k n i : ℕ} (h : i < n) :
    ((bs.drop k).take n).getD i 0 = bs.getD (k + i) 0 := by
  rw [List.getD_eq_getElem?_getD, List.getElem?_take, if_pos h, List.getElem?_drop,
    ← List.getD_eq_getElem?_getD]

theorem rd16_row (bs : List Byte) {k n i : ℕ} (h : i + 1 < n) :
    rd16 ((bs.drop k).take n) i = rd16 bs (k + i) := by
  unfold rd16
  rw [getD_row bs h, getD_row bs (Nat.lt_of_succ_lt h)]
  rfl

theorem rd32_row (bs : List Byte) {k n i : ℕ} (h : i + 3 < n) :
    rd32 ((bs.drop k).take n) i = rd32 bs (k + i) := by
  unfold rd32
  rw [getD_row bs h, getD_row bs (by omega : i + 2 < n), getD_row bs (by omega : i + 1 < n),
    getD_row bs (by omega : i < n)]
  rfl

theorem sectors_length (f : File) (lba n : BitVec 32) : (sectors f lba n).length ≤ n.toNat * 512 := by
  unfold sectors
  rw [read_length]
  exact Nat.min_le_left _ _

theorem secRead_fits {cap : ℕ} {f : File} {lba n : BitVec 32} (h : (sectors f lba n).length ≤ cap) :
    secRead cap f lba n =
      .ok (if (sectors f lba n).length = n.toNat * 512 then some (sectors f lba n) else none) := by
  unfold secRead fill
  rw [if_pos h]
  rfl

theorem secRead_room {cap : ℕ} (f : File) (lba : BitVec 32) {n : BitVec 32} (h : n.toNat * 512 ≤ cap) :
    secRead cap f lba n =
      .ok (if (sectors f lba n).length = n.toNat * 512 then some (sectors f lba n) else none) :=
  secRead_fits (Nat.le_trans (sectors_length f lba n) h)

theorem secRead_some {cap : ℕ} (f : File) (lba : BitVec 32) {n : BitVec 32} (h : n.toNat * 512 ≤ cap)
    (hwhole : (sectors f lba n).length = n.toNat * 512) : secRead cap f lba n = .ok (some (sectors f lba n)) := by
  rw [secRead_room f lba h, if_pos hwhole]

theorem secRead_none {cap : ℕ} (f : File) (lba : BitVec 32) {n : BitVec 32} (h : n.toNat * 512 ≤ cap)
    (hshort : (sectors f lba n).length ≠ n.toNat * 512) : secRead cap f lba n = .ok none := by
  rw [secRead_room f lba h, if_neg hshort]

theorem table_room (spf : BitVec 16) : (spf.setWidth 32).toNat * 512 ≤ (spf.setWidth 32 * 512 : BitVec 32).toNat := by
  have hlt := spf.isLt
  have hwide : (spf.setWidth 32).toNat = spf.toNat := by
    rw [BitVec.toNat_setWidth]
    omega
  rw [BitVec.toNat_mul, hwide]
  change _ ≤ spf.toNat * 512 % _
  omega

theorem secRead_ok {α : Type} {cap : ℕ} (f : File) (lba : BitVec 32) {n : BitVec 32}
    (h : n.toNat * 512 ≤ cap) {k : Option (List Byte) → Except Fault α}
    (hk : ∀ o, ∃ r, k o = .ok r) : ∃ r, (secRead cap f lba n >>= k) = .ok r := by
  rw [secRead_room f lba h]
  exact hk _

theorem volOpen_ok (f : File) : ∃ r, volOpen f = .ok r := by
  unfold volOpen
  refine secRead_ok f 0 (by decide) fun o => ?_
  cases o with
  | none => exact ⟨none, rfl⟩
  | some sec =>
    dsimp only
    split
    · exact ⟨none, rfl⟩
    · split
      · exact ⟨none, rfl⟩
      · refine secRead_ok f _ (by decide) fun o => ?_
        cases o with
        | none => exact ⟨none, rfl⟩
        | some sec =>
          dsimp only
          split
          · exact ⟨none, rfl⟩
          · split
            · exact ⟨none, rfl⟩
            · refine secRead_ok f _ (table_room _) fun o => ?_
              cases o with
              | none => exact ⟨none, rfl⟩
              | some fat => exact ⟨_, rfl⟩

theorem ppFatOpen_ok (f : File) : ∃ r, ppFatOpen f = .ok r := by
  unfold ppFatOpen
  refine secRead_ok f 0 (by decide) fun o => ?_
  cases o with
  | none => exact ⟨none, rfl⟩
  | some sec =>
    dsimp only
    split
    · exact ⟨none, rfl⟩
    · split
      · exact ⟨none, rfl⟩
      · refine secRead_ok f _ (by decide) fun o => ?_
        cases o with
        | none => exact ⟨none, rfl⟩
        | some sec =>
          dsimp only
          split
          · exact ⟨none, rfl⟩
          · refine secRead_ok f _ (table_room _) fun o => ?_
            cases o with
            | none => exact ⟨none, rfl⟩
            | some fat => exact ⟨_, rfl⟩

def chainAt (v : Volume) (c : BitVec 16) : ℕ → BitVec 16
  | 0 => c
  | k + 1 => rd16 v.fat (2 * (chainAt v c k).toNat)

def Whole (v : Volume) (c : BitVec 16) : Prop :=
  (sectors v.f (clusLba v c) v.spc).length = v.spc.toNat * 512

/-- The search for `name` comes to cluster `k` of the chain and can read it. -/
def Comes (v : Volume) (name : List Byte) (c : BitVec 16) (k : ℕ) : Prop :=
  (∀ j ≤ k, Whole v (chainAt v c j)) ∧
    ∀ j < k, findEntry name (sectors v.f (clusLba v (chainAt v c j)) v.spc) (v.spc * 512 / 32).toNat = none ∧
      2 ≤ chainAt v c (j + 1) ∧ chainAt v c (j + 1) < 0xFFF0

def InTable (v : Volume) (c : BitVec 16) : Prop := 2 * c.toNat + 1 < v.fat.length

/-- A directory that can be searched inside the buffers. -/
def Fits (v : Volume) (name : List Byte) (dirCl : BitVec 16) : Prop :=
  (dirCl = 0 → (sectors v.f v.rootLba v.rootSecs).length ≤ (v.spc * 512).toNat) ∧
    (dirCl ≠ 0 → ∀ k < 64, Comes v name dirCl k → InTable v (chainAt v dirCl k))

theorem chainAt_succ (v : Volume) (c : BitVec 16) (k : ℕ) :
    chainAt v c (k + 1) = chainAt v (rd16 v.fat (2 * c.toNat)) k := by
  induction k with
  | zero => rfl
  | succ k ih => exact congrArg (fun c : BitVec 16 => rd16 v.fat (2 * c.toNat)) ih

theorem comes_succ (v : Volume) (name : List Byte) (c : BitVec 16) (k : ℕ) :
    Comes v name c (k + 1) ↔
      (Whole v c ∧ findEntry name (sectors v.f (clusLba v c) v.spc) (v.spc * 512 / 32).toNat = none ∧
        2 ≤ rd16 v.fat (2 * c.toNat) ∧ rd16 v.fat (2 * c.toNat) < 0xFFF0) ∧
      Comes v name (rd16 v.fat (2 * c.toNat)) k := by
  constructor
  · intro ⟨hwhole, hpass⟩
    refine ⟨⟨hwhole 0 (Nat.zero_le _), hpass 0 (Nat.succ_pos k)⟩, ?_, ?_⟩
    · intro j hj
      rw [← chainAt_succ]
      exact hwhole (j + 1) (Nat.succ_le_succ hj)
    · intro j hj
      rw [← chainAt_succ, ← chainAt_succ]
      exact hpass (j + 1) (Nat.succ_lt_succ hj)
  · intro ⟨⟨hfirst, hnext⟩, hwhole, hpass⟩
    refine ⟨?_, ?_⟩
    · intro j hj
      cases j with
      | zero => exact hfirst
      | succ j =>
        rw [chainAt_succ]
        exact hwhole j (Nat.le_of_succ_le_succ hj)
    · intro j hj
      cases j with
      | zero => exact hnext
      | succ j =>
        rw [chainAt_succ, chainAt_succ]
        exact hpass j (Nat.lt_of_succ_lt_succ hj)

theorem fatGet_inside (v : Volume) (c : BitVec 16) : Inside (fatGet v c) ↔ InTable v c := by
  unfold fatGet InTable
  split
  · rename_i h
    exact iff_of_true (inside_ok _) h
  · rename_i h
    exact iff_of_false (fun hin => hin.2 rfl) h

theorem dirLoop_inside {v : Volume} (hspc : v.spc.toNat * 512 ≤ (v.spc * 512).toNat) (name : List Byte)
    (guard : ℕ) {c : BitVec 16} (hc : c ≠ 0) :
    Inside (dirLoop v name guard c) ↔ ∀ k < guard, Comes v name c k → InTable v (chainAt v c k) := by
  induction guard generalizing c with
  | zero => exact iff_of_true (inside_ok _) fun k hk => absurd hk (Nat.not_lt_zero k)
  | succ guard ih =>
    have hlba : dirLba v c = clusLba v c := if_pos hc
    have hsecs : dirSecs v c = v.spc := if_pos hc
    unfold dirLoop
    rw [hlba, hsecs]
    by_cases hwhole : Whole v c
    · rw [secRead_some v.f _ hspc hwhole]
      change Inside (if c = 0 then _ else fatGet v c >>= _) ↔ _
      rw [if_neg hc]
      by_cases hin : InTable v c
      · have hget : fatGet v c = .ok (rd16 v.fat (2 * c.toNat)) := if_pos hin
        rw [hget, ok_bind]
        -- past the first cluster the search goes on only where nothing was found
        have hrest (hstop : ¬ (findEntry name (sectors v.f (clusLba v c) v.spc) (v.spc * 512 / 32).toNat = none ∧
            2 ≤ rd16 v.fat (2 * c.toNat) ∧ rd16 v.fat (2 * c.toNat) < 0xFFF0)) :
            ∀ k < guard + 1, Comes v name c k → InTable v (chainAt v c k) := by
          intro k _ hcomes
          cases k with
          | zero => exact hin
          | succ k => exact absurd ((comes_succ v name c k).mp hcomes).1.2 hstop
        cases hhit : findEntry name (sectors v.f (clusLba v c) v.spc) (v.spc * 512 / 32).toNat with
        | some i =>
          refine iff_of_true (inside_ok _) (hrest ?_)
          intro hnone
          exact Option.some_ne_none i (hhit.symm.trans hnone.1)
        | none =>
          dsimp only
          by_cases hout : rd16 v.fat (2 * c.toNat) < 2 ∨ 0xFFF0 ≤ rd16 v.fat (2 * c.toNat)
          · rw [if_pos hout]
            refine iff_of_true (inside_ok _) (hrest ?_)
            intro ⟨_, hlow, hhigh⟩
            rcases hout with hlt | hle
            · exact absurd hlt (BitVec.not_lt.mpr hlow)
            · exact absurd hhigh (BitVec.not_lt.mpr hle)
          · obtain ⟨hlow, hhigh⟩ := not_or.mp hout
            have hlow' := BitVec.not_lt.mp hlow
            have hhigh' := BitVec.not_le.mp hhigh
            have hne : rd16 v.fat (2 * c.toNat) ≠ 0 := by
              intro hzero
              rw [hzero] at hlow'
              exact absurd hlow' (by decide)
            rw [if_neg hout, ih hne]
            constructor
            · intro hall k hk hcomes
              cases k with
              | zero => exact hin
              | succ k =>
                rw [chainAt_succ]
                exact hall k (Nat.lt_of_succ_lt_succ hk) ((comes_succ v name c k).mp hcomes).2
            · intro hall k hk hcomes
              rw [← chainAt_succ]
              refine hall (k + 1) (Nat.succ_lt_succ hk) ?_
              exact (comes_succ v name c k).mpr ⟨⟨hwhole, hhit, hlow', hhigh'⟩, hcomes⟩
      · have hget : fatGet v c = .error .table := if_neg hin
        rw [hget]
        refine iff_of_false (fun hinside => hinside.2 rfl) ?_
        intro hall
        refine hin (hall 0 (Nat.succ_pos _) ⟨?_, fun j hj => absurd hj (Nat.not_lt_zero j)⟩)
        intro j hj
        obtain rfl := Nat.le_zero.mp hj
        exact hwhole
    · rw [secRead_none v.f _ hspc hwhole]
      refine iff_of_true (inside_ok _) ?_
      intro k _ hcomes
      exact absurd (hcomes.1 0 (Nat.zero_le k)) hwhole

theorem dirFind_inside {v : Volume} (hspc : v.spc.toNat * 512 ≤ (v.spc * 512).toNat) (name : List Byte)
    (dirCl : BitVec 16) : Inside (dirFind v dirCl name) ↔ Fits v name dirCl := by
  unfold dirFind Fits
  by_cases hroot : dirCl = 0
  · have hlba : dirLba v dirCl = v.rootLba := if_neg (not_not.mpr hroot)
    have hsecs : dirSecs v dirCl = v.rootSecs := if_neg (not_not.mpr hroot)
    unfold dirLoop
    rw [hlba, hsecs]
    by_cases hroom : (sectors v.f v.rootLba v.rootSecs).length ≤ (v.spc * 512).toNat
    · rw [secRead_fits hroom, ok_bind]
      refine iff_of_true ?_ ⟨fun _ => hroom, fun hne => absurd hroot hne⟩
      split
      · rw [if_pos hroot]
        exact inside_ok _
      · exact inside_ok _
    · unfold secRead fill
      rw [if_neg hroom]
      exact iff_of_false (fun hinside => hinside.1 rfl) fun hfits => hroom (hfits.1 hroot)
  · rw [dirLoop_inside hspc name 64 hroot]
    exact ⟨fun hall => ⟨fun h => absurd h hroot, fun _ => hall⟩, fun hfits => hfits.2 hroot⟩

theorem secRead_inv {α : Type} {cap : ℕ} {f : File} {lba n : BitVec 32} (hroom : n.toNat * 512 ≤ cap)
    {k : Option (List Byte) → Except Fault (Option α)} {a : α}
    (h : (secRead cap f lba n >>= k) = .ok (some a)) (hnone : k none = .ok none) :
    (sectors f lba n).length = n.toNat * 512 ∧ k (some (sectors f lba n)) = .ok (some a) := by
  by_cases hwhole : (sectors f lba n).length = n.toNat * 512
  · rw [secRead_some f lba hroom hwhole] at h
    exact ⟨hwhole, h⟩
  · rw [secRead_none f lba hroom hwhole] at h
    have hbad := hnone.symm.trans h
    cases hbad

structure Opened (f : File) (v : Vol) : Prop where
  mbr : (sectors f 0 1).length = 512
  signature : rd16 (sectors f 0 1) 510 = 0xAA55
  part : v.part = rd32 (sectors f 0 1) (0x1BE + 8)
  some_part : v.part ≠ 0
  boot : (sectors f v.part 1).length = 512
  sectorSize : rd16 (sectors f v.part 1) 0x0B = 512
  good : ¬ badBpb v
  file : v.f = f
  tot : v.tot = if rd16 (sectors f v.part 1) 0x13 ≠ 0 then (rd16 (sectors f v.part 1) 0x13).setWidth 32
    else rd32 (sectors f v.part 1) 0x20
  rsvd : v.rsvd = (rd16 (sectors f v.part 1) 0x0E).setWidth 32
  spc : v.spc = ((sectors f v.part 1).getD 0x0D 0).setWidth 32
  nfat : v.nfat = ((sectors f v.part 1).getD 0x10 0).setWidth 32
  spf : v.spf = (rd16 (sectors f v.part 1) 0x16).setWidth 32
  rootSecs : v.rootSecs = (rd16 (sectors f v.part 1) 0x11).setWidth 32 * 32 / 512
  fatLba : v.fatLba = v.part + v.rsvd
  rootLba : v.rootLba = v.fatLba + v.nfat * v.spf
  dataLba : v.dataLba = v.rootLba + v.rootSecs
  clusters : v.clusters = (v.tot - (v.dataLba - v.part)) / v.spc + 2
  table : (sectors f v.fatLba v.spf).length = v.spf.toNat * 512
  fat : v.fat = sectors f v.fatLba v.spf

theorem volOpen_inv {f : File} {v : Vol} (h : volOpen f = .ok (some v)) : Opened f v := by
  unfold volOpen at h
  obtain ⟨hmbr, h⟩ := secRead_inv (by decide) h rfl
  dsimp only at h
  split at h
  · cases h
  rename_i hsig
  split at h
  · cases h
  rename_i hpart
  obtain ⟨hboot, h⟩ := secRead_inv (by decide) h rfl
  dsimp only at h
  split at h
  · cases h
  rename_i hsize
  split at h
  · cases h
  rename_i hgood
  obtain ⟨htable, h⟩ := secRead_inv (table_room _) h rfl
  obtain rfl := Option.some.inj (Except.ok.inj h)
  exact ⟨hmbr, not_not.mp hsig, rfl, hpart, hboot, not_not.mp hsize, hgood, rfl, rfl, rfl, rfl, rfl, rfl, rfl,
    rfl, rfl, rfl, rfl, htable, rfl⟩

theorem volOpen_of {f : File} {v : Vol} (h : Opened f v) : volOpen f = .ok (some v) := by
  have hvolume : { bpb f v.part (sectors f v.part 1) with fat := sectors f v.fatLba v.spf } = v := by
    have hfatLba : (bpb f v.part (sectors f v.part 1)).fatLba = v.fatLba := by
      rw [h.fatLba, h.rsvd]
      rfl
    have hrootLba : (bpb f v.part (sectors f v.part 1)).rootLba = v.rootLba := by
      rw [h.rootLba, ← hfatLba, h.nfat, h.spf]
      rfl
    have hdataLba : (bpb f v.part (sectors f v.part 1)).dataLba = v.dataLba := by
      rw [h.dataLba, ← hrootLba, h.rootSecs]
      rfl
    refine Vol.ext h.file.symm h.spc.symm hrootLba h.rootSecs.symm hdataLba h.fat.symm rfl h.tot.symm
      h.rsvd.symm h.nfat.symm h.spf.symm hfatLba ?_
    rw [h.clusters, ← hdataLba, h.tot, h.spc]
    rfl
  unfold volOpen
  rw [secRead_some f 0 (by decide) h.mbr, ok_bind]
  dsimp only
  rw [if_neg (not_not.mpr h.signature), ← h.part, if_neg h.some_part, secRead_some f v.part (by decide) h.boot,
    ok_bind]
  dsimp only
  have hbad : ¬ badBpb (bpb f v.part (sectors f v.part 1)) := by
    have hgood := h.good
    rw [← hvolume] at hgood
    exact hgood
  have hread : secRead ((bpb f v.part (sectors f v.part 1)).spf * 512).toNat f
      (bpb f v.part (sectors f v.part 1)).fatLba (bpb f v.part (sectors f v.part 1)).spf =
      .ok (some (sectors f v.fatLba v.spf)) := by
    have hspf : (bpb f v.part (sectors f v.part 1)).spf = v.spf := h.spf.symm
    have hlba : (bpb f v.part (sectors f v.part 1)).fatLba = v.fatLba := by
      rw [h.fatLba, h.rsvd]
      rfl
    have hroom : v.spf.toNat * 512 ≤ (v.spf * 512).toNat := by
      rw [h.spf]
      exact table_room _
    rw [hspf, hlba]
    exact secRead_some f v.fatLba hroom h.table
  rw [if_neg (not_not.mpr h.sectorSize), if_neg hbad, hread, ok_bind]
  exact congrArg (fun v => Except.ok (some v)) hvolume

theorem Opened.spc_le {f : File} {v : Vol} (h : Opened f v) : v.spc.toNat ≤ 255 := by
  rw [h.spc, BitVec.toNat_setWidth]
  have hlt := ((sectors f v.part 1).getD 0x0D 0).isLt
  omega

theorem cluster_room {spc : BitVec 32} (h : spc.toNat ≤ 255) : (spc * 512).toNat = spc.toNat * 512 := by
  rw [BitVec.toNat_mul]
  change spc.toNat * 512 % _ = _
  omega

theorem ppFatOpen_spc {f : File} {v : PpFat} (h : ppFatOpen f = .ok (some v)) : v.spc.toNat ≤ 255 := by
  unfold ppFatOpen at h
  obtain ⟨-, h⟩ := secRead_inv (by decide) h rfl
  dsimp only at h
  split at h
  · cases h
  split at h
  · cases h
  obtain ⟨-, h⟩ := secRead_inv (by decide) h rfl
  dsimp only at h
  split at h
  · cases h
  obtain ⟨-, h⟩ := secRead_inv (table_room _) h rfl
  obtain rfl := Option.some.inj (Except.ok.inj h)
  change (BitVec.setWidth 32 (_ : Byte)).toNat ≤ 255
  rw [BitVec.toNat_setWidth]
  have hlt := ((sectors f (rd32 (sectors f 0 1) (0x1BE + 8)) 1).getD 0x0D 0).isLt
  omega

theorem ppReadSmall_inside {v : Volume} (hspc : v.spc.toNat * 512 ≤ (v.spc * 512).toNat) (dirCl : BitVec 16)
    (name : List Byte) (sz : ℕ) : Inside (ppReadSmall v dirCl name sz) ↔ Inside (dirFind v dirCl name) := by
  unfold ppReadSmall
  cases hfind : dirFind v dirCl name with
  | error e => exact ⟨fun h => ⟨fun he => h.1 (by cases he; rfl), fun he => h.2 (by cases he; rfl)⟩,
      fun h => ⟨fun he => h.1 (by cases he; rfl), fun he => h.2 (by cases he; rfl)⟩⟩
  | ok found =>
    refine iff_of_true ?_ (inside_ok _)
    cases found with
    | none => exact inside_ok _
    | some found =>
      change Inside (if found.cl < 2 ∨ found.size = 0 then _ else
        secRead (v.spc * 512).toNat v.f (clusLba v found.cl) v.spc >>= _)
      split
      · exact inside_ok _
      · rw [secRead_room v.f _ hspc]
        generalize (if (sectors v.f (clusLba v found.cl) v.spc).length = v.spc.toNat * 512 then
          some (sectors v.f (clusLba v found.cl) v.spc) else none) = o
        cases o with
        | none => exact inside_ok _
        | some buf =>
          change Inside (if _ then .error .copy else .ok _)
          split
          · exact ⟨fun h => (by cases h), fun h => (by cases h)⟩
          · exact inside_ok _

theorem readers_inside (f : File) :
    Inside (volOpen f) ∧ Inside (ppFatOpen f) ∧
      (∀ v, volOpen f = .ok (some v) →
        (∀ c, Inside (fatGet v.toVolume c) ↔ InTable v.toVolume c) ∧
          ∀ dirCl name, Inside (dirFind v.toVolume dirCl name) ↔ Fits v.toVolume name dirCl) ∧
      ∀ v, ppFatOpen f = .ok (some v) →
        (∀ c, Inside (fatGet v.toVolume c) ↔ InTable v.toVolume c) ∧
          (∀ dirCl name, Inside (dirFind v.toVolume dirCl name) ↔ Fits v.toVolume name dirCl) ∧
          ∀ dirCl name sz, Inside (ppReadSmall v.toVolume dirCl name sz) ↔ Fits v.toVolume name dirCl := by
  refine ⟨?_, ?_, ?_, ?_⟩
  · obtain ⟨r, hr⟩ := volOpen_ok f
    rw [hr]
    exact inside_ok r
  · obtain ⟨r, hr⟩ := ppFatOpen_ok f
    rw [hr]
    exact inside_ok r
  · intro v hv
    have hspc := Nat.le_of_eq (cluster_room (volOpen_inv hv).spc_le).symm
    exact ⟨fatGet_inside v.toVolume, fun dirCl name => dirFind_inside hspc name dirCl⟩
  · intro v hv
    have hspc := Nat.le_of_eq (cluster_room (ppFatOpen_spc hv)).symm
    refine ⟨fatGet_inside v.toVolume, fun dirCl name => dirFind_inside hspc name dirCl, ?_⟩
    intro dirCl name sz
    rw [ppReadSmall_inside hspc, dirFind_inside hspc]

def faultOf {α : Type} : Except Fault α → Option Fault
  | .error e => some e
  | .ok _ => none

theorem not_inside {α : Type} {r : Except Fault α} {e : Fault} (h : faultOf r = some e)
    (he : e = .sector ∨ e = .table) : ¬ Inside r := by
  intro hin
  cases r with
  | ok a => cases h
  | error e' =>
    obtain rfl := Option.some.inj h
    rcases he with rfl | rfl
    · exact hin.1 rfl
    · exact hin.2 rfl

/-- An image of `len` bytes that is zero but for some rows. -/
def image (len : ℕ) (rows : List (ℕ × List Byte)) : File :=
  truncate (rows.foldr (fun row f => write f row.1 row.2) empty) len

theorem image_byte_zero {len : ℕ} {rows : List (ℕ × List Byte)} {i : ℕ}
    (h : ∀ row ∈ rows, i < row.1 ∨ row.1 + row.2.length ≤ i) : (image len rows).byte i = 0 := by
  have hrows : (rows.foldr (fun row f => write f row.1 row.2) empty).byte i = 0 := by
    induction rows with
    | nil => rfl
    | cons row rows ih =>
      rw [List.foldr_cons, write_byte, if_neg]
      · exact ih fun r hr => h r (List.mem_cons_of_mem _ hr)
      · have hrow := h row List.mem_cons_self
        omega
  unfold image truncate
  dsimp only
  rw [hrows, ite_self]

theorem opened_of {α β : Type} {r : Except Fault (Option α)} {g : α → β} {b : β}
    (h : r.toOption.join.map g = some b) : ∃ v, r = .ok (some v) ∧ g v = b := by
  cases r with
  | error e => cases h
  | ok o =>
    cases o with
    | none => cases h
    | some v => exact ⟨v, rfl, Option.some.inj h⟩

/-- A partition at sector 1 with clusters and a table of one sector and 32 root entries. -/
def smallImage (len : ℕ) : File :=
  image len
    [(0x1BE + 8, [1, 0, 0, 0]), (510, [0x55, 0xAA]),
      (512 + 0x0B, [0, 2, 1, 1, 0, 1, 32, 0, 20, 0, 0xF8, 1, 0])]

/-- Both readers open that image. -/
theorem readers_inside_small :
    ∃ v w, volOpen (smallImage (8 * 512)) = .ok (some v) ∧ ppFatOpen (smallImage (8 * 512)) = .ok (some w) ∧
      (∀ c, Inside (fatGet v.toVolume c) ↔ InTable v.toVolume c) ∧
        ∀ dirCl name sz, Inside (ppReadSmall w.toVolume dirCl name sz) ↔ Fits w.toVolume name dirCl := by
  obtain ⟨v, hv, -⟩ : ∃ v, volOpen (smallImage (8 * 512)) = .ok (some v) ∧ true = true :=
    opened_of (by decide +kernel)
  obtain ⟨w, hw, -⟩ : ∃ w, ppFatOpen (smallImage (8 * 512)) = .ok (some w) ∧ true = true :=
    opened_of (by decide +kernel)
  have hboth := readers_inside (smallImage (8 * 512))
  exact ⟨v, w, hv, hw, (hboth.2.2.1 v hv).1, (hboth.2.2.2 w hw).2.2⟩

/-- A root directory of two sectors is read into a cluster of one, and cluster 300 is looked up in
a table of 256. -/
theorem readers_leave_buffers :
    (∃ v, volOpen (smallImage (8 * 512)) = .ok (some v) ∧
      ¬ Inside (dirFind v.toVolume 0 (ascii "EXE        "))) ∧
    (∃ v, ppFatOpen (smallImage (8 * 512)) = .ok (some v) ∧
      ¬ Inside (dirFind v.toVolume 0 (ascii "MENU       "))) ∧
    ∃ v, volOpen (smallImage (304 * 512)) = .ok (some v) ∧
      ¬ Inside (dirFind v.toVolume 300 (ascii "EXE        ")) := by
  refine ⟨?_, ?_, ?_⟩
  · obtain ⟨v, hv, hfault⟩ : ∃ v, volOpen (smallImage (8 * 512)) = .ok (some v) ∧
        faultOf (dirFind v.toVolume 0 (ascii "EXE        ")) = some .sector := opened_of (by decide +kernel)
    exact ⟨v, hv, not_inside hfault (Or.inl rfl)⟩
  · obtain ⟨v, hv, hfault⟩ : ∃ v, ppFatOpen (smallImage (8 * 512)) = .ok (some v) ∧
        faultOf (dirFind v.toVolume 0 (ascii "MENU       ")) = some .sector := opened_of (by decide +kernel)
    exact ⟨v, hv, not_inside hfault (Or.inl rfl)⟩
  · obtain ⟨v, hv, hfault⟩ : ∃ v, volOpen (smallImage (304 * 512)) = .ok (some v) ∧
        faultOf (dirFind v.toVolume 300 (ascii "EXE        ")) = some .table := opened_of (by decide +kernel)
    exact ⟨v, hv, not_inside hfault (Or.inr rfl)⟩

end PeepeeBox.FatBounds
