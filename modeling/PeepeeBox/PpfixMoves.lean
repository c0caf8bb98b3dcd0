import PeepeeBox.GrownVolume

set_option autoImplicit false

/-!
# Moving one file

When a file can be moved, and what moving it leaves of the volume.
-/
namespace PeepeeBox.PpfixMoves
open Fat16 FatBounds GrownImage HostFile Ppfix PpfixLocate

def Movable (v : Vol) (src dst : BitVec 16) : Prop :=
  src = dst ∨
    (2 ≤ dst ∧ dst.setWidth 32 < v.clusters ∧ InTable v.toVolume src ∧ 0xFFF8 ≤ rd16 v.fat (2 * src.toNat) ∧
      InTable v.toVolume dst ∧ rd16 v.fat (2 * dst.toNat) = 0)

theorem relocate_checks (v : Vol) (ent : ℕ) {src dst : BitVec 16} (size : BitVec 32) (val : Byte) (dry : Bool)
    (hmovable : Movable v src dst) (hne : src ≠ dst) :
    relocate v ent src dst size val dry =
      if dry = true then .ok (v, 1)
      else (do
        let some buf ← secRead (v.spc * 512).toNat v.f (clusLba v.toVolume src) v.spc | .ok (v, -1)
        let slack := slackSpan v size
        let v := secWrite v (clusLba v.toVolume dst) (memset buf slack.1.toNat val slack.2.toNat)
        let v := fatSet (fatSet v dst 0xFFFF) src 0
        let v := writeFats v v.nfat.toNat
        let e := HostFile.read v.f ent 32
        if e.length ≠ 32 then .ok (v, -1)
        else .ok ({ v with f := HostFile.write v.f ent (wr16 e 0x1A dst) }, 1)) := by
  rcases hmovable with heq | ⟨hlow, hhigh, hsrc, hfirst, hdst, hfree⟩
  · exact absurd heq hne
  have hrange : ¬ (dst < 2 ∨ v.clusters ≤ dst.setWidth 32) := by
    rw [not_or]
    exact ⟨BitVec.not_lt.mpr hlow, BitVec.not_le.mpr hhigh⟩
  have hsrc' : fatGet v.toVolume src = .ok (rd16 v.fat (2 * src.toNat)) := if_pos hsrc
  have hdst' : fatGet v.toVolume dst = .ok (rd16 v.fat (2 * dst.toNat)) := if_pos hdst
  unfold relocate
  rw [if_neg hne, if_neg hrange, hsrc', ok_bind, if_neg (BitVec.not_lt.mpr hfirst), hdst', ok_bind]
  exact if_neg (not_not.mpr hfree)

theorem relocate_dry_inv {v w : Vol} {ent : ℕ} {src dst : BitVec 16} {size : BitVec 32} {val : Byte} {r : ℤ}
    (h : relocate v ent src dst size val true = .ok (w, r)) : w = v ∧ (0 ≤ r → Movable v src dst) := by
  unfold relocate at h
  split at h
  · rename_i heq
    cases h
    exact ⟨rfl, fun _ => Or.inl heq⟩
  split at h
  · cases h
    exact ⟨rfl, fun h => absurd h (by decide)⟩
  rename_i hrange
  obtain ⟨first, hfirst, h⟩ := bind_inv h
  split at h
  · cases h
    exact ⟨rfl, fun h => absurd h (by decide)⟩
  rename_i hlast
  obtain ⟨target, htarget, h⟩ := bind_inv h
  split at h
  · cases h
    exact ⟨rfl, fun h => absurd h (by decide)⟩
  rename_i hfree
  cases h
  refine ⟨rfl, fun _ => Or.inr ?_⟩
  rw [not_or] at hrange
  have hentry {c e : BitVec 16} (h : fatGet v.toVolume c = .ok e) :
      InTable v.toVolume c ∧ rd16 v.fat (2 * c.toNat) = e := by
    unfold fatGet at h
    split at h
    · rename_i hin
      cases h
      exact ⟨hin, rfl⟩
    · cases h
  obtain ⟨hsrc, rfl⟩ := hentry hfirst
  obtain ⟨hdst, rfl⟩ := hentry htarget
  exact ⟨BitVec.not_lt.mp hrange.1, BitVec.not_le.mp hrange.2, hsrc, BitVec.not_lt.mp hlast, hdst, not_not.mp hfree⟩

theorem relocate_refused {v w : Vol} {ent : ℕ} {src dst : BitVec 16} {size : BitVec 32} {val : Byte} {r : ℤ}
    (h : relocate v ent src dst size val true = .ok (w, r)) (hr : r ≤ 0) :
    relocate v ent src dst size val false = .ok (v, r) := by
  unfold relocate at h ⊢
  split at h
  · rename_i heq
    rw [if_pos heq]
    cases h
    rfl
  rename_i hne
  rw [if_neg hne]
  split at h
  · rename_i hrange
    rw [if_pos hrange]
    cases h
    rfl
  rename_i hrange
  rw [if_neg hrange]
  obtain ⟨first, hfirst, h⟩ := bind_inv h
  rw [hfirst, ok_bind]
  split at h
  · rename_i hlast
    rw [if_pos hlast]
    cases h
    rfl
  rename_i hlast
  rw [if_neg hlast]
  obtain ⟨target, htarget, h⟩ := bind_inv h
  rw [htarget, ok_bind]
  split at h
  · rename_i hfree
    rw [if_pos hfree]
    cases h
    rfl
  · cases h
    exact absurd hr (by decide)

theorem writeFats_same (v : Vol) (n : ℕ) : ∃ f, writeFats v n = { v with f := f } ∧ v.f.len ≤ f.len := by
  induction n with
  | zero => exact ⟨v.f, rfl, Nat.le_refl _⟩
  | succ n ih =>
    obtain ⟨f, heq, hlen⟩ := ih
    unfold writeFats
    dsimp only
    rw [heq]
    refine ⟨_, rfl, Nat.le_trans hlen ?_⟩
    dsimp only
    rw [write_len]
    split
    · exact Nat.le_refl _
    · exact Nat.le_max_left _ _

def movedFat (fat : List Byte) (src dst : BitVec 16) : List Byte :=
  wr16 (wr16 fat (2 * dst.toNat) 0xFFFF) (2 * src.toNat) 0

def movedData (v : Vol) (src dst : BitVec 16) (size : BitVec 32) (val : Byte) : Vol :=
  let v' := secWrite v (clusLba v.toVolume dst) (memset (sectors v.f (clusLba v.toVolume src) v.spc)
    (slackSpan v size).1.toNat val (slackSpan v size).2.toNat)
  writeFats { v' with fat := movedFat v.fat src dst } v.nfat.toNat

def moved (v : Vol) (ent : ℕ) (src dst : BitVec 16) (size : BitVec 32) (val : Byte) : Vol :=
  let w := movedData v src dst size val
  { w with f := HostFile.write w.f ent (wr16 (HostFile.read w.f ent 32) 0x1A dst) }

theorem write_longer (f : File) (off : ℕ) (bs : List Byte) : f.len ≤ (HostFile.write f off bs).len := by
  rw [write_len]
  split
  · exact Nat.le_refl _
  · exact Nat.le_max_left _ _

theorem movedData_same (v : Vol) (src dst : BitVec 16) (size : BitVec 32) (val : Byte) :
    ∃ f, movedData v src dst size val = { v with f := f, fat := movedFat v.fat src dst } ∧ v.f.len ≤ f.len := by
  unfold movedData
  dsimp only
  obtain ⟨f, heq, hlen⟩ := writeFats_same { secWrite v (clusLba v.toVolume dst)
    (memset (sectors v.f (clusLba v.toVolume src) v.spc) (slackSpan v size).1.toNat val (slackSpan v size).2.toNat) with
    fat := movedFat v.fat src dst } v.nfat.toNat
  rw [heq]
  exact ⟨f, rfl, Nat.le_trans (write_longer _ _ _) hlen⟩

theorem moved_same (v : Vol) (ent : ℕ) (src dst : BitVec 16) (size : BitVec 32) (val : Byte) :
    ∃ f, moved v ent src dst size val = { v with f := f, fat := movedFat v.fat src dst } ∧ v.f.len ≤ f.len := by
  obtain ⟨f, heq, hlen⟩ := movedData_same v src dst size val
  unfold moved
  dsimp only
  rw [heq]
  exact ⟨_, rfl, Nat.le_trans hlen (write_longer _ _ _)⟩

theorem read_whole {f : File} {off n : ℕ} (h : off + n ≤ f.len) : (HostFile.read f off n).length = n := by
  rw [read_length]
  exact Nat.min_eq_left (Nat.le_sub_of_add_le' h)

theorem relocate_moves {v : Vol} {ent : ℕ} {src dst : BitVec 16} {size : BitVec 32} {val : Byte}
    (hmovable : Movable v src dst) (hne : src ≠ dst) (hroom : v.spc.toNat * 512 ≤ (v.spc * 512).toNat)
    (hwhole : Whole v.toVolume src) (hent : ent + 32 ≤ v.f.len) :
    relocate v ent src dst size val false = .ok (moved v ent src dst size val, 1) := by
  obtain ⟨f, heq, hlen⟩ := movedData_same v src dst size val
  have hread : (HostFile.read (movedData v src dst size val).f ent 32).length = 32 := by
    rw [heq]
    exact read_whole (Nat.le_trans hent hlen)
  rw [relocate_checks v ent size val false hmovable hne, if_neg (by decide), secRead_some v.f _ hroom hwhole, ok_bind]
  exact if_neg (not_not.mpr hread)

theorem movedFat_length (fat : List Byte) (src dst : BitVec 16) : (movedFat fat src dst).length = fat.length := by
  unfold movedFat
  rw [wr16_length, wr16_length]

theorem movedFat_other {fat : List Byte} {src dst c : BitVec 16} (hsrc : c ≠ src) (hdst : c ≠ dst) :
    rd16 (movedFat fat src dst) (2 * c.toNat) = rd16 fat (2 * c.toNat) := by
  have hne {a : BitVec 16} (h : c ≠ a) : c.toNat ≠ a.toNat := fun heq => h (BitVec.eq_of_toNat_eq heq)
  have hsrc' := hne hsrc
  have hdst' := hne hdst
  unfold movedFat
  rw [rd16_other _ (by omega), rd16_other _ (by omega)]

end PeepeeBox.PpfixMoves
