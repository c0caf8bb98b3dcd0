import PeepeeBox.PpfixMoves

set_option autoImplicit false

/-!
# What the dry run promises

A repair does all that the scan has announced, also on a volume that has to be grown first.
-/
namespace PeepeeBox.PpfixRepair
open Fat16 FatBounds GrownImage GrownVolume HostFile Ppfix PpfixLocate PpfixMoves

theorem whole_longer {v w : Vol} (hspc : w.spc = v.spc) (hdata : w.dataLba = v.dataLba) (hlen : v.f.len ≤ w.f.len)
    {c : BitVec 16} (h : Whole v.toVolume c) : Whole w.toVolume c := by
  unfold Whole sectors clusLba at h ⊢
  rw [hspc, hdata]
  rw [read_length] at h ⊢
  omega

theorem moved_movable {v : Vol} {ent : ℕ} {src dst src' dst' : BitVec 16} {size : BitVec 32} {val : Byte}
    (h : Movable v src dst) (hne : src ≠ dst) (h' : Movable v src' dst') (hsrc : src ≠ src') (hdst : dst ≠ dst') :
    Movable (moved v ent src dst size val) src' dst' := by
  rcases h' with heq | ⟨hlow, hhigh, hin, hlast, hin', hfree⟩
  · exact Or.inl heq
  rcases h with heq | ⟨-, -, -, hlast₀, -, hfree₀⟩
  · exact absurd heq hne
  obtain ⟨f, heq, -⟩ := moved_same v ent src dst size val
  have hfull {a b : BitVec 16} (ha : 0xFFF8 ≤ rd16 v.fat (2 * a.toNat)) (hb : rd16 v.fat (2 * b.toNat) = 0) : a ≠ b := by
    rintro rfl
    rw [hb] at ha
    exact absurd ha (by decide)
  rw [heq]
  refine Or.inr ⟨hlow, hhigh, ?_, ?_, ?_, ?_⟩
  · unfold InTable at hin ⊢
    dsimp only
    rwa [movedFat_length]
  · dsimp only
    rw [movedFat_other (Ne.symm hsrc) (hfull hlast hfree₀)]
    exact hlast
  · unfold InTable at hin' ⊢
    dsimp only
    rwa [movedFat_length]
  · dsimp only
    rw [movedFat_other (Ne.symm (hfull hlast₀ hfree)) (Ne.symm hdst)]
    exact hfree

/-- What both moves need of the image. -/
structure Ready (v : Vol) (s : Scan) : Prop where
  room : v.spc.toNat * 512 ≤ (v.spc * 512).toNat
  sys : Movable v s.clSys s.wantSys
  ccc : Movable v s.clCcc s.wantCcc
  distinct : s.clSys ≠ s.clCcc
  wanted : s.wantSys ≠ s.wantCcc
  wholeSys : s.clSys ≠ s.wantSys → Whole v.toVolume s.clSys
  wholeCcc : s.clCcc ≠ s.wantCcc → Whole v.toVolume s.clCcc
  entSys : s.entSys + 32 ≤ v.f.len
  entCcc : s.entCcc + 32 ≤ v.f.len

theorem relocate_or_stay {v : Vol} {ent : ℕ} {src dst : BitVec 16} {size : BitVec 32} {val : Byte}
    (hmovable : Movable v src dst) (hroom : v.spc.toNat * 512 ≤ (v.spc * 512).toNat)
    (hwhole : src ≠ dst → Whole v.toVolume src) (hent : ent + 32 ≤ v.f.len) :
    relocate v ent src dst size val false =
      .ok (if src = dst then (v, 0) else (moved v ent src dst size val, 1)) := by
  by_cases heq : src = dst
  · unfold relocate
    rw [if_pos heq, if_pos heq]
  · rw [relocate_moves hmovable heq hroom (hwhole heq) hent, if_neg heq]

theorem both_move {v : Vol} {s : Scan} (h : Ready v s) :
    ∃ v₁ r₁ v₂ r₂, relocate v s.entSys s.clSys s.wantSys s.szSys s.slack false = .ok (v₁, r₁) ∧ 0 ≤ r₁ ∧
      relocate v₁ s.entCcc s.clCcc s.wantCcc s.szCcc s.slack false = .ok (v₂, r₂) ∧ 0 ≤ r₂ := by
  have hsign (a b : BitVec 16) (x y : Vol) : (0 : ℤ) ≤ (if a = b then (x, (0 : ℤ)) else (y, 1)).2 := by
    split
    · exact Int.le_refl 0
    · exact Int.one_nonneg
  have hfirst := @relocate_or_stay v s.entSys _ _ s.szSys s.slack h.sys h.room h.wholeSys h.entSys
  by_cases hstay : s.clSys = s.wantSys
  · rw [if_pos hstay] at hfirst
    exact ⟨_, _, _, _, hfirst, Int.le_refl 0, relocate_or_stay h.ccc h.room h.wholeCcc h.entCcc, hsign _ _ _ _⟩
  · rw [if_neg hstay] at hfirst
    have hccc : Movable (moved v s.entSys s.clSys s.wantSys s.szSys s.slack) s.clCcc s.wantCcc :=
      moved_movable h.sys hstay h.ccc h.distinct h.wanted
    obtain ⟨f, heq, hlen⟩ := moved_same v s.entSys s.clSys s.wantSys s.szSys s.slack
    rw [heq] at hfirst hccc
    have hwhole (hne : s.clCcc ≠ s.wantCcc) :
        Whole ({ v with f := f, fat := movedFat v.fat s.clSys s.wantSys } : Vol).toVolume s.clCcc :=
      @whole_longer v { v with f := f, fat := movedFat v.fat s.clSys s.wantSys } rfl rfl hlen _ (h.wholeCcc hne)
    exact ⟨_, _, _, _, hfirst, Int.one_nonneg, relocate_or_stay hccc h.room hwhole (Nat.le_trans h.entCcc hlen),
      hsign _ _ _ _⟩

theorem fillSlack_ok (v : Vol) (cl : BitVec 16) (size : BitVec 32) (val : Byte) (dry : Bool) :
    ∃ w, fillSlack v cl size val dry = .ok w := by
  unfold fillSlack
  dsimp only
  rw [secRead_room v.f _ (by decide), ok_bind]
  split
  · split
    · exact ⟨_, rfl⟩
    · split
      · exact ⟨_, rfl⟩
      · exact ⟨_, rfl⟩
  · exact ⟨_, rfl⟩

/-- Both files moved, and the marker behind them. -/
def Repaired (s : Scan) (r : Except Fault (File × Bool)) : Prop :=
  ∃ f, r = .ok (f, true) ∧
    HostFile.read f 512 (markerSector s.wantSys s.wantCcc s.slack).length = markerSector s.wantSys s.wantCcc s.slack

theorem inPlace_repaired {opt : Options} {f : File} {v : Vol} {s : Scan} (hlocate : locate opt f = .ok (.ok (v, s)))
    (h : Ready v s) : Repaired s (fixInPlace opt f) := by
  obtain ⟨v₁, r₁, v₂, r₂, hfirst, hr₁, hsecond, hr₂⟩ := both_move h
  obtain ⟨w, hslack⟩ := fillSlack_ok v₂ s.wantCcc s.szCcc s.slack false
  obtain ⟨w', hslack'⟩ := fillSlack_ok w.1 s.wantSys s.szSys s.slack false
  unfold Repaired fixInPlace
  rw [hlocate, ok_bind]
  dsimp only
  rw [hfirst, ok_bind]
  dsimp only
  rw [if_neg (Int.not_lt.mpr hr₁), hsecond, ok_bind]
  dsimp only
  rw [if_neg (Int.not_lt.mpr hr₂), hslack, ok_bind, hslack', ok_bind]
  exact ⟨_, rfl, read_write _ _ _⟩

theorem secRead_whole {cap : ℕ} {f : File} {lba n : BitVec 32} {buf : List Byte}
    (h : secRead cap f lba n = .ok (some buf)) : buf = sectors f lba n ∧ buf.length = n.toNat * 512 := by
  unfold secRead fill at h
  split at h
  · have h := Except.ok.inj h
    dsimp only at h
    split at h
    · rename_i hwhole
      cases h
      exact ⟨rfl, hwhole⟩
    · cases h
  · cases h

theorem findEntry_lt {name buf : List Byte} {count i : ℕ} (h : findEntry name buf count = some i) : i < count :=
  List.mem_range.mp (List.mem_of_find?_eq_some h)

structure Hit (v : Volume) (c : BitVec 16) (i : ℕ) : Prop where
  whole : (sectors v.f (dirLba v c) (dirSecs v c)).length = (dirSecs v c).toNat * 512
  inside : 32 * i + 32 ≤ (dirSecs v c).toNat * 512

theorem Hit.held {v : Volume} {c : BitVec 16} {i : ℕ} (h : Hit v c i) :
    (entryAt v c (sectors v.f (dirLba v c) (dirSecs v c)) i).pos + 32 ≤ v.f.len := by
  have hwhole := h.whole
  have hinside := h.inside
  unfold sectors at hwhole
  rw [read_length] at hwhole
  unfold entryAt
  dsimp only
  omega

theorem hit_of {v : Volume} {c : BitVec 16} {name : List Byte} {i : ℕ}
    (hwhole : (sectors v.f (dirLba v c) (dirSecs v c)).length = (dirSecs v c).toNat * 512)
    (hi : findEntry name (sectors v.f (dirLba v c) (dirSecs v c)) (dirSecs v c * 512 / 32).toNat = some i) :
    Hit v c i := by
  refine ⟨hwhole, ?_⟩
  have hlt := findEntry_lt hi
  rw [BitVec.toNat_udiv, BitVec.toNat_mul] at hlt
  have hmod := Nat.mod_le ((dirSecs v c).toNat * (512 : BitVec 32).toNat) (2 ^ 32)
  change _ < (_ * 512 % _) / 32 at hlt
  change _ * 512 % _ ≤ _ * 512 at hmod
  omega

theorem dirLoop_hit {v : Volume} {name : List Byte} (guard : ℕ) {c : BitVec 16} {h : Found}
    (hfound : dirLoop v name guard c = .ok (some h)) :
    ∃ c' i, h = entryAt v c' (sectors v.f (dirLba v c') (dirSecs v c')) i ∧ Hit v c' i := by
  induction guard generalizing c with
  | zero => cases hfound
  | succ guard ih =>
    unfold dirLoop at hfound
    obtain ⟨o, hread, hfound⟩ := bind_inv hfound
    cases o with
    | none => cases hfound
    | some buf =>
      obtain ⟨rfl, hwhole⟩ := secRead_whole hread
      dsimp only at hfound
      split at hfound
      · cases hi : findEntry name (sectors v.f (dirLba v c) (dirSecs v c)) (dirSecs v c * 512 / 32).toNat with
        | none =>
          rw [hi] at hfound
          cases hfound
        | some i =>
          rw [hi] at hfound
          cases hfound
          exact ⟨c, i, rfl, hit_of hwhole hi⟩
      · obtain ⟨next, hnext, hfound⟩ := bind_inv hfound
        split at hfound
        · rename_i i hi
          cases hfound
          exact ⟨c, i, rfl, hit_of hwhole hi⟩
        · split at hfound
          · cases hfound
          · exact ih hfound

theorem dirFind_held {v : Volume} {c : BitVec 16} {name : List Byte} {h : Found}
    (hfound : dirFind v c name = .ok (some h)) : h.pos + 32 ≤ v.f.len := by
  obtain ⟨c', i, rfl, hhit⟩ := dirLoop_hit 64 hfound
  exact hhit.held

/-- `w` has the root directory, the first `n` clusters and their entries in the table from `v`. -/
structure Keeps (v w : Volume) (n : ℕ) : Prop where
  spc : w.spc = v.spc
  rootSecs : w.rootSecs = v.rootSecs
  root : sectors w.f w.rootLba v.rootSecs = sectors v.f v.rootLba v.rootSecs
  data : ∀ c : BitVec 16, 2 ≤ c.toNat → c.toNat < n → sectors w.f (clusLba w c) v.spc = sectors v.f (clusLba v c) v.spc
  table : ∀ c : BitVec 16, c.toNat < n → fatGet w c = fatGet v c

/-- The clusters that a search comes to are among the first `n`. -/
def Stays (v : Volume) (n guard : ℕ) (name : List Byte) (c : BitVec 16) : Prop :=
  c = 0 ∨ ∀ k < guard,
    (∀ j < k, findEntry name (sectors v.f (clusLba v (chainAt v c j)) v.spc) (v.spc * 512 / 32).toNat = none ∧
      2 ≤ chainAt v c (j + 1) ∧ chainAt v c (j + 1) < 0xFFF0) →
    2 ≤ (chainAt v c k).toNat ∧ (chainAt v c k).toNat < n

structure Carried (v w : Volume) (h h' : Found) : Prop where
  cl : h'.cl = h.cl
  size : h'.size = h.size
  held : h'.pos + 32 ≤ w.f.len
  bytes : HostFile.read w.f h'.pos 32 = HostFile.read v.f h.pos 32

theorem Keeps.sectors {v w : Volume} {n : ℕ} (hkeeps : Keeps v w n) {c : BitVec 16}
    (hc : c = 0 ∨ 2 ≤ c.toNat ∧ c.toNat < n) :
    dirSecs w c = dirSecs v c ∧
      sectors w.f (dirLba w c) (dirSecs v c) = sectors v.f (dirLba v c) (dirSecs v c) := by
  unfold dirSecs dirLba
  by_cases hroot : c = 0
  · rw [if_neg (not_not.mpr hroot), if_neg (not_not.mpr hroot), if_neg (not_not.mpr hroot),
      if_neg (not_not.mpr hroot)]
    exact ⟨hkeeps.rootSecs, hkeeps.root⟩
  · rw [if_pos hroot, if_pos hroot, if_pos hroot, if_pos hroot]
    obtain ⟨hlow, hhigh⟩ := hc.resolve_left hroot
    exact ⟨hkeeps.spc, hkeeps.data c hlow hhigh⟩

theorem secRead_congr {cap : ℕ} {f f' : File} {lba lba' n : BitVec 32} (h : sectors f' lba' n = sectors f lba n) :
    secRead cap f' lba' n = secRead cap f lba n := by
  unfold secRead
  rw [h]

theorem Hit.carried {v w : Volume} {n : ℕ} (hkeeps : Keeps v w n) {c : BitVec 16}
    (hc : c = 0 ∨ 2 ≤ c.toNat ∧ c.toNat < n) {i : ℕ} (h : Hit v c i) :
    Carried v w (entryAt v c (sectors v.f (dirLba v c) (dirSecs v c)) i)
      (entryAt w c (sectors v.f (dirLba v c) (dirSecs v c)) i) := by
  obtain ⟨hsecs, hsame⟩ := hkeeps.sectors hc
  have hwhole := h.whole
  have hinside := h.inside
  refine ⟨rfl, rfl, ?_, ?_⟩
  · rw [← hsame] at hwhole
    unfold Fat16.sectors at hwhole
    rw [read_length] at hwhole
    unfold entryAt
    dsimp only
    omega
  · have hslice (f : File) (lba : BitVec 32) :
        HostFile.read f (lba.toNat * 512 + 32 * i) 32 = ((Fat16.sectors f lba (dirSecs v c)).drop (32 * i)).take 32 :=
      (read_slice _ _ hinside).symm
    unfold entryAt
    dsimp only
    rw [hslice, hslice, hsame]

theorem stays_next {v : Volume} {n guard : ℕ} {name : List Byte} {c : BitVec 16} (hne : c ≠ 0)
    (h : Stays v n (guard + 1) name c)
    (hnone : findEntry name (sectors v.f (clusLba v c) v.spc) (v.spc * 512 / 32).toNat = none)
    (hnext : ¬ (rd16 v.fat (2 * c.toNat) < 2 ∨ 0xFFF0 ≤ rd16 v.fat (2 * c.toNat))) :
    Stays v n guard name (rd16 v.fat (2 * c.toNat)) := by
  rw [not_or] at hnext
  refine Or.inr fun k hk hpass => ?_
  rw [← chainAt_succ]
  refine h.resolve_left hne (k + 1) (Nat.succ_lt_succ hk) fun j hj => ?_
  cases j with
  | zero => exact ⟨hnone, BitVec.not_lt.mp hnext.1, BitVec.not_le.mp hnext.2⟩
  | succ j =>
    rw [chainAt_succ, chainAt_succ]
    exact hpass j (Nat.lt_of_succ_lt_succ hj)

theorem dirLoop_carried {v w : Volume} {n : ℕ} (hkeeps : Keeps v w n) {name : List Byte} (guard : ℕ) {c : BitVec 16}
    (hstays : Stays v n guard name c) {r : Option Found} (h : dirLoop v name guard c = .ok r) :
    ∃ r', dirLoop w name guard c = .ok r' ∧ Option.Rel (Carried v w) r r' := by
  induction guard generalizing c with
  | zero =>
    cases h
    exact ⟨none, rfl, .none⟩
  | succ guard ih =>
    have hc : c = 0 ∨ 2 ≤ c.toNat ∧ c.toNat < n :=
      hstays.imp_right fun h => h 0 (Nat.succ_pos _) fun j hj => absurd hj (Nat.not_lt_zero j)
    obtain ⟨hsecs, hsame⟩ := hkeeps.sectors hc
    unfold dirLoop at h ⊢
    rw [hkeeps.spc, hsecs, secRead_congr hsame]
    obtain ⟨o, hread, h⟩ := bind_inv h
    rw [hread, ok_bind]
    cases o with
    | none =>
      cases h
      exact ⟨none, rfl, .none⟩
    | some buf =>
      obtain ⟨rfl, hwhole⟩ := secRead_whole hread
      dsimp only at h ⊢
      by_cases hroot : c = 0
      · rw [if_pos hroot] at h ⊢
        cases h
        refine ⟨_, rfl, ?_⟩
        cases hi : findEntry name (Fat16.sectors v.f (dirLba v c) (dirSecs v c)) (dirSecs v c * 512 / 32).toNat with
        | none => exact .none
        | some i => exact .some ((hit_of hwhole hi).carried hkeeps hc)
      · rw [if_neg hroot] at h ⊢
        have hrange := hc.resolve_left hroot
        rw [hkeeps.table c hrange.2]
        obtain ⟨next, hnext, h⟩ := bind_inv h
        rw [hnext, ok_bind]
        split at h
        · rename_i i hi
          cases h
          exact ⟨_, rfl, .some ((hit_of hwhole hi).carried hkeeps hc)⟩
        · rename_i hi
          split at h
          · rename_i hend
            rw [if_pos hend]
            cases h
            exact ⟨none, rfl, .none⟩
          · rename_i hgo
            rw [if_neg hgo]
            have heq : rd16 v.fat (2 * c.toNat) = next := by
              unfold fatGet at hnext
              split at hnext
              · exact Except.ok.inj hnext
              · cases hnext
            rw [← heq] at h hgo ⊢
            have hlba : dirLba v c = clusLba v c := if_pos hroot
            have hdir : dirSecs v c = v.spc := if_pos hroot
            rw [hlba, hdir] at hi
            exact ih (stays_next hroot hstays hi hgo) h

theorem reopened_keeps {f : File} {v : Vol} {g : Grow} (h : Opened f v) (hplan : Plan v g) (hcovers : Covers v g)
    (hbody : (body v).length = bodySecs v * 512) :
    Keeps v.toVolume (reopened v g).toVolume v.clusters.toNat := by
  have hgrew := grown_grew h hplan hcovers hbody
  refine ⟨rfl, rfl, ?_, ?_, ?_⟩
  · rw [h.file]
    exact hgrew.root.2
  · intro c hlow hhigh
    rw [h.file]
    exact hgrew.data c hlow hhigh
  · intro c hc
    have hold := hcovers.2
    rw [clusters_bytes hplan] at hold
    have hmore := hplan.more
    have hcovers' := hplan.covers
    have hin : InTable v.toVolume c := by
      unfold InTable
      omega
    have hin' : InTable (reopened v g).toVolume c := by
      have hlength := table_length hplan hcovers
      change 2 * c.toNat + 1 < (table v g).length
      omega
    have hget : fatGet v.toVolume c = .ok (rd16 v.fat (2 * c.toNat)) := if_pos hin
    have hget' : fatGet (reopened v g).toVolume c = .ok (rd16 (table v g) (2 * c.toNat)) := if_pos hin'
    rw [hget, hget', table_old hplan hcovers hc]

def DirsStay (v : Vol) : Prop :=
  ∀ exe cc, dirFind v.toVolume 0 (ascii "EXE        ") = .ok (some exe) →
    dirFind v.toVolume exe.cl (ascii "PP2000  081") = .ok (some cc) →
    Stays v.toVolume v.clusters.toNat 64 (ascii "PP2000  081") exe.cl ∧
      Stays v.toVolume v.clusters.toNat 64 (ascii "CCONTROLSYS") cc.cl ∧
      Stays v.toVolume v.clusters.toNat 64 (ascii "PP2000  CCC") cc.cl ∧
      Stays v.toVolume v.clusters.toNat 64 (ascii "NFS        ") cc.cl

/-- A volume on the image that can be grown with all that is in it. -/
structure Growable (v : Vol) (s : Scan) : Prop where
  reserved : v.rsvd ≠ 0
  head : v.part.toNat + v.rsvd.toNat ≤ 2048
  covers : v.clusters.toNat * 2 ≤ v.spf.toNat * 512
  held : (v.part.toNat + v.tot.toNat) * 512 ≤ v.f.len
  licence : 4 ≤ v.spc.toNat
  dirs : DirsStay v
  sys : 2 ≤ s.clSys.toNat ∧ s.clSys.toNat < v.clusters.toNat
  ccc : 2 ≤ s.clCcc.toNat ∧ s.clCcc.toNat < v.clusters.toNat

theorem find_carried {v w : Volume} {n : ℕ} (hkeeps : Keeps v w n) {name : List Byte} {c : BitVec 16}
    (hstays : Stays v n 64 name c) {r : Option Found} (h : dirFind v c name = .ok r) :
    ∃ r', dirFind w c name = .ok r' ∧ Option.Rel (Carried v w) r r' :=
  dirLoop_carried hkeeps 64 hstays h

theorem find_some_carried {v w : Volume} {n : ℕ} (hkeeps : Keeps v w n) {name : List Byte} {c : BitVec 16}
    (hstays : Stays v n 64 name c) {r : Found} (h : dirFind v c name = .ok (some r)) :
    ∃ r', dirFind w c name = .ok (some r') ∧ Carried v w r r' := by
  obtain ⟨o, hfind, hrel⟩ := find_carried hkeeps hstays h
  cases hrel with
  | some hcarried => exact ⟨_, hfind, hcarried⟩

theorem stamps_carried {v w : Vol} {lic : List Byte} {o o' : Option Found} {nfs : Nfs}
    (h : nfsStamps v lic o = some nfs) (hrel : Option.Rel (Carried v.toVolume w.toVolume) o o') :
    ∃ nfs', nfsStamps w lic o' = some nfs' := by
  cases hrel with
  | none => exact ⟨_, rfl⟩
  | some hcarried => exact nfsStamps_some w lic hcarried.held

structure Again (s s' : Scan) (w : Vol) : Prop where
  clSys : s'.clSys = s.clSys
  clCcc : s'.clCcc = s.clCcc
  wantSys : s'.wantSys = s.wantSys
  wantCcc : s'.wantCcc = s.wantCcc
  slack : s'.slack = s.slack
  entSys : s'.entSys + 32 ≤ w.f.len
  entCcc : s'.entCcc + 32 ≤ w.f.len

section
variable {opt : Options} {f : File} {v : Vol} {s : Scan} {e : Entries} {nfs : Nfs} (h : Located opt f v s e nfs)
include h

theorem growable_plan (hgrow : s.grow = true) (hv : Growable v s) :
    Plan v s.gp ∧ Pokes v ∧ ¬ chunk < v.fatLba := by
  have hreserved := hv.reserved
  have hhead := hv.head
  have hpos : 0 < v.rsvd.toNat := Nat.pos_of_ne_zero fun hzero => hreserved (BitVec.eq_of_toNat_eq hzero)
  have hfat : v.fatLba.toNat = v.part.toNat + v.rsvd.toNat := by
    rw [h.opened.fatLba, BitVec.toNat_add]
    omega
  have hadd (x : ℕ) (hx : x < 512) : (v.part * 512 + BitVec.ofNat 32 x).toNat = v.part.toNat * 512 + x := by
    rw [BitVec.toNat_add, BitVec.toNat_mul, BitVec.toNat_ofNat]
    change (_ * 512 % 4294967296 + _) % 4294967296 = _
    omega
  have hpokes : Pokes v := by
    have h13 := hadd 0x13 (by decide)
    have h16 := hadd 0x16 (by decide)
    have h20 := hadd 0x20 (by decide)
    refine ⟨?_, ?_, ?_⟩
    · change (v.part * 512 + BitVec.ofNat 32 0x13).toNat + 2 ≤ _
      omega
    · change (v.part * 512 + BitVec.ofNat 32 0x16).toNat + 2 ≤ _
      omega
    · change (v.part * 512 + BitVec.ofNat 32 0x20).toNat + 4 ≤ _
      omega
  have hchunk : ¬ chunk < v.fatLba := by
    rw [BitVec.lt_def, hfat]
    change ¬ 2048 < _
    omega
  exact ⟨plan_of h hgrow hreserved hpokes hchunk, hpokes, hchunk⟩

theorem growable_covers (hv : Growable v s) (hplan : Plan v s.gp) : Covers v s.gp := by
  have hcovers := hv.covers
  have hgrows := hplan.spf
  unfold Covers
  rw [clusters_bytes hplan, table_bytes hplan, h.opened.fat, h.opened.table]
  omega

theorem growable_body (hv : Growable v s) (hplan : Plan v s.gp) : Holds f (v.rootLba.toNat * 512) (bodySecs v * 512) := by
  have hheld := hv.held
  have hstop := hplan.stop
  rw [h.opened.file] at hheld
  unfold Holds bodySecs
  rw [read_length, hstop]
  omega

theorem growImage_grown (hgrow : s.grow = true) (hv : Growable v s) :
    Plan v s.gp ∧ Covers v s.gp ∧ (body v).length = bodySecs v * 512 ∧
      growImage f s.gp = .ok (some (grown v s.gp)) := by
  obtain ⟨hplan, hpokes, hchunk⟩ := growable_plan h hgrow hv
  have hcovers := growable_covers h hv hplan
  have hbody := growable_body h hv hplan
  have hsmall := hplan.small
  have hstop := hplan.stop
  refine ⟨hplan, hcovers, ?_, ?_⟩
  · unfold body
    rw [h.opened.file]
    exact hbody
  · rw [growImage_eq h.opened (by omega), if_neg hchunk, if_pos ⟨hpokes, hcovers⟩, if_pos hbody]
    unfold grown
    rfl

theorem four_sectors {w : Volume} (hkeeps : Keeps v.toVolume w v.clusters.toNat) (hspc : 4 ≤ v.spc.toNat)
    {c : BitVec 16} (hc : 2 ≤ c.toNat ∧ c.toNat < v.clusters.toNat) {n : BitVec 32} (hn : n.toNat ≤ 4) :
    sectors w.f (clusLba w c) n = sectors f (clusLba v.toVolume c) n := by
  have hslice (g : File) (lba : BitVec 32) : sectors g lba n = (sectors g lba v.spc).take (n.toNat * 512) := by
    have hroom : 0 + n.toNat * 512 ≤ v.spc.toNat * 512 := by
      rw [Nat.zero_add]
      exact Nat.mul_le_mul_right 512 (Nat.le_trans hn hspc)
    have hrow := read_slice g (lba.toNat * 512) hroom
    rw [List.drop_zero, Nat.add_zero] at hrow
    exact hrow.symm
  rw [hslice, hslice f, hkeeps.data c hc.1 hc.2, h.opened.file]

theorem located_again (hgrow : s.grow = true) (hv : Growable v s) (hplan : Plan v s.gp) (hcovers : Covers v s.gp)
    (hbody : (body v).length = bodySecs v * 512) :
    ∃ s', locate opt (grown v s.gp) = .ok (.ok (reopened v s.gp, s')) ∧ Again s s' (reopened v s.gp) := by
  have hkeeps := reopened_keeps h.opened hplan hcovers hbody
  have hscan := h.scan
  have hclSys : s.clSys = e.sys.cl := congrArg Scan.clSys hscan
  have hclCcc : s.clCcc = e.ccc.cl := congrArg Scan.clCcc hscan
  have hsys := hv.sys
  have hccc := hv.ccc
  rw [hclSys] at hsys
  rw [hclCcc] at hccc
  obtain ⟨hstays, hstaysSys, hstaysCcc, hstaysNfs⟩ := hv.dirs e.exe e.cc h.finds.exe h.finds.cc
  obtain ⟨exe, hexe, hcarriedExe⟩ := find_some_carried hkeeps (Or.inl rfl) h.finds.exe
  obtain ⟨cc, hcc, hcarriedCc⟩ := find_some_carried hkeeps hstays h.finds.cc
  obtain ⟨sys, hfindSys, hcarriedSys⟩ := find_some_carried hkeeps hstaysSys h.finds.sys
  obtain ⟨ccc, hfindCcc, hcarriedCcc⟩ := find_some_carried hkeeps hstaysCcc h.finds.ccc
  obtain ⟨nfs₀, hfindNfs, hrel⟩ := find_carried hkeeps hstaysNfs h.finds.nfs
  obtain ⟨nfs', hnfs'⟩ := @stamps_carried v (reopened v s.gp) _ _ _ _ h.stamps hrel
  rw [← hcarriedExe.cl] at hcc
  rw [← hcarriedCc.cl] at hfindSys hfindCcc hfindNfs
  have hrawCcc : sectors (grown v s.gp) (clusLba (reopened v s.gp).toVolume ccc.cl) 4 =
      sectors f (clusLba v.toVolume e.ccc.cl) 4 := by
    rw [hcarriedCcc.cl]
    exact four_sectors h hkeeps hv.licence hccc (by decide)
  have hrawSys : sectors (grown v s.gp) (clusLba (reopened v s.gp).toVolume sys.cl) 1 =
      sectors f (clusLba v.toVolume e.sys.cl) 1 := by
    rw [hcarriedSys.cl]
    exact four_sectors h hkeeps hv.licence hsys (by decide)
  let none' : Grow := { tot := 0, spf := 0, clusters := 0 }
  let s' := scanOf opt ⟨exe, cc, sys, ccc, nfs₀⟩ (sectors f (clusLba v.toVolume e.ccc.cl) 4)
    (sectors f (clusLba v.toVolume e.sys.cl) 1) nfs' false none'
  have hwantSys : s'.wantSys = s.wantSys := (congrArg Scan.wantSys hscan).symm
  have hwantCcc : s'.wantCcc = s.wantCcc := (congrArg Scan.wantCcc hscan).symm
  have hgrowth : Ppfix.growth (reopened v s.gp) s'.wantSys s'.wantCcc = .ok (some (false, none')) := by
    have hwants := h.growth
    rw [hgrow] at hwants
    unfold Ppfix.growth at hwants ⊢
    rw [hwantSys, hwantCcc]
    dsimp only at hwants ⊢
    split at hwants
    · obtain ⟨o, -, hwants⟩ := bind_inv hwants
      cases o with
      | none => cases hwants
      | some g =>
        dsimp only at hwants
        split at hwants
        · cases hwants
        · rename_i hreach
          have hgp := congrArg Prod.snd (Option.some.inj (Except.ok.inj hwants))
          dsimp only at hgp
          rw [hgp] at hreach
          exact if_neg hreach
    · cases hwants
  refine ⟨s', @locate_of opt _ _ s' ⟨exe, cc, sys, ccc, nfs₀⟩ nfs'
    ⟨reopened_opened h.opened hplan hcovers, ⟨hexe, hcc, hfindSys, hfindCcc, hfindNfs⟩, ?_, ?_, ?_, ?_, ?_, hgrowth, ?_⟩,
    hcarriedSys.cl.trans hclSys.symm, hcarriedCcc.cl.trans hclCcc.symm, hwantSys, hwantCcc,
    (congrArg Scan.slack hscan).symm, hcarriedSys.held, hcarriedCcc.held⟩
  · rw [hrawCcc]
    exact h.rawCcc
  · rw [hrawSys]
    exact h.rawSys
  · rw [hrawCcc]
    exact h.pcode
  · rw [hwantCcc]
    exact h.want
  · rw [hrawCcc]
    exact hnfs'
  · rw [hrawCcc, hrawSys]
    rfl

theorem grown_repaired (hgrow : s.grow = true) (hv : Growable v s) {w : Vol} (hwiden : volWiden v s.gp = .ok w)
    (hsys : Movable w s.clSys s.wantSys) (hccc : Movable w s.clCcc s.wantCcc) (hdistinct : s.clSys ≠ s.clCcc)
    (hwanted : s.wantSys ≠ s.wantCcc) (hwholeSys : s.clSys ≠ s.wantSys → Whole v.toVolume s.clSys)
    (hwholeCcc : s.clCcc ≠ s.wantCcc → Whole v.toVolume s.clCcc) : Repaired s (fixImage opt f) := by
  obtain ⟨hplan, hcovers, hbody, hgrown⟩ := growImage_grown h hgrow hv
  obtain ⟨s', hagain, hsame⟩ := located_again h hgrow hv hplan hcovers hbody
  have hkeeps := reopened_keeps h.opened hplan hcovers hbody
  have hwide : w = { v with fat := table v s.gp, spf := s.gp.spf, clusters := s.gp.clusters } := by
    unfold volWiden at hwiden
    rw [if_neg (Nat.not_lt.mpr hcovers.1)] at hwiden
    exact (Except.ok.inj hwiden).symm
  have hmovable {src dst : BitVec 16} (hm : Movable w src dst) : Movable (reopened v s.gp) src dst := by
    rw [hwide] at hm
    exact hm
  have hwhole {c : BitVec 16} (hc : 2 ≤ c.toNat ∧ c.toNat < v.clusters.toNat) (hw : Whole v.toVolume c) :
      Whole (reopened v s.gp).toVolume c := by
    unfold Whole at hw ⊢
    rw [hkeeps.spc, hkeeps.data c hc.1 hc.2]
    exact hw
  have hready : Ready (reopened v s.gp) s' := by
    refine ⟨Nat.le_of_eq (cluster_room (Opened.spc_le h.opened)).symm, ?_, ?_, ?_, ?_, ?_, ?_, hsame.entSys, hsame.entCcc⟩
    · rw [hsame.clSys, hsame.wantSys]
      exact hmovable hsys
    · rw [hsame.clCcc, hsame.wantCcc]
      exact hmovable hccc
    · rw [hsame.clSys, hsame.clCcc]
      exact hdistinct
    · rw [hsame.wantSys, hsame.wantCcc]
      exact hwanted
    · rw [hsame.clSys, hsame.wantSys]
      exact fun hne => hwhole hv.sys (hwholeSys hne)
    · rw [hsame.clCcc, hsame.wantCcc]
      exact fun hne => hwhole hv.ccc (hwholeCcc hne)
  obtain ⟨g, hfix, hmarker⟩ := inPlace_repaired hagain hready
  rw [hsame.wantSys, hsame.wantCcc, hsame.slack] at hmarker
  refine ⟨g, ?_, hmarker⟩
  unfold fixImage
  rw [locate_of h, ok_bind]
  dsimp only
  rw [if_pos hgrow, hgrown, ok_bind]
  exact hfix

end

theorem moves_inv {w : Vol} {s : Scan} {look : Look} {k : Vol × ℤ → Vol × ℤ → Except Fault Look}
    (h : (relocate w s.entSys s.clSys s.wantSys s.szSys s.slack true >>= fun x =>
      relocate w s.entCcc s.clCcc s.wantCcc s.szCcc s.slack true >>= fun y =>
        if x.2 < 0 ∨ y.2 < 0 then .ok { state := .error, changes := 0 } else k x y) = .ok look)
    (hk : ∀ x y, k x y = .ok look → look.state ≠ .error) :
    ∃ r₁ r₂, relocate w s.entSys s.clSys s.wantSys s.szSys s.slack true = .ok (w, r₁) ∧
      relocate w s.entCcc s.clCcc s.wantCcc s.szCcc s.slack true = .ok (w, r₂) ∧
      (look.state = .error ↔ r₁ < 0 ∨ r₂ < 0) := by
  obtain ⟨⟨w₁, r₁⟩, hfirst, hrest⟩ := bind_inv h
  obtain ⟨⟨w₂, r₂⟩, hsecond, hlast⟩ := bind_inv hrest
  obtain ⟨rfl, -⟩ := relocate_dry_inv hfirst
  obtain ⟨rfl, -⟩ := relocate_dry_inv hsecond
  refine ⟨r₁, r₂, hfirst, hsecond, ?_⟩
  by_cases hbad : r₁ < 0 ∨ r₂ < 0
  · have hlook := (if_pos hbad).symm.trans hlast
    cases hlook
    exact iff_of_true rfl hbad
  · exact iff_of_false (hk _ _ ((if_neg hbad).symm.trans hlast)) hbad

theorem scan_inv {opt : Options} {f : File} {v : Vol} {s : Scan} {look : Look}
    (hlocate : locate opt f = .ok (.ok (v, s))) (hscan : scanImage opt f = .ok look) :
    ∃ w r₁ r₂, (if s.grow = true then volWiden v s.gp else .ok v) = .ok w ∧
      relocate w s.entSys s.clSys s.wantSys s.szSys s.slack true = .ok (w, r₁) ∧
      relocate w s.entCcc s.clCcc s.wantCcc s.szCcc s.slack true = .ok (w, r₂) ∧
      (look.state = .error ↔ r₁ < 0 ∨ r₂ < 0) := by
  unfold scanImage at hscan
  rw [hlocate, ok_bind] at hscan
  dsimp only at hscan
  have hstate {b : Prop} [Decidable b] {n : ℕ} {look : Look}
      (h : (Except.ok { state := if b then .fixed else .unfixed, changes := n } : Except Fault Look) = .ok look) :
      look.state ≠ .error := by
    cases h
    dsimp only
    split
    · exact fun h => (by cases h)
    · exact fun h => (by cases h)
  by_cases hgrow : s.grow = true
  · rw [if_pos hgrow] at hscan ⊢
    obtain ⟨w, hwiden, hscan⟩ := bind_inv hscan
    refine ⟨w, ?_⟩
    obtain ⟨r₁, r₂, hmoves⟩ := moves_inv hscan fun x y hrest => by
      rw [if_pos hgrow] at hrest
      obtain ⟨slack, -, hrest⟩ := bind_inv hrest
      exact hstate hrest
    exact ⟨r₁, r₂, hwiden, hmoves⟩
  · rw [if_neg hgrow] at hscan ⊢
    refine ⟨v, ?_⟩
    obtain ⟨r₁, r₂, hmoves⟩ := moves_inv hscan fun x y hrest => by
      rw [if_neg hgrow] at hrest
      obtain ⟨a, -, hrest⟩ := bind_inv hrest
      obtain ⟨b, -, hrest⟩ := bind_inv hrest
      exact hstate hrest
    exact ⟨r₁, r₂, rfl, hmoves⟩

/-- What the scan announces is done, and where it finds an error nothing is. -/
theorem scan_predicts (opt : Options) (f : File) (look : Look) (hscan : scanImage opt f = .ok look) :
    (∀ v s, locate opt f = .ok (.ok (v, s)) → look.state = .unfixed → s.clSys ≠ s.clCcc → s.wantSys ≠ s.wantCcc →
      (s.clSys ≠ s.wantSys → Whole v.toVolume s.clSys) → (s.clCcc ≠ s.wantCcc → Whole v.toVolume s.clCcc) →
      (s.grow = true → Growable v s) → Repaired s (fixImage opt f)) ∧
    (look.state = .error → runHeadless opt f = .ok (f, 2) ∧
      (∀ state, locate opt f = .ok (.error state) → fixImage opt f = .ok (f, false)) ∧
      ∀ v s r, locate opt f = .ok (.ok (v, s)) → s.grow = false →
        relocate v s.entSys s.clSys s.wantSys s.szSys s.slack true = .ok (v, r) → r ≤ 0 →
          fixImage opt f = .ok (f, false)) := by
  refine ⟨?_, ?_⟩
  · intro v s hlocate hstate hdistinct hwanted hwholeSys hwholeCcc hgrowable
    obtain ⟨e, nfs, hlocated⟩ := locate_inv hlocate
    obtain ⟨w, r₁, r₂, hwiden, hfirst, hsecond, herror⟩ := scan_inv hlocate hscan
    have hnot : ¬ (r₁ < 0 ∨ r₂ < 0) := by
      rw [← herror, hstate]
      exact fun h => (by cases h)
    rw [not_or] at hnot
    have hsys := (relocate_dry_inv hfirst).2 (Int.not_lt.mp hnot.1)
    have hccc := (relocate_dry_inv hsecond).2 (Int.not_lt.mp hnot.2)
    by_cases hgrow : s.grow = true
    · rw [if_pos hgrow] at hwiden
      exact grown_repaired hlocated hgrow (hgrowable hgrow) hwiden hsys hccc hdistinct hwanted hwholeSys hwholeCcc
    · rw [if_neg hgrow] at hwiden
      obtain rfl := Except.ok.inj hwiden
      have hentSys : s.entSys = e.sys.pos := congrArg Scan.entSys hlocated.scan
      have hentCcc : s.entCcc = e.ccc.pos := congrArg Scan.entCcc hlocated.scan
      have hready : Ready v s := by
        refine ⟨Nat.le_of_eq (cluster_room (Opened.spc_le hlocated.opened)).symm, hsys, hccc, hdistinct, hwanted, hwholeSys, hwholeCcc, ?_, ?_⟩
        · rw [hentSys]
          exact dirFind_held hlocated.finds.sys
        · rw [hentCcc]
          exact dirFind_held hlocated.finds.ccc
      unfold fixImage
      rw [hlocate, ok_bind]
      dsimp only
      rw [if_neg hgrow]
      exact inPlace_repaired hlocate hready
  · intro hstate
    refine ⟨?_, ?_, ?_⟩
    · unfold runHeadless
      rw [hscan, ok_bind]
      dsimp only
      rw [hstate, if_neg (by decide), ok_bind, if_neg (by decide), ok_bind, hstate]
    · intro state hlocate
      unfold fixImage
      rw [hlocate, ok_bind]
    · intro v s r hlocate hgrow hfirst hr
      obtain ⟨w, r₁, r₂, hwiden, hfirst', hsecond, herror⟩ := scan_inv hlocate hscan
      rw [hgrow] at hwiden
      obtain rfl := Except.ok.inj hwiden
      rw [hfirst] at hfirst'
      obtain rfl : r = r₁ := congrArg Prod.snd (Except.ok.inj hfirst')
      have hmove := relocate_refused hfirst hr
      have hfile : v.f = f := by
        obtain ⟨e, nfs, hlocated⟩ := locate_inv hlocate
        exact hlocated.opened.file
      unfold fixImage
      rw [hlocate, ok_bind]
      dsimp only
      rw [if_neg (by rw [hgrow]; decide)]
      unfold fixInPlace
      rw [hlocate, ok_bind]
      dsimp only
      rw [hmove, ok_bind]
      dsimp only
      split
      · rw [hfile]
      · rename_i hpassed
        have hbad : r₂ < 0 := (herror.mp hstate).resolve_left hpassed
        rw [relocate_refused hsecond (Int.le_of_lt hbad), ok_bind]
        dsimp only
        rw [if_pos hbad, hfile]

/-- A volume of fourteen clusters: the directories in 2 and 3, the files in 4 and 5, wanted in 7
and 9, and the entry of cluster 9. -/
def misplaced (entry : Byte) : File :=
  image 27136
    [(6662, [0x44, 0x43]), (1554, [entry, entry]), (1540, List.replicate 8 0xFF),
      (0x1BE + 8, [2, 0, 0, 0]), (510, [0x55, 0xAA]), (1024 + 0x0B, [0, 2, 4, 1, 0, 1, 16, 0, 51, 0, 0xF8, 1, 0]),
      (2048, ascii "EXE        " ++ [0x10]), (2048 + 0x1A, [2, 0]),
      (2560, ascii "PP2000  081" ++ [0x10]), (2560 + 0x1A, [3, 0]),
      (4608, ascii "CCONTROLSYS"), (4608 + 0x1A, [4, 0, 0xE8, 3]),
      (4640, ascii "PP2000  CCC"), (4640 + 0x1A, [5, 0, 0x10, 6]),
      (8712, [1, 0, 0, 0, 0, 0, 0, 0, 62, 56, 60, 156, 105, 121, 184, 59, 92, 245, 160, 85, 181, 68, 196, 115, 156,
        102, 38, 230, 161, 170, 85, 165])]

def misplacedVolume (entry : Byte) : Vol where
  f := misplaced entry
  spc := 4
  rootLba := 4
  rootSecs := 1
  dataLba := 5
  fat := sectors (misplaced entry) 3 1
  part := 2
  tot := 51
  rsvd := 1
  nfat := 1
  spf := 1
  fatLba := 3
  clusters := 14

def misplacedEntries (entry : Byte) : Entries where
  exe := entryAt (misplacedVolume entry).toVolume 0 (sectors (misplaced entry) 4 1) 0
  cc := entryAt (misplacedVolume entry).toVolume 2 (sectors (misplaced entry) 5 4) 0
  sys := entryAt (misplacedVolume entry).toVolume 3 (sectors (misplaced entry) 9 4) 0
  ccc := entryAt (misplacedVolume entry).toVolume 3 (sectors (misplaced entry) 9 4) 1
  nfs := none

theorem misplaced_opened {entry : Byte} (h : entry ∈ [0x00, 0xFF]) :
    Opened (misplaced entry) (misplacedVolume entry) := by
  refine ⟨?_, ?_, ?_, ?_, ?_, ?_, ?_, rfl, ?_, ?_, ?_, ?_, ?_, ?_, ?_, ?_, ?_, ?_, ?_, ?_⟩
  all_goals
    revert entry
    decide +kernel

def misplacedScan (opt : Options) (sys : BitVec 16) : Scan where
  clSys := 4
  clCcc := 5
  szSys := 1000
  szCcc := 1552
  entSys := 4608
  entCcc := 4640
  wantSys := sys
  wantCcc := 9
  slack := slackByte opt 9
  grow := false
  gp := { tot := 0, spf := 0, clusters := 0 }
  entNfs := none
  nfsTime := 0
  nfsDate := 0
  wantTime := 0
  wantDate := 0

theorem misplaced_room {entry : Byte} {lba n : BitVec 32} (h : lba.toNat * 512 + n.toNat * 512 ≤ 27136) :
    lba.toNat * 512 + n.toNat * 512 ≤ (misplaced entry).len := h

theorem misplaced_in {entry : Byte} {c : BitVec 16} (hc : c ≤ 3) : InTable (misplacedVolume entry).toVolume c := by
  have hlow : c.toNat ≤ 3 := hc
  have htable : (sectors (misplaced entry) 3 1).length = (1 : BitVec 32).toNat * 512 :=
    sectors_whole (misplaced_room (by decide))
  have hone : (1 : BitVec 32).toNat * 512 = 512 := by decide
  have hlast : 2 * c.toNat + 1 < 512 := by omega
  unfold InTable misplacedVolume
  dsimp only
  rw [htable, hone]
  exact hlast

def automatic : Options where
  sys := -1
  slk := -1

theorem misplaced_computed {entry : Byte} (h : entry ∈ [0x00, 0xFF]) :
    ((misplacedEntries entry).exe.cl = 2 ∧ (misplacedEntries entry).cc.cl = 3) ∧
    (Spotted (misplacedVolume entry).toVolume 0 (ascii "EXE        ") 0 ∧
      Spotted (misplacedVolume entry).toVolume 2 (ascii "PP2000  081") 0 ∧
      Spotted (misplacedVolume entry).toVolume 3 (ascii "CCONTROLSYS") 0 ∧
      Spotted (misplacedVolume entry).toVolume 3 (ascii "PP2000  CCC") 1 ∧
      ∀ i < 2, isEntry (ascii "NFS        ") ((sectors (misplaced entry) 9 4).drop (32 * i)) = false) ∧
    (clusLba (misplacedVolume entry).toVolume (misplacedEntries entry).ccc.cl = 17 ∧
      clusLba (misplacedVolume entry).toVolume (misplacedEntries entry).sys.cl = 13 ∧
      (misplacedEntries entry).sys.cl = 4 ∧ (misplacedEntries entry).ccc.cl = 5 ∧
      (misplacedEntries entry).sys.size = 1000 ∧ (misplacedEntries entry).ccc.size = 1552 ∧
      (misplacedEntries entry).sys.pos = 4608 ∧ (misplacedEntries entry).ccc.pos = 4640) ∧
    ((sectors (misplaced entry) 17 4).getD 8 0 = 1 ∧
      (licenceBlocks ((sectors (misplaced entry) 17 4).drop 0x10) (0x5F0 / 8) 0 [31, 94, 239, 239, 147, 145, 96, 96]
        0x35).take 6 = ascii "PP2000" ∧
      rd16 (licenceBlocks ((sectors (misplaced entry) 17 4).drop 0x10) (0x5F0 / 8) 0
        [31, 94, 239, 239, 147, 145, 96, 96] 0x35) 0x12 = 9) ∧
    0xFFF0 ≤ rd16 (misplacedVolume entry).fat (2 * (3 : BitVec 16).toNat) ∧
    wantedSys automatic (sectors (misplaced entry) 13 1) 9 = 7 := by
  revert entry
  decide +kernel

theorem misplaced_finds {entry : Byte} (h : entry ∈ [0x00, 0xFF]) :
    Finds (misplacedVolume entry) (misplacedEntries entry) := by
  obtain ⟨hcls, ⟨hexe, hcc, hsys, hccc, hnone⟩, -, -, hlast, -⟩ := misplaced_computed h
  refine ⟨hexe.found, ?_, ?_, ?_, ?_⟩
  · rw [hcls.1]
    exact hcc.found
  · rw [hcls.2]
    exact hsys.found
  · rw [hcls.2]
    exact hccc.found
  · rw [hcls.2]
    have hfree : ∀ i < 64, 2 ≤ i → (misplaced entry).byte ((9 : BitVec 32).toNat * 512 + 32 * i) = 0 := by
      intro i hi hlow
      refine image_byte_zero ?_
      intro row hrow
      simp only [List.mem_cons, List.not_mem_nil, or_false] at hrow
      rcases hrow with rfl | rfl | rfl | rfl | rfl | rfl | rfl | rfl | rfl | rfl | rfl | rfl | rfl | rfl | rfl
      all_goals
        simp [ascii]
        omega
    refine dirFind_miss (by decide) hsys.1.1 hsys.1.2 (List.find?_eq_none.mpr ?_) (misplaced_in (by decide)) hlast
    intro i hi
    rw [Bool.not_eq_true]
    have hcount : i < ((4 : BitVec 32) * 512 / 32).toNat := List.mem_range.mp hi
    rw [(by decide : ((4 : BitVec 32) * 512 / 32).toNat = 64)] at hcount
    by_cases hlow : i < 2
    · exact hnone i hlow
    · exact entry_free _ (hfree i hcount (Nat.not_lt.mp hlow))

theorem misplaced_licence {entry : Byte} (h : entry ∈ [0x00, 0xFF]) :
    (licence (sectors (misplaced entry) 17 4)).take 6 = ascii "PP2000" ∧
    rd16 (licence (sectors (misplaced entry) 17 4)) 0x12 = 9 := by
  obtain ⟨-, -, -, ⟨hkey, hcode, hwant⟩, -⟩ := misplaced_computed h
  rw [licence_keyed hkey]
  exact ⟨hcode, hwant⟩

theorem misplaced_located {entry : Byte} (h : entry ∈ [0x00, 0xFF]) {opt : Options} {sys : BitVec 16}
    (hsys : wantedSys opt (sectors (misplaced entry) 13 1) 9 = sys) (hlow : sys.setWidth 32 < (14 : BitVec 32)) :
    locate opt (misplaced entry) = .ok (.ok (misplacedVolume entry, misplacedScan opt sys)) := by
  obtain ⟨-, -, ⟨hccc, hsysAt, hclSys, hclCcc, hszSys, hszCcc, hsysPos, hcccPos⟩, -⟩ := misplaced_computed h
  have hlic := misplaced_licence h
  have hscan : misplacedScan opt sys = scanOf opt (misplacedEntries entry) (sectors (misplaced entry) 17 4)
      (sectors (misplaced entry) 13 1) ⟨none, 0, 0, 0, 0⟩ false ⟨0, 0, 0⟩ := by
    unfold scanOf
    dsimp only
    rw [hlic.2, hsys, hclSys, hclCcc, hszSys, hszCcc, hsysPos, hcccPos]
    rfl
  have hfour : (4 : BitVec 32).toNat * 512 = 2048 := by decide
  have hone : (1 : BitVec 32).toNat * 512 = 512 := by decide
  have hwant : (2 : BitVec 16) ≤ 9 ∧ (9 : BitVec 16) ≤ 0xFFEF := by decide
  refine locate_of (e := misplacedEntries entry) ⟨misplaced_opened h, misplaced_finds h, ?_, ?_, ?_, hwant, rfl, ?_, ?_⟩
  · rw [hccc]
    have hraw : (sectors (misplaced entry) 17 4).length = (4 : BitVec 32).toNat * 512 :=
      sectors_whole (misplaced_room (by decide))
    rw [hfour] at hraw
    exact hraw
  · rw [hsysAt]
    have hraw : (sectors (misplaced entry) 13 1).length = (1 : BitVec 32).toNat * 512 :=
      sectors_whole (misplaced_room (by decide))
    rw [hone] at hraw
    exact hraw
  · rw [hccc]
    exact hlic.1
  · unfold growth
    exact if_neg (not_or.mpr ⟨BitVec.not_le.mpr hlow, (by decide : ¬ (14 : BitVec 32) ≤ (9 : BitVec 16).setWidth 32)⟩)
  · rw [hccc, hsysAt]
    exact hscan

theorem scanned {r : Except Fault Look} {state : State} (h : r.toOption.map Look.state = some state) :
    ∃ look, r = .ok look ∧ look.state = state := by
  cases r with
  | error e => cases h
  | ok look => exact ⟨look, rfl, Option.some.inj h⟩

theorem left {r : Except Fault (File × Bool)} {at' : ℕ} {b : Byte} {done : Bool}
    (h : (r.toOption.map fun x => (x.1.byte at', x.2)) = some (b, done)) :
    ∃ f, r = .ok (f, done) ∧ f.byte at' = b := by
  cases r with
  | error e => cases h
  | ok x =>
    obtain ⟨hbyte, rfl⟩ := Prod.mk.inj (Option.some.inj h)
    exact ⟨x.1, rfl, hbyte⟩

theorem misplaced_scans :
    (∃ look, scanImage automatic (misplaced 0x00) = .ok look ∧ look.state = .unfixed) ∧
    ∃ look, scanImage automatic (misplaced 0xFF) = .ok look ∧ look.state = .error := by
  have hwanted {entry : Byte} (h : entry ∈ [0x00, 0xFF]) := (misplaced_computed h).2.2.2.2.2
  constructor
  · refine scanned ?_
    unfold scanImage
    rw [misplaced_located (by decide) (hwanted (by decide)) (by decide), ok_bind]
    decide +kernel
  · refine scanned ?_
    unfold scanImage
    rw [misplaced_located (by decide) (hwanted (by decide)) (by decide), ok_bind]
    decide +kernel

/-- That image is repaired, and the one whose cluster 9 is taken is left alone. -/
theorem scan_predicts_misplaced :
    (∃ look, scanImage automatic (misplaced 0x00) = .ok look ∧ look.state = .unfixed) ∧
    Repaired (misplacedScan automatic 7) (fixImage automatic (misplaced 0x00)) ∧
    runHeadless automatic (misplaced 0xFF) = .ok (misplaced 0xFF, 2) := by
  obtain ⟨⟨look, hscan, hstate⟩, look', hscan', hstate'⟩ := misplaced_scans
  refine ⟨⟨look, hscan, hstate⟩, ?_, ((scan_predicts _ _ _ hscan').2 hstate').1⟩
  have hwhole {c : BitVec 16} (h : c = 4 ∨ c = 5) : Whole (misplacedVolume 0x00).toVolume c := by
    rcases h with rfl | rfl
    · exact sectors_whole (misplaced_room (by decide : (13 : BitVec 32).toNat * 512 + (4 : BitVec 32).toNat * 512 ≤ 27136))
    · exact sectors_whole (misplaced_room (by decide : (17 : BitVec 32).toNat * 512 + (4 : BitVec 32).toNat * 512 ≤ 27136))
  refine (scan_predicts _ _ _ hscan).1 (misplacedVolume 0x00) _ ?_ hstate (by decide : (4 : BitVec 16) ≠ 5)
    (by decide : (7 : BitVec 16) ≠ 9) (fun _ => hwhole (Or.inl rfl)) (fun _ => hwhole (Or.inr rfl)) ?_
  · exact misplaced_located (by decide) (misplaced_computed (by decide)).2.2.2.2.2 (by decide)
  · intro hgrow
    cases hgrow

/-- With CCONTROL.SYS wanted where PP2000.CCC is to start, the scan announces a repair that stops
half way; and a repair of the image that the scan has rejected moves the first file. -/
theorem repair_stops_half_way :
    (∃ look f, scanImage { sys := 9, slk := -1 } (misplaced 0x00) = .ok look ∧ look.state = .unfixed ∧
      fixImage { sys := 9, slk := -1 } (misplaced 0x00) = .ok (f, false) ∧ f.byte 4634 = 9) ∧
    (∃ look f, scanImage automatic (misplaced 0xFF) = .ok look ∧ look.state = .error ∧
      fixImage automatic (misplaced 0xFF) = .ok (f, false) ∧ f.byte 4634 = 7) ∧
    (misplaced 0x00).byte 4634 = 4 ∧ (misplaced 0xFF).byte 4634 = 4 := by
  have hfirst := @misplaced_located 0x00 (by decide) { sys := 9, slk := -1 } 9 (by decide +kernel) (by decide)
  have hsecond := @misplaced_located 0xFF (by decide) automatic 7 (misplaced_computed (by decide)).2.2.2.2.2 (by decide)
  refine ⟨?_, ?_, by decide +kernel, by decide +kernel⟩
  · have hscan : ∃ look, scanImage { sys := 9, slk := -1 } (misplaced 0x00) = .ok look ∧ look.state = .unfixed := by
      refine scanned ?_
      unfold scanImage
      rw [hfirst, ok_bind]
      decide +kernel
    have hfix : ∃ f, fixImage { sys := 9, slk := -1 } (misplaced 0x00) = .ok (f, false) ∧ f.byte 4634 = 9 := by
      refine left ?_
      unfold fixImage fixInPlace
      rw [hfirst, ok_bind]
      decide +kernel
    obtain ⟨look, hlook, hstate⟩ := hscan
    obtain ⟨f, hf, hbyte⟩ := hfix
    exact ⟨look, f, hlook, hstate, hf, hbyte⟩
  · have hfix : ∃ f, fixImage automatic (misplaced 0xFF) = .ok (f, false) ∧ f.byte 4634 = 7 := by
      refine left ?_
      unfold fixImage fixInPlace
      rw [hsecond, ok_bind]
      decide +kernel
    obtain ⟨look, hlook, hstate⟩ := misplaced_scans.2
    obtain ⟨f, hf, hbyte⟩ := hfix
    exact ⟨look, f, hlook, hstate, hf, hbyte⟩

end PeepeeBox.PpfixRepair
