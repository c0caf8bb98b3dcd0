import PeepeeBox.FatBounds

set_option autoImplicit false

/-!
# What `locate` found

All that an image has to hold for `ppfix` to go on, and what it then knows.
-/
namespace PeepeeBox.PpfixLocate
open Fat16 FatBounds HostFile Ppfix

theorem bind_inv {α β : Type} {x : Except Fault α} {k : α → Except Fault β} {b : β} (h : (x >>= k) = .ok b) :
    ∃ a, x = .ok a ∧ k a = .ok b := by
  cases x with
  | error e => cases h
  | ok a => exact ⟨a, rfl, h⟩

structure Entries where
  exe : Found
  cc : Found
  sys : Found
  ccc : Found
  nfs : Option Found

structure Finds (v : Vol) (e : Entries) : Prop where
  exe : dirFind v.toVolume 0 (ascii "EXE        ") = .ok (some e.exe)
  cc : dirFind v.toVolume e.exe.cl (ascii "PP2000  081") = .ok (some e.cc)
  sys : dirFind v.toVolume e.cc.cl (ascii "CCONTROLSYS") = .ok (some e.sys)
  ccc : dirFind v.toVolume e.cc.cl (ascii "PP2000  CCC") = .ok (some e.ccc)
  nfs : dirFind v.toVolume e.cc.cl (ascii "NFS        ") = .ok e.nfs

def licence (raw : List Byte) : List Byte :=
  licenceDecrypt (raw.drop 0x10) 0x5F0 (ascii "PP2000") (raw.getD 8 0) 0x35

def scanOf (opt : Options) (e : Entries) (rawCcc rawSys : List Byte) (nfs : Nfs) (grow : Bool) (gp : Grow) :
    Scan :=
  let wantCcc := rd16 (licence rawCcc) 0x12
  { clSys := e.sys.cl
    clCcc := e.ccc.cl
    szSys := e.sys.size
    szCcc := e.ccc.size
    entSys := e.sys.pos
    entCcc := e.ccc.pos
    wantSys := wantedSys opt rawSys wantCcc
    wantCcc := wantCcc
    slack := slackByte opt wantCcc
    grow := grow
    gp := gp
    entNfs := nfs.ent
    nfsTime := nfs.time
    nfsDate := nfs.date
    wantTime := nfs.wantTime
    wantDate := nfs.wantDate }

structure Located (opt : Options) (f : File) (v : Vol) (s : Scan) (e : Entries) (nfs : Nfs) : Prop where
  opened : Opened f v
  finds : Finds v e
  rawCcc : (sectors f (clusLba v.toVolume e.ccc.cl) 4).length = 2048
  rawSys : (sectors f (clusLba v.toVolume e.sys.cl) 1).length = 512
  pcode : (licence (sectors f (clusLba v.toVolume e.ccc.cl) 4)).take 6 = ascii "PP2000"
  want : 2 ≤ s.wantCcc ∧ s.wantCcc ≤ 0xFFEF
  stamps : nfsStamps v (licence (sectors f (clusLba v.toVolume e.ccc.cl) 4)) e.nfs = some nfs
  growth : growth v s.wantSys s.wantCcc = .ok (some (s.grow, s.gp))
  scan : s = scanOf opt e (sectors f (clusLba v.toVolume e.ccc.cl) 4)
    (sectors f (clusLba v.toVolume e.sys.cl) 1) nfs s.grow s.gp

theorem locate_inv {opt : Options} {f : File} {v : Vol} {s : Scan} (h : locate opt f = .ok (.ok (v, s))) :
    ∃ e nfs, Located opt f v s e nfs := by
  unfold locate at h
  obtain ⟨o, hopen, h⟩ := bind_inv h
  cases o with
  | none => cases h
  | some w =>
    obtain ⟨o, hexe, h⟩ := bind_inv h
    cases o with
    | none => cases h
    | some exe =>
      obtain ⟨o, hcc, h⟩ := bind_inv h
      cases o with
      | none => cases h
      | some cc =>
        obtain ⟨osys, hsys, h⟩ := bind_inv h
        obtain ⟨occc, hccc, h⟩ := bind_inv h
        cases osys with
        | none => cases h
        | some sys =>
          cases occc with
          | none => cases h
          | some ccc =>
            have hopened := volOpen_inv hopen
            dsimp only at h
            rw [secRead_room f _ (by decide), ok_bind] at h
            by_cases hraw : (sectors f (clusLba w.toVolume ccc.cl) 4).length = (4 : BitVec 32).toNat * 512
            · rw [if_pos hraw] at h
              dsimp only at h
              split at h
              · cases h
              rename_i hlic
              rw [secRead_room f _ (by decide), ok_bind] at h
              by_cases hraw' : (sectors f (clusLba w.toVolume sys.cl) 1).length = (1 : BitVec 32).toNat * 512
              · rw [if_pos hraw'] at h
                dsimp only at h
                obtain ⟨onfs, hnfs, h⟩ := bind_inv h
                split at h
                · cases h
                rename_i nfs hstamps
                obtain ⟨o, hgrowth, h⟩ := bind_inv h
                cases o with
                | none => cases h
                | some g =>
                  obtain ⟨grow, gp⟩ := g
                  obtain ⟨rfl, rfl⟩ := Prod.mk.inj (Except.ok.inj (Except.ok.inj h))
                  rw [not_or, not_or, not_not] at hlic
                  refine ⟨⟨exe, cc, sys, ccc, onfs⟩, nfs, hopened, ⟨hexe, hcc, hsys, hccc, hnfs⟩, hraw, hraw',
                    hlic.1, ⟨?_, ?_⟩, hstamps, hgrowth, rfl⟩
                  · exact BitVec.not_lt.mp hlic.2.1
                  · exact BitVec.not_lt.mp hlic.2.2
              · rw [if_neg hraw'] at h
                cases h
            · rw [if_neg hraw] at h
              cases h

theorem locate_of {opt : Options} {f : File} {v : Vol} {s : Scan} {e : Entries} {nfs : Nfs}
    (h : Located opt f v s e nfs) : locate opt f = .ok (.ok (v, s)) := by
  have hgood : ¬ ((licence (sectors f (clusLba v.toVolume e.ccc.cl) 4)).take 6 ≠ ascii "PP2000" ∨
      rd16 (licence (sectors f (clusLba v.toVolume e.ccc.cl) 4)) 0x12 < 2 ∨
      0xFFEF < rd16 (licence (sectors f (clusLba v.toVolume e.ccc.cl) 4)) 0x12) := by
    have hwant := h.want
    rw [h.scan] at hwant
    rw [not_or, not_or, not_not]
    exact ⟨h.pcode, BitVec.not_lt.mpr hwant.1, BitVec.not_lt.mpr hwant.2⟩
  have hgrowth := h.growth
  rw [congrArg Scan.wantSys h.scan, congrArg Scan.wantCcc h.scan] at hgrowth
  unfold locate
  rw [volOpen_of h.opened, ok_bind]
  dsimp only
  rw [h.finds.exe, ok_bind]
  dsimp only
  rw [h.finds.cc, ok_bind]
  dsimp only
  rw [h.finds.sys, ok_bind, h.finds.ccc, ok_bind]
  dsimp only
  rw [secRead_some f _ (by decide) h.rawCcc, ok_bind]
  dsimp only
  unfold licence at hgood
  rw [if_neg hgood, secRead_some f _ (by decide) h.rawSys, ok_bind]
  dsimp only
  have hstamps := h.stamps
  unfold licence at hstamps
  rw [h.finds.nfs, ok_bind, hstamps]
  dsimp only
  unfold scanOf licence at hgrowth
  dsimp only at hgrowth
  rw [hgrowth, ok_bind]
  dsimp only
  refine congrArg (fun s => Except.ok (Except.ok (v, s))) ?_
  exact h.scan.symm

theorem licence_keyed {raw : List Byte} (h : raw.getD 8 0 = 1) :
    licence raw = licenceBlocks (raw.drop 0x10) (0x5F0 / 8) 0 [31, 94, 239, 239, 147, 145, 96, 96] 0x35 := by
  have hreg : lfsrSteps 256 ((List.range 8).map fun i => (ascii "PP2000").getD i 0 ^^^ 1) =
      [31, 94, 239, 239, 147, 145, 96, 96] := by decide +kernel
  unfold licence licenceDecrypt
  dsimp only
  rw [h, hreg]

theorem sectors_whole {f : File} {lba n : BitVec 32} (h : lba.toNat * 512 + n.toNat * 512 ≤ f.len) :
    (sectors f lba n).length = n.toNat * 512 := by
  unfold sectors
  rw [read_length]
  exact Nat.min_eq_left (Nat.le_sub_of_add_le' h)

theorem dirFind_hit {v : Volume} {c : BitVec 16} {name : List Byte} {i : ℕ}
    (hroom : (dirSecs v c).toNat * 512 ≤ (v.spc * 512).toNat)
    (hwhole : (dirLba v c).toNat * 512 + (dirSecs v c).toNat * 512 ≤ v.f.len)
    (hhit : findEntry name (sectors v.f (dirLba v c) (dirSecs v c)) (dirSecs v c * 512 / 32).toNat = some i)
    (htable : c = 0 ∨ InTable v c) :
    dirFind v c name = .ok (some (entryAt v c (sectors v.f (dirLba v c) (dirSecs v c)) i)) := by
  unfold dirFind dirLoop
  rw [secRead_some v.f _ hroom (sectors_whole hwhole), ok_bind]
  dsimp only
  rw [hhit]
  rcases htable with hroot | hin
  · rw [if_pos hroot]
    rfl
  · have hget : fatGet v c = .ok (rd16 v.fat (2 * c.toNat)) := if_pos hin
    split
    · rfl
    · rw [hget, ok_bind]

/-- Entry `i` of the first sectors of directory `c` that `dirFind` reads. -/
def Spotted (v : Volume) (c : BitVec 16) (name : List Byte) (i : ℕ) : Prop :=
  ((dirSecs v c).toNat * 512 ≤ (v.spc * 512).toNat ∧
    (dirLba v c).toNat * 512 + (dirSecs v c).toNat * 512 ≤ v.f.len) ∧
  findEntry name (sectors v.f (dirLba v c) (dirSecs v c)) (dirSecs v c * 512 / 32).toNat = some i ∧
  (c = 0 ∨ InTable v c)

instance (v : Volume) (c : BitVec 16) (name : List Byte) (i : ℕ) : Decidable (Spotted v c name i) := by
  unfold Spotted InTable
  infer_instance

theorem Spotted.found {v : Volume} {c : BitVec 16} {name : List Byte} {i : ℕ} (h : Spotted v c name i) :
    dirFind v c name = .ok (some (entryAt v c (sectors v.f (dirLba v c) (dirSecs v c)) i)) :=
  dirFind_hit h.1.1 h.1.2 h.2.1 h.2.2

theorem entry_free (name : List Byte) {f : File} {lba n : BitVec 32} {i : ℕ}
    (h : f.byte (lba.toNat * 512 + 32 * i) = 0) : isEntry name ((sectors f lba n).drop (32 * i)) = false := by
  have hfirst : ((sectors f lba n).drop (32 * i)).getD 0 0 = 0 := by
    rw [List.getD_eq_getElem?_getD, List.getElem?_drop, ← List.getD_eq_getElem?_getD, Nat.add_zero]
    unfold sectors
    by_cases hi : 32 * i < min (n.toNat * 512) (f.len - lba.toNat * 512)
    · rw [read_getD f _ _ _ hi]
      exact h
    · rw [List.getD_eq_default _ _ (by rw [read_length]; omega)]
  unfold isEntry
  rw [hfirst]
  exact decide_eq_false fun hall => hall.1 rfl

theorem dirFind_miss {v : Volume} {c : BitVec 16} {name : List Byte} (hc : c ≠ 0)
    (hroom : (dirSecs v c).toNat * 512 ≤ (v.spc * 512).toNat)
    (hwhole : (dirLba v c).toNat * 512 + (dirSecs v c).toNat * 512 ≤ v.f.len)
    (hmiss : findEntry name (sectors v.f (dirLba v c) (dirSecs v c)) (dirSecs v c * 512 / 32).toNat = none)
    (htable : InTable v c) (hlast : 0xFFF0 ≤ rd16 v.fat (2 * c.toNat)) : dirFind v c name = .ok none := by
  have hget : fatGet v c = .ok (rd16 v.fat (2 * c.toNat)) := if_pos htable
  unfold dirFind dirLoop
  rw [secRead_some v.f _ hroom (sectors_whole hwhole), ok_bind]
  dsimp only
  rw [if_neg hc, hmiss, hget, ok_bind]
  dsimp only
  rw [if_pos (Or.inr hlast)]

theorem nfsStamps_some (v : Vol) (lic : List Byte) {h : Found} (hwhole : h.pos + 32 ≤ v.f.len) :
    ∃ nfs, nfsStamps v lic (some h) = some nfs := by
  have hlength : (HostFile.read v.f h.pos 32).length = 32 := by
    rw [read_length]
    exact Nat.min_eq_left (Nat.le_sub_of_add_le' hwhole)
  unfold nfsStamps
  dsimp only
  rw [if_neg (not_not.mpr hlength)]
  split
  · exact ⟨_, rfl⟩
  · exact ⟨_, rfl⟩

end PeepeeBox.PpfixLocate
