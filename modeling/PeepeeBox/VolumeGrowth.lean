import PeepeeBox.GrownVolume

set_option autoImplicit false

/-!
# Growing keeps what a volume holds

Whenever the image can be grown, it opens as a volume of the planned size with the old one in it.
-/
namespace PeepeeBox.VolumeGrowth
open Fat16 FatBounds GrownImage GrownVolume HostFile Ppfix PpfixLocate

theorem growth_small {v : Vol} {wantSys wantCcc : BitVec 16} {g : Grow}
    (h : growth v wantSys wantCcc = .ok (some (true, g))) : (v.part + v.tot).toNat < 4124736 := by
  unfold growth at h
  dsimp only at h
  split at h
  · obtain ⟨o, hplan, h⟩ := bind_inv h
    unfold growPlan at hplan
    split at hplan
    · cases hplan
      cases h
    · rename_i hlt
      exact Nat.lt_of_not_le hlt
  · cases h

/-- An image with `ppfix`'s directories and files in clusters of 64 sectors, the first of them at
`data`; they begin at cluster `c`, entry `c` of the table at `fat`. -/
def installed (len : ℕ) (boot : List Byte) (fat root data : ℕ) (c : Byte) : File :=
  let cluster (k : ℕ) := data + 32768 * (c.toNat + k - 2)
  let entry (off : ℕ) (name : String) (c : Byte) : List (ℕ × List Byte) :=
    [(off, ascii name), (off + 0x1A, [c, 0])]
  image len
    ([(0x1BE + 8, [1, 0, 0, 0]), (510, [0x55, 0xAA]), (512 + 0x0B, boot),
        (fat + 2 * c.toNat, List.replicate 8 0xFF)] ++
      entry root "EXE        " c ++ entry (cluster 0) "PP2000  081" (c + 1) ++
      entry (cluster 1) "CCONTROLSYS" (c + 2) ++ entry (cluster 1 + 32) "PP2000  CCC" (c + 3) ++
      entry (cluster 1 + 64) "NFS        " 0 ++
      [(cluster 3 + 8, [1, 0, 0, 0, 0, 0, 0, 0, 62, 56, 60, 156, 105, 121, 184, 59, 92, 245, 160, 85, 181, 68,
        196, 115, 152, 110, 34, 226, 173, 174, 85, 165])])

def Hits (v : Vol) (e : Entries) (exe cc : BitVec 16) : Prop :=
  (e.exe.cl = exe ∧ e.cc.cl = cc) ∧ Spotted v.toVolume 0 (ascii "EXE        ") 0 ∧
  Spotted v.toVolume exe (ascii "PP2000  081") 0 ∧ Spotted v.toVolume cc (ascii "CCONTROLSYS") 0 ∧
  Spotted v.toVolume cc (ascii "PP2000  CCC") 1 ∧ Spotted v.toVolume cc (ascii "NFS        ") 2

instance (v : Vol) (e : Entries) (exe cc : BitVec 16) : Decidable (Hits v e exe cc) := by
  unfold Hits
  infer_instance

/-- Ten clusters, one reserved sector. -/
def tenClusters : File := installed 264192 [0, 2, 64, 1, 0, 1, 16, 0, 3, 2, 0xF8, 1, 0] 1024 1536 2048 2

def tenVolume : Vol where
  f := tenClusters
  spc := 64
  rootLba := 3
  rootSecs := 1
  dataLba := 4
  fat := sectors tenClusters 2 1
  part := 1
  tot := 515
  rsvd := 1
  nfat := 1
  spf := 1
  fatLba := 2
  clusters := 10

def tenEntries : Entries where
  exe := entryAt tenVolume.toVolume 0 (sectors tenClusters 3 1) 0
  cc := entryAt tenVolume.toVolume 2 (sectors tenClusters 4 64) 0
  sys := entryAt tenVolume.toVolume 3 (sectors tenClusters 68 64) 0
  ccc := entryAt tenVolume.toVolume 3 (sectors tenClusters 68 64) 1
  nfs := some (entryAt tenVolume.toVolume 3 (sectors tenClusters 68 64) 2)

theorem tenEntries_found (h : Hits tenVolume tenEntries 2 3) : Finds tenVolume tenEntries := by
  obtain ⟨⟨hexe, hcc⟩, hits⟩ := h
  refine ⟨hits.1.found, ?_, ?_, ?_, ?_⟩
  · rw [hexe]
    exact hits.2.1.found
  · rw [hcc]
    exact hits.2.2.1.found
  · rw [hcc]
    exact hits.2.2.2.1.found
  · rw [hcc]
    exact hits.2.2.2.2.found

def cabinetPlan : Grow := { tot := 4124735, spf := 252, clusters := 64447 }

def automatic : Options := { sys := -1, slk := -1 }

theorem ten_located : ∃ s nfs, Located automatic tenClusters tenVolume s tenEntries nfs ∧ s.grow = true ∧
    s.gp = cabinetPlan := by
  have hopened : Opened tenClusters tenVolume := by
    refine ⟨?_, ?_, ?_, ?_, ?_, ?_, ?_, rfl, ?_, ?_, ?_, ?_, ?_, ?_, ?_, ?_, ?_, ?_, ?_, ?_⟩
    all_goals decide +kernel
  have hhits : Hits tenVolume tenEntries 2 3 := by decide +kernel
  have hccc : clusLba tenVolume.toVolume tenEntries.ccc.cl = 196 := by decide +kernel
  have hsys : clusLba tenVolume.toVolume tenEntries.sys.cl = 132 := by decide +kernel
  obtain ⟨nfs, hnfs⟩ := nfsStamps_some tenVolume (licence (sectors tenClusters 196 4))
    (h := entryAt tenVolume.toVolume 3 (sectors tenClusters 68 64) 2) (by decide +kernel)
  have hwant : rd16 (licence (sectors tenClusters 196 4)) 0x12 = 0x1234 := by decide +kernel
  have hwantSys : wantedSys automatic (sectors tenClusters 132 1) 0x1234 = 0x4343 := by decide +kernel
  refine ⟨scanOf automatic tenEntries (sectors tenClusters 196 4) (sectors tenClusters 132 1) nfs true cabinetPlan,
    nfs, ⟨hopened, tenEntries_found hhits, ?_, ?_, ?_, ?_, ?_, ?_, ?_⟩, rfl, rfl⟩
  · rw [hccc]
    exact sectors_whole (by decide +kernel)
  · rw [hsys]
    exact sectors_whole (by decide +kernel)
  · rw [hccc]
    decide +kernel
  · unfold scanOf
    dsimp only
    rw [hwant]
    decide
  · rw [hccc]
    exact hnfs
  · unfold scanOf
    dsimp only
    rw [hwant, hwantSys]
    decide +kernel
  · rw [hccc, hsys]
    rfl

/-- Its boot sector is the first of its table: 256 clusters. -/
def unreserved : File := installed 8324608 [0, 2, 64, 0, 0, 1, 16, 0, 0x82, 0x3F, 0xF8, 1, 0] 512 1024 1536 100

def unreservedVolume : Vol where
  f := unreserved
  spc := 64
  rootLba := 2
  rootSecs := 1
  dataLba := 3
  fat := sectors unreserved 1 1
  part := 1
  tot := 16258
  rsvd := 0
  nfat := 1
  spf := 1
  fatLba := 1
  clusters := 256

def unreservedEntries : Entries where
  exe := entryAt unreservedVolume.toVolume 0 (sectors unreserved 2 1) 0
  cc := entryAt unreservedVolume.toVolume 100 (sectors unreserved 6275 64) 0
  sys := entryAt unreservedVolume.toVolume 101 (sectors unreserved 6339 64) 0
  ccc := entryAt unreservedVolume.toVolume 101 (sectors unreserved 6339 64) 1
  nfs := some (entryAt unreservedVolume.toVolume 101 (sectors unreserved 6339 64) 2)

theorem unreservedEntries_found (h : Hits unreservedVolume unreservedEntries 100 101) : Finds unreservedVolume unreservedEntries := by
  obtain ⟨⟨hexe, hcc⟩, hits⟩ := h
  refine ⟨hits.1.found, ?_, ?_, ?_, ?_⟩
  · rw [hexe]
    exact hits.2.1.found
  · rw [hcc]
    exact hits.2.2.1.found
  · rw [hcc]
    exact hits.2.2.2.1.found
  · rw [hcc]
    exact hits.2.2.2.2.found

theorem unreserved_located : ∃ s nfs,
    Located automatic unreserved unreservedVolume s unreservedEntries nfs ∧ s.grow = true ∧
      s.gp = cabinetPlan := by
  have hopened : Opened unreserved unreservedVolume := by
    refine ⟨?_, ?_, ?_, ?_, ?_, ?_, ?_, rfl, ?_, ?_, ?_, ?_, ?_, ?_, ?_, ?_, ?_, ?_, ?_, ?_⟩
    all_goals decide +kernel
  have hhits : Hits unreservedVolume unreservedEntries 100 101 := by decide +kernel
  have hccc : clusLba unreservedVolume.toVolume unreservedEntries.ccc.cl = 6467 := by decide +kernel
  have hsys : clusLba unreservedVolume.toVolume unreservedEntries.sys.cl = 6403 := by decide +kernel
  obtain ⟨nfs, hnfs⟩ := nfsStamps_some unreservedVolume (licence (sectors unreserved 6467 4))
    (h := entryAt unreservedVolume.toVolume 101 (sectors unreserved 6339 64) 2) (by decide +kernel)
  have hwant : rd16 (licence (sectors unreserved 6467 4)) 0x12 = 0x1234 := by decide +kernel
  have hwantSys : wantedSys automatic (sectors unreserved 6403 1) 0x1234 = 0x4343 := by decide +kernel
  refine ⟨scanOf automatic unreservedEntries (sectors unreserved 6467 4) (sectors unreserved 6403 1) nfs true
    cabinetPlan, nfs, ⟨hopened, unreservedEntries_found hhits, ?_, ?_, ?_, ?_, ?_, ?_, ?_⟩, rfl, rfl⟩
  · rw [hccc]
    exact sectors_whole (by decide +kernel)
  · rw [hsys]
    exact sectors_whole (by decide +kernel)
  · rw [hccc]
    decide +kernel
  · unfold scanOf
    dsimp only
    rw [hwant]
    decide
  · rw [hccc]
    exact hnfs
  · unfold scanOf
    dsimp only
    rw [hwant, hwantSys]
    decide +kernel
  · rw [hccc, hsys]
    rfl

end PeepeeBox.VolumeGrowth
