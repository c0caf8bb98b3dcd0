import PeepeeBox.FatBounds
import PeepeeBox.PhotoplayFat
import PeepeeBox.PhotoplayIdent

set_option autoImplicit false

/-!
# The two readers

`photoplay_ident.c` and `photoplay.c` each have a FAT16 reader of their own.
-/
namespace PeepeeBox.ReaderAgreement
open Fat16 FatBounds HostFile PhotoplayIdent

theorem isEntry_part (name bs : List Byte) (k : ℕ) :
    isEntry name ((bs.drop k).take 32) = isEntry name (bs.drop k) := by
  have hfirst : ((bs.drop k).take 32).getD 0 0 = (bs.drop k).getD 0 0 := by
    rw [List.getD_eq_getElem?_getD, List.getElem?_take_of_lt (by decide), ← List.getD_eq_getElem?_getD]
  unfold isEntry
  rw [hfirst, List.take_take]
  rfl

theorem readAt_some {f : File} {off n : ℕ} (h : off + n ≤ f.len) : ppReadAt f off n = some (HostFile.read f off n) := by
  refine if_pos ?_
  rw [read_length]
  omega

/-- Entry `i` of a row. -/
def ent (f : File) (off i : ℕ) : List Byte := HostFile.read f (off + 32 * i) 32

theorem ent_succ (f : File) (off i : ℕ) : ent f (off + 32) i = ent f off (i + 1) := by
  unfold ent
  rw [show off + 32 + 32 * i = off + 32 * (i + 1) by omega]

def findOf (ent : List Byte) : PpFind where
  clus := rd16 ent 26
  size := rd32 ent 28
  isdir := ent.getD 11 0 &&& 0x10 ≠ 0

theorem isEntry_true {name ent : List Byte} (h : isEntry name ent = true) :
    ent.getD 0 0 ≠ 0 ∧ ent.getD 0 0 ≠ 0xE5 ∧ ent.take 11 = name := of_decide_eq_true h

theorem ppFindCb_miss {name ent : List Byte} (h : isEntry name ent = false) (hzero : ent.getD 0 0 ≠ 0)
    (hlive : ent.getD 0 0 ≠ 0xE5) : ppFindCb name ent = none := by
  refine if_pos ?_
  intro hname
  exact of_decide_eq_false h ⟨hzero, hlive, hname⟩

theorem ppFindCb_hit {name ent : List Byte} (h : isEntry name ent = true) : ppFindCb name ent = some (findOf ent) :=
  if_neg (not_not.mpr (isEntry_true h).2.2)

theorem entries_pass {f : File} {name : List Byte} {n off : ℕ} (hread : off + 32 ≤ f.len)
    (hmiss : isEntry name (ent f off 0) = false) (hmark : (ent f off 0).getD 0 0 ≠ 0) :
    entries f (ppFindCb name) (n + 1) off = entries f (ppFindCb name) n (off + 32) := by
  have hent : ppReadAt f off 32 = some (ent f off 0) := readAt_some hread
  unfold entries
  rw [hent]
  dsimp only
  rw [if_neg hmark]
  by_cases hskip : (ent f off 0).getD 0 0 = 0xE5 ∨ (ent f off 0).getD 11 0 = 0x0F
  · rw [if_pos hskip]
    cases n with
    | zero => rfl
    | succ n => rfl
  · rw [if_neg hskip, ppFindCb_miss hmiss hmark fun h => hskip (Or.inl h)]
    cases n with
    | zero => rfl
    | succ n => rfl

theorem entries_found {f : File} {name : List Byte} {n i off : ℕ} (hi : i < n) (hread : off + 32 * n ≤ f.len)
    (hbefore : ∀ j < i, isEntry name (ent f off j) = false ∧ (ent f off j).getD 0 0 ≠ 0)
    (hhit : isEntry name (ent f off i) = true) (hshort : (ent f off i).getD 11 0 ≠ 0x0F) :
    entries f (ppFindCb name) n off = .found (findOf (ent f off i)) := by
  induction i generalizing n off with
  | zero =>
    cases n with
    | zero => exact absurd hi (Nat.not_lt_zero 0)
    | succ n =>
      have hent : ppReadAt f off 32 = some (ent f off 0) := readAt_some (by omega)
      have hlive := isEntry_true hhit
      unfold entries
      rw [hent]
      dsimp only
      rw [if_neg hlive.1, if_neg (not_or.mpr ⟨hlive.2.1, hshort⟩), ppFindCb_hit hhit]
  | succ i ih =>
    cases n with
    | zero => exact absurd hi (Nat.not_lt_zero _)
    | succ n =>
      have hfirst := hbefore 0 (Nat.succ_pos i)
      rw [entries_pass (by omega) hfirst.1 hfirst.2, ← ent_succ]
      rw [← ent_succ] at hhit hshort
      refine ih (Nat.lt_of_succ_lt_succ hi) (by omega) ?_ hhit hshort
      intro j hj
      rw [ent_succ]
      exact hbefore (j + 1) (Nat.succ_lt_succ hj)

theorem entries_on {f : File} {name : List Byte} {n off : ℕ} (hread : off + 32 * n ≤ f.len)
    (hall : ∀ j < n, isEntry name (ent f off j) = false ∧ (ent f off j).getD 0 0 ≠ 0) :
    entries f (ppFindCb name) n off = .on := by
  induction n generalizing off with
  | zero => rfl
  | succ n ih =>
    have hfirst := hall 0 (Nat.succ_pos n)
    rw [entries_pass (by omega) hfirst.1 hfirst.2]
    refine ih (by omega) ?_
    intro j hj
    rw [ent_succ]
    exact hall (j + 1) (Nat.succ_lt_succ hj)

theorem entries_miss {f : File} {name : List Byte} {n off : ℕ} (hread : off + 32 * n ≤ f.len)
    (hall : ∀ j < n, isEntry name (ent f off j) = false) :
    entries f (ppFindCb name) n off = .past ∨ entries f (ppFindCb name) n off = .on := by
  induction n generalizing off with
  | zero => exact Or.inr rfl
  | succ n ih =>
    by_cases hmark : (ent f off 0).getD 0 0 = 0
    · have hent : ppReadAt f off 32 = some (ent f off 0) := readAt_some (by omega)
      unfold entries
      rw [hent]
      dsimp only
      rw [if_pos hmark]
      exact Or.inl rfl
    · rw [entries_pass (by omega) (hall 0 (Nat.succ_pos n)) hmark]
      refine ih (by omega) ?_
      intro j hj
      rw [ent_succ]
      exact hall (j + 1) (Nat.succ_lt_succ hj)

structure Same (fs : PhotoplayIdent.PpFat) (v : Volume) : Prop where
  file : v.f = fs.f
  bps : fs.bps = 512
  spc : fs.spc = v.spc.toNat
  low : v.spc.toNat ≤ 255
  root : fs.rootOff = v.rootLba.toNat * 512
  ents : fs.rootEnts = v.rootSecs.toNat * 16
  secs : v.rootSecs.toNat ≤ 4095
  data : fs.dataOff = v.dataLba.toNat * 512
  near : v.dataLba.toNat < 2 ^ 26
  table : v.fat = HostFile.read v.f fs.fatOff v.fat.length

section
variable {fs : PhotoplayIdent.PpFat} {v : Volume} (same : Same fs v)
include same

theorem clusLba_toNat {c : BitVec 16} (hc : 2 ≤ c) :
    (clusLba v c).toNat = v.dataLba.toNat + (c.toNat - 2) * v.spc.toNat := by
  have hlow : 2 ≤ c.toNat := hc
  have hspan : (c.toNat - 2) * v.spc.toNat ≤ 65535 * 255 := Nat.mul_le_mul (by omega) same.low
  have hnear := same.near
  unfold clusLba
  rw [BitVec.toNat_add, BitVec.toNat_mul, BitVec.toNat_sub, BitVec.toNat_setWidth, (by decide : (2 : BitVec 32).toNat = 2)]
  rw [Nat.mod_eq_of_lt (by omega : c.toNat < 2 ^ 32)]
  rw [show 2 ^ 32 - 2 + c.toNat = c.toNat - 2 + 2 ^ 32 by omega, Nat.add_mod_right]
  rw [Nat.mod_eq_of_lt (by omega : c.toNat - 2 < 2 ^ 32),
    Nat.mod_eq_of_lt (by omega : (c.toNat - 2) * v.spc.toNat < 2 ^ 32)]
  exact Nat.mod_eq_of_lt (by omega)

theorem clusOff_eq {c : BitVec 16} (hc : 2 ≤ c) : clusOff fs c = (clusLba v c).toNat * 512 := by
  unfold clusOff
  rw [clusLba_toNat same hc, same.data, same.spc, same.bps, Nat.add_mul, Nat.mul_assoc]

theorem ppFatNext_eq {c : BitVec 16} (hc : InTable v c) : ppFatNext fs c = rd16 v.fat (2 * c.toNat) := by
  have hin : 2 * c.toNat + 2 ≤ v.fat.length := hc
  have hread : (HostFile.read v.f fs.fatOff v.fat.length).length = v.fat.length :=
    (congrArg List.length same.table).symm
  rw [read_length] at hread
  have hget : ppReadAt fs.f (fs.fatOff + c.toNat * 2) 2 = some ((v.fat.drop (2 * c.toNat)).take 2) := by
    rw [Nat.mul_comm c.toNat, ← same.file, readAt_some (by omega), ← read_slice _ _ hin, ← same.table]
  unfold ppFatNext
  rw [hget]
  exact rd16_row v.fat (by decide)

end

/-- What `pp_dir_find` of `photoplay.c` finds in one stretch of a directory. -/
def hit (v : Volume) (c : BitVec 16) (name : List Byte) : Option ℕ :=
  findEntry name (sectors v.f (dirLba v c) (dirSecs v c)) (dirSecs v c * 512 / 32).toNat

def next (v : Volume) (c : BitVec 16) : BitVec 16 := rd16 v.fat (2 * c.toNat)

structure Held (v : Volume) (c : BitVec 16) : Prop where
  room : (dirSecs v c).toNat * 512 ≤ (v.spc * 512).toNat
  whole : (dirLba v c).toNat * 512 + (dirSecs v c).toNat * 512 ≤ v.f.len
  table : c = 0 ∨ InTable v c

/-- The search for `name` in the directory at `c` comes to its stretch `k`. -/
def Reached (v : Volume) (name : List Byte) (c : BitVec 16) (k : ℕ) : Prop :=
  ∀ j < k, chainAt v c j ≠ 0 ∧ hit v (chainAt v c j) name = none ∧
    2 ≤ chainAt v c (j + 1) ∧ chainAt v c (j + 1) < 0xFFF0

theorem reached_zero (v : Volume) (name : List Byte) (c : BitVec 16) : Reached v name c 0 :=
  fun j hj => absurd hj (Nat.not_lt_zero j)

theorem reached_succ (v : Volume) (name : List Byte) (c : BitVec 16) (k : ℕ) :
    Reached v name c (k + 1) ↔
      (c ≠ 0 ∧ hit v c name = none ∧ 2 ≤ next v c ∧ next v c < 0xFFF0) ∧ Reached v name (next v c) k := by
  constructor
  · intro h
    refine ⟨h 0 (Nat.succ_pos k), ?_⟩
    intro j hj
    have hstep := h (j + 1) (Nat.succ_lt_succ hj)
    rw [chainAt_succ, chainAt_succ] at hstep
    exact hstep
  · intro ⟨hfirst, hrest⟩ j hj
    cases j with
    | zero => exact hfirst
    | succ j =>
      rw [chainAt_succ, chainAt_succ]
      exact hrest j (Nat.lt_of_succ_lt_succ hj)

theorem dirLoop_pass {v : Volume} {name : List Byte} {guard : ℕ} {c : BitVec 16} (hheld : Held v c)
    (hmiss : hit v c name = none) :
    dirLoop v name (guard + 1) c =
      if c = 0 ∨ next v c < 2 ∨ 0xFFF0 ≤ next v c then .ok none else dirLoop v name guard (next v c) := by
  rw [dirLoop, secRead_some v.f _ hheld.room ((read_length _ _ _).trans (by have := hheld.whole; omega)), ok_bind]
  dsimp only
  unfold hit at hmiss
  rw [hmiss]
  by_cases hc : c = 0
  · rw [if_pos hc, if_pos (Or.inl hc)]
    rfl
  · have hget : fatGet v c = .ok (next v c) := if_pos (hheld.table.resolve_left hc)
    rw [if_neg hc, hget, ok_bind]
    dsimp only
    by_cases hend : next v c < 2 ∨ 0xFFF0 ≤ next v c
    · rw [if_pos hend, if_pos (Or.inr hend)]
    · rw [if_neg hend, if_neg (not_or.mpr ⟨hc, hend⟩)]

theorem dirLoop_found {v : Volume} {name : List Byte} {guard k i : ℕ} {c : BitVec 16} (hk : k < guard)
    (hreached : Reached v name c k) (hheld : ∀ j ≤ k, Held v (chainAt v c j))
    (hhit : hit v (chainAt v c k) name = some i) :
    dirLoop v name guard c = .ok (some (entryAt v (chainAt v c k)
      (sectors v.f (dirLba v (chainAt v c k)) (dirSecs v (chainAt v c k))) i)) := by
  induction k generalizing guard c with
  | zero =>
    cases guard with
    | zero => exact absurd hk (Nat.not_lt_zero 0)
    | succ guard =>
      change hit v c name = some i at hhit
      have hheld : Held v c := hheld 0 (Nat.le_refl 0)
      change _ = Except.ok (some (entryAt v c (sectors v.f (dirLba v c) (dirSecs v c)) i))
      rw [dirLoop, secRead_some v.f _ hheld.room ((read_length _ _ _).trans (by have := hheld.whole; omega)), ok_bind]
      dsimp only
      unfold hit at hhit
      rw [hhit]
      by_cases hc : c = 0
      · rw [if_pos hc]
        rfl
      · have hget : fatGet v c = .ok (next v c) := if_pos (hheld.table.resolve_left hc)
        rw [if_neg hc, hget, ok_bind]
  | succ k ih =>
    cases guard with
    | zero => exact absurd hk (Nat.not_lt_zero _)
    | succ guard =>
      obtain ⟨⟨hc, hmiss, hlow, hhigh⟩, hrest⟩ := (reached_succ v name c k).mp hreached
      have hgo : ¬ (c = 0 ∨ next v c < 2 ∨ 0xFFF0 ≤ next v c) :=
        not_or.mpr ⟨hc, not_or.mpr ⟨BitVec.not_lt.mpr hlow, BitVec.not_le.mpr hhigh⟩⟩
      have hfirst : Held v c := hheld 0 (Nat.zero_le _)
      rw [dirLoop_pass hfirst hmiss, if_neg hgo]
      rw [chainAt_succ] at hhit ⊢
      refine ih (Nat.lt_of_succ_lt_succ hk) hrest ?_ hhit
      intro j hj
      have hnext := hheld (j + 1) (Nat.succ_le_succ hj)
      rwa [chainAt_succ] at hnext

theorem dirLoop_none {v : Volume} {name : List Byte} {guard : ℕ} {c : BitVec 16}
    (h : ∀ k < guard, Reached v name c k → Held v (chainAt v c k) ∧ hit v (chainAt v c k) name = none) :
    dirLoop v name guard c = .ok none := by
  induction guard generalizing c with
  | zero => rfl
  | succ guard ih =>
    obtain ⟨hheld, hmiss⟩ := h 0 (Nat.succ_pos guard) (reached_zero v name c)
    change Held v c at hheld
    change hit v c name = none at hmiss
    rw [dirLoop_pass hheld hmiss]
    by_cases hend : c = 0 ∨ next v c < 2 ∨ 0xFFF0 ≤ next v c
    · rw [if_pos hend]
    · rw [if_neg hend]
      rw [not_or, not_or, BitVec.not_lt, BitVec.not_le] at hend
      refine ih ?_
      intro k hk hreached
      have hstep := h (k + 1) (Nat.succ_lt_succ hk) ((reached_succ v name c k).mpr ⟨⟨hend.1, hmiss, hend.2⟩, hreached⟩)
      rwa [chainAt_succ] at hstep

structure Stretch (fs : PhotoplayIdent.PpFat) (v : Volume) (c : BitVec 16) (off n : ℕ) : Prop where
  off : off = (dirLba v c).toNat * 512
  count : n = (dirSecs v c * 512 / 32).toNat
  span : 32 * n = (dirSecs v c).toNat * 512

theorem secs_count {n : BitVec 32} (h : n.toNat ≤ 4095) : (n * 512 / 32).toNat = n.toNat * 16 := by
  rw [BitVec.toNat_udiv, BitVec.toNat_mul, (by decide : (512 : BitVec 32).toNat = 512),
    (by decide : (32 : BitVec 32).toNat = 32), Nat.mod_eq_of_lt (by omega)]
  omega

section
variable {fs : PhotoplayIdent.PpFat} {v : Volume} (same : Same fs v)
include same

theorem stretch_clus {c : BitVec 16} (hc : 2 ≤ c) :
    Stretch fs v c (clusOff fs c) (fs.spc * fs.bps / 32) := by
  have hne : c ≠ 0 := by
    rintro rfl
    exact absurd hc (by decide)
  have hlow := same.low
  refine ⟨?_, ?_, ?_⟩
  · rw [clusOff_eq same hc]
    unfold dirLba
    rw [if_pos hne]
  · unfold dirSecs
    rw [if_pos hne, secs_count (by omega), same.spc, same.bps]
    omega
  · unfold dirSecs
    rw [if_pos hne, same.spc, same.bps]
    omega

theorem stretch_root : Stretch fs v 0 fs.rootOff fs.rootEnts := by
  refine ⟨same.root, ?_, ?_⟩
  · change _ = (v.rootSecs * 512 / 32).toNat
    rw [secs_count same.secs, same.ents]
  · change _ = v.rootSecs.toNat * 512
    rw [same.ents]
    omega

end

section
variable {fs : PhotoplayIdent.PpFat} {v : Volume} {c : BitVec 16} {off n : ℕ} (stretch : Stretch fs v c off n)
include stretch

theorem ent_row {i : ℕ} (hi : i < n) :
    ent v.f off i = ((sectors v.f (dirLba v c) (dirSecs v c)).drop (32 * i)).take 32 := by
  have hspan := stretch.span
  unfold sectors ent
  rw [read_slice _ _ (by omega), stretch.off]

theorem isEntry_ent (name : List Byte) {i : ℕ} (hi : i < n) :
    isEntry name (ent v.f off i) = isEntry name ((sectors v.f (dirLba v c) (dirSecs v c)).drop (32 * i)) := by
  rw [ent_row stretch hi, isEntry_part]

theorem hit_none {name : List Byte} (h : hit v c name = none) {i : ℕ} (hi : i < n) :
    isEntry name (ent v.f off i) = false := by
  unfold hit findEntry at h
  rw [← stretch.count] at h
  rw [isEntry_ent stretch name hi]
  exact eq_false_of_ne_true (List.find?_eq_none.mp h i (List.mem_range.mpr hi))

theorem hit_some {name : List Byte} {i : ℕ} (h : hit v c name = some i) :
    i < n ∧ isEntry name (ent v.f off i) = true ∧ ∀ j < i, isEntry name (ent v.f off j) = false := by
  unfold hit findEntry at h
  rw [← stretch.count] at h
  obtain ⟨hhit, hi, hbefore⟩ := List.find?_range_eq_some.mp h
  rw [List.mem_range] at hi
  refine ⟨hi, (isEntry_ent stretch name hi).trans hhit, ?_⟩
  intro j hj
  rw [isEntry_ent stretch name (Nat.lt_trans hj hi)]
  exact eq_false_of_ne_true (by simpa using hbefore j hj)

theorem entryAt_findOf {i : ℕ} (hi : i < n) :
    (findOf (ent v.f off i)).clus = (entryAt v c (sectors v.f (dirLba v c) (dirSecs v c)) i).cl ∧
    (findOf (ent v.f off i)).size = (entryAt v c (sectors v.f (dirLba v c) (dirSecs v c)) i).size := by
  unfold findOf entryAt
  dsimp only
  rw [ent_row stretch hi, rd16_row _ (by decide), rd32_row _ (by decide)]
  exact ⟨rfl, rfl⟩

theorem ent_getD {i j : ℕ} (hi : i < n) (hj : j < 32) :
    (ent v.f off i).getD j 0 = (sectors v.f (dirLba v c) (dirSecs v c)).getD (32 * i + j) 0 := by
  rw [ent_row stretch hi, getD_row _ hj]

end

/-- No entry before entry `n` is the mark of the end. -/
def Unmarked (v : Volume) (c : BitVec 16) (n : ℕ) : Prop :=
  ∀ i < n, (sectors v.f (dirLba v c) (dirSecs v c)).getD (32 * i) 0 ≠ 0

/-- Entry `i` of stretch `k` comes before the mark and is no part of a long name. -/
structure Plain (v : Volume) (c : BitVec 16) (k i : ℕ) : Prop where
  before : ∀ j < k, Unmarked v (chainAt v c j) (dirSecs v (chainAt v c j) * 512 / 32).toNat
  here : Unmarked v (chainAt v c k) i
  short : (sectors v.f (dirLba v (chainAt v c k)) (dirSecs v (chainAt v c k))).getD (32 * i + 11) 0 ≠ 0x0F

theorem plain_succ {v : Volume} {c : BitVec 16} {k i : ℕ} (h : Plain v c (k + 1) i) :
    Unmarked v c (dirSecs v c * 512 / 32).toNat ∧ Plain v (next v c) k i := by
  refine ⟨h.before 0 (Nat.succ_pos k), ?_, ?_, ?_⟩
  · intro j hj
    have hnext := h.before (j + 1) (Nat.succ_lt_succ hj)
    rwa [chainAt_succ] at hnext
  · have hhere := h.here
    rwa [chainAt_succ] at hhere
  · have hshort := h.short
    rwa [chainAt_succ] at hshort

structure Twin (v : Volume) (h : Found) (q : PpFind) : Prop where
  clus : q.clus = h.cl
  size : q.size = h.size
  isdir : q.isdir = decide (v.f.byte (h.pos + 11) &&& 0x10 ≠ 0)

section
variable {fs : PhotoplayIdent.PpFat} {v : Volume} (same : Same fs v)
include same

theorem stretch_found {c : BitVec 16} {off n i : ℕ} (stretch : Stretch fs v c off n) (hheld : Held v c)
    {name : List Byte} (hhit : hit v c name = some i) (hplain : Plain v c 0 i) :
    ∃ q, entries fs.f (ppFindCb name) n off = .found q ∧
      Twin v (entryAt v c (sectors v.f (dirLba v c) (dirSecs v c)) i) q := by
  have hspan := stretch.span
  have hwhole := hheld.whole
  have hoff := stretch.off
  obtain ⟨hi, hentry, hbefore⟩ := hit_some stretch hhit
  have hhere : Unmarked v c i := hplain.here
  have hshort : (ent v.f off i).getD 11 0 ≠ 0x0F := by
    rw [ent_getD stretch hi (by decide)]
    exact hplain.short
  refine ⟨findOf (ent v.f off i), ?_, ?_, ?_, ?_⟩
  · rw [← same.file]
    refine entries_found hi (by omega) ?_ hentry hshort
    intro j hj
    refine ⟨hbefore j hj, ?_⟩
    rw [ent_getD stretch (Nat.lt_trans hj hi) (by decide)]
    exact hhere j hj
  · exact (entryAt_findOf stretch hi).1
  · exact (entryAt_findOf stretch hi).2
  · unfold findOf entryAt ent
    dsimp only
    rw [read_getD _ _ _ _ (by omega), hoff]

theorem stretch_on {c : BitVec 16} {off n : ℕ} (stretch : Stretch fs v c off n) (hheld : Held v c)
    {name : List Byte} (hmiss : hit v c name = none) (hmarks : Unmarked v c n) :
    entries fs.f (ppFindCb name) n off = .on := by
  have hspan := stretch.span
  have hwhole := hheld.whole
  have hoff := stretch.off
  rw [← same.file]
  refine entries_on (by omega) ?_
  intro j hj
  refine ⟨hit_none stretch hmiss hj, ?_⟩
  rw [ent_getD stretch hj (by decide)]
  exact hmarks j hj

theorem stretch_miss {c : BitVec 16} {off n : ℕ} (stretch : Stretch fs v c off n) (hheld : Held v c)
    {name : List Byte} (hmiss : hit v c name = none) :
    entries fs.f (ppFindCb name) n off = .past ∨ entries fs.f (ppFindCb name) n off = .on := by
  have hspan := stretch.span
  have hwhole := hheld.whole
  have hoff := stretch.off
  rw [← same.file]
  exact entries_miss (by omega) fun j hj => hit_none stretch hmiss hj

theorem clusLoop_found {name : List Byte} {guard k i : ℕ} {c : BitVec 16} (hc : 2 ≤ c ∧ c < 0xFFF0) (hk : k < guard)
    (hreached : Reached v name c k) (hheld : ∀ j ≤ k, Held v (chainAt v c j))
    (hhit : hit v (chainAt v c k) name = some i) (hplain : Plain v c k i) :
    ∃ q, clusLoop fs (ppFindCb name) guard c = some q ∧
      Twin v (entryAt v (chainAt v c k) (sectors v.f (dirLba v (chainAt v c k)) (dirSecs v (chainAt v c k))) i) q := by
  induction k generalizing guard c with
  | zero =>
    cases guard with
    | zero => exact absurd hk (Nat.not_lt_zero 0)
    | succ guard =>
      have hfirst : Held v c := hheld 0 (Nat.le_refl 0)
      obtain ⟨q, hfound, htwin⟩ := stretch_found same (stretch_clus same hc.1) hfirst hhit hplain
      refine ⟨q, ?_, htwin⟩
      unfold clusLoop
      rw [if_pos hc, hfound]
  | succ k ih =>
    cases guard with
    | zero => exact absurd hk (Nat.not_lt_zero _)
    | succ guard =>
      have hfirst : Held v c := hheld 0 (Nat.zero_le _)
      obtain ⟨⟨hne, hmiss, hnext⟩, hrest⟩ := (reached_succ v name c k).mp hreached
      obtain ⟨hmarks, hplain⟩ := plain_succ hplain
      have stretch := stretch_clus same hc.1
      rw [← stretch.count] at hmarks
      unfold clusLoop
      rw [if_pos hc, stretch_on same stretch hfirst hmiss hmarks,
        ppFatNext_eq same (hfirst.table.resolve_left hne)]
      rw [chainAt_succ] at hhit ⊢
      refine ih hnext (Nat.lt_of_succ_lt_succ hk) hrest ?_ hhit hplain
      intro j hj
      have hlater := hheld (j + 1) (Nat.succ_le_succ hj)
      rwa [chainAt_succ] at hlater

theorem clusLoop_none {name : List Byte} {guard : ℕ} {c : BitVec 16}
    (h : ∀ k, Reached v name c k → Held v (chainAt v c k) ∧ hit v (chainAt v c k) name = none) :
    clusLoop fs (ppFindCb name) guard c = none := by
  induction guard generalizing c with
  | zero => rfl
  | succ guard ih =>
    obtain ⟨hheld, hmiss⟩ := h 0 (reached_zero v name c)
    change Held v c at hheld
    change hit v c name = none at hmiss
    unfold clusLoop
    by_cases hc : 2 ≤ c ∧ c < 0xFFF0
    · have hne : c ≠ 0 := by
        rintro rfl
        exact absurd hc.1 (by decide)
      rw [if_pos hc]
      rcases stretch_miss same (stretch_clus same hc.1) hheld hmiss with hover | hon
      · rw [hover]
      · rw [hon, ppFatNext_eq same (hheld.table.resolve_left hne)]
        dsimp only
        by_cases hnext : 2 ≤ next v c ∧ next v c < 0xFFF0
        · refine ih ?_
          intro k hreached
          have hstep := h (k + 1) ((reached_succ v name c k).mpr ⟨⟨hne, hmiss, hnext⟩, hreached⟩)
          rwa [chainAt_succ] at hstep
        · cases guard with
          | zero => rfl
          | succ guard =>
            unfold clusLoop
            exact if_neg hnext
    · exact if_neg hc

end

/-- A directory as DOS leaves it, as far as the search for `name` goes: all its clusters are among the
first 64, and an entry of that name is before the mark of the end. -/
structure Searchable (v : Volume) (c : BitVec 16) (name : List Byte) : Prop where
  start : c = 0 ∨ 2 ≤ c ∧ c < 0xFFF0
  held : ∀ k < 64, Reached v name c k → Held v (chainAt v c k)
  near : ∀ m, Reached v name c m → ∃ k < 64, Reached v name c k ∧ chainAt v c k = chainAt v c m
  plain : ∀ k < 64, ∀ i, Reached v name c k → hit v (chainAt v c k) name = some i → Plain v c k i

theorem reached_before {v : Volume} {name : List Byte} {c : BitVec 16} {k j : ℕ} (h : Reached v name c k) (hj : j ≤ k) :
    Reached v name c j :=
  fun i hi => h i (Nat.lt_of_lt_of_le hi hj)

theorem reached_root {v : Volume} {name : List Byte} {k : ℕ} (h : Reached v name 0 k) : k = 0 := by
  cases k with
  | zero => rfl
  | succ k => exact absurd rfl (h 0 (Nat.succ_pos k)).1

theorem find_agrees {fs : PhotoplayIdent.PpFat} {v : Volume} (same : Same fs v) {c : BitVec 16} {name : List Byte}
    (h : Searchable v c name) :
    (∃ found q, dirFind v c name = .ok (some found) ∧ ppDirFind fs c name = some q ∧ Twin v found q) ∨
    (dirFind v c name = .ok none ∧ ppDirFind fs c name = none) := by
  by_cases hsome : ∃ k < 64, Reached v name c k ∧ ∃ i, hit v (chainAt v c k) name = some i
  · obtain ⟨k, hk, hreached, i, hhit⟩ := hsome
    have hheld : ∀ j ≤ k, Held v (chainAt v c j) :=
      fun j hj => h.held j (Nat.lt_of_le_of_lt hj hk) (reached_before hreached hj)
    have hplain := h.plain k hk i hreached hhit
    have hdevice := dirLoop_found hk hreached hheld hhit
    rcases h.start with rfl | hc
    · obtain rfl := reached_root hreached
      obtain ⟨q, hfound, htwin⟩ := stretch_found same (stretch_root same) (hheld 0 (Nat.le_refl 0)) hhit hplain
      refine Or.inl ⟨_, q, hdevice, ?_, htwin⟩
      unfold ppDirFind ppDirEach
      rw [if_pos rfl, hfound]
    · have hne : c ≠ 0 := by
        rintro rfl
        exact absurd hc.1 (by decide)
      obtain ⟨q, hfound, htwin⟩ := clusLoop_found same hc (Nat.lt_trans hk (by decide : 64 < 65536)) hreached hheld hhit hplain
      refine Or.inl ⟨_, q, hdevice, ?_, htwin⟩
      unfold ppDirFind ppDirEach
      rw [if_neg hne, hfound]
  · have hnone : ∀ k < 64, Reached v name c k → Held v (chainAt v c k) ∧ hit v (chainAt v c k) name = none := by
      intro k hk hreached
      refine ⟨h.held k hk hreached, ?_⟩
      cases hhit : hit v (chainAt v c k) name with
      | none => rfl
      | some i => exact absurd ⟨k, hk, hreached, i, hhit⟩ hsome
    refine Or.inr ⟨dirLoop_none hnone, ?_⟩
    have hall : ∀ m, Reached v name c m → Held v (chainAt v c m) ∧ hit v (chainAt v c m) name = none := by
      intro m hreached
      obtain ⟨k, hk, hreached', hsame⟩ := h.near m hreached
      rw [← hsame]
      exact hnone k hk hreached'
    unfold ppDirFind ppDirEach
    rcases h.start with rfl | hc
    · obtain ⟨hheld, hmiss⟩ := hall 0 (reached_zero v name 0)
      rw [if_pos rfl]
      rcases stretch_miss same (stretch_root same) hheld hmiss with hover | hon
      · rw [hover]
      · rw [hon]
    · have hne : c ≠ 0 := by
        rintro rfl
        exact absurd hc.1 (by decide)
      rw [if_neg hne]
      exact clusLoop_none same hall

/-- The text that the device makes of a file. -/
def shown (b : List Byte) : Option (List Byte) :=
  if PhotoplayFat.trim b = [] then none else some (PhotoplayFat.trim b)

/-- A file of one cluster that is there, for a buffer of `sz` bytes and a cap. -/
structure Small (v : Volume) (h : Found) (sz cap : ℕ) : Prop where
  clus : h.cl < 0xFFF0
  whole : 2 ≤ h.cl → Whole v h.cl
  cluster : h.size.toNat ≤ v.spc.toNat * 512
  buffer : h.size.toNat ≤ sz - 1
  cap : h.size.toNat ≤ cap

theorem chain_agrees {fs : PhotoplayIdent.PpFat} {v : Volume} (same : Same fs v) {h : Found} {sz cap : ℕ}
    (hsmall : Small v h sz cap) :
    ppReadChain fs h.cl h.size.toNat cap =
      if h.cl < 2 ∨ h.size = 0 then none
      else some (HostFile.read v.f ((clusLba v h.cl).toNat * 512) h.size.toNat) := by
  have hzero : h.size.toNat = 0 ↔ h.size = 0 := by
    rw [BitVec.toNat_eq]
    rfl
  unfold ppReadChain
  by_cases hempty : h.size = 0
  · rw [if_pos (Or.inr hempty), if_pos (Or.inl (hzero.mpr hempty))]
  have hpos : 0 < h.size.toNat := Nat.pos_of_ne_zero fun hz => hempty (hzero.mp hz)
  rw [if_neg (not_or.mpr ⟨Nat.ne_of_gt hpos, Nat.not_lt.mpr hsmall.cap⟩)]
  unfold chainLoop
  by_cases hlow : h.cl < 2
  · rw [if_pos (Or.inl hlow), if_neg fun hall => absurd hall.2.1 (BitVec.not_le.mpr hlow), if_pos]
    exact hpos
  · have hlow' : 2 ≤ h.cl := BitVec.not_lt.mp hlow
    have hwhole := hsmall.whole hlow'
    unfold Whole sectors at hwhole
    rw [read_length] at hwhole
    have hcluster := hsmall.cluster
    have hwant : min (h.size.toNat - ([] : List Byte).length) (fs.spc * fs.bps) = h.size.toNat := by
      rw [same.spc, same.bps, List.length_nil]
      omega
    have hlength : (HostFile.read v.f ((clusLba v h.cl).toNat * 512) h.size.toNat).length = h.size.toNat := by
      rw [read_length]
      omega
    rw [if_neg (not_or.mpr ⟨hlow, hempty⟩), if_pos ⟨hpos, hlow', hsmall.clus⟩, hwant, clusOff_eq same hlow',
      ← same.file, readAt_some (by omega)]
    dsimp only
    rw [List.nil_append]
    unfold chainLoop
    rw [hlength, if_neg fun hall => Nat.lt_irrefl _ hall.1, if_neg (Nat.lt_irrefl _)]

theorem file_agrees {fs : PhotoplayIdent.PpFat} {v : Volume} (same : Same fs v) {c : BitVec 16} {name : List Byte}
    {h : Found} {sz cap : ℕ} (hfound : dirFind v c name = .ok (some h)) (hsmall : Small v h sz cap) :
    PhotoplayFat.ppReadSmall v c name sz = .ok ((ppReadChain fs h.cl h.size.toNat cap).bind shown) := by
  rw [chain_agrees same hsmall]
  unfold PhotoplayFat.ppReadSmall
  rw [hfound, ok_bind]
  dsimp only
  by_cases hnone : h.cl < 2 ∨ h.size = 0
  · rw [if_pos hnone, if_pos hnone]
    rfl
  · rw [if_neg hnone, if_neg hnone]
    rw [not_or, BitVec.not_lt] at hnone
    have hroom : (v.spc * 512).toNat = v.spc.toNat * 512 := cluster_room same.low
    have hwhole := hsmall.whole hnone.1
    have hcluster := hsmall.cluster
    have htake : (sectors v.f (clusLba v h.cl) v.spc).take h.size.toNat =
        HostFile.read v.f ((clusLba v h.cl).toNat * 512) h.size.toNat := by
      have hpart := read_slice v.f ((clusLba v h.cl).toNat * 512) (Nat.zero_add h.size.toNat ▸ hcluster)
      rwa [List.drop_zero, Nat.add_zero] at hpart
    rw [secRead_some v.f _ (Nat.le_of_eq hroom.symm) hwhole, ok_bind]
    dsimp only
    rw [Nat.min_eq_left hsmall.buffer, if_neg (by omega), htake]
    rfl

structure DeviceOpened (f : File) (v : PhotoplayFat.PpFat) : Prop where
  low : v.part ≤ 1 <<< 24
  file : v.f = f
  spc : v.spc = ((sectors f v.part 1).getD 0x0D 0).setWidth 32
  fatLba : v.fatLba = v.part + (rd16 (sectors f v.part 1) 0x0E).setWidth 32
  rootLba : v.rootLba = v.fatLba +
    ((sectors f v.part 1).getD 0x10 0).setWidth 32 * (rd16 (sectors f v.part 1) 0x16).setWidth 32
  rootSecs : v.rootSecs = (rd16 (sectors f v.part 1) 0x11).setWidth 32 * 32 / 512
  dataLba : v.dataLba = v.rootLba + v.rootSecs
  table : ∃ spf : BitVec 32, v.fat = sectors f v.fatLba spf ∧ v.fat.length = spf.toNat * 512

theorem device_opened {f : File} {v : PhotoplayFat.PpFat} (h : PhotoplayFat.ppFatOpen f = .ok (some v)) :
    DeviceOpened f v := by
  unfold PhotoplayFat.ppFatOpen at h
  obtain ⟨-, h⟩ := secRead_inv (by decide) h rfl
  dsimp only at h
  split at h
  · cases h
  split at h
  · cases h
  rename_i hpart
  rw [not_or, BitVec.not_lt] at hpart
  obtain ⟨-, h⟩ := secRead_inv (by decide) h rfl
  dsimp only at h
  split at h
  · cases h
  obtain ⟨htable, h⟩ := secRead_inv (table_room _) h rfl
  obtain rfl := Option.some.inj (Except.ok.inj h)
  exact ⟨hpart.2, rfl, rfl, rfl, rfl, rfl, rfl, _, rfl, htable⟩

structure IdentOpened (f : File) (fs : PhotoplayIdent.PpFat) (sec : List Byte) : Prop where
  boot : sec = HostFile.read f fs.partOff 512
  file : fs.f = f
  bps : fs.bps = 512
  spc : fs.spc = (sec.getD 0x0D 0).toNat
  fatOff : fs.fatOff = fs.partOff + (rd16 sec 0x0E).toNat * 512
  rootOff : fs.rootOff = fs.fatOff + (sec.getD 0x10 0).toNat * (rd16 sec 0x16).toNat * 512
  rootEnts : fs.rootEnts = (rd16 sec 0x11).toNat
  dataOff : fs.dataOff = fs.rootOff + (fs.rootEnts * 32 + 511) / 512 * 512

theorem readAt_inv {f : File} {off n : ℕ} {bs : List Byte} (h : ppReadAt f off n = some bs) :
    bs = HostFile.read f off n := by
  unfold ppReadAt at h
  split at h
  · exact (Option.some.inj h).symm
  · cases h

theorem ident_opened {f : File} {fs : PhotoplayIdent.PpFat} (h : PhotoplayIdent.ppFatOpen f = some fs) :
    ∃ sec, IdentOpened f fs sec := by
  unfold PhotoplayIdent.ppFatOpen at h
  obtain ⟨mbr, hmbr, h⟩ := Option.bind_eq_some_iff.mp h
  obtain ⟨sec, hsec, h⟩ := Option.bind_eq_some_iff.mp h
  dsimp only at h
  generalize (if rd16 sec 0x13 = 0 then (rd32 sec 0x20).toNat else (rd16 sec 0x13).toNat) = totsec at h
  split at h
  · cases h
  rename_i hgood
  rw [not_or, not_not] at hgood
  have hbps : (rd16 sec 0x0B).toNat = 512 := hgood.1
  rw [hbps] at h
  obtain rfl := Option.some.inj h
  exact ⟨sec, readAt_inv hsec, rfl, rfl, rfl, rfl, rfl, rfl, rfl⟩

theorem same_layout {f : File} {fs : PhotoplayIdent.PpFat} {v : PhotoplayFat.PpFat}
    (hident : PhotoplayIdent.ppFatOpen f = some fs) (hdevice : PhotoplayFat.ppFatOpen f = .ok (some v))
    (hpart : fs.partOff = v.part.toNat * 512) (hroot : fs.rootEnts % 16 = 0) : Same fs v.toVolume := by
  obtain ⟨sec, hi⟩ := ident_opened hident
  have hd := device_opened hdevice
  have hboot : sec = sectors f v.part 1 := by
    rw [hi.boot, hpart]
    rfl
  subst hboot
  have hlow : v.part.toNat ≤ 2 ^ 24 := hd.low
  generalize hsec : sectors f v.part 1 = sec at *
  have hspc := (sec.getD 0x0D 0).isLt
  have hrsvd := (rd16 sec 0x0E).isLt
  have hnfat := (sec.getD 0x10 0).isLt
  have hspf := (rd16 sec 0x16).isLt
  have hents := (rd16 sec 0x11).isLt
  have htables : (sec.getD 0x10 0).toNat * (rd16 sec 0x16).toNat ≤ 255 * 65535 :=
    Nat.mul_le_mul (by omega) (by omega)
  have hfatLba : v.fatLba.toNat = v.part.toNat + (rd16 sec 0x0E).toNat := by
    rw [hd.fatLba, hsec, BitVec.toNat_add, BitVec.toNat_setWidth]
    omega
  have hrootLba : v.rootLba.toNat = v.fatLba.toNat + (sec.getD 0x10 0).toNat * (rd16 sec 0x16).toNat := by
    rw [hd.rootLba, hsec, BitVec.toNat_add, BitVec.toNat_mul, BitVec.toNat_setWidth, BitVec.toNat_setWidth,
      Nat.mod_eq_of_lt (by omega : (sec.getD 0x10 0).toNat < 2 ^ 32),
      Nat.mod_eq_of_lt (by omega : (rd16 sec 0x16).toNat < 2 ^ 32)]
    omega
  have hrootSecs : v.rootSecs.toNat = (rd16 sec 0x11).toNat / 16 := by
    rw [hd.rootSecs, hsec, BitVec.toNat_udiv, BitVec.toNat_mul, BitVec.toNat_setWidth,
      (by decide : (512 : BitVec 32).toNat = 512), (by decide : (32 : BitVec 32).toNat = 32)]
    omega
  have hdataLba : v.dataLba.toNat = v.rootLba.toNat + v.rootSecs.toNat := by
    rw [hd.dataLba, BitVec.toNat_add]
    omega
  have hspcNat : v.spc.toNat = (sec.getD 0x0D 0).toNat := by
    rw [hd.spc, hsec, BitVec.toNat_setWidth]
    omega
  obtain ⟨spf, hfat, hlength⟩ := hd.table
  have hentsEq := hi.rootEnts
  have hfatOff : fs.fatOff = v.fatLba.toNat * 512 := by
    rw [hi.fatOff, hpart, hfatLba, Nat.add_mul]
  have hrootOff : fs.rootOff = v.rootLba.toNat * 512 := by
    rw [hi.rootOff, hfatOff, hrootLba, Nat.add_mul]
  refine ⟨hd.file.trans hi.file.symm, hi.bps, hi.spc.trans hspcNat.symm, by omega, hrootOff, by omega, by omega,
    ?_, by omega, ?_⟩
  · rw [hi.dataOff, hrootOff, hdataLba, Nat.add_mul]
    omega
  · rw [hlength, hfat, hfatOff, hd.file]
    rfl

/-- The device's way to a file: through its directories by `pp_dir_find`, the last step by
`pp_read_small`. -/
def readSmallPath (v : Volume) (sz : ℕ) : BitVec 16 → List (List Byte) → Except Fault (Option (List Byte))
  | _, [] => .ok none
  | c, [name] => PhotoplayFat.ppReadSmall v c name sz
  | c, name :: rest => do
    let some found ← dirFind v c name | .ok none
    readSmallPath v sz found.cl rest

/-- Every search of the path is among plain entries, what it goes through are directories, and what it
ends with is a small file. -/
def PlainPath (v : Volume) (sz cap : ℕ) : BitVec 16 → List (List Byte) → Prop
  | _, [] => True
  | c, [name] => Searchable v c name ∧ ∀ found, dirFind v c name = .ok (some found) →
      v.f.byte (found.pos + 11) &&& 0x10 = 0 ∧ Small v found sz cap
  | c, name :: rest => Searchable v c name ∧ ∀ found, dirFind v c name = .ok (some found) →
      v.f.byte (found.pos + 11) &&& 0x10 ≠ 0 ∧ PlainPath v sz cap found.cl rest

theorem path_agrees {fs : PhotoplayIdent.PpFat} {v : Volume} (same : Same fs v) {sz cap : ℕ}
    (path : List (List Byte)) {c : BitVec 16} (h : PlainPath v sz cap c path) :
    readSmallPath v sz c path = .ok ((readPath fs cap c path).bind shown) := by
  induction path generalizing c with
  | nil => rfl
  | cons name rest ih =>
    cases rest with
    | nil =>
      obtain ⟨hsearch, hfile⟩ := h
      unfold readSmallPath readPath
      rcases find_agrees same hsearch with ⟨found, q, hfound, hq, htwin⟩ | ⟨hmiss, hq⟩
      · obtain ⟨hattr, hsmall⟩ := hfile found hfound
        have hisdir : q.isdir = false := by
          rw [htwin.isdir, hattr]
          rfl
        rw [hq, file_agrees same hfound hsmall]
        change _ = Except.ok ((if q.isdir = true then none else _).bind shown)
        rw [hisdir, htwin.clus, htwin.size]
        rfl
      · rw [hq]
        unfold PhotoplayFat.ppReadSmall
        rw [hmiss]
        rfl
    | cons name' rest =>
      obtain ⟨hsearch, hdir⟩ := h
      unfold readSmallPath readPath
      rcases find_agrees same hsearch with ⟨found, q, hfound, hq, htwin⟩ | ⟨hmiss, hq⟩
      · obtain ⟨hattr, hplain⟩ := hdir found hfound
        have hisdir : q.isdir = true := by
          rw [htwin.isdir]
          exact decide_eq_true hattr
        rw [hq, hfound, ok_bind]
        dsimp only
        rw [ih hplain]
        change _ = Except.ok ((if q.isdir = false then none else readPath fs cap q.clus (name' :: rest)).bind shown)
        rw [hisdir, htwin.clus]
        rfl
      · rw [hq, hmiss]
        rfl

/-- The path leads to this entry. -/
def LeadsTo (v : Volume) (found : Found) : BitVec 16 → List (List Byte) → Prop
  | _, [] => False
  | c, [name] => dirFind v c name = .ok (some found)
  | c, name :: rest => ∃ dir, dirFind v c name = .ok (some dir) ∧ LeadsTo v found dir.cl rest

theorem path_reads {fs : PhotoplayIdent.PpFat} {v : Volume} (same : Same fs v) {sz cap : ℕ} {b : List Byte}
    (path : List (List Byte)) {c : BitVec 16} (h : PlainPath v sz cap c path) (hb : readPath fs cap c path = some b) :
    ∃ found, LeadsTo v found c path ∧ b = HostFile.read v.f ((clusLba v found.cl).toNat * 512) found.size.toNat ∧
      b.length = found.size.toNat := by
  induction path generalizing c with
  | nil => cases hb
  | cons name rest ih =>
    unfold readPath at hb
    obtain ⟨q, hq, hb⟩ := Option.bind_eq_some_iff.mp hb
    split at hb
    · cases hb
    cases rest with
    | nil =>
      obtain ⟨hsearch, hfile⟩ := h
      rcases find_agrees same hsearch with ⟨found, q', hfound, hq', htwin⟩ | ⟨-, hq'⟩
      · obtain rfl := Option.some.inj (hq.symm.trans hq')
        have hsmall := (hfile found hfound).2
        rw [if_pos rfl, htwin.clus, htwin.size, chain_agrees same hsmall] at hb
        by_cases hnone : found.cl < 2 ∨ found.size = 0
        · rw [if_pos hnone] at hb
          cases hb
        · rw [if_neg hnone] at hb
          obtain rfl := Option.some.inj hb
          refine ⟨found, hfound, rfl, ?_⟩
          rw [not_or, BitVec.not_lt] at hnone
          have hwhole := hsmall.whole hnone.1
          have hcluster := hsmall.cluster
          unfold Whole sectors at hwhole
          rw [read_length] at hwhole ⊢
          omega
      · rw [hq] at hq'
        cases hq'
    | cons name' rest =>
      obtain ⟨hsearch, hdir⟩ := h
      rcases find_agrees same hsearch with ⟨dir, q', hfound, hq', htwin⟩ | ⟨-, hq'⟩
      · obtain rfl := Option.some.inj (hq.symm.trans hq')
        rw [if_neg (List.cons_ne_nil _ _), htwin.clus] at hb
        obtain ⟨found, hleads, hread⟩ := ih (hdir dir hfound).2 hb
        exact ⟨found, ⟨dir, hfound, hleads⟩, hread⟩
      · rw [hq] at hq'
        cases hq'

/-- For a path that both lay out alike, the device shows what the other reader reads. -/
theorem readers_agree (f : File) (fs : PhotoplayIdent.PpFat) (v : PhotoplayFat.PpFat)
    (hident : PhotoplayIdent.ppFatOpen f = some fs) (hdevice : PhotoplayFat.ppFatOpen f = .ok (some v))
    (hpart : fs.partOff = v.part.toNat * 512) (hroot : fs.rootEnts % 16 = 0) (path : List (List Byte)) (sz cap : ℕ)
    (hplain : PlainPath v.toVolume sz cap 0 path) :
    readSmallPath v.toVolume sz 0 path = .ok ((photoplayReadFile f path cap).bind shown) ∧
    ∀ b, photoplayReadFile f path cap = some b → ∃ found, LeadsTo v.toVolume found 0 path ∧
      b = HostFile.read f ((clusLba v.toVolume found.cl).toNat * 512) found.size.toNat ∧ b.length = found.size.toNat := by
  have same := same_layout hident hdevice hpart hroot
  have hread : photoplayReadFile f path cap = readPath fs cap 0 path := by
    unfold photoplayReadFile
    rw [hident]
    rfl
  rw [hread]
  refine ⟨path_agrees same path hplain, ?_⟩
  intro b hb
  rw [← (device_opened hdevice).file]
  exact path_reads same path hplain hb

theorem searchable_first {v : Volume} {c : BitVec 16} {name : List Byte} (hstart : c = 0 ∨ 2 ≤ c ∧ c < 0xFFF0)
    (hheld : Held v c) (hend : c = 0 ∨ 0xFFF0 ≤ next v c)
    (hplain : ∀ i, hit v c name = some i → Plain v c 0 i) : Searchable v c name := by
  have hzero : ∀ k, Reached v name c k → k = 0 := by
    intro k hreached
    cases k with
    | zero => rfl
    | succ k =>
      obtain ⟨⟨hne, -, -, hnext⟩, -⟩ := (reached_succ v name c k).mp hreached
      exact absurd hnext (BitVec.not_lt.mpr (hend.resolve_left hne))
  refine ⟨hstart, ?_, ?_, ?_⟩
  · intro k _ hreached
    obtain rfl := hzero k hreached
    exact hheld
  · intro m hreached
    exact ⟨m, (hzero m hreached).symm ▸ (by decide : 0 < 64), hreached, rfl⟩
  · intro k _ i hreached hhit
    obtain rfl := hzero k hreached
    exact hplain i hhit

theorem find_first {v : Volume} {c : BitVec 16} {name : List Byte} {i : ℕ} (hheld : Held v c)
    (hhit : hit v c name = some i) :
    dirFind v c name = .ok (some (entryAt v c (sectors v.f (dirLba v c) (dirSecs v c)) i)) := by
  have hfirst : ∀ j ≤ 0, Held v (chainAt v c j) := by
    intro j hj
    obtain rfl := Nat.le_zero.mp hj
    exact hheld
  have hloop := dirLoop_found (by decide : 0 < 64) (reached_zero v name c) hfirst hhit
  unfold dirFind
  exact hloop

/-- `NSB.NR` in `MENU`, which is the second entry of the root directory; `first` begins the first one. -/
def numbered (first : Byte) : File :=
  image 3072
    [(0x1BE + 4, [6, 0, 0, 0, 1, 0, 0, 0]), (510, [0x55, 0xAA]),
      (512 + 0x0B, [0, 2, 1, 1, 0, 1, 16, 0, 16, 0, 0xF8, 1, 0]), (1028, [0xFF, 0xFF, 0xFF, 0xFF]),
      (1536, [first]), (1568, [0x4D, 0x45, 0x4E, 0x55, 0x20, 0x20, 0x20, 0x20, 0x20, 0x20, 0x20, 0x10]),
      (1568 + 0x1A, [2, 0]),
      (2048, [0x4E, 0x53, 0x42, 0x20, 0x20, 0x20, 0x20, 0x20, 0x4E, 0x52, 0x20]),
      (2048 + 0x1A, [3, 0, 4, 0]), (2560, [0x38, 0x37, 0x37, 0x38])]

def menu : List Byte := [0x4D, 0x45, 0x4E, 0x55, 0x20, 0x20, 0x20, 0x20, 0x20, 0x20, 0x20]
def nsbNr : List Byte := [0x4E, 0x53, 0x42, 0x20, 0x20, 0x20, 0x20, 0x20, 0x4E, 0x52, 0x20]

def numberedVolume (first : Byte) : PhotoplayFat.PpFat where
  f := numbered first
  spc := 1
  rootLba := 3
  rootSecs := 1
  dataLba := 4
  fat := sectors (numbered first) 2 1
  part := 1
  fatLba := 2
  nfat := 1
  spf := 1

theorem numbered_whole (first : Byte) {lba n : BitVec 32} (h : lba.toNat * 512 + n.toNat * 512 ≤ 3072) :
    (sectors (numbered first) lba n).length = n.toNat * 512 := by
  unfold sectors
  rw [read_length]
  exact Nat.min_eq_left (Nat.le_sub_of_add_le' h)

theorem numbered_computed {first : Byte} (h : first ∈ [0x00, 0xE5]) :
    (rd16 (sectors (numbered first) 0 1) 510 = 0xAA55 ∧ rd32 (sectors (numbered first) 0 1) (0x1BE + 8) = 1 ∧
      rd16 (sectors (numbered first) 1 1) 0x0B = 512 ∧ (sectors (numbered first) 1 1).getD 0x0D 0 = 1 ∧
      (sectors (numbered first) 1 1).getD 0x10 0 = 1 ∧ rd16 (sectors (numbered first) 1 1) 0x16 = 1 ∧
      rd16 (sectors (numbered first) 1 1) 0x0E = 1 ∧ rd16 (sectors (numbered first) 1 1) 0x11 = 16) ∧
    (PhotoplayIdent.ppFatOpen (numbered first)).map (fun fs => (fs.partOff, fs.rootEnts)) = some (512, 16) ∧
    (hit (numberedVolume first).toVolume 0 menu = some 1 ∧ hit (numberedVolume first).toVolume 2 nsbNr = some 0 ∧
      next (numberedVolume first).toVolume 2 = 0xFFFF) ∧
    (sectors (numbered 0xE5) 3 1).getD 0 0 ≠ 0 ∧ (sectors (numbered 0xE5) 3 1).getD (32 * 1 + 11) 0 ≠ 0x0F ∧
      (sectors (numbered 0xE5) 4 1).getD (32 * 0 + 11) 0 ≠ 0x0F := by
  revert first
  decide +kernel

theorem numbered_device {first : Byte} (h : first ∈ [0x00, 0xE5]) :
    PhotoplayFat.ppFatOpen (numbered first) = .ok (some (numberedVolume first)) := by
  obtain ⟨⟨hsig, hpart, hbps, hspc, hnfat, hspf, hrsvd, hents⟩, -⟩ := numbered_computed h
  unfold PhotoplayFat.ppFatOpen
  rw [secRead_some _ _ (by decide) (numbered_whole first (by decide)), ok_bind]
  dsimp only
  rw [hsig, hpart, if_neg (by decide), if_neg (by decide),
    secRead_some _ _ (by decide) (numbered_whole first (by decide)), ok_bind]
  dsimp only
  rw [hbps, hspc, hnfat, hspf, hrsvd, hents, if_neg (by decide),
    secRead_some (numbered first) _ (by decide) (numbered_whole first (by decide)), ok_bind]
  rfl

theorem numbered_ident {first : Byte} (h : first ∈ [0x00, 0xE5]) :
    ∃ fs, PhotoplayIdent.ppFatOpen (numbered first) = some fs ∧ fs.partOff = 512 ∧ fs.rootEnts % 16 = 0 := by
  obtain ⟨fs, hfs, heq⟩ := Option.map_eq_some_iff.mp (numbered_computed h).2.1
  obtain ⟨hpart, hents⟩ := Prod.mk.inj heq
  refine ⟨fs, hfs, hpart, ?_⟩
  rw [hents]

theorem numbered_held {first : Byte} {c : BitVec 16} (h : c ∈ [0, 2]) : Held (numberedVolume first).toVolume c := by
  simp only [List.mem_cons, List.not_mem_nil, or_false] at h
  have hspan : (4 : BitVec 32).toNat * 512 + (1 : BitVec 32).toNat * 512 ≤ 3072 := by decide
  have hspan' : (3 : BitVec 32).toNat * 512 + (1 : BitVec 32).toNat * 512 ≤ 3072 := by decide
  have hroom : (1 : BitVec 32).toNat * 512 ≤ ((1 : BitVec 32) * 512).toNat := by decide
  have htable : (sectors (numbered first) 2 1).length = 512 := numbered_whole first (by decide)
  rcases h with rfl | rfl
  · exact ⟨hroom, hspan', Or.inl rfl⟩
  · refine ⟨hroom, hspan, Or.inr ?_⟩
    unfold InTable numberedVolume
    dsimp only
    rw [htable]
    decide

theorem numbered_finds {first : Byte} (h : first ∈ [0x00, 0xE5]) :
    (∃ dir, dirFind (numberedVolume first).toVolume 0 menu = .ok (some dir) ∧ dir.cl = 2 ∧
      (numbered first).byte (dir.pos + 11) = 0x10) ∧
    ∃ found, dirFind (numberedVolume first).toVolume 2 nsbNr = .ok (some found) ∧ found.cl = 3 ∧ found.size = 4 ∧
      (numbered first).byte (found.pos + 11) = 0 := by
  obtain ⟨-, -, ⟨hmenu, hnsb, -⟩, -⟩ := numbered_computed h
  refine ⟨⟨_, find_first (numbered_held (by decide)) hmenu, ?_⟩, ⟨_, find_first (numbered_held (by decide)) hnsb, ?_⟩⟩
  · clear hmenu hnsb
    revert first
    decide +kernel
  · clear hmenu hnsb
    revert first
    decide +kernel

theorem numbered_plain : PlainPath (numberedVolume 0xE5).toVolume 32 100 0 [menu, nsbNr] := by
  obtain ⟨-, -, ⟨hmenu, hnsb, hnext⟩, hmarked⟩ := numbered_computed (by decide : (0xE5 : Byte) ∈ [0x00, 0xE5])
  obtain ⟨⟨dir, hdir, hcl, hattr⟩, ⟨file, hfile, hcl', hsize, hattr'⟩⟩ :=
    numbered_finds (by decide : (0xE5 : Byte) ∈ [0x00, 0xE5])
  refine ⟨searchable_first (Or.inl rfl) (numbered_held (by decide)) (Or.inl rfl) ?_, ?_⟩
  · intro i hhit
    obtain rfl := Option.some.inj (hmenu.symm.trans hhit)
    refine ⟨fun j hj => absurd hj (Nat.not_lt_zero j), ?_, hmarked.2.1⟩
    intro i hi
    obtain rfl := Nat.lt_one_iff.mp hi
    exact hmarked.1
  · intro found hfound
    rw [hdir] at hfound
    obtain rfl := Option.some.inj (Except.ok.inj hfound)
    refine ⟨?_, ?_⟩
    · change (numbered 0xE5).byte (dir.pos + 11) &&& 0x10 ≠ 0
      rw [hattr]
      decide
    · rw [hcl]
      refine ⟨searchable_first (Or.inr (by decide)) (numbered_held (by decide)) (Or.inr ?_) ?_, ?_⟩
      · rw [hnext]
        decide
      · intro i hhit
        obtain rfl := Option.some.inj (hnsb.symm.trans hhit)
        exact ⟨fun j hj => absurd hj (Nat.not_lt_zero j), fun j hj => absurd hj (Nat.not_lt_zero j), hmarked.2.2⟩
      · intro found hfound
        rw [hfile] at hfound
        obtain rfl := Option.some.inj (Except.ok.inj hfound)
        refine ⟨?_, ?_, ?_, ?_, ?_, ?_⟩
        · change (numbered 0xE5).byte (file.pos + 11) &&& 0x10 = 0
          rw [hattr']
          rfl
        · rw [hcl']
          decide
        · intro _
          rw [hcl']
          exact numbered_whole 0xE5 (by decide : (5 : BitVec 32).toNat * 512 + (1 : BitVec 32).toNat * 512 ≤ 3072)
        · rw [hsize]
          exact (by decide : (4 : BitVec 32).toNat ≤ (1 : BitVec 32).toNat * 512)
        · rw [hsize]
          decide
        · rw [hsize]
          decide

/-- With a deleted entry first, both read the number. -/
theorem readers_agree_numbered :
    readSmallPath (numberedVolume 0xE5).toVolume 32 0 [menu, nsbNr] = .ok (some [0x38, 0x37, 0x37, 0x38]) ∧
    photoplayReadFile (numbered 0xE5) [menu, nsbNr] 100 = some [0x38, 0x37, 0x37, 0x38] := by
  have hread : photoplayReadFile (numbered 0xE5) [menu, nsbNr] 100 = some [0x38, 0x37, 0x37, 0x38] := by
    decide +kernel
  obtain ⟨fs, hident, hpart, hroot⟩ := numbered_ident (by decide : (0xE5 : Byte) ∈ [0x00, 0xE5])
  have hagree := (readers_agree _ fs _ hident (numbered_device (by decide)) hpart hroot _ 32 100 numbered_plain).1
  rw [hread] at hagree
  refine ⟨hagree.trans ?_, hread⟩
  decide +kernel

/-- With the mark of the end first, only the device finds it. -/
theorem readers_differ_past_mark :
    (∃ fs, PhotoplayIdent.ppFatOpen (numbered 0x00) = some fs) ∧
    PhotoplayFat.ppFatOpen (numbered 0x00) = .ok (some (numberedVolume 0x00)) ∧
    photoplayReadFile (numbered 0x00) [menu, nsbNr] 100 = none ∧
    readSmallPath (numberedVolume 0x00).toVolume 32 0 [menu, nsbNr] = .ok (some [0x38, 0x37, 0x37, 0x38]) := by
  obtain ⟨fs, hident, -⟩ := numbered_ident (by decide : (0x00 : Byte) ∈ [0x00, 0xE5])
  refine ⟨⟨fs, hident⟩, numbered_device (by decide), by decide +kernel, ?_⟩
  decide +kernel

end PeepeeBox.ReaderAgreement
