import PeepeeBox.GrownImage
import PeepeeBox.PpfixLocate

set_option autoImplicit false

/-!
# The grown volume

What is in a grown image when it is opened again: the root directory, the clusters and their entries
as they were, and behind them clusters that are free.
-/
namespace PeepeeBox.GrownVolume
open Fat16 FatBounds GrownImage HostFile Ppfix PpfixLocate

/-- The sectors of a partition before its data, with a table of `spf` sectors. -/
def before (v : Vol) (spf : ℕ) : ℕ := v.rsvd.toNat + v.nfat.toNat * spf + v.rootSecs.toNat

theorem before_lt {v : Vol} (h : Fields v) {spf : ℕ} (hspf : spf < 65536) : before v spf < 16781311 := by
  have hmul : v.nfat.toNat * spf ≤ 255 * 65535 := Nat.mul_le_mul (by have := h.nfat; omega) (by omega)
  have hrsvd := h.rsvd
  have hroot := h.root
  unfold before
  omega

theorem Opened.before_toNat {f : File} {v : Vol} (h : Opened f v) :
    (v.dataLba - v.part).toNat = before v v.spf.toNat := by
  have hfields := Opened.fields h
  have hlt := before_lt hfields hfields.spf.2
  have hproduct := product_toNat hfields hfields.spf.2
  unfold before at hlt ⊢
  rw [h.dataLba, h.rootLba, h.fatLba]
  have hshift : v.part + v.rsvd + v.nfat * v.spf + v.rootSecs - v.part =
      v.rsvd + v.nfat * v.spf + v.rootSecs := by
    rw [BitVec.add_assoc, BitVec.add_assoc, BitVec.add_comm v.part, BitVec.add_sub_cancel, BitVec.add_assoc]
  rw [hshift, BitVec.toNat_add, BitVec.toNat_add, hproduct]
  omega

/-- The room for data behind a table of `spf` sectors. -/
def dataSecs (v : Vol) (tot spf : ℕ) : ℕ := tot - before v spf

theorem left_eq (v : Vol) (tot : BitVec 32) (spf : ℕ) :
    left v tot spf = dataSecs v tot.toNat spf / v.spc.toNat := by
  unfold left dataSecs before
  congr 1
  omega

theorem Opened.room {f : File} {v : Vol} (h : Opened f v) : before v v.spf.toNat < v.tot.toNat := by
  have hgood := h.good
  unfold badBpb at hgood
  rw [not_or, not_or, not_or] at hgood
  have hlt := BitVec.not_le.mp hgood.2.2.2
  rw [BitVec.lt_def, Opened.before_toNat h] at hlt
  exact hlt

theorem Opened.clusters_toNat {f : File} {v : Vol} (h : Opened f v) (hrsvd : v.rsvd ≠ 0) :
    v.clusters.toNat = dataSecs v v.tot.toNat v.spf.toNat / v.spc.toNat + 2 := by
  have hfields := Opened.fields h
  have hpos : 0 < v.rsvd.toNat := Nat.pos_of_ne_zero fun hzero => hrsvd (BitVec.eq_of_toNat_eq hzero)
  have htot := v.tot.isLt
  have hroom := Opened.room h
  have hmany : 2 ≤ before v v.spf.toNat := by
    have hmul := Nat.mul_le_mul hfields.nfat.1 hfields.spf.1
    unfold before
    omega
  have hsub : (v.tot - (v.dataLba - v.part)).toNat = dataSecs v v.tot.toNat v.spf.toNat := by
    rw [BitVec.toNat_sub, Opened.before_toNat h]
    unfold dataSecs
    omega
  have hdiv := Nat.div_le_self (dataSecs v v.tot.toNat v.spf.toNat) v.spc.toNat
  rw [h.clusters, BitVec.toNat_add, BitVec.toNat_udiv, hsub]
  have hdata : dataSecs v v.tot.toNat v.spf.toNat + 2 ≤ v.tot.toNat := by
    unfold dataSecs
    omega
  change (_ + 2) % 4294967296 = _
  generalize dataSecs v v.tot.toNat v.spf.toNat / v.spc.toNat = q at *
  omega

structure Plan (v : Vol) (g : Grow) : Prop where
  part : 0 < v.part.toNat ∧ v.part.toNat < 2048
  reserved : 0 < v.rsvd.toNat
  fatLba : v.fatLba.toNat = v.part.toNat + v.rsvd.toNat
  head : v.fatLba.toNat ≤ 2048
  stop : (v.part + v.tot).toNat = v.part.toNat + v.tot.toNat
  small : v.part.toNat + v.tot.toNat < 4124736
  tot : g.tot.toNat = 4124736 - v.part.toNat
  spf : v.spf.toNat ≤ g.spf.toNat ∧ g.spf.toNat < 65536
  clusters : g.clusters.toNat = dataSecs v g.tot.toNat g.spf.toNat / v.spc.toNat + 2
  covers : g.clusters.toNat * 2 ≤ g.spf.toNat * 512
  few : g.clusters.toNat ≤ 65520
  old : v.clusters.toNat = dataSecs v v.tot.toNat v.spf.toNat / v.spc.toNat + 2
  more : v.clusters.toNat < g.clusters.toNat

theorem Plan.fits {v : Vol} {g : Grow} (h : Plan v g) (hfields : Fields v) :
    v.tot.toNat - before v v.spf.toNat + before v g.spf.toNat < g.tot.toNat := by
  have hmore := h.more
  rw [h.clusters, h.old] at hmore
  have hspc := hfields.spc.1
  have hlt := (Nat.div_lt_iff_lt_mul hspc).mp (Nat.lt_of_add_lt_add_right hmore)
  have hle := Nat.div_mul_le_self (dataSecs v g.tot.toNat g.spf.toNat) v.spc.toNat
  have hdata := Nat.lt_of_lt_of_le hlt hle
  unfold dataSecs at hdata
  omega

theorem cabinet_sub {v : Vol} (h : v.part.toNat ≤ 4124736) :
    (cabinetSecs - v.part).toNat = 4124736 - v.part.toNat := by
  have hcabinet : cabinetSecs.toNat = 4124736 := rfl
  rw [BitVec.toNat_sub, hcabinet]
  omega

theorem growPlan_ends {f : File} {v : Vol} (h : Opened f v)
    (hsmall : v.part.toNat + v.tot.toNat < 4124736) :
    ∃ r, Ends v (cabinetSecs - v.part) v.spf r ∧
      growPlan v =
        if 0xFFF0 < r.1 + 2 then .ok none
        else .ok (some { tot := cabinetSecs - v.part, spf := r.2, clusters := r.1 + 2 }) := by
  have hfields := Opened.fields h
  have hroom := Opened.room h
  have hsub := cabinet_sub (v := v) (by omega)
  unfold before at hroom
  have htot : (cabinetSecs - v.part).toNat ≤ 4124736 := by omega
  obtain ⟨r, hr, hends⟩ := growSearch_ends hfields htot (2 ^ 32) hfields.spf.1 hfields.spf.2 (by omega) (by omega)
  refine ⟨r, hends, ?_⟩
  have hlt : ¬ cabinetSecs ≤ v.part + v.tot := by
    have hcabinet : cabinetSecs.toNat = 4124736 := rfl
    rw [BitVec.le_def, BitVec.toNat_add, hcabinet]
    omega
  unfold growPlan
  rw [if_neg hlt, hr]
  rfl

theorem plan_of {opt : Options} {f : File} {v : Vol} {s : Scan} {e : Entries} {nfs : Nfs}
    (h : Located opt f v s e nfs) (hgrow : s.grow = true) (hrsvd : v.rsvd ≠ 0) (hpokes : Pokes v)
    (hhead : ¬ chunk < v.fatLba) : Plan v s.gp := by
  have hopened := h.opened
  have hfields := Opened.fields hopened
  have hpos : 0 < v.rsvd.toNat := Nat.pos_of_ne_zero fun hzero => hrsvd (BitVec.eq_of_toNat_eq hzero)
  have hsome : 0 < v.part.toNat :=
    Nat.pos_of_ne_zero fun hzero => hopened.some_part (BitVec.eq_of_toNat_eq hzero)
  have hold := Opened.clusters_toNat hopened hrsvd
  have hle : v.fatLba.toNat ≤ 2048 := Nat.le_of_not_lt hhead
  have hsum : v.fatLba.toNat = (v.part.toNat + v.rsvd.toNat) % 4294967296 := by
    rw [hopened.fatLba, BitVec.toNat_add]
  have hpart : v.part.toNat < 2048 := by
    have h20 := hpokes.2.2
    unfold at20 at h20
    rw [BitVec.toNat_add, BitVec.toNat_mul] at h20
    change (v.part.toNat * 512 % 4294967296 + 32) % 4294967296 + 4 ≤ 1048576 at h20
    have hlt := v.part.isLt
    have hr := hfields.rsvd
    omega
  have hgrowth := h.growth
  rw [hgrow] at hgrowth
  unfold growth at hgrowth
  dsimp only at hgrowth
  split at hgrowth
  · rename_i hpast
    have hwant (w : BitVec 16) : (w.setWidth 32).toNat < 65536 := by
      rw [BitVec.toNat_setWidth]
      have hlt := w.isLt
      omega
    have hfew : v.clusters.toNat < 65536 := by
      rcases hpast with hle | hle
      · exact Nat.lt_of_le_of_lt hle (hwant _)
      · exact Nat.lt_of_le_of_lt hle (hwant _)
    have htot : v.tot.toNat < 4294967296 - 2048 := by
      have hbefore := before_lt hfields hfields.spf.2
      have hspc := hfields.spc
      have hdata : dataSecs v v.tot.toNat v.spf.toNat < 65536 * v.spc.toNat := by
        refine (Nat.div_lt_iff_lt_mul hspc.1).mp ?_
        omega
      have hmul := Nat.mul_le_mul_left 65536 (Nat.le_of_lt hspc.2)
      unfold dataSecs at hdata
      omega
    have hstop : (v.part + v.tot).toNat = v.part.toNat + v.tot.toNat := by
      rw [BitVec.toNat_add]
      omega
    obtain ⟨o, hplan, hgrowth⟩ := bind_inv hgrowth
    have hsmall : v.part.toNat + v.tot.toNat < 4124736 := by
      by_contra hbig
      have hcabinet : cabinetSecs.toNat = 4124736 := rfl
      have hle : cabinetSecs ≤ v.part + v.tot := by
        rw [BitVec.le_def, hstop, hcabinet]
        omega
      unfold growPlan at hplan
      rw [if_pos hle] at hplan
      cases hplan
      cases hgrowth
    obtain ⟨r, hends, hplan'⟩ := growPlan_ends hopened hsmall
    rw [hplan'] at hplan
    split at hplan
    · cases hplan
      cases hgrowth
    rename_i hmany
    cases hplan
    dsimp only at hgrowth
    split at hgrowth
    · cases hgrowth
    rename_i hreach
    have hgp := congrArg Prod.snd (Option.some.inj (Except.ok.inj hgrowth))
    dsimp only at hgp
    rw [not_or] at hreach
    have hcount : (r.1 + 2).toNat = r.1.toNat + 2 := by
      have hshort := hends.short
      have hcovers := hends.covers
      rw [BitVec.toNat_add]
      change (_ + 2) % 4294967296 = _
      omega
    have hsub := cabinet_sub (v := v) (by omega)
    have hr := hends.count
    rw [left_eq] at hr
    rw [← hgp]
    refine ⟨⟨hsome, hpart⟩, hpos, by have := hfields.rsvd; omega, hle, hstop, hsmall, hsub,
      ⟨hends.grows, hends.short⟩, hcount.trans (congrArg (· + 2) hr), ?_, ?_, hold, ?_⟩
    · change (r.1 + 2).toNat * 2 ≤ _
      rw [hcount]
      exact hends.covers
    · exact Nat.le_of_not_lt hmany
    · have hsys := BitVec.not_le.mp hreach.1
      have hccc := BitVec.not_le.mp hreach.2
      rcases hpast with hle | hle
      · exact Nat.lt_of_le_of_lt hle hsys
      · exact Nat.lt_of_le_of_lt hle hccc
  · cases hgrowth

theorem clusters_bytes {v : Vol} {g : Grow} (h : Plan v g) : (v.clusters * 2).toNat = v.clusters.toNat * 2 := by
  have hmore := h.more
  have hfew := h.few
  rw [BitVec.toNat_mul]
  change _ * 2 % 4294967296 = _
  omega

theorem table_bytes {v : Vol} {g : Grow} (h : Plan v g) : (g.spf * 512).toNat = g.spf.toNat * 512 := by
  have hshort := h.spf.2
  rw [BitVec.toNat_mul]
  change _ * 512 % 4294967296 = _
  omega

theorem table_length {v : Vol} {g : Grow} (h : Plan v g) (hcovers : Covers v g) :
    (table v g).length = g.spf.toNat * 512 := by
  have hgrown := hcovers.1
  rw [table_bytes h] at hgrown
  unfold table
  dsimp only
  rw [table_bytes h, List.length_append, List.length_replicate, List.length_take, Nat.min_eq_left hcovers.2]
  omega

theorem header_length {f : File} {v : Vol} (g : Grow) (h : Opened f v) :
    (header v g).length = v.fatLba.toNat * 512 := by
  unfold header
  dsimp only
  rw [wr32_length, wr16_length, wr16_length, wr32_length, h.file]
  exact Opened.head_held h

theorem rootLba_toNat {f : File} {v : Vol} {g : Grow} (h : Opened f v) (hplan : Plan v g) :
    v.rootLba.toNat = v.fatLba.toNat + v.nfat.toNat * v.spf.toNat := by
  have hfields := Opened.fields h
  have hlt := before_lt hfields hfields.spf.2
  have hhead := hplan.head
  unfold before at hlt
  rw [h.rootLba, BitVec.toNat_add, product_toNat hfields hfields.spf.2]
  omega

theorem bodySecs_eq {f : File} {v : Vol} {g : Grow} (h : Opened f v) (hplan : Plan v g) :
    bodySecs v = v.rootSecs.toNat + (v.tot.toNat - before v v.spf.toNat) := by
  have hroom := Opened.room h
  unfold bodySecs
  rw [hplan.stop, rootLba_toNat h hplan, hplan.fatLba]
  unfold before at hroom ⊢
  omega

theorem copied_toNat {f : File} {v : Vol} {g : Grow} (h : Opened f v) (hplan : Plan v g) :
    (copied v g).toNat = v.fatLba.toNat + v.nfat.toNat * g.spf.toNat + bodySecs v ∧
      (copied v g).toNat < 4124736 := by
  have hfields := Opened.fields h
  have hfits := hplan.fits hfields
  have htot := hplan.tot
  have hfat := hplan.fatLba
  have hhead := hplan.head
  have hbody := bodySecs_eq h hplan
  have hsum : v.fatLba.toNat + v.nfat.toNat * g.spf.toNat + bodySecs v < 4124736 := by
    unfold before at hfits hbody
    omega
  have heq : (copied v g).toNat = v.fatLba.toNat + v.nfat.toNat * g.spf.toNat + bodySecs v := by
    unfold copied
    rw [BitVec.toNat_add, BitVec.toNat_add, BitVec.toNat_ofNat, product_toNat hfields hplan.spf.2]
    omega
  exact ⟨heq, heq ▸ hsum⟩

theorem flatten_length {α : Type} (t : List α) (n : ℕ) : (List.replicate n t).flatten.length = n * t.length := by
  rw [List.length_flatten, List.map_replicate, List.sum_replicate_nat]

theorem content_length {f : File} {v : Vol} {g : Grow} (h : Opened f v) (hplan : Plan v g)
    (hcovers : Covers v g) (hholds : (body v).length = bodySecs v * 512) :
    (content v g).length = 4124736 * 512 := by
  obtain ⟨hcopied, hlt⟩ := copied_toNat h hplan
  have htables : (List.replicate v.nfat.toNat (table v g)).flatten.length =
      v.nfat.toNat * g.spf.toNat * 512 := by
    rw [flatten_length, table_length hplan hcovers, Nat.mul_assoc]
  unfold content
  rw [List.length_append, List.length_append, List.length_append, header_length g h, htables, hholds,
    List.length_replicate]
  omega

@[irreducible] def grown (v : Vol) (g : Grow) : File := append empty (content v g)

theorem copies_row {α : Type} (t : List α) {n k : ℕ} (h : n < k) :
    ((List.replicate k t).flatten.drop (n * t.length)).take t.length = t := by
  induction k generalizing n with
  | zero => exact absurd h (Nat.not_lt_zero n)
  | succ k ih =>
    rw [List.replicate_succ, List.flatten_cons]
    cases n with
    | zero => rw [Nat.zero_mul, List.drop_zero, List.take_left]
    | succ n =>
      rw [Nat.succ_mul, Nat.add_comm, List.drop_append, List.drop_eq_nil_of_le (Nat.le_add_right _ _),
        List.nil_append, Nat.add_sub_cancel_left]
      exact ih (Nat.lt_of_succ_lt_succ h)

theorem read_header {v : Vol} {g : Grow} {off n : ℕ} (h : off + n ≤ (header v g).length) :
    HostFile.read (grown v g) off n = ((header v g).drop off).take n := by
  unfold grown
  rw [read_list]
  unfold content
  rw [List.drop_append_of_le_length (by omega), List.take_append_of_le_length (by rw [List.length_drop]; omega)]

theorem read_copy {f : File} {v : Vol} {g : Grow} (h : Opened f v) (hplan : Plan v g) (hcovers : Covers v g)
    {k : ℕ} (hk : k < v.nfat.toNat) {off n : ℕ} (hn : off + n ≤ g.spf.toNat * 512) :
    HostFile.read (grown v g) ((v.fatLba.toNat + k * g.spf.toNat) * 512 + off) n =
      ((table v g).drop off).take n := by
  have hlength := table_length hplan hcovers
  have hrow := copies_row (table v g) hk
  have hall := flatten_length (table v g) v.nfat.toNat
  have hmul : (k + 1) * (table v g).length ≤ v.nfat.toNat * (table v g).length := Nat.mul_le_mul_right _ hk
  rw [Nat.succ_mul] at hmul
  have hstart : (v.fatLba.toNat + k * g.spf.toNat) * 512 + off =
      (header v g).length + (k * (table v g).length + off) := by
    rw [header_length g h, hlength, Nat.add_mul, Nat.mul_assoc]
    omega
  unfold grown
  rw [read_list, hstart]
  unfold content
  rw [part_row (by omega), ← hrow, List.drop_take, List.take_take, List.drop_drop, hrow]
  congr 1
  omega

theorem read_body {f : File} {v : Vol} {g : Grow} (h : Opened f v) (hplan : Plan v g) (hcovers : Covers v g)
    {off n : ℕ} (hn : off + n ≤ (body v).length) :
    HostFile.read (grown v g) ((v.fatLba.toNat + v.nfat.toNat * g.spf.toNat) * 512 + off) n =
      ((body v).drop off).take n := by
  have hall := flatten_length (table v g) v.nfat.toNat
  rw [table_length hplan hcovers] at hall
  have hstart : (v.fatLba.toNat + v.nfat.toNat * g.spf.toNat) * 512 + off =
      (header v g ++ (List.replicate v.nfat.toNat (table v g)).flatten).length + off := by
    rw [List.length_append, header_length g h, hall, Nat.add_mul, Nat.mul_assoc]
  unfold grown
  rw [read_list, hstart]
  unfold content
  rw [← List.append_assoc]
  exact part_row hn

def Changed (v : Vol) (j : ℕ) : Prop :=
  0x1CA ≤ j ∧ j < 0x1CE ∨
    v.part.toNat * 512 + 0x13 ≤ j ∧ j < v.part.toNat * 512 + 0x15 ∨
      v.part.toNat * 512 + 0x16 ≤ j ∧ j < v.part.toNat * 512 + 0x18 ∨
        v.part.toNat * 512 + 0x20 ≤ j ∧ j < v.part.toNat * 512 + 0x24

theorem Plan.at {v : Vol} {g : Grow} (h : Plan v g) :
    at13 v = v.part.toNat * 512 + 0x13 ∧ at16 v = v.part.toNat * 512 + 0x16 ∧
      at20 v = v.part.toNat * 512 + 0x20 := by
  have hpart := h.part.2
  have hadd (x : ℕ) (hx : x < 512) :
      (v.part * 512 + BitVec.ofNat 32 x).toNat = v.part.toNat * 512 + x := by
    rw [BitVec.toNat_add, BitVec.toNat_mul, BitVec.toNat_ofNat]
    change (_ * 512 % 4294967296 + _) % 4294967296 = _
    omega
  exact ⟨hadd 0x13 (by decide), hadd 0x16 (by decide), hadd 0x20 (by decide)⟩

theorem header_byte {v : Vol} {g : Grow} (h : Plan v g) {j : ℕ} (hj : ¬ Changed v j) :
    (header v g).getD j 0 = (HostFile.read v.f 0 (v.fatLba.toNat * 512)).getD j 0 := by
  obtain ⟨h13, h16, h20⟩ := h.at
  unfold Changed at hj
  unfold header
  dsimp only
  rw [h13, h16, h20, wr32_other _ _ (by omega), wr16_other _ _ (by omega), wr16_other _ _ (by omega),
    wr32_other _ _ (by omega)]

theorem header_word {v : Vol} {g : Grow} (h : Plan v g) {j : ℕ} (hj : ¬ Changed v j)
    (hj' : ¬ Changed v (j + 1)) :
    rd16 (header v g) j = rd16 (HostFile.read v.f 0 (v.fatLba.toNat * 512)) j := by
  unfold rd16
  rw [header_byte h hj, header_byte h hj']

theorem header_sizes {f : File} {v : Vol} {g : Grow} (hv : Opened f v) (h : Plan v g) :
    rd16 (header v g) (v.part.toNat * 512 + 0x13) = 0 ∧
      rd16 (header v g) (v.part.toNat * 512 + 0x16) = g.spf.setWidth 16 ∧
        rd32 (header v g) (v.part.toNat * 512 + 0x20) = g.tot := by
  obtain ⟨h13, h16, h20⟩ := h.at
  have hlength : (HostFile.read v.f 0 (v.fatLba.toNat * 512)).length = v.fatLba.toNat * 512 := by
    rw [hv.file]
    exact Opened.head_held hv
  have hfat := h.fatLba
  have hreserved := h.reserved
  have hroom : (v.part.toNat + 1) * 512 ≤ v.fatLba.toNat * 512 := Nat.mul_le_mul_right 512 (by omega)
  rw [Nat.add_mul] at hroom
  have hword (buf : List Byte) (x : BitVec 32) {i j : ℕ} (hij : j + 1 < i ∨ i + 3 < j) :
      rd16 (wr32 buf i x) j = rd16 buf j := by
    unfold rd16
    rw [wr32_other _ _ (by omega), wr32_other _ _ (by omega)]
  unfold header
  dsimp only
  rw [h13, h16, h20]
  refine ⟨?_, ?_, ?_⟩
  · rw [hword _ _ (by omega), rd16_other _ (by omega),
      rd16_wr16 _ (by rw [wr32_length, hlength]; omega)]
  · rw [hword _ _ (by omega), rd16_wr16 _ (by rw [wr16_length, wr32_length, hlength]; omega)]
  · rw [rd32_wr32 _ (by rw [wr16_length, wr16_length, wr32_length, hlength]; omega)]

def reopened (v : Vol) (g : Grow) : Vol :=
  { v with
    f := grown v g
    rootLba := v.fatLba + v.nfat * g.spf
    dataLba := v.fatLba + v.nfat * g.spf + v.rootSecs
    fat := table v g
    tot := g.tot
    spf := g.spf
    clusters := g.clusters }

theorem sectors_header {f : File} {v : Vol} {g : Grow} (h : Opened f v) {lba : BitVec 32}
    (hlba : lba.toNat < v.fatLba.toNat) :
    sectors (grown v g) lba 1 = ((header v g).drop (lba.toNat * 512)).take 512 := by
  have hroom : (lba.toNat + 1) * 512 ≤ v.fatLba.toNat * 512 := Nat.mul_le_mul_right 512 hlba
  rw [Nat.add_mul] at hroom
  exact read_header (by rw [header_length g h]; exact hroom)

theorem sectors_old {f : File} {v : Vol} (h : Opened f v) {lba : BitVec 32}
    (hlba : lba.toNat < v.fatLba.toNat) :
    sectors f lba 1 = ((HostFile.read v.f 0 (v.fatLba.toNat * 512)).drop (lba.toNat * 512)).take 512 := by
  have hroom : (lba.toNat + 1) * 512 ≤ v.fatLba.toNat * 512 := Nat.mul_le_mul_right 512 hlba
  rw [Nat.add_mul] at hroom
  rw [h.file, read_slice _ _ hroom, Nat.zero_add]
  rfl

theorem mbr_word {f : File} {v : Vol} {g : Grow} (h : Opened f v) (hplan : Plan v g) {j : ℕ}
    (hj : j + 1 < 512) (hout : j + 1 < 0x1CA ∨ 0x1CE ≤ j) :
    rd16 (sectors (grown v g) 0 1) j = rd16 (sectors f 0 1) j := by
  have hpart := hplan.part
  have hfat := hplan.fatLba
  have hzero : (0 : BitVec 32).toNat = 0 := rfl
  have hnot : ¬ Changed v j := by
    unfold Changed
    omega
  have hnot' : ¬ Changed v (j + 1) := by
    unfold Changed
    omega
  rw [sectors_header h (by omega), sectors_old h (by omega), hzero, rd16_row _ hj, rd16_row _ hj, Nat.zero_mul,
    Nat.zero_add, header_word hplan hnot hnot']

theorem boot_byte {f : File} {v : Vol} {g : Grow} (h : Opened f v) (hplan : Plan v g) {j : ℕ} (hj : j < 0x13) :
    (sectors (grown v g) v.part 1).getD j 0 = (sectors f v.part 1).getD j 0 := by
  have hpart := hplan.part
  have hfat := hplan.fatLba
  have hreserved := hplan.reserved
  have hnot : ¬ Changed v (v.part.toNat * 512 + j) := by
    unfold Changed
    omega
  rw [sectors_header h (by omega), sectors_old h (by omega), getD_row _ (by omega), getD_row _ (by omega),
    header_byte hplan hnot]

theorem boot_word {f : File} {v : Vol} {g : Grow} (h : Opened f v) (hplan : Plan v g) {j : ℕ}
    (hj : j + 1 < 0x13) : rd16 (sectors (grown v g) v.part 1) j = rd16 (sectors f v.part 1) j := by
  unfold rd16
  rw [boot_byte h hplan hj, boot_byte h hplan (Nat.lt_of_succ_lt hj)]

theorem boot_sizes {f : File} {v : Vol} {g : Grow} (h : Opened f v) (hplan : Plan v g) :
    rd16 (sectors (grown v g) v.part 1) 0x13 = 0 ∧
      rd16 (sectors (grown v g) v.part 1) 0x16 = g.spf.setWidth 16 ∧
        rd32 (sectors (grown v g) v.part 1) 0x20 = g.tot := by
  have hfat := hplan.fatLba
  have hreserved := hplan.reserved
  obtain ⟨hsize13, hsize16, hsize20⟩ := header_sizes h hplan
  rw [sectors_header h (by omega), rd16_row _ (by decide), rd16_row _ (by decide), rd32_row _ (by decide)]
  exact ⟨hsize13, hsize16, hsize20⟩

theorem reopened_before {f : File} {v : Vol} {g : Grow} (h : Opened f v) (hplan : Plan v g) :
    (v.fatLba + v.nfat * g.spf + v.rootSecs - v.part).toNat = before v g.spf.toNat := by
  have hfields := Opened.fields h
  have hlt := before_lt hfields hplan.spf.2
  have hproduct := product_toNat hfields hplan.spf.2
  unfold before at hlt ⊢
  have hshift : v.part + v.rsvd + v.nfat * g.spf + v.rootSecs - v.part =
      v.rsvd + v.nfat * g.spf + v.rootSecs := by
    rw [BitVec.add_assoc, BitVec.add_assoc, BitVec.add_comm v.part, BitVec.add_sub_cancel, BitVec.add_assoc]
  rw [h.fatLba, hshift, BitVec.toNat_add, BitVec.toNat_add, hproduct]
  omega

theorem reopened_table {f : File} {v : Vol} {g : Grow} (h : Opened f v) (hplan : Plan v g)
    (hcovers : Covers v g) : sectors (grown v g) v.fatLba g.spf = table v g := by
  have hlength := table_length hplan hcovers
  have hroom : 0 + g.spf.toNat * 512 ≤ g.spf.toNat * 512 := Nat.le_of_eq (Nat.zero_add _)
  have hcopy := read_copy h hplan hcovers (Opened.fields h).nfat.1 hroom
  have hwhole : (table v g).take (g.spf.toNat * 512) = table v g :=
    List.take_of_length_le (Nat.le_of_eq hlength)
  rw [Nat.zero_mul, Nat.add_zero, Nat.add_zero, List.drop_zero, hwhole] at hcopy
  exact hcopy

theorem reopened_good {f : File} {v : Vol} {g : Grow} (h : Opened f v) (hplan : Plan v g) :
    ¬ badBpb (reopened v g) := by
  have hfields := Opened.fields h
  have hgood := h.good
  have hfits := hplan.fits hfields
  unfold badBpb at hgood ⊢
  rw [not_or, not_or, not_or] at hgood ⊢
  refine ⟨hgood.1, hgood.2.1, ?_, ?_⟩
  · intro hnone
    have hgrows := hplan.spf.1
    have hsome := hfields.spf.1
    have hnone' : g.spf.toNat = 0 := congrArg BitVec.toNat hnone
    omega
  · have hbefore := reopened_before h hplan
    change ¬ g.tot ≤ v.fatLba + v.nfat * g.spf + v.rootSecs - v.part
    rw [BitVec.le_def, hbefore]
    omega

theorem reopened_clusters {f : File} {v : Vol} {g : Grow} (h : Opened f v) (hplan : Plan v g) :
    g.clusters = (g.tot - (v.fatLba + v.nfat * g.spf + v.rootSecs - v.part)) / v.spc + 2 := by
  have hfits := hplan.fits (Opened.fields h)
  have hfew := hplan.few
  have hcount := hplan.clusters
  have hlt := g.tot.isLt
  have hsub : (g.tot - (v.fatLba + v.nfat * g.spf + v.rootSecs - v.part)).toNat =
      dataSecs v g.tot.toNat g.spf.toNat := by
    rw [BitVec.toNat_sub, reopened_before h hplan]
    unfold dataSecs
    omega
  apply BitVec.eq_of_toNat_eq
  rw [BitVec.toNat_add, BitVec.toNat_udiv, hsub, hcount]
  change _ = (_ + 2) % 4294967296
  rw [Nat.mod_eq_of_lt (by omega)]

theorem reopened_opened {f : File} {v : Vol} {g : Grow} (h : Opened f v) (hplan : Plan v g)
    (hcovers : Covers v g) : Opened (grown v g) (reopened v g) := by
  have hlength := header_length g h
  have hpart := hplan.part
  have hfat := hplan.fatLba
  have hreserved := hplan.reserved
  have htable := reopened_table h hplan hcovers
  obtain ⟨hsize13, hsize16, hsize20⟩ := boot_sizes h hplan
  have hsector (lba : BitVec 32) (hlba : lba.toNat < v.fatLba.toNat) :
      (sectors (grown v g) lba 1).length = 512 := by
    have hroom : (lba.toNat + 1) * 512 ≤ v.fatLba.toNat * 512 := Nat.mul_le_mul_right 512 hlba
    rw [Nat.add_mul] at hroom
    rw [sectors_header h hlba, List.length_take, List.length_drop, hlength]
    omega
  refine ⟨hsector 0 ?_, ?_, ?_, h.some_part, hsector v.part ?_, ?_, reopened_good h hplan, rfl, ?_, ?_, ?_, ?_,
    ?_, ?_, h.fatLba, rfl, rfl, reopened_clusters h hplan, ?_, htable.symm⟩
  · change 0 < _
    omega
  · exact (mbr_word h hplan (by decide) (by decide)).trans h.signature
  · have hpt := h.part
    rw [rd32_halves] at hpt ⊢
    rw [mbr_word h hplan (by decide) (by decide), mbr_word h hplan (by decide) (by decide)]
    exact hpt
  · omega
  · exact (boot_word h hplan (by decide)).trans h.sectorSize
  · change g.tot = if rd16 (sectors (grown v g) v.part 1) 0x13 ≠ 0 then _ else
      rd32 (sectors (grown v g) v.part 1) 0x20
    rw [hsize13, if_neg (not_not.mpr rfl), hsize20]
  · exact h.rsvd.trans (congrArg (BitVec.setWidth 32) (boot_word h hplan (by decide)).symm)
  · exact h.spc.trans (congrArg (BitVec.setWidth 32) (boot_byte h hplan (by decide)).symm)
  · exact h.nfat.trans (congrArg (BitVec.setWidth 32) (boot_byte h hplan (by decide)).symm)
  · change g.spf = (rd16 (sectors (grown v g) v.part 1) 0x16).setWidth 32
    have hshort := hplan.spf.2
    apply BitVec.eq_of_toNat_eq
    rw [hsize16, BitVec.toNat_setWidth, BitVec.toNat_setWidth]
    omega
  · refine h.rootSecs.trans ?_
    exact congrArg (fun x : BitVec 16 => x.setWidth 32 * 32 / 512) (boot_word h hplan (by decide)).symm
  · change (sectors (grown v g) v.fatLba g.spf).length = g.spf.toNat * 512
    rw [htable, table_length hplan hcovers]

/-- Entry `c` of copy `k` of the table on the disk. -/
def entryIn (f : File) (v : Vol) (k c : ℕ) : BitVec 16 :=
  rd16 (HostFile.read f ((v.fatLba.toNat + k * v.spf.toNat) * 512 + 2 * c) 2) 0

/-- `out`, opened as `w`, has all that `f` had, opened as `v`, and free clusters behind it. -/
structure Grew (f : File) (v : Vol) (out : File) (w : Vol) (g : Grow) : Prop where
  length : out.len = 4124736 * 512
  opens : volOpen out = .ok (some w)
  clusters : w.clusters = g.clusters
  copies : w.nfat = v.nfat
  root : w.rootSecs = v.rootSecs ∧ sectors out w.rootLba w.rootSecs = sectors f v.rootLba v.rootSecs
  entries : ∀ k < v.nfat.toNat, ∀ c < v.clusters.toNat, entryIn out w k c = rd16 v.fat (2 * c)
  data : ∀ c : BitVec 16, 2 ≤ c.toNat → c.toNat < v.clusters.toNat →
    sectors out (clusLba w.toVolume c) w.spc = sectors f (clusLba v.toVolume c) v.spc
  free : ∀ k < v.nfat.toNat, ∀ c, v.clusters.toNat ≤ c → c < g.clusters.toNat → entryIn out w k c = 0

theorem table_old {v : Vol} {g : Grow} (hplan : Plan v g) (hcovers : Covers v g) {c : ℕ}
    (hc : c < v.clusters.toNat) : rd16 (table v g) (2 * c) = rd16 v.fat (2 * c) := by
  have hbytes := clusters_bytes hplan
  have hlength : (v.fat.take (v.clusters * 2).toNat).length = v.clusters.toNat * 2 := by
    rw [List.length_take, Nat.min_eq_left hcovers.2, hbytes]
  have hbyte {j : ℕ} (hj : j < v.clusters.toNat * 2) : (table v g).getD j 0 = v.fat.getD j 0 := by
    unfold table
    dsimp only
    rw [List.getD_append _ _ _ _ (by omega), List.getD_eq_getElem?_getD, List.getElem?_take,
      if_pos (by omega), ← List.getD_eq_getElem?_getD]
  unfold rd16
  rw [hbyte (by omega), hbyte (by omega)]

theorem table_new {v : Vol} {g : Grow} (hplan : Plan v g) (hcovers : Covers v g) {c : ℕ}
    (hc : v.clusters.toNat ≤ c) : rd16 (table v g) (2 * c) = 0 := by
  have hbytes := clusters_bytes hplan
  have hlength : (v.fat.take (v.clusters * 2).toNat).length = v.clusters.toNat * 2 := by
    rw [List.length_take, Nat.min_eq_left hcovers.2, hbytes]
  have hbyte {j : ℕ} (hj : v.clusters.toNat * 2 ≤ j) : (table v g).getD j 0 = 0 := by
    unfold table
    dsimp only
    rw [List.getD_append_right _ _ _ _ (by omega), List.getD_eq_getElem?_getD, List.getElem?_replicate]
    split
    · rfl
    · rfl
  unfold rd16
  rw [hbyte (by omega), hbyte (by omega)]
  rfl

theorem entryIn_table {f : File} {v : Vol} {g : Grow} (h : Opened f v) (hplan : Plan v g)
    (hcovers : Covers v g) {k c : ℕ} (hk : k < v.nfat.toNat) (hc : c < g.clusters.toNat) :
    entryIn (grown v g) (reopened v g) k c = rd16 (table v g) (2 * c) := by
  have hroom := hplan.covers
  have htwo : 2 * c + 2 ≤ g.spf.toNat * 512 := by omega
  have hcopy := read_copy h hplan hcovers hk htwo
  unfold entryIn
  have hsame : HostFile.read (grown v g)
      (((reopened v g).fatLba.toNat + k * (reopened v g).spf.toNat) * 512 + 2 * c) 2 =
      ((table v g).drop (2 * c)).take 2 := hcopy
  rw [hsame, rd16_row _ (by decide), Nat.add_zero]

theorem cluster_inside {v : Vol} {g : Grow} (hfields : Fields v) (hplan : Plan v g) {c : ℕ} (hlow : 2 ≤ c)
    (hc : c < v.clusters.toNat) : (c - 2) * v.spc.toNat + v.spc.toNat ≤ v.tot.toNat - before v v.spf.toNat := by
  have hold := hplan.old
  have hle : c - 2 + 1 ≤ dataSecs v v.tot.toNat v.spf.toNat / v.spc.toNat := by omega
  have hmul := (Nat.le_div_iff_mul_le hfields.spc.1).mp hle
  rw [Nat.add_mul, Nat.one_mul] at hmul
  exact hmul

theorem clusLba_toNat {v : Volume} {c : BitVec 16} (hlow : 2 ≤ c.toNat) {n : ℕ}
    (hn : (c.toNat - 2) * v.spc.toNat = n) (hroom : v.dataLba.toNat + n < 4294967296) :
    (clusLba v c).toNat = v.dataLba.toNat + n := by
  have hlt := c.isLt
  have hsub : (c.setWidth 32 - 2).toNat = c.toNat - 2 := by
    rw [BitVec.toNat_sub, BitVec.toNat_setWidth]
    change (4294967296 - 2 + c.toNat % 4294967296) % 4294967296 = _
    omega
  unfold clusLba
  rw [BitVec.toNat_add, BitVec.toNat_mul, hsub, hn]
  omega

theorem sectors_body {f : File} {v : Vol} {g : Grow} (h : Opened f v) (hplan : Plan v g) (hcovers : Covers v g)
    (hbody : (body v).length = bodySecs v * 512) {lba lba' n : BitVec 32} (off : ℕ)
    (hlba : lba.toNat = v.fatLba.toNat + v.nfat.toNat * v.spf.toNat + off)
    (hlba' : lba'.toNat = v.fatLba.toNat + v.nfat.toNat * g.spf.toNat + off)
    (hroom : off + n.toNat ≤ bodySecs v) : sectors (grown v g) lba' n = sectors f lba n := by
  have hbytes : off * 512 + n.toNat * 512 ≤ bodySecs v * 512 := by
    rw [← Nat.add_mul]
    exact Nat.mul_le_mul_right 512 hroom
  have hinside : off * 512 + n.toNat * 512 ≤ (body v).length := by
    rw [hbody]
    exact hbytes
  have hnew := read_body h hplan hcovers hinside
  unfold sectors
  rw [hlba', hlba, Nat.add_mul _ off, hnew]
  unfold body
  rw [read_slice _ _ hbytes, rootLba_toNat h hplan, h.file, ← Nat.add_mul]

theorem grown_grew {f : File} {v : Vol} {g : Grow} (h : Opened f v) (hplan : Plan v g) (hcovers : Covers v g)
    (hbody : (body v).length = bodySecs v * 512) : Grew f v (grown v g) (reopened v g) g := by
  have hfields := Opened.fields h
  have hopened := reopened_opened h hplan hcovers
  have hsecs := bodySecs_eq h hplan
  have hfits := hplan.fits hfields
  have htot := hplan.tot
  have hhead := hplan.fatLba
  have hpart := hplan.part
  have hroot := rootLba_toNat h hplan
  have hproduct := product_toNat hfields hplan.spf.2
  have hrootLba : (reopened v g).rootLba.toNat = v.fatLba.toNat + v.nfat.toNat * g.spf.toNat := by
    change (v.fatLba + v.nfat * g.spf).toNat = _
    unfold before at hfits
    rw [BitVec.toNat_add, hproduct]
    omega
  have hbefore := And.intro (before_lt hfields hfields.spf.2) (before_lt hfields hplan.spf.2)
  refine ⟨?_, volOpen_of hopened, rfl, rfl, ⟨rfl, ?_⟩, ?_, ?_, ?_⟩
  · unfold grown
    rw [append_len, content_length h hplan hcovers hbody]
    exact Nat.zero_add _
  · exact sectors_body h hplan hcovers hbody 0 hroot hrootLba (by
      change 0 + v.rootSecs.toNat ≤ _
      omega)
  · intro k hk c hc
    have hmore := hplan.more
    rw [entryIn_table h hplan hcovers hk (by omega), table_old hplan hcovers hc]
  · intro c hlow hc
    have hinside := cluster_inside hfields hplan hlow hc
    generalize hn : (c.toNat - 2) * v.spc.toNat = n at hinside
    have hdata : v.dataLba.toNat = v.fatLba.toNat + v.nfat.toNat * v.spf.toNat + v.rootSecs.toNat := by
      rw [h.dataLba, BitVec.toNat_add, hroot]
      unfold before at hbefore
      omega
    have hdata' : (reopened v g).dataLba.toNat =
        v.fatLba.toNat + v.nfat.toNat * g.spf.toNat + v.rootSecs.toNat := by
      have hsum := BitVec.toNat_add (reopened v g).rootLba v.rootSecs
      rw [hrootLba] at hsum
      refine hsum.trans ?_
      unfold before at hbefore
      omega
    have hsmall := hplan.small
    have hold : (clusLba v.toVolume c).toNat = v.dataLba.toNat + n :=
      clusLba_toNat hlow hn (by unfold before at hbefore hinside; omega)
    have hnew : (clusLba (reopened v g).toVolume c).toNat = (reopened v g).dataLba.toNat + n :=
      clusLba_toNat hlow hn (by unfold before at hbefore hinside; omega)
    rw [hdata] at hold
    rw [hdata'] at hnew
    refine sectors_body h hplan hcovers hbody (v.rootSecs.toNat + n) ?_ ?_ ?_
    · rw [hold, Nat.add_assoc]
    · rw [hnew, Nat.add_assoc]
    · change v.rootSecs.toNat + n + v.spc.toNat ≤ _
      omega
  · intro k hk c hold hc
    rw [entryIn_table h hplan hcovers hk hc, table_new hplan hcovers hold]

end PeepeeBox.GrownVolume
