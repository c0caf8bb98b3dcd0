import PeepeeBox.FatBounds

set_option autoImplicit false

/-!
# The grown image

What `grow_image` writes, piece by piece, and the search for the length of the table.
-/
namespace PeepeeBox.GrownImage
open Fat16 FatBounds HostFile Ppfix

theorem append_len (f : File) (bs : List Byte) : (append f bs).len = f.len + bs.length := by
  unfold append
  rw [write_len]
  split
  · rename_i hnil
    rw [hnil]
    rfl
  · omega

theorem append_append (f : File) (xs ys : List Byte) : append (append f xs) ys = append f (xs ++ ys) := by
  unfold append
  have hlen := append_len f xs
  unfold append at hlen
  rw [hlen, write_append]

theorem append_nil (f : File) : append f [] = f := write_nil f f.len

theorem appendFats_eq (out : File) (fat : List Byte) (n : ℕ) :
    appendFats out fat n = append out (List.replicate n fat).flatten := by
  induction n with
  | zero => exact (append_nil out).symm
  | succ n ih =>
    unfold appendFats
    rw [ih, append_append, List.replicate_succ', List.flatten_append, List.flatten_singleton]

theorem read_list (bs : List Byte) (off n : ℕ) : HostFile.read (append empty bs) off n = (bs.drop off).take n := by
  have hlen : (append empty bs).len = bs.length := (append_len empty bs).trans (Nat.zero_add _)
  apply List.ext_getElem?
  intro i
  unfold HostFile.read
  rw [List.getElem?_map, hlen, List.getElem?_take]
  by_cases hi : i < n
  · rw [if_pos hi, List.getElem?_drop]
    by_cases hin : off + i < bs.length
    · have hbyte : (append empty bs).byte (off + i) = bs.getD (off + i) 0 :=
        if_pos ⟨Nat.zero_le _, by change _ < 0 + _; omega⟩
      rw [List.getElem?_range (by omega), Option.map_some, hbyte, List.getElem?_eq_getElem hin,
        List.getD_eq_getElem _ _ hin]
    · rw [List.getElem?_eq_none (by rw [List.length_range]; omega), List.getElem?_eq_none (by omega)]
      rfl
  · rw [if_neg hi, List.getElem?_eq_none (by rw [List.length_range]; omega)]
    rfl

theorem sectors_list (bs : List Byte) (lba n : BitVec 32) :
    sectors (append empty bs) lba n = (bs.drop (lba.toNat * 512)).take (n.toNat * 512) :=
  read_list bs _ _

theorem part_row {xs ys zs : List Byte} {off n : ℕ} (h : off + n ≤ ys.length) :
    ((xs ++ (ys ++ zs)).drop (xs.length + off)).take n = (ys.drop off).take n := by
  rw [List.drop_append, List.drop_eq_nil_of_le (Nat.le_add_right _ _), List.nil_append,
    Nat.add_sub_cancel_left, List.drop_append_of_le_length (by omega),
    List.take_append_of_le_length (by rw [List.length_drop]; omega)]

theorem wr16_length (buf : List Byte) (i : ℕ) (x : BitVec 16) : (wr16 buf i x).length = buf.length := by
  unfold wr16
  rw [List.length_set, List.length_set]

theorem wr32_length (buf : List Byte) (i : ℕ) (x : BitVec 32) : (wr32 buf i x).length = buf.length := by
  unfold wr32
  rw [wr16_length, wr16_length]

theorem wr16_other (buf : List Byte) {i j : ℕ} (x : BitVec 16) (h : j < i ∨ i + 1 < j) :
    (wr16 buf i x).getD j 0 = buf.getD j 0 := by
  unfold wr16
  rw [List.getD_eq_getElem?_getD, List.getElem?_set_ne (by omega), List.getElem?_set_ne (by omega),
    ← List.getD_eq_getElem?_getD]

theorem wr32_other (buf : List Byte) {i j : ℕ} (x : BitVec 32) (h : j < i ∨ i + 3 < j) :
    (wr32 buf i x).getD j 0 = buf.getD j 0 := by
  unfold wr32
  rw [wr16_other _ _ (by omega), wr16_other _ _ (by omega)]

theorem rd16_wr16 {buf : List Byte} {i : ℕ} (x : BitVec 16) (h : i + 1 < buf.length) :
    rd16 (wr16 buf i x) i = x := by
  unfold rd16 wr16
  have hset : i + 1 < (buf.set i (x.setWidth 8)).length := by
    rw [List.length_set]
    exact h
  rw [List.getD_eq_getElem?_getD, List.getElem?_set_self hset, List.getD_eq_getElem?_getD,
    List.getElem?_set_ne (by omega), List.getElem?_set_self (by omega)]
  exact word_of_bytes x

theorem halves32 (x : BitVec 32) : ((x >>> 16).setWidth 16 : BitVec 16) ++ (x.setWidth 16 : BitVec 16) = x := by
  apply BitVec.eq_of_getLsbD_eq
  intro i hi
  rw [BitVec.getLsbD_append, BitVec.getLsbD_setWidth, BitVec.getLsbD_setWidth, BitVec.getLsbD_ushiftRight]
  by_cases hlow : i < 16
  · rw [if_pos hlow, decide_eq_true hlow, Bool.true_and]
  · have hback : 16 + (i - 16) = i := by omega
    have hrest : i - 16 < 16 := by omega
    rw [if_neg hlow, decide_eq_true hrest, Bool.true_and, hback]

theorem rd32_halves (bs : List Byte) (i : ℕ) : rd32 bs i = rd16 bs (i + 2) ++ rd16 bs i := by
  apply BitVec.eq_of_getLsbD_eq
  intro j hj
  unfold rd32 rd16
  rw [BitVec.getLsbD_append, BitVec.getLsbD_append, BitVec.getLsbD_append, BitVec.getLsbD_append,
    BitVec.getLsbD_append, BitVec.getLsbD_append]
  by_cases h8 : j < 8
  · have h16 : j < 16 := by omega
    rw [if_pos h8, if_pos h16, if_pos h8]
  · by_cases h16 : j < 16
    · have hone : j - 8 < 8 := by omega
      rw [if_neg h8, if_pos hone, if_pos h16, if_neg h8]
    · have hone : ¬ j - 8 < 8 := by omega
      have htwo : j - 8 - 8 = j - 16 := by omega
      rw [if_neg h8, if_neg hone, if_neg h16, htwo]

theorem rd16_other {buf : List Byte} {i j : ℕ} (x : BitVec 16) (h : j + 1 < i ∨ i + 1 < j) :
    rd16 (wr16 buf i x) j = rd16 buf j := by
  unfold rd16
  rw [wr16_other _ _ (by omega), wr16_other _ _ (by omega)]

theorem rd32_wr32 {buf : List Byte} {i : ℕ} (x : BitVec 32) (h : i + 3 < buf.length) :
    rd32 (wr32 buf i x) i = x := by
  rw [rd32_halves]
  unfold wr32
  rw [rd16_wr16 _ (by rw [wr16_length]; omega), rd16_other _ (by omega), rd16_wr16 _ (by omega)]
  exact halves32 x

/-- A table of `spf` sectors and the clusters it leaves in `tot` sectors. -/
def left (v : Vol) (tot : BitVec 32) (spf : ℕ) : ℕ :=
  (tot.toNat - v.rsvd.toNat - v.nfat.toNat * spf - v.rootSecs.toNat) / v.spc.toNat

structure Fields (v : Vol) : Prop where
  rsvd : v.rsvd.toNat < 65536
  nfat : 0 < v.nfat.toNat ∧ v.nfat.toNat < 256
  spf : 0 < v.spf.toNat ∧ v.spf.toNat < 65536
  root : v.rootSecs.toNat < 4096
  spc : 0 < v.spc.toNat ∧ v.spc.toNat < 256

theorem Opened.fields {f : File} {v : Vol} (h : Opened f v) : Fields v := by
  have hgood := h.good
  generalize hsec : sectors f v.part 1 = sec
  have hbyte (i : ℕ) : ((sec.getD i 0).setWidth 32).toNat < 256 := by
    rw [BitVec.toNat_setWidth]
    have hlt := (sec.getD i 0).isLt
    omega
  have hword (i : ℕ) : ((rd16 sec i).setWidth 32).toNat < 65536 := by
    rw [BitVec.toNat_setWidth]
    have hlt := (rd16 sec i).isLt
    omega
  have hpos {x : BitVec 32} (hx : x ≠ 0) : 0 < x.toNat := by
    refine Nat.pos_of_ne_zero fun hzero => hx ?_
    exact BitVec.eq_of_toNat_eq hzero
  unfold badBpb at hgood
  rw [not_or, not_or, not_or] at hgood
  obtain ⟨hspc, hnfat, hspf, -⟩ := hgood
  refine ⟨?_, ⟨hpos hnfat, ?_⟩, ⟨hpos hspf, ?_⟩, ?_, ⟨hpos hspc, ?_⟩⟩
  · rw [h.rsvd, hsec]
    exact hword 0x0E
  · rw [h.nfat, hsec]
    exact hbyte 0x10
  · rw [h.spf, hsec]
    exact hword 0x16
  · have hents := hword 0x11
    rw [h.rootSecs, hsec, BitVec.toNat_udiv, BitVec.toNat_mul]
    change (_ * 32 % 4294967296) / 512 < 4096
    omega
  · rw [h.spc, hsec]
    exact hbyte 0x0D

theorem product_toNat {v : Vol} (h : Fields v) {spf : BitVec 32} (hspf : spf.toNat < 65536) :
    (v.nfat * spf).toNat = v.nfat.toNat * spf.toNat := by
  have hmul : v.nfat.toNat * spf.toNat ≤ 255 * 65535 := Nat.mul_le_mul (by have := h.nfat; omega) (by omega)
  rw [BitVec.toNat_mul]
  omega

theorem left_toNat {v : Vol} (h : Fields v) {tot spf : BitVec 32} (hspf : spf.toNat < 65536)
    (hroom : v.rsvd.toNat + v.nfat.toNat * spf.toNat + v.rootSecs.toNat ≤ tot.toNat) :
    ((tot - v.rsvd - v.nfat * spf - v.rootSecs) / v.spc).toNat = left v tot spf.toNat := by
  have hproduct := product_toNat h hspf
  have htot := tot.isLt
  have hsub : (tot - v.rsvd - v.nfat * spf - v.rootSecs).toNat =
      tot.toNat - v.rsvd.toNat - v.nfat.toNat * spf.toNat - v.rootSecs.toNat := by
    rw [BitVec.toNat_sub, BitVec.toNat_sub, BitVec.toNat_sub, hproduct]
    generalize v.nfat.toNat * spf.toNat = p at *
    omega
  rw [BitVec.toNat_udiv, hsub]
  rfl

/-- What the search ends with. -/
structure Ends (v : Vol) (tot : BitVec 32) (spf : BitVec 32) (r : BitVec 32 × BitVec 32) : Prop where
  count : r.1.toNat = left v tot r.2.toNat
  room : v.rsvd.toNat + v.nfat.toNat * r.2.toNat + v.rootSecs.toNat ≤ tot.toNat
  covers : (r.1.toNat + 2) * 2 ≤ r.2.toNat * 512
  grows : spf.toNat ≤ r.2.toNat
  short : r.2.toNat < 65536

theorem growSearch_ends {v : Vol} (h : Fields v) {tot : BitVec 32} (htot : tot.toNat ≤ 4124736) (fuel : ℕ)
    {spf : BitVec 32} (hpos : 0 < spf.toNat) (hspf : spf.toNat < 65536)
    (hfuel : 65536 ≤ fuel + spf.toNat)
    (hroom : v.rsvd.toNat + v.nfat.toNat * spf.toNat + v.rootSecs.toNat ≤ tot.toNat) :
    ∃ r, growSearch v tot fuel spf = .ok r ∧ Ends v tot spf r := by
  induction fuel generalizing spf with
  | zero => omega
  | succ fuel ih =>
    have hleft := left_toNat h hspf hroom
    have hbound : left v tot spf.toNat ≤ 4124736 := by
      refine Nat.le_trans (Nat.div_le_self _ _) ?_
      omega
    have hcount : ((((tot - v.rsvd - v.nfat * spf - v.rootSecs) / v.spc) + 2) * 2).toNat =
        (left v tot spf.toNat + 2) * 2 := by
      rw [BitVec.toNat_mul, BitVec.toNat_add, hleft]
      change (_ + 2) % 4294967296 * 2 % 4294967296 = _
      omega
    have htable : (spf * 512).toNat = spf.toNat * 512 := by
      rw [BitVec.toNat_mul]
      change _ * 512 % 4294967296 = _
      omega
    unfold growSearch
    dsimp only
    by_cases hcovers : (left v tot spf.toNat + 2) * 2 ≤ spf.toNat * 512
    · have hle : ((tot - v.rsvd - v.nfat * spf - v.rootSecs) / v.spc + 2) * 2 ≤ spf * 512 := by
        rw [BitVec.le_def, hcount, htable]
        exact hcovers
      rw [if_pos hle]
      refine ⟨_, rfl, hleft, hroom, ?_, Nat.le_refl _, hspf⟩
      rw [hleft]
      exact hcovers
    · have hgt : ¬ ((tot - v.rsvd - v.nfat * spf - v.rootSecs) / v.spc + 2) * 2 ≤ spf * 512 := by
        rw [BitVec.le_def, hcount, htable]
        exact hcovers
      rw [if_neg hgt]
      have hsucc : (spf + 1).toNat = spf.toNat + 1 := by
        rw [BitVec.toNat_add]
        change (_ + 1) % 4294967296 = _
        omega
      have hfat := h.nfat
      have hmany : 255 ≤ left v tot spf.toNat := by omega
      have hsectors := Nat.le_trans hmany (Nat.div_le_self _ _)
      have hnext := Nat.mul_succ v.nfat.toNat spf.toNat
      have hroom' : v.rsvd.toNat + v.nfat.toNat * (spf + 1).toNat + v.rootSecs.toNat ≤ tot.toNat := by
        rw [hsucc, hnext]
        omega
      obtain ⟨r, hr, hends⟩ := ih (by omega) (by omega) (by omega) hroom'
      refine ⟨r, hr, hends.count, hends.room, hends.covers, ?_, hends.short⟩
      have hgrows := hends.grows
      omega

theorem read_add {f : File} {off m : ℕ} (n : ℕ) (h : (HostFile.read f off m).length = m) :
    HostFile.read f off (m + n) = HostFile.read f off m ++ HostFile.read f (off + m) n := by
  rw [read_length] at h
  apply List.ext_getElem?
  intro i
  unfold HostFile.read
  by_cases hi : i < m
  · rw [List.getElem?_append_left (by rw [List.length_map, List.length_range]; omega), List.getElem?_map,
      List.getElem?_map, List.getElem?_range (by omega), List.getElem?_range (by omega)]
  · rw [List.getElem?_append_right (by rw [List.length_map, List.length_range]; omega), List.length_map,
      List.length_range, List.getElem?_map, List.getElem?_map]
    by_cases hin : i < min (m + n) (f.len - off)
    · rw [List.getElem?_range hin, List.getElem?_range (by omega), Option.map_some, Option.map_some]
      congr 2
      omega
    · rw [List.getElem?_eq_none (by rw [List.length_range]; omega),
        List.getElem?_eq_none (by rw [List.length_range]; omega)]
      rfl

theorem read_none (f : File) (off : ℕ) : HostFile.read f off 0 = [] := by
  apply List.eq_nil_of_length_eq_zero
  rw [read_length, Nat.zero_min]

/-- Whether the image holds all of some bytes. -/
def Holds (f : File) (off n : ℕ) : Prop := (HostFile.read f off n).length = n

instance (f : File) (off n : ℕ) : Decidable (Holds f off n) := inferInstanceAs (Decidable (_ = _))

theorem holds_add {f : File} {off m n : ℕ} : Holds f off (m + n) ↔ Holds f off m ∧ Holds f (off + m) n := by
  unfold Holds
  rw [read_length, read_length, read_length]
  omega

theorem copyChunks_eq (f : File) {stop : BitVec 32} (hstop : stop.toNat ≤ 4124736) (fuel : ℕ) {lba : BitVec 32}
    (hfuel : stop.toNat - lba.toNat + 2048 ≤ fuel * 2048) (done : BitVec 32) (out : File) :
    copyChunks f stop fuel lba done out =
      .ok (if Holds f (lba.toNat * 512) ((stop.toNat - lba.toNat) * 512) then
        some (append out (HostFile.read f (lba.toNat * 512) ((stop.toNat - lba.toNat) * 512)),
          done + BitVec.ofNat 32 (stop.toNat - lba.toNat))
      else none) := by
  induction fuel generalizing lba done out with
  | zero => omega
  | succ fuel ih =>
    unfold copyChunks
    by_cases hmore : lba < stop
    · rw [if_pos hmore]
      have hlt : lba.toNat < stop.toNat := hmore
      have hsub : (stop - lba).toNat = stop.toNat - lba.toNat := by
        rw [BitVec.toNat_sub]
        omega
      have hchunk : chunk.toNat = 2048 := rfl
      generalize hn : (if stop - lba < chunk then stop - lba else chunk) = n
      have hn' : n.toNat = min (stop.toNat - lba.toNat) 2048 := by
        rw [← hn]
        split
        · rename_i hlast
          have hlast' : (stop - lba).toNat < 2048 := hlast
          omega
        · rename_i hlast
          have hlast' : ¬ (stop - lba).toNat < 2048 := hlast
          omega
      have hnext : (lba + chunk).toNat = lba.toNat + 2048 := by
        rw [BitVec.toNat_add, hchunk]
        omega
      have hroom : n.toNat * 512 ≤ (chunk * 512).toNat := by
        change _ ≤ 2048 * 512
        omega
      have hparts : (stop.toNat - lba.toNat) * 512 =
          n.toNat * 512 + (stop.toNat - (lba + chunk).toNat) * 512 := by omega
      have hstart : lba.toNat * 512 + n.toNat * 512 = (lba + chunk).toNat * 512 ∨
          stop.toNat - (lba + chunk).toNat = 0 := by omega
      rw [hparts]
      dsimp only
      by_cases hwhole : Holds f (lba.toNat * 512) (n.toNat * 512)
      · rw [secRead_some f lba hroom hwhole]
        change copyChunks f stop fuel (lba + chunk) (done + n) (append out (sectors f lba n)) = _
        rw [ih (by omega), append_append, BitVec.add_assoc]
        have hcount : n + BitVec.ofNat 32 (stop.toNat - (lba + chunk).toNat) =
            BitVec.ofNat 32 (stop.toNat - lba.toNat) := by
          apply BitVec.eq_of_toNat_eq
          rw [BitVec.toNat_add, BitVec.toNat_ofNat, BitVec.toNat_ofNat]
          omega
        have hrest : HostFile.read f (lba.toNat * 512 + n.toNat * 512)
              ((stop.toNat - (lba + chunk).toNat) * 512) =
            HostFile.read f ((lba + chunk).toNat * 512) ((stop.toNat - (lba + chunk).toNat) * 512) := by
          rcases hstart with heq | hzero
          · rw [heq]
          · rw [hzero, Nat.zero_mul, read_none, read_none]
        have hholds : Holds f (lba.toNat * 512)
              (n.toNat * 512 + (stop.toNat - (lba + chunk).toNat) * 512) ↔
            Holds f ((lba + chunk).toNat * 512) ((stop.toNat - (lba + chunk).toNat) * 512) := by
          rw [holds_add]
          unfold Holds at hwhole ⊢
          rw [hrest]
          exact and_iff_right hwhole
        rw [hcount, read_add _ hwhole, hrest, if_congr hholds rfl rfl]
        rfl
      · have hnot : ¬ Holds f (lba.toNat * 512)
            (n.toNat * 512 + (stop.toNat - (lba + chunk).toNat) * 512) := fun h => hwhole (holds_add.mp h).1
        rw [secRead_none f lba hroom hwhole, if_neg hnot]
        rfl
    · rw [if_neg hmore]
      have hge : ¬ lba.toNat < stop.toNat := hmore
      have hzero : stop.toNat - lba.toNat = 0 := by omega
      rw [hzero, Nat.zero_mul, read_none, append_nil, if_pos (by unfold Holds; rw [read_none]; rfl)]
      exact congrArg (fun done => Except.ok (some (out, done))) (BitVec.add_zero done).symm

theorem zeroChunks_eq (fuel : ℕ) {done : BitVec 32} (hfuel : 4124736 - done.toNat + 2048 ≤ fuel * 2048)
    (out : File) :
    zeroChunks fuel done out = .ok (append out (List.replicate ((4124736 - done.toNat) * 512) 0)) := by
  induction fuel generalizing done out with
  | zero => omega
  | succ fuel ih =>
    unfold zeroChunks
    have hcabinet : cabinetSecs.toNat = 4124736 := rfl
    by_cases hmore : done < cabinetSecs
    · rw [if_pos hmore]
      have hlt : done.toNat < 4124736 := hmore
      have hsub : (cabinetSecs - done).toNat = 4124736 - done.toNat := by
        rw [BitVec.toNat_sub]
        omega
      generalize hn : (if cabinetSecs - done < chunk then cabinetSecs - done else chunk) = n
      have hn' : n.toNat = min (4124736 - done.toNat) 2048 := by
        rw [← hn]
        split
        · rename_i hlast
          have hlast' : (cabinetSecs - done).toNat < 2048 := hlast
          omega
        · rename_i hlast
          have hlast' : ¬ (cabinetSecs - done).toNat < 2048 := hlast
          change 2048 = _
          omega
      have hnext : (done + n).toNat = done.toNat + n.toNat := by
        rw [BitVec.toNat_add]
        omega
      have hparts : (4124736 - done.toNat) * 512 = n.toNat * 512 + (4124736 - (done + n).toNat) * 512 := by
        omega
      dsimp only
      rw [ih (by omega), append_append, List.replicate_append_replicate, hparts]
    · rw [if_neg hmore]
      have hge : ¬ done.toNat < 4124736 := hmore
      have hzero : 4124736 - done.toNat = 0 := by omega
      rw [hzero, Nat.zero_mul, List.replicate_zero, append_nil]

def at13 (v : Vol) : ℕ := (v.part * 512 + 0x13).toNat

def at16 (v : Vol) : ℕ := (v.part * 512 + 0x16).toNat

def at20 (v : Vol) : ℕ := (v.part * 512 + 0x20).toNat

def Pokes (v : Vol) : Prop := at13 v + 2 ≤ 1048576 ∧ at16 v + 2 ≤ 1048576 ∧ at20 v + 4 ≤ 1048576

instance (v : Vol) : Decidable (Pokes v) := inferInstanceAs (Decidable (_ ∧ _))

/-- The tables, old and new, reach over the old clusters. -/
def Covers (v : Vol) (g : Grow) : Prop :=
  (v.clusters * 2).toNat ≤ (g.spf * 512).toNat ∧ (v.clusters * 2).toNat ≤ v.fat.length

instance (v : Vol) (g : Grow) : Decidable (Covers v g) := inferInstanceAs (Decidable (_ ∧ _))

def header (v : Vol) (g : Grow) : List Byte :=
  let buf := wr32 (HostFile.read v.f 0 (v.fatLba.toNat * 512)) (0x1BE + 12) g.tot
  wr32 (wr16 (wr16 buf (at13 v) 0) (at16 v) (g.spf.setWidth 16)) (at20 v) g.tot

def table (v : Vol) (g : Grow) : List Byte :=
  let old := v.fat.take (v.clusters * 2).toNat
  old ++ List.replicate ((g.spf * 512).toNat - old.length) 0

def bodySecs (v : Vol) : ℕ := (v.part + v.tot).toNat - v.rootLba.toNat

def body (v : Vol) : List Byte := HostFile.read v.f (v.rootLba.toNat * 512) (bodySecs v * 512)

def copied (v : Vol) (g : Grow) : BitVec 32 :=
  v.fatLba + v.nfat * g.spf + BitVec.ofNat 32 (bodySecs v)

def content (v : Vol) (g : Grow) : List Byte :=
  header v g ++ ((List.replicate v.nfat.toNat (table v g)).flatten ++
    (body v ++ List.replicate ((4124736 - (copied v g).toNat) * 512) 0))

theorem Opened.head_held {f : File} {v : Vol} (h : Opened f v) :
    (sectors f 0 v.fatLba).length = v.fatLba.toNat * 512 := by
  have hspf := (Opened.fields h).spf.1
  have htable := h.table
  unfold sectors at htable ⊢
  rw [read_length] at htable ⊢
  have hroom := Nat.min_le_right (v.spf.toNat * 512) (f.len - v.fatLba.toNat * 512)
  rw [htable] at hroom
  have hsome := Nat.le_mul_of_pos_left 512 hspf
  refine Nat.min_eq_left ?_
  exact Nat.le_of_lt (Nat.lt_of_sub_pos (Nat.lt_of_lt_of_le (by decide) (Nat.le_trans hsome hroom)))

theorem growImage_eq {f : File} {v : Vol} (h : Opened f v) (hstop : (v.part + v.tot).toNat ≤ 4124736)
    (g : Grow) :
    growImage f g =
      if chunk < v.fatLba then .ok none
      else if Pokes v ∧ Covers v g then
        .ok (if Holds f (v.rootLba.toNat * 512) (bodySecs v * 512) then some (append empty (content v g))
          else none)
      else .error .copy := by
  have hf := h.file
  unfold growImage
  rw [volOpen_of h]
  change (if chunk < v.fatLba then _ else secRead (chunk * 512).toNat f 0 v.fatLba >>= _) = _
  by_cases hbig : chunk < v.fatLba
  · rw [if_pos hbig, if_pos hbig]
  have hle : v.fatLba.toNat ≤ 2048 := Nat.le_of_not_lt hbig
  have hhead := Opened.head_held h
  have hcap : (chunk * 512 : BitVec 32).toNat = 1048576 := by decide +kernel
  rw [if_neg hbig, if_neg hbig, hcap, secRead_some f 0 (by omega) hhead, ok_bind]
  dsimp only
  unfold poke
  rw [if_pos (by decide), ok_bind]
  have hbuf : sectors f 0 v.fatLba = HostFile.read v.f 0 (v.fatLba.toNat * 512) := by
    rw [hf]
    rfl
  by_cases h13 : at13 v + 2 ≤ 1048576
  swap
  · have hnot : ¬ (Pokes v ∧ Covers v g) := fun hboth => h13 hboth.1.1
    unfold at13 at h13
    rw [if_neg h13, error_bind, if_neg hnot]
  by_cases h16 : at16 v + 2 ≤ 1048576
  swap
  · have hnot : ¬ (Pokes v ∧ Covers v g) := fun hboth => h16 hboth.1.2.1
    unfold at13 at h13
    unfold at16 at h16
    rw [if_pos h13, ok_bind, if_neg h16, error_bind, if_neg hnot]
  by_cases h20 : at20 v + 4 ≤ 1048576
  swap
  · have hnot : ¬ (Pokes v ∧ Covers v g) := fun hboth => h20 hboth.1.2.2
    unfold at13 at h13
    unfold at16 at h16
    unfold at20 at h20
    rw [if_pos h13, ok_bind, if_pos h16, ok_bind, if_neg h20, error_bind, if_neg hnot]
  have hpokes : Pokes v := ⟨h13, h16, h20⟩
  unfold at13 at h13
  unfold at16 at h16
  unfold at20 at h20
  rw [if_pos h13, ok_bind, if_pos h16, ok_bind, if_pos h20, ok_bind]
  by_cases hshort : (g.spf * 512).toNat < (v.clusters * 2).toNat ∨ v.fat.length < (v.clusters * 2).toNat
  · have hnot : ¬ (Pokes v ∧ Covers v g) := by
      intro ⟨_, hgrown, hold⟩
      rcases hshort with hlt | hlt
      · exact Nat.not_lt.mpr hgrown hlt
      · exact Nat.not_lt.mpr hold hlt
    rw [if_pos hshort, if_neg hnot]
  · have hcovers : Covers v g :=
      ⟨Nat.not_lt.mp fun hlt => hshort (Or.inl hlt), Nat.not_lt.mp fun hlt => hshort (Or.inr hlt)⟩
    rw [if_neg hshort, if_pos ⟨hpokes, hcovers⟩, hbuf, copyChunks_eq f hstop _ (by omega), ok_bind]
    by_cases hholds : Holds f (v.rootLba.toNat * 512) (bodySecs v * 512)
    · rw [if_pos hholds]
      unfold bodySecs at hholds
      rw [if_pos hholds]
      dsimp only
      rw [zeroChunks_eq _ (by omega), ok_bind, appendFats_eq, append_append, append_append, append_append]
      refine congrArg (fun bs => Except.ok (some (append empty bs))) ?_
      unfold content header body copied
      rw [hf]
      rfl
    · rw [if_neg hholds]
      unfold bodySecs at hholds
      rw [if_neg hholds]

end PeepeeBox.GrownImage
