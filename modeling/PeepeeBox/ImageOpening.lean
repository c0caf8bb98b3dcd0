import Mathlib.Tactic.NormNum
import PeepeeBox.HddImage

set_option autoImplicit false

/-!
# What opening an image does to its file

Creation and extension share one routine.
-/
namespace PeepeeBox.ImageOpening
open HddImage HostFile

theorem fullSizeOf_config (cfg : Config) :
    (fullSizeOf cfg.geometry).toNat = cfg.geometry.bytes ∧ 512 ≤ cfg.geometry.bytes ∧
      cfg.geometry.bytes < 2 ^ 44 := by
  obtain ⟨hspt, hspt'⟩ := cfg.spt_range
  obtain ⟨hhpc, hhpc'⟩ := cfg.hpc_range
  obtain ⟨htracks, htracks'⟩ := cfg.tracks_range
  generalize cfg.geometry = g at *
  unfold fullSizeOf Geometry.bytes
  have htrack := Nat.mul_le_mul hspt' hhpc'
  have hdisk := Nat.mul_le_mul htrack htracks'
  have hone := Nat.mul_le_mul (Nat.mul_le_mul hspt hhpc) htracks
  have hsmall : ∀ x : BitVec 32, (x.setWidth 64).toNat = x.toNat := by
    intro x
    rw [BitVec.toNat_setWidth, Nat.mod_eq_of_lt (by omega)]
  have hproduct : (g.spt.setWidth 64 * g.hpc.setWidth 64 * g.tracks.setWidth 64).toNat =
      g.spt.toNat * g.hpc.toNat * g.tracks.toNat := by
    rw [BitVec.toNat_mul, BitVec.toNat_mul, hsmall, hsmall, hsmall,
      Nat.mod_eq_of_lt (show g.spt.toNat * g.hpc.toNat < 2 ^ 64 by omega),
      Nat.mod_eq_of_lt (by omega)]
  rw [BitVec.toNat_shiftLeft, hproduct, Nat.shiftLeft_eq]
  omega

/-- The size a header states is the size of the geometry it states. -/
def ValidHeader (cfg : Config) (f : File) : Prop :=
  ∀ o, openExisting cfg f = some (.ok o) → o.fullSize.toNat = o.geometry.bytes

theorem leNat_lt (bs : List Byte) : leNat bs < 256 ^ bs.length := by
  induction bs with
  | nil => exact Nat.one_pos
  | cons b bs ih =>
    have hb := b.isLt
    change b.toNat + 256 * leNat bs < 256 ^ (bs.length + 1)
    rw [Nat.pow_succ]
    omega

theorem fetch_lt {f : File} {off n x : ℕ} (h : fetch f off n = some x) : x < 256 ^ n := by
  unfold fetch at h
  split at h
  · rename_i hlength
    cases h
    have hlt := leNat_lt (read f off n)
    rwa [hlength] at hlt
  · cases h

theorem openExisting_base {cfg : Config} {f : File} {o : Opened}
    (h : openExisting cfg f = some (.ok o)) :
    o.fullSize.toNat < 2 ^ 32 ∨ o.base = 0x28 ∨ o.base = 0 := by
  unfold openExisting at h
  split at h
  · obtain ⟨base, -, h⟩ := Option.bind_eq_some_iff.mp h
    obtain ⟨size, hsize, h⟩ := Option.bind_eq_some_iff.mp h
    obtain ⟨sector, -, h⟩ := Option.bind_eq_some_iff.mp h
    split at h
    · cases h
    · obtain ⟨g, -, h⟩ := Option.bind_eq_some_iff.mp h
      cases h
      have hlt := fetch_lt hsize
      refine Or.inl ?_
      change (BitVec.ofNat 64 size).toNat < _
      rw [BitVec.toNat_ofNat, Nat.mod_eq_of_lt (by omega)]
      omega
  · split at h
    · obtain ⟨size, -, h⟩ := Option.bind_eq_some_iff.mp h
      obtain ⟨sector, -, h⟩ := Option.bind_eq_some_iff.mp h
      split at h
      · cases h
      · obtain ⟨g, -, h⟩ := Option.bind_eq_some_iff.mp h
        cases h
        exact Or.inr (Or.inl rfl)
    · cases h
      exact Or.inr (Or.inr rfl)

theorem total_toNat {cfg : Config} {f : File} {o : Opened} (hvalid : ValidHeader cfg f)
    (h : openExisting cfg f = some (.ok o)) :
    (o.fullSize + o.base.setWidth 64).toNat = o.total ∧ o.total < 2 ^ 64 := by
  have hsize := hvalid o h
  have hfull := o.fullSize.isLt
  have hbase := o.base.isLt
  have hsum : o.total < 2 ^ 64 := by
    unfold Opened.total
    rcases openExisting_base h with hsmall | hhdx | hraw
    · omega
    · rw [hhdx]
      unfold Geometry.bytes at hsize ⊢
      change 0x28 + _ < _
      omega
    · rw [hraw]
      change 0 + _ < _
      omega
  refine ⟨?_, hsum⟩
  unfold Opened.total at hsum ⊢
  rw [BitVec.toNat_add, BitVec.toNat_setWidth, hsize, Nat.mod_eq_of_lt (by omega),
    Nat.mod_eq_of_lt (by omega), Nat.add_comm]

theorem writeBlocks_content (t : ℕ) (st : Stream) :
    (writeBlocks t st).content = grow st.content (t * 2 ^ 20) := by
  induction t generalizing st with
  | zero =>
    rw [Nat.zero_mul]
    exact ext_of rfl fun _ => rfl
  | succ t ih =>
    unfold writeBlocks
    rw [ih, Stream.content_append, grow_grow]
    congr 1
    omega

theorem prepareFile_append (st : Stream) (base : BitVec 32) (full : BitVec 64) {n : ℕ}
    (hn : (full + base.setWidth 64 - BitVec.ofNat 64 st.pos).toNat = n) :
    (prepareFile false st base full).content =
      grow st.content (n / 2 ^ 20 % 2 ^ 32 * 2 ^ 20 + n % 2 ^ 20) := by
  have hblocks : (((full + base.setWidth 64 - BitVec.ofNat 64 st.pos) >>> 20).setWidth 32).toNat =
      n / 2 ^ 20 % 2 ^ 32 := by
    rw [BitVec.toNat_setWidth, BitVec.toNat_ushiftRight, hn, Nat.shiftRight_eq_div_pow]
  have hrest : (((full + base.setWidth 64 - BitVec.ofNat 64 st.pos) &&& 0xFFFFF).setWidth 32).toNat =
      n % 2 ^ 20 := by
    rw [BitVec.toNat_setWidth, BitVec.toNat_and, hn]
    change (n &&& (2 ^ 20 - 1)) % 2 ^ 32 = _
    rw [Nat.and_two_pow_sub_one_eq_mod]
    omega
  unfold prepareFile
  rw [if_neg Bool.false_ne_true]
  dsimp only
  split
  · rw [Stream.content_append, writeBlocks_content, grow_grow, hblocks, hrest]
  · rename_i hnone
    have hzero : n % 2 ^ 20 = 0 := by
      rw [← hrest]
      exact Nat.eq_zero_of_not_pos fun hpos => hnone (BitVec.lt_def.mpr hpos)
    rw [writeBlocks_content, hblocks, hzero, Nat.add_zero]

theorem prepareFile_truncate (st : Stream) (base : BitVec 32) (full : BitVec 64) :
    prepareFile true st base full =
      { st with
        file := truncate st.file (full + base.setWidth 64 - BitVec.ofNat 64 st.pos).toNat } :=
  rfl

structure Kept (old new : File) (total : ℕ) : Prop where
  len : new.len = max old.len total
  same : ∀ i < old.len, new.byte i = old.byte i
  zero : ∀ i, old.len ≤ i → new.byte i = 0

theorem kept_grow {f : File} {n total : ℕ} :
    Kept f (grow f n) total ↔ f.len + n = max f.len total := by
  constructor
  · intro h
    exact h.len
  · intro h
    exact ⟨h, fun _ _ => rfl, fun i hi => f.past i hi⟩

theorem kept_truncate {f : File} {n total : ℕ} (htotal : f.len < total) (hn : n = total - f.len) :
    Kept f (truncate f n) total ↔ f.len = 0 := by
  constructor
  · intro h
    have hlen : n = max f.len total := h.len
    omega
  · intro h
    refine ⟨?_, fun i hi => absurd hi (by omega), fun i hi => ?_⟩
    · change n = _
      omega
    · change (if i < n then f.byte i else 0) = 0
      rw [f.past i hi, ite_self]

def extended (unix : Bool) (f : File) (o : Opened) : Stream :=
  let st := (Stream.ofFile f).seekEnd
  if st.pos < (o.fullSize + o.base.setWidth 64).toNat then prepareFile unix st o.base o.fullSize
  else st

theorem seekEnd_pos (f : File) : (Stream.ofFile f).seekEnd.pos = f.len := by
  change (Stream.ofFile f).content.len = f.len
  rw [Stream.content_ofFile]

theorem extended_kept (unix : Bool) {f : File} {o : Opened} {total : ℕ}
    (hsum : (o.fullSize + o.base.setWidth 64).toNat = total) (hlt : total < 2 ^ 64) :
    Kept f (extended unix f o).content total ↔
      if unix = true then f.len = 0 ∨ total ≤ f.len else total < f.len + 2 ^ 52 := by
  unfold extended
  dsimp only
  rw [seekEnd_pos, hsum]
  by_cases hshort : f.len < total
  · have htarget : (o.fullSize + o.base.setWidth 64 -
        BitVec.ofNat 64 (Stream.ofFile f).seekEnd.pos).toNat = total - f.len := by
      rw [seekEnd_pos, BitVec.toNat_sub, hsum, BitVec.toNat_ofNat]
      omega
    rw [if_pos hshort]
    cases unix with
    | true =>
      have hfile : (Stream.ofFile f).seekEnd.file = f := Stream.content_ofFile f
      have hcontent : (prepareFile true (Stream.ofFile f).seekEnd o.base o.fullSize).content =
          truncate f (total - f.len) := by
        rw [prepareFile_truncate, htarget, hfile]
        exact write_nil _ _
      rw [if_pos rfl, hcontent, kept_truncate hshort rfl]
      constructor
      · exact Or.inl
      · intro h
        omega
    | false =>
      rw [if_neg Bool.false_ne_true, prepareFile_append _ _ _ htarget, Stream.content_seekEnd,
        Stream.content_ofFile, kept_grow]
      omega
  · have hkept : Kept f f total :=
      ⟨(Nat.max_eq_left (by omega)).symm, fun _ _ => rfl, fun i hi => f.past i hi⟩
    rw [if_neg hshort, Stream.content_seekEnd, Stream.content_ofFile]
    refine iff_of_true hkept ?_
    split
    · exact Or.inr (by omega)
    · omega

theorem load_some (unix : Bool) (flushed : ℕ) {cfg : Config} (f : File) (hdot : cfg.dot = false) :
    hddImageLoad unix flushed cfg (some f) = (openExisting cfg f).map (openImage unix cfg f) :=
  if_neg (by rw [hdot]; exact Bool.false_ne_true)

theorem openImage_ok (unix : Bool) (cfg : Config) (f : File) (o : Opened) :
    (openImage unix cfg f (.ok o)).file = some (extended unix f o) ∧
      (openImage unix cfg f (.ok o)).total = o.total := by
  unfold openImage extended
  dsimp only
  split
  · exact ⟨rfl, rfl⟩
  · exact ⟨rfl, rfl⟩

structure Fresh (first : List Byte) (new : File) (total : ℕ) : Prop where
  len : new.len = total
  header : ∀ i < first.length, new.byte i = first.getD i 0
  zero : ∀ i, first.length ≤ i → new.byte i = 0

@[simp] theorem leBytes_length (n x : ℕ) : (leBytes n x).length = n := by
  unfold leBytes
  rw [List.length_map, List.length_range]

theorem newHeader_length (type : ImageType) (g : Geometry) :
    (newHeader type g).length = (newBase type).toNat := by
  unfold newHeader
  cases type with
  | raw => rfl
  | hdi =>
    simp only [List.length_append, leBytes_length, List.length_replicate]
    rfl
  | hdx =>
    simp only [List.length_append, leBytes_length]
    rfl

def started (flushed : ℕ) (header : List Byte) : Stream :=
  ((Stream.ofFile empty).fwrite header).settle flushed

theorem started_pos (flushed : ℕ) (header : List Byte) :
    (started flushed header).pos = header.length := Nat.zero_add _

theorem fresh_write (header : List Byte) :
    Fresh header (write empty 0 header) header.length where
  len := by
    change (if header = [] then 0 else max 0 (0 + header.length)) = header.length
    split
    · rename_i hnil
      rw [hnil]
      rfl
    · omega
  header i hi := if_pos ⟨Nat.zero_le _, by omega⟩
  zero i hi := if_neg (by omega)

theorem started_content (flushed : ℕ) (header : List Byte) :
    (started flushed header).content = write empty 0 header := by
  unfold started
  rw [Stream.content_settle _ _ (Nat.le_add_left _ _)]
  change write empty (0 + header.length - ([] ++ header).length) ([] ++ header) = _
  rw [List.nil_append, Nat.zero_add, Nat.sub_self]

theorem created_appended {flushed : ℕ} {header : List Byte} {base : BitVec 32} {full : BitVec 64}
    {total : ℕ} (hbase : header.length = base.toNat) (htotal : total = base.toNat + full.toNat)
    (hfull : full.toNat < 2 ^ 44) :
    Fresh header (prepareFile false (started flushed header) base full).content total := by
  have hlt := base.isLt
  have htarget : (full + base.setWidth 64 - BitVec.ofNat 64 (started flushed header).pos).toNat =
      full.toNat := by
    rw [started_pos, hbase, BitVec.toNat_sub, BitVec.toNat_add, BitVec.toNat_setWidth,
      BitVec.toNat_ofNat]
    omega
  have hwrite := fresh_write header
  rw [prepareFile_append _ _ _ htarget, started_content]
  refine ⟨?_, hwrite.header, hwrite.zero⟩
  have hlen := hwrite.len
  change (write empty 0 header).len + _ = total
  omega

theorem created_truncated {flushed : ℕ} {header : List Byte} {base : BitVec 32} {full : BitVec 64}
    {total : ℕ} (hbase : header.length = base.toNat) (htotal : total = base.toNat + full.toNat)
    (hfull : full.toNat < 2 ^ 44) (hpos : 0 < full.toNat) :
    Fresh header (prepareFile true (started flushed header) base full).content total ↔
      header = [] := by
  have hlt := base.isLt
  have htarget : (full + base.setWidth 64 - BitVec.ofNat 64 (started flushed header).pos).toNat =
      full.toNat := by
    rw [started_pos, hbase, BitVec.toNat_sub, BitVec.toNat_add, BitVec.toNat_setWidth,
      BitVec.toNat_ofNat]
    omega
  have hheld : (started flushed header).held = header.drop flushed := rfl
  have hcontent : (prepareFile true (started flushed header) base full).content =
      write (truncate (started flushed header).file full.toNat)
        (header.length - (header.drop flushed).length) (header.drop flushed) := by
    rw [prepareFile_truncate, htarget]
    change write _ ((started flushed header).pos - _) _ = _
    rw [started_pos]
    rfl
  rw [hcontent]
  constructor
  · intro h
    have hlen : (if header.drop flushed = [] then full.toNat else max full.toNat
      (header.length - (header.drop flushed).length + (header.drop flushed).length)) = total := h.len
    rw [List.length_drop] at hlen
    refine List.eq_nil_of_length_eq_zero ?_
    split at hlen <;> omega
  · intro h
    subst h
    rw [List.drop_nil, write_nil]
    have hzero : base.toNat = 0 := hbase.symm
    refine ⟨?_, fun i hi => absurd hi (Nat.not_lt_zero i), fun i _ => ?_⟩
    · change full.toNat = total
      omega
    · have hempty : (started flushed []).file = empty := by
        unfold started Stream.settle
        change write empty _ (([] : List Byte).take flushed) = empty
        rw [List.take_nil, write_nil]
      rw [hempty]
      exact ite_self 0

theorem load_new (unix : Bool) (flushed : ℕ) {cfg : Config} (hdot : cfg.dot = false)
    (hwp : cfg.wp = false) :
    ∃ img, hddImageLoad unix flushed cfg none = some img ∧
      img.file = some (prepareFile unix (started flushed (newHeader cfg.ext cfg.geometry))
        (newBase cfg.ext) (fullSizeOf cfg.geometry)) ∧
      img.total = (newBase cfg.ext).toNat + cfg.geometry.bytes := by
  unfold hddImageLoad
  rw [if_neg (by rw [hdot]; exact Bool.false_ne_true)]
  dsimp only
  rw [if_neg (by rw [hwp]; exact Bool.false_ne_true)]
  exact ⟨_, rfl, rfl, rfl⟩

theorem newHeader_nil (type : ImageType) (g : Geometry) : newHeader type g = [] ↔ type = .raw := by
  have hlength := newHeader_length type g
  cases type with
  | raw => exact ⟨fun _ => rfl, fun _ => rfl⟩
  | hdi =>
    refine ⟨fun h => ?_, fun h => nomatch h⟩
    rw [h] at hlength
    exact absurd hlength (by decide)
  | hdx =>
    refine ⟨fun h => ?_, fun h => nomatch h⟩
    rw [h] at hlength
    exact absurd hlength (by decide)

/-- Whenever an image ends up open, its file has what it should have. -/
def LosesNothing (unix : Bool) (flushed : ℕ) (cfg : Config) (disk : Option File) : Prop :=
  ∀ img st, hddImageLoad unix flushed cfg disk = some img → img.file = some st →
    match disk with
    | some f => Kept f st.content img.total
    | none => Fresh (newHeader cfg.ext cfg.geometry) st.content img.total

/-- The image is refused, or nothing has to be made, or it is made by appending. -/
def Spared (unix : Bool) (cfg : Config) : Option File → Prop
  | some f => cfg.dot = true ∨ ∀ o, openExisting cfg f = some (.ok o) →
      if unix = true then f.len = 0 ∨ o.total ≤ f.len else o.total < f.len + 2 ^ 52
  | none => cfg.dot = true ∨ cfg.wp = true ∨ unix = false ∨ cfg.ext = .raw

theorem existing_iff (unix : Bool) (flushed : ℕ) {cfg : Config} {f : File}
    (hvalid : ValidHeader cfg f) (hdot : cfg.dot = false) :
    LosesNothing unix flushed cfg (some f) ↔ ∀ o, openExisting cfg f = some (.ok o) →
      if unix = true then f.len = 0 ∨ o.total ≤ f.len else o.total < f.len + 2 ^ 52 := by
  unfold LosesNothing
  rw [load_some unix flushed f hdot]
  constructor
  · intro h o ho
    obtain ⟨hfile, htotal⟩ := openImage_ok unix cfg f o
    obtain ⟨hsum, hlt⟩ := total_toNat hvalid ho
    have hkept := h _ _ (by rw [ho]; rfl) hfile
    rw [htotal] at hkept
    exact (extended_kept unix hsum hlt).mp hkept
  · intro h img st hload hfile
    obtain ⟨found, hfound, rfl⟩ := Option.map_eq_some_iff.mp hload
    cases found with
    | error base => cases hfile
    | ok o =>
      obtain ⟨hfile', htotal⟩ := openImage_ok unix cfg f o
      obtain ⟨hsum, hlt⟩ := total_toNat hvalid hfound
      obtain rfl := Option.some_inj.mp (hfile'.symm.trans hfile)
      rw [htotal]
      exact (extended_kept unix hsum hlt).mpr (h o hfound)

theorem new_iff (unix : Bool) (flushed : ℕ) {cfg : Config} (hdot : cfg.dot = false)
    (hwp : cfg.wp = false) :
    LosesNothing unix flushed cfg none ↔ unix = false ∨ cfg.ext = .raw := by
  obtain ⟨img, hload, hfile, htotal⟩ := load_new unix flushed hdot hwp
  obtain ⟨hfull, hleast, hmost⟩ := fullSizeOf_config cfg
  have hlength := newHeader_length cfg.ext cfg.geometry
  have hiff : LosesNothing unix flushed cfg none ↔
      Fresh (newHeader cfg.ext cfg.geometry) (prepareFile unix
        (started flushed (newHeader cfg.ext cfg.geometry)) (newBase cfg.ext)
          (fullSizeOf cfg.geometry)).content ((newBase cfg.ext).toNat + cfg.geometry.bytes) := by
    rw [← htotal]
    constructor
    · intro h
      exact h img _ hload hfile
    · intro h img' st hload' hfile'
      obtain rfl : img = img' := Option.some_inj.mp (hload.symm.trans hload')
      obtain rfl := Option.some_inj.mp (hfile.symm.trans hfile')
      exact h
  rw [hiff]
  cases unix with
  | false =>
    refine iff_of_true ?_ (Or.inl rfl)
    exact created_appended hlength (by rw [hfull]) (by rw [hfull]; exact hmost)
  | true =>
    rw [created_truncated hlength (by rw [hfull]) (by rw [hfull]; exact hmost) (by omega),
      newHeader_nil]
    exact ⟨Or.inr, fun h => h.resolve_left (by decide)⟩

/-- Opening an image loses nothing exactly when it is spared the file-length call. -/
theorem opening_loses_nothing (unix : Bool) (flushed : ℕ) (cfg : Config) (disk : Option File)
    (hvalid : ∀ f ∈ disk, ValidHeader cfg f) :
    LosesNothing unix flushed cfg disk ↔ Spared unix cfg disk := by
  cases hdot : cfg.dot with
  | true =>
    have hspared : Spared unix cfg disk := by
      cases disk with
      | some f => exact Or.inl hdot
      | none => exact Or.inl hdot
    refine iff_of_true ?_ hspared
    intro img st hload hfile
    unfold hddImageLoad at hload
    rw [if_pos hdot] at hload
    cases hload
    cases hfile
  | false =>
    have hneg : ¬ cfg.dot = true := by
      rw [hdot]
      exact Bool.false_ne_true
    cases disk with
    | some f =>
      rw [existing_iff unix flushed (hvalid f rfl) hdot]
      exact ⟨Or.inr, fun h => h.resolve_left hneg⟩
    | none =>
      cases hwp : cfg.wp with
      | true =>
        refine iff_of_true ?_ (Or.inr (Or.inl hwp))
        intro img st hload hfile
        unfold hddImageLoad at hload
        rw [if_neg hneg] at hload
        dsimp only at hload
        rw [if_pos hwp] at hload
        cases hload
        cases hfile
      | false =>
        rw [new_iff unix flushed hdot hwp]
        exact ⟨fun h => Or.inr (Or.inr h), fun h => (h.resolve_left hneg).resolve_left (by
          rw [hwp]
          exact Bool.false_ne_true)⟩

/-- Two sectors on two tracks. -/
def twoSectors : Config where
  ext := .raw
  dot := false
  wp := false
  geometry := { spt := 1, hpc := 1, tracks := 2 }
  spt_range := by decide
  hpc_range := by decide
  tracks_range := by decide

def shortImage : File where
  len := 1000
  byte i := if i < 1000 then 0xAA else 0
  past _ hi := if_neg (Nat.not_lt.mpr hi)

theorem shortImage_valid : ∀ f ∈ some shortImage, ValidHeader twoSectors f := by
  intro f hf o ho
  obtain rfl := Option.some_inj.mp hf
  cases ho
  rfl

theorem shortImage_extended : LosesNothing false 0 twoSectors (some shortImage) :=
  (opening_loses_nothing false 0 twoSectors (some shortImage) shortImage_valid).mpr
    (Or.inr fun o ho => by
      cases ho
      decide)

/-- Where the length is set instead, 976 of the 1000 bytes are gone. -/
theorem shortImage_cut : (∀ f ∈ some shortImage, ValidHeader twoSectors f) ∧
    ¬ LosesNothing true 0 twoSectors (some shortImage) := by
  refine ⟨shortImage_valid, fun h => ?_⟩
  have hlen := (h _ _ rfl rfl).len
  exact absurd hlen (by decide)

end PeepeeBox.ImageOpening
