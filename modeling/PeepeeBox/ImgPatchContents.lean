import PeepeeBox.ImgPatch

set_option autoImplicit false

/-!
# Where the bytes of a located file are

The chain that `imgpatch.py` walks and the clusters that the reader goes through are the same, so
what the reader brings is the bytes of the image at the file's places.
-/
namespace PeepeeBox.ImgPatch
open CatalogFat HostFile QueryTrees

def row (f : File) (fs : Fat) (c : ℕ) : List Byte := read f (clusOff fs c) (csz fs)

def gather (f : File) (fs : Fat) (size : ℕ) :
    ℕ → List ℕ → List Byte → Except FatError (List Byte)
  | 0, _, out => .ok out
  | _ + 1, [], out => .ok out
  | seen + 1, c :: cs, out =>
    if (row f fs c).length ≠ csz fs then .error (.shortRead (clusOff fs c))
    else if size ≤ (out ++ row f fs c).length then .ok (out ++ row f fs c)
    else gather f fs size seen cs (out ++ row f fs c)

theorem run_atOff (f : File) (off n : ℕ) : run (answer f) (atOff off n) =
    if (read f off n).length ≠ n then .error (.shortRead off) else .ok (read f off n) := by
  unfold atOff
  rw [run_ask, run_ite]
  rfl

theorem run_chainLoop (f : File) (fs : Fat) (size seen : ℕ) {k c : ℕ} {cs : List ℕ}
    (out : List Byte) (hwalk : run (answer f) (walk fs k c) = .ok cs)
    (hk : size + csz fs ≤ out.length + k * csz fs) (hout : out.length < size) :
    run (answer f) (chainLoop fs (some size) seen c out) = gather f fs size seen cs out := by
  induction seen generalizing k c cs out with
  | zero => rfl
  | succ seen ih =>
    cases k with
    | zero => omega
    | succ k =>
      unfold walk at hwalk
      unfold chainLoop
      by_cases hc : 2 ≤ c ∧ ¬eoc fs c
      · rw [if_pos hc] at hwalk ⊢
        obtain ⟨c', hnext, hwalk⟩ := (run_bind_eq_ok _).mp hwalk
        obtain ⟨rest, hrest, hcs⟩ := (run_bind_eq_ok _).mp hwalk
        have hcs : c :: rest = cs := by simpa using hcs
        subst hcs
        rw [run_bind, run_atOff]
        unfold gather
        by_cases hlen : (row f fs c).length = csz fs
        · have hrow : (read f (clusOff fs c) (csz fs)).length = csz fs := hlen
          rw [if_neg (not_not.mpr hrow), if_neg (not_not.mpr hlen)]
          change run (answer f) (if _ then _ else _) = _
          rw [run_ite]
          change (if (some size).any (· ≤ (out ++ row f fs c).length) = true then _ else _) = _
          simp only [Option.any_some, decide_eq_true_eq]
          by_cases hsize : size ≤ (out ++ row f fs c).length
          · rw [if_pos hsize, if_pos hsize]
            rfl
          · rw [if_neg hsize, if_neg hsize, run_bind_ok _ hnext]
            refine ih _ hrest ?_ (Nat.lt_of_not_le hsize)
            rw [List.length_append, hrow]
            rw [Nat.add_mul] at hk
            omega
        · have hrow : ¬(read f (clusOff fs c) (csz fs)).length = csz fs := hlen
          rw [if_pos hrow, if_pos hlen]
          rfl
      · rw [if_neg hc] at hwalk ⊢
        have hcs : [] = cs := by simpa using hwalk
        subst hcs
        rfl

def collected (f : File) (l : Located) : Except FatError (List Byte) :=
  if l.size = 0 then .ok []
  else (gather f l.fs l.size (2 ^ 20) l.chain []).map (List.take l.size)

theorem run_chain (f : File) (l : Located) (hsize : l.size ≠ 0)
    (hwalk : run (answer f) (walk l.fs (rounds l.fs l.size) l.clus) = .ok l.chain) :
    run (answer f) (chain l.fs l.clus (some l.size)) = collected f l := by
  have hpos := csz_pos l.fs
  have hk : l.size + csz l.fs ≤ rounds l.fs l.size * csz l.fs :=
    Nat.le_of_not_lt fun h => Nat.lt_irrefl _ ((lt_rounds _ _ _).mpr h)
  unfold chain collected
  rw [if_neg hsize, run_bind, run_chainLoop f l.fs l.size (2 ^ 20) [] hwalk (by simpa using hk)
    (Nat.pos_of_ne_zero hsize)]
  cases gather f l.fs l.size (2 ^ 20) l.chain [] <;> rfl

theorem locate_inv {upper : List Char → List Char} {path : List Char} {f : File} {l : Located}
    (h : run (answer f) (locate upper path) = .ok (some l)) :
    run (answer f) boot = .ok l.fs ∧
      run (answer f) (find upper l.fs path) = .ok (some ⟨l.clus, l.size, false⟩) ∧
      run (answer f) (walk l.fs (rounds l.fs l.size) l.clus) = .ok l.chain := by
  obtain ⟨fs, hboot, h⟩ := (run_bind_eq_ok _).mp h
  obtain ⟨hit, hfind, h⟩ := (run_bind_eq_ok _).mp h
  cases hit with
  | none => simp at h
  | some hit =>
    obtain ⟨clus, size, isDir⟩ := hit
    cases isDir with
    | true => simp at h
    | false =>
      obtain ⟨chain, hwalk, h⟩ := (run_bind_eq_ok _).mp h
      have hl : (⟨fs, clus, size, chain⟩ : Located) = l := by simpa using h
      subst hl
      exact ⟨hboot, hfind, hwalk⟩

theorem run_readPath {upper : List Char → List Char} {path : List Char} {f : File} {l : Located}
    (h : run (answer f) (locate upper path) = .ok (some l)) :
    run (answer f) (readPath upper l.fs path) = (collected f l).map some := by
  obtain ⟨_, hfind, hwalk⟩ := locate_inv h
  unfold readPath
  rw [run_bind_ok _ hfind]
  by_cases hsize : l.size = 0
  · simp [hsize, collected]
    rfl
  · have hchain := run_chain f l hsize hwalk
    simp only [Bool.false_eq_true, if_false, hsize]
    rw [run_bind, hchain]
    cases collected f l <;> rfl

theorem run_contents {upper : List Char → List Char} {path : List Char} {f : File} {l : Located}
    (h : run (answer f) (locate upper path) = .ok (some l)) :
    run (answer f) (contents upper path) = (collected f l).map some := by
  have hboot := (locate_inv h).1
  unfold contents
  rw [run_bind_ok _ hboot]
  exact run_readPath h

/-- Where in the image the byte at `x` of the file is. -/
def place (l : Located) (x : ℕ) : ℕ :=
  clusOff l.fs (l.chain.getD (x / csz l.fs) 0) + x % csz l.fs

theorem row_length (f : File) (fs : Fat) (c : ℕ) :
    (row f fs c).length = min (csz fs) (f.len - clusOff fs c) := read_length ..

theorem gather_ok {f g : File} (hlen : g.len = f.len) (fs : Fat) (size seen : ℕ) (cs : List ℕ)
    {out d : List Byte} (out' : List Byte) (hout : out'.length = out.length)
    (h : gather f fs size seen cs out = .ok d) :
    ∃ k, k ≤ cs.length ∧ (∀ c ∈ cs.take k, (row f fs c).length = csz fs) ∧
      d = out ++ (cs.take k).flatMap (row f fs) ∧
      gather g fs size seen cs out' = .ok (out' ++ (cs.take k).flatMap (row g fs)) := by
  induction seen generalizing cs out out' with
  | zero =>
    have hd : out = d := by simpa [gather] using h
    exact ⟨0, Nat.zero_le _, by simp, by simp [hd], by simp [gather]⟩
  | succ seen ih =>
    cases cs with
    | nil =>
      have hd : out = d := by simpa [gather] using h
      exact ⟨0, Nat.zero_le _, by simp, by simp [hd], by simp [gather]⟩
    | cons c cs =>
      have hrow : (row g fs c).length = (row f fs c).length := by
        rw [row_length, row_length, hlen]
      unfold gather at h ⊢
      by_cases hfull : (row f fs c).length = csz fs
      · rw [if_neg (not_not.mpr hfull)] at h
        rw [hrow, if_neg (not_not.mpr hfull), List.length_append, hrow, hout]
        rw [List.length_append] at h
        by_cases hsize : size ≤ out.length + (row f fs c).length
        · rw [if_pos hsize] at h ⊢
          have hd : out ++ row f fs c = d := by simpa using h
          exact ⟨1, by simp, by simpa using hfull, by simp [hd], by simp⟩
        · rw [if_neg hsize] at h ⊢
          obtain ⟨k, hk, hall, hd, hg⟩ := ih cs (out' ++ row g fs c) (by simp [hout, hrow]) h
          refine ⟨k + 1, Nat.succ_le_succ hk, ?_, ?_, ?_⟩
          · simpa [hfull] using hall
          · simpa using hd
          · simpa using hg
      · rw [if_pos hfull] at h
        cases h

theorem rows_length {f : File} {fs : Fat} {cs : List ℕ}
    (hall : ∀ c ∈ cs, (row f fs c).length = csz fs) :
    (cs.flatMap (row f fs)).length = cs.length * csz fs := by
  induction cs with
  | nil => simp
  | cons c cs ih =>
    have hc := hall c (List.mem_cons_self ..)
    have hcs := ih fun c' h => hall c' (List.mem_cons_of_mem c h)
    rw [List.flatMap_cons, List.length_append, List.length_cons, Nat.add_mul, hc, hcs]
    omega

theorem rows_getD {f : File} {fs : Fat} {cs : List ℕ} {x : ℕ}
    (hall : ∀ c ∈ cs, (row f fs c).length = csz fs) (hx : x < cs.length * csz fs) :
    (cs.flatMap (row f fs)).getD x 0 =
        f.byte (clusOff fs (cs.getD (x / csz fs) 0) + x % csz fs) ∧
      clusOff fs (cs.getD (x / csz fs) 0) + x % csz fs < f.len := by
  have hpos := csz_pos fs
  induction cs generalizing x with
  | nil => simp at hx
  | cons c cs ih =>
    have hc := hall c (List.mem_cons_self ..)
    have hfit := hc
    rw [row_length] at hfit
    rw [List.flatMap_cons]
    by_cases hlt : x < csz fs
    · rw [Nat.div_eq_of_lt hlt, Nat.mod_eq_of_lt hlt, List.getD_append _ _ _ _ (by omega)]
      exact ⟨read_getD f _ _ x (by omega), by simp; omega⟩
    · obtain ⟨y, rfl⟩ : ∃ y, x = y + csz fs := ⟨x - csz fs, by omega⟩
      rw [List.length_cons, Nat.add_mul] at hx
      have htail := ih (fun c' h => hall c' (List.mem_cons_of_mem c h)) (x := y) (by omega)
      rw [Nat.add_div_right y hpos, Nat.add_mod_right,
        List.getD_append_right _ _ _ _ (by omega), hc, Nat.add_sub_cancel]
      simpa using htail

theorem collected_ok {f : File} {l : Located} {data : List Byte}
    (h : collected f l = .ok data) : ∃ k, k ≤ l.chain.length ∧
      (∀ c ∈ l.chain.take k, (row f l.fs c).length = csz l.fs) ∧
      data = ((l.chain.take k).flatMap (row f l.fs)).take l.size := by
  unfold collected at h
  by_cases hsize : l.size = 0
  · rw [if_pos hsize] at h
    have hd : [] = data := by simpa using h
    exact ⟨0, Nat.zero_le _, by simp, by simp [← hd]⟩
  · rw [if_neg hsize] at h
    cases hg : gather f l.fs l.size (2 ^ 20) l.chain [] with
    | error e =>
      rw [hg] at h
      cases h
    | ok d =>
      rw [hg] at h
      obtain ⟨k, hk, hall, hd, _⟩ := gather_ok rfl l.fs l.size _ l.chain [] rfl hg
      have hdata : d.take l.size = data := by simpa [Except.map] using h
      exact ⟨k, hk, hall, by rw [← hdata, hd, List.nil_append]⟩

theorem collected_byte {f : File} {l : Located} {data : List Byte} {x : ℕ}
    (h : collected f l = .ok data) (hx : x < data.length) :
    data.getD x 0 = f.byte (place l x) ∧ place l x < f.len := by
  have hpos := csz_pos l.fs
  obtain ⟨k, hk, hall, rfl⟩ := collected_ok h
  rw [List.length_take, rows_length hall, List.length_take, Nat.min_eq_left hk] at hx
  have hbyte := rows_getD hall (x := x) (by rw [List.length_take, Nat.min_eq_left hk]; omega)
  have hdiv : x / csz l.fs < k := Nat.div_lt_of_lt_mul (by rw [Nat.mul_comm]; omega)
  have hchain : (l.chain.take k).getD (x / csz l.fs) 0 = l.chain.getD (x / csz l.fs) 0 := by
    simp [List.getD_eq_getElem?_getD, hdiv]
  have hsize : x < l.size := by omega
  rw [hchain] at hbyte
  refine ⟨Eq.trans ?_ hbyte.1, hbyte.2⟩
  simp [List.getD_eq_getElem?_getD, hsize]

theorem collected_twin {f g : File} {l : Located} {data : List Byte} (hlen : g.len = f.len)
    (h : collected f l = .ok data) : ∃ data', collected g l = .ok data' ∧
      data'.length = data.length := by
  unfold collected at h ⊢
  by_cases hsize : l.size = 0
  · rw [if_pos hsize] at h ⊢
    exact ⟨data, h, rfl⟩
  · rw [if_neg hsize] at h ⊢
    cases hg : gather f l.fs l.size (2 ^ 20) l.chain [] with
    | error e =>
      rw [hg] at h
      cases h
    | ok d =>
      rw [hg] at h
      obtain ⟨k, hk, hall, hd, hother⟩ :=
        gather_ok hlen l.fs l.size _ l.chain [] rfl hg
      have hrow : ∀ c, (row g l.fs c).length = (row f l.fs c).length := by
        intro c
        rw [row_length, row_length, hlen]
      have hdata : d.take l.size = data := by simpa [Except.map] using h
      rw [hother]
      refine ⟨_, rfl, ?_⟩
      rw [← hdata, hd, List.length_take, List.length_take, List.nil_append, List.nil_append,
        rows_length hall, rows_length fun c hc => (hrow c).trans (hall c hc)]

end PeepeeBox.ImgPatch
