import PeepeeBox.FixedArrays
import PeepeeBox.ImgPatchContents

set_option autoImplicit false

/-!
# All or nothing: `imgpatch.py`

Where every patched byte is the file's own, the write loop does to the image what laying the patches
over the contents does; what else may be in a patch's way is said by `InPlace`.
-/
namespace PeepeeBox.ImgPatch
open CatalogFat FixedArrays HostFile QueryTrees

def start (n : ℕ) (p : Patch) : ℕ := bound n p.fo

def layAll : List Patch → List Byte → Except (List Byte) (List Byte)
  | [], d => .ok d
  | p :: ps, d =>
    if got d p = p.new then layAll ps d
    else if got d p = p.old then layAll ps (put d (start d.length p) p.new)
    else .error d

theorem slice_length (d : List Byte) (i j : ℤ) :
    (slice d i j).length = bound d.length j - bound d.length i := by
  simp [slice, bound]

theorem slice_getD {d : List Byte} {i j : ℤ} {k : ℕ} (hk : k < (slice d i j).length) :
    (slice d i j).getD k 0 = d.getD (bound d.length i + k) 0 := by
  rw [slice_length] at hk
  have hlt : bound d.length i + k < bound d.length j := by omega
  simp [slice, List.getD_eq_getElem?_getD, hlt]

structure Fits (n : ℕ) (p : Patch) : Prop where
  len : p.old.length = p.new.length
  stop : bound n (p.fo + p.old.length) = start n p + p.new.length
  inside : start n p + p.new.length ≤ n

theorem bound_le (n : ℕ) (i : ℤ) : bound n i ≤ n := Nat.min_le_left _ _

theorem checkPatch_fits {data : List Byte} {p : Patch}
    (h : checkPatch (some data) p = .ok ()) : Fits data.length p := by
  have hstop := bound_le data.length (p.fo + p.old.length)
  have hlength := slice_length data p.fo (p.fo + p.old.length)
  unfold checkPatch at h
  by_cases hlen : p.old.length = p.new.length
  · have hgot : (got data p).length = p.new.length := by
      rw [if_neg (not_not.mpr hlen)] at h
      by_cases hnew : got data p = p.new
      · rw [hnew]
      · by_cases hold : got data p = p.old
        · rw [hold, hlen]
        · simp [hnew, hold] at h
    have hend : bound data.length (p.fo + p.old.length) = start data.length p + p.new.length := by
      unfold got at hgot
      unfold start
      by_cases hzero : p.new.length = 0
      · simp [hlen, hzero]
      · omega
    exact ⟨hlen, hend, hend ▸ hstop⟩
  · rw [if_pos hlen] at h
    cases h

theorem checkAll_fits {data : List Byte} {ps : List Patch}
    (h : checkAll (some data) ps = .ok ()) : ∀ p ∈ ps, Fits data.length p := by
  induction ps with
  | nil => simp
  | cons q ps ih =>
    unfold checkAll at h
    cases hq : checkPatch (some data) q with
    | error e =>
      rw [hq] at h
      cases h
    | ok u =>
      rw [hq] at h
      intro p hp
      rcases List.mem_cons.mp hp with rfl | hp
      · exact checkPatch_fits hq
      · exact ih h p hp

theorem got_length {d : List Byte} {p : Patch} (h : Fits d.length p) :
    (got d p).length = p.new.length := by
  unfold got
  rw [slice_length, h.stop]
  exact Nat.add_sub_cancel_left ..

theorem got_getD {d : List Byte} {p : Patch} {k : ℕ} (h : Fits d.length p)
    (hk : k < p.new.length) : (got d p).getD k 0 = d.getD (start d.length p + k) 0 :=
  slice_getD (by rw [← got_length h] at hk; exact hk)

def Covers (n : ℕ) (p : Patch) (x : ℕ) : Prop := start n p ≤ x ∧ x < bound n (p.fo + p.new.length)

structure Patched (upper : List Char → List Char) (path : List Char) (ps : List Patch) (f g : File)
    (l : Located) (data back : List Byte) : Prop where
  located : run (answer f) (locate upper path) = .ok (some l)
  before : run (answer f) (contents upper path) = .ok (some data)
  after : run (answer g) (contents upper path) = .ok (some back)
  size : back.length = data.length
  kept : ∀ x < data.length, (∀ p ∈ ps, ¬Covers data.length p x) → back.getD x 0 = data.getD x 0
  new : ∀ p ∈ ps, slice back p.fo (p.fo + p.new.length) = p.new
  len : g.len = f.len
  rest : ∀ q, (∀ p ∈ ps, ∀ x, Covers data.length p x → q ≠ place l x) → g.byte q = f.byte q

def AllOrNothing (upper : List Char → List Char) (path : List Char) (ps : List Patch) (f : File) :
    Prop :=
  (∃ e, imgpatch upper path ps f = (f, .error e)) ∨
    ∃ g n, imgpatch upper path ps f = (g, .ok (true, n)) ∧
      ∃ l data back, Patched upper path ps f g l data back

/-- The file is there and its contents pass the check. -/
structure Accepted (upper : List Char → List Char) (path : List Char) (ps : List Patch) (f : File)
    (l : Located) (data : List Byte) : Prop where
  located : run (answer f) (locate upper path) = .ok (some l)
  before : run (answer f) (contents upper path) = .ok (some data)
  checked : checkAll (some data) ps = .ok ()

def Touches : Query → ℕ → Prop
  | .size, _ => False
  | .bytes off n, q => off ≤ q ∧ q < off + n

/-- Every patch lies in one piece on the disk where `img_off` puts it, no other byte of the file lies
there, and nothing there is read to find the file. -/
structure InPlace (upper : List Char → List Char) (path : List Char) (ps : List Patch) (f : File)
    (l : Located) (data : List Byte) : Prop where
  whole : ∀ p ∈ ps, ∃ o, imgOff l p.fo = some o ∧
    ∀ i < p.new.length, place l (start data.length p + i) = o + i
  alone : ∀ p ∈ ps, ∀ i < p.new.length, ∀ x < data.length,
    place l x = place l (start data.length p + i) → x = start data.length p + i
  apart : ∀ p ∈ ps, ∀ i < p.new.length, ∀ q ∈ asked (answer f) (locate upper path),
    ¬Touches q (place l (start data.length p + i))

/-- Laid in order, all patches fit and in the end each is there; or where one does not fit, the
contents are what they were. -/
def LaysOut (ps : List Patch) (data : List Byte) : Prop :=
  match layAll ps data with
  | .ok d => ∀ p ∈ ps, holdsNew d p = true
  | .error d => d = data

def Untouched (l : Located) (f : File) : List Patch → Prop
  | [] => False
  | p :: ps =>
    match imgOff l p.fo with
    | none => True
    | some o =>
      if read f o p.old.length = p.new then Untouched l f ps else read f o p.old.length ≠ p.old

def Keeps (upper : List Char → List Char) (path : List Char) (ps : List Patch) (f : File) : Prop :=
  (¬∃ l data, Accepted upper path ps f l data) ∨
    ∃ l data, Accepted upper path ps f l data ∧
      (Untouched l f ps ∨ InPlace upper path ps f l data ∧ LaysOut ps data)

variable {upper : List Char → List Char} {path : List Char} {ps : List Patch} {f : File}
  {l : Located} {data : List Byte}

/-- The image `h` holds the contents `d` at the file's places and is as before elsewhere. -/
structure Shows (ps : List Patch) (f : File) (l : Located) (data : List Byte) (h : File)
    (d : List Byte) : Prop where
  len : h.len = f.len
  size : d.length = data.length
  byte : ∀ x < data.length, h.byte (place l x) = d.getD x 0
  rest : ∀ q, (∀ p ∈ ps, ∀ i < p.new.length, q ≠ place l (start data.length p + i)) →
    h.byte q = f.byte q

def Agrees (ps : List Patch) (f : File) (l : Located) (data : List Byte) :
    File × Except Stop Unit → Except (List Byte) (List Byte) → Prop
  | (h, .ok ()), .ok d => Shows ps f l data h d
  | (h, .error _), .error d => Shows ps f l data h d
  | _, _ => False

theorem Accepted.fits (A : Accepted upper path ps f l data) : ∀ p ∈ ps, Fits data.length p :=
  checkAll_fits A.checked

theorem Accepted.bytes (A : Accepted upper path ps f l data) : collected f l = .ok data := by
  have h := A.before
  rw [run_contents A.located] at h
  cases hc : collected f l with
  | error e =>
    rw [hc] at h
    cases h
  | ok d =>
    rw [hc] at h
    have hd : d = data := by simpa [Except.map] using h
    rw [hd]

theorem Accepted.shows (A : Accepted upper path ps f l data) : Shows ps f l data f data where
  len := rfl
  size := rfl
  byte _ hx := (collected_byte A.bytes hx).1.symm
  rest _ _ := rfl

section
variable (A : Accepted upper path ps f l data) (P : InPlace upper path ps f l data)
include A P

theorem run_inside {p : Patch} {o : ℕ} (hp : p ∈ ps) (ho : imgOff l p.fo = some o) {i : ℕ}
    (hi : i < p.new.length) : place l (start data.length p + i) = o + i ∧ o + i < f.len := by
  have hfit := (A.fits p hp).inside
  obtain ⟨o', ho', hplace⟩ := P.whole p hp
  have heq : o' = o := Option.some.inj (ho'.symm.trans ho)
  subst heq
  have hlt := (collected_byte A.bytes (x := start data.length p + i) (by omega)).2
  rw [hplace i hi] at hlt
  exact ⟨hplace i hi, hlt⟩

theorem shown_read {p : Patch} {o : ℕ} {h : File} {d : List Byte} (hp : p ∈ ps)
    (ho : imgOff l p.fo = some o) (hs : Shows ps f l data h d) :
    read h o p.old.length = got d p := by
  have hfit : Fits d.length p := hs.size ▸ A.fits p hp
  have hread : (read h o p.old.length).length = p.new.length := by
    rw [read_length, hfit.len, hs.len]
    cases hn : p.new.length with
    | zero => exact Nat.zero_min _
    | succ n =>
      have hlast := (run_inside A P hp ho (i := n) (by omega)).2
      omega
  refine eq_of_getD 0 (hread.trans (got_length hfit).symm) ?_
  intro i hi
  have hi' : i < p.new.length := hread ▸ hi
  have hplace := (run_inside A P hp ho hi').1
  have hinside := (A.fits p hp).inside
  rw [read_length] at hi
  rw [read_getD h o _ i hi, got_getD hfit hi', hs.size, ← hs.byte _ (by omega), hplace]

theorem shown_write {p : Patch} {o : ℕ} {h : File} {d : List Byte} (hp : p ∈ ps)
    (ho : imgOff l p.fo = some o) (hs : Shows ps f l data h d) :
    Shows ps f l data (write h o p.new) (put d (start d.length p) p.new) := by
  have hfit : Fits d.length p := hs.size ▸ A.fits p hp
  have hrun := fun i hi => run_inside A P hp ho (i := i) hi
  refine ⟨?_, (put_length hfit.inside).trans hs.size, ?_, ?_⟩
  · rw [← hs.len, write_len]
    cases hn : p.new with
    | nil => exact if_pos rfl
    | cons b bs =>
      have hlast := (hrun bs.length (by simp [hn])).2
      rw [if_neg (List.cons_ne_nil b bs), List.length_cons, hs.len]
      omega
  · intro x hx
    rw [write_byte, put_getD hfit.inside, hs.size]
    by_cases hin : o ≤ place l x ∧ place l x < o + p.new.length
    · have hi : place l x - o < p.new.length := by omega
      have hplace := (hrun _ hi).1
      have hx' : x = start data.length p + (place l x - o) :=
        P.alone p hp _ hi x hx (by rw [hplace]; omega)
      rw [if_pos hin, if_pos (by omega)]
      congr 1
      omega
    · rw [if_neg hin, hs.byte x hx]
      refine (if_neg ?_).symm
      intro hcov
      have hplace := (hrun (x - start data.length p) (by omega)).1
      rw [Nat.add_sub_cancel' hcov.1] at hplace
      omega
  · intro q hq
    rw [write_byte, if_neg, hs.rest q hq]
    intro hin
    have hi : q - o < p.new.length := by omega
    exact hq p hp _ hi (by rw [(hrun _ hi).1]; omega)

theorem writeAll_agrees {todo : List Patch} (htodo : ∀ p ∈ todo, p ∈ ps) {h : File}
    {d : List Byte} (hs : Shows ps f l data h d) :
    Agrees ps f l data (writeAll l todo h) (layAll todo d) := by
  induction todo generalizing h d with
  | nil => exact hs
  | cons p todo ih =>
    have hp := htodo p (List.mem_cons_self ..)
    have hrest := fun q hq => htodo q (List.mem_cons_of_mem p hq)
    obtain ⟨o, ho, _⟩ := P.whole p hp
    have hread := shown_read A P hp ho hs
    unfold writeAll layAll
    rw [ho]
    simp only [hread]
    by_cases hnew : got d p = p.new
    · rw [if_pos hnew, if_pos hnew]
      exact ih hrest hs
    · rw [if_neg hnew, if_neg hnew]
      by_cases hold : got d p = p.old
      · rw [if_pos hold, if_pos hold]
        exact ih hrest (shown_write A P hp ho hs)
      · rw [if_neg hold, if_neg hold]
        exact hs

omit A in
theorem locate_again {g : File} {d : List Byte} (hs : Shows ps f l data g d) :
    run (answer g) (locate upper path) = run (answer f) (locate upper path) := by
  refine run_congr _ ?_
  intro q hq
  cases q with
  | size => exact hs.len
  | bytes off n =>
    refine read_congr hs.len ?_
    intro i hoff hi
    refine hs.rest i ?_
    intro p hp k hk heq
    exact P.apart p hp k hk _ hq (heq ▸ ⟨hoff, hi⟩)

theorem contents_again {g : File} {d : List Byte} (hs : Shows ps f l data g d) :
    run (answer g) (contents upper path) = .ok (some d) := by
  have hlocated : run (answer g) (locate upper path) = .ok (some l) :=
    (locate_again P hs).trans A.located
  obtain ⟨back, hback, hlen⟩ := collected_twin hs.len A.bytes
  have heq : back = d := by
    refine eq_of_getD 0 (hlen.trans hs.size.symm) ?_
    intro x hx
    rw [(collected_byte hback hx).1]
    exact hs.byte x (hlen ▸ hx)
  rw [run_contents hlocated, hback, heq]
  rfl

theorem shown_patched {g : File} {d : List Byte} (hs : Shows ps f l data g d)
    (hnew : ∀ p ∈ ps, holdsNew d p = true) : Patched upper path ps f g l data d := by
  have hfits := A.fits
  have hstop : ∀ p ∈ ps, bound data.length (p.fo + p.new.length) =
      start data.length p + p.new.length := by
    intro p hp
    rw [← (hfits p hp).len]
    exact (hfits p hp).stop.trans (congrArg _ (hfits p hp).len.symm)
  refine ⟨A.located, A.before, contents_again A P hs, hs.size, ?_, ?_, hs.len, ?_⟩
  · intro x hx hfree
    rw [← hs.byte x hx, (collected_byte A.bytes hx).1]
    refine hs.rest _ ?_
    intro p hp i hi heq
    have hx' := P.alone p hp i hi x hx heq
    exact hfree p hp ⟨by omega, by rw [hstop p hp]; omega⟩
  · intro p hp
    simpa [holdsNew] using hnew p hp
  · intro q hq
    refine hs.rest q ?_
    intro p hp i hi
    exact hq p hp _ ⟨by omega, by rw [hstop p hp]; omega⟩

end

theorem shown_same (A : Accepted upper path ps f l data) {g : File}
    (hs : Shows ps f l data g data) : g = f := by
  refine HostFile.ext_of hs.len ?_
  intro q
  by_cases hq : ∃ x < data.length, q = place l x
  · obtain ⟨x, hx, rfl⟩ := hq
    rw [hs.byte x hx, (collected_byte A.bytes hx).1]
  · refine hs.rest q ?_
    intro p hp i hi heq
    exact hq ⟨_, by have := (A.fits p hp).inside; omega, heq⟩

theorem imgpatch_accepted (A : Accepted upper path ps f l data) :
    imgpatch upper path ps f = writePatches upper path l ps f := by
  have hread := run_readPath A.located
  rw [A.bytes] at hread
  have hread' : run (answer f) (readPath upper l.fs path) = .ok (some data) := hread
  unfold imgpatch
  rw [A.located]
  simp only [hread', A.checked]

theorem imgpatch_refused (h : ¬∃ l data, Accepted upper path ps f l data) :
    ∃ e, imgpatch upper path ps f = (f, .error e) := by
  unfold imgpatch
  cases hlocated : run (answer f) (locate upper path) with
  | error e => exact ⟨_, rfl⟩
  | ok found =>
    cases found with
    | none => exact ⟨_, rfl⟩
    | some l =>
      have hread := run_readPath hlocated
      have hcontents := run_contents hlocated
      cases hc : collected f l with
      | error e =>
        rw [hc] at hread
        have hread' : run (answer f) (readPath upper l.fs path) = .error e := hread
        exact ⟨.fat e, by simp only [hread']⟩
      | ok data =>
        rw [hc] at hread hcontents
        have hread' : run (answer f) (readPath upper l.fs path) = .ok (some data) := hread
        simp only [hread']
        cases hcheck : checkAll (some data) ps with
        | error e => exact ⟨e, rfl⟩
        | ok u => exact absurd ⟨l, data, hlocated, hcontents, hcheck⟩ h

theorem writeAll_untouched {todo : List Patch} (h : Untouched l f todo) :
    ∃ e, writeAll l todo f = (f, .error e) := by
  induction todo with
  | nil => exact h.elim
  | cons p todo ih =>
    unfold Untouched at h
    unfold writeAll
    cases ho : imgOff l p.fo with
    | none => exact ⟨_, rfl⟩
    | some o =>
      rw [ho] at h
      by_cases hnew : read f o p.old.length = p.new
      · simp only [hnew, if_true] at h ⊢
        exact ih h
      · simp only [hnew, if_false] at h ⊢
        exact ⟨_, if_neg h⟩

theorem inPlace_iff (A : Accepted upper path ps f l data)
    (P : InPlace upper path ps f l data) : AllOrNothing upper path ps f ↔ LaysOut ps data := by
  have hagrees := writeAll_agrees A P (fun p hp => hp) A.shows
  have hrun := imgpatch_accepted A
  unfold writePatches at hrun
  unfold AllOrNothing LaysOut
  cases hwrite : writeAll l ps f with
  | mk g r =>
    rw [hwrite] at hagrees hrun
    cases hlay : layAll ps data with
    | ok d =>
      rw [hlay] at hagrees
      cases r with
      | error e => exact hagrees.elim
      | ok u =>
        have hs : Shows ps f l data g d := hagrees
        have hverify : verify upper path ps g = .ok (ps.all (holdsNew d), d.length) := by
          simp [verify, contents_again A P hs]
        have hend : imgpatch upper path ps f = (g, .ok (ps.all (holdsNew d), d.length)) :=
          hrun.trans (congrArg (Prod.mk g) hverify)
        rw [hend]
        constructor
        · rintro (⟨e, he⟩ | ⟨g', n, hg, _⟩)
          · cases congrArg Prod.snd he
          · have hall : (∀ p ∈ ps, holdsNew d p = true) ∧ d.length = n := by
              simpa using congrArg Prod.snd hg
            exact hall.1
        · intro hnew
          have hall : ps.all (holdsNew d) = true := List.all_eq_true.mpr hnew
          exact .inr ⟨g, d.length, by rw [hall], l, data, d, shown_patched A P hs hnew⟩
    | error d =>
      rw [hlay] at hagrees
      cases r with
      | ok u => exact hagrees.elim
      | error e =>
        have hs : Shows ps f l data g d := hagrees
        have hend : imgpatch upper path ps f = (g, .error e) := hrun
        rw [hend]
        constructor
        · rintro (⟨e', he⟩ | ⟨g', n, hg, _⟩)
          · have hg : g = f := congrArg Prod.fst he
            subst hg
            refine eq_of_getD 0 hs.size ?_
            intro x hx
            rw [← hs.byte x (hs.size ▸ hx), (collected_byte A.bytes (hs.size ▸ hx)).1]
          · cases congrArg Prod.snd hg
        · rintro rfl
          exact .inl ⟨e, by rw [shown_same A hs]⟩

theorem keeps_enough (h : Keeps upper path ps f) : AllOrNothing upper path ps f := by
  rcases h with hno | ⟨l, data, A, huntouched | ⟨P, hlays⟩⟩
  · exact .inl (imgpatch_refused hno)
  · obtain ⟨e, he⟩ := writeAll_untouched huntouched
    refine .inl ⟨e, ?_⟩
    rw [imgpatch_accepted A, writePatches, he]
  · exact (inPlace_iff A P).mpr hlays

theorem imgpatch_all_or_nothing (upper : List Char → List Char) (path : List Char)
    (ps : List Patch) (f : File) :
    (Keeps upper path ps f → AllOrNothing upper path ps f) ∧
      ∀ l data, Accepted upper path ps f l data → InPlace upper path ps f l data →
        (AllOrNothing upper path ps f ↔ LaysOut ps data) :=
  ⟨keeps_enough, fun _ _ => inPlace_iff⟩

/-- An image of 2048 bytes with one file of one byte. -/
def oneByteImage : File :=
  write (write (write (truncate empty 2048) 0x0B [0, 2, 1, 1, 0, 1, 16, 0, 4, 0, 0xF8, 1, 0])
    515 [0xFF, 0x0F]) 1024 (0x41 :: List.replicate 10 0x20 ++ List.replicate 15 0 ++ [2, 0, 1])

def oneByteFile : Located :=
  ⟨⟨2048, 0, 512, 1, 16, 512, 1024, 1536, .fat12, 0, by decide, by decide⟩, 2, 1, [2]⟩

theorem one_patch_done : AllOrNothing id ['A'] [⟨0, [0], [1]⟩] oneByteImage := by
  have hlocated : run (answer oneByteImage) (locate id ['A']) = .ok (some oneByteFile) := by
    decide +kernel
  have hasked : asked (answer oneByteImage) (locate id ['A']) =
      [.size, .bytes 0 512, .bytes 0 512, .bytes 1024 512, .bytes 515 2] := by
    decide +kernel
  have hcontents : run (answer oneByteImage) (contents id ['A']) = .ok (some [0]) := by
    decide +kernel
  refine (imgpatch_all_or_nothing id ['A'] [⟨0, [0], [1]⟩] oneByteImage).1 (.inr ?_)
  refine ⟨oneByteFile, [0], ⟨hlocated, hcontents, rfl⟩, .inr ⟨⟨?_, ?_, ?_⟩, ?_⟩⟩
  · simp [start, bound]
    rfl
  · simp [start, bound]
  · rw [hasked]
    simp [start, bound, Touches, place, oneByteFile, clusOff, csz]
  · simp [LaysOut, layAll, got, slice, bound, put, start, holdsNew]

/-- The second of two patches of one byte fails with the first on the disk. -/
theorem overlap_half_done :
    ¬AllOrNothing id ['A'] [⟨0, [0], [1]⟩, ⟨0, [0], [2]⟩] oneByteImage := by
  have hrun : (imgpatch id ['A'] [⟨0, [0], [1]⟩, ⟨0, [0], [2]⟩] oneByteImage).2 =
      .error (.imageHolds 1536 [1]) := by
    decide +kernel
  have hbyte : (imgpatch id ['A'] [⟨0, [0], [1]⟩, ⟨0, [0], [2]⟩] oneByteImage).1.byte 1536 ≠
      oneByteImage.byte 1536 := by
    decide +kernel
  rintro (⟨e, he⟩ | ⟨g, n, hg, _⟩)
  · exact hbyte (by rw [he])
  · rw [hg] at hrun
    cases hrun

end PeepeeBox.ImgPatch
