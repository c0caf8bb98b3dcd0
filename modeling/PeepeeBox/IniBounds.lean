import PeepeeBox.FixedArrays
import PeepeeBox.GuardedRuns
import PeepeeBox.IniReadback

set_option autoImplicit false

/-!
# The arrays that a configuration is read into

`ini_read_ex` with the arrays it copies a line into, and what every line has to be for the copies to
stay in them.
-/
namespace PeepeeBox.IniBounds
open FixedArrays GuardedRuns Ini IniReadback

structure EntryT where
  name : Arr Byte 128
  data : Arr Byte 512
  wdata : Arr Wide 512

structure SectionT where
  name : Arr Byte 128
  entries : List EntryT

/-- The two arrays of `ini_read_ex`, the sections that are done and the current one. -/
structure Reader where
  sname : Arr Byte 128
  ename : Arr Byte 128
  before : List SectionT
  sec : SectionT

/-- A write outside an array. -/
inductive Stray where
  | stray

def Arr.write {α : Type} {n : ℕ} (a : Arr α n) (pos : ℕ) (xs : List α) : Except Stray (Arr α n) :=
  match a.store pos xs with
  | some b => .ok b
  | none => .error .stray

def textOf {w n : ℕ} (a : Arr (BitVec w) n) : List (BitVec w) := a.vals.takeWhile (· ≠ 0)

section
variable (wctomb : Wide → List Byte)

/-- The copy of a name up to `stop` or the end of the line; what `wctomb` cannot convert is nothing. -/
def copyName (stop : Wide → Bool) : List Wide → ℕ → Arr Byte 128 → Except Stray (Arr Byte 128 × List Wide)
  | [], d, a => do
    let a ← Arr.write a d [0]
    return (a, [])
  | c :: buff, d, a =>
    if stop c then do
      let a ← Arr.write a d [0]
      return (a, c :: buff)
    else do
      let a ← Arr.write a d (wctomb c)
      copyName stop buff (d + 1) a

def endsSection (c : Wide) : Bool := c = closing

def endsName (c : Wide) : Bool := c = equals ∨ c = blank

/-- `wcstombs` into `n` bytes, with the closing zero if there is room. -/
def wcstombs : ℕ → List Wide → List Byte
  | n, [] => if n = 0 then [] else [0]
  | n, c :: w =>
    if wctomb c = [] then []
    else if (wctomb c).length ≤ n then wctomb c ++ wcstombs (n - (wctomb c).length) w
    else []

/-- `wcsncpy`, which fills up with zeros. -/
def wcsncpy (n : ℕ) (w : List Wide) : List Wide := w.take n ++ List.replicate (n - w.length) 0

def newEntry (ename : Arr Byte 128) (value : List Wide) : Except Stray EntryT := do
  let wdata ← Arr.write (Arr.fill 512 0) 0 (wcsncpy 511 value)
  let wdata ← Arr.write wdata 511 [0]
  let data ← Arr.write (Arr.fill 512 0) 0 (wcstombs wctomb 512 (textOf wdata))
  let data ← Arr.write data 511 [0]
  return { name := ename, data := data, wdata := wdata }

def stripped (buff : List Wide) : List Wide :=
  (dropLastIf creturn (dropLastIf newline buff)).dropWhile fun c => c = blank ∨ c = 0x09

def readLine (r : Reader) (line : List Wide) : Except Stray Reader :=
  match stripped line with
  | [] => .ok r
  | c :: buff =>
    if c = 0x23 ∨ c = 0x3B then .ok r
    else if c = opening then do
      let (sname, rest) ← copyName wctomb endsSection buff 0 r.sname
      if rest = [] then .ok { r with sname := sname }
      else .ok { r with
        sname := sname
        before := r.before ++ [r.sec]
        sec := { name := sname, entries := [] } }
    else do
      let (ename, rest) ← copyName wctomb endsName (c :: buff) 0 r.ename
      let value := rest.dropWhile endsName
      -- an incomplete line is skipped before its value as after it
      if value = [] then .ok { r with ename := ename }
      else do
        let ne ← newEntry wctomb ename value
        .ok { r with ename := ename, sec := { r.sec with entries := r.sec.entries ++ [ne] } }

inductive Outcome where
  | done (r : Reader)
  | stray
  | running

def readLoop : ℕ → Reader → List Wide → Outcome
  | 0, _, _ => .running
  | fuel + 1, r, file =>
    let line := fgetws 1023 file
    if line.2.2 then .done r
    else
      match readLine wctomb r (line.1.takeWhile (· ≠ 0)) with
      | .error _ => .stray
      | .ok r => readLoop fuel r line.2.1

def skipMark (file : List Wide) : List Wide := if file.head? = some 0xFEFF then file.tail else file

/-- `sname` and `ename` are what the stack holds; the section before the first has no name. -/
def iniReadEx (sname ename : Arr Byte 128) (file : List Wide) : Outcome :=
  readLoop wctomb ((skipMark file).length + 1)
    { sname := sname, ename := ename, before := [], sec := { name := Arr.fill 128 0, entries := [] } }
    (skipMark file)

end

/-- The part of a line that is copied into one of the two arrays. -/
def nameOf (line : List Wide) : List Wide :=
  match stripped line with
  | [] => []
  | c :: buff =>
    if c = 0x23 ∨ c = 0x3B then []
    else if c = opening then buff.takeWhile (!endsSection ·)
    else (c :: buff).takeWhile (!endsName ·)

def lines : ℕ → List Wide → List (List Wide)
  | 0, _ => []
  | fuel + 1, file =>
    let line := fgetws 1023 file
    if line.2.2 then [] else line.1.takeWhile (· ≠ 0) :: lines fuel line.2.1

def linesOf (file : List Wide) : List (List Wide) := lines ((skipMark file).length + 1) (skipMark file)

def NameFits (wctomb : Wide → List Byte) (d : ℕ) (name : List Wide) : Prop :=
  d + name.length ≤ 127 ∧ ∀ i c, name[i]? = some c → d + i + (wctomb c).length ≤ 128

instance (wctomb : Wide → List Byte) (d : ℕ) (name : List Wide) : Decidable (NameFits wctomb d name) :=
  decidable_of_iff (d + name.length ≤ 127 ∧ ∀ i : Fin name.length, d + i + (wctomb (name.get i)).length ≤ 128) <| by
    unfold NameFits
    refine and_congr_right fun _ => ⟨?_, ?_⟩
    · intro h i c hi
      obtain ⟨hlt, rfl⟩ := List.getElem?_eq_some_iff.mp hi
      exact h ⟨i, hlt⟩
    · intro h i
      exact h i _ (List.getElem?_eq_getElem i.isLt)

def Terminated (sec : SectionT) : Prop :=
  0 ∈ sec.name.vals ∧ ∀ ent ∈ sec.entries, 0 ∈ ent.name.vals ∧ 0 ∈ ent.data.vals ∧ 0 ∈ ent.wdata.vals

structure Kept (r : Reader) : Prop where
  before : ∀ sec ∈ r.before, Terminated sec
  sec : Terminated r.sec

/-- The file is read to its end, nothing is written outside an array, and all that is stored is closed. -/
def InBounds (wctomb : Wide → List Byte) (sname ename : Arr Byte 128) (file : List Wide) : Prop :=
  ∃ r, iniReadEx wctomb sname ename file = .done r ∧ Kept r

variable {wctomb : Wide → List Byte}

theorem write_fits {α : Type} {n : ℕ} (a : Arr α n) {pos : ℕ} {xs : List α} (h : pos + xs.length ≤ n) :
    Arr.write a pos xs = .ok ⟨put a.vals pos xs, a.put_size h⟩ := by
  unfold Arr.write
  rw [a.store_fits h]

theorem write_stray {α : Type} {n : ℕ} (a : Arr α n) {pos : ℕ} {xs : List α} (h : n < pos + xs.length) :
    Arr.write a pos xs = .error .stray := by
  unfold Arr.write
  rw [a.store_none h]

theorem nameFits_nil {d : ℕ} : NameFits wctomb d [] ↔ d ≤ 127 := by
  simp [NameFits]

theorem nameFits_cons {d : ℕ} {c : Wide} {name : List Wide} :
    NameFits wctomb d (c :: name) ↔ d + (wctomb c).length ≤ 128 ∧ NameFits wctomb (d + 1) name := by
  constructor
  · intro h
    have hfirst := h.2 0 c rfl
    refine ⟨by omega, by have := h.1; simp at this; omega, ?_⟩
    intro i c' hi
    have hrest := h.2 (i + 1) c' (by simpa using hi)
    omega
  · intro h
    refine ⟨by have := h.2.1; simp; omega, ?_⟩
    intro i c' hi
    cases i with
    | zero =>
      simp at hi
      subst hi
      omega
    | succ i =>
      have hrest := h.2.2 i c' (by simpa using hi)
      omega

theorem terminate {buff : List Wide} {d : ℕ} (a : Arr Byte 128) (h : d ≤ 127) :
    ∃ a', (Arr.write a d [0] >>= fun a => (.ok (a, buff) : Except Stray (Arr Byte 128 × List Wide))) =
      .ok (a', buff) ∧ 0 ∈ a'.vals := by
  rw [write_fits a (show d + [(0 : Byte)].length ≤ 128 by simp; omega)]
  exact ⟨_, rfl, mem_put (List.mem_singleton.mpr rfl)⟩

theorem copyName_fits (stop : Wide → Bool) (buff : List Wide) {d : ℕ} (a : Arr Byte 128)
    (h : NameFits wctomb d (buff.takeWhile (!stop ·))) :
    ∃ a', copyName wctomb stop buff d a = .ok (a', buff.dropWhile (!stop ·)) ∧ 0 ∈ a'.vals := by
  induction buff generalizing d a with
  | nil => exact terminate a (nameFits_nil.mp h)
  | cons c buff ih =>
    unfold copyName
    cases hstop : stop c with
    | true =>
      simp only [List.takeWhile_cons, List.dropWhile_cons, hstop, Bool.not_true, Bool.false_eq_true,
        if_false, if_true] at h ⊢
      exact terminate a (nameFits_nil.mp h)
    | false =>
      simp only [List.takeWhile_cons, List.dropWhile_cons, hstop, Bool.not_false, Bool.false_eq_true,
        if_false, if_true] at h ⊢
      obtain ⟨hone, hrest⟩ := nameFits_cons.mp h
      rw [write_fits a hone]
      exact ih _ hrest

theorem copyName_stray (stop : Wide → Bool) (buff : List Wide) {d : ℕ} (a : Arr Byte 128)
    (h : ¬NameFits wctomb d (buff.takeWhile (!stop ·))) :
    copyName wctomb stop buff d a = .error .stray := by
  have hend {d : ℕ} (a : Arr Byte 128) (hd : ¬d ≤ 127) : Arr.write a d [0] = .error .stray :=
    write_stray a (by simp; omega)
  induction buff generalizing d a with
  | nil =>
    unfold copyName
    rw [hend a (mt nameFits_nil.mpr h)]
    rfl
  | cons c buff ih =>
    unfold copyName
    cases hstop : stop c with
    | true =>
      simp only [List.takeWhile_cons, hstop, Bool.not_true, Bool.false_eq_true, if_false, if_true] at h ⊢
      rw [hend a (mt nameFits_nil.mpr h)]
      rfl
    | false =>
      simp only [List.takeWhile_cons, hstop, Bool.not_false, Bool.false_eq_true, if_false, if_true] at h ⊢
      by_cases hone : d + (wctomb c).length ≤ 128
      · rw [write_fits a hone]
        exact ih _ fun hrest => h (nameFits_cons.mpr ⟨hone, hrest⟩)
      · rw [write_stray a (by omega)]
        rfl

variable (wctomb) in
theorem wcstombs_length (n : ℕ) (w : List Wide) : (wcstombs wctomb n w).length ≤ n := by
  induction w generalizing n with
  | nil =>
    unfold wcstombs
    split
    · simp
    · simp; omega
  | cons c w ih =>
    unfold wcstombs
    split
    · simp
    · split
      · have hrest := ih (n - (wctomb c).length)
        simp
        omega
      · simp

theorem wcsncpy_length (n : ℕ) (w : List Wide) : (wcsncpy n w).length = n := by
  simp [wcsncpy]
  omega

variable (wctomb) in
theorem newEntry_eq (ename : Arr Byte 128) (value : List Wide) :
    ∃ ne, newEntry wctomb ename value = .ok ne ∧ ne.name = ename ∧
      ne.wdata.vals = FixedArrays.put (FixedArrays.put (List.replicate 512 0) 0 (wcsncpy 511 value)) 511 [0] ∧
      ne.data.vals = FixedArrays.put
        (FixedArrays.put (List.replicate 512 0) 0 (wcstombs wctomb 512 (textOf ne.wdata))) 511 [0] := by
  unfold newEntry
  rw [write_fits (Arr.fill 512 0) (show 0 + (wcsncpy 511 value).length ≤ 512 by rw [wcsncpy_length]; omega)]
  simp only [bind, Except.bind]
  rw [write_fits _ (show 511 + [(0 : Wide)].length ≤ 512 by simp)]
  simp only
  rw [write_fits (Arr.fill 512 0) (show 0 + (wcstombs wctomb 512 _).length ≤ 512 by
    rw [Nat.zero_add]
    exact wcstombs_length wctomb 512 _)]
  simp only
  rw [write_fits _ (show 511 + [(0 : Byte)].length ≤ 512 by simp)]
  exact ⟨_, rfl, rfl, rfl, rfl⟩

theorem readLine_fits {r : Reader} {line : List Wide} (h : NameFits wctomb 0 (nameOf line)) (hr : Kept r) :
    ∃ r', readLine wctomb r line = .ok r' ∧ Kept r' := by
  unfold nameOf at h
  unfold readLine
  cases hline : stripped line with
  | nil => exact ⟨r, rfl, hr⟩
  | cons c buff =>
    rw [hline] at h
    by_cases hcomment : c = 0x23 ∨ c = 0x3B
    · simp only [if_pos hcomment]
      exact ⟨r, rfl, hr⟩
    · simp only [if_neg hcomment] at h ⊢
      by_cases hopening : c = opening
      · simp only [if_pos hopening] at h ⊢
        obtain ⟨sname, hcopy, hclosed⟩ := copyName_fits endsSection buff r.sname h
        rw [hcopy]
        simp only [bind, Except.bind]
        split
        · exact ⟨_, rfl, hr.before, hr.sec⟩
        · refine ⟨_, rfl, ?_, hclosed, by simp⟩
          intro sec hsec
          rcases List.mem_append.mp hsec with hsec | hsec
          · exact hr.before sec hsec
          · rw [List.mem_singleton.mp hsec]
            exact hr.sec
      · simp only [if_neg hopening] at h ⊢
        obtain ⟨ename, hcopy, hclosed⟩ := copyName_fits endsName (c :: buff) r.ename h
        rw [hcopy]
        simp only [bind, Except.bind]
        split
        · exact ⟨_, rfl, hr.before, hr.sec⟩
        · obtain ⟨ne, hentry, hname, hwdata, hdata⟩ := newEntry_eq wctomb ename _
          rw [hentry]
          refine ⟨_, rfl, hr.before, hr.sec.1, ?_⟩
          intro ent hent
          rcases List.mem_append.mp hent with hent | hent
          · exact hr.sec.2 ent hent
          · rw [List.mem_singleton.mp hent, hname, hwdata, hdata]
            exact ⟨hclosed, mem_put List.mem_cons_self, mem_put List.mem_cons_self⟩

theorem readLine_stray {r : Reader} {line : List Wide} (h : ¬NameFits wctomb 0 (nameOf line)) :
    readLine wctomb r line = .error .stray := by
  have hnil : NameFits wctomb 0 [] := nameFits_nil.mpr (Nat.zero_le _)
  unfold nameOf at h
  unfold readLine
  cases hline : stripped line with
  | nil =>
    rw [hline] at h
    exact absurd hnil h
  | cons c buff =>
    rw [hline] at h
    by_cases hcomment : c = 0x23 ∨ c = 0x3B
    · simp only [if_pos hcomment] at h
      exact absurd hnil h
    · simp only [if_neg hcomment] at h ⊢
      by_cases hopening : c = opening
      · simp only [if_pos hopening] at h ⊢
        rw [copyName_stray endsSection buff r.sname h]
        rfl
      · simp only [if_neg hopening] at h ⊢
        rw [copyName_stray endsName (c :: buff) r.ename h]
        rfl

def EntryT.text (ent : EntryT) : Entry :=
  { name := textOf ent.name, data := textOf ent.data, wdata := textOf ent.wdata }

def SectionT.text (sec : SectionT) : Section := { name := textOf sec.name, entries := sec.entries.map EntryT.text }

def Reader.text (r : Reader) : Reading := { before := r.before.map SectionT.text, sec := r.sec.text }

/-- Characters that are one byte each. -/
def Plain (w : List Wide) : Prop := ∀ c ∈ w, c ≠ 0 ∧ c < 128

def bytesOf (w : List Wide) : List Byte := w.map (BitVec.setWidth 8)

theorem bytesOf_ne_zero {w : List Wide} (h : Plain w) : ∀ b ∈ bytesOf w, b ≠ 0 := by
  intro b hb
  obtain ⟨c, hc, rfl⟩ := List.mem_map.mp hb
  obtain ⟨hne, hlt⟩ := h c hc
  bv_omega

theorem takeWhile_closed {w : ℕ} {vals xs : List (BitVec w)} (hxs : ∀ x ∈ xs, x ≠ 0)
    (h : vals.take (xs.length + 1) = xs ++ [0]) : vals.takeWhile (· ≠ 0) = xs := by
  rw [← List.take_append_drop (xs.length + 1) vals, h, List.append_assoc,
    List.takeWhile_append_of_pos (by simpa using hxs)]
  simp

theorem flatMap_plain (L : Ini.Locale) {w : List Wide} (h : Plain w) : w.flatMap L.wctomb = bytesOf w := by
  induction w with
  | nil => rfl
  | cons c w ih =>
    rw [List.flatMap_cons, L.wctomb_ascii c (h c List.mem_cons_self).2,
      ih fun c' hc => h c' (List.mem_cons_of_mem c hc)]
    rfl

theorem iniWcstombs_plain (L : Ini.Locale) {n : ℕ} {w : List Wide} (h : Plain w) (hn : w.length ≤ n) :
    Ini.wcstombs L n w = bytesOf w := by
  induction w generalizing n with
  | nil => rfl
  | cons c w ih =>
    simp only [List.length_cons] at hn
    unfold Ini.wcstombs
    rw [L.wctomb_ascii c (h c List.mem_cons_self).2, List.length_singleton, if_pos (show 1 ≤ n by omega),
      ih (fun c' hc => h c' (List.mem_cons_of_mem c hc)) (show w.length ≤ n - 1 by omega)]
    rfl

theorem wcstombs_plain (L : Ini.Locale) {n : ℕ} {w : List Wide} (h : Plain w) (hn : w.length < n) :
    wcstombs L.wctomb n w = bytesOf w ++ [0] := by
  induction w generalizing n with
  | nil => exact if_neg (Nat.ne_of_gt hn)
  | cons c w ih =>
    simp only [List.length_cons] at hn
    unfold wcstombs
    rw [L.wctomb_ascii c (h c List.mem_cons_self).2, if_neg (List.cons_ne_nil _ _), List.length_singleton,
      if_pos (show 1 ≤ n by omega),
      ih (fun c' hc => h c' (List.mem_cons_of_mem c hc)) (show w.length < n - 1 by omega)]
    rfl

theorem copyName_plain (L : Ini.Locale) (stop : Wide → Bool) (buff : List Wide) {d : ℕ} (a : Arr Byte 128)
    (hplain : Plain (buff.takeWhile (!stop ·))) (hlen : d + (buff.takeWhile (!stop ·)).length ≤ 127) :
    ∃ a', copyName L.wctomb stop buff d a = .ok (a', buff.dropWhile (!stop ·)) ∧
      a'.vals.take (d + (buff.takeWhile (!stop ·)).length + 1) =
        a.vals.take d ++ bytesOf (buff.takeWhile (!stop ·)) ++ [0] := by
  have hend {d : ℕ} (a : Arr Byte 128) (buff : List Wide) (hd : d ≤ 127) :
      ∃ a', (Arr.write a d [0] >>= fun a => (.ok (a, buff) : Except Stray (Arr Byte 128 × List Wide))) =
          .ok (a', buff) ∧ a'.vals.take (d + 0 + 1) = a.vals.take d ++ [] ++ [0] := by
    have hroom : d + [(0 : Byte)].length ≤ 128 := Nat.succ_le_succ hd
    rw [write_fits a hroom, List.append_nil]
    exact ⟨_, rfl, take_put (Nat.le_trans hroom (Nat.le_of_eq a.size.symm))⟩
  induction buff generalizing d a with
  | nil => exact hend a [] hlen
  | cons c buff ih =>
    unfold copyName
    cases hstop : stop c with
    | true =>
      simp only [List.takeWhile_cons, List.dropWhile_cons, hstop, Bool.not_true, Bool.false_eq_true,
        if_false, if_true] at hlen ⊢
      exact hend a (c :: buff) hlen
    | false =>
      simp only [List.takeWhile_cons, List.dropWhile_cons, hstop, Bool.not_false, Bool.false_eq_true,
        if_false, if_true, List.length_cons] at hplain hlen ⊢
      have hroom : d + [c.setWidth 8].length ≤ 128 := by
        simp
        omega
      rw [L.wctomb_ascii c (hplain c List.mem_cons_self).2, write_fits a hroom]
      obtain ⟨a', hcopy, htake⟩ := ih ⟨put a.vals d [c.setWidth 8], a.put_size hroom⟩
        (fun c' hc => hplain c' (List.mem_cons_of_mem c hc)) (show d + 1 + _ ≤ 127 by omega)
      refine ⟨a', hcopy, ?_⟩
      rw [show d + ((buff.takeWhile (!stop ·)).length + 1) + 1 =
        d + 1 + (buff.takeWhile (!stop ·)).length + 1 by omega, htake]
      have hput : (put a.vals d [c.setWidth 8]).take (d + 1) = a.vals.take d ++ [c.setWidth 8] :=
        take_put (Nat.le_trans hroom (Nat.le_of_eq a.size.symm))
      rw [hput]
      simp [bytesOf]

theorem copyName_text (L : Ini.Locale) (stop : Wide → Bool) (buff : List Wide) (a : Arr Byte 128)
    (hplain : Plain (buff.takeWhile (!stop ·))) (hlen : (buff.takeWhile (!stop ·)).length ≤ 127) :
    ∃ a', copyName L.wctomb stop buff 0 a = .ok (a', buff.dropWhile (!stop ·)) ∧
      textOf a' = (buff.takeWhile (!stop ·)).flatMap L.wctomb := by
  obtain ⟨a', hcopy, htake⟩ := copyName_plain L stop buff a hplain (by rwa [Nat.zero_add])
  refine ⟨a', hcopy, ?_⟩
  rw [flatMap_plain L hplain]
  refine takeWhile_closed (bytesOf_ne_zero hplain) ?_
  rw [show (bytesOf (buff.takeWhile (!stop ·))).length = (buff.takeWhile (!stop ·)).length from List.length_map _]
  simpa using htake

theorem takeWhile_filled {w n k : ℕ} {xs : List (BitVec w)} (hxs : ∀ x ∈ xs, x ≠ 0) (hlen : xs.length ≤ n)
    (hk : xs.length + k ≤ n + 1) :
    (FixedArrays.put (FixedArrays.put (List.replicate (n + 1) 0) 0 (xs ++ List.replicate k 0)) n [0]).takeWhile
      (· ≠ 0) = xs := by
  have hrow : FixedArrays.put (List.replicate (n + 1) (0 : BitVec w)) 0 (xs ++ List.replicate k 0) =
      xs ++ List.replicate (n + 1 - xs.length) 0 := by
    have hzeros : k + (n + 1 - (xs.length + k)) = n + 1 - xs.length := by omega
    unfold FixedArrays.put
    simp [hzeros]
  have hclosed : FixedArrays.put (xs ++ List.replicate (n + 1 - xs.length) (0 : BitVec w)) n [0] =
      xs ++ (List.replicate (n - xs.length) 0 ++ [0]) := by
    have hfull : xs.length + (n + 1 - xs.length) ≤ n + 1 := by omega
    have hzeros : min (n - xs.length) (n + 1 - xs.length) = n - xs.length := by omega
    unfold FixedArrays.put
    simp [List.take_append, List.take_of_length_le hlen, hfull, hzeros]
  rw [hrow, hclosed, List.takeWhile_append_of_pos (by simpa using hxs)]
  cases n - xs.length <;> simp [List.replicate_succ]

theorem newEntry_text (L : Ini.Locale) (ename : Arr Byte 128) {value : List Wide} (h : Plain value) :
    ∃ ne, newEntry L.wctomb ename value = .ok ne ∧ ne.text =
      { name := textOf ename, data := (Ini.wcstombs L 512 (value.take 511)).take 511, wdata := value.take 511 } := by
  obtain ⟨ne, hentry, hname, hwide, hdata⟩ := newEntry_eq L.wctomb ename value
  have htake : Plain (value.take 511) := fun c hc => h c (List.mem_of_mem_take hc)
  have hlen : (value.take 511).length ≤ 511 := List.length_take_le ..
  have hbytes : (bytesOf (value.take 511)).length = (value.take 511).length := List.length_map _
  have hwtext : textOf ne.wdata = value.take 511 := by
    unfold textOf
    rw [hwide]
    exact takeWhile_filled (fun c hc => (htake c hc).1) hlen (by simp; omega)
  have hdtext : textOf ne.data = bytesOf (value.take 511) := by
    unfold textOf
    rw [hdata, hwtext, wcstombs_plain L htake (Nat.lt_succ_of_le hlen)]
    exact takeWhile_filled (k := 1) (bytesOf_ne_zero htake) (Nat.le_trans (Nat.le_of_eq hbytes) hlen) (by omega)
  refine ⟨ne, hentry, ?_⟩
  unfold EntryT.text
  rw [hwtext, hdtext, hname, iniWcstombs_plain L htake (Nat.le_succ_of_le hlen),
    List.take_of_length_le (Nat.le_trans (Nat.le_of_eq hbytes) hlen)]

theorem readLine_plain (L : Ini.Locale) (r : Reader) {line : List Wide} (hplain : Plain line)
    (hfits : (nameOf line).length ≤ 127) :
    ∃ r', readLine L.wctomb r line = .ok r' ∧ r'.text = Ini.readLine L r.text line := by
  have hstripped : Plain (stripped line) := by
    intro c hc
    have hdrop {c d : Wide} {w : List Wide} (hc : c ∈ dropLastIf d w) : c ∈ w := by
      unfold dropLastIf at hc
      split at hc
      · exact List.dropLast_subset _ hc
      · exact hc
    exact hplain c (hdrop (hdrop (List.dropWhile_sublist _ |>.mem hc)))
  have hbuff : (dropLastIf creturn (dropLastIf newline line)).dropWhile (fun c => c = blank ∨ c = 0x09) =
      stripped line := rfl
  have hsection : (fun c => decide (c ≠ closing)) = (!endsSection ·) := by
    funext c
    exact decide_not
  have hentry : (fun c => decide (c ≠ equals ∧ c ≠ blank)) = (!endsName ·) := by
    funext c
    simp [endsName]
  have hvalue : (fun c => decide (c = equals ∨ c = blank)) = endsName := rfl
  unfold nameOf at hfits
  unfold readLine Ini.readLine
  dsimp only
  rw [hbuff, hsection, hentry, hvalue]
  cases hline : stripped line with
  | nil => exact ⟨r, rfl, rfl⟩
  | cons c buff =>
    rw [hline] at hfits hstripped
    simp only [List.head?_cons, Option.some.injEq, reduceCtorEq, if_false, List.tail_cons]
    by_cases hcomment : c = 0x23 ∨ c = 0x3B
    · simp only [if_pos hcomment]
      exact ⟨r, rfl, rfl⟩
    · simp only [if_neg hcomment] at hfits ⊢
      by_cases hopening : c = opening
      · simp only [if_pos hopening] at hfits ⊢
        have hname : Plain (buff.takeWhile (!endsSection ·)) := fun c' hc =>
          hstripped c' (List.mem_cons_of_mem c (List.takeWhile_subset _ hc))
        obtain ⟨sname, hcopy, htext⟩ := copyName_text L endsSection buff r.sname hname hfits
        rw [hcopy]
        simp only [bind, Except.bind]
        by_cases hopen : buff.dropWhile (!endsSection ·) = []
        · rw [if_pos hopen]
          exact ⟨_, rfl, (if_pos hopen).symm⟩
        · rw [if_neg hopen]
          refine ⟨_, rfl, Eq.trans ?_ (if_neg hopen).symm⟩
          simp [Reader.text, SectionT.text, htext]
      · simp only [if_neg hopening] at hfits ⊢
        have hname : Plain ((c :: buff).takeWhile (!endsName ·)) := fun c' hc =>
          hstripped c' (List.takeWhile_subset _ hc)
        obtain ⟨ename, hcopy, htext⟩ := copyName_text L endsName (c :: buff) r.ename hname hfits
        rw [hcopy]
        simp only [bind, Except.bind]
        have hrest : Plain (((c :: buff).dropWhile (!endsName ·)).dropWhile endsName) := fun c' hc =>
          hstripped c' (List.dropWhile_subset _ (List.dropWhile_subset _ hc))
        obtain ⟨ne, hne, hnetext⟩ := newEntry_text L ename hrest
        by_cases hempty : ((c :: buff).dropWhile (!endsName ·)).dropWhile endsName = []
        · simp only [if_pos hempty, ite_self]
          exact ⟨_, rfl, rfl⟩
        · have hmore : (c :: buff).dropWhile (!endsName ·) ≠ [] := by
            intro hnone
            rw [hnone] at hempty
            exact hempty rfl
          simp only [if_neg hempty, if_neg hmore, hne]
          refine ⟨_, rfl, ?_⟩
          simp [Reader.text, SectionT.text, hnetext, htext]

theorem fgetws_shorter (n : ℕ) (file : List Wide) (h : (fgetws (n + 1) file).2.2 = false) :
    (fgetws (n + 1) file).2.1.length < file.length := by
  induction n generalizing file with
  | zero =>
    cases file with
    | nil => simp [fgetws] at h
    | cons c file =>
      unfold fgetws
      split <;> simp [fgetws]
  | succ n ih =>
    cases file with
    | nil => simp [fgetws] at h
    | cons c file =>
      unfold fgetws at h ⊢
      split
      · simp
      · rename_i hc
        rw [if_neg hc] at h
        have hrest := ih file h
        simp only [List.length_cons]
        exact Nat.lt_succ_of_lt hrest

theorem readLoop_run {fuel : ℕ} (r : Reader) {file : List Wide} (h : file.length < fuel) :
    readLoop wctomb fuel r file =
      match run (readLine wctomb) r (lines fuel file) with
      | .ok r => .done r
      | .error _ => .stray := by
  induction fuel generalizing r file with
  | zero => exact absurd h (Nat.not_lt_zero _)
  | succ fuel ih =>
    unfold readLoop lines
    dsimp only
    cases heof : (fgetws 1023 file).2.2 with
    | true => rfl
    | false =>
      have hshorter : (fgetws 1023 file).2.1.length < file.length := fgetws_shorter 1022 file heof
      simp only [Bool.false_eq_true, if_false]
      cases hline : readLine wctomb r ((fgetws 1023 file).1.takeWhile (· ≠ 0)) with
      | error e =>
        rw [run, hline]
        rfl
      | ok r' =>
        rw [run_cons hline]
        exact ih r' (by omega)

theorem run_fits {ls : List (List Wide)} {r : Reader} (h : ∀ line ∈ ls, NameFits wctomb 0 (nameOf line))
    (hr : Kept r) : ∃ r', run (readLine wctomb) r ls = .ok r' ∧ Kept r' := by
  induction ls generalizing r with
  | nil => exact ⟨r, rfl, hr⟩
  | cons line ls ih =>
    obtain ⟨r', hline, hr'⟩ := readLine_fits (h line (List.mem_cons_self ..)) hr
    rw [run_cons hline]
    exact ih (fun line' h' => h line' (List.mem_cons_of_mem line h')) hr'

theorem run_stray {ls : List (List Wide)} {r : Reader} (hr : Kept r) {line : List Wide} (hmem : line ∈ ls)
    (hline : ¬NameFits wctomb 0 (nameOf line)) : run (readLine wctomb) r ls = .error .stray := by
  induction ls generalizing r with
  | nil => cases hmem
  | cons first ls ih =>
    by_cases hfirst : NameFits wctomb 0 (nameOf first)
    · obtain ⟨r', hrun, hr'⟩ := readLine_fits hfirst hr
      rw [run_cons hrun]
      refine ih hr' ((List.mem_cons.mp hmem).resolve_left ?_)
      rintro rfl
      exact hline hfirst
    · rw [run, readLine_stray hfirst]
      rfl

theorem iniReadEx_run (sname ename : Arr Byte 128) (file : List Wide) :
    iniReadEx wctomb sname ename file =
      match run (readLine wctomb)
        { sname := sname, ename := ename, before := [], sec := { name := Arr.fill 128 0, entries := [] } }
        (linesOf file) with
      | .ok r => .done r
      | .error _ => .stray :=
  readLoop_run _ (Nat.lt_succ_self _)

theorem started_kept (sname ename : Arr Byte 128) :
    Kept { sname := sname, ename := ename, before := [], sec := { name := Arr.fill 128 0, entries := [] } } where
  before sec hsec := nomatch hsec
  sec := ⟨by simp [Arr.fill], fun ent hent => nomatch hent⟩

theorem fgetws_split (n : ℕ) (file : List Wide) : (fgetws n file).1 ++ (fgetws n file).2.1 = file := by
  induction n generalizing file with
  | zero => rfl
  | succ n ih =>
    cases file with
    | nil => rfl
    | cons c file =>
      unfold fgetws
      split
      · rfl
      · exact congrArg (c :: ·) (ih file)

theorem readLoop_plain (L : Ini.Locale) (fuel : ℕ) (r : Reader) {file : List Wide} (hfuel : file.length < fuel)
    (hplain : Plain file) (hfits : ∀ line ∈ lines fuel file, (nameOf line).length ≤ 127) :
    ∃ r', readLoop L.wctomb fuel r file = .done r' ∧ r'.text = Ini.readLoop L fuel r.text file := by
  induction fuel generalizing r file with
  | zero => exact absurd hfuel (Nat.not_lt_zero _)
  | succ fuel ih =>
    have hsplit := fgetws_split 1023 file
    unfold lines at hfits
    unfold readLoop Ini.readLoop
    dsimp only at hfits ⊢
    cases heof : (fgetws 1023 file).2.2 with
    | true => exact ⟨r, rfl, rfl⟩
    | false =>
      have hshorter : (fgetws 1023 file).2.1.length < file.length := fgetws_shorter 1022 file heof
      have hline : Plain ((fgetws 1023 file).1.takeWhile (· ≠ 0)) := fun c hc =>
        hplain c (hsplit ▸ List.mem_append_left _ (List.takeWhile_subset _ hc))
      have hleft : Plain (fgetws 1023 file).2.1 := fun c hc => hplain c (hsplit ▸ List.mem_append_right _ hc)
      rw [heof] at hfits
      obtain ⟨r', hr', htext⟩ := readLine_plain L r hline (hfits _ List.mem_cons_self)
      simp only [Bool.false_eq_true, if_false, hr']
      rw [← htext]
      exact ih r' (by omega) hleft fun line h => hfits line (List.mem_cons_of_mem _ h)

def started (sname ename : Arr Byte 128) : Reader :=
  { sname := sname, ename := ename, before := [], sec := { name := Arr.fill 128 0, entries := [] } }

theorem text_iniRead (L : Ini.Locale) {sname ename : Arr Byte 128} {file : List Wide} {r : Reader}
    (h : r.text = Ini.readLoop L ((skipMark file).length + 1) (started sname ename).text (skipMark file)) :
    r.text.before ++ [r.text.sec] = iniRead L file := by
  have hstart : textOf (Arr.fill 128 (0 : Byte)) = [] := by decide
  rw [h]
  simp only [started, Reader.text, SectionT.text, hstart, List.map_nil]
  rfl

theorem iniReadEx_plain (L : Ini.Locale) (sname ename : Arr Byte 128) (file : List Wide) (hplain : Plain (skipMark file))
    (hfits : ∀ line ∈ linesOf file, (nameOf line).length ≤ 127) :
    ∃ r, iniReadEx L.wctomb sname ename file = .done r ∧ r.text.before ++ [r.text.sec] = iniRead L file := by
  obtain ⟨r, hread, htext⟩ := readLoop_plain L ((skipMark file).length + 1) (started sname ename)
    (Nat.lt_succ_self _) hplain hfits
  exact ⟨r, hread, text_iniRead L htext⟩

theorem iniReadEx_plain_entry :
    ∃ r, iniReadEx latin1.wctomb (Arr.fill 128 0) (Arr.fill 128 0) [opening, 0x61, closing, newline, 0x62, 0x3D, 0x63, newline] =
        .done r ∧
      r.text.before ++ [r.text.sec] = iniRead latin1 [opening, 0x61, closing, newline, 0x62, 0x3D, 0x63, newline] := by
  have hplain : (skipMark [opening, 0x61, closing, newline, 0x62, 0x3D, 0x63, newline]).all
      (fun c => decide (c ≠ 0 ∧ c < 128)) = true := by decide
  exact iniReadEx_plain latin1 (Arr.fill 128 0) (Arr.fill 128 0)
    [opening, 0x61, closing, newline, 0x62, 0x3D, 0x63, newline]
    (fun c h => of_decide_eq_true (List.all_eq_true.mp hplain c h)) (by decide +kernel)

theorem mem_fileLines {L : Ini.Locale} {started : Bool} {ini : IniT} {line : List Wide} (h : line ∈ fileLines L started ini) :
    line = [] ∨ ∃ sec ∈ ini, line = headerText L sec ∨ ∃ ent ∈ sec.entries, line = entryText L ent := by
  induction ini generalizing started with
  | nil => exact absurd h List.not_mem_nil
  | cons sec ini ih =>
    unfold fileLines at h
    rcases List.mem_append.mp h with hfirst | hrest
    · rcases List.mem_append.mp hfirst with hblank | hown
      · cases started with
        | false => exact absurd hblank List.not_mem_nil
        | true => exact .inl (List.mem_singleton.mp hblank)
      · refine .inr ⟨sec, List.mem_cons_self, (List.mem_cons.mp hown).imp id fun hent => ?_⟩
        obtain ⟨ent, hmem, rfl⟩ := List.mem_map.mp hent
        exact ⟨ent, hmem, rfl⟩
    · exact (ih hrest).imp id (Exists.imp fun s => And.imp_left (List.mem_cons_of_mem sec))

theorem stripped_line {line : List Wide} (hline : ∀ c ∈ line, c ≠ creturn) (hskip : line.head? ≠ some blank ∧ line.head? ≠ some 0x09) :
    stripped (line ++ [newline]) = line := by
  unfold stripped
  rw [dropLastIf_line hline]
  cases line with
  | nil => rfl
  | cons c line =>
    refine List.dropWhile_cons_of_neg fun h => ?_
    exact (of_decide_eq_true h).elim (fun h => hskip.1 (congrArg some h)) fun h => hskip.2 (congrArg some h)

theorem nameOf_header (L : Ini.Locale) {sec : Section} (h : NameOk sec.name) :
    nameOf (headerText L sec ++ [newline]) = wide L sec.name := by
  unfold nameOf
  rw [stripped_line (fun c hc => ((headerText_ok L h).2 c hc).2.2)
    ⟨show some opening ≠ _ by decide, show some opening ≠ _ by decide⟩]
  change (wide L sec.name ++ [closing]).takeWhile _ = _
  rw [List.takeWhile_append_of_pos fun c hc => ?_]
  · exact List.append_nil _
  · have hne := (of_decide_eq_true ((wide_name L h).2.2.2 c hc)).2.2.2.2.2.2.2.1
    simpa [endsSection] using hne

theorem nameOf_entry {L : Ini.Locale} {ent : Entry} (h : Held L ent) :
    nameOf (entryText L ent ++ [newline]) = wide L ent.name := by
  obtain ⟨hne, -, -, hall⟩ := wide_name L h.name
  have hok := (entryText_ok h).2
  unfold entryText at hok ⊢
  cases hname : wide L ent.name with
  | nil => exact absurd hname hne
  | cons c w =>
    rw [hname] at hall hok
    have hfirst := of_decide_eq_true (hall c List.mem_cons_self)
    have hnot {x : Wide} (hx : c ≠ x) : some c ≠ some x := fun heq => hx (Option.some.inj heq)
    unfold nameOf
    rw [stripped_line (fun c hc => (hok c hc).2.2) ⟨hnot hfirst.2.2.2.1, hnot hfirst.2.2.2.2.1⟩]
    change (if c = 0x23 ∨ c = 0x3B then [] else if c = opening then _ else (c :: w ++ _).takeWhile _) = _
    rw [if_neg (not_or.mpr hfirst.2.2.2.2.2.2.2.2), if_neg hfirst.2.2.2.2.2.2.1, List.takeWhile_append_of_pos fun c hc => ?_]
    · exact List.append_nil _
    · have hends := of_decide_eq_true (hall c hc)
      simp [endsName, hends.2.2.2.1, hends.2.2.2.2.2.1]

theorem lines_whole {ls : List (List Wide)} (h : ∀ line ∈ ls, LineOk line) (fuel : ℕ) :
    ∀ line ∈ lines fuel (ls.flatMap fun line => line ++ [newline]), ∃ l ∈ ls, line = l ++ [newline] := by
  induction ls generalizing fuel with
  | nil =>
    intro line hline
    cases fuel <;> exact absurd hline List.not_mem_nil
  | cons l ls ih =>
    cases fuel with
    | zero => exact fun line hline => absurd hline List.not_mem_nil
    | succ fuel =>
      obtain ⟨hlength, hwide⟩ := h l List.mem_cons_self
      intro line hline
      unfold lines at hline
      rw [List.flatMap_cons, List.append_assoc, List.singleton_append,
        fgetws_line (fun c hc => (hwide c hc).2.1) 1023 (by omega)] at hline
      rcases List.mem_cons.mp hline with rfl | hrest
      · refine ⟨l, List.mem_cons_self, List.takeWhile_eq_self_iff.mpr fun c hc => ?_⟩
        rcases List.mem_append.mp hc with hl | hlast
        · exact decide_eq_true (hwide c hl).1
        · exact decide_eq_true (List.mem_singleton.mp hlast ▸ by decide)
      · obtain ⟨l', hl', heq⟩ := ih (fun l' hl' => h l' (List.mem_cons_of_mem l hl')) fuel line hrest
        exact ⟨l', List.mem_cons_of_mem l hl', heq⟩

/-- What is saved is read through the arrays: every section in its place, every value from its first character that
is neither a blank nor `=`. -/
theorem saved_read_ex (L : Ini.Locale) (ops : List (Op L)) (sname ename : Arr Byte 128)
    (h : ∀ c ∈ iniWrite L (built L ops), c < 128) :
    ∃ r, iniReadEx L.wctomb sname ename (iniWrite L (built L ops)) = .done r ∧
      r.text.before ++ [r.text.sec] = { name := [], entries := [] } :: (built L ops).map (reloadSection L) := by
  have hkept := kept_built L ops
  have hok := fileLines_ok hkept false
  have hfile : iniWrite L (built L ops) = (fileLines L false (built L ops)).flatMap fun line => line ++ [newline] :=
    writeLoop_lines L hkept 0
  have hmark : skipMark (iniWrite L (built L ops)) = iniWrite L (built L ops) :=
    if_neg fun hhead => absurd (h _ (List.mem_of_head? hhead)) (by decide)
  have hplain : Plain (skipMark (iniWrite L (built L ops))) := by
    intro c hc
    rw [hmark] at hc
    refine ⟨?_, h c hc⟩
    rw [hfile] at hc
    obtain ⟨line, hline, hmem⟩ := List.mem_flatMap.mp hc
    rcases List.mem_append.mp hmem with hown | hlast
    · exact ((hok line hline).2 c hown).1
    · exact List.mem_singleton.mp hlast ▸ by decide
  have hfits : ∀ line ∈ linesOf (iniWrite L (built L ops)), (nameOf line).length ≤ 127 := by
    intro line hline
    unfold linesOf at hline
    rw [hmark, hfile] at hline
    obtain ⟨l, hl, rfl⟩ := lines_whole hok _ line hline
    rcases mem_fileLines hl with rfl | ⟨sec, hsec, rfl | ⟨ent, hent, rfl⟩⟩
    · decide
    · rw [nameOf_header L (hkept.names sec hsec)]
      exact (wide_name L (hkept.names sec hsec)).2.1
    · rw [nameOf_entry (hkept.held sec hsec ent hent)]
      exact (wide_name L (hkept.held sec hsec ent hent).name).2.1
  obtain ⟨r, hread, htext⟩ := readLoop_plain L _ (started sname ename) (Nat.lt_succ_self _) hplain hfits
  exact ⟨r, hread, (text_iniRead L htext).trans (read_written hkept)⟩

theorem saved_letter_ex :
    ∃ r, iniReadEx latin1.wctomb (Arr.fill 128 0) (Arr.fill 128 0) (iniWrite latin1 (built latin1 letterOps)) = .done r ∧
      r.text.before ++ [r.text.sec] = { name := [], entries := [] } :: (built latin1 letterOps).map (reloadSection latin1) := by
  have hlow : (iniWrite latin1 (built latin1 letterOps)).all (fun c => decide (c < 128)) = true := by decide +kernel
  exact saved_read_ex latin1 letterOps (Arr.fill 128 0) (Arr.fill 128 0)
    fun c h => of_decide_eq_true (List.all_eq_true.mp hlow c h)

theorem read_in_bounds (wctomb : Wide → List Byte) (sname ename : Arr Byte 128) (file : List Wide) :
    InBounds wctomb sname ename file ↔ ∀ line ∈ linesOf file, NameFits wctomb 0 (nameOf line) := by
  unfold InBounds
  rw [iniReadEx_run]
  constructor
  · rintro ⟨r, hrun, -⟩ line hmem
    by_contra hline
    rw [run_stray (started_kept sname ename) hmem hline] at hrun
    cases hrun
  · intro h
    obtain ⟨r, hrun, hr⟩ := run_fits h (started_kept sname ename)
    rw [hrun]
    exact ⟨r, rfl, hr⟩

/-- A section name of 128 letters: its closing zero is written behind the array. -/
theorem long_name_strays : ¬InBounds (fun c => [c.setWidth 8]) (Arr.fill 128 0) (Arr.fill 128 0)
    (opening :: List.replicate 128 0x41 ++ [closing, newline]) := by
  have hlines : linesOf (opening :: List.replicate 128 0x41 ++ [closing, newline]) =
      [opening :: List.replicate 128 0x41 ++ [closing, newline]] := by
    decide +kernel
  have hname : nameOf (opening :: List.replicate 128 0x41 ++ [closing, newline]) = List.replicate 128 0x41 := by
    decide +kernel
  rintro ⟨r, hrun, -⟩
  rw [iniReadEx_run, hlines, run_stray (started_kept _ _) (List.mem_singleton.mpr rfl)] at hrun
  · cases hrun
  · rw [hname]
    intro h
    have hlength := h.1
    simp at hlength

end PeepeeBox.IniBounds
