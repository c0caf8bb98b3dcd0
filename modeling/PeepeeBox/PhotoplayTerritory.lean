import Mathlib.Data.List.Dedup
import Mathlib.Data.List.Perm.Subperm
import Mathlib.Logic.Function.Iterate
import PeepeeBox.FatBounds
import PeepeeBox.HaspRecord
import PeepeeBox.PhotoplayIdent

set_option autoImplicit false

/-!
# Naming a 2.0 image

A 2.0 image has its version in a file of its own and names its territory by a menu that is known, or by
the languages of the question sets: what a directory is tallied to does not depend on its order.
-/
namespace PeepeeBox.PhotoplayTerritory
open Fat16 HostFile HaspRecord PhotoplayIdent

def liveRow (f : File) : ℕ → ℕ → List (List Byte) × Bool
  | 0, _ => ([], false)
  | n + 1, off =>
    match ppReadAt f off 32 with
    | none => ([], true)
    | some ent =>
      if ent.getD 0 0 = 0 then ([], true)
      else if ent.getD 0 0 = 0xE5 ∨ ent.getD 11 0 = 0x0F then liveRow f n (off + 32)
      else (ent :: (liveRow f n (off + 32)).1, (liveRow f n (off + 32)).2)

def liveLoop (fs : PpFat) : ℕ → BitVec 16 → List (List Byte)
  | 0, _ => []
  | guard + 1, clus =>
    if 2 ≤ clus ∧ clus < 0xFFF0 then
      let row := liveRow fs.f (fs.spc * fs.bps / 32) (clusOff fs clus)
      if row.2 then row.1 else row.1 ++ liveLoop fs guard (ppFatNext fs clus)
    else []

/-- What `pp_dir_each` hands over to a callback that never ends the walk. -/
def ppDirLive (fs : PpFat) (clus : BitVec 16) : List (List Byte) :=
  if clus = 0 then (liveRow fs.f fs.rootEnts fs.rootOff).1 else liveLoop fs 65536 clus

section
variable {α : Type} (fn : List Byte → Option α)

def passOf (row : List (List Byte) × Bool) : Pass α :=
  match row.1.findSome? fn with
  | some r => .found r
  | none => if row.2 then .past else .on

end

def pp20MaxLangs : ℕ := 16

structure PpLang where
  code : List Byte
  /-- Question files in this language. -/
  sets : ℕ
  /-- `.BUF` files beside them. -/
  played : ℕ
deriving DecidableEq

structure Tally where
  code : List Byte
  set : Bool
  played : Bool
deriving DecidableEq

/-- `D_ALLG1 DAB` is a German question set, `D_ALLG1 BUF` says that it has been played. -/
def tally (ext ent : List Byte) : Option Tally :=
  if ent.getD 11 0 &&& 0x18 ≠ 0 then none
  else
    let code := (ent.take 3).takeWhile fun c => decide (0x41 ≤ c ∧ c ≤ 0x5A)
    if code.length = 0 ∨ ent.getD code.length 0 ≠ 0x5F then none
    else
      let set := decide ((ent.drop 8).take 3 = ext)
      let played := decide ((ent.drop 8).take 3 = ascii "BUF")
      if !set && !played then none else some ⟨code, set, played⟩

def PpLang.count (t : Tally) (g : PpLang) : PpLang :=
  { g with sets := g.sets + t.set.toNat, played := g.played + t.played.toNat }

def pp20LangCb (ext : List Byte) (l : List PpLang) (ent : List Byte) : List PpLang :=
  match tally ext ent with
  | none => l
  | some t =>
    let i := l.findIdx fun g => g.code = t.code
    if i = l.length then
      if l.length = pp20MaxLangs then l else l ++ [PpLang.count t ⟨t.code, 0, 0⟩]
    else l.modify i (PpLang.count t)

def pp20Langs : List (List Byte × List Byte) :=
  [(ascii "D", ascii "DE"), (ascii "H", ascii "NL"), (ascii "I", ascii "IT"), (ascii "F", ascii "FR"),
    (ascii "SP", ascii "ES"), (ascii "S", ascii "ES"), (ascii "GR", ascii "GR"), (ascii "G", ascii "GR")]

def sole (codes : List (List Byte)) : Option (List Byte) :=
  if codes.length = 1 then codes.getLast? else none

/-- The only language there are sets in, or else the only one of them that has been played. -/
def pp20LangTerr (fs : PpFat) (dir : BitVec 16) (ext : List Byte) : Option (List Byte) :=
  let l := (ppDirLive fs dir).foldl (pp20LangCb ext) []
  let sets := (l.filter fun g => g.sets ≠ 0).map PpLang.code
  let played := (l.filter fun g => g.sets ≠ 0 ∧ g.played ≠ 0).map PpLang.code
  let lang := if sets.length = 1 then sole sets else sole played
  lang.bind fun lang => (pp20Langs.find? fun e => e.1 = lang).map Prod.snd

def ppCrc32 (bs : List Byte) : BitVec 32 :=
  let round := fun c : BitVec 32 => c >>> 1 ^^^ (0xEDB88320 &&& (0 - (c &&& 1)))
  ~~~ bs.foldl (fun c b => round^[8] (c ^^^ b.setWidth 32)) 0xFFFFFFFF

def pp20Menus : List (ℕ × BitVec 32 × List Byte) :=
  [(141449, 0xCBB96DF2, ascii "DE"), (141559, 0xAB7FCD16, ascii "NL"), (141816, 0x20D66C70, ascii "ES")]

def pp20Version (fs : PpFat) : Option (BitVec 16 × List Byte) := do
  let dir ← (ppDirFind fs 0 (ascii "MAIN       ")).filter fun q => q.isdir
  let q ← (ppDirFind fs dir.clus (ascii "VERSION STR")).filter fun q => !q.isdir
  let raw ← ppReadChain fs q.clus q.size.toNat 256
  let text := (raw.take 31).takeWhile fun c => decide (0x20 ≤ c ∧ c < 0x7F)
  return (dir.clus, (text.reverse.dropWhile fun c => c = 0x20).reverse)

def menuTerr (fs : PpFat) (dir : BitVec 16) : Option (List Byte) := do
  let q ← (ppDirFind fs dir (ascii "MENU    EXE")).filter fun q => !q.isdir
  let raw ← ppReadChain fs q.clus q.size.toNat (1024 * 1024)
  let menu ← pp20Menus.find? fun m => q.size.toNat = m.1 ∧ ppCrc32 raw = m.2.1
  return menu.2.2

def langDir (fs : PpFat) (game sub : List Byte) : Option (BitVec 16) := do
  let q ← (ppDirFind fs 0 game).filter fun q => q.isdir
  let q ← (ppDirFind fs q.clus sub).filter fun q => q.isdir
  return q.clus

def questionDir (fs : PpFat) : Option (BitVec 16) := langDir fs (ascii "FUNQUIZ    ") (ascii "DATA       ")

def groupDir (fs : PpFat) : Option (BitVec 16) := langDir fs (ascii "HANGMAN    ") (ascii "GROUPS     ")

structure Identity where
  out : List Byte
  banner : List Byte
  terr : List Byte
deriving DecidableEq

def snprintf (size : ℕ) (text : List Byte) : List Byte := text.take (size - 1)

def photoplayIdentifyPp20 (f : File) (outsz bsz tsz : ℕ) : Option Identity :=
  if outsz < 8 then none
  else do
    let fs ← ppFatOpen f
    let (mainDir, version) ← pp20Version fs
    if version.take 8 ≠ ascii "Version " ∨ version.length ≤ 8 then none
    else
      let terr := menuTerr fs mainDir
        <|> (questionDir fs).bind (fun dir => pp20LangTerr fs dir (ascii "DAB"))
        <|> (groupDir fs).bind fun dir => pp20LangTerr fs dir (ascii "DBF")
      let name := ascii "Photo Play " ++ version.drop 8 ++ terr.elim [] fun t => ascii " " ++ t
      return { out := snprintf outsz name, banner := snprintf bsz version, terr := terr.elim [] (snprintf tsz) }

def InSets (ts : List Tally) (code : List Byte) : Prop := ∃ t ∈ ts, t.code = code ∧ t.set = true

def InPlayed (ts : List Tally) (code : List Byte) : Prop := ∃ t ∈ ts, t.code = code ∧ t.played = true

/-- The languages are those tallied, each once, and say whether they have sets and have been played. -/
structure Counted (l : List PpLang) (ts : List Tally) : Prop where
  nodup : (l.map PpLang.code).Nodup
  codes : ∀ code, code ∈ l.map PpLang.code ↔ ∃ t ∈ ts, t.code = code
  sets : ∀ g ∈ l, g.sets ≠ 0 ↔ InSets ts g.code
  played : ∀ g ∈ l, g.played ≠ 0 ↔ InPlayed ts g.code

theorem inSets_snoc (ts : List Tally) (t : Tally) (code : List Byte) :
    InSets (ts ++ [t]) code ↔ InSets ts code ∨ t.code = code ∧ t.set = true := by
  simp [InSets, or_and_right, exists_or]

theorem inPlayed_snoc (ts : List Tally) (t : Tally) (code : List Byte) :
    InPlayed (ts ++ [t]) code ↔ InPlayed ts code ∨ t.code = code ∧ t.played = true := by
  simp [InPlayed, or_and_right, exists_or]

theorem Counted.other {l : List PpLang} {ts : List Tally} (h : Counted l ts) {t : Tally} {g : PpLang} (hg : g ∈ l)
    (hne : g.code ≠ t.code) :
    (g.sets ≠ 0 ↔ InSets (ts ++ [t]) g.code) ∧ (g.played ≠ 0 ↔ InPlayed (ts ++ [t]) g.code) := by
  rw [inSets_snoc, inPlayed_snoc, h.sets g hg, h.played g hg]
  exact ⟨(or_iff_left fun hsame => hne hsame.1.symm).symm, (or_iff_left fun hsame => hne hsame.1.symm).symm⟩

theorem count_sets (t : Tally) (g : PpLang) : (g.count t).sets ≠ 0 ↔ g.sets ≠ 0 ∨ t.set = true := by
  change g.sets + t.set.toNat ≠ 0 ↔ _
  cases t.set <;> simp

theorem count_played (t : Tally) (g : PpLang) : (g.count t).played ≠ 0 ↔ g.played ≠ 0 ∨ t.played = true := by
  change g.played + t.played.toNat ≠ 0 ↔ _
  cases t.played <;> simp

theorem Counted.new {l : List PpLang} {ts : List Tally} (h : Counted l ts) {t : Tally}
    (hnew : t.code ∉ l.map PpLang.code) : Counted (l ++ [PpLang.count t ⟨t.code, 0, 0⟩]) (ts ++ [t]) := by
  have hnone : ∀ t' ∈ ts, t'.code ≠ t.code := fun t' ht' hsame => hnew ((h.codes t.code).mpr ⟨t', ht', hsame⟩)
  constructor
  · rw [List.map_append, List.nodup_append]
    refine ⟨h.nodup, List.nodup_singleton _, fun c hc d hd hsame => hnew ?_⟩
    obtain rfl := List.mem_singleton.mp hd
    have hcode : c = t.code := hsame
    exact hcode ▸ hc
  · intro code
    rw [List.map_append, List.mem_append, h.codes code]
    simp [or_and_right, exists_or, PpLang.count, eq_comm]
  · intro g hg
    rcases List.mem_append.mp hg with hg | hg
    · exact (h.other hg fun hsame => hnew (hsame ▸ List.mem_map_of_mem hg)).1
    · obtain rfl := List.mem_singleton.mp hg
      have hmissing : ¬ InSets ts t.code := fun ⟨t', ht', hcode, _⟩ => hnone t' ht' hcode
      rw [count_sets, inSets_snoc]
      change (0 : ℕ) ≠ 0 ∨ _ ↔ InSets ts t.code ∨ t.code = t.code ∧ _
      simp [hmissing]
  · intro g hg
    rcases List.mem_append.mp hg with hg | hg
    · exact (h.other hg fun hsame => hnew (hsame ▸ List.mem_map_of_mem hg)).2
    · obtain rfl := List.mem_singleton.mp hg
      have hmissing : ¬ InPlayed ts t.code := fun ⟨t', ht', hcode, _⟩ => hnone t' ht' hcode
      rw [count_played, inPlayed_snoc]
      change (0 : ℕ) ≠ 0 ∨ _ ↔ InPlayed ts t.code ∨ t.code = t.code ∧ _
      simp [hmissing]

theorem Counted.again {pre post : List PpLang} {g : PpLang} {ts : List Tally} (h : Counted (pre ++ g :: post) ts)
    {t : Tally} (hcode : g.code = t.code) : Counted (pre ++ g.count t :: post) (ts ++ [t]) := by
  have hsame : (pre ++ g.count t :: post).map PpLang.code = (pre ++ g :: post).map PpLang.code := by
    rw [List.map_append, List.map_append]
    rfl
  have hg : g ∈ pre ++ g :: post := List.mem_append_right pre List.mem_cons_self
  have hnodup := h.nodup
  rw [List.map_append, List.map_cons, List.nodup_append, List.nodup_cons] at hnodup
  obtain ⟨-, ⟨hpost, -⟩, hpre⟩ := hnodup
  have hothers : ∀ g' ∈ pre ++ g.count t :: post, g' = g.count t ∨ g' ∈ pre ++ g :: post ∧ g'.code ≠ t.code := by
    intro g' hg'
    rcases List.mem_append.mp hg' with hg' | hg'
    · refine Or.inr ⟨List.mem_append_left _ hg', fun heq => ?_⟩
      exact hpre _ (List.mem_map_of_mem hg') _ List.mem_cons_self (heq.trans hcode.symm)
    · rcases List.mem_cons.mp hg' with hg' | hg'
      · exact Or.inl hg'
      · refine Or.inr ⟨List.mem_append_right _ (List.mem_cons_of_mem _ hg'), fun heq => hpost ?_⟩
        rw [hcode, ← heq]
        exact List.mem_map_of_mem hg'
  constructor
  · rw [hsame]
    exact h.nodup
  · intro code
    have hin : t.code ∈ (pre ++ g :: post).map PpLang.code := hcode ▸ List.mem_map_of_mem hg
    rw [hsame, h.codes code]
    constructor
    · rintro ⟨t', ht', hcode'⟩
      exact ⟨t', List.mem_append_left _ ht', hcode'⟩
    · rintro ⟨t', ht', rfl⟩
      rcases List.mem_append.mp ht' with ht' | ht'
      · exact ⟨t', ht', rfl⟩
      · obtain rfl := List.mem_singleton.mp ht'
        exact (h.codes _).mp hin
  · intro g' hg'
    rcases hothers g' hg' with rfl | ⟨hold, hne⟩
    · rw [count_sets, h.sets g hg, inSets_snoc]
      exact or_congr Iff.rfl ⟨fun hset => ⟨hcode.symm, hset⟩, And.right⟩
    · exact (h.other hold hne).1
  · intro g' hg'
    rcases hothers g' hg' with rfl | ⟨hold, hne⟩
    · rw [count_played, h.played g hg, inPlayed_snoc]
      exact or_congr Iff.rfl ⟨fun hset => ⟨hcode.symm, hset⟩, And.right⟩
    · exact (h.other hold hne).2

theorem Counted.step {l : List PpLang} {ts : List Tally} (h : Counted l ts) {langs : List (List Byte)}
    (hfew : langs.length ≤ pp20MaxLangs) (hlangs : ∀ t ∈ ts, t.code ∈ langs) {ext ent : List Byte}
    (hent : ∀ t, tally ext ent = some t → t.code ∈ langs) :
    Counted (pp20LangCb ext l ent) (ts ++ (tally ext ent).toList) := by
  unfold pp20LangCb
  cases htally : tally ext ent with
  | none => exact (List.append_nil ts).symm ▸ h
  | some t =>
    dsimp only [Option.toList_some]
    by_cases hnew : l.findIdx (fun g => decide (g.code = t.code)) = l.length
    · have habsent : t.code ∉ l.map PpLang.code := by
        intro hin
        obtain ⟨g, hg, hcode⟩ := List.mem_map.mp hin
        exact absurd (decide_eq_true hcode) (by simpa using List.findIdx_eq_length.mp hnew g hg)
      have hsubset : t.code :: l.map PpLang.code ⊆ langs := by
        intro c hc
        rcases List.mem_cons.mp hc with rfl | hc
        · exact hent t htally
        · obtain ⟨t', ht', rfl⟩ := (h.codes c).mp hc
          exact hlangs t' ht'
      have hlength := ((List.nodup_cons.mpr ⟨habsent, h.nodup⟩).subperm hsubset).length_le
      have hroom : l.length ≠ pp20MaxLangs := by
        simp only [List.length_cons, List.length_map] at hlength
        omega
      rw [if_pos hnew, if_neg hroom]
      exact h.new habsent
    · have hlt : l.findIdx (fun g => decide (g.code = t.code)) < l.length :=
        Nat.lt_of_le_of_ne List.findIdx_le_length hnew
      have hcode := of_decide_eq_true (List.findIdx_getElem (w := hlt))
      rw [if_neg hnew, List.modify_eq_take_cons_drop hlt]
      apply Counted.again _ hcode
      rw [List.getElem_cons_drop, List.take_append_drop]
      exact h

theorem Counted.run {l : List PpLang} {ts : List Tally} (h : Counted l ts) {langs : List (List Byte)}
    (hfew : langs.length ≤ pp20MaxLangs) (hlangs : ∀ t ∈ ts, t.code ∈ langs) {ext : List Byte}
    {ents : List (List Byte)} (hents : ∀ t ∈ ents.filterMap (tally ext), t.code ∈ langs) :
    Counted (ents.foldl (pp20LangCb ext) l) (ts ++ ents.filterMap (tally ext)) := by
  induction ents generalizing l ts with
  | nil => exact (List.append_nil ts).symm ▸ h
  | cons ent ents ih =>
    have hsplit : (ent :: ents).filterMap (tally ext) = (tally ext ent).toList ++ ents.filterMap (tally ext) := by
      cases htally : tally ext ent <;> simp [htally]
    rw [hsplit] at hents ⊢
    have hent : ∀ t, tally ext ent = some t → t.code ∈ langs := by
      intro t htally
      exact hents t (List.mem_append_left _ (htally ▸ List.mem_singleton_self t))
    have hmore : ∀ t ∈ ts ++ (tally ext ent).toList, t.code ∈ langs := by
      intro t ht
      rcases List.mem_append.mp ht with ht | ht
      · exact hlangs t ht
      · exact hents t (List.mem_append_left _ ht)
    have hrest := ih (h.step hfew hlangs hent) hmore fun t ht => hents t (List.mem_append_right _ ht)
    rw [List.append_assoc] at hrest
    exact hrest

/-- The languages that entries of a directory are tallied for. -/
def languages (ext : List Byte) (ents : List (List Byte)) : List (List Byte) :=
  ((ents.filterMap (tally ext)).map Tally.code).dedup

theorem counted_directory {ext : List Byte} {ents : List (List Byte)}
    (hfew : (languages ext ents).length ≤ pp20MaxLangs) :
    Counted (ents.foldl (pp20LangCb ext) []) (ents.filterMap (tally ext)) := by
  have hnone : Counted [] [] := ⟨List.nodup_nil, by simp, by simp, by simp⟩
  refine hnone.run hfew (by simp) fun t ht => ?_
  exact List.mem_dedup.mpr (List.mem_map_of_mem ht)

theorem Counted.mem_sets {l : List PpLang} {ts : List Tally} (h : Counted l ts) (code : List Byte) :
    code ∈ (l.filter fun g => g.sets ≠ 0).map PpLang.code ↔ InSets ts code := by
  rw [List.mem_map]
  constructor
  · rintro ⟨g, hg, rfl⟩
    obtain ⟨hg, hsets⟩ := List.mem_filter.mp hg
    exact (h.sets g hg).mp (of_decide_eq_true hsets)
  · intro hset
    obtain ⟨t, ht, hcode, -⟩ := id hset
    obtain ⟨g, hg, rfl⟩ := List.mem_map.mp ((h.codes code).mpr ⟨t, ht, hcode⟩)
    exact ⟨g, List.mem_filter.mpr ⟨hg, decide_eq_true ((h.sets g hg).mpr hset)⟩, rfl⟩

theorem Counted.mem_played {l : List PpLang} {ts : List Tally} (h : Counted l ts) (code : List Byte) :
    code ∈ (l.filter fun g => g.sets ≠ 0 ∧ g.played ≠ 0).map PpLang.code ↔ InSets ts code ∧ InPlayed ts code := by
  rw [List.mem_map]
  constructor
  · rintro ⟨g, hg, rfl⟩
    obtain ⟨hg, hboth⟩ := List.mem_filter.mp hg
    obtain ⟨hsets, hplayed⟩ := of_decide_eq_true hboth
    exact ⟨(h.sets g hg).mp hsets, (h.played g hg).mp hplayed⟩
  · rintro ⟨hset, hplayed⟩
    obtain ⟨t, ht, hcode, -⟩ := id hset
    obtain ⟨g, hg, rfl⟩ := List.mem_map.mp ((h.codes code).mpr ⟨t, ht, hcode⟩)
    have hboth : g.sets ≠ 0 ∧ g.played ≠ 0 := ⟨(h.sets g hg).mpr hset, (h.played g hg).mpr hplayed⟩
    exact ⟨g, List.mem_filter.mpr ⟨hg, decide_eq_true hboth⟩, rfl⟩

theorem Counted.filter_nodup {l : List PpLang} {ts : List Tally} (h : Counted l ts) (p : PpLang → Bool) :
    ((l.filter p).map PpLang.code).Nodup := h.nodup.sublist (List.filter_sublist.map _)

theorem sole_perm {codes codes' : List (List Byte)} (h : codes'.Perm codes) : sole codes' = sole codes := by
  unfold sole
  rw [h.length_eq]
  by_cases hone : codes.length = 1
  · obtain ⟨c, rfl⟩ := List.length_eq_one_iff.mp hone
    rw [List.perm_singleton.mp h]
  · rw [if_neg hone, if_neg hone]

theorem territory_permuted {ext : List Byte} {fs fs' : PpFat} {dir dir' : BitVec 16}
    (hperm : (ppDirLive fs' dir').Perm (ppDirLive fs dir))
    (hfew : (languages ext (ppDirLive fs dir)).length ≤ pp20MaxLangs) :
    pp20LangTerr fs' dir' ext = pp20LangTerr fs dir ext := by
  have htallies := hperm.filterMap (tally ext)
  have hfew' : (languages ext (ppDirLive fs' dir')).length ≤ pp20MaxLangs := by
    unfold languages
    rw [((htallies.map Tally.code).dedup).length_eq]
    exact hfew
  have hcounted := counted_directory hfew
  have hcounted' := counted_directory hfew'
  have hsets : ∀ code, InSets ((ppDirLive fs' dir').filterMap (tally ext)) code ↔
      InSets ((ppDirLive fs dir).filterMap (tally ext)) code :=
    fun code => exists_congr fun t => and_congr_left' htallies.mem_iff
  have hplayed : ∀ code, InPlayed ((ppDirLive fs' dir').filterMap (tally ext)) code ↔
      InPlayed ((ppDirLive fs dir).filterMap (tally ext)) code :=
    fun code => exists_congr fun t => and_congr_left' htallies.mem_iff
  unfold pp20LangTerr
  generalize (ppDirLive fs dir).foldl (pp20LangCb ext) [] = l at hcounted ⊢
  generalize (ppDirLive fs' dir').foldl (pp20LangCb ext) [] = l' at hcounted' ⊢
  have hones := (List.perm_ext_iff_of_nodup (hcounted'.filter_nodup _) (hcounted.filter_nodup _)).mpr fun code =>
    (hcounted'.mem_sets code).trans ((hsets code).trans (hcounted.mem_sets code).symm)
  have hboths := (List.perm_ext_iff_of_nodup (hcounted'.filter_nodup _) (hcounted.filter_nodup _)).mpr fun code =>
    (hcounted'.mem_played code).trans
      ((and_congr (hsets code) (hplayed code)).trans (hcounted.mem_played code).symm)
  dsimp only
  rw [hones.length_eq, sole_perm hones, sole_perm hboths]

/-- The second volume is the first with the entries of its language directories in another order: they are
    found in the same way, and so are the version and the menu. -/
structure Permuted (fs fs' : PpFat) : Prop where
  version : pp20Version fs' = pp20Version fs
  menu : ∀ dir version, pp20Version fs = some (dir, version) → menuTerr fs' dir = menuTerr fs dir
  questions : Option.Rel (fun dir' dir => (ppDirLive fs' dir').Perm (ppDirLive fs dir)) (questionDir fs') (questionDir fs)
  groups : Option.Rel (fun dir' dir => (ppDirLive fs' dir').Perm (ppDirLive fs dir)) (groupDir fs') (groupDir fs)

/-- At most sixteen languages in a directory, if it is there. -/
def Few (fs : PpFat) (dir : Option (BitVec 16)) (ext : List Byte) : Prop :=
  ∀ d, dir = some d → (languages ext (ppDirLive fs d)).length ≤ pp20MaxLangs

theorem terr_permuted {fs fs' : PpFat} {dir dir' : Option (BitVec 16)} {ext : List Byte}
    (h : Option.Rel (fun dir' dir => (ppDirLive fs' dir').Perm (ppDirLive fs dir)) dir' dir)
    (hfew : Few fs dir ext) :
    (dir'.bind fun dir => pp20LangTerr fs' dir ext) = dir.bind fun dir => pp20LangTerr fs dir ext := by
  cases h with
  | some hperm =>
    rw [Option.bind_some, Option.bind_some]
    exact territory_permuted hperm (hfew _ rfl)
  | none => rw [Option.bind_none, Option.bind_none]

/-- The order of the entries of a language directory decides neither the territory it names nor the
    identification of the image. -/
theorem order_irrelevant :
    (∀ ext fs fs' dir dir', (ppDirLive fs' dir').Perm (ppDirLive fs dir) →
      (languages ext (ppDirLive fs dir)).length ≤ pp20MaxLangs →
      pp20LangTerr fs' dir' ext = pp20LangTerr fs dir ext) ∧
    ∀ f f' fs fs', ppFatOpen f = some fs → ppFatOpen f' = some fs' → Permuted fs fs' →
      Few fs (questionDir fs) (ascii "DAB") → Few fs (groupDir fs) (ascii "DBF") →
      ∀ outsz bsz tsz, photoplayIdentifyPp20 f' outsz bsz tsz = photoplayIdentifyPp20 f outsz bsz tsz := by
  refine ⟨fun ext fs fs' dir dir' hperm hfew => territory_permuted hperm hfew, ?_⟩
  intro f f' fs fs' hopen hopen' h hquestions hgroups outsz bsz tsz
  unfold photoplayIdentifyPp20
  rw [hopen, hopen', Option.bind_eq_bind, Option.bind_eq_bind, Option.bind_some, Option.bind_some, h.version,
    terr_permuted h.questions hquestions, terr_permuted h.groups hgroups]
  cases hversion : pp20Version fs with
  | none => rw [Option.bind_none, Option.bind_none]
  | some main =>
    rw [Option.bind_some, Option.bind_some]
    simp only [h.menu main.1 main.2 hversion]

/-- A 2.0 image whose questions are in German and English, the German ones played. -/
def questions (a b c : List Byte) : File :=
  FatBounds.image 3584
    [(0x0B, [0, 2, 1, 1, 0, 1, 16, 0, 7, 0, 0xF8, 1, 0]),
      (516, [0xFF, 0xFF, 0xFF, 0xFF, 0xFF, 0xFF, 0xFF, 0xFF]), (1024, ascii "MAIN       " ++ [0x10]),
      (1024 + 26, [2, 0]), (1056, ascii "FUNQUIZ    " ++ [0x10]), (1056 + 26, [4, 0]),
      (1536, ascii "VERSION STR"), (1536 + 26, [3, 0, 11, 0]), (2048, ascii "Version 2.0"),
      (2560, ascii "DATA       " ++ [0x10]), (2560 + 26, [5, 0]), (3072, a), (3104, b), (3136, c)]

def german : File := questions (ascii "D_ALLG1 DAB") (ascii "D_ALLG1 BUF") (ascii "E_ALLG1 DAB")

def english : File := questions (ascii "E_ALLG1 DAB") (ascii "D_ALLG1 DAB") (ascii "D_ALLG1 BUF")

theorem ppFatOpen_file {f : File} {fs : PpFat} (h : ppFatOpen f = some fs) : fs.f = f := by
  unfold ppFatOpen at h
  simp only [Option.bind_eq_bind, Option.bind_eq_some_iff] at h
  obtain ⟨sec, -, sec', -, h⟩ := h
  split_ifs at h <;> exact Option.some.inj h ▸ rfl

def volume (f : File) : PpFat :=
  { f := f, partOff := 0, bps := 512, spc := 1, rootOff := 1024, rootEnts := 16, dataOff := 1536, fatOff := 512 }

theorem volume_opened {f : File}
    (h : (ppFatOpen f).map (fun fs => [fs.partOff, fs.bps, fs.spc, fs.rootOff, fs.rootEnts, fs.dataOff, fs.fatOff]) =
      some [0, 512, 1, 1024, 16, 1536, 512]) : ppFatOpen f = some (volume f) := by
  obtain ⟨fs, hopen, hfields⟩ := Option.map_eq_some_iff.mp h
  have hfile := ppFatOpen_file hopen
  simp only [List.cons.injEq] at hfields
  obtain ⟨hpart, hbps, hspc, hroot, hents, hdata, hfat, -⟩ := hfields
  cases fs
  simp only at hpart hbps hspc hroot hents hdata hfat hfile
  subst hpart hbps hspc hroot hents hdata hfat hfile
  exact hopen

theorem order_irrelevant_german :
    photoplayIdentifyPp20 english 64 64 64 = photoplayIdentifyPp20 german 64 64 64 ∧
      pp20LangTerr (volume english) 5 (ascii "DAB") = pp20LangTerr (volume german) 5 (ascii "DAB") ∧
      photoplayIdentifyPp20 german 64 64 64 =
        some ⟨ascii "Photo Play 2.0 DE", ascii "Version 2.0", ascii "DE"⟩ := by
  have hopen : ppFatOpen german = some (volume german) := volume_opened (by decide +kernel)
  have hopen' : ppFatOpen english = some (volume english) := volume_opened (by decide +kernel)
  have hversion : pp20Version (volume german) = some (2, ascii "Version 2.0") := by decide +kernel
  have hquestions : questionDir (volume german) = some 5 := by decide +kernel
  have hquestions' : questionDir (volume english) = some 5 := by decide +kernel
  have hgroups : groupDir (volume german) = none := by decide +kernel
  have hgroups' : groupDir (volume english) = none := by decide +kernel
  have hperm : (ppDirLive (volume english) 5).Perm (ppDirLive (volume german) 5) := by decide +kernel
  have hfew : (languages (ascii "DAB") (ppDirLive (volume german) 5)).length ≤ pp20MaxLangs := by decide +kernel
  have hpermuted : Permuted (volume german) (volume english) := by
    constructor
    · rw [hversion]
      decide +kernel
    · intro dir version h
      rw [hversion] at h
      obtain ⟨rfl, -⟩ := Prod.mk.inj (Option.some.inj h)
      decide +kernel
    · rw [hquestions, hquestions']
      exact .some hperm
    · rw [hgroups, hgroups']
      exact .none
  obtain ⟨hterritory, hidentity⟩ := order_irrelevant
  refine ⟨hidentity german english _ _ hopen hopen' hpermuted ?_ ?_ 64 64 64, hterritory _ _ _ 5 5 hperm hfew, ?_⟩
  · rw [hquestions]
    rintro d ⟨rfl⟩
    exact hfew
  · rw [hgroups]
    intro d h
    cases h
  · decide +kernel

end PeepeeBox.PhotoplayTerritory
