import PeepeeBox.ExchangeSort
import PeepeeBox.Ini

set_option autoImplicit false

/-!
# Tidying a section

`delete_section_if_empty` of `ini.c`: a section without a named entry goes, the entries of another are sorted.
-/
namespace PeepeeBox.IniTidy
open Ini ExchangeSort

/-- How one C string compares with another. -/
def strcmp : List Byte → List Byte → Ordering
  | [], [] => .eq
  | [], _ :: _ => .lt
  | _ :: _, [] => .gt
  | a :: as, b :: bs => if a = b then strcmp as bs else if a < b then .lt else .gt

def named (ent : Entry) : Bool := decide (0 < ent.name.length)

def entriesNum (sec : Section) : ℕ := sec.entries.foldl (fun i ent => if named ent then i + 1 else i) 0

/-- The inner loop comes to place `q` with the outer one at place `p`; the contents are exchanged, the
links stay. -/
def visit (i p : ℕ) (acc : ℕ × List Entry) (q : ℕ) : ℕ × List Entry :=
  let (j, es) := acc
  match es[p]?, es[q]? with
  | some iEnt, some jEnt =>
    if named jEnt then
      (j + 1, if j ≠ i ∧ strcmp jEnt.name iEnt.name = .gt then (es.set q iEnt).set p jEnt else es)
    else (j, es)
  | _, _ => (j, es)

/-- The outer loop comes to place `p`. -/
def round (acc : ℕ × List Entry) (p : ℕ) : ℕ × List Entry :=
  let (i, es) := acc
  if es[p]?.any named then (i + 1, ((List.range es.length).foldl (visit i p) (0, es)).2) else (i, es)

def sortEntries (es : List Entry) : List Entry := ((List.range es.length).foldl round (0, es)).2

def listDelete : IniT → ℕ → IniT
  | [], _ => []
  | _ :: ini, 0 => ini
  | sec :: ini, k + 1 => sec :: listDelete ini k

def deleteSectionIfEmpty (ini : IniT) (k : ℕ) : IniT :=
  match ini[k]? with
  | none => ini
  | some sec =>
    if 0 < entriesNum sec then ini.set k { sec with entries := sortEntries sec.entries } else listDelete ini k

theorem strcmp_swap (a b : List Byte) : strcmp b a = (strcmp a b).swap := by
  induction a generalizing b with
  | nil =>
    cases b with
    | nil => rfl
    | cons y bs => rfl
  | cons x as ih =>
    cases b with
    | nil => rfl
    | cons y bs =>
      unfold strcmp
      by_cases heq : x = y
      · rw [if_pos heq, if_pos heq.symm]
        exact ih bs
      · rw [if_neg heq, if_neg (Ne.symm heq)]
        by_cases hlt : x < y
        · rw [if_pos hlt, if_neg (by bv_omega)]
          rfl
        · rw [if_neg hlt, if_pos (by bv_omega)]
          rfl

theorem strcmp_trans {a b c : List Byte} (hab : strcmp a b ≠ .gt) (hbc : strcmp b c ≠ .gt) : strcmp a c ≠ .gt := by
  induction a generalizing b c with
  | nil =>
    cases c with
    | nil => simp [strcmp]
    | cons z cs => simp [strcmp]
  | cons x as ih =>
    cases b with
    | nil => exact absurd rfl hab
    | cons y bs =>
      cases c with
      | nil => exact absurd rfl hbc
      | cons z cs =>
        unfold strcmp at hab hbc ⊢
        by_cases hxy : x = y
        · rw [if_pos hxy] at hab
          rw [hxy]
          by_cases hyz : y = z
          · rw [if_pos hyz] at hbc ⊢
            exact ih hab hbc
          · rw [if_neg hyz] at hbc ⊢
            exact hbc
        · rw [if_neg hxy] at hab
          have hlt : x < y := by
            by_contra hnot
            rw [if_neg hnot] at hab
            exact hab rfl
          have hle : y ≤ z := by
            by_cases hyz : y = z
            · rw [hyz]
              exact BitVec.le_refl z
            · rw [if_neg hyz] at hbc
              by_contra hnot
              rw [if_neg (by bv_omega)] at hbc
              exact hbc rfl
          rw [if_neg (by bv_omega), if_pos (by bv_omega)]
          exact fun h => nomatch h

/-- One entry's name comes after the other's. -/
def gt (a b : Entry) : Bool := decide (strcmp a.name b.name = .gt)

theorem gt_asymm (a b : Entry) (h : gt a b = true) : gt b a = false := by
  have hgt : strcmp a.name b.name = .gt := of_decide_eq_true h
  refine decide_eq_false ?_
  rw [strcmp_swap, hgt]
  exact fun h => nomatch h

theorem gt_trans (a b c : Entry) (hab : gt a b = false) (hbc : gt b c = false) : gt a c = false :=
  decide_eq_false (strcmp_trans (of_decide_eq_false hab) (of_decide_eq_false hbc))

/-- How many named entries come before place `k`. -/
def number (es : List Entry) (k : ℕ) : ℕ := (es.take k).countP named

theorem number_succ {es : List Entry} {k : ℕ} {ent : Entry} (h : es[k]? = some ent) :
    number es (k + 1) = number es k + if named ent then 1 else 0 := by
  unfold number
  rw [List.take_add_one, h, List.countP_append]
  simp

theorem number_mono (es : List Entry) {k n : ℕ} (h : k ≤ n) : number es k ≤ number es n := by
  unfold number
  have hfirst : es.take k = (es.take n).take k := by rw [List.take_take, Nat.min_eq_left h]
  rw [hfirst]
  exact (List.take_sublist _ _).countP_le

theorem number_inj {es : List Entry} {k n : ℕ} {a b : Entry} (ha : es[k]? = some a) (hb : es[n]? = some b)
    (hnameda : named a = true) (hnamedb : named b = true) (h : number es k = number es n) : k = n := by
  have hk := number_succ ha
  have hn := number_succ hb
  rw [if_pos hnameda] at hk
  rw [if_pos hnamedb] at hn
  rcases Nat.lt_trichotomy k n with hlt | heq | hlt
  · have hle := number_mono es (show k + 1 ≤ n from hlt)
    omega
  · exact heq
  · have hle := number_mono es (show n + 1 ≤ k from hlt)
    omega

theorem number_keeps {es es' : List Entry} (h : Keeps named es es') (k : ℕ) : number es' k = number es k := by
  have hcount (l : List Entry) : number l k = ((l.map named).take k).count true := by
    unfold number
    rw [← List.map_take, List.count_eq_countP, List.countP_map]
    refine List.countP_congr fun ent _ => ?_
    simp
  rw [hcount, hcount, h.lives]

theorem visits_eq {es : List Entry} {p : ℕ} {ent : Entry} (hent : es[p]? = some ent) (hnamed : named ent = true) {n : ℕ}
    (hn : n ≤ es.length) :
    (List.range n).foldl (visit (number es p) p) (0, es) = (number es n, passTo named gt p es n) := by
  induction n with
  | zero => rfl
  | succ n ih =>
    rw [List.range_succ, List.foldl_append, ih (Nat.le_of_succ_le hn), passTo_succ]
    obtain ⟨hkeeps, x, hx, hlive⟩ := @passTo_keeps _ named gt _ _ _ hent hnamed n
    generalize passTo named gt p es n = es' at hkeeps hx ⊢
    obtain ⟨y, hy⟩ : ∃ y, es'[n]? = some y := ⟨_, List.getElem?_eq_getElem (hkeeps.length ▸ hn)⟩
    have hnext : number es (n + 1) = number es n + if named y then 1 else 0 := by
      rw [← number_keeps hkeeps (n + 1), number_succ hy, number_keeps hkeeps n]
    have hdiffer (hnamedy : named y = true) :
        number es n ≠ number es p ∧ strcmp y.name x.name = .gt ↔ gt y x = true := by
      constructor
      · intro h
        exact decide_eq_true h.2
      · intro h
        refine ⟨fun hsame => ?_, of_decide_eq_true h⟩
        rw [← number_keeps hkeeps n, ← number_keeps hkeeps p] at hsame
        rw [number_inj hy hx hnamedy hlive hsame, hx] at hy
        rw [← Option.some.inj hy, gt_irrefl gt_asymm] at h
        cases h
    rw [hnext]
    change visit (number es p) p (number es n, es') n = _
    unfold visit exchange
    dsimp only
    rw [hx, hy]
    dsimp only
    cases hnamedy : named y with
    | false => rfl
    | true =>
      rw [Bool.true_and]
      exact Prod.ext rfl (if_congr (hdiffer hnamedy) rfl rfl)

theorem rounds_eq (es : List Entry) {n : ℕ} (hn : n ≤ es.length) :
    (List.range n).foldl round (0, es) = (number es n, sortTo named gt es n) := by
  induction n with
  | zero => rfl
  | succ n ih =>
    rw [List.range_succ, List.foldl_append, ih (Nat.le_of_succ_le hn), sortTo_succ]
    obtain ⟨hkeeps, -⟩ := @sortTo_sorted _ named gt gt_asymm gt_trans es n
    generalize sortTo named gt es n = es' at hkeeps ⊢
    obtain ⟨y, hy⟩ : ∃ y, es'[n]? = some y := ⟨_, List.getElem?_eq_getElem (hkeeps.length ▸ hn)⟩
    have hnext : number es (n + 1) = number es n + if named y then 1 else 0 := by
      rw [← number_keeps hkeeps (n + 1), number_succ hy, number_keeps hkeeps n]
    rw [hnext]
    change round (number es n, es') n = _
    unfold round
    dsimp only
    rw [hy, Option.any_some]
    cases hnamed : named y with
    | false => rfl
    | true =>
      rw [if_pos rfl, if_pos rfl, if_pos rfl, ← number_keeps hkeeps n, visits_eq hy hnamed (Nat.le_refl _)]

theorem sortEntries_eq (es : List Entry) : sortEntries es = ExchangeSort.sort named gt es :=
  congrArg Prod.snd (rounds_eq es (Nat.le_refl _))

theorem entriesNum_pos (sec : Section) : 0 < entriesNum sec ↔ ∃ ent ∈ sec.entries, named ent = true := by
  have hcount (es : List Entry) (i : ℕ) :
      es.foldl (fun i ent => if named ent then i + 1 else i) i = i + es.countP named := by
    induction es generalizing i with
    | nil => rfl
    | cons ent es ih =>
      rw [List.foldl_cons, ih, List.countP_cons]
      split
      · omega
      · rfl
  rw [← List.countP_pos_iff, ← Nat.zero_add (sec.entries.countP named), ← hcount]
  rfl

theorem named_iff (ent : Entry) : named ent = true ↔ ent.name ≠ [] := by
  unfold named
  rw [decide_eq_true_iff, List.length_pos_iff]

theorem listDelete_append (before : IniT) (sec : Section) (after : IniT) :
    listDelete (before ++ sec :: after) before.length = before ++ after := by
  induction before with
  | nil => rfl
  | cons first before ih => exact congrArg (first :: ·) ih

/-- A section without a named entry goes.  In another the named entries are sorted among themselves, the
nameless ones stay where they are. -/
theorem section_tidied (before : IniT) (sec : Section) (after : IniT) :
    ((∀ ent ∈ sec.entries, ent.name = []) →
      deleteSectionIfEmpty (before ++ sec :: after) before.length = before ++ after) ∧
    ((∃ ent ∈ sec.entries, ent.name ≠ []) →
      ∃ es, deleteSectionIfEmpty (before ++ sec :: after) before.length =
          before ++ { sec with entries := es } :: after ∧
        (es.filter named).Perm (sec.entries.filter named) ∧
        (es.filter named).Pairwise (fun a b => strcmp a.name b.name ≠ .gt) ∧
        es.length = sec.entries.length ∧
        ∀ (n : ℕ) (ent : Entry), ent.name = [] → (es[n]? = some ent ↔ sec.entries[n]? = some ent)) := by
  have hplace : (before ++ sec :: after)[before.length]? = some sec := by simp
  unfold deleteSectionIfEmpty
  rw [hplace]
  dsimp only
  constructor
  · intro hnone
    rw [if_neg, listDelete_append]
    rw [entriesNum_pos]
    rintro ⟨ent, hent, hnamed⟩
    exact (named_iff ent).mp hnamed (hnone ent hent)
  · rintro ⟨ent, hent, hnamed⟩
    obtain ⟨hkeeps, hsorted⟩ := @sort_sorted _ named gt gt_asymm gt_trans sec.entries
    rw [← sortEntries_eq] at hkeeps hsorted
    rw [if_pos ((entriesNum_pos sec).mpr ⟨ent, hent, (named_iff ent).mpr hnamed⟩)]
    refine ⟨sortEntries sec.entries, ?_, hkeeps.perm.filter named, ?_, hkeeps.length, fun n ent hname => ?_⟩
    · simp
    · exact hsorted.imp fun h => of_decide_eq_false h
    · refine hkeeps.others n ent ?_
      rw [Bool.eq_false_iff, ne_eq, named_iff]
      exact not_not.mpr hname

end PeepeeBox.IniTidy
