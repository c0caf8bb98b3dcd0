import Mathlib.Data.List.Basic

set_option autoImplicit false

/-!
# Sorting by exchanges

For each place in turn all the places are visited, and what is greater there comes to this place.
-/
namespace PeepeeBox.ExchangeSort

section
variable {α : Type} (live : α → Bool) (gt : α → α → Bool)

/-- Exchange the places `p` and `q` if what is at `q` counts and is the greater. -/
def exchange (p : ℕ) (es : List α) (q : ℕ) : List α :=
  match es[p]?, es[q]? with
  | some x, some y => if live y && gt y x then (es.set q x).set p y else es
  | _, _ => es

/-- The first `n` places are visited from `p`. -/
def passTo (p : ℕ) (es : List α) (n : ℕ) : List α := (List.range n).foldl (exchange live gt p) es

/-- The first `n` places are given their passes. -/
def sortTo (es : List α) (n : ℕ) : List α :=
  (List.range n).foldl (fun es p => if es[p]?.any live then passTo live gt p es es.length else es) es

def sort (es : List α) : List α := sortTo live gt es es.length

/-- The elements are the same ones, and those that do not count are in their places. -/
structure Keeps (es es' : List α) : Prop where
  perm : es'.Perm es
  others : ∀ (k : ℕ) (x : α), live x = false → (es'[k]? = some x ↔ es[k]? = some x)

end

section
variable {α : Type} {live : α → Bool} {gt : α → α → Bool} {es es' : List α} {p q : ℕ} {x y : α}

theorem Keeps.refl : Keeps live es es := ⟨List.Perm.refl es, fun _ _ _ => Iff.rfl⟩

theorem Keeps.trans {es'' : List α} (h : Keeps live es es') (h' : Keeps live es' es'') : Keeps live es es'' :=
  ⟨h'.perm.trans h.perm, fun k x hx => (h'.others k x hx).trans (h.others k x hx)⟩

theorem Keeps.length (h : Keeps live es es') : es'.length = es.length := h.perm.length_eq

theorem Keeps.lives (h : Keeps live es es') : es'.map live = es.map live := by
  apply List.ext_getElem?
  intro k
  rw [List.getElem?_map, List.getElem?_map]
  cases hnew : es'[k]? with
  | none =>
    have hnone : es[k]? = none := by
      rw [List.getElem?_eq_none_iff] at hnew ⊢
      exact h.length ▸ hnew
    rw [hnone]
  | some y =>
    have hsome : k < es.length := by
      rw [← h.length]
      exact (List.getElem?_eq_some_iff.mp hnew).1
    have hold : es[k]? = some es[k] := List.getElem?_eq_getElem hsome
    rw [hold]
    cases hy : live y with
    | false =>
      rw [(h.others k y hy).mp hnew] at hold
      rw [← Option.some.inj hold]
    | true =>
      cases hx : live es[k] with
      | false =>
        rw [(h.others k _ hx).mpr hold] at hnew
        rw [Option.some.inj hnew, hy] at hx
        cases hx
      | true => simp [hy, hx]

theorem Keeps.live_iff (h : Keeps live es es') (k : ℕ) : es'[k]?.any live = es[k]?.any live := by
  have hlives := congrArg (fun l => l[k]?) h.lives
  simp only [List.getElem?_map] at hlives
  cases hnew : es'[k]? with
  | none =>
    rw [hnew] at hlives
    cases hold : es[k]? with
    | none => rfl
    | some x => simp [hold] at hlives
  | some y =>
    rw [hnew] at hlives
    cases hold : es[k]? with
    | none => simp [hold] at hlives
    | some x => simpa [hold] using hlives

theorem exchange_get (hx : es[p]? = some x) (hy : es[q]? = some y) (k : ℕ) :
    ((es.set q x).set p y)[k]? = if k = p then some y else if k = q then some x else es[k]? := by
  have hp := (List.getElem?_eq_some_iff.mp hx).1
  have hq := (List.getElem?_eq_some_iff.mp hy).1
  rw [List.getElem?_set, List.getElem?_set]
  simp only [List.length_set, hp, hq, if_true]
  by_cases hkp : k = p
  · rw [if_pos hkp.symm, if_pos hkp]
  · rw [if_neg (Ne.symm hkp), if_neg hkp]
    by_cases hkq : k = q
    · rw [if_pos hkq.symm, if_pos hkq]
    · rw [if_neg (Ne.symm hkq), if_neg hkq]

theorem exchange_cases (hx : es[p]? = some x) (q : ℕ) :
    exchange live gt p es q = es ∧ (∀ y, es[q]? = some y → live y = true → gt y x = false) ∨
    ∃ y, es[q]? = some y ∧ live y = true ∧ gt y x = true ∧ exchange live gt p es q = (es.set q x).set p y := by
  unfold exchange
  rw [hx]
  cases hy : es[q]? with
  | none => exact Or.inl ⟨rfl, fun y h => by cases h⟩
  | some y =>
    dsimp only
    by_cases hgreater : (live y && gt y x) = true
    · rw [if_pos hgreater]
      rw [Bool.and_eq_true] at hgreater
      exact Or.inr ⟨y, rfl, hgreater.1, hgreater.2, rfl⟩
    · rw [if_neg hgreater]
      refine Or.inl ⟨rfl, fun z hz hlive => ?_⟩
      obtain rfl := Option.some.inj hz
      rw [hlive, Bool.true_and] at hgreater
      exact Bool.eq_false_iff.mpr hgreater

theorem exchange_keeps (hx : es[p]? = some x) (hlive : live x = true) (q : ℕ) :
    Keeps live es (exchange live gt p es q) := by
  rcases @exchange_cases _ live gt _ _ _ hx q with ⟨heq, -⟩ | ⟨y, hy, hlive', -, heq⟩
  · rw [heq]
    exact Keeps.refl
  · rw [heq]
    obtain ⟨hp, hget⟩ := List.getElem?_eq_some_iff.mp hx
    obtain ⟨hq, hget'⟩ := List.getElem?_eq_some_iff.mp hy
    constructor
    · rw [← hget, ← hget']
      exact List.set_set_perm hq hp
    · intro k z hz
      rw [exchange_get hx hy]
      by_cases hkp : k = p
      · rw [if_pos hkp, hkp, hx]
        constructor
        · intro h
          rw [← Option.some.inj h, hlive'] at hz
          cases hz
        · intro h
          rw [← Option.some.inj h, hlive] at hz
          cases hz
      · rw [if_neg hkp]
        by_cases hkq : k = q
        · rw [if_pos hkq, hkq, hy]
          constructor
          · intro h
            rw [← Option.some.inj h, hlive] at hz
            cases hz
          · intro h
            rw [← Option.some.inj h, hlive'] at hz
            cases hz
        · rw [if_neg hkq]

/-- Nothing that counts at `s` is greater than what is at `p`. -/
def Below (live : α → Bool) (gt : α → α → Bool) (es : List α) (p s : ℕ) : Prop :=
  ∀ x y, es[p]? = some x → es[s]? = some y → live y = true → gt y x = false

/-- What counts before `n` does not decrease. -/
def SortedTo (live : α → Bool) (gt : α → α → Bool) (es : List α) (n : ℕ) : Prop :=
  ∀ s t x y, s < t → t < n → es[s]? = some x → es[t]? = some y → live x = true → live y = true → gt x y = false

section
variable (hasymm : ∀ x y, gt x y = true → gt y x = false)
  (htrans : ∀ x y z, gt x y = false → gt y z = false → gt x z = false)
include hasymm

theorem gt_irrefl (x : α) : gt x x = false := by
  cases h : gt x x with
  | false => rfl
  | true => rw [hasymm x x h] at h; cases h

theorem below_exchange (hx : es[p]? = some x) (q : ℕ) : Below live gt (exchange live gt p es q) p q := by
  rcases @exchange_cases _ live gt _ _ _ hx q with ⟨heq, hsmall⟩ | ⟨y, hy, hlive, hgt, heq⟩
  · rw [heq]
    intro x' y' hx' hy' hlive'
    rw [hx] at hx'
    rw [← Option.some.inj hx']
    exact hsmall y' hy' hlive'
  · rw [heq]
    intro x' y' hx' hy' hlive'
    rw [exchange_get hx hy, if_pos rfl] at hx'
    rw [exchange_get hx hy] at hy'
    rw [← Option.some.inj hx']
    by_cases hqp : q = p
    · rw [if_pos hqp] at hy'
      rw [← Option.some.inj hy']
      exact gt_irrefl hasymm y
    · rw [if_neg hqp, if_pos rfl] at hy'
      rw [← Option.some.inj hy']
      exact hasymm y x hgt

include htrans

theorem Below.exchange {s : ℕ} (h : Below live gt es p s) (hx : es[p]? = some x) (q : ℕ) :
    Below live gt (exchange live gt p es q) p s := by
  rcases @exchange_cases _ live gt _ _ _ hx q with ⟨heq, -⟩ | ⟨y, hy, hlive, hgt, heq⟩
  · rw [heq]
    exact h
  · by_cases hsq : s = q
    · rw [hsq]
      exact below_exchange hasymm hx q
    · rw [heq]
      intro x' y' hx' hy' hlive'
      rw [exchange_get hx hy, if_pos rfl] at hx'
      rw [exchange_get hx hy] at hy'
      rw [← Option.some.inj hx']
      by_cases hsp : s = p
      · rw [if_pos hsp] at hy'
        rw [← Option.some.inj hy']
        exact gt_irrefl hasymm y
      · rw [if_neg hsp, if_neg hsq] at hy'
        exact htrans y' x y (h x y' hx hy' hlive') (hasymm y x hgt)

theorem SortedTo.exchange (h : SortedTo live gt es p) (hx : es[p]? = some x)
    (hbelow : ∀ s < q, Below live gt es p s) : SortedTo live gt (exchange live gt p es q) p := by
  rcases @exchange_cases _ live gt _ _ _ hx q with ⟨heq, -⟩ | ⟨y, hy, hlivey, hgt, heq⟩
  · rw [heq]
    exact h
  · rw [heq]
    intro s t a b hst htp ha hb hlivea hliveb
    rw [exchange_get hx hy, if_neg (Nat.ne_of_lt (Nat.lt_trans hst htp))] at ha
    rw [exchange_get hx hy, if_neg (Nat.ne_of_lt htp)] at hb
    by_cases hsq : s = q
    · rw [if_pos hsq] at ha
      rw [if_neg (by omega)] at hb
      rw [← Option.some.inj ha]
      exact htrans x y b (hasymm y x hgt) (h q t y b (by omega) htp hy hb hlivey hliveb)
    · rw [if_neg hsq] at ha
      by_cases htq : t = q
      · rw [if_pos htq] at hb
        rw [← Option.some.inj hb]
        exact hbelow s (by omega) x a hx ha hlivea
      · rw [if_neg htq] at hb
        exact h s t a b hst htp ha hb hlivea hliveb

omit hasymm htrans in
theorem passTo_succ (p : ℕ) (es : List α) (n : ℕ) :
    passTo live gt p es (n + 1) = exchange live gt p (passTo live gt p es n) n := by
  unfold passTo
  rw [List.range_succ, List.foldl_append]
  rfl

omit hasymm htrans in
theorem passTo_keeps (hx : es[p]? = some x) (hlive : live x = true) (n : ℕ) :
    Keeps live es (passTo live gt p es n) ∧ ∃ x', (passTo live gt p es n)[p]? = some x' ∧ live x' = true := by
  induction n with
  | zero => exact ⟨Keeps.refl, x, hx, hlive⟩
  | succ n ih =>
    obtain ⟨hkeeps, x', hx', hlive'⟩ := ih
    rw [passTo_succ]
    have hone := @exchange_keeps _ live gt _ _ _ hx' hlive' n
    refine ⟨hkeeps.trans hone, ?_⟩
    have hstill := hone.live_iff p
    rw [hx'] at hstill
    exact (Option.any_eq_true _ _).mp (hstill.trans hlive')

theorem passTo_below (hx : es[p]? = some x) (hlive : live x = true) (n : ℕ) :
    ∀ s < n, Below live gt (passTo live gt p es n) p s := by
  induction n with
  | zero => exact fun s hs => absurd hs (Nat.not_lt_zero s)
  | succ n ih =>
    intro s hs
    obtain ⟨-, x', hx', -⟩ := @passTo_keeps _ live gt _ _ _ hx hlive n
    rw [passTo_succ]
    by_cases hsn : s = n
    · rw [hsn]
      exact below_exchange hasymm hx' n
    · exact (ih s (by omega)).exchange hasymm htrans hx' n

theorem passTo_sorted (h : SortedTo live gt es p) (hx : es[p]? = some x) (hlive : live x = true) (n : ℕ) :
    SortedTo live gt (passTo live gt p es n) p := by
  induction n with
  | zero => exact h
  | succ n ih =>
    obtain ⟨-, x', hx', -⟩ := @passTo_keeps _ live gt _ _ _ hx hlive n
    rw [passTo_succ]
    exact ih.exchange hasymm htrans hx' (passTo_below hasymm htrans hx hlive n)

theorem pass_sorted (h : SortedTo live gt es p) (hx : es[p]? = some x) (hlive : live x = true) :
    SortedTo live gt (passTo live gt p es es.length) (p + 1) := by
  intro s t a b hst htp ha hb hlivea hliveb
  by_cases htlast : t = p
  · rw [htlast] at hst hb
    have hp := (List.getElem?_eq_some_iff.mp hx).1
    exact passTo_below hasymm htrans hx hlive es.length s (by omega) b a hb ha hlivea
  · exact passTo_sorted hasymm htrans h hx hlive es.length s t a b hst (by omega) ha hb hlivea hliveb

omit hasymm htrans in
theorem sortTo_succ (es : List α) (n : ℕ) :
    sortTo live gt es (n + 1) =
      if (sortTo live gt es n)[n]?.any live then
        passTo live gt n (sortTo live gt es n) (sortTo live gt es n).length
      else sortTo live gt es n := by
  unfold sortTo
  rw [List.range_succ, List.foldl_append]
  rfl

theorem sortTo_sorted (es : List α) (n : ℕ) :
    Keeps live es (sortTo live gt es n) ∧ SortedTo live gt (sortTo live gt es n) n := by
  induction n with
  | zero => exact ⟨Keeps.refl, fun s t _ _ _ ht => absurd ht (Nat.not_lt_zero t)⟩
  | succ n ih =>
    obtain ⟨hkeeps, hsorted⟩ := ih
    rw [sortTo_succ]
    by_cases hlive : (sortTo live gt es n)[n]?.any live = true
    · rw [if_pos hlive]
      obtain ⟨x, hx, hlivex⟩ := (Option.any_eq_true _ _).mp hlive
      exact ⟨hkeeps.trans (passTo_keeps hx hlivex _).1, pass_sorted hasymm htrans hsorted hx hlivex⟩
    · rw [if_neg hlive]
      refine ⟨hkeeps, fun s t a b hst ht ha hb hlivea hliveb => ?_⟩
      by_cases htlast : t = n
      · rw [htlast] at hb
        rw [hb] at hlive
        exact absurd hliveb hlive
      · exact hsorted s t a b hst (by omega) ha hb hlivea hliveb

theorem sort_sorted (es : List α) :
    Keeps live es (sort live gt es) ∧
      ((sort live gt es).filter live).Pairwise (fun x y => gt x y = false) := by
  obtain ⟨hkeeps, hsorted⟩ := @sortTo_sorted _ live gt hasymm htrans es es.length
  refine ⟨hkeeps, ?_⟩
  have hall : (sort live gt es).Pairwise fun x y => live x = true → live y = true → gt x y = false := by
    rw [List.pairwise_iff_getElem]
    intro s t hs ht hst hlivex hlivey
    exact hsorted s t _ _ hst (hkeeps.length ▸ ht) (List.getElem?_eq_getElem hs) (List.getElem?_eq_getElem ht)
      hlivex hlivey
  rw [List.pairwise_filter]
  exact hall

end

end

end PeepeeBox.ExchangeSort
