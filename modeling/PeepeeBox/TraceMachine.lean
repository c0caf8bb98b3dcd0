import Mathlib.Data.List.Basic

set_option autoImplicit false

/-!
# Deterministic machines with observable answers

A `Machine` consumes one input at a time and may answer it.  This module keeps the
run and trace calculus used by every device of the development: composition,
inductive invariants, simulation, and the removal of repeated inputs.
-/
namespace PeepeeBox.TraceMachine

variable {σ τ ι κ ο : Type*}

structure Machine (σ ι ο : Type*) where
  step : σ → ι → σ × Option ο

namespace Machine

def next (m : Machine σ ι ο) (s : σ) (i : ι) : σ := (m.step s i).1

def answer (m : Machine σ ι ο) (s : σ) (i : ι) : Option ο := (m.step s i).2

def run (m : Machine σ ι ο) : σ → List ι → σ
  | s, [] => s
  | s, i :: is => m.run (m.next s i) is

/-- The answers of a run, in order; an input without an answer contributes nothing. -/
def trace (m : Machine σ ι ο) : σ → List ι → List ο
  | _, [] => []
  | s, i :: is => (m.answer s i).toList ++ m.trace (m.next s i) is

variable (m : Machine σ ι ο)

@[simp] theorem run_nil (s : σ) : m.run s [] = s := rfl

@[simp] theorem run_cons (s : σ) (i : ι) (is : List ι) :
    m.run s (i :: is) = m.run (m.next s i) is := rfl

@[simp] theorem trace_nil (s : σ) : m.trace s [] = [] := rfl

theorem trace_cons (s : σ) (i : ι) (is : List ι) :
    m.trace s (i :: is) = (m.answer s i).toList ++ m.trace (m.next s i) is := rfl

theorem run_append (s : σ) (xs ys : List ι) :
    m.run s (xs ++ ys) = m.run (m.run s xs) ys := by
  induction xs generalizing s with
  | nil => rfl
  | cons x xs ih => exact ih _

theorem trace_append (s : σ) (xs ys : List ι) :
    m.trace s (xs ++ ys) = m.trace s xs ++ m.trace (m.run s xs) ys := by
  induction xs generalizing s with
  | nil => rfl
  | cons x xs ih =>
    simp only [List.cons_append, trace_cons, run_cons, List.append_assoc]
    rw [ih]

theorem run_invariant {I : σ → Prop} (step : ∀ s i, I s → I (m.next s i))
    {s : σ} (hs : I s) (is : List ι) : I (m.run s is) := by
  induction is generalizing s with
  | nil => exact hs
  | cons i is ih => exact ih (step s i hs)

theorem run_invariant_of {I : σ → Prop} {P : ι → Prop}
    (step : ∀ s i, P i → I s → I (m.next s i)) {s : σ} (hs : I s)
    (is : List ι) (his : ∀ i ∈ is, P i) : I (m.run s is) := by
  induction is generalizing s with
  | nil => exact hs
  | cons i is ih =>
    have hi := his i (by simp)
    exact ih (step s i hi hs) (fun j hj => his j (by simp [hj]))

/-- Every step of a run is taken where `ok` holds of the state and the input. -/
def Along (ok : σ → ι → Prop) : σ → List ι → Prop
  | _, [] => True
  | s, i :: is => ok s i ∧ Along ok (m.next s i) is

theorem run_invariant_along {I : σ → Prop} {ok : σ → ι → Prop}
    (step : ∀ s i, ok s i → I s → I (m.next s i)) {s : σ} (hs : I s) (is : List ι)
    (his : m.Along ok s is) : I (m.run s is) := by
  induction is generalizing s with
  | nil => exact hs
  | cons i is ih => exact ih (step s i his.1 hs) his.2

theorem along_append {ok : σ → ι → Prop} {s : σ} {xs ys : List ι} (hxs : m.Along ok s xs)
    (hys : m.Along ok (m.run s xs) ys) : m.Along ok s (xs ++ ys) := by
  induction xs generalizing s with
  | nil => exact hys
  | cons x xs ih => exact ⟨hxs.1, ih hxs.2 hys⟩

theorem along_split {ok : σ → ι → Prop} {s : σ} {xs ys : List ι} (h : m.Along ok s (xs ++ ys)) :
    m.Along ok s xs ∧ m.Along ok (m.run s xs) ys := by
  induction xs generalizing s with
  | nil => exact ⟨trivial, h⟩
  | cons x xs ih => exact ⟨⟨h.1, (ih h.2).1⟩, (ih h.2).2⟩

theorem along_iff {I P : σ → Prop} {Q : ι → Prop} {ok : σ → ι → Prop}
    (step : ∀ s i, Q i → ok s i → I s → I (m.next s i)) (sound : ∀ s, I s → P s)
    (exact : ∀ s i, Q i → I s → P (m.next s i) → ok s i) {s : σ} (hs : I s) (is : List ι) (his : ∀ i ∈ is, Q i) :
    (∀ before after, is = before ++ after → P (m.run s before)) ↔ m.Along ok s is := by
  induction is generalizing s with
  | nil =>
    refine ⟨fun _ => trivial, fun _ before after hsplit => ?_⟩
    rw [(List.append_eq_nil_iff.mp hsplit.symm).1]
    exact sound s hs
  | cons i is ih =>
    have hi := his i (by simp)
    have hrest : ∀ j ∈ is, Q j := fun j hj => his j (by simp [hj])
    constructor
    · intro hall
      have hok := exact s i hi hs (hall [i] is rfl)
      refine ⟨hok, (ih (step s i hi hok hs) hrest).mp fun before after hsplit => ?_⟩
      exact hall (i :: before) after (by rw [hsplit]; rfl)
    · rintro ⟨hok, hafter⟩ before after hsplit
      cases before with
      | nil => exact sound s hs
      | cons j before =>
        obtain ⟨rfl, hsplit'⟩ := List.cons.inj hsplit
        exact (ih (step s i hi hok hs) hrest).mpr hafter before after hsplit'

theorem along_iff_steps {I : σ → Prop} {P : σ → ι → Prop} {ok : σ → ι → Prop}
    (step : ∀ s i, ok s i → I s → I (m.next s i)) (sound : ∀ s i, ok s i → I s → P s i)
    (exact : ∀ s i, I s → P s i → ok s i) {s : σ} (hs : I s) (is : List ι) :
    (∀ before i after, is = before ++ i :: after → P (m.run s before) i) ↔ m.Along ok s is := by
  induction is generalizing s with
  | nil => exact ⟨fun _ => trivial, fun _ before i after hsplit => by simp at hsplit⟩
  | cons i is ih =>
    constructor
    · intro hall
      have hok := exact s i hs (hall [] i is rfl)
      refine ⟨hok, (ih (step s i hok hs)).mp fun before j after hsplit => ?_⟩
      exact hall (i :: before) j after (by rw [hsplit]; rfl)
    · rintro ⟨hok, hafter⟩ before j after hsplit
      cases before with
      | nil =>
        obtain ⟨rfl, -⟩ := List.cons.inj hsplit
        exact sound s i hok hs
      | cons k before =>
        obtain ⟨rfl, hsplit'⟩ := List.cons.inj hsplit
        exact (ih (step s i hok hs)).mpr hafter before j after hsplit'

theorem run_filter {I : σ → Prop} {P : ι → Prop} (keep : ι → Bool)
    (step : ∀ s i, P i → I s → I (m.next s i))
    (inert : ∀ s i, keep i = false → I s → m.next s i = s) {s : σ} (hs : I s) (is : List ι)
    (his : ∀ i ∈ is, P i) : m.run s is = m.run s (is.filter keep) := by
  induction is generalizing s with
  | nil => rfl
  | cons i is ih =>
    have hrest : ∀ j ∈ is, P j := fun j hj => his j (by simp [hj])
    cases hk : keep i with
    | true =>
      rw [List.filter_cons_of_pos hk]
      exact ih (step s i (his i (by simp)) hs) hrest
    | false =>
      rw [List.filter_cons_of_neg (by simp [hk]), run_cons, inert s i hk hs]
      exact ih hs hrest

theorem run_replicate (s : σ) (i : ι) (idem : m.next (m.next s i) i = m.next s i) (n : ℕ) :
    m.run s (List.replicate (n + 1) i) = m.next s i := by
  induction n with
  | zero => rfl
  | succ n ih =>
    rw [List.replicate_succ, run_cons]
    rw [List.replicate_succ, run_cons] at ih ⊢
    rw [idem]
    exact ih

theorem trace_replicate (s : σ) (i : ι) (o : ο) (still : m.next s i = s)
    (ans : m.answer s i = some o) (n : ℕ) :
    m.trace s (List.replicate n i) = List.replicate n o ∧ m.run s (List.replicate n i) = s := by
  induction n with
  | zero => exact ⟨rfl, rfl⟩
  | succ n ih =>
    rw [List.replicate_succ, List.replicate_succ, trace_cons, run_cons, still, ans, ih.1, ih.2]
    exact ⟨rfl, rfl⟩

end Machine

/-- `R` relates the states of two machines step by step on the inputs of `P`, equal inputs
    being answered alike while `R` holds. -/
structure Simulation (m : Machine σ ι ο) (n : Machine τ ι ο) (P : ι → Prop)
    (R : σ → τ → Prop) : Prop where
  next : ∀ s t i, P i → R s t → R (m.next s i) (n.next t i)
  answer : ∀ s t i, P i → R s t → m.answer s i = n.answer t i

namespace Simulation

variable {m : Machine σ ι ο} {n : Machine τ ι ο} {P : ι → Prop} {R : σ → τ → Prop}

theorem run (h : Simulation m n P R) {s : σ} {t : τ} (hst : R s t) (is : List ι)
    (his : ∀ i ∈ is, P i) : R (m.run s is) (n.run t is) := by
  induction is generalizing s t with
  | nil => exact hst
  | cons i is ih =>
    have hi := his i (by simp)
    exact ih (h.next s t i hi hst) (fun j hj => his j (by simp [hj]))

theorem trace (h : Simulation m n P R) {s : σ} {t : τ} (hst : R s t) (is : List ι)
    (his : ∀ i ∈ is, P i) : m.trace s is = n.trace t is := by
  induction is generalizing s t with
  | nil => rfl
  | cons i is ih =>
    have hi := his i (by simp)
    rw [Machine.trace_cons, Machine.trace_cons, h.answer s t i hi hst,
      ih (h.next s t i hi hst) (fun j hj => his j (by simp [hj]))]

end Simulation

/-- The same on the steps that `ok` allows the first machine. -/
structure SimulationAlong (m : Machine σ ι ο) (n : Machine τ ι ο) (ok : σ → ι → Prop)
    (R : σ → τ → Prop) : Prop where
  next : ∀ s t i, ok s i → R s t → R (m.next s i) (n.next t i)
  answer : ∀ s t i, ok s i → R s t → m.answer s i = n.answer t i

namespace SimulationAlong

variable {m : Machine σ ι ο} {n : Machine τ ι ο} {ok : σ → ι → Prop} {R : σ → τ → Prop}

theorem run (h : SimulationAlong m n ok R) {s : σ} {t : τ} (hst : R s t) (is : List ι)
    (his : m.Along ok s is) : R (m.run s is) (n.run t is) := by
  induction is generalizing s t with
  | nil => exact hst
  | cons i is ih => exact ih (h.next s t i his.1 hst) his.2

theorem trace (h : SimulationAlong m n ok R) {s : σ} {t : τ} (hst : R s t) (is : List ι)
    (his : m.Along ok s is) : m.trace s is = n.trace t is := by
  induction is generalizing s t with
  | nil => rfl
  | cons i is ih =>
    rw [Machine.trace_cons, Machine.trace_cons, h.answer s t i his.1 hst,
      ih (h.next s t i his.1 hst) his.2]

end SimulationAlong

/-- The second row is the first with inputs of one kind repeated in place. -/
inductive Repeats (again : ι → Prop) : List ι → List ι → Prop where
  | nil : Repeats again [] []
  | once {xs ys : List ι} (i : ι) (h : Repeats again xs ys) : Repeats again (i :: xs) (i :: ys)
  | more {xs ys : List ι} {i : ι} (hi : again i) (h : Repeats again (i :: xs) ys) :
      Repeats again (i :: xs) (i :: ys)

theorem Simulation.trace_repeats {m : Machine σ ι ο} {P again : ι → Prop} {R : σ → σ → Prop}
    (h : Simulation m m P R) (mute : ∀ s i, again i → m.answer s i = none)
    (idem : ∀ s i, again i → R (m.next (m.next s i) i) (m.next s i)) {s t : σ} (hst : R s t)
    {xs ys : List ι} (hxs : ∀ i ∈ xs, P i) (hys : Repeats again xs ys) :
    m.trace t ys = m.trace s xs := by
  induction hys generalizing s t with
  | nil => rfl
  | @once xs ys i hys ih =>
    have hi : P i := hxs i (by simp)
    rw [Machine.trace_cons, Machine.trace_cons, h.answer s t i hi hst,
      ih (h.next s t i hi hst) fun j hj => hxs j (by simp [hj])]
  | @more xs ys i hagain hys ih =>
    have hi : P i := hxs i (by simp)
    have hrest := ih (h.next s t i hi hst) hxs
    have hsame := h.trace (idem s i hagain) xs fun j hj => hxs j (by simp [hj])
    rw [Machine.trace_cons, mute t i hagain, hrest, Machine.trace_cons, mute _ i hagain, hsame,
      Machine.trace_cons, mute s i hagain]
    rfl

end PeepeeBox.TraceMachine
