import Mathlib.Data.List.Basic

set_option autoImplicit false

/-!
# Programs that ask

A program that only asks questions is a tree: it ends with a value or a failure, or asks and goes on
with the answer.  What it comes to depends on nothing but the answers it was given.
-/
namespace PeepeeBox.QueryTrees

inductive Tree {Q : Type} (A : Q → Type) (E R : Type) : Type
  | done (r : R)
  | fail (e : E)
  | ask (q : Q) (next : A q → Tree A E R)

variable {Q : Type} {A : Q → Type} {E R S : Type}

def graft : Tree A E R → (R → Tree A E S) → Tree A E S
  | .done r, k => k r
  | .fail e, _ => .fail e
  | .ask q next, k => .ask q fun x => graft (next x) k

instance : Monad (Tree A E) where
  pure := .done
  bind := graft

def run (answer : ∀ q, A q) : Tree A E R → Except E R
  | .done r => .ok r
  | .fail e => .error e
  | .ask q next => run answer (next (answer q))

/-- The questions of a run, in the order they are asked. -/
def asked (answer : ∀ q, A q) : Tree A E R → List Q
  | .done _ => []
  | .fail _ => []
  | .ask q next => q :: asked answer (next (answer q))

variable (answer : ∀ q, A q)

@[simp] theorem run_pure (r : R) : run answer (pure r : Tree A E R) = .ok r := rfl

@[simp] theorem run_done (r : R) : run answer (.done r : Tree A E R) = .ok r := rfl

@[simp] theorem run_fail (e : E) : run answer (.fail e : Tree A E R) = .error e := rfl

@[simp] theorem run_ask (q : Q) (next : A q → Tree A E R) :
    run answer (.ask q next) = run answer (next (answer q)) := rfl

@[simp] theorem run_bind (m : Tree A E R) (k : R → Tree A E S) :
    run answer (m >>= k) = run answer m >>= fun r => run answer (k r) := by
  change run answer (graft m k) = _
  induction m with
  | done r => rfl
  | fail e => rfl
  | ask q next ih => exact ih (answer q)

theorem run_ite (p : Prop) [Decidable p] (m n : Tree A E R) :
    run answer (if p then m else n) = if p then run answer m else run answer n := by
  split <;> rfl

theorem run_bind_ok {m : Tree A E R} {r : R} (h : run answer m = .ok r) (k : R → Tree A E S) :
    run answer (m >>= k) = run answer (k r) := by
  rw [run_bind, h]
  rfl

theorem run_bind_eq_ok {m : Tree A E R} {k : R → Tree A E S} {s : S} :
    run answer (m >>= k) = .ok s ↔ ∃ r, run answer m = .ok r ∧ run answer (k r) = .ok s := by
  rw [run_bind]
  cases run answer m with
  | error e => simp [Bind.bind, Except.bind]
  | ok r => simp [Bind.bind, Except.bind]

theorem run_congr {answer other : ∀ q, A q} (m : Tree A E R)
    (h : ∀ q ∈ asked answer m, other q = answer q) : run other m = run answer m := by
  induction m with
  | done r => rfl
  | fail e => rfl
  | ask q next ih =>
    have hq : other q = answer q := h q (List.mem_cons_self ..)
    have htail := ih (answer q) fun q' hq' => h q' (List.mem_cons_of_mem q hq')
    rw [run_ask, run_ask, hq]
    exact htail

end PeepeeBox.QueryTrees
