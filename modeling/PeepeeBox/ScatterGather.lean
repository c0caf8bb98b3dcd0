import Mathlib.Data.List.GetD
import Mathlib.Data.List.Nodup
import Mathlib.Logic.Function.Basic

set_option autoImplicit false

/-!
# Rows against scattered cells

A row of values written to a list of cells, or read from it, one after another; rows that follow
each other go on where the row before ended.
-/
namespace PeepeeBox.ScatterGather

variable {α β : Type*}

def gather (m : α → β) : List α → List β → List β
  | c :: cs, _ :: bs => m c :: gather m cs bs
  | _, bs => bs

theorem gather_nil (m : α → β) (cs : List α) : gather m cs [] = [] := by
  cases cs with
  | nil => rfl
  | cons c cs => rfl

theorem gather_none (m : α → β) (bs : List β) : gather m [] bs = bs := by
  cases bs with
  | nil => rfl
  | cons b bs => rfl

theorem gather_length (m : α → β) (cs : List α) (bs : List β) : (gather m cs bs).length = bs.length := by
  induction cs generalizing bs with
  | nil => rw [gather_none]
  | cons c cs ih =>
    cases bs with
    | nil => rfl
    | cons b bs => exact congrArg (· + 1) (ih bs)

theorem gather_append (m : α → β) {cs : List α} {xs : List β} (h : cs.length = xs.length)
    (ds : List α) (ys : List β) : gather m (cs ++ ds) (xs ++ ys) = gather m cs xs ++ gather m ds ys := by
  induction cs generalizing xs with
  | nil =>
    rw [List.length_eq_zero_iff.mp h.symm, List.nil_append, List.nil_append]
    rfl
  | cons c cs ih =>
    cases xs with
    | nil => cases h
    | cons x xs => exact congrArg (m c :: ·) (ih (Nat.succ.inj h))

theorem gather_take (m : α → β) (cs : List α) (bs : List β) :
    gather m (cs.take bs.length) bs = gather m cs bs := by
  induction cs generalizing bs with
  | nil => rw [List.take_nil]
  | cons c cs ih =>
    cases bs with
    | nil => rfl
    | cons b bs => exact congrArg (m c :: ·) (ih bs)

variable [DecidableEq α]

def scatter (m : α → β) : List α → List β → α → β
  | c :: cs, b :: bs => scatter (Function.update m c b) cs bs
  | _, _ => m

theorem scatter_nil (m : α → β) (cs : List α) : scatter m cs [] = m := by
  cases cs with
  | nil => rfl
  | cons c cs => rfl

theorem scatter_append (m : α → β) {cs : List α} {xs : List β} (h : cs.length = xs.length)
    (ds : List α) (ys : List β) :
    scatter m (cs ++ ds) (xs ++ ys) = scatter (scatter m cs xs) ds ys := by
  induction cs generalizing m xs with
  | nil =>
    rw [List.length_eq_zero_iff.mp h.symm, List.nil_append, List.nil_append]
    rfl
  | cons c cs ih =>
    cases xs with
    | nil => cases h
    | cons x xs => exact ih _ (Nat.succ.inj h)

theorem scatter_take (m : α → β) (cs : List α) (bs : List β) :
    scatter m (cs.take bs.length) bs = scatter m cs bs := by
  induction cs generalizing m bs with
  | nil => rw [List.take_nil]
  | cons c cs ih =>
    cases bs with
    | nil => rfl
    | cons b bs => exact ih _ bs

theorem scatter_frame (m : α → β) {cs : List α} (bs : List β) {c : α} (h : c ∉ cs) :
    scatter m cs bs c = m c := by
  induction cs generalizing m bs with
  | nil => rfl
  | cons d cs ih =>
    cases bs with
    | nil => rfl
    | cons b bs =>
      have hne : c ≠ d := fun heq => h (heq ▸ List.mem_cons_self)
      exact (ih _ bs fun hmem => h (List.mem_cons_of_mem _ hmem)).trans (Function.update_of_ne hne _ _)

def serve (out : Bool) (m : α → β) (cs : List α) (bs : List β) : (α → β) × List β :=
  if out then (m, gather m cs bs) else (scatter m cs bs, bs)

theorem serve_take (out : Bool) (m : α → β) (cs : List α) (bs : List β) :
    serve out m (cs.take bs.length) bs = serve out m cs bs := by
  unfold serve
  rw [scatter_take, gather_take]

theorem serve_length (out : Bool) (m : α → β) (cs : List α) (bs : List β) :
    (serve out m cs bs).2.length = bs.length := by
  unfold serve
  split
  · exact gather_length m cs bs
  · rfl

theorem serve_append (out : Bool) (m : α → β) {cs : List α} {xs : List β} (h : cs.length = xs.length)
    (ds : List α) (ys : List β) :
    serve out m (cs ++ ds) (xs ++ ys) =
      ((serve out (serve out m cs xs).1 ds ys).1,
        (serve out m cs xs).2 ++ (serve out (serve out m cs xs).1 ds ys).2) := by
  cases out with
  | false => exact congrArg (·, xs ++ ys) (scatter_append m h ds ys)
  | true => exact congrArg (m, ·) (gather_append m h ds ys)

theorem serve_none (out : Bool) (m : α → β) (bs : List β) : serve out m [] bs = (m, bs) := by
  cases out with
  | false => rfl
  | true => exact congrArg (m, ·) (gather_none m bs)

theorem serve_frame (out : Bool) (m : α → β) {cs : List α} (bs : List β) {c : α} (h : c ∉ cs) :
    (serve out m cs bs).1 c = m c := by
  cases out with
  | false => exact scatter_frame m bs h
  | true => rfl

def serveAll (m : α → β) (cs : List α) : List (Bool × List β) → (α → β) × List (List β)
  | [] => (m, [])
  | row :: rows =>
    let r := serve row.1 m cs row.2
    let s := serveAll r.1 (cs.drop row.2.length) rows
    (s.1, r.2 :: s.2)

def lane (rows : List (Bool × List β)) : List (Bool × β) := rows.flatMap fun row => row.2.map (row.1, ·)

/-- One value and one cell at a time. -/
def pass (m : α → β) : List α → List (Bool × β) → (α → β) × List β
  | c :: cs, (out, b) :: bs =>
    let r := pass (if out then m else Function.update m c b) cs bs
    (r.1, (if out then m c else b) :: r.2)
  | _, bs => (m, bs.map Prod.snd)

theorem pass_none (m : α → β) (bs : List (Bool × β)) : pass m [] bs = (m, bs.map Prod.snd) := by
  cases bs with
  | nil => rfl
  | cons b bs => rfl

theorem pass_row (out : Bool) (m : α → β) (cs : List α) (bs : List β) (rest : List (Bool × β)) :
    pass m cs (bs.map (out, ·) ++ rest) =
      ((pass (serve out m cs bs).1 (cs.drop bs.length) rest).1,
        (serve out m cs bs).2 ++ (pass (serve out m cs bs).1 (cs.drop bs.length) rest).2) := by
  induction bs generalizing m cs with
  | nil =>
    unfold serve
    rw [scatter_nil, gather_nil]
    cases out with
    | false => rfl
    | true => rfl
  | cons b bs ih =>
    cases cs with
    | nil =>
      rw [serve_none, List.drop_nil, pass_none, pass_none, List.map_append, List.map_map]
      refine congrArg (m, ·) (congrArg (· ++ _) ?_)
      exact List.map_id _
    | cons c cs =>
      cases out with
      | false => exact congrArg (fun r => (r.1, b :: r.2)) (ih (Function.update m c b) cs)
      | true => exact congrArg (fun r => (r.1, m c :: r.2)) (ih m cs)

theorem serveAll_pass (m : α → β) (cs : List α) (rows : List (Bool × List β)) :
    pass m cs (lane rows) = ((serveAll m cs rows).1, (serveAll m cs rows).2.flatten) := by
  induction rows generalizing m cs with
  | nil => exact (by cases cs <;> rfl)
  | cons row rows ih =>
    change pass m cs (row.2.map (row.1, ·) ++ lane rows) = _
    rw [pass_row, ih]
    rfl

theorem pass_value (m : α → β) {cs : List α} (hcs : cs.Nodup) (bs : List (Bool × β)) {k : ℕ} {out : Bool}
    {b : β} (hk : bs[k]? = some (out, b)) :
    (pass m cs bs).2[k]? =
      some (if out then (cs[k]?.map m).getD b else b) := by
  induction bs generalizing m cs k with
  | nil => cases hk
  | cons d bs ih =>
    cases cs with
    | nil =>
      rw [pass_none, List.getElem?_map, hk]
      cases out with
      | false => rfl
      | true => rfl
    | cons c cs =>
      obtain ⟨hc, hrest⟩ := List.nodup_cons.mp hcs
      cases k with
      | zero =>
        obtain rfl : d = (out, b) := Option.some.inj hk
        rfl
      | succ k =>
        have hstep := ih (m := if d.1 then m else Function.update m c d.2) hrest hk
        refine hstep.trans ?_
        rw [List.getElem?_cons_succ]
        cases hd : d.1 with
        | true => rfl
        | false =>
          cases hcell : cs[k]? with
          | none => rfl
          | some e =>
            have hne : e ≠ c := fun heq => hc (heq ▸ List.mem_of_getElem? hcell)
            have hkeep : Function.update m c d.2 e = m e := Function.update_of_ne hne _ _
            rw [Option.map_some, Option.map_some, if_neg Bool.false_ne_true, hkeep]

theorem pass_frame (m : α → β) (cs : List α) (bs : List (Bool × β)) {c : α}
    (h : ∀ (k : ℕ) (b : β), bs[k]? = some (false, b) → cs[k]? ≠ some c) : (pass m cs bs).1 c = m c := by
  induction bs generalizing m cs with
  | nil =>
    cases cs with
    | nil => rfl
    | cons d cs => rfl
  | cons d bs ih =>
    cases cs with
    | nil => rfl
    | cons e cs =>
      have hrest := ih (if d.1 then m else Function.update m e d.2) cs fun k b => h (k + 1) b
      refine hrest.trans ?_
      obtain ⟨out, b⟩ := d
      cases out with
      | true => rfl
      | false =>
        have hne : c ≠ e := fun heq => h 0 b rfl (congrArg some heq.symm)
        exact Function.update_of_ne hne _ _

theorem pass_cell (m : α → β) {cs : List α} (hcs : cs.Nodup) (bs : List (Bool × β)) {k : ℕ} {b : β} {c : α}
    (hk : bs[k]? = some (false, b)) (hc : cs[k]? = some c) : (pass m cs bs).1 c = b := by
  induction bs generalizing m cs k with
  | nil => cases hk
  | cons d bs ih =>
    cases cs with
    | nil => cases hc
    | cons e cs =>
      obtain ⟨he, hrest⟩ := List.nodup_cons.mp hcs
      cases k with
      | succ k => exact ih _ hrest hk hc
      | zero =>
        obtain rfl : d = (false, b) := Option.some.inj hk
        obtain rfl : e = c := Option.some.inj hc
        have hframe := pass_frame (Function.update m e b) cs bs (c := e) fun j _ _ heq =>
          he (List.mem_of_getElem? heq)
        exact hframe.trans (Function.update_self _ _ _)

end PeepeeBox.ScatterGather
