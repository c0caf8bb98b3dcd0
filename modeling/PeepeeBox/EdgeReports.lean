import Mathlib.Data.List.Basic
import Mathlib.Data.List.Forall2

set_option autoImplicit false

/-!
# A sampled contact

Polls overwrite what is known of a contact, samples compare it with the sample before and
report its beginning, its course and its end.
-/
namespace PeepeeBox.EdgeReports

variable {α : Type*}

inductive Edge where
  | begins | goesOn | ends
deriving DecidableEq, Repr

structure Contact (α : Type*) where
  seen : Option α
  touch : Option α

def Contact.poll (c : Contact α) (p : Option α) : Contact α := { c with seen := p }

def Contact.sample (c : Contact α) : Contact α := { c with touch := c.seen }

def Contact.report (c : Contact α) : Option (Edge × α) :=
  match c.seen, c.touch with
  | some a, none => some (.begins, a)
  | some a, some _ => some (.goesOn, a)
  | none, some b => some (.ends, b)
  | none, none => none

structure Contacts (α : Type*) where
  former : List (List α)
  current : List α

def Contacts.poll (k : Contacts α) (p : Option α) : Contacts α :=
  match p with
  | some a => { k with current := k.current ++ [a] }
  | none =>
    if k.current.isEmpty then k else { former := k.former ++ [k.current], current := [] }

def contacts (polls : List (Option α)) : Contacts α :=
  polls.foldl Contacts.poll { former := [], current := [] }

structure Begun (contact : List α) (reports : List (Edge × α)) : Prop where
  shape : ∃ (a : α) (as : List α), reports = (.begins, a) :: as.map (fun b => (.goesOn, b))
  places : ∀ r ∈ reports, r.2 ∈ contact

/-- A contact reported whole, its end at the last place it was at. -/
def Told (contact : List α) (reports : List (Edge × α)) : Prop :=
  ∃ (before : List (Edge × α)) (last : α), reports = before ++ [(.ends, last)] ∧ Begun contact before ∧
    contact.getLast? = some last

/-- The reports so far: one whole group for each contact, and a group left open while a touch
    is outstanding. -/
inductive Reported (k : Contacts α) : Option α → List (Edge × α) → Prop
  | settled (groups : List (List (Edge × α))) (told : List.Forall₂ Told k.former groups) :
    Reported k none groups.flatten
  | going (groups : List (List (Edge × α))) (tail : List (Edge × α)) (b : α)
      (told : List.Forall₂ Told k.former groups) (begun : Begun k.current tail) :
    Reported k (some b) (groups.flatten ++ tail)
  | leaving (former : List (List α)) (contact : List α) (groups : List (List (Edge × α)))
      (tail : List (Edge × α)) (b : α) (split : k.former = former ++ [contact])
      (gone : k.current = []) (told : List.Forall₂ Told former groups) (begun : Begun contact tail)
      (last : contact.getLast? = some b) : Reported k (some b) (groups.flatten ++ tail)

/-- The contact's history, its present state and the reports agree. -/
structure Faithful (polls : List (Option α)) (c : Contact α) (reports : List (Edge × α)) : Prop where
  seen : c.seen = (contacts polls).current.getLast?
  reported : Reported (contacts polls) c.touch reports

theorem contacts_snoc (polls : List (Option α)) (p : Option α) :
    contacts (polls ++ [p]) = (contacts polls).poll p := by
  unfold contacts
  rw [List.foldl_append]
  rfl

theorem Begun.mono {contact more : List α} {reports : List (Edge × α)} (h : Begun contact reports) :
    Begun (contact ++ more) reports :=
  ⟨h.shape, fun r hr => List.mem_append_left more (h.places r hr)⟩

theorem Begun.ne_nil {contact : List α} {reports : List (Edge × α)} (h : Begun contact reports) :
    contact ≠ [] := by
  obtain ⟨a, as, rfl⟩ := h.shape
  exact List.ne_nil_of_mem (h.places _ List.mem_cons_self)

theorem Begun.start {contact : List α} {a : α} (h : a ∈ contact) :
    Begun contact [(.begins, a)] := by
  refine ⟨⟨a, [], rfl⟩, fun r hr => ?_⟩
  rw [List.mem_singleton.mp hr]
  exact h

theorem Begun.goOn {contact : List α} {reports : List (Edge × α)} {a : α}
    (h : Begun contact reports) (ha : a ∈ contact) : Begun contact (reports ++ [(.goesOn, a)]) := by
  obtain ⟨first, as, rfl⟩ := h.shape
  refine ⟨⟨first, as ++ [a], ?_⟩, fun r hr => ?_⟩
  · rw [List.map_append, List.cons_append]
    rfl
  · rcases List.mem_append.mp hr with hold | hnew
    · exact h.places r hold
    · rw [List.mem_singleton.mp hnew]
      exact ha

/-- A poll that changes whether there is contact must find the last poll sampled. -/
def Steady (c : Contact α) (p : Option α) : Prop := c.seen.isSome ≠ p.isSome → c.touch = c.seen

theorem Faithful.poll {polls : List (Option α)} {c : Contact α} {reports : List (Edge × α)}
    (h : Faithful polls c reports) (p : Option α) (hsteady : Steady c p) :
    Faithful (polls ++ [p]) (c.poll p) reports := by
  have hseen := h.seen
  have hreported := h.reported
  obtain ⟨seen, touch⟩ := c
  change seen = _ at hseen
  change Reported _ touch reports at hreported
  unfold Steady at hsteady
  dsimp only at hsteady
  refine ⟨?_, ?_⟩ <;> rw [contacts_snoc] <;> generalize contacts polls = k at hseen hreported ⊢
  · cases p with
    | some a => exact List.getLast?_concat.symm
    | none =>
      unfold Contacts.poll
      dsimp only
      split
      · rename_i hempty
        rw [List.isEmpty_iff.mp hempty]
        rfl
      · rfl
  · change Reported _ touch reports
    cases p with
    | some a =>
      cases hreported with
      | settled groups told => exact .settled groups told
      | going groups tail b told begun => exact .going groups tail b told begun.mono
      | leaving former contact groups tail b split gone told begun last =>
        -- a touch outstanding after its end was polled: the poll is not steady
        exfalso
        rw [gone] at hseen
        have hchange := hsteady (by rw [hseen]; exact Bool.false_ne_true)
        rw [hseen] at hchange
        cases hchange
    | none =>
      unfold Contacts.poll
      dsimp only
      by_cases hcurrent : k.current = []
      · rw [if_pos (List.isEmpty_iff.mpr hcurrent)]
        exact hreported
      · have hlast : k.current.getLast? = some (k.current.getLast hcurrent) :=
          List.getLast?_eq_some_getLast hcurrent
        rw [hlast] at hseen
        have hchange : touch = some (k.current.getLast hcurrent) := by
          rw [← hseen]
          apply hsteady
          rw [hseen]
          exact Bool.false_ne_true.symm
        rw [if_neg (fun hempty => hcurrent (List.isEmpty_iff.mp hempty)), hchange]
        rw [hchange] at hreported
        cases hreported with
        | going groups tail b told begun =>
          exact .leaving k.former k.current groups tail _ rfl rfl told begun hlast
        | leaving former contact groups tail b split gone told begun last =>
          exact absurd gone hcurrent

theorem Faithful.sample {polls : List (Option α)} {c : Contact α} {reports : List (Edge × α)}
    (h : Faithful polls c reports) :
    Faithful polls c.sample (reports ++ c.report.toList) := by
  have hseen := h.seen
  refine ⟨hseen, ?_⟩
  have hreported := h.reported
  obtain ⟨seen, touch⟩ := c
  change Reported _ seen (reports ++ Option.toList (Contact.report ⟨seen, touch⟩))
  change seen = _ at hseen
  change Reported _ touch reports at hreported
  generalize contacts polls = k at hseen hreported ⊢
  cases seen with
  | some a =>
    have hmem : a ∈ k.current := List.mem_of_getLast? hseen.symm
    cases hreported with
    | settled groups told =>
      exact .going groups _ a told (.start hmem)
    | going groups tail b told begun =>
      rw [List.append_assoc]
      exact .going groups _ a told (begun.goOn hmem)
    | leaving former contact groups tail b split gone told begun last =>
      rw [gone] at hmem
      cases hmem
  | none =>
    have hnone : k.current = [] := List.getLast?_eq_none_iff.mp hseen.symm
    cases hreported with
    | settled groups told =>
      change Reported k none (groups.flatten ++ [])
      rw [List.append_nil]
      exact .settled groups told
    | going groups tail b told begun => exact absurd hnone begun.ne_nil
    | leaving former contact groups tail b split gone told begun last =>
      have hall : List.Forall₂ Told k.former (groups ++ [tail ++ [(.ends, b)]]) := by
        rw [split]
        exact List.rel_append told (.cons ⟨tail, b, rfl, begun, last⟩ .nil)
      have hflat : groups.flatten ++ tail ++ [(Edge.ends, b)] =
          (groups ++ [tail ++ [(Edge.ends, b)]]).flatten := by
        rw [List.flatten_append, List.flatten_singleton, List.append_assoc]
      change Reported k _ (groups.flatten ++ tail ++ [(Edge.ends, b)])
      rw [hflat]
      exact .settled _ hall

theorem Faithful.start (c : Contact α) (h : c.touch = none) : Faithful [c.seen] c [] := by
  refine ⟨?_, ?_⟩
  · cases hseen : c.seen <;> rfl
  · rw [h]
    cases hseen : c.seen <;> exact .settled [] .nil

end PeepeeBox.EdgeReports
