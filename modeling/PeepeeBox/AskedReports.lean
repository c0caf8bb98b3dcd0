import Mathlib.Data.List.Pairwise
import PeepeeBox.EdgeReports
import PeepeeBox.TraceMachine

set_option autoImplicit false

/-!
# Reports on request

A sampled contact of which one beginning and one end are remembered.
-/
namespace PeepeeBox.AskedReports
open EdgeReports TraceMachine

variable {α : Type*}

structure Pending (α : Type*) where
  asked : Bool
  begun : Option α
  ended : Option α
  touching : Bool

/-- What one step brings.  `missed` is a sample the reporter is not told of. -/
inductive Moment (α : Type*) where
  | still
  | ask
  | begins (a : α)
  | goesOn (a : α)
  | ends (a : α)
  | idle
  | reset
  | select
  | missed (touching : Bool)
deriving DecidableEq

/-- A request takes the beginning first, else what the sample itself has to say. -/
def Pending.take (s : Pending α) (now : Option (Edge × α)) : Pending α × Option (Edge × α) :=
  if !s.asked then (s, none)
  else
    match s.begun, now with
    | some a, _ => ({ s with asked := false, begun := none }, some (.begins, a))
    | none, some r => ({ s with asked := false }, some r)
    | none, none =>
      match s.ended with
      | some a => ({ s with asked := false, ended := none }, some (.ends, a))
      | none => (s, none)

def reporter : Machine (Pending α) (Moment α) (Edge × α) where
  step s m :=
    match m with
    | .still => (s, none)
    | .ask => ({ s with asked := true }, none)
    | .begins a => Pending.take { s with begun := some a, ended := none, touching := true } none
    | .goesOn a => s.take (some (.goesOn, a))
    | .ends a => Pending.take { s with ended := some a, touching := false } none
    | .idle => s.take none
    | .reset => ({ asked := false, begun := none, ended := none, touching := false }, none)
    | .select => ({ s with asked := false, begun := none, ended := none }, none)
    | .missed touching => ({ s with touching := touching }, none)

/-- A beginning is sampled when there is no contact, its course and end when there is one. -/
def Fits (s : Pending α) : Moment α → Prop
  | .begins _ => s.touching = false
  | .goesOn _ => s.touching = true
  | .ends _ => s.touching = true
  | _ => True

/-- A report, and which contact it is of, counted from the first beginning sampled; 0 is the
    contact there was before. -/
structure Packet (α : Type*) where
  touch : ℕ
  edge : Edge
  place : α
deriving DecidableEq

structure Tally (α : Type*) where
  asked : ℕ
  begun : List α
  ended : List (ℕ × α)
  packets : List (Packet α)
deriving DecidableEq

def Tally.sample (t : Tally α) : Moment α → Tally α
  | .ask => { t with asked := t.asked + 1 }
  | .begins a => { t with begun := t.begun ++ [a] }
  | .ends a => { t with ended := t.ended ++ [(t.begun.length, a)] }
  | _ => t

def Tally.send (t : Tally α) (sent : Option (Edge × α)) : Tally α :=
  { t with packets := t.packets ++ sent.toList.map fun r => ⟨t.begun.length, r.1, r.2⟩ }

def Tally.note (t : Tally α) (step : Moment α × Option (Edge × α)) : Tally α :=
  (t.sample step.1).send step.2

def blank : Tally α := { asked := 0, begun := [], ended := [], packets := [] }

/-- A machine with the tally of its run. -/
def tallied {σ ι ο : Type*} (m : Machine σ ι ο) (moment : σ → ι → Moment α) (tell : ο → Edge × α) :
    Machine (σ × Tally α) ι ο where
  step s i :=
    ((m.next s.1 i, s.2.note (moment s.1 i, (m.answer s.1 i).map tell)), m.answer s.1 i)

def Before (p q : Packet α) : Prop :=
  p.touch < q.touch ∨ p.touch = q.touch ∧ p.edge ≠ .ends ∧ q.edge ≠ .begins

structure Tally.InOrder (t : Tally α) : Prop where
  sorted : t.packets.Pairwise Before
  opened : ∀ p ∈ t.packets, 0 < p.touch → ∃ q ∈ t.packets, q.touch = p.touch ∧ q.edge = .begins
  beginnings : ∀ p ∈ t.packets, p.edge = .begins →
    0 < p.touch ∧ t.begun[p.touch - 1]? = some p.place
  endings : ∀ p ∈ t.packets, p.edge = .ends → (p.touch, p.place) ∈ t.ended

/-- What is remembered is not dropped, and no beginning or end is kept from the reporter. -/
def plain (s : Pending α) : Moment α → Prop
  | .select => False
  | .missed touching => touching = s.touching
  | _ => True

def Counted (s : Pending α) (t : Tally α) : Prop := t.packets.length + s.asked.toNat ≤ t.asked

theorem take_counted {s : Pending α} {t : Tally α} (now : Option (Edge × α)) (h : Counted s t) :
    Counted (s.take now).1 (t.send (s.take now).2) := by
  obtain ⟨asked, begun, ended, touching⟩ := s
  cases asked <;> cases begun <;> cases now <;> cases ended <;>
    simp [Pending.take, Counted, Tally.send] at h ⊢ <;> omega

theorem step_counted {s : Pending α} {t : Tally α} (m : Moment α) (h : Counted s t) :
    Counted (reporter.next s m) (t.note (m, reporter.answer s m)) := by
  cases m with
  | begins a => exact take_counted none (t := { t with begun := t.begun ++ [a] }) h
  | goesOn a => exact take_counted _ h
  | ends a => exact take_counted none (t := { t with ended := _ }) h
  | idle => exact take_counted none h
  | still | missed _ =>
    simpa [Counted, Tally.note, Tally.send, Tally.sample, reporter, Machine.next, Machine.answer] using h
  | ask | reset | select =>
    simp [Counted, Tally.note, Tally.send, Tally.sample, reporter, Machine.next, Machine.answer] at h ⊢
    omega

/-- What is remembered is of the contact begun last, and still to be sent. -/
structure Kept (s : Pending α) (t : Tally α) : Prop where
  ordered : t.InOrder
  tags : ∀ p ∈ t.packets, p.touch ≤ t.begun.length
  begun : ∀ a, s.begun = some a → 0 < t.begun.length ∧ t.begun[t.begun.length - 1]? = some a ∧
    ∀ p ∈ t.packets, p.touch < t.begun.length
  ended : ∀ a, s.ended = some a → s.touching = false ∧ (t.begun.length, a) ∈ t.ended
  going : s.touching = true ∨ s.ended.isSome → ∀ p ∈ t.packets, p.touch = t.begun.length → p.edge ≠ .ends
  told : s.begun = none → s.touching = true ∨ s.ended.isSome → 0 < t.begun.length →
    ∃ q ∈ t.packets, q.touch = t.begun.length ∧ q.edge = .begins

theorem mem_send {t : Tally α} {r : Edge × α} {p : Packet α} :
    p ∈ (t.send (some r)).packets ↔ p ∈ t.packets ∨ p = ⟨t.begun.length, r.1, r.2⟩ := by
  simp [Tally.send]

theorem send_none (t : Tally α) : t.send none = t := by
  simp [Tally.send]

theorem send_tags {t : Tally α} (h : ∀ p ∈ t.packets, p.touch ≤ t.begun.length) (r : Edge × α) :
    ∀ p ∈ (t.send (some r)).packets, p.touch ≤ (t.send (some r)).begun.length := by
  intro p hp
  rcases mem_send.mp hp with hp | rfl
  · exact h p hp
  · exact Nat.le_refl _

theorem Tally.InOrder.send {t : Tally α} (h : t.InOrder)
    (htags : ∀ p ∈ t.packets, p.touch ≤ t.begun.length) (r : Edge × α)
    (hlast : ∀ p ∈ t.packets, p.touch = t.begun.length → p.edge ≠ .ends ∧ r.1 ≠ .begins)
    (hopened : 0 < t.begun.length →
      r.1 = .begins ∨ ∃ q ∈ t.packets, q.touch = t.begun.length ∧ q.edge = .begins)
    (hbegins : r.1 = .begins →
      0 < t.begun.length ∧ t.begun[t.begun.length - 1]? = some r.2)
    (hends : r.1 = .ends → (t.begun.length, r.2) ∈ t.ended) : (t.send (some r)).InOrder := by
  constructor
  · apply List.pairwise_append.mpr
    refine ⟨h.sorted, List.pairwise_singleton _ _, fun p hp q hq => ?_⟩
    obtain rfl := List.mem_singleton.mp hq
    rcases Nat.lt_or_eq_of_le (htags p hp) with hlt | heq
    · exact Or.inl hlt
    · exact Or.inr ⟨heq, hlast p hp heq⟩
  · intro p hp hpos
    rcases mem_send.mp hp with hp | rfl
    · obtain ⟨q, hq, hsame⟩ := h.opened p hp hpos
      exact ⟨q, mem_send.mpr (Or.inl hq), hsame⟩
    · rcases hopened hpos with hnew | ⟨q, hq, hsame⟩
      · exact ⟨_, mem_send.mpr (Or.inr rfl), rfl, hnew⟩
      · exact ⟨q, mem_send.mpr (Or.inl hq), hsame⟩
  · intro p hp hedge
    rcases mem_send.mp hp with hp | rfl
    · exact h.beginnings p hp hedge
    · exact hbegins hedge
  · intro p hp hedge
    rcases mem_send.mp hp with hp | rfl
    · exact h.endings p hp hedge
    · exact hends hedge

def Current (s : Pending α) (now : Option (Edge × α)) : Prop :=
  ∀ r, now = some r → r.1 = .goesOn ∧ s.touching = true

theorem take_kept {s : Pending α} {t : Tally α} {now : Option (Edge × α)} (hnow : Current s now)
    (h : Kept s t) : Kept (s.take now).1 (t.send (s.take now).2) := by
  obtain ⟨asked, begun, ended, touching⟩ := s
  cases asked with
  | false => exact (send_none t).symm ▸ h
  | true =>
    cases begun with
    | some a =>
      obtain ⟨hpos, hplace, hbefore⟩ := h.begun a rfl
      have hnone : ∀ p ∈ t.packets, p.touch ≠ t.begun.length := fun p hp => Nat.ne_of_lt (hbefore p hp)
      refine ⟨?_, send_tags h.tags _, fun b (hb : none = some b) => (nomatch hb), h.ended, ?_, ?_⟩
      · apply h.ordered.send h.tags
        · exact fun p hp heq => absurd heq (hnone p hp)
        · exact fun _ => Or.inl rfl
        · exact fun _ => ⟨hpos, hplace⟩
        · exact fun hends : Edge.begins = Edge.ends => (nomatch hends)
      · intro _ p hp heq
        rcases mem_send.mp hp with hp | rfl
        · exact absurd heq (hnone p hp)
        · exact fun hends : Edge.begins = Edge.ends => (nomatch hends)
      · exact fun _ _ _ => ⟨_, mem_send.mpr (Or.inr rfl), rfl, rfl⟩
    | none =>
      cases now with
      | some r =>
        obtain ⟨hedge, htouching⟩ := hnow r rfl
        have hgoing := h.going (Or.inl htouching)
        have htold := h.told rfl (Or.inl htouching)
        refine ⟨?_, send_tags h.tags _, fun b (hb : none = some b) => (nomatch hb), h.ended, ?_, ?_⟩
        · apply h.ordered.send h.tags
          · exact fun p hp heq => ⟨hgoing p hp heq, by simp [hedge]⟩
          · exact fun hpos => Or.inr (htold hpos)
          · simp [hedge]
          · simp [hedge]
        · intro _ p hp heq
          rcases mem_send.mp hp with hp | rfl
          · exact hgoing p hp heq
          · simp [hedge]
        · intro _ _ hpos
          obtain ⟨q, hq, hsame⟩ := htold hpos
          exact ⟨q, mem_send.mpr (Or.inl hq), hsame⟩
      | none =>
        cases ended with
        | none => exact (send_none t).symm ▸ h
        | some a =>
          obtain ⟨htouching, hseen⟩ := h.ended a rfl
          have hgoing := h.going (Or.inr rfl)
          have htold := h.told rfl (Or.inr rfl)
          have hover : ¬ (touching = true ∨ (none : Option α).isSome) := by
            simpa using htouching
          refine ⟨?_, send_tags h.tags _, fun b (hb : none = some b) => (nomatch hb), fun b (hb : none = some b) => (nomatch hb),
            fun hgoes => absurd hgoes hover, fun _ hgoes => absurd hgoes hover⟩
          apply h.ordered.send h.tags
          · exact fun p hp heq => ⟨hgoing p hp heq, fun hbegins : Edge.ends = Edge.begins => (nomatch hbegins)⟩
          · exact fun hpos => Or.inr (htold hpos)
          · exact fun hbegins : Edge.ends = Edge.begins => (nomatch hbegins)
          · exact fun _ => hseen

theorem begins_kept {s : Pending α} {t : Tally α} (a : α) (h : Kept s t) :
    Kept { s with begun := some a, ended := none, touching := true } (t.sample (.begins a)) := by
  have hlength : (t.begun ++ [a]).length = t.begun.length + 1 := by simp
  have htags : ∀ p ∈ t.packets, p.touch < (t.begun ++ [a]).length := by
    intro p hp
    rw [hlength]
    exact Nat.lt_succ_of_le (h.tags p hp)
  refine ⟨⟨h.ordered.sorted, h.ordered.opened, ?_, h.ordered.endings⟩,
    fun p hp => Nat.le_of_lt (htags p hp), ?_, fun b (hb : none = some b) => (nomatch hb),
    fun _ p hp heq => absurd heq (Nat.ne_of_lt (htags p hp)), fun hnone : some a = none => (nomatch hnone)⟩
  · intro p hp hedge
    obtain ⟨hpos, hplace⟩ := h.ordered.beginnings p hp hedge
    refine ⟨hpos, ?_⟩
    have hin : p.touch - 1 < t.begun.length := by
      have htag := h.tags p hp
      omega
    exact (List.getElem?_append_left hin).trans hplace
  · rintro b ⟨rfl⟩
    refine ⟨by simp [Tally.sample], ?_, htags⟩
    simp [Tally.sample]

theorem ends_kept {s : Pending α} {t : Tally α} (a : α) (hfits : s.touching = true) (h : Kept s t) :
    Kept { s with ended := some a, touching := false } (t.sample (.ends a)) := by
  refine ⟨⟨h.ordered.sorted, h.ordered.opened, h.ordered.beginnings, ?_⟩, h.tags, h.begun, ?_,
    fun _ => h.going (Or.inl hfits), fun hnone _ => h.told hnone (Or.inl hfits)⟩
  · exact fun p hp hedge => List.mem_append_left _ (h.ordered.endings p hp hedge)
  · rintro b ⟨rfl⟩
    exact ⟨rfl, List.mem_append_right _ List.mem_cons_self⟩

theorem step_kept {s : Pending α} {t : Tally α} {m : Moment α} (hplain : plain s m) (hfits : Fits s m)
    (h : Kept s t) : Kept (reporter.next s m) (t.note (m, reporter.answer s m)) := by
  have hquiet : ∀ s' : Pending α, Current s' none := fun _ _ hr => (nomatch hr)
  cases m with
  | still =>
    change Kept s ((t.sample .still).send none)
    rw [send_none]
    exact h
  | ask =>
    change Kept { s with asked := true } ((t.sample .ask).send none)
    rw [send_none]
    exact ⟨⟨h.ordered.sorted, h.ordered.opened, h.ordered.beginnings, h.ordered.endings⟩,
      h.tags, h.begun, h.ended, h.going, h.told⟩
  | begins a => exact take_kept (hquiet _) (begins_kept a h)
  | goesOn a =>
    apply take_kept _ h
    rintro r ⟨rfl⟩
    exact ⟨rfl, hfits⟩
  | ends a => exact take_kept (hquiet _) (ends_kept a hfits h)
  | idle => exact take_kept (hquiet _) h
  | reset =>
    change Kept _ ((t.sample .reset).send none)
    rw [send_none]
    have hover : ¬ ((false : Bool) = true ∨ (none : Option α).isSome) := by simp
    exact ⟨h.ordered, h.tags, fun b (hb : none = some b) => (nomatch hb), fun b (hb : none = some b) => (nomatch hb),
      fun hgoes => absurd hgoes hover, fun _ hgoes => absurd hgoes hover⟩
  | select => exact absurd hplain id
  | missed touching =>
    change Kept { s with touching := touching } ((t.sample (.missed touching)).send none)
    rw [send_none, hplain]
    exact h

/-- Nothing is remembered. -/
def Clear (s : Pending α) : Prop := s.asked = false ∧ s.begun = none ∧ s.ended = none

theorem Clear.counted {s : Pending α} (h : Clear s) : Counted s blank := by
  simp [Counted, blank, h.1]

theorem Clear.kept {s : Pending α} (h : Clear s) : Kept s blank := by
  obtain ⟨-, hbegun, hended⟩ := h
  constructor <;> simp [blank, hbegun, hended]
  constructor <;> simp

/-- On the steps of `ok` a machine remembers and reports as the reporter does. -/
structure Reporting {σ ι ο : Type*} (m : Machine σ ι ο) (moment : σ → ι → Moment α)
    (tell : ο → Edge × α) (pending : σ → Pending α) (ok : σ → ι → Prop) : Prop where
  next : ∀ s i, ok s i → pending (m.next s i) = reporter.next (pending s) (moment s i)
  answer : ∀ s i, ok s i → (m.answer s i).map tell = reporter.answer (pending s) (moment s i)
  fits : ∀ s i, Fits (pending s) (moment s i)

section
variable {σ ι ο : Type*} {m : Machine σ ι ο} {moment : σ → ι → Moment α} {tell : ο → Edge × α}
  {pending : σ → Pending α} {ok : σ → ι → Prop}

theorem Reporting.counted (h : Reporting m moment tell pending ok) {s : σ} {t : Tally α}
    (hst : Counted (pending s) t) (is : List ι) (his : m.Along ok s is) :
    ((tallied m moment tell).run (s, t) is).2.packets.length ≤
      ((tallied m moment tell).run (s, t) is).2.asked := by
  induction is generalizing s t with
  | nil => exact Nat.le_of_add_right_le hst
  | cons i is ih =>
    apply ih _ his.2
    rw [h.next s i his.1, h.answer s i his.1]
    exact step_counted (moment s i) hst

theorem Reporting.inOrder (h : Reporting m moment tell pending ok) {s : σ} {t : Tally α}
    (hst : Kept (pending s) t) (is : List ι) (his : m.Along ok s is)
    (hplain : m.Along (fun s i => plain (pending s) (moment s i)) s is) :
    ((tallied m moment tell).run (s, t) is).2.InOrder := by
  induction is generalizing s t with
  | nil => exact hst.ordered
  | cons i is ih =>
    apply ih _ his.2 hplain.2
    rw [h.next s i his.1, h.answer s i his.1]
    exact step_kept hplain.1 (h.fits s i) hst

end

end PeepeeBox.AskedReports
