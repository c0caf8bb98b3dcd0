import PeepeeBox.TraceMachine

set_option autoImplicit false

/-!
# Cells that are kept twice

A machine that keeps the same cells in two places.
-/
namespace PeepeeBox.TwinCells
open TraceMachine

variable {σ ι ο ρ β : Type*}

inductive Effect where
  | left
  | alike
  | moved
deriving DecidableEq

/-- Whether a cell is settled after a step. -/
def Effect.after : Effect → Prop → Prop
  | .left, settled => settled
  | .alike, _ => True
  | .moved, _ => False

/-- Two copies of each cell of `ρ`, and what a step does to them. -/
structure Twins (m : Machine σ ι ο) (ρ β : Type*) where
  used : σ → ρ → β
  shown : σ → ρ → β
  effect : σ → ι → ρ → Effect
  left : ∀ s i r, effect s i r = .left → used s r = shown s r →
    used (m.next s i) r = shown (m.next s i) r
  alike : ∀ s i r, effect s i r = .alike → used (m.next s i) r = shown (m.next s i) r
  moved : ∀ s i r, effect s i r = .moved → used s r = shown s r →
    used (m.next s i) r ≠ shown (m.next s i) r

namespace Twins

variable {m : Machine σ ι ο} (t : Twins m ρ β)

/-- The machine beside the cells that are settled. -/
def watched : Machine (σ × (ρ → Prop)) ι ο where
  step w i := ((m.next w.1 i, fun r => (t.effect w.1 i r).after (w.2 r)), m.answer w.1 i)

/-- The copies of what is settled agree. -/
def Sound (w : σ × (ρ → Prop)) : Prop := ∀ r, w.2 r → t.used w.1 r = t.shown w.1 r

theorem sound_step {w : σ × (ρ → Prop)} (h : t.Sound w) (i : ι) : t.Sound (t.watched.next w i) := by
  intro r hr
  change t.used (m.next w.1 i) r = t.shown (m.next w.1 i) r
  change (t.effect w.1 i r).after (w.2 r) at hr
  cases heffect : t.effect w.1 i r with
  | left =>
    rw [heffect] at hr
    exact t.left w.1 i r heffect (h r hr)
  | alike => exact t.alike w.1 i r heffect
  | moved =>
    rw [heffect] at hr
    exact hr.elim

/-- A step that asks only for settled cells. -/
def AsksSettled (asks : σ → ι → ρ → Prop) (w : σ × (ρ → Prop)) (i : ι) : Prop :=
  ∀ r, asks w.1 i r → w.2 r

theorem asked_settled {asks : σ → ι → ρ → Prop} {w : σ × (ρ → Prop)} (h : t.Sound w) (is : List ι)
    (his : t.watched.Along (AsksSettled asks) w is) (before : List ι) (i : ι) (after : List ι)
    (hsplit : is = before ++ i :: after) (r : ρ) (hasks : asks (m.run w.1 before) i r) :
    t.used (m.run w.1 before) r = t.shown (m.run w.1 before) r := by
  induction before generalizing w is with
  | nil =>
    subst hsplit
    exact h r (his.1 r hasks)
  | cons j before ih =>
    subst hsplit
    exact ih (t.sound_step h j) _ his.2 rfl hasks

end Twins

end PeepeeBox.TwinCells
