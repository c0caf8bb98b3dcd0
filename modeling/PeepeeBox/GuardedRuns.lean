import Mathlib.Data.List.Basic

set_option autoImplicit false

/-!
# Runs of a step that can fail

Runs whose every event fits the state it comes in, and what is kept along them.
-/
namespace PeepeeBox.GuardedRuns

variable {S E F : Type} (step : S → E → Except F S) (fits : S → E → Prop)

def run (s : S) : List E → Except F S
  | [] => .ok s
  | e :: events => do run (← step s e) events

def Orderly : S → List E → Prop
  | _, [] => True
  | s, e :: events => fits s e ∧ ∀ s', step s e = .ok s' → Orderly s' events

variable {step fits}

theorem run_cons {s s' : S} {e : E} (h : step s e = .ok s') (events : List E) :
    run step s (e :: events) = run step s' events := by
  rw [run, h]
  rfl

theorem run_steps {inv : S → Prop} {did : S → E → S → Prop}
    (hstep : ∀ s e, inv s → fits s e → ∃ s', step s e = .ok s' ∧ inv s' ∧ did s e s') {s : S} (hs : inv s)
    {events : List E} (horderly : Orderly step fits s events) :
    ∃ s', run step s events = .ok s' ∧ inv s' ∧ ∀ before e after, events = before ++ e :: after →
      ∃ s₁ s₂, run step s before = .ok s₁ ∧ inv s₁ ∧ step s₁ e = .ok s₂ ∧ did s₁ e s₂ := by
  induction events generalizing s with
  | nil =>
    refine ⟨s, rfl, hs, fun before e after hsplit => ?_⟩
    simp at hsplit
  | cons e events ih =>
    obtain ⟨hfits, hrest⟩ := horderly
    obtain ⟨s₁, hrun, hinv, hdid⟩ := hstep s e hs hfits
    obtain ⟨s', hrun', hinv', hall⟩ := ih hinv (hrest s₁ hrun)
    refine ⟨s', by rw [run_cons hrun, hrun'], hinv', fun before e' after hsplit => ?_⟩
    cases before with
    | nil =>
      obtain ⟨rfl, rfl⟩ := List.cons.inj hsplit
      exact ⟨s, s₁, rfl, hs, hrun, hdid⟩
    | cons e'' before =>
      obtain ⟨rfl, hsplit'⟩ := List.cons.inj hsplit
      rw [run_cons hrun]
      exact hall before e' after hsplit'

theorem run_keeps {inv : S → Prop} (hstep : ∀ s e, inv s → fits s e → ∃ s', step s e = .ok s' ∧ inv s') {s : S}
    (hs : inv s) {events : List E} (horderly : Orderly step fits s events) :
    ∃ s', run step s events = .ok s' ∧ inv s' := by
  have htrue (s : S) (e : E) (hs : inv s) (hfits : fits s e) : ∃ s', step s e = .ok s' ∧ inv s' ∧ True :=
    (hstep s e hs hfits).imp fun _ h => ⟨h.1, h.2, trivial⟩
  obtain ⟨s', hrun, hinv, -⟩ := run_steps htrue hs horderly
  exact ⟨s', hrun, hinv⟩

def orderly (step : S → E → Except F S) (fits : S → E → Prop) [∀ s e, Decidable (fits s e)] : S → List E → Bool
  | _, [] => true
  | s, e :: events =>
    decide (fits s e) &&
      match step s e with
      | .ok s' => orderly step fits s' events
      | .error _ => true

theorem orderly_sound [∀ s e, Decidable (fits s e)] {s : S} {events : List E}
    (h : orderly step fits s events = true) : Orderly step fits s events := by
  induction events generalizing s with
  | nil => exact trivial
  | cons e events ih =>
    unfold orderly at h
    rw [Bool.and_eq_true, decide_eq_true_iff] at h
    refine ⟨h.1, fun s' hstep => ih ?_⟩
    simpa [hstep] using h.2

theorem orderly_imp {fits' : S → E → Prop} (himp : ∀ s e, fits s e → fits' s e) {s : S} {events : List E}
    (h : Orderly step fits s events) : Orderly step fits' s events := by
  induction events generalizing s with
  | nil => exact trivial
  | cons e events ih => exact ⟨himp s e h.1, fun s' hstep => ih (h.2 s' hstep)⟩

section
variable {S' : Type} {allowed : F → Prop} {mid : S → Prop} {post : S' → Prop}

def Meets (allowed : F → Prop) (post : S → Prop) : Except F S → Prop
  | .ok s => post s
  | .error f => allowed f

theorem meets_imp {post post' : S → Prop} {x : Except F S} (hx : Meets allowed post x)
    (h : ∀ s, post s → post' s) : Meets allowed post' x := by
  cases x with
  | ok s => exact h s hx
  | error f => exact hx

theorem meets_bind {x : Except F S} {k : S → Except F S'} (hx : Meets allowed mid x)
    (hk : ∀ s, mid s → Meets allowed post (k s)) : Meets allowed post (x >>= k) := by
  cases x with
  | ok s => exact hk s hx
  | error f => exact hx

end

theorem run_meets {allowed : F → Prop} {I : S → Prop} {d : S → E → S → Prop}
    {R : S → List E → S → Prop} (hnil : ∀ s, R s [] s)
    (hcons : ∀ s e s' events s'', d s e s' → R s' events s'' → R s (e :: events) s'')
    (hstep : ∀ s e, I s → fits s e → Meets allowed (fun s' => I s' ∧ d s e s') (step s e))
    {s : S} (hs : I s) {events : List E} (h : Orderly step fits s events) :
    Meets allowed (fun s' => I s' ∧ R s events s') (run step s events) := by
  induction events generalizing s with
  | nil => exact ⟨hs, hnil s⟩
  | cons e events ih =>
    have hone := hstep s e hs h.1
    cases he : step s e with
    | error f =>
      rw [he] at hone
      rw [run, he]
      exact hone
    | ok s' =>
      rw [he] at hone
      rw [run_cons he]
      exact meets_imp (ih hone.1 (h.2 s' he)) fun s'' hs'' => ⟨hs''.1, hcons s e s' events s'' hone.2 hs''.2⟩

end PeepeeBox.GuardedRuns
