import Mathlib.Data.Fintype.Prod
import PeepeeBox.GuardedRuns
import PeepeeBox.TimerList

set_option autoImplicit false

/-!
# Runs of the timers

What holds of the timer list, at every callback and between calls, whatever the callbacks do.
-/
namespace PeepeeBox.TimerRuns
open DoublyLinked Timer TimerList

variable {T D : Type} [DecidableEq T] [Fintype T] {c : Setup T D}

structure Sound (c : Setup T D) (m : Machine T D) : Prop where
  ordered : ∃ xs, Ordered m.state xs
  going : Going c m.state
  /-- The clock and the timestamps are less than half the way round. -/
  window : ∃ b, Within b m.state.tsc ∧ ∀ u, m.state.enabled u = true → Within b (m.state.ts u)
  /-- The last first. -/
  sorted : m.expired.Pairwise fun x y => lessThan y.2 x.2 = true
  once : m.expired.Nodup
  /-- What is still armed comes after what has expired. -/
  later : m.frames ≠ [] → ∀ x ∈ m.expired, ∀ u, m.state.enabled u = true →
    lessThan x.2 (m.state.ts u) = true ∧ (u, m.state.ts u) ≠ x

def names : Event T D → Option T
  | .enable t => some t
  | .disable t => some t
  | .setDelay t _ => some t
  | .advance t _ => some t
  | .onAuto t _ => some t
  | .stop t => some t
  | _ => none

def arms (c : Setup T D) (m : Machine T D) : Event T D → Option (T × BitVec 64)
  | .enable t => some (t, m.state.ts t)
  | .setDelay t delay => some (t, dueAt m.state t delay true)
  | .advance t delay => some (t, dueAt m.state t delay false)
  | .onAuto t period => (onAutoDue c m.state t period).map (t, ·)
  | .turn =>
    match m.frames, m.state.links.head with
    | .loop :: _, some t =>
      if lessThan (m.state.ts t) m.state.tsc && m.state.split t then (rearm c m.state t false).map (t, ·) else none
    | _, _ => none
  | _ => none

/-- The timers stay less than half the way round, a `timer_process` that is under way is given
nothing that is not later than all it has taken off, and it never takes the only timer nor comes
back to an empty list. -/
structure Fits (c : Setup T D) (m : Machine T D) (e : Event T D) : Prop where
  window : ∀ t v, arms c m e = some (t, v) → Fitting m.state t v
  later : ∀ t v, arms c m e = some (t, v) → m.frames ≠ [] → ∀ x ∈ m.expired, lessThan v x.2 = false
  onward : ∀ t v, arms c m e = some (t, v) → e = .turn → lessThan v (m.state.ts t) = false
  clock : ∀ tsc, e = .clock tsc → ∃ b, Within b tsc ∧ ∀ u, m.state.enabled u = true → Within b (m.state.ts u)
  company : ∀ rest, e = .turn → m.frames = .loop :: rest → ∃ t, m.state.links.head = some t ∧
    (lessThan (m.state.ts t) m.state.tsc = true → ∃ u, u ≠ t ∧ m.state.enabled u = true)

/-- A turn takes the timer `u` off: its callback is run, or its long period goes on. -/
structure Expires (c : Setup T D) (m : Machine T D) (e : Event T D) (u : T) (m' : Machine T D) : Prop where
  turn : e = .turn
  due : lessThan (m.state.ts u) m.state.tsc = true
  expired : m'.expired = (u, m.state.ts u) :: m.expired
  split : m.state.split u = true → m'.state.enabled u = true
  whole : m.state.split u = false → m'.state.enabled u = false ∧
    (c.callback u = true → m'.frames.head? = some (.callback u))

/-- What becomes of the timers in a step. -/
structure Settles (c : Setup T D) (m : Machine T D) (e : Event T D) (m' : Machine T D) : Prop where
  kept : ∀ u, m.state.enabled u = true → names e ≠ some u →
    (m'.state.enabled u = true ∧ m'.state.ts u = m.state.ts u) ∨ Expires c m e u m'
  /-- When a `timer_process` is done, nothing that is due is left. -/
  done : ∀ rest, e = .turn → m.frames = .loop :: rest → m'.frames = rest →
    ∀ u, m'.state.enabled u = true → lessThan (m'.state.ts u) m'.state.tsc = false

omit [Fintype T] in
theorem sound_of_moves {m : Machine T D} (h : Sound c m) {t : T} {due : Option (BitVec 64)} {s' : State T D}
    (hmoves : Moves c m.state t due s') (hfits : ∀ v ∈ due, Fitting m.state t v)
    (hlater : m.frames ≠ [] → ∀ v ∈ due, ∀ x ∈ m.expired, lessThan v x.2 = false) :
    Sound c { m with state := s' } where
  ordered := hmoves.ordered
  going := hmoves.going h.going
  window := by
    cases due with
    | none =>
      obtain ⟨b, htsc, hwindow⟩ := h.window
      refine ⟨b, hmoves.tsc ▸ htsc, fun u hu => ?_⟩
      by_cases hut : u = t
      · rw [hut, hmoves.enabled] at hu
        cases hu
      · rw [(hmoves.others u hut).1] at hu
        rw [(hmoves.others u hut).2]
        exact hwindow u hu
    | some v =>
      obtain ⟨b, htsc, hdue, hwindow⟩ := hfits v rfl
      refine ⟨b, hmoves.tsc ▸ htsc, fun u hu => ?_⟩
      by_cases hut : u = t
      · rw [hut, hmoves.due v rfl]
        exact hdue
      · rw [(hmoves.others u hut).1] at hu
        rw [(hmoves.others u hut).2]
        exact hwindow u hut hu
  sorted := h.sorted
  once := h.once
  later hframes x hx u hu := by
    by_cases hut : u = t
    · subst hut
      cases due with
      | none =>
        rw [hmoves.enabled] at hu
        cases hu
      | some v =>
        have hv := hlater hframes v rfl x hx
        rw [hmoves.due v rfl]
        refine ⟨lessThan_total hv, ?_⟩
        rintro rfl
        rw [lessThan_refl] at hv
        cases hv
    · rw [(hmoves.others u hut).1] at hu
      rw [(hmoves.others u hut).2]
      exact h.later hframes x hx u hu

omit [DecidableEq T] [Fintype T] in
theorem kept_of_moves {m : Machine T D} {t : T} {due : Option (BitVec 64)} {s' : State T D} (e : Event T D)
    (hmoves : Moves c m.state t due s') (hnames : names e = some t) (hturn : e ≠ .turn) :
    Settles c m e { m with state := s' } where
  kept u hu hother := by
    have hut : u ≠ t := fun hut => hother (hut ▸ hnames)
    rw [(hmoves.others u hut).1, (hmoves.others u hut).2]
    exact Or.inl ⟨hu, rfl⟩
  done _ he := absurd he hturn

theorem call_sound {m : Machine T D} {e : Event T D} {t : T} (h : Sound c m) (hfits : Fits c m e)
    (hnames : names e = some t) :
    ∃ m', step c m e = .ok m' ∧ Sound c m' ∧ Settles c m e m' := by
  obtain ⟨xs, hxs⟩ := h.ordered
  have hwith (due : Option (BitVec 64)) (harms : arms c m e = due.map (t, ·))
      (hcall : (∀ v ∈ due, Fitting m.state t v) → ∃ s', call c m.state e = .ok s' ∧ Moves c m.state t due s')
      (hstep : step c m e = do { let s ← call c m.state e; .ok { m with state := s } }) (hturn : e ≠ .turn) :
      ∃ m', step c m e = .ok m' ∧ Sound c m' ∧ Settles c m e m' := by
    have hdue (v : BitVec 64) (hv : v ∈ due) : arms c m e = some (t, v) := by
      rw [harms, Option.mem_def.mp hv]
      rfl
    have hwindow (v : BitVec 64) (hv : v ∈ due) : Fitting m.state t v := hfits.window t v (hdue v hv)
    obtain ⟨s', hrun, hmoves⟩ := hcall hwindow
    rw [hstep, hrun]
    exact ⟨_, rfl, sound_of_moves h hmoves hwindow fun hframes v hv => hfits.later t v (hdue v hv) hframes,
      kept_of_moves e hmoves hnames hturn⟩
  cases e with
  | enable u =>
    obtain rfl := Option.some.inj hnames
    refine hwith (some (m.state.ts u)) rfl (fun hwindow => ?_) rfl (fun h => (by cases h))
    obtain ⟨b, -, hdue, hothers⟩ := hwindow _ rfl
    obtain ⟨s', hrun, htouches⟩ := enable_ordered (t := u) hxs (m.state.ts u) (m.state.frac u) hdue hothers
    rw [retimed_self] at hrun
    exact ⟨s', hrun, moves_of_touches htouches⟩
  | disable u =>
    obtain rfl := Option.some.inj hnames
    refine hwith none rfl (fun _ => ?_) rfl (fun h => (by cases h))
    obtain ⟨s', hrun, htouches⟩ := disable_touches (t := u) hxs
    exact ⟨s', hrun, moves_of_touches htouches⟩
  | setDelay u delay =>
    obtain rfl := Option.some.inj hnames
    refine hwith (some (dueAt m.state u delay true)) rfl (fun hwindow => ?_) rfl (fun h => (by cases h))
    obtain ⟨b, -, hdue, hothers⟩ := hwindow _ rfl
    obtain ⟨s', hrun, htouches⟩ := doPeriod_touches hxs delay true hdue hothers
    exact ⟨s', hrun, moves_of_touches htouches⟩
  | advance u delay =>
    obtain rfl := Option.some.inj hnames
    refine hwith (some (dueAt m.state u delay false)) rfl (fun hwindow => ?_) rfl (fun h => (by cases h))
    obtain ⟨b, -, hdue, hothers⟩ := hwindow _ rfl
    obtain ⟨s', hrun, htouches⟩ := doPeriod_touches hxs delay false hdue hothers
    exact ⟨s', hrun, moves_of_touches htouches⟩
  | onAuto u period =>
    obtain rfl := Option.some.inj hnames
    exact hwith _ rfl (onAuto_moves hxs period) rfl (fun h => (by cases h))
  | stop u =>
    obtain rfl := Option.some.inj hnames
    exact hwith none rfl (fun _ => stop_moves u hxs) rfl (fun h => (by cases h))
  | clock tsc => cases hnames
  | process => cases hnames
  | turn => cases hnames
  | ret => cases hnames

omit [Fintype T] in
theorem removeHead_ordered {s : State T D} {t n : T} {ys : List T} (h : Ordered s (t :: n :: ys)) :
    ∃ s', removeHead s = .ok s' ∧ Ordered s' (n :: ys) ∧
      s' = { s with links := unlink s.links t, enabled := Function.update s.enabled t false } := by
  have hhead : s.links.head = some t := represents_head h.links
  have hlinks : Represents s.links ([] ++ t :: n :: ys) := h.links
  have hnext : s.links.next t = some n := represents_next hlinks
  have hprev : s.links.prev t = none := (represents_prev hlinks).mpr rfl
  have hmem : t ∉ n :: ys := (List.nodup_cons.mp h.links.nodup).1
  refine ⟨{ s with links := unlink s.links t, enabled := Function.update s.enabled t false }, ?_,
    ⟨represents_unlink hlinks, fun u => ?_, (List.pairwise_cons.mp h.sorted).2⟩, rfl⟩
  · unfold removeHead unlink
    simp only [hhead, hnext, hprev]
    rfl
  · by_cases hut : u = t
    · subst hut
      simpa using hmem
    · simpa [hut] using h.enabled u

omit [Fintype T] in
theorem taken_sound {m : Machine T D} (h : Sound c m) {t n : T} {ys : List T} (hxs : Ordered m.state (t :: n :: ys))
    {s : State T D} (hs : Ordered s (n :: ys))
    (heq : s = { m.state with links := unlink m.state.links t, enabled := Function.update m.state.enabled t false })
    (hframes : m.frames ≠ []) (rest : List (Frame T)) :
    Sound c { state := s, frames := .loop :: rest, expired := (t, m.state.ts t) :: m.expired } := by
  have hhead : m.state.enabled t = true := (hxs.enabled t).mpr List.mem_cons_self
  have hrest {u : T} (hu : s.enabled u = true) : u ≠ t ∧ m.state.enabled u = true := by
    rw [heq] at hu
    by_cases hut : u = t
    · subst hut
      simp at hu
    · exact ⟨hut, by simpa [hut] using hu⟩
  have hts : s.ts = m.state.ts := by rw [heq]
  constructor
  · exact ⟨n :: ys, hs⟩
  · rw [heq]
    exact h.going
  · obtain ⟨b, htsc, hwindow⟩ := h.window
    refine ⟨b, by rw [heq]; exact htsc, fun u hu => ?_⟩
    change Within b (s.ts u)
    rw [hts]
    exact hwindow u (hrest hu).2
  · exact List.pairwise_cons.mpr ⟨fun x hx => (h.later hframes x hx t hhead).1, h.sorted⟩
  · refine List.nodup_cons.mpr ⟨fun hmem => ?_, h.once⟩
    exact (h.later hframes _ hmem t hhead).2 rfl
  · intro _ x hx u hu
    obtain ⟨hut, hon⟩ := hrest hu
    change lessThan x.2 (s.ts u) = true ∧ (u, s.ts u) ≠ x
    rw [hts]
    rcases List.mem_cons.mp hx with rfl | hx
    · have hmem : u ∈ n :: ys := (hs.enabled u).mp hu
      exact ⟨List.rel_of_pairwise_cons hxs.sorted hmem, fun h => hut (congrArg Prod.fst h)⟩
    · exact h.later hframes x hx u hon

omit [Fintype T] [DecidableEq T] in
theorem rearm_isSome {s : State T D} {t : T} (h : c.periods.positive (s.period t) = true) (start : Bool) :
    (rearm c s t start).isSome = true := by
  unfold rearm
  split
  · rfl
  · rfl

section Turn
variable {m : Machine T D} {rest : List (Frame T)} {t : T}

theorem step_turn (hframes : m.frames = .loop :: rest) : step c m .turn = turn c m rest := by
  unfold step
  rw [hframes]

omit [DecidableEq T] [Fintype T] in
theorem not_done (hframes : m.frames = .loop :: rest) (f : Frame T) (rest' : List (Frame T))
    (h : m.frames = .loop :: rest') : f :: rest ≠ rest' := by
  rw [hframes] at h
  obtain rfl := (List.cons.inj h).2
  exact List.cons_ne_self f rest

theorem done_sound (h : Sound c m) {ys : List T} (hxs : Ordered m.state (t :: ys)) (hframes : m.frames = .loop :: rest)
    (hless : lessThan (m.state.ts t) m.state.tsc = false) :
    ∃ m', step c m .turn = .ok m' ∧ Sound c m' ∧ Settles c m .turn m' := by
  have hhead : m.state.links.head = some t := represents_head hxs.links
  have hunder : m.frames ≠ [] := by simp [hframes]
  have hrun : step c m .turn =
      .ok { m with state := { m.state with target := m.state.ts t }, frames := rest } := by
    rw [step_turn hframes]
    unfold turn
    simp only [hhead]
    rw [if_pos hless]
  refine ⟨_, hrun, ⟨⟨_, hxs.links, hxs.enabled, hxs.sorted⟩, h.going, h.window, h.sorted, h.once, fun _ => h.later hunder⟩,
    fun u hu _ => Or.inl ⟨hu, rfl⟩, fun _ _ _ _ u hu => ?_⟩
  -- the others are behind the head
  obtain ⟨b, htsc, hwindow⟩ := h.window
  have hon : m.state.enabled t = true := (hxs.enabled t).mpr List.mem_cons_self
  rcases List.mem_cons.mp ((hxs.enabled u).mp hu) with rfl | hmem
  · exact hless
  · have hbehind := List.rel_of_pairwise_cons hxs.sorted hmem
    change lessThan (m.state.ts u) m.state.tsc = false
    cases hdue : lessThan (m.state.ts u) m.state.tsc with
    | false => rfl
    | true =>
      rw [lessThan_trans (hwindow t hon) (hwindow u hu) htsc hbehind hdue] at hless
      cases hless

structure Taken (c : Setup T D) (m : Machine T D) (rest : List (Frame T)) (t : T) (s : State T D) : Prop where
  frames : m.frames = .loop :: rest
  head : m.state.links.head = some t
  due : lessThan (m.state.ts t) m.state.tsc = true
  ordered : ∃ ys, Ordered s ys
  eq : s = { m.state with links := unlink m.state.links t, enabled := Function.update m.state.enabled t false }
  sound : Sound c { state := s, frames := .loop :: rest, expired := (t, m.state.ts t) :: m.expired }
  run : step c m .turn =
    if m.state.split t then do
      let s ← advanceEx c s t false
      .ok { state := s, frames := .loop :: rest, expired := (t, m.state.ts t) :: m.expired }
    else if c.callback t then
      .ok
        { state := { s with inCallback := Function.update s.inCallback t true }
          frames := .callback t :: rest
          expired := (t, m.state.ts t) :: m.expired }
    else .ok { state := s, frames := .loop :: rest, expired := (t, m.state.ts t) :: m.expired }

theorem taken_of_company (h : Sound c m) {ys : List T} (hxs : Ordered m.state (t :: ys))
    (hframes : m.frames = .loop :: rest) (hless : lessThan (m.state.ts t) m.state.tsc = true)
    (hcompany : ∃ u, u ≠ t ∧ m.state.enabled u = true) : ∃ s, Taken c m rest t s := by
  have hhead : m.state.links.head = some t := represents_head hxs.links
  obtain ⟨v, hv, hvon⟩ := hcompany
  cases ys with
  | nil => exact absurd (List.mem_singleton.mp ((hxs.enabled v).mp hvon)) hv
  | cons n ys =>
    obtain ⟨s, hremove, hs, heq⟩ := removeHead_ordered hxs
    refine ⟨s, hframes, hhead, hless, ⟨_, hs⟩, heq, taken_sound h hxs hs heq (by simp [hframes]) rest, ?_⟩
    have hsplit : s.split = m.state.split := by rw [heq]
    have hts : s.ts = m.state.ts := by rw [heq]
    rw [step_turn hframes]
    unfold turn
    simp only [hhead]
    rw [if_neg (by simp [hless]), hremove, ← hsplit, ← hts]
    rfl

theorem taken_others {s : State T D} (h : Taken c m rest t s) {u : T} (hut : u ≠ t) :
    s.enabled u = m.state.enabled u ∧ s.ts u = m.state.ts u := by
  rw [h.eq]
  simp [hut]

theorem split_sound {s : State T D} (h : Sound c m) (hfits : Fits c m .turn) (htaken : Taken c m rest t s)
    (hlong : m.state.split t = true) :
    ∃ m', step c m .turn = .ok m' ∧ Sound c m' ∧ Settles c m .turn m' := by
  have hunder : m.frames ≠ [] := by simp [htaken.frames]
  have hsame : rearm c (withPeriod s t (s.period t)) t false = rearm c m.state t false := by
    rw [withPeriod_self, htaken.eq]
    rfl
  have harms {v : BitVec 64} (hv : v ∈ rearm c (withPeriod s t (s.period t)) t false) :
      arms c m .turn = some (t, v) := by
    unfold arms
    rw [htaken.frames, htaken.head]
    simp [htaken.due, hlong, ← hsame, Option.mem_def.mp hv]
  have hfitting : ∀ v ∈ rearm c (withPeriod s t (s.period t)) t false, Fitting s t v := by
    intro v hv
    obtain ⟨b, htsc, hdue, hwindow⟩ := hfits.window t v (harms hv)
    refine ⟨b, by rw [htaken.eq]; exact htsc, hdue, fun u hut hu => ?_⟩
    rw [(taken_others htaken hut).1] at hu
    rw [(taken_others htaken hut).2]
    exact hwindow u hut hu
  have hlater : ∀ v ∈ rearm c (withPeriod s t (s.period t)) t false,
      ∀ x ∈ (t, m.state.ts t) :: m.expired, lessThan v x.2 = false := by
    intro v hv x hx
    rcases List.mem_cons.mp hx with rfl | hx
    · exact hfits.onward t v (harms hv) rfl
    · exact hfits.later t v (harms hv) hunder x hx
  obtain ⟨ys, hs⟩ := htaken.ordered
  obtain ⟨s', hrun, hmoves⟩ := advanceEx_moves hs (s.period t) false hfitting
  rw [withPeriod_self] at hrun
  refine ⟨{ state := s', frames := .loop :: rest, expired := (t, m.state.ts t) :: m.expired }, ?_,
    sound_of_moves htaken.sound hmoves hfitting fun _ => hlater, fun u hu _ => ?_,
    fun rest' _ h' hrest => (not_done htaken.frames .loop rest' h' hrest).elim⟩
  · rw [htaken.run, if_pos hlong, hrun]
    rfl
  · by_cases hut : u = t
    · subst hut
      refine Or.inr ⟨rfl, htaken.due, rfl, fun _ => ?_, fun hwhole => ?_⟩
      · change s'.enabled u = true
        rw [hmoves.enabled, hsame]
        exact rearm_isSome (h.going u hlong) false
      · rw [hlong] at hwhole
        cases hwhole
    · refine Or.inl ⟨?_, ?_⟩
      · change s'.enabled u = true
        rw [(hmoves.others u hut).1, (taken_others htaken hut).1]
        exact hu
      · change s'.ts u = _
        rw [(hmoves.others u hut).2, (taken_others htaken hut).2]

theorem whole_sound {s : State T D} (htaken : Taken c m rest t s) (hwhole : m.state.split t = false) :
    ∃ m', step c m .turn = .ok m' ∧ Sound c m' ∧ Settles c m .turn m' := by
  have hoff : s.enabled t = false := by
    rw [htaken.eq]
    simp
  have hsplit : ¬ m.state.split t = true := by simp [hwhole]
  have hsound := htaken.sound
  cases hcallback : c.callback t with
  | true =>
    have hrun := htaken.run
    rw [if_neg hsplit, if_pos hcallback] at hrun
    refine ⟨_, hrun, ⟨hsound.ordered.imp fun _ h => ⟨h.links, h.enabled, h.sorted⟩, hsound.going, hsound.window,
      hsound.sorted, hsound.once, fun _ => hsound.later (List.cons_ne_nil _ _)⟩, fun u hu _ => ?_,
      fun rest' _ h' hrest => (not_done htaken.frames (.callback t) rest' h' hrest).elim⟩
    by_cases hut : u = t
    · subst hut
      exact Or.inr ⟨rfl, htaken.due, rfl, fun h => absurd h hsplit, fun _ => ⟨hoff, fun _ => rfl⟩⟩
    · exact Or.inl ⟨(taken_others htaken hut).1.trans hu, (taken_others htaken hut).2⟩
  | false =>
    have hnone : ¬ c.callback t = true := by simp [hcallback]
    have hrun := htaken.run
    rw [if_neg hsplit, if_neg hnone] at hrun
    refine ⟨_, hrun, hsound, fun u hu _ => ?_,
      fun rest' _ h' hrest => (not_done htaken.frames .loop rest' h' hrest).elim⟩
    by_cases hut : u = t
    · subst hut
      exact Or.inr ⟨rfl, htaken.due, rfl, fun h => absurd h hsplit, fun _ => ⟨hoff, fun h => absurd h hnone⟩⟩
    · exact Or.inl ⟨(taken_others htaken hut).1.trans hu, (taken_others htaken hut).2⟩

theorem turn_sound (h : Sound c m) (hfits : Fits c m .turn) (hframes : m.frames = .loop :: rest) :
    ∃ m', step c m .turn = .ok m' ∧ Sound c m' ∧ Settles c m .turn m' := by
  obtain ⟨t, hhead, hcompany⟩ := hfits.company rest rfl hframes
  obtain ⟨xs, hxs⟩ := h.ordered
  rw [represents_head hxs.links] at hhead
  obtain ⟨ys, rfl⟩ : ∃ ys, xs = t :: ys := ⟨xs.tail, List.eq_cons_of_mem_head? hhead⟩
  cases hless : lessThan (m.state.ts t) m.state.tsc with
  | false => exact done_sound h hxs hframes hless
  | true =>
    obtain ⟨s, htaken⟩ := taken_of_company h hxs hframes hless (hcompany hless)
    cases hsplit : m.state.split t with
    | true => exact split_sound h hfits htaken hsplit
    | false => exact whole_sound htaken hsplit

end Turn

omit [DecidableEq T] [Fintype T] in
theorem settles_same {m m' : Machine T D} {e : Event T D} (henabled : m'.state.enabled = m.state.enabled)
    (hts : m'.state.ts = m.state.ts) (hturn : e = .turn → ∀ rest, m.frames ≠ .loop :: rest) :
    Settles c m e m' where
  kept u hu _ := by
    rw [henabled, hts]
    exact Or.inl ⟨hu, rfl⟩
  done rest he hframes := absurd hframes (hturn he rest)

theorem process_sound {m : Machine T D} (h : Sound c m) :
    ∃ m', step c m .process = .ok m' ∧ Sound c m' ∧ Settles c m .process m' := by
  have hturn : (Event.process : Event T D) = .turn → ∀ rest, m.frames ≠ .loop :: rest := fun h => (by cases h)
  unfold step
  cases hhead : m.state.links.head with
  | none => exact ⟨m, rfl, h, settles_same rfl rfl hturn⟩
  | some t =>
    refine ⟨_, rfl, ?_, settles_same rfl rfl hturn⟩
    cases hframes : m.frames with
    | nil => exact ⟨h.ordered, h.going, h.window, List.Pairwise.nil, List.nodup_nil, fun _ x hx => (by cases hx)⟩
    | cons f frames =>
      have hunder : m.frames ≠ [] := by simp [hframes]
      exact ⟨h.ordered, h.going, h.window, h.sorted, h.once, fun _ => h.later hunder⟩

theorem turn_idle {m : Machine T D} (h : ∀ rest, m.frames ≠ .loop :: rest) : step c m .turn = .ok m := by
  obtain ⟨state, frames, expired⟩ := m
  cases frames with
  | nil => rfl
  | cons f rest =>
    cases f with
    | loop => exact absurd rfl (h rest)
    | callback t => rfl

theorem ret_idle {m : Machine T D} (h : ∀ t rest, m.frames ≠ .callback t :: rest) : step c m .ret = .ok m := by
  obtain ⟨state, frames, expired⟩ := m
  cases frames with
  | nil => rfl
  | cons f rest =>
    cases f with
    | loop => rfl
    | callback t => exact absurd rfl (h t rest)

theorem ret_sound {m : Machine T D} (h : Sound c m) :
    ∃ m', step c m .ret = .ok m' ∧ Sound c m' ∧ Settles c m .ret m' := by
  have hturn : (Event.ret : Event T D) = .turn → ∀ rest, m.frames ≠ .loop :: rest := fun h => (by cases h)
  by_cases hcalled : ∃ t rest, m.frames = .callback t :: rest
  · obtain ⟨t, rest, hframes⟩ := hcalled
    have hunder : m.frames ≠ [] := by simp [hframes]
    unfold step
    rw [hframes]
    exact ⟨_, rfl, ⟨h.ordered.imp fun _ h => ⟨h.links, h.enabled, h.sorted⟩, h.going, h.window, h.sorted, h.once,
      fun _ => h.later hunder⟩, settles_same rfl rfl hturn⟩
  · have hidle : step c m .ret = .ok m := ret_idle fun t rest hframes => hcalled ⟨t, rest, hframes⟩
    exact ⟨m, hidle, h, settles_same rfl rfl hturn⟩

theorem clock_sound {m : Machine T D} (h : Sound c m) {tsc : BitVec 64} (hfits : Fits c m (.clock tsc)) :
    ∃ m', step c m (.clock tsc) = .ok m' ∧ Sound c m' ∧ Settles c m (.clock tsc) m' := by
  refine ⟨_, rfl, ?_, settles_same rfl rfl fun h => (by cases h)⟩
  exact ⟨h.ordered.imp fun _ h => ⟨h.links, h.enabled, h.sorted⟩, h.going, hfits.clock tsc rfl, h.sorted, h.once, h.later⟩

theorem step_sound {m : Machine T D} {e : Event T D} (h : Sound c m) (hfits : Fits c m e) :
    ∃ m', step c m e = .ok m' ∧ Sound c m' ∧ Settles c m e m' := by
  cases e with
  | enable t => exact call_sound h hfits rfl
  | disable t => exact call_sound h hfits rfl
  | setDelay t delay => exact call_sound h hfits rfl
  | advance t delay => exact call_sound h hfits rfl
  | onAuto t period => exact call_sound h hfits rfl
  | stop t => exact call_sound h hfits rfl
  | clock tsc => exact clock_sound h hfits
  | process => exact process_sound h
  | turn =>
    by_cases hloop : ∃ rest, m.frames = .loop :: rest
    · obtain ⟨rest, hframes⟩ := hloop
      exact turn_sound h hfits hframes
    · have hnone : ∀ rest, m.frames ≠ .loop :: rest := fun rest hframes => hloop ⟨rest, hframes⟩
      exact ⟨m, turn_idle hnone, h, settles_same rfl rfl fun _ => hnone⟩
  | ret => exact ret_sound h

def run (c : Setup T D) (m : Machine T D) (events : List (Event T D)) : Except Fault (Machine T D) :=
  GuardedRuns.run (step c) m events

/-- Every event of the run fits the state it comes in. -/
def Orderly (c : Setup T D) (m : Machine T D) (events : List (Event T D)) : Prop :=
  GuardedRuns.Orderly (step c) (Fits c) m events

omit [DecidableEq T] [Fintype T] in
theorem start_sound : Sound c (start c) where
  ordered := ⟨[], ⟨⟨none, rfl, rfl⟩, List.nodup_nil, fun _ _ => ⟨rfl, rfl⟩⟩, fun t => by simp [start],
    List.Pairwise.nil⟩
  going t ht := by cases ht
  window := ⟨0, by simp [Within, start], fun u hu => by cases hu⟩
  sorted := List.Pairwise.nil
  once := List.nodup_nil
  later _ x hx := by cases hx

omit [DecidableEq T] in
theorem expired_bounded {expired : List (T × BitVec 64)} (h : expired.Nodup) :
    expired.length ≤ Fintype.card T * 2 ^ 64 := by
  have hinjective : Function.Injective fun x : T × BitVec 64 => (x.1, x.2.toFin) := by
    rintro ⟨t, v⟩ ⟨t', v'⟩ hsame
    obtain ⟨ht, hv⟩ := Prod.mk.inj hsame
    exact Prod.ext ht (BitVec.eq_of_toFin_eq hv)
  have hle := (h.map hinjective).length_le_card
  rwa [List.length_map, Fintype.card_prod, Fintype.card_fin] at hle

/-- No fault is met, the list is whole at every step, `timer_process` takes the timers in order and
each once, and nothing that is due is left when it is done. -/
theorem timers_in_order (c : Setup T D) (events : List (Event T D)) (horderly : Orderly c (start c) events) :
    ∃ m, run c (start c) events = .ok m ∧ Sound c m ∧ m.expired.length ≤ Fintype.card T * 2 ^ 64 ∧
      ∀ before e after, events = before ++ e :: after →
        ∃ m₁ m₂, run c (start c) before = .ok m₁ ∧ Sound c m₁ ∧ step c m₁ e = .ok m₂ ∧ Settles c m₁ e m₂ := by
  obtain ⟨m, hrun, hsound, hsteps⟩ := GuardedRuns.run_steps (fun _ _ => step_sound) start_sound horderly
  exact ⟨m, hrun, hsound, expired_bounded hsound.once, hsteps⟩

/-- `Fits`, with `b` for where the timestamps begin. -/
def FitsFrom (b : BitVec 64) (c : Setup T D) (m : Machine T D) (e : Event T D) : Prop :=
  (∀ x ∈ arms c m e, (Within b m.state.tsc ∧ Within b x.2 ∧ ∀ u, u ≠ x.1 → m.state.enabled u = true →
    Within b (m.state.ts u)) ∧ (m.frames ≠ [] → ∀ y ∈ m.expired, lessThan x.2 y.2 = false) ∧
      lessThan x.2 (m.state.ts x.1) = false) ∧
  (match e with
    | .clock tsc => Within b tsc ∧ ∀ u, m.state.enabled u = true → Within b (m.state.ts u)
    | .turn => ∃ t, m.state.links.head = some t ∧ ∃ u, u ≠ t ∧ m.state.enabled u = true
    | _ => True)

omit [Fintype T] in
theorem fits_of_fitsFrom {b : BitVec 64} {m : Machine T D} {e : Event T D} (h : FitsFrom b c m e) : Fits c m e where
  window t v hv := ⟨b, (h.1 (t, v) hv).1⟩
  later t v hv := (h.1 (t, v) hv).2.1
  onward t v hv _ := (h.1 (t, v) hv).2.2
  clock tsc he := by
    subst he
    exact ⟨b, h.2⟩
  company rest he _ := by
    subst he
    obtain ⟨t, ht, hu⟩ := h.2
    exact ⟨t, ht, fun _ => hu⟩

-- The lists are walked: a search through all the timestamps would never end.
instance (b : BitVec 64) (c : Setup T D) (m : Machine T D) (e : Event T D) : Decidable (FitsFrom b c m e) := by
  unfold FitsFrom Within
  haveI hexpired (v : BitVec 64) : Decidable (∀ y ∈ m.expired, lessThan v y.2 = false) := List.decidableBAll _ _
  refine @instDecidableAnd _ _ (Option.decidableForallMem _) ?_
  cases e with
  | clock tsc => infer_instance
  | turn => infer_instance
  | _ => infer_instance

def wholePeriods : Periods ℕ where
  zero := 0
  positive p := 0 < p
  nonpositive p := p = 0
  long p := 1000000 < p
  less p := p - 1000000
  ticks usec p := BitVec.ofNat 64 (p * usec.toNat)
  less_positive p hp := by
    simp only [decide_eq_true_eq] at hp ⊢
    omega

/-- Two timers with callbacks at one clock in a microsecond. -/
def two : Setup Bool ℕ := { periods := wholePeriods, callback := fun _ => true, usec := 0x100000000 }

/-- The first timer expires and its callback sets it going again, 1.5 s for the second one. -/
def alternation : List (Event Bool ℕ) :=
  [.setDelay false 0x500000000, .onAuto true 1500000, .clock 5, .process, .turn, .advance false 0x400000000, .ret, .turn]

theorem timers_in_order_alternation : Orderly two (start two) alternation ∧
    ∃ m, run two (start two) alternation = .ok m ∧ Sound two m ∧ m.expired.length ≤ Fintype.card Bool * 2 ^ 64 ∧
      ∀ before e after, alternation = before ++ e :: after →
        ∃ m₁ m₂, run two (start two) before = .ok m₁ ∧ Sound two m₁ ∧ step two m₁ e = .ok m₂ ∧
          Settles two m₁ e m₂ := by
  have hcalm : GuardedRuns.Orderly (step two) (FitsFrom 0 two) (start two) alternation :=
    GuardedRuns.orderly_sound (by decide +kernel)
  have horderly : Orderly two (start two) alternation := GuardedRuns.orderly_imp (fun _ _ => fits_of_fitsFrom) hcalm
  exact ⟨horderly, timers_in_order two alternation horderly⟩

/-- The only timer expires. -/
def lonely : List (Event Bool ℕ) := [.setDelay false 0x500000000, .clock 5, .process, .turn]

theorem only_timer_faults : run two (start two) lonely = .error .null := by rfl

end PeepeeBox.TimerRuns
