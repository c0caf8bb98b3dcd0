import PeepeeBox.TimerLife
import PeepeeBox.TimerRuns

set_option autoImplicit false

/-!
# What `timer_close` leaves behind

Its loop clears the head of the list only, and clears no flag; so the timers are as they should be
after it where there was no list to close.
-/
namespace PeepeeBox.TimerClose
open DoublyLinked GuardedRuns Timer TimerLife
open TimerRuns (two)

variable {T D : Type}

/-- The timers that are found from the head on. -/
inductive Reaches (l : Links T) : T → Prop where
  | head {t : T} (h : l.head = some t) : Reaches l t
  | next {t u : T} (ht : Reaches l t) (h : l.next t = some u) : Reaches l u

theorem mem_of_reaches {l : Links T} {xs : List T} (h : Represents l xs) {t : T}
    (ht : Reaches l t) : t ∈ xs := by
  induction ht with
  | head hhead =>
    rw [represents_head h] at hhead
    exact List.mem_of_mem_head? hhead
  | @next t u _ hnext ih =>
    obtain ⟨as, bs, rfl⟩ := List.append_of_mem ih
    rw [represents_next h] at hnext
    have hu : u ∈ bs := List.mem_of_mem_head? hnext
    simp [hu]

def Listed (s : State T D) : Prop :=
  ∃ xs, Represents s.links xs ∧ ∀ t, s.enabled t = true ↔ t ∈ xs

theorem listed_of_eq {s s' : State T D} (h : Listed s) (hlinks : s'.links = s.links)
    (henabled : s'.enabled = s.enabled) : Listed s' := by
  unfold Listed
  rw [hlinks, henabled]
  exact h

/-- Still a list, and none is enabled in it but those that were and `t`. -/
def Keeps (s : State T D) (t : Option T) (s' : State T D) : Prop :=
  Listed s' ∧ ∀ u, s'.enabled u = true → s.enabled u = true ∨ t = some u

theorem keeps_same {s s' : State T D} (h : Listed s) (hlinks : s'.links = s.links)
    (henabled : s'.enabled = s.enabled) (t : Option T) : Keeps s t s' :=
  ⟨listed_of_eq h hlinks henabled, fun _ hu => .inl (henabled ▸ hu)⟩

theorem keeps_of_eq {s s' s'' : State T D} {t : Option T} (h : Keeps s t s')
    (hlinks : s''.links = s'.links) (henabled : s''.enabled = s'.enabled) : Keeps s t s'' :=
  ⟨listed_of_eq h.1 hlinks henabled, fun u hu => h.2 u (henabled ▸ hu)⟩

theorem keeps_from {s r s' : State T D} {t : Option T} (h : Keeps r t s')
    (henabled : r.enabled = s.enabled) : Keeps s t s' :=
  ⟨h.1, fun u hu => henabled ▸ h.2 u hu⟩

theorem keeps_any {s s' : State T D} (h : Keeps s none s') (t : Option T) : Keeps s t s' :=
  ⟨h.1, fun u hu => .inl ((h.2 u hu).resolve_right (by simp))⟩

section
variable [DecidableEq T]

theorem disable_listed {s : State T D} (h : Listed s) (t : T) :
    ∃ s', disable s t = .ok s' ∧ Listed s' ∧ s'.enabled = Function.update s.enabled t false := by
  obtain ⟨xs, hlinks, henabled⟩ := h
  by_cases ht : s.enabled t = true
  · obtain ⟨as, bs, rfl⟩ := List.append_of_mem ((henabled t).mp ht)
    have hmem : t ∉ as ++ bs := (List.nodup_middle.mp hlinks.nodup |> List.nodup_cons.mp).1
    have hstays : ¬(s.links.next t = none ∧ s.links.prev t = none ∧ s.links.head ≠ some t) := by
      rintro ⟨-, hprev, hhead⟩
      rw [represents_prev hlinks] at hprev
      rw [represents_head hlinks, hprev] at hhead
      exact hhead rfl
    have hrun : disable s t = .ok { s with
        enabled := Function.update s.enabled t false
        inCallback := Function.update s.inCallback t false
        links := unlink s.links t } := by
      unfold disable
      rw [if_neg (by simp [ht]), if_neg hstays]
    refine ⟨_, hrun, ⟨as ++ bs, represents_unlink hlinks, ?_⟩, rfl⟩
    · intro u
      by_cases hut : u = t
      · subst hut
        simpa using hmem
      · simpa [hut] using henabled u
  · rw [Bool.not_eq_true] at ht
    refine ⟨s, if_pos ht, ⟨xs, hlinks, henabled⟩, ?_⟩
    rw [← ht, Function.update_eq_self]

theorem disable_keeps {s : State T D} (h : Listed s) (t : T) :
    ∃ s', disable s t = .ok s' ∧ Keeps s none s' := by
  obtain ⟨s', hrun, hs', hfalse⟩ := disable_listed h t
  refine ⟨s', hrun, hs', ?_⟩
  intro u hu
  rw [hfalse] at hu
  by_cases hut : u = t
  · simp [hut] at hu
  · simp [hut] at hu
    exact .inl hu

variable [Fintype T]

theorem enlist_listed {s : State T D} (h : Listed s) {t : T} (ht : s.enabled t = false) :
    ∃ s', enlist s t = .ok s' ∧ Listed s' ∧ s'.enabled = Function.update s.enabled t true := by
  obtain ⟨xs, hlinks, henabled⟩ := h
  have hmem : t ∉ xs := fun hx => by simp [(henabled t).mpr hx] at ht
  obtain ⟨hnext, hprev⟩ := hlinks.apart t hmem
  have hnow (zs : List T) (hzs : ∀ u, u ∈ zs ↔ u = t ∨ u ∈ xs) (u : T) :
      Function.update s.enabled t true u = true ↔ u ∈ zs := by
    rw [hzs]
    by_cases hut : u = t
    · simp [hut]
    · simpa [hut] using henabled u
  have hlength : xs.length ≤ Fintype.card T := hlinks.nodup.length_le_card
  have hhead := represents_head hlinks
  unfold enlist
  rw [if_neg (by simp [hnext, hprev])]
  cases xs with
  | nil =>
    simp only [hhead, List.head?_nil]
    exact ⟨_, rfl, ⟨[t], represents_single hlinks t, hnow [t] (by simp)⟩, rfl⟩
  | cons x xs =>
    simp only [hhead, List.head?_cons]
    have hplace := TimerList.place_finds (t := t)
      (s := { s with enabled := Function.update s.enabled t true }) [] xs hlinks
      (fun u hu => by cases hu) (Nat.lt_of_succ_le hlength)
    rcases hplace with ⟨as, bs, node, hplace, hsplit, -, -⟩ | ⟨as, node, hplace, hsplit, -⟩
    · rw [List.nil_append] at hsplit
      rw [hplace]
      refine ⟨_, rfl, ⟨as ++ t :: node :: bs, ?_, hnow _ fun u => ?_⟩, rfl⟩
      · exact represents_before (hsplit ▸ hlinks) (hsplit ▸ hmem)
      · rw [hsplit]
        simp only [List.mem_append, List.mem_cons]
        tauto
    · rw [List.nil_append] at hsplit
      rw [hplace]
      refine ⟨_, rfl, ⟨as ++ [node, t], ?_, hnow _ fun u => ?_⟩, rfl⟩
      · exact represents_behind (hsplit ▸ hlinks) (hsplit ▸ hmem)
      · rw [hsplit]
        simp only [List.mem_append, List.mem_cons, List.not_mem_nil, or_false]
        tauto

theorem timerEnable_keeps {s : State T D} (h : Listed s) {t : T} {inited : Bool}
    (ht : inited = true ∨ s.enabled t = false) :
    ∃ s', timerEnable inited s t = .ok s' ∧ Keeps s (some t) s' := by
  have hoff : ∃ r, (if s.enabled t then timerDisable inited s t else .ok s) = .ok r ∧ Listed r ∧
      r.enabled = Function.update s.enabled t false := by
    cases hen : s.enabled t with
    | true =>
      have hinit : inited = true := by simpa [hen] using ht
      rw [hinit]
      exact disable_listed h t
    | false => exact ⟨s, rfl, h, by rw [← hen, Function.update_eq_self]⟩
  obtain ⟨r, hrun, hr, hfalse⟩ := hoff
  obtain ⟨s', henlist, hs', htrue⟩ := enlist_listed hr (t := t) (by simp [hfalse])
  refine ⟨s', ?_, hs', ?_⟩
  · unfold timerEnable
    rw [hrun]
    exact henlist
  · intro u hu
    by_cases hut : t = u
    · exact .inr (congrArg some hut)
    · rw [htrue, hfalse] at hu
      simp [Ne.symm hut] at hu
      exact .inl hu

theorem timerEnable_retimed {s r : State T D} (h : Listed s) (hlinks : r.links = s.links)
    (henabled : r.enabled = s.enabled) {t : T} {inited : Bool}
    (ht : inited = true ∨ s.enabled t = false) :
    ∃ s', timerEnable inited r t = .ok s' ∧ Keeps s (some t) s' := by
  obtain ⟨s', hrun, hs'⟩ := timerEnable_keeps (listed_of_eq h hlinks henabled) (henabled ▸ ht)
  exact ⟨s', hrun, keeps_from hs' henabled⟩

variable (c : Setup T D)

theorem doPeriod_keeps {s : State T D} (h : Listed s) (t : T) (period : BitVec 64) (start : Bool) :
    ∃ s', doPeriod s t period start = .ok s' ∧ Keeps s (some t) s' := by
  cases start with
  | true =>
    exact timerEnable_retimed (t := t)
      (r := TimerList.retimed s t (intDelay period + s.tsc) (fracDelay period)) h rfl rfl
      (.inl rfl : true = true ∨ _)
  | false =>
    exact timerEnable_retimed (t := t)
      (r := TimerList.retimed s t (advanced (s.ts t) (s.frac t) period) (s.frac t + fracDelay period))
      h rfl rfl (.inl rfl : true = true ∨ _)

theorem advanceEx_keeps {s : State T D} (h : Listed s) (t : T) (start : Bool) :
    ∃ s', advanceEx c s t start = .ok s' ∧ Keeps s (some t) s' := by
  unfold advanceEx
  split
  · obtain ⟨r, hrun, hr⟩ := doPeriod_keeps h t (maxUsec * c.usec) start
    rw [hrun]
    exact ⟨_, rfl, keeps_of_eq hr rfl rfl⟩
  · split
    · obtain ⟨r, hrun, hr⟩ := doPeriod_keeps h t (c.periods.ticks c.usec (s.period t)) start
      rw [hrun]
      exact ⟨_, rfl, keeps_of_eq hr rfl rfl⟩
    · obtain ⟨r, hrun, hr⟩ := disable_keeps h t
      rw [hrun]
      exact ⟨_, rfl, keeps_of_eq (keeps_any hr (some t)) rfl rfl⟩

omit [Fintype T] in
theorem stop_keeps {s : State T D} (h : Listed s) (t : T) :
    ∃ s', stop c s t = .ok s' ∧ Keeps s none s' := by
  unfold stop
  by_cases ht : s.enabled t = true
  · obtain ⟨r, hrun, hr⟩ :=
      disable_keeps (s := { s with period := Function.update s.period t c.periods.zero }) h t
    simp only [if_pos ht, hrun]
    exact ⟨_, rfl, keeps_of_eq hr rfl rfl⟩
  · simp only [if_neg ht]
    exact ⟨_, rfl, keeps_same h rfl rfl none⟩

theorem onAuto_keeps {s : State T D} (h : Listed s) (t : T) (period : D) :
    ∃ s', onAuto c s t period = .ok s' ∧ Keeps s (some t) s' := by
  unfold onAuto
  split
  · obtain ⟨s', hrun, hs'⟩ := advanceEx_keeps c
      (s := { s with period := Function.update s.period t period }) h t
      (c.periods.nonpositive (s.period t) && !s.inCallback t)
    exact ⟨s', hrun, keeps_from hs' rfl⟩
  · obtain ⟨s', hrun, hs'⟩ := stop_keeps c h t
    exact ⟨s', hrun, keeps_any hs' (some t)⟩

/-- Not the two faults of `timer_enable` and `timer_disable`. -/
def Harmless (f : Fault) : Prop := f ≠ .linked ∧ f ≠ .isolated

theorem meets_of_ok {α : Type} {allowed : Fault → Prop} {post : α → Prop} {x : Except Fault α}
    (h : ∃ a, x = .ok a ∧ post a) : Meets allowed post x := by
  obtain ⟨a, rfl, ha⟩ := h
  exact ha

omit [Fintype T] in
theorem removeHead_meets {s : State T D} (h : Listed s) :
    Meets Harmless (Keeps s none) (removeHead s) := by
  obtain ⟨xs, hlinks, henabled⟩ := h
  have hhead := represents_head hlinks
  unfold removeHead
  cases xs with
  | nil =>
    simp only [hhead, List.head?_nil]
    exact ⟨⟨[], hlinks, henabled⟩, fun u hu => .inl hu⟩
  | cons t ys =>
    have hfirst : Represents s.links ([] ++ t :: ys) := hlinks
    have hnext : s.links.next t = ys.head? := represents_next hfirst
    simp only [hhead, List.head?_cons, hnext]
    cases ys with
    | nil => exact ⟨by simp, by simp⟩
    | cons n ys =>
      have hprev : s.links.prev t = none := (represents_prev hfirst).mpr rfl
      have hmem : t ∉ n :: ys := (List.nodup_cons.mp hlinks.nodup).1
      have hunlinked : Represents (unlink s.links t) (n :: ys) := represents_unlink hfirst
      have hlinks' : unlink s.links t =
          { head := some n
            next := Function.update s.links.next t none
            prev := Function.update (Function.update s.links.prev n none) t none } := by
        unfold unlink linkNext linkPrev
        simp [hprev, hnext]
      rw [hlinks'] at hunlinked
      refine ⟨⟨n :: ys, hunlinked, ?_⟩, ?_⟩
      · intro u
        by_cases hut : u = t
        · subst hut
          simpa using hmem
        · simpa [hut] using henabled u
      · intro u hu
        by_cases hut : u = t
        · simp [hut] at hu
        · simp [hut] at hu
          exact .inl hu

theorem timerTurn_meets {m : Machine T D} (h : Listed m.state) (inited : Bool)
    (rest : List (Frame T)) :
    Meets Harmless (fun m' : Machine T D => Keeps m.state none m'.state) (timerTurn inited c m rest) := by
  unfold timerTurn
  cases hhead : m.state.links.head with
  | none => exact ⟨by simp, by simp⟩
  | some t =>
    have hon : m.state.enabled t = true := by
      obtain ⟨xs, hlinks, henabled⟩ := h
      exact (henabled t).mpr (mem_of_reaches hlinks (.head hhead))
    by_cases hless : lessThan (m.state.ts t) m.state.tsc = false
    · simp only [if_pos hless]
      exact keeps_same h rfl rfl none
    · simp only [if_neg hless]
      refine meets_bind (removeHead_meets h) ?_
      intro s hs
      by_cases hsplit : s.split t = true
      · simp only [if_pos hsplit]
        have hadvance : ∃ r, timerAdvanceEx inited c s t false = .ok r ∧ Keeps s (some t) r := by
          cases inited with
          | true => exact advanceEx_keeps c hs.1 t false
          | false => exact ⟨s, rfl, keeps_same hs.1 rfl rfl (some t)⟩
        refine meets_bind (meets_of_ok hadvance) ?_
        intro r hr
        refine ⟨hr.1, ?_⟩
        intro u hu
        rcases hr.2 u hu with hu | hu
        · exact hs.2 u hu
        · exact .inl (Option.some.inj hu ▸ hon)
      · simp only [if_neg hsplit]
        split
        · exact keeps_of_eq hs rfl rfl
        · exact hs

def armed : Op T D → Option T
  | .call (.enable t) => some t
  | .call (.setDelay t _) => some t
  | .call (.advance t _) => some t
  | .call (.onAuto t _) => some t
  | .add t _ true => some t
  | _ => none

/-- The list is closed when it is empty, a timer that is added again is not on it, and while the
timers are not initialised none is enabled twice. -/
def Proper (l : Life T D) : Op T D → Prop
  | .call (.enable t) => l.inited = true ∨ l.machine.state.enabled t = false
  | .call (.setDelay t _) => l.inited = true ∨ l.machine.state.enabled t = false
  | .call (.advance t _) => l.inited = true ∨ l.machine.state.enabled t = false
  | .add t _ _ => l.machine.state.enabled t = false
  | .close => l.machine.state.links.head = none
  | _ => True

theorem timerCall_keeps {l : Life T D} (h : Listed l.machine.state) (e : Event T D)
    (hproper : Proper l (.call e)) :
    ∃ s', timerCall l.inited c l.machine.state e = .ok s' ∧
      Keeps l.machine.state (armed (.call e)) s' := by
  have hguarded (f : Except Fault (State T D)) (t : Option T)
      (hf : ∃ s', f = .ok s' ∧ Keeps l.machine.state t s') :
      ∃ s', (if l.inited then f else .ok l.machine.state) = .ok s' ∧
        Keeps l.machine.state t s' := by
    split
    · exact hf
    · exact ⟨_, rfl, keeps_same h rfl rfl t⟩
  have hsame : ∃ s', (.ok l.machine.state : Except Fault (State T D)) = .ok s' ∧
      Keeps l.machine.state none s' := ⟨_, rfl, keeps_same h rfl rfl none⟩
  cases e with
  | enable t => exact timerEnable_keeps h hproper
  | disable t => exact hguarded _ none (disable_keeps h t)
  | setDelay t delay =>
    exact timerEnable_retimed (r := TimerList.retimed l.machine.state t _ _) h rfl rfl hproper
  | advance t delay =>
    exact timerEnable_retimed (r := TimerList.retimed l.machine.state t _ _) h rfl rfl hproper
  | onAuto t period => exact hguarded _ (some t) (onAuto_keeps c h t period)
  | stop t => exact hguarded _ none (stop_keeps c h t)
  | clock tsc => exact ⟨_, rfl, keeps_same h rfl rfl none⟩
  | process => exact hsame
  | turn => exact hsame
  | ret => exact hsame

theorem timerStep_meets {l : Life T D} (h : Listed l.machine.state) (e : Event T D)
    (hproper : Proper l (.call e)) :
    Meets Harmless (fun m : Machine T D => Keeps l.machine.state (armed (.call e)) m.state)
      (timerStep l.inited c l.machine e) := by
  have hcall : Meets Harmless (fun m : Machine T D => Keeps l.machine.state (armed (.call e)) m.state)
      (timerCall l.inited c l.machine.state e >>= fun s => .ok { l.machine with state := s }) :=
    meets_bind (meets_of_ok (timerCall_keeps c h e hproper)) fun _ hs => hs
  have hsame := keeps_same h rfl rfl none
  unfold timerStep
  cases e with
  | process =>
    cases l.machine.state.links.head with
    | none => exact hsame
    | some t => exact hsame
  | turn =>
    cases hframes : l.machine.frames with
    | nil => exact hcall
    | cons f rest =>
      cases f with
      | loop => exact timerTurn_meets c h l.inited rest
      | callback t => exact hcall
  | ret =>
    cases hframes : l.machine.frames with
    | nil => exact hcall
    | cons f rest =>
      cases f with
      | loop => exact hcall
      | callback t => exact keeps_same h rfl rfl none
  | enable t => exact hcall
  | disable t => exact hcall
  | setDelay t delay => exact hcall
  | advance t delay => exact hcall
  | onAuto t period => exact hcall
  | stop t => exact hcall
  | clock tsc => exact hcall

omit [Fintype T] in
theorem cleared_same {s : State T D} (h : Listed s) {t : T} (ht : s.enabled t = false) :
    (cleared c s t).links = s.links ∧ (cleared c s t).enabled = s.enabled := by
  obtain ⟨xs, hlinks, henabled⟩ := h
  have hmem : t ∉ xs := fun hx => by simp [(henabled t).mpr hx] at ht
  obtain ⟨hnext, hprev⟩ := hlinks.apart t hmem
  have hnext' : Function.update s.links.next t none = s.links.next := by
    rw [← hnext, Function.update_eq_self]
  have hprev' : Function.update s.links.prev t none = s.links.prev := by
    rw [← hprev, Function.update_eq_self]
  unfold cleared
  rw [hnext', hprev']
  refine ⟨rfl, ?_⟩
  change Function.update s.enabled t false = s.enabled
  rw [← ht, Function.update_eq_self]

theorem timerAdd_keeps {l : Life T D} (h : Listed l.machine.state) {t : T}
    (ht : l.machine.state.enabled t = false) (callback startTimer : Bool) :
    ∃ l', timerAdd c l t callback startTimer = .ok l' ∧
      Keeps l.machine.state (armed (.add t callback startTimer : Op T D)) l'.machine.state := by
  obtain ⟨hlinks, henabled⟩ := cleared_same c h ht
  unfold timerAdd
  cases startTimer with
  | false => exact ⟨_, rfl, keeps_same h hlinks henabled none⟩
  | true =>
    obtain ⟨s', hrun, hs'⟩ := timerEnable_retimed (t := t)
      (r := TimerList.retimed (cleared c l.machine.state t) t
        (intDelay 0 + l.machine.state.tsc) (fracDelay 0)) h hlinks henabled (.inr ht)
    have hdelay : timerSetDelay l.inited (cleared c l.machine.state t) t 0 = .ok s' := hrun
    simp only [if_true, hdelay]
    exact ⟨_, rfl, hs'⟩

omit [DecidableEq T] [Fintype T] in
theorem nothing_listed {s : State T D} (h : Listed s) (hhead : s.links.head = none) :
    Represents s.links [] ∧ ∀ t, s.enabled t = false := by
  obtain ⟨xs, hlinks, henabled⟩ := h
  rw [represents_head hlinks, List.head?_eq_none_iff] at hhead
  subst hhead
  exact ⟨hlinks, fun t => by simpa using mt (henabled t).mp (List.not_mem_nil)⟩

theorem timerClose_empty {l : Life T D} (hhead : l.machine.state.links.head = none) :
    ∃ l', timerClose l = .ok l' ∧ l'.machine.state = l.machine.state ∧ l'.inited = false := by
  refine ⟨{ l with inited := false }, ?_, rfl, rfl⟩
  unfold timerClose
  rw [hhead]
  have hlinks : { l.machine.state.links with head := none } = l.machine.state.links := by
    rw [← hhead]
  unfold closeLoop
  change Except.ok _ = _
  rw [hlinks]

omit [Fintype T] in
theorem retime_keeps (new : BitVec 64) (n : ℕ) (s : State T D) (t : Option T) :
    Meets Harmless (fun s' : State T D => s'.links = s.links ∧ s'.enabled = s.enabled)
      (retime new n s t) := by
  induction n generalizing s t with
  | zero =>
    cases t with
    | none => exact ⟨rfl, rfl⟩
    | some t => exact ⟨by simp, by simp⟩
  | succ n ih =>
    cases t with
    | none => exact ⟨rfl, rfl⟩
    | some t => exact ih _ _

theorem timerSetNewTsc_meets {s : State T D} (h : Listed s) (tsc : BitVec 64) :
    Meets Harmless (Keeps s none) (timerSetNewTsc s tsc) := by
  unfold timerSetNewTsc
  cases s.links.head with
  | none => exact keeps_same h rfl rfl none
  | some t =>
    refine meets_bind (retime_keeps tsc _ _ _) ?_
    intro r hr
    exact keeps_same h hr.1 hr.2 none

theorem lifeStep_meets {l : Life T D} {op : Op T D} (h : Listed l.machine.state)
    (hproper : Proper l op) :
    Meets Harmless (fun l' : Life T D => Listed l'.machine.state ∧
      Keeps l.machine.state (armed op) l'.machine.state) (lifeStep c l op) := by
  suffices hkeeps : Meets Harmless
      (fun l' : Life T D => Keeps l.machine.state (armed op) l'.machine.state) (lifeStep c l op) from
    meets_imp hkeeps fun _ hl' => ⟨hl'.1, hl'⟩
  cases op with
  | call e => exact meets_bind (timerStep_meets _ h e hproper) fun _ hm => hm
  | add t callback startTimer => exact meets_of_ok (timerAdd_keeps c h hproper callback startTimer)
  | close =>
    obtain ⟨l', hrun, hstate, -⟩ := timerClose_empty hproper
    refine meets_of_ok ⟨l', hrun, ?_⟩
    rw [hstate]
    exact keeps_same h rfl rfl none
  | init => exact keeps_same h rfl rfl none
  | setNewTsc tsc => exact meets_bind (timerSetNewTsc_meets h tsc) fun _ hs => hs

theorem run_listed {l : Life T D} (h : Listed l.machine.state) {ops : List (Op T D)}
    (horderly : Orderly (lifeStep c) Proper l ops) :
    Meets Harmless (fun l' : Life T D => Listed l'.machine.state ∧
      ∀ t, l'.machine.state.enabled t = true →
        l.machine.state.enabled t = true ∨ ∃ op ∈ ops, armed op = some t) (run (lifeStep c) l ops) := by
  refine run_meets (I := fun l : Life T D => Listed l.machine.state)
    (d := fun l op l' => Keeps l.machine.state (armed op) l'.machine.state)
    (R := fun l ops l' => ∀ t, l'.machine.state.enabled t = true →
      l.machine.state.enabled t = true ∨ ∃ op ∈ ops, armed op = some t)
    (fun _ _ ht => .inl ht) ?_ (fun _ _ => lifeStep_meets c) h horderly
  intro l op l' ops l'' hdid hrest t ht
  rcases hrest t ht with ht | ⟨op', hop, harmed⟩
  · rcases hdid.2 t ht with ht | harmed
    · exact .inl ht
    · exact .inr ⟨op, List.mem_cons_self .., harmed⟩
  · exact .inr ⟨op', List.mem_cons_of_mem op hop, harmed⟩

omit [DecidableEq T] [Fintype T] in
theorem birth_listed : Listed (birth c : Life T D).machine.state :=
  ⟨[], ⟨⟨none, rfl, rfl⟩, List.nodup_nil, fun _ _ => ⟨rfl, rfl⟩⟩, fun t => by simp [birth, start]⟩

def GivenTo (t : T) : Op T D → Prop
  | .call (.enable u) => u = t
  | .call (.setDelay u _) => u = t
  | .call (.onAuto u _) => u = t
  | _ => False

/-- Of a list that was `l`'s and has been closed, with the timers initialised again in `l'`. -/
structure Isolated (c : Setup T D) (l l' : Life T D) : Prop where
  unlinked : ∀ t, Reaches l.machine.state.links t →
    l'.machine.state.links.next t = none ∧ l'.machine.state.links.prev t = none
  again : ∀ ops l'', Orderly (lifeStep c) Proper l' ops → run (lifeStep c) l' ops = .ok l'' →
    ∀ t op, Reaches l.machine.state.links t → GivenTo t op → Proper l'' op →
      lifeStep c l'' op ≠ .error .linked ∧ lifeStep c l'' op ≠ .error .isolated
  since : ∀ ops l'', Orderly (lifeStep c) Proper l' ops → run (lifeStep c) l' ops = .ok l'' →
    ∀ t, Reaches l''.machine.state.links t → ∃ op ∈ ops, armed op = some t

def Isolates (c : Setup T D) (l : Life T D) : Prop :=
  ∃ l', run (lifeStep c) l [.close, .init] = .ok l' ∧ Isolated c l l'

theorem harmless_step {l : Life T D} {op : Op T D} (h : Listed l.machine.state)
    (hproper : Proper l op) :
    lifeStep c l op ≠ .error .linked ∧ lifeStep c l op ≠ .error .isolated := by
  have hmeets := lifeStep_meets c h hproper
  constructor
  · intro hrun
    rw [hrun] at hmeets
    exact hmeets.1 rfl
  · intro hrun
    rw [hrun] at hmeets
    exact hmeets.2 rfl

theorem isolates_empty {l : Life T D} (h : Listed l.machine.state)
    (hhead : l.machine.state.links.head = none) : Isolates c l := by
  obtain ⟨r, hclose, hstate, -⟩ := timerClose_empty hhead
  obtain ⟨hlinks, hoff⟩ := nothing_listed h hhead
  have hrun : run (lifeStep c) l [.close, .init] = .ok (timerInit r) := by
    rw [run_cons (show lifeStep c l .close = .ok r from hclose)]
    rfl
  have hlisted : Listed (timerInit r).machine.state := by
    refine listed_of_eq h ?_ ?_
    · change r.machine.state.links = _
      rw [hstate]
    · change r.machine.state.enabled = _
      rw [hstate]
  have hnone (t : T) : (timerInit r).machine.state.enabled t = false := by
    change r.machine.state.enabled t = false
    rw [hstate]
    exact hoff t
  refine ⟨timerInit r, hrun, ?_, ?_, ?_⟩
  · intro t ht
    exact absurd (mem_of_reaches hlinks ht) List.not_mem_nil
  · intro ops l'' horderly hops t op _ _ hproper
    have hmeets := run_listed c hlisted horderly
    rw [hops] at hmeets
    exact harmless_step c hmeets.1 hproper
  · intro ops l'' horderly hops t ht
    have hmeets := run_listed c hlisted horderly
    rw [hops] at hmeets
    obtain ⟨⟨xs, hxs, henabled⟩, hsince⟩ := hmeets
    refine (hsince t ((henabled t).mpr (mem_of_reaches hxs ht))).resolve_left ?_
    simp [hnone t]

theorem close_some {l : Life T D} {t : T} (hhead : l.machine.state.links.head = some t) :
    ∃ l', run (lifeStep c) l [.close, .init] = .ok l' ∧ l'.inited = true ∧
      l'.machine.state.enabled = l.machine.state.enabled ∧
      l'.machine.state.links =
        { head := none
          next := Function.update l.machine.state.links.next t none
          prev := Function.update l.machine.state.links.prev t none } := by
  obtain ⟨n, hn⟩ : ∃ n, Fintype.card T = n + 1 :=
    ⟨_, (Nat.succ_pred_eq_of_pos (Fintype.card_pos_iff.mpr ⟨t⟩)).symm⟩
  have hloop : closeLoop (Fintype.card T) l.machine.state.links (some t) =
      .ok { l.machine.state.links with
        prev := Function.update l.machine.state.links.prev t none
        next := Function.update l.machine.state.links.next t none } := by
    rw [hn]
    unfold closeLoop
    simp only [Function.update_self]
    cases n <;> rfl
  have hclose : lifeStep c l .close = .ok { l with
      machine := { l.machine with
        state := { l.machine.state with
          links :=
            { head := none
              next := Function.update l.machine.state.links.next t none
              prev := Function.update l.machine.state.links.prev t none } } }
      inited := false } := by
    change timerClose l = _
    unfold timerClose
    rw [hhead, hloop]
    rfl
  exact ⟨_, run_cons hclose _, rfl, rfl, rfl⟩

theorem isolates_head {l : Life T D} (h : Listed l.machine.state) (hisolates : Isolates c l) :
    l.machine.state.links.head = none := by
  cases hhead : l.machine.state.links.head with
  | none => rfl
  | some t =>
    obtain ⟨l', hrun, hisolated⟩ := hisolates
    obtain ⟨l₁, hrun₁, hinited, henabled, hlinks⟩ := close_some c hhead
    obtain rfl : l₁ = l' := Except.ok.inj (hrun₁.symm.trans hrun)
    have hon : l₁.machine.state.enabled t = true := by
      obtain ⟨xs, hxs, hmem⟩ := h
      rw [henabled]
      exact (hmem t).mpr (mem_of_reaches hxs (.head hhead))
    have hfault : lifeStep c l₁ (.call (.enable t)) = .error .isolated := by
      have hdisable : disable l₁.machine.state t = .error .isolated := by
        unfold disable
        rw [if_neg (by simp [hon]), if_pos (by simp [hlinks])]
      have henable : timerEnable l₁.inited l₁.machine.state t = .error .isolated := by
        unfold timerEnable timerDisable
        rw [if_pos hon, if_pos hinited, hdisable]
        rfl
      change (timerEnable l₁.inited l₁.machine.state t >>= _) >>= _ = _
      rw [henable]
      rfl
    have hagain := hisolated.again [] l₁ trivial rfl t (.call (.enable t)) (.head hhead) rfl
      (.inl hinited)
    exact absurd hfault hagain.2

/-- Whatever came before, `timer_close` does what it is for if there is nothing on the list. -/
theorem close_isolates (c : Setup T D) (ops : List (Op T D)) (l : Life T D)
    (horderly : Orderly (lifeStep c) Proper (birth c) ops)
    (hrun : run (lifeStep c) (birth c) ops = .ok l) :
    (Isolates c l ↔ l.machine.state.links.head = none) ∧
      ∀ op, Proper l op →
        lifeStep c l op ≠ .error .linked ∧ lifeStep c l op ≠ .error .isolated := by
  have hmeets := run_listed c (birth_listed c) horderly
  rw [hrun] at hmeets
  exact ⟨⟨isolates_head c hmeets.1, isolates_empty c hmeets.1⟩, fun op => harmless_step c hmeets.1⟩

end

/-- Two timers are set going and stopped again. -/
def stopped : List (Op Bool ℕ) :=
  [.init, .call (.setDelay false 0x500000000), .call (.onAuto true 1500000), .call (.disable false),
    .call (.stop true)]

theorem close_isolates_stopped : ∃ l, run (lifeStep two) (birth two) stopped = .ok l ∧ Isolates two l := by
  have horderly : Orderly (lifeStep two) Proper (birth two) stopped := by
    refine ⟨trivial, ?_⟩
    rintro _ ⟨⟩
    refine ⟨.inl rfl, ?_⟩
    rintro _ ⟨⟩
    refine ⟨trivial, ?_⟩
    rintro _ ⟨⟩
    refine ⟨trivial, ?_⟩
    rintro _ ⟨⟩
    exact ⟨trivial, fun _ _ => trivial⟩
  exact ⟨_, rfl, (close_isolates two stopped _ horderly rfl).1.mpr rfl⟩

/-- The second of two timers still points to the first. -/
theorem second_not_isolated : ∃ l, run (lifeStep two) (birth two)
    [.init, .call (.setDelay false 0x500000000), .call (.setDelay true 0x600000000)] = .ok l ∧
      ¬Isolates two l := by
  refine ⟨_, rfl, ?_⟩
  rintro ⟨l', hrun, hisolated⟩
  have hprev : l'.machine.state.links.prev true = some false := by
    obtain rfl := Except.ok.inj hrun
    rfl
  have hreached := hisolated.unlinked true (.next (.head (t := false) rfl) rfl)
  rw [hreached.2] at hprev
  cases hprev

end PeepeeBox.TimerClose
