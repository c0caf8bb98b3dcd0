import PeepeeBox.Timer

set_option autoImplicit false

/-!
# The timer list is kept

Each of the timer functions leaves the enabled timers as a doubly linked list in the order of their
timestamps, and touches no timer but the one it is called for.
-/
namespace PeepeeBox.TimerList
open DoublyLinked Timer

/-- `v` is less than half the way round from `b`. -/
def Within (b v : BitVec 64) : Prop := (v - b).toNat < 2 ^ 63

theorem lessThan_iff {b u v : BitVec 64} (hu : Within b u) (hv : Within b v) :
    lessThan u v = true ↔ (u - b).toNat ≤ (v - b).toNat := by
  unfold Within at hu hv
  have hdiff : u - v = (u - b) - (v - b) := by bv_omega
  unfold lessThan
  rw [decide_eq_true_iff, hdiff, BitVec.toInt_sub, BitVec.toInt_eq_toNat_of_lt (by omega),
    BitVec.toInt_eq_toNat_of_lt (by omega)]
  generalize (u - b).toNat = m at *
  generalize (v - b).toNat = n at *
  rw [Int.bmod_def]
  omega

theorem lessThan_refl (v : BitVec 64) : lessThan v v = true := by simp [lessThan]

theorem lessThan_total {u v : BitVec 64} (h : lessThan u v = false) : lessThan v u = true := by
  unfold lessThan at h ⊢
  rw [decide_eq_false_iff_not] at h
  rw [decide_eq_true_iff]
  have hneg : v - u = -(u - v) := by bv_omega
  rw [hneg, BitVec.toInt_neg, Int.bmod_def]
  have hhigh := BitVec.toInt_lt (x := u - v)
  omega

theorem lessThan_trans {b u v w : BitVec 64} (hu : Within b u) (hv : Within b v) (hw : Within b w)
    (huv : lessThan u v = true) (hvw : lessThan v w = true) : lessThan u w = true := by
  rw [lessThan_iff hu hv] at huv
  rw [lessThan_iff hv hw] at hvw
  rw [lessThan_iff hu hw]
  exact Nat.le_trans huv hvw

variable {T D : Type}

structure Ordered (s : State T D) (xs : List T) : Prop where
  links : Represents s.links xs
  enabled : ∀ t, s.enabled t = true ↔ t ∈ xs
  sorted : xs.Pairwise fun t u => lessThan (s.ts t) (s.ts u) = true

theorem place_finds {s : State T D} {t : T} (as bs : List T) {node : T} (h : Represents s.links (as ++ node :: bs))
    (hbefore : ∀ u ∈ as, lessThan (s.ts t) (s.ts u) = false) {n : ℕ} (hn : bs.length < n) :
    (∃ as' bs' found, place s t n node = .ok (found, true) ∧ as ++ node :: bs = as' ++ found :: bs' ∧
        (∀ u ∈ as', lessThan (s.ts t) (s.ts u) = false) ∧ lessThan (s.ts t) (s.ts found) = true) ∨
      ∃ as' found, place s t n node = .ok (found, false) ∧ as ++ node :: bs = as' ++ [found] ∧
        ∀ u ∈ as' ++ [found], lessThan (s.ts t) (s.ts u) = false := by
  induction bs generalizing as node n with
  | nil =>
    cases n with
    | zero => exact absurd hn (Nat.not_lt_zero _)
    | succ n =>
      unfold place
      cases hless : lessThan (s.ts t) (s.ts node) with
      | true => exact Or.inl ⟨as, [], node, by simp, rfl, hbefore, hless⟩
      | false =>
        have hnext : s.links.next node = none := represents_next h
        refine Or.inr ⟨as, node, by simp [hnext], rfl, fun u hu => ?_⟩
        rcases List.mem_append.mp hu with hu | hu
        · exact hbefore u hu
        · rw [List.mem_singleton.mp hu]
          exact hless
  | cons b bs ih =>
    cases n with
    | zero => exact absurd hn (Nat.not_lt_zero _)
    | succ n =>
      unfold place
      cases hless : lessThan (s.ts t) (s.ts node) with
      | true => exact Or.inl ⟨as, b :: bs, node, by simp, rfl, hbefore, hless⟩
      | false =>
        have hnext : s.links.next node = some b := represents_next h
        have hconcat : as ++ node :: b :: bs = (as ++ [node]) ++ b :: bs := by simp
        rw [hconcat] at h ⊢
        have hrest := ih _ h (fun u hu => ?_) (Nat.lt_of_succ_lt_succ hn)
        · simpa [hnext] using hrest
        · rcases List.mem_append.mp hu with hu | hu
          · exact hbefore u hu
          · rw [List.mem_singleton.mp hu]
            exact hless

theorem sorted_inserted {b : BitVec 64} {s : State T D} {t : T} (as bs : List T)
    (hsorted : (as ++ bs).Pairwise fun u v => lessThan (s.ts u) (s.ts v) = true)
    (hbefore : ∀ u ∈ as, lessThan (s.ts t) (s.ts u) = false)
    (hbehind : ∀ u ∈ bs.head?, lessThan (s.ts t) (s.ts u) = true)
    (ht : Within b (s.ts t)) (hwindow : ∀ u ∈ as ++ bs, Within b (s.ts u)) :
    (as ++ t :: bs).Pairwise fun u v => lessThan (s.ts u) (s.ts v) = true := by
  obtain ⟨has, hbs, hacross⟩ := List.pairwise_append.mp hsorted
  refine List.pairwise_append.mpr ⟨has, List.pairwise_cons.mpr ⟨fun u hu => ?_, hbs⟩, fun u hu v hv => ?_⟩
  · cases bs with
    | nil => cases hu
    | cons c bs =>
      have hc := hbehind c rfl
      rcases List.mem_cons.mp hu with rfl | hu'
      · exact hc
      · exact lessThan_trans ht (hwindow c (by simp)) (hwindow u (by simp [hu'])) hc
          (List.rel_of_pairwise_cons hbs hu')
  · rcases List.mem_cons.mp hv with rfl | hv
    · exact lessThan_total (hbefore u hu)
    · exact hacross u hu v hv

variable [DecidableEq T]

/-- `t` is armed for `due`, or not armed any more, and nothing else has changed. -/
structure Touches (s : State T D) (t : T) (due : Option (BitVec 64)) (s' : State T D) : Prop where
  ordered : ∃ xs, Ordered s' xs
  tsc : s'.tsc = s.tsc
  others : ∀ u, u ≠ t → s'.enabled u = s.enabled u ∧ s'.ts u = s.ts u
  enabled : s'.enabled t = due.isSome
  due : ∀ v ∈ due, s'.ts t = v
  split : s'.split = s.split
  period : s'.period = s.period

def retimed (s : State T D) (t : T) (ts : BitVec 64) (frac : BitVec 32) : State T D :=
  { s with ts := Function.update s.ts t ts, frac := Function.update s.frac t frac }

theorem retimed_self (s : State T D) (t : T) : retimed s t (s.ts t) (s.frac t) = s := by
  unfold retimed
  rw [Function.update_eq_self, Function.update_eq_self]

theorem sorted_retimed {s : State T D} {t : T} {xs : List T} (ht : t ∉ xs) (ts : BitVec 64)
    (h : xs.Pairwise fun u v => lessThan (s.ts u) (s.ts v) = true) :
    xs.Pairwise fun u v => lessThan (Function.update s.ts t ts u) (Function.update s.ts t ts v) = true := by
  refine h.imp_of_mem fun {u v} hu hv huv => ?_
  have hut : u ≠ t := ne_of_mem_of_not_mem hu ht
  have hvt : v ≠ t := ne_of_mem_of_not_mem hv ht
  rw [Function.update_of_ne hut, Function.update_of_ne hvt]
  exact huv

theorem disable_enabled {s : State T D} {t : T} {xs : List T} (h : Ordered s xs) (ht : s.enabled t = true)
    (ts : BitVec 64) (frac : BitVec 32) :
    ∃ s' ys, disable (retimed s t ts frac) t = .ok s' ∧ Ordered s' ys ∧ t ∉ ys ∧
      s' = { retimed s t ts frac with
        enabled := Function.update s.enabled t false
        inCallback := Function.update s.inCallback t false
        links := unlink s.links t } := by
  obtain ⟨as, bs, rfl⟩ := List.append_of_mem ((h.enabled t).mp ht)
  have hnodup := h.links.nodup
  have hmem : t ∉ as ++ bs := (List.nodup_middle.mp hnodup |> List.nodup_cons.mp).1
  refine ⟨_, as ++ bs, ?_, ⟨represents_unlink h.links, ?_, ?_⟩, hmem, rfl⟩
  · unfold disable
    have hstays : ¬ (s.links.next t = none ∧ s.links.prev t = none ∧ s.links.head ≠ some t) := by
      rintro ⟨hnext, hprev, hhead⟩
      rw [represents_prev h.links] at hprev
      rw [represents_head h.links, hprev] at hhead
      exact hhead rfl
    rw [if_neg (by simp [retimed, ht])]
    exact if_neg hstays
  · intro u
    by_cases hut : u = t
    · subst hut
      simp [hmem]
    · simpa [hut] using h.enabled u
  · refine sorted_retimed hmem ts (h.sorted.sublist ?_)
    exact List.Sublist.append_left (List.sublist_cons_self t bs) as

structure Released (s : State T D) (t : T) (ts : BitVec 64) (s' : State T D) (ys : List T) : Prop where
  ordered : Ordered s' ys
  apart : t ∉ ys
  enabled : s'.enabled = Function.update s.enabled t false
  ts : s'.ts = Function.update s.ts t ts
  tsc : s'.tsc = s.tsc
  split : s'.split = s.split
  period : s'.period = s.period

theorem release {s : State T D} {t : T} {xs : List T} (h : Ordered s xs) (ts : BitVec 64) (frac : BitVec 32) :
    ∃ s' ys, (if (retimed s t ts frac).enabled t = true then disable (retimed s t ts frac) t
      else .ok (retimed s t ts frac)) = .ok s' ∧ Released s t ts s' ys := by
  by_cases ht : s.enabled t = true
  · obtain ⟨s', ys, hrun, hordered, hmem, rfl⟩ := disable_enabled h ht ts frac
    exact ⟨_, ys, (if_pos ht).trans hrun, hordered, hmem, rfl, rfl, rfl, rfl, rfl⟩
  · have hmem : t ∉ xs := fun hmem => ht ((h.enabled t).mpr hmem)
    have hoff : s.enabled = Function.update s.enabled t false := by
      rw [Bool.not_eq_true] at ht
      rw [← ht, Function.update_eq_self]
    exact ⟨_, xs, if_neg ht, ⟨h.links, h.enabled, sorted_retimed hmem ts h.sorted⟩, hmem, hoff, rfl, rfl, rfl, rfl⟩

theorem touches_of_released {s s' r : State T D} {t : T} {ts : BitVec 64} {ys : List T} (zs : List T)
    (hr : Released s t ts r ys) (hordered : Ordered s' zs) (henabled : s'.enabled = Function.update r.enabled t true)
    (hts : s'.ts = r.ts) (htsc : s'.tsc = r.tsc) (hsplit : s'.split = r.split) (hperiod : s'.period = r.period) :
    Touches s t (some ts) s' where
  ordered := ⟨zs, hordered⟩
  tsc := htsc.trans hr.tsc
  others u hu := by
    rw [henabled, hts, hr.enabled, hr.ts]
    simp [hu]
  enabled := by
    rw [henabled]
    simp
  due v hv := by
    rw [hts, hr.ts, Function.update_self]
    exact Option.some.inj hv
  split := hsplit.trans hr.split
  period := hperiod.trans hr.period

variable [Fintype T]

theorem enable_ordered {b : BitVec 64} {s : State T D} {t : T} {xs : List T} (h : Ordered s xs)
    (ts : BitVec 64) (frac : BitVec 32) (hts : Within b ts)
    (hwindow : ∀ u, u ≠ t → s.enabled u = true → Within b (s.ts u)) :
    ∃ s', enable (retimed s t ts frac) t = .ok s' ∧ Touches s t (some ts) s' := by
  obtain ⟨r, ys, hrun, hr⟩ := release h ts frac
  obtain ⟨hnext, hprev⟩ := hr.ordered.links.apart t hr.apart
  have htime : r.ts t = ts := by
    rw [hr.ts, Function.update_self]
  have hwithin : ∀ u ∈ ys, Within b (r.ts u) := by
    intro u hu
    have hut : u ≠ t := ne_of_mem_of_not_mem hu hr.apart
    have hen := (hr.ordered.enabled u).mpr hu
    rw [hr.enabled, Function.update_of_ne hut] at hen
    rw [hr.ts, Function.update_of_ne hut]
    exact hwindow u hut hen
  have henabled (zs : List T) (hzs : ∀ u, u ∈ zs ↔ u = t ∨ u ∈ ys) (u : T) :
      Function.update r.enabled t true u = true ↔ u ∈ zs := by
    rw [hzs]
    by_cases hut : u = t
    · simp [hut]
    · simpa [hut] using hr.ordered.enabled u
  have hlength : ys.length ≤ Fintype.card T := hr.ordered.links.nodup.length_le_card
  unfold enable
  rw [hrun]
  change ∃ s', enlist r t = .ok s' ∧ _
  unfold enlist
  rw [if_neg (by simp [hnext, hprev])]
  have hhead := represents_head hr.ordered.links
  cases ys with
  | nil =>
    simp only [hhead, List.head?_nil]
    refine ⟨_, rfl, touches_of_released [t] hr ⟨?_, ?_, ?_⟩ rfl rfl rfl rfl rfl⟩
    · exact represents_single hr.ordered.links t
    · exact henabled [t] (by simp)
    · exact List.pairwise_singleton _ t
  | cons y ys =>
    simp only [hhead, List.head?_cons]
    have hplace := place_finds (s := { r with enabled := Function.update r.enabled t true }) (t := t) [] ys hr.ordered.links
      (fun u hu => by cases hu) (Nat.lt_of_succ_le hlength)
    rcases hplace with ⟨as, bs, node, hplace, hsplit, hbefore, hless⟩ | ⟨as, node, hplace, hsplit, hbefore⟩
    · rw [List.nil_append] at hsplit
      rw [hplace]
      refine ⟨_, rfl, touches_of_released (as ++ t :: node :: bs) hr ⟨?_, ?_, ?_⟩ rfl rfl rfl rfl rfl⟩
      · exact represents_before (hsplit ▸ hr.ordered.links) (hsplit ▸ hr.apart)
      · refine henabled _ fun u => ?_
        rw [hsplit]
        simp only [List.mem_append, List.mem_cons]
        tauto
      · refine sorted_inserted as (node :: bs) (hsplit ▸ hr.ordered.sorted) hbefore (fun u hu => ?_) (htime ▸ hts) (hsplit ▸ hwithin)
        obtain rfl := Option.some.inj hu
        exact hless
    · rw [List.nil_append] at hsplit
      rw [hplace]
      have hzs : as ++ [node, t] = (as ++ [node]) ++ [t] := by simp
      refine ⟨_, rfl, touches_of_released (as ++ [node, t]) hr ⟨?_, ?_, ?_⟩ rfl rfl rfl rfl rfl⟩
      · exact represents_behind (hsplit ▸ hr.ordered.links) (hsplit ▸ hr.apart)
      · refine henabled _ fun u => ?_
        rw [hsplit]
        simp only [List.mem_append, List.mem_cons, List.not_mem_nil, or_false]
        tauto
      · rw [hzs]
        refine sorted_inserted (as ++ [node]) [] ?_ hbefore (fun u hu => by cases hu) (htime ▸ hts) ?_
        · rw [List.append_nil, ← hsplit]
          exact hr.ordered.sorted
        · rw [List.append_nil, ← hsplit]
          exact hwithin

omit [Fintype T] in
theorem disable_touches {s : State T D} {t : T} {xs : List T} (h : Ordered s xs) :
    ∃ s', disable s t = .ok s' ∧ Touches s t none s' := by
  by_cases ht : s.enabled t = true
  · obtain ⟨s', ys, hrun, hordered, -, rfl⟩ := disable_enabled h ht (s.ts t) (s.frac t)
    rw [retimed_self] at hrun hordered
    refine ⟨_, hrun, ⟨ys, hordered⟩, rfl, fun u hu => ?_, ?_, fun v hv => (by cases hv), rfl, rfl⟩
    · simp [hu]
    · simp
  · rw [Bool.not_eq_true] at ht
    refine ⟨s, ?_, ⟨xs, h⟩, rfl, fun u _ => ⟨rfl, rfl⟩, ht, fun v hv => (by cases hv), rfl, rfl⟩
    unfold disable
    rw [if_pos ht]

/-- When a timer set going for `period` expires. -/
def dueAt (s : State T D) (t : T) (period : BitVec 64) (start : Bool) : BitVec 64 :=
  if start then intDelay period + s.tsc else advanced (s.ts t) (s.frac t) period

theorem doPeriod_touches {b : BitVec 64} {s : State T D} {t : T} {xs : List T} (h : Ordered s xs)
    (period : BitVec 64) (start : Bool) (hdue : Within b (dueAt s t period start))
    (hwindow : ∀ u, u ≠ t → s.enabled u = true → Within b (s.ts u)) :
    ∃ s', doPeriod s t period start = .ok s' ∧ Touches s t (some (dueAt s t period start)) s' := by
  cases start with
  | true => exact enable_ordered h (intDelay period + s.tsc) (fracDelay period) hdue hwindow
  | false =>
    exact enable_ordered h (advanced (s.ts t) (s.frac t) period) (s.frac t + fracDelay period) hdue hwindow

variable {c : Setup T D}

def Going (c : Setup T D) (s : State T D) : Prop :=
  ∀ t, s.split t = true → c.periods.positive (s.period t) = true

/-- `Touches`, with what may become of the timer's own period. -/
structure Moves (c : Setup T D) (s : State T D) (t : T) (due : Option (BitVec 64)) (s' : State T D) : Prop where
  ordered : ∃ xs, Ordered s' xs
  tsc : s'.tsc = s.tsc
  others : ∀ u, u ≠ t → s'.enabled u = s.enabled u ∧ s'.ts u = s.ts u
  enabled : s'.enabled t = due.isSome
  due : ∀ v ∈ due, s'.ts t = v
  going : Going c s → Going c s'

omit [DecidableEq T] [Fintype T] in
theorem moves_of_touches {s s' : State T D} {t : T} {due : Option (BitVec 64)} (h : Touches s t due s') :
    Moves c s t due s' where
  ordered := h.ordered
  tsc := h.tsc
  others := h.others
  enabled := h.enabled
  due := h.due
  going hgoing u hu := by
    rw [h.split] at hu
    rw [h.period]
    exact hgoing u hu

def withPeriod (s : State T D) (t : T) (period : D) : State T D :=
  { s with period := Function.update s.period t period }

omit [Fintype T] in
theorem withPeriod_self (s : State T D) (t : T) : withPeriod s t (s.period t) = s := by
  unfold withPeriod
  rw [Function.update_eq_self]

omit [Fintype T] in
theorem ordered_withPeriod {s : State T D} {xs : List T} (h : Ordered s xs) (t : T) (period : D) :
    Ordered (withPeriod s t period) xs := ⟨h.links, h.enabled, h.sorted⟩

omit [Fintype T] in
theorem moves_period {s r : State T D} {t : T} {due : Option (BitVec 64)} {before : D}
    (h : Touches (withPeriod s t before) t due r) (period : D)
    (split : Bool) (inCallback : T → Bool) (hsplit : split = true → c.periods.positive period = true) :
    Moves c s t due
      { r with
        period := Function.update r.period t period
        split := Function.update r.split t split
        inCallback := inCallback } where
  ordered := h.ordered.imp fun _ hxs => ⟨hxs.links, hxs.enabled, hxs.sorted⟩
  tsc := h.tsc
  others := h.others
  enabled := h.enabled
  due := h.due
  going hgoing u hu := by
    by_cases hut : u = t
    · subst hut
      simp only [Function.update_self] at hu ⊢
      exact hsplit hu
    · simp only [Function.update_of_ne hut, h.split, h.period, withPeriod] at hu ⊢
      exact hgoing u hu

def rearm (c : Setup T D) (s : State T D) (t : T) (start : Bool) : Option (BitVec 64) :=
  if c.periods.long (s.period t) then some (dueAt s t (maxUsec * c.usec) start)
  else if c.periods.positive (s.period t) then some (dueAt s t (c.periods.ticks c.usec (s.period t)) start)
  else none

/-- The timestamps of the timers but `t`, and `due`, go half the way round at most. -/
def Fitting (s : State T D) (t : T) (due : BitVec 64) : Prop :=
  ∃ b, Within b s.tsc ∧ Within b due ∧ ∀ u, u ≠ t → s.enabled u = true → Within b (s.ts u)

theorem advanceEx_moves {s : State T D} {t : T} {xs : List T} (h : Ordered s xs) (period : D) (start : Bool)
    (hfits : ∀ v ∈ rearm c (withPeriod s t period) t start, Fitting s t v) :
    ∃ s', advanceEx c (withPeriod s t period) t start = .ok s' ∧
      Moves c s t (rearm c (withPeriod s t period) t start) s' := by
  have h' := ordered_withPeriod h t period
  unfold advanceEx
  unfold rearm at hfits ⊢
  by_cases hlong : c.periods.long ((withPeriod s t period).period t) = true
  · simp only [if_pos hlong] at hfits ⊢
    obtain ⟨b, -, hdue, hwindow⟩ := hfits _ rfl
    obtain ⟨r, hrun, hr⟩ := doPeriod_touches h' (maxUsec * c.usec) start hdue hwindow
    rw [hrun]
    refine ⟨_, rfl, moves_period hr (c.periods.less (r.period t)) true r.inCallback fun _ => ?_⟩
    rw [hr.period]
    exact c.periods.less_positive _ hlong
  · simp only [if_neg hlong] at hfits ⊢
    by_cases hpositive : c.periods.positive ((withPeriod s t period).period t) = true
    · simp only [if_pos hpositive] at hfits ⊢
      obtain ⟨b, -, hdue, hwindow⟩ := hfits _ rfl
      obtain ⟨r, hrun, hr⟩ := doPeriod_touches h' (c.periods.ticks c.usec _) start hdue hwindow
      rw [hrun]
      exact ⟨_, rfl, moves_period hr c.periods.zero false r.inCallback fun hsplit => (by cases hsplit)⟩
    · simp only [if_neg hpositive]
      obtain ⟨r, hrun, hr⟩ := disable_touches h' (t := t)
      rw [hrun]
      exact ⟨_, rfl, moves_period hr c.periods.zero false r.inCallback fun hsplit => (by cases hsplit)⟩

omit [Fintype T] in
theorem stop_moves {s : State T D} (t : T) {xs : List T} (h : Ordered s xs) :
    ∃ s', stop c s t = .ok s' ∧ Moves c s t none s' := by
  obtain ⟨r, hrun, hr⟩ := disable_touches (ordered_withPeriod h t c.periods.zero) (t := t)
  have hmoves := moves_period (c := c) hr (r.period t) false (Function.update r.inCallback t false) fun h => (by cases h)
  rw [Function.update_eq_self] at hmoves
  refine ⟨_, ?_, hmoves⟩
  unfold stop
  change (do
    let s' ← (if s.enabled t = true then disable (withPeriod s t c.periods.zero) t
      else .ok (withPeriod s t c.periods.zero) : Except Fault (State T D))
    _) = _
  by_cases ht : s.enabled t = true
  · rw [if_pos ht, hrun]
    rfl
  · rw [if_neg ht]
    unfold disable at hrun
    rw [if_pos (Bool.not_eq_true _ ▸ ht)] at hrun
    rw [hrun]
    rfl

/-- When the timer expires that `timer_on_auto` sets going. -/
def onAutoDue (c : Setup T D) (s : State T D) (t : T) (period : D) : Option (BitVec 64) :=
  if c.periods.positive period then
    rearm c (withPeriod s t period) t (c.periods.nonpositive (s.period t) && !s.inCallback t)
  else none

theorem onAuto_moves {s : State T D} {t : T} {xs : List T} (h : Ordered s xs) (period : D)
    (hfits : ∀ v ∈ onAutoDue c s t period, Fitting s t v) :
    ∃ s', onAuto c s t period = .ok s' ∧ Moves c s t (onAutoDue c s t period) s' := by
  unfold onAuto
  unfold onAutoDue at hfits ⊢
  split
  · rename_i hpositive
    rw [if_pos hpositive] at hfits
    exact advanceEx_moves h period _ hfits
  · exact stop_moves t h

end PeepeeBox.TimerList
