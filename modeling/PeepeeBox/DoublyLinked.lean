import Mathlib.Algebra.Group.Nat.Defs
import Mathlib.Data.List.Nodup
import Mathlib.Logic.Function.Basic

set_option autoImplicit false

/-!
# Doubly linked lists

Nodes that carry their own two pointers, a head pointer, and the sequence of nodes they stand for.
-/
namespace PeepeeBox.DoublyLinked

variable {T : Type}

structure Links (T : Type) where
  head : Option T
  next : T → Option T
  prev : T → Option T

section Operations
variable [DecidableEq T]

/-- Make `e` what follows the node `m`, or what the head points to. -/
def linkNext (l : Links T) (m e : Option T) : Links T :=
  match m with
  | none => { l with head := e }
  | some p => { l with next := Function.update l.next p e }

/-- Make `m` what comes before the node `e`, when there is one. -/
def linkPrev (l : Links T) (m e : Option T) : Links T :=
  match e with
  | none => l
  | some n => { l with prev := Function.update l.prev n m }

def single (l : Links T) (t : T) : Links T :=
  { head := some t, next := Function.update l.next t none, prev := Function.update l.prev t none }

def before (l : Links T) (node t : T) : Links T :=
  let m := l.prev node
  let l := { l with next := Function.update l.next t (some node), prev := Function.update l.prev t m }
  linkNext (linkPrev l (some t) (some node)) m (some t)

def behind (l : Links T) (node t : T) : Links T :=
  { l with next := Function.update l.next node (some t), prev := Function.update l.prev t (some node) }

def unlink (l : Links T) (t : T) : Links T :=
  let m := l.prev t
  let e := l.next t
  let l := linkPrev (linkNext l m e) m e
  { l with next := Function.update l.next t none, prev := Function.update l.prev t none }

end Operations

/-- From the node `h`, with `p` before it, along `xs` to `e`, with `q` before that. -/
def Segment (next prev : T → Option T) : (p h : Option T) → List T → (q e : Option T) → Prop
  | p, h, [], q, e => h = e ∧ p = q
  | p, h, t :: xs, q, e => h = some t ∧ prev t = p ∧ Segment next prev (some t) (next t) xs q e

structure Represents (l : Links T) (xs : List T) : Prop where
  segment : ∃ q, Segment l.next l.prev none l.head xs q none
  nodup : xs.Nodup
  apart : ∀ t, t ∉ xs → l.next t = none ∧ l.prev t = none

section
variable {next prev : T → Option T} {p h q e : Option T} {xs ys : List T}

theorem segment_append : Segment next prev p h (xs ++ ys) q e ↔
    ∃ m n, Segment next prev p h xs m n ∧ Segment next prev m n ys q e := by
  induction xs generalizing p h with
  | nil =>
    constructor
    · intro hseg
      exact ⟨p, h, ⟨rfl, rfl⟩, hseg⟩
    · rintro ⟨m, n, ⟨rfl, rfl⟩, hseg⟩
      exact hseg
  | cons t xs ih =>
    constructor
    · rintro ⟨hh, hp, hseg⟩
      obtain ⟨m, n, hfirst, hrest⟩ := ih.mp hseg
      exact ⟨m, n, ⟨hh, hp, hfirst⟩, hrest⟩
    · rintro ⟨m, n, ⟨hh, hp, hfirst⟩, hrest⟩
      exact ⟨hh, hp, ih.mpr ⟨m, n, hfirst, hrest⟩⟩

theorem segment_frame {next' prev' : T → Option T} (hsame : ∀ t ∈ xs, next' t = next t ∧ prev' t = prev t)
    (hseg : Segment next prev p h xs q e) : Segment next' prev' p h xs q e := by
  induction xs generalizing p h with
  | nil => exact hseg
  | cons t xs ih =>
    obtain ⟨hh, hp, hrest⟩ := hseg
    obtain ⟨hnext, hprev⟩ := hsame t List.mem_cons_self
    refine ⟨hh, hprev.trans hp, ?_⟩
    rw [hnext]
    exact ih (fun u hu => hsame u (List.mem_cons_of_mem t hu)) hrest

theorem segment_last (hseg : Segment next prev p h xs q e) : (q = p ∧ xs = [] ∧ h = e) ∨
    ∃ zs t, xs = zs ++ [t] ∧ q = some t ∧ next t = e := by
  induction xs generalizing p h with
  | nil => exact Or.inl ⟨hseg.2.symm, rfl, hseg.1⟩
  | cons t xs ih =>
    obtain ⟨-, -, hrest⟩ := hseg
    rcases ih hrest with ⟨hq, hnil, hnext⟩ | ⟨zs, u, hzs, hq, hu⟩
    · subst hnil
      exact Or.inr ⟨[], t, rfl, hq, hnext⟩
    · exact Or.inr ⟨t :: zs, u, by rw [hzs, List.cons_append], hq, hu⟩

theorem segment_last_mem {u : T}
    (hseg : Segment next prev none h xs (some u) e) : u ∈ xs := by
  rcases segment_last hseg with ⟨hq, -, -⟩ | ⟨zs, t, rfl, hq, -⟩
  · cases hq
  · rw [Option.some.inj hq]
    exact List.mem_append_right zs (List.mem_singleton.mpr rfl)

theorem segment_first_mem {u : T}
    (hseg : Segment next prev p (some u) xs q none) : u ∈ xs := by
  cases xs with
  | nil => cases hseg.1
  | cons t xs =>
    rw [Option.some.inj hseg.1]
    exact List.mem_cons_self

end

section
variable {l : Links T} {xs ys : List T} {t : T}

theorem represents_head (h : Represents l xs) : l.head = xs.head? := by
  obtain ⟨q, hseg⟩ := h.segment
  cases xs with
  | nil => exact hseg.1
  | cons t xs => exact hseg.1

theorem represents_next (h : Represents l (xs ++ t :: ys)) : l.next t = ys.head? := by
  obtain ⟨q, hseg⟩ := h.segment
  obtain ⟨m, n, -, -, -, hys⟩ := segment_append.mp hseg
  cases ys with
  | nil => exact hys.1
  | cons u ys => exact hys.1

theorem represents_prev (h : Represents l (xs ++ t :: ys)) : l.prev t = none ↔ xs = [] := by
  obtain ⟨q, hseg⟩ := h.segment
  obtain ⟨m, n, hxs, -, hm, -⟩ := segment_append.mp hseg
  rw [hm]
  rcases segment_last hxs with ⟨hm', hnil, -⟩ | ⟨zs, u, hzs, hm', -⟩
  · simp [hm', hnil]
  · simp [hm', hzs]

end

variable [DecidableEq T]

@[simp] theorem linkNext_prev (l : Links T) (m e : Option T) : (linkNext l m e).prev = l.prev := by
  cases m with
  | none => rfl
  | some p => rfl

@[simp] theorem linkPrev_next (l : Links T) (m e : Option T) : (linkPrev l m e).next = l.next := by
  cases e with
  | none => rfl
  | some n => rfl

@[simp] theorem linkPrev_head (l : Links T) (m e : Option T) : (linkPrev l m e).head = l.head := by
  cases e with
  | none => rfl
  | some n => rfl

theorem linkNext_next_of {l : Links T} {m : Option T} {u : T} (h : m ≠ some u) (e : Option T) :
    (linkNext l m e).next u = l.next u := by
  cases m with
  | none => rfl
  | some p => exact Function.update_of_ne (fun hup => h (congrArg some hup.symm)) e l.next

theorem linkPrev_prev_of {l : Links T} {e : Option T} {u : T} (h : e ≠ some u) (m : Option T) :
    (linkPrev l m e).prev u = l.prev u := by
  cases e with
  | none => rfl
  | some n => exact Function.update_of_ne (fun hun => h (congrArg some hun.symm)) m l.prev

theorem segment_linkNext {l : Links T} {xs : List T} {m e : Option T} (hnodup : xs.Nodup)
    (hseg : Segment l.next l.prev none l.head xs m e) (e' : Option T) :
    Segment (linkNext l m e').next (linkNext l m e').prev none (linkNext l m e').head xs m e' := by
  rcases segment_last hseg with ⟨rfl, rfl, -⟩ | ⟨zs, t, rfl, rfl, hlast⟩
  · exact ⟨rfl, rfl⟩
  · obtain ⟨m, n, hzs, hn, hp, -⟩ := segment_append.mp hseg
    have ht : t ∉ zs := fun hmem => (List.nodup_append.mp hnodup).2.2 t hmem t (List.mem_singleton.mpr rfl) rfl
    refine segment_append.mpr ⟨m, n, segment_frame (fun u hu => ⟨?_, rfl⟩) hzs, hn, hp, ?_, rfl⟩
    · have hne : u ≠ t := fun hut => ht (hut ▸ hu)
      exact Function.update_of_ne hne e' l.next
    · exact Function.update_self t e' l.next

theorem segment_linkPrev {l : Links T} {xs : List T} {m q e : Option T} (hnodup : xs.Nodup)
    (hseg : Segment l.next l.prev m e xs q none) (m' : Option T) :
    ∃ q', Segment (linkPrev l m' e).next (linkPrev l m' e).prev m' e xs q' none := by
  cases xs with
  | nil => exact ⟨m', hseg.1, rfl⟩
  | cons t xs =>
    obtain ⟨rfl, -, hrest⟩ := hseg
    refine ⟨q, rfl, ?_, segment_frame (fun u hu => ⟨rfl, ?_⟩) hrest⟩
    · exact Function.update_self t m' l.prev
    · have hne : u ≠ t := fun hut => (List.nodup_cons.mp hnodup).1 (hut ▸ hu)
      exact Function.update_of_ne hne m' l.prev

theorem represents_unlink {l : Links T} {xs ys : List T} {t : T} (h : Represents l (xs ++ t :: ys)) :
    Represents (unlink l t) (xs ++ ys) := by
  obtain ⟨q, hseg⟩ := h.segment
  obtain ⟨m, n, hxs, hn, hm, hys⟩ := segment_append.mp hseg
  subst hn
  have hnodup := h.nodup
  have hsplit := List.nodup_append.mp hnodup
  have hcons := List.nodup_cons.mp hsplit.2.1
  have hmem : t ∉ xs ++ ys := by
    intro htmem
    rcases List.mem_append.mp htmem with hx | hy
    · exact hsplit.2.2 t hx t List.mem_cons_self rfl
    · exact hcons.1 hy
  have hdisjoint : ∀ u ∈ xs, u ∉ ys := fun u hx hy => hsplit.2.2 u hx u (List.mem_cons_of_mem t hy) rfl
  have hlast {u : T} (hu : u ∉ xs) : m ≠ some u := fun hmu => hu (segment_last_mem (hmu ▸ hxs))
  have hfirst {u : T} (hu : u ∉ ys) : l.next t ≠ some u := fun heu => hu (segment_first_mem (heu ▸ hys))
  -- the two ends are joined, and the node's own pointers cleared
  have hxs' := segment_linkNext hsplit.1 hxs (l.next t)
  have hys' : Segment (linkNext l m (l.next t)).next (linkNext l m (l.next t)).prev (some t) (l.next t) ys q none :=
    segment_frame (fun u hu => ⟨linkNext_next_of (hlast fun hx => hdisjoint u hx hu) _, by rw [linkNext_prev]⟩) hys
  obtain ⟨q', hys''⟩ := segment_linkPrev hcons.2 hys' m
  have hclear {u : T} (hu : u ∈ xs ++ ys) : u ≠ t := fun hut => hmem (hut ▸ hu)
  constructor
  · refine ⟨q', segment_append.mpr ⟨m, l.next t, ?_, ?_⟩⟩
    · unfold unlink
      dsimp only
      rw [hm, linkPrev_head]
      refine segment_frame (fun u hu => ?_) hxs'
      have hne := hclear (List.mem_append_left ys hu)
      rw [Function.update_of_ne hne, Function.update_of_ne hne, linkPrev_next]
      exact ⟨rfl, linkPrev_prev_of (hfirst (hdisjoint u hu)) m⟩
    · unfold unlink
      dsimp only
      rw [hm]
      refine segment_frame (fun u hu => ?_) hys''
      have hne := hclear (List.mem_append_right xs hu)
      rw [Function.update_of_ne hne, Function.update_of_ne hne]
      exact ⟨rfl, rfl⟩
  · exact List.nodup_append.mpr ⟨hsplit.1, hcons.2, fun u hu v hv huv => hdisjoint u hu (huv ▸ hv)⟩
  · intro u hu
    unfold unlink
    dsimp only
    by_cases hut : u = t
    · subst hut
      simp
    · rw [Function.update_of_ne hut, Function.update_of_ne hut, hm, linkPrev_next]
      rw [List.mem_append, not_or] at hu
      rw [linkNext_next_of (hlast hu.1), linkPrev_prev_of (hfirst hu.2), linkNext_prev]
      refine h.apart u fun hmem' => ?_
      rcases List.mem_append.mp hmem' with hx | hy
      · exact hu.1 hx
      · rcases List.mem_cons.mp hy with rfl | hy
        · exact hut rfl
        · exact hu.2 hy

theorem represents_single {l : Links T} (h : Represents l []) (t : T) : Represents (single l t) [t] := by
  constructor
  · exact ⟨some t, rfl, by simp [single], by simp [single], rfl⟩
  · exact List.nodup_singleton t
  · intro u hu
    have hne : u ≠ t := fun hut => hu (List.mem_singleton.mpr hut)
    simpa [single, hne] using h.apart u List.not_mem_nil

theorem represents_before {l : Links T} {xs ys : List T} {node t : T} (h : Represents l (xs ++ node :: ys))
    (ht : t ∉ xs ++ node :: ys) : Represents (before l node t) (xs ++ t :: node :: ys) := by
  obtain ⟨q, hseg⟩ := h.segment
  obtain ⟨m, n, hxs, hys⟩ := segment_append.mp hseg
  obtain rfl : n = some node := hys.1
  have hm : l.prev node = m := hys.2.1
  have hsplit := List.nodup_append.mp h.nodup
  rw [List.mem_append, not_or] at ht
  have hdisjoint : ∀ u ∈ xs, u ∉ node :: ys := fun u hx hy => hsplit.2.2 u hx u hy rfl
  have hnode : node ≠ t := fun hnt => ht.2 (hnt ▸ List.mem_cons_self)
  have hlast {u : T} (hu : u ∉ xs) : m ≠ some u := fun hmu => hu (segment_last_mem (hmu ▸ hxs))
  -- `a` has the new node's own pointers, `b` also the one back from the node behind it
  obtain ⟨a, ha⟩ : ∃ a : Links T,
      a = { l with next := Function.update l.next t (some node), prev := Function.update l.prev t m } := ⟨_, rfl⟩
  have hsame {u : T} (hu : u ≠ t) : a.next u = l.next u ∧ a.prev u = l.prev u := by
    simp [ha, hu]
  obtain ⟨q', hys'⟩ := segment_linkPrev hsplit.2.1
    (segment_frame (fun u hu => hsame fun hut => ht.2 (hut ▸ hu)) hys) (some t)
  obtain ⟨b, hb⟩ : ∃ b : Links T, b = linkPrev a (some t) (some node) := ⟨_, rfl⟩
  have hxs' : Segment b.next b.prev none b.head xs m (some node) := by
    rw [hb, linkPrev_head, ha]
    refine segment_frame (fun u hu => ?_) hxs
    have hut : u ≠ t := fun hut => ht.1 (hut ▸ hu)
    have hun : some node ≠ some u := fun hun => hdisjoint u hu (Option.some.inj hun ▸ List.mem_cons_self)
    rw [← ha, linkPrev_next, linkPrev_prev_of hun]
    exact hsame hut
  have hbefore : before l node t = linkNext b m (some t) := by
    unfold before
    rw [hb, ha, hm]
  rw [hbefore]
  constructor
  · refine ⟨q', segment_append.mpr ⟨m, some t, segment_linkNext hsplit.1 hxs' (some t), rfl, ?_, ?_⟩⟩
    · rw [linkNext_prev, hb, linkPrev_prev_of (fun h => hnode (Option.some.inj h)), ha]
      simp
    · have hnext : (linkNext b m (some t)).next t = some node := by
        rw [linkNext_next_of (hlast ht.1), hb, linkPrev_next, ha]
        simp
      rw [hnext]
      refine segment_frame (fun u hu => ?_) (hb ▸ hys')
      rw [linkNext_prev, linkNext_next_of (hlast fun hx => hdisjoint u hx hu)]
      exact ⟨rfl, rfl⟩
  · refine List.nodup_append.mpr ⟨hsplit.1, List.nodup_cons.mpr ⟨ht.2, hsplit.2.1⟩, fun u hu v hv huv => ?_⟩
    rcases List.mem_cons.mp hv with rfl | hv
    · exact ht.1 (huv ▸ hu)
    · exact hsplit.2.2 u hu v hv huv
  · intro u hu
    rw [List.mem_append, List.mem_cons, not_or, not_or] at hu
    have hun : some node ≠ some u := fun hun => hu.2.2 (Option.some.inj hun ▸ List.mem_cons_self)
    rw [linkNext_prev, linkNext_next_of (hlast hu.1), hb, linkPrev_next, linkPrev_prev_of hun, (hsame hu.2.1).1,
      (hsame hu.2.1).2]
    exact h.apart u fun hmem => (List.mem_append.mp hmem).elim hu.1 hu.2.2

theorem represents_behind {l : Links T} {xs : List T} {node t : T} (h : Represents l (xs ++ [node]))
    (ht : t ∉ xs ++ [node]) : Represents (behind l node t) (xs ++ [node, t]) := by
  obtain ⟨q, hseg⟩ := h.segment
  obtain ⟨m, n, hxs, hn, hm, hnone, -⟩ := segment_append.mp hseg
  have hsplit := List.nodup_append.mp h.nodup
  have hnode : node ∉ xs := fun hmem => hsplit.2.2 node hmem node (List.mem_singleton.mpr rfl) rfl
  have htnext := (h.apart t ht).1
  rw [List.mem_append, List.mem_singleton, not_or] at ht
  have hsame {u : T} (hu : u ≠ t) (hun : u ≠ node) :
      (behind l node t).next u = l.next u ∧ (behind l node t).prev u = l.prev u := by
    simp [behind, hu, hun]
  constructor
  · refine ⟨some t, segment_append.mpr ⟨m, n, ?_, hn, ?_, ?_, ?_, ?_, rfl⟩⟩
    · exact segment_frame (fun u hu => hsame (fun hut => ht.1 (hut ▸ hu)) fun hun => hnode (hun ▸ hu)) hxs
    · simpa [behind, Ne.symm ht.2] using hm
    · simp [behind]
    · simp [behind]
    · simpa [behind, ht.2] using htnext
  · have hconcat : xs ++ [node, t] = (xs ++ [node]) ++ [t] := by simp
    rw [hconcat]
    refine List.nodup_append.mpr ⟨h.nodup, List.nodup_singleton t, fun u hu v hv huv => ?_⟩
    rw [List.mem_singleton.mp hv] at huv
    rcases List.mem_append.mp hu with hx | hy
    · exact ht.1 (huv ▸ hx)
    · exact ht.2 (huv ▸ List.mem_singleton.mp hy)
  · intro u hu
    simp only [List.mem_append, List.mem_cons, List.not_mem_nil, or_false, not_or] at hu
    rw [(hsame hu.2.2 hu.2.1).1, (hsame hu.2.2 hu.2.1).2]
    refine h.apart u fun hmem => ?_
    rcases List.mem_append.mp hmem with hx | hy
    · exact hu.1 hx
    · exact hu.2.1 (List.mem_singleton.mp hy)

end PeepeeBox.DoublyLinked
