import Mathlib.Data.Int.Notation
import Mathlib.Data.List.Nodup
import Mathlib.Logic.Equiv.Basic
import PeepeeBox.Bytes
import PeepeeBox.SlotRing
import PeepeeBox.TraceMachine

set_option autoImplicit false

/-!
# The packet queues of a card

The queues of `network.c`, whose slots and whose callers' records hold pointers to buffers of `NET_MAX_FRAME` bytes and
swap them.
-/
namespace PeepeeBox.PacketQueues
open SlotRing TraceMachine

def maxFrame : ℕ := 1518

structure Netpkt where
  data : ℕ
  len : ℤ
  deriving DecidableEq

variable {R : Type}

/-- Where a packet can be: in a caller's record or in a slot of a queue. -/
inductive Holder (R : Type) where
  | record (r : R)
  | slot (queue : Fin 4) (i : Fin 16)
  deriving DecidableEq

/-- The memory behind the pointers, who holds which packet, and the ends of the queues. -/
@[ext]
structure World (R : Type) where
  buffer : ℕ → ℕ → Byte
  held : Holder R → Netpkt
  head : Fin 4 → Fin 16
  tail : Fin 4 → Fin 16

def networkQueueFull (w : World R) (queue : Fin 4) : Bool := w.head queue + 1 = w.tail queue

def networkQueueEmpty (w : World R) (queue : Fin 4) : Bool := w.head queue = w.tail queue

section
variable [DecidableEq R]

def networkSwapPacket (w : World R) (pkt1 pkt2 : Holder R) : World R :=
  { w with held := w.held ∘ Equiv.swap pkt1 pkt2 }

/-- `memcpy` to a buffer. -/
def memcpy (buf data : ℕ → Byte) (n : ℕ) : ℕ → Byte := fun i => if i < n then data i else buf i

def networkQueuePut (w : World R) (queue : Fin 4) (data : ℕ → Byte) (len : ℤ) : Option (World R × ℤ) :=
  if len = 0 ∨ maxFrame < len ∨ networkQueueFull w queue then some (w, 0)
  else if len < 0 then none
  else
    let slot := Holder.slot queue (w.head queue)
    let pkt := w.held slot
    some
      ({ w with
          buffer := Function.update w.buffer pkt.data (memcpy (w.buffer pkt.data) data len.toNat)
          held := Function.update w.held slot { pkt with len }
          head := Function.update w.head queue (w.head queue + 1) }, 1)

def networkQueuePutSwap (w : World R) (queue : Fin 4) (src : R) : World R × ℤ :=
  let len := (w.held (.record src)).len
  if len = 0 ∨ maxFrame < len ∨ networkQueueFull w queue then (w, 0)
  else
    ({ networkSwapPacket w (.record src) (.slot queue (w.head queue)) with
        head := Function.update w.head queue (w.head queue + 1) }, 1)

def networkQueueGetSwap (w : World R) (queue : Fin 4) (dst : R) : World R × ℤ :=
  if networkQueueEmpty w queue then (w, 0)
  else
    ({ networkSwapPacket w (.slot queue (w.tail queue)) (.record dst) with
        tail := Function.update w.tail queue (w.tail queue + 1) }, 1)

def networkQueueMove (w : World R) (dst src : Fin 4) : World R × ℤ :=
  if networkQueueEmpty w src then (w, 0)
  else if networkQueueFull w dst then (w, 0)
  else
    let w' := networkSwapPacket w (.slot src (w.tail src)) (.slot dst (w.head dst))
    ({ w' with
        head := Function.update w.head dst (w.head dst + 1)
        tail := Function.update w.tail src (w.tail src + 1) }, (w'.held (.slot dst (w.head dst))).len)

/-- A caller writes to the record it holds and to its buffer. -/
def fill (w : World R) (r : R) (data : ℕ → Byte) (len : ℤ) : World R :=
  let pkt := w.held (.record r)
  { w with
    buffer := Function.update w.buffer pkt.data (memcpy (w.buffer pkt.data) data maxFrame)
    held := Function.update w.held (.record r) { pkt with len } }

end

def bytes (data : ℕ → Byte) (len : ℤ) : List Byte := (List.range len.toNat).map data

def frame (w : World R) (h : Holder R) : List Byte := bytes (w.buffer (w.held h).data) (w.held h).len

/-- A queue's slots with what each holds. -/
def ring (w : World R) (queue : Fin 4) : SlotRing.Ring (Holder R) where
  slots i := .slot queue (Fin.ofNat 16 i)
  head := w.head queue
  tail := w.tail queue

def queued (w : World R) (queue : Fin 4) : List (Holder R) := contents 16 (ring w queue)

def frames (w : World R) (queue : Fin 4) : List (List Byte) := (queued w queue).map (frame w)

inductive Event (R : Type) where
  | put (queue : Fin 4) (data : ℕ → Byte) (len : ℤ)
  | putSwap (queue : Fin 4) (src : R)
  | getSwap (queue : Fin 4) (dst : R)
  | move (dst src : Fin 4)
  | fill (r : R) (data : ℕ → Byte) (len : ℤ)

def networkStep [DecidableEq R] (w : World R) : Event R → Option (World R × ℤ)
  | .put queue data len => networkQueuePut w queue data len
  | .putSwap queue src => some (networkQueuePutSwap w queue src)
  | .getSwap queue dst => some (networkQueueGetSwap w queue dst)
  | .move dst src => some (networkQueueMove w dst src)
  | .fill r data len => some (fill w r data len, 0)

def offered (w : World R) : Event R → Option (Fin 4 × List Byte)
  | .put queue data len => some (queue, bytes data len)
  | .putSwap queue src => some (queue, frame w (.record src))
  | .getSwap _ _ => none
  | .move dst src => some (dst, frame w (.slot src (w.tail src)))
  | .fill _ _ _ => none

/-- The frame a call has taken from a queue, where it has come to. -/
def taken (w w' : World R) : Event R → Option (Fin 4 × List Byte)
  | .put _ _ _ => none
  | .putSwap _ _ => none
  | .getSwap queue dst => some (queue, frame w' (.record dst))
  | .move dst src => some (src, frame w' (.slot dst (w.head dst)))
  | .fill _ _ _ => none

def logged (log : Fin 4 → List (List Byte)) : Option (Fin 4 × List Byte) → Fin 4 → List (List Byte)
  | none => log
  | some (queue, f) => Function.update log queue (log queue ++ [f])

/-- The queues, and the frames each has accepted and delivered. -/
structure Watched (R : Type) where
  world : World R
  accepted : Fin 4 → List (List Byte)
  delivered : Fin 4 → List (List Byte)

def watch [DecidableEq R] (x : Watched R) (e : Event R) : Option (Watched R × ℤ) :=
  (networkStep x.world e).map fun (w, ret) =>
    if ret = 0 then ({ x with world := w }, ret)
    else
      ({ world := w
         accepted := logged x.accepted (offered x.world e)
         delivered := logged x.delivered (taken x.world w e) }, ret)

structure Owned (w₀ w : World R) : Prop where
  apart : Function.Injective fun h => (w.held h).data
  kept : ∀ p, (∃ h, (w.held h).data = p) ↔ ∃ h, (w₀.held h).data = p

/-- A packet is where it was, and so is what its buffer holds. -/
structure Undisturbed (w w' : World R) (a : Holder R) : Prop where
  held : w'.held a = w.held a
  buffer : w'.buffer (w.held a).data = w.buffer (w.held a).data

def Accepts (w : World R) (queue : Fin 4) (len : ℤ) : Prop :=
  0 < len ∧ len ≤ maxFrame ∧ (frames w queue).length < 15

def Serves (x : Watched R) (e : Event R) (x' : Watched R) (ret : ℤ) : Prop :=
  match e with
  | .put queue data len =>
    (Accepts x.world queue len → ret = 1 ∧
      frames x'.world = Function.update (frames x.world) queue (frames x.world queue ++ [bytes data len]) ∧
      ∀ r, Undisturbed x.world x'.world (.record r)) ∧
    (¬Accepts x.world queue len → ret = 0 ∧ x' = x)
  | .putSwap queue src =>
    (Accepts x.world queue (x.world.held (.record src)).len → ret = 1 ∧
      frames x'.world =
        Function.update (frames x.world) queue (frames x.world queue ++ [frame x.world (.record src)]) ∧
      ∀ r, r ≠ src → Undisturbed x.world x'.world (.record r)) ∧
    (¬Accepts x.world queue (x.world.held (.record src)).len → ret = 0 ∧ x' = x)
  | .getSwap queue dst =>
    (∀ f fs, frames x.world queue = f :: fs → ret = 1 ∧
      frames x'.world = Function.update (frames x.world) queue fs ∧
      frame x'.world (.record dst) = f ∧ (x'.world.held (.record dst)).len = f.length ∧
      ∀ r, r ≠ dst → Undisturbed x.world x'.world (.record r)) ∧
    (frames x.world queue = [] → ret = 0 ∧ x' = x)
  | .move dst src =>
    (∀ f fs, frames x.world src = f :: fs → (frames x.world dst).length < 15 → ret = f.length ∧ ret ≠ 0 ∧
      frames x'.world =
        Function.update (Function.update (frames x.world) src fs) dst
          (Function.update (frames x.world) src fs dst ++ [f]) ∧
      ∀ r, Undisturbed x.world x'.world (.record r)) ∧
    (frames x.world src = [] ∨ (frames x.world dst).length = 15 → ret = 0 ∧ x' = x)
  | .fill r _ _ =>
    frames x'.world = frames x.world ∧ ∀ r', r' ≠ r → Undisturbed x.world x'.world (.record r')

/-- After a call every buffer has its one holder, and each queue has delivered what it has accepted but for what it
still holds. -/
structure Served (w₀ : World R) (x : Watched R) (e : Event R) (x' : Watched R) (ret : ℤ) : Prop where
  owned : Owned w₀ x'.world
  ordered : ∀ queue, x'.accepted queue = x'.delivered queue ++ frames x'.world queue
  serves : Serves x e x' ret

def queues [DecidableEq R] : Machine (Option (Watched R)) (Event R) ℤ where
  step s e :=
    match s with
    | none => (none, none)
    | some x =>
      match watch x e with
      | none => (none, none)
      | some (x', ret) => (some x', some ret)

/-- After `network_queue_init`, with a buffer of its own in each record. -/
structure Start (w : World R) : Prop where
  apart : Function.Injective fun h => (w.held h).data
  slots : ∀ queue i, (w.held (.slot queue i)).len = 0
  head : ∀ queue, w.head queue = 0
  tail : ∀ queue, w.tail queue = 0

def opened (w : World R) : Watched R where
  world := w
  accepted := fun _ => []
  delivered := fun _ => []

/-- No length below zero finds room. -/
def Fits (w : World R) : Event R → Prop
  | .put queue _ len => len < 0 → networkQueueFull w queue = true
  | .putSwap queue src => (w.held (.record src)).len < 0 → networkQueueFull w queue = true
  | _ => True

theorem within (w : World R) (queue : Fin 4) : Within 16 (ring w queue) :=
  ⟨(w.head queue).isLt, (w.tail queue).isLt⟩

theorem add_one_inj {i j : Fin 16} (h : i + 1 = j + 1) : i = j := by
  revert i j
  decide

theorem next_val (i : Fin 16) : next 16 i = (i + 1).val := (Fin.val_add i 1).symm

theorem full_ring (w : World R) (queue : Fin 4) : full 16 (ring w queue) = networkQueueFull w queue := by
  simp only [full, networkQueueFull, ring, next_val]
  exact decide_eq_decide.mpr Fin.ext_iff.symm

theorem empty_ring (w : World R) (queue : Fin 4) : empty (ring w queue) = networkQueueEmpty w queue := by
  simp only [empty, networkQueueEmpty, ring]
  exact decide_eq_decide.mpr Fin.ext_iff.symm

theorem length_frames (w : World R) (queue : Fin 4) : (frames w queue).length = used 16 (ring w queue) := by
  simp [frames, queued, contents]

theorem full_iff (w : World R) (queue : Fin 4) :
    networkQueueFull w queue = true ↔ (frames w queue).length = 15 := by
  rw [← full_ring, full_eq (within w queue), length_frames, decide_eq_true_iff]
  omega

theorem room_iff (w : World R) (queue : Fin 4) :
    networkQueueFull w queue = false ↔ (frames w queue).length < 15 := by
  have hlt := used_lt (within w queue)
  rw [← length_frames] at hlt
  rw [← Bool.not_eq_true, full_iff]
  omega

theorem empty_iff (w : World R) (queue : Fin 4) :
    networkQueueEmpty w queue = true ↔ frames w queue = [] := by
  rw [← empty_ring]
  constructor
  · intro h
    rw [frames, queued, contents_empty (within w queue) h]
    rfl
  · intro h
    by_contra hany
    exact contents_ne_nil (within w queue) (by simpa using hany) (List.map_eq_nil_iff.mp h)

theorem queued_congr {w w' : World R} {queue : Fin 4} (hhead : w'.head queue = w.head queue)
    (htail : w'.tail queue = w.tail queue) : queued w' queue = queued w queue := by
  simp only [queued, ring, hhead, htail]

theorem queued_head {w w' : World R} {queue : Fin 4} (hroom : networkQueueFull w queue = false)
    (hhead : w'.head queue = w.head queue + 1) (htail : w'.tail queue = w.tail queue) :
    queued w' queue = queued w queue ++ [.slot queue (w.head queue)] := by
  have hput := contents_put (within w queue) (full_ring w queue ▸ hroom) (Holder.slot queue (w.head queue))
  have hring : (put 16 (ring w queue) (Holder.slot queue (w.head queue))).1 = ring w' queue := by
    simp only [put, ring, next_val, hhead, htail, SlotRing.Ring.mk.injEq, and_true]
    apply Function.update_eq_self_iff.mpr
    simp
  rw [queued, ← hring, hput]
  rfl

theorem queued_tail {w w' : World R} {queue : Fin 4} (hany : networkQueueEmpty w queue = false)
    (hhead : w'.head queue = w.head queue) (htail : w'.tail queue = w.tail queue + 1) :
    queued w queue = .slot queue (w.tail queue) :: queued w' queue := by
  have hget := contents_get (within w queue) (empty_ring w queue ▸ hany) (Holder.slot queue (w.tail queue))
  have hring : (SlotRing.get 16 (ring w queue) (Holder.slot queue (w.tail queue))).1 = ring w' queue := by
    simp only [SlotRing.get, ring, next_val, hhead, htail, SlotRing.Ring.mk.injEq, and_true]
    apply Function.update_eq_self_iff.mpr
    simp
  rw [queued, hget, hring]
  simp [SlotRing.get, ring, queued]

theorem mem_queued {w : World R} {queue : Fin 4} {h : Holder R} (hmem : h ∈ queued w queue) :
    ∃ i, h = .slot queue i ∧ i ≠ w.head queue := by
  obtain ⟨k, hk, rfl⟩ := List.mem_map.mp hmem
  have hne := slot_ne_head (within w queue) (List.mem_range.mp hk)
  refine ⟨_, rfl, fun heq => hne ?_⟩
  have hval := congrArg Fin.val heq
  simpa [ring] using hval

theorem nodup_queued (w : World R) (queue : Fin 4) : (queued w queue).Nodup := by
  apply List.Nodup.map_on _ List.nodup_range
  intro i hi j hj hij
  have hi' := List.mem_range.mp hi
  have hj' := List.mem_range.mp hj
  have hlt := used_lt (within w queue)
  have hslot : ((ring w queue).tail + i) % 16 % 16 = ((ring w queue).tail + j) % 16 % 16 :=
    congrArg Fin.val (Holder.slot.inj hij).2
  omega

theorem Undisturbed.frame_eq {w w' : World R} {a : Holder R} (h : Undisturbed w w' a) : frame w' a = frame w a := by
  rw [frame, frame, h.held, h.buffer]

theorem length_frame (w : World R) (a : Holder R) : (frame w a).length = (w.held a).len.toNat := by
  simp [frame, bytes]

theorem bytes_memcpy (buf data : ℕ → Byte) (len : ℤ) : bytes (memcpy buf data len.toNat) len = bytes data len := by
  apply List.map_congr_left
  intro i hi
  rw [memcpy, if_pos (List.mem_range.mp hi)]

/-- The lengths in the slots in use are those of frames. -/
def Framed (w : World R) : Prop :=
  ∀ queue, ∀ a ∈ queued w queue, 0 < (w.held a).len ∧ (w.held a).len ≤ maxFrame

theorem frames_append {w w' : World R} {queue : Fin 4} (hroom : networkQueueFull w queue = false)
    (hhead : w'.head = Function.update w.head queue (w.head queue + 1)) (htail : w'.tail = w.tail)
    (hsame : ∀ q, ∀ a ∈ queued w q, Undisturbed w w' a) :
    frames w' =
      Function.update (frames w) queue (frames w queue ++ [frame w' (.slot queue (w.head queue))]) := by
  have hframe (q : Fin 4) : (queued w q).map (frame w') = frames w q :=
    List.map_congr_left fun a ha => (hsame q a ha).frame_eq
  funext q
  by_cases hq : q = queue
  · subst hq
    have hqueued := queued_head hroom (by rw [hhead, Function.update_self]) (by rw [htail])
    rw [Function.update_self, frames, hqueued, List.map_append, hframe]
    rfl
  · have hqueued : queued w' q = queued w q := queued_congr (by rw [hhead, Function.update_of_ne hq]) (by rw [htail])
    rw [Function.update_of_ne hq, frames, hqueued, hframe]

theorem framed_append {w w' : World R} {queue : Fin 4} (hroom : networkQueueFull w queue = false)
    (hhead : w'.head = Function.update w.head queue (w.head queue + 1)) (htail : w'.tail = w.tail)
    (hsame : ∀ q, ∀ a ∈ queued w q, Undisturbed w w' a) (h : Framed w)
    (hnew : 0 < (w'.held (.slot queue (w.head queue))).len ∧ (w'.held (.slot queue (w.head queue))).len ≤ maxFrame) :
    Framed w' := by
  intro q a ha
  by_cases hq : q = queue
  · subst hq
    rw [queued_head hroom (by rw [hhead, Function.update_self]) (by rw [htail])] at ha
    rcases List.mem_append.mp ha with ha | ha
    · rw [(hsame q a ha).held]
      exact h q a ha
    · rw [List.mem_singleton.mp ha]
      exact hnew
  · have hqueued : queued w' q = queued w q := queued_congr (by rw [hhead, Function.update_of_ne hq]) (by rw [htail])
    rw [hqueued] at ha
    rw [(hsame q a ha).held]
    exact h q a ha

def passed (w : World R) (queue : Fin 4) : World R :=
  { w with tail := Function.update w.tail queue (w.tail queue + 1) }

theorem queued_passed {w : World R} {queue : Fin 4} (hany : networkQueueEmpty w queue = false) :
    queued w queue = .slot queue (w.tail queue) :: queued (passed w queue) queue :=
  queued_tail hany rfl (Function.update_self ..)

theorem queued_passed_of_ne (w : World R) {queue q : Fin 4} (hq : q ≠ queue) :
    queued (passed w queue) q = queued w q :=
  queued_congr rfl (Function.update_of_ne hq ..)

theorem frames_passed {w : World R} {queue : Fin 4} (hany : networkQueueEmpty w queue = false) :
    frames w queue = frame w (.slot queue (w.tail queue)) :: frames (passed w queue) queue := by
  rw [frames, queued_passed hany]
  rfl

theorem frames_passed_eq {w : World R} {queue : Fin 4} :
    frames (passed w queue) = Function.update (frames w) queue (frames (passed w queue) queue) := by
  funext q
  by_cases hq : q = queue
  · subst hq
    rw [Function.update_self]
  · rw [Function.update_of_ne hq, frames, queued_passed_of_ne w hq]
    rfl

theorem mem_of_passed {w : World R} {queue q : Fin 4} (hany : networkQueueEmpty w queue = false) {a : Holder R}
    (ha : a ∈ queued (passed w queue) q) : a ∈ queued w q := by
  by_cases hq : q = queue
  · subst hq
    rw [queued_passed hany]
    exact List.mem_cons_of_mem _ ha
  · rwa [queued_passed_of_ne w hq] at ha

theorem ne_of_passed {w : World R} {queue q : Fin 4} (hany : networkQueueEmpty w queue = false) {a : Holder R}
    (ha : a ∈ queued (passed w queue) q) : a ≠ .slot queue (w.tail queue) := by
  rintro rfl
  obtain ⟨i, heq, -⟩ := mem_queued ha
  obtain ⟨rfl, -⟩ := Holder.slot.inj heq
  have hnodup := nodup_queued w queue
  rw [queued_passed hany] at hnodup
  exact (List.nodup_cons.mp hnodup).1 ha

theorem ne_head {w : World R} {queue q : Fin 4} {a : Holder R} (ha : a ∈ queued w q) :
    a ≠ .slot queue (w.head queue) := by
  obtain ⟨i, rfl, hi⟩ := mem_queued ha
  intro heq
  obtain ⟨rfl, rfl⟩ := Holder.slot.inj heq
  exact hi rfl

theorem ne_record {w : World R} {q : Fin 4} {a : Holder R} (ha : a ∈ queued w q) (r : R) : a ≠ .record r := by
  obtain ⟨i, rfl, -⟩ := mem_queued ha
  intro heq
  cases heq

theorem owned_data {w₀ w w' : World R} (h : Owned w₀ w) (hdata : ∀ a, (w'.held a).data = (w.held a).data) :
    Owned w₀ w' := by
  refine ⟨fun a b hab => h.apart ?_, fun p => ?_⟩
  · simpa only [hdata] using hab
  · simpa only [hdata] using h.kept p

theorem accepts_iff {w : World R} {queue : Fin 4} {len : ℤ} (hfits : len < 0 → networkQueueFull w queue = true) :
    ¬(len = 0 ∨ maxFrame < len ∨ networkQueueFull w queue = true) ↔ Accepts w queue len := by
  rw [Accepts, ← room_iff]
  cases hfull : networkQueueFull w queue with
  | true => simp
  | false =>
    rw [hfull] at hfits
    simp only [Bool.false_eq_true, imp_false] at hfits
    simp only [Bool.false_eq_true, or_false, and_true]
    omega

structure Sound (w₀ : World R) (x : Watched R) : Prop where
  owned : Owned w₀ x.world
  ordered : ∀ queue, x.accepted queue = x.delivered queue ++ frames x.world queue
  framed : Framed x.world

theorem start_sound {w : World R} (h : Start w) : Sound w (opened w) := by
  have hqueued (q : Fin 4) : networkQueueEmpty w q = true := by
    simp [networkQueueEmpty, h.head, h.tail]
  have hnone (q : Fin 4) : frames w q = [] := (empty_iff w q).mp (hqueued q)
  refine ⟨⟨h.apart, fun p => Iff.rfl⟩, fun q => (hnone q).symm, fun q a ha => ?_⟩
  change a ∈ queued w q at ha
  rw [List.map_eq_nil_iff.mp (hnone q)] at ha
  cases ha

section
variable [DecidableEq R]

theorem owned_swap {w₀ w w' : World R} (h : Owned w₀ w) (a b : Holder R)
    (hheld : w'.held = w.held ∘ Equiv.swap a b) : Owned w₀ w' := by
  refine ⟨fun c d hcd => ?_, fun p => ?_⟩
  · rw [hheld] at hcd
    exact (Equiv.swap a b).injective (h.apart hcd)
  · rw [← h.kept p, hheld]
    constructor
    · rintro ⟨c, hc⟩
      exact ⟨Equiv.swap a b c, hc⟩
    · rintro ⟨c, hc⟩
      refine ⟨Equiv.swap a b c, ?_⟩
      rw [Function.comp_apply, Equiv.swap_apply_self]
      exact hc

theorem undisturbed_swap {w w' : World R} {a b : Holder R} (hheld : w'.held = w.held ∘ Equiv.swap a b)
    (hbuffer : w'.buffer = w.buffer) {c : Holder R} (ha : c ≠ a) (hb : c ≠ b) : Undisturbed w w' c := by
  refine ⟨?_, by rw [hbuffer]⟩
  rw [hheld, Function.comp_apply, Equiv.swap_apply_of_ne_of_ne ha hb]

theorem undisturbed_write {w₀ w w' : World R} (h : Owned w₀ w) {a : Holder R} {pkt : Netpkt} {buf : ℕ → Byte}
    (hheld : w'.held = Function.update w.held a pkt)
    (hbuffer : w'.buffer = Function.update w.buffer (w.held a).data buf) {b : Holder R} (hb : b ≠ a) :
    Undisturbed w w' b := by
  have hdata : (w.held b).data ≠ (w.held a).data := fun heq => hb (h.apart heq)
  constructor
  · rw [hheld, Function.update_of_ne hb]
  · rw [hbuffer, Function.update_of_ne hdata]

def Answers (w₀ : World R) (x : Watched R) (e : Event R) : Prop :=
  ∃ x' ret, watch x e = some (x', ret) ∧ Sound w₀ x' ∧ Serves x e x' ret

theorem put_answers {w₀ : World R} {x : Watched R} {queue : Fin 4} {data : ℕ → Byte} {len : ℤ}
    (h : Sound w₀ x) (hfits : Fits x.world (.put queue data len)) : Answers w₀ x (.put queue data len) := by
  have haccepts : _ ↔ Accepts x.world queue len := accepts_iff hfits
  by_cases hrefused : len = 0 ∨ maxFrame < len ∨ networkQueueFull x.world queue = true
  · refine ⟨x, 0, ?_, h, fun ha => absurd hrefused (haccepts.mpr ha), fun _ => ⟨rfl, rfl⟩⟩
    simp [watch, networkStep, networkQueuePut, hrefused]
  · have ha := haccepts.mp hrefused
    have hroom := (room_iff x.world queue).mpr ha.2.2
    have hpositive : ¬len < 0 := by
      have hlen := ha.1
      omega
    let slot : Holder R := .slot queue (x.world.head queue)
    let w' : World R :=
      { x.world with
        buffer := Function.update x.world.buffer (x.world.held slot).data
          (memcpy (x.world.buffer (x.world.held slot).data) data len.toNat)
        held := Function.update x.world.held slot { x.world.held slot with len }
        head := Function.update x.world.head queue (x.world.head queue + 1) }
    have hwatch : watch x (.put queue data len) =
        some (⟨w', logged x.accepted (some (queue, bytes data len)), x.delivered⟩, 1) := by
      simp only [watch, networkStep, networkQueuePut, hrefused, hpositive, if_false, Option.map_some, offered, taken,
        logged]
      rfl
    have hself : w'.held slot = { x.world.held slot with len } := Function.update_self ..
    have hsame {a : Holder R} (ha : a ≠ slot) : Undisturbed x.world w' a := undisturbed_write h.owned rfl rfl ha
    have hhead : w'.head = Function.update x.world.head queue (x.world.head queue + 1) := rfl
    have htail : w'.tail = x.world.tail := rfl
    have hqueued (q : Fin 4) (a : Holder R) (ha : a ∈ queued x.world q) : Undisturbed x.world w' a :=
      hsame (ne_head ha)
    have hnew : frame w' slot = bytes data len := by
      have hbuffer : w'.buffer (x.world.held slot).data = memcpy (x.world.buffer (x.world.held slot).data) data len.toNat :=
        Function.update_self ..
      rw [frame, hself, hbuffer]
      exact bytes_memcpy _ _ _
    have hframes : frames w' = Function.update (frames x.world) queue (frames x.world queue ++ [bytes data len]) := by
      rw [frames_append hroom hhead htail hqueued, hnew]
    refine ⟨_, _, hwatch, ⟨?_, ?_, ?_⟩, fun _ => ⟨rfl, hframes, fun r => hsame (by simp [slot])⟩, (absurd ha ·)⟩
    · apply owned_data h.owned
      intro a
      by_cases ha : a = slot
      · rw [ha, hself]
      · rw [(hsame ha).held]
    · intro q
      simp only [hframes, logged]
      by_cases hq : q = queue
      · subst hq
        rw [Function.update_self, Function.update_self, h.ordered, List.append_assoc]
      · rw [Function.update_of_ne hq, Function.update_of_ne hq, h.ordered]
    · apply framed_append hroom hhead htail hqueued h.framed
      rw [hself]
      exact ⟨ha.1, ha.2.1⟩

theorem putSwap_answers {w₀ : World R} {x : Watched R} {queue : Fin 4} {src : R} (h : Sound w₀ x)
    (hfits : Fits x.world (.putSwap queue src)) : Answers w₀ x (.putSwap queue src) := by
  have haccepts : _ ↔ Accepts x.world queue (x.world.held (.record src)).len := accepts_iff hfits
  by_cases hrefused : (x.world.held (.record src)).len = 0 ∨ maxFrame < (x.world.held (.record src)).len ∨
      networkQueueFull x.world queue = true
  · refine ⟨x, 0, ?_, h, fun ha => absurd hrefused (haccepts.mpr ha), fun _ => ⟨rfl, rfl⟩⟩
    simp [watch, networkStep, networkQueuePutSwap, hrefused]
  · have ha := haccepts.mp hrefused
    have hroom := (room_iff x.world queue).mpr ha.2.2
    let slot : Holder R := .slot queue (x.world.head queue)
    let w' : World R :=
      { networkSwapPacket x.world (.record src) slot with
        head := Function.update x.world.head queue (x.world.head queue + 1) }
    have hwatch : watch x (.putSwap queue src) =
        some (⟨w', logged x.accepted (some (queue, frame x.world (.record src))), x.delivered⟩, 1) := by
      simp only [watch, networkStep, networkQueuePutSwap, hrefused, if_false, Option.map_some, offered, taken, logged]
      rfl
    have hself : w'.held slot = x.world.held (.record src) :=
      congrArg x.world.held (Equiv.swap_apply_right (Holder.record src) slot)
    have hheld : w'.held = x.world.held ∘ Equiv.swap (.record src) slot := rfl
    have hbuffer : w'.buffer = x.world.buffer := rfl
    have hhead : w'.head = Function.update x.world.head queue (x.world.head queue + 1) := rfl
    have htail : w'.tail = x.world.tail := rfl
    have hqueued (q : Fin 4) (a : Holder R) (ha : a ∈ queued x.world q) : Undisturbed x.world w' a :=
      undisturbed_swap hheld hbuffer (ne_record ha src) (ne_head ha)
    have hnew : frame w' slot = frame x.world (.record src) := by
      rw [frame, hself]
      rfl
    have hframes : frames w' =
        Function.update (frames x.world) queue (frames x.world queue ++ [frame x.world (.record src)]) := by
      rw [frames_append hroom hhead htail hqueued, hnew]
    refine ⟨_, _, hwatch, ⟨owned_swap h.owned (.record src) slot hheld, ?_, ?_⟩,
      fun _ => ⟨rfl, hframes, fun r hr => ?_⟩, (absurd ha ·)⟩
    · intro q
      simp only [hframes, logged]
      by_cases hq : q = queue
      · subst hq
        rw [Function.update_self, Function.update_self, h.ordered, List.append_assoc]
      · rw [Function.update_of_ne hq, Function.update_of_ne hq, h.ordered]
    · apply framed_append hroom hhead htail hqueued h.framed
      rw [hself]
      exact ⟨ha.1, ha.2.1⟩
    · exact undisturbed_swap hheld hbuffer (by simpa using hr) (by simp [slot])

theorem getSwap_answers {w₀ : World R} {x : Watched R} {queue : Fin 4} {dst : R} (h : Sound w₀ x) :
    Answers w₀ x (.getSwap queue dst) := by
  cases hany : networkQueueEmpty x.world queue with
  | true =>
    have hnone := (empty_iff x.world queue).mp hany
    refine ⟨x, 0, ?_, h, fun f fs hfs => ?_, fun _ => ⟨rfl, rfl⟩⟩
    · simp [watch, networkStep, networkQueueGetSwap, hany]
    · rw [hnone] at hfs
      cases hfs
  | false =>
    let slot : Holder R := .slot queue (x.world.tail queue)
    let w' : World R :=
      { networkSwapPacket x.world slot (.record dst) with
        tail := Function.update x.world.tail queue (x.world.tail queue + 1) }
    have hself : w'.held (.record dst) = x.world.held slot :=
      congrArg x.world.held (Equiv.swap_apply_right slot (Holder.record dst))
    have hgot : frame w' (.record dst) = frame x.world slot := by
      rw [frame, hself]
      rfl
    have hwatch : watch x (.getSwap queue dst) =
        some (⟨w', x.accepted, logged x.delivered (some (queue, frame x.world slot))⟩, 1) := by
      simp only [watch, networkStep, networkQueueGetSwap, hany, Bool.false_eq_true, if_false, Option.map_some, offered,
        taken, logged, ← hgot]
      rfl
    have hheld : w'.held = x.world.held ∘ Equiv.swap slot (.record dst) := rfl
    have hbuffer : w'.buffer = x.world.buffer := rfl
    have hqueued (q : Fin 4) : queued w' q = queued (passed x.world queue) q := queued_congr rfl rfl
    have hsame (q : Fin 4) (a : Holder R) (ha : a ∈ queued (passed x.world queue) q) : Undisturbed x.world w' a :=
      undisturbed_swap hheld hbuffer (ne_of_passed hany ha) (ne_record ha dst)
    have hframes : frames w' = Function.update (frames x.world) queue (frames (passed x.world queue) queue) := by
      rw [← frames_passed_eq]
      funext q
      rw [frames, hqueued]
      exact List.map_congr_left fun a ha => (hsame q a ha).frame_eq
    refine ⟨_, _, hwatch, ⟨owned_swap h.owned slot (.record dst) hheld, ?_, ?_⟩, fun f fs hfs => ?_, fun hnone => ?_⟩
    · intro q
      simp only [hframes, logged]
      by_cases hq : q = queue
      · subst hq
        rw [Function.update_self, Function.update_self, h.ordered, frames_passed hany, List.append_assoc]
        rfl
      · rw [Function.update_of_ne hq, Function.update_of_ne hq, h.ordered]
    · intro q a ha
      rw [hqueued] at ha
      rw [(hsame q a ha).held]
      exact h.framed q a (mem_of_passed hany ha)
    · rw [frames_passed hany] at hfs
      obtain ⟨rfl, rfl⟩ := List.cons.inj hfs
      have hlen := h.framed queue slot (by rw [queued_passed hany]; exact List.mem_cons_self ..)
      refine ⟨rfl, hframes, hgot, ?_, fun r hr => undisturbed_swap hheld hbuffer (by simp [slot]) (by simpa using hr)⟩
      rw [hself, length_frame]
      change _ = ((x.world.held slot).len.toNat : ℤ)
      omega
    · rw [frames_passed hany] at hnone
      cases hnone

theorem move_answers {w₀ : World R} {x : Watched R} {dst src : Fin 4} (h : Sound w₀ x) :
    Answers w₀ x (.move dst src) := by
  have hrefusal (hrefused : networkQueueEmpty x.world src = true ∨ networkQueueFull x.world dst = true) :
      Answers w₀ x (.move dst src) := by
    refine ⟨x, 0, ?_, h, fun f fs hfs hroom => ?_, fun _ => ⟨rfl, rfl⟩⟩
    · rcases hrefused with hnone | hfull <;> simp [watch, networkStep, networkQueueMove, *]
    · rcases hrefused with hnone | hfull
      · rw [(empty_iff x.world src).mp hnone] at hfs
        cases hfs
      · have hlen := (full_iff x.world dst).mp hfull
        omega
  cases hany : networkQueueEmpty x.world src with
  | true => exact hrefusal (Or.inl hany)
  | false =>
    cases hroom : networkQueueFull x.world dst with
    | true => exact hrefusal (Or.inr hroom)
    | false =>
      let oldest : Holder R := .slot src (x.world.tail src)
      let place : Holder R := .slot dst (x.world.head dst)
      let w' : World R :=
        { networkSwapPacket x.world oldest place with
          head := Function.update x.world.head dst (x.world.head dst + 1)
          tail := Function.update x.world.tail src (x.world.tail src + 1) }
      have hself : w'.held place = x.world.held oldest := congrArg x.world.held (Equiv.swap_apply_right oldest place)
      have hmoved : frame w' place = frame x.world oldest := by
        rw [frame, hself]
        rfl
      have hlen := h.framed src oldest (by rw [queued_passed hany]; exact List.mem_cons_self ..)
      have hret : (w'.held place).len ≠ 0 := by
        rw [hself]
        omega
      have hwatch : watch x (.move dst src) =
          some (⟨w', logged x.accepted (some (dst, frame x.world oldest)),
            logged x.delivered (some (src, frame x.world oldest))⟩, (w'.held place).len) := by
        have hstep : networkQueueMove x.world dst src = (w', (w'.held place).len) := by
          simp only [networkQueueMove, hany, hroom, Bool.false_eq_true, if_false]
          rfl
        have htaken : taken x.world w' (.move dst src) = some (src, frame x.world oldest) :=
          congrArg (fun f => some (src, f)) hmoved
        simp only [watch, networkStep, hstep, Option.map_some, hret, if_false, htaken]
        rfl
      have hqueued (q : Fin 4) (a : Holder R) (ha : a ∈ queued (passed x.world src) q) :
          Undisturbed (passed x.world src) w' a := by
        have hheld : w'.held = (passed x.world src).held ∘ Equiv.swap oldest place := rfl
        exact undisturbed_swap hheld rfl (ne_of_passed hany ha) (ne_head (w := passed x.world src) ha)
      have hroom' : networkQueueFull (passed x.world src) dst = false := by
        by_cases hdst : dst = src
        · subst hdst
          simp only [networkQueueEmpty, decide_eq_false_iff_not] at hany
          simpa [networkQueueFull, passed] using fun heq => hany (add_one_inj heq)
        · simpa [networkQueueFull, passed, hdst] using hroom
      have hhead : w'.head = Function.update (passed x.world src).head dst ((passed x.world src).head dst + 1) := rfl
      have htail : w'.tail = (passed x.world src).tail := rfl
      have hframes : frames w' =
          Function.update (frames (passed x.world src)) dst
            (frames (passed x.world src) dst ++ [frame x.world oldest]) := by
        rw [frames_append hroom' hhead htail hqueued, ← hmoved]
        rfl
      have hframed : Framed (passed x.world src) := fun q a ha => h.framed q a (mem_of_passed hany ha)
      refine ⟨_, _, hwatch, ⟨owned_swap h.owned oldest place rfl, fun q => ?_, ?_⟩, fun f fs hfs _ => ?_, fun hno => ?_⟩
      · have hord : x.accepted q =
            logged x.delivered (some (src, frame x.world oldest)) q ++ frames (passed x.world src) q := by
          rw [logged]
          by_cases hq : q = src
          · subst hq
            rw [Function.update_self, h.ordered, frames_passed hany, List.append_assoc]
            rfl
          · rw [Function.update_of_ne hq, h.ordered, frames_passed_eq, Function.update_of_ne hq]
        simp only [hframes]
        by_cases hq : q = dst
        · subst hq
          rw [Function.update_self, ← List.append_assoc, ← hord]
          exact Function.update_self ..
        · rw [Function.update_of_ne hq, ← hord]
          exact Function.update_of_ne hq ..
      · apply framed_append hroom' hhead htail hqueued hframed
        have hplace : w'.held (.slot dst ((passed x.world src).head dst)) = x.world.held oldest := hself
        rw [hplace]
        exact hlen
      · rw [frames_passed hany] at hfs
        obtain ⟨rfl, rfl⟩ := List.cons.inj hfs
        have hheld : w'.held = x.world.held ∘ Equiv.swap oldest place := rfl
        refine ⟨?_, hret, ?_, fun r => undisturbed_swap hheld rfl (by simp [oldest]) (by simp [place])⟩
        · rw [hself, length_frame]
          change _ = ((x.world.held oldest).len.toNat : ℤ)
          omega
        · rw [hframes, ← frames_passed_eq]
      · rw [← empty_iff, ← full_iff, hany, hroom] at hno
        simp at hno

theorem fill_answers {w₀ : World R} {x : Watched R} {r : R} {data : ℕ → Byte} {len : ℤ} (h : Sound w₀ x) :
    Answers w₀ x (.fill r data len) := by
  let w' : World R := fill x.world r data len
  have hwatch : watch x (.fill r data len) = some ({ x with world := w' }, 0) := rfl
  have hself : w'.held (.record r) = { x.world.held (.record r) with len } := Function.update_self ..
  have hheld : w'.held = Function.update x.world.held (.record r) { x.world.held (.record r) with len } := rfl
  have hsame {a : Holder R} (ha : a ≠ .record r) : Undisturbed x.world w' a := undisturbed_write h.owned hheld rfl ha
  have hqueued (q : Fin 4) : queued w' q = queued x.world q := queued_congr rfl rfl
  have hframes : frames w' = frames x.world := by
    funext q
    rw [frames, hqueued]
    exact List.map_congr_left fun a ha => (hsame (ne_record ha r)).frame_eq
  refine ⟨_, _, hwatch, ⟨?_, fun q => ?_, ?_⟩, hframes, fun r' hr' => hsame (by simpa using hr')⟩
  · apply owned_data h.owned
    intro a
    by_cases ha : a = .record r
    · rw [ha, hself]
    · rw [(hsame ha).held]
  · rw [hframes]
    exact h.ordered q
  · intro q a ha
    rw [hqueued] at ha
    rw [(hsame (ne_record ha r)).held]
    exact h.framed q a ha

theorem answers {w₀ : World R} {x : Watched R} (h : Sound w₀ x) (e : Event R) (hfits : Fits x.world e) :
    Answers w₀ x e := by
  cases e with
  | put queue data len => exact put_answers h hfits
  | putSwap queue src => exact putSwap_answers h hfits
  | getSwap queue dst => exact getSwap_answers h
  | move dst src => exact move_answers h
  | fill r data len => exact fill_answers h

theorem fits_of_serves {x x' : Watched R} {e : Event R} {ret : ℤ} (hwatch : watch x e = some (x', ret))
    (hserves : Serves x e x' ret) : Fits x.world e := by
  cases e with
  | put queue data len =>
    intro hneg
    by_contra hroom
    have hnone : watch x (.put queue data len) = none := by
      have hlen : ¬(len = 0 ∨ (maxFrame : ℤ) < len) := by omega
      have hlen' : ¬(len = 0 ∨ (maxFrame : ℤ) < len ∨ networkQueueFull x.world queue = true) := by
        rintro (h | h | h)
        · exact hlen (Or.inl h)
        · exact hlen (Or.inr h)
        · exact hroom h
      simp [watch, networkStep, networkQueuePut, hlen', hneg]
    rw [hnone] at hwatch
    cases hwatch
  | putSwap queue src =>
    intro hneg
    by_contra hroom
    have hlen : ¬((x.world.held (.record src)).len = 0 ∨ (maxFrame : ℤ) < (x.world.held (.record src)).len ∨
        networkQueueFull x.world queue = true) := by
      rintro (h | h | h)
      · omega
      · omega
      · exact hroom h
    have hno : ¬Accepts x.world queue (x.world.held (.record src)).len := by
      rintro ⟨hpos, -⟩
      omega
    have hret := (hserves.2 hno).1
    simp [watch, networkStep, networkQueuePutSwap, hlen] at hwatch
    omega
  | getSwap queue dst => trivial
  | move dst src => trivial
  | fill r data len => trivial

/-- The queues keep every buffer in one place and every frame in order, call by call, as long as a length below zero
comes only to a full queue. -/
theorem queues_iff {w : World R} (h : Start w) (es : List (Event R)) :
    (∀ before e after, es = before ++ e :: after →
      ∃ x x' ret, queues.run (some (opened w)) before = some x ∧ watch x e = some (x', ret) ∧ Served w x e x' ret) ↔
      queues.Along (fun s e => ∀ x, s = some x → Fits x.world e) (some (opened w)) es := by
  have hnext {x x' : Watched R} {e : Event R} {ret : ℤ} (hwatch : watch x e = some (x', ret)) :
      queues.next (some x) e = some x' := by
    simp [Machine.next, queues, hwatch]
  let inv (s : Option (Watched R)) : Prop := ∃ x, s = some x ∧ Sound w x
  let served (s : Option (Watched R)) (e : Event R) : Prop :=
    ∃ x x' ret, s = some x ∧ watch x e = some (x', ret) ∧ Served w x e x' ret
  have hinv : inv (some (opened w)) := ⟨opened w, rfl, start_sound h⟩
  apply queues.along_iff_steps (I := inv) (P := served) _ _ _ hinv
  · rintro s e hfits ⟨x, rfl, hx⟩
    obtain ⟨x', ret, hwatch, hx', -⟩ := answers hx e (hfits x rfl)
    exact ⟨x', hnext hwatch, hx'⟩
  · rintro s e hfits ⟨x, rfl, hx⟩
    obtain ⟨x', ret, hwatch, hx', hserves⟩ := answers hx e (hfits x rfl)
    exact ⟨x, x', ret, rfl, hwatch, hx'.owned, hx'.ordered, hserves⟩
  · rintro s e - ⟨x, x', ret, rfl, hwatch, hserved⟩ y hy
    cases hy
    exact fits_of_serves hwatch hserved.serves

end

/-- One record beside the queues. -/
def single : World Unit where
  buffer := fun _ _ => 0
  held := fun a =>
    match a with
    | .record () => { data := 64, len := 0 }
    | .slot queue i => { data := 16 * queue + i, len := 0 }
  head := fun _ => 0
  tail := fun _ => 0

theorem single_start : Start single where
  apart := by
    intro a b hab
    cases a with
    | record r =>
      cases b with
      | record r' => rfl
      | slot queue i =>
        simp only [single] at hab
        omega
    | slot queue i =>
      cases b with
      | record r =>
        simp only [single] at hab
        omega
      | slot queue' i' =>
        simp only [single] at hab
        have hq : queue = queue' := by omega
        have hi : i = i' := by omega
        rw [hq, hi]
  slots _ _ := rfl
  head _ := rfl
  tail _ := rfl

/-- A frame that is put, moved on and taken. -/
theorem queues_iff_single :
    (single.head 0 = 0) ∧ ∀ before e after,
      [Event.put 1 (fun _ => 7) 60, .move 2 1, .getSwap 2 ()] = before ++ e :: after →
      ∃ x x' ret, queues.run (some (opened single)) before = some x ∧ watch x e = some (x', ret) ∧
        Served single x e x' ret := by
  refine ⟨rfl, (queues_iff single_start _).mpr ⟨?_, ?_, ?_, trivial⟩⟩
  · intro x _ hneg
    change (60 : ℤ) < 0 at hneg
    omega
  · intro x _
    trivial
  · intro x _
    trivial

/-- A record whose length is below zero is queued and delivered. -/
theorem negative_length_queued :
    ¬∀ w : World Unit, Start w → ∀ es before e after, es = before ++ e :: after →
      ∃ x x' ret, queues.run (some (opened w)) before = some x ∧ watch x e = some (x', ret) ∧
        Served w x e x' ret := by
  intro h
  have hall := h single single_start [.fill () (fun _ => 0) (-1), .putSwap 0 ()]
  obtain ⟨x, x', ret, hx, hwatch, hserved⟩ := hall [.fill () (fun _ => 0) (-1)] (.putSwap 0 ()) [] rfl
  cases hx
  have hfull : networkQueueFull (fill single () (fun _ => 0) (-1)) 0 = true :=
    fits_of_serves hwatch hserved.serves (by decide)
  simp [networkQueueFull, fill, single] at hfull

end PeepeeBox.PacketQueues
