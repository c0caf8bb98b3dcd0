import PeepeeBox.EventFifo

set_option autoImplicit false

/-!
# A FIFO of tagged bytes

The operations of `fifo.c` that keep a tag with each byte.  The owner's functions do not look at the tags.
-/
namespace PeepeeBox.TaggedFifo
open EventFifo

structure Tagged where
  fifo : Fifo
  tag : ℕ → Byte

variable {S : Type}

def fifoWriteEvtTagged (evts : Events S) (tag val : Byte) (f : Tagged) (s : S) : Tagged × S :=
  let (g, s) := fifoWriteEvt evts val f.fifo s
  (⟨g, if f.fifo.full then f.tag else Function.update f.tag f.fifo.end_ tag⟩, s)

def fifoReadEvtTagged (evts : Events S) (f : Tagged) (s : S) : Byte × Byte × Tagged × S :=
  let (val, g, s) := fifoReadEvt evts f.fifo s
  (if f.fifo.empty then 0 else f.tag f.fifo.start, val, ⟨g, f.tag⟩, s)

def fifoReset (f : Tagged) : Tagged := { f with fifo := EventFifo.fifoReset f.fifo }

def fifoInit (len triggerLen : ℕ) : Tagged :=
  ⟨{ EventFifo.fifoInit len with triggerLen := triggerLen }, fun _ => 0⟩

def tags (f : Tagged) : List Byte := window f.tag f.fifo.len f.fifo.start (fifoGetCount f.fifo)

structure Marked (tag : Byte) (f : Tagged) : Prop where
  sound : Sound f.fifo
  all : ∀ t ∈ tags f, t = tag

theorem marked_empty {tag : Byte} {f : Tagged} (hs : Sound f.fifo) (h : contents f.fifo = []) : Marked tag f := by
  refine ⟨hs, fun t ht => ?_⟩
  have hnone : fifoGetCount f.fifo = 0 := by
    rw [← contents_length, h]
    rfl
  unfold tags at ht
  rw [hnone] at ht
  exact absurd ht List.not_mem_nil

section
variable {evts : Events S} {tag val : Byte} {f : Tagged}

theorem Marked.write (h : Marked tag f) (hroom : f.fifo.full = false) (s : S) :
    Marked tag (fifoWriteEvtTagged evts tag val f s).1 ∧
      contents (fifoWriteEvtTagged evts tag val f s).1.fifo = contents f.fifo ++ [val] := by
  have hwrote := write_room evts val hroom s
  have hcount := h.sound.count_le
  have hnot : fifoGetCount f.fifo ≠ f.fifo.len := fun heq => by simp [h.sound.full_iff.mpr heq] at hroom
  refine ⟨⟨hwrote.sound h.sound, fun t ht => ?_⟩, hwrote.contents h.sound hroom⟩
  have htags : tags (fifoWriteEvtTagged evts tag val f s).1 = tags f ++ [tag] := by
    unfold tags
    change window (if f.fifo.full then f.tag else Function.update f.tag f.fifo.end_ tag)
      (fifoWriteEvt evts val f.fifo s).1.len (fifoWriteEvt evts val f.fifo s).1.start
        (fifoGetCount (fifoWriteEvt evts val f.fifo s).1) = _
    rw [if_neg (by simp [hroom]), hwrote.len, hwrote.start, hwrote.count h.sound hroom, ← end_slot h.sound hroom]
    exact window_snoc f.tag (by omega) tag
  rw [htags] at ht
  rcases List.mem_append.mp ht with hold | hnew
  · exact h.all t hold
  · exact List.mem_singleton.mp hnew

theorem Marked.read (h : Marked tag f) (hany : f.fifo.empty = false) (s : S) :
    ∃ val, (fifoReadEvtTagged evts f s).1 = tag ∧ (fifoReadEvtTagged evts f s).2.1 = val ∧
      Marked tag (fifoReadEvtTagged evts f s).2.2.1 ∧
        contents f.fifo = val :: contents (fifoReadEvtTagged evts f s).2.2.1.fifo := by
  obtain ⟨hval, htook⟩ := read_some evts h.sound hany s
  have htags : tags f = f.tag f.fifo.start :: tags (fifoReadEvtTagged evts f s).2.2.1 := by
    unfold tags
    change _ = _ :: window f.tag (fifoReadEvt evts f.fifo s).2.1.len (fifoReadEvt evts f.fifo s).2.1.start
      (fifoGetCount (fifoReadEvt evts f.fifo s).2.1)
    rw [htook.count h.sound hany, htook.len, htook.start]
    exact window_cons f.tag h.sound.start _
  refine ⟨f.fifo.buf f.fifo.start, ?_, hval, ⟨htook.sound h.sound, fun t ht => h.all t ?_⟩,
    htook.contents h.sound hany⟩
  · refine (if_neg (by simp [hany])).trans (h.all _ ?_)
    rw [htags]
    exact List.mem_cons_self
  · rw [htags]
    exact List.mem_cons_of_mem _ ht

end

end PeepeeBox.TaggedFifo
