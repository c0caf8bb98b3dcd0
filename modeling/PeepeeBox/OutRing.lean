import PeepeeBox.AtParser
import PeepeeBox.SlotRing

set_option autoImplicit false

/-!
# The ring to the DTE

`out`, `out_head` and `out_tail` of `char_modem.c`, against the queue that the modem's state keeps
of them: what is put in comes out in order, and a byte put in leaves those not yet read alone.
-/
namespace PeepeeBox.OutRing
open CharModem AtParser SlotRing

structure Buffer where
  out : ℕ → Byte
  outHead : BitVec 32
  outTail : BitVec 32
  head_lt : outHead.toNat < modemOutSize
  tail_lt : outTail.toNat < modemOutSize

def empty : Buffer :=
  { out := fun _ => 0, outHead := 0, outTail := 0, head_lt := by decide, tail_lt := by decide }

def after (i : BitVec 32) : BitVec 32 := (i + 1) % 4096

theorem after_toNat {i : BitVec 32} (h : i.toNat < modemOutSize) :
    (after i).toNat = SlotRing.next modemOutSize i.toNat := by
  change i.toNat < 4096 at h
  change (after i).toNat = (i.toNat + 1) % 4096
  unfold after
  rw [BitVec.toNat_umod, BitVec.toNat_add]
  change (i.toNat + 1) % 2 ^ 32 % 4096 = (i.toNat + 1) % 4096
  omega

theorem after_lt (i : BitVec 32) : (after i).toNat < modemOutSize := by
  change ((i + 1) % 4096 : BitVec 32).toNat < 4096
  rw [BitVec.toNat_umod]
  exact Nat.mod_lt _ (by decide)

/-- `modem_out_byte`: a full ring drops the byte. -/
def outByte (r : Buffer) (val : Byte) : Buffer :=
  if after r.outHead = r.outTail then r
  else
    { r with
      out := Function.update r.out r.outHead.toNat val, outHead := after r.outHead
      head_lt := after_lt r.outHead }

/-- `modem_read` handing bytes over, at most `len` of them. -/
def drain : ℕ → Buffer → Buffer × List Byte
  | 0, r => (r, [])
  | len + 1, r =>
    if r.outTail = r.outHead then (r, [])
    else
      let rest := drain len { r with outTail := after r.outTail, tail_lt := after_lt r.outTail }
      (rest.1, r.out r.outTail.toNat :: rest.2)

/-- `used`, as `modem_read` computes it. -/
def used (r : Buffer) : BitVec 32 := (r.outHead - r.outTail + 4096) % 4096

def slots (r : Buffer) : SlotRing.Ring Byte := { slots := r.out, head := r.outHead.toNat, tail := r.outTail.toNat }

/-- The bytes not yet read, oldest first. -/
def pending (r : Buffer) : List Byte := contents modemOutSize (slots r)

theorem within (r : Buffer) : Within modemOutSize (slots r) := ⟨r.head_lt, r.tail_lt⟩

theorem pending_length (r : Buffer) : (pending r).length = SlotRing.used modemOutSize (slots r) := by
  simp [pending, contents]

theorem full_iff (r : Buffer) : full modemOutSize (slots r) = true ↔ after r.outHead = r.outTail := by
  unfold full
  rw [decide_eq_true_iff]
  change SlotRing.next modemOutSize r.outHead.toNat = r.outTail.toNat ↔ _
  rw [← after_toNat r.head_lt]
  exact BitVec.toNat_inj

theorem empty_iff (r : Buffer) : SlotRing.empty (slots r) = true ↔ r.outTail = r.outHead := by
  unfold SlotRing.empty
  rw [decide_eq_true_iff]
  change r.outHead.toNat = r.outTail.toNat ↔ _
  rw [BitVec.toNat_inj, eq_comm]

theorem full_length (r : Buffer) : after r.outHead = r.outTail ↔ (pending r).length = modemOutSize - 1 := by
  have hnext := next_eq r.head_lt
  have hhead : r.outHead.toNat < 4096 := r.head_lt
  have htail : r.outTail.toNat < 4096 := r.tail_lt
  rw [← full_iff, pending_length, used_eq (within r)]
  unfold full
  rw [decide_eq_true_iff]
  change SlotRing.next modemOutSize r.outHead.toNat = r.outTail.toNat ↔
    (if r.outTail.toNat ≤ r.outHead.toNat then r.outHead.toNat - r.outTail.toNat
      else r.outHead.toNat + 4096 - r.outTail.toNat) = 4095
  rw [hnext]
  change (if r.outHead.toNat + 1 = 4096 then 0 else r.outHead.toNat + 1) = r.outTail.toNat ↔ _
  split_ifs <;> omega

theorem pending_outByte (r : Buffer) (val : Byte) : pending (outByte r val) = ring (pending r) [val] := by
  have hring : ring (pending r) [val] =
      if (pending r).length = modemOutSize - 1 then pending r else pending r ++ [val] := rfl
  rw [hring]
  unfold outByte
  by_cases hfull : after r.outHead = r.outTail
  · rw [if_pos hfull, if_pos ((full_length r).mp hfull)]
  · rw [if_neg hfull, if_neg fun hlength => hfull ((full_length r).mpr hlength)]
    have hroom : full modemOutSize (slots r) = false := by
      rw [Bool.eq_false_iff]
      exact fun hslots => hfull ((full_iff r).mp hslots)
    have hput := contents_put (within r) hroom val
    have hslots : (put modemOutSize (slots r) val).1 = slots
        { r with
          out := Function.update r.out r.outHead.toNat val, outHead := after r.outHead
          head_lt := after_lt r.outHead } := by
      unfold put slots
      rw [after_toNat r.head_lt]
    rw [hslots] at hput
    exact hput

theorem outByte_slot (r : Buffer) (val : Byte) (i : ℕ) (hi : i < (pending r).length) :
    (outByte r val).out ((r.outTail.toNat + i) % modemOutSize) = r.out ((r.outTail.toNat + i) % modemOutSize) := by
  unfold outByte
  split
  · rfl
  · rw [pending_length] at hi
    exact Function.update_of_ne (slot_ne_head (within r) hi) val r.out

theorem pending_drain (len : ℕ) (r : Buffer) :
    pending (drain len r).1 = (pending r).drop len ∧ (drain len r).2 = (pending r).take len := by
  induction len generalizing r with
  | zero => exact ⟨rfl, rfl⟩
  | succ len ih =>
    unfold drain
    by_cases hempty : r.outTail = r.outHead
    · have hnone : pending r = [] := contents_empty (within r) ((empty_iff r).mpr hempty)
      rw [if_pos hempty, hnone]
      exact ⟨List.drop_nil.symm, rfl⟩
    · rw [if_neg hempty]
      have hany : SlotRing.empty (slots r) = false := by
        rw [Bool.eq_false_iff]
        exact fun hslots => hempty ((empty_iff r).mp hslots)
      have hget := contents_get (within r) hany (r.out r.outTail.toNat)
      have hslots : (get modemOutSize (slots r) (r.out r.outTail.toNat)).1 =
          slots { r with outTail := after r.outTail, tail_lt := after_lt r.outTail } := by
        unfold SlotRing.get slots
        rw [after_toNat r.tail_lt]
        simp
      rw [hslots] at hget
      have hcons : pending r = r.out r.outTail.toNat ::
          pending { r with outTail := after r.outTail, tail_lt := after_lt r.outTail } := hget
      obtain ⟨hdrop, htake⟩ := ih { r with outTail := after r.outTail, tail_lt := after_lt r.outTail }
      rw [hcons]
      exact ⟨hdrop, congrArg (r.out r.outTail.toNat :: ·) htake⟩

inductive Op where
  | put (val : Byte)
  | read (len : ℕ)

def step (r : Buffer) : Op → Buffer × List Byte
  | .put val => (outByte r val, [])
  | .read len => drain len r

def run : Buffer → List Op → Buffer × List Byte
  | r, [] => (r, [])
  | r, op :: ops =>
    let first := step r op
    let rest := run first.1 ops
    (rest.1, first.2 ++ rest.2)

theorem run_append (r : Buffer) (xs ys : List Op) :
    run r (xs ++ ys) = ((run (run r xs).1 ys).1, (run r xs).2 ++ (run (run r xs).1 ys).2) := by
  induction xs generalizing r with
  | nil => rfl
  | cons x xs ih => simp [run, ih]

theorem run_puts (r : Buffer) (bs : List Byte) :
    pending (run r (bs.map .put)).1 = ring (pending r) bs ∧ (run r (bs.map .put)).2 = [] := by
  induction bs generalizing r with
  | nil => exact ⟨rfl, rfl⟩
  | cons b bs ih =>
    obtain ⟨hpending, hnone⟩ := ih (outByte r b)
    refine ⟨?_, hnone⟩
    change pending (run (outByte r b) (bs.map .put)).1 = _
    rw [hpending, pending_outByte]
    exact (ring_append (pending r) [b] bs).symm

end PeepeeBox.OutRing
