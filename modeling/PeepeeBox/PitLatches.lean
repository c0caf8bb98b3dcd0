import PeepeeBox.PitRuns

set_option autoImplicit false

/-!
# The latches of a channel

What a channel still has to say: a status byte, the bytes of a latched count, and then the live count from its first
byte.
-/
namespace PeepeeBox.PitLatches
open Pit PitSquare PitRuns

structure Speaker where
  status : Option Byte
  left : List Byte
  /-- The latched count has been read, the live count not yet. -/
  due : Bool
deriving DecidableEq, Repr

def bytesOf (rwMode count : ℕ) : List Byte :=
  match rwMode with
  | 1 => [BitVec.ofNat 8 count]
  | 2 => [BitVec.ofNat 8 (count / 0x100)]
  | _ => [BitVec.ofNat 8 count, BitVec.ofNat 8 (count / 0x100)]

def HalfWritten (c : Channel) : Prop := c.rwMode = 3 ∧ c.writePhase = 1

instance (c : Channel) : Decidable (HalfWritten c) := inferInstanceAs (Decidable (_ ∧ _))

def liveByte (c : Channel) : Byte :=
  if HalfWritten c then ~~~BitVec.ofNat 8 c.countRegister
  else if c.rwMode = 2 then BitVec.ofNat 8 (visibleCount c.countingElement / 0x100)
  else BitVec.ofNat 8 (visibleCount c.countingElement)

namespace Speaker

def tells (c : Channel) (s : Speaker) : Option Byte :=
  match s.status with
  | some b => some b
  | none =>
    match s.left with
    | b :: _ => some b
    | [] => if s.due then some (liveByte c) else none

def latchCount (c : Channel) (s : Speaker) : Speaker :=
  if s.left = [] then { s with left := bytesOf c.rwMode (visibleCount c.countingElement), due := false } else s

def latchStatus (c : Channel) (s : Speaker) : Speaker :=
  match s.status with
  | some _ => s
  | none => { s with status := some (statusByte c) }

def read (c : Channel) (s : Speaker) : Speaker :=
  match s.status with
  | some _ => { s with status := none }
  | none =>
    match s.left with
    | _ :: rest => { s with left := rest, due := rest.isEmpty }
    | [] => { s with due := s.due && decide (HalfWritten c) }

section
variable {c : Channel} {s : Speaker} (h : s.status = none)
include h

theorem read_empty (hl : s.left = []) : s.read c = { s with due := s.due && decide (HalfWritten c) } := by
  unfold read
  rw [h, hl]

theorem tells_empty (hl : s.left = []) : s.tells c = if s.due then some (liveByte c) else none := by
  unfold tells
  rw [h, hl]

theorem read_count {b : Byte} {rest : List Byte} (hl : s.left = b :: rest) :
    s.read c = { s with left := rest, due := rest.isEmpty } ∧ s.tells c = some b := by
  unfold read tells
  rw [h, hl]
  exact ⟨rfl, rfl⟩

end

def hears (c : Channel) (s : Speaker) : ChannelOp → Speaker
  | .latch => s.latchCount c
  | .readBack value =>
    let s := if value &&& 0x20 = 0 then s.latchCount c else s
    if value &&& 0x10 = 0 then s.latchStatus c else s
  | .read => s.read c
  | .program _ | .write _ | .gate _ | .tick => s

end Speaker

/-- All along a run channel `i` answers a read with what there is to say. -/
def Told (i : ℕ) : Speaker → Device → List Op → Prop
  | _, _, [] => True
  | s, pit, op :: ops =>
    (seen pit.type i op = some .read → ∀ b, s.tells (pit.channel i) = some b → (pitxDataRead pit i).2 = b) ∧
      Told i (((seen pit.type i op).map (s.hears (pit.channel i))).getD s) (step pit op) ops

structure Latches where
  rwMode : ℕ
  phase : ℕ
  status : Option Byte
  count : Option ℕ
deriving DecidableEq, Repr

def latchesOf (c : Channel) : Latches :=
  ⟨c.rwMode, c.readPhase, if c.statusLatched then some c.statusLatch else none,
    if c.countLatched then some c.outputLatch else none⟩

theorem latches_live (c : Channel) : latchesOf (updateLiveLatch c) = latchesOf c := by
  unfold updateLiveLatch
  split_ifs with h
  · rfl
  · simp [latchesOf, h]

theorem latches_decrement (c : Channel) : latchesOf (decrement c) = latchesOf c := latches_live _

theorem latches_decrementN (n : ℕ) (c : Channel) : latchesOf (decrementN n c) = latchesOf c := by
  induction n generalizing c with
  | zero => rfl
  | succ n ih => exact (ih (decrement c)).trans (latches_decrement c)

theorem latches_load (c : Channel) : latchesOf (loadCountingElement c) = latchesOf c := by
  have henter (d : Channel) : latchesOf (enterLoaded d) = latchesOf d := by
    unfold enterLoaded enterSquare
    dsimp only
    split
    · rfl
    · rfl
    · rfl
    · split_ifs <;> rfl
    · rfl
    · rfl
    · rfl
  unfold loadCountingElement
  dsimp only
  rw [henter, latches_live]
  split_ifs <;> rfl

theorem latches_countMode3 (c : Channel) : latchesOf (countMode3 c) = latchesOf c := by
  have hcounted := latches_decrementN (stride c) c
  rw [countMode3_eq]
  split_ifs
  · exact hcounted
  · rw [latches_live]
    exact hcounted
  · exact hcounted

theorem latches_countTick (c : Channel) : latchesOf (countTick c) = latchesOf c := by
  have hcounted := latches_decrement c
  unfold countTick
  dsimp only
  split
  · split_ifs
    · exact hcounted
    · exact hcounted
    · rfl
  · split_ifs
    · exact hcounted
    · exact hcounted
    · exact hcounted
  · split_ifs
    · exact hcounted
    · exact hcounted
    · rfl
  · split_ifs
    · exact latches_countMode3 c
    · rfl
  · split_ifs
    · exact hcounted
    · exact hcounted
    · rfl
  · split_ifs
    · exact hcounted
    · exact hcounted
  · rfl

theorem latches_tick (c : Channel) : latchesOf (tickChannel c) = latchesOf c := by
  have hedge (c : Channel) : latchesOf (clockEdge c) = latchesOf c := by
    unfold clockEdge
    split
    · exact latches_load c
    · exact latches_load c
    · rfl
    · split_ifs
      · exact latches_live _
      · rfl
    · rfl
    · rfl
    · rfl
    · exact latches_countTick c
  exact hedge _

theorem latches_gate (c : Channel) (level : Bool) : latchesOf (setGate c level) = latchesOf c := by
  unfold setGate
  dsimp only
  split_ifs
  · split <;> rfl
  · split <;> rfl
  · split <;> rfl
  · split <;> rfl
  · rfl

theorem latches_finalize (c : Channel) : latchesOf (finalizeWrite c) = latchesOf c := by
  unfold finalizeWrite
  dsimp only
  split_ifs <;> rfl

theorem latches_write (c : Channel) (value : Byte) : latchesOf (dataWrite c value) = latchesOf c := by
  unfold dataWrite
  split
  · exact latches_finalize _
  · exact latches_finalize _
  · dsimp only
    split_ifs
    · rfl
    · rfl
    · exact latches_finalize _
  · rfl

theorem dataRead_status {c : Channel} (hs : c.statusLatched = true) :
    dataRead c = ({ c with statusLatched := false }, c.statusLatch) := if_pos hs

section
variable {c : Channel} (hs : c.statusLatched = false)
include hs

theorem dataRead_single (hl : c.countLatched = true) (hm : c.rwMode = 1 ∨ c.rwMode = 2) :
    dataRead c = ({ c with countLatched := false },
      BitVec.ofNat 8 (if c.rwMode = 1 then c.outputLatch else c.outputLatch / 0x100)) := by
  cases c
  cases hs
  cases hl
  rcases hm with hm | hm
  · cases hm
    rfl
  · cases hm
    rfl

theorem dataRead_lsb (hl : c.countLatched = true) (hm : c.rwMode = 3) (hp : c.readPhase = 0) :
    dataRead c = ({ c with readPhase := 1 }, BitVec.ofNat 8 c.outputLatch) := by
  cases c
  cases hs
  cases hl
  cases hm
  cases hp
  rfl

theorem dataRead_msb (hl : c.countLatched = true) (hm : c.rwMode = 3) (hp : c.readPhase ≠ 0) :
    dataRead c = ({ c with readPhase := 0, countLatched := false }, BitVec.ofNat 8 (c.outputLatch / 0x100)) := by
  cases c
  cases hs
  cases hl
  cases hm
  exact if_neg hp

theorem dataRead_half (hl : c.countLatched = false) (hhalf : HalfWritten c) :
    dataRead c = (c, ~~~BitVec.ofNat 8 c.countRegister) := by
  obtain ⟨hm, hp⟩ := hhalf
  cases c
  cases hs
  cases hl
  cases hm
  cases hp
  rfl

theorem dataRead_live (hl : c.countLatched = false) (hhalf : ¬ HalfWritten c)
    (hm : c.rwMode = 1 ∨ c.rwMode = 2 ∨ c.rwMode = 3) :
    (∃ phase, (dataRead c).1 = { c with readPhase := phase }) ∧
      ((c.rwMode = 3 → c.readPhase = 0) → (dataRead c).2 = liveByte c) := by
  have hbyte : liveByte c = if c.rwMode = 2 then BitVec.ofNat 8 (visibleCount c.countingElement / 0x100)
      else BitVec.ofNat 8 (visibleCount c.countingElement) := if_neg hhalf
  have hwhole : ¬(c.countLatched = false ∧ c.rwMode = 3 ∧ c.writePhase = 1) := fun h => hhalf h.2
  rw [hbyte]
  rcases hm with hm | hm | hm
  · have heq : dataRead c = ({ c with countLatched := false }, BitVec.ofNat 8 (visibleCount c.countingElement)) := by
      cases c
      cases hs
      cases hl
      cases hm
      rfl
    rw [heq, hm]
    exact ⟨⟨c.readPhase, by rw [← hl]⟩, fun _ => rfl⟩
  · have heq : dataRead c =
        ({ c with countLatched := false }, BitVec.ofNat 8 (visibleCount c.countingElement / 0x100)) := by
      cases c
      cases hs
      cases hl
      cases hm
      rfl
    rw [heq, hm]
    exact ⟨⟨c.readPhase, by rw [← hl]⟩, fun _ => rfl⟩
  · have heq : dataRead c =
        if c.readPhase = 0 then ({ c with readPhase := 1 }, BitVec.ofNat 8 (visibleCount c.countingElement))
        else ({ c with readPhase := 0, countLatched := false },
          BitVec.ofNat 8 (visibleCount c.countingElement / 0x100)) := by
      cases c
      cases hs
      cases hl
      cases hm
      exact if_neg hwhole
    have hpair : c.rwMode ≠ 2 := by omega
    rw [heq, if_neg hpair]
    by_cases hphase : c.readPhase = 0
    · rw [if_pos hphase]
      exact ⟨⟨1, rfl⟩, fun _ => rfl⟩
    · rw [if_neg hphase]
      exact ⟨⟨0, by rw [← hl]⟩, fun hfirst => absurd (hfirst hm) hphase⟩

end

def leftOf (l : Latches) : List Byte :=
  match l.count with
  | none => []
  | some v => if l.rwMode = 3 ∧ l.phase ≠ 0 then [BitVec.ofNat 8 (v / 0x100)] else bytesOf l.rwMode v

/-- A speaker that has what the latches hold. -/
structure Holds (l : Latches) (s : Speaker) : Prop where
  mode : l.rwMode = 1 ∨ l.rwMode = 2 ∨ l.rwMode = 3
  status : s.status = l.status
  left : s.left = leftOf l
  due : s.due = true → l.count = none ∧ (l.rwMode = 3 → l.phase = 0)

theorem bytesOf_cons (rwMode count : ℕ) : bytesOf rwMode count ≠ [] := by
  unfold bytesOf
  split <;> simp

theorem leftOf_empty (l : Latches) : leftOf l = [] ↔ l.count = none := by
  unfold leftOf
  cases l.count with
  | none => simp
  | some v =>
    dsimp only
    split_ifs
    · simp
    · simpa using bytesOf_cons _ _

section
variable {c : Channel} {s : Speaker} (h : Holds (latchesOf c) s)
include h

theorem Holds.latched : s.left = [] ↔ c.countLatched = false := by
  rw [h.left, leftOf_empty]
  unfold latchesOf
  cases c.countLatched <;> simp

theorem holds_latch : Holds (latchesOf (latchCount c)) (s.latchCount c) := by
  have hempty := h.latched
  unfold latchCount Speaker.latchCount
  cases hlatched : c.countLatched with
  | true =>
    rw [hlatched] at hempty
    rw [if_pos rfl, if_neg (by simpa using hempty)]
    exact h
  | false =>
    rw [if_neg Bool.false_ne_true, if_pos (hempty.mpr hlatched)]
    refine ⟨h.mode, h.status, ?_, (nomatch ·)⟩
    simp [leftOf, latchesOf]

theorem holds_status : Holds (latchesOf (latchStatus c)) (s.latchStatus c) := by
  have hstatus := h.status
  unfold latchStatus Speaker.latchStatus
  cases hlatched : c.statusLatched with
  | true =>
    have hsome : s.status = some c.statusLatch := by simpa [latchesOf, hlatched] using hstatus
    rw [if_pos rfl, hsome]
    exact h
  | false =>
    have hnone : s.status = none := by simpa [latchesOf, hlatched] using hstatus
    rw [if_neg Bool.false_ne_true, hnone]
    exact ⟨h.mode, rfl, h.left, h.due⟩

theorem holds_back (value : Byte) : Holds (latchesOf (readBack value c)) (s.hears c (.readBack value)) := by
  have hsame : statusByte (latchCount c) = statusByte c := by
    unfold latchCount
    split_ifs <;> rfl
  unfold readBack Speaker.hears
  dsimp only
  split_ifs
  · have hboth := holds_status (holds_latch h)
    unfold Speaker.latchStatus at hboth ⊢
    rw [hsame] at hboth
    exact hboth
  · exact holds_status h
  · exact holds_latch h
  · exact h

theorem holds_read :
    Holds (latchesOf (dataRead c).1) (s.read c) ∧ ∀ b, s.tells c = some b → (dataRead c).2 = b := by
  have hstatus := h.status
  have hleft := h.left
  have hmode : c.rwMode = 1 ∨ c.rwMode = 2 ∨ c.rwMode = 3 := h.mode
  cases hs : c.statusLatched with
  | true =>
    have hsome : s.status = some c.statusLatch := by simpa [latchesOf, hs] using hstatus
    unfold Speaker.read Speaker.tells
    rw [dataRead_status hs, hsome]
    exact ⟨⟨h.mode, rfl, h.left, h.due⟩, fun b hb => Option.some.inj hb⟩
  | false =>
    have hnone : s.status = none := by simpa [latchesOf, hs] using hstatus
    cases hl : c.countLatched with
    | true =>
      -- the next byte of the latched count
      have htake {b : Byte} {rest : List Byte} (hbytes : s.left = b :: rest) {d : Channel} (hread : dataRead c = (d, b))
          (hmode' : d.rwMode = c.rwMode) (hkept : (latchesOf d).status = (latchesOf c).status)
          (hrest : rest = leftOf (latchesOf d)) (hdue : rest = [] → c.rwMode = 3 → d.readPhase = 0) :
          Holds (latchesOf (dataRead c).1) (s.read c) ∧ ∀ b', s.tells c = some b' → (dataRead c).2 = b' := by
        obtain ⟨htaken, hsaid⟩ := @Speaker.read_count c s hnone b rest hbytes
        rw [htaken, hsaid, hread]
        refine ⟨⟨?_, ?_, hrest, fun hlast => ?_⟩, fun b' hb => Option.some.inj hb⟩
        · change d.rwMode = 1 ∨ d.rwMode = 2 ∨ d.rwMode = 3
          rw [hmode']
          exact hmode
        · exact hstatus.trans hkept.symm
        · have hend : rest = [] := by simpa using hlast
          refine ⟨(leftOf_empty _).mp (hrest ▸ hend), fun hm => hdue hend ?_⟩
          exact hmode'.symm.trans hm
      have hsingle (hm : c.rwMode = 1 ∨ c.rwMode = 2) :
          s.left = [BitVec.ofNat 8 (if c.rwMode = 1 then c.outputLatch else c.outputLatch / 0x100)] := by
        rcases hm with hm | hm
        · simpa [leftOf, latchesOf, hl, hm, bytesOf] using hleft
        · simpa [leftOf, latchesOf, hl, hm, bytesOf] using hleft
      rcases hmode with hm | hm | hm
      · refine htake (hsingle (.inl hm)) (dataRead_single hs hl (.inl hm)) rfl rfl rfl fun _ h3 => ?_
        omega
      · refine htake (hsingle (.inr hm)) (dataRead_single hs hl (.inr hm)) rfl rfl rfl fun _ h3 => ?_
        omega
      · by_cases hp : c.readPhase = 0
        · have hpair : s.left = [BitVec.ofNat 8 c.outputLatch, BitVec.ofNat 8 (c.outputLatch / 0x100)] := by
            simpa [leftOf, latchesOf, hl, hm, hp, bytesOf] using hleft
          refine htake hpair (dataRead_lsb hs hl hm hp) rfl rfl ?_ (nomatch ·)
          simp [leftOf, latchesOf, hl, hm]
        · have hlast : s.left = [BitVec.ofNat 8 (c.outputLatch / 0x100)] := by
            simpa [leftOf, latchesOf, hl, hm, hp, bytesOf] using hleft
          exact htake hlast (dataRead_msb hs hl hm hp) rfl rfl rfl fun _ _ => rfl
    | false =>
      have hempty : s.left = [] := h.latched.mpr hl
      rw [Speaker.read_empty hnone hempty, Speaker.tells_empty hnone hempty]
      by_cases hhalf : HalfWritten c
      · have hbyte : liveByte c = ~~~BitVec.ofNat 8 c.countRegister := if_pos hhalf
        rw [dataRead_half hs hl hhalf, hbyte]
        refine ⟨⟨h.mode, h.status, h.left, fun hdue => h.due ?_⟩, fun b hb => ?_⟩
        · simpa [hhalf] using hdue
        · split_ifs at hb
          exact Option.some.inj hb
      · obtain ⟨⟨phase, hlive⟩, hfirst⟩ := dataRead_live hs hl hhalf hmode
        rw [hlive]
        refine ⟨⟨h.mode, h.status, ?_, fun hdue => ?_⟩, fun b hb => ?_⟩
        · rw [hempty]
          simp [leftOf, latchesOf, hl]
        · simp [hhalf] at hdue
        · split_ifs at hb with hdue
          rw [← Option.some.inj hb]
          exact hfirst (h.due hdue).2

end

theorem holds_hears {c : Channel} {s : Speaker} (h : Holds (latchesOf c) s) {op : ChannelOp}
    (hop : ∀ word, op ≠ .program word) : Holds (latchesOf (channelStep c op)) (s.hears c op) := by
  cases op with
  | program word => exact absurd rfl (hop word)
  | latch => exact holds_latch h
  | readBack value => exact holds_back h value
  | read => exact (holds_read h).1
  | write value =>
    rw [channelStep, latches_write]
    exact h
  | gate level =>
    rw [channelStep, latches_gate]
    exact h
  | tick =>
    rw [channelStep, latches_tick]
    exact h

/-- The word programs channel `i`. -/
def Programs (i : ℕ) (op : Op) : Prop := ∃ word : Byte, op = .control word ∧ word.toNat / 64 = i ∧ word &&& 0x30 ≠ 0

theorem seen_program {type : Chip} {i : ℕ} {op : Op} {word : Byte} (h : seen type i op = some (.program word)) :
    Programs i op ∧ word &&& 0x30 ≠ 0 := by
  cases op with
  | control w =>
    unfold seen at h
    dsimp only at h
    split_ifs at h with hback hselected hi hlatch
    · cases Option.some.inj h
    · cases Option.some.inj h
    · cases Option.some.inj h
      exact ⟨⟨_, rfl, hi, hlatch⟩, hlatch⟩
  | write channel value =>
    unfold seen at h
    dsimp only at h
    split_ifs at h
    cases Option.some.inj h
  | read channel =>
    unfold seen at h
    dsimp only at h
    split_ifs at h
    cases Option.some.inj h
  | gate channel level =>
    unfold seen at h
    dsimp only at h
    split_ifs at h
    cases Option.some.inj h
  | tick channel =>
    unfold seen at h
    dsimp only at h
    split_ifs at h
    cases Option.some.inj h

theorem told_run (pit : Device) {i : ℕ} (hi : i < 3) {s : Speaker} (h : Holds (latchesOf (pit.channel i)) s)
    {ops : List Op} (hops : ∀ op ∈ ops, ¬ Programs i op) : Told i s pit ops := by
  induction ops generalizing pit s with
  | nil => trivial
  | cons op ops ih =>
    have hrest : ∀ o ∈ ops, ¬ Programs i o := fun o ho => hops o (List.mem_cons_of_mem op ho)
    have hchannel := step_channel pit op hi
    constructor
    · intro _ b hb
      have hbyte : (pitxDataRead pit i).2 = (dataRead (pit.channel i)).2 := by
        unfold pitxDataRead
        rw [if_neg (by omega)]
      rw [hbyte]
      exact (holds_read h).2 b hb
    · apply ih _ _ hrest
      rw [hchannel]
      cases hseen : seen pit.type i op with
      | none => exact h
      | some o =>
        refine holds_hears h fun word hword => hops op List.mem_cons_self ?_
        rw [hword] at hseen
        exact (seen_program hseen).1

def Moded (c : Channel) : Prop := c.rwMode = 1 ∨ c.rwMode = 2 ∨ c.rwMode = 3

def speakerOf (c : Channel) : Speaker := ⟨(latchesOf c).status, leftOf (latchesOf c), false⟩

theorem Moded.holds {c : Channel} (h : Moded c) : Holds (latchesOf c) (speakerOf c) := ⟨h, rfl, rfl, (nomatch ·)⟩

theorem moded_step {c : Channel} (h : Moded c) {op : ChannelOp}
    (hop : ∀ word, op = .program word → word &&& 0x30 ≠ 0) : Moded (channelStep c op) := by
  by_cases hprogram : ∃ word, op = .program word
  · obtain ⟨word, rfl⟩ := hprogram
    have hsets (w : Byte) : w &&& 0x30 ≠ 0 → w.toNat / 16 % 4 ≠ 0 := by
      revert w
      decide +kernel
    have hset := hsets word (hop word rfl)
    change word.toNat / 16 % 4 = 1 ∨ word.toNat / 16 % 4 = 2 ∨ word.toNat / 16 % 4 = 3
    omega
  · exact (holds_hears h.holds fun word hword => hprogram ⟨word, hword⟩).mode

theorem moded_run (pit : Device) {i : ℕ} (hi : i < 3) (h : Moded (pit.channel i)) (ops : List Op) :
    Moded ((run pit ops).channel i) := by
  induction ops generalizing pit with
  | nil => exact h
  | cons op ops ih =>
    apply ih
    rw [step_channel pit op hi]
    cases hseen : seen pit.type i op with
    | none => exact h
    | some o =>
      refine moded_step h fun word hword => ?_
      rw [hword] at hseen
      exact (seen_program hseen).2

/-- In every state that a timer can be in, and until a channel is programmed again, its reads tell what it has latched
once and in order, the status first, and then the live count from its first byte. -/
theorem latches_told (type : Chip) (before : List Op) {i : ℕ} (hi : i < 3) {ops : List Op}
    (hops : ∀ op ∈ ops, ¬ Programs i op) :
    let pit := run (pitxReset type) before
    Told i (speakerOf (pit.channel i)) pit ops :=
  told_run _ hi (moded_run (pitxReset type) hi (.inl rfl) before).holds hops

/-- In the middle of a pair the read after a latched count shows neither byte of the live count. -/
theorem latches_half_written :
    let pit := run (pitxReset .i8254)
      [.control 0x34, .write 0 5, .write 0 0, .gate 0 true, .tick 0, .control 0x00, .write 0 7, .read 0, .read 0]
    pitxGetCount pit 0 = 5 ∧ (pitxDataRead pit 0).2 = 0xF8 ∧
      (pitxDataRead pit 0).2 ≠ BitVec.ofNat 8 (pitxGetCount pit 0) := by
  decide +kernel

theorem latches_told_pair :
    let pit := run (pitxReset .i8253) [.control 0x34, .write 0 5, .write 0 0, .gate 0 true, .tick 0]
    Told 0 (speakerOf (pit.channel 0)) pit [.control 0x00, .tick 0, .read 0, .control 0x00, .read 0, .tick 0, .read 0] := by
  refine latches_told .i8253 [.control 0x34, .write 0 5, .write 0 0, .gate 0 true, .tick 0] (by decide) ?_
  simp [Programs]

end PeepeeBox.PitLatches
