import PeepeeBox.Cdongle

set_option autoImplicit false

/-!
# CDONGLE frames

What `cd_write_data` makes of the five writes that carry a byte, whatever its sliding
window held before, and of the trailer that classifies it.
-/
namespace PeepeeBox.CdongleFrames
open Cdongle

/-- The five writes a host spells `b` with. -/
def frame (b : Byte) : List Byte :=
  [0xF0 ||| b &&& 0x0F, 0xC0 ||| b &&& 0x0F, 0xF0 ||| b &&& 0x0F, 0x90 ||| b >>> 4,
    0x80 ||| b >>> 4]

def cdRun (block : ℕ → Byte) (cd : Cd) (vals : List Byte) : Cd :=
  vals.foldl (cdWriteData block) cd

variable (block : ℕ → Byte)

theorem cdRun_append (cd : Cd) (xs ys : List Byte) :
    cdRun block cd (xs ++ ys) = cdRun block (cdRun block cd xs) ys := by
  simp [cdRun]

theorem cdRun_cons (cd : Cd) (x : Byte) (xs : List Byte) :
    cdRun block cd (x :: xs) = cdRun block (cdWriteData block cd x) xs := rfl

/-- The `j`-th newest write of the window. -/
def newest (cd : Cd) (j : ℕ) : Byte := cd.hist (cd.nhist - 1 - j)

theorem cdShift_eq (cd : Cd) (val : Byte) :
    ∃ h, cdShift cd val = { cd with hist := h, nhist := (cdShift cd val).nhist } := by
  rw [cdShift]
  split
  · exact ⟨_, rfl⟩
  · exact ⟨_, rfl⟩

theorem cdShift_nhist (cd : Cd) (val : Byte) (h5 : cd.nhist ≤ 5) :
    (cdShift cd val).nhist = min (cd.nhist + 1) 5 := by
  rw [cdShift]
  split
  · change 4 + 1 = _
    omega
  · change cd.nhist + 1 = _
    omega

theorem cdShift_newest_zero (cd : Cd) (val : Byte) : newest (cdShift cd val) 0 = val := by
  rw [cdShift]
  split
  · change Function.update (fun i => if i < 4 then cd.hist (i + 1) else cd.hist i) 4 val 4 = val
    rw [Function.update_self]
  · have hidx : cd.nhist + 1 - 1 - 0 = cd.nhist := by omega
    change Function.update cd.hist cd.nhist val (cd.nhist + 1 - 1 - 0) = val
    rw [hidx, Function.update_self]

theorem cdShift_newest_succ (cd : Cd) (val : Byte) (j : ℕ) (h5 : cd.nhist ≤ 5) (hj : j < 4)
    (hn : j < cd.nhist) : newest (cdShift cd val) (j + 1) = newest cd j := by
  rw [cdShift, newest]
  split
  · rename_i hfull
    have hne : (3 - j : ℕ) ≠ 4 := by omega
    have hidx : 4 + 1 - 1 - (j + 1) = 3 - j := by omega
    have hold : cd.nhist - 1 - j = 3 - j + 1 := by omega
    change Function.update (fun i => if i < 4 then cd.hist (i + 1) else cd.hist i) 4 val
      (4 + 1 - 1 - (j + 1)) = cd.hist (cd.nhist - 1 - j)
    rw [hidx, Function.update_of_ne hne, if_pos (by omega), hold]
  · have hne : cd.nhist + 1 - 1 - (j + 1) ≠ cd.nhist := by omega
    have hidx : cd.nhist + 1 - 1 - (j + 1) = cd.nhist - 1 - j := by omega
    change Function.update cd.hist cd.nhist val (cd.nhist + 1 - 1 - (j + 1)) =
      cd.hist (cd.nhist - 1 - j)
    rw [Function.update_of_ne hne, hidx]

theorem cdFrame_newest (cd : Cd) (h5 : cd.nhist = 5) :
    cdFrame cd.hist = cdFrame fun i => newest cd (4 - i) := by
  have hsame : ∀ i < 5, cd.hist i = newest cd (4 - i) := by
    intro i hi
    have hidx : cd.nhist - 1 - (4 - i) = i := by omega
    rw [newest, hidx]
  rw [cdFrame, cdFrame, hsame 0 (by omega), hsame 1 (by omega), hsame 2 (by omega),
    hsame 3 (by omega), hsame 4 (by omega)]

theorem cdAssemble_none (cd : Cd) (val : Byte) (h5 : cd.nhist ≤ 5)
    (hval : val &&& 0xF0 ≠ 0x80 ∨ newest cd 0 &&& 0xF0 ≠ 0x90) :
    cdAssemble cd val = (cdShift cd val, none) := by
  rw [cdAssemble]
  by_cases hn : (cdShift cd val).nhist < 5
  · exact if_pos hn
  · have hlen := cdShift_nhist cd val h5
    have hfive : (cdShift cd val).nhist = 5 := by omega
    have hnone : cdFrame (cdShift cd val).hist = none := by
      rw [cdFrame_newest _ hfive, cdFrame]
      apply if_neg
      intro hc
      obtain ⟨-, -, -, h9, h8, -⟩ := hc
      rcases hval with hv | hv
      · apply hv
        change newest (cdShift cd val) 0 &&& 0xF0 = 0x80 at h8
        rw [cdShift_newest_zero] at h8
        exact h8
      · apply hv
        change newest (cdShift cd val) 1 &&& 0xF0 = 0x90 at h9
        rw [cdShift_newest_succ cd val 0 h5 (by omega) (by omega)] at h9
        exact h9
    simp only [if_neg hn, hnone]

theorem cdAssemble_frame (cd : Cd) (b : Byte) (h5 : cd.nhist ≤ 5) (h4 : 4 ≤ cd.nhist)
    (hw : ∀ j < 4, newest cd j = (frame b).getD (3 - j) 0) :
    cdAssemble cd (0x80 ||| b >>> 4) =
      ({ cdShift cd (0x80 ||| b >>> 4) with nhist := 0 }, some b) := by
  have hlen := cdShift_nhist cd (0x80 ||| b >>> 4) h5
  have hfive : (cdShift cd (0x80 ||| b >>> 4)).nhist = 5 := by omega
  have spelled : ∀ c : Byte, cdFrame (fun i => (frame c).getD i 0) = some c := by
    decide +kernel
  have hframe : cdFrame (cdShift cd (0x80 ||| b >>> 4)).hist = some b := by
    rw [cdFrame_newest _ hfive, ← spelled b]
    have hall : ∀ j < 5, newest (cdShift cd (0x80 ||| b >>> 4)) j = (frame b).getD (4 - j) 0 := by
      intro j hj
      cases j with
      | zero => exact cdShift_newest_zero ..
      | succ j =>
        rw [cdShift_newest_succ cd _ j h5 (by omega) (by omega), hw j (by omega)]
        congr 1
        omega
    rw [cdFrame, cdFrame]
    simp only [hall (4 - 0) (by omega), hall (4 - 1) (by omega), hall (4 - 2) (by omega),
      hall (4 - 3) (by omega), hall (4 - 4) (by omega)]
  have hn : ¬(cdShift cd (0x80 ||| b >>> 4)).nhist < 5 := by omega
  rw [cdAssemble]
  simp only [if_neg hn, hframe]

structure Listening (cd : Cd) : Prop where
  state : cd.state = .idle ∨ cd.state = .ready
  window : cd.nhist ≤ 5
  calm : cd.prev1 ≠ 0x7F

theorem cdWriteData_calm (cd : Cd) (val : Byte) (h : cd.prev1 ≠ 0x7F) :
    cdWriteData block cd val =
      cdClaim (cdSwitch block (cdNote cd val) val).1 (cdSwitch block (cdNote cd val) val).2
        val := by
  rw [cdWriteData]
  apply if_neg
  intro hp
  exact h hp.2.1

theorem cdWriteData_listen (cd : Cd) (val : Byte) (hl : Listening cd) :
    cdWriteData block cd val = cdClaim (cdListen block (cdNote cd val) val) false val := by
  have hs : cdSwitch block (cdNote cd val) val = (cdListen block (cdNote cd val) val, false) := by
    have hstate : (cdNote cd val).state = cd.state := rfl
    rw [cdSwitch, hstate]
    rcases hl.state with h | h
    · rw [h]
    · rw [h]
  rw [cdWriteData_calm block cd val hl.calm, hs]

theorem write_window (cd : Cd) (val : Byte) (hl : Listening cd) (ha : cd.awaitTrailer = false)
    (hframe : val &&& 0xF0 ≠ 0x80 ∨ newest cd 0 &&& 0xF0 ≠ 0x90)
    (hclaim : (cdNote cd val).claimable = false) :
    cdWriteData block cd val = cdShift (cdNote cd val) val := by
  have hlisten : cdListen block (cdNote cd val) val = cdShift (cdNote cd val) val := by
    have hawait : (cdNote cd val).awaitTrailer = false := ha
    rw [cdListen]
    simp only [hawait, cdAssemble_none (cdNote cd val) val hl.window hframe, Bool.false_eq_true,
      if_false]
  obtain ⟨h, hshift⟩ := cdShift_eq (cdNote cd val) val
  rw [cdWriteData_listen block cd val hl, hlisten, cdClaim]
  apply if_neg
  intro hc
  have hno : (cdShift (cdNote cd val) val).claimable = false := by
    rw [hshift]
    exact hclaim
  rw [hno] at hc
  exact absurd hc.2.1 (by decide)

theorem cdShift_listening (cd : Cd) (val : Byte) (hl : Listening cd) (hval : val ≠ 0x7F) :
    Listening (cdShift (cdNote cd val) val) := by
  obtain ⟨h, hshift⟩ := cdShift_eq (cdNote cd val) val
  have hn := cdShift_nhist (cdNote cd val) val hl.window
  refine ⟨?_, by omega, ?_⟩
  · rw [hshift]
    exact hl.state
  · rw [hshift]
    exact hval

theorem frame_marks : ∀ b : Byte,
    (0xF0 ||| b &&& 0x0F) &&& 0xF0 = 0xF0 ∧ (0xC0 ||| b &&& 0x0F) &&& 0xF0 = 0xC0 ∧
      (0x90 ||| b >>> 4) &&& 0xF0 = 0x90 ∧ (0x80 ||| b >>> 4) &&& 0xF0 = 0x80 := by
  decide +kernel

theorem not_pulse_of_mark : ∀ v : Byte, v &&& 0xF0 ≠ 0x70 → v ≠ 0x7F := by
  decide +kernel

/-- `c` is `cd` after the writes `ws`, newest first, have entered the window and nothing
    else has happened. -/
structure Filled (cd c : Cd) (ws : List Byte) : Prop where
  listening : Listening c
  recent : ∀ j < ws.length, newest c j = ws.getD j 0
  length : ws.length ≤ c.nhist
  rest : ∃ h n p1 p2 l, c =
    { cd with hist := h, nhist := n, prev1 := p1, prev2 := p2, last := l, claimable := false }

theorem filled_step (cd c : Cd) (ws : List Byte) (val : Byte) (hw : ws.length ≤ 4)
    (hc : Filled cd c ws) (ha : cd.awaitTrailer = false) (hval : val ≠ 0x7F)
    (h8 : val &&& 0xF0 ≠ 0x80) : Filled cd (cdWriteData block c val) (val :: ws) := by
  obtain ⟨h, n, p1, p2, l, hrest⟩ := hc.rest
  have hawait : c.awaitTrailer = false := by
    rw [hrest]
    exact ha
  have hclaim : (cdNote c val).claimable = false := by
    change (if val &&& 0xF0 = 0xF0 then false else c.claimable) = false
    rw [hrest]
    exact ite_self _
  have hn := cdShift_nhist (cdNote c val) val hc.listening.window
  rw [write_window block c val hc.listening hawait (.inl h8) hclaim]
  refine ⟨cdShift_listening c val hc.listening hval, ?_, ?_, ?_⟩
  · intro j hj
    simp only [List.length_cons] at hj
    cases j with
    | zero => exact cdShift_newest_zero (cdNote c val) val
    | succ j =>
      have hlen := hc.length
      rw [cdShift_newest_succ (cdNote c val) val j hc.listening.window (by omega)
        (show j < c.nhist by omega)]
      exact hc.recent j (by omega)
  · have hlen := hc.length
    have hfive := hc.listening.window
    have hcn : (cdNote c val).nhist = c.nhist := rfl
    simp only [List.length_cons]
    omega
  · obtain ⟨h', hshift⟩ := cdShift_eq (cdNote c val) val
    refine ⟨h', (cdShift (cdNote c val) val).nhist, val, p1, val, ?_⟩
    rw [hshift]
    simp only [cdNote, hrest, ite_self]

theorem filled_first (cd : Cd) (val : Byte) (hl : Listening cd) (ha : cd.awaitTrailer = false)
    (hF : val &&& 0xF0 = 0xF0) : Filled cd (cdWriteData block cd val) [val] := by
  have hval : val ≠ 0x7F := not_pulse_of_mark val (by rw [hF]; decide)
  have hclaim : (cdNote cd val).claimable = false := if_pos hF
  have hn := cdShift_nhist (cdNote cd val) val hl.window
  rw [write_window block cd val hl ha (.inl (by rw [hF]; decide)) hclaim]
  refine ⟨cdShift_listening cd val hl hval, ?_, ?_, ?_⟩
  · intro j hj
    have h0 : j = 0 := by simpa using hj
    rw [h0]
    exact cdShift_newest_zero (cdNote cd val) val
  · simp only [List.length_cons, List.length_nil]
    omega
  · obtain ⟨h', hshift⟩ := cdShift_eq (cdNote cd val) val
    refine ⟨h', (cdShift (cdNote cd val) val).nhist, val, cd.prev1, val, ?_⟩
    rw [hshift]
    simp only [cdNote, hF, if_true]

theorem frame_run (cd : Cd) (b : Byte) (hl : Listening cd) (ha : cd.awaitTrailer = false) :
    ∃ h p1 p2 l, cdRun block cd (frame b) =
      { cd with
        hist := h, nhist := 0, prev1 := p1, prev2 := p2, last := l, pending := b
        awaitTrailer := true, claimable := false } ∧ p1 ≠ 0x7F := by
  obtain ⟨mF, mC, m9, m8⟩ := frame_marks b
  have calm : ∀ v m : Byte, v &&& 0xF0 = m → m ≠ 0x70 → v ≠ 0x7F :=
    fun v m hv hm => not_pulse_of_mark v (by rw [hv]; exact hm)
  -- four writes that only fill the window
  have f1 := filled_first block cd (0xF0 ||| b &&& 0x0F) hl ha mF
  have f2 := filled_step block cd _ _ (0xC0 ||| b &&& 0x0F) (by simp) f1 ha
    (calm _ _ mC (by decide)) (by rw [mC]; decide)
  have f3 := filled_step block cd _ _ (0xF0 ||| b &&& 0x0F) (by simp) f2 ha
    (calm _ _ mF (by decide)) (by rw [mF]; decide)
  have f4 := filled_step block cd _ _ (0x90 ||| b >>> 4) (by simp) f3 ha
    (calm _ _ m9 (by decide)) (by rw [m9]; decide)
  have hsplit : frame b =
      [0xF0 ||| b &&& 0x0F, 0xC0 ||| b &&& 0x0F, 0xF0 ||| b &&& 0x0F, 0x90 ||| b >>> 4] ++
        [0x80 ||| b >>> 4] := rfl
  have hfour : cdRun block cd
      [0xF0 ||| b &&& 0x0F, 0xC0 ||| b &&& 0x0F, 0xF0 ||| b &&& 0x0F, 0x90 ||| b >>> 4] =
      cdWriteData block (cdWriteData block (cdWriteData block
        (cdWriteData block cd (0xF0 ||| b &&& 0x0F)) (0xC0 ||| b &&& 0x0F))
        (0xF0 ||| b &&& 0x0F)) (0x90 ||| b >>> 4) := rfl
  rw [← hfour] at f4
  rw [hsplit, cdRun_append, cdRun_cons]
  generalize cdRun block cd
    [0xF0 ||| b &&& 0x0F, 0xC0 ||| b &&& 0x0F, 0xF0 ||| b &&& 0x0F, 0x90 ||| b >>> 4] = c at f4
  obtain ⟨h, n, p1, p2, l, hrest⟩ := f4.rest
  -- and the fifth that completes it
  have hasm := cdAssemble_frame (cdNote c (0x80 ||| b >>> 4)) b f4.listening.window f4.length
    (by
      intro j hj
      change newest c j = _
      rw [f4.recent j hj]
      have hcases : j = 0 ∨ j = 1 ∨ j = 2 ∨ j = 3 := by omega
      rcases hcases with h0 | h0 | h0 | h0 <;> subst h0 <;> rfl)
  have hawait : (cdNote c (0x80 ||| b >>> 4)).awaitTrailer = false := by
    rw [hrest]
    exact ha
  obtain ⟨h', hshift⟩ := cdShift_eq (cdNote c (0x80 ||| b >>> 4)) (0x80 ||| b >>> 4)
  have hclaim : ∀ x y : Bool, cdClaim
      { cdShift (cdNote c (0x80 ||| b >>> 4)) (0x80 ||| b >>> 4) with
        nhist := 0, pending := b, awaitTrailer := x } y (0x80 ||| b >>> 4) =
      { cdShift (cdNote c (0x80 ||| b >>> 4)) (0x80 ||| b >>> 4) with
        nhist := 0, pending := b, awaitTrailer := x } := by
    intro x y
    apply if_neg
    intro hc
    have hno : (cdShift (cdNote c (0x80 ||| b >>> 4)) (0x80 ||| b >>> 4)).claimable = false := by
      rw [hshift, hrest]
      exact ite_self _
    have hyes := hc.2.1
    rw [hno] at hyes
    exact absurd hyes (by decide)
  refine ⟨h', 0x80 ||| b >>> 4, p1, 0x80 ||| b >>> 4, ?_, calm _ _ m8 (by decide)⟩
  rw [cdRun, List.foldl_nil, cdWriteData_listen block c _ f4.listening, cdListen]
  simp only [hawait, hasm, Bool.false_eq_true, if_false, hclaim]
  rw [hshift]
  simp only [cdNote, hrest, ite_self]

theorem cdPrepareOther_eq (cd : Cd) :
    ∃ n t r, cdPrepareOther block cd = { cd with txLen := n, tx := t, txBit := 0, refuse := r } ∧
      n ≤ 48 := by
  rw [cdPrepareOther]
  dsimp only
  split
  · exact ⟨_, _, _, rfl, by decide⟩
  · split_ifs with h1 h2 h3 h4 h5
    · exact ⟨_, _, _, rfl, by decide⟩
    · exact ⟨_, _, _, rfl, by decide⟩
    · exact ⟨_, _, _, rfl, by decide⟩
    · exact ⟨_, _, _, rfl, by decide⟩
    · have hlen : (cd.arg 4).toNat ≤ 48 := by
        unfold cdRecord at h5
        omega
      exact ⟨_, _, _, rfl, hlen⟩
    · exact ⟨_, _, _, rfl, Nat.le_refl _⟩

theorem cdPreparePicture_eq (cd cd' : Cd) (h : cdPreparePicture cd = some cd') :
    ∃ n t b p r, cd' =
      { cd with txLen := n, tx := t, txBit := b, picReady := p, refuse := r } ∧ n ≤ 48 ∧
        (cd.txBit = 0 → b = 0) := by
  rw [cdPreparePicture] at h
  split at h
  · cases h
    exact ⟨_, _, _, _, _, rfl, by decide, id⟩
  · split at h
    · cases h
    · cases h
      split_ifs
      · exact ⟨_, _, _, _, _, rfl, by decide, id⟩
      · exact ⟨_, _, _, _, _, rfl, by decide, fun _ => rfl⟩

theorem cdPrepare_eq (cd : Cd) :
    ∃ n t b p r, cdPrepare block cd =
      { cd with txLen := n, tx := t, txBit := b, picReady := p, refuse := r } ∧ n ≤ 48 ∧
        (cd.txBit = 0 → b = 0) := by
  obtain ⟨n, t, r, ho, hn⟩ := cdPrepareOther_eq block { cd with refuse := false }
  rw [cdPrepare]
  dsimp only
  split_ifs
  · split
    · rename_i cd' hp
      obtain ⟨n, t, b, p, r, he, hn, hb⟩ := cdPreparePicture_eq _ _ hp
      exact ⟨n, t, b, p, r, by rw [he], hn, hb⟩
    · exact ⟨n, t, 0, cd.picReady, r, ho, hn, fun _ => rfl⟩
  · exact ⟨n, t, 0, cd.picReady, r, ho, hn, fun _ => rfl⟩

/-- The trailers: D0 after a command, DF after any other byte. -/
def Trailer (t : Byte) : Prop := t = 0xD0 ∨ t = 0xDF

theorem cdTrailer_eq (cd : Cd) (t : Byte) :
    ∃ s k c hc arg n z len tx b p r, cdTrailer block cd t =
      { cd with
        state := s, key := k, cmd := c, haveCmd := hc, arg := arg, nargs := n, nonceRaw := z
        txLen := len, tx := tx, txBit := b, picReady := p, refuse := r
        awaitTrailer := false, claimable := true } ∧ (s = cd.state ∨ s = .ready) := by
  rw [cdTrailer]
  dsimp only
  split_ifs
  · obtain ⟨n, tx, b, p, r, he, -⟩ := cdPrepare_eq block
      { cd with
        awaitTrailer := false, claimable := true, key := cd.nonceRaw ^^^ 0xD3
        cmd := cd.pending ^^^ (cd.nonceRaw ^^^ 0xD3), haveCmd := true, picReady := false
        nargs := 0 }
    rw [he]
    exact ⟨_, _, _, _, _, _, _, _, _, _, _, _, rfl, .inr rfl⟩
  · exact ⟨_, _, _, _, _, _, _, _, _, _, _, _, rfl, .inl rfl⟩
  · obtain ⟨n, tx, b, p, r, he, -⟩ := cdPrepare_eq block
      { cd with
        awaitTrailer := false, claimable := true
        arg := Function.update cd.arg cd.nargs (cd.pending ^^^ cd.key), nargs := cd.nargs + 1 }
    rw [he]
    exact ⟨_, _, _, _, _, _, _, _, _, _, _, _, rfl, .inr rfl⟩
  · obtain ⟨n, tx, b, p, r, he, -⟩ := cdPrepare_eq block
      { cd with awaitTrailer := false, claimable := true }
    rw [he]
    exact ⟨_, _, _, _, _, _, _, _, _, _, _, _, rfl, .inr rfl⟩

theorem trailer_run (cd : Cd) (t : Byte) (ht : Trailer t) (hl : Listening cd)
    (ha : cd.awaitTrailer = true) :
    cdWriteData block cd t = cdShift (cdTrailer block (cdNote cd t) t) t := by
  have hmark : t &&& 0xF0 = 0xD0 := by
    rcases ht with h | h
    · subst h
      decide
    · subst h
      decide
  obtain ⟨s, k, c, hc, arg, n, z, len, tx, b, p, r, he, -⟩ := cdTrailer_eq block (cdNote cd t) t
  have hwin : (cdTrailer block (cdNote cd t) t).nhist ≤ 5 := by
    rw [he]
    exact hl.window
  have hasm := cdAssemble_none (cdTrailer block (cdNote cd t) t) t hwin
    (.inl (by rw [hmark]; decide))
  have hawait : (cdNote cd t).awaitTrailer = true := ha
  rw [cdWriteData_listen block cd t hl, cdListen]
  simp only [hawait, if_true, hasm]
  rw [cdClaim]
  apply if_neg
  intro hcl
  rw [hmark] at hcl
  exact absurd hcl.2.2.2 (by decide)

theorem byte_run (cd : Cd) (b t : Byte) (ht : Trailer t) (hl : Listening cd)
    (ha : cd.awaitTrailer = false) :
    ∃ h₀ h₁ p2, cdRun block cd (frame b ++ [t]) =
      { cdTrailer block
          { cd with
            hist := h₀, nhist := 0, prev1 := t, prev2 := p2, last := t, pending := b
            awaitTrailer := true, claimable := false } t with
        hist := h₁, nhist := 1 } ∧ h₁ 0 = t := by
  obtain ⟨h, p1, p2, l, hrun, hcalm⟩ := frame_run block cd b hl ha
  rw [cdRun_append, hrun]
  have hl' : Listening
      { cd with
        hist := h, nhist := 0, prev1 := p1, prev2 := p2, last := l, pending := b
        awaitTrailer := true, claimable := false } := ⟨hl.state, Nat.zero_le _, hcalm⟩
  have hstep := trailer_run block _ t ht hl' rfl
  obtain ⟨s, k, c, hc, arg, n, z, len, tx, bit, p, r, he, -⟩ := cdTrailer_eq block
    { cd with
      hist := h, nhist := 0, prev1 := t, prev2 := p1, last := t, pending := b
      awaitTrailer := true, claimable := false } t
  have hnote : cdNote
      { cd with
        hist := h, nhist := 0, prev1 := p1, prev2 := p2, last := l, pending := b
        awaitTrailer := true, claimable := false } t =
      { cd with
        hist := h, nhist := 0, prev1 := t, prev2 := p1, last := t, pending := b
        awaitTrailer := true, claimable := false } := by
    simp only [cdNote, ite_self]
  rw [hnote] at hstep
  refine ⟨h, Function.update h 0 t, p1, ?_, Function.update_self ..⟩
  rw [cdRun_cons, hstep, he]
  rfl

end PeepeeBox.CdongleFrames
