import PeepeeBox.CardReaderExchange

set_option autoImplicit false

/-!
# What a reply of the card reader depends on

A frame is acted on over the bytes that earlier frames left in the buffer.
-/
namespace PeepeeBox.CardReaderReplies
open ByteFifo CardReader CardReaderExchange HaspRecord MaskWalk TraceMachine

/-- What `sc_frame` puts in the queue. -/
def queuedOf (f : Sc) : List Byte :=
  if f.inBuf 4 = 0 then
    if f.inBuf 5 = 0x0A then rxWalk.cipher (scRxSeed (f.inBuf 2) (f.inBuf 3)) (ascii "PEEPEEBOX") else []
  else if f.inBuf 6 &&& 0x80 ≠ 0 ∨ 8 + (f.inBuf 7).toNat ≤ scInMax then
    rxWalk.cipher (scRxSeed (f.inBuf 2) (f.inBuf 3)) (framed (replyBody f))
  else []

theorem scFrame_queues (f : Sc) : (scFrame f).resp = pushes f.resp (queuedOf f) := by
  unfold queuedOf
  by_cases hcommand : f.inBuf 4 = 0
  · rw [if_pos hcommand]
    unfold scFrame
    dsimp only
    rw [if_pos hcommand]
    by_cases hhello : f.inBuf 5 = 0x0A
    · rw [if_pos hhello, if_pos hhello, hhello, if_neg (by decide), scReply_eq]
    · rw [if_neg hhello, if_neg hhello]
      rfl
  · rw [if_neg hcommand]
    by_cases hroute : f.inBuf 6 &&& 0x80 ≠ 0 ∨ 8 + (f.inBuf 7).toNat ≤ scInMax
    · rw [if_pos hroute]
      exact scFrame_reply f ⟨hcommand, hroute⟩
    · rw [if_neg hroute]
      obtain ⟨hlink, hlong⟩ := not_or.mp hroute
      unfold scFrame
      dsimp only
      rw [if_neg hcommand, if_neg hlink, if_neg hlong]
      rfl

theorem queuedOf_length (f : Sc) : (queuedOf f).length ≤ 256 := by
  have hbody := replyBody_length f
  unfold queuedOf
  split_ifs
  · rw [Walk.cipher_length]
    decide
  · exact Nat.zero_le _
  · rw [Walk.cipher_length, framed_length]
    omega
  · exact Nat.zero_le _

theorem framed_inj {a b : List Byte} (h : framed a = framed b) : a = b := by
  have hlen := congrArg List.length h
  rw [framed_length, framed_length] at hlen
  have htake (c : List Byte) : ((framed c).drop 3).take c.length = c := by
    change (c ++ [_]).take c.length = c
    exact List.take_left
  rw [← htake a, h, show a.length = b.length by omega, htake b]

theorem cipher_inj {s : ScRx} {a b : List Byte} (h : rxWalk.cipher s a = rxWalk.cipher s b) : a = b := by
  rw [← rxWalk.cipher_cipher s a, h, rxWalk.cipher_cipher]

/-- Every state of a reader whose card holds a record. -/
inductive Reached (record : ℕ → Byte) : Sc → Prop
  | init : Reached record (scInit record)
  | write {sc : Sc} (data : Byte) : Reached record sc → Reached record (scWrite sc data).1
  | gap {sc : Sc} : Reached record sc → Reached record (scGap sc)
  | toHost {sc : Sc} (room : Bool) : Reached record sc → Reached record (scWriteToHost sc room).1

theorem scReplyFrame_keeps (sc : Sc) (body : List Byte) :
    (scReplyFrame sc body).record = sc.record ∧ (scReplyFrame sc body).inBuf = sc.inBuf := by
  unfold scReplyFrame
  dsimp only
  split_ifs
  · exact ⟨rfl, rfl⟩
  · rw [scReply_eq]
    exact ⟨rfl, rfl⟩

theorem scFrame_keeps (f : Sc) : (scFrame f).record = f.record ∧ (scFrame f).inBuf = f.inBuf := by
  unfold scFrame
  dsimp only
  split_ifs
  · rw [scReply_eq]
    exact ⟨rfl, rfl⟩
  · rw [scReply_eq]
    exact ⟨rfl, rfl⟩
  · exact ⟨rfl, rfl⟩
  · exact ⟨rfl, rfl⟩
  · exact scReplyFrame_keeps _ _
  · rw [scCard_eq]
    exact scReplyFrame_keeps _ _
  · exact ⟨rfl, rfl⟩

theorem scAssemble_record (sc : Sc) (data : Byte) : (scAssemble sc data).record = sc.record := by
  unfold scAssemble scLength scTake
  dsimp only
  split_ifs <;> rfl

theorem scAssemble_want {sc : Sc} (h : sc.n < 5 → sc.want = 0) (data : Byte) :
    (scAssemble sc data).n < 5 → (scAssemble sc data).want = 0 := by
  have htake : (scTake sc data).n < 5 → (scTake sc data).want = 0 := by
    unfold scTake
    dsimp only
    by_cases hfull : scInMax ≤ sc.n
    · rw [if_pos hfull]
      split_ifs <;> exact fun _ => rfl
    · rw [if_neg hfull]
      split_ifs <;> exact fun hn => h (Nat.lt_of_succ_lt hn)
  unfold scAssemble scLength
  dsimp only
  by_cases hfifth : (scTake sc data).n = 5
  · rw [if_pos hfifth]
    by_cases hrange : scInMax < if (scTake sc data).inBuf 4 = 0x00 then 8 else 5 + ((scTake sc data).inBuf 4).toNat
    · rw [if_pos hrange]
      exact fun _ => rfl
    · rw [if_neg hrange]
      exact fun hn => absurd hn (by rw [hfifth]; decide)
  · rw [if_neg hfifth]
    exact htake

theorem Reached.rest {record : ℕ → Byte} {sc : Sc} (h : Reached record sc) :
    sc.record = record ∧ (sc.n < 5 → sc.want = 0) := by
  induction h with
  | init => exact ⟨rfl, fun _ => rfl⟩
  | @write sc data _ ih =>
    obtain ⟨hrecord, hwant⟩ := ih
    have hkept := (scAssemble_record sc data).trans hrecord
    unfold scWrite
    dsimp only
    split_ifs
    · exact ⟨(scFrame_keeps _).1.trans hkept, fun _ => rfl⟩
    · exact ⟨hkept, scAssemble_want hwant data⟩
  | gap _ ih => exact ⟨ih.1, fun _ => rfl⟩
  | toHost room _ ih =>
    unfold scWriteToHost
    split_ifs
    · exact ih
    · exact ih

theorem Reached.run {record : ℕ → Byte} {sc : Sc} (h : Reached record sc) (bs : List Byte) :
    Reached record (reader.run sc bs) := by
  induction bs generalizing sc with
  | nil => exact h
  | cons b bs ih => exact ih (h.write b)

theorem Reached.idle {record : ℕ → Byte} {sc : Sc} (h : Reached record sc) (hn : sc.n = 0) : scGap sc = sc := by
  have hwant := h.rest.2 (by omega)
  cases sc
  cases hn
  cases hwant
  rfl

theorem scSend_scSend (bs : List Byte) : scSend (scSend bs) = bs := by
  cases bs with
  | nil => rfl
  | cons lo bs =>
    cases bs with
    | nil => rfl
    | cons hi bs =>
      change lo :: hi :: txWalk.cipher (scTxSeed lo hi) (txWalk.cipher (scTxSeed lo hi) bs) = _
      rw [Walk.cipher_cipher]

theorem stale_step {sc c : Sc} {p : List Byte} {k : ℕ} (hp : PlainFrame p) (hk : k < p.length)
    (h : Assembled sc p k c) {i : ℕ} (hi : k < i) :
    (scAssemble c ((scSend p).getD k 0)).inBuf i = c.inBuf i := by
  obtain ⟨tx, htake, -⟩ := take_step sc c p k hp hk h
  have hother : Function.update c.inBuf k (p.getD k 0) i = c.inBuf i := Function.update_of_ne (by omega) _ _
  unfold scAssemble scLength
  rw [htake]
  dsimp only
  split_ifs
  · exact hother
  · exact hother
  · exact hother
  · exact hother
  · exact hother

theorem stale_run (sc : Sc) {p : List Byte} (hp : PlainFrame p) {k : ℕ} (hk : k < p.length) {i : ℕ} (hi : k ≤ i) :
    (reader.run (scGap sc) ((scSend p).take k)).inBuf i = sc.inBuf i := by
  induction k with
  | zero => rfl
  | succ k ih =>
    obtain ⟨hrun, -⟩ := collect_run sc p hp k (by omega)
    have hlen : k < (scSend p).length := by
      rw [scSend_length]
      omega
    have htake : (scSend p).take (k + 1) = (scSend p).take k ++ [(scSend p).getD k 0] := by
      rw [List.take_succ_eq_append_getElem hlen, List.getD_eq_getElem _ _ hlen]
    rw [htake, Machine.run_append]
    change (scWrite _ _).1.inBuf i = _
    rw [collect_step sc _ p k hp hk hrun]
    exact (stale_step hp (by omega) hrun (by omega)).trans (ih (by omega) (by omega))

theorem frame_buffer (sc : Sc) {p : List Byte} (hp : PlainFrame p) :
    ∃ f, reader.run (scGap sc) (scSend p) = { scFrame f with n := 0, want := 0 } ∧ f.resp = sc.resp ∧
      f.record = sc.record ∧ ∀ i, f.inBuf i = if i < p.length then p.getD i 0 else sc.inBuf i := by
  obtain ⟨f, hf, hrun, hquiet, htrace⟩ := frame_run sc p hp
  have hlong := hp.long
  obtain ⟨m, hm⟩ : ∃ m, p.length = m + 1 := ⟨p.length - 1, by omega⟩
  obtain ⟨hbefore, -⟩ := collect_run sc p hp m (by omega)
  have hlen : m < (scSend p).length := by
    rw [scSend_length]
    omega
  have hdrop : (scSend p).dropLast = (scSend p).take m := by
    rw [List.dropLast_eq_take, scSend_length, hm, Nat.add_sub_cancel]
  have hsplit : scSend p = (scSend p).take m ++ [(scSend p).getD m 0] := by
    rw [List.getD_eq_getElem _ _ hlen, ← List.take_succ_eq_append_getElem hlen,
      List.take_of_length_le (by rw [scSend_length]; omega)]
  have hlast : f = scAssemble (reader.run (scGap sc) ((scSend p).take m)) ((scSend p).getD m 0) := by
    rw [hdrop] at hquiet
    rw [hsplit, Machine.trace_append, hquiet] at htrace
    change [] ++ ((scWrite _ _).2.toList ++ []) = [f] at htrace
    unfold scWrite at htrace
    dsimp only at htrace
    split_ifs at htrace with hacts
    · simpa using htrace.symm
    · simp at htrace
  refine ⟨f, hrun, hf.resp, hf.record, fun i => ?_⟩
  by_cases hi : i < p.length
  · rw [if_pos hi]
    exact hf.bytes i hi
  · rw [if_neg hi, hlast, stale_step hp (by omega) hbefore (by omega)]
    exact stale_run sc hp (by omega) (by omega)

theorem queuedBytes_eq (sc : Sc) {p : List Byte} (hp : PlainFrame p) :
    ∃ f, queuedBytes sc (reader.run (scGap sc) (scSend p)) = queuedOf f ∧ f.record = sc.record ∧
      ∀ i, f.inBuf i = if i < p.length then p.getD i 0 else sc.inBuf i := by
  obtain ⟨f, hrun, hresp, hrecord, hbuf⟩ := frame_buffer sc hp
  refine ⟨f, ?_, hrecord, hbuf⟩
  have hqueue : (reader.run (scGap sc) (scSend p)).resp = pushes sc.resp (queuedOf f) := by
    rw [hrun]
    change (scFrame f).resp = _
    rw [scFrame_queues, hresp]
  unfold queuedBytes
  rw [hqueue, (pushes_cursors _ _).2, Nat.add_sub_cancel_left, newest_pushes _ _ (queuedOf_length f)]

/-- What is read of a frame lies inside it: a command to the reader, a frame of ten bytes or more, or a shorter one that
needs no more. -/
def SelfContained (p : List Byte) : Prop :=
  p.getD 4 0 = 0 ∨ 10 ≤ p.length ∨
    8 ≤ p.length ∧ p.getD 6 0 &&& 0x80 = 0 ∧ ((p.getD 7 0).toNat < 2 ∨ scInMax < 8 + (p.getD 7 0).toNat) ∨
      p.length = 9 ∧ p.getD 6 0 &&& 0x80 ≠ 0

theorem cardBody_congr (record : ℕ → Byte) {apdu apdu' : ℕ → Byte} {len : ℕ} (h : len < 2 ∨ apdu 1 = apdu' 1) :
    cardBody record apdu len = cardBody record apdu' len := by
  unfold cardBody
  rcases h with h | h
  · rw [if_pos h, if_pos h]
  · rw [h]

section
variable {p : List Byte} {f g : Sc} (hf : ∀ i < p.length, f.inBuf i = p.getD i 0)
  (hg : ∀ i < p.length, g.inBuf i = p.getD i 0)
include hf hg

theorem queuedOf_congr (hp : PlainFrame p) (hrecord : f.record = g.record) (h : SelfContained p) :
    queuedOf f = queuedOf g := by
  have hlong := hp.long
  have hsame (i : ℕ) (hi : i < p.length) : f.inBuf i = g.inBuf i := (hf i hi).trans (hg i hi).symm
  have h2 := hsame 2 (by omega)
  have h3 := hsame 3 (by omega)
  have h4 := hsame 4 (by omega)
  have h5 := hsame 5 (by omega)
  unfold queuedOf
  rw [h2, h3, h4, h5]
  by_cases hcommand : g.inBuf 4 = 0
  · rw [if_pos hcommand, if_pos hcommand]
  · rw [if_neg hcommand, if_neg hcommand]
    have hcard : p.getD 4 0 ≠ 0 := by
      rw [← hg 4 (by omega)]
      exact hcommand
    unfold replyBody
    rcases h with h | h | ⟨hlen, hctrl, hshort⟩ | ⟨hlen, hctrl⟩
    · exact absurd h hcard
    · have h9 : (fun i => f.inBuf (8 + i)) 1 = (fun i => g.inBuf (8 + i)) 1 := hsame 9 (by omega)
      have hbody : cardBody g.record (fun i => f.inBuf (8 + i)) (g.inBuf 7).toNat =
          cardBody g.record (fun i => g.inBuf (8 + i)) (g.inBuf 7).toNat := cardBody_congr _ (.inr h9)
      rw [hsame 6 (by omega), hsame 7 (by omega), hsame 8 (by omega), hrecord, hbody]
    · have hlink : ¬g.inBuf 6 &&& 0x80 ≠ 0 := by
        rw [hg 6 (by omega)]
        exact not_not_intro hctrl
      rw [hsame 6 (by omega), hsame 7 (by omega), hrecord, if_neg hlink, if_neg hlink]
      rcases hshort with hshort | hshort
      · rw [← hg 7 (by omega)] at hshort
        have hbody : cardBody g.record (fun i => f.inBuf (8 + i)) (g.inBuf 7).toNat =
            cardBody g.record (fun i => g.inBuf (8 + i)) (g.inBuf 7).toNat := cardBody_congr _ (.inl hshort)
        rw [hbody]
      · rw [← hg 7 (by omega)] at hshort
        have hout : ¬(g.inBuf 6 &&& 0x80 ≠ 0 ∨ 8 + (g.inBuf 7).toNat ≤ scInMax) := not_or.mpr ⟨hlink, by omega⟩
        rw [if_neg hout, if_neg hout]
    · have hlink : g.inBuf 6 &&& 0x80 ≠ 0 := by
        rw [hg 6 (by omega)]
        exact hctrl
      rw [hsame 6 (by omega), hsame 8 (by omega), if_pos hlink, if_pos hlink, if_pos (.inl hlink), if_pos (.inl hlink)]

end

section
variable {f g : Sc}

theorem queuedOf_differs (hf : Reaches f) (hg : Reaches g) (h2 : f.inBuf 2 = g.inBuf 2) (h3 : f.inBuf 3 = g.inBuf 3)
    (hbody : replyBody f ≠ replyBody g) : queuedOf f ≠ queuedOf g := by
  intro hsame
  unfold queuedOf at hsame
  rw [if_neg hf.1, if_pos hf.2, if_neg hg.1, if_pos hg.2, h2, h3] at hsame
  exact hbody (framed_inj (cipher_inj hsame))

theorem replyBody_link (h : f.inBuf 6 &&& 0x80 ≠ 0) : replyBody f = [f.inBuf 8] := if_pos h

theorem replyBody_short (h : f.inBuf 6 &&& 0x80 = 0) (hlen : (f.inBuf 7).toNat < 2) : replyBody f = [0x6D, 0x00] :=
  (if_neg (not_not_intro h)).trans (if_pos hlen)

theorem replyBody_card (h : f.inBuf 6 &&& 0x80 = 0) (hlen : 2 ≤ (f.inBuf 7).toNat) :
    (f.inBuf 9 = 0 → replyBody f = [0x6D, 0x00]) ∧ (f.inBuf 9 = 0x20 → replyBody f = [0x90, 0x00]) := by
  have hcard : replyBody f = cardBody f.record (fun i => f.inBuf (8 + i)) (f.inBuf 7).toNat :=
    if_neg (not_not_intro h)
  rw [hcard]
  unfold cardBody
  rw [if_neg (by omega)]
  constructor
  · intro h9
    change (if f.inBuf 9 = 0xA4 then _ else if f.inBuf 9 = 0x20 then _ else if f.inBuf 9 = 0xB0 then _ else _) = _
    rw [h9]
    rfl
  · intro h9
    change (if f.inBuf 9 = 0xA4 then _ else if f.inBuf 9 = 0x20 then _ else _) = _
    rw [h9]
    rfl

end

/-- A frame that leaves another answer behind wherever one is read past its end. -/
def primer : List Byte := [0x00, 0x00, 0x00, 0x00, 0x05, 0x00, 0x80, 0x02, 0x01, 0x20]

theorem primer_plain : PlainFrame primer := ⟨by decide, by decide⟩

theorem queuedOf_stale {p : List Byte} (hp : PlainFrame p) (h : ¬SelfContained p) {f g : Sc}
    (hf : ∀ i, f.inBuf i = if i < p.length then p.getD i 0 else 0)
    (hg : ∀ i, i < 10 → g.inBuf i = if i < p.length then p.getD i 0 else primer.getD i 0) :
    queuedOf f ≠ queuedOf g := by
  have hlong := hp.long
  obtain ⟨hcard, hshort, hplain, hlink⟩ : p.getD 4 0 ≠ 0 ∧ p.length < 10 ∧
      ¬(8 ≤ p.length ∧ p.getD 6 0 &&& 0x80 = 0 ∧ ((p.getD 7 0).toNat < 2 ∨ scInMax < 8 + (p.getD 7 0).toNat)) ∧
        ¬(p.length = 9 ∧ p.getD 6 0 &&& 0x80 ≠ 0) := by
    unfold SelfContained at h
    rw [not_or, not_or, not_or] at h
    exact ⟨h.1, by omega, h.2.2⟩
  have hin (i : ℕ) (hi : i < p.length) : f.inBuf i = p.getD i 0 ∧ g.inBuf i = p.getD i 0 :=
    ⟨(hf i).trans (if_pos hi), (hg i (by omega)).trans (if_pos hi)⟩
  have hout (i : ℕ) (hi : p.length ≤ i) (h10 : i < 10) : f.inBuf i = 0 ∧ g.inBuf i = primer.getD i 0 :=
    ⟨(hf i).trans (if_neg (by omega)), (hg i h10).trans (if_neg (by omega))⟩
  obtain ⟨f2, g2⟩ := hin 2 (by omega)
  obtain ⟨f3, g3⟩ := hin 3 (by omega)
  obtain ⟨f4, g4⟩ := hin 4 (by omega)
  have hf4 : f.inBuf 4 ≠ 0 := fun hzero => hcard (f4.symm.trans hzero)
  have hg4 : g.inBuf 4 ≠ 0 := fun hzero => hcard (g4.symm.trans hzero)
  have hdiffer := @queuedOf_differs f g
  obtain ⟨f9, g9⟩ := hout 9 (by omega) (by decide)
  change g.inBuf 9 = 0x20 at g9
  by_cases hsix : p.length = 6
  · obtain ⟨f6, g6⟩ := hout 6 (by omega) (by decide)
    obtain ⟨f7, -⟩ := hout 7 (by omega) (by decide)
    have hflink : f.inBuf 6 &&& 0x80 = 0 := by rw [f6]; rfl
    have hglink : g.inBuf 6 &&& 0x80 ≠ 0 := by rw [g6]; decide
    refine hdiffer ⟨hf4, .inr ?_⟩ ⟨hg4, .inl hglink⟩ (f2.trans g2.symm) (f3.trans g3.symm) ?_
    · rw [f7]
      decide
    · rw [replyBody_short hflink (by rw [f7]; decide), replyBody_link hglink]
      exact fun hbad => absurd (congrArg List.length hbad) (by simp)
  · obtain ⟨f6, g6⟩ := hin 6 (by omega)
    by_cases hctrl : p.getD 6 0 &&& 0x80 = 0
    · have hflink : f.inBuf 6 &&& 0x80 = 0 := by rw [f6]; exact hctrl
      have hglink : g.inBuf 6 &&& 0x80 = 0 := by rw [g6]; exact hctrl
      by_cases hseven : p.length = 7
      · obtain ⟨f7, g7⟩ := hout 7 (by omega) (by decide)
        refine hdiffer ⟨hf4, .inr ?_⟩ ⟨hg4, .inr ?_⟩ (f2.trans g2.symm) (f3.trans g3.symm) ?_
        · rw [f7]
          decide
        · rw [g7]
          decide
        · rw [replyBody_short hflink (by rw [f7]; decide), (replyBody_card hglink (by rw [g7]; decide)).2 g9]
          decide
      · obtain ⟨f7, g7⟩ := hin 7 (by omega)
        have hrange : 2 ≤ (p.getD 7 0).toNat ∧ 8 + (p.getD 7 0).toNat ≤ scInMax := by
          have hnot : ¬((p.getD 7 0).toNat < 2 ∨ scInMax < 8 + (p.getD 7 0).toNat) :=
            fun hbad => hplain ⟨by omega, hctrl, hbad⟩
          omega
        refine hdiffer ⟨hf4, .inr ?_⟩ ⟨hg4, .inr ?_⟩ (f2.trans g2.symm) (f3.trans g3.symm) ?_
        · rw [f7]
          exact hrange.2
        · rw [g7]
          exact hrange.2
        · rw [(replyBody_card hflink (by rw [f7]; exact hrange.1)).1 f9,
            (replyBody_card hglink (by rw [g7]; exact hrange.1)).2 g9]
          decide
    · have hflink : f.inBuf 6 &&& 0x80 ≠ 0 := by rw [f6]; exact hctrl
      have hglink : g.inBuf 6 &&& 0x80 ≠ 0 := by rw [g6]; exact hctrl
      have hnine : p.length ≠ 9 := fun hlen => hlink ⟨hlen, hctrl⟩
      obtain ⟨f8, g8⟩ := hout 8 (by omega) (by decide)
      refine hdiffer ⟨hf4, .inl hflink⟩ ⟨hg4, .inl hglink⟩ (f2.trans g2.symm) (f3.trans g3.symm) ?_
      rw [replyBody_link hflink, replyBody_link hglink, f8, g8]
      decide

/-- Whatever came before, the bytes queued for a frame are the same. -/
def SameReply (record : ℕ → Byte) (bs : List Byte) : Prop :=
  ∀ sc sc', Reached record sc → Reached record sc' → sc.n = 0 → sc'.n = 0 →
    queuedBytes sc (reader.run sc bs) = queuedBytes sc' (reader.run sc' bs)

theorem same_reply_iff (record : ℕ → Byte) (bs : List Byte) (hp : PlainFrame (scSend bs)) :
    SameReply record bs ↔ SelfContained (scSend bs) := by
  obtain ⟨p, hplain⟩ : ∃ p, p = scSend bs := ⟨_, rfl⟩
  have hbs : bs = scSend p := by rw [hplain, scSend_scSend]
  rw [← hplain] at hp ⊢
  subst hbs
  constructor
  · intro hsame
    by_contra hstale
    have hinit : Reached record (scInit record) := .init
    obtain ⟨g, hrun, -, -, hbuf⟩ := frame_buffer (scInit record) primer_plain
    rw [hinit.idle rfl] at hrun
    have hprimed := hinit.run (scSend primer)
    have hzero : (reader.run (scInit record) (scSend primer)).n = 0 := by
      rw [hrun]
    have hleft (i : ℕ) (hi : i < 10) :
        (reader.run (scInit record) (scSend primer)).inBuf i = primer.getD i 0 := by
      rw [hrun]
      change (scFrame g).inBuf i = _
      rw [(scFrame_keeps g).2, hbuf i]
      exact if_pos hi
    have hqueued := hsame _ _ hinit hprimed rfl hzero
    obtain ⟨f, hf, -, hfbuf⟩ := queuedBytes_eq (scInit record) hp
    obtain ⟨f', hf', -, hfbuf'⟩ := queuedBytes_eq (reader.run (scInit record) (scSend primer)) hp
    rw [hinit.idle rfl] at hf
    rw [hprimed.idle hzero] at hf'
    rw [hf, hf'] at hqueued
    refine queuedOf_stale hp hstale hfbuf (fun i hi => ?_) hqueued
    rw [hfbuf' i, hleft i hi]
  · intro hcontained sc sc' hsc hsc' hn hn'
    obtain ⟨f, hf, hrecord, hbuf⟩ := queuedBytes_eq sc hp
    obtain ⟨f', hf', hrecord', hbuf'⟩ := queuedBytes_eq sc' hp
    rw [hsc.idle hn] at hf
    rw [hsc'.idle hn'] at hf'
    rw [hf, hf']
    refine queuedOf_congr ?_ ?_ hp ?_ hcontained
    · exact fun i hi => (hbuf i).trans (if_pos hi)
    · exact fun i hi => (hbuf' i).trans (if_pos hi)
    · exact (hrecord.trans hsc.rest.1).trans (hrecord'.trans hsc'.rest.1).symm

/-- The guest's READ BINARY. -/
theorem same_reply_read :
    SameReply (fun i => BitVec.ofNat 8 i)
      (scSend [0x12, 0x34, 0x56, 0x78, 0x09, 0x00, 0x00, 0x05, 0x00, 0xB0, 0x00, 0x00, 0x64, 0x00]) := by
  refine (same_reply_iff _ _ ?_).mpr ?_
  · rw [scSend_scSend]
    exact ⟨by decide, by decide⟩
  · rw [scSend_scSend]
    exact .inr (.inl (by decide))

/-- A frame of six bytes, to a fresh reader and after another frame. -/
theorem same_reply_six :
    let record : ℕ → Byte := fun i => BitVec.ofNat 8 i
    let bs := scSend [0x12, 0x34, 0x56, 0x78, 0x01, 0x00]
    let fresh := scInit record
    let used := reader.run fresh (scSend primer)
    PlainFrame (scSend bs) ∧ Reached record fresh ∧ Reached record used ∧ fresh.n = 0 ∧ used.n = 0 ∧
      (queuedBytes fresh (reader.run fresh bs)).length = 6 ∧ (queuedBytes used (reader.run used bs)).length = 5 ∧
        ¬SameReply record bs := by
  intro record bs fresh used
  have hfresh : Reached record fresh := .init
  have hzero : used.n = 0 := by decide +kernel
  have hsix : (queuedBytes fresh (reader.run fresh bs)).length = 6 := by decide +kernel
  have hfive : (queuedBytes used (reader.run used bs)).length = 5 := by decide +kernel
  refine ⟨?_, hfresh, hfresh.run _, rfl, hzero, hsix, hfive, fun hsame => ?_⟩
  · rw [scSend_scSend]
    exact ⟨by decide, by decide⟩
  · rw [hsame fresh used hfresh (hfresh.run _) rfl hzero, hfive] at hsix
    exact absurd hsix (by decide)

end PeepeeBox.CardReaderReplies
