import Mathlib.Data.List.GetD
import PeepeeBox.CardReader
import PeepeeBox.MaskWalk

set_option autoImplicit false

/-!
# One exchange with the card reader

From an idle line, the bytes of a frame fill the assembler, the last of them acts on it, and
what is queued decodes to the reader's own framing.
-/
namespace PeepeeBox.CardReaderExchange
open ByteFifo CardReader MaskWalk TraceMachine

def txWalk : Walk ScTx 8 := ⟨fun s => (scTxNext s).1, fun s => (scTxNext s).2⟩

def rxWalk : Walk ScRx 8 := ⟨fun c => (scRxApply c 0).1, fun c => (scRxApply c 0).2⟩

def lcgWalk : Walk (BitVec 32) 8 := ⟨scLcgNext, fun x => (scLcgNext x >>> 24).setWidth 8⟩

theorem scRxApply_eq (c : ScRx) (x : Byte) : scRxApply c x = (rxWalk.next c, x ^^^ rxWalk.mask c) := by
  have hzero : (0 : Byte) ^^^ c.a = c.a := BitVec.zero_xor
  unfold rxWalk scRxApply
  dsimp only
  rw [hzero, BitVec.xor_assoc]

/-- A series of bytes through the reply codec. -/
def scRxBytes : ScRx → List Byte → List Byte
  | _, [] => []
  | c, x :: xs => (scRxApply c x).2 :: scRxBytes (scRxApply c x).1 xs

theorem scRxBytes_eq (c : ScRx) (xs : List Byte) : scRxBytes c xs = rxWalk.cipher c xs := by
  induction xs generalizing c with
  | nil => rfl
  | cons x xs ih =>
    unfold scRxBytes
    rw [scRxApply_eq, ih]
    rfl

theorem scLcgFrom_eq (x : BitVec 32) (bs : List Byte) : scLcgFrom x bs = lcgWalk.cipher x bs := by
  induction bs generalizing x with
  | nil => rfl
  | cons b bs ih =>
    unfold scLcgFrom
    rw [ih]
    rfl

theorem scLcg_scLcg (bs : List Byte) : scLcg (scLcg bs) = bs := by
  unfold scLcg
  rw [scLcgFrom_eq, scLcgFrom_eq, Walk.cipher_cipher]

theorem scLcg_length (bs : List Byte) : (scLcg bs).length = bs.length := by
  unfold scLcg
  rw [scLcgFrom_eq, Walk.cipher_length]

theorem scReply_eq (sc : Sc) (p : List Byte) :
    scReply sc p = { sc with
      rx := rxWalk.next^[p.length] sc.rx, resp := pushes sc.resp (rxWalk.cipher sc.rx p) } := by
  induction p generalizing sc with
  | nil => rfl
  | cons x p ih =>
    have hbyte : scReplyByte sc x = { sc with
        rx := rxWalk.next sc.rx, resp := fifo8Push sc.resp (x ^^^ rxWalk.mask sc.rx) } := by
      unfold scReplyByte
      rw [scRxApply_eq]
    change scReply (scReplyByte sc x) p = _
    rw [ih, hbyte, List.length_cons, Function.iterate_succ_apply]
    rfl

def framed (body : List Byte) : List Byte :=
  let f := [0x00, 0x00, BitVec.ofNat 8 body.length] ++ body
  f ++ [f.foldl (· ^^^ ·) 0]

theorem framed_length (body : List Byte) : (framed body).length = body.length + 4 := by
  unfold framed
  rw [List.length_append, List.length_append]
  change 3 + body.length + 1 = _
  omega

theorem framed_checks (body : List Byte) : (framed body).foldl (· ^^^ ·) 0 = 0 := by
  unfold framed
  dsimp only
  rw [List.foldl_append]
  exact BitVec.xor_self

theorem scReplyFrame_eq (sc : Sc) (body : List Byte) (h : body.length ≤ scInMax - 4) :
    (scReplyFrame sc body).resp = pushes sc.resp (rxWalk.cipher sc.rx (framed body)) := by
  unfold scReplyFrame
  rw [if_neg (Nat.not_lt.mpr h)]
  dsimp only
  rw [scReply_eq]
  rfl

def served (record : ℕ → Byte) : List Byte :=
  scLcg ((List.range scRecord).map record) ++ [0x90, 0x00]

def cardBody (record : ℕ → Byte) (apdu : ℕ → Byte) (len : ℕ) : List Byte :=
  if len < 2 then [0x6D, 0x00]
  else if apdu 1 = 0xA4 then List.replicate 22 0x00 ++ [0x90, 0x00]
  else if apdu 1 = 0x20 then [0x90, 0x00]
  else if apdu 1 = 0xB0 then served record
  else [0x6D, 0x00]

theorem cardBody_length (record apdu : ℕ → Byte) (len : ℕ) :
    (cardBody record apdu len).length ≤ 102 := by
  have hserved : (served record).length = 102 := by
    unfold served
    rw [List.length_append, scLcg_length, List.length_map, List.length_range]
    rfl
  unfold cardBody
  split_ifs
  · decide
  · decide
  · decide
  · exact Nat.le_of_eq hserved
  · decide

theorem scCard_eq (sc : Sc) (apdu : ℕ → Byte) (len : ℕ) :
    scCard sc apdu len = scReplyFrame sc (cardBody sc.record apdu len) := by
  unfold scCard cardBody
  split_ifs
  all_goals rfl

/-- Whether a frame is answered by the card or echoed by the link. -/
def Reaches (f : Sc) : Prop :=
  f.inBuf 4 ≠ 0 ∧ (f.inBuf 6 &&& 0x80 ≠ 0 ∨ 8 + (f.inBuf 7).toNat ≤ scInMax)

def replyBody (f : Sc) : List Byte :=
  if f.inBuf 6 &&& 0x80 ≠ 0 then [f.inBuf 8]
  else cardBody f.record (fun i => f.inBuf (8 + i)) (f.inBuf 7).toNat

theorem replyBody_length (f : Sc) : (replyBody f).length ≤ 102 := by
  unfold replyBody
  split_ifs
  · exact Nat.le_add_left 1 101
  · exact cardBody_length _ _ _

theorem scFrame_reply (f : Sc) (h : Reaches f) :
    (scFrame f).resp = pushes f.resp
      (rxWalk.cipher (scRxSeed (f.inBuf 2) (f.inBuf 3)) (framed (replyBody f))) := by
  obtain ⟨hcard, hroute⟩ := h
  have hshort : (replyBody f).length ≤ scInMax - 4 :=
    Nat.le_trans (replyBody_length f) (by decide)
  unfold scFrame
  dsimp only
  rw [if_neg hcard]
  unfold replyBody at hshort ⊢
  by_cases hlink : f.inBuf 6 &&& 0x80 ≠ 0
  · rw [if_pos hlink] at hshort ⊢
    rw [if_pos hlink, scReplyFrame_eq _ _ hshort]
  · have hlen : 8 + (f.inBuf 7).toNat ≤ scInMax := hroute.resolve_left hlink
    rw [if_neg hlink] at hshort ⊢
    rw [if_neg hlink, if_pos hlen, scCard_eq, scReplyFrame_eq _ _ hshort]

/-- A plaintext frame of the guest, as long as its fifth byte says. -/
structure PlainFrame (p : List Byte) : Prop where
  length : p.length = 5 + if p.getD 4 0 = 0 then 3 else (p.getD 4 0).toNat
  short : p.length ≤ scInMax

/-- The frame on the wire: the nonce pair in the clear, the rest under the stream it seeds. -/
def scSend (p : List Byte) : List Byte :=
  p.take 2 ++ txWalk.cipher (scTxSeed (p.getD 0 0) (p.getD 1 0)) (p.drop 2)

theorem PlainFrame.long {p : List Byte} (hp : PlainFrame p) : 6 ≤ p.length := by
  have hlen := hp.length
  split_ifs at hlen with hzero
  · omega
  · have hpos : (p.getD 4 0).toNat ≠ 0 := fun hc => hzero (BitVec.eq_of_toNat_eq hc)
    omega

theorem scSend_length (p : List Byte) : (scSend p).length = p.length := by
  unfold scSend
  rw [List.length_append, Walk.cipher_length, ← List.length_append, List.take_append_drop]

theorem scSend_clear (p : List Byte) (k : ℕ) (hk : k < 2) (hlen : k < p.length) :
    (scSend p).getD k 0 = p.getD k 0 := by
  have htake : k < (p.take 2).length := by
    rw [List.length_take]
    omega
  unfold scSend
  rw [List.getD_append _ _ _ _ htake, List.getD_eq_getElem _ _ htake, List.getElem_take,
    List.getD_eq_getElem _ _ hlen]

theorem scSend_masked (p : List Byte) (k : ℕ) (hlen : 2 + k < p.length) :
    (scSend p).getD (2 + k) 0 =
      p.getD (2 + k) 0 ^^^ txWalk.stream (scTxSeed (p.getD 0 0) (p.getD 1 0)) k := by
  have htake : (p.take 2).length = 2 := by
    rw [List.length_take]
    omega
  have hdrop : (p.drop 2)[k]? = some (p.getD (2 + k) 0) := by
    rw [List.getElem?_drop, List.getD_eq_getElem?_getD, List.getElem?_eq_getElem hlen]
    rfl
  unfold scSend
  rw [List.getD_append_right _ _ _ _ (by omega), htake, Nat.add_sub_cancel_left,
    List.getD_eq_getElem?_getD, Walk.cipher_getElem?, hdrop]
  rfl

/-- The assembler after `k` bytes of a frame. -/
structure Assembled (sc : Sc) (p : List Byte) (k : ℕ) (c : Sc) : Prop where
  n : c.n = k
  want : c.want = if k < 5 then 0 else p.length
  bytes : ∀ i < k, c.inBuf i = p.getD i 0
  tx : 2 ≤ k → c.tx = txWalk.next^[k - 2] (scTxSeed (p.getD 0 0) (p.getD 1 0))
  resp : c.resp = sc.resp
  record : c.record = sc.record

theorem take_bytes (c : Sc) (p : List Byte) (k : ℕ) (x : Byte)
    (hbytes : ∀ i < k, c.inBuf i = p.getD i 0) (hx : x = p.getD k 0) :
    ∀ i < k + 1, Function.update c.inBuf k x i = p.getD i 0 := by
  intro i hi
  by_cases hlast : i = k
  · rw [hlast, Function.update_self, hx]
  · rw [Function.update_of_ne hlast]
    exact hbytes i (by omega)

theorem take_step (sc c : Sc) (p : List Byte) (k : ℕ) (hp : PlainFrame p) (hk : k < p.length)
    (h : Assembled sc p k c) :
    ∃ tx, scTake c ((scSend p).getD k 0) =
        { c with inBuf := Function.update c.inBuf k (p.getD k 0), tx := tx, n := k + 1 } ∧
      (2 ≤ k + 1 → tx = txWalk.next^[k + 1 - 2] (scTxSeed (p.getD 0 0) (p.getD 1 0))) := by
  have hroom : ¬scInMax ≤ c.n := by
    have hshort := hp.short
    have hn := h.n
    omega
  unfold scTake
  dsimp only
  rw [if_neg hroom, h.n]
  by_cases hclear : k < 2
  · rw [if_pos hclear, scSend_clear p k hclear hk]
    refine ⟨_, rfl, ?_⟩
    intro hsecond
    have hk1 : k = 1 := by omega
    subst hk1
    have hfirst : Function.update c.inBuf 1 (p.getD 1 0) 0 = p.getD 0 0 := by
      rw [Function.update_of_ne (by decide)]
      exact h.bytes 0 (by decide)
    rw [if_pos rfl, hfirst, Function.update_self]
    rfl
  · obtain ⟨j, hj⟩ : ∃ j, k = 2 + j := ⟨k - 2, by omega⟩
    subst hj
    have htx := h.tx (by omega)
    have hplain : (scSend p).getD (2 + j) 0 ^^^ (scTxNext c.tx).2 = p.getD (2 + j) 0 := by
      rw [scSend_masked p j hk, htx, Nat.add_sub_cancel_left]
      change (_ ^^^ _) ^^^ txWalk.mask _ = _
      unfold Walk.stream
      rw [BitVec.xor_assoc, BitVec.xor_self, BitVec.xor_zero]
    rw [if_neg hclear, hplain]
    refine ⟨_, rfl, ?_⟩
    intro _
    have hcount : 2 + j + 1 - 2 = j + 1 := by omega
    rw [htx, Nat.add_sub_cancel_left, hcount, Function.iterate_succ_apply']
    rfl

theorem assemble_step (sc c : Sc) (p : List Byte) (k : ℕ) (hp : PlainFrame p) (hk : k < p.length)
    (h : Assembled sc p k c) : Assembled sc p (k + 1) (scAssemble c ((scSend p).getD k 0)) := by
  obtain ⟨tx, htake, htx⟩ := take_step sc c p k hp hk h
  have hbytes := take_bytes c p k (p.getD k 0) h.bytes rfl
  unfold scAssemble scLength
  rw [htake]
  dsimp only
  by_cases hfifth : k + 1 = 5
  · have hkind : Function.update c.inBuf k (p.getD k 0) 4 = p.getD 4 0 := hbytes 4 (by omega)
    have hwant : ∀ t : Byte, t = p.getD 4 0 →
        (if t = 0x00 then 8 else 5 + t.toNat) = p.length := by
      intro t ht
      rw [hp.length, ht]
      split_ifs
      · rfl
      · rfl
    rw [if_pos hfifth, hwant _ hkind, if_neg (Nat.not_lt.mpr hp.short)]
    refine ⟨rfl, ?_, hbytes, htx, h.resp, h.record⟩
    rw [if_neg (by omega)]
  · rw [if_neg hfifth]
    refine ⟨rfl, ?_, hbytes, htx, h.resp, h.record⟩
    change c.want = _
    rw [h.want]
    split_ifs
    · rfl
    · omega
    · omega
    · rfl

theorem collect_step (sc c : Sc) (p : List Byte) (k : ℕ) (hp : PlainFrame p)
    (hk : k + 1 < p.length) (h : Assembled sc p k c) :
    scWrite c ((scSend p).getD k 0) = (scAssemble c ((scSend p).getD k 0), none) := by
  have hnext := assemble_step sc c p k hp (by omega) h
  unfold scWrite
  apply if_neg
  rintro ⟨hwant, hfull⟩
  rw [hnext.want] at hwant hfull
  rw [hnext.n] at hfull
  split_ifs at hwant hfull
  · exact hwant rfl
  · omega

theorem collect_run (sc : Sc) (p : List Byte) (hp : PlainFrame p) (k : ℕ) (hk : k < p.length) :
    Assembled sc p k (reader.run (scGap sc) ((scSend p).take k)) ∧
      reader.trace (scGap sc) ((scSend p).take k) = [] := by
  induction k with
  | zero =>
    refine ⟨⟨rfl, rfl, ?_, ?_, rfl, rfl⟩, rfl⟩
    · exact fun i hi => absurd hi (Nat.not_lt_zero i)
    · exact fun hc => absurd hc (by decide)
  | succ k ih =>
    obtain ⟨hrun, htrace⟩ := ih (by omega)
    have hlen : k < (scSend p).length := by
      rw [scSend_length]
      omega
    have hbyte := collect_step sc _ p k hp hk hrun
    have htake : (scSend p).take (k + 1) = (scSend p).take k ++ [(scSend p).getD k 0] := by
      rw [List.take_succ_eq_append_getElem hlen, List.getD_eq_getElem _ _ hlen]
    rw [htake, Machine.run_append, Machine.trace_append, htrace]
    refine ⟨?_, ?_⟩
    · change Assembled sc p (k + 1) (scWrite _ _).1
      rw [hbyte]
      exact assemble_step sc _ p k hp (by omega) hrun
    · change (scWrite _ _).2.toList ++ [] = []
      rw [hbyte]
      rfl

theorem frame_run (sc : Sc) (p : List Byte) (hp : PlainFrame p) :
    ∃ f, Assembled sc p p.length f ∧
      reader.run (scGap sc) (scSend p) = { scFrame f with n := 0, want := 0 } ∧
      reader.trace (scGap sc) (scSend p).dropLast = [] ∧
      reader.trace (scGap sc) (scSend p) = [f] := by
  have hlong := hp.long
  obtain ⟨m, hm⟩ : ∃ m, p.length = m + 1 := ⟨p.length - 1, by omega⟩
  obtain ⟨hrun, htrace⟩ := collect_run sc p hp m (by omega)
  have hlen : m < (scSend p).length := by
    rw [scSend_length]
    omega
  have hsplit : scSend p = (scSend p).take m ++ [(scSend p).getD m 0] := by
    rw [List.getD_eq_getElem _ _ hlen, ← List.take_succ_eq_append_getElem hlen,
      List.take_of_length_le (by rw [scSend_length]; omega)]
  have hlast := assemble_step sc _ p m hp (by omega) hrun
  have hcall : scWrite (reader.run (scGap sc) ((scSend p).take m)) ((scSend p).getD m 0) =
      ({ scFrame (scAssemble (reader.run (scGap sc) ((scSend p).take m)) ((scSend p).getD m 0)) with
          n := 0, want := 0 },
        some (scAssemble (reader.run (scGap sc) ((scSend p).take m)) ((scSend p).getD m 0))) := by
    unfold scWrite
    apply if_pos
    rw [hlast.want, hlast.n, if_neg (by omega)]
    omega
  refine ⟨scAssemble (reader.run (scGap sc) ((scSend p).take m)) ((scSend p).getD m 0), ?_, ?_, ?_, ?_⟩
  · rw [hm]
    exact hlast
  · rw [hsplit, Machine.run_append]
    change (scWrite _ _).1 = _
    rw [← hsplit, hcall]
  · have hdrop : (scSend p).dropLast = (scSend p).take m := by
      rw [List.dropLast_eq_take, scSend_length, hm, Nat.add_sub_cancel]
    rw [hdrop, htrace]
  · rw [hsplit, Machine.trace_append, ← hsplit, htrace]
    change [] ++ ((scWrite _ _).2.toList ++ []) = _
    rw [hcall]
    rfl

/-- The bytes a run of the reader queued on top of what was waiting. -/
def queuedBytes (sc sc' : Sc) : List Byte := newest sc'.resp (sc'.resp.num - sc.resp.num)

/-- READ BINARY, as the card recognises it. -/
def ReadsBinary (f : Sc) : Prop :=
  f.inBuf 6 &&& 0x80 = 0 ∧ 2 ≤ (f.inBuf 7).toNat ∧ f.inBuf 9 = 0xB0

/-- Whatever the reader was left with, a frame sent into an idle line is acted on once, on its
    last byte and as it was meant; a reply from the card or the link decodes under the
    frame's own pair to a checked frame, and READ BINARY brings the record back. -/
theorem reader_exchange (sc : Sc) (p : List Byte) (hp : PlainFrame p) :
    let sc' := reader.run (scGap sc) (scSend p)
    reader.trace (scGap sc) (scSend p).dropLast = [] ∧
      ∃ f, reader.trace (scGap sc) (scSend p) = [f] ∧ (∀ i < p.length, f.inBuf i = p.getD i 0) ∧
        (Reaches f →
          let guest := scRxBytes (scRxSeed (p.getD 2 0) (p.getD 3 0)) (queuedBytes sc sc')
          ∃ body chk, guest = [0x00, 0x00, BitVec.ofNat 8 body.length] ++ body ++ [chk] ∧
            body.length < 256 ∧ guest.foldl (· ^^^ ·) 0 = 0 ∧
            (ReadsBinary f → ∃ enc, body = enc ++ [0x90, 0x00] ∧
              scLcg enc = (List.range scRecord).map sc.record)) := by
  intro sc'
  obtain ⟨f, hf, hrun, hquiet, htrace⟩ := frame_run sc p hp
  refine ⟨hquiet, f, htrace, hf.bytes, ?_⟩
  intro hreach guest
  have hlong := hp.long
  have hresp : sc'.resp = pushes sc.resp
      (rxWalk.cipher (scRxSeed (p.getD 2 0) (p.getD 3 0)) (framed (replyBody f))) := by
    change (reader.run (scGap sc) (scSend p)).resp = _
    rw [hrun]
    change (scFrame f).resp = _
    rw [scFrame_reply f hreach, hf.resp, hf.bytes 2 (by omega), hf.bytes 3 (by omega)]
  have hlen := replyBody_length f
  have hguest : guest = framed (replyBody f) := by
    change scRxBytes _ (newest sc'.resp (sc'.resp.num - sc.resp.num)) = _
    rw [hresp, (pushes_cursors _ _).2, Nat.add_sub_cancel_left, newest_pushes, scRxBytes_eq,
      Walk.cipher_cipher]
    rw [Walk.cipher_length, framed_length]
    omega
  refine ⟨replyBody f, _, hguest, by omega, ?_, ?_⟩
  · rw [hguest]
    exact framed_checks _
  · rintro ⟨hctrl, hapdu, hins⟩
    refine ⟨scLcg ((List.range scRecord).map sc.record), ?_, scLcg_scLcg _⟩
    have hins' : (fun i => f.inBuf (8 + i)) 1 = 0xB0 := hins
    unfold replyBody cardBody
    rw [if_neg (not_not.mpr hctrl), if_neg (by omega), if_neg (by rw [hins']; decide),
      if_neg (by rw [hins']; decide), if_pos hins', hf.record]
    rfl

/-- The guest's READ BINARY of a hundred bytes, into a reader fresh from `sc_init`. -/
theorem reader_exchange_read :
    let sc := scInit fun i => BitVec.ofNat 8 i
    let p : List Byte := [0x12, 0x34, 0x56, 0x78, 0x09, 0x00, 0x00, 0x05, 0x00, 0xB0, 0x00, 0x00,
      0x64, 0x00]
    let sc' := reader.run (scGap sc) (scSend p)
    ∃ enc chk, scRxBytes (scRxSeed 0x56 0x78) (queuedBytes sc sc') =
        [0x00, 0x00, 0x66] ++ (enc ++ [0x90, 0x00]) ++ [chk] ∧
      scLcg enc = (List.range 100).map fun i => BitVec.ofNat 8 i := by
  intro sc p sc'
  obtain ⟨-, f, -, hbytes, hreply⟩ := reader_exchange sc p ⟨by decide, by decide⟩
  have hreach : Reaches f := by
    refine ⟨?_, .inr ?_⟩
    · rw [hbytes 4 (by decide)]
      decide
    · rw [hbytes 7 (by decide)]
      decide
  have hread : ReadsBinary f := by
    refine ⟨?_, ?_, hbytes 9 (by decide)⟩
    · rw [hbytes 6 (by decide)]
      decide
    · rw [hbytes 7 (by decide)]
      decide
  obtain ⟨body, chk, hguest, -, -, hbody⟩ := hreply hreach
  obtain ⟨enc, henc, hrecord⟩ := hbody hread
  have hlen : body.length = 102 := by
    have hcount := congrArg List.length hrecord
    rw [scLcg_length, List.length_map, List.length_range] at hcount
    rw [henc, List.length_append, hcount]
    rfl
  refine ⟨enc, chk, ?_, hrecord⟩
  rw [hlen, henc] at hguest
  exact hguest

end PeepeeBox.CardReaderExchange
