import PeepeeBox.CdongleTransport

set_option autoImplicit false

/-!
# The picture-key query

The name and the reply travel in turns, one byte each way.
-/
namespace PeepeeBox.CdonglePictureKey
open Cdongle CdongleFrames CdonglePictures CdongleTransport DongleDevice SerialBits TraceMachine

def pictureQuery (which : Fin 4) : Byte × BitVec 16 :=
  [(0xAA, 0x038B), (0xAB, 0x0A8E), (0xAA, 0x1206), (0xAB, 0x7343)].getD which (0, 0)

def pictureHeader (which : Fin 4) (n0 n1 : Byte) : List Byte :=
  [n0, n1, (pictureQuery which).2.setWidth 8, ((pictureQuery which).2 >>> 8).setWidth 8]

def target (which : Fin 4) (name : ℕ → Byte) (i : ℕ) : Byte := cdPicS which i (name i)

def padded (name : ℕ → Byte) (n i : ℕ) : Byte := if i < n then name i else 0x20

theorem cdPicReply_eq (which : ℕ) (name : ℕ → Byte) :
    cdPicReply which name = some fun i => if i < 8 then cdPicS which i (name i) else 0 := by
  have step : ∀ j (r : ℕ → Byte), (let v := cdPicTransform which j (name j)
      if v < 0 then
        if (cdPicUsed which).getLsbD j then none else some (Function.update r j 0)
      else some (Function.update r j (BitVec.ofInt 8 v))) =
      some (Function.update r j (cdPicS which j (name j))) := by
    intro j r
    have hpos : ¬cdPicTransform which j (name j) < 0 := by
      rw [cdPicTransform]
      omega
    dsimp only
    rw [if_neg hpos, cdPicTransform, BitVec.ofInt_natCast, BitVec.ofNat_toNat,
      BitVec.setWidth_eq]
  have loop : ∀ n, (List.range n).foldlM
      (fun (r : ℕ → Byte) j =>
        let v := cdPicTransform which j (name j)
        if v < 0 then
          if (cdPicUsed which).getLsbD j then none else some (Function.update r j 0)
        else some (Function.update r j (BitVec.ofInt 8 v)))
      (fun _ => 0) = some fun i => if i < n then cdPicS which i (name i) else 0 := by
    intro n
    induction n with
    | zero => rfl
    | succ n ih =>
      rw [List.range_succ, List.foldlM_append, ih]
      simp only [Option.bind_eq_bind, Option.bind_some, List.foldlM_cons, List.foldlM_nil, step]
      congr 1
      funext i
      by_cases hi : i = n
      · subst hi
        simp
      · rw [Function.update_of_ne hi]
        have hlt : i < n + 1 ↔ i < n := by omega
        simp only [hlt]
  exact loop 8

theorem pictureHeader_case (which : Fin 4) (n0 n1 : Byte) :
    cdPictureCase (pictureQuery which).1
      (((pictureHeader which n0 n1).getD 3 0).setWidth 16 <<< 8 |||
        ((pictureHeader which n0 n1).getD 2 0).setWidth 16) = some which.val := by
  have h : ∀ which : Fin 4, cdPictureCase (pictureQuery which).1
      ((((pictureQuery which).2 >>> 8).setWidth 8).setWidth 16 <<< 8 |||
        ((pictureQuery which).2.setWidth 8).setWidth 16) = some which.val := by
    decide
  exact h which

theorem pictureQuery_cmd : ∀ which : Fin 4,
    (pictureQuery which).1 = 0xAA ∨ (pictureQuery which).1 = 0xAB := by
  decide

theorem arg_of_args {cd : Cd} {a : List Byte} (h : (List.range cd.nargs).map cd.arg = a) (i : ℕ)
    (hi : i < a.length) : cd.arg i = a.getD i 0 := by
  subst h
  simp only [List.length_map, List.length_range] at hi
  simp [hi]

variable (block : ℕ → Byte)

theorem picture_prepared (q : Cd) (which : Fin 4) (n0 n1 : Byte) (name : ℕ → Byte) (n : ℕ)
    (k : Byte) (hkey : q.key = k) (hcmd : q.cmd = (pictureQuery which).1)
    (hargs : (List.range q.nargs).map q.arg =
      pictureHeader which n0 n1 ++ (List.range n).map name) :
    (cdPrepare block q).txLen = 9 ∧ (cdPrepare block q).picReady = true ∧
      (cdPrepare block q).txBit = (if q.picReady then q.txBit else 0) ∧
      ∀ i < 9, (cdPrepare block q).tx i =
        cdWire (fun j => if j < 8 then cdPicS which j (padded name n j) else 0) i ^^^ k := by
  have hlen : q.nargs = 4 + n := by
    have h := congrArg List.length hargs
    simp only [List.length_map, List.length_range, List.length_append, pictureHeader,
      List.length_cons, List.length_nil] at h
    omega
  have hhead : ∀ i < 4, q.arg i = (pictureHeader which n0 n1).getD i 0 := by
    intro i hi
    rw [arg_of_args hargs i (by simp [pictureHeader]; omega),
      List.getD_append _ _ _ _ (by simpa [pictureHeader] using hi)]
  have hname : cdName { q with refuse := false } = padded name n := by
    funext i
    rw [cdName, padded]
    by_cases hi : i < n
    · rw [if_pos (show 4 + i < q.nargs by omega), if_pos hi]
      change q.arg (4 + i) = name i
      rw [arg_of_args hargs (4 + i) (by simp [pictureHeader]; omega),
        List.getD_append_right _ _ _ _ (by simp [pictureHeader])]
      simp [pictureHeader, hi]
    · rw [if_neg (show ¬4 + i < q.nargs by omega), if_neg hi]
  have hcase : cdPictureCase q.cmd ((q.arg 3).setWidth 16 <<< 8 ||| (q.arg 2).setWidth 16) =
      some which.val := by
    rw [hcmd, hhead 3 (by omega), hhead 2 (by omega)]
    exact pictureHeader_case which n0 n1
  have hpic : cdPreparePicture { q with refuse := false } =
      some (cdQueue (if q.picReady then { q with refuse := false }
        else { q with refuse := false, txBit := 0, picReady := true }) 9
        (cdWire fun j => if j < 8 then cdPicS which j (padded name n j) else 0)) := by
    rw [cdPreparePicture]
    simp only [hcase, hname, cdPicReply_eq]
  have hprep : cdPrepare block q = cdQueue (if q.picReady then { q with refuse := false }
        else { q with refuse := false, txBit := 0, picReady := true }) 9
        (cdWire fun j => if j < 8 then cdPicS which j (padded name n j) else 0) := by
    rw [cdPrepare]
    dsimp only
    rw [if_pos ⟨by rw [hcmd]; exact pictureQuery_cmd which, by omega⟩, hpic]
  rw [hprep]
  cases hready : q.picReady with
  | true =>
    refine ⟨rfl, rfl, rfl, fun i hi => ?_⟩
    rw [← hkey]
    exact if_pos hi
  | false =>
    refine ⟨rfl, rfl, rfl, fun i hi => ?_⟩
    rw [← hkey]
    exact if_pos hi

theorem cdWire_causal (r r' : ℕ → Byte) (i : ℕ) (hi : i < 9) (h : ∀ j ≤ i, j < 8 → r j = r' j) :
    cdWire r i = cdWire r' i := by
  rw [cdWire, cdWire]
  by_cases h0 : i = 0
  · rw [if_pos h0, if_pos h0, h 0 (by omega) (by omega)]
  rw [if_neg h0, if_neg h0]
  by_cases h8 : i = 8
  · rw [if_pos h8, if_pos h8, h 7 (by omega) (by omega)]
  rw [if_neg h8, if_neg h8, h (i - 1) (by omega) (by omega), h i (by omega) (by omega)]

/-- The claim write a host may open a read with. -/
abbrev Claim := { c : Byte // c &&& 0xF0 = 0xC0 ∨ c &&& 0xF0 = 0x80 }

def byteRead (c : Claim) : Read := ⟨c.1, c.2, 8, by omega⟩

/-- One round: a name byte in, a reply byte out. -/
def roundOps (k : Byte) (name : ℕ → Byte) (claims : ℕ → Claim) (i : ℕ) : List Op :=
  (sendByte (name i ^^^ k) 0xDF).map Op.data ++ readOps (byteRead (claims i))

def wireByte (which : Fin 4) (name : ℕ → Byte) (i : ℕ) : Byte :=
  cdWire (fun j => if j < 8 then target which name j else 0) i

/-- The token with the header and `n` bytes of the name in, and `bit` bits of the reply out. -/
structure Loaded (cd : Cd) (k : Byte) (which : Fin 4) (n0 n1 : Byte) (name : ℕ → Byte)
    (n bit : ℕ) : Prop where
  held : Held cd k (pictureQuery which).1 (pictureHeader which n0 n1 ++ (List.range n).map name)
  cursor : cd.txBit = bit
  ready : cd.picReady = true
  length : cd.txLen = 9
  queued : ∀ i < 9, cd.tx i =
    cdWire (fun j => if j < 8 then cdPicS which j (padded name n j) else 0) i ^^^ k

variable {k n0 n1 : Byte} {which : Fin 4} {name : ℕ → Byte}

theorem Loaded.settled {cd : Cd} {n bit : ℕ} (h : Loaded cd k which n0 n1 name n bit) (i : ℕ)
    (hi : i < 9) (hn : ∀ j ≤ i, j < 8 → j < n) : cd.tx i = wireByte which name i ^^^ k := by
  rw [h.queued i hi, wireByte]
  congr 1
  apply cdWire_causal _ _ i hi
  intro j hj h8
  rw [if_pos h8, if_pos h8, target, padded, if_pos (hn j hj h8)]

theorem txStream_byte (cd : Cd) (n : ℕ) :
    (List.range 8).map (fun j => txStream cd (8 * n + j)) = msbBits (cd.tx n) := by
  rw [msbBits]
  apply List.map_congr_left
  intro j hj
  have hlt := List.mem_range.mp hj
  have hdiv : (8 * n + j) / 8 = n := by omega
  have hmod : (8 * n + j) % 8 = j := by omega
  rw [txStream, hdiv, hmod]

theorem name_run (cd : Cd) (n bit : ℕ) (hn : n < 8) (h : Loaded cd k which n0 n1 name n bit) :
    Loaded (cdRun block cd (sendByte (name n ^^^ k) 0xDF)) k which n0 n1 name (n + 1) bit := by
  have hlen : (pictureHeader which n0 n1 ++ (List.range n).map name).length < 12 := by
    simp only [pictureHeader, List.length_append, List.length_cons, List.length_nil,
      List.length_map, List.length_range]
    omega
  obtain ⟨q, hq, hreply, hheld⟩ := arg_run block cd k _ (name n) _ h.held hlen
  have hargs : pictureHeader which n0 n1 ++ (List.range n).map name ++ [name n] =
      pictureHeader which n0 n1 ++ (List.range (n + 1)).map name := by
    rw [List.range_succ, List.map_append, List.append_assoc]
    rfl
  rw [hargs] at hheld
  obtain ⟨hl, hr, hb, ht⟩ := picture_prepared block q which n0 n1 name (n + 1) k hq.key hq.cmd
    (hq.args.trans hargs)
  refine ⟨hheld, ?_, hreply.picReady.trans hr, hreply.txLen.trans hl, ?_⟩
  · have hready : q.picReady = true := hq.picReady.trans h.ready
    rw [hreply.txBit, hb, if_pos hready, hq.txBit]
    exact h.cursor
  · intro i hi
    rw [hreply.tx]
    exact ht i hi

theorem byteRead_run (cd : Cd) (n m : ℕ) (c : Claim) (h : Loaded cd k which n0 n1 name n (8 * m))
    (hm : m < 9) :
    (cdPort block).trace cd (readOps (byteRead c)) = msbBits (cd.tx m) ∧
      (m < 8 → Loaded ((cdPort block).run cd (readOps (byteRead c))) k which n0 n1 name n
        (8 * (m + 1))) := by
  have hroom : cd.txBit + (byteRead c).bits ≤ cd.txLen * 8 := by
    rw [h.cursor, h.length]
    change 8 * m + 8 ≤ 9 * 8
    omega
  obtain ⟨htrace, hrun⟩ := read_run block cd (byteRead c) h.held.toOwed hroom
  refine ⟨?_, fun hlast => ?_⟩
  · rw [htrace, h.cursor]
    exact txStream_byte cd m
  · obtain ⟨ho, hk, hbit⟩ := hrun (by
      rw [h.cursor, h.length]
      change 8 * m + 8 < 9 * 8
      omega)
    refine ⟨⟨ho, ?_, ?_, ?_, ?_⟩, ?_, ?_, ?_, ?_⟩
    · rw [hk.key]
      exact h.held.key
    · rw [hk.cmd]
      exact h.held.cmd
    · rw [hk.haveCmd]
      exact h.held.haveCmd
    · rw [hk.nargs, hk.arg]
      exact h.held.args
    · rw [hbit, h.cursor]
      change 8 * m + 8 = 8 * (m + 1)
      omega
    · rw [hk.picReady]
      exact h.ready
    · rw [hk.txLen]
      exact h.length
    · rw [hk.tx]
      exact h.queued

theorem round_run (claims : ℕ → Claim) (cd : Cd) (n : ℕ) (hn : n < 8)
    (h : Loaded cd k which n0 n1 name n (8 * n)) :
    (cdPort block).trace cd (roundOps k name claims n) = msbBits (wireByte which name n ^^^ k) ∧
      Loaded ((cdPort block).run cd (roundOps k name claims n)) k which n0 n1 name (n + 1)
        (8 * (n + 1)) := by
  obtain ⟨hw, hs⟩ := cdPort_writes block cd (sendByte (name n ^^^ k) 0xDF)
  have hloaded := name_run block cd n (8 * n) hn h
  obtain ⟨htrace, hrun⟩ := byteRead_run block _ (n + 1) n (claims n) hloaded (by omega)
  rw [roundOps, Machine.trace_append, Machine.run_append, hs, hw, htrace, List.nil_append,
    hloaded.settled n (by omega) (by omega)]
  exact ⟨rfl, hrun hn⟩

theorem rounds_run (claims : ℕ → Claim) (cd : Cd) (h : Loaded cd k which n0 n1 name 0 0) (n : ℕ)
    (hn : n ≤ 8) :
    (cdPort block).trace cd ((List.range n).flatMap (roundOps k name claims)) =
        ((List.range n).flatMap fun i => msbBits (wireByte which name i ^^^ k)) ∧
      Loaded ((cdPort block).run cd ((List.range n).flatMap (roundOps k name claims)))
        k which n0 n1 name n (8 * n) := by
  induction n with
  | zero => exact ⟨rfl, h⟩
  | succ n ih =>
    obtain ⟨htrace, hloaded⟩ := ih (by omega)
    obtain ⟨hround, hnext⟩ := round_run block claims _ n (by omega) hloaded
    rw [List.range_succ, List.flatMap_append, List.flatMap_append, Machine.trace_append,
      Machine.run_append, htrace, List.flatMap_singleton, List.flatMap_singleton, hround]
    exact ⟨rfl, hnext⟩

/-- The query as a whole: header, eight rounds, and the ninth byte. -/
def queryOps (v : Byte) (which : Fin 4) (n0 n1 : Byte) (name : ℕ → Byte) (claims : ℕ → Claim) :
    List Op :=
  (request v (pictureQuery which).1 (pictureHeader which n0 n1)).map Op.data ++
    (List.range 8).flatMap (roundOps (v ^^^ 0xD3) name claims) ++ readOps (byteRead (claims 8))

theorem header_run (cd : Cd) (v : Byte) :
    Loaded (cdRun block cd (request v (pictureQuery which).1 (pictureHeader which n0 n1)))
      (v ^^^ 0xD3) which n0 n1 name 0 0 := by
  -- the last header byte is the one that builds the first reply
  have hsplit : pictureHeader which n0 n1 =
      [n0, n1, (pictureQuery which).2.setWidth 8] ++
        [((pictureQuery which).2 >>> 8).setWidth 8] := rfl
  have hrequest : request v (pictureQuery which).1 (pictureHeader which n0 n1) =
      request v (pictureQuery which).1 [n0, n1, (pictureQuery which).2.setWidth 8] ++
        sendByte (((pictureQuery which).2 >>> 8).setWidth 8 ^^^ (v ^^^ 0xD3)) 0xDF := by
    rw [hsplit, request, request, List.flatMap_append, List.flatMap_singleton]
    simp only [List.append_assoc]
  obtain ⟨hheld, hzero⟩ := request_run block cd v (pictureQuery which).1
    [n0, n1, (pictureQuery which).2.setWidth 8] (by simp)
  rw [hrequest, cdRun_append]
  obtain ⟨q, hq, hreply, hnext⟩ := arg_run block _ (v ^^^ 0xD3) _
    (((pictureQuery which).2 >>> 8).setWidth 8) _ hheld (by simp)
  have hargs : pictureHeader which n0 n1 ++ (List.range 0).map name =
      [n0, n1, (pictureQuery which).2.setWidth 8] ++
        [((pictureQuery which).2 >>> 8).setWidth 8] := rfl
  obtain ⟨hl, hr, hb, ht⟩ := picture_prepared block q which n0 n1 name 0 (v ^^^ 0xD3) hq.key hq.cmd
    (hq.args.trans hargs.symm)
  refine ⟨?_, ?_, hreply.picReady.trans hr, hreply.txLen.trans hl, ?_⟩
  · rw [hargs]
    exact hnext
  · rw [hreply.txBit, hb, hq.txBit, hzero]
    exact ite_self 0
  · intro i hi
    rw [hreply.tx]
    exact ht i hi

theorem query_run (cd : Cd) (v : Byte) (claims : ℕ → Claim) :
    (cdPort block).trace cd (queryOps v which n0 n1 name claims) =
      (List.range 9).flatMap fun i => msbBits (wireByte which name i ^^^ (v ^^^ 0xD3)) := by
  obtain ⟨hw, hs⟩ := cdPort_writes block cd
    (request v (pictureQuery which).1 (pictureHeader which n0 n1))
  obtain ⟨htrace, hloaded⟩ := rounds_run block claims _ (header_run block cd v) 8
    (Nat.le_refl 8)
  obtain ⟨hlast, -⟩ := byteRead_run block _ 8 8 (claims 8) hloaded (by omega)
  have hnine : List.range 9 = List.range 8 ++ [8] := rfl
  rw [queryOps, Machine.trace_append, Machine.trace_append, Machine.run_append, hs, hw, htrace,
    hlast, hloaded.settled 8 (by omega) (by omega), hnine, List.flatMap_append,
    List.flatMap_singleton]
  rfl

/-- Byte `i` of what the host sampled, with the key taken off. -/
def received (bits : List Bool) (k : Byte) (i : ℕ) : Byte :=
  collect (0 : Byte) ((bits.drop (i * 8)).take 8) ^^^ k

theorem high_nibble (a x : Byte) : (a &&& 0xF0 ||| x &&& 0x0F) &&& 0xF0 = a &&& 0xF0 := by
  have hx : (x &&& 0x0F) &&& 0xF0 = (0 : Byte) := by
    rw [BitVec.and_assoc]
    exact BitVec.and_zero
  have ha : (a &&& 0xF0) &&& 0xF0 = a &&& 0xF0 := by
    rw [BitVec.and_assoc]
    rfl
  rw [BitVec.and_or_distrib_right, ha, hx]
  exact BitVec.or_zero

theorem low_nibble (a y : Byte) : (y &&& 0xF0 ||| a &&& 0x0F) &&& 0x0F = a &&& 0x0F := by
  have hy : (y &&& 0xF0) &&& 0x0F = (0 : Byte) := by
    rw [BitVec.and_assoc]
    exact BitVec.and_zero
  have ha : (a &&& 0x0F) &&& 0x0F = a &&& 0x0F := by
    rw [BitVec.and_assoc]
    rfl
  rw [BitVec.and_or_distrib_right, ha, hy]
  exact BitVec.zero_or

theorem nibbles (a : Byte) : (a &&& 0xF0) ||| (a &&& 0x0F) = a := by
  revert a
  decide +kernel

theorem merge_wire (r : ℕ → Byte) (i : ℕ) (hi : i < 8) :
    (cdWire r (i + 1) &&& 0xF0) ||| (cdWire r i &&& 0x0F) = r i := by
  have hhigh : cdWire r (i + 1) &&& 0xF0 = r i &&& 0xF0 := by
    rw [cdWire, if_neg (by omega)]
    by_cases h7 : i = 7
    · subst h7
      rw [if_pos rfl, BitVec.and_assoc]
      rfl
    · rw [if_neg (by omega), Nat.add_sub_cancel]
      exact high_nibble _ _
  have hlow : cdWire r i &&& 0x0F = r i &&& 0x0F := by
    rw [cdWire]
    by_cases h0 : i = 0
    · subst h0
      rw [if_pos rfl, BitVec.and_assoc]
      rfl
    · rw [if_neg h0, if_neg (by omega)]
      exact low_nibble _ _
  rw [hhigh, hlow, nibbles]

theorem plain_writes (vals : List Byte) : ∀ op ∈ vals.map Op.data, Plain op := by
  intro op hop
  obtain ⟨v, -, h⟩ := List.mem_map.mp hop
  exact .inr ⟨v, h.symm⟩

theorem plain_query (v : Byte) (claims : ℕ → Claim) :
    ∀ op ∈ queryOps v which n0 n1 name claims, Plain op := by
  have hread : ∀ i, ∀ op ∈ readOps (byteRead (claims i)), Plain op := by
    intro i op hop
    apply plain_readOps [byteRead (claims i)] op
    rw [List.flatMap_singleton]
    exact hop
  intro op hop
  rw [queryOps, List.mem_append, List.mem_append] at hop
  rcases hop with (hop | hop) | hop
  · exact plain_writes _ op hop
  · obtain ⟨i, -, hi⟩ := List.mem_flatMap.mp hop
    rw [roundOps, List.mem_append] at hi
    rcases hi with hi | hi
    · exact plain_writes _ op hi
    · exact hread i op hi
  · exact hread 8 op hop

/-- Every name is answered with its own eight bytes, under every key and from any state of
    the device, although each reply byte leaves before the next name byte arrives. -/
theorem picture_key_query (part : Part) (dev : Pp) (which : Fin 4) (v n0 n1 : Byte)
    (name : ℕ → Byte) (claims : ℕ → Claim) :
    let bits := (ackLine part).trace dev (queryOps v which n0 n1 name claims)
    let recv := received bits (v ^^^ 0xD3)
    bits.length = 72 ∧
      ∀ i < 8, (recv (i + 1) &&& 0xF0) ||| (recv i &&& 0x0F) = cdPicS which i (name i) := by
  intro bits recv
  have hbits : bits =
      (List.range 9).flatMap fun i => msbBits (wireByte which name i ^^^ (v ^^^ 0xD3)) := by
    change (ackLine part).trace dev _ = _
    rw [(ackLine_simulates part dev.link.block).trace ⟨rfl, rfl⟩ _ (plain_query v claims)]
    exact query_run dev.link.block dev.cd v claims
  have hrecv : ∀ i < 9, recv i = wireByte which name i := by
    intro i hi
    change collect (0 : Byte) ((bits.drop (i * 8)).take 8) ^^^ (v ^^^ 0xD3) = _
    rw [hbits, flatMap_msbBits_word _ 9 i hi, collect_msbBits, BitVec.xor_assoc, BitVec.xor_self,
      BitVec.xor_zero]
  refine ⟨?_, fun i hi => ?_⟩
  · rw [hbits, flatMap_msbBits_length]
  · rw [hrecv (i + 1) (by omega), hrecv i (by omega), wireByte, wireByte, merge_wire _ i hi,
      if_pos hi]
    rfl

end PeepeeBox.CdonglePictureKey
