import PeepeeBox.KeyedQueryAgreement
import PeepeeBox.SoftPart

set_option autoImplicit false

/-!
# Rounds in succession

`dongcap.c` drives the keyed round from the host's side.
-/
namespace PeepeeBox.PictureRounds
open DongleDevice KeyedQueryAgreement KeyedRound SoftPart TraceMachine

section
variable (part : Part)

def raw (dev : Pp) (b : Byte) : Pp := (devStep part dev (.data b)).1

def cmdbyte (dev : Pp) (b : Byte) : Pp :=
  raw part (raw part (raw part dev ((b &&& 0xFE) ||| 0x80)) (b ||| 0x81)) ((b &&& 0xFE) ||| 0x80)

def payload (q : Byte) : Byte := (q <<< 1 &&& 0x0E) ||| (q <<< 2 &&& 0x60) ||| 0x80

def query (dev : Pp) (q : Byte) : Pp × Byte :=
  let pay := payload q
  let dev := raw part (raw part (raw part dev pay) (pay ||| 0x10)) pay
  let r := ppReadStatus part dev
  (r.1, r.2 >>> 5 &&& 1)

def preamble (seed : Byte) (dev : Pp) : Pp := raw part (cmdbyte part (cmdbyte part dev seed) 0x4E) 0x84

def roundLoop : ℕ → Pp → Byte → BitVec 32 → Pp × BitVec 32
  | 0, dev, _, v => (dev, v)
  | n + 1, dev, prev, v =>
    let idx := (prev &&& 1).setWidth 32 ||| (v &&& 1) <<< 1
    let v := if (idx ^^^ v) &&& 1 ≠ 0 then v >>> 1 ^^^ poly else v >>> 1
    let r := query part dev ((v >>> (8 * idx) &&& 0xFF).setWidth 8)
    roundLoop n r.1 r.2 v

/-- 39 shift steps, 40 consultations. -/
def keyedRound (seed : Byte) (dev : Pp) (v : BitVec 32) : Pp × BitVec 32 :=
  let r := query part (preamble part seed dev) ((v &&& 0xFF).setWidth 8)
  roundLoop part 39 r.1 r.2 v

def keyedRounds (seed : Byte) : Pp → List (BitVec 32) → List (BitVec 32)
  | _, [] => []
  | dev, v :: vs =>
    let r := keyedRound part seed dev v
    r.2 :: keyedRounds seed r.1 vs

end

def commandWrites (b : Byte) : List Byte := [(b &&& 0xFE) ||| 0x80, b ||| 0x81, (b &&& 0xFE) ||| 0x80]

def questionWrites (i5 : BitVec 32) : List Byte :=
  let pay := payload (i5.setWidth 8)
  [pay, pay ||| 0x10, pay]

def latchedBy (seed : Byte) (s : Byte × ℕ) : ℕ := ((commandWrites seed ++ [0xCE]).foldl modeClock s).2

/-- What is offered in `n` steps. -/
def offers (key : BitVec 32) (mode : ℕ) : ℕ → Walk → List (BitVec 32)
  | 0, _ => []
  | n + 1, w => w.offered :: offers key mode n (w.step key mode)

def clockAfter (is : List (BitVec 32)) : Byte × ℕ := (is.flatMap questionWrites).foldl modeClock (0x84, 0)

/-- The mode of the round that follows one on `v`. -/
def carried (key : BitVec 32) (init : BitVec 16) (seed : Byte) (v : BitVec 32) : ℕ :=
  latchedBy seed (clockAfter (offers key 0 40 (begin (init.setWidth 32) v)))

/-- The term of the mode that `v` leaves behind does not show in a round on `v'`. -/
def Undisturbed (key : BitVec 32) (init : BitVec 16) (seed : Byte) (v v' : BitVec 32) : Prop :=
  Quiet key (carried key init seed v) (begin (init.setWidth 32) v')

theorem offers_map (key : BitVec 32) (mode n : ℕ) (w : Walk) :
    offers key mode n w = (List.range n).map fun k => (walk key mode k w).offered := by
  induction n generalizing w with
  | zero => rfl
  | succ n ih =>
    rw [List.range_succ_eq_map, List.map_cons, List.map_map]
    unfold offers
    rw [ih]
    refine congrArg (List.cons _) (List.map_congr_left ?_)
    intro k _
    exact congrArg Walk.offered (walk_succ key mode k w).symm

theorem quiet_offers {key : BitVec 32} {mode : ℕ} {w : Walk} (h : Quiet key mode w) :
    offers key mode 40 w = offers key 0 40 w := by
  rw [offers_map, offers_map]
  refine List.map_congr_left ?_
  intro k hk
  obtain ⟨hindex, hdata⟩ := quiet_path h (Nat.le_of_lt_succ (List.mem_range.mp hk))
  unfold Walk.offered
  rw [hindex, hdata]

section
variable {part : Part} (hp : part.hdProbe = true) (hkey : part.tKey ≠ 0) (hlow : part.tSessHi = false)

def clock (dev : Pp) : Byte × ℕ := (dev.t.last, dev.t.modeclk)

theorem payload_bits : ∀ q : Byte, (payload q &&& 0x80 ≠ 0 ∧ payload q &&& 0x11 = 0) ∧
    queryIndex (payload q ||| 0x10) = q.setWidth 32 &&& 0x1F ∧
    payload ((q.setWidth 32 &&& 0x1F : BitVec 32).setWidth 8) = payload q := by
  decide +kernel

theorem payload_ok (q : Byte) : Payload (payload q) := ⟨(payload_bits q).1.1, (payload_bits q).1.2⟩

theorem payload_offered (q : Byte) : queryIndex (payload q ||| 0x10) = q.setWidth 32 &&& 0x1F := (payload_bits q).2.1

theorem payload_five (q : Byte) : payload ((q.setWidth 32 &&& 0x1F : BitVec 32).setWidth 8) = payload q :=
  (payload_bits q).2.2

include hp hkey in
theorem raws_run (dev : Pp) (ws : List Byte) :
    (ws.foldl (raw part) dev).t = keyedRun part dev.t ws := by
  have hrun : (device part).run dev (ws.map Op.data) = ws.foldl (raw part) dev := by
    induction ws generalizing dev with
    | nil => rfl
    | cons b ws ih =>
      rw [List.map_cons, Machine.run_cons, List.foldl_cons, ← ih]
      rfl
  rw [← hrun]
  exact (data_runs part hp hkey dev ws).1

include hp hkey in
theorem raws_clock (dev : Pp) (ws : List Byte) : clock (ws.foldl (raw part) dev) = ws.foldl modeClock (clock dev) := by
  unfold clock
  rw [raws_run hp hkey]
  exact keyedRun_clock part dev.t ws

include hp hlow in
theorem status_clock (dev : Pp) : clock (ppReadStatus part dev).1 = clock dev := by
  have hframe : tFramed part dev.t = none := by
    unfold tFramed
    exact if_pos (Or.inl hlow)
  have hquery : tReadQuery part dev.t = (dev.t, none) := by
    unfold tReadQuery
    rw [hframe]
  rw [ppReadStatus_hasp part dev hp]
  unfold haspStatus
  rw [hquery]
  dsimp only
  split
  · rfl
  · split
    · rfl
    · rfl

include hp hkey hlow in
theorem query_run (dev : Pp) (q : Byte) {cur i5 : BitVec 32} {m : ℕ} (h : Poised dev.t cur m)
    (hi5 : q.setWidth 32 &&& 0x1F = i5) :
    ((query part dev q).2 = if (consult part.tKey m cur i5).2 then 1 else 0) ∧
      Poised (query part dev q).1.t (consult part.tKey m cur i5).1 m ∧
      clock (query part dev q).1 = (questionWrites i5).foldl modeClock (clock dev) := by
  obtain ⟨htrace, hpoised⟩ := ask_run part hp hkey dev (payload q) cur m (payload_ok q) h
  rw [registerStep_consult, payload_offered, hi5] at htrace hpoised
  refine ⟨?_, hpoised, ?_⟩
  · have hstatus : (ppReadStatus part ([payload q, payload q ||| 0x10, payload q].foldl (raw part) dev)).2 =
        hdDo (consult part.tKey m cur i5).2 := (List.cons.inj htrace).1
    unfold query
    dsimp only
    change (ppReadStatus part ([payload q, payload q ||| 0x10, payload q].foldl (raw part) dev)).2 >>> 5 &&& 1 = _
    rw [hstatus]
    cases (consult part.tKey m cur i5).2 <;> rfl
  · have hwrites : questionWrites i5 = [payload q, payload q ||| 0x10, payload q] := by
      unfold questionWrites
      rw [← hi5, payload_five]
    rw [hwrites, ← raws_clock hp hkey]
    exact status_clock hp hlow _

include hp hkey in
theorem preamble_ready (seed : Byte) (dev : Pp) :
    Poised (preamble part seed dev).t (part.tInit.setWidth 32) (latchedBy seed (clock dev)) ∧
      clock (preamble part seed dev) = (0x84, 0) := by
  have hsplit : preamble part seed dev = (commandWrites seed ++ [0xCE] ++ [0xCF, 0xCE, 0x84]).foldl (raw part) dev := rfl
  have hclock := keyedRun_clock part dev.t (commandWrites seed ++ [0xCE])
  have hrun := raws_run hp hkey dev (commandWrites seed ++ [0xCE] ++ [0xCF, 0xCE, 0x84])
  refine ⟨?_, ?_⟩
  · rw [hsplit, hrun]
    unfold keyedRun at hclock ⊢
    rw [List.foldl_append]
    generalize (commandWrites seed ++ [0xCE]).foldl (tData part) dev.t = u at hclock ⊢
    have hlast : u.last = 0xCE := congrArg Prod.fst hclock
    have hedge := command_edge part u 0xCE (latchedBy seed (clock dev)) hlast (congrArg Prod.snd hclock)
      (by decide) (by decide)
    change Poised (tData part (tData part (tData part u 0xCF) 0xCE) 0x84) _ _
    have hkeep {t : Keyed} {v : Byte} (hrose : (v &&& ~~~t.last) &&& 0x01 = 0 ∧ (v &&& ~~~t.last) &&& 0x10 = 0)
        (h : Poised t (part.tInit.setWidth 32) (latchedBy seed (clock dev))) :
        Poised (tData part t v) (part.tInit.setWidth 32) (latchedBy seed (clock dev)) := by
      have hkept := tData_unclocked part t v (Or.inr ⟨hrose.1, Or.inr hrose.2⟩)
      refine ⟨hkept.cur.trans h.cur, hkept.mode.trans h.mode, ?_⟩
      rw [hkept.pending]
      exact pending_stays part _ v h.pending
    have hafter (t : Keyed) (v : Byte) : (tData part t v).last = v := congrArg Prod.fst (tData_seen part t v).clock
    refine hkeep ?_ (hkeep ?_ hedge)
    · rw [hafter]
      decide
    · rw [hafter]
      decide
  · rw [hsplit, raws_clock hp hkey, List.foldl_append]
    rfl

theorem offered_byte (x y : BitVec 32) : ((x >>> y &&& 0xFF).setWidth 8 : Byte).setWidth 32 &&& 0x1F = x >>> y &&& 0x1F := by
  generalize x >>> y = z
  apply BitVec.eq_of_toNat_eq
  rw [BitVec.toNat_and, BitVec.toNat_and, BitVec.toNat_setWidth, BitVec.toNat_setWidth, BitVec.toNat_and]
  change (z.toNat &&& (2 ^ 8 - 1)) % 2 ^ 8 % 2 ^ 32 &&& (2 ^ 5 - 1) = z.toNat &&& (2 ^ 5 - 1)
  rw [Nat.and_two_pow_sub_one_eq_mod, Nat.and_two_pow_sub_one_eq_mod, Nat.and_two_pow_sub_one_eq_mod]
  omega

include hp hkey hlow in
theorem roundLoop_run {m : ℕ} (n : ℕ) {dev : Pp} {prev : Byte} {w : Walk}
    (hpoised : Poised dev.t (w.step part.tKey m).cur m)
    (hprev : prev = if (consult part.tKey m w.cur w.offered).2 then 1 else 0) :
    (roundLoop part n dev prev w.data).2 = (walk part.tKey m n w).data ∧
      clock (roundLoop part n dev prev w.data).1 =
        ((offers part.tKey m n (w.step part.tKey m)).flatMap questionWrites).foldl modeClock (clock dev) := by
  induction n generalizing dev prev w with
  | zero => exact ⟨rfl, rfl⟩
  | succ n ih =>
    have hindex : (prev &&& 1).setWidth 32 ||| (w.data &&& 1) <<< 1 = (w.step part.tKey m).index := by
      change _ = bit (consult part.tKey m w.cur w.offered).2 ||| (w.data &&& 1) <<< 1
      rw [hprev]
      cases (consult part.tKey m w.cur w.offered).2 <;> rfl
    have hdata : (if ((w.step part.tKey m).index ^^^ w.data) &&& 1 ≠ 0 then w.data >>> 1 ^^^ poly else w.data >>> 1) =
        (w.step part.tKey m).data := rfl
    have hoffered : (((w.step part.tKey m).data >>> (8 * (w.step part.tKey m).index) &&& 0xFF).setWidth 8 : Byte).setWidth 32 &&&
        0x1F = (w.step part.tKey m).offered := offered_byte _ _
    obtain ⟨hans, hnext, hclock⟩ := query_run hp hkey hlow dev _ hpoised hoffered
    obtain ⟨hresult, hafter⟩ := ih (w := w.step part.tKey m) hnext hans
    unfold roundLoop
    dsimp only
    rw [hindex, hdata, walk_succ]
    refine ⟨hresult, hafter.trans ?_⟩
    rw [hclock, ← List.foldl_append]
    rfl

include hp hkey hlow in
theorem keyedRound_run (seed : Byte) (dev : Pp) (v : BitVec 32) :
    (keyedRound part seed dev v).2 =
        (walk part.tKey (latchedBy seed (clock dev)) 39 (begin (part.tInit.setWidth 32) v)).data ∧
      clock (keyedRound part seed dev v).1 =
        clockAfter (offers part.tKey (latchedBy seed (clock dev)) 40 (begin (part.tInit.setWidth 32) v)) := by
  obtain ⟨hpoised, hclock⟩ := preamble_ready hp hkey seed dev
  have hzero : v >>> (8 * (0 : BitVec 32)) = v := BitVec.ushiftRight_zero v
  have hoffered : ((v &&& 0xFF).setWidth 8 : Byte).setWidth 32 &&& 0x1F = (begin (part.tInit.setWidth 32) v).offered := by
    change _ = v >>> (8 * (0 : BitVec 32)) &&& 0x1F
    rw [← offered_byte, hzero]
  obtain ⟨hans, hnext, hasked⟩ := query_run hp hkey hlow (preamble part seed dev) _ hpoised hoffered
  obtain ⟨hresult, hafter⟩ := roundLoop_run hp hkey hlow 39 (w := begin (part.tInit.setWidth 32) v) hnext hans
  refine ⟨hresult, hafter.trans ?_⟩
  rw [hasked, hclock, ← List.foldl_append]
  rfl

def Quiets (key : BitVec 32) (init : BitVec 16) (seed : Byte) : Byte × ℕ → List (BitVec 32) → Prop
  | _, [] => True
  | s, v :: vs => Quiet key (latchedBy seed s) (begin (init.setWidth 32) v) ∧
      Quiets key init seed (clockAfter (offers key 0 40 (begin (init.setWidth 32) v))) vs

include hp hkey hlow in
theorem rounds_quiet (seed : Byte) (dev : Pp) (vs : List (BitVec 32)) :
    keyedRounds part seed dev vs = vs.map (fun v => SoftPart.keyedRound v part.tKey (part.tInit.setWidth 32)) ↔
      Quiets part.tKey part.tInit seed (clock dev) vs := by
  induction vs generalizing dev with
  | nil => exact ⟨fun _ => trivial, fun _ => rfl⟩
  | cons v vs ih =>
    obtain ⟨hresult, hclock⟩ := keyedRound_run hp hkey hlow seed dev v
    unfold keyedRounds Quiets
    dsimp only
    rw [List.map_cons, List.cons_eq_cons, hresult, keyedRound_walk, round_exact]
    refine and_congr_right ?_
    intro hquiet
    rw [quiet_offers hquiet] at hclock
    rw [ih, hclock]

theorem quiets_chain (key : BitVec 32) (init : BitVec 16) (seed : Byte) (v : BitVec 32) (vs : List (BitVec 32)) :
    Quiets key init seed (clockAfter (offers key 0 40 (begin (init.setWidth 32) v))) vs ↔
      List.IsChain (Undisturbed key init seed) (v :: vs) := by
  induction vs generalizing v with
  | nil => exact ⟨fun _ => List.IsChain.singleton v, fun _ => trivial⟩
  | cons v' vs ih =>
    rw [List.isChain_cons_cons, ← ih]
    exact Iff.rfl

theorem quiet_without (key : BitVec 32) (w : Walk) : Quiet key 0 w := fun _ _ => rfl

include hp hkey hlow in
/-- On a fresh device the rounds come out as `softpart.py` has them exactly if none leaves behind a
mode that shows in the next one. -/
theorem rounds_agree (seed : Byte) (dev : Pp) (hfresh : dev.t = initKeyed part.tInit) (vs : List (BitVec 32)) :
    keyedRounds part seed dev vs = vs.map (fun v => SoftPart.keyedRound v part.tKey (part.tInit.setWidth 32)) ↔
      List.IsChain (Undisturbed part.tKey part.tInit seed) vs := by
  rw [rounds_quiet hp hkey hlow]
  cases vs with
  | nil => exact ⟨fun _ => List.IsChain.nil, fun _ => trivial⟩
  | cons v vs =>
    have hclock : clock dev = (0, 0) := by
      unfold clock
      rw [hfresh]
      rfl
    have hmode : ∀ seed : Byte, latchedBy seed (0, 0) = 0 := by
      decide +kernel
    unfold Quiets
    rw [quiets_chain, hclock, hmode]
    exact and_iff_right (quiet_without _ _)

end

def igo2 : Config := detected "Version 2002 (DE)"

theorem igo2_part : (initPart igo2).hdProbe = true ∧ (initPart igo2).tSessHi = false ∧
    (initPart igo2).tKey = 0x3B227944 ∧ (initPart igo2).tInit = 0x7DF := by
  decide +kernel

/-- A round on 1 asks nothing that counts as a mode clock. -/
theorem rounds_agree_igo2 :
    keyedRounds (initPart igo2) 0 (ppInit igo2) [1, 0] = [0x09293872, 0x72CB2D48] := by
  obtain ⟨hp, hlow, hkey, hinit⟩ := igo2_part
  have hsome : (initPart igo2).tKey ≠ 0 := by
    rw [hkey]
    decide
  refine ((rounds_agree hp hsome hlow 0 (ppInit igo2) rfl [1, 0]).mpr ?_).trans ?_
  · rw [hkey, hinit]
    refine List.isChain_cons_cons.mpr ⟨?_, List.IsChain.singleton _⟩
    unfold Undisturbed
    decide +kernel
  · rw [hkey, hinit]
    decide +kernel

/-- A round on 0 asks index 21 once, and the next round is answered in mode 1. -/
theorem rounds_disturbed :
    keyedRounds (initPart igo2) 0 (ppInit igo2) [0, 1] ≠
      [0, 1].map fun v => SoftPart.keyedRound v (initPart igo2).tKey ((initPart igo2).tInit.setWidth 32) := by
  obtain ⟨hp, hlow, hkey, hinit⟩ := igo2_part
  have hsome : (initPart igo2).tKey ≠ 0 := by
    rw [hkey]
    decide
  intro hsame
  have hquiets := (rounds_quiet hp hsome hlow 0 (ppInit igo2) [0, 1]).mp hsame
  have hnext := hquiets.2.1
  rw [hkey, hinit] at hnext
  revert hnext
  decide +kernel

end PeepeeBox.PictureRounds
