import PeepeeBox.EloSettings

set_option autoImplicit false

/-!
# Replaying a configuration

The packets of a Configuration query, written back to a controller, against the settings of the controller that
sent them.
-/
namespace PeepeeBox.EloReplay
open CharModem (ch toupper)
open Elo EloSettings TraceMachine

/-- Bytes written, each with what the user timer has left then. -/
def writes (v : Controller) (ws : List (Byte × BitVec 16)) : Controller := ws.foldl (fun v w => eloWrite w.2 v w.1) v

theorem writes_append (v : Controller) (ws ws' : List (Byte × BitVec 16)) :
    writes v (ws ++ ws') = writes (writes v ws) ws' := List.foldl_append

theorem word_low_high (x : BitVec 16) : word (x.setWidth 8) ((x >>> 8).setWidth 8) = x := by
  apply BitVec.eq_of_getLsbD_eq
  intro i hi
  unfold word
  rw [BitVec.getLsbD_append]
  by_cases hlow : i < 8
  · simp [hlow]
  · have hhigh : i - 8 < 8 := by omega
    have hsum : 8 + (i - 8) = i := by omega
    simp [hlow, hhigh, hsum]

theorem format_digit {x : Byte} (h : x ≤ 7) : format (ch '0' + x) = x := by
  revert h
  revert x
  decide +kernel

theorem writes_body (v : Controller) (ws : List (Byte × BitVec 16)) {pos : ℕ} (hpos : v.dev.cmdPos = some pos)
    (hroom : pos + ws.length ≤ 8) :
    writes v ws =
      { v with dev := { v.dev with cmdPos := some (pos + ws.length), body := v.dev.body ++ ws.map Prod.fst } } := by
  induction ws generalizing v pos with
  | nil =>
    rw [List.length_nil, Nat.add_zero, ← hpos, List.map_nil, List.append_nil]
    rfl
  | cons w ws ih =>
    have hlt : pos < 8 := by
      rw [List.length_cons] at hroom
      omega
    have hwrite : eloWrite w.2 v w.1 =
        { v with dev := { v.dev with cmdPos := some (pos + 1), body := v.dev.body ++ [w.1] } } := by
      unfold eloWrite
      simp only [hpos]
      rw [if_pos hlt]
    change writes (eloWrite w.2 v w.1) ws = _
    rw [hwrite, ih _ rfl (by rw [List.length_cons] at hroom; omega)]
    simp only [List.length_cons, List.map_cons, List.append_assoc, List.singleton_append]
    rw [show pos + 1 + ws.length = pos + (ws.length + 1) by omega]

def lead (key : Byte) : Byte := if key ≠ 0 then 0x16 else 0x55

def sumOf (key cmd : Byte) (data : List Byte) : Byte :=
  let sum := (cmd :: data).foldl (· + ·) (0xAA + lead key)
  if key ≠ 0 then sum + key else sum

theorem packet_eq (key cmd : Byte) (data : List Byte) :
    packet key cmd data =
      [lead key] ++ (cmd :: data) ++ (if key ≠ 0 then [key] else []) ++ [sumOf key cmd data] := by
  unfold packet sumOf lead
  by_cases hkey : key ≠ 0
  · simp only [if_pos hkey, List.cons_append, List.nil_append, List.foldl_cons, List.foldl_append, List.foldl_nil]
  · simp only [if_neg hkey, List.cons_append, List.nil_append, List.append_nil, List.foldl_cons]

theorem writes_lead {v : Controller} (hidle : v.dev.cmdPos = none) (key : Byte) (cur : BitVec 16) :
    eloWrite cur v (lead key) =
      { v with dev := { v.dev with cmdPos := some 0, body := [], inKeyed := decide (key ≠ 0) } } := by
  unfold eloWrite lead
  simp only [hidle]
  by_cases hkey : key ≠ 0
  · rw [if_pos hkey, if_neg (by decide), if_pos rfl, decide_eq_true hkey]
  · rw [if_neg hkey, if_pos rfl, decide_eq_false hkey]

theorem writes_key {v : Controller} {key : Byte} (hkeyed : v.dev.inKeyed = decide (key ≠ 0))
    (hpos : v.dev.cmdPos = some 8) {ws : List (Byte × BitVec 16)}
    (hws : ws.map Prod.fst = if key ≠ 0 then [key] else []) :
    ∃ pos inKey, 8 ≤ pos ∧ (v.dev.inKeyed = true → pos = 9 ∧ inKey = key) ∧
      writes v ws = { v with dev := { v.dev with cmdPos := some pos, inKey := inKey } } := by
  by_cases hkey : key ≠ 0
  · rw [if_pos hkey] at hws
    obtain ⟨w, rfl, hw⟩ := List.map_eq_singleton_iff.mp hws
    refine ⟨9, key, by decide, fun _ => ⟨rfl, rfl⟩, ?_⟩
    change eloWrite w.2 v w.1 = _
    unfold eloWrite
    simp only [hpos]
    rw [if_neg (by decide), hkeyed, decide_eq_true hkey, if_pos (by decide), hw]
  · rw [if_neg hkey] at hws
    rw [List.map_eq_nil_iff.mp hws]
    refine ⟨8, v.dev.inKey, by decide, fun h => ?_, ?_⟩
    · rw [hkeyed] at h
      exact absurd (of_decide_eq_true h) hkey
    · rw [← hpos]
      rfl

theorem writes_packet {v : Controller} (hidle : v.dev.cmdPos = none) {key cmd : Byte} {data : List Byte}
    (hkey : key = 0 ∨ v.dev.setup.keyValue = key) (hdata : data.length = 7) {ws : List (Byte × BitVec 16)}
    (hws : ws.map Prod.fst = packet key cmd data) :
    ∃ cur dev, writes v ws = eloProcessCommand cur { v with dev := dev } (cmd :: data) ∧
      settings dev = settings v.dev ∧ dev.cmdPos = none := by
  rw [packet_eq] at hws
  obtain ⟨ws', ws₃, rfl, hws', hws₃⟩ := List.map_eq_append_iff.mp hws
  obtain ⟨ws'', ws₂, rfl, hws'', hws₂⟩ := List.map_eq_append_iff.mp hws'
  obtain ⟨ws₀, ws₁, rfl, hws₀, hws₁⟩ := List.map_eq_append_iff.mp hws''
  obtain ⟨w₀, rfl, hw₀⟩ := List.map_eq_singleton_iff.mp hws₀
  obtain ⟨w₃, rfl, hw₃⟩ := List.map_eq_singleton_iff.mp hws₃
  have hlength : ws₁.length = 8 := by
    rw [← List.length_map Prod.fst, hws₁, List.length_cons, hdata]
  rw [writes_append, writes_append, writes_append]
  rw [show writes v [w₀] = eloWrite w₀.2 v w₀.1 from rfl, hw₀, writes_lead hidle,
    writes_body _ ws₁ rfl (by omega), hlength, hws₁, List.nil_append]
  obtain ⟨pos, inKey, hpos, hkeyed, hkeys⟩ := writes_key (v := { v with
    dev := { v.dev with cmdPos := some 8, body := cmd :: data, inKeyed := decide (key ≠ 0) } }) rfl rfl hws₂
  rw [show (0 : ℕ) + 8 = 8 from rfl, hkeys]
  refine ⟨w₃.2, { v.dev with cmdPos := none, body := cmd :: data, inKeyed := decide (key ≠ 0), inKey }, ?_, rfl, rfl⟩
  rw [show ∀ v, writes v [w₃] = eloWrite w₃.2 v w₃.1 from fun _ => rfl]
  have hsum : inSum { v.dev with cmdPos := none, body := cmd :: data, inKeyed := decide (key ≠ 0), inKey } = w₃.1 := by
    rw [hw₃]
    unfold inSum sumOf lead
    dsimp only
    by_cases hkey : key ≠ 0
    · simp only [decide_eq_true hkey, if_pos hkey, if_true, (hkeyed (decide_eq_true hkey)).2]
    · simp only [decide_eq_false hkey, if_neg hkey, Bool.false_eq_true, if_false]
  have hnot : ¬(decide (key ≠ 0) && decide (pos = 8)) = true := by
    intro h
    obtain ⟨hk, hp⟩ := (Bool.and_eq_true _ _).mp h
    have hnine := (hkeyed hk).1
    have height := of_decide_eq_true hp
    omega
  have hours : ¬(decide (key ≠ 0) && decide (inKey ≠ v.dev.setup.keyValue)) = true := by
    intro h
    obtain ⟨hk, hother⟩ := (Bool.and_eq_true _ _).mp h
    rcases hkey with hzero | hours
    · exact of_decide_eq_true hk hzero
    · exact of_decide_eq_true hother ((hkeyed hk).2.trans hours.symm)
  unfold eloWrite
  dsimp only
  rw [if_neg (by omega), if_neg hnot, hsum, if_neg (by simp), if_neg hours]

structure Replay where
  cmd : Byte
  data : List Byte
  set : Settings → Settings

/-- A capital letter, and not the NVRAM's. -/
def Plain (cmd : Byte) : Prop := toupper cmd = cmd ∧ islower cmd = false ∧ cmd ≠ ch 'N'

instance (cmd : Byte) : Decidable (Plain cmd) := inferInstanceAs (Decidable (_ ∧ _))

structure Takes (r : Replay) : Prop where
  plain : Plain r.cmd
  length : r.data.length = 7
  sets : ∀ cur dev, settings (left (command cur dev r.cmd false r.data)) = r.set (settings dev)

def setCal (axis : Fin 2) (p : Points) (s : Settings) : Settings :=
  { s with
    cal := setPoints s.cal axis (BitVec.ofInt 16 (p.lo axis)).toNat (BitVec.ofInt 16 (p.hi axis)).toNat }

def setScale (axis : Fin 2) (p : Points) (s : Settings) : Settings :=
  { s with
    scale := setPoints s.scale axis (BitVec.ofInt 16 (p.lo axis)).toInt (BitVec.ofInt 16 (p.hi axis)).toInt }

def forces (format : Byte) : Prop := format = 2 ∨ format = 3

instance (format : Byte) : Decidable (forces format) := inferInstanceAs (Decidable (_ ∨ _))

def setEmulate (t : Setup) (s : Settings) : Settings :=
  let s := { s with setup := { s.setup with emulTouchflag := t.emulTouchflag, emulFormat := t.emulFormat } }
  if forces t.emulFormat then
    { s with
      scale := { lo := fun _ => elo280Lo, hi := fun _ => elo280Hi }
      setup := { s.setup with mode2 := s.setup.mode2 ||| eloM2Scale } }
  else s

def points (p : Points) (axis : Fin 2) : List Byte :=
  [low (p.lo axis), high (p.lo axis), low (p.hi axis), high (p.hi axis), 0, 0]

def replays (t : Settings) : List Replay :=
  let u := t.setup
  [{ cmd := ch 'M', data := [0, u.mode1, u.mode2, 0, 0, 0, 0]
     set := fun s => { s with setup := { s.setup with mode1 := u.mode1 ||| eloM1Zreserved, mode2 := u.mode2 } } },
    { cmd := ch 'B', data := [u.untouchDelay, u.repDelay, 0, 0, 0, 0, 0]
      set := fun s =>
        { s with setup := { s.setup with untouchDelay := u.untouchDelay &&& 0x0F, repDelay := u.repDelay } } },
    { cmd := ch 'C', data := ch 'X' :: points t.cal 0, set := setCal 0 t.cal },
    { cmd := ch 'C', data := ch 'Y' :: points t.cal 1, set := setCal 1 t.cal },
    { cmd := ch 'C', data := [ch 'S', if u.swapAxes then 1 else 0, 0, 0, 0, 0, 0]
      set := fun s => { s with setup := { s.setup with swapAxes := u.swapAxes } } },
    { cmd := ch 'S', data := ch 'X' :: points t.scale 0, set := setScale 0 t.scale },
    { cmd := ch 'S', data := ch 'Y' :: points t.scale 1, set := setScale 1 t.scale },
    { cmd := ch 'S', data := [ch 'I', u.invertMask, 0, 0, 0, 0, 0]
      set := fun s => { s with setup := { s.setup with invertMask := u.invertMask &&& 0x07 } } },
    { cmd := ch 'F', data := [ch '0', u.filterSlen, u.filterWidth, u.filterStates, u.filterControl, 0, 0]
      set := fun s =>
        { s with
          setup :=
            { s.setup with
              filterSlen := u.filterSlen, filterWidth := u.filterWidth, filterStates := u.filterStates
              filterControl := u.filterControl } } },
    { cmd := ch 'H'
      data := [u.timerEnable, u.timerMode, u.timerInterval.setWidth 8, (u.timerInterval >>> 8).setWidth 8, 0, 0, 0]
      set := fun s =>
        { s with
          setup :=
            { s.setup with
              timerEnable := u.timerEnable &&& 1, timerMode := u.timerMode &&& 1, timerInterval := u.timerInterval } } },
    { cmd := ch 'E', data := [if u.emulTouchflag then ch '1' else ch '0', ch '0' + u.emulFormat, 0, 0, 0, 0, 0]
      set := setEmulate u },
    { cmd := ch 'L', data := [u.lowPower, 0, 0, 0, 0, 0, 0]
      set := fun s => { s with setup := { s.setup with lowPower := u.lowPower &&& 1 } } },
    { cmd := ch 'K', data := [u.keyValue, 0, 0, 0, 0, 0, 0]
      set := fun s => { s with setup := { s.setup with keyValue := u.keyValue } } },
    { cmd := ch 'O', data := u.owner, set := fun s => { s with setup := { s.setup with owner := u.owner.take 7 } } },
    { cmd := ch 'P', data := [ch '0', u.ser1, u.ser2, 0, 0, 0, 0]
      set := fun s => { s with setup := { s.setup with ser1 := u.ser1, ser2 := u.ser2 } } }]

theorem word_points (v : ℤ) : word (low v) (high v) = BitVec.ofInt 16 v := word_low_high _

theorem takes_cal (p : Points) {sub : Byte} {axis : Fin 2} (h : sub = ch 'X' ∧ axis = 0 ∨ sub = ch 'Y' ∧ axis = 1) :
    Takes { cmd := ch 'C', data := sub :: points p axis, set := setCal axis p } where
  plain := show Plain (ch 'C') by decide
  length := rfl
  sets cur dev := by
    unfold setCal
    rw [← word_points, ← word_points]
    rcases h with ⟨rfl, rfl⟩ | ⟨rfl, rfl⟩ <;> rfl

theorem takes_scale (p : Points) {sub : Byte} {axis : Fin 2} (h : sub = ch 'X' ∧ axis = 0 ∨ sub = ch 'Y' ∧ axis = 1) :
    Takes { cmd := ch 'S', data := sub :: points p axis, set := setScale axis p } where
  plain := show Plain (ch 'S') by decide
  length := rfl
  sets cur dev := by
    unfold setScale
    rw [← word_points, ← word_points]
    rcases h with ⟨rfl, rfl⟩ | ⟨rfl, rfl⟩ <;> rfl

theorem takes_emulate (t : Setup) (hformat : t.emulFormat ≤ 7) :
    Takes
      { cmd := ch 'E', data := [if t.emulTouchflag then ch '1' else ch '0', ch '0' + t.emulFormat, 0, 0, 0, 0, 0]
        set := setEmulate t } where
  plain := show Plain (ch 'E') by decide
  length := rfl
  sets cur dev := by
    have hdigit := format_digit hformat
    have hrange : ¬7 < t.emulFormat := BitVec.not_lt.mpr hformat
    change settings (left (emulate dev false
      [if t.emulTouchflag then ch '1' else ch '0', ch '0' + t.emulFormat, 0, 0, 0, 0, 0])) = _
    unfold emulate setEmulate
    simp only [arg, List.getD_cons_zero, List.getD_cons_succ, hdigit, hrange, decide_false, Bool.and_false,
      Bool.false_eq_true, if_false]
    by_cases hforces : t.emulFormat = 2 ∨ t.emulFormat = 3
    · simp only [if_pos hforces, if_pos (show forces t.emulFormat from hforces)]
      cases t.emulTouchflag <;> rfl
    · simp only [if_neg hforces, if_neg (show ¬forces t.emulFormat from hforces)]
      cases t.emulTouchflag <;> rfl

theorem takes_all (t : Settings) (h : Sound t.setup) : ∀ r ∈ replays t, Takes r := by
  refine List.forall_mem_cons.mpr ⟨⟨show Plain (ch 'M') by decide, rfl, fun _ _ => rfl⟩, ?_⟩
  refine List.forall_mem_cons.mpr ⟨⟨show Plain (ch 'B') by decide, rfl, fun _ _ => rfl⟩, ?_⟩
  refine List.forall_mem_cons.mpr ⟨takes_cal t.cal (.inl ⟨rfl, rfl⟩), ?_⟩
  refine List.forall_mem_cons.mpr ⟨takes_cal t.cal (.inr ⟨rfl, rfl⟩), ?_⟩
  refine List.forall_mem_cons.mpr ⟨⟨show Plain (ch 'C') by decide, rfl, fun cur dev => ?_⟩, ?_⟩
  · cases hswap : t.setup.swapAxes <;> rfl
  refine List.forall_mem_cons.mpr ⟨takes_scale t.scale (.inl ⟨rfl, rfl⟩), ?_⟩
  refine List.forall_mem_cons.mpr ⟨takes_scale t.scale (.inr ⟨rfl, rfl⟩), ?_⟩
  refine List.forall_mem_cons.mpr ⟨⟨show Plain (ch 'S') by decide, rfl, fun _ _ => rfl⟩, ?_⟩
  refine List.forall_mem_cons.mpr ⟨⟨show Plain (ch 'F') by decide, rfl, fun _ _ => rfl⟩, ?_⟩
  refine List.forall_mem_cons.mpr ⟨⟨show Plain (ch 'H') by decide, rfl, fun cur dev => ?_⟩, ?_⟩
  · calc
      _ = { settings dev with
            setup :=
              { dev.setup with
                timerEnable := t.setup.timerEnable &&& 1, timerMode := t.setup.timerMode &&& 1
                timerInterval :=
                  word (t.setup.timerInterval.setWidth 8) ((t.setup.timerInterval >>> 8).setWidth 8) } } := rfl
      _ = _ := by rw [word_low_high]; rfl
  refine List.forall_mem_cons.mpr ⟨takes_emulate t.setup h.emulFormat, ?_⟩
  refine List.forall_mem_cons.mpr ⟨⟨show Plain (ch 'L') by decide, rfl, fun _ _ => rfl⟩, ?_⟩
  refine List.forall_mem_cons.mpr ⟨⟨show Plain (ch 'K') by decide, rfl, fun _ _ => rfl⟩, ?_⟩
  refine List.forall_mem_cons.mpr ⟨⟨show Plain (ch 'O') by decide, h.owner, fun _ _ => rfl⟩, ?_⟩
  exact List.forall_mem_singleton.mpr ⟨show Plain (ch 'P') by decide, rfl, fun _ _ => rfl⟩

theorem settings_finish (base : Byte) (query : Bool) (o : Outcome) :
    settings (finish base query o) = settings (left o) := by
  cases o with
  | returns dev => rfl
  | answers dev resp =>
    cases query
    · exact settings_queued (eloAck_queued _ _)
    · exact (settings_queued (eloAck_queued _ _)).trans (settings_queued (eloEnqueue_queued _ _ _))
  | acks dev => exact settings_queued (eloAck_queued _ _)

theorem process_plain {cmd : Byte} (h : Plain cmd) (cur : BitVec 16) (v : Controller) (data : List Byte) :
    settings (eloProcessCommand cur v (cmd :: data)).dev = settings (left (command cur v.dev cmd false data)) ∧
      (eloProcessCommand cur v (cmd :: data)).dev.cmdPos = v.dev.cmdPos := by
  obtain ⟨hupper, hquery, hplain⟩ := h
  unfold eloProcessCommand
  dsimp only
  rw [show arg (cmd :: data) 0 = cmd from rfl, show (cmd :: data).drop 1 = data from rfl, hupper, hquery,
    if_neg hplain]
  refine ⟨settings_finish _ _ _, ?_⟩
  exact (congrArg Core.cmdPos (core_finish _ _ _)).trans (body_command cur v.dev cmd false data).2

theorem writes_replays {key : Byte} (rs : List Replay) (hrs : ∀ r ∈ rs, Takes r)
    (hkeep : ∀ r ∈ rs, ∀ s : Settings, s.setup.keyValue = key → (r.set s).setup.keyValue = key) {v : Controller}
    (hidle : v.dev.cmdPos = none) (hkey : key = 0 ∨ v.dev.setup.keyValue = key) {ws : List (Byte × BitVec 16)}
    (hws : ws.map Prod.fst = (rs.map fun r => packet key r.cmd r.data).flatten) :
    settings (writes v ws).dev = rs.foldl (fun s r => r.set s) (settings v.dev) := by
  induction rs generalizing v ws with
  | nil =>
    rw [List.map_eq_nil_iff.mp hws]
    rfl
  | cons r rs ih =>
    obtain ⟨ws₁, ws₂, rfl, hws₁, hws₂⟩ := List.map_eq_append_iff.mp hws
    have hr := hrs r (by simp)
    obtain ⟨cur, dev, hwrites, hsettings, hpos⟩ := writes_packet hidle hkey hr.length hws₁
    obtain ⟨hset, hpos'⟩ := process_plain hr.plain cur { v with dev := dev } r.data
    rw [hr.sets, hsettings, ← hwrites] at hset
    rw [← hwrites] at hpos'
    rw [writes_append, List.foldl_cons, ← hset]
    refine ih (fun r hr => hrs r (by simp [hr])) (fun r hr => hkeep r (by simp [hr])) (hpos'.trans hpos) ?_ hws₂
    refine hkey.imp_right fun hkey => ?_
    change (settings (writes v ws₁).dev).setup.keyValue = key
    rw [hset]
    exact hkeep r (by simp) _ hkey

structure Replayed (t s : Settings) : Prop where
  setup : { s.setup with mode2 := t.setup.mode2 } = t.setup
  mode2 : (forces t.setup.emulFormat → has t.setup.mode2 eloM2Scale = true) → s.setup.mode2 = t.setup.mode2
  cal : ∀ axis, (0 ≤ t.cal.lo axis ∧ t.cal.lo axis < 65536 → s.cal.lo axis = t.cal.lo axis) ∧
    (0 ≤ t.cal.hi axis ∧ t.cal.hi axis < 65536 → s.cal.hi axis = t.cal.hi axis)
  scale : ∀ axis, (forces t.setup.emulFormat → t.scale.lo axis = elo280Lo ∧ t.scale.hi axis = elo280Hi) →
    (-32768 ≤ t.scale.lo axis ∧ t.scale.lo axis < 32768 → s.scale.lo axis = t.scale.lo axis) ∧
      (-32768 ≤ t.scale.hi axis ∧ t.scale.hi axis < 32768 → s.scale.hi axis = t.scale.hi axis)

theorem ofInt_toNat {v : ℤ} (h : 0 ≤ v ∧ v < 65536) : ((BitVec.ofInt 16 v).toNat : ℤ) = v := by
  rw [BitVec.toNat_ofInt]
  omega

theorem ofInt_toInt {v : ℤ} (h : -32768 ≤ v ∧ v < 32768) : (BitVec.ofInt 16 v).toInt = v := by
  rw [BitVec.toInt_ofInt]
  exact Int.bmod_eq_of_le (by omega) (by omega)

theorem or_scale {x : Byte} (h : has x eloM2Scale = true) : x ||| eloM2Scale = x := by
  revert h
  revert x
  decide +kernel

theorem setPoints_both (p q : Points) : setPoints (setPoints p 0 (q.lo 0) (q.hi 0)) 1 (q.lo 1) (q.hi 1) = q := by
  have hboth (f g : Fin 2 → ℤ) : Function.update (Function.update f 0 (g 0)) 1 (g 1) = g := by
    funext axis
    match axis with
    | 0 => rfl
    | 1 => rfl
  unfold setPoints
  rw [hboth, hboth]

def unsignedPoints (p : Points) : Points where
  lo axis := (BitVec.ofInt 16 (p.lo axis)).toNat
  hi axis := (BitVec.ofInt 16 (p.hi axis)).toNat

def signedPoints (p : Points) : Points where
  lo axis := (BitVec.ofInt 16 (p.lo axis)).toInt
  hi axis := (BitVec.ofInt 16 (p.hi axis)).toInt

theorem replays_cal (t s : Settings) :
    ((replays t).foldl (fun s r => r.set s) s).cal = unsignedPoints t.cal := by
  have hset (s : Settings) : (setEmulate t.setup s).cal = s.cal := by
    unfold setEmulate
    split <;> rfl
  simp only [replays, List.foldl_cons, List.foldl_nil, hset]
  exact setPoints_both s.cal (unsignedPoints t.cal)

theorem replays_scale (t s : Settings) :
    ((replays t).foldl (fun s r => r.set s) s).scale =
      if forces t.setup.emulFormat then { lo := fun _ => elo280Lo, hi := fun _ => elo280Hi }
      else signedPoints t.scale := by
  have hset (s : Settings) : (setEmulate t.setup s).scale =
      if forces t.setup.emulFormat then { lo := fun _ => elo280Lo, hi := fun _ => elo280Hi } else s.scale := by
    unfold setEmulate
    split <;> rfl
  simp only [replays, List.foldl_cons, List.foldl_nil, hset]
  split
  · rfl
  · exact setPoints_both s.scale (signedPoints t.scale)

theorem replays_setup (t s : Settings) (h : Sound t.setup) :
    ((replays t).foldl (fun s r => r.set s) s).setup =
      if forces t.setup.emulFormat then { t.setup with mode2 := t.setup.mode2 ||| eloM2Scale } else t.setup := by
  have howner : t.setup.owner.take 7 = t.setup.owner := List.take_of_length_le (Nat.le_of_eq h.owner)
  have hset (s : Settings) : (setEmulate t.setup s).setup =
      if forces t.setup.emulFormat then
        { s.setup with
          emulTouchflag := t.setup.emulTouchflag, emulFormat := t.setup.emulFormat
          mode2 := s.setup.mode2 ||| eloM2Scale }
      else { s.setup with emulTouchflag := t.setup.emulTouchflag, emulFormat := t.setup.emulFormat } := by
    unfold setEmulate
    split <;> rfl
  simp only [replays, List.foldl_cons, List.foldl_nil, hset]
  split
  · simp only [h.mode1, h.untouchDelay, h.lowPower, h.timerEnable, h.timerMode, h.invertMask, howner]
    rfl
  · simp only [h.mode1, h.untouchDelay, h.lowPower, h.timerEnable, h.timerMode, h.invertMask, howner]
    rfl

theorem replayed (t s : Settings) (h : Sound t.setup) : Replayed t ((replays t).foldl (fun s r => r.set s) s) where
  setup := by
    rw [replays_setup t s h]
    split <;> rfl
  mode2 hscale := by
    rw [replays_setup t s h]
    split
    · rename_i hforces
      exact or_scale (hscale hforces)
    · rfl
  cal axis := by
    rw [replays_cal]
    exact ⟨ofInt_toNat, ofInt_toNat⟩
  scale axis hscale := by
    rw [replays_scale]
    split
    · rename_i hforces
      exact ⟨fun _ => (hscale hforces).1.symm, fun _ => (hscale hforces).2.symm⟩
    · exact ⟨ofInt_toInt, ofInt_toInt⟩

theorem replays_key (t : Settings) :
    ∀ r ∈ replays t, ∀ s : Settings, s.setup.keyValue = t.setup.keyValue →
      (r.set s).setup.keyValue = t.setup.keyValue := by
  have hemulate (s : Settings) : (setEmulate t.setup s).setup.keyValue = s.setup.keyValue := by
    unfold setEmulate
    split <;> rfl
  intro r hr s hs
  simp only [replays, List.mem_cons, List.not_mem_nil, or_false] at hr
  rcases hr with rfl | rfl | rfl | rfl | rfl | rfl | rfl | rfl | rfl | rfl | rfl | rfl | rfl | rfl | rfl
  all_goals first | exact hs | rfl | exact (hemulate s).trans hs

theorem packet_length (key cmd : Byte) (data : List Byte) : (packet key cmd data).length ≤ data.length + 4 := by
  rw [packet_eq]
  split <;> simp

theorem eloEnqueue_all (dev : MouseElo) (hquiet : dev.quietAll = false) (packets : List (Byte × List Byte))
    (hroom : dev.resp.length + (packets.map fun p => packet dev.setup.keyValue p.1 p.2).flatten.length ≤ respSize) :
    packets.foldl (fun dev p => eloEnqueue dev p.1 p.2) dev =
      { dev with resp := dev.resp ++ (packets.map fun p => packet dev.setup.keyValue p.1 p.2).flatten } := by
  induction packets generalizing dev with
  | nil =>
    rw [List.map_nil, List.flatten_nil, List.append_nil]
    rfl
  | cons p packets ih =>
    rw [List.map_cons, List.flatten_cons, List.length_append] at hroom
    have hput : eloEnqueue dev p.1 p.2 = { dev with resp := dev.resp ++ packet dev.setup.keyValue p.1 p.2 } := by
      unfold eloEnqueue send
      rw [if_neg (by simp [hquiet]), if_neg (by omega)]
    rw [List.foldl_cons, hput]
    have hrest : (dev.resp ++ packet dev.setup.keyValue p.1 p.2).length +
        (packets.map fun p => packet dev.setup.keyValue p.1 p.2).flatten.length ≤ respSize := by
      rw [List.length_append]
      omega
    refine (ih { dev with resp := dev.resp ++ packet dev.setup.keyValue p.1 p.2 } hquiet hrest).trans ?_
    simp only [List.map_cons, List.flatten_cons, List.append_assoc]

/-- The packets of a configuration, as they are sent. -/
def dump (dev : MouseElo) : List (List Byte) :=
  (configPackets dev.setup dev.cal dev.scale).map fun p => packet dev.setup.keyValue p.1 p.2

theorem dump_replays (dev : MouseElo) :
    dump dev = (replays (settings dev)).map fun r => packet dev.setup.keyValue r.cmd r.data := by
  unfold dump
  rw [show configPackets dev.setup dev.cal dev.scale = (replays (settings dev)).map fun r => (r.cmd, r.data) from rfl,
    List.map_map]
  rfl

theorem flatten_length_le {n : ℕ} (ls : List (List Byte)) (h : ∀ l ∈ ls, l.length ≤ n) :
    ls.flatten.length ≤ n * ls.length := by
  induction ls with
  | nil => exact Nat.zero_le _
  | cons l ls ih =>
    have hl := h l (by simp)
    have hls := ih fun l hl => h l (by simp [hl])
    rw [List.flatten_cons, List.length_append, List.length_cons, Nat.mul_succ]
    omega

theorem dump_length (dev : MouseElo) (h : Sound dev.setup) : (dump dev).flatten.length ≤ 165 := by
  refine flatten_length_le (n := 11) (dump dev) fun l hl => ?_
  rw [dump_replays] at hl
  obtain ⟨r, hr, rfl⟩ := List.mem_map.mp hl
  have hlength := packet_length dev.setup.keyValue r.cmd r.data
  rw [(takes_all (settings dev) h r hr).length] at hlength
  exact hlength

theorem query_queues {u : Controller} (h : Sound u.dev.setup) (hempty : u.dev.resp = [])
    (hquiet : u.dev.quietAll = false) (cur : BitVec 16) (data : List Byte) :
    (eloProcessCommand cur u (ch 'g' :: data)).dev.resp =
      (dump u.dev).flatten ++ packet u.dev.setup.keyValue (ch 'A') (List.replicate 7 0) := by
  have hlength := dump_length u.dev h
  have hack := packet_length u.dev.setup.keyValue (ch 'A') (List.replicate 7 0)
  have hdump : eloDumpConfig u.dev = { u.dev with resp := (dump u.dev).flatten } := by
    unfold eloDumpConfig
    have hroom : u.dev.resp.length + (dump u.dev).flatten.length ≤ respSize := by
      rw [hempty, List.length_nil, Nat.zero_add]
      exact Nat.le_trans hlength (by decide)
    rw [eloEnqueue_all u.dev hquiet _ hroom, hempty]
    rfl
  have hprocess : (eloProcessCommand cur u (ch 'g' :: data)).dev = eloAck (eloDumpConfig u.dev) 0 := by
    unfold eloProcessCommand
    dsimp only
    rw [show arg (ch 'g' :: data) 0 = ch 'g' from rfl, show toupper (ch 'g') = ch 'G' by decide,
      show islower (ch 'g') = true by decide, if_neg (by decide)]
    rfl
  rw [hprocess, hdump]
  unfold eloAck eloEnqueue send
  dsimp only
  rw [if_neg (by simp [hquiet]), if_neg ?_]
  · rfl
  · unfold respSize
    change ¬512 - (dump u.dev).flatten.length < (packet u.dev.setup.keyValue (ch 'A') (List.replicate 7 0)).length
    rw [List.length_replicate] at hack
    omega

/-- The packets of a Configuration query, replayed, make the settings of a controller that takes them those of the
    controller that sent them. -/
theorem config_replays (speed : ℤ) (is : List Event) (u : Controller) (hu : u = elo.run (eloInit speed none) is)
    (hempty : u.dev.resp = []) (hquiet : u.dev.quietAll = false) :
    (dump u.dev).length = eloConfigPackets ∧
      (∀ cur data, (eloProcessCommand cur u (ch 'g' :: data)).dev.resp =
        (dump u.dev).flatten ++ packet u.dev.setup.keyValue (ch 'A') (List.replicate 7 0)) ∧
      ∀ (v : Controller) (ws : List (Byte × BitVec 16)), v.dev.cmdPos = none →
        u.dev.setup.keyValue = 0 ∨ v.dev.setup.keyValue = u.dev.setup.keyValue →
          ws.map Prod.fst = (dump u.dev).flatten → Replayed (settings u.dev) (settings (writes v ws).dev) := by
  have hsound : Sound u.dev.setup := by
    rw [hu]
    exact (whole_run speed is).setup
  refine ⟨rfl, query_queues hsound hempty hquiet, fun v ws hidle hkey hws => ?_⟩
  rw [dump_replays] at hws
  rw [writes_replays (replays (settings u.dev)) (takes_all _ hsound) (replays_key _) hidle hkey hws]
  exact replayed _ _ hsound

def command (body : List Byte) : List Event := ([0x55] ++ body ++ [0]).map fun b => .write b 0

/-- A key is set, and the Acknowledge read. -/
def keyed : List Event := command [ch 'K', 5, 0, 0, 0, 0, 0, 0] ++ List.replicate 11 (.tick true)

theorem config_replays_keyed :
    Replayed (settings (elo.run (eloInit 9600 none) keyed).dev)
      (settings (writes (elo.run (eloInit 9600 none) keyed)
        ((dump (elo.run (eloInit 9600 none) keyed).dev).flatten.map fun b => (b, 0))).dev) := by
  refine (config_replays 9600 keyed _ rfl (by decide +kernel) (by decide +kernel)).2.2 _ _ (by decide +kernel)
    (.inr rfl) ?_
  rw [List.map_map]
  exact List.map_id _

/-- A controller with no key takes no packet of one that has a key. -/
theorem key_ignored :
    let u := elo.run (eloInit 9600 none) keyed
    let v := eloInit 9600 none
    u.dev.resp = [] ∧ u.dev.quietAll = false ∧ v.dev.cmdPos = none ∧ v.dev.setup.keyValue = 0 ∧
      (writes v ((dump u.dev).flatten.map fun b => (b, 0))).dev.setup.keyValue ≠ u.dev.setup.keyValue := by
  decide +kernel

end PeepeeBox.EloReplay
