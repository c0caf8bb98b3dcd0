import PeepeeBox.DongleDevice
import PeepeeBox.SerialEeprom

set_option autoImplicit false

/-!
# The Microwire decoder as a serial EEPROM

From DATA writes to clocked bits, from bits to instructions, from instructions to the
reference part's memory.
-/
namespace PeepeeBox.MicrowireEeprom
open DongleDevice KeyedRound Microwire SerialBits SerialEeprom TraceMachine

def Off (v : Byte) : Prop := hdCs v = false ∧ v &&& 0x80 = 0

def Low (v : Byte) : Prop := hdCs v = true ∧ hdSk v = false ∧ v &&& 0x80 = 0

def High (v : Byte) : Prop := hdCs v = true ∧ hdSk v = true ∧ v &&& 0x80 = 0

/-- One bit: SK low for a while, up with DI on the line, up for a while, and down again. -/
structure Clocks (b : Bool) (ws : List Byte) (lows highs falls : List Byte) (rise : Byte) :
    Prop where
  split : ws = lows ++ rise :: (highs ++ falls)
  some : lows ≠ []
  low : ∀ v ∈ lows, Low v
  up : High rise
  di : hdDi rise = b
  high : ∀ v ∈ highs, High v
  fall : ∀ v ∈ falls, Low v

inductive Shifted : List Bool → List Byte → Prop where
  | nil : Shifted [] []
  | cons {b : Bool} {bs : List Bool} {ws rest lows highs falls : List Byte} {rise : Byte}
      (head : Clocks b ws lows highs falls rise) (tail : Shifted bs rest) :
      Shifted (b :: bs) (ws ++ rest)

def hdRun (h : Hd) (ws : List Byte) : Hd := ws.foldl (hdWriteData 6) h

theorem hdRun_append (h : Hd) (ws ws' : List Byte) :
    hdRun h (ws ++ ws') = hdRun (hdRun h ws) ws' := by
  unfold hdRun
  exact List.foldl_append

theorem hdRun_off (h : Hd) (ws : List Byte) (hne : ws ≠ []) (hoff : ∀ v ∈ ws, Off v) :
    ∃ s, hdRun h ws = { h with ph := .idle, n := 0, sk := s } := by
  induction ws generalizing h with
  | nil => exact absurd rfl hne
  | cons v ws ih =>
    have hstep : hdWriteData 6 h v = { h with ph := .idle, n := 0, sk := hdSk v } := by
      unfold hdWriteData
      rw [if_pos (hoff v (by simp)).1]
    by_cases hlast : ws = []
    · subst hlast
      exact ⟨hdSk v, hstep⟩
    · obtain ⟨s, hs⟩ := ih (hdWriteData 6 h v) hlast fun u hu => hoff u (by simp [hu])
      refine ⟨s, ?_⟩
      change hdRun (hdWriteData 6 h v) ws = _
      rw [hs, hstep]

theorem hdRun_low (h : Hd) (ws : List Byte) (hlow : ∀ v ∈ ws, Low v) :
    ∃ s, hdRun h ws = { h with sk := s } ∧ (ws ≠ [] → s = false) := by
  induction ws generalizing h with
  | nil => exact ⟨h.sk, rfl, fun hne => absurd rfl hne⟩
  | cons v ws ih =>
    obtain ⟨hcs, hsk, -⟩ := hlow v (by simp)
    have hstep : hdWriteData 6 h v = { h with sk := false } := by
      unfold hdWriteData
      rw [hcs, hsk, if_neg (by decide), if_neg (fun hc => absurd hc.1 (by decide))]
    have hrun : hdRun h (v :: ws) = hdRun { h with sk := false } ws := by
      change hdRun (hdWriteData 6 h v) ws = _
      rw [hstep]
    by_cases hlast : ws = []
    · subst hlast
      exact ⟨false, hrun, fun _ => rfl⟩
    · obtain ⟨s, hs, hfalse⟩ := ih { h with sk := false } fun u hu => hlow u (by simp [hu])
      exact ⟨s, hrun.trans hs, fun _ => hfalse hlast⟩

theorem hdRun_high (h : Hd) (ws : List Byte) (hsk : h.sk = true) (hhigh : ∀ v ∈ ws, High v) :
    hdRun h ws = h := by
  induction ws with
  | nil => rfl
  | cons v ws ih =>
    obtain ⟨hcs, hup, -⟩ := hhigh v (by simp)
    have hstep : hdWriteData 6 h v = h := by
      unfold hdWriteData
      rw [hcs, hup, if_neg (by decide), if_neg (fun hc => absurd (hsk.symm.trans hc.2) (by decide)),
        ← hsk]
    change hdRun (hdWriteData 6 h v) ws = h
    rw [hstep, ih fun u hu => hhigh u (by simp [hu])]

theorem hdClock_sk (h : Hd) (s b : Bool) :
    hdClock 6 { h with sk := s } b = { hdClock 6 h b with sk := s } := by
  cases h with
  | mk sk ph n op addr sr dout wen ready mem =>
    unfold hdClock
    cases ph with
    | idle => cases b <;> rfl
    | op =>
      dsimp only
      split_ifs <;> rfl
    | addr =>
      dsimp only
      split_ifs
      · unfold hdExecute
        dsimp only
        split <;> rfl
      · rfl
    | read => rfl
    | write =>
      dsimp only
      split_ifs <;> rfl
    | done => rfl

theorem hdRun_clocks (h : Hd) (b : Bool) (ws lows highs falls : List Byte) (rise : Byte)
    (hc : Clocks b ws lows highs falls rise) :
    ∃ s, hdRun h ws = { hdClock 6 h b with sk := s } := by
  have hrise : hdWriteData 6 { h with sk := false } rise =
      { hdClock 6 h b with sk := true } := by
    unfold hdWriteData
    rw [hc.up.1, hc.up.2.1, if_neg (by decide), if_pos ⟨rfl, rfl⟩, hdClock_sk, hc.di]
  obtain ⟨s, hlows, hs⟩ := hdRun_low h lows hc.low
  obtain ⟨s', hfalls, -⟩ := hdRun_low { hdClock 6 h b with sk := true } falls hc.fall
  refine ⟨s', ?_⟩
  rw [hc.split, hdRun_append, hlows, hs hc.some]
  change hdRun (hdWriteData 6 { h with sk := false } rise) (highs ++ falls) = _
  rw [hrise, hdRun_append, hdRun_high _ highs rfl hc.high]
  exact hfalls

def hdBits (h : Hd) (bs : List Bool) : Hd := bs.foldl (hdClock 6) h

theorem hdBits_sk (h : Hd) (s : Bool) (bs : List Bool) :
    hdBits { h with sk := s } bs = { hdBits h bs with sk := s } := by
  induction bs generalizing h with
  | nil => rfl
  | cons b bs ih =>
    change hdBits (hdClock 6 { h with sk := s } b) bs = { hdBits (hdClock 6 h b) bs with sk := s }
    rw [hdClock_sk, ih]

theorem hdRun_shifted (h : Hd) (bs : List Bool) (ws : List Byte) (hs : Shifted bs ws) :
    ∃ s, hdRun h ws = { hdBits h bs with sk := s } := by
  induction hs generalizing h with
  | nil => exact ⟨h.sk, rfl⟩
  | cons head tail ih =>
    obtain ⟨s, hhead⟩ := hdRun_clocks h _ _ _ _ _ _ head
    rw [hdRun_append, hhead]
    obtain ⟨s', hrest⟩ := ih { hdClock 6 h _ with sk := s }
    refine ⟨s', ?_⟩
    rw [hrest, hdBits_sk]
    rfl

/-- The decoder's memory and latch, as the reference part has them. -/
def eeprom (h : Hd) : Eeprom 4 16 := ⟨fun a => h.mem a.toNat, h.wen⟩

theorem hdBits_append (h : Hd) (bs bs' : List Bool) :
    hdBits h (bs ++ bs') = hdBits (hdBits h bs) bs' := by
  unfold hdBits
  exact List.foldl_append

theorem hdBits_zeros (h : Hd) (z : ℕ) (hidle : h.ph = .idle) :
    hdBits h (List.replicate z false) = h := by
  induction z with
  | zero => rfl
  | succ z ih =>
    have hstep : hdClock 6 h false = h := by
      unfold hdClock
      rw [hidle]
      rfl
    change hdBits (hdClock 6 h false) (List.replicate z false) = h
    rw [hstep, ih]

theorem hdClock_start (h : Hd) (hidle : h.ph = .idle) :
    hdClock 6 h true = { h with ph := .op, n := 0, op := 0, ready := false } := by
  unfold hdClock
  rw [hidle]
  rfl

theorem opcode_bits (h : Hd) (o : BitVec 2) :
    hdBits { h with ph := .op, n := 0, op := 0 } (msbBits o) =
      { h with ph := .addr, n := 0, op := o.toNat, addr := 0 } := by
  have hop : ∀ o : BitVec 2,
      ((0 <<< 1 ||| (o.getLsbD 1).toNat) <<< 1 ||| (o.getLsbD 0).toNat) = o.toNat := by
    decide
  rw [← hop o]
  rfl

theorem address_bits (h : Hd) (a : BitVec 6) :
    hdBits { h with ph := .addr, n := 0, addr := 0 } (msbBits a) =
      hdExecute 6 { h with ph := .addr, n := 0, addr := a.setWidth 8 } := by
  have hmask : ∀ a : BitVec 6, a.setWidth 8 &&& BitVec.ofNat 8 (hdWords - 1) = a.setWidth 8 := by
    decide
  have hall : hdBits { h with ph := .addr, n := 0, addr := 0 } (msbBits a) =
      hdExecute 6 { h with
        ph := .addr, n := 0
        addr := collect (0 : Byte) (msbBits a) &&& BitVec.ofNat 8 (hdWords - 1) } := rfl
  rw [hall, collect_zero_msbBits, hmask]

def headed (h : Hd) (i : Instr 4 16) : Hd :=
  hdExecute 6 { h with
    ph := .addr, n := 0, op := i.opcode.toNat, addr := i.address.setWidth 8, ready := false }

theorem header_bits (h : Hd) (i : Instr 4 16) (hidle : h.ph = .idle) :
    hdBits h (true :: i.header) = headed h i := by
  change hdBits (hdClock 6 h true) (msbBits i.opcode ++ msbBits i.address) = _
  rw [hdClock_start h hidle, hdBits_append, opcode_bits { h with ready := false } i.opcode]
  exact address_bits { h with ready := false, op := i.opcode.toNat } i.address

theorem data_more (h : Hd) (bs : List Bool) (hph : h.ph = .write) (hroom : h.n + bs.length < 16) :
    hdBits h bs = { h with sr := collect h.sr bs, n := h.n + bs.length } := by
  induction bs generalizing h with
  | nil => rfl
  | cons b bs ih =>
    rw [List.length_cons] at hroom
    have hstep : hdClock 6 h b = { h with sr := shiftIn h.sr b, n := h.n + 1 } := by
      unfold hdClock
      rw [hph]
      dsimp only
      rw [if_neg (by omega)]
      rfl
    change hdBits (hdClock 6 h b) bs = _
    rw [hstep, ih { h with sr := shiftIn h.sr b, n := h.n + 1 } hph (by change h.n + 1 + _ < 16; omega),
      List.length_cons]
    have hsum : h.n + 1 + bs.length = h.n + (bs.length + 1) := by omega
    rw [hsum]
    rfl

theorem data_bits (h : Hd) (d : BitVec 16) (hph : h.ph = .write) (hn : h.n = 0) :
    ∃ n, hdBits h (msbBits d) =
      { h with
        sr := d, n := n, ready := true, ph := .done
        mem := if h.wen then Function.update h.mem h.addr.toNat d else h.mem } := by
  obtain ⟨init, last, hsplit⟩ : ∃ init last, msbBits d = init ++ [last] := by
    refine ⟨_, _, (List.dropLast_append_getLast (List.ne_nil_of_length_pos ?_)).symm⟩
    rw [msbBits_length]
    omega
  have hlen : init.length = 15 := by
    have h16 := msbBits_length d
    rw [hsplit, List.length_append, List.length_singleton] at h16
    omega
  have hreg : shiftIn (collect h.sr init) last = d := by
    have hcollect := collect_msbBits h.sr d
    rw [hsplit, collect_append] at hcollect
    exact hcollect
  refine ⟨16, ?_⟩
  rw [hsplit, hdBits_append, data_more h init hph (by omega), hn, hlen]
  change hdClock 6 { h with sr := collect h.sr init, n := 15 } last = _
  unfold hdClock
  rw [hph]
  dsimp only
  rw [if_pos rfl]
  change ({ h with
    sr := shiftIn (collect h.sr init) last, n := 16, ready := true, ph := .done
    mem := if h.wen then Function.update h.mem h.addr.toNat (shiftIn (collect h.sr init) last)
      else h.mem } : Hd) = _
  rw [hreg]

theorem eeprom_store (h : Hd) (a : BitVec 6) (d : BitVec 16) :
    (⟨fun b => (if h.wen then Function.update h.mem a.toNat d else h.mem) b.toNat, h.wen⟩ :
      Eeprom 4 16) = (eeprom h).store a d := by
  have hmem : (fun b : BitVec 6 => (if h.wen then Function.update h.mem a.toNat d else h.mem) b.toNat) =
      if h.wen then Function.update (fun b : BitVec 6 => h.mem b.toNat) a d
      else fun b => h.mem b.toNat := by
    funext b
    cases h.wen with
    | false => rfl
    | true =>
      by_cases hb : b = a
      · subst hb
        simp
      · have hne : b.toNat ≠ a.toNat := fun he => hb (BitVec.eq_of_toNat_eq he)
        simp [hb, hne]
  rw [hmem]
  rfl

theorem address_toNat (a : BitVec 6) : (a.setWidth 8).toNat = a.toNat := by
  rw [BitVec.toNat_setWidth]
  apply Nat.mod_eq_of_lt
  omega

theorem headed_read (h : Hd) (a : BitVec 6) :
    (headed h (.read a)).ph = .read ∧ (headed h (.read a)).n = 0 ∧
      (headed h (.read a)).sr = h.mem a.toNat ∧ eeprom (headed h (.read a)) = eeprom h := by
  refine ⟨rfl, rfl, ?_, rfl⟩
  change h.mem (a.setWidth 8).toNat = _
  rw [address_toNat]

theorem headed_erase (h : Hd) (a : BitVec 6) :
    eeprom (headed h (.erase a)) = (eeprom h).store a (BitVec.allOnes 16) := by
  rw [← eeprom_store, ← address_toNat a]
  rfl

theorem headed_latch (h : Hd) (x : BitVec 4) :
    eeprom (headed h (.ewen x)) = { eeprom h with wen := true } ∧
      eeprom (headed h (.ewds x)) = { eeprom h with wen := false } := by
  have htop : ∀ x : BitVec 4,
      decide (((x.setWidth 6 ||| 3 <<< 4).setWidth 8 : Byte) >>> (6 - 2) = 3) = true ∧
        decide (((x.setWidth 6).setWidth 8 : Byte) >>> (6 - 2) = 3) = false := by
    decide
  obtain ⟨hen, hdis⟩ := htop x
  constructor
  · change (⟨fun b => h.mem b.toNat, decide _⟩ : Eeprom 4 16) = _
    exact congrArg _ hen
  · change (⟨fun b => h.mem b.toNat, decide _⟩ : Eeprom 4 16) = _
    exact congrArg _ hdis

theorem instr_bits (h : Hd) (i : Instr 4 16) (z : ℕ) (hidle : h.ph = .idle) :
    hdBits h (List.replicate z false ++ i.bits) = hdBits (headed h i) i.data := by
  have hsplit : i.bits = (true :: i.header) ++ i.data := rfl
  rw [hdBits_append, hdBits_zeros h z hidle, hsplit, hdBits_append, header_bits h i hidle]

theorem write_bits (h : Hd) (a : BitVec 6) (d : BitVec 16) :
    ∃ n, hdBits (headed h (.write a d)) (msbBits d) =
      { headed h (.write a d) with
        sr := d, n := n, ready := true, ph := .done
        mem := if h.wen then Function.update h.mem a.toNat d else h.mem } := by
  obtain ⟨n, hdone⟩ := data_bits (headed h (.write a d)) d rfl rfl
  refine ⟨n, hdone.trans ?_⟩
  rw [← address_toNat a]
  rfl

theorem instr_eeprom (h : Hd) (i : Instr 4 16) (z : ℕ) (hidle : h.ph = .idle) :
    eeprom (hdBits h (List.replicate z false ++ i.bits)) = (eeprom h).exec i := by
  rw [instr_bits h i z hidle]
  cases i with
  | read a => exact (headed_read h a).2.2.2
  | write a d =>
    obtain ⟨n, hdone⟩ := write_bits h a d
    change eeprom (hdBits (headed h (.write a d)) (msbBits d)) = (eeprom h).store a d
    rw [hdone, ← eeprom_store]
    rfl
  | erase a => exact headed_erase h a
  | ewen x => exact (headed_latch h x).1
  | ewds x => exact (headed_latch h x).2

def depth (h : Hd) : ℕ :=
  match h.ph with
  | .idle => 0
  | .op => 1 + h.n
  | .addr => 3 + h.n
  | _ => 9

def Within (h : Hd) : Prop :=
  (h.ph = .idle ∨ h.ph = .op ∧ h.n < 2 ∨ h.ph = .addr ∧ h.n < 6)

theorem header_step (h : Hd) (b : Bool) (hw : Within h) (hroom : depth h < 8) :
    Within (hdClock 6 h b) ∧ depth (hdClock 6 h b) ≤ depth h + 1 ∧
      eeprom (hdClock 6 h b) = eeprom h := by
  rcases hw with hph | ⟨hph, hn⟩ | ⟨hph, hn⟩
  · unfold hdClock
    rw [hph]
    cases b with
    | true => exact ⟨.inr (.inl ⟨rfl, Nat.zero_lt_two⟩), Nat.le_add_left 1 _, rfl⟩
    | false => exact ⟨.inl hph, Nat.le_succ _, rfl⟩
  · have hdepth : depth h = 1 + h.n := by
      unfold depth
      rw [hph]
    unfold hdClock
    rw [hph, hdepth]
    dsimp only
    split_ifs with hlast
    · refine ⟨.inr (.inr ⟨rfl, by change 0 < 6; omega⟩), ?_, rfl⟩
      change 3 + 0 ≤ _
      omega
    · refine ⟨.inr (.inl ⟨rfl, by change h.n + 1 < 2; omega⟩), ?_, rfl⟩
      change 1 + (h.n + 1) ≤ _
      omega
  · have hdepth : depth h = 3 + h.n := by
      unfold depth
      rw [hph]
    unfold hdClock
    rw [hph, hdepth]
    dsimp only
    rw [if_neg (by omega)]
    refine ⟨.inr (.inr ⟨rfl, by change h.n + 1 < 6; omega⟩), ?_, rfl⟩
    change 3 + (h.n + 1) ≤ _
    omega

theorem header_short (h : Hd) (bs : List Bool) (hw : Within h)
    (hroom : depth h + bs.length ≤ 8) : eeprom (hdBits h bs) = eeprom h := by
  induction bs generalizing h with
  | nil => rfl
  | cons b bs ih =>
    rw [List.length_cons] at hroom
    obtain ⟨hw', hdepth, hsame⟩ := header_step h b hw (by omega)
    change eeprom (hdBits (hdClock 6 h b) bs) = _
    rw [ih _ hw' (by omega), hsame]

theorem bits_length (i : Instr 4 16) : i.bits.length = 9 + i.data.length := by
  change (i.header ++ i.data).length + 1 = _
  rw [List.length_append, i.header_length]
  omega

theorem instr_short (h : Hd) (i : Instr 4 16) (z m : ℕ) (hidle : h.ph = .idle)
    (hm : m < (List.replicate z false ++ i.bits).length) :
    eeprom (hdBits h ((List.replicate z false ++ i.bits).take m)) = eeprom h := by
  rw [List.length_append, List.length_replicate, bits_length] at hm
  have hdepth : depth h = 0 := by
    unfold depth
    rw [hidle]
  rw [List.take_append, List.length_replicate, List.take_replicate, hdBits_append,
    hdBits_zeros h _ hidle]
  by_cases hhead : m - z ≤ 8
  · apply header_short h _ (.inl hidle)
    rw [hdepth, List.length_take]
    omega
  · -- only WRITE has bits after its header
    have hsplit : i.bits = (true :: i.header) ++ i.data := rfl
    have hlong : (true :: i.header).length = 9 := congrArg (· + 1) i.header_length
    rw [hsplit, List.take_append, hlong, List.take_of_length_le (by omega), hdBits_append,
      header_bits h i hidle]
    cases i with
    | write a d =>
      change eeprom (hdBits (headed h (.write a d)) ((msbBits d).take (m - z - 9))) = _
      have hdata : (Instr.write a d : Instr 4 16).data.length = 16 := msbBits_length d
      rw [hdata] at hm
      have hstop : (headed h (.write a d)).n + ((msbBits d).take (m - z - 9)).length < 16 := by
        change 0 + _ < 16
        rw [List.length_take, msbBits_length]
        omega
      rw [data_more _ _ rfl hstop]
      rfl
    | read a =>
      change m < z + 9 at hm
      omega
    | erase a =>
      change m < z + 9 at hm
      omega
    | ewen x =>
      change m < z + 9 at hm
      omega
    | ewds x =>
      change m < z + 9 at hm
      omega

/-- No keyed answer is held and the recent writes frame no query. -/
def Settled (part : Part) (t : Keyed) : Prop := t.pending = false ∧ tFramed part t = none

theorem tData_settled (part : Part) (t : Keyed) (v : Byte) (hv : v &&& 0x80 = 0)
    (hpend : t.pending = false) : Settled part (tData part t v) := by
  have h := tData_unclocked part t v (.inl hv)
  constructor
  · rw [h.pending, hpend]
    split_ifs <;> rfl
  -- the newest write would close the frame, and its bit 7 is clear
  cases hframe : tFramed part (tData part t v) with
  | none => rfl
  | some q =>
    obtain ⟨-, ⟨hends, -⟩, ⟨htop, -⟩, -⟩ := (tFramed_some_iff part _ q).mp hframe
    rw [← hends, h.recent, tWindow_newest] at htop
    exact absurd hv htop

variable (part : Part)

theorem low_write (hp : part.hdProbe = true) (habits : part.hdAbits = 6) (dev : Pp) (v : Byte)
    (hv : v &&& 0x80 = 0) (hpend : dev.t.pending = false) :
    ((device part).next dev (.data v)).hd = hdWriteData 6 dev.hd v ∧
      Settled part ((device part).next dev (.data v)).t := by
  obtain ⟨-, ht, hhd⟩ := ppWriteData_hasp part dev v hp
  have hsees : hdSees part v = true := by
    unfold hdSees
    rw [decide_eq_true hv]
    cases part.tSessHi <;> rfl
  constructor
  · change (ppWriteData part dev v).hd = _
    rw [hhd]
    unfold haspWrite
    dsimp only
    rw [if_pos hsees, habits]
  · change Settled part (ppWriteData part dev v).t
    rw [ht]
    unfold haspWrite
    dsimp only
    split_ifs with hkey
    · exact tData_settled part dev.t v hv hpend
    · refine ⟨hpend, ?_⟩
      unfold tFramed
      exact if_pos (.inr (.inl (not_not.mp hkey)))

theorem low_writes (hp : part.hdProbe = true) (habits : part.hdAbits = 6) (dev : Pp)
    (ws : List Byte) (hne : ws ≠ []) (hws : ∀ v ∈ ws, v &&& 0x80 = 0)
    (hpend : dev.t.pending = false) :
    ((device part).run dev (ws.map Op.data)).hd = hdRun dev.hd ws ∧
      Settled part ((device part).run dev (ws.map Op.data)).t ∧
      (device part).trace dev (ws.map Op.data) = [] := by
  induction ws generalizing dev with
  | nil => exact absurd rfl hne
  | cons v ws ih =>
    obtain ⟨hhd, hset⟩ := low_write part hp habits dev v (hws v (by simp)) hpend
    by_cases hlast : ws = []
    · subst hlast
      exact ⟨hhd, hset, rfl⟩
    · obtain ⟨hhd', hset', htrace⟩ := ih _ hlast (fun u hu => hws u (by simp [hu])) hset.1
      refine ⟨?_, hset', htrace⟩
      rw [List.map_cons, Machine.run_cons, hhd', hhd]
      rfl

theorem settled_read (t : Keyed) (h : Settled part t) : tReadQuery part t = (t, none) := by
  unfold tReadQuery
  rw [h.2]

theorem settled_after (t : Keyed) (h : Settled part t) :
    Settled part { t with nrecent := 0 } := by
  refine ⟨h.1, ?_⟩
  unfold tFramed
  exact if_pos (.inr (.inr (by change 0 < 3; omega)))

theorem status_reading (hp : part.hdProbe = true) (dev : Pp) (h : Settled part dev.t)
    (hph : dev.hd.ph = .read) :
    ((device part).next dev .status).hd = dev.hd ∧
      (device part).answer dev .status = some (hdDo dev.hd.dout) ∧
      Settled part ((device part).next dev .status).t := by
  have hstep : ppReadStatus part dev =
      ({ dev with t := { dev.t with nrecent := 0 } }, hdDo dev.hd.dout) := by
    rw [ppReadStatus_hasp part dev hp]
    unfold haspStatus
    rw [settled_read part dev.t h]
    dsimp only
    rw [if_neg (by rw [h.1]; decide), if_pos hph]
  have hnext : (device part).next dev .status = (ppReadStatus part dev).1 := rfl
  have hans : (device part).answer dev .status = some (ppReadStatus part dev).2 := rfl
  rw [hnext, hans, hstep]
  exact ⟨rfl, rfl, settled_after part dev.t h⟩

theorem status_ready (hp : part.hdProbe = true) (dev : Pp) (h : Settled part dev.t)
    (hph : dev.hd.ph ≠ .read) (hready : dev.hd.ready = true) :
    ((device part).next dev .status).hd = { dev.hd with ph := .idle, n := 0 } ∧
      (device part).answer dev .status = some 0x20 ∧
      Settled part ((device part).next dev .status).t := by
  have hstep : ∃ hs, ppReadStatus part dev =
      ({ dev with t := { dev.t with nrecent := 0 }, hd := { dev.hd with ph := .idle, n := 0 }, hs := hs },
        0x20) := by
    refine ⟨(sessionBit part dev.hb dev.hs dev.link.lastData).1, ?_⟩
    rw [ppReadStatus_hasp part dev hp]
    unfold haspStatus
    rw [settled_read part dev.t h]
    dsimp only
    rw [if_neg (by rw [h.1]; decide), if_neg hph, hready]
    rfl
  have hnext : (device part).next dev .status = (ppReadStatus part dev).1 := rfl
  have hans : (device part).answer dev .status = some (ppReadStatus part dev).2 := rfl
  obtain ⟨hs, hstep⟩ := hstep
  rw [hnext, hans, hstep]
  exact ⟨rfl, rfl, settled_after part dev.t h⟩

/-- CS is dropped and the given bits are clocked at the part. -/
inductive Selects (bits : List Bool) : List Op → Prop where
  | mk (off ws : List Byte) (hne : off ≠ []) (hoff : ∀ v ∈ off, Off v) (hws : Shifted bits ws) :
      Selects bits ((off ++ ws).map .data)

/-- Clocks of a running READ, each sampled by one STATUS read. -/
inductive Sampled : ℕ → List Op → Prop where
  | nil : Sampled 0 []
  | cons {n : ℕ} {b : Bool} {ws lows highs falls : List Byte} {rise : Byte} {ops : List Op}
      (head : Clocks b ws lows highs falls rise) (tail : Sampled n ops) :
      Sampled (n + 1) (ws.map .data ++ .status :: ops)

/-- What may follow an instruction before CS is dropped for the next one: the sixteen
    clocks of a READ, or the ready polls of a WRITE. -/
inductive Follows : Instr 4 16 → ℕ → List Op → Prop where
  | read {a : BitVec 6} {ops : List Op} (h : Sampled 16 ops) : Follows (.read a) 0 ops
  | write {a : BitVec 6} {d : BitVec 16} (off sel : List Byte) (polls : ℕ) (hne : off ≠ [])
      (hoff : ∀ v ∈ off, Off v) (hsel : ∀ v ∈ sel, Low v) :
      Follows (.write a d) polls ((off ++ sel).map .data ++ List.replicate polls .status)
  | unpolled {a : BitVec 6} {d : BitVec 16} : Follows (.write a d) 0 []
  | erase {a : BitVec 6} : Follows (.erase a) 0 []
  | ewen {x : BitVec 4} : Follows (.ewen x) 0 []
  | ewds {x : BitVec 4} : Follows (.ewds x) 0 []

inductive Framed (i : Instr 4 16) (polls : ℕ) : List Op → Prop where
  | mk (z : ℕ) (head tail : List Op) (hhead : Selects (List.replicate z false ++ i.bits) head)
      (htail : Follows i polls tail) : Framed i polls (head ++ tail)

/-- CS is dropped with the instruction's last bit, or the last clock of its READ, not in. -/
inductive Abandoned (i : Instr 4 16) : List Op → Prop where
  | short (z m : ℕ) (head : List Op) (lows off : List Byte)
      (hm : m < (List.replicate z false ++ i.bits).length)
      (hhead : Selects ((List.replicate z false ++ i.bits).take m) head)
      (hlow : ∀ v ∈ lows, Low v) (hne : off ≠ []) (hoff : ∀ v ∈ off, Off v) :
      Abandoned i (head ++ (lows ++ off).map .data)
  | reading (z n : ℕ) (a : BitVec 6) (head tail : List Op) (lows off : List Byte)
      (hi : i = .read a) (hn : n < 16) (hhead : Selects (List.replicate z false ++ i.bits) head)
      (htail : Sampled n tail) (hlow : ∀ v ∈ lows, Low v) (hne : off ≠ [])
      (hoff : ∀ v ∈ off, Off v) : Abandoned i (head ++ tail ++ (lows ++ off).map .data)

/-- Any row of accesses, with the instructions it completes. -/
inductive Session : List (Instr 4 16) → List Op → Prop where
  | nil : Session [] []
  | full {i : Instr 4 16} {is : List (Instr 4 16)} {polls : ℕ} {ops rest : List Op}
      (head : Framed i polls ops) (tail : Session is rest) : Session (i :: is) (ops ++ rest)
  | dropped {i : Instr 4 16} {is : List (Instr 4 16)} {ops rest : List Op}
      (head : Abandoned i ops) (tail : Session is rest) : Session is (ops ++ rest)

theorem Clocks.quiet {b : Bool} {ws lows highs falls : List Byte} {rise : Byte}
    (h : Clocks b ws lows highs falls rise) : ws ≠ [] ∧ ∀ v ∈ ws, v &&& 0x80 = 0 := by
  rw [h.split]
  refine ⟨by simp, ?_⟩
  intro v hv
  rcases List.mem_append.mp hv with hv | hv
  · exact (h.low v hv).2.2
  rcases List.mem_cons.mp hv with hv | hv
  · rw [hv]
    exact h.up.2.2
  rcases List.mem_append.mp hv with hv | hv
  · exact (h.high v hv).2.2
  · exact (h.fall v hv).2.2

theorem Shifted.quiet {bs : List Bool} {ws : List Byte} (h : Shifted bs ws) :
    ∀ v ∈ ws, v &&& 0x80 = 0 := by
  induction h with
  | nil =>
    intro v hv
    cases hv
  | cons head tail ih =>
    intro v hv
    rcases List.mem_append.mp hv with hv | hv
    · exact head.quiet.2 v hv
    · exact ih v hv

theorem selects_run (hp : part.hdProbe = true) (habits : part.hdAbits = 6) (dev : Pp)
    (bits : List Bool) (ops : List Op) (hpend : dev.t.pending = false) (h : Selects bits ops) :
    ∃ h₀ s, h₀.ph = .idle ∧ eeprom h₀ = eeprom dev.hd ∧
      ((device part).run dev ops).hd = { hdBits h₀ bits with sk := s } ∧
      Settled part ((device part).run dev ops).t ∧ (device part).trace dev ops = [] := by
  cases h with
  | mk off ws hne hoff hws =>
    obtain ⟨hhd, hset, htrace⟩ := low_writes part hp habits dev (off ++ ws)
      (fun hnil => hne (List.append_eq_nil_iff.mp hnil).1)
      (fun v hv => (List.mem_append.mp hv).elim (fun hv => (hoff v hv).2) (hws.quiet v)) hpend
    obtain ⟨s₀, hoffs⟩ := hdRun_off dev.hd off hne hoff
    obtain ⟨s, hbits⟩ := hdRun_shifted { dev.hd with ph := .idle, n := 0, sk := s₀ } bits ws hws
    refine ⟨{ dev.hd with ph := .idle, n := 0, sk := s₀ }, s, rfl, rfl, ?_, hset, htrace⟩
    rw [hhd, hdRun_append, hoffs, hbits]

theorem sampled_run (hp : part.hdProbe = true) (habits : part.hdAbits = 6) (dev : Pp) (n : ℕ)
    (ops : List Op) (hset : Settled part dev.t) (hph : dev.hd.ph = .read)
    (hroom : dev.hd.n + n ≤ 16) (h : Sampled n ops) :
    (device part).trace dev ops =
        (List.range n).map (fun j => hdDo (dev.hd.sr.getLsbD (15 - (dev.hd.n + j)))) ∧
      eeprom ((device part).run dev ops).hd = eeprom dev.hd ∧
      Settled part ((device part).run dev ops).t := by
  induction h generalizing dev with
  | nil => exact ⟨rfl, rfl, hset⟩
  | @cons n b ws lows highs falls rise ops head tail ih =>
    obtain ⟨hhd, hset₁, hnone⟩ := low_writes part hp habits dev ws head.quiet.1 head.quiet.2 hset.1
    obtain ⟨s, hclock⟩ := hdRun_clocks dev.hd b ws lows highs falls rise head
    have hread : hdClock 6 dev.hd b =
        { dev.hd with dout := dev.hd.sr.getLsbD (15 - dev.hd.n), n := dev.hd.n + 1 } := by
      unfold hdClock
      rw [hph]
      dsimp only
      rw [if_pos (by omega), hph]
    rw [hclock, hread] at hhd
    generalize hmid : (device part).run dev (ws.map Op.data) = mid at hhd hset₁
    have hph₁ : mid.hd.ph = .read := by
      rw [hhd]
      exact hph
    obtain ⟨hsame, hans, hset₂⟩ := status_reading part hp mid hset₁ hph₁
    obtain ⟨htrace, hview, hset₃⟩ := ih ((device part).next mid .status) hset₂
      (by rw [hsame]; exact hph₁)
      (by rw [hsame, hhd]; change dev.hd.n + 1 + n ≤ 16; omega)
    refine ⟨?_, ?_, ?_⟩
    · rw [Machine.trace_append, hnone, hmid, Machine.trace_cons, hans, htrace, hsame, hhd,
        List.range_succ_eq_map, List.map_cons, List.map_map]
      have hrest : ∀ j, 15 - (dev.hd.n + 1 + j) = 15 - (dev.hd.n + (j + 1)) := by
        intro j
        omega
      simp only [hrest]
      rfl
    · rw [Machine.run_append, hmid, Machine.run_cons, hview, hsame, hhd]
      rfl
    · rw [Machine.run_append, hmid]
      exact hset₃

theorem drop_run (hp : part.hdProbe = true) (habits : part.hdAbits = 6) (dev : Pp)
    (lows off : List Byte) (hpend : dev.t.pending = false) (hlow : ∀ v ∈ lows, Low v)
    (hne : off ≠ []) (hoff : ∀ v ∈ off, Off v) :
    eeprom ((device part).run dev ((lows ++ off).map Op.data)).hd = eeprom dev.hd ∧
      Settled part ((device part).run dev ((lows ++ off).map Op.data)).t := by
  obtain ⟨hhd, hset, -⟩ := low_writes part hp habits dev (lows ++ off)
    (fun hnil => hne (List.append_eq_nil_iff.mp hnil).2)
    (fun v hv => (List.mem_append.mp hv).elim (fun hv => (hlow v hv).2.2) (fun hv => (hoff v hv).2))
    hpend
  obtain ⟨s, hs, -⟩ := hdRun_low dev.hd lows hlow
  obtain ⟨s', hs'⟩ := hdRun_off { dev.hd with sk := s } off hne hoff
  refine ⟨?_, hset⟩
  rw [hhd, hdRun_append, hs, hs']
  rfl

theorem polls_ready (hp : part.hdProbe = true) (dev : Pp) (polls : ℕ) (hset : Settled part dev.t)
    (hph : dev.hd.ph = .idle) (hready : dev.hd.ready = true) :
    (device part).trace dev (List.replicate polls .status) = List.replicate polls 0x20 ∧
      eeprom ((device part).run dev (List.replicate polls .status)).hd = eeprom dev.hd ∧
      Settled part ((device part).run dev (List.replicate polls .status)).t := by
  induction polls generalizing dev with
  | zero => exact ⟨rfl, rfl, hset⟩
  | succ polls ih =>
    obtain ⟨hhd, hans, hset'⟩ := status_ready part hp dev hset (by rw [hph]; decide) hready
    obtain ⟨htrace, hview, hset''⟩ := ih ((device part).next dev .status) hset'
      (by rw [hhd]) (by rw [hhd]; exact hready)
    rw [List.replicate_succ, List.replicate_succ, Machine.trace_cons, Machine.run_cons, hans, htrace,
      hview, hhd]
    exact ⟨rfl, rfl, hset''⟩

/-- What the host reads off the line during one access. -/
def answers (e : Eeprom 4 16) (polls : ℕ) : Instr 4 16 → List Byte
  | .read a => (msbBits (e.mem a)).map hdDo
  | .write _ _ => List.replicate polls 0x20
  | _ => []

theorem read_run (hp : part.hdProbe = true) (habits : part.hdAbits = 6) (dev : Pp) (a : BitVec 6)
    (z n : ℕ) (head tail : List Op) (hpend : dev.t.pending = false) (hn : n ≤ 16)
    (hhead : Selects (List.replicate z false ++ (Instr.read a : Instr 4 16).bits) head)
    (htail : Sampled n tail) :
    (device part).trace dev (head ++ tail) =
        (List.range n).map (fun j => hdDo (((eeprom dev.hd).mem a).getLsbD (15 - j))) ∧
      eeprom ((device part).run dev (head ++ tail)).hd = eeprom dev.hd ∧
      Settled part ((device part).run dev (head ++ tail)).t := by
  obtain ⟨h₀, s, hidle, hview, hhd, hset, hnone⟩ :=
    selects_run part hp habits dev _ head hpend hhead
  have hbits := instr_bits h₀ (.read a) z hidle
  obtain ⟨hph, hzero, hsr, hkeep⟩ := headed_read h₀ a
  rw [hbits] at hhd
  generalize hmid : (device part).run dev head = mid at hhd hset
  obtain ⟨htrace, hsame, hset'⟩ := sampled_run part hp habits mid n tail hset (by rw [hhd]; exact hph)
    (by rw [hhd]; change (headed h₀ (.read a)).n + n ≤ 16; omega) htail
  have hword : mid.hd.sr = (eeprom dev.hd).mem a := by
    rw [hhd, ← hview]
    exact hsr
  have hstart : mid.hd.n = 0 := by
    rw [hhd]
    exact hzero
  refine ⟨?_, ?_, ?_⟩
  · rw [Machine.trace_append, hnone, hmid, htrace, hword, hstart]
    simp only [Nat.zero_add]
    rfl
  · rw [Machine.run_append, hmid, hsame, hhd, ← hview]
    exact hkeep
  · rw [Machine.run_append, hmid]
    exact hset'

theorem write_run (hp : part.hdProbe = true) (habits : part.hdAbits = 6) (dev : Pp) (a : BitVec 6)
    (d : BitVec 16) (z polls : ℕ) (head : List Op) (off sel : List Byte)
    (hpend : dev.t.pending = false) (hne : off ≠ []) (hoff : ∀ v ∈ off, Off v)
    (hsel : ∀ v ∈ sel, Low v)
    (hhead : Selects (List.replicate z false ++ (Instr.write a d : Instr 4 16).bits) head) :
    let ops := head ++ ((off ++ sel).map .data ++ List.replicate polls .status)
    (device part).trace dev ops = List.replicate polls 0x20 ∧
      eeprom ((device part).run dev ops).hd = (eeprom dev.hd).exec (.write a d) ∧
      Settled part ((device part).run dev ops).t := by
  intro ops
  obtain ⟨h₀, s, hidle, hview, hhd, hset, hnone⟩ :=
    selects_run part hp habits dev _ head hpend hhead
  have hexec := instr_eeprom h₀ (.write a d) z hidle
  have hready : (hdBits h₀ (List.replicate z false ++ (Instr.write a d : Instr 4 16).bits)).ready =
      true := by
    obtain ⟨n, hdone⟩ := write_bits h₀ a d
    rw [instr_bits h₀ (.write a d) z hidle]
    change (hdBits (headed h₀ (.write a d)) (msbBits d)).ready = true
    rw [hdone]
  generalize hmid : (device part).run dev head = mid at hhd hset
  obtain ⟨hhd', hset', hnone'⟩ := low_writes part hp habits mid (off ++ sel)
    (fun hnil => hne (List.append_eq_nil_iff.mp hnil).1)
    (fun v hv => (List.mem_append.mp hv).elim (fun hv => (hoff v hv).2) (fun hv => (hsel v hv).2.2))
    hset.1
  obtain ⟨s₁, hs₁⟩ := hdRun_off mid.hd off hne hoff
  obtain ⟨s₂, hs₂, -⟩ := hdRun_low { mid.hd with ph := .idle, n := 0, sk := s₁ } sel hsel
  rw [hdRun_append, hs₁, hs₂] at hhd'
  generalize hraised : (device part).run mid ((off ++ sel).map Op.data) = raised at hhd' hset'
  obtain ⟨htrace, hsame, hset''⟩ := polls_ready part hp raised polls hset' (by rw [hhd'])
    (by rw [hhd', hhd]; exact hready)
  refine ⟨?_, ?_, ?_⟩
  · rw [Machine.trace_append, Machine.trace_append, hnone, hmid, hnone', hraised, htrace]
    rfl
  · rw [Machine.run_append, Machine.run_append, hmid, hraised, hsame, hhd', hhd, ← hview, ← hexec]
    rfl
  · rw [Machine.run_append, Machine.run_append, hmid, hraised]
    exact hset''

theorem framed_run (hp : part.hdProbe = true) (habits : part.hdAbits = 6) (dev : Pp)
    (i : Instr 4 16) (polls : ℕ) (ops : List Op) (hpend : dev.t.pending = false)
    (h : Framed i polls ops) :
    (device part).trace dev ops = answers (eeprom dev.hd) polls i ∧
      eeprom ((device part).run dev ops).hd = (eeprom dev.hd).exec i ∧
      Settled part ((device part).run dev ops).t := by
  cases h with
  | mk z head tail hhead htail =>
    have bare : ∀ i, Selects (List.replicate z false ++ i.bits) head →
        (device part).trace dev (head ++ []) = [] ∧
          eeprom ((device part).run dev (head ++ [])).hd = (eeprom dev.hd).exec i ∧
          Settled part ((device part).run dev (head ++ [])).t := by
      intro i hhead
      obtain ⟨h₀, s, hidle, hview, hhd, hset, hnone⟩ :=
        selects_run part hp habits dev _ head hpend hhead
      rw [List.append_nil]
      refine ⟨hnone, ?_, hset⟩
      rw [hhd, ← hview, ← instr_eeprom h₀ i z hidle]
      rfl
    cases htail with
    | read h => exact read_run part hp habits dev _ z 16 head tail hpend (Nat.le_refl 16) hhead h
    | write off sel polls hne hoff hsel =>
      exact write_run part hp habits dev _ _ z polls head off sel hpend hne hoff hsel hhead
    | unpolled => exact bare _ hhead
    | erase => exact bare _ hhead
    | ewen => exact bare _ hhead
    | ewds => exact bare _ hhead

theorem abandoned_run (hp : part.hdProbe = true) (habits : part.hdAbits = 6) (dev : Pp)
    (i : Instr 4 16) (ops : List Op) (hpend : dev.t.pending = false) (h : Abandoned i ops) :
    eeprom ((device part).run dev ops).hd = eeprom dev.hd ∧
      Settled part ((device part).run dev ops).t := by
  cases h with
  | short z m head lows off hm hhead hlow hne hoff =>
    obtain ⟨h₀, s, hidle, hview, hhd, hset, -⟩ :=
      selects_run part hp habits dev _ head hpend hhead
    obtain ⟨hsame, hset'⟩ := drop_run part hp habits ((device part).run dev head) lows off hset.1
      hlow hne hoff
    rw [Machine.run_append]
    refine ⟨?_, hset'⟩
    rw [hsame, hhd, ← hview, ← instr_short h₀ i z m hidle hm]
    rfl
  | reading z n a head tail lows off hi hn hhead htail hlow hne hoff =>
    subst hi
    obtain ⟨-, hview, hset⟩ := read_run part hp habits dev a z n head tail hpend (by omega) hhead
      htail
    obtain ⟨hsame, hset'⟩ := drop_run part hp habits ((device part).run dev (head ++ tail)) lows off
      hset.1 hlow hne hoff
    rw [Machine.run_append]
    exact ⟨hsame.trans hview, hset'⟩

theorem session_run (hp : part.hdProbe = true) (habits : part.hdAbits = 6) (dev : Pp)
    (is : List (Instr 4 16)) (ops : List Op) (hpend : dev.t.pending = false)
    (h : Session is ops) :
    eeprom ((device part).run dev ops).hd = is.foldl Eeprom.exec (eeprom dev.hd) ∧
      ((device part).run dev ops).t.pending = false := by
  induction h generalizing dev with
  | nil => exact ⟨rfl, hpend⟩
  | @full i is polls ops rest head tail ih =>
    obtain ⟨-, hexec, hset⟩ := framed_run part hp habits dev i polls ops hpend head
    rw [Machine.run_append, List.foldl_cons, ← hexec]
    exact ih _ hset.1
  | @dropped i is ops rest head tail ih =>
    obtain ⟨hsame, hset⟩ := abandoned_run part hp habits dev i ops hpend head
    rw [Machine.run_append, ← hsame]
    exact ih _ hset.1

/-- From any state of the device, and after any row of accesses, memory and latch are the
    reference part's, and the next access is answered as the reference part would. -/
theorem eeprom_refined (hp : part.hdProbe = true) (habits : part.hdAbits = 6) (dev : Pp)
    (is : List (Instr 4 16)) (ops : List Op) (hpend : dev.t.pending = false)
    (h : Session is ops) :
    let e := is.foldl Eeprom.exec (eeprom dev.hd)
    eeprom ((device part).run dev ops).hd = e ∧
      ∀ i polls next, Framed i polls next →
        (device part).trace ((device part).run dev ops) next = answers e polls i := by
  intro e
  obtain ⟨hview, hpend'⟩ := session_run part hp habits dev is ops hpend h
  refine ⟨hview, ?_⟩
  intro i polls next hnext
  obtain ⟨htrace, -, -⟩ := framed_run part hp habits _ i polls next hpend' hnext
  rw [htrace, hview]

def plainBit (b : Bool) : List Byte :=
  [if b then 0x42 else 0x02, if b then 0x62 else 0x22, if b then 0x42 else 0x02]

def plainOps (bits : List Bool) : List Op := (0x00 :: bits.flatMap plainBit).map .data

def plainSamples (n : ℕ) : List Op :=
  (List.replicate n ((plainBit false).map Op.data ++ [.status])).flatten

theorem clocks_plain (b : Bool) : ∃ lows highs falls rise, Clocks b (plainBit b) lows highs falls rise := by
  have hlow : ∀ b : Bool, Low (if b then 0x42 else 0x02) := by
    intro b
    cases b <;> exact ⟨rfl, rfl, rfl⟩
  refine ⟨[if b then 0x42 else 0x02], [], [if b then 0x42 else 0x02], if b then 0x62 else 0x22, rfl,
    by simp, ?_, ?_, ?_, by simp, ?_⟩
  · intro v hv
    rw [List.mem_singleton.mp hv]
    exact hlow b
  · cases b <;> exact ⟨rfl, rfl, rfl⟩
  · cases b <;> rfl
  · intro v hv
    rw [List.mem_singleton.mp hv]
    exact hlow b

theorem shifted_plain (bits : List Bool) : Shifted bits (bits.flatMap plainBit) := by
  induction bits with
  | nil => exact .nil
  | cons b bits ih =>
    obtain ⟨lows, highs, falls, rise, hc⟩ := clocks_plain b
    exact .cons hc ih

theorem selects_plain (bits : List Bool) : Selects bits (plainOps bits) := by
  apply Selects.mk [0x00] (bits.flatMap plainBit) (by simp) _ (shifted_plain bits)
  intro v hv
  rw [List.mem_singleton.mp hv]
  exact ⟨rfl, rfl⟩

theorem sampled_plain (n : ℕ) : Sampled n (plainSamples n) := by
  induction n with
  | zero => exact .nil
  | succ n ih =>
    obtain ⟨lows, highs, falls, rise, hc⟩ := clocks_plain false
    have h := Sampled.cons hc ih
    unfold plainSamples
    rw [List.replicate_succ, List.flatten_cons, List.append_assoc]
    exact h

/-- Enable, store a word, read it back: one row of accesses on an I.G.O. 2 image. -/
theorem eeprom_refined_store :
    let cfg := detected "Version 2002 (DE)"
    let enable : Instr 4 16 := .ewen 0
    let put : Instr 4 16 := .write 5 0xBEEF
    let get : Instr 4 16 := .read 5
    (device (initPart cfg)).trace
        ((device (initPart cfg)).run (ppInit cfg)
          (plainOps enable.bits ++ [] ++ (plainOps put.bits ++ [] ++ [])))
        (plainOps get.bits ++ plainSamples 16) =
      (msbBits (0xBEEF : BitVec 16)).map hdDo := by
  intro cfg enable put get
  have h : Session [enable, put] (plainOps enable.bits ++ [] ++ (plainOps put.bits ++ [] ++ [])) :=
    .full (.mk 0 _ [] (selects_plain enable.bits) .ewen)
      (.full (.mk 0 _ [] (selects_plain put.bits) .unpolled) .nil)
  have hrefined := eeprom_refined (initPart cfg) (by decide +kernel) (by decide +kernel) (ppInit cfg)
    [enable, put] _ rfl h
  rw [hrefined.2 get 0 _ (.mk 0 _ _ (selects_plain get.bits) (.read (sampled_plain 16)))]
  rfl

end PeepeeBox.MicrowireEeprom
