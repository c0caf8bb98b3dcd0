import PeepeeBox.FunLink
import PeepeeBox.IButton
import PeepeeBox.OneWire

set_option autoImplicit false

/-!
# What the two tokens answer

Both slaves follow the 1-Wire part slot by slot, whatever was left of an earlier transaction
when the reset came.
-/
namespace PeepeeBox.TokenTransactions
open CString FunLink IButton OneWire TokenSlave TraceMachine

theorem table_step : ∀ c : Byte,
    (if c &&& 1 ≠ 0 then c >>> 1 ^^^ 0x8C else c >>> 1) = crcShift c := by
  decide +kernel

theorem crc8Tab_eq (i : Byte) : crc8Tab i = crcShift^[8] i := by
  have hstep : (fun (c : Byte) (_ : ℕ) => if c &&& 1 ≠ 0 then c >>> 1 ^^^ 0x8C else c >>> 1) =
      fun c _ => crcShift c := by
    funext c _
    exact table_step c
  unfold crc8Tab
  rw [hstep]
  rfl

theorem tableCrc8_run (d : List Byte) (crc : Byte) :
    tableCrc8 d crc = (wireBits d).foldl crcBit crc := by
  induction d generalizing crc with
  | nil => rfl
  | cons x d ih =>
    rw [wireBits_cons, List.foldl_append, crc_byte, ← crc8Tab_eq]
    exact ih _

theorem tableCrc8_eq (d : List Byte) : tableCrc8 d 0 = crc8 d := tableCrc8_run d 0

section Slots

variable {cap : ℕ} {page : Vector Byte 128 → Byte → Byte → List Byte} {p : OneWire.Part}

def phaseOf (t : Token) : Phase :=
  match t.state with
  | .cmd => .command
  | .ta => .address (if t.nta = 0 then none else some (t.ta 0))
  | .done => .done

structure Tracks (page : Vector Byte 128 → Byte → Byte → List Byte) (p : OneWire.Part) (t : Token)
    (s : Slave) : Prop where
  rom : t.rom.toList = p.rom
  mem : page t.mem = p.page
  stored : t.outLen ≤ t.out.length
  queue : s.queue = (wireBits (t.out.take t.outLen)).drop t.outPos
  count : s.held.length = t.nbits
  short : t.nbits < 8
  bits : t.inbits = assemble s.held
  phase : s.phase = phaseOf t
  address : t.state = .ta → t.nta < 2

theorem Tracks.reset (t : Token) :
    Tracks page { rom := t.rom.toList, page := page t.mem } (resetState t) Slave.reset where
  rom := rfl
  mem := rfl
  stored := Nat.zero_le _
  queue := rfl
  count := rfl
  short := Nat.succ_pos 7
  bits := rfl
  phase := rfl
  address h := nomatch h

theorem queue_tracks {t : Token} {d : List Byte} (hrom : t.rom.toList = p.rom)
    (hmem : page t.mem = p.page) (hd : d.length ≤ cap) (hnbits : t.nbits = 0)
    (hinbits : t.inbits = 0) :
    Tracks page p { queue cap t d with state := .done }
      { queue := wireBits d, held := [], phase := .done } where
  rom := hrom
  mem := hmem
  stored := by
    change min d.length cap ≤ (d.take (min d.length cap) ++ t.out.drop (min d.length cap)).length
    rw [Nat.min_eq_left hd, List.take_length, List.length_append]
    exact Nat.le_add_right _ _
  queue := by
    change _ = (wireBits ((d.take (min d.length cap) ++
      t.out.drop (min d.length cap)).take (min d.length cap))).drop 0
    rw [Nat.min_eq_left hd, List.take_length, List.take_left, List.drop_zero]
  count := hnbits.symm
  short := by
    change t.nbits < 8
    omega
  bits := hinbits
  phase := rfl
  address h := nomatch h

theorem onByte_tracks {t : Token} {s : Slave} (h : Tracks page p t s) (hqueue : s.queue = [])
    (hheld : s.held = []) (hrom : p.rom.length ≤ cap) (hpage : ∀ lo hi, (p.page lo hi).length ≤ cap)
    (v : Byte) : Tracks page p (onByte cap page t v) (p.byte s v) := by
  have hnbits : t.nbits = 0 := by
    rw [← h.count, hheld]
    rfl
  have hinbits : t.inbits = 0 := by
    rw [h.bits, hheld]
    rfl
  obtain ⟨queue, held, phase⟩ := s
  obtain rfl : queue = [] := hqueue
  obtain rfl : held = [] := hheld
  obtain rfl : phase = phaseOf t := h.phase
  unfold onByte OneWire.Part.byte
  cases hstate : t.state with
  | cmd =>
    have hphase : phaseOf t = .command := by
      unfold phaseOf
      rw [hstate]
    rw [hphase]
    dsimp only
    by_cases hread : v = 0x33
    · rw [if_pos hread, if_pos hread, ← h.rom]
      exact queue_tracks h.rom h.mem (h.rom ▸ hrom) hnbits hinbits
    rw [if_neg hread, if_neg hread]
    by_cases hskip : v = 0xCC
    · rw [if_pos hskip, if_pos hskip]
      exact { h with phase := rfl, address := nofun }
    rw [if_neg hskip, if_neg hskip]
    by_cases hmemory : v = 0xF0
    · rw [if_pos hmemory, if_pos hmemory]
      exact { h with phase := rfl, address := fun _ => Nat.succ_pos 1 }
    rw [if_neg hmemory, if_neg hmemory]
    exact { h with phase := rfl, address := nofun }
  | ta =>
    have hnta := h.address hstate
    have hphase : phaseOf t = .address (if t.nta = 0 then none else some (t.ta 0)) := by
      unfold phaseOf
      rw [hstate]
    rw [hphase]
    dsimp only
    by_cases hfirst : t.nta = 0
    · rw [if_pos hfirst, if_neg (by omega)]
      exact {
        h with
        phase := by
          change _ = Phase.address
            (if t.nta + 1 = 0 then none else some (Function.update t.ta t.nta v 0))
          rw [if_neg (Nat.succ_ne_zero _), hfirst, Function.update_self]
        address := fun _ => by
          dsimp only
          omega }
    · have hsecond : t.nta = 1 := by omega
      rw [if_neg hfirst, if_pos (by omega), hsecond, Function.update_self,
        Function.update_of_ne (by decide)]
      dsimp only
      have hmem : page t.mem (t.ta 0) v = p.page (t.ta 0) v := by rw [h.mem]
      rw [hmem]
      exact queue_tracks h.rom h.mem (hpage _ _) hnbits hinbits
  | done =>
    have hphase : phaseOf t = .done := by
      unfold phaseOf
      rw [hstate]
    rw [hphase]
    exact { h with phase := hphase.symm }

theorem bit_ne_zero (x : Byte) (i : ℕ) : (x >>> i &&& 1 ≠ 0) ↔ x.getLsbD i = true := by
  change (x >>> i &&& 1#8 ≠ 0) ↔ _
  rw [BitVec.and_one_eq_setWidth_ofBool_getLsbD, BitVec.getLsbD_ushiftRight, Nat.add_zero]
  cases x.getLsbD i <;> decide

theorem Tracks.driving {t : Token} {s : Slave} (h : Tracks page p t s)
    (hpos : t.outPos < t.outLen * 8) :
    s.queue = (t.out.getD (t.outPos >>> 3) 0).getLsbD (t.outPos &&& 7) ::
      (wireBits (t.out.take t.outLen)).drop (t.outPos + 1) := by
  have hlength : (t.out.take t.outLen).length = t.outLen := List.length_take_of_le h.stored
  have hinside : t.outPos < (wireBits (t.out.take t.outLen)).length := by
    rw [wireBits_length, hlength]
    omega
  have hbyte : t.outPos / 8 < t.outLen := by omega
  have hdiv : t.outPos >>> 3 = t.outPos / 8 := Nat.shiftRight_eq_div_pow _ 3
  have hmod : t.outPos &&& 7 = t.outPos % 8 := Nat.and_two_pow_sub_one_eq_mod _ 3
  have hbit := wireBits_getElem? (t.out.take t.outLen) t.outPos (by rw [hlength]; omega)
  rw [List.getElem?_eq_getElem hinside, Option.some_inj, List.getD_eq_getElem?_getD,
    List.getElem?_take_of_lt hbyte] at hbit
  rw [h.queue, List.drop_eq_getElem_cons hinside, hbit, hdiv, hmod, List.getD_eq_getElem?_getD]

theorem Tracks.listening {t : Token} {s : Slave} (h : Tracks page p t s)
    (hpos : ¬ t.outPos < t.outLen * 8) : s.queue = [] := by
  rw [h.queue]
  refine List.drop_eq_nil_of_le ?_
  rw [wireBits_length, List.length_take_of_le h.stored]
  omega

theorem onSlot_tracks {t : Token} {s : Slave} (h : Tracks page p t s) (hrom : p.rom.length ≤ cap)
    (hpage : ∀ lo hi, (p.page lo hi).length ≤ cap) (host : Byte) :
    Tracks page p (onSlot cap page t host).1 (p.slot s (decide (host ≠ 0))).1 ∧
      (onSlot cap page t host).2 = level (p.slot s (decide (host ≠ 0))).2 := by
  unfold onSlot OneWire.Part.slot
  by_cases hpos : t.outPos < t.outLen * 8
  · rw [if_pos hpos]
    have hqueue := h.driving hpos
    generalize hrest : (wireBits (t.out.take t.outLen)).drop (t.outPos + 1) = rest at hqueue
    rw [hqueue]
    dsimp only
    refine ⟨{ h with queue := hrest.symm }, ?_⟩
    unfold level
    exact if_congr (bit_ne_zero _ _) rfl rfl
  rw [if_neg hpos]
  have hqueue := h.listening hpos
  rw [hqueue]
  dsimp only
  have hecho : (if host ≠ 0 then (0xFF : Byte) else 0x00) = level (decide (host ≠ 0)) := by
    unfold level
    exact if_congr decide_eq_true_iff.symm rfl rfl
  have hbits : (if host ≠ 0 then t.inbits ||| 1 <<< t.nbits else t.inbits) =
      assemble (s.held ++ [decide (host ≠ 0)]) := by
    rw [assemble_snoc, ← h.bits, h.count]
    unfold deposit
    exact if_congr decide_eq_true_iff.symm rfl rfl
  have hcount : (s.held ++ [decide (host ≠ 0)]).length = t.nbits + 1 := by
    rw [List.length_append, List.length_singleton, h.count]
  refine ⟨?_, hecho⟩
  rw [hbits, hcount]
  by_cases hfull : t.nbits + 1 = 8
  · rw [if_pos hfull, if_pos hfull]
    have hidle : Tracks page p { t with inbits := 0, nbits := 0 }
        { s with queue := [], held := [] } :=
      { h with queue := hqueue ▸ h.queue, count := rfl, short := Nat.succ_pos 7, bits := rfl }
    exact onByte_tracks hidle rfl rfl hrom hpage _
  · rw [if_neg hfull, if_neg hfull]
    exact {
      h with
      queue := hqueue ▸ h.queue
      count := hcount
      short := Nat.lt_of_le_of_ne h.short hfull
      bits := rfl }

variable (cap page) in
def slotMachine : Machine Token Byte Byte where
  step t host := ((onSlot cap page t host).1, some (onSlot cap page t host).2)

theorem slot_simulation (hrom : p.rom.length ≤ cap)
    (hpage : ∀ lo hi, (p.page lo hi).length ≤ cap) :
    Simulation (slotMachine cap page) p.slave (fun _ => True) (Tracks page p) where
  next _ _ host _ h := (onSlot_tracks h hrom hpage host).1
  answer _ _ host _ h := congrArg some (onSlot_tracks h hrom hpage host).2

end Slots

/-- A byte through the UART, and what its receive register then holds. -/
def ibLine : Machine IB Byte Byte where
  step ib val := (ibTx ib val, some (ibTx ib val).rbr)

/-- A slot on the adapter's line, and what the wire reads back. -/
def owLine : Machine Token Byte Byte where
  step t host := ((funlinkOwSlot t host).1, some (funlinkOwSlot t host).2)

def ibPart (ib : IB) : OneWire.Part := { rom := ib.slave.rom.toList, page := ibPage ib.slave.mem }

def owPart (t : Token) : OneWire.Part := { rom := t.rom.toList, page := funlinkPage t.mem }

theorem ib_simulation {p : OneWire.Part} (hrom : p.rom.length ≤ ibMemsize + 16)
    (hpage : ∀ lo hi, (p.page lo hi).length ≤ ibMemsize + 16) :
    Simulation ibLine p.slave (fun val => val ≠ 0xF0) fun ib s => Tracks ibPage p ib.slave s where
  next ib s val hval h := by
    change Tracks ibPage p (ibTx ib val).slave _
    unfold ibTx
    rw [if_neg hval]
    exact (slot_simulation hrom hpage).next ib.slave s val trivial h
  answer ib s val hval h := by
    change some (ibTx ib val).rbr = _
    unfold ibTx
    rw [if_neg hval]
    exact (slot_simulation hrom hpage).answer ib.slave s val trivial h

theorem rom_length (t : Token) : t.rom.toList.length = 8 := t.rom.length_toList

theorem ibPage_length (mem : Vector Byte 128) (lo hi : Byte) :
    (ibPage mem lo hi).length ≤ ibMemsize + 16 := by
  have hmem : mem.toList.length = 128 := mem.length_toList
  unfold ibPage ibMemsize
  rw [List.length_cons]
  split
  · rw [List.length_drop, hmem]
    omega
  · rw [List.length_nil]
    omega

theorem funlinkPage_length (mem : Vector Byte 128) (lo hi : Byte) :
    (funlinkPage mem lo hi).length ≤ funlinkOwMem + 8 := by
  have hmem : mem.toList.length = 128 := mem.length_toList
  unfold funlinkPage funlinkOwMem
  rw [List.length_cons]
  split
  · rw [List.length_append, List.length_drop, hmem, List.length_singleton]
    omega
  · rw [List.length_nil]
    omega

theorem slot_ne_reset {ds : List Byte} {n : ℕ} :
    ∀ val ∈ slots ds ++ List.replicate n 0xFF, val ≠ 0xF0 := by
  have hlevel : ∀ b, level b ≠ 0xF0 := by decide
  intro val hval
  rcases List.mem_append.mp hval with hslot | hread
  · obtain ⟨b, -, rfl⟩ := List.mem_map.mp hslot
    exact hlevel b
  · rw [List.eq_of_mem_replicate hread]
    decide

theorem ibLine_trace (ib : IB) (ds : List Byte) (n : ℕ) :
    ibLine.trace (ibTx ib 0xF0) (slots ds ++ List.replicate n 0xFF) =
      (ibPart ib).slave.trace Slave.reset (slots ds ++ List.replicate n 0xFF) := by
  have hrom : (ibPart ib).rom.length ≤ ibMemsize + 16 := by
    change ib.slave.rom.toList.length ≤ _
    rw [rom_length]
    decide
  exact (ib_simulation hrom fun lo hi => ibPage_length _ lo hi).trace (Tracks.reset ib.slave) _
    slot_ne_reset

theorem owLine_trace (t : Token) (is : List Byte) :
    owLine.trace (resetState t) is = (owPart t).slave.trace Slave.reset is := by
  have hrom : (owPart t).rom.length ≤ funlinkOwMem + 8 := by
    change t.rom.toList.length ≤ _
    rw [rom_length]
    decide
  exact (slot_simulation hrom fun lo hi => funlinkPage_length _ lo hi).trace (Tracks.reset t) is
    fun _ _ => trivial

def addressLow (ta : ℕ) : Byte := BitVec.ofNat 8 ta

def addressHigh (ta : ℕ) : Byte := BitVec.ofNat 8 (ta / 256)

/-- SKIP ROM, READ MEMORY and the target address. -/
def readRequest (ta : ℕ) : List Byte := slots [0xCC, 0xF0, addressLow ta, addressHigh ta]

theorem targetAddress_eq {ta : ℕ} (hta : ta < 128) :
    targetAddress (addressLow ta) (addressHigh ta) = ta := by
  have hhigh : addressHigh ta = 0 := by
    unfold addressHigh
    rw [Nat.div_eq_of_lt (by omega)]
    rfl
  unfold targetAddress addressLow
  rw [hhigh]
  change ((BitVec.ofNat 8 ta).setWidth 16 ||| 0#16).toNat = ta
  rw [BitVec.or_zero, BitVec.toNat_setWidth, BitVec.toNat_ofNat]
  omega

theorem ibPage_inside (mem : Vector Byte 128) {ta : ℕ} (hta : ta < 128) :
    ibPage mem (addressLow ta) (addressHigh ta) =
      crc8 [0xF0, addressLow ta, addressHigh ta] :: mem.toList.drop ta := by
  unfold ibPage ibCrc8 ibMemsize
  rw [targetAddress_eq hta, if_pos hta, tableCrc8_eq]

theorem funlinkPage_inside (mem : Vector Byte 128) {ta : ℕ} (hta : ta < 128) :
    funlinkPage mem (addressLow ta) (addressHigh ta) =
      crc8 [0xF0, addressLow ta, addressHigh ta] :: mem.toList.drop ta ++
        [crc8 (mem.toList.drop ta)] := by
  unfold funlinkPage funlinkCrc8 funlinkOwMem
  rw [targetAddress_eq hta, if_pos hta, tableCrc8_eq, tableCrc8_eq]
  rfl

theorem ib_readMemory (ib : IB) {ta : ℕ} (hta : ta < 128) (n : ℕ) :
    ibLine.trace (ibTx ib 0xF0) (readRequest ta ++ List.replicate n 0xFF) = readRequest ta ++
      readBack (crc8 [0xF0, addressLow ta, addressHigh ta] :: ib.slave.mem.toList.drop ta) n := by
  unfold readRequest
  rw [ibLine_trace, readMemory]
  change _ ++ readBack (ibPage ib.slave.mem (addressLow ta) (addressHigh ta)) n = _
  rw [ibPage_inside _ hta]

theorem ow_readMemory (t : Token) {ta : ℕ} (hta : ta < 128) (n : ℕ) :
    owLine.trace (resetState t) (readRequest ta ++ List.replicate n 0xFF) = readRequest ta ++
      readBack (crc8 [0xF0, addressLow ta, addressHigh ta] :: t.mem.toList.drop ta ++
        [crc8 (t.mem.toList.drop ta)]) n := by
  unfold readRequest
  rw [owLine_trace, readMemory]
  change _ ++ readBack (funlinkPage t.mem (addressLow ta) (addressHigh ta)) n = _
  rw [funlinkPage_inside _ hta]

theorem readBack_append (ds es : List Byte) {n : ℕ} (hn : n ≤ 8 * ds.length) :
    readBack (ds ++ es) n = readBack ds n := by
  have hshort : n ≤ (slots ds).length := by
    rw [slots_length]
    exact hn
  have hlong : 8 * ds.length ≤ 8 * (ds ++ es).length := by
    rw [List.length_append]
    omega
  unfold readBack
  rw [slots_append, List.take_append_of_le_length hshort, Nat.sub_eq_zero_of_le (Nat.le_trans hn hlong),
    Nat.sub_eq_zero_of_le hn]

theorem ibRom_closed (serial : Vector Byte 6) : crc8 (ibRom serial).toList = 0 := by
  unfold ibRom ibCrc8
  rw [Vector.toList_push, tableCrc8_eq]
  exact crc8_closed _

theorem funlinkRom_closed (station : BitVec 32) : crc8 (funlinkRom station).toList = 0 := by
  unfold funlinkRom funlinkCrc8
  rw [Vector.toList_push, tableCrc8_eq]
  exact crc8_closed _

/-- A byte the guest writes at a tick, and whether the token took it. -/
def adapterLine : Machine Adapter (BitVec 32 × Byte) Bool where
  step dev w := ((funlinkOwConsume w.1 dev w.2).1, some (funlinkOwConsume w.1 dev w.2).2)

/-- Slots with no more than a second between them. -/
def Dense : BitVec 32 → List (BitVec 32 × Byte) → Prop
  | _, [] => True
  | last, w :: ws => w.1 - last ≤ 1000 ∧ (w.2 = 0x00 ∨ w.2 = 0xFF) ∧ Dense w.1 ws

theorem consume_slot {dev : Adapter} {now : BitVec 32} {val : Byte} (hactive : dev.ow.active = true)
    (hnow : now - dev.ow.last ≤ 1000) (hval : val = 0x00 ∨ val = 0xFF) :
    funlinkOwConsume now dev val =
      ({ dev with
          rx := kept dev.rx [(funlinkOwSlot dev.ow.slave val).2]
          ow.slave := (funlinkOwSlot dev.ow.slave val).1
          ow.last := now }, true) := by
  have hslot : val ≠ 0xF0 := by
    rcases hval with rfl | rfl <;> decide
  have hquiet : ¬ (dev.ow.active = true ∧ 1000 < now - dev.ow.last) :=
    fun h => absurd h.2 (BitVec.not_lt.mpr hnow)
  unfold funlinkOwConsume
  rw [if_neg fun h => hslot h.1]
  simp only [if_neg hquiet]
  rw [if_neg (not_not.mpr hactive), funlinkRxPush_eq]
  rcases hval with rfl | rfl
  · exact if_neg fun h => h.1 rfl
  · exact if_neg fun h => h.2 rfl

theorem adapter_slots {dev : Adapter} {ws : List (BitVec 32 × Byte)}
    (hactive : dev.ow.active = true) (hdense : Dense dev.ow.last ws) :
    adapterLine.trace dev ws = List.replicate ws.length true ∧
      (adapterLine.run dev ws).rx =
        kept dev.rx (owLine.trace dev.ow.slave (ws.map Prod.snd)) := by
  induction ws generalizing dev with
  | nil => exact ⟨rfl, rfl⟩
  | cons w ws ih =>
    obtain ⟨hnow, hval, hrest⟩ := hdense
    have hstep := consume_slot hactive hnow hval
    have hnext := congrArg Prod.fst hstep
    have hanswer : adapterLine.answer dev w = some true :=
      congrArg some (congrArg Prod.snd hstep)
    change adapterLine.next dev w = _ at hnext
    have hlater : (adapterLine.next dev w).ow.active = true ∧
        Dense (adapterLine.next dev w).ow.last ws := by
      rw [hnext]
      exact ⟨hactive, hrest⟩
    obtain ⟨htrace, hrun⟩ := ih hlater.1 hlater.2
    rw [Machine.trace_cons, Machine.run_cons, List.map_cons, Machine.trace_cons, hanswer, htrace,
      hrun, hnext]
    exact ⟨rfl, kept_append _ _ _⟩

theorem adapter_transaction (dev : Adapter) {baud : ℕ} (hbaud : dev.baud = some baud)
    (hslow : baud ≤ funlinkOwResetHz) (now : BitVec 32) {ws : List (BitVec 32 × Byte)}
    (hdense : Dense now ws) :
    adapterLine.trace dev ((now, 0xF0) :: ws) = List.replicate (ws.length + 1) true ∧
      (adapterLine.run dev ((now, 0xF0) :: ws)).rx = kept dev.rx (0xE0 ::
        owLine.trace (resetState (funlinkOwLoad dev).ow.slave) (ws.map Prod.snd)) := by
  have hstep : funlinkOwConsume now dev 0xF0 = (funlinkRxPush
      { funlinkOwReset (funlinkOwLoad dev) with ow.active := true, ow.last := now } [0xE0], true) :=
    if_pos ⟨rfl, baud, hbaud, hslow⟩
  rw [funlinkRxPush_eq] at hstep
  have hnext := congrArg Prod.fst hstep
  have hanswer : adapterLine.answer dev (now, 0xF0) = some true :=
    congrArg some (congrArg Prod.snd hstep)
  change adapterLine.next dev (now, 0xF0) = _ at hnext
  have hlater : (adapterLine.next dev (now, 0xF0)).ow.active = true ∧
      Dense (adapterLine.next dev (now, 0xF0)).ow.last ws := by
    rw [hnext]
    exact ⟨rfl, hdense⟩
  obtain ⟨htrace, hrun⟩ := adapter_slots hlater.1 hlater.2
  rw [Machine.trace_cons, Machine.run_cons, hanswer, htrace, hrun, hnext]
  exact ⟨rfl, kept_append _ [0xE0] _⟩

/-- Both tokens serve what their memory holds, and agree to the end of the page. -/
theorem tokens_agree :
    (∀ (ib : IB) (ta n : ℕ), ta < 128 →
      ibLine.trace (ibTx ib 0xF0) (readRequest ta ++ List.replicate n 0xFF) = readRequest ta ++
        readBack (crc8 [0xF0, addressLow ta, addressHigh ta] :: ib.slave.mem.toList.drop ta) n) ∧
    (∀ (dev : Adapter) (ta n : ℕ), ta < 128 →
      owLine.trace (funlinkOwReset dev).ow.slave (readRequest ta ++ List.replicate n 0xFF) =
        readRequest ta ++
          readBack (crc8 [0xF0, addressLow ta, addressHigh ta] ::
            dev.ow.slave.mem.toList.drop ta ++ [crc8 (dev.ow.slave.mem.toList.drop ta)]) n) ∧
    (∀ (ib : IB) (dev : Adapter) (ta n : ℕ), ta < 128 → ib.slave.mem = dev.ow.slave.mem →
      n ≤ 8 * (1 + (128 - ta)) →
      owLine.trace (funlinkOwReset dev).ow.slave (readRequest ta ++ List.replicate n 0xFF) =
        ibLine.trace (ibTx ib 0xF0) (readRequest ta ++ List.replicate n 0xFF)) ∧
    (∀ (ib : IB) (n : ℕ),
      ibLine.trace (ibTx ib 0xF0) (slots [0x33] ++ List.replicate n 0xFF) =
        slots [0x33] ++ readBack ib.slave.rom.toList n) ∧
    (∀ (dev : Adapter) (n : ℕ),
      owLine.trace (funlinkOwReset dev).ow.slave (slots [0x33] ++ List.replicate n 0xFF) =
        slots [0x33] ++ readBack dev.ow.slave.rom.toList n) ∧
    (∀ serial : Vector Byte 6, crc8 (ibStart serial).slave.rom.toList = 0) ∧
    (∀ dev : Adapter, crc8 (funlinkOwLoad dev).ow.slave.rom.toList = 0) ∧
    (∀ (dev : Adapter) (baud : ℕ) (now : BitVec 32) (ws : List (BitVec 32 × Byte)),
      dev.baud = some baud → baud ≤ funlinkOwResetHz → Dense now ws →
      adapterLine.trace dev ((now, 0xF0) :: ws) = List.replicate (ws.length + 1) true ∧
        (adapterLine.run dev ((now, 0xF0) :: ws)).rx = kept dev.rx (0xE0 ::
          owLine.trace (funlinkOwReset (funlinkOwLoad dev)).ow.slave (ws.map Prod.snd))) := by
  refine ⟨?_, ?_, ?_, ?_, ?_, ?_, ?_, ?_⟩
  · intro ib ta n hta
    exact ib_readMemory ib hta n
  · intro dev ta n hta
    exact ow_readMemory dev.ow.slave hta n
  · intro ib dev ta n hta hmem hn
    have hlength : (crc8 [0xF0, addressLow ta, addressHigh ta] ::
        dev.ow.slave.mem.toList.drop ta).length = 1 + (128 - ta) := by
      rw [List.length_cons, List.length_drop, Vector.length_toList, Nat.add_comm]
    change owLine.trace (resetState dev.ow.slave) _ = _
    rw [ow_readMemory _ hta, ib_readMemory _ hta, hmem, readBack_append _ _ (by rw [hlength]; exact hn)]
  · intro ib n
    rw [ibLine_trace, readRom]
    rfl
  · intro dev n
    change owLine.trace (resetState dev.ow.slave) _ = _
    rw [owLine_trace, readRom]
    rfl
  · intro serial
    exact ibRom_closed serial
  · intro dev
    exact funlinkRom_closed (funlinkStation dev)
  · intro dev baud now ws hbaud hslow hdense
    exact adapter_transaction dev hbaud hslow now hdense

/-- The last two bytes of a fresh page, behind the check byte of their address. -/
theorem tokens_agree_tail :
    ibLine.trace (ibTx (ibStart (Vector.replicate 6 0x50)) 0xF0)
        (readRequest 126 ++ List.replicate 24 0xFF) =
      readRequest 126 ++ slots [crc8 [0xF0, 126, 0], 0, 0] :=
  (tokens_agree.1 (ibStart (Vector.replicate 6 0x50)) 126 24 (by decide)).trans (by decide +kernel)

end PeepeeBox.TokenTransactions
