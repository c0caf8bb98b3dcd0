import Mathlib.Data.List.Induction
import Mathlib.Data.List.Infix
import PeepeeBox.NetModem

set_option autoImplicit false

/-!
# Frames on the serial line

What `modem_rx` queues for a packet is what `process_tx_packet` turns back into it, whatever the DTE wrote before, as
long as the line had room for the END that closed it.
-/
namespace PeepeeBox.SlipFraming
open ByteFifo NetModem

def escaped (b : Byte) : List Byte :=
  if b = slipEnd then [slipEsc, escEnd] else if b = slipEsc then [slipEsc, escEsc] else [b]

def escapedAll (p : List Byte) : List Byte := p.flatMap escaped

def slip (p : List Byte) : List Byte := slipEnd :: (escapedAll p ++ [slipEnd])

theorem escapedAll_cons (b : Byte) (p : List Byte) : escapedAll (b :: p) = escaped b ++ escapedAll p :=
  List.flatMap_cons

theorem escaped_end : ∀ b : Byte, slipEnd ∉ escaped b := by decide +kernel

theorem escapedAll_end (p : List Byte) : slipEnd ∉ escapedAll p := by
  intro hmem
  obtain ⟨b, -, hb⟩ := List.mem_flatMap.mp hmem
  exact escaped_end b hb

theorem escaped_length (b : Byte) : 1 ≤ (escaped b).length ∧ (escaped b).length ≤ 2 := by
  unfold escaped
  split_ifs
  · exact ⟨by decide, Nat.le_refl 2⟩
  · exact ⟨by decide, Nat.le_refl 2⟩
  · exact ⟨Nat.le_refl 1, Nat.le_succ 1⟩

theorem escapedAll_length (p : List Byte) :
    p.length ≤ (escapedAll p).length ∧ (escapedAll p).length ≤ 2 * p.length := by
  induction p with
  | nil => exact ⟨Nat.le_refl 0, Nat.le_refl 0⟩
  | cons b p ih =>
    have hb := escaped_length b
    rw [escapedAll_cons, List.length_append, List.length_cons]
    omega

theorem receive_room {len : ℕ} {received : List Byte} (c : Byte) (h : received.length < len) :
    receive len received c = received ++ [c] := if_pos h

theorem processBytes_end {len : ℕ} {received : List Byte} (rest : List Byte) (h : received ≠ []) :
    processBytes len received (slipEnd :: rest) = .ok received := by
  cases rest with
  | nil => rfl
  | cons d rest =>
    unfold processBytes
    rw [if_pos rfl, if_pos h]

theorem processBytes_escaped {len : ℕ} {received : List Byte} (b : Byte) (rest : List Byte)
    (hroom : received.length < len) (hrest : rest ≠ []) :
    processBytes len received (escaped b ++ rest) = processBytes len (received ++ [b]) rest := by
  obtain ⟨d, rest, rfl⟩ := List.exists_cons_of_ne_nil hrest
  unfold escaped
  split_ifs with hend hesc
  · subst hend
    rw [List.cons_append, List.cons_append, List.nil_append, ← receive_room slipEnd hroom]
    rfl
  · subst hesc
    rw [List.cons_append, List.cons_append, List.nil_append, ← receive_room slipEsc hroom]
    rfl
  · rw [List.singleton_append, ← receive_room b hroom]
    conv_lhs => unfold processBytes
    rw [if_neg hend, if_neg hesc]

theorem processBytes_packet {len : ℕ} (p : List Byte) {received : List Byte} (hroom : received.length + p.length ≤ len)
    (hsome : received ++ p ≠ []) :
    processBytes len received (escapedAll p ++ [slipEnd]) = .ok (received ++ p) := by
  induction p generalizing received with
  | nil =>
    rw [List.append_nil] at hsome ⊢
    exact processBytes_end [] hsome
  | cons b p ih =>
    rw [List.length_cons] at hroom
    have hnext : (received ++ [b]).length + p.length ≤ len := by
      rw [List.length_append, List.length_singleton]
      omega
    have hrest : escapedAll p ++ [slipEnd] ≠ [] := List.append_ne_nil_of_right_ne_nil _ (List.cons_ne_nil _ _)
    rw [escapedAll_cons, List.append_assoc, processBytes_escaped b _ (by omega) hrest, ih hnext (by simp),
      List.append_assoc, List.singleton_append]

theorem processBytes_inside (len : ℕ) (received p : List Byte) :
    ∃ out, processBytes len received (p ++ [slipEnd]) = .ok out := by
  induction hn : p.length using Nat.strong_induction_on generalizing received p with
  | _ n ih =>
    rcases p with _ | ⟨c, p⟩
    · exact ⟨received, rfl⟩
    · have hshort : p.length < n := by
        rw [← hn]
        exact Nat.lt_succ_self _
      rcases p with _ | ⟨d, p⟩
      · simp only [List.singleton_append]
        conv in processBytes _ _ _ => unfold processBytes
        split_ifs
        · exact ⟨_, rfl⟩
        · exact ⟨_, rfl⟩
        · exact ⟨_, rfl⟩
        · exact ⟨_, rfl⟩
      · have hshorter : p.length < n := Nat.lt_trans (Nat.lt_succ_self _) hshort
        simp only [List.cons_append]
        conv in processBytes _ _ _ => unfold processBytes
        split_ifs
        · exact ⟨_, rfl⟩
        · exact ih _ hshort received (d :: p) rfl
        · exact ih _ hshorter _ p rfl
        · exact ih _ hshort _ (d :: p) rfl

theorem processTxPacket_inside (p : List Byte) : ∃ sent, processTxPacket (p ++ [slipEnd]) = .ok sent := by
  obtain ⟨out, hout⟩ := processBytes_inside (p ++ [slipEnd]).length [] p
  unfold processTxPacket
  rw [hout]
  exact ⟨_, rfl⟩

theorem processTxPacket_packet {p : List Byte} (hp : p ≠ []) :
    processTxPacket (escapedAll p ++ [slipEnd]) = .ok [etherHeader ++ p] := by
  have hlength := (escapedAll_length p).1
  have hroom : ([] : List Byte).length + p.length ≤ (escapedAll p ++ [slipEnd]).length := by
    rw [List.length_append, List.length_nil]
    omega
  unfold processTxPacket
  rw [processBytes_packet p hroom hp]
  change Except.ok (if p ≠ [] then _ else _) = _
  rw [if_pos hp]
  rfl

structure Packet (dev : Modem) : Prop where
  connected : dev.connected = true
  mode : dev.tcpIpMode = false

def counted (dev : Modem) (data : Byte) : Modem := { countEscape dev data with cmdpause := 0 }

theorem counted_rest (dev : Modem) (data : Byte) :
    (counted dev data).line = dev.line ∧ (counted dev data).connected = dev.connected ∧
      (counted dev data).tcpIpMode = dev.tcpIpMode ∧ (counted dev data).rxData = dev.rxData := by
  unfold counted countEscape
  dsimp only
  split_ifs
  · exact ⟨rfl, rfl, rfl, rfl⟩
  · exact ⟨rfl, rfl, rfl, rfl⟩
  · exact ⟨rfl, rfl, rfl, rfl⟩

theorem Packet.counted {dev : Modem} (h : Packet dev) (data : Byte) : Packet (counted dev data) :=
  ⟨(counted_rest dev data).2.1.trans h.connected, (counted_rest dev data).2.2.1.trans h.mode⟩

theorem byte_inside (dev : Modem) (data : Byte) : ∃ r, modemDataModeProcessByte dev data = .ok r := by
  unfold modemDataModeProcessByte
  dsimp only
  split_ifs with hroom hend
  · obtain ⟨rfl, -⟩ := hend
    obtain ⟨sent, hsent⟩ := processTxPacket_inside (countEscape dev slipEnd).line.bytes
    rw [hsent]
    exact ⟨_, rfl⟩
  · exact ⟨_, rfl⟩
  · exact ⟨_, rfl⟩

theorem run_inside (ws : List Byte) (dev : Modem) : ∃ r, dataRun dev ws = .ok r := by
  induction ws generalizing dev with
  | nil => exact ⟨_, rfl⟩
  | cons w ws ih =>
    obtain ⟨⟨dev₁, sent⟩, hstep⟩ := byte_inside dev w
    obtain ⟨⟨dev₂, rest⟩, hrun⟩ := ih dev₁
    refine ⟨(dev₂, sent ++ rest), ?_⟩
    unfold dataRun
    rw [hstep]
    change Except.bind (dataRun dev₁ ws) _ = _
    rw [hrun]
    rfl

theorem run_cons {dev dev₁ dev₂ : Modem} {w : Byte} {ws : List Byte} {sent rest : List (List Byte)}
    (hstep : modemDataModeProcessByte dev w = .ok (dev₁, sent)) (hrun : dataRun dev₁ ws = .ok (dev₂, rest)) :
    dataRun dev (w :: ws) = .ok (dev₂, sent ++ rest) := by
  unfold dataRun
  rw [hstep]
  change Except.bind (dataRun dev₁ ws) _ = _
  rw [hrun]
  rfl

theorem run_append {dev dev₁ dev₂ : Modem} {xs ys : List Byte} {sent rest : List (List Byte)}
    (hxs : dataRun dev xs = .ok (dev₁, sent)) (hys : dataRun dev₁ ys = .ok (dev₂, rest)) :
    dataRun dev (xs ++ ys) = .ok (dev₂, sent ++ rest) := by
  induction xs generalizing dev sent with
  | nil =>
    obtain ⟨rfl, rfl⟩ := Prod.mk.inj (Except.ok.inj hxs)
    exact hys
  | cons x xs ih =>
    obtain ⟨⟨dev', out⟩, hstep⟩ := byte_inside dev x
    obtain ⟨⟨dev'', outs⟩, hrun⟩ := run_inside xs dev'
    have hwhole := run_cons hstep hrun
    rw [hxs] at hwhole
    obtain ⟨rfl, rfl⟩ := Prod.mk.inj (Except.ok.inj hwhole)
    rw [List.append_assoc]
    exact run_cons hstep (ih hrun)

theorem byte_full {dev : Modem} (hfull : dev.line.bytes.length = serLineSize) (data : Byte) :
    modemDataModeProcessByte dev data = .ok (counted dev data, []) := by
  have hline : (countEscape dev data).line = dev.line := (counted_rest dev data).1
  unfold modemDataModeProcessByte
  dsimp only
  apply dif_neg
  rw [hline, hfull]
  exact fun h => Nat.lt_irrefl _ h.1

theorem byte_open {dev : Modem} (h : Packet dev) {data : Byte} (hroom : dev.line.bytes.length < serLineSize)
    (hdata : data ≠ slipEnd) :
    ∃ dev', modemDataModeProcessByte dev data = .ok (dev', []) ∧ Packet dev' ∧
      dev'.line.bytes = dev.line.bytes ++ [data] := by
  have hline : (countEscape dev data).line = dev.line := (counted_rest dev data).1
  have hconnected : (countEscape dev data).connected = true := (h.counted data).connected
  have hopen : (countEscape dev data).line.bytes.length < serLineSize ∧ (countEscape dev data).connected = true := by
    rw [hline]
    exact ⟨hroom, hconnected⟩
  unfold modemDataModeProcessByte
  dsimp only
  rw [dif_pos hopen, if_neg fun hc => hdata hc.1]
  refine ⟨_, rfl, ⟨hconnected, (h.counted data).mode⟩, ?_⟩
  change (countEscape dev data).line.bytes ++ [data] = _
  rw [hline]

theorem byte_end {dev : Modem} (h : Packet dev) (hroom : dev.line.bytes.length < serLineSize)
    {sent : List (List Byte)} (hsent : processTxPacket (dev.line.bytes ++ [slipEnd]) = .ok sent) :
    ∃ dev', modemDataModeProcessByte dev slipEnd = .ok (dev', sent) ∧ Packet dev' ∧ dev'.line.bytes = [] := by
  have hline : (countEscape dev slipEnd).line = dev.line := (counted_rest dev slipEnd).1
  have hconnected : (countEscape dev slipEnd).connected = true := (h.counted slipEnd).connected
  have hmode : (countEscape dev slipEnd).tcpIpMode = false := (h.counted slipEnd).mode
  have hopen :
      (countEscape dev slipEnd).line.bytes.length < serLineSize ∧ (countEscape dev slipEnd).connected = true := by
    rw [hline]
    exact ⟨hroom, hconnected⟩
  unfold modemDataModeProcessByte
  dsimp only
  rw [dif_pos hopen, if_pos ⟨rfl, hmode⟩, hline, hsent]
  exact ⟨_, rfl, ⟨hconnected, hmode⟩, rfl⟩

theorem run_full {dev : Modem} (h : Packet dev) (ws : List Byte) (hfull : dev.line.bytes.length = serLineSize) :
    ∃ dev', dataRun dev ws = .ok (dev', []) ∧ Packet dev' ∧ dev'.line.bytes.length = serLineSize := by
  induction ws generalizing dev with
  | nil => exact ⟨dev, rfl, h, hfull⟩
  | cons w ws ih =>
    have hline : (counted dev w).line.bytes.length = serLineSize := by
      rw [(counted_rest dev w).1]
      exact hfull
    obtain ⟨dev', hrun, hrest⟩ := ih (h.counted w) hline
    exact ⟨dev', run_cons (byte_full hfull w) hrun, hrest⟩

theorem run_open {dev : Modem} (h : Packet dev) {ws : List Byte} (hno : slipEnd ∉ ws)
    (hroom : dev.line.bytes.length + ws.length ≤ serLineSize) :
    ∃ dev', dataRun dev ws = .ok (dev', []) ∧ Packet dev' ∧ dev'.line.bytes = dev.line.bytes ++ ws := by
  induction ws generalizing dev with
  | nil => exact ⟨dev, rfl, h, (List.append_nil _).symm⟩
  | cons w ws ih =>
    rw [List.length_cons] at hroom
    have hw : w ≠ slipEnd := fun heq => hno (heq ▸ List.mem_cons_self)
    obtain ⟨dev₁, hstep, hpacket, hline⟩ := byte_open h (by omega) hw
    have hroom' : dev₁.line.bytes.length + ws.length ≤ serLineSize := by
      rw [hline, List.length_append, List.length_singleton]
      omega
    obtain ⟨dev₂, hrun, hpacket', hline'⟩ := ih hpacket (fun hmem => hno (List.mem_cons_of_mem w hmem)) hroom'
    refine ⟨dev₂, run_cons hstep hrun, hpacket', ?_⟩
    rw [hline', hline, List.append_assoc, List.singleton_append]

theorem run_ends {dev : Modem} (h : Packet dev) (hline : dev.line.bytes = []) (k : ℕ) :
    ∃ dev', dataRun dev (List.replicate k slipEnd) = .ok (dev', []) ∧ Packet dev' ∧ dev'.line.bytes = [] := by
  induction k generalizing dev with
  | zero => exact ⟨dev, rfl, h, hline⟩
  | succ k ih =>
    have hroom : dev.line.bytes.length < serLineSize := by
      rw [hline]
      exact Nat.succ_pos _
    have hsent : processTxPacket (dev.line.bytes ++ [slipEnd]) = .ok [] := by
      rw [hline]
      rfl
    obtain ⟨dev₁, hstep, hpacket, hempty⟩ := byte_end h hroom hsent
    obtain ⟨dev₂, hrun, hrest⟩ := ih hpacket hempty
    exact ⟨dev₂, run_cons hstep hrun, hrest⟩

/-- The bytes of a frame make `network_tx` receive the packet and nothing else. -/
def Delivers (dev : Modem) (bytes p : List Byte) : Prop :=
  ∃ dev', dataRun dev bytes = .ok (dev', [etherHeader ++ p])

theorem delivers_frame {dev : Modem} (h : Packet dev) (hline : dev.line.bytes = []) (k : ℕ) {p : List Byte}
    (hp : p ≠ []) (hsize : p.length ≤ netMaxFrame - 14) :
    Delivers dev (List.replicate k slipEnd ++ (escapedAll p ++ [slipEnd])) p := by
  obtain ⟨dev₁, hends, hpacket, hempty⟩ := run_ends h hline k
  have hlength := (escapedAll_length p).2
  have hmost : (escapedAll p).length < serLineSize := by
    unfold netMaxFrame at hsize
    unfold serLineSize
    omega
  obtain ⟨dev₂, hopen, hpacket', hgathered⟩ := run_open hpacket (escapedAll_end p)
    (by rw [hempty, List.length_nil]; omega)
  rw [hempty, List.nil_append] at hgathered
  obtain ⟨dev₃, hend, -, -⟩ := byte_end hpacket' (by rw [hgathered]; exact hmost)
    (by rw [hgathered]; exact processTxPacket_packet hp)
  exact ⟨dev₃, run_append hends (run_append hopen (run_cons hend rfl))⟩

/-- So many bytes without an END that the line is full. -/
def Overlong (ws : List Byte) : Prop := ∃ run, run <:+: ws ∧ slipEnd ∉ run ∧ run.length = serLineSize

theorem Overlong.grow {ws : List Byte} (h : Overlong ws) (v : Byte) : Overlong (ws ++ [v]) := by
  obtain ⟨run, hin, hno, hlen⟩ := h
  exact ⟨run, hin.trans (List.prefix_append ws [v]).isInfix, hno, hlen⟩

def Gathered (ws line : List Byte) : Prop :=
  Overlong ws ∧ line.length = serLineSize ∨
    ¬ Overlong ws ∧ slipEnd ∉ line ∧ (ws = line ∨ ∃ pre, ws = pre ++ slipEnd :: line)

theorem gathered_short {ws line : List Byte} (hlong : ¬ Overlong ws) (hno : slipEnd ∉ line)
    (hws : ws = line ∨ ∃ pre, ws = pre ++ slipEnd :: line) (hfits : line.length ≤ serLineSize) :
    line.length < serLineSize := by
  apply Nat.lt_of_le_of_ne hfits
  intro hfull
  apply hlong
  refine ⟨line, ?_, hno, hfull⟩
  rcases hws with rfl | ⟨pre, rfl⟩
  · exact List.infix_refl ws
  · exact ((List.suffix_cons slipEnd line).trans (List.suffix_append pre _)).isInfix

theorem run_since {line run pre : List Byte} (hno : slipEnd ∉ run) (hsuffix : run <:+ pre ++ slipEnd :: line) :
    run <:+ line := by
  obtain ⟨front, hfront⟩ := hsuffix
  rcases Nat.lt_or_ge line.length run.length with hlt | hge
  · have hmem : slipEnd ∈ run := by
      have hline : slipEnd :: line <:+ pre ++ slipEnd :: line := List.suffix_append _ _
      have hrun : run <:+ pre ++ slipEnd :: line := ⟨front, hfront⟩
      have hinside : slipEnd :: line <:+ run := List.suffix_of_suffix_length_le hline hrun hlt
      exact hinside.subset List.mem_cons_self
    exact absurd hmem hno
  · have hline : line <:+ pre ++ slipEnd :: line := (List.suffix_cons slipEnd line).trans (List.suffix_append _ _)
    exact List.suffix_of_suffix_length_le ⟨front, hfront⟩ hline hge

theorem gathered_run {dev : Modem} (h : Packet dev) (hline : dev.line.bytes = []) (ws : List Byte) :
    ∃ dev' sent, dataRun dev ws = .ok (dev', sent) ∧ Packet dev' ∧ Gathered ws dev'.line.bytes := by
  induction ws using List.reverseRecOn with
  | nil =>
    refine ⟨dev, [], rfl, h, .inr ⟨?_, ?_, .inl ?_⟩⟩
    · rintro ⟨run, hin, -, hlen⟩
      rw [List.infix_nil.mp hin] at hlen
      cases hlen
    · rw [hline]
      exact List.not_mem_nil
    · exact hline.symm
  | append_singleton ws v ih =>
    obtain ⟨dev₁, sent, hrun, hpacket, hgathered⟩ := ih
    rcases hgathered with ⟨hlong, hfull⟩ | ⟨hlong, hno, hws⟩
    · refine ⟨counted dev₁ v, sent ++ [], run_append hrun (run_cons (byte_full hfull v) rfl), hpacket.counted v,
        .inl ?_⟩
      rw [(counted_rest dev₁ v).1]
      exact ⟨hlong.grow v, hfull⟩
    · have hroom := gathered_short hlong hno hws dev₁.line.fits
      -- a long run that is new ends in the new byte
      have hnew : Overlong (ws ++ [v]) → v ≠ slipEnd ∧ (dev₁.line.bytes ++ [v]).length = serLineSize := by
        rintro ⟨run, hin, hfree, hlen⟩
        rcases List.infix_concat_iff.mp hin with hsuffix | hold
        · have hv : v ≠ slipEnd := by
            intro heq
            apply hfree
            obtain ⟨last, hlast⟩ := List.suffix_concat_iff.mp hsuffix |>.resolve_left
              (fun hnil => by rw [hnil] at hlen; cases hlen)
            rw [hlast.1, heq]
            exact List.mem_append_right _ (List.mem_singleton_self _)
          refine ⟨hv, ?_⟩
          have hmost : run.length ≤ (dev₁.line.bytes ++ [v]).length := by
            rcases hws with heq | ⟨pre, heq⟩
            · rw [heq] at hsuffix
              exact hsuffix.length_le
            · rw [heq, List.append_assoc] at hsuffix
              exact (run_since hfree hsuffix).length_le
          rw [List.length_append, List.length_singleton] at hmost ⊢
          omega
        · exact absurd ⟨run, hold, hfree, hlen⟩ hlong
      by_cases hv : v = slipEnd
      · subst hv
        obtain ⟨out, hout⟩ := processTxPacket_inside dev₁.line.bytes
        obtain ⟨dev₂, hstep, hpacket', hempty⟩ := byte_end hpacket hroom hout
        refine ⟨dev₂, sent ++ (out ++ []), run_append hrun (run_cons hstep rfl), hpacket',
          .inr ⟨fun hlong' => (hnew hlong').1 rfl, ?_, .inr ⟨ws, ?_⟩⟩⟩
        · rw [hempty]
          exact List.not_mem_nil
        · rw [hempty]
      · obtain ⟨dev₂, hstep, hpacket', hline'⟩ := byte_open hpacket hroom hv
        refine ⟨dev₂, sent ++ ([] ++ []), run_append hrun (run_cons hstep rfl), hpacket', ?_⟩
        rw [hline']
        have hfree : slipEnd ∉ dev₁.line.bytes ++ [v] := by
          intro hmem
          rcases List.mem_append.mp hmem with hold | hlast
          · exact hno hold
          · exact hv (List.mem_singleton.mp hlast).symm
        have hsince : ws ++ [v] = dev₁.line.bytes ++ [v] ∨
            ∃ pre, ws ++ [v] = pre ++ slipEnd :: (dev₁.line.bytes ++ [v]) := by
          rcases hws with heq | ⟨pre, heq⟩
          · exact .inl (congrArg (· ++ [v]) heq)
          · refine .inr ⟨pre, ?_⟩
            rw [heq, List.append_assoc, List.cons_append]
        by_cases hfull : (dev₁.line.bytes ++ [v]).length = serLineSize
        · refine .inl ⟨⟨_, ?_, hfree, hfull⟩, hfull⟩
          rcases hsince with heq | ⟨pre, heq⟩
          · rw [heq]
          · rw [heq]
            exact ((List.suffix_cons slipEnd _).trans (List.suffix_append pre _)).isInfix
        · exact .inr ⟨fun hlong' => hfull (hnew hlong').2, hfree, hsince⟩

/-- As `fifo8_create` and the doublings leave it. -/
structure Sound (q : RxQueue) : Prop where
  power : ∃ k, 18 ≤ k ∧ k ≤ 31 ∧ q.capacity = 2 ^ k
  fits : q.fifo.num ≤ q.capacity
  asserted : q.fifo.asserted = true

/-- The largest capacity is short of room, and twice it is no 32-bit number. -/
def Wraps (q : RxQueue) (ioLen : ℕ) : Prop := q.capacity = 2 ^ 31 ∧ fifo8NumFree q / 2 ≤ ioLen

theorem newest_length {capacity : ℕ} (f : Fifo8 capacity) (n : ℕ) : (newest f n).length = n := by
  unfold newest
  rw [List.length_map, List.length_range]

theorem grow_room {ioLen fuel : ℕ} {q : RxQueue} (h : ioLen < fifo8NumFree q / 2) :
    grow ioLen (fuel + 1) q = .ok q := by
  unfold grow
  exact if_neg (Nat.not_le.mpr h)

theorem grow_frame {q : RxQueue} (h : Sound q) {ioLen : ℕ} (hsize : ioLen ≤ netMaxFrame) (hwraps : ¬ Wraps q ioLen) :
    ∃ q', grow ioLen 33 q = .ok q' ∧ q'.fifo.num = q.fifo.num ∧ q'.fifo.num ≤ q'.capacity ∧
      q'.fifo.asserted = true ∧ ioLen < fifo8NumFree q' / 2 := by
  obtain ⟨k, hk, hk', hcapacity⟩ := h.power
  have hfits := h.fits
  have hleast : 2 ^ 18 ≤ q.capacity := by
    rw [hcapacity]
    exact Nat.pow_le_pow_right (by decide) hk
  unfold netMaxFrame at hsize
  rcases Nat.lt_or_ge ioLen (fifo8NumFree q / 2) with hroom | hshort
  · exact ⟨q, grow_room hroom, rfl, hfits, h.asserted, hroom⟩
  · have hk30 : k ≤ 30 := by
      by_contra hlast
      have h31 : k = 31 := by omega
      exact hwraps ⟨by rw [hcapacity, h31], hshort⟩
    have hmost : q.capacity ≤ 2 ^ 30 := by
      rw [hcapacity]
      exact Nat.pow_le_pow_right (by decide) hk30
    have hdouble : q.capacity * 2 % 2 ^ 32 = q.capacity * 2 := Nat.mod_eq_of_lt (by omega)
    have hused : ¬ q.fifo.num = 0 := by
      intro hnone
      unfold fifo8NumFree at hshort
      omega
    have hresize : ∃ q', fifo8Resize2x q = .ok q' ∧ q'.capacity = q.capacity * 2 ∧ q'.fifo.num = q.fifo.num ∧
        q'.fifo.asserted = true := by
      unfold fifo8Resize2x
      dsimp only
      rw [hdouble, if_neg hused, if_neg (by omega)]
      refine ⟨_, rfl, rfl, ?_, ?_⟩
      · change 0 + (newest q.fifo q.fifo.num).length = _
        rw [newest_length, Nat.zero_add]
      · change (true && decide (0 + (newest q.fifo q.fifo.num).length ≤ q.capacity * 2) && q.fifo.asserted) = true
        rw [newest_length, h.asserted, decide_eq_true (by omega)]
        rfl
    obtain ⟨q', hq', hcap', hnum', hasserted'⟩ := hresize
    have hroom : ioLen < fifo8NumFree q' / 2 := by
      unfold fifo8NumFree
      omega
    refine ⟨q', ?_, hnum', by omega, hasserted', hroom⟩
    unfold grow
    rw [if_pos hshort, hq']
    exact grow_room hroom

theorem grow_wraps {q : RxQueue} {ioLen : ℕ} (hsize : ioLen ≤ netMaxFrame) (h : Wraps q ioLen) :
    grow ioLen 33 q = .error .overflow := by
  obtain ⟨hcapacity, hshort⟩ := h
  have hused : ¬ q.fifo.num = 0 := by
    intro hnone
    unfold fifo8NumFree at hshort
    unfold netMaxFrame at hsize
    rw [hnone, hcapacity] at hshort
    omega
  have hzero : q.capacity * 2 % 2 ^ 32 = 0 := by
    rw [hcapacity]
    rfl
  have hresize : fifo8Resize2x q = .error .overflow := by
    unfold fifo8Resize2x
    dsimp only
    rw [hzero, if_neg hused, if_pos (Nat.pos_of_ne_zero hused)]
  unfold grow
  rw [if_pos hshort, hresize]
  rfl

theorem queueByte_pushes {capacity : ℕ} (p : List Byte) (f : Fifo8 capacity) :
    p.foldl queueByte f = pushes f (escapedAll p) := by
  induction p generalizing f with
  | nil => rfl
  | cons b p ih =>
    have hone : queueByte f b = pushes f (escaped b) := by
      unfold queueByte escaped
      split_ifs <;> rfl
    rw [List.foldl_cons, ih, hone, escapedAll_cons]
    unfold pushes
    rw [List.foldl_append]

def ipFrame (macs p : List Byte) : List Byte := macs ++ [0x08, 0x00] ++ p

/-- What `modem_rx` queues for the packet, written back, is sent as the packet. -/
def RoundTrip (dev : Modem) (macs p : List Byte) : Prop :=
  ∃ dev' out, modemRx dev (ipFrame macs p) = .ok (dev', 1) ∧ dev'.rxData.fifo.asserted = true ∧
    dev'.rxData.fifo.num = dev.rxData.fifo.num + out.length ∧ newest dev'.rxData.fifo out.length = out ∧
    Delivers dev' out p

/-- After the bytes `ws` and an END, a frame with `k` more END in front of it is delivered. -/
def Resynchronises (dev : Modem) (ws : List Byte) (k : ℕ) (p : List Byte) : Prop :=
  ∃ dev' sent, dataRun dev (ws ++ [slipEnd]) = .ok (dev', sent) ∧
    Delivers dev' (List.replicate k slipEnd ++ (escapedAll p ++ [slipEnd])) p

theorem roundTrip_iff {dev : Modem} (h : Packet dev) (hline : dev.line.bytes = []) (hqueue : Sound dev.rxData)
    {macs p : List Byte} (hmacs : macs.length = 12) (hp : p ≠ []) (hsize : p.length ≤ netMaxFrame - 14) :
    RoundTrip dev macs p ↔ ¬ Wraps dev.rxData (p.length + 14) := by
  have hlength : (ipFrame macs p).length = p.length + 14 := by
    unfold ipFrame
    rw [List.length_append, List.length_append, hmacs]
    exact Nat.add_comm 14 p.length
  have hio : p.length + 14 ≤ netMaxFrame := by
    unfold netMaxFrame at hsize ⊢
    omega
  have hbody : (ipFrame macs p).drop 14 = p := by
    apply List.drop_left'
    rw [List.length_append, hmacs]
    rfl
  have htype : (ipFrame macs p).getD 12 0 = 0x08 ∧ (ipFrame macs p).getD 13 0 = 0x00 := by
    unfold ipFrame
    simp [List.getElem?_append, hmacs]
  constructor
  · rintro ⟨dev', out, hrx, -⟩ hwraps
    unfold modemRx at hrx
    rw [hlength, h.mode, h.connected, grow_wraps hio hwraps] at hrx
    cases hrx
  · intro hwraps
    obtain ⟨q, hgrow, hnum, hfits, hasserted, hroom⟩ := grow_frame hqueue hio hwraps
    have hslip : (slip p).length ≤ 2 * p.length + 2 := by
      unfold slip
      rw [List.length_cons, List.length_append, List.length_singleton]
      have hmost := (escapedAll_length p).2
      omega
    unfold fifo8NumFree at hroom
    have hsocket : ¬ dev.tcpIpMode = true := by
      rw [h.mode]
      exact (nomatch ·)
    have hoffline : ¬ dev.connected = false := by
      rw [h.connected]
      exact (nomatch ·)
    have hqueued : fifo8Push (p.foldl queueByte (fifo8Push q.fifo slipEnd)) slipEnd = pushes q.fifo (slip p) := by
      rw [queueByte_pushes, ← pushes_snoc]
      rfl
    refine ⟨{ dev with rxData := ⟨q.capacity, pushes q.fifo (slip p)⟩ }, slip p, ?_, ?_, ?_, ?_, ?_⟩
    · unfold modemRx
      rw [if_neg hsocket, if_neg hoffline, hlength, hgrow]
      change (if p.length + 14 < 14 then throw .overread
        else if ¬((ipFrame macs p).getD 12 0 = 0x08 ∧ (ipFrame macs p).getD 13 0 = 0x00) then
          (.ok ({ dev with rxData := q }, 0) : Except Fault (Modem × ℕ))
        else _) = _
      rw [if_neg (by omega), if_neg (not_not_intro htype), hbody, hqueued]
      rfl
    · change (pushes q.fifo (slip p)).asserted = true
      rw [pushes_asserted q.fifo (slip p) hfits, hasserted, decide_eq_true (by omega)]
      rfl
    · change (pushes q.fifo (slip p)).num = _
      rw [(pushes_cursors q.fifo (slip p)).2, hnum]
    · exact newest_pushes q.fifo (slip p) (by omega)
    · have hthere : Packet { dev with rxData := ⟨q.capacity, pushes q.fifo (slip p)⟩ } := ⟨h.connected, h.mode⟩
      exact delivers_frame hthere hline 1 hp hsize

theorem resynchronises_iff {dev : Modem} (h : Packet dev) (hline : dev.line.bytes = []) (ws : List Byte) (k : ℕ)
    {p : List Byte} (hp : p ≠ []) (hsize : p.length ≤ netMaxFrame - 14) :
    Resynchronises dev ws k p ↔ ¬ Overlong ws := by
  obtain ⟨dev₁, sent, hrun, hpacket, hgathered⟩ := gathered_run h hline ws
  rcases hgathered with ⟨hlong, hfull⟩ | ⟨hlong, hno, hws⟩
  · refine iff_of_false ?_ (not_not_intro hlong)
    rintro ⟨dev', out, hend, dev'', hframe⟩
    have hstays : (counted dev₁ slipEnd).line.bytes.length = serLineSize := by
      rw [(counted_rest dev₁ slipEnd).1]
      exact hfull
    rw [run_append hrun (run_cons (byte_full hfull slipEnd) rfl)] at hend
    obtain ⟨rfl, -⟩ := Prod.mk.inj (Except.ok.inj hend)
    obtain ⟨dev₂, hnothing, -⟩ := run_full (hpacket.counted slipEnd)
      (List.replicate k slipEnd ++ (escapedAll p ++ [slipEnd])) hstays
    rw [hnothing] at hframe
    cases (Prod.mk.inj (Except.ok.inj hframe)).2
  · refine iff_of_true ?_ hlong
    obtain ⟨out, hout⟩ := processTxPacket_inside dev₁.line.bytes
    obtain ⟨dev₂, hend, hpacket', hempty⟩ := byte_end hpacket (gathered_short hlong hno hws dev₁.line.fits) hout
    exact ⟨dev₂, _, run_append hrun (run_cons hend rfl), delivers_frame hpacket' hempty k hp hsize⟩

/-- Packet mode as it is entered: connected, nothing collected, and the network side as it was left. -/
structure Entered (dev : Modem) : Prop extends Packet dev where
  line : dev.line.bytes = []
  queue : Sound dev.rxData

/-- Framing is a round trip from any history of bytes exactly while the line was never filled without an END. -/
theorem slip_iff {dev : Modem} (h : Entered dev) {macs p : List Byte} (hmacs : macs.length = 12) (hp : p ≠ [])
    (hsize : p.length ≤ netMaxFrame - 14) (ws : List Byte) (k : ℕ) :
    (RoundTrip dev macs p ∧ Resynchronises dev ws k p ∧ ∀ bytes, ∃ r, dataRun dev bytes = .ok r) ↔
      ¬ Wraps dev.rxData (p.length + 14) ∧ ¬ Overlong ws := by
  rw [roundTrip_iff h.toPacket h.line h.queue hmacs hp hsize, resynchronises_iff h.toPacket h.line ws k hp hsize]
  constructor
  · rintro ⟨hwraps, hlong, -⟩
    exact ⟨hwraps, hlong⟩
  · rintro ⟨hwraps, hlong⟩
    exact ⟨hwraps, hlong, fun bytes => run_inside bytes dev⟩

/-- The modem after `modem_init`, once 0.0.0.0 has been dialled. -/
def slipModem : Modem :=
  { escapeChar := 0x2B, plusinc := 0, cmdpause := 0, connected := true, tcpIpMode := false, line := .empty
    rxData := ⟨0x40000, fifo8Create 0x40000⟩ }

theorem slipModem_entered : Entered slipModem :=
  ⟨⟨rfl, rfl⟩, rfl, ⟨18, Nat.le_refl 18, by decide, rfl⟩, Nat.zero_le _, rfl⟩

/-- A packet of the two special bytes, after a dangling ESC. -/
theorem slip_special :
    RoundTrip slipModem (List.replicate 12 0x00) [slipEnd, slipEsc] ∧
      Resynchronises slipModem [slipEsc] 0 [slipEnd, slipEsc] ∧ ∀ bytes, ∃ r, dataRun slipModem bytes = .ok r := by
  apply (slip_iff slipModem_entered rfl (by decide) (by decide) [slipEsc] 0).mpr
  constructor
  · rintro ⟨hcapacity, -⟩
    exact absurd hcapacity (by decide)
  · rintro ⟨run, hin, -, hlen⟩
    have hle := hin.length_le
    rw [hlen] at hle
    exact absurd hle (by decide)

/-- 65536 bytes without an END, then one: no frame after it gets through. -/
theorem slip_wedged :
    Entered slipModem ∧ ¬ Resynchronises slipModem (List.replicate serLineSize 0x00) 0 [0x45] := by
  refine ⟨slipModem_entered, fun hdelivered => ?_⟩
  have hlong : Overlong (List.replicate serLineSize 0x00) := by
    refine ⟨_, List.infix_rfl, fun hmem => ?_, List.length_replicate⟩
    exact absurd (List.eq_of_mem_replicate hmem) (by decide)
  have hshort := (resynchronises_iff slipModem_entered.toPacket rfl (List.replicate serLineSize 0x00) 0
    (List.cons_ne_nil _ _) (by decide)).mp hdelivered
  exact hshort hlong

end PeepeeBox.SlipFraming
