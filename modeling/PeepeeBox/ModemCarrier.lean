import PeepeeBox.JoinedLines
import PeepeeBox.ModemReceive

set_option autoImplicit false

/-!
# Carrier detect

The status lines of the modem against the call: when DCD is up under &C1, and what drops it.
-/
namespace PeepeeBox.ModemCarrier
open HaspRecord CString CharModem AtParser DataMode ModemSession ModemReceive JoinedLines

def charComCts : BitVec 32 := 0x10
def charComDsr : BitVec 32 := 0x20
def charComDcd : BitVec 32 := 0x80

def modemStatus (dev : Modem) : BitVec 32 :=
  charComCts |||
    (if dev.dsrMode = 0 ∨ dev.state ≠ .idle then charComDsr else 0) |||
    (if dev.dcdMode = 0 ∨ dev.state = .online then charComDcd else 0)

def Dcd (dev : Modem) : Prop := modemStatus dev &&& charComDcd ≠ 0

theorem dcd_iff (dev : Modem) : Dcd dev ↔ dev.dcdMode = 0 ∨ dev.state = .online := by
  unfold Dcd modemStatus
  split_ifs with hdsr hdcd hdcd
  · exact iff_of_true (by decide) hdcd
  · exact iff_of_false (by decide) hdcd
  · exact iff_of_true (by decide) hdcd
  · exact iff_of_false (by decide) hdcd

theorem dcd_online {dev : Modem} (hmode : dev.dcdMode ≠ 0) : Dcd dev ↔ dev.state = .online :=
  (dcd_iff dev).trans (or_iff_right hmode)

/-- The execution of the line comes to an H with the argument 0. -/
def Hangs (line : List Byte) : Prop :=
  ∃ c rest, Relation.ReflTransGen Next line (c :: rest) ∧ toupper c = ch 'H' ∧
    BitVec.ofNat 32 (argValue rest) = 0

theorem letter_hangup (host : Host) (dev : Modem) {c : Byte} (hc : toupper c = ch 'H') {rest : List Byte}
    (harg : BitVec.ofNat 32 (argValue rest) = 0) :
    modemLetter host dev (toupper c) (.inside rest) = .ok (.more (modemHangup dev) (.inside (argTail rest))) := by
  rw [hc]
  change (modemArg (.inside rest) >>= _) = _
  rw [modemArg_eq, harg]
  rfl

theorem letter_nul (host : Host) (dev : Modem) (p : Cursor) :
    modemLetter host dev (toupper 0) p = .ok (.finish dev (some .error)) := rfl

theorem Next.uniform {line tail : List Byte} (h : Next line tail) :
    ∃ (c : Byte) (rest : List Byte) (act : Modem → Modem), line = c :: rest ∧ c ≠ 0 ∧ ∀ host dev,
      modemLetter host dev (toupper c) (.inside rest) = .ok (.more (act dev) (.inside tail)) := by
  obtain ⟨c, rest, host, dev, dev', rfl, hletter⟩ := h
  obtain ⟨act, tail', hcommand⟩ := letter_command hletter
  have hreads : ∀ host dev,
      modemLetter host dev (toupper c) (.inside rest) = .ok (.more (act dev) (.inside tail')) :=
    fun host => (hcommand host).reads
  obtain ⟨-, htail⟩ := Turn.more.inj (Except.ok.inj (hletter.symm.trans (hreads host dev)))
  obtain rfl := Cursor.inside.inj htail
  refine ⟨c, rest, act, rfl, fun hc => ?_, hreads⟩
  rw [hc, letter_nul] at hletter
  cases hletter

theorem execute_turn {host : Host} {fuel : ℕ} {dev dev' dev₁ : Modem} {res : Option Res} {c : Byte}
    {rest tail : List Byte} (hc : c ≠ 0)
    (hletter : modemLetter host dev (toupper c) (.inside rest) = .ok (.more dev₁ (.inside tail)))
    (h : modemExecute host fuel dev (.inside (c :: rest)) = .ok (dev', res)) :
    ∃ fuel, modemExecute host fuel dev₁ (.inside tail) = .ok (dev', res) := by
  cases fuel with
  | zero => cases h
  | succ fuel =>
    change (if c = 0 then _ else modemLetter host dev (toupper c) (.inside rest) >>= _) = _ at h
    rw [if_neg hc, hletter] at h
    exact ⟨fuel, h⟩

theorem Hangs.execute {line : List Byte} (h : Hangs line) {host : Host} {fuel : ℕ} {dev dev' : Modem}
    {res : Option Res} (hrun : modemExecute host fuel dev (.inside line) = .ok (dev', res)) :
    dev'.state ≠ .online := by
  obtain ⟨c, rest, hturns, hc, harg⟩ := h
  induction hturns using Relation.ReflTransGen.head_induction_on generalizing fuel dev with
  | refl =>
    have hc0 : c ≠ 0 := by
      rintro rfl
      exact absurd hc (by decide)
    obtain ⟨fuel', hrest⟩ := execute_turn hc0 (letter_hangup host dev hc harg) hrun
    have hcalled := modemExecute_called host _ _ _ _ _ hrest
    exact fun honline => nomatch (hcalled.online honline : LineState.idle = .online)
  | head hnext _ ih =>
    obtain ⟨c', rest', act, rfl, hc', hletter⟩ := Next.uniform hnext
    obtain ⟨fuel', hrest⟩ := execute_turn hc' (hletter host dev) hrun
    exact ih hrest

def executed (dev : Modem) (val : Byte) : Option (List Byte) :=
  if dev.online ∨ val = dev.s 5 then none
  else if val = dev.s 3 then
    if 2 ≤ dev.cmd.length ∧ toupper (dev.cmd.getD 0 0) = ch 'A' ∧ toupper (dev.cmd.getD 1 0) = ch 'T' then
      some (dev.cmd.drop 2)
    else none
  else if val = dev.s 4 then none
  else if dev.cmd.length = 1 ∧ val = ch '/' ∧ toupper (dev.cmd.getD 0 0) = ch 'A' then some dev.lastcmd
  else none

theorem command_hangs {host : Host} {dev dev' : Modem} {line : List Byte} (h : Hangs (cstr line))
    (hrun : modemCommand host dev line = .ok dev') : dev'.state ≠ .online := by
  unfold modemCommand at hrun
  dsimp only at hrun
  cases hexec : modemExecute host ((cstr line).length + 1)
      { dev with lastcmd := (cstr line).take (modemCmdSize - 1) } (.inside (cstr line)) with
  | error fault =>
    rw [hexec] at hrun
    cases hrun
  | ok done =>
    rw [hexec, ok_bind] at hrun
    obtain rfl := Except.ok.inj hrun
    have hstate := h.execute hexec
    rw [modemResult_eq]
    exact hstate

theorem write_hangs {host : Host} {dev dev' : Modem} {val : Byte} {sent line : List Byte}
    (hline : executed dev val = some line) (h : Hangs (cstr line))
    (hrun : modemWrite host dev val = .ok (dev', sent)) : dev'.state ≠ .online := by
  unfold executed at hline
  by_cases hnone : dev.online ∨ val = dev.s 5
  · rw [if_pos hnone] at hline
    cases hline
  · obtain ⟨honline, hback⟩ := not_or.mp hnone
    rw [if_neg hnone] at hline
    unfold modemWrite at hrun
    rw [if_neg honline] at hrun
    cases hbyte : modemCommandByte host dev val with
    | error fault =>
      rw [hbyte] at hrun
      cases hrun
    | ok dev₁ =>
      rw [hbyte] at hrun
      obtain ⟨rfl, -⟩ := Prod.mk.inj (Except.ok.inj hrun)
      unfold modemCommandByte at hbyte
      rw [if_neg hback, echoed_eq] at hbyte
      dsimp only at hbyte
      by_cases hcr : val = dev.s 3
      · rw [if_pos hcr] at hline hbyte
        split at hline
        · next hat =>
          obtain rfl := Option.some.inj hline
          unfold modemReturn at hbyte
          dsimp only at hbyte
          rw [if_pos hat.1, if_pos hat.2] at hbyte
          cases hcommand : modemCommand host { dev with out := ring dev.out (echoed dev val) } (dev.cmd.drop 2) with
          | error fault =>
            rw [hcommand] at hbyte
            cases hbyte
          | ok dev₂ =>
            rw [hcommand] at hbyte
            obtain rfl := Except.ok.inj hbyte
            have hstate := command_hangs h hcommand
            exact hstate
        · cases hline
      · rw [if_neg hcr] at hline hbyte
        split at hline
        · cases hline
        · next hlf =>
          rw [if_neg hlf] at hbyte
          split at hline
          · next hslash =>
            obtain rfl := Option.some.inj hline
            rw [if_pos hslash] at hbyte
            exact command_hangs h hbyte
          · cases hline

theorem receive_closed {dev : Modem} (honline : dev.online = true) (hsock : dev.sock = true)
    (hroom : dev.out.length < modemOutSize - 1) {received : Received}
    (hclosed : received = .closed ∨ received = .bytes []) : (modemReceive received dev).state = .idle := by
  have hsize : min (modemOutSize - 1 - dev.out.length) 256 ≠ 0 := by omega
  unfold modemReceive
  rw [if_pos ⟨honline, hsock⟩]
  dsimp only
  rw [if_neg hsize]
  rcases hclosed with rfl | rfl <;> exact modemResult_eq (modemHangup dev) _ ▸ rfl

theorem control_drop {dev : Modem} (hdtr : dev.dtr = true) (hmode : dev.dtrMode = 2 ∨ dev.dtrMode = 3) :
    (modemControl false dev).state = .idle := by
  unfold modemControl
  dsimp only
  rw [hdtr, if_neg (by decide)]
  rcases hmode with hmode | hmode
  · rw [hmode, if_neg (by decide), if_pos rfl]
    split
    · exact modemResult_eq (modemHangup _) _ ▸ rfl
    · next hidle => exact not_not.mp hidle
  · rw [hmode, if_neg (by decide), if_neg (by decide), if_pos rfl]
    rfl

/-- The event ends the call: a read that comes to the socket in data mode, with room in the ring, and
    finds it closed; a byte that has a line executed which hangs up; or a drop of DTR under &D2 or
    &D3. -/
def Ends (s : Terminal) : Event → Prop
  | .read elapsed connected received _ =>
    let host := hostAt (s.now + elapsed) false connected
    let dev := modemSilence host.now (modemPollLine host s.dev)
    dev.online = true ∧ dev.out.length < modemOutSize - 1 ∧ (received = .closed ∨ received = .bytes [])
  | .write _ _ _ val => ∃ line, executed s.dev val = some line ∧ Hangs (cstr line)
  | .control dtr => s.dev.dtr = true ∧ dtr = false ∧ (s.dev.dtrMode = 2 ∨ s.dev.dtrMode = 3)

theorem step_ends {s s' : Terminal} {e : Event} (h : Sound s) (hstep : s.step e = .ok s') (hends : Ends s e) :
    s'.dev.state ≠ .online := by
  cases e with
  | write elapsed connects connected val =>
    obtain ⟨dev, sent, hrun, rfl⟩ := step_write hstep
    obtain ⟨line, hline, hhangs⟩ := hends
    exact write_hangs hline hhangs hrun
  | read elapsed connected received len =>
    rw [step_read] at hstep
    obtain rfl := Except.ok.inj hstep
    obtain ⟨honline, hroom, hclosed⟩ := hends
    have hcarrier := (h.carrier.pollLine (hostAt (s.now + elapsed) false connected)).silence
      (hostAt (s.now + elapsed) false connected).now
    have hidle := receive_closed honline (hcarrier.sock (Or.inr (Or.inr (hcarrier.online honline)))) hroom hclosed
    change (polled s elapsed connected received).dev.state ≠ .online
    rw [polled_dev]
    exact fun hup => nomatch hidle.symm.trans hup
  | control dtr =>
    obtain rfl := Except.ok.inj hstep
    obtain ⟨hdtr, rfl, hmode⟩ := hends
    exact fun hup => nomatch (control_drop hdtr hmode).symm.trans hup

/-- ATQ1: the carrier comes without a CONNECT. -/
def quietCall : List Event :=
  (ascii "ATQ1D1\r").map (.write 0 true 1) ++
    [.read 5000 1 .wouldblock 4096, .read 9000 1 .wouldblock 4096, .read 1000 1 .wouldblock 4096]

/-- The call is escaped from, and its far end closes it. -/
def escapedCall : List Event :=
  callIn ++ [.read 5000 1 .wouldblock 4096] ++ (ascii "+++").map (.write 0 true 1) ++
    [.read 5000 1 .wouldblock 4096, .read 1000 1 .closed 4096]

def after (events : List Event) : Terminal :=
  ((Terminal.start dialUp 0).run events).toOption.getD (.start dialUp 0)

theorem after_runs {events : List Event} {s : Terminal} (h : (Terminal.start dialUp 0).run events = .ok s) :
    Runs events s :=
  ⟨modemModelSupra, .tcp, 57600, ascii "localhost", [], [], 0, h⟩

set_option maxRecDepth 4000 in
/-- Carrier detect under &C1 without any CONNECT in the ring's history, and after a read that found the far
    end gone. -/
theorem quiet_carrier :
    (Runs quietCall (after quietCall) ∧ (after quietCall).dev.dcdMode = 1 ∧ Dcd (after quietCall).dev ∧
      ∀ e ∈ (after quietCall).stream, e.1 = .other) ∧
    (Runs escapedCall (after escapedCall) ∧ (after escapedCall).dev.dcdMode = 1 ∧
      Dcd (after escapedCall).dev ∧ escapedCall.getLast? = some (.read 1000 1 .closed 4096)) := by
  have hquiet : modemStatus (after quietCall).dev = 0xB0 := rfl
  have hescaped : modemStatus (after escapedCall).dev = 0xB0 := rfl
  refine ⟨⟨after_runs rfl, rfl, ?_, ?_⟩, after_runs rfl, rfl, ?_, rfl⟩
  · unfold Dcd
    rw [hquiet]
    decide
  · decide +kernel
  · unfold Dcd
    rw [hescaped]
    decide

/-- Under &C1, in every session: carrier detect means an open socket, that the CONNECT of the call has been
    queued and none of it is left in the ring, and that the carrier delay since has passed; and it is
    down after every event that ends the call. -/
theorem carrier_sequence (events : List Event) (s : Terminal) (h : Runs events s) :
    (s.dev.dcdMode ≠ 0 → Dcd s.dev →
      s.dev.sock = true ∧
        ∃ d, s.Queued d ∧ d.time + 100 ≤ s.now ∧ ∀ e ∈ s.queue, e.1 ≠ .connect s.call) ∧
    ∀ e s', s.step e = .ok s' → Ends s e → s'.dev.dcdMode ≠ 0 → ¬ Dcd s'.dev := by
  have hsound := h.sound
  constructor
  · intro hmode hdcd
    have hstate := (dcd_online hmode).mp hdcd
    exact ⟨hsound.carrier.sock (Or.inr (Or.inr hstate)), hsound.online hstate⟩
  · intro e s' hstep hends hmode hdcd
    exact step_ends hsound hstep hends ((dcd_online hmode).mp hdcd)

/-- The far end closes the call while the DTE reads. -/
theorem carrier_sequence_call :
    calledIn.dev.sock = true ∧ ¬ Dcd (((polled calledIn 10 1 .closed).drain 4096).dev) := by
  have hruns : Runs callIn calledIn := after_runs rfl
  obtain ⟨hup, hdown⟩ := carrier_sequence callIn calledIn hruns
  have hdcd : Dcd calledIn.dev := (dcd_iff calledIn.dev).mpr (Or.inr rfl)
  refine ⟨(hup (by decide +kernel) hdcd).1, ?_⟩
  apply hdown (.read 10 1 .closed 4096) _ rfl
  · exact ⟨rfl, by decide +kernel, Or.inl rfl⟩
  · decide +kernel

end PeepeeBox.ModemCarrier
