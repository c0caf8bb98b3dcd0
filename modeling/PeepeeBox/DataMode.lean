import Mathlib.Data.List.Induction
import PeepeeBox.AtParser

set_option autoImplicit false

/-!
# The modem's data mode

Runs of the modem between writes of the DTE, reads of the serial port and its DTR line; what a
stretch of data mode hands to the socket; and when three escape characters end it.
-/
namespace PeepeeBox.DataMode
open HaspRecord CString CharModem AtParser

inductive Input where
  | write (host : Host) (val : Byte)
  | read (host : Host) (received : Received) (len : ℕ)
  | control (dtr : Bool)

def modemStep (dev : Modem) : Input → Except Fault (Modem × List Byte)
  | .write host val => modemWrite host dev val
  | .read host received len => .ok ((modemRead host received len dev).1, [])
  | .control dtr => .ok (modemControl dtr dev, [])

def modemRun : Modem → List Input → Except Fault (Modem × List Byte)
  | dev, [] => .ok (dev, [])
  | dev, i :: is => do
    let (dev, sent) ← modemStep dev i
    let (dev, rest) ← modemRun dev is
    return (dev, sent ++ rest)

/-- A state of some run from power-on. -/
def Reachable (dev : Modem) : Prop :=
  ∃ model line connectRate host ident firmware is sent,
    modemRun (modemInit model line connectRate host ident firmware) is = .ok (dev, sent)

structure Carrier (dev : Modem) : Prop where
  online : dev.online = true → dev.state = .online
  sock : dev.state = .connecting ∨ dev.state = .answering ∨ dev.state = .online → dev.sock = true
  held : dev.pluses ≤ 3

theorem Carrier.of_idle {dev : Modem} (honline : dev.online = false) (hstate : dev.state = .idle)
    (hheld : dev.pluses ≤ 3) : Carrier dev := by
  refine ⟨fun h => absurd h (by rw [honline]; decide), fun h => ?_, hheld⟩
  rw [hstate] at h
  rcases h with h | h | h <;> cases h

theorem Carrier.out {dev : Modem} (h : Carrier dev) (out : List Byte) :
    Carrier { dev with out := out } := ⟨h.online, h.sock, h.held⟩

theorem Carrier.hangup {dev : Modem} : Carrier (modemHangup dev) :=
  Carrier.of_idle rfl rfl (Nat.zero_le 3)

theorem Carrier.result {dev : Modem} (h : Carrier dev) (res : Option Res) :
    Carrier (modemResult dev res) := by
  rw [modemResult_eq]
  exact h.out _

theorem Carrier.dial {dev : Modem} (h : Carrier dev) (host : Host) (number : List Byte)
    (hidle : dev.state = .idle) : Carrier (modemDial host dev number) := by
  have hoff : dev.online ≠ true := by
    intro honline
    have := h.online honline
    rw [hidle] at this
    cases this
  unfold modemDial
  dsimp only
  split
  · split
    · exact ⟨fun honline => absurd honline hoff, fun _ => rfl, h.held⟩
    · refine ⟨fun honline => absurd honline hoff, fun hstate => ?_, h.held⟩
      rcases hstate with hstate | hstate | hstate <;> cases hstate
  · refine ⟨fun honline => absurd honline hoff, fun hstate => ?_, h.held⟩
    rcases hstate with hstate | hstate | hstate <;> cases hstate

theorem Carrier.effects {dev dev' : Modem} (h : Carrier dev) (hrun : Effects dev dev') :
    Carrier dev' := by
  induction hrun with
  | refl => exact h
  | tail _ heffect ih =>
    cases heffect with
    | settle _ hs =>
      refine ⟨fun honline => ?_, fun hstate => ?_, hs.pluses ▸ ih.held⟩
      · exact hs.state.trans (ih.online (hs.online ▸ honline))
      · rw [hs.state] at hstate
        exact hs.sock.trans (ih.sock hstate)
    | hangup => exact Carrier.hangup
    | info text _ =>
      rw [modemOutLine_eq]
      exact ih.out _

theorem Carrier.ends {host : Host} {dev dev' : Modem} {res : Option Res} (h : Carrier dev)
    (hends : Ends host dev dev' res) : Carrier dev' := by
  cases hends with
  | report _ _ => exact h
  | dial number hidle => exact h.dial host number hidle
  | data honline => exact ⟨fun _ => honline, h.sock, h.held⟩

theorem Carrier.command {host : Host} {dev : Modem} {line : List Byte} (h : Carrier dev)
    (dev' : Modem) (hrun : modemCommand host dev line = .ok dev') : Carrier dev' := by
  have hstart : Carrier { dev with lastcmd := (cstr line).take (modemCmdSize - 1) } :=
    ⟨h.online, h.sock, h.held⟩
  unfold modemCommand at hrun
  dsimp only at hrun
  rcases modemExecute_ends host ((cstr line).length + 1)
    { dev with lastcmd := (cstr line).take (modemCmdSize - 1) } (cstr line) (Nat.lt_succ_self _)
    with ⟨dev₁, dev₂, res, hexec, heffects, hends⟩ | ⟨i, -, hexec, -⟩
  · rw [hexec, ok_bind] at hrun
    obtain rfl := Except.ok.inj hrun
    exact ((hstart.effects heffects).ends hends).result res
  · rw [hexec] at hrun
    cases hrun

theorem Carrier.return {host : Host} {dev : Modem} (h : Carrier dev) (dev' : Modem)
    (hrun : modemReturn host dev = .ok dev') : Carrier dev' := by
  unfold modemReturn at hrun
  dsimp only at hrun
  generalize hreported : (if 2 ≤ dev.cmd.length then _ else _ : Except Fault Modem) = reported
    at hrun
  cases reported with
  | error fault => cases hrun
  | ok dev₁ =>
    obtain rfl := Except.ok.inj hrun
    have hfirst : Carrier dev₁ := by
      split at hreported
      · split at hreported
        · exact h.command dev₁ hreported
        · exact Except.ok.inj hreported ▸ h.result _
      · split at hreported
        · exact Except.ok.inj hreported ▸ h.result _
        · exact Except.ok.inj hreported ▸ h
    exact ⟨hfirst.online, hfirst.sock, hfirst.held⟩

theorem Carrier.commandByte {host : Host} {dev : Modem} {val : Byte} (h : Carrier dev)
    (dev' : Modem) (hrun : modemCommandByte host dev val = .ok dev') : Carrier dev' := by
  have hcmd : ∀ out cmd, Carrier { dev with out := out, cmd := cmd } :=
    fun _ _ => ⟨h.online, h.sock, h.held⟩
  unfold modemCommandByte at hrun
  rw [echoed_eq] at hrun
  dsimp only at hrun
  split at hrun
  · split at hrun
    · exact Except.ok.inj hrun ▸ h
    · obtain rfl := Except.ok.inj hrun
      split
      · rw [modemOutStr_eq]
        exact hcmd _ _
      · exact hcmd _ _
  · split at hrun
    · exact (h.out (ring dev.out (echoed dev val))).return dev' hrun
    · split at hrun
      · exact Except.ok.inj hrun ▸ h.out _
      · split at hrun
        · exact (hcmd (ring dev.out (echoed dev val)) []).command dev' hrun
        · split at hrun
          · exact Except.ok.inj hrun ▸ hcmd _ _
          · exact Except.ok.inj hrun ▸ h.out _

theorem Carrier.pollLine {dev : Modem} (h : Carrier dev) (host : Host) :
    Carrier (modemPollLine host dev) := by
  unfold modemPollLine
  cases hstate : dev.state with
  | idle => exact h
  | online => exact h
  | dialing =>
    dsimp only
    split
    · exact h
    · exact Carrier.hangup.result _
  | connecting =>
    have hsock : dev.sock = true := h.sock (Or.inl hstate)
    have hoff : dev.online ≠ true := by
      intro honline
      have := h.online honline
      rw [hstate] at this
      cases this
    have hwait : Carrier (modemRefused host.now dev) := by
      unfold modemRefused
      split
      · exact h
      · exact ⟨h.online, h.sock, h.held⟩
    dsimp only
    generalize (if dev.refused then (-1 : ℤ) else host.connected) = connected
    split
    · split
      · exact ⟨fun honline => absurd honline hoff, fun _ => hsock, h.held⟩
      · exact h
    · split
      · split
        · exact Carrier.hangup.result _
        · exact hwait
      · split
        · exact Carrier.hangup.result _
        · exact h
  | answering =>
    have hsock : dev.sock = true := h.sock (Or.inr (Or.inl hstate))
    dsimp only
    split
    · exact h
    · split
      · have hresult := h.result (some .connect)
        exact ⟨hresult.online, hresult.sock, hresult.held⟩
      · split
        · exact ⟨fun _ => rfl, fun _ => hsock, h.held⟩
        · exact h

theorem Carrier.silence {dev : Modem} (h : Carrier dev) (now : BitVec 32) :
    Carrier (modemSilence now dev) := by
  have hoff : Carrier { dev with pluses := 0, online := false } :=
    ⟨fun honline => absurd honline Bool.false_ne_true, h.sock, Nat.zero_le 3⟩
  unfold modemSilence
  split
  · exact hoff.result _
  · exact h

theorem Carrier.receive {dev : Modem} (h : Carrier dev) (received : Received) :
    Carrier (modemReceive received dev) := by
  unfold modemReceive
  dsimp only
  split
  · split
    · exact h
    · split
      · rw [modemOutStr_eq]
        exact h.out _
      · exact h
      · exact Carrier.hangup.result _
  · exact h

theorem Carrier.dataByte {dev : Modem} (h : Carrier dev) (now : BitVec 32) (val : Byte) :
    Carrier (modemDataByte now dev val).1 := by
  have hpass : ∀ dev₁ : Modem, Carrier { dev₁ with pluses := 0 } →
      Carrier (modemPass now dev₁ val).1 := fun _ h₁ => ⟨h₁.online, h₁.sock, h₁.held⟩
  have hzero : Carrier { dev with pluses := 0 } := ⟨h.online, h.sock, Nat.zero_le 3⟩
  unfold modemDataByte
  split
  · dsimp only
    split
    · rename_i hheld
      exact ⟨h.online, h.sock, hheld⟩
    · exact hpass _ ⟨hzero.online, hzero.sock, hzero.held⟩
  · exact hpass _ hzero

theorem Carrier.control {dev : Modem} (h : Carrier dev) (dtr : Bool) :
    Carrier (modemControl dtr dev) := by
  unfold modemControl
  dsimp only
  split
  · exact ⟨h.online, h.sock, h.held⟩
  · split
    · exact ⟨fun honline => absurd honline Bool.false_ne_true, h.sock, h.held⟩
    · split
      · split
        · exact Carrier.hangup.result _
        · exact ⟨h.online, h.sock, h.held⟩
      · split
        · exact Carrier.of_idle rfl rfl (Nat.zero_le 3)
        · exact ⟨h.online, h.sock, h.held⟩

theorem Carrier.step {dev dev' : Modem} {i : Input} {sent : List Byte} (h : Carrier dev)
    (hstep : modemStep dev i = .ok (dev', sent)) : Carrier dev' := by
  cases i with
  | write host val =>
    change modemWrite host dev val = _ at hstep
    unfold modemWrite at hstep
    split at hstep
    · have hdata := h.dataByte host.now val
      rw [Except.ok.inj hstep] at hdata
      exact hdata
    · cases hrun : modemCommandByte host dev val with
      | error fault =>
        rw [hrun] at hstep
        cases hstep
      | ok dev₁ =>
        rw [hrun] at hstep
        obtain ⟨rfl, -⟩ := Prod.mk.inj (Except.ok.inj hstep)
        exact h.commandByte dev₁ hrun
  | read host received len =>
    obtain ⟨rfl, -⟩ := Prod.mk.inj (Except.ok.inj hstep)
    exact (((h.pollLine host).silence host.now).receive received).out _
  | control dtr =>
    obtain ⟨rfl, -⟩ := Prod.mk.inj (Except.ok.inj hstep)
    exact h.control dtr

theorem run_cons {dev dev₂ : Modem} {i : Input} {is : List Input} {sent : List Byte}
    (h : modemRun dev (i :: is) = .ok (dev₂, sent)) :
    ∃ dev₁ first rest, modemStep dev i = .ok (dev₁, first) ∧
      modemRun dev₁ is = .ok (dev₂, rest) ∧ sent = first ++ rest := by
  unfold modemRun at h
  cases hstep : modemStep dev i with
  | error fault =>
    rw [hstep] at h
    cases h
  | ok r =>
    obtain ⟨dev₁, first⟩ := r
    rw [hstep, ok_bind] at h
    dsimp only at h
    cases hrest : modemRun dev₁ is with
    | error fault =>
      rw [hrest] at h
      cases h
    | ok r =>
      obtain ⟨dev₃, rest⟩ := r
      rw [hrest, ok_bind] at h
      obtain ⟨rfl, rfl⟩ := Prod.mk.inj (Except.ok.inj h)
      exact ⟨dev₁, first, rest, rfl, hrest, rfl⟩

theorem Carrier.run {dev dev' : Modem} {is : List Input} {sent : List Byte} (h : Carrier dev)
    (hrun : modemRun dev is = .ok (dev', sent)) : Carrier dev' := by
  induction is generalizing dev sent with
  | nil =>
    obtain ⟨rfl, -⟩ := Prod.mk.inj (Except.ok.inj hrun)
    exact h
  | cons i is ih =>
    obtain ⟨dev₁, first, rest, hstep, hrest, -⟩ := run_cons hrun
    exact ih (h.step hstep) hrest

theorem Reachable.carrier {dev : Modem} (h : Reachable dev) : Carrier dev := by
  obtain ⟨model, line, connectRate, host, ident, firmware, is, sent, hrun⟩ := h
  exact (Carrier.of_idle rfl rfl (Nat.zero_le 3)).run hrun

/-- A run whose every step is taken on line and satisfies `P`. -/
inductive Session (P : Modem → Input → Prop) (dev : Modem) : List Input → List Byte → Modem → Prop
  | start : Session P dev [] [] dev
  | step (is : List Input) (sent : List Byte) (dev₁ : Modem) (i : Input) (more : List Byte)
      (dev₂ : Modem) (before : Session P dev is sent dev₁) (online : dev₁.online = true)
      (spared : P dev₁ i) (run : modemStep dev₁ i = .ok (dev₂, more)) :
    Session P dev (is ++ [i]) (sent ++ more) dev₂

/-- What the DTE writes, and when. -/
def written (is : List Input) : List (BitVec 32 × Byte) :=
  is.filterMap fun i =>
    match i with
    | .write host val => some (host.now, val)
    | _ => none

def fourth (dev : Modem) : Input → Prop
  | .write _ val => val = dev.s 2 ∧ 3 ≤ dev.pluses
  | _ => False

theorem written_snoc (is : List Input) (i : Input) : written (is ++ [i]) = written is ++ written [i] :=
  List.filterMap_append

structure Run where
  held : ℕ
  last : BitVec 32
  finished : Bool
deriving DecidableEq

def Run.next (esc : Byte) (guard : BitVec 32) (r : Run) (w : BitVec 32 × Byte) : Run :=
  if w.2 = esc ∧ (0 < r.held ∨ guard ≤ w.1 - r.last) then
    if r.held < 3 then { r with held := r.held + 1, last := w.1 }
    else { held := 0, last := w.1, finished := true }
  else { r with held := 0, last := w.1 }

/-- The state of the detector after a history that begins with nothing held. -/
def Run.after (esc : Byte) (guard : BitVec 32) (start : BitVec 32) (h : List (BitVec 32 × Byte)) :
    Run :=
  h.foldl (Run.next esc guard) { held := 0, last := start, finished := false }

def lastTime (start : BitVec 32) (h : List (BitVec 32 × Byte)) : BitVec 32 :=
  (h.getLast?.map Prod.fst).getD start

section Detector

variable {esc : Byte} {guard start : BitVec 32}

theorem Run.after_snoc (h : List (BitVec 32 × Byte)) (w : BitVec 32 × Byte) :
    Run.after esc guard start (h ++ [w]) = (Run.after esc guard start h).next esc guard w := by
  unfold Run.after
  rw [List.foldl_append]
  rfl

theorem Run.next_last (r : Run) (w : BitVec 32 × Byte) : (r.next esc guard w).last = w.1 := by
  unfold Run.next
  split
  · split <;> rfl
  · rfl

variable (esc guard start) in
theorem Run.after_last (h : List (BitVec 32 × Byte)) :
    (Run.after esc guard start h).last = lastTime start h := by
  induction h using List.reverseRecOn with
  | nil => rfl
  | append_singleton h w _ =>
    rw [Run.after_snoc, Run.next_last]
    unfold lastTime
    rw [List.getLast?_append_of_ne_nil _ (List.cons_ne_nil w [])]
    rfl

theorem Run.finished_of_next {r : Run} {w : BitVec 32 × Byte} (h : (r.next esc guard w).finished = false) :
    r.finished = false := by
  unfold Run.next at h
  split at h
  · split at h
    · exact h
    · cases h
  · exact h

variable (esc guard start) in
theorem Run.after_held (h : List (BitVec 32 × Byte)) :
    ∃ pre run, h = pre ++ run ∧ run.length = (Run.after esc guard start h).held ∧
      (∀ w ∈ run, w.2 = esc) ∧ (∀ w ∈ run.head?, guard ≤ w.1 - lastTime start pre) := by
  induction h using List.reverseRecOn with
  | nil => exact ⟨[], [], rfl, rfl, by simp, by simp⟩
  | append_singleton h w ih =>
    obtain ⟨pre, run, hsplit, hlength, hesc, hguard⟩ := ih
    have hnone : ∀ r : Run, r.held = 0 → ∃ pre' run', h ++ [w] = pre' ++ run' ∧
        run'.length = r.held ∧ (∀ w ∈ run', w.2 = esc) ∧
        (∀ w ∈ run'.head?, guard ≤ w.1 - lastTime start pre') := by
      intro r hr
      refine ⟨h ++ [w], [], (List.append_nil _).symm, hr.symm, ?_, ?_⟩
      · intro v hv
        cases hv
      · intro v hv
        cases hv
    rw [Run.after_snoc]
    unfold Run.next
    split
    · rename_i hescape
      split
      · refine ⟨pre, run ++ [w], ?_, ?_, ?_, ?_⟩
        · rw [hsplit, List.append_assoc]
        · rw [List.length_append, hlength]
          rfl
        · intro v hv
          rcases List.mem_append.mp hv with hold | hnew
          · exact hesc v hold
          · rw [List.mem_singleton.mp hnew]
            exact hescape.1
        · intro v hv
          cases run with
          | nil =>
            have hzero : (Run.after esc guard start h).held = 0 := hlength.symm
            have hpre : h = pre := hsplit.trans (List.append_nil pre)
            obtain rfl := Option.mem_some_iff.mp hv
            rw [← hpre, ← Run.after_last esc guard start]
            rcases hescape.2 with hpos | hgap
            · omega
            · exact hgap
          | cons first run =>
            exact hguard v hv
      · exact hnone _ rfl
    · exact hnone _ rfl

theorem Run.after_three (pre : List (BitVec 32 × Byte)) (t₁ t₂ t₃ : BitVec 32)
    (hguard : guard ≤ t₁ - lastTime start pre)
    (hover : (Run.after esc guard start (pre ++ [(t₁, esc), (t₂, esc), (t₃, esc)])).finished = false) :
    (Run.after esc guard start (pre ++ [(t₁, esc), (t₂, esc), (t₃, esc)])).held = 3 := by
  have hsplit : pre ++ [(t₁, esc), (t₂, esc), (t₃, esc)] =
      ((pre ++ [(t₁, esc)]) ++ [(t₂, esc)]) ++ [(t₃, esc)] := by simp
  have hgrow : ∀ (r : Run) (t : BitVec 32), (0 < r.held ∨ guard ≤ t - r.last) →
      (r.next esc guard (t, esc)).finished = false →
      r.held < 3 ∧ (r.next esc guard (t, esc)).held = r.held + 1 := by
    intro r t hopen hfalse
    unfold Run.next at hfalse ⊢
    rw [if_pos ⟨rfl, hopen⟩] at hfalse ⊢
    by_cases hlt : r.held < 3
    · rw [if_pos hlt]
      exact ⟨hlt, rfl⟩
    · rw [if_neg hlt] at hfalse
      cases hfalse
  rw [hsplit, Run.after_snoc, Run.after_snoc, Run.after_snoc] at hover ⊢
  have hover₂ := Run.finished_of_next hover
  have hover₁ := Run.finished_of_next hover₂
  rw [← Run.after_last esc guard start] at hguard
  obtain ⟨-, h₁⟩ := hgrow _ t₁ (Or.inr hguard) hover₁
  obtain ⟨-, h₂⟩ := hgrow _ t₂ (Or.inl (by omega)) hover₂
  obtain ⟨hlt, h₃⟩ := hgrow _ t₃ (Or.inl (by omega)) hover
  omega

end Detector

structure Untouched (dev dev' : Modem) : Prop where
  s : dev'.s = dev.s
  pluses : dev'.pluses = dev.pluses
  lastData : dev'.lastData = dev.lastData

theorem Untouched.result {dev : Modem} (res : Option Res) : Untouched dev (modemResult dev res) := by
  rw [modemResult_eq]
  exact ⟨rfl, rfl, rfl⟩

theorem modemPollLine_online {dev : Modem} (host : Host) (h : dev.state = .online) :
    modemPollLine host dev = dev := by
  unfold modemPollLine
  rw [h]

theorem silence_off (now : BitVec 32) (dev : Modem) (honline : dev.online = true)
    (hsilent : 3 ≤ dev.pluses ∧ guardTime dev ≤ now - dev.lastData) :
    (modemSilence now dev).online = false ∧ (modemSilence now dev).sock = dev.sock := by
  unfold modemSilence
  rw [if_pos ⟨honline, hsilent⟩, modemResult_eq]
  exact ⟨rfl, rfl⟩

theorem receive_offline (received : Received) (dev : Modem) (h : dev.online = false) :
    modemReceive received dev = dev := by
  have hoff : ¬ (dev.online = true ∧ dev.sock = true) := fun hon => by
    rw [h] at hon
    cases hon.1
  unfold modemReceive
  rw [if_neg hoff]

theorem receive_untouched (received : Received) (dev : Modem) :
    (modemReceive received dev).online = true →
      Untouched dev (modemReceive received dev) ∧ dev.online = true := by
  unfold modemReceive
  dsimp only
  split
  · split
    · exact fun h => ⟨⟨rfl, rfl, rfl⟩, h⟩
    · split
      · rw [modemOutStr_eq]
        exact fun h => ⟨⟨rfl, rfl, rfl⟩, h⟩
      · exact fun h => ⟨⟨rfl, rfl, rfl⟩, h⟩
      · rw [modemResult_eq]
        intro h
        cases h
  · exact fun h => ⟨⟨rfl, rfl, rfl⟩, h⟩

theorem receive_down (received : Received) (dev : Modem) (honline : dev.online = true) :
    (modemReceive received dev).online = false → (modemReceive received dev).sock = false := by
  have hkept : ∀ dev₁ : Modem, dev₁.online = dev.online → dev₁.online = false →
      dev₁.sock = false := by
    intro dev₁ hsame hoff
    rw [hsame, honline] at hoff
    cases hoff
  unfold modemReceive
  dsimp only
  split
  · split
    · exact hkept dev rfl
    · split
      · rw [modemOutStr_eq]
        exact hkept _ rfl
      · exact hkept dev rfl
      · rw [modemResult_eq]
        exact fun _ => rfl
  · exact hkept dev rfl

theorem read_untouched (host : Host) (received : Received) (len : ℕ) (dev : Modem)
    (hstate : dev.state = .online) (h : (modemRead host received len dev).1.online = true) :
    Untouched dev (modemRead host received len dev).1 := by
  change (modemReceive received (modemSilence host.now (modemPollLine host dev))).online = true at h
  change Untouched dev { modemReceive received (modemSilence host.now (modemPollLine host dev)) with
    out := _ }
  rw [modemPollLine_online host hstate] at h ⊢
  obtain ⟨huntouched, hsilence⟩ := receive_untouched received _ h
  have hsame : modemSilence host.now dev = dev := by
    revert hsilence
    unfold modemSilence
    split
    · rw [modemResult_eq]
      intro h
      cases h
    · exact fun _ => rfl
  rw [hsame] at huntouched ⊢
  exact ⟨huntouched.s, huntouched.pluses, huntouched.lastData⟩

theorem control_untouched (dtr : Bool) (dev : Modem) :
    (modemControl dtr dev).online = true → Untouched dev (modemControl dtr dev) := by
  unfold modemControl
  dsimp only
  split
  · exact fun _ => ⟨rfl, rfl, rfl⟩
  · split
    · intro h
      cases h
    · split
      · split
        · rw [modemResult_eq]
          intro h
          cases h
        · exact fun _ => ⟨rfl, rfl, rfl⟩
      · split
        · intro h
          cases h
        · exact fun _ => ⟨rfl, rfl, rfl⟩

theorem dataByte_passed (now : BitVec 32) (dev : Modem) (val : Byte) (hsock : dev.sock = true)
    (hspared : ¬ (val = dev.s 2 ∧ 3 ≤ dev.pluses)) :
    let r := modemDataByte now dev val
    r.1.online = dev.online ∧ r.1.s = dev.s ∧
      r.2 ++ List.replicate r.1.pluses (dev.s 2) = List.replicate dev.pluses (dev.s 2) ++ [val] ∧
      Run.next (dev.s 2) (guardTime dev)
          { held := dev.pluses, last := dev.lastData, finished := false } (now, val) =
        { held := r.1.pluses, last := r.1.lastData, finished := false } := by
  dsimp only
  unfold modemDataByte Run.next
  dsimp only
  by_cases hescape : val = dev.s 2 ∧ (0 < dev.pluses ∨ guardTime dev ≤ now - dev.lastData)
  · have hlt : dev.pluses < 3 := by
      by_contra hge
      exact hspared ⟨hescape.1, Nat.not_lt.mp hge⟩
    rw [if_pos hescape, if_pos hescape, if_pos (Nat.succ_le_of_lt hlt), if_pos hlt]
    refine ⟨rfl, rfl, ?_, rfl⟩
    rw [List.nil_append, hescape.1, List.replicate_succ']
  · rw [if_neg hescape, if_neg hescape]
    unfold modemPass
    rw [if_pos hsock]
    exact ⟨rfl, rfl, List.append_nil _, rfl⟩

/-- The condition of a step: it is not a fourth escape character. -/
def Spared (dev : Modem) (i : Input) : Prop := ¬ fourth dev i

/-- What holds wherever a stretch has come to. -/
structure Transparent (dev : Modem) (is : List Input) (sent : List Byte) (dev' : Modem) : Prop where
  carrier : Carrier dev'
  passed : dev'.online = true → sent ++ List.replicate dev'.pluses (dev.s 2) =
    List.replicate dev.pluses (dev.s 2) ++ (written is).map Prod.snd
  ended : ∃ k ≤ 3, sent ++ List.replicate k (dev.s 2) =
    List.replicate dev.pluses (dev.s 2) ++ (written is).map Prod.snd
  registers : dev'.online = true → dev'.s = dev.s
  detector : dev.pluses = 0 → dev'.online = true →
    Run.after (dev.s 2) (guardTime dev) dev.lastData (written is) =
      { held := dev'.pluses, last := dev'.lastData, finished := false }

theorem Transparent.idle {dev dev₁ dev₂ : Modem} {is : List Input} {sent : List Byte} {i : Input}
    (h : Transparent dev is sent dev₁) (honline : dev₁.online = true) (hquiet : written [i] = [])
    (hcarrier : Carrier dev₂) (huntouched : dev₂.online = true → Untouched dev₁ dev₂) :
    Transparent dev (is ++ [i]) (sent ++ []) dev₂ := by
  have hwritten : written (is ++ [i]) = written is := by
    rw [written_snoc, hquiet, List.append_nil]
  refine ⟨hcarrier, ?_, ?_, ?_, ?_⟩
  · intro honline₂
    rw [hwritten, List.append_nil, (huntouched honline₂).pluses]
    exact h.passed honline
  · rw [hwritten, List.append_nil]
    exact h.ended
  · intro honline₂
    exact (huntouched honline₂).s.trans (h.registers honline)
  · intro hstart honline₂
    rw [hwritten, (huntouched honline₂).pluses, (huntouched honline₂).lastData]
    exact h.detector hstart honline

theorem Session.transparent {dev dev' : Modem} {is : List Input} {sent : List Byte}
    (hstart : Carrier dev) (h : Session Spared dev is sent dev') : Transparent dev is sent dev' := by
  induction h with
  | start =>
    refine ⟨hstart, fun _ => ?_, ⟨dev.pluses, hstart.held, ?_⟩, fun _ => rfl, fun hzero _ => ?_⟩
    · rw [List.nil_append]
      exact (List.append_nil _).symm
    · rw [List.nil_append]
      exact (List.append_nil _).symm
    · rw [hzero]
      rfl
  | step is sent dev₁ i more dev₂ _ honline hspared hrun ih =>
    have hcarrier := ih.carrier.step hrun
    have hstate := ih.carrier.online honline
    cases i with
    | write host val =>
      have hsock := ih.carrier.sock (Or.inr (Or.inr hstate))
      obtain ⟨hon, hs, hbytes, hdetect⟩ :=
        dataByte_passed host.now dev₁ val hsock hspared
      have hdata : modemStep dev₁ (.write host val) = .ok (modemDataByte host.now dev₁ val) :=
        if_pos honline
      rw [hdata] at hrun
      obtain rfl : _ = dev₂ := congrArg Prod.fst (Except.ok.inj hrun)
      obtain rfl : _ = more := congrArg Prod.snd (Except.ok.inj hrun)
      have hsnoc : written (is ++ [.write host val]) = written is ++ [(host.now, val)] :=
        written_snoc is _
      rw [ih.registers honline] at hbytes hs
      have hpassed : sent ++ (modemDataByte host.now dev₁ val).2 ++
          List.replicate (modemDataByte host.now dev₁ val).1.pluses (dev.s 2) =
            List.replicate dev.pluses (dev.s 2) ++
              (written (is ++ [.write host val])).map Prod.snd := by
        rw [List.append_assoc, hbytes, ← List.append_assoc, ih.passed honline, hsnoc,
          List.map_append, ← List.append_assoc]
        rfl
      refine ⟨hcarrier, fun _ => hpassed, ⟨_, hcarrier.held, hpassed⟩, fun _ => hs, ?_⟩
      intro hzero _
      have hguard : guardTime dev₁ = guardTime dev := by
        unfold guardTime
        rw [ih.registers honline]
      rw [hsnoc, Run.after_snoc, ih.detector hzero honline, ← hdetect, hguard,
        ih.registers honline]
    | read host received len =>
      obtain ⟨rfl, rfl⟩ := Prod.mk.inj (Except.ok.inj hrun)
      exact ih.idle honline rfl hcarrier (read_untouched host received len dev₁ hstate)
    | control dtr =>
      obtain ⟨rfl, rfl⟩ := Prod.mk.inj (Except.ok.inj hrun)
      exact ih.idle honline rfl hcarrier (control_untouched dtr dev₁)

/-- A read goes back to command mode with the carrier kept. -/
def Escapes (host : Host) (received : Received) (len : ℕ) (dev : Modem) : Prop :=
  (modemRead host received len dev).1.online = false ∧
    (modemRead host received len dev).1.sock = true

theorem escapes_iff (host : Host) (received : Received) (len : ℕ) (dev : Modem)
    (hcarrier : Carrier dev) (honline : dev.online = true) :
    Escapes host received len dev ↔ 3 ≤ dev.pluses ∧ guardTime dev ≤ host.now - dev.lastData := by
  have hstate := hcarrier.online honline
  have hsock := hcarrier.sock (Or.inr (Or.inr hstate))
  unfold Escapes
  change (modemReceive received (modemSilence host.now (modemPollLine host dev))).online = false ∧
    (modemReceive received (modemSilence host.now (modemPollLine host dev))).sock = true ↔ _
  rw [modemPollLine_online host hstate]
  constructor
  · rintro ⟨hoff, hkept⟩
    by_contra hloud
    have hsame : modemSilence host.now dev = dev := if_neg fun h => hloud h.2
    rw [hsame] at hoff hkept
    rw [receive_down received dev honline hoff] at hkept
    cases hkept
  · intro hsilent
    obtain ⟨hoff, hkept⟩ := silence_off host.now dev honline hsilent
    rw [receive_offline received _ hoff]
    exact ⟨hoff, hkept.trans hsock⟩

/-- The history ends in three escape characters with a guard time before and after them. -/
def Guarded (esc : Byte) (guard start now : BitVec 32) (h : List (BitVec 32 × Byte)) : Prop :=
  ∃ pre t₁ t₂ t₃, h = pre ++ [(t₁, esc), (t₂, esc), (t₃, esc)] ∧
    guard ≤ t₁ - lastTime start pre ∧ guard ≤ now - t₃

def typing (now : BitVec 32) (text : List Byte) : List Input :=
  text.map (.write ⟨now, true, 1⟩)

def polled (now : BitVec 32) : Input := .read ⟨now, true, 1⟩ .wouldblock 4096

def dialUp : Modem := modemInit modemModelSupra .tcp 57600 (ascii "localhost") [] []

/-- A number dialled, the far end answering, and the CONNECT line read. -/
def call : List Input := typing 0 (ascii "ATD1\r") ++ [polled 5000, polled 14000, polled 15000]

/-- Four escape characters in a row reach the socket as five. -/
theorem fourth_escape :
    (modemRun dialUp (call ++ typing 20000 (ascii "++++"))).map
      (fun r => (r.1.online, r.1.pluses, r.2)) = .ok (true, 0, ascii "+++++") := by
  rfl

/-- Data mode from any state on: while no fourth escape character is written on top of three
    held ones, every byte is handed on once and in order, three held bytes at most waiting at the
    end; and the stretch is escaped from exactly after three guarded escape characters. -/
theorem data_mode (dev dev' : Modem) (is : List Input) (sent : List Byte) (hdev : Reachable dev)
    (h : Session Spared dev is sent dev') :
    (dev'.online = true → dev'.pluses ≤ 3 ∧ sent ++ List.replicate dev'.pluses (dev.s 2) =
      List.replicate dev.pluses (dev.s 2) ++ (written is).map Prod.snd) ∧
    (∃ k ≤ 3, sent ++ List.replicate k (dev.s 2) =
      List.replicate dev.pluses (dev.s 2) ++ (written is).map Prod.snd) ∧
    (dev.pluses = 0 → dev'.online = true → ∀ host received len,
      (Escapes host received len dev' ↔
        Guarded (dev.s 2) (guardTime dev) dev.lastData host.now (written is)) ∧
      (Escapes host received len dev' → dev'.pluses = 3)) := by
  have htransparent := h.transparent hdev.carrier
  refine ⟨fun honline => ⟨htransparent.carrier.held, htransparent.passed honline⟩,
    htransparent.ended, ?_⟩
  intro hzero honline host received len
  have hguard : guardTime dev' = guardTime dev := by
    unfold guardTime
    rw [htransparent.registers honline]
  have hdetector := htransparent.detector hzero honline
  have hescapes := escapes_iff host received len dev' htransparent.carrier honline
  have hheld := htransparent.carrier.held
  rw [hescapes, hguard]
  refine ⟨?_, fun hsilent => Nat.le_antisymm hheld hsilent.1⟩
  constructor
  · rintro ⟨hthree, hsilent⟩
    obtain ⟨pre, run, hsplit, hlength, hesc, hbefore⟩ :=
      Run.after_held (dev.s 2) (guardTime dev) dev.lastData (written is)
    have hlast := Run.after_last (dev.s 2) (guardTime dev)
      dev.lastData (written is)
    rw [hdetector] at hlength hlast
    match run, hlength with
    | [], hlength => exact absurd hlength (by simp only [List.length_nil]; omega)
    | [_], hlength => exact absurd hlength (by simp only [List.length_cons, List.length_nil]; omega)
    | [_, _], hlength =>
      exact absurd hlength (by simp only [List.length_cons, List.length_nil]; omega)
    | a :: b :: c :: d :: _, hlength =>
      exact absurd hlength (by simp only [List.length_cons]; omega)
    | [(t₁, e₁), (t₂, e₂), (t₃, e₃)], _ =>
      obtain rfl : e₁ = dev.s 2 := hesc (t₁, e₁) (by simp)
      obtain rfl : e₂ = dev.s 2 := hesc (t₂, e₂) (by simp)
      obtain rfl : e₃ = dev.s 2 := hesc (t₃, e₃) (by simp)
      refine ⟨pre, t₁, t₂, t₃, hsplit, hbefore (t₁, dev.s 2) rfl, ?_⟩
      have ht₃ : lastTime dev.lastData (written is) = t₃ := by
        rw [hsplit]
        unfold lastTime
        rw [List.getLast?_append_of_ne_nil _ (List.cons_ne_nil _ _)]
        rfl
      rw [← ht₃, ← hlast]
      exact hsilent
  · rintro ⟨pre, t₁, t₂, t₃, hsplit, hbefore, hafter⟩
    have hover : (Run.after (dev.s 2) (guardTime dev) dev.lastData
        (pre ++ [(t₁, dev.s 2), (t₂, dev.s 2), (t₃, dev.s 2)])).finished = false := by
      rw [← hsplit, hdetector]
    have hthree := Run.after_three pre t₁ t₂ t₃ hbefore hover
    have hlast := Run.after_last (dev.s 2) (guardTime dev)
      dev.lastData (written is)
    rw [← hsplit, hdetector] at hthree
    have ht₃ : lastTime dev.lastData (written is) = t₃ := by
      rw [hsplit]
      unfold lastTime
      rw [List.getLast?_append_of_ne_nil _ (List.cons_ne_nil _ _)]
      rfl
    rw [hdetector] at hlast
    refine ⟨Nat.le_of_eq hthree.symm, ?_⟩
    change dev'.lastData = _ at hlast
    rw [hlast, ht₃]
    exact hafter

def onCall : Modem := ((modemRun dialUp call).toOption.map Prod.fst).getD dialUp

theorem data_mode_letter :
    (modemDataByte 20000 onCall (ch 'h')).1.pluses ≤ 3 ∧
      [ch 'h'] ++ List.replicate (modemDataByte 20000 onCall (ch 'h')).1.pluses (onCall.s 2) =
        List.replicate onCall.pluses (onCall.s 2) ++ [ch 'h'] := by
  have hreach : Reachable onCall :=
    ⟨modemModelSupra, .tcp, 57600, ascii "localhost", [], [], call, [], rfl⟩
  have hsession : Session Spared onCall [.write ⟨20000, true, 1⟩ (ch 'h')] [ch 'h']
      (modemDataByte 20000 onCall (ch 'h')).1 :=
    .step [] [] onCall _ [ch 'h'] _ .start rfl (fun h => absurd h.1 (by decide)) rfl
  exact (data_mode onCall _ _ _ hreach hsession).1 rfl

end PeepeeBox.DataMode
