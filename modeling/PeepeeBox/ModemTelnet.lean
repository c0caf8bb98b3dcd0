import PeepeeBox.NetModem
import PeepeeBox.TraceMachine

set_option autoImplicit false

/-!
# The network modem's telnet connection

`modem_process_telnet` of `net_modem.c`, beside a reader of the telnet stream: payload with 255 doubled, negotiations
of an option, and commands of two bytes.
-/
namespace PeepeeBox.ModemTelnet
open ByteFifo NetModem TraceMachine

inductive Side where
  | client
  | server
  deriving DecidableEq

structure TelClient where
  binary : Side → Bool
  echo : Side → Bool
  supressGA : Side → Bool
  inIAC : Bool
  recCommand : Bool
  command : Byte

structure Session where
  modem : Modem
  telClient : TelClient

/-- `modem_data_mode_process_byte`, which has no faults out of packet mode. -/
def put (modem : Modem) (data : Byte) : Modem :=
  match modemDataModeProcessByte modem data with
  | .ok (modem, _) => modem
  | .error _ => modem

def answer (s : Session) (command option : Byte) : Session :=
  { s with modem := put (put (put s.modem 0xff) command) option }

def reject (s : Session) (c : Byte) : Session :=
  if c ≠ 0 ∧ c ≠ 1 ∧ c ≠ 3 then
    if s.telClient.command = 251 ∨ s.telClient.command = 252 then answer s 254 c
    else if s.telClient.command = 253 ∨ s.telClient.command = 254 then answer s 252 c
    else s
  else s

def TelClient.setBinary (t : TelClient) (side : Side) (on : Bool) : TelClient :=
  { t with binary := Function.update t.binary side on }

def TelClient.setEcho (t : TelClient) (side : Side) (on : Bool) : TelClient :=
  { t with echo := Function.update t.echo side on }

def TelClient.setSupressGA (t : TelClient) (side : Side) (on : Bool) : TelClient :=
  { t with supressGA := Function.update t.supressGA side on }

/-- The `switch` over the command, with its option byte. -/
def negotiate (s : Session) (c : Byte) : Session :=
  let t := s.telClient
  if t.command = 251 then
    if c = 0 then { s with telClient := t.setBinary .server true }
    else if c = 1 then { s with telClient := t.setEcho .server true }
    else if c = 3 then { s with telClient := t.setSupressGA .server true }
    else s
  else if t.command = 252 then
    if c = 0 then { s with telClient := t.setBinary .server false }
    else if c = 1 then { s with telClient := t.setEcho .server false }
    else if c = 3 then { s with telClient := t.setSupressGA .server false }
    else s
  else if t.command = 253 then
    if c = 0 then answer { s with telClient := t.setBinary .client true } 251 0
    else if c = 1 then answer { s with telClient := t.setEcho .client false } 252 1
    else if c = 3 then answer { s with telClient := t.setSupressGA .client true } 251 3
    else s
  else if t.command = 254 then
    if c = 0 then answer { s with telClient := t.setBinary .client false } 252 0
    else if c = 1 then answer { s with telClient := t.setEcho .client false } 252 1
    else if c = 3 then answer { s with telClient := t.setSupressGA .client true } 251 3
    else s
  else s

/-- One byte of the loop, with what it pushes to `rx_data`. -/
def modemTelnetByte (s : Session) (c : Byte) : Session × List Byte :=
  if s.telClient.inIAC then
    if s.telClient.recCommand then
      let s := negotiate (reject s c) c
      ({ s with telClient := { s.telClient with inIAC := false, recCommand := false } }, [])
    else if c = 249 then ({ s with telClient := { s.telClient with inIAC := false } }, [])
    else if s.telClient.binary .server = true ∧ c = 0xff then
      ({ s with telClient := { s.telClient with command := c, inIAC := false, recCommand := false } }, [0xff])
    else ({ s with telClient := { s.telClient with command := c, recCommand := true } }, [])
  else if c = 0xff then ({ s with telClient := { s.telClient with inIAC := true } }, [])
  else (s, [c])

def modemProcessTelnet : Session → List Byte → Session × List Byte
  | s, [] => (s, [])
  | s, c :: data =>
    let (s, pushed) := modemTelnetByte s c
    let (s, rest) := modemProcessTelnet s data
    (s, pushed ++ rest)

inductive Piece where
  | payload (b : Byte)
  | negotiation (verb option : Byte)
  | command (c : Byte)

inductive Mode where
  | text
  | iac
  | verb (v : Byte)
  /-- No stream of the kind goes on like this. -/
  | off
  deriving DecidableEq

structure Reader where
  mode : Mode
  /-- The last piece was a command other than Go Ahead. -/
  spent : Bool
  /-- The other side has been heard to send binary. -/
  binary : Bool

def isVerb (c : Byte) : Bool := 251 ≤ c && c ≤ 254

def isCommand (c : Byte) : Bool := 241 ≤ c && c ≤ 249

def Reader.read (r : Reader) (c : Byte) : Reader × Option Piece :=
  match r.mode with
  | .text =>
    if c = 0xff then ({ r with mode := .iac }, none) else ({ r with spent := false }, some (.payload c))
  | .iac =>
    if c = 0xff then ({ r with mode := .text, spent := false }, some (.payload 0xff))
    else if isVerb c then ({ r with mode := .verb c, spent := false }, none)
    else if isCommand c then ({ r with mode := .text, spent := c ≠ 249 }, some (.command c))
    else ({ r with mode := .off }, none)
  | .verb v =>
    ({ r with
        mode := .text
        binary := if c = 0 ∧ v = 251 then true else if c = 0 ∧ v = 252 then false else r.binary },
      some (.negotiation v c))
  | .off => (r, none)

def Piece.bytes : Piece → List Byte
  | .payload b => [b]
  | _ => []

inductive Event where
  /-- A byte of the stream. -/
  | byte (c : Byte)
  /-- So many bytes of the line have gone to the socket. -/
  | sent (n : ℕ)
  /-- The DTE writes a byte. -/
  | write (data : Byte)

structure Watched where
  session : Session
  reader : Reader

def telnet : Machine Watched Event (List Byte) where
  step x e :=
    match e with
    | .byte c =>
      let (session, pushed) := modemTelnetByte x.session c
      ({ session, reader := (x.reader.read c).1 }, some pushed)
    | .sent n =>
      let line : SerLine :=
        { bytes := x.session.modem.line.bytes.drop n
          fits := by
            have hfits := x.session.modem.line.fits
            rw [List.length_drop]
            omega }
      ({ x with session := { x.session with modem := { x.session.modem with line } } }, none)
    | .write data => ({ x with session := { x.session with modem := put x.session.modem data } }, none)

/-- After `modem_enter_connected_state`. -/
structure Connected (x : Watched) : Prop where
  connected : x.session.modem.connected = true
  tcpIpMode : x.session.modem.tcpIpMode = true
  inIAC : x.session.telClient.inIAC = false
  recCommand : x.session.telClient.recCommand = false
  reader : x.reader = { mode := .text, spent := false, binary := x.session.telClient.binary .server }

/-- A verb that an answer may have. -/
def answers (verb w : Byte) : Prop :=
  if verb = 251 ∨ verb = 252 then w = 253 ∨ w = 254 else w = 251 ∨ w = 252

/-- A request: the guest is asked for an option, or told of one it does not know. -/
def asks (verb option : Byte) : Bool := 253 ≤ verb || (option ≠ 0 && option ≠ 1 && option ≠ 3)

def Replied (requests : Byte → Byte → Bool) (piece : Option Piece) (reply : List Byte) : Prop :=
  match piece with
  | some (.negotiation verb option) =>
    if requests verb option then ∃ w, answers verb w ∧ reply = [0xff, w, option] else reply = []
  | _ => reply = []

/-- The byte pushes the payload that it ends, and one answer is queued for a request that it ends. -/
def Transparent (requests : Byte → Byte → Bool) (x : Watched) (e : Event) : Prop :=
  match e with
  | .byte c =>
    (x.reader.read c).1.mode = .off ∨
      ((telnet.answer x e).getD [] = ((x.reader.read c).2.map Piece.bytes).getD [] ∧
        ∃ reply, (telnet.next x e).session.modem.line.bytes = x.session.modem.line.bytes ++ reply ∧
          Replied requests (x.reader.read c).2 reply)
  | _ => True

/-- After a command other than Go Ahead comes nothing but the 255 of another piece; a 255 of the payload comes in
binary; and the line has room for an answer. -/
def Heeded (x : Watched) (e : Event) : Prop :=
  match e with
  | .byte c =>
    (x.reader.read c).1.mode = .off ∨
      match x.reader.mode, x.reader.spent with
      | .text, spent => spent = true → c = 0xff
      | .iac, true => False
      | .iac, false => c = 0xff → x.reader.binary = true
      | .verb v, _ => asks v c = true → x.session.modem.line.bytes.length + 3 ≤ serLineSize
      | .off, _ => True
  | _ => True

/-- No offer of an option the modem knows is made. -/
def Unoffered (x : Watched) (e : Event) : Prop :=
  match e with
  | .byte c => ∀ v, x.reader.mode = .verb v → asks v c = true
  | _ => True

structure Open (modem : Modem) : Prop where
  connected : modem.connected = true
  tcpIpMode : modem.tcpIpMode = true

theorem put_open {modem : Modem} (h : Open modem) (data : Byte) : Open (put modem data) := by
  obtain ⟨hconnected, htcp⟩ := h
  have hcount : (countEscape modem data).connected = true ∧ (countEscape modem data).tcpIpMode = true := by
    rw [countEscape]
    split_ifs <;> exact ⟨hconnected, htcp⟩
  simp only [put, modemDataModeProcessByte, hcount.1, hcount.2, Bool.true_eq_false, and_false, if_false]
  split_ifs <;> constructor <;> simp

theorem put_line {modem : Modem} (h : Open modem) (data : Byte) :
    (put modem data).line.bytes =
      modem.line.bytes ++ [data].take (serLineSize - modem.line.bytes.length) := by
  obtain ⟨hconnected, htcp⟩ := h
  have hcount : (countEscape modem data).connected = true ∧ (countEscape modem data).tcpIpMode = true ∧
      (countEscape modem data).line = modem.line := by
    rw [countEscape]
    split_ifs <;> exact ⟨hconnected, htcp, rfl⟩
  simp only [put, modemDataModeProcessByte, hcount.1, hcount.2.1, hcount.2.2, Bool.true_eq_false, and_false, and_true,
    if_false]
  split_ifs with hroom
  · rw [List.take_of_length_le]
    rw [List.length_singleton]
    omega
  · have hfull : serLineSize - modem.line.bytes.length = 0 := by omega
    simp [hfull]

theorem answer_open {s : Session} (h : Open s.modem) (command option : Byte) :
    Open (answer s command option).modem := by
  have hsecond := put_open (put_open h 0xff) command
  simp only [answer]
  exact put_open hsecond option

theorem answer_line {s : Session} (h : Open s.modem) (command option : Byte) :
    (answer s command option).modem.line.bytes =
      s.modem.line.bytes ++ [0xff, command, option].take (serLineSize - s.modem.line.bytes.length) := by
  have hfirst := put_open h 0xff
  rw [answer, put_line (put_open hfirst command), put_line hfirst, put_line h]
  generalize serLineSize = size
  generalize s.modem.line.bytes = line
  obtain hroom | hroom | hroom | hroom : size - line.length = 0 ∨ size - line.length = 1 ∨ size - line.length = 2 ∨
      3 ≤ size - line.length := by omega
  · simp [hroom]
  · have hnone : size - (line.length + 1) = 0 := by omega
    simp [hroom, hnone]
  · have hone : size - (line.length + 1) = 1 := by omega
    have hnone : size - (line.length + 1 + 1) = 0 := by omega
    simp [hroom, hone, hnone]
  · have hall : [0xff, command, option].take (size - line.length) = [0xff, command, option] :=
      List.take_of_length_le hroom
    have hone : 1 ≤ size - line.length := by omega
    have htwo : 1 ≤ size - (line.length + 1) := by omega
    have hthree : 1 ≤ size - (line.length + 1 + 1) := by omega
    rw [hall]
    simp [List.take_of_length_le, hone, htwo, hthree]

def replyVerb (verb option : Byte) : Byte :=
  if verb = 251 ∨ verb = 252 then 254
  else if option = 3 ∨ (verb = 253 ∧ option = 0) then 251
  else 252

theorem replyVerb_answers (verb option : Byte) : answers verb (replyVerb verb option) := by
  rw [answers, replyVerb]
  split_ifs <;> simp

theorem verb_cases {v : Byte} (h : isVerb v = true) : v = 251 ∨ v = 252 ∨ v = 253 ∨ v = 254 := by
  revert v
  decide +kernel

theorem not_verb {v : Byte} (h : isVerb v = false) : v ≠ 251#8 ∧ v ≠ 252#8 ∧ v ≠ 253#8 ∧ v ≠ 254#8 := by
  refine ⟨?_, ?_, ?_, ?_⟩ <;> rintro rfl <;> revert h <;> decide

structure Negotiated (s s' : Session) (v c : Byte) : Prop where
  stays : Open s'.modem
  line : s'.modem.line.bytes = s.modem.line.bytes ++
    (if asks v c then [0xff, replyVerb v c, c] else []).take (serLineSize - s.modem.line.bytes.length)
  binary : s'.telClient.binary .server =
    if c = 0 ∧ v = 251 then true else if c = 0 ∧ v = 252 then false else s.telClient.binary .server

theorem negotiated_silent {s s' : Session} {v c : Byte} (h : Open s.modem) (hasks : asks v c = false)
    (hmodem : s'.modem = s.modem)
    (hbinary : s'.telClient.binary .server =
      if c = 0 ∧ v = 251 then true else if c = 0 ∧ v = 252 then false else s.telClient.binary .server) :
    Negotiated s s' v c := by
  refine ⟨by rwa [hmodem], ?_, hbinary⟩
  rw [hmodem, hasks]
  simp

theorem negotiated_answer {s : Session} {t : TelClient} {v c : Byte} (h : Open s.modem) (hasks : asks v c = true)
    (hbinary : t.binary .server =
      if c = 0 ∧ v = 251 then true else if c = 0 ∧ v = 252 then false else s.telClient.binary .server) :
    Negotiated s (answer { s with telClient := t } (replyVerb v c) c) v c := by
  have hopen : Open ({ s with telClient := t } : Session).modem := h
  refine ⟨answer_open hopen _ _, ?_, hbinary⟩
  rw [answer_line hopen, hasks, if_pos rfl]

theorem negotiated_unknown {s : Session} {v c : Byte} (h : Open s.modem) (hcommand : s.telClient.command = v)
    (hverb : isVerb v = true) (h0 : c ≠ 0#8) (h1 : c ≠ 1#8) (h3 : c ≠ 3#8) :
    Negotiated s (negotiate (reject s c) c) v c := by
  have hasks : asks v c = true := by simp [asks, h0, h1, h3]
  have hreject : reject s c = answer s (replyVerb v c) c := by
    rcases verb_cases hverb with rfl | rfl | rfl | rfl <;> simp [reject, replyVerb, hcommand, h0, h1, h3]
  have hstill : negotiate (answer s (replyVerb v c) c) c = answer s (replyVerb v c) c := by
    simp [negotiate, h0, h1, h3]
  rw [hreject, hstill]
  exact negotiated_answer h hasks (by simp [h0])

theorem negotiated {s : Session} {v c : Byte} (h : Open s.modem) (hcommand : s.telClient.command = v)
    (hverb : isVerb v = true) : Negotiated s (negotiate (reject s c) c) v c := by
  by_cases hknown : c = 0 ∨ c = 1 ∨ c = 3
  · have hreject : reject s c = s := by
      rw [reject, if_neg]
      tauto
    rw [hreject]
    rcases verb_cases hverb with rfl | rfl | rfl | rfl
    · rcases hknown with rfl | rfl | rfl <;>
        exact negotiated_silent h (by decide) (by simp [negotiate, hcommand])
          (by simp [negotiate, hcommand, TelClient.setBinary, TelClient.setEcho, TelClient.setSupressGA])
    · rcases hknown with rfl | rfl | rfl <;>
        exact negotiated_silent h (by decide) (by simp [negotiate, hcommand])
          (by simp [negotiate, hcommand, TelClient.setBinary, TelClient.setEcho, TelClient.setSupressGA])
    · have hanswer : negotiate s c = answer
          { s with telClient :=
              if c = 0 then s.telClient.setBinary .client true
              else if c = 1 then s.telClient.setEcho .client false
              else s.telClient.setSupressGA .client true } (replyVerb 253 c) c := by
        rcases hknown with rfl | rfl | rfl <;> simp [negotiate, hcommand, replyVerb]
      rw [hanswer]
      apply negotiated_answer h (by simp [asks])
      rcases hknown with rfl | rfl | rfl <;> simp [TelClient.setBinary, TelClient.setEcho, TelClient.setSupressGA]
    · have hanswer : negotiate s c = answer
          { s with telClient :=
              if c = 0 then s.telClient.setBinary .client false
              else if c = 1 then s.telClient.setEcho .client false
              else s.telClient.setSupressGA .client true } (replyVerb 254 c) c := by
        rcases hknown with rfl | rfl | rfl <;> simp [negotiate, hcommand, replyVerb]
      rw [hanswer]
      apply negotiated_answer h (by simp [asks])
      rcases hknown with rfl | rfl | rfl <;> simp [TelClient.setBinary, TelClient.setEcho, TelClient.setSupressGA]
  · have hunknown : c ≠ 0 ∧ c ≠ 1 ∧ c ≠ 3 := by tauto
    exact negotiated_unknown h hcommand hverb hunknown.1 hunknown.2.1 hunknown.2.2

theorem dropped {s : Session} (c : Byte) (h : isVerb s.telClient.command = false) :
    negotiate (reject s c) c = s := by
  obtain ⟨h1, h2, h3, h4⟩ := not_verb h
  have hreject : reject s c = s := by simp [reject, h1, h2, h3, h4]
  rw [hreject]
  simp [negotiate, h1, h2, h3, h4]

/-- Where the modem is in the stream. -/
def Aligned (t : TelClient) (r : Reader) : Prop :=
  match r.mode, r.spent with
  | .text, false => t.inIAC = false ∧ t.recCommand = false
  | .text, true => t.inIAC = true ∧ t.recCommand = true ∧ isVerb t.command = false
  | .iac, false => t.inIAC = true ∧ t.recCommand = false
  | .iac, true => t.inIAC = false ∧ t.recCommand = false
  | .verb v, false => t.inIAC = true ∧ t.recCommand = true ∧ t.command = v ∧ isVerb v = true
  | .verb _, true => False
  | .off, _ => True

structure Inv (x : Watched) : Prop where
  stays : Open x.session.modem
  aligned : Aligned x.session.telClient x.reader
  binary : x.reader.mode ≠ .off → x.reader.binary = x.session.telClient.binary .server

structure Takes (requests : Byte → Byte → Bool) (x : Watched) (c : Byte) : Prop where
  inv : Inv (telnet.next x (.byte c))
  transparent : Transparent requests x (.byte c)

theorem takes_off {requests : Byte → Byte → Bool} {x : Watched} {c : Byte} (hopen : Open (modemTelnetByte x.session c).1.modem)
    (hoff : (x.reader.read c).1.mode = .off) : Takes requests x c := by
  refine ⟨⟨hopen, ?_, fun hne => absurd hoff hne⟩, Or.inl hoff⟩
  change Aligned (modemTelnetByte x.session c).1.telClient (x.reader.read c).1
  simp [Aligned, hoff]

theorem takes_quiet {requests : Byte → Byte → Bool} {x : Watched} {c : Byte} {t : TelClient} {pushed : List Byte}
    (h : Inv x) (hmode : x.reader.mode ≠ .off) (hbyte : modemTelnetByte x.session c = ({ x.session with telClient := t }, pushed))
    (haligned : Aligned t (x.reader.read c).1) (hbinary : t.binary = x.session.telClient.binary)
    (hbinary' : (x.reader.read c).1.binary = x.reader.binary)
    (hpushed : pushed = ((x.reader.read c).2.map Piece.bytes).getD [])
    (hpiece : ∀ v o, (x.reader.read c).2 ≠ some (.negotiation v o)) : Takes requests x c := by
  have hnext : telnet.next x (.byte c) =
      { session := { x.session with telClient := t }, reader := (x.reader.read c).1 } := by
    simp [Machine.next, telnet, hbyte]
  have hanswer : telnet.answer x (.byte c) = some pushed := by
    simp [Machine.answer, telnet, hbyte]
  refine ⟨?_, Or.inr ⟨?_, [], ?_, ?_⟩⟩
  · rw [hnext]
    refine ⟨h.stays, haligned, fun _ => ?_⟩
    rw [hbinary', h.binary hmode]
    exact congrFun hbinary.symm .server
  · rw [hanswer]
    exact hpushed
  · rw [hnext]
    simp
  · cases hr : (x.reader.read c).2 with
    | none => rfl
    | some piece =>
      cases piece with
      | payload b => rfl
      | command b => rfl
      | negotiation v o => exact absurd hr (hpiece v o)

theorem open_byte {s : Session} (h : Open s.modem) (c : Byte) : Open (modemTelnetByte s c).1.modem := by
  rw [modemTelnetByte]
  split
  · split
    · cases hverb : isVerb s.telClient.command with
      | true => exact (negotiated h rfl hverb).stays
      | false =>
        rw [dropped c hverb]
        exact h
    · split_ifs <;> exact h
  · split_ifs <;> exact h

theorem Inv.of_text {x : Watched} (h : Inv x) (hmode : x.reader.mode = .text) :
    (x.reader.spent = false → x.session.telClient.inIAC = false ∧ x.session.telClient.recCommand = false) ∧
      (x.reader.spent = true → x.session.telClient.inIAC = true ∧ x.session.telClient.recCommand = true ∧
        isVerb x.session.telClient.command = false) := by
  have haligned := h.aligned
  constructor <;> intro hspent <;> simpa only [Aligned, hmode, hspent] using haligned

theorem Inv.of_iac {x : Watched} (h : Inv x) (hmode : x.reader.mode = .iac) :
    x.session.telClient.recCommand = false ∧ x.session.telClient.inIAC = !x.reader.spent := by
  have haligned := h.aligned
  cases hspent : x.reader.spent <;> simp only [Aligned, hmode, hspent] at haligned <;>
    exact ⟨haligned.2, haligned.1⟩

theorem Inv.of_verb {x : Watched} {v : Byte} (h : Inv x) (hmode : x.reader.mode = .verb v) :
    x.reader.spent = false ∧ x.session.telClient.inIAC = true ∧ x.session.telClient.recCommand = true ∧
      x.session.telClient.command = v ∧ isVerb v = true := by
  have haligned := h.aligned
  cases hspent : x.reader.spent <;> simp only [Aligned, hmode, hspent] at haligned
  exact ⟨rfl, haligned⟩

theorem text_takes {requests : Byte → Byte → Bool} {x : Watched} {c : Byte} (h : Inv x)
    (hmode : x.reader.mode = .text) (hheeded : x.reader.spent = true → c = 255#8) : Takes requests x c := by
  have hon : x.reader.mode ≠ .off := by simp [hmode]
  obtain ⟨hfree, hspent⟩ := h.of_text hmode
  cases hs : x.reader.spent with
  | false =>
    obtain ⟨hin, hrec⟩ := hfree hs
    by_cases hff : c = 255#8
    · have hbyte : modemTelnetByte x.session c =
          ({ x.session with telClient := { x.session.telClient with inIAC := true } }, []) := by
        simp [modemTelnetByte, hin, hff]
      apply takes_quiet h hon hbyte <;> simp [Reader.read, hmode, hff, Aligned, hs, hrec]
    · have hbyte : modemTelnetByte x.session c =
          ({ x.session with telClient := x.session.telClient }, [c]) := by
        simp [modemTelnetByte, hin, hff]
      apply takes_quiet h hon hbyte <;> simp [Reader.read, hmode, hff, Aligned, hin, hrec, Piece.bytes]
  | true =>
    obtain ⟨hin, hrec, hverb⟩ := hspent hs
    have hff := hheeded hs
    have hbyte : modemTelnetByte x.session c =
        ({ x.session with telClient := { x.session.telClient with inIAC := false, recCommand := false } }, []) := by
      simp [modemTelnetByte, hin, hrec, dropped c hverb]
    apply takes_quiet h hon hbyte <;> simp [Reader.read, hmode, hff, Aligned, hs]

theorem iac_takes {requests : Byte → Byte → Bool} {x : Watched} {c : Byte} (h : Inv x)
    (hmode : x.reader.mode = .iac) (hspent : x.reader.spent = false)
    (hheeded : c = 255#8 → x.reader.binary = true) : Takes requests x c := by
  have hon : x.reader.mode ≠ .off := by simp [hmode]
  obtain ⟨hrec, hin⟩ := h.of_iac hmode
  rw [hspent, Bool.not_false] at hin
  by_cases hff : c = 255#8
  · have hbinary : x.session.telClient.binary .server = true := (h.binary hon).symm.trans (hheeded hff)
    have hbyte : modemTelnetByte x.session c =
        ({ x.session with
            telClient := { x.session.telClient with command := c, inIAC := false, recCommand := false } }, [255#8]) := by
      simp [modemTelnetByte, hin, hrec, hff, hbinary]
    apply takes_quiet h hon hbyte <;> simp [Reader.read, hmode, hff, Aligned, Piece.bytes]
  · by_cases hga : c = 249#8
    · have hbyte : modemTelnetByte x.session c =
          ({ x.session with telClient := { x.session.telClient with inIAC := false } }, []) := by
        simp [modemTelnetByte, hin, hrec, hga]
      apply takes_quiet h hon hbyte <;> simp [Reader.read, hmode, hga, Aligned, hrec, isVerb, isCommand, Piece.bytes]
    · have hbyte : modemTelnetByte x.session c =
          ({ x.session with telClient := { x.session.telClient with command := c, recCommand := true } }, []) := by
        simp [modemTelnetByte, hin, hrec, hga, hff]
      cases hverb : isVerb c with
      | true => apply takes_quiet h hon hbyte <;> simp [Reader.read, hmode, hff, hverb, Aligned, hin]
      | false =>
        cases hcommand : isCommand c with
        | true =>
          apply takes_quiet h hon hbyte <;>
            simp [Reader.read, hmode, hff, hverb, hcommand, hga, Aligned, hin, Piece.bytes]
        | false =>
          apply takes_off (open_byte h.stays c)
          simp [Reader.read, hmode, hff, hverb, hcommand]

theorem verb_takes {requests : Byte → Byte → Bool} {x : Watched} {c v : Byte} (h : Inv x)
    (hmode : x.reader.mode = .verb v) (hrequests : requests v c = asks v c)
    (hheeded : asks v c = true → x.session.modem.line.bytes.length + 3 ≤ serLineSize) : Takes requests x c := by
  obtain ⟨hspent, hin, hrec, hcommand, hverb⟩ := h.of_verb hmode
  have hneg := negotiated (c := c) h.stays hcommand hverb
  have hbyte : modemTelnetByte x.session c =
      ({ negotiate (reject x.session c) c with
          telClient :=
            { (negotiate (reject x.session c) c).telClient with inIAC := false, recCommand := false } }, []) := by
    simp [modemTelnetByte, hin, hrec]
  have hread : x.reader.read c =
      ({ x.reader with
          mode := .text
          binary := if c = 0 ∧ v = 251 then true else if c = 0 ∧ v = 252 then false else x.reader.binary },
        some (.negotiation v c)) := by
    simp only [Reader.read, hmode]
  have hnext : telnet.next x (.byte c) =
      { session := (modemTelnetByte x.session c).1, reader := (x.reader.read c).1 } := rfl
  refine ⟨?_, Or.inr ⟨?_, ?_⟩⟩
  · rw [hnext, hbyte, hread]
    refine ⟨hneg.stays, ?_, fun _ => ?_⟩
    · simp [Aligned, hspent]
    · dsimp only
      rw [hneg.binary, h.binary (by simp [hmode])]
  · simp [Machine.answer, telnet, hbyte, hread, Piece.bytes]
  · refine ⟨if asks v c then [0xff, replyVerb v c, c] else [], ?_, ?_⟩
    · rw [hnext, hbyte]
      dsimp only
      rw [hneg.line, List.take_of_length_le]
      split_ifs with hasks
      · have hroom := hheeded hasks
        simp only [List.length_cons, List.length_nil]
        omega
      · simp
    · rw [hread]
      simp only [Replied, hrequests]
      split_ifs
      · exact ⟨replyVerb v c, replyVerb_answers v c, rfl⟩
      · rfl

theorem byte_takes {requests : Byte → Byte → Bool} {x : Watched} {c : Byte} (h : Inv x)
    (hheeded : Heeded x (.byte c)) (hrequests : ∀ v, x.reader.mode = .verb v → requests v c = asks v c) :
    Takes requests x c := by
  rcases hheeded with hoff | hheeded
  · exact takes_off (open_byte h.stays c) hoff
  · cases hmode : x.reader.mode with
    | text =>
      simp only [hmode] at hheeded
      exact text_takes h hmode hheeded
    | iac =>
      cases hspent : x.reader.spent with
      | true => simp only [hmode, hspent] at hheeded
      | false =>
        simp only [hmode, hspent] at hheeded
        exact iac_takes h hmode hspent hheeded
    | verb v =>
      simp only [hmode] at hheeded
      exact verb_takes h hmode (hrequests v hmode) hheeded
    | off =>
      apply takes_off (open_byte h.stays c)
      simp [Reader.read, hmode]

theorem next_inv {x : Watched} {e : Event} (h : Inv x) (hheeded : Heeded x e) : Inv (telnet.next x e) := by
  cases e with
  | byte c =>
    have htakes : Takes asks x c := byte_takes h hheeded (fun _ _ => rfl)
    exact htakes.inv
  | sent n => exact ⟨⟨h.stays.connected, h.stays.tcpIpMode⟩, h.aligned, h.binary⟩
  | write data => exact ⟨put_open h.stays data, h.aligned, h.binary⟩

theorem pushed_of_transparent {requests : Byte → Byte → Bool} {x : Watched} {c : Byte}
    (h : Transparent requests x (.byte c)) (hon : (x.reader.read c).1.mode ≠ .off) :
    (modemTelnetByte x.session c).2 = ((x.reader.read c).2.map Piece.bytes).getD [] := by
  rcases h with hoff | ⟨hpushed, -⟩
  · exact absurd hoff hon
  · exact hpushed

theorem heeded_of_text {requests : Byte → Byte → Bool} {x : Watched} {c : Byte} (h : Inv x)
    (hmode : x.reader.mode = .text) (htransparent : Transparent requests x (.byte c)) :
    x.reader.spent = true → c = 255#8 := by
  intro hspent
  obtain ⟨hin, hrec, -⟩ := (h.of_text hmode).2 hspent
  by_contra hff
  have hpushed := pushed_of_transparent htransparent (by simp [Reader.read, hmode, hff])
  simp [modemTelnetByte, hin, hrec, Reader.read, hmode, hff, Piece.bytes] at hpushed

theorem heeded_of_iac {requests : Byte → Byte → Bool} {x : Watched} {c : Byte} (h : Inv x)
    (hmode : x.reader.mode = .iac) (htransparent : Transparent requests x (.byte c)) :
    (x.reader.read c).1.mode = .off ∨
      (x.reader.spent = false ∧ (c = 255#8 → x.reader.binary = true)) := by
  by_cases hoff : (x.reader.read c).1.mode = .off
  · exact Or.inl hoff
  · have hpushed := pushed_of_transparent htransparent hoff
    obtain ⟨hrec, hin⟩ := h.of_iac hmode
    refine Or.inr ?_
    cases hspent : x.reader.spent with
    | true =>
      -- the modem takes the second byte of a piece for the first of another
      rw [hspent, Bool.not_true] at hin
      by_cases hff : c = 255#8
      · simp [modemTelnetByte, hin, Reader.read, hmode, hff, Piece.bytes] at hpushed
      · cases hverb : isVerb c <;> cases hcommand : isCommand c <;>
          simp [modemTelnetByte, hin, Reader.read, hmode, hff, hverb, hcommand, Piece.bytes] at hpushed hoff
    | false =>
      rw [hspent, Bool.not_false] at hin
      refine ⟨rfl, fun hff => ?_⟩
      rw [h.binary (by simp [hmode])]
      by_contra hbinary
      simp [modemTelnetByte, hin, hrec, Reader.read, hmode, hff, hbinary, Piece.bytes] at hpushed

theorem heeded_of_verb {requests : Byte → Byte → Bool} {x : Watched} {c v : Byte} (h : Inv x)
    (hmode : x.reader.mode = .verb v) (hrequests : asks v c = true → requests v c = true)
    (htransparent : Transparent requests x (.byte c)) :
    (asks v c = true → x.session.modem.line.bytes.length + 3 ≤ serLineSize) ∧
      (requests v c = true → asks v c = true) := by
  obtain ⟨-, hin, hrec, hcommand, hverb⟩ := h.of_verb hmode
  have hneg := negotiated (c := c) h.stays hcommand hverb
  have hread : (x.reader.read c).2 = some (.negotiation v c) := by simp only [Reader.read, hmode]
  have hline : (telnet.next x (.byte c)).session.modem.line.bytes =
      (negotiate (reject x.session c) c).modem.line.bytes := by
    simp [Machine.next, telnet, modemTelnetByte, hin, hrec]
  rcases htransparent with hoff | ⟨-, reply, hreply, hreplied⟩
  · simp [Reader.read, hmode] at hoff
  · rw [hline, hneg.line] at hreply
    have hreply' := List.append_cancel_left hreply
    simp only [hread, Replied] at hreplied
    have hlength (hrequest : requests v c = true) : reply.length = 3 := by
      rw [if_pos hrequest] at hreplied
      obtain ⟨w, -, rfl⟩ := hreplied
      rfl
    constructor
    · intro hasks
      have hthree := hlength (hrequests hasks)
      rw [← hreply', if_pos hasks, List.length_take] at hthree
      omega
    · intro hrequest
      by_contra hasks
      have hthree := hlength hrequest
      rw [← hreply', if_neg hasks] at hthree
      simp at hthree

theorem heeded_of_transparent {requests : Byte → Byte → Bool} {x : Watched} {e : Event} (h : Inv x)
    (hrequests : ∀ v c, asks v c = true → requests v c = true) (htransparent : Transparent requests x e) :
    Heeded x e := by
  cases e with
  | byte c =>
    cases hmode : x.reader.mode with
    | text =>
      refine Or.inr ?_
      simp only [hmode]
      exact heeded_of_text h hmode htransparent
    | iac =>
      rcases heeded_of_iac h hmode htransparent with hoff | ⟨hspent, hbinary⟩
      · exact Or.inl hoff
      · refine Or.inr ?_
        simp only [hmode, hspent]
        exact hbinary
    | verb v =>
      refine Or.inr ?_
      simp only [hmode]
      exact (heeded_of_verb h hmode (hrequests v c) htransparent).1
    | off =>
      refine Or.inl ?_
      simp [Reader.read, hmode]
  | sent n => trivial
  | write data => trivial

theorem connected_inv {x : Watched} (h : Connected x) : Inv x := by
  refine ⟨⟨h.connected, h.tcpIpMode⟩, ?_, fun _ => ?_⟩
  · rw [h.reader]
    exact ⟨h.inIAC, h.recCommand⟩
  · rw [h.reader]

theorem transparent {x : Watched} {e : Event} (h : Inv x) (hheeded : Heeded x e) : Transparent asks x e := by
  cases e with
  | byte c => exact (byte_takes h hheeded (fun _ _ => rfl)).transparent
  | sent n => trivial
  | write data => trivial

theorem transparent_all {x : Watched} {e : Event} (h : Inv x) (hheeded : Heeded x e) (hoffer : Unoffered x e) :
    Transparent (fun _ _ => true) x e := by
  cases e with
  | byte c => exact (byte_takes h hheeded (fun v hv => (hoffer v hv).symm)).transparent
  | sent n => trivial
  | write data => trivial

theorem unoffered_of_transparent {x : Watched} {e : Event} (h : Inv x)
    (htransparent : Transparent (fun _ _ => true) x e) : Unoffered x e := by
  cases e with
  | byte c =>
    intro v hmode
    exact (heeded_of_verb h hmode (fun _ => rfl) htransparent).2 rfl
  | sent n => trivial
  | write data => trivial

theorem modemProcessTelnet_run (x : Watched) (data : List Byte) :
    modemProcessTelnet x.session data =
      ((telnet.run x (data.map .byte)).session, (telnet.trace x (data.map .byte)).flatten) := by
  induction data generalizing x with
  | nil => rfl
  | cons c data ih =>
    have hanswer : telnet.answer x (.byte c) = some (modemTelnetByte x.session c).2 := rfl
    have hsession : (telnet.next x (.byte c)).session = (modemTelnetByte x.session c).1 := rfl
    have hrest := ih (telnet.next x (.byte c))
    rw [hsession] at hrest
    simp only [modemProcessTelnet, hrest, List.map_cons, Machine.run_cons, Machine.trace_cons, hanswer,
      Option.toList_some, List.singleton_append, List.flatten_cons]

/-- The stream is decoded byte for byte where the condition holds and nowhere else; with every negotiation answered
where no offer of a known option is made besides. -/
theorem telnet_iff {x : Watched} (h : Connected x) (es : List Event) :
    ((∀ before e after, es = before ++ e :: after → Transparent asks (telnet.run x before) e) ↔
      telnet.Along Heeded x es) ∧
    ((∀ before e after, es = before ++ e :: after →
        Transparent (fun _ _ => true) (telnet.run x before) e) ↔
      telnet.Along (fun x e => Heeded x e ∧ Unoffered x e) x es) ∧
    ∀ (y : Watched) (data : List Byte), modemProcessTelnet y.session data =
      ((telnet.run y (data.map .byte)).session, (telnet.trace y (data.map .byte)).flatten) := by
  have hinv := connected_inv h
  refine ⟨?_, ?_, modemProcessTelnet_run⟩
  · exact telnet.along_iff_steps (fun _ _ hok hi => next_inv hi hok) (fun _ _ hok hi => transparent hi hok)
      (fun _ _ hi ht => heeded_of_transparent hi (fun _ _ hasks => hasks) ht) hinv es
  · have hstep (x : Watched) (e : Event) (hok : Heeded x e ∧ Unoffered x e) (hi : Inv x) : Inv (telnet.next x e) :=
      next_inv hi hok.1
    exact telnet.along_iff_steps hstep (fun _ _ hok hi => transparent_all hi hok.1 hok.2)
      (fun _ _ hi ht => ⟨heeded_of_transparent hi (fun _ _ _ => rfl) ht, unoffered_of_transparent hi ht⟩) hinv es

def dialled : Watched where
  session :=
    { modem :=
        { escapeChar := 43
          plusinc := 0
          cmdpause := 0
          connected := true
          tcpIpMode := true
          line := .empty
          rxData := { capacity := 1024, fifo := fifo8Create 1024 } }
      telClient :=
        { binary := fun _ => false
          echo := fun _ => false
          supressGA := fun _ => false
          inIAC := false
          recCommand := false
          command := 0 } }
  reader := { mode := .text, spent := false, binary := false }

theorem dialled_connected : Connected dialled := ⟨rfl, rfl, rfl, rfl, rfl⟩

/-- Binary is offered, and a 255 sent. -/
theorem telnet_iff_binary :
    dialled.reader.binary = false ∧
      ∀ before e after, ([0xff, 251, 0, 0xff, 0xff].map Event.byte) = before ++ e :: after →
        Transparent asks (telnet.run dialled before) e := by
  refine ⟨rfl, (telnet_iff dialled_connected _).1.mpr ⟨?_, ?_, ?_, ?_, ?_, trivial⟩⟩
  · exact Or.inr fun _ => rfl
  · exact Or.inr fun h => absurd h (by decide)
  · exact Or.inr fun h => absurd h (by decide)
  · exact Or.inr fun _ => rfl
  · exact Or.inr fun _ => rfl

/-- Without binary a doubled 255 gives nothing. -/
theorem doubled_lost :
    ¬∀ x, Connected x → ∀ es before e after, es = before ++ e :: after →
      Transparent asks (telnet.run x before) e := by
  intro h
  have htransparent := h dialled dialled_connected [.byte 0xff, .byte 0xff] [.byte 0xff] (.byte 0xff) [] rfl
  have hpushed := pushed_of_transparent htransparent (by decide)
  revert hpushed
  decide

end PeepeeBox.ModemTelnet
