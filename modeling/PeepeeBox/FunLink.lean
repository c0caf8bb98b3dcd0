import PeepeeBox.CString
import PeepeeBox.TokenSlave

set_option autoImplicit false

/-!
# The fun.link adapter

`char_funlink.c`: a serial device that carries bytes between cabinets over TCP, and answers
for a 1-Wire token on the same line.  The socket layer is a parameter that may answer a call
by anything that has gone before; the capture file and the logs are left out.
-/
namespace PeepeeBox.FunLink
open CString TokenSlave

abbrev Socket := ℕ

def funlinkMaxPeers : ℕ := 15

def funlinkOwMem : ℕ := 128

def funlinkOwResetHz : ℕ := 30000

def funlinkRxSize : ℕ := 8192

def funlinkTxSize : ℕ := 1024

def charReconnectMs : BitVec 32 := 500

inductive Role where
  | auto
  | host
  | join
deriving DecidableEq

inductive LinkState where
  | idle
  | connecting
  | client
  | listening
deriving DecidableEq

/-- What `send` came to: so many bytes taken, nothing for now, or a dead socket. -/
inductive Sent where
  | took (n : ℕ)
  | wouldblock
  | failed
deriving DecidableEq

inductive Received where
  | data (bytes : List Byte)
  | closed
  | wouldblock
  | failed
deriving DecidableEq

/-- What passes between the adapter and its sockets. -/
inductive Event where
  | opened (sock : Socket)
  | joined (sock : Socket)
  | left (sock : Socket)
  | heard (sock : Socket) (bytes : List Byte)
  | spoke (bytes : List Byte)
  | sent (sock : Socket) (bytes : List Byte) (result : Sent)
deriving DecidableEq

/-- The socket layer, each answer a function of everything before it. -/
structure Plat where
  create : List Event → Option Socket
  createServer : List Event → Option Socket
  connect : List Event → Socket → Bool
  /-- `some true` once connected, `some false` while in flight, `none` on an error. -/
  connected : List Event → Socket → Option Bool
  accept : List Event → Socket → Option Socket
  receive : List Event → Socket → Received
  send : List Event → Socket → List Byte → Sent

structure Ow where
  slave : Token
  active : Bool
  last : BitVec 32

structure Adapter where
  /-- The port's baud rate, while the device is attached to one. -/
  baud : Option ℕ
  role : Role
  echo : Bool
  state : LinkState
  nextAttempt : BitVec 32
  lastPoll : BitVec 32
  listener : Option Socket
  /-- The first `peers` places of the array; the others hold no socket. -/
  peer : List Socket
  rx : List Byte
  tx : List Byte
  ow : Ow
  station : BitVec 32
  events : List Event

def funlinkCrc8 (d : List Byte) (crc : Byte) : Byte := tableCrc8 d crc

def licence : List Byte := [
  0x53, 0x65, 0x69, 0x72, 0x69, 0x6E, 0x67, 0x65, 0x72, 0x0D, 0x50, 0x69, 0x63, 0x68, 0x6C,
  0x65, 0x72, 0x0D, 0x48, 0x75, 0x74, 0x6D, 0x61, 0x63, 0x68, 0x65, 0x72, 0x0D, 0x4F, 0x62,
  0x65, 0x72, 0x6D, 0x61, 0x69, 0x72, 0x0D, 0x4C, 0x75, 0x6B, 0x61, 0x72, 0x73, 0x63, 0x68,
  0x0D]

def funlinkRom (station : BitVec 32) : Vector Byte 8 :=
  let rom : Vector Byte 7 := #v[0x91, station.setWidth 8, (station >>> 8).setWidth 8,
    (station >>> 16).setWidth 8, (station >>> 24).setWidth 8, 0x70, 0x5E]
  rom.push (funlinkCrc8 rom.toList 0)

def funlinkMem : Vector Byte 128 :=
  Vector.ofFn fun i => ([0x37, 0x2A, 0x11, 0x00, 0x00] ++ licence).getD i 0

/-- A station number of 0 follows who ended up hosting. -/
def funlinkStation (dev : Adapter) : BitVec 32 :=
  if dev.station = 0 then if dev.state = .listening then 1 else 2 else dev.station

def funlinkOwLoad (dev : Adapter) : Adapter :=
  { dev with
    ow.slave.rom := funlinkRom (funlinkStation dev)
    ow.slave.mem := funlinkMem }

def funlinkOwReset (dev : Adapter) : Adapter := { dev with ow.slave := resetState dev.ow.slave }

def funlinkPage (mem : Vector Byte 128) (lo hi : Byte) : List Byte :=
  funlinkCrc8 [0xF0, lo, hi] 0 ::
    if targetAddress lo hi < funlinkOwMem then
      mem.toList.drop (targetAddress lo hi) ++
        [funlinkCrc8 (mem.toList.drop (targetAddress lo hi)) 0]
    else []

def funlinkOwOnByte (t : Token) (val : Byte) : Token :=
  onByte (funlinkOwMem + 8) funlinkPage t val

def funlinkOwSlot (t : Token) (host : Byte) : Token × Byte :=
  onSlot (funlinkOwMem + 8) funlinkPage t host

def funlinkRxPush : Adapter → List Byte → Adapter
  | dev, [] => dev
  | dev, b :: buf =>
    if dev.rx.length + 1 = funlinkRxSize then dev
    else funlinkRxPush { dev with rx := dev.rx ++ [b] } buf

/-- What the ring holds after a push. -/
def kept : List Byte → List Byte → List Byte
  | rx, [] => rx
  | rx, b :: buf => if rx.length + 1 = funlinkRxSize then rx else kept (rx ++ [b]) buf

theorem funlinkRxPush_eq (dev : Adapter) (buf : List Byte) :
    funlinkRxPush dev buf = { dev with rx := kept dev.rx buf } := by
  induction buf generalizing dev with
  | nil => rfl
  | cons b buf ih =>
    unfold funlinkRxPush kept
    split
    · rfl
    · exact ih _

theorem kept_full {rx : List Byte} (h : rx.length + 1 = funlinkRxSize) (buf : List Byte) :
    kept rx buf = rx := by
  cases buf with
  | nil => rfl
  | cons b buf => exact if_pos h

theorem kept_append (rx buf more : List Byte) : kept (kept rx buf) more = kept rx (buf ++ more) := by
  induction buf generalizing rx with
  | nil => rfl
  | cons b buf ih =>
    by_cases hfull : rx.length + 1 = funlinkRxSize
    · rw [kept_full hfull, kept_full hfull, kept_full hfull]
    · have hstep : ∀ tail, kept rx (b :: tail) = kept (rx ++ [b]) tail := fun _ => if_neg hfull
      rw [List.cons_append, hstep, hstep]
      exact ih _

/-- Whether a byte the guest wrote at tick `now` was the token's. -/
def funlinkOwConsume (now : BitVec 32) (dev : Adapter) (val : Byte) : Adapter × Bool :=
  if val = 0xF0 ∧ ∃ baud ∈ dev.baud, baud ≤ funlinkOwResetHz then
    let dev := funlinkOwReset (funlinkOwLoad dev)
    (funlinkRxPush { dev with ow.active := true, ow.last := now } [0xE0], true)
  else
    let dev :=
      if dev.ow.active ∧ 1000 < now - dev.ow.last then { dev with ow.active := false } else dev
    if ¬ dev.ow.active then (dev, false)
    else if val ≠ 0x00 ∧ val ≠ 0xFF then ({ dev with ow.active := false }, false)
    else
      let r := funlinkOwSlot dev.ow.slave val
      let dev := funlinkRxPush { dev with ow.slave := r.1 } [r.2]
      ({ dev with ow.last := now }, true)

def note (dev : Adapter) (e : Event) : Adapter := { dev with events := dev.events ++ [e] }

/-- An index past the peers drops the last of them; with no peer at all the count goes to -1
    and the store before the array. -/
def funlinkDropPeer (dev : Adapter) (idx : ℕ) : Except Fault Adapter :=
  if dev.peer = [] then .error (.index (-1))
  else
    match dev.peer[idx]? with
    | some sock => .ok { note dev (.left sock) with peer := dev.peer.eraseIdx idx }
    | none => .ok { dev with peer := dev.peer.dropLast }

def funlinkCloseAll (dev : Adapter) : Adapter :=
  { dev with
    events := dev.events ++ dev.peer.reverse.map .left
    peer := []
    listener := none
    state := .idle
    tx := [] }

variable (plat : Plat)

/-- Peers `i - 1` down to 0; a peer that errors is dropped. -/
def sendFrom (buf : List Byte) (except : Option Socket) : ℕ → Adapter → Except Fault Adapter
  | 0, dev => .ok dev
  | i + 1, dev =>
    if dev.peer[i]? = except then sendFrom buf except i dev
    else
      match dev.peer[i]? with
      | none => funlinkDropPeer dev i >>= sendFrom buf except i
      | some sock =>
        let sent := plat.send dev.events sock buf
        let dev := note dev (.sent sock buf sent)
        if sent = .failed then funlinkDropPeer dev i >>= sendFrom buf except i
        else sendFrom buf except i dev

def funlinkSendToPeers (dev : Adapter) (buf : List Byte) (except : Option Socket) :
    Except Fault Adapter :=
  if buf = [] then .ok dev else sendFrom plat buf except dev.peer.length dev

def funlinkFlushTx (dev : Adapter) : Except Fault Adapter :=
  if dev.tx = [] then .ok dev
  else if dev.state = .client ∨ dev.state = .listening then
    (funlinkSendToPeers plat (note dev (.spoke dev.tx)) dev.tx none).map
      fun dev => { dev with tx := [] }
  else .ok { dev with tx := [] }

def funlinkStartListening (dev : Adapter) : Adapter :=
  match plat.createServer dev.events with
  | none => { dev with listener := none }
  | some sock => { note dev (.opened sock) with listener := some sock, state := .listening }

def funlinkStartConnecting (dev : Adapter) : Adapter :=
  match plat.create dev.events with
  | none => dev
  | some sock =>
    let dev := note dev (.opened sock)
    if plat.connect dev.events sock then { dev with peer := [sock], state := .connecting }
    else note dev (.left sock)

/-- `while (dev->peers < FUNLINK_MAX_PEERS)` accept. -/
def acceptFrom (listener : Socket) : ℕ → Adapter → Adapter
  | 0, dev => dev
  | n + 1, dev =>
    match plat.accept dev.events listener with
    | none => dev
    | some sock =>
      acceptFrom listener n { note dev (.joined sock) with peer := dev.peer ++ [sock] }

def funlinkPollState (now : BitVec 32) (dev : Adapter) : Adapter :=
  let attempt := if now ≠ 0 then now else 1
  match dev.state with
  | .idle =>
    if dev.nextAttempt ≠ 0 ∧ now - dev.nextAttempt < charReconnectMs then dev
    else
      let dev := { dev with nextAttempt := attempt }
      if dev.role = .host then funlinkStartListening plat dev else funlinkStartConnecting plat dev
  | .connecting =>
    let connected := dev.peer.head?.bind (plat.connected dev.events)
    if connected = some true then
      { dev with events := dev.events ++ dev.peer.map .joined, state := .client }
    else if connected = some false ∧ now - dev.nextAttempt < charReconnectMs then dev
    else
      let dev : Adapter := { funlinkCloseAll dev with nextAttempt := attempt }
      if dev.role = .auto then funlinkStartListening plat dev else dev
  | .listening =>
    match dev.listener with
    | some sock => acceptFrom plat sock (funlinkMaxPeers - dev.peer.length) dev
    | none => dev
  | .client => dev

/-- Peers `i - 1` down to 0 are drained once each. -/
def receiveFrom (now : BitVec 32) : ℕ → Adapter → Except Fault Adapter
  | 0, dev => .ok dev
  | i + 1, dev =>
    let gone (dev : Adapter) : Except Fault Adapter :=
      funlinkDropPeer dev i >>= fun dev =>
        if dev.state = .client then
          .ok { funlinkCloseAll dev with nextAttempt := if now ≠ 0 then now else 1 }
        else receiveFrom now i dev
    match dev.peer[i]? with
    | none => gone dev
    | some sock =>
      match plat.receive dev.events sock with
      | .data bytes =>
        let dev := funlinkRxPush (note dev (.heard sock bytes)) bytes
        if dev.state = .listening then
          funlinkSendToPeers plat dev bytes (some sock) >>= receiveFrom now i
        else receiveFrom now i dev
      | .wouldblock => receiveFrom now i dev
      | .closed => gone dev
      | .failed => gone dev

def funlinkPoll (now : BitVec 32) (dev : Adapter) : Except Fault Adapter :=
  if now = dev.lastPoll then .ok dev
  else
    let dev := funlinkPollState plat now { dev with lastPoll := now }
    if dev.state = .connecting then .ok dev
    else receiveFrom plat now dev.peer.length dev >>= funlinkFlushTx plat

def funlinkRead (now : BitVec 32) (dev : Adapter) (len : ℕ) :
    Except Fault (Adapter × List Byte) :=
  (funlinkPoll plat now dev).map fun dev =>
    match dev.rx with
    | [] => (dev, [])
    | b :: rx => if len = 0 then (dev, []) else ({ dev with rx := rx }, [b])

def funlinkWriteByte (now : BitVec 32) (dev : Adapter) (b : Byte) : Except Fault Adapter :=
  match funlinkOwConsume now dev b with
  | (dev, true) => .ok dev
  | (dev, false) =>
    (if funlinkTxSize ≤ dev.tx.length then funlinkFlushTx plat dev else .ok dev).map fun dev =>
      let dev := { dev with tx := dev.tx ++ [b] }
      if dev.echo then funlinkRxPush dev [b] else dev

def funlinkWrite (now : BitVec 32) (dev : Adapter) (buf : List Byte) : Except Fault Adapter :=
  buf.foldlM (funlinkWriteByte plat now) dev

def funlinkInit (role : Role) (echo : Bool) (station : BitVec 32) (baud : Option ℕ) : Adapter :=
  funlinkOwReset (funlinkOwLoad
    { baud := baud, role := role, echo := echo, state := .idle, nextAttempt := 0, lastPoll := 0
      listener := none, peer := [], rx := [], tx := [], station := station, events := []
      ow :=
        { active := false, last := 0
          slave :=
            { rom := Vector.replicate 8 0, mem := Vector.replicate 128 0, inbits := 0, nbits := 0
              out := List.replicate (funlinkOwMem + 8) 0, outLen := 0, outPos := 0, state := .cmd
              ta := fun _ => 0, nta := 0 } } })

end PeepeeBox.FunLink
