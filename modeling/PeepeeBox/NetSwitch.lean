import Mathlib.Data.Int.Notation
import PeepeeBox.Bytes
import PeepeeBox.SlotRing

set_option autoImplicit false

/-!
# The network switch

`net_switch.c` with the card's packet queues of `network.c`.  A buffer is the list of the bytes
allocated for it.  Frames that come in while the same thread transmits cannot be, so
`during_tx` and its queue are left out, as are the logs.
-/
namespace PeepeeBox.NetSwitch
open SlotRing

def maxFrame : ℕ := 1518

def queueLen : ℕ := 16

def hashLen : ℕ := 32

inductive Fault where
  /-- More is written than a buffer holds. -/
  | overflow
  /-- A size reaches past the end of a buffer. -/
  | size
deriving DecidableEq

structure Packet where
  data : List Byte
  len : ℤ

/-- The bytes of a packet that count. -/
def Packet.frame (p : Packet) : List Byte := p.data.take p.len.toNat

abbrev Queue := SlotRing.Ring Packet

def queuePut (q : Queue) (data : List Byte) : Queue :=
  if data.length = 0 ∨ maxFrame < data.length ∨ full queueLen q then q
  else
    let pkt := q.slots q.head
    (put queueLen q { data := data ++ pkt.data.drop data.length, len := data.length }).1

def queuePutSwap (q : Queue) (src : Packet) : Queue × Packet :=
  if src.len = 0 ∨ maxFrame < src.len ∨ full queueLen q then (q, src) else put queueLen q src

def queueGetSwap (q : Queue) (dst : Packet) : Option (Queue × Packet) :=
  if empty q then none else some (get queueLen q dst)

def queueMove (dst src : Queue) : Option (Queue × Queue) :=
  if empty src then none
  else if full queueLen dst then none
  else
    let (dst', old) := put queueLen dst (src.slots src.tail)
    some (dst', (get queueLen src old).1)

structure Peer where
  addr : BitVec 32
  port : BitVec 16
deriving DecidableEq

structure Card where
  rx : Queue
  txVm : Queue
  txHost : Queue
  queued : Packet

structure Switch where
  mac : List Byte
  promisc : Bool
  /-- The secret's hash when there is a secret. -/
  secretHash : Option (List Byte)
  /-- The one peer of the remote switch. -/
  remote : Option Peer
  linkDown : Bool
  pkt : Packet
  pktTx : ℕ → Packet
  card : Card

/-- What `recvfrom` returns: a negative value, or a datagram's length. -/
inductive Received where
  | error (n : ℕ)
  | datagram (bytes : List Byte)

/-- What is longer than `max` is cut off. -/
def recvfrom (buf : List Byte) (max : ℕ) : Received → Except Fault (List Byte × ℤ)
  | .error n => .ok (buf, Int.negSucc n)
  | .datagram bytes =>
    let got := bytes.take max
    if buf.length < got.length then .error .overflow else .ok (got ++ buf.drop got.length, got.length)

/-- A `ssize_t` where a `size_t` is asked for. -/
def toSize (n : ℤ) : ℕ := (n % 2 ^ 64).toNat

def dest (data : List Byte) : List Byte := data.take 6

def source (data : List Byte) : List Byte := (data.drop 6).take 6

def group (data : List Byte) : Bool := (data.getD 0 0).getLsbD 0

def foreign (s : Switch) (from_ : Peer) (len : ℤ) : Bool :=
  match s.remote with
  | none => false
  | some peer => decide (len < 0) || decide (from_ ≠ peer)

def deliver (s : Switch) (len : ℤ) : Switch :=
  if source s.pkt.data = s.mac then s
  else if s.linkDown = false ∧ (s.promisc = true ∨ group s.pkt.data = true ∨ dest s.pkt.data = s.mac) then
    let (rx, pkt) := queuePutSwap s.card.rx { s.pkt with len := len }
    { s with card := { s.card with rx := rx }, pkt := pkt }
  else s

def receive (s : Switch) (from_ : Peer) (r : Received) : Except Fault Switch :=
  match s.secretHash with
  | some hash => do
    let (data, len) ← recvfrom s.pkt.data (maxFrame + hashLen) r
    let s := { s with pkt := { s.pkt with data := data } }
    if foreign s from_ len then .ok s
    -- a signed length against an unsigned sum
    else if toSize len < hashLen + 12 then .ok s
    else if data.take hashLen ≠ hash then .ok s
    else
      let size := toSize (len - hashLen)
      if data.length < hashLen + size then .error .size
      else
        let moved := (data.drop hashLen).take size ++ data.drop size
        .ok (deliver { s with pkt := { data := moved, len := len - hashLen } } (len - hashLen))
  | none => do
    let (data, len) ← recvfrom s.pkt.data maxFrame r
    let s := { s with pkt := { s.pkt with data := data } }
    if foreign s from_ len then .ok s
    else if len < 12 then .ok s
    else .ok (deliver s len)

/-- A frame as it is sent through each of the host interfaces. -/
def datagram (s : Switch) (frame : List Byte) : List Byte :=
  match s.secretHash with
  | some hash => hash ++ frame
  | none => frame

/-- `network_tx_popv` into the buffers from `i` on, with the number of packets. -/
def popv (q : Queue) (v : ℕ → Packet) (i : ℕ) : ℕ → Queue × (ℕ → Packet) × ℕ
  | 0 => (q, v, i)
  | n + 1 =>
    match queueGetSwap q (v i) with
    | none => (q, v, i)
    | some (q, pkt) => popv q (Function.update v i pkt) (i + 1) n

def transmit (s : Switch) : Switch × List (List Byte) :=
  let (txHost, v, packets) := popv s.card.txHost s.pktTx 0 queueLen
  ({ s with card := { s.card with txHost := txHost }, pktTx := v },
    if s.linkDown then [] else (List.range packets).map fun i => datagram s (v i).frame)

def networkTx (s : Switch) (frame : List Byte) : Switch :=
  { s with card := { s.card with txVm := queuePut s.card.txVm frame } }

/-- A round of the transmission in `network_rx_queue`. -/
def move (s : Switch) : Switch :=
  match queueMove s.card.txHost s.card.txVm with
  | none => s
  | some (txHost, txVm) => { s with card := { s.card with txHost := txHost, txVm := txVm } }

def rxQueue (s : Switch) (taken : Bool) : Switch :=
  let s :=
    if s.card.queued.len = 0 then
      match queueGetSwap s.card.rx s.card.queued with
      | none => s
      | some (rx, queued) => { s with card := { s.card with rx := rx, queued := queued } }
    else s
  if taken then { s with card := { s.card with queued := { s.card.queued with len := 0 } } } else s

def blank : Packet := { data := List.replicate maxFrame 0, len := 0 }

def emptyQueue : Queue := { slots := fun _ => blank, head := 0, tail := 0 }

def init (mac : List Byte) (promisc : Bool) (secretHash : Option (List Byte)) (remote : Option Peer) : Switch where
  mac := mac
  promisc := promisc
  secretHash := secretHash
  remote := remote
  linkDown := false
  pkt := blank
  pktTx := fun _ => blank
  card := { rx := emptyQueue, txVm := emptyQueue, txHost := emptyQueue, queued := blank }

end PeepeeBox.NetSwitch
