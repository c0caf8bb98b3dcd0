import Mathlib
import PeepeeBox.ByteFifo

set_option autoImplicit false

/-!
# The network modem in packet mode

`net_modem.c`: the bytes the DTE writes are collected in a line until an END, and what the network delivers is queued
for the DTE with the two special bytes escaped.
-/
namespace PeepeeBox.NetModem
open ByteFifo

def slipEnd : Byte := 0xC0
def slipEsc : Byte := 0xDB
def escEnd : Byte := 0xDC
def escEsc : Byte := 0xDD

def netMaxFrame : ℕ := 1518

def serLineSize : ℕ := 0x10000

/-- `tx_pkt_ser_line` as far as `tx_count`. -/
structure SerLine where
  bytes : List Byte
  fits : bytes.length ≤ serLineSize

def SerLine.empty : SerLine := ⟨[], Nat.zero_le _⟩

structure RxQueue where
  capacity : ℕ
  fifo : Fifo8 capacity

structure Modem where
  /-- `reg[MREG_ESCAPE_CHAR]`. -/
  escapeChar : Byte
  plusinc : ℕ
  cmdpause : ℕ
  connected : Bool
  tcpIpMode : Bool
  line : SerLine
  rxData : RxQueue

inductive Fault where
  /-- A byte past the end of the packet is read. -/
  | overread
  /-- More is popped into a temporary buffer than it holds. -/
  | overflow
  /-- The queue never grows large enough. -/
  | endless
deriving DecidableEq, Repr

/-- A byte enters `processed_tx_packet`, which holds `len` of them. -/
def receive (len : ℕ) (received : List Byte) (c : Byte) : List Byte :=
  if received.length < len then received ++ [c] else received

def unescape (c : Byte) : Byte :=
  if c = escEnd then slipEnd else if c = escEsc then slipEsc else c

/-- The loop of `process_tx_packet`, up to the label. -/
def processBytes (len : ℕ) : List Byte → List Byte → Except Fault (List Byte)
  | received, [] => .ok received
  | received, [c] =>
    if c = slipEnd then .ok received
    else if c = slipEsc then .error .overread
    else .ok (receive len received c)
  | received, c :: d :: rest =>
    if c = slipEnd then
      if received ≠ [] then .ok received else processBytes len received (d :: rest)
    else if c = slipEsc then processBytes len (receive len received (unescape d)) rest
    else processBytes len (receive len received c) (d :: rest)

/-- The 14 bytes in front of what goes to `network_tx`. -/
def etherHeader : List Byte := List.replicate 6 0xFF ++ List.replicate 6 0xFC ++ [0x08, 0x00]

/-- What is handed to `network_tx`. -/
def processTxPacket (p : List Byte) : Except Fault (List (List Byte)) := do
  let received ← processBytes p.length [] p
  return if received ≠ [] then [etherHeader ++ received] else []

def countEscape (dev : Modem) (data : Byte) : Modem :=
  if dev.escapeChar ≤ 127 then
    if 1 ≤ dev.plusinc ∧ dev.plusinc ≤ 3 ∧ dev.escapeChar = data then { dev with plusinc := dev.plusinc + 1 }
    else { dev with plusinc := 0 }
  else dev

def modemDataModeProcessByte (dev : Modem) (data : Byte) : Except Fault (Modem × List (List Byte)) :=
  let dev := { countEscape dev data with cmdpause := 0 }
  if h : dev.line.bytes.length < serLineSize ∧ dev.connected = true then
    let line : SerLine := ⟨dev.line.bytes ++ [data], by rw [List.length_append]; exact h.1⟩
    if data = slipEnd ∧ dev.tcpIpMode = false then do
      let sent ← processTxPacket line.bytes
      return ({ dev with line := .empty }, sent)
    else .ok ({ dev with line := line }, [])
  else .ok (dev, [])

/-- Byte after byte, with the frames in the order sent. -/
def dataRun : Modem → List Byte → Except Fault (Modem × List (List Byte))
  | dev, [] => .ok (dev, [])
  | dev, b :: bs => do
    let (dev, sent) ← modemDataModeProcessByte dev b
    let (dev, rest) ← dataRun dev bs
    return (dev, sent ++ rest)

/-- The capacity is 32 bits wide; an empty queue keeps its own. -/
def fifo8Resize2x (q : RxQueue) : Except Fault RxQueue :=
  let size := q.capacity * 2 % 2 ^ 32
  let used := q.fifo.num
  if used = 0 then .ok q
  else if size < used then .error .overflow
  else
    let fifo := fifo8PushAll (fifo8Create size) (newest q.fifo used)
    .ok ⟨size, { fifo with asserted := fifo.asserted && q.fifo.asserted }⟩

def fifo8NumFree (q : RxQueue) : ℕ := q.capacity - q.fifo.num

/-- `while (io_len >= fifo8_num_free / 2) fifo8_resize_2x`, for so many rounds. -/
def grow (ioLen : ℕ) : ℕ → RxQueue → Except Fault RxQueue
  | 0, _ => .error .endless
  | fuel + 1, q =>
    if fifo8NumFree q / 2 ≤ ioLen then do
      let q ← fifo8Resize2x q
      grow ioLen fuel q
    else .ok q

def queueByte {capacity : ℕ} (f : Fifo8 capacity) (b : Byte) : Fifo8 capacity :=
  if b = slipEnd then fifo8Push (fifo8Push f slipEsc) escEnd
  else if b = slipEsc then fifo8Push (fifo8Push f slipEsc) escEsc
  else fifo8Push f b

/-- An Ethernet frame of `buf.length` bytes; answered with 1 when it is queued. -/
def modemRx (dev : Modem) (buf : List Byte) : Except Fault (Modem × ℕ) :=
  if dev.tcpIpMode then .ok (dev, 0)
  else if dev.connected = false then .ok (dev, 0)
  else do
    -- a capacity of 32 bits is doubled at most 32 times before it is zero
    let q ← grow buf.length 33 dev.rxData
    if buf.length < 14 then throw .overread
    else if ¬(buf.getD 12 0 = 0x08 ∧ buf.getD 13 0 = 0x00) then return ({ dev with rxData := q }, 0)
    else
      let fifo := fifo8Push ((buf.drop 14).foldl queueByte (fifo8Push q.fifo slipEnd)) slipEnd
      return ({ dev with rxData := ⟨q.capacity, fifo⟩ }, 1)

end PeepeeBox.NetModem
