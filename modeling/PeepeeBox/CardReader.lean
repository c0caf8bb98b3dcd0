import PeepeeBox.ByteFifo
import PeepeeBox.TraceMachine

set_option autoImplicit false

/-!
# The 2008 generation's card reader

`dongle_igo8.c`: a serial reader that pushes APDUs at a card behind it.  The host writes
frames under one keystream, the replies leave under another; logs are left out.
-/
namespace PeepeeBox.CardReader
open ByteFifo HaspRecord TraceMachine

def scRecord : ℕ := 100

def scInMax : ℕ := 192

def scLcgMul : BitVec 32 := 0x08088405

def scLcgSeed : BitVec 32 := 0x01BB253A

structure ScTx where
  n0 : Byte
  n1 : Byte
  n2 : Byte
  n3 : Byte
  half : Bool

def scTxSeed (lo hi : Byte) : ScTx :=
  { n0 := lo &&& 0x0F, n1 := lo >>> 4 &&& 0x0F, n2 := hi &&& 0x0F, n3 := hi >>> 4 &&& 0x0F
    half := false }

def scTxNext (s : ScTx) : ScTx × Byte :=
  if s.half then ({ s with half := false }, s.n0 ||| s.n1 <<< 4)
  else
    let n0 := s.n0 + 1
    let n1 := if 0x0F < n0 then (s.n1 + 1) &&& 0x0F else s.n1
    let n0 := if 0x0F < n0 then n0 &&& 0x0F else n0
    let n3 := s.n3 ^^^ n0
    let n0 := n0 ^^^ n1
    let n1 := n1 ^^^ s.n2
    let n2 := s.n2 ^^^ n3
    ({ n0 := n0, n1 := n1, n2 := n2, n3 := n3, half := true }, n2 ||| n3 <<< 4)

structure ScRx where
  a : Byte
  b : Byte

def scRxSeed (a b : Byte) : ScRx := { a := a, b := b }

def scRxApply (c : ScRx) (x : Byte) : ScRx × Byte :=
  let a := if c.b < 0x1E then 0xE9 else c.b + 0x25
  let b := if 0xAE < a then 0x17 else c.b
  let b' := if a < 0x38 then 0x39 else a + 0x75
  ({ a := if 0x7B < b' then 0xD5 else a, b := b' }, x ^^^ c.a ^^^ b)

structure Sc where
  resp : Fifo8 256
  tx : ScTx
  rx : ScRx
  inBuf : ℕ → Byte
  n : ℕ
  want : ℕ
  record : ℕ → Byte
  nFrames : ℕ

def scLcgNext (x : BitVec 32) : BitVec 32 := x * scLcgMul + 1

def scLcgFrom : BitVec 32 → List Byte → List Byte
  | _, [] => []
  | x, b :: bs => (b ^^^ (scLcgNext x >>> 24).setWidth 8) :: scLcgFrom (scLcgNext x) bs

/-- The record cipher: the high byte of the register, over the whole record. -/
def scLcg (src : List Byte) : List Byte := scLcgFrom scLcgSeed src

def scReplyByte (sc : Sc) (x : Byte) : Sc :=
  let r := scRxApply sc.rx x
  { sc with rx := r.1, resp := fifo8Push sc.resp r.2 }

def scReply (sc : Sc) (p : List Byte) : Sc := p.foldl scReplyByte sc

def scReplyFrame (sc : Sc) (body : List Byte) : Sc :=
  if scInMax - 4 < body.length then sc
  else
    let f := [0x00, 0x00, BitVec.ofNat 8 body.length] ++ body
    scReply sc (f ++ [f.foldl (· ^^^ ·) 0])

def scCard (sc : Sc) (apdu : ℕ → Byte) (len : ℕ) : Sc :=
  if len < 2 then scReplyFrame sc [0x6D, 0x00]
  else if apdu 1 = 0xA4 then scReplyFrame sc (List.replicate 22 0x00 ++ [0x90, 0x00])
  else if apdu 1 = 0x20 then scReplyFrame sc [0x90, 0x00]
  else if apdu 1 = 0xB0 then
    scReplyFrame sc (scLcg ((List.range scRecord).map sc.record) ++ [0x90, 0x00])
  else scReplyFrame sc [0x6D, 0x00]

/-- A complete frame: byte 4 is 00 for a command addressed to the reader. -/
def scFrame (sc : Sc) : Sc :=
  let sc := { sc with nFrames := sc.nFrames + 1 }
  if sc.inBuf 4 = 0x00 then
    let cmd := sc.inBuf 5
    -- command 4 is the one case that answers under a fixed seed
    let sc :=
      { sc with
        rx := if cmd = 0x04 then scRxSeed 0xAB 0xD9 else scRxSeed (sc.inBuf 2) (sc.inBuf 3) }
    if cmd = 0x0A then scReply sc (ascii "PEEPEEBOX") else sc
  else
    let sc := { sc with rx := scRxSeed (sc.inBuf 2) (sc.inBuf 3) }
    let ctrl := sc.inBuf 6
    let len := (sc.inBuf 7).toNat
    if ctrl &&& 0x80 ≠ 0 then scReplyFrame sc [sc.inBuf 8]
    else if 8 + len ≤ scInMax then scCard sc (fun i => sc.inBuf (8 + i)) len
    else sc

def scTake (sc : Sc) (data : Byte) : Sc :=
  let sc := if scInMax ≤ sc.n then { sc with n := 0, want := 0 } else sc
  if sc.n < 2 then
    let buf := Function.update sc.inBuf sc.n data
    { sc with
      inBuf := buf
      tx := if sc.n = 1 then scTxSeed (buf 0) (buf 1) else sc.tx
      n := sc.n + 1 }
  else
    let r := scTxNext sc.tx
    { sc with inBuf := Function.update sc.inBuf sc.n (data ^^^ r.2), tx := r.1, n := sc.n + 1 }

/-- Byte 4 decides the frame kind, and with it how much more to expect. -/
def scLength (sc : Sc) : Sc :=
  if sc.n = 5 then
    let want := if sc.inBuf 4 = 0x00 then 8 else 5 + (sc.inBuf 4).toNat
    if scInMax < want then { sc with n := 0, want := 0 } else { sc with want := want }
  else sc

def scAssemble (sc : Sc) (data : Byte) : Sc := scLength (scTake sc data)

/-- One byte written to the transmit register; answered with the state `sc_frame` is called
    in, when it is. -/
def scWrite (sc : Sc) (data : Byte) : Sc × Option Sc :=
  let sc := scAssemble sc data
  if sc.want ≠ 0 ∧ sc.want ≤ sc.n then ({ scFrame sc with n := 0, want := 0 }, some sc)
  else (sc, none)

/-- A lull on the line drops what the assembler holds. -/
def scGap (sc : Sc) : Sc := { sc with n := 0, want := 0 }

def scWriteToHost (sc : Sc) (room : Bool) : Sc × Option Byte :=
  if room ∧ fifo8NumUsed sc.resp ≠ 0 then
    let r := fifo8Pop sc.resp
    ({ sc with resp := r.1 }, some r.2)
  else (sc, none)

/-- The reader as `sc_init` leaves it, but for the record. -/
def scInit (record : ℕ → Byte) : Sc :=
  { resp := fifo8Create 256, tx := ⟨0, 0, 0, 0, false⟩, rx := scRxSeed 0xAB 0xD9
    inBuf := fun _ => 0, n := 0, want := 0, record := record, nFrames := 0 }

/-- The host's side of the line, with the frames acted on as answers. -/
def reader : Machine Sc Byte Sc := ⟨scWrite⟩

end PeepeeBox.CardReader
