import Mathlib.Data.Int.Notation
import Mathlib.Data.List.Basic
import Mathlib.Logic.Function.Basic
import PeepeeBox.CdonglePictures

set_option autoImplicit false

/-!
# CDONGLE: the 2000 generation's token

The nibble-clocked transport of `cd_write_data` and the answers `cd_prepare` queues.
-/
namespace PeepeeBox.Cdongle
open CdonglePictures

def cdRecord : ℕ := 48

inductive CdState where
  | idle | ready | armed | hs | stream
deriving DecidableEq, Repr

structure Cd where
  active : Bool
  state : CdState
  hist : ℕ → Byte
  nhist : ℕ
  prev1 : Byte
  prev2 : Byte
  last : Byte
  key : Byte
  cmd : Byte
  haveCmd : Bool
  arg : ℕ → Byte
  nargs : ℕ
  pending : Byte
  awaitTrailer : Bool
  claimable : Bool
  nonceRaw : Byte
  tx : ℕ → Byte
  txLen : ℕ
  txBit : ℕ
  attn : ℕ
  picReady : Bool
  refuse : Bool

/-- The attention handshake the library insists on before it will read. -/
def cdAttention : List Byte := [0xDF, 0xEF, 0xBF, 0xCF, 0x9F, 0xEF, 0xBF, 0x8F]

def cdAttnLen : ℕ := cdAttention.length

def cdReset (cd : Cd) : Cd :=
  { cd with
    state := .idle, nhist := 0, key := 0, haveCmd := false, nargs := 0, awaitTrailer := false
    nonceRaw := 0, txLen := 0, txBit := 0, attn := 0, picReady := false, refuse := false }

/-- The five writes `F<lo> C<lo> F<lo> 9<hi> 8<hi>` and the byte they spell. -/
def cdFrame (h : ℕ → Byte) : Option Byte :=
  let lo := h 0 &&& 0x0F
  let hi := h 3 &&& 0x0F
  if h 0 &&& 0xF0 = 0xF0 ∧ h 1 &&& 0xF0 = 0xC0 ∧ h 2 &&& 0xF0 = 0xF0 ∧ h 3 &&& 0xF0 = 0x90 ∧
      h 4 &&& 0xF0 = 0x80 ∧ h 1 &&& 0x0F = lo ∧ h 2 &&& 0x0F = lo ∧ h 4 &&& 0x0F = hi then
    some (hi <<< 4 ||| lo)
  else none

def cdShift (cd : Cd) (val : Byte) : Cd :=
  let cd :=
    if 5 ≤ cd.nhist then
      { cd with hist := fun i => if i < 4 then cd.hist (i + 1) else cd.hist i, nhist := 4 }
    else cd
  { cd with hist := Function.update cd.hist cd.nhist val, nhist := cd.nhist + 1 }

def cdAssemble (cd : Cd) (val : Byte) : Cd × Option Byte :=
  let cd := cdShift cd val
  if cd.nhist < 5 then (cd, none)
  else
    match cdFrame cd.hist with
    | some b => ({ cd with nhist := 0 }, some b)
    | none => (cd, none)

structure CdAnswer where
  cmd : Byte
  arg : List Byte
  reply : List Byte

def cdAnswers : List CdAnswer := [
  ⟨0xA0, [0x86, 0x2E, 0xD0], [0x93, 0x46]⟩,
  ⟨0xA1, [0xA6, 0x4B, 0xD0], [0x4E, 0x05]⟩,
  ⟨0xA3, [0x73, 0x07, 0x09], [0x06, 0x12]⟩,
  ⟨0xA4, [0x76, 0x02, 0x27], [0x43, 0x73]⟩]

def cdPicTransform (which pos : ℕ) (ch : Byte) : ℤ := (cdPicS which pos ch).toNat

def cdPicUsed (which : ℕ) : Byte := [0xFF, 0xFC, 0xFF, 0xFF].getD which 0

def cdPicReply (which : ℕ) (name : ℕ → Byte) : Option (ℕ → Byte) :=
  (List.range 8).foldlM
    (fun r j =>
      let v := cdPicTransform which j (name j)
      if v < 0 then
        if (cdPicUsed which).getLsbD j then none else some (Function.update r j 0)
      else some (Function.update r j (BitVec.ofInt 8 v)))
    (fun _ => 0)

def cdName (cd : Cd) (i : ℕ) : Byte := if 4 + i < cd.nargs then cd.arg (4 + i) else 0x20

def cdWire (r : ℕ → Byte) (i : ℕ) : Byte :=
  if i = 0 then r 0 &&& 0x0F
  else if i = 8 then r 7 &&& 0xF0
  else (r (i - 1) &&& 0xF0) ||| (r i &&& 0x0F)

/-- Replace the queued reply by `n` plain bytes under the key. -/
def cdQueue (cd : Cd) (n : ℕ) (plain : ℕ → Byte) : Cd :=
  { cd with txLen := n, tx := fun i => if i < n then plain i ^^^ cd.key else cd.tx i }

def cdRefuse (cd : Cd) : Cd := { cd with refuse := true, txLen := 0 }

def cdPictureCase (cmd : Byte) (konst : BitVec 16) : Option ℕ :=
  if cmd = 0xAA ∧ konst = 0x038B then some 0
  else if cmd = 0xAB ∧ konst = 0x0A8E then some 1
  else if cmd = 0xAA ∧ konst = 0x1206 then some 2
  else if cmd = 0xAB ∧ konst = 0x7343 then some 3
  else none

/-- Answer a picture-key request; `none` if this one cannot be served. -/
def cdPreparePicture (cd : Cd) : Option Cd :=
  match cdPictureCase cd.cmd ((cd.arg 3).setWidth 16 <<< 8 ||| (cd.arg 2).setWidth 16) with
  | none => some (cdRefuse cd)
  | some which =>
    match cdPicReply which (cdName cd) with
    | none => none
    | some r =>
      -- the stream may be half read: only the first build of a reply rewinds the cursor
      let cd := if cd.picReady then cd else { cd with txBit := 0, picReady := true }
      some (cdQueue cd 9 (cdWire r))

def cdPrepareOther (block : ℕ → Byte) (cd : Cd) : Cd :=
  let cd := { cd with txBit := 0 }
  let args := (List.range 3).map cd.arg
  match cdAnswers.find? fun a => cd.cmd == a.cmd && decide (3 ≤ cd.nargs) && args == a.arg with
  | some a => cdQueue cd 2 fun i => a.reply.getD i 0
  | none =>
    if 0xA0 ≤ cd.cmd ∧ cd.cmd ≤ 0xA7 ∧ 3 ≤ cd.nargs then cdRefuse cd
    else if 0xA0 ≤ cd.cmd ∧ cd.cmd ≤ 0xA7 then cdQueue cd 2 fun _ => 0
    else if cd.cmd = 0xAC ∧ 1 ≤ cd.nargs ∧ cd.arg 0 = 0xCB then cdQueue cd 1 fun _ => 0xC5
    else if cd.cmd = 0xAD ∧ 5 ≤ cd.nargs then
      let off := cd.arg 3
      let len := (cd.arg 4).toNat
      if off ≠ 0 ∨ cdRecord < len ∨ len = 0 then cdRefuse cd else cdQueue cd len block
    else cdQueue cd cdRecord block

def cdPrepare (block : ℕ → Byte) (cd : Cd) : Cd :=
  let cd := { cd with refuse := false }
  if (cd.cmd = 0xAA ∨ cd.cmd = 0xAB) ∧ 4 ≤ cd.nargs then
    match cdPreparePicture cd with
    | some cd' => cd'
    | none => cdPrepareOther block cd
  else cdPrepareOther block cd

def cdTrailer (block : ℕ → Byte) (cd : Cd) (val : Byte) : Cd :=
  let cd := { cd with awaitTrailer := false, claimable := true }
  if val = 0xD0 then
    let key := cd.nonceRaw ^^^ 0xD3
    let cd :=
      { cd with
        key := key, cmd := cd.pending ^^^ key, haveCmd := true, picReady := false, nargs := 0 }
    { cdPrepare block cd with state := .ready }
  else if cd.haveCmd = false then { cd with nonceRaw := cd.pending }
  else
    let cd :=
      if cd.nargs < 12 then
        { cd with
          arg := Function.update cd.arg cd.nargs (cd.pending ^^^ cd.key), nargs := cd.nargs + 1 }
      else cd
    { cdPrepare block cd with state := .ready }

def cdListen (block : ℕ → Byte) (cd : Cd) (val : Byte) : Cd :=
  let cd := if cd.awaitTrailer then cdTrailer block cd val else cd
  match cdAssemble cd val with
  | (cd, some b) => { cd with pending := b, awaitTrailer := true }
  | (cd, none) => cd

def cdArmed (cd : Cd) (val : Byte) : Cd :=
  if val = 0xDF then { cd with state := .hs, attn := 1 } else cd

def cdHandshake (cd : Cd) (val : Byte) : Cd :=
  if cdAttnLen ≤ cd.attn then (if val = 0xCF then { cd with state := .stream } else cd)
  else if val = cdAttention.getD cd.attn 0 then { cd with attn := cd.attn + 1 }
  else if val = 0xDF then { cd with attn := 1 }
  else cd

def cdStream (cd : Cd) (val : Byte) : Cd × Bool :=
  if val ≠ 0xFF ∧ val ≠ 0xCF then
    if cd.txBit < cd.txLen * 8 then
      ({ cd with attn := 0, state := .ready, claimable := true }, true)
    else (cd, false)
  else if val = 0xFF then
    let cd := { cd with txBit := cd.txBit + 1 }
    if cd.txLen * 8 ≤ cd.txBit then
      -- delivered: the next bytes are a fresh nonce and command
      ({ cd with haveCmd := false, picReady := false, nargs := 0, attn := 0, state := .idle },
        false)
    else (cd, false)
  else (cd, false)

def cdSwitch (block : ℕ → Byte) (cd : Cd) (val : Byte) : Cd × Bool :=
  match cd.state with
  | .idle | .ready => (cdListen block cd val, false)
  | .armed => (cdArmed cd val, false)
  | .hs => (cdHandshake cd val, false)
  | .stream => cdStream cd val

/-- A `C?` or `8?` straight after a trailer, with no frame under way, claims the reply. -/
def cdClaim (cd : Cd) (rearmed : Bool) (val : Byte) : Cd :=
  if cd.state = .ready ∧ cd.claimable ∧ rearmed = false ∧
      (val &&& 0xF0 = 0xC0 ∨ val &&& 0xF0 = 0x80) then
    { cd with state := .armed, claimable := false }
  else cd

/-- The bookkeeping every write does: an `F?` closes the claim window. -/
def cdNote (cd : Cd) (val : Byte) : Cd :=
  { cd with
    claimable := if val &&& 0xF0 = 0xF0 then false else cd.claimable
    prev2 := cd.prev1
    prev1 := val
    last := val }

/-- A BF/7F/BF pulse train opens a transaction; anything else goes to the state machine. -/
def cdWriteData (block : ℕ → Byte) (cd : Cd) (val : Byte) : Cd :=
  if cd.prev2 = 0xBF ∧ cd.prev1 = 0x7F ∧ val = 0xBF then
    cdReset { cdNote cd val with active := true }
  else
    let r := cdSwitch block (cdNote cd val) val
    cdClaim r.1 r.2 val

/-- What we drive on ACK right now. -/
def cdAck (cd : Cd) : Bool :=
  if cd.state = .stream then
    if cd.txBit < cd.txLen * 8 then (cd.tx (cd.txBit >>> 3)).getLsbD (7 - cd.txBit % 8)
    else false
  else if cd.state = .ready then true
  else if cd.refuse then true
  else cd.last &&& 0x20 ≠ 0

end PeepeeBox.Cdongle
