import PeepeeBox.BurstCollector
import PeepeeBox.Cdongle
import PeepeeBox.HaspRecord
import PeepeeBox.KeyedRound
import PeepeeBox.Microwire
import PeepeeBox.NibbleLink
import PeepeeBox.TraceMachine

set_option autoImplicit false

/-!
# The dongle on the port

`pp_t` and its accessors: every DATA write is seen by all the protocol machines, and the
STATUS line is driven by one of them in a fixed order.  The LPT passthrough is off, as it
is unless the host environment asks for it; the traces and logs are left out.
-/
namespace PeepeeBox.DongleDevice
open BurstCollector Cdongle HaspRecord KeyedRound Microwire NibbleLink TraceMachine

structure Hs where
  ramping : Bool
  rampPrev : Byte
  sweep : ℕ
  fold : ℕ → Byte
  foldNext : ℕ

structure Pp where
  /-- The port's DATA latch, if the device has a port. -/
  lpt : Option Byte
  link : Link
  nRs : ℕ
  hd : Hd
  hs : Hs
  hb : Hb
  t : Keyed
  cd : Cd

def hdSignature : BitVec 64 := 0xCEFF0AFFCECE0A0A

def hsSweepW : List Byte := [
  0x78, 0x6A, 0x56, 0x26, 0x02, 0x18, 0x6E, 0x3C, 0x2E, 0x3A, 0x72, 0x52,
  0x0C, 0x64, 0x70, 0x74, 0x2E, 0x24, 0x78, 0x36, 0x22, 0x0C, 0x1C, 0x26,
  0x78, 0x28, 0x68, 0x54, 0x40, 0x0C, 0x70, 0x52, 0x0C, 0x46, 0x44, 0x2E,
  0x6A, 0x68, 0x70, 0x78, 0x6A, 0x7E, 0x08, 0x40, 0x1C, 0x1C, 0x1A, 0x16,
  0x12, 0x50, 0x36, 0x0C, 0x58, 0x2C, 0x6C, 0x30, 0x04, 0x3C, 0x4E, 0x12,
  0x20, 0x14, 0x6A, 0x44]

/-- The bit step `n` of the sweep is answered with. -/
def sweepAnswer (part : Part) (hb : Hb) (n : ℕ) : Bool :=
  let addr := (hsSweepW.getD n 0 >>> 1).toNat
  if part.hbGate ∧ hb.mode = .foreign then true
  else if part.hbGate ∧ hb.mode = .ident then hdSignature.getLsbD addr
  else part.hsTable.getLsbD (63 - addr)

def sweepFold (hs : Hs) (n : ℕ) (bit : Bool) : Hs :=
  let hs := if n ≠ hs.foldNext then { hs with fold := memset hs.fold 0 8 0, foldNext := 0 } else hs
  if n < 64 then
    { hs with
      fold := Function.update hs.fold (n >>> 3)
        (hs.fold (n >>> 3) <<< 1 ||| (BitVec.ofBool bit).setWidth 8)
      foldNext := if n = 63 then 0 else n + 1 }
  else hs

def hsSweepBit (part : Part) (hb : Hb) (hs : Hs) (n : ℕ) : Hs × Bool :=
  let bit := sweepAnswer part hb n
  (sweepFold hs n bit, bit)

/-- DATA bits 1 to 6. -/
def sessionAddr (w : Byte) : ℕ := (w >>> 1 &&& 0x3F).toNat

def signatureBit (w : Byte) : Bool := hdSignature.getLsbD (sessionAddr w)

/-- Identity ramp, sweep and liveness probe, told apart by the last DATA value `w`. -/
def sessionBit (part : Part) (hb : Hb) (hs : Hs) (w : Byte) : Hs × Bool :=
  let sw := if part.tSessHi then w &&& 0x7F else w
  if part.tSynthIdent ≠ 0 then
    ({ hs with ramping := false, sweep := 0 },
      decide (sessionAddr w % 3 = 0) != decide (sessionAddr w = part.tSynthIdent))
  else if hs.ramping ∧ w = hs.rampPrev + 2 then
    ({ hs with rampPrev := w, sweep := 0 }, signatureBit w)
  else if w = 0x00 ∨ w = 0x80 then
    ({ hs with ramping := true, rampPrev := w, sweep := 0 }, signatureBit w)
  else if hs.sweep < 64 ∧ sw = hsSweepW.getD hs.sweep 0 then
    let r := hsSweepBit part hb hs hs.sweep
    ({ r.1 with sweep := hs.sweep + 1, ramping := false }, r.2)
  else if sw = hsSweepW.getD 0 0 then
    let r := hsSweepBit part hb hs 0
    ({ r.1 with sweep := 1, ramping := false }, r.2)
  else if sw = 0x1E then ({ hs with ramping := false, sweep := 0 }, true)
  else ({ hs with ramping := false, sweep := 0 }, signatureBit w)

/-- STATUS bit 5. -/
def hdDo (bit : Bool) : Byte := if bit then 0x20 else 0x00

def hdSees (part : Part) (val : Byte) : Bool :=
  !part.tSessHi || decide (val &&& 0x80 = 0) || decide (part.tSynthIdent ≠ 0) ||
    decide (val &&& 0x1C = 0x1C)

def haspWrite (part : Part) (dev : Pp) (val : Byte) : Pp :=
  { dev with
    hb := if part.hbGate then hbData part.hbPw dev.hb val else dev.hb
    t := if part.tKey ≠ 0 then tData part dev.t val else dev.t
    hd := if hdSees part val then hdWriteData part.hdAbits dev.hd val else dev.hd }

def ppWriteData (part : Part) (dev : Pp) (val : Byte) : Pp :=
  let dev := if part.hdProbe then haspWrite part dev val else dev
  { dev with
    cd := cdWriteData dev.link.block dev.cd val
    link := ppAckEdge dev.link val }

def ppWriteCtrl (dev : Pp) (val : Byte) : Pp :=
  { dev with link := NibbleLink.ppWriteCtrl dev.lpt dev.link val }

def ppStrobe (dev : Pp) (old val : Byte) : Pp :=
  { dev with link := NibbleLink.ppStrobe dev.lpt dev.link old val }

def haspStatus (part : Part) (dev : Pp) : Pp × Byte :=
  let rq := tReadQuery part dev.t
  let dev := { dev with t := { rq.1 with nrecent := 0 } }
  match rq.2 with
  | some ans => ({ dev with hd := { dev.hd with ph := .idle, n := 0 } }, hdDo ans)
  | none =>
    if dev.t.pending then
      -- one read consumes the answer, unless the release repeats its reads
      ({ dev with t := { dev.t with pending := part.tSessHi } }, hdDo dev.t.ans)
    else if dev.hd.ph = .read then (dev, hdDo dev.hd.dout)
    else
      let r := sessionBit part dev.hb dev.hs dev.link.lastData
      ({ dev with hd := { dev.hd with ph := .idle, n := 0 }, hs := r.1 },
        hdDo (dev.hd.ready || r.2))

def ppReadStatus (part : Part) (dev : Pp) : Pp × Byte :=
  if part.hdProbe then haspStatus part dev
  else if dev.cd.active then (dev, if cdAck dev.cd then 0x40 else 0x00)
  else
    let dev := match dev.lpt with
      | some dat => { dev with link := ppAckEdge dev.link dat }
      | none => dev
    if part.ngSweep ∧ dev.nRs = 1 then (dev, part.ngVal)
    else (dev, ppStatus dev.link)

section Accessors

variable (part : Part) (dev : Pp) (val : Byte)

@[simp] theorem ppWriteData_cd :
    (ppWriteData part dev val).cd = cdWriteData dev.link.block dev.cd val := by
  rw [ppWriteData]
  split_ifs <;> rfl

@[simp] theorem ppWriteData_link :
    (ppWriteData part dev val).link = ppAckEdge dev.link val := by
  rw [ppWriteData]
  split_ifs <;> rfl

@[simp] theorem ppWriteData_hs : (ppWriteData part dev val).hs = dev.hs := by
  rw [ppWriteData]
  split_ifs <;> rfl

@[simp] theorem ppWriteData_lpt : (ppWriteData part dev val).lpt = dev.lpt := by
  rw [ppWriteData]
  split_ifs <;> rfl

@[simp] theorem ppWriteData_nRs : (ppWriteData part dev val).nRs = dev.nRs := by
  rw [ppWriteData]
  split_ifs <;> rfl

theorem ppWriteData_hasp (hp : part.hdProbe = true) :
    (ppWriteData part dev val).hb = (haspWrite part dev val).hb ∧
      (ppWriteData part dev val).t = (haspWrite part dev val).t ∧
      (ppWriteData part dev val).hd = (haspWrite part dev val).hd := by
  rw [ppWriteData, if_pos hp]
  exact ⟨rfl, rfl, rfl⟩

theorem ppWriteData_bare (hp : part.hdProbe = false) :
    (ppWriteData part dev val).hb = dev.hb ∧ (ppWriteData part dev val).t = dev.t ∧
      (ppWriteData part dev val).hd = dev.hd := by
  rw [ppWriteData, hp]
  exact ⟨rfl, rfl, rfl⟩

theorem haspStatus_rest :
    (haspStatus part dev).1.cd = dev.cd ∧ (haspStatus part dev).1.hb = dev.hb ∧
      (haspStatus part dev).1.link = dev.link ∧ (haspStatus part dev).1.lpt = dev.lpt ∧
      (haspStatus part dev).1.nRs = dev.nRs := by
  rw [haspStatus]
  dsimp only
  split
  · exact ⟨rfl, rfl, rfl, rfl, rfl⟩
  · split_ifs
    all_goals exact ⟨rfl, rfl, rfl, rfl, rfl⟩

def pollLink (dev : Pp) : Link :=
  match dev.lpt with
  | some dat => ppAckEdge dev.link dat
  | none => dev.link

theorem ppReadStatus_hasp (hp : part.hdProbe = true) :
    ppReadStatus part dev = haspStatus part dev := by
  rw [ppReadStatus, if_pos hp]

theorem ppReadStatus_token (hp : part.hdProbe = false) (ha : dev.cd.active = true) :
    ppReadStatus part dev = (dev, if cdAck dev.cd then 0x40 else 0x00) := by
  rw [ppReadStatus, hp, ha]
  rfl

theorem ppReadStatus_queue (hp : part.hdProbe = false) (ha : dev.cd.active = false) :
    ppReadStatus part dev =
      ({ dev with link := pollLink dev },
        if part.ngSweep = true ∧ dev.nRs = 1 then part.ngVal else ppStatus (pollLink dev)) := by
  rw [ppReadStatus, hp, ha, pollLink]
  cases hl : dev.lpt with
  | none =>
    simp only [Bool.false_eq_true, if_false]
    split_ifs <;> rw [← hl]
  | some dat =>
    simp only [Bool.false_eq_true, if_false]
    split_ifs <;> rw [← hl]

theorem ppReadStatus_rest :
    (ppReadStatus part dev).1.cd = dev.cd ∧ (ppReadStatus part dev).1.hb = dev.hb ∧
      (ppReadStatus part dev).1.lpt = dev.lpt ∧ (ppReadStatus part dev).1.nRs = dev.nRs := by
  cases hp : part.hdProbe with
  | true =>
    rw [ppReadStatus_hasp part dev hp]
    obtain ⟨hc, hb, -, hl, hn⟩ := haspStatus_rest part dev
    exact ⟨hc, hb, hl, hn⟩
  | false =>
    cases ha : dev.cd.active with
    | true =>
      rw [ppReadStatus_token part dev hp ha]
      exact ⟨rfl, rfl, rfl, rfl⟩
    | false =>
      rw [ppReadStatus_queue part dev hp ha]
      exact ⟨rfl, rfl, rfl, rfl⟩

theorem ppAckEdge_block (l : Link) (cur : Byte) : (ppAckEdge l cur).block = l.block := by
  rw [ppAckEdge]
  dsimp only
  split_ifs <;> rfl

theorem ppReadStatus_block : (ppReadStatus part dev).1.link.block = dev.link.block := by
  cases hp : part.hdProbe with
  | true =>
    rw [ppReadStatus_hasp part dev hp, (haspStatus_rest part dev).2.2.1]
  | false =>
    cases ha : dev.cd.active with
    | true => rw [ppReadStatus_token part dev hp ha]
    | false =>
      rw [ppReadStatus_queue part dev hp ha]
      change (pollLink dev).block = _
      rw [pollLink]
      split
      · exact ppAckEdge_block dev.link _
      · rfl

end Accessors

inductive Op where
  | data (val : Byte)
  | ctrl (val : Byte)
  | strobe (old val : Byte)
  | status
  /-- The port's latch moves without a callback, as in bidirectional input mode. -/
  | latch (val : Byte)
deriving DecidableEq, Repr

/-- The DATA value an operation writes. -/
def written : Op → Option Byte
  | .data val => some val
  | _ => none

/-- A DATA write reaches the device first and the port's latch after it. -/
def devStep (part : Part) (dev : Pp) : Op → Pp × Option Byte
  | .data val =>
    let dev' := ppWriteData part dev val
    ({ dev' with lpt := dev'.lpt.map fun _ => val }, none)
  | .ctrl val => (ppWriteCtrl dev val, none)
  | .strobe old val => (ppStrobe dev old val, none)
  | .status => let r := ppReadStatus part dev; (r.1, some r.2)
  | .latch val => ({ dev with lpt := dev.lpt.map fun _ => val }, none)

def device (part : Part) : Machine Pp Op Byte := ⟨devStep part⟩

/-- What `pp_init` settles on before it fills the device: the banner, cut to the record's
    thirty characters, and the options. -/
structure Config where
  banner : List Byte
  hdOpt : ℤ
  ngSweep : Bool
  ngVal : Byte
  lpt : Option Byte

/-- Detection left to the image's banner, and no port behind the device. -/
def detected (banner : String) : Config :=
  { banner := ascii banner, hdOpt := -1, ngSweep := false, ngVal := 0, lpt := none }

def ppDwords : List (BitVec 32) := [
  0x00000000, 0x0000038B, 0x000181CD, 0x0001D760,
  0x00029B92, 0x0001287E, 0x0000089D, 0xBAE8A135]

def initBlock (banner : List Byte) : ℕ → Byte :=
  let rec0 := (List.range 8).foldl
    (fun blk n =>
      let v := ppDwords.getD n 0
      memcpy blk (16 + n * 4)
        [v.setWidth 8, (v >>> 8).setWidth 8, (v >>> 16).setWidth 8, (v >>> 24).setWidth 8])
    fun _ => 0
  Function.update (memcpy rec0 0 banner) banner.length 0

def probes (cfg : Config) : Bool :=
  if cfg.hdOpt < 0 then (hdReleaseOpt cfg.banner).isSome else cfg.hdOpt ≠ 0

def releasePart (row : HdKey) (cfg : Config) : Part :=
  { hdProbe := true
    hdAbits := if row.synthIdent ≠ 0 then 8 else 6
    hsTable := hsSweepTable row.pass1
    hbGate := row.shape ≠ .r2001
    hbPw := (hdPass2 row.pass1).setWidth 32 <<< 16 ||| row.pass1.setWidth 32
    tKey := row.tkey
    tInit := row.tinit
    tSessHi := row.sessHi
    tSynthIdent := row.synthIdent
    ngSweep := cfg.ngSweep
    ngVal := cfg.ngVal }

def barePart (cfg : Config) : Part :=
  { hdProbe := false, hdAbits := 6, hsTable := 0, hbGate := false, hbPw := 0, tKey := 0
    tInit := 0, tSessHi := false, tSynthIdent := 0, ngSweep := cfg.ngSweep, ngVal := cfg.ngVal }

def initPart (cfg : Config) : Part :=
  if probes cfg then releasePart (hdRelease cfg.banner) cfg else barePart cfg

def initLink (banner : List Byte) : Link :=
  { inNib := 0, inHave := false, lastData := 0, lastCtrl := 0, cmd := fun _ => 0, cmdLen := 0
    haveStrobeHook := false, out := fun _ => 0, outLen := 0, outPos := 0, busy := false
    block := initBlock banner }

def initCd : Cd :=
  { active := false, state := .idle, hist := fun _ => 0, nhist := 0, prev1 := 0, prev2 := 0
    last := 0, key := 0, cmd := 0, haveCmd := false, arg := fun _ => 0, nargs := 0, pending := 0
    awaitTrailer := false, claimable := false, nonceRaw := 0, tx := fun _ => 0, txLen := 0
    txBit := 0, attn := 0, picReady := false, refuse := false }

def initHd (mem : ℕ → BitVec 16) : Hd :=
  { sk := false, ph := .idle, n := 0, op := 0, addr := 0, sr := 0, dout := false, wen := false
    ready := false, mem := mem }

def initHs : Hs :=
  { ramping := false, rampPrev := 0, sweep := 0, fold := fun _ => 0, foldNext := 0 }

def initKeyed (init : BitVec 16) : Keyed :=
  { holdVal := 0, cur := init.setWidth 32, last := 0, ans := false, pending := false
    recent := fun _ => 0, nrecent := 0, modeclk := 0, mode := 0, qn := 0
    modeRounds := fun _ => 0 }

/-- The device as `pp_init` hands it over. -/
def ppInit (cfg : Config) : Pp :=
  { lpt := cfg.lpt
    link := initLink cfg.banner
    nRs := 0
    hd := initHd (if probes cfg then hdLoad cfg.banner else fun _ => 0)
    hs := initHs
    hb :=
      { prev := 0, n := if probes cfg then -1 else 0, win := fun _ => 0
        mode := if probes cfg then .sweep else .other }
    t := initKeyed (initPart cfg).tInit
    cd := initCd }

end PeepeeBox.DongleDevice
