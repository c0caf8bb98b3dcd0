import Mathlib.Data.Int.Notation
import PeepeeBox.Fat16

set_option autoImplicit false

/-!
# `ppfix`

The repair of an image's CopyControl layout.  Input and output do not fail, except that a read stops
where the image ends; what the program says in its window is left out.
-/
namespace PeepeeBox.Ppfix
open Fat16 HostFile

def shiftBytes : Byte → List Byte → List Byte × Byte
  | cf, [] => ([], cf)
  | cf, b :: bs =>
    let r := shiftBytes (b &&& 1) bs
    ((cf <<< 7 ||| b >>> 1) :: r.1, r.2)

def lfsrPass (reg : List Byte) : List Byte :=
  let (reg, cf) := shiftBytes 0 reg
  let last := reg.getD 7 0
  let t := cf <<< 7 ||| last >>> 1
  let cf := last &&& 1
  let al := cf <<< 7 ||| t >>> 1
  let al := al ^^^ last
  let al := al >>> 1 ||| (al &&& 1) <<< 7
  reg.set 0 (reg.getD 0 0 ||| al &&& 0x80)

def lfsrStep (reg : List Byte) : List Byte := lfsrPass (lfsrPass (lfsrPass (lfsrPass reg)))

def lfsrSteps : ℕ → List Byte → List Byte
  | 0, reg => reg
  | n + 1, reg => lfsrSteps n (lfsrStep reg)

def unmask : List Byte → List Byte → List Byte × List Byte
  | [], reg => ([], reg)
  | c :: cs, reg =>
    let r := unmask cs (lfsrStep reg)
    ((c ^^^ (lfsrStep reg).getD 0 0) :: r.1, r.2)

def transpose (src : List Byte) (j : ℕ) : Byte :=
  (List.range 8).foldl (fun v i => v ||| (src.getD i 0 >>> j &&& 1) <<< i) 0

def licenceBlocks (ct : List Byte) : ℕ → ℕ → List Byte → Byte → List Byte
  | 0, _, _, _ => []
  | n + 1, blk, reg, bh =>
    let r := unmask ((ct.drop (8 * blk)).take 8) reg
    let cf := bh &&& 1
    (List.range 8).map (fun j => transpose r.1 j ^^^ bh) ++
      licenceBlocks ct n (blk + 1) r.2 ((bh >>> 1 ||| cf <<< 7) + cf)

def licenceDecrypt (ct : List Byte) (len : ℕ) (pcode : List Byte) (key bh0 : Byte) : List Byte :=
  let reg := (List.range 8).map fun i => pcode.getD i 0 ^^^ key
  licenceBlocks ct (len / 8) 0 (lfsrSteps 256 reg) bh0

@[ext]
structure Vol extends Volume where
  part : BitVec 32
  tot : BitVec 32
  rsvd : BitVec 32
  nfat : BitVec 32
  spf : BitVec 32
  fatLba : BitVec 32
  clusters : BitVec 32

def bpb (f : File) (part : BitVec 32) (sec : List Byte) : Vol :=
  let tot := if rd16 sec 0x13 ≠ 0 then (rd16 sec 0x13).setWidth 32 else rd32 sec 0x20
  let rsvd := (rd16 sec 0x0E).setWidth 32
  let spc := (sec.getD 0x0D 0).setWidth 32
  let nfat := (sec.getD 0x10 0).setWidth 32
  let spf := (rd16 sec 0x16).setWidth 32
  let fatLba := part + rsvd
  let rootLba := fatLba + nfat * spf
  let rootSecs := (rd16 sec 0x11).setWidth 32 * 32 / 512
  let dataLba := rootLba + rootSecs
  { f := f
    spc := spc
    rootLba := rootLba
    rootSecs := rootSecs
    dataLba := dataLba
    fat := []
    part := part
    tot := tot
    rsvd := rsvd
    nfat := nfat
    spf := spf
    fatLba := fatLba
    clusters := (tot - (dataLba - part)) / spc + 2 }

def badBpb (v : Vol) : Prop := v.spc = 0 ∨ v.nfat = 0 ∨ v.spf = 0 ∨ v.tot ≤ v.dataLba - v.part

instance (v : Vol) : Decidable (badBpb v) := inferInstanceAs (Decidable (_ ∨ _))

def volOpen (f : File) : Except Fault (Option Vol) := do
  let some sec ← secRead 512 f 0 1 | .ok none
  if rd16 sec 510 ≠ 0xAA55 then .ok none
  else do
    let part := rd32 sec (0x1BE + 8)
    if part = 0 then .ok none
    else do
      let some sec ← secRead 512 f part 1 | .ok none
      if rd16 sec 0x0B ≠ 512 then .ok none
      else do
        let v := bpb f part sec
        if badBpb v then .ok none
        else do
          let some fat ← secRead (v.spf * 512).toNat f v.fatLba v.spf | .ok none
          .ok (some { v with fat := fat })

/-- The tail of the last cluster, at most 512 bytes: where it begins, and its length. -/
def slackSpan (v : Vol) (size : BitVec 32) : BitVec 32 × BitVec 32 :=
  let cl := v.spc * 512
  let l := cl - size % cl
  let l := if 512 < l then 512 else l
  (cl - l, l)

def memset (buf : List Byte) (pos : ℕ) (val : Byte) (n : ℕ) : List Byte :=
  buf.take pos ++ List.replicate n val ++ buf.drop (pos + n)

def wr16 (buf : List Byte) (i : ℕ) (val : BitVec 16) : List Byte :=
  (buf.set i (val.setWidth 8)).set (i + 1) ((val >>> 8).setWidth 8)

def wr32 (buf : List Byte) (i : ℕ) (val : BitVec 32) : List Byte :=
  wr16 (wr16 buf i (val.setWidth 16)) (i + 2) ((val >>> 16).setWidth 16)

def secWrite (v : Vol) (lba : BitVec 32) (buf : List Byte) : Vol :=
  { v with f := write v.f (lba.toNat * 512) buf }

def fatSet (v : Vol) (c val : BitVec 16) : Vol := { v with fat := wr16 v.fat (2 * c.toNat) val }

def writeFats (v : Vol) : ℕ → Vol
  | 0 => v
  | n + 1 =>
    let v := writeFats v n
    secWrite v (v.fatLba + BitVec.ofNat 32 n * v.spf) v.fat

/-- What the function answers: -1 cannot, 0 need not, 1 done or to do. -/
def relocate (v : Vol) (ent : ℕ) (src dst : BitVec 16) (size : BitVec 32) (val : Byte) (dry : Bool) :
    Except Fault (Vol × ℤ) :=
  if src = dst then .ok (v, 0)
  else if dst < 2 ∨ v.clusters ≤ dst.setWidth 32 then .ok (v, -1)
  else do
    let first ← fatGet v.toVolume src
    if first < 0xFFF8 then .ok (v, -1)
    else do
      let target ← fatGet v.toVolume dst
      if target ≠ 0 then .ok (v, -1)
      else if dry = true then .ok (v, 1)
      else do
        let some buf ← secRead (v.spc * 512).toNat v.f (clusLba v.toVolume src) v.spc | .ok (v, -1)
        let slack := slackSpan v size
        let v := secWrite v (clusLba v.toVolume dst) (memset buf slack.1.toNat val slack.2.toNat)
        let v := fatSet (fatSet v dst 0xFFFF) src 0
        let v := writeFats v v.nfat.toNat
        let e := read v.f ent 32
        if e.length ≠ 32 then .ok (v, -1)
        else .ok ({ v with f := write v.f ent (wr16 e 0x1A dst) }, 1)

def fillSlack (v : Vol) (cl : BitVec 16) (size : BitVec 32) (val : Byte) (dry : Bool) :
    Except Fault (Vol × ℤ) := do
  let slack := slackSpan v size
  let lba := clusLba v.toVolume cl + slack.1 / 512
  let pos := (slack.1 % 512).toNat
  let some sec ← secRead 512 v.f lba 1 | .ok (v, -1)
  if ∀ i < slack.2.toNat, sec.getD (pos + i) 0 = val then .ok (v, 0)
  else if dry = true then .ok (v, 1)
  else .ok (secWrite v lba (memset sec pos val slack.2.toNat), 1)

def cabinetSecs : BitVec 32 := 4124736

structure Grow where
  tot : BitVec 32
  spf : BitVec 32
  clusters : BitVec 32
  deriving DecidableEq

/-- The search for a table that is long enough, with the count of clusters it ends with.  2^32 rounds
are every length there is. -/
def growSearch (v : Vol) (tot : BitVec 32) : ℕ → BitVec 32 → Except Fault (BitVec 32 × BitVec 32)
  | 0, _ => .error .endless
  | fuel + 1, spf =>
    let n := (tot - v.rsvd - v.nfat * spf - v.rootSecs) / v.spc
    if (n + 2) * 2 ≤ spf * 512 then .ok (n, spf) else growSearch v tot fuel (spf + 1)

def growPlan (v : Vol) : Except Fault (Option Grow) :=
  if cabinetSecs ≤ v.part + v.tot then .ok none
  else do
    let (n, spf) ← growSearch v (cabinetSecs - v.part) (2 ^ 32) v.spf
    if 0xFFF0 < n + 2 then .ok none
    else .ok (some { tot := cabinetSecs - v.part, spf := spf, clusters := n + 2 })

def volWiden (v : Vol) (g : Grow) : Except Fault Vol :=
  if (g.spf * 512).toNat < (v.clusters * 2).toNat then .error .copy
  else
    let old := v.fat.take (v.clusters * 2).toNat
    .ok { v with
      fat := old ++ List.replicate ((g.spf * 512).toNat - old.length) 0
      spf := g.spf
      clusters := g.clusters }

def poke (cap i : ℕ) (n : ℕ) (put : List Byte → List Byte) (buf : List Byte) : Except Fault (List Byte) :=
  if i + n ≤ cap then .ok (put buf) else .error .copy

def append (f : File) (bs : List Byte) : File := write f f.len bs

def chunk : BitVec 32 := 2048

def appendFats (out : File) (fat : List Byte) : ℕ → File
  | 0 => out
  | n + 1 => append (appendFats out fat n) fat

def copyChunks (f : File) (stop : BitVec 32) : ℕ → BitVec 32 → BitVec 32 → File →
    Except Fault (Option (File × BitVec 32))
  | 0, _, _, _ => .error .endless
  | fuel + 1, lba, done, out =>
    if lba < stop then do
      let n := if stop - lba < chunk then stop - lba else chunk
      let some buf ← secRead (chunk * 512).toNat f lba n | .ok none
      copyChunks f stop fuel (lba + chunk) (done + n) (append out buf)
    else .ok (some (out, done))

def zeroChunks : ℕ → BitVec 32 → File → Except Fault File
  | 0, _, _ => .error .endless
  | fuel + 1, done, out =>
    if done < cabinetSecs then
      let n := if cabinetSecs - done < chunk then cabinetSecs - done else chunk
      zeroChunks fuel (done + n) (append out (List.replicate (n.toNat * 512) 0))
    else .ok out

/-- The image that takes the place of `f`, if it could be made.  2^22 rounds are enough for any loop
that ends. -/
def growImage (f : File) (g : Grow) : Except Fault (Option File) := do
  let some v ← volOpen f | .ok none
  if chunk < v.fatLba then .ok none
  else do
    let some buf ← secRead (chunk * 512).toNat f 0 v.fatLba | .ok none
    let cap := (chunk * 512).toNat
    let at13 := (v.part * 512 + 0x13).toNat
    let at16 := (v.part * 512 + 0x16).toNat
    let at20 := (v.part * 512 + 0x20).toNat
    let buf ← poke cap (0x1BE + 12) 4 (wr32 · (0x1BE + 12) g.tot) buf
    let buf ← poke cap at13 2 (wr16 · at13 0) buf
    let buf ← poke cap at16 2 (wr16 · at16 (g.spf.setWidth 16)) buf
    let buf ← poke cap at20 4 (wr32 · at20 g.tot) buf
    let out := append empty buf
    if (g.spf * 512).toNat < (v.clusters * 2).toNat ∨ v.fat.length < (v.clusters * 2).toNat then
      .error .copy
    else do
      let old := v.fat.take (v.clusters * 2).toNat
      let fat := old ++ List.replicate ((g.spf * 512).toNat - old.length) 0
      let out := appendFats out fat v.nfat.toNat
      let done := v.fatLba + v.nfat * g.spf
      let some (out, done) ← copyChunks f (v.part + v.tot) (2 ^ 22) v.rootLba done out | .ok none
      let out ← zeroChunks (2 ^ 22) done out
      .ok (some out)

def ascii (s : String) : List Byte := s.toList.map fun c => BitVec.ofNat 8 c.toNat

def hexDigit (n : Byte) : Byte := if n < 10 then 0x30 + n else 0x37 + n

def markerText (sysCl cccCl : BitVec 16) (slack : Byte) : List Byte :=
  ascii "Photo Play 2.0 CopyControl layout repaired by ppfix. CCONTROL.SYS=" ++ ascii (toString sysCl.toNat) ++
    ascii " PP2000.CCC=" ++ ascii (toString cccCl.toNat) ++ ascii " slack=" ++
    [hexDigit (slack >>> 4), hexDigit (slack &&& 15)]

def markerMagic : List Byte := ascii "PPBOXCC1"

def markerSector (sysCl cccCl : BitVec 16) (slack : Byte) : List Byte :=
  let head := markerMagic ++
    [sysCl.setWidth 8, (sysCl >>> 8).setWidth 8, cccCl.setWidth 8, (cccCl >>> 8).setWidth 8, slack, 0, 0, 0]
  let text := (markerText sysCl cccCl slack).take 199
  head ++ text ++ List.replicate (512 - (16 + text.length)) 0

def markerWrite (v : Vol) (sysCl cccCl : BitVec 16) (slack : Byte) : Vol :=
  secWrite v 1 (markerSector sysCl cccCl slack)

inductive State where
  | error
  | not20
  | unfixed
  | fixed
  deriving DecidableEq

structure Scan where
  clSys : BitVec 16
  clCcc : BitVec 16
  szSys : BitVec 32
  szCcc : BitVec 32
  entSys : ℕ
  entCcc : ℕ
  wantSys : BitVec 16
  wantCcc : BitVec 16
  slack : Byte
  grow : Bool
  gp : Grow
  entNfs : Option ℕ
  nfsTime : BitVec 16
  nfsDate : BitVec 16
  wantTime : BitVec 16
  wantDate : BitVec 16

/-- The two overridable values; a negative one is read from the image. -/
structure Options where
  sys : ℤ
  slk : ℤ

def fillTable : List Byte := [0xFF, 0xE5, 0x1A, 0xF6, 0x20, 0x5A, 0xA5, 0xFF]

/-- `NFS`: its entry, its stamp and the stamp that it is to have. -/
structure Nfs where
  ent : Option ℕ
  time : BitVec 16
  date : BitVec 16
  wantTime : BitVec 16
  wantDate : BitVec 16

def nfsStamps (v : Vol) (lic : List Byte) (found : Option Found) : Option Nfs :=
  match found with
  | none => some { ent := none, time := 0, date := 0, wantTime := 0, wantDate := 0 }
  | some h =>
    let e := read v.f h.pos 32
    let day := (lic.getD 0x43E 0).setWidth 16
    let mon := (lic.getD 0x43F 0).setWidth 16
    let year := rd16 lic 0x440
    let time := rd16 e 0x16
    let date := rd16 e 0x18
    if e.length ≠ 32 then none
    else if 1 ≤ day ∧ day ≤ 31 ∧ 1 ≤ mon ∧ mon ≤ 12 ∧ 1980 ≤ year ∧ year ≤ 2107 then
      some
        { ent := some h.pos
          time := time
          date := date
          wantTime := rd16 lic 0x3A9
          wantDate := (year - 1980) <<< 9 ||| mon <<< 5 ||| day }
    else some { ent := some h.pos, time := time, date := date, wantTime := time, wantDate := date }

def wantedSys (opt : Options) (raw : List Byte) (wantCcc : BitVec 16) : BitVec 16 :=
  let own := rd16 raw 6 ^^^ 0x4343
  if 0 ≤ opt.sys then BitVec.ofInt 16 opt.sys
  else if own < 2 ∨ 0xFFEF < own ∨ own = wantCcc then wantCcc - 2
  else own

def slackByte (opt : Options) (wantCcc : BitVec 16) : Byte :=
  if 0 ≤ opt.slk then BitVec.ofInt 8 opt.slk else fillTable.getD (wantCcc &&& 7).toNat 0

def growth (v : Vol) (wantSys wantCcc : BitVec 16) : Except Fault (Option (Bool × Grow)) :=
  let none' : Grow := { tot := 0, spf := 0, clusters := 0 }
  if v.clusters ≤ wantSys.setWidth 32 ∨ v.clusters ≤ wantCcc.setWidth 32 then do
    let some g ← growPlan v | .ok none
    if g.clusters ≤ wantSys.setWidth 32 ∨ g.clusters ≤ wantCcc.setWidth 32 then .ok none
    else .ok (some (true, g))
  else .ok (some (false, none'))

/-- Where PP2000.CCC is to start is in the licence, where CCONTROL.SYS is to start in itself. -/
def locate (opt : Options) (f : File) : Except Fault (Except State (Vol × Scan)) := do
  let some v ← volOpen f | .ok (.error .error)
  let some exe ← dirFind v.toVolume 0 (ascii "EXE        ") | .ok (.error .not20)
  let some cc ← dirFind v.toVolume exe.cl (ascii "PP2000  081") | .ok (.error .not20)
  let sys ← dirFind v.toVolume cc.cl (ascii "CCONTROLSYS")
  let ccc ← dirFind v.toVolume cc.cl (ascii "PP2000  CCC")
  match sys, ccc with
  | some sys, some ccc => do
    let some raw ← secRead 0x800 f (clusLba v.toVolume ccc.cl) 4 | .ok (.error .error)
    let lic := licenceDecrypt (raw.drop 0x10) 0x5F0 (ascii "PP2000") (raw.getD 8 0) 0x35
    let wantCcc := rd16 lic 0x12
    if lic.take 6 ≠ ascii "PP2000" ∨ wantCcc < 2 ∨ 0xFFEF < wantCcc then .ok (.error .error)
    else do
      let some raw ← secRead 0x800 f (clusLba v.toVolume sys.cl) 1 | .ok (.error .error)
      let wantSys := wantedSys opt raw wantCcc
      let nfs ← dirFind v.toVolume cc.cl (ascii "NFS        ")
      match nfsStamps v lic nfs with
      | none => .ok (.error .error)
      | some nfs => do
        let some (grow, gp) ← growth v wantSys wantCcc | .ok (.error .error)
        .ok (.ok (v,
          { clSys := sys.cl
            clCcc := ccc.cl
            szSys := sys.size
            szCcc := ccc.size
            entSys := sys.pos
            entCcc := ccc.pos
            wantSys := wantSys
            wantCcc := wantCcc
            slack := slackByte opt wantCcc
            grow := grow
            gp := gp
            entNfs := nfs.ent
            nfsTime := nfs.time
            nfsDate := nfs.date
            wantTime := nfs.wantTime
            wantDate := nfs.wantDate }))
  | _, _ => .ok (.error .not20)

def nfsStamped (s : Scan) : Bool := s.entNfs = none ∨ s.nfsTime = s.wantTime ∧ s.nfsDate = s.wantDate

/-- What a look at the image ends with: the state, and what a repair would have to do. -/
structure Look where
  state : State
  changes : ℕ

def scanImage (opt : Options) (f : File) : Except Fault Look := do
  match ← locate opt f with
  | .error state => .ok { state := state, changes := 0 }
  | .ok (v, s) => do
    let marker := (sectors f 1 1).length = 512 ∧ (sectors f 1 1).take 8 = markerMagic
    let v ← if s.grow = true then volWiden v s.gp else .ok v
    let (_, r1) ← relocate v s.entSys s.clSys s.wantSys s.szSys s.slack true
    let (_, r2) ← relocate v s.entCcc s.clCcc s.wantCcc s.szCcc s.slack true
    if r1 < 0 ∨ r2 < 0 then .ok { state := .error, changes := 0 }
    else do
      let changes := s.grow.toNat + (if 0 < r1 then 1 else 0) + (if 0 < r2 then 1 else 0) +
        (!nfsStamped s).toNat
      let slack ← if s.grow = true then .ok 0 else do
        let (_, s1) ← fillSlack v s.wantCcc s.szCcc s.slack true
        let (_, s2) ← fillSlack v s.wantSys s.szSys s.slack true
        .ok ((if 0 < s1 then 1 else 0) + if 0 < s2 then 1 else 0)
      let changes := changes + slack
      .ok { state := if changes = 0 ∧ marker then .fixed else .unfixed, changes := changes }

def stampNfs (v : Vol) (s : Scan) : Vol :=
  match s.entNfs with
  | some ent =>
    if nfsStamped s = true then v
    else { v with f := write v.f (ent + 0x16) (wr16 (wr16 [0, 0, 0, 0] 0 s.wantTime) 2 s.wantDate) }
  | none => v

def fixInPlace (opt : Options) (f : File) : Except Fault (File × Bool) := do
  match ← locate opt f with
  | .error _ => .ok (f, false)
  | .ok (v, s) => do
    let (v, r1) ← relocate v s.entSys s.clSys s.wantSys s.szSys s.slack false
    if r1 < 0 then .ok (v.f, false)
    else do
      let (v, r2) ← relocate v s.entCcc s.clCcc s.wantCcc s.szCcc s.slack false
      if r2 < 0 then .ok (v.f, false)
      else do
        let (v, _) ← fillSlack v s.wantCcc s.szCcc s.slack false
        let (v, _) ← fillSlack v s.wantSys s.szSys s.slack false
        let v := stampNfs v s
        let v := markerWrite v s.wantSys s.wantCcc s.slack
        .ok (v.f, true)

/-- The image afterwards, and whether it is repaired. -/
def fixImage (opt : Options) (f : File) : Except Fault (File × Bool) := do
  match ← locate opt f with
  | .error _ => .ok (f, false)
  | .ok (_, s) =>
    if s.grow = true then do
      match ← growImage f s.gp with
      | none => .ok (f, false)
      | some g => fixInPlace opt g
    else fixInPlace opt f

/-- `--fix`: the image afterwards, and the exit code.  The window's button too is only there for an
image that is not fixed. -/
def runHeadless (opt : Options) (f : File) : Except Fault (File × ℕ) := do
  let look ← scanImage opt f
  let f ← if look.state = .unfixed then (fixImage opt f).map Prod.fst else .ok f
  let look ← if look.state = .unfixed then scanImage opt f else .ok look
  .ok (f, match look.state with
    | .fixed => 0
    | .not20 => 1
    | _ => 2)

end PeepeeBox.Ppfix
