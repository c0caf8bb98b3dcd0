import PeepeeBox.Fat16

set_option autoImplicit false

/-!
# The reader that names a release

The FAT16 reader of `photoplay_ident.c`.
-/
namespace PeepeeBox.PhotoplayIdent
open Fat16 HostFile

def secSz : ℕ := 512

structure PpFat where
  f : File
  partOff : ℕ
  bps : ℕ
  spc : ℕ
  rootOff : ℕ
  rootEnts : ℕ
  dataOff : ℕ
  fatOff : ℕ

def ppReadAt (f : File) (off len : ℕ) : Option (List Byte) :=
  if (HostFile.read f off len).length = len then some (HostFile.read f off len) else none

/-- The partition: the first entry of a FAT kind, or the whole image where there is no table. -/
def partOff (sec : List Byte) : ℕ :=
  if sec.getD 510 0 = 0x55 ∧ sec.getD 511 0 = 0xAA then
    match (List.range 4).find? fun i => sec.getD (0x1BE + i * 16 + 4) 0 ∈ [0x04, 0x06, 0x0E, 0x01] with
    | some i => (rd32 sec (0x1BE + i * 16 + 8)).toNat * secSz
    | none => 0
  else 0

def ppFatOpen (f : File) : Option PpFat := do
  let sec ← ppReadAt f 0 secSz
  let partOff := partOff sec
  let sec ← ppReadAt f partOff secSz
  let bps := (rd16 sec 0x0B).toNat
  let spc := (sec.getD 0x0D 0).toNat
  let rsvd := (rd16 sec 0x0E).toNat
  let nfats := (sec.getD 0x10 0).toNat
  let rootEnts := (rd16 sec 0x11).toNat
  let fatsz := (rd16 sec 0x16).toNat
  let totsec := if rd16 sec 0x13 = 0 then (rd32 sec 0x20).toNat else (rd16 sec 0x13).toNat
  if bps ≠ secSz ∨ spc = 0 ∨ rsvd = 0 ∨ nfats = 0 ∨ rootEnts = 0 ∨ fatsz = 0 ∨ totsec = 0 then none
  else
    let rootSecs := (rootEnts * 32 + (bps - 1)) / bps
    let fatOff := partOff + rsvd * bps
    let rootOff := fatOff + nfats * fatsz * bps
    some
      { f := f
        partOff := partOff
        bps := bps
        spc := spc
        rootOff := rootOff
        rootEnts := rootEnts
        dataOff := rootOff + rootSecs * bps
        fatOff := fatOff }

def ppFatNext (fs : PpFat) (clus : BitVec 16) : BitVec 16 :=
  match ppReadAt fs.f (fs.fatOff + clus.toNat * 2) 2 with
  | some e => rd16 e 0
  | none => 0xFFFF

def clusOff (fs : PpFat) (clus : BitVec 16) : ℕ := fs.dataOff + (clus.toNat - 2) * (fs.spc * fs.bps)

/-- The loop of `pp_read_chain`, with what it has got so far. -/
def chainLoop (fs : PpFat) (size : ℕ) : ℕ → BitVec 16 → List Byte → Option (List Byte)
  | 0, _, buf => if buf.length < size then none else some buf
  | guard + 1, clus, buf =>
    if buf.length < size ∧ 2 ≤ clus ∧ clus < 0xFFF0 then
      match ppReadAt fs.f (clusOff fs clus) (min (size - buf.length) (fs.spc * fs.bps)) with
      | none => none
      | some bs => chainLoop fs size guard (ppFatNext fs clus) (buf ++ bs)
    else if buf.length < size then none
    else some buf

def ppReadChain (fs : PpFat) (clus : BitVec 16) (size cap : ℕ) : Option (List Byte) :=
  if size = 0 ∨ cap < size then none else chainLoop fs size 65536 clus []

/-- What a row of entries ends with: the search is over, with or without a find, or it goes on. -/
inductive Pass (α : Type) where
  | past
  | found (a : α)
  | on

/-- `n` entries from `off`. -/
def entries {α : Type} (f : File) (fn : List Byte → Option α) : ℕ → ℕ → Pass α
  | 0, _ => .on
  | n + 1, off =>
    match ppReadAt f off 32 with
    | none => .past
    | some ent =>
      if ent.getD 0 0 = 0 then .past
      else if ent.getD 0 0 = 0xE5 ∨ ent.getD 11 0 = 0x0F then entries f fn n (off + 32)
      else
        match fn ent with
        | some r => .found r
        | none => entries f fn n (off + 32)

def clusLoop {α : Type} (fs : PpFat) (fn : List Byte → Option α) : ℕ → BitVec 16 → Option α
  | 0, _ => none
  | guard + 1, clus =>
    if 2 ≤ clus ∧ clus < 0xFFF0 then
      match entries fs.f fn (fs.spc * fs.bps / 32) (clusOff fs clus) with
      | .past => none
      | .found r => some r
      | .on => clusLoop fs fn guard (ppFatNext fs clus)
    else none

/-- Hand every live entry of a directory to `fn`; 0 is the root directory. -/
def ppDirEach {α : Type} (fs : PpFat) (clus : BitVec 16) (fn : List Byte → Option α) : Option α :=
  if clus = 0 then
    match entries fs.f fn fs.rootEnts fs.rootOff with
    | .found r => some r
    | _ => none
  else clusLoop fs fn 65536 clus

structure PpFind where
  clus : BitVec 16
  size : BitVec 32
  isdir : Bool

def ppFindCb (name83 ent : List Byte) : Option PpFind :=
  if ent.take 11 ≠ name83 then none
  else some { clus := rd16 ent 26, size := rd32 ent 28, isdir := ent.getD 11 0 &&& 0x10 ≠ 0 }

def ppDirFind (fs : PpFat) (clus : BitVec 16) (name83 : List Byte) : Option PpFind :=
  ppDirEach fs clus (ppFindCb name83)

/-- The loop of `photoplay_read_file`, with the file read at its end. -/
def readPath (fs : PpFat) (cap : ℕ) : BitVec 16 → List (List Byte) → Option (List Byte)
  | _, [] => none
  | clus, name :: rest => do
    let q ← ppDirFind fs clus name
    if q.isdir = rest.isEmpty then none
    else if rest = [] then ppReadChain fs q.clus q.size.toNat cap
    else readPath fs cap q.clus rest

/-- One file out of the image, by its path. -/
def photoplayReadFile (f : File) (path83 : List (List Byte)) (cap : ℕ) : Option (List Byte) := do
  let fs ← ppFatOpen f
  readPath fs cap 0 path83

end PeepeeBox.PhotoplayIdent
