import PeepeeBox.HostFile

set_option autoImplicit false

/-!
# Hard disk images

`hdd_image.c` for image files without a VHD footer; block devices and the VHD library are
left out, and the host file system is taken to have room.
-/
namespace PeepeeBox.HddImage
open HostFile

inductive ImageType where
  | raw
  | hdi
  | hdx
deriving DecidableEq

structure Geometry where
  spt : BitVec 32
  hpc : BitVec 32
  tracks : BitVec 32

/-- The sectors of a geometry in bytes. -/
def Geometry.bytes (g : Geometry) : ℕ := 512 * (g.spt.toNat * g.hpc.toNat * g.tracks.toNat)

/-- A configured disk: its file name by its extension and first character, and the ranges the
    configuration keeps its numbers in. -/
structure Config where
  ext : ImageType
  dot : Bool
  wp : Bool
  geometry : Geometry
  spt_range : 1 ≤ geometry.spt.toNat ∧ geometry.spt.toNat ≤ 255
  hpc_range : 1 ≤ geometry.hpc.toNat ∧ geometry.hpc.toNat ≤ 255
  tracks_range : 1 ≤ geometry.tracks.toNat ∧ geometry.tracks.toNat ≤ 266305

structure Image where
  file : Option Stream
  base : BitVec 32
  lastSector : BitVec 32
  type : ImageType
  loaded : Bool
  geometry : Geometry

/-- The length the image has when every sector of its geometry is there. -/
def Image.total (img : Image) : ℕ := img.base.toNat + img.geometry.bytes

def fullSizeOf (g : Geometry) : BitVec 64 :=
  (g.spt.setWidth 64 * g.hpc.setWidth 64 * g.tracks.setWidth 64) <<< 9

/-- `t` times one megabyte of zeros at the end of the file. -/
def writeBlocks : ℕ → Stream → Stream
  | 0, st => st
  | t + 1, st => writeBlocks t (st.seekEnd.fwrite (List.replicate 1048576 0))

/-- The file as creation and extension leave it; `unix` chooses the branch with `ftruncate`,
    which acts on the file behind the stream. -/
def prepareFile (unix : Bool) (st : Stream) (base : BitVec 32) (fullSize : BitVec 64) : Stream :=
  let targetSize := fullSize + base.setWidth 64 - BitVec.ofNat 64 st.pos
  if unix then { st with file := truncate st.file targetSize.toNat }
  else
    let t : BitVec 32 := (targetSize >>> 20).setWidth 32
    let size : BitVec 32 := (targetSize &&& 0xFFFFF).setWidth 32
    let st := writeBlocks t.toNat st
    if 0 < size then st.seekEnd.fwrite (List.replicate size.toNat 0) else st

def prepareNewHardDisk (unix : Bool) (img : Image) (st : Stream) (fullSize : BitVec 64) : Image :=
  { img with
    file := some (prepareFile unix st img.base fullSize)
    lastSector := (fullSize >>> 9).setWidth 32 - 1
    loaded := true }

def leBytes (n x : ℕ) : List Byte := (List.range n).map fun i => BitVec.ofNat 8 (x / 256 ^ i)

def leNat : List Byte → ℕ
  | [] => 0
  | b :: bs => b.toNat + 256 * leNat bs

def hdxSignature : ℕ := 0xD778A82044445459

def newBase : ImageType → BitVec 32
  | .raw => 0
  | .hdi => 0x1000
  | .hdx => 0x28

def newHeader (type : ImageType) (g : Geometry) : List Byte :=
  let fullSize := (fullSizeOf g).toNat
  match type with
  | .raw => []
  | .hdi =>
    leBytes 4 0 ++ leBytes 4 0 ++ leBytes 4 (newBase .hdi).toNat ++ leBytes 4 fullSize ++
      leBytes 4 512 ++ leBytes 4 g.spt.toNat ++ leBytes 4 g.hpc.toNat ++
      leBytes 4 g.tracks.toNat ++ List.replicate (4 * 0x3F8) 0
  | .hdx =>
    leBytes 8 hdxSignature ++ leBytes 8 fullSize ++ leBytes 4 512 ++ leBytes 4 g.spt.toNat ++
      leBytes 4 g.hpc.toNat ++ leBytes 4 g.tracks.toNat ++ leBytes 4 0 ++ leBytes 4 0

/-- `fseeko64` and `fread`; a short read is fatal. -/
def fetch (f : File) (off n : ℕ) : Option ℕ :=
  if (read f off n).length = n then some (leNat (read f off n)) else none

def imageIsHdx (ext : ImageType) (f : File) : Bool :=
  ext = .hdx && 44 ≤ f.len && leNat (read f 0 8) = hdxSignature

structure Opened where
  type : ImageType
  base : BitVec 32
  fullSize : BitVec 64
  geometry : Geometry

def Opened.total (o : Opened) : ℕ := o.base.toNat + o.geometry.bytes

def fetchGeometry (f : File) : Option Geometry := do
  let spt ← fetch f 0x14 4
  let hpc ← fetch f 0x18 4
  let tracks ← fetch f 0x1C 4
  return { spt := BitVec.ofNat 32 spt, hpc := BitVec.ofNat 32 hpc, tracks := BitVec.ofNat 32 tracks }

/-- What an existing file says of itself: `none` stops the program; an error is a header whose
    sectors are not 512 bytes, for which the file is closed again. -/
def openExisting (cfg : Config) (f : File) : Option (Except (BitVec 32) Opened) :=
  if cfg.ext = .hdi then do
    let base ← fetch f 0x8 4
    let fullSize ← fetch f 0xC 4
    let sectorSize ← fetch f 0x10 4
    if sectorSize ≠ 512 then return .error (BitVec.ofNat 32 base)
    let geometry ← fetchGeometry f
    return .ok
      { type := .hdi, base := BitVec.ofNat 32 base, fullSize := BitVec.ofNat 64 fullSize
        geometry := geometry }
  else if imageIsHdx cfg.ext f then do
    let fullSize ← fetch f 0x8 8
    let sectorSize ← fetch f 0x10 4
    if sectorSize ≠ 512 then return .error 0x28
    let geometry ← fetchGeometry f
    return .ok
      { type := .hdx, base := 0x28, fullSize := BitVec.ofNat 64 fullSize, geometry := geometry }
  else
    some (.ok
      { type := .raw, base := 0, fullSize := fullSizeOf cfg.geometry, geometry := cfg.geometry })

def failRaw (g : Geometry) (base : BitVec 32) : Image :=
  { file := none
    base := base
    lastSector :=
      (g.spt.setWidth 64 * g.hpc.setWidth 64 * g.tracks.setWidth 64 : BitVec 64).setWidth 32 - 1
    type := .raw
    loaded := false
    geometry := g }

def openImage (unix : Bool) (cfg : Config) (f : File) : Except (BitVec 32) Opened → Image
  | .error base => failRaw cfg.geometry base
  | .ok o =>
    let st := (Stream.ofFile f).seekEnd
    let img : Image :=
      { file := some st, base := o.base, lastSector := 0, type := o.type, loaded := false
        geometry := o.geometry }
    if st.pos < (o.fullSize + o.base.setWidth 64).toNat then
      prepareNewHardDisk unix img st o.fullSize
    else { img with lastSector := (o.fullSize >>> 9).setWidth 32 - 1, loaded := true }

/-- `disk` is the file of that name, if there is one; `flushed` is how much of a new header the
    stream has handed over when the file gets its size. -/
def hddImageLoad (unix : Bool) (flushed : ℕ) (cfg : Config) (disk : Option File) : Option Image :=
  if cfg.dot then some (failRaw cfg.geometry 0)
  else
    match disk with
    | none =>
      if cfg.wp then some (failRaw cfg.geometry 0)
      else
        let st := ((Stream.ofFile empty).fwrite (newHeader cfg.ext cfg.geometry)).settle flushed
        some (prepareNewHardDisk unix
          { file := none, base := newBase cfg.ext, lastSector := 0, type := cfg.ext, loaded := false
            geometry := cfg.geometry } st (fullSizeOf cfg.geometry))
    | some f => (openExisting cfg f).map (openImage unix cfg f)

def sectorOffset (img : Image) (sector : BitVec 32) : ℕ :=
  (sector.setWidth 64 <<< 9 + img.base.setWidth 64).toNat

def hddImageRead (img : Image) (sector count : BitVec 32) : Option (List Byte) :=
  img.file.map fun st => read st.content (sectorOffset img sector) (512 * count.toNat)

def hddImageWrite (img : Image) (sector count : BitVec 32) (buffer : List Byte) : Image × Bool :=
  match img.file with
  | none => (img, false)
  | some st =>
    let st := (st.seek (sectorOffset img sector)).fwrite (buffer.take (512 * count.toNat))
    ({ img with file := some st.flush }, true)

def zeroSectors : ℕ → Stream → Stream
  | 0, st => st
  | n + 1, st => zeroSectors n (st.fwrite (List.replicate 512 0))

def hddImageZero (img : Image) (sector count : BitVec 32) : Image × Bool :=
  match img.file with
  | none => (img, false)
  | some st =>
    let st := zeroSectors count.toNat (st.seek (sectorOffset img sector))
    ({ img with file := some st.flush }, true)

end PeepeeBox.HddImage
