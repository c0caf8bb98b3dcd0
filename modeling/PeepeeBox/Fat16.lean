import PeepeeBox.HostFile

set_option autoImplicit false

/-!
# FAT16 volumes on a disk image

What `ppfix.c` and `photoplay.c` have in common: sectors of the image, the table in memory and the
search of a directory.
-/
namespace PeepeeBox.Fat16
open HostFile

/-- A sector read, a lookup in the table or a copy past its buffer, and a loop that does not end. -/
inductive Fault where
  | sector
  | table
  | copy
  | endless
  deriving DecidableEq

def rd16 (bs : List Byte) (i : ℕ) : BitVec 16 := bs.getD (i + 1) 0 ++ bs.getD i 0

def rd32 (bs : List Byte) (i : ℕ) : BitVec 32 :=
  bs.getD (i + 3) 0 ++ bs.getD (i + 2) 0 ++ bs.getD (i + 1) 0 ++ bs.getD i 0

@[ext]
structure Volume where
  f : File
  spc : BitVec 32
  rootLba : BitVec 32
  rootSecs : BitVec 32
  dataLba : BitVec 32
  fat : List Byte

/-- What `n` sectors from `lba` bring, less where the image ends. -/
def sectors (f : File) (lba n : BitVec 32) : List Byte := read f (lba.toNat * 512) (n.toNat * 512)

def fill (cap : ℕ) (bs : List Byte) : Except Fault (List Byte) :=
  if bs.length ≤ cap then .ok bs else .error .sector

/-- A read of `n` sectors into a buffer of `cap` bytes, and whether all of them were there. -/
def secRead (cap : ℕ) (f : File) (lba n : BitVec 32) : Except Fault (Option (List Byte)) :=
  (fill cap (sectors f lba n)).map fun buf => if buf.length = n.toNat * 512 then some buf else none

def fatGet (v : Volume) (c : BitVec 16) : Except Fault (BitVec 16) :=
  if 2 * c.toNat + 1 < v.fat.length then .ok (rd16 v.fat (2 * c.toNat)) else .error .table

def clusLba (v : Volume) (c : BitVec 16) : BitVec 32 := v.dataLba + (c.setWidth 32 - 2) * v.spc

structure Found where
  pos : ℕ
  cl : BitVec 16
  size : BitVec 32

def isEntry (name : List Byte) (e : List Byte) : Bool :=
  e.getD 0 0 ≠ 0 ∧ e.getD 0 0 ≠ 0xE5 ∧ e.take 11 = name

def findEntry (name buf : List Byte) (count : ℕ) : Option ℕ :=
  (List.range count).find? fun i => isEntry name (buf.drop (32 * i))

/-- Where the directory that begins at `dirCl` has its next sectors; 0 is the root directory. -/
def dirLba (v : Volume) (dirCl : BitVec 16) : BitVec 32 := if dirCl ≠ 0 then clusLba v dirCl else v.rootLba

def dirSecs (v : Volume) (dirCl : BitVec 16) : BitVec 32 := if dirCl ≠ 0 then v.spc else v.rootSecs

def entryAt (v : Volume) (dirCl : BitVec 16) (buf : List Byte) (i : ℕ) : Found where
  pos := (dirLba v dirCl).toNat * 512 + 32 * i
  cl := rd16 buf (32 * i + 0x1A)
  size := rd32 buf (32 * i + 0x1C)

/-- The loop of `dir_find`.  The table is looked up after a hit too. -/
def dirLoop (v : Volume) (name : List Byte) : ℕ → BitVec 16 → Except Fault (Option Found)
  | 0, _ => .ok none
  | guard + 1, dirCl => do
    let some buf ← secRead (v.spc * 512).toNat v.f (dirLba v dirCl) (dirSecs v dirCl) | .ok none
    let hit := findEntry name buf (dirSecs v dirCl * 512 / 32).toNat
    if dirCl = 0 then .ok (hit.map (entryAt v dirCl buf))
    else do
      let next ← fatGet v dirCl
      match hit with
      | some i => .ok (some (entryAt v dirCl buf i))
      | none => if next < 2 ∨ 0xFFF0 ≤ next then .ok none else dirLoop v name guard next

/-- Find "NAME    EXT" in a directory. -/
def dirFind (v : Volume) (dirCl : BitVec 16) (name : List Byte) : Except Fault (Option Found) :=
  dirLoop v name 64 dirCl

end PeepeeBox.Fat16
