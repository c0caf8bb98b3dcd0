import Mathlib.Data.List.DropRight
import PeepeeBox.Fat16

set_option autoImplicit false

/-!
# The reader of the Photo Play device

The FAT16 reader of `photoplay.c` for the small text files that name an image.
-/
namespace PeepeeBox.PhotoplayFat
open Fat16 HostFile

structure PpFat extends Volume where
  part : BitVec 32
  fatLba : BitVec 32
  nfat : BitVec 32
  spf : BitVec 32

def ppFatOpen (f : File) : Except Fault (Option PpFat) := do
  let some sec ← secRead 512 f 0 1 | .ok none
  if rd16 sec 510 ≠ 0xAA55 then .ok none
  else do
    let part := rd32 sec (0x1BE + 8)
    if part = 0 ∨ 1 <<< 24 < part then .ok none
    else do
      let some sec ← secRead 512 f part 1 | .ok none
      let spc := (sec.getD 0x0D 0).setWidth 32
      let nfat := (sec.getD 0x10 0).setWidth 32
      let spf := (rd16 sec 0x16).setWidth 32
      if rd16 sec 0x0B ≠ 512 ∨ spc = 0 ∨ nfat = 0 ∨ spf = 0 then .ok none
      else do
        let fatLba := part + (rd16 sec 0x0E).setWidth 32
        let rootLba := fatLba + nfat * spf
        let rootSecs := (rd16 sec 0x11).setWidth 32 * 32 / 512
        let some fat ← secRead (spf * 512).toNat f fatLba spf | .ok none
        .ok (some
          { f := f
            spc := spc
            rootLba := rootLba
            rootSecs := rootSecs
            dataLba := rootLba + rootSecs
            fat := fat
            part := part
            fatLba := fatLba
            nfat := nfat
            spf := spf })

def trim (out : List Byte) : List Byte :=
  let line := out.takeWhile fun b => b ≠ 0x0D ∧ b ≠ 0x0A ∧ b ≠ 0x1A
  (line.takeWhile (· ≠ 0)).rdropWhile (· = 0x20)

/-- A file's beginning as text, for a buffer of `sz` bytes. -/
def ppReadSmall (v : Volume) (dirCl : BitVec 16) (name : List Byte) (sz : ℕ) :
    Except Fault (Option (List Byte)) := do
  let some found ← dirFind v dirCl name | .ok none
  if found.cl < 2 ∨ found.size = 0 then .ok none
  else do
    let some buf ← secRead (v.spc * 512).toNat v.f (clusLba v found.cl) v.spc | .ok none
    let n := min found.size.toNat (sz - 1)
    if (v.spc * 512).toNat < n then .error .copy
    else .ok (if trim (buf.take n) = [] then none else some (trim (buf.take n)))

end PeepeeBox.PhotoplayFat
