import Mathlib.Data.Int.Notation
import PeepeeBox.Fat16
import PeepeeBox.QueryTrees

set_option autoImplicit false

/-!
# The read-only FAT reader of `catalog-photoplay.py`

It asks the image for its size and for rows of bytes, and for nothing else.
-/
namespace PeepeeBox.CatalogFat
open Fat16 HostFile QueryTrees

inductive Query where
  | size
  | bytes (off n : ℕ)
  deriving DecidableEq

def Answer : Query → Type
  | .size => ℕ
  | .bytes _ _ => List Byte

/-- What an open file answers. -/
def answer (f : File) : ∀ q, Answer q
  | .size => f.len
  | .bytes off n => read f off n

inductive FatError where
  | shortRead (off : ℕ)
  | notFatVolume
  deriving DecidableEq

abbrev Reader := Tree Answer FatError

def getsize : Reader ℕ := .ask .size .done

def atOff (off n : ℕ) : Reader (List Byte) :=
  .ask (.bytes off n) fun d => if List.length d ≠ n then .fail (.shortRead off) else .done d

inductive Bits where
  | fat12
  | fat16
  | fat32
  deriving DecidableEq

structure Fat where
  size : ℕ
  part : ℕ
  bps : ℕ
  spc : ℕ
  rootEnts : ℕ
  fatOff : ℕ
  rootOff : ℕ
  dataOff : ℕ
  bits : Bits
  rootClus : ℕ
  bps_pos : 0 < bps
  spc_pos : 0 < spc
  deriving DecidableEq

def csz (fs : Fat) : ℕ := fs.spc * fs.bps

theorem csz_pos (fs : Fat) : 0 < csz fs := Nat.mul_pos fs.spc_pos fs.bps_pos

def partEntry (mbr : List Byte) (size i : ℕ) : Option ℕ :=
  let e := mbr.drop (0x1BE + i * 16)
  let off := (rd32 e 8).toNat * 512
  if e.getD 4 0 ∈ [0x01, 0x04, 0x06, 0x0B, 0x0C, 0x0E] ∧ off ≠ 0 ∧ off + 512 ≤ size then some off
  else none

def partOff (mbr : List Byte) (size : ℕ) : ℕ :=
  if mbr.getD 510 0 = 0x55 ∧ mbr.getD 511 0 = 0xAA then
    ((List.range 4).findSome? (partEntry mbr size)).getD 0
  else 0

def bitsOf (clusters : ℤ) : Bits :=
  if clusters < 4085 then .fat12 else if clusters < 65525 then .fat16 else .fat32

def volume (size part : ℕ) (b : List Byte) : Reader Fat :=
  let bps := (rd16 b 0x0B).toNat
  let spc := (b.getD 0x0D 0).toNat
  let rsvd := (rd16 b 0x0E).toNat
  let nfat := (b.getD 0x10 0).toNat
  let rootEnts := (rd16 b 0x11).toNat
  let fatsz := if rd16 b 0x16 = 0 then (rd32 b 0x24).toNat else (rd16 b 0x16).toNat
  let tot := if rd16 b 0x13 = 0 then (rd32 b 0x20).toNat else (rd16 b 0x13).toNat
  if h : 0 < bps ∧ 0 < spc ∧ rsvd ≠ 0 ∧ nfat ≠ 0 ∧ fatsz ≠ 0 ∧ tot ≠ 0 then
    if bps ∉ [512, 1024, 2048, 4096] ∨ spc &&& (spc - 1) ≠ 0 then .fail .notFatVolume
    else
      let rootSecs := (rootEnts * 32 + bps - 1) / bps
      let fatOff := part + rsvd * bps
      let rootOff := fatOff + nfat * fatsz * bps
      let dataOff := rootOff + rootSecs * bps
      if size ≤ dataOff then .fail .notFatVolume
      else
        let bits := bitsOf (((tot : ℤ) - rsvd - nfat * fatsz - rootSecs) / spc)
        let rootClus := if bits = .fat32 then (rd32 b 0x2C).toNat else 0
        .done ⟨size, part, bps, spc, rootEnts, fatOff, rootOff, dataOff, bits, rootClus, h.1, h.2.1⟩
  else .fail .notFatVolume

def boot : Reader Fat := do
  let size ← getsize
  let mbr ← atOff 0 512
  let part := partOff mbr size
  let b ← atOff part 512
  volume size part b

def next (fs : Fat) (c : ℕ) : Reader ℕ :=
  match fs.bits with
  | .fat16 => do
    let d ← atOff (fs.fatOff + c * 2) 2
    return (rd16 d 0).toNat
  | .fat32 => do
    let d ← atOff (fs.fatOff + c * 4) 4
    return (rd32 d 0 &&& 0x0FFFFFFF).toNat
  | .fat12 => do
    let d ← atOff (fs.fatOff + c * 3 / 2) 2
    return if c % 2 = 1 then (rd16 d 0 >>> 4).toNat else (rd16 d 0 &&& 0x0FFF).toNat

def eocMark : Bits → ℕ
  | .fat12 => 0x0FF8
  | .fat16 => 0xFFF8
  | .fat32 => 0x0FFFFFF8

def eoc (fs : Fat) (c : ℕ) : Prop := eocMark fs.bits ≤ c

instance (fs : Fat) (c : ℕ) : Decidable (eoc fs c) := inferInstanceAs (Decidable (_ ≤ c))

def clusOff (fs : Fat) (c : ℕ) : ℕ := fs.dataOff + (c - 2) * csz fs

/-- The loop of `_chain`; at most 2^20 clusters are seen. -/
def chainLoop (fs : Fat) (size : Option ℕ) : ℕ → ℕ → List Byte → Reader (List Byte)
  | 0, _, out => return out
  | seen + 1, clus, out =>
    if 2 ≤ clus ∧ ¬eoc fs clus then do
      let d ← atOff (clusOff fs clus) (csz fs)
      if size.any (· ≤ (out ++ d).length) then return out ++ d
      else do
        let clus ← next fs clus
        chainLoop fs size seen clus (out ++ d)
    else return out

def chain (fs : Fat) (clus : ℕ) (size : Option ℕ) : Reader (List Byte) := do
  let out ← chainLoop fs size (2 ^ 20) clus []
  return (match size with | some n => out.take n | none => out)

/-- The upper half of code page 437. -/
def cp437High : List Char :=
  ['Ç', 'ü', 'é', 'â', 'ä', 'à', 'å', 'ç', 'ê', 'ë', 'è', 'ï', 'î', 'ì', 'Ä', 'Å',
  'É', 'æ', 'Æ', 'ô', 'ö', 'ò', 'û', 'ù', 'ÿ', 'Ö', 'Ü', '¢', '£', '¥', '₧', 'ƒ',
  'á', 'í', 'ó', 'ú', 'ñ', 'Ñ', 'ª', 'º', '¿', '⌐', '¬', '½', '¼', '¡', '«', '»',
  '░', '▒', '▓', '│', '┤', '╡', '╢', '╖', '╕', '╣', '║', '╗', '╝', '╜', '╛', '┐',
  '└', '┴', '┬', '├', '─', '┼', '╞', '╟', '╚', '╔', '╩', '╦', '╠', '═', '╬', '╧',
  '╨', '╤', '╥', '╙', '╘', '╒', '╓', '╫', '╪', '┘', '┌', '█', '▄', '▌', '▐', '▀',
  'α', 'ß', 'Γ', 'π', 'Σ', 'σ', 'µ', 'τ', 'Φ', 'Θ', 'Ω', 'δ', '∞', 'φ', 'ε', '∩',
  '≡', '±', '≥', '≤', '⌠', '⌡', '÷', '≈', '°', '∙', '·', '√', 'ⁿ', '²', '■', '\u00a0']

def decode (bs : List Byte) : List Char :=
  bs.map fun b => if b.toNat < 128 then Char.ofNat b.toNat else cp437High.getD (b.toNat - 128) ' '

structure Entry where
  name : List Char
  attr : Byte
  first : ℕ
  size : ℕ

def entryOf (bits : Bits) (e : List Byte) : Entry where
  name := decode (e.take 11)
  attr := e.getD 11 0
  first :=
    (if bits = .fat32 then rd16 e 20 ++ rd16 e 26 else (rd16 e 26).setWidth 32 : BitVec 32).toNat
  size := (rd32 e 28).toNat

/-- What `_entries` yields of a directory's bytes. -/
def entriesOf (bits : Bits) (raw : List Byte) : List Entry :=
  let rows := (List.range (raw.length / 32)).map fun i => (raw.drop (i * 32)).take 32
  let used := rows.takeWhile fun e => e.getD 0 0 ≠ 0
  (used.filter fun e => e.getD 0 0 ≠ 0xE5 ∧ e.getD 11 0 ≠ 0x0F).map (entryOf bits)

def entries (fs : Fat) (clus : ℕ) : Reader (List Entry) := do
  let raw ← if clus = 0 ∧ fs.bits ≠ .fat32 then atOff fs.rootOff (fs.rootEnts * 32)
    else chain fs (if clus = 0 then fs.rootClus else clus) none
  return entriesOf fs.bits raw

structure Hit where
  clus : ℕ
  size : ℕ
  isDir : Bool
  deriving DecidableEq

def ljust (n : ℕ) (s : List Char) : List Char := s ++ List.replicate (n - s.length) ' '

def want (part : List Char) : List Char :=
  let base := part.takeWhile (· ≠ '.')
  let ext := (part.dropWhile (· ≠ '.')).drop 1
  (ljust 8 base ++ ljust 3 ext).take 11

def findLoop (fs : Fat) : List (List Char) → Hit → Reader (Option Hit)
  | [], hit => return some hit
  | part :: parts, hit =>
    if hit.isDir then do
      let es ← entries fs hit.clus
      match es.find? fun e => e.name = want part with
      | some e => findLoop fs parts ⟨e.first, e.size, e.attr &&& 0x10 ≠ 0⟩
      | none => return none
    else return none

/-- `upper` is the letters' upper case. -/
def find (upper : List Char → List Char) (fs : Fat) (path : List Char) : Reader (Option Hit) :=
  findLoop fs (((upper path).splitOn '/').filter (· ≠ [])) ⟨0, 0, true⟩

def readPath (upper : List Char → List Char) (fs : Fat) (path : List Char) :
    Reader (Option (List Byte)) := do
  match ← find upper fs path with
  | none => return none
  | some hit =>
    if hit.isDir then return none
    else if hit.size = 0 then return some []
    else do
      let out ← chain fs hit.clus (some hit.size)
      return some out

end PeepeeBox.CatalogFat
