import Mathlib.Data.Int.Notation
import Mathlib.Data.List.Basic
import Mathlib.Logic.Function.Basic
import PeepeeBox.Bytes

set_option autoImplicit false

/-!
# The HASP part's EEPROM record

`hd_keys`, `hd_release_opt` and `hd_load`: which row a banner selects, and the words the
part is loaded with.  C strings are byte lists without their terminator.
-/
namespace PeepeeBox.HaspRecord

def ascii (s : String) : List Byte := s.toList.map fun c => BitVec.ofNat 8 c.toNat

def hdWords : ℕ := 64

def hdBanner : ℕ := 30

def hdRecord : ℕ := 112

/-- The library adds 8 to the caller's start word. -/
def hdStart : ℕ := 8

def hdText : ℕ := 83

structure HdField where
  start : ℕ
  cols : ℕ
  val : ℕ

def hdFields : List HdField := [
  ⟨30, 6, 907⟩, ⟨36, 6, 98765⟩, ⟨42, 6, 120672⟩, ⟨48, 6, 170898⟩,
  ⟨54, 6, 75902⟩, ⟨60, 6, 2205⟩, ⟨66, 6, 160678⟩, ⟨72, 11, 4259233598⟩]

/-- The three record shapes the dumps show. -/
inductive HdShape where
  | r2001 | rsion | rvers
deriving DecidableEq, Repr

structure HdKey where
  banner : List Byte
  pass1 : BitVec 16
  probe : Bool
  swap : Bool
  shape : HdShape
  v6 : ℤ
  v7 : ℤ
  tkey : BitVec 32
  tinit : BitVec 16
  sessHi : Bool
  synthIdent : ℕ

def hdKeys : List HdKey := [
  ⟨ascii "Version 2001", 0x7477, false, false, .r2001, 160678, -35733698, 0xCF47CB42, 0x7DF,
    false, 0⟩,
  ⟨ascii "Version 2002", 0x68BB, false, true, .rsion, 160678, -371202944, 0x3B227944, 0x7DF,
    false, 0⟩,
  ⟨ascii "Version 2003", 0x6B91, false, true, .rsion, 160678, -738037894, 0xAB32E970, 0x5DF,
    true, 0⟩,
  ⟨ascii "Version 2005B", 0x6B91, false, true, .rvers, 0, 0, 0xAB32E970, 0x5DF, true, 0⟩,
  ⟨ascii "Version 2005", 0x6B91, false, true, .rsion, 0, 0, 0xAB32E970, 0x5DF, true, 0⟩,
  ⟨ascii "Version 2006", 0x68BB, true, true, .rvers, 0, 0, 0x3B227944, 0x7DF, true, 0⟩,
  ⟨ascii "Version 2007", 0x68BB, false, true, .rvers, 0, 0, 0x3B227944, 0x7DF, true, 0⟩,
  ⟨ascii "Version 08", 0x68BB, true, true, .rvers, 0, 0, 0x3B227944, 0x7DF, true, 0⟩]

/-- The row this banner belongs to: a prefix match, the first one winning. -/
def hdReleaseOpt (banner : List Byte) : Option HdKey :=
  hdKeys.find? fun row => row.banner.isPrefixOf banner

/-- An unrecognised banner falls back to the first row, 2001. -/
def hdRelease (banner : List Byte) : HdKey :=
  (hdReleaseOpt banner).getD (hdKeys.headD ⟨[], 0, false, false, .r2001, 0, 0, 0, 0, false, 0⟩)

def hdPass2 (pass1 : BitVec 16) : BitVec 16 :=
  if pass1 = 0x7477 then 0x7D57 else if pass1 = 0x6B91 then 0x24A3 else 0x1329

def hsSweepTable (pass1 : BitVec 16) : BitVec 64 :=
  if pass1 = 0x7477 then 0x423ED3BFE2BEF3BF
  else if pass1 = 0x6B91 then 0x0EE697F74CE4D5F5
  else 0x225E9EDE445CDCDC

def memset (rec : ℕ → Byte) (off n : ℕ) (v : Byte) : ℕ → Byte :=
  fun i => if off ≤ i ∧ i < off + n then v else rec i

def memcpy (rec : ℕ → Byte) (off : ℕ) (src : List Byte) : ℕ → Byte :=
  fun i => if off ≤ i ∧ i < off + src.length then src.getD (i - off) 0 else rec i

/-- `%ld`, and `%0*ld` when a width is given. -/
def showLd (width : ℕ) (v : ℤ) : List Byte :=
  let digits := (Nat.toDigits 10 v.natAbs).map fun c => BitVec.ofNat 8 c.toNat
  let sign : List Byte := if v < 0 then [0x2D] else []
  sign ++ List.replicate (width - sign.length - digits.length) 0x30 ++ digits

/-- The eight values a row stands for; the last two vary by generation. -/
def hdValue (row : HdKey) (n : ℕ) : BitVec 32 :=
  if n = 6 then BitVec.ofInt 32 row.v6
  else if n = 7 then BitVec.ofInt 32 row.v7
  else BitVec.ofNat 32 ((hdFields.map HdField.val).getD n 0)

def hdColumn (row : HdKey) (rec : ℕ → Byte) (f : ℕ) : ℕ → Byte :=
  let field := hdFields.getD f ⟨0, 0, 0⟩
  let num := showLd (if f = 7 then 0 else field.cols) (hdValue row f).toInt
  if 0 < num.length ∧ num.length ≤ field.cols then
    memcpy rec (field.start + field.cols - num.length) num
  else rec

def hdRecord2001 (row : HdKey) (banner : List Byte) : ℕ → Byte :=
  let blen := min banner.length hdBanner
  let rec0 := memset (fun _ => 0) 0 hdText 0x20
  let rec1 := memcpy rec0 (hdBanner - blen) (banner.take blen)
  (List.range 8).foldl (hdColumn row) rec1

/-- `while (vl && sp[vl] == ' ') vl--;` -/
def trimSpaces (banner : List Byte) (sp : ℕ) : ℕ → ℕ
  | 0 => 0
  | vl + 1 => if banner.getD (sp + (vl + 1)) 0 = 0x20 then trimSpaces banner sp vl else vl + 1

def tokenLength (banner : List Byte) (lp : Option ℕ) (sp : ℕ) : ℕ :=
  let vl := banner.length - (sp + 1)
  let vl := match lp with
    | some l => if sp + 1 < l then l - (sp + 1) else vl
    | none => vl
  trimSpaces banner sp vl

def hdTerritory (banner : List Byte) (rec : ℕ → Byte) : ℕ → Byte :=
  match banner.idxOf? 0x28 with
  | some lp =>
    if banner.getD (lp + 1) 0 ≠ 0 ∧ banner.getD (lp + 2) 0 ≠ 0 then
      Function.update (Function.update rec 0 (banner.getD (lp + 1) 0)) 1 (banner.getD (lp + 2) 0)
    else rec
  | none => rec

def hdToken (banner : List Byte) (rec : ℕ → Byte) : ℕ → Byte :=
  match banner.idxOf? 0x20 with
  | some sp =>
    let vl := tokenLength banner (banner.idxOf? 0x28) sp
    memcpy rec 10 ((banner.drop (sp + 1)).take (if vl < 5 then vl else 5))
  | none => rec

/-- The content keys are binary: little-endian dwords from byte 30. -/
def hdDword (row : HdKey) (rec : ℕ → Byte) (n : ℕ) : ℕ → Byte :=
  let v := hdValue row n
  memcpy rec (30 + n * 4)
    [v.setWidth 8, (v >>> 8).setWidth 8, (v >>> 16).setWidth 8, (v >>> 24).setWidth 8]

def hdRecordIgo (row : HdKey) (banner : List Byte) : ℕ → Byte :=
  let rec0 := hdTerritory banner fun _ => 0
  let rec1 :=
    if row.shape = .rsion then memcpy rec0 3 (ascii "sion 2000 (SP)")
    else
      let r := memcpy (Function.update rec0 2 0x2D) 3 (ascii "Version")
      Function.update (hdToken banner r) 16 0x29
  (List.range 8).foldl (hdDword row) rec1

def hdTail (row : HdKey) (rec : ℕ → Byte) : ℕ → Byte :=
  if row.shape = .r2001 then
    Function.update (Function.update rec (hdRecord - 2) 0xFF) (hdRecord - 1) 0xFF
  else memset rec 62 (hdRecord - 62) 0xFF

def hdBytes (row : HdKey) (banner : List Byte) : ℕ → Byte :=
  hdTail row (if row.shape = .r2001 then hdRecord2001 row banner else hdRecordIgo row banner)

/-- Word `i` of the record's part, before the scramble. -/
def hdPlain (row : HdKey) (rec : ℕ → Byte) (i : ℕ) : BitVec 16 :=
  let j := i - hdStart
  if hdStart ≤ i ∧ j * 2 + 1 < hdRecord then
    if row.swap then (rec (j * 2 + 1)).setWidth 16 <<< 8 ||| (rec (j * 2)).setWidth 16
    else (rec (j * 2)).setWidth 16 <<< 8 ||| (rec (j * 2 + 1)).setWidth 16
  else 0

/-- The EEPROM as `hd_load` leaves it. -/
def hdLoad (banner : List Byte) (i : ℕ) : BitVec 16 :=
  let row := hdRelease banner
  hdPlain row (hdBytes row banner) i ^^^ BitVec.ofInt 16 ((i : ℤ) - hdStart) ^^^ row.pass1 ^^^
    (if i < hdStart then 0xFF00 else 0x0000)

end PeepeeBox.HaspRecord
