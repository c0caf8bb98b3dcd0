import Mathlib.Data.Int.Notation
import Mathlib.Data.List.Basic
import PeepeeBox.Bytes

set_option autoImplicit false

/-!
# The configuration file

A configuration is a list of sections with their entries, an entry's value once in bytes and once in wide characters.
-/
namespace PeepeeBox.Ini

abbrev Wide := BitVec 32

/-- The C library's conversions, in a locale whose characters have no state. -/
structure Locale where
  /-- The whole text, if it is one. -/
  mbstowcs : List Byte → Option (List Wide)
  wctomb : Wide → List Byte
  ascii : ∀ s : List Byte, (∀ b ∈ s, b < 128) → mbstowcs s = some (s.map (BitVec.setWidth 32))
  wctomb_ascii : ∀ c : Wide, c < 128 → wctomb c = [c.setWidth 8]
  back : ∀ s w, mbstowcs s = some w → w.flatMap wctomb = s ∧ ∀ c ∈ w, wctomb c ≠ []

structure Entry where
  name : List Byte
  data : List Byte
  wdata : List Wide
  deriving DecidableEq

structure Section where
  name : List Byte
  entries : List Entry
  deriving DecidableEq

abbrev IniT := List Section

/-- `strncmp` over the 128 bytes that a name has. -/
def sameName (a b : List Byte) : Bool := a.take 128 = b.take 128

def findSection (ini : IniT) (name : List Byte) : Option Section := ini.find? fun sec => sameName sec.name name

def findEntry (sec : Section) (name : List Byte) : Option Entry := sec.entries.find? fun ent => sameName ent.name name

def findOrCreateSection (ini : IniT) (name : List Byte) : IniT :=
  if (findSection ini name).isNone then ini ++ [{ name := name, entries := [] }] else ini

/-- The entry's bytes and their wide text; what a text that is not the locale's leaves there is not specified. -/
def Entry.put (L : Locale) (ent : Entry) (data : List Byte) : Entry :=
  { ent with data := data, wdata := (L.mbstowcs data).getD ent.wdata }

def putEntry (L : Locale) (name data : List Byte) : List Entry → List Entry
  | [] => [Entry.put L { name := name, data := [], wdata := [] } data]
  | ent :: rest => if sameName ent.name name then ent.put L data :: rest else ent :: putEntry L name data rest

/-- A section is its place in the list; there is nothing to do without one. -/
def put (L : Locale) (ini : IniT) (self : ℕ) (name data : List Byte) : IniT :=
  ini.modify self fun sec => { sec with entries := putEntry L name data sec.entries }

def digitsLoop (base : ℕ) (digit : ℕ → Byte) : ℕ → ℕ → List Byte → List Byte
  | 0, _, acc => acc
  | fuel + 1, n, acc =>
    if n < base then digit n :: acc else digitsLoop base digit fuel (n / base) (digit (n % base) :: acc)

def lowerDigit (d : ℕ) : Byte := BitVec.ofNat 8 (if d < 10 then 0x30 + d else 0x57 + d)

def upperDigit (d : ℕ) : Byte := BitVec.ofNat 8 (if d < 10 then 0x30 + d else 0x37 + d)

def padded (width : ℕ) (s : List Byte) : List Byte := List.replicate (width - s.length) 0x30 ++ s

def formatInt (val : BitVec 32) : List Byte :=
  if val.toInt < 0 then 0x2D :: digitsLoop 10 lowerDigit 32 val.toInt.natAbs []
  else digitsLoop 10 lowerDigit 32 val.toNat []

/-- `%0nX` -/
def formatHex (width : ℕ) (val : BitVec 32) : List Byte := padded width (digitsLoop 16 upperDigit 32 val.toNat [])

def formatByte (val : BitVec 32) : List Byte := padded 2 (digitsLoop 16 lowerDigit 32 (val &&& 0xFF).toNat [])

def setInt (L : Locale) (ini : IniT) (self : ℕ) (name : List Byte) (val : BitVec 32) : IniT :=
  put L ini self name (formatInt val)

def setUint (L : Locale) (ini : IniT) (self : ℕ) (name : List Byte) (val : BitVec 32) : IniT :=
  put L ini self name (formatInt val)

def setHex12 (L : Locale) (ini : IniT) (self : ℕ) (name : List Byte) (val : BitVec 32) : IniT :=
  put L ini self name (formatHex 3 val)

def setHex16 (L : Locale) (ini : IniT) (self : ℕ) (name : List Byte) (val : BitVec 32) : IniT :=
  put L ini self name (formatHex 4 val)

def setHex20 (L : Locale) (ini : IniT) (self : ℕ) (name : List Byte) (val : BitVec 32) : IniT :=
  put L ini self name (formatHex 5 val)

def formatMac (val : BitVec 32) : List Byte :=
  formatByte (val >>> 16) ++ 0x3A :: formatByte (val >>> 8) ++ 0x3A :: formatByte val

def setMac (L : Locale) (ini : IniT) (self : ℕ) (name : List Byte) (val : BitVec 32) : IniT :=
  put L ini self name (formatMac val)

/-- `text` is what `%lg` makes of the number. -/
def setDouble (L : Locale) (ini : IniT) (self : ℕ) (name text : List Byte) : IniT := put L ini self name text

def setString (L : Locale) (ini : IniT) (self : ℕ) (name val : List Byte) : IniT := put L ini self name (val.take 512)

def isSpace (c : Byte) : Bool := c = 0x20 ∨ 0x09 ≤ c ∧ c ≤ 0x0D

def toLower (c : Byte) : Byte := if 0x41 ≤ c ∧ c ≤ 0x5A then c + 0x20 else c

/-- `stricmp(a, b) == 0` -/
def sameText (a b : List Byte) : Bool := a.map toLower = b.map toLower

def digitValue (c : Byte) : ℕ :=
  if 0x30 ≤ c ∧ c ≤ 0x39 then c.toNat - 0x30
  else if 0x61 ≤ toLower c ∧ toLower c ≤ 0x7A then (toLower c).toNat - 0x57
  else 99

def scanDigits (base : ℕ) : List Byte → ℕ → ℕ × List Byte
  | [], acc => (acc, [])
  | c :: s, acc => if digitValue c < base then scanDigits base s (acc * base + digitValue c) else (acc, c :: s)

def digitNext (base : ℕ) (s : List Byte) : Bool := s.head?.any fun c => decide (digitValue c < base)

def scanSign (s : List Byte) : Bool × List Byte :=
  match s with
  | 0x2D :: s => (true, s)
  | 0x2B :: s => (false, s)
  | s => (false, s)

/-- The text after `0x`, when a digit follows. -/
def afterPrefix (s : List Byte) : Option (List Byte) :=
  if sameText (s.take 2) [0x30, 0x78] ∧ digitNext 16 (s.drop 2) then some (s.drop 2) else none

def scanNumber (s : List Byte) : Bool × ℕ :=
  let (minus, s) := scanSign (s.dropWhile isSpace)
  match afterPrefix s with
  | some s => (minus, (scanDigits 16 s 0).1)
  | none => (minus, (scanDigits (if s.head? = some 0x30 then 8 else 10) s 0).1)

/-- `sscanf(data, "%i", &value)` over a long that stops at its ends. -/
def scanInt (s : List Byte) : BitVec 32 :=
  let (minus, n) := scanNumber s
  if minus then BitVec.ofInt 32 (-(min n (2 ^ 63) : ℕ)) else BitVec.ofNat 32 (min n (2 ^ 63 - 1))

/-- `strtoul(data, NULL, 0)`, cut to 32 bits. -/
def strtoul (s : List Byte) : BitVec 32 :=
  let (minus, n) := scanNumber s
  if 2 ^ 64 ≤ n then BitVec.allOnes 32 else if minus then -BitVec.ofNat 32 n else BitVec.ofNat 32 n

/-- `%0nX`: at most `width` characters after blanks. -/
def scanHex (width : ℕ) (s : List Byte) : Option (BitVec 32 × List Byte) :=
  let s := s.dropWhile isSpace
  let (minus, field) := scanSign (s.take width)
  let field := (afterPrefix field).getD field
  if digitNext 16 field then
    let r := scanDigits 16 field 0
    some (if minus then -BitVec.ofNat 32 r.1 else BitVec.ofNat 32 r.1, r.2 ++ s.drop width)
  else none

def colon (s : List Byte) : Option (List Byte) := if s.head? = some 0x3A then some s.tail else none

/-- `sscanf(data, "%02x:%02x:%02x", ..)`; what is not there stays zero. -/
def scanMac (s : List Byte) : BitVec 32 :=
  match scanHex 2 s with
  | none => 0
  | some (val0, s) =>
    match (colon s).bind (scanHex 2) with
    | none => val0 <<< 16
    | some (val1, s) =>
      match (colon s).bind (scanHex 2) with
      | none => val0 <<< 16 + val1 <<< 8
      | some (val2, _) => val0 <<< 16 + val1 <<< 8 + val2

def trueText : List Byte := [0x74, 0x72, 0x75, 0x65]

def falseText : List Byte := [0x66, 0x61, 0x6C, 0x73, 0x65]

def orTruth (scan : List Byte → BitVec 32) (data : List Byte) : BitVec 32 :=
  if sameText data trueText then 1 else if sameText data falseText then 0 else scan data

/-- The section's entry as `conv` reads it, or the default. -/
def get {α : Type} (conv : List Byte → α) (self : Option Section) (name : List Byte) (deflt : α) : α :=
  match self.bind fun sec => findEntry sec name with
  | none => deflt
  | some ent => conv ent.data

def getInt (self : Option Section) (name : List Byte) (deflt : BitVec 32) : BitVec 32 :=
  get (orTruth scanInt) self name deflt

def getUint (self : Option Section) (name : List Byte) (deflt : BitVec 32) : BitVec 32 :=
  get (orTruth strtoul) self name deflt

def scanned (width : ℕ) (s : List Byte) : BitVec 32 := ((scanHex width s).map Prod.fst).getD 0

def getHex12 (self : Option Section) (name : List Byte) (deflt : BitVec 32) : BitVec 32 :=
  get (scanned 3) self name deflt

def getHex16 (self : Option Section) (name : List Byte) (deflt : BitVec 32) : BitVec 32 :=
  get (scanned 4) self name deflt

def getHex20 (self : Option Section) (name : List Byte) (deflt : BitVec 32) : BitVec 32 :=
  get (scanned 5) self name deflt

def getMac (self : Option Section) (name : List Byte) (deflt : BitVec 32) : BitVec 32 :=
  get scanMac self name deflt

def getString (self : Option Section) (name deflt : List Byte) : List Byte := get id self name deflt

def newline : Wide := 0x0A

def creturn : Wide := 0x0D

def blank : Wide := 0x20

def equals : Wide := 0x3D

def opening : Wide := 0x5B

def closing : Wide := 0x5D

def wide (L : Locale) (name : List Byte) : List Wide := (L.mbstowcs name).getD []

def entryLine (L : Locale) (ent : Entry) : List Wide :=
  if ent.name = [] then []
  else if ent.wdata = [] then wide L ent.name ++ [blank, equals, blank, newline]
  else wide L ent.name ++ [blank, equals, blank] ++ ent.wdata ++ [newline]

def headerLine (L : Locale) (fl : ℕ) (sec : Section) : List Wide :=
  if sec.name = [] then []
  else if fl ≠ 0 then newline :: opening :: wide L sec.name ++ [closing, newline]
  else opening :: wide L sec.name ++ [closing, newline]

def lineCount (sec : Section) : ℕ :=
  (if sec.name = [] then 0 else 1) + (sec.entries.filter fun ent => ent.name ≠ []).length

def writeLoop (L : Locale) : ℕ → IniT → List Wide
  | _, [] => []
  | fl, sec :: rest => headerLine L fl sec ++ sec.entries.flatMap (entryLine L) ++ writeLoop L (fl + lineCount sec) rest

/-- What `ini_write` leaves in the file. -/
def iniWrite (L : Locale) (ini : IniT) : List Wide := writeLoop L 0 ini

def fgetws : ℕ → List Wide → List Wide × List Wide × Bool
  | 0, file => ([], file, false)
  | _ + 1, [] => ([], [], true)
  | n + 1, c :: file =>
    if c = newline then ([c], file, false)
    else
      let r := fgetws n file
      (c :: r.1, r.2)

def dropLastIf (c : Wide) (buff : List Wide) : List Wide := if buff.getLast? = some c then buff.dropLast else buff

/-- `wcstombs` of at most `n` bytes. -/
def wcstombs (L : Locale) : ℕ → List Wide → List Byte
  | _, [] => []
  | n, c :: w => if (L.wctomb c).length ≤ n then L.wctomb c ++ wcstombs L (n - (L.wctomb c).length) w else []

structure Reading where
  before : IniT
  sec : Section

def readLine (L : Locale) (r : Reading) (buff : List Wide) : Reading :=
  let buff := dropLastIf creturn (dropLastIf newline buff)
  let buff := buff.dropWhile fun c => c = blank ∨ c = 0x09
  if buff.head? = none then r
  else if buff.head? = some 0x23 ∨ buff.head? = some 0x3B then r
  else if buff.head? = some opening then
    let sname := buff.tail.takeWhile fun c => c ≠ closing
    if buff.tail.dropWhile (fun c => c ≠ closing) = [] then r
    else { before := r.before ++ [r.sec], sec := { name := sname.flatMap L.wctomb, entries := [] } }
  else
    let ename := buff.takeWhile fun c => c ≠ equals ∧ c ≠ blank
    let rest := buff.dropWhile fun c => c ≠ equals ∧ c ≠ blank
    if rest = [] then r
    else
      let value := rest.dropWhile fun c => c = equals ∨ c = blank
      if value = [] then r
      else
        let wdata := value.take 511
        let ne : Entry := { name := ename.flatMap L.wctomb, data := (wcstombs L 512 wdata).take 511, wdata := wdata }
        { r with sec := { r.sec with entries := r.sec.entries ++ [ne] } }

def readLoop (L : Locale) : ℕ → Reading → List Wide → Reading
  | 0, r, _ => r
  | fuel + 1, r, file =>
    let line := fgetws 1023 file
    if line.2.2 then r else readLoop L fuel (readLine L r (line.1.takeWhile fun c => c ≠ 0)) line.2.1

/-- What `ini_read` makes of the file; the section before the first has no name. -/
def iniRead (L : Locale) (file : List Wide) : IniT :=
  let file := if file.head? = some 0xFEFF then file.tail else file
  let r := readLoop L (file.length + 1) { before := [], sec := { name := [], entries := [] } } file
  r.before ++ [r.sec]

end PeepeeBox.Ini
