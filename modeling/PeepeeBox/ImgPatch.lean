import PeepeeBox.CatalogFat

set_option autoImplicit false

/-!
# Patching a file inside an image: `imgpatch.py`

The file is found and its contents are checked through the read-only reader; the patches are then
written at the image offsets that `img_off` computes from the cluster chain.
-/
namespace PeepeeBox.ImgPatch
open CatalogFat HostFile QueryTrees

structure Patch where
  fo : ℤ
  old : List Byte
  new : List Byte

/-- What ends the program early, an exception or `sys.exit`. -/
inductive Stop where
  | fat (e : FatError)
  | noSuchFile
  | noContents
  | lengthChanged
  | refused (fo : ℤ) (got : List Byte)
  | indexError
  | imageHolds (o : ℕ) (cur : List Byte)
  deriving DecidableEq

/-- The place of the index `i` in a list of `n`; a negative one counts from the end. -/
def indexIn (n : ℕ) (i : ℤ) : Option ℕ :=
  if 0 ≤ i then if i < n then some i.toNat else none
  else if 0 ≤ n + i then some (n + i).toNat else none

def bound (n : ℕ) (i : ℤ) : ℕ := min n (if i < 0 then n + i else i).toNat

def slice (d : List Byte) (i j : ℤ) : List Byte :=
  (d.take (bound d.length j)).drop (bound d.length i)

structure Located where
  fs : Fat
  clus : ℕ
  size : ℕ
  chain : List ℕ
  deriving DecidableEq

/-- `while len(chain) * csz < size + csz` -/
def rounds (fs : Fat) (size : ℕ) : ℕ := (size + 2 * csz fs - 1) / csz fs

theorem lt_rounds (fs : Fat) (size k : ℕ) : k < rounds fs size ↔ k * csz fs < size + csz fs := by
  have hpos := csz_pos fs
  unfold rounds
  rw [Nat.lt_iff_add_one_le, Nat.le_div_iff_mul_le hpos, Nat.add_mul]
  omega

def walk (fs : Fat) : ℕ → ℕ → Reader (List ℕ)
  | 0, _ => return []
  | k + 1, c =>
    if 2 ≤ c ∧ ¬eoc fs c then do
      let c' ← next fs c
      let rest ← walk fs k c'
      return c :: rest
    else return []

def locate (upper : List Char → List Char) (path : List Char) : Reader (Option Located) := do
  let fs ← boot
  match ← find upper fs path with
  | none => return none
  | some hit =>
    if hit.isDir then return none
    else do
      let chain ← walk fs (rounds fs hit.size) hit.clus
      return some ⟨fs, hit.clus, hit.size, chain⟩

def imgOff (l : Located) (fo : ℤ) : Option ℕ :=
  (indexIn l.chain.length (fo / csz l.fs)).map fun k =>
    clusOff l.fs (l.chain.getD k 0) + (fo % csz l.fs).toNat

def got (data : List Byte) (p : Patch) : List Byte := slice data p.fo (p.fo + p.old.length)

def checkPatch (data : Option (List Byte)) (p : Patch) : Except Stop Unit :=
  if p.old.length ≠ p.new.length then .error .lengthChanged
  else
    match data with
    | none => .error .noContents
    | some data =>
      if got data p = p.new then .ok ()
      else if got data p = p.old then .ok ()
      else .error (.refused p.fo (got data p))

def checkAll (data : Option (List Byte)) : List Patch → Except Stop Unit
  | [] => .ok ()
  | p :: ps => do
    checkPatch data p
    checkAll data ps

def writeAll (l : Located) : List Patch → File → File × Except Stop Unit
  | [], f => (f, .ok ())
  | p :: ps, f =>
    match imgOff l p.fo with
    | none => (f, .error .indexError)
    | some o =>
      let cur := read f o p.old.length
      if cur = p.new then writeAll l ps f
      else if cur = p.old then writeAll l ps (write f o p.new)
      else (f, .error (.imageHolds o cur))

def contents (upper : List Char → List Char) (path : List Char) : Reader (Option (List Byte)) := do
  let fs ← boot
  readPath upper fs path

def holdsNew (back : List Byte) (p : Patch) : Bool :=
  slice back p.fo (p.fo + p.new.length) = p.new

def verify (upper : List Char → List Char) (path : List Char) (ps : List Patch) (f : File) :
    Except Stop (Bool × ℕ) :=
  match run (answer f) (contents upper path) with
  | .error e => .error (.fat e)
  | .ok none => .error .noContents
  | .ok (some back) => .ok (ps.all (holdsNew back), back.length)

def writePatches (upper : List Char → List Char) (path : List Char) (l : Located)
    (ps : List Patch) (f : File) : File × Except Stop (Bool × ℕ) :=
  match writeAll l ps f with
  | (g, .error e) => (g, .error e)
  | (g, .ok ()) => (g, verify upper path ps g)

def imgpatch (upper : List Char → List Char) (path : List Char) (ps : List Patch) (f : File) :
    File × Except Stop (Bool × ℕ) :=
  match run (answer f) (locate upper path) with
  | .error e => (f, .error (.fat e))
  | .ok none => (f, .error .noSuchFile)
  | .ok (some l) =>
    match run (answer f) (readPath upper l.fs path) with
    | .error e => (f, .error (.fat e))
    | .ok data =>
      match checkAll data ps with
      | .error e => (f, .error e)
      | .ok () => writePatches upper path l ps f

end PeepeeBox.ImgPatch
