import Mathlib.Data.List.Basic
import Mathlib.Data.List.GetD
import PeepeeBox.Bytes

set_option autoImplicit false

/-!
# Files of bytes and buffered streams

A file is its length and its bytes; a write past the end leaves a gap of zeros.  A stream
keeps what it was given until it is flushed, so the file may lag behind.
-/
namespace PeepeeBox.HostFile

structure File where
  len : ℕ
  byte : ℕ → Byte
  past : ∀ i, len ≤ i → byte i = 0

def empty : File := { len := 0, byte := fun _ => 0, past := fun _ _ => rfl }

theorem ext_of {f g : File} (hlen : f.len = g.len) (hbyte : ∀ i, f.byte i = g.byte i) :
    f = g := by
  cases f with
  | mk len byte past =>
    cases g with
    | mk len' byte' past' =>
      obtain rfl : len = len' := hlen
      obtain rfl : byte = byte' := funext hbyte
      rfl

def truncate (f : File) (n : ℕ) : File where
  len := n
  byte i := if i < n then f.byte i else 0
  past _ hi := if_neg (Nat.not_lt.mpr hi)

def write (f : File) (off : ℕ) (bs : List Byte) : File where
  len := if bs = [] then f.len else max f.len (off + bs.length)
  byte i := if off ≤ i ∧ i < off + bs.length then bs.getD (i - off) 0 else f.byte i
  past i hi := by
    by_cases hbs : bs = []
    · rw [if_pos hbs] at hi
      subst hbs
      exact (if_neg (by rw [List.length_nil]; omega)).trans (f.past i hi)
    · rw [if_neg hbs] at hi
      exact (if_neg (by omega)).trans (f.past i (by omega))

/-- At most `n` bytes from `off`, fewer at the end of the file. -/
def read (f : File) (off n : ℕ) : List Byte :=
  (List.range (min n (f.len - off))).map fun i => f.byte (off + i)

theorem read_length (f : File) (off n : ℕ) : (read f off n).length = min n (f.len - off) := by
  unfold read
  rw [List.length_map, List.length_range]

theorem read_getD (f : File) (off n i : ℕ) (hi : i < min n (f.len - off)) :
    (read f off n).getD i 0 = f.byte (off + i) := by
  unfold read
  rw [List.getD_eq_getElem?_getD, List.getElem?_map, List.getElem?_range hi]
  rfl

theorem read_congr {f g : File} {off n : ℕ} (hlen : f.len = g.len)
    (hbyte : ∀ i, off ≤ i → i < off + n → f.byte i = g.byte i) : read f off n = read g off n := by
  unfold read
  rw [hlen]
  refine List.map_congr_left ?_
  intro i hi
  have hlt := List.mem_range.mp hi
  exact hbyte _ (Nat.le_add_right _ _) (by omega)

theorem read_slice (f : File) (off : ℕ) {m k n : ℕ} (h : k + n ≤ m) :
    ((read f off m).drop k).take n = read f (off + k) n := by
  apply List.ext_getElem?
  intro i
  unfold read
  rw [List.getElem?_take, List.getElem?_drop, List.getElem?_map, List.getElem?_map]
  by_cases hi : i < min n (f.len - (off + k))
  · rw [if_pos (by omega), List.getElem?_range (by omega), List.getElem?_range hi, Option.map_some,
      Option.map_some, Nat.add_assoc]
  · rw [List.getElem?_eq_none (i := i) (by rw [List.length_range]; omega)]
    split
    · rw [List.getElem?_eq_none (by rw [List.length_range]; omega)]
      rfl
    · rfl

theorem write_len (f : File) (off : ℕ) (bs : List Byte) :
    (write f off bs).len = if bs = [] then f.len else max f.len (off + bs.length) := rfl

theorem write_byte (f : File) (off : ℕ) (bs : List Byte) (i : ℕ) :
    (write f off bs).byte i =
      if off ≤ i ∧ i < off + bs.length then bs.getD (i - off) 0 else f.byte i := rfl

theorem write_nil (f : File) (off : ℕ) : write f off [] = f := by
  refine ext_of rfl ?_
  intro i
  exact if_neg (by rw [List.length_nil]; omega)

theorem write_len_inside (f : File) {off : ℕ} {bs : List Byte} (h : off + bs.length ≤ f.len) :
    (write f off bs).len = f.len := by
  rw [write_len]
  split
  · rfl
  · exact Nat.max_eq_left h

theorem write_outside (f : File) {off i : ℕ} {bs : List Byte}
    (h : i < off ∨ off + bs.length ≤ i) : (write f off bs).byte i = f.byte i :=
  if_neg (by omega)

theorem write_append (f : File) (off : ℕ) (xs ys : List Byte) :
    write (write f off xs) (off + xs.length) ys = write f off (xs ++ ys) := by
  by_cases hx : xs = []
  · rw [hx, write_nil]
    rfl
  by_cases hy : ys = []
  · rw [hy, write_nil, List.append_nil]
  refine ext_of ?_ ?_
  · rw [write_len, write_len, write_len, if_neg hy, if_neg hx, if_neg fun h => hx (List.append_eq_nil_iff.mp h).1,
      List.length_append]
    omega
  · intro i
    rw [write_byte, write_byte, write_byte, List.length_append]
    by_cases hbehind : off + xs.length ≤ i
    · rw [if_neg (show ¬ (off ≤ i ∧ i < off + xs.length) by omega),
        List.getD_append_right _ _ _ _ (by omega), Nat.sub_sub]
      exact if_congr (by omega) rfl rfl
    · rw [if_neg (by omega)]
      by_cases hbefore : off ≤ i
      · rw [if_pos (by omega), if_pos (by omega), List.getD_append _ _ _ _ (by omega)]
      · rw [if_neg (by omega), if_neg (by omega)]

theorem read_write (f : File) (off : ℕ) (bs : List Byte) :
    read (write f off bs) off bs.length = bs := by
  by_cases hnil : bs = []
  · rw [hnil]
    unfold read
    rw [List.length_nil, Nat.zero_min, List.range_zero, List.map_nil]
  have hroom : min bs.length ((write f off bs).len - off) = bs.length := by
    rw [write_len, if_neg hnil]
    omega
  apply List.ext_getElem
  · rw [read_length, hroom]
  · intro i hi hi'
    have hbyte := read_getD (write f off bs) off bs.length i (by rw [hroom]; exact hi')
    rw [write_byte, if_pos (by omega), Nat.add_sub_cancel_left, List.getD_eq_getElem _ _ hi,
      List.getD_eq_getElem _ _ hi'] at hbyte
    exact hbyte

def grow (f : File) (n : ℕ) : File where
  len := f.len + n
  byte := f.byte
  past i hi := f.past i (by omega)

theorem write_zeros (f : File) (n : ℕ) : write f f.len (List.replicate n 0) = grow f n := by
  refine ext_of ?_ ?_
  · change (if List.replicate n (0 : Byte) = [] then f.len else max f.len (f.len + _)) = f.len + n
    rw [List.length_replicate]
    split
    · rename_i hnone
      rw [(List.replicate_eq_nil_iff _).mp hnone, Nat.add_zero]
    · exact Nat.max_eq_right (Nat.le_add_right _ _)
  · intro i
    change (if f.len ≤ i ∧ i < f.len + _ then (List.replicate n (0 : Byte)).getD (i - f.len) 0
      else f.byte i) = f.byte i
    split
    · rename_i hin
      rw [List.length_replicate] at hin
      rw [f.past i hin.1, List.getD_eq_getElem?_getD, List.getElem?_replicate]
      split <;> rfl
    · rfl

theorem grow_grow (f : File) (m n : ℕ) : grow (grow f m) n = grow f (m + n) :=
  ext_of (Nat.add_assoc _ _ _) fun _ => rfl

structure Stream where
  file : File
  held : List Byte
  pos : ℕ

namespace Stream

def flush (s : Stream) : Stream :=
  { s with file := write s.file (s.pos - s.held.length) s.held, held := [] }

def content (s : Stream) : File := s.flush.file

def ofFile (f : File) : Stream := { file := f, held := [], pos := 0 }

def seek (s : Stream) (off : ℕ) : Stream := { s.flush with pos := off }

def seekEnd (s : Stream) : Stream := { s.flush with pos := s.flush.file.len }

def fwrite (s : Stream) (bs : List Byte) : Stream :=
  { s with held := s.held ++ bs, pos := s.pos + bs.length }

/-- The library may hand over the first of the held bytes at any time. -/
def settle (s : Stream) (n : ℕ) : Stream :=
  { s with
    file := write s.file (s.pos - s.held.length) (s.held.take n)
    held := s.held.drop n }

@[simp] theorem content_ofFile (f : File) : (ofFile f).content = f := write_nil f _

theorem content_seekEnd (s : Stream) : s.seekEnd.content = s.content := write_nil _ _

theorem content_settle (s : Stream) (n : ℕ) (h : s.held.length ≤ s.pos) :
    (s.settle n).content = s.content := by
  have hpos : s.pos - (s.held.drop n).length = s.pos - s.held.length + (s.held.take n).length := by
    rw [List.length_drop, List.length_take]
    omega
  change write (write s.file (s.pos - s.held.length) (s.held.take n))
    (s.pos - (s.held.drop n).length) (s.held.drop n) = _
  rw [hpos, write_append, List.take_append_drop]
  rfl

theorem content_append (s : Stream) (n : ℕ) :
    (s.seekEnd.fwrite (List.replicate n 0)).content = grow s.content n := by
  change write s.content (s.content.len + _ - ([] ++ List.replicate n (0 : Byte)).length)
    ([] ++ List.replicate n 0) = _
  rw [List.nil_append, Nat.add_sub_cancel]
  exact write_zeros s.content n

end Stream

end PeepeeBox.HostFile
