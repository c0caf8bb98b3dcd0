import Mathlib.Data.List.GetD
import PeepeeBox.DongleDevice

set_option autoImplicit false

/-!
# Reading the record back

The guest's side of the EEPROM record: it undoes the scramble, unpacks the words, and
reads the banner and the content fields from their fixed slots.
-/
namespace PeepeeBox.RecordDecode
open DongleDevice HaspRecord

def guestWord (row : HdKey) (mem : ℕ → BitVec 16) (i : ℕ) : BitVec 16 :=
  mem i ^^^ BitVec.ofNat 16 (i - hdStart) ^^^ row.pass1

/-- Byte `k` of the record, the words unpacked in the row's byte order. -/
def guestByte (row : HdKey) (mem : ℕ → BitVec 16) (k : ℕ) : Byte :=
  let w := guestWord row mem (hdStart + k / 2)
  if decide (k % 2 = 0) = row.swap then w.setWidth 8 else (w >>> 8).setWidth 8

def guestRecord (row : HdKey) (mem : ℕ → BitVec 16) : List Byte :=
  (List.range hdRecord).map (guestByte row mem)

def slot (rec : List Byte) (start cols : ℕ) : List Byte := (rec.drop start).take cols

def cstring (s : List Byte) : List Byte := s.takeWhile (· ≠ 0)

/-- 2001: the banner is right-aligned in thirty columns. -/
def read2001 (rec : List Byte) : List Byte := (slot rec 0 hdBanner).dropWhile (· = 0x20)

/-- I.G.O. 2 and 3: the record from byte 0 to the first NUL is the territory. -/
def readSion (rec : List Byte) : List Byte := cstring rec

/-- I.G.O. 5 and later: `%s %s (%c%c)` from bytes 3 to 9, 10 to 14, 0 and 1. -/
def readVers (rec : List Byte) : List Byte :=
  cstring (slot rec 3 7) ++ [0x20] ++ cstring (slot rec 10 5) ++ ascii " (" ++ slot rec 0 2 ++
    ascii ")"

def isDigit (c : Byte) : Bool := decide (0x30 ≤ c ∧ c ≤ 0x39)

def atolDigits (s : List Byte) : ℕ :=
  (s.takeWhile isDigit).foldl (fun n c => 10 * n + (c.toNat - 0x30)) 0

def atol (s : List Byte) : ℤ :=
  match s.dropWhile (· = 0x20) with
  | 0x2D :: ds => -(atolDigits ds : ℤ)
  | ds => atolDigits ds

/-- Field `n` of the 2001 record, from its decimal columns. -/
def readColumn (rec : List Byte) (n : ℕ) : BitVec 32 :=
  let field := hdFields.getD n ⟨0, 0, 0⟩
  BitVec.ofInt 32 (atol (slot rec field.start field.cols))

/-- Field `n` of the other shapes, a little-endian dword. -/
def readDword (rec : List Byte) (n : ℕ) : BitVec 32 :=
  let b := fun i => (rec.getD (30 + n * 4 + i) 0).setWidth 32
  b 0 ||| b 1 <<< 8 ||| b 2 <<< 16 ||| b 3 <<< 24

def readField (shape : HdShape) (rec : List Byte) (n : ℕ) : BitVec 32 :=
  if shape = .r2001 then readColumn rec n else readDword rec n

theorem hdLoad_plain (banner : List Byte) (row : HdKey) (hrow : hdRelease banner = row) (i : ℕ)
    (hi : hdStart ≤ i) :
    guestWord row (hdLoad banner) i = hdPlain row (hdBytes row banner) i := by
  have hcount : BitVec.ofInt 16 ((i : ℤ) - hdStart) = BitVec.ofNat 16 (i - hdStart) := by
    rw [← BitVec.ofInt_natCast]
    congr 1
    omega
  unfold guestWord hdLoad
  rw [hrow]
  dsimp only
  rw [if_neg (by omega), hcount]
  generalize hdPlain row (hdBytes row banner) i = w
  generalize BitVec.ofNat 16 (i - hdStart) = x
  generalize row.pass1 = y
  have hcancel : ((w ^^^ x ^^^ y ^^^ 0#16) ^^^ x) ^^^ y = w := by
    rw [BitVec.xor_zero, BitVec.xor_assoc (w ^^^ x) y x, BitVec.xor_comm y x,
      ← BitVec.xor_assoc (w ^^^ x) x y, BitVec.xor_assoc w x x, BitVec.xor_self, BitVec.xor_zero,
      BitVec.xor_assoc, BitVec.xor_self, BitVec.xor_zero]
  exact hcancel

theorem bytes_of_word (hi lo : Byte) :
    (hi.setWidth 16 <<< 8 ||| lo.setWidth 16 : BitVec 16).setWidth 8 = lo ∧
      ((hi.setWidth 16 <<< 8 ||| lo.setWidth 16 : BitVec 16) >>> 8).setWidth 8 = hi := by
  constructor
  · apply BitVec.eq_of_getLsbD_eq
    intro i hi'
    simp [hi']
  · apply BitVec.eq_of_getLsbD_eq
    intro i hi'
    have hshifted : 8 + i < 16 := by omega
    have hlower : i < 16 := by omega
    have hpast : ¬8 + i < 8 := by omega
    simp [hi', hshifted, hlower, hpast]

theorem unpack_word (swap : Bool) (rec : ℕ → Byte) (k : ℕ) :
    let a := rec (k / 2 * 2)
    let b := rec (k / 2 * 2 + 1)
    let w : BitVec 16 :=
      if swap then b.setWidth 16 <<< 8 ||| a.setWidth 16 else a.setWidth 16 <<< 8 ||| b.setWidth 16
    (if decide (k % 2 = 0) = swap then w.setWidth 8 else (w >>> 8).setWidth 8) = rec k := by
  intro a b w
  obtain ⟨hlow, hhigh⟩ := bytes_of_word b a
  obtain ⟨hlow', hhigh'⟩ := bytes_of_word a b
  cases heven : decide (k % 2 = 0) with
  | true =>
    have hk : k / 2 * 2 = k := by
      have := of_decide_eq_true heven
      omega
    have ha : a = rec k := congrArg rec hk
    cases swap with
    | true => exact hlow.trans ha
    | false => exact hhigh'.trans ha
  | false =>
    have hk : k / 2 * 2 + 1 = k := by
      have := of_decide_eq_false heven
      omega
    have hb : b = rec k := congrArg rec hk
    cases swap with
    | true => exact hhigh.trans hb
    | false => exact hlow'.trans hb

theorem guestByte_eq (banner : List Byte) (row : HdKey) (hrow : hdRelease banner = row) (k : ℕ)
    (hk : k < hdRecord) : guestByte row (hdLoad banner) k = hdBytes row banner k := by
  have hword : hdStart + k / 2 - hdStart = k / 2 := by omega
  have hroom : hdStart ≤ hdStart + k / 2 ∧ k / 2 * 2 + 1 < hdRecord := by
    unfold hdRecord at hk ⊢
    omega
  unfold guestByte
  rw [hdLoad_plain banner row hrow _ hroom.1]
  unfold hdPlain
  rw [hword]
  dsimp only
  rw [if_pos hroom]
  exact unpack_word row.swap (hdBytes row banner) k

theorem guestRecord_eq (banner : List Byte) (row : HdKey) (hrow : hdRelease banner = row) :
    guestRecord row (hdLoad banner) = (List.range hdRecord).map (hdBytes row banner) := by
  apply List.map_congr_left
  intro k hk
  exact guestByte_eq banner row hrow k (List.mem_range.mp hk)

theorem memcpy_below (rec : ℕ → Byte) (off : ℕ) (src : List Byte) (k : ℕ) (hk : k < off) :
    memcpy rec off src k = rec k := by
  unfold memcpy
  exact if_neg fun hc => absurd hc.1 (by omega)

theorem memcpy_at (rec : ℕ → Byte) (off : ℕ) (src : List Byte) (i : ℕ) (hi : i < src.length) :
    memcpy rec off src (off + i) = src.getD i 0 := by
  unfold memcpy
  rw [if_pos (by omega)]
  congr 1
  omega

theorem memcpy_above (rec : ℕ → Byte) (off : ℕ) (src : List Byte) (k : ℕ)
    (hk : off + src.length ≤ k) : memcpy rec off src k = rec k := by
  unfold memcpy
  exact if_neg fun hc => absurd hc.2 (by omega)

theorem slot_range (rec : ℕ → Byte) (start cols : ℕ) (h : start + cols ≤ hdRecord) :
    slot ((List.range hdRecord).map rec) start cols =
      (List.range cols).map fun i => rec (start + i) := by
  unfold slot
  obtain ⟨rest, hrest⟩ : ∃ rest, hdRecord = start + (cols + rest) :=
    ⟨hdRecord - start - cols, by omega⟩
  rw [hrest, List.range_add, List.map_append, List.drop_left' (by simp), List.range_add,
    List.map_append, List.map_append, List.take_left' (by simp), List.map_map]
  rfl

theorem dword_bytes (v : BitVec 32) :
    ((v.setWidth 8).setWidth 32 ||| ((v >>> 8).setWidth 8).setWidth 32 <<< 8 |||
      ((v >>> 16).setWidth 8).setWidth 32 <<< 16 ||| ((v >>> 24).setWidth 8).setWidth 32 <<< 24 :
      BitVec 32) = v := by
  apply BitVec.eq_of_getLsbD_eq
  intro i hi
  simp only [BitVec.getLsbD_or, BitVec.getLsbD_shiftLeft, BitVec.getLsbD_setWidth,
    BitVec.getLsbD_ushiftRight]
  -- bit `i` comes from the byte it lies in
  by_cases h₁ : i < 8
  · simp [h₁, hi, show i < 16 by omega, show i < 24 by omega]
  by_cases h₂ : i < 16
  · have hsub : 8 + (i - 8) = i := by omega
    simp [h₁, h₂, hi, hsub, show i < 24 by omega, show i - 8 < 8 by omega, show i - 8 < 32 by omega]
  by_cases h₃ : i < 24
  · have hsub : 16 + (i - 16) = i := by omega
    simp [h₁, h₂, h₃, hi, hsub, show i - 16 < 8 by omega, show i - 16 < 32 by omega,
      show ¬i - 8 < 8 by omega]
  · have hsub : 24 + (i - 24) = i := by omega
    simp [h₁, h₂, h₃, hi, hsub, show i - 24 < 8 by omega, show i - 24 < 32 by omega,
      show ¬i - 8 < 8 by omega, show ¬i - 16 < 8 by omega]

theorem dwords_at (row : HdKey) (rec : ℕ → Byte) (m : ℕ) :
    (∀ k < 30, (List.range m).foldl (hdDword row) rec k = rec k) ∧
      ∀ n < m, ∀ i < 4, (List.range m).foldl (hdDword row) rec (30 + n * 4 + i) =
        ((hdValue row n) >>> (8 * i)).setWidth 8 := by
  induction m with
  | zero => exact ⟨fun k _ => rfl, fun n hn => absurd hn (Nat.not_lt_zero n)⟩
  | succ m ih =>
    obtain ⟨hbelow, hfields⟩ := ih
    rw [List.range_succ, List.foldl_append]
    change (∀ k < 30, hdDword row _ m k = rec k) ∧ ∀ n < m + 1, ∀ i < 4, hdDword row _ m _ = _
    generalize (List.range m).foldl (hdDword row) rec = r at hbelow hfields
    unfold hdDword
    constructor
    · intro k hk
      rw [memcpy_below _ _ _ _ (by omega), hbelow k hk]
    · intro n hn i hi
      by_cases hlast : n = m
      · subst hlast
        rw [memcpy_at _ _ _ _ hi]
        obtain h | h | h | h : i = 0 ∨ i = 1 ∨ i = 2 ∨ i = 3 := by omega
        · rw [h]
          rfl
        · rw [h]
          rfl
        · rw [h]
          rfl
        · rw [h]
          rfl
      · rw [memcpy_below _ _ _ _ (by omega), hfields n (by omega) i hi]

/-- `Version T (XY)`. -/
def bannerOf (token : List Byte) (x y : Byte) : List Byte :=
  ascii "Version " ++ (token ++ (ascii " (" ++ ([x, y] ++ ascii ")")))

/-- A version token: one to five characters, none of them a space or a parenthesis. -/
structure Token (token : List Byte) : Prop where
  some : token ≠ []
  short : token.length ≤ 5
  chars : ∀ c ∈ token, c ≠ 0x00 ∧ c ≠ 0x20 ∧ c ≠ 0x28 ∧ c ≠ 0x29

section Banner

variable {token : List Byte} {x y : Byte}

theorem banner_length : (bannerOf token x y).length = 13 + token.length := by
  unfold bannerOf
  rw [List.length_append, List.length_append]
  change 8 + (token.length + 5) = _
  omega

theorem banner_past (i : ℕ) :
    (bannerOf token x y).getD (8 + (token.length + i)) 0 =
      (ascii " (" ++ ([x, y] ++ ascii ")")).getD i 0 := by
  unfold bannerOf
  rw [List.getD_append_right _ _ _ _ (Nat.le_add_right 8 _),
    List.getD_append_right _ _ _ _ (by change token.length ≤ 8 + (token.length + i) - 8; omega)]
  congr 1
  change 8 + (token.length + i) - 8 - token.length = i
  omega

theorem banner_token (i : ℕ) (hi : i < token.length) :
    (bannerOf token x y).getD (8 + i) 0 = token.getD i 0 := by
  unfold bannerOf
  rw [List.getD_append_right _ _ _ _ (Nat.le_add_right 8 _),
    List.getD_append _ _ _ _ (by change 8 + i - 8 < token.length; omega)]
  congr 1
  change 8 + i - 8 = i
  omega

theorem banner_space : (bannerOf token x y).idxOf? 0x20 = some 7 := rfl

theorem banner_paren (hT : Token token) :
    (bannerOf token x y).idxOf? 0x28 = some (9 + token.length) := by
  have hnone : token.findIdx? (· == (0x28 : Byte)) = none := by
    rw [List.findIdx?_eq_none_iff]
    intro c hc
    exact beq_eq_false_iff_ne.mpr (hT.chars c hc).2.2.1
  have hrest : (ascii " (" ++ ([x, y] ++ ascii ")")).findIdx? (· == (0x28 : Byte)) = some 1 := rfl
  have hhead : (ascii "Version ").findIdx? (· == (0x28 : Byte)) = none := rfl
  have hsum : 1 + token.length + 8 = 9 + token.length := by omega
  unfold bannerOf
  change List.findIdx? (· == (0x28 : Byte)) _ = _
  rw [List.findIdx?_append, hhead, List.findIdx?_append, hnone, hrest, ← hsum]
  rfl

theorem banner_tokenLength (hT : Token token) :
    tokenLength (bannerOf token x y) (some (9 + token.length)) 7 = token.length := by
  obtain ⟨k, hk⟩ : ∃ k, token.length = k + 1 :=
    ⟨token.length - 1, by have := List.length_pos_of_ne_nil hT.some; omega⟩
  have hspace : (bannerOf token x y).getD (7 + (k + 1 + 1)) 0 = 0x20 := by
    have hpast := @banner_past token x y 0
    have hat : 8 + (token.length + 0) = 7 + (k + 1 + 1) := by omega
    rw [hat] at hpast
    exact hpast
  have hlast : (bannerOf token x y).getD (7 + (k + 1)) 0 ≠ 0x20 := by
    have hat : 7 + (k + 1) = 8 + k := by omega
    rw [hat, banner_token k (by omega), List.getD_eq_getElem _ _ (by omega)]
    exact (hT.chars _ (List.getElem_mem _)).2.1
  unfold tokenLength
  dsimp only
  rw [if_pos (by omega), hk]
  have hspan : 9 + (k + 1) - (7 + 1) = k + 1 + 1 := by omega
  rw [hspan, trimSpaces, if_pos hspace, trimSpaces, if_neg hlast]

theorem banner_take (hT : Token token) :
    ((bannerOf token x y).drop 8).take (if token.length < 5 then token.length else 5) = token := by
  have hlen : (if token.length < 5 then token.length else 5) = token.length := by
    have hshort := hT.short
    split_ifs <;> omega
  have hdrop : (bannerOf token x y).drop 8 = token ++ (ascii " (" ++ ([x, y] ++ ascii ")")) :=
    List.drop_left' rfl
  rw [hlen, hdrop, List.take_left' rfl]

theorem hdToken_banner (hT : Token token) (rec : ℕ → Byte) :
    hdToken (bannerOf token x y) rec = memcpy rec 10 token := by
  unfold hdToken
  rw [banner_space, banner_paren hT]
  dsimp only
  rw [banner_tokenLength hT, banner_take hT]

theorem hdTerritory_banner (hT : Token token) (hx : x ≠ 0) (hy : y ≠ 0) (rec : ℕ → Byte) :
    hdTerritory (bannerOf token x y) rec = Function.update (Function.update rec 0 x) 1 y := by
  have hfirst : (bannerOf token x y).getD (9 + token.length + 1) 0 = x := by
    have hpast := @banner_past token x y 2
    have hat : 8 + (token.length + 2) = 9 + token.length + 1 := by omega
    rw [hat] at hpast
    exact hpast
  have hsecond : (bannerOf token x y).getD (9 + token.length + 2) 0 = y := by
    have hpast := @banner_past token x y 3
    have hat : 8 + (token.length + 3) = 9 + token.length + 2 := by omega
    rw [hat] at hpast
    exact hpast
  unfold hdTerritory
  rw [banner_paren hT]
  dsimp only
  rw [hfirst, hsecond, if_pos ⟨hx, hy⟩]

end Banner

section Shapes

variable {token : List Byte} {x y : Byte}

def igoHead (row : HdKey) (token : List Byte) (x y : Byte) : ℕ → Byte :=
  let rec0 := Function.update (Function.update (fun _ => 0) 0 x) 1 y
  if row.shape = .rsion then memcpy rec0 3 (ascii "sion 2000 (SP)")
  else
    Function.update (memcpy (memcpy (Function.update rec0 2 0x2D) 3 (ascii "Version")) 10 token)
      16 0x29

theorem hdBytes_igo (row : HdKey) (hT : Token token) (hx : x ≠ 0) (hy : y ≠ 0)
    (hshape : row.shape ≠ .r2001) (k : ℕ) (hk : k < 62) :
    hdBytes row (bannerOf token x y) k =
      (List.range 8).foldl (hdDword row) (igoHead row token x y) k := by
  unfold hdBytes hdTail hdRecordIgo
  rw [if_neg hshape, if_neg hshape]
  dsimp only
  rw [hdTerritory_banner hT hx hy, hdToken_banner hT]
  unfold memset
  exact if_neg fun hc => absurd hc.1 (by omega)

theorem igo_head (row : HdKey) (hT : Token token) (hx : x ≠ 0) (hy : y ≠ 0)
    (hshape : row.shape ≠ .r2001) (k : ℕ) (hk : k < 30) :
    hdBytes row (bannerOf token x y) k = igoHead row token x y k := by
  rw [hdBytes_igo row hT hx hy hshape k (by omega)]
  exact (dwords_at row _ 8).1 k hk

theorem igo_field (row : HdKey) (hT : Token token) (hx : x ≠ 0) (hy : y ≠ 0)
    (hshape : row.shape ≠ .r2001) (n : ℕ) (hn : n < 8) :
    readDword ((List.range hdRecord).map (hdBytes row (bannerOf token x y))) n = hdValue row n := by
  have hbyte : ∀ i < 4, ((List.range hdRecord).map (hdBytes row (bannerOf token x y))).getD
      (30 + n * 4 + i) 0 = ((hdValue row n) >>> (8 * i)).setWidth 8 := by
    intro i hi
    have hroom : 30 + n * 4 + i < hdRecord := by
      change _ < 112
      omega
    rw [List.getD_eq_getElem _ _ (by simpa using hroom), List.getElem_map, List.getElem_range,
      hdBytes_igo row hT hx hy hshape _ (by omega)]
    exact (dwords_at row _ 8).2 n hn i hi
  unfold readDword
  dsimp only
  rw [hbyte 0 (by omega), hbyte 1 (by omega), hbyte 2 (by omega), hbyte 3 (by omega)]
  have hshift : (hdValue row n) >>> (8 * 0) = hdValue row n := rfl
  rw [hshift]
  exact dword_bytes (hdValue row n)

theorem cstring_padded (s rest : List Byte) (hs : ∀ c ∈ s, c ≠ 0)
    (hrest : ∀ c, rest.head? = some c → c = 0) : cstring (s ++ rest) = s := by
  have hnone : rest.takeWhile (fun c => decide (c ≠ 0)) = [] := by
    cases rest with
    | nil => rfl
    | cons c cs =>
      rw [hrest c rfl]
      rfl
  unfold cstring
  rw [List.takeWhile_append_of_pos (fun c hc => decide_eq_true (hs c hc)), hnone, List.append_nil]

theorem sion_banner (row : HdKey) (hT : Token token) (hx : x ≠ 0) (hy : y ≠ 0)
    (hshape : row.shape = .rsion) :
    readSion ((List.range hdRecord).map (hdBytes row (bannerOf token x y))) = [x, y] := by
  have hne : row.shape ≠ .r2001 := by
    rw [hshape]
    decide
  have head : ∀ k < 30, hdBytes row (bannerOf token x y) k =
      memcpy (Function.update (Function.update (fun _ => 0) 0 x) 1 y) 3 (ascii "sion 2000 (SP)") k := by
    intro k hk
    rw [igo_head row hT hx hy hne k hk]
    unfold igoHead
    rw [if_pos hshape]
  have hsplit : (List.range hdRecord).map (hdBytes row (bannerOf token x y)) =
      [x, y] ++ (List.range 110).map fun i => hdBytes row (bannerOf token x y) (2 + i) := by
    have hsum : hdRecord = 2 + 110 := rfl
    have h₀ := head 0 (by omega)
    have h₁ := head 1 (by omega)
    have htwo : (List.range 2).map (hdBytes row (bannerOf token x y)) = [x, y] := by
      change [hdBytes row (bannerOf token x y) 0, hdBytes row (bannerOf token x y) 1] = [x, y]
      rw [h₀, h₁]
      rfl
    rw [hsum, List.range_add, List.map_append, List.map_map, htwo]
    rfl
  unfold readSion
  rw [hsplit]
  apply cstring_padded
  · intro c hc
    rcases List.mem_pair.mp hc with hc | hc
    · rw [hc]
      exact hx
    · rw [hc]
      exact hy
  · intro c hc
    have hfirst : some (hdBytes row (bannerOf token x y) 2) = some c := hc
    rw [← Option.some.inj hfirst, head 2 (by omega)]
    rfl

theorem vers_slots (row : HdKey) (hT : Token token) (hx : x ≠ 0) (hy : y ≠ 0)
    (hshape : row.shape = .rvers) :
    let rec' := (List.range hdRecord).map (hdBytes row (bannerOf token x y))
    slot rec' 0 2 = [x, y] ∧ slot rec' 3 7 = ascii "Version" ∧
      slot rec' 10 5 = (List.range 5).map fun i => token.getD i 0 := by
  intro rec'
  have hne : row.shape ≠ .r2001 := by
    rw [hshape]
    decide
  have hnot : ¬row.shape = .rsion := by
    rw [hshape]
    decide
  let word : ℕ → Byte :=
    Function.update (Function.update (Function.update (fun _ => 0) 0 x) 1 y) 2 0x2D
  have head : ∀ k < 16, hdBytes row (bannerOf token x y) k =
      memcpy (memcpy word 3 (ascii "Version")) 10 token k := by
    intro k hk
    rw [igo_head row hT hx hy hne k (by omega)]
    unfold igoHead
    rw [if_neg hnot]
    exact Function.update_of_ne (by omega) _ _
  refine ⟨?_, ?_, ?_⟩
  · have h₀ := head 0 (by omega)
    have h₁ := head 1 (by omega)
    rw [memcpy_below _ _ _ _ (by omega), memcpy_below _ _ _ _ (by omega)] at h₀ h₁
    rw [slot_range _ 0 2 (by change 2 ≤ 112; omega)]
    change [hdBytes row (bannerOf token x y) 0, hdBytes row (bannerOf token x y) 1] = [x, y]
    rw [h₀, h₁]
    rfl
  · rw [slot_range _ 3 7 (by change 10 ≤ 112; omega)]
    have hword : ∀ i ∈ List.range 7, hdBytes row (bannerOf token x y) (3 + i) =
        (ascii "Version").getD i 0 := by
      intro i hi
      have hlt := List.mem_range.mp hi
      rw [head (3 + i) (by omega), memcpy_below _ _ _ _ (by omega), memcpy_at _ _ _ _ hlt]
    rw [List.map_congr_left hword]
    rfl
  · rw [slot_range _ 10 5 (by change 15 ≤ 112; omega)]
    apply List.map_congr_left
    intro i hi
    have hlt := List.mem_range.mp hi
    rw [head (10 + i) (by omega)]
    by_cases hin : i < token.length
    · rw [memcpy_at _ _ _ _ hin]
    · rw [memcpy_above _ _ _ _ (by omega), memcpy_above _ _ _ _ (by change 3 + 7 ≤ 10 + i; omega),
        List.getD_eq_default _ _ (by omega)]
      change Function.update _ 2 _ (10 + i) = 0
      rw [Function.update_of_ne (by omega), Function.update_of_ne (by omega),
        Function.update_of_ne (by omega)]

theorem token_padded (token : List Byte) (hshort : token.length ≤ 5) :
    (List.range 5).map (fun i => token.getD i 0) =
      token ++ List.replicate (5 - token.length) 0 := by
  apply List.ext_getElem
  · simp
    omega
  · intro i h₁ h₂
    rw [List.getElem_map, List.getElem_range]
    by_cases hin : i < token.length
    · rw [List.getD_eq_getElem _ _ hin, List.getElem_append_left hin]
    · rw [List.getD_eq_default _ _ (by omega), List.getElem_append_right (by omega),
        List.getElem_replicate]

theorem vers_banner (row : HdKey) (hT : Token token) (hx : x ≠ 0) (hy : y ≠ 0)
    (hshape : row.shape = .rvers) :
    readVers ((List.range hdRecord).map (hdBytes row (bannerOf token x y))) =
      bannerOf token x y := by
  obtain ⟨hterritory, hword, htoken⟩ := vers_slots row hT hx hy hshape
  have hstring : cstring (token ++ List.replicate (5 - token.length) 0) = token := by
    apply cstring_padded
    · exact fun c hc => (hT.chars c hc).1
    · intro c hc
      exact List.eq_of_mem_replicate (List.mem_of_head? hc)
  have hrelease : cstring (ascii "Version") = ascii "Version" := by decide
  unfold readVers
  rw [hterritory, hword, htoken, token_padded token hT.short, hstring, hrelease]
  unfold bannerOf
  simp only [List.append_assoc]
  rfl

theorem hdColumn_copies (row : HdKey) (f : ℕ) (hf : f < 8) :
    ∃ off num, 30 ≤ off ∧ ∀ rec, hdColumn row rec f = memcpy rec off num := by
  have hstart : ∀ f < 8, 30 ≤ (hdFields.getD f ⟨0, 0, 0⟩).start := by decide
  have hf30 := hstart f hf
  unfold hdColumn
  dsimp only
  generalize showLd _ _ = num
  generalize hdFields.getD f ⟨0, 0, 0⟩ = field at hf30
  by_cases hfits : 0 < num.length ∧ num.length ≤ field.cols
  · refine ⟨field.start + field.cols - num.length, num, by omega, ?_⟩
    intro rec
    exact if_pos hfits
  · refine ⟨30, [], Nat.le_refl 30, ?_⟩
    intro rec
    rw [if_neg hfits]
    funext k
    unfold memcpy
    exact (if_neg fun hc => absurd hc.2 (Nat.not_lt.mpr hc.1)).symm

theorem columns_below (row : HdKey) (rec : ℕ → Byte) (m : ℕ) (hm : m ≤ 8) (k : ℕ) (hk : k < 30) :
    (List.range m).foldl (hdColumn row) rec k = rec k := by
  induction m with
  | zero => rfl
  | succ m ih =>
    obtain ⟨off, num, hoff, hcopy⟩ := hdColumn_copies row m (by omega)
    rw [List.range_succ, List.foldl_append, List.foldl_cons, List.foldl_nil, hcopy,
      memcpy_below _ _ _ _ (by omega), ih (by omega)]

theorem columns_local (row : HdKey) (rec rec' : ℕ → Byte) (m : ℕ) (hm : m ≤ 8) (k : ℕ)
    (h : rec k = rec' k) :
    (List.range m).foldl (hdColumn row) rec k = (List.range m).foldl (hdColumn row) rec' k := by
  induction m with
  | zero => exact h
  | succ m ih =>
    obtain ⟨off, num, -, hcopy⟩ := hdColumn_copies row m (by omega)
    rw [List.range_succ, List.foldl_append, List.foldl_append, List.foldl_cons, List.foldl_cons,
      List.foldl_nil, List.foldl_nil, hcopy, hcopy]
    unfold memcpy
    rw [ih (by omega)]

theorem blank_columns : ∀ row ∈ hdKeys, row.shape = .r2001 → ∀ n < 8,
    BitVec.ofInt 32 (atol ((List.range (hdFields.getD n ⟨0, 0, 0⟩).cols).map fun i =>
      (List.range 8).foldl (hdColumn row) (memset (fun _ => 0) 0 hdText 0x20)
        ((hdFields.getD n ⟨0, 0, 0⟩).start + i))) = hdValue row n := by
  decide +kernel

theorem hdBytes_2001 (row : HdKey) (banner : List Byte) (hshape : row.shape = .r2001)
    (hlen : banner.length ≤ hdBanner) (k : ℕ) (hk : k < 110) :
    hdBytes row banner k =
      (List.range 8).foldl (hdColumn row)
        (memcpy (memset (fun _ => 0) 0 hdText 0x20) (hdBanner - banner.length) banner) k := by
  have hmin : min banner.length hdBanner = banner.length := Nat.min_eq_left hlen
  unfold hdBytes hdTail
  rw [if_pos hshape, if_pos hshape]
  change Function.update (Function.update _ 110 _) 111 _ k = _
  rw [Function.update_of_ne (by omega), Function.update_of_ne (by omega)]
  unfold hdRecord2001
  rw [hmin, List.take_length]

theorem field_2001 (row : HdKey) (banner : List Byte) (hrow : row ∈ hdKeys)
    (hshape : row.shape = .r2001) (hlen : banner.length ≤ hdBanner) (n : ℕ) (hn : n < 8) :
    readColumn ((List.range hdRecord).map (hdBytes row banner)) n = hdValue row n := by
  have hroom : ∀ n < 8, 30 ≤ (hdFields.getD n ⟨0, 0, 0⟩).start ∧
      (hdFields.getD n ⟨0, 0, 0⟩).start + (hdFields.getD n ⟨0, 0, 0⟩).cols ≤ 83 := by
    decide
  obtain ⟨hstart, hend⟩ := hroom n hn
  unfold readColumn
  dsimp only
  rw [slot_range _ _ _ (by change _ ≤ 112; omega), ← blank_columns row hrow hshape n hn]
  congr 2
  apply List.map_congr_left
  intro i hi
  have hlt := List.mem_range.mp hi
  rw [hdBytes_2001 row banner hshape hlen _ (by omega)]
  apply columns_local row _ _ 8 (Nat.le_refl 8)
  exact memcpy_above _ _ _ _ (by unfold hdBanner at hlen ⊢; omega)

theorem banner_2001 (row : HdKey) (banner : List Byte) (hshape : row.shape = .r2001)
    (hlen : banner.length ≤ hdBanner) (hfirst : ∀ c, banner.head? = some c → c ≠ 0x20) :
    read2001 ((List.range hdRecord).map (hdBytes row banner)) = banner := by
  have hsum : hdBanner = (hdBanner - banner.length) + banner.length := by omega
  have hslot : slot ((List.range hdRecord).map (hdBytes row banner)) 0 hdBanner =
      List.replicate (hdBanner - banner.length) 0x20 ++ banner := by
    have hbyte : ∀ k < 30, hdBytes row banner k =
        memcpy (memset (fun _ => 0) 0 hdText 0x20) (hdBanner - banner.length) banner k := by
      intro k hk
      rw [hdBytes_2001 row banner hshape hlen k (by omega)]
      exact columns_below row _ 8 (Nat.le_refl 8) k hk
    rw [slot_range _ 0 hdBanner (by change 30 ≤ 112; omega)]
    apply List.ext_getElem
    · simp
      omega
    · intro k h₁ h₂
      have hk : k < hdBanner := by simpa using h₁
      have hk30 : k < 30 := hk
      rw [List.getElem_map, List.getElem_range, Nat.zero_add, hbyte k hk]
      by_cases hpad : k < hdBanner - banner.length
      · rw [List.getElem_append_left (by simpa using hpad), List.getElem_replicate,
          memcpy_below _ _ _ _ hpad]
        unfold memset
        exact if_pos ⟨Nat.zero_le k, by unfold hdText; omega⟩
      · obtain ⟨i, hi⟩ : ∃ i, k = hdBanner - banner.length + i :=
          ⟨k - (hdBanner - banner.length), by omega⟩
        have hin : i < banner.length := by
          unfold hdBanner at hi hpad
          omega
        subst hi
        rw [memcpy_at _ _ _ _ hin, List.getD_eq_getElem _ _ hin,
          List.getElem_append_right (by simp)]
        congr 1
        simp
  unfold read2001
  rw [hslot]
  generalize hdBanner - banner.length = pad
  induction pad with
  | zero =>
    cases banner with
    | nil => rfl
    | cons c cs => exact List.dropWhile_cons_of_neg (by simpa using hfirst c rfl)
  | succ pad ih =>
    rw [List.replicate_succ, List.cons_append]
    exact (List.dropWhile_cons_of_pos (by decide)).trans ih

end Shapes

/-- What the reader of a shape makes of a record. -/
def readBanner (shape : HdShape) (rec : List Byte) : List Byte :=
  match shape with
  | .r2001 => read2001 rec
  | .rsion => readSion rec
  | .rvers => readVers rec

/-- And what it has to make of it: the banner, or the territory the older library asks for. -/
def wanted (shape : HdShape) (banner territory : List Byte) : List Byte :=
  if shape = .rsion then territory else banner

/-- Whatever row the banner selects, the part's words give it back, with the row's values. -/
theorem record_decodes (row : HdKey) (token : List Byte) (x y : Byte) (hT : Token token)
    (hx : x ≠ 0) (hy : y ≠ 0) (hrow : hdReleaseOpt (bannerOf token x y) = some row) :
    let banner := bannerOf token x y
    let record := guestRecord row (hdLoad banner)
    readBanner row.shape record = wanted row.shape banner [x, y] ∧
      ∀ n < 8, readField row.shape record n = hdValue row n := by
  intro banner record
  have hselected : hdRelease banner = row := by
    unfold hdRelease
    rw [hrow]
    rfl
  have hmem : row ∈ hdKeys := by
    unfold hdReleaseOpt at hrow
    exact List.mem_of_find?_eq_some hrow
  have hrecord : record = (List.range hdRecord).map (hdBytes row banner) :=
    guestRecord_eq banner row hselected
  have hlen : banner.length ≤ hdBanner := by
    have hshort := hT.short
    change (bannerOf token x y).length ≤ 30
    rw [banner_length]
    omega
  rw [hrecord]
  unfold readBanner wanted readField
  cases hshape : row.shape with
  | r2001 =>
    refine ⟨banner_2001 row _ hshape hlen ?_, fun n hn => field_2001 row _ hmem hshape hlen n hn⟩
    intro c hc
    have hfirst : some (0x56 : Byte) = some c := hc
    rw [← Option.some.inj hfirst]
    decide
  | rsion =>
    exact ⟨sion_banner row hT hx hy hshape,
      fun n hn => igo_field row hT hx hy (by rw [hshape]; decide) n hn⟩
  | rvers =>
    exact ⟨vers_banner row hT hx hy hshape,
      fun n hn => igo_field row hT hx hy (by rw [hshape]; decide) n hn⟩

/-- The 2005 B image of Austria. -/
theorem record_decodes_2005B :
    let banner := ascii "Version 2005B (AT)"
    let row := hdRelease banner
    let record := guestRecord row (hdLoad banner)
    readBanner row.shape record = wanted row.shape banner (ascii "AT") ∧
      ∀ n < 8, readField row.shape record n = hdValue row n := by
  intro banner row
  apply record_decodes row (ascii "2005B") 0x41 0x54 ⟨by decide, by decide, by decide⟩
  · decide
  · decide
  · unfold row hdRelease
    cases hfind : hdReleaseOpt banner with
    | some found => exact hfind
    | none =>
      have hsome : (hdReleaseOpt banner).isSome = true := by decide +kernel
      rw [hfind] at hsome
      cases hsome

end PeepeeBox.RecordDecode
