import Mathlib.Data.List.TakeWhile
import PeepeeBox.CString
import PeepeeBox.Fat16
import PeepeeBox.MaskWalk

set_option autoImplicit false

/-!
# Looking up MAIN.SET

The settings file of the games: a header, a table of keys and a pool of strings, all under one
keystream.
-/
namespace PeepeeBox.MainSet
open CString MaskWalk

def setKey : BitVec 32 := 0x00016295

def setNext (s : BitVec 32) : BitVec 32 := s * 0x08088405 + 1

def ppSetDecrypt : BitVec 32 → List Byte → List Byte
  | _, [] => []
  | s, b :: bs => (b ^^^ (setNext s >>> 24).setWidth 8) :: ppSetDecrypt (setNext s) bs

def byteAt (buf : List Byte) (i : ℕ) : Except Fault Byte :=
  match buf[i]? with
  | some b => .ok b
  | none => .error .overread

def wordAt (buf : List Byte) (i : ℕ) : Except Fault (BitVec 16) := do
  let lo ← byteAt buf i
  let hi ← byteAt buf (i + 1)
  return hi ++ lo

def slice (buf : List Byte) (off len : ℕ) : Except Fault (List Byte) :=
  if off + len ≤ buf.length then .ok ((buf.drop off).take len) else .error .overread

/-- `while ((p < size1) && keys[p]) p++;` -/
def keyEnd (keys : List Byte) : ℕ → ℕ → Except Fault ℕ
  | 0, _ => .error .running
  | fuel + 1, p =>
    if p < keys.length then do
      let c ← byteAt keys p
      if c = 0 then return p else keyEnd keys fuel (p + 1)
    else .ok p

def strcmpAt (keys : List Byte) : ℕ → List Byte → Except Fault Bool
  | p, [] => do
    let b ← byteAt keys p
    return decide (b = 0)
  | p, c :: cs => do
    let b ← byteAt keys p
    if b = c then strcmpAt keys (p + 1) cs else return false

/-- The characters copied out, at most `max` of them. -/
def copyText (pool : List Byte) (off max : ℕ) : ℕ → ℕ → Except Fault (List Byte)
  | 0, _ => .error .running
  | fuel + 1, i =>
    if off + i < pool.length then do
      let c ← byteAt pool (off + i)
      if c ≠ 0 ∧ i < max then do
        let rest ← copyText pool off max fuel (i + 1)
        return c :: rest
      else return []
    else .ok []

/-- The loop over the entries, at most `n` more of them from `p` on. -/
def search (keys pool key : List Byte) (outsz : BitVec 64) : ℕ → ℕ → Except Fault (Option (List Byte))
  | 0, _ => .ok none
  | n + 1, p =>
    if p < keys.length then do
      let q ← keyEnd keys (keys.length + 1) p
      if keys.length < q + 3 then return none
      else do
        let off ← wordAt keys (q + 1)
        let same ← strcmpAt keys p (cstr key)
        if same = true ∧ off.toNat < pool.length then do
          let text ← copyText pool off.toNat (outsz - 1).toNat (pool.length + 1) 0
          return some text
        else search keys pool key outsz n (q + 3)
    else .ok none

/-- `outsz - 1` is taken modulo 2⁶⁴, `key` is read up to its NUL, and memory does not run out. -/
def ppSetLookup (raw key : List Byte) (outsz : BitVec 64) : Except Fault (Option (List Byte)) :=
  if raw.length < 6 then .ok none
  else do
    let hdr ← slice raw 0 6
    let count := (Fat16.rd16 (ppSetDecrypt setKey (hdr.take 2)) 0).toNat
    let size1 := (Fat16.rd16 (ppSetDecrypt setKey ((hdr.drop 2).take 2)) 0).toNat
    let size2 := (Fat16.rd16 (ppSetDecrypt setKey ((hdr.drop 4).take 2)) 0).toNat
    if size1 = 0 ∨ size2 = 0 ∨ raw.length < 6 + size1 + size2 then return none
    else do
      let keys ← slice raw 6 size1
      let pool ← slice raw (6 + size1) size2
      search (ppSetDecrypt setKey keys) (ppSetDecrypt setKey pool) key outsz count 0

def setWalk : Walk (BitVec 32) 8 := ⟨setNext, fun s => (setNext s >>> 24).setWidth 8⟩

theorem ppSetDecrypt_eq (s : BitVec 32) (bs : List Byte) : ppSetDecrypt s bs = setWalk.cipher s bs := by
  induction bs generalizing s with
  | nil => rfl
  | cons b bs ih =>
    unfold ppSetDecrypt
    rw [ih]
    rfl

theorem ppSetDecrypt_ppSetDecrypt (s : BitVec 32) (bs : List Byte) :
    ppSetDecrypt s (ppSetDecrypt s bs) = bs := by
  rw [ppSetDecrypt_eq, ppSetDecrypt_eq, Walk.cipher_cipher]

@[simp] theorem ppSetDecrypt_length (s : BitVec 32) (bs : List Byte) :
    (ppSetDecrypt s bs).length = bs.length := by
  rw [ppSetDecrypt_eq, Walk.cipher_length]

theorem byteAt_ok {buf : List Byte} {i : ℕ} (h : i < buf.length) : byteAt buf i = .ok buf[i] := by
  unfold byteAt
  rw [List.getElem?_eq_getElem h]

theorem wordAt_ok {buf : List Byte} {i : ℕ} (h : i + 1 < buf.length) : ∃ w, wordAt buf i = .ok w := by
  unfold wordAt
  rw [byteAt_ok (Nat.lt_of_succ_lt h), ok_bind, byteAt_ok h, ok_bind]
  exact ⟨_, rfl⟩

theorem slice_ok {buf : List Byte} {off len : ℕ} (h : off + len ≤ buf.length) :
    slice buf off len = .ok ((buf.drop off).take len) := if_pos h

theorem keyEnd_ok (keys : List Byte) (fuel : ℕ) {p : ℕ} (hp : p ≤ keys.length)
    (hfuel : keys.length < p + fuel) :
    ∃ q, keyEnd keys fuel p = .ok q ∧ p ≤ q ∧ q ≤ keys.length ∧ ∀ h : q < keys.length, keys[q] = 0 := by
  induction fuel generalizing p with
  | zero => exact absurd hfuel (by omega)
  | succ fuel ih =>
    unfold keyEnd
    by_cases hin : p < keys.length
    · rw [if_pos hin, byteAt_ok hin, ok_bind]
      by_cases hnul : keys[p] = 0
      · rw [if_pos hnul]
        exact ⟨p, rfl, Nat.le_refl p, hp, fun _ => hnul⟩
      · rw [if_neg hnul]
        obtain ⟨q, hq, hle, hend, hzero⟩ := ih hin (by omega)
        exact ⟨q, hq, Nat.le_of_succ_le hle, hend, hzero⟩
    · rw [if_neg hin]
      exact ⟨p, rfl, Nat.le_refl p, hp, fun h => absurd h hin⟩

theorem cstr_nul (buf : List Byte) : 0 ∉ cstr buf := by
  intro h
  have hne := List.mem_takeWhile_imp h
  exact of_decide_eq_true hne rfl

theorem strcmpAt_ok {keys : List Byte} {q : ℕ} (hq : q < keys.length) (hnul : keys[q] = 0) (key : List Byte)
    (hkey : 0 ∉ key) {p : ℕ} (hp : p ≤ q) : ∃ same, strcmpAt keys p key = .ok same := by
  induction key generalizing p with
  | nil =>
    unfold strcmpAt
    rw [byteAt_ok (Nat.lt_of_le_of_lt hp hq), ok_bind]
    exact ⟨_, rfl⟩
  | cons c cs ih =>
    have hin : p < keys.length := Nat.lt_of_le_of_lt hp hq
    unfold strcmpAt
    rw [byteAt_ok hin, ok_bind]
    by_cases hsame : keys[p] = c
    · rw [if_pos hsame]
      have hne : p ≠ q := by
        rintro rfl
        exact hkey (hsame.symm.trans hnul ▸ List.mem_cons_self)
      exact ih (fun h => hkey (List.mem_cons_of_mem c h)) (by omega)
    · rw [if_neg hsame]
      exact ⟨false, rfl⟩

theorem copyText_eq (pool : List Byte) (off max fuel : ℕ) {i : ℕ} (hfuel : pool.length - (off + i) < fuel) :
    copyText pool off max fuel i = .ok ((cstr (pool.drop (off + i))).take (max - i)) := by
  induction fuel generalizing i with
  | zero => exact absurd hfuel (Nat.not_lt_zero _)
  | succ fuel ih =>
    unfold copyText
    by_cases hin : off + i < pool.length
    · rw [if_pos hin, byteAt_ok hin, ok_bind, List.drop_eq_getElem_cons hin]
      by_cases hkeep : pool[off + i] ≠ 0 ∧ i < max
      · obtain ⟨room, hroom⟩ : ∃ room, max - i = room + 1 := ⟨max - i - 1, by omega⟩
        have hrest : max - (i + 1) = room := by omega
        rw [if_pos hkeep, ih (by omega), ok_bind, hroom, hrest]
        unfold cstr
        rw [List.takeWhile_cons_of_pos (by simpa using hkeep.1), List.take_succ_cons]
        rfl
      · rw [if_neg hkeep]
        rcases not_and_or.mp hkeep with hnul | hfull
        · have hzero : pool[off + i] = 0 := not_not.mp hnul
          unfold cstr
          rw [List.takeWhile_cons_of_neg (by simp [hzero]), List.take_nil]
          rfl
        · rw [Nat.sub_eq_zero_of_le (Nat.le_of_not_lt hfull), List.take_zero]
          rfl
    · rw [if_neg hin, List.drop_eq_nil_of_le (Nat.le_of_not_lt hin)]
      simp [cstr]

theorem search_ok (keys pool key : List Byte) (outsz : BitVec 64) (n : ℕ) {p : ℕ} :
    ∃ found, search keys pool key outsz n p = .ok found ∧
      ∀ text, found = some text → text.length ≤ (outsz - 1).toNat := by
  induction n generalizing p with
  | zero => exact ⟨none, rfl, fun text h => nomatch h⟩
  | succ n ih =>
    have hnone : ∃ found, (Except.ok none : Except Fault (Option (List Byte))) = .ok found ∧
        ∀ text, found = some text → text.length ≤ (outsz - 1).toNat := ⟨none, rfl, fun text h => nomatch h⟩
    unfold search
    by_cases hin : p < keys.length
    · obtain ⟨q, hq, hle, -, hnul⟩ := keyEnd_ok keys (keys.length + 1) (Nat.le_of_lt hin) (by omega)
      rw [if_pos hin, hq, ok_bind]
      by_cases hshort : keys.length < q + 3
      · rw [if_pos hshort]
        exact hnone
      · have hqin : q < keys.length := by omega
        obtain ⟨off, hoff⟩ : ∃ off, wordAt keys (q + 1) = .ok off := wordAt_ok (by omega)
        obtain ⟨same, hsame⟩ := strcmpAt_ok hqin (hnul hqin) (cstr key) (cstr_nul key) hle
        rw [if_neg hshort, hoff, ok_bind, hsame, ok_bind]
        by_cases hhit : same = true ∧ off.toNat < pool.length
        · have htext := copyText_eq pool off.toNat (outsz - 1).toNat (pool.length + 1) (i := 0) (by omega)
          rw [if_pos hhit, htext, ok_bind]
          refine ⟨_, rfl, fun text htaken => ?_⟩
          obtain rfl := Option.some.inj htaken
          exact List.length_take_le _ _
        · rw [if_neg hhit]
          exact ih
    · rw [if_neg hin]
      exact hnone

theorem lookup_ok (raw key : List Byte) (outsz : BitVec 64) :
    ∃ found, ppSetLookup raw key outsz = .ok found ∧
      ∀ text, found = some text → text.length ≤ (outsz - 1).toNat := by
  have hnone : ∃ found, (Except.ok none : Except Fault (Option (List Byte))) = .ok found ∧
      ∀ text, found = some text → text.length ≤ (outsz - 1).toNat := ⟨none, rfl, fun text h => nomatch h⟩
  unfold ppSetLookup
  by_cases hshort : raw.length < 6
  · rw [if_pos hshort]
    exact hnone
  · rw [if_neg hshort, slice_ok (by omega), ok_bind]
    extract_lets count size1 size2
    by_cases hsizes : size1 = 0 ∨ size2 = 0 ∨ raw.length < 6 + size1 + size2
    · rw [if_pos hsizes]
      exact hnone
    · rw [if_neg hsizes, slice_ok (by omega), ok_bind, slice_ok (by omega), ok_bind]
      exact search_ok _ _ key outsz count

def word (w : BitVec 16) : List Byte := [w.setWidth 8, (w >>> 8).setWidth 8]

def entry (e : List Byte × BitVec 16) : List Byte := e.1 ++ 0 :: word e.2

def keyTable (entries : List (List Byte × BitVec 16)) : List Byte := entries.flatMap entry

/-- Keys with their offsets, and the pool; what the header can count. -/
structure Table where
  entries : List (List Byte × BitVec 16)
  pool : List Byte
  keys_nul : ∀ e ∈ entries, 0 ∉ e.1
  count_lt : entries.length < 2 ^ 16
  keys_lt : (keyTable entries).length < 2 ^ 16
  pool_lt : pool.length < 2 ^ 16

/-- The file, as the game writes it. -/
def encode (t : Table) : List Byte :=
  ppSetDecrypt setKey (word (BitVec.ofNat 16 t.entries.length)) ++
    ppSetDecrypt setKey (word (BitVec.ofNat 16 (keyTable t.entries).length)) ++
    ppSetDecrypt setKey (word (BitVec.ofNat 16 t.pool.length)) ++
    ppSetDecrypt setKey (keyTable t.entries) ++ ppSetDecrypt setKey t.pool

/-- The first entry that has the key and an offset in the pool. -/
def lookup (entries : List (List Byte × BitVec 16)) (pool key : List Byte) : Option (List Byte) :=
  (entries.find? fun e => decide (e.1 = key ∧ e.2.toNat < pool.length)).map fun e =>
    cstr (pool.drop e.2.toNat)

theorem byteAt_append (xs : List Byte) (b : Byte) (ys : List Byte) :
    byteAt (xs ++ b :: ys) xs.length = .ok b := by
  unfold byteAt
  rw [List.getElem?_append_right (Nat.le_refl _), Nat.sub_self]
  rfl

theorem wordAt_append (xs : List Byte) (w : BitVec 16) (ys : List Byte) :
    wordAt (xs ++ (word w ++ ys)) xs.length = .ok w := by
  have hhi := byteAt_append (xs ++ [w.setWidth 8]) ((w >>> 8).setWidth 8) ys
  rw [List.length_append, List.append_assoc] at hhi
  unfold wordAt
  change (byteAt (xs ++ w.setWidth 8 :: _) _ >>= _) = _
  rw [byteAt_append, ok_bind]
  change (byteAt (xs ++ ([w.setWidth 8] ++ (w >>> 8).setWidth 8 :: ys)) (xs.length + 1) >>= _) = _
  have hone : ([w.setWidth 8] : List Byte).length = 1 := rfl
  rw [hone] at hhi
  rw [hhi, ok_bind]
  exact congrArg Except.ok (word_of_bytes w)

theorem keyEnd_key (xs key ys : List Byte) (hkey : 0 ∉ key) (fuel : ℕ) (hfuel : key.length < fuel) :
    keyEnd (xs ++ (key ++ 0 :: ys)) fuel xs.length = .ok (xs.length + key.length) := by
  induction key generalizing xs fuel with
  | nil =>
    obtain ⟨fuel, rfl⟩ : ∃ n, fuel = n + 1 := ⟨fuel - 1, by simp only [List.length_nil] at hfuel; omega⟩
    unfold keyEnd
    rw [if_pos (by simp), List.nil_append, byteAt_append, ok_bind, if_pos rfl]
    rfl
  | cons c cs ih =>
    obtain ⟨fuel, rfl⟩ : ∃ n, fuel = n + 1 := ⟨fuel - 1, by simp only [List.length_cons] at hfuel; omega⟩
    have hc : c ≠ 0 := fun hc => hkey (hc ▸ List.mem_cons_self)
    have hrest := ih (xs ++ [c]) (fun h => hkey (List.mem_cons_of_mem c h)) fuel (Nat.lt_of_succ_lt_succ hfuel)
    rw [List.append_assoc, List.length_append] at hrest
    unfold keyEnd
    rw [if_pos (by simp), List.cons_append, byteAt_append, ok_bind, if_neg hc]
    change keyEnd (xs ++ ([c] ++ (cs ++ 0 :: ys))) fuel (xs.length + [c].length) = _
    rw [hrest]
    congr 1
    simp only [List.length_cons, List.length_nil]
    omega

theorem strcmpAt_key (xs key ys cs : List Byte) (hkey : 0 ∉ key) (hcs : 0 ∉ cs) :
    strcmpAt (xs ++ (key ++ 0 :: ys)) xs.length cs = .ok (decide (key = cs)) := by
  induction cs generalizing xs key with
  | nil =>
    unfold strcmpAt
    cases key with
    | nil =>
      rw [List.nil_append, byteAt_append, ok_bind]
      rfl
    | cons k ks =>
      have hk : k ≠ 0 := fun hk => hkey (hk ▸ List.mem_cons_self)
      rw [List.cons_append, byteAt_append, ok_bind]
      exact congrArg Except.ok (decide_eq_false hk)
  | cons c cs ih =>
    have hc : c ≠ 0 := fun hc => hcs (hc ▸ List.mem_cons_self)
    unfold strcmpAt
    cases key with
    | nil =>
      rw [List.nil_append, byteAt_append, ok_bind, if_neg hc.symm]
      rfl
    | cons k ks =>
      rw [List.cons_append, byteAt_append, ok_bind]
      by_cases hsame : k = c
      · have hrest := ih (xs ++ [k]) ks (fun h => hkey (List.mem_cons_of_mem k h))
          (fun h => hcs (List.mem_cons_of_mem c h))
        rw [List.append_assoc, List.length_append] at hrest
        rw [if_pos hsame]
        change strcmpAt (xs ++ ([k] ++ (ks ++ 0 :: ys))) (xs.length + [k].length) cs = _
        rw [hrest, hsame]
        simp
      · rw [if_neg hsame]
        simp [hsame]
        rfl

theorem search_table (pre : List Byte) (entries : List (List Byte × BitVec 16))
    (hkeys : ∀ e ∈ entries, 0 ∉ e.1) (pool key : List Byte) (outsz : BitVec 64) :
    search (pre ++ keyTable entries) pool key outsz entries.length pre.length =
      .ok ((lookup entries pool (cstr key)).map fun text => text.take (outsz - 1).toNat) := by
  induction entries generalizing pre with
  | nil => rfl
  | cons e entries ih =>
    obtain ⟨k, off⟩ := e
    have hk : 0 ∉ k := hkeys (k, off) List.mem_cons_self
    have htable : pre ++ keyTable ((k, off) :: entries) = pre ++ (k ++ 0 :: (word off ++ keyTable entries)) := by
      simp [keyTable, entry]
    have hlength : (pre ++ (k ++ 0 :: (word off ++ keyTable entries))).length =
        pre.length + k.length + 3 + (keyTable entries).length := by
      simp [word]
      omega
    have hend := keyEnd_key pre k (word off ++ keyTable entries) hk
      ((pre ++ (k ++ 0 :: (word off ++ keyTable entries))).length + 1) (by omega)
    have hword : wordAt (pre ++ (k ++ 0 :: (word off ++ keyTable entries))) (pre.length + k.length + 1) = .ok off := by
      have hread := wordAt_append (pre ++ k ++ [0]) off (keyTable entries)
      simpa [List.append_assoc, Nat.add_assoc] using hread
    have hsame := strcmpAt_key pre k (word off ++ keyTable entries) (cstr key) hk (cstr_nul key)
    have hrest := ih (pre ++ entry (k, off)) fun e he => hkeys e (List.mem_cons_of_mem _ he)
    have hafter : (pre ++ entry (k, off)).length = pre.length + k.length + 3 := by
      simp [entry, word]
      omega
    rw [List.append_assoc, hafter] at hrest
    rw [htable, List.length_cons]
    unfold search
    rw [if_pos (by omega), hend, ok_bind, if_neg (by omega), hword, ok_bind, hsame, ok_bind]
    unfold lookup at hrest ⊢
    by_cases hhit : k = cstr key ∧ off.toNat < pool.length
    · have htext := copyText_eq pool off.toNat (outsz - 1).toNat (pool.length + 1) (i := 0) (by omega)
      rw [if_pos ⟨decide_eq_true hhit.1, hhit.2⟩, htext, ok_bind, List.find?_cons_of_pos (by simpa using hhit)]
      rfl
    · have hmiss : ¬ (decide (k = cstr key) = true ∧ off.toNat < pool.length) := by simpa using hhit
      rw [if_neg hmiss, List.find?_cons_of_neg (by simpa using hhit), ← hrest]
      simp [keyTable, entry, List.append_assoc]

theorem pair_of_length {bs : List Byte} (h : bs.length = 2) : ∃ a b, bs = [a, b] := List.length_eq_two.mp h

theorem word_header {w : BitVec 16} {a b : Byte} (h : ppSetDecrypt setKey (word w) = [a, b]) :
    Fat16.rd16 (ppSetDecrypt setKey [a, b]) 0 = w := by
  rw [← h, ppSetDecrypt_ppSetDecrypt]
  exact word_of_bytes w

theorem lookup_none {entries : List (List Byte × BitVec 16)} {pool : List Byte}
    (h : keyTable entries = [] ∨ pool = []) (key : List Byte) : lookup entries pool key = none := by
  have hmiss : ∀ e ∈ entries, ¬ (e.1 = key ∧ e.2.toNat < pool.length) := by
    rintro e he ⟨-, hoff⟩
    rcases h with hentries | rfl
    · have hentry : entry e = [] := List.flatMap_eq_nil_iff.mp hentries e he
      simp [entry] at hentry
    · exact absurd hoff (Nat.not_lt_zero _)
  unfold lookup
  rw [List.find?_eq_none.mpr fun e he => by simpa using hmiss e he]
  rfl

theorem lookup_encoded (t : Table) (rest key : List Byte) (outsz : BitVec 64) :
    ppSetLookup (encode t ++ rest) key outsz =
      .ok ((lookup t.entries t.pool (cstr key)).map fun text => text.take (outsz - 1).toNat) := by
  obtain ⟨a, b, hcount⟩ := pair_of_length (ppSetDecrypt_length setKey (word (BitVec.ofNat 16 t.entries.length)))
  obtain ⟨c, d, hsize1⟩ := pair_of_length (ppSetDecrypt_length setKey
    (word (BitVec.ofNat 16 (keyTable t.entries).length)))
  obtain ⟨e, f, hsize2⟩ := pair_of_length (ppSetDecrypt_length setKey (word (BitVec.ofNat 16 t.pool.length)))
  have hraw : encode t ++ rest = [a, b, c, d, e, f] ++
      (ppSetDecrypt setKey (keyTable t.entries) ++ (ppSetDecrypt setKey t.pool ++ rest)) := by
    unfold encode
    rw [hcount, hsize1, hsize2]
    simp
  have hlength : (encode t ++ rest).length = 6 + (keyTable t.entries).length + t.pool.length + rest.length := by
    rw [hraw]
    simp
    omega
  have hbody : (encode t ++ rest).drop 6 =
      ppSetDecrypt setKey (keyTable t.entries) ++ (ppSetDecrypt setKey t.pool ++ rest) := by
    rw [hraw]
    rfl
  have hkeys : ((encode t ++ rest).drop 6).take (keyTable t.entries).length =
      ppSetDecrypt setKey (keyTable t.entries) := by
    rw [hbody, List.take_left' (ppSetDecrypt_length _ _)]
  have hpool : ((encode t ++ rest).drop (6 + (keyTable t.entries).length)).take t.pool.length =
      ppSetDecrypt setKey t.pool := by
    rw [← List.drop_drop, hbody, List.drop_left' (ppSetDecrypt_length _ _),
      List.take_left' (ppSetDecrypt_length _ _)]
  have hhead : slice (encode t ++ rest) 0 6 = .ok [a, b, c, d, e, f] := by
    rw [slice_ok (by omega), hraw]
    rfl
  have hfirst : ([a, b, c, d, e, f] : List Byte).take 2 = [a, b] := rfl
  have hsecond : (([a, b, c, d, e, f] : List Byte).drop 2).take 2 = [c, d] := rfl
  have hthird : (([a, b, c, d, e, f] : List Byte).drop 4).take 2 = [e, f] := rfl
  unfold ppSetLookup
  rw [if_neg (by omega), hhead, ok_bind]
  dsimp only
  rw [hfirst, hsecond, hthird, word_header hcount, word_header hsize1, word_header hsize2, BitVec.toNat_ofNat, BitVec.toNat_ofNat,
    BitVec.toNat_ofNat, Nat.mod_eq_of_lt t.count_lt, Nat.mod_eq_of_lt t.keys_lt, Nat.mod_eq_of_lt t.pool_lt]
  by_cases hempty : (keyTable t.entries).length = 0 ∨ t.pool.length = 0
  · have hnone : keyTable t.entries = [] ∨ t.pool = [] := by simpa using hempty
    rw [if_pos (by omega), lookup_none hnone]
    rfl
  · rw [if_neg (by omega), slice_ok (by omega), ok_bind, slice_ok (by omega), ok_bind, hkeys, hpool,
      ppSetDecrypt_ppSetDecrypt, ppSetDecrypt_ppSetDecrypt]
    exact search_table [] t.entries t.keys_nul t.pool key outsz

/-- A lookup finds the string of the first entry with the key and an offset in the pool, clipped to the
    output, and nothing where there is none; and of any bytes it ends, without a read outside the
    input, the keys or the pool, and with a text that fits. -/
theorem lookup_inverts (key : List Byte) (outsz : BitVec 64) :
    (∀ t rest, ppSetLookup (encode t ++ rest) key outsz =
      .ok ((lookup t.entries t.pool (cstr key)).map fun text => text.take (outsz - 1).toNat)) ∧
    ∀ raw, ∃ found, ppSetLookup raw key outsz = .ok found ∧
      ∀ text, found = some text → text.length ≤ (outsz - 1).toNat :=
  ⟨fun t rest => lookup_encoded t rest key outsz, fun raw => lookup_ok raw key outsz⟩

end PeepeeBox.MainSet
