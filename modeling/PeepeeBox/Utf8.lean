import Mathlib.Data.List.Basic
import PeepeeBox.Bytes

set_option autoImplicit false

/-!
# Well-formed UTF-8

Strings of bytes that are the encodings of characters one behind the other, and where such a string
may be cut.
-/
namespace PeepeeBox.Utf8

def encode (c : Char) : List Byte := (String.utf8EncodeChar c).map UInt8.toBitVec

def WellFormed (bs : List Byte) : Prop := ∃ cs : List Char, cs.flatMap encode = bs

def IsTail (b : Byte) : Prop := 0x80 ≤ b.toNat ∧ b.toNat < 0xC0

instance (b : Byte) : Decidable (IsTail b) := inferInstanceAs (Decidable (_ ∧ _))

@[simp] theorem wellFormed_nil : WellFormed [] := ⟨[], rfl⟩

theorem wellFormed_encode (c : Char) : WellFormed (encode c) := ⟨[c], List.append_nil _⟩

theorem wellFormed_append {xs ys : List Byte} (hx : WellFormed xs) (hy : WellFormed ys) : WellFormed (xs ++ ys) := by
  obtain ⟨cs, rfl⟩ := hx
  obtain ⟨ds, rfl⟩ := hy
  exact ⟨cs ++ ds, List.flatMap_append⟩

theorem encode_shape (c : Char) :
    (∃ b, encode c = [b] ∧ b.toNat < 0x80) ∨
    ∃ b t, encode c = b :: t ∧ t ≠ [] ∧ ¬ IsTail b ∧ ∀ x ∈ t, IsTail x := by
  have htail (n : ℕ) : IsTail (UInt8.ofNat (n % 64 + 128)).toBitVec := by
    have hvalue : (UInt8.ofNat (n % 64 + 128)).toBitVec.toNat = (n % 64 + 128) % 256 := rfl
    unfold IsTail
    omega
  have hfirst {n : ℕ} (hlow : 192 ≤ n) (hhigh : n < 256) : ¬ IsTail (UInt8.ofNat n).toBitVec := by
    have hvalue : (UInt8.ofNat n).toBitVec.toNat = n % 256 := rfl
    unfold IsTail
    omega
  unfold encode String.utf8EncodeChar
  dsimp only
  generalize c.val.toNat = v
  split
  · refine Or.inl ⟨_, rfl, ?_⟩
    change v % 256 < 0x80
    omega
  · refine Or.inr ?_
    split
    · refine ⟨_, _, rfl, List.cons_ne_nil _ _, hfirst (by omega) (by omega), ?_⟩
      intro x hx
      simp only [List.map_cons, List.map_nil, List.mem_singleton] at hx
      rw [hx]
      exact htail v
    · split
      · refine ⟨_, _, rfl, List.cons_ne_nil _ _, hfirst (by omega) (by omega), ?_⟩
        intro x hx
        simp only [List.map_cons, List.map_nil, List.mem_cons, List.not_mem_nil, or_false] at hx
        rcases hx with rfl | rfl
        · exact htail _
        · exact htail _
      · refine ⟨_, _, rfl, List.cons_ne_nil _ _, hfirst (by omega) (by omega), ?_⟩
        intro x hx
        simp only [List.map_cons, List.map_nil, List.mem_cons, List.not_mem_nil, or_false] at hx
        rcases hx with rfl | rfl | rfl
        · exact htail _
        · exact htail _
        · exact htail _

theorem wellFormed_dropLast {bs : List Byte} {b : Byte} (h : WellFormed bs) (hlast : bs.getLast? = some b)
    (hb : b.toNat < 0x80) : WellFormed bs.dropLast := by
  obtain ⟨cs, rfl⟩ := h
  rcases List.eq_nil_or_concat cs with rfl | ⟨cs, c, rfl⟩
  · cases hlast
  · rw [List.concat_eq_append, List.flatMap_append, List.flatMap_singleton] at hlast ⊢
    rcases encode_shape c with ⟨x, hx, -⟩ | ⟨x, t, hx, hne, -, htail⟩
    · rw [hx, List.dropLast_concat]
      exact ⟨cs, rfl⟩
    · rw [hx] at hlast
      have hmem : b ∈ t := by
        rw [List.getLast?_append, List.getLast?_cons_of_ne_nil hne] at hlast
        obtain ⟨y, hy⟩ := Option.ne_none_iff_exists'.mp (mt List.getLast?_eq_none_iff.mp hne)
        rw [hy, Option.some_or] at hlast
        obtain rfl := Option.some.inj hlast
        exact List.mem_of_getLast? hy
      exact absurd (htail b hmem).1 (Nat.not_le.mpr hb)

theorem wellFormed_drop {bs : List Byte} {n : ℕ} (h : WellFormed bs) (hcut : ∀ b, bs[n]? = some b → ¬ IsTail b) :
    WellFormed (bs.drop n) := by
  obtain ⟨cs, rfl⟩ := h
  induction cs generalizing n with
  | nil =>
    rw [List.flatMap_nil, List.drop_nil]
    exact wellFormed_nil
  | cons c cs ih =>
    rw [List.flatMap_cons] at hcut ⊢
    by_cases hlong : (encode c).length ≤ n
    · rw [List.getElem?_append_right hlong] at hcut
      rw [List.drop_append, List.drop_eq_nil_of_le hlong, List.nil_append]
      exact ih hcut
    · cases n with
      | zero => exact ⟨c :: cs, rfl⟩
      | succ n =>
        rcases encode_shape c with ⟨x, hx, -⟩ | ⟨x, t, hx, -, -, htail⟩
        · rw [hx] at hlong
          exact absurd (Nat.succ_le_succ (Nat.zero_le n)) hlong
        · rw [hx, List.length_cons] at hlong
          have hlt : n < t.length := by omega
          rw [hx, List.cons_append, List.getElem?_cons_succ, List.getElem?_append_left hlt] at hcut
          exact absurd (htail _ (List.getElem_mem hlt)) (hcut _ (List.getElem?_eq_getElem hlt))

theorem wellFormed_singleton {b : Byte} (h : WellFormed [b]) : b.toNat < 0x80 := by
  obtain ⟨cs, hcs⟩ := h
  cases cs with
  | nil => cases hcs
  | cons c cs =>
    rw [List.flatMap_cons] at hcs
    rcases encode_shape c with ⟨x, hx, hlow⟩ | ⟨x, t, hx, hne, -, -⟩
    · rw [hx] at hcs
      rw [← (List.cons.inj hcs).1]
      exact hlow
    · rw [hx] at hcs
      exact absurd (List.append_eq_nil_iff.mp (List.cons.inj hcs).2).1 hne

end PeepeeBox.Utf8
