import PeepeeBox.Cp80
import PeepeeBox.Utf8

set_option autoImplicit false

/-!
# The paper and its reader

The window's reader keeps a cursor of its own into the paper, which grows, loses its last byte to a
backspace and is cut at the cursor when it is torn off.
-/
namespace PeepeeBox.Cp80Paper
open Cp80 Utf8

structure Taken where
  text : List Byte
  pos : ℕ
  reset : Bool

/-- `prn_cp80_take` of the paper. -/
def take (b : Buf) (pos max : ℕ) : Taken :=
  if max = 0 then { text := [], pos := pos, reset := false }
  else
    let reset := decide (b.s.length < pos)
    let pos := if reset then 0 else pos
    let n := min (b.s.length - pos) max
    { text := (b.s.drop pos).take n, pos := pos + n, reset := reset }

/-- `prn_cp80_tear`: the paper; the cursor is always put back to 0. -/
def tear (b : Buf) (pos : ℕ) : Buf :=
  if b.s.length < pos then b else { s := b.s.drop pos, full := false }

inductive Op where
  | host (c : Byte)
  | take (max : ℕ)
  | tear

/-- `mirror` is what the window has been given since it last began anew, and `short` tells that the
paper has been shorter than the cursor since then. -/
structure Desk where
  parser : Parser
  pos : ℕ
  mirror : List Byte
  short : Bool

def Desk.paper (d : Desk) : List Byte := d.parser.paper.s

def Desk.taken (d : Desk) (max : ℕ) : Taken := Cp80Paper.take d.parser.paper d.pos max

def step (d : Desk) : Op → Desk
  | .host c =>
    let d := { d with parser := byte d.parser c }
    { d with short := d.short || decide (d.paper.length < d.pos) }
  | .take max =>
    if max = 0 then d
    else
      let t := d.taken max
      { d with pos := t.pos, mirror := if t.reset then t.text else d.mirror ++ t.text, short := false }
  | .tear =>
    { parser := { d.parser with paper := Cp80Paper.tear d.parser.paper d.pos }, pos := 0, mirror := [], short := false }

def run (d : Desk) (ops : List Op) : Desk := ops.foldl step d

def start : Desk := { parser := (init 0).parser, pos := 0, mirror := [], short := false }

/-- A take brings the window up to the cursor, and to the end of the paper if there was room for all
of it; what is torn off is what the window had. -/
def Shows (d : Desk) : Op → Prop
  | .host _ => True
  | .take max =>
    let d' := step d (.take max)
    max ≠ 0 → d'.mirror = d'.paper.take d'.pos ∧ ((d.taken max).text.length < max → d'.mirror = d'.paper)
  | .tear =>
    let d' := step d .tear
    d.paper = (if d.paper.length < d.pos then [] else d.mirror) ++ d'.paper

def Erases (p : Parser) (c : Byte) : Prop :=
  c = 0x08 ∧ p.esc = .none ∧ p.pendingCr = false ∧ p.paper.s ≠ [] ∧ p.paper.s.getLast? ≠ some 0x0A

instance (p : Parser) (c : Byte) : Decidable (Erases p c) := inferInstanceAs (Decidable (_ ∧ _))

def Sealed (b : Buf) : Prop := b.full = true → b.s.getLast? = some 0x0A

structure Grows (b b' : Buf) : Prop where
  more : ∃ t, b'.s = b.s ++ t ∧ WellFormed t
  closed : Sealed b → Sealed b'

theorem grows_refl (b : Buf) : Grows b b := ⟨⟨[], (List.append_nil _).symm, wellFormed_nil⟩, id⟩

theorem grows_trans {a b c : Buf} (hab : Grows a b) (hbc : Grows b c) : Grows a c := by
  obtain ⟨t, ht, hwt⟩ := hab.more
  obtain ⟨u, hu, hwu⟩ := hbc.more
  refine ⟨⟨t ++ u, ?_, wellFormed_append hwt hwu⟩, fun h => hbc.closed (hab.closed h)⟩
  rw [hu, ht, List.append_assoc]

theorem wellFormed_grows {b b' : Buf} (h : Grows b b') (hwell : WellFormed b.s) : WellFormed b'.s := by
  obtain ⟨t, ht, hwt⟩ := h.more
  rw [ht]
  exact wellFormed_append hwell hwt

theorem wellFormed_ascii {bs : List Byte} (h : ∀ b ∈ bs, b.toNat < 0x80) : WellFormed bs := by
  induction bs with
  | nil => exact wellFormed_nil
  | cons b bs ih =>
    have hone : ∀ b : Byte, b.toNat < 0x80 → encode (Char.ofNat b.toNat) = [b] := by decide +kernel
    have hfirst := wellFormed_encode (Char.ofNat b.toNat)
    rw [hone b (h b List.mem_cons_self)] at hfirst
    exact wellFormed_append hfirst (ih fun x hx => h x (List.mem_cons_of_mem _ hx))

theorem wellFormed_note : WellFormed note := wellFormed_ascii (by decide)

theorem wellFormed_utf8 (c : Byte) : WellFormed (utf8 c) := by
  have hchar : ∀ c : Byte, encode (Char.ofNat (if c < 0x80 then c.toNat else (cp437.getD (c - 0x80).toNat 0).toNat))
      = utf8 c := by decide +kernel
  rw [← hchar c]
  exact wellFormed_encode _

theorem put_grows (b : Buf) {s : List Byte} (hs : WellFormed s) (max : ℕ) : Grows b (put b s max) := by
  unfold put
  split
  · exact grows_refl b
  · rename_i hfull
    split
    · refine ⟨⟨note, rfl, wellFormed_note⟩, fun _ _ => ?_⟩
      have hnote : note.getLast? = some 0x0A := rfl
      rw [List.getLast?_append, hnote]
      rfl
    · exact ⟨⟨s, rfl, hs⟩, fun _ hfull' => absurd hfull' hfull⟩

theorem lit_grows (p : Parser) {s : List Byte} (hs : WellFormed s) : Grows p.paper (lit p s).paper :=
  put_grows p.paper hs paperMax

theorem newline_grows (p : Parser) : Grows p.paper (lit p [0x0A]).paper := lit_grows p (wellFormed_ascii (by simp))

theorem feed_grows (p : Parser) (n : ℕ) : Grows p.paper (feed p n).paper := by
  induction n generalizing p with
  | zero => exact grows_refl p.paper
  | succ n ih => exact grows_trans (newline_grows p) (ih (lit p [0x0A]))

theorem tab_grows (p : Parser) (n : ℕ) : Grows p.paper (tab p n).paper := by
  induction n generalizing p with
  | zero => exact grows_refl p.paper
  | succ n ih => exact grows_trans (lit_grows p (wellFormed_ascii (by simp))) (ih { lit p [0x20] with col := p.col + 1 })

theorem printable_grows (p : Parser) (c : Byte) : Grows p.paper (printable p c).paper :=
  lit_grows p (wellFormed_utf8 c)

theorem escDone_grows (p : Parser) : Grows p.paper (escDone p).paper := by
  unfold escDone
  dsimp only
  split
  · split
    · exact grows_refl p.paper
    · split
      · exact feed_grows p _
      · exact grows_refl p.paper
  · split
    · exact lit_grows p (wellFormed_ascii (by decide))
    · exact grows_refl p.paper

theorem escCommand_grows (p : Parser) (c : Byte) : Grows p.paper (escCommand p c).paper := by
  unfold escCommand
  dsimp only
  split
  · exact grows_refl p.paper
  · exact grows_refl p.paper
  · exact escDone_grows { p with escCmd := c, escGot := 0 }
  · exact grows_refl p.paper

theorem escCollect_grows (p : Parser) (c : Byte) : Grows p.paper (escCollect p c).paper := by
  unfold escCollect
  split
  · split
    · exact escDone_grows { p with escZero := false }
    · split
      · exact grows_refl p.paper
      · exact grows_refl p.paper
  · extract_lets q r
    have hq : q.paper = p.paper := by
      change (if p.escGot < 4 then { p with escPar := p.escPar.set p.escGot c } else p).paper = p.paper
      split
      · rfl
      · rfl
    have hr : r.paper = p.paper := hq
    rw [← hr]
    split
    · exact grows_refl r.paper
    · split
      · split
        · exact grows_refl r.paper
        · exact grows_refl r.paper
      · split
        · exact grows_refl r.paper
        · exact escDone_grows r

theorem plain_grows (p : Parser) (c : Byte) (hkeeps : c = 0x08 → p.paper.s = [] ∨ p.paper.s.getLast? = some 0x0A) :
    Grows p.paper (plain p c).paper := by
  unfold plain
  split
  · exact grows_refl p.paper
  · split
    · exact newline_grows p
    · split
      · exact grows_refl p.paper
      · split
        · exact lit_grows p (wellFormed_ascii (by decide))
        · split
          · exact tab_grows p _
          · split
            · rename_i hback
              rw [if_neg]
              · exact grows_refl p.paper
              · rintro ⟨hne, hlast⟩
                exact (hkeeps hback).elim hne hlast
            · split
              · exact grows_refl p.paper
              · exact printable_grows p c

theorem newline_last {p : Parser} (hsealed : Sealed p.paper) : (lit p [0x0A]).paper.s.getLast? = some 0x0A := by
  have hclosed : Sealed (lit p [0x0A]).paper := (newline_grows p).closed hsealed
  by_cases hfull : (lit p [0x0A]).paper.full = true
  · exact hclosed hfull
  · unfold lit put at hfull ⊢
    dsimp only at hfull ⊢
    split at hfull
    · rename_i h
      exact absurd h hfull
    · rename_i h
      rw [if_neg h]
      split at hfull
      · exact absurd rfl hfull
      · rename_i hroom
        rw [if_neg hroom, List.getLast?_append]
        rfl

theorem byte_grows {p : Parser} {c : Byte} (hsealed : Sealed p.paper) (hkeeps : ¬ Erases p c) :
    Grows p.paper (byte p c).paper := by
  unfold byte
  extract_lets line q r
  have hcr : Grows p.paper r.paper := by
    change Grows p.paper (if p.pendingCr ∧ c ≠ 0x0A then { lit p [0x0A] with col := 0 } else p).paper
    split
    · exact newline_grows p
    · exact grows_refl p.paper
  split
  · exact grows_trans hcr (escCommand_grows r c)
  · exact grows_trans hcr (escCollect_grows r c)
  · rename_i hesc
    refine grows_trans hcr (plain_grows r c fun hback => ?_)
    -- an end of line that was still due stands before the backspace
    change q.paper.s = [] ∨ q.paper.s.getLast? = some 0x0A
    by_cases hpending : p.pendingCr = true
    · have hq : q.paper = (lit p [0x0A]).paper := by
        simp only [q]
        rw [if_pos ⟨hpending, by rw [hback]; decide⟩]
      rw [hq]
      exact Or.inr (newline_last hsealed)
    · have hq : q = p := if_neg fun h => hpending h.1
      have hnone : p.esc = .none := by
        rw [← hq]
        exact hesc
      rw [hq]
      by_cases hempty : p.paper.s = []
      · exact Or.inl hempty
      · by_cases hlast : p.paper.s.getLast? = some 0x0A
        · exact Or.inr hlast
        · exact absurd ⟨hback, hnone, by simpa using hpending, hempty, hlast⟩ hkeeps

theorem byte_erases {p : Parser} {c : Byte} (h : Erases p c) :
    (byte p c).paper = { p.paper with s := p.paper.s.dropLast } := by
  obtain ⟨rfl, hesc, hpending, hne, hlast⟩ := h
  unfold byte
  simp only [hpending, Bool.false_eq_true, false_and, if_false, hesc]
  unfold plain
  have hback : p.paper.s ≠ [] ∧ p.paper.s.getLast? ≠ some 0x0A := ⟨hne, hlast⟩
  simp only [if_pos hback]
  rfl

/-- What the reader relies on: only a character of one byte is taken back, a paper that has been
shorter than the cursor still is when the reader comes back, and the paper is torn between two
characters. -/
def Fits (d : Desk) : Op → Prop
  | .host c => Erases d.parser c → ∀ b ∈ d.paper.getLast?, b.toNat < 0x80
  | .take max => max ≠ 0 → d.short = true → d.paper.length < d.pos
  | .tear => (d.short = true → d.paper.length < d.pos) ∧ ∀ b ∈ d.paper[d.pos]?, ¬ IsTail b

instance (d : Desk) : (op : Op) → Decidable (Fits d op)
  | .host _ => inferInstanceAs (Decidable (_ → _))
  | .take _ => inferInstanceAs (Decidable (_ → _))
  | .tear => inferInstanceAs (Decidable (_ ∧ _))

def Careful : Desk → List Op → Prop
  | _, [] => True
  | d, op :: ops => Fits d op ∧ Careful (step d op) ops

instance decidableCareful (d : Desk) : (ops : List Op) → Decidable (Careful d ops)
  | [] => inferInstanceAs (Decidable True)
  | op :: ops =>
    have := decidableCareful (step d op) ops
    inferInstanceAs (Decidable (_ ∧ _))

structure Kept (d : Desk) : Prop where
  wellFormed : WellFormed d.paper
  closed : Sealed d.parser.paper
  within : d.short = false → d.pos ≤ d.paper.length
  shown : d.short = false → d.mirror = d.paper.take d.pos

theorem start_kept : Kept start where
  wellFormed := wellFormed_nil
  closed := fun h => by cases h
  within := fun _ => Nat.zero_le _
  shown := fun _ => rfl

theorem host_kept {d : Desk} {c : Byte} (h : Kept d) (hfits : Fits d (.host c)) : Kept (step d (.host c)) := by
  -- what is left of the paper below the cursor is what the window has
  have hshown (hshort : (step d (.host c)).short = false) (hsame : ∀ n ≤ (step d (.host c)).paper.length,
      n ≤ d.paper.length → (step d (.host c)).paper.take n = d.paper.take n) :
      d.pos ≤ (step d (.host c)).paper.length ∧ d.mirror = (step d (.host c)).paper.take d.pos := by
    obtain ⟨hbefore, hafter⟩ := Bool.or_eq_false_iff.mp hshort
    have hwithin : d.pos ≤ (step d (.host c)).paper.length := Nat.not_lt.mp (of_decide_eq_false hafter)
    rw [hsame d.pos hwithin (h.within hbefore)]
    exact ⟨hwithin, h.shown hbefore⟩
  by_cases herase : Erases d.parser c
  · have hpaper : (byte d.parser c).paper = { d.parser.paper with s := d.paper.dropLast } := byte_erases herase
    have hs : (step d (.host c)).paper = d.paper.dropLast := congrArg Buf.s hpaper
    obtain ⟨b, hb⟩ := Option.ne_none_iff_exists'.mp (mt List.getLast?_eq_none_iff.mp herase.2.2.2.1)
    have hsame (n : ℕ) (hn : n ≤ (step d (.host c)).paper.length) (_ : n ≤ d.paper.length) :
        (step d (.host c)).paper.take n = d.paper.take n := by
      rw [hs] at hn ⊢
      rw [List.dropLast_eq_take, List.take_take, ← List.length_dropLast, Nat.min_eq_left hn]
    constructor
    · rw [hs]
      exact wellFormed_dropLast h.wellFormed hb (hfits herase b hb)
    · intro hfull
      change (byte d.parser c).paper.full = true at hfull
      rw [hpaper] at hfull
      exact absurd (h.closed hfull) herase.2.2.2.2
    · exact fun hshort => (hshown hshort hsame).1
    · exact fun hshort => (hshown hshort hsame).2
  · have hgrows : Grows d.parser.paper (byte d.parser c).paper := byte_grows h.closed herase
    obtain ⟨t, ht, -⟩ := hgrows.more
    have hs : (step d (.host c)).paper = d.paper ++ t := ht
    have hsame (n : ℕ) (_ : n ≤ (step d (.host c)).paper.length) (hn : n ≤ d.paper.length) :
        (step d (.host c)).paper.take n = d.paper.take n := by
      rw [hs, List.take_append_of_le_length hn]
    constructor
    · exact wellFormed_grows hgrows h.wellFormed
    · exact hgrows.closed h.closed
    · exact fun hshort => (hshown hshort hsame).1
    · exact fun hshort => (hshown hshort hsame).2

theorem take_shows {d : Desk} {max : ℕ} (h : Kept d) (hfits : Fits d (.take max)) (hmax : max ≠ 0) :
    (step d (.take max)).mirror = d.paper.take (step d (.take max)).pos ∧
      (step d (.take max)).pos ≤ d.paper.length ∧
      ((d.taken max).text.length < max → (step d (.take max)).pos = d.paper.length) := by
  unfold step
  simp only [if_neg hmax]
  unfold Desk.taken Cp80Paper.take
  rw [if_neg hmax]
  change _ = d.parser.paper.s.take _ ∧ _ ≤ d.parser.paper.s.length ∧ (_ → _ = d.parser.paper.s.length)
  by_cases hpast : d.parser.paper.s.length < d.pos
  · simp only [hpast, decide_true, if_true, List.drop_zero, Nat.sub_zero, Nat.zero_add, List.length_take]
    exact ⟨trivial, by omega, by omega⟩
  · have hshort : d.short = false := by
      cases hd : d.short
      · rfl
      · exact absurd (hfits hmax hd) hpast
    simp only [hpast, decide_false, Bool.false_eq_true, if_false, List.length_take, List.length_drop]
    refine ⟨?_, by omega, by omega⟩
    rw [h.shown hshort, List.take_add]
    rfl

theorem tear_shows {d : Desk} (h : Kept d) (hfits : Fits d .tear) : Shows d .tear := by
  change d.paper = (if d.paper.length < d.pos then [] else d.mirror) ++ (Cp80Paper.tear d.parser.paper d.pos).s
  unfold Cp80Paper.tear
  by_cases hpast : d.paper.length < d.pos
  · rw [if_pos hpast, if_pos (show d.parser.paper.s.length < d.pos from hpast)]
    rfl
  · have hshort : d.short = false := by
      cases hd : d.short
      · rfl
      · exact absurd (hfits.1 hd) hpast
    rw [if_neg hpast, if_neg (show ¬ d.parser.paper.s.length < d.pos from hpast), h.shown hshort]
    exact (List.take_append_drop d.pos d.paper).symm

theorem shows_of_kept {d : Desk} {op : Op} (h : Kept d) (hfits : Fits d op) : Shows d op := by
  cases op with
  | host c => exact trivial
  | take max =>
    intro hmax
    obtain ⟨hmirror, -, hall⟩ := take_shows h hfits hmax
    have hpaper : (step d (.take max)).paper = d.paper := by
      unfold step
      simp only [if_neg hmax]
      rfl
    rw [hpaper]
    refine ⟨hmirror, fun hroom => ?_⟩
    rw [hmirror, hall hroom, List.take_length]
  | tear => exact tear_shows h hfits

theorem step_kept {d : Desk} {op : Op} (h : Kept d) (hfits : Fits d op) : Kept (step d op) := by
  cases op with
  | host c => exact host_kept h hfits
  | take max =>
    by_cases hmax : max = 0
    · unfold step
      simp only [if_pos hmax]
      exact h
    · obtain ⟨hmirror, hpos, -⟩ := take_shows h hfits hmax
      have hparser : (step d (.take max)).parser = d.parser := by
        unfold step
        simp only [if_neg hmax]
      have hpaper : (step d (.take max)).paper = d.paper := congrArg (fun p => p.paper.s) hparser
      constructor
      · rw [hpaper]
        exact h.wellFormed
      · rw [hparser]
        exact h.closed
      · rw [hpaper]
        exact fun _ => hpos
      · rw [hpaper]
        exact fun _ => hmirror
  | tear =>
    have hclosed : WellFormed (Cp80Paper.tear d.parser.paper d.pos).s ∧ Sealed (Cp80Paper.tear d.parser.paper d.pos) := by
      unfold Cp80Paper.tear
      split
      · exact ⟨h.wellFormed, h.closed⟩
      · exact ⟨wellFormed_drop h.wellFormed hfits.2, fun hfull => by cases hfull⟩
    exact ⟨hclosed.1, hclosed.2, fun _ => Nat.zero_le _, fun _ => rfl⟩

theorem run_kept {d : Desk} {ops : List Op} (h : Kept d) (hops : Careful d ops) : Kept (run d ops) := by
  induction ops generalizing d with
  | nil => exact h
  | cons op ops ih => exact ih (step_kept h hops.1) hops.2

theorem careful_append {d : Desk} {ops ops' : List Op} (h : Careful d (ops ++ ops')) :
    Careful d ops ∧ Careful (run d ops) ops' := by
  induction ops generalizing d with
  | nil => exact ⟨trivial, h⟩
  | cons op ops ih => exact ⟨⟨h.1, (ih h.2).1⟩, (ih h.2).2⟩

/-- While the reader's conditions are met, the paper is text and every take shows it as it is. -/
theorem window_follows (ops : List Op) (h : Careful start ops) :
    WellFormed (run start ops).paper ∧
      ∀ before op after, ops = before ++ op :: after → Shows (run start before) op := by
  refine ⟨(run_kept start_kept h).wellFormed, ?_⟩
  rintro before op after rfl
  obtain ⟨hbefore, hop⟩ := careful_append h
  exact shows_of_kept (run_kept start_kept hbefore) hop.1

/-- A receipt with an umlaut, a correction, a reader with room for two bytes, and the paper torn off. -/
def receipt : List Op :=
  [.host 0x81, .take 1, .take 2, .host 0x41, .host 0x08, .host 0x42, .take 2, .host 0x0A, .tear, .take 2]

theorem window_follows_receipt :
    Careful start receipt ∧ WellFormed (run start receipt).paper ∧
      ∀ before op after, receipt = before ++ op :: after → Shows (run start before) op := by
  have hcareful : Careful start receipt := by decide +kernel
  exact ⟨hcareful, window_follows receipt hcareful⟩

/-- A backspace takes half a character, a tear leaves half a one, and a character erased and another
one printed before the reader comes back leaves the first in the window. -/
theorem window_goes_astray :
    ¬ WellFormed (run start [.host 0x81, .host 0x08]).paper ∧
      ¬ WellFormed (run start [.host 0x81, .take 1, .tear]).paper ∧
      ¬ Shows (run start [.host 0x61, .take 8, .host 0x08, .host 0x62]) (.take 8) := by
  have herased : (run start [.host 0x81, .host 0x08]).paper = [0xC3] := by decide +kernel
  have htorn : (run start [.host 0x81, .take 1, .tear]).paper = [0xBC] := by decide +kernel
  refine ⟨?_, ?_, ?_⟩
  · rw [herased]
    exact fun h => absurd (wellFormed_singleton h) (by decide)
  · rw [htorn]
    exact fun h => absurd (wellFormed_singleton h) (by decide)
  · intro h
    have hmirror := (h (by decide)).1
    revert hmirror
    decide +kernel

end PeepeeBox.Cp80Paper
