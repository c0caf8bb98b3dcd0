import PeepeeBox.Cp80Paper

set_option autoImplicit false

/-!
# The end of an escape sequence

Most sequences know how many bytes they take when their command has come; the lists of tab stops go
on until a NUL, however far away it is.
-/
namespace PeepeeBox.Cp80Escapes
open Cp80 Cp80Paper
open HaspRecord (ascii)

def returned (p : Parser) (c : Byte) : Parser :=
  { (if p.pendingCr ∧ c ≠ 0x0A then { lit p [0x0A] with col := 0 } else p) with pendingCr := false }

/-- No later than after `K` of the bytes the parser is out of the sequence it was in. -/
def Ends (K : ℕ) (p : Parser) (bs : List Byte) : Prop :=
  ∃ before after, bs = before ++ after ∧ before.length ≤ K ∧ (before.foldl byte p).esc = .none

/-- One of the bytes is printed. -/
def Reaches (p : Parser) (bs : List Byte) : Prop :=
  ∃ before c after, bs = before ++ c :: after ∧
    byte (before.foldl byte p) c = printable (returned (before.foldl byte p) c) c

/-- The parser is in a list of tab stops, or the first of the bytes opens one. -/
def TabStops (p : Parser) (bs : List Byte) : Prop :=
  p.esc = .collecting ∧ p.escZero = true ∨
    p.esc = .command ∧ p.escIntro = 0x1B ∧ ∃ c ∈ bs.head?, c ∈ ascii "DBb"

theorem returned_eq (p : Parser) (c : Byte) :
    returned p c = { p with paper := (returned p c).paper, col := (returned p c).col, pendingCr := false } := by
  unfold returned
  split
  · rfl
  · rfl

theorem returned_keeps (p : Parser) (c : Byte) :
    (returned p c).esc = p.esc ∧ (returned p c).escIntro = p.escIntro ∧ (returned p c).escZero = p.escZero ∧
      (returned p c).escWant = p.escWant := by
  rw [returned_eq]
  exact ⟨rfl, rfl, rfl, rfl⟩

theorem byte_returned (p : Parser) (c : Byte) :
    byte p c = match p.esc with
      | .command => escCommand (returned p c) c
      | .collecting => escCollect (returned p c) c
      | .none => plain (returned p c) c := by
  rw [← (returned_keeps p c).1]
  rfl

theorem plain_printable {c : Byte} (p : Parser) (h : 0x20 ≤ c) : plain p c = printable p c := by
  have hcontrol : ¬ c < 0x20 := BitVec.not_lt.mpr h
  have hne {k : Byte} (hk : k < 0x20) : c ≠ k := fun heq => hcontrol (heq ▸ hk)
  have hintro : ¬ (c = 0x1B ∨ c = 0x1D) := not_or.mpr ⟨hne (by decide), hne (by decide)⟩
  rw [plain, if_neg hintro, if_neg (hne (by decide)), if_neg (hne (by decide)), if_neg (hne (by decide)),
    if_neg (hne (by decide)), if_neg (hne (by decide)), if_neg hcontrol]

theorem escLen_short {c : Byte} {n : ℕ} (h : escLen c = .bytes n) : n ≤ 4 := by
  unfold escLen at h
  split_ifs at h
  all_goals
    simp at h
    omega

theorem gsLen_short {c : Byte} {n : ℕ} (h : gsLen c = .bytes n) : n ≤ 4 := by
  unfold gsLen at h
  split_ifs at h
  all_goals
    simp at h
    omega

theorem escLen_zero (c : Byte) : escLen c = .zero ↔ c ∈ ascii "DBb" := by
  revert c
  decide +kernel

theorem gsLen_counted (c : Byte) : gsLen c ≠ .zero := by
  revert c
  decide +kernel

/-- What holds of the parser between two bytes: nothing is skipped as the data of an image, and a
sequence of known length has one to four bytes to come. -/
structure Counted (p : Parser) : Prop where
  image : p.escImage = 0
  fresh : p.esc = .command → p.escZero = false
  want : p.esc = .collecting → p.escZero = false → 1 ≤ p.escWant ∧ p.escWant ≤ 4

theorem counted_none {p : Parser} (himage : p.escImage = 0) (hesc : p.esc = .none) : Counted p where
  image := himage
  fresh := fun h => by rw [hesc] at h; cases h
  want := fun h => by rw [hesc] at h; cases h

theorem feed_image (p : Parser) (n : ℕ) : (feed p n).escImage = p.escImage := by
  induction n generalizing p with
  | zero => rfl
  | succ n ih => exact ih (lit p [0x0A])

theorem escDone_image (p : Parser) : (escDone p).escImage = p.escImage := by
  unfold escDone
  dsimp only
  split
  · split
    · rfl
    · split
      · exact feed_image p _
      · rfl
  · split
    · rfl
    · rfl

theorem escDone_counted {p : Parser} (himage : p.escImage = 0) : Counted (escDone p) :=
  counted_none (by rw [escDone_image, himage]) rfl

theorem escCommand_counted {p : Parser} (c : Byte) (h : Counted p) (hzero : p.escZero = false) :
    Counted (escCommand p c) := by
  have hshort {n : ℕ} (hlen : (if p.escIntro = 0x1B then escLen c else gsLen c) = .bytes n) : n ≤ 4 := by
    split at hlen
    · exact escLen_short hlen
    · exact gsLen_short hlen
  unfold escCommand
  dsimp only
  split
  · exact counted_none h.image rfl
  · exact { image := h.image, fresh := nofun, want := fun _ hz => by cases hz }
  · exact escDone_counted h.image
  · rename_i n hlen
    refine { image := h.image, fresh := fun _ => hzero, want := fun _ _ => ?_ }
    have := hshort hlen
    dsimp only
    omega

theorem escCollect_tabs {p : Parser} (c : Byte) (hzero : p.escZero = true) :
    escCollect p c = if c = 0 then escDone { p with escZero := false }
      else if p.escGot < 4 then { p with escPar := p.escPar.set p.escGot c, escGot := p.escGot + 1 } else p := by
  unfold escCollect
  rw [if_pos hzero]

theorem escCollect_counted {p : Parser} (c : Byte) (himage : p.escImage = 0) (hzero : p.escZero = false) :
    ∃ q : Parser, q.escImage = 0 ∧ q.escZero = false ∧ q.esc = p.esc ∧ q.escWant = p.escWant - 1 ∧
      escCollect p c = if 0 < q.escWant then q else escDone q := by
  unfold escCollect
  rw [if_neg (by rw [hzero]; simp)]
  extract_lets stored q
  have hstored : stored.escImage = 0 ∧ stored.escZero = false ∧ stored.esc = p.esc ∧ stored.escWant = p.escWant := by
    simp only [stored]
    split
    · exact ⟨himage, hzero, rfl, rfl⟩
    · exact ⟨himage, hzero, rfl, rfl⟩
  have hq : q.escImage = 0 := hstored.1
  refine ⟨q, hq, hstored.2.1, hstored.2.2.1, ?_, ?_⟩
  · change stored.escWant - 1 = p.escWant - 1
    rw [hstored.2.2.2]
  · have hnever : q.escImage ≠ -1 ∧ q.escImage ≠ -2 := by simp [hq]
    rw [if_neg hnever.1, if_neg hnever.2]

theorem escCollect_keeps {p : Parser} (c : Byte) (h : Counted p) (hesc : p.esc = .collecting) :
    Counted (escCollect p c) := by
  by_cases hzero : p.escZero = true
  · rw [escCollect_tabs c hzero]
    split
    · exact escDone_counted h.image
    · split
      · exact { image := h.image, fresh := fun hc => by simp [hesc] at hc, want := fun _ hz => by simp [hzero] at hz }
      · exact h
  · have hcounted : p.escZero = false := by simpa using hzero
    obtain ⟨q, himage, hqzero, hqesc, hwant, heq⟩ := escCollect_counted c h.image hcounted
    rw [heq]
    split
    · rename_i hmore
      refine { image := himage, fresh := fun _ => hqzero, want := fun _ _ => ?_ }
      have := h.want hesc hcounted
      omega
    · exact escDone_counted himage

theorem tab_image (p : Parser) (n : ℕ) : (tab p n).escImage = p.escImage ∧ (tab p n).esc = p.esc := by
  induction n generalizing p with
  | zero => exact ⟨rfl, rfl⟩
  | succ n ih => exact ih { lit p [0x20] with col := p.col + 1 }

theorem plain_counted {p : Parser} (c : Byte) (h : Counted p) (hesc : p.esc = .none) : Counted (plain p c) := by
  unfold plain
  split
  · exact { image := rfl, fresh := fun _ => rfl, want := nofun }
  · split
    · exact counted_none h.image hesc
    · split
      · exact counted_none h.image hesc
      · split
        · exact counted_none h.image hesc
        · split
          · have := tab_image p ((p.col / tabs + 1) * tabs - p.col)
            exact counted_none (by rw [this.1, h.image]) (by rw [this.2, hesc])
          · split
            · split
              · exact counted_none h.image hesc
              · exact h
            · split
              · exact h
              · exact counted_none h.image hesc

theorem returned_counted {p : Parser} (c : Byte) (h : Counted p) : Counted (returned p c) := by
  rw [returned_eq]
  exact { image := h.image, fresh := h.fresh, want := h.want }

theorem byte_counted {p : Parser} (c : Byte) (h : Counted p) : Counted (byte p c) := by
  have hret := returned_counted c h
  have hesc := (returned_keeps p c).1
  rw [byte_returned]
  cases hp : p.esc with
  | none => exact plain_counted c hret (by rw [hesc, hp])
  | command => exact escCommand_counted c hret (hret.fresh (by rw [hesc, hp]))
  | collecting => exact escCollect_keeps c hret (by rw [hesc, hp])

theorem step_counted {d : Desk} (op : Op) (h : Counted d.parser) : Counted (step d op).parser := by
  cases op with
  | host c => exact byte_counted c h
  | take max =>
    simp only [step]
    split
    · exact h
    · exact h
  | tear => exact { image := h.image, fresh := h.fresh, want := h.want }

theorem run_counted {d : Desk} (ops : List Op) (h : Counted d.parser) : Counted (run d ops).parser := by
  induction ops generalizing d with
  | nil => exact h
  | cons op ops ih => exact ih (step_counted op h)

theorem start_counted : Counted start.parser := counted_none rfl rfl

theorem ends_now {p : Parser} (K : ℕ) (bs : List Byte) (h : p.esc = .none) : Ends K p bs :=
  ⟨[], bs, rfl, Nat.zero_le K, h⟩

theorem ends_cons {K : ℕ} {p : Parser} {c : Byte} {bs : List Byte} (h : Ends K (byte p c) bs) :
    Ends (K + 1) p (c :: bs) := by
  obtain ⟨before, after, heq, hlen, hesc⟩ := h
  refine ⟨c :: before, after, ?_, ?_, hesc⟩
  · rw [heq]
    rfl
  · simpa using hlen

theorem ends_mono {K L : ℕ} {p : Parser} {bs : List Byte} (hle : K ≤ L) (h : Ends K p bs) : Ends L p bs := by
  obtain ⟨before, after, heq, hlen, hesc⟩ := h
  exact ⟨before, after, heq, Nat.le_trans hlen hle, hesc⟩

theorem counted_ends {n : ℕ} {p : Parser} {bs : List Byte} (h : Counted p) (hesc : p.esc = .collecting)
    (hzero : p.escZero = false) (hwant : p.escWant ≤ n) (hlen : n ≤ bs.length) : Ends n p bs := by
  induction n generalizing p bs with
  | zero =>
    have := (h.want hesc hzero).1
    simp at hwant
    omega
  | succ n ih =>
    cases bs with
    | nil => simp at hlen
    | cons c bs =>
      have hret := returned_counted c h
      obtain ⟨hpesc, -, hpzero, hpwant⟩ := returned_keeps p c
      obtain ⟨q, himage, hqzero, hqesc, hqwant, heq⟩ := escCollect_counted c hret.image (hpzero.trans hzero)
      have hbyte : byte p c = if 0 < q.escWant then q else escDone q := by
        rw [byte_returned, hesc, ← heq]
      apply ends_cons
      by_cases hmore : 0 < q.escWant
      · rw [if_pos hmore] at hbyte
        have hq : Counted q := hbyte ▸ byte_counted c h
        rw [hbyte]
        apply ih hq (by rw [hqesc, hpesc, hesc]) hqzero
        · rw [hqwant, hpwant]
          simp at hwant
          omega
        · simpa using hlen
      · rw [hbyte, if_neg hmore]
        exact ends_now n bs rfl

theorem tabs_byte {p : Parser} {c : Byte} (hesc : p.esc = .collecting) (hzero : p.escZero = true) :
    if c = 0 then (byte p c).esc = .none
    else (byte p c).esc = .collecting ∧ (byte p c).escZero = true ∧ (byte p c).col = (returned p c).col := by
  obtain ⟨hpesc, -, hpzero, -⟩ := returned_keeps p c
  have hbyte : byte p c = escCollect (returned p c) c := by rw [byte_returned, hesc]
  rw [hbyte, escCollect_tabs c (hpzero.trans hzero)]
  split
  · rfl
  · split
    · exact ⟨hpesc.trans hesc, hpzero.trans hzero, rfl⟩
    · exact ⟨hpesc.trans hesc, hpzero.trans hzero, rfl⟩

theorem tabs_end {K : ℕ} {p : Parser} {bs : List Byte} (hesc : p.esc = .collecting) (hzero : p.escZero = true)
    (hnul : 0 ∈ bs.take K) : Ends K p bs := by
  induction bs generalizing p K with
  | nil => simp at hnul
  | cons c bs ih =>
    cases K with
    | zero => simp at hnul
    | succ K =>
      apply ends_cons
      have hbyte := tabs_byte (c := c) hesc hzero
      by_cases hc : c = 0
      · rw [if_pos hc] at hbyte
        exact ends_now K bs hbyte
      · rw [if_neg hc] at hbyte
        rw [List.take_succ_cons] at hnul
        exact ih hbyte.1 hbyte.2.1 ((List.mem_cons.mp hnul).resolve_left (Ne.symm hc))

theorem tabs_go_on {p : Parser} {bs : List Byte} (hesc : p.esc = .collecting) (hzero : p.escZero = true)
    (hnul : 0 ∉ bs) : (bs.foldl byte p).esc = .collecting ∧ (bs.foldl byte p).escZero = true := by
  induction bs generalizing p with
  | nil => exact ⟨hesc, hzero⟩
  | cons c bs ih =>
    simp only [List.mem_cons, not_or] at hnul
    have hbyte := tabs_byte (c := c) hesc hzero
    rw [if_neg (Ne.symm hnul.1)] at hbyte
    exact ih hbyte.1 hbyte.2.1 hnul.2

theorem tabs_swallow {p : Parser} {bs : List Byte} (hesc : p.esc = .collecting) (hzero : p.escZero = true)
    (hnul : 0 ∉ bs) : ¬ Reaches p bs := by
  rintro ⟨before, c, after, heq, hprint⟩
  have hbefore : 0 ∉ before := fun hmem => hnul (by rw [heq]; exact List.mem_append_left _ hmem)
  have hc : c ≠ 0 := by
    rintro rfl
    exact hnul (by rw [heq]; simp)
  have hon := tabs_go_on hesc hzero hbefore
  have hbyte := tabs_byte (c := c) hon.1 hon.2
  rw [if_neg hc, hprint] at hbyte
  have hcol : (returned (before.foldl byte p) c).col + 1 = (returned (before.foldl byte p) c).col := hbyte.2.2
  omega

theorem command_byte {p : Parser} (c : Byte) (h : Counted p) (hesc : p.esc = .command) :
    if p.escIntro = 0x1B ∧ c ∈ ascii "DBb" then
      (byte p c).esc = .collecting ∧ (byte p c).escZero = true
    else (byte p c).esc = .none ∨ (byte p c).esc = .collecting ∧ (byte p c).escZero = false := by
  obtain ⟨-, hpintro, hpzero, -⟩ := returned_keeps p c
  have hbyte : byte p c = escCommand (returned p c) c := by rw [byte_returned, hesc]
  have hzero : (if (returned p c).escIntro = 0x1B then escLen c else gsLen c) = .zero ↔
      p.escIntro = 0x1B ∧ c ∈ ascii "DBb" := by
    rw [hpintro]
    split
    · rename_i hintro
      rw [escLen_zero]
      exact (and_iff_right hintro).symm
    · rename_i hintro
      exact ⟨fun hlen => absurd hlen (gsLen_counted c), fun hopens => absurd hopens.1 hintro⟩
  rw [hbyte]
  unfold escCommand
  dsimp only
  generalize (if (returned p c).escIntro = 0x1B then escLen c else gsLen c) = len at hzero ⊢
  cases len with
  | unknown =>
    rw [if_neg fun hopens => nomatch hzero.mpr hopens]
    exact Or.inl rfl
  | zero =>
    rw [if_pos (hzero.mp rfl)]
    exact ⟨rfl, rfl⟩
  | bytes n =>
    rw [if_neg fun hopens => nomatch hzero.mpr hopens]
    cases n with
    | zero => exact Or.inl rfl
    | succ n => exact Or.inr ⟨rfl, hpzero.trans (h.fresh hesc)⟩

theorem tabs_never_end {K : ℕ} {p : Parser} {bs : List Byte} (h : Counted p) (htabs : TabStops p bs)
    (hnul : 0 ∉ bs.take K) : ¬ Ends K p bs := by
  rintro ⟨before, after, heq, hlen, hend⟩
  have hbefore : 0 ∉ before := by
    intro hmem
    apply hnul
    rw [heq, List.take_append, List.take_of_length_le hlen]
    exact List.mem_append_left _ hmem
  rcases htabs with ⟨hesc, hzero⟩ | ⟨hesc, hintro, c, hc, hopens⟩
  · rw [(tabs_go_on hesc hzero hbefore).1] at hend
    cases hend
  · cases before with
    | nil =>
      rw [List.foldl_nil, hesc] at hend
      cases hend
    | cons b before =>
      have hb : b = c := by
        rw [heq] at hc
        simpa using hc
      have hbyte := command_byte b h hesc
      rw [if_pos ⟨hintro, hb ▸ hopens⟩] at hbyte
      have hrest : 0 ∉ before := fun hmem => hbefore (List.mem_cons_of_mem b hmem)
      rw [List.foldl_cons, (tabs_go_on hbyte.1 hbyte.2 hrest).1] at hend
      cases hend

theorem ends_unless_tabs {K : ℕ} {p : Parser} {bs : List Byte} (h : Counted p) (hK : 5 ≤ K) (hlong : K < bs.length)
    (hother : ¬ (TabStops p bs ∧ 0 ∉ bs.take K)) : Ends K p bs := by
  cases hesc : p.esc with
  | none => exact ends_now K bs hesc
  | collecting =>
    by_cases hzero : p.escZero = true
    · have hnul : 0 ∈ bs.take K := by
        by_contra hnul
        exact hother ⟨Or.inl ⟨hesc, hzero⟩, hnul⟩
      exact tabs_end hesc hzero hnul
    · have hcounted : p.escZero = false := by simpa using hzero
      have hends : Ends 4 p bs := counted_ends h hesc hcounted (h.want hesc hcounted).2 (by omega)
      exact ends_mono (by omega) hends
  | command =>
    cases bs with
    | nil => simp at hlong
    | cons c bs =>
      obtain ⟨k, rfl⟩ : ∃ k, K = k + 1 := ⟨K - 1, by omega⟩
      apply ends_cons
      have hbyte := command_byte c h hesc
      have hafter := byte_counted c h
      simp only [List.length_cons] at hlong
      by_cases hopens : p.escIntro = 0x1B ∧ c ∈ ascii "DBb"
      · rw [if_pos hopens] at hbyte
        have hnul : 0 ∈ (c :: bs).take (k + 1) := by
          by_contra hnul
          exact hother ⟨Or.inr ⟨hesc, hopens.1, c, rfl, hopens.2⟩, hnul⟩
        rw [List.take_succ_cons] at hnul
        have hc : (0 : Byte) ≠ c := by
          rintro rfl
          exact absurd hopens.2 (by decide)
        exact tabs_end hbyte.1 hbyte.2 ((List.mem_cons.mp hnul).resolve_left hc)
      · rw [if_neg hopens] at hbyte
        rcases hbyte with hdone | ⟨hcollecting, hzero⟩
        · exact ends_now k bs hdone
        · have hends : Ends 4 (byte p c) bs :=
            counted_ends hafter hcollecting hzero (hafter.want hcollecting hzero).2 (by omega)
          exact ends_mono (by omega) hends

theorem reaches_of_ends {K : ℕ} {p : Parser} {bs : List Byte} (hlong : K < bs.length) (hends : Ends K p bs)
    (hprint : ∀ b ∈ bs, 0x20 ≤ b) : Reaches p bs := by
  obtain ⟨before, after, heq, hlen, hesc⟩ := hends
  cases after with
  | nil =>
    rw [heq, List.append_nil] at hlong
    omega
  | cons c after =>
    refine ⟨before, c, after, heq, ?_⟩
    have hc : c ∈ bs := by rw [heq]; simp
    rw [byte_returned, hesc]
    exact plain_printable _ (hprint c hc)

/-- A stream that is longer than every sequence of known length brings the parser out of the sequence
it is in, and gets something onto the paper, if the parser is not in a list of tab stops or the NUL
comes in time. -/
theorem escape_ends_iff (ops : List Op) (K : ℕ) (bs : List Byte) (hK : 5 ≤ K) (hlong : K < bs.length) :
    let p := (run start ops).parser
    (Ends K p bs ∧ ((∀ b ∈ bs, 0x20 ≤ b) → Reaches p bs)) ↔ ¬ (TabStops p bs ∧ 0 ∉ bs.take K) := by
  intro p
  have h : Counted p := run_counted ops start_counted
  constructor
  · rintro ⟨hends, -⟩ ⟨htabs, hnul⟩
    exact tabs_never_end h htabs hnul hends
  · intro hother
    have hends := ends_unless_tabs h hK hlong hother
    exact ⟨hends, reaches_of_ends hlong hends⟩

/-- After ESC K two bytes of the text are taken for the tag and the third is printed. -/
theorem escape_ends_tag :
    let p := (run start [.host 0x1B, .host 0x4B]).parser
    Ends 5 p (ascii "ABCDEF") ∧ Reaches p (ascii "ABCDEF") := by
  have hends := (escape_ends_iff [.host 0x1B, .host 0x4B] 5 (ascii "ABCDEF") (by decide) (by decide)).mpr (by
    rintro ⟨⟨-, hzero⟩ | ⟨hcommand, -⟩, -⟩
    · exact absurd hzero (by decide +kernel)
    · exact absurd hcommand (by decide +kernel))
  exact ⟨hends.1, hends.2 (by decide)⟩

/-- After ESC D no number of letters ends the list or gets onto the paper. -/
theorem tab_stops_swallow :
    (¬ ∃ K : ℕ, ∀ (ops : List Op) (bs : List Byte), K < bs.length → Ends K (run start ops).parser bs) ∧
      ¬ ∃ K : ℕ, ∀ (ops : List Op) (bs : List Byte), K < bs.length → (∀ b ∈ bs, 0x20 ≤ b) →
        Reaches (run start ops).parser bs := by
  have hnul (n : ℕ) : (0 : Byte) ∉ List.replicate n 0x41 := by simp [List.mem_replicate]
  have hesc : (run start [.host 0x1B, .host 0x44]).parser.esc = .collecting := by decide +kernel
  have hzero : (run start [.host 0x1B, .host 0x44]).parser.escZero = true := by decide +kernel
  constructor
  · rintro ⟨K, h⟩
    have hends := h [.host 0x1B, .host 0x44] (List.replicate (K + 1) 0x41) (by simp)
    have hfirst : 0 ∉ (List.replicate (K + 1) (0x41 : Byte)).take K :=
      fun hmem => hnul (K + 1) (List.mem_of_mem_take hmem)
    exact tabs_never_end (run_counted _ start_counted) (Or.inl ⟨hesc, hzero⟩) hfirst hends
  · rintro ⟨K, h⟩
    have hreaches := h [.host 0x1B, .host 0x44] (List.replicate (K + 1) 0x41) (by simp) (by simp [List.mem_replicate])
    exact tabs_swallow hesc hzero (hnul (K + 1)) hreaches

end PeepeeBox.Cp80Escapes
