import Mathlib.Data.List.Nodup
import Mathlib.Data.List.TakeWhile
import PeepeeBox.Ini

set_option autoImplicit false

/-!
# What is saved and read again

The reader sees one line after the other, and each line that the writer makes is a heading or one entry.
-/
namespace PeepeeBox.IniReadback
open Ini

def NameByte (b : Byte) : Bool := 0x21 ≤ b ∧ b ≤ 0x7E ∧ b ≠ 0x3D ∧ b ≠ 0x5B ∧ b ≠ 0x5D ∧ b ≠ 0x23 ∧ b ≠ 0x3B

def NameOk (s : List Byte) : Prop := s ≠ [] ∧ s.length ≤ 127 ∧ ∀ b ∈ s, NameByte b = true

abbrev Name := { s : List Byte // NameOk s }

def TextByte (b : Byte) : Bool := b ≠ 0 ∧ b ≠ 0x0A ∧ b ≠ 0x0D

def TextOk (L : Ini.Locale) (s : List Byte) : Prop :=
  s.length ≤ 511 ∧ (∀ b ∈ s, TextByte b = true) ∧ (L.mbstowcs s).isSome

abbrev Value (L : Ini.Locale) := { s : List Byte // TextOk L s }

/-- The calls that build a configuration; a section is told by its place. -/
inductive Op (L : Ini.Locale) where
  | findOrCreate (name : Name)
  | int (self : ℕ) (name : Name) (val : BitVec 32)
  | uint (self : ℕ) (name : Name) (val : BitVec 32)
  | hex12 (self : ℕ) (name : Name) (val : BitVec 32)
  | hex16 (self : ℕ) (name : Name) (val : BitVec 32)
  | hex20 (self : ℕ) (name : Name) (val : BitVec 32)
  | mac (self : ℕ) (name : Name) (val : BitVec 32)
  | double (self : ℕ) (name : Name) (text : Value L)
  | string (self : ℕ) (name : Name) (val : Value L)

def apply (L : Ini.Locale) (ini : IniT) : Op L → IniT
  | .findOrCreate name => findOrCreateSection ini name.1
  | .int self name val => setInt L ini self name.1 val
  | .uint self name val => setUint L ini self name.1 val
  | .hex12 self name val => setHex12 L ini self name.1 val
  | .hex16 self name val => setHex16 L ini self name.1 val
  | .hex20 self name val => setHex20 L ini self name.1 val
  | .mac self name val => setMac L ini self name.1 val
  | .double self name text => setDouble L ini self name.1 text.1
  | .string self name val => setString L ini self name.1 val.1

def built (L : Ini.Locale) (ops : List (Op L)) : IniT := ops.foldl (apply L) []

/-- Every getter answers the same of both. -/
structure SameAnswers (a b : Option Section) (name : List Byte) : Prop where
  string : ∀ deflt, getString a name deflt = getString b name deflt
  int : ∀ deflt, getInt a name deflt = getInt b name deflt
  uint : ∀ deflt, getUint a name deflt = getUint b name deflt
  hex12 : ∀ deflt, getHex12 a name deflt = getHex12 b name deflt
  hex16 : ∀ deflt, getHex16 a name deflt = getHex16 b name deflt
  hex20 : ∀ deflt, getHex20 a name deflt = getHex20 b name deflt
  mac : ∀ deflt, getMac a name deflt = getMac b name deflt

structure Held (L : Ini.Locale) (ent : Entry) : Prop where
  name : NameOk ent.name
  text : TextOk L ent.data
  wide : L.mbstowcs ent.data = some ent.wdata

structure Kept (L : Ini.Locale) (ini : IniT) : Prop where
  names : ∀ sec ∈ ini, NameOk sec.name
  distinct : (ini.map Section.name).Nodup
  held : ∀ sec ∈ ini, ∀ ent ∈ sec.entries, Held L ent
  entries : ∀ sec ∈ ini, (sec.entries.map Entry.name).Nodup

theorem sameName_iff {a b : List Byte} (ha : NameOk a) (hb : NameOk b) : sameName a b = true ↔ a = b := by
  have hlong {s : List Byte} (hs : NameOk s) : s.take 128 = s :=
    List.take_of_length_le (Nat.le_trans hs.2.1 (by decide))
  unfold sameName
  rw [hlong ha, hlong hb, decide_eq_true_eq]

theorem putEntry_names (L : Ini.Locale) {name : List Byte} (hname : NameOk name) (data : List Byte) {es : List Entry}
    (hes : ∀ ent ∈ es, NameOk ent.name) :
    (putEntry L name data es).map Entry.name =
      if name ∈ es.map Entry.name then es.map Entry.name else es.map Entry.name ++ [name] := by
  induction es with
  | nil => rfl
  | cons ent es ih =>
    have hsame := sameName_iff (hes ent List.mem_cons_self) hname
    unfold putEntry
    by_cases h : ent.name = name
    · rw [if_pos (hsame.mpr h), if_pos (by rw [List.map_cons, h]; exact List.mem_cons_self)]
      rfl
    · rw [if_neg fun hs => h (hsame.mp hs), List.map_cons, ih fun e he => hes e (List.mem_cons_of_mem ent he)]
      have hmem : name ∈ (ent :: es).map Entry.name ↔ name ∈ es.map Entry.name := by
        rw [List.map_cons, List.mem_cons]
        exact or_iff_right (Ne.symm h)
      by_cases hin : name ∈ es.map Entry.name
      · rw [if_pos hin, if_pos (hmem.mpr hin)]
        rfl
      · rw [if_neg hin, if_neg fun hs => hin (hmem.mp hs)]
        rfl

theorem held_put (L : Ini.Locale) {ent : Entry} (hname : NameOk ent.name) {data : List Byte} (hdata : TextOk L data) :
    Held L (ent.put L data) := by
  refine ⟨hname, hdata, ?_⟩
  obtain ⟨w, hw⟩ := Option.isSome_iff_exists.mp hdata.2.2
  unfold Entry.put
  dsimp only
  rw [hw]
  rfl

theorem putEntry_held (L : Ini.Locale) {name : List Byte} (hname : NameOk name) {data : List Byte} (hdata : TextOk L data)
    {es : List Entry} (hes : ∀ ent ∈ es, Held L ent) : ∀ ent ∈ putEntry L name data es, Held L ent := by
  induction es with
  | nil =>
    intro ent hent
    obtain rfl := List.mem_singleton.mp hent
    exact held_put L hname hdata
  | cons e es ih =>
    intro ent hent
    unfold putEntry at hent
    by_cases hsame : sameName e.name name = true
    · rw [if_pos hsame] at hent
      rcases List.mem_cons.mp hent with rfl | hrest
      · exact held_put L (hes e List.mem_cons_self).name hdata
      · exact hes ent (List.mem_cons_of_mem e hrest)
    · rw [if_neg hsame] at hent
      rcases List.mem_cons.mp hent with rfl | hrest
      · exact hes ent List.mem_cons_self
      · exact ih (fun e' he' => hes e' (List.mem_cons_of_mem e he')) ent hrest

theorem mem_modify_cases {α : Type} (f : α → α) {l : List α} {i : ℕ} {x : α} (h : x ∈ l.modify i f) :
    x ∈ l ∨ ∃ y ∈ l, x = f y := by
  induction l generalizing i with
  | nil => cases i <;> cases h
  | cons y l ih =>
    cases i with
    | zero =>
      rcases List.mem_cons.mp h with rfl | hrest
      · exact Or.inr ⟨y, List.mem_cons_self, rfl⟩
      · exact Or.inl (List.mem_cons_of_mem y hrest)
    | succ i =>
      rcases List.mem_cons.mp h with rfl | hrest
      · exact Or.inl List.mem_cons_self
      · rcases ih hrest with hmem | ⟨z, hz, rfl⟩
        · exact Or.inl (List.mem_cons_of_mem y hmem)
        · exact Or.inr ⟨z, List.mem_cons_of_mem y hz, rfl⟩

theorem map_modify_same {α β : Type} (f : α → α) (g : α → β) (h : ∀ x, g (f x) = g x) (l : List α) (i : ℕ) :
    (l.modify i f).map g = l.map g := by
  induction l generalizing i with
  | nil => cases i <;> rfl
  | cons x l ih =>
    cases i with
    | zero => exact congrArg (fun y => y :: l.map g) (h x)
    | succ i => exact congrArg (List.cons (g x)) (ih i)

theorem kept_put {L : Ini.Locale} {ini : IniT} (h : Kept L ini) (self : ℕ) {name : List Byte} (hname : NameOk name)
    {data : List Byte} (hdata : TextOk L data) : Kept L (put L ini self name data) := by
  constructor
  · intro sec hsec
    rcases mem_modify_cases _ hsec with hmem | ⟨old, hold, rfl⟩
    · exact h.names sec hmem
    · exact h.names old hold
  · have hsame := map_modify_same (fun sec => { sec with entries := putEntry L name data sec.entries }) Section.name
      (fun _ => rfl) ini self
    unfold put
    rw [hsame]
    exact h.distinct
  · intro sec hsec
    rcases mem_modify_cases _ hsec with hmem | ⟨old, hold, rfl⟩
    · exact h.held sec hmem
    · exact putEntry_held L hname hdata (h.held old hold)
  · intro sec hsec
    rcases mem_modify_cases _ hsec with hmem | ⟨old, hold, rfl⟩
    · exact h.entries sec hmem
    · dsimp only
      rw [putEntry_names L hname data fun ent hent => (h.held old hold ent hent).name]
      by_cases hin : name ∈ old.entries.map Entry.name
      · rw [if_pos hin]
        exact h.entries old hold
      · rw [if_neg hin]
        exact List.nodup_append.mpr ⟨h.entries old hold, List.nodup_singleton name, fun a ha b hb hab =>
          hin (List.mem_singleton.mp hb ▸ hab ▸ ha)⟩

theorem kept_findOrCreate {L : Ini.Locale} {ini : IniT} (h : Kept L ini) {name : List Byte} (hname : NameOk name) :
    Kept L (findOrCreateSection ini name) := by
  unfold findOrCreateSection
  by_cases hnone : (findSection ini name).isNone = true
  · rw [if_pos hnone]
    have hnew : ∀ sec ∈ ini ++ [{ name := name, entries := [] }], sec ∈ ini ∨ sec = { name := name, entries := [] } :=
      fun sec hsec => (List.mem_append.mp hsec).imp_right List.mem_singleton.mp
    constructor
    · intro sec hsec
      rcases hnew sec hsec with hmem | rfl
      · exact h.names sec hmem
      · exact hname
    · rw [List.map_append]
      refine List.nodup_append.mpr ⟨h.distinct, List.nodup_singleton _, fun a ha b hb hab => ?_⟩
      obtain ⟨sec, hsec, rfl⟩ := List.mem_map.mp ha
      obtain rfl := List.mem_singleton.mp hb
      have hno := List.find?_eq_none.mp (Option.isNone_iff_eq_none.mp hnone) sec hsec
      exact hno ((sameName_iff (h.names sec hsec) hname).mpr hab)
    · intro sec hsec
      rcases hnew sec hsec with hmem | rfl
      · exact h.held sec hmem
      · exact fun ent hent => absurd hent List.not_mem_nil
    · intro sec hsec
      rcases hnew sec hsec with hmem | rfl
      · exact h.entries sec hmem
      · exact List.nodup_nil
  · rw [if_neg hnone]
    exact h

def Ascii (s : List Byte) : Prop := s.length ≤ 40 ∧ ∀ b ∈ s, b < 128 ∧ TextByte b = true

theorem digitsLoop_ascii {base : ℕ} (hbase : 0 < base) {digit : ℕ → Byte} (fuel : ℕ)
    (hdigit : ∀ d < base, digit d < 128 ∧ TextByte (digit d) = true) {acc : List Byte}
    (hacc : ∀ b ∈ acc, b < 128 ∧ TextByte b = true) (n : ℕ) :
    (digitsLoop base digit fuel n acc).length ≤ acc.length + fuel ∧
      ∀ b ∈ digitsLoop base digit fuel n acc, b < 128 ∧ TextByte b = true := by
  have hcons (d : ℕ) (hd : d < base) {acc : List Byte} (hacc : ∀ b ∈ acc, b < 128 ∧ TextByte b = true) :
      ∀ b ∈ digit d :: acc, b < 128 ∧ TextByte b = true :=
    List.forall_mem_cons.mpr ⟨hdigit d hd, hacc⟩
  induction fuel generalizing n acc with
  | zero => exact ⟨Nat.le_refl _, hacc⟩
  | succ fuel ih =>
    unfold digitsLoop
    by_cases hn : n < base
    · rw [if_pos hn]
      exact ⟨by rw [List.length_cons]; omega, hcons n hn hacc⟩
    · rw [if_neg hn]
      obtain ⟨hlength, hall⟩ := ih (hcons _ (Nat.mod_lt n hbase) hacc) (n / base)
      exact ⟨by rw [List.length_cons] at hlength; omega, hall⟩

theorem digits_ascii {base : ℕ} (hbase : 0 < base) {digit : ℕ → Byte}
    (hdigit : ∀ d < base, digit d < 128 ∧ TextByte (digit d) = true) (n : ℕ) :
    (digitsLoop base digit 32 n []).length ≤ 32 ∧ ∀ b ∈ digitsLoop base digit 32 n [], b < 128 ∧ TextByte b = true := by
  obtain ⟨hlength, hall⟩ := digitsLoop_ascii hbase 32 hdigit (fun b hb => absurd hb List.not_mem_nil) n
  rw [List.length_nil, Nat.zero_add] at hlength
  exact ⟨hlength, hall⟩

theorem lowerDigit_ascii : ∀ d < 16, lowerDigit d < 128 ∧ TextByte (lowerDigit d) = true := by decide

theorem upperDigit_ascii : ∀ d < 16, upperDigit d < 128 ∧ TextByte (upperDigit d) = true := by decide

theorem formatInt_ascii (val : BitVec 32) : Ascii (formatInt val) := by
  have hdigits := digits_ascii (by decide : 0 < 10) fun d hd => lowerDigit_ascii d (Nat.lt_trans hd (by decide))
  unfold formatInt
  split
  · obtain ⟨hlength, hall⟩ := hdigits val.toInt.natAbs
    refine ⟨?_, List.forall_mem_cons.mpr ⟨by decide, hall⟩⟩
    rw [List.length_cons]
    omega
  · obtain ⟨hlength, hall⟩ := hdigits val.toNat
    exact ⟨Nat.le_trans hlength (by decide), hall⟩

theorem padded_ascii {width : ℕ} {s : List Byte} (hs : ∀ b ∈ s, b < 128 ∧ TextByte b = true) :
    ∀ b ∈ padded width s, b < 128 ∧ TextByte b = true := by
  intro b hb
  rcases List.mem_append.mp hb with hpad | hrest
  · rw [List.eq_of_mem_replicate hpad]
    decide
  · exact hs b hrest

theorem padded_length (width : ℕ) (s : List Byte) : (padded width s).length = max width s.length := by
  unfold padded
  rw [List.length_append, List.length_replicate]
  omega

theorem formatHex_ascii {width : ℕ} (hwidth : width ≤ 32) (val : BitVec 32) : Ascii (formatHex width val) := by
  obtain ⟨hlength, hall⟩ := digits_ascii (by decide : 0 < 16) upperDigit_ascii val.toNat
  refine ⟨?_, padded_ascii hall⟩
  unfold formatHex
  rw [padded_length]
  omega

theorem textOk_ascii (L : Ini.Locale) {s : List Byte} (hlength : s.length ≤ 511)
    (hs : ∀ b ∈ s, b < 128 ∧ TextByte b = true) : TextOk L s := by
  refine ⟨hlength, fun b hb => (hs b hb).2, ?_⟩
  rw [L.ascii s fun b hb => (hs b hb).1]
  rfl

theorem formatMac_ok (L : Ini.Locale) (val : BitVec 32) : TextOk L (formatMac val) := by
  have hbyte (val : BitVec 32) : (formatByte val).length ≤ 32 ∧ ∀ b ∈ formatByte val, b < 128 ∧ TextByte b = true := by
    obtain ⟨hlength, hall⟩ := digits_ascii (by decide : 0 < 16) lowerDigit_ascii (val &&& 0xFF).toNat
    refine ⟨?_, padded_ascii hall⟩
    unfold formatByte
    rw [padded_length]
    omega
  have hcolon : (0x3A : Byte) < 128 ∧ TextByte 0x3A = true := by decide
  apply textOk_ascii
  · have h16 := (hbyte (val >>> 16)).1
    have h8 := (hbyte (val >>> 8)).1
    have h0 := (hbyte val).1
    unfold formatMac
    simp only [List.length_append, List.length_cons]
    omega
  · intro b hb
    unfold formatMac at hb
    simp only [List.mem_append, List.mem_cons] at hb
    rcases hb with (h16 | rfl | h8) | rfl | h0
    · exact (hbyte _).2 b h16
    · exact hcolon
    · exact (hbyte _).2 b h8
    · exact hcolon
    · exact (hbyte _).2 b h0

theorem kept_apply {L : Ini.Locale} {ini : IniT} (h : Kept L ini) (op : Op L) : Kept L (apply L ini op) := by
  have hascii {s : List Byte} (hs : Ascii s) : TextOk L s := textOk_ascii L (Nat.le_trans hs.1 (by decide)) hs.2
  cases op with
  | findOrCreate name => exact kept_findOrCreate h name.2
  | int self name val => exact kept_put h self name.2 (hascii (formatInt_ascii val))
  | uint self name val => exact kept_put h self name.2 (hascii (formatInt_ascii val))
  | hex12 self name val => exact kept_put h self name.2 (hascii (formatHex_ascii (by decide) val))
  | hex16 self name val => exact kept_put h self name.2 (hascii (formatHex_ascii (by decide) val))
  | hex20 self name val => exact kept_put h self name.2 (hascii (formatHex_ascii (by decide) val))
  | mac self name val => exact kept_put h self name.2 (formatMac_ok L val)
  | double self name text => exact kept_put h self name.2 text.2
  | string self name val =>
    have hshort : val.1.take 512 = val.1 := List.take_of_length_le (Nat.le_trans val.2.1 (by decide))
    change Kept L (put L ini self name.1 (val.1.take 512))
    rw [hshort]
    exact kept_put h self name.2 val.2

theorem kept_built (L : Ini.Locale) (ops : List (Op L)) : Kept L (built L ops) := by
  have hrun (ini : IniT) (h : Kept L ini) : Kept L (ops.foldl (apply L) ini) := by
    induction ops generalizing ini with
    | nil => exact h
    | cons op ops ih => exact ih (apply L ini op) (kept_apply h op)
  refine hrun [] ⟨fun sec hsec => ?_, List.nodup_nil, fun sec hsec => ?_, fun sec hsec => ?_⟩
  · cases hsec
  · cases hsec
  · cases hsec

def WideOk (c : Wide) : Prop := c ≠ 0 ∧ c ≠ newline ∧ c ≠ creturn

instance (c : Wide) : Decidable (WideOk c) := inferInstanceAs (Decidable (_ ∧ _))

def LineOk (line : List Wide) : Prop := line.length ≤ 1000 ∧ ∀ c ∈ line, WideOk c

theorem fgetws_line {line : List Wide} (h : ∀ c ∈ line, c ≠ newline) (n : ℕ) (hn : line.length < n) (rest : List Wide) :
    fgetws n (line ++ newline :: rest) = (line ++ [newline], rest, false) := by
  induction line generalizing n with
  | nil =>
    obtain ⟨n, rfl⟩ := Nat.exists_eq_succ_of_ne_zero (Nat.ne_of_gt hn)
    exact if_pos rfl
  | cons c line ih =>
    obtain ⟨n, rfl⟩ := Nat.exists_eq_succ_of_ne_zero (Nat.ne_of_gt (Nat.zero_lt_of_lt hn))
    have hrest := ih (fun c' hc' => h c' (List.mem_cons_of_mem c hc')) n (Nat.lt_of_succ_lt_succ hn)
    have hstep : fgetws (n + 1) (c :: line ++ newline :: rest) =
        if c = newline then ([c], line ++ newline :: rest, false)
        else (c :: (fgetws n (line ++ newline :: rest)).1, (fgetws n (line ++ newline :: rest)).2) := rfl
    rw [hstep, if_neg (h c List.mem_cons_self), hrest]
    rfl

theorem readLoop_lines (L : Ini.Locale) {lines : List (List Wide)} (h : ∀ line ∈ lines, LineOk line) (fuel : ℕ)
    (hfuel : lines.length < fuel) (r : Reading) :
    readLoop L fuel r (lines.flatMap fun line => line ++ [newline]) =
      lines.foldl (fun r line => readLine L r (line ++ [newline])) r := by
  induction lines generalizing fuel r with
  | nil =>
    obtain ⟨fuel, rfl⟩ := Nat.exists_eq_succ_of_ne_zero (Nat.ne_of_gt hfuel)
    rfl
  | cons line lines ih =>
    obtain ⟨fuel, rfl⟩ := Nat.exists_eq_succ_of_ne_zero (Nat.ne_of_gt (Nat.zero_lt_of_lt hfuel))
    obtain ⟨hlength, hwide⟩ := h line List.mem_cons_self
    have hfile : (line :: lines).flatMap (fun line => line ++ [newline]) =
        line ++ newline :: lines.flatMap fun line => line ++ [newline] := by
      rw [List.flatMap_cons, List.append_assoc]
      rfl
    have hget := fgetws_line (fun c hc => (hwide c hc).2.1) 1023 (by omega)
      (lines.flatMap fun line => line ++ [newline])
    have hwhole : (line ++ [newline]).takeWhile (fun c => c ≠ 0) = line ++ [newline] := by
      apply List.takeWhile_eq_self_iff.mpr
      intro c hc
      rcases List.mem_append.mp hc with hline | hlast
      · exact decide_eq_true (hwide c hline).1
      · rw [List.mem_singleton.mp hlast]
        decide
    unfold readLoop
    dsimp only
    rw [hfile, hget]
    dsimp only
    rw [if_neg Bool.false_ne_true, hwhole,
      ih (fun l hl => h l (List.mem_cons_of_mem line hl)) fuel (Nat.lt_of_succ_lt_succ hfuel)]
    rfl

theorem dropLastIf_line {line : List Wide} (h : ∀ c ∈ line, c ≠ creturn) :
    dropLastIf creturn (dropLastIf newline (line ++ [newline])) = line := by
  have hnewline : dropLastIf newline (line ++ [newline]) = line := by
    unfold dropLastIf
    rw [List.getLast?_concat, if_pos rfl, List.dropLast_concat]
  rw [hnewline]
  unfold dropLastIf
  refine if_neg fun hlast => ?_
  exact h creturn (List.mem_of_getLast? hlast) rfl

def NameWide (c : Wide) : Bool :=
  c ≠ 0 ∧ c ≠ newline ∧ c ≠ creturn ∧ c ≠ blank ∧ c ≠ 0x09 ∧ c ≠ equals ∧ c ≠ opening ∧ c ≠ closing ∧ c ≠ 0x23 ∧ c ≠ 0x3B

theorem nameByte_wide : ∀ b : Byte, NameByte b = true → b < 128 ∧ NameWide (b.setWidth 32) = true := by
  decide +kernel

theorem wide_name (L : Ini.Locale) {name : List Byte} (h : NameOk name) :
    wide L name ≠ [] ∧ (wide L name).length ≤ 127 ∧ (wide L name).flatMap L.wctomb = name ∧
      ∀ c ∈ wide L name, NameWide c = true := by
  have hdecoded := L.ascii name fun b hb => (nameByte_wide b (h.2.2 b hb)).1
  have hwide : wide L name = name.map (BitVec.setWidth 32) := by
    unfold wide
    rw [hdecoded]
    rfl
  rw [hwide]
  refine ⟨fun hnil => h.1 (List.map_eq_nil_iff.mp hnil), ?_, (L.back name _ hdecoded).1, ?_⟩
  · rw [List.length_map]
    exact h.2.1
  · intro c hc
    obtain ⟨b, hb, rfl⟩ := List.mem_map.mp hc
    exact (nameByte_wide b (h.2.2 b hb)).2

theorem wide_text {L : Ini.Locale} {s : List Byte} (h : TextOk L s) {w : List Wide} (hw : L.mbstowcs s = some w) :
    w.length ≤ 511 ∧ ∀ c ∈ w, WideOk c := by
  obtain ⟨hback, hsome⟩ := L.back s w hw
  constructor
  · have hle (w : List Wide) (hw : ∀ c ∈ w, L.wctomb c ≠ []) : w.length ≤ (w.flatMap L.wctomb).length := by
      induction w with
      | nil => exact Nat.le_refl _
      | cons c w ih =>
        have hc := List.length_pos_of_ne_nil (hw c List.mem_cons_self)
        have hrest := ih fun c' hc' => hw c' (List.mem_cons_of_mem c hc')
        rw [List.flatMap_cons, List.length_append, List.length_cons]
        omega
    have hlength := hle w hsome
    rw [hback] at hlength
    exact Nat.le_trans hlength h.1
  · intro c hc
    have hbyte (hlow : c < 128) : TextByte (c.setWidth 8) = true := by
      apply h.2.1
      rw [← hback]
      exact List.mem_flatMap.mpr ⟨c, hc, by rw [L.wctomb_ascii c hlow]; exact List.mem_singleton_self _⟩
    refine ⟨?_, ?_, ?_⟩ <;> rintro rfl <;> exact absurd (hbyte (by decide)) (by decide)

def headerText (L : Ini.Locale) (sec : Section) : List Wide := opening :: (wide L sec.name ++ [closing])

def entryText (L : Ini.Locale) (ent : Entry) : List Wide := wide L ent.name ++ ([blank, equals, blank] ++ ent.wdata)

theorem headerText_ok (L : Ini.Locale) {sec : Section} (h : NameOk sec.name) : LineOk (headerText L sec) := by
  obtain ⟨-, hlength, -, hall⟩ := wide_name L h
  constructor
  · unfold headerText
    simp only [List.length_cons, List.length_append, List.length_nil]
    omega
  · intro c hc
    rcases List.mem_cons.mp hc with rfl | hrest
    · decide
    · rcases List.mem_append.mp hrest with hname | hlast
      · have hwide := of_decide_eq_true (hall c hname)
        exact ⟨hwide.1, hwide.2.1, hwide.2.2.1⟩
      · rw [List.mem_singleton.mp hlast]
        decide

theorem entryText_ok {L : Ini.Locale} {ent : Entry} (h : Held L ent) : LineOk (entryText L ent) := by
  obtain ⟨-, hlength, -, hall⟩ := wide_name L h.name
  obtain ⟨htext, hwide⟩ := wide_text h.text h.wide
  constructor
  · unfold entryText
    simp only [List.length_cons, List.length_append, List.length_nil]
    omega
  · intro c hc
    rcases List.mem_append.mp hc with hname | hrest
    · have hwide := of_decide_eq_true (hall c hname)
      exact ⟨hwide.1, hwide.2.1, hwide.2.2.1⟩
    · have hsep : ∀ c ∈ [blank, equals, blank], WideOk c := by
        rw [List.forall_mem_cons, List.forall_mem_cons, List.forall_mem_singleton]
        decide
      exact (List.mem_append.mp hrest).elim (hsep c) (hwide c)

theorem readLine_blank (L : Ini.Locale) (r : Reading) : readLine L r ([] ++ [newline]) = r := rfl

theorem readLine_header (L : Ini.Locale) {sec : Section} (h : NameOk sec.name) (r : Reading) :
    readLine L r (headerText L sec ++ [newline]) =
      { before := r.before ++ [r.sec], sec := { name := sec.name, entries := [] } } := by
  obtain ⟨-, -, hback, hall⟩ := wide_name L h
  have hopen : ∀ c ∈ wide L sec.name, decide (c ≠ closing) = true := fun c hc =>
    decide_eq_true (of_decide_eq_true (hall c hc)).2.2.2.2.2.2.2.1
  have htake : (wide L sec.name ++ [closing]).takeWhile (fun c => c ≠ closing) = wide L sec.name := by
    rw [List.takeWhile_append_of_pos hopen]
    exact List.append_nil _
  have hdrop : (wide L sec.name ++ [closing]).dropWhile (fun c => c ≠ closing) = [closing] := by
    rw [List.dropWhile_append_of_pos hopen]
    rfl
  have hskip : (headerText L sec).dropWhile (fun c => c = blank ∨ c = 0x09) = headerText L sec :=
    List.dropWhile_cons_of_neg (by decide)
  have hhead : (headerText L sec).head? = some opening := rfl
  have htail : (headerText L sec).tail = wide L sec.name ++ [closing] := rfl
  unfold readLine
  dsimp only
  rw [dropLastIf_line fun c hc => ((headerText_ok L h).2 c hc).2.2, hskip, hhead, htail, htake, hdrop, hback]
  rfl

def reload (L : Ini.Locale) (ent : Entry) : Option Entry :=
  let value := ent.wdata.dropWhile fun c => c = equals ∨ c = blank
  if value = [] then none else some { name := ent.name, data := value.flatMap L.wctomb, wdata := value }

theorem wcstombs_whole (L : Ini.Locale) (n : ℕ) (w : List Wide) (h : (w.flatMap L.wctomb).length ≤ n) :
    wcstombs L n w = w.flatMap L.wctomb := by
  induction w generalizing n with
  | nil => rfl
  | cons c w ih =>
    rw [List.flatMap_cons, List.length_append] at h
    unfold wcstombs
    rw [if_pos (Nat.le_trans (Nat.le_add_right _ _) h), ih _ (by omega), List.flatMap_cons]

theorem readLine_entry {L : Ini.Locale} {ent : Entry} (h : Held L ent) (r : Reading) :
    readLine L r (entryText L ent ++ [newline]) =
      { r with sec := { r.sec with entries := r.sec.entries ++ (reload L ent).toList } } := by
  obtain ⟨hne, -, hback, hall⟩ := wide_name L h.name
  obtain ⟨hlength, -⟩ := wide_text h.text h.wide
  have hname : ∀ c ∈ wide L ent.name, decide (c ≠ equals ∧ c ≠ blank) = true := fun c hc =>
    decide_eq_true ⟨(of_decide_eq_true (hall c hc)).2.2.2.2.2.1, (of_decide_eq_true (hall c hc)).2.2.2.1⟩
  have htake : (entryText L ent).takeWhile (fun c => c ≠ equals ∧ c ≠ blank) = wide L ent.name := by
    unfold entryText
    rw [List.takeWhile_append_of_pos hname]
    exact List.append_nil _
  have hdrop : (entryText L ent).dropWhile (fun c => c ≠ equals ∧ c ≠ blank) = [blank, equals, blank] ++ ent.wdata := by
    unfold entryText
    rw [List.dropWhile_append_of_pos hname]
    rfl
  have hsep : ∀ c ∈ [blank, equals, blank], decide (c = equals ∨ c = blank) = true := by
    rw [List.forall_mem_cons, List.forall_mem_cons, List.forall_mem_singleton]
    decide
  have hvalue : ([blank, equals, blank] ++ ent.wdata).dropWhile (fun c => c = equals ∨ c = blank) =
      ent.wdata.dropWhile fun c => c = equals ∨ c = blank :=
    List.dropWhile_append_of_pos hsep
  obtain ⟨c, w, hcons⟩ := List.exists_cons_of_ne_nil hne
  have hfirst := of_decide_eq_true (hall c (hcons ▸ List.mem_cons_self))
  have hentry : entryText L ent = c :: (w ++ ([blank, equals, blank] ++ ent.wdata)) := by
    unfold entryText
    rw [hcons]
    rfl
  have hskip : (entryText L ent).dropWhile (fun c => c = blank ∨ c = 0x09) = entryText L ent := by
    rw [hentry]
    refine List.dropWhile_cons_of_neg fun hskipped => ?_
    exact (of_decide_eq_true hskipped).elim hfirst.2.2.2.1 hfirst.2.2.2.2.1
  have hhead : (entryText L ent).head? = some c := by
    rw [hentry]
    rfl
  have hnot (x : Wide) (hx : c ≠ x) : ¬ some c = some x := fun heq => hx (Option.some.inj heq)
  unfold readLine
  dsimp only
  rw [dropLastIf_line fun c hc => ((entryText_ok h).2 c hc).2.2, hskip, hhead, if_neg (Option.some_ne_none c),
    if_neg fun heq => heq.elim (hnot _ hfirst.2.2.2.2.2.2.2.2.1) (hnot _ hfirst.2.2.2.2.2.2.2.2.2),
    if_neg (hnot _ hfirst.2.2.2.2.2.2.1), hdrop, htake,
    if_neg (List.append_ne_nil_of_left_ne_nil (List.cons_ne_nil _ _) _), hvalue, hback]
  unfold reload
  dsimp only
  generalize hw : (ent.wdata.dropWhile fun c => c = equals ∨ c = blank) = value
  by_cases hnil : value = []
  · rw [if_pos hnil, if_pos hnil]
    simp
  · have hshort : value.length ≤ ent.wdata.length := by
      rw [← hw]
      exact (List.dropWhile_suffix _).length_le
    have hbytes : (value.flatMap L.wctomb).length ≤ 511 := by
      have hparts : ent.wdata.flatMap L.wctomb = (ent.wdata.takeWhile fun c => c = equals ∨ c = blank).flatMap L.wctomb ++
          value.flatMap L.wctomb := by
        rw [← hw, ← List.flatMap_append, List.takeWhile_append_dropWhile]
      have hdata := (L.back _ _ h.wide).1
      have htext := h.text.1
      rw [← hdata, hparts, List.length_append] at htext
      omega
    rw [if_neg hnil, if_neg hnil, List.take_of_length_le (Nat.le_trans hshort hlength),
      wcstombs_whole L 512 value (Nat.le_trans hbytes (by decide)), List.take_of_length_le hbytes]
    rfl

def reloadSection (L : Ini.Locale) (sec : Section) : Section :=
  { name := sec.name, entries := sec.entries.filterMap (reload L) }

def fileLines (L : Ini.Locale) : Bool → IniT → List (List Wide)
  | _, [] => []
  | started, sec :: ini =>
    (if started then [[]] else []) ++ headerText L sec :: sec.entries.map (entryText L) ++ fileLines L true ini

theorem writeLoop_lines (L : Ini.Locale) {ini : IniT} (h : Kept L ini) (fl : ℕ) :
    writeLoop L fl ini = (fileLines L (decide (fl ≠ 0)) ini).flatMap fun line => line ++ [newline] := by
  have hloop (ini : IniT) (hnames : ∀ sec ∈ ini, NameOk sec.name)
      (hheld : ∀ sec ∈ ini, ∀ ent ∈ sec.entries, Held L ent) (fl : ℕ) :
      writeLoop L fl ini = (fileLines L (decide (fl ≠ 0)) ini).flatMap fun line => line ++ [newline] := by
    induction ini generalizing fl with
    | nil => rfl
    | cons sec ini ih =>
      have hname := (hnames sec List.mem_cons_self).1
      have hcount : decide (fl + lineCount sec ≠ 0) = true := by
        unfold lineCount
        rw [if_neg hname]
        exact decide_eq_true (by omega)
      have hrest := ih (fun s hs => hnames s (List.mem_cons_of_mem sec hs))
        (fun s hs => hheld s (List.mem_cons_of_mem sec hs)) (fl + lineCount sec)
      rw [hcount] at hrest
      have hheader : headerLine L fl sec =
          ((if decide (fl ≠ 0) then [[]] else []) ++ [headerText L sec]).flatMap fun line => line ++ [newline] := by
        unfold headerLine
        rw [if_neg hname]
        by_cases hfl : fl = 0
        · simp [hfl, headerText]
        · simp [hfl, headerText]
      have hentries (es : List Entry) (hes : ∀ ent ∈ es, Held L ent) :
          es.flatMap (entryLine L) = (es.map (entryText L)).flatMap fun line => line ++ [newline] := by
        rw [List.flatMap_map]
        refine List.flatMap_congr fun ent hent => ?_
        unfold entryLine entryText
        rw [if_neg (hes ent hent).name.1]
        by_cases hdata : ent.wdata = []
        · simp [hdata]
        · simp [hdata]
      unfold writeLoop fileLines
      rw [hrest, hheader, hentries _ (hheld sec List.mem_cons_self), ← List.flatMap_append, ← List.flatMap_append,
        List.append_assoc _ [headerText L sec]]
      rfl
  exact hloop ini h.names h.held fl

theorem fileLines_ok {L : Ini.Locale} {ini : IniT} (h : Kept L ini) (started : Bool) :
    ∀ line ∈ fileLines L started ini, LineOk line := by
  have hloop (ini : IniT) (hnames : ∀ sec ∈ ini, NameOk sec.name)
      (hheld : ∀ sec ∈ ini, ∀ ent ∈ sec.entries, Held L ent) (started : Bool) :
      ∀ line ∈ fileLines L started ini, LineOk line := by
    induction ini generalizing started with
    | nil => exact fun line hline => absurd hline List.not_mem_nil
    | cons sec ini ih =>
      intro line hline
      unfold fileLines at hline
      rcases List.mem_append.mp hline with hfirst | hrest
      · rcases List.mem_append.mp hfirst with hblank | hown
        · cases started with
          | false => cases hblank
          | true =>
            rw [List.mem_singleton.mp hblank]
            exact ⟨Nat.zero_le _, fun c hc => absurd hc List.not_mem_nil⟩
        · rcases List.mem_cons.mp hown with rfl | hentry
          · exact headerText_ok L (hnames sec List.mem_cons_self)
          · obtain ⟨ent, hent, rfl⟩ := List.mem_map.mp hentry
            exact entryText_ok (hheld sec List.mem_cons_self ent hent)
      · exact ih (fun s hs => hnames s (List.mem_cons_of_mem sec hs))
          (fun s hs => hheld s (List.mem_cons_of_mem sec hs)) true line hrest
  exact hloop ini h.names h.held started

theorem read_entries {L : Ini.Locale} {es : List Entry} (h : ∀ ent ∈ es, Held L ent) (r : Reading) :
    (es.map (entryText L)).foldl (fun r line => readLine L r (line ++ [newline])) r =
      { r with sec := { r.sec with entries := r.sec.entries ++ es.filterMap (reload L) } } := by
  induction es generalizing r with
  | nil =>
    rw [List.filterMap_nil, List.append_nil]
    rfl
  | cons ent es ih =>
    rw [List.map_cons, List.foldl_cons, readLine_entry (h ent List.mem_cons_self),
      ih fun e he => h e (List.mem_cons_of_mem ent he)]
    dsimp only
    rw [List.append_assoc]
    cases hreload : reload L ent with
    | none => rw [List.filterMap_cons_none hreload]; rfl
    | some e => rw [List.filterMap_cons_some hreload]; rfl

theorem read_sections {L : Ini.Locale} {ini : IniT} (h : Kept L ini) (started : Bool) (r : Reading) :
    let r' := (fileLines L started ini).foldl (fun r line => readLine L r (line ++ [newline])) r
    r'.before ++ [r'.sec] = r.before ++ r.sec :: ini.map (reloadSection L) := by
  have hloop (ini : IniT) (hnames : ∀ sec ∈ ini, NameOk sec.name)
      (hheld : ∀ sec ∈ ini, ∀ ent ∈ sec.entries, Held L ent) (started : Bool) (r : Reading) :
      let r' := (fileLines L started ini).foldl (fun r line => readLine L r (line ++ [newline])) r
      r'.before ++ [r'.sec] = r.before ++ r.sec :: ini.map (reloadSection L) := by
    induction ini generalizing started r with
    | nil => rfl
    | cons sec ini ih =>
      have hrest := ih (fun s hs => hnames s (List.mem_cons_of_mem sec hs))
        (fun s hs => hheld s (List.mem_cons_of_mem sec hs)) true
        { before := r.before ++ [r.sec], sec := reloadSection L sec }
      have hblank : (if started then [([] : List Wide)] else []).foldl
          (fun r line => readLine L r (line ++ [newline])) r = r := by
        cases started with
        | false => rfl
        | true => exact readLine_blank L r
      have hown : (headerText L sec :: sec.entries.map (entryText L)).foldl
          (fun r line => readLine L r (line ++ [newline])) r =
            { before := r.before ++ [r.sec], sec := reloadSection L sec } := by
        rw [List.foldl_cons, readLine_header L (hnames sec List.mem_cons_self),
          read_entries (hheld sec List.mem_cons_self)]
        rfl
      unfold fileLines
      dsimp only at hrest ⊢
      rw [List.foldl_append, List.foldl_append, hblank, hown, hrest, List.append_assoc]
      rfl
  exact hloop ini h.names h.held started r

theorem fileLines_length (L : Ini.Locale) (started : Bool) (ini : IniT) :
    (fileLines L started ini).length ≤ ((fileLines L started ini).flatMap fun line => line ++ [newline]).length := by
  induction fileLines L started ini with
  | nil => exact Nat.le_refl _
  | cons line lines ih =>
    rw [List.flatMap_cons, List.length_append, List.length_append, List.length_cons, List.length_singleton]
    omega

theorem read_written {L : Ini.Locale} {ini : IniT} (h : Kept L ini) :
    iniRead L (iniWrite L ini) = { name := [], entries := [] } :: ini.map (reloadSection L) := by
  have hfile := writeLoop_lines L h 0
  change iniWrite L ini = (fileLines L false ini).flatMap fun line => line ++ [newline] at hfile
  have hbom : ¬ (iniWrite L ini).head? = some 0xFEFF := by
    rw [hfile]
    cases ini with
    | nil => exact fun heq => nomatch heq
    | cons sec ini => exact fun heq => absurd (Option.some.inj heq) (by decide)
  have hread := readLoop_lines L (fileLines_ok h false) ((iniWrite L ini).length + 1)
    (by rw [hfile]; exact Nat.lt_succ_of_le (fileLines_length L false ini))
    { before := [], sec := { name := [], entries := [] } }
  rw [← hfile] at hread
  unfold iniRead
  dsimp only
  rw [if_neg hbom, hread]
  exact read_sections h false { before := [], sec := { name := [], entries := [] } }

theorem find_distinct {α : Type} (f : α → List Byte) {l : List α} (hnames : ∀ x ∈ l, NameOk (f x))
    (hdistinct : (l.map f).Nodup) {x : α} (hx : x ∈ l) : l.find? (fun y => sameName (f y) (f x)) = some x := by
  induction l with
  | nil => cases hx
  | cons y l ih =>
    rw [List.map_cons, List.nodup_cons] at hdistinct
    have hsame := sameName_iff (hnames y List.mem_cons_self) (hnames x hx)
    rcases List.mem_cons.mp hx with rfl | hrest
    · exact List.find?_cons_of_pos (hsame.mpr rfl)
    · have hne : ¬ sameName (f y) (f x) = true := fun heq =>
        hdistinct.1 (hsame.mp heq ▸ List.mem_map_of_mem hrest)
      refine (List.find?_cons_of_neg (p := fun y => sameName (f y) (f x)) hne).trans ?_
      exact ih (fun z hz => hnames z (List.mem_cons_of_mem y hz)) hdistinct.2 hrest

theorem reload_name {L : Ini.Locale} {ent e : Entry} (h : reload L ent = some e) : e.name = ent.name := by
  unfold reload at h
  dsimp only at h
  by_cases hnil : (ent.wdata.dropWhile fun c => c = equals ∨ c = blank) = []
  · rw [if_pos hnil] at h
    cases h
  · rw [if_neg hnil] at h
    rw [← Option.some.inj h]

theorem findEntry_reload {L : Ini.Locale} {sec : Section} (hheld : ∀ ent ∈ sec.entries, Held L ent)
    (hdistinct : (sec.entries.map Entry.name).Nodup) {ent e : Entry} (hent : ent ∈ sec.entries)
    (he : reload L ent = some e) : findEntry (reloadSection L sec) ent.name = some e := by
  have hsub (es : List Entry) : ((es.filterMap (reload L)).map Entry.name).Sublist (es.map Entry.name) := by
    induction es with
    | nil => exact List.Sublist.slnil
    | cons a es ih =>
      cases ha : reload L a with
      | none =>
        rw [List.filterMap_cons_none ha]
        exact ih.trans (List.sublist_cons_self _ _)
      | some b =>
        rw [List.filterMap_cons_some ha, List.map_cons, List.map_cons, reload_name ha]
        exact ih.cons_cons _
  have hmem : e ∈ sec.entries.filterMap (reload L) := List.mem_filterMap.mpr ⟨ent, hent, he⟩
  have hnames : ∀ a ∈ sec.entries.filterMap (reload L), NameOk a.name := by
    intro a ha
    obtain ⟨b, hb, hab⟩ := List.mem_filterMap.mp ha
    rw [reload_name hab]
    exact (hheld b hb).name
  rw [← reload_name he]
  exact find_distinct Entry.name hnames ((hsub sec.entries).nodup hdistinct) hmem

theorem sameAnswers_of_entry {a b : Section} {name : List Byte} {e e' : Entry} (ha : findEntry a name = some e)
    (hb : findEntry b name = some e') (hdata : e.data = e'.data) : SameAnswers (some a) (some b) name := by
  have hget {α : Type} (conv : List Byte → α) (deflt : α) :
      Ini.get conv (some a) name deflt = Ini.get conv (some b) name deflt := by
    unfold Ini.get
    rw [Option.bind_some, Option.bind_some, ha, hb]
    exact congrArg conv hdata
  exact ⟨hget _, hget _, hget _, hget _, hget _, hget _, hget _⟩

/-- After a configuration is written and read every section is there; an entry answers as before if its value is not
    empty and begins with neither a blank nor `=`, and is found without those otherwise. -/
theorem saved_reads_back (L : Ini.Locale) (ops : List (Op L)) :
    let ini := built L ops
    let ini' := iniRead L (iniWrite L ini)
    ∀ sec ∈ ini, findSection ini sec.name = some sec ∧
      ∃ sec', findSection ini' sec.name = some sec' ∧ ∀ ent ∈ sec.entries,
        (ent.wdata ≠ [] ∧ ent.wdata.head? ≠ some blank ∧ ent.wdata.head? ≠ some equals →
          SameAnswers (some sec') (some sec) ent.name) ∧
        let rest := ent.wdata.dropWhile fun c => c = equals ∨ c = blank
        (rest ≠ [] → ∀ deflt, getString (some sec') ent.name deflt = rest.flatMap L.wctomb) := by
  intro ini ini' sec hsec
  have hkept := kept_built L ops
  have hfound : findSection ini sec.name = some sec := find_distinct Section.name hkept.names hkept.distinct hsec
  refine ⟨hfound, reloadSection L sec, ?_, fun ent hent => ?_⟩
  · have hread : ini' = { name := [], entries := [] } :: ini.map (reloadSection L) := read_written hkept
    have hnames : ∀ s ∈ ini.map (reloadSection L), NameOk s.name := by
      intro s hs
      obtain ⟨old, hold, rfl⟩ := List.mem_map.mp hs
      exact hkept.names old hold
    have hdistinct : ((ini.map (reloadSection L)).map Section.name).Nodup := by
      rw [List.map_map]
      exact hkept.distinct
    have hfirst : ¬ sameName [] sec.name = true := by
      intro hsame
      obtain ⟨b, s, hcons⟩ := List.exists_cons_of_ne_nil (hkept.names sec hsec).1
      rw [hcons] at hsame
      exact absurd (of_decide_eq_true hsame) (by simp)
    unfold findSection
    rw [hread]
    refine (List.find?_cons_of_neg (p := fun s : Section => sameName s.name sec.name) hfirst).trans ?_
    exact find_distinct Section.name hnames hdistinct (List.mem_map_of_mem hsec)
  · have hheld := hkept.held sec hsec
    have hdistinct := hkept.entries sec hsec
    have hafter (rest : List Wide) (hrest : (ent.wdata.dropWhile fun c => c = equals ∨ c = blank) = rest) (hne : rest ≠ []) :
        findEntry (reloadSection L sec) ent.name =
          some { name := ent.name, data := rest.flatMap L.wctomb, wdata := rest } := by
      apply findEntry_reload hheld hdistinct hent
      unfold reload
      dsimp only
      rw [hrest, if_neg hne]
    refine ⟨fun ⟨hne, hblank, hequals⟩ => ?_, fun hne deflt => ?_⟩
    · have hwhole : (ent.wdata.dropWhile fun c => c = equals ∨ c = blank) = ent.wdata := by
        obtain ⟨c, w, hcons⟩ := List.exists_cons_of_ne_nil hne
        rw [hcons] at hblank hequals ⊢
        refine List.dropWhile_cons_of_neg fun hdrop => ?_
        exact (of_decide_eq_true hdrop).elim (fun h => hequals (congrArg some h)) fun h => hblank (congrArg some h)
      have hbefore : findEntry sec ent.name = some ent :=
        find_distinct Entry.name (fun e he => (hheld e he).name) hdistinct hent
      exact sameAnswers_of_entry (hafter _ hwhole hne) hbefore (L.back _ _ (hheld ent hent).wide).1
    · have hentry := hafter _ rfl hne
      unfold getString Ini.get
      rw [Option.bind_some, hentry]
      rfl

/-- A locale whose characters are bytes. -/
def latin1 : Ini.Locale where
  mbstowcs s := some (s.map (BitVec.setWidth 32))
  wctomb c := [c.setWidth 8]
  ascii := fun _ _ => rfl
  wctomb_ascii := fun _ _ => rfl
  back := by
    intro s w h
    have hbyte : ∀ b : Byte, (b.setWidth 32).setWidth 8 = b := by decide +kernel
    rw [← Option.some.inj h, List.flatMap_map]
    refine ⟨?_, fun c _ => List.cons_ne_nil _ _⟩
    simp only [hbyte, List.flatMap_singleton']

def lettered : Name := ⟨[0x61], by decide, by decide, by decide +kernel⟩

def letterOps : List (Op latin1) :=
  [.findOrCreate lettered, .string 0 lettered ⟨[0x78], by decide, by decide +kernel, rfl⟩]

theorem saved_letter :
    SameAnswers (findSection (iniRead latin1 (iniWrite latin1 (built latin1 letterOps))) [0x61])
      (findSection (built latin1 letterOps) [0x61]) [0x61] := by
  have hsec : ({ name := [0x61], entries := [⟨[0x61], [0x78], [0x78]⟩] } : Section) ∈ built latin1 letterOps :=
    List.mem_singleton_self _
  obtain ⟨hbefore, sec', hafter, hentries⟩ := saved_reads_back latin1 letterOps _ hsec
  dsimp only at hbefore hafter hentries
  rw [hbefore, hafter]
  exact (hentries _ (List.mem_singleton_self _)).1 ⟨by decide, by decide, by decide⟩

/-- A value that begins with a blank is read without it. -/
theorem leading_blank :
    ∃ val : Value latin1,
      let ini := built latin1 [.findOrCreate lettered, .string 0 lettered val]
      ¬ SameAnswers (findSection (iniRead latin1 (iniWrite latin1 ini)) lettered.1) (findSection ini lettered.1)
        lettered.1 := by
  refine ⟨⟨[0x20, 0x78], by decide, by decide +kernel, rfl⟩, fun h => ?_⟩
  exact absurd (h.string []) (by decide +kernel)

end PeepeeBox.IniReadback
