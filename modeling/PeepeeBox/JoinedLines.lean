import PeepeeBox.AtParser

set_option autoImplicit false

/-!
# Commands on one line

An accepted command is a change of the settings that depends on nothing but the line, and leaves
the cursor at the next command: two accepted lines written as one do what they do one after the
other, as long as the first leaves no value open at its end.
-/
namespace PeepeeBox.JoinedLines
open HaspRecord CString CharModem AtParser

/-- A modem fresh from power-on, and a host that answers nothing. -/
def supra : Modem := modemInit modemModelSupra .dead 57600 [] [] []

def silent : Host := ⟨0, false, 0⟩

/-- Registers, flags and settings: everything but the ring and the line kept for A/. -/
def settings (dev : Modem) : Modem := { dev with out := [], lastcmd := [] }

/-- What the ring holds has no part in it. -/
def Steady (act : Modem → Modem) : Prop := ∀ dev, settings (act dev) = settings (act (settings dev))

def space (c : Byte) : Bool := decide (c = ch ' ')

def argTail (rest : List Byte) : List Byte := (rest.dropWhile space).dropWhile isdigit

theorem modemArg_eq (rest : List Byte) :
    modemArg (.inside rest) = .ok (BitVec.ofNat 32 (argValue rest), .inside (argTail rest)) := by
  have hskip := skip_all space rfl rest
  have hcollect := collect_all isdigit rfl (rest.dropWhile space)
  unfold modemArg
  change (Cursor.skip space (.inside rest) >>= _) = _
  rw [hskip, ok_bind]
  change (Cursor.collect isdigit (fun _ => true) (List.length _) _ >>= _) = _
  rw [hcollect, ok_bind]
  have hdigits : ∀ c ∈ (rest.dropWhile space).takeWhile isdigit, isdigit c = true :=
    fun c hc => List.mem_takeWhile_imp hc
  exact congrArg (fun v => Except.ok (v, _)) (digits_wrap _ hdigits 0 0 rfl)

/-- The first byte of a line that is accepted, its spaces apart, is no digit, no `=` and no C. -/
def Opening (b : List Byte) : Prop :=
  ∀ c tail, b.dropWhile space = c :: tail → isdigit c = false ∧ c ≠ ch '=' ∧ toupper c ≠ ch 'C'

def Joins (tail b tail' : List Byte) : Prop := tail' = tail ++ b ∨ tail = [] ∧ tail' = b.dropWhile space

theorem Opening.head {b : List Byte} (h : Opening b) {c : Byte} {tail : List Byte} (hb : b = c :: tail) :
    isdigit c = false ∧ c ≠ ch '=' ∧ toupper c ≠ ch 'C' := by
  by_cases hspace : space c = true
  · rw [of_decide_eq_true hspace]
    decide +kernel
  · subst hb
    exact h c tail (List.dropWhile_cons_of_neg hspace)

theorem stays_of_head {p : Byte → Bool} {b : List Byte} (h : ∀ c tail, b = c :: tail → p c = false) :
    b.dropWhile p = b ∧ b.takeWhile p = [] := by
  cases b with
  | nil => exact ⟨rfl, rfl⟩
  | cons c tail =>
    have hc : ¬ p c = true := by simp [h c tail rfl]
    exact ⟨List.dropWhile_cons_of_neg hc, List.takeWhile_cons_of_neg hc⟩

theorem argTail_joins (rest : List Byte) {b : List Byte} (hb : Opening b) :
    argValue (rest ++ b) = argValue rest ∧ Joins (argTail rest) b (argTail (rest ++ b)) := by
  have hvalue : ∀ l, argValue l = ((l.dropWhile space).takeWhile isdigit).foldl
    (fun n c => 10 * n + (c.toNat - 0x30)) 0 := fun _ => rfl
  unfold argTail
  rw [hvalue, hvalue, List.dropWhile_append]
  cases hbody : rest.dropWhile space with
  | nil =>
    obtain ⟨hstay, hnone⟩ := stays_of_head (b := b.dropWhile space) fun c tail hc => (hb c tail hc).1
    rw [List.isEmpty_nil, if_pos rfl, hstay, hnone]
    exact ⟨rfl, Or.inr ⟨rfl, rfl⟩⟩
  | cons d body =>
    obtain ⟨hstay, hnone⟩ := stays_of_head (b := b) fun c tail hc => (hb.head hc).1
    rw [List.isEmpty_cons, if_neg (by decide), List.takeWhile_append, List.dropWhile_append, hstay, hnone,
      List.append_nil]
    constructor
    · split
      · next hall => rw [(List.takeWhile_prefix isdigit).eq_of_length hall]
      · rfl
    · cases htail : (d :: body).dropWhile isdigit with
      | nil => exact Or.inl rfl
      | cons e tail => exact Or.inl rfl

variable {host : Host}

/-- The command is the change `act`, and the next one starts at `tail`. -/
def Reads (f : Modem → Cursor → Except Fault Turn) (rest : List Byte) (act : Modem → Modem)
    (tail : List Byte) : Prop :=
  ∀ dev, f dev (.inside rest) = .ok (.more (act dev) (.inside tail))

/-- The command reads the same when a line is written behind it, unless its value is `left` open. -/
structure Command (f : Modem → Cursor → Except Fault Turn) (left : Prop) (rest : List Byte)
    (act : Modem → Modem) (tail : List Byte) : Prop where
  reads : Reads f rest act tail
  steady : Steady act
  joins : ¬ left → ∀ b, Opening b → ∃ tail', Joins tail b tail' ∧ Reads f (rest ++ b) act tail'

theorem settings_line (dev : Modem) (text : List Byte) :
    settings (modemOutLine dev text) = settings dev := by
  rw [modemOutLine_eq]
  rfl

theorem settings_result (dev : Modem) (res : Option Res) :
    settings (modemResult dev res) = settings dev := by
  rw [modemResult_eq]
  rfl

theorem settings_info (dev : Modem) (n : BitVec 32) : settings (modemInfo dev n) = settings dev := by
  unfold modemInfo
  split_ifs
  · rfl
  · exact settings_line _ _
  · exact settings_line _ _
  · exact settings_line _ _
  · split
    · exact settings_line _ _
    · rfl

theorem Steady.of_settings {act : Modem → Modem} (h : ∀ dev, settings (act dev) = settings dev) :
    Steady act := by
  intro dev
  rw [h, h]
  rfl

theorem Steady.congr {act : Modem → Modem} (h : Steady act) {dev dev' : Modem}
    (hsame : settings dev = settings dev') : settings (act dev) = settings (act dev') := by
  rw [h dev, h dev', hsame]

theorem argLetter_steady (c : Byte) (act : Modem → BitVec 32 → Modem) :
    argLetter c = some act → ∀ n, Steady fun dev => act dev n := by
  have entry := @of_ite_some _ fun act : Modem → BitVec 32 → Modem => ∀ n, Steady fun dev => act dev n
  unfold argLetter
  refine entry (fun _ _ => rfl) ?_
  refine entry (fun n dev => ?_) ?_
  · dsimp only
    split <;> rfl
  refine entry (fun n => .of_settings fun dev => settings_info dev n) ?_
  iterate 8 refine entry (fun _ _ => rfl) ?_
  intro h
  cases h

theorem plainLetter_steady (c : Byte) (act : Modem → Modem) : plainLetter c = some act → Steady act := by
  have entry := @of_ite_some _ Steady
  unfold plainLetter
  iterate 3 refine entry (fun _ => rfl) ?_
  intro h
  cases h

theorem ampLetter_steady (a : Byte) (n : BitVec 32) : Steady fun dev => ampLetter a dev n := by
  intro dev
  unfold ampLetter
  split_ifs <;> rfl

theorem Opening.nil : Opening [] := fun _ _ h => (nomatch h)

theorem arg_command {f : Modem → Cursor → Except Fault Turn} {left : Prop} (before : List Byte)
    {rest : List Byte} (act : Modem → BitVec 32 → Modem) (hact : ∀ n, Steady fun dev => act dev n)
    (hf : ∀ dev b, Opening b → f dev (.inside (before ++ (rest ++ b))) =
      (modemArg (.inside (rest ++ b))).bind fun r => .ok (.more (act dev r.1) r.2)) :
    Command f left (before ++ rest) (fun dev => act dev (BitVec.ofNat 32 (argValue rest)))
      (argTail rest) := by
  have hreads : ∀ b, Opening b → Reads f (before ++ (rest ++ b))
      (fun dev => act dev (BitVec.ofNat 32 (argValue (rest ++ b)))) (argTail (rest ++ b)) := by
    intro b hb dev
    rw [hf dev b hb, modemArg_eq]
    rfl
  constructor
  · have hself := hreads [] Opening.nil
    rw [List.append_nil] at hself
    exact hself
  · exact hact _
  · intro _ b hb
    obtain ⟨hvalue, hjoins⟩ := argTail_joins rest hb
    refine ⟨_, hjoins, ?_⟩
    rw [← hvalue, List.append_assoc]
    exact hreads b hb

theorem Joins.dropWhile {tail b tail' after : List Byte} {c : Byte} (h : Joins tail b tail')
    (hd : tail.dropWhile space = c :: after) : tail'.dropWhile space = c :: (after ++ b) := by
  rcases h with rfl | ⟨rfl, -⟩
  · rw [List.dropWhile_append, hd]
    rfl
  · cases hd

theorem register_set {rest after : List Byte} {i : Fin 100}
    (hbig : ¬ 100 ≤ (BitVec.ofNat 32 (argValue rest)).toInt)
    (hrest : (argTail rest).dropWhile space = ch '=' :: after)
    (hreg : sRegister (BitVec.ofNat 32 (argValue rest)) = .ok i) :
    Reads modemRegister rest
      (fun dev => { dev with s := Function.update dev.s i ((BitVec.ofNat 32 (argValue after)).setWidth 8) })
      (argTail after) := by
  intro dev
  have hskip := skip_all space rfl (argTail rest)
  rw [hrest] at hskip
  unfold modemRegister
  rw [modemArg_eq, ok_bind]
  dsimp only
  rw [if_neg hbig]
  change (Cursor.skip space _ >>= _) = _
  rw [hskip, ok_bind]
  change (modemArg (.inside after) >>= _) = _
  rw [modemArg_eq, ok_bind, hreg]
  rfl

theorem register_get {rest after : List Byte} {i : Fin 100}
    (hbig : ¬ 100 ≤ (BitVec.ofNat 32 (argValue rest)).toInt)
    (hrest : (argTail rest).dropWhile space = ch '?' :: after)
    (hreg : sRegister (BitVec.ofNat 32 (argValue rest)) = .ok i) :
    Reads modemRegister rest (fun dev => modemOutLine dev (padded 3 (decimal (dev.s i).toNat))) after := by
  intro dev
  have hskip := skip_all space rfl (argTail rest)
  rw [hrest] at hskip
  unfold modemRegister
  rw [modemArg_eq, ok_bind]
  dsimp only
  rw [if_neg hbig]
  change (Cursor.skip space _ >>= _) = _
  rw [hskip, ok_bind]
  change (sRegister _ >>= _) = _
  rw [hreg]
  rfl

theorem register_command {dev dev' : Modem} {rest : List Byte} {p : Cursor} (left : Prop)
    (h : modemRegister dev (.inside rest) = .ok (.more dev' p)) :
    ∃ act tail, Command modemRegister left rest act tail := by
  have hskip := skip_all space rfl (argTail rest)
  unfold modemRegister at h
  rw [modemArg_eq, ok_bind] at h
  dsimp only at h
  by_cases hbig : 100 ≤ (BitVec.ofNat 32 (argValue rest)).toInt
  · rw [if_pos hbig] at h
    cases h
  rw [if_neg hbig] at h
  change (Cursor.skip space _ >>= _) = _ at h
  rw [hskip, ok_bind] at h
  have hlonger : ∀ {b c after}, Opening b → (argTail rest).dropWhile space = c :: after →
      argValue (rest ++ b) = argValue rest ∧ (argTail (rest ++ b)).dropWhile space = c :: (after ++ b) := by
    intro b c after hb hrest
    obtain ⟨hvalue, hjoins⟩ := argTail_joins rest hb
    exact ⟨hvalue, hjoins.dropWhile hrest⟩
  cases hrest : (argTail rest).dropWhile space with
  | nil =>
    rw [hrest] at h
    cases h
  | cons c after =>
    rw [hrest] at h
    change (if c = ch '=' then _ else _) = _ at h
    by_cases hset : c = ch '='
    · subst hset
      rw [if_pos rfl] at h
      change (modemArg (.inside after) >>= _) = _ at h
      rw [modemArg_eq, ok_bind] at h
      cases hreg : sRegister (BitVec.ofNat 32 (argValue rest)) with
      | error fault =>
        rw [hreg] at h
        cases h
      | ok i =>
        refine ⟨_, _, register_set hbig hrest hreg, fun _ => rfl, fun _ b hb => ?_⟩
        obtain ⟨hvalue, hcons⟩ := hlonger hb hrest
        obtain ⟨hvalue', hjoins⟩ := argTail_joins after hb
        refine ⟨_, hjoins, ?_⟩
        rw [← hvalue']
        exact register_set (by rw [hvalue]; exact hbig) hcons (by rw [hvalue]; exact hreg)
    · rw [if_neg hset] at h
      by_cases hget : c = ch '?'
      · subst hget
        rw [if_pos rfl] at h
        cases hreg : sRegister (BitVec.ofNat 32 (argValue rest)) with
        | error fault =>
          rw [hreg] at h
          cases h
        | ok i =>
          refine ⟨_, _, register_get hbig hrest hreg, .of_settings fun dev => settings_line dev _,
            fun _ b hb => ?_⟩
          obtain ⟨hvalue, hcons⟩ := hlonger hb hrest
          exact ⟨_, Or.inl rfl,
            register_get (by rw [hvalue]; exact hbig) hcons (by rw [hvalue]; exact hreg)⟩
      · rw [if_neg hget] at h
        cases h

/-- `AT&W`, `AT&Y` and `AT&Z` keep a profile or a number. -/
abbrev keeps (a : Byte) : Prop := a = ch 'W' ∨ a = ch 'Y' ∨ a = ch 'Z'

/-- A value is given to the profile or the number; it runs to a `;` or to the end of the line. -/
def Stores (rest : List Byte) : Prop :=
  ∃ l after value, rest = l :: after ∧ keeps (toupper l) ∧ argTail after = ch '=' :: value

theorem ampersand_view {l : Byte} (hview : toupper l = ch 'V') (after : List Byte) :
    Reads modemAmpersand (l :: after) (fun dev => modemOutLine dev dev.ident) after := by
  intro dev
  unfold modemAmpersand
  change (if toupper l = ch 'V' then _ else _) = _
  rw [if_pos hview]
  rfl

theorem ampersand_stored {l : Byte} {after value : List Byte} (hview : toupper l ≠ ch 'V')
    (hend : toupper l ≠ 0) (hkeeps : keeps (toupper l)) (hvalue : argTail after = ch '=' :: value) :
    Reads modemAmpersand (l :: after) (fun dev => dev)
      ((ch '=' :: value).dropWhile fun c => decide (c ≠ 0 ∧ c ≠ ch ';')) := by
  intro dev
  unfold modemAmpersand
  change (if toupper l = ch 'V' then _ else _) = _
  rw [if_neg hview, if_neg hend]
  change (modemArg (.inside after) >>= _) = _
  rw [modemArg_eq, ok_bind]
  dsimp only
  rw [if_pos hkeeps, hvalue, skip_all _ rfl]
  rfl

theorem ampersand_kept {l : Byte} {after : List Byte} (hview : toupper l ≠ ch 'V') (hend : toupper l ≠ 0)
    (hkeeps : keeps (toupper l)) (hvalue : ∀ c tail, argTail after = c :: tail → c ≠ ch '=') (dev : Modem) :
    modemAmpersand dev (.inside (l :: after)) =
      (modemArg (.inside after)).bind fun r => .ok (.more dev r.2) := by
  unfold modemAmpersand
  change (if toupper l = ch 'V' then _ else _) = _
  rw [if_neg hview, if_neg hend]
  change (modemArg (.inside after) >>= _) = _
  rw [modemArg_eq, ok_bind]
  dsimp only
  rw [if_pos hkeeps]
  cases htail : argTail after with
  | nil => rfl
  | cons c tail =>
    change (if c = ch '=' then _ else _) = _
    rw [if_neg (hvalue c tail htail)]
    rfl

theorem ampersand_letter {l : Byte} (hview : toupper l ≠ ch 'V') (hend : toupper l ≠ 0)
    (hkeeps : ¬ keeps (toupper l)) (dev : Modem) (after : List Byte) :
    modemAmpersand dev (.inside (l :: after)) =
      (modemArg (.inside after)).bind fun r => .ok (.more (ampLetter (toupper l) dev r.1) r.2) := by
  unfold modemAmpersand
  change (if toupper l = ch 'V' then _ else _) = _
  rw [if_neg hview, if_neg hend]
  change (modemArg (.inside after) >>= _) = _
  rw [modemArg_eq, ok_bind]
  dsimp only
  rw [if_neg hkeeps]
  rfl

theorem ampersand_command {dev dev' : Modem} {rest : List Byte} {p : Cursor}
    (h : modemAmpersand dev (.inside rest) = .ok (.more dev' p)) :
    ∃ act tail, Command modemAmpersand (Stores rest) rest act tail := by
  cases rest with
  | nil => cases h
  | cons l after =>
    by_cases hview : toupper l = ch 'V'
    · exact ⟨_, after, ampersand_view hview after, .of_settings fun dev => settings_line dev _,
        fun _ b _ => ⟨_, Or.inl rfl, ampersand_view hview (after ++ b)⟩⟩
    have hend : toupper l ≠ 0 := by
      intro hend
      unfold modemAmpersand at h
      change (if toupper l = ch 'V' then _ else _) = _ at h
      rw [if_neg hview, if_pos hend] at h
      cases h
    by_cases hkeeps : keeps (toupper l)
    · by_cases hstores : Stores (l :: after)
      · obtain ⟨_, _, value, heq, -, hvalue⟩ := hstores
        obtain ⟨rfl, rfl⟩ := List.cons.inj heq
        exact ⟨_, _, ampersand_stored hview hend hkeeps hvalue, fun _ => rfl,
          fun hleft => absurd ⟨_, _, value, rfl, hkeeps, hvalue⟩ hleft⟩
      · refine ⟨_, _, arg_command [l] (fun dev _ => dev) (fun _ _ => rfl) ?_⟩
        intro dev b hb
        apply ampersand_kept hview hend hkeeps
        intro c tail htail hset
        rcases (argTail_joins after hb).2 with hjoin | ⟨-, hjoin⟩
        · cases hold : argTail after with
          | nil =>
            rw [hold, List.nil_append] at hjoin
            exact (hb.head (hjoin.symm.trans htail)).2.1 hset
          | cons d value =>
            have hcons := hjoin.symm.trans htail
            rw [hold] at hcons
            obtain ⟨rfl, -⟩ := List.cons.inj hcons
            exact hstores ⟨l, after, value, rfl, hkeeps, hold.trans (by rw [hset])⟩
        · exact (hb c tail (hjoin.symm.trans htail)).2.1 hset
    · exact ⟨_, _, arg_command [l] (ampLetter (toupper l)) (ampLetter_steady (toupper l))
        fun dev b _ => ampersand_letter hview hend hkeeps dev (after ++ b)⟩

theorem extended_command {dev dev' : Modem} {rest : List Byte} {p : Cursor} (left : Prop)
    (h : modemExtended dev (.inside rest) = .ok (.more dev' p)) :
    ∃ act tail, Command modemExtended left rest act tail := by
  cases rest with
  | nil => cases h
  | cons l after =>
    by_cases hend : l = 0
    · subst hend
      cases h
    refine ⟨_, _, arg_command [l] (fun dev _ => dev) (fun _ _ => rfl) ?_⟩
    intro dev b _
    unfold modemExtended
    change (if l = 0 then _ else _) = _
    rw [if_neg hend]
    rfl

theorem star_command {dev dev' : Modem} {rest : List Byte} {p : Cursor} (left : Prop)
    (h : modemStar dev (.inside rest) = .ok (.more dev' p)) :
    ∃ act tail, Command modemStar left rest act tail := by
  cases rest with
  | nil => cases h
  | cons l after =>
    have hend : toupper l ≠ 0 := by
      intro hend
      unfold modemStar at h
      change (if toupper l = 0 then _ else _) = _ at h
      rw [if_pos hend] at h
      cases h
    have hact : ∀ n : BitVec 32,
        Steady fun dev => if toupper l = ch 'N' then { dev with country := n } else dev := by
      intro n dev
      dsimp only
      split <;> rfl
    by_cases hcountry : ∃ c after', after = c :: after' ∧ toupper c = ch 'C'
    · obtain ⟨c, after', rfl, hc⟩ := hcountry
      refine ⟨_, _, arg_command [l, c] _ hact ?_⟩
      intro dev b _
      unfold modemStar
      change (if toupper l = 0 then _ else _) = _
      rw [if_neg hend]
      change (modemArg (if toupper c = ch 'C' then _ else _) >>= _) = _
      rw [if_pos hc]
      rfl
    · refine ⟨_, _, arg_command [l] _ hact ?_⟩
      intro dev b hb
      unfold modemStar
      change (if toupper l = 0 then _ else _) = _
      rw [if_neg hend]
      cases hbody : after ++ b with
      | nil => rfl
      | cons c body =>
        have hc : toupper c ≠ ch 'C' := by
          cases after with
          | nil => exact (hb.head hbody).2.2
          | cons d after' =>
            obtain ⟨rfl, -⟩ := List.cons.inj hbody
            exact fun hd => hcountry ⟨d, after', rfl, hd⟩
        change (modemArg (if toupper c = ch 'C' then _ else _) >>= _) = _
        rw [if_neg hc]
        rfl

/-- `AT+GCI?` -/
def Asks (rest : List Byte) : Prop := (rest.take 4).map toupper = ascii "GCI?"

theorem toupper_ask (q : Byte) : toupper q = ch '?' → q = ch '?' := by
  revert q
  decide +kernel

theorem toupper_name (g : Byte) : toupper g = ch 'G' ∨ toupper g = ch 'C' ∨ toupper g = ch 'I' →
    g ≠ 0 ∧ g ≠ ch '=' ∧ g ≠ ch '?' := by
  revert g
  decide +kernel

theorem plus_asks {rest : List Byte} (h : Asks rest) :
    Reads modemPlus rest (fun dev => modemOutLine dev (ascii "+GCI: " ++ hex2 dev.country)) (rest.drop 4) := by
  obtain ⟨g, c, i, q, after, rfl⟩ : ∃ g c i q after, rest = g :: c :: i :: q :: after := by
    have hlength := congrArg List.length h
    match rest, hlength with
    | g :: c :: i :: q :: after, _ => exact ⟨g, c, i, q, after, rfl⟩
  obtain ⟨hg, hrest⟩ := List.cons.inj h
  obtain ⟨hc, hrest⟩ := List.cons.inj hrest
  obtain ⟨hi, hrest⟩ := List.cons.inj hrest
  obtain rfl := toupper_ask q (List.cons.inj hrest).1
  have hkeep : ∀ d : Byte, toupper d = ch 'G' ∨ toupper d = ch 'C' ∨ toupper d = ch 'I' →
      decide (d ≠ 0 ∧ d ≠ ch '=' ∧ d ≠ ch '?') = true := fun d hd => decide_eq_true (toupper_name d hd)
  have hcollect : Cursor.collect (fun c => decide (c ≠ 0 ∧ c ≠ ch '=' ∧ c ≠ ch '?')) (fun _ => true) 15
      (.inside (g :: c :: i :: ch '?' :: after)) = .ok ([g, c, i], .inside (ch '?' :: after)) := by
    change Cursor.collectFrom _ _ _ _ = _
    simp only [Cursor.collectFrom, hkeep g (Or.inl hg), hkeep c (Or.inr (Or.inl hc)),
      hkeep i (Or.inr (Or.inr hi)), if_true]
    rfl
  have hname : [g, c, i].map toupper = ascii "GCI" := by
    change [toupper g, toupper c, toupper i] = _
    rw [hg, hc, hi]
    rfl
  intro dev
  unfold modemPlus
  rw [hcollect, ok_bind]
  dsimp only
  rw [if_pos hname]
  rfl

theorem plus_command {dev dev' : Modem} {rest : List Byte} {p : Cursor}
    (h : modemPlus dev (.inside rest) = .ok (.more dev' p)) :
    ∃ act tail, Command modemPlus (¬ Asks rest) rest act tail := by
  by_cases hasks : Asks rest
  · refine ⟨_, _, plus_asks hasks, .of_settings fun dev => settings_line dev _, fun _ b _ => ?_⟩
    have hlength : 4 ≤ rest.length := by
      have hlength := congrArg List.length hasks
      rw [List.length_map, List.length_take] at hlength
      change min 4 rest.length = 4 at hlength
      omega
    have hasks' : Asks (rest ++ b) := by
      unfold Asks
      rw [List.take_append_of_le_length hlength]
      exact hasks
    refine ⟨_, Or.inl rfl, ?_⟩
    rw [← List.drop_append_of_le_length hlength]
    exact plus_asks hasks'
  · obtain ⟨letters, tail, hcollect, htail⟩ := collect_inside
      (fun c => decide (c ≠ 0 ∧ c ≠ ch '=' ∧ c ≠ ch '?')) (fun _ => true) rfl rest 15
    suffices hreads : ∃ act tail, Reads modemPlus rest act tail ∧ Steady act by
      obtain ⟨act, tail, hreads, hsteady⟩ := hreads
      exact ⟨act, tail, hreads, hsteady, fun hleft => absurd hasks hleft⟩
    unfold modemPlus at h
    rw [hcollect, ok_bind] at h
    dsimp only at h
    by_cases hgci : letters.map toupper = ascii "GCI"
    · rw [if_pos hgci] at h
      cases tail with
      | nil => cases h
      | cons c after =>
        change (if c = ch '?' then _ else _) = _ at h
        by_cases hget : c = ch '?'
        · subst hget
          refine ⟨fun dev => modemOutLine dev (ascii "+GCI: " ++ hex2 dev.country), after,
            fun dev => ?_, .of_settings fun dev => settings_line dev _⟩
          unfold modemPlus
          rw [hcollect, ok_bind]
          dsimp only
          rw [if_pos hgci]
          rfl
        rw [if_neg hget] at h
        by_cases hset : c = ch '='
        · subst hset
          obtain ⟨v, tail', hnumber, -⟩ := strtol16_inside after
          refine ⟨fun dev => { dev with country := BitVec.ofInt 32 v }, tail', fun dev => ?_, fun _ => rfl⟩
          unfold modemPlus
          rw [hcollect, ok_bind]
          dsimp only
          rw [if_pos hgci]
          change (strtol16 (.inside after) >>= _) = _
          rw [hnumber]
          rfl
        · rw [if_neg hset] at h
          cases h
    · rw [if_neg hgci] at h
      by_cases hname : letters.map toupper = ascii "MS" ∨ letters.map toupper = ascii "FCLASS" ∨
          letters.map toupper = ascii "IFC" ∨ letters.map toupper = ascii "ES"
      · refine ⟨fun dev => dev, tail.dropWhile fun c => decide (c ≠ 0 ∧ c ≠ ch ';'), fun dev => ?_, fun _ => rfl⟩
        unfold modemPlus
        rw [hcollect, ok_bind]
        dsimp only
        rw [if_neg hgci, if_pos hname, skip_all _ rfl]
        rfl
      · rw [if_neg hname] at h
        cases h

theorem last_finish {host : Host} {dev dev' : Modem} {c : Byte} {rest : List Byte} {p : Cursor} :
    modemLast host dev c (.inside rest) ≠ .ok (.more dev' p) := by
  intro h
  unfold modemLast at h
  by_cases hanswer : c = ch 'A'
  · rw [if_pos hanswer] at h
    cases h
  rw [if_neg hanswer] at h
  by_cases hdial : c = ch 'D'
  · rw [if_pos hdial] at h
    by_cases hbusy : dev.state ≠ .idle
    · rw [if_pos hbusy] at h
      cases h
    · obtain ⟨number, tail, hcollect, -⟩ := collect_inside (fun d => decide (d ≠ 0)) dialled rfl rest 63
      rw [if_neg hbusy, hcollect] at h
      cases h
  rw [if_neg hdial] at h
  by_cases hdata : c = ch 'O'
  · rw [if_pos hdata] at h
    by_cases honline : dev.state ≠ .online
    · rw [if_pos honline] at h
      cases h
    · rw [if_neg honline, modemArg_eq] at h
      cases h
  · rw [if_neg hdata] at h
    cases h

def Opens (c : Byte) (rest : List Byte) : Prop :=
  toupper c = ch '+' ∧ ¬ Asks rest ∨ toupper c = ch '&' ∧ Stores rest

theorem Command.of_eq {f g : Modem → Cursor → Except Fault Turn} {left left' : Prop} {rest : List Byte}
    {act : Modem → Modem} {tail : List Byte} (h : Command g left' rest act tail)
    (hfg : ∀ dev p, f dev p = g dev p) (hleft : left' → left) : Command f left rest act tail := by
  refine ⟨fun dev => (hfg _ _).trans (h.reads dev), h.steady, fun hclosed b hb => ?_⟩
  obtain ⟨tail', hjoins, hreads⟩ := h.joins (fun hopen => hclosed (hleft hopen)) b hb
  exact ⟨tail', hjoins, fun dev => (hfg _ _).trans (hreads dev)⟩

theorem letter_command {host : Host} {dev dev' : Modem} {c : Byte} {rest : List Byte} {p : Cursor}
    (h : modemLetter host dev (toupper c) (.inside rest) = .ok (.more dev' p)) :
    ∃ act tail, ∀ host,
      Command (fun dev p => modemLetter host dev (toupper c) p) (Opens c rest) rest act tail := by
  unfold modemLetter at h ⊢
  cases harg : argLetter (toupper c) with
  | some act =>
    exact ⟨_, _, fun host => arg_command [] act (argLetter_steady _ act harg) fun dev b _ => rfl⟩
  | none =>
    rw [harg] at h
    cases hplain : plainLetter (toupper c) with
    | some act =>
      exact ⟨act, rest, fun host => ⟨fun _ => rfl, plainLetter_steady _ act hplain,
        fun _ b _ => ⟨_, Or.inl rfl, fun _ => rfl⟩⟩⟩
    | none =>
      rw [hplain] at h
      dsimp only at h ⊢
      by_cases hs : toupper c = ch 'S'
      · rw [if_pos hs] at h
        obtain ⟨act, tail, hcommand⟩ := register_command (Opens c rest) h
        exact ⟨act, tail, fun host => hcommand.of_eq (fun _ _ => if_pos hs) id⟩
      rw [if_neg hs] at h
      by_cases hamp : toupper c = ch '&'
      · rw [if_pos hamp] at h
        obtain ⟨act, tail, hcommand⟩ := ampersand_command h
        refine ⟨act, tail, fun host => hcommand.of_eq (fun _ _ => ?_) fun hstores => Or.inr ⟨hamp, hstores⟩⟩
        rw [if_neg hs, if_pos hamp]
      rw [if_neg hamp] at h
      by_cases hext : toupper c = 0x5C ∨ toupper c = ch '%' ∨ toupper c = ch '-'
      · rw [if_pos hext] at h
        obtain ⟨act, tail, hcommand⟩ := extended_command (Opens c rest) h
        refine ⟨act, tail, fun host => hcommand.of_eq (fun _ _ => ?_) id⟩
        rw [if_neg hs, if_neg hamp, if_pos hext]
      rw [if_neg hext] at h
      by_cases hstar : toupper c = ch '*'
      · rw [if_pos hstar] at h
        obtain ⟨act, tail, hcommand⟩ := star_command (Opens c rest) h
        refine ⟨act, tail, fun host => hcommand.of_eq (fun _ _ => ?_) id⟩
        rw [if_neg hs, if_neg hamp, if_neg hext, if_pos hstar]
      rw [if_neg hstar] at h
      by_cases hplus : toupper c = ch '+'
      · rw [if_pos hplus] at h
        obtain ⟨act, tail, hcommand⟩ := plus_command h
        refine ⟨act, tail, fun host => hcommand.of_eq (fun _ _ => ?_) fun hasks => Or.inl ⟨hplus, hasks⟩⟩
        rw [if_neg hs, if_neg hamp, if_neg hext, if_neg hstar, if_pos hplus]
      · rw [if_neg hplus] at h
        exact absurd h last_finish

/-- The line is made of commands, and amounts to the change `f`. -/
inductive Amounts : List Byte → (Modem → Modem) → Prop
  | done : Amounts [] fun dev => dev
  | turn (c : Byte) (rest tail : List Byte) (act f : Modem → Modem) (text : c ≠ 0)
      (command : ∀ host,
        Command (fun dev p => modemLetter host dev (toupper c) p) (Opens c rest) rest act tail)
      (kept : tail <:+ rest) (more : Amounts tail f) : Amounts (c :: rest) fun dev => f (act dev)

theorem Amounts.runs {line : List Byte} {f : Modem → Modem} (h : Amounts line f) (host : Host)
    (fuel : ℕ) (dev : Modem) (hfuel : line.length < fuel) :
    modemExecute host fuel dev (.inside line) = .ok (f dev, some .ok) := by
  induction h generalizing fuel dev with
  | done =>
    cases fuel with
    | zero => omega
    | succ fuel => rfl
  | turn c rest tail act f text command kept more ih =>
    cases fuel with
    | zero => omega
    | succ fuel =>
      have hshort : tail.length < fuel := by
        have := kept.length_le
        rw [List.length_cons] at hfuel
        omega
      change (if c = 0 then _ else _) = _
      rw [if_neg text]
      change (modemLetter host dev (toupper c) (.inside rest) >>= _) = _
      have hletter : modemLetter host dev (toupper c) (.inside rest) = _ := (command host).reads dev
      rw [hletter, ok_bind]
      exact ih fuel (act dev) hshort

theorem Amounts.steady {line : List Byte} {f : Modem → Modem} (h : Amounts line f) : Steady f := by
  induction h with
  | done => exact fun _ => rfl
  | turn c rest tail act f text command kept more ih =>
    intro dev
    have hact := (command silent).steady
    rw [ih (act dev), ih (act (settings dev)), hact dev]

def Unanswered : Turn → Prop
  | .finish _ res => res ≠ some .ok
  | .more _ _ => True

theorem letter_unanswered (host : Host) (dev : Modem) (c : Byte) (p : Cursor) :
    Every Unanswered (modemLetter host dev c p) := by
  have hmore : ∀ dev p, Every Unanswered (.ok (.more dev p)) := fun _ _ => .ok trivial
  unfold modemLetter modemRegister modemAmpersand modemExtended modemStar modemPlus modemLast
  split
  · apply Every.bind
    exact fun _ => hmore _ _
  · exact hmore _ _
  · -- Every other letter is binds and tests around the two ways a turn can end.
    repeat' first
      | exact hmore _ _
      | exact .ok (by decide : _ ≠ _)
      | apply Every.ite
      | (apply Every.bind; intro b)

/-- The next command of a line starts at `tail`. -/
def Next (line tail : List Byte) : Prop :=
  ∃ c rest host dev dev', line = c :: rest ∧
    modemLetter host dev (toupper c) (.inside rest) = .ok (.more dev' (.inside tail))

theorem letter_suffix {host : Host} {dev dev' : Modem} {c : Byte} {rest tail : List Byte}
    (h : modemLetter host dev c (.inside rest) = .ok (.more dev' (.inside tail))) : tail <:+ rest := by
  have hturned := modemLetter_turned host dev c rest
  rw [h] at hturned
  rcases hturned with hturned | ⟨-, i, -, hfault, -⟩
  · cases hturned with
    | more _ _ _ kept => exact kept
  · cases hfault

theorem Next.suffix {line tail : List Byte} (h : Next line tail) : tail <:+ line := by
  obtain ⟨c, rest, host, dev, dev', rfl, hletter⟩ := h
  exact (letter_suffix hletter).trans (List.suffix_cons c rest)

theorem amounts_cons {host : Host} {c : Byte} {rest tail : List Byte} {act f : Modem → Modem} (hc : c ≠ 0)
    (hletter : ∀ dev, modemLetter host dev (toupper c) (.inside rest) = .ok (.more (act dev) (.inside tail)))
    (hf : Amounts tail f) : Amounts (c :: rest) fun dev => f (act dev) := by
  obtain ⟨act', tail', hcommand⟩ := letter_command (hletter supra)
  have hreads : ∀ dev, modemLetter host dev (toupper c) (.inside rest) = .ok (.more (act' dev) (.inside tail')) :=
    (hcommand host).reads
  have hsame : ∀ dev, act dev = act' dev ∧ tail = tail' := by
    intro dev
    obtain ⟨hact, htail⟩ := Turn.more.inj (Except.ok.inj ((hletter dev).symm.trans (hreads dev)))
    exact ⟨hact, Cursor.inside.inj htail⟩
  obtain rfl : act = act' := funext fun dev => (hsame dev).1
  obtain rfl := (hsame supra).2
  exact .turn c rest tail act f hc hcommand (letter_suffix (hletter supra)) hf

theorem amounts_of_ok {host : Host} {fuel : ℕ} {dev dev' : Modem} {line : List Byte}
    (htext : 0 ∉ line) (h : modemExecute host fuel dev (.inside line) = .ok (dev', some .ok)) :
    ∃ f, Amounts line f := by
  induction fuel generalizing dev line with
  | zero => cases h
  | succ fuel ih =>
    cases line with
    | nil => exact ⟨_, .done⟩
    | cons c rest =>
      have hc : c ≠ 0 := fun hc => htext (hc ▸ List.mem_cons_self)
      change (if c = 0 then _ else _) = _ at h
      rw [if_neg hc] at h
      change (modemLetter host dev (toupper c) (.inside rest) >>= _) = _ at h
      cases hturn : modemLetter host dev (toupper c) (.inside rest) with
      | error fault =>
        rw [hturn] at h
        cases h
      | ok turn =>
        rw [hturn, ok_bind] at h
        cases turn with
        | finish dev₁ res =>
          obtain ⟨-, rfl⟩ := Prod.mk.inj (Except.ok.inj h)
          exact absurd rfl (letter_unanswered host dev (toupper c) _ _ hturn)
        | more dev₁ p =>
          obtain ⟨act, tail, hcommand⟩ := letter_command hturn
          have hreads : modemLetter host dev (toupper c) (.inside rest) = _ := (hcommand host).reads dev
          rw [hturn] at hreads
          obtain ⟨-, rfl⟩ := Turn.more.inj (Except.ok.inj hreads)
          have hkept := letter_suffix hturn
          have htail : 0 ∉ tail := fun hzero => htext (List.mem_cons_of_mem c (hkept.subset hzero))
          obtain ⟨f, hf⟩ := ih htail h
          exact ⟨_, .turn c rest tail act f hc hcommand hkept hf⟩

def Accepted (line : List Byte) : Prop :=
  ∃ host dev dev', modemExecute host (line.length + 1) dev (.inside line) = .ok (dev', some .ok)

/-- In the line every `+` command, `+GCI?` apart, and every value stored by `&W`, `&Y` or `&Z` is
    ended by a `;`. -/
def Ended (line : List Byte) : Prop :=
  ∀ c rest tail, Relation.ReflTransGen Next line (c :: rest) → Next (c :: rest) tail → Opens c rest →
    ∃ after, tail = ch ';' :: after

theorem letter_unknown (c : Byte) (h : isdigit c = true ∨ c = ch '=' ∨ toupper c = ch 'C' ∨ c = ch ';')
    (host : Host) (dev : Modem) (p : Cursor) :
    modemLetter host dev (toupper c) p = .ok (.finish dev (some .error)) := by
  have hmember : toupper c ∈ ascii "0123456789=C;" := by
    revert c
    decide +kernel
  generalize toupper c = d at hmember
  change d ∈ [_, _, _, _, _, _, _, _, _, _, _, _, _] at hmember
  simp only [List.mem_cons, List.not_mem_nil, or_false] at hmember
  rcases hmember with rfl | rfl | rfl | rfl | rfl | rfl | rfl | rfl | rfl | rfl | rfl | rfl | rfl <;> rfl

theorem amounts_known {c : Byte} {rest : List Byte} {f : Modem → Modem} (h : Amounts (c :: rest) f) :
    ¬ (isdigit c = true ∨ c = ch '=' ∨ toupper c = ch 'C' ∨ c = ch ';') := by
  intro hunknown
  cases h with
  | turn _ _ tail act f text command kept more =>
    have hreads : modemLetter silent _ (toupper c) (.inside rest) = _ :=
      (command silent).reads supra
    rw [letter_unknown c hunknown] at hreads
    cases hreads

theorem letter_space (host : Host) (dev : Modem) (p : Cursor) :
    modemLetter host dev (toupper (ch ' ')) p = .ok (.more dev p) := rfl

theorem amounts_opening {b : List Byte} {g : Modem → Modem} (h : Amounts b g) :
    Opening b ∧ Amounts (b.dropWhile space) g := by
  induction h with
  | done => exact ⟨Opening.nil, .done⟩
  | turn c rest tail act f text command kept more ih =>
    by_cases hspace : space c = true
    · have hletter : ∀ dev, dev = act dev ∧ rest = tail := by
        intro dev
        have hreads : modemLetter silent dev (toupper c) (.inside rest) = _ :=
          (command silent).reads dev
        rw [of_decide_eq_true hspace, letter_space] at hreads
        obtain ⟨hact, htail⟩ := Turn.more.inj (Except.ok.inj hreads)
        exact ⟨hact, Cursor.inside.inj htail⟩
      obtain rfl := (hletter supra).2
      have hsame : (fun dev => f (act dev)) = f := funext fun dev => congrArg f (hletter dev).1.symm
      rw [hsame]
      unfold Opening
      rw [List.dropWhile_cons_of_pos hspace]
      exact ih
    · have hknown := amounts_known (.turn c rest tail act f text command kept more)
      unfold Opening
      rw [List.dropWhile_cons_of_neg hspace]
      refine ⟨?_, .turn c rest tail act f text command kept more⟩
      intro d after hd
      obtain ⟨rfl, -⟩ := List.cons.inj hd
      refine ⟨?_, fun heq => hknown (Or.inr (Or.inl heq)), fun hcall => hknown (Or.inr (Or.inr (Or.inl hcall)))⟩
      exact Bool.eq_false_iff.mpr fun hdigit => hknown (Or.inl hdigit)

theorem amounts_append {a b : List Byte} {f g : Modem → Modem} (ha : Amounts a f) (hb : Amounts b g)
    (hended : Ended a) : Amounts (a ++ b) fun dev => g (f dev) := by
  obtain ⟨hopening, hspaced⟩ := amounts_opening hb
  induction ha with
  | done => exact hb
  | turn c rest tail act f text command kept more ih =>
    have hnext : Next (c :: rest) tail :=
      ⟨c, rest, silent, supra, _, rfl, (command _).reads _⟩
    have hclosed : ¬ Opens c rest := by
      intro hopens
      obtain ⟨after, rfl⟩ := hended c rest tail .refl hnext hopens
      exact amounts_known more (Or.inr (Or.inr (Or.inr rfl)))
    have hlater : Ended tail := fun d body tail' hrun => hended d body tail' (hrun.head hnext)
    obtain ⟨tail', hjoins, hreads⟩ := (command silent).joins hclosed b hopening
    rcases hjoins with rfl | ⟨rfl, rfl⟩
    · have hletter : ∀ dev, modemLetter silent dev (toupper c) (.inside (rest ++ b)) = _ := hreads
      have hjoined := amounts_cons text hletter (ih hlater)
      exact hjoined
    · cases more with
      | done => exact amounts_cons text hreads hspaced

theorem cstr_text {line : List Byte} (htext : 0 ∉ line) : cstr line = line := by
  apply List.takeWhile_eq_self_iff.mpr
  intro c hc
  exact decide_eq_true fun hzero => htext (hzero ▸ hc)

theorem Amounts.command {line : List Byte} {f : Modem → Modem} (h : Amounts line f) (htext : 0 ∉ line)
    (host : Host) (dev : Modem) : modemCommand host dev line =
      .ok (modemResult (f { dev with lastcmd := line.take (modemCmdSize - 1) }) (some .ok)) := by
  unfold modemCommand
  rw [cstr_text htext]
  dsimp only
  rw [h.runs host _ _ (Nat.lt_succ_self _)]
  rfl

/-- A value stored with `&Z` takes the rest of the line: the commands written behind it are lost. -/
theorem stored_value :
    let a := ascii "&Z0=5"
    let b := ascii "E0"
    Accepted a ∧ Accepted b ∧ ch '+' ∉ a ∧
      ((modemCommand silent supra a).bind (modemCommand silent · b)).map (fun dev => dev.echo) = .ok false ∧
      (modemCommand silent supra (a ++ b)).map (fun dev => dev.echo) = .ok true := by
  exact ⟨⟨silent, supra, _, rfl⟩, ⟨silent, supra, _, rfl⟩, by decide, rfl, rfl⟩

/-- Two lines accepted on their own, the values of the first ended: the line of both is answered
    with OK and leaves the registers, flags and settings that the one after the other leaves. -/
theorem joined_line (dev : Modem) (a b : List Byte) (hatext : 0 ∉ a) (hbtext : 0 ∉ b) (ha : Accepted a)
    (hb : Accepted b) (hended : Ended a) (host host₁ host₂ : Host) :
    ∃ one two ended joined, modemCommand host₁ dev a = .ok one ∧ modemCommand host₂ one b = .ok two ∧
      modemExecute host ((a ++ b).length + 1) { dev with lastcmd := (a ++ b).take (modemCmdSize - 1) }
        (.inside (a ++ b)) = .ok (ended, some .ok) ∧
      modemCommand host dev (a ++ b) = .ok joined ∧ settings joined = settings two := by
  obtain ⟨_, _, _, ha⟩ := ha
  obtain ⟨_, _, _, hb⟩ := hb
  obtain ⟨f, hf⟩ := amounts_of_ok hatext ha
  obtain ⟨g, hg⟩ := amounts_of_ok hbtext hb
  have hfg := amounts_append hf hg hended
  have htext : 0 ∉ a ++ b := fun hzero => (List.mem_append.mp hzero).elim hatext hbtext
  refine ⟨_, _, _, _, hf.command hatext host₁ dev, hg.command hbtext host₂ _,
    hfg.runs host _ _ (Nat.lt_succ_self _), hfg.command htext host dev, ?_⟩
  rw [settings_result, settings_result]
  apply hg.steady.congr
  have hstart : settings { dev with lastcmd := (a ++ b).take (modemCmdSize - 1) } =
      settings { dev with lastcmd := a.take (modemCmdSize - 1) } := rfl
  have hfirst := hf.steady.congr hstart
  exact hfirst.trans (settings_result _ (some .ok)).symm

theorem ended_of_absent {line : List Byte}
    (h : ∀ c ∈ line, toupper c ≠ ch '+' ∧ toupper c ≠ ch '&') : Ended line := by
  intro c rest tail hrun _ hopens
  have hsuffix : (c :: rest) <:+ line := by
    generalize c :: rest = last at hrun
    induction hrun with
    | refl => exact List.suffix_refl _
    | tail _ hnext ih => exact hnext.suffix.trans ih
  obtain ⟨hplus, hamp⟩ := h c (hsuffix.subset List.mem_cons_self)
  rcases hopens with ⟨heq, -⟩ | ⟨heq, -⟩
  · exact absurd heq hplus
  · exact absurd heq hamp

/-- `ATS7=20E0` and `ATV1&C1`. -/
theorem joined_line_settings :
    let a := ascii "S7=20E0"
    let b := ascii "V1&C1"
    ∃ one two ended joined, modemCommand silent supra a = .ok one ∧ modemCommand silent one b = .ok two ∧
      modemExecute silent ((a ++ b).length + 1) { supra with lastcmd := (a ++ b).take (modemCmdSize - 1) }
        (.inside (a ++ b)) = .ok (ended, some .ok) ∧
      modemCommand silent supra (a ++ b) = .ok joined ∧ settings joined = settings two := by
  apply joined_line
  · decide
  · decide
  · exact ⟨silent, supra, _, rfl⟩
  · exact ⟨silent, supra, _, rfl⟩
  · apply ended_of_absent
    decide

end PeepeeBox.JoinedLines
