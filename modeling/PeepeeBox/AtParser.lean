import Mathlib.Data.List.TakeWhile
import Mathlib.Logic.Relation
import Mathlib.Tactic.SplitIfs
import PeepeeBox.CharModem

set_option autoImplicit false

/-!
# The AT parser

What a command line can do to the modem is said once, as a relation between the states
around it; every command keeps its cursor in the string.
-/
namespace PeepeeBox.AtParser
open HaspRecord CString CharModem

/-- Bytes queued for the DTE, the overflow dropped. -/
def ring (out bs : List Byte) : List Byte :=
  bs.foldl (fun out b => if out.length = modemOutSize - 1 then out else out ++ [b]) out

theorem ring_append (out xs ys : List Byte) : ring out (xs ++ ys) = ring (ring out xs) ys :=
  List.foldl_append

theorem modemOutByte_eq (dev : Modem) (b : Byte) :
    modemOutByte dev b = { dev with out := ring dev.out [b] } := by
  unfold modemOutByte ring
  by_cases hfull : dev.out.length = modemOutSize - 1
  · rw [if_pos hfull, List.foldl_cons, if_pos hfull]
    rfl
  · rw [if_neg hfull, List.foldl_cons, if_neg hfull]
    rfl

theorem modemOutStr_eq (dev : Modem) (bs : List Byte) :
    modemOutStr dev bs = { dev with out := ring dev.out bs } := by
  induction bs generalizing dev with
  | nil => rfl
  | cons b bs ih =>
    have hstep : modemOutStr dev (b :: bs) = modemOutStr (modemOutByte dev b) bs := rfl
    have hring : ring dev.out (b :: bs) = ring (ring dev.out [b]) bs :=
      ring_append dev.out [b] bs
    rw [hstep, ih, modemOutByte_eq, hring]

def framed (dev : Modem) (text : List Byte) : List Byte :=
  [dev.s 3, dev.s 4] ++ text ++ [dev.s 3, dev.s 4]

theorem modemOutLine_eq (dev : Modem) (text : List Byte) :
    modemOutLine dev text = { dev with out := ring dev.out (framed dev text) } :=
  modemOutStr_eq dev _

def resultLine (dev : Modem) (res : Option Res) : List Byte :=
  match res with
  | none => []
  | some res =>
    if dev.quiet then []
    else if dev.verbose then framed dev (resText dev (resCode dev res))
    else decimal (resCode dev res).code ++ [dev.s 3]

theorem modemResult_eq (dev : Modem) (res : Option Res) :
    modemResult dev res = { dev with out := ring dev.out (resultLine dev res) } := by
  cases res with
  | none => rfl
  | some res =>
    unfold modemResult resultLine
    dsimp only
    by_cases hquiet : dev.quiet = true
    · rw [if_pos hquiet, if_pos hquiet]
      rfl
    · rw [if_neg hquiet, if_neg hquiet]
      by_cases hverbose : dev.verbose = true
      · rw [if_pos hverbose, if_pos hverbose, modemOutLine_eq]
      · rw [if_neg hverbose, if_neg hverbose, modemOutByte_eq, modemOutStr_eq, ring_append]

/-- The texts the information commands answer with. -/
inductive Info (dev : Modem) : List Byte → Prop
  | ident : Info dev dev.ident
  | firmware : Info dev dev.firmware
  | country (n : BitVec 32) : Info dev (ascii "Country Code: " ++ hex2 n)
  | table (n : ℕ) (text : List Byte) (h : dev.model.info n = some text) : Info dev text
  | register (v : Byte) : Info dev (padded 3 (decimal v.toNat))
  | gci (n : BitVec 32) : Info dev (ascii "+GCI: " ++ hex2 n)

/-- The commands' settings differ; the line, the ring and the fixed strings do not. -/
structure Settled (dev dev' : Modem) : Prop where
  model : dev'.model = dev.model
  ident : dev'.ident = dev.ident
  firmware : dev'.firmware = dev.firmware
  out : dev'.out = dev.out
  online : dev'.online = dev.online
  state : dev'.state = dev.state
  sock : dev'.sock = dev.sock
  pluses : dev'.pluses = dev.pluses

/-- One thing a command that leaves the line unfinished can do. -/
inductive Effect : Modem → Modem → Prop
  | settle (dev dev' : Modem) (h : Settled dev dev') : Effect dev dev'
  | hangup (dev : Modem) : Effect dev (modemHangup dev)
  | info (dev : Modem) (text : List Byte) (h : Info dev text) : Effect dev (modemOutLine dev text)

abbrev Effects : Modem → Modem → Prop := Relation.ReflTransGen Effect

/-- How a line ends. -/
inductive Ends (host : Host) : Modem → Modem → Option Res → Prop
  | report (dev : Modem) (res : Res) (h : res = .ok ∨ res = .error ∨ res = .noCarrier) :
    Ends host dev dev (some res)
  | dial (dev : Modem) (number : List Byte) (h : dev.state = .idle) :
    Ends host dev (modemDial host dev number) none
  | data (dev : Modem) (h : dev.state = .online) : Ends host dev { dev with online := true } none

theorem Effects.settle {dev dev' : Modem} (h : Settled dev dev') : Effects dev dev' :=
  Relation.ReflTransGen.single (.settle dev dev' h)

theorem Effects.info {dev : Modem} {text : List Byte} (h : Info dev text) :
    Effects dev (modemOutLine dev text) :=
  Relation.ReflTransGen.single (.info dev text h)

theorem modemInfo_effects (dev : Modem) (n : BitVec 32) : Effects dev (modemInfo dev n) := by
  unfold modemInfo
  by_cases hrange : n.toInt < 0 ∨ 9 < n.toInt
  · rw [if_pos hrange]
  rw [if_neg hrange]
  by_cases hident : n.toNat = dev.model.identAt
  · rw [if_pos hident]
    exact Effects.info .ident
  rw [if_neg hident]
  by_cases hfmw : n.toNat = dev.model.fmwAt
  · rw [if_pos hfmw]
    exact Effects.info .firmware
  rw [if_neg hfmw]
  by_cases hcountry : n.toNat = dev.model.countryAt
  · rw [if_pos hcountry]
    exact Effects.info (.country dev.country)
  rw [if_neg hcountry]
  cases htext : dev.model.info n.toNat with
  | none => exact .refl
  | some text => exact Effects.info (.table n.toNat text htext)

theorem of_ite_some {α : Type} {P : α → Prop} {q : Prop} [Decidable q] {a b : α} {o : Option α}
    (ha : P a) (ho : o = some b → P b) : (if q then some a else o) = some b → P b := by
  split_ifs
  · intro h
    obtain rfl := Option.some.inj h
    exact ha
  · exact ho

theorem argLetter_effects (c : Byte) (act : Modem → BitVec 32 → Modem) :
    argLetter c = some act → ∀ dev n, Effects dev (act dev n) := by
  have entry := @of_ite_some _ fun act : Modem → BitVec 32 → Modem =>
    ∀ dev n, Effects dev (act dev n)
  have hangup : ∀ dev, Effects dev (modemHangup dev) := fun dev => .single (.hangup dev)
  unfold argLetter
  refine entry (fun _ _ => Effects.settle ⟨rfl, rfl, rfl, rfl, rfl, rfl, rfl, rfl⟩) ?_
  refine entry (fun dev n => ?_) ?_
  · split
    · exact hangup dev
    · exact .refl
  refine entry modemInfo_effects ?_
  refine entry (fun _ _ => Effects.settle ⟨rfl, rfl, rfl, rfl, rfl, rfl, rfl, rfl⟩) ?_
  refine entry (fun _ _ => Effects.settle ⟨rfl, rfl, rfl, rfl, rfl, rfl, rfl, rfl⟩) ?_
  refine entry (fun _ _ => Effects.settle ⟨rfl, rfl, rfl, rfl, rfl, rfl, rfl, rfl⟩) ?_
  refine entry (fun _ _ => Effects.settle ⟨rfl, rfl, rfl, rfl, rfl, rfl, rfl, rfl⟩) ?_
  refine entry (fun dev _ =>
    (hangup dev).tail (.settle _ _ ⟨rfl, rfl, rfl, rfl, rfl, rfl, rfl, rfl⟩)) ?_
  refine entry (fun _ _ => Effects.settle ⟨rfl, rfl, rfl, rfl, rfl, rfl, rfl, rfl⟩) ?_
  refine entry (fun _ _ => Effects.settle ⟨rfl, rfl, rfl, rfl, rfl, rfl, rfl, rfl⟩) ?_
  refine entry (fun _ _ => .refl) ?_
  intro h
  cases h

theorem plainLetter_settled (c : Byte) (act : Modem → Modem) :
    plainLetter c = some act → ∀ dev, Settled dev (act dev) := by
  have entry := @of_ite_some _ fun act : Modem → Modem => ∀ dev, Settled dev (act dev)
  unfold plainLetter
  refine entry (fun _ => ⟨rfl, rfl, rfl, rfl, rfl, rfl, rfl, rfl⟩) ?_
  refine entry (fun _ => ⟨rfl, rfl, rfl, rfl, rfl, rfl, rfl, rfl⟩) ?_
  refine entry (fun _ => ⟨rfl, rfl, rfl, rfl, rfl, rfl, rfl, rfl⟩) ?_
  intro h
  cases h

theorem ampLetter_settled (a : Byte) (dev : Modem) (n : BitVec 32) :
    Settled dev (ampLetter a dev n) := by
  unfold ampLetter
  split_ifs <;> exact ⟨rfl, rfl, rfl, rfl, rfl, rfl, rfl, rfl⟩

def argValue (rest : List Byte) : ℕ :=
  ((rest.dropWhile fun c => decide (c = ch ' ')).takeWhile isdigit).foldl
    (fun n c => 10 * n + (c.toNat - 0x30)) 0

def registerNumbers : List Byte → List ℕ
  | [] => []
  | c :: rest =>
    if toupper c = ch 'S' then argValue rest :: registerNumbers rest else registerNumbers rest

theorem registerNumbers_suffix {tail rest : List Byte} (h : tail <:+ rest) {n : ℕ}
    (hn : n ∈ registerNumbers tail) : n ∈ registerNumbers rest := by
  obtain ⟨pre, rfl⟩ := h
  induction pre with
  | nil => exact hn
  | cons c pre ih =>
    rw [List.cons_append]
    unfold registerNumbers
    split_ifs
    · exact List.mem_cons_of_mem _ ih
    · exact ih

theorem digits_wrap (digits : List Byte) (hdigits : ∀ c ∈ digits, isdigit c = true) (v : BitVec 32)
    (n : ℕ) (hv : v = BitVec.ofNat 32 n) :
    digits.foldl (fun val c => val * 10 + (c.setWidth 32 - 0x30)) v =
      BitVec.ofNat 32 (digits.foldl (fun n c => 10 * n + (c.toNat - 0x30)) n) := by
  induction digits generalizing v n with
  | nil => exact hv
  | cons c digits ih =>
    refine ih (fun d hd => hdigits d (List.mem_cons_of_mem c hd)) _ _ ?_
    have hdigit : (c.setWidth 32 - 0x30 : BitVec 32) = BitVec.ofNat 32 (c.toNat - 0x30) := by
      have hrange := of_decide_eq_true (hdigits c List.mem_cons_self)
      have hlow : 0x30 ≤ c.toNat := BitVec.le_def.mp hrange.1
      have hlt := c.isLt
      have hzero : (0x30 : BitVec 32).toNat = 0x30 := rfl
      apply BitVec.eq_of_toNat_eq
      rw [BitVec.toNat_sub, BitVec.toNat_setWidth, BitVec.toNat_ofNat, hzero]
      omega
    dsimp only
    rw [hv, hdigit, Nat.mul_comm 10 n, BitVec.ofNat_add, BitVec.ofNat_mul]
    rfl

theorem modemArg_inside (rest : List Byte) :
    ∃ tail, modemArg (.inside rest) = .ok (BitVec.ofNat 32 (argValue rest), .inside tail) ∧
      tail <:+ rest := by
  have hskip := skip_all (fun c => decide (c = ch ' ')) rfl rest
  have hcollect := collect_all isdigit rfl (rest.dropWhile fun c => decide (c = ch ' '))
  refine ⟨_, ?_, (List.dropWhile_suffix isdigit).trans
    (List.dropWhile_suffix fun c => decide (c = ch ' '))⟩
  unfold modemArg
  rw [hskip, ok_bind]
  change (Cursor.collect isdigit (fun _ => true) (List.length _) _ >>= _) = _
  rw [hcollect, ok_bind]
  have hdigits : ∀ c ∈ (rest.dropWhile fun c => decide (c = ch ' ')).takeWhile isdigit,
      isdigit c = true := fun c hc => List.mem_takeWhile_imp hc
  exact congrArg (fun v => Except.ok (v, _)) (digits_wrap _ hdigits 0 0 rfl)

/-- What one turn of the parser does: settings and information lines with the cursor still in
    the string, or the end of the line. -/
inductive Turned (host : Host) (dev : Modem) (rest : List Byte) : Except Fault Turn → Prop
  | more (dev' : Modem) (tail : List Byte) (done : Effects dev dev') (kept : tail <:+ rest) :
    Turned host dev rest (.ok (.more dev' (.inside tail)))
  | finish (dev' : Modem) (res : Option Res) (ended : Ends host dev dev' res) :
    Turned host dev rest (.ok (.finish dev' res))

variable {host : Host}

theorem Turned.error (dev : Modem) (rest : List Byte) :
    Turned host dev rest (.ok (.finish dev (some .error))) :=
  .finish dev _ (.report dev .error (Or.inr (Or.inl rfl)))

theorem sRegister_negative (n : ℕ) (hlow : (BitVec.ofNat 32 n).toInt < 100)
    (hout : ¬ (0 ≤ (BitVec.ofNat 32 n).toInt ∧ (BitVec.ofNat 32 n).toInt < 100)) :
    (BitVec.ofNat 32 n).toInt < 0 ∧ 2 ^ 31 ≤ n := by
  have hneg : (BitVec.ofNat 32 n).toInt < 0 := by omega
  refine ⟨hneg, ?_⟩
  by_contra hsmall
  have hnat : (BitVec.ofNat 32 n).toNat = n := by
    rw [BitVec.toNat_ofNat]
    omega
  have hfit := BitVec.toInt_eq_toNat_of_lt (x := BitVec.ofNat 32 n) (by omega)
  omega

theorem modemRegister_turned (dev : Modem) (rest : List Byte) :
    Turned host dev rest (modemRegister dev (.inside rest)) ∨
      ∃ i < 0, modemRegister dev (.inside rest) = .error (.index i) ∧ 2 ^ 31 ≤ argValue rest := by
  obtain ⟨tail, harg, htail⟩ := modemArg_inside rest
  have hskip := skip_all (fun c => decide (c = ch ' ')) rfl tail
  have hkept : (tail.dropWhile fun c => decide (c = ch ' ')) <:+ rest :=
    (List.dropWhile_suffix _).trans htail
  unfold modemRegister
  rw [harg, ok_bind]
  dsimp only
  by_cases hbig : 100 ≤ (BitVec.ofNat 32 (argValue rest)).toInt
  · rw [if_pos hbig]
    exact Or.inl (.error dev rest)
  rw [if_neg hbig, hskip, ok_bind]
  cases hrest : tail.dropWhile fun c => decide (c = ch ' ') with
  | nil => exact Or.inl (.error dev rest)
  | cons c after =>
    rw [hrest] at hkept
    have hafter : after <:+ rest := (List.suffix_cons c after).trans hkept
    change Turned host dev rest (if c = ch '=' then _ else _) ∨
      ∃ i < 0, (if c = ch '=' then _ else _) = _ ∧ _
    by_cases hvalid : 0 ≤ (BitVec.ofNat 32 (argValue rest)).toInt ∧
        (BitVec.ofNat 32 (argValue rest)).toInt < 100
    · left
      have hreg : sRegister (BitVec.ofNat 32 (argValue rest)) =
          .ok ⟨(BitVec.ofNat 32 (argValue rest)).toInt.toNat, by omega⟩ := dif_pos hvalid
      by_cases hset : c = ch '='
      · obtain ⟨tail', harg', htail'⟩ := modemArg_inside after
        rw [if_pos hset]
        change Turned host dev rest (modemArg (.inside after) >>= _)
        rw [harg', ok_bind, hreg]
        exact .more _ tail' (Effects.settle ⟨rfl, rfl, rfl, rfl, rfl, rfl, rfl, rfl⟩)
          (htail'.trans hafter)
      rw [if_neg hset]
      by_cases hget : c = ch '?'
      · rw [if_pos hget, hreg]
        exact .more _ after (Effects.info (.register _)) hafter
      · rw [if_neg hget]
        exact .error dev rest
    · have hreg : sRegister (BitVec.ofNat 32 (argValue rest)) =
          .error (.index (BitVec.ofNat 32 (argValue rest)).toInt) := dif_neg hvalid
      obtain ⟨hneg, hlarge⟩ := sRegister_negative _ (Int.not_le.mp hbig) hvalid
      by_cases hset : c = ch '='
      · obtain ⟨tail', harg', -⟩ := modemArg_inside after
        right
        refine ⟨_, hneg, ?_, hlarge⟩
        rw [if_pos hset]
        change (modemArg (.inside after) >>= _) = _
        rw [harg', ok_bind, hreg]
        rfl
      rw [if_neg hset]
      by_cases hget : c = ch '?'
      · right
        refine ⟨_, hneg, ?_, hlarge⟩
        rw [if_pos hget, hreg]
        rfl
      · rw [if_neg hget]
        exact Or.inl (.error dev rest)

theorem modemAmpersand_turned (dev : Modem) (rest : List Byte) :
    Turned host dev rest (modemAmpersand dev (.inside rest)) := by
  unfold modemAmpersand
  cases rest with
  | nil => exact .error dev []
  | cons b after =>
    have hafter : after <:+ b :: after := List.suffix_cons b after
    change Turned host dev (b :: after) (if toupper b = ch 'V' then _ else _)
    by_cases hview : toupper b = ch 'V'
    · rw [if_pos hview]
      exact .more _ after (Effects.info .ident) hafter
    rw [if_neg hview]
    by_cases hend : toupper b = 0
    · rw [if_pos hend]
      exact .error dev _
    rw [if_neg hend]
    obtain ⟨tail, harg, htail⟩ := modemArg_inside after
    change Turned host dev (b :: after) (modemArg (.inside after) >>= _)
    rw [harg, ok_bind]
    dsimp only
    by_cases hstore : toupper b = ch 'W' ∨ toupper b = ch 'Y' ∨ toupper b = ch 'Z'
    · rw [if_pos hstore]
      have hskip := skip_all (fun c => decide (c ≠ 0 ∧ c ≠ ch ';')) rfl tail
      have hdrop : (tail.dropWhile fun c => decide (c ≠ 0 ∧ c ≠ ch ';')) <:+ b :: after :=
        (List.dropWhile_suffix _).trans (htail.trans hafter)
      rw [hskip]
      cases tail with
      | nil => exact .more dev [] .refl List.nil_suffix
      | cons c tail =>
        change Turned host dev (b :: after) (if c = ch '=' then _ else _)
        by_cases heq : c = ch '='
        · rw [if_pos heq]
          exact .more dev _ .refl hdrop
        · rw [if_neg heq]
          exact .more dev _ .refl (htail.trans hafter)
    · rw [if_neg hstore]
      exact .more _ tail (Effects.settle (ampLetter_settled _ dev _)) (htail.trans hafter)

theorem modemExtended_turned (dev : Modem) (rest : List Byte) :
    Turned host dev rest (modemExtended dev (.inside rest)) := by
  unfold modemExtended
  cases rest with
  | nil => exact .error dev []
  | cons b after =>
    change Turned host dev (b :: after) (if b = 0 then _ else _)
    by_cases hend : b = 0
    · rw [if_pos hend]
      exact .error dev _
    rw [if_neg hend]
    obtain ⟨tail, harg, htail⟩ := modemArg_inside after
    change Turned host dev (b :: after) (modemArg (.inside after) >>= _)
    rw [harg, ok_bind]
    exact .more dev tail .refl (htail.trans (List.suffix_cons b after))

theorem modemStar_turned (dev : Modem) (rest : List Byte) :
    Turned host dev rest (modemStar dev (.inside rest)) := by
  unfold modemStar
  cases rest with
  | nil => exact .error dev []
  | cons b after =>
    change Turned host dev (b :: after) (if toupper b = 0 then _ else _)
    by_cases hend : toupper b = 0
    · rw [if_pos hend]
      exact .error dev _
    rw [if_neg hend]
    have hafter : after <:+ b :: after := List.suffix_cons b after
    have settled : ∀ n : BitVec 32,
        Settled dev (if toupper b = ch 'N' then { dev with country := n } else dev) := by
      intro n
      split_ifs <;> exact ⟨rfl, rfl, rfl, rfl, rfl, rfl, rfl, rfl⟩
    obtain ⟨c, kept, hread, hstep, hkept⟩ :=
      step_inside (fun c => toupper c = ch 'C') (by decide) after
    obtain ⟨tail, harg, htail⟩ := modemArg_inside kept
    change Turned host dev (b :: after) (Cursor.read (.inside after) >>= _)
    rw [hread, ok_bind]
    change Turned host dev (b :: after)
      (modemArg (if toupper c = ch 'C' then (Cursor.inside after).next else .inside after) >>= _)
    rw [hstep, harg, ok_bind]
    exact .more _ tail (Effects.settle (settled _)) (htail.trans (hkept.trans hafter))

theorem hexPrefix_inside (rest : List Byte) :
    ∃ tail, hexPrefix (.inside rest) = .inside tail ∧ tail <:+ rest := by
  unfold hexPrefix
  split
  · rename_i z x d after heq
    obtain rfl := Cursor.inside.inj heq
    split_ifs
    · exact ⟨d :: after, rfl, (List.suffix_cons x _).trans (List.suffix_cons z _)⟩
    · exact ⟨_, rfl, List.suffix_refl _⟩
  · exact ⟨rest, rfl, List.suffix_refl _⟩

theorem strtol16_inside (rest : List Byte) :
    ∃ v tail, strtol16 (.inside rest) = .ok (v, .inside tail) ∧ tail <:+ rest := by
  have hspace : (rest.dropWhile isspace) <:+ rest := List.dropWhile_suffix _
  unfold strtol16
  rw [skip_all _ rfl, ok_bind]
  generalize rest.dropWhile isspace = body at hspace
  obtain ⟨sign, after, hsign, hstep, hbody⟩ :=
    step_inside (fun c => c = ch '-' ∨ c = ch '+') (by decide) body
  obtain ⟨start, hstart, hbegins⟩ := hexPrefix_inside after
  rw [hsign, ok_bind, hstep]
  dsimp only
  rw [hstart]
  have hcollect := collect_all isxdigit rfl start
  change ∃ v tail, (Cursor.collect isxdigit (fun _ => true) start.length _ >>= _) = _ ∧ _
  rw [hcollect, ok_bind]
  dsimp only
  by_cases hdigits : start.takeWhile isxdigit = []
  · rw [if_pos hdigits]
    exact ⟨0, rest, rfl, List.suffix_refl _⟩
  · rw [if_neg hdigits]
    exact ⟨_, _, rfl, (List.dropWhile_suffix _).trans (hbegins.trans (hbody.trans hspace))⟩

theorem modemPlus_turned (dev : Modem) (rest : List Byte) :
    Turned host dev rest (modemPlus dev (.inside rest)) := by
  obtain ⟨letters, tail, hcollect, htail⟩ := collect_inside
    (fun c => decide (c ≠ 0 ∧ c ≠ ch '=' ∧ c ≠ ch '?')) (fun _ => true) rfl rest 15
  unfold modemPlus
  rw [hcollect, ok_bind]
  dsimp only
  by_cases hgci : letters.map toupper = ascii "GCI"
  · rw [if_pos hgci]
    cases tail with
    | nil => exact .error dev rest
    | cons c after =>
      have hafter : after <:+ rest := (List.suffix_cons c after).trans htail
      change Turned host dev rest (if c = ch '?' then _ else _)
      by_cases hget : c = ch '?'
      · rw [if_pos hget]
        exact .more _ after (Effects.info (.gci _)) hafter
      rw [if_neg hget]
      by_cases hset : c = ch '='
      · obtain ⟨v, tail', hnumber, htail'⟩ := strtol16_inside after
        rw [if_pos hset]
        change Turned host dev rest (strtol16 (.inside after) >>= _)
        rw [hnumber, ok_bind]
        exact .more _ tail' (Effects.settle ⟨rfl, rfl, rfl, rfl, rfl, rfl, rfl, rfl⟩)
          (htail'.trans hafter)
      · rw [if_neg hset]
        exact .error dev rest
  rw [if_neg hgci]
  split_ifs
  · rw [skip_all _ rfl, ok_bind]
    exact .more dev _ .refl ((List.dropWhile_suffix _).trans htail)
  · exact .error dev rest

theorem modemLast_turned (dev : Modem) (c : Byte) (rest : List Byte) :
    Turned host dev rest (modemLast host dev c (.inside rest)) := by
  unfold modemLast
  by_cases hanswer : c = ch 'A'
  · rw [if_pos hanswer]
    exact .finish dev _ (.report dev .noCarrier (Or.inr (Or.inr rfl)))
  rw [if_neg hanswer]
  by_cases hdial : c = ch 'D'
  · rw [if_pos hdial]
    by_cases hidle : dev.state = .idle
    · obtain ⟨number, tail, hcollect, -⟩ := collect_inside
        (fun d => decide (d ≠ 0)) dialled rfl rest 63
      rw [if_neg (not_not.mpr hidle), hcollect]
      exact .finish _ none (.dial dev number hidle)
    · rw [if_pos hidle]
      exact .error dev rest
  rw [if_neg hdial]
  by_cases hdata : c = ch 'O'
  · rw [if_pos hdata]
    by_cases honline : dev.state = .online
    · obtain ⟨tail, harg, -⟩ := modemArg_inside rest
      rw [if_neg (not_not.mpr honline), harg]
      exact .finish _ none (.data dev honline)
    · rw [if_pos honline]
      exact .error dev rest
  · rw [if_neg hdata]
    exact .error dev rest

variable (host) in
theorem modemLetter_turned (dev : Modem) (c : Byte) (rest : List Byte) :
    Turned host dev rest (modemLetter host dev c (.inside rest)) ∨
      c = ch 'S' ∧ ∃ i < 0, modemLetter host dev c (.inside rest) = .error (.index i) ∧
        2 ^ 31 ≤ argValue rest := by
  unfold modemLetter
  cases harg : argLetter c with
  | some act =>
    obtain ⟨tail, hrun, htail⟩ := modemArg_inside rest
    left
    change Turned host dev rest (modemArg (.inside rest) >>= _)
    rw [hrun, ok_bind]
    exact .more _ tail (argLetter_effects c act harg dev _) htail
  | none =>
    cases hplain : plainLetter c with
    | some act =>
      left
      exact .more _ rest (Effects.settle (plainLetter_settled c act hplain dev))
        (List.suffix_refl _)
    | none =>
      dsimp only
      by_cases hs : c = ch 'S'
      · rw [if_pos hs]
        rcases modemRegister_turned dev rest with hturn | hfault
        · exact Or.inl hturn
        · exact Or.inr ⟨hs, hfault⟩
      rw [if_neg hs]
      left
      split_ifs
      · exact modemAmpersand_turned dev rest
      · exact modemExtended_turned dev rest
      · exact modemStar_turned dev rest
      · exact modemPlus_turned dev rest
      · exact modemLast_turned dev c rest

variable (host) in
theorem modemExecute_ends (fuel : ℕ) (dev : Modem) (rest : List Byte)
    (hfuel : rest.length < fuel) :
    (∃ dev₁ dev₂ res, modemExecute host fuel dev (.inside rest) = .ok (dev₂, res) ∧
      Effects dev dev₁ ∧ Ends host dev₁ dev₂ res) ∨
    ∃ i < 0, modemExecute host fuel dev (.inside rest) = .error (.index i) ∧
      ∃ n ∈ registerNumbers rest, 2 ^ 31 ≤ n := by
  induction fuel generalizing dev rest with
  | zero => omega
  | succ fuel ih =>
    cases rest with
    | nil =>
      left
      exact ⟨dev, dev, some .ok, rfl, .refl, .report dev .ok (Or.inl rfl)⟩
    | cons c rest =>
      change (∃ dev₁ dev₂ res, (if c = 0 then _ else _) = _ ∧ _) ∨
        ∃ i < 0, (if c = 0 then _ else _) = _ ∧ _
      by_cases hend : c = 0
      · left
        refine ⟨dev, dev, some .ok, if_pos hend, .refl, .report dev .ok (Or.inl rfl)⟩
      rw [if_neg hend]
      change (∃ dev₁ dev₂ res,
          (modemLetter host dev (toupper c) (.inside rest) >>= _) = _ ∧ _) ∨
        ∃ i < 0, (modemLetter host dev (toupper c) (.inside rest) >>= _) = _ ∧ _
      have hletter := modemLetter_turned host dev (toupper c) rest
      generalize hturn : modemLetter host dev (toupper c) (.inside rest) = turn at hletter
      rcases hletter with hturned | ⟨hs, i, hneg, hfault, hlarge⟩
      · cases hturned with
        | finish dev' res ended => exact Or.inl ⟨dev, dev', res, rfl, .refl, ended⟩
        | more dev' tail done kept =>
          have hshort : tail.length < fuel := by
            have := kept.length_le
            rw [List.length_cons] at hfuel
            omega
          rcases ih dev' tail hshort with ⟨dev₁, dev₂, res, hrun, heffects, hends⟩ | hbad
          · exact Or.inl ⟨dev₁, dev₂, res, hrun, done.trans heffects, hends⟩
          · obtain ⟨i, hneg, hrun, n, hn, hlarge⟩ := hbad
            refine Or.inr ⟨i, hneg, hrun, n, ?_, hlarge⟩
            exact registerNumbers_suffix (kept.trans (List.suffix_cons c rest)) hn
      · subst hfault
        refine Or.inr ⟨i, hneg, rfl, argValue rest, ?_, hlarge⟩
        unfold registerNumbers
        rw [if_pos hs]
        exact List.mem_cons_self

def InfoLine (dev : Modem) (l : List Byte) : Prop :=
  ∃ text cr lf, Info dev text ∧ l = [cr, lf] ++ text ++ [cr, lf]

/-- The commands of a line queue information lines and nothing else. -/
structure Told (dev dev' : Modem) : Prop where
  model : dev'.model = dev.model
  ident : dev'.ident = dev.ident
  firmware : dev'.firmware = dev.firmware
  out : ∃ infos : List (List Byte), (∀ l ∈ infos, InfoLine dev l) ∧
    dev'.out = ring dev.out infos.flatten

theorem Info.carry {dev dev' : Modem} (hmodel : dev'.model = dev.model)
    (hident : dev'.ident = dev.ident) (hfirmware : dev'.firmware = dev.firmware)
    {text : List Byte} (hinfo : Info dev' text) : Info dev text := by
  cases hinfo with
  | ident => exact hident ▸ .ident
  | firmware => exact hfirmware ▸ .firmware
  | country n => exact .country n
  | table n text htext => exact .table n text (hmodel ▸ htext)
  | register v => exact .register v
  | gci n => exact .gci n

theorem Effects.told {dev dev' : Modem} (h : Effects dev dev') : Told dev dev' := by
  induction h with
  | refl => exact ⟨rfl, rfl, rfl, [], fun _ hl => absurd hl List.not_mem_nil, rfl⟩
  | @tail dev₁ dev₂ _ heffect ih =>
    obtain ⟨infos, hinfos, hout⟩ := ih.out
    cases heffect with
    | settle _ hs =>
      exact ⟨hs.model.trans ih.model, hs.ident.trans ih.ident, hs.firmware.trans ih.firmware,
        infos, hinfos, hs.out.trans hout⟩
    | hangup => exact ⟨ih.model, ih.ident, ih.firmware, infos, hinfos, hout⟩
    | info text htext =>
      refine ⟨?_, ?_, ?_, infos ++ [framed dev₁ text], ?_, ?_⟩
      · rw [modemOutLine_eq]
        exact ih.model
      · rw [modemOutLine_eq]
        exact ih.ident
      · rw [modemOutLine_eq]
        exact ih.firmware
      · intro l hl
        rcases List.mem_append.mp hl with hold | hnew
        · exact hinfos l hold
        · rw [List.mem_singleton.mp hnew]
          exact ⟨text, dev₁.s 3, dev₁.s 4, htext.carry ih.model ih.ident ih.firmware, rfl⟩
      · rw [modemOutLine_eq, List.flatten_append, ring_append, ← hout, List.flatten_singleton]

def Final (ended : Modem) (res : Option Res) : Prop :=
  res = some .ok ∨ res = some .error ∨ res = some .noCarrier ∨
    res = none ∧ (ended.state = .dialing ∨ ended.state = .connecting ∨ ended.online = true)

variable (host) in
theorem modemDial_state (dev : Modem) (number : List Byte) :
    (modemDial host dev number).state = .dialing ∨ (modemDial host dev number).state = .connecting := by
  unfold modemDial
  dsimp only
  split
  · split
    · exact Or.inr rfl
    · exact Or.inl rfl
  · exact Or.inl rfl

theorem modemDial_out (dev : Modem) (number : List Byte) :
    (modemDial host dev number).out = dev.out := by
  unfold modemDial
  dsimp only
  split_ifs <;> rfl

theorem Ends.final {dev dev' : Modem} {res : Option Res} (h : Ends host dev dev' res) :
    Final dev' res ∧ dev'.out = dev.out := by
  cases h with
  | report res hres =>
    refine ⟨?_, rfl⟩
    rcases hres with rfl | rfl | rfl
    · exact Or.inl rfl
    · exact Or.inr (Or.inl rfl)
    · exact Or.inr (Or.inr (Or.inl rfl))
  | dial number hidle =>
    refine ⟨Or.inr (Or.inr (Or.inr ⟨rfl, ?_⟩)), modemDial_out dev number⟩
    rcases modemDial_state host dev number with hstate | hstate
    · exact Or.inl hstate
    · exact Or.inr (Or.inl hstate)
  | data honline => exact ⟨Or.inr (Or.inr (Or.inr ⟨rfl, Or.inr (Or.inr rfl)⟩)), rfl⟩

/-- What becomes of a completed line: after the echo, information lines and the report of one
    final result; or a register number too large for an int. -/
inductive Outcome (dev : Modem) (echo line : List Byte) : Except Fault Modem → Prop
  | answered (dev' ended : Modem) (res : Option Res) (infos : List (List Byte))
      (informed : ∀ l ∈ infos, InfoLine dev l) (final : Final ended res)
      (queued : dev'.out = ring dev.out (echo ++ infos.flatten ++ resultLine ended res)) :
    Outcome dev echo line (.ok dev')
  | fault (i : ℤ) (n : ℕ) (negative : i < 0) (typed : n ∈ registerNumbers (cstr line))
      (large : 2 ^ 31 ≤ n) : Outcome dev echo line (.error (.index i))

variable (host) in
theorem modemCommand_outcome (dev : Modem) (line : List Byte) :
    Outcome dev [] line (modemCommand host dev line) := by
  have hrun := modemExecute_ends host ((cstr line).length + 1)
    { dev with lastcmd := (cstr line).take (modemCmdSize - 1) } (cstr line) (Nat.lt_succ_self _)
  unfold modemCommand
  dsimp only
  rcases hrun with ⟨dev₁, dev₂, res, hrun, heffects, hends⟩ | ⟨i, hneg, hrun, n, hn, hlarge⟩
  · obtain ⟨infos, hinfos, hout⟩ := heffects.told.out
    obtain ⟨hfinal, hkept⟩ := hends.final
    rw [hrun, ok_bind]
    refine .answered _ dev₂ res infos ?_ hfinal ?_
    · intro l hl
      obtain ⟨text, cr, lf, hinfo, hframe⟩ := hinfos l hl
      refine ⟨text, cr, lf, ?_, hframe⟩
      apply Info.carry _ _ _ hinfo <;> rfl
    · rw [modemResult_eq, List.nil_append, ring_append]
      change ring dev₂.out _ = _
      rw [hkept, hout]
  · rw [hrun]
    exact .fault i n hneg hn hlarge

/-- The byte ends a line, or is the slash of A/. -/
def completes (dev : Modem) (val : Byte) : Bool :=
  decide (val ≠ dev.s 5 ∧ ((val = dev.s 3 ∧ dev.cmd ≠ []) ∨
    (val ≠ dev.s 3 ∧ val ≠ dev.s 4 ∧ dev.cmd.length = 1 ∧ val = ch '/' ∧
      toupper (dev.cmd.getD 0 0) = ch 'A')))

def echoed (dev : Modem) (val : Byte) : List Byte :=
  if dev.echo ∧ val ≠ dev.s 4 then [val] else []

theorem echoed_eq (dev : Modem) (val : Byte) :
    (if dev.echo ∧ val ≠ dev.s 4 then modemOutByte dev val else dev) =
      { dev with out := ring dev.out (echoed dev val) } := by
  unfold echoed
  by_cases hecho : dev.echo ∧ val ≠ dev.s 4
  · rw [if_pos hecho, if_pos hecho, modemOutByte_eq]
  · rw [if_neg hecho, if_neg hecho]
    rfl

theorem Outcome.after {dev dev₁ : Modem} {echo line : List Byte} {run : Except Fault Modem}
    (h : Outcome dev₁ [] line run) (hout : dev₁.out = ring dev.out echo)
    (hmodel : dev₁.model = dev.model) (hident : dev₁.ident = dev.ident)
    (hfirmware : dev₁.firmware = dev.firmware) : Outcome dev echo line run := by
  cases h with
  | answered dev' ended res infos informed final queued =>
    refine .answered dev' ended res infos ?_ final ?_
    · intro l hl
      obtain ⟨text, cr, lf, hinfo, hframe⟩ := informed l hl
      exact ⟨text, cr, lf, hinfo.carry hmodel hident hfirmware, hframe⟩
    · rw [queued, hout, List.nil_append, ← ring_append, ← List.append_assoc]
  | fault i n negative typed large => exact .fault i n negative typed large

theorem Outcome.map {dev : Modem} {echo line : List Byte} {run : Except Fault Modem}
    (h : Outcome dev echo line run) (f : Modem → Modem) (hf : ∀ dev, (f dev).out = dev.out) :
    Outcome dev echo line (run.map f) := by
  cases h with
  | answered dev' ended res infos informed final queued =>
    exact .answered _ ended res infos informed final ((hf dev').trans queued)
  | fault i n negative typed large => exact .fault i n negative typed large

theorem Outcome.error (dev : Modem) (line : List Byte) :
    Outcome dev [] line (.ok (modemResult dev (some .error))) := by
  refine .answered _ dev (some .error) [] (fun _ hl => absurd hl List.not_mem_nil)
    (Or.inr (Or.inl rfl)) ?_
  rw [modemResult_eq]
  rfl

variable (host) in
theorem modemReturn_outcome (dev : Modem) (hcmd : dev.cmd ≠ []) :
    Outcome dev [] (dev.cmd.drop 2) (modemReturn host dev) := by
  have hpos : 0 < dev.cmd.length := List.length_pos_iff.mpr hcmd
  unfold modemReturn
  refine Outcome.map ?_ (fun dev => { dev with cmd := [] }) fun _ => rfl
  by_cases hlong : 2 ≤ dev.cmd.length
  · rw [if_pos hlong]
    split
    · exact modemCommand_outcome host dev _
    · exact .error dev _
  · rw [if_neg hlong, if_pos hpos]
    exact .error dev _

/-- Bytes typed one after another in command mode. -/
def typed (host : Host) (dev : Modem) (bytes : List Byte) : Except Fault Modem :=
  bytes.foldlM (modemCommandByte host) dev

/-- ATQ1 is answered with nothing, although the modem is not dialling. -/
theorem quiet_line :
    (typed ⟨0, false, 0⟩ (modemInit modemModelSupra .dead 57600 [] [] []) (ascii "ATQ1\r")).map
      (fun dev => (dev.out, dev.state, dev.online)) = .ok (ascii "ATQ1\r", .idle, false) := by
  rfl

/-- Every byte typed in command mode: the byte that completes a line has it answered with one
    final result, every other byte is at most echoed. -/
theorem typed_byte (host : Host) (dev : Modem) (val : Byte) :
    if completes dev val then
      ∃ line, (line = dev.cmd.drop 2 ∨ line = dev.lastcmd) ∧
        Outcome dev (echoed dev val) line (modemCommandByte host dev val)
    else
      ∃ dev' echo, modemCommandByte host dev val = .ok dev' ∧ echo.length ≤ 3 ∧
        dev'.out = ring dev.out echo := by
  unfold modemCommandByte
  by_cases hback : val = dev.s 5
  · have hdone : ¬ completes dev val = true := by
      unfold completes
      rw [decide_eq_true_eq]
      exact fun h => h.1 hback
    rw [if_neg hdone, if_pos hback]
    by_cases hempty : dev.cmd = []
    · rw [if_pos hempty]
      exact ⟨dev, [], rfl, Nat.zero_le 3, rfl⟩
    · rw [if_neg hempty]
      refine ⟨_, if dev.echo then [dev.s 5, ch ' ', dev.s 5] else [], rfl, ?_, ?_⟩
      · split
        · exact Nat.le_refl 3
        · exact Nat.zero_le 3
      · dsimp only
        split
        · rw [modemOutStr_eq]
        · rfl
  rw [if_neg hback, echoed_eq]
  dsimp only
  by_cases hreturn : val = dev.s 3
  · by_cases hempty : dev.cmd = []
    · have hdone : ¬ completes dev val = true := by
        unfold completes
        rw [decide_eq_true_eq]
        rintro ⟨-, ⟨-, hcmd⟩ | ⟨hother, -⟩⟩
        · exact hcmd hempty
        · exact hother hreturn
      rw [if_neg hdone, if_pos hreturn]
      refine ⟨{ dev with out := ring dev.out (echoed dev val), cmd := [] }, echoed dev val, ?_,
        ?_, rfl⟩
      · unfold modemReturn
        dsimp only
        rw [hempty]
        rfl
      · unfold echoed
        split
        · exact Nat.le_succ_of_le (Nat.le_succ 1)
        · exact Nat.zero_le 3
    · have hdone : completes dev val = true :=
        decide_eq_true ⟨hback, Or.inl ⟨hreturn, hempty⟩⟩
      rw [if_pos hdone, if_pos hreturn]
      refine ⟨dev.cmd.drop 2, Or.inl rfl, ?_⟩
      exact (modemReturn_outcome host
        { dev with out := ring dev.out (echoed dev val) } hempty).after rfl rfl rfl rfl
  rw [if_neg hreturn]
  by_cases hfeed : val = dev.s 4
  · have hdone : ¬ completes dev val = true := by
      unfold completes
      rw [decide_eq_true_eq]
      rintro ⟨-, ⟨hcr, -⟩ | ⟨-, hother, -⟩⟩
      · exact hreturn hcr
      · exact hother hfeed
    rw [if_neg hdone, if_pos hfeed]
    refine ⟨_, echoed dev val, rfl, ?_, rfl⟩
    unfold echoed
    split
    · exact Nat.le_succ_of_le (Nat.le_succ 1)
    · exact Nat.zero_le 3
  rw [if_neg hfeed]
  by_cases hslash : dev.cmd.length = 1 ∧ val = ch '/' ∧ toupper (dev.cmd.getD 0 0) = ch 'A'
  · have hdone : completes dev val = true :=
      decide_eq_true ⟨hback, Or.inr ⟨hreturn, hfeed, hslash⟩⟩
    rw [if_pos hdone, if_pos hslash]
    refine ⟨dev.lastcmd, Or.inr rfl, ?_⟩
    exact (modemCommand_outcome host
      { dev with out := ring dev.out (echoed dev val), cmd := [] } dev.lastcmd).after
        rfl rfl rfl rfl
  · have hdone : ¬ completes dev val = true := by
      unfold completes
      rw [decide_eq_true_eq]
      rintro ⟨-, ⟨hcr, -⟩ | ⟨-, -, hother⟩⟩
      · exact hreturn hcr
      · exact hslash hother
    rw [if_neg hdone, if_neg hslash]
    have hshort : (echoed dev val).length ≤ 3 := by
      unfold echoed
      split
      · exact Nat.le_succ_of_le (Nat.le_succ 1)
      · exact Nat.zero_le 3
    split
    · exact ⟨_, echoed dev val, rfl, hshort, rfl⟩
    · exact ⟨_, echoed dev val, rfl, hshort, rfl⟩

end PeepeeBox.AtParser
