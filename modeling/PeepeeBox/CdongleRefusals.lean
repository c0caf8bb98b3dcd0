import Mathlib.Data.List.Induction
import PeepeeBox.CdongleFrames
import PeepeeBox.DongleDevice

set_option autoImplicit false

/-!
# A refused query

The part leaves ACK up for a query it refuses, through the claim and the attention handshake.
-/
namespace PeepeeBox.CdongleRefusals
open Cdongle CdongleFrames DongleDevice TraceMachine

/-- ACK after each of the writes. -/
def acks (block : ℕ → Byte) : Cd → List Byte → List Bool
  | _, [] => []
  | cd, v :: vs =>
    let cd := cdWriteData block cd v
    cdAck cd :: acks block cd vs

def Claims (v : Byte) : Prop := v &&& 0xF0 = 0xC0 ∨ v &&& 0xF0 = 0x80

instance (v : Byte) : Decidable (Claims v) := inferInstanceAs (Decidable (_ ∨ _))

/-- What follows the claim, if no `F?` comes before it. -/
def afterClaim : List Byte → Option (List Byte)
  | [] => none
  | v :: vs => if v &&& 0xF0 = 0xF0 then none else if Claims v then some vs else afterClaim vs

def Clocked (ws : List Byte) : Prop :=
  ∃ a b c d, ws = a ++ 0xDF :: (b ++ (c ++ 0xCF :: d)) ∧ 0xDF ∉ b ∧ cdAttention.tail.Sublist b

/-- The host claims the reply and carries the read through to its first bit. -/
def ReadThrough (ws : List Byte) : Prop := ∃ mid, afterClaim ws = some mid ∧ Clocked mid

/-- How far the handshake is: 0 before its DF, 8 when it is whole, 9 once the first bit is clocked. -/
def advance (k : ℕ) (v : Byte) : ℕ :=
  if k = 9 then 9
  else if k = 8 then (if v = 0xCF then 9 else 8)
  else if v = cdAttention.getD k 0 then k + 1
  else if v = 0xDF then 1
  else k

theorem advance_nine (ws : List Byte) : ws.foldl advance 9 = 9 := by
  induction ws with
  | nil => rfl
  | cons v vs ih => exact ih

theorem advance_eight (v : Byte) {k : ℕ} (hk : 8 ≤ k) (hk' : k ≤ 9) : 8 ≤ advance k v ∧ advance k v ≤ 9 := by
  unfold advance
  split_ifs <;> omega

theorem advance_le {v : Byte} {k : ℕ} (hk : k ≤ 9) : advance k v ≤ 9 := by
  unfold advance
  split_ifs <;> omega

theorem advance_first {k : ℕ} (hk : k ≤ 9) : 1 ≤ advance k 0xDF := by
  rcases Nat.lt_or_ge k 8 with hlt | hge
  · unfold advance
    rw [if_neg (by omega), if_neg (by omega)]
    split_ifs with hnext hDF
    · omega
    · omega
    · exact absurd rfl hDF
  · exact Nat.le_trans (by decide) (advance_eight 0xDF hge hk).1

theorem advance_clocked {k : ℕ} (hk : 8 ≤ k) (hk' : k ≤ 9) : advance k 0xCF = 9 := by
  obtain rfl | rfl : k = 8 ∨ k = 9 := by omega
  · rfl
  · rfl

theorem foldl_advance_eight (ws : List Byte) {k : ℕ} (hk : 8 ≤ k) (hk' : k ≤ 9) :
    8 ≤ ws.foldl advance k ∧ ws.foldl advance k ≤ 9 := by
  induction ws generalizing k with
  | nil => exact ⟨hk, hk'⟩
  | cons v vs ih =>
    obtain ⟨hnext, hnext'⟩ := advance_eight v hk hk'
    exact ih hnext hnext'

theorem advance_grows {v : Byte} (hv : v ≠ 0xDF) {k : ℕ} (hk : k ≤ 9) : k ≤ advance k v := by
  unfold advance
  split_ifs <;> omega

theorem foldl_advance_sublist {b : List Byte} (hno : 0xDF ∉ b) {j k : ℕ} (hsub : (cdAttention.drop j).Sublist b)
    (hjk : j ≤ k) (hk : k ≤ 9) : 8 ≤ b.foldl advance k := by
  induction b generalizing j k with
  | nil =>
    have hlen : (cdAttention.drop j).length = 0 := by rw [List.sublist_nil.mp hsub, List.length_nil]
    rw [List.length_drop] at hlen
    change 8 - j = 0 at hlen
    exact (by omega : 8 ≤ k)
  | cons v vs ih =>
    have hv : v ≠ 0xDF := fun h => hno (h ▸ List.mem_cons_self)
    have hrest : 0xDF ∉ vs := fun h => hno (List.mem_cons_of_mem v h)
    have hgrows := advance_grows hv hk
    have hnext : advance k v ≤ 9 := advance_le hk
    rcases Nat.lt_or_ge j 8 with hj | hj
    · have hdrops : ∀ j < 8, cdAttention.drop j = cdAttention.getD j 0 :: cdAttention.drop (j + 1) := by decide
      have hdrop := hdrops j hj
      rw [hdrop] at hsub
      rcases List.cons_sublist_cons'.mp hsub with hskip | ⟨hhead, htail⟩
      · rw [← hdrop] at hskip
        exact ih hrest hskip (Nat.le_trans hjk hgrows) hnext
      · apply ih hrest htail _ hnext
        rcases Nat.eq_or_lt_of_le hjk with heq | hlt
        · subst heq
          have hstep : advance j v = j + 1 := by
            unfold advance
            rw [if_neg (by omega), if_neg (by omega), if_pos hhead.symm]
          omega
        · omega
    · exact (foldl_advance_eight vs (by omega) hnext).1

structure Stands (ws : List Byte) (k : ℕ) : Prop where
  part : 0 < k → k < 8 → ∃ a b, ws = a ++ 0xDF :: b ∧ 0xDF ∉ b ∧ (cdAttention.tail.take (k - 1)).Sublist b
  whole : k = 8 → ∃ a b c, ws = a ++ 0xDF :: (b ++ c) ∧ 0xDF ∉ b ∧ cdAttention.tail.Sublist b
  clocked : k = 9 → Clocked ws

theorem stands_one (ws : List Byte) : Stands (ws ++ [0xDF]) 1 :=
  ⟨fun _ _ => ⟨ws, [], rfl, List.not_mem_nil, List.Sublist.refl _⟩, (nomatch ·), (nomatch ·)⟩

theorem stands_step {ws : List Byte} {k : ℕ} (hk : k ≤ 9) (h : Stands ws k) (v : Byte) :
    Stands (ws ++ [v]) (advance k v) := by
  have hnotDF {b : List Byte} (hno : 0xDF ∉ b) (hv : v ≠ 0xDF) : 0xDF ∉ b ++ [v] := by
    intro hmem
    rcases List.mem_append.mp hmem with hold | hnew
    · exact hno hold
    · exact hv (List.mem_singleton.mp hnew).symm
  unfold advance
  split_ifs with h9 h8 hCF hnext hDF
  · refine ⟨fun _ hlt => by omega, (nomatch ·), fun _ => ?_⟩
    obtain ⟨a, b, c, d, rfl, hno, hsub⟩ := h.clocked h9
    exact ⟨a, b, c, d ++ [v], by simp, hno, hsub⟩
  · refine ⟨fun _ hlt => by omega, (nomatch ·), fun _ => ?_⟩
    obtain ⟨a, b, c, rfl, hno, hsub⟩ := h.whole h8
    exact ⟨a, b, c, [], by simp [hCF], hno, hsub⟩
  · refine ⟨fun _ hlt => by omega, fun _ => ?_, (nomatch ·)⟩
    obtain ⟨a, b, c, rfl, hno, hsub⟩ := h.whole h8
    exact ⟨a, b, c ++ [v], by simp, hno, hsub⟩
  · rcases Nat.eq_zero_or_pos k with hzero | hpos
    · subst hzero
      rw [hnext]
      exact stands_one ws
    · obtain ⟨a, b, rfl, hno, hsub⟩ := h.part hpos (by omega)
      have hentries : ∀ k < 8, 0 < k → cdAttention.getD k 0 ≠ 0xDF ∧
          cdAttention.tail.take k = cdAttention.tail.take (k - 1) ++ [cdAttention.getD k 0] := by decide
      obtain ⟨hv, htake⟩ := hentries k (by omega) hpos
      rw [← hnext] at hv htake
      have hgrown : (cdAttention.tail.take k).Sublist (b ++ [v]) := by
        rw [htake]
        exact hsub.append (List.Sublist.refl _)
      refine ⟨fun _ _ => ⟨a, b ++ [v], by simp, hnotDF hno hv, hgrown⟩, fun hwhole => ?_, fun hnine => by omega⟩
      have hseven : k = 7 := by omega
      subst hseven
      exact ⟨a, b ++ [v], [], by simp, hnotDF hno hv, hgrown⟩
  · rw [hDF]
    exact stands_one ws
  · refine ⟨fun hpos hlt => ?_, fun hwhole => by omega, fun hnine => by omega⟩
    obtain ⟨a, b, rfl, hno, hsub⟩ := h.part hpos hlt
    exact ⟨a, b ++ [v], by simp, hnotDF hno hDF, hsub.trans (List.sublist_append_left b [v])⟩

theorem clocked_iff (ws : List Byte) : ws.foldl advance 0 = 9 ↔ Clocked ws := by
  constructor
  · have hstands : ∀ ws : List Byte, ws.foldl advance 0 ≤ 9 ∧ Stands ws (ws.foldl advance 0) := by
      intro ws
      induction ws using List.reverseRecOn with
      | nil => exact ⟨Nat.zero_le 9, ⟨fun hpos => absurd hpos (Nat.lt_irrefl 0), (nomatch ·), (nomatch ·)⟩⟩
      | append_singleton ws v ih =>
        rw [List.foldl_append]
        exact ⟨advance_le ih.1, stands_step ih.1 ih.2 v⟩
    exact (hstands ws).2.clocked
  · rintro ⟨a, b, c, d, rfl, hno, hsub⟩
    have hle (ws : List Byte) {k : ℕ} (hk : k ≤ 9) : ws.foldl advance k ≤ 9 := by
      induction ws generalizing k with
      | nil => exact hk
      | cons v vs ih => exact ih (advance_le hk)
    rw [List.foldl_append, List.foldl_cons, List.foldl_append, List.foldl_append, List.foldl_cons]
    have ha := hle a (Nat.zero_le 9)
    generalize a.foldl advance 0 = k at ha
    have hwhole := foldl_advance_sublist hno (j := 1) hsub (advance_first ha) (advance_le ha)
    have hb := hle b (advance_le (v := 0xDF) ha)
    generalize b.foldl advance (advance k 0xDF) = m at hwhole hb
    obtain ⟨hmore, hmore'⟩ := foldl_advance_eight c hwhole hb
    rw [advance_clocked hmore hmore']
    exact advance_nine d

section
variable (block : ℕ → Byte)

structure Refused (cd : Cd) : Prop where
  refuse : cd.refuse = true
  empty : cd.txLen = 0

theorem Refused.ack {cd : Cd} (h : Refused cd) : cdAck cd = !decide (cd.state = .stream) := by
  unfold cdAck
  rw [h.refuse, h.empty]
  by_cases hstream : cd.state = .stream
  · simp [hstream]
  · simp [hstream]

/-- The pulse train that opens a transaction. -/
def pulses : List Byte := [0xBF, 0x7F, 0xBF]

/-- No pulse train ends in the writes, the last two before them counted. -/
def Calm (cd : Cd) (ws : List Byte) : Prop := ¬ pulses <:+: cd.prev2 :: cd.prev1 :: ws

theorem Calm.write {cd : Cd} {v : Byte} {vs : List Byte} (h : Calm cd (v :: vs)) :
    cdWriteData block cd v = cdClaim (cdSwitch block (cdNote cd v) v).1 (cdSwitch block (cdNote cd v) v).2 v := by
  unfold cdWriteData
  apply if_neg
  rintro ⟨h2, h1, hv⟩
  apply h
  rw [h2, h1, hv]
  exact (List.prefix_append pulses vs).isInfix

theorem Calm.next {cd cd' : Cd} {v : Byte} {vs : List Byte} (h : Calm cd (v :: vs)) (h2 : cd'.prev2 = cd.prev1)
    (h1 : cd'.prev1 = v) : Calm cd' vs := by
  intro hin
  apply h
  rw [h2, h1] at hin
  exact hin.trans (List.suffix_cons cd.prev2 _).isInfix

/-- Claimed, and `k` far into the handshake. -/
structure Waiting (cd : Cd) (k : ℕ) : Prop extends Refused cd where
  stage : cd.state = .armed ∧ k = 0 ∨ cd.state = .hs ∧ cd.attn = k ∧ 0 < k ∧ k ≤ 8

theorem waiting_write {cd : Cd} {k : ℕ} (h : Waiting cd k) {v : Byte} {vs : List Byte} (hcalm : Calm cd (v :: vs)) :
    let cd' := cdWriteData block cd v
    Refused cd' ∧ Calm cd' vs ∧ (advance k v = 9 → cd'.state = .stream) ∧
      (advance k v ≠ 9 → Waiting cd' (advance k v)) := by
  have hrefused : Refused (cdNote cd v) := ⟨h.refuse, h.empty⟩
  intro cd'
  have hwrite : cd' = cdClaim (cdSwitch block (cdNote cd v) v).1 (cdSwitch block (cdNote cd v) v).2 v :=
    hcalm.write block
  have hkeep {c : Cd} (hc : (cdSwitch block (cdNote cd v) v).1 = c) (hstate : c.state ≠ .ready) : cd' = c := by
    rw [hwrite, hc]
    exact if_neg fun hclaim => hstate hclaim.1
  rcases h.stage with ⟨hstate, rfl⟩ | ⟨hstate, hattn, hpos, hle⟩
  · have hswitch : (cdSwitch block (cdNote cd v) v).1 = cdArmed (cdNote cd v) v := by
      have hnote : (cdNote cd v).state = .armed := hstate
      unfold cdSwitch
      rw [hnote]
    have hadvance : advance 0 v = if v = 0xDF then 1 else 0 := by
      unfold advance
      rw [if_neg (by decide), if_neg (by decide)]
      change (if v = 0xDF then 1 else if v = 0xDF then 1 else 0) = _
      split_ifs <;> rfl
    by_cases hDF : v = 0xDF
    · have harmed : cdArmed (cdNote cd v) v = { cdNote cd v with state := .hs, attn := 1 } := if_pos hDF
      rw [harmed] at hswitch
      rw [hkeep hswitch (nomatch ·), hadvance, if_pos hDF]
      exact ⟨⟨h.refuse, h.empty⟩, hcalm.next rfl rfl, (nomatch ·),
        fun _ => ⟨⟨h.refuse, h.empty⟩, .inr ⟨rfl, rfl, by decide, by decide⟩⟩⟩
    · have harmed : cdArmed (cdNote cd v) v = cdNote cd v := if_neg hDF
      rw [harmed] at hswitch
      have hnote : (cdNote cd v).state = .armed := hstate
      rw [hkeep hswitch (by rw [hnote]; exact (nomatch ·)), hadvance, if_neg hDF]
      exact ⟨hrefused, hcalm.next rfl rfl, (nomatch ·), fun _ => ⟨hrefused, .inl ⟨hstate, rfl⟩⟩⟩
  · have hswitch : (cdSwitch block (cdNote cd v) v).1 = cdHandshake (cdNote cd v) v := by
      have hnote : (cdNote cd v).state = .hs := hstate
      unfold cdSwitch
      rw [hnote]
    have hnoteAttn : (cdNote cd v).attn = k := hattn
    have hlen : cdAttnLen = 8 := rfl
    unfold cdHandshake at hswitch
    rw [hnoteAttn, hlen] at hswitch
    unfold advance
    rw [if_neg (by omega)]
    have hstay {n : ℕ} (hn : 0 < n) (hn8 : n ≤ 8) {c : Cd} (hc : c = { cdNote cd v with attn := n })
        (hsw : (cdSwitch block (cdNote cd v) v).1 = c) :
        Refused cd' ∧ Calm cd' vs ∧ (n = 9 → cd'.state = .stream) ∧ (n ≠ 9 → Waiting cd' n) := by
      have hnote : c.state = .hs := by
        rw [hc]
        exact hstate
      rw [hkeep hsw (by rw [hnote]; exact (nomatch ·)), hc]
      exact ⟨⟨h.refuse, h.empty⟩, hcalm.next rfl rfl, fun h9 => by omega,
        fun _ => ⟨⟨h.refuse, h.empty⟩, .inr ⟨hstate, rfl, hn, hn8⟩⟩⟩
    have hsame : cdNote cd v = { cdNote cd v with attn := k } := by rw [← hnoteAttn]
    by_cases h8 : k = 8
    · rw [if_pos (by omega : 8 ≤ k)] at hswitch
      rw [if_pos h8]
      by_cases hCF : v = 0xCF
      · rw [if_pos hCF] at hswitch ⊢
        rw [hkeep hswitch (nomatch ·)]
        exact ⟨⟨h.refuse, h.empty⟩, hcalm.next rfl rfl, fun _ => rfl, fun hne => absurd rfl hne⟩
      · rw [if_neg hCF] at hswitch ⊢
        rw [h8] at hsame
        exact hstay (by decide) (by decide) hsame hswitch
    · rw [if_neg (by omega : ¬ 8 ≤ k)] at hswitch
      rw [if_neg h8]
      by_cases hnext : v = cdAttention.getD k 0
      · rw [if_pos hnext] at hswitch ⊢
        exact hstay (Nat.succ_pos k) (by omega) rfl hswitch
      · rw [if_neg hnext] at hswitch ⊢
        by_cases hDF : v = 0xDF
        · rw [if_pos hDF] at hswitch ⊢
          exact hstay (by decide) (by decide) rfl hswitch
        · rw [if_neg hDF] at hswitch ⊢
          exact hstay hpos hle hsame hswitch

theorem acks_waiting (ws : List Byte) {cd : Cd} {k : ℕ} (h : Waiting cd k) (hcalm : Calm cd ws) :
    (∀ x ∈ acks block cd ws, x = true) ↔ ws.foldl advance k ≠ 9 := by
  induction ws generalizing cd k with
  | nil =>
    have hk : k ≠ 9 := by
      rcases h.stage with ⟨-, rfl⟩ | ⟨-, -, -, hle⟩
      · decide
      · omega
    exact iff_of_true (fun x hx => by cases hx) hk
  | cons v vs ih =>
    obtain ⟨hrefused, hcalm', hstream, hwaiting⟩ := waiting_write block h hcalm
    unfold acks
    dsimp only
    rw [List.forall_mem_cons, List.foldl_cons, hrefused.ack]
    by_cases hnine : advance k v = 9
    · rw [hstream hnine, hnine, advance_nine]
      exact iff_of_false (fun hall => by simp at hall) (fun hne => hne rfl)
    · have hnext := hwaiting hnine
      have hstate : (cdWriteData block cd v).state ≠ .stream := by
        rcases hnext.stage with ⟨hs, -⟩ | ⟨hs, -⟩
        · rw [hs]
          exact (nomatch ·)
        · rw [hs]
          exact (nomatch ·)
      rw [ih hnext hcalm', decide_eq_false hstate]
      exact and_iff_right rfl

end

def window (cd : Cd) : List Byte := (List.range cd.nhist).map cd.hist

theorem window_shift (cd : Cd) (v : Byte) (h5 : cd.nhist ≤ 5) : window (cdShift cd v) <:+ window cd ++ [v] := by
  unfold cdShift window
  dsimp only
  split_ifs with hfull
  · have hfive : cd.nhist = 5 := by omega
    rw [hfive]
    exact ⟨[cd.hist 0], rfl⟩
  · rw [List.range_succ, List.map_append, List.map_singleton, Function.update_self]
    have hold :
        (List.range cd.nhist).map (Function.update cd.hist cd.nhist v) = (List.range cd.nhist).map cd.hist := by
      apply List.map_congr_left
      intro i hi
      exact Function.update_of_ne (Nat.ne_of_lt (List.mem_range.mp hi)) v cd.hist
    exact hold ▸ List.suffix_rfl

theorem spells_frame {h : ℕ → Byte} {b : Byte} (hb : cdFrame h = some b) : [h 0, h 1, h 2, h 3, h 4] = frame b := by
  unfold cdFrame at hb
  dsimp only at hb
  split_ifs at hb with hc
  obtain ⟨h0, h1, h2, h3, h4, l1, l2, l4⟩ := hc
  obtain rfl := Option.some.inj hb
  have hsplit : ∀ x : Byte, x = x &&& 0xF0 ||| x &&& 0x0F := by decide +kernel
  have hnibble : ∀ x : Byte, x &&& 0x0F = (x.setWidth 4).setWidth 8 := by decide +kernel
  have hmark {i : ℕ} {m lo : Byte} (hm : h i &&& 0xF0 = m) (hl : h i &&& 0x0F = lo) : h i = m ||| lo := by
    rw [← hm, ← hl]
    exact hsplit (h i)
  have hjoin : ∀ hi lo : BitVec 4, (hi.setWidth 8 <<< 4 ||| lo.setWidth 8) &&& 0x0F = lo.setWidth 8 ∧
      (hi.setWidth 8 <<< 4 ||| lo.setWidth 8) >>> 4 = (hi.setWidth 8 : Byte) := by decide +kernel
  obtain ⟨hlo, hhi⟩ := hjoin ((h 3).setWidth 4) ((h 0).setWidth 4)
  rw [← hnibble, ← hnibble] at hlo hhi
  have e0 : h 0 = 0xF0 ||| (h 0 &&& 0x0F) := hmark h0 rfl
  have e1 : h 1 = 0xC0 ||| (h 0 &&& 0x0F) := hmark h1 l1
  have e2 : h 2 = 0xF0 ||| (h 0 &&& 0x0F) := hmark h2 l2
  have e3 : h 3 = 0x90 ||| (h 3 &&& 0x0F) := hmark h3 rfl
  have e4 : h 4 = 0x80 ||| (h 3 &&& 0x0F) := hmark h4 l4
  unfold frame
  rw [hlo, hhi]
  exact congrArg₂ _ e0 (congrArg₂ _ e1 (congrArg₂ _ e2 (congrArg₂ _ e3 (congrArg₂ _ e4 rfl))))

/-- No five writes in a row spell a byte. -/
def Unframed (ws : List Byte) : Prop := ∀ b, ¬ frame b <:+: ws

theorem cdAssemble_unframed (cd : Cd) (v : Byte) (h5 : cd.nhist ≤ 5) (h : Unframed (window cd ++ [v])) :
    cdAssemble cd v = (cdShift cd v, none) := by
  have hlen := cdShift_nhist cd v h5
  unfold cdAssemble
  dsimp only
  split_ifs with hfew
  · rfl
  · have hfive : (cdShift cd v).nhist = 5 := by omega
    cases hframe : cdFrame (cdShift cd v).hist with
    | none => rfl
    | some b =>
      have hwindow : window (cdShift cd v) = frame b := by
        unfold window
        rw [hfive]
        exact spells_frame hframe
      have hsuffix := window_shift cd v h5
      rw [hwindow] at hsuffix
      exact absurd hsuffix.isInfix (h b)

section
variable (block : ℕ → Byte)

structure Offered (cd : Cd) : Prop extends Refused cd where
  state : cd.state = .ready
  listening : cd.awaitTrailer = false
  few : cd.nhist ≤ 5

theorem offered_write {cd : Cd} (h : Offered cd) {v : Byte} {vs : List Byte} (hcalm : Calm cd (v :: vs))
    (hframe : Unframed (window cd ++ v :: vs)) :
    let cd' := cdWriteData block cd v
    Refused cd' ∧ cd'.state ≠ .stream ∧ Calm cd' vs ∧
      if cd.claimable = true ∧ v &&& 0xF0 ≠ 0xF0 ∧ Claims v then Waiting cd' 0
      else Offered cd' ∧ Unframed (window cd' ++ vs) ∧
        (cd'.claimable = true ↔ cd.claimable = true ∧ v &&& 0xF0 ≠ 0xF0) := by
  intro cd'
  have hbefore : window cd ++ [v] <+: window cd ++ v :: vs := ⟨vs, by simp⟩
  have hnone : Unframed (window (cdNote cd v) ++ [v]) := fun b hin => hframe b (hin.trans hbefore.isInfix)
  have hassemble := cdAssemble_unframed (cdNote cd v) v h.few hnone
  have hlisten : cdListen block (cdNote cd v) v = cdShift (cdNote cd v) v := by
    have hawait : (cdNote cd v).awaitTrailer = false := h.listening
    unfold cdListen
    simp only [hawait, hassemble, Bool.false_eq_true, if_false]
  have hswitch : cdSwitch block (cdNote cd v) v = (cdShift (cdNote cd v) v, false) := by
    have hstate : (cdNote cd v).state = .ready := h.state
    unfold cdSwitch
    rw [hstate]
    dsimp only
    rw [hlisten]
  have hwrite : cd' = cdClaim (cdShift (cdNote cd v) v) false v := by
    have hcalmly := hcalm.write block
    rw [hswitch] at hcalmly
    exact hcalmly
  have hcount := cdShift_nhist (cdNote cd v) v h.few
  have hwindow := window_shift (cdNote cd v) v h.few
  obtain ⟨hist, hshift⟩ := cdShift_eq (cdNote cd v) v
  generalize (cdShift (cdNote cd v) v).nhist = n at hshift hcount
  generalize cdShift (cdNote cd v) v = c at hshift hwindow hwrite
  have hrefused : Refused c := by
    rw [hshift]
    exact ⟨h.refuse, h.empty⟩
  have hready : c.state = .ready := by
    rw [hshift]
    exact h.state
  have hclaimable : c.claimable = true ↔ cd.claimable = true ∧ v &&& 0xF0 ≠ 0xF0 := by
    have hnote : c.claimable = if v &&& 0xF0 = 0xF0 then false else cd.claimable := by rw [hshift]; rfl
    rw [hnote]
    split_ifs with hF
    · exact iff_of_false (nomatch ·) fun hlow => hlow.2 hF
    · exact (and_iff_left hF).symm
  by_cases hclaim : cd.claimable = true ∧ v &&& 0xF0 ≠ 0xF0 ∧ Claims v
  · have harmed : cd' = { c with state := .armed, claimable := false } := by
      rw [hwrite]
      exact if_pos ⟨hready, hclaimable.mpr ⟨hclaim.1, hclaim.2.1⟩, rfl, hclaim.2.2⟩
    rw [if_pos hclaim, harmed]
    refine ⟨⟨hrefused.refuse, hrefused.empty⟩, (nomatch ·), hcalm.next ?_ ?_,
      ⟨hrefused.refuse, hrefused.empty⟩, .inl ⟨rfl, rfl⟩⟩
    · rw [hshift]
      rfl
    · rw [hshift]
      rfl
  · have hkept : cd' = c := by
      rw [hwrite]
      refine if_neg fun hc => hclaim ?_
      obtain ⟨hopen, hlow⟩ := hclaimable.mp hc.2.1
      exact ⟨hopen, hlow, hc.2.2.2⟩
    rw [if_neg hclaim, hkept]
    refine ⟨hrefused, by rw [hready]; exact (nomatch ·), hcalm.next ?_ ?_, ⟨hrefused, hready, ?_, ?_⟩, ?_, hclaimable⟩
    · rw [hshift]
      rfl
    · rw [hshift]
      rfl
    · rw [hshift]
      exact h.listening
    · rw [hshift]
      change n ≤ 5
      omega
    · intro b hin
      obtain ⟨pre, hpre⟩ := hwindow
      have hwhole : window cd ++ v :: vs = pre ++ (window c ++ vs) := by
        have hnoted : window (cdNote cd v) = window cd := rfl
        rw [← List.append_assoc, hpre, hnoted, List.append_assoc, List.singleton_append]
      exact hframe b (by rw [hwhole]; exact hin.trans (List.suffix_append pre _).isInfix)

theorem acks_offered (ws : List Byte) {cd : Cd} (h : Offered cd) (hcalm : Calm cd ws)
    (hframe : Unframed (window cd ++ ws)) :
    (∀ x ∈ acks block cd ws, x = true) ↔ ¬(cd.claimable = true ∧ ReadThrough ws) := by
  induction ws generalizing cd with
  | nil =>
    refine iff_of_true (fun x hx => by cases hx) ?_
    rintro ⟨-, mid, hmid, -⟩
    cases hmid
  | cons v vs ih =>
    obtain ⟨hrefused, hstate, hcalm', hnext⟩ := offered_write block h hcalm hframe
    unfold acks
    dsimp only
    rw [List.forall_mem_cons, hrefused.ack, decide_eq_false hstate]
    have hhead (p : Prop) : ((!false) = true ∧ p) ↔ p := and_iff_right rfl
    rw [hhead]
    by_cases hclaim : cd.claimable = true ∧ v &&& 0xF0 ≠ 0xF0 ∧ Claims v
    · rw [if_pos hclaim] at hnext
      have hafter : afterClaim (v :: vs) = some vs := by
        unfold afterClaim
        rw [if_neg hclaim.2.1, if_pos hclaim.2.2]
      rw [acks_waiting block vs hnext hcalm', Ne, clocked_iff]
      have hthrough : ReadThrough (v :: vs) ↔ Clocked vs := by
        unfold ReadThrough
        rw [hafter]
        simp
      rw [hthrough]
      simp [hclaim.1]
    · rw [if_neg hclaim] at hnext
      obtain ⟨hoffered, hframe', hclaimable⟩ := hnext
      rw [ih hoffered hcalm' hframe', hclaimable]
      by_cases hF : v &&& 0xF0 = 0xF0
      · have hnever : ¬ ReadThrough (v :: vs) := by
          rintro ⟨mid, hmid, -⟩
          unfold afterClaim at hmid
          rw [if_pos hF] at hmid
          cases hmid
        exact iff_of_true (fun hc => hc.1.2 hF) (fun hc => hnever hc.2)
      · cases hopen : cd.claimable with
        | false => simp
        | true =>
          have hno : ¬ Claims v := fun hc => hclaim ⟨hopen, hF, hc⟩
          have hafter : afterClaim (v :: vs) = afterClaim vs := by
            rw [afterClaim, if_neg hF, if_neg hno]
          have hthrough : ReadThrough (v :: vs) ↔ ReadThrough vs := by
            unfold ReadThrough
            rw [hafter]
          rw [hthrough, and_iff_right (⟨rfl, hF⟩ : true = true ∧ v &&& 0xF0 ≠ 0xF0), and_iff_right rfl]

theorem cdPrepare_refused (cd : Cd) (h : (cdPrepare block cd).refuse = true) : (cdPrepare block cd).txLen = 0 := by
  have hother (c : Cd) (hc : c.refuse = false) (hset : (cdPrepareOther block c).refuse = true) :
      (cdPrepareOther block c).txLen = 0 := by
    unfold cdPrepareOther at hset ⊢
    dsimp only at hset ⊢
    split at hset
    · exact nomatch hc.symm.trans hset
    · split_ifs at hset ⊢ with hchallenge hshort hping hread hbad
      · rfl
      · exact nomatch hc.symm.trans hset
      · exact nomatch hc.symm.trans hset
      · rfl
      · exact nomatch hc.symm.trans hset
      · exact nomatch hc.symm.trans hset
  unfold cdPrepare at h ⊢
  dsimp only at h ⊢
  split_ifs at h ⊢ with hpicture
  · cases hp : cdPreparePicture { cd with refuse := false } with
    | none =>
      rw [hp] at h
      exact hother _ rfl h
    | some cd' =>
      rw [hp] at h
      unfold cdPreparePicture at hp
      dsimp only at h hp ⊢
      split at hp
      · cases hp
        rfl
      · split at hp
        · cases hp
        · cases hp
          split_ifs at h
          · cases h
          · cases h
  · exact hother _ rfl h

/-- The write is a trailer on which the answer is prepared. -/
structure Prepares (cd : Cd) (t : Byte) : Prop where
  state : cd.state = .idle ∨ cd.state = .ready
  await : cd.awaitTrailer = true
  known : t = 0xD0 ∨ cd.haveCmd = true

theorem trailer_prepares (cd : Cd) {t : Byte} (h : t = 0xD0 ∨ cd.haveCmd = true) :
    ∃ c, cdTrailer block cd t = { cdPrepare block c with state := .ready } ∧ c.awaitTrailer = false ∧
      c.claimable = true ∧ c.nhist = cd.nhist ∧ c.prev1 = cd.prev1 := by
  unfold cdTrailer
  dsimp only
  by_cases hD0 : t = 0xD0
  · rw [if_pos hD0]
    exact ⟨_, rfl, rfl, rfl, rfl, rfl⟩
  · have hknown : ¬ cd.haveCmd = false := by
      rw [h.resolve_left hD0]
      exact (nomatch ·)
    rw [if_neg hD0, if_neg hknown]
    split_ifs
    · exact ⟨_, rfl, rfl, rfl, rfl, rfl⟩
    · exact ⟨_, rfl, rfl, rfl, rfl, rfl⟩

theorem trailer_offered {cd : Cd} {t : Byte} (ht : Trailer t) (h : Prepares cd t) (hempty : cd.nhist = 0)
    (hrefuse : (cdWriteData block cd t).refuse = true) :
    let cd' := cdWriteData block cd t
    Offered cd' ∧ cd'.claimable = true ∧ window cd' = [t] ∧ cd'.prev1 = t := by
  intro cd'
  have hmark : t &&& 0xF0 = 0xD0 := by
    rcases ht with rfl | rfl
    · rfl
    · rfl
  obtain ⟨c, htrailer, hlisten, hclaimable, hnhist, hprev⟩ := trailer_prepares block (cdNote cd t) h.known
  obtain ⟨n, x, b, p, r, hprepare, -⟩ := cdPrepare_eq block c
  have hcount : c.nhist = 0 := hnhist.trans hempty
  have hdropped := cdPrepare_refused block c
  have hshift : cdShift (cdTrailer block (cdNote cd t) t) t =
      { cdPrepare block c with state := .ready, hist := Function.update c.hist 0 t, nhist := 1 } := by
    rw [htrailer, hprepare]
    unfold cdShift
    dsimp only
    rw [hcount]
    rfl
  have hassemble :
      cdAssemble (cdTrailer block (cdNote cd t) t) t = (cdShift (cdTrailer block (cdNote cd t) t) t, none) := by
    unfold cdAssemble
    dsimp only
    rw [hshift]
    exact if_pos (show 1 < 5 by decide)
  have hawait : (cdNote cd t).awaitTrailer = true := h.await
  have hheard : cdListen block (cdNote cd t) t = cdShift (cdTrailer block (cdNote cd t) t) t := by
    unfold cdListen
    simp only [hawait, hassemble, if_true]
  have hswitch : cdSwitch block (cdNote cd t) t = (cdShift (cdTrailer block (cdNote cd t) t) t, false) := by
    have hstate : (cdNote cd t).state = cd.state := rfl
    unfold cdSwitch
    rw [hstate, hheard]
    rcases h.state with hs | hs
    · rw [hs]
    · rw [hs]
  have hwrite : cd' = cdShift (cdTrailer block (cdNote cd t) t) t := by
    have hquiet : ¬(cd.prev2 = 0xBF ∧ cd.prev1 = 0x7F ∧ t = 0xBF) := by
      rintro ⟨-, -, rfl⟩
      cases hmark
    have hno : ¬(t &&& 0xF0 = 0xC0 ∨ t &&& 0xF0 = 0x80) := by
      rw [hmark]
      decide
    change cdWriteData block cd t = _
    unfold cdWriteData
    rw [if_neg hquiet, hswitch]
    exact if_neg fun hc => hno hc.2.2.2
  have hset : cd'.refuse = true := hrefuse
  rw [hwrite, hshift] at hset ⊢
  refine ⟨⟨⟨hset, hdropped hset⟩, rfl, ?_, Nat.le_of_ble_eq_true rfl⟩, ?_, ?_, ?_⟩
  · rw [hprepare]
    exact hlisten
  · rw [hprepare]
    exact hclaimable
  · change [Function.update c.hist 0 t 0] = [t]
    rw [Function.update_self]
  · rw [hprepare]
    exact hprev

structure Tidy (cd : Cd) : Prop where
  few : cd.nhist ≤ 5
  empty : cd.awaitTrailer = true → cd.nhist = 0

theorem assemble_tidy (cd : Cd) (v : Byte) (h5 : cd.nhist ≤ 5) (hawait : cd.awaitTrailer = false) :
    match cdAssemble cd v with
    | (c, some b) => Tidy { c with pending := b, awaitTrailer := true }
    | (c, none) => Tidy c := by
  obtain ⟨hist, hshift⟩ := cdShift_eq cd v
  have hlen := cdShift_nhist cd v h5
  generalize (cdShift cd v).nhist = n at hshift hlen
  have hshifted : Tidy (cdShift cd v) := by
    rw [hshift]
    exact ⟨by change n ≤ 5; omega, fun ha => nomatch hawait.symm.trans ha⟩
  unfold cdAssemble
  dsimp only
  split_ifs with hfew
  · exact hshifted
  · cases cdFrame (cdShift cd v).hist with
    | none => exact hshifted
    | some b => exact ⟨Nat.zero_le 5, fun _ => rfl⟩

theorem listen_tidy {cd : Cd} (h : Tidy cd) (v : Byte) : Tidy (cdListen block cd v) := by
  have hassembled (c : Cd) (h5 : c.nhist ≤ 5) (hawait : c.awaitTrailer = false) :
      Tidy (match cdAssemble c v with
        | (cd, some b) => { cd with pending := b, awaitTrailer := true }
        | (cd, none) => cd) := by
    have htidy := assemble_tidy c v h5 hawait
    rcases hc : cdAssemble c v with ⟨c', _ | b⟩
    · rw [hc] at htidy
      exact htidy
    · rw [hc] at htidy
      exact htidy
  unfold cdListen
  dsimp only
  cases hawait : cd.awaitTrailer with
  | false => exact hassembled cd h.few hawait
  | true =>
    obtain ⟨s, k, c, hc, arg, n, z, len, tx, b, p, r, he, -⟩ := cdTrailer_eq block cd v
    have htrailer : (cdTrailer block cd v).nhist = cd.nhist ∧ (cdTrailer block cd v).awaitTrailer = false := by
      rw [he]
      exact ⟨rfl, rfl⟩
    rw [if_pos (rfl : true = true)]
    exact hassembled _ (by rw [htrailer.1]; exact h.few) htrailer.2

theorem write_tidy {cd : Cd} (h : Tidy cd) (v : Byte) : Tidy (cdWriteData block cd v) := by
  have hnote : Tidy (cdNote cd v) := ⟨h.few, h.empty⟩
  have hswitch : Tidy (cdSwitch block (cdNote cd v) v).1 := by
    unfold cdSwitch
    split
    · exact listen_tidy block hnote v
    · exact listen_tidy block hnote v
    · unfold cdArmed
      split_ifs
      · exact ⟨h.few, h.empty⟩
      · exact hnote
    · unfold cdHandshake
      split_ifs
      all_goals exact ⟨h.few, h.empty⟩
    · unfold cdStream
      dsimp only
      split_ifs
      all_goals exact ⟨h.few, h.empty⟩
  unfold cdWriteData
  dsimp only
  split_ifs
  · exact ⟨Nat.zero_le 5, (nomatch ·)⟩
  · unfold cdClaim
    split_ifs
    · exact ⟨hswitch.few, hswitch.empty⟩
    · exact hswitch

theorem device_tidy (part : Part) (cfg : Config) (ops : List Op) : Tidy ((device part).run (ppInit cfg) ops).cd := by
  apply Machine.run_invariant (device part) (I := fun dev => Tidy dev.cd)
  · intro dev op h
    cases op with
    | data v =>
      change Tidy (ppWriteData part dev v).cd
      rw [ppWriteData_cd]
      exact write_tidy dev.link.block h v
    | ctrl v => exact h
    | strobe old v => exact h
    | status =>
      change Tidy (ppReadStatus part dev).1.cd
      rw [(ppReadStatus_rest part dev).1]
      exact h
    | latch v => exact h
  · exact ⟨Nat.zero_le 5, (nomatch ·)⟩

end

/-- From its last trailer on, a refused query holds ACK up exactly until the host reads it through. -/
theorem refused_iff (part : Part) (cfg : Config) (ops : List Op) (t : Byte) (ws : List Byte) (ht : Trailer t)
    (hprep : Prepares ((device part).run (ppInit cfg) ops).cd t)
    (hrefuse : (ppWriteData part ((device part).run (ppInit cfg) ops) t).cd.refuse = true)
    (hpulses : ¬ pulses <:+: ws) (hframe : Unframed ws) :
    let dev := (device part).run (ppInit cfg) ops
    (∀ x ∈ acks dev.link.block (ppWriteData part dev t).cd ws, x = true) ↔ ¬ ReadThrough ws := by
  intro dev
  have htidy := device_tidy part cfg ops
  rw [ppWriteData_cd] at hrefuse ⊢
  obtain ⟨hoffered, hclaimable, hwindow, hprev⟩ :=
    trailer_offered dev.link.block ht hprep (htidy.empty hprep.await) hrefuse
  have hcalm : Calm (cdWriteData dev.link.block dev.cd t) ws := by
    unfold Calm
    rw [hprev, List.infix_cons_iff, List.infix_cons_iff]
    rintro (hold | hnew | hin)
    · rcases ht with rfl | rfl
      · simp [pulses] at hold
      · simp [pulses] at hold
    · rcases ht with rfl | rfl
      · simp [pulses] at hnew
      · simp [pulses] at hnew
    · exact hpulses hin
  have hwhole : Unframed (window (cdWriteData dev.link.block dev.cd t) ++ ws) := by
    intro b
    rw [hwindow, List.singleton_append, List.infix_cons_iff]
    rintro (hhead | hin)
    · have hmark := (frame_marks b).1
      have hfirst : 0xF0 ||| b &&& 0x0F = t := (List.cons_prefix_cons.mp hhead).1
      rw [hfirst] at hmark
      rcases ht with rfl | rfl
      · cases hmark
      · cases hmark
    · exact hframe b hin
  rw [acks_offered dev.link.block ws hoffered hcalm hwhole, hclaimable, and_iff_right rfl]

/-- A transaction up to the last trailer of a challenge the part does not know. -/
def challenge : List Op :=
  (pulses ++ frame 0xD3 ++ [0xDF] ++ frame 0xA0 ++ [0xD0] ++ frame 0x00 ++ [0xDF] ++ frame 0x00 ++ [0xDF] ++
    frame 0x00).map .data

/-- The host gives up at the claim. -/
theorem refused_claim :
    let part := initPart (detected "Version 2000 (DE)")
    let dev := (device part).run (ppInit (detected "Version 2000 (DE)")) challenge
    (∀ x ∈ acks dev.link.block (ppWriteData part dev 0xDF).cd [0xCF, 0xCF], x = true) ↔
      ¬ ReadThrough [0xCF, 0xCF] := by
  apply refused_iff
  · exact .inr rfl
  · exact ⟨.inr (by decide +kernel), by decide +kernel, .inr (by decide +kernel)⟩
  · decide +kernel
  · decide
  · intro b h
    exact absurd h.length_le (by simp [frame])

/-- The host reads on, and the first bit of the empty reply takes ACK down. -/
theorem refused_read :
    let part := initPart (detected "Version 2000 (DE)")
    let dev := (device part).run (ppInit (detected "Version 2000 (DE)")) challenge
    let ws := 0xCF :: cdAttention ++ [0xCF]
    Prepares dev.cd 0xDF ∧ (ppWriteData part dev 0xDF).cd.refuse = true ∧ ¬ pulses <:+: ws ∧ Unframed ws ∧
      (acks dev.link.block (ppWriteData part dev 0xDF).cd ws).getLast? = some false := by
  refine ⟨⟨.inr (by decide +kernel), by decide +kernel, .inr (by decide +kernel)⟩, by decide +kernel, by decide, ?_,
    by decide +kernel⟩
  unfold Unframed
  decide +kernel

end PeepeeBox.CdongleRefusals
