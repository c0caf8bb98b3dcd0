import Mathlib.Data.Int.Notation
import PeepeeBox.Bytes
import PeepeeBox.TraceMachine

set_option autoImplicit false

/-!
# The generic HASP

`hasp.c`: the burst that opens a password, the password, the query that sets where the product information is read
from, and the reading of it.  An access outside a table has no result.
-/
namespace PeepeeBox.HaspPlug
open TraceMachine

inductive State where
  | none
  | passwordBegin
  | passwordEnd
  | read
  deriving DecidableEq

structure HaspType where
  password : List Byte
  prodinfo : List Byte

structure Hasp where
  index : ℕ
  state : State
  passindex : ℕ
  passmode : ℕ
  /-- The code's `int`. -/
  prodindex : BitVec 32
  tmppass : List Byte
  status : Byte
  deriving DecidableEq

def tmppassSize : ℕ := 0x29

def savquest : HaspType where
  password := [0xc3, 0xd9, 0xd3, 0xfb, 0x9d, 0x89, 0xb9, 0xa1, 0xb3, 0xc1, 0xf1, 0xcd, 0xdf, 0x9d]
  prodinfo :=
    [0x51, 0x4c, 0x52, 0x4d, 0x53, 0x4e, 0x53, 0x4e, 0x53, 0x49, 0x53, 0x48, 0x53, 0x4b, 0x53, 0x4a,
      0x53, 0x43, 0x53, 0x45, 0x52, 0x46, 0x53, 0x43, 0x53, 0x41, 0xac, 0x40, 0x53, 0xbc, 0x53, 0x42,
      0x53, 0x57, 0x53, 0x5d, 0x52, 0x5e, 0x53, 0x5b, 0x53, 0x59, 0xac, 0x58, 0x53, 0xa4]

def burst (dev : Hasp) (val : Byte) : Hasp :=
  match dev.index with
  | 0 => { dev with index := if val = 0xc6 then 1 else 0 }
  | 1 => { dev with index := if val = 0xc7 then 2 else 0 }
  | 2 => if val = 0xc6 then { dev with index := 3 } else { dev with index := 0, state := .none }
  | 3 => { dev with index := 0 }
  | _ => dev

def opens (dev : Hasp) (val : Byte) : Bool := dev.index = 3 && val = 0x80

def verifyClear : List Byte := [0x94, 0x9e, 0xa4, 0xb2, 0xbe, 0xd0]

def verifySet : List Byte := [0x8a, 0x8e, 0xca, 0xd2, 0xe2, 0xf0, 0xfc]

def readSet : List Byte :=
  [0x88, 0x94, 0x98, 0x9c, 0x9e, 0xa0, 0xa4, 0xaa, 0xae, 0xb0, 0xb2, 0xbc, 0xbe, 0xc2, 0xc6, 0xc8, 0xce, 0xd0, 0xd6,
    0xd8, 0xdc, 0xe0, 0xe6, 0xea, 0xee, 0xf2, 0xf6]

def readAnswer (passmode : ℕ) (val : Byte) : Byte :=
  if passmode = 2 ∧ val ∈ verifyClear then 0
  else if passmode = 2 ∧ val ∈ verifySet then 0x20
  else if val ∈ readSet then 0x20
  else 0

/-- `dev->tmppass[dev->passindex++] = val` -/
def store (dev : Hasp) (val : Byte) : Option Hasp :=
  if dev.passindex < tmppassSize then
    some { dev with tmppass := dev.tmppass.set dev.passindex val, passindex := dev.passindex + 1 }
  else none

/-- Bit 6 of every third byte from the third on. -/
def queryNumber (tmppass : List Byte) : ℕ :=
  (List.range 13).foldl (fun n k => n * 2 + ((tmppass.getD (2 + 3 * k) 0 >>> 6) &&& 1).toNat) 0

def query (dev : Hasp) : Hasp :=
  if dev.tmppass.getD 0 0 = 0x9c ∧ dev.tmppass.getD 1 0 = 0x9e then
    let prodindex := (BitVec.ofNat 32 (queryNumber dev.tmppass) - 0xc08) <<< 4
    { dev with prodindex, passmode := if prodindex.toInt < 0x38 * 16 then 3 else dev.passmode, state := .read }
  else { dev with state := .read }

/-- A byte as the state takes it. -/
def taken (type : HaspType) (dev : Hasp) (val : Byte) : Option Hasp :=
  match dev.state with
  | .read => some { dev with status := readAnswer dev.passmode val }
  | .passwordEnd =>
    if has val 1 then
      some { dev with passmode := if dev.passmode = 1 ∧ val = 0x9d then 2 else dev.passmode, state := .read }
    else if dev.passmode = 1 then
      (store dev val).map fun dev => if dev.passindex = tmppassSize then query dev else dev
    else some dev
  | .passwordBegin =>
    if has val 1 then
      (store dev val).map fun dev =>
        if dev.passindex = type.password.length then
          { dev with
            state := .passwordEnd, passindex := 0
            passmode := if dev.tmppass.take type.password.length = type.password then 1 else 0 }
        else dev
    else some dev
  | .none => some dev

def haspWriteData (type : HaspType) (dev : Hasp) (val : Byte) : Option Hasp :=
  if opens dev val then some { dev with index := 0, state := .passwordBegin, passindex := 0 }
  else taken type { burst dev val with status := 0 } val

def infoAt (type : HaspType) (i : ℤ) : Option Byte := if 0 ≤ i then type.prodinfo[i.toNat]? else none

def haspReadStatus (type : HaspType) (dev : Hasp) : Option (Byte × Hasp) :=
  if dev.state = .read ∧ dev.passmode = 3 then do
    let status ←
      if dev.prodindex.toInt ≤ type.prodinfo.length * 8 then do
        let info ← infoAt type ((dev.prodindex.toInt - 1) / 8)
        pure (((info >>> ((8 - dev.prodindex) &&& 7).toNat) &&& 1) <<< 5)
      else
        let word := 0x534d ^^^ (dev.prodindex - 1).sshiftRight 4
        pure ((((word >>> ((16 - dev.prodindex) &&& 15).toNat) &&& 1) <<< 5).setWidth 8)
    pure (status, { dev with status, prodindex := dev.prodindex + 1 })
  else some (dev.status, dev)

def haspInit : Hasp where
  index := 0
  state := .none
  passindex := 0
  passmode := 0
  prodindex := 0
  tmppass := List.replicate tmppassSize 0
  status := 0x80

inductive Access where
  | writeData (val : Byte)
  | readStatus

/-- The device on the port; an access without a result leaves it. -/
def hasp (type : HaspType) : Machine Hasp Access Byte where
  step dev
    | .writeData val => ((haspWriteData type dev val).getD dev, none)
    | .readStatus => (((haspReadStatus type dev).map Prod.snd).getD dev, (haspReadStatus type dev).map Prod.fst)

/-- Whatever comes next stays inside the tables. -/
structure Inside (type : HaspType) (dev : Hasp) : Prop where
  writes : ∀ val, haspWriteData type dev val ≠ none
  reads : haspReadStatus type dev ≠ none

structure Undershoots (dev : Hasp) (val : Byte) : Prop where
  state : dev.state = .passwordEnd
  even : has val 1 = false
  passmode : dev.passmode = 1
  passindex : dev.passindex = 40
  called : dev.tmppass.getD 0 0 = 0x9c ∧ dev.tmppass.getD 1 0 = 0x9e
  number : queryNumber (dev.tmppass.set 40 val) ≤ 0xc08

/-- The last read an `int` can count. -/
def Overruns (dev : Hasp) : Prop := dev.state = .read ∧ dev.passmode = 3 ∧ dev.prodindex = 0x7FFFFFFF

def Kept (dev : Hasp) : Access → Prop
  | .writeData val => opens dev val = false → ¬ Undershoots (burst dev val) val
  | .readStatus => ¬ Overruns dev

/-- What every access preserves. -/
structure Framed (dev : Hasp) : Prop where
  index : dev.index ≤ 3
  stored : dev.tmppass.length = tmppassSize
  begun : dev.state = .passwordBegin → dev.passindex < savquest.password.length
  ended : dev.state = .passwordEnd → dev.passindex < tmppassSize ∧ dev.passmode ≤ 1

/-- What is read starts within the product information, or after it. -/
def Ready (dev : Hasp) : Prop := dev.state = .read → dev.passmode = 3 → 0 < dev.prodindex.toInt

theorem framed_init : Framed haspInit where
  index := Nat.zero_le _
  stored := rfl
  begun h := nomatch h
  ended h := nomatch h

variable {dev : Hasp} {val : Byte}

theorem queryNumber_lt (tmppass : List Byte) : queryNumber tmppass < 2 ^ 13 := by
  have hbits (n : ℕ) : (List.range n).foldl
      (fun m k => m * 2 + ((tmppass.getD (2 + 3 * k) 0 >>> 6) &&& 1).toNat) 0 < 2 ^ n := by
    induction n with
    | zero => simp
    | succ n ih =>
      have hbit : ((tmppass.getD (2 + 3 * n) 0 >>> 6) &&& 1).toNat ≤ 1 := by
        rw [BitVec.toNat_and]
        exact Nat.and_le_right
      rw [List.range_succ, List.foldl_append, List.foldl_cons, List.foldl_nil, Nat.pow_succ]
      omega
  exact hbits 13

theorem start_toInt {n : ℕ} (h : n < 2 ^ 13) :
    ((BitVec.ofNat 32 n - 0xc08) <<< 4).toInt = ((n : ℤ) - 0xc08) * 16 := by
  have hoffset : (0xc08 : BitVec 32).toNat = 0xc08 := rfl
  rw [BitVec.toInt_eq_toNat_cond, BitVec.toNat_shiftLeft, BitVec.toNat_sub, BitVec.toNat_ofNat, hoffset,
    Nat.shiftLeft_eq]
  omega

theorem burst_frame (dev : Hasp) (val : Byte) :
    ∃ index state, burst dev val = { dev with index, state } ∧ (dev.index ≤ 3 → index ≤ 3) ∧
      (state = dev.state ∨ state = .none) := by
  unfold burst
  split
  · refine ⟨_, dev.state, rfl, fun _ => ?_, .inl rfl⟩
    split <;> decide
  · refine ⟨_, dev.state, rfl, fun _ => ?_, .inl rfl⟩
    split <;> decide
  · split
    · exact ⟨3, dev.state, rfl, fun _ => Nat.le_refl 3, .inl rfl⟩
    · exact ⟨0, .none, rfl, fun _ => by decide, .inr rfl⟩
  · exact ⟨0, dev.state, rfl, fun _ => by decide, .inl rfl⟩
  · exact ⟨dev.index, dev.state, rfl, id, .inl rfl⟩

theorem burst_framed (h : Framed dev) (hready : Ready dev) (val : Byte) :
    Framed { burst dev val with status := 0 } ∧ Ready { burst dev val with status := 0 } := by
  obtain ⟨index, state, heq, hindex, hstate⟩ := burst_frame dev val
  rw [heq]
  rcases hstate with rfl | rfl
  · exact ⟨{ h with index := hindex h.index }, hready⟩
  · exact ⟨{ index := hindex h.index, stored := h.stored, begun := (nomatch ·), ended := (nomatch ·) }, (nomatch ·)⟩

theorem store_eq (h : dev.passindex < tmppassSize) :
    store dev val = some { dev with tmppass := dev.tmppass.set dev.passindex val, passindex := dev.passindex + 1 } :=
  if_pos h

theorem query_framed (hindex : dev.index ≤ 3) (hstored : dev.tmppass.length = tmppassSize) (hmode : dev.passmode = 1) :
    Framed (query dev) ∧
      (Ready (query dev) ↔
        ¬ (dev.tmppass.getD 0 0 = 0x9c ∧ dev.tmppass.getD 1 0 = 0x9e ∧ queryNumber dev.tmppass ≤ 0xc08)) := by
  have hstart := start_toInt (queryNumber_lt dev.tmppass)
  unfold query Ready
  split
  · rename_i hcalled
    refine ⟨⟨hindex, hstored, (nomatch ·), (nomatch ·)⟩, ?_⟩
    simp only [hstart]
    constructor
    · rintro h ⟨-, -, hlow⟩
      have hpos := h trivial (if_pos (by omega))
      omega
    · intro hhigh _ _
      have hnumber : 0xc08 < queryNumber dev.tmppass := Nat.lt_of_not_le fun hlow => hhigh ⟨hcalled.1, hcalled.2, hlow⟩
      omega
  · rename_i hother
    refine ⟨⟨hindex, hstored, (nomatch ·), (nomatch ·)⟩, iff_of_true (fun _ hthree => ?_) fun h => hother ⟨h.1, h.2.1⟩⟩
    change dev.passmode = 3 at hthree
    omega

theorem ready_of_state (h : dev.state ≠ .read) : Ready dev := fun hread => absurd hread h

theorem taken_framed (h : Framed dev) (hready : Ready dev) (val : Byte) :
    ∃ dev', taken savquest dev val = some dev' ∧ Framed dev' ∧ (Ready dev' ↔ ¬ Undershoots dev val) := by
  unfold taken
  cases hstate : dev.state with
  | none => exact ⟨dev, rfl, h, iff_of_true hready fun hu => nomatch hstate.symm.trans hu.state⟩
  | read =>
    have hready' : dev.passmode = 3 → 0 < dev.prodindex.toInt := hready hstate
    refine ⟨_, rfl, ⟨h.index, h.stored, (nomatch ·), (nomatch ·)⟩, iff_of_true (fun _ => hready') fun hu => ?_⟩
    exact nomatch hstate.symm.trans hu.state
  | passwordBegin =>
    have hnot : ¬ Undershoots dev val := fun hu => nomatch hstate.symm.trans hu.state
    have hbegun := h.begun hstate
    have hsize : dev.passindex < tmppassSize := Nat.lt_trans hbegun (by decide)
    have hlength := (@List.length_set _ dev.tmppass dev.passindex val).trans h.stored
    cases has val 1 with
    | false => exact ⟨dev, rfl, h, iff_of_true hready hnot⟩
    | true =>
      simp only [if_true]
      rw [store_eq hsize, Option.map_some]
      refine ⟨_, rfl, ?_⟩
      split
      · have hroom : 0 < tmppassSize := by decide
        refine ⟨⟨h.index, hlength, (nomatch ·), fun _ => ⟨hroom, ?_⟩⟩, iff_of_true (nomatch ·) hnot⟩
        dsimp only
        split <;> decide
      · rename_i hmore
        have hleft : dev.state ≠ .read := fun hread => nomatch hstate.symm.trans hread
        refine ⟨⟨h.index, hlength, fun _ => Nat.lt_of_le_of_ne hbegun hmore, fun hend => ?_⟩, ?_⟩
        · exact nomatch hstate.symm.trans hend
        · exact iff_of_true (ready_of_state hleft) hnot
  | passwordEnd =>
    obtain ⟨hsize, hmode⟩ := h.ended hstate
    have hlength := (@List.length_set _ dev.tmppass dev.passindex val).trans h.stored
    cases hodd : has val 1 with
    | true =>
      refine ⟨_, rfl, ⟨h.index, h.stored, (nomatch ·), (nomatch ·)⟩, iff_of_true (fun _ hthree => ?_) fun hu => ?_⟩
      · dsimp only at hthree
        split at hthree <;> omega
      · exact nomatch hodd.symm.trans hu.even
    | false =>
      by_cases hone : dev.passmode = 1
      · simp only [Bool.false_eq_true, if_false, hone, if_true]
        rw [store_eq hsize, Option.map_some]
        refine ⟨_, rfl, ?_⟩
        by_cases hlast : dev.passindex = 40
        · have hquery := @query_framed
            { dev with tmppass := dev.tmppass.set dev.passindex val, passindex := dev.passindex + 1 }
            h.index hlength hone
          rw [if_pos (by rw [hlast]; rfl)]
          refine ⟨hquery.1, hquery.2.trans (not_congr ?_)⟩
          rw [hlast]
          have hfirst : (dev.tmppass.set 40 val).getD 0 0 = dev.tmppass.getD 0 0 := by
            simp [List.getD_eq_getElem?_getD]
          have hsecond : (dev.tmppass.set 40 val).getD 1 0 = dev.tmppass.getD 1 0 := by
            simp [List.getD_eq_getElem?_getD]
          rw [hfirst, hsecond]
          exact ⟨fun hq => ⟨hstate, hodd, hone, hlast, ⟨hq.1, hq.2.1⟩, hq.2.2⟩,
            fun hu => ⟨hu.called.1, hu.called.2, hu.number⟩⟩
        · have hmore : dev.passindex + 1 ≠ tmppassSize := fun hfull => hlast (Nat.succ.inj hfull)
          rw [if_neg hmore]
          have hleft : dev.state ≠ .read := fun hread => nomatch hstate.symm.trans hread
          refine ⟨⟨h.index, hlength, fun hbegin => ?_, fun _ => ⟨Nat.lt_of_le_of_ne hsize hmore, hmode⟩⟩, ?_⟩
          · exact nomatch hstate.symm.trans hbegin
          · exact iff_of_true (ready_of_state hleft) fun hu => hlast hu.passindex
      · simp only [Bool.false_eq_true, if_false, hone]
        exact ⟨dev, rfl, h, iff_of_true hready fun hu => hone hu.passmode⟩

theorem write_framed (h : Framed dev) (hready : Ready dev) (val : Byte) :
    ∃ dev', haspWriteData savquest dev val = some dev' ∧ Framed dev' ∧
      (Ready dev' ↔ (opens dev val = false → ¬ Undershoots (burst dev val) val)) := by
  unfold haspWriteData
  cases hopens : opens dev val with
  | true =>
    have hopen : 0 < savquest.password.length := by decide
    exact ⟨_, rfl, ⟨Nat.zero_le _, h.stored, fun _ => hopen, (nomatch ·)⟩, iff_of_true (nomatch ·) (nomatch ·)⟩
  | false =>
    obtain ⟨hframed, hready'⟩ := burst_framed h hready val
    obtain ⟨dev', htaken, hframed', hiff⟩ := taken_framed hframed hready' val
    refine ⟨dev', htaken, hframed', hiff.trans ?_⟩
    have hsame : Undershoots { burst dev val with status := 0 } val ↔ Undershoots (burst dev val) val :=
      ⟨fun hu => ⟨hu.1, hu.2, hu.3, hu.4, hu.5, hu.6⟩, fun hu => ⟨hu.1, hu.2, hu.3, hu.4, hu.5, hu.6⟩⟩
    exact (not_congr hsame).trans ⟨fun hu _ => hu, fun hu => hu rfl⟩

theorem next_pos {p : BitVec 32} (h : 0 < p.toInt) : 0 < (p + 1).toInt ↔ p ≠ 0x7FFFFFFF := by
  have hlast : p = 0x7FFFFFFF ↔ p.toNat = 0x7FFFFFFF := ⟨congrArg BitVec.toNat, fun hp => BitVec.eq_of_toNat_eq hp⟩
  have hone : (1 : BitVec 32).toNat = 1 := rfl
  rw [ne_eq, hlast, BitVec.toInt_eq_toNat_cond, BitVec.toNat_add, hone]
  rw [BitVec.toInt_eq_toNat_cond] at h
  omega

theorem infoAt_some {p : ℤ} (hpos : 0 < p) (hle : p ≤ savquest.prodinfo.length * 8) :
    ∃ info, infoAt savquest ((p - 1) / 8) = some info := by
  have hlength : savquest.prodinfo.length = 46 := rfl
  have hin : ((p - 1) / 8).toNat < savquest.prodinfo.length := by omega
  refine ⟨savquest.prodinfo[((p - 1) / 8).toNat], ?_⟩
  rw [infoAt, if_pos (by omega), List.getElem?_eq_getElem hin]

theorem read_ready (h : Ready dev) : ∃ status dev', haspReadStatus savquest dev = some (status, dev') ∧
    (Framed dev → Framed dev') ∧ (Ready dev' ↔ Kept dev .readStatus) := by
  unfold haspReadStatus Kept Overruns
  by_cases hread : dev.state = .read ∧ dev.passmode = 3
  · have hpos := h hread.1 hread.2
    have hnext : Ready { dev with prodindex := dev.prodindex + 1 } ↔
        ¬ (dev.state = .read ∧ dev.passmode = 3 ∧ dev.prodindex = 0x7FFFFFFF) := by
      have hstep := next_pos hpos
      exact ⟨fun hr hover => hstep.mp (hr hread.1 hread.2) hover.2.2, fun hover _ _ =>
        hstep.mpr fun hlast => hover ⟨hread.1, hread.2, hlast⟩⟩
    rw [if_pos hread]
    split
    · rename_i hle
      obtain ⟨info, hinfo⟩ := infoAt_some hpos hle
      rw [hinfo]
      exact ⟨_, _, rfl, fun hf => ⟨hf.index, hf.stored, hf.begun, hf.ended⟩, hnext⟩
    · exact ⟨_, _, rfl, fun hf => ⟨hf.index, hf.stored, hf.begun, hf.ended⟩, hnext⟩
  · rw [if_neg hread]
    exact ⟨_, _, rfl, id, iff_of_true h fun hover => hread ⟨hover.1, hover.2.1⟩⟩

theorem inside_iff (h : Framed dev) : Inside savquest dev ↔ Ready dev := by
  constructor
  · intro hinside hread hthree
    by_contra hpos
    apply hinside.reads
    have hbefore : infoAt savquest ((dev.prodindex.toInt - 1) / 8) = none := if_neg (by omega)
    have hle : dev.prodindex.toInt ≤ savquest.prodinfo.length * 8 := by omega
    unfold haspReadStatus
    rw [if_pos ⟨hread, hthree⟩, if_pos hle, hbefore]
    rfl
  · intro hready
    refine ⟨fun val => ?_, ?_⟩
    · obtain ⟨dev', hwrite, -⟩ := write_framed h hready val
      rw [hwrite]
      exact Option.some_ne_none _
    · obtain ⟨status, dev', hread, -⟩ := read_ready hready
      rw [hread]
      exact Option.some_ne_none _

theorem access_framed (h : Framed dev) (hready : Ready dev) (a : Access) :
    Framed ((hasp savquest).next dev a) ∧ (Ready ((hasp savquest).next dev a) ↔ Kept dev a) := by
  cases a with
  | writeData val =>
    obtain ⟨dev', hwrite, hframed, hiff⟩ := write_framed h hready val
    have hnext : (hasp savquest).next dev (.writeData val) = dev' := by
      change (haspWriteData savquest dev val).getD dev = dev'
      rw [hwrite, Option.getD_some]
    rw [hnext]
    exact ⟨hframed, hiff⟩
  | readStatus =>
    obtain ⟨status, dev', hread, hframed, hiff⟩ := read_ready hready
    have hnext : (hasp savquest).next dev .readStatus = dev' := by
      change ((haspReadStatus savquest dev).map Prod.snd).getD dev = dev'
      rw [hread, Option.map_some, Option.getD_some]
    rw [hnext]
    exact ⟨hframed h, hiff⟩

/-- No access leaves the tables, whatever comes next, all along the runs without a query whose number is too low
and without more reads than an `int` counts, and along no others. -/
theorem tables_not_left (as : List Access) :
    (∀ before after, as = before ++ after → Inside savquest ((hasp savquest).run haspInit before)) ↔
      (hasp savquest).Along Kept haspInit as :=
  (hasp savquest).along_iff (I := fun dev => Framed dev ∧ Ready dev) (Q := fun _ => True)
    (fun _ a _ hkept h => ⟨(access_framed h.1 h.2 a).1, (access_framed h.1 h.2 a).2.mpr hkept⟩)
    (fun _ h => (inside_iff h.1).mpr h.2)
    (fun _ a _ h hinside =>
      (access_framed h.1 h.2 a).2.mp ((inside_iff (access_framed h.1 h.2 a).1).mp hinside))
    ⟨framed_init, (nomatch ·)⟩ as fun _ _ => trivial

/-- The burst, the password and a query of the number 0xc08. -/
def lowQuery : List Access :=
  ([0xc6, 0xc7, 0xc6, 0x80] ++ savquest.password ++
      [0x9c, 0x9e, 0, 0, 0, 0x40, 0, 0, 0x40, 0, 0, 0, 0, 0, 0, 0, 0, 0, 0, 0, 0, 0, 0, 0, 0, 0,
        0, 0, 0, 0x40, 0, 0, 0, 0, 0, 0, 0, 0, 0, 0, 0]).map .writeData

theorem low_query_reads_before_table : ¬ Inside savquest ((hasp savquest).run haspInit lowQuery) := by
  have hread : haspReadStatus savquest ((hasp savquest).run haspInit lowQuery) = none := by decide +kernel
  exact fun h => h.reads hread

end PeepeeBox.HaspPlug
