import Mathlib.Data.Int.Notation
import Mathlib.Logic.Function.Iterate
import PeepeeBox.Bytes
import PeepeeBox.TraceMachine

set_option autoImplicit false

/-!
# Memory reads of a DMA channel

The two ways in `dma.c` to take a unit from a channel of a legacy 8237, one counting at once and one when it is told
to or asked again.  What refreshes the memory takes is left out, and so are scatter-gather and the requests of the
controller's own `dma_block_transfer`.
-/
namespace PeepeeBox.DmaReads
open TraceMachine

/-- What the programming of a channel fixes. -/
structure Setup where
  /-- Bit 2 of the controller's command register. -/
  disabled : Bool
  /-- The channel's bit of `dma_e`. -/
  present : Bool
  mode : Byte
  /-- The channel moves words. -/
  size : Bool
  advanced : Bool
  transferMode : BitVec 16
  dmaMask : BitVec 32
  ab : BitVec 32
  cb : BitVec 16
  /-- The page registers are cut to `dma_mask`. -/
  page_masked : ab &&& 0xffff0000 &&& dmaMask = ab &&& 0xffff0000

structure Dma where
  ac : BitVec 32
  cc : ℤ
  /-- The channel's bits of `dma_m`, `dma_stat`, `dma_stat_rq` and `dma_stat_adv_pend`. -/
  masked : Bool
  stat : Bool
  statRq : Bool
  advPend : Bool
  deriving DecidableEq

variable (c : Setup)

def dmaRetreat (ac : BitVec 32) : BitVec 32 :=
  let as : BitVec 32 := (c.transferMode >>> 8).setWidth 32
  if as = 2 then (ac &&& 0xfffe0000 &&& c.dmaMask) ||| ((ac - as) &&& 0x1ffff)
  else (ac &&& 0xffff0000 &&& c.dmaMask) ||| ((ac - as) &&& 0xffff)

def dmaAdvance (ac : BitVec 32) : BitVec 32 :=
  let as : BitVec 32 := (c.transferMode >>> 8).setWidth 32
  if as = 2 then (ac &&& 0xfffe0000 &&& c.dmaMask) ||| ((ac + as) &&& 0x1ffff)
  else (ac &&& 0xffff0000 &&& c.dmaMask) ||| ((ac + as) &&& 0xffff)

/-- Where `ac` goes with a unit. -/
def nextAddress (ac : BitVec 32) : BitVec 32 :=
  if c.size = false then
    if has c.mode 0x20 then
      if c.advanced then dmaRetreat c ac else (ac &&& 0xffff0000 &&& c.dmaMask) ||| ((ac - 1) &&& 0xffff)
    else if c.advanced then dmaAdvance c ac
    else (ac &&& 0xffff0000 &&& c.dmaMask) ||| ((ac + 1) &&& 0xffff)
  else if has c.mode 0x20 then
    if c.advanced then dmaRetreat c ac else (ac &&& 0xfffe0000 &&& c.dmaMask) ||| ((ac - 2) &&& 0x1ffff)
  else if c.advanced then dmaAdvance c ac
  else (ac &&& 0xfffe0000 &&& c.dmaMask) ||| ((ac + 2) &&& 0x1ffff)

/-- The channel steps by words, in a page of 128 KiB. -/
def wide : Bool := if c.advanced then decide ((c.transferMode >>> 8).setWidth 32 = (2 : BitVec 32)) else c.size

def pageBits : BitVec 32 := if wide c then 0xfffe0000 else 0xffff0000

def autoInit : Bool := has c.mode 0x10

def serves (s : Dma) : Bool := !c.disabled && c.present && !s.masked && c.mode &&& 0xc = 8

/-- `cc--`, and what comes of it. -/
def countDown (s : Dma) : Bool × Dma :=
  let s := { s with cc := s.cc - 1 }
  if s.cc < 0 then
    (true,
      if autoInit c then { s with cc := c.cb.toNat, ac := c.ab, stat := true }
      else { s with masked := true, stat := true })
  else (false, s)

def dmaChannelAdvance (s : Dma) : Bool × Dma :=
  if s.advPend then
    let (tc, s) := countDown c s
    (tc, { s with advPend := false })
  else (false, s)

/-- The unit at the address, with the address moved on. -/
def transfer (fetch : BitVec 32 → BitVec 16) (s : Dma) : BitVec 16 × Dma :=
  (fetch s.ac, { s with ac := nextAddress c s.ac, statRq := true })

/-- Nothing stands for `DMA_NODATA`. -/
def dmaChannelReadOnly (fetch : BitVec 32 → BitVec 16) (s : Dma) : Option (BitVec 16) × Dma :=
  if serves c s then
    let (temp, s) := transfer c fetch (dmaChannelAdvance c s).2
    (some temp, { s with advPend := true })
  else (none, s)

/-- With the unit comes `DMA_OVER`. -/
def dmaChannelRead (fetch : BitVec 32 → BitVec 16) (s : Dma) : Option (BitVec 16 × Bool) × Dma :=
  if serves c s then
    let (temp, s) := transfer c fetch (if s.advPend then (dmaChannelAdvance c s).2 else s)
    let (tc, s) := countDown c s
    (some (temp, tc), s)
  else (none, s)

/-- `fetch` is what a read of the channel's width finds in memory at the time. -/
inductive Event where
  | request (only : Bool) (fetch : BitVec 32 → BitVec 16)
  | advance
  | mask (on : Bool)

def serve (only : Bool) (fetch : BitVec 32 → BitVec 16) (s : Dma) : Option (BitVec 16) × Dma :=
  if only then dmaChannelReadOnly c fetch s
  else
    let (temp, s) := dmaChannelRead c fetch s
    (temp.map Prod.fst, s)

/-- The channel beside one that `dma_channel_read` serves alone. -/
structure Pair where
  dev : Dma
  ref : Dma
  /-- The mask register has been written since the last unit. -/
  rewritten : Bool
  requests : ℕ
  units : ℕ

def channel : Machine Pair Event (Option (BitVec 16)) where
  step x e :=
    match e with
    | .request only fetch =>
      let (data, dev) := serve c only fetch x.dev
      ({ dev
         ref := (serve c false fetch x.ref).2
         rewritten := if data.isSome then false else x.rewritten
         requests := x.requests + 1
         units := if data.isSome then x.units + 1 else x.units }, some data)
    | .advance => ({ x with dev := (dmaChannelAdvance c x.dev).2 }, none)
    | .mask on =>
      ({ x with
          dev := { x.dev with masked := on }
          ref := { x.ref with masked := on }
          rewritten := true }, none)

def programmed (stat statRq : Bool) : Pair :=
  let s : Dma := { ac := c.ab, cc := c.cb.toNat, masked := false, stat, statRq, advPend := false }
  { dev := s, ref := s, rewritten := false, requests := 0, units := 0 }

structure Level (x : Pair) : Prop where
  ac : x.dev.ac = x.ref.ac
  cc : x.dev.cc = x.ref.cc
  masked : x.dev.masked = x.ref.masked
  stat : x.dev.stat = x.ref.stat

/-- A request brings the same unit, and with nothing left to count the registers are the same. -/
def Agrees (x : Pair) (e : Event) : Prop :=
  match e with
  | .request only fetch =>
    (serve c only fetch x.dev).1 = (serve c false fetch x.ref).1 ∧
      (((channel c).next x e).dev.advPend = false → Level ((channel c).next x e))
  | .advance => Level ((channel c).next x e)
  | .mask _ => True

/-- The address register is the same after every request. -/
def AgreesInAddress (x : Pair) (e : Event) : Prop :=
  match e with
  | .request _ _ => ((channel c).next x e).dev.ac = ((channel c).next x e).ref.ac
  | _ => True

def due (s : Dma) : Bool := s.advPend && s.cc ≤ 0 && !autoInit c

/-- The last unit's count is not left to a request that the mask lets through because of it, nor to an advance after
the guest has unmasked the channel for more. -/
def Settles (x : Pair) : Event → Prop
  | .request _ _ => due c x.dev = true → x.dev.masked = false → x.rewritten = true
  | .advance => due c x.dev = true → x.dev.masked = false → x.rewritten = false
  | .mask _ => True

/-- The last unit of a block that begins anew is not taken without its count, unless the address comes round. -/
def ComesRound (x : Pair) : Event → Prop
  | .request true _ =>
    serves c x.dev = true → autoInit c = true → (dmaChannelAdvance c x.dev).2.cc ≤ 0 →
      nextAddress c (dmaChannelAdvance c x.dev).2.ac = c.ab
  | _ => True

def serving : Bool := !c.disabled && c.present && c.mode &&& 0xc = 8

def Event.writesMask : Event → Bool
  | .mask _ => true
  | _ => false

def progress (units : ℕ) : ℕ := if autoInit c then units % (c.cb.toNat + 1) else units

structure Scheduled (x : Pair) : Prop where
  units : x.units =
    if serving c then (if autoInit c then x.requests else min x.requests (c.cb.toNat + 1)) else 0
  ac : x.ref.ac = (nextAddress c)^[progress c x.units] c.ab
  cc : x.ref.cc = (c.cb.toNat : ℤ) - progress c x.units
  masked : x.ref.masked = (!autoInit c && decide (x.units = c.cb.toNat + 1))

structure InPage (x : Pair) : Prop where
  dev : x.dev.ac &&& pageBits c = c.ab &&& pageBits c
  ref : x.ref.ac &&& pageBits c = c.ab &&& pageBits c

/-- The two ways agree at every step of a run, on the units a block is to have and within its page. -/
structure Served (x : Pair) (es : List Event) : Prop where
  agrees : ∀ before e after, es = before ++ e :: after → Agrees c ((channel c).run x before) e
  scheduled : ∀ before after, es = before ++ after → (∀ e ∈ before, e.writesMask = false) →
    Scheduled c ((channel c).run x before)
  inPage : ∀ before after, es = before ++ after → InPage c ((channel c).run x before)

variable {c}

theorem countDown_ac (s : Dma) :
    (countDown c s).2.ac = if s.cc ≤ 0 ∧ autoInit c = true then c.ab else s.ac := by
  have hcc : s.cc - 1 < 0 ↔ s.cc ≤ 0 := by omega
  rw [countDown]
  dsimp only
  simp only [hcc]
  cases autoInit c <;> by_cases hlast : s.cc ≤ 0 <;> simp [hlast]

theorem countDown_cc (s : Dma) :
    (countDown c s).2.cc = if s.cc ≤ 0 ∧ autoInit c = true then (c.cb.toNat : ℤ) else s.cc - 1 := by
  have hcc : s.cc - 1 < 0 ↔ s.cc ≤ 0 := by omega
  rw [countDown]
  dsimp only
  simp only [hcc]
  cases autoInit c <;> by_cases hlast : s.cc ≤ 0 <;> simp [hlast]

theorem countDown_masked (s : Dma) :
    (countDown c s).2.masked = (s.masked || (decide (s.cc ≤ 0) && !autoInit c)) := by
  have hcc : s.cc - 1 < 0 ↔ s.cc ≤ 0 := by omega
  rw [countDown]
  dsimp only
  simp only [hcc]
  cases autoInit c <;> by_cases hlast : s.cc ≤ 0 <;> simp [hlast]

theorem countDown_stat (s : Dma) : (countDown c s).2.stat = (s.stat || decide (s.cc ≤ 0)) := by
  have hcc : s.cc - 1 < 0 ↔ s.cc ≤ 0 := by omega
  rw [countDown]
  dsimp only
  simp only [hcc]
  cases autoInit c <;> by_cases hlast : s.cc ≤ 0 <;> simp [hlast]

theorem countDown_advPend (s : Dma) : (countDown c s).2.advPend = s.advPend := by
  rw [countDown]
  split_ifs <;> rfl

def settled (c : Setup) (s : Dma) : Dma := (dmaChannelAdvance c s).2

theorem settled_of_still {s : Dma} (h : s.advPend = false) : settled c s = s := by
  rw [settled, dmaChannelAdvance, h]
  rfl

theorem settled_of_pend {s : Dma} (h : s.advPend = true) :
    settled c s = { (countDown c s).2 with advPend := false } := by
  rw [settled, dmaChannelAdvance, h]
  rfl

theorem settled_advPend (s : Dma) : (settled c s).advPend = false := by
  cases h : s.advPend with
  | false => rw [settled_of_still h, h]
  | true => rw [settled_of_pend h]

theorem settled_masked (s : Dma) : (settled c s).masked = (s.masked || due c s) := by
  cases h : s.advPend with
  | false => simp [settled_of_still h, due, h]
  | true => simp [settled_of_pend h, due, h, countDown_masked]

theorem settled_cc_of_due {s : Dma} (h : due c s = true) : (settled c s).cc < 0 ∧ autoInit c = false := by
  simp only [due, Bool.and_eq_true, decide_eq_true_eq, Bool.not_eq_true'] at h
  obtain ⟨⟨hpend, hcc⟩, hauto⟩ := h
  rw [settled_of_pend hpend]
  simp only [countDown_cc, hauto]
  refine ⟨?_, trivial⟩
  rw [if_neg (by simp)]
  omega

/-- The channel after a unit that is still to be counted. -/
def moved (c : Setup) (s : Dma) : Dma :=
  { settled c s with ac := nextAddress c (settled c s).ac, statRq := true }

theorem serve_refused {s : Dma} (h : serves c s = false) (only : Bool) (fetch : BitVec 32 → BitVec 16) :
    serve c only fetch s = (none, s) := by
  cases only <;> simp [serve, dmaChannelRead, dmaChannelReadOnly, h]

theorem serve_only {s : Dma} (h : serves c s = true) (fetch : BitVec 32 → BitVec 16) :
    serve c true fetch s = (some (fetch (settled c s).ac), { moved c s with advPend := true }) := by
  simp [serve, dmaChannelReadOnly, h, transfer, moved, settled]

theorem serve_read {s : Dma} (h : serves c s = true) (fetch : BitVec 32 → BitVec 16) :
    serve c false fetch s = (some (fetch (settled c s).ac), (countDown c (moved c s)).2) := by
  cases hpend : s.advPend with
  | false => simp [serve, dmaChannelRead, h, transfer, moved, hpend, settled_of_still hpend]
  | true => simp [serve, dmaChannelRead, h, transfer, moved, hpend, settled]

structure Inv (c : Setup) (x : Pair) : Prop where
  ref : x.ref.advPend = false
  ac : (settled c x.dev).ac = x.ref.ac
  cc : (settled c x.dev).cc = x.ref.cc
  stat : (settled c x.dev).stat = x.ref.stat
  masked : x.ref.masked =
    if x.dev.advPend && x.rewritten then x.dev.masked else (settled c x.dev).masked

theorem Inv.level {x : Pair} (h : Inv c x) (hstill : x.dev.advPend = false) : Level x := by
  have hsettled := settled_of_still (c := c) hstill
  have hmasked := h.masked
  rw [hsettled, hstill, Bool.false_and, if_neg Bool.false_ne_true] at hmasked
  exact ⟨hsettled ▸ h.ac, hsettled ▸ h.cc, hmasked.symm, hsettled ▸ h.stat⟩

theorem Inv.masked_iff {x : Pair} (h : Inv c x) :
    x.dev.masked = x.ref.masked ↔ (due c x.dev = true → x.dev.masked = false → x.rewritten = true) := by
  rw [h.masked, settled_masked]
  cases hpend : x.dev.advPend with
  | false =>
    have hdue : due c x.dev = false := by simp [due, hpend]
    simp [hdue]
  | true =>
    cases x.rewritten <;> cases x.dev.masked <;> cases due c x.dev <;> simp

theorem serves_eq {x : Pair} (h : x.dev.masked = x.ref.masked) : serves c x.dev = serves c x.ref := by
  rw [serves, serves, h]

theorem moved_countDown {x : Pair} (h : Inv c x) (hdev : x.dev.masked = false) (href : x.ref.masked = false) :
    (countDown c (moved c x.dev)).2.ac = (countDown c (moved c x.ref)).2.ac ∧
      (countDown c (moved c x.dev)).2.cc = (countDown c (moved c x.ref)).2.cc ∧
      (countDown c (moved c x.dev)).2.stat = (countDown c (moved c x.ref)).2.stat ∧
      (countDown c (moved c x.dev)).2.masked = (countDown c (moved c x.ref)).2.masked := by
  have hsettled := settled_of_still (c := c) h.ref
  have hac : (moved c x.dev).ac = (moved c x.ref).ac := by
    simp only [moved, hsettled, h.ac]
  have hcc : (moved c x.dev).cc = (moved c x.ref).cc := by
    simp only [moved, hsettled, h.cc]
  have hstat : (moved c x.dev).stat = (moved c x.ref).stat := by
    simp only [moved, hsettled, h.stat]
  refine ⟨?_, ?_, ?_, ?_⟩
  · rw [countDown_ac, countDown_ac, hac, hcc]
  · rw [countDown_cc, countDown_cc, hcc]
  · rw [countDown_stat, countDown_stat, hstat, hcc]
  · rw [countDown_masked, countDown_masked, hcc]
    have hmasked : (moved c x.dev).masked = due c x.dev := by
      simp [moved, settled_masked, hdev]
    have hmasked' : (moved c x.ref).masked = false := by
      simp [moved, hsettled, href]
    rw [hmasked, hmasked']
    cases hdue : due c x.dev with
    | false => rfl
    | true =>
      -- the count is below zero already, so that the unit ends its block again
      obtain ⟨hneg, hauto⟩ := settled_cc_of_due hdue
      have hlast : (moved c x.ref).cc ≤ 0 := by
        rw [← hcc]
        exact Int.le_of_lt hneg
      simp [hlast, hauto]

theorem moved_advPend (s : Dma) : (countDown c (moved c s)).2.advPend = false := by
  rw [countDown_advPend]
  exact settled_advPend s

theorem next_refused {x : Pair} (only : Bool) (fetch : BitVec 32 → BitVec 16) (hdev : serves c x.dev = false)
    (href : serves c x.ref = false) :
    (channel c).next x (.request only fetch) = { x with requests := x.requests + 1 } := by
  simp [Machine.next, channel, serve_refused hdev, serve_refused href]

theorem next_served {x : Pair} (only : Bool) (fetch : BitVec 32 → BitVec 16) (hdev : serves c x.dev = true)
    (href : serves c x.ref = true) :
    (channel c).next x (.request only fetch) =
      { dev := if only then { moved c x.dev with advPend := true } else (countDown c (moved c x.dev)).2
        ref := (countDown c (moved c x.ref)).2
        rewritten := false
        requests := x.requests + 1
        units := x.units + 1 } := by
  cases only with
  | false => simp [Machine.next, channel, serve_read hdev, serve_read href]
  | true => simp [Machine.next, channel, serve_only hdev, serve_read href]

theorem unmasked_of_serves {s : Dma} (h : serves c s = true) : s.masked = false := by
  simp only [serves, Bool.and_eq_true, Bool.not_eq_true'] at h
  exact h.1.2

theorem request_inv {x : Pair} (h : Inv c x) (only : Bool) (fetch : BitVec 32 → BitVec 16)
    (hmasked : x.dev.masked = x.ref.masked) : Inv c ((channel c).next x (.request only fetch)) := by
  have hserves := serves_eq (c := c) hmasked
  cases href : serves c x.ref with
  | false =>
    rw [next_refused only fetch (hserves.trans href) href]
    exact ⟨h.ref, h.ac, h.cc, h.stat, h.masked⟩
  | true =>
    have hdev := hserves.trans href
    obtain ⟨hac, hcc, hstat, hmask⟩ := moved_countDown h (unmasked_of_serves hdev) (unmasked_of_serves href)
    rw [next_served only fetch hdev href]
    cases only with
    | false =>
      have hsettled : settled c (countDown c (moved c x.dev)).2 = (countDown c (moved c x.dev)).2 :=
        settled_of_still (moved_advPend x.dev)
      refine ⟨moved_advPend x.ref, ?_, ?_, ?_, ?_⟩
      · simpa [hsettled] using hac
      · simpa [hsettled] using hcc
      · simpa [hsettled] using hstat
      · simpa [hsettled] using hmask.symm
    | true =>
      have hsettled : settled c { moved c x.dev with advPend := true } =
          { (countDown c { moved c x.dev with advPend := true }).2 with advPend := false } :=
        settled_of_pend rfl
      have hsame : { (countDown c { moved c x.dev with advPend := true }).2 with advPend := false } =
          (countDown c (moved c x.dev)).2 := by
        have hstill := moved_advPend (c := c) x.dev
        simp only [countDown] at hstill ⊢
        split_ifs at hstill ⊢ <;> simp_all
      rw [hsame] at hsettled
      refine ⟨moved_advPend x.ref, ?_, ?_, ?_, ?_⟩
      · simpa [hsettled] using hac
      · simpa [hsettled] using hcc
      · simpa [hsettled] using hstat
      · simpa [hsettled] using hmask.symm

theorem advance_inv {x : Pair} (h : Inv c x)
    (hok : due c x.dev = true → x.dev.masked = false → x.rewritten = false) :
    Inv c ((channel c).next x .advance) := by
  have hnext : (channel c).next x .advance = { x with dev := settled c x.dev } := rfl
  have hsettled : settled c (settled c x.dev) = settled c x.dev := settled_of_still (settled_advPend x.dev)
  rw [hnext]
  refine ⟨h.ref, ?_, ?_, ?_, ?_⟩
  · simpa [hsettled] using h.ac
  · simpa [hsettled] using h.cc
  · simpa [hsettled] using h.stat
  · simp only [hsettled, settled_advPend, Bool.false_and, if_neg Bool.false_ne_true]
    rw [h.masked, settled_masked]
    cases hpend : x.dev.advPend with
    | false => simp
    | true =>
      cases hdue : due c x.dev <;> cases hm : x.dev.masked <;> cases hr : x.rewritten <;> simp_all

theorem mask_inv {x : Pair} (h : Inv c x) (on : Bool) : Inv c ((channel c).next x (.mask on)) := by
  have hnext : (channel c).next x (.mask on) =
      { x with dev := { x.dev with masked := on }, ref := { x.ref with masked := on }, rewritten := true } := rfl
  rw [hnext]
  have hac := h.ac
  have hcc := h.cc
  have hstat := h.stat
  cases hpend : x.dev.advPend with
  | false =>
    rw [settled_of_still hpend] at hac hcc hstat
    have hsettled : settled c { x.dev with masked := on } = { x.dev with masked := on } := settled_of_still hpend
    refine ⟨h.ref, by simpa [hsettled] using hac, by simpa [hsettled] using hcc, by simpa [hsettled] using hstat, ?_⟩
    change on = if x.dev.advPend && true then on else (settled c { x.dev with masked := on }).masked
    rw [hsettled, ite_self]
  | true =>
    have hsettled : settled c { x.dev with masked := on } =
        { (countDown c { x.dev with masked := on }).2 with advPend := false } := settled_of_pend hpend
    rw [settled_of_pend hpend] at hac hcc hstat
    dsimp only at hac hcc hstat
    rw [countDown_ac] at hac
    rw [countDown_cc] at hcc
    rw [countDown_stat] at hstat
    refine ⟨h.ref, ?_, ?_, ?_, by simp [hpend]⟩
    · simpa [hsettled, countDown_ac] using hac
    · simpa [hsettled, countDown_cc] using hcc
    · simpa [hsettled, countDown_stat] using hstat

theorem next_inv {x : Pair} {e : Event} (hok : Settles c x e) (h : Inv c x) : Inv c ((channel c).next x e) := by
  cases e with
  | request only fetch => exact request_inv h only fetch (h.masked_iff.mpr hok)
  | advance => exact advance_inv h hok
  | mask on => exact mask_inv h on

theorem agrees {x : Pair} {e : Event} (hok : Settles c x e) (h : Inv c x) : Agrees c x e := by
  cases e with
  | request only fetch =>
    have hmasked := h.masked_iff.mpr hok
    have hserves := serves_eq (c := c) hmasked
    refine ⟨?_, (request_inv h only fetch hmasked).level⟩
    cases href : serves c x.ref with
    | false => rw [serve_refused (hserves.trans href), serve_refused href]
    | true =>
      have hsettled := settled_of_still (c := c) h.ref
      rw [serve_read href, hsettled, ← h.ac]
      cases only with
      | false => rw [serve_read (hserves.trans href)]
      | true => rw [serve_only (hserves.trans href)]
  | advance => exact (advance_inv h hok).level (settled_advPend x.dev)
  | mask on => trivial

theorem settles_of_agrees {x : Pair} {e : Event} (h : Inv c x)
    (hserving : x.dev.advPend = true → serves c { x.dev with masked := false } = true) (hagrees : Agrees c x e) :
    Settles c x e := by
  cases e with
  | request only fetch =>
    intro hdue hmasked
    by_contra hfresh
    have hne : x.dev.masked ≠ x.ref.masked := by
      intro heq
      exact hfresh (h.masked_iff.mp heq hdue hmasked)
    have href : x.ref.masked = true := by
      rw [hmasked] at hne
      simpa using hne.symm
    have hpend : x.dev.advPend = true := by
      simp only [due, Bool.and_eq_true] at hdue
      exact hdue.1.1
    have hdevServes : serves c x.dev = true := by
      rw [← hserving hpend]
      simp [serves, hmasked]
    have hrefServes : serves c x.ref = false := by simp [serves, href]
    have hdata := hagrees.1
    rw [serve_refused hrefServes] at hdata
    cases only with
    | false =>
      rw [serve_read hdevServes] at hdata
      cases hdata
    | true =>
      rw [serve_only hdevServes] at hdata
      cases hdata
  | advance =>
    intro hdue hmasked
    have hpend : x.dev.advPend = true := by
      simp only [due, Bool.and_eq_true] at hdue
      exact hdue.1.1
    have hlevel : (settled c x.dev).masked = x.ref.masked := hagrees.masked
    rw [settled_masked, hdue, Bool.or_true, h.masked, hpend, Bool.true_and] at hlevel
    cases hr : x.rewritten with
    | false => rfl
    | true =>
      rw [hr, if_pos rfl, hmasked] at hlevel
      cases hlevel
  | mask on => trivial

theorem serving_next {x : Pair} (h : x.dev.advPend = true → serves c { x.dev with masked := false } = true)
    (e : Event) :
    ((channel c).next x e).dev.advPend = true →
      serves c { ((channel c).next x e).dev with masked := false } = true := by
  have hconst (s s' : Dma) (hs : serves c s = true) : serves c { s' with masked := false } = true := by
    simp only [serves, Bool.and_eq_true, Bool.not_false, and_true] at hs ⊢
    exact ⟨hs.1.1, hs.2⟩
  cases e with
  | request only fetch =>
    cases hserves : serves c x.dev with
    | true => exact fun _ => hconst _ _ hserves
    | false =>
      intro hpend
      have hdev : ((channel c).next x (.request only fetch)).dev = x.dev := by
        simp [Machine.next, channel, serve_refused hserves]
      rw [hdev] at hpend ⊢
      exact h hpend
  | advance =>
    intro hpend
    have hstill : ((channel c).next x .advance).dev.advPend = false := settled_advPend x.dev
    rw [hstill] at hpend
    cases hpend
  | mask on => exact h

theorem programmed_inv (c : Setup) (stat statRq : Bool) : Inv c (programmed c stat statRq) := by
  have hsettled : settled c (programmed c stat statRq).dev = (programmed c stat statRq).dev :=
    settled_of_still rfl
  refine ⟨rfl, ?_, ?_, ?_, ?_⟩ <;> rw [hsettled] <;> rfl

theorem address_of_round {x : Pair} {e : Event} (hok : Settles c x e) (hround : ComesRound c x e) (h : Inv c x)
    (hac : x.dev.ac = x.ref.ac) : ((channel c).next x e).dev.ac = ((channel c).next x e).ref.ac := by
  cases e with
  | request only fetch =>
    have hmasked := h.masked_iff.mpr hok
    have hserves := serves_eq (c := c) hmasked
    cases href : serves c x.ref with
    | false =>
      rw [next_refused only fetch (hserves.trans href) href]
      exact hac
    | true =>
      have hdev := hserves.trans href
      obtain ⟨hboth, -⟩ := moved_countDown h (unmasked_of_serves hdev) (unmasked_of_serves href)
      rw [next_served only fetch hdev href]
      cases only with
      | false => exact hboth
      | true =>
        dsimp only
        rw [if_pos rfl, ← hboth, countDown_ac]
        split_ifs with hlast
        · exact hround hdev hlast.2 hlast.1
        · rfl
  | advance => exact ((advance_inv h hok).level (settled_advPend x.dev)).ac
  | mask on => exact hac

theorem round_of_address {x : Pair} {e : Event} (hok : Settles c x e) (h : Inv c x)
    (haddress : AgreesInAddress c x e) : ComesRound c x e := by
  cases e with
  | request only fetch =>
    cases only with
    | false => trivial
    | true =>
      intro hdev hauto hlast
      have hmasked := h.masked_iff.mpr hok
      have href := (serves_eq (c := c) hmasked).symm.trans hdev
      obtain ⟨hboth, -⟩ := moved_countDown h (unmasked_of_serves hdev) (unmasked_of_serves href)
      simp only [AgreesInAddress, next_served true fetch hdev href, if_true] at haddress
      rw [← hboth, countDown_ac, if_pos ⟨hlast, hauto⟩] at haddress
      exact haddress
  | advance => trivial
  | mask on => trivial

theorem page_keep (m mask x y : BitVec 32) : ((x &&& m &&& mask) ||| (y &&& ~~~m)) &&& m = x &&& m &&& mask := by
  apply BitVec.eq_of_getLsbD_eq
  intro i hi
  simp only [BitVec.getLsbD_and, BitVec.getLsbD_or, BitVec.getLsbD_not, hi, decide_true, Bool.true_and]
  cases x.getLsbD i <;> cases y.getLsbD i <;> cases m.getLsbD i <;> cases mask.getLsbD i <;> rfl

theorem nextAddress_eq (c : Setup) (ac : BitVec 32) :
    ∃ y, nextAddress c ac = (ac &&& pageBits c &&& c.dmaMask) ||| (y &&& ~~~pageBits c) := by
  have hlow : (0xffff : BitVec 32) = ~~~0xffff0000 := by decide
  have hlow' : (0x1ffff : BitVec 32) = ~~~0xfffe0000 := by decide
  cases hadvanced : c.advanced with
  | true =>
    by_cases has : (c.transferMode >>> 8).setWidth 32 = (2 : BitVec 32)
    · simp only [nextAddress, dmaRetreat, dmaAdvance, pageBits, wide, hadvanced, has, decide_true, if_true,
        hlow']
      split_ifs <;> exact ⟨_, rfl⟩
    · simp only [nextAddress, dmaRetreat, dmaAdvance, pageBits, wide, hadvanced, has, decide_false, if_true,
        Bool.false_eq_true, if_false, hlow]
      split_ifs <;> exact ⟨_, rfl⟩
  | false =>
    cases hsize : c.size with
    | true =>
      simp only [nextAddress, pageBits, wide, hadvanced, hsize, Bool.false_eq_true, if_false, if_true, hlow',
        Bool.true_eq_false]
      split_ifs <;> exact ⟨_, rfl⟩
    | false =>
      simp only [nextAddress, pageBits, wide, hadvanced, hsize, Bool.false_eq_true, if_false, if_true, hlow]
      split_ifs <;> exact ⟨_, rfl⟩

theorem base_masked (c : Setup) : c.ab &&& pageBits c &&& c.dmaMask = c.ab &&& pageBits c := by
  have hpage := c.page_masked
  rw [pageBits]
  split
  · have hwide : (0xfffe0000 : BitVec 32) = 0xffff0000 &&& 0xfffe0000 := by decide
    rw [hwide, ← BitVec.and_assoc, BitVec.and_assoc (c.ab &&& 0xffff0000), BitVec.and_comm 0xfffe0000, ← BitVec.and_assoc,
      hpage]
  · exact hpage

theorem nextAddress_page {ac : BitVec 32} (h : ac &&& pageBits c = c.ab &&& pageBits c) :
    nextAddress c ac &&& pageBits c = c.ab &&& pageBits c := by
  obtain ⟨y, hy⟩ := nextAddress_eq c ac
  rw [hy, page_keep, h, base_masked]

theorem countDown_page {s : Dma} (h : s.ac &&& pageBits c = c.ab &&& pageBits c) :
    (countDown c s).2.ac &&& pageBits c = c.ab &&& pageBits c := by
  rw [countDown_ac]
  split_ifs
  · rfl
  · exact h

theorem settled_page {s : Dma} (h : s.ac &&& pageBits c = c.ab &&& pageBits c) :
    (settled c s).ac &&& pageBits c = c.ab &&& pageBits c := by
  cases hpend : s.advPend with
  | false => rwa [settled_of_still hpend]
  | true =>
    rw [settled_of_pend hpend]
    exact countDown_page h

theorem serve_page {s : Dma} (h : s.ac &&& pageBits c = c.ab &&& pageBits c) (only : Bool)
    (fetch : BitVec 32 → BitVec 16) : (serve c only fetch s).2.ac &&& pageBits c = c.ab &&& pageBits c := by
  have hmoved : (moved c s).ac &&& pageBits c = c.ab &&& pageBits c := nextAddress_page (settled_page h)
  cases hserves : serves c s with
  | false => rwa [serve_refused hserves]
  | true =>
    cases only with
    | false =>
      rw [serve_read hserves]
      exact countDown_page hmoved
    | true =>
      rw [serve_only hserves]
      exact hmoved

theorem inPage_next {x : Pair} (e : Event) (h : InPage c x) : InPage c ((channel c).next x e) := by
  cases e with
  | request only fetch => exact ⟨serve_page h.dev only fetch, serve_page h.ref false fetch⟩
  | advance => exact ⟨settled_page h.dev, h.ref⟩
  | mask on => exact ⟨h.dev, h.ref⟩

theorem add_one_mod (u n : ℕ) : (u + 1) % (n + 1) = if u % (n + 1) = n then 0 else u % (n + 1) + 1 := by
  have hlt : u % (n + 1) < n + 1 := Nat.mod_lt u (Nat.succ_pos n)
  have hsplit := Nat.div_add_mod u (n + 1)
  have hmod : (u + 1) % (n + 1) = (u % (n + 1) + 1) % (n + 1) := by
    conv_lhs => rw [← hsplit, Nat.add_assoc, Nat.mul_add_mod]
  rw [hmod]
  split_ifs with hlast
  · rw [hlast, Nat.mod_self]
  · exact Nat.mod_eq_of_lt (by omega)

theorem serves_eq_serving {s : Dma} (h : s.masked = false) : serves c s = serving c := by
  simp [serves, serving, h]

theorem request_scheduled {x : Pair} (hinv : Inv c x) (only : Bool) (fetch : BitVec 32 → BitVec 16)
    (hmasked : x.dev.masked = x.ref.masked) (h : Scheduled c x) :
    Scheduled c ((channel c).next x (.request only fetch)) := by
  have hserves := serves_eq (c := c) hmasked
  obtain ⟨hunits, hac, hcc, hmask⟩ := h
  cases href : serves c x.ref with
  | false =>
    rw [next_refused only fetch (hserves.trans href) href]
    refine ⟨?_, hac, hcc, hmask⟩
    cases hm : x.ref.masked with
    | false =>
      rw [serves_eq_serving hm] at href
      simpa [href] using hunits
    | true =>
      -- the block is over
      rw [hm] at hmask
      simp only [Bool.true_eq, Bool.and_eq_true, Bool.not_eq_true', decide_eq_true_eq] at hmask
      obtain ⟨hauto, hover⟩ := hmask
      dsimp only
      rw [hauto] at hunits ⊢
      cases hon : serving c with
      | false =>
        rw [hon] at hunits
        simpa using hunits
      | true =>
        rw [hon] at hunits
        simp only [if_true, Bool.false_eq_true, if_false] at hunits ⊢
        omega
  | true =>
    rw [next_served only fetch (hserves.trans href) href]
    have hfree := unmasked_of_serves href
    have hon := (serves_eq_serving hfree).symm.trans href
    have hsettled := settled_of_still (c := c) hinv.ref
    rw [hfree] at hmask
    rw [hon] at hunits
    simp only [if_true] at hunits
    have hmovedAc : (moved c x.ref).ac = (nextAddress c)^[progress c x.units + 1] c.ab := by
      rw [Function.iterate_succ_apply', ← hac, moved, hsettled]
    have hmovedCc : (moved c x.ref).cc = (c.cb.toNat : ℤ) - progress c x.units := by
      rw [moved, hsettled]
      exact hcc
    have hmovedMasked : (moved c x.ref).masked = false := by
      rw [moved, hsettled]
      exact hfree
    cases hauto : autoInit c with
    | true =>
      rw [hauto] at hunits
      simp only [if_true] at hunits
      have hprogress : progress c (x.units + 1) =
          if progress c x.units = c.cb.toNat then 0 else progress c x.units + 1 := by
        simp only [progress, hauto, if_true]
        exact add_one_mod _ _
      have hbound : progress c x.units ≤ c.cb.toNat := by
        simp only [progress, hauto, if_true]
        exact Nat.le_of_lt_succ (Nat.mod_lt _ (Nat.succ_pos _))
      have hlast : (moved c x.ref).cc ≤ 0 ↔ progress c x.units = c.cb.toNat := by
        rw [hmovedCc]
        omega
      refine ⟨by simp [hon, hauto, hunits], ?_, ?_, ?_⟩
      · dsimp only
        rw [countDown_ac, hprogress, hmovedAc]
        simp only [hlast, hauto, and_true]
        split_ifs <;> rfl
      · dsimp only
        rw [countDown_cc, hprogress, hmovedCc]
        rw [hmovedCc] at hlast
        simp only [hlast, hauto, and_true]
        split_ifs <;> omega
      · dsimp only
        rw [countDown_masked, hmovedMasked]
        simp [hauto]
    | false =>
      have hmore : x.units ≠ c.cb.toNat + 1 := by simpa [hauto] using hmask
      simp only [hauto, Bool.false_eq_true, if_false] at hunits
      have hprogress (u : ℕ) : progress c u = u := by simp [progress, hauto]
      rw [hprogress] at hmovedAc hmovedCc
      refine ⟨?_, ?_, ?_, ?_⟩
      · simp only [hon, hauto, if_true, Bool.false_eq_true, if_false]
        omega
      · dsimp only
        rw [countDown_ac, hmovedAc, hprogress]
        simp [hauto]
      · dsimp only
        rw [countDown_cc, hmovedCc, hprogress]
        simp only [hauto, Bool.false_eq_true, and_false, if_false]
        omega
      · dsimp only
        rw [countDown_masked, hmovedMasked, hmovedCc, hauto]
        simp only [Bool.false_or, Bool.not_false, Bool.and_true, Bool.true_and]
        apply decide_eq_decide.mpr
        omega

theorem programmed_scheduled (c : Setup) (stat statRq : Bool) : Scheduled c (programmed c stat statRq) := by
  have hnone : progress c 0 = 0 := by simp [progress]
  refine ⟨?_, ?_, ?_, ?_⟩
  · simp [programmed]
  · simp [programmed, hnone]
  · simp [programmed, hnone]
  · simp [programmed]

theorem next_scheduled {x : Pair} {e : Event} (hok : Settles c x e) (hmask : e.writesMask = false) (hinv : Inv c x)
    (h : Scheduled c x) : Scheduled c ((channel c).next x e) := by
  cases e with
  | request only fetch => exact request_scheduled hinv only fetch (hinv.masked_iff.mpr hok) h
  | advance => exact ⟨h.units, h.ac, h.cc, h.masked⟩
  | mask on => cases hmask

theorem prefix_along {ok : Pair → Event → Prop} {x : Pair} {es before after : List Event}
    (h : (channel c).Along ok x es) (hsplit : es = before ++ after) : (channel c).Along ok x before := by
  subst hsplit
  induction before generalizing x with
  | nil => trivial
  | cons e before ih => exact ⟨h.1, ih h.2⟩

theorem run_scheduled {x : Pair} (hinv : Inv c x) (h : Scheduled c x) {es : List Event}
    (hok : (channel c).Along (Settles c) x es) (hmask : ∀ e ∈ es, e.writesMask = false) :
    Scheduled c ((channel c).run x es) := by
  induction es generalizing x with
  | nil => exact h
  | cons e es ih =>
    have he := hmask e (by simp)
    have hes : ∀ e' ∈ es, e'.writesMask = false := fun e' he' => hmask e' (by simp [he'])
    exact ih (next_inv hok.1 hinv) (next_scheduled hok.1 he hinv h) hok.2 hes

/-- The channel as it is programmed, with what else its bits of the status registers may be. -/
structure Fresh (c : Setup) (x : Pair) : Prop where
  inv : Inv c x
  serving : x.dev.advPend = true → serves c { x.dev with masked := false } = true

theorem fresh_next {x : Pair} {e : Event} (hok : Settles c x e) (h : Fresh c x) : Fresh c ((channel c).next x e) :=
  ⟨next_inv hok h.inv, serving_next h.serving e⟩

theorem programmed_fresh (c : Setup) (stat statRq : Bool) : Fresh c (programmed c stat statRq) :=
  ⟨programmed_inv c stat statRq, fun h => by cases h⟩

theorem agrees_iff (stat statRq : Bool) (es : List Event) :
    (∀ before e after, es = before ++ e :: after →
      Agrees c ((channel c).run (programmed c stat statRq) before) e) ↔
      (channel c).Along (Settles c) (programmed c stat statRq) es :=
  (channel c).along_iff_steps (fun _ _ hok h => fresh_next hok h) (fun _ _ hok h => agrees hok h.inv)
    (fun _ _ h hagrees => settles_of_agrees h.inv h.serving hagrees) (programmed_fresh c stat statRq) es

theorem address_iff (stat statRq : Bool) (es : List Event) :
    (∀ before e after, es = before ++ e :: after →
      Agrees c ((channel c).run (programmed c stat statRq) before) e ∧
        AgreesInAddress c ((channel c).run (programmed c stat statRq) before) e) ↔
      (channel c).Along (fun x e => Settles c x e ∧ ComesRound c x e) (programmed c stat statRq) es := by
  have hstep (x : Pair) (e : Event) (hok : Settles c x e ∧ ComesRound c x e)
      (h : Fresh c x ∧ x.dev.ac = x.ref.ac) :
      Fresh c ((channel c).next x e) ∧ ((channel c).next x e).dev.ac = ((channel c).next x e).ref.ac :=
    ⟨fresh_next hok.1 h.1, address_of_round hok.1 hok.2 h.1.inv h.2⟩
  refine (channel c).along_iff_steps (P := fun x e => Agrees c x e ∧ AgreesInAddress c x e) hstep
    (fun x e hok h => ⟨agrees hok.1 h.1.inv, ?_⟩) (fun x e h hboth => ?_) ⟨programmed_fresh c stat statRq, rfl⟩ es
  · have hac := address_of_round hok.1 hok.2 h.1.inv h.2
    cases e with
    | request only fetch => exact hac
    | advance => trivial
    | mask on => trivial
  · have hok := settles_of_agrees h.1.inv h.1.serving hboth.1
    exact ⟨hok, round_of_address hok h.1.inv hboth.2⟩

theorem along_of_both {x : Pair} {es : List Event}
    (h : (channel c).Along (fun x e => Settles c x e ∧ ComesRound c x e) x es) :
    (channel c).Along (Settles c) x es := by
  induction es generalizing x with
  | nil => trivial
  | cons e es ih => exact ⟨h.1.1, ih h.2⟩

theorem served_iff (stat statRq : Bool) (es : List Event) :
    Served c (programmed c stat statRq) es ↔
      (channel c).Along (Settles c) (programmed c stat statRq) es := by
  constructor
  · intro h
    exact (agrees_iff stat statRq es).mp h.agrees
  · intro hok
    refine ⟨(agrees_iff stat statRq es).mpr hok, fun before after hsplit hmask => ?_, fun before after _ => ?_⟩
    · have hbefore := prefix_along hok hsplit
      exact run_scheduled (programmed_inv c stat statRq) (programmed_scheduled c stat statRq) hbefore hmask
    · exact (channel c).run_invariant (fun x e h => inPage_next e h) ⟨rfl, rfl⟩ before

/-- The two ways agree on runs that never leave a block's last count to a request or to an advance after an unmasking,
and on those alone; in the address register too when no block that begins anew has its last unit taken without its
count. -/
theorem reads_agree (c : Setup) (stat statRq : Bool) (es : List Event) :
    (Served c (programmed c stat statRq) es ↔
      (channel c).Along (Settles c) (programmed c stat statRq) es) ∧
    ((Served c (programmed c stat statRq) es ∧
        ∀ before e after, es = before ++ e :: after →
          AgreesInAddress c ((channel c).run (programmed c stat statRq) before) e) ↔
      (channel c).Along (fun x e => Settles c x e ∧ ComesRound c x e) (programmed c stat statRq) es) := by
  refine ⟨served_iff stat statRq es, ?_⟩
  rw [← address_iff]
  constructor
  · rintro ⟨hserved, haddress⟩ before e after hsplit
    exact ⟨hserved.agrees before e after hsplit, haddress before e after hsplit⟩
  · intro hboth
    have hok := along_of_both ((address_iff stat statRq es).mp hboth)
    exact ⟨(served_iff stat statRq es).mpr hok, fun before e after hsplit => (hboth before e after hsplit).2⟩

def oneByte : Setup where
  disabled := false
  present := true
  mode := 0x48
  size := false
  advanced := false
  transferMode := 0x0101
  dmaMask := 0x00ffffff
  ab := 0x012340
  cb := 0
  page_masked := by decide

/-- A block of one byte gives two, when the first is taken without its count and the next is asked for. -/
theorem one_byte_twice :
    ¬∀ c stat statRq es, Served c (programmed c stat statRq) es := by
  intro h
  have hserved := h oneByte false false [.request true fun _ => 0, .request true fun _ => 0]
  have hagrees := hserved.agrees [.request true fun _ => 0] (.request true fun _ => 0) [] rfl
  have hdata := hagrees.1
  revert hdata
  decide

end PeepeeBox.DmaReads
