import PeepeeBox.SectorReads

set_option autoImplicit false

/-!
# The read in the background

A drive whose reads are started ahead of their callback, beside one whose reads are made by the
callback itself.
-/
namespace PeepeeBox.AsyncShadow
open AtaRange AtaTwins DataPort HdcIde HddImage HostFile IdeBoard ImageBounds SectorReads
open SectorWrites TraceMachine

/-- The board on which `ide_async_read_start` does nothing. -/
def foreground (cfg : BoardConfig) : BoardConfig := { cfg with background := false }

def drq (d : Drive) : Prop := d.tf.atastat &&& drqStat ≠ 0

instance (d : Drive) : Decidable (drq d) := inferInstanceAs (Decidable (_ ≠ _))

def IsFetch (c : Byte) : Prop := decode c = .read ∨ decode c = .readMultiple ∨ decode c = .readDma

theorem status_busy : ∀ x : Byte, (x &&& drqStat ≠ 0 → x &&& (bsyStat ||| drqStat) ≠ 0) ∧
    (x &&& bsyStat ≠ 0 → x &&& (bsyStat ||| drqStat) ≠ 0) := by
  decide +kernel

theorem drq_busy {d : Drive} (h : drq d) : busy d = true := decide_eq_true ((status_busy _).1 h)

theorem bsy_busy {d : Drive} (h : d.tf.atastat &&& bsyStat ≠ 0) : busy d = true := decide_eq_true ((status_busy _).2 h)

theorem read_decodes : ∀ c : Byte, (isPioRead c = true ↔ decode c = .read ∨ decode c = .readMultiple) ∧
    (c = winReadMultiple ↔ decode c = .readMultiple) ∧
    (decode c = .read ∨ decode c = .readMultiple ∨ decode c = .readDma →
      c ≠ winInvalid ∧ c ≠ winPacketcmd ∧ c ≠ winWriteMultiple) := by
  decide +kernel

theorem pio_decode (c : Byte) : isPioRead c = true ↔ decode c = .read ∨ decode c = .readMultiple := (read_decodes c).1

theorem multiple_decode (c : Byte) : c = winReadMultiple ↔ decode c = .readMultiple := (read_decodes c).2.1

theorem read_drq (c : Byte) (h : IsFetch c) : c ≠ winInvalid ∧ c ≠ winPacketcmd ∧ c ≠ winWriteMultiple :=
  (read_decodes c).2.2 h

def Usable (cfg : BoardConfig) : Prop := cfg.forceAta3 = false ∧ cfg.bm ≠ none

structure Own (d : Drive) (s n : BitVec 32) : Prop where
  sector : d.async.sector = s
  count : d.async.count = n
  result : d.async.complete = true → d.async.result = (hddImageRead d.image s n).isSome
  data : d.async.complete = true → ∀ data, hddImageRead d.image s n = some data →
    Buffered d.sectorBuffer data

structure Fetched (d : Drive) (sector count : ℕ) (sb : ℕ → Byte) (a : AsyncRead) : Prop where
  eq : initialRead d sector count =
    ({ d with sectorBuffer := sb, async := a },
      (hddImageRead d.image (BitVec.ofNat 32 sector) (BitVec.ofNat 32 count)).isSome)
  idle : a.pending = false
  data : ∀ data, hddImageRead d.image (BitVec.ofNat 32 sector) (BitVec.ofNat 32 count) = some data →
    Buffered sb data
  none : hddImageRead d.image (BitVec.ofNat 32 sector) (BitVec.ofNat 32 count) = none →
    sb = d.sectorBuffer

theorem work_own {d : Drive} {sector count : BitVec 32} (hpending : d.async.pending = true)
    (hown : Own d sector count) :
    ∃ sb : ℕ → Byte,
      asyncReadWork d =
        { d with
          sectorBuffer := sb
          async := { d.async with
            complete := true, result := (hddImageRead d.image sector count).isSome } } ∧
      (∀ data, hddImageRead d.image sector count = some data → Buffered sb data) ∧
      (hddImageRead d.image sector count = none → sb = d.sectorBuffer) := by
  unfold asyncReadWork
  cases hcomplete : d.async.complete with
  | true =>
    rw [if_neg fun h => Bool.false_ne_true h.2.symm, ← hown.result hcomplete]
    refine ⟨d.sectorBuffer, ?_, hown.data hcomplete, fun _ => rfl⟩
    rw [← hcomplete]
  | false =>
    rw [if_pos ⟨hpending, rfl⟩, hown.sector, hown.count]
    cases hread : hddImageRead d.image sector count with
    | none =>
      refine ⟨d.sectorBuffer, rfl, ?_, fun _ => rfl⟩
      intro data hdata
      cases hdata
    | some data =>
      refine ⟨overlay d.sectorBuffer data, rfl, ?_, ?_⟩
      · intro data' hdata
        rw [← Option.some.inj hdata]
        exact overlay_buffered _ _
      · intro hnone
        cases hnone

theorem initialRead_fetched {d : Drive} {sector count : ℕ}
    (hown : d.async.pending = true → Own d (BitVec.ofNat 32 sector) (BitVec.ofNat 32 count)) :
    ∃ (sb : ℕ → Byte) (a : AsyncRead), Fetched d sector count sb a := by
  cases hpending : d.async.pending with
  | true =>
    obtain ⟨sb, hwork, hdata, hnone⟩ := work_own hpending (hown hpending)
    refine ⟨sb,
      { d.async with
        pending := false
        complete := false
        result := (hddImageRead d.image (BitVec.ofNat 32 sector) (BitVec.ofNat 32 count)).isSome },
      ?_, rfl, hdata, hnone⟩
    unfold initialRead asyncReadFinish
    rw [if_pos hpending, hwork]
  | false =>
    have hfinish : asyncReadFinish d = (d, Option.none) := by
      unfold asyncReadFinish
      rw [if_neg (Bool.eq_false_iff.mp hpending)]
    cases hread : hddImageRead d.image (BitVec.ofNat 32 sector) (BitVec.ofNat 32 count) with
    | none =>
      refine ⟨d.sectorBuffer, d.async, ?_, hpending, ?_, fun _ => rfl⟩
      · unfold initialRead
        rw [hfinish]
        dsimp only
        rw [hread]
        rfl
      · intro data hdata
        rw [hread] at hdata
        cases hdata
    | some data =>
      refine ⟨overlay d.sectorBuffer data, d.async, ?_, hpending, ?_, ?_⟩
      · unfold initialRead
        rw [hfinish]
        dsimp only
        rw [hread]
        rfl
      · intro data' hdata
        rw [hread] at hdata
        rw [← Option.some.inj hdata]
        exact overlay_buffered _ _
      · intro hnone
        rw [hread] at hnone
        cases hnone

def under (d : Drive) (f : ℕ → Byte) (a : AsyncRead) : Drive :=
  { d with sectorBuffer := f, async := a }

structure Asked (cfg : BoardConfig) (d : Drive) : Prop where
  fetch : IsFetch d.command
  first : d.doInitialRead = true
  bsy : d.tf.atastat &&& bsyStat ≠ 0
  still : ¬ drq d
  range : outOfRange d = false
  block : decode d.command = .readMultiple → d.blocksize ≠ 0
  dma : decode d.command = .readDma → Usable cfg
  own : Own d (BitVec.ofNat 32 (ideGetSector d)) (BitVec.ofNat 32 (sectorCount d.tf))

def Live (d : Drive) : Prop :=
  IsFetch d.command ∧ d.doInitialRead = false ∧ (d.timer = true ∨ drq d)

def due (d : Drive) : ℕ :=
  if decode d.command = .readDma then sectorCount d.tf else d.sectorPos + sectorCount d.tf

def window (d : Drive) : ℕ := if decode d.command ≠ .readDma ∧ drq d then due d - 1 else due d

def AgreeTo (f g : ℕ → Byte) (n : ℕ) : Prop := ∀ i < 512 * n, f i = g i

structure Hidden (cfg : BoardConfig) (d : Drive) (f : ℕ → Byte) : Prop where
  complete : Complete d.image
  missing : d.image.file = none → f = d.sectorBuffer
  asked : d.async.pending = true → Asked cfg d
  occupied : Live d → d.image.file ≠ none → busy d = true
  agree : Live d → d.image.file ≠ none → AgreeTo f d.sectorBuffer (window d)
  single : decode d.command = .readMultiple → drq d → d.timer = false

inductive Shadow (cfg : BoardConfig) (d : Drive) : Drive → Prop where
  | under (f : ℕ → Byte) (a : AsyncRead) (idle : a.pending = false) (hidden : Hidden cfg d f) :
      Shadow cfg d (under d f a)

variable {cfg : BoardConfig}

theorem Hidden.quiet {d : Drive} {f : ℕ → Byte} (complete : Complete d.image)
    (missing : d.image.file = none → f = d.sectorBuffer) (idle : d.async.pending = false)
    (hlive : IsFetch d.command → d.image.file ≠ none → d.doInitialRead = true ∨ d.timer = false)
    (hdrq : IsFetch d.command → ¬ drq d) : Hidden cfg d f := by
  have hnot : Live d → d.image.file ≠ none → False := by
    rintro ⟨hfetch, hfirst, hshown⟩ hfile
    cases hlive hfetch hfile with
    | inl hinitial => exact absurd (hfirst.symm.trans hinitial) Bool.false_ne_true
    | inr htimer =>
      cases hshown with
      | inl harmed => exact absurd (htimer.symm.trans harmed) Bool.false_ne_true
      | inr h => exact hdrq hfetch h
  refine ⟨complete, missing, ?_, fun h hfile => (hnot h hfile).elim,
    fun h hfile => (hnot h hfile).elim, ?_⟩
  · intro hpending
    exact absurd (idle.symm.trans hpending) Bool.false_ne_true
  · intro hdecode h
    exact absurd h (hdrq (Or.inr (Or.inl hdecode)))

theorem Hidden.other {d : Drive} {f : ℕ → Byte} (complete : Complete d.image)
    (missing : d.image.file = none → f = d.sectorBuffer) (idle : d.async.pending = false)
    (hfetch : ¬ IsFetch d.command) : Hidden cfg d f :=
  Hidden.quiet complete missing idle (fun h _ => absurd h hfetch) fun h => absurd h hfetch

theorem Hidden.idle_of_drq {d : Drive} {f : ℕ → Byte} (h : Hidden cfg d f) (hdrq : drq d) :
    d.async.pending = false := by
  cases hpending : d.async.pending with
  | false => rfl
  | true => exact absurd hdrq (h.asked hpending).still

theorem Hidden.idle_of_rest {d : Drive} {f : ℕ → Byte} (h : Hidden cfg d f) (hrest : busy d = false) :
    d.async.pending = false := by
  cases hpending : d.async.pending with
  | false => rfl
  | true =>
    rw [bsy_busy (h.asked hpending).bsy] at hrest
    cases hrest

theorem Hidden.mark {d : Drive} {f : ℕ → Byte} (h : Hidden cfg d f) (irqstat service selected reset : Bool)
    (blockcount pos : ℕ) (buffer : ℕ → BitVec 16) (error : Byte) :
    Hidden cfg
      { d with
        irqstat := irqstat, service := service, selected := selected, reset := reset
        blockcount := blockcount, buffer := buffer, tf.pos := pos, tf.error := error } f := by
  refine ⟨h.complete, h.missing, ?_, h.occupied, h.agree, h.single⟩
  intro hpending
  have hasked := h.asked hpending
  have hown := hasked.own
  exact ⟨hasked.fetch, hasked.first, hasked.bsy, hasked.still, hasked.range, hasked.block, hasked.dma,
    ⟨hown.sector, hown.count, hown.result, hown.data⟩⟩

theorem Hidden.rest {d : Drive} {f : ℕ → Byte} (h : Hidden cfg d f) (hrest : busy d = false) (tf : Tf)
    (hstat : tf.atastat = d.tf.atastat) (lbaAddr : BitVec 32) :
    Hidden cfg { d with tf := tf, lbaAddr := lbaAddr } f := by
  have hdrq (hdrq : drq { d with tf := tf, lbaAddr := lbaAddr }) : drq d := by
    unfold drq at hdrq ⊢
    rw [← hstat]
    exact hdrq
  have hnot : Live { d with tf := tf, lbaAddr := lbaAddr } → d.image.file ≠ none → False := by
    intro hlive hfile
    have hbusy := h.occupied ⟨hlive.1, hlive.2.1, hlive.2.2.imp id hdrq⟩ hfile
    rw [hrest] at hbusy
    cases hbusy
  have hidle := h.idle_of_rest hrest
  refine ⟨h.complete, h.missing, ?_, fun hlive hfile => (hnot hlive hfile).elim,
    fun hlive hfile => (hnot hlive hfile).elim, fun hdecode hshown => h.single hdecode (hdrq hshown)⟩
  intro hpending
  exact absurd (hidle.symm.trans hpending) Bool.false_ne_true

theorem Shadow.map {d e : Drive} (h : Shadow cfg d e) (g : Drive → Drive)
    (hg : ∀ f a, g (AsyncShadow.under d f a) = AsyncShadow.under (g d) f a)
    (hidden : ∀ f, Hidden cfg d f → Hidden cfg (g d) f) : Shadow cfg (g d) (g e) := by
  cases h with
  | under f a idle h =>
    rw [hg]
    exact Shadow.under f a idle (hidden f h)

theorem Shadow.same_tf {d e : Drive} (h : Shadow cfg d e) : e.tf = d.tf := by
  cases h with
  | under f a idle h => rfl

theorem Shadow.same_command {d e : Drive} (h : Shadow cfg d e) : e.command = d.command := by
  cases h with
  | under f a idle h => rfl

theorem Shadow.same_timer {d e : Drive} (h : Shadow cfg d e) : e.timer = d.timer := by
  cases h with
  | under f a idle h => rfl

theorem Shadow.same_reset {d e : Drive} (h : Shadow cfg d e) : e.reset = d.reset := by
  cases h with
  | under f a idle h => rfl

theorem Shadow.same_image {d e : Drive} (h : Shadow cfg d e) : e.image = d.image := by
  cases h with
  | under f a idle h => rfl

theorem AgreeTo.mono {f g : ℕ → Byte} {m n : ℕ} (h : AgreeTo f g n) (hmn : m ≤ n) : AgreeTo f g m := by
  intro i hi
  exact h i (by omega)

theorem AgreeTo.of_eq {f g : ℕ → Byte} (h : f = g) (n : ℕ) : AgreeTo f g n := by
  intro i _
  rw [h]

theorem AgreeTo.of_buffered {f g : ℕ → Byte} {data : List Byte} {n : ℕ} (hlength : data.length = 512 * n)
    (hf : Buffered f data) (hg : Buffered g data) : AgreeTo f g n := by
  intro i hi
  rw [← hlength] at hi
  rw [hf i hi, hg i hi]

theorem read_full {img : Image} (hcomplete : Complete img) (hfile : img.file ≠ none) {s n : BitVec 32}
    (hcovers : Covers img s.toNat n.toNat) :
    ∃ data, hddImageRead img s n = some data ∧ data.length = 512 * n.toNat := by
  obtain ⟨st, hst⟩ := Option.ne_none_iff_exists'.mp hfile
  have hroom := hcomplete hfile
  have hcontent : contentOf img = st.content := by
    unfold contentOf
    rw [hst]
    rfl
  unfold hddImageRead
  rw [hst, Option.map_some]
  refine ⟨_, rfl, ?_⟩
  rw [read_length, sectorOffset_eq, ← hcontent]
  unfold Covers at hcovers
  omega

structure Called (cfg : BoardConfig) (d : Drive) (f : ℕ → Byte) : Prop where
  complete : Complete d.image
  missing : d.image.file = none → f = d.sectorBuffer
  asked : d.async.pending = true → Asked cfg d
  off : IsFetch d.command → d.timer = false ∨ decode d.command = .read ∧ d.doInitialRead = true
  agree : IsFetch d.command → d.doInitialRead = false → d.image.file ≠ none →
    AgreeTo f d.sectorBuffer (due d)

theorem initialRead_both {d : Drive} {f : ℕ → Byte} {a : AsyncRead} (hidle : a.pending = false)
    (hcomplete : Complete d.image) (hmissing : d.image.file = none → f = d.sectorBuffer)
    {sector count : ℕ}
    (hown : d.async.pending = true → Own d (BitVec.ofNat 32 sector) (BitVec.ofNat 32 count))
    (hcovers : Covers d.image (BitVec.ofNat 32 sector).toNat (BitVec.ofNat 32 count).toNat)
    (hcount : (BitVec.ofNat 32 count).toNat = count) :
    ∃ (ok : Bool) (sb : ℕ → Byte) (r : AsyncRead) (g : ℕ → Byte) (b : AsyncRead),
      initialRead d sector count = (under d sb r, ok) ∧
      initialRead (under d f a) sector count = (under d g b, ok) ∧
      r.pending = false ∧ b.pending = false ∧ (d.image.file = none → g = sb) ∧
      (d.image.file ≠ none → ok = true ∧ AgreeTo g sb count) := by
  obtain ⟨sb, r, hd⟩ := initialRead_fetched hown
  obtain ⟨g, b, he⟩ := @initialRead_fetched (under d f a) sector count fun hpending => absurd (hidle.symm.trans hpending) Bool.false_ne_true
  refine ⟨_, sb, r, g, b, hd.eq, he.eq, hd.idle, he.idle, ?_, ?_⟩
  · intro hfile
    have hnone : hddImageRead d.image (BitVec.ofNat 32 sector) (BitVec.ofNat 32 count) = none := by
      unfold hddImageRead
      rw [hfile, Option.map_none]
    rw [he.none hnone, hd.none hnone]
    exact hmissing hfile
  · intro hfile
    obtain ⟨data, hread, hlength⟩ := read_full hcomplete hfile hcovers
    rw [hcount] at hlength
    refine ⟨?_, AgreeTo.of_buffered hlength (he.data data hread) (hd.data data hread)⟩
    rw [hread]
    rfl

theorem Called.fetch {d : Drive} {f : ℕ → Byte} {a : AsyncRead} (h : Called cfg d f)
    (hidle : a.pending = false) (hfetch : IsFetch d.command) (hdma : decode d.command ≠ .readDma)
    (hrange : outOfRange d = false) :
    ∃ (ok : Bool) (pos : ℕ) (sb : ℕ → Byte) (r : AsyncRead) (g : ℕ → Byte) (b : AsyncRead),
      fetchSectors d = (under { d with doInitialRead := false, sectorPos := pos } sb r, ok) ∧
      fetchSectors (under d f a) =
        (under { d with doInitialRead := false, sectorPos := pos } g b, ok) ∧
      r.pending = false ∧ b.pending = false ∧ (d.image.file = none → g = sb) ∧
      (d.image.file ≠ none → ok = true ∧ AgreeTo g sb (pos + sectorCount d.tf)) := by
  obtain ⟨hcovers, -, hcount⟩ := covers_of_range hrange
  unfold fetchSectors
  change ∃ _ _ _ _ _ _, _ ∧ (if d.doInitialRead = true then _ else _) = _ ∧ _
  cases hfirst : d.doInitialRead with
  | true =>
    have hown : d.async.pending = true →
        Own { d with doInitialRead := false, sectorPos := 0 } (BitVec.ofNat 32 (ideGetSector d))
          (BitVec.ofNat 32 (sectorCount d.tf)) := by
      intro hpending
      have hown := (h.asked hpending).own
      exact ⟨hown.sector, hown.count, hown.result, hown.data⟩
    obtain ⟨ok, sb, r, g, b, hd, he, hr, hb, hmissing, hagree⟩ :=
      initialRead_both (d := { d with doInitialRead := false, sectorPos := 0 }) hidle h.complete
        h.missing hown hcovers hcount
    refine ⟨ok, 0, sb, r, g, b, hd, he, hr, hb, hmissing, ?_⟩
    rw [Nat.zero_add]
    exact hagree
  | false =>
    have hpending : d.async.pending = false := by
      cases hpending : d.async.pending with
      | false => rfl
      | true => exact absurd (hfirst.symm.trans (h.asked hpending).first) Bool.false_ne_true
    have hself : { d with doInitialRead := false } = d := by rw [← hfirst]
    refine ⟨true, d.sectorPos, d.sectorBuffer, d.async, f, a, ?_, ?_, hpending, hidle, h.missing, ?_⟩
    · exact congrArg (fun x => (x, true)) hself.symm
    · exact congrArg (fun x => (under x f a, true)) hself.symm
    · intro hfile
      have hagree := h.agree hfetch hfirst hfile
      unfold due at hagree
      rw [if_neg hdma] at hagree
      exact ⟨rfl, hagree⟩

def finish (o : Outcome) : Drive :=
  if o.err ≠ 0 then
    ideIrqRaise
      { o.drive with
        tf.atastat := drdyStat ||| errStat ||| dscStat
        tf.error := o.err
        tf.pos := 0 }
  else o.drive

theorem ideCallback_finish (cfg : BoardConfig) (dma : Dma) (d : Drive) :
    ideCallback cfg dma d =
      (finish (commandCallback cfg dma d), (commandCallback cfg dma d).dma) := by
  unfold ideCallback finish
  dsimp only
  split <;> rfl

inductive Parallel (cfg : BoardConfig) (o : Outcome) : Outcome → Prop where
  | under (g : ℕ → Byte) (b : AsyncRead) (idle : b.pending = false) (hidden : Hidden cfg (finish o) g) :
      Parallel cfg o { o with drive := under o.drive g b }

theorem Parallel.shadow {o p : Outcome} (h : Parallel cfg o p) :
    Shadow cfg (finish o) (finish p) ∧ p.dma = o.dma := by
  cases h with
  | under g b idle hidden =>
    refine ⟨?_, rfl⟩
    have hfinish : finish { o with drive := AsyncShadow.under o.drive g b } =
        AsyncShadow.under (finish o) g b := by
      unfold finish
      dsimp only
      split <;> rfl
    rw [hfinish]
    exact Shadow.under g b idle hidden

theorem Hidden.failed {d : Drive} {f : ℕ → Byte} (complete : Complete d.image)
    (missing : d.image.file = none → f = d.sectorBuffer) (idle : d.async.pending = false)
    (hlive : IsFetch d.command → d.image.file ≠ none → d.doInitialRead = true ∨ d.timer = false)
    {err : Byte} (herr : err ≠ 0) (dma : Option (List Byte)) :
    Hidden cfg (finish { drive := d, err := err, dma := dma }) f := by
  have hidden : Hidden cfg
      (ideIrqRaise
        { d with tf.atastat := drdyStat ||| errStat ||| dscStat, tf.error := err, tf.pos := 0 }) f := by
    refine Hidden.quiet complete missing idle hlive fun _ => ?_
    change ¬ (drdyStat ||| errStat ||| dscStat) &&& drqStat ≠ 0
    decide
  unfold finish
  rw [if_pos herr]
  exact hidden

theorem Hidden.shown {d : Drive} {f : ℕ → Byte} (complete : Complete d.image)
    (missing : d.image.file = none → f = d.sectorBuffer) (idle : d.async.pending = false)
    (hdma : decode d.command ≠ .readDma) (hsingle : decode d.command = .readMultiple → d.timer = false)
    (hstat : d.tf.atastat = drqStat ||| drdyStat ||| dscStat)
    (hagree : d.image.file ≠ none → AgreeTo f d.sectorBuffer (d.sectorPos + sectorCount d.tf - 1)) :
    Hidden cfg d f := by
  have hdrq : drq d := by
    unfold drq
    rw [hstat]
    decide
  refine ⟨complete, missing, ?_, fun _ _ => drq_busy hdrq, ?_, fun h _ => hsingle h⟩
  · intro hpending
    exact absurd (idle.symm.trans hpending) Bool.false_ne_true
  · intro _ hfile
    unfold window due
    rw [if_pos ⟨hdma, hdrq⟩, if_neg hdma]
    exact hagree hfile

theorem presentSector_under {d : Drive} {g : ℕ → Byte} (b : AsyncRead)
    (h : ∀ i < 512, g (512 * d.sectorPos + i) = d.sectorBuffer (512 * d.sectorPos + i)) :
    presentSector (under d g b) = under (presentSector d) g b := by
  have hbuffer : (loadBuffer (under d g b)).buffer = (loadBuffer d).buffer := by
    funext i
    unfold loadBuffer
    dsimp only
    split
    · rename_i hi
      have hlow := h (2 * i) (by omega)
      have hhigh := h (2 * i + 1) (by omega)
      rw [← Nat.add_assoc] at hhigh
      exact congrArg₂ (fun x y : Byte => x ++ y) hhigh hlow
    · rfl
  exact congrArg (fun buffer => under { presentSector d with buffer := buffer } g b) hbuffer

theorem Called.show {d : Drive} {f : ℕ → Byte} {a : AsyncRead} (h : Called cfg d f)
    (hidle : a.pending = false) (hfetch : IsFetch d.command) (hdma : decode d.command ≠ .readDma)
    (hrange : outOfRange d = false) (k : Drive → Drive)
    (hunder : ∀ d g b, k (under d g b) = under (k d) g b)
    (hkeep : ∀ d, ∃ (irqstat service : Bool) (blockcount : ℕ),
      k d = { d with irqstat := irqstat, service := service, blockcount := blockcount }) :
    Parallel cfg
      { drive := k (readSector d).1, err := if (readSector d).2 then 0 else uncErr, dma := none }
      { drive := k (readSector (under d f a)).1
        err := if (readSector (under d f a)).2 then 0 else uncErr
        dma := none } := by
  obtain ⟨ok, pos, sb, r, g, b, hd, he, hr, hb, hmissing, hagree⟩ :=
    h.fetch hidle hfetch hdma hrange
  have hcount := sectorCount_pos d.tf
  have hpresent : presentSector (under { d with doInitialRead := false, sectorPos := pos } g b) =
      under (presentSector (under { d with doInitialRead := false, sectorPos := pos } sb r)) g b := by
    refine presentSector_under (d := under { d with doInitialRead := false, sectorPos := pos } sb r) b ?_
    intro i hi
    change g (512 * pos + i) = sb (512 * pos + i)
    by_cases hfile : d.image.file = none
    · rw [hmissing hfile]
    · exact (hagree hfile).2 _ (by omega)
  rw [readSector_eq, readSector_eq, hd, he]
  dsimp only
  rw [hpresent, hunder]
  generalize hx : presentSector (under { d with doInitialRead := false, sectorPos := pos } sb r) = x
  refine Parallel.under g b hb ?_
  obtain ⟨irqstat, service, blockcount, hk⟩ := hkeep x
  rw [hk, ← hx]
  cases hok : ok with
  | true =>
    refine Hidden.shown h.complete hmissing hr hdma ?_ rfl ?_
    · intro hmultiple
      have hdecode : decode d.command = .readMultiple := hmultiple
      cases h.off hfetch with
      | inl htimer => exact htimer
      | inr hread =>
        rw [hdecode] at hread
        cases hread.1
    · intro hfile
      refine (hagree hfile).2.mono ?_
      change pos + 1 + sectorCount d.tf - 1 ≤ pos + sectorCount d.tf
      omega
  | false =>
    apply Hidden.failed
    · exact h.complete
    · exact hmissing
    · exact hr
    · intro _ hfile
      rw [hok] at hagree
      exact absurd (hagree hfile).1 Bool.false_ne_true
    · change uncErr ≠ 0
      decide

theorem Called.idle_failed {d : Drive} {f : ℕ → Byte} {a : AsyncRead} (h : Called cfg d f)
    (hidle : a.pending = false) (hpending : d.async.pending = false) {err : Byte} (herr : err ≠ 0) :
    Parallel cfg (.failed d err) (.failed (under d f a) err) := by
  refine Parallel.under f a hidle (Hidden.failed h.complete h.missing hpending ?_ herr none)
  intro hfetch _
  cases h.off hfetch with
  | inl htimer => exact Or.inr htimer
  | inr hread => exact Or.inl hread.2

theorem callbackRead_parallel {d : Drive} {f : ℕ → Byte} {a : AsyncRead} (h : Called cfg d f)
    (hidle : a.pending = false) (hdecode : decode d.command = .read) :
    Parallel cfg (callbackRead d) (callbackRead (under d f a)) := by
  unfold callbackRead
  change Parallel cfg _ (if outOfRange d = true then _ else _)
  split
  · rename_i hrange
    refine h.idle_failed hidle ?_ (by decide)
    cases hpending : d.async.pending with
    | false => rfl
    | true =>
      rw [(h.asked hpending).range] at hrange
      cases hrange
  · rename_i hrange
    refine h.show hidle (Or.inl hdecode) ?_ (Bool.eq_false_iff.mpr hrange) ideIrqRaise
      (fun _ _ _ => rfl) fun d => ⟨true, d.service || true, d.blockcount, rfl⟩
    rw [hdecode]
    decide

theorem countSector_under (d : Drive) (g : ℕ → Byte) (b : AsyncRead) :
    countSector (under d g b) = under (countSector d) g b := by
  unfold countSector under
  dsimp only
  split <;> rfl

theorem countSector_keep (d : Drive) : ∃ (irqstat service : Bool) (blockcount : ℕ),
    countSector d = { d with irqstat := irqstat, service := service, blockcount := blockcount } := by
  unfold countSector
  dsimp only
  split
  · exact ⟨true, d.service || true, _, rfl⟩
  · exact ⟨d.irqstat, d.service, _, rfl⟩

theorem callbackReadMultiple_parallel {d : Drive} {f : ℕ → Byte} {a : AsyncRead}
    (h : Called cfg d f) (hidle : a.pending = false) (hdecode : decode d.command = .readMultiple) :
    Parallel cfg (callbackReadMultiple d) (callbackReadMultiple (under d f a)) := by
  unfold callbackReadMultiple
  change Parallel cfg _ (if d.blocksize = 0 then _ else if outOfRange d = true then _ else _)
  split
  · rename_i hblock
    refine h.idle_failed hidle ?_ (by decide)
    cases hpending : d.async.pending with
    | false => rfl
    | true => exact absurd hblock ((h.asked hpending).block hdecode)
  split
  · rename_i hrange
    refine h.idle_failed hidle ?_ (by decide)
    cases hpending : d.async.pending with
    | false => rfl
    | true =>
      rw [(h.asked hpending).range] at hrange
      cases hrange
  · rename_i hrange
    refine h.show hidle (Or.inr (Or.inl hdecode)) ?_ (Bool.eq_false_iff.mpr hrange) countSector
      countSector_under countSector_keep
    rw [hdecode]
    decide

theorem Hidden.waiting {d : Drive} {f : ℕ → Byte} (complete : Complete d.image)
    (missing : d.image.file = none → f = d.sectorBuffer) (idle : d.async.pending = false)
    (hdecode : decode d.command = .readDma) (hbusy : busy d = true)
    (hagree : d.image.file ≠ none → AgreeTo f d.sectorBuffer (sectorCount d.tf)) : Hidden cfg d f := by
  refine ⟨complete, missing, ?_, fun _ _ => hbusy, ?_, ?_⟩
  · intro hpending
    exact absurd (idle.symm.trans hpending) Bool.false_ne_true
  · intro _ hfile
    unfold window due
    rw [if_neg fun h => h.1 hdecode, if_pos hdecode]
    exact hagree hfile
  · intro hmultiple
    rw [hdecode] at hmultiple
    cases hmultiple

def whole (d : Drive) : Drive := { wholeRead d with doInitialRead := false }

theorem Called.fetchAll {d : Drive} {f : ℕ → Byte} {a : AsyncRead} (h : Called cfg d f)
    (hidle : a.pending = false) (hdecode : decode d.command = .readDma)
    (hrange : outOfRange d = false) :
    ∃ (ok : Bool) (sb : ℕ → Byte) (r : AsyncRead) (g : ℕ → Byte) (b : AsyncRead),
      AtaTwins.fetchAll d = (under (whole d) sb r, ok) ∧
      AtaTwins.fetchAll (under d f a) = (under (whole d) g b, ok) ∧
      r.pending = false ∧ b.pending = false ∧ (d.image.file = none → g = sb) ∧
      (d.image.file ≠ none → AgreeTo g sb (sectorCount d.tf)) := by
  obtain ⟨hcovers, -, hcount⟩ := covers_of_range hrange
  unfold AtaTwins.fetchAll
  change ∃ _ _ _ _ _, _ ∧ (if d.doInitialRead = true then _ else _) = _ ∧ _
  cases hfirst : d.doInitialRead with
  | true =>
    have hown : d.async.pending = true →
        Own (whole d) (BitVec.ofNat 32 (ideGetSector d)) (BitVec.ofNat 32 (sectorCount d.tf)) := by
      intro hpending
      have hown := (h.asked hpending).own
      exact ⟨hown.sector, hown.count, hown.result, hown.data⟩
    obtain ⟨ok, sb, r, g, b, hd, he, hr, hb, hmissing, hagree⟩ :=
      initialRead_both (d := whole d) hidle h.complete h.missing hown hcovers hcount
    exact ⟨ok, sb, r, g, b, hd, he, hr, hb, hmissing, fun hfile => (hagree hfile).2⟩
  | false =>
    have hpending : d.async.pending = false := by
      cases hpending : d.async.pending with
      | false => rfl
      | true => exact absurd (hfirst.symm.trans (h.asked hpending).first) Bool.false_ne_true
    have hself : whole d = wholeRead d := by
      unfold whole
      rw [← hfirst]
      rfl
    refine ⟨true, d.sectorBuffer, d.async, f, a, ?_, ?_, hpending, hidle, h.missing, ?_⟩
    · rw [hself]
      rfl
    · rw [hself]
      rfl
    · intro hfile
      have hagree := h.agree (Or.inr (Or.inr hdecode)) hfirst hfile
      unfold due at hagree
      rw [if_pos hdecode] at hagree
      exact hagree

theorem callbackReadDma_parallel (dma : Dma) {d : Drive} {f : ℕ → Byte} {a : AsyncRead}
    (h : Called cfg d f) (hidle : a.pending = false) (hdecode : decode d.command = .readDma) :
    Parallel cfg (callbackReadDma cfg dma d) (callbackReadDma cfg dma (under d f a)) := by
  have hfetch : IsFetch d.command := Or.inr (Or.inr hdecode)
  have htimer : d.timer = false := by
    cases h.off hfetch with
    | inl htimer => exact htimer
    | inr hread =>
      rw [hdecode] at hread
      cases hread.1
  rw [callbackReadDma_eq, callbackReadDma_eq]
  change Parallel cfg _ (if _ then _ else if outOfRange d = true then _ else
    deliver cfg dma (sectorCount d.tf) _)
  split
  · rename_i hunusable
    refine h.idle_failed hidle ?_ (by decide)
    cases hpending : d.async.pending with
    | false => rfl
    | true =>
      obtain ⟨hata, hbm⟩ := (h.asked hpending).dma hdecode
      rw [hata] at hunusable
      exact absurd hunusable (fun hor => hor.elim Bool.false_ne_true hbm)
  split
  · rename_i hrange
    refine h.idle_failed hidle ?_ (by decide)
    cases hpending : d.async.pending with
    | false => rfl
    | true =>
      rw [(h.asked hpending).range] at hrange
      cases hrange
  · rename_i hrange
    obtain ⟨ok, sb, r, g, b, hd, he, hr, hb, hmissing, hagree⟩ :=
      h.fetchAll hidle hdecode (Bool.eq_false_iff.mpr hrange)
    have hfailed (err : Byte) (herr : err ≠ 0) (data : Option (List Byte)) :
        Hidden cfg (finish { drive := under (whole d) sb r, err := err, dma := data }) g :=
      Hidden.failed (d := under (whole d) sb r) h.complete hmissing hr (fun _ _ => Or.inr htimer)
        herr data
    have hdata : (List.range (512 * sectorCount d.tf)).map g =
        (List.range (512 * sectorCount d.tf)).map sb := by
      refine List.map_congr_left ?_
      intro i hi
      by_cases hfile : d.image.file = none
      · rw [hmissing hfile]
      · exact hagree hfile i (List.mem_range.mp hi)
    rw [hd, he]
    unfold deliver
    dsimp only
    split
    · exact Parallel.under g b hb (hfailed uncErr (by decide) none)
    split
    · have hsent : (List.range (512 * sectorCount d.tf)).map (under (whole d) g b).sectorBuffer =
          (List.range (512 * sectorCount d.tf)).map sb := hdata
      rw [hsent]
      cases dma with
      | disabled =>
        refine Parallel.under g b hb ?_
        refine Hidden.waiting
          (d := { under (whole d) sb r with tf.atastat := drqStat ||| drdyStat ||| dscStat, timer := true })
          h.complete hmissing hr hdecode (drq_busy ?_) hagree
        change (drqStat ||| drdyStat ||| dscStat) &&& drqStat ≠ 0
        decide
      | done memory =>
        refine Parallel.under g b hb ?_
        exact Hidden.quiet (d := ready (under (whole d) sb r)) h.complete hmissing hr
          (fun _ _ => Or.inr htimer) fun _ => by
            change ¬ (drdyStat ||| dscStat) &&& drqStat ≠ 0
            decide
      | failed moved => exact Parallel.under g b hb (hfailed abrtErr (by decide) _)
    · exact Parallel.under g b hb (hfailed abrtErr (by decide) none)

structure Aside (d d' : Drive) : Prop where
  command : ¬ IsFetch d'.command
  sectorBuffer : d'.sectorBuffer = d.sectorBuffer
  async : d'.async = d.async

theorem Aside.trans {d e g : Drive} (h : Aside d e) (h' : Aside e g) : Aside d g :=
  ⟨h'.command, h'.sectorBuffer.trans h.sectorBuffer, h'.async.trans h.async⟩

theorem not_fetch_invalid : ¬ IsFetch winInvalid := by
  unfold IsFetch
  decide

theorem ideNextSector_under (d : Drive) (g : ℕ → Byte) (b : AsyncRead) :
    ideNextSector (under d g b) = under (ideNextSector d) g b := by
  unfold ideNextSector under
  dsimp only
  split_ifs <;> rfl

theorem ideNextSector_aside {d : Drive} (h : ¬ IsFetch d.command) : Aside d (ideNextSector d) := by
  unfold ideNextSector
  dsimp only
  split_ifs <;> exact ⟨h, rfl, rfl⟩

theorem afterWrite_under (d : Drive) (g : ℕ → Byte) (b : AsyncRead) :
    afterWrite (under d g b) = under (afterWrite d) g b := by
  unfold afterWrite under
  dsimp only
  split
  · exact ideNextSector_under
      { d with tf.secount := d.tf.secount - 1, tf.atastat := drqStat ||| drdyStat ||| dscStat, tf.pos := 0 }
      g b
  · rfl

theorem afterWrite_aside {d : Drive} (h : ¬ IsFetch d.command) : Aside d (afterWrite d) := by
  unfold afterWrite
  dsimp only
  split
  · have hnext := ideNextSector_aside (d :=
      { d with
        tf.secount := d.tf.secount - 1, tf.atastat := drqStat ||| drdyStat ||| dscStat, tf.pos := 0 }) h
    exact ⟨hnext.command, hnext.sectorBuffer, hnext.async⟩
  · exact ⟨not_fetch_invalid, rfl, rfl⟩

theorem blockWritten_under (d : Drive) (g : ℕ → Byte) (b : AsyncRead) :
    blockWritten (under d g b) = under (blockWritten d) g b := by
  unfold blockWritten under
  dsimp only
  split <;> rfl

theorem blockWritten_aside {d : Drive} (h : ¬ IsFetch d.command) : Aside d (blockWritten d) := by
  unfold blockWritten
  split
  · exact ⟨h, rfl, rfl⟩
  · exact ⟨h, rfl, rfl⟩

theorem ideSetSector_under (d : Drive) (g : ℕ → Byte) (b : AsyncRead) (n : ℤ) :
    ideSetSector (under d g b) n = under (ideSetSector d n) g b := by
  unfold ideSetSector under
  dsimp only
  split <;> rfl

theorem ideSetSector_aside {d : Drive} (h : ¬ IsFetch d.command) (n : ℤ) : Aside d (ideSetSector d n) := by
  unfold ideSetSector
  split
  · exact ⟨h, rfl, rfl⟩
  · exact ⟨h, rfl, rfl⟩

structure Beside (d : Drive) (f : ℕ → Byte) (a : AsyncRead) (o p : Outcome) : Prop where
  eq : p = { o with drive := under o.drive f a }
  aside : Aside d o.drive

theorem Beside.plain {d d' : Drive} {f : ℕ → Byte} {a : AsyncRead} (h : Aside d d') (err : Byte)
    (dma : Option (List Byte)) :
    Beside d f a { drive := d', err := err, dma := dma } { drive := under d' f a, err := err, dma := dma } :=
  ⟨rfl, h⟩

theorem callbackWrite_beside {d : Drive} (h : ¬ IsFetch d.command) (f : ℕ → Byte) (a : AsyncRead) :
    Beside d f a (callbackWrite d) (callbackWrite (under d f a)) := by
  have hnext := afterWrite_aside (d := ideIrqRaise (writeSector d).1) h
  unfold callbackWrite
  change Beside d f a _ (if outOfRange d = true then _ else _)
  split
  · exact Beside.plain ⟨h, rfl, rfl⟩ _ _
  · refine ⟨?_, hnext.command, hnext.sectorBuffer, hnext.async⟩
    dsimp only
    rw [← afterWrite_under]
    rfl

theorem callbackWriteMultiple_beside {d : Drive} (h : ¬ IsFetch d.command) (f : ℕ → Byte)
    (a : AsyncRead) : Beside d f a (callbackWriteMultiple d) (callbackWriteMultiple (under d f a)) := by
  have hblock := blockWritten_aside (d := (writeSector d).1) h
  have hnext := afterWrite_aside hblock.command
  unfold callbackWriteMultiple
  change Beside d f a _ (if d.blocksize = 0 then _ else if outOfRange d = true then _ else _)
  split
  · exact Beside.plain ⟨h, rfl, rfl⟩ _ _
  split
  · exact Beside.plain ⟨h, rfl, rfl⟩ _ _
  · have hall := hblock.trans hnext
    have hunder : afterWrite (blockWritten (under (writeSector d).1 f a)) =
        under (afterWrite (blockWritten (writeSector d).1)) f a := by
      rw [blockWritten_under, afterWrite_under]
    refine ⟨?_, hall.command, hall.sectorBuffer, hall.async⟩
    exact congrArg (fun x => Outcome.mk x (if (writeSector d).2 then 0 else uncErr) none) hunder

theorem callbackFormat_beside {d : Drive} (h : ¬ IsFetch d.command) (f : ℕ → Byte) (a : AsyncRead) :
    Beside d f a (callbackFormat d) (callbackFormat (under d f a)) := by
  unfold callbackFormat
  change Beside d f a _ (if (!d.tf.lba && d.cfgSpt = 0) = true then _ else _)
  split
  · exact Beside.plain ⟨h, rfl, rfl⟩ _ _
  · exact ⟨rfl, h, rfl, rfl⟩

theorem commandCallback_beside (cfg : BoardConfig) (dma : Dma) {d : Drive} (h : ¬ IsFetch d.command)
    (hwrite : decode d.command ≠ .writeDma) (f : ℕ → Byte) (a : AsyncRead) :
    Beside d f a (commandCallback cfg dma d) (commandCallback cfg dma (under d f a)) := by
  have hcommand : (under d f a).command = d.command := rfl
  unfold commandCallback
  rw [hcommand]
  cases hdecode : decode d.command with
  | read => exact absurd (Or.inl hdecode) h
  | readMultiple => exact absurd (Or.inr (Or.inl hdecode)) h
  | readDma => exact absurd (Or.inr (Or.inr hdecode)) h
  | write => exact callbackWrite_beside h f a
  | writeMultiple => exact callbackWriteMultiple_beside h f a
  | writeDma => exact absurd hdecode hwrite
  | format => exact callbackFormat_beside h f a
  | seek =>
    dsimp only
    change Beside d f a _ (if d.tf.lba = false ∧ (d.tracks.toNat ≤ d.tf.cylinder.toNat ∨
      d.hpc.toNat ≤ d.tf.head.toNat) then _ else _)
    split
    · exact Beside.plain ⟨h, rfl, rfl⟩ _ _
    · exact ⟨rfl, h, rfl, rfl⟩
  | verify =>
    dsimp only
    change Beside d f a _ (if (!d.tf.lba && d.cfgSpt = 0) = true then _ else _)
    split
    · exact Beside.plain ⟨h, rfl, rfl⟩ _ _
    · exact ⟨rfl, h, rfl, rfl⟩
  | setMultiple =>
    dsimp only
    change Beside d f a _ (if d.tf.secount < 2 ∨ d.maxMultipleBlock < d.tf.secount then _ else _)
    split
    · exact Beside.plain ⟨h, rfl, rfl⟩ _ _
    · exact ⟨rfl, h, rfl, rfl⟩
  | setFeatures =>
    dsimp only
    have hmap := ideSetFeatures_map cfg d (under d f a) rfl rfl
    have hself := ideSetFeatures_map cfg d d rfl rfl
    cases hset : ideSetFeatures cfg d with
    | none =>
      rw [hset] at hmap
      rw [hmap]
      exact Beside.plain ⟨h, rfl, rfl⟩ _ _
    | some e =>
      rw [hset] at hmap hself
      have he := Option.some.inj hself
      rw [hmap, he]
      exact ⟨rfl, h, rfl, rfl⟩
  | readNativeMax =>
    have hset := ideSetSector_aside h
      ((d.image.geometry.spt * d.image.geometry.hpc * d.image.geometry.tracks).toInt - 1)
    refine ⟨?_, hset.command, hset.sectorBuffer, hset.async⟩
    exact congrArg (fun x => Outcome.plain (ready x)) (ideSetSector_under d f a _)
  | recal => exact ⟨rfl, h, rfl, rfl⟩
  | idle => exact ⟨rfl, h, rfl, rfl⟩
  | power => exact ⟨rfl, h, rfl, rfl⟩
  | specify =>
    refine ⟨rfl, ?_, rfl, rfl⟩
    change ¬ IsFetch 0x00
    unfold IsFetch
    decide
  | identify => exact ⟨rfl, h, rfl, rfl⟩
  | srst => exact ⟨rfl, h, rfl, rfl⟩
  | pidentify => exact ⟨rfl, h, rfl, rfl⟩
  | packet => exact ⟨rfl, h, rfl, rfl⟩
  | diagnostics => exact ⟨rfl, h, rfl, rfl⟩
  | invalid => exact ⟨rfl, h, rfl, rfl⟩

theorem finish_other {d : Drive} {f g : ℕ → Byte} {o : Outcome} (h : Called cfg d f)
    (hpending : o.drive.async.pending = false) (hstep : ImageStep d o) (hfetch : ¬ IsFetch o.drive.command)
    (hmissing : d.image.file = none → g = o.drive.sectorBuffer) : Hidden cfg (finish o) g := by
  obtain ⟨hcomplete, hfile⟩ := hstep.complete h.complete
  unfold finish
  split
  · exact Hidden.other hcomplete (fun hnone => hmissing (hfile.mp hnone)) hpending hfetch
  · exact Hidden.other hcomplete (fun hnone => hmissing (hfile.mp hnone)) hpending hfetch

theorem Called.idle {d : Drive} {f : ℕ → Byte} (h : Called cfg d f) (hfetch : ¬ IsFetch d.command) :
    d.async.pending = false := by
  cases hpending : d.async.pending with
  | false => rfl
  | true => exact absurd (h.asked hpending).fetch hfetch

theorem overlay_row (sb memory : ℕ → Byte) (n : ℕ) :
    (List.range n).map (overlay sb ((List.range n).map memory)) = (List.range n).map memory := by
  refine List.map_congr_left ?_
  intro i hi
  have hlt := List.mem_range.mp hi
  unfold overlay
  rw [List.length_map, List.length_range, if_pos hlt, List.getD_eq_getElem _ _ (by simpa using hlt),
    List.getElem_map, List.getElem_range]

theorem callbackWriteDma_parallel (dma : Dma) {d : Drive} {f : ℕ → Byte} {a : AsyncRead}
    (h : Called cfg d f) (hidle : a.pending = false) (hdecode : decode d.command = .writeDma) :
    Parallel cfg (callbackWriteDma cfg dma d) (callbackWriteDma cfg dma (under d f a)) := by
  have hfetch : ¬ IsFetch d.command := by
    unfold IsFetch
    rw [hdecode]
    decide
  have hpending := h.idle hfetch
  have hstep := callbackWriteDma_step cfg dma d
  unfold callbackWriteDma at hstep ⊢
  change Parallel cfg _ (if _ then _ else if outOfRange d = true then _ else if _ then _ else _)
  split
  · exact h.idle_failed hidle hpending (by decide)
  split
  · exact h.idle_failed hidle hpending (by decide)
  split
  · rename_i hata hrange hbm
    rw [if_neg hata, if_neg hrange, if_pos hbm] at hstep
    cases dma with
    | disabled => exact Parallel.under f a hidle (finish_other h hpending hstep hfetch h.missing)
    | failed moved =>
      refine Parallel.under (overlay f (moved.take (512 * sectorCount d.tf))) a hidle ?_
      refine finish_other h hpending hstep hfetch ?_
      intro hfile
      rw [h.missing hfile]
      rfl
    | done memory =>
      dsimp only at hstep ⊢
      change Parallel cfg _
        { drive := ready { under { d with sectorPos := sectorCount d.tf }
            (overlay f ((List.range (512 * sectorCount d.tf)).map memory)) a with
            image := (hddImageWrite d.image _ _ ((List.range (512 * sectorCount d.tf)).map
              (overlay f ((List.range (512 * sectorCount d.tf)).map memory)))).1 }
          err := if (hddImageWrite d.image _ _ ((List.range (512 * sectorCount d.tf)).map
            (overlay f ((List.range (512 * sectorCount d.tf)).map memory)))).2 then 0 else uncErr
          dma := none }
      rw [overlay_row] at hstep ⊢
      rw [overlay_row]
      refine Parallel.under (overlay f ((List.range (512 * sectorCount d.tf)).map memory)) a hidle ?_
      refine finish_other h hpending hstep hfetch ?_
      intro hfile
      rw [h.missing hfile]
      rfl
  · exact h.idle_failed hidle hpending (by decide)

theorem commandCallback_foreground (cfg : BoardConfig) (dma : Dma) (d : Drive) :
    commandCallback (foreground cfg) dma d = commandCallback cfg dma d := rfl

theorem commandCallback_parallel (dma : Dma) {d : Drive} {f : ℕ → Byte} {a : AsyncRead}
    (h : Called cfg d f) (hidle : a.pending = false) :
    Parallel cfg (commandCallback cfg dma d) (commandCallback cfg dma (under d f a)) := by
  have hcommand : (under d f a).command = d.command := rfl
  by_cases hread : decode d.command = .read
  · have hread' := callbackRead_parallel h hidle hread
    unfold commandCallback
    rw [hcommand, hread]
    exact hread'
  by_cases hmultiple : decode d.command = .readMultiple
  · have hmultiple' := callbackReadMultiple_parallel h hidle hmultiple
    unfold commandCallback
    rw [hcommand, hmultiple]
    exact hmultiple'
  by_cases hdma : decode d.command = .readDma
  · have hdma' := callbackReadDma_parallel dma h hidle hdma
    unfold commandCallback
    rw [hcommand, hdma]
    exact hdma'
  by_cases hwrite : decode d.command = .writeDma
  · have hwrite' := callbackWriteDma_parallel dma h hidle hwrite
    unfold commandCallback
    rw [hcommand, hwrite]
    exact hwrite'
  have hfetch : ¬ IsFetch d.command := by
    rintro (hc | hc | hc)
    · exact hread hc
    · exact hmultiple hc
    · exact hdma hc
  have hbeside := commandCallback_beside cfg dma hfetch hwrite f a
  rw [hbeside.eq]
  refine Parallel.under f a hidle ?_
  refine finish_other h ?_ (commandCallback_step cfg dma d) hbeside.aside.command ?_
  · rw [hbeside.aside.async]
    exact h.idle hfetch
  · intro hfile
    rw [hbeside.aside.sectorBuffer]
    exact h.missing hfile

theorem ideCallback_shadow (dma : Dma) {d : Drive} {f : ℕ → Byte} {a : AsyncRead}
    (h : Called cfg d f) (hidle : a.pending = false) :
    Shadow cfg (ideCallback cfg dma d).1 (ideCallback (foreground cfg) dma (under d f a)).1 ∧
      (ideCallback (foreground cfg) dma (under d f a)).2 = (ideCallback cfg dma d).2 := by
  rw [ideCallback_finish, ideCallback_finish, commandCallback_foreground]
  exact (commandCallback_parallel dma h hidle).shadow

end PeepeeBox.AsyncShadow
