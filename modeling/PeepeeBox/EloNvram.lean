import PeepeeBox.EloSettings

set_option autoImplicit false

/-!
# The NVRAM areas

What a restore gives, over any run from a power on without a file, against a ledger of what was last saved of each
area and page.
-/
namespace PeepeeBox.EloNvram
open CharModem (ch toupper)
open Elo EloSettings TraceMachine

structure Ledger where
  setup : Option Setup
  cal : Fin 2 → Option Points
  scale : Fin 2 → Option Points

def nothing : Ledger where
  setup := none
  cal _ := none
  scale _ := none

def Ledger.save (l : Ledger) (s : Settings) (areas : Byte) (page : Fin 2) : Ledger where
  setup := if has areas eloAreaSetup then some s.setup else l.setup
  cal := if has areas eloAreaCal then Function.update l.cal page (some s.cal) else l.cal
  scale := if has areas eloAreaScale then Function.update l.scale page (some s.scale) else l.scale

/-- What a restore should give. -/
def Ledger.restore (l : Ledger) (s : Settings) (areas : Byte) (page : Fin 2) : Settings where
  setup := if has areas eloAreaSetup then l.setup.getD s.setup else s.setup
  cal := if has areas eloAreaCal then (l.cal page).getD s.cal else s.cal
  scale := if has areas eloAreaScale then (l.scale page).getD s.scale else s.scale

/-- The settings of an area and page no save has written. -/
def blank : Settings where
  setup := loadSetup blankFile.setup
  cal := zeroPoints
  scale := zeroPoints

/-- Each area asked for was saved, or is blank as it is. -/
structure Covers (l : Ledger) (s : Settings) (areas : Byte) (page : Fin 2) : Prop where
  setup : has areas eloAreaSetup = true → l.setup ≠ none ∨ s.setup = blank.setup
  cal : has areas eloAreaCal = true → l.cal page ≠ none ∨ s.cal = blank.cal
  scale : has areas eloAreaScale = true → l.scale page ≠ none ∨ s.scale = blank.scale

def executes (dev : MouseElo) (data : Byte) : Option (List Byte) :=
  match dev.cmdPos with
  | none => none
  | some pos =>
    if pos < 8 ∨ dev.inKeyed ∧ pos = 8 then none
    else if has dev.setup.ser2 1 && inSum dev ≠ data then none
    else if dev.inKeyed && dev.inKey ≠ dev.setup.keyValue then none
    else some dev.body

/-- The areas and the page an NVRAM command saves or restores. -/
def nvramCommand (saving : Bool) (body : List Byte) : Option (Byte × Fin 2) :=
  let data := body.drop 1
  if toupper (arg body 0) = ch 'N' ∧ islower (arg body 0) = false ∧ nvramAreas data ≠ 0 ∧ has (arg data 0) 1 = saving then
    some (nvramAreas data, nvramPage data)
  else none

def Ledger.keep (l : Ledger) (s : Settings) : Option (Byte × Fin 2) → Ledger
  | some (areas, page) => l.save s areas page
  | none => l

def note (l : Ledger) (u : Controller) : Event → Ledger
  | .write data _ => l.keep (settings u.dev) ((executes u.dev data).bind (nvramCommand true))
  | _ => l

structure Tracked where
  unit : Controller
  ledger : Ledger

def tracked : Machine Tracked Event Report where
  step t e := ({ unit := elo.next t.unit e, ledger := note t.ledger t.unit e }, elo.answer t.unit e)

def start (speed : ℤ) : Tracked where
  unit := eloInit speed none
  ledger := nothing

structure Filed (l : Ledger) (f : NvrFile) : Prop where
  magic : f.magic = eloNvrMagic
  setup : loadSetup f.setup = l.setup.getD blank.setup
  cal : ∀ page, f.cal page = (l.cal page).getD blank.cal
  scale : ∀ page, f.scale page = (l.scale page).getD blank.scale

structure Kept (t : Tracked) : Prop where
  whole : Whole t.unit
  file : t.unit.nvr = none ∧ t.ledger = nothing ∨ ∃ f, t.unit.nvr = some f ∧ t.ledger ≠ nothing ∧ Filed t.ledger f

theorem load_some (dev : MouseElo) {f : NvrFile} (hmagic : f.magic = eloNvrMagic) (areas : Byte) (page : Fin 2) :
    settings (eloLoadNvrAreas dev (some f) areas page) =
      { setup := if has areas eloAreaSetup then loadSetup f.setup else dev.setup
        cal := if has areas eloAreaCal then f.cal page else dev.cal
        scale := if has areas eloAreaScale then f.scale page else dev.scale } := by
  have hread : eloNvrReadFile (some f) = f := if_neg (not_not.mpr hmagic)
  unfold eloLoadNvrAreas
  rw [hread]
  dsimp only
  rw [if_neg (not_not.mpr hmagic)]
  cases has areas eloAreaSetup <;> cases has areas eloAreaCal <;> cases has areas eloAreaScale <;> rfl

theorem getD_eq_iff {α : Type} {asked : Bool} {saved : Option α} {now blank : α} :
    ((if asked then saved.getD blank else now) = if asked then saved.getD now else now) ↔
      (asked = true → saved ≠ none ∨ now = blank) := by
  cases asked with
  | false => simp
  | true =>
    cases saved with
    | some a => simp
    | none => simp [eq_comm]

theorem load_iff {t : Tracked} (h : Kept t) (dev : MouseElo) (areas : Byte) (page : Fin 2) :
    settings (eloLoadNvrAreas dev t.unit.nvr areas page) = t.ledger.restore (settings dev) areas page ↔
      t.ledger = nothing ∨ Covers t.ledger (settings dev) areas page := by
  rcases h.file with ⟨hnone, hledger⟩ | ⟨f, hsome, hledger, hfiled⟩
  · rw [hnone, hledger]
    refine ⟨fun _ => .inl rfl, fun _ => ?_⟩
    unfold Ledger.restore
    cases has areas eloAreaSetup <;> cases has areas eloAreaCal <;> cases has areas eloAreaScale <;> rfl
  · rw [hsome, load_some dev hfiled.magic, hfiled.setup, hfiled.cal, hfiled.scale]
    simp only [Ledger.restore, Settings.mk.injEq, settings, getD_eq_iff, hledger, false_or]
    exact ⟨fun ⟨a, b, c⟩ => ⟨a, b, c⟩, fun ⟨a, b, c⟩ => ⟨a, b, c⟩⟩

/-- The file after a command. -/
def written (u : Controller) : Option (Byte × Fin 2) → Option NvrFile
  | some (areas, page) => some (eloSaveNvrAreas u.dev u.nvr areas page)
  | none => u.nvr

theorem nvr_process (cur : BitVec 16) (u : Controller) (body : List Byte) :
    (eloProcessCommand cur u body).nvr = written u (nvramCommand true body) := by
  unfold eloProcessCommand nvramCommand
  dsimp only
  by_cases hbase : toupper (arg body 0) = ch 'N'
  · rw [if_pos hbase]
    unfold nvram
    split_ifs <;> simp_all [written]
  · rw [if_neg hbase, if_neg fun h => hbase h.1]
    rfl

theorem nvr_write (cur : BitVec 16) (u : Controller) (data : Byte) :
    (eloWrite cur u data).nvr = written u ((executes u.dev data).bind (nvramCommand true)) := by
  unfold eloWrite executes
  dsimp only
  cases hpos : u.dev.cmdPos with
  | none =>
    dsimp only
    split_ifs <;> rfl
  | some pos =>
    dsimp only
    by_cases hbody : pos < 8
    · rw [if_pos hbody, if_pos (.inl hbody)]
      rfl
    · rw [if_neg hbody]
      by_cases hkey : u.dev.inKeyed = true ∧ pos = 8
      · rw [if_pos (by simp [hkey]), if_pos (.inr hkey)]
        rfl
      · rw [if_neg (by simpa using hkey), if_neg (not_or.mpr ⟨hbody, hkey⟩)]
        rw [show inSum { u.dev with cmdPos := none } = inSum u.dev from rfl]
        split_ifs
        · rfl
        · rfl
        · exact nvr_process cur { u with dev := { u.dev with cmdPos := none } } u.dev.body

theorem filed_save {dev : MouseElo} (hsound : Sound dev.setup) {l : Ledger} {nvr : Option NvrFile}
    (h : Filed l { eloNvrReadFile nvr with magic := eloNvrMagic }) (areas : Byte) (page : Fin 2) :
    Filed (l.save (settings dev) areas page) (eloSaveNvrAreas dev nvr areas page) := by
  have hpage {α : Type} (saved : Fin 2 → Option α) (file : Fin 2 → α) (now blank : α)
      (hfile : ∀ page, file page = (saved page).getD blank) (p : Fin 2) :
      Function.update file page now p = (Function.update saved page (some now) p).getD blank := by
    by_cases hp : p = page
    · rw [hp, Function.update_self, Function.update_self]
      rfl
    · rw [Function.update_of_ne hp, Function.update_of_ne hp]
      exact hfile p
  have hcal := hpage l.cal _ dev.cal blank.cal h.cal
  have hscale := hpage l.scale _ dev.scale blank.scale h.scale
  have hsetup := loadSetup_saveSetup hsound
  unfold eloSaveNvrAreas Ledger.save
  cases has areas eloAreaSetup <;> cases has areas eloAreaCal <;> cases has areas eloAreaScale
  · exact ⟨rfl, h.setup, h.cal, h.scale⟩
  · exact ⟨rfl, h.setup, h.cal, hscale⟩
  · exact ⟨rfl, h.setup, hcal, h.scale⟩
  · exact ⟨rfl, h.setup, hcal, hscale⟩
  · exact ⟨rfl, hsetup, h.cal, h.scale⟩
  · exact ⟨rfl, hsetup, h.cal, hscale⟩
  · exact ⟨rfl, hsetup, hcal, h.scale⟩
  · exact ⟨rfl, hsetup, hcal, hscale⟩

theorem nvramCommand_areas {saving : Bool} {body : List Byte} {areas : Byte} {page : Fin 2}
    (h : nvramCommand saving body = some (areas, page)) :
    has areas eloAreaSetup = true ∨ has areas eloAreaCal = true ∨ has areas eloAreaScale = true := by
  unfold nvramCommand at h
  dsimp only at h
  split at h
  · rename_i hcond
    obtain ⟨rfl, -⟩ := Prod.mk.inj (Option.some.inj h)
    have hany := hcond.2.2.1
    revert hany
    unfold nvramAreas
    generalize arg (body.drop 1) 1 = x
    revert x
    decide +kernel
  · cases h

theorem save_ne_nothing (l : Ledger) (s : Settings) {areas : Byte} (page : Fin 2)
    (h : has areas eloAreaSetup = true ∨ has areas eloAreaCal = true ∨ has areas eloAreaScale = true) :
    l.save s areas page ≠ nothing := by
  intro hempty
  rcases h with h | h | h
  · have hfield := congrArg Ledger.setup hempty
    simp [Ledger.save, h, nothing] at hfield
  · have hfield := congrFun (congrArg Ledger.cal hempty) page
    simp [Ledger.save, h, nothing] at hfield
  · have hfield := congrFun (congrArg Ledger.scale hempty) page
    simp [Ledger.save, h, nothing] at hfield

theorem Kept.filed {t : Tracked} (h : Kept t) : Filed t.ledger { eloNvrReadFile t.unit.nvr with magic := eloNvrMagic } := by
  rcases h.file with ⟨hnone, hledger⟩ | ⟨f, hsome, _, hfiled⟩
  · rw [hnone, hledger]
    exact ⟨rfl, rfl, fun _ => rfl, fun _ => rfl⟩
  · rw [hsome, show eloNvrReadFile (some f) = f from if_neg (not_not.mpr hfiled.magic)]
    exact ⟨rfl, hfiled.setup, hfiled.cal, hfiled.scale⟩

theorem kept_step {t : Tracked} (h : Kept t) (e : Event) : Kept (tracked.next t e) := by
  have hwhole := whole_step h.whole e
  have hstill (hnvr : (elo.next t.unit e).nvr = t.unit.nvr) (hledger : note t.ledger t.unit e = t.ledger) :
      Kept (tracked.next t e) := by
    refine ⟨hwhole, ?_⟩
    change (elo.next t.unit e).nvr = none ∧ note t.ledger t.unit e = nothing ∨
      ∃ f, (elo.next t.unit e).nvr = some f ∧ note t.ledger t.unit e ≠ nothing ∧ Filed (note t.ledger t.unit e) f
    rw [hnvr, hledger]
    exact h.file
  cases e with
  | write data cur =>
    refine ⟨hwhole, ?_⟩
    let saved := (executes t.unit.dev data).bind (nvramCommand true)
    let ledger := t.ledger.keep (settings t.unit.dev) saved
    change (eloWrite cur t.unit data).nvr = none ∧ ledger = nothing ∨
      ∃ f, (eloWrite cur t.unit data).nvr = some f ∧ ledger ≠ nothing ∧ Filed ledger f
    rw [nvr_write]
    unfold ledger saved
    cases hsave : (executes t.unit.dev data).bind (nvramCommand true) with
    | none => exact h.file
    | some what =>
      obtain ⟨areas, page⟩ := what
      obtain ⟨body, _, hbody⟩ := Option.bind_eq_some_iff.mp hsave
      exact .inr ⟨_, rfl, save_ne_nothing _ _ _ (nvramCommand_areas hbody),
        filed_save h.whole.setup h.filed areas page⟩
  | poll but x y => exact hstill rfl rfl
  | tick free => exact hstill rfl rfl
  | restart speed => exact hstill rfl rfl
  | untouchDone => exact hstill (by change (if t.unit.dev.untouchTimer then _ else t.unit).nvr = _; split <;> rfl) rfl
  | repDelayDone => exact hstill (by change (if t.unit.dev.repDelayTimer then _ else t.unit).nvr = _; split <;> rfl) rfl
  | userTimerFire => exact hstill (by change (if t.unit.dev.userTimer then _ else t.unit).nvr = _; split <;> rfl) rfl
  | resetComplete => exact hstill (by change (if t.unit.dev.resetTimer then _ else t.unit).nvr = _; split <;> rfl) rfl

theorem kept_run (speed : ℤ) (is : List Event) : Kept (tracked.run (start speed) is) := by
  have hnone : FileSound none := fun f hf => nomatch hf
  exact tracked.run_invariant (I := Kept) (fun _ e h => kept_step h e) ⟨whole_init speed hnone, .inl ⟨rfl, rfl⟩⟩ is

theorem settings_restore {u : Controller} {body : List Byte} {areas : Byte} {page : Fin 2}
    (h : nvramCommand false body = some (areas, page)) (cur : BitVec 16) :
    settings (eloProcessCommand cur u body).dev = settings (eloLoadNvrAreas u.dev u.nvr areas page) := by
  unfold nvramCommand at h
  dsimp only at h
  split at h
  · rename_i hcond
    obtain ⟨hbase, hquery, hareas, hdirection⟩ := hcond
    obtain ⟨rfl, rfl⟩ := Prod.mk.inj (Option.some.inj h)
    unfold eloProcessCommand
    dsimp only
    rw [if_pos hbase, hquery]
    unfold nvram
    rw [if_neg Bool.false_ne_true, if_neg hareas, hdirection, if_neg Bool.false_ne_true]
    exact (settings_queued (eloAck_queued _ _)).trans rfl
  · cases h

theorem save_frame (dev : MouseElo) (nvr : Option NvrFile) (areas : Byte) (page : Fin 2) :
    let f := eloNvrReadFile nvr
    let f' := eloNvrReadFile (some (eloSaveNvrAreas dev nvr areas page))
    (has areas eloAreaSetup = false → f'.setup = f.setup) ∧
      (∀ p, has areas eloAreaCal = false ∨ p ≠ page → f'.cal p = f.cal p) ∧
      ∀ p, has areas eloAreaScale = false ∨ p ≠ page → f'.scale p = f.scale p := by
  have hmagic : (eloSaveNvrAreas dev nvr areas page).magic = eloNvrMagic := by
    unfold eloSaveNvrAreas
    cases has areas eloAreaSetup <;> cases has areas eloAreaCal <;> cases has areas eloAreaScale <;> rfl
  have hread : eloNvrReadFile (some (eloSaveNvrAreas dev nvr areas page)) = eloSaveNvrAreas dev nvr areas page :=
    if_neg (not_not.mpr hmagic)
  dsimp only
  rw [hread]
  unfold eloSaveNvrAreas
  refine ⟨fun h => ?_, fun p h => ?_, fun p h => ?_⟩
  · rw [h]
    cases has areas eloAreaCal <;> cases has areas eloAreaScale <;> rfl
  · rcases h with h | h
    · rw [h]
      cases has areas eloAreaSetup <;> cases has areas eloAreaScale <;> rfl
    · cases has areas eloAreaSetup <;> cases has areas eloAreaCal <;> cases has areas eloAreaScale <;>
        first | rfl | exact Function.update_of_ne h _ _
  · rcases h with h | h
    · rw [h]
      cases has areas eloAreaSetup <;> cases has areas eloAreaCal <;> rfl
    · cases has areas eloAreaSetup <;> cases has areas eloAreaCal <;> cases has areas eloAreaScale <;>
        first | rfl | exact Function.update_of_ne h _ _

/-- After any run, a restore and a power on give back what was last saved of each area and page, and leave alone
    what was never saved, just when nothing was saved at all or what was never saved is blank anyway; and a save
    leaves the other areas and the other page of the file alone. -/
theorem restores_iff (speed : ℤ) (is : List Event) (t : Tracked) (ht : t = tracked.run (start speed) is) :
    (∀ cur body areas page, nvramCommand false body = some (areas, page) →
      (settings (eloProcessCommand cur t.unit body).dev = t.ledger.restore (settings t.unit.dev) areas page ↔
        t.ledger = nothing ∨ Covers t.ledger (settings t.unit.dev) areas page)) ∧
      (∀ dev, settings (eloLoadNvr dev t.unit.nvr) =
          t.ledger.restore (settings (eloLoadDefaults dev)) (eloAreaSetup ||| eloAreaCal ||| eloAreaScale) 0 ↔
        t.ledger = nothing ∨
          Covers t.ledger (settings (eloLoadDefaults dev)) (eloAreaSetup ||| eloAreaCal ||| eloAreaScale) 0) ∧
      ∀ cur body areas page, nvramCommand true body = some (areas, page) →
        let f := eloNvrReadFile t.unit.nvr
        let f' := eloNvrReadFile (eloProcessCommand cur t.unit body).nvr
        (has areas eloAreaSetup = false → f'.setup = f.setup) ∧
          (∀ p, has areas eloAreaCal = false ∨ p ≠ page → f'.cal p = f.cal p) ∧
          ∀ p, has areas eloAreaScale = false ∨ p ≠ page → f'.scale p = f.scale p := by
  have hkept : Kept t := by
    rw [ht]
    exact kept_run speed is
  refine ⟨fun cur body areas page h => ?_, fun dev => load_iff hkept (eloLoadDefaults dev) _ 0,
    fun cur body areas page h => ?_⟩
  · rw [settings_restore h]
    exact load_iff hkept t.unit.dev areas page
  · rw [nvr_process, h]
    exact save_frame t.unit.dev t.unit.nvr areas page

/-- The bytes of a command, as a host with no checksum to send writes them. -/
def command (body : List Byte) : List Event := ([0x55] ++ body ++ [0]).map fun b => .write b 0

def saveAll : List Event := command [ch 'N', 1, 7, 0, 0, 0, 0, 0]

theorem restores_iff_saved :
    settings (eloLoadNvr zeroed (tracked.run (start 9600) saveAll).unit.nvr) =
      (tracked.run (start 9600) saveAll).ledger.restore (settings (eloLoadDefaults zeroed))
        (eloAreaSetup ||| eloAreaCal ||| eloAreaScale) 0 := by
  refine ((restores_iff 9600 saveAll _ rfl).2.1 zeroed).mpr (.inr ⟨fun _ => .inl ?_, fun _ => .inl ?_, fun _ => .inl ?_⟩)
  · exact Option.ne_none_iff_isSome.mpr (by decide +kernel)
  · exact Option.ne_none_iff_isSome.mpr (by decide +kernel)
  · exact Option.ne_none_iff_isSome.mpr (by decide +kernel)

/-- The primary Calibration area is saved, and nothing else. -/
def saveCal : List Event := command [ch 'N', 1, 2, 0, 0, 0, 0, 0]

/-- The next power on has its setup from an area that was never saved. -/
theorem setup_lost :
    (tracked.run (start 9600) saveCal).ledger.setup = none ∧
      (eloLoadNvr zeroed (tracked.run (start 9600) saveCal).unit.nvr).setup ≠ (eloLoadDefaults zeroed).setup := by
  decide +kernel

end PeepeeBox.EloNvram
