import Mathlib.Data.List.Induction
import Mathlib.Data.List.Nodup
import PeepeeBox.FunLink

set_option autoImplicit false

/-!
# The bus between the cabinets

What the sockets of a fun.link adapter are given, over any run of the hooks and whatever the
socket layer answers: of all that is said on the bus, each peer is given what others say, once and
in order.
-/
namespace PeepeeBox.FunLinkBus
open CString FunLink

structure Tally where
  due : List Byte
  given : List Byte
  deriving DecidableEq

def Tally.owe (bytes : List Byte) (t : Tally) : Tally := { t with due := t.due ++ bytes }

def Tally.give (bytes : List Byte) (t : Tally) : Tally := { t with given := t.given ++ bytes }

def tally (sock : Socket) (t : Option Tally) : Event → Option Tally
  | .opened _ => t
  | .joined s => if s = sock then some ⟨[], []⟩ else t
  | .left s => if s = sock then none else t
  | .heard s bytes => if s = sock then t else t.map (Tally.owe bytes)
  | .spoke bytes => t.map (Tally.owe bytes)
  | .sent s bytes _ => if s = sock then t.map (Tally.give bytes) else t

def tallies (sock : Socket) (events : List Event) : Option Tally := events.foldl (tally sock) none

theorem tallies_append (sock : Socket) (events more : List Event) :
    tallies sock (events ++ more) = more.foldl (tally sock) (tallies sock events) := List.foldl_append

def relay (r : Option Bool) : Event → Option Bool
  | .heard _ _ => some false
  | .spoke _ => none
  | .sent _ _ .failed => r.map fun _ => true
  | _ => r

def relayed (events : List Event) : Option Bool := events.foldl relay none

theorem relayed_append (events more : List Event) :
    relayed (events ++ more) = more.foldl relay (relayed events) := List.foldl_append

def spokenBy : Event → List Byte
  | .spoke bytes => bytes
  | _ => []

def spoken (events : List Event) : List Byte := events.flatMap spokenBy

/-- A socket that `accept` returns is not one that is open. -/
def Fresh (plat : Plat) : Prop :=
  ∀ events listener sock, plat.accept events listener = some sock → tallies sock events = none

/-- No relay loses two peers. -/
def Calm (plat : Plat) : Prop := ∀ events sock buf, plat.send events sock buf = .failed → relayed events ≠ some true

variable {plat : Plat}

/-- What a round of sends leaves of the peers `front`, and what it adds to the log. -/
structure Round (plat : Plat) (buf : List Byte) (except : Option Socket) (dev : Adapter) (front front' : List Socket)
    (log : List Event) : Prop where
  sublist : front'.Sublist front
  tally : ∀ k t, log.foldl (tally k) t =
    if k ∈ front' ∧ some k ≠ except then t.map (Tally.give buf) else if k ∈ front ∧ k ∉ front' then none else t
  spoken : spoken log = []
  calm : Calm plat → ∀ lost, relayed dev.events = some lost →
    front.length + (if lost then 1 else 0) ≤ front'.length + 1

theorem drop_at (dev : Adapter) {front back : List Socket} {sock : Socket} (h : dev.peer = front ++ sock :: back) :
    funlinkDropPeer dev front.length = .ok { note dev (.left sock) with peer := front ++ back } := by
  have hsome : dev.peer[front.length]? = some sock := by simp [h]
  have hne : dev.peer ≠ [] := by simp [h]
  have herase : dev.peer.eraseIdx front.length = front ++ back := by
    rw [h, List.eraseIdx_append_of_length_le (Nat.le_refl _)]
    simp
  unfold funlinkDropPeer
  rw [if_neg hne, hsome]
  dsimp only
  rw [herase]

theorem Round.stays {buf : List Byte} {except : Option Socket} {dev dev' : Adapter} {front front' : List Socket}
    {log before : List Event} {sock : Socket} (h : Round plat buf except dev' front front' log) (hnot : sock ∉ front)
    (hbefore : ∀ k t, before.foldl (FunLinkBus.tally k) t =
      if k = sock ∧ some k ≠ except then t.map (Tally.give buf) else t)
    (hspoken : FunLinkBus.spoken before = []) (hrelayed : relayed dev'.events = relayed dev.events) :
    Round plat buf except dev (front ++ [sock]) (front' ++ [sock]) (before ++ log) := by
  have hnot' : sock ∉ front' := fun hmem => hnot (h.sublist.subset hmem)
  refine ⟨h.sublist.append (List.Sublist.refl [sock]), fun k t => ?_, ?_, fun hcalm lost hlost => ?_⟩
  · rw [List.foldl_append, h.tally, hbefore]
    by_cases hk : k = sock
    · subst hk
      simp [hnot, hnot']
    · simp [hk]
  · rw [FunLinkBus.spoken, List.flatMap_append]
    exact List.append_eq_nil_iff.mpr ⟨hspoken, h.spoken⟩
  · have hle := h.calm hcalm lost (hrelayed.trans hlost)
    rw [List.length_append, List.length_append, List.length_singleton]
    omega

theorem Round.leaves {buf : List Byte} {except : Option Socket} {dev dev' : Adapter} {front front' : List Socket}
    {log : List Event} {sock : Socket} (h : Round plat buf except dev' front front' log) (hnot : sock ∉ front)
    (hevents : dev'.events = dev.events ++ [.sent sock buf .failed, .left sock])
    (hfailed : plat.send dev.events sock buf = .failed) :
    Round plat buf except dev (front ++ [sock]) front' ([.sent sock buf .failed, .left sock] ++ log) := by
  have hnot' : sock ∉ front' := fun hmem => hnot (h.sublist.subset hmem)
  refine ⟨h.sublist.trans (List.sublist_append_left front [sock]), fun k t => ?_, h.spoken, fun hcalm lost hlost => ?_⟩
  · rw [List.foldl_append, h.tally]
    by_cases hk : k = sock
    · subst hk
      simp [hnot, hnot', FunLinkBus.tally]
    · simp [hk, Ne.symm hk, FunLinkBus.tally]
  · have hnow : relayed dev'.events = some true := by
      rw [hevents, relayed_append, hlost]
      rfl
    have hle := h.calm hcalm true hnow
    have hfirst : lost = false := by
      by_contra hmore
      rw [Bool.not_eq_false] at hmore
      exact hcalm dev.events sock buf hfailed (hmore ▸ hlost)
    rw [hfirst, List.length_append, List.length_singleton]
    simpa using hle

theorem sendFrom_skip {buf : List Byte} {except : Option Socket} {dev : Adapter} {i : ℕ} (h : dev.peer[i]? = except) :
    sendFrom plat buf except (i + 1) dev = sendFrom plat buf except i dev := by
  rw [sendFrom, if_pos h]

theorem sendFrom_failed {buf : List Byte} {except : Option Socket} {dev : Adapter} {i : ℕ} {sock : Socket}
    (h : dev.peer[i]? = some sock) (hnot : some sock ≠ except) (hfailed : plat.send dev.events sock buf = .failed) :
    sendFrom plat buf except (i + 1) dev =
      funlinkDropPeer (note dev (.sent sock buf .failed)) i >>= sendFrom plat buf except i := by
  rw [sendFrom, if_neg (by rw [h]; exact hnot), h]
  dsimp only
  rw [hfailed, if_pos rfl]

theorem sendFrom_sent {buf : List Byte} {except : Option Socket} {dev : Adapter} {i : ℕ} {sock : Socket}
    (h : dev.peer[i]? = some sock) (hnot : some sock ≠ except) (hsent : plat.send dev.events sock buf ≠ .failed) :
    sendFrom plat buf except (i + 1) dev =
      sendFrom plat buf except i (note dev (.sent sock buf (plat.send dev.events sock buf))) := by
  rw [sendFrom, if_neg (by rw [h]; exact hnot), h]
  dsimp only
  rw [if_neg hsent]

theorem sendFrom_round (buf : List Byte) (except : Option Socket) (front : List Socket) :
    ∀ (back : List Socket) (dev : Adapter), dev.peer = front ++ back → dev.peer.Nodup →
      ∃ front' log, Round plat buf except dev front front' log ∧
        sendFrom plat buf except front.length dev =
          .ok { dev with peer := front' ++ back, events := dev.events ++ log } := by
  induction front using List.reverseRecOn with
  | nil =>
    intro back dev hpeer _
    refine ⟨[], [], ⟨List.Sublist.refl [], fun k t => by simp, rfl, fun _ lost _ => by cases lost <;> simp⟩, ?_⟩
    rw [List.append_nil, ← show dev.peer = back from hpeer]
    rfl
  | append_singleton front sock ih =>
    intro back dev hpeer hnodup
    have hlast : dev.peer = front ++ sock :: back := by rw [hpeer, List.append_assoc]; rfl
    have hat : dev.peer[front.length]? = some sock := by simp [hlast]
    have hnot : sock ∉ front := fun hmem =>
      (List.disjoint_of_nodup_append (hlast ▸ hnodup)) hmem (List.mem_cons_self ..)
    rw [List.length_append, List.length_singleton]
    by_cases hexcept : some sock = except
    · obtain ⟨front', log, hround, hsend⟩ := ih (sock :: back) dev hlast hnodup
      refine ⟨front' ++ [sock], [] ++ log, hround.stays hnot (fun k t => ?_) rfl rfl, ?_⟩
      · by_cases hk : k = sock
        · subst hk
          simp [hexcept]
        · simp [hk]
      · rw [sendFrom_skip (hat.trans hexcept), hsend, List.append_assoc]
        rfl
    · by_cases hfailed : plat.send dev.events sock buf = .failed
      · have hdrop := drop_at (note dev (.sent sock buf .failed)) hlast
        have hrest : (front ++ back).Nodup := by
          rw [hlast] at hnodup
          exact hnodup.sublist (List.Sublist.append_left (List.sublist_cons_self sock back) front)
        obtain ⟨front', log, hround, hsend⟩ := ih back
          { note (note dev (.sent sock buf .failed)) (.left sock) with peer := front ++ back } rfl hrest
        refine ⟨front', [.sent sock buf .failed, .left sock] ++ log, hround.leaves hnot ?_ hfailed, ?_⟩
        · simp [note]
        · rw [sendFrom_failed hat hexcept hfailed, hdrop]
          change sendFrom plat buf except front.length _ = _
          rw [hsend]
          simp [note]
      · have hrelayed : relayed (note dev (.sent sock buf (plat.send dev.events sock buf))).events =
            relayed dev.events := by
          rw [note, relayed_append]
          cases hsent : plat.send dev.events sock buf with
          | took n => rfl
          | wouldblock => rfl
          | failed => exact absurd hsent hfailed
        obtain ⟨front', log, hround, hsend⟩ := ih (sock :: back)
          (note dev (.sent sock buf (plat.send dev.events sock buf))) hlast hnodup
        refine ⟨front' ++ [sock], [.sent sock buf (plat.send dev.events sock buf)] ++ log,
          hround.stays hnot (fun k t => ?_) rfl hrelayed, ?_⟩
        · by_cases hk : k = sock
          · subst hk
            simp [hexcept, FunLinkBus.tally]
          · simp [hk, Ne.symm hk, FunLinkBus.tally]
        · rw [sendFrom_sent hat hexcept hfailed, hsend]
          simp [note]

theorem send_round (plat : Plat) (buf : List Byte) (except : Option Socket) (dev : Adapter) (h : dev.peer.Nodup) :
    ∃ peers log, Round plat buf except dev dev.peer peers log ∧
      funlinkSendToPeers plat dev buf except = .ok { dev with peer := peers, events := dev.events ++ log } := by
  unfold funlinkSendToPeers
  by_cases hnone : buf = []
  · subst hnone
    have hsame (t : Option Tally) : t.map (Tally.give []) = t := by
      cases t <;> simp [Tally.give]
    refine ⟨dev.peer, [], ⟨List.Sublist.refl _, fun k t => ?_, rfl, fun _ lost _ => ?_⟩, ?_⟩
    · by_cases hk : k ∈ dev.peer <;> simp [hk, hsame]
    · cases lost <;> simp
    · rw [if_pos rfl, List.append_nil]
  · obtain ⟨peers, log, hround, hsend⟩ := sendFrom_round buf except dev.peer [] dev (List.append_nil _).symm h
    refine ⟨peers, log, hround, ?_⟩
    rw [if_neg hnone, hsend, List.append_nil]

structure Even (dev : Adapter) : Prop where
  nodup : dev.peer.Nodup
  count : dev.peer.length ≤ funlinkMaxPeers
  even : dev.state ≠ .connecting → ∀ k ∈ dev.peer, ∃ bytes, tallies k dev.events = some ⟨bytes, bytes⟩
  single : dev.state = .client ∨ dev.state = .connecting → dev.peer.length ≤ 1
  idle : dev.state = .idle → dev.peer = []

theorem Even.congr {dev dev' : Adapter} (h : Even dev) (hpeer : dev'.peer = dev.peer) (hstate : dev'.state = dev.state)
    (hevents : dev'.events = dev.events) : Even dev' :=
  { nodup := hpeer ▸ h.nodup
    count := hpeer ▸ h.count
    even := by rw [hpeer, hstate, hevents]; exact h.even
    single := by rw [hpeer, hstate]; exact h.single
    idle := by rw [hpeer, hstate]; exact h.idle }

/-- Every socket on the bus is among the peers. -/
def Kept (dev : Adapter) : Prop := ∀ k, tallies k dev.events ≠ none → k ∈ dev.peer

/-- A listener goes on listening, and says what it has been told to say. -/
def Follows (dev dev' : Adapter) : Prop :=
  dev.state = .listening → dev'.state = .listening ∧ spoken dev'.events ++ dev'.tx = spoken dev.events ++ dev.tx

theorem Follows.refl (dev : Adapter) : Follows dev dev := fun h => ⟨h, rfl⟩

theorem Follows.trans {dev dev' dev'' : Adapter} (h : Follows dev dev') (h' : Follows dev' dev'') :
    Follows dev dev'' := fun hl => by
  obtain ⟨hl', hsame⟩ := h hl
  obtain ⟨hl'', hsame'⟩ := h' hl'
  exact ⟨hl'', hsame'.trans hsame⟩

theorem spoken_append (events more : List Event) : spoken (events ++ more) = spoken events ++ spoken more :=
  List.flatMap_append

theorem sublist_idle {peers peers' : List Socket} (h : peers'.Sublist peers) (hnone : peers = []) : peers' = [] :=
  List.sublist_nil.mp (hnone ▸ h)

section
variable {dev : Adapter} {buf : List Byte} {except : Option Socket} {e : Event} {peers : List Socket} {log : List Event}

theorem said_even (h : Even dev) (hstate : dev.state ≠ .connecting)
    (he : ∀ k t, tally k t e = if some k = except then t else t.map (Tally.owe buf))
    (hround : Round plat buf except (note dev e) dev.peer peers log) :
    Even { dev with peer := peers, events := dev.events ++ [e] ++ log } := by
  refine
    { nodup := h.nodup.sublist hround.sublist
      count := Nat.le_trans hround.sublist.length_le h.count
      even := fun _ k hk => ?_
      single := fun hone => Nat.le_trans hround.sublist.length_le (h.single hone)
      idle := fun hidle => sublist_idle hround.sublist (h.idle hidle) }
  obtain ⟨bytes, hbytes⟩ := h.even hstate k (hround.sublist.subset hk)
  have hnow : tallies k (dev.events ++ [e] ++ log) =
      if some k = except then some ⟨bytes, bytes⟩ else some ⟨bytes ++ buf, bytes ++ buf⟩ := by
    rw [tallies_append, tallies_append, hround.tally, hbytes]
    change (if _ then (tally k _ e).map _ else if _ then none else tally k _ e) = _
    rw [he]
    by_cases hexcept : some k = except
    · simp [hexcept, hk]
    · simp [hexcept, hk, Tally.owe, Tally.give]
  change ∃ bytes, tallies k (dev.events ++ [e] ++ log) = _
  rw [hnow]
  split
  · exact ⟨bytes, rfl⟩
  · exact ⟨bytes ++ buf, rfl⟩

theorem said_kept (h : Kept dev) (he : ∀ k, tally k none e = none)
    (hround : Round plat buf except (note dev e) dev.peer peers log) :
    Kept { dev with peer := peers, events := dev.events ++ [e] ++ log } := by
  intro k hk
  by_contra hnot
  refine hk ?_
  change tallies k (dev.events ++ [e] ++ log) = none
  rw [tallies_append, tallies_append, hround.tally]
  by_cases hpeer : k ∈ dev.peer
  · simp [show k ∉ peers from hnot, hpeer]
  · have hnone : tallies k dev.events = none := by
      by_contra hsome
      exact hpeer (h k hsome)
    simp [show k ∉ peers from hnot, hpeer, hnone, he]

theorem mem_erase {i : ℕ} {sock k : Socket} (h : dev.peer.Nodup) (hat : dev.peer[i]? = some sock) :
    k ∈ dev.peer.eraseIdx i ↔ k ∈ dev.peer ∧ sock ≠ k := by
  constructor
  · intro hk
    obtain ⟨j, hj, hjk⟩ := List.mem_eraseIdx_iff_getElem?.mp hk
    refine ⟨List.mem_of_getElem? hjk, ?_⟩
    rintro rfl
    obtain ⟨hi, hisock⟩ := List.getElem?_eq_some_iff.mp hat
    obtain ⟨hj', hjsock⟩ := List.getElem?_eq_some_iff.mp hjk
    exact hj ((h.getElem_inj_iff).mp (hjsock.trans hisock.symm))
  · rintro ⟨hk, hne⟩
    obtain ⟨j, hjk⟩ := List.mem_iff_getElem?.mp hk
    refine List.mem_eraseIdx_iff_getElem?.mpr ⟨j, ?_, hjk⟩
    rintro rfl
    exact hne (Option.some.inj (hat.symm.trans hjk))

theorem tallies_left (k sock : Socket) (events : List Event) :
    tallies k (events ++ [.left sock]) = if sock = k then none else tallies k events := tallies_append k events _

theorem leave_even (h : Even dev) {i : ℕ} {sock : Socket} (hat : dev.peer[i]? = some sock) :
    Even { note dev (.left sock) with peer := dev.peer.eraseIdx i } := by
  have hsub : (dev.peer.eraseIdx i).Sublist dev.peer := List.eraseIdx_sublist ..
  refine
    { nodup := h.nodup.sublist hsub
      count := Nat.le_trans hsub.length_le h.count
      even := fun hstate k hk => ?_
      single := fun hone => Nat.le_trans hsub.length_le (h.single hone)
      idle := fun hidle => sublist_idle hsub (h.idle hidle) }
  obtain ⟨hin, hne⟩ := (mem_erase h.nodup hat).mp hk
  obtain ⟨bytes, hbytes⟩ := h.even hstate k hin
  refine ⟨bytes, ?_⟩
  change tallies k (dev.events ++ [.left sock]) = _
  rw [tallies_left, if_neg hne, hbytes]

theorem leave_kept (h : Even dev) (hkept : Kept dev) {i : ℕ} {sock : Socket} (hat : dev.peer[i]? = some sock) :
    Kept { note dev (.left sock) with peer := dev.peer.eraseIdx i } := by
  intro k hk
  change tallies k (dev.events ++ [.left sock]) ≠ none at hk
  rw [tallies_left] at hk
  have hne : sock ≠ k := fun heq => hk (if_pos heq)
  rw [if_neg hne] at hk
  exact (mem_erase h.nodup hat).mpr ⟨hkept k hk, hne⟩

theorem forget_even (h : Even dev) : Even { dev with peer := dev.peer.dropLast } := by
  have hsub : dev.peer.dropLast.Sublist dev.peer := List.dropLast_sublist _
  exact
    { nodup := h.nodup.sublist hsub
      count := Nat.le_trans hsub.length_le h.count
      even := fun hstate k hk => h.even hstate k (hsub.subset hk)
      single := fun hone => Nat.le_trans hsub.length_le (h.single hone)
      idle := fun hidle => sublist_idle hsub (h.idle hidle) }

theorem drop_even (h : Even dev) {i : ℕ} {dev' : Adapter} (hdrop : funlinkDropPeer dev i = .ok dev') :
    Even dev' ∧ Follows dev dev' ∧ dev'.state = dev.state := by
  unfold funlinkDropPeer at hdrop
  split at hdrop
  · exact absurd hdrop (by simp)
  · split at hdrop
    · rename_i sock hat
      cases hdrop
      refine ⟨leave_even h hat, fun hl => ⟨hl, ?_⟩, rfl⟩
      change spoken (dev.events ++ [.left sock]) ++ dev.tx = _
      rw [spoken_append]
      exact congrArg (· ++ dev.tx) (List.append_nil _)
    · cases hdrop
      exact ⟨forget_even h, fun hl => ⟨hl, rfl⟩, rfl⟩

theorem foldl_left (k : Socket) (socks : List Socket) (t : Option Tally) :
    (socks.map Event.left).foldl (tally k) t = if k ∈ socks then none else t := by
  induction socks generalizing t with
  | nil => rfl
  | cons sock socks ih =>
    rw [List.map_cons, List.foldl_cons, ih]
    by_cases hk : k ∈ socks
    · simp [hk]
    · by_cases hs : sock = k
      · simp [hs, tally]
      · simp [hk, hs, Ne.symm hs, tally]

theorem close_even (dev : Adapter) : Even (funlinkCloseAll dev) :=
  { nodup := List.nodup_nil
    count := Nat.zero_le _
    even := fun _ _ hk => absurd hk List.not_mem_nil
    single := fun _ => Nat.zero_le 1
    idle := fun _ => rfl }

theorem close_kept (h : Kept dev) : Kept (funlinkCloseAll dev) := by
  intro k hk
  refine absurd ?_ hk
  change tallies k (dev.events ++ dev.peer.reverse.map Event.left) = none
  rw [tallies_append, foldl_left]
  by_cases hpeer : k ∈ dev.peer
  · simp [hpeer]
  · have hnone : tallies k dev.events = none := by
      by_contra hsome
      exact hpeer (h k hsome)
    simp [hpeer, hnone]

end

def gone (plat : Plat) (now : BitVec 32) (i : ℕ) (dev : Adapter) : Except Fault Adapter :=
  funlinkDropPeer dev i >>= fun dev =>
    if dev.state = .client then .ok { funlinkCloseAll dev with nextAttempt := if now ≠ 0 then now else 1 }
    else receiveFrom plat now i dev

theorem receiveFrom_succ (now : BitVec 32) (i : ℕ) (dev : Adapter) :
    receiveFrom plat now (i + 1) dev =
      match dev.peer[i]? with
      | none => gone plat now i dev
      | some sock =>
        match plat.receive dev.events sock with
        | .data bytes =>
          let dev := funlinkRxPush (note dev (.heard sock bytes)) bytes
          if dev.state = .listening then funlinkSendToPeers plat dev bytes (some sock) >>= receiveFrom plat now i
          else receiveFrom plat now i dev
        | .wouldblock => receiveFrom plat now i dev
        | .closed => gone plat now i dev
        | .failed => gone plat now i dev := rfl

theorem bind_ok {α β : Type} {x : Except Fault α} {f : α → Except Fault β} {b : β} (h : x >>= f = .ok b) :
    ∃ a, x = .ok a ∧ f a = .ok b := by
  cases x with
  | error e => exact absurd h (by simp [bind, Except.bind])
  | ok a => exact ⟨a, rfl, h⟩

theorem push_eq (dev : Adapter) (buf : List Byte) : (funlinkRxPush dev buf).peer = dev.peer ∧
    (funlinkRxPush dev buf).state = dev.state ∧ (funlinkRxPush dev buf).events = dev.events ∧
    (funlinkRxPush dev buf).tx = dev.tx := by
  rw [funlinkRxPush_eq]
  exact ⟨rfl, rfl, rfl, rfl⟩

theorem heard_tally (k sock : Socket) (bytes : List Byte) (t : Option Tally) :
    tally k t (.heard sock bytes) = if some k = some sock then t else t.map (Tally.owe bytes) := by
  by_cases hk : k = sock
  · simp [hk, tally]
  · simp [hk, Ne.symm hk, tally]

theorem relay_turn (plat : Plat) {dev : Adapter} (h : Even dev) (hstate : dev.state = .listening) (sock : Socket) (bytes : List Byte) :
    ∃ dev', funlinkSendToPeers plat (funlinkRxPush (note dev (.heard sock bytes)) bytes) bytes (some sock) = .ok dev' ∧
      Even dev' ∧ Follows dev dev' ∧ dev'.state = .listening ∧ (Kept dev → Kept dev') ∧
      (Calm plat → dev.peer.length ≤ dev'.peer.length + 1) := by
  have hpush := funlinkRxPush_eq (note dev (.heard sock bytes)) bytes
  obtain ⟨peers, log, hround, hsend⟩ := send_round plat bytes (some sock)
    (funlinkRxPush (note dev (.heard sock bytes)) bytes) (by rw [hpush]; exact h.nodup)
  rw [hpush] at hround hsend ⊢
  have hsaid : Round plat bytes (some sock) (note dev (.heard sock bytes)) dev.peer peers log :=
    ⟨hround.sublist, hround.tally, hround.spoken, hround.calm⟩
  have heven := said_even h (by rw [hstate]; decide) (fun k t => heard_tally k sock bytes t) hsaid
  refine ⟨_, hsend, heven.congr rfl rfl rfl, fun _ => ⟨hstate, ?_⟩, hstate, fun hkept => ?_, fun hcalm => ?_⟩
  · change spoken (dev.events ++ [.heard sock bytes] ++ log) ++ dev.tx = _
    rw [spoken_append, spoken_append, hsaid.spoken, List.append_nil]
    exact congrArg (· ++ dev.tx) (List.append_nil _)
  · exact said_kept hkept (fun k => (heard_tally k sock bytes none).trans (ite_self none)) hsaid
  · have hlost : relayed (note dev (.heard sock bytes)).events = some false := by
      rw [note, relayed_append]
      rfl
    have hle := hsaid.calm hcalm false hlost
    simpa using hle

theorem client_turn {dev : Adapter} (h : Even dev) (hstate : dev.state ≠ .connecting ∧ dev.state ≠ .listening)
    {i : ℕ} {sock : Socket} (hat : dev.peer[i]? = some sock) (bytes : List Byte) :
    Even (funlinkRxPush (note dev (.heard sock bytes)) bytes) ∧
      (Kept dev → Kept (funlinkRxPush (note dev (.heard sock bytes)) bytes)) := by
  have hmem : sock ∈ dev.peer := List.mem_of_getElem? hat
  have hclient : dev.state = .client := by
    cases hnow : dev.state with
    | idle => exact absurd (h.idle hnow ▸ hmem) List.not_mem_nil
    | connecting => exact absurd hnow hstate.1
    | client => rfl
    | listening => exact absurd hnow hstate.2
  have hone : ∀ k ∈ dev.peer, k = sock := by
    intro k hk
    have hlen := h.single (.inl hclient)
    obtain ⟨j, hjk⟩ := List.mem_iff_getElem?.mp hk
    have hi := (List.getElem?_eq_some_iff.mp hat).1
    have hj := (List.getElem?_eq_some_iff.mp hjk).1
    have hij : i = j := by omega
    exact Option.some.inj (hjk.symm.trans (hij ▸ hat))
  have hsame (k : Socket) : tallies k (dev.events ++ [.heard sock bytes]) =
      tally k (tallies k dev.events) (.heard sock bytes) := tallies_append k dev.events _
  rw [funlinkRxPush_eq]
  refine ⟨{ nodup := h.nodup, count := h.count, even := fun hc k hk => ?_, single := h.single, idle := h.idle }, ?_⟩
  · obtain ⟨b, hb⟩ := h.even hc k hk
    refine ⟨b, ?_⟩
    change tallies k (dev.events ++ [.heard sock bytes]) = _
    rw [hsame, heard_tally, if_pos (congrArg some (hone k hk)), hb]
  · intro hkept k hk
    refine hkept k fun hnone => hk ?_
    change tallies k (dev.events ++ [.heard sock bytes]) = none
    rw [hsame, hnone, heard_tally]
    exact ite_self none

theorem gone_even {dev dev' : Adapter} (now : BitVec 32) {i : ℕ} (h : Even dev) (hstate : dev.state ≠ .connecting)
    (hrest : ∀ dev', Even dev' → dev'.state ≠ .connecting → ∀ dev'', receiveFrom plat now i dev' = .ok dev'' →
      Even dev'' ∧ Follows dev' dev'' ∧ dev''.state ≠ .connecting)
    (hgone : gone plat now i dev = .ok dev') : Even dev' ∧ Follows dev dev' ∧ dev'.state ≠ .connecting := by
  obtain ⟨dropped, hdrop, hnext⟩ := bind_ok hgone
  obtain ⟨heven, hfollows, hsame⟩ := drop_even h hdrop
  dsimp only at hnext
  split at hnext
  · rename_i hclient
    cases hnext
    refine ⟨(close_even dropped).congr rfl rfl rfl, fun hl => ?_, show LinkState.idle ≠ .connecting by decide⟩
    rw [hsame, hl] at hclient
    exact absurd hclient (by decide)
  · obtain ⟨hlast, hfollows', hstate'⟩ := hrest dropped heven (by rw [hsame]; exact hstate) dev' hnext
    exact ⟨hlast, hfollows.trans hfollows', hstate'⟩

theorem receive_even (now : BitVec 32) (i : ℕ) : ∀ dev, Even dev → dev.state ≠ .connecting →
    ∀ dev', receiveFrom plat now i dev = .ok dev' → Even dev' ∧ Follows dev dev' ∧ dev'.state ≠ .connecting := by
  induction i with
  | zero =>
    intro dev h hstate dev' hend
    cases hend
    exact ⟨h, Follows.refl dev, hstate⟩
  | succ i ih =>
    intro dev h hstate dev' hend
    rw [receiveFrom_succ] at hend
    split at hend
    · exact gone_even now h hstate ih hend
    · rename_i sock hat
      split at hend
      · rename_i bytes _
        dsimp only at hend
        rw [(push_eq _ bytes).2.1] at hend
        split at hend
        · rename_i hl
          obtain ⟨sent, hsend, heven, hfollows, hl', -, -⟩ := relay_turn plat h hl sock bytes
          rw [hsend] at hend
          obtain ⟨hlast, hfollows', hstate'⟩ := ih sent heven (by rw [hl']; decide) dev' hend
          exact ⟨hlast, hfollows.trans hfollows', hstate'⟩
        · rename_i hl
          obtain ⟨heven, -⟩ := client_turn h ⟨hstate, hl⟩ hat bytes
          obtain ⟨hlast, -, hstate'⟩ := ih _ heven (by rw [(push_eq _ bytes).2.1]; exact hstate) dev' hend
          exact ⟨hlast, fun hnow => absurd hnow hl, hstate'⟩
      · exact ih dev h hstate dev' hend
      · exact gone_even now h hstate ih hend
      · exact gone_even now h hstate ih hend

theorem receive_total (hcalm : Calm plat) (now : BitVec 32) (i : ℕ) : ∀ dev, Even dev → Kept dev →
    dev.state ≠ .connecting → i ≤ dev.peer.length → ∃ dev', receiveFrom plat now i dev = .ok dev' ∧ Kept dev' := by
  induction i with
  | zero =>
    intro dev _ hkept _ _
    exact ⟨dev, rfl, hkept⟩
  | succ i ih =>
    intro dev h hkept hstate hi
    have hat : dev.peer[i]? = some dev.peer[i] := List.getElem?_eq_getElem hi
    have hgone : ∃ dev', gone plat now i dev = .ok dev' ∧ Kept dev' := by
      have hdrop : funlinkDropPeer dev i =
          .ok { note dev (.left dev.peer[i]) with peer := dev.peer.eraseIdx i } := by
        have hne : dev.peer ≠ [] := fun hnone => by simp [hnone] at hi
        unfold funlinkDropPeer
        rw [if_neg hne, hat]
      have hleft := leave_kept h hkept hat
      unfold gone
      rw [hdrop]
      by_cases hclient : dev.state = .client
      · refine ⟨_, if_pos hclient, ?_⟩
        exact close_kept hleft
      · obtain ⟨dev', hend, hkept'⟩ := ih _ (leave_even h hat) hleft hstate (by
          change i ≤ (dev.peer.eraseIdx i).length
          rw [List.length_eraseIdx]
          split <;> omega)
        exact ⟨dev', (if_neg hclient).trans hend, hkept'⟩
    rw [receiveFrom_succ, hat]
    dsimp only
    cases hreceive : plat.receive dev.events dev.peer[i] with
    | wouldblock => exact ih dev h hkept hstate (Nat.le_of_succ_le hi)
    | closed => exact hgone
    | failed => exact hgone
    | data bytes =>
      dsimp only
      rw [(push_eq _ bytes).2.1]
      by_cases hl : dev.state = .listening
      · obtain ⟨sent, hsend, heven, -, hl', hkept', hlen⟩ := relay_turn plat h hl dev.peer[i] bytes
        have hmore := hlen hcalm
        obtain ⟨dev', hend, hlast⟩ := ih sent heven (hkept' hkept) (by rw [hl']; decide) (by omega)
        refine ⟨dev', ?_, hlast⟩
        rw [if_pos (show (note dev (.heard dev.peer[i] bytes)).state = .listening from hl), hsend]
        exact hend
      · obtain ⟨heven, hkept'⟩ := client_turn h ⟨hstate, hl⟩ hat bytes
        rw [if_neg (show (note dev (.heard dev.peer[i] bytes)).state ≠ .listening from hl)]
        refine ih _ heven (hkept' hkept) (by rw [(push_eq _ bytes).2.1]; exact hstate) ?_
        rw [(push_eq _ bytes).1]
        exact Nat.le_of_succ_le hi

structure Wrote (dev : Adapter) (put : List Byte) (dev' : Adapter) : Prop where
  even : Even dev'
  said : dev.state = .listening → dev'.state = .listening ∧
    spoken dev'.events ++ dev'.tx = spoken dev.events ++ dev.tx ++ put

theorem Follows.wrote {dev dev' : Adapter} (h : Follows dev dev') (heven : Even dev') : Wrote dev [] dev' :=
  ⟨heven, fun hl => ⟨(h hl).1, by rw [(h hl).2, List.append_nil]⟩⟩

theorem Wrote.trans {dev dev' dev'' : Adapter} {put put' : List Byte} (h : Wrote dev put dev')
    (h' : Wrote dev' put' dev'') : Wrote dev (put ++ put') dev'' := by
  refine ⟨h'.even, fun hl => ?_⟩
  obtain ⟨hl', hsame⟩ := h.said hl
  obtain ⟨hl'', hsame'⟩ := h'.said hl'
  exact ⟨hl'', by rw [hsame', hsame, List.append_assoc]⟩

theorem flush_even (plat : Plat) {dev : Adapter} (h : Even dev) :
    ∃ dev', funlinkFlushTx plat dev = .ok dev' ∧ Even dev' ∧ Follows dev dev' ∧ (Kept dev → Kept dev') ∧
      (dev.state = .listening → dev'.tx = []) := by
  unfold funlinkFlushTx
  by_cases hnone : dev.tx = []
  · rw [if_pos hnone]
    exact ⟨dev, rfl, h, Follows.refl dev, id, fun _ => hnone⟩
  · rw [if_neg hnone]
    by_cases hbus : dev.state = .client ∨ dev.state = .listening
    · have hstate : dev.state ≠ .connecting := by
        rcases hbus with hnow | hnow <;> rw [hnow] <;> decide
      obtain ⟨peers, log, hround, hsend⟩ := send_round plat dev.tx none
        (note dev (.spoke dev.tx)) h.nodup
      have hsaid : Round plat dev.tx none (note dev (.spoke dev.tx)) dev.peer peers log := hround
      have htally (k : Socket) (t : Option Tally) :
          tally k t (.spoke dev.tx) = if some k = none then t else t.map (Tally.owe dev.tx) := rfl
      have heven := said_even h hstate htally hsaid
      rw [if_pos hbus, hsend]
      refine ⟨_, rfl, heven.congr rfl rfl rfl, fun hl => ⟨hl, ?_⟩, fun hkept => ?_, fun _ => rfl⟩
      · change spoken (dev.events ++ [.spoke dev.tx] ++ log) ++ [] = _
        rw [spoken_append, spoken_append, hsaid.spoken, List.append_nil, List.append_nil]
        exact congrArg (spoken dev.events ++ ·) (List.append_nil _)
      · exact said_kept hkept (fun k => rfl) hsaid
    · rw [if_neg hbus]
      refine ⟨_, rfl, h.congr rfl rfl rfl, fun hl => absurd (.inr hl) hbus, id, fun hl => absurd (.inr hl) hbus⟩

theorem join_even {dev : Adapter} (h : Even dev) (hstate : dev.state = .listening) {sock : Socket}
    (hfresh : tallies sock dev.events = none) (hroom : dev.peer.length < funlinkMaxPeers) :
    Even { note dev (.joined sock) with peer := dev.peer ++ [sock] } := by
  have hnot : sock ∉ dev.peer := fun hmem => by
    obtain ⟨bytes, hbytes⟩ := h.even (by rw [hstate]; decide) sock hmem
    exact absurd (hfresh.symm.trans hbytes) (by simp)
  have htally (k : Socket) : tallies k (dev.events ++ [.joined sock]) =
      if sock = k then some ⟨[], []⟩ else tallies k dev.events := tallies_append k dev.events _
  refine
    { nodup := ?_, count := ?_, even := fun hc k hk => ?_, single := fun hone => ?_, idle := fun hidle => ?_ }
  · refine List.Nodup.append h.nodup (List.nodup_singleton sock) ?_
    intro k hk hone
    exact hnot (List.mem_singleton.mp hone ▸ hk)
  · change (dev.peer ++ [sock]).length ≤ _
    rw [List.length_append, List.length_singleton]
    exact hroom
  · change ∃ bytes, tallies k (dev.events ++ [.joined sock]) = _
    rw [htally]
    rcases List.mem_append.mp hk with hold | hnew
    · have hne : sock ≠ k := fun heq => hnot (heq ▸ hold)
      rw [if_neg hne]
      exact h.even hc k hold
    · rw [if_pos (List.mem_singleton.mp hnew).symm]
      exact ⟨[], rfl⟩
  · change dev.state = .client ∨ dev.state = .connecting at hone
    rw [hstate] at hone
    exact absurd hone (by decide)
  · change dev.state = .idle at hidle
    rw [hstate] at hidle
    exact absurd hidle (by decide)

theorem join_kept {dev : Adapter} (hkept : Kept dev) (sock : Socket) :
    Kept { note dev (.joined sock) with peer := dev.peer ++ [sock] } := by
  intro k hk
  have htally : tallies k (dev.events ++ [.joined sock]) =
      if sock = k then some ⟨[], []⟩ else tallies k dev.events := tallies_append k dev.events _
  change tallies k (dev.events ++ [.joined sock]) ≠ none at hk
  rw [htally] at hk
  by_cases hs : sock = k
  · simp [hs]
  · rw [if_neg hs] at hk
    exact List.mem_append_left _ (hkept k hk)

theorem accept_even (hfresh : Fresh plat) (listener : Socket) (n : ℕ) : ∀ dev, Even dev → dev.state = .listening →
    dev.peer.length + n ≤ funlinkMaxPeers →
      Even (acceptFrom plat listener n dev) ∧ Follows dev (acceptFrom plat listener n dev) ∧
        (Kept dev → Kept (acceptFrom plat listener n dev)) := by
  induction n with
  | zero =>
    intro dev h _ _
    exact ⟨h, Follows.refl dev, id⟩
  | succ n ih =>
    intro dev h hstate hroom
    unfold acceptFrom
    cases haccept : plat.accept dev.events listener with
    | none => exact ⟨h, Follows.refl dev, id⟩
    | some sock =>
      dsimp only
      have hjoin := join_even h hstate (hfresh _ _ _ haccept) (by omega)
      obtain ⟨heven, hfollows, hkept⟩ := ih _ hjoin hstate (by
        change (dev.peer ++ [sock]).length + n ≤ _
        rw [List.length_append, List.length_singleton]
        omega)
      refine ⟨heven, fun hl => ?_, fun hk => hkept (join_kept hk sock)⟩
      obtain ⟨hl', hsame⟩ := hfollows hl
      refine ⟨hl', hsame.trans ?_⟩
      change spoken (dev.events ++ [.joined sock]) ++ dev.tx = _
      rw [spoken_append]
      exact congrArg (· ++ dev.tx) (List.append_nil _)

theorem foldl_joined (k : Socket) (socks : List Socket) (t : Option Tally) :
    (socks.map Event.joined).foldl (tally k) t = if k ∈ socks then some ⟨[], []⟩ else t := by
  induction socks generalizing t with
  | nil => rfl
  | cons sock socks ih =>
    rw [List.map_cons, List.foldl_cons, ih]
    by_cases hk : k ∈ socks
    · simp [hk]
    · by_cases hs : sock = k
      · simp [hs, tally]
      · simp [hk, hs, Ne.symm hs, tally]

theorem alone_even {dev : Adapter} (h : dev.peer = []) : Even dev :=
  { nodup := by rw [h]; exact List.nodup_nil
    count := by rw [h]; exact Nat.zero_le _
    even := fun _ k hk => absurd (h ▸ hk) List.not_mem_nil
    single := fun _ => by rw [h]; exact Nat.zero_le 1
    idle := fun _ => h }

theorem tallies_opened (k sock : Socket) (events : List Event) :
    tallies k (events ++ [.opened sock]) = tallies k events := tallies_append k events _

theorem startListening_even (plat : Plat) (dev : Adapter) (h : dev.peer = []) :
    Even (funlinkStartListening plat dev) ∧ (Kept dev → Kept (funlinkStartListening plat dev)) := by
  unfold funlinkStartListening
  cases plat.createServer dev.events with
  | none => exact ⟨alone_even h, id⟩
  | some sock =>
    refine ⟨alone_even h, fun hkept k hk => hkept k ?_⟩
    change tallies k (dev.events ++ [.opened sock]) ≠ none at hk
    rwa [tallies_opened] at hk

theorem startConnecting_even (plat : Plat) (dev : Adapter) (h : dev.peer = []) :
    Even (funlinkStartConnecting plat dev) ∧ (Kept dev → Kept (funlinkStartConnecting plat dev)) := by
  unfold funlinkStartConnecting
  cases plat.create dev.events with
  | none => exact ⟨alone_even h, id⟩
  | some sock =>
    have hnone {events : List Event} (hkept : Kept dev) (k : Socket) (hsame : tallies k events = tallies k dev.events) :
        tallies k events = none := by
      by_contra hsome
      rw [hsame] at hsome
      exact List.not_mem_nil (h ▸ hkept k hsome)
    dsimp only
    split
    · refine ⟨{ nodup := List.nodup_singleton sock, count := show 1 ≤ 15 by decide, even := fun hc => absurd rfl hc
                single := fun _ => Nat.le_refl 1, idle := fun hidle => ?_ }, fun hkept k hk => ?_⟩
      · exact absurd (show LinkState.connecting = .idle from hidle) (by decide)
      · exact absurd (hnone hkept k (tallies_opened k sock dev.events)) hk
    · refine ⟨alone_even h, fun hkept k hk => ?_⟩
      change tallies k (dev.events ++ [.opened sock] ++ [.left sock]) ≠ none at hk
      rw [tallies_left, tallies_opened, hnone hkept k rfl, ite_self] at hk
      exact absurd rfl hk

theorem state_even (hfresh : Fresh plat) (now : BitVec 32) (dev : Adapter) (h : Even dev) :
    Even (funlinkPollState plat now dev) ∧ Follows dev (funlinkPollState plat now dev) ∧
      (Kept dev → Kept (funlinkPollState plat now dev)) := by
  have helse {dev' : Adapter} (hstate : dev.state ≠ .listening) : Follows dev dev' := fun hl => absurd hl hstate
  unfold funlinkPollState
  cases hstate : dev.state with
  | idle =>
    have hnone := h.idle hstate
    dsimp only
    split
    · exact ⟨h, Follows.refl dev, id⟩
    · have hlisten := startListening_even plat { dev with state := .idle, nextAttempt := if now ≠ 0 then now else 1 } hnone
      have hconnect := startConnecting_even plat { dev with state := .idle, nextAttempt := if now ≠ 0 then now else 1 } hnone
      split
      · exact ⟨hlisten.1, helse (by rw [hstate]; decide), fun hkept => hlisten.2 hkept⟩
      · exact ⟨hconnect.1, helse (by rw [hstate]; decide), fun hkept => hconnect.2 hkept⟩
  | connecting =>
    have hone := h.single (.inr hstate)
    dsimp only
    split
    · refine ⟨{ nodup := h.nodup, count := h.count, even := fun _ k hk => ?_, single := fun _ => hone
                idle := fun hidle => ?_ }, helse (by rw [hstate]; decide), fun hkept k hk => ?_⟩
      · refine ⟨[], ?_⟩
        change tallies k (dev.events ++ dev.peer.map .joined) = _
        rw [tallies_append, foldl_joined, if_pos hk]
      · exact absurd (show LinkState.client = .idle from hidle) (by decide)
      · change tallies k (dev.events ++ dev.peer.map .joined) ≠ none at hk
        rw [tallies_append, foldl_joined] at hk
        by_contra hnot
        rw [if_neg hnot] at hk
        exact hnot (hkept k hk)
    · split
      · exact ⟨h, Follows.refl dev, id⟩
      · split
        · exact ⟨(startListening_even plat _ rfl).1, helse (by rw [hstate]; decide),
            fun hkept => (startListening_even plat _ rfl).2 (close_kept hkept)⟩
        · exact ⟨alone_even rfl, helse (by rw [hstate]; decide), close_kept⟩
  | listening =>
    dsimp only
    cases dev.listener with
    | none => exact ⟨h, Follows.refl dev, id⟩
    | some sock => exact accept_even hfresh sock _ dev h hstate (by have hcount := h.count; omega)
  | client => exact ⟨h, Follows.refl dev, id⟩

theorem poll_even (hfresh : Fresh plat) (now : BitVec 32) {dev dev' : Adapter} (h : Even dev)
    (hpoll : funlinkPoll plat now dev = .ok dev') : Even dev' ∧ Follows dev dev' := by
  unfold funlinkPoll at hpoll
  split at hpoll
  · cases hpoll
    exact ⟨h, Follows.refl dev⟩
  · obtain ⟨heven, hfollows, -⟩ := state_even hfresh now
      { dev with lastPoll := now } (h.congr rfl rfl rfl)
    dsimp only at hpoll
    generalize funlinkPollState plat now { dev with lastPoll := now } = polled at hpoll heven hfollows
    split at hpoll
    · cases hpoll
      exact ⟨heven, hfollows⟩
    · rename_i hstate
      obtain ⟨received, hreceive, hflush⟩ := bind_ok hpoll
      obtain ⟨heven', hfollows', -⟩ := receive_even now _ polled heven hstate received hreceive
      obtain ⟨flushed, hend, hlast, hfollows'', -⟩ := flush_even plat heven'
      cases hend.symm.trans hflush
      exact ⟨hlast, (Follows.trans hfollows hfollows').trans hfollows''⟩

theorem poll_total (hfresh : Fresh plat) (hcalm : Calm plat) (now : BitVec 32) {dev : Adapter} (h : Even dev)
    (hkept : Kept dev) : ∃ dev', funlinkPoll plat now dev = .ok dev' ∧ Kept dev' := by
  unfold funlinkPoll
  split
  · exact ⟨dev, rfl, hkept⟩
  · obtain ⟨heven, -, hkept'⟩ := state_even hfresh now
      { dev with lastPoll := now } (h.congr rfl rfl rfl)
    have hpolled := hkept' hkept
    dsimp only
    generalize funlinkPollState plat now { dev with lastPoll := now } = polled at heven hpolled
    split
    · exact ⟨polled, rfl, hpolled⟩
    · rename_i hstate
      obtain ⟨received, hreceive, hstill⟩ := receive_total hcalm now _ polled heven hpolled hstate (Nat.le_refl _)
      obtain ⟨heven', -, -⟩ := receive_even now _ polled heven hstate received hreceive
      obtain ⟨flushed, hend, -, -, hlast, -⟩ := flush_even plat heven'
      refine ⟨flushed, ?_, hlast hstill⟩
      rw [hreceive]
      exact hend

/-- The serial port's calls; the guest may set another rate between them. -/
inductive Call where
  | read (now : BitVec 32) (len : ℕ)
  | write (now : BitVec 32) (buf : List Byte)
  | rate (baud : ℕ)

def call (plat : Plat) (dev : Adapter) : Call → Except Fault Adapter
  | .read now len => (funlinkRead plat now dev len).map Prod.fst
  | .write now buf => funlinkWrite plat now dev buf
  | .rate baud => .ok { dev with baud := dev.baud.map fun _ => baud }

def run (plat : Plat) (dev : Adapter) (calls : List Call) : Except Fault Adapter := calls.foldlM (call plat) dev

def notToken (plat : Plat) (now : BitVec 32) : Adapter → List Byte → List Byte
  | _, [] => []
  | dev, b :: buf =>
    (if (funlinkOwConsume now dev b).2 then [] else [b]) ++
      match funlinkWriteByte plat now dev b with
      | .ok dev => notToken plat now dev buf
      | .error _ => []

def puts (plat : Plat) (dev : Adapter) : Call → List Byte
  | .read _ _ => []
  | .write now buf => notToken plat now dev buf
  | .rate _ => []

/-- And in a run, as far as it goes. -/
def putOn (plat : Plat) : Adapter → List Call → List Byte
  | _, [] => []
  | dev, c :: calls =>
    puts plat dev c ++
      match call plat dev c with
      | .ok dev => putOn plat dev calls
      | .error _ => []

theorem consume_keeps (now : BitVec 32) (dev : Adapter) (b : Byte) :
    (funlinkOwConsume now dev b).1.peer = dev.peer ∧ (funlinkOwConsume now dev b).1.state = dev.state ∧
      (funlinkOwConsume now dev b).1.events = dev.events ∧ (funlinkOwConsume now dev b).1.tx = dev.tx := by
  unfold funlinkOwConsume
  split
  · exact push_eq _ _
  · have hlate : ∀ late : Adapter, late = (if dev.ow.active = true ∧ 1000 < now - dev.ow.last then
        { dev with ow.active := false } else dev) →
          late.peer = dev.peer ∧ late.state = dev.state ∧ late.events = dev.events ∧ late.tx = dev.tx := by
      rintro _ rfl
      split <;> exact ⟨rfl, rfl, rfl, rfl⟩
    have hkept := hlate _ rfl
    dsimp only
    generalize (if dev.ow.active = true ∧ 1000 < now - dev.ow.last then _ else dev) = late at hkept ⊢
    split
    · exact hkept
    · split
      · exact hkept
      · obtain ⟨hpeer, hstate, hevents, htx⟩ := push_eq { late with ow.slave := (funlinkOwSlot late.ow.slave b).1 }
          [(funlinkOwSlot late.ow.slave b).2]
        exact ⟨hpeer.trans hkept.1, hstate.trans hkept.2.1, hevents.trans hkept.2.2.1, htx.trans hkept.2.2.2⟩

theorem read_even (hfresh : Fresh plat) (now : BitVec 32) (len : ℕ) {dev dev' : Adapter} (h : Even dev)
    (hread : (funlinkRead plat now dev len).map Prod.fst = .ok dev') : Even dev' ∧ Follows dev dev' := by
  unfold funlinkRead at hread
  cases hpoll : funlinkPoll plat now dev with
  | error e =>
    rw [hpoll] at hread
    exact absurd hread (by simp [Except.map])
  | ok polled =>
    obtain ⟨heven, hfollows⟩ := poll_even hfresh now h hpoll
    rw [hpoll] at hread
    obtain rfl : _ = dev' := Except.ok.inj hread
    dsimp only
    split
    · exact ⟨heven, hfollows⟩
    · split
      · exact ⟨heven, hfollows⟩
      · exact ⟨heven.congr rfl rfl rfl, hfollows.trans fun hl => ⟨hl, rfl⟩⟩

theorem byte_wrote (plat : Plat) (now : BitVec 32) {dev : Adapter} (h : Even dev) (b : Byte) :
    ∃ dev', funlinkWriteByte plat now dev b = .ok dev' ∧
      Wrote dev (if (funlinkOwConsume now dev b).2 then [] else [b]) dev' ∧ (Kept dev → Kept dev') := by
  obtain ⟨hpeer, hstate, hevents, htx⟩ := consume_keeps now dev b
  have hconsumed : Even (funlinkOwConsume now dev b).1 := h.congr hpeer hstate hevents
  have hfollows : Follows dev (funlinkOwConsume now dev b).1 := fun hl =>
    ⟨hstate.trans hl, by rw [hevents, htx]⟩
  have hkept : Kept dev → Kept (funlinkOwConsume now dev b).1 := fun hk k hsome => hpeer ▸ hk k (hevents ▸ hsome)
  unfold funlinkWriteByte
  rcases hconsume : funlinkOwConsume now dev b with ⟨taken, token⟩
  rw [hconsume] at hconsumed hfollows hkept
  cases token with
  | true => exact ⟨taken, rfl, hfollows.wrote hconsumed, hkept⟩
  | false =>
    have hroom : ∃ room, (if funlinkTxSize ≤ taken.tx.length then funlinkFlushTx plat taken else .ok taken) = .ok room ∧
        Even room ∧ Follows taken room ∧ (Kept taken → Kept room) := by
      split
      · obtain ⟨room, hflush, heven, hflushed, hk, -⟩ := flush_even plat hconsumed
        exact ⟨room, hflush, heven, hflushed, hk⟩
      · exact ⟨taken, rfl, hconsumed, Follows.refl taken, id⟩
    obtain ⟨room, hroom, heven, hflushed, hk⟩ := hroom
    have hheld : Wrote room [b] { room with tx := room.tx ++ [b] } :=
      ⟨heven.congr rfl rfl rfl, fun hl => ⟨hl, (List.append_assoc ..).symm⟩⟩
    have hput : Wrote room [b] (if room.echo then funlinkRxPush { room with tx := room.tx ++ [b] } [b]
        else { room with tx := room.tx ++ [b] }) ∧ (Kept room → Kept (if room.echo then
          funlinkRxPush { room with tx := room.tx ++ [b] } [b] else { room with tx := room.tx ++ [b] })) := by
      split
      · rw [funlinkRxPush_eq]
        exact ⟨⟨hheld.even.congr rfl rfl rfl, hheld.said⟩, id⟩
      · exact ⟨hheld, id⟩
    refine ⟨_, by dsimp only; rw [hroom]; rfl, ?_, fun hkd => hput.2 (hk (hkept hkd))⟩
    exact (hfollows.trans hflushed).wrote heven |>.trans hput.1

theorem write_wrote (plat : Plat) (now : BitVec 32) (buf : List Byte) : ∀ {dev : Adapter}, Even dev →
    ∃ dev', funlinkWrite plat now dev buf = .ok dev' ∧ Wrote dev (notToken plat now dev buf) dev' ∧
      (Kept dev → Kept dev') := by
  induction buf with
  | nil =>
    intro dev h
    exact ⟨dev, rfl, (Follows.refl dev).wrote h, id⟩
  | cons b buf ih =>
    intro dev h
    obtain ⟨next, hbyte, hwrote, hkept⟩ := byte_wrote plat now h b
    obtain ⟨dev', hrest, hwrote', hkept'⟩ := ih hwrote.even
    refine ⟨dev', ?_, ?_, fun hk => hkept' (hkept hk)⟩
    · unfold funlinkWrite
      rw [List.foldlM_cons, hbyte]
      exact hrest
    · unfold notToken
      rw [hbyte]
      exact hwrote.trans hwrote'

theorem call_wrote (hfresh : Fresh plat) {dev dev' : Adapter} (h : Even dev) (c : Call) (hcall : call plat dev c = .ok dev') :
    Wrote dev (puts plat dev c) dev' := by
  cases c with
  | read now len =>
    obtain ⟨heven, hfollows⟩ := read_even hfresh now len h hcall
    exact hfollows.wrote heven
  | write now buf =>
    obtain ⟨next, hwrite, hwrote, -⟩ := write_wrote plat now buf h
    cases hwrite.symm.trans hcall
    exact hwrote
  | rate baud =>
    cases hcall
    exact Follows.wrote (fun hl => ⟨hl, rfl⟩) (h.congr rfl rfl rfl)

theorem run_wrote (hfresh : Fresh plat) (calls : List Call) : ∀ {dev dev' : Adapter}, Even dev →
    run plat dev calls = .ok dev' → Wrote dev (putOn plat dev calls) dev' := by
  induction calls with
  | nil =>
    intro dev dev' h hrun
    cases hrun
    exact (Follows.refl dev).wrote h
  | cons c calls ih =>
    intro dev dev' h hrun
    obtain ⟨next, hcall, hrest⟩ := bind_ok (x := call plat dev c) hrun
    have hwrote := call_wrote hfresh h c hcall
    rw [putOn, hcall]
    exact hwrote.trans (ih hwrote.even hrest)

theorem call_total (hfresh : Fresh plat) (hcalm : Calm plat) {dev : Adapter} (h : Even dev) (hkept : Kept dev)
    (c : Call) : ∃ dev', call plat dev c = .ok dev' ∧ Kept dev' := by
  cases c with
  | read now len =>
    obtain ⟨polled, hpoll, hkept'⟩ := poll_total hfresh hcalm now h hkept
    refine ⟨_, congrArg (Except.map Prod.fst) (show funlinkRead plat now dev len = .ok _ by
      unfold funlinkRead
      rw [hpoll]
      rfl), ?_⟩
    dsimp only
    split
    · exact hkept'
    · split <;> exact hkept'
  | write now buf =>
    obtain ⟨dev', hwrite, -, hkept'⟩ := write_wrote plat now buf h
    exact ⟨dev', hwrite, hkept' hkept⟩
  | rate baud => exact ⟨_, rfl, hkept⟩

theorem run_total (hfresh : Fresh plat) (hcalm : Calm plat) (calls : List Call) : ∀ {dev : Adapter}, Even dev →
    Kept dev → ∃ dev', run plat dev calls = .ok dev' ∧ Kept dev' := by
  induction calls with
  | nil =>
    intro dev _ hkept
    exact ⟨dev, rfl, hkept⟩
  | cons c calls ih =>
    intro dev h hkept
    obtain ⟨next, hcall, hkept'⟩ := call_total hfresh hcalm h hkept c
    obtain ⟨dev', hrest, hlast⟩ := ih (call_wrote hfresh h c hcall).even hkept'
    refine ⟨dev', ?_, hlast⟩
    unfold run
    rw [List.foldlM_cons, hcall]
    exact hrest

theorem init_even (role : Role) (echo : Bool) (station : BitVec 32) (baud : Option ℕ) :
    Even (funlinkInit role echo station baud) ∧ Kept (funlinkInit role echo station baud) :=
  ⟨alone_even rfl, fun _ hk => absurd rfl hk⟩

/-- Two cabinets join; the first says something once, and the second cannot be reached while that is relayed. -/
def twoCabinets : Plat where
  create _ := none
  createServer _ := some 100
  connect _ _ := false
  connected _ _ := none
  accept events _ := if tallies 1 events = none then some 1 else if tallies 2 events = none then some 2 else none
  receive events sock := if sock = 1 ∧ ¬ events.any (fun e => e == .heard 1 [0x10, 0x20]) then .data [0x10, 0x20] else .wouldblock
  send events sock buf := if sock = 2 ∧ relayed events = some false then .failed else .took buf.length

theorem twoCabinets_fresh : Fresh twoCabinets := by
  intro events listener sock haccept
  change (if tallies 1 events = none then some 1 else if tallies 2 events = none then some 2 else none) = some sock at haccept
  split at haccept
  · rename_i hfirst
    rwa [← Option.some.inj haccept]
  · split at haccept
    · rename_i hsecond
      rwa [← Option.some.inj haccept]
    · exact absurd haccept (by simp)

theorem twoCabinets_calm : Calm twoCabinets := by
  intro events sock buf hfailed
  change (if sock = 2 ∧ relayed events = some false then Sent.failed else .took buf.length) = .failed at hfailed
  split at hfailed
  · rename_i hnow
    rw [hnow.2]
    decide
  · exact absurd hfailed (by simp)

theorem ok_of_map {β : Type} {x : Except Fault Adapter} {f : Adapter → β} {b : β} (h : x.toOption.map f = some b) :
    ∃ dev, x = .ok dev ∧ f dev = b := by
  cases x with
  | error e => exact absurd h (by simp [Except.toOption])
  | ok dev => exact ⟨dev, rfl, Option.some.inj h⟩

end PeepeeBox.FunLinkBus
