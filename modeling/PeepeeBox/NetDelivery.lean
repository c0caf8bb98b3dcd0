import PeepeeBox.NetReceive

set_option autoImplicit false

/-!
# From one network switch to another

The frames of one card on their way to another's receive queue, through the queues of the sender,
the network and the filter of the receiver.
-/
namespace PeepeeBox.NetDelivery
open SlotRing NetSwitch NetReceive

def frames (q : Queue) : List (List Byte) := (contents queueLen q).map Packet.frame

/-- The sender and the receiver.  Each datagram reaches the receiver `copies` times and the sender
itself `loops` times, once for each host interface that goes there. -/
structure Net where
  a : Switch
  b : Switch
  copies : ℕ
  loops : ℕ
  toB : List (List Byte)
  toA : List (List Byte)
  /-- What A's card has transmitted. -/
  sent : List (List Byte)
  /-- What has been put on B's receive queue. -/
  got : List (List Byte)
  /-- What has been put on A's. -/
  back : List (List Byte)

inductive Event where
  | tx (frame : List Byte)
  | move
  | thread
  | arrive (from_ : Peer)
  | loopBack (from_ : Peer)
  | readA (taken : Bool)
  | readB (taken : Bool)

def added (before after : Switch) : List (List Byte) :=
  (frames after.card.rx).drop (frames before.card.rx).length

def step (net : Net) : Event → Except Fault Net
  | .tx frame => .ok { net with a := networkTx net.a frame, sent := net.sent ++ [frame] }
  | .move => .ok { net with a := move net.a }
  | .thread =>
    let (a, datagrams) := transmit net.a
    .ok { net with
      a := a
      toB := net.toB ++ datagrams.flatMap (List.replicate net.copies)
      toA := net.toA ++ datagrams.flatMap (List.replicate net.loops) }
  | .arrive from_ =>
    match net.toB with
    | [] => .ok net
    | d :: toB => do
      let b ← receive net.b from_ (.datagram d)
      .ok { net with b := b, toB := toB, got := net.got ++ added net.b b }
  | .loopBack from_ =>
    match net.toA with
    | [] => .ok net
    | d :: toA => do
      let a ← receive net.a from_ (.datagram d)
      .ok { net with a := a, toA := toA, back := net.back ++ added net.a a }
  | .readA taken => .ok { net with a := rxQueue net.a taken }
  | .readB taken => .ok { net with b := rxQueue net.b taken }

def run (net : Net) (events : List Event) : Except Fault Net := GuardedRuns.run step net events

def wants (s : Switch) (frame : List Byte) : Bool :=
  s.promisc || group frame || decide (dest frame = s.mac)

/-- The frame in a datagram. -/
def opened (s : Switch) (d : List Byte) : Option (List Byte) :=
  match s.secretHash with
  | none => some (d.take maxFrame)
  | some hash => if d.take hashLen = hash then some (d.drop hashLen) else none

def taken (s : Switch) (d : List Byte) : List (List Byte) :=
  match opened s d with
  | none => []
  | some frame => if 12 ≤ frame.length ∧ source frame ≠ s.mac ∧ wants s frame = true then [frame] else []

theorem source_append {xs ys : List Byte} (h : 12 ≤ xs.length) : source (xs ++ ys) = source xs := by
  unfold source
  rw [List.drop_append_of_le_length (by omega), List.take_append_of_le_length (by rw [List.length_drop]; omega)]

theorem dest_append {xs ys : List Byte} (h : 12 ≤ xs.length) : dest (xs ++ ys) = dest xs := by
  unfold dest
  rw [List.take_append_of_le_length (by omega)]

theorem group_append {xs ys : List Byte} (h : 12 ≤ xs.length) : group (xs ++ ys) = group xs := by
  unfold group
  rw [List.getD_eq_getElem?_getD, List.getD_eq_getElem?_getD, List.getElem?_append_left (by omega)]

theorem wants_append (s : Switch) {xs ys : List Byte} (h : 12 ≤ xs.length) : wants s (xs ++ ys) = wants s xs := by
  unfold wants
  rw [group_append h, dest_append h]

structure Same (s s' : Switch) : Prop where
  mac : s'.mac = s.mac
  promisc : s'.promisc = s.promisc
  secretHash : s'.secretHash = s.secretHash
  remote : s'.remote = s.remote
  linkDown : s'.linkDown = s.linkDown
  txVm : s'.card.txVm = s.card.txVm
  txHost : s'.card.txHost = s.card.txHost

theorem deliver_frames {s : Switch} {frame : List Byte} (stale : List Byte) (h : Safe s) (hlink : s.linkDown = false)
    (hdata : s.pkt.data = frame ++ stale) (hlow : 12 ≤ frame.length) (hhigh : frame.length ≤ maxFrame) :
    Same s (deliver s frame.length) ∧ frames (deliver s frame.length).card.rx = frames s.card.rx ++
      if full queueLen s.card.rx then []
      else if source frame ≠ s.mac ∧ wants s frame = true then [frame] else [] := by
  have hsource : source s.pkt.data = source frame := by rw [hdata, source_append hlow]
  have hwants : (s.promisc = true ∨ group s.pkt.data = true ∨ dest s.pkt.data = s.mac) ↔ wants s frame = true := by
    rw [hdata, group_append hlow, dest_append hlow]
    unfold wants
    simp [or_assoc]
  unfold deliver
  rw [hsource]
  by_cases hown : source frame = s.mac
  · rw [if_pos hown]
    exact ⟨⟨rfl, rfl, rfl, rfl, rfl, rfl, rfl⟩, by simp [hown]⟩
  · rw [if_neg hown]
    by_cases hwanted : wants s frame = true
    · rw [if_pos ⟨hlink, hwants.mpr hwanted⟩]
      cases hfull : full queueLen s.card.rx with
      | true =>
        simp only [queuePutSwap, if_pos (show _ ∨ _ ∨ full queueLen s.card.rx = true from Or.inr (Or.inr hfull))]
        exact ⟨⟨rfl, rfl, rfl, rfl, rfl, rfl, rfl⟩, (List.append_nil _).symm⟩
      | false =>
        have hkeep : ¬ ((frame.length : ℤ) = 0 ∨ (maxFrame : ℤ) < frame.length ∨ full queueLen s.card.rx = true) := by
          rintro (hzero | hlong | hfull')
          · omega
          · omega
          · rw [hfull] at hfull'
            cases hfull'
        simp only [queuePutSwap, if_neg hkeep]
        refine ⟨⟨rfl, rfl, rfl, rfl, rfl, rfl, rfl⟩, ?_⟩
        unfold frames
        change (contents queueLen (put queueLen s.card.rx _).1).map _ = _
        rw [contents_put h.within hfull, List.map_append, List.map_singleton, if_neg (by simp), if_pos ⟨hown, hwanted⟩]
        unfold Packet.frame
        simp only [hdata, Int.toNat_natCast]
        rw [List.take_left' rfl]
    · rw [if_neg fun h => hwanted (hwants.mp h.2)]
      exact ⟨⟨rfl, rfl, rfl, rfl, rfl, rfl, rfl⟩, by simp [hwanted]⟩

theorem receive_frames {s : Switch} {from_ : Peer} {d : List Byte} (h : Safe s) (hlink : s.linkDown = false)
    (hfrom : s.remote = none ∨ s.remote = some from_) (hfits : s.secretHash.isSome = true → d.length ≤ maxFrame)
    (hhash : ∀ hash ∈ s.secretHash, hash.length = hashLen) :
    ∃ s', receive s from_ (.datagram d) = .ok s' ∧ Safe s' ∧ Same s s' ∧
      frames s'.card.rx = frames s.card.rx ++ if full queueLen s.card.rx then [] else taken s d := by
  have hforeign (n : ℕ) : ¬ foreign s from_ (n : ℤ) = true := by
    unfold foreign
    rcases hfrom with hnone | hsome
    · simp [hnone]
    · simp [hsome]
  cases hsecret : s.secretHash with
  | none =>
    obtain ⟨data, hrun, hlength, htake⟩ := recvfrom_fits maxFrame h.pkt (List.length_take_le _ d)
    refine ⟨_, receive_plain hsecret hrun, ?_⟩
    have htaken : taken s d = if 12 ≤ (d.take maxFrame).length ∧ source (d.take maxFrame) ≠ s.mac ∧
        wants s (d.take maxFrame) = true then [d.take maxFrame] else [] := by
      unfold taken opened
      rw [hsecret]
    generalize hframe : d.take maxFrame = frame at *
    have hdata : data = frame ++ data.drop frame.length := by
      have hsplit := (List.take_append_drop frame.length data).symm
      rwa [htake] at hsplit
    by_cases hshort : frame.length < 12
    · have hnone : ¬ (12 ≤ frame.length ∧ source frame ≠ s.mac ∧ wants s frame = true) := fun h => absurd h.1 (by omega)
      rw [if_pos (Or.inr (by omega)), htaken, if_neg hnone, ite_self, List.append_nil]
      exact ⟨withData_safe h hlength, ⟨rfl, rfl, rfl, rfl, rfl, rfl, rfl⟩, rfl⟩
    · have hgo : ¬ (foreign s from_ (frame.length : ℤ) = true ∨ (frame.length : ℤ) < 12) := by
        rintro (hf | hs)
        · exact hforeign _ hf
        · omega
      have hle : frame.length ≤ maxFrame := hframe ▸ List.length_take_le _ d
      have hsafe := withData_safe h hlength
      obtain ⟨hsame, hframes⟩ := deliver_frames (data.drop frame.length) hsafe hlink hdata (Nat.not_lt.mp hshort) hle
      rw [if_neg hgo]
      refine ⟨deliver_safe hsafe (by omega) (by omega), ⟨hsame.mac, hsame.promisc, hsame.secretHash, hsame.remote,
        hsame.linkDown, hsame.txVm, hsame.txHost⟩, ?_⟩
      rw [hframes, htaken]
      simp only [Nat.not_lt.mp hshort, true_and]
      rfl
  | some hash =>
    have hle : d.length ≤ maxFrame := hfits (by simp [hsecret])
    have hhashLen : hash.length = hashLen := hhash hash hsecret
    have hwhole : d.take (maxFrame + hashLen) = d := List.take_of_length_le (by omega)
    obtain ⟨data, hrun, hlength, htake⟩ :=
      recvfrom_fits (maxFrame + hashLen) h.pkt (by rw [hwhole]; exact hle)
    rw [hwhole] at hrun htake
    rw [receive_secret hsecret hrun]
    have hsize : toSize (d.length : ℤ) = d.length := toSize_of_nonneg (by unfold maxFrame at hle; omega)
    have htaken : taken s d = if d.take hashLen = hash ∧ 12 ≤ (d.drop hashLen).length ∧
        source (d.drop hashLen) ≠ s.mac ∧ wants s (d.drop hashLen) = true then [d.drop hashLen] else [] := by
      unfold taken opened
      rw [hsecret]
      by_cases hmatch : d.take hashLen = hash
      · simp [hmatch]
      · simp [hmatch]
    have hframesSame : frames s.card.rx = frames s.card.rx ++ if full queueLen s.card.rx = true then [] else [] := by
      rw [ite_self, List.append_nil]
    by_cases hshort : d.length < hashLen + 12
    · have hnone : ¬ (d.take hashLen = hash ∧ 12 ≤ (d.drop hashLen).length ∧ source (d.drop hashLen) ≠ s.mac ∧
          wants s (d.drop hashLen) = true) := by
        rw [List.length_drop]
        omega
      rw [if_pos (Or.inr (Or.inl (by omega))), htaken, if_neg hnone]
      exact ⟨_, rfl, withData_safe h hlength, ⟨rfl, rfl, rfl, rfl, rfl, rfl, rfl⟩, hframesSame⟩
    · have hhead : data.take hashLen = d.take hashLen := by
        rw [← htake, List.take_take, Nat.min_eq_left (by omega)]
      by_cases hmatch : d.take hashLen = hash
      · obtain ⟨frame, hframe⟩ : ∃ frame, frame = d.drop hashLen := ⟨_, rfl⟩
        have hlength' : frame.length = d.length - hashLen := by rw [hframe, List.length_drop]
        have hlen : (d.length : ℤ) - hashLen = (frame.length : ℤ) := by omega
        have hsize' : toSize (frame.length : ℤ) = frame.length := toSize_of_nonneg (by unfold maxFrame at hle; omega)
        have hmoved : (data.drop hashLen).take frame.length = frame := by
          rw [hlength', ← List.drop_take, htake, hframe]
        have hgo : ¬ (foreign s from_ (d.length : ℤ) = true ∨ toSize (d.length : ℤ) < hashLen + 12 ∨
            data.take hashLen ≠ hash) := by
          rintro (hf | hs | ho)
          · exact hforeign _ hf
          · omega
          · exact ho (hhead.trans hmatch)
        rw [if_neg hgo, hlen, hsize', if_neg (by omega), hmoved]
        obtain ⟨r, hr⟩ : ∃ r : Switch,
            r = { s with pkt := { data := frame ++ data.drop frame.length, len := frame.length } } := ⟨_, rfl⟩
        have hsafe : Safe r := by
          rw [hr]
          refine ⟨?_, h.slots, h.queued, h.within, h.framed⟩
          change (_ ++ _ : List Byte).length = _
          rw [List.length_append, List.length_drop]
          omega
        obtain ⟨hsame, hframes⟩ := deliver_frames (data.drop frame.length) hsafe (by rw [hr]; exact hlink)
          (by rw [hr]) (by omega) (by omega : frame.length ≤ maxFrame)
        rw [← hr]
        refine ⟨_, rfl, deliver_safe hsafe (by omega) (by omega), ?_, ?_⟩
        · rw [hr] at hsame ⊢
          exact ⟨hsame.mac, hsame.promisc, hsame.secretHash, hsame.remote, hsame.linkDown, hsame.txVm, hsame.txHost⟩
        · rw [hframes, htaken, ← hframe, hr]
          simp only [hmatch, true_and, (by omega : 12 ≤ frame.length)]
          rfl
      · have hnone : ¬ (d.take hashLen = hash ∧ 12 ≤ (d.drop hashLen).length ∧ source (d.drop hashLen) ≠ s.mac ∧
          wants s (d.drop hashLen) = true) := fun h => hmatch h.1
        rw [if_pos (Or.inr (Or.inr (hhead ▸ hmatch))), htaken, if_neg hnone]
        exact ⟨_, rfl, withData_safe h hlength, ⟨rfl, rfl, rfl, rfl, rfl, rfl, rfl⟩, hframesSame⟩

theorem queuePut_frames {q : Queue} {frame : List Byte} (h : Within queueLen q) (hlow : 0 < frame.length)
    (hhigh : frame.length ≤ maxFrame) (hroom : full queueLen q = false) :
    Within queueLen (queuePut q frame) ∧ frames (queuePut q frame) = frames q ++ [frame] := by
  have hkeep : ¬ (frame.length = 0 ∨ maxFrame < frame.length ∨ full queueLen q = true) := by
    rintro (hzero | hlong | hfull)
    · omega
    · omega
    · rw [hroom] at hfull
      cases hfull
  unfold queuePut
  rw [if_neg hkeep]
  refine ⟨within_put h _, ?_⟩
  unfold frames
  rw [contents_put h hroom, List.map_append, List.map_singleton]
  unfold Packet.frame
  simp only [Int.toNat_natCast]
  rw [List.take_left' rfl]

theorem queueMove_frames {dst src : Queue} (hdst : Within queueLen dst) (hsrc : Within queueLen src) :
    match queueMove dst src with
    | none => True
    | some (dst', src') => Within queueLen dst' ∧ Within queueLen src' ∧
        frames dst' ++ frames src' = frames dst ++ frames src := by
  unfold queueMove
  cases hempty : empty src with
  | true => exact trivial
  | false =>
    cases hfull : full queueLen dst with
    | true => exact trivial
    | false =>
      refine ⟨within_put hdst _, within_get hsrc _, ?_⟩
      unfold frames
      have hget := contents_get hsrc hempty (put queueLen dst (src.slots src.tail)).2
      change ((contents queueLen (put queueLen dst (src.slots src.tail)).1).map Packet.frame ++
        (contents queueLen (SlotRing.get queueLen src (put queueLen dst (src.slots src.tail)).2).1).map Packet.frame) = _
      rw [contents_put hdst hfull, hget, List.map_append, List.map_singleton, List.map_cons, List.append_assoc]
      rfl

theorem popv_frames (n : ℕ) {q : Queue} (h : Within queueLen q) (v : ℕ → Packet) (i : ℕ) :
    ∃ q' v' k, popv q v i n = (q', v', i + k) ∧ Within queueLen q' ∧ (∀ j, j < i → v' j = v j) ∧
      frames q = (List.range' i k).map (fun j => (v' j).frame) ++ frames q' := by
  induction n generalizing q v i with
  | zero => exact ⟨q, v, 0, rfl, h, fun _ _ => rfl, rfl⟩
  | succ n ih =>
    unfold popv queueGetSwap
    cases hempty : empty q with
    | true => exact ⟨q, v, 0, rfl, h, fun _ _ => rfl, rfl⟩
    | false =>
      obtain ⟨q', v', k, hpop, hwithin, hsame, hframes⟩ :=
        ih (within_get h (v i)) (Function.update v i (get queueLen q (v i)).2) (i + 1)
      refine ⟨q', v', k + 1, ?_, hwithin, fun j hj => ?_, ?_⟩
      · rw [Nat.add_right_comm, Nat.add_assoc] at hpop
        simpa [Nat.add_assoc, Nat.add_comm] using hpop
      · rw [hsame j (by omega), Function.update_of_ne (by omega)]
      · have hfirst : v' i = (get queueLen q (v i)).2 := by
          rw [hsame i (by omega), Function.update_self]
        unfold frames at hframes ⊢
        rw [contents_get h hempty (v i), List.map_cons, hframes, List.range'_succ, List.map_cons, hfirst]
        rfl

theorem transmit_frames {s : Switch} (h : Within queueLen s.card.txHost) (hlink : s.linkDown = false) :
    ∃ out, frames s.card.txHost = out ++ frames (transmit s).1.card.txHost ∧
      Within queueLen (transmit s).1.card.txHost ∧ (transmit s).2 = out.map (datagram s) := by
  obtain ⟨q', v', k, hpop, hwithin, -, hframes⟩ := popv_frames queueLen h s.pktTx 0
  unfold transmit
  rw [hpop]
  refine ⟨_, hframes, hwithin, ?_⟩
  simp only [hlink, Bool.false_eq_true, if_false, List.map_map, Nat.zero_add, List.range_eq_range']
  rfl

structure Like (s s' : Switch) : Prop where
  mac : s'.mac = s.mac
  promisc : s'.promisc = s.promisc
  secretHash : s'.secretHash = s.secretHash
  remote : s'.remote = s.remote
  linkDown : s'.linkDown = s.linkDown

theorem like_trans {s s' s'' : Switch} (h : Like s s') (h' : Like s' s'') : Like s s'' :=
  ⟨h'.mac.trans h.mac, h'.promisc.trans h.promisc, h'.secretHash.trans h.secretHash, h'.remote.trans h.remote,
    h'.linkDown.trans h.linkDown⟩

theorem like_of_same {s s' : Switch} (h : Same s s') : Like s s' :=
  ⟨h.mac, h.promisc, h.secretHash, h.remote, h.linkDown⟩

theorem datagram_like {s s' : Switch} (h : Like s s') : datagram s' = datagram s := by
  funext frame
  unfold datagram
  rw [h.secretHash]

theorem taken_like {s s' : Switch} (h : Like s s') : taken s' = taken s := by
  funext d
  unfold taken opened wants
  rw [h.secretHash, h.mac, h.promisc]

/-- Both links are up, and a secret's hash has its length. -/
structure Ready (s : Switch) : Prop where
  link : s.linkDown = false
  hash : ∀ hash ∈ s.secretHash, hash.length = hashLen

theorem ready_like {s s' : Switch} (h : Ready s) (hlike : Like s s') : Ready s' :=
  ⟨hlike.linkDown.trans h.link, fun hash hhash => h.hash hash (hlike.secretHash ▸ hhash)⟩

structure Flow (a b : Switch) (net : Net) : Prop where
  likeA : Like a net.a
  likeB : Like b net.b
  safeA : Safe net.a
  safeB : Safe net.b
  txVm : Within queueLen net.a.card.txVm
  txHost : Within queueLen net.a.card.txHost
  sent : ∀ f ∈ net.sent, 12 ≤ f.length ∧ (datagram a f).length ≤ maxFrame ∧ source f ≠ b.mac
  queued : ∀ f ∈ frames net.a.card.txHost ++ frames net.a.card.txVm, f ∈ net.sent
  toB : ∀ d ∈ net.toB, ∃ f ∈ net.sent, d = datagram a f
  toA : ∀ d ∈ net.toA, ∃ f ∈ net.sent, d = datagram a f
  stream : net.got ++ net.toB.flatMap (taken b) ++
    (frames net.a.card.txHost ++ frames net.a.card.txVm).flatMap (fun f => taken b (datagram a f)) =
      net.sent.flatMap fun f => taken b (datagram a f)
  back : (∀ f ∈ net.sent, source f = a.mac) → net.back = []

/-- A frame has its two addresses and fits into a datagram with its hash, it does not bear the
receiver's address as its sender's, no queue is full, and one host interface goes to the receiver. -/
def Fits (net : Net) : Event → Prop
  | .tx f => 12 ≤ f.length ∧ (datagram net.a f).length ≤ maxFrame ∧ source f ≠ net.b.mac ∧
      full queueLen net.a.card.txVm = false
  | .thread => net.copies = 1
  | .arrive from_ => (net.b.remote = none ∨ net.b.remote = some from_) ∧ full queueLen net.b.card.rx = false
  | _ => True

theorem le_datagram (s : Switch) (f : List Byte) : f.length ≤ (datagram s f).length := by
  unfold datagram
  split
  · rw [List.length_append]
    omega
  · exact Nat.le_refl _

variable {a b : Switch} {net : Net}

theorem tx_flow (h : Flow a b net) {f : List Byte} (hfits : Fits net (.tx f)) :
    Flow a b { net with a := networkTx net.a f, sent := net.sent ++ [f] } := by
  obtain ⟨hlow, hhigh, hsource, hroom⟩ := hfits
  rw [datagram_like h.likeA] at hhigh
  rw [h.likeB.mac] at hsource
  have hle : f.length ≤ maxFrame := Nat.le_trans (le_datagram a f) hhigh
  obtain ⟨hwithin, hframes⟩ := queuePut_frames h.txVm (by omega) hle hroom
  have hold {x : List Byte} (hx : x ∈ net.sent) : x ∈ net.sent ++ [f] := List.mem_append_left _ hx
  have hsafe : Safe (networkTx net.a f) := ⟨h.safeA.pkt, h.safeA.slots, h.safeA.queued, h.safeA.within, h.safeA.framed⟩
  have hlike : Like net.a (networkTx net.a f) := ⟨rfl, rfl, rfl, rfl, rfl⟩
  refine ⟨like_trans h.likeA hlike, h.likeB, hsafe, h.safeB, hwithin, h.txHost, ?_, ?_, ?_, ?_, ?_, ?_⟩
  · intro g hg
    rcases List.mem_append.mp hg with hg | hg
    · exact h.sent g hg
    · rw [List.mem_singleton.mp hg]
      exact ⟨hlow, hhigh, hsource⟩
  · intro g hg
    change g ∈ frames net.a.card.txHost ++ frames (queuePut net.a.card.txVm f) at hg
    rw [hframes, ← List.append_assoc] at hg
    rcases List.mem_append.mp hg with hg | hg
    · exact hold (h.queued g hg)
    · exact List.mem_append_right _ hg
  · exact fun d hd => (h.toB d hd).imp fun g hg => ⟨hold hg.1, hg.2⟩
  · exact fun d hd => (h.toA d hd).imp fun g hg => ⟨hold hg.1, hg.2⟩
  · change net.got ++ net.toB.flatMap (taken b) ++
      (frames net.a.card.txHost ++ frames (queuePut net.a.card.txVm f)).flatMap _ = (net.sent ++ [f]).flatMap _
    rw [hframes, ← List.append_assoc (frames net.a.card.txHost), List.flatMap_append, ← List.append_assoc, h.stream,
      List.flatMap_append]
  · exact fun hown => h.back fun g hg => hown g (hold hg)

theorem move_flow (h : Flow a b net) : Flow a b { net with a := move net.a } := by
  have hmove := queueMove_frames h.txHost h.txVm
  unfold move
  cases hqueues : queueMove net.a.card.txHost net.a.card.txVm with
  | none => exact h
  | some queues =>
    obtain ⟨txHost, txVm⟩ := queues
    rw [hqueues] at hmove
    obtain ⟨hhost, hvm, hframes⟩ := hmove
    refine ⟨⟨h.likeA.mac, h.likeA.promisc, h.likeA.secretHash, h.likeA.remote, h.likeA.linkDown⟩, h.likeB,
      ⟨h.safeA.pkt, h.safeA.slots, h.safeA.queued, h.safeA.within, h.safeA.framed⟩, h.safeB, hvm, hhost, h.sent, ?_,
      h.toB, h.toA, ?_, h.back⟩
    · change ∀ f ∈ frames txHost ++ frames txVm, f ∈ net.sent
      rw [hframes]
      exact h.queued
    · change net.got ++ net.toB.flatMap (taken b) ++ (frames txHost ++ frames txVm).flatMap _ = _
      rw [hframes]
      exact h.stream

theorem thread_flow (ha : Ready a) (h : Flow a b net) (hfits : Fits net .thread) :
    ∃ net', step net .thread = .ok net' ∧ Flow a b net' := by
  obtain ⟨out, hframes, hwithin, hout⟩ := transmit_frames h.txHost (ready_like ha h.likeA).link
  rw [datagram_like h.likeA] at hout
  have hreplicate : (transmit net.a).2.flatMap (List.replicate net.copies) = out.map (datagram a) := by
    change net.copies = 1 at hfits
    rw [hout, hfits]
    exact List.flatMap_singleton' _
  have hknown {f : List Byte} (hf : f ∈ out) : f ∈ net.sent := by
    refine h.queued f (List.mem_append_left _ ?_)
    rw [hframes]
    exact List.mem_append_left _ hf
  refine ⟨_, rfl, ⟨like_trans h.likeA ⟨rfl, rfl, rfl, rfl, rfl⟩, h.likeB, transmit_safe h.safeA, h.safeB, h.txVm, hwithin,
    h.sent, ?_, ?_, ?_, ?_, h.back⟩⟩
  · intro f hf
    refine h.queued f ?_
    rcases List.mem_append.mp hf with hf | hf
    · rw [hframes]
      exact List.mem_append_left _ (List.mem_append_right _ hf)
    · exact List.mem_append_right _ hf
  · intro d hd
    change d ∈ net.toB ++ (transmit net.a).2.flatMap (List.replicate net.copies) at hd
    rw [hreplicate] at hd
    rcases List.mem_append.mp hd with hd | hd
    · exact h.toB d hd
    · obtain ⟨f, hf, rfl⟩ := List.mem_map.mp hd
      exact ⟨f, hknown hf, rfl⟩
  · intro d hd
    change d ∈ net.toA ++ (transmit net.a).2.flatMap (List.replicate net.loops) at hd
    rcases List.mem_append.mp hd with hd | hd
    · exact h.toA d hd
    · obtain ⟨e, he, hd⟩ := List.mem_flatMap.mp hd
      rw [hout] at he
      obtain ⟨f, hf, rfl⟩ := List.mem_map.mp he
      exact ⟨f, hknown hf, List.eq_of_mem_replicate hd⟩
  · change net.got ++ (net.toB ++ (transmit net.a).2.flatMap (List.replicate net.copies)).flatMap (taken b) ++
      (frames (transmit net.a).1.card.txHost ++ frames net.a.card.txVm).flatMap _ = net.sent.flatMap _
    rw [hreplicate, ← h.stream, hframes]
    simp only [List.flatMap_append, List.flatMap_map, List.append_assoc]

theorem arrive_flow (hb : Ready b) (h : Flow a b net) {from_ : Peer} (hfits : Fits net (.arrive from_)) :
    ∃ net', step net (.arrive from_) = .ok net' ∧ Flow a b net' := by
  unfold step
  cases hwire : net.toB with
  | nil => exact ⟨net, rfl, h⟩
  | cons d rest =>
    obtain ⟨hfrom, hroom⟩ := hfits
    have hready := ready_like hb h.likeB
    obtain ⟨f, hf, hd⟩ := h.toB d (by simp [hwire])
    obtain ⟨s', hrun, hsafe, hsame, hframes⟩ :=
      receive_frames h.safeB hready.link hfrom (fun _ => hd ▸ (h.sent f hf).2.1) hready.hash
    rw [if_neg (by simp [hroom]), taken_like h.likeB] at hframes
    have hadded : added net.b s' = taken b d := by
      unfold added
      rw [hframes]
      simp
    simp only [hrun]
    refine ⟨_, rfl, ⟨h.likeA, like_trans h.likeB (like_of_same hsame), h.safeA, hsafe, h.txVm, h.txHost, h.sent, h.queued,
      fun e he => h.toB e (by simp [hwire, he]), h.toA, ?_, h.back⟩⟩
    change (net.got ++ added net.b s') ++ rest.flatMap (taken b) ++ _ = _
    rw [hadded, ← h.stream, hwire]
    simp only [List.flatMap_cons, List.append_assoc]

theorem receive_any {s : Switch} (from_ : Peer) {d : List Byte} (h : Safe s) (hready : Ready s)
    (hle : d.length ≤ maxFrame) :
    ∃ s', receive s from_ (.datagram d) = .ok s' ∧ Safe s' ∧ Same s s' ∧
      (taken s d = [] → frames s'.card.rx = frames s.card.rx) := by
  by_cases hfrom : s.remote = none ∨ s.remote = some from_
  · obtain ⟨s', hrun, hsafe, hsame, hframes⟩ := receive_frames h hready.link hfrom (fun _ => hle) hready.hash
    refine ⟨s', hrun, hsafe, hsame, fun hnone => ?_⟩
    rw [hframes, hnone, ite_self, List.append_nil]
  · have hforeign (n : ℤ) : foreign s from_ n = true := by
      unfold foreign
      cases hremote : s.remote with
      | none => exact absurd (Or.inl hremote) hfrom
      | some peer =>
        have hne : from_ ≠ peer := fun heq => hfrom (Or.inr (by rw [hremote, heq]))
        simp [hne]
    cases hsecret : s.secretHash with
    | none =>
      obtain ⟨data, hrun, hlength, -⟩ := recvfrom_fits maxFrame h.pkt (List.length_take_le _ d)
      rw [receive_plain hsecret hrun, if_pos (Or.inl (hforeign _))]
      exact ⟨_, rfl, withData_safe h hlength, ⟨rfl, rfl, rfl, rfl, rfl, rfl, rfl⟩, fun _ => rfl⟩
    | some hash =>
      have htake : (d.take (maxFrame + hashLen)).length ≤ maxFrame := by
        rw [List.length_take]
        omega
      obtain ⟨data, hrun, hlength, -⟩ := recvfrom_fits (maxFrame + hashLen) h.pkt htake
      rw [receive_secret hsecret hrun, if_pos (Or.inl (hforeign _))]
      exact ⟨_, rfl, withData_safe h hlength, ⟨rfl, rfl, rfl, rfl, rfl, rfl, rfl⟩, fun _ => rfl⟩

theorem opened_datagram (ha : Ready a) (hsecret : b.secretHash = a.secretHash) {f : List Byte}
    (hle : f.length ≤ maxFrame) : opened b (datagram a f) = some f := by
  unfold opened datagram
  rw [hsecret]
  cases hhash : a.secretHash with
  | none =>
    simp only
    rw [List.take_of_length_le hle]
  | some hash =>
    have hlen := ha.hash hash hhash
    simp only
    rw [← hlen, List.take_left' rfl, if_pos rfl, List.drop_left' rfl]

theorem taken_datagram (ha : Ready a) (hsecret : b.secretHash = a.secretHash) {f : List Byte}
    (hlow : 12 ≤ f.length) (hle : f.length ≤ maxFrame) :
    taken b (datagram a f) = if source f ≠ b.mac ∧ wants b f = true then [f] else [] := by
  unfold taken
  rw [opened_datagram ha hsecret hle]
  simp [hlow]

theorem loopBack_flow (ha : Ready a) (h : Flow a b net) (from_ : Peer) :
    ∃ net', step net (.loopBack from_) = .ok net' ∧ Flow a b net' := by
  unfold step
  cases hwire : net.toA with
  | nil => exact ⟨net, rfl, h⟩
  | cons d rest =>
    obtain ⟨f, hf, hd⟩ := h.toA d (by simp [hwire])
    obtain ⟨hlow, hhigh, -⟩ := h.sent f hf
    obtain ⟨s', hrun, hsafe, hsame, hframes⟩ :=
      receive_any from_ h.safeA (ready_like ha h.likeA) (hd ▸ hhigh)
    simp only [hrun]
    refine ⟨_, rfl, ⟨like_trans h.likeA (like_of_same hsame), h.likeB, hsafe, h.safeB, ?_, ?_, h.sent, ?_, h.toB,
      fun e he => h.toA e (by simp [hwire, he]), ?_, fun hown => ?_⟩⟩
    · change Within queueLen s'.card.txVm
      rw [hsame.txVm]
      exact h.txVm
    · change Within queueLen s'.card.txHost
      rw [hsame.txHost]
      exact h.txHost
    · change ∀ g ∈ frames s'.card.txHost ++ frames s'.card.txVm, g ∈ net.sent
      rw [hsame.txVm, hsame.txHost]
      exact h.queued
    · change _ ++ (frames s'.card.txHost ++ frames s'.card.txVm).flatMap _ = _
      rw [hsame.txVm, hsame.txHost]
      exact h.stream
    · -- the sender knows its own address
      have hnone : taken net.a d = [] := by
        rw [taken_like h.likeA, hd, taken_datagram ha rfl hlow (Nat.le_trans (le_datagram a f) hhigh)]
        simp [hown f hf]
      change net.back ++ added net.a s' = []
      unfold added
      rw [h.back hown, hframes hnone]
      simp

theorem rxQueue_same (s : Switch) (taken : Bool) : Same s (rxQueue s taken) := by
  unfold rxQueue
  dsimp only
  split
  · split
    · split
      · exact ⟨rfl, rfl, rfl, rfl, rfl, rfl, rfl⟩
      · exact ⟨rfl, rfl, rfl, rfl, rfl, rfl, rfl⟩
    · exact ⟨rfl, rfl, rfl, rfl, rfl, rfl, rfl⟩
  · split
    · split
      · exact ⟨rfl, rfl, rfl, rfl, rfl, rfl, rfl⟩
      · exact ⟨rfl, rfl, rfl, rfl, rfl, rfl, rfl⟩
    · exact ⟨rfl, rfl, rfl, rfl, rfl, rfl, rfl⟩

theorem readA_flow (h : Flow a b net) (taken : Bool) : Flow a b { net with a := rxQueue net.a taken } := by
  have hsame := rxQueue_same net.a taken
  refine ⟨like_trans h.likeA (like_of_same hsame), h.likeB, rxQueue_safe h.safeA taken, h.safeB, ?_, ?_, h.sent, ?_, h.toB,
    h.toA, ?_, h.back⟩
  · change Within queueLen (rxQueue net.a taken).card.txVm
    rw [hsame.txVm]
    exact h.txVm
  · change Within queueLen (rxQueue net.a taken).card.txHost
    rw [hsame.txHost]
    exact h.txHost
  · change ∀ g ∈ frames (rxQueue net.a taken).card.txHost ++ frames (rxQueue net.a taken).card.txVm, g ∈ net.sent
    rw [hsame.txVm, hsame.txHost]
    exact h.queued
  · change _ ++ (frames (rxQueue net.a taken).card.txHost ++ frames (rxQueue net.a taken).card.txVm).flatMap _ = _
    rw [hsame.txVm, hsame.txHost]
    exact h.stream

theorem step_flow (ha : Ready a) (hb : Ready b) {e : Event} (h : Flow a b net) (hfits : Fits net e) :
    ∃ net', step net e = .ok net' ∧ Flow a b net' := by
  cases e with
  | tx f => exact ⟨_, rfl, tx_flow h hfits⟩
  | move => exact ⟨_, rfl, move_flow h⟩
  | thread => exact thread_flow ha h hfits
  | arrive from_ => exact arrive_flow hb h hfits
  | loopBack from_ => exact loopBack_flow ha h from_
  | readA taken => exact ⟨_, rfl, readA_flow h taken⟩
  | readB taken =>
    exact ⟨_, rfl, ⟨h.likeA, like_trans h.likeB (like_of_same (rxQueue_same net.b taken)), h.safeA,
      rxQueue_safe h.safeB taken, h.txVm, h.txHost, h.sent, h.queued, h.toB, h.toA, h.stream, h.back⟩⟩

def Orderly (net : Net) (events : List Event) : Prop := GuardedRuns.Orderly step Fits net events

/-- How two instances are set up; `hash` is the one of `net_switch_secret_hash`. -/
structure Setup where
  mac : List Byte
  promisc : Bool
  secret : Option (List Byte)
  remote : Option Peer

def Setup.switch (hash : List Byte → List Byte) (c : Setup) : Switch := init c.mac c.promisc (c.secret.map hash) c.remote

def begin_ (hash : List Byte → List Byte) (cA cB : Setup) (copies loops : ℕ) : Net where
  a := cA.switch hash
  b := cB.switch hash
  copies := copies
  loops := loops
  toB := []
  toA := []
  sent := []
  got := []
  back := []

/-- The frames that have not reached the receiver `b` yet. -/
def waiting (b : Switch) (net : Net) : List (List Byte) :=
  net.toB.filterMap (opened b) ++ (frames net.a.card.txHost ++ frames net.a.card.txVm)

theorem frames_emptyQueue : frames emptyQueue = [] := by
  unfold frames
  rw [contents_empty ⟨Nat.zero_lt_succ 15, Nat.zero_lt_succ 15⟩ rfl]
  rfl

theorem begin_flow (hash : List Byte → List Byte) (cA cB : Setup) (copies loops : ℕ) :
    Flow (cA.switch hash) (cB.switch hash) (begin_ hash cA cB copies loops) := by
  have hwithin : Within queueLen emptyQueue := ⟨Nat.zero_lt_succ 15, Nat.zero_lt_succ 15⟩
  have hnone : frames emptyQueue ++ frames emptyQueue = [] := by rw [frames_emptyQueue, List.append_nil]
  refine ⟨⟨rfl, rfl, rfl, rfl, rfl⟩, ⟨rfl, rfl, rfl, rfl, rfl⟩, init_safe _ _ _ _, init_safe _ _ _ _, hwithin, hwithin,
    fun f hf => (by cases hf), fun f hf => ?_, fun d hd => (by cases hd), fun d hd => (by cases hd), ?_, fun _ => rfl⟩
  · change f ∈ frames emptyQueue ++ frames emptyQueue at hf
    rw [hnone] at hf
    cases hf
  · change [] ++ [] ++ (frames emptyQueue ++ frames emptyQueue).flatMap _ = _
    rw [hnone]
    rfl

theorem ready_switch {hash : List Byte → List Byte} (hlen : ∀ secret, (hash secret).length = hashLen) (c : Setup) :
    Ready (c.switch hash) := by
  refine ⟨rfl, fun h hh => ?_⟩
  obtain ⟨secret, -, rfl⟩ := Option.map_eq_some_iff.mp hh
  exact hlen secret

theorem flatMap_taken (ha : Ready a) (hsecret : b.secretHash = a.secretHash) {fs : List (List Byte)}
    (hfs : ∀ f ∈ fs, 12 ≤ f.length ∧ (datagram a f).length ≤ maxFrame ∧ source f ≠ b.mac) :
    fs.flatMap (fun f => taken b (datagram a f)) = fs.filter (wants b) := by
  induction fs with
  | nil => rfl
  | cons f fs ih =>
    obtain ⟨hlow, hhigh, hsource⟩ := hfs f List.mem_cons_self
    rw [List.flatMap_cons, ih fun g hg => hfs g (List.mem_cons_of_mem f hg),
      taken_datagram ha hsecret hlow (Nat.le_trans (le_datagram a f) hhigh), List.filter_cons]
    cases hwants : wants b f with
    | true => simp [hsource]
    | false => simp

theorem flatMap_wire (ha : Ready a) (hsecret : b.secretHash = a.secretHash) {fs wire : List (List Byte)}
    (hfs : ∀ f ∈ fs, 12 ≤ f.length ∧ (datagram a f).length ≤ maxFrame ∧ source f ≠ b.mac)
    (hwire : ∀ d ∈ wire, ∃ f ∈ fs, d = datagram a f) :
    wire.flatMap (taken b) = (wire.filterMap (opened b)).filter (wants b) := by
  induction wire with
  | nil => rfl
  | cons d wire ih =>
    obtain ⟨f, hf, rfl⟩ := hwire d List.mem_cons_self
    obtain ⟨hlow, hhigh, hsource⟩ := hfs f hf
    have hle := Nat.le_trans (le_datagram a f) hhigh
    rw [List.flatMap_cons, ih fun e he => hwire e (List.mem_cons_of_mem _ he), taken_datagram ha hsecret hlow hle,
      List.filterMap_cons, opened_datagram ha hsecret hle]
    simp only
    rw [List.filter_cons]
    cases hwants : wants b f with
    | true => simp [hsource]
    | false => simp

theorem got_nil (h : Flow a b net) (hnone : ∀ f ∈ net.sent, taken b (datagram a f) = []) : net.got = [] := by
  have hstream := h.stream
  rw [List.flatMap_eq_nil_iff.mpr hnone, List.append_eq_nil_iff, List.append_eq_nil_iff] at hstream
  exact hstream.1.1

/-- SHA3-256 of "abc". -/
def someHash : List Byte :=
  [0x3A, 0x98, 0x5D, 0xA7, 0x4F, 0xE2, 0x25, 0xB2, 0x04, 0x5C, 0x17, 0x2D, 0x6B, 0xD3, 0x90, 0xBD,
    0x85, 0x5F, 0x08, 0x6E, 0x3E, 0x9D, 0x52, 0x5B, 0x46, 0xBF, 0xE2, 0x45, 0x11, 0x43, 0x15, 0x32]

def peer : Peer := { addr := 0x0A000001, port := 8086 }

def macA : List Byte := [0x02, 0, 0, 0, 0, 0x0A]

def macB : List Byte := [0x02, 0, 0, 0, 0, 0x0B]

def ether (dest source : List Byte) (n : ℕ) : List Byte := dest ++ source ++ List.replicate (n - 12) 0x55

def secretive (mac : List Byte) : Setup := { mac := mac, promisc := false, secret := some [0x61, 0x62, 0x63], remote := none }

def plain (mac : List Byte) (promisc : Bool) : Setup := { mac := mac, promisc := promisc, secret := none, remote := none }

def passage (frame : List Byte) : List Event := [.tx frame, .move, .thread, .arrive peer, .loopBack peer]

instance (net : Net) (e : Event) : Decidable (Fits net e) :=
  match e with
  | .tx _ => inferInstanceAs (Decidable (_ ∧ _))
  | .move => inferInstanceAs (Decidable True)
  | .thread => inferInstanceAs (Decidable (_ = _))
  | .arrive _ => inferInstanceAs (Decidable (_ ∧ _))
  | .loopBack _ => inferInstanceAs (Decidable True)
  | .readA _ => inferInstanceAs (Decidable True)
  | .readB _ => inferInstanceAs (Decidable True)

/-- What is put on B's queue and on A's, unless the run faults. -/
def outcome (r : Except Fault Net) : Option (List (List Byte) × List (List Byte)) :=
  match r with
  | .ok net => some (net.got, net.back)
  | .error _ => none

end PeepeeBox.NetDelivery
