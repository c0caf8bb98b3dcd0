import PeepeeBox.GuardedRuns
import PeepeeBox.NetSwitch

set_option autoImplicit false

/-!
# What the network switch receives

The buffers change hands between the switch and the card's queues, and all of them are of the one
size that a frame without its hash needs.
-/
namespace PeepeeBox.NetReceive
open SlotRing NetSwitch

def Roomy (p : Packet) : Prop := p.data.length = maxFrame

/-- What the card is given: a frame with its two addresses. -/
def Framed (p : Packet) : Prop := 12 ≤ p.len ∧ p.len ≤ maxFrame

structure Safe (s : Switch) : Prop where
  pkt : Roomy s.pkt
  slots : ∀ i, Roomy (s.card.rx.slots i)
  queued : Roomy s.card.queued
  within : Within queueLen s.card.rx
  framed : ∀ p ∈ contents queueLen s.card.rx, Framed p

inductive Event where
  | receive (from_ : Peer) (r : Received)
  | transmit
  | networkTx (frame : List Byte)
  | move
  | read (taken : Bool)
  | link (down : Bool)

def step (s : Switch) : Event → Except Fault Switch
  | .receive from_ r => receive s from_ r
  | .transmit => .ok (transmit s).1
  | .networkTx frame => .ok (networkTx s frame)
  | .move => .ok (move s)
  | .read taken => .ok (rxQueue s taken)
  | .link down => .ok { s with linkDown := down }

/-- With a secret, no datagram is longer than a frame, and no error comes to the local switch while
its buffer begins with the hash. -/
def Fits (s : Switch) : Event → Prop
  | .receive _ (.datagram bytes) => s.secretHash.isSome = true → bytes.length ≤ maxFrame
  | .receive _ (.error _) => s.remote = none → ∀ hash ∈ s.secretHash, s.pkt.data.take hashLen ≠ hash
  | _ => True

instance (s : Switch) (e : Event) : Decidable (Fits s e) :=
  match e with
  | .receive _ (.datagram _) => inferInstanceAs (Decidable (_ → _))
  | .receive _ (.error _) => inferInstanceAs (Decidable (_ → _))
  | .transmit => inferInstanceAs (Decidable True)
  | .networkTx _ => inferInstanceAs (Decidable True)
  | .move => inferInstanceAs (Decidable True)
  | .read _ => inferInstanceAs (Decidable True)
  | .link _ => inferInstanceAs (Decidable True)

def run (s : Switch) (events : List Event) : Except Fault Switch := GuardedRuns.run step s events

def Orderly (s : Switch) (events : List Event) : Prop := GuardedRuns.Orderly step Fits s events

theorem recvfrom_fits {buf bytes : List Byte} (max : ℕ) (hbuf : buf.length = maxFrame)
    (hmax : (bytes.take max).length ≤ maxFrame) :
    ∃ data, recvfrom buf max (.datagram bytes) = .ok (data, ((bytes.take max).length : ℤ)) ∧ data.length = maxFrame ∧
      data.take (bytes.take max).length = bytes.take max := by
  unfold recvfrom
  simp only
  rw [if_neg (by omega)]
  refine ⟨_, rfl, ?_, List.take_left' rfl⟩
  rw [List.length_append, List.length_drop]
  omega

theorem deliver_safe {s : Switch} {len : ℤ} (h : Safe s) (hlow : 12 ≤ len) (hhigh : len ≤ maxFrame) :
    Safe (deliver s len) := by
  unfold deliver
  split
  · exact h
  · split
    · by_cases hdrop : len = 0 ∨ (maxFrame : ℤ) < len ∨ full queueLen s.card.rx = true
      · simp only [queuePutSwap, if_pos hdrop]
        exact ⟨h.pkt, h.slots, h.queued, h.within, h.framed⟩
      · simp only [queuePutSwap, if_neg hdrop]
        rw [not_or, not_or] at hdrop
        have hfull : full queueLen s.card.rx = false := by simpa using hdrop.2.2
        have hslots := slots_put (n := queueLen) h.slots (x := { s.pkt with len := len }) h.pkt
        refine ⟨hslots.2, hslots.1, h.queued, within_put h.within _, fun p hp => ?_⟩
        change p ∈ contents queueLen (put queueLen s.card.rx { s.pkt with len := len }).1 at hp
        rw [contents_put h.within hfull, List.mem_append, List.mem_singleton] at hp
        rcases hp with hp | rfl
        · exact h.framed p hp
        · exact ⟨hlow, hhigh⟩
    · exact h

theorem toSize_of_nonneg {n : ℕ} (h : n < 2 ^ 64) : toSize n = n := by
  unfold toSize
  omega

def withData (s : Switch) (data : List Byte) : Switch := { s with pkt := { s.pkt with data := data } }

section
variable {s : Switch} {from_ : Peer} {r : Received} {data : List Byte} {len : ℤ}

theorem receive_plain (hsecret : s.secretHash = none) (hrun : recvfrom s.pkt.data maxFrame r = .ok (data, len)) :
    receive s from_ r =
      .ok (if foreign s from_ len = true ∨ len < 12 then withData s data else deliver (withData s data) len) := by
  unfold receive
  split
  · rename_i hash hsome
    rw [hsecret] at hsome
    cases hsome
  · rw [hrun]
    change (if foreign s from_ len = true then Except.ok (withData s data) else
      if len < 12 then .ok (withData s data) else .ok (deliver (withData s data) len)) = _
    by_cases hforeign : foreign s from_ len = true
    · rw [if_pos hforeign, if_pos (Or.inl hforeign)]
    · by_cases hshort : len < 12
      · rw [if_neg hforeign, if_pos hshort, if_pos (Or.inr hshort)]
      · rw [if_neg hforeign, if_neg hshort, if_neg (by tauto)]

theorem receive_secret {hash : List Byte} (hsecret : s.secretHash = some hash)
    (hrun : recvfrom s.pkt.data (maxFrame + hashLen) r = .ok (data, len)) :
    receive s from_ r =
      if foreign s from_ len = true ∨ toSize len < hashLen + 12 ∨ data.take hashLen ≠ hash then .ok (withData s data)
      else if data.length < hashLen + toSize (len - hashLen) then .error .size
      else
        .ok (deliver
          { s with
            pkt :=
              { data := (data.drop hashLen).take (toSize (len - hashLen)) ++ data.drop (toSize (len - hashLen))
                len := len - hashLen } }
          (len - hashLen)) := by
  unfold receive
  split
  · rename_i hash' hsome
    obtain rfl := Option.some.inj (hsecret.symm.trans hsome)
    rw [hrun]
    change (if foreign s from_ len = true then Except.ok (withData s data) else
      if toSize len < hashLen + 12 then .ok (withData s data) else
      if data.take hashLen ≠ hash then .ok (withData s data) else _) = _
    by_cases hforeign : foreign s from_ len = true
    · rw [if_pos hforeign, if_pos (Or.inl hforeign)]
    · by_cases hshort : toSize len < hashLen + 12
      · rw [if_neg hforeign, if_pos hshort, if_pos (Or.inr (Or.inl hshort))]
      · by_cases hother : data.take hashLen ≠ hash
        · rw [if_neg hforeign, if_neg hshort, if_pos hother, if_pos (Or.inr (Or.inr hother))]
        · have hgo : ¬ (foreign s from_ len = true ∨ toSize len < hashLen + 12 ∨ data.take hashLen ≠ hash) := by tauto
          rw [if_neg hforeign, if_neg hshort, if_neg hother, if_neg hgo]
  · rename_i hnone
    rw [hsecret] at hnone
    cases hnone

end

theorem withData_safe {s : Switch} (h : Safe s) {data : List Byte} (hlength : data.length = maxFrame) :
    Safe (withData s data) := ⟨hlength, h.slots, h.queued, h.within, h.framed⟩

theorem datagram_safe {s : Switch} {from_ : Peer} {bytes : List Byte} (h : Safe s)
    (hfits : s.secretHash.isSome = true → bytes.length ≤ maxFrame) :
    ∃ s', receive s from_ (.datagram bytes) = .ok s' ∧ Safe s' := by
  cases hsecret : s.secretHash with
  | none =>
    obtain ⟨data, hrun, hlength, -⟩ := recvfrom_fits maxFrame h.pkt (List.length_take_le _ bytes)
    refine ⟨_, receive_plain hsecret hrun, ?_⟩
    split
    · exact withData_safe h hlength
    · rename_i hlong
      rw [not_or] at hlong
      have htake := List.length_take_le maxFrame bytes
      exact deliver_safe (withData_safe h hlength) (by omega) (by omega)
  | some hash =>
    have hle : bytes.length ≤ maxFrame := hfits (by simp [hsecret])
    have hwhole : bytes.take (maxFrame + hashLen) = bytes := List.take_of_length_le (by omega)
    obtain ⟨data, hrun, hlength, -⟩ := recvfrom_fits (maxFrame + hashLen) h.pkt (by rw [hwhole]; exact hle)
    rw [hwhole] at hrun
    rw [receive_secret hsecret hrun]
    split
    · exact ⟨_, rfl, withData_safe h hlength⟩
    · rename_i hlong
      rw [not_or, not_or] at hlong
      have hsize : toSize (bytes.length : ℤ) = bytes.length := toSize_of_nonneg (by unfold maxFrame at hle; omega)
      have hminimum : hashLen + 12 ≤ bytes.length := by omega
      have hrest : toSize ((bytes.length : ℤ) - hashLen) = bytes.length - hashLen := by
        rw [← Int.ofNat_sub (by omega)]
        exact toSize_of_nonneg (by unfold maxFrame at hle; omega)
      rw [hrest, if_neg (by omega)]
      refine ⟨_, rfl, deliver_safe ⟨?_, h.slots, h.queued, h.within, h.framed⟩ (by omega) (by omega)⟩
      change (_ ++ _ : List Byte).length = _
      rw [List.length_append, List.length_take, List.length_drop, List.length_drop]
      omega

theorem error_keeps {s : Switch} {from_ : Peer} {n : ℕ}
    (hfits : s.remote = none → ∀ hash ∈ s.secretHash, s.pkt.data.take hashLen ≠ hash) :
    receive s from_ (.error n) = .ok s := by
  cases hsecret : s.secretHash with
  | none =>
    have hrun : recvfrom s.pkt.data maxFrame (.error n) = .ok (s.pkt.data, Int.negSucc n) := rfl
    rw [receive_plain hsecret hrun, if_pos (Or.inr (by omega))]
    rfl
  | some hash =>
    have hrun : recvfrom s.pkt.data (maxFrame + hashLen) (.error n) = .ok (s.pkt.data, Int.negSucc n) := rfl
    rw [receive_secret hsecret hrun, if_pos]
    · rfl
    · cases hremote : s.remote with
      | none => exact Or.inr (Or.inr (hfits hremote hash hsecret))
      | some peer =>
        refine Or.inl ?_
        unfold foreign
        rw [hremote]
        simp

theorem transmit_safe {s : Switch} (h : Safe s) : Safe (transmit s).1 := ⟨h.pkt, h.slots, h.queued, h.within, h.framed⟩

theorem move_safe {s : Switch} (h : Safe s) : Safe (move s) := by
  unfold move
  split
  · exact h
  · exact ⟨h.pkt, h.slots, h.queued, h.within, h.framed⟩

theorem rxQueue_safe {s : Switch} (h : Safe s) (taken : Bool) : Safe (rxQueue s taken) := by
  have hsettled (t : Switch) (ht : Safe t) :
      Safe (if taken then { t with card := { t.card with queued := { t.card.queued with len := 0 } } } else t) := by
    split
    · exact ⟨ht.pkt, ht.slots, ht.queued, ht.within, ht.framed⟩
    · exact ht
  unfold rxQueue
  refine hsettled _ ?_
  split
  · unfold queueGetSwap
    cases hempty : empty s.card.rx with
    | true => exact h
    | false =>
      have hslots := slots_get (n := queueLen) h.slots h.queued
      refine ⟨h.pkt, hslots.1, hslots.2, within_get h.within _, fun p hp => h.framed p ?_⟩
      rw [contents_get h.within hempty s.card.queued]
      exact List.mem_cons_of_mem _ hp
  · exact h

theorem step_safe {s : Switch} {e : Event} (h : Safe s) (hfits : Fits s e) : ∃ s', step s e = .ok s' ∧ Safe s' := by
  cases e with
  | receive from_ r =>
    cases r with
    | error n => exact ⟨s, error_keeps hfits, h⟩
    | datagram bytes => exact datagram_safe h hfits
  | transmit => exact ⟨_, rfl, transmit_safe h⟩
  | networkTx frame => exact ⟨_, rfl, ⟨h.pkt, h.slots, h.queued, h.within, h.framed⟩⟩
  | move => exact ⟨_, rfl, move_safe h⟩
  | read taken => exact ⟨_, rfl, rxQueue_safe h taken⟩
  | link down => exact ⟨_, rfl, ⟨h.pkt, h.slots, h.queued, h.within, h.framed⟩⟩

theorem init_safe (mac : List Byte) (promisc : Bool) (secretHash : Option (List Byte)) (remote : Option Peer) :
    Safe (init mac promisc secretHash remote) := by
  have hblank : Roomy blank := List.length_replicate
  have hwithin : Within queueLen emptyQueue := ⟨Nat.zero_lt_succ 15, Nat.zero_lt_succ 15⟩
  have hempty : contents queueLen (init mac promisc secretHash remote).card.rx = [] := contents_empty hwithin rfl
  refine ⟨hblank, fun _ => hblank, hblank, hwithin, fun p hp => ?_⟩
  rw [hempty] at hp
  cases hp

/-- The buffers hold what is written to them, and every frame on the card's queue is one. -/
theorem switch_safe (mac : List Byte) (promisc : Bool) (secretHash : Option (List Byte)) (remote : Option Peer)
    (events : List Event) (horderly : Orderly (init mac promisc secretHash remote) events) :
    ∃ s, run (init mac promisc secretHash remote) events = .ok s ∧ s.pkt.data.length = maxFrame ∧
      ∀ p ∈ contents queueLen s.card.rx, 12 ≤ p.len ∧ p.len ≤ maxFrame ∧ p.frame.length = p.len := by
  obtain ⟨s, hrun, hsafe⟩ := GuardedRuns.run_keeps (fun _ _ => step_safe) (init_safe mac promisc secretHash remote) horderly
  refine ⟨s, hrun, hsafe.pkt, fun p hp => ?_⟩
  obtain ⟨hlow, hhigh⟩ := hsafe.framed p hp
  obtain ⟨i, -, rfl⟩ := List.mem_map.mp hp
  refine ⟨hlow, hhigh, ?_⟩
  have hroomy : (s.card.rx.slots ((s.card.rx.tail + i) % queueLen)).data.length = maxFrame := hsafe.slots _
  unfold Packet.frame
  rw [List.length_take, hroomy]
  omega

def someHash : List Byte := (List.range hashLen).map fun i => BitVec.ofNat 8 (2 * i + 2)

def somePeer : Peer := { addr := 0x0A000001, port := 8086 }

/-- A frame for the card comes with the hash, an error, one too short, and the card reads. -/
def session : List Event :=
  [.receive somePeer (.datagram (someHash ++ List.replicate 60 0xFF)), .receive somePeer (.error 0),
    .receive somePeer (.datagram someHash), .read true]

theorem switch_safe_session :
    Orderly (init (List.replicate 6 2) false (some someHash) none) session ∧
      ∃ s, run (init (List.replicate 6 2) false (some someHash) none) session = .ok s ∧ s.pkt.data.length = maxFrame ∧
        ∀ p ∈ contents queueLen s.card.rx, 12 ≤ p.len ∧ p.len ≤ maxFrame ∧ p.frame.length = p.len := by
  have horderly : Orderly (init (List.replicate 6 2) false (some someHash) none) session :=
    GuardedRuns.orderly_sound (by decide +kernel)
  exact ⟨horderly, switch_safe _ _ _ _ session horderly⟩

def fault (r : Except Fault Switch) : Option Fault :=
  match r with
  | .ok _ => none
  | .error f => some f

/-- A datagram one byte longer than a frame, and an error while the hash of a frame that began with it
is still in the buffer. -/
theorem switch_unsafe :
    fault (run (init (List.replicate 6 2) false (some someHash) none)
      [.receive somePeer (.datagram (List.replicate 1519 0))]) = some .overflow ∧
    fault (run (init (List.replicate 6 2) false (some someHash) none)
      [.receive somePeer (.datagram (someHash ++ someHash ++ List.replicate 12 0)), .receive somePeer (.error 0)]) =
        some .size := by
  constructor
  · decide +kernel
  · decide +kernel

end PeepeeBox.NetReceive
