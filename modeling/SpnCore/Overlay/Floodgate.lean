import Mathlib.Data.Finset.Insert
import SpnCore.Lib.FMap

/-!
# Flooding

The floodgate keeps a record of each message that was received or broadcast, with the peers it was
received from or sent to. Read `broadcast_run` first: while the record of a message is kept, no
broadcast sends the message to a peer in the record, so one that is forced sends it again only
where the record does not name the peer.
-/

namespace SpnCore.Overlay

open Lib

/-- A peer is a pointer, which may be null. -/
structure FloodRecord (Peer : Type) where
  ledgerSeq : UInt32
  peersTold : Finset (Option Peer)

structure Floodgate (Hash Peer : Type) where
  /-- Under the hash of the message. -/
  floodMap : FMap Hash (FloodRecord Peer) := ∅
  shuttingDown : Bool := false

variable {Message Hash Peer : Type} [DecidableEq Hash]

namespace Floodgate

def newRecord (ledger : UInt32) (peer : Option Peer) : FloodRecord Peer where
  ledgerSeq := ledger
  peersTold := if peer.isSome then {peer} else ∅

/-- The record of a message that is broadcast. `mFloodMap.insert` leaves a record that is already
there. -/
def broadcastRecord (index : Hash) (ledger : UInt32) (force : Bool) (gate : Floodgate Hash Peer) :
    FloodRecord Peer :=
  match gate.floodMap.lookup index, force with
  | some record, false => record
  | found, _ => found.getD (newRecord ledger none)

/-- The peers that a message was received from or sent to, as far as a record is kept. -/
def told (index : Hash) (gate : Floodgate Hash Peer) : Finset (Option Peer) :=
  (gate.floodMap.lookup index).elim ∅ FloodRecord.peersTold

/-- Forced or not, a broadcast goes by the record that is kept. -/
theorem broadcastRecord_peersTold (gate : Floodgate Hash Peer) (index : Hash) (ledger : UInt32)
    (force : Bool) :
    (gate.broadcastRecord index ledger force).peersTold = gate.told index := by
  unfold broadcastRecord told
  cases gate.floodMap.lookup index with
  | none => rfl
  | some record => cases force <;> rfl

end Floodgate

variable [DecidableEq Peer]

namespace Floodgate

def clearBelow (currentLedger : UInt32) (gate : Floodgate Hash Peer) : Floodgate Hash Peer :=
  { gate with
    floodMap := gate.floodMap.eraseIf fun record => decide (record.ledgerSeq + 10 < currentLedger) }

def addRecord (index : Hash) (ledger : UInt32) (peer : Option Peer) (gate : Floodgate Hash Peer) :
    Bool × Floodgate Hash Peer :=
  if gate.shuttingDown then (false, gate)
  else
    match gate.floodMap.lookup index with
    | none => (true, { gate with floodMap := gate.floodMap.insert index (newRecord ledger peer) })
    | some record =>
      let record := { record with peersTold := insert peer record.peersTold }
      (false, { gate with floodMap := gate.floodMap.insert index record })

/-- The peers that the message is sent to, and those told after it. -/
def tellPeers : List Peer → Finset (Option Peer) → List Peer × Finset (Option Peer)
  | [], peersTold => ([], peersTold)
  | peer :: peers, peersTold =>
    if some peer ∈ peersTold then tellPeers peers peersTold
    else
      let (sent, peersTold) := tellPeers peers (insert (some peer) peersTold)
      (peer :: sent, peersTold)

/-- The peers that the message is sent to, and the gate after it. -/
def broadcast (index : Hash) (ledger : UInt32) (peers : List Peer) (force : Bool)
    (gate : Floodgate Hash Peer) : List Peer × Floodgate Hash Peer :=
  if gate.shuttingDown then ([], gate)
  else
    let record := gate.broadcastRecord index ledger force
    let (sent, peersTold) := tellPeers peers record.peersTold
    (sent, { gate with floodMap := gate.floodMap.insert index { record with peersTold } })

variable {ledger : UInt32} {force : Bool} {index i : Hash} {peers : List Peer} {peer : Option Peer}
  {p : Peer} {gate : Floodgate Hash Peer}

theorem mem_tellPeers (p : Peer) (peers : List Peer) (peersTold : Finset (Option Peer)) :
    (p ∈ (tellPeers peers peersTold).1 ↔ p ∈ peers ∧ some p ∉ peersTold) ∧
      (some p ∈ (tellPeers peers peersTold).2 ↔ some p ∈ peersTold ∨ p ∈ peers) := by
  induction peers generalizing peersTold with
  | nil => simp [tellPeers]
  | cons q peers ih =>
    obtain rfl | hne := eq_or_ne p q
    · by_cases hp : some p ∈ peersTold <;> simp [tellPeers, hp, ih]
    · by_cases hq : some q ∈ peersTold <;> simp [tellPeers, hq, ih, hne]

section Open

variable (hopen : gate.shuttingDown = false)
include hopen

theorem addRecord_fst :
    (gate.addRecord index ledger peer).1 = true ↔ gate.floodMap.lookup index = none := by
  unfold addRecord
  rw [hopen, if_neg (by decide)]
  cases gate.floodMap.lookup index <;> simp

/-- A peer is told when it was told before or has just sent the message. -/
theorem told_addRecord : some p ∈ (gate.addRecord i ledger peer).2.told index ↔
    some p ∈ gate.told index ∨ i = index ∧ peer = some p := by
  unfold addRecord told
  rw [hopen, if_neg (by decide)]
  obtain rfl | hne := eq_or_ne i index
  · cases gate.floodMap.lookup i with
    | none => cases peer <;> simp [newRecord, eq_comm]
    | some record => simp [or_comm, eq_comm]
  · cases gate.floodMap.lookup i <;> simp [FMap.lookup_insert_of_ne hne.symm, hne]

theorem mem_broadcast : p ∈ (gate.broadcast index ledger peers force).1 ↔
    p ∈ peers ∧ some p ∉ gate.told index := by
  unfold broadcast
  rw [hopen, if_neg (by decide)]
  dsimp only
  rw [broadcastRecord_peersTold, (mem_tellPeers p peers _).1]

theorem told_broadcast : some p ∈ (gate.broadcast i ledger peers force).2.told index ↔
    some p ∈ gate.told index ∨ i = index ∧ p ∈ peers := by
  unfold broadcast
  rw [hopen, if_neg (by decide)]
  dsimp only
  rw [broadcastRecord_peersTold]
  obtain rfl | hne := eq_or_ne i index
  · simpa [told] using (mem_tellPeers p peers (gate.told i)).2
  · simp [told, FMap.lookup_insert_of_ne hne.symm, hne]

end Open

end Floodgate

/-! ### Runs -/

/-- The floodgate and the peers that are authenticated. -/
structure Flooding (Hash Peer : Type) where
  gate : Floodgate Hash Peer := {}
  peers : List Peer

inductive FloodEvent (Message Peer : Type) where
  | addRecord (ledger : UInt32) (msg : Message) (peer : Option Peer)
  | broadcast (ledger : UInt32) (msg : Message) (force : Bool)
  | clearBelow (currentLedger : UInt32)
  /-- Peers have joined or left. -/
  | peersChanged (peers : List Peer)

namespace Flooding

variable (hash : Message → Hash)

/-- The peers that a broadcast would send the message to. -/
def sends (ledger : UInt32) (msg : Message) (force : Bool) (s : Flooding Hash Peer) : List Peer :=
  (s.gate.broadcast (hash msg) ledger s.peers force).1

def step (s : Flooding Hash Peer) : FloodEvent Message Peer → Flooding Hash Peer
  | .addRecord ledger msg peer => { s with gate := (s.gate.addRecord (hash msg) ledger peer).2 }
  | .broadcast ledger msg force =>
    { s with gate := (s.gate.broadcast (hash msg) ledger s.peers force).2 }
  | .clearBelow currentLedger => { s with gate := s.gate.clearBelow currentLedger }
  | .peersChanged peers => { s with peers }

def run (s : Flooding Hash Peer) (events : List (FloodEvent Message Peer)) : Flooding Hash Peer :=
  events.foldl (step hash) s

/-- The message is received from the peer or sent to it. -/
def Tells (s : Flooding Hash Peer) (index : Hash) (p : Peer) : FloodEvent Message Peer → Prop
  | .addRecord _ msg peer => hash msg = index ∧ peer = some p
  | .broadcast ledger msg force => hash msg = index ∧ p ∈ s.sends hash ledger msg force
  | .clearBelow _ => False
  | .peersChanged _ => False

/-- There is a record after each event. -/
def Kept (index : Hash) (s : Flooding Hash Peer) : List (FloodEvent Message Peer) → Prop
  | [] => True
  | event :: events =>
    ((s.step hash event).gate.floodMap.lookup index).isSome = true ∧
      Kept index (s.step hash event) events

variable {hash} {s : Flooding Hash Peer} {index : Hash} {p : Peer}

theorem step_shuttingDown (event : FloodEvent Message Peer) :
    (s.step hash event).gate.shuttingDown = s.gate.shuttingDown := by
  cases event with
  | addRecord ledger msg peer =>
    simp only [step, Floodgate.addRecord]
    split_ifs
    · rfl
    · split <;> rfl
  | broadcast ledger msg force =>
    simp only [step, Floodgate.broadcast]
    split_ifs <;> rfl
  | clearBelow currentLedger => rfl
  | peersChanged peers => rfl

theorem run_shuttingDown (events : List (FloodEvent Message Peer)) :
    (s.run hash events).gate.shuttingDown = s.gate.shuttingDown := by
  induction events generalizing s with
  | nil => rfl
  | cons event events ih => exact ih.trans (step_shuttingDown event)

variable (hopen : s.gate.shuttingDown = false) {event : FloodEvent Message Peer}
include hopen

theorem told_of_tells (h : s.Tells hash index p event) :
    some p ∈ (s.step hash event).gate.told index := by
  cases event with
  | addRecord ledger msg peer => exact (Floodgate.told_addRecord hopen).2 (.inr h)
  | broadcast ledger msg force =>
    exact (Floodgate.told_broadcast hopen).2 (.inr ⟨h.1, ((Floodgate.mem_broadcast hopen).1 h.2).1⟩)
  | clearBelow currentLedger => exact h.elim
  | peersChanged peers => exact h.elim

/-- A record that is kept forgets no peer. -/
theorem told_step (hp : some p ∈ s.gate.told index)
    (hkept : ((s.step hash event).gate.floodMap.lookup index).isSome = true) :
    some p ∈ (s.step hash event).gate.told index := by
  cases event with
  | addRecord ledger msg peer => exact (Floodgate.told_addRecord hopen).2 (.inl hp)
  | broadcast ledger msg force => exact (Floodgate.told_broadcast hopen).2 (.inl hp)
  | clearBelow currentLedger =>
    simp only [step, Floodgate.told, Floodgate.clearBelow, FMap.lookup_eraseIf] at hkept ⊢
    obtain ⟨record, hrecord⟩ := Option.isSome_iff_exists.1 hkept
    rw [Floodgate.told, (Option.filter_eq_some_iff.1 hrecord).1] at hp
    rw [hrecord]
    exact hp
  | peersChanged peers => exact hp

theorem told_run {events : List (FloodEvent Message Peer)} (hp : some p ∈ s.gate.told index)
    (hkept : s.Kept hash index events) : some p ∈ (s.run hash events).gate.told index := by
  induction events generalizing s with
  | nil => exact hp
  | cons event events ih =>
    exact ih ((step_shuttingDown event).trans hopen) (told_step hopen hp hkept.1) hkept.2

omit hopen

/-- In each state of a run: a peer that is told is not sent the message while the record is kept;
each broadcast leaves all peers told; a record is new exactly if there was none; a forced broadcast
goes to all peers exactly if no record names one of them. -/
theorem broadcast_run (peers : List Peer) (events : List (FloodEvent Message Peer))
    (hs : run hash { peers } events = s) (ledger : UInt32) (msg : Message) :
    (∀ event later force p, s.Tells hash (hash msg) p event →
        (s.step hash event).Kept hash (hash msg) later →
        p ∉ ((s.step hash event).run hash later).sends hash ledger msg force) ∧
      (∀ force, ∀ p ∈ s.peers,
        some p ∈ (s.step hash (.broadcast ledger msg force)).gate.told (hash msg)) ∧
      (∀ peer, (s.gate.addRecord (hash msg) ledger peer).1 = true ↔
        s.gate.floodMap.lookup (hash msg) = none) ∧
      ((∀ p ∈ s.peers, p ∈ s.sends hash ledger msg true) ↔
        ∀ p ∈ s.peers, some p ∉ s.gate.told (hash msg)) := by
  have hopen : s.gate.shuttingDown = false := hs ▸ run_shuttingDown events
  refine ⟨fun event later force p htells hkept hsent => ?_, fun force p hp => ?_,
    fun peer => Floodgate.addRecord_fst hopen, ?_⟩
  · have hopen' : (s.step hash event).gate.shuttingDown = false :=
      (step_shuttingDown event).trans hopen
    have hlater : ((s.step hash event).run hash later).gate.shuttingDown = false :=
      (run_shuttingDown later).trans hopen'
    have htold := told_run hopen' (told_of_tells hopen htells) hkept
    exact ((Floodgate.mem_broadcast hlater).1 hsent).2 htold
  · exact (Floodgate.told_broadcast hopen).2 (.inr ⟨rfl, hp⟩)
  · exact forall₂_congr fun p hp => (Floodgate.mem_broadcast hopen).trans (and_iff_right hp)

theorem broadcast_run_told :
    sends id 1 (0 : Nat) false ({ peers := [7] } : Flooding Nat Nat) = [7] ∧
      ∀ force, 7 ∉ (run id { peers := [7] } [.broadcast 1 0 false]).sends id 1 0 force := by
  refine ⟨by decide, fun force => ?_⟩
  have hs : run id ({ peers := [7] } : Flooding Nat Nat) [] = { peers := [7] } := rfl
  exact (broadcast_run [7] [] hs 1 0).1 (.broadcast 1 0 false) [] force 7 ⟨rfl, by decide⟩ trivial

/-- A message that was broadcast is not sent again to the same peer. -/
theorem broadcast_run_again :
    (run id { peers := [7] } [.broadcast 1 0 true]).sends id 1 0 true = ([] : List Nat) := by
  decide

end Flooding

end SpnCore.Overlay
