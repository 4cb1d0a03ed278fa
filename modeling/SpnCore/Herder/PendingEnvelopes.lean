import SpnCore.Herder.SCPDriver
import SpnCore.Scp.Nomination

/-!
# Envelopes waiting for their data

`PendingEnvelopes` holds an envelope back until the quorum set and the transaction sets it
refers to are here, and fetches what is missing through two `ItemFetcher`s. An item that arrives
hands the envelopes waiting for it to the herder again, which passes them back to
`PendingEnvelopes`; an envelope that becomes ready makes the herder work through its queue,
which may close ledgers and bring in more items before the call returns. What the herder does
at that point is arbitrary here: it is a list of further events.

The caches are maps, so they never evict an item by themselves.
-/

namespace SpnCore.Herder

open Lib Scp

/-- What an envelope says about its slot. -/
inductive Statement where
  | nominate (st : Nomination.Statement)
  | ballot (st : SCPStatement)
deriving DecidableEq, Repr

namespace Statement

/-- The node that makes the statement. -/
def nodeID : Statement → NodeID
  | .nominate st => st.nodeID
  | .ballot st => st.nodeID

/-- The hash of the quorum set that goes with the statement. -/
def getCompanionQuorumSetHash : Statement → Hash
  | .nominate st => st.nominate.quorumSetHash
  | .ballot st =>
    match st.pledges with
    | .prepare p => p.quorumSetHash
    | .confirm c => c.quorumSetHash
    | .externalize e => e.commitQuorumSetHash

/-- The values whose transaction sets are fetched: `Slot::getStatementValues`. -/
def getStatementValues : Statement → List Value
  | .nominate st => st.nominate.votes ++ st.nominate.accepted
  | .ballot st => [(getWorkingBallot st).value]

/-- The values the protocol puts to the driver when it processes the statement. -/
def valuesToValidate : Statement → List Value
  | .nominate st => st.nominate.votes ++ st.nominate.accepted
  | .ballot st => Scp.valuesToValidate st

end Statement

/-- A signed statement about a slot. -/
structure SCPEnvelope where
  slotIndex : Nat
  statement : Statement
  signature : List Nat
deriving DecidableEq, Repr

/-- The hashes of the transaction sets of a statement, unless a value cannot be decoded. -/
def getTxSetHashes (unmarshal : Value → Option StellarValue) (e : SCPEnvelope) :
    Option (List Hash) :=
  (e.statement.getStatementValues.mapM unmarshal).map fun values =>
    values.map StellarValue.txSetHash

/-! ### Fetching items -/

/-- The envelopes that wait for an item, the one that came last at the end. -/
structure Tracker where
  waiting : List SCPEnvelope := []
  lastSeenSlotIndex : Nat := 0

/-- An envelope starts to wait for the item. -/
def Tracker.listen (t : Tracker) (e : SCPEnvelope) : Tracker :=
  { waiting := t.waiting ++ [e], lastSeenSlotIndex := max e.slotIndex t.lastSeenSlotIndex }

/-- The trackers of the items of one kind. -/
abbrev ItemFetcher := FMap Hash Tracker

namespace ItemFetcher

/-- The envelope waits for the item. -/
def fetch (fetcher : ItemFetcher) (hash : Hash) (e : SCPEnvelope) : ItemFetcher :=
  fetcher.insert hash (((fetcher.lookup hash).getD {}).listen e)

/-- The envelope no longer waits for the item. -/
def stopFetch (fetcher : ItemFetcher) (hash : Hash) (e : SCPEnvelope) : ItemFetcher :=
  match fetcher.lookup hash with
  | none => fetcher
  | some tracker =>
    let waiting := tracker.waiting.filter fun w => decide (w ≠ e)
    -- a tracker nobody waits for is cancelled
    fetcher.insert hash
      { waiting, lastSeenSlotIndex := if waiting = [] then 0 else tracker.lastSeenSlotIndex }

/-- The highest slot an envelope waited for the item for, or 0. -/
def getLastSeenSlotIndex (fetcher : ItemFetcher) (hash : Hash) : Nat :=
  (fetcher.lookup hash).elim 0 Tracker.lastSeenSlotIndex

/-- The envelopes that wait for the item. -/
def fetchingFor (fetcher : ItemFetcher) (hash : Hash) : List SCPEnvelope :=
  (fetcher.lookup hash).elim [] Tracker.waiting

/-- Forgets the envelopes of slots below `slotIndex`, and the items nobody waits for then. -/
def stopFetchingBelow (fetcher : ItemFetcher) (slotIndex : Nat) : ItemFetcher :=
  (AList.keys fetcher).foldl
    (fun fetcher hash =>
      let waiting := (fetcher.fetchingFor hash).filter fun e => !decide (e.slotIndex < slotIndex)
      if waiting = [] then fetcher.erase hash
      else fetcher.insert hash
        { waiting, lastSeenSlotIndex := fetcher.getLastSeenSlotIndex hash })
    fetcher

/-- Takes the envelope off that came last among those waiting for the item. -/
def pop (fetcher : ItemFetcher) (hash : Hash) : Option (SCPEnvelope × ItemFetcher) :=
  match fetcher.lookup hash with
  | none => none
  | some tracker =>
    match tracker.waiting.getLast? with
    | none => none
    | some e => some (e, fetcher.insert hash { tracker with waiting := tracker.waiting.dropLast })

/-- The item is here: it is not asked for any more. -/
def resetLastSeenSlotIndex (fetcher : ItemFetcher) (hash : Hash) : ItemFetcher :=
  match fetcher.lookup hash with
  | none => fetcher
  | some tracker => fetcher.insert hash { tracker with lastSeenSlotIndex := 0 }

end ItemFetcher

/-! ### The state -/

/-- The envelopes of a slot. -/
structure SlotEnvelopes where
  processed : List SCPEnvelope := []
  discarded : List SCPEnvelope := []
  fetching : List SCPEnvelope := []
  ready : List SCPEnvelope := []

/-- An envelope that was made ready, with the caches at that time. -/
structure Readied (τ : Type) where
  envelope : SCPEnvelope
  qsetCache : FMap Hash SCPQuorumSet
  txSetCache : FMap Hash (Nat × τ)

/-- The state of `PendingEnvelopes`. A transaction set is cached with the last slot it was seen
for. `questions` counts the questions to the rest of the node, and `readied` notes every
envelope that was made ready. -/
structure PendingEnvelopes (τ : Type) where
  envelopes : FMap Nat SlotEnvelopes := ∅
  qsetCache : FMap Hash SCPQuorumSet := ∅
  txSetCache : FMap Hash (Nat × τ) := ∅
  txSetFetcher : ItemFetcher := ∅
  quorumSetFetcher : ItemFetcher := ∅
  questions : Nat := 0
  readied : List (Readied τ) := []

/-- What stops a method. -/
inductive PendingError where
  /-- The assertion of `addSCPQuorumSet`. -/
  | quorumSetNotSane
  /-- Calls are nested too deep. -/
  | stackOverflow
deriving DecidableEq, Repr

/-- The answers of `recvSCPEnvelope`. -/
inductive EnvelopeStatus where
  | discarded
  | ready
  | fetching
  | processed
deriving DecidableEq, Repr

/-- A method of `PendingEnvelopes`. -/
abbrev PendingM (τ : Type) := EStateM PendingError (PendingEnvelopes τ)

/-- The calls of `PendingEnvelopes`. `recvSCPEnvelope` goes through the herder, and
`stopFetchingBelow` is the clean-up that `slotClosed` posts. -/
inductive Event (τ : Type) where
  | recvSCPEnvelope (e : SCPEnvelope)
  | recvSCPQuorumSet (hash : Hash) (q : SCPQuorumSet)
  | addSCPQuorumSet (hash : Hash) (q : SCPQuorumSet)
  | recvTxSet (hash : Hash) (txset : τ)
  | addTxSet (hash : Hash) (lastSeenSlotIndex : Nat) (txset : τ)
  | discardSCPEnvelope (e : SCPEnvelope)
  | pop (slotIndex : Nat)
  | eraseBelow (slotIndex : Nat)
  | slotClosed (slotIndex : Nat)
  | stopFetchingBelow (slotIndex : Nat)

/-- The rest of the node. Its answers may change over time: the first argument is the number of
questions asked before. -/
structure Surroundings (τ : Type) where
  unmarshal : Value → Option StellarValue
  isNodeInQuorum : Nat → NodeID → Bool
  /-- The herder does not filter the envelope out. -/
  accepts : Nat → SCPEnvelope → Bool
  /-- What the herder does when an envelope became ready. -/
  processSCPQueue : Nat → List (Event τ)

variable {τ : Type}

/-- Asks the rest of the node. -/
def ask {α : Type} (answer : Nat → α) : PendingM τ α := do
  let s ← get
  set { s with questions := s.questions + 1 }
  pure (answer s.questions)

namespace PendingEnvelopes

/-- The envelopes of a slot. -/
def slot (s : PendingEnvelopes τ) (slotIndex : Nat) : SlotEnvelopes :=
  (s.envelopes.lookup slotIndex).getD {}

/-- Changes the envelopes of a slot. -/
def updateSlot (s : PendingEnvelopes τ) (slotIndex : Nat) (f : SlotEnvelopes → SlotEnvelopes) :
    PendingEnvelopes τ :=
  { s with envelopes := s.envelopes.insert slotIndex (f (s.slot slotIndex)) }

/-- The envelope was discarded. -/
def isDiscarded (s : PendingEnvelopes τ) (e : SCPEnvelope) : Bool :=
  decide (e ∈ (s.slot e.slotIndex).discarded)

/-- The transaction set behind a hash. -/
def getTxSet (cache : FMap Hash (Nat × τ)) (hash : Hash) : Option τ :=
  (cache.lookup hash).map Prod.snd

/-- Everything the envelope refers to is cached. -/
def isFullyFetched (s : PendingEnvelopes τ) (e : SCPEnvelope) (txSetHashes : List Hash) : Bool :=
  (s.qsetCache.lookup e.statement.getCompanionQuorumSetHash).isSome &&
    txSetHashes.all fun hash => (s.txSetCache.lookup hash).isSome

/-- Starts to fetch what the envelope refers to and is not cached. -/
def startFetch (s : PendingEnvelopes τ) (e : SCPEnvelope) (txSetHashes : List Hash) :
    PendingEnvelopes τ :=
  let hash := e.statement.getCompanionQuorumSetHash
  { s with
    quorumSetFetcher :=
      if (s.qsetCache.lookup hash).isSome then s.quorumSetFetcher
      else s.quorumSetFetcher.fetch hash e
    txSetFetcher := txSetHashes.foldl
      (fun fetcher hash =>
        if (s.txSetCache.lookup hash).isSome then fetcher else fetcher.fetch hash e)
      s.txSetFetcher }

/-- Enters the envelope among those being fetched, unless it is there. -/
def insertFetching (s : PendingEnvelopes τ) (e : SCPEnvelope) (txSetHashes : List Hash) :
    PendingEnvelopes τ :=
  if e ∈ (s.slot e.slotIndex).fetching then s
  else
    let s := s.updateSlot e.slotIndex fun v => { v with fetching := v.fetching ++ [e] }
    s.startFetch e txSetHashes

/-- Stops to fetch what the envelope refers to. -/
def stopFetch (s : PendingEnvelopes τ) (e : SCPEnvelope) (txSetHashes : List Hash) :
    PendingEnvelopes τ :=
  { s with
    quorumSetFetcher := s.quorumSetFetcher.stopFetch e.statement.getCompanionQuorumSetHash e
    txSetFetcher := txSetHashes.foldl (fun fetcher hash => fetcher.stopFetch hash e)
      s.txSetFetcher }

/-- Marks the transaction sets of the envelope as seen for its slot. -/
def touchFetchCache (s : PendingEnvelopes τ) (e : SCPEnvelope) (txSetHashes : List Hash) :
    PendingEnvelopes τ :=
  { s with
    txSetCache := txSetHashes.foldl
      (fun cache hash =>
        match cache.lookup hash with
        | none => cache
        | some (lastSeen, txset) => cache.insert hash (max lastSeen e.slotIndex, txset))
      s.txSetCache }

/-- Hands the envelope over to the herder. -/
def envelopeReady (s : PendingEnvelopes τ) (e : SCPEnvelope) : PendingEnvelopes τ :=
  { s.updateSlot e.slotIndex fun v => { v with ready := v.ready ++ [e] } with
    readied := s.readied ++ [⟨e, s.qsetCache, s.txSetCache⟩] }

/-- Discards the envelope. When a value of it cannot be decoded, its transaction sets are still
waited for. -/
def discardSCPEnvelope (unmarshal : Value → Option StellarValue) (s : PendingEnvelopes τ)
    (e : SCPEnvelope) : PendingEnvelopes τ :=
  if s.isDiscarded e then s
  else
    let s := s.updateSlot e.slotIndex fun v =>
      { v with discarded := v.discarded ++ [e], fetching := v.fetching.erase e }
    s.stopFetch e ((getTxSetHashes unmarshal e).getD [])

/-- Takes a ready envelope of the lowest slot up to `slotIndex` that has one. -/
def pop (s : PendingEnvelopes τ) (slotIndex : Nat) : PendingEnvelopes τ :=
  match (ascending (AList.keys s.envelopes)).find? fun i =>
      decide (slotIndex ≥ i ∧ (s.slot i).ready ≠ []) with
  | none => s
  | some i => s.updateSlot i fun v => { v with ready := v.ready.dropLast }

/-- Forgets the slots below `slotIndex`. Transaction sets of unknown slots stay. -/
def eraseBelow (s : PendingEnvelopes τ) (slotIndex : Nat) : PendingEnvelopes τ :=
  { s with
    envelopes := ((AList.keys s.envelopes).filter fun i => decide (i < slotIndex)).foldl
      (fun envelopes i => envelopes.erase i) s.envelopes
    txSetCache := s.txSetCache.eraseIf fun item =>
      decide (item.1 ≠ 0) && decide (item.1 < slotIndex) }

/-- `MAX_SLOTS_TO_REMEMBER`. -/
def maxSlotsToRemember : Nat := 12

/-- A slot closed: the one that falls out of the window is forgotten. -/
def slotClosed (s : PendingEnvelopes τ) (slotIndex : Nat) : PendingEnvelopes τ :=
  if slotIndex > maxSlotsToRemember then
    let slotIndex := slotIndex - maxSlotsToRemember
    { s with
      envelopes := s.envelopes.erase slotIndex
      txSetCache := s.txSetCache.eraseIf fun item => decide (item.1 = slotIndex) }
  else s

/-- Cleans up both fetchers. -/
def stopFetchingBelow (s : PendingEnvelopes τ) (slotIndex : Nat) : PendingEnvelopes τ :=
  { s with
    txSetFetcher := s.txSetFetcher.stopFetchingBelow slotIndex
    quorumSetFetcher := s.quorumSetFetcher.stopFetchingBelow slotIndex }

end PendingEnvelopes

/-! ### Receiving -/

/-- An envelope arrives, from a peer or from a tracker whose item is here. -/
def recvSCPEnvelope (env : Surroundings τ) (e : SCPEnvelope) : PendingM τ EnvelopeStatus := do
  let inQuorum ← ask fun n => env.isNodeInQuorum n e.statement.nodeID
  let s ← get
  if !inQuorum || s.isDiscarded e then pure .discarded
  else
    match getTxSetHashes env.unmarshal e with
    -- `touchFetchCache` throws before it changes anything
    | none => pure .discarded
    | some hashes => do
        let s := s.touchFetchCache e hashes
        let v := s.slot e.slotIndex
        if e ∉ v.fetching ∧ e ∈ v.processed then do
          set s
          pure .processed
        else
          let s := s.insertFetching e hashes
          if s.isFullyFetched e hashes then do
            let s := s.updateSlot e.slotIndex fun v =>
              { v with processed := v.processed ++ [e], fetching := v.fetching.erase e }
            set (s.envelopeReady e)
            pure .ready
          else do
            set s
            pure .fetching

section Handlers

variable (env : Surroundings τ) (perform : Event τ → PendingM τ Unit)

/-- The herder receives an envelope. -/
def herderRecvSCPEnvelope (e : SCPEnvelope) : PendingM τ Unit := do
  let accepted ← ask fun n => env.accepts n e
  if accepted then
    let status ← recvSCPEnvelope env e
    if status = .ready then
      let reaction ← ask env.processSCPQueue
      reaction.forM perform
    else pure ()
  else pure ()

/-- A transaction set is here: the loop of `ItemFetcher::recv` over the envelopes that wait. -/
def recvTxSetItem (hash : Hash) : Nat → PendingM τ Unit
  | 0 => throw .stackOverflow
  | rounds + 1 => do
      let s ← get
      match s.txSetFetcher.pop hash with
      | none => set { s with txSetFetcher := s.txSetFetcher.resetLastSeenSlotIndex hash }
      | some (e, fetcher) => do
          set { s with txSetFetcher := fetcher }
          herderRecvSCPEnvelope env perform e
          recvTxSetItem hash rounds

/-- A quorum set is here: the loop of `ItemFetcher::recv` over the envelopes that wait. -/
def recvQuorumSetItem (hash : Hash) : Nat → PendingM τ Unit
  | 0 => throw .stackOverflow
  | rounds + 1 => do
      let s ← get
      match s.quorumSetFetcher.pop hash with
      | none => set { s with quorumSetFetcher := s.quorumSetFetcher.resetLastSeenSlotIndex hash }
      | some (e, fetcher) => do
          set { s with quorumSetFetcher := fetcher }
          herderRecvSCPEnvelope env perform e
          recvQuorumSetItem hash rounds

/-- Caches a transaction set. -/
def addTxSet (hash : Hash) (lastSeenSlotIndex : Nat) (txset : τ) (rounds : Nat) :
    PendingM τ Unit := do
  modify fun s => { s with txSetCache := s.txSetCache.insert hash (lastSeenSlotIndex, txset) }
  recvTxSetItem env perform hash rounds

/-- Caches a quorum set. -/
def addSCPQuorumSet (hash : Hash) (q : SCPQuorumSet) (rounds : Nat) : PendingM τ Unit := do
  ensure (isQuorumSetSane q false) .quorumSetNotSane
  modify fun s => { s with qsetCache := s.qsetCache.insert hash q }
  recvQuorumSetItem env perform hash rounds

/-- A transaction set arrives from a peer. -/
def recvTxSet (hash : Hash) (txset : τ) (rounds : Nat) : PendingM τ Unit := do
  let s ← get
  let lastSeenSlotIndex := s.txSetFetcher.getLastSeenSlotIndex hash
  if lastSeenSlotIndex = 0 then pure ()
  else addTxSet env perform hash lastSeenSlotIndex txset rounds

/-- A quorum set arrives from a peer. One that is not sane discards the envelopes waiting for
it. -/
def recvSCPQuorumSet (hash : Hash) (q : SCPQuorumSet) (rounds : Nat) : PendingM τ Unit := do
  let s ← get
  if s.quorumSetFetcher.getLastSeenSlotIndex hash = 0 then pure ()
  else if isQuorumSetSane q false then addSCPQuorumSet env perform hash q rounds
  else
    set ((s.quorumSetFetcher.fetchingFor hash).foldl
      (fun s e => s.discardSCPEnvelope env.unmarshal e) s)

/-- One call, whose loops take at most `rounds` rounds. -/
def handle (rounds : Nat) : Event τ → PendingM τ Unit
  | .recvSCPEnvelope e => herderRecvSCPEnvelope env perform e
  | .recvSCPQuorumSet hash q => recvSCPQuorumSet env perform hash q rounds
  | .addSCPQuorumSet hash q => addSCPQuorumSet env perform hash q rounds
  | .recvTxSet hash txset => recvTxSet env perform hash txset rounds
  | .addTxSet hash lastSeenSlotIndex txset =>
    addTxSet env perform hash lastSeenSlotIndex txset rounds
  | .discardSCPEnvelope e => modify fun s => s.discardSCPEnvelope env.unmarshal e
  | .pop slotIndex => modify fun s => s.pop slotIndex
  | .eraseBelow slotIndex => modify fun s => s.eraseBelow slotIndex
  | .slotClosed slotIndex => modify fun s => s.slotClosed slotIndex
  | .stopFetchingBelow slotIndex => modify fun s => s.stopFetchingBelow slotIndex

end Handlers

/-- A call with all the calls it is re-entered by, nested and repeated at most `limit` times. -/
def perform (env : Surroundings τ) : Nat → Event τ → PendingM τ Unit
  | 0, _ => throw .stackOverflow
  | limit + 1, event => handle env (perform env limit) limit event

/-- Calls one after the other. -/
def runEvents (env : Surroundings τ) (limit : Nat) (events : List (Event τ)) : PendingM τ Unit :=
  events.forM (perform env limit)

end SpnCore.Herder
