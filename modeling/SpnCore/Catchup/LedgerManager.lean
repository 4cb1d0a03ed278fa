import SpnCore.Catchup.Headers
import SpnCore.Lib.Wp

/-!
# The ledger manager out of sync

How `LedgerManagerImpl` takes the ledgers the network agrees on. In sync it closes them; when it
misses some it buffers what comes, catches up from history to just before the first buffered
ledger, applies the buffered ledgers one callback at a time, and waits for the next ledger.

The catchup from history is a `CatchupWork` that runs in between. It reports its progress to the
ledger manager and closes ledgers itself when it replays transactions. Its steps may come in any
order here, as far as they are guarded by a check of the source.
-/

namespace SpnCore.Catchup

open Lib Scp

/-- The states of the ledger manager. -/
inductive ManagerState where
  | booting
  | synced
  | catchingUp
deriving DecidableEq, Repr

/-- What the ledger manager does while it is catching up. -/
inductive CatchupState where
  | none
  | waitingForTriggerLedger
  | applyingHistory
  | applyingBufferedLedgers
  | waitingForClosingLedger
deriving DecidableEq, Repr

/-- A ledger the network agreed on. -/
structure LedgerCloseData where
  ledgerSeq : Nat
  previousLedgerHash : Hash
deriving DecidableEq, Repr

/-- A catchup from history in progress. `lastApplied` is set from the time transactions are
replayed. -/
structure CatchupWork where
  toLedger : Nat
  count : Nat
  lastApplied : Option LedgerHeaderHistoryEntry := none
deriving DecidableEq, Repr

/-- The methods that make assertions. -/
inductive Method where
  | initializeCatchup
  | continueCatchup
  | finalizeCatchup
  | startCatchupIf
  | verifyCatchupCandidate
  | historyCaughtup
  | applyBufferedLedgers
deriving DecidableEq, Repr

/-- What stops the ledger manager. -/
inductive ManagerError where
  /-- A failed assertion. -/
  | assertion (method : Method)
  /-- `Target ledger is not newer than LCL`. -/
  | targetNotNewer
  /-- `Catchup already in progress`. -/
  | catchupInProgress
  /-- `Network consensus inconsistency`. -/
  | consensusInconsistency
  /-- `txset mismatch`. -/
  | txSetMismatch
  /-- `closeLedger` failed for another reason. -/
  | closeFailed
  /-- `Catchup MINIMAL applying ledger earlier than local LCL`. -/
  | bucketsBehind
deriving DecidableEq, Repr

/-- The configuration, the header hash, and the header that closing a ledger leads to, if the
ledger can be applied. -/
structure ManagerConfig where
  checkpointFrequency : Nat
  catchupCount : Nat
  sha256 : LedgerHeader → Hash
  applyLedger : LedgerHeaderHistoryEntry → LedgerCloseData → Option LedgerHeader

/-- The state. `posted` counts the callbacks of `applyBufferedLedgers` that were posted and did
not run. `refills` notes the number of the last closed ledger and of the ledger buffered,
whenever a ledger is buffered while buffered ledgers are applied and none is left; `replayed`
notes the header entries of the archive that were replayed. -/
structure LedgerManager where
  state : ManagerState := .booting
  catchupState : CatchupState := .none
  syncingLedgers : List LedgerCloseData := []
  catchupTriggerLedger : Nat := 0
  lastClosedLedger : LedgerHeaderHistoryEntry
  catchupWork : Option CatchupWork := none
  posted : Nat := 0
  refills : List (Nat × Nat) := []
  replayed : List LedgerHeaderHistoryEntry := []

/-- The number of the last closed ledger. -/
def LedgerManager.lastClosedLedgerNum (s : LedgerManager) : Nat :=
  s.lastClosedLedger.header.ledgerSeq

/-- A method of the ledger manager. -/
abbrev ManagerM := EStateM ManagerError LedgerManager

/-- Changing to a state other than `catchingUp` resets the catchup state. -/
def LedgerManager.setState (s : LedgerManager) (state : ManagerState) : LedgerManager :=
  { s with
    state
    catchupState :=
      if state ≠ s.state ∧ state ≠ .catchingUp then .none else s.catchupState }

/-- Every step of a catchup is made in the state `catchingUp`. -/
def LedgerManager.setCatchupState (s : LedgerManager) (catchupState : CatchupState) :
    LedgerManager :=
  { s with catchupState }.setState .catchingUp

section Methods

variable (cfg : ManagerConfig)

/-- Closes a ledger on top of the last closed one. -/
def closeLedger (data : LedgerCloseData) : ManagerM Unit := do
  let s ← get
  ensure (decide (data.previousLedgerHash = s.lastClosedLedger.hash)) .txSetMismatch
  match cfg.applyLedger s.lastClosedLedger data with
  | none => throw .closeFailed
  | some header =>
    let header := { header with
      ledgerSeq := s.lastClosedLedgerNum + 1, previousLedgerHash := s.lastClosedLedger.hash }
    set { s with lastClosedLedger := { hash := cfg.sha256 header, header } }

/-- The answers of `closeLedgerIf`. -/
inductive CloseLedgerIfResult where
  | closed
  | tooOld
  | tooNew
deriving DecidableEq, Repr

/-- Closes the ledger if it is the next one. -/
def closeLedgerIf (data : LedgerCloseData) : ManagerM CloseLedgerIfResult := do
  let s ← get
  if s.lastClosedLedgerNum + 1 = data.ledgerSeq then do
    ensure (decide (s.lastClosedLedger.hash = data.previousLedgerHash)) .consensusInconsistency
    closeLedger cfg data
    pure .closed
  else if data.ledgerSeq ≤ s.lastClosedLedgerNum then pure .tooOld
  else pure .tooNew

/-- Buffers a ledger if it follows the buffered ones; any ledger follows an empty buffer. -/
def addToSyncingLedgers (data : LedgerCloseData) : ManagerM Unit :=
  modify fun s =>
    match s.syncingLedgers.getLast? with
    | none =>
      { s with
        syncingLedgers := [data]
        refills :=
          if s.catchupState = .applyingBufferedLedgers then
            s.refills ++ [(s.lastClosedLedgerNum, data.ledgerSeq)]
          else s.refills }
    | some back =>
      if back.ledgerSeq + 1 = data.ledgerSeq then
        { s with syncingLedgers := s.syncingLedgers ++ [data] }
      else s

/-- Starts the catchup from history. -/
def startCatchup (toLedger count : Nat) : ManagerM Unit := do
  let s ← get
  -- ledger 0 stands for the newest checkpoint
  ensure (decide (toLedger = 0 ∨ s.lastClosedLedgerNum < toLedger)) .targetNotNewer
  ensure s.catchupWork.isNone .catchupInProgress
  set { s.setCatchupState .applyingHistory with catchupWork := some { toLedger, count } }

/-- Starts the catchup from history once the trigger ledger is closed, up to the ledger before
the first buffered one. -/
def startCatchupIf (lastReceivedLedgerSeq : Nat) : ManagerM Unit := do
  let s ← get
  match s.syncingLedgers.head? with
  | none => throw (.assertion .startCatchupIf)
  | some front => do
      ensure (decide (s.catchupState ≠ .none)) (.assertion .startCatchupIf)
      if s.catchupState = .waitingForTriggerLedger ∧
          lastReceivedLedgerSeq ≥ s.catchupTriggerLedger then do
        set (s.setCatchupState .applyingHistory)
        startCatchup (front.ledgerSeq - 1) cfg.catchupCount
      else pure ()

/-- A ledger is too new: the ledger manager falls out of sync. -/
def initializeCatchup (data : LedgerCloseData) : ManagerM Unit := do
  let s ← get
  ensure (decide (s.state ≠ .catchingUp ∧ s.catchupState = .none ∧ s.syncingLedgers = []))
    (.assertion .initializeCatchup)
  set
    { (s.setState .catchingUp).setCatchupState .waitingForTriggerLedger with
      catchupTriggerLedger := nextCheckpointLedger cfg.checkpointFrequency data.ledgerSeq + 1 }
  addToSyncingLedgers data
  startCatchupIf cfg data.ledgerSeq

/-- A ledger comes while the ledger manager is catching up. -/
def continueCatchup (data : LedgerCloseData) : ManagerM Unit := do
  let s ← get
  ensure (decide (s.state = .catchingUp)) (.assertion .continueCatchup)
  addToSyncingLedgers data
  startCatchupIf cfg data.ledgerSeq

/-- The ledger comes that is to bring the ledger manager back in sync. -/
def finalizeCatchup (data : LedgerCloseData) : ManagerM Unit := do
  let s ← get
  ensure
    (decide (s.state = .catchingUp ∧ s.catchupState = .waitingForClosingLedger ∧
      s.syncingLedgers = []))
    (.assertion .finalizeCatchup)
  let result ← closeLedgerIf cfg data
  if result = .closed then modify fun s => s.setState .synced
  else if result = .tooNew then do
    modify fun s => s.setState .booting
    initializeCatchup cfg data
  else pure ()

/-- The network agreed on a ledger. -/
def valueExternalized (data : LedgerCloseData) : ManagerM Unit := do
  let s ← get
  if s.state = .catchingUp then
    if s.catchupState = .waitingForClosingLedger then finalizeCatchup cfg data
    else continueCatchup cfg data
  else do
    let result ← closeLedgerIf cfg data
    if result = .closed then modify fun s => s.setState .synced
    else if result = .tooNew then initializeCatchup cfg data
    else pure ()

/-! ### The catchup from history -/

/-- Whether the last ledger of a downloaded chain is the one before the first buffered one. -/
def verifyCatchupCandidate (candidate : LedgerHeaderHistoryEntry) : ManagerM Bool := do
  let s ← get
  ensure (decide (s.catchupState = .applyingHistory)) (.assertion .verifyCatchupCandidate)
  match s.syncingLedgers.head? with
  | none => throw (.assertion .verifyCatchupCandidate)
  | some front => do
      ensure (decide (front.ledgerSeq = candidate.header.ledgerSeq + 1))
        (.assertion .verifyCatchupCandidate)
      pure (decide (front.previousLedgerHash = candidate.hash))

/-- Posts the callback that applies the next buffered ledger. -/
def applyBufferedLedgers : ManagerM Unit := do
  let s ← get
  ensure (decide (s.catchupState = .applyingBufferedLedgers)) (.assertion .applyBufferedLedgers)
  set { s with posted := s.posted + 1 }

/-- The reports of a catchup from history. -/
inductive Progress where
  | failed
  | appliedBuckets (lastClosed : LedgerHeaderHistoryEntry)
  | appliedTransactions (lastClosed : LedgerHeaderHistoryEntry)
  | finished

/-- The catchup from history reports to the ledger manager. -/
def historyCaughtup (progress : Progress) : ManagerM Unit := do
  let s ← get
  ensure (decide (s.catchupState = .applyingHistory)) (.assertion .historyCaughtup)
  match progress with
  | .failed => set { s.setState .booting with catchupWork := none, syncingLedgers := [] }
  | .appliedBuckets lastClosed => set { s with lastClosedLedger := lastClosed }
  | .appliedTransactions lastClosed =>
    ensure (decide (lastClosed = s.lastClosedLedger)) (.assertion .historyCaughtup)
  | .finished => do
      set ({ s with catchupWork := none }.setCatchupState .applyingBufferedLedgers)
      applyBufferedLedgers

/-- Replays one header entry of the archive. Failures are caught: they only fail the work. -/
def applyHistoryOfSingleLedger (work : CatchupWork) (entry : LedgerHeaderHistoryEntry)
    (txSetPreviousLedgerHash : Hash) : ManagerM Unit := do
  let s ← get
  let failed := { work with lastApplied := none }
  if entry.header.ledgerSeq + 1 < s.lastClosedLedgerNum then pure ()
  else if entry.header.ledgerSeq + 1 = s.lastClosedLedgerNum then
    if entry.hash = s.lastClosedLedger.header.previousLedgerHash then pure ()
    else set { s with catchupWork := some failed }
  else if entry.header.ledgerSeq = s.lastClosedLedgerNum then
    if entry.hash = s.lastClosedLedger.hash then pure ()
    else set { s with catchupWork := some failed }
  else if entry.header.ledgerSeq ≠ s.lastClosedLedgerNum + 1 ∨
      entry.header.previousLedgerHash ≠ s.lastClosedLedger.hash then
    set { s with catchupWork := some failed }
  else
    match closeLedger cfg ⟨entry.header.ledgerSeq, txSetPreviousLedgerHash⟩ s with
    | .error _ _ => set { s with catchupWork := some failed }
    | .ok _ t =>
      let matched := t.lastClosedLedger.hash = entry.hash
      set
        { t with
          catchupWork := some
            { work with lastApplied := if matched then some entry else none }
          replayed := if matched then t.replayed ++ [entry] else t.replayed }

/-- The steps of a catchup from history. -/
inductive CatchupStep where
  /-- The header chain is downloaded, and its last ledger is put to the ledger manager. -/
  | verifyCandidate (candidate : LedgerHeaderHistoryEntry)
  /-- The buckets of a ledger are applied. -/
  | applyBuckets (firstVerified : LedgerHeaderHistoryEntry)
  /-- The replay of transactions starts, or starts again. -/
  | resetReplay
  | replay (entry : LedgerHeaderHistoryEntry) (txSetPreviousLedgerHash : Hash)
  | finish
  | fail

/-- A step of the catchup in progress. Steps whose turn it is not do nothing. -/
def catchupStep (work : CatchupWork) : CatchupStep → ManagerM Unit
  | .verifyCandidate candidate =>
    if candidate.header.ledgerSeq = work.toLedger then do
      let verified ← verifyCatchupCandidate candidate
      if verified then pure () else historyCaughtup .failed
    else historyCaughtup .failed
  | .applyBuckets firstVerified =>
    if work.lastApplied = none then do
      let s ← get
      ensure (!decide (firstVerified.header.ledgerSeq < s.lastClosedLedgerNum)) .bucketsBehind
      historyCaughtup (.appliedBuckets firstVerified)
    else pure ()
  | .resetReplay => modify fun s =>
    { s with catchupWork := some { work with lastApplied := some s.lastClosedLedger } }
  | .replay entry txSetPreviousLedgerHash =>
    if work.lastApplied = none then pure ()
    else applyHistoryOfSingleLedger cfg work entry txSetPreviousLedgerHash
  | .finish => do
      let s ← get
      match work.lastApplied with
      | none => pure ()
      | some lastApplied =>
        if s.lastClosedLedgerNum = work.toLedger then do
          historyCaughtup (.appliedTransactions lastApplied)
          historyCaughtup .finished
        else pure ()
  | .fail => historyCaughtup .failed

/-! ### Runs -/

/-- The callback that `applyBufferedLedgers` posts. -/
def applyBufferedLedger : ManagerM Unit := do
  let s ← get
  match s.syncingLedgers with
  | [] => set (s.setCatchupState .waitingForClosingLedger)
  | data :: rest => do
      set { s with syncingLedgers := rest }
      ensure (decide (data.ledgerSeq = s.lastClosedLedgerNum + 1))
        (.assertion .applyBufferedLedgers)
      closeLedger cfg data
      applyBufferedLedgers

/-- What happens on the main thread. -/
inductive Event where
  | valueExternalized (data : LedgerCloseData)
  | catchup (step : CatchupStep)
  /-- A posted callback runs. -/
  | applyBuffered

/-- One event. There is nothing to do when no catchup is in progress, or no callback posted. -/
def step : Event → ManagerM Unit
  | .valueExternalized data => valueExternalized cfg data
  | .catchup st => do
      let s ← get
      match s.catchupWork with
      | none => pure ()
      | some work => catchupStep cfg work st
  | .applyBuffered => do
      let s ← get
      if s.posted = 0 then pure ()
      else do
        set { s with posted := s.posted - 1 }
        applyBufferedLedger cfg

/-- Events one after the other. -/
def runManager (events : List Event) : ManagerM Unit :=
  events.forM (step cfg)

end Methods

end SpnCore.Catchup
