import SpnCore.Ledger.NestedState

/-!
# The changes that a ledger close stores

While a ledger closes, what each step has changed is written down: the fee of each transaction, the
first part of applying it and each of its operations, and each upgrade. A step runs in a ledger
state of its own. Its changes are taken from that ledger state before it is committed, and an
exception leaves behind what has been written down so far.

The steps themselves are programs that are run on an open ledger state, in whatever way such a
program is given.
-/

namespace SpnCore.Ledger.Nested

open Lib

/-! ### Changes -/

inductive LedgerEntryChange where
  | created (entry : LedgerEntry)
  | updated (entry : LedgerEntry)
  | removed (key : LedgerKey)
  /-- The entry before a change. -/
  | state (entry : LedgerEntry)
deriving DecidableEq, Repr

abbrev LedgerEntryChanges := List LedgerEntryChange

/-- Makes a change to the rows. -/
def LedgerEntryChange.applyTo (rows : Rows) : LedgerEntryChange → Rows
  | .created entry => Function.update rows entry.data.key (some entry)
  | .updated entry => Function.update rows entry.data.key (some entry)
  | .removed key => Function.update rows key none
  | .state _ => rows

/-- Makes changes in their order. -/
def replay (changes : LedgerEntryChanges) (rows : Rows) : Rows :=
  changes.foldl LedgerEntryChange.applyTo rows

/-- The changes for a record of a level over some parents. -/
def changesOf (parents : List Level) (record : Record) : StackM LedgerEntryChanges := do
  let previous ← newestVersion parents (Keyed.key record)
  match previous, record with
  | some previous, .live entry => return [.state previous, .updated entry]
  | some previous, .dead key => return [.state previous, .removed key]
  | none, .live entry => return [.created entry]
  | none, .dead _ => throw .fatal

def allChangesOf (parents : List Level) : List Record → StackM LedgerEntryChanges
  | [] => return []
  | record :: records => do
      let changes ← changesOf parents record
      let later ← allChangesOf parents records
      return changes ++ later

/-- `LedgerState::getChanges` of the innermost level, which is sealed. -/
def getChanges : StackM LedgerEntryChanges := do
  let s ← get
  match s.levels with
  | [] => throw .noLevel
  | level :: parents => do
      let changes ← allChangesOf parents level.sealedEntry.values
      putLevel { level with entry := level.sealedEntry, isSealed := true, active := [] } parents
      return changes

/-! ### Closing a ledger -/

/-- What the close of a ledger needs of the ledger states. A program of type `β α` returns an `α`
or throws an exception. -/
structure Access (m : Type → Type) (β : Type → Type) where
  openChild : m Unit
  run : {α : Type} → β α → m (Option α)
  getChanges : m LedgerEntryChanges
  commit : m Unit
  writeHeader : LedgerHeader → m Unit
  /-- How many ledger states are open. -/
  depth : m Nat
  /-- The destructors of all ledger states above a depth. -/
  unwind : Nat → m Unit
  /-- An exception that is not caught. -/
  fail : {α : Type} → m α

/-- How applying a transaction ended. -/
inductive Ending where
  | succeeded
  | failed
  | threw
deriving DecidableEq, Repr

structure TransactionMeta where
  txChanges : LedgerEntryChanges := []
  operations : List LedgerEntryChanges := []
deriving DecidableEq, Repr

/-- A transaction by its programs: the fee, the first part of applying it, which decides whether
it is valid, and the operations, which succeed or not. -/
structure TransactionProgram (β : Type → Type) (φ ρ ω : Type) where
  processFeeSeqNum : β φ
  prepare : β ρ
  valid : ρ → Bool
  operations : List (β ω)
  success : ω → Bool

/-- What has come out of a transaction. -/
structure TransactionRun (ρ ω : Type) where
  ending : Ending
  validation : Option ρ := none
  results : List ω := []
  txMeta : TransactionMeta := {}

/-- What a ledger closes with. -/
structure CloseProgram (β : Type → Type) (φ ρ ω υ : Type) where
  txs : List (TransactionProgram β φ ρ ω)
  upgrades : List (β υ)

/-- What has come out of closing a ledger, and all that has been stored. -/
structure CloseRun (φ ρ ω υ : Type) where
  fees : List (φ × LedgerEntryChanges)
  txs : List (TransactionRun ρ ω)
  upgrades : List (Option (υ × LedgerEntryChanges))

variable {m : Type → Type} [Monad m] {β : Type → Type} (access : Access m β) {α φ ρ ω υ : Type}

/-- A step in a ledger state of its own, which is committed unless an exception is thrown. -/
def inChild (program : β α) : m (Option (α × LedgerEntryChanges)) := do
  access.openChild
  match ← access.run program with
  | none => return none
  | some a => do
      let changes ← access.getChanges
      access.commit
      return some (a, changes)

/-- The loop of `processFeesSeqNums`. -/
def chargeFees : List (TransactionProgram β φ ρ ω) → m (List (φ × LedgerEntryChanges))
  | [] => return []
  | tx :: txs => do
      match ← inChild access tx.processFeeSeqNum with
      | none => access.fail
      | some fee => do
          let fees ← chargeFees txs
          return fee :: fees

def processFeesSeqNums (txs : List (TransactionProgram β φ ρ ω)) :
    m (List (φ × LedgerEntryChanges)) := do
  access.openChild
  let fees ← chargeFees access txs
  access.commit
  return fees

/-- The loop of `applyOperations`. All operations are applied, also after one of them failed. -/
def executeOperations (success : ω → Bool) :
    List (β ω) → m (Ending × List ω × List LedgerEntryChanges)
  | [] => return (.succeeded, [], [])
  | op :: ops => do
      match ← inChild access op with
      | none => return (.threw, [], [])
      | some (result, changes) => do
          let (ending, results, later) ← executeOperations success ops
          let ending :=
            if ending = .threw then .threw else if success result then ending else .failed
          return (ending, result :: results, changes :: later)

/-- `TransactionFrame::applyOperations`. The changes of the operations are thrown away when one of
them failed, but not when one of them threw an exception. -/
def applyOperations (success : ω → Bool) (ops : List (β ω)) :
    m (Ending × List ω × List LedgerEntryChanges) := do
  let depth ← access.depth
  access.openChild
  let (ending, results, changes) ← executeOperations access success ops
  match ending with
  | .succeeded => do
      access.commit
      return (ending, results, changes)
  | .failed => do
      access.unwind depth
      return (ending, results, [])
  | .threw => do
      access.unwind depth
      return (ending, results, changes)

/-- `TransactionFrame::apply` in `applyTransactions`, which catches its exceptions. -/
def apply (tx : TransactionProgram β φ ρ ω) : m (TransactionRun ρ ω) := do
  let depth ← access.depth
  match ← inChild access tx.prepare with
  | none => do
      access.unwind depth
      return { ending := .threw }
  | some (validation, txChanges) => do
      if tx.valid validation then do
        let (ending, results, operations) ← applyOperations access tx.success tx.operations
        return { ending, validation, results, txMeta := { txChanges, operations } }
      else
        return { ending := .failed, validation, txMeta := { txChanges } }

def applyTransactions : List (TransactionProgram β φ ρ ω) → m (List (TransactionRun ρ ω))
  | [] => return []
  | tx :: txs => do
      let run ← apply access tx
      let runs ← applyTransactions txs
      return run :: runs

/-- An upgrade that throws an exception is skipped. -/
def applyUpgrade (upgrade : β υ) : m (Option (υ × LedgerEntryChanges)) := do
  let depth ← access.depth
  match ← inChild access upgrade with
  | none => do
      access.unwind depth
      return none
  | some run => return some run

def applyUpgrades : List (β υ) → m (List (Option (υ × LedgerEntryChanges)))
  | [] => return []
  | upgrade :: upgrades => do
      let run ← applyUpgrade access upgrade
      let runs ← applyUpgrades upgrades
      return run :: runs

/-- The first part of `closeLedger`: the ledger state is opened and the fees are charged. -/
def openLedger (header : LedgerHeader) (txs : List (TransactionProgram β φ ρ ω)) :
    m (List (φ × LedgerEntryChanges)) := do
  access.openChild
  access.writeHeader header
  processFeesSeqNums access txs

/-- `LedgerManagerImpl::closeLedger`, with the header of the new ledger. -/
def closeLedger (header : LedgerHeader) (close : CloseProgram β φ ρ ω υ) :
    m (CloseRun φ ρ ω υ) := do
  let fees ← openLedger access header close.txs
  let txs ← applyTransactions access close.txs
  let upgrades ← applyUpgrades access close.upgrades
  access.commit
  return { fees, txs, upgrades }

/-- Everything that was stored, in the order in which it is replayed. -/
def CloseRun.changes (run : CloseRun φ ρ ω υ) : LedgerEntryChanges :=
  run.fees.flatMap Prod.snd ++
    run.txs.flatMap (fun tx => tx.txMeta.txChanges ++ tx.txMeta.operations.flatten) ++
    run.upgrades.flatMap fun upgrade => (upgrade.map Prod.snd).getD []

/-! ### Programs as the operations of their runs -/

/-- How many ledger states a program has open inside its own one after an operation. -/
def Op.depthAfter (depth : Nat) : Op → Nat
  | .openChild _ => depth + 1
  | .commit => depth - 1
  | .rollback n => depth - (n + 1)
  | .getNewestVersion _ | .create _ | .load _ | .write _ | .deactivate _ | .erase _
  | .writeHeader _ | .getChanges => depth

/-- A program commits, rolls back and seals only ledger states that it has opened itself, and
leaves the number of the ledger as it is. -/
def Op.allowed (ledgerSeq depth : Nat) : Op → Prop
  | .commit | .getChanges => 0 < depth
  | .rollback n => n < depth
  | .writeHeader header => header.ledgerSeq = ledgerSeq
  | .openChild _ | .getNewestVersion _ | .create _ | .load _ | .write _ | .deactivate _
  | .erase _ => True

/-- A program that returns has closed all ledger states that it has opened. -/
def Confined (ledgerSeq : Nat) (throws : Bool) : Nat → List Op → Prop
  | depth, [] => throws = true ∨ depth = 0
  | depth, op :: ops =>
    op.allowed ledgerSeq depth ∧ Confined ledgerSeq throws (op.depthAfter depth) ops

/-- A run of a program on a ledger state: the operations that it performs, unless one of them
throws, and what it returns, or nothing when it throws itself. -/
structure Trace (ledgerSeq : Nat) (α : Type) where
  ops : List Op
  result : Option α
  confined : Confined ledgerSeq result.isNone 0 ops

/-- Performs operations up to the first one that throws, if any. -/
def performAll : List Op → StackM Bool
  | [] => return true
  | op :: ops => fun s =>
    match step op s with
    | .ok _ t => performAll ops t
    | .error e t => if e = .fatal then .error e t else .ok false t

def Trace.run {ledgerSeq : Nat} (trace : Trace ledgerSeq α) : StackM (Option α) := do
  let done ← performAll trace.ops
  return if done then trace.result else none

/-- The levels above a depth are dropped. -/
def unwind (depth : Nat) : StackM Unit :=
  modify fun s => { s with levels := s.levels.drop (s.levels.length - depth) }

def depth : StackM Nat := do
  let s ← get
  return s.levels.length

def stackAccess (ledgerSeq : Nat) : Access StackM (Trace ledgerSeq) where
  openChild := step (.openChild true)
  run := Trace.run
  getChanges := getChanges
  commit := step .commit
  writeHeader header := step (.writeHeader header)
  depth := depth
  unwind := unwind
  fail := throw .fatal

end SpnCore.Ledger.Nested
