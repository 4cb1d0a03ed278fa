import SpnCore.Transactions.SignatureChecker

/-!
# Transactions

How a transaction is validated, charged and applied. Applying it has two parts, each in a
`LedgerState` of its own: the sequence number is consumed and the signatures are checked, and
then, if all is valid, the operations run and are kept only when none of them failed.
-/

namespace SpnCore.Ledger

open Lib

structure TimeBounds where
  minTime : Nat
  maxTime : Nat
deriving DecidableEq, Repr

/-- A transaction envelope. The hash of its contents is computed once and kept with it. -/
structure Transaction where
  sourceAccount : AccountID
  fee : Nat
  seqNum : Int
  timeBounds : Option TimeBounds := none
  operations : List Operation
  signatures : List DecoratedSignature
  contentsHash : Hash
deriving DecidableEq, Repr

inductive TransactionResultCode where
  | success
  | failed
  | tooEarly
  | tooLate
  | missingOperation
  | badSeq
  | badAuth
  | insufficientBalance
  | noAccount
  | insufficientFee
  | badAuthExtra
deriving DecidableEq, Repr

inductive ValidationType where
  | invalid
  | invalidUpdateSeqNum
  | invalidPostAuth
  | fullyValid
deriving DecidableEq, Repr

/-- From `kInvalidUpdateSeqNum` on the sequence number is consumed. -/
def ValidationType.updatesSeqNum : ValidationType → Bool
  | .invalid => false
  | .invalidUpdateSeqNum => true
  | .invalidPostAuth => true
  | .fullyValid => true

/-- From `kInvalidPostAuth` on the signatures of the operations are checked. -/
def ValidationType.passesAuth : ValidationType → Bool
  | .invalid => false
  | .invalidUpdateSeqNum => false
  | .invalidPostAuth => true
  | .fullyValid => true

namespace Transaction

def getMinFee (header : LedgerHeader) (tx : Transaction) : Nat :=
  header.baseFee * max 1 tx.operations.length

def signatureChecker (tx : Transaction) : SignatureChecker :=
  .init tx.contentsHash tx.signatures

/-! ### Validation -/

/-- The checks that do not depend on the state of the account. -/
def commonValidPreSeqNum (tx : Transaction) : LedgerM (Option TransactionResultCode) := do
  let header ← loadHeader
  let sourceExists ← accountExists tx.sourceAccount
  return if tx.operations.isEmpty then some .missingOperation
    else if tx.timeBounds.any (fun bounds => decide (header.closeTime < bounds.minTime)) then
      some .tooEarly
    else if tx.timeBounds.any
        (fun bounds => decide (bounds.maxTime ≠ 0 ∧ bounds.maxTime < header.closeTime)) then
      some .tooLate
    else if tx.fee < tx.getMinFee header then some .insufficientFee
    else if !sourceExists then some .noAccount
    else none

/-- The outcome of `commonValid`, with the checker as it leaves it. -/
structure Validation where
  type : ValidationType
  code : TransactionResultCode
  checker : SignatureChecker

/-- The ledger is only read. `current` is the sequence number to follow, or zero for the one of
the account. -/
def commonValid (env : Env) (checker : SignatureChecker) (current : Int) (applying : Bool)
    (tx : Transaction) : LedgerM Validation := do
  let failure ← commonValidPreSeqNum tx
  match failure with
  | some code => return ⟨.invalid, code, checker⟩
  | none => do
      let header ← loadHeader
      let sourceAccount ← activeAccount tx.sourceAccount
      let current := if current = 0 then sourceAccount.seqNum else current
      if current = int64Max ∨ current + 1 ≠ tx.seqNum then
        return ⟨.invalid, .badSeq, checker⟩
      else do
        let (authorized, checker) := checker.checkSignature env tx.sourceAccount
          (allSigners sourceAccount) sourceAccount.thresholds.low
        if !authorized then return ⟨.invalidUpdateSeqNum, .badAuth, checker⟩ else do
        -- when applying, the fee was already taken
        let feeToPay : Nat := if applying then 0 else tx.fee
        let available ← runExcept (sourceAccount.getAvailableBalance header)
        return if available < feeToPay then ⟨.invalidPostAuth, .insufficientBalance, checker⟩
          else ⟨.fullyValid, .success, checker⟩

/-- `OperationFrame::checkSignature` before the operations are applied. -/
def checkOperationSignature (env : Env) (tx : Transaction) (op : Operation)
    (checker : SignatureChecker) (ls : LedgerState) :
    Option OperationResult × SignatureChecker :=
  match ls.accounts.lookup (op.getSourceID tx.sourceAccount) with
  | some acc =>
    let (authorized, checker') := checker.checkSignature env acc.accountID (allSigners acc)
      (getNeededThreshold acc op.body.getThresholdLevel)
    (if authorized then none else some .badAuth, checker')
  | none =>
    match op.sourceAccount with
    | none => (some .noAccount, checker)
    | some accountID =>
      let (authorized, checker') := checker.checkSignature env accountID
        [⟨.ed25519 accountID, 1⟩] 0
      (if authorized then none else some .badAuth, checker')

/-- Checks the signatures of all operations, also after one of them failed. -/
def checkOperationSignatures (env : Env) (tx : Transaction) (ls : LedgerState) :
    List Operation → SignatureChecker → List (Option OperationResult) × SignatureChecker
  | [], checker => ([], checker)
  | op :: rest, checker =>
    let (failure, checker') := tx.checkOperationSignature env op checker ls
    let (failures, checker'') := checkOperationSignatures env tx ls rest checker'
    (failure :: failures, checker'')

/-! ### One-time signers -/

def removeAccountSigner (header : LedgerHeader) (key : SignerKey) (acc : AccountEntry) :
    Except LedgerError (Option AccountEntry) :=
  if acc.signers.any (fun signer => signer.key == key) then do
    let removed ← acc.addNumEntries header (-1)
    match removed with
    | none => .error .assertion
    | some acc' =>
      return some { acc' with signers := acc'.signers.eraseP fun signer => signer.key == key }
  else
    return none

/-- Tries the keys until one was removed. -/
def removeUsedKeys (header : LedgerHeader) :
    List SignerKey → AccountEntry → Except LedgerError (Option AccountEntry)
  | [], _ => return none
  | key :: rest, acc => do
      let removed ← removeAccountSigner header key acc
      match removed with
      | some acc' => return some acc'
      | none => removeUsedKeys header rest acc

def removeUsedOneTimeSignerKeysOf (accountID : AccountID) (keys : List SignerKey) :
    LedgerM Unit := do
  let header ← loadHeader
  let account ← loadAccount accountID
  match account with
  | none => return ()
  | some acc => do
      let removed ← runExcept (removeUsedKeys header keys acc)
      match removed with
      | none => return ()
      | some acc' => putAccount { acc' with signers := normalizeSigners acc'.signers }

def removeUsedOneTimeSignerKeys : List (AccountID × List SignerKey) → LedgerM Unit
  | [] => return ()
  | (accountID, keys) :: rest => do
      removeUsedOneTimeSignerKeysOf accountID keys
      removeUsedOneTimeSignerKeys rest

/-! ### Applying -/

def processSeqNum (tx : Transaction) : LedgerM Unit := do
  let acc ← activeAccount tx.sourceAccount
  ensure (decide (acc.seqNum ≤ tx.seqNum)) .unexpectedSeqNum
  putAccount { acc with seqNum := tx.seqNum }

/-- The result of checking the signatures of the operations. -/
structure SignatureResult where
  valid : Bool
  code : TransactionResultCode
  results : List (Option OperationResult)

/-- The results of the operations are kept, which a transaction has only while it has no code of its
own. -/
def markResultFailed (code : TransactionResultCode) : Except LedgerError TransactionResultCode :=
  if code = .success ∨ code = .failed then .ok .failed else .error .wrongUnion

/-- `code` is what the transaction has come to before. -/
def processSignatures (env : Env) (tx : Transaction) (code : TransactionResultCode)
    (checker : SignatureChecker) : LedgerM SignatureResult := do
  let ls ← get
  let (failures, checker) := tx.checkOperationSignatures env ls tx.operations checker
  removeUsedOneTimeSignerKeys
    (checker.usedOneTimeSignerKeys.entries.map fun entry => (entry.1, entry.2))
  if failures.any Option.isSome then do
    let code ← runExcept (markResultFailed code)
    return ⟨false, code, failures⟩
  else
    return if !checker.checkAllSignaturesUsed then ⟨false, .badAuthExtra, failures⟩
      else ⟨true, code, failures⟩

/-- The changes that a `LedgerState` reports: what it started from and what it ended with. -/
structure LedgerEntryChanges where
  before : LedgerState
  after : LedgerState

structure TransactionMetaV1 where
  txChanges : LedgerEntryChanges
  operations : List LedgerEntryChanges

/-- What the first part of applying a transaction finds. -/
structure Preparation where
  valid : Bool
  code : TransactionResultCode
  results : List (Option OperationResult)
  txChanges : LedgerEntryChanges

/-- The first part of `apply`: validates the transaction, consumes the sequence number, checks
the signatures and removes the one-time signers that were used. -/
def prepare (env : Env) (tx : Transaction) : LedgerM Preparation :=
  nested (fun _ => true) do
    let before ← get
    let cv ← tx.commonValid env tx.signatureChecker 0 true
    onlyIf cv.type.updatesSeqNum tx.processSeqNum
    let signatures ←
      if cv.type.passesAuth then tx.processSignatures env cv.code cv.checker
      else (return ⟨false, cv.code, []⟩ : LedgerM SignatureResult)
    let after ← get
    return {
      valid := signatures.valid && decide (cv.type = .fullyValid)
      code := signatures.code
      results := signatures.results
      txChanges := ⟨before, after⟩ }

/-- The outcome of applying operations: their results and changes. -/
structure Execution where
  results : List OperationResult
  changes : List LedgerEntryChanges

/-- Applies all operations, also after one of them failed. -/
def executeOperations (env : Env) (tx : Transaction) : List Operation → LedgerM Execution
  | [] => return ⟨[], []⟩
  | op :: rest => do
      let before ← get
      let result ← nested (fun _ => true) (op.apply env tx.sourceAccount)
      let after ← get
      let execution ← executeOperations env tx rest
      return ⟨result :: execution.results, ⟨before, after⟩ :: execution.changes⟩

def Execution.succeeds (execution : Execution) : Bool :=
  execution.results.all OperationResult.isSuccess

def applyOperations (env : Env) (tx : Transaction) : LedgerM Execution := do
  let execution ← nested Execution.succeeds (executeOperations env tx tx.operations)
  return if execution.succeeds then execution else { execution with changes := [] }

/-- The outcome of applying a transaction. -/
structure Application where
  success : Bool
  code : TransactionResultCode
  results : List (Option OperationResult)
  txMeta : TransactionMetaV1

def apply (env : Env) (tx : Transaction) : LedgerM Application := do
  let preparation ← tx.prepare env
  if !preparation.valid then
    return ⟨false, preparation.code, preparation.results, ⟨preparation.txChanges, []⟩⟩
  else do
    let execution ← tx.applyOperations env
    return {
      success := execution.succeeds
      code := if execution.succeeds then .success else .failed
      results := execution.results.map some
      txMeta := ⟨preparation.txChanges, execution.changes⟩ }

/-- Takes the fee, as far as the balance reaches. -/
def processFeeSeqNum (tx : Transaction) : LedgerM Int := do
  let ls ← get
  match ls.accounts.lookup tx.sourceAccount with
  | none => throw .unexpectedDatabaseState
  | some acc =>
    if 0 < tx.fee then do
      let fee := min acc.balance tx.fee
      let balance ← runExcept (addBalance acc.balance (-fee) int64Max)
      putAccount { acc with balance := balance.getD acc.balance }
      let feePool ← runExcept (int64 (ls.header.feePool + fee))
      putHeader { ls.header with feePool := feePool }
      return fee
    else
      return 0

end Transaction

end SpnCore.Ledger
