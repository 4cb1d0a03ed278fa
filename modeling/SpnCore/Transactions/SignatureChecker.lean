import SpnCore.Transactions.AccountOperations

/-!
# Checking signatures

One checker is shared by all checks of a transaction. It remembers which signatures were used
and which pre-authorized transaction signers matched.
-/

namespace SpnCore.Ledger

open Lib

structure SignatureChecker where
  contentsHash : Hash
  signatures : List DecoratedSignature
  usedSignatures : List Bool
  usedOneTimeSignerKeys : FMap AccountID (List SignerKey)

namespace SignatureChecker

def init (contentsHash : Hash) (signatures : List DecoratedSignature) : SignatureChecker where
  contentsHash := contentsHash
  signatures := signatures
  usedSignatures := signatures.map fun _ => false
  usedOneTimeSignerKeys := ∅

/-- The weight with which a signer counts. -/
def weightOf (signer : Signer) : Nat :=
  min signer.weight 255

def useSignature (i : Nat) (checker : SignatureChecker) : SignatureChecker :=
  { checker with usedSignatures := checker.usedSignatures.set i true }

def useOneTimeKey (accountID : AccountID) (key : SignerKey) (checker : SignatureChecker) :
    SignatureChecker :=
  let keys := (checker.usedOneTimeSignerKeys.lookup accountID).getD []
  { checker with
    usedOneTimeSignerKeys := checker.usedOneTimeSignerKeys.insert accountID (keys.insert key) }

/-- The state of a check: whether the needed weight was reached, and the weight so far. -/
structure Check where
  reached : Bool
  totalWeight : Nat
  checker : SignatureChecker

/-- Compares pre-authorized transactions with the hash of this one. -/
def checkPreAuth (accountID : AccountID) (neededWeight : Nat) :
    List Signer → Nat → SignatureChecker → Check
  | [], totalWeight, checker => ⟨false, totalWeight, checker⟩
  | signer :: rest, totalWeight, checker =>
    if signer.key = .preAuthTx checker.contentsHash then
      let checker' := checker.useOneTimeKey accountID signer.key
      let totalWeight' := totalWeight + weightOf signer
      if neededWeight ≤ totalWeight' then ⟨true, totalWeight', checker'⟩
      else checkPreAuth accountID neededWeight rest totalWeight' checker'
    else checkPreAuth accountID neededWeight rest totalWeight checker

/-- Matches each signature with the first signer that it verifies and that is not matched yet. -/
def verifyAll (verify : DecoratedSignature → Signer → Bool) (neededWeight : Nat) :
    List (DecoratedSignature × Nat) → List Signer → Nat → SignatureChecker → Check
  | [], _, totalWeight, checker => ⟨false, totalWeight, checker⟩
  | (sig, i) :: rest, signers, totalWeight, checker =>
    match signers.find? (verify sig) with
    | none => verifyAll verify neededWeight rest signers totalWeight checker
    | some signer =>
      let checker' := checker.useSignature i
      let totalWeight' := totalWeight + weightOf signer
      if neededWeight ≤ totalWeight' then ⟨true, totalWeight', checker'⟩
      else verifyAll verify neededWeight rest (signers.eraseP (verify sig)) totalWeight' checker'

def isPreAuthTx (signer : Signer) : Bool :=
  match signer.key with
  | .preAuthTx _ => true
  | _ => false

def isHashX (signer : Signer) : Bool :=
  match signer.key with
  | .hashX _ => true
  | _ => false

def isEd25519 (signer : Signer) : Bool :=
  match signer.key with
  | .ed25519 _ => true
  | _ => false

/-- Whether a signature is the preimage of a signer's hash. -/
def verifiesHashX (env : Env) (sig : DecoratedSignature) (signer : Signer) : Bool :=
  match signer.key with
  | .hashX hash => env.verifyHashX sig hash
  | _ => false

/-- Whether a signature was made with a signer's key. -/
def verifiesEd25519 (env : Env) (contentsHash : Hash) (sig : DecoratedSignature)
    (signer : Signer) : Bool :=
  match signer.key with
  | .ed25519 key => env.verify sig key contentsHash
  | _ => false

def checkSignature (env : Env) (accountID : AccountID) (signers : List Signer)
    (neededWeight : Nat) (checker : SignatureChecker) : Bool × SignatureChecker :=
  let preAuth := checkPreAuth accountID neededWeight (signers.filter isPreAuthTx) 0 checker
  if preAuth.reached then (true, preAuth.checker) else
  let hashX := verifyAll (verifiesHashX env) neededWeight checker.signatures.zipIdx
    (signers.filter isHashX) preAuth.totalWeight preAuth.checker
  if hashX.reached then (true, hashX.checker) else
  let ed25519 := verifyAll (verifiesEd25519 env checker.contentsHash) neededWeight
    checker.signatures.zipIdx (signers.filter isEd25519) hashX.totalWeight hashX.checker
  (ed25519.reached, ed25519.checker)

def checkAllSignaturesUsed (checker : SignatureChecker) : Bool :=
  checker.usedSignatures.all id

end SignatureChecker

/-! ### Thresholds -/

inductive ThresholdLevel where
  | low
  | medium
  | high
deriving DecidableEq, Repr

def SetOptionsOp.getThresholdLevel (op : SetOptionsOp) : ThresholdLevel :=
  -- updating thresholds or signer requires high threshold
  if op.masterWeight.isSome || op.lowThreshold.isSome || op.medThreshold.isSome ||
      op.highThreshold.isSome || op.signer.isSome then .high
  else .medium

def OperationBody.getThresholdLevel : OperationBody → ThresholdLevel
  | .setOptions op => op.getThresholdLevel
  | .allowTrust _ => .low
  | .accountMerge _ => .high
  | .inflation => .low
  | .bumpSequence _ => .low
  | _ => .medium

def getNeededThreshold (acc : AccountEntry) : ThresholdLevel → Nat
  | .low => acc.thresholds.low
  | .medium => acc.thresholds.med
  | .high => acc.thresholds.high

/-- The signers of an account, the master key first unless its weight is zero. -/
def allSigners (acc : AccountEntry) : List Signer :=
  (if acc.thresholds.masterWeight = 0 then []
    else [⟨.ed25519 acc.accountID, acc.thresholds.masterWeight⟩]) ++ acc.signers

end SpnCore.Ledger
