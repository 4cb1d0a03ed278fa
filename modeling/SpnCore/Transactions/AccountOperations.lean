import SpnCore.Transactions.OfferOperations

/-!
# Operations on accounts, trust lines and data

The operations that cross no offers, and the frame in which every operation is checked and
applied.
-/

namespace SpnCore.Ledger

open Lib

/-! ### Creating and merging accounts -/

namespace CreateAccountOp

def doCheckValid (source : AccountID) (op : CreateAccountOp) : Option CreateAccountResult :=
  if op.startingBalance ≤ 0 then some .malformed
  else if op.destination = source then some .malformed
  else none

/-- The master key alone signs for it. -/
def newAccount (header : LedgerHeader) (op : CreateAccountOp) : AccountEntry where
  accountID := op.destination
  balance := op.startingBalance
  seqNum := getStartingSequenceNumber header

def doApply (source : AccountID) (op : CreateAccountOp) : LedgerM CreateAccountResult := do
  let destinationExists ← accountExists op.destination
  if destinationExists then return .alreadyExist else do
  let header ← loadHeader
  let minBalance ← runExcept (getMinBalance header 0)
  if op.startingBalance < minBalance then return .lowReserve else do
  let sourceAccount ← activeAccount source
  let available ← runExcept (sourceAccount.getAvailableBalance header)
  if available < op.startingBalance then return .underfunded else do
  let removed ← addAccountBalance source (-op.startingBalance)
  ensure removed .assertion
  putAccount (newAccount header op)
  return .success

end CreateAccountOp

namespace AccountMerge

def doCheckValid (source destination : AccountID) : Option AccountMergeResult :=
  if source = destination then some .malformed else none

def doApply (source destination : AccountID) : LedgerM AccountMergeResult := do
  let header ← loadHeader
  let destinationExists ← accountExists destination
  if !destinationExists then return .noAccount else do
  let sourceAccount ← activeAccount source
  if sourceAccount.isImmutableAuth then return .immutableSet else
  if sourceAccount.numSubEntries.toNat ≠ sourceAccount.signers.length then
    return .hasSubEntries
  else
  -- don't allow the account to be merged if recreating it would cause it to jump backwards
  if getStartingSequenceNumber header ≤ sourceAccount.seqNum then return .seqnumTooFar else do
  let added ← addAccountBalance destination sourceAccount.balance
  if !added then return .destFull else do
  eraseAccount source
  return .success sourceAccount.balance

end AccountMerge

/-! ### Options of an account -/

namespace SetOptionsOp

def allAccountFlags : Flags :=
  authRequiredFlag ||| authRevocableFlag ||| authImmutableFlag

/-- Thresholds and weights are bytes. -/
def isThresholdValid (threshold : Option Nat) : Bool :=
  threshold.all (· ≤ 255)

def doCheckValid (source : AccountID) (op : SetOptionsOp) : Option SetOptionsResult :=
  if op.setFlags.any (fun flags => flags &&& ~~~allAccountFlags != 0) then some .unknownFlag
  else if op.clearFlags.any (fun flags => flags &&& ~~~allAccountFlags != 0) then some .unknownFlag
  else if op.setFlags.any (fun set => op.clearFlags.any fun clear => set &&& clear != 0) then
    some .badFlags
  else if !isThresholdValid op.masterWeight || !isThresholdValid op.lowThreshold ||
      !isThresholdValid op.medThreshold || !isThresholdValid op.highThreshold then
    some .thresholdOutOfRange
  else if op.signer.any (fun signer => signer.key == .ed25519 source) then some .badSigner
  else if op.signer.any (fun signer => decide (255 < signer.weight)) then some .badSigner
  else if op.homeDomain.any (fun domain => !isString32Valid domain) then some .invalidHomeDomain
  else none

/-- A flag operand that an account with immutable flags refuses. -/
def isRefused (acc : AccountEntry) (flags : Flags) : Bool :=
  flags &&& allAccountFlags != 0 && acc.isImmutableAuth

/-- The parts of the account that are set without further checks. -/
def setFields (op : SetOptionsOp) (acc : AccountEntry) : AccountEntry :=
  { acc with
    homeDomain := op.homeDomain.getD acc.homeDomain
    thresholds := {
      masterWeight := (op.masterWeight.map (· % 256)).getD acc.thresholds.masterWeight
      low := (op.lowThreshold.map (· % 256)).getD acc.thresholds.low
      med := (op.medThreshold.map (· % 256)).getD acc.thresholds.med
      high := (op.highThreshold.map (· % 256)).getD acc.thresholds.high } }

/-- Adds a signer or changes its weight. -/
def addSigner (header : LedgerHeader) (signer : Signer) (acc : AccountEntry) :
    Except LedgerError (AccountEntry × SetOptionsResult) :=
  if acc.signers.any (fun old => old.key == signer.key) then
    return ({ acc with
        signers := acc.signers.map fun old => if old.key = signer.key then signer else old },
      .success)
  else if acc.signers.length = 20 then return (acc, .tooManySigners)
  else do
    let reserved ← acc.addNumEntries header 1
    match reserved with
    | none => return (acc, .lowReserve)
    | some acc' => return ({ acc' with signers := acc'.signers ++ [signer] }, .success)

/-- Removes a signer, one sub-entry for each time it occurs. -/
def removeSigner (header : LedgerHeader) (key : SignerKey) :
    List Signer → AccountEntry → Except LedgerError AccountEntry
  | [], acc => return { acc with signers := [] }
  | old :: rest, acc =>
    if old.key = key then do
      let released ← acc.addNumEntries header (-1)
      removeSigner header key rest (released.getD acc)
    else do
      let acc' ← removeSigner header key rest acc
      return { acc' with signers := old :: acc'.signers }

/-- A weight of zero removes the signer. -/
def setSigner (header : LedgerHeader) (acc : AccountEntry) :
    Option Signer → Except LedgerError (AccountEntry × SetOptionsResult)
  | none => return (acc, .success)
  | some signer =>
    if signer.weight ≠ 0 then do
      let (acc', result) ← addSigner header signer acc
      return if result = .success then
          ({ acc' with signers := normalizeSigners acc'.signers }, .success)
        else (acc', result)
    else do
      let acc' ← removeSigner header signer.key acc.signers acc
      return ({ acc' with signers := normalizeSigners acc'.signers }, .success)

/-- The account as the operation leaves it. A failure keeps what was set before it. -/
def changeAccount (header : LedgerHeader) (op : SetOptionsOp) (acc : AccountEntry) :
    Except LedgerError (AccountEntry × SetOptionsResult) :=
  let voting := { acc with inflationDest := op.inflationDest.or acc.inflationDest }
  if op.clearFlags.any (isRefused voting) then return (voting, .cantChange) else
  let cleared := { voting with flags := voting.flags &&& ~~~(op.clearFlags.getD 0) }
  if op.setFlags.any (isRefused cleared) then return (cleared, .cantChange) else
  let flagged := { cleared with flags := cleared.flags ||| op.setFlags.getD 0 }
  setSigner header (op.setFields flagged) op.signer

def doApply (source : AccountID) (op : SetOptionsOp) : LedgerM SetOptionsResult := do
  let ls ← get
  let acc ← activeAccount source
  if op.inflationDest.any (fun dest => dest ≠ source ∧ (ls.accounts.lookup dest).isNone) then
    return .invalidInflation
  else do
    let (acc', result) ← runExcept (op.changeAccount ls.header acc)
    putAccount acc'
    return result

end SetOptionsOp

/-! ### Trust lines -/

/-- The issuer of an asset, whose union must not be the native arm. -/
def getIssuer (asset : Asset) : LedgerM AccountID :=
  match asset.issuer? with
  | none => throw .wrongUnion
  | some issuer => pure issuer

namespace ChangeTrustOp

def doCheckValid (op : ChangeTrustOp) : Option ChangeTrustResult :=
  if op.limit < 0 then some .malformed
  else if !isAssetValid op.line then some .malformed
  else if op.line = .native then some .malformed
  else none

/-- Authorized unless the issuer requires otherwise. -/
def newTrustLine (source : AccountID) (op : ChangeTrustOp) (issuer : AccountEntry) :
    TrustLineEntry where
  accountID := source
  asset := op.line
  balance := 0
  limit := op.limit
  flags := if issuer.isAuthRequired then 0 else authorizedFlag

/-- The line exists. -/
def modifyLine (source issuerID : AccountID) (op : ChangeTrustOp) (line : TrustLineEntry) :
    LedgerM ChangeTrustResult := do
  let minimumLimit ← runExcept line.getMinimumLimit
  -- can't drop the limit below the balance you are holding with them
  if op.limit < minimumLimit then return .invalidLimit else
  if op.limit = 0 then do
    eraseTrustLine source op.line
    let _ ← addNumEntries source (-1)
    return .success
  else do
    let issuer ← accountExists issuerID
    if !issuer then return .noIssuer else do
    putTrustLine { line with limit := op.limit }
    return .success

/-- There is no line yet. -/
def createLine (source issuerID : AccountID) (op : ChangeTrustOp) : LedgerM ChangeTrustResult :=
  if op.limit = 0 then return .invalidLimit else do
  let issuer ← loadAccount issuerID
  match issuer with
  | none => return .noIssuer
  | some issuer => do
      let reserved ← addNumEntries source 1
      if !reserved then return .lowReserve else do
      putTrustLine (newTrustLine source op issuer)
      return .success

def doApply (source : AccountID) (op : ChangeTrustOp) : LedgerM ChangeTrustResult := do
  let issuerID ← getIssuer op.line
  if issuerID = source then return .selfNotAllowed else do
  let ls ← get
  match ls.trustLines.lookup (source, op.line) with
  | some line => modifyLine source issuerID op line
  | none => createLine source issuerID op

end ChangeTrustOp

namespace AllowTrustOp

def doCheckValid (source : AccountID) (op : AllowTrustOp) : Option AllowTrustResult :=
  if op.asset = .native then some .malformed
  else if !isAssetValid (op.asset.asset source) then some .malformed
  else none

/-- The offers that buy or sell the asset. -/
def loadOffersByAccountAndAsset (accountID : AccountID) (asset : Asset) (ls : LedgerState) :
    List OfferEntry :=
  ls.offers.values.filter fun offer =>
    offer.sellerID = accountID ∧ (offer.selling = asset ∨ offer.buying = asset)

/-- Deletes offers of the trustor that buy or sell the asset. -/
def deleteOffers (trustor : AccountID) (asset : Asset) : List OfferEntry → LedgerM Unit
  | [] => return ()
  | offer :: rest => do
      ensure (decide (offer.sellerID = trustor)) .offerNotOwned
      ensure (decide (offer.buying = asset ∨ offer.selling = asset)) .offerOtherAsset
      releaseLiabilities offer
      let _ ← addNumEntries trustor (-1)
      eraseOffer offer.sellerID offer.offerID
      deleteOffers trustor asset rest

/-- Whether the issuer may give or take the authorization. -/
def checkIssuer (op : AllowTrustOp) (sourceAccount : AccountEntry) : Option AllowTrustResult :=
  if sourceAccount.flags &&& authRequiredFlag = 0 then some .trustNotRequired
  else if sourceAccount.flags &&& authRevocableFlag = 0 ∧ !op.authorize then some .cantRevoke
  else none

def doApply (source : AccountID) (op : AllowTrustOp) : LedgerM AllowTrustResult :=
  if op.trustor = source then return .selfNotAllowed else do
  let sourceAccount ← activeAccount source
  match op.checkIssuer sourceAccount with
  | some failure => return failure
  | none => do
      let asset := op.asset.asset source
      let ls ← get
      match ls.trustLines.lookup (op.trustor, asset) with
      | none => return .noTrustLine
      | some trust => do
          let didRevokeAuth := trust.isAuthorized && !op.authorize
          onlyIf didRevokeAuth
            (deleteOffers op.trustor asset (loadOffersByAccountAndAsset op.trustor asset ls))
          let ls' ← get
          let line ← active (ls'.trustLines.lookup (op.trustor, asset))
          putTrustLine (line.setAuthorized op.authorize)
          return .success

end AllowTrustOp

/-! ### Inflation -/

namespace Inflation

def frequency : Nat := 60 * 60 * 24 * 7

def rateTrillionths : Int := 0

def trillion : Int := 1000000000000

def winMinPercent : Int := 500000000

def numWinners : Nat := 7

def startTime : Nat := 1404172800

/-- The least balance that votes. -/
def minVotingBalance : Int := 1000000000

/-- An account with the votes for it. -/
structure InflationWinner where
  accountID : AccountID
  votes : Int
deriving DecidableEq, Repr

/-- The votes of an account for a destination. -/
def votesFor (dest : AccountID) (acc : AccountEntry) : Int :=
  if acc.inflationDest = some dest ∧ minVotingBalance ≤ acc.balance then acc.balance else 0

/-- Destinations with more votes come first, then by key string. -/
def winnerLe (env : Env) (w₁ w₂ : InflationWinner) : Bool :=
  decide (w₂.votes < w₁.votes) ||
    decide (w₁.votes = w₂.votes) && decide (env.strKey w₂.accountID ≤ env.strKey w₁.accountID)

/-- The accounts with the most votes. -/
def queryInflationWinners (env : Env) (maxWinners : Nat) (minVotes : Int) (ls : LedgerState) :
    List InflationWinner :=
  let voters := ls.accounts.values.filter fun acc => minVotingBalance ≤ acc.balance
  let dests := (voters.filterMap AccountEntry.inflationDest).dedup
  let tally := dests.map fun dest => ⟨dest, ls.accounts.total (votesFor dest)⟩
  ((tally.filter fun w => minVotes ≤ w.votes).mergeSort (winnerLe env)).take maxWinners

/-- What is left to dole out, and what was paid. -/
structure Dole where
  left : Int
  payouts : List InflationPayout
deriving DecidableEq, Repr

/-- The amount for one winner, limited by what its account can receive. -/
def amountFor (amountToDole totalVotes : Int) (w : InflationWinner) (winner : Option AccountEntry) :
    Except LedgerError Int := do
  let amount ← bigDivide amountToDole w.votes totalVotes .down
  match winner with
  | none => return amount
  | some acc =>
    if amount = 0 then return 0 else do
    let room ← acc.getMaxAmountReceive
    return min room amount

/-- Credits the winners one after the other. -/
def creditWinners (amountToDole totalVotes : Int) :
    List InflationWinner → Dole → LedgerM Dole
  | [], dole => return dole
  | w :: rest, dole => do
      let winner ← loadAccount w.accountID
      let amount ← runExcept (amountFor amountToDole totalVotes w winner)
      if amount = 0 ∨ winner.isNone then creditWinners amountToDole totalVotes rest dole else do
      let left ← runExcept (int64 (dole.left - amount))
      let added ← addAccountBalance w.accountID amount
      ensure added .inflationOverflow
      creditWinners amountToDole totalVotes rest
        ⟨left, dole.payouts ++ [⟨w.accountID, amount⟩]⟩

def doApply (env : Env) : LedgerM InflationResult := do
  let ls ← get
  let header := ls.header
  if header.closeTime < startTime + header.inflationSeq * frequency then return .notTime else do
  let totalVotes := header.totalCoins
  let minBalance ← runExcept (bigDivide totalVotes winMinPercent trillion .down)
  let winners := queryInflationWinners env numWinners minBalance ls
  let inflationAmount ← runExcept (bigDivide header.totalCoins rateTrillionths trillion .down)
  let amountToDole ← runExcept (int64 (inflationAmount + header.feePool))
  putHeader { header with feePool := 0, inflationSeq := (header.inflationSeq + 1) % 2 ^ 32 }
  let dole ← creditWinners amountToDole totalVotes winners ⟨amountToDole, []⟩
  let header' ← loadHeader
  let feePool ← runExcept (int64 (header'.feePool + dole.left))
  let totalCoins ← runExcept (int64 (header'.totalCoins + inflationAmount))
  putHeader { header' with feePool := feePool, totalCoins := totalCoins }
  return .success dole.payouts

end Inflation

/-! ### Data and sequence numbers -/

namespace ManageDataOp

def doCheckValid (op : ManageDataOp) : Option ManageDataResult :=
  if op.dataName.length < 1 ∨ !isString32Valid op.dataName then some .invalidName else none

def doApply (source : AccountID) (op : ManageDataOp) : LedgerM ManageDataResult := do
  let ls ← get
  match op.dataValue, ls.data.lookup (source, op.dataName) with
  | some value, none => do
      let reserved ← addNumEntries source 1
      if !reserved then return .lowReserve else do
      putData ⟨source, op.dataName, value⟩
      return .success
  | some value, some data => do
      putData { data with dataValue := value }
      return .success
  | none, none => return .nameNotFound
  | none, some _ => do
      eraseData source op.dataName
      let _ ← addNumEntries source (-1)
      return .success

end ManageDataOp

namespace BumpSequence

def doCheckValid (bumpTo : Int) : Option BumpSequenceResult :=
  if bumpTo < 0 then some .badSeq else none

def doApply (source : AccountID) (bumpTo : Int) : LedgerM BumpSequenceResult := do
  let acc ← activeAccount source
  onlyIf (decide (acc.seqNum < bumpTo)) (putAccount { acc with seqNum := bumpTo })
  return .success

end BumpSequence

/-! ### Operation frames -/

namespace OperationBody

def doCheckValid (source : AccountID) : OperationBody → Option OperationResult
  | .createAccount op => (op.doCheckValid source).map .createAccount
  | .payment op => op.doCheckValid.map .payment
  | .pathPayment op => op.doCheckValid.map .pathPayment
  | .manageOffer op => op.doCheckValid.map .manageOffer
  | .createPassiveOffer op => op.toManageOffer.doCheckValid.map .manageOffer
  | .setOptions op => (op.doCheckValid source).map .setOptions
  | .changeTrust op => op.doCheckValid.map .changeTrust
  | .allowTrust op => (op.doCheckValid source).map .allowTrust
  | .accountMerge destination => (AccountMerge.doCheckValid source destination).map .accountMerge
  | .inflation => none
  | .manageData op => op.doCheckValid.map .manageData
  | .bumpSequence bumpTo => (BumpSequence.doCheckValid bumpTo).map .bumpSequence

def doApply (env : Env) (source : AccountID) : OperationBody → LedgerM OperationResult
  | .createAccount op => .createAccount <$> op.doApply source
  | .payment op => .payment <$> op.doApply env source
  | .pathPayment op => .pathPayment <$> op.doApply env source
  | .manageOffer op => .manageOffer <$> op.doApply env source false
  | .createPassiveOffer op => .manageOffer <$> op.toManageOffer.doApply env source true
  | .setOptions op => .setOptions <$> op.doApply source
  | .changeTrust op => .changeTrust <$> op.doApply source
  | .allowTrust op => .allowTrust <$> op.doApply source
  | .accountMerge destination => .accountMerge <$> AccountMerge.doApply source destination
  | .inflation => .inflation <$> Inflation.doApply env
  | .manageData op => .manageData <$> op.doApply source
  | .bumpSequence bumpTo => .bumpSequence <$> BumpSequence.doApply source bumpTo

end OperationBody

namespace Operation

/-- The source of the operation. -/
def getSourceID (txSource : AccountID) (op : Operation) : AccountID :=
  op.sourceAccount.getD txSource

/-- `OperationFrame::apply`: the checks that apply at protocol version 10, where signatures have
been checked before, and then the operation itself. -/
def apply (env : Env) (txSource : AccountID) (op : Operation) : LedgerM OperationResult := do
  let source := op.getSourceID txSource
  let sourceExists ← accountExists source
  if !sourceExists then return .noAccount else
  match op.body.doCheckValid source with
  | some failure => return failure
  | none => op.body.doApply env source

end Operation

end SpnCore.Ledger
