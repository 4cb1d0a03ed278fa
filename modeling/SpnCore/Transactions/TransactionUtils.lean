import SpnCore.Transactions.Exchange

/-!
# Operations on ledger entries

The helpers with which transactions read and change accounts, trust lines and offers. A function
on one entry returns the changed entry, nothing when it refuses, or an error. `updateAccount` and
`TrustLineWrapper.update` run such a function on the entry that a handle of the source refers to.
-/

namespace SpnCore.Ledger

open Lib

/-! ### Accounts -/

/-- The reserve of an account with `ownerCount` sub-entries. -/
def reserve (header : LedgerHeader) (ownerCount : UInt32) : Int :=
  (2 + ownerCount).toNat * header.baseReserve

def getMinBalance (header : LedgerHeader) (ownerCount : UInt32) : Except LedgerError Int :=
  int64 (reserve header ownerCount)

namespace AccountEntry

def getBuyingLiabilities (acc : AccountEntry) : Int :=
  acc.ext.elim 0 Liabilities.buying

def getSellingLiabilities (acc : AccountEntry) : Int :=
  acc.ext.elim 0 Liabilities.selling

/-- What the account can spend. -/
def getAvailableBalance (header : LedgerHeader) (acc : AccountEntry) : Except LedgerError Int := do
  let minBalance ← getMinBalance header acc.numSubEntries
  let avail ← int64 (acc.balance - minBalance)
  int64 (avail - acc.getSellingLiabilities)

/-- What the account can still receive. -/
def getMaxAmountReceive (acc : AccountEntry) : Except LedgerError Int := do
  let held ← int64 (acc.balance + acc.getBuyingLiabilities)
  int64 (int64Max - held)

/-- Reserve and liabilities stay covered. -/
def addBalance (header : LedgerHeader) (delta : Int) (acc : AccountEntry) :
    Except LedgerError (Option AccountEntry) :=
  if delta = 0 then .ok (some acc) else do
  let result ← Ledger.addBalance acc.balance delta int64Max
  match result with
  | none => return none
  | some newBalance => do
      let minBalance ← getMinBalance header acc.numSubEntries
      if delta < 0 ∧ newBalance - minBalance < acc.getSellingLiabilities then return none else do
      let maxBalance ← int64 (int64Max - acc.getBuyingLiabilities)
      return if maxBalance < newBalance then none else some { acc with balance := newBalance }

/-- At most what can be received. -/
def addBuyingLiabilities (delta : Int) (acc : AccountEntry) :
    Except LedgerError (Option AccountEntry) :=
  if delta = 0 then .ok (some acc) else do
  let maxLiabilities ← int64 (int64Max - acc.balance)
  let result ← Ledger.addBalance acc.getBuyingLiabilities delta maxLiabilities
  return result.map fun buying =>
    { acc with ext := some ⟨buying, acc.getSellingLiabilities⟩ }

/-- At most what is above the reserve. -/
def addSellingLiabilities (header : LedgerHeader) (delta : Int) (acc : AccountEntry) :
    Except LedgerError (Option AccountEntry) :=
  if delta = 0 then .ok (some acc) else do
  let minBalance ← getMinBalance header acc.numSubEntries
  let maxLiabilities ← int64 (acc.balance - minBalance)
  if maxLiabilities < 0 then return none else do
  let result ← Ledger.addBalance acc.getSellingLiabilities delta maxLiabilities
  return result.map fun selling =>
    { acc with ext := some ⟨acc.getBuyingLiabilities, selling⟩ }

/-- The count is unsigned, and the new count is read as a signed number first. -/
def addNumEntries (header : LedgerHeader) (count : Int) (acc : AccountEntry) :
    Except LedgerError (Option AccountEntry) := do
  let newEntriesCount := (acc.numSubEntries.toNat + count).bmod (2 ^ 32)
  require (decide (0 ≤ newEntriesCount)) .invalidAccountState
  let numSubEntries := UInt32.ofNat newEntriesCount.toNat
  let minBalance ← getMinBalance header numSubEntries
  let effMinBalance ← int64 (minBalance + acc.getSellingLiabilities)
  return if 0 < count ∧ acc.balance < effMinBalance then none
    else some { acc with numSubEntries := numSubEntries }

def isAuthRequired (acc : AccountEntry) : Bool :=
  acc.flags &&& authRequiredFlag != 0

def isImmutableAuth (acc : AccountEntry) : Bool :=
  acc.flags &&& authImmutableFlag != 0

end AccountEntry

/-- The order of signer keys: by type, then by value. -/
def SignerKey.rank : SignerKey → Nat × Nat
  | .ed25519 key => (0, key)
  | .preAuthTx hash => (1, hash)
  | .hashX hash => (2, hash)

def Signer.le (s₁ s₂ : Signer) : Bool :=
  decide (s₁.key.rank.1 < s₂.key.rank.1 ∨
    s₁.key.rank.1 = s₂.key.rank.1 ∧ s₁.key.rank.2 ≤ s₂.key.rank.2)

/-- Signers are stored in order. -/
def normalizeSigners (signers : List Signer) : List Signer :=
  signers.mergeSort Signer.le

/-! ### Trust lines -/

namespace TrustLineEntry

def isAuthorized (line : TrustLineEntry) : Bool :=
  line.flags &&& authorizedFlag != 0

def setAuthorized (authorized : Bool) (line : TrustLineEntry) : TrustLineEntry :=
  { line with
    flags := if authorized then line.flags ||| authorizedFlag
      else line.flags &&& ~~~authorizedFlag }

def getBuyingLiabilities (line : TrustLineEntry) : Int :=
  line.ext.elim 0 Liabilities.buying

def getSellingLiabilities (line : TrustLineEntry) : Int :=
  line.ext.elim 0 Liabilities.selling

/-- What can be spent through the line. -/
def getAvailableBalance (line : TrustLineEntry) : Except LedgerError Int :=
  int64 (line.balance - line.getSellingLiabilities)

/-- Nothing without authorization. -/
def getMaxAmountReceive (line : TrustLineEntry) : Except LedgerError Int :=
  if line.isAuthorized then do
    let amount ← int64 (line.limit - line.balance)
    int64 (amount - line.getBuyingLiabilities)
  else
    return 0

/-- What a new limit has to leave room for. -/
def getMinimumLimit (line : TrustLineEntry) : Except LedgerError Int :=
  int64 (line.balance + line.getBuyingLiabilities)

/-- Limit and liabilities stay respected. -/
def addBalance (delta : Int) (line : TrustLineEntry) :
    Except LedgerError (Option TrustLineEntry) :=
  if delta = 0 then .ok (some line) else
  if !line.isAuthorized then .ok none else do
  let result ← Ledger.addBalance line.balance delta line.limit
  match result with
  | none => return none
  | some newBalance => do
      if newBalance < line.getSellingLiabilities then return none else do
      let maxBalance ← int64 (line.limit - line.getBuyingLiabilities)
      return if maxBalance < newBalance then none else some { line with balance := newBalance }

/-- At most what fits under the limit. -/
def addBuyingLiabilities (delta : Int) (line : TrustLineEntry) :
    Except LedgerError (Option TrustLineEntry) :=
  if delta = 0 then .ok (some line) else
  if !line.isAuthorized then .ok none else do
  let maxLiabilities ← int64 (line.limit - line.balance)
  let result ← Ledger.addBalance line.getBuyingLiabilities delta maxLiabilities
  return result.map fun buying =>
    { line with ext := some ⟨buying, line.getSellingLiabilities⟩ }

/-- At most what is held. -/
def addSellingLiabilities (delta : Int) (line : TrustLineEntry) :
    Except LedgerError (Option TrustLineEntry) :=
  if delta = 0 then .ok (some line) else
  if !line.isAuthorized then .ok none else do
  let result ← Ledger.addBalance line.getSellingLiabilities delta line.balance
  return result.map fun selling =>
    { line with ext := some ⟨line.getBuyingLiabilities, selling⟩ }

end TrustLineEntry

/-! ### Loading and storing -/

def loadHeader : LedgerM LedgerHeader := do
  let ls ← get
  return ls.header

def putHeader (header : LedgerHeader) : LedgerM Unit :=
  modify fun ls => ls.putHeader header

def loadAccount (accountID : AccountID) : LedgerM (Option AccountEntry) := do
  let ls ← get
  return ls.accounts.lookup accountID

def putAccount (acc : AccountEntry) : LedgerM Unit :=
  modify fun ls => ls.putAccount acc

def putTrustLine (line : TrustLineEntry) : LedgerM Unit :=
  modify fun ls => ls.putTrustLine line

def putOffer (offer : OfferEntry) : LedgerM Unit :=
  modify fun ls => ls.putOffer offer

def putData (data : DataEntry) : LedgerM Unit :=
  modify fun ls => ls.putData data

def eraseAccount (accountID : AccountID) : LedgerM Unit :=
  modify fun ls => ls.eraseAccount accountID

def eraseTrustLine (accountID : AccountID) (asset : Asset) : LedgerM Unit :=
  modify fun ls => ls.eraseTrustLine accountID asset

def eraseOffer (sellerID : AccountID) (offerID : Nat) : LedgerM Unit :=
  modify fun ls => ls.eraseOffer sellerID offerID

def eraseData (accountID : AccountID) (dataName : Bytes) : LedgerM Unit :=
  modify fun ls => ls.eraseData accountID dataName

/-- An entry that is used through its handle. -/
def active {α : Type} (entry : Option α) : LedgerM α :=
  match entry with
  | some e => pure e
  | none => throw .entryNotActive

/-- The account, which has to exist. -/
def activeAccount (accountID : AccountID) : LedgerM AccountEntry := do
  let entry ← loadAccount accountID
  active entry

/-- Runs a function on an account and stores what it returns. -/
def updateAccount (accountID : AccountID)
    (f : LedgerHeader → AccountEntry → Except LedgerError (Option AccountEntry)) :
    LedgerM Bool := do
  let header ← loadHeader
  let acc ← activeAccount accountID
  let result ← runExcept (f header acc)
  match result with
  | none => return false
  | some acc' => do
      putAccount acc'
      return true

def addAccountBalance (accountID : AccountID) (delta : Int) : LedgerM Bool :=
  updateAccount accountID fun header acc => acc.addBalance header delta

def addNumEntries (accountID : AccountID) (count : Int) : LedgerM Bool :=
  updateAccount accountID fun header acc => acc.addNumEntries header count

/-- The identifier of a new offer. -/
def generateID : LedgerM Nat := do
  let header ← loadHeader
  let id := (header.idPool + 1) % 2 ^ 64
  putHeader { header with idPool := id }
  return id

/-- The first sequence number of an account created in this ledger, as a signed number. -/
def getStartingSequenceNumber (header : LedgerHeader) : Int :=
  (header.ledgerSeq * 2 ^ 32 : Int).bmod (2 ^ 64)

/-! ### Trust line wrappers -/

/-- What a `TrustLineWrapper` holds: nothing, a trust line, or the issuer's side of an asset. -/
inductive TrustLineWrapper where
  | inactive
  | nonIssuer (accountID : AccountID) (asset : Asset)
  | issuer
deriving DecidableEq, Repr

/-- The issuer needs no line for its own asset. -/
def loadTrustLine (accountID : AccountID) (asset : Asset) : LedgerM TrustLineWrapper := do
  let ls ← get
  match asset.issuer? with
  | none => throw .trustLineForNative
  | some issuer =>
    return if issuer = accountID then .issuer
      else if (ls.trustLines.lookup (accountID, asset)).isSome then .nonIssuer accountID asset
      else .inactive

namespace TrustLineWrapper

variable {α : Type}

def isActive : TrustLineWrapper → Bool
  | .inactive => false
  | .nonIssuer _ _ => true
  | .issuer => true

/-- Reads from the line. The issuer of an asset has a fixed answer. -/
def read (issuerValue : α) (f : TrustLineEntry → Except LedgerError α) :
    TrustLineWrapper → LedgerM α
  | .inactive => throw .trustLineNotActive
  | .issuer => pure issuerValue
  | .nonIssuer accountID asset => do
      let ls ← get
      let line ← active (ls.trustLines.lookup (accountID, asset))
      runExcept (f line)

/-- Runs a function on the line and stores what it returns. -/
def update (f : TrustLineEntry → Except LedgerError (Option TrustLineEntry)) :
    TrustLineWrapper → LedgerM Bool
  | .inactive => throw .trustLineNotActive
  | .issuer => pure true
  | .nonIssuer accountID asset => do
      let ls ← get
      let line ← active (ls.trustLines.lookup (accountID, asset))
      let result ← runExcept (f line)
      match result with
      | none => return false
      | some line' => do
          putTrustLine line'
          return true

def getBalance : TrustLineWrapper → LedgerM Int :=
  read int64Max fun line => .ok line.balance

def isAuthorized : TrustLineWrapper → LedgerM Bool :=
  read true fun line => .ok line.isAuthorized

def getAvailableBalance : TrustLineWrapper → LedgerM Int :=
  read int64Max TrustLineEntry.getAvailableBalance

def getMaxAmountReceive : TrustLineWrapper → LedgerM Int :=
  read int64Max TrustLineEntry.getMaxAmountReceive

def getBuyingLiabilities : TrustLineWrapper → LedgerM Int :=
  read 0 fun line => .ok line.getBuyingLiabilities

def getSellingLiabilities : TrustLineWrapper → LedgerM Int :=
  read 0 fun line => .ok line.getSellingLiabilities

def addBalance (delta : Int) : TrustLineWrapper → LedgerM Bool :=
  update (TrustLineEntry.addBalance delta)

end TrustLineWrapper

/-! ### Holdings

What an account holds of an asset is its balance for the native asset, and its trust line for
the others. -/

/-- Runs one of two functions, on the account or on the trust line. -/
def updateHolding (accountID : AccountID) (asset : Asset)
    (onAccount : LedgerHeader → AccountEntry → Except LedgerError (Option AccountEntry))
    (onLine : TrustLineEntry → Except LedgerError (Option TrustLineEntry)) : LedgerM Bool :=
  if asset = .native then
    updateAccount accountID onAccount
  else do
    let line ← loadTrustLine accountID asset
    line.update onLine

/-- Changes what the account holds. -/
def addHolding (accountID : AccountID) (asset : Asset) (delta : Int) : LedgerM Bool :=
  updateHolding accountID asset (fun header acc => acc.addBalance header delta)
    (fun line => line.addBalance delta)

/-- `loadAccountAndValidate` and `loadTrustAndValidate`. -/
def validateHolding (accountID : AccountID) (asset : Asset) : LedgerM Unit :=
  if asset = .native then do
    let account ← loadAccount accountID
    ensure account.isSome .noAccount
  else do
    let line ← loadTrustLine accountID asset
    ensure line.isActive .noTrustLine

def addBuyingLiabilities (accountID : AccountID) (asset : Asset) (delta : Int) : LedgerM Bool :=
  updateHolding accountID asset (fun _ acc => acc.addBuyingLiabilities delta)
    (fun line => line.addBuyingLiabilities delta)

def addSellingLiabilities (accountID : AccountID) (asset : Asset) (delta : Int) : LedgerM Bool :=
  updateHolding accountID asset (fun header acc => acc.addSellingLiabilities header delta)
    (fun line => line.addSellingLiabilities delta)

def acquireOrReleaseLiabilities (offer : OfferEntry) (isAcquire : Bool) : LedgerM Unit := do
  ensure (decide (offer.buying ≠ offer.selling)) .sameAsset
  let buyingLiabilities ← runExcept (getOfferBuyingLiabilities offer)
  validateHolding offer.sellerID offer.buying
  let bought ← addBuyingLiabilities offer.sellerID offer.buying
    (if isAcquire then buyingLiabilities else -buyingLiabilities)
  ensure bought .addBuyingLiabilities
  let sellingLiabilities ← runExcept (getOfferSellingLiabilities offer)
  validateHolding offer.sellerID offer.selling
  let sold ← addSellingLiabilities offer.sellerID offer.selling
    (if isAcquire then sellingLiabilities else -sellingLiabilities)
  ensure sold .addSellingLiabilities

def acquireLiabilities (offer : OfferEntry) : LedgerM Unit :=
  acquireOrReleaseLiabilities offer true

def releaseLiabilities (offer : OfferEntry) : LedgerM Unit :=
  acquireOrReleaseLiabilities offer false

def canSellAtMost (accountID : AccountID) (asset : Asset) : LedgerM Int :=
  if asset = .native then do
    -- can only send above the minimum balance
    let header ← loadHeader
    let acc ← activeAccount accountID
    let available ← runExcept (acc.getAvailableBalance header)
    return max available 0
  else do
    let line ← loadTrustLine accountID asset
    if line.isActive then do
      let authorized ← line.isAuthorized
      if authorized then do
        let available ← line.getAvailableBalance
        return max available 0
      else
        return 0
    else
      return 0

def canBuyAtMost (accountID : AccountID) (asset : Asset) : LedgerM Int :=
  if asset = .native then do
    let acc ← activeAccount accountID
    let amount ← runExcept acc.getMaxAmountReceive
    return max amount 0
  else do
    let line ← loadTrustLine accountID asset
    if line.isActive then do
      let amount ← line.getMaxAmountReceive
      return max amount 0
    else
      return 0

/-- The `adjustOffer` that limits an offer by what its seller can sell and buy. -/
def adjustOfferToLimits (offer : OfferEntry) : LedgerM OfferEntry := do
  let sellable ← canSellAtMost offer.sellerID offer.selling
  let maxSheepReceive ← canBuyAtMost offer.sellerID offer.buying
  let amount ← runExcept (adjustOffer offer.price (min offer.amount sellable) maxSheepReceive)
  return { offer with amount := amount }

end SpnCore.Ledger
