import SpnCore.Lib.Table
import SpnCore.Lib.Wp
import Mathlib.Data.List.Sort

/-!
# Ledger entries

The entries of a ledger and its header at protocol version 10. A ledger holds one table for each
type of entry. A `LedgerState` opened on another one sees a copy of it, which replaces the outer
one when it is committed and is dropped when it is rolled back, so a program over ledgers is a
state passing one and a nested `LedgerState` is `Lib.nested`.

Amounts and sequence numbers are the source's `int64_t`. They are integers here, and every
operation on them that can leave the range fails with `LedgerError.overflow`, since signed
overflow has no defined result. Unsigned operations wrap around.
-/

namespace SpnCore.Ledger

open Lib

abbrev AccountID := Nat

abbrev Hash := Nat

/-- A text of the wire format. -/
abbrev Bytes := List UInt8

/-! ### Assets and prices -/

/-- The native one, or one of an issuer. -/
inductive Asset where
  | native
  | alphaNum4 (assetCode : Vector UInt8 4) (issuer : AccountID)
  | alphaNum12 (assetCode : Vector UInt8 12) (issuer : AccountID)
deriving DecidableEq, Repr

/-- The issuer of a credit asset. -/
def Asset.issuer? : Asset → Option AccountID
  | .native => none
  | .alphaNum4 _ issuer => some issuer
  | .alphaNum12 _ issuer => some issuer

/-- The price of an offer, in units of the asset it buys for one unit of the asset it sells. -/
structure Price where
  n : Int
  d : Int
deriving DecidableEq, Repr

/-! ### Accounts -/

/-- What open offers may make it buy and sell. -/
structure Liabilities where
  buying : Int
  selling : Int
deriving DecidableEq, Repr

inductive SignerKey where
  | ed25519 (key : AccountID)
  | preAuthTx (hash : Hash)
  | hashX (hash : Hash)
deriving DecidableEq, Repr

structure Signer where
  key : SignerKey
  weight : Nat
deriving DecidableEq, Repr

structure Thresholds where
  masterWeight : Nat
  low : Nat
  med : Nat
  high : Nat
deriving DecidableEq, Repr

/-- The flags of accounts, trust lines and offers. -/
abbrev Flags := BitVec 32

def authRequiredFlag : Flags := 1

def authRevocableFlag : Flags := 2

def authImmutableFlag : Flags := 4

def authorizedFlag : Flags := 1

def passiveFlag : Flags := 1

/-- An account. Its extension is absent until liabilities are first recorded. -/
structure AccountEntry where
  accountID : AccountID
  balance : Int
  seqNum : Int
  numSubEntries : UInt32 := 0
  inflationDest : Option AccountID := none
  flags : Flags := 0
  homeDomain : Bytes := []
  thresholds : Thresholds := ⟨1, 0, 0, 0⟩
  signers : List Signer := []
  ext : Option Liabilities := none
deriving DecidableEq, Repr

/-- What an account holds of an asset. -/
structure TrustLineEntry where
  accountID : AccountID
  asset : Asset
  balance : Int
  limit : Int
  flags : Flags := 0
  ext : Option Liabilities := none
deriving DecidableEq, Repr

/-- `price` is in units of `buying`. -/
structure OfferEntry where
  sellerID : AccountID
  offerID : Nat
  selling : Asset
  buying : Asset
  amount : Int
  price : Price
  flags : Flags := 0
deriving DecidableEq, Repr

structure DataEntry where
  accountID : AccountID
  dataName : Bytes
  dataValue : Bytes
deriving DecidableEq, Repr

/-! ### The keys of entries -/

instance : Keyed AccountEntry AccountID := ⟨AccountEntry.accountID⟩

instance : Keyed TrustLineEntry (AccountID × Asset) := ⟨fun line => (line.accountID, line.asset)⟩

instance : Keyed OfferEntry (AccountID × Nat) := ⟨fun offer => (offer.sellerID, offer.offerID)⟩

instance : Keyed DataEntry (AccountID × Bytes) := ⟨fun data => (data.accountID, data.dataName)⟩

@[simp] theorem key_account (acc : AccountEntry) : Keyed.key acc = acc.accountID := rfl

@[simp] theorem key_trustLine (line : TrustLineEntry) :
    Keyed.key line = (line.accountID, line.asset) := rfl

@[simp] theorem key_offer (offer : OfferEntry) :
    Keyed.key offer = (offer.sellerID, offer.offerID) := rfl

@[simp] theorem key_data (data : DataEntry) :
    Keyed.key data = (data.accountID, data.dataName) := rfl

theorem account_of_lookup {accounts : Table AccountEntry} {accountID : AccountID}
    {acc : AccountEntry} (h : accounts.lookup accountID = some acc) : acc.accountID = accountID :=
  Table.key_of_lookup h

theorem trustLine_of_lookup {trustLines : Table TrustLineEntry} {accountID : AccountID}
    {asset : Asset} {line : TrustLineEntry} (h : trustLines.lookup (accountID, asset) = some line) :
    line.accountID = accountID ∧ line.asset = asset :=
  Prod.mk.inj (Table.key_of_lookup h)

theorem offer_of_lookup {offers : Table OfferEntry} {sellerID : AccountID} {offerID : Nat}
    {offer : OfferEntry} (h : offers.lookup (sellerID, offerID) = some offer) :
    offer.sellerID = sellerID ∧ offer.offerID = offerID :=
  Prod.mk.inj (Table.key_of_lookup h)

theorem data_of_lookup {datas : Table DataEntry} {accountID : AccountID} {dataName : Bytes}
    {data : DataEntry} (h : datas.lookup (accountID, dataName) = some data) :
    data.accountID = accountID ∧ data.dataName = dataName :=
  Prod.mk.inj (Table.key_of_lookup h)

/-! ### Ledgers -/

structure LedgerHeader where
  ledgerSeq : Nat
  closeTime : Nat
  totalCoins : Int
  feePool : Int
  inflationSeq : Nat
  idPool : Nat
  baseFee : Nat
  baseReserve : Nat
  maxTxSetSize : Nat
deriving DecidableEq, Repr

/-- What a `LedgerState` shows: the header and the newest version of every entry. -/
structure LedgerState where
  header : LedgerHeader
  accounts : Table AccountEntry
  trustLines : Table TrustLineEntry
  offers : Table OfferEntry
  data : Table DataEntry

namespace LedgerState

def putHeader (ls : LedgerState) (header : LedgerHeader) : LedgerState :=
  { ls with header := header }

def putAccount (ls : LedgerState) (acc : AccountEntry) : LedgerState :=
  { ls with accounts := ls.accounts.upsert acc }

def putTrustLine (ls : LedgerState) (line : TrustLineEntry) : LedgerState :=
  { ls with trustLines := ls.trustLines.upsert line }

def putOffer (ls : LedgerState) (offer : OfferEntry) : LedgerState :=
  { ls with offers := ls.offers.upsert offer }

def putData (ls : LedgerState) (data : DataEntry) : LedgerState :=
  { ls with data := ls.data.upsert data }

def eraseAccount (ls : LedgerState) (accountID : AccountID) : LedgerState :=
  { ls with accounts := ls.accounts.erase accountID }

def eraseTrustLine (ls : LedgerState) (accountID : AccountID) (asset : Asset) : LedgerState :=
  { ls with trustLines := ls.trustLines.erase (accountID, asset) }

def eraseOffer (ls : LedgerState) (sellerID : AccountID) (offerID : Nat) : LedgerState :=
  { ls with offers := ls.offers.erase (sellerID, offerID) }

def eraseData (ls : LedgerState) (accountID : AccountID) (dataName : Bytes) : LedgerState :=
  { ls with data := ls.data.erase (accountID, dataName) }

end LedgerState

/-- The ways in which a program over the ledger stops: undefined behaviour, a failed assertion,
or one of the exceptions of the source. -/
inductive LedgerError where
  /-- Signed overflow. -/
  | overflow
  | assertion
  /-- Use of a `LedgerStateEntry` that is not active. -/
  | entryNotActive
  /-- Use of a `TrustLineWrapper` that is not active. -/
  | trustLineNotActive
  /-- "trustline for native asset" -/
  | trustLineForNative
  /-- Use of the wrong arm of a union. -/
  | wrongUnion
  /-- "Key already exists" -/
  | keyExists
  /-- "overflow while performing bigDivide" -/
  | bigDivideOverflow
  /-- "wheatReceive out of bounds" and "sheepSend out of bounds" -/
  | outOfBounds
  /-- "favored sheep when wheat stays" and "favored wheat when sheep stays" -/
  | favored
  /-- "exceeded price error bound" -/
  | priceErrorBound
  /-- "buying and selling same asset" -/
  | sameAsset
  /-- "account does not exist" -/
  | noAccount
  /-- "trustline does not exist" -/
  | noTrustLine
  /-- "could not add buying liabilities" -/
  | addBuyingLiabilities
  /-- "could not add selling liabilities" -/
  | addSellingLiabilities
  /-- "invalid account state" -/
  | invalidAccountState
  /-- "invalid database state: offer must have matching account" -/
  | offerWithoutAccount
  /-- "overflowed sheep balance" -/
  | overflowedSheep
  /-- "overflowed wheat balance" -/
  | overflowedWheat
  /-- "offer claimed over limit" -/
  | claimedOverLimit
  /-- "offer sold more than balance" -/
  | soldMoreThanBalance
  /-- "Offer not owned by expected account" -/
  | offerNotOwned
  /-- "Offer not buying or selling expected asset" -/
  | offerOtherAsset
  /-- "inflation overflowed destination balance" -/
  | inflationOverflow
  /-- "Unexpected error code from pathPayment" -/
  | unexpectedPathPayment
  /-- "unexpected sequence number" -/
  | unexpectedSeqNum
  /-- "Unexpected database state" -/
  | unexpectedDatabaseState
  /-- "liabilities were not calculated" -/
  | liabilitiesNotCalculated
  /-- "invalid selling liabilities during upgrade" -/
  | upgradeSelling
  /-- "invalid buying liabilities during upgrade" -/
  | upgradeBuying
  /-- A loop of the model ran out of steps. -/
  | outOfFuel
deriving DecidableEq, Repr

/-- Programs over the ledger. -/
abbrev LedgerM := EStateM LedgerError LedgerState

end SpnCore.Ledger
