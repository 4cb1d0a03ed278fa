import SpnCore.Transactions.TransactionUtils

/-!
# Upgrades

The upgrades that a network agrees on are applied when a ledger closes. When the reserve increases,
`prepareLiabilities` brings the offers and the liabilities into a valid state again: for every
account that has offers, the offers of an asset with excess liabilities are erased and the
liabilities are recorded anew from the offers that remain.
-/

namespace SpnCore.Herder.Upgrades

open Lib Ledger

/-! ### Totals of the liabilities -/

/-- The liabilities of an account for each asset, before offers are erased. A total that has left
the range of `int64_t` is lost. -/
abbrev Totals := FMap Asset (Option Int)

def addLiabilities (liabilities : Totals) (accountID : AccountID) (asset : Asset) (delta : Int) :
    Except LedgerError Totals :=
  let total := (liabilities.lookup asset).getD (some 0)
  if asset.issuer? = some accountID then return liabilities.insert asset total else
  match total with
  | none => return liabilities.insert asset none
  | some balance => do
      let sum ← addBalance balance delta int64Max
      return liabilities.insert asset sum

/-- The totals of the buying and of the selling liabilities. -/
structure InitialLiabilities where
  buying : Totals := ∅
  selling : Totals := ∅

def InitialLiabilities.add (initial : InitialLiabilities) (offer : OfferEntry) :
    Except LedgerError InitialLiabilities := do
  let offerBuying ← getOfferBuyingLiabilities offer
  let buying ← addLiabilities initial.buying offer.sellerID offer.buying offerBuying
  let offerSelling ← getOfferSellingLiabilities offer
  let selling ← addLiabilities initial.selling offer.sellerID offer.selling offerSelling
  return ⟨buying, selling⟩

/-! ### Limits -/

def getAvailableBalanceExcludingLiabilities (accountID : AccountID) (asset : Asset)
    (balanceAboveReserve : Int) (ls : LedgerState) : Int :=
  if asset = .native then balanceAboveReserve
  else if asset.issuer? = some accountID then int64Max
  else
    match ls.trustLines.lookup (accountID, asset) with
    | some line => if line.isAuthorized then line.balance else 0
    | none => 0

def getAvailableLimitExcludingLiabilities (accountID : AccountID) (asset : Asset) (balance : Int)
    (ls : LedgerState) : Except LedgerError Int :=
  if asset = .native then int64 (int64Max - balance)
  else if asset.issuer? = some accountID then return int64Max
  else
    match ls.trustLines.lookup (accountID, asset) with
    | some line => if line.isAuthorized then int64 (line.limit - line.balance) else return 0
    | none => return 0

/-- An offer should be deleted if the total is lost or exceeds the cap. -/
def shouldDeleteOffer (asset : Asset) (liabilities : Totals) (getCap : Except LedgerError Int) :
    Except LedgerError Bool :=
  match liabilities.lookup asset with
  | none => .error .liabilitiesNotCalculated
  | some none => return true
  | some (some total) => do
      let cap ← getCap
      return decide (cap < total)

/-! ### Updating the offers -/

inductive UpdateOfferResult where
  | unchanged
  | adjusted
  | adjustedToZero
  | erased
deriving DecidableEq, Repr

/-- The offer has left the book. -/
def UpdateOfferResult.isErased : UpdateOfferResult → Bool
  | .unchanged => false
  | .adjusted => false
  | .adjustedToZero => true
  | .erased => true

/-- The liabilities of the offers that remain. -/
abbrev Remaining := FMap Asset Liabilities

def addBuying (offer : OfferEntry) (liabilities : Remaining) : Except LedgerError Remaining :=
  if offer.buying.issuer? = some offer.sellerID then return liabilities else do
  let old := (liabilities.lookup offer.buying).getD ⟨0, 0⟩
  let delta ← getOfferBuyingLiabilities offer
  let sum ← addBalance old.buying delta int64Max
  match sum with
  | none => .error .addBuyingLiabilities
  | some buying => return liabilities.insert offer.buying { old with buying := buying }

def addSelling (offer : OfferEntry) (liabilities : Remaining) : Except LedgerError Remaining :=
  if offer.selling.issuer? = some offer.sellerID then return liabilities else do
  let old := (liabilities.lookup offer.selling).getD ⟨0, 0⟩
  let delta ← getOfferSellingLiabilities offer
  let sum ← addBalance old.selling delta int64Max
  match sum with
  | none => .error .addSellingLiabilities
  | some selling => return liabilities.insert offer.selling { old with selling := selling }

/-- There are excess liabilities for the asset that the offer sells, or for the one it buys. -/
def hasExcess (offer : OfferEntry) (balance balanceAboveReserve : Int)
    (initial : InitialLiabilities) (ls : LedgerState) : Except LedgerError Bool := do
  let erase ← shouldDeleteOffer offer.selling initial.selling
    (.ok (getAvailableBalanceExcludingLiabilities offer.sellerID offer.selling
      balanceAboveReserve ls))
  if erase then return true else
  shouldDeleteOffer offer.buying initial.buying
    (getAvailableLimitExcludingLiabilities offer.sellerID offer.buying balance ls)

/-- Erases the offer if there are excess liabilities, or adjusts it to its amount. -/
def updateOffer (offer : OfferEntry) (balance balanceAboveReserve : Int)
    (initial : InitialLiabilities) (liabilities : Remaining) :
    LedgerM (UpdateOfferResult × Remaining) := do
  let ls ← get
  let erase ← runExcept (hasExcess offer balance balanceAboveReserve initial ls)
  if erase then do
    eraseOffer offer.sellerID offer.offerID
    return (.erased, liabilities)
  else do
    let adjAmount ← runExcept (adjustOffer offer.price offer.amount int64Max)
    if adjAmount = 0 then do
      eraseOffer offer.sellerID offer.offerID
      return (.adjustedToZero, liabilities)
    else do
      let adjusted := { offer with amount := adjAmount }
      putOffer adjusted
      let bought ← runExcept (addBuying adjusted liabilities)
      let sold ← runExcept (addSelling adjusted bought)
      return (if adjAmount = offer.amount then .unchanged else .adjusted, sold)

/-- Updates the offers of an account one after the other. -/
def updateOffers (accountID : AccountID) (balance balanceAboveReserve : Int)
    (initial : InitialLiabilities) : List OfferEntry → Remaining → LedgerM Remaining
  | [], liabilities => return liabilities
  | offer :: rest, liabilities => do
      let (res, liabilities) ← updateOffer offer balance balanceAboveReserve initial liabilities
      onlyIf res.isErased do
        let _ ← addNumEntries accountID (-1)
      updateOffers accountID balance balanceAboveReserve initial rest liabilities

/-! ### Recording the liabilities -/

/-- The liabilities that an account has recorded for an asset. -/
def recordedLiabilities (accountID : AccountID) (asset : Asset) : LedgerM Liabilities :=
  if asset = .native then do
    let acc ← activeAccount accountID
    return ⟨acc.getBuyingLiabilities, acc.getSellingLiabilities⟩
  else do
    let trust ← loadTrustLine accountID asset
    let selling ← trust.getSellingLiabilities
    let buying ← trust.getBuyingLiabilities
    return ⟨buying, selling⟩

def recordLiabilities (accountID : AccountID) (asset : Asset) (liab : Liabilities) :
    LedgerM Unit := do
  let recorded ← recordedLiabilities accountID asset
  let deltaSelling ← runExcept (int64 (liab.selling - recorded.selling))
  let deltaBuying ← runExcept (int64 (liab.buying - recorded.buying))
  let sold ← addSellingLiabilities accountID asset deltaSelling
  ensure sold .upgradeSelling
  let bought ← addBuyingLiabilities accountID asset deltaBuying
  ensure bought .upgradeBuying

/-- The round of the loop for one account. -/
def prepareAccount (accountID : AccountID) (offers : List OfferEntry) : LedgerM Unit := do
  let initial ← runExcept (offers.foldlM InitialLiabilities.add {})
  let header ← loadHeader
  let account ← loadAccount accountID
  match account with
  | none => throw .noAccount
  | some acc => do
      let minBalance ← runExcept (getMinBalance header acc.numSubEntries)
      -- the selling liabilities are not excluded, since they are calculated from scratch
      let balanceAboveReserve ← runExcept (int64 (acc.balance - minBalance))
      let liabilities ←
        updateOffers accountID acc.balance balanceAboveReserve initial offers ∅
      liabilities.entries.forM fun entry => recordLiabilities accountID entry.1 entry.2

/-- The accounts that have offers, in the order of their keys. -/
def sellers (ls : LedgerState) : List AccountID :=
  (ls.offers.values.map OfferEntry.sellerID).dedup.insertionSort (· ≤ ·)

def prepareLiabilities : LedgerM Unit := do
  let ls ← get
  (sellers ls).forM fun accountID =>
    prepareAccount accountID (ls.offers.values.filter fun offer => offer.sellerID = accountID)

/-! ### Applying upgrades -/

inductive LedgerUpgrade where
  | version (newLedgerVersion : Nat)
  | baseFee (newBaseFee : Nat)
  | maxTxSetSize (newMaxTxSetSize : Nat)
  | baseReserve (newBaseReserve : Nat)
deriving DecidableEq, Repr

def applyReserveUpgrade (newReserve : Nat) : LedgerM Unit := do
  let header ← loadHeader
  putHeader { header with baseReserve := newReserve }
  onlyIf (decide (header.baseReserve < newReserve)) prepareLiabilities

/-- From protocol version 10 on a new version changes nothing but the version. -/
def applyTo : LedgerUpgrade → LedgerM Unit
  | .version _ => return ()
  | .baseFee newBaseFee => do
      let header ← loadHeader
      putHeader { header with baseFee := newBaseFee }
  | .maxTxSetSize newMaxTxSetSize => do
      let header ← loadHeader
      putHeader { header with maxTxSetSize := newMaxTxSetSize }
  | .baseReserve newBaseReserve => applyReserveUpgrade newBaseReserve

end SpnCore.Herder.Upgrades
