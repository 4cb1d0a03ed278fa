import SpnCore.Transactions.TransactionUtils

/-!
# Crossing offers

An operation that sends sheep for wheat crosses the best offers that sell wheat for sheep, one
after the other, until its limits are reached or the book is empty.
-/

namespace SpnCore.Ledger

open Lib

/-- A signature with the hint of the key that made it. -/
abbrev DecoratedSignature := Nat

/-- The functions of the platform that the ledger rests on: the order of floating point prices
and of key strings, and the checks of signatures. -/
structure Env where
  /-- A number that orders prices as their quotient in double precision does. -/
  priceKey : Price → Int
  /-- A number that orders accounts as their key strings do. -/
  strKey : AccountID → Nat
  /-- `SignatureUtils::verify` -/
  verify : DecoratedSignature → AccountID → Hash → Bool
  /-- `SignatureUtils::verifyHashX` -/
  verifyHashX : DecoratedSignature → Hash → Bool

/-! ### The best offer -/

def isBetterOffer (env : Env) (lhs rhs : OfferEntry) : Bool :=
  decide (env.priceKey lhs.price < env.priceKey rhs.price) ||
    decide (env.priceKey lhs.price = env.priceKey rhs.price) && decide (lhs.offerID < rhs.offerID)

/-- The better of an offer and the best one so far. -/
def betterOffer (env : Env) (best : Option OfferEntry) (offer : OfferEntry) : Option OfferEntry :=
  match best with
  | none => some offer
  | some b => if isBetterOffer env offer b then some offer else some b

def getBestOffer (env : Env) (buying selling : Asset) (ls : LedgerState) : Option OfferEntry :=
  (ls.offers.values.filter fun offer => offer.buying = buying ∧ offer.selling = selling).foldl
    (betterOffer env) none

/-! ### Crossing one offer -/

structure ClaimOfferAtom where
  sellerID : AccountID
  offerID : Nat
  assetSold : Asset
  amountSold : Int
  assetBought : Asset
  amountBought : Int
deriving DecidableEq, Repr

inductive CrossOfferResult where
  | eOfferPartial
  | eOfferTaken
deriving DecidableEq, Repr

/-- The results that `crossOfferV10` returns through its arguments. -/
structure CrossedOffer where
  result : CrossOfferResult
  numWheatReceived : Int
  numSheepSend : Int
  wheatStays : Bool
  atom : ClaimOfferAtom
deriving DecidableEq, Repr

/-- The seller's side of a trade. -/
def tradeHoldings (offer : OfferEntry) (numWheatReceived numSheepSend : Int) : LedgerM Unit := do
  onlyIf (numSheepSend != 0) do
    let added ← addHolding offer.sellerID offer.buying numSheepSend
    ensure added .overflowedSheep
  onlyIf (numWheatReceived != 0) do
    let removed ← addHolding offer.sellerID offer.selling (-numWheatReceived)
    ensure removed .overflowedWheat

/-- What remains of an offer after a trade. -/
def remainingOffer (offer : OfferEntry) (numWheatReceived : Int) (wheatStays : Bool) :
    LedgerM OfferEntry :=
  if wheatStays then
    adjustOfferToLimits { offer with amount := offer.amount - numWheatReceived }
  else
    return { offer with amount := 0 }

/-- An offer of which nothing remains leaves the book. -/
def settleOffer (offer : OfferEntry) : LedgerM CrossOfferResult :=
  if offer.amount = 0 then do
    eraseOffer offer.sellerID offer.offerID
    let _ ← addNumEntries offer.sellerID (-1)
    return .eOfferTaken
  else do
    putOffer offer
    acquireLiabilities offer
    return .eOfferPartial

def crossOfferV10 (sellingWheatOffer : OfferEntry) (maxWheatReceived maxSheepSend : Int)
    (isPathPayment : Bool) : LedgerM CrossedOffer := do
  ensure (decide (0 < maxWheatReceived)) .assertion
  ensure (decide (0 < maxSheepSend)) .assertion
  let accountB ← loadAccount sellingWheatOffer.sellerID
  ensure accountB.isSome .offerWithoutAccount
  releaseLiabilities sellingWheatOffer
  let offer ← adjustOfferToLimits sellingWheatOffer
  let sellable ← canSellAtMost offer.sellerID offer.selling
  let maxSheepReceive ← canBuyAtMost offer.sellerID offer.buying
  let exchange ← runExcept (exchangeV10 offer.price (min offer.amount sellable) maxWheatReceived
    maxSheepSend maxSheepReceive isPathPayment)
  tradeHoldings offer exchange.numWheatReceived exchange.numSheepSend
  let remaining ← remainingOffer offer exchange.numWheatReceived exchange.wheatStays
  let result ← settleOffer remaining
  return {
    result := result
    numWheatReceived := exchange.numWheatReceived
    numSheepSend := exchange.numSheepSend
    wheatStays := exchange.wheatStays
    atom := {
      sellerID := offer.sellerID
      offerID := offer.offerID
      assetSold := offer.selling
      amountSold := exchange.numWheatReceived
      assetBought := offer.buying
      amountBought := exchange.numSheepSend } }

/-! ### Converting along the book -/

/-- Why a filter stops a conversion. -/
inductive StopReason where
  | price
  | crossSelf
deriving DecidableEq, Repr

/-- Says of an offer whether it may be crossed. -/
abbrev OfferFilter := OfferEntry → Except LedgerError (Option StopReason)

inductive ConvertResult where
  | eOK
  | ePartial
  | eFilterStop (reason : StopReason)
deriving DecidableEq, Repr

/-- The results that `convertWithOffers` returns through its arguments. -/
structure Conversion where
  result : ConvertResult := .eOK
  sheepSend : Int := 0
  wheatReceived : Int := 0
  offerTrail : List ClaimOfferAtom := []
deriving DecidableEq, Repr

/-- How a turn of the loop ends. -/
inductive Turn where
  | noOffer
  | stopped (reason : StopReason)
  | crossed (offer : CrossedOffer)
deriving DecidableEq, Repr

def Turn.commits : Turn → Bool
  | .noOffer => false
  | .stopped _ => false
  | .crossed _ => true

/-- A turn of the loop, in a `LedgerState` of its own. -/
def crossBestOffer (env : Env) (sheep wheat : Asset) (filter : OfferFilter) (isPathPayment : Bool)
    (maxSheepSend maxWheatReceive : Int) : LedgerM Turn :=
  nested Turn.commits do
    let ls ← get
    match getBestOffer env sheep wheat ls with
    | none => return .noOffer
    | some wheatOffer => do
        let stop ← runExcept (filter wheatOffer)
        match stop with
        | some reason => return .stopped reason
        | none => do
            let crossed ← crossOfferV10 wheatOffer maxWheatReceive maxSheepSend isPathPayment
            ensure (decide (0 ≤ crossed.numSheepSend)) .assertion
            ensure (decide (crossed.numSheepSend ≤ maxSheepSend)) .assertion
            ensure (decide (0 ≤ crossed.numWheatReceived)) .assertion
            ensure (decide (crossed.numWheatReceived ≤ maxWheatReceive)) .assertion
            return .crossed crossed

/-- The totals after one more offer was crossed. -/
def Conversion.add (total : Conversion) (offer : CrossedOffer) : Conversion :=
  { total with
    sheepSend := total.sheepSend + offer.numSheepSend
    wheatReceived := total.wheatReceived + offer.numWheatReceived
    offerTrail := total.offerTrail ++ [offer.atom] }

/-- The loop of `convertWithOffers`. It goes on only when it has emptied the offer it crossed. -/
def convertLoop (env : Env) (sheep wheat : Asset) (filter : OfferFilter) (isPathPayment : Bool) :
    Nat → Int → Int → Conversion → LedgerM Conversion
  | 0, _, _, _ => throw .outOfFuel
  | fuel + 1, maxSheepSend, maxWheatReceive, total => do
      let turn ← crossBestOffer env sheep wheat filter isPathPayment maxSheepSend maxWheatReceive
      match turn with
      | .noOffer => return { total with result := .ePartial }
      | .stopped reason => return { total with result := .eFilterStop reason }
      | .crossed offer =>
        let maxSheepSend := maxSheepSend - offer.numSheepSend
        let maxWheatReceive := maxWheatReceive - offer.numWheatReceived
        let needMore :=
          !offer.wheatStays && decide (0 < maxWheatReceive) && decide (0 < maxSheepSend)
        if !needMore then return { total.add offer with result := .eOK }
        else if offer.result = .eOfferPartial then
          return { total.add offer with result := .ePartial }
        else
          convertLoop env sheep wheat filter isPathPayment fuel maxSheepSend maxWheatReceive
            (total.add offer)

def convertWithOffers (env : Env) (sheep : Asset) (maxSheepSend : Int) (wheat : Asset)
    (maxWheatReceive : Int) (isPathPayment : Bool) (filter : OfferFilter) :
    LedgerM Conversion := do
  let ls ← get
  if 0 < maxWheatReceive ∧ 0 < maxSheepSend then
    convertLoop env sheep wheat filter isPathPayment (ls.offers.values.length + 1) maxSheepSend
      maxWheatReceive {}
  else
    return {}

end SpnCore.Ledger
