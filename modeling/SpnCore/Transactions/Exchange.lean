import SpnCore.Util.Numeric

/-!
# Exchange arithmetic

The amounts exchanged when an offer that sells wheat for sheep is crossed (`exchangeV10`), and
the largest part of an offer that can be exchanged at its price (`adjustOffer`).
-/

namespace SpnCore.Ledger

open Lib

structure ExchangeResultV10 where
  numWheatReceived : Int
  numSheepSend : Int
  wheatStays : Bool
deriving DecidableEq, Repr

/-- Whether the effective price is within one percent of the price. -/
def checkPriceErrorBound (price : Price) (wheatReceive sheepSend : Int) (canFavorWheat : Bool) :
    Except LedgerError Bool := do
  let lhs ← bigMultiply (100 * price.n) wheatReceive
  let rhs ← bigMultiply (100 * price.d) sheepSend
  if canFavorWheat && decide (lhs < rhs) then return true else do
  let absDiff := if rhs < lhs then lhs - rhs else rhs - lhs
  let cap ← bigMultiply price.n wheatReceive
  return decide (absDiff ≤ cap)

def calculateOfferValue (priceN priceD maxSend maxReceive : Int) : Except LedgerError Int := do
  let sendValue ← bigMultiply maxSend priceN
  let receiveValue ← bigMultiply maxReceive priceD
  return min sendValue receiveValue

/-- The wheat received and the sheep sent, before they are checked against the limits. -/
def exchangedAmounts (price : Price) (wheatValue sheepValue : Int)
    (wheatStays isPathPayment : Bool) : Except LedgerError (Int × Int) :=
  if wheatStays then
    if decide (price.d < price.n) || isPathPayment then do
      let wheatReceive ← bigDivideWide sheepValue price.n .down
      let sheepSend ← bigDivide wheatReceive price.n price.d .up
      return (wheatReceive, sheepSend)
    else do
      let sheepSend ← bigDivideWide sheepValue price.d .down
      let wheatReceive ← bigDivide sheepSend price.d price.n .down
      return (wheatReceive, sheepSend)
  else
    if price.d < price.n then do
      let wheatReceive ← bigDivideWide wheatValue price.n .down
      let sheepSend ← bigDivide wheatReceive price.n price.d .down
      return (wheatReceive, sheepSend)
    else do
      let sheepSend ← bigDivideWide wheatValue price.d .down
      let wheatReceive ← bigDivide sheepSend price.d price.n .up
      return (wheatReceive, sheepSend)

def exchangeV10WithoutPriceErrorThresholds (price : Price)
    (maxWheatSend maxWheatReceive maxSheepSend maxSheepReceive : Int) (isPathPayment : Bool) :
    Except LedgerError ExchangeResultV10 := do
  let wheatValue ← calculateOfferValue price.n price.d maxWheatSend maxSheepReceive
  let sheepValue ← calculateOfferValue price.d price.n maxSheepSend maxWheatReceive
  let wheatStays := decide (sheepValue < wheatValue)
  let (wheatReceive, sheepSend) ←
    exchangedAmounts price wheatValue sheepValue wheatStays isPathPayment
  require (decide (0 ≤ wheatReceive) && decide (wheatReceive ≤ min maxWheatReceive maxWheatSend))
    .outOfBounds
  require (decide (0 ≤ sheepSend) && decide (sheepSend ≤ min maxSheepReceive maxSheepSend))
    .outOfBounds
  return ⟨wheatReceive, sheepSend, wheatStays⟩

def applyPriceErrorThresholds (price : Price) (wheatReceive sheepSend : Int)
    (wheatStays isPathPayment : Bool) : Except LedgerError ExchangeResultV10 :=
  if 0 < wheatReceive ∧ 0 < sheepSend then do
    let wheatReceiveValue ← bigMultiply wheatReceive price.n
    let sheepSendValue ← bigMultiply sheepSend price.d
    -- the offer that stays in the book must be favored
    require (!(wheatStays && decide (sheepSendValue < wheatReceiveValue))) .favored
    require (!(!wheatStays && decide (wheatReceiveValue < sheepSendValue))) .favored
    let inBound ← checkPriceErrorBound price wheatReceive sheepSend isPathPayment
    if inBound then return ⟨wheatReceive, sheepSend, wheatStays⟩
    else if isPathPayment then .error .priceErrorBound
    else return ⟨0, 0, wheatStays⟩
  else
    return ⟨0, 0, wheatStays⟩

def exchangeV10 (price : Price)
    (maxWheatSend maxWheatReceive maxSheepSend maxSheepReceive : Int) (isPathPayment : Bool) :
    Except LedgerError ExchangeResultV10 := do
  let beforeThresholds ← exchangeV10WithoutPriceErrorThresholds price maxWheatSend
    maxWheatReceive maxSheepSend maxSheepReceive isPathPayment
  applyPriceErrorThresholds price beforeThresholds.numWheatReceived
    beforeThresholds.numSheepSend beforeThresholds.wheatStays isPathPayment

/-- The amount of an offer that a buyer without limits would take. -/
def adjustOffer (price : Price) (maxWheatSend maxSheepReceive : Int) : Except LedgerError Int := do
  let res ← exchangeV10 price maxWheatSend int64Max int64Max maxSheepReceive false
  return res.numWheatReceived

/-- What crossing the whole offer would exchange. -/
def offerLiabilities (offer : OfferEntry) : Except LedgerError Liabilities := do
  let res ← exchangeV10WithoutPriceErrorThresholds offer.price offer.amount int64Max int64Max
    int64Max false
  return ⟨res.numSheepSend, res.numWheatReceived⟩

def getOfferBuyingLiabilities (offer : OfferEntry) : Except LedgerError Int := do
  let liabilities ← offerLiabilities offer
  return liabilities.buying

def getOfferSellingLiabilities (offer : OfferEntry) : Except LedgerError Int := do
  let liabilities ← offerLiabilities offer
  return liabilities.selling

/-! ### Bounds of an exchange -/

section Bounds

variable {price : Price} {maxWheatSend maxWheatReceive maxSheepSend maxSheepReceive : Int}
  {isPathPayment : Bool} {r : ExchangeResultV10}

/-- The amounts exchanged respect all limits. -/
structure ExchangeResultV10.Within (r : ExchangeResultV10)
    (maxWheatSend maxWheatReceive maxSheepSend maxSheepReceive : Int) : Prop where
  wheat_nonneg : 0 ≤ r.numWheatReceived
  wheat_le_send : r.numWheatReceived ≤ maxWheatSend
  wheat_le_receive : r.numWheatReceived ≤ maxWheatReceive
  sheep_nonneg : 0 ≤ r.numSheepSend
  sheep_le_send : r.numSheepSend ≤ maxSheepSend
  sheep_le_receive : r.numSheepSend ≤ maxSheepReceive

theorem calculateOfferValue_eq_ok {priceN priceD maxSend maxReceive x : Int} :
    calculateOfferValue priceN priceD maxSend maxReceive = .ok x ↔
      (0 ≤ maxSend ∧ 0 ≤ priceN ∧ 0 ≤ maxReceive ∧ 0 ≤ priceD) ∧
        min (maxSend * priceN) (maxReceive * priceD) = x := by
  simp only [calculateOfferValue, bind_eq_ok, bigMultiply_eq_ok, pure_eq_ok]
  constructor
  · rintro ⟨_, ⟨⟨h1, h2⟩, rfl⟩, _, ⟨⟨h3, h4⟩, rfl⟩, h⟩
    exact ⟨⟨h1, h2, h3, h4⟩, h⟩
  · rintro ⟨⟨h1, h2, h3, h4⟩, h⟩
    exact ⟨_, ⟨⟨h1, h2⟩, rfl⟩, _, ⟨⟨h3, h4⟩, rfl⟩, h⟩

/-- What an exchange computes before the thresholds are applied. -/
theorem exchangeWithout_eq_ok :
    exchangeV10WithoutPriceErrorThresholds price maxWheatSend maxWheatReceive maxSheepSend
        maxSheepReceive isPathPayment = .ok r ↔
      ∃ wheatValue sheepValue,
        calculateOfferValue price.n price.d maxWheatSend maxSheepReceive = .ok wheatValue ∧
        calculateOfferValue price.d price.n maxSheepSend maxWheatReceive = .ok sheepValue ∧
        r.wheatStays = decide (sheepValue < wheatValue) ∧
        exchangedAmounts price wheatValue sheepValue r.wheatStays isPathPayment =
          .ok (r.numWheatReceived, r.numSheepSend) ∧
        r.Within maxWheatSend maxWheatReceive maxSheepSend maxSheepReceive := by
  simp only [exchangeV10WithoutPriceErrorThresholds, bind_eq_ok, require_eq_ok, pure_eq_ok,
    Bool.and_eq_true, decide_eq_true_eq, le_min_iff]
  constructor
  · rintro
      ⟨wheatValue, hw, sheepValue, hs, ⟨wheat, sheep⟩, ha, _, ⟨h1, h2, h3⟩, _, ⟨h4, h5, h6⟩, rfl⟩
    exact ⟨wheatValue, sheepValue, hw, hs, rfl, ha, ⟨h1, h3, h2, h4, h6, h5⟩⟩
  · rintro ⟨wheatValue, sheepValue, hw, hs, hstays, ha, hin⟩
    refine ⟨wheatValue, hw, sheepValue, hs, _, hstays ▸ ha, (), ⟨hin.1, hin.3, hin.2⟩, (),
      ⟨hin.4, hin.6, hin.5⟩, ?_⟩
    rw [← hstays]

end Bounds

end SpnCore.Ledger
