import SpnCore.Transactions.Operations

/-!
# Operations that cross offers

Payments along a path of assets, and the operations that create, change or delete an offer.
A step of an operation that can end it returns the failure or what the next step needs.
-/

namespace SpnCore.Ledger

open Lib

/-- Whether the account exists. -/
def accountExists (accountID : AccountID) : LedgerM Bool := do
  let account ← loadAccount accountID
  return account.isSome

/-- Whether the issuer of the asset exists. The native asset has none. -/
def issuerExists (asset : Asset) : LedgerM Bool :=
  match asset.issuer? with
  | none => return true
  | some issuer => accountExists issuer

/-! ### Path payments -/

namespace PathPaymentOp

def doCheckValid (op : PathPaymentOp) : Option PathPaymentResult :=
  if op.destAmount ≤ 0 ∨ op.sendMax ≤ 0 then some .malformed
  else if !isAssetValid op.sendAsset || !isAssetValid op.destAsset then some .malformed
  else if !op.path.all isAssetValid then some .malformed
  else none

/-- Credits can always be sent back to their issuer, even if it does not exist. -/
def bypassIssuerCheck (op : PathPaymentOp) : Bool :=
  decide (op.destAsset ≠ .native) && op.path.isEmpty && decide (op.sendAsset = op.destAsset) &&
    decide (op.destAsset.issuer? = some op.destination)

/-- Updates the last balance in the chain. -/
def creditDestination (op : PathPaymentOp) : LedgerM (Except PathPaymentResult Unit) := do
  let destinationExists ← accountExists op.destination
  if !op.bypassIssuerCheck && !destinationExists then return .error .noDestination else
  if op.destAsset = .native then do
    let added ← addAccountBalance op.destination op.destAmount
    return if added then .ok () else .error .malformed
  else do
    let issuer ← issuerExists op.destAsset
    if !op.bypassIssuerCheck && !issuer then return .error (.noIssuer op.destAsset) else do
    let destLine ← loadTrustLine op.destination op.destAsset
    if !destLine.isActive then return .error .noTrust else do
    let authorized ← destLine.isAuthorized
    if !authorized then return .error .notAuthorized else do
    let added ← destLine.addBalance op.destAmount
    return if added then .ok () else .error .lineFull

/-- Offers of the source itself are not crossed. -/
def filter (source : AccountID) : OfferFilter :=
  fun offer => .ok (if offer.sellerID = source then some .crossSelf else none)

/-- What is still to be sent along the path, and the offers crossed so far. -/
structure Leg where
  asset : Asset
  amount : Int
  offers : List ClaimOfferAtom
deriving DecidableEq, Repr

/-- Converts from `curA`, so that the leg's amount is received. -/
def convertLeg (env : Env) (source : AccountID) (curA : Asset) (leg : Leg) :
    LedgerM (Except PathPaymentResult Leg) :=
  if curA = leg.asset then return .ok leg else do
  let issuer ← issuerExists curA
  if !issuer then return .error (.noIssuer curA) else do
  let r ← convertWithOffers env curA int64Max leg.asset leg.amount true (filter source)
  ensure (decide (0 ≤ r.sheepSend)) .assertion
  match r.result with
  | .eFilterStop _ => return .error .offerCrossSelf
  | .ePartial => return .error .tooFewOffers
  | .eOK =>
    return if leg.amount = r.wheatReceived then .ok ⟨curA, r.sheepSend, r.offerTrail ++ leg.offers⟩
      else .error .tooFewOffers

/-- Walks the path backwards. -/
def convertPath (env : Env) (source : AccountID) :
    List Asset → Leg → LedgerM (Except PathPaymentResult Leg)
  | [], leg => return .ok leg
  | curA :: path, leg => do
      let next ← convertLeg env source curA leg
      match next with
      | .error failure => return .error failure
      | .ok leg' => convertPath env source path leg'

/-- Updates the balance of the first account in the chain. -/
def debitSource (source : AccountID) (op : PathPaymentOp) (leg : Leg) :
    LedgerM (Except PathPaymentResult Unit) :=
  if op.sendMax < leg.amount then return .error .overSendmax else
  if leg.asset = .native then do
    let account ← loadAccount source
    match account with
    | none => return .error .malformed
    | some acc => do
        let header ← loadHeader
        let available ← runExcept (acc.getAvailableBalance header)
        if available < leg.amount then return .error .underfunded else do
        let removed ← addAccountBalance source (-leg.amount)
        ensure removed .assertion
        return .ok ()
  else do
    let issuer ← issuerExists leg.asset
    if !op.bypassIssuerCheck && !issuer then return .error (.noIssuer leg.asset) else do
    let sourceLine ← loadTrustLine source leg.asset
    if !sourceLine.isActive then return .error .srcNoTrust else do
    let authorized ← sourceLine.isAuthorized
    if !authorized then return .error .srcNotAuthorized else do
    let removed ← sourceLine.addBalance (-leg.amount)
    return if removed then .ok () else .error .underfunded

def doApply (env : Env) (source : AccountID) (op : PathPaymentOp) : LedgerM PathPaymentResult := do
  let credited ← creditDestination op
  match credited with
  | .error failure => return failure
  | .ok _ => do
      let converted ← convertPath env source (op.sendAsset :: op.path).reverse
        ⟨op.destAsset, op.destAmount, []⟩
      match converted with
      | .error failure => return failure
      | .ok leg => do
          let debited ← debitSource source op leg
          match debited with
          | .error failure => return failure
          | .ok _ => return .success leg.offers ⟨op.destination, op.destAsset, op.destAmount⟩

end PathPaymentOp

/-! ### Payments -/

namespace PaymentOp

def doCheckValid (op : PaymentOp) : Option PaymentResult :=
  if op.amount ≤ 0 then some .malformed
  else if !isAssetValid op.asset then some .malformed
  else none

/-- The path payment that a payment is carried out as. -/
def toPathPayment (op : PaymentOp) : PathPaymentOp where
  sendAsset := op.asset
  sendMax := op.amount
  destination := op.destination
  destAsset := op.asset
  destAmount := op.amount
  path := []

/-- The result of a payment whose path payment failed. Some failures are not expected. -/
def translate : PathPaymentResult → Except LedgerError PaymentResult
  | .success _ _ => .ok .success
  | .underfunded => .ok .underfunded
  | .srcNotAuthorized => .ok .srcNotAuthorized
  | .srcNoTrust => .ok .srcNoTrust
  | .noDestination => .ok .noDestination
  | .noTrust => .ok .noTrust
  | .notAuthorized => .ok .notAuthorized
  | .lineFull => .ok .lineFull
  | .noIssuer _ => .ok .noIssuer
  | .malformed => .error .unexpectedPathPayment
  | .tooFewOffers => .error .unexpectedPathPayment
  | .offerCrossSelf => .error .unexpectedPathPayment
  | .overSendmax => .error .unexpectedPathPayment

def doApply (env : Env) (source : AccountID) (op : PaymentOp) : LedgerM PaymentResult :=
  if op.destination = source ∧ op.asset = .native then return .success else
  match op.toPathPayment.doCheckValid with
  | some failure => runExcept (translate failure)
  | none => do
      let result ← op.toPathPayment.doApply env source
      runExcept (translate result)

end PaymentOp

/-! ### Offers -/

namespace ManageOfferOp

def doCheckValid (op : ManageOfferOp) : Option ManageOfferResult :=
  if !isAssetValid op.selling || !isAssetValid op.buying then some .malformed
  else if op.selling = op.buying then some .malformed
  else if op.amount < 0 ∨ op.price.d ≤ 0 ∨ op.price.n ≤ 0 then some .malformed
  else if op.offerID = 0 ∧ op.amount = 0 then some .notFound
  else none

def checkSelling (source : AccountID) (sheep : Asset) : LedgerM (Option ManageOfferResult) :=
  if sheep = .native then return none else do
  let sheepLineA ← loadTrustLine source sheep
  let issuer ← issuerExists sheep
  if !issuer then return some .sellNoIssuer else
  if !sheepLineA.isActive then return some .sellNoTrust else do
  let balance ← sheepLineA.getBalance
  if balance = 0 then return some .underfunded else do
  let authorized ← sheepLineA.isAuthorized
  return if authorized then none else some .sellNotAuthorized

def checkBuying (source : AccountID) (wheat : Asset) : LedgerM (Option ManageOfferResult) :=
  if wheat = .native then return none else do
  let wheatLineA ← loadTrustLine source wheat
  let issuer ← issuerExists wheat
  if !issuer then return some .buyNoIssuer else
  if !wheatLineA.isActive then return some .buyNoTrust else do
  let authorized ← wheatLineA.isAuthorized
  return if authorized then none else some .buyNotAuthorized

def checkOfferValid (source : AccountID) (op : ManageOfferOp) :
    LedgerM (Option ManageOfferResult) :=
  -- don't bother loading trust lines as we're deleting the offer
  if op.amount = 0 then return none else do
  let failure ← checkSelling source op.selling
  match failure with
  | some f => return some f
  | none => checkBuying source op.buying

def buildOffer (account : AccountID) (op : ManageOfferOp) (flags : Flags) : OfferEntry where
  sellerID := account
  offerID := op.offerID
  selling := op.selling
  buying := op.buying
  amount := op.amount
  price := op.price
  flags := flags

/-- The offer to be made. An old offer is taken out of the book first, with its liabilities, but
still counts as a sub-entry of its seller. -/
def prepareOffer (source : AccountID) (passive : Bool) (op : ManageOfferOp) :
    LedgerM (Option OfferEntry) :=
  if op.offerID = 0 then
    return some (buildOffer source op (if passive then passiveFlag else 0))
  else do
    let ls ← get
    match ls.offers.lookup (source, op.offerID) with
    | none => return none
    | some sellSheepOffer => do
        releaseLiabilities sellSheepOffer
        eraseOffer source op.offerID
        return some (buildOffer source op sellSheepOffer.flags)

/-- How much the account can receive of an asset. -/
def availableLimit (source : AccountID) (wheat : Asset) : LedgerM Int :=
  if wheat = .native then do
    let acc ← activeAccount source
    runExcept acc.getMaxAmountReceive
  else do
    let wheatLineA ← loadTrustLine source wheat
    wheatLineA.getMaxAmountReceive

/-- How much the account can send of an asset. -/
def availableBalance (source : AccountID) (sheep : Asset) : LedgerM Int :=
  if sheep = .native then do
    let header ← loadHeader
    let acc ← activeAccount source
    runExcept (acc.getAvailableBalance header)
  else do
    let sheepLineA ← loadTrustLine source sheep
    sheepLineA.getAvailableBalance

/-- The limits of an exchange. -/
structure Limits where
  maxSheepSend : Int
  maxWheatReceive : Int
deriving DecidableEq, Repr

/-- The limits of the exchange, with the reserve of the offer that is to be created. The ledger
is left as it was. -/
def computeOfferExchangeParameters (source : AccountID) (offer : OfferEntry)
    (creatingNewOffer : Bool) : LedgerM (Except ManageOfferResult Limits) :=
  nested (fun _ => false) do
    let reserved ←
      if creatingNewOffer then addNumEntries source 1 else (pure true : LedgerM Bool)
    if !reserved then return .error .lowReserve else do
    let maxWheatReceive ← canBuyAtMost source offer.buying
    let limit ← availableLimit source offer.buying
    let buyingLiabilities ← runExcept (getOfferBuyingLiabilities offer)
    if limit < buyingLiabilities then return .error .lineFull else do
    let balance ← availableBalance source offer.selling
    let sellingLiabilities ← runExcept (getOfferSellingLiabilities offer)
    if balance < sellingLiabilities then return .error .underfunded else do
    let sellable ← canSellAtMost source offer.selling
    return .ok ⟨min offer.amount sellable, maxWheatReceive⟩

/-- Offers are crossed up to the price, and never the account's own ones. -/
def filter (source : AccountID) (newOffer : OfferEntry) : OfferFilter := fun offer => do
  require (decide (offer.offerID ≠ newOffer.offerID)) .assertion
  let maxWheatPrice : Price := ⟨newOffer.price.d, newOffer.price.n⟩
  let passive := newOffer.flags &&& passiveFlag != 0
  return if passive && offer.price.ge maxWheatPrice || offer.price.gt maxWheatPrice then
      some .price
    else if offer.sellerID = source then some .crossSelf
    else none

/-- The source's side of the trades. -/
def settleTrades (source : AccountID) (newOffer : OfferEntry) (r : Conversion) : LedgerM Unit :=
  onlyIf (decide (0 < r.wheatReceived)) do
    let added ← addHolding source newOffer.buying r.wheatReceived
    ensure added .claimedOverLimit
    let removed ← addHolding source newOffer.selling (-r.sheepSend)
    ensure removed .soldMoreThanBalance

/-- What is left of the offer, with the offers it has crossed. -/
structure Executed where
  offer : OfferEntry
  offersClaimed : List ClaimOfferAtom
deriving DecidableEq, Repr

/-- The part of the offer that is not exchanged. -/
def unsoldOffer (newOffer : OfferEntry) (limits : Limits) (r : Conversion) : LedgerM OfferEntry :=
  if r.result = .eOK then return { newOffer with amount := 0 }
  else adjustOfferToLimits { newOffer with amount := limits.maxSheepSend - r.sheepSend }

def exchangeOffer (env : Env) (source : AccountID) (newOffer : OfferEntry)
    (creatingNewOffer : Bool) : LedgerM (Except ManageOfferResult Executed) := do
  let parameters ← computeOfferExchangeParameters source newOffer creatingNewOffer
  match parameters with
  | .error failure => return .error failure
  | .ok limits =>
    if limits.maxWheatReceive = 0 then return .error .lineFull else do
    let r ← convertWithOffers env newOffer.selling limits.maxSheepSend newOffer.buying
      limits.maxWheatReceive false (filter source newOffer)
    ensure (decide (0 ≤ r.sheepSend)) .assertion
    if r.result = .eFilterStop .crossSelf then return .error .crossSelf else do
    settleTrades source newOffer r
    let unsold ← unsoldOffer newOffer limits r
    return .ok ⟨unsold, r.offerTrail⟩

/-- Stores an offer that is not in the ledger yet. -/
def createOffer (offer : OfferEntry) : LedgerM Unit := do
  let ls ← get
  ensure (ls.offers.lookup (offer.sellerID, offer.offerID)).isNone .keyExists
  putOffer offer

/-- Leaves what remains of the offer in the book. -/
def placeOffer (source : AccountID) (creatingNewOffer : Bool) (executed : Executed) :
    LedgerM ManageOfferResult :=
  if 0 < executed.offer.amount then
    if creatingNewOffer then do
      let reserved ← addNumEntries source 1
      if !reserved then return .lowReserve else do
      let offerID ← generateID
      let offer := { executed.offer with offerID := offerID }
      createOffer offer
      acquireLiabilities offer
      return .success executed.offersClaimed (.created offer)
    else do
      createOffer executed.offer
      acquireLiabilities executed.offer
      return .success executed.offersClaimed (.updated executed.offer)
  else do
    onlyIf (!creatingNewOffer) do
      let _ ← addNumEntries source (-1)
    return .success executed.offersClaimed .deleted

def doApply (env : Env) (source : AccountID) (passive : Bool) (op : ManageOfferOp) :
    LedgerM ManageOfferResult :=
  nested ManageOfferResult.isSuccess do
    let invalid ← checkOfferValid source op
    match invalid with
    | some failure => return failure
    | none => do
        let prepared ← prepareOffer source passive op
        match prepared with
        | none => return .notFound
        | some newOffer => do
            let creatingNewOffer := decide (op.offerID = 0)
            let exchanged ←
              if 0 < op.amount then exchangeOffer env source newOffer creatingNewOffer
              else (return .ok ⟨newOffer, []⟩ : LedgerM (Except ManageOfferResult Executed))
            match exchanged with
            | .error failure => return failure
            | .ok executed => placeOffer source creatingNewOffer executed

end ManageOfferOp

/-- A passive offer is managed like a new offer. -/
def CreatePassiveOfferOp.toManageOffer (op : CreatePassiveOfferOp) : ManageOfferOp where
  selling := op.selling
  buying := op.buying
  amount := op.amount
  price := op.price
  offerID := 0

end SpnCore.Ledger
