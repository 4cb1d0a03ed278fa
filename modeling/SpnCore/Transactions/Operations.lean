import SpnCore.Transactions.OfferExchange

/-!
# Operations and their results

The operations of a transaction as they come off the wire, the checks that need no ledger
(`doCheckValid`), and the results of applying them.
-/

namespace SpnCore.Ledger

/-! ### Well formed assets and texts -/

def isAlnum (b : UInt8) : Bool :=
  decide (48 ≤ b ∧ b ≤ 57) || decide (65 ≤ b ∧ b ≤ 90) || decide (97 ≤ b ∧ b ≤ 122)

/-- At least `minChars` letters or digits, then only zeros. -/
def isAssetCodeValid (minChars : Nat) (code : List UInt8) : Bool :=
  let chars := code.takeWhile (· != 0)
  chars.all isAlnum && (code.dropWhile (· != 0)).all (· == 0) && decide (minChars ≤ chars.length)

/-- The code has the length of its type. -/
def isAssetValid : Asset → Bool
  | .native => true
  | .alphaNum4 assetCode _ => isAssetCodeValid 1 assetCode.toList
  | .alphaNum12 assetCode _ => isAssetCodeValid 5 assetCode.toList

/-- No control characters and nothing outside of ASCII. -/
def isString32Valid (text : Bytes) : Bool :=
  text.all fun c => decide (32 ≤ c ∧ c < 127)

/-- Compares without dividing. -/
def Price.ge (a b : Price) : Bool := decide (a.d * b.n ≤ a.n * b.d)

def Price.gt (a b : Price) : Bool := decide (a.d * b.n < a.n * b.d)

/-! ### Operations -/

structure CreateAccountOp where
  destination : AccountID
  startingBalance : Int
deriving DecidableEq, Repr

structure PaymentOp where
  destination : AccountID
  asset : Asset
  amount : Int
deriving DecidableEq, Repr

/-- Sends one asset so that another arrives. -/
structure PathPaymentOp where
  sendAsset : Asset
  sendMax : Int
  destination : AccountID
  destAsset : Asset
  destAmount : Int
  path : List Asset
deriving DecidableEq, Repr

/-- `offerID` is zero for a new offer. -/
structure ManageOfferOp where
  selling : Asset
  buying : Asset
  amount : Int
  price : Price
  offerID : Nat
deriving DecidableEq, Repr

structure CreatePassiveOfferOp where
  selling : Asset
  buying : Asset
  amount : Int
  price : Price
deriving DecidableEq, Repr

/-- What is not given stays. -/
structure SetOptionsOp where
  inflationDest : Option AccountID := none
  clearFlags : Option Flags := none
  setFlags : Option Flags := none
  masterWeight : Option Nat := none
  lowThreshold : Option Nat := none
  medThreshold : Option Nat := none
  highThreshold : Option Nat := none
  homeDomain : Option Bytes := none
  signer : Option Signer := none
deriving DecidableEq, Repr

/-- A limit of zero deletes the line. -/
structure ChangeTrustOp where
  line : Asset
  limit : Int
deriving DecidableEq, Repr

/-- The asset of an `AllowTrustOp`, without its issuer. -/
inductive AssetCode where
  | native
  | assetCode4 (code : Vector UInt8 4)
  | assetCode12 (code : Vector UInt8 12)
deriving DecidableEq, Repr

def AssetCode.asset (issuer : AccountID) : AssetCode → Asset
  | .native => .native
  | .assetCode4 code => .alphaNum4 code issuer
  | .assetCode12 code => .alphaNum12 code issuer

structure AllowTrustOp where
  trustor : AccountID
  asset : AssetCode
  authorize : Bool
deriving DecidableEq, Repr

/-- Without a value the entry is deleted. -/
structure ManageDataOp where
  dataName : Bytes
  dataValue : Option Bytes
deriving DecidableEq, Repr

inductive OperationBody where
  | createAccount (op : CreateAccountOp)
  | payment (op : PaymentOp)
  | pathPayment (op : PathPaymentOp)
  | manageOffer (op : ManageOfferOp)
  | createPassiveOffer (op : CreatePassiveOfferOp)
  | setOptions (op : SetOptionsOp)
  | changeTrust (op : ChangeTrustOp)
  | allowTrust (op : AllowTrustOp)
  | accountMerge (destination : AccountID)
  | inflation
  | manageData (op : ManageDataOp)
  | bumpSequence (bumpTo : Int)
deriving DecidableEq, Repr

/-- The source is that of the transaction by default. -/
structure Operation where
  sourceAccount : Option AccountID
  body : OperationBody
deriving DecidableEq, Repr

/-! ### Results -/

inductive CreateAccountResult where
  | success
  | malformed
  | underfunded
  | lowReserve
  | alreadyExist
deriving DecidableEq, Repr

inductive PaymentResult where
  | success
  | malformed
  | underfunded
  | srcNoTrust
  | srcNotAuthorized
  | noDestination
  | noTrust
  | notAuthorized
  | lineFull
  | noIssuer
deriving DecidableEq, Repr

structure SimplePaymentResult where
  destination : AccountID
  asset : Asset
  amount : Int
deriving DecidableEq, Repr

inductive PathPaymentResult where
  | success (offers : List ClaimOfferAtom) (last : SimplePaymentResult)
  | malformed
  | underfunded
  | srcNoTrust
  | srcNotAuthorized
  | noDestination
  | noTrust
  | notAuthorized
  | lineFull
  | noIssuer (asset : Asset)
  | tooFewOffers
  | offerCrossSelf
  | overSendmax
deriving DecidableEq, Repr

/-- What has become of the offer. -/
inductive ManageOfferEffect where
  | created (offer : OfferEntry)
  | updated (offer : OfferEntry)
  | deleted
deriving DecidableEq, Repr

inductive ManageOfferResult where
  | success (offersClaimed : List ClaimOfferAtom) (effect : ManageOfferEffect)
  | malformed
  | sellNoTrust
  | buyNoTrust
  | sellNotAuthorized
  | buyNotAuthorized
  | lineFull
  | underfunded
  | crossSelf
  | sellNoIssuer
  | buyNoIssuer
  | notFound
  | lowReserve
deriving DecidableEq, Repr

inductive SetOptionsResult where
  | success
  | lowReserve
  | tooManySigners
  | badFlags
  | invalidInflation
  | cantChange
  | unknownFlag
  | thresholdOutOfRange
  | badSigner
  | invalidHomeDomain
deriving DecidableEq, Repr

inductive ChangeTrustResult where
  | success
  | malformed
  | noIssuer
  | invalidLimit
  | lowReserve
  | selfNotAllowed
deriving DecidableEq, Repr

inductive AllowTrustResult where
  | success
  | malformed
  | noTrustLine
  | trustNotRequired
  | cantRevoke
  | selfNotAllowed
deriving DecidableEq, Repr

inductive AccountMergeResult where
  | success (sourceAccountBalance : Int)
  | malformed
  | noAccount
  | immutableSet
  | hasSubEntries
  | seqnumTooFar
  | destFull
deriving DecidableEq, Repr

/-- What a winner of the vote gets. -/
structure InflationPayout where
  destination : AccountID
  amount : Int
deriving DecidableEq, Repr

inductive InflationResult where
  | success (payouts : List InflationPayout)
  | notTime
deriving DecidableEq, Repr

inductive ManageDataResult where
  | success
  | nameNotFound
  | lowReserve
  | invalidName
deriving DecidableEq, Repr

inductive BumpSequenceResult where
  | success
  | badSeq
deriving DecidableEq, Repr

inductive OperationResult where
  | badAuth
  | noAccount
  | createAccount (result : CreateAccountResult)
  | payment (result : PaymentResult)
  | pathPayment (result : PathPaymentResult)
  | manageOffer (result : ManageOfferResult)
  | setOptions (result : SetOptionsResult)
  | changeTrust (result : ChangeTrustResult)
  | allowTrust (result : AllowTrustResult)
  | accountMerge (result : AccountMergeResult)
  | inflation (result : InflationResult)
  | manageData (result : ManageDataResult)
  | bumpSequence (result : BumpSequenceResult)
deriving DecidableEq, Repr

def PathPaymentResult.isSuccess : PathPaymentResult → Bool
  | .success _ _ => true
  | _ => false

def ManageOfferResult.isSuccess : ManageOfferResult → Bool
  | .success _ _ => true
  | _ => false

def OperationResult.isSuccess : OperationResult → Bool
  | .createAccount result => result == .success
  | .payment result => result == .success
  | .pathPayment result => result.isSuccess
  | .manageOffer result => result.isSuccess
  | .setOptions result => result == .success
  | .changeTrust result => result == .success
  | .allowTrust result => result == .success
  | .accountMerge (.success _) => true
  | .inflation (.success _) => true
  | .manageData result => result == .success
  | .bumpSequence result => result == .success
  | _ => false

end SpnCore.Ledger
