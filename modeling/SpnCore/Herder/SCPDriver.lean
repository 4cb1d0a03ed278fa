import SpnCore.Scp.BallotProtocol

/-!
# Validation of consensus values

`HerderSCPDriver::validateValue`: what the herder answers when SCP asks for the validity of a
value. Only a node that has the state before the slot looks at the transaction set of the value,
and a transaction set it does not have makes the value invalid.
-/

namespace SpnCore.Herder

open Lib Scp

/-- A serialized protocol upgrade. -/
abbrev UpgradeType := List Nat

/-- A decoded consensus value. -/
structure StellarValue where
  txSetHash : Hash
  closeTime : Nat
  upgrades : List UpgradeType
deriving DecidableEq, Repr

/-- The last value SCP externalized. -/
structure ConsensusData where
  consensusIndex : Nat
  closeTime : Nat
deriving DecidableEq, Repr

/-- What the driver reads of the rest of the node: the state of the ledger manager, the clock,
the last consensus, and the validity of transaction sets and upgrades. `upgradeIsValid` gives
the type of an upgrade that is valid, for a nomination or not. -/
structure NodeView (τ : Type) where
  isSynced : Bool
  lastLedgerSeq : Nat
  lastCloseTime : Nat
  timeNow : Nat
  trackingSCP : Option ConsensusData
  unmarshal : Value → Option StellarValue
  checkValid : τ → Bool
  upgradeIsValid : UpgradeType → Bool → Option Nat

variable {τ : Type}

/-- `MAX_TIME_SLIP_SECONDS`. -/
def maxTimeSlipSeconds : Nat := 60

/-- The node has the state before the slot. -/
def isSlotCompatibleWithCurrentState (view : NodeView τ) (slotIndex : Nat) : Bool :=
  view.isSynced && decide (slotIndex = view.lastLedgerSeq + 1)

/-- The close time is neither too old nor too far in the future. -/
def checkCloseTime (view : NodeView τ) (lastCloseTime : Nat) (b : StellarValue) : Bool :=
  !(decide (b.closeTime ≤ lastCloseTime)) &&
    !(decide (b.closeTime > view.timeNow + maxTimeSlipSeconds))

/-- The close time agrees with what the node knows about the slot without its state. -/
def checkPastCloseTime (view : NodeView τ) (slotIndex : Nat) (b : StellarValue) : Bool :=
  if slotIndex = view.lastLedgerSeq then decide (b.closeTime = view.lastCloseTime)
  else if slotIndex < view.lastLedgerSeq then decide (b.closeTime < view.lastCloseTime)
  else checkCloseTime view view.lastCloseTime b

/-- The branch of `validateValueHelper` for a slot whose preceding state the node lacks. -/
def validateWithoutState (view : NodeView τ) (slotIndex : Nat) (b : StellarValue) :
    ValidationLevel :=
  if !checkPastCloseTime view slotIndex b then .invalidValue
  else
    match view.trackingSCP with
    | none => .maybeValidValue
    | some tracking =>
      let next := tracking.consensusIndex + 1
      -- the slot is behind: its value still goes through for the final messages
      if next > slotIndex then .maybeValidValue
      else if next < slotIndex then .invalidValue
      else if !checkCloseTime view tracking.closeTime b then .invalidValue
      else .maybeValidValue

/-- The validity of a decoded value, apart from its upgrades. -/
def validateValueHelper (view : NodeView τ) (getTxSet : Hash → Option τ) (slotIndex : Nat)
    (b : StellarValue) : ValidationLevel :=
  if isSlotCompatibleWithCurrentState view slotIndex then
    if !checkCloseTime view view.lastCloseTime b then .invalidValue
    else
      match getTxSet b.txSetHash with
      | none => .invalidValue
      | some txSet =>
        if view.checkValid txSet then .fullyValidatedValue else .invalidValue
  else validateWithoutState view slotIndex b

/-- The upgrades of a value are valid, and their types increase. -/
def checkUpgrades (isValid : UpgradeType → Option Nat) : Option Nat → List UpgradeType → Bool
  | _, [] => true
  | last, upgrade :: upgrades =>
    match isValid upgrade with
    | none => false
    | some type =>
      last.all (fun previous => decide (previous < type)) &&
        checkUpgrades isValid (some type) upgrades

/-- The answer to SCP about a value. -/
def validateValue (view : NodeView τ) (getTxSet : Hash → Option τ) (slotIndex : Nat)
    (value : Value) (nomination : Bool) : ValidationLevel :=
  match view.unmarshal value with
  | none => .invalidValue
  | some b =>
    match validateValueHelper view getTxSet slotIndex b with
    | .invalidValue => .invalidValue
    | level =>
      if checkUpgrades (fun u => view.upgradeIsValid u nomination) none b.upgrades then level
      else .invalidValue

/-- Only the transaction set of the value counts. -/
theorem validateValue_congr {view : NodeView τ} {getTxSet getTxSet' : Hash → Option τ}
    {slotIndex : Nat} {value : Value} {nomination : Bool}
    (h : ∀ b, view.unmarshal value = some b → getTxSet b.txSetHash = getTxSet' b.txSetHash) :
    validateValue view getTxSet slotIndex value nomination =
      validateValue view getTxSet' slotIndex value nomination := by
  unfold validateValue
  cases hb : view.unmarshal value with
  | none => rfl
  | some b => simp only [validateValueHelper, h b hb]

end SpnCore.Herder
