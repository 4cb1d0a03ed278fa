import SpnCore.Herder.SCPDriver
import SpnCore.Herder.Upgrades

/-!
# Values to vote for

`HerderSCPDriver::extractValidValue` takes the upgrades that the node does not want out of a value,
one by one. Read `validateValue_extractValidValue` first: what is left is valid exactly if the types
of the upgrades that the node wants increase, which is not looked at.
-/

namespace SpnCore.Herder

open Scp Upgrades

/-- `Upgrades::UpgradeParameters` -/
structure UpgradeParameters where
  upgradeTime : Nat := 0
  protocolVersion : Option Nat := none
  baseFee : Option Nat := none
  maxTxSize : Option Nat := none
  baseReserve : Option Nat := none

/-- What the validity of upgrades depends on: the parameters, the configuration, the header of the
last closed ledger, and how upgrades are decoded. -/
structure UpgradeSettings where
  params : UpgradeParameters
  ledgerProtocolVersion : Nat
  ledgerVersion : Nat
  closeTime : Nat
  decode : UpgradeType → Option LedgerUpgrade

/-- `Upgrades::isValid`, with the type of an upgrade that is valid. -/
def UpgradeSettings.isValid (settings : UpgradeSettings) (upgrade : UpgradeType)
    (nomination : Bool) : Option Nat :=
  if nomination && !decide (settings.params.upgradeTime ≤ settings.closeTime) then none
  else
    let wanted (param : Option Nat) (new : Nat) : Bool := !nomination || decide (param = some new)
    match settings.decode upgrade with
    | none => none
    | some (.version new) =>
      if wanted settings.params.protocolVersion new &&
          decide (new ≤ settings.ledgerProtocolVersion) &&
          decide (new > settings.ledgerVersion) then some 1
      else none
    | some (.baseFee new) =>
      if wanted settings.params.baseFee new && decide (new ≠ 0) then some 2 else none
    | some (.maxTxSetSize new) =>
      if wanted settings.params.maxTxSize new && decide (new ≠ 0) then some 3 else none
    | some (.baseReserve new) =>
      if wanted settings.params.baseReserve new && decide (new ≠ 0) then some 4 else none

variable {τ : Type}

/-- The empty value stands for none. -/
def extractValidValue (view : NodeView τ) (marshal : StellarValue → Value)
    (getTxSet : Hash → Option τ) (slotIndex : Nat) (value : Value) : Value :=
  match view.unmarshal value with
  | none => []
  | some b =>
    if validateValueHelper view getTxSet slotIndex b = .fullyValidatedValue then
      marshal { b with upgrades := b.upgrades.filter fun u => (view.upgradeIsValid u true).isSome }
    else []

/-- What is left of a value that was read can be written and read again. -/
def ReadsBack (view : NodeView τ) (marshal : StellarValue → Value) : Prop :=
  ∀ value b, view.unmarshal value = some b → ∀ upgrades, upgrades.Sublist b.upgrades →
    view.unmarshal (marshal { b with upgrades }) = some { b with upgrades }

theorem checkUpgrades_iff {isValid : UpgradeType → Option Nat} (last : Option Nat)
    {upgrades : List UpgradeType} (h : ∀ u ∈ upgrades, (isValid u).isSome = true) :
    checkUpgrades isValid last upgrades = true ↔
      (last.toList ++ upgrades.filterMap isValid).IsChain (· < ·) := by
  induction upgrades generalizing last with
  | nil => cases last <;> simp [checkUpgrades]
  | cons upgrade upgrades ih =>
    obtain ⟨type, htype⟩ := Option.isSome_iff_exists.1 (h upgrade List.mem_cons_self)
    have hrest := ih (some type) fun u hu => h u (List.mem_cons_of_mem _ hu)
    rw [checkUpgrades, htype, List.filterMap_cons_some htype]
    dsimp only
    rw [Bool.and_eq_true, hrest]
    cases last <;> simp [List.isChain_cons_cons]

/-- Upgrades that are taken out have no type. -/
theorem filterMap_filter_isSome {isValid : UpgradeType → Option Nat} (upgrades : List UpgradeType) :
    (upgrades.filter fun u => (isValid u).isSome).filterMap isValid =
      upgrades.filterMap isValid := by
  induction upgrades with
  | nil => rfl
  | cons u upgrades ih => cases h : isValid u <;> simp [h, ih]

/-- The value that a node extracts is valid exactly if the types of the upgrades that the node wants
increase in the value it is extracted from. -/
theorem validateValue_extractValidValue (settings : UpgradeSettings) (view : NodeView τ)
    (hview : view.upgradeIsValid = settings.isValid) (marshal : StellarValue → Value)
    (hmarshal : ReadsBack view marshal) (getTxSet : Hash → Option τ) (slotIndex : Nat)
    (value : Value) (hvalue : extractValidValue view marshal getTxSet slotIndex value ≠ []) :
    validateValue view getTxSet slotIndex (extractValidValue view marshal getTxSet slotIndex value)
        true = .fullyValidatedValue ↔
      ∃ b, view.unmarshal value = some b ∧
        (b.upgrades.filterMap fun u => settings.isValid u true).IsChain (· < ·) := by
  unfold extractValidValue at hvalue ⊢
  cases hb : view.unmarshal value with
  | none =>
    rw [hb] at hvalue
    exact absurd rfl hvalue
  | some b =>
    rw [hb] at hvalue
    dsimp only at hvalue ⊢
    split_ifs at hvalue ⊢ with hfull
    · obtain ⟨kept, hkept⟩ : ∃ kept, kept = b.upgrades.filter
        fun u => (view.upgradeIsValid u true).isSome := ⟨_, rfl⟩
      have hread := hmarshal value b hb kept (hkept ▸ List.filter_sublist)
      have hall : ∀ u ∈ kept, (view.upgradeIsValid u true).isSome = true := by
        intro u hu
        rw [hkept] at hu
        exact (List.mem_filter.1 hu).2
      -- neither the close time nor the transaction set has changed
      have hfull' : validateValueHelper view getTxSet slotIndex { b with upgrades := kept } =
          .fullyValidatedValue := hfull
      have htypes := @filterMap_filter_isSome (fun u => view.upgradeIsValid u true) b.upgrades
      have hcheck := checkUpgrades_iff none hall
      rw [Option.toList_none, List.nil_append, hkept, htypes, ← hkept, hview] at hcheck
      rw [← hkept, validateValue, hread]
      dsimp only
      rw [hfull', hview]
      simp only [Option.some.injEq, exists_eq_left', ← hcheck]
      split_ifs with h <;> simp [h]
    · exact absurd rfl hvalue

namespace UnorderedUpgrades

/-- The operator wants version 10 and a base fee of 200. -/
def settings : UpgradeSettings where
  params := { protocolVersion := some 10, baseFee := some 200 }
  ledgerProtocolVersion := 10
  ledgerVersion := 9
  closeTime := 90
  decode
    | [1] => some (.version 10)
    | [2] => some (.baseFee 200)
    | _ => none

/-- A node that has closed the ledger before slot 5. -/
def view : NodeView Unit where
  isSynced := true
  lastLedgerSeq := 4
  lastCloseTime := 90
  timeNow := 100
  trackingSCP := some ⟨4, 90⟩
  unmarshal
    | txSetHash :: closeTime :: upgrades => some ⟨txSetHash, closeTime, upgrades.map ([·])⟩
    | _ => none
  checkValid := fun _ => true
  upgradeIsValid := settings.isValid

def marshal (b : StellarValue) : Value := b.txSetHash :: b.closeTime :: b.upgrades.flatten

theorem readsBack : ReadsBack view marshal := by
  intro value b hb upgrades hsub
  rcases value with _ | ⟨txSetHash, _ | ⟨closeTime, rest⟩⟩
  · cases hb
  · cases hb
  · cases hb
    obtain ⟨kept, -, rfl⟩ := List.sublist_map_iff.1 hsub
    simp [view, marshal, ← List.flatMap_def]

end UnorderedUpgrades

open UnorderedUpgrades

theorem validateValue_extractValidValue_ordered :
    validateValue view (fun _ => some ()) 5 (extractValidValue view marshal (fun _ => some ()) 5
      [11, 100, 1, 7, 2]) true = .fullyValidatedValue :=
  (validateValue_extractValidValue settings view rfl marshal readsBack (fun _ => some ()) 5
    [11, 100, 1, 7, 2] (by decide)).2 ⟨⟨11, 100, [[1], [7], [2]]⟩, by decide, by decide⟩

/-- Both upgrades are wanted, but they stay in the order in which they came. -/
theorem extractValidValue_unordered :
    extractValidValue view marshal (fun _ => some ()) 5 [11, 100, 2, 1] = [11, 100, 2, 1] ∧
      validateValue view (fun _ => some ()) 5 [11, 100, 2, 1] true = .invalidValue := by
  decide

/-! ### Upgrades that were externalized -/

/-- The round of `removeUpgrades` for one upgrade. -/
def removeUpgrade : UpgradeParameters × Bool → LedgerUpgrade → UpgradeParameters × Bool
  | (res, updated), .version v =>
    if res.protocolVersion = some v then ({ res with protocolVersion := none }, true)
    else (res, updated)
  | (res, updated), .baseFee v =>
    if res.baseFee = some v then ({ res with baseFee := none }, true) else (res, updated)
  | (res, updated), .maxTxSetSize v =>
    if res.maxTxSize = some v then ({ res with maxTxSize := none }, true) else (res, updated)
  | (res, updated), .baseReserve v =>
    if res.baseReserve = some v then ({ res with baseReserve := none }, true) else (res, updated)

/-- What cannot be decoded is skipped. -/
def UpgradeSettings.removeUpgrades (settings : UpgradeSettings) (upgrades : List UpgradeType) :
    UpgradeParameters × Bool :=
  (upgrades.filterMap settings.decode).foldl removeUpgrade (settings.params, false)

section

variable (settings : UpgradeSettings) (res : UpgradeParameters × Bool) (u : UpgradeType)

theorem isValid_removeUpgrade (upgrade : LedgerUpgrade) :
    { settings with params := (removeUpgrade res upgrade).1 }.isValid u true =
      if settings.decode u = some upgrade then none
      else { settings with params := res.1 }.isValid u true := by
  unfold UpgradeSettings.isValid
  cases hu : settings.decode u with
  | none => simp
  | some new => cases upgrade <;> cases new <;> simp only [removeUpgrade] <;> grind

theorem isValid_foldl (upgrades : List LedgerUpgrade) :
    { settings with params := (upgrades.foldl removeUpgrade res).1 }.isValid u true =
      if settings.decode u ∈ upgrades.map some then none
      else { settings with params := res.1 }.isValid u true := by
  induction upgrades generalizing res with
  | nil => simp
  | cons upgrade upgrades ih =>
    rw [List.foldl_cons, ih, isValid_removeUpgrade]
    simp only [List.map_cons, List.mem_cons]
    grind

/-- A node never votes again for an upgrade that was externalized, and for the others as before. -/
theorem isValid_removeUpgrades (upgrades : List UpgradeType) :
    { settings with params := (settings.removeUpgrades upgrades).1 }.isValid u true =
      if settings.decode u ∈ upgrades.map settings.decode then none
      else settings.isValid u true := by
  rw [UpgradeSettings.removeUpgrades, isValid_foldl]
  cases hu : settings.decode u with
  | none => simp [UpgradeSettings.isValid, hu]
  | some upgrade => simp

end

end SpnCore.Herder
