import SpnCore.Invariant.LedgerStateDelta
import SpnCore.Transactions.TransactionUtils

/-!
# Liabilities and offers

`LiabilitiesMatchOffers` compares the liabilities that accounts and trust lines record with those
of the offers of a delta, and then looks whether balances leave room for them. Accounts get the
second look only if they are new or if their balance decreased: the comparison that should find
increased liabilities compares the current ones with themselves. All sums are of 64 bits. The check
is sound for a delta exactly when the accounts that it skips are as they should be (`Covered`) and
no sum of offers is `2 ^ 64` too large (`OffersFit`).
-/

namespace SpnCore.Ledger

open Option

/-- The liabilities of an offer. An offer for which they cannot be computed has none. -/
def OfferEntry.liabilities (offer : OfferEntry) : Liabilities :=
  match offerLiabilities offer with
  | .ok liabilities => liabilities
  | .error _ => ⟨0, 0⟩

namespace LiabilitiesMatchOffers

open Lib

/-! ### The check -/

/-- `xdr::xdr_to_string` on what messages mention. -/
structure Printer where
  accountEntry : AccountEntry → String
  trustLineEntry : TrustLineEntry → String
  accountID : AccountID → String
  asset : Asset → String

inductive Side where
  | buying
  | selling
deriving DecidableEq, Repr

/-- The liabilities of one side. -/
def amountOf : Side → Liabilities → Int
  | .buying, liabilities => liabilities.buying
  | .selling, liabilities => liabilities.selling

def setAmount : Side → Int → Liabilities → Liabilities
  | .buying, amount, liabilities => { liabilities with buying := amount }
  | .selling, amount, liabilities => { liabilities with selling := amount }

/-- The liabilities of each account in each asset. -/
abbrev DeltaLiabilities := FMap (AccountID × Asset) Liabilities

def DeltaLiabilities.get (deltas : DeltaLiabilities) (accountID : AccountID) (asset : Asset) :
    Liabilities :=
  (deltas.lookup (accountID, asset)).getD ⟨0, 0⟩

/-- The number of values of a `uint64_t`. -/
def uint64Size : Nat := 18446744073709551616

/-- The result of an operation on `int64_t`: it wraps around. -/
def toInt64 (x : Int) : Int :=
  x.bmod uint64Size

/-- `deltaLiabilities[accountID][asset].selling += amount`, and the same for buying. -/
def add (side : Side) (deltas : DeltaLiabilities) (accountID : AccountID) (asset : Asset)
    (amount : Int) : DeltaLiabilities :=
  let liabilities := deltas.get accountID asset
  deltas.insert (accountID, asset)
    (setAmount side (toInt64 (amountOf side liabilities + amount)) liabilities)

/-- What an offer buys or sells. -/
def assetOf : Side → OfferEntry → Asset
  | .buying, offer => offer.buying
  | .selling, offer => offer.selling

def checkAuthorized (printer : Printer) (current : Option LedgerEntry) : Option String :=
  match current.map LedgerEntry.data with
  | some (.trustLine trust) =>
    if !trust.isAuthorized ∧ (0 < trust.getSellingLiabilities ∨ 0 < trust.getBuyingLiabilities) then
      some ("Unauthorized trust line has liabilities " ++ printer.trustLineEntry trust)
    else none
  | none | some (.account _) | some (.offer _) | some (.data _) => none

/-- Takes what an entry records off the tally. -/
def subtractRecorded (deltas : DeltaLiabilities) (accountID : AccountID) (asset : Asset)
    (sign selling buying : Int) : DeltaLiabilities :=
  let deltas := add .selling deltas accountID asset (-toInt64 (sign * selling))
  add .buying deltas accountID asset (-toInt64 (sign * buying))

/-- Adds what one side of an offer amounts to. The issuer of an asset has no liabilities of it. -/
def addOffer (side : Side) (deltas : DeltaLiabilities) (offer : OfferEntry) (sign : Int) :
    Except LedgerError DeltaLiabilities :=
  if (assetOf side offer).issuer? ≠ some offer.sellerID then do
    let liabilities ← offerLiabilities offer
    let amount := toInt64 (sign * amountOf side liabilities)
    return add side deltas offer.sellerID (assetOf side offer) amount
  else return deltas

def addOrSubtractLiabilities (deltas : DeltaLiabilities) (entry : Option LedgerEntry)
    (isAdd : Bool) : Except LedgerError DeltaLiabilities :=
  let sign : Int := if isAdd then 1 else -1
  match entry.map LedgerEntry.data with
  | none => return deltas
  | some (.account account) =>
    return subtractRecorded deltas account.accountID .native sign account.getSellingLiabilities
      account.getBuyingLiabilities
  | some (.trustLine trust) =>
    return subtractRecorded deltas trust.accountID trust.asset sign trust.getSellingLiabilities
      trust.getBuyingLiabilities
  | some (.offer offer) => do
    let deltas ← addOffer .selling deltas offer sign
    addOffer .buying deltas offer sign
  | some (.data _) => return deltas

def accumulateLiabilities (deltas : DeltaLiabilities) (delta : EntryDelta) :
    Except LedgerError DeltaLiabilities := do
  let deltas ← addOrSubtractLiabilities deltas delta.current true
  addOrSubtractLiabilities deltas delta.previous false

/-- Both liabilities are those of the current entry, on both sides of each comparison. -/
def shouldCheckAccount (currAcc : AccountEntry) (previous : Option LedgerEntry) :
    Except LedgerError Bool :=
  match previous.map LedgerEntry.data with
  | none => return true
  | some (.account prevAcc) =>
    let didBalanceDecrease := decide (currAcc.balance < prevAcc.balance)
    let sellingLiabilitiesInc :=
      decide (currAcc.getSellingLiabilities > currAcc.getSellingLiabilities)
    let buyingLiabilitiesInc :=
      decide (currAcc.getBuyingLiabilities > currAcc.getBuyingLiabilities)
    return didBalanceDecrease || (sellingLiabilitiesInc || buyingLiabilitiesInc)
  | some (.trustLine _) | some (.offer _) | some (.data _) => .error .wrongUnion

/-- Whether an amount is at least `needed`, and there is room for `buying` up to `limit`. -/
def compatible (amount needed limit buying : Int) : Bool :=
  !(decide (amount < needed) || decide (toInt64 (limit - amount) < buying))

def checkAccount (printer : Printer) (header : LedgerHeader) (account : AccountEntry)
    (previous : Option LedgerEntry) : Except Stop Unit := do
  let shouldCheck ← raising (shouldCheckAccount account previous)
  if shouldCheck then
    let minBalance := toInt64 (reserve header account.numSubEntries)
    let needed := toInt64 (minBalance + account.getSellingLiabilities)
    let fits := compatible account.balance needed int64Max account.getBuyingLiabilities
    report (if fits then none else
      some ("Balance not compatible with liabilities for account " ++ printer.accountEntry account))
  else return ()

def checkTrustLine (printer : Printer) (trust : TrustLineEntry) : Except Stop Unit :=
  let fits :=
    compatible trust.balance trust.getSellingLiabilities trust.limit trust.getBuyingLiabilities
  report (if fits then none else
    some ("Balance not compatible with liabilities for trustline " ++ printer.trustLineEntry trust))

def checkBalanceAndLimit (printer : Printer) (header : LedgerHeader) (delta : EntryDelta) :
    Except Stop Unit :=
  match delta.current.map LedgerEntry.data with
  | some (.account account) => checkAccount printer header account delta.previous
  | some (.trustLine trust) => checkTrustLine printer trust
  | none | some (.offer _) | some (.data _) => .ok ()

/-- The first account and asset whose liabilities changed otherwise than those of its offers. -/
def mismatch (printer : Printer) (deltas : DeltaLiabilities) : Option String :=
  deltas.entries.findSome? fun e =>
    if e.2.buying ≠ 0 then
      some ("Change in buying liabilities differed from change in total buying liabilities of " ++
        "offers by " ++ toString e.2.buying ++ " for account " ++ printer.accountID e.1.1 ++
        " in asset " ++ printer.asset e.1.2)
    else if e.2.selling ≠ 0 then
      some ("Change in selling liabilities differed from change in total selling liabilities of " ++
        "offers by " ++ toString e.2.selling ++ " for account " ++ printer.accountID e.1.1 ++
        " in asset " ++ printer.asset e.1.2)
    else none

/-- A round of the first loop. -/
def tally (printer : Printer) (deltas : DeltaLiabilities) (delta : EntryDelta) :
    Except Stop DeltaLiabilities := do
  report (checkAuthorized printer delta.current)
  raising (accumulateLiabilities deltas delta)

def checkOnOperationApply (printer : Printer) (lsDelta : LedgerStateDelta (Table EntryDelta)) :
    Except LedgerError (Option String) :=
  returned do
    let deltas ← lsDelta.entry.values.foldlM (tally printer) ∅
    report (mismatch printer deltas)
    lsDelta.entry.values.forM (checkBalanceAndLimit printer lsDelta.header.current)

/-! ### What the check is for -/

/-- The liabilities that an entry records for an account in an asset. -/
def recorded (side : Side) (accountID : AccountID) (asset : Asset) (entry : LedgerEntry) : Int :=
  match entry.data with
  | .account acc =>
    if accountID = acc.accountID ∧ asset = .native then
      amountOf side ⟨acc.getBuyingLiabilities, acc.getSellingLiabilities⟩ else 0
  | .trustLine line =>
    if accountID = line.accountID ∧ asset = line.asset then
      amountOf side ⟨line.getBuyingLiabilities, line.getSellingLiabilities⟩ else 0
  | .offer _ | .data _ => 0

/-- What an entry amounts to as an offer of an account in an asset. The issuer of the asset has no
liabilities of it. -/
def offered (side : Side) (accountID : AccountID) (asset : Asset) (entry : LedgerEntry) : Int :=
  match entry.data with
  | .offer offer =>
    if asset.issuer? ≠ some accountID ∧ accountID = offer.sellerID ∧ asset = assetOf side offer then
      amountOf side offer.liabilities else 0
  | .account _ | .trustLine _ | .data _ => 0

/-- The liabilities recorded for each account in each asset are those of its offers. -/
def MatchOffers (ledger : Entries) : Prop :=
  ∀ side accountID asset,
    ledger.total (recorded side accountID asset) = ledger.total (offered side accountID asset)

/-- The balance leaves room for the reserve and for all liabilities. -/
structure Compatible (header : LedgerHeader) (acc : AccountEntry) : Prop where
  selling : reserve header acc.numSubEntries + acc.getSellingLiabilities ≤ acc.balance
  buying : acc.getBuyingLiabilities ≤ int64Max - acc.balance

/-- The account that a ledger holds. -/
def Holds (ledger : Entries) (accountID : AccountID) (acc : AccountEntry) : Prop :=
  (ledger.lookup (.account accountID)).map LedgerEntry.data = some (.account acc)

/-- The sums that the check of an account computes fit into an `int64_t`. -/
structure Fits (header : LedgerHeader) (acc : AccountEntry) : Prop where
  needed : -int64Max - 1 ≤ reserve header acc.numSubEntries + acc.getSellingLiabilities ∧
    reserve header acc.numSubEntries + acc.getSellingLiabilities ≤ int64Max
  room : -int64Max - 1 ≤ int64Max - acc.balance ∧ int64Max - acc.balance ≤ int64Max

/-- The account existed before, with no larger balance, so the check skips it. -/
def Skipped (previous : Option LedgerEntry) (acc : AccountEntry) : Prop :=
  ∃ prevAcc, previous.map LedgerEntry.data = some (.account prevAcc) ∧
    prevAcc.balance ≤ acc.balance

/-- The accounts that the check skips, or whose sums it cannot hold, leave room for their
liabilities. -/
def Covered (lsDelta : LedgerStateDelta (Table EntryDelta)) : Prop :=
  ∀ delta ∈ lsDelta.entry.values, ∀ acc,
    delta.current.map LedgerEntry.data = some (.account acc) →
    Skipped delta.previous acc ∨ ¬ Fits lsDelta.header.current acc →
    Compatible lsDelta.header.current acc

/-- No offers amount to so much that their sum wraps around to the liabilities recorded for them. -/
def OffersFit (ledger : Entries) : Prop :=
  ∀ side accountID asset, |ledger.total (offered side accountID asset) -
    ledger.total (recorded side accountID asset)| < uint64Size

/-! ### What the tallies say -/

/-- What an entry adds to the tally of an account in an asset. -/
def owed (side : Side) (accountID : AccountID) (asset : Asset) (entry : LedgerEntry) : Int :=
  offered side accountID asset entry - recorded side accountID asset entry

theorem total_owed (side : Side) (accountID : AccountID) (asset : Asset) (ledger : Entries) :
    ledger.total (owed side accountID asset) =
      ledger.total (offered side accountID asset) - ledger.total (recorded side accountID asset) :=
  Table.total_sub _ _ _

section Tallies

variable {side : Side} {deltas deltas' : DeltaLiabilities} {accountID : AccountID} {asset : Asset}

theorem amountOf_setAmount (side side' : Side) (amount : Int) (liabilities : Liabilities) :
    amountOf side' (setAmount side amount liabilities) =
      if side' = side then amount else amountOf side' liabilities := by
  cases side <;> cases side' <;> rfl

/-- Numbers of 64 bits, where the tallies are computed. -/
abbrev Word := ZMod uint64Size

theorem cast_toInt64 {x : Int} : ((toInt64 x : Int) : Word) = x :=
  cast_bmod x

/-- One tally changes by the amount. -/
theorem add_get {amount : Int} (side' : Side) (a : AccountID) (A : Asset) :
    (amountOf side' ((add side deltas accountID asset amount).get a A) : Word) =
      amountOf side' (deltas.get a A) +
        if side' = side ∧ a = accountID ∧ A = asset then (amount : Word) else 0 := by
  rw [add, DeltaLiabilities.get, FMap.lookup_insert]
  by_cases hkey : (a, A) = (accountID, asset)
  · cases hkey
    rw [if_pos rfl, getD_some, amountOf_setAmount]
    by_cases hside : side' = side
    · subst hside
      simp [cast_toInt64]
    · simp [hside]
  · have hne : ¬ (side' = side ∧ a = accountID ∧ A = asset) := by
      rintro ⟨-, ha, hA⟩
      exact hkey (by rw [ha, hA])
    rw [if_neg hkey, if_neg hne, add_zero]
    rfl

theorem subtractRecorded_get {sign selling buying : Int} (side : Side) (a : AccountID)
    (A : Asset) :
    (amountOf side ((subtractRecorded deltas accountID asset sign selling buying).get a A) : Word) =
      amountOf side (deltas.get a A) -
        sign *
          if a = accountID ∧ A = asset then (amountOf side ⟨buying, selling⟩ : Word) else 0 := by
  rw [subtractRecorded, add_get, add_get, Int.cast_neg, Int.cast_neg, cast_toInt64, cast_toInt64]
  by_cases hkey : a = accountID ∧ A = asset
  · cases side <;> simp [hkey, amountOf] <;> ring
  · simp [hkey]

theorem addOffer_get {offer : OfferEntry} {sign : Int}
    (h : addOffer side deltas offer sign = .ok deltas') (side' : Side) (a : AccountID) (A : Asset) :
    (amountOf side' (deltas'.get a A) : Word) = amountOf side' (deltas.get a A) +
      if side' = side then (sign * offered side a A ⟨0, .offer offer⟩ : Word) else 0 := by
  simp only [offered]
  unfold addOffer at h
  split at h
  case isTrue hissuer =>
    obtain ⟨liabilities, hliabilities, h⟩ := bind_eq_ok.1 h
    have hoffer : offer.liabilities = liabilities := by
      rw [OfferEntry.liabilities, hliabilities]
    rw [← pure_eq_ok.1 h, add_get, cast_toInt64, hoffer]
    by_cases hkey : a = offer.sellerID ∧ A = assetOf side offer
    · obtain ⟨rfl, rfl⟩ := hkey
      simp [hissuer]
    · simp [hkey]
  case isFalse hissuer =>
    have heq : deltas = deltas' := pure_eq_ok.1 h
    have hnone : ¬ (A.issuer? ≠ some a ∧ a = offer.sellerID ∧ A = assetOf side offer) := by
      rintro ⟨hne, rfl, rfl⟩
      exact hissuer hne
    rw [heq, if_neg hnone, Int.cast_zero, mul_zero, ite_self, add_zero]

theorem addOrSubtractLiabilities_get {entry : Option LedgerEntry} {isAdd : Bool}
    (h : addOrSubtractLiabilities deltas entry isAdd = .ok deltas')
    (side : Side) (a : AccountID) (A : Asset) :
    (amountOf side (deltas'.get a A) : Word) = amountOf side (deltas.get a A) +
      (if isAdd then 1 else -1) * (entry.elim 0 (owed side a A) : Int) := by
  rcases entry with _ | ⟨seq, account | trust | offer | de⟩
  case none =>
    have heq : deltas = deltas' := pure_eq_ok.1 h
    rw [heq, elim_none, Int.cast_zero, mul_zero, add_zero]
  case some.account =>
    rw [← pure_eq_ok.1 h, subtractRecorded_get, elim_some, owed, offered, recorded]
    cases isAdd <;> push_cast <;> simp <;> ring
  case some.trustLine =>
    rw [← pure_eq_ok.1 h, subtractRecorded_get, elim_some, owed, offered, recorded]
    cases isAdd <;> push_cast <;> simp <;> ring
  case some.offer =>
    obtain ⟨mid, hmid, h⟩ := bind_eq_ok.1 h
    have hrecorded : recorded side a A ⟨seq, .offer offer⟩ = 0 := rfl
    have hoffered : offered side a A ⟨seq, .offer offer⟩ =
        offered side a A ⟨0, .offer offer⟩ := rfl
    rw [addOffer_get h, addOffer_get hmid, elim_some, owed, hrecorded, hoffered]
    cases side <;> cases isAdd <;> simp
  case some.data =>
    have heq : deltas = deltas' := pure_eq_ok.1 h
    have howed : owed side a A ⟨seq, .data de⟩ = 0 := rfl
    rw [heq, elim_some, howed, Int.cast_zero, mul_zero, add_zero]

theorem accumulateLiabilities_get {delta : EntryDelta}
    (h : accumulateLiabilities deltas delta = .ok deltas')
    (side : Side) (a : AccountID) (A : Asset) :
    (amountOf side (deltas'.get a A) : Word) =
      amountOf side (deltas.get a A) + (delta.gain (owed side a A) : Int) := by
  obtain ⟨mid, hmid, h⟩ := bind_eq_ok.1 h
  rw [addOrSubtractLiabilities_get h, addOrSubtractLiabilities_get hmid, Change.gain]
  simp only [if_true, Bool.false_eq_true, if_false]
  push_cast
  ring

/-- The tallies after the first loop. -/
theorem tally_get {printer : Printer} {entry : Table EntryDelta}
    (h : entry.values.foldlM (tally printer) ∅ = .ok deltas)
    (side : Side) (a : AccountID) (A : Asset) :
    (amountOf side (deltas.get a A) : Word) =
      (entry.total (Change.gain (owed side a A)) : Int) := by
  have hsum := foldlM_total
    (o := fun deltas => (amountOf side (DeltaLiabilities.get deltas a A) : Word))
    (g := Change.gain (owed side a A)) (fun before delta after h => by
      obtain ⟨⟨⟩, -, h⟩ := bind_eq_ok.1 h
      exact accumulateLiabilities_get (raising_eq_ok.1 h) side a A) h
  have hempty : amountOf side (DeltaLiabilities.get ∅ a A) = 0 := by
    cases side <;> rfl
  rw [hsum, hempty, Int.cast_zero, zero_add]

/-- A check that finds no mismatch found all tallies to be zero. -/
theorem mismatch_eq_none {printer : Printer} (h : mismatch printer deltas = none)
    (side : Side) (a : AccountID) (A : Asset) : amountOf side (deltas.get a A) = 0 := by
  rw [DeltaLiabilities.get]
  cases hlookup : deltas.lookup (a, A) with
  | none => cases side <;> rfl
  | some liabilities =>
    have hentry := List.findSome?_eq_none_iff.1 h ⟨(a, A), liabilities⟩
      (FMap.mem_entries.2 hlookup)
    have hbuying : liabilities.buying = 0 := by
      by_contra hne
      rw [if_pos hne] at hentry
      cases hentry
    have hselling : liabilities.selling = 0 := by
      by_contra hne
      rw [if_neg (not_not.2 hbuying), if_pos hne] at hentry
      cases hentry
    cases side
    · exact hbuying
    · exact hselling

end Tallies

/-! ### Balances -/

section Balances

variable {header : LedgerHeader} {acc : AccountEntry} {previous : Option LedgerEntry}
  {printer : Printer}

theorem toInt64_of_fits {x : Int} (h : -int64Max - 1 ≤ x ∧ x ≤ int64Max) : toInt64 x = x := by
  unfold int64Max at h
  apply Int.bmod_eq_of_le <;> unfold uint64Size <;> omega

/-- An account that the check looks at is compatible with its liabilities, if its sums fit. -/
theorem checkAccount_eq_ok (h : checkAccount printer header acc previous = .ok ()) :
    Skipped previous acc ∨ (Fits header acc → Compatible header acc) := by
  obtain ⟨shouldCheck, hshould, h⟩ := bind_eq_ok.1 h
  cases shouldCheck with
  | true =>
    refine .inr fun hfits => ?_
    have hok : compatible acc.balance (toInt64 (toInt64 (reserve header acc.numSubEntries) +
        acc.getSellingLiabilities)) int64Max acc.getBuyingLiabilities = true := by
      by_contra hnot
      dsimp only at h
      rw [if_pos rfl, if_neg hnot] at h
      cases h
    rw [compatible, toInt64_of_fits hfits.room, toInt64, toInt64, Int.bmod_add_bmod, ← toInt64,
      toInt64_of_fits hfits.needed] at hok
    simp only [Bool.not_eq_true', Bool.or_eq_false_iff, decide_eq_false_iff_not, not_lt] at hok
    exact ⟨hok.1, hok.2⟩
  | false =>
    left
    unfold shouldCheckAccount at hshould
    split at hshould
    case h_1 => cases pure_eq_ok.1 hshould
    case h_2 prevAcc hprevious =>
      refine ⟨prevAcc, hprevious, ?_⟩
      have hfalse := pure_eq_ok.1 hshould
      simp only [gt_iff_lt, lt_self_iff_false, decide_false, Bool.or_false,
        decide_eq_false_iff_not, not_lt] at hfalse
      exact hfalse
    all_goals cases hshould

end Balances

/-! ### Soundness -/

/-- Soundness of the check: if it finds nothing, recorded liabilities are still those of the offers
and the accounts of the delta leave room for theirs, exactly when the sums of the offers fit and
the accounts that the check skips leave room. -/
theorem checkOnOperationApply_preserves (printer : Printer) (ledger : Entries)
    (lsDelta : LedgerStateDelta (Table EntryDelta)) (hmatch : MatchOffers ledger)
    (hdelta : ledger.ChangedBy lsDelta.entry)
    (hcheck : checkOnOperationApply printer lsDelta = .ok none) :
    (MatchOffers (ledger.apply lsDelta.entry) ∧
      ∀ accountID acc, (lsDelta.entry.lookup (.account accountID)).isSome →
        Holds (ledger.apply lsDelta.entry) accountID acc →
        Compatible lsDelta.header.current acc) ↔
      OffersFit (ledger.apply lsDelta.entry) ∧ Covered lsDelta := by
  obtain ⟨deltas, hdeltas, hrest⟩ := bind_eq_ok.1 (returned_eq_none.1 hcheck)
  obtain ⟨⟨⟩, hmismatch, hbalances⟩ := bind_eq_ok.1 hrest
  refine and_congr ⟨fun hafter side accountID asset => ?_, fun hfit side accountID asset => ?_⟩
    ⟨fun hroom delta hmem acc hcurrent _ => ?_, fun hcovered accountID acc htouched hholds => ?_⟩
  · rw [hafter side accountID asset, sub_self]
    decide
  · -- the sums agree up to a multiple of `2 ^ 64`
    have hzero := tally_get hdeltas side accountID asset
    have hafter := Table.total_apply_changes (owed side accountID asset) hdelta
    rw [mismatch_eq_none (report_eq_ok.1 hmismatch), Int.cast_zero, eq_comm,
      ZMod.intCast_zmod_eq_zero_iff_dvd] at hzero
    rw [total_owed, total_owed, hmatch side accountID asset, sub_self, zero_add] at hafter
    rw [← hafter] at hzero
    have := Int.eq_zero_of_abs_lt_dvd hzero (hfit side accountID asset)
    omega
  · obtain ⟨entry, hentry, hdata⟩ := map_eq_some_iff.1 hcurrent
    have hkey : delta.key = .account acc.accountID := by
      rw [← delta.key_current entry hentry, key_entry, hdata]
      rfl
    have hlookup : lsDelta.entry.lookup (.account acc.accountID) = some delta :=
      hkey ▸ Table.mem_values.1 hmem
    refine hroom acc.accountID acc (by rw [hlookup]; rfl) ?_
    rw [Holds, Table.lookup_apply, hlookup]
    exact hcurrent
  · obtain ⟨delta, hlookup⟩ := isSome_iff_exists.1 htouched
    have hmem := Table.mem_values_of_lookup hlookup
    have hcurrent : delta.current.map LedgerEntry.data = some (.account acc) := by
      rw [Holds, Table.lookup_apply, hlookup] at hholds
      exact hholds
    have hbalance := forM_eq_ok.1 hbalances delta hmem
    unfold checkBalanceAndLimit at hbalance
    rw [hcurrent] at hbalance
    have hskipped := hcovered delta hmem acc hcurrent
    rcases checkAccount_eq_ok hbalance with hskip | hchecked
    · exact hskipped (.inl hskip)
    · by_cases hfits : Fits lsDelta.header.current acc
      · exact hchecked hfits
      · exact hskipped (.inr hfits)

/-! ### An account that adds an offer -/

section NewOffer

def sampleHeader : LedgerHeader where
  ledgerSeq := 2
  closeTime := 0
  totalCoins := 0
  feePool := 0
  inflationSeq := 0
  idPool := 1
  baseFee := 100
  baseReserve := 10
  maxTxSetSize := 50

def accountBefore : AccountEntry :=
  { accountID := 1, balance := 20, seqNum := 0 }

def accountAfter (balance : Int) : AccountEntry :=
  { accountID := 1, balance := balance, seqNum := 0, numSubEntries := 1, ext := some ⟨0, 5⟩ }

/-- The account sells coins for an asset of its own. -/
def newOffer : OfferEntry :=
  { sellerID := 1, offerID := 1, selling := .native, buying := .alphaNum4 (.replicate 4 65) 1,
    amount := 5, price := ⟨1, 1⟩ }

def sampleLedger : Entries :=
  Table.empty.upsert ⟨1, .account accountBefore⟩

def sampleDelta (balance : Int) : LedgerStateDelta (Table EntryDelta) where
  entry := (Table.empty.upsert
    { key := .account 1, current := some ⟨2, .account (accountAfter balance)⟩,
      previous := some ⟨1, .account accountBefore⟩,
      key_current := fun _ h => by cases h; rfl
      key_previous := fun _ h => by cases h; rfl }).upsert
    { key := .offer 1 1, current := some ⟨2, .offer newOffer⟩, previous := none,
      key_current := fun _ h => by cases h; rfl
      key_previous := fun _ h => by cases h }
  header := ⟨sampleHeader, sampleHeader⟩

def samplePrinter : Printer where
  accountEntry _ := ""
  trustLineEntry _ := ""
  accountID _ := ""
  asset _ := ""

theorem sampleLedger_matchOffers : MatchOffers sampleLedger := by
  intro side accountID asset
  have hrecorded : recorded side accountID asset ⟨1, .account accountBefore⟩ = 0 := by
    simp only [recorded]
    split
    · cases side <;> rfl
    · rfl
  rw [sampleLedger, Table.total_upsert, Table.total_upsert, hrecorded]
  rfl

theorem sampleLedger_compatible (accountID : AccountID) (acc : AccountEntry)
    (h : Holds sampleLedger accountID acc) : Compatible sampleHeader acc := by
  rw [Holds, sampleLedger, Table.lookup_upsert, Table.lookup_empty] at h
  split at h
  case isTrue =>
    cases h
    exact ⟨by decide +kernel, by decide +kernel⟩
  case isFalse => cases h

theorem mem_sampleDelta {balance : Int} {delta : EntryDelta}
    (h : delta ∈ (sampleDelta balance).entry.values) :
    delta.previous = none ∧ delta.key = .offer 1 1 ∨
    delta.key = .account 1 ∧ delta.previous = some ⟨1, .account accountBefore⟩ ∧
      delta.current = some ⟨2, .account (accountAfter balance)⟩ := by
  rw [Table.mem_values, sampleDelta, Table.lookup_upsert, Table.lookup_upsert, Table.lookup_empty]
    at h
  split at h
  case isTrue =>
    cases h
    exact .inl ⟨rfl, rfl⟩
  case isFalse =>
    split at h
    case isTrue =>
      cases h
      exact .inr ⟨rfl, rfl, rfl⟩
    case isFalse => cases h

theorem sampleLedger_changedBy (balance : Int) :
    sampleLedger.ChangedBy (sampleDelta balance).entry := by
  intro delta hmem
  rcases mem_sampleDelta hmem with ⟨hprevious, hkey⟩ | ⟨hkey, hprevious, -⟩
  · rw [hkey, hprevious]
    rfl
  · rw [hkey, hprevious]
    rfl

/-- The offer of the delta is what the account records for it. -/
theorem sampleDelta_offersFit : OffersFit (sampleLedger.apply (sampleDelta 35).entry) := by
  intro side accountID asset
  have hafter := Table.total_apply_changes (owed side accountID asset) (sampleLedger_changedBy 35)
  rw [total_owed, total_owed, sampleLedger_matchOffers side accountID asset, sub_self,
    zero_add] at hafter
  have hliabilities : newOffer.liabilities = ⟨5, 5⟩ := by decide +kernel
  rw [hafter, sampleDelta, Table.total_upsert, Table.total_upsert, Table.total_empty]
  simp only [Table.weight, key_change, Table.lookup_empty, Table.lookup_upsert, reduceCtorEq,
    if_false, Option.elim_none, sub_zero, zero_add, Change.gain, Option.elim_some, owed, offered,
    recorded, hliabilities]
  cases side <;> split_ifs <;> decide +kernel

/-- A balance that grows with the liabilities. -/
theorem checkOnOperationApply_preserves_sample :
    MatchOffers (sampleLedger.apply (sampleDelta 35).entry) ∧
    Compatible sampleHeader (accountAfter 35) := by
  have hsound := (checkOnOperationApply_preserves samplePrinter sampleLedger (sampleDelta 35)
    sampleLedger_matchOffers (sampleLedger_changedBy 35) (by decide +kernel)).2
    ⟨sampleDelta_offersFit, fun delta hmem acc hcurrent _ => by
      rcases mem_sampleDelta hmem with ⟨_, hkey⟩ | ⟨-, _, hafter⟩
      · obtain ⟨entry, hentry, hdata⟩ := map_eq_some_iff.1 hcurrent
        have hother := delta.key_current entry hentry
        rw [hkey, key_entry, hdata] at hother
        cases hother
      · rw [hafter] at hcurrent
        cases hcurrent
        exact ⟨by decide +kernel, by decide +kernel⟩⟩
  exact ⟨hsound.1, hsound.2 1 (accountAfter 35) rfl rfl⟩

/-- The check finds nothing wrong with a balance that does not change, although it does not leave
room for the reserve and the new liabilities. -/
theorem checkOnOperationApply_misses_liabilities :
    MatchOffers sampleLedger ∧
    (∀ accountID acc, Holds sampleLedger accountID acc → Compatible sampleHeader acc) ∧
    sampleLedger.ChangedBy (sampleDelta 20).entry ∧
    checkOnOperationApply samplePrinter (sampleDelta 20) = .ok none ∧
    Holds (sampleLedger.apply (sampleDelta 20).entry) 1 (accountAfter 20) ∧
    ¬ Compatible sampleHeader (accountAfter 20) := by
  refine ⟨sampleLedger_matchOffers, sampleLedger_compatible, sampleLedger_changedBy 20,
    by decide +kernel, rfl, ?_⟩
  intro hcompatible
  have hselling := hcompatible.selling
  exact absurd hselling (by decide +kernel)

end NewOffer

end LiabilitiesMatchOffers

end SpnCore.Ledger
