import SpnCore.Ledger.LedgerManager
import SpnCore.Transactions.OperationWrites

/-!
# What the other programs do to the book

Writes never add an offer to the book, so no operation does but those that manage an offer. Upgrades
do not add any either.
-/

namespace SpnCore.Ledger

open Lib

section Writing

variable {s t : LedgerState}

theorem Write.thinned (h : Write s t) : Thinned s t := by
  cases h with
  | offer stored => exact (refl_of Thinned s).putOffer stored rfl
  | eraseOffer => exact thinned_eraseOffer s _ _
  | _ => exact SameOffers.thinned rfl

theorem Written.thinned (h : Written s t) : Thinned s t := by
  induction h with
  | refl => exact refl_of Thinned s
  | tail _ hwrite ih => exact trans_of Thinned ih hwrite.thinned

end Writing

end SpnCore.Ledger

namespace SpnCore.Herder.Upgrades

open Lib Ledger

/-! ### Upgrades -/

theorem written_recordLiabilities {accountID : AccountID} {asset : Asset} {liab : Liabilities} :
    Within Written (recordLiabilities accountID asset liab) := by
  refine within_bind (within_ite (fun _ => ?_) fun _ => ?_) fun recorded => ?_
  · exact within_bind steady_activeAccount.1 fun _ => within_pure
  · exact within_bind steady_loadTrustLine.1 fun _ => within_bind within_read fun _ =>
      within_bind within_read fun _ => within_pure
  · exact within_bind within_runExcept fun _ => within_bind within_runExcept fun _ =>
      within_bind written_addSellingLiabilities fun _ =>
      within_bind within_ensure fun _ =>
      within_bind written_addBuyingLiabilities fun _ => within_ensure

section Preparing

/-! Preparing the liabilities keeps what writes keep and adjusting an offer keeps. -/

variable {R : LedgerState → LedgerState → Prop} [IsPreorder LedgerState R]
  (hwritten : ∀ {s t : LedgerState}, Written s t → R s t)
include hwritten

theorem within_updateOffer {offer : OfferEntry}
    (hadjust : ∀ s amount, R s (s.putOffer { offer with amount := amount }))
    {balance balanceAboveReserve : Int} {initial : InitialLiabilities} {liabilities : Remaining} :
    Within R (updateOffer offer balance balanceAboveReserve initial liabilities) := by
  have herase : Within R (eraseOffer offer.sellerID offer.offerID) :=
    within_modify fun _ => hwritten (.single (.eraseOffer _ _))
  exact within_bind within_get fun _ => within_bind within_runExcept fun _ =>
    within_ite (fun _ => within_bind herase fun _ => within_pure) fun _ =>
    within_bind within_runExcept fun _ =>
    within_ite (fun _ => within_bind herase fun _ => within_pure) fun _ =>
    within_bind (within_modify fun s => hadjust s _) fun _ => within_bind within_runExcept fun _ =>
    within_bind within_runExcept fun _ => within_pure

variable {offers : List OfferEntry}
  (hadjust : ∀ offer ∈ offers, ∀ s amount, R s (s.putOffer { offer with amount := amount }))
include hadjust

theorem within_updateOffers {accountID : AccountID} {balance balanceAboveReserve : Int}
    {initial : InitialLiabilities} {liabilities : Remaining} :
    Within R (updateOffers accountID balance balanceAboveReserve initial offers liabilities) := by
  induction offers generalizing liabilities with
  | nil => exact within_pure
  | cons offer offers ih =>
    obtain ⟨hoffer, hoffers⟩ := List.forall_mem_cons.1 hadjust
    refine within_bind (within_updateOffer hwritten hoffer) fun _ =>
      within_bind (within_onlyIf ?_) fun _ => ih hoffers
    exact within_bind (written_addNumEntries.mono fun _ _ => hwritten) fun _ => within_pure

theorem within_prepareAccount (accountID : AccountID) :
    Within R (prepareAccount accountID offers) := by
  refine within_bind within_runExcept fun _ => within_bind steady_loadHeader.1 fun _ =>
    within_bind steady_loadAccount.1 fun account => ?_
  cases account with
  | none => exact within_throw
  | some acc =>
    exact within_bind within_runExcept fun _ => within_bind within_runExcept fun _ =>
      within_bind (within_updateOffers hwritten hadjust) fun _ =>
      within_forM (fun _ => written_recordLiabilities.mono fun _ _ => hwritten) _

end Preparing

/-- The book only shrinks when the liabilities are prepared. -/
theorem thinned_prepareLiabilities : Within Thinned prepareLiabilities := by
  intro s
  refine wp_get_bind.2 ?_
  have hprepare : Within (Keeps (Thinned s)) ((sellers s).forM fun accountID =>
      prepareAccount accountID (s.offers.values.filter fun offer => offer.sellerID = accountID)) :=
    within_forM (fun accountID => within_prepareAccount (R := Keeps (Thinned s))
      (fun hwritten hs => trans_of Thinned hs hwritten.thinned) (fun offer hoffer _ _ hs =>
        hs.putOffer (Table.mem_values.1 (List.mem_filter.1 hoffer).1) rfl) accountID) _
  exact wp_ends (hprepare s) fun _ h => h (refl_of Thinned s)

theorem thinned_applyTo (upgrade : LedgerUpgrade) : Within Thinned (applyTo upgrade) := by
  cases upgrade with
  | version _ => exact within_pure
  | baseFee _ =>
    exact within_bind steady_loadHeader.1 fun _ => within_modify fun _ => SameOffers.thinned rfl
  | maxTxSetSize _ =>
    exact within_bind steady_loadHeader.1 fun _ => within_modify fun _ => SameOffers.thinned rfl
  | baseReserve _ =>
    exact within_bind steady_loadHeader.1 fun _ =>
      within_bind (within_modify fun _ => SameOffers.thinned rfl) fun _ =>
      within_onlyIf thinned_prepareLiabilities

end SpnCore.Herder.Upgrades
