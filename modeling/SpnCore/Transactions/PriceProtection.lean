import SpnCore.Transactions.ManageOfferSpecs

/-!
# Price protection

An offer never trades at a price more than one percent worse than its own, and what it sells
together with what is left of it is at most its amount.
-/

namespace SpnCore.Ledger

open Lib

/-- The offer that an operation has left in the book. -/
def ManageOfferEffect.stored : ManageOfferEffect → Option OfferEntry
  | .created offer => some offer
  | .updated offer => some offer
  | .deleted => none

namespace ManageOfferOp

variable {source : AccountID}

/-- The filter lets an offer pass only up to the price. -/
theorem price_le_of_filter {newOffer offer : OfferEntry}
    (h : filter source newOffer offer = .ok none) :
    offer.price.n * newOffer.price.n ≤ offer.price.d * newOffer.price.d := by
  simp only [filter, bind_eq_ok, pure_eq_ok] at h
  obtain ⟨_, -, h⟩ := h
  split_ifs at h with hprice
  simp only [Bool.or_eq_true, not_or, Bool.not_eq_true, Price.gt, decide_eq_false_iff_not,
    not_lt] at hprice
  exact hprice.2

end ManageOfferOp

/-- A trade that respects the price of the taker and of the offer it has crossed. -/
structure PriceProtected (s : LedgerState) (price : Price) (atom : ClaimOfferAtom) : Prop where
  amounts : atom.amountSold = 0 ∧ atom.amountBought = 0 ∨
    0 < atom.amountSold ∧ 0 < atom.amountBought
  taker : 100 * atom.amountBought * price.n ≤ 101 * atom.amountSold * price.d
  maker : ∃ offer, s.offers.lookup (atom.sellerID, atom.offerID) = some offer ∧
    99 * atom.amountSold * offer.price.n ≤ 100 * atom.amountBought * offer.price.d

/-- Being in bound is an inequality on each side. -/
theorem InBound.le {price : Price} {wheat sheep : Int} (h : InBound price wheat sheep) :
    99 * (wheat * price.n) ≤ 100 * (sheep * price.d) ∧
      100 * (sheep * price.d) ≤ 101 * (wheat * price.n) := by
  have hupper := le_abs_self (sheep * price.d - wheat * price.n)
  have hlower := neg_abs_le (sheep * price.d - wheat * price.n)
  rw [InBound] at h
  omega

/-- The price of the crossed offer is at most the taker's, so the taker's bound follows from the
bound on the exchange. -/
theorem taker_bound {maker taker : Price} {wheat sheep : Int} (hd : 0 < maker.d)
    (hwheat : 0 ≤ wheat) (htaker : 0 ≤ taker.n)
    (hprice : maker.n * taker.n ≤ maker.d * taker.d)
    (hbound : 100 * (sheep * maker.d) ≤ 101 * (wheat * maker.n)) :
    100 * sheep * taker.n ≤ 101 * wheat * taker.d := by
  refine Int.le_of_mul_le_mul_right ?_ hd
  calc 100 * sheep * taker.n * maker.d
      = 100 * (sheep * maker.d) * taker.n := by ring
    _ ≤ 101 * (wheat * maker.n) * taker.n := Int.mul_le_mul_of_nonneg_right hbound htaker
    _ = 101 * wheat * (maker.n * taker.n) := by ring
    _ ≤ 101 * wheat * (maker.d * taker.d) := Int.mul_le_mul_of_nonneg_left hprice (by omega)
    _ = 101 * wheat * taker.d * maker.d := by ring

theorem Trade.priceProtected {source : AccountID} {newOffer : OfferEntry} {s : LedgerState}
    {atom : ClaimOfferAtom} (hprice : 0 ≤ newOffer.price.n)
    (h : Trade newOffer.selling newOffer.buying (ManageOfferOp.filter source newOffer) false s
      atom) :
    PriceProtected s newOffer.price atom := by
  obtain ⟨maker, offer, hmaker, hoffer, -, -, hpassed, _, _, _, _, _, hexchange⟩ := h.maker
  have hprice_le := ManageOfferOp.price_le_of_filter hpassed
  rw [hoffer] at hprice_le
  obtain ⟨⟨-, hd⟩, -, -, ⟨hwheat, hsheep⟩ | ⟨hpos, hbound | ⟨h, -⟩⟩⟩ := exchangeV10_eq_ok hexchange
  · simp only at hwheat hsheep
    refine ⟨Or.inl ⟨hwheat, hsheep⟩, ?_, maker, hmaker, ?_⟩
    · rw [hwheat, hsheep, mul_zero, mul_zero, zero_mul, zero_mul]
    · rw [hwheat, hsheep, mul_zero, mul_zero, zero_mul, zero_mul]
  · obtain ⟨hlower, hupper⟩ := hbound.le
    refine ⟨Or.inr hpos, taker_bound hd hpos.1.le hprice hprice_le hupper, maker, hmaker, ?_⟩
    rw [mul_assoc, mul_assoc]
    exact hlower
  · cases h

/-- What is left of the offer is in the book. -/
theorem ManageOfferOp.Placed.stored {s t : LedgerState} {offer stored : OfferEntry}
    {effect : ManageOfferEffect} (h : Placed s t offer effect)
    (hstored : effect.stored = some stored) :
    t.offers.lookup (stored.sellerID, stored.offerID) = some stored ∧
      stored.amount = offer.amount := by
  cases h with
  | created _ _ hsame | updated _ hsame =>
    cases hstored
    rw [hsame]
    exact ⟨(Table.lookup_upsert _ _ _).trans (if_pos rfl), rfl⟩
  | deleted hsame => cases hstored

/-- A successful operation has managed its offer. -/
theorem wp_apply_managed (env : Env) (txSource : AccountID) (op : Operation)
    {offer : ManageOfferOp} (hoffer : op.body.managedOffer = some offer) {s : LedgerState} :
    wp (op.apply env txSource)
      (fun result t => ∀ claimed effect, result = .manageOffer (.success claimed effect) →
        offer.doCheckValid = none ∧
          ManageOfferOp.Managed env (op.getSourceID txSource) offer s t claimed effect)
      (fun _ _ => True) s := by
  obtain ⟨passive, hcheck, happly⟩ := OperationBody.managedOffer_cases hoffer
  refine wp_reads steady_accountExists.1 fun sourceExists => ?_
  refine wp_unless (by rintro _ _ ⟨⟩) fun _ => ?_
  rw [hcheck, happly]
  cases hvalid : offer.doCheckValid with
  | some failure =>
    refine wp_pure.2 ?_
    rintro claimed effect ⟨⟩
    cases ManageOfferOp.not_success_of_doCheckValid hvalid
  | none =>
    have hamount := (ManageOfferOp.valid_of_doCheckValid hvalid).1
    refine wp_map.2 (wp_mono (ManageOfferOp.wp_doApply hamount) ?_ fun _ _ _ => trivial)
    rintro result t happlied claimed effect ⟨⟩
    exact ⟨rfl, happlied.managed claimed effect rfl⟩

/-- Every trade of a successful operation is zero on both sides or positive on both, costs the
taker at most one percent more than its price, and pays the crossed offer at least 99 percent of
its price. The amounts sold, and what is left of the offer, stay within its amount. -/
theorem apply_price_protected (env : Env) (txSource : AccountID) (op : Operation)
    (offer : ManageOfferOp) (claimed : List ClaimOfferAtom) (effect : ManageOfferEffect)
    (s t : LedgerState) (hoffer : op.body.managedOffer = some offer)
    (h : op.apply env txSource s = .ok (.manageOffer (.success claimed effect)) t) :
    (∀ atom ∈ claimed, PriceProtected s offer.price atom) ∧
      (claimed.map ClaimOfferAtom.amountBought).sum ≤ offer.amount ∧
      ∀ stored, effect.stored = some stored →
        t.offers.lookup (stored.sellerID, stored.offerID) = some stored ∧
          (claimed.map ClaimOfferAtom.amountBought).sum + stored.amount ≤ offer.amount := by
  obtain ⟨hvalid, flags, rest, u, v, hthinned, hexchanged, hplaced⟩ :=
    wp_ok (wp_apply_managed env txSource op hoffer) h claimed effect rfl
  have hprice := (ManageOfferOp.valid_of_doCheckValid hvalid).2.2
  refine ⟨fun atom hatom => ?_, hexchanged.sold_le, fun stored hstored => ?_⟩
  · exact ((hexchanged.trades atom hatom).mono hthinned).priceProtected hprice.le
  · obtain ⟨hlookup, hamount⟩ := hplaced.stored hstored
    refine ⟨hlookup, ?_⟩
    rw [hamount]
    exact hexchanged.total_le

section Sample

/-- The asset of issuer 2. -/
def sampleCredit : Asset := .alphaNum4 ⟨#[67, 82, 68, 0], rfl⟩ 2

/-- Account 2 sells 100 of its asset for 150 of the native one. -/
def sampleMaker : OfferEntry where
  sellerID := 2
  offerID := 7
  selling := sampleCredit
  buying := .native
  amount := 100
  price := ⟨3, 2⟩

def sampleBook : LedgerState where
  header := ⟨10, 0, 10 ^ 10, 0, 0, 7, 100, 1000, 100⟩
  accounts := (Table.empty.upsert ⟨1, 10 ^ 6, 0, 1, none, 0, [], ⟨1, 0, 0, 0⟩, [], none⟩).upsert
    ⟨2, 10 ^ 6, 0, 1, none, 0, [], ⟨1, 0, 0, 0⟩, [], some ⟨150, 0⟩⟩
  trustLines := Table.empty.upsert ⟨1, sampleCredit, 0, 1000, authorizedFlag, none⟩
  offers := Table.empty.upsert sampleMaker
  data := Table.empty

/-- Prices are ordered by their integral part here. -/
def sampleEnv : Env := ⟨fun price => price.n / price.d, id, fun _ _ _ => true, fun _ _ => true⟩

/-- Account 1 sells 600 native for at least 300 of the asset. -/
def sampleOffer : ManageOfferOp where
  selling := .native
  buying := sampleCredit
  amount := 600
  price := ⟨1, 2⟩
  offerID := 0

/-- The operation takes the whole offer of account 2. -/
def sampleTrade : ClaimOfferAtom := ⟨2, 7, sampleCredit, 100, .native, 150⟩

/-- What is left of the offer of account 1. -/
def sampleRest : OfferEntry := ⟨1, 8, .native, sampleCredit, 450, ⟨1, 2⟩, 0⟩

theorem apply_price_protected_sample :
    ∃ t, Operation.apply sampleEnv 1 ⟨none, .manageOffer sampleOffer⟩ sampleBook =
        .ok (.manageOffer (.success [sampleTrade] (.created sampleRest))) t ∧
      (∀ atom ∈ [sampleTrade], PriceProtected sampleBook ⟨1, 2⟩ atom) ∧
      ([sampleTrade].map ClaimOfferAtom.amountBought).sum ≤ 600 ∧
      ∀ stored, (ManageOfferEffect.created sampleRest).stored = some stored →
        t.offers.lookup (stored.sellerID, stored.offerID) = some stored ∧
          ([sampleTrade].map ClaimOfferAtom.amountBought).sum + stored.amount ≤ 600 := by
  have hrun : (Operation.apply sampleEnv 1 ⟨none, .manageOffer sampleOffer⟩).run' sampleBook =
      some (.manageOffer (.success [sampleTrade] (.created sampleRest))) := by
    decide +kernel
  obtain ⟨t, ht⟩ := exists_run_eq hrun
  exact ⟨t, ht, apply_price_protected _ _ _ sampleOffer _ _ _ _ rfl ht⟩

end Sample

end SpnCore.Ledger
