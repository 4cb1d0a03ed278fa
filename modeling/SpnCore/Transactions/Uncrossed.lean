import SpnCore.Transactions.BookFrames
import SpnCore.Transactions.PriceProtection

/-!
# The book is never crossed

Two offers cross when each sells what the other one buys and the product of their prices is less
than one, or one while neither of them is passive. An offer is stored only if the book is empty on
the other side or its best offer there is too expensive, and then all offers there are.
-/

namespace SpnCore.Ledger

open Lib List

def int32Max : Int := 2147483647

/-- The parts of a price are `int32_t`. -/
def Price.IsInt32 (p : Price) : Prop := p.n ≤ int32Max ∧ p.d ≤ int32Max

/-- A fraction of positive numbers in the range of `int32_t`. -/
structure Price.IsValid (p : Price) : Prop where
  n_pos : 0 < p.n
  d_pos : 0 < p.d
  int32 : p.IsInt32

/-- The best offer is found in the order of the prices as fractions. -/
def Env.OrdersPrices (env : Env) : Prop :=
  ∀ p q : Price, p.IsValid → q.IsValid → env.priceKey p ≤ env.priceKey q →
    p.n * q.d ≤ q.n * p.d

def OfferEntry.isPassive (offer : OfferEntry) : Bool :=
  offer.flags &&& passiveFlag != 0

/-- The product of the prices exceeds one, or is one and one of the offers is passive. -/
def Apart (o₁ o₂ : OfferEntry) : Prop :=
  o₁.price.d * o₂.price.d < o₁.price.n * o₂.price.n ∨
    o₁.price.n * o₂.price.n = o₁.price.d * o₂.price.d ∧ (o₁.isPassive ∨ o₂.isPassive)

/-- The offer is in the book. -/
def Stored (s : LedgerState) (offer : OfferEntry) : Prop :=
  s.offers.lookup (offer.sellerID, offer.offerID) = some offer

/-- No two offers cross. -/
structure Uncrossed (s : LedgerState) : Prop where
  price : ∀ offer, Stored s offer → offer.price.IsValid
  apart : ∀ o₁ o₂, Stored s o₁ → Stored s o₂ → o₁.selling = o₂.buying → o₁.buying = o₂.selling →
    Apart o₁ o₂

theorem Apart.symm {o₁ o₂ : OfferEntry} (h : Apart o₁ o₂) : Apart o₂ o₁ := by
  rw [Apart, mul_comm o₂.price.d, mul_comm o₂.price.n]
  rcases h with hlt | ⟨heq, hpassive⟩
  · exact Or.inl hlt
  · exact Or.inr ⟨heq, hpassive.symm⟩

/-! ### Fewer offers -/

variable {s t : LedgerState} {offer : OfferEntry}

theorem Thinned.stored (h : Thinned s t) (hoffer : Stored t offer) :
    ∃ old, Stored s old ∧ offer = { old with amount := offer.amount } := by
  obtain ⟨old, hold, heq⟩ := h _ _ hoffer
  refine ⟨old, ?_, heq⟩
  obtain ⟨hseller, hofferID⟩ := offer_of_lookup hold
  rw [Stored, hseller, hofferID]
  exact hold

theorem Uncrossed.thinned (hs : Uncrossed s) (h : Thinned s t) : Uncrossed t where
  price offer hoffer := by
    obtain ⟨old, hold, heq⟩ := h.stored hoffer
    rw [heq]
    exact hs.price old hold
  apart o₁ o₂ ho₁ ho₂ hselling hbuying := by
    obtain ⟨old₁, hold₁, heq₁⟩ := h.stored ho₁
    obtain ⟨old₂, hold₂, heq₂⟩ := h.stored ho₂
    rw [heq₁, heq₂] at hselling hbuying ⊢
    exact hs.apart old₁ old₂ hold₁ hold₂ hselling hbuying

/-! ### A new offer -/

section Storing

variable {env : Env} {source : AccountID} {newOffer : OfferEntry} {s : LedgerState}

/-- A product of prices grows with one of them. -/
theorem price_mul_le {p q r : Price} (hp : 0 ≤ p.n) (hr : 0 ≤ r.d)
    (horder : q.n * r.d ≤ r.n * q.d) (h : p.d * q.d ≤ p.n * q.n) :
    p.d * r.d * q.d ≤ p.n * r.n * q.d :=
  calc p.d * r.d * q.d = p.d * q.d * r.d := by ring
    _ ≤ p.n * q.n * r.d := Int.mul_le_mul_of_nonneg_right h hr
    _ = p.n * (q.n * r.d) := by ring
    _ ≤ p.n * (r.n * q.d) := Int.mul_le_mul_of_nonneg_left horder hp
    _ = p.n * r.n * q.d := by ring

theorem price_mul_lt {p q r : Price} (hp : 0 ≤ p.n) (hr : 0 < r.d)
    (horder : q.n * r.d ≤ r.n * q.d) (h : p.d * q.d < p.n * q.n) :
    p.d * r.d * q.d < p.n * r.n * q.d :=
  calc p.d * r.d * q.d = p.d * q.d * r.d := by ring
    _ < p.n * q.n * r.d := Int.mul_lt_mul_of_pos_right h hr
    _ = p.n * (q.n * r.d) := by ring
    _ ≤ p.n * (r.n * q.d) := Int.mul_le_mul_of_nonneg_left horder hp
    _ = p.n * r.n * q.d := by ring

/-- What the filter finds too expensive does not cross the new offer. -/
theorem product_of_filter {best : OfferEntry}
    (h : ManageOfferOp.filter source newOffer best = .ok (some .price)) :
    newOffer.price.d * best.price.d < newOffer.price.n * best.price.n ∨
      newOffer.isPassive ∧ newOffer.price.d * best.price.d ≤ newOffer.price.n * best.price.n := by
  simp only [ManageOfferOp.filter, bind_eq_ok, pure_eq_ok] at h
  obtain ⟨_, -, h⟩ := h
  split_ifs at h with hprice hself
  · simp only [Bool.or_eq_true, Bool.and_eq_true, Price.gt, Price.ge, decide_eq_true_eq] at hprice
    rw [mul_comm newOffer.price.d, mul_comm newOffer.price.n]
    rcases hprice with ⟨hpassive, hge⟩ | hgt
    · exact Or.inr ⟨hpassive, hge⟩
    · exact Or.inl hgt
  · cases h

/-- When the new offer is stored, no offer on the other side crosses it. -/
theorem ManageOfferOp.Blocked.apart (horder : env.OrdersPrices) (hs : Uncrossed s)
    (hn : 0 < newOffer.price.n) (h : Blocked env source newOffer s)
    (hoffer : Offers s newOffer.selling newOffer.buying offer) : Apart newOffer offer := by
  rcases h with hnone | ⟨best, hbest, hstop⟩
  · exact absurd hoffer (getBestOffer_eq_none hnone offer)
  · obtain ⟨hbestOffer, hleast⟩ := getBestOffer_eq_some hbest
    have hbestPrice := hs.price best hbestOffer.1
    have hofferPrice := hs.price offer hoffer.1
    have hle := horder _ _ hbestPrice hofferPrice (hleast offer hoffer)
    rcases product_of_filter hstop with hlt | ⟨hpassive, hprice⟩
    · exact Or.inl (Int.lt_of_mul_lt_mul_right (price_mul_lt hn.le hofferPrice.d_pos hle hlt)
        hbestPrice.d_pos.le)
    · have hproduct := Int.le_of_mul_le_mul_right
        (price_mul_le hn.le hofferPrice.d_pos.le hle hprice) hbestPrice.d_pos
      rcases hproduct.lt_or_eq with hlt | heq
      · exact Or.inl hlt
      · exact Or.inr ⟨heq.symm, Or.inl hpassive⟩

/-- An offer that crosses none of the book may be stored. -/
theorem Uncrossed.putOffer (hs : Uncrossed s) (hprice : offer.price.IsValid)
    (hassets : offer.selling ≠ offer.buying)
    (hapart : ∀ other, Offers s offer.selling offer.buying other → Apart offer other) :
    Uncrossed (s.putOffer offer) := by
  have hstored : ∀ o, Stored (s.putOffer offer) o → o = offer ∨ Stored s o := by
    intro o ho
    rw [Stored, LedgerState.putOffer, Table.lookup_upsert] at ho
    split at ho
    case isTrue => exact Or.inl (Option.some.inj ho).symm
    case isFalse => exact Or.inr ho
  refine ⟨fun o ho => ?_, fun o₁ o₂ ho₁ ho₂ hselling hbuying => ?_⟩
  · rcases hstored o ho with rfl | ho
    · exact hprice
    · exact hs.price o ho
  · rcases hstored o₁ ho₁ with rfl | hold₁ <;> rcases hstored o₂ ho₂ with rfl | hold₂
    · exact absurd hselling hassets
    · exact hapart o₂ ⟨hold₂, hselling.symm, hbuying.symm⟩
    · exact (hapart o₁ ⟨hold₁, hbuying, hselling⟩).symm
    · exact hs.apart o₁ o₂ hold₁ hold₂ hselling hbuying

end Storing

/-! ### Operations -/

section Operations

variable {env : Env}

theorem SameOffers.uncrossed (h : SameOffers s t) (hs : Uncrossed s) : Uncrossed t :=
  hs.thinned h.thinned

theorem ManageOfferOp.assets_of_doCheckValid {op : ManageOfferOp} (h : op.doCheckValid = none) :
    op.selling ≠ op.buying := by
  unfold doCheckValid at h
  split_ifs at h with _ hassets
  exact hassets

theorem ManageOfferOp.Managed.uncrossed {source : AccountID} {op : ManageOfferOp}
    {claimed : List ClaimOfferAtom} {effect : ManageOfferEffect} (horder : env.OrdersPrices)
    (hvalid : op.doCheckValid = none) (hint32 : op.price.IsInt32) (hs : Uncrossed s)
    (h : Managed env source op s t claimed effect) : Uncrossed t := by
  obtain ⟨flags, rest, u, v, hthinned, hexchanged, hplaced⟩ := h.steps
  have hv : Uncrossed v := (hs.thinned hthinned).thinned hexchanged.thinned
  obtain ⟨-, hd, hn⟩ := valid_of_doCheckValid hvalid
  have hassets := assets_of_doCheckValid hvalid
  obtain ⟨amount, hrest⟩ : ∃ amount, rest = { buildOffer source op flags with amount := amount } :=
    ⟨_, hexchanged.rest⟩
  have hapart : 0 < rest.amount → ∀ other, Offers v op.selling op.buying other →
      Apart (buildOffer source op flags) other := fun hpos _ hother =>
    (hexchanged.blocked hpos).apart horder hv hn hother
  cases hplaced with
  | created offerID hpos hsame =>
    have hstored := hapart hpos
    rw [hrest] at hsame
    exact hsame.uncrossed (hv.putOffer ⟨hn, hd, hint32⟩ hassets hstored)
  | updated hpos hsame =>
    have hstored := hapart hpos
    rw [hrest] at hsame
    exact hsame.uncrossed (hv.putOffer ⟨hn, hd, hint32⟩ hassets hstored)
  | deleted hsame => exact hsame.uncrossed hv

/-- The prices of the operation are those of the wire format. -/
def Operation.PricesInt32 (op : Operation) : Prop :=
  ∀ offer, op.body.managedOffer = some offer → offer.price.IsInt32

theorem uncrossed_apply (horder : env.OrdersPrices) (txSource : AccountID) {op : Operation}
    (hop : op.PricesInt32) : Within (Keeps Uncrossed) (op.apply env txSource) := by
  refine within_bind steady_accountExists.1 fun _ => within_unless fun _ => ?_
  cases hmanaged : op.body.managedOffer with
  | none =>
    cases hvalid : op.body.doCheckValid (op.getSourceID txSource) with
    | some _ => exact within_pure
    | none =>
      exact (OperationBody.written_doApply hvalid hmanaged).mono
        fun _ _ h hs => hs.thinned h.thinned
  | some offer =>
    obtain ⟨passive, hcheck, happly⟩ := OperationBody.managedOffer_cases hmanaged
    rw [hcheck, happly]
    cases hvalid : offer.doCheckValid with
    | some _ => exact within_pure
    | none =>
      refine within_map fun s => ?_
      have hamount := (ManageOfferOp.valid_of_doCheckValid hvalid).1
      refine wp_mono (ManageOfferOp.wp_doApply hamount) ?_ ?_
      · intro result t happlied hs
        cases hsuccess : result.isSuccess with
        | false => rwa [happlied.failed hsuccess]
        | true =>
          cases result with
          | success claimed effect =>
            exact (happlied.managed claimed effect rfl).uncrossed horder hvalid
              (hop offer hmanaged) hs
          | _ => cases hsuccess
      · rintro _ _ rfl hs
        exact hs

end Operations

/-! ### Ledgers -/

section Closing

variable {env : Env}

theorem uncrossed_executeOperations (horder : env.OrdersPrices) (tx : Transaction)
    {ops : List Operation} (hops : ∀ op ∈ ops, op.PricesInt32) :
    Within (Keeps Uncrossed) (tx.executeOperations env ops) := by
  induction ops with
  | nil => exact within_pure
  | cons op ops ih =>
    have hop := hops op mem_cons_self
    exact within_bind within_get fun _ =>
      within_bind (within_nested (uncrossed_apply horder _ hop)) fun _ =>
      within_bind within_get fun _ =>
      within_bind (ih fun o ho => hops o (mem_cons_of_mem op ho)) fun _ => within_pure

theorem uncrossed_applyTx (horder : env.OrdersPrices) {tx : Transaction}
    (htx : ∀ op ∈ tx.operations, op.PricesInt32) : Within (Keeps Uncrossed) (tx.apply env) := by
  refine within_bind ((tx.written_prepare env).mono fun _ _ h hs => hs.thinned h.thinned) fun _ =>
    within_unless fun _ => ?_
  exact within_bind (within_bind (within_nested (uncrossed_executeOperations horder tx htx))
    fun _ => within_pure) fun _ => within_pure

theorem uncrossed_applyTransactions (horder : env.OrdersPrices) {txs : List Transaction}
    (htxs : ∀ tx ∈ txs, ∀ op ∈ tx.operations, op.PricesInt32) :
    Within (Keeps Uncrossed) (applyTransactions env txs) := by
  induction txs with
  | nil => exact within_pure
  | cons tx txs ih =>
    exact within_bind (within_catching (uncrossed_applyTx horder (htxs tx mem_cons_self)))
      fun _ => within_bind (ih fun t ht => htxs t (mem_cons_of_mem tx ht)) fun _ =>
      within_pure

/-- The prices of all operations are those of the wire format. -/
def LedgerCloseData.PricesInt32 (ledgerData : LedgerCloseData) : Prop :=
  ∀ tx ∈ ledgerData.txs, ∀ op ∈ tx.operations, op.PricesInt32

theorem uncrossed_closeLedger (horder : env.OrdersPrices) {ledgerData : LedgerCloseData}
    (hdata : ledgerData.PricesInt32) : Within (Keeps Uncrossed) (closeLedger env ledgerData) := by
  refine within_nested (within_bind (within_bind steady_loadHeader.1 fun _ =>
    within_bind (within_modify fun _ => SameOffers.uncrossed rfl) fun _ => ?_) fun _ => ?_)
  · exact within_nested (within_forM (fun tx => within_nested (within_bind
      (tx.written_processFeeSeqNum.mono fun _ _ h hs => hs.thinned h.thinned) fun _ =>
      within_pure)) _)
  refine within_bind (uncrossed_applyTransactions horder hdata) fun _ => within_bind ?_ fun _ =>
    within_pure
  refine within_forM (fun upgrade => within_bind (within_catching (within_nested ?_)) fun _ =>
    within_pure) _
  exact (Herder.Upgrades.thinned_applyTo upgrade).mono fun _ _ h hs => hs.thinned h

theorem uncrossed_closeLedgers (horder : env.OrdersPrices) {closes : List LedgerCloseData}
    (hcloses : ∀ ledgerData ∈ closes, ledgerData.PricesInt32) :
    Within (Keeps Uncrossed) (closeLedgers env closes) := by
  induction closes with
  | nil => exact within_pure
  | cons ledgerData closes ih =>
    refine within_bind (within_bind
      (uncrossed_closeLedger horder (hcloses ledgerData mem_cons_self)) fun _ =>
      within_pure) fun _ => ?_
    exact ih fun d hd => hcloses d (mem_cons_of_mem ledgerData hd)

/-- If the book is walked in the order of the exact prices, it is not crossed after any number of
ledgers with any transactions and upgrades, if it was not before. -/
theorem closeLedgers_uncrossed (env : Env) (horder : env.OrdersPrices)
    (closes : List LedgerCloseData) (hcloses : ∀ ledgerData ∈ closes, ledgerData.PricesInt32)
    (s t : LedgerState) (hs : Uncrossed s) (h : closeLedgers env closes s = .ok () t) :
    Uncrossed t :=
  wp_ok (uncrossed_closeLedgers horder hcloses s) h hs

end Closing

section Sample

/-- Two prices differ by at least the product of their denominators' inverses, so the order is
seen in the integral part of a large multiple. -/
def exactEnv : Env := { sampleEnv with priceKey := fun p => p.n * 2 ^ 62 / p.d }

theorem exactEnv_ordersPrices : exactEnv.OrdersPrices := by
  intro p q hp hq hkey
  by_contra hlt
  have hd : p.d * q.d ≤ int32Max * int32Max :=
    Int.mul_le_mul hp.int32.2 hq.int32.2 hq.d_pos.le (by decide)
  have hbound : int32Max * int32Max < 2 ^ 62 := by decide
  have hfloor : q.n * 2 ^ 62 / q.d * q.d ≤ q.n * 2 ^ 62 := Int.ediv_mul_le _ hq.d_pos.ne'
  have hceil : p.n * 2 ^ 62 < (q.n * 2 ^ 62 / q.d + 1) * p.d := by
    refine (Int.ediv_lt_iff_lt_mul hp.d_pos).1 ?_
    exact Int.lt_add_one_iff.2 hkey
  have hscaled : p.n * q.d * 2 ^ 62 < q.n * p.d * 2 ^ 62 + p.d * q.d :=
    calc p.n * q.d * 2 ^ 62 = p.n * 2 ^ 62 * q.d := by ring
      _ < (q.n * 2 ^ 62 / q.d + 1) * p.d * q.d := Int.mul_lt_mul_of_pos_right hceil hq.d_pos
      _ = q.n * 2 ^ 62 / q.d * q.d * p.d + p.d * q.d := by ring
      _ ≤ q.n * 2 ^ 62 * p.d + p.d * q.d := by
        have := Int.mul_le_mul_of_nonneg_right hfloor hp.d_pos.le
        omega
      _ = q.n * p.d * 2 ^ 62 + p.d * q.d := by ring
  omega

/-- A ledger in which account 1 sells 600 native and crosses the offer of account 2. -/
def sampleClose : LedgerCloseData where
  closeTime := 1
  txs := [{
    sourceAccount := 1
    fee := 100
    seqNum := 1
    operations := [⟨none, .manageOffer sampleOffer⟩]
    signatures := [0]
    contentsHash := 0 }]
  upgrades := [.baseReserve 2000]

theorem sampleBook_uncrossed : Uncrossed sampleBook := by
  have honly : ∀ offer, Stored sampleBook offer → offer = sampleMaker := by
    intro offer hoffer
    have hmem := Table.mem_values_of_lookup hoffer
    exact mem_singleton.1 hmem
  refine ⟨fun offer hoffer => ?_, fun o₁ o₂ ho₁ ho₂ hselling _ => ?_⟩
  · rw [honly offer hoffer]
    exact ⟨by decide, by decide, by decide, by decide⟩
  · rw [honly o₁ ho₁, honly o₂ ho₂] at hselling
    exact absurd hselling (by decide)

theorem closeLedgers_uncrossed_sample :
    ∃ t, closeLedgers exactEnv [sampleClose] sampleBook = .ok () t ∧ Uncrossed t := by
  have hrun : (closeLedgers exactEnv [sampleClose]).run' sampleBook = some () := by
    decide +kernel
  obtain ⟨t, ht⟩ := exists_run_eq hrun
  refine ⟨t, ht, closeLedgers_uncrossed exactEnv exactEnv_ordersPrices [sampleClose] ?_
    sampleBook t sampleBook_uncrossed ht⟩
  intro ledgerData hdata tx htx op hop offer hoffer
  cases mem_singleton.1 hdata
  cases mem_singleton.1 htx
  cases mem_singleton.1 hop
  cases hoffer
  exact ⟨by decide, by decide⟩

end Sample

end SpnCore.Ledger
