import SpnCore.Transactions.EntryUpdates
import SpnCore.Transactions.ExchangeBounds
import SpnCore.Transactions.ProgramRules

/-!
# What programs do to the book of offers

Most programs do not touch the offers. Crossing offers only removes offers or changes their amount,
and a conversion says why it stopped in terms of the best offer that it left.
-/

namespace SpnCore.Ledger

open Lib List

/-- The program does not run out of steps. -/
abbrev Ends {α : Type} (x : LedgerM α) : Prop := Avoids LedgerError.outOfFuel x

/-- The program stays within a relation and does not run out of steps. -/
def Steady {α : Type} (R : LedgerState → LedgerState → Prop) (x : LedgerM α) : Prop :=
  Within R x ∧ Ends x

variable {offer old : OfferEntry} {crossed : CrossedOffer} {s t : LedgerState}

section Steady

variable {R : LedgerState → LedgerState → Prop} [IsPreorder LedgerState R] {α β : Type}
  {e : LedgerError} {x : LedgerM β} {y : β → LedgerM α}

theorem steady_pure {a : α} : Steady R (pure a : LedgerM α) := ⟨within_pure, avoids_pure⟩

theorem steady_get : Steady R (get : LedgerM LedgerState) := ⟨within_get, avoids_get⟩

theorem steady_throw (h : e ≠ .outOfFuel) : Steady R (throw e : LedgerM α) :=
  ⟨within_throw, avoids_throw h⟩

theorem steady_ensure {c : Bool} (h : e ≠ .outOfFuel) : Steady R (ensure c e : LedgerM Unit) :=
  ⟨within_ensure, avoids_ensure h⟩

theorem steady_runExcept {x : Except LedgerError α} (h : Halts x) :
    Steady R (runExcept x : LedgerM α) :=
  ⟨within_runExcept, avoids_runExcept h⟩

theorem steady_bind (hx : Steady R x) (hy : ∀ b, Steady R (y b)) : Steady R (x >>= y) :=
  ⟨within_bind hx.1 fun b => (hy b).1, avoids_bind hx.2 fun b => (hy b).2⟩

theorem steady_onlyIf {c : Bool} {x : LedgerM Unit} (hx : Steady R x) : Steady R (onlyIf c x) :=
  ⟨within_onlyIf hx.1, avoids_onlyIf hx.2⟩

omit [IsPreorder LedgerState R] in
theorem steady_ite {c : Prop} [Decidable c] {y : LedgerM β} (hx : Steady R x)
    (hy : Steady R y) : Steady R (if c then x else y) :=
  ⟨within_ite (fun _ => hx.1) fun _ => hy.1, avoids_ite hx.2 hy.2⟩

/-- A program that only reads, followed by the rest of a program. -/
theorem Steady.wp_reads {Q : α → LedgerState → Prop} (hx : Steady Eq x)
    (hy : ∀ b, wp (y b) Q (fun e _ => e ≠ .outOfFuel) s) :
    wp (x >>= y) Q (fun e _ => e ≠ .outOfFuel) s :=
  wp_seq_run (hx.2 s) fun b _ hrun _ => hx.1.of_ok hrun ▸ hy b

/-! ### Programs that only read -/

theorem steady_loadHeader : Steady R loadHeader :=
  steady_bind steady_get fun _ => steady_pure

variable {accountID : AccountID} {asset : Asset} {line : TrustLineWrapper}

theorem steady_loadAccount : Steady R (loadAccount accountID) :=
  steady_bind steady_get fun _ => steady_pure

theorem steady_active {entry : Option α} : Steady R (active entry) := by
  cases entry with
  | none => exact steady_throw (by decide)
  | some e => exact steady_pure

theorem steady_activeAccount : Steady R (activeAccount accountID) :=
  steady_bind steady_loadAccount fun _ => steady_active

theorem steady_accountExists : Steady R (accountExists accountID) :=
  steady_bind steady_loadAccount fun _ => steady_pure

theorem steady_issuerExists : Steady R (issuerExists asset) := by
  unfold issuerExists
  cases asset.issuer? with
  | none => exact steady_pure
  | some issuer => exact steady_accountExists

theorem steady_loadTrustLine : Steady R (loadTrustLine accountID asset) := by
  refine steady_bind steady_get fun ls => ?_
  cases asset.issuer? with
  | none => exact steady_throw (by decide)
  | some issuer => exact steady_pure

theorem within_read {issuerValue : α} {f : TrustLineEntry → Except LedgerError α} :
    Within R (line.read issuerValue f) := by
  cases line with
  | inactive => exact within_throw
  | issuer => exact within_pure
  | nonIssuer accountID asset =>
    exact within_bind within_get fun _ => within_bind steady_active.1 fun _ => within_runExcept

theorem steady_read {issuerValue : α} {f : TrustLineEntry → Except LedgerError α}
    (hf : ∀ line, Halts (f line)) : Steady R (line.read issuerValue f) := by
  refine ⟨within_read, ?_⟩
  cases line with
  | inactive => exact avoids_throw (by decide)
  | issuer => exact avoids_pure
  | nonIssuer accountID asset =>
    exact avoids_bind avoids_get fun _ => avoids_bind (steady_active (R := Eq)).2 fun line =>
      avoids_runExcept (hf line)

theorem steady_validateHolding : Steady R (validateHolding accountID asset) :=
  steady_ite (steady_bind steady_loadAccount fun _ => steady_ensure (by decide))
    (steady_bind steady_loadTrustLine fun _ => steady_ensure (by decide))

theorem steady_canSellAtMost : Steady R (canSellAtMost accountID asset) := by
  refine steady_ite ?_ ?_
  · refine steady_bind steady_loadHeader fun _ => steady_bind steady_activeAccount fun _ =>
      steady_bind (steady_runExcept ?_) fun _ => steady_pure
    simp [AccountEntry.getAvailableBalance]
  · refine steady_bind steady_loadTrustLine fun line => steady_ite ?_ steady_pure
    refine steady_bind (steady_read fun _ => raises_ok) fun _ => steady_ite ?_ steady_pure
    exact steady_bind (steady_read fun _ => halts_int64) fun _ => steady_pure

theorem steady_canBuyAtMost : Steady R (canBuyAtMost accountID asset) := by
  refine steady_ite ?_ ?_
  · refine steady_bind steady_activeAccount fun _ =>
      steady_bind (steady_runExcept ?_) fun _ => steady_pure
    simp [AccountEntry.getMaxAmountReceive]
  · refine steady_bind steady_loadTrustLine fun line => steady_ite ?_ steady_pure
    refine steady_bind (steady_read fun _ => ?_) fun _ => steady_pure
    simp [TrustLineEntry.getMaxAmountReceive]

theorem steady_adjustOfferToLimits : Steady R (adjustOfferToLimits offer) := by
  refine steady_bind steady_canSellAtMost fun _ => steady_bind steady_canBuyAtMost fun _ =>
    steady_bind (steady_runExcept ?_) fun _ => steady_pure
  simp [adjustOffer]

end Steady

/-! ### Programs that leave the offers alone -/

/-- The offers are the same. -/
def SameOffers (s t : LedgerState) : Prop := t.offers = s.offers

instance : IsPreorder LedgerState SameOffers where
  refl _ := rfl
  trans _ _ _ h h' := h'.trans h

section Updating

variable {accountID : AccountID} {asset : Asset}
  {onAccount : LedgerHeader → AccountEntry → Except LedgerError (Option AccountEntry)}
  {onLine : TrustLineEntry → Except LedgerError (Option TrustLineEntry)}
  (haccount : ∀ header acc, Halts (onAccount header acc)) (hline : ∀ line, Halts (onLine line))

include haccount in
theorem steady_updateAccount : Steady SameOffers (updateAccount accountID onAccount) := by
  refine steady_bind steady_loadHeader fun header => steady_bind steady_activeAccount fun acc =>
    steady_bind (steady_runExcept (haccount header acc)) fun result => ?_
  cases result with
  | none => exact steady_pure
  | some acc => exact steady_bind ⟨within_modify fun _ => rfl, avoids_modify⟩ fun _ => steady_pure

include hline in
theorem steady_updateLine (line : TrustLineWrapper) : Steady SameOffers (line.update onLine) := by
  cases line with
  | inactive => exact steady_throw (by decide)
  | issuer => exact steady_pure
  | nonIssuer accountID asset =>
    refine steady_bind steady_get fun _ => steady_bind steady_active fun line =>
      steady_bind (steady_runExcept (hline line)) fun result => ?_
    cases result with
    | none => exact steady_pure
    | some line' =>
      exact steady_bind ⟨within_modify fun _ => rfl, avoids_modify⟩ fun _ => steady_pure

include haccount hline in
theorem steady_updateHolding :
    Steady SameOffers (updateHolding accountID asset onAccount onLine) :=
  steady_ite (steady_updateAccount haccount) (steady_bind steady_loadTrustLine
    (steady_updateLine hline))

theorem steady_addNumEntries {count : Int} : Steady SameOffers (addNumEntries accountID count) :=
  steady_updateAccount fun _ _ => AccountEntry.halts_addNumEntries

theorem steady_addHolding {delta : Int} : Steady SameOffers (addHolding accountID asset delta) :=
  steady_updateHolding (fun _ _ => AccountEntry.halts_addBalance)
    fun _ => TrustLineEntry.halts_addBalance

theorem steady_acquireOrRelease {isAcquire : Bool} :
    Steady SameOffers (acquireOrReleaseLiabilities offer isAcquire) := by
  refine steady_bind (steady_ensure (by decide)) fun _ => ?_
  refine steady_bind (steady_runExcept (by simp [getOfferBuyingLiabilities])) fun _ => ?_
  refine steady_bind steady_validateHolding fun _ => ?_
  refine steady_bind (steady_updateHolding (fun _ _ => AccountEntry.halts_addBuyingLiabilities)
    fun _ => TrustLineEntry.halts_addBuyingLiabilities) fun _ => ?_
  refine steady_bind (steady_ensure (by decide)) fun _ => ?_
  refine steady_bind (steady_runExcept (by simp [getOfferSellingLiabilities])) fun _ => ?_
  refine steady_bind steady_validateHolding fun _ => ?_
  refine steady_bind
    (steady_updateHolding (fun _ _ => AccountEntry.halts_addSellingLiabilities)
      fun _ => TrustLineEntry.halts_addSellingLiabilities) fun _ => ?_
  exact steady_ensure (by decide)

theorem steady_tradeHoldings {numWheatReceived numSheepSend : Int} :
    Steady SameOffers (tradeHoldings offer numWheatReceived numSheepSend) := by
  refine steady_bind (steady_onlyIf ?_) fun _ => steady_onlyIf ?_
  · exact steady_bind steady_addHolding fun _ => steady_ensure (by decide)
  · exact steady_bind steady_addHolding fun _ => steady_ensure (by decide)

end Updating

/-! ### Crossing an offer -/

/-- Offers were only removed, or their amounts changed. -/
def Thinned (s t : LedgerState) : Prop :=
  ∀ key offer, t.offers.lookup key = some offer →
    ∃ old, s.offers.lookup key = some old ∧ offer = { old with amount := offer.amount }

instance : IsPreorder LedgerState Thinned where
  refl _ _ offer h := ⟨offer, h, rfl⟩
  trans _ _ _ h h' key offer hoffer := by
    obtain ⟨mid, hmid, heq⟩ := h' key offer hoffer
    obtain ⟨old, hold, heq'⟩ := h key mid hmid
    exact ⟨old, hold, by rw [heq, heq']⟩

theorem SameOffers.thinned (h : SameOffers s t) : Thinned s t := by
  intro key offer hoffer
  rw [h] at hoffer
  exact ⟨offer, hoffer, rfl⟩

theorem thinned_eraseOffer (s : LedgerState) (sellerID : AccountID) (offerID : Nat) :
    Thinned s (s.eraseOffer sellerID offerID) := by
  intro key offer hoffer
  rw [LedgerState.eraseOffer, Table.lookup_erase] at hoffer
  split at hoffer
  case isTrue => cases hoffer
  case isFalse => exact ⟨offer, hoffer, rfl⟩

/-- Another amount for an offer that was there at the start. -/
theorem Thinned.putOffer (h : Thinned s t)
    (hold : s.offers.lookup (old.sellerID, old.offerID) = some old)
    (heq : offer = { old with amount := offer.amount }) : Thinned s (t.putOffer offer) := by
  intro key o ho
  rw [LedgerState.putOffer, Table.lookup_upsert] at ho
  split at ho
  case isTrue hkey =>
    cases ho
    refine ⟨old, ?_, heq⟩
    rw [hkey, heq]
    exact hold
  case isFalse => exact h key o ho

section Crossing

variable {s : LedgerState} {offer : OfferEntry} {maxWheatReceive maxSheepSend : Int}
  {isPathPayment : Bool}

/-- Adjusting an offer changes its amount only, to at most what it was. -/
theorem wp_adjustOfferToLimits (offer : OfferEntry) :
    wp (adjustOfferToLimits offer)
      (fun adjusted t => t = s ∧ adjusted = { offer with amount := adjusted.amount } ∧
        0 ≤ adjusted.amount ∧ adjusted.amount ≤ offer.amount) (fun e _ => e ≠ .outOfFuel) s := by
  refine steady_canSellAtMost.wp_reads fun sellable => ?_
  refine steady_canBuyAtMost.wp_reads fun maxSheepReceive => ?_
  have hhalts : Halts (adjustOffer offer.price (min offer.amount sellable) maxSheepReceive) := by
    simp [adjustOffer]
  refine wp_bind.2 (wp_runExcept.2 ⟨fun amount hamount => ?_, hhalts⟩)
  refine wp_pure.2 ⟨rfl, rfl, ?_⟩
  simp only [adjustOffer, bind_eq_ok, pure_eq_ok] at hamount
  obtain ⟨r, hr, rfl⟩ := hamount
  have hin := exchangeV10_within hr
  exact ⟨hin.wheat_nonneg, hin.wheat_le_send.trans (min_le_left _ _)⟩

/-- What remains of an offer is the offer with another amount, and nothing if wheat does not
stay. -/
theorem wp_remainingOffer {numWheatReceived : Int} {wheatStays : Bool} :
    wp (remainingOffer offer numWheatReceived wheatStays)
      (fun remaining t => t = s ∧ remaining = { offer with amount := remaining.amount } ∧
        0 ≤ remaining.amount ∧ (wheatStays = false → remaining.amount = 0))
      (fun e _ => e ≠ .outOfFuel) s := by
  cases wheatStays with
  | true =>
    refine wp_imp (wp_adjustOfferToLimits _) ?_
    rintro remaining _ ⟨rfl, heq, hnonneg, -⟩
    exact ⟨rfl, heq, hnonneg, fun h => Bool.noConfusion h⟩
  | false => exact wp_pure.2 ⟨rfl, rfl, le_rfl, fun _ => rfl⟩

/-- What crossing does to an offer of the book: a taken offer leaves it, another one stays with a
new amount. -/
def Settles (offer : OfferEntry) (s t : LedgerState) : CrossOfferResult → Prop
  | .eOfferTaken => t.offers = s.offers.erase (offer.sellerID, offer.offerID)
  | .eOfferPartial => ∃ amount, t.offers = s.offers.upsert { offer with amount := amount }

theorem Settles.thinned {result : CrossOfferResult} (h : Settles offer s t result)
    (hoffer : s.offers.lookup (offer.sellerID, offer.offerID) = some offer) : Thinned s t := by
  cases result with
  | eOfferTaken =>
    intro key o ho
    rw [h] at ho
    exact thinned_eraseOffer s _ _ key o ho
  | eOfferPartial =>
    obtain ⟨amount, hput⟩ := h
    have hthinned : Thinned s (s.putOffer { offer with amount := amount }) :=
      (refl_of Thinned s).putOffer hoffer rfl
    intro key o ho
    rw [hput] at ho
    exact hthinned key o ho

theorem Settles.of_sameOffers {u : LedgerState} {result : CrossOfferResult}
    (h : Settles offer u t result) (hsame : SameOffers s u) : Settles offer s t result := by
  cases result with
  | eOfferTaken => exact (show _ = _ from h).trans (by rw [hsame])
  | eOfferPartial =>
    obtain ⟨amount, hput⟩ := h
    exact ⟨amount, by rw [hput, hsame]⟩

theorem wp_settleOffer (heq : offer = { old with amount := offer.amount }) :
    wp (settleOffer offer)
      (fun result t => Settles old s t result ∧ (offer.amount = 0 → result = .eOfferTaken))
      (fun e _ => e ≠ .outOfFuel) s := by
  refine wp_ite.2 ⟨fun hzero => ?_, fun hne => ?_⟩
  · refine wp_bind.2 (wp_eraseOffer.2 ?_)
    refine wp_seq_run (steady_addNumEntries.2 _) fun _ t hrun _ => ?_
    have ht := steady_addNumEntries.1.of_ok hrun
    refine wp_pure.2 ⟨?_, fun _ => rfl⟩
    rw [heq] at ht
    exact ht
  · refine wp_bind.2 (wp_putOffer.2 ?_)
    refine wp_seq_run (steady_acquireOrRelease.2 _) fun _ t hrun _ => ?_
    have ht := steady_acquireOrRelease.1.of_ok hrun
    refine wp_pure.2 ⟨⟨offer.amount, ?_⟩, fun hzero => absurd hzero hne⟩
    rw [← heq]
    exact ht

/-- The runs that crossing an offer is made of. -/
inductive CrossingRun (offer : OfferEntry) (crossed : CrossedOffer) (s t : LedgerState) : Prop
  | intro {released traded : LedgerState} {adjusted remaining : OfferEntry}
      (adjusted_eq : adjusted = { offer with amount := adjusted.amount })
      (remaining_eq : remaining = { offer with amount := remaining.amount })
      (nonneg : 0 ≤ remaining.amount)
      (release : releaseLiabilities offer s = .ok () released)
      (trade : tradeHoldings adjusted crossed.numWheatReceived crossed.numSheepSend released =
        .ok () traded)
      (settle : settleOffer remaining traded = .ok crossed.result t)

theorem sameOffers_traded {offer' : OfferEntry} {numWheatReceived numSheepSend : Int}
    {released traded : LedgerState} (hrelease : releaseLiabilities offer s = .ok () released)
    (htrade : tradeHoldings offer' numWheatReceived numSheepSend released = .ok () traded) :
    SameOffers s traded :=
  (steady_tradeHoldings.1.of_ok htrade).trans (steady_acquireOrRelease.1.of_ok hrelease)

theorem CrossingRun.settles (h : CrossingRun offer crossed s t) :
    Settles offer s t crossed.result := by
  obtain ⟨-, hremaining, -, hrelease, htrade, hsettle⟩ := h
  exact (wp_ok (wp_settleOffer hremaining) hsettle).1.of_sameOffers
    (sameOffers_traded hrelease htrade)

/-- What crossing an offer reports: the amounts of an exchange at its price. -/
structure Crossed (offer : OfferEntry) (maxWheatReceive maxSheepSend : Int) (isPathPayment : Bool)
    (crossed : CrossedOffer) : Prop where
  exchange : ∃ maxWheatSend maxSheepReceive, exchangeV10 offer.price maxWheatSend maxWheatReceive
    maxSheepSend maxSheepReceive isPathPayment =
      .ok ⟨crossed.numWheatReceived, crossed.numSheepSend, crossed.wheatStays⟩
  atom : crossed.atom = ⟨offer.sellerID, offer.offerID, offer.selling, crossed.numWheatReceived,
    offer.buying, crossed.numSheepSend⟩
  taken : crossed.wheatStays = false → crossed.result = .eOfferTaken

theorem wp_crossOfferV10 :
    wp (crossOfferV10 offer maxWheatReceive maxSheepSend isPathPayment)
      (fun crossed t => CrossingRun offer crossed s t ∧
        Crossed offer maxWheatReceive maxSheepSend isPathPayment crossed)
      (fun e _ => e ≠ .outOfFuel) s := by
  refine (steady_ensure (by decide)).wp_reads fun _ => ?_
  refine (steady_ensure (by decide)).wp_reads fun _ => ?_
  refine steady_loadAccount.wp_reads fun accountB => ?_
  refine (steady_ensure (by decide)).wp_reads fun _ => ?_
  refine wp_seq_run (steady_acquireOrRelease.2 s) fun _ released hrelease _ => ?_
  refine wp_seq (wp_adjustOfferToLimits offer) ?_
  rintro adjusted _ ⟨rfl, hadjusted, -⟩
  refine steady_canSellAtMost.wp_reads fun sellable => ?_
  refine steady_canBuyAtMost.wp_reads fun maxSheepReceive => ?_
  refine wp_bind.2 (wp_runExcept.2 ⟨fun exchange hexchange => ?_, halts_exchangeV10⟩)
  refine wp_seq_run (steady_tradeHoldings.2 _) fun _ traded htrade _ => ?_
  refine wp_seq wp_remainingOffer ?_
  rintro remaining _ ⟨rfl, hremaining, hnonneg, hzero⟩
  rw [hadjusted] at hremaining hexchange
  refine wp_seq_run (wp_settleOffer hremaining) fun result t hsettle hsettled => ?_
  refine wp_pure.2 ⟨⟨hadjusted, hremaining, hnonneg, hrelease, htrade, hsettle⟩, ⟨_, _, hexchange⟩,
    ?_, fun hstays => hsettled.2 (hzero hstays)⟩
  rw [hadjusted]

end Crossing

/-! ### Converting along the book -/

section Converting

variable {env : Env} {sheep wheat : Asset} {filter : OfferFilter} {isPathPayment : Bool}
  {s t : LedgerState} {maxWheatReceive maxSheepSend : Int}

/-- An offer is not better than another one when it is more expensive, or as expensive and not
older. -/
theorem isBetterOffer_eq_false {lhs rhs : OfferEntry} :
    isBetterOffer env lhs rhs = false ↔
      env.priceKey rhs.price < env.priceKey lhs.price ∨
        env.priceKey rhs.price = env.priceKey lhs.price ∧ rhs.offerID ≤ lhs.offerID := by
  simp only [isBetterOffer, Bool.or_eq_false_iff, Bool.and_eq_false_iff, decide_eq_false_iff_not]
  omega

theorem isBetterOffer_trans {o₁ o₂ o₃ : OfferEntry} (h : isBetterOffer env o₁ o₂ = false)
    (h' : isBetterOffer env o₂ o₃ = false) : isBetterOffer env o₁ o₃ = false := by
  rw [isBetterOffer_eq_false] at *
  omega

theorem isBetterOffer_self (offer : OfferEntry) : isBetterOffer env offer offer = false :=
  isBetterOffer_eq_false.2 (Or.inr ⟨rfl, le_rfl⟩)

theorem betterOffer_spec (env : Env) (best : Option OfferEntry) (offer : OfferEntry) :
    ∃ b, betterOffer env best offer = some b ∧ (b = offer ∨ best = some b) ∧
      isBetterOffer env offer b = false ∧
      ∀ old, best = some old → isBetterOffer env old b = false := by
  cases best with
  | none => exact ⟨offer, rfl, Or.inl rfl, isBetterOffer_self offer, fun _ h => by cases h⟩
  | some old =>
    rw [betterOffer]
    cases hbetter : isBetterOffer env offer old with
    | true =>
      refine ⟨offer, if_pos rfl, Or.inl rfl, isBetterOffer_self offer, ?_⟩
      rintro _ ⟨⟩
      simp only [isBetterOffer, Bool.or_eq_true, Bool.and_eq_true, decide_eq_true_eq] at hbetter
      rw [isBetterOffer_eq_false]
      omega
    | false =>
      refine ⟨old, if_neg Bool.false_ne_true, Or.inr rfl, hbetter, ?_⟩
      rintro _ ⟨⟩
      exact isBetterOffer_self old

/-- None of a list of offers is better than the best one. -/
theorem foldl_betterOffer (env : Env) (offers : List OfferEntry) (best : Option OfferEntry) :
    (offers.foldl (betterOffer env) best = none → offers = []) ∧
    ∀ b, offers.foldl (betterOffer env) best = some b → (b ∈ offers ∨ best = some b) ∧
      (∀ offer ∈ offers, isBetterOffer env offer b = false) ∧
      ∀ old, best = some old → isBetterOffer env old b = false := by
  induction offers generalizing best with
  | nil =>
    refine ⟨fun _ => rfl, fun b hb => ⟨Or.inr hb, fun _ h => (not_mem_nil h).elim, ?_⟩⟩
    rintro old hold
    cases hb.symm.trans hold
    exact isBetterOffer_self b
  | cons offer offers ih =>
    obtain ⟨x, hx, horigin, hnot, hnot'⟩ := betterOffer_spec env best offer
    rw [foldl_cons, hx]
    obtain ⟨hnone, hsome⟩ := ih (some x)
    refine ⟨fun h => ?_, fun b hb => ?_⟩
    · rw [hnone h] at h
      cases h
    · obtain ⟨hmem, hall, hold⟩ := hsome b hb
      have hbx := hold x rfl
      refine ⟨?_, ?_, fun old h => isBetterOffer_trans (hnot' old h) hbx⟩
      · rcases hmem with hmem | heq
        · exact Or.inl (mem_cons_of_mem offer hmem)
        · cases heq
          rcases horigin with rfl | hbest
          · exact Or.inl mem_cons_self
          · exact Or.inr hbest
      · intro o ho
        rcases mem_cons.1 ho with rfl | ho
        · exact isBetterOffer_trans hnot hbx
        · exact hall o ho

/-- The offers that sell wheat for sheep. -/
def Offers (s : LedgerState) (sheep wheat : Asset) (offer : OfferEntry) : Prop :=
  s.offers.lookup (offer.sellerID, offer.offerID) = some offer ∧ offer.buying = sheep ∧
    offer.selling = wheat

theorem mem_candidates :
    offer ∈ s.offers.values.filter (fun o => o.buying = sheep ∧ o.selling = wheat) ↔
      Offers s sheep wheat offer := by
  simp only [mem_filter, Table.mem_values, decide_eq_true_eq, key_offer, Offers]

theorem getBestOffer_eq_none (h : getBestOffer env sheep wheat s = none) (offer : OfferEntry) :
    ¬ Offers s sheep wheat offer := by
  intro hoffer
  have hnil := (foldl_betterOffer env _ none).1 h
  rw [← mem_candidates, hnil] at hoffer
  cases hoffer

/-- No offer is better than the best one. -/
theorem isBetterOffer_getBestOffer {best offer : OfferEntry}
    (h : getBestOffer env sheep wheat s = some best) (hoffer : Offers s sheep wheat offer) :
    isBetterOffer env offer best = false :=
  ((foldl_betterOffer env _ none).2 best h).2.1 offer (mem_candidates.2 hoffer)

theorem getBestOffer_eq_some {best : OfferEntry} (h : getBestOffer env sheep wheat s = some best) :
    Offers s sheep wheat best ∧ ∀ offer, Offers s sheep wheat offer →
      env.priceKey best.price ≤ env.priceKey offer.price := by
  refine ⟨?_, fun offer hoffer => ?_⟩
  · rcases ((foldl_betterOffer env _ none).2 best h).1 with hmem | hnone
    · exact mem_candidates.1 hmem
    · cases hnone
  · rcases isBetterOffer_eq_false.1 (isBetterOffer_getBestOffer h hoffer) with hlt | ⟨heq, -⟩
    · exact hlt.le
    · exact heq.le

/-- What a turn of the loop did. -/
inductive Turned (env : Env) (sheep wheat : Asset) (filter : OfferFilter) (isPathPayment : Bool)
    (maxSheepSend maxWheatReceive : Int) (s t : LedgerState) : Turn → Prop
  | noOffer (same : t = s) (best : getBestOffer env sheep wheat s = none) :
      Turned env sheep wheat filter isPathPayment maxSheepSend maxWheatReceive s t .noOffer
  | stopped {offer : OfferEntry} {reason : StopReason} (same : t = s)
      (best : getBestOffer env sheep wheat s = some offer)
      (stop : filter offer = .ok (some reason)) :
      Turned env sheep wheat filter isPathPayment maxSheepSend maxWheatReceive s t
        (.stopped reason)
  | crossed {offer : OfferEntry} {result : CrossedOffer} (thinned : Thinned s t)
      (best : getBestOffer env sheep wheat s = some offer) (passed : filter offer = .ok none)
      (crossed : Crossed offer maxWheatReceive maxSheepSend isPathPayment result)
      (sent_le : result.numSheepSend ≤ maxSheepSend) :
      Turned env sheep wheat filter isPathPayment maxSheepSend maxWheatReceive s t
        (.crossed result)

/-- The turn crosses the best offer, if it crosses one. -/
def Turn.Runs (env : Env) (sheep wheat : Asset) (s t : LedgerState) : Turn → Prop
  | .crossed result => ∀ offer, getBestOffer env sheep wheat s = some offer →
      CrossingRun offer result s t
  | _ => True

theorem wp_crossBestOffer :
    wp (crossBestOffer env sheep wheat filter isPathPayment maxSheepSend maxWheatReceive)
      (fun turn t => Turned env sheep wheat filter isPathPayment maxSheepSend maxWheatReceive s t
        turn ∧ turn.Runs env sheep wheat s t)
      (fun e t => t = s ∧ ((∀ offer, filter offer ≠ .error .outOfFuel) → e ≠ .outOfFuel)) s := by
  refine wp_nested.2 (wp_bind.2 ((wp_get).2 ?_))
  cases hbest : getBestOffer env sheep wheat s with
  | none => exact wp_pure.2 ⟨.noOffer rfl hbest, trivial⟩
  | some offer =>
    refine wp_bind.2 (wp_runExcept.2 ⟨fun stop hstop => ?_, fun e he => ⟨rfl, fun h heq => ?_⟩⟩)
    · cases stop with
      | some reason => exact wp_pure.2 ⟨.stopped rfl hbest hstop, trivial⟩
      | none =>
        refine wp_mono (wp_seq wp_crossOfferV10 ?_) (fun _ _ h => h) fun _ _ h =>
          ⟨rfl, fun _ => h⟩
        rintro crossed t ⟨hruns, hcrossed⟩
        have hthinned := hruns.settles.thinned (getBestOffer_eq_some hbest).1.1
        refine (steady_ensure (by decide)).wp_reads fun _ => ?_
        refine wp_guard (by decide) fun hle => ?_
        refine (steady_ensure (by decide)).wp_reads fun _ => ?_
        refine (steady_ensure (by decide)).wp_reads fun _ => ?_
        refine wp_pure.2
          ⟨.crossed hthinned hbest hstop hcrossed (of_decide_eq_true hle), fun offer' hbest' => ?_⟩
        cases hbest.symm.trans hbest'
        exact hruns
    · exact h offer (heq ▸ he)

/-- The atom of a trade with an offer of the book that the filter lets pass. The amount of the
offer may have changed since. -/
structure Trade (sheep wheat : Asset) (filter : OfferFilter) (isPathPayment : Bool)
    (s : LedgerState) (atom : ClaimOfferAtom) : Prop where
  maker : ∃ old offer : OfferEntry, s.offers.lookup (atom.sellerID, atom.offerID) = some old ∧
    offer = { old with amount := offer.amount } ∧ old.buying = sheep ∧ old.selling = wheat ∧
    filter offer = .ok none ∧
    ∃ maxWheatSend maxWheatReceive maxSheepSend maxSheepReceive wheatStays,
      exchangeV10 old.price maxWheatSend maxWheatReceive maxSheepSend maxSheepReceive
        isPathPayment = .ok ⟨atom.amountSold, atom.amountBought, wheatStays⟩
  assetSold : atom.assetSold = wheat
  assetBought : atom.assetBought = sheep

theorem Trade.mono {atom : ClaimOfferAtom}
    (h : Trade sheep wheat filter isPathPayment t atom) (hthinned : Thinned s t) :
    Trade sheep wheat filter isPathPayment s atom := by
  obtain ⟨⟨old, offer, hold, heq, hbuying, hselling, hpassed, hexchange⟩, hsold, hbought⟩ := h
  obtain ⟨older, holder, heq'⟩ := hthinned _ _ hold
  rw [heq'] at heq hbuying hselling hexchange
  exact ⟨⟨older, offer, holder, heq, hbuying, hselling, hpassed, hexchange⟩, hsold, hbought⟩

theorem Crossed.trade {crossed : CrossedOffer}
    (h : Crossed offer maxWheatReceive maxSheepSend isPathPayment crossed)
    (hoffer : Offers s sheep wheat offer) (hpassed : filter offer = .ok none) :
    Trade sheep wheat filter isPathPayment s crossed.atom := by
  obtain ⟨hlookup, hbuying, hselling⟩ := hoffer
  obtain ⟨maxWheatSend, maxSheepReceive, hexchange⟩ := h.exchange
  rw [h.atom]
  exact ⟨⟨offer, offer, hlookup, rfl, hbuying, hselling, hpassed, _, _, _, _, _, hexchange⟩,
    hselling, hbuying⟩

/-- The totals of a conversion that started in `s₀` with `sendMax` to send. -/
structure Progress (sheep wheat : Asset) (filter : OfferFilter) (isPathPayment : Bool)
    (sendMax : Int) (s₀ s : LedgerState) (total : Conversion) : Prop where
  thinned : Thinned s₀ s
  trades : ∀ atom ∈ total.offerTrail, Trade sheep wheat filter isPathPayment s₀ atom
  sent : total.sheepSend = (total.offerTrail.map ClaimOfferAtom.amountBought).sum
  received : total.wheatReceived = (total.offerTrail.map ClaimOfferAtom.amountSold).sum
  sent_le : total.sheepSend ≤ sendMax

variable {sendMax : Int} {s₀ : LedgerState} {total : Conversion}

theorem Progress.start (h : 0 ≤ sendMax) :
    Progress sheep wheat filter isPathPayment sendMax s s {} :=
  ⟨refl_of Thinned s, fun _ h => (not_mem_nil h).elim, rfl, rfl, h⟩

theorem Progress.end (h : Progress sheep wheat filter isPathPayment sendMax s₀ s total)
    (result : ConvertResult) : Progress sheep wheat filter isPathPayment sendMax s₀ s
      { total with result := result } :=
  ⟨h.thinned, h.trades, h.sent, h.received, h.sent_le⟩

/-- An offer that is crossed adds to the totals. -/
theorem Progress.add {maxWheatReceive : Int}
    (h : Progress sheep wheat filter isPathPayment sendMax s₀ s total) (hthinned : Thinned s t)
    (hoffer : Offers s sheep wheat offer) (hpassed : filter offer = .ok none)
    (hcrossed : Crossed offer maxWheatReceive (sendMax - total.sheepSend) isPathPayment crossed)
    (hle : crossed.numSheepSend ≤ sendMax - total.sheepSend) :
    Progress sheep wheat filter isPathPayment sendMax s₀ t (total.add crossed) where
  thinned := trans_of Thinned h.thinned hthinned
  trades := by
    intro atom hatom
    rcases mem_append.1 hatom with hatom | hatom
    · exact h.trades atom hatom
    · cases mem_singleton.1 hatom
      exact (hcrossed.trade hoffer hpassed).mono h.thinned
  sent := by
    simp only [Conversion.add, map_append, sum_append, map_cons, map_nil,
      sum_singleton, h.sent, hcrossed.atom]
  received := by
    simp only [Conversion.add, map_append, sum_append, map_cons, map_nil,
      sum_singleton, h.received, hcrossed.atom]
  sent_le := by
    simp only [Conversion.add]
    omega

/-- Why a conversion has ended. -/
def Ended (env : Env) (sheep wheat : Asset) (filter : OfferFilter) (s : LedgerState) :
    ConvertResult → Prop
  | .eOK => True
  | .ePartial => getBestOffer env sheep wheat s = none
  | .eFilterStop reason => ∃ offer, getBestOffer env sheep wheat s = some offer ∧
      filter offer = .ok (some reason)

/-- The loop ends with its limits reached, with the book empty, or at an offer that the filter
does not let pass. -/
theorem wp_convertLoop (env : Env) (fuel : Nat) (total : Conversion) (maxWheatReceive : Int)
    (h : Progress sheep wheat filter isPathPayment sendMax s₀ s total) :
    wp (convertLoop env sheep wheat filter isPathPayment fuel (sendMax - total.sheepSend)
        maxWheatReceive total)
      (fun r t => Progress sheep wheat filter isPathPayment sendMax s₀ t r ∧
        Ended env sheep wheat filter t r.result)
      (fun _ => Thinned s₀) s := by
  induction fuel generalizing s total maxWheatReceive with
  | zero => exact wp_throw.2 h.thinned
  | succ fuel ih =>
    refine wp_bind.2 (wp_mono wp_crossBestOffer ?_ ?_)
    · rintro turn t ⟨hturn, -⟩
      cases hturn with
      | noOffer hsame hbest =>
        cases hsame
        exact wp_pure.2 ⟨h.end _, hbest⟩
      | stopped hsame hbest hstop =>
        cases hsame
        exact wp_pure.2 ⟨h.end _, _, hbest, hstop⟩
      | @crossed offer crossed hthinned hbest hpassed hcrossed hle =>
        have hadd := h.add hthinned (getBestOffer_eq_some hbest).1 hpassed hcrossed hle
        refine wp_unless ⟨hadd.end _, trivial⟩ fun hmore => ?_
        -- an offer of which nothing stays was taken
        have htaken : crossed.result = .eOfferTaken := by
          refine hcrossed.taken ?_
          cases hstays : crossed.wheatStays with
          | false => rfl
          | true => simp [hstays] at hmore
        refine wp_ite.2 ⟨fun hpartial => ?_, fun _ => ?_⟩
        · rw [htaken] at hpartial
          cases hpartial
        · have hrest : sendMax - total.sheepSend - crossed.numSheepSend =
              sendMax - (total.add crossed).sheepSend := by
            simp only [Conversion.add]
            omega
          rw [hrest]
          exact ih _ _ hadd
    · rintro _ _ ⟨rfl, -⟩
      exact h.thinned

theorem wp_convertWithOffers :
    wp (convertWithOffers env sheep maxSheepSend wheat maxWheatReceive isPathPayment filter)
      (fun r t => Progress sheep wheat filter isPathPayment (max maxSheepSend 0) s t r ∧
        Ended env sheep wheat filter t r.result)
      (fun _ => Thinned s) s := by
  have hstart : Progress sheep wheat filter isPathPayment (max maxSheepSend 0) s s {} :=
    Progress.start (le_max_right _ _)
  refine wp_get_bind.2 (wp_ite.2 ⟨fun hpos => ?_, fun _ => ?_⟩)
  · have hloop := wp_convertLoop env (s.offers.values.length + 1) {} maxWheatReceive hstart
    have hmax : max maxSheepSend 0 - ({} : Conversion).sheepSend = maxSheepSend :=
      (Int.sub_zero _).trans (max_eq_left hpos.2.le)
    rwa [hmax] at hloop
  · exact wp_pure.2 ⟨hstart, trivial⟩

/-- The best offer depends on the offers only. -/
theorem SameOffers.getBestOffer_eq (h : SameOffers s t) :
    getBestOffer env sheep wheat t = getBestOffer env sheep wheat s := by
  rw [getBestOffer, h]
  rfl

end Converting

end SpnCore.Ledger
