import SpnCore.Transactions.BookSpecs

/-!
# What managing an offer does

An operation that creates or changes an offer crosses the book first. What remains of the offer is
stored only if the book is empty or its best offer is too expensive.
-/

namespace SpnCore.Ledger

open Lib

theorem sameOffers_generateID : Within SameOffers generateID :=
  within_bind steady_loadHeader.1 fun _ => within_bind (within_modify fun _ => rfl) fun _ =>
    within_pure

namespace ManageOfferOp

variable {env : Env} {source : AccountID} {passive : Bool} {op : ManageOfferOp}
  {newOffer : OfferEntry} {s t : LedgerState}

theorem not_success_of_doCheckValid {failure : ManageOfferResult}
    (h : op.doCheckValid = some failure) : failure.isSuccess = false := by
  unfold doCheckValid at h
  split_ifs at h <;> cases h <;> rfl

theorem valid_of_doCheckValid (h : op.doCheckValid = none) :
    0 ≤ op.amount ∧ 0 < op.price.d ∧ 0 < op.price.n := by
  unfold doCheckValid at h
  split_ifs at h with _ _ hvalues
  simp only [not_or, not_lt, not_le] at hvalues
  exact hvalues

/-- A check that ends the operation fails it. -/
def OnlyFails (s : LedgerState) (invalid : Option ManageOfferResult) (t : LedgerState) : Prop :=
  t = s ∧ ∀ failure, invalid = some failure → failure.isSuccess = false

theorem wp_checkSelling {sheep : Asset} :
    wp (checkSelling source sheep) (OnlyFails s) (fun _ _ => True) s := by
  refine wp_unless ⟨rfl, by rintro _ ⟨⟩⟩ fun _ => ?_
  refine wp_reads steady_loadTrustLine.1 fun sheepLineA => ?_
  refine wp_reads steady_issuerExists.1 fun issuer => ?_
  refine wp_unless ⟨rfl, by rintro _ ⟨⟩; rfl⟩ fun _ => ?_
  refine wp_unless ⟨rfl, by rintro _ ⟨⟩; rfl⟩ fun _ => ?_
  refine wp_reads within_read fun balance => ?_
  refine wp_unless ⟨rfl, by rintro _ ⟨⟩; rfl⟩ fun _ => ?_
  refine wp_reads within_read fun authorized => ?_
  refine wp_pure.2 ⟨rfl, ?_⟩
  cases authorized <;> rintro _ ⟨⟩
  rfl

theorem wp_checkBuying {wheat : Asset} :
    wp (checkBuying source wheat) (OnlyFails s) (fun _ _ => True) s := by
  refine wp_unless ⟨rfl, by rintro _ ⟨⟩⟩ fun _ => ?_
  refine wp_reads steady_loadTrustLine.1 fun wheatLineA => ?_
  refine wp_reads steady_issuerExists.1 fun issuer => ?_
  refine wp_unless ⟨rfl, by rintro _ ⟨⟩; rfl⟩ fun _ => ?_
  refine wp_unless ⟨rfl, by rintro _ ⟨⟩; rfl⟩ fun _ => ?_
  refine wp_reads within_read fun authorized => ?_
  refine wp_pure.2 ⟨rfl, ?_⟩
  cases authorized <;> rintro _ ⟨⟩
  rfl

theorem wp_checkOfferValid {op : ManageOfferOp} :
    wp (checkOfferValid source op) (OnlyFails s) (fun _ _ => True) s := by
  refine wp_unless ⟨rfl, by rintro _ ⟨⟩⟩ fun _ => ?_
  refine wp_bind.2 (wp_mono wp_checkSelling ?_ fun _ _ _ => trivial)
  rintro invalid _ ⟨rfl, hfailure⟩
  cases invalid with
  | some failure => exact wp_pure.2 ⟨rfl, hfailure⟩
  | none => exact wp_checkBuying

/-- The offer to be made has the values of the operation. An old offer has left the book. -/
theorem wp_prepareOffer :
    wp (prepareOffer source passive op)
      (fun prepared t => Thinned s t ∧ ∀ offer, prepared = some offer →
        offer = buildOffer source op offer.flags) (fun _ => Thinned s) s := by
  refine wp_unless ⟨refl_of Thinned s, ?_⟩ fun _ => ?_
  · rintro _ ⟨⟩
    rfl
  · refine wp_get_bind.2 ?_
    cases s.offers.lookup (source, op.offerID) with
    | none => exact wp_pure.2 ⟨refl_of Thinned s, fun _ h => by cases h⟩
    | some old =>
      refine steady_acquireOrRelease.1.wp_bind (fun _ _ h => h.thinned) fun _ t ht => ?_
      refine wp_bind.2 (wp_eraseOffer.2 (wp_pure.2 ⟨?_, ?_⟩))
      · exact trans_of Thinned ht.thinned (thinned_eraseOffer t _ _)
      · rintro _ ⟨⟩
        rfl

/-- What a step that can end the operation returns: a failure, or what the next step needs. -/
def Outcome {α : Type} (ok : α → Prop) : Except ManageOfferResult α → Prop
  | .error failure => failure.isSuccess = false
  | .ok a => ok a

/-- No more is sent than the offer has. -/
theorem wp_computeOfferExchangeParameters {creatingNewOffer : Bool} :
    wp (computeOfferExchangeParameters source newOffer creatingNewOffer)
      (fun parameters t => t = s ∧
        Outcome (fun limits => limits.maxSheepSend ≤ newOffer.amount) parameters)
      (fun _ t => t = s) s := by
  refine wp_nested.2 (wp_ite_bind (wp_mono (wp_true _ _) ?_ fun _ _ _ => rfl))
  rintro reserved t -
  refine wp_unless ⟨rfl, rfl⟩ fun _ => ?_
  refine wp_bind_any (fun _ _ => rfl) fun maxWheatReceive t => ?_
  refine wp_bind_any (fun _ _ => rfl) fun limit t => ?_
  refine wp_bind_any (fun _ _ => rfl) fun buyingLiabilities t => ?_
  refine wp_unless ⟨rfl, rfl⟩ fun _ => ?_
  refine wp_bind_any (fun _ _ => rfl) fun balance t => ?_
  refine wp_bind_any (fun _ _ => rfl) fun sellingLiabilities t => ?_
  refine wp_unless ⟨rfl, rfl⟩ fun _ => ?_
  refine wp_bind_any (fun _ _ => rfl) fun sellable t => wp_pure.2 ⟨rfl, ?_⟩
  exact min_le_left newOffer.amount sellable

theorem sameOffers_settleTrades {r : Conversion} :
    Within SameOffers (settleTrades source newOffer r) :=
  within_onlyIf (within_bind steady_addHolding.1 fun _ =>
    within_bind within_ensure fun _ =>
    within_bind steady_addHolding.1 fun _ => within_ensure)

/-- The book holds no offer that the new one would cross. -/
def Blocked (env : Env) (source : AccountID) (newOffer : OfferEntry) (s : LedgerState) : Prop :=
  getBestOffer env newOffer.selling newOffer.buying s = none ∨
    ∃ best, getBestOffer env newOffer.selling newOffer.buying s = some best ∧
      filter source newOffer best = .ok (some .price)

/-- The trades of a new offer, and what is left of it. -/
structure Exchanged (env : Env) (source : AccountID) (newOffer : OfferEntry) (s t : LedgerState)
    (executed : Executed) : Prop where
  thinned : Thinned s t
  trades : ∀ atom ∈ executed.offersClaimed,
    Trade newOffer.selling newOffer.buying (filter source newOffer) false s atom
  rest : executed.offer = { newOffer with amount := executed.offer.amount }
  sold_le : (executed.offersClaimed.map ClaimOfferAtom.amountBought).sum ≤ newOffer.amount
  total_le : (executed.offersClaimed.map ClaimOfferAtom.amountBought).sum + executed.offer.amount ≤
    newOffer.amount
  blocked : 0 < executed.offer.amount → Blocked env source newOffer t

theorem Blocked.of_ended {u : LedgerState} {result : ConvertResult}
    (h : Ended env newOffer.selling newOffer.buying (filter source newOffer) u result)
    (hsame : SameOffers u t) (hok : result ≠ .eOK) (hself : result ≠ .eFilterStop .crossSelf) :
    Blocked env source newOffer t := by
  rw [Blocked, hsame.getBestOffer_eq]
  cases result with
  | eOK => exact absurd rfl hok
  | ePartial => exact Or.inl h
  | eFilterStop reason =>
    cases reason with
    | price => exact Or.inr h
    | crossSelf => exact absurd rfl hself

theorem wp_exchangeOffer (hamount : 0 ≤ newOffer.amount) (creatingNewOffer : Bool) :
    wp (exchangeOffer env source newOffer creatingNewOffer)
      (fun exchanged t => Outcome (Exchanged env source newOffer s t) exchanged)
      (fun _ _ => True) s := by
  refine wp_bind.2 (wp_mono wp_computeOfferExchangeParameters ?_ fun _ _ _ => trivial)
  rintro parameters _ ⟨rfl, hlimits⟩
  cases parameters with
  | error _ => exact wp_pure.2 hlimits
  | ok limits =>
    change limits.maxSheepSend ≤ newOffer.amount at hlimits
    refine wp_unless rfl fun _ => ?_
    refine wp_bind.2 (wp_mono wp_convertWithOffers ?_ fun _ _ _ => trivial)
    rintro r u ⟨hprogress, hended⟩
    have hle : r.sheepSend ≤ newOffer.amount := hprogress.sent_le.trans (max_le hlimits hamount)
    refine wp_reads within_ensure fun _ => ?_
    refine wp_unless rfl fun hself => ?_
    refine sameOffers_settleTrades.wp_bind (fun _ _ _ => trivial) fun _ v hsettled => ?_
    have hthinned : Thinned _ v := trans_of Thinned hprogress.thinned hsettled.thinned
    refine wp_bind.2 (wp_ite.2 ⟨fun _ => ?_, fun hok => ?_⟩)
    · refine wp_pure.2 (wp_pure.2
        ⟨hthinned, hprogress.trades, rfl, hprogress.sent ▸ hle, ?_, ?_⟩)
      · rw [← hprogress.sent]
        exact (add_zero _).trans_le hle
      · exact fun h => absurd h (lt_irrefl _)
    · refine wp_mono (wp_adjustOfferToLimits _) ?_ fun _ _ _ => trivial
      rintro unsold _ ⟨rfl, hunsold, -, hunsold_le⟩
      refine wp_pure.2 ⟨hthinned, hprogress.trades, hunsold, hprogress.sent ▸ hle, ?_,
        fun _ => Blocked.of_ended hended hsettled hok hself⟩
      rw [← hprogress.sent]
      simp only at hunsold_le ⊢
      omega

/-- What remains of an offer is stored, if anything does. -/
inductive Placed (s t : LedgerState) (offer : OfferEntry) : ManageOfferEffect → Prop
  | created (offerID : Nat) (pos : 0 < offer.amount)
      (same : SameOffers (s.putOffer { offer with offerID := offerID }) t) :
      Placed s t offer (.created { offer with offerID := offerID })
  | updated (pos : 0 < offer.amount) (same : SameOffers (s.putOffer offer) t) :
      Placed s t offer (.updated offer)
  | deleted (same : SameOffers s t) : Placed s t offer .deleted

theorem wp_createOffer {Q : Unit → LedgerState → Prop} {offer : OfferEntry}
    (h : Q () (s.putOffer offer)) : wp (createOffer offer) Q (fun _ _ => True) s := by
  refine wp_get_bind.2 ?_
  refine wp_reads within_ensure fun _ => ?_
  exact wp_putOffer.2 h

theorem sameOffers_putOffer (h : SameOffers s t) (offer : OfferEntry) :
    SameOffers (s.putOffer offer) (t.putOffer offer) := by
  rw [SameOffers, LedgerState.putOffer, h]
  rfl

theorem wp_placeOffer (creatingNewOffer : Bool) (executed : Executed) :
    wp (placeOffer source creatingNewOffer executed)
      (fun result t => ∀ claimed effect, result = .success claimed effect →
        claimed = executed.offersClaimed ∧ Placed s t executed.offer effect)
      (fun _ _ => True) s := by
  refine wp_ite.2 ⟨fun hpos => wp_ite.2 ⟨fun _ => ?_, fun _ => ?_⟩, fun _ => ?_⟩
  · refine steady_addNumEntries.1.wp_bind (fun _ _ _ => trivial) fun reserved u hu => ?_
    refine wp_unless (by rintro _ _ ⟨⟩) fun _ => ?_
    refine sameOffers_generateID.wp_bind (fun _ _ _ => trivial) fun offerID v hv => ?_
    refine wp_bind.2 (wp_createOffer ?_)
    refine steady_acquireOrRelease.1.wp_bind (fun _ _ _ => trivial) fun _ t ht => ?_
    refine wp_pure.2 ?_
    rintro _ _ ⟨⟩
    exact ⟨rfl, .created offerID hpos
      (trans_of SameOffers (sameOffers_putOffer (trans_of SameOffers hu hv) _) ht)⟩
  · refine wp_bind.2 (wp_createOffer ?_)
    refine steady_acquireOrRelease.1.wp_bind (fun _ _ _ => trivial) fun _ t ht => ?_
    refine wp_pure.2 ?_
    rintro _ _ ⟨⟩
    exact ⟨rfl, .updated hpos ht⟩
  · refine (within_onlyIf (within_bind steady_addNumEntries.1 fun _ =>
      within_pure)).wp_bind (fun _ _ _ => trivial) fun _ t ht => wp_pure.2 ?_
    rintro _ _ ⟨⟩
    exact ⟨rfl, .deleted ht⟩

/-- What a successful operation has done: it has taken its old offer out of the book, crossed
offers and stored what remains. -/
structure Managed (env : Env) (source : AccountID) (op : ManageOfferOp) (s t : LedgerState)
    (claimed : List ClaimOfferAtom) (effect : ManageOfferEffect) : Prop where
  steps : ∃ flags rest u v, Thinned s u ∧
    Exchanged env source (buildOffer source op flags) u v ⟨rest, claimed⟩ ∧ Placed v t rest effect

/-- Without an amount the offer is deleted and nothing is exchanged. -/
theorem Exchanged.none (h : newOffer.amount = 0) :
    Exchanged env source newOffer s s ⟨newOffer, []⟩ where
  thinned := refl_of Thinned s
  trades _ hatom := (List.not_mem_nil hatom).elim
  rest := rfl
  sold_le := h.ge
  total_le := (zero_add _).le
  blocked hpos := absurd h hpos.ne'

/-- A success has changed the ledger as it says, and a failure has not changed it. -/
structure Applied (env : Env) (source : AccountID) (op : ManageOfferOp) (s t : LedgerState)
    (result : ManageOfferResult) : Prop where
  managed : ∀ claimed effect, result = .success claimed effect →
    Managed env source op s t claimed effect
  failed : result.isSuccess = false → t = s

theorem Applied.committed {result : ManageOfferResult} (h : ∀ claimed effect, result = .success
      claimed effect → Managed env source op s t claimed effect) :
    Applied env source op s (if result.isSuccess then t else s) result := by
  refine ⟨?_, fun hfailed => by rw [hfailed]; rfl⟩
  rintro claimed effect rfl
  exact h claimed effect rfl

theorem Applied.rolledBack {failure : ManageOfferResult} (h : failure.isSuccess = false) :
    Applied env source op s (if failure.isSuccess then t else s) failure := by
  refine Applied.committed ?_
  rintro claimed effect rfl
  cases h

/-- What is exchanged, if the offer has an amount. -/
theorem wp_exchange (hamount : 0 ≤ op.amount) (flags : Flags) (creatingNewOffer : Bool) :
    wp (if 0 < op.amount then
          exchangeOffer env source (buildOffer source op flags) creatingNewOffer
        else pure (.ok ⟨buildOffer source op flags, []⟩))
      (fun exchanged t => Outcome (Exchanged env source (buildOffer source op flags) s t) exchanged)
      (fun _ _ => True) s := by
  refine wp_ite.2 ⟨fun _ => ?_, fun hpos => wp_pure.2 ?_⟩
  · exact wp_exchangeOffer hamount _
  · exact Exchanged.none (le_antisymm (not_lt.1 hpos) hamount)

theorem wp_doApply (hamount : 0 ≤ op.amount) :
    wp (doApply env source passive op) (fun result t => Applied env source op s t result)
      (fun _ t => t = s) s := by
  refine wp_nested.2 (wp_bind.2 ?_)
  refine wp_mono wp_checkOfferValid ?_ fun _ _ _ => rfl
  rintro invalid _ ⟨rfl, hinvalid⟩
  cases invalid with
  | some failure => exact wp_pure.2 (Applied.rolledBack (hinvalid failure rfl))
  | none =>
    refine wp_bind.2 (wp_mono wp_prepareOffer ?_ fun _ _ _ => rfl)
    rintro prepared u ⟨hthinned, hprepared⟩
    cases prepared with
    | none => exact wp_pure.2 (Applied.rolledBack rfl)
    | some newOffer =>
      obtain ⟨flags, rfl⟩ : ∃ flags, newOffer = buildOffer source op flags :=
        ⟨_, hprepared newOffer rfl⟩
      refine wp_ite_bind (wp_mono (wp_exchange hamount flags _) ?_ fun _ _ _ => rfl)
      intro exchanged v hexchanged
      cases exchanged with
      | error failure => exact wp_pure.2 (Applied.rolledBack hexchanged)
      | ok executed =>
        refine wp_mono (wp_placeOffer _ executed) ?_ fun _ _ _ => rfl
        intro result t hplaced
        refine Applied.committed fun claimed effect hresult => ?_
        obtain ⟨rfl, hplaced⟩ := hplaced claimed effect hresult
        exact ⟨flags, executed.offer, u, v, hthinned, hexchanged, hplaced⟩

end ManageOfferOp

/-- The offer that an operation manages. -/
def OperationBody.managedOffer : OperationBody → Option ManageOfferOp
  | .manageOffer op => some op
  | .createPassiveOffer op => some op.toManageOffer
  | _ => none

/-- Both operations manage an offer in the same way. -/
theorem OperationBody.managedOffer_cases {body : OperationBody} {offer : ManageOfferOp}
    (h : body.managedOffer = some offer) :
    ∃ passive, (∀ source, body.doCheckValid source = offer.doCheckValid.map .manageOffer) ∧
      ∀ env source,
        body.doApply env source = .manageOffer <$> offer.doApply env source passive := by
  cases body with
  | manageOffer op =>
    cases h
    exact ⟨false, fun _ => rfl, fun _ _ => rfl⟩
  | createPassiveOffer op =>
    cases h
    exact ⟨true, fun _ => rfl, fun _ _ => rfl⟩
  | _ => cases h

end SpnCore.Ledger
