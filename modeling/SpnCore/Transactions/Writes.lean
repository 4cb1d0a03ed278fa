import SpnCore.Transactions.ManageOfferSpecs
import SpnCore.Transactions.SignerSpecs

/-!
# The writes of a transaction

Charging a fee and applying a transaction change the ledger one entry at a time, each time in one
of the ways listed here (`Write`), with what the program has checked before. What every write
keeps is kept by every transaction. Offers that an operation puts into the book are counted apart
(`Writes`), since only they take a new identifier.
-/

namespace SpnCore.Ledger

open Lib

/-! ### Writes -/

/-- The ways in which an account that exists is changed. -/
inductive AccountEntry.Write (header : LedgerHeader) (acc : AccountEntry) : AccountEntry → Prop
  | balance {delta : Int} (h : acc.CanAdd header delta) :
      acc.Write header { acc with balance := acc.balance + delta }
  /-- The fee is taken without regard to the reserve. -/
  | fee {fee : Int} (nonneg : 0 ≤ fee) (le : fee ≤ acc.balance) :
      acc.Write header { acc with balance := acc.balance - fee }
  | buying {acc' : AccountEntry} {delta : Int}
      (h : acc.Records acc' (acc.getBuyingLiabilities + delta) acc.getSellingLiabilities)
      (can : acc.CanBuy delta) : acc.Write header acc'
  | selling {acc' : AccountEntry} {delta : Int}
      (h : acc.Records acc' acc.getBuyingLiabilities (acc.getSellingLiabilities + delta))
      (can : acc.CanSell header delta) : acc.Write header acc'
  | subEntries {acc' : AccountEntry} {count : Int} (h : acc.Counts header count acc') :
      acc.Write header acc'
  | seqNum {seqNum : Int} (le : acc.seqNum ≤ seqNum) :
      acc.Write header { acc with seqNum := seqNum }
  | options {acc' : AccountEntry} {op : SetOptionsOp} {result : SetOptionsResult}
      (valid : op.doCheckValid acc.accountID = none)
      (h : op.changeAccount header acc = .ok (acc', result)) : acc.Write header acc'
  | oneTimeSigners {acc' : AccountEntry} {keys : List SignerKey}
      (h : Transaction.removeUsedKeys header keys acc = .ok (some acc')) :
      acc.Write header { acc' with signers := normalizeSigners acc'.signers }

/-- The ways in which a trust line that exists is changed. -/
inductive TrustLineEntry.Write (line : TrustLineEntry) : TrustLineEntry → Prop
  | balance {delta : Int} (h : line.CanAdd delta) :
      line.Write { line with balance := line.balance + delta }
  | buying {line' : TrustLineEntry} {delta : Int}
      (h : line.Records line' (line.getBuyingLiabilities + delta) line.getSellingLiabilities)
      (can : line.CanBuy delta) : line.Write line'
  | selling {line' : TrustLineEntry} {delta : Int}
      (h : line.Records line' line.getBuyingLiabilities (line.getSellingLiabilities + delta))
      (can : line.CanSell delta) : line.Write line'
  | limit {limit : Int} (pos : 0 < limit) (le : line.balance + line.getBuyingLiabilities ≤ limit) :
      line.Write { line with limit := limit }
  | authorization (authorize : Bool) : line.Write (line.setAuthorized authorize)

/-- The ways in which a ledger is changed, apart from putting offers into the book. -/
inductive Write : LedgerState → LedgerState → Prop
  | header {s : LedgerState} (feePool totalCoins : Int) (inflationSeq : Nat) :
      Write s (s.putHeader { s.header with
        feePool := feePool, totalCoins := totalCoins, inflationSeq := inflationSeq })
  | account {s : LedgerState} {acc acc' : AccountEntry}
      (stored : s.accounts.lookup acc.accountID = some acc) (h : acc.Write s.header acc') :
      Write s (s.putAccount acc')
  | createAccount {s : LedgerState} {op : CreateAccountOp}
      (absent : s.accounts.lookup op.destination = none) (pos : 0 < op.startingBalance) :
      Write s (s.putAccount (op.newAccount s.header))
  /-- An account that is merged could be created again with a higher sequence number. -/
  | eraseAccount {s : LedgerState} {acc : AccountEntry}
      (stored : s.accounts.lookup acc.accountID = some acc)
      (lt : acc.seqNum < getStartingSequenceNumber s.header) :
      Write s (s.eraseAccount acc.accountID)
  | trustLine {s : LedgerState} {line line' : TrustLineEntry}
      (stored : s.trustLines.lookup (line.accountID, line.asset) = some line)
      (h : line.Write line') : Write s (s.putTrustLine line')
  | createTrustLine {s : LedgerState} {source : AccountID} {op : ChangeTrustOp}
      {issuer : AccountEntry} (valid : op.doCheckValid = none) (limit : op.limit ≠ 0) :
      Write s (s.putTrustLine (op.newTrustLine source issuer))
  | eraseTrustLine {s : LedgerState} (accountID : AccountID) (asset : Asset) :
      Write s (s.eraseTrustLine accountID asset)
  | offer {s : LedgerState} {old : OfferEntry} {amount : Int}
      (stored : s.offers.lookup (old.sellerID, old.offerID) = some old) (pos : 0 < amount) :
      Write s (s.putOffer { old with amount := amount })
  | eraseOffer {s : LedgerState} (sellerID : AccountID) (offerID : Nat) :
      Write s (s.eraseOffer sellerID offerID)
  | data {s : LedgerState} {data : DataEntry} {op : ManageDataOp} (valid : op.doCheckValid = none)
      (name : data.dataName = op.dataName) : Write s (s.putData data)
  | eraseData {s : LedgerState} (accountID : AccountID) (dataName : Bytes) :
      Write s (s.eraseData accountID dataName)

/-- Any number of writes. -/
abbrev Written : LedgerState → LedgerState → Prop := Relation.ReflTransGen Write

instance : IsPreorder LedgerState Written where
  refl _ := .refl
  trans _ _ _ h h' := h.trans h'

variable {header : LedgerHeader} {acc acc' : AccountEntry} {delta : Int}
  {line line' : TrustLineEntry}

/-- An account keeps its identifier, and its sequence number does not decrease. -/
theorem AccountEntry.Write.accountID (h : acc.Write header acc') :
    acc'.accountID = acc.accountID ∧ acc.seqNum ≤ acc'.seqNum := by
  cases h with
  | balance => exact ⟨rfl, le_rfl⟩
  | fee => exact ⟨rfl, le_rfl⟩
  | buying h =>
    rw [h.frame]
    exact ⟨rfl, le_rfl⟩
  | selling h =>
    rw [h.frame]
    exact ⟨rfl, le_rfl⟩
  | subEntries h =>
    rw [h.frame]
    exact ⟨rfl, le_rfl⟩
  | seqNum le => exact ⟨rfl, le⟩
  | options _ h =>
    obtain ⟨acc₁, hfields, hresigned⟩ := SetOptionsOp.changeAccount_cases h
    obtain ⟨hid, hseq⟩ := hfields.accountID
    obtain ⟨hid', hseq'⟩ := hresigned.accountID
    exact ⟨hid'.trans hid, (hseq'.trans hseq).ge⟩
  | oneTimeSigners h =>
    obtain ⟨_, -, -, released, hreleased, rfl⟩ := Transaction.removeUsedKeys_cases h
    rw [hreleased.frame]
    exact ⟨rfl, le_rfl⟩

/-! ### Changing one entry -/

variable {accountID : AccountID} {asset : Asset} {delta : Int}

/-- An account is only written as it may be. -/
theorem written_updateAccount
    {f : LedgerHeader → AccountEntry → Except LedgerError (Option AccountEntry)}
    (hf : ∀ header acc acc', f header acc = .ok (some acc') → acc.Write header acc') :
    Within Written (updateAccount accountID f) := by
  intro s
  refine wp_updateAccount (fun _ => .refl) (fun _ _ _ _ => .refl) (fun _ _ _ => .refl) ?_
  intro acc acc' hacc hrun
  rw [← account_of_lookup hacc] at hacc
  exact .single (.account hacc (hf _ _ _ hrun))

theorem written_updateLine {f : TrustLineEntry → Except LedgerError (Option TrustLineEntry)}
    (hf : ∀ line line', f line = .ok (some line') → line.Write line') (line : TrustLineWrapper) :
    Within Written (line.update f) := by
  cases line with
  | inactive => exact within_throw
  | issuer => exact within_pure
  | nonIssuer accountID asset =>
    intro s
    refine wp_updateLine (fun _ => .refl) (fun _ _ _ _ => .refl) (fun _ _ _ => .refl) ?_
    intro line line' hline hrun
    obtain ⟨rfl, rfl⟩ := trustLine_of_lookup hline
    exact .single (.trustLine hline (hf _ _ hrun))

theorem AccountEntry.write_addBalance (h : acc.addBalance header delta = .ok (some acc')) :
    acc.Write header acc' := by
  obtain ⟨rfl, hcan⟩ := addBalance_some h
  exact .balance hcan

theorem AccountEntry.write_addNumEntries {count : Int}
    (h : acc.addNumEntries header count = .ok (some acc')) : acc.Write header acc' := by
  obtain ⟨_, heq, hcounts⟩ | ⟨heq, -⟩ := addNumEntries_cases h
  · cases heq
    exact .subEntries hcounts
  · cases heq

theorem AccountEntry.write_addBuyingLiabilities
    (h : acc.addBuyingLiabilities delta = .ok (some acc')) : acc.Write header acc' := by
  obtain ⟨hrecords, hcan⟩ := addBuyingLiabilities_some h
  exact .buying hrecords hcan

theorem AccountEntry.write_addSellingLiabilities
    (h : acc.addSellingLiabilities header delta = .ok (some acc')) : acc.Write header acc' := by
  obtain ⟨hrecords, hcan⟩ := addSellingLiabilities_some h
  exact .selling hrecords hcan

theorem TrustLineEntry.write_addBalance (h : line.addBalance delta = .ok (some line')) :
    line.Write line' := by
  obtain ⟨rfl, hcan⟩ := addBalance_some h
  exact .balance hcan

theorem TrustLineEntry.write_addBuyingLiabilities
    (h : line.addBuyingLiabilities delta = .ok (some line')) : line.Write line' := by
  obtain ⟨hrecords, hcan⟩ := addBuyingLiabilities_some h
  exact .buying hrecords hcan

theorem TrustLineEntry.write_addSellingLiabilities
    (h : line.addSellingLiabilities delta = .ok (some line')) : line.Write line' := by
  obtain ⟨hrecords, hcan⟩ := addSellingLiabilities_some h
  exact .selling hrecords hcan

theorem written_addAccountBalance : Within Written (addAccountBalance accountID delta) :=
  written_updateAccount fun _ _ _ => AccountEntry.write_addBalance

theorem written_addNumEntries {count : Int} : Within Written (addNumEntries accountID count) :=
  written_updateAccount fun _ _ _ => AccountEntry.write_addNumEntries

theorem written_addLineBalance {line : TrustLineWrapper} : Within Written (line.addBalance delta) :=
  written_updateLine (fun _ _ => TrustLineEntry.write_addBalance) _

theorem written_addHolding : Within Written (addHolding accountID asset delta) :=
  within_ite (fun _ => written_addAccountBalance) fun _ =>
    within_bind steady_loadTrustLine.1 fun _ => written_addLineBalance

theorem written_addBuyingLiabilities :
    Within Written (addBuyingLiabilities accountID asset delta) :=
  within_ite
    (fun _ => written_updateAccount fun _ _ _ => AccountEntry.write_addBuyingLiabilities) fun _ =>
    within_bind steady_loadTrustLine.1 fun _ =>
      written_updateLine (fun _ _ => TrustLineEntry.write_addBuyingLiabilities) _

theorem written_addSellingLiabilities :
    Within Written (addSellingLiabilities accountID asset delta) :=
  within_ite
    (fun _ => written_updateAccount fun _ _ _ => AccountEntry.write_addSellingLiabilities) fun _ =>
    within_bind steady_loadTrustLine.1 fun _ =>
      written_updateLine (fun _ _ => TrustLineEntry.write_addSellingLiabilities) _

theorem written_acquireOrRelease {offer : OfferEntry} {isAcquire : Bool} :
    Within Written (acquireOrReleaseLiabilities offer isAcquire) :=
  within_bind within_ensure fun _ => within_bind within_runExcept fun _ =>
    within_bind steady_validateHolding.1 fun _ =>
    within_bind written_addBuyingLiabilities fun _ =>
    within_bind within_ensure fun _ => within_bind within_runExcept fun _ =>
    within_bind steady_validateHolding.1 fun _ =>
    within_bind written_addSellingLiabilities fun _ => within_ensure

/-! ### Crossing offers -/

theorem written_tradeHoldings {offer : OfferEntry} {numWheatReceived numSheepSend : Int} :
    Within Written (tradeHoldings offer numWheatReceived numSheepSend) :=
  within_bind
    (within_onlyIf (within_bind written_addHolding fun _ => within_ensure)) fun _ =>
    within_onlyIf (within_bind written_addHolding fun _ => within_ensure)

section Crossing

variable {env : Env} {sheep wheat : Asset} {filter : OfferFilter} {isPathPayment : Bool}
  {maxWheatReceive maxSheepSend : Int} {s : LedgerState} {offer : OfferEntry}

theorem written_settleOffer {old : OfferEntry} (heq : offer = { old with amount := offer.amount })
    (hnonneg : 0 ≤ offer.amount)
    (hold : s.offers.lookup (old.sellerID, old.offerID) = some old) :
    wp (settleOffer offer) (fun _ => Written s) (fun _ => Written s) s := by
  refine wp_ite.2 ⟨fun _ => ?_, fun hne => ?_⟩
  · refine wp_bind.2 (wp_eraseOffer.2 ?_)
    exact (within_bind written_addNumEntries fun _ => within_pure).after (.single (.eraseOffer _ _))
  · have hwrite : Write s (s.putOffer offer) := by
      rw [heq]
      exact .offer hold (lt_of_le_of_ne hnonneg (Ne.symm hne))
    refine wp_bind.2 (wp_putOffer.2 ?_)
    exact (within_bind written_acquireOrRelease fun _ => within_pure).after (.single hwrite)

theorem CrossingRun.written {crossed : CrossedOffer} {t : LedgerState}
    (h : CrossingRun offer crossed s t)
    (hoffer : s.offers.lookup (offer.sellerID, offer.offerID) = some offer) : Written s t := by
  obtain ⟨-, hremaining, hnonneg, hrelease, htrade, hsettle⟩ := h
  have htraded : Written s _ :=
    (written_acquireOrRelease.of_ok hrelease).trans (written_tradeHoldings.of_ok htrade)
  -- the offer is still in the book as it was
  rw [← (sameOffers_traded hrelease htrade : _ = _)] at hoffer
  have hsettled := wp_ok (written_settleOffer hremaining hnonneg hoffer) hsettle
  exact htraded.trans hsettled

theorem written_crossBestOffer :
    Within Written
      (crossBestOffer env sheep wheat filter isPathPayment maxSheepSend maxWheatReceive) := by
  refine fun s => wp_mono wp_crossBestOffer ?_ fun _ _ h => h.1 ▸ .refl
  rintro turn t ⟨hturn, hruns⟩
  cases hturn with
  | noOffer hsame => exact hsame ▸ .refl
  | stopped hsame => exact hsame ▸ .refl
  | crossed _ hbest => exact (hruns _ hbest).written (getBestOffer_eq_some hbest).1.1

/-- Each turn of the loop writes as it may. -/
theorem written_convertLoop {fuel : Nat} {total : Conversion} :
    Within Written (convertLoop env sheep wheat filter isPathPayment fuel maxSheepSend
      maxWheatReceive total) := by
  induction fuel generalizing maxSheepSend maxWheatReceive total with
  | zero => exact within_throw
  | succ fuel ih =>
    refine within_bind written_crossBestOffer fun turn => ?_
    cases turn with
    | noOffer => exact within_pure
    | stopped _ => exact within_pure
    | crossed offer =>
      exact within_unless fun _ =>
        within_unless fun _ => ih

theorem written_convertWithOffers :
    Within Written
      (convertWithOffers env sheep maxSheepSend wheat maxWheatReceive isPathPayment filter) :=
  within_bind within_get fun _ =>
    within_ite (fun _ => written_convertLoop) fun _ => within_pure

end Crossing

/-! ### Payments -/

namespace PathPaymentOp

theorem written_creditDestination (op : PathPaymentOp) :
    Within Written (creditDestination op) := by
  refine within_bind steady_accountExists.1 fun _ => within_unless fun _ =>
    within_ite (fun _ => ?_) fun _ => ?_
  · exact within_bind written_addAccountBalance fun _ => within_pure
  · exact within_bind steady_issuerExists.1 fun _ => within_unless fun _ =>
      within_bind steady_loadTrustLine.1 fun _ => within_unless fun _ =>
      within_bind within_read fun _ => within_unless fun _ =>
      within_bind written_addLineBalance fun _ => within_pure

theorem written_convertLeg (env : Env) (source : AccountID) (curA : Asset) (leg : Leg) :
    Within Written (convertLeg env source curA leg) := by
  refine within_unless fun _ =>
    within_bind steady_issuerExists.1 fun _ => within_unless fun _ =>
    within_bind written_convertWithOffers fun r => within_bind within_ensure fun _ => ?_
  cases r.result with
  | eOK => exact within_pure
  | ePartial => exact within_pure
  | eFilterStop _ => exact within_pure

theorem written_convertPath (env : Env) (source : AccountID) (path : List Asset) (leg : Leg) :
    Within Written (convertPath env source path leg) := by
  induction path generalizing leg with
  | nil => exact within_pure
  | cons curA path ih =>
    refine within_bind (written_convertLeg env source curA leg) fun next => ?_
    cases next with
    | error _ => exact within_pure
    | ok leg' => exact ih leg'

theorem written_debitSource (source : AccountID) (op : PathPaymentOp) (leg : Leg) :
    Within Written (debitSource source op leg) := by
  refine within_unless fun _ => within_ite (fun _ => ?_) fun _ => ?_
  · refine within_bind steady_loadAccount.1 fun account => ?_
    cases account with
    | none => exact within_pure
    | some acc =>
      exact within_bind steady_loadHeader.1 fun _ => within_bind within_runExcept fun _ =>
        within_unless fun _ =>
        within_bind written_addAccountBalance fun _ =>
        within_bind within_ensure fun _ => within_pure
  · exact within_bind steady_issuerExists.1 fun _ => within_unless fun _ =>
      within_bind steady_loadTrustLine.1 fun _ => within_unless fun _ =>
      within_bind within_read fun _ => within_unless fun _ =>
      within_bind written_addLineBalance fun _ => within_pure

theorem written_doApply (env : Env) (source : AccountID) (op : PathPaymentOp) :
    Within Written (doApply env source op) := by
  refine within_bind (written_creditDestination op) fun credited => ?_
  cases credited with
  | error _ => exact within_pure
  | ok _ =>
    refine within_bind (written_convertPath env source _ _) fun converted => ?_
    cases converted with
    | error _ => exact within_pure
    | ok leg =>
      refine within_bind (written_debitSource source op leg) fun debited => ?_
      cases debited with
      | error _ => exact within_pure
      | ok _ => exact within_pure

end PathPaymentOp

theorem PaymentOp.written_doApply (env : Env) (source : AccountID) (op : PaymentOp) :
    Within Written (doApply env source op) := by
  refine within_unless fun _ => ?_
  cases op.toPathPayment.doCheckValid with
  | some _ => exact within_runExcept
  | none =>
    exact within_bind (PathPaymentOp.written_doApply env source _) fun _ => within_runExcept

end SpnCore.Ledger
