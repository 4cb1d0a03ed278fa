import SpnCore.Transactions.Writes

/-!
# The writes of operations and transactions

Every operation that passed its check writes in the listed ways, and puts at most one offer into
the book (`Operated`). A transaction does so once for each of its operations (`Operates`), and
charging its fee and preparing it only write.
-/

namespace SpnCore.Ledger

open Lib Option

/-! ### Accounts -/

/-- The balance of an account was changed, or nothing was. -/
inductive BalanceAdded (accountID : AccountID) (delta : Int) (s : LedgerState) : LedgerState → Prop
  | refused : BalanceAdded accountID delta s s
  | added {acc : AccountEntry} (stored : s.accounts.lookup accountID = some acc)
      (can : acc.CanAdd s.header delta) : BalanceAdded accountID delta s
        (s.putAccount { acc with balance := acc.balance + delta })

namespace BalanceAdded

variable {accountID : AccountID} {delta : Int} {s t : LedgerState}

theorem within (accountID : AccountID) (delta : Int) :
    Within (BalanceAdded accountID delta) (addAccountBalance accountID delta) := by
  intro s
  refine wp_updateAccount (fun _ => .refused) (fun _ _ _ _ => .refused) (fun _ _ _ => .refused) ?_
  intro acc acc' hacc hrun
  obtain ⟨rfl, hcan⟩ := AccountEntry.addBalance_some hrun
  exact .added hacc hcan

theorem written (h : BalanceAdded accountID delta s t) : Written s t := by
  cases h with
  | refused => exact .refl
  | added stored can =>
    rw [← account_of_lookup stored] at stored
    exact .single (.account stored (.balance can))

theorem header (h : BalanceAdded accountID delta s t) : t.header = s.header := by
  cases h with
  | refused => rfl
  | added => rfl

theorem lookup_of_ne (h : BalanceAdded accountID delta s t) {a : AccountID} (hne : a ≠ accountID) :
    t.accounts.lookup a = s.accounts.lookup a := by
  cases h with
  | refused => rfl
  | added stored can =>
    refine Table.lookup_upsert_of_ne ?_
    rw [key_account, account_of_lookup stored]
    exact hne

end BalanceAdded

variable {source : AccountID} {env : Env} {checker : SignatureChecker} {tx : Transaction}

theorem CreateAccountOp.written_doApply {op : CreateAccountOp}
    (hvalid : op.doCheckValid source = none) : Within Written (doApply source op) := by
  unfold doCheckValid at hvalid
  split_ifs at hvalid with hpos hne
  intro s
  refine wp_bind.2 (wp_accountExists.2 ?_)
  refine wp_unless .refl fun habsent => ?_
  refine wp_bind.2 (wp_loadHeader.2 ?_)
  refine wp_bind.2 (wp_runExcept.2 ⟨fun minBalance _ => ?_, fun _ _ => .refl⟩)
  refine wp_unless .refl fun _ => ?_
  refine (steady_activeAccount (R := Eq)).1.wp_bind (fun _ _ h => h ▸ .refl) ?_
  rintro sourceAccount _ rfl
  refine wp_bind.2 (wp_runExcept.2 ⟨fun available _ => ?_, fun _ _ => .refl⟩)
  refine wp_unless .refl fun _ => ?_
  refine (BalanceAdded.within _ _).wp_bind (fun _ _ h => h.written) fun removed t ht => ?_
  refine (within_ensure (R := Eq)).wp_bind (fun _ _ h => h ▸ ht.written) ?_
  rintro - _ rfl
  refine wp_bind.2 ((wp_putAccount _).2 (wp_pure.2 (ht.written.tail ?_)))
  rw [← ht.header]
  refine .createAccount ?_ (not_le.1 hpos)
  rw [ht.lookup_of_ne hne]
  simpa using habsent

/-- An account is merged only if its sequence number is below the next starting one. -/
theorem AccountMerge.written_doApply {source destination : AccountID}
    (hvalid : doCheckValid source destination = none) :
    Within Written (doApply source destination) := by
  unfold doCheckValid at hvalid
  split_ifs at hvalid with hne
  intro s
  refine wp_bind.2 (wp_loadHeader.2 (wp_bind.2 (wp_accountExists.2 ?_)))
  refine wp_unless .refl fun _ => ?_
  refine wp_bind.2 (wp_activeAccount.2 ⟨fun acc hacc => ?_, fun _ => .refl⟩)
  refine wp_unless .refl fun _ => ?_
  refine wp_unless .refl fun _ => ?_
  refine wp_unless .refl fun hlt => ?_
  refine (BalanceAdded.within _ _).wp_bind (fun _ _ h => h.written) fun added t ht => ?_
  refine wp_unless ht.written fun _ => ?_
  refine wp_bind.2 (wp_eraseAccount.2 (wp_pure.2 (ht.written.tail ?_)))
  obtain rfl : acc.accountID = source := account_of_lookup hacc
  refine .eraseAccount ?_ ?_
  · rw [ht.lookup_of_ne hne]
    exact hacc
  · rw [ht.header]
    exact not_le.1 hlt

theorem SetOptionsOp.written_doApply {op : SetOptionsOp} (hvalid : op.doCheckValid source = none) :
    Within Written (doApply source op) := by
  intro s
  refine wp_get_bind.2 (wp_bind.2 (wp_activeAccount.2 ⟨?_, fun _ => .refl⟩))
  intro acc hacc
  obtain rfl : acc.accountID = source := account_of_lookup hacc
  refine wp_unless .refl fun _ => ?_
  refine wp_bind.2 (wp_runExcept.2 ⟨fun r hr => ?_, fun _ _ => .refl⟩)
  refine wp_bind.2 ((wp_putAccount _).2 (wp_pure.2 (.single ?_)))
  exact .account hacc (.options hvalid hr)

theorem BumpSequence.written_doApply (source : AccountID) (bumpTo : Int) :
    Within Written (doApply source bumpTo) := by
  intro s
  refine wp_bind.2 (wp_activeAccount.2 ⟨fun acc hacc => ?_, fun _ => .refl⟩)
  obtain rfl : acc.accountID = source := account_of_lookup hacc
  refine wp_bind.2 (wp_onlyIf.2 ⟨fun hlt => ?_, fun _ => wp_pure.2 .refl⟩)
  refine (wp_putAccount _).2 (wp_pure.2 (.single (.account hacc (.seqNum ?_))))
  exact (of_decide_eq_true hlt).le

/-! ### Trust lines -/

namespace ChangeTrustOp

variable {source issuerID : AccountID} {op : ChangeTrustOp} {s : LedgerState}

theorem valid_of_doCheckValid (h : op.doCheckValid = none) :
    0 ≤ op.limit ∧ isAssetValid op.line = true ∧ op.line ≠ .native := by
  unfold doCheckValid at h
  split_ifs at h with hlimit hasset hnative
  exact ⟨not_lt.1 hlimit, by simpa using hasset, hnative⟩

theorem written_modifyLine {line : TrustLineEntry} (hvalid : op.doCheckValid = none)
    (hline : s.trustLines.lookup (source, op.line) = some line) :
    wp (modifyLine source issuerID op line) (fun _ => Written s) (fun _ => Written s) s := by
  obtain ⟨rfl, hasset⟩ := trustLine_of_lookup hline
  refine wp_bind.2 (wp_runExcept.2 ⟨fun minimum hminimum => ?_, fun _ _ => .refl⟩)
  refine wp_unless .refl fun hle => ?_
  refine wp_ite.2 ⟨fun _ => ?_, fun hne => ?_⟩
  · exact within_bind (within_modify fun s => .single (.eraseTrustLine _ _))
      (fun _ => within_bind written_addNumEntries fun _ => within_pure) s
  · refine wp_bind.2 (wp_accountExists.2 ?_)
    refine wp_unless .refl fun _ => ?_
    refine wp_bind.2 ((wp_putTrustLine _).2 (wp_pure.2 (.single ?_)))
    obtain ⟨rfl, -⟩ := int64_eq_ok.1 hminimum
    rw [← hasset] at hline
    exact .trustLine hline (.limit (lt_of_le_of_ne (valid_of_doCheckValid hvalid).1 (Ne.symm hne))
      (not_lt.1 hle))

theorem written_createLine (hvalid : op.doCheckValid = none) :
    Within Written (createLine source issuerID op) := by
  refine within_unless fun hne =>
    within_bind steady_loadAccount.1 fun issuer => ?_
  cases issuer with
  | none => exact within_pure
  | some issuer =>
    exact within_bind written_addNumEntries fun _ =>
      within_unless fun _ =>
      within_bind (within_modify fun s => .single (.createTrustLine hvalid hne)) fun _ =>
      within_pure

theorem written_doApply (hvalid : op.doCheckValid = none) :
    Within Written (doApply source op) := by
  refine within_bind ?_ fun issuerID => within_unless fun _ s => ?_
  · unfold getIssuer
    cases op.line.issuer? with
    | none => exact within_throw
    | some _ => exact within_pure
  · refine wp_get_bind.2 ?_
    cases hline : s.trustLines.lookup (source, op.line) with
    | some line => exact written_modifyLine hvalid hline
    | none => exact written_createLine hvalid s

end ChangeTrustOp

namespace AllowTrustOp

theorem written_deleteOffers {trustor : AccountID} {asset : Asset} {offers : List OfferEntry} :
    Within Written (deleteOffers trustor asset offers) := by
  induction offers with
  | nil => exact within_pure
  | cons offer offers ih =>
    exact within_bind within_ensure fun _ => within_bind within_ensure fun _ =>
      within_bind written_acquireOrRelease fun _ =>
      within_bind written_addNumEntries fun _ =>
      within_bind (within_modify fun s => .single (.eraseOffer _ _)) fun _ => ih

theorem written_doApply (source : AccountID) (op : AllowTrustOp) :
    Within Written (doApply source op) := by
  refine within_unless fun _ =>
    within_bind steady_activeAccount.1 fun sourceAccount => ?_
  cases op.checkIssuer sourceAccount with
  | some _ => exact within_pure
  | none =>
    refine within_bind within_get fun ls => ?_
    cases ls.trustLines.lookup (op.trustor, op.asset.asset source) with
    | none => exact within_pure
    | some trust =>
      refine within_bind (within_onlyIf written_deleteOffers) fun _ s => ?_
      refine wp_get_bind.2 (wp_bind.2 (wp_active.2 ⟨?_, fun _ => .refl⟩))
      intro line hline
      refine wp_bind.2 ((wp_putTrustLine _).2 (wp_pure.2 (.single ?_)))
      obtain ⟨hid, hasset⟩ := trustLine_of_lookup hline
      rw [← hid, ← hasset] at hline
      exact .trustLine hline (.authorization _)

end AllowTrustOp

/-! ### Inflation and data -/

namespace Inflation

theorem written_creditWinners {amountToDole totalVotes : Int} {winners : List InflationWinner}
    {dole : Dole} : Within Written (creditWinners amountToDole totalVotes winners dole) := by
  induction winners generalizing dole with
  | nil => exact within_pure
  | cons w winners ih =>
    exact within_bind steady_loadAccount.1 fun _ => within_bind within_runExcept fun _ =>
      within_ite (fun _ => ih) fun _ => within_bind within_runExcept fun _ =>
      within_bind written_addAccountBalance fun _ =>
      within_bind within_ensure fun _ => ih

/-- What is left of the dole goes back to the fee pool. -/
theorem written_finish (inflationAmount : Int) (dole : Dole) :
    Within Written (do
      let header' ← loadHeader
      let feePool ← runExcept (int64 (header'.feePool + dole.left))
      let totalCoins ← runExcept (int64 (header'.totalCoins + inflationAmount))
      putHeader { header' with feePool := feePool, totalCoins := totalCoins }
      return InflationResult.success dole.payouts : LedgerM InflationResult) := by
  intro s
  refine wp_bind.2 (wp_loadHeader.2 ?_)
  refine wp_bind.2 (wp_runExcept.2 ⟨fun feePool _ => ?_, fun _ _ => .refl⟩)
  refine wp_bind.2 (wp_runExcept.2 ⟨fun totalCoins _ => ?_, fun _ _ => .refl⟩)
  exact wp_bind.2 (wp_putHeader.2 (wp_pure.2 (.single (.header _ _ _))))

theorem written_doApply (env : Env) : Within Written (doApply env) := by
  intro s
  refine wp_get_bind.2 ?_
  refine wp_unless .refl fun _ => ?_
  refine wp_bind.2 (wp_runExcept.2 ⟨fun minBalance _ => ?_, fun _ _ => .refl⟩)
  refine wp_bind.2 (wp_runExcept.2 ⟨fun inflationAmount _ => ?_, fun _ _ => .refl⟩)
  refine wp_bind.2 (wp_runExcept.2 ⟨fun amountToDole _ => ?_, fun _ _ => .refl⟩)
  refine wp_bind.2 (wp_putHeader.2 ?_)
  have hhead := Write.header 0 s.header.totalCoins ((s.header.inflationSeq + 1) % 2 ^ 32) (s := s)
  exact (within_bind written_creditWinners fun dole => written_finish inflationAmount dole).after
    (.single hhead)

end Inflation

theorem ManageDataOp.written_doApply {op : ManageDataOp} (hvalid : op.doCheckValid = none) :
    Within Written (doApply source op) := by
  intro s
  refine wp_get_bind.2 ?_
  cases op.dataValue with
  | none =>
    cases s.data.lookup (source, op.dataName) with
    | none => exact wp_pure.2 .refl
    | some _ =>
      exact within_bind (within_modify fun s => .single (.eraseData _ _))
        (fun _ => within_bind written_addNumEntries fun _ => within_pure) s
  | some value =>
    cases hdata : s.data.lookup (source, op.dataName) with
    | none =>
      exact within_bind written_addNumEntries (fun _ =>
        within_unless fun _ =>
        within_bind (within_modify fun s => .single (.data hvalid rfl)) fun _ =>
        within_pure) s
    | some data =>
      obtain ⟨-, hname⟩ := data_of_lookup hdata
      exact within_bind (within_modify fun s => .single (.data hvalid hname))
        (fun _ => within_pure) s

/-! ### Offers -/

/-- What the check of the operation ensures about the offer it makes. -/
structure OfferEntry.Terms (offer : OfferEntry) : Prop where
  selling : isAssetValid offer.selling = true
  buying : isAssetValid offer.buying = true
  amount : 0 < offer.amount
  price : 0 < offer.price.n ∧ 0 < offer.price.d

/-- An offer enters the book: under the identifier of one that was there at the start, or under a
new one. -/
inductive Places (s u : LedgerState) : LedgerState → Prop
  | replaced {offer old : OfferEntry} (terms : offer.Terms)
      (stored : s.offers.lookup (offer.sellerID, offer.offerID) = some old)
      (flags : offer.flags = old.flags) : Places s u (u.putOffer offer)
  | created {offer : OfferEntry} (terms : offer.Terms)
      (flags : offer.flags = 0 ∨ offer.flags = passiveFlag)
      (offerID : offer.offerID = (u.header.idPool + 1) % 2 ^ 64) :
      Places s u ((u.putHeader { u.header with idPool := offer.offerID }).putOffer offer)

/-- What an operation does to the ledger. -/
inductive Operated (s : LedgerState) : LedgerState → Prop
  | written {t : LedgerState} (writes : Written s t) : Operated s t
  | placed {t u v : LedgerState} (before : Written s u) (place : Places s u v)
      (after : Written v t) : Operated s t

namespace ManageOfferOp

variable {env : Env} {source : AccountID} {passive : Bool} {op : ManageOfferOp}
  {s u : LedgerState} {newOffer : OfferEntry}

theorem written_settleTrades {r : Conversion} : Within Written (settleTrades source newOffer r) :=
  within_onlyIf (within_bind written_addHolding fun _ =>
    within_bind within_ensure fun _ =>
    within_bind written_addHolding fun _ => within_ensure)

theorem written_exchangeOffer {creatingNewOffer : Bool} :
    Within Written (exchangeOffer env source newOffer creatingNewOffer) := by
  refine within_bind within_rolledBack fun parameters => ?_
  cases parameters with
  | error _ => exact within_pure
  | ok limits =>
    refine within_unless fun _ =>
      within_bind written_convertWithOffers fun r => within_bind within_ensure fun _ =>
      within_unless fun _ =>
      within_bind written_settleTrades fun _ => within_bind ?_ fun _ => within_pure
    exact within_unless fun _ => steady_adjustOfferToLimits.1

theorem isAssetValid_of_doCheckValid (h : op.doCheckValid = none) :
    isAssetValid op.selling = true ∧ isAssetValid op.buying = true := by
  unfold doCheckValid at h
  split_ifs at h with hassets
  simpa using hassets

/-- Where the flags of the offer come from. -/
structure Flagged (s : LedgerState) (source : AccountID) (op : ManageOfferOp) (flags : Flags) :
    Prop where
  new : op.offerID = 0 → flags = 0 ∨ flags = passiveFlag
  old : op.offerID ≠ 0 → ∃ old, s.offers.lookup (source, op.offerID) = some old ∧
    flags = old.flags

theorem written_prepareOffer :
    wp (prepareOffer source passive op)
      (fun prepared t => Written s t ∧ ∀ offer, prepared = some offer →
        ∃ flags, offer = buildOffer source op flags ∧ Flagged s source op flags)
      (fun _ _ => True) s := by
  refine wp_ite.2 ⟨fun hzero => wp_pure.2 ⟨.refl, ?_⟩, fun hne => ?_⟩
  · rintro _ ⟨⟩
    refine ⟨_, rfl, fun _ => ?_, fun h => absurd hzero h⟩
    cases passive with
    | true => exact .inr rfl
    | false => exact .inl rfl
  · refine wp_get_bind.2 ?_
    cases hold : s.offers.lookup (source, op.offerID) with
    | none => exact wp_pure.2 ⟨.refl, fun _ h => by cases h⟩
    | some old =>
      refine written_acquireOrRelease.wp_bind (fun _ _ _ => trivial) fun _ t ht => ?_
      refine wp_bind.2 (wp_eraseOffer.2 (wp_pure.2 ⟨?_, ?_⟩))
      · exact ht.tail (.eraseOffer _ _)
      · rintro _ ⟨⟩
        exact ⟨_, rfl, fun h => absurd h hne, fun _ => ⟨old, hold, rfl⟩⟩

/-- The offers crossed only lower the amount of the offer. -/
theorem written_exchange (hvalid : op.doCheckValid = none) (flags : Flags)
    (creatingNewOffer : Bool) :
    wp (if 0 < op.amount then
          exchangeOffer env source (buildOffer source op flags) creatingNewOffer
        else pure (.ok ⟨buildOffer source op flags, []⟩))
      (fun exchanged t => Written s t ∧ ∀ executed, exchanged = .ok executed →
        executed.offer = { buildOffer source op flags with amount := executed.offer.amount })
      (fun _ _ => True) s := by
  have hwritten : Within Written (if 0 < op.amount then
      exchangeOffer env source (buildOffer source op flags) creatingNewOffer
      else pure (.ok ⟨buildOffer source op flags, []⟩)) :=
    within_ite (fun _ => written_exchangeOffer) fun _ => within_pure
  refine wp_mono (wp_and (hwritten s) (wp_exchange (valid_of_doCheckValid hvalid).1 flags
    creatingNewOffer)) ?_ fun _ _ _ => trivial
  rintro exchanged t ⟨hwritten, hexchanged⟩
  refine ⟨hwritten, ?_⟩
  rintro executed rfl
  exact Exchanged.rest hexchanged

/-- What remains of the offer enters the book. -/
theorem operated_placeOffer {flags : Flags} {executed : Executed} (hbefore : Written s u)
    (hvalid : op.doCheckValid = none) (hflags : Flagged s source op flags)
    (hrest : executed.offer = { buildOffer source op flags with amount := executed.offer.amount }) :
    wp (placeOffer source (decide (op.offerID = 0)) executed) (fun _ => Operated s)
      (fun _ _ => True) u := by
  have hterms : ∀ offerID, 0 < executed.offer.amount →
      ({ executed.offer with offerID := offerID } : OfferEntry).Terms := by
    intro offerID hpos
    obtain ⟨hselling, hbuying⟩ := isAssetValid_of_doCheckValid hvalid
    obtain ⟨-, hd, hn⟩ := valid_of_doCheckValid hvalid
    rw [hrest]
    exact ⟨hselling, hbuying, hpos, hn, hd⟩
  refine wp_ite.2 ⟨fun hpos => wp_ite.2 ⟨fun hnew => ?_, fun hold => ?_⟩, fun _ => ?_⟩
  · refine written_addNumEntries.wp_bind (fun _ _ _ => trivial) fun reserved v hv => ?_
    refine wp_unless (.written (hbefore.trans hv)) fun _ => ?_
    refine wp_bind.2 (wp_bind.2 (wp_loadHeader.2 (wp_bind.2
      (wp_putHeader.2 (wp_pure.2 (wp_bind.2 (wp_createOffer ?_)))))))
    refine written_acquireOrRelease.wp_bind (fun _ _ _ => trivial) fun _ t ht => ?_
    refine wp_pure.2 (.placed (hbefore.trans hv) (.created (hterms _ hpos) ?_ rfl) ht)
    have hflag := hflags.new (of_decide_eq_true hnew)
    rw [hrest]
    exact hflag
  · have hne : op.offerID ≠ 0 := of_decide_eq_false (Bool.eq_false_iff.2 hold)
    refine wp_bind.2 (wp_createOffer ?_)
    refine written_acquireOrRelease.wp_bind (fun _ _ _ => trivial) fun _ t ht => ?_
    obtain ⟨old, hlookup, hflag⟩ := hflags.old hne
    have hreplaced : Places s u (u.putOffer executed.offer) := by
      refine @Places.replaced s u executed.offer old (hterms executed.offer.offerID hpos) ?_ ?_
      · rw [hrest]
        exact hlookup
      · rw [hrest]
        exact hflag
    exact wp_pure.2 (.placed hbefore hreplaced ht)
  · refine (within_onlyIf (within_bind written_addNumEntries fun _ =>
      within_pure)).wp_bind (fun _ _ _ => trivial) fun _ t ht => wp_pure.2 ?_
    exact .written (hbefore.trans ht)

theorem operated_doApply (hvalid : op.doCheckValid = none) :
    wp (doApply env source passive op) (fun _ => Operated s) (fun _ t => t = s) s := by
  have hcommit : ∀ (result : ManageOfferResult) {t : LedgerState}, Operated s t →
      Operated s (if result.isSuccess then t else s) := by
    intro result t ht
    split
    · exact ht
    · exact .written .refl
  refine wp_nested.2 (wp_bind.2 ?_)
  refine wp_mono wp_checkOfferValid ?_ fun _ _ _ => rfl
  rintro invalid _ ⟨rfl, -⟩
  cases invalid with
  | some failure => exact wp_pure.2 (hcommit _ (.written .refl))
  | none =>
    refine wp_bind.2 (wp_mono written_prepareOffer ?_ fun _ _ _ => rfl)
    rintro prepared u ⟨hwritten, hprepared⟩
    cases prepared with
    | none => exact wp_pure.2 (hcommit _ (.written hwritten))
    | some newOffer =>
      obtain ⟨flags, rfl, hflags⟩ := hprepared newOffer rfl
      refine wp_ite_bind (wp_mono (written_exchange hvalid flags _) ?_ fun _ _ _ => rfl)
      rintro exchanged v ⟨hexchanged, hrest⟩
      cases exchanged with
      | error failure => exact wp_pure.2 (hcommit _ (.written (hwritten.trans hexchanged)))
      | ok executed =>
        refine wp_mono (operated_placeOffer (hwritten.trans hexchanged) hvalid hflags
          (hrest executed rfl)) ?_ fun _ _ _ => rfl
        intro result t ht
        exact hcommit result ht

end ManageOfferOp

/-! ### Operations -/

/-- An operation that passed its check and manages no offer only writes. -/
theorem OperationBody.written_doApply {body : OperationBody}
    (hvalid : body.doCheckValid source = none) (hmanaged : body.managedOffer = none) :
    Within Written (body.doApply env source) := by
  cases body with
  | createAccount op =>
    exact within_map (CreateAccountOp.written_doApply (map_eq_none_iff.1 hvalid))
  | payment op => exact within_map (op.written_doApply env source)
  | pathPayment op => exact within_map (op.written_doApply env source)
  | manageOffer op => cases hmanaged
  | createPassiveOffer op => cases hmanaged
  | setOptions op =>
    exact within_map (SetOptionsOp.written_doApply (map_eq_none_iff.1 hvalid))
  | changeTrust op =>
    exact within_map (ChangeTrustOp.written_doApply (map_eq_none_iff.1 hvalid))
  | allowTrust op => exact within_map (op.written_doApply source)
  | accountMerge destination =>
    exact within_map (AccountMerge.written_doApply (map_eq_none_iff.1 hvalid))
  | inflation => exact within_map (Inflation.written_doApply env)
  | manageData op =>
    exact within_map (ManageDataOp.written_doApply (map_eq_none_iff.1 hvalid))
  | bumpSequence bumpTo => exact within_map (BumpSequence.written_doApply source bumpTo)

/-- An operation that passed its check. -/
theorem OperationBody.operated_doApply {body : OperationBody}
    (hvalid : body.doCheckValid source = none) : Within Operated (body.doApply env source) := by
  cases hmanaged : body.managedOffer with
  | none => exact (written_doApply hvalid hmanaged).mono fun _ _ => .written
  | some offer =>
    obtain ⟨passive, hcheck, happly⟩ := managedOffer_cases hmanaged
    rw [hcheck, map_eq_none_iff] at hvalid
    rw [happly]
    refine within_map fun s => wp_mono (ManageOfferOp.operated_doApply hvalid)
      (fun _ _ h => h) fun _ t ht => ?_
    exact ht ▸ .written .refl

theorem Operation.operated_apply (env : Env) (txSource : AccountID) (op : Operation) :
    Within Operated (op.apply env txSource) := by
  intro s
  refine wp_bind.2 (wp_accountExists.2 ?_)
  refine wp_unless (.written .refl) fun _ => ?_
  cases hvalid : op.body.doCheckValid (op.getSourceID txSource) with
  | some failure => exact wp_pure.2 (.written .refl)
  | none => exact OperationBody.operated_doApply hvalid s

/-! ### Transactions -/

/-- At most `n` operations, with writes between them. -/
inductive Operates : Nat → LedgerState → LedgerState → Prop
  | done {n : Nat} {s : LedgerState} : Operates n s s
  | write {n : Nat} {s t u : LedgerState} (writes : Written s t) (rest : Operates n t u) :
      Operates n s u
  | operate {n : Nat} {s t u : LedgerState} (operation : Operated s t) (rest : Operates n t u) :
      Operates (n + 1) s u

namespace Transaction

/-- An account that is read and stored again. -/
theorem written_removeUsedOneTimeSignerKeysOf (accountID : AccountID) (keys : List SignerKey) :
    Within Written (removeUsedOneTimeSignerKeysOf accountID keys) := by
  intro s
  refine wp_bind.2 (wp_loadHeader.2 (wp_bind.2 (wp_loadAccount.2 ?_)))
  cases hacc : s.accounts.lookup accountID with
  | none => exact wp_pure.2 .refl
  | some acc =>
    obtain rfl : acc.accountID = accountID := account_of_lookup hacc
    refine wp_bind.2 (wp_runExcept.2 ⟨fun removed hremoved => ?_, fun _ _ => .refl⟩)
    cases removed with
    | none => exact wp_pure.2 .refl
    | some acc' =>
      exact (wp_putAccount _).2 (.single (.account hacc (.oneTimeSigners hremoved)))

theorem written_removeUsedOneTimeSignerKeys {keys : List (AccountID × List SignerKey)} :
    Within Written (removeUsedOneTimeSignerKeys keys) := by
  induction keys with
  | nil => exact within_pure
  | cons used keys ih =>
    exact within_bind (written_removeUsedOneTimeSignerKeysOf used.1 used.2) fun _ => ih

theorem within_commonValid {R : LedgerState → LedgerState → Prop} [IsPreorder LedgerState R]
    {current : Int} {applying : Bool} : Within R (tx.commonValid env checker current applying) := by
  refine within_bind ?_ fun failure => ?_
  · exact within_bind steady_loadHeader.1 fun _ => within_bind steady_accountExists.1 fun _ =>
      within_pure
  · cases failure with
    | some _ => exact within_pure
    | none =>
      exact within_bind steady_loadHeader.1 fun _ => within_bind steady_activeAccount.1 fun _ =>
        within_unless fun _ => within_unless fun _ =>
        within_bind within_runExcept fun _ => within_pure

theorem written_processSignatures {code : TransactionResultCode} :
    Within Written (tx.processSignatures env code checker) :=
  within_bind within_get fun _ => within_bind written_removeUsedOneTimeSignerKeys fun _ =>
    within_ite (fun _ => within_bind within_runExcept fun _ => within_pure) fun _ => within_pure

theorem written_processSeqNum (tx : Transaction) : Within Written tx.processSeqNum := by
  intro s
  refine wp_bind.2 (wp_activeAccount.2 ⟨fun acc hacc => ?_, fun _ => .refl⟩)
  rw [← account_of_lookup hacc] at hacc
  refine wp_guard .refl fun hle => ?_
  exact (wp_putAccount _).2 (.single (.account hacc (.seqNum (of_decide_eq_true hle))))

theorem written_prepare (env : Env) (tx : Transaction) : Within Written (tx.prepare env) := by
  refine within_nested (within_bind within_get fun _ =>
    within_bind within_commonValid fun cv =>
    within_bind (within_onlyIf (written_processSeqNum tx)) fun _ => ?_)
  refine within_ite (fun _ => ?_) fun _ => ?_
  · exact within_bind written_processSignatures fun _ =>
      within_bind within_get fun _ => within_pure
  · exact within_bind within_pure fun _ => within_bind within_get fun _ => within_pure

/-- The fee is at most the balance. -/
theorem written_processFeeSeqNum (tx : Transaction) : Within Written tx.processFeeSeqNum := by
  intro s
  refine wp_get_bind.2 ?_
  cases hacc : s.accounts.lookup tx.sourceAccount with
  | none => exact wp_throw.2 .refl
  | some acc =>
    refine wp_ite.2 ⟨fun hpos => ?_, fun _ => wp_pure.2 .refl⟩
    refine wp_bind.2 (wp_runExcept.2 ⟨fun balance hbalance => ?_, fun _ _ => .refl⟩)
    have hwrite : Write s (s.putAccount { acc with balance := balance.getD acc.balance }) := by
      rw [← account_of_lookup hacc] at hacc
      obtain ⟨⟨hnonneg, -⟩, rfl⟩ := addBalance_eq_ok.1 hbalance
      split
      · exact .account hacc (.fee (by omega) (min_le_left _ _))
      · have hnone := Write.account hacc (.fee le_rfl hnonneg)
        rwa [sub_zero] at hnone
    refine wp_bind.2 ((wp_putAccount _).2 ?_)
    refine wp_bind.2 (wp_runExcept.2 ⟨fun feePool _ => ?_, fun _ _ => .single hwrite⟩)
    refine wp_bind.2 (wp_putHeader.2 (wp_pure.2 ?_))
    exact (Relation.ReflTransGen.single hwrite).tail (.header _ _ _)

theorem operates_executeOperations (env : Env) (tx : Transaction) (ops : List Operation) :
    Within (Operates ops.length) (tx.executeOperations env ops) := by
  induction ops with
  | nil => exact fun s => wp_pure.2 .done
  | cons op ops ih =>
    intro s
    refine wp_get_bind.2 (wp_bind.2 (wp_nested.2 ?_))
    refine wp_mono (op.operated_apply env tx.sourceAccount s) ?_ fun _ _ _ => .done
    intro result t ht
    refine wp_get_bind.2 (wp_bind.2 (wp_mono (ih t) ?_ ?_))
    · exact fun _ u hu => wp_pure.2 (.operate ht hu)
    · exact fun _ u hu => .operate ht hu

/-- The part of `apply` after the transaction is prepared. -/
theorem operates_afterPrepare (env : Env) (tx : Transaction) (preparation : Preparation) :
    Within (Operates tx.operations.length)
      (if !preparation.valid then
        return ⟨false, preparation.code, preparation.results, ⟨preparation.txChanges, []⟩⟩
      else do
        let execution ← tx.applyOperations env
        return {
          success := execution.succeeds
          code := if execution.succeeds then .success else .failed
          results := execution.results.map some
          txMeta := ⟨preparation.txChanges, execution.changes⟩ } : LedgerM Application) := by
  intro s
  refine wp_unless .done fun _ => ?_
  refine wp_bind.2 (wp_bind.2 (wp_nested.2 ?_))
  refine wp_mono (tx.operates_executeOperations env tx.operations s) ?_ fun _ _ _ => .done
  intro execution u hu
  refine wp_pure.2 (wp_pure.2 ?_)
  split
  · exact hu
  · exact .done

theorem operates_apply (env : Env) (tx : Transaction) :
    Within (Operates tx.operations.length) (tx.apply env) := by
  intro s
  refine (tx.written_prepare env).wp_bind (fun _ _ h => .write h .done) fun preparation t ht => ?_
  exact wp_ends (tx.operates_afterPrepare env preparation t) fun _ => .write ht

end Transaction

end SpnCore.Ledger
