import SpnCore.Transactions.TransactionFrame

/-!
# Rules for programs over the ledger

One rule for each of the primitives that read or change the ledger, in terms of the tables.
-/

namespace SpnCore.Ledger

open Lib

variable {s : LedgerState} {E : LedgerError → LedgerState → Prop}

variable {accountID : AccountID}

section Reading

variable {α : Type} {Q : Bool → LedgerState → Prop}

@[simp] theorem wp_loadHeader {Q : LedgerHeader → LedgerState → Prop} :
    wp loadHeader Q E s ↔ Q s.header s := by
  simp [loadHeader]

@[simp] theorem wp_loadAccount {Q : Option AccountEntry → LedgerState → Prop} :
    wp (loadAccount accountID) Q E s ↔ Q (s.accounts.lookup accountID) s := by
  simp [loadAccount]

@[simp] theorem wp_accountExists :
    wp (accountExists accountID) Q E s ↔ Q (s.accounts.lookup accountID).isSome s := by
  simp [accountExists]

@[simp] theorem wp_issuerExists {asset : Asset} :
    wp (issuerExists asset) Q E s ↔
      Q (asset.issuer?.all fun issuer => (s.accounts.lookup issuer).isSome) s := by
  unfold issuerExists
  cases asset.issuer? <;> simp

@[simp] theorem wp_active {entry : Option α} {Q : α → LedgerState → Prop} :
    wp (active entry) Q E s ↔
      (∀ e, entry = some e → Q e s) ∧ (entry = none → E .entryNotActive s) := by
  cases entry <;> simp [active]

@[simp] theorem wp_activeAccount {Q : AccountEntry → LedgerState → Prop} :
    wp (activeAccount accountID) Q E s ↔
      (∀ acc, s.accounts.lookup accountID = some acc → Q acc s) ∧
        (s.accounts.lookup accountID = none → E .entryNotActive s) := by
  simp [activeAccount]

end Reading

section Storing

variable {Q : Unit → LedgerState → Prop}

@[simp] theorem wp_putHeader {header : LedgerHeader} :
    wp (putHeader header) Q E s ↔ Q () (s.putHeader header) := by
  simp [putHeader]

@[simp] theorem wp_putAccount (acc : AccountEntry) :
    wp (putAccount acc) Q E s ↔ Q () (s.putAccount acc) := by
  simp [putAccount]

@[simp] theorem wp_putTrustLine (line : TrustLineEntry) :
    wp (putTrustLine line) Q E s ↔ Q () (s.putTrustLine line) := by
  simp [putTrustLine]

@[simp] theorem wp_putOffer {offer : OfferEntry} :
    wp (putOffer offer) Q E s ↔ Q () (s.putOffer offer) := by
  simp [putOffer]

@[simp] theorem wp_eraseAccount {accountID : AccountID} :
    wp (eraseAccount accountID) Q E s ↔ Q () (s.eraseAccount accountID) := by
  simp [eraseAccount]

@[simp] theorem wp_eraseOffer {sellerID : AccountID} {offerID : Nat} :
    wp (eraseOffer sellerID offerID) Q E s ↔ Q () (s.eraseOffer sellerID offerID) := by
  simp [eraseOffer]

end Storing

/-! ### Updates of one entry -/

section Updating

variable {Q : Bool → LedgerState → Prop}

/-- An update of an account runs the function on it. -/
theorem wp_updateAccount
    {f : LedgerHeader → AccountEntry → Except LedgerError (Option AccountEntry)}
    (hnone : s.accounts.lookup accountID = none → E .entryNotActive s)
    (herror : ∀ acc e, s.accounts.lookup accountID = some acc → f s.header acc = .error e → E e s)
    (hrefused : ∀ acc, s.accounts.lookup accountID = some acc → f s.header acc = .ok none →
      Q false s)
    (hdone : ∀ acc acc', s.accounts.lookup accountID = some acc →
      f s.header acc = .ok (some acc') → Q true (s.putAccount acc')) :
    wp (updateAccount accountID f) Q E s := by
  simp only [updateAccount, wp_bind, wp_loadHeader, wp_activeAccount, wp_runExcept]
  refine ⟨fun acc hacc => ⟨fun result hresult => ?_, fun e he => herror acc e hacc he⟩, hnone⟩
  cases result with
  | none => exact wp_pure.2 (hrefused acc hacc hresult)
  | some acc' =>
    simp only [wp_bind, wp_putAccount, wp_pure]
    exact hdone acc acc' hacc hresult

/-- An update of a trust line through its wrapper runs the function on it. -/
theorem wp_updateLine {asset : Asset}
    {f : TrustLineEntry → Except LedgerError (Option TrustLineEntry)}
    (hnone : s.trustLines.lookup (accountID, asset) = none → E .entryNotActive s)
    (herror : ∀ line e, s.trustLines.lookup (accountID, asset) = some line →
      f line = .error e → E e s)
    (hrefused : ∀ line, s.trustLines.lookup (accountID, asset) = some line →
      f line = .ok none → Q false s)
    (hdone : ∀ line line', s.trustLines.lookup (accountID, asset) = some line →
      f line = .ok (some line') → Q true (s.putTrustLine line')) :
    wp (TrustLineWrapper.update f (.nonIssuer accountID asset)) Q E s := by
  simp only [TrustLineWrapper.update, wp_bind, wp_get, wp_active, wp_runExcept]
  refine ⟨fun line hline => ⟨fun result hresult => ?_, fun e he => herror line e hline he⟩, hnone⟩
  cases result with
  | none => exact wp_pure.2 (hrefused line hline hresult)
  | some line' =>
    simp only [wp_bind, wp_putTrustLine, wp_pure]
    exact hdone line line' hline hresult

end Updating

end SpnCore.Ledger
