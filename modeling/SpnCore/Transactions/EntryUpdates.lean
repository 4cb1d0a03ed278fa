import SpnCore.Transactions.TransactionUtils

/-!
# Updates of one entry

For each function that changes an account or a trust line: when it succeeds, what it returns then,
and that it does not run out of steps. Changes of the balance keep the recorded liabilities within
their bounds.
-/

namespace SpnCore.Ledger

open Lib Option

/-! ### Bounds of recorded liabilities -/

/-- What is recorded can be received and paid. -/
structure AccountEntry.Bounded (header : LedgerHeader) (acc : AccountEntry) : Prop where
  buying_nonneg : 0 ≤ acc.getBuyingLiabilities
  selling_nonneg : 0 ≤ acc.getSellingLiabilities
  buying_le : acc.getBuyingLiabilities ≤ int64Max - acc.balance
  selling_le : acc.getSellingLiabilities = 0 ∨
    acc.getSellingLiabilities ≤ acc.balance - reserve header acc.numSubEntries

/-- The asset of the line is one that its account can hold through the line. -/
def TrustLineEntry.Trusts (line : TrustLineEntry) : Prop :=
  line.asset ≠ .native ∧ line.asset.issuer? ≠ some line.accountID

/-- Limit and balance cover what is recorded. -/
structure TrustLineEntry.Bounded (line : TrustLineEntry) : Prop where
  nonneg : line.Trusts → 0 ≤ line.getBuyingLiabilities ∧ 0 ≤ line.getSellingLiabilities
  buying_le : line.getBuyingLiabilities ≤ line.limit - line.balance
  selling_le : line.getSellingLiabilities ≤ line.balance
  authorized : line.isAuthorized = false →
    line.getBuyingLiabilities = 0 ∧ line.getSellingLiabilities = 0

/-! ### Errors -/

/-- The computation does not run out of steps. -/
abbrev Halts {α : Type} (x : Except LedgerError α) : Prop :=
  Raises (fun e : LedgerError => e ≠ .outOfFuel) x

@[simp] theorem halts_int64 {x : Int} : Halts (int64 x) := by
  simp [int64]

@[simp] theorem halts_addBalance {balance delta maxBalance : Int} :
    Halts (addBalance balance delta maxBalance) := by
  simp [addBalance]

@[simp] theorem halts_getMinBalance {header : LedgerHeader} {ownerCount : UInt32} :
    Halts (getMinBalance header ownerCount) :=
  halts_int64

section Exchange

variable {a b c maxWheatSend maxWheatReceive maxSheepSend maxSheepReceive : Int} {price : Price}
  {rounding : Rounding} {stays isPathPayment : Bool}

@[simp] theorem halts_bigMultiply : Halts (bigMultiply a b) := by
  simp [bigMultiply]

@[simp] theorem halts_bigDivide : Halts (bigDivide a b c rounding) := by
  simp only [bigDivide, tryBigDivide, raises_bind]
  refine ⟨by simp, fun result _ => ?_⟩
  cases result with
  | none => simp
  | some x => simp

@[simp] theorem halts_bigDivideWide : Halts (bigDivideWide a b rounding) := by
  simp [bigDivideWide]

@[simp] theorem halts_exchangeWithout :
    Halts (exchangeV10WithoutPriceErrorThresholds price maxWheatSend maxWheatReceive
      maxSheepSend maxSheepReceive isPathPayment) := by
  simp [exchangeV10WithoutPriceErrorThresholds, calculateOfferValue, exchangedAmounts]

theorem halts_applyPriceErrorThresholds :
    Halts (applyPriceErrorThresholds price a b stays isPathPayment) := by
  simp [applyPriceErrorThresholds, checkPriceErrorBound]

@[simp] theorem halts_exchangeV10 :
    Halts (exchangeV10 price maxWheatSend maxWheatReceive maxSheepSend maxSheepReceive
      isPathPayment) := by
  simp [exchangeV10, halts_applyPriceErrorThresholds]

@[simp] theorem halts_offerLiabilities {offer : OfferEntry} : Halts (offerLiabilities offer) := by
  simp [offerLiabilities]

end Exchange

/-! ### Accounts -/

theorem addBalance_some {balance delta maxBalance x : Int}
    (h : addBalance balance delta maxBalance = .ok (some x)) :
    x = balance + delta ∧ (delta = 0 ∨ 0 ≤ balance + delta ∧ balance + delta ≤ maxBalance) := by
  obtain ⟨-, heq⟩ := addBalance_eq_ok.1 h
  obtain ⟨hin, hx⟩ := ite_none_right_eq_some.1 heq.symm
  exact ⟨(some.inj hx).symm, hin⟩

namespace AccountEntry

variable {header : LedgerHeader} {delta : Int} {acc acc' : AccountEntry}
  {r : Option AccountEntry}

/-- The balance can change by `delta`. -/
def CanAdd (header : LedgerHeader) (delta : Int) (acc : AccountEntry) : Prop :=
  delta = 0 ∨ (0 ≤ acc.balance + delta ∧
    (delta < 0 →
      acc.getSellingLiabilities ≤ acc.balance + delta - reserve header acc.numSubEntries) ∧
    acc.balance + delta ≤ int64Max - acc.getBuyingLiabilities ∧ acc.balance + delta ≤ int64Max)

/-- The balance has changed, and could. -/
theorem addBalance_some (h : acc.addBalance header delta = .ok (some acc')) :
    acc' = { acc with balance := acc.balance + delta } ∧ acc.CanAdd header delta := by
  simp only [addBalance, ite_eq_iff, bind_eq_ok] at h
  obtain ⟨hzero, h⟩ | ⟨hne, result, hresult, h⟩ := h
  · cases h
    exact ⟨by simp [hzero], .inl hzero⟩
  · cases result with
    | none => cases h
    | some newBalance =>
      obtain ⟨rfl, hin⟩ := Ledger.addBalance_some hresult
      simp only [bind_eq_ok, getMinBalance, int64_eq_ok, ite_eq_iff, pure_eq_ok, reduceCtorEq,
        and_false, false_or] at h
      obtain ⟨_, ⟨rfl, -, -⟩, hlow, _, ⟨rfl, -, -⟩, hover, heq⟩ := h
      cases heq
      refine ⟨rfl, .inr ⟨by omega, fun hneg => ?_, by omega, by omega⟩⟩
      by_contra hcontra
      exact hlow ⟨hneg, by omega⟩

/-- Recorded liabilities stay covered. -/
theorem CanAdd.bounded (h : acc.CanAdd header delta) (hb : acc.Bounded header) :
    AccountEntry.Bounded header { acc with balance := acc.balance + delta } := by
  rcases h with rfl | ⟨-, hsell, hbuy, -⟩
  · simpa using hb
  · refine ⟨hb.buying_nonneg, hb.selling_nonneg, ?_, ?_⟩
    · change acc.getBuyingLiabilities ≤ int64Max - (acc.balance + delta)
      omega
    · change acc.getSellingLiabilities = 0 ∨ acc.getSellingLiabilities ≤
        acc.balance + delta - reserve header acc.numSubEntries
      by_cases hneg : delta < 0
      · exact .inr (hsell hneg)
      · have := hb.selling_le
        omega

theorem halts_addBalance : Halts (acc.addBalance header delta) := by
  simp only [addBalance, raises_ite, raises_bind]
  refine ⟨fun _ => raises_ok, fun _ => ⟨Ledger.halts_addBalance, fun result _ => ?_⟩⟩
  cases result with
  | none => simp
  | some newBalance => simp

/-! Recorded liabilities -/

/-- The account with other recorded liabilities. -/
structure Records (acc acc' : AccountEntry) (buying selling : Int) : Prop where
  frame : acc' = { acc with ext := acc'.ext }
  buying : acc'.getBuyingLiabilities = buying
  selling : acc'.getSellingLiabilities = selling

theorem records_some (acc : AccountEntry) (buying selling : Int) :
    acc.Records { acc with ext := some ⟨buying, selling⟩ } buying selling :=
  ⟨rfl, rfl, rfl⟩

theorem records_self (acc : AccountEntry) :
    acc.Records acc acc.getBuyingLiabilities acc.getSellingLiabilities :=
  ⟨rfl, rfl, rfl⟩

theorem Records.balance_eq {buying selling : Int} (h : acc.Records acc' buying selling) :
    acc'.accountID = acc.accountID ∧ acc'.balance = acc.balance := by
  rw [h.frame]
  exact ⟨rfl, rfl⟩

/-- The buying liabilities can change by `delta`. -/
def CanBuy (delta : Int) (acc : AccountEntry) : Prop :=
  delta = 0 ∨ (0 ≤ acc.getBuyingLiabilities + delta ∧
    acc.getBuyingLiabilities + delta ≤ int64Max - acc.balance)

/-- The selling liabilities can change by `delta`. -/
def CanSell (header : LedgerHeader) (delta : Int) (acc : AccountEntry) : Prop :=
  delta = 0 ∨ (0 ≤ acc.getSellingLiabilities + delta ∧
    acc.getSellingLiabilities + delta ≤ acc.balance - reserve header acc.numSubEntries)

theorem addBuyingLiabilities_some (h : acc.addBuyingLiabilities delta = .ok (some acc')) :
    acc.Records acc' (acc.getBuyingLiabilities + delta) acc.getSellingLiabilities ∧
      acc.CanBuy delta := by
  simp only [addBuyingLiabilities, ite_eq_iff, bind_eq_ok, int64_eq_ok, pure_eq_ok,
    map_eq_some_iff] at h
  obtain ⟨hzero, h⟩ | ⟨-, _, ⟨rfl, -, -⟩, _, hadd, _, rfl, rfl⟩ := h
  · cases h
    exact ⟨by simpa [hzero] using records_self acc, .inl hzero⟩
  · obtain ⟨rfl, hcan⟩ := Ledger.addBalance_some hadd
    exact ⟨records_some acc _ _, hcan⟩

theorem addSellingLiabilities_some (h : acc.addSellingLiabilities header delta = .ok (some acc')) :
    acc.Records acc' acc.getBuyingLiabilities (acc.getSellingLiabilities + delta) ∧
      acc.CanSell header delta := by
  simp only [addSellingLiabilities, ite_eq_iff, bind_eq_ok, getMinBalance, int64_eq_ok, pure_eq_ok,
    reduceCtorEq, and_false, false_or, map_eq_some_iff] at h
  obtain ⟨hzero, h⟩ | ⟨-, _, ⟨rfl, -, -⟩, _, ⟨rfl, -, -⟩, -, _, hadd, _, rfl, rfl⟩ := h
  · cases h
    exact ⟨by simpa [hzero] using records_self acc, .inl hzero⟩
  · obtain ⟨rfl, hcan⟩ := Ledger.addBalance_some hadd
    exact ⟨records_some acc _ _, hcan⟩

theorem halts_addBuyingLiabilities : Halts (acc.addBuyingLiabilities delta) := by
  simp [addBuyingLiabilities]

theorem halts_addSellingLiabilities : Halts (acc.addSellingLiabilities header delta) := by
  simp [addSellingLiabilities]

/-! The count of sub-entries -/

/-- The account with a count that fits a signed number. -/
structure Counts (header : LedgerHeader) (count : Int) (acc acc' : AccountEntry) : Prop where
  frame : acc' = { acc with numSubEntries := acc'.numSubEntries }
  value : (acc'.numSubEntries.toNat : Int) = (acc.numSubEntries.toNat + count).bmod (2 ^ 32)
  reserve_le : 0 < count →
    reserve header acc'.numSubEntries + acc.getSellingLiabilities ≤ acc.balance

variable {count : Int}

theorem Counts.balance_eq (h : acc.Counts header count acc') :
    acc'.accountID = acc.accountID ∧ acc'.balance = acc.balance := by
  rw [h.frame]
  exact ⟨rfl, rfl⟩

/-- Only more sub-entries can be refused. -/
theorem addNumEntries_cases (h : acc.addNumEntries header count = .ok r) :
    (∃ acc', r = some acc' ∧ acc.Counts header count acc') ∨ r = none ∧ 0 < count := by
  simp only [addNumEntries, bind_eq_ok, require_eq_ok, decide_eq_true_eq, getMinBalance,
    int64_eq_ok, pure_eq_ok] at h
  obtain ⟨_, hnonneg, _, ⟨rfl, -, -⟩, _, ⟨rfl, -, -⟩, rfl⟩ := h
  have hlt := Int.bmod_lt (x := acc.numSubEntries.toNat + count) (m := 2 ^ 32) (by decide)
  split
  case isTrue hlow => exact .inr ⟨rfl, hlow.1⟩
  case isFalse hlow =>
    refine .inl ⟨_, rfl, rfl, ?_, fun hpos => ?_⟩
    · simp only [UInt32.toNat_ofNat']
      omega
    · simp only [not_and, not_lt] at hlow
      exact hlow hpos

theorem halts_addNumEntries : Halts (acc.addNumEntries header count) := by
  simp [addNumEntries]

theorem Counts.lt (h : acc.Counts header count acc') : acc'.numSubEntries.toNat < 2 ^ 31 := by
  have hlt := Int.bmod_lt (x := acc.numSubEntries.toNat + count) (m := 2 ^ 32) (by decide)
  have := h.value
  omega

end AccountEntry

/-! ### Trust lines -/

namespace TrustLineEntry

variable {delta : Int} {line line' : TrustLineEntry} {r : Option TrustLineEntry}

/-- The balance can change by `delta`. -/
def CanAdd (delta : Int) (line : TrustLineEntry) : Prop :=
  delta = 0 ∨ (line.isAuthorized = true ∧ 0 ≤ line.balance + delta ∧
    line.balance + delta ≤ line.limit ∧ line.getSellingLiabilities ≤ line.balance + delta ∧
    line.balance + delta ≤ line.limit - line.getBuyingLiabilities)

/-- The buying liabilities can change by `delta`. -/
def CanBuy (delta : Int) (line : TrustLineEntry) : Prop :=
  delta = 0 ∨ (line.isAuthorized = true ∧ 0 ≤ line.getBuyingLiabilities + delta ∧
    line.getBuyingLiabilities + delta ≤ line.limit - line.balance)

/-- The selling liabilities can change by `delta`. -/
def CanSell (delta : Int) (line : TrustLineEntry) : Prop :=
  delta = 0 ∨ (line.isAuthorized = true ∧ 0 ≤ line.getSellingLiabilities + delta ∧
    line.getSellingLiabilities + delta ≤ line.balance)

/-- The trust line with other recorded liabilities. -/
structure Records (line line' : TrustLineEntry) (buying selling : Int) : Prop where
  frame : line' = { line with ext := line'.ext }
  buying : line'.getBuyingLiabilities = buying
  selling : line'.getSellingLiabilities = selling

theorem records_some (line : TrustLineEntry) (buying selling : Int) :
    line.Records { line with ext := some ⟨buying, selling⟩ } buying selling :=
  ⟨rfl, rfl, rfl⟩

theorem records_self (line : TrustLineEntry) :
    line.Records line line.getBuyingLiabilities line.getSellingLiabilities :=
  ⟨rfl, rfl, rfl⟩

theorem Records.balance_eq {buying selling : Int} (h : line.Records line' buying selling) :
    line'.accountID = line.accountID ∧ line'.asset = line.asset ∧ line'.balance = line.balance := by
  rw [h.frame]
  exact ⟨rfl, rfl, rfl⟩

/-- The balance has changed, and could. -/
theorem addBalance_some (h : line.addBalance delta = .ok (some line')) :
    line' = { line with balance := line.balance + delta } ∧ line.CanAdd delta := by
  simp only [addBalance, ite_eq_iff, bind_eq_ok, Bool.not_eq_true', reduceCtorEq, and_false,
    false_or, Except.ok.injEq] at h
  obtain ⟨hzero, h⟩ | ⟨hne, hauth, result, hresult, h⟩ := h
  · cases h
    exact ⟨by simp [hzero], .inl hzero⟩
  · cases result with
    | none => cases h
    | some newBalance =>
      obtain ⟨rfl, hin⟩ := Ledger.addBalance_some hresult
      simp only [bind_eq_ok, int64_eq_ok, ite_eq_iff, pure_eq_ok, reduceCtorEq, and_false,
        false_or] at h
      obtain ⟨hlow, _, ⟨rfl, -, -⟩, hover, heq⟩ := h
      cases heq
      exact ⟨rfl, .inr ⟨by simpa using hauth, by omega, by omega, by omega, by omega⟩⟩

theorem addBuyingLiabilities_some (h : line.addBuyingLiabilities delta = .ok (some line')) :
    line.Records line' (line.getBuyingLiabilities + delta) line.getSellingLiabilities ∧
      line.CanBuy delta := by
  simp only [addBuyingLiabilities, ite_eq_iff, bind_eq_ok, int64_eq_ok, pure_eq_ok,
    map_eq_some_iff, Bool.not_eq_true', reduceCtorEq, and_false, false_or, Except.ok.injEq] at h
  obtain ⟨hzero, h⟩ | ⟨hne, hauth, _, ⟨rfl, -, -⟩, _, hadd, _, rfl, rfl⟩ := h
  · cases h
    exact ⟨by simpa [hzero] using records_self line, .inl hzero⟩
  · obtain ⟨rfl, hcan⟩ := Ledger.addBalance_some hadd
    exact ⟨records_some line _ _, .inr ⟨by simpa using hauth, hcan.resolve_left hne⟩⟩

theorem addSellingLiabilities_some (h : line.addSellingLiabilities delta = .ok (some line')) :
    line.Records line' line.getBuyingLiabilities (line.getSellingLiabilities + delta) ∧
      line.CanSell delta := by
  simp only [addSellingLiabilities, ite_eq_iff, bind_eq_ok, pure_eq_ok, map_eq_some_iff,
    Bool.not_eq_true', reduceCtorEq, and_false, false_or, Except.ok.injEq] at h
  obtain ⟨hzero, h⟩ | ⟨hne, hauth, _, hadd, _, rfl, rfl⟩ := h
  · cases h
    exact ⟨by simpa [hzero] using records_self line, .inl hzero⟩
  · obtain ⟨rfl, hcan⟩ := Ledger.addBalance_some hadd
    exact ⟨records_some line _ _, .inr ⟨by simpa using hauth, hcan.resolve_left hne⟩⟩

/-- Recorded liabilities stay covered. -/
theorem CanAdd.bounded (h : line.CanAdd delta) (hb : line.Bounded) :
    TrustLineEntry.Bounded { line with balance := line.balance + delta } := by
  rcases h with rfl | ⟨-, -, -, hsell, hbuy⟩
  · simpa using hb
  · refine ⟨hb.nonneg, ?_, hsell, hb.authorized⟩
    change line.getBuyingLiabilities ≤ line.limit - (line.balance + delta)
    omega

theorem halts_addBalance : Halts (line.addBalance delta) := by
  simp only [addBalance, raises_ite, raises_bind]
  refine ⟨fun _ => raises_ok, fun _ => ⟨fun _ => raises_ok, fun _ => ⟨Ledger.halts_addBalance,
    fun result _ => ?_⟩⟩⟩
  cases result with
  | none => simp
  | some newBalance => simp

theorem halts_addBuyingLiabilities : Halts (line.addBuyingLiabilities delta) := by
  simp [addBuyingLiabilities]

theorem halts_addSellingLiabilities : Halts (line.addSellingLiabilities delta) := by
  simp [addSellingLiabilities]

end TrustLineEntry

end SpnCore.Ledger
