import Mathlib.Algebra.BigOperators.Group.List.Basic
import Mathlib.Algebra.Group.Pi.Basic
import SpnCore.Transactions.OfferTrail
import SpnCore.Transactions.ProgramRules

/-!
# Payments

What path payments do to balances. A ledger `Pays` a flow when every balance changes by what the
flow says; the issuer of an asset has no balance of it. Crossing offers pays the flow of the trail,
so `pathPayment_exact` follows by composing flows along the path. The second part is about the
result codes of payments, which are carried out as path payments without offers.
-/

namespace SpnCore.Ledger

open Lib List

/-! ### Flows -/

/-- What an account holds of an asset according to the ledger. -/
def LedgerState.balance (s : LedgerState) (a : AccountID) (A : Asset) : Int :=
  if A = .native then (s.accounts.lookup a).elim 0 AccountEntry.balance
  else (s.trustLines.lookup (a, A)).elim 0 TrustLineEntry.balance

/-- Amounts by account and asset. -/
abbrev Flow := AccountID → Asset → Int

/-- The account gets an amount of the asset. -/
def gains (a : AccountID) (A : Asset) (x : Int) : Flow :=
  fun b B => if b = a ∧ B = A then x else 0

/-- Every balance changes by what the flow says. An issuer has no balance of its asset. -/
def Pays (s t : LedgerState) (flow : Flow) : Prop :=
  ∀ a A, t.balance a A = s.balance a A + if A.issuer? = some a then 0 else flow a A

/-- The seller's side of a trade. -/
def ClaimOfferAtom.flow (atom : ClaimOfferAtom) : Flow :=
  gains atom.sellerID atom.assetBought atom.amountBought +
    gains atom.sellerID atom.assetSold (-atom.amountSold)

/-- The sellers' sides of all trades. -/
def trailFlow (trail : List ClaimOfferAtom) : Flow :=
  (trail.map ClaimOfferAtom.flow).sum

section Flows

variable {s t u : LedgerState} {flow flow' : Flow} {a : AccountID} {A : Asset} {x : Int}

theorem Pays.refl (s : LedgerState) : Pays s s 0 := by
  intro a A
  simp

theorem Pays.trans (h : Pays s t flow) (h' : Pays t u flow') : Pays s u (flow + flow') := by
  intro a A
  rw [h' a A, h a A]
  split
  · simp
  · simp only [Pi.add_apply]
    omega

theorem gains_zero (a : AccountID) (A : Asset) : gains a A 0 = 0 := by
  funext b B
  simp [gains]

theorem trailFlow_append (trail trail' : List ClaimOfferAtom) :
    trailFlow (trail ++ trail') = trailFlow trail + trailFlow trail' := by
  simp [trailFlow]

theorem trailFlow_singleton (atom : ClaimOfferAtom) : trailFlow [atom] = atom.flow := by
  simp [trailFlow]

/-- Only the sellers of the trail are paid. -/
theorem trailFlow_eq_zero {trail : List ClaimOfferAtom} (h : ∀ atom ∈ trail, atom.sellerID ≠ a) :
    trailFlow trail a A = 0 := by
  induction trail with
  | nil => rfl
  | cons atom trail ih =>
    have hatom := h atom mem_cons_self
    have hrest := ih fun b hb => h b (mem_cons_of_mem _ hb)
    have hhead : trailFlow (atom :: trail) = atom.flow + trailFlow trail := by
      simp [trailFlow]
    rw [hhead, Pi.add_apply, Pi.add_apply, hrest]
    simp [ClaimOfferAtom.flow, gains, Ne.symm hatom]

theorem pays_putAccount {acc acc' : AccountEntry} (hacc : s.accounts.lookup a = some acc)
    (hid : acc'.accountID = acc.accountID) (hbalance : acc'.balance = acc.balance + x) :
    Pays s (s.putAccount acc') (gains a .native x) := by
  have hkey : acc'.accountID = a := hid.trans (account_of_lookup hacc)
  intro b B
  by_cases hB : B = .native
  · subst hB
    by_cases hb : b = a
    · subst hb
      simp [LedgerState.balance, LedgerState.putAccount, Table.lookup_upsert, hkey, hacc, hbalance,
        gains, Asset.issuer?]
    · simp [LedgerState.balance, LedgerState.putAccount, Table.lookup_upsert, hkey, hb, gains]
  · simp [LedgerState.balance, LedgerState.putAccount, hB, gains]

theorem pays_putTrustLine {line line' : TrustLineEntry} (hA : A ≠ .native)
    (hissuer : A.issuer? ≠ some a) (hline : s.trustLines.lookup (a, A) = some line)
    (hid : line'.accountID = line.accountID) (hasset : line'.asset = line.asset)
    (hbalance : line'.balance = line.balance + x) :
    Pays s (s.putTrustLine line') (gains a A x) := by
  obtain ⟨hid', hasset'⟩ := trustLine_of_lookup hline
  have hkey : (line'.accountID, line'.asset) = (a, A) := by
    rw [hid, hasset, hid', hasset']
  intro b B
  by_cases hB : B = .native
  · subst hB
    simp [LedgerState.balance, LedgerState.putTrustLine, gains, Ne.symm hA]
  · by_cases hb : (b, B) = (a, A)
    · obtain ⟨rfl, rfl⟩ := Prod.mk.inj hb
      simp [LedgerState.balance, LedgerState.putTrustLine, Table.lookup_upsert, hkey, hline, hB,
        hbalance, gains, hissuer]
    · have hnot : ¬ (b = a ∧ B = A) := fun h => hb (Prod.ext h.1 h.2)
      simp only [LedgerState.balance, LedgerState.putTrustLine, Table.lookup_upsert, key_trustLine,
        hkey, hb, if_false, gains, if_neg hnot, ite_self, add_zero]

end Flows

/-! ### Reading a holding -/

theorem reserve_nonneg (header : LedgerHeader) (ownerCount : UInt32) :
    0 ≤ reserve header ownerCount :=
  Int.mul_nonneg (Int.natCast_nonneg _) (Int.natCast_nonneg _)

variable {A : Asset}

theorem issuer?_ne_none (hA : A ≠ .native) : ∃ issuer, A.issuer? = some issuer := by
  cases A with
  | native => exact absurd rfl hA
  | alphaNum4 code issuer => exact ⟨issuer, rfl⟩
  | alphaNum12 code issuer => exact ⟨issuer, rfl⟩

variable {a : AccountID}

/-- Loading a trust line gives the issuer's side, the line or nothing. -/
theorem wp_loadTrustLine {s : LedgerState} {Q : TrustLineWrapper → LedgerState → Prop}
    {E : LedgerError → LedgerState → Prop} (hA : A ≠ .native)
    (hown : A.issuer? = some a → Q .issuer s) (hline : A.issuer? ≠ some a → ∀ line,
      s.trustLines.lookup (a, A) = some line → Q (.nonIssuer a A) s)
    (hnone : A.issuer? ≠ some a → s.trustLines.lookup (a, A) = none → Q .inactive s) :
    wp (loadTrustLine a A) Q E s := by
  obtain ⟨issuer, hissuer⟩ := issuer?_ne_none hA
  simp only [loadTrustLine, wp_bind, wp_get, hissuer, wp_pure]
  rw [hissuer] at hown hline hnone
  by_cases heq : issuer = a
  · rw [if_pos heq]
    exact hown (congrArg some heq)
  · have hne : some issuer ≠ some a := fun h => heq (Option.some.inj h)
    rw [if_neg heq]
    cases hlookup : s.trustLines.lookup (a, A) with
    | none => exact hnone hne hlookup
    | some line => exact hline hne line hlookup

/-! ### Programs that pay nothing -/

/-- All balances are the same. -/
def SameBalances (s t : LedgerState) : Prop := Pays s t 0

instance : IsPreorder LedgerState SameBalances where
  refl := Pays.refl
  trans _ _ _ h h' := by simpa [SameBalances] using Pays.trans h h'

variable {offer : OfferEntry}

section Keeping

theorem sameBalances_of_eq {s t : LedgerState} (haccounts : t.accounts = s.accounts)
    (hlines : t.trustLines = s.trustLines) : SameBalances s t := by
  intro a A
  simp [LedgerState.balance, haccounts, hlines]

theorem sameBalances_updateAccount {accountID : AccountID}
    {f : LedgerHeader → AccountEntry → Except LedgerError (Option AccountEntry)}
    (hf : ∀ header acc acc', f header acc = .ok (some acc') →
      acc'.accountID = acc.accountID ∧ acc'.balance = acc.balance) :
    Within SameBalances (updateAccount accountID f) := by
  intro s
  have hsame := refl_of SameBalances s
  refine wp_updateAccount (fun _ => hsame) (fun _ _ _ _ => hsame) (fun _ _ _ => hsame) ?_
  intro acc acc' hacc hresult
  obtain ⟨hid, hbalance⟩ := hf _ _ _ hresult
  have hpays := pays_putAccount hacc hid (hbalance.trans (Int.add_zero _).symm)
  rwa [gains_zero] at hpays

theorem sameBalances_updateHolding {accountID : AccountID} {asset : Asset}
    {onAccount : LedgerHeader → AccountEntry → Except LedgerError (Option AccountEntry)}
    {onLine : TrustLineEntry → Except LedgerError (Option TrustLineEntry)}
    (haccount : ∀ header acc acc', onAccount header acc = .ok (some acc') →
      acc'.accountID = acc.accountID ∧ acc'.balance = acc.balance)
    (hline : ∀ line line', onLine line = .ok (some line') →
      line'.accountID = line.accountID ∧ line'.asset = line.asset ∧ line'.balance = line.balance) :
    Within SameBalances (updateHolding accountID asset onAccount onLine) := by
  refine within_ite (fun _ => sameBalances_updateAccount haccount) fun hA s => ?_
  have hsame := refl_of SameBalances s
  refine wp_bind.2 (wp_loadTrustLine hA ?_ ?_ ?_)
  · exact fun _ => wp_pure.2 hsame
  · intro hissuer line hlookup
    refine wp_updateLine (fun _ => hsame) (fun _ _ _ _ => hsame) (fun _ _ _ => hsame) ?_
    intro line line' hlookup hresult
    obtain ⟨hid, hasset, hbalance⟩ := hline _ _ hresult
    have hpays := pays_putTrustLine hA hissuer hlookup hid hasset
      (hbalance.trans (Int.add_zero _).symm)
    rwa [gains_zero] at hpays
  · exact fun _ _ => wp_throw.2 hsame

theorem sameBalances_acquireOrRelease {isAcquire : Bool} :
    Within SameBalances (acquireOrReleaseLiabilities offer isAcquire) := by
  refine within_bind within_ensure fun _ => within_bind within_runExcept fun _ => ?_
  refine within_bind steady_validateHolding.1 fun _ => ?_
  refine within_bind (sameBalances_updateHolding ?_ ?_) fun _ => ?_
  · exact fun _ _ _ h => (AccountEntry.addBuyingLiabilities_some h).1.balance_eq
  · exact fun _ _ h => (TrustLineEntry.addBuyingLiabilities_some h).1.balance_eq
  · refine within_bind within_ensure fun _ => within_bind within_runExcept fun _ => ?_
    refine within_bind steady_validateHolding.1 fun _ => ?_
    refine within_bind (sameBalances_updateHolding ?_ ?_) fun _ => within_ensure
    · exact fun _ _ _ h => (AccountEntry.addSellingLiabilities_some h).1.balance_eq
    · exact fun _ _ h => (TrustLineEntry.addSellingLiabilities_some h).1.balance_eq

theorem sameBalances_settleOffer : Within SameBalances (settleOffer offer) := by
  refine within_ite (fun _ => ?_) fun _ => ?_
  · refine within_bind (within_modify fun _ => sameBalances_of_eq rfl rfl) fun _ => ?_
    refine within_bind (sameBalances_updateAccount ?_) fun _ => within_pure
    intro header acc acc' h
    rcases AccountEntry.addNumEntries_cases h with ⟨_, heq, hcounts⟩ | ⟨heq, -⟩
    · cases heq
      exact hcounts.balance_eq
    · cases heq
  · refine within_bind (within_modify fun _ => sameBalances_of_eq rfl rfl) fun _ => ?_
    exact within_bind sameBalances_acquireOrRelease fun _ => within_pure

end Keeping

/-! ### Programs that pay -/

section Paying

variable {s t : LedgerState} {a : AccountID} {A : Asset} {x : Int}

/-- The issuer of an asset can be paid any amount of it. -/
theorem pays_issuer (h : A.issuer? = some a) (x : Int) : Pays s s (gains a A x) := by
  intro b B
  by_cases hb : b = a ∧ B = A
  · simp [hb.1, hb.2, h]
  · simp [gains, hb]

theorem wp_addAccountBalance (a : AccountID) (x : Int) :
    wp (addAccountBalance a x) (fun done t => done = true → Pays s t (gains a .native x))
      (fun _ _ => True) s := by
  refine wp_updateAccount (fun _ => trivial) (fun _ _ _ _ => trivial)
    (fun _ _ _ h => Bool.noConfusion h) fun acc acc' hacc hresult _ => ?_
  obtain ⟨rfl, -⟩ := AccountEntry.addBalance_some hresult
  exact pays_putAccount hacc rfl rfl

/-- The wrapper is the account's one for the asset. -/
def TrustLineWrapper.Wraps (a : AccountID) (A : Asset) : TrustLineWrapper → Prop
  | .inactive => True
  | .issuer => A.issuer? = some a
  | .nonIssuer b B => b = a ∧ B = A ∧ A.issuer? ≠ some a

theorem wp_loadTrustLine_wraps (hA : A ≠ .native) :
    wp (loadTrustLine a A) (fun line t => t = s ∧ line.Wraps a A) (fun _ _ => True) s :=
  wp_loadTrustLine hA (fun hissuer => ⟨rfl, hissuer⟩) (fun hissuer _ _ => ⟨rfl, rfl, rfl, hissuer⟩)
    fun _ _ => ⟨rfl, trivial⟩

theorem wp_addLineBalance (hA : A ≠ .native) {line : TrustLineWrapper} (h : line.Wraps a A)
    (x : Int) :
    wp (line.addBalance x) (fun done t => done = true → Pays s t (gains a A x))
      (fun _ _ => True) s := by
  cases line with
  | inactive => exact wp_throw.2 trivial
  | issuer => exact wp_pure.2 fun _ => pays_issuer h x
  | nonIssuer b B =>
    obtain ⟨rfl, rfl, hissuer⟩ := h
    refine wp_updateLine (fun _ => trivial) (fun _ _ _ _ => trivial)
      (fun _ _ _ h => Bool.noConfusion h) fun line line' hlookup hresult _ => ?_
    obtain ⟨rfl, -⟩ := TrustLineEntry.addBalance_some hresult
    exact pays_putTrustLine hA hissuer hlookup rfl rfl rfl

theorem wp_addHolding {x : Int} :
    wp (addHolding a A x) (fun done t => done = true → Pays s t (gains a A x))
      (fun _ _ => True) s := by
  refine wp_ite.2 ⟨fun hA => ?_, fun hA => ?_⟩
  · rw [hA]
    exact wp_addAccountBalance a x
  · refine wp_seq (wp_loadTrustLine_wraps hA) ?_
    rintro line _ ⟨rfl, hwraps⟩
    exact wp_addLineBalance hA hwraps x

/-- The seller gets sheep and gives wheat. -/
theorem wp_tradeHoldings {numWheatReceived numSheepSend : Int} :
    wp (tradeHoldings offer numWheatReceived numSheepSend)
      (fun _ t => Pays s t (gains offer.sellerID offer.buying numSheepSend +
        gains offer.sellerID offer.selling (-numWheatReceived)))
      (fun _ _ => True) s := by
  have hpaid : ∀ (s : LedgerState) (A : Asset) (y z : Int) (e : LedgerError), (z = 0 → y = 0) →
      wp (onlyIf (z != 0) do
          let added ← addHolding offer.sellerID A y
          ensure added e) (fun _ t => Pays s t (gains offer.sellerID A y))
        (fun _ _ => True) s := by
    intro s A y z e hzero
    refine wp_onlyIf.2 ⟨fun _ => ?_, fun hz => ?_⟩
    · refine wp_seq wp_addHolding ?_
      intro added t hpays
      exact wp_ensure.2 ⟨hpays, fun _ => trivial⟩
    · rw [hzero (by simpa using hz), gains_zero]
      exact Pays.refl s
  refine wp_seq (hpaid s _ _ _ _ id) ?_
  intro _ t ht
  refine wp_imp (hpaid t _ _ _ _ fun h => by omega) ?_
  intro _ u hu
  exact ht.trans hu

variable {maxWheatReceive maxSheepSend : Int} {isPathPayment : Bool} {sheep wheat : Asset}
  {filter : OfferFilter} {env : Env}

/-- Crossing an offer pays its seller. -/
theorem CrossingRun.pays {crossed : CrossedOffer} (h : CrossingRun offer crossed s t)
    (hreports : Crossed offer maxWheatReceive maxSheepSend isPathPayment crossed) :
    Pays s t crossed.atom.flow := by
  obtain ⟨hadjusted, -, -, hrelease, htrade, hsettle⟩ := h
  have htraded := wp_ok wp_tradeHoldings htrade
  have hpays := (Pays.trans (sameBalances_acquireOrRelease.of_ok hrelease) htraded).trans
    (sameBalances_settleOffer.of_ok hsettle)
  rw [zero_add, add_zero, hadjusted] at hpays
  rw [hreports.atom]
  exact hpays

/-- What a turn of the loop pays. -/
def Turn.flow : Turn → Flow
  | .crossed offer => offer.atom.flow
  | _ => 0

theorem wp_crossBestOffer_pays :
    wp (crossBestOffer env sheep wheat filter isPathPayment maxSheepSend maxWheatReceive)
      (fun turn t => Pays s t turn.flow) (fun _ _ => True) s := by
  refine wp_mono wp_crossBestOffer ?_ fun _ _ _ => trivial
  rintro turn t ⟨hturn, hruns⟩
  cases hturn with
  | noOffer hsame => exact hsame ▸ Pays.refl s
  | stopped hsame => exact hsame ▸ Pays.refl s
  | crossed _ hbest _ hcrossed => exact (hruns _ hbest).pays hcrossed

theorem wp_convertLoop_pays {s₀ : LedgerState} (fuel : Nat) {total : Conversion}
    (h : Pays s₀ s (trailFlow total.offerTrail)) :
    wp (convertLoop env sheep wheat filter isPathPayment fuel maxSheepSend maxWheatReceive total)
      (fun r t => Pays s₀ t (trailFlow r.offerTrail)) (fun _ _ => True) s := by
  induction fuel generalizing s maxSheepSend maxWheatReceive total with
  | zero => exact wp_throw.2 trivial
  | succ fuel ih =>
    refine wp_seq wp_crossBestOffer_pays ?_
    intro turn t hturn
    have hpays := h.trans hturn
    cases turn with
    | noOffer => exact wp_pure.2 (by simpa [Turn.flow] using hpays)
    | stopped reason => exact wp_pure.2 (by simpa [Turn.flow] using hpays)
    | crossed offer =>
      have hadd : Pays s₀ t (trailFlow (total.add offer).offerTrail) := by
        rw [Conversion.add, trailFlow_append, trailFlow_singleton]
        exact hpays
      refine wp_unless hadd fun _ => ?_
      exact wp_unless hadd fun _ => ih hadd

/-- A conversion pays the sellers of its trail. -/
theorem wp_convertWithOffers_pays :
    wp (convertWithOffers env sheep maxSheepSend wheat maxWheatReceive isPathPayment filter)
      (fun r t => Pays s t (trailFlow r.offerTrail)) (fun _ _ => True) s := by
  refine wp_get_bind.2 (wp_ite.2 ⟨fun _ => ?_, fun _ => ?_⟩)
  · exact wp_convertLoop_pays _ (Pays.refl s)
  · exact wp_pure.2 (Pays.refl s)

end Paying

/-! ### Path payments -/

/-- Amounts along a route of assets: `x` of the first one is given for `y` of the last one. Between
different assets there is a hop over offers that buy the one and sell the other, and what is bought
from the offers of a hop is what is sold to those of the next one. -/
inductive Exchanges : List Asset → Int → List (List ClaimOfferAtom) → Int → Prop
  | arrives (A : Asset) (x : Int) : Exchanges [A] x [] x
  | stays {A : Asset} {route : List Asset} {hops : List (List ClaimOfferAtom)} {x y : Int} :
      Exchanges (A :: route) x hops y → Exchanges (A :: A :: route) x hops y
  | hop {A B : Asset} {route : List Asset} {trail : List ClaimOfferAtom}
      {hops : List (List ClaimOfferAtom)} {y : Int} (different : A ≠ B)
      (assets : ∀ atom ∈ trail, atom.assetBought = A ∧ atom.assetSold = B) :
      Exchanges (B :: route) (trail.map ClaimOfferAtom.amountSold).sum hops y →
      Exchanges (A :: B :: route) (trail.map ClaimOfferAtom.amountBought).sum (trail :: hops) y

namespace PathPaymentOp

variable {env : Env} {source : AccountID} {op : PathPaymentOp} {s₀ s : LedgerState} {leg : Leg}

/-- What has been done when the walk along the path has come to a leg. -/
structure Reached (op : PathPaymentOp) (s₀ s : LedgerState) (route : List Asset) (leg : Leg) :
    Prop where
  pays : Pays s₀ s (gains op.destination op.destAsset op.destAmount + trailFlow leg.offers)
  exchanges : ∃ hops, leg.offers = hops.flatten ∧
    Exchanges (leg.asset :: route) leg.amount hops op.destAmount
  nonneg : 0 ≤ op.destAmount → 0 ≤ leg.amount

/-- The outcome of a part of a payment. -/
def Outcome {α : Type} (ok : α → Prop) : Except PathPaymentResult α → Prop
  | .error failure => ∀ offers last, failure ≠ .success offers last
  | .ok a => ok a

theorem wp_creditDestination (op : PathPaymentOp) :
    wp (creditDestination op)
      (fun r t => Outcome (fun _ => Pays s t (gains op.destination op.destAsset op.destAmount)) r)
      (fun _ _ => True) s := by
  refine wp_reads steady_accountExists.1 fun found => ?_
  refine wp_unless (by rintro offers last ⟨⟩) fun _ => ?_
  refine wp_ite.2 ⟨fun hnative => ?_, fun hcredit => ?_⟩
  · rw [hnative]
    refine wp_seq (wp_addAccountBalance _ _) ?_
    intro added t hpays
    refine wp_pure.2 ?_
    cases added with
    | true => exact hpays rfl
    | false => rintro offers last ⟨⟩
  · refine wp_reads steady_issuerExists.1 fun issuer => ?_
    refine wp_unless (by rintro offers last ⟨⟩) fun _ => ?_
    refine wp_seq (wp_loadTrustLine_wraps hcredit) ?_
    rintro destLine _ ⟨rfl, hwraps⟩
    refine wp_unless (by rintro offers last ⟨⟩) fun _ => ?_
    refine wp_reads within_read fun authorized => ?_
    refine wp_unless (by rintro offers last ⟨⟩) fun _ => ?_
    refine wp_seq (wp_addLineBalance hcredit hwraps _) ?_
    intro added t hpays
    refine wp_pure.2 ?_
    cases added with
    | true => exact hpays rfl
    | false => rintro offers last ⟨⟩

/-- A step along the path, which exchanges if the assets differ. -/
theorem wp_convertLeg {route : List Asset} (curA : Asset) (h : Reached op s₀ s route leg) :
    wp (convertLeg env source curA leg)
      (fun r t => Outcome (fun leg' => leg'.asset = curA ∧
        Reached op s₀ t (leg.asset :: route) leg') r)
      (fun _ _ => True) s := by
  obtain ⟨hops, hflatten, hexchanges⟩ := h.exchanges
  refine wp_ite.2 ⟨fun hsame => wp_pure.2 ?_, fun hdiffers => ?_⟩
  · exact ⟨hsame.symm, h.pays, ⟨hops, hflatten, .stays hexchanges⟩, h.nonneg⟩
  · refine wp_reads steady_issuerExists.1 fun issuer => ?_
    refine wp_unless (by rintro offers last ⟨⟩) fun _ => ?_
    refine wp_bind.2
      (wp_mono (wp_and wp_convertWithOffers wp_convertWithOffers_pays) ?_ fun _ _ _ => trivial)
    rintro r t ⟨⟨hprogress, -⟩, hpays⟩
    refine wp_guard trivial fun hnonneg => ?_
    have hnonneg := of_decide_eq_true hnonneg
    cases hresult : r.result with
    | eFilterStop reason => exact wp_pure.2 (by rintro offers last ⟨⟩)
    | ePartial => exact wp_pure.2 (by rintro offers last ⟨⟩)
    | eOK =>
      refine wp_pure.2 ?_
      by_cases hall : leg.amount = r.wheatReceived
      · rw [if_pos hall]
        refine ⟨rfl, ?_, ⟨r.offerTrail :: hops, ?_, ?_⟩, fun _ => hnonneg⟩
        · have hboth := h.pays.trans hpays
          rwa [add_assoc, add_comm (trailFlow leg.offers), ← trailFlow_append] at hboth
        · rw [flatten_cons, hflatten]
        · rw [hall, hprogress.received] at hexchanges
          rw [hprogress.sent]
          refine .hop hdiffers (fun atom hatom => ?_) hexchanges
          have htrade := hprogress.trades atom hatom
          exact ⟨htrade.assetBought, htrade.assetSold⟩
      · rw [if_neg hall]
        rintro offers last ⟨⟩

theorem wp_convertPath {route : List Asset} (path : List Asset) (h : Reached op s₀ s route leg) :
    wp (convertPath env source path leg)
      (fun r t => Outcome (fun leg' => ∃ route', Reached op s₀ t route' leg' ∧
        leg'.asset :: route' = path.reverse ++ leg.asset :: route) r)
      (fun _ _ => True) s := by
  induction path generalizing s leg route with
  | nil => exact wp_pure.2 ⟨route, h, rfl⟩
  | cons curA path ih =>
    refine wp_seq (wp_convertLeg curA h) ?_
    intro next t hnext
    cases next with
    | error failure => exact wp_pure.2 hnext
    | ok leg' =>
      obtain ⟨hasset, hreached⟩ := hnext
      refine wp_imp (ih hreached) ?_
      intro r u hr
      cases r with
      | error failure => exact hr
      | ok leg'' =>
        obtain ⟨route', hreached', hroute⟩ := hr
        refine ⟨route', hreached', ?_⟩
        rw [hroute, hasset, reverse_cons, append_assoc]
        rfl

/-- The source pays for the first leg. -/
theorem wp_debitSource (source : AccountID) (op : PathPaymentOp) (leg : Leg) :
    wp (debitSource source op leg)
      (fun r t => Outcome (fun _ => leg.amount ≤ op.sendMax ∧
        Pays s t (gains source leg.asset (-leg.amount))) r)
      (fun _ _ => True) s := by
  refine wp_unless (by rintro offers last ⟨⟩) fun hmax => ?_
  have hmax := not_lt.1 hmax
  refine wp_ite.2 ⟨fun hnative => ?_, fun hcredit => ?_⟩
  · rw [hnative]
    refine wp_reads steady_loadAccount.1 fun account => ?_
    cases account with
    | none => exact wp_pure.2 (by rintro offers last ⟨⟩)
    | some acc =>
      refine wp_reads steady_loadHeader.1 fun header => ?_
      refine wp_reads within_runExcept fun available => ?_
      refine wp_unless (by rintro offers last ⟨⟩) fun _ => ?_
      refine wp_seq (wp_addAccountBalance _ _) ?_
      intro removed t hpays
      exact wp_guard trivial fun hremoved => wp_pure.2 ⟨hmax, hpays hremoved⟩
  · refine wp_reads steady_issuerExists.1 fun issuer => ?_
    refine wp_unless (by rintro offers last ⟨⟩) fun _ => ?_
    refine wp_seq (wp_loadTrustLine_wraps hcredit) ?_
    rintro sourceLine _ ⟨rfl, hwraps⟩
    refine wp_unless (by rintro offers last ⟨⟩) fun _ => ?_
    refine wp_reads within_read fun authorized => ?_
    refine wp_unless (by rintro offers last ⟨⟩) fun _ => ?_
    refine wp_seq (wp_addLineBalance hcredit hwraps _) ?_
    intro removed t hpays
    refine wp_pure.2 ?_
    cases removed with
    | true => exact ⟨hmax, hpays rfl⟩
    | false => rintro offers last ⟨⟩

/-- What a successful path payment has done. -/
structure Paid (source : AccountID) (op : PathPaymentOp) (s t : LedgerState)
    (offers : List ClaimOfferAtom) (sent : Int) : Prop where
  sent_le : sent ≤ op.sendMax
  nonneg : 0 ≤ op.destAmount → 0 ≤ sent
  exchanges : ∃ hops, offers = hops.flatten ∧
    Exchanges (op.sendAsset :: op.path ++ [op.destAsset]) sent hops op.destAmount
  pays : Pays s t (gains op.destination op.destAsset op.destAmount + trailFlow offers +
    gains source op.sendAsset (-sent))

theorem wp_doApply_paid (env : Env) (source : AccountID) (op : PathPaymentOp) :
    wp (op.doApply env source)
      (fun r t => ∀ offers last, r = .success offers last →
        last = ⟨op.destination, op.destAsset, op.destAmount⟩ ∧
          ∃ sent, Paid source op s t offers sent)
      (fun _ _ => True) s := by
  refine wp_seq (wp_creditDestination op) ?_
  intro credited t₁ hcredited
  cases credited with
  | error failure => exact wp_pure.2 fun offers last heq => absurd heq (hcredited offers last)
  | ok _ =>
    have hstart : Reached op s t₁ [] ⟨op.destAsset, op.destAmount, []⟩ := by
      have hpays : Pays s t₁ (gains op.destination op.destAsset op.destAmount) := hcredited
      exact ⟨by simpa [trailFlow] using hpays, ⟨[], rfl, .arrives _ _⟩, id⟩
    refine wp_seq (wp_convertPath _ hstart) ?_
    intro converted t₂ hconverted
    cases converted with
    | error failure =>
      exact wp_pure.2 fun offers last heq => absurd heq (hconverted offers last)
    | ok leg =>
      obtain ⟨route, hreached, hroute⟩ := hconverted
      rw [reverse_reverse, cons_append] at hroute
      obtain ⟨hasset, rfl⟩ := List.cons.inj hroute
      refine wp_seq (wp_debitSource source op leg) ?_
      intro debited t hdebited
      cases debited with
      | error failure =>
        exact wp_pure.2 fun offers last heq => absurd heq (hdebited offers last)
      | ok _ =>
        obtain ⟨hmax, hpays⟩ := hdebited
        refine wp_pure.2 fun offers last heq => ?_
        cases heq
        have hexchanges := hreached.exchanges
        rw [hasset] at hpays hexchanges
        exact ⟨rfl, leg.amount, hmax, hreached.nonneg, hexchanges, hreached.pays.trans hpays⟩

/-- A successful path payment credits the destination exactly, takes at most `sendMax` from the
source, and exchanges along its path without leaving anything over. Only the destination, the
source and the sellers of the crossed offers are paid. -/
theorem pathPayment_exact (env : Env) (source : AccountID) (op : PathPaymentOp) (s t : LedgerState)
    (offers : List ClaimOfferAtom) (last : SimplePaymentResult)
    (h : op.doApply env source s = .ok (.success offers last) t) :
    last = ⟨op.destination, op.destAsset, op.destAmount⟩ ∧
      (∃ sent, Paid source op s t offers sent) ∧
      ∀ a A, a ≠ op.destination → a ≠ source → (∀ atom ∈ offers, atom.sellerID ≠ a) →
        t.balance a A = s.balance a A := by
  have hrun := wp_ok (wp_doApply_paid env source op) h
  obtain ⟨hlast, sent, hpaid⟩ := hrun offers last rfl
  refine ⟨hlast, ⟨sent, hpaid⟩, fun a A hdest hsource hsellers => ?_⟩
  have hpays := hpaid.pays a A
  have hflow : (gains op.destination op.destAsset op.destAmount + trailFlow offers +
      gains source op.sendAsset (-sent)) a A = 0 := by
    simp [gains, hdest, hsource, trailFlow_eq_zero hsellers]
  rw [hpays, hflow, ite_self, add_zero]

/-- Account 1 pays itself 100 of the asset of account 2, through the offer of that account. -/
def sampleOp : PathPaymentOp where
  sendAsset := .native
  sendMax := 200
  destination := 1
  destAsset := sampleCredit
  destAmount := 100
  path := []

theorem pathPayment_exact_sample :
    ∃ t, sampleOp.doApply sampleEnv 1 sampleBook =
        .ok (.success [sampleTrade] ⟨1, sampleCredit, 100⟩) t ∧
      ∃ sent, Paid 1 sampleOp sampleBook t [sampleTrade] sent := by
  have hrun : (sampleOp.doApply sampleEnv 1).run' sampleBook =
      some (.success [sampleTrade] ⟨1, sampleCredit, 100⟩) := by
    decide +kernel
  obtain ⟨t, ht⟩ := exists_run_eq hrun
  exact ⟨t, ht, (pathPayment_exact _ _ _ _ _ _ _ ht).2.1⟩

end PathPaymentOp

/-! ### Result codes of payments -/

/-- The account keeps to its bounds: liabilities are within balance and limits, and the reserve is
a number of its type. -/
structure AccountEntry.Sound (header : LedgerHeader) (acc : AccountEntry) : Prop where
  bounded : acc.Bounded header
  balance_nonneg : 0 ≤ acc.balance
  reserve_le : reserve header acc.numSubEntries ≤ int64Max

structure TrustLineEntry.Sound (line : TrustLineEntry) : Prop where
  bounded : line.Bounded
  balance_nonneg : 0 ≤ line.balance
  limit_le : line.limit ≤ int64Max

structure LedgerState.Sound (s : LedgerState) : Prop where
  accounts : ∀ a acc, s.accounts.lookup a = some acc → acc.Sound s.header
  trustLines : ∀ k line, s.trustLines.lookup k = some line → line.Sound

section Codes

variable {header : LedgerHeader} {acc : AccountEntry} {line : TrustLineEntry} {x : Int}

theorem AccountEntry.Sound.getMinBalance (h : acc.Sound header) :
    getMinBalance header acc.numSubEntries = .ok (reserve header acc.numSubEntries) := by
  have hreserve := reserve_nonneg header acc.numSubEntries
  exact int64_eq_ok.2 ⟨rfl, by unfold int64Max; omega, h.reserve_le⟩

/-- A change of the balance that the bounds allow is made. -/
theorem AccountEntry.Sound.addBalance (h : acc.Sound header) (hcan : acc.CanAdd header x) :
    acc.addBalance header x = .ok (some { acc with balance := acc.balance + x }) := by
  unfold AccountEntry.addBalance
  split
  case isTrue hx => simp [hx]
  case isFalse hx =>
    obtain ⟨hnonneg, hsell, hbuy, hmax⟩ := hcan.resolve_left hx
    have hbuying := h.bounded.buying_nonneg
    have hbalance := h.balance_nonneg
    rw [addBalance_eq_ok.2 ⟨⟨hbalance, by decide⟩, (if_pos (.inr ⟨hnonneg, hmax⟩)).symm⟩, ok_bind]
    simp only [h.getMinBalance, ok_bind]
    rw [if_neg fun hlow => not_lt.2 (hsell hlow.1) hlow.2,
      int64_eq_ok.2 ⟨rfl, by unfold int64Max at *; omega, by omega⟩, ok_bind,
      if_neg (not_lt.2 hbuy)]
    rfl

theorem AccountEntry.Sound.add (h : acc.Sound header) (hcan : acc.CanAdd header x) :
    AccountEntry.Sound header { acc with balance := acc.balance + x } where
  bounded := hcan.bounded h.bounded
  balance_nonneg := by
    have hbalance := h.balance_nonneg
    rcases hcan with rfl | hcan
    · simpa using hbalance
    · exact hcan.1
  reserve_le := h.reserve_le

/-- What an account has available is what it holds above reserve and liabilities. -/
theorem AccountEntry.Sound.getAvailableBalance (h : acc.Sound header) :
    acc.getAvailableBalance header =
      .ok (acc.balance - reserve header acc.numSubEntries - acc.getSellingLiabilities) := by
  have hreserve := reserve_nonneg header acc.numSubEntries
  have hreserve' := h.reserve_le
  have hbalance := h.balance_nonneg
  have hbuying := h.bounded.buying_nonneg
  have hbuying' := h.bounded.buying_le
  have hselling := h.bounded.selling_nonneg
  have hselling' := h.bounded.selling_le
  simp only [AccountEntry.getAvailableBalance, h.getMinBalance, ok_bind]
  rw [int64_eq_ok.2 ⟨rfl, by unfold int64Max at *; omega, by omega⟩, ok_bind]
  exact int64_eq_ok.2 ⟨rfl, by unfold int64Max at *; omega, by omega⟩

theorem TrustLineEntry.Sound.addBalance (h : line.Sound) (htrusts : line.Trusts) (x : Int) :
    ∃ r, line.addBalance x = .ok r := by
  have hbalance := h.balance_nonneg
  have hlimit := h.limit_le
  have hbuying := (h.bounded.nonneg htrusts).1
  have hbuying' := h.bounded.buying_le
  have hmax : int64 (line.limit - line.getBuyingLiabilities) =
      .ok (line.limit - line.getBuyingLiabilities) :=
    int64_eq_ok.2 ⟨rfl, by unfold int64Max at *; omega, by omega⟩
  by_cases hx : x = 0
  · exact ⟨_, if_pos hx⟩
  · by_cases hauth : line.isAuthorized = true
    · obtain ⟨result, hresult⟩ : ∃ r, Ledger.addBalance line.balance x line.limit = .ok r :=
        ⟨_, addBalance_eq_ok.2 ⟨⟨hbalance, by omega⟩, rfl⟩⟩
      unfold TrustLineEntry.addBalance
      rw [if_neg hx, if_neg (by simp [hauth]), hresult, ok_bind]
      cases result with
      | none => exact ⟨none, rfl⟩
      | some newBalance =>
        simp only [hmax, ok_bind]
        split
        · exact ⟨none, rfl⟩
        · exact ⟨_, rfl⟩
    · unfold TrustLineEntry.addBalance
      rw [if_neg hx, if_pos (by simpa using hauth)]
      exact ⟨none, rfl⟩

theorem TrustLineEntry.Sound.add (h : line.Sound) (hcan : line.CanAdd x) :
    TrustLineEntry.Sound { line with balance := line.balance + x } where
  bounded := hcan.bounded h.bounded
  balance_nonneg := by
    have hbalance := h.balance_nonneg
    rcases hcan with rfl | hcan
    · simpa using hbalance
    · exact hcan.2.1
  limit_le := h.limit_le

variable {s t : LedgerState} {w : TrustLineWrapper}

theorem LedgerState.Sound.putAccount (h : s.Sound) (hacc : acc.Sound s.header) :
    (s.putAccount acc).Sound where
  accounts := by
    intro a acc' hlookup
    rw [LedgerState.putAccount, Table.lookup_upsert] at hlookup
    split at hlookup
    · cases hlookup
      exact hacc
    · exact h.accounts a acc' hlookup
  trustLines := h.trustLines

theorem LedgerState.Sound.putTrustLine (h : s.Sound) (hline : line.Sound) :
    (s.putTrustLine line).Sound where
  accounts := h.accounts
  trustLines := by
    intro k line' hlookup
    rw [LedgerState.putTrustLine, Table.lookup_upsert] at hlookup
    split at hlookup
    · cases hlookup
      exact hline
    · exact h.trustLines k line' hlookup

/-- The result of a path payment that a payment knows how to report. -/
def Reportable (result : PathPaymentResult) : Prop :=
  ∃ code, PaymentOp.translate result = .ok code

/-- The outcome of a part of a payment that has not failed unexpectedly. -/
def Reported {α : Type} (ok : α → Prop) : Except PathPaymentResult α → Prop
  | .error failure => Reportable failure
  | .ok a => ok a

/-- What is known of the ledger between the parts of a payment. -/
structure StaysSound (s t : LedgerState) : Prop where
  sound : t.Sound
  present : ∀ a, (s.accounts.lookup a).isSome → (t.accounts.lookup a).isSome

/-- The wrapper gives access to the account's side of the asset in this ledger. -/
def TrustLineWrapper.Accesses (s : LedgerState) (a : AccountID) (A : Asset) :
    TrustLineWrapper → Prop
  | .inactive => False
  | .issuer => A.issuer? = some a
  | .nonIssuer b B => b = a ∧ B = A ∧ A.issuer? ≠ some a ∧
      ∃ line, s.trustLines.lookup (b, B) = some line

theorem wp_loadTrustLine_accesses (hA : A ≠ .native) :
    wp (loadTrustLine a A) (fun w t => t = s ∧ (w.isActive = true → w.Accesses s a A))
      (fun _ _ => False) s :=
  wp_loadTrustLine hA (fun hissuer => ⟨rfl, fun _ => hissuer⟩)
    (fun hissuer line hlookup => ⟨rfl, fun _ => ⟨rfl, rfl, hissuer, line, hlookup⟩⟩)
    fun _ _ => ⟨rfl, fun h => Bool.noConfusion h⟩

theorem wp_isAuthorized_sound (h : w.Accesses s a A) :
    wp w.isAuthorized (fun _ t => t = s) (fun _ _ => False) s := by
  cases w with
  | inactive => exact h.elim
  | issuer => exact wp_pure.2 rfl
  | nonIssuer b B =>
    obtain ⟨-, -, -, line, hlookup⟩ := h
    refine wp_get_bind.2 (wp_bind.2 (wp_active.2 ⟨?_, fun hnone => ?_⟩))
    · intro _ _
      exact wp_runExcept.2 ⟨fun _ _ => rfl, fun _ herror => by cases herror⟩
    · rw [hlookup] at hnone
      cases hnone

/-- Adding to the balance of a line never throws. -/
theorem wp_addLineBalance_sound (hs : s.Sound) (hA : A ≠ .native) (h : w.Accesses s a A) (x : Int) :
    wp (w.addBalance x) (fun _ => StaysSound s) (fun _ _ => False) s := by
  cases w with
  | inactive => exact h.elim
  | issuer => exact wp_pure.2 ⟨hs, fun _ h => h⟩
  | nonIssuer b B =>
    obtain ⟨rfl, rfl, hissuer, present, hpresent⟩ := h
    have htrusts : ∀ line, s.trustLines.lookup (b, B) = some line → line.Trusts := by
      intro line hlookup
      obtain ⟨hid, hasset⟩ := trustLine_of_lookup hlookup
      rw [TrustLineEntry.Trusts, hid, hasset]
      exact ⟨hA, hissuer⟩
    refine wp_updateLine (fun hnone => ?_) (fun line e hlookup herror => ?_)
      (fun _ _ _ => ⟨hs, fun _ h => h⟩) fun line line' hlookup hresult => ?_
    · rw [hpresent] at hnone
      cases hnone
    · obtain ⟨r, hr⟩ := (hs.trustLines _ _ hlookup).addBalance (htrusts line hlookup) x
      rw [hr] at herror
      cases herror
    · obtain ⟨rfl, hcan⟩ := TrustLineEntry.addBalance_some hresult
      exact ⟨hs.putTrustLine ((hs.trustLines _ _ hlookup).add hcan), fun _ h => h⟩

/-- Adding to the balance of an account that has room for it. -/
theorem wp_addAccountBalance_sound (hs : s.Sound) (hacc : s.accounts.lookup a = some acc)
    (hcan : acc.CanAdd s.header x) :
    wp (addAccountBalance a x) (fun done t => done = true ∧ StaysSound s t) (fun _ _ => False)
      s := by
  have hsound := hs.accounts a acc hacc
  have hadd := hsound.addBalance hcan
  refine wp_updateAccount (fun hnone => ?_) (fun acc' e hacc' herror => ?_)
    (fun acc' hacc' hrefused => ?_) fun acc' acc'' hacc' hdone => ?_
  · rw [hacc] at hnone
    cases hnone
  · cases hacc.symm.trans hacc'
    cases hadd.symm.trans herror
  · cases hacc.symm.trans hacc'
    cases hadd.symm.trans hrefused
  · cases hacc.symm.trans hacc'
    cases hadd.symm.trans hdone
    refine ⟨rfl, hs.putAccount (hsound.add hcan), fun b hb => ?_⟩
    rw [LedgerState.putAccount, Table.lookup_upsert]
    split
    · rfl
    · exact hb

variable {op : PaymentOp} {source : AccountID}

/-- There is room for the payment at its destination. -/
def PaymentOp.HasRoom (op : PaymentOp) (s : LedgerState) : Prop :=
  op.asset = .native → ∀ acc, s.accounts.lookup op.destination = some acc →
    acc.balance + acc.getBuyingLiabilities + op.amount ≤ int64Max

theorem wp_creditDestination_sound (hs : s.Sound) (hpos : 0 < op.amount) (hroom : op.HasRoom s) :
    wp op.toPathPayment.creditDestination (fun r t => Reported (fun _ => StaysSound s t) r)
      (fun _ _ => False) s := by
  refine wp_bind.2 (wp_accountExists.2 ?_)
  refine wp_unless ⟨_, rfl⟩ fun hfound => ?_
  refine wp_ite.2 ⟨fun hnative => ?_, fun hcredit => ?_⟩
  · have hnative : op.asset = .native := hnative
    obtain ⟨acc, hacc⟩ : ∃ acc, s.accounts.lookup op.destination = some acc := by
      simp only [PathPaymentOp.bypassIssuerCheck, PaymentOp.toPathPayment, hnative] at hfound
      exact Option.ne_none_iff_exists'.1 (by simpa using hfound)
    have hsound := hs.accounts _ _ hacc
    have hbalance := hsound.balance_nonneg
    have hbuying := hsound.bounded.buying_nonneg
    have hfits := hroom hnative acc hacc
    have hcan : acc.CanAdd s.header op.amount :=
      Or.inr ⟨by omega, fun hneg => by omega, by omega, by omega⟩
    refine wp_seq (wp_addAccountBalance_sound hs hacc hcan) ?_
    rintro _ t ⟨rfl, hstays⟩
    exact wp_pure.2 hstays
  · refine wp_bind.2 (wp_issuerExists.2 ?_)
    refine wp_unless ⟨_, rfl⟩ fun _ => ?_
    refine wp_seq (wp_loadTrustLine_accesses hcredit) ?_
    rintro destLine _ ⟨rfl, haccesses⟩
    refine wp_unless ⟨_, rfl⟩ fun hactive => ?_
    have haccesses := haccesses (by simpa using hactive)
    refine wp_seq (wp_isAuthorized_sound haccesses) ?_
    rintro authorized _ rfl
    refine wp_unless ⟨_, rfl⟩ fun _ => ?_
    refine wp_seq (wp_addLineBalance_sound hs hcredit haccesses _) ?_
    intro added t hstays
    refine wp_pure.2 ?_
    cases added with
    | true => exact hstays
    | false => exact ⟨_, rfl⟩

theorem wp_debitSource_sound (hs : s.Sound) (hsource : (s.accounts.lookup source).isSome)
    (hpos : 0 < op.amount) :
    wp (op.toPathPayment.debitSource source ⟨op.asset, op.amount, []⟩)
      (fun r _ => Reported (fun _ => True) r) (fun _ _ => False) s := by
  refine wp_ite.2 ⟨fun hmax => absurd hmax (lt_irrefl _), fun _ => ?_⟩
  refine wp_ite.2 ⟨fun hnative => ?_, fun hcredit => ?_⟩
  · obtain ⟨acc, hacc⟩ := Option.isSome_iff_exists.1 hsource
    have hsound := hs.accounts _ _ hacc
    refine wp_bind.2 (wp_loadAccount.2 ?_)
    rw [hacc]
    refine wp_bind.2 (wp_loadHeader.2 ?_)
    rw [hsound.getAvailableBalance]
    refine wp_bind.2 (wp_pure.2 ?_)
    refine wp_unless ⟨_, rfl⟩ fun havailable => ?_
    have havailable : op.amount ≤ acc.balance - reserve s.header acc.numSubEntries -
        acc.getSellingLiabilities := not_lt.1 havailable
    have hreserve := reserve_nonneg s.header acc.numSubEntries
    have hbuying := hsound.bounded.buying_nonneg
    have hbuying' := hsound.bounded.buying_le
    have hselling := hsound.bounded.selling_nonneg
    have hcan : acc.CanAdd s.header (-op.amount) :=
      Or.inr ⟨by omega, fun _ => by omega, by omega, by omega⟩
    refine wp_seq (wp_addAccountBalance_sound hs hacc hcan) ?_
    rintro _ t ⟨rfl, -⟩
    exact wp_bind.2 (wp_ensure.2
      ⟨fun _ => wp_pure.2 trivial, fun h => Bool.noConfusion h⟩)
  · refine wp_bind.2 (wp_issuerExists.2 ?_)
    refine wp_unless ⟨_, rfl⟩ fun _ => ?_
    refine wp_seq (wp_loadTrustLine_accesses hcredit) ?_
    rintro sourceLine _ ⟨rfl, haccesses⟩
    refine wp_unless ⟨_, rfl⟩ fun hactive => ?_
    have haccesses := haccesses (by simpa using hactive)
    refine wp_seq (wp_isAuthorized_sound haccesses) ?_
    rintro authorized _ rfl
    refine wp_unless ⟨_, rfl⟩ fun _ => ?_
    refine wp_seq (wp_addLineBalance_sound hs hcredit haccesses _) ?_
    intro removed t _
    refine wp_pure.2 ?_
    cases removed with
    | true => trivial
    | false => exact ⟨_, rfl⟩

theorem wp_pathPayment_reportable (env : Env) (hs : s.Sound)
    (hsource : (s.accounts.lookup source).isSome) (hpos : 0 < op.amount) (hroom : op.HasRoom s) :
    wp (op.toPathPayment.doApply env source) (fun r _ => Reportable r) (fun _ _ => False) s := by
  refine wp_seq (wp_creditDestination_sound hs hpos hroom) ?_
  intro credited t hcredited
  cases credited with
  | error failure => exact wp_pure.2 hcredited
  | ok _ =>
    have hstays : StaysSound s t := hcredited
    -- the path has one asset, which is the one that arrives
    have hpath : PathPaymentOp.convertPath env source [op.asset]
        ⟨op.asset, op.amount, []⟩ t = .ok (.ok ⟨op.asset, op.amount, []⟩) t := by
      simp only [PathPaymentOp.convertPath, PathPaymentOp.convertLeg, if_true]
      rfl
    refine wp_bind.2 (wp_of_ok hpath ?_)
    refine wp_seq (wp_debitSource_sound hstays.sound
      (hstays.present source hsource) hpos) ?_
    intro debited u hdebited
    cases debited with
    | error failure => exact wp_pure.2 hdebited
    | ok _ => exact wp_pure.2 ⟨_, rfl⟩

theorem PaymentOp.toPathPayment_valid (hvalid : op.doCheckValid = none) :
    op.toPathPayment.doCheckValid = none ∧ 0 < op.amount := by
  simp only [PaymentOp.doCheckValid] at hvalid
  split at hvalid
  · cases hvalid
  · split at hvalid
    · cases hvalid
    · rename_i hpos hasset
      simp only [not_le] at hpos
      refine ⟨?_, hpos⟩
      simp only [PathPaymentOp.doCheckValid, PaymentOp.toPathPayment]
      simp [hasset, not_le.2 hpos]

/-- Without room for a native payment its destination is not credited. -/
theorem wp_creditDestination_room (hnative : op.asset = .native) (hpos : 0 < op.amount) :
    wp op.toPathPayment.creditDestination (fun r _ => op.HasRoom s ∨ r = .error .malformed)
      (fun _ _ => True) s := by
  refine wp_bind.2 (wp_accountExists.2 ?_)
  refine wp_ite.2 ⟨fun hmissing => wp_pure.2 (.inl fun _ acc hacc => ?_), fun _ => ?_⟩
  · simp [PaymentOp.toPathPayment, hacc] at hmissing
  · refine wp_ite.2 ⟨fun _ => wp_bind.2 ?_, fun hcredit => absurd hnative hcredit⟩
    refine wp_updateAccount (fun _ => trivial) (fun _ _ _ _ => trivial)
      (fun _ _ _ => wp_pure.2 (.inr rfl)) fun acc acc' hacc hdone => wp_pure.2 (.inl ?_)
    have hcan := (AccountEntry.addBalance_some hdone).2
    intro _ acc'' hacc''
    cases hacc.symm.trans hacc''
    obtain ⟨_, _, hbuy, _⟩ := hcan.resolve_left hpos.ne'
    change acc.balance + op.amount ≤ _ at hbuy
    omega

/-- A valid payment returns a result code, for every ledger that keeps to the bounds, exactly when
it is made to its source or there is room for it at its destination. -/
theorem payment_returns (env : Env) (source : AccountID) (op : PaymentOp) (s : LedgerState)
    (hvalid : op.doCheckValid = none) (hs : s.Sound)
    (hsource : (s.accounts.lookup source).isSome) :
    (∃ result t, op.doApply env source s = .ok result t) ↔
      op.destination = source ∨ op.HasRoom s := by
  obtain ⟨hpath, hpos⟩ := PaymentOp.toPathPayment_valid hvalid
  constructor
  · rintro ⟨result, t, hdone⟩
    by_cases hnative : op.asset = .native
    case neg => exact .inr fun h => absurd h hnative
    have hrun : wp (op.doApply env source) (fun _ _ => op.destination = source ∨ op.HasRoom s)
        (fun _ _ => True) s := by
      refine wp_ite.2 ⟨fun hself => wp_pure.2 (.inl hself.1), fun _ => ?_⟩
      rw [hpath]
      refine wp_bind.2 (wp_bind.2 (wp_imp (wp_creditDestination_room hnative hpos) ?_))
      rintro credited u (hroom | rfl)
      · refine wp_imp (wp_true _ _) fun _ u _ => ?_
        exact wp_imp (wp_true _ u) fun _ _ _ => .inr hroom
      · refine wp_pure.2 (wp_runExcept.2 ⟨fun _ h => ?_, fun _ _ => trivial⟩)
        cases h
    have hresult := wp_ok hrun hdone
    exact hresult
  · intro hcondition
    have hrun : wp (op.doApply env source) (fun _ _ => True) (fun _ _ => False) s := by
      refine wp_unless trivial fun hother => ?_
      have hroom : op.HasRoom s :=
        hcondition.elim (fun hself hnative => absurd ⟨hself, hnative⟩ hother) id
      rw [hpath]
      refine wp_bind.2 (wp_imp (wp_pathPayment_reportable env hs hsource hpos hroom) ?_)
      rintro result t ⟨code, hcode⟩
      rw [hcode]
      exact wp_pure.2 trivial
    exact exists_ok_of_wp hrun

/-- A ledger with two accounts, of which the second one has an offer for 150 of the native asset. -/
def twoAccounts (balance : Int) : LedgerState where
  header := sampleBook.header
  accounts := (Table.empty.upsert ⟨1, 10 ^ 6, 0, 0, none, 0, [], ⟨1, 0, 0, 0⟩, [], none⟩).upsert
    ⟨2, balance, 0, 1, none, 0, [], ⟨1, 0, 0, 0⟩, [], some ⟨150, 0⟩⟩
  trustLines := Table.empty
  offers := Table.empty.upsert sampleMaker
  data := Table.empty

theorem twoAccounts_sound {balance : Int} (hnonneg : 0 ≤ balance)
    (hle : 150 ≤ int64Max - balance) : (twoAccounts balance).Sound where
  accounts := by
    intro a acc hacc
    have hreserve : reserve sampleBook.header 1 ≤ int64Max := by decide
    have hreserve' : reserve sampleBook.header 0 ≤ int64Max := by decide
    have hbuying : (0 : Int) ≤ 150 := by decide
    simp only [twoAccounts, Table.lookup_upsert, key_account] at hacc
    split_ifs at hacc
    · cases hacc
      exact ⟨⟨hbuying, le_rfl, hle, Or.inl rfl⟩, hnonneg, hreserve⟩
    · cases hacc
      exact ⟨⟨le_rfl, le_rfl, by decide, Or.inl rfl⟩, by decide, hreserve'⟩
    · cases hacc
  trustLines := by
    intro k line hline
    cases hline

/-- Account 1 pays account 2 one unit of the native asset. -/
def sampleNative : PaymentOp where
  destination := 2
  asset := .native
  amount := 1

theorem payment_returns_sample :
    sampleNative.HasRoom (twoAccounts 1000000) ∧
      ∃ result t, sampleNative.doApply sampleEnv 1 (twoAccounts 1000000) = .ok result t := by
  have hroom : sampleNative.HasRoom (twoAccounts 1000000) := by
    intro _ acc hacc
    cases hacc
    decide
  have hsound : (twoAccounts 1000000).Sound := twoAccounts_sound (by decide) (by decide)
  exact ⟨hroom, (payment_returns sampleEnv 1 sampleNative _ (by decide) hsound (by decide)).2
    (.inr hroom)⟩

/-- The balance and the buying liabilities of the destination leave no room for the payment, which
throws. -/
theorem payment_throws :
    sampleNative.doCheckValid = none ∧ (twoAccounts (int64Max - 150)).Sound ∧
      ((twoAccounts (int64Max - 150)).accounts.lookup 1).isSome ∧
      ∃ t, sampleNative.doApply sampleEnv 1 (twoAccounts (int64Max - 150)) =
        .error .unexpectedPathPayment t := by
  refine ⟨by decide, twoAccounts_sound (by decide) (by decide), by decide, ?_⟩
  exact thrown_eq_some.1 (by decide +kernel)

end Codes

end SpnCore.Ledger
