import SpnCore.Transactions.EntryUpdates
import SpnCore.Transactions.PriceProtection

/-!
# The trail of a conversion

`convertWithOffers` crosses the best offer of the book until a limit is reached. Every turn but the
last one takes an offer out of the book, so the loop ends after at most as many turns as there are
offers, and its trail names offers in the order of the book. `convertWithOffers_converts` says all
that is known of the result: the sums over the trail, what is left of the book, and why the loop
stopped.
-/

namespace SpnCore.Ledger

open Lib List

/-! ### The trail -/

/-- The offer that an atom names. -/
def ClaimOfferAtom.offerKey (atom : ClaimOfferAtom) : AccountID × Nat :=
  (atom.sellerID, atom.offerID)

/-- The trail names different offers of a ledger, and none of them is better than an earlier
one. -/
def InBookOrder (env : Env) (s : LedgerState) (trail : List ClaimOfferAtom) : Prop :=
  trail.Pairwise fun a b => a.offerKey ≠ b.offerKey ∧
    ∀ o₁ o₂, s.offers.lookup a.offerKey = some o₁ → s.offers.lookup b.offerKey = some o₂ →
      isBetterOffer env o₂ o₁ = false

/-- What a trail has made of the offers of a ledger: all that it names were removed, except for the
last one, and no others were touched. -/
structure Trailed (env : Env) (s t : LedgerState) (trail : List ClaimOfferAtom) : Prop where
  removed : ∀ atom ∈ trail.dropLast, t.offers.lookup atom.offerKey = none
  others : ∀ key, key ∉ trail.map ClaimOfferAtom.offerKey →
    t.offers.lookup key = s.offers.lookup key
  ordered : InBookOrder env s trail

section Trails

variable {env : Env} {sheep wheat : Asset} {s₀ s t : LedgerState} {trail : List ClaimOfferAtom}
  {offer : OfferEntry} {atom : ClaimOfferAtom} {result : CrossOfferResult}

/-- A trail all of whose offers were removed, when the best offers went first. -/
structure TakenInOrder (env : Env) (sheep wheat : Asset) (s₀ s : LedgerState)
    (trail : List ClaimOfferAtom) : Prop where
  removed : ∀ atom ∈ trail, s.offers.lookup atom.offerKey = none
  others : ∀ key, key ∉ trail.map ClaimOfferAtom.offerKey →
    s.offers.lookup key = s₀.offers.lookup key
  ordered : InBookOrder env s₀ trail
  ahead : ∀ atom ∈ trail, ∀ made, s₀.offers.lookup atom.offerKey = some made →
    ∀ offer, Offers s sheep wheat offer → isBetterOffer env offer made = false

theorem TakenInOrder.start (s : LedgerState) : TakenInOrder env sheep wheat s s [] where
  removed := fun _ h => (not_mem_nil h).elim
  others := fun _ _ => rfl
  ordered := List.Pairwise.nil
  ahead := fun _ h => (not_mem_nil h).elim

theorem TakenInOrder.trailed (h : TakenInOrder env sheep wheat s₀ s trail) :
    Trailed env s₀ s trail where
  removed := fun atom hatom => h.removed atom (dropLast_subset _ hatom)
  __ := h

/-- The offers that are left are those of the start. -/
theorem TakenInOrder.lookup_start (h : TakenInOrder env sheep wheat s₀ s trail)
    {key : AccountID × Nat} (hkey : s.offers.lookup key = some offer) :
    key ∉ trail.map ClaimOfferAtom.offerKey ∧ s₀.offers.lookup key = some offer := by
  have hnew : key ∉ trail.map ClaimOfferAtom.offerKey := by
    intro hmem
    obtain ⟨atom, hatom, rfl⟩ := mem_map.1 hmem
    rw [h.removed atom hatom] at hkey
    cases hkey
  exact ⟨hnew, (h.others key hnew).symm.trans hkey⟩

theorem Settles.lookup_of_ne (h : Settles offer s t result) {key : AccountID × Nat}
    (hne : key ≠ (offer.sellerID, offer.offerID)) : t.offers.lookup key = s.offers.lookup key := by
  cases result with
  | eOfferTaken => rw [show t.offers = _ from h, Table.lookup_erase_of_ne _ hne]
  | eOfferPartial =>
    obtain ⟨amount, hput⟩ := h
    rw [hput, Table.lookup_upsert_of_ne hne]

variable (h : TakenInOrder env sheep wheat s₀ s trail)
  (hbest : getBestOffer env sheep wheat s = some offer)
  (hatom : atom.offerKey = (offer.sellerID, offer.offerID))
include h hbest hatom

/-- The best offer that is left comes after the trail. -/
theorem TakenInOrder.ordered_append : InBookOrder env s₀ (trail ++ [atom]) := by
  have hoffer := (getBestOffer_eq_some hbest).1
  obtain ⟨hnew, hstart⟩ := h.lookup_start hoffer.1
  refine pairwise_append.2 ⟨h.ordered, pairwise_singleton _ _, ?_⟩
  intro a ha b hb
  cases mem_singleton.1 hb
  refine ⟨fun heq => hnew (mem_map.2 ⟨a, ha, heq.trans hatom⟩), fun o₁ o₂ h₁ h₂ => ?_⟩
  rw [hatom, hstart] at h₂
  cases h₂
  exact h.ahead a ha o₁ h₁ offer hoffer

/-- Crossing the best offer, whatever remains of it. -/
theorem TakenInOrder.settle (hsettles : Settles offer s t result) :
    Trailed env s₀ t (trail ++ [atom]) where
  removed := by
    intro a ha
    rw [dropLast_concat] at ha
    have hnew := (h.lookup_start (getBestOffer_eq_some hbest).1.1).1
    have hne : a.offerKey ≠ (offer.sellerID, offer.offerID) := fun heq =>
      hnew (mem_map.2 ⟨a, ha, heq⟩)
    rw [hsettles.lookup_of_ne hne]
    exact h.removed a ha
  others := by
    intro key hkey
    rw [map_append, mem_append, not_or, map_singleton, mem_singleton, hatom]
      at hkey
    rw [hsettles.lookup_of_ne hkey.2]
    exact h.others key hkey.1
  ordered := h.ordered_append hbest hatom

/-- Taking the best offer. -/
theorem TakenInOrder.take (htaken : Settles offer s t .eOfferTaken) :
    TakenInOrder env sheep wheat s₀ t (trail ++ [atom]) := by
  have htrailed := h.settle hbest hatom htaken
  have hbook : t.offers = s.offers.erase (offer.sellerID, offer.offerID) := htaken
  refine ⟨fun a ha => ?_, htrailed.others, htrailed.ordered, fun a ha made hmade o ho => ?_⟩
  · rcases mem_append.1 ha with ha | ha
    · exact htrailed.removed a (by rwa [dropLast_concat])
    · cases mem_singleton.1 ha
      rw [hatom, hbook, Table.lookup_erase_self]
  · -- what is left now was left before
    have hbefore : Offers s sheep wheat o := by
      refine ⟨?_, ho.2⟩
      have hlookup := ho.1
      rw [hbook, Table.lookup_erase] at hlookup
      split at hlookup
      · cases hlookup
      · exact hlookup
    rcases mem_append.1 ha with ha | ha
    · exact h.ahead a ha made hmade o hbefore
    · cases mem_singleton.1 ha
      rw [hatom, (h.lookup_start (getBestOffer_eq_some hbest).1.1).2] at hmade
      cases hmade
      exact isBetterOffer_getBestOffer hbest hbefore

end Trails

/-! ### The loop -/

/-- The last offer of the trail was larger than what was left to exchange: wheat stays. -/
def LastStays (isPathPayment : Bool) (maxSheepSend maxWheatReceive : Int) (s : LedgerState)
    (r : Conversion) : Prop :=
  ∃ atom offer maxWheatSend maxSheepReceive, r.offerTrail.getLast? = some atom ∧
    s.offers.lookup atom.offerKey = some offer ∧
    exchangeV10 offer.price maxWheatSend (maxWheatReceive - (r.wheatReceived - atom.amountSold))
      (maxSheepSend - (r.sheepSend - atom.amountBought)) maxSheepReceive isPathPayment =
        .ok ⟨atom.amountSold, atom.amountBought, true⟩

/-- The result of a conversion with positive limits. -/
structure Converts (env : Env) (sheep wheat : Asset) (filter : OfferFilter) (isPathPayment : Bool)
    (maxSheepSend maxWheatReceive : Int) (s t : LedgerState) (r : Conversion) : Prop where
  trades : ∀ atom ∈ r.offerTrail, Trade sheep wheat filter isPathPayment s atom
  sent : r.sheepSend = (r.offerTrail.map ClaimOfferAtom.amountBought).sum
  received : r.wheatReceived = (r.offerTrail.map ClaimOfferAtom.amountSold).sum
  sent_le : r.sheepSend ≤ maxSheepSend
  received_le : r.wheatReceived ≤ maxWheatReceive
  trailed : Trailed env s t r.offerTrail
  done : r.result = .eOK → r.sheepSend = maxSheepSend ∨ r.wheatReceived = maxWheatReceive ∨
    LastStays isPathPayment maxSheepSend maxWheatReceive s r
  emptied : r.result = .ePartial → ∀ offer, ¬ Offers t sheep wheat offer
  stopped : ∀ reason, r.result = .eFilterStop reason →
    ∃ offer, getBestOffer env sheep wheat t = some offer ∧ filter offer = .ok (some reason) ∧
      s.offers.lookup (offer.sellerID, offer.offerID) = some offer

section Loop

variable {env : Env} {sheep wheat : Asset} {filter : OfferFilter} {isPathPayment : Bool}
  {maxSheepSend maxWheatReceive : Int} {s₀ s t : LedgerState} {total : Conversion}

/-- Taking an offer leaves fewer of them. -/
theorem length_values_of_taken {offer : OfferEntry}
    (hoffer : s.offers.lookup (offer.sellerID, offer.offerID) = some offer)
    (htaken : Settles offer s t .eOfferTaken) :
    t.offers.values.length + 1 = s.offers.values.length := by
  have hbook : t.offers = s.offers.erase (offer.sellerID, offer.offerID) := htaken
  have hcount : ∀ offers : Table OfferEntry,
      Table.total (fun _ => (1 : Int)) offers = offers.values.length := by
    intro offers
    rw [Table.total_eq_sum]
    simp
  have hweight : Table.weight (fun _ => (1 : Int)) s.offers (offer.sellerID, offer.offerID) = 1 :=
    Table.weight_of_lookup _ hoffer
  have herase := Table.total_erase (f := fun _ => (1 : Int)) s.offers
    (offer.sellerID, offer.offerID)
  rw [hweight, hcount, hcount, ← hbook] at herase
  omega

/-- What the loop keeps between its turns. -/
structure Underway (env : Env) (sheep wheat : Asset) (filter : OfferFilter) (isPathPayment : Bool)
    (maxSheepSend maxWheatReceive : Int) (s₀ s : LedgerState) (total : Conversion) : Prop where
  progress : Progress sheep wheat filter isPathPayment maxSheepSend s₀ s total
  received_le : total.wheatReceived ≤ maxWheatReceive
  taken : TakenInOrder env sheep wheat s₀ s total.offerTrail

theorem Underway.converts
    (h : Underway env sheep wheat filter isPathPayment maxSheepSend maxWheatReceive s₀ s total)
    {result : ConvertResult} (hended : Ended env sheep wheat filter s result)
    (hne : result ≠ .eOK) :
    Converts env sheep wheat filter isPathPayment maxSheepSend maxWheatReceive s₀ s
      { total with result := result } where
  trades := h.progress.trades
  sent := h.progress.sent
  received := h.progress.received
  sent_le := h.progress.sent_le
  received_le := h.received_le
  trailed := h.taken.trailed
  done := fun heq => absurd heq hne
  emptied := by
    rintro rfl
    exact getBestOffer_eq_none hended
  stopped := by
    rintro reason rfl
    obtain ⟨offer, hbest, hstop⟩ := hended
    exact ⟨offer, hbest, hstop, (h.taken.lookup_start (getBestOffer_eq_some hbest).1.1).2⟩

/-- What is known after an offer was crossed. -/
structure Crossing (env : Env) (sheep wheat : Asset) (filter : OfferFilter) (isPathPayment : Bool)
    (maxSheepSend maxWheatReceive : Int) (s t : LedgerState) (offer : OfferEntry)
    (crossed : CrossedOffer) : Prop where
  best : getBestOffer env sheep wheat s = some offer
  passed : filter offer = .ok none
  settles : Settles offer s t crossed.result
  sent_le : crossed.numSheepSend ≤ maxSheepSend
  reports : Crossed offer maxWheatReceive maxSheepSend isPathPayment crossed

theorem Crossing.received_le {offer : OfferEntry} {crossed : CrossedOffer}
    (h : Crossing env sheep wheat filter isPathPayment maxSheepSend maxWheatReceive s t offer
      crossed) : crossed.numWheatReceived ≤ maxWheatReceive := by
  obtain ⟨_, _, hexchange⟩ := h.reports.exchange
  exact (exchangeV10_within hexchange).wheat_le_receive

theorem Crossing.offerKey {offer : OfferEntry} {crossed : CrossedOffer}
    (h : Crossing env sheep wheat filter isPathPayment maxSheepSend maxWheatReceive s t offer
      crossed) : crossed.atom.offerKey = (offer.sellerID, offer.offerID) := by
  rw [h.reports.atom]
  rfl

variable {offer : OfferEntry} {crossed : CrossedOffer}

section

variable (h : Underway env sheep wheat filter isPathPayment maxSheepSend maxWheatReceive s₀ s total)
  (hcrossing : Crossing env sheep wheat filter isPathPayment
    (maxSheepSend - total.sheepSend) (maxWheatReceive - total.wheatReceived) s t offer crossed)
include h hcrossing

theorem Underway.progress_add :
    Progress sheep wheat filter isPathPayment maxSheepSend s₀ t (total.add crossed) ∧
      (total.add crossed).wheatReceived ≤ maxWheatReceive := by
  have hoffer := (getBestOffer_eq_some hcrossing.best).1
  refine ⟨h.progress.add (hcrossing.settles.thinned hoffer.1) hoffer hcrossing.passed
    hcrossing.reports hcrossing.sent_le, ?_⟩
  have hle := hcrossing.received_le
  simp only [Conversion.add]
  omega

/-- The loop goes on with an offer taken. -/
theorem Underway.take (htaken : crossed.result = .eOfferTaken) :
    Underway env sheep wheat filter isPathPayment maxSheepSend maxWheatReceive s₀ t
      (total.add crossed) := by
  obtain ⟨hprogress, hle⟩ := h.progress_add hcrossing
  exact ⟨hprogress, hle,
    h.taken.take hcrossing.best hcrossing.offerKey (htaken ▸ hcrossing.settles)⟩

/-- The loop ends with a limit reached or an offer that stays. -/
theorem Underway.finish (hends : crossed.wheatStays = true ∨
      maxWheatReceive - total.wheatReceived - crossed.numWheatReceived ≤ 0 ∨
      maxSheepSend - total.sheepSend - crossed.numSheepSend ≤ 0) :
    Converts env sheep wheat filter isPathPayment maxSheepSend maxWheatReceive s₀ t
      { total.add crossed with result := .eOK } := by
  obtain ⟨hprogress, hle⟩ := h.progress_add hcrossing
  have hoffer := (getBestOffer_eq_some hcrossing.best).1
  refine ⟨hprogress.trades, hprogress.sent, hprogress.received, hprogress.sent_le, hle,
    h.taken.settle hcrossing.best hcrossing.offerKey hcrossing.settles, fun _ => ?_,
    (fun heq => by cases heq), (fun reason heq => by cases heq)⟩
  have hsent := hprogress.sent_le
  simp only [Conversion.add] at hsent hle ⊢
  rcases hends with hstays | hwheat | hsheep
  · refine Or.inr (Or.inr ?_)
    obtain ⟨maxWheatSend, maxSheepReceive, hexchange⟩ := hcrossing.reports.exchange
    refine ⟨crossed.atom, offer, maxWheatSend, maxSheepReceive, List.getLast?_concat, ?_, ?_⟩
    · rw [hcrossing.offerKey]
      exact (h.taken.lookup_start hoffer.1).2
    · rw [hcrossing.reports.atom]
      simp only [add_sub_cancel_right]
      rw [← hstays]
      exact hexchange
  · exact Or.inr (Or.inl (by omega))
  · exact Or.inl (by omega)

end

/-- From every turn on, the loop ends in at most as many turns as there are offers. -/
theorem wp_convertLoop_converts (hfilter : ∀ offer, filter offer ≠ .error .outOfFuel) (fuel : Nat)
    (h : Underway env sheep wheat filter isPathPayment maxSheepSend maxWheatReceive s₀ s total)
    (hfuel : s.offers.values.length < fuel) :
    wp (convertLoop env sheep wheat filter isPathPayment fuel (maxSheepSend - total.sheepSend)
        (maxWheatReceive - total.wheatReceived) total)
      (fun r t => Converts env sheep wheat filter isPathPayment maxSheepSend maxWheatReceive s₀ t r)
      (fun e _ => e ≠ .outOfFuel) s := by
  induction fuel generalizing s total with
  | zero => exact absurd hfuel (Nat.not_lt_zero _)
  | succ fuel ih =>
    refine wp_bind.2 (wp_mono wp_crossBestOffer ?_ fun _ _ h => h.2 hfilter)
    rintro turn t ⟨hturn, hruns⟩
    cases hturn with
    | noOffer hsame hbest =>
      cases hsame
      refine wp_pure.2 (h.converts hbest ?_)
      rintro ⟨⟩
    | stopped hsame hbest hstop =>
      cases hsame
      refine wp_pure.2 (h.converts ⟨_, hbest, hstop⟩ ?_)
      rintro ⟨⟩
    | @crossed offer crossed hthinned hbest hpassed hcrossed hle =>
      have hcrossing : Crossing env sheep wheat filter isPathPayment
          (maxSheepSend - total.sheepSend) (maxWheatReceive - total.wheatReceived) s t offer
          crossed :=
            ⟨hbest, hpassed, (hruns offer hbest).settles, hle, hcrossed⟩
      refine wp_ite.2 ⟨fun hends => ?_, fun hmore => ?_⟩
      · refine wp_pure.2 (h.finish hcrossing ?_)
        simp only [Bool.not_eq_true', Bool.and_eq_false_iff, Bool.not_eq_false',
          decide_eq_false_iff_not, not_lt] at hends
        tauto
      · simp only [Bool.not_eq_true', Bool.not_eq_false, Bool.and_eq_true, Bool.not_eq_true']
          at hmore
        have htaken := hcrossed.taken hmore.1.1
        refine wp_ite.2 ⟨fun hpartial => ?_, fun _ => ?_⟩
        · rw [htaken] at hpartial
          cases hpartial
        · have hlength := length_values_of_taken (getBestOffer_eq_some hbest).1.1
            (htaken ▸ hcrossing.settles)
          have hsheep : maxSheepSend - total.sheepSend - crossed.numSheepSend =
              maxSheepSend - (total.add crossed).sheepSend := by
            simp only [Conversion.add]
            omega
          have hwheat : maxWheatReceive - total.wheatReceived - crossed.numWheatReceived =
              maxWheatReceive - (total.add crossed).wheatReceived := by
            simp only [Conversion.add]
            omega
          rw [hsheep, hwheat]
          exact ih (h.take hcrossing htaken) (by omega)

/-- For every book, every filter and positive limits, a conversion ends; if it returns, the result
is as described by `Converts`. Filters cannot raise the error that stands for a loop without end. -/
theorem convertWithOffers_converts (env : Env) (sheep wheat : Asset) (filter : OfferFilter)
    (isPathPayment : Bool) (maxSheepSend maxWheatReceive : Int) (s : LedgerState)
    (hsheep : 0 < maxSheepSend) (hwheat : 0 < maxWheatReceive)
    (hfilter : ∀ offer, filter offer ≠ .error .outOfFuel) :
    (∀ t, convertWithOffers env sheep maxSheepSend wheat maxWheatReceive isPathPayment filter s ≠
      .error .outOfFuel t) ∧
    ∀ r t, convertWithOffers env sheep maxSheepSend wheat maxWheatReceive isPathPayment filter s =
        .ok r t →
      Converts env sheep wheat filter isPathPayment maxSheepSend maxWheatReceive s t r := by
  have hstart : Underway env sheep wheat filter isPathPayment maxSheepSend maxWheatReceive s s {} :=
    ⟨Progress.start hsheep.le, hwheat.le, TakenInOrder.start s⟩
  have hloop := wp_convertLoop_converts hfilter (s.offers.values.length + 1) hstart
    (Nat.lt_succ_self _)
  have hrun : wp (convertWithOffers env sheep maxSheepSend wheat maxWheatReceive isPathPayment
      filter)
      (fun r t => Converts env sheep wheat filter isPathPayment maxSheepSend maxWheatReceive s t r)
      (fun e _ => e ≠ .outOfFuel) s := by
    refine wp_get_bind.2 (wp_ite.2 ⟨fun _ => ?_, fun hnot => ?_⟩)
    · simpa only [Int.sub_zero] using hloop
    · exact absurd ⟨hwheat, hsheep⟩ hnot
  refine ⟨fun t hends => wp_error hrun hends rfl, fun r t hreturns => ?_⟩
  have hconverts := wp_ok hrun hreturns
  exact hconverts

/-- The whole offer of account 2 is taken, and the book is empty. -/
theorem convertWithOffers_converts_sample :
    ∃ t, convertWithOffers sampleEnv .native 600 sampleCredit 300 false (fun _ => .ok none)
        sampleBook = .ok ⟨.ePartial, 150, 100, [sampleTrade]⟩ t ∧
      Converts sampleEnv .native sampleCredit (fun _ => .ok none) false 600 300 sampleBook t
        ⟨.ePartial, 150, 100, [sampleTrade]⟩ := by
  have hrun : (convertWithOffers sampleEnv .native 600 sampleCredit 300 false
      (fun _ => .ok none)).run' sampleBook = some ⟨.ePartial, 150, 100, [sampleTrade]⟩ := by
    decide +kernel
  obtain ⟨t, ht⟩ := exists_run_eq hrun
  refine ⟨t, ht, (convertWithOffers_converts _ _ _ _ _ _ _ _ (by decide) (by decide) ?_).2 _ _ ht⟩
  rintro offer ⟨⟩

end Loop

end SpnCore.Ledger
