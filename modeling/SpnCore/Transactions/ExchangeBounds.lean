import SpnCore.Transactions.Exchange

/-!
# Exchanges never fail

An exchange between positive prices and limits in the range of `int64_t` returns amounts within the
limits, for either kind of payment. The side that stays in the book is favored. When both sides are
offers, rounding changes the price by at most one percent or nothing is exchanged. An offer that was
adjusted to its limits stays as it is when it is adjusted again, and taking all of it never exceeds
the bound on the price.
-/

namespace SpnCore.Ledger

open Lib

/-! ### Rounded quotients -/

section Quotient

variable {a c x : Int} {rounding : Rounding}

theorem quotient_nonneg (hc : 0 < c) (ha : 0 ≤ a) : 0 ≤ quotient rounding a c := by
  cases rounding with
  | down => exact Int.ediv_nonneg ha hc.le
  | up => exact Int.ediv_nonneg (by omega) hc.le

theorem quotient_le (hc : 0 < c) (h : a ≤ x * c) : quotient rounding a c ≤ x := by
  cases rounding with
  | down => exact Int.ediv_le_of_le_mul hc h
  | up =>
    refine Int.lt_add_one_iff.1 ((Int.ediv_lt_iff_lt_mul hc).2 ?_)
    rw [add_mul, one_mul]
    omega

theorem quotient_down_mul_le (hc : 0 < c) : quotient .down a c * c ≤ a :=
  Int.ediv_mul_le a hc.ne'

theorem le_quotient_up_mul (hc : 0 < c) : a ≤ quotient .up a c * c := by
  have h := Int.lt_ediv_add_one_mul_self (a + c - 1) hc
  rw [add_mul, one_mul] at h
  rw [quotient]
  omega

/-- Rounding a scaled quotient up and scaling it back down gives the quotient. -/
theorem ediv_of_roundUp {n d x : Int} (hn : 0 < n) (hnd : n ≤ d) :
    (x * d + n - 1) / n * n / d = x := by
  have hd : 0 < d := hn.trans_le hnd
  have hdiv := Int.mul_ediv_add_emod (x * d + n - 1) n
  have hmod := Int.emod_lt_of_pos (x * d + n - 1) hn
  have hmod_nonneg := Int.emod_nonneg (x * d + n - 1) hn.ne'
  rw [mul_comm] at hdiv
  have hle : x * d ≤ (x * d + n - 1) / n * n := by omega
  have hlt : (x * d + n - 1) / n * n < x * d + d := by omega
  refine le_antisymm ?_ ((Int.le_ediv_iff_mul_le hd).2 hle)
  exact Int.lt_add_one_iff.1 ((Int.ediv_lt_iff_lt_mul hd).2 (by rwa [add_mul, one_mul]))

end Quotient

/-! ### Amounts -/

section Amounts

variable {price : Price} {value wheatValue sheepValue wheat sheep : Int} {isPathPayment : Bool}

/-- The amounts exchanged when the whole sheep side is taken. -/
def keptAmounts (price : Price) (sheepValue : Int) (isPathPayment : Bool) : Int × Int :=
  if decide (price.d < price.n) || isPathPayment then
    let wheatReceive := sheepValue / price.n
    (wheatReceive, quotient .up (wheatReceive * price.n) price.d)
  else
    let sheepSend := sheepValue / price.d
    (sheepSend * price.d / price.n, sheepSend)

/-- The amounts exchanged when the whole wheat side is taken. -/
def takenAmounts (price : Price) (wheatValue : Int) : Int × Int :=
  if price.d < price.n then
    let wheatReceive := wheatValue / price.n
    (wheatReceive, wheatReceive * price.n / price.d)
  else
    let sheepSend := wheatValue / price.d
    ((sheepSend * price.d + price.n - 1) / price.n, sheepSend)

/-- The amounts that an exchange computes. -/
def exactAmounts (price : Price) (wheatValue sheepValue : Int) (isPathPayment : Bool) : Int × Int :=
  if sheepValue < wheatValue then keptAmounts price sheepValue isPathPayment
  else takenAmounts price wheatValue

/-- The side that stays is favored. -/
def Favored (price : Price) (r : ExchangeResultV10) : Prop :=
  if r.wheatStays then r.numWheatReceived * price.n ≤ r.numSheepSend * price.d
  else r.numSheepSend * price.d ≤ r.numWheatReceived * price.n

instance (price : Price) (r : ExchangeResultV10) : Decidable (Favored price r) :=
  inferInstanceAs (Decidable (ite _ _ _))

/-- Amounts that come from rounding a value: no more than the value can pay for on either side. -/
structure RoundedFrom (price : Price) (value : Int) (amounts : Int × Int) : Prop where
  wheat_nonneg : 0 ≤ amounts.1
  sheep_nonneg : 0 ≤ amounts.2
  wheat_le : ∀ x, value ≤ x * price.n → amounts.1 ≤ x
  sheep_le : ∀ x, value ≤ x * price.d → amounts.2 ≤ x

section

variable (hn : 0 < price.n) (hd : 0 < price.d)
include hn hd

/-- Rounding the wheat down first, and then the sheep either way. -/
theorem roundedFrom_wheat (hvalue : 0 ≤ value) (rounding : Rounding) : RoundedFrom price value
      (value / price.n, quotient rounding (value / price.n * price.n) price.d) where
  wheat_nonneg := Int.ediv_nonneg hvalue hn.le
  sheep_nonneg := quotient_nonneg hd (Int.mul_nonneg (Int.ediv_nonneg hvalue hn.le) hn.le)
  wheat_le _ h := Int.ediv_le_of_le_mul hn h
  sheep_le _ h := quotient_le hd ((Int.ediv_mul_le value hn.ne').trans h)

/-- Rounding the sheep down first, and then the wheat either way. -/
theorem roundedFrom_sheep (hvalue : 0 ≤ value) (rounding : Rounding) : RoundedFrom price value
      (quotient rounding (value / price.d * price.d) price.n, value / price.d) where
  wheat_nonneg := quotient_nonneg hn (Int.mul_nonneg (Int.ediv_nonneg hvalue hd.le) hd.le)
  sheep_nonneg := Int.ediv_nonneg hvalue hd.le
  wheat_le _ h := quotient_le hn ((Int.ediv_mul_le value hd.ne').trans h)
  sheep_le _ h := Int.ediv_le_of_le_mul hd h

/-- Taking the sheep side favors wheat. -/
theorem keptAmounts_spec (hvalue : 0 ≤ value) (isPathPayment : Bool) :
    RoundedFrom price value (keptAmounts price value isPathPayment) ∧
      (keptAmounts price value isPathPayment).1 * price.n ≤
        (keptAmounts price value isPathPayment).2 * price.d := by
  unfold keptAmounts
  split
  · exact ⟨roundedFrom_wheat hn hd hvalue .up, le_quotient_up_mul hd⟩
  · exact ⟨roundedFrom_sheep hn hd hvalue .down, quotient_down_mul_le hn⟩

/-- Taking the wheat side favors sheep. -/
theorem takenAmounts_spec (hvalue : 0 ≤ value) :
    RoundedFrom price value (takenAmounts price value) ∧
      (takenAmounts price value).2 * price.d ≤ (takenAmounts price value).1 * price.n := by
  unfold takenAmounts
  split
  · exact ⟨roundedFrom_wheat hn hd hvalue .down, quotient_down_mul_le hd⟩
  · exact ⟨roundedFrom_sheep hn hd hvalue .up, le_quotient_up_mul hn⟩

theorem exactAmounts_spec (hwheat : 0 ≤ wheatValue) (hsheep : 0 ≤ sheepValue)
    (h : exactAmounts price wheatValue sheepValue isPathPayment = (wheat, sheep)) :
    RoundedFrom price (min wheatValue sheepValue) (wheat, sheep) ∧
      Favored price ⟨wheat, sheep, decide (sheepValue < wheatValue)⟩ := by
  unfold exactAmounts at h
  split at h
  case isTrue hlt =>
    rw [min_eq_right hlt.le, decide_eq_true hlt, ← h]
    have hkept := keptAmounts_spec hn hd hsheep isPathPayment
    rw [h] at hkept ⊢
    exact hkept
  case isFalse hlt =>
    rw [min_eq_left (not_lt.1 hlt), decide_eq_false hlt, ← h]
    have htaken := takenAmounts_spec hn hd hwheat
    rw [h] at htaken ⊢
    exact htaken

end

/-- The two divisions of an exchange, the second of what the first one leaves. -/
theorem divided_eq_ok {a b c : Int} {rounding : Rounding} {pair : Int → Int → Int × Int}
    {amounts : Int × Int} :
    (do let x ← bigDivideWide a b .down
        let y ← bigDivide x b c rounding
        return pair x y : Except LedgerError (Int × Int)) = .ok amounts ↔
      (0 < b ∧ 0 < c) ∧ (0 ≤ a / b ∧ a / b ≤ int64Max) ∧
        quotient rounding (a / b * b) c ≤ int64Max ∧
        pair (a / b) (quotient rounding (a / b * b) c) = amounts := by
  simp only [bind_eq_ok, bigDivideWide_eq_ok, bigDivide_eq_ok, pure_eq_ok]
  constructor
  · rintro ⟨_, ⟨hb, rfl, hx⟩, _, ⟨⟨hx', _, hc⟩, rfl, hy⟩, h⟩
    exact ⟨⟨hb, hc⟩, ⟨hx', hx⟩, hy, h⟩
  · rintro ⟨⟨hb, hc⟩, ⟨hx', hx⟩, hy, h⟩
    exact ⟨_, ⟨hb, rfl, hx⟩, _, ⟨⟨hx', hb.le, hc⟩, rfl, hy⟩, h⟩

theorem exchangedAmounts_price {stays : Bool} {amounts : Int × Int}
    (h : exchangedAmounts price wheatValue sheepValue stays isPathPayment = .ok amounts) :
    0 < price.n ∧ 0 < price.d := by
  unfold exchangedAmounts at h
  split_ifs at h
  · exact (divided_eq_ok.1 h).1
  · exact (divided_eq_ok.1 h).1.symm
  · exact (divided_eq_ok.1 h).1
  · exact (divided_eq_ok.1 h).1.symm

/-- Amounts within the range are exchanged without an error. -/
theorem exchangedAmounts_of_exact (hn : 0 < price.n) (hd : 0 < price.d)
    (h : exactAmounts price wheatValue sheepValue isPathPayment = (wheat, sheep))
    (hwheat : 0 ≤ wheat ∧ wheat ≤ int64Max) (hsheep : 0 ≤ sheep ∧ sheep ≤ int64Max) :
    exchangedAmounts price wheatValue sheepValue (decide (sheepValue < wheatValue))
      isPathPayment = .ok (wheat, sheep) := by
  unfold exactAmounts keptAmounts takenAmounts at h
  simp only [exchangedAmounts, decide_eq_true_eq]
  split_ifs at h ⊢ <;> obtain ⟨rfl, rfl⟩ := Prod.mk.inj h
  · exact divided_eq_ok.2 ⟨⟨hn, hd⟩, hwheat, hsheep.2, rfl⟩
  · exact divided_eq_ok.2 ⟨⟨hd, hn⟩, hsheep, hwheat.2, rfl⟩
  · exact divided_eq_ok.2 ⟨⟨hn, hd⟩, hwheat, hsheep.2, rfl⟩
  · exact divided_eq_ok.2 ⟨⟨hd, hn⟩, hsheep, hwheat.2, rfl⟩

/-- Taking the amount that was taken gives the same amounts again. -/
theorem takenAmounts_idem (hn : 0 < price.n) (h : takenAmounts price wheatValue = (wheat, sheep)) :
    takenAmounts price (wheat * price.n) = (wheat, sheep) := by
  unfold takenAmounts at h ⊢
  split
  case isTrue hlt =>
    rw [if_pos hlt] at h
    obtain ⟨rfl, rfl⟩ := Prod.mk.inj h
    rw [Int.mul_ediv_cancel _ hn.ne']
  case isFalse hlt =>
    rw [if_neg hlt] at h
    obtain ⟨rfl, rfl⟩ := Prod.mk.inj h
    rw [ediv_of_roundUp hn (not_lt.1 hlt)]

/-- The wheat taken is worth no more than the sheep side could pay. -/
theorem taken_value_le (hn : 0 < price.n) (h : takenAmounts price wheatValue = (wheat, sheep))
    (hvalue : wheatValue ≤ int64Max * price.d) (hwheat : wheat ≤ int64Max) :
    wheat * price.n ≤ int64Max * price.d := by
  by_cases hlt : price.d < price.n
  · rw [takenAmounts, if_pos hlt] at h
    obtain ⟨rfl, -⟩ := Prod.mk.inj h
    exact (Int.ediv_mul_le _ hn.ne').trans hvalue
  · calc wheat * price.n ≤ int64Max * price.n := Int.mul_le_mul_of_nonneg_right hwheat hn.le
      _ ≤ int64Max * price.d := Int.mul_le_mul_of_nonneg_left (not_lt.1 hlt) (by decide)

/-- Nothing is exchanged for nothing. -/
theorem takenAmounts_zero (hn : 0 < price.n) : takenAmounts price 0 = (0, 0) := by
  have hup : (0 + price.n - 1) / price.n = 0 :=
    Int.ediv_eq_zero_of_lt (by omega) (by omega)
  unfold takenAmounts
  split <;> simp only [Int.zero_ediv, hup, zero_mul]

end Amounts

/-! ### Exchanges -/

section Exchange

variable {price : Price} {maxWheatSend maxWheatReceive maxSheepSend maxSheepReceive : Int}
  {isPathPayment : Bool} {r : ExchangeResultV10}

/-- The price paid is within one percent of the price. -/
def InBound (price : Price) (wheat sheep : Int) : Prop :=
  |sheep * price.d - wheat * price.n| * 100 ≤ wheat * price.n

instance (price : Price) (wheat sheep : Int) : Decidable (InBound price wheat sheep) :=
  inferInstanceAs (Decidable (_ ≤ _))

theorem checkPriceErrorBound_eq (hn : 0 < price.n) (hd : 0 < price.d) {wheat sheep : Int}
    (hwheat : 0 ≤ wheat) (hsheep : 0 ≤ sheep) (canFavorWheat : Bool) :
    checkPriceErrorBound price wheat sheep canFavorWheat =
      .ok (canFavorWheat && decide (wheat * price.n < sheep * price.d) ||
        decide (InBound price wheat sheep)) := by
  have hlhs : 100 * price.n * wheat = 100 * (wheat * price.n) := by ring
  have hrhs : 100 * price.d * sheep = 100 * (sheep * price.d) := by ring
  have hcap : price.n * wheat = wheat * price.n := mul_comm _ _
  simp only [checkPriceErrorBound, bind_eq_ok, bigMultiply_eq_ok]
  refine ⟨_, ⟨⟨by omega, hwheat⟩, hlhs⟩, _, ⟨⟨by omega, hsheep⟩, hrhs⟩, ?_⟩
  have hless : 100 * (wheat * price.n) < 100 * (sheep * price.d) ↔
      wheat * price.n < sheep * price.d := by omega
  have hbound : (if 100 * (sheep * price.d) < 100 * (wheat * price.n)
      then 100 * (wheat * price.n) - 100 * (sheep * price.d)
      else 100 * (sheep * price.d) - 100 * (wheat * price.n)) =
        |sheep * price.d - wheat * price.n| * 100 := by
    split_ifs with hlt
    · rw [abs_of_nonpos (by omega)]
      ring
    · rw [abs_of_nonneg (by omega)]
      ring
  rw [decide_eq_decide.2 hless]
  cases hfavor : canFavorWheat && decide (wheat * price.n < sheep * price.d) with
  | true => rfl
  | false =>
    rw [if_neg Bool.false_ne_true, Bool.false_or, hbound]
    simp only [bind_eq_ok, bigMultiply_eq_ok, pure_eq_ok]
    exact ⟨_, ⟨⟨hn.le, hwheat⟩, hcap⟩, rfl⟩

/-- The two checks that the side that stays is favored. -/
theorem require_favored {next : Except LedgerError ExchangeResultV10} :
    (do require (!(r.wheatStays &&
          decide (r.numSheepSend * price.d < r.numWheatReceived * price.n))) .favored
        require (!(!r.wheatStays &&
          decide (r.numWheatReceived * price.n < r.numSheepSend * price.d))) .favored
        next) = if Favored price r then next else .error .favored := by
  obtain ⟨wheat, sheep, stays⟩ := r
  by_cases h : Favored price ⟨wheat, sheep, stays⟩
  · rw [if_pos h]
    cases stays with
    | true => rw [decide_eq_false (not_lt.2 h)]; rfl
    | false => rw [decide_eq_false (not_lt.2 h)]; rfl
  · rw [if_neg h]
    cases stays with
    | true => rw [decide_eq_true (not_le.1 h)]; rfl
    | false => rw [decide_eq_true (not_le.1 h)]; rfl

theorem applyPriceErrorThresholds_eq (hn : 0 < price.n) (hd : 0 < price.d)
    (r : ExchangeResultV10) (isPathPayment : Bool) :
    applyPriceErrorThresholds price r.numWheatReceived r.numSheepSend r.wheatStays isPathPayment =
      if 0 < r.numWheatReceived ∧ 0 < r.numSheepSend then
        if Favored price r then
          if InBound price r.numWheatReceived r.numSheepSend ∨
            isPathPayment = true ∧ r.numWheatReceived * price.n < r.numSheepSend * price.d
          then .ok r
          else if isPathPayment then .error .priceErrorBound else .ok ⟨0, 0, r.wheatStays⟩
        else .error .favored
      else .ok ⟨0, 0, r.wheatStays⟩ := by
  rw [applyPriceErrorThresholds]
  refine ite_congr rfl (fun hpos => ?_) fun _ => rfl
  have hwheatValue := bigMultiply_eq_ok.2 ⟨⟨hpos.1.le, hn.le⟩, rfl⟩
  have hsheepValue := bigMultiply_eq_ok.2 ⟨⟨hpos.2.le, hd.le⟩, rfl⟩
  rw [hwheatValue, ok_bind, hsheepValue, ok_bind, require_favored,
    checkPriceErrorBound_eq hn hd hpos.1.le hpos.2.le, ok_bind]
  refine if_congr Iff.rfl (if_congr ?_ rfl rfl) rfl
  simp [or_comm]

theorem Favored.zero (price : Price) (stays : Bool) : Favored price ⟨0, 0, stays⟩ := by
  cases stays <;> simp [Favored]

theorem ExchangeResultV10.Within.zero
    (h : r.Within maxWheatSend maxWheatReceive maxSheepSend maxSheepReceive) (stays : Bool) :
    ExchangeResultV10.Within ⟨0, 0, stays⟩ maxWheatSend maxWheatReceive maxSheepSend
      maxSheepReceive :=
  ⟨le_rfl, h.wheat_nonneg.trans h.wheat_le_send, h.wheat_nonneg.trans h.wheat_le_receive, le_rfl,
    h.sheep_nonneg.trans h.sheep_le_send, h.sheep_nonneg.trans h.sheep_le_receive⟩

/-- What an exchange that returns has established, whatever its limits. -/
theorem exchangeV10_eq_ok
    (h : exchangeV10 price maxWheatSend maxWheatReceive maxSheepSend maxSheepReceive
      isPathPayment = .ok r) :
    (0 < price.n ∧ 0 < price.d) ∧
      r.Within maxWheatSend maxWheatReceive maxSheepSend maxSheepReceive ∧ Favored price r ∧
      (r.numWheatReceived = 0 ∧ r.numSheepSend = 0 ∨
        (0 < r.numWheatReceived ∧ 0 < r.numSheepSend) ∧
          (InBound price r.numWheatReceived r.numSheepSend ∨
            isPathPayment = true ∧
              r.numWheatReceived * price.n < r.numSheepSend * price.d)) := by
  simp only [exchangeV10, bind_eq_ok] at h
  obtain ⟨before, hbefore, h⟩ := h
  obtain ⟨_, _, -, -, -, hamounts, hin⟩ := exchangeWithout_eq_ok.1 hbefore
  have hprice := exchangedAmounts_price hamounts
  rw [applyPriceErrorThresholds_eq hprice.1 hprice.2] at h
  split_ifs at h with hpos hfavored hbound <;> cases h
  · exact ⟨hprice, hin, hfavored, Or.inr ⟨hpos, hbound⟩⟩
  · exact ⟨hprice, hin.zero _, .zero _ _, Or.inl ⟨rfl, rfl⟩⟩
  · exact ⟨hprice, hin.zero _, .zero _ _, Or.inl ⟨rfl, rfl⟩⟩

theorem exchangeV10_within
    (h : exchangeV10 price maxWheatSend maxWheatReceive maxSheepSend maxSheepReceive
      isPathPayment = .ok r) :
    r.Within maxWheatSend maxWheatReceive maxSheepSend maxSheepReceive :=
  (exchangeV10_eq_ok h).2.1

/-- The price and the limits of an exchange. -/
structure Limits (price : Price)
    (maxWheatSend maxWheatReceive maxSheepSend maxSheepReceive : Int) : Prop where
  n_pos : 0 < price.n
  d_pos : 0 < price.d
  wheatSend : 0 ≤ maxWheatSend ∧ maxWheatSend ≤ int64Max
  wheatReceive : 0 ≤ maxWheatReceive ∧ maxWheatReceive ≤ int64Max
  sheepSend : 0 ≤ maxSheepSend ∧ maxSheepSend ≤ int64Max
  sheepReceive : 0 ≤ maxSheepReceive ∧ maxSheepReceive ≤ int64Max

/-- An exchange within limits computes the amounts that the values of both sides give. -/
theorem exchangeWithout_of_limits
    (h : Limits price maxWheatSend maxWheatReceive maxSheepSend maxSheepReceive)
    (isPathPayment : Bool) {wheatValue sheepValue : Int}
    (hwheatValue : min (maxWheatSend * price.n) (maxSheepReceive * price.d) = wheatValue)
    (hsheepValue : min (maxSheepSend * price.d) (maxWheatReceive * price.n) = sheepValue) :
    ∃ r, exchangeV10WithoutPriceErrorThresholds price maxWheatSend maxWheatReceive maxSheepSend
        maxSheepReceive isPathPayment = .ok r ∧ Favored price r ∧
      r.wheatStays = decide (sheepValue < wheatValue) ∧
      exactAmounts price wheatValue sheepValue isPathPayment =
        (r.numWheatReceived, r.numSheepSend) := by
  obtain ⟨hn, hd, ⟨hws, hws'⟩, ⟨hwr, -⟩, ⟨hss, hss'⟩, hsr, -⟩ := h
  have hwheat : 0 ≤ wheatValue :=
    hwheatValue ▸ le_min (Int.mul_nonneg hws hn.le) (Int.mul_nonneg hsr hd.le)
  have hsheep : 0 ≤ sheepValue :=
    hsheepValue ▸ le_min (Int.mul_nonneg hss hd.le) (Int.mul_nonneg hwr hn.le)
  obtain ⟨⟨wheat, sheep⟩, hamounts⟩ :
      ∃ amounts, exactAmounts price wheatValue sheepValue isPathPayment = amounts := ⟨_, rfl⟩
  obtain ⟨hrounded, hfavored⟩ := exactAmounts_spec hn hd hwheat hsheep hamounts
  have hwithin : ExchangeResultV10.Within ⟨wheat, sheep, decide (sheepValue < wheatValue)⟩
      maxWheatSend maxWheatReceive maxSheepSend maxSheepReceive :=
    ⟨hrounded.wheat_nonneg,
      hrounded.wheat_le _ ((min_le_left _ _).trans (hwheatValue ▸ min_le_left _ _)),
      hrounded.wheat_le _ ((min_le_right _ _).trans (hsheepValue ▸ min_le_right _ _)),
      hrounded.sheep_nonneg,
      hrounded.sheep_le _ ((min_le_right _ _).trans (hsheepValue ▸ min_le_left _ _)),
      hrounded.sheep_le _ ((min_le_left _ _).trans (hwheatValue ▸ min_le_right _ _))⟩
  refine ⟨_, exchangeWithout_eq_ok.2 ⟨wheatValue, sheepValue,
    calculateOfferValue_eq_ok.2 ⟨⟨hws, hn.le, hsr, hd.le⟩, hwheatValue⟩,
    calculateOfferValue_eq_ok.2 ⟨⟨hss, hd.le, hwr, hn.le⟩, hsheepValue⟩, rfl, ?_, hwithin⟩,
    hfavored, rfl, hamounts⟩
  exact exchangedAmounts_of_exact hn hd hamounts
    ⟨hwithin.wheat_nonneg, hwithin.wheat_le_send.trans hws'⟩
    ⟨hwithin.sheep_nonneg, hwithin.sheep_le_send.trans hss'⟩

/-- An exchange between offers returns amounts within the limits, both zero or both positive. They
favor the side that stays, by one percent at most. -/
theorem exchangeV10_bounded (price : Price)
    (maxWheatSend maxWheatReceive maxSheepSend maxSheepReceive : Int)
    (h : Limits price maxWheatSend maxWheatReceive maxSheepSend maxSheepReceive) :
    ∃ r, exchangeV10 price maxWheatSend maxWheatReceive maxSheepSend maxSheepReceive false = .ok r ∧
      (0 ≤ r.numWheatReceived ∧ r.numWheatReceived ≤ min maxWheatSend maxWheatReceive) ∧
      (0 ≤ r.numSheepSend ∧ r.numSheepSend ≤ min maxSheepSend maxSheepReceive) ∧
      (r.numWheatReceived = 0 ∧ r.numSheepSend = 0 ∨
        0 < r.numWheatReceived ∧ 0 < r.numSheepSend) ∧
      (r.wheatStays = true → r.numWheatReceived * price.n ≤ r.numSheepSend * price.d) ∧
      (r.wheatStays = false → r.numSheepSend * price.d ≤ r.numWheatReceived * price.n) ∧
      |r.numSheepSend * price.d - r.numWheatReceived * price.n| * 100 ≤
        r.numWheatReceived * price.n := by
  obtain ⟨before, hbefore, hbefore_favored, -⟩ := exchangeWithout_of_limits h false rfl rfl
  obtain ⟨r, hr⟩ : ∃ r, exchangeV10 price maxWheatSend maxWheatReceive maxSheepSend
      maxSheepReceive false = .ok r := by
    rw [exchangeV10, hbefore, ok_bind, applyPriceErrorThresholds_eq h.n_pos h.d_pos,
      if_pos hbefore_favored, if_neg Bool.false_ne_true]
    split_ifs
    · exact ⟨_, rfl⟩
    · exact ⟨_, rfl⟩
    · exact ⟨_, rfl⟩
  obtain ⟨-, hin, hfavored, hamounts⟩ := exchangeV10_eq_ok hr
  refine ⟨r, hr, ⟨hin.wheat_nonneg, le_min hin.wheat_le_send hin.wheat_le_receive⟩,
    ⟨hin.sheep_nonneg, le_min hin.sheep_le_send hin.sheep_le_receive⟩, hamounts.imp id And.left,
    fun hstays => ?_, fun hstays => ?_, ?_⟩
  · rwa [Favored, if_pos hstays] at hfavored
  · rwa [Favored, hstays, if_neg Bool.false_ne_true] at hfavored
  · rcases hamounts with ⟨hwheat, hsheep⟩ | ⟨-, hbound⟩
    · rw [hwheat, hsheep, zero_mul, zero_mul, sub_zero, abs_zero, zero_mul]
    · exact hbound.resolve_right fun h => Bool.false_ne_true h.1

theorem exchangeV10_bounded_sample :
    Limits ⟨3, 2⟩ 100 50 1000 int64Max ∧
    ∃ r, exchangeV10 ⟨3, 2⟩ 100 50 1000 int64Max false = .ok r ∧
      (0 ≤ r.numWheatReceived ∧ r.numWheatReceived ≤ min 100 50) ∧
      (0 ≤ r.numSheepSend ∧ r.numSheepSend ≤ min 1000 int64Max) ∧
      (r.numWheatReceived = 0 ∧ r.numSheepSend = 0 ∨
        0 < r.numWheatReceived ∧ 0 < r.numSheepSend) ∧
      (r.wheatStays = true → r.numWheatReceived * 3 ≤ r.numSheepSend * 2) ∧
      (r.wheatStays = false → r.numSheepSend * 2 ≤ r.numWheatReceived * 3) ∧
      |r.numSheepSend * 2 - r.numWheatReceived * 3| * 100 ≤ r.numWheatReceived * 3 :=
  have hlimits : Limits ⟨3, 2⟩ 100 50 1000 int64Max := by
    constructor <;> decide
  ⟨hlimits, exchangeV10_bounded ⟨3, 2⟩ 100 50 1000 int64Max hlimits⟩

end Exchange

/-! ### Adjusted offers -/

section Adjusted

variable {price : Price} {maxWheatSend maxSheepReceive amount sheep : Int}

/-- Without limits on the other side the wheat seller's side is the smaller one. -/
theorem stays_of_unlimited {n d send receive : Int} (hn : 0 ≤ n) (hd : 0 ≤ d)
    (hsend : send ≤ int64Max) (hreceive : receive ≤ int64Max) :
    ¬ min (int64Max * d) (int64Max * n) < min (send * n) (receive * d) := by
  have h1 := Int.mul_le_mul_of_nonneg_right hsend hn
  have h2 := Int.mul_le_mul_of_nonneg_right hreceive hd
  have hmin := min_le_min h1 h2
  rw [min_comm (int64Max * n)] at hmin
  exact not_lt.2 hmin

/-- Taking all of an adjusted offer exchanges the same amounts as before it was adjusted. -/
theorem takenAmounts_again (hn : 0 < price.n) (hd : 0 < price.d)
    (htaken : takenAmounts price (min (maxWheatSend * price.n) (maxSheepReceive * price.d)) =
      (amount, sheep)) :
    takenAmounts price (min (amount * price.n) (maxSheepReceive * price.d)) = (amount, sheep) := by
  by_cases hle : amount * price.n ≤ maxSheepReceive * price.d
  · rw [min_eq_left hle]
    exact takenAmounts_idem hn htaken
  · have hvalue : min (maxWheatSend * price.n) (maxSheepReceive * price.d) ≤
        maxSheepReceive * price.d := min_le_right _ _
    generalize min (maxWheatSend * price.n) (maxSheepReceive * price.d) = value at htaken hvalue
    rw [min_eq_right (not_le.1 hle).le]
    unfold takenAmounts at htaken ⊢
    by_cases hlt : price.d < price.n
    · rw [if_pos hlt] at htaken
      obtain ⟨rfl, -⟩ := Prod.mk.inj htaken
      exact absurd ((Int.ediv_mul_le value hn.ne').trans hvalue) hle
    · -- rounding up exceeds what the seller can receive only when all of that is used
      rw [if_neg hlt] at htaken ⊢
      obtain ⟨rfl, rfl⟩ := Prod.mk.inj htaken
      have hup := Int.ediv_mul_le (value / price.d * price.d + price.n - 1) hn.ne'
      have hall : maxSheepReceive = value / price.d := by
        refine le_antisymm ?_ (Int.ediv_le_of_le_mul hd hvalue)
        refine Int.lt_add_one_iff.1 (Int.lt_of_mul_lt_mul_right ?_ hd.le)
        rw [add_mul, one_mul]
        omega
      rw [Int.mul_ediv_cancel _ hd.ne', hall]

section

variable (hn : 0 < price.n) (hd : 0 < price.d) (hsend : 0 ≤ maxWheatSend ∧ maxWheatSend ≤ int64Max)
  (hreceive : 0 ≤ maxSheepReceive ∧ maxSheepReceive ≤ int64Max)
include hn hd hsend hreceive

/-- The limits of an offer against a side without limits. -/
theorem limits_unlimited : Limits price maxWheatSend int64Max int64Max maxSheepReceive :=
  ⟨hn, hd, hsend, ⟨by decide, le_rfl⟩, ⟨by decide, le_rfl⟩, hreceive⟩

/-- An offer is adjusted to what taking all of it exchanges, or to nothing if that is not in
bound. -/
theorem adjustOffer_eq
    (htaken : takenAmounts price (min (maxWheatSend * price.n) (maxSheepReceive * price.d)) =
      (amount, sheep)) : adjustOffer price maxWheatSend maxSheepReceive =
      .ok (if (0 < amount ∧ 0 < sheep) ∧ InBound price amount sheep then amount else 0) := by
  obtain ⟨r, hr, hfavored, -, hamounts⟩ :=
    exchangeWithout_of_limits (limits_unlimited hn hd hsend hreceive) false rfl rfl
  rw [exactAmounts, if_neg (stays_of_unlimited hn.le hd.le hsend.2 hreceive.2), htaken] at hamounts
  obtain ⟨rfl, rfl⟩ := Prod.mk.inj hamounts
  rw [adjustOffer, exchangeV10, hr, ok_bind, applyPriceErrorThresholds_eq hn hd, if_pos hfavored]
  by_cases hpos : 0 < r.numWheatReceived ∧ 0 < r.numSheepSend
  · by_cases hbound : InBound price r.numWheatReceived r.numSheepSend
    · rw [if_pos hpos, if_pos (Or.inl hbound), if_pos ⟨hpos, hbound⟩]
      rfl
    · rw [if_pos hpos, if_neg (by simp [hbound]), if_neg Bool.false_ne_true,
        if_neg fun h => hbound h.2]
      rfl
  · rw [if_neg hpos, if_neg fun h => hpos h.1]
    rfl

/-- Taking all of an adjusted offer exchanges its amount, in bound if there is one. -/
theorem adjustOffer_spec : ∃ amount sheep,
    adjustOffer price maxWheatSend maxSheepReceive = .ok amount ∧
      (0 ≤ amount ∧ amount ≤ maxWheatSend) ∧
      takenAmounts price (min (amount * price.n) (maxSheepReceive * price.d)) = (amount, sheep) ∧
      (amount = 0 ∨ (0 < amount ∧ 0 < sheep) ∧ InBound price amount sheep) := by
  obtain ⟨⟨amount, sheep⟩, htaken⟩ : ∃ amounts, takenAmounts price
      (min (maxWheatSend * price.n) (maxSheepReceive * price.d)) = amounts := ⟨_, rfl⟩
  have hrounded := (takenAmounts_spec hn hd
    (le_min (Int.mul_nonneg hsend.1 hn.le) (Int.mul_nonneg hreceive.1 hd.le))).1
  rw [htaken] at hrounded
  rw [adjustOffer_eq hn hd hsend hreceive htaken]
  by_cases hkept : (0 < amount ∧ 0 < sheep) ∧ InBound price amount sheep
  · rw [if_pos hkept]
    exact ⟨amount, sheep, rfl, ⟨hkept.1.1.le, hrounded.wheat_le _ (min_le_left _ _)⟩,
      takenAmounts_again hn hd htaken, Or.inr hkept⟩
  · rw [if_neg hkept]
    refine ⟨0, 0, rfl, ⟨le_rfl, hsend.1⟩, ?_, Or.inl rfl⟩
    rw [zero_mul, min_eq_left (Int.mul_nonneg hreceive.1 hd.le), takenAmounts_zero hn]

end

/-- The liabilities of an offer are what taking all of it exchanges. -/
theorem offerLiabilities_eq {offer : OfferEntry} (hn : 0 < offer.price.n) (hd : 0 < offer.price.d)
    (hamount : 0 ≤ offer.amount ∧ offer.amount ≤ int64Max)
    (htaken : takenAmounts offer.price (min (offer.amount * offer.price.n)
      (int64Max * offer.price.d)) = (amount, sheep)) :
    offerLiabilities offer = .ok ⟨sheep, amount⟩ := by
  obtain ⟨r, hr, -, -, hamounts⟩ := exchangeWithout_of_limits
    (limits_unlimited hn hd hamount ⟨by decide, le_refl int64Max⟩) false rfl rfl
  rw [exactAmounts, if_neg (stays_of_unlimited hn.le hd.le hamount.2 le_rfl), htaken] at hamounts
  obtain ⟨rfl, rfl⟩ := Prod.mk.inj hamounts
  rw [offerLiabilities, hr]
  rfl

/-- Adjusting an offer to limits gives an amount that adjusting it again does not change, and that
is within the limit on what is sold. The offer then sells exactly this amount, and buys within the
limit on what is bought. -/
theorem adjustOffer_idempotent (price : Price) (maxWheatSend maxSheepReceive : Int)
    (hn : 0 < price.n) (hd : 0 < price.d)
    (hsend : 0 ≤ maxWheatSend ∧ maxWheatSend ≤ int64Max)
    (hreceive : 0 ≤ maxSheepReceive ∧ maxSheepReceive ≤ int64Max) :
    ∃ amount, adjustOffer price maxWheatSend maxSheepReceive = .ok amount ∧
      adjustOffer price amount maxSheepReceive = .ok amount ∧ amount ≤ maxWheatSend ∧
      ∀ offer : OfferEntry, offer.price = price → offer.amount = amount →
        getOfferSellingLiabilities offer = .ok amount ∧
        ∃ buying, getOfferBuyingLiabilities offer = .ok buying ∧ 0 ≤ buying ∧
          buying ≤ maxSheepReceive := by
  obtain ⟨amount, sheep, hadjust, ⟨hnonneg, hle⟩, htaken, hbound⟩ :=
    adjustOffer_spec hn hd hsend hreceive
  have hamount : 0 ≤ amount ∧ amount ≤ int64Max := ⟨hnonneg, hle.trans hsend.2⟩
  have hagain : adjustOffer price amount maxSheepReceive = .ok amount := by
    rw [adjustOffer_eq hn hd hamount hreceive htaken]
    rcases hbound with rfl | hkept
    · rw [ite_self]
    · rw [if_pos hkept]
  refine ⟨amount, hadjust, hagain, hle, ?_⟩
  rintro offer rfl rfl
  have hvalue : min (offer.amount * offer.price.n) (maxSheepReceive * offer.price.d) ≤
      int64Max * offer.price.d :=
    (min_le_right _ _).trans (Int.mul_le_mul_of_nonneg_right hreceive.2 hd.le)
  have hcap := min_eq_left (taken_value_le hn htaken hvalue hamount.2)
  have hliabilities := offerLiabilities_eq hn hd hamount (hcap ▸ takenAmounts_idem hn htaken)
  have hrounded := (takenAmounts_spec hn hd
    (le_min (Int.mul_nonneg hnonneg hn.le) (Int.mul_nonneg hreceive.1 hd.le))).1
  rw [htaken] at hrounded
  rw [getOfferSellingLiabilities, getOfferBuyingLiabilities, hliabilities]
  exact ⟨rfl, sheep, rfl, hrounded.sheep_nonneg, hrounded.sheep_le _ (min_le_right _ _)⟩

theorem adjustOffer_idempotent_sample :
    ∃ amount, adjustOffer ⟨3, 7⟩ 28 20 = .ok amount ∧ adjustOffer ⟨3, 7⟩ amount 20 = .ok amount ∧
      amount ≤ 28 ∧ ∀ offer : OfferEntry, offer.price = ⟨3, 7⟩ → offer.amount = amount →
        getOfferSellingLiabilities offer = .ok amount ∧
        ∃ buying, getOfferBuyingLiabilities offer = .ok buying ∧ 0 ≤ buying ∧ buying ≤ 20 :=
  adjustOffer_idempotent ⟨3, 7⟩ 28 20 (by decide) (by decide) (by decide) (by decide)

/-! ### Path payments -/

/-- A path payment crosses an adjusted offer without an error. If wheat stays and the sheep pays for
all the wheat that is wanted, exactly that is delivered, for its price rounded up. If wheat does not
stay, exactly the amount of the offer is delivered. -/
theorem exchangeV10_path (price : Price) (hn : 0 < price.n) (hd : 0 < price.d)
    (maxWheatSend maxSheepReceive : Int)
    (hsend : 0 ≤ maxWheatSend ∧ maxWheatSend ≤ int64Max)
    (hreceive : 0 ≤ maxSheepReceive ∧ maxSheepReceive ≤ int64Max) (amount : Int)
    (hamount : adjustOffer price maxWheatSend maxSheepReceive = .ok amount)
    (maxWheatReceive maxSheepSend : Int)
    (hwheat : 0 < maxWheatReceive ∧ maxWheatReceive ≤ int64Max)
    (hsheep : 0 < maxSheepSend ∧ maxSheepSend ≤ int64Max) :
    ∃ r, exchangeV10 price amount maxWheatReceive maxSheepSend maxSheepReceive true = .ok r ∧
      (r.wheatStays = true → maxWheatReceive * price.n ≤ maxSheepSend * price.d →
        r.numWheatReceived = maxWheatReceive ∧
          r.numSheepSend = quotient .up (maxWheatReceive * price.n) price.d) ∧
      (r.wheatStays = false → r.numWheatReceived = amount) := by
  obtain ⟨amount', sheep, hadjusted, ⟨hnonneg, hle⟩, htaken, hkept⟩ :=
    adjustOffer_spec hn hd hsend hreceive
  rw [hamount] at hadjusted
  cases hadjusted
  have hlimits : Limits price amount maxWheatReceive maxSheepSend maxSheepReceive :=
    ⟨hn, hd, ⟨hnonneg, hle.trans hsend.2⟩, ⟨hwheat.1.le, hwheat.2⟩, ⟨hsheep.1.le, hsheep.2⟩,
      hreceive⟩
  obtain ⟨r, hr, hside, hstays, hamounts⟩ := exchangeWithout_of_limits hlimits true rfl rfl
  rw [exchangeV10, hr, ok_bind, applyPriceErrorThresholds_eq hn hd, if_pos hside]
  by_cases hlt : min (maxSheepSend * price.d) (maxWheatReceive * price.n) <
      min (amount * price.n) (maxSheepReceive * price.d)
  · rw [decide_eq_true hlt] at hstays
    have hfavored : r.numWheatReceived * price.n ≤ r.numSheepSend * price.d := by
      rwa [Favored, if_pos hstays] at hside
    rw [exactAmounts, if_pos hlt, keptAmounts, if_pos (by simp)] at hamounts
    obtain ⟨hwheatEq, hsheepEq⟩ := Prod.mk.inj hamounts
    have hwanted : maxWheatReceive * price.n ≤ maxSheepSend * price.d →
        r.numWheatReceived = maxWheatReceive ∧
          r.numSheepSend = quotient .up (maxWheatReceive * price.n) price.d := by
      intro hpay
      rw [min_eq_right hpay, Int.mul_ediv_cancel _ hn.ne'] at hwheatEq hsheepEq
      exact ⟨hwheatEq.symm, hsheepEq.symm⟩
    by_cases hpos : 0 < r.numWheatReceived ∧ 0 < r.numSheepSend
    · have hbound : InBound price r.numWheatReceived r.numSheepSend ∨
          true = true ∧ r.numWheatReceived * price.n < r.numSheepSend * price.d := by
        rcases hfavored.lt_or_eq with hmore | hexact
        · exact Or.inr ⟨rfl, hmore⟩
        · refine Or.inl ?_
          rw [InBound, hexact, sub_self, abs_zero, zero_mul, ← hexact]
          exact Int.mul_nonneg hpos.1.le hn.le
      rw [if_pos hpos, if_pos hbound]
      exact ⟨r, rfl, fun _ => hwanted, fun h => absurd (h.symm.trans hstays) Bool.false_ne_true⟩
    · rw [if_neg hpos]
      refine ⟨_, rfl, fun _ hpay => absurd ?_ hpos,
        fun h => absurd (h.symm.trans hstays) Bool.false_ne_true⟩
      have hwheatPos : 0 < r.numWheatReceived := (hwanted hpay).1 ▸ hwheat.1
      refine ⟨hwheatPos, Int.lt_of_mul_lt_mul_right (a := price.d) ?_ hd.le⟩
      rw [zero_mul]
      exact (Int.mul_pos hwheatPos hn).trans_le hfavored
  · rw [decide_eq_false hlt] at hstays
    rw [exactAmounts, if_neg hlt, htaken] at hamounts
    obtain ⟨rfl, rfl⟩ := Prod.mk.inj hamounts
    rcases hkept with hzero | ⟨hpos, hbound⟩
    · rw [if_neg fun h => h.1.ne' hzero]
      exact ⟨_, rfl, fun h => absurd (hstays.symm.trans h) Bool.false_ne_true, fun _ => hzero.symm⟩
    · rw [if_pos hpos, if_pos (Or.inl hbound)]
      exact ⟨r, rfl, fun h => absurd (hstays.symm.trans h) Bool.false_ne_true, fun _ => rfl⟩

theorem exchangeV10_path_sample :
    adjustOffer ⟨2, 3⟩ 150 1000 = .ok 150 ∧
    ∃ r, exchangeV10 ⟨2, 3⟩ 150 101 int64Max 1000 true = .ok r ∧
      (r.wheatStays = true → 101 * 2 ≤ int64Max * 3 →
        r.numWheatReceived = 101 ∧ r.numSheepSend = quotient .up (101 * 2) 3) ∧
      (r.wheatStays = false → r.numWheatReceived = 150) :=
  ⟨by decide, exchangeV10_path ⟨2, 3⟩ (by decide) (by decide) 150 1000 (by decide) (by decide) 150
    (by decide) 101 int64Max (by decide) (by decide)⟩

end Adjusted

end SpnCore.Ledger
