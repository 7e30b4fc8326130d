import FxEngine.Correctness.Freshness
import FxEngine.Correctness.LegRates

/-! # Rates of routes

The rate arithmetic of a quote over the book of a refresh: direct legs always have a rate,
cross routes have one unless the product of the legs is too large for the context.
-/

namespace FxEngine

open Numeric

/-- The part of a quote's terms that does not depend on the amount. -/
structure RouteTerms where
  route : List Currency
  legs : List LegPricing
  executableRate : Decimal
  deriving DecidableEq

def routeTerms (book : CurrentRateBook) (source destination : Currency) : Except PyError RouteTerms := do
  let route ← buildRoute book source destination
  let legs ← priceRoute book (route.zip route.tail)
  let executableRate ← arith (compoundRate legs)
  return ⟨route, legs, executableRate⟩

/-- A leg from `source` at the exact rate, rounded once. -/
def CurrentRate.leg (rate : CurrentRate) (source destination : Currency) : LegPricing :=
  if source = rate.baseCurrency then
    ⟨source, destination, rate.midRate, Decimal.rounded rateScale (sellValue rate.midRate.toRat rate.sellSpreadBps),
      rate.sellSpreadBps, .sell, rate.rateSnapshotId⟩
  else
    ⟨source, destination, rate.midRate, Decimal.rounded rateScale (buyValue rate.midRate.toRat rate.buySpreadBps),
      rate.buySpreadBps, .buy, rate.rateSnapshotId⟩

section Ends

variable {rate : CurrentRate} {currency : Currency} (pair : rate.pair = (.USD, currency))

include pair

theorem CurrentRate.leg_sell : (rate.leg .USD currency).executableRate =
    Decimal.rounded rateScale (sellValue rate.midRate.toRat rate.sellSpreadBps) := by
  rw [CurrentRate.leg, if_pos (Prod.mk.inj pair).1.symm]

theorem CurrentRate.leg_buy (other : currency ≠ .USD) : (rate.leg currency .USD).executableRate =
    Decimal.rounded rateScale (buyValue rate.midRate.toRat rate.buySpreadBps) := by
  rw [CurrentRate.leg, if_neg fun same => other (same.trans (Prod.mk.inj pair).1)]

end Ends

/-- A sound rate prices its legs. -/
theorem CurrentRate.Sound.pricedLeg {rate : CurrentRate} (h : rate.Sound) {currency : Currency}
    (pair : rate.pair = (.USD, currency)) (other : currency ≠ .USD) :
    FxEngine.priceLeg rate .USD currency = .ok (rate.leg .USD currency) ∧
      FxEngine.priceLeg rate currency .USD = .ok (rate.leg currency .USD) := by
  obtain ⟨base, quote⟩ := Prod.mk.inj pair
  constructor
  · rw [FxEngine.priceLeg, CurrentRate.leg, if_pos ⟨base.symm, quote.symm⟩, h.sellRate_eq, if_pos base.symm]
    rfl
  · have away : currency ≠ rate.baseCurrency := fun same => other (same.trans base)
    rw [FxEngine.priceLeg, CurrentRate.leg, if_neg fun same => away same.1, if_pos ⟨quote.symm, base.symm⟩, h.buyRate_eq,
      if_neg away]
    rfl

/-- The rate of a leg is a number of units that fits the column of a mid rate, or is the
largest one above it. -/
theorem CurrentRate.Sound.leg_units {rate : CurrentRate} (h : rate.Sound) (source destination : Currency) :
    ∃ n : ℤ, (rate.leg source destination).executableRate = rateUnits n ∧ 0 ≤ n ∧ n ≤ 10 ^ numericPrecision := by
  obtain ⟨m, positive, fits, mid⟩ := h.mid
  have low : (1 : ℚ) ≤ m := by exact_mod_cast positive
  have high : (m : ℚ) ≤ 10 ^ 20 := by exact_mod_cast fits.le
  unfold CurrentRate.leg
  split
  · obtain ⟨nonneg, le⟩ := sellValue_le (h.positive.le) h.sell
    refine ⟨_, rfl, Decimal.rounded_nonneg _ nonneg, Decimal.rounded_le ?_⟩
    rw [mid, rateUnits_toRat] at le ⊢
    simp only [rateScale, numericPrecision]
    push_cast
    linarith
  · have nonneg := (buyValue_pos h.positive h.buy).le
    refine ⟨_, rfl, Decimal.rounded_nonneg _ nonneg, Decimal.rounded_le ?_⟩
    have spread : (0 : ℚ) ≤ rate.buySpreadBps := by exact_mod_cast h.buy.1
    rw [mid, rateUnits_toRat, buyValue]
    simp only [rateScale, numericPrecision]
    push_cast
    rw [div_mul_eq_mul_div, div_le_iff₀ (by positivity)]
    nlinarith

/-- A route of one leg has the rate of the leg. -/
theorem compoundRate_one {leg : LegPricing} {n : ℤ} (rate : leg.executableRate = rateUnits n)
    (fits : n.natAbs < 10 ^ contextPrecision) : compoundRate [leg] = .ok leg.executableRate := by
  rw [compoundRate, List.foldl_cons, List.foldl_nil, rate, decimalOne_mul_rateUnits fits, roundRate_rateUnits fits]

/-- A route of two has the rounded product, unless that has too many digits. -/
theorem compoundRate_two {leg leg' : LegPricing} {n n' : ℤ} (rate : leg.executableRate = rateUnits n)
    (rate' : leg'.executableRate = rateUnits n') (fits : n.natAbs < 10 ^ contextPrecision) (nonneg : 0 ≤ n)
    (nonneg' : 0 ≤ n') :
    compoundRate [leg, leg'] =
      if leg.executableRate.toRat * leg'.executableRate.toRat * 10 ^ rateScale < 10 ^ contextPrecision - 1 / 2 then
        .ok (Decimal.rounded rateScale (ctx (leg.executableRate.toRat * leg'.executableRate.toRat)))
      else .error .invalidOperation := by
  have product : compoundRate [leg, leg'] = roundRate (leg.executableRate * leg'.executableRate) := by
    rw [compoundRate, List.foldl_cons, List.foldl_cons, List.foldl_nil, rate, decimalOne_mul_rateUnits fits]
  have low : 0 ≤ leg.executableRate.toRat * leg'.executableRate.toRat := by
    rw [rate, rate', rateUnits_toRat, rateUnits_toRat]
    positivity
  rw [product, roundRate, quantize_ctx low (toRat_mul _ _)]

/-- The terms of a quote are those of its route and its two rounded amounts. -/
theorem quoteTerms_routed (book : CurrentRateBook) (source destination : Currency) (amount : Decimal) :
    quoteTerms book source destination amount = (do
      let routed ← routeTerms book source destination
      let sourceAmount ← arith (roundMoney amount source)
      let destinationAmount ← arith (roundMoney (sourceAmount * routed.executableRate) destination)
      return ⟨routed.route, routed.legs, routed.executableRate, (routed.legs.map LegPricing.spreadBps).sum,
        sourceAmount, destinationAmount⟩) := by
  simp only [quoteTerms, routeTerms, bind_assoc, pure_bind]

theorem RouteTerms.quoted {book : CurrentRateBook} {source destination : Currency} {amount sold bought : Decimal}
    {routed : RouteTerms} (route : routeTerms book source destination = .ok routed)
    (rounded : roundMoney amount source = .ok sold)
    (converted : roundMoney (sold * routed.executableRate) destination = .ok bought) :
    quoteTerms book source destination amount = .ok ⟨routed.route, routed.legs, routed.executableRate,
      (routed.legs.map LegPricing.spreadBps).sum, sold, bought⟩ := by
  rw [quoteTerms_routed, route, rounded]
  change (do let destinationAmount ← arith (roundMoney (sold * routed.executableRate) destination); _) = _
  rw [converted]
  rfl

theorem priceRoute_cons {book : CurrentRateBook} {source destination : Currency} {hops : List (Currency × Currency)}
    {rate : CurrentRate} {leg : LegPricing} {legs : List LegPricing}
    (found : findCurrentRate book source destination = some rate)
    (priced : priceLeg rate source destination = .ok leg) (rest : priceRoute book hops = .ok legs) :
    priceRoute book ((source, destination) :: hops) = .ok (leg :: legs) := by
  simp only [priceRoute, found, priced, rest]
  rfl

theorem routeTerms_eq {book : CurrentRateBook} {source destination : Currency} {route : List Currency}
    {legs : List LegPricing} (found : buildRoute book source destination = .ok route)
    (priced : priceRoute book (route.zip route.tail) = .ok legs) :
    routeTerms book source destination = arith ((compoundRate legs).map (RouteTerms.mk route legs)) := by
  rw [routeTerms, found]
  change (do let legs ← priceRoute book (route.zip route.tail); _) = _
  rw [priced]
  change (do let executableRate ← arith (compoundRate legs); _) = _
  cases compoundRate legs <;> rfl

/-! ## The book of a refresh -/

section Book

variable {rows : List CurrentRate} (complete : Complete rows) (sound : ∀ rate ∈ rows, rate.Sound) {currency : Currency}
  (other : currency ≠ .USD)

include complete sound other

/-- Routes from and to the dollar have the rate of their one leg. -/
theorem routeTerms_dollar : ∃ rate ∈ rows, rate.pair = (.USD, currency) ∧
    routeTerms (rateBook rows) .USD currency =
      .ok ⟨[.USD, currency], [rate.leg .USD currency], (rate.leg .USD currency).executableRate⟩ ∧
    routeTerms (rateBook rows) currency .USD =
      .ok ⟨[currency, .USD], [rate.leg currency .USD], (rate.leg currency .USD).executableRate⟩ := by
  obtain ⟨rate, member, pair, found, found'⟩ := complete.dollar other
  obtain ⟨priced, priced'⟩ := (sound rate member).pricedLeg pair other
  have one : ∀ source destination, compoundRate [rate.leg source destination] =
      .ok (rate.leg source destination).executableRate := by
    intro source destination
    obtain ⟨n, units, low, high⟩ := (sound rate member).leg_units source destination
    exact compoundRate_one units (by simp only [numericPrecision, contextPrecision] at high ⊢; omega)
  have there := complete.route other.symm
  have back := complete.route other
  rw [if_pos (.inl rfl)] at there
  rw [if_pos (.inr rfl)] at back
  refine ⟨rate, member, pair, ?_, ?_⟩
  · rw [routeTerms_eq there (priceRoute_cons found priced rfl), one]
    rfl
  · rw [routeTerms_eq back (priceRoute_cons found' priced' rfl), one]
    rfl

/-- A route across the dollar has the product of its legs, as far as that has no more digits
than the context. -/
theorem routeTerms_cross {currency' : Currency} (other' : currency' ≠ .USD) (differ : currency ≠ currency') :
    ∃ rate ∈ rows, rate.pair = (.USD, currency) ∧ ∃ rate' ∈ rows, rate'.pair = (.USD, currency') ∧
      let sold := rate.leg currency .USD
      let bought := rate'.leg .USD currency'
      routeTerms (rateBook rows) currency currency' =
        if sold.executableRate.toRat * bought.executableRate.toRat * 10 ^ rateScale < 10 ^ contextPrecision - 1 / 2 then
          .ok ⟨[currency, .USD, currency'], [sold, bought],
            Decimal.rounded rateScale (ctx (sold.executableRate.toRat * bought.executableRate.toRat))⟩
        else .error (.decimal .invalidOperation) := by
  obtain ⟨rate, member, pair, -, found⟩ := complete.dollar other
  obtain ⟨rate', member', pair', found', -⟩ := complete.dollar other'
  obtain ⟨-, priced⟩ := (sound rate member).pricedLeg pair other
  obtain ⟨priced', -⟩ := (sound rate' member').pricedLeg pair' other'
  obtain ⟨n, units, low, high⟩ := (sound rate member).leg_units currency .USD
  obtain ⟨n', units', low', -⟩ := (sound rate' member').leg_units .USD currency'
  refine ⟨rate, member, pair, rate', member', pair', ?_⟩
  intro sold bought
  have product := compoundRate_two units units' (by simp only [numericPrecision, contextPrecision] at high ⊢; omega)
    low low'
  have route := complete.route differ
  rw [if_neg (by simp [other, other'])] at route
  rw [routeTerms_eq route (priceRoute_cons found priced (priceRoute_cons found' priced' rfl)), product]
  split <;> rfl

end Book

end FxEngine
