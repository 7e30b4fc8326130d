import FxEngine.Correctness.Limits
import FxEngine.Guarantees.Audit

/-! # What a conversion is worth

A quote is priced at the mid rates of its book or worse, except for its roundings: each leg
gains at most half a unit of the tenth decimal place, the product of two legs at most a unit
of it, and the amount at most a cent.
-/

namespace FxEngine

open Numeric Transactions

/-- The context adds half a unit of its last digit and the column half a unit of its last
place. -/
theorem rounded_ctx_near (places : ℕ) {q : ℚ} (nonneg : 0 ≤ q) :
    (Decimal.rounded places (ctx q)).toRat ≤ q * (1 + 1 / (2 * 10 ^ 27)) + 1 / 2 * (1 / 10 ^ places) := by
  have unit : (0 : ℚ) < 10 ^ places := by positivity
  have moved := abs_sigRound_sub_le contextPrecision q
  have tiny : (10 : ℚ) ^ (1 - (contextPrecision : ℕ) : ℤ) = 1 / 10 ^ 27 := by norm_num [contextPrecision]
  rw [abs_of_nonneg nonneg, abs_le, tiny] at moved
  have near := abs_le.mp (abs_sub_halfEven_le (ctx q * 10 ^ places))
  rw [Decimal.rounded_toRat]
  calc (halfEven (ctx q * 10 ^ places) : ℚ) / 10 ^ places ≤ (ctx q * 10 ^ places + 1 / 2) / 10 ^ places :=
        div_le_div_of_nonneg_right (by linarith [near.1]) unit.le
    _ = ctx q + 1 / 2 * (1 / 10 ^ places) := by field_simp
    _ ≤ _ := by linarith [moved.2]

/-- One unit of the last place is enough for both roundings of a value that fits its column. -/
theorem rounded_ctx_le (places : ℕ) {q : ℚ} (nonneg : 0 ≤ q)
    (fits : (Decimal.rounded places (ctx q)).coeff < 10 ^ numericPrecision) :
    (Decimal.rounded places (ctx q)).toRat ≤ q + 1 / 10 ^ places := by
  have unit : (0 : ℚ) < 10 ^ places := by positivity
  have moved := abs_sigRound_sub_le contextPrecision q
  rw [abs_of_nonneg nonneg, abs_le] at moved
  have near := abs_le.mp (abs_sub_halfEven_le (ctx q * 10 ^ places))
  have digits : halfEven (ctx q * 10 ^ places) < 10 ^ 20 := fits
  have small : (halfEven (ctx q * 10 ^ places) : ℚ) ≤ 10 ^ 20 := by exact_mod_cast digits.le
  have tiny : (10 : ℚ) ^ (1 - (contextPrecision : ℕ) : ℤ) = 1 / 10 ^ 27 := by norm_num [contextPrecision]
  rw [tiny] at moved
  -- the context moves a value of twenty digits by far less than a unit
  have below : (ctx q - q) * 10 ^ places ≤ q * 10 ^ places * (1 / 10 ^ 27) / 2 := by
    calc (ctx q - q) * 10 ^ places ≤ q * (1 / 10 ^ 27) / 2 * 10 ^ places :=
          mul_le_mul_of_nonneg_right moved.2 unit.le
      _ = q * 10 ^ places * (1 / 10 ^ 27) / 2 := by ring
  have above : (q - ctx q) * 10 ^ places ≤ q * 10 ^ places * (1 / 10 ^ 27) / 2 := by
    calc (q - ctx q) * 10 ^ places ≤ q * (1 / 10 ^ 27) / 2 * 10 ^ places :=
          mul_le_mul_of_nonneg_right (by linarith [moved.1]) unit.le
      _ = q * 10 ^ places * (1 / 10 ^ 27) / 2 := by ring
  rw [Decimal.rounded_toRat, div_le_iff₀ unit, add_mul, one_div_mul_cancel unit.ne']
  linarith [near.1, near.2]

/-! ## Legs -/

/-- A rate row whose mid rate may have vanished, with spreads of at most the whole. -/
structure CurrentRate.Stored (rate : CurrentRate) : Prop where
  mid : ∃ m : ℤ, rate.midRate = rateUnits m ∧ 0 ≤ m ∧ m < 10 ^ numericPrecision
  buy : SpreadInRange rate.buySpreadBps
  sell : SpreadInRange rate.sellSpreadBps

/-- A leg that pays anything is priced from a rate that has not vanished. -/
theorem CurrentRate.Stored.sound {rate : CurrentRate} (h : rate.Stored) {source destination : Currency}
    {leg : LegPricing} (priced : priceLeg rate source destination = .ok leg) (pays : leg.executableRate.toRat ≠ 0) :
    rate.Sound := by
  obtain ⟨m, units, low, high⟩ := h.mid
  obtain positive | rfl := low.lt_or_eq
  · exact ⟨⟨m, positive, high, units⟩, h.buy, h.sell⟩
  obtain ⟨-, -, -, -, ⟨-, -, sold⟩ | ⟨-, -, bought⟩⟩ := priceLeg_ok priced
  · rw [units, FxEngine.sellRate_eq high h.sell low] at sold
    refine absurd ?_ pays
    rw [← Except.ok.inj sold]
    simp [sellValue, Decimal.rounded_toRat]
  · have vanished : rate.boughtFor = 0 := by
      rw [CurrentRate.boughtFor, units, rateUnits_toRat]
      simp [ctx]
    exact absurd vanished (buyRate_iff.mp bought).1

/-- What each currency is worth at the mid rates, with the dollar as the unit. -/
structure Prices (rows : List CurrentRate) (price : Currency → ℚ) : Prop where
  dollar : price .USD = 1
  mids : ∀ rate ∈ rows, price rate.quoteCurrency = 1 / rate.midRate.toRat

section Book

variable {rows : List CurrentRate} (complete : Complete rows) (stored : ∀ rate ∈ rows, rate.Stored)
  {price : Currency → ℚ} (prices : Prices rows price) {rate : CurrentRate} (member : rate ∈ rows)
  {source destination : Currency} {leg : LegPricing} (priced : priceLeg rate source destination = .ok leg)
  (pays : leg.executableRate.toRat ≠ 0)

include complete stored prices member priced pays

/-- A leg from the dollar pays at most the mid rate, one to the dollar half a unit more. -/
theorem leg_worth : 0 < price source ∧ 0 < price destination ∧ 0 ≤ leg.executableRate.toRat ∧
    ((source = .USD ∧ leg.executableRate.toRat * price destination ≤ 1) ∨
      (destination = .USD ∧ leg.executableRate.toRat ≤ price source + 1 / 2 * (1 / 10 ^ 10))) := by
  have sound := (stored rate member).sound priced pays
  have positive := sound.positive
  obtain ⟨dollar, -⟩ := complete.ends member
  have value := prices.mids rate member
  rcases priceLeg_sound sound priced with ⟨rfl, rfl, sold⟩ | ⟨inverse, bought⟩
  · obtain ⟨nonneg, le⟩ := sellValue_le positive.le sound.sell
    have most : leg.executableRate.toRat ≤ rate.midRate.toRat := by
      rw [sold]
      exact (Decimal.rounded_mono _ le).trans_eq (congrArg _ sound.rounded_mid)
    rw [dollar, prices.dollar, value]
    refine ⟨one_pos, by positivity, ?_, .inl ⟨rfl, ?_⟩⟩
    · rw [sold]
      exact Decimal.toRat_nonneg_iff.mpr (Decimal.rounded_nonneg _ nonneg)
    · rw [mul_one_div]
      exact (div_le_one positive).mpr most
  · obtain ⟨rfl, rfl⟩ : source = rate.quoteCurrency ∧ destination = rate.baseCurrency := by
      obtain ⟨-, -, -, -, ⟨source_, destination_, -⟩ | ⟨source_, destination_, -⟩⟩ := priceLeg_ok priced
      · exact absurd ⟨source_, destination_⟩ inverse
      · exact ⟨source_, destination_⟩
    have le := buyValue_antitone positive (by decide) sound.buy.1
    rw [buyValue_zero] at le
    have near := abs_le.mp (abs_sub_halfEven_le (buyValue rate.midRate.toRat rate.buySpreadBps * 10 ^ rateScale))
    rw [dollar, prices.dollar, value]
    refine ⟨by positivity, one_pos, ?_, .inr ⟨rfl, ?_⟩⟩
    · rw [bought]
      exact Decimal.toRat_nonneg_iff.mpr (Decimal.rounded_nonneg _ (buyValue_pos positive sound.buy).le)
    · rw [bought, Decimal.rounded_toRat, div_le_iff₀ (by positivity)]
      simp only [rateScale] at near ⊢
      linarith [near.1]

end Book

/-! ## Quotes -/

/-- What the roundings of a quote can be worth to the customer. -/
def Quote.allowance (q : Quote) (price : Currency → ℚ) : ℚ :=
  q.sourceAmount.toRat * (1 / 10 ^ 10) * (1 + price q.destinationCurrency) + 1 / 100 * price q.destinationCurrency

section Quotes

variable {rows : List CurrentRate} {q : Quote} {legs : List QuoteLeg}

/-- What the rate of a route is before the legs' product is rounded: worth the source
currency, or less, apart from the rounding of the legs. -/
theorem Computed.rate_worth (complete : Complete rows) (stored : ∀ rate ∈ rows, rate.Stored) {price : Currency → ℚ}
    (prices : Prices rows price) {source destination : Currency} (differ : source ≠ destination) {amount : Decimal}
    {terms : Terms} (computed : Computed (rateBook rows) source destination amount terms)
    (pays : terms.executableRate.toRat ≠ 0) :
    0 < price source ∧ 0 < price destination ∧ 0 ≤ terms.executableRate.toRat ∧
      ∃ x, 0 ≤ x ∧ x * price destination ≤ price source + 1 / 2 * (1 / 10 ^ 10) ∧
        (terms.executableRate.toRat = x ∨ terms.executableRate = Decimal.rounded rateScale (ctx x)) := by
  have route := computed.route
  have legs := computed.legs
  have rate := computed.rate
  rw [complete.route differ] at route
  rw [← Except.ok.inj route] at legs
  by_cases direct : source = .USD ∨ destination = .USD
  · rw [if_pos direct] at legs
    obtain ⟨found, member, leg, rest, priced, none, same⟩ := priceRoute_cons_ok legs
    cases none
    obtain ⟨n, units, small⟩ := priceLeg_units priced
    rw [same, compoundRate_one units small] at rate
    rw [← Except.ok.inj rate] at pays ⊢
    obtain ⟨worth, worth', nonneg, bound⟩ := leg_worth complete stored prices member priced pays
    refine ⟨worth, worth', nonneg, _, nonneg, ?_, .inl rfl⟩
    obtain ⟨rfl, bound⟩ | ⟨rfl, bound⟩ := bound
    · rw [prices.dollar]
      linarith
    · rw [prices.dollar]
      linarith
  · rw [if_neg direct] at legs
    obtain ⟨found, member, leg, rest, priced, more, same⟩ := priceRoute_cons_ok legs
    obtain ⟨found', member', leg', rest', priced', none, same'⟩ := priceRoute_cons_ok more
    cases none
    subst same'
    obtain ⟨n, units, small⟩ := priceLeg_units priced
    obtain ⟨n', units', -⟩ := priceLeg_units priced'
    rw [same, compoundRate_units units units' small] at rate
    have value := roundRate_ok rate
    rw [toRat_mul, ← units, ← units'] at value
    have product : leg.executableRate.toRat * leg'.executableRate.toRat ≠ 0 := by
      intro zero
      refine pays ?_
      rw [value, zero]
      simp [ctx, Decimal.rounded_toRat]
    obtain ⟨worth, -, nonneg, bound⟩ := leg_worth complete stored prices member priced (left_ne_zero_of_mul product)
    obtain ⟨-, worth', nonneg', bound'⟩ := leg_worth complete stored prices member' priced' (right_ne_zero_of_mul product)
    replace bound := (bound.resolve_left fun back => direct (.inl back.1)).2
    replace bound' := (bound'.resolve_right fun back => direct (.inr back.1)).2
    refine ⟨worth, worth', ?_, _, mul_nonneg nonneg nonneg', ?_, .inr value⟩
    · rw [value]
      exact Decimal.toRat_nonneg_iff.mpr (Decimal.rounded_nonneg _ (sigRound_nonneg _ (mul_nonneg nonneg nonneg')))
    · calc leg.executableRate.toRat * leg'.executableRate.toRat * price destination
          = leg.executableRate.toRat * (leg'.executableRate.toRat * price destination) := mul_assoc _ _ _
        _ ≤ leg.executableRate.toRat := mul_le_of_le_one_right nonneg bound'
        _ ≤ _ := bound

/-- The amounts of a quote that pays anything: the destination is what the rate makes of the
source, rounded. -/
theorem Priced.converted (h : Priced rows q legs) (complete : Complete rows) (stored : ∀ rate ∈ rows, rate.Stored)
    {price : Currency → ℚ} (prices : Prices rows price) (pays : q.destinationAmount.coeff ≠ 0) :
    0 ≤ q.sourceAmount.toRat ∧
      q.destinationAmount = Decimal.rounded standardMinorUnitPlaces (ctx (q.sourceAmount.toRat * q.executableRate.toRat)) ∧
      0 < price q.sourceCurrency ∧ 0 < price q.destinationCurrency ∧ 0 ≤ q.executableRate.toRat ∧
      ∃ x, 0 ≤ x ∧ x * price q.destinationCurrency ≤ price q.sourceCurrency + 1 / 2 * (1 / 10 ^ 10) ∧
        (q.executableRate.toRat = x ∨ q.executableRate = Decimal.rounded rateScale (ctx x)) := by
  obtain ⟨amount, positive, terms, quoted, eq, -⟩ := h.terms
  have computed := quoteTerms_eq_ok.mp quoted
  have rate : q.executableRate = terms.executableRate := by rw [eq]; rfl
  have source : q.sourceAmount = terms.sourceAmount := by rw [eq]; rfl
  have destination : q.destinationAmount = terms.destinationAmount := by rw [eq]; rfl
  have nonneg : 0 ≤ q.sourceAmount.toRat := by
    rw [source, roundMoney_ok computed.sourceAmount]
    exact Decimal.toRat_nonneg_iff.mpr (Decimal.rounded_nonneg _ (Decimal.toRat_pos_iff.mpr positive).le)
  have value := roundMoney_ok computed.destinationAmount
  rw [toRat_mul, ← rate, ← source, ← destination] at value
  have moved : q.executableRate.toRat ≠ 0 := by
    intro zero
    rw [zero, mul_zero] at value
    refine pays ?_
    rw [value]
    simp [Decimal.rounded, ctx]
  have worth := computed.rate_worth complete stored prices h.differ (rate ▸ moved)
  rw [← rate] at worth
  exact ⟨nonneg, value, worth⟩

/-- A quote that pays anything is worth to the customer at most what it costs, apart from
roundings. -/
theorem Priced.worth_le (h : Priced rows q legs) (complete : Complete rows) (stored : ∀ rate ∈ rows, rate.Stored)
    {price : Currency → ℚ} (prices : Prices rows price) (pays : q.destinationAmount.coeff ≠ 0) :
    0 < price q.sourceCurrency ∧ 0 < price q.destinationCurrency ∧
      q.destinationAmount.toRat * price q.destinationCurrency ≤
        q.sourceAmount.toRat * price q.sourceCurrency + q.allowance price := by
  obtain ⟨spent, received, sourceValue, destinationValue, -, small⟩ := h.amounts
  obtain ⟨nonneg, value, worth, worth', low, x, positive, bound, rounded⟩ := h.converted complete stored prices pays
  refine ⟨worth, worth', ?_⟩
  have column : ∀ {n : ℤ}, n.natAbs < 10 ^ numericPrecision → n < 10 ^ numericPrecision := by
    intro n fits
    simp only [numericPrecision] at fits ⊢
    omega
  have rate : q.executableRate.toRat ≤ x + 1 / 10 ^ rateScale := by
    obtain same | same := rounded
    · rw [same]
      exact le_add_of_nonneg_right (by positivity)
    · have fits := h.fits.2.2
      rw [same] at fits ⊢
      exact rounded_ctx_le rateScale positive (column (fitsRate_rateUnits.mp fits))
  have converted : q.executableRate.toRat * price q.destinationCurrency ≤
      price q.sourceCurrency + 1 / 10 ^ 10 * (1 + price q.destinationCurrency) := by
    have scaled := mul_le_mul_of_nonneg_right rate worth'.le
    simp only [rateScale] at scaled
    linarith
  have whole := rounded_ctx_le standardMinorUnitPlaces (mul_nonneg nonneg low)
    (by rw [← value, destinationValue]; exact column small)
  rw [← value] at whole
  have scaled := mul_le_mul_of_nonneg_right whole worth'.le
  have spentWorth := mul_le_mul_of_nonneg_left converted nonneg
  rw [Quote.allowance]
  simp only [standardMinorUnitPlaces] at scaled
  linarith

/-- What roundings to the nearest can add to a quote: half a unit of the tenth place of its
rate for the legs and for their product, half a cent of the amount, and what 28 digits
leave out. -/
def Quote.roundings (q : Quote) (price : Currency → ℚ) : ℚ :=
  q.sourceAmount.toRat * ((price q.sourceCurrency + (1 + price q.destinationCurrency) / (2 * 10 ^ 10)) *
    (1 + 2 / 10 ^ 27) - price q.sourceCurrency) + price q.destinationCurrency / 200

/-- A quote that pays anything is worth at most what it costs and its roundings to the
nearest. -/
theorem Priced.worth_near (h : Priced rows q legs) (complete : Complete rows) (stored : ∀ rate ∈ rows, rate.Stored)
    {price : Currency → ℚ} (prices : Prices rows price) (pays : q.destinationAmount.coeff ≠ 0) :
    q.destinationAmount.toRat * price q.destinationCurrency ≤
      q.sourceAmount.toRat * price q.sourceCurrency + q.roundings price := by
  obtain ⟨nonneg, value, worth, worth', low, x, positive, bound, rounded⟩ := h.converted complete stored prices pays
  let ε : ℚ := 1 / (2 * 10 ^ 27)
  let most : ℚ := price q.sourceCurrency + (1 + price q.destinationCurrency) / (2 * 10 ^ 10)
  have rate : q.executableRate.toRat ≤ x * (1 + ε) + 1 / 2 * (1 / 10 ^ 10) := by
    obtain same | same := rounded
    · rw [same]
      have := mul_nonneg positive (show (0 : ℚ) ≤ ε by positivity)
      linarith
    · rw [same]
      exact rounded_ctx_near rateScale positive
  -- at the prices, the rate costs the source currency
  have converted : q.executableRate.toRat * price q.destinationCurrency ≤ most * (1 + ε) := by
    have ε_nonneg : (0 : ℚ) ≤ ε := by positivity
    calc q.executableRate.toRat * price q.destinationCurrency
        ≤ (x * (1 + ε) + 1 / 2 * (1 / 10 ^ 10)) * price q.destinationCurrency :=
          mul_le_mul_of_nonneg_right rate worth'.le
      _ = x * price q.destinationCurrency * (1 + ε) + 1 / 2 * (1 / 10 ^ 10) * price q.destinationCurrency := by ring
      _ ≤ (price q.sourceCurrency + 1 / 2 * (1 / 10 ^ 10)) * (1 + ε) +
            1 / 2 * (1 / 10 ^ 10) * price q.destinationCurrency * (1 + ε) := by
          refine add_le_add (mul_le_mul_of_nonneg_right bound (by positivity)) ?_
          exact le_mul_of_one_le_right (by positivity) (by linarith)
      _ = most * (1 + ε) := by ring
  have amount := rounded_ctx_near standardMinorUnitPlaces (mul_nonneg nonneg low)
  rw [← value] at amount
  have most_nonneg : 0 ≤ most := by positivity
  calc q.destinationAmount.toRat * price q.destinationCurrency
      ≤ (q.sourceAmount.toRat * q.executableRate.toRat * (1 + ε) + 1 / 2 * (1 / 10 ^ 2)) * price q.destinationCurrency :=
        mul_le_mul_of_nonneg_right amount worth'.le
    _ = q.sourceAmount.toRat * (q.executableRate.toRat * price q.destinationCurrency) * (1 + ε) +
          price q.destinationCurrency / 200 := by ring
    _ ≤ q.sourceAmount.toRat * (most * (1 + ε)) * (1 + ε) + price q.destinationCurrency / 200 := by
        have := mul_le_mul_of_nonneg_left converted nonneg
        gcongr
    _ ≤ q.sourceAmount.toRat * (most * (1 + 2 / 10 ^ 27)) + price q.destinationCurrency / 200 := by
        have square : (1 + ε) * (1 + ε) ≤ 1 + 2 / 10 ^ 27 := by norm_num [ε]
        have := mul_le_mul_of_nonneg_left square (mul_nonneg nonneg most_nonneg)
        linarith
    _ = q.sourceAmount.toRat * price q.sourceCurrency + q.roundings price := by
        rw [Quote.roundings]
        ring

end Quotes

end FxEngine
