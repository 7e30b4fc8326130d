import FxEngine.Correctness.LegRates

/-! # What pricing promises

The rate of a leg is the exact one, rounded once. A wider spread or a smaller amount never
pays more, over every route.
-/

namespace FxEngine

open Numeric

/-- Both directions of a rate are priced, each with the exact value rounded half-even once
to ten decimals. -/
theorem CurrentRate.Sound.priceLeg_exact {rate : CurrentRate} (h : rate.Sound)
    (differ : rate.baseCurrency ≠ rate.quoteCurrency) :
    priceLeg rate rate.baseCurrency rate.quoteCurrency = .ok
      ⟨rate.baseCurrency, rate.quoteCurrency, rate.midRate,
        Decimal.rounded 10 (rate.midRate.toRat * (1 - rate.sellSpreadBps / 10000)), rate.sellSpreadBps, .sell,
        rate.rateSnapshotId⟩ ∧
    priceLeg rate rate.quoteCurrency rate.baseCurrency = .ok
      ⟨rate.quoteCurrency, rate.baseCurrency, rate.midRate,
        Decimal.rounded 10 (1 / (rate.midRate.toRat * (1 + rate.buySpreadBps / 10000))), rate.buySpreadBps, .buy,
        rate.rateSnapshotId⟩ := by
  constructor
  · rw [priceLeg, if_pos ⟨rfl, rfl⟩, h.sellRate_eq]
    rfl
  · rw [priceLeg, if_neg fun same => differ same.2, if_pos ⟨rfl, rfl⟩, h.buyRate_eq]
    rfl

/-- 130 shillings to the dollar, 1500 naira and 90 euro cents. -/
def sampleRates (spread : ℤ) : List CurrentRate :=
  [⟨.USD, .KES, rateUnits 1300000000000, spread, spread, 10, 0⟩,
    ⟨.USD, .NGN, rateUnits 15000000000000, spread, spread, 11, 0⟩,
    ⟨.USD, .EUR, rateUnits 9000000000, spread, spread, 12, 0⟩]

theorem sampleRates_sound {spread : ℤ} (range : SpreadInRange spread) : ∀ rate ∈ sampleRates spread, rate.Sound := by
  have each : ∀ pair : Currency × Currency, ∀ m : ℤ, ∀ id, 0 < m → m < 10 ^ numericPrecision →
      CurrentRate.Sound ⟨pair.1, pair.2, rateUnits m, spread, spread, id, 0⟩ :=
    fun _ m _ positive fits => ⟨⟨m, positive, fits, rfl⟩, range, range⟩
  intro rate member
  simp only [sampleRates, List.mem_cons, List.not_mem_nil, or_false] at member
  rcases member with rfl | rfl | rfl
  · exact each (.USD, .KES) _ _ (by decide) (by decide)
  · exact each (.USD, .NGN) _ _ (by decide) (by decide)
  · exact each (.USD, .EUR) _ _ (by decide) (by decide)

/-- A dollar at 130 shillings with 50 basis points on either side. -/
theorem CurrentRate.Sound.priceLeg_exact_sample :
    priceLeg ⟨.USD, .KES, rateUnits 1300000000000, 50, 50, 10, 0⟩ .USD .KES = .ok
      ⟨.USD, .KES, rateUnits 1300000000000,
        Decimal.rounded 10 ((rateUnits 1300000000000).toRat * (1 - ((50 : ℤ) : ℚ) / 10000)), 50, .sell, 10⟩ ∧
    priceLeg ⟨.USD, .KES, rateUnits 1300000000000, 50, 50, 10, 0⟩ .KES .USD = .ok
      ⟨.KES, .USD, rateUnits 1300000000000,
        Decimal.rounded 10 (1 / ((rateUnits 1300000000000).toRat * (1 + ((50 : ℤ) : ℚ) / 10000))), 50, .buy, 10⟩ :=
  CurrentRate.Sound.priceLeg_exact (sampleRates_sound (by decide) _ List.mem_cons_self) (by decide)

/-! ## Routes -/

/-- The second rate is the first with spreads that are at least as wide. -/
structure CurrentRate.Wider (rate rate' : CurrentRate) : Prop where
  pair : rate'.pair = rate.pair
  mid : rate'.midRate = rate.midRate
  buy : rate.buySpreadBps ≤ rate'.buySpreadBps
  sell : rate.sellSpreadBps ≤ rate'.sellSpreadBps

/-- Two books with the same pairs and mid rates, the second with wider spreads. -/
def CurrentRateBook.Wider (book book' : CurrentRateBook) : Prop :=
  ∀ pair, Option.Rel CurrentRate.Wider (book.get pair) (book'.get pair)

def CurrentRateBook.Sound (book : CurrentRateBook) : Prop := ∀ rate ∈ book.rates, rate.Sound

/-- The second leg is priced no better, and not below zero. -/
def LegPricing.NoBetter (leg leg' : LegPricing) : Prop :=
  0 ≤ leg'.executableRate.toRat ∧ leg'.executableRate.toRat ≤ leg.executableRate.toRat

theorem CurrentRate.Wider.noBetter {rate rate' : CurrentRate} (wider : rate.Wider rate') (sound : rate.Sound)
    (sound' : rate'.Sound) {source destination : Currency} {leg leg' : LegPricing}
    (priced : priceLeg rate source destination = .ok leg) (priced' : priceLeg rate' source destination = .ok leg') :
    leg.NoBetter leg' := by
  have base : rate'.baseCurrency = rate.baseCurrency := congrArg Prod.fst wider.pair
  have quote : rate'.quoteCurrency = rate.quoteCurrency := congrArg Prod.snd wider.pair
  have nonneg : ∀ {q : ℚ}, 0 ≤ q → 0 ≤ (Decimal.rounded rateScale q).toRat := fun h =>
    Decimal.toRat_nonneg_iff.mpr (Decimal.rounded_nonneg _ h)
  rcases priceLeg_sound sound priced with ⟨source_, destination_, value⟩ | ⟨inverse, value⟩ <;>
    rcases priceLeg_sound sound' priced' with ⟨source', destination', value'⟩ | ⟨inverse', value'⟩
  · rw [LegPricing.NoBetter, value, value', wider.mid]
    exact ⟨nonneg (wider.mid ▸ (sellValue_le sound'.positive.le sound'.sell).1),
      Decimal.rounded_mono _ (sellValue_antitone sound.positive.le wider.sell)⟩
  · exact absurd ⟨source_.trans base.symm, destination_.trans quote.symm⟩ inverse'
  · exact absurd ⟨source'.trans base, destination'.trans quote⟩ inverse
  · rw [LegPricing.NoBetter, value, value', wider.mid]
    exact ⟨nonneg (wider.mid ▸ (buyValue_pos sound'.positive sound'.buy).le),
      Decimal.rounded_mono _ (buyValue_antitone sound.positive sound.buy wider.buy)⟩

namespace CurrentRateBook.Wider

variable {book book' : CurrentRateBook} (wider : book.Wider book')

include wider

theorem find (source destination : Currency) :
    Option.Rel CurrentRate.Wider (findCurrentRate book source destination) (findCurrentRate book' source destination) := by
  have direct := wider (source, destination)
  have inverse := wider (destination, source)
  rw [findCurrentRate, findCurrentRate]
  generalize book.get (source, destination) = found at direct ⊢
  generalize book'.get (source, destination) = found' at direct ⊢
  cases direct with
  | some wide => exact .some wide
  | none => exact inverse

theorem known (source destination : Currency) :
    (findCurrentRate book' source destination).isSome = (findCurrentRate book source destination).isSome := by
  have related := wider.find source destination
  generalize findCurrentRate book source destination = found at related ⊢
  generalize findCurrentRate book' source destination = found' at related ⊢
  cases related <;> rfl

theorem route (source destination : Currency) : buildRoute book' source destination = buildRoute book source destination := by
  simp only [buildRoute, wider.known]

theorem legs (sound : book.Sound) (sound' : book'.Sound) {hops : List (Currency × Currency)}
    {legs legs' : List LegPricing} (priced : priceRoute book hops = .ok legs)
    (priced' : priceRoute book' hops = .ok legs') : List.Forall₂ LegPricing.NoBetter legs legs' := by
  induction hops generalizing legs legs' with
  | nil =>
      cases priced
      cases priced'
      exact .nil
  | cons hop hops ih =>
      obtain ⟨source, destination⟩ := hop
      have related := wider.find source destination
      unfold priceRoute at priced priced'
      generalize found : findCurrentRate book source destination = a at related priced
      generalize found' : findCurrentRate book' source destination = b at related priced'
      cases related with
      | none => cases priced
      | some wide =>
          obtain ⟨leg, one, priced⟩ := Except.bind_ok priced
          obtain ⟨others, rest, priced⟩ := Except.bind_ok priced
          obtain ⟨leg', one', priced'⟩ := Except.bind_ok priced'
          obtain ⟨others', rest', priced'⟩ := Except.bind_ok priced'
          cases priced
          cases priced'
          have better := wide.noBetter (sound _ (findCurrentRate_mem found)) (sound' _ (findCurrentRate_mem found'))
            one one'
          exact .cons better (ih rest rest')

end CurrentRateBook.Wider

/-- A product over worse legs is no larger. -/
theorem foldl_noBetter {legs legs' : List LegPricing} (worse : List.Forall₂ LegPricing.NoBetter legs legs')
    (rate rate' : Decimal) (nonneg : 0 ≤ rate'.toRat) (le : rate'.toRat ≤ rate.toRat) :
    0 ≤ (legs'.foldl (fun rate leg => rate * leg.executableRate) rate').toRat ∧
      (legs'.foldl (fun rate leg => rate * leg.executableRate) rate').toRat ≤
        (legs.foldl (fun rate leg => rate * leg.executableRate) rate).toRat := by
  induction worse generalizing rate rate' with
  | nil => exact ⟨nonneg, le⟩
  | cons better _ ih =>
      refine ih _ _ ?_ ?_
      · rw [toRat_mul]
        exact sigRound_nonneg _ (mul_nonneg nonneg better.1)
      · rw [toRat_mul, toRat_mul]
        exact sigRound_mono (by norm_num) (mul_nonneg nonneg better.1)
          (mul_le_mul le better.2 better.1 (nonneg.trans le))

/-- With the same pairs and mid rates, spreads at least as wide and an amount at most as
large, a quote pays at most as much, over a direct, an inverse or a cross route. -/
theorem quoteTerms_antitone {book book' : CurrentRateBook} (sound : book.Sound) (sound' : book'.Sound)
    (wider : book.Wider book') {source destination : Currency} {amount amount' : Decimal}
    (positive : 0 < amount'.coeff) (le : amount' ≤ amount) {terms terms' : Terms}
    (quoted : quoteTerms book source destination amount = .ok terms)
    (quoted' : quoteTerms book' source destination amount' = .ok terms') :
    terms'.destinationAmount ≤ terms.destinationAmount := by
  have computed := quoteTerms_eq_ok.mp quoted
  have computed' := quoteTerms_eq_ok.mp quoted'
  have route : terms'.route = terms.route :=
    Except.ok.inj (computed'.route.symm.trans ((wider.route source destination).trans computed.route))
  have legs := computed'.legs
  rw [route] at legs
  obtain ⟨nonneg, worse⟩ := foldl_noBetter (wider.legs sound sound' computed.legs legs) decimalOne decimalOne
    (by simp [decimalOne, Decimal.toRat]) le_rfl
  have rateNonneg : 0 ≤ terms'.executableRate.toRat := by
    rw [roundRate_ok computed'.rate]
    exact Decimal.toRat_nonneg_iff.mpr (Decimal.rounded_nonneg _ nonneg)
  have rates : terms'.executableRate.toRat ≤ terms.executableRate.toRat := by
    rw [roundRate_ok computed'.rate, roundRate_ok computed.rate]
    exact Decimal.rounded_mono _ worse
  have soldNonneg : 0 ≤ terms'.sourceAmount.toRat := by
    rw [roundMoney_ok computed'.sourceAmount]
    exact Decimal.toRat_nonneg_iff.mpr (Decimal.rounded_nonneg _ (Decimal.toRat_pos_iff.mpr positive).le)
  have sold : terms'.sourceAmount.toRat ≤ terms.sourceAmount.toRat := by
    rw [roundMoney_ok computed'.sourceAmount, roundMoney_ok computed.sourceAmount]
    exact Decimal.rounded_mono _ le
  rw [Decimal.le_iff, roundMoney_ok computed'.destinationAmount, roundMoney_ok computed.destinationAmount,
    toRat_mul, toRat_mul]
  exact Decimal.rounded_mono _ (sigRound_mono (by norm_num) (mul_nonneg soldNonneg rateNonneg)
    (mul_le_mul sold rates rateNonneg (soldNonneg.trans sold)))

theorem quoteTerms_antitone_sample : ∃ terms terms' : Terms,
    quoteTerms (rateBook (sampleRates 50)) .KES .NGN (cents 20000) = .ok terms ∧
    quoteTerms (rateBook (sampleRates 80)) .KES .NGN (cents 10000) = .ok terms' ∧
    terms'.destinationAmount ≤ terms.destinationAmount := by
  have wider : (rateBook (sampleRates 50)).Wider (rateBook (sampleRates 80)) := by
    rintro ⟨base, quote⟩
    cases base <;> cases quote <;>
      first
      | exact Option.Rel.none
      | exact Option.Rel.some ⟨rfl, rfl, by decide, by decide⟩
  have sound : (rateBook (sampleRates 50)).Sound := sampleRates_sound (by decide)
  have sound' : (rateBook (sampleRates 80)).Sound := sampleRates_sound (by decide)
  obtain ⟨terms, quoted⟩ := Except.of_isOk (show (quoteTerms (rateBook (sampleRates 50)) .KES .NGN (cents 20000)).isOk
    by decide +kernel)
  obtain ⟨terms', quoted'⟩ := Except.of_isOk (show (quoteTerms (rateBook (sampleRates 80)) .KES .NGN (cents 10000)).isOk
    by decide +kernel)
  exact ⟨terms, terms', quoted, quoted',
    quoteTerms_antitone sound sound' wider (by decide) (cents_le.mpr (by decide)) quoted quoted'⟩

end FxEngine
