import FxEngine.Guarantees.Worth

/-! # There and back again

Every rounding is to the nearest, so a conversion can pay more than its amount is worth at
the mid rates. What it pays in excess is bounded, conversion by conversion, and so is what
is gained by coming back to the currency one started from.
-/

namespace FxEngine

open Numeric Transactions

instance {p : Currency → Prop} [DecidablePred p] : Decidable (∀ currency, p currency) :=
  decidable_of_iff (∀ currency ∈ Currency.all, p currency)
    ⟨fun each currency => each currency currency.mem_all, fun each currency _ => each currency⟩

section

variable [Platform] [Settings] {start : Instant} {σ τ : Engine} {customerId refreshId : Uuid}

namespace Engine

/-- An executed quote moves at most its roundings. -/
theorem Reachable.executed_near (h : Reachable start σ)
    (spreads : SpreadInRange Settings.defaultBuySpreadBps ∧ SpreadInRange Settings.defaultSellSpreadBps) {q : Quote}
    (executed : q ∈ σ.world.db.executedBy customerId) (priced : σ.world.db.PricedAt refreshId q) :
    valued (σ.world.db.price refreshId) q.moves ≤ q.roundings (σ.world.db.price refreshId) := by
  obtain ⟨rows, complete, stored, prices, made, pays⟩ := h.executed_book spreads executed priced
  exact h.moves_le executed (made.worth_near complete stored prices pays)

/-- Conversions there and back pay at most what was spent and the roundings of both. -/
theorem Reachable.there_and_back (h : Reachable start σ)
    (spreads : SpreadInRange Settings.defaultBuySpreadBps ∧ SpreadInRange Settings.defaultSellSpreadBps)
    {there back : Quote} (executed : there ∈ σ.world.db.executedBy customerId)
    (executed' : back ∈ σ.world.db.executedBy customerId) (priced : σ.world.db.PricedAt refreshId there)
    (priced' : σ.world.db.PricedAt refreshId back) (proceeds : back.sourceCurrency = there.destinationCurrency)
    (all : back.sourceAmount = there.destinationAmount) (home : back.destinationCurrency = there.sourceCurrency) :
    let price := σ.world.db.price refreshId
    back.destinationAmount.toRat ≤ there.sourceAmount.toRat +
      (there.roundings price + back.roundings price) / price there.sourceCurrency := by
  obtain ⟨rows, complete, stored, prices, made, pays⟩ := h.executed_book spreads executed priced
  obtain ⟨rows', complete', stored', prices', made', pays'⟩ := h.executed_book spreads executed' priced'
  intro price
  have positive : 0 < price there.sourceCurrency := (made.worth_le complete stored prices pays).1
  have out := made.worth_near complete stored prices pays
  have in_ := made'.worth_near complete' stored' prices' pays'
  rw [proceeds, all, home] at in_
  rw [← sub_le_iff_le_add', le_div_iff₀ positive]
  linarith

/-- Over every run, without credits, whoever starts from one currency and ends in it after
conversions at the rates of one refresh, in whatever order and next to whatever else, holds
at most the roundings of these conversions more of it; and conversions there and back pay
at most what was spent and the roundings of both. -/
theorem Reachable.round_trips (h : Reachable start σ) (run : Run program σ τ)
    (spreads : SpreadInRange Settings.defaultBuySpreadBps ∧ SpreadInRange Settings.defaultSellSpreadBps) {own : Currency}
    (uncredited : τ.world.db.creditsOf customerId = σ.world.db.creditsOf customerId)
    (positive : 0 < τ.world.db.price refreshId own)
    (alone : ∀ other ≠ own, σ.world.db.holding customerId other = 0 ∧ τ.world.db.holding customerId other = 0) :
    ∃ converted, τ.world.db.executedBy customerId = σ.world.db.executedBy customerId ++ converted ∧
      ((∀ q ∈ converted, τ.world.db.PricedAt refreshId q) →
        let price := τ.world.db.price refreshId
        τ.world.db.holding customerId own ≤
          σ.world.db.holding customerId own + (converted.map (·.roundings price)).sum / price own ∧
        ∀ there ∈ converted, ∀ back ∈ converted, back.sourceCurrency = there.destinationCurrency →
          back.sourceAmount = there.destinationAmount → back.destinationCurrency = there.sourceCurrency →
          back.destinationAmount.toRat ≤ there.sourceAmount.toRat +
            (there.roundings price + back.roundings price) / price there.sourceCurrency) := by
  obtain ⟨credits, converted, credited, executed, bound⟩ := h.worth_le run customerId
  refine ⟨converted, executed, fun priced => ?_⟩
  intro price
  have inside : ∀ q ∈ converted, q ∈ τ.world.db.executedBy customerId := fun q member =>
    executed ▸ List.mem_append_right _ member
  constructor
  · obtain rfl : credits = [] := by
      rw [uncredited] at credited
      exact (List.append_cancel_left ((List.append_nil _).trans credited)).symm
    have gained := (bound price (·.roundings price) fun q member =>
      (h.run run).executed_near spreads (inside q member) (priced q member)).2 own positive alone
    simpa using gained
  · intro there member back member' proceeds all home
    exact (h.run run).there_and_back spreads (inside _ member) (inside _ member') (priced _ member) (priced _ member')
      proceeds all home

end Engine

end

attribute [local instance] Sample.platform Sample.settings

namespace Sample

/-- The customer 1 with 1000 shillings. -/
def funded : List (Call × List Instant) :=
  opened (answer "130" "1500" "0.9") ++ [(.creditBalance 4 1 .KES (.str "1000.00"), [0])]

/-- A shilling for a cent, and the cent for shillings. -/
def converted : List (Call × List Instant) :=
  [(.createQuote 5 1 .KES .USD (.str "1.00"), [0]), (.executeQuote 6 5 "k", [0]),
    (.createQuote 7 1 .USD .KES (.str "0.01"), [0]), (.executeQuote 8 7 "j", [0])]

end Sample

open Sample in
/-- The customer gains what two roundings give. -/
theorem Engine.round_trips_sample : ∃ σ τ : Engine, Engine.Reachable 0 σ ∧ Run program σ τ ∧
    (τ.world.db.executedBy 1).map (fun q => (q.sourceAmount, q.destinationAmount)) =
      [(cents 100, cents 1), (cents 1, cents 129)] ∧
    τ.world.db.holding 1 .KES = 100029 / 100 ∧
    τ.world.db.holding 1 .KES ≤ 1000 + ((τ.world.db.executedBy 1).map (·.roundings (τ.world.db.price 2))).sum /
      τ.world.db.price 2 .KES := by
  obtain ⟨σ, τ, reached, run, db, db'⟩ := Sample.continued funded converted (by decide)
  have spreads : SpreadInRange Settings.defaultBuySpreadBps ∧ SpreadInRange Settings.defaultSellSpreadBps := by
    decide
  have before : σ.world.db.executedBy 1 = [] ∧ σ.world.db.holding 1 .KES = 1000 ∧
      ∀ other ≠ Currency.KES, σ.world.db.holding 1 other = 0 := by
    rw [db]
    decide +kernel
  have after : (∀ other ≠ Currency.KES, τ.world.db.holding 1 other = 0) ∧ 0 < τ.world.db.price 2 .KES ∧
      (∀ q ∈ τ.world.db.executedBy 1, τ.world.db.PricedAt 2 q) ∧ τ.world.db.holding 1 .KES = 100029 / 100 ∧
      (τ.world.db.executedBy 1).map (fun q => (q.sourceAmount, q.destinationAmount)) =
        [(cents 100, cents 1), (cents 1, cents 129)] := by
    rw [db']
    decide +kernel
  have uncredited : τ.world.db.creditsOf 1 = σ.world.db.creditsOf 1 := by
    rw [db, db']
    decide +kernel
  obtain ⟨conversions, executed, bound⟩ := reached.round_trips run spreads uncredited after.2.1 fun other away =>
    ⟨before.2.2 other away, after.1 other away⟩
  rw [before.1, List.nil_append] at executed
  refine ⟨σ, τ, reached, run, after.2.2.2.2, after.2.2.2.1, ?_⟩
  rw [executed] at after ⊢
  exact before.2.1 ▸ (bound after.2.2.1).1

open Sample in
/-- At unchanged rates with spreads of half a percent, a shilling becomes a cent, and the
cent becomes 1.29 shillings. -/
theorem Engine.not_round_trips : ∃ σ τ : Engine, Engine.Reachable 0 σ ∧ Run program σ τ ∧
    (Settings.defaultBuySpreadBps = 50 ∧ Settings.defaultSellSpreadBps = 50) ∧
    (τ.world.db.currentRates = σ.world.db.currentRates ∧ τ.world.db.refreshes = σ.world.db.refreshes) ∧
    (∀ rate ∈ σ.world.db.currentRates, 0 < rate.midRate.toRat) ∧ τ.world.db.creditsOf 1 = σ.world.db.creditsOf 1 ∧
    σ.world.db.quotes = [] ∧ (τ.world.db.executedBy 1).map Quote.id = [5, 7] ∧
    (∀ other ≠ Currency.KES, σ.world.db.holding 1 other = 0 ∧ τ.world.db.holding 1 other = 0) ∧
    σ.world.db.holding 1 .KES < τ.world.db.holding 1 .KES := by
  obtain ⟨σ, τ, reached, run, db, db'⟩ := Sample.continued funded converted (by decide)
  refine ⟨σ, τ, reached, run, ?_⟩
  rw [db, db']
  decide +kernel

end FxEngine
