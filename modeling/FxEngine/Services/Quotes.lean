import FxEngine.Repositories.Rates
import FxEngine.Services.Customers

/-! # Quote pricing

A quote captures executable terms when it is created; its execution uses these
terms and never reprices.
-/

namespace FxEngine

open Numeric Transactions Program

/-- Spreads are in basis points, 10,000 of them to the whole. -/
def basisPointDenominator : Decimal := ⟨10000, 0⟩

/-- How long a quote is valid. -/
def quoteTtlSeconds : ℤ := 60

def errorRatesStale : String := "rates_stale"

/-- The pricing of one leg. -/
structure LegPricing where
  source : Currency
  destination : Currency
  midRate : Decimal
  executableRate : Decimal
  spreadBps : ℤ
  spreadSide : SpreadSide
  rateSnapshotId : Uuid
  deriving DecidableEq

def findCurrentRate (book : CurrentRateBook) (source destination : Currency) : Option CurrentRate :=
  book.get (source, destination) <|> book.get (destination, source)

/-- Choose the route in this order: direct, USD, then EUR. -/
def buildRoute (book : CurrentRateBook) (source destination : Currency) : Except PyError (List Currency) :=
  if (findCurrentRate book source destination).isSome then .ok [source, destination]
  else
    let pivots (pivot : Currency) : Bool := pivot ≠ source ∧ pivot ≠ destination ∧
      (findCurrentRate book source pivot).isSome ∧ (findCurrentRate book pivot destination).isSome
    match [Currency.USD, Currency.EUR].find? pivots with
    | some pivot => .ok [source, pivot, destination]
    | none => .error (serviceUnavailable errorRatesStale
        s!"No route available for {source.value}/{destination.value}.")

/-- From base to quote: the mid rate less the sell spread. -/
def sellRate (mid : Decimal) (spread : ℤ) : Except DecimalException Decimal := do
  let fraction ← divide ⟨spread, 0⟩ basisPointDenominator
  roundRate (mid * (decimalOne - fraction))

/-- From quote to base: the inverse of the mid rate plus the buy spread. -/
def buyRate (mid : Decimal) (spread : ℤ) : Except DecimalException Decimal := do
  let fraction ← divide ⟨spread, 0⟩ basisPointDenominator
  let priced := mid * (decimalOne + fraction)
  roundRate (← divide decimalOne priced)

/-- Apply the spread once the direction is known. -/
def priceLeg (rate : CurrentRate) (source destination : Currency) : Except PyError LegPricing := do
  if source = rate.baseCurrency ∧ destination = rate.quoteCurrency then
    let executable ← arith (sellRate rate.midRate rate.sellSpreadBps)
    return ⟨source, destination, rate.midRate, executable, rate.sellSpreadBps, .sell, rate.rateSnapshotId⟩
  if source = rate.quoteCurrency ∧ destination = rate.baseCurrency then
    let executable ← arith (buyRate rate.midRate rate.buySpreadBps)
    return ⟨source, destination, rate.midRate, executable, rate.buySpreadBps, .buy, rate.rateSnapshotId⟩
  .error (validationError "Rate direction does not match requested leg." [])

/-- Price each hop of the route on its own. -/
def priceRoute (book : CurrentRateBook) : List (Currency × Currency) → Except PyError (List LegPricing)
  | [] => .ok []
  | (source, destination) :: hops =>
      match findCurrentRate book source destination with
      | none => .error (serviceUnavailable errorRatesStale
          s!"Rate missing for {source.value}/{destination.value}.")
      | some currentRate => do
          let leg ← priceLeg currentRate source destination
          let legs ← priceRoute book hops
          return leg :: legs

/-- The rate of the whole route: the product of the legs' rates. -/
def compoundRate (legs : List LegPricing) : Except DecimalException Decimal :=
  roundRate (legs.foldl (fun rate leg => rate * leg.executableRate) decimalOne)

/-- The priced terms of a quote. -/
structure Terms where
  route : List Currency
  legs : List LegPricing
  executableRate : Decimal
  spreadBps : ℤ
  sourceAmount : Decimal
  destinationAmount : Decimal

/-- Everything `createQuote` computes from the rate book and the request. -/
def quoteTerms (book : CurrentRateBook) (sourceCurrency destinationCurrency : Currency)
    (amount : Decimal) : Except PyError Terms := do
  let route ← buildRoute book sourceCurrency destinationCurrency
  let legs ← priceRoute book (route.zip route.tail)
  let executableRate ← arith (compoundRate legs)
  let spreadBps := (legs.map LegPricing.spreadBps).sum
  let sourceAmount ← arith (roundMoney amount sourceCurrency)
  let destinationAmount ← arith (roundMoney (sourceAmount * executableRate) destinationCurrency)
  return ⟨route, legs, executableRate, spreadBps, sourceAmount, destinationAmount⟩

/-- The stored quote. -/
def Terms.toQuote (terms : Terms) (quoteId customerId : Uuid) (sourceCurrency destinationCurrency : Currency)
    (createdAt : Instant) : Quote :=
  ⟨quoteId, customerId, sourceCurrency, destinationCurrency, terms.sourceAmount, terms.destinationAmount,
    terms.executableRate, terms.route, terms.spreadBps, createdAt, createdAt + seconds quoteTtlSeconds⟩

/-- The stored legs, numbered from `position`. -/
def legRows (quoteId : Uuid) : ℕ → List LegPricing → Except DecimalException (List QuoteLeg)
  | _, [] => .ok []
  | position, leg :: legs => do
      let midRate ← roundRate leg.midRate
      let others ← legRows quoteId (position + 1) legs
      return ⟨quoteId, position, leg.source, leg.destination, midRate, leg.executableRate, leg.spreadSide,
        leg.spreadBps, leg.rateSnapshotId⟩ :: others

/-- Create an immutable quote without reading or changing balances. -/
def createQuote [Platform] [Settings] (quoteId customerId : Uuid)
    (sourceCurrency destinationCurrency : Currency) (sourceAmount : Decimal) : Tx Quote := do
  if sourceCurrency = destinationCurrency then
    .raise (validationError "source_currency and destination_currency must differ." [])
  else
    assertCustomerExists customerId
    let book ← loadCurrentRateBook
    match book.lastUpdatedAt with
    | none => .raise (serviceUnavailable errorRatesStale "Rates are unavailable.")
    | some lastUpdatedAt =>
        let oldest ← ofExcept (cutoff (← now))
        if lastUpdatedAt < oldest then
          .raise (serviceUnavailable errorRatesStale "Rates are stale.")
        else
          let terms ← ofExcept (quoteTerms book sourceCurrency destinationCurrency sourceAmount)
          let createdAt ← now
          let quote := terms.toQuote quoteId customerId sourceCurrency destinationCurrency createdAt
          flush [.insertQuote quote]
          let legs ← ofExcept (arith (legRows quoteId 0 terms.legs))
          -- the commit flushes the legs
          flush (legs.map Statement.insertLeg)
          commitAll
          inc .quoteCreatedTotal
          reload
          pure quote

end FxEngine
