import FxEngine.Correctness.Interference

/-! # What a priced quote says

The terms of a quote, read back step by step from the computation that made them.
-/

namespace FxEngine

open Numeric Transactions

theorem Except.bind_ok {ε α β : Type} {r : Except ε α} {f : α → Except ε β} {b : β} (h : r >>= f = .ok b) :
    ∃ a, r = .ok a ∧ f a = .ok b := by
  cases r with
  | error e => cases h
  | ok a => exact ⟨a, rfl, h⟩

/-- A failure comes from the first part or from the second. -/
theorem Except.bind_error {ε α β : Type} {r : Except ε α} {f : α → Except ε β} {e : ε} (h : r >>= f = .error e) :
    r = .error e ∨ ∃ a, r = .ok a ∧ f a = .error e := by
  cases r with
  | error e' =>
      cases h
      exact .inl rfl
  | ok a => exact .inr ⟨a, rfl, h⟩

/-- Arithmetic fails with decimal exceptions only. -/
theorem arith_error {α : Type} {r : Except DecimalException α} {e : PyError} (h : arith r = .error e) :
    ∃ x, e = .decimal x := by
  cases r with
  | error x =>
      cases h
      exact ⟨x, rfl⟩
  | ok a => cases h

theorem Except.of_isOk {ε α : Type} {r : Except ε α} (h : r.isOk) : ∃ a, r = .ok a := by
  cases r with
  | error e => cases h
  | ok a => exact ⟨a, rfl⟩

/-- How the terms of a quote were computed. -/
structure Computed (book : CurrentRateBook) (source destination : Currency) (amount : Decimal)
    (terms : Terms) : Prop where
  route : buildRoute book source destination = .ok terms.route
  legs : priceRoute book (terms.route.zip terms.route.tail) = .ok terms.legs
  rate : compoundRate terms.legs = .ok terms.executableRate
  sourceAmount : roundMoney amount source = .ok terms.sourceAmount
  destinationAmount : roundMoney (terms.sourceAmount * terms.executableRate) destination =
    .ok terms.destinationAmount
  spread : terms.spreadBps = (terms.legs.map LegPricing.spreadBps).sum

theorem quoteTerms_eq_ok {book : CurrentRateBook} {source destination : Currency} {amount : Decimal}
    {terms : Terms} : quoteTerms book source destination amount = .ok terms ↔
      Computed book source destination amount terms := by
  constructor
  · intro h
    obtain ⟨route, foundRoute, h⟩ := Except.bind_ok h
    obtain ⟨legs, priced, h⟩ := Except.bind_ok h
    obtain ⟨rate, compounded, h⟩ := Except.bind_ok h
    obtain ⟨sold, rounded, h⟩ := Except.bind_ok h
    obtain ⟨bought, converted, h⟩ := Except.bind_ok h
    cases h
    exact ⟨foundRoute, priced, arith_eq_ok.mp compounded, arith_eq_ok.mp rounded,
      arith_eq_ok.mp converted, rfl⟩
  · intro h
    obtain ⟨foundRoute, priced, compounded, rounded, converted, spread⟩ := h
    obtain ⟨route, legs, rate, sum, sold, bought⟩ := terms
    dsimp only at foundRoute priced compounded rounded converted spread
    subst spread
    simp only [quoteTerms, foundRoute, bind, Except.bind, priced, compounded, rounded, converted, arith_ok]
    rfl

namespace Priced

variable {rows : List CurrentRate} {quote : Quote} {legs : List QuoteLeg}

/-- Both amounts of a quote are whole cents that fit their columns. -/
theorem amounts (h : Priced rows quote legs) : ∃ spent received : ℤ, quote.sourceAmount = cents spent ∧
    quote.destinationAmount = cents received ∧ spent.natAbs < 10 ^ numericPrecision ∧
    received.natAbs < 10 ^ numericPrecision := by
  obtain ⟨amount, -, terms, priced, eq, -⟩ := h.terms
  have computed := quoteTerms_eq_ok.mp priced
  obtain ⟨spent, source⟩ : ∃ n, quote.sourceAmount = cents n := by
    rw [eq]
    exact ⟨_, roundMoney_cents computed.sourceAmount⟩
  obtain ⟨received, destination⟩ : ∃ n, quote.destinationAmount = cents n := by
    rw [eq]
    exact ⟨_, roundMoney_cents computed.destinationAmount⟩
  refine ⟨spent, received, source, destination, ?_, ?_⟩
  · exact fitsMoney_cents.mp (source ▸ h.fits.1)
  · exact fitsMoney_cents.mp (destination ▸ h.fits.2.1)

end Priced

/-! ## Legs -/

/-- A leg is priced from one row of the book, in one of its two directions. -/
theorem priceLeg_ok {rate : CurrentRate} {source destination : Currency} {leg : LegPricing}
    (h : priceLeg rate source destination = .ok leg) :
    leg.source = source ∧ leg.destination = destination ∧ leg.midRate = rate.midRate ∧
      leg.rateSnapshotId = rate.rateSnapshotId ∧
      ((source = rate.baseCurrency ∧ destination = rate.quoteCurrency ∧
          sellRate rate.midRate rate.sellSpreadBps = .ok leg.executableRate) ∨
        (source = rate.quoteCurrency ∧ destination = rate.baseCurrency ∧
          buyRate rate.midRate rate.buySpreadBps = .ok leg.executableRate)) := by
  unfold priceLeg at h
  split at h
  · rename_i direct
    obtain ⟨executable, priced, h⟩ := Except.bind_ok h
    cases h
    exact ⟨rfl, rfl, rfl, rfl, .inl ⟨direct.1, direct.2, arith_eq_ok.mp priced⟩⟩
  · split at h
    · rename_i inverse
      obtain ⟨executable, priced, h⟩ := Except.bind_ok h
      cases h
      exact ⟨rfl, rfl, rfl, rfl, .inr ⟨inverse.1, inverse.2, arith_eq_ok.mp priced⟩⟩
    · cases h

theorem findCurrentRate_mem {book : CurrentRateBook} {source destination : Currency} {rate : CurrentRate}
    (h : findCurrentRate book source destination = some rate) : rate ∈ book.rates := by
  rw [findCurrentRate] at h
  cases direct : book.get (source, destination) with
  | some r =>
      rw [direct] at h
      cases h
      exact (Table.row_some direct).1
  | none =>
      rw [direct] at h
      exact (Table.row_some h).1

/-- Every leg of a route is priced from the book. -/
theorem priceRoute_ok {rows : List CurrentRate} {hops : List (Currency × Currency)} {legs : List LegPricing}
    (h : priceRoute (rateBook rows) hops = .ok legs) :
    legs.map (fun leg => (leg.source, leg.destination)) = hops ∧
      ∀ leg ∈ legs, ∃ rate ∈ rows, priceLeg rate leg.source leg.destination = .ok leg := by
  induction hops generalizing legs with
  | nil =>
      cases h
      exact ⟨rfl, fun leg member => by cases member⟩
  | cons hop hops ih =>
      unfold priceRoute at h
      split at h
      · cases h
      · rename_i rate found
        obtain ⟨leg, priced, h⟩ := Except.bind_ok h
        obtain ⟨others, rest, h⟩ := Except.bind_ok h
        cases h
        obtain ⟨ends, each⟩ := ih rest
        obtain ⟨source, destination, -⟩ := priceLeg_ok priced
        refine ⟨by rw [List.map_cons, ends, source, destination], fun l member => ?_⟩
        rcases List.mem_cons.mp member with rfl | member
        · exact ⟨rate, findCurrentRate_mem found, by rw [source, destination]; exact priced⟩
        · exact each l member

/-- A stored leg repeats its pricing. -/
structure QuoteLeg.Repeats (leg : LegPricing) (row : QuoteLeg) : Prop where
  ends : (row.sourceCurrency, row.destinationCurrency) = (leg.source, leg.destination)
  mid : roundRate leg.midRate = .ok row.midRate
  rate : row.executableRate = leg.executableRate
  spread : row.spreadBps = leg.spreadBps
  snapshot : row.rateSnapshotId = leg.rateSnapshotId

theorem legRows_repeat {quoteId : Uuid} {position : ℕ} {legs : List LegPricing} {rows : List QuoteLeg}
    (h : legRows quoteId position legs = .ok rows) :
    rows.map QuoteLeg.position = List.range' position rows.length ∧ List.Forall₂ QuoteLeg.Repeats legs rows := by
  induction legs generalizing position rows with
  | nil =>
      cases h
      exact ⟨rfl, .nil⟩
  | cons leg legs ih =>
      obtain ⟨mid, rounded, h⟩ := Except.bind_ok h
      obtain ⟨others, rest, h⟩ := Except.bind_ok h
      cases h
      obtain ⟨positions, each⟩ := ih rest
      exact ⟨by rw [List.map_cons, positions, List.length_cons, List.range'_succ],
        .cons ⟨rfl, rounded, rfl, rfl, rfl⟩ each⟩

/-- What the legs have in common with their pricing, column by column. -/
theorem map_repeats {legs : List LegPricing} {rows : List QuoteLeg} (h : List.Forall₂ QuoteLeg.Repeats legs rows)
    {β : Type} {f : QuoteLeg → β} {g : LegPricing → β} (same : ∀ leg row, QuoteLeg.Repeats leg row → f row = g leg) :
    rows.map f = legs.map g := by
  induction h with
  | nil => rfl
  | cons head _ ih => rw [List.map_cons, List.map_cons, ih, same _ _ head]

/-- The rows fit their columns when the legs do. -/
theorem repeats_fit {legs : List LegPricing} {rows : List QuoteLeg} (h : List.Forall₂ QuoteLeg.Repeats legs rows) :
    (∀ row ∈ rows, fitsRate row.executableRate ∧ fitsInteger row.spreadBps) ↔
      ∀ leg ∈ legs, fitsRate leg.executableRate ∧ fitsInteger leg.spreadBps := by
  induction h with
  | nil => simp
  | cons head _ ih => rw [List.forall_mem_cons, List.forall_mem_cons, ih, head.rate, head.spread]

theorem repeats_mem {legs : List LegPricing} {rows : List QuoteLeg} (h : List.Forall₂ QuoteLeg.Repeats legs rows) :
    ∀ row ∈ rows, ∃ leg ∈ legs, QuoteLeg.Repeats leg row := by
  induction h with
  | nil => exact fun row member => absurd member List.not_mem_nil
  | @cons leg first legs rows head _ ih =>
      intro row member
      rcases List.mem_cons.mp member with rfl | member
      · exact ⟨leg, List.mem_cons_self, head⟩
      · obtain ⟨l, inside, same⟩ := ih row member
        exact ⟨l, List.mem_cons_of_mem _ inside, same⟩

/-- Every leg of a priced quote names the snapshot of a rate of the book. -/
theorem Priced.snapshots {rows : List CurrentRate} {quote : Quote} {legs : List QuoteLeg}
    (h : Priced rows quote legs) : ∀ leg ∈ legs, ∃ rate ∈ rows, leg.rateSnapshotId = rate.rateSnapshotId := by
  obtain ⟨amount, -, terms, priced, -, made⟩ := h.terms
  intro leg member
  obtain ⟨source, inside, same⟩ := repeats_mem (legRows_repeat made).2 leg member
  obtain ⟨rate, listed, found⟩ := (priceRoute_ok (quoteTerms_eq_ok.mp priced).legs).2 source inside
  obtain ⟨-, -, -, snapshot, -⟩ := priceLeg_ok found
  exact ⟨rate, listed, same.snapshot.trans snapshot⟩

/-! ## Complete books -/

/-- One row for each canonical pair. -/
def Complete (rows : List CurrentRate) : Prop := rows.map CurrentRate.pair = canonicalPairs

section Complete

variable {rows : List CurrentRate} (complete : Complete rows) {source destination : Currency}

include complete

/-- Every other currency has a rate to the dollar. -/
theorem Complete.dollar {currency : Currency} (other : currency ≠ .USD) :
    ∃ rate ∈ rows, rate.pair = (.USD, currency) ∧ findCurrentRate (rateBook rows) .USD currency = some rate ∧
      findCurrentRate (rateBook rows) currency .USD = some rate := by
  have listed : (.USD, currency) ∈ rows.map CurrentRate.pair := by
    rw [complete]
    cases currency with
    | USD => exact absurd rfl other
    | KES | NGN | EUR => simp [canonicalPairs]
  obtain ⟨rate, found⟩ := Option.isSome_iff_exists.mp (Table.row_isSome.mpr listed)
  have inverse : Table.row CurrentRate.pair (currency, .USD) rows = none := by
    rw [← Option.not_isSome_iff_eq_none, Table.row_isSome, complete]
    cases currency <;> simp [canonicalPairs] at other ⊢
  obtain ⟨member, pair⟩ := Table.row_some found
  refine ⟨rate, member, pair, ?_, ?_⟩
  · simp only [findCurrentRate, CurrentRateBook.get, rateBook, found]
    rfl
  · simp only [findCurrentRate, CurrentRateBook.get, rateBook, found, inverse]
    rfl

/-- Two others have none between them. -/
theorem Complete.cross (fromOther : source ≠ .USD) (toOther : destination ≠ .USD) :
    findCurrentRate (rateBook rows) source destination = none := by
  have none : ∀ a b : Currency, a ≠ .USD → Table.row CurrentRate.pair (a, b) rows = none := by
    intro a b other
    rw [← Option.not_isSome_iff_eq_none, Table.row_isSome, complete]
    cases a <;> simp [canonicalPairs] at other ⊢
  simp only [findCurrentRate, CurrentRateBook.get, rateBook, none _ _ fromOther, none _ _ toOther]
  rfl

theorem Complete.route (differ : source ≠ destination) : buildRoute (rateBook rows) source destination =
    .ok (if source = .USD ∨ destination = .USD then [source, destination] else [source, .USD, destination]) := by
  by_cases fromDollar : source = .USD
  · subst fromDollar
    obtain ⟨rate, -, -, found, -⟩ := complete.dollar differ.symm
    rw [buildRoute, if_pos (by simp [found])]
    simp
  by_cases toDollar : destination = .USD
  · subst toDollar
    obtain ⟨rate, -, -, -, found⟩ := complete.dollar differ
    rw [buildRoute, if_pos (by simp [found])]
    simp
  obtain ⟨rate, -, -, -, first⟩ := complete.dollar fromDollar
  obtain ⟨rate', -, -, second, -⟩ := complete.dollar toDollar
  rw [buildRoute, if_neg (by simp [complete.cross fromDollar toDollar])]
  have pivot : [Currency.USD, Currency.EUR].find? (fun pivot => decide (pivot ≠ source ∧ pivot ≠ destination ∧
      (findCurrentRate (rateBook rows) source pivot).isSome ∧
      (findCurrentRate (rateBook rows) pivot destination).isSome)) = some .USD := by
    rw [List.find?_cons_of_pos]
    simp [Ne.symm fromDollar, Ne.symm toDollar, first, second]
  dsimp only
  rw [pivot]
  simp [fromDollar, toDollar]

end Complete

end FxEngine
