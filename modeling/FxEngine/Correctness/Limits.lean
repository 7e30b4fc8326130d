import FxEngine.Correctness.RouteRates

/-! # What can be stored

The amounts and rates for which a quote or a credit stays inside its columns and inside
the context, whatever the spreads are.
-/

namespace FxEngine

open Numeric Transactions

/-! ## Legs at any spread -/

/-- What a unit of the base is sold for before the rate is rounded. -/
def CurrentRate.soldFor (rate : CurrentRate) : ℚ :=
  ctx (rate.midRate.toRat * ctx (1 - ctx (rate.sellSpreadBps / 10000)))

/-- What a unit of the base is bought for. -/
def CurrentRate.boughtFor (rate : CurrentRate) : ℚ :=
  ctx (rate.midRate.toRat * ctx (1 + ctx (rate.buySpreadBps / 10000)))

theorem divide_basisPoints (spread : ℤ) : ∃ fraction, divide ⟨spread, 0⟩ basisPointDenominator = .ok fraction ∧
    fraction.toRat = ctx (spread / 10000) := by
  obtain ⟨fraction, done, value⟩ := Decimal.div_ok (p := contextPrecision) (a := ⟨spread, 0⟩)
    (b := basisPointDenominator) (by decide)
  refine ⟨fraction, done, value.trans (congrArg _ ?_)⟩
  simp [Decimal.toRat, basisPointDenominator]

theorem roundRate_iff {d r : Decimal} : roundRate d = .ok r ↔
    r = rateUnits (halfEven (d.toRat * 10 ^ 10)) ∧ r.coeff.natAbs < 10 ^ contextPrecision := by
  rw [roundRate_eq]
  constructor
  · intro rounded
    split at rounded <;> cases rounded
    exact ⟨rfl, ‹_›⟩
  · rintro ⟨rfl, fits⟩
    exact if_pos fits

theorem sellRate_iff {rate : CurrentRate} {r : Decimal} : sellRate rate.midRate rate.sellSpreadBps = .ok r ↔
    r = rateUnits (halfEven (rate.soldFor * 10 ^ 10)) ∧ r.coeff.natAbs < 10 ^ contextPrecision := by
  obtain ⟨fraction, done, value⟩ := divide_basisPoints rate.sellSpreadBps
  have product : (rate.midRate * (decimalOne - fraction)).toRat = rate.soldFor := by
    rw [toRat_mul, toRat_sub, value, show decimalOne.toRat = 1 by simp [decimalOne, Decimal.toRat]]
    rfl
  rw [sellRate, done]
  change roundRate (rate.midRate * (decimalOne - fraction)) = .ok r ↔ _
  rw [roundRate_iff, product]

theorem buyRate_iff {rate : CurrentRate} {r : Decimal} : buyRate rate.midRate rate.buySpreadBps = .ok r ↔
    rate.boughtFor ≠ 0 ∧ r = rateUnits (halfEven (ctx (1 / rate.boughtFor) * 10 ^ 10)) ∧
      r.coeff.natAbs < 10 ^ contextPrecision := by
  obtain ⟨fraction, done, value⟩ := divide_basisPoints rate.buySpreadBps
  have one : decimalOne.toRat = 1 := by simp [decimalOne, Decimal.toRat]
  have product : (rate.midRate * (decimalOne + fraction)).toRat = rate.boughtFor := by
    rw [toRat_mul, toRat_add, value, one]
    rfl
  rw [buyRate, done]
  change (do let q ← divide decimalOne (rate.midRate * (decimalOne + fraction)); roundRate q) = .ok r ↔ _
  by_cases zero : (rate.midRate * (decimalOne + fraction)).coeff = 0
  · have none : rate.boughtFor = 0 := product ▸ Decimal.toRat_eq_zero_iff.mpr zero
    have failed : divide decimalOne (rate.midRate * (decimalOne + fraction)) = .error .divisionByZero := by
      rw [divide, Decimal.div, if_pos zero]
      rfl
    rw [failed]
    exact iff_of_false (fun done => by cases done) fun done => done.1 none
  · have some : rate.boughtFor ≠ 0 := product ▸ Decimal.toRat_eq_zero_iff.not.mpr zero
    obtain ⟨inverse, divided, quotient⟩ := Decimal.div_ok (p := contextPrecision) (a := decimalOne) zero
    rw [divide, divided]
    change roundRate inverse = .ok r ↔ _
    rw [roundRate_iff, quotient, product, one]
    exact ⟨fun rounded => ⟨some, rounded⟩, And.right⟩

/-- The rate of a leg in units of the tenth decimal place, and its spread; they fit their
columns. -/
def LegRate (rows : List CurrentRate) (source destination : Currency) (n spread : ℤ) : Prop :=
  n.natAbs < 10 ^ numericPrecision ∧ fitsInteger spread ∧ ∃ rate ∈ rows,
    (rate.pair = (source, destination) ∧ spread = rate.sellSpreadBps ∧ n = halfEven (rate.soldFor * 10 ^ 10)) ∨
    (rate.pair = (destination, source) ∧ spread = rate.buySpreadBps ∧ rate.boughtFor ≠ 0 ∧
      n = halfEven (ctx (1 / rate.boughtFor) * 10 ^ 10))

/-- The rate of a route, and the sum of its spreads. -/
def RouteRate (rows : List CurrentRate) (source destination : Currency) (n spread : ℤ) : Prop :=
  LegRate rows source destination n spread ∨ ∃ first second spent received,
    LegRate rows source .USD first spent ∧ LegRate rows .USD destination second received ∧
    n = halfEven (ctx (first / 10 ^ 10 * (second / 10 ^ 10)) * 10 ^ 10) ∧ spread = spent + received

theorem fits_context {n : ℤ} (fits : n.natAbs < 10 ^ numericPrecision) : n.natAbs < 10 ^ contextPrecision :=
  fits.trans (by norm_num [numericPrecision, contextPrecision])

/-- A leg whose rate and spread fit their columns has a rate. -/
theorem priceLeg_rate {rows : List CurrentRate} {rate : CurrentRate} {source destination : Currency}
    {leg : LegPricing} (member : rate ∈ rows) (priced : priceLeg rate source destination = .ok leg)
    (fits : fitsRate leg.executableRate) (spread : fitsInteger leg.spreadBps) :
    ∃ n, leg.executableRate = rateUnits n ∧ LegRate rows source destination n leg.spreadBps := by
  unfold priceLeg at priced
  split at priced
  · rename_i direct
    obtain ⟨executable, sold, same⟩ := Except.bind_ok priced
    cases same
    obtain ⟨units, -⟩ := sellRate_iff.mp (arith_eq_ok.mp sold)
    refine ⟨_, units, fitsRate_rateUnits.mp (units ▸ fits), spread, rate, member, .inl ⟨?_, rfl, rfl⟩⟩
    exact Prod.ext direct.1.symm direct.2.symm
  · split at priced
    · rename_i inverse
      obtain ⟨executable, bought, same⟩ := Except.bind_ok priced
      cases same
      obtain ⟨some, units, -⟩ := buyRate_iff.mp (arith_eq_ok.mp bought)
      refine ⟨_, units, fitsRate_rateUnits.mp (units ▸ fits), spread, rate, member, .inr ⟨?_, rfl, some, rfl⟩⟩
      exact Prod.ext inverse.2.symm inverse.1.symm
    · cases priced

section Book

variable {rows : List CurrentRate} (complete : Complete rows) {source destination : Currency} {n spread : ℤ}

include complete

theorem Complete.unique {rate rate' : CurrentRate} (member : rate ∈ rows) (member' : rate' ∈ rows)
    (same : rate.pair = rate'.pair) : rate = rate' := by
  have distinct : (rows.map CurrentRate.pair).Nodup := by
    rw [complete]
    decide
  exact List.inj_on_of_nodup_map distinct member member' same

/-- The pairs of a complete book are from the dollar to another currency. -/
theorem Complete.ends {rate : CurrentRate} (member : rate ∈ rows) :
    rate.baseCurrency = .USD ∧ rate.quoteCurrency ≠ .USD := by
  have listed : rate.pair ∈ canonicalPairs := complete ▸ List.mem_map_of_mem member
  have each : ∀ pair ∈ canonicalPairs, pair.1 = .USD ∧ pair.2 ≠ .USD := by decide
  exact each _ listed

/-- A leg with a rate is found and priced. -/
theorem LegRate.priced (h : LegRate rows source destination n spread) : ∃ rate leg,
    findCurrentRate (rateBook rows) source destination = some rate ∧ priceLeg rate source destination = .ok leg ∧
      leg.executableRate = rateUnits n ∧ leg.spreadBps = spread := by
  obtain ⟨fits, -, rate, member, h⟩ := h
  obtain ⟨dollar, other⟩ := complete.ends member
  obtain ⟨rate', member', pair', found, found'⟩ := complete.dollar other
  have same : rate = rate' := complete.unique member member' (by rw [pair', ← dollar])
  subst same
  obtain ⟨pair, rfl, value⟩ | ⟨pair, rfl, some, value⟩ := h
  · obtain ⟨rfl, rfl⟩ := Prod.mk.inj pair
    have sold : sellRate rate.midRate rate.sellSpreadBps = .ok (rateUnits n) :=
      sellRate_iff.mpr ⟨by rw [value], fits_context fits⟩
    refine ⟨rate, ⟨rate.baseCurrency, rate.quoteCurrency, rate.midRate, rateUnits n, rate.sellSpreadBps, .sell,
      rate.rateSnapshotId⟩, ?_, ?_, rfl, rfl⟩
    · rw [dollar]
      exact found
    · rw [priceLeg, if_pos ⟨rfl, rfl⟩, sold]
      rfl
  · obtain ⟨rfl, rfl⟩ := Prod.mk.inj pair
    have bought : buyRate rate.midRate rate.buySpreadBps = .ok (rateUnits n) :=
      buyRate_iff.mpr ⟨some, by rw [value], fits_context fits⟩
    refine ⟨rate, ⟨rate.quoteCurrency, rate.baseCurrency, rate.midRate, rateUnits n, rate.buySpreadBps, .buy,
      rate.rateSnapshotId⟩, ?_, ?_, rfl, rfl⟩
    · rw [dollar]
      exact found'
    · have away : rate.quoteCurrency ≠ rate.baseCurrency := fun same => other (same.trans dollar)
      rw [priceLeg, if_neg fun same => away same.1, if_pos ⟨rfl, rfl⟩, bought]
      rfl

theorem LegRate.dollar (h : LegRate rows source destination n spread) : source = .USD ∨ destination = .USD := by
  obtain ⟨-, -, rate, member, h⟩ := h
  obtain ⟨dollar, -⟩ := complete.ends member
  obtain ⟨pair, -⟩ | ⟨pair, -⟩ := h
  · exact .inl ((Prod.mk.inj pair).1.symm.trans dollar)
  · exact .inr ((Prod.mk.inj pair).1.symm.trans dollar)

theorem LegRate.differ (h : LegRate rows source destination n spread) : source ≠ destination := by
  obtain ⟨-, -, rate, member, h⟩ := h
  obtain ⟨dollar, other⟩ := complete.ends member
  have apart : rate.baseCurrency ≠ rate.quoteCurrency := fun same => other (same.symm.trans dollar)
  obtain ⟨pair, -⟩ | ⟨pair, -⟩ := h
  · obtain ⟨rfl, rfl⟩ := Prod.mk.inj pair
    exact apart
  · obtain ⟨rfl, rfl⟩ := Prod.mk.inj pair
    exact apart.symm

omit complete in
theorem priceRoute_cons_ok {hops : List (Currency × Currency)} {legs : List LegPricing}
    (h : priceRoute (rateBook rows) ((source, destination) :: hops) = .ok legs) : ∃ rate ∈ rows, ∃ leg rest,
      priceLeg rate source destination = .ok leg ∧ priceRoute (rateBook rows) hops = .ok rest ∧ legs = leg :: rest := by
  unfold priceRoute at h
  split at h
  · cases h
  · rename_i rate found
    obtain ⟨leg, priced, h⟩ := Except.bind_ok h
    obtain ⟨rest, others, same⟩ := Except.bind_ok h
    cases same
    exact ⟨rate, findCurrentRate_mem found, leg, rest, priced, others, rfl⟩

omit complete in
theorem compoundRate_units {leg leg' : LegPricing} {first second : ℤ} (rate : leg.executableRate = rateUnits first)
    (rate' : leg'.executableRate = rateUnits second) (fits : first.natAbs < 10 ^ contextPrecision) :
    compoundRate [leg, leg'] = roundRate (rateUnits first * rateUnits second) := by
  rw [compoundRate, List.foldl_cons, List.foldl_cons, List.foldl_nil, rate, rate', decimalOne_mul_rateUnits fits]

omit complete in
theorem rateUnits_mul (first second : ℤ) :
    (rateUnits first * rateUnits second).toRat = ctx (first / 10 ^ 10 * (second / 10 ^ 10)) := by
  rw [toRat_mul, rateUnits_toRat, rateUnits_toRat]

/-- A route whose legs and whose rate fit their columns has a rate. -/
theorem routeTerms_rate {routed : RouteTerms} (differ : source ≠ destination)
    (h : routeTerms (rateBook rows) source destination = .ok routed)
    (fits : ∀ leg ∈ routed.legs, fitsRate leg.executableRate ∧ fitsInteger leg.spreadBps) :
    ∃ n, routed.executableRate = rateUnits n ∧
      RouteRate rows source destination n (routed.legs.map LegPricing.spreadBps).sum := by
  obtain ⟨route, found, h⟩ := Except.bind_ok h
  obtain ⟨legs, priced, h⟩ := Except.bind_ok h
  obtain ⟨executableRate, compounded, same⟩ := Except.bind_ok h
  cases same
  replace compounded := arith_eq_ok.mp compounded
  rw [complete.route differ] at found
  cases found
  by_cases direct : source = .USD ∨ destination = .USD
  · rw [if_pos direct] at priced
    obtain ⟨rate, member, leg, rest, one, none, rfl⟩ := priceRoute_cons_ok priced
    cases none
    obtain ⟨n, units, rated⟩ := priceLeg_rate member one (fits leg List.mem_cons_self).1 (fits leg List.mem_cons_self).2
    have same : executableRate = leg.executableRate :=
      Except.ok.inj (compounded.symm.trans (compoundRate_one units (fits_context rated.1)))
    refine ⟨n, same.trans units, .inl ?_⟩
    simpa using rated
  · rw [if_neg direct] at priced
    obtain ⟨rate, member, leg, rest, one, more, rfl⟩ := priceRoute_cons_ok priced
    obtain ⟨rate', member', leg', rest', two, none, rfl⟩ := priceRoute_cons_ok more
    cases none
    have first := fits leg List.mem_cons_self
    have second := fits leg' (List.mem_cons_of_mem _ List.mem_cons_self)
    obtain ⟨n, units, rated⟩ := priceLeg_rate member one first.1 first.2
    obtain ⟨n', units', rated'⟩ := priceLeg_rate member' two second.1 second.2
    rw [compoundRate_units units units' (fits_context rated.1), roundRate_iff, rateUnits_mul] at compounded
    exact ⟨_, compounded.1, .inr ⟨n, n', _, _, rated, rated', rfl, by simp⟩⟩

/-- A rate that fits its column is that of a route. -/
theorem RouteRate.priced (differ : source ≠ destination) (h : RouteRate rows source destination n spread)
    (fits : n.natAbs < 10 ^ numericPrecision) : ∃ routed, routeTerms (rateBook rows) source destination = .ok routed ∧
      routed.executableRate = rateUnits n ∧ (routed.legs.map LegPricing.spreadBps).sum = spread ∧
      ∀ leg ∈ routed.legs, fitsRate leg.executableRate ∧ fitsInteger leg.spreadBps := by
  have columns : ∀ {leg : LegPricing} {source destination : Currency} {n spread : ℤ},
      LegRate rows source destination n spread → leg.executableRate = rateUnits n → leg.spreadBps = spread →
      fitsRate leg.executableRate ∧ fitsInteger leg.spreadBps := by
    intro leg source destination n spread rated units same
    exact ⟨units ▸ fitsRate_rateUnits.mpr rated.1, same ▸ rated.2.1⟩
  obtain rated | ⟨first, second, spent, received, rated, rated', rfl, rfl⟩ := h
  · obtain ⟨rate, leg, found, priced, units, same⟩ := rated.priced complete
    have route := complete.route differ
    rw [if_pos (rated.dollar complete)] at route
    refine ⟨⟨[source, destination], [leg], leg.executableRate⟩, ?_, units, by simpa using same, fun l member => ?_⟩
    · rw [routeTerms_eq route (priceRoute_cons found priced rfl), compoundRate_one units (fits_context rated.1)]
      rfl
    · rw [List.mem_singleton.mp member]
      exact columns rated units same
  · obtain ⟨rate, leg, found, priced, units, same⟩ := rated.priced complete
    obtain ⟨rate', leg', found', priced', units', same'⟩ := rated'.priced complete
    have route := complete.route differ
    rw [if_neg (by simp [rated.differ complete, (rated'.differ complete).symm])] at route
    have compounded : compoundRate [leg, leg'] =
        .ok (rateUnits (halfEven (ctx (first / 10 ^ 10 * (second / 10 ^ 10)) * 10 ^ 10))) := by
      rw [compoundRate_units units units' (fits_context rated.1), roundRate_iff, rateUnits_mul]
      exact ⟨rfl, fits_context fits⟩
    refine ⟨⟨[source, .USD, destination], [leg, leg'], rateUnits _⟩, ?_, rfl, by simp [same, same'], fun l member => ?_⟩
    · rw [routeTerms_eq route (priceRoute_cons found priced (priceRoute_cons found' priced' rfl)), compounded]
      rfl
    · rcases List.mem_cons.mp member with rfl | member
      · exact columns rated units same
      · rw [List.mem_singleton.mp member]
        exact columns rated' units' same'

end Book

/-! ## Stored quotes -/

section Stored

variable [Platform] {db : Tables} {quoteId customerId : Uuid} {source destination : Currency} {amount : Decimal}

/-- New legs of a stored quote are taken exactly when their rates and spreads fit. -/
theorem flushError_legs {legs : List QuoteLeg} {position : ℕ} (quoted : (db.quote quoteId).isSome)
    (owned : ∀ leg ∈ legs, leg.quoteId = quoteId) (numbered : legs.map QuoteLeg.position = List.range' position legs.length)
    (known : ∀ leg ∈ legs, (db.snapshot leg.rateSnapshotId).isSome)
    (unused : ∀ leg ∈ db.legs, leg.quoteId = quoteId → leg.position < position) :
    flushError (legs.map .insertLeg) db = none ↔
      ∀ leg ∈ legs, (fitsRate leg.midRate ∧ fitsRate leg.executableRate) ∧ fitsInteger leg.spreadBps := by
  induction legs generalizing db position with
  | nil => exact iff_of_true rfl fun leg member => absurd member List.not_mem_nil
  | cons leg legs ih =>
      rw [List.map_cons, List.length_cons, List.range'_succ, List.cons.injEq] at numbered
      have free : db.leg leg.quoteId leg.position = none := Table.row_none.mpr fun other member same => by
        have slot := Prod.mk.inj same
        have := unused other member (slot.1.trans (owned leg List.mem_cons_self))
        rw [slot.2, numbered.1] at this
        exact lt_irrefl _ this
      have here : (Statement.insertLeg leg).check db = none ↔
          (fitsRate leg.midRate ∧ fitsRate leg.executableRate) ∧ fitsInteger leg.spreadBps := by
        rw [Statement.check_insertLeg]
        exact ⟨fun taken => ⟨taken.1, taken.2.1⟩, fun fits => ⟨fits.1, fits.2, free,
          owned leg List.mem_cons_self ▸ quoted, known leg List.mem_cons_self⟩⟩
      have later : flushError (legs.map .insertLeg) ((Statement.insertLeg leg).apply db) = none ↔ _ := ih quoted
        (fun l member => owned l (List.mem_cons_of_mem _ member)) numbered.2
        (fun l member => known l (List.mem_cons_of_mem _ member)) fun l member same => by
          rcases List.mem_append.mp member with old | new
          · exact (unused l old same).trans (Nat.lt_succ_self _)
          · rw [List.mem_singleton.mp new, numbered.1]
            exact Nat.lt_succ_self _
      rw [List.map_cons, flushError, List.forall_mem_cons, ← here, ← later]
      cases (Statement.insertLeg leg).check db with
      | some e => exact iff_of_false (fun taken => by cases taken) fun taken => by cases taken.1
      | none => exact ⟨fun taken => ⟨rfl, taken⟩, And.right⟩

omit [Platform] in
theorem legRows_units {position : ℕ} {legs : List LegPricing}
    (mids : ∀ leg ∈ legs, ∃ m : ℤ, leg.midRate = rateUnits m ∧ m.natAbs < 10 ^ numericPrecision) :
    ∃ rows, legRows quoteId position legs = .ok rows := by
  induction legs generalizing position with
  | nil => exact ⟨[], rfl⟩
  | cons leg legs ih =>
      obtain ⟨m, units, fits⟩ := mids leg List.mem_cons_self
      obtain ⟨rows, made⟩ : ∃ rows, legRows quoteId (position + 1) legs = .ok rows :=
        ih fun l member => mids l (List.mem_cons_of_mem _ member)
      refine ⟨⟨quoteId, position, leg.source, leg.destination, rateUnits m, leg.executableRate, leg.spreadSide,
        leg.spreadBps, leg.rateSnapshotId⟩ :: rows, ?_⟩
      rw [legRows, units, roundRate_rateUnits (fits_context fits), made]
      rfl

/-- The legs of a quote are stored exactly when their rates and spreads fit. -/
theorem storedLegs_iff {quote : Quote} {legs : List LegPricing}
    (mids : ∀ leg ∈ legs, ∃ m : ℤ, leg.midRate = rateUnits m ∧ m.natAbs < 10 ^ numericPrecision)
    (known : ∀ leg ∈ legs, (db.snapshot leg.rateSnapshotId).isSome)
    (unused : ∀ leg ∈ db.legs, leg.quoteId ≠ quote.id) :
    (∃ rows, storedLegs db quote legs = .ok rows) ↔ (Statement.insertQuote quote).check db = none ∧
      ∀ leg ∈ legs, fitsRate leg.executableRate ∧ fitsInteger leg.spreadBps := by
  obtain ⟨rows, made⟩ : ∃ rows, legRows quote.id 0 legs = .ok rows := legRows_units mids
  obtain ⟨positions, repeats⟩ := legRows_repeat made
  have midFits : ∀ row ∈ rows, fitsRate row.midRate := by
    intro row member
    obtain ⟨leg, inside, same⟩ := repeats_mem repeats row member
    obtain ⟨m, units, fits⟩ := mids leg inside
    have rounded := same.mid
    rw [units, roundRate_rateUnits (fits_context fits)] at rounded
    exact Except.ok.inj rounded ▸ fitsRate_rateUnits.mpr fits
  have quoted : (((Statement.insertQuote quote).apply db).quote quote.id).isSome := by
    rw [Tables.quote, Table.row_isSome]
    exact List.mem_map_of_mem (List.mem_append_right _ (List.mem_singleton.mpr rfl))
  have priced : ∀ row ∈ rows, (((Statement.insertQuote quote).apply db).snapshot row.rateSnapshotId).isSome := by
    intro row member
    obtain ⟨leg, inside, same⟩ := repeats_mem repeats row member
    exact same.snapshot ▸ known leg inside
  have stored := flushError_legs quoted (legRows_quoteId made) positions priced
    fun leg member same => absurd same (unused leg member)
  have each : (∀ row ∈ rows, (fitsRate row.midRate ∧ fitsRate row.executableRate) ∧ fitsInteger row.spreadBps) ↔
      ∀ leg ∈ legs, fitsRate leg.executableRate ∧ fitsInteger leg.spreadBps := by
    rw [← repeats_fit repeats]
    exact ⟨fun fits row member => ⟨(fits row member).1.2, (fits row member).2⟩,
      fun fits row member => ⟨⟨midFits row member, (fits row member).1⟩, (fits row member).2⟩⟩
  rw [← each, ← stored]
  unfold storedLegs
  rw [flushError]
  cases (Statement.insertQuote quote).check db with
  | some e => exact iff_of_false (by rintro ⟨rows, done⟩; cases done) fun done => by cases done.1
  | none =>
      rw [made, arith_ok]
      dsimp only [flushError]
      cases flushError (rows.map .insertLeg) ((Statement.insertQuote quote).apply db) with
      | some e => exact iff_of_false (by rintro ⟨rows, done⟩; cases done) fun done => by cases done.2
      | none => exact iff_of_true ⟨rows, rfl⟩ ⟨rfl, rfl⟩

omit [Platform] in
theorem rounded_money (q : ℚ) : Decimal.rounded standardMinorUnitPlaces q = cents (halfEven (q * 100)) := by
  simp only [Decimal.rounded, standardMinorUnitPlaces, cents]
  norm_num

omit [Platform] in
theorem roundMoney_iff {d r : Decimal} {c : Currency} : roundMoney d c = .ok r ↔
    r = cents (halfEven (d.toRat * 100)) ∧ r.coeff.natAbs < 10 ^ contextPrecision := by
  rw [roundMoney_eq, rounded_money]
  constructor
  · intro rounded
    split at rounded <;> cases rounded
    exact ⟨rfl, ‹_›⟩
  · rintro ⟨rfl, fits⟩
    exact if_pos fits

omit [Platform] in
theorem cents_mul_rateUnits (a n : ℤ) : (cents a * rateUnits n).toRat = ctx (a / 100 * (n / 10 ^ 10)) := by
  rw [toRat_mul, cents_toRat, rateUnits_toRat]

/-- The route has a rate, and that rate, the sum of the spreads, the rounded amount and
what it is converted to fit their columns. -/
def Admits (rows : List CurrentRate) (source destination : Currency) (amount : ℚ) : Prop :=
  ∃ n spread, RouteRate rows source destination n spread ∧ n.natAbs < 10 ^ numericPrecision ∧ fitsInteger spread ∧
    (halfEven (amount * 100)).natAbs < 10 ^ numericPrecision ∧
    (halfEven (ctx (halfEven (amount * 100) / 100 * (n / 10 ^ 10)) * 100)).natAbs < 10 ^ numericPrecision

variable [Settings] {now createdAt : Instant}

/-- A request over a book is stored exactly when the book admits it. -/
theorem quoteRows_iff (inv : Invariant db now) (some : db.currentRates ≠ []) (known : db.hasCustomer customerId)
    (fresh : db.quote quoteId = none) (differ : source ≠ destination) :
    (∃ rows, quoteRows db quoteId customerId source destination amount createdAt = .ok rows) ↔
      Admits db.currentRates source destination amount.toRat := by
  obtain ⟨refresh, book⟩ := inv.refreshed.current.resolve_left some
  have complete : Complete db.currentRates := book.pairs
  have unused : ∀ leg ∈ db.legs, leg.quoteId ≠ quoteId := by
    rintro leg member rfl
    have := inv.quoted.legs leg member
    rw [fresh] at this
    cases this
  have legs : ∀ {routed}, routeTerms (rateBook db.currentRates) source destination = .ok routed →
      ∀ leg ∈ routed.legs, (∃ m : ℤ, leg.midRate = rateUnits m ∧ m.natAbs < 10 ^ numericPrecision) ∧
        (db.snapshot leg.rateSnapshotId).isSome := by
    intro routed h leg member
    obtain ⟨route, -, h⟩ := Except.bind_ok h
    obtain ⟨legs, priced, h⟩ := Except.bind_ok h
    obtain ⟨executableRate, -, same⟩ := Except.bind_ok h
    cases same
    obtain ⟨rate, listed, found⟩ := (priceRoute_ok priced).2 leg member
    obtain ⟨-, -, mid, snapshot, -⟩ := priceLeg_ok found
    obtain ⟨m, units, low, high⟩ := book.mids rate listed
    obtain ⟨s, there, -⟩ := book.snapshots rate listed
    exact ⟨⟨m, mid.trans units, natAbs_fits low high⟩, by rw [snapshot, there]; rfl⟩
  constructor
  · rintro ⟨rows, stored⟩
    obtain ⟨terms, quoted, stored⟩ := Except.bind_ok stored
    obtain ⟨storedRows, taken, -⟩ := Except.bind_ok stored
    rw [quoteTerms_routed] at quoted
    obtain ⟨routed, route, quoted⟩ := Except.bind_ok quoted
    obtain ⟨sold, rounded, quoted⟩ := Except.bind_ok quoted
    obtain ⟨bought, converted, same⟩ := Except.bind_ok quoted
    cases same
    obtain ⟨checked, columns⟩ := (storedLegs_iff (fun leg member => (legs route leg member).1)
      (fun leg member => (legs route leg member).2) unused).mp ⟨_, taken⟩
    obtain ⟨⟨soldFits, boughtFits⟩, ⟨rateFits, spreadFits⟩, -⟩ := Statement.check_insertQuote.mp checked
    obtain ⟨n, units, rate⟩ := routeTerms_rate complete differ route columns
    obtain ⟨rfl, -⟩ := roundMoney_iff.mp (arith_eq_ok.mp rounded)
    rw [units] at converted
    obtain ⟨rfl, -⟩ := roundMoney_iff.mp (arith_eq_ok.mp converted)
    replace rateFits : fitsRate routed.executableRate := rateFits
    rw [units, fitsRate_rateUnits] at rateFits
    refine ⟨n, _, rate, rateFits, spreadFits, fitsMoney_cents.mp soldFits, ?_⟩
    rw [← cents_mul_rateUnits]
    exact fitsMoney_cents.mp boughtFits
  · rintro ⟨n, spread, rate, rateFits, spreadFits, soldFits, boughtFits⟩
    obtain ⟨routed, route, units, rfl, columns⟩ := rate.priced complete differ rateFits
    rw [← cents_mul_rateUnits, ← units] at boughtFits
    have rounded : roundMoney amount source = .ok (cents (halfEven (amount.toRat * 100))) :=
      roundMoney_iff.mpr ⟨rfl, fits_context soldFits⟩
    have converted : roundMoney (cents (halfEven (amount.toRat * 100)) * routed.executableRate) destination =
        .ok (cents _) := roundMoney_iff.mpr ⟨rfl, fits_context boughtFits⟩
    let terms : Terms := ⟨routed.route, routed.legs, routed.executableRate,
      (routed.legs.map LegPricing.spreadBps).sum, cents (halfEven (amount.toRat * 100)),
      cents (halfEven ((cents (halfEven (amount.toRat * 100)) * routed.executableRate).toRat * 100))⟩
    have quoted : quoteTerms (rateBook db.currentRates) source destination amount = .ok terms :=
      RouteTerms.quoted route rounded converted
    let quote := terms.toQuote quoteId customerId source destination createdAt
    have checked : (Statement.insertQuote quote).check db = none :=
      Statement.check_insertQuote.mpr ⟨⟨fitsMoney_cents.mpr soldFits, fitsMoney_cents.mpr boughtFits⟩,
        ⟨show fitsRate routed.executableRate from units ▸ fitsRate_rateUnits.mpr rateFits, spreadFits⟩, fresh, known⟩
    obtain ⟨rows, taken⟩ := (storedLegs_iff (fun leg member => (legs route leg member).1)
      (fun leg member => (legs route leg member).2) unused).mpr ⟨checked, columns⟩
    refine ⟨(quote, rows), ?_⟩
    rw [quoteRows, quoted]
    change (do let legs ← storedLegs db quote routed.legs; _) = _
    rw [taken]
    rfl

end Stored

end FxEngine
