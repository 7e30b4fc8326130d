import FxEngine.Correctness.Engine
import FxEngine.Correctness.LegRates
import FxEngine.Numeric.DoubleRounding

/-! # Rebuilding the terms of a quote

An auditor with exact arithmetic finds everything the legs say about a quote, and its
rounded products too, as long as the 28 digits of the context do not carry a product onto
a tie.
-/

namespace FxEngine

open Numeric Transactions

/-! ## Products in the context -/

/-- What fits its column after the rounding leaves places to round away. -/
theorem room_of_fits {n x : ℤ}
    (fits : ((Decimal.fix contextPrecision ⟨n, x⟩).rescale (x + (10 : ℕ))).natAbs < 10 ^ numericPrecision) :
    digitCount n.natAbs - contextPrecision + 2 ≤ 10 := by
  by_contra large
  have digits : ¬ digitCount n.natAbs ≤ 36 := by
    simp only [contextPrecision] at large
    omega
  rw [digitCount_le_iff (by norm_num), not_lt] at digits
  have big : (10 : ℚ) ^ 36 ≤ |(n : ℚ)| := by
    rw [← Int.cast_abs, Int.abs_eq_natAbs]
    exact_mod_cast digits
  -- the context keeps a power of ten
  have kept : (10 : ℚ) ^ 36 * (10 : ℚ) ^ x ≤ |(Decimal.fix contextPrecision ⟨n, x⟩).toRat| := by
    have power : sigRound contextPrecision ((10 : ℚ) ^ 36 * (10 : ℚ) ^ x) = (10 : ℚ) ^ 36 * (10 : ℚ) ^ x := by
      refine sigRound_exact (m := 1) (e := 36 + x) ?_ (by norm_num)
      rw [zpow_add₀ (by norm_num)]
      norm_num
    rw [Decimal.fix_toRat (by norm_num), abs_sigRound, ← power]
    refine sigRound_mono (by norm_num) (by positivity) ?_
    rw [Decimal.toRat, abs_mul, abs_of_pos (by positivity : (0 : ℚ) < 10 ^ x)]
    exact mul_le_mul_of_nonneg_right big (by positivity)
  have scaled : ((10 ^ 26 : ℤ) : ℚ) ≤ |(Decimal.fix contextPrecision ⟨n, x⟩).toRat / (10 : ℚ) ^ (x + (10 : ℕ))| := by
    rw [abs_div, abs_of_pos (by positivity : (0 : ℚ) < 10 ^ (x + ((10 : ℕ) : ℤ))), le_div_iff₀ (by positivity),
      zpow_add₀ (by norm_num)]
    push_cast
    calc (10 : ℚ) ^ 26 * ((10 : ℚ) ^ x * (10 : ℚ) ^ ((10 : ℕ) : ℤ)) = (10 : ℚ) ^ 36 * (10 : ℚ) ^ x := by
          norm_num
          ring
      _ ≤ _ := kept
  have rescaled := halfEven_mono scaled
  rw [halfEven_intCast, ← abs_halfEven, ← Decimal.rescale_eq, Int.abs_eq_natAbs] at rescaled
  simp only [numericPrecision] at fits
  omega

/-- A product that is rounded to the context and then to ten places fewer is the exact one
rounded once, unless the context carries it onto a tie. -/
theorem quantize_fix_iff {n x : ℤ} {places : ℕ} (place : -(places : ℤ) = x + (10 : ℕ)) {r : Decimal}
    (done : (Decimal.fix contextPrecision ⟨n, x⟩).quantize contextPrecision (-places) = .ok r)
    (fits : r.coeff.natAbs < 10 ^ numericPrecision) :
    r = Decimal.rounded places (n * (10 : ℚ) ^ x) ↔ ¬ Straddles contextPrecision 10 n := by
  rw [place] at done
  unfold Decimal.quantize at done
  split at done <;> cases done
  rw [← fix_rescale_iff (room_of_fits fits), Decimal.rounded, place, Decimal.mk.injEq, and_iff_left rfl]
  have scale : (n : ℚ) * (10 : ℚ) ^ x * 10 ^ places = n / 10 ^ 10 := by
    have : (10 : ℚ) ^ x * (10 : ℚ) ^ (places : ℤ) = (10 : ℚ) ^ (-(10 : ℤ)) := by
      rw [← zpow_add₀ (by norm_num)]
      congr 1
      omega
    rw [← zpow_natCast, mul_assoc, this]
    norm_num
    ring
  rw [scale]

/-- The destination amount is the exact product rounded once, unless the context carries the
product onto half a cent. -/
theorem roundMoney_mul_iff {s r : ℤ} {c : Currency} {amount : Decimal}
    (done : roundMoney (cents s * rateUnits r) c = .ok amount) (fits : amount.coeff.natAbs < 10 ^ numericPrecision) :
    amount = Decimal.rounded standardMinorUnitPlaces ((cents s).toRat * (rateUnits r).toRat) ↔
      ¬ Straddles contextPrecision 10 (s * r) := by
  have value : (cents s).toRat * (rateUnits r).toRat = ((s * r : ℤ) : ℚ) * (10 : ℚ) ^ (-12 : ℤ) := by
    rw [cents_toRat, rateUnits_toRat]
    push_cast
    norm_num
    ring
  rw [value]
  exact quantize_fix_iff (by decide) done fits

/-- The rate of two legs is the exact product of theirs rounded once, unless the context
carries the product onto a tie of the tenth place. -/
theorem roundRate_mul_iff {r r' : ℤ} {rate : Decimal}
    (done : roundRate (rateUnits r * rateUnits r') = .ok rate) (fits : rate.coeff.natAbs < 10 ^ numericPrecision) :
    rate = Decimal.rounded rateScale ((rateUnits r).toRat * (rateUnits r').toRat) ↔
      ¬ Straddles contextPrecision 10 (r * r') := by
  have value : (rateUnits r).toRat * (rateUnits r').toRat = ((r * r' : ℤ) : ℚ) * (10 : ℚ) ^ (-20 : ℤ) := by
    rw [rateUnits_toRat, rateUnits_toRat]
    push_cast
    norm_num
    ring
  rw [value]
  exact quantize_fix_iff (by decide) done fits

/-- A rounded rate is a number of units. -/
theorem roundRate_units {d r : Decimal} (h : roundRate d = .ok r) :
    ∃ n : ℤ, r = rateUnits n ∧ n.natAbs < 10 ^ contextPrecision := by
  obtain ⟨value, fits⟩ := Decimal.quantize_ok (by norm_num) h
  refine ⟨r.coeff, ?_, fits⟩
  rw [value]
  rfl

/-- The rate of a leg is. -/
theorem priceLeg_units {rate : CurrentRate} {source destination : Currency} {leg : LegPricing}
    (h : priceLeg rate source destination = .ok leg) :
    ∃ n : ℤ, leg.executableRate = rateUnits n ∧ n.natAbs < 10 ^ contextPrecision := by
  obtain ⟨-, -, -, -, ⟨-, -, sold⟩ | ⟨-, -, bought⟩⟩ := priceLeg_ok h
  · obtain ⟨fraction, -, rounded⟩ := Except.bind_ok sold
    exact roundRate_units rounded
  · obtain ⟨fraction, -, divided⟩ := Except.bind_ok bought
    obtain ⟨inverse, -, rounded⟩ := Except.bind_ok divided
    exact roundRate_units rounded

/-! ## The legs of a stored quote -/

/-- The route of a quote goes from its source to its destination, and no currency comes twice. -/
theorem buildRoute_ok {book : CurrentRateBook} {source destination : Currency} (differ : source ≠ destination)
    {route : List Currency} (h : buildRoute book source destination = .ok route) :
    route.head? = some source ∧ route.getLast? = some destination ∧ route.Nodup ∧
      (route = [source, destination] ∨ ∃ pivot, route = [source, pivot, destination]) := by
  unfold buildRoute at h
  split at h
  · cases h
    exact ⟨rfl, rfl, by simp [differ], .inl rfl⟩
  · dsimp only at h
    split at h
    · rename_i pivot found
      cases h
      have apart := List.find?_some found
      simp only [decide_eq_true_eq] at apart
      exact ⟨rfl, rfl, by simp [differ, apart.2.1, apart.1.symm], .inr ⟨pivot, rfl⟩⟩
    · cases h

/-- The rate of a route is the exact product of its legs' rates rounded once, unless the
context carries the product onto a tie. -/
theorem compoundRate_iff {legs : List LegPricing} (short : legs.length = 1 ∨ legs.length = 2)
    (units : ∀ leg ∈ legs, ∃ n : ℤ, leg.executableRate = rateUnits n ∧ n.natAbs < 10 ^ contextPrecision)
    {rate : Decimal} (done : compoundRate legs = .ok rate) (fits : rate.coeff.natAbs < 10 ^ numericPrecision) :
    rate = Decimal.rounded rateScale (legs.map (·.executableRate.toRat)).prod ↔
      ¬ Straddles contextPrecision 10 (legs.map (·.executableRate.coeff)).prod := by
  match legs with
  | [] => simp at short
  | [leg] =>
      obtain ⟨n, value, small⟩ := units leg List.mem_cons_self
      have direct : roundRate (rateUnits n) = .ok rate := by
        rw [← done, compoundRate, List.foldl_cons, List.foldl_nil, value, decimalOne_mul_rateUnits small]
      rw [roundRate_rateUnits small] at direct
      have straight : ¬ Straddles contextPrecision 10 n :=
        not_straddles_of_fits ((digitCount_le_iff (by norm_num)).mpr small)
      have once := roundRate_ok (roundRate_rateUnits small)
      simp only [List.map_cons, List.map_nil, List.prod_cons, List.prod_nil, mul_one, value, rateUnits_coeff, straight,
        not_false_eq_true, iff_true]
      rw [← once, Except.ok.inj direct]
  | [leg, leg'] =>
      obtain ⟨n, value, small⟩ := units leg List.mem_cons_self
      obtain ⟨n', value', -⟩ := units leg' (List.mem_cons_of_mem _ List.mem_cons_self)
      have product : roundRate (rateUnits n * rateUnits n') = .ok rate := by
        rw [← done, compoundRate, List.foldl_cons, List.foldl_cons, List.foldl_nil, value, value',
          decimalOne_mul_rateUnits small]
      simpa only [List.map_cons, List.map_nil, List.prod_cons, List.prod_nil, mul_one, value, value', rateUnits_coeff]
        using roundRate_mul_iff product fits
  | _ :: _ :: _ :: _ => simp at short

/-- What an auditor with exact arithmetic rebuilds from the legs of a quote. -/
structure Rebuilt (db : Tables) (q : Quote) : Prop where
  positions : (db.legsOf q.id).map QuoteLeg.position = List.range (q.route.length - 1)
  chain : (db.legsOf q.id).map (fun leg => (leg.sourceCurrency, leg.destinationCurrency)) = q.route.zip q.route.tail
  source : q.route.head? = some q.sourceCurrency
  destination : q.route.getLast? = some q.destinationCurrency
  distinct : q.route.Nodup
  spread : ((db.legsOf q.id).map QuoteLeg.spreadBps).sum = q.spreadBps
  mids : ∀ leg ∈ db.legsOf q.id, ∃ s, db.snapshot leg.rateSnapshotId = some s ∧ leg.midRate = s.midRate ∧
    ((s.baseCurrency, s.quoteCurrency) = (leg.sourceCurrency, leg.destinationCurrency) ∨
      (s.baseCurrency, s.quoteCurrency) = (leg.destinationCurrency, leg.sourceCurrency))
  rate : q.executableRate = Decimal.rounded 10 ((db.legsOf q.id).map (·.executableRate.toRat)).prod

/-- Every leg of a priced quote names the snapshot of its mid rate. -/
theorem priced_mids [Settings] {db : Tables} {rows : List CurrentRate} {refresh : RateRefresh} (book : BookOf db rows refresh)
    {hops : List (Currency × Currency)} {legs : List LegPricing} (priced : priceRoute (rateBook rows) hops = .ok legs)
    {stored : List QuoteLeg} (repeats : List.Forall₂ QuoteLeg.Repeats legs stored) :
    ∀ leg ∈ stored, ∃ s, db.snapshot leg.rateSnapshotId = some s ∧ leg.midRate = s.midRate ∧
      ((s.baseCurrency, s.quoteCurrency) = (leg.sourceCurrency, leg.destinationCurrency) ∨
        (s.baseCurrency, s.quoteCurrency) = (leg.destinationCurrency, leg.sourceCurrency)) := by
  intro row member
  obtain ⟨leg, inside, same⟩ := repeats_mem repeats row member
  obtain ⟨rate, listed, found⟩ := (priceRoute_ok priced).2 leg inside
  obtain ⟨-, -, mid, snapshot, ends⟩ := priceLeg_ok found
  obtain ⟨s, there, -, pair, value, -⟩ := book.snapshots rate listed
  obtain ⟨m, units, low, high⟩ := book.mids rate listed
  have kept : roundRate leg.midRate = .ok leg.midRate := by
    rw [mid, units]
    exact roundRate_rateUnits (by simp only [numericPrecision, contextPrecision] at high ⊢; omega)
  obtain ⟨source, destination⟩ := Prod.mk.inj same.ends
  refine ⟨s, by rw [same.snapshot, snapshot]; exact there, ?_, ?_⟩
  · rw [← Except.ok.inj (kept.symm.trans same.mid), mid, value]
  · rw [pair, source, destination]
    obtain ⟨first, second, -⟩ | ⟨first, second, -⟩ := ends
    · exact .inl (by rw [first, second])
    · exact .inr (by rw [first, second])

namespace Engine

section Rebuilding

variable [Platform] [Settings] {start : Instant} {σ : Engine} {q : Quote}

/-- A stored quote is rebuilt from its legs exactly when the context does not carry the
product of their rates onto a tie. -/
theorem Reachable.rebuilt_iff (h : Reachable start σ) (stored : q ∈ σ.world.db.quotes) :
    Rebuilt σ.world.db q ↔
      ¬ Straddles 28 10 ((σ.world.db.legsOf q.id).map (·.executableRate.coeff)).prod := by
  obtain ⟨-, rows, refresh, book, priced⟩ := h.invariant.quoted.priced q stored
  obtain ⟨amount, -, terms, quoted, eq, made⟩ := priced.terms
  have computed := quoteTerms_eq_ok.mp quoted
  obtain ⟨positions, repeats⟩ := legRows_repeat made
  obtain ⟨hops, each⟩ := priceRoute_ok computed.legs
  have route : q.route = terms.route := by rw [eq]; rfl
  obtain ⟨source, destination, distinct, shape⟩ := buildRoute_ok priced.differ computed.route
  have length : terms.legs.length = terms.route.length - 1 := by
    have := congrArg List.length hops
    simpa using this
  have short : terms.legs.length = 1 ∨ terms.legs.length = 2 := by
    rw [length]
    rcases shape with same | ⟨pivot, same⟩ <;> simp [same]
  have units : ∀ leg ∈ terms.legs, ∃ n : ℤ, leg.executableRate = rateUnits n ∧ n.natAbs < 10 ^ contextPrecision := by
    intro leg member
    obtain ⟨rate, -, found⟩ := each leg member
    exact priceLeg_units found
  have rates : ∀ {β : Type} (f : Decimal → β), (σ.world.db.legsOf q.id).map (fun leg => f leg.executableRate) =
      terms.legs.map (fun leg => f leg.executableRate) :=
    fun f => map_repeats repeats fun leg row same => by rw [same.rate]
  have stated : q.executableRate = terms.executableRate := by rw [eq]; rfl
  have fits : terms.executableRate.coeff.natAbs < 10 ^ numericPrecision := by
    obtain ⟨n, value, -⟩ := roundRate_units computed.rate
    have column := priced.fits.2.2
    rw [stated, value] at column
    rw [value]
    exact fitsRate_rateUnits.mp column
  have rate := compoundRate_iff short units computed.rate fits
  rw [← rates Decimal.toRat, ← rates Decimal.coeff] at rate
  refine Iff.trans ⟨fun rebuilt => ?_, fun once => ?_⟩ rate
  · rw [← stated]
    exact rebuilt.rate
  · have count : (σ.world.db.legsOf q.id).length = terms.route.length - 1 := by rw [← repeats.length_eq, length]
    refine ⟨?_, ?_, ?_, ?_, ?_, ?_, priced_mids book computed.legs repeats, ?_⟩
    · rw [positions, count, route, List.range_eq_range']
    · rw [route, ← hops]
      exact map_repeats repeats fun leg row same => same.ends
    · rw [route, source]
    · rw [route, destination]
    · rw [route]
      exact distinct
    · have spread : q.spreadBps = (terms.legs.map LegPricing.spreadBps).sum := by rw [eq]; exact computed.spread
      rw [spread, map_repeats repeats fun leg row same => same.spread]
    · rw [stated]
      exact once

/-- The destination amount of a stored quote is the exact product of its amount and its rate
rounded once, exactly when the context does not carry the product onto half a cent. -/
theorem Reachable.rounded_once_iff (h : Reachable start σ) (stored : q ∈ σ.world.db.quotes) :
    q.destinationAmount = Decimal.rounded 2 (q.sourceAmount.toRat * q.executableRate.toRat) ↔
      ¬ Straddles 28 10 (q.sourceAmount.coeff * q.executableRate.coeff) := by
  obtain ⟨-, rows, refresh, book, priced⟩ := h.invariant.quoted.priced q stored
  obtain ⟨spent, received, source, destination, -, fits⟩ := priced.amounts
  obtain ⟨amount, -, terms, quoted, eq, -⟩ := priced.terms
  have computed := quoteTerms_eq_ok.mp quoted
  obtain ⟨n, value, -⟩ := roundRate_units computed.rate
  have sold : terms.sourceAmount = cents spent := by
    rw [← source, eq]
    rfl
  have rate : q.executableRate = rateUnits n := by
    rw [← value, eq]
    rfl
  have product : roundMoney (cents spent * rateUnits n) q.destinationCurrency = .ok q.destinationAmount := by
    rw [← sold, ← value, computed.destinationAmount, eq]
    rfl
  rw [source, rate]
  exact roundMoney_mul_iff product (by rw [destination]; exact fits)

end Rebuilding

end Engine

namespace Sample

/-- A quote from euros to naira at a billion naira to the dollar: the product of the leg rates
has thirty digits, and the context drops the one by which it is above the tie. -/
def steep : List (Call × List Instant) :=
  opened (answer "130" "1005025126.2451101056" "0.9") ++ [(.createQuote 5 1 .EUR .NGN (.str "1.00"), [0])]

/-- A quote for a quadrillion dollars: the exact product is just above half a cent of a
shilling, and the context drops what it is above. -/
def large : List (Call × List Instant) :=
  opened (answer "130.0000000001" "1500" "0.9") ++ [(.createQuote 5 1 .USD .KES (.str "1000000115000000.01"), [0])]

end Sample

namespace Engine

attribute [local instance] Sample.platform Sample.settings

theorem rebuilt_iff_sample :
    (∃ (σ : Engine) (q : Quote), Reachable 0 σ ∧ q ∈ σ.world.db.quotes ∧ Rebuilt σ.world.db q) ∧
    ∃ (σ : Engine) (q : Quote), Reachable 0 σ ∧ q ∈ σ.world.db.quotes ∧ ¬ Rebuilt σ.world.db q := by
  constructor
  · obtain ⟨σ, reached, db⟩ := Sample.reachable Sample.prepared (by decide)
    obtain ⟨q, stored, straight⟩ : ∃ q ∈ σ.world.db.quotes,
        ¬ Straddles 28 10 ((σ.world.db.legsOf q.id).map (·.executableRate.coeff)).prod := by
      rw [db]
      decide +kernel
    exact ⟨σ, q, reached, stored, (reached.rebuilt_iff stored).mpr straight⟩
  · obtain ⟨σ, reached, db⟩ := Sample.reachable Sample.steep (by decide)
    obtain ⟨q, stored, across⟩ : ∃ q ∈ σ.world.db.quotes,
        Straddles 28 10 ((σ.world.db.legsOf q.id).map (·.executableRate.coeff)).prod := by
      rw [db]
      decide +kernel
    exact ⟨σ, q, reached, stored, fun rebuilt => (reached.rebuilt_iff stored).mp rebuilt across⟩

theorem not_rebuilt : ∃ (σ : Engine) (q : Quote), Reachable 0 σ ∧ q ∈ σ.world.db.quotes ∧ ¬ Rebuilt σ.world.db q := by
  obtain ⟨σ, reached, db⟩ := Sample.reachable Sample.steep (by decide)
  have wrong : ∃ q ∈ σ.world.db.quotes,
      q.executableRate ≠ Decimal.rounded 10 ((σ.world.db.legsOf q.id).map (·.executableRate.toRat)).prod := by
    rw [db]
    decide +kernel
  obtain ⟨q, stored, differ⟩ := wrong
  exact ⟨σ, q, reached, stored, fun rebuilt => differ rebuilt.rate⟩

theorem rounded_once_iff_sample :
    (∃ (σ : Engine) (q : Quote), Reachable 0 σ ∧ q ∈ σ.world.db.quotes ∧
      q.destinationAmount = Decimal.rounded 2 (q.sourceAmount.toRat * q.executableRate.toRat)) ∧
    ∃ (σ : Engine) (q : Quote), Reachable 0 σ ∧ q ∈ σ.world.db.quotes ∧
      q.destinationAmount ≠ Decimal.rounded 2 (q.sourceAmount.toRat * q.executableRate.toRat) := by
  constructor
  · obtain ⟨σ, reached, db⟩ := Sample.reachable Sample.prepared (by decide)
    obtain ⟨q, stored, straight⟩ : ∃ q ∈ σ.world.db.quotes,
        ¬ Straddles 28 10 (q.sourceAmount.coeff * q.executableRate.coeff) := by
      rw [db]
      decide +kernel
    exact ⟨σ, q, reached, stored, (reached.rounded_once_iff stored).mpr straight⟩
  · obtain ⟨σ, reached, db⟩ := Sample.reachable Sample.large (by decide)
    obtain ⟨q, stored, across⟩ : ∃ q ∈ σ.world.db.quotes,
        Straddles 28 10 (q.sourceAmount.coeff * q.executableRate.coeff) := by
      rw [db]
      decide +kernel
    exact ⟨σ, q, reached, stored, fun once => (reached.rounded_once_iff stored).mp once across⟩

theorem not_rounded_once : ∃ (σ : Engine) (q : Quote), Reachable 0 σ ∧ q ∈ σ.world.db.quotes ∧
    q.destinationAmount ≠ Decimal.rounded 2 (q.sourceAmount.toRat * q.executableRate.toRat) := by
  obtain ⟨σ, reached, db⟩ := Sample.reachable Sample.large (by decide)
  have wrong : ∃ q ∈ σ.world.db.quotes,
      q.destinationAmount ≠ Decimal.rounded 2 (q.sourceAmount.toRat * q.executableRate.toRat) := by
    rw [db]
    decide +kernel
  obtain ⟨q, stored, differ⟩ := wrong
  exact ⟨σ, q, reached, stored, differ⟩

end Engine

end FxEngine
