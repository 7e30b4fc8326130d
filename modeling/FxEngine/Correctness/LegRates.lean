import FxEngine.Correctness.Pricing

/-! # Rates of legs and routes, exactly

The context of 28 digits is wide enough for a leg: its rate is the exact one, rounded
once. The rate of a route is not, and what follows says how far the two roundings agree.
-/

namespace FxEngine

open Numeric

/-- A rate as its column holds it: `m` units of the tenth decimal place. -/
def rateUnits (m : ℤ) : Decimal := ⟨m, -rateScale⟩

@[simp] theorem rateUnits_coeff (m : ℤ) : (rateUnits m).coeff = m := rfl

theorem rateUnits_toRat (m : ℤ) : (rateUnits m).toRat = m / 10 ^ 10 := by
  simp [rateUnits, Decimal.toRat, rateScale]
  rfl

theorem fitsRate_rateUnits {m : ℤ} : fitsRate (rateUnits m) ↔ m.natAbs < 10 ^ numericPrecision := by
  simp [fitsNumeric, rateUnits, Decimal.rescale, rateScale]

theorem roundRate_eq (d : Decimal) :
    roundRate d = if (Decimal.rounded rateScale d.toRat).coeff.natAbs < 10 ^ contextPrecision
      then .ok (Decimal.rounded rateScale d.toRat) else .error .invalidOperation :=
  Decimal.quantize_places (by norm_num) d rateScale

theorem roundMoney_eq (d : Decimal) (c : Currency) :
    roundMoney d c = if (Decimal.rounded standardMinorUnitPlaces d.toRat).coeff.natAbs < 10 ^ contextPrecision
      then .ok (Decimal.rounded standardMinorUnitPlaces d.toRat) else .error .invalidOperation :=
  Decimal.quantize_places (by norm_num) d standardMinorUnitPlaces

theorem roundRate_ok {d r : Decimal} (h : roundRate d = .ok r) : r = Decimal.rounded rateScale d.toRat := by
  rw [roundRate_eq] at h
  split at h <;> cases h
  rfl

theorem roundMoney_ok {d r : Decimal} {c : Currency} (h : roundMoney d c = .ok r) :
    r = Decimal.rounded standardMinorUnitPlaces d.toRat := by
  rw [roundMoney_eq] at h
  split at h <;> cases h
  rfl

@[simp] theorem rounded_rateUnits (n : ℤ) : Decimal.rounded rateScale (rateUnits n).toRat = rateUnits n := by
  rw [Decimal.rounded, rateUnits_toRat, rateUnits, rateScale, div_mul_cancel₀ _ (by norm_num), halfEven_intCast]

theorem roundRate_rateUnits {n : ℤ} (fits : n.natAbs < 10 ^ contextPrecision) :
    roundRate (rateUnits n) = .ok (rateUnits n) := by
  rw [roundRate_eq, rounded_rateUnits, rateUnits_coeff, if_pos fits]

theorem decimalOne_mul_rateUnits {n : ℤ} (fits : n.natAbs < 10 ^ contextPrecision) :
    decimalOne * rateUnits n = rateUnits n := by
  change Decimal.fix contextPrecision ⟨1 * n, 0 + -(rateScale : ℤ)⟩ = _
  rw [one_mul, zero_add]
  exact Decimal.fix_of_fits (by norm_num) fits

/-- A result of the context is quantized unless it has too many digits before rounding. -/
theorem quantize_ctx {d : Decimal} {q : ℚ} (nonneg : 0 ≤ q) (value : d.toRat = ctx q) (places : ℕ) :
    d.quantize contextPrecision (-places) =
      if q * 10 ^ places < 10 ^ contextPrecision - 1 / 2 then .ok (Decimal.rounded places (ctx q))
      else .error .invalidOperation := by
  have low : 0 ≤ (Decimal.rounded places (ctx q)).coeff := Decimal.rounded_nonneg _ (sigRound_nonneg _ nonneg)
  have fits : (Decimal.rounded places (ctx q)).coeff.natAbs < 10 ^ contextPrecision ↔
      q * 10 ^ places < 10 ^ contextPrecision - 1 / 2 := by
    rw [← halfEven_sigRound_lt (by norm_num) places nonneg]
    change _ ↔ (Decimal.rounded places (ctx q)).coeff < _
    simp only [contextPrecision]
    omega
  rw [Decimal.quantize_places (by norm_num), value]
  simp only [fits]

/-! ## One leg -/

/-- What a sale of the base is worth at a mid rate, less the spread. -/
def sellValue (mid : ℚ) (spread : ℤ) : ℚ := mid * (1 - spread / 10000)

/-- What a unit of the quote currency buys of the base, at the mid rate plus the spread. -/
def buyValue (mid : ℚ) (spread : ℤ) : ℚ := 1 / (mid * (1 + spread / 10000))

/-- Spreads of at most the whole. -/
def SpreadInRange (spread : ℤ) : Prop := 0 ≤ spread ∧ spread ≤ 10000

instance (spread : ℤ) : Decidable (SpreadInRange spread) := inferInstanceAs (Decidable (_ ∧ _))

theorem sellValue_zero (mid : ℚ) : sellValue mid 0 = mid := by
  simp [sellValue]

theorem buyValue_zero (mid : ℚ) : buyValue mid 0 = 1 / mid := by
  simp [buyValue]

theorem sellValue_le {mid : ℚ} {spread : ℤ} (nonneg : 0 ≤ mid) (range : SpreadInRange spread) :
    0 ≤ sellValue mid spread ∧ sellValue mid spread ≤ mid := by
  have low : (0 : ℚ) ≤ spread := by exact_mod_cast range.1
  have high : (spread : ℚ) ≤ 10000 := by exact_mod_cast range.2
  have fraction : (0 : ℚ) ≤ 1 - spread / 10000 ∧ 1 - (spread : ℚ) / 10000 ≤ 1 := by
    constructor <;> linarith
  exact ⟨mul_nonneg nonneg fraction.1, mul_le_of_le_one_right nonneg fraction.2⟩

theorem buyValue_pos {mid : ℚ} {spread : ℤ} (positive : 0 < mid) (range : SpreadInRange spread) :
    0 < buyValue mid spread := by
  have low : (0 : ℚ) ≤ spread := by exact_mod_cast range.1
  unfold buyValue
  positivity

theorem sellValue_antitone {mid : ℚ} (nonneg : 0 ≤ mid) {spread spread' : ℤ} (wider : spread ≤ spread') :
    sellValue mid spread' ≤ sellValue mid spread := by
  have : (spread : ℚ) ≤ spread' := by exact_mod_cast wider
  exact mul_le_mul_of_nonneg_left (by linarith) nonneg

theorem buyValue_antitone {mid : ℚ} (positive : 0 < mid) {spread spread' : ℤ} (range : SpreadInRange spread)
    (wider : spread ≤ spread') : buyValue mid spread' ≤ buyValue mid spread := by
  have low : (0 : ℚ) ≤ spread := by exact_mod_cast range.1
  have high : (spread : ℚ) ≤ spread' := by exact_mod_cast wider
  refine one_div_le_one_div_of_le (by positivity) (mul_le_mul_of_nonneg_left (by linarith) positive.le)

/-- A leg's rate leaves room in the context. -/
theorem rounded_fits {q : ℚ} (nonneg : 0 ≤ q) (upper : q * 10 ^ rateScale ≤ 10 ^ 20) :
    (Decimal.rounded rateScale q).coeff.natAbs < 10 ^ contextPrecision := by
  have low := Decimal.rounded_nonneg rateScale nonneg
  have high := Decimal.rounded_le (n := 10 ^ 20) (by exact_mod_cast upper)
  simp only [contextPrecision]
  omega

/-- The reciprocal of a priced mid keeps its rounding through the context: its distance from
a tie is a multiple of `1 / (2 * n)` units, and the context moves it by less. -/
theorem rounded_reciprocal {n : ℕ} (large : 10000 ≤ n) :
    Decimal.rounded rateScale (ctx (10 ^ 14 / n)) = Decimal.rounded rateScale (10 ^ 14 / n) := by
  have n0 : (0 : ℚ) < n := by exact_mod_cast (by omega : 0 < n)
  have scaled : (10 ^ 14 / n : ℚ) * 10 ^ rateScale = ((10 ^ 24 : ℤ) : ℚ) / n := by
    simp only [rateScale]
    push_cast
    field_simp
    norm_num
  have near : |ctx (10 ^ 14 / n) * 10 ^ rateScale - ((10 ^ 24 : ℤ) : ℚ) / n| < 1 / (2 * n) := by
    have moved := abs_sigRound_sub_le contextPrecision (10 ^ 14 / n : ℚ)
    rw [abs_of_pos (by positivity : (0 : ℚ) < 10 ^ 14 / n)] at moved
    rw [← scaled, ← sub_mul, abs_mul, abs_of_pos (by positivity : (0 : ℚ) < 10 ^ rateScale)]
    calc |ctx (10 ^ 14 / n) - 10 ^ 14 / n| * 10 ^ rateScale
        ≤ 10 ^ 14 / n * (10 : ℚ) ^ (1 - (contextPrecision : ℕ) : ℤ) / 2 * 10 ^ rateScale :=
          mul_le_mul_of_nonneg_right moved (by positivity)
      _ = 1 / 1000 * (1 / (2 * n)) := by
          simp only [contextPrecision, rateScale]
          norm_num
          field_simp
          norm_num
      _ < 1 / (2 * n) := by
          have : (0 : ℚ) < 1 / (2 * n) := by positivity
          linarith
  have tie : ∀ k : ℤ, ((10 ^ 24 : ℤ) : ℚ) / n = k + 1 / 2 →
      ctx (10 ^ 14 / n) * 10 ^ rateScale = ((10 ^ 24 : ℤ) : ℚ) / n := by
    intro k same
    have bound : ((10 ^ 24 : ℤ) : ℚ) / n ≤ 10 ^ 20 := by
      rw [div_le_iff₀ n0]
      have : (10000 : ℚ) ≤ n := by exact_mod_cast large
      push_cast
      linarith
    have nonneg : (0 : ℚ) < ((10 ^ 24 : ℤ) : ℚ) / n := by positivity
    rw [same] at bound nonneg
    have k1 : (k : ℚ) < ((10 ^ 20 : ℤ) : ℚ) := by push_cast; linarith
    have k0 : ((-1 : ℤ) : ℚ) < k := by push_cast; linarith
    rw [Int.cast_lt] at k0 k1
    have value : (10 ^ 14 / n : ℚ) = ((5 * (2 * k + 1) : ℤ) : ℚ) * (10 : ℚ) ^ (-11 : ℤ) := by
      have : (10 ^ 14 / n : ℚ) = (k + 1 / 2) / 10 ^ rateScale := by
        rw [← same, ← scaled, mul_div_cancel_right₀ _ (by positivity)]
      rw [this]
      simp only [rateScale]
      push_cast
      norm_num
      ring
    rw [ctx, sigRound_exact value (by simp only [contextPrecision]; omega), scaled]
  have same := halfEven_near_fraction (by omega) near tie
  rw [Decimal.rounded, Decimal.rounded, same, scaled]

section Leg

variable {m spread : ℤ} (lower : 0 ≤ m) (upper : m < 10 ^ numericPrecision) (range : SpreadInRange spread)

include range

/-- The spread as a fraction is exact. -/
theorem divide_spread : ∃ fraction, divide ⟨spread, 0⟩ basisPointDenominator = .ok fraction ∧
    fraction.toRat = spread / 10000 := by
  obtain ⟨fraction, done, value⟩ := Decimal.div_ok (p := contextPrecision) (a := ⟨spread, 0⟩)
    (b := basisPointDenominator) (by decide)
  have exact_ : (⟨spread, 0⟩ : Decimal).toRat / basisPointDenominator.toRat = spread * (10 : ℚ) ^ (-4 : ℤ) := by
    simp [Decimal.toRat, basisPointDenominator]
    norm_num
    ring
  have small : spread.natAbs < 10 ^ contextPrecision := by
    obtain ⟨low, high⟩ := range
    simp only [contextPrecision]
    omega
  refine ⟨fraction, done, value.trans ?_⟩
  rw [exact_, sigRound_exact rfl small]
  norm_num
  ring

include upper

/-- Selling: every step is exact, so the one rounding is the last. -/
theorem sellRate_eq (lower : 0 ≤ m) : sellRate (rateUnits m) spread =
    .ok (Decimal.rounded rateScale (sellValue (m / 10 ^ 10) spread)) := by
  obtain ⟨fraction, done, value⟩ := divide_spread range
  obtain ⟨low, high⟩ := range
  simp only [numericPrecision] at upper
  have less : (decimalOne - fraction).toRat = ((10000 - spread : ℤ) : ℚ) * (10 : ℚ) ^ (-4 : ℤ) := by
    have exact_ : decimalOne.toRat - fraction.toRat = ((10000 - spread : ℤ) : ℚ) * (10 : ℚ) ^ (-4 : ℤ) := by
      rw [value]
      simp [decimalOne, Decimal.toRat]
      norm_num
      ring
    rw [toRat_sub, exact_]
    exact sigRound_exact rfl (by simp only [contextPrecision]; omega)
  have product : (rateUnits m * (decimalOne - fraction)).toRat = sellValue (m / 10 ^ 10) spread := by
    have exact_ : (rateUnits m).toRat * (decimalOne - fraction).toRat =
        ((m * (10000 - spread) : ℤ) : ℚ) * (10 : ℚ) ^ (-14 : ℤ) := by
      rw [rateUnits_toRat, less]
      push_cast
      norm_num
      ring
    have small : (m * (10000 - spread)).natAbs < 10 ^ contextPrecision := by
      simp only [contextPrecision, Int.natAbs_mul]
      calc m.natAbs * (10000 - spread).natAbs ≤ 10 ^ 20 * 10000 := Nat.mul_le_mul (by omega) (by omega)
        _ < 10 ^ 28 := by norm_num
    rw [toRat_mul, ctx, sigRound_exact exact_ small, exact_, sellValue]
    push_cast
    norm_num
    ring
  have bounds : 0 ≤ sellValue (m / 10 ^ 10) spread ∧ sellValue (m / 10 ^ 10) spread ≤ m / 10 ^ 10 :=
    sellValue_le (by positivity) ⟨low, high⟩
  have small : sellValue (m / 10 ^ 10) spread * 10 ^ rateScale ≤ 10 ^ 20 := by
    have size : (m : ℚ) ≤ 10 ^ 20 := by exact_mod_cast upper.le
    simp only [rateScale]
    linarith [bounds.2]
  rw [sellRate, done]
  change roundRate (rateUnits m * (decimalOne - fraction)) = _
  rw [roundRate_eq, product, if_pos (rounded_fits bounds.1 small)]

/-- Buying: the priced mid is exact, and the quotient is so far from any tie of the tenth
place that the rounding of the context does not matter. -/
theorem buyRate_eq (positive : 0 < m) : buyRate (rateUnits m) spread =
    .ok (Decimal.rounded rateScale (buyValue (m / 10 ^ 10) spread)) := by
  obtain ⟨fraction, done, value⟩ := divide_spread range
  obtain ⟨low, high⟩ := range
  simp only [numericPrecision] at upper
  have more : (decimalOne + fraction).toRat = ((10000 + spread : ℤ) : ℚ) * (10 : ℚ) ^ (-4 : ℤ) := by
    have exact_ : decimalOne.toRat + fraction.toRat = ((10000 + spread : ℤ) : ℚ) * (10 : ℚ) ^ (-4 : ℤ) := by
      rw [value]
      simp [decimalOne, Decimal.toRat]
      norm_num
      ring
    rw [toRat_add, exact_]
    exact sigRound_exact rfl (by simp only [contextPrecision]; omega)
  obtain ⟨n, steps⟩ : ∃ n : ℕ, (n : ℤ) = m * (10000 + spread) := ⟨_, Int.toNat_of_nonneg (by positivity)⟩
  have n1 : 10000 ≤ n := by
    have : (10000 : ℤ) ≤ n := by rw [steps]; nlinarith
    omega
  have n0 : (0 : ℚ) < n := by exact_mod_cast (by omega : 0 < n)
  have priced : (rateUnits m * (decimalOne + fraction)).toRat = n / 10 ^ 14 := by
    have exact_ : (rateUnits m).toRat * (decimalOne + fraction).toRat = ((n : ℤ) : ℚ) * (10 : ℚ) ^ (-14 : ℤ) := by
      rw [rateUnits_toRat, more, steps]
      push_cast
      norm_num
      ring
    have small : (n : ℤ).natAbs < 10 ^ contextPrecision := by
      simp only [contextPrecision, Int.natAbs_natCast]
      have : (n : ℤ) < 10 ^ 28 := by rw [steps]; nlinarith
      omega
    rw [toRat_mul, ctx, sigRound_exact exact_ small, exact_]
    norm_num
    ring
  have target : buyValue (m / 10 ^ 10) spread = 10 ^ 14 / n := by
    have : (n : ℚ) = m * (10000 + spread) := by exact_mod_cast steps
    rw [buyValue, this]
    have : (0 : ℚ) < m := by exact_mod_cast positive
    have : (0 : ℚ) ≤ spread := by exact_mod_cast low
    field_simp
    ring
  obtain ⟨inverse, divided, quotient⟩ := Decimal.div_ok (p := contextPrecision) (a := decimalOne)
    (b := rateUnits m * (decimalOne + fraction)) (by
      rw [ne_eq, ← Decimal.toRat_eq_zero_iff, priced]
      positivity)
  replace quotient : inverse.toRat = ctx (10 ^ 14 / n) := by
    rw [quotient, priced, show decimalOne.toRat = 1 by simp [decimalOne, Decimal.toRat], one_div_div]
  have small : buyValue (m / 10 ^ 10) spread * 10 ^ rateScale ≤ 10 ^ 20 := by
    rw [target, div_mul_eq_mul_div, div_le_iff₀ n0]
    have : (10000 : ℚ) ≤ n := by exact_mod_cast n1
    simp only [rateScale]
    linarith
  have bounds : 0 < buyValue (m / 10 ^ 10) spread := buyValue_pos (by positivity) ⟨low, high⟩
  rw [buyRate, done]
  change (do let q ← divide decimalOne (rateUnits m * (decimalOne + fraction)); roundRate q) = _
  rw [divide, divided]
  change roundRate inverse = _
  rw [roundRate_eq, quotient, rounded_reciprocal n1, ← target, if_pos (rounded_fits bounds.le small)]

end Leg

/-- A rate row as the refresh writes it: a positive mid rate that fits its column, and
spreads of at most the whole. -/
structure CurrentRate.Sound (rate : CurrentRate) : Prop where
  mid : ∃ m : ℤ, 0 < m ∧ m < 10 ^ numericPrecision ∧ rate.midRate = rateUnits m
  buy : SpreadInRange rate.buySpreadBps
  sell : SpreadInRange rate.sellSpreadBps

namespace CurrentRate.Sound

variable {rate : CurrentRate} (h : rate.Sound)

include h

theorem positive : 0 < rate.midRate.toRat := by
  obtain ⟨m, positive, -, mid⟩ := h.mid
  rw [mid, rateUnits_toRat]
  positivity

theorem rounded_mid : Decimal.rounded rateScale rate.midRate.toRat = rate.midRate := by
  obtain ⟨m, -, -, mid⟩ := h.mid
  rw [mid, rounded_rateUnits]

theorem sellRate_eq : sellRate rate.midRate rate.sellSpreadBps =
    .ok (Decimal.rounded rateScale (sellValue rate.midRate.toRat rate.sellSpreadBps)) := by
  obtain ⟨m, positive, fits, mid⟩ := h.mid
  rw [mid, FxEngine.sellRate_eq fits h.sell positive.le, rateUnits_toRat]

theorem buyRate_eq : buyRate rate.midRate rate.buySpreadBps =
    .ok (Decimal.rounded rateScale (buyValue rate.midRate.toRat rate.buySpreadBps)) := by
  obtain ⟨m, positive, fits, mid⟩ := h.mid
  rw [mid, FxEngine.buyRate_eq fits h.buy positive, rateUnits_toRat]

end CurrentRate.Sound

/-- A sound rate prices a leg in either direction, at a rate that is not negative. -/
theorem priceLeg_sound {rate : CurrentRate} (h : rate.Sound) {source destination : Currency} {leg : LegPricing}
    (priced : priceLeg rate source destination = .ok leg) :
    (source = rate.baseCurrency ∧ destination = rate.quoteCurrency ∧
        leg.executableRate = Decimal.rounded rateScale (sellValue rate.midRate.toRat rate.sellSpreadBps)) ∨
      (¬ (source = rate.baseCurrency ∧ destination = rate.quoteCurrency) ∧
        leg.executableRate = Decimal.rounded rateScale (buyValue rate.midRate.toRat rate.buySpreadBps)) := by
  unfold priceLeg at priced
  split at priced
  · rename_i direct
    obtain ⟨executable, found, same⟩ := Except.bind_ok priced
    rw [h.sellRate_eq] at found
    cases found
    cases same
    exact .inl ⟨direct.1, direct.2, rfl⟩
  · rename_i inverse
    split at priced
    · obtain ⟨executable, found, same⟩ := Except.bind_ok priced
      rw [h.buyRate_eq] at found
      cases found
      cases same
      exact .inr ⟨inverse, rfl⟩
    · cases priced

end FxEngine
