import FxEngine.Numeric.Decimal

/-! # Central money and rate rules

Every amount and rate of the engine is rounded here, half-even, in Python's
default decimal context of 28 digits.
-/

namespace FxEngine

open Numeric

/-- Precision of the default decimal context. -/
abbrev contextPrecision : ℕ := 28

/-- Supported fiat currencies all use two stored and displayed decimal places. -/
def standardMinorUnitPlaces : ℕ := 2

/-- Executable rates are stored and returned at ten decimal places. -/
def rateScale : ℕ := 10

inductive Currency where
  | USD
  | EUR
  | KES
  | NGN
  deriving DecidableEq, Repr

namespace Currency

/-- The code stored in the tables and shown to clients. -/
def value : Currency → String
  | USD => "USD"
  | EUR => "EUR"
  | KES => "KES"
  | NGN => "NGN"

/-- The members in declaration order. -/
def all : List Currency := [USD, EUR, KES, NGN]

/-- `Currency(code)`. -/
def ofCode (code : String) : Option Currency := all.find? (·.value = code)

theorem mem_all (c : Currency) : c ∈ all := by cases c <;> decide

theorem ofCode_value (c : Currency) : ofCode c.value = some c := by cases c <;> decide

end Currency

def decimalOne : Decimal := ⟨1, 0⟩
def zeroMoney : Decimal := ⟨0, -2⟩

/-- Round settled money to the currency's storage precision; all four
currencies share it. -/
def roundMoney (amount : Decimal) (_currency : Currency) : Except DecimalException Decimal :=
  amount.quantize contextPrecision (-standardMinorUnitPlaces)

/-- Round executable rates at the single precision used for quotes. -/
def roundRate (rate : Decimal) : Except DecimalException Decimal :=
  rate.quantize contextPrecision (-rateScale)

/-! Python's operators round to the default context. -/

instance : Mul Decimal := ⟨Decimal.mul contextPrecision⟩
instance : Add Decimal := ⟨Decimal.add contextPrecision⟩
instance : Sub Decimal := ⟨Decimal.sub contextPrecision⟩

/-- `a / b`. -/
def divide (a b : Decimal) : Except DecimalException Decimal := a.div contextPrecision b

/-- What the context does to a value. -/
abbrev ctx (q : ℚ) : ℚ := sigRound contextPrecision q

theorem toRat_mul (a b : Decimal) : (a * b).toRat = ctx (a.toRat * b.toRat) :=
  Decimal.mul_toRat (by norm_num) a b

theorem toRat_add (a b : Decimal) : (a + b).toRat = ctx (a.toRat + b.toRat) :=
  Decimal.add_toRat (by norm_num) a b

theorem toRat_sub (a b : Decimal) : (a - b).toRat = ctx (a.toRat - b.toRat) :=
  Decimal.sub_toRat (by norm_num) a b

/-! ## Amounts of money -/

/-- `c` hundredths. -/
def cents (c : ℤ) : Decimal := ⟨c, -2⟩

@[simp] theorem cents_coeff (c : ℤ) : (cents c).coeff = c := rfl

theorem cents_toRat (c : ℤ) : (cents c).toRat = c / 100 := by
  simp [cents, Decimal.toRat]
  norm_num
  ring

theorem cents_le {a b : ℤ} : cents a ≤ cents b ↔ a ≤ b := by
  rw [Decimal.le_iff, cents_toRat, cents_toRat, div_le_div_iff_of_pos_right (by norm_num)]
  exact Int.cast_le

theorem cents_lt {a b : ℤ} : cents a < cents b ↔ a < b := by
  rw [Decimal.lt_iff, cents_toRat, cents_toRat, div_lt_div_iff_of_pos_right (by norm_num)]
  exact Int.cast_lt

theorem exactAdd_cents (a b : ℤ) : Decimal.exactAdd (cents a) (cents b) = cents (a + b) := by
  simp [Decimal.exactAdd, cents]

/-- Below 10^28 hundredths, sums and differences of amounts are exact. -/
theorem cents_add {a b : ℤ} (fits : (a + b).natAbs < 10 ^ contextPrecision) :
    cents a + cents b = cents (a + b) := by
  change Decimal.add contextPrecision (cents a) (cents b) = _
  rw [Decimal.add, exactAdd_cents, Decimal.fix_of_fits (by norm_num) fits]

theorem cents_sub {a b : ℤ} (fits : (a - b).natAbs < 10 ^ contextPrecision) :
    cents a - cents b = cents (a - b) := by
  have := cents_add (a := a) (b := -b) (by simpa [sub_eq_add_neg] using fits)
  rw [sub_eq_add_neg, ← this]
  rfl

/-- What `roundMoney` returns is a whole number of cents. -/
theorem roundMoney_cents {amount r : Decimal} {c : Currency} (h : roundMoney amount c = .ok r) :
    r = cents (halfEven (amount.toRat * 100)) := by
  have := (Decimal.quantize_ok (by norm_num) h).1
  rw [this, cents]
  congr 2
  simp [standardMinorUnitPlaces]
  norm_num

/-- Rounding a whole number of cents changes nothing. -/
theorem roundMoney_exact {n : ℤ} (c : Currency) (fits : n.natAbs < 10 ^ contextPrecision) :
    roundMoney (cents n) c = .ok (cents n) := by
  have coeff : (cents n).rescale (-standardMinorUnitPlaces) = n := by
    simp [Decimal.rescale, cents, standardMinorUnitPlaces]
  rw [roundMoney, Decimal.quantize, coeff, if_pos ((digitCount_le_iff (by norm_num)).mpr fits)]
  rfl

/-- Amounts that fit a `NUMERIC(20, 2)` column are added without rounding. -/
theorem roundMoney_add {a b : ℤ} (c : Currency) (ha : a.natAbs < 10 ^ 20) (hb : b.natAbs < 10 ^ 20) :
    roundMoney (cents a + cents b) c = .ok (cents (a + b)) := by
  have fits : (a + b).natAbs < 10 ^ contextPrecision := by
    simp only [contextPrecision]
    omega
  rw [cents_add fits, roundMoney_exact c fits]

theorem roundMoney_sub {a b : ℤ} (c : Currency) (ha : a.natAbs < 10 ^ 20) (hb : b.natAbs < 10 ^ 20) :
    roundMoney (cents a - cents b) c = .ok (cents (a - b)) := by
  have fits : (a - b).natAbs < 10 ^ contextPrecision := by
    simp only [contextPrecision]
    omega
  rw [cents_sub fits, roundMoney_exact c fits]

end FxEngine
