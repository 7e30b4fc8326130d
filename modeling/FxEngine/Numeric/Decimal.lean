import FxEngine.Numeric.HalfEven

/-! # Decimal arithmetic in a context of bounded precision

A finite decimal is an integer coefficient and a power of ten. Every operation
computes the exact result and rounds it, half-even, to the `p` significant
digits of the context; `quantize` rounds to a fixed exponent and fails when the
coefficient does not fit the context. `sigRound` is what the context does to
the value, and each operation below is shown to be the exact one followed by it.
-/

namespace FxEngine.Numeric

/-- The decimal `coeff · 10 ^ exp`. -/
structure Decimal where
  coeff : ℤ
  exp : ℤ
  deriving DecidableEq, Repr

/-- The traps a finite operation can spring. -/
inductive DecimalException where
  | invalidOperation
  | divisionByZero
  deriving DecidableEq, Repr

/-- Decimal digits of a coefficient; zero is written with one digit. -/
def digitCount (n : ℕ) : ℕ := Nat.log 10 n + 1

theorem digitCount_le_iff {n p : ℕ} (positive : 0 < p) : digitCount n ≤ p ↔ n < 10 ^ p := by
  unfold digitCount
  rcases Nat.eq_zero_or_pos n with rfl | npos
  · simpa [Nat.succ_le_iff] using positive
  · rw [Nat.succ_le_iff, Nat.log_lt_iff_lt_pow (by norm_num) npos.ne']

namespace Decimal

def toRat (d : Decimal) : ℚ := d.coeff * (10 : ℚ) ^ d.exp

instance : LT Decimal := ⟨fun a b => a.toRat < b.toRat⟩
instance : LE Decimal := ⟨fun a b => a.toRat ≤ b.toRat⟩
instance (a b : Decimal) : Decidable (a < b) := inferInstanceAs (Decidable (a.toRat < b.toRat))
instance (a b : Decimal) : Decidable (a ≤ b) := inferInstanceAs (Decidable (a.toRat ≤ b.toRat))

theorem lt_iff {a b : Decimal} : a < b ↔ a.toRat < b.toRat := Iff.rfl
theorem le_iff {a b : Decimal} : a ≤ b ↔ a.toRat ≤ b.toRat := Iff.rfl

/-- Round the coefficient to `p` digits. -/
def fix (p : ℕ) (d : Decimal) : Decimal :=
  if digitCount d.coeff.natAbs ≤ p then d
  else
    let drop := digitCount d.coeff.natAbs - p
    ⟨divHalfEven d.coeff (10 ^ drop), d.exp + drop⟩

/-- The coefficient of the value at the exponent `e`, rounded half-even. -/
def rescale (d : Decimal) (e : ℤ) : ℤ :=
  if e ≤ d.exp then d.coeff * 10 ^ (d.exp - e).toNat
  else divHalfEven d.coeff (10 ^ (e - d.exp).toNat)

def quantize (p : ℕ) (d : Decimal) (e : ℤ) : Except DecimalException Decimal :=
  if digitCount (d.rescale e).natAbs ≤ p then .ok ⟨d.rescale e, e⟩
  else .error .invalidOperation

def mul (p : ℕ) (a b : Decimal) : Decimal := fix p ⟨a.coeff * b.coeff, a.exp + b.exp⟩

/-- The exact sum, at the smaller of the two exponents. -/
def exactAdd (a b : Decimal) : Decimal :=
  let e := min a.exp b.exp
  ⟨a.coeff * 10 ^ (a.exp - e).toNat + b.coeff * 10 ^ (b.exp - e).toNat, e⟩

def add (p : ℕ) (a b : Decimal) : Decimal := fix p (exactAdd a b)

def sub (p : ℕ) (a b : Decimal) : Decimal := add p a ⟨-b.coeff, b.exp⟩

/-- The quotient rounded to `p` digits. The scale is chosen so that the integer
quotient has exactly `p` digits before rounding. -/
def div (p : ℕ) (a b : Decimal) : Except DecimalException Decimal :=
  if b.coeff = 0 then
    if a.coeff = 0 then .error .invalidOperation else .error .divisionByZero
  else if a.coeff = 0 then .ok ⟨0, a.exp - b.exp⟩
  else
    let shift : ℤ := p - Int.log 10 |(a.coeff : ℚ) / b.coeff| - 1
    let sign : ℤ := if b.coeff < 0 then -1 else 1
    .ok ⟨divHalfEven (sign * a.coeff * 10 ^ shift.toNat) (b.coeff.natAbs * 10 ^ (-shift).toNat),
      a.exp - b.exp - shift⟩

end Decimal

/-! ## What the context does to a value -/

/-- The weight of the last of the `p` significant digits of `q`. -/
def lastPlace (p : ℕ) (q : ℚ) : ℚ := (10 : ℚ) ^ (Int.log 10 |q| + 1 - p)

/-- `q` rounded half-even to `p` significant digits. -/
def sigRound (p : ℕ) (q : ℚ) : ℚ :=
  if q = 0 then 0 else halfEven (q / lastPlace p q) * lastPlace p q

theorem lastPlace_pos (p : ℕ) (q : ℚ) : 0 < lastPlace p q := zpow_pos (by norm_num) _

@[simp] theorem sigRound_zero (p : ℕ) : sigRound p 0 = 0 := if_pos rfl

theorem lastPlace_le (p : ℕ) {q : ℚ} (nonzero : q ≠ 0) :
    lastPlace p q ≤ |q| * (10 : ℚ) ^ (1 - p : ℤ) := by
  have magnitude : (10 : ℚ) ^ Int.log 10 |q| ≤ |q| := by
    exact_mod_cast Int.zpow_log_le_self (b := 10) (by norm_num) (abs_pos.mpr nonzero)
  calc lastPlace p q = (10 : ℚ) ^ Int.log 10 |q| * (10 : ℚ) ^ (1 - p : ℤ) := by
        rw [lastPlace, ← zpow_add₀ (by norm_num)]
        congr 1
        ring
    _ ≤ |q| * (10 : ℚ) ^ (1 - p : ℤ) := mul_le_mul_of_nonneg_right magnitude (zpow_nonneg (by norm_num) _)

/-- The context moves a value by at most half a unit in its last place. -/
theorem abs_sigRound_sub_le (p : ℕ) (q : ℚ) :
    |sigRound p q - q| ≤ |q| * (10 : ℚ) ^ (1 - p : ℤ) / 2 := by
  by_cases nonzero : q = 0
  · simp [nonzero]
  · have unit := lastPlace_pos p q
    have near := abs_sub_halfEven_le (q / lastPlace p q)
    have scaled : sigRound p q - q =
        -((q / lastPlace p q - halfEven (q / lastPlace p q)) * lastPlace p q) := by
      rw [sigRound, if_neg nonzero, sub_mul, div_mul_cancel₀ _ unit.ne']
      ring
    rw [scaled, abs_neg, abs_mul, abs_of_pos unit]
    calc |q / lastPlace p q - halfEven (q / lastPlace p q)| * lastPlace p q
        ≤ 1 / 2 * lastPlace p q := mul_le_mul_of_nonneg_right near unit.le
      _ ≤ 1 / 2 * (|q| * (10 : ℚ) ^ (1 - p : ℤ)) :=
          mul_le_mul_of_nonneg_left (lastPlace_le p nonzero) (by norm_num)
      _ = |q| * (10 : ℚ) ^ (1 - p : ℤ) / 2 := by ring

/-- A value of at most `p` digits is not changed. -/
theorem sigRound_exact {p : ℕ} {q : ℚ} {m e : ℤ} (value : q = m * (10 : ℚ) ^ e)
    (fits : m.natAbs < 10 ^ p) : sigRound p q = q := by
  by_cases nonzero : q = 0
  · simp [nonzero]
  have size : |q| < (10 : ℚ) ^ (p + e) := by
    rw [value, abs_mul, abs_of_pos (zpow_pos (by norm_num : (0 : ℚ) < 10) e), zpow_add₀ (by norm_num)]
    refine mul_lt_mul_of_pos_right ?_ (zpow_pos (by norm_num) _)
    rw [← Int.cast_abs, Int.abs_eq_natAbs, zpow_natCast]
    exact_mod_cast fits
  have order : Int.log 10 |q| + 1 - p ≤ e := by
    have : Int.log 10 |q| < p + e := by
      rw [← Int.lt_zpow_iff_log_lt (by norm_num) (abs_pos.mpr nonzero)]
      exact_mod_cast size
    omega
  obtain ⟨k, hk⟩ := Int.le.dest order
  have whole : q / lastPlace p q = ((m * 10 ^ k : ℤ) : ℚ) := by
    have place : (10 : ℚ) ^ e = lastPlace p q * 10 ^ k := by
      rw [lastPlace, ← zpow_natCast, ← zpow_add₀ (by norm_num), hk]
    rw [div_eq_iff (lastPlace_pos p q).ne']
    push_cast
    rw [mul_assoc, mul_comm ((10 : ℚ) ^ k), ← place, ← value]
  rw [sigRound, if_neg nonzero, whole, halfEven_intCast, ← whole,
    div_mul_cancel₀ _ (lastPlace_pos p q).ne']

theorem sigRound_nonneg (p : ℕ) {q : ℚ} (h : 0 ≤ q) : 0 ≤ sigRound p q := by
  unfold sigRound
  split
  · exact le_rfl
  · have := halfEven_nonneg (div_nonneg h (lastPlace_pos p q).le)
    exact mul_nonneg (by exact_mod_cast this) (lastPlace_pos p q).le

theorem abs_sigRound (p : ℕ) (q : ℚ) : |sigRound p q| = sigRound p |q| := by
  have unit : lastPlace p |q| = lastPlace p q := by rw [lastPlace, abs_abs, lastPlace]
  by_cases zero : q = 0
  · simp [zero]
  · rw [sigRound, sigRound, if_neg zero, if_neg (abs_ne_zero.mpr zero), abs_mul, abs_of_pos (lastPlace_pos p q), unit,
      ← Int.cast_abs, abs_halfEven, abs_div, abs_of_pos (lastPlace_pos p q)]

/-- A positive value is rounded between the powers of ten around it. -/
theorem zpow_le_sigRound {p : ℕ} (positive : 0 < p) {q : ℚ} (qpos : 0 < q) :
    (10 : ℚ) ^ Int.log 10 q ≤ sigRound p q := by
  have unit := lastPlace_pos p q
  have power : ((10 ^ (p - 1) : ℤ) : ℚ) * lastPlace p q = (10 : ℚ) ^ Int.log 10 q := by
    rw [lastPlace, abs_of_pos qpos]
    push_cast
    rw [← zpow_natCast, ← zpow_add₀ (by norm_num)]
    congr 1
    omega
  have bottom : ((10 ^ (p - 1) : ℤ) : ℚ) ≤ q / lastPlace p q := by
    rw [le_div_iff₀ unit, power]
    exact_mod_cast Int.zpow_log_le_self (b := 10) (by norm_num) qpos
  have rounded := halfEven_mono bottom
  rw [halfEven_intCast] at rounded
  rw [← power, sigRound, if_neg qpos.ne']
  exact mul_le_mul_of_nonneg_right (by exact_mod_cast rounded) unit.le

theorem sigRound_le_zpow (p : ℕ) {q : ℚ} (qpos : 0 < q) : sigRound p q ≤ (10 : ℚ) ^ (Int.log 10 q + 1) := by
  have unit := lastPlace_pos p q
  have power : ((10 ^ p : ℤ) : ℚ) * lastPlace p q = (10 : ℚ) ^ (Int.log 10 q + 1) := by
    rw [lastPlace, abs_of_pos qpos]
    push_cast
    rw [← zpow_natCast, ← zpow_add₀ (by norm_num)]
    congr 1
    ring
  have top : q / lastPlace p q ≤ ((10 ^ p : ℤ) : ℚ) := by
    rw [div_le_iff₀ unit, power]
    exact_mod_cast (Int.lt_zpow_succ_log_self (b := 10) (by norm_num) q).le
  have rounded := halfEven_mono top
  rw [halfEven_intCast] at rounded
  rw [← power, sigRound, if_neg qpos.ne']
  exact mul_le_mul_of_nonneg_right (by exact_mod_cast rounded) unit.le

/-- The context keeps the order. -/
theorem sigRound_mono {p : ℕ} (positive : 0 < p) {x y : ℚ} (nonneg : 0 ≤ x) (le : x ≤ y) :
    sigRound p x ≤ sigRound p y := by
  rcases eq_or_lt_of_le nonneg with rfl | xpos
  · rw [sigRound_zero]
    exact sigRound_nonneg p le
  have ypos : 0 < y := xpos.trans_le le
  rcases eq_or_lt_of_le (Int.log_mono_right (b := 10) xpos le) with same | less
  · have unit : lastPlace p x = lastPlace p y := by
      rw [lastPlace, lastPlace, abs_of_pos xpos, abs_of_pos ypos, same]
    have rounded := halfEven_mono (div_le_div_of_nonneg_right le (lastPlace_pos p y).le)
    rw [sigRound, sigRound, if_neg xpos.ne', if_neg ypos.ne', unit]
    exact mul_le_mul_of_nonneg_right (by exact_mod_cast rounded) (lastPlace_pos p y).le
  · -- a power of ten lies between them
    calc sigRound p x ≤ (10 : ℚ) ^ (Int.log 10 x + 1) := sigRound_le_zpow p xpos
      _ ≤ (10 : ℚ) ^ Int.log 10 y := zpow_le_zpow_right₀ (by norm_num) (by omega)
      _ ≤ sigRound p y := zpow_le_sigRound positive ypos

/-- Where a value overflows `p` digits at a fixed place, the context rounds to that very
place, so its rounding does not matter. -/
theorem halfEven_sigRound_lt {p : ℕ} (positive : 0 < p) (places : ℕ) {q : ℚ} (nonneg : 0 ≤ q) :
    halfEven (sigRound p q * 10 ^ places) < 10 ^ p ↔ q * 10 ^ places < 10 ^ p - 1 / 2 := by
  have scale : (0 : ℚ) < 10 ^ places := by positivity
  -- a power of ten keeps its value
  have power : ∀ k : ℕ, sigRound p ((10 : ℚ) ^ k / 10 ^ places) * 10 ^ places = ((10 ^ k : ℤ) : ℚ) := by
    intro k
    rw [sigRound_exact (m := 1) (e := k - places) ?_ (Nat.one_lt_pow positive.ne' (by norm_num))]
    · push_cast
      field_simp
    · rw [zpow_sub₀ (by norm_num), zpow_natCast, zpow_natCast]
      push_cast
      ring
  have even : Even ((10 : ℤ) ^ p) := (Int.even_pow.mpr ⟨by decide, positive.ne'⟩)
  rcases lt_or_ge (q * 10 ^ places) (10 ^ (p - 1)) with small | large
  · have below := sigRound_mono positive nonneg ((lt_div_iff₀ scale).mpr small).le
    have rounded := halfEven_mono (mul_le_mul_of_nonneg_right below scale.le)
    rw [power, halfEven_intCast] at rounded
    have step : (10 : ℤ) ^ p = 10 * 10 ^ (p - 1) := by
      rw [← pow_succ']
      congr 1
      omega
    have unit : (1 : ℤ) ≤ 10 ^ (p - 1) := one_le_pow₀ (by norm_num)
    refine iff_of_true (by omega) ?_
    have stepQ : (10 : ℚ) ^ p = 10 * 10 ^ (p - 1) := by exact_mod_cast step
    have unitQ : (1 : ℚ) ≤ 10 ^ (p - 1) := by exact_mod_cast unit
    linarith
  rcases lt_or_ge (q * 10 ^ places) (10 ^ p) with fits | beyond
  · have qpos : 0 < q := by
      have : (0 : ℚ) < 10 ^ (p - 1) := by positivity
      exact (mul_pos_iff_of_pos_right scale).mp (this.trans_le large)
    have log : Int.log 10 q = p - 1 - places := by
      have low : (10 : ℚ) ^ ((p : ℤ) - 1 - places) ≤ q := by
        rw [zpow_sub₀ (by norm_num), zpow_natCast, div_le_iff₀ scale]
        calc (10 : ℚ) ^ ((p : ℤ) - 1) = 10 ^ (p - 1) := by
              rw [← zpow_natCast]
              congr 1
              omega
          _ ≤ _ := large
      have high : q < (10 : ℚ) ^ ((p : ℤ) - 1 - places + 1) := by
        rw [show (p : ℤ) - 1 - places + 1 = p - places by ring, zpow_sub₀ (by norm_num), zpow_natCast, zpow_natCast,
          lt_div_iff₀ scale]
        exact fits
      have lower : (p : ℤ) - 1 - places ≤ Int.log 10 q := (Int.zpow_le_iff_le_log (by norm_num) qpos).mp low
      have upper : Int.log 10 q < (p : ℤ) - 1 - places + 1 := (Int.lt_zpow_iff_log_lt (by norm_num) qpos).mp high
      omega
    have place : lastPlace p q = 1 / 10 ^ places := by
      rw [lastPlace, abs_of_pos qpos, log, one_div, ← zpow_natCast, ← zpow_neg]
      congr 1
      ring
    have same : sigRound p q * 10 ^ places = (halfEven (q * 10 ^ places) : ℤ) := by
      rw [sigRound, if_neg qpos.ne', place, div_div_eq_mul_div, div_one]
      field_simp
    rw [same, halfEven_intCast, ← not_le, le_halfEven_iff even, not_le]
    push_cast
    rfl
  · have above := sigRound_mono positive (by positivity) ((div_le_iff₀ scale).mpr beyond)
    have rounded := halfEven_mono (mul_le_mul_of_nonneg_right above scale.le)
    rw [power, halfEven_intCast] at rounded
    refine iff_of_false (by omega) ?_
    linarith

namespace Decimal

theorem toRat_eq_zero_iff {d : Decimal} : d.toRat = 0 ↔ d.coeff = 0 := by
  simp [toRat, zpow_ne_zero]

theorem toRat_nonneg_iff {d : Decimal} : 0 ≤ d.toRat ↔ 0 ≤ d.coeff := by
  rw [toRat, mul_nonneg_iff_of_pos_right (zpow_pos (by norm_num) _), Int.cast_nonneg_iff]

theorem toRat_pos_iff {d : Decimal} : 0 < d.toRat ↔ 0 < d.coeff := by
  rw [toRat, mul_pos_iff_of_pos_right (zpow_pos (by norm_num) _), Int.cast_pos]

theorem fix_of_fits {p : ℕ} {d : Decimal} (positive : 0 < p) (fits : d.coeff.natAbs < 10 ^ p) :
    fix p d = d :=
  if_pos ((digitCount_le_iff positive).mpr fits)

theorem log_toRat {d : Decimal} (nonzero : d.coeff ≠ 0) :
    Int.log 10 |d.toRat| = Nat.log 10 d.coeff.natAbs + d.exp := by
  have n0 : d.coeff.natAbs ≠ 0 := Int.natAbs_ne_zero.mpr nonzero
  have value : |d.toRat| = (d.coeff.natAbs : ℚ) * (10 : ℚ) ^ d.exp := by
    rw [toRat, abs_mul, abs_of_pos (zpow_pos (by norm_num : (0 : ℚ) < 10) _), Nat.cast_natAbs, Int.cast_abs]
  have pos : 0 < |d.toRat| := abs_pos.mpr (mt toRat_eq_zero_iff.mp nonzero)
  have low : (10 : ℚ) ^ ((Nat.log 10 d.coeff.natAbs : ℤ) + d.exp) ≤ |d.toRat| := by
    rw [value, zpow_add₀ (by norm_num), zpow_natCast]
    refine mul_le_mul_of_nonneg_right ?_ (zpow_nonneg (by norm_num) _)
    exact_mod_cast Nat.pow_log_le_self 10 n0
  have high : |d.toRat| < (10 : ℚ) ^ ((Nat.log 10 d.coeff.natAbs : ℤ) + d.exp + 1) := by
    rw [value, show ((Nat.log 10 d.coeff.natAbs : ℤ) + d.exp + 1)
      = ((Nat.log 10 d.coeff.natAbs + 1 : ℕ) : ℤ) + d.exp by push_cast; ring,
      zpow_add₀ (by norm_num), zpow_natCast]
    refine mul_lt_mul_of_pos_right ?_ (zpow_pos (by norm_num) _)
    exact_mod_cast Nat.lt_pow_succ_log_self (b := 10) (by norm_num) d.coeff.natAbs
  apply le_antisymm
  · have := (Int.lt_zpow_iff_log_lt (b := 10) (by norm_num) pos).mp (by exact_mod_cast high)
    omega
  · exact (Int.zpow_le_iff_le_log (b := 10) (by norm_num) pos).mp (by exact_mod_cast low)

/-- `fix` is the context rounding of the value. -/
theorem fix_toRat {p : ℕ} (positive : 0 < p) (d : Decimal) : (fix p d).toRat = sigRound p d.toRat := by
  by_cases fits : digitCount d.coeff.natAbs ≤ p
  · rw [fix, if_pos fits]
    exact (sigRound_exact rfl ((digitCount_le_iff positive).mp fits)).symm
  · have nonzero : d.coeff ≠ 0 := by
      intro zero
      rw [zero] at fits
      simp [digitCount] at fits
      omega
    have place : lastPlace p d.toRat
        = (10 : ℚ) ^ (d.exp + ((digitCount d.coeff.natAbs - p : ℕ) : ℤ)) := by
      rw [lastPlace, log_toRat nonzero]
      congr 1
      rw [digitCount] at fits ⊢
      omega
    have quotient : d.toRat / lastPlace p d.toRat
        = (d.coeff : ℚ) / ((10 ^ (digitCount d.coeff.natAbs - p) : ℕ) : ℚ) := by
      rw [place, toRat, zpow_add₀ (by norm_num), zpow_natCast]
      push_cast
      field_simp
    rw [fix, if_neg fits, sigRound, if_neg (mt toRat_eq_zero_iff.mp nonzero), quotient,
      ← divHalfEven_eq _ (by positivity), place]
    rfl

theorem mul_toRat {p : ℕ} (positive : 0 < p) (a b : Decimal) :
    (mul p a b).toRat = sigRound p (a.toRat * b.toRat) := by
  rw [mul, fix_toRat positive]
  congr 1
  simp only [toRat, zpow_add₀ (show (10 : ℚ) ≠ 0 by norm_num)]
  push_cast
  ring

theorem exactAdd_toRat (a b : Decimal) : (exactAdd a b).toRat = a.toRat + b.toRat := by
  have shift : ∀ c : Decimal, ∀ e : ℤ, e ≤ c.exp →
      ((c.coeff * 10 ^ (c.exp - e).toNat : ℤ) : ℚ) * (10 : ℚ) ^ e = c.toRat := by
    intro c e le
    rw [toRat]
    push_cast
    rw [mul_assoc, ← zpow_natCast, ← zpow_add₀ (by norm_num), Int.toNat_of_nonneg (by omega)]
    congr 2
    ring
  simp only [exactAdd]
  rw [toRat]
  push_cast
  rw [add_mul]
  congr 1
  · exact_mod_cast shift a (min a.exp b.exp) (min_le_left _ _)
  · exact_mod_cast shift b (min a.exp b.exp) (min_le_right _ _)

theorem add_toRat {p : ℕ} (positive : 0 < p) (a b : Decimal) :
    (add p a b).toRat = sigRound p (a.toRat + b.toRat) := by
  rw [add, fix_toRat positive, exactAdd_toRat]

theorem sub_toRat {p : ℕ} (positive : 0 < p) (a b : Decimal) :
    (sub p a b).toRat = sigRound p (a.toRat - b.toRat) := by
  rw [sub, add_toRat positive]
  congr 1
  simp only [toRat]
  push_cast
  ring

theorem rescale_eq (d : Decimal) (e : ℤ) : d.rescale e = halfEven (d.toRat / (10 : ℚ) ^ e) := by
  unfold rescale toRat
  split
  · rename_i le
    have : (d.coeff : ℚ) * 10 ^ d.exp / 10 ^ e = ((d.coeff * 10 ^ (d.exp - e).toNat : ℤ) : ℚ) := by
      push_cast
      rw [← zpow_natCast, Int.toNat_of_nonneg (by omega), zpow_sub₀ (by norm_num)]
      ring
    rw [this, halfEven_intCast]
  · rename_i lt
    rw [divHalfEven_eq _ (by positivity)]
    congr 1
    push_cast
    rw [← zpow_natCast, Int.toNat_of_nonneg (by omega), zpow_sub₀ (by norm_num)]
    field_simp

/-- `quantize` in terms of the value: the coefficient is the rounded quotient,
and the only failure is a coefficient of more than `p` digits. -/
theorem quantize_eq {p : ℕ} (positive : 0 < p) (d : Decimal) (e : ℤ) :
    quantize p d e =
      if (halfEven (d.toRat / (10 : ℚ) ^ e)).natAbs < 10 ^ p
      then .ok ⟨halfEven (d.toRat / (10 : ℚ) ^ e), e⟩ else .error .invalidOperation := by
  simp only [quantize, rescale_eq, digitCount_le_iff positive]

theorem quantize_ok {p : ℕ} (positive : 0 < p) {d r : Decimal} {e : ℤ} (h : quantize p d e = .ok r) :
    r = ⟨halfEven (d.toRat / (10 : ℚ) ^ e), e⟩ ∧ r.coeff.natAbs < 10 ^ p := by
  rw [quantize_eq positive] at h
  split at h
  · rename_i fits
    cases h
    exact ⟨rfl, fits⟩
  · cases h

/-- A value rounded once, half-even, to `places` decimal places. -/
def rounded (places : ℕ) (q : ℚ) : Decimal := ⟨halfEven (q * 10 ^ places), -places⟩

theorem rounded_toRat (places : ℕ) (q : ℚ) : (rounded places q).toRat = halfEven (q * 10 ^ places) / 10 ^ places := by
  rw [rounded, toRat, zpow_neg, zpow_natCast]
  rfl

theorem rounded_mono (places : ℕ) {x y : ℚ} (le : x ≤ y) :
    (rounded places x).toRat ≤ (rounded places y).toRat := by
  have := halfEven_mono (mul_le_mul_of_nonneg_right le (by positivity : (0 : ℚ) ≤ 10 ^ places))
  rw [rounded_toRat, rounded_toRat]
  exact div_le_div_of_nonneg_right (by exact_mod_cast this) (by positivity)

theorem rounded_nonneg (places : ℕ) {q : ℚ} (nonneg : 0 ≤ q) : 0 ≤ (rounded places q).coeff :=
  halfEven_nonneg (mul_nonneg nonneg (by positivity))

/-- A whole bound of the scaled value bounds the coefficient. -/
theorem rounded_le {places : ℕ} {q : ℚ} {n : ℤ} (le : q * 10 ^ places ≤ n) : (rounded places q).coeff ≤ n := by
  have := halfEven_mono le
  rwa [halfEven_intCast] at this

/-- `quantize` rounds the value to the given place, unless that takes more than `p` digits. -/
theorem quantize_places {p : ℕ} (positive : 0 < p) (d : Decimal) (places : ℕ) :
    quantize p d (-places) =
      if (rounded places d.toRat).coeff.natAbs < 10 ^ p then .ok (rounded places d.toRat)
      else .error .invalidOperation := by
  have scale : d.toRat / (10 : ℚ) ^ (-places : ℤ) = d.toRat * 10 ^ places := by
    rw [zpow_neg, zpow_natCast, div_inv_eq_mul]
  rw [quantize_eq positive, scale]
  rfl

theorem log_mul_zpow {x : ℚ} (pos : 0 < x) (e : ℤ) :
    Int.log 10 (x * (10 : ℚ) ^ e) = Int.log 10 x + e := by
  have scaled : 0 < x * (10 : ℚ) ^ e := mul_pos pos (zpow_pos (by norm_num) _)
  apply le_antisymm
  · have high : x < (10 : ℚ) ^ (Int.log 10 x + 1) := by
      exact_mod_cast Int.lt_zpow_succ_log_self (b := 10) (by norm_num) x
    have : x * (10 : ℚ) ^ e < (10 : ℚ) ^ (Int.log 10 x + e + 1) := by
      rw [show Int.log 10 x + e + 1 = Int.log 10 x + 1 + e by ring, zpow_add₀ (by norm_num)]
      exact mul_lt_mul_of_pos_right high (zpow_pos (by norm_num) _)
    have := (Int.lt_zpow_iff_log_lt (b := 10) (by norm_num) scaled).mp (by exact_mod_cast this)
    omega
  · have low : (10 : ℚ) ^ Int.log 10 x ≤ x := by
      exact_mod_cast Int.zpow_log_le_self (b := 10) (by norm_num) pos
    refine (Int.zpow_le_iff_le_log (b := 10) (by norm_num) scaled).mp ?_
    push_cast
    rw [zpow_add₀ (by norm_num)]
    exact mul_le_mul_of_nonneg_right low (zpow_nonneg (by norm_num) _)

/-- Division fails exactly on a zero divisor, and otherwise is the exact
quotient rounded to the context. -/
theorem div_ok {p : ℕ} {a b : Decimal} (divisor : b.coeff ≠ 0) :
    ∃ r, div p a b = .ok r ∧ r.toRat = sigRound p (a.toRat / b.toRat) := by
  by_cases zero : a.coeff = 0
  · refine ⟨⟨0, a.exp - b.exp⟩, by rw [div, if_neg divisor, if_pos zero], ?_⟩
    simp [toRat, zero]
  refine ⟨_, by rw [div, if_neg divisor, if_neg zero], ?_⟩
  have a0 : (a.coeff : ℚ) ≠ 0 := by exact_mod_cast zero
  have b0 : (b.coeff : ℚ) ≠ 0 := by exact_mod_cast divisor
  set ratio : ℚ := (a.coeff : ℚ) / b.coeff with ratioDef
  set shift : ℤ := p - Int.log 10 |ratio| - 1 with shiftDef
  have value : a.toRat / b.toRat = ratio * (10 : ℚ) ^ (a.exp - b.exp) := by
    rw [toRat, toRat, zpow_sub₀ (by norm_num), ratioDef]
    field_simp
  have place : lastPlace p (a.toRat / b.toRat) = (10 : ℚ) ^ (a.exp - b.exp - shift) := by
    rw [lastPlace, value, abs_mul, abs_of_pos (zpow_pos (by norm_num : (0 : ℚ) < 10) _),
      log_mul_zpow (abs_pos.mpr (div_ne_zero a0 b0)), shiftDef]
    congr 1
    ring
  have quotient : a.toRat / b.toRat / lastPlace p (a.toRat / b.toRat) = ratio * (10 : ℚ) ^ shift := by
    rw [place, value, zpow_sub₀ (show (10 : ℚ) ≠ 0 by norm_num) (a.exp - b.exp) shift]
    field_simp
  have signed : (if b.coeff < 0 then -1 else 1 : ℚ) / (b.coeff.natAbs : ℚ) = 1 / b.coeff := by
    rw [Nat.cast_natAbs, Int.cast_abs]
    split
    · rename_i neg
      rw [abs_of_neg (by exact_mod_cast neg), neg_div_neg_eq]
    · rename_i nonneg
      rw [abs_of_nonneg (by exact_mod_cast not_lt.mp nonneg)]
  have fraction : (((if b.coeff < 0 then -1 else 1) * a.coeff * 10 ^ shift.toNat : ℤ) : ℚ) /
      ((b.coeff.natAbs * 10 ^ (-shift).toNat : ℕ) : ℚ) = ratio * (10 : ℚ) ^ shift := by
    have power : (10 : ℚ) ^ shift = 10 ^ shift.toNat / 10 ^ (-shift).toNat := by
      rw [← zpow_natCast, ← zpow_natCast, ← zpow_sub₀ (by norm_num)]
      congr 1
      omega
    push_cast
    rw [power, ratioDef, div_eq_mul_one_div (a.coeff : ℚ), ← signed]
    field_simp
  have nonzero : a.toRat / b.toRat ≠ 0 := by
    rw [value]
    exact mul_ne_zero (div_ne_zero a0 b0) (zpow_ne_zero _ (by norm_num))
  rw [sigRound, if_neg nonzero, quotient, place, ← fraction, ← divHalfEven_eq _ (by positivity)]
  rfl

end Decimal

end FxEngine.Numeric
