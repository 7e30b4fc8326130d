import FxEngine.Numeric.Decimal

/-! # Rounding twice

A value that is rounded to a fine grid first and to a coarse one afterwards ends where
one rounding ends, unless the first rounding lands on a tie of the coarse grid from the
wrong side.
-/

namespace FxEngine.Numeric

section Field

variable {K : Type*} [Field K] [LinearOrder K] [IsStrictOrderedRing K] [FloorRing K]

/-- Just above a tie the upper neighbour is nearest. -/
theorem halfEven_above {q : K} {k : ℤ} (above : (k : K) + 1 / 2 < q) (near : q < (k : K) + 3 / 2) :
    halfEven q = k + 1 := by
  refine halfEven_eq_iff.mpr (.inl (abs_lt.mpr ⟨?_, ?_⟩)) <;> push_cast <;> linarith

/-- Just below it, the lower one. -/
theorem halfEven_below {q : K} {k : ℤ} (below : q < (k : K) + 1 / 2) (near : (k : K) - 1 / 2 < q) :
    halfEven q = k := by
  refine halfEven_eq_iff.mpr (.inl (abs_lt.mpr ⟨?_, ?_⟩)) <;> linarith

/-- On a tie, the even one. -/
theorem halfEven_tie (k : ℤ) : halfEven ((k : K) + 1 / 2) = if Even k then k else k + 1 := by
  split
  · rename_i even
    exact halfEven_eq_iff.mpr (.inr ⟨by rw [add_sub_cancel_left]; norm_num, even⟩)
  · rename_i odd
    refine halfEven_eq_iff.mpr (.inr ⟨?_, (Int.not_even_iff_odd.mp odd).add_one⟩)
    push_cast
    rw [show (k : K) + 1 / 2 - (k + 1) = -(1 / 2) by ring]
    norm_num

variable {h : ℕ} (positive : 0 < h) {q : K} {k : ℤ}

include positive

/-- Ties are points of the grid with `2 * h` steps in a unit. -/
theorem scaled_lt_tie : 2 * h * q < (2 * k + 1) * h ↔ q < k + 1 / 2 := by
  have h0 : (0 : K) < h := by exact_mod_cast positive
  rw [show (2 * k + 1) * h = 2 * h * ((k : K) + 1 / 2) by ring]
  exact mul_lt_mul_iff_of_pos_left (by positivity)

theorem tie_lt_scaled : (2 * k + 1) * h < 2 * h * q ↔ (k : K) + 1 / 2 < q := by
  have h0 : (0 : K) < h := by exact_mod_cast positive
  rw [show (2 * k + 1) * h = 2 * h * ((k : K) + 1 / 2) by ring]
  exact mul_lt_mul_iff_of_pos_left (by positivity)

theorem scaled_eq_tie : 2 * h * q = (2 * k + 1) * h ↔ q = k + 1 / 2 := by
  have h0 : (0 : K) < h := by exact_mod_cast positive
  rw [show (2 * k + 1) * h = 2 * h * ((k : K) + 1 / 2) by ring]
  exact mul_right_inj' (by positivity)

omit positive in
theorem halfEven_grid : halfEven ((2 * k + 1) * h : K) = (2 * k + 1) * h := by
  rw [show ((2 * k + 1) * h : K) = ((2 * k + 1) * h : ℤ) by push_cast; rfl, halfEven_intCast]

/-- The first rounding, to `2 * h` steps in a unit, carries `q` onto a tie from the side
on which the tie is not resolved. -/
def Misled (h : ℕ) (q : K) : Prop :=
  ∃ k : ℤ, halfEven ((2 * h : ℕ) * q) = (2 * k + 1) * h ∧ q + q ≠ (2 * k + 1 : ℤ) ∧
    ((2 * k + 1 : ℤ) < q + q ↔ Even k)

omit positive in
theorem misled_def : Misled h q ↔
    ∃ k : ℤ, halfEven (2 * h * q) = (2 * k + 1) * h ∧ q ≠ k + 1 / 2 ∧ (k + 1 / 2 < q ↔ Even k) := by
  have same : ∀ k : ℤ, q + q = (2 * k + 1 : ℤ) ↔ q = k + 1 / 2 := by
    intro k
    push_cast
    constructor <;> intro tie <;> linarith
  have side : ∀ k : ℤ, ((2 * k + 1 : ℤ) : K) < q + q ↔ k + 1 / 2 < q := by
    intro k
    push_cast
    constructor <;> intro above <;> linarith
  simp only [Misled, ne_eq, same, side, Nat.cast_mul, Nat.cast_ofNat]

/-- What the first rounding carries onto a tie was near it. -/
theorem near_tie (onTie : halfEven (2 * h * q) = (2 * k + 1) * h) : (k : K) - 1 / 2 < q ∧ q < k + 3 / 2 := by
  have h1 : (1 : K) ≤ h := by exact_mod_cast positive
  have close := abs_le.mp (abs_sub_halfEven_le (2 * h * q))
  rw [onTie] at close
  push_cast at close
  have low : (2 * ((k - 1 : ℤ) : K) + 1) * h < 2 * h * q := by
    push_cast
    linarith [close.1]
  have high : 2 * h * q < (2 * ((k + 1 : ℤ) : K) + 1) * h := by
    push_cast
    linarith [close.2]
  rw [tie_lt_scaled positive] at low
  rw [scaled_lt_tie positive] at high
  push_cast at low high
  exact ⟨by linarith, by linarith⟩

/-- Off the ties, both roundings keep to one side of each tie. -/
theorem halfEven_twice_off (off : ∀ k : ℤ, halfEven (2 * h * q) ≠ (2 * k + 1) * h) :
    halfEven ((halfEven (2 * h * q) : K) / (2 * h)) = halfEven q := by
  have h0 : (0 : K) < h := by exact_mod_cast positive
  have scaled : 2 * h * ((halfEven (2 * h * q) : K) / (2 * h)) = halfEven (2 * h * q) :=
    mul_div_cancel₀ _ (by positivity)
  set fine := halfEven (2 * h * q) with fineDef
  have below : ∀ k : ℤ, (fine : K) / (2 * h) < k + 1 / 2 → q < k + 1 / 2 := by
    intro k less
    rw [← scaled_lt_tie positive, scaled] at less
    rw [← scaled_lt_tie positive]
    by_contra above
    have grid := halfEven_mono (not_lt.mp above)
    rw [halfEven_grid, ← fineDef] at grid
    exact absurd (by exact_mod_cast less) (not_lt.mpr grid)
  have above : ∀ k : ℤ, k + 1 / 2 < (fine : K) / (2 * h) → k + 1 / 2 < q := by
    intro k less
    rw [← tie_lt_scaled positive, scaled] at less
    rw [← tie_lt_scaled positive]
    by_contra below
    have grid := halfEven_mono (not_lt.mp below)
    rw [halfEven_grid, ← fineDef] at grid
    exact absurd (by exact_mod_cast less) (not_lt.mpr grid)
  have strict : ∀ k : ℤ, (fine : K) / (2 * h) ≠ k + 1 / 2 := by
    intro k same
    rw [← scaled_eq_tie positive, scaled] at same
    exact off k (by exact_mod_cast same)
  set m := halfEven ((fine : K) / (2 * h)) with nearest
  have close := abs_le.mp (abs_sub_halfEven_le ((fine : K) / (2 * h)))
  rw [← nearest] at close
  have low := above (m - 1) (lt_of_le_of_ne (by push_cast; linarith [close.1]) (Ne.symm (strict _)))
  have high := below m (lt_of_le_of_ne (by linarith [close.2]) (strict _))
  push_cast at low
  exact (halfEven_below high (by linarith)).symm

/-- Rounding twice is rounding once, exactly when the first rounding does not mislead. -/
theorem halfEven_twice_iff :
    halfEven ((halfEven (2 * h * q) : K) / (2 * h)) = halfEven q ↔ ¬ Misled h q := by
  have h0 : (0 : K) < h := by exact_mod_cast positive
  by_cases tied : ∃ k : ℤ, halfEven (2 * h * q) = (2 * k + 1) * h
  · obtain ⟨k, onTie⟩ := tied
    obtain ⟨low, high⟩ := near_tie positive onTie
    have twice : (halfEven (2 * h * q) : K) / (2 * h) = k + 1 / 2 := by
      rw [← scaled_eq_tie positive, mul_div_cancel₀ _ (by positivity), onTie]
      push_cast
      rfl
    have only : ∀ {j : ℤ}, halfEven (2 * h * q) = (2 * j + 1) * h → j = k := by
      intro j other
      have := mul_right_cancel₀ (by exact_mod_cast positive.ne') (other.symm.trans onTie)
      omega
    have misled : Misled h q ↔ q ≠ k + 1 / 2 ∧ (k + 1 / 2 < q ↔ Even k) := by
      rw [misled_def]
      constructor
      · rintro ⟨j, other, rest⟩
        exact only other ▸ rest
      · exact fun rest => ⟨k, onTie, rest⟩
    rw [misled, twice, halfEven_tie]
    rcases lt_trichotomy q (k + 1 / 2) with below | same | above
    · rw [halfEven_below below low]
      have behind := not_lt.mpr below.le
      grind
    · rw [same, halfEven_tie]
      grind
    · rw [halfEven_above above high]
      grind
  · push Not at tied
    have sound : ¬ Misled h q := by
      rw [misled_def]
      rintro ⟨k, onTie, -⟩
      exact tied k onTie
    exact iff_of_true (halfEven_twice_off positive tied) sound

end Field

/-! ## Rounding to a context, then to a place -/

/-- Rounding `n` to `p` digits carries it onto a tie of the `e`-th place, from the side on
which the tie is not resolved. -/
def Straddles (p e : ℕ) (n : ℤ) : Prop :=
  let k := n / 10 ^ e
  let tie := (2 * k + 1) * (5 * 10 ^ (e - 1))
  n ≠ tie ∧ 2 * |n - tie| ≤ 10 ^ (digitCount n.natAbs - p) ∧ (tie < n ↔ Even k)

instance (p e : ℕ) (n : ℤ) : Decidable (Straddles p e n) := inferInstanceAs (Decidable (_ ∧ _ ∧ _))

/-- What fits the context is not rounded by it. -/
theorem not_straddles_of_fits {p e : ℕ} {n : ℤ} (fits : digitCount n.natAbs ≤ p) : ¬ Straddles p e n := by
  rintro ⟨off, near, -⟩
  rw [Nat.sub_eq_zero_of_le fits, pow_zero] at near
  refine off (sub_eq_zero.mp (abs_eq_zero.mp ?_))
  have := abs_nonneg (n - (2 * (n / 10 ^ e) + 1) * (5 * 10 ^ (e - 1)))
  omega

/-- With enough places left, this is the way the first of the two roundings misleads. -/
theorem misled_iff {p e : ℕ} {n : ℤ} (room : digitCount n.natAbs - p + 2 ≤ e) :
    Misled (5 * 10 ^ (e - (digitCount n.natAbs - p) - 1)) ((n : ℚ) / 10 ^ e) ↔ Straddles p e n := by
  rw [misled_def]
  unfold Straddles
  generalize digitCount n.natAbs - p = d at room ⊢
  obtain ⟨j, rfl⟩ : ∃ j, e = d + (j + 2) := ⟨e - d - 2, by omega⟩
  have steps : d + (j + 2) - d - 1 = j + 1 := by omega
  have last : d + (j + 2) - 1 = j + 1 + d := by omega
  rw [steps, last]
  have tens : (10 : ℚ) ^ (d + (j + 2)) = 2 * (5 * 10 ^ (j + 1)) * 10 ^ d := by ring
  have unit : (0 : ℚ) < 10 ^ d := by positivity
  have fine : 2 * ((5 * 10 ^ (j + 1) : ℕ) : ℚ) * ((n : ℚ) / 10 ^ (d + (j + 2))) = n / 10 ^ d := by
    rw [tens]
    push_cast
    field_simp
  -- a tie is an even point of the fine grid
  have carried : ∀ k : ℤ, halfEven ((n : ℚ) / 10 ^ d) = (2 * k + 1) * (5 * 10 ^ (j + 1) : ℕ) ↔
      2 * |n - (2 * k + 1) * (5 * 10 ^ (j + 1 + d))| ≤ 10 ^ d := by
    intro k
    have even : Even ((2 * k + 1) * (5 * 10 ^ (j + 1) : ℕ)) := by
      refine Even.mul_left ?_ _
      push_cast
      exact (Int.even_pow.mpr ⟨by decide, by omega⟩ : Even ((10 : ℤ) ^ (j + 1))).mul_left 5
    have distance : |(n : ℚ) / 10 ^ d - ((2 * k + 1) * (5 * 10 ^ (j + 1) : ℕ) : ℤ)| =
        |((n - (2 * k + 1) * (5 * 10 ^ (j + 1 + d)) : ℤ) : ℚ)| / 10 ^ d := by
      rw [← abs_of_pos unit, ← abs_div, abs_of_pos unit]
      congr 1
      push_cast
      field_simp
      ring
    rw [halfEven_eq_iff, distance, and_iff_left even, ← le_iff_lt_or_eq, div_le_div_iff₀ unit two_pos]
    rw [← Int.cast_abs, one_mul, mul_comm]
    exact_mod_cast Iff.rfl
  have place : ∀ k : ℤ, (k : ℚ) + 1 / 2 = ((2 * k + 1) * (5 * 10 ^ (j + 1 + d)) : ℤ) / 10 ^ (d + (j + 2)) := by
    intro k
    rw [tens]
    push_cast
    field_simp
    ring
  have whole : (0 : ℚ) < 10 ^ (d + (j + 2)) := by positivity
  have same : ∀ k : ℤ, (n : ℚ) / 10 ^ (d + (j + 2)) ≠ k + 1 / 2 ↔ n ≠ (2 * k + 1) * (5 * 10 ^ (j + 1 + d)) := by
    intro k
    rw [place, ne_eq, div_left_inj' whole.ne', Int.cast_inj]
  have side : ∀ k : ℤ, (k : ℚ) + 1 / 2 < (n : ℚ) / 10 ^ (d + (j + 2)) ↔
      (2 * k + 1) * (5 * 10 ^ (j + 1 + d)) < n := by
    intro k
    rw [place, div_lt_div_iff_of_pos_right whole, Int.cast_lt]
  rw [fine]
  simp only [carried, same, side]
  constructor
  · rintro ⟨k, near, off, resolved⟩
    have quotient : n / 10 ^ (d + (j + 2)) = k := by
      have small : (10 : ℤ) ^ d ≤ 10 ^ (j + 1 + d) := pow_le_pow_right₀ (by norm_num) (by omega)
      have large : (0 : ℤ) < 10 ^ d := by positivity
      have close := abs_le.mp (show |n - (2 * k + 1) * (5 * 10 ^ (j + 1 + d))| ≤ 10 ^ (j + 1 + d) by linarith)
      rw [show (10 : ℤ) ^ (d + (j + 2)) = 10 * 10 ^ (j + 1 + d) by ring]
      refine le_antisymm (Int.lt_add_one_iff.mp (Int.ediv_lt_of_lt_mul (by positivity) ?_))
        (Int.le_ediv_of_mul_le (by positivity) ?_) <;> linarith [close.1, close.2]
    rw [quotient]
    exact ⟨off, near, resolved⟩
  · rintro ⟨off, near, resolved⟩
    exact ⟨_, near, off, resolved⟩

/-- A product of integers, rounded to `p` digits and then to a place, is rounded once
exactly when it does not straddle a tie. -/
theorem fix_rescale_iff {p e : ℕ} {n x : ℤ} (room : digitCount n.natAbs - p + 2 ≤ e) :
    (Decimal.fix p ⟨n, x⟩).rescale (x + e) = halfEven ((n : ℚ) / 10 ^ e) ↔ ¬ Straddles p e n := by
  rw [← misled_iff room]
  set d := digitCount n.natAbs - p with dropped
  obtain ⟨j, rfl⟩ : ∃ j, e = d + (j + 2) := ⟨e - d - 2, by omega⟩
  have positive : 0 < 5 * 10 ^ (d + (j + 2) - d - 1) := by positivity
  rw [← halfEven_twice_iff positive, Decimal.rescale_eq]
  have steps : d + (j + 2) - d - 1 = j + 1 := by omega
  have grid : 2 * ((5 * 10 ^ (j + 1) : ℕ) : ℚ) = 10 ^ (j + 2) := by
    push_cast
    ring
  have first : (10 : ℚ) ^ (j + 2) * ((n : ℚ) / 10 ^ (d + (j + 2))) = n / 10 ^ d := by
    rw [pow_add 10 d]
    field_simp
  rw [steps, grid, first]
  have value : (Decimal.fix p ⟨n, x⟩).toRat = halfEven ((n : ℚ) / 10 ^ d) * 10 ^ d * (10 : ℚ) ^ x := by
    by_cases fits : digitCount n.natAbs ≤ p
    · have none : d = 0 := by omega
      rw [Decimal.fix, if_pos fits, none, pow_zero, div_one, halfEven_intCast, mul_one]
      rfl
    · rw [Decimal.fix, if_neg fits]
      change ((divHalfEven n (10 ^ d) : ℤ) : ℚ) * (10 : ℚ) ^ (x + d) = _
      rw [divHalfEven_eq _ (by positivity), zpow_add₀ (by norm_num), zpow_natCast]
      push_cast
      ring
  have quotient : (Decimal.fix p ⟨n, x⟩).toRat / (10 : ℚ) ^ (x + ((d + (j + 2) : ℕ) : ℤ)) =
      (halfEven ((n : ℚ) / 10 ^ d) : ℚ) / 10 ^ (j + 2) := by
    rw [value, zpow_add₀ (by norm_num), zpow_natCast, pow_add 10 d]
    field_simp
  rw [quotient]

end FxEngine.Numeric
