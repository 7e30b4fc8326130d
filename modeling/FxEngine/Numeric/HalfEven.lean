import Mathlib

/-! # Rounding to the nearest integer, ties to even

`halfEven` is the rounding rule itself, over any ordered field with a floor.
`divHalfEven` is the same rule on a quotient of integers, computed from the
integer quotient and remainder only.
-/

namespace FxEngine.Numeric

section Field

variable {K : Type*} [Field K] [LinearOrder K] [IsStrictOrderedRing K] [FloorRing K]

/-- The integer nearest to `q`; of two equally near ones, the even one. -/
def halfEven (q : K) : ℤ :=
  if q - ⌊q⌋ < 1 / 2 then ⌊q⌋
  else if 1 / 2 < q - ⌊q⌋ then ⌊q⌋ + 1
  else if Even ⌊q⌋ then ⌊q⌋ else ⌊q⌋ + 1

theorem abs_sub_halfEven_le (q : K) : |q - halfEven q| ≤ 1 / 2 := by
  have low := Int.floor_le q
  have high := Int.lt_floor_add_one q
  unfold halfEven
  split
  · rw [abs_of_nonneg (by linarith)]; linarith
  · split
    · push_cast; rw [abs_of_nonpos (by linarith)]; linarith
    · have middle : q - ⌊q⌋ = 1 / 2 := by linarith
      split
      · rw [middle]; norm_num
      · push_cast
        rw [show q - ((⌊q⌋ : K) + 1) = -(1 / 2) by linarith]
        norm_num

/-- A tie is only ever resolved to an even integer. -/
theorem halfEven_even_of_tie {q : K} (tie : |q - halfEven q| = 1 / 2) : Even (halfEven q) := by
  have low := Int.floor_le q
  have high := Int.lt_floor_add_one q
  unfold halfEven at tie ⊢
  split_ifs at tie ⊢ with below above even
  · rw [abs_of_nonneg (by linarith)] at tie
    linarith
  · push_cast at tie
    rw [abs_of_nonpos (by linarith)] at tie
    linarith
  · exact even
  · exact (Int.not_even_iff_odd.mp even).add_one

/-- The rule, without the floor: nearest, and even at a tie. -/
theorem halfEven_eq_iff {q : K} {n : ℤ} :
    halfEven q = n ↔ |q - n| < 1 / 2 ∨ (|q - n| = 1 / 2 ∧ Even n) := by
  constructor
  · rintro rfl
    rcases lt_or_eq_of_le (abs_sub_halfEven_le q) with near | tie
    · exact .inl near
    · exact .inr ⟨tie, halfEven_even_of_tie tie⟩
  · intro h
    have close := abs_le.mp (abs_sub_halfEven_le q)
    have bound : |q - n| ≤ 1 / 2 := h.elim le_of_lt (fun t => t.1.le)
    have near := abs_le.mp bound
    have le : halfEven q ≤ n + 1 := by
      have : (halfEven q : K) ≤ ((n + 1 : ℤ) : K) := by push_cast; linarith [close.1, near.2]
      exact_mod_cast this
    have ge : n - 1 ≤ halfEven q := by
      have : (((n - 1 : ℤ)) : K) ≤ (halfEven q : K) := by push_cast; linarith [close.2, near.1]
      exact_mod_cast this
    -- Off by one means that `q` lies exactly between two integers, both of them even.
    by_contra different
    have tie : |q - halfEven q| = 1 / 2 ∧ |q - n| = 1 / 2 := by
      rcases (show halfEven q = n + 1 ∨ halfEven q = n - 1 by omega) with up | down
      · rw [up] at close ⊢
        push_cast at close ⊢
        have : q = n + 1 / 2 := by linarith [close.1, close.2, near.1, near.2]
        constructor <;> rw [this, abs_eq (by norm_num)]
        · right; ring
        · left; ring
      · rw [down] at close ⊢
        push_cast at close ⊢
        have : q = n - 1 / 2 := by linarith [close.1, close.2, near.1, near.2]
        constructor <;> rw [this, abs_eq (by norm_num)]
        · left; ring
        · right; ring
    have evenN : Even n := h.elim (fun lt => absurd tie.2 lt.ne) (fun t => t.2)
    have evenR := halfEven_even_of_tie tie.1
    rw [Int.even_iff] at evenN evenR
    omega

@[simp] theorem halfEven_intCast (n : ℤ) : halfEven (n : K) = n :=
  halfEven_eq_iff.mpr (.inl (by simp))

@[simp] theorem halfEven_zero : halfEven (0 : K) = 0 := by
  simpa only [Int.cast_zero] using halfEven_intCast (K := K) 0

theorem halfEven_neg (q : K) : halfEven (-q) = -halfEven q := by
  have mirrored : |-q - ((-halfEven q : ℤ) : K)| = |q - halfEven q| := by
    push_cast
    rw [← abs_neg]
    ring_nf
  have rule := halfEven_eq_iff.mp (rfl : halfEven q = halfEven q)
  rw [← mirrored, ← even_neg] at rule
  exact halfEven_eq_iff.mpr rule

theorem halfEven_mono : Monotone (halfEven : K → ℤ) := by
  intro a b ab
  by_contra less
  rw [not_le] at less
  have nearA := abs_le.mp (abs_sub_halfEven_le a)
  have nearB := abs_le.mp (abs_sub_halfEven_le b)
  have step : (halfEven b : K) + 1 ≤ halfEven a := by exact_mod_cast less
  -- Both sit on the one tie between `halfEven b` and its successor.
  have eqA : a - halfEven a = -(1 / 2) := by linarith [nearA.1, nearB.2]
  have eqB : b - halfEven b = 1 / 2 := by linarith [nearA.1, nearB.2]
  have evenA := halfEven_even_of_tie (q := a) (by rw [eqA]; norm_num)
  have evenB := halfEven_even_of_tie (q := b) (by rw [eqB]; norm_num)
  have next : halfEven a = halfEven b + 1 := by
    have : (halfEven a : K) = ((halfEven b + 1 : ℤ) : K) := by push_cast; linarith
    exact_mod_cast this
  rw [Int.even_iff] at evenA evenB
  omega

theorem halfEven_nonneg {q : K} (h : 0 ≤ q) : 0 ≤ halfEven q := by
  simpa only [halfEven_zero] using halfEven_mono h

theorem abs_halfEven (q : K) : |halfEven q| = halfEven |q| := by
  rcases le_total 0 q with nonneg | nonpos
  · rw [abs_of_nonneg nonneg, abs_of_nonneg (halfEven_nonneg nonneg)]
  · have flipped : 0 ≤ halfEven (-q) := halfEven_nonneg (neg_nonneg.mpr nonpos)
    rw [abs_of_nonpos nonpos, ← abs_neg, ← halfEven_neg, abs_of_nonneg flipped]

/-- Half a unit is a tie and rounds to zero, so a positive result needs more. -/
theorem halfEven_pos_iff {q : K} : 0 < halfEven q ↔ 1 / 2 < q := by
  constructor
  · intro positive
    by_contra small
    rw [not_lt] at small
    have tie : halfEven (1 / 2 : K) = 0 :=
      halfEven_eq_iff.mpr (.inr ⟨by norm_num, Even.zero⟩)
    have := halfEven_mono small
    omega
  · intro large
    have near := abs_le.mp (abs_sub_halfEven_le q)
    have : (0 : K) < halfEven q := by linarith [near.2]
    exact_mod_cast this

/-- The tie below an even number goes up to it. -/
theorem le_halfEven_iff {q : K} {n : ℤ} (even : Even n) : n ≤ halfEven q ↔ n - 1 / 2 ≤ q := by
  constructor
  · intro reached
    have near := abs_le.mp (abs_sub_halfEven_le q)
    have : (n : K) ≤ halfEven q := by exact_mod_cast reached
    linarith [near.1]
  · intro large
    have tie : halfEven ((n : K) - 1 / 2) = n := halfEven_eq_iff.mpr (.inr ⟨by norm_num, even⟩)
    have := halfEven_mono large
    omega

/-- Two values round alike as soon as no tie point separates them. -/
theorem halfEven_eq_of_error {q q' : K} {n : ℤ} (rounded : halfEven q = n)
    (low : (n : K) - 1 / 2 < q → (n : K) - 1 / 2 < q')
    (high : q < (n : K) + 1 / 2 → q' < (n : K) + 1 / 2)
    (tieLow : q = (n : K) - 1 / 2 → q' = q) (tieHigh : q = (n : K) + 1 / 2 → q' = q) :
    halfEven q' = n := by
  rcases halfEven_eq_iff.mp rounded with near | ⟨tie, even⟩
  · rw [abs_lt] at near
    refine halfEven_eq_iff.mpr (.inl (abs_lt.mpr ⟨?_, ?_⟩))
    · linarith [low (by linarith [near.1])]
    · linarith [high (by linarith [near.2])]
  · rw [abs_eq (by norm_num)] at tie
    have same : q' = q := tie.elim (fun h => tieHigh (by linarith)) (fun h => tieLow (by linarith))
    rw [same, rounded]

/-- Near a fraction `a / n` there is no tie but possibly the fraction itself. -/
theorem halfEven_near_fraction {a : ℤ} {n : ℕ} (positive : 0 < n) {q : K} (near : |q - a / n| < 1 / (2 * n))
    (tie : ∀ k : ℤ, (a : K) / n = k + 1 / 2 → q = a / n) : halfEven q = halfEven ((a : K) / n) := by
  have n0 : (0 : K) < n := by exact_mod_cast positive
  rw [abs_lt] at near
  -- the distance of the fraction from a tie is a multiple of `1 / (2 * n)`
  have gap : ∀ k : ℤ, (a : K) / n - (k + 1 / 2) = ((2 * a - (2 * k + 1) * n : ℤ) : K) * (1 / (2 * n)) := by
    intro k
    push_cast
    field_simp
  have above : ∀ k : ℤ, (k : K) + 1 / 2 < a / n → (k : K) + 1 / 2 < q := by
    intro k less
    have steps : 0 < 2 * a - (2 * k + 1) * n := by
      have : 0 < ((2 * a - (2 * k + 1) * n : ℤ) : K) * (1 / (2 * n)) := by rw [← gap]; linarith
      exact_mod_cast pos_of_mul_pos_left this (by positivity)
    have far : 1 * (1 / (2 * n)) ≤ (a : K) / n - (k + 1 / 2) := by
      rw [gap]
      exact mul_le_mul_of_nonneg_right (by exact_mod_cast steps) (by positivity)
    linarith [near.1]
  have below : ∀ k : ℤ, (a : K) / n < k + 1 / 2 → q < k + 1 / 2 := by
    intro k less
    have steps : 2 * a - (2 * k + 1) * n < 0 := by
      have : ((2 * a - (2 * k + 1) * n : ℤ) : K) * (1 / (2 * n)) < 0 := by rw [← gap]; linarith
      exact_mod_cast neg_of_mul_neg_left this (by positivity)
    have far : (a : K) / n - (k + 1 / 2) ≤ -1 * (1 / (2 * n)) := by
      rw [gap]
      exact mul_le_mul_of_nonneg_right (by exact_mod_cast (by omega : _ ≤ (-1 : ℤ))) (by positivity)
    linarith [near.2]
  have shift : ∀ k : ℤ, (k : K) - 1 / 2 = ((k - 1 : ℤ) : K) + 1 / 2 := by
    intro k
    push_cast
    ring
  refine halfEven_eq_of_error rfl ?_ (below _) ?_ (tie _)
  · rw [shift]
    exact above _
  · rw [shift]
    exact tie _

end Field

/-- `n / d` rounded half-even, by integer division. -/
def divHalfEven (n : ℤ) (d : ℕ) : ℤ :=
  if 2 * (n % d) < d then n / d
  else if (d : ℤ) < 2 * (n % d) then n / d + 1
  else if Even (n / d) then n / d else n / d + 1

theorem divHalfEven_eq (n : ℤ) {d : ℕ} (positive : 0 < d) :
    divHalfEven n d = halfEven ((n : ℚ) / d) := by
  have dpos : (0 : ℚ) < d := by exact_mod_cast positive
  have split : (n : ℚ) = d * ((n / d : ℤ) : ℚ) + ((n % d : ℤ) : ℚ) := by
    exact_mod_cast (Int.mul_ediv_add_emod n d).symm
  have floor : ⌊(n : ℚ) / d⌋ = n / d := by
    rw [Rat.floor_intCast_div_natCast]
  have fraction : (n : ℚ) / d - ⌊(n : ℚ) / d⌋ = ((n % d : ℤ) : ℚ) / d := by
    rw [floor]
    field_simp
    linarith
  have less : (n : ℚ) / d - ⌊(n : ℚ) / d⌋ < 1 / 2 ↔ 2 * (n % d) < (d : ℤ) := by
    rw [fraction, div_lt_div_iff₀ dpos two_pos]
    rw [show ((n % d : ℤ) : ℚ) * 2 = ((2 * (n % d) : ℤ) : ℚ) by push_cast; ring, one_mul]
    exact_mod_cast Iff.rfl
  have more : 1 / 2 < (n : ℚ) / d - ⌊(n : ℚ) / d⌋ ↔ (d : ℤ) < 2 * (n % d) := by
    rw [fraction, div_lt_div_iff₀ two_pos dpos]
    rw [show ((n % d : ℤ) : ℚ) * 2 = ((2 * (n % d) : ℤ) : ℚ) by push_cast; ring, one_mul]
    exact_mod_cast Iff.rfl
  unfold divHalfEven halfEven
  rw [if_congr less rfl rfl, if_congr more rfl rfl, floor]

end FxEngine.Numeric
