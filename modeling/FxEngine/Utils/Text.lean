import FxEngine.Utils.Money

/-! # Text forms of decimals and identifiers

`format(value, "f")`, `str(value)` and `Decimal(text)` for decimals, `str` and
`UUID(text)` for identifiers. A whole number of cents survives the trip through
its text, and so does every identifier.
-/

namespace FxEngine

open Numeric

/-! ## Decimals -/

/-- What `Decimal(text)` can build: finite numbers and the specials. -/
inductive PyDecimal where
  | finite (d : Decimal)
  | infinity (negative : Bool)
  | nan
  deriving DecidableEq, Repr

/-- Digits with a point before the last `places` of them, padded with zeros. -/
def pointed (n places : ℕ) : List Char :=
  let digits := Nat.toDigits 10 n
  let padded := List.replicate (places + 1 - digits.length) '0' ++ digits
  padded.take (padded.length - places) ++ '.' :: padded.drop (padded.length - places)

/-- `format(value, "f")`. -/
def formatChars (d : Decimal) : List Char :=
  (if d.coeff < 0 then ['-'] else []) ++
    if 0 ≤ d.exp then Nat.toDigits 10 (d.coeff.natAbs * 10 ^ d.exp.toNat)
    else pointed d.coeff.natAbs (-d.exp).toNat

def decimalToStr (value : Decimal) : String := String.ofList (formatChars value)

/-- `str(value)`: the same digits, in scientific notation for a positive
exponent or more than six leading zeros. -/
def Numeric.Decimal.str (d : Decimal) : String :=
  let digits := Nat.toDigits 10 d.coeff.natAbs
  let adjusted : ℤ := d.exp + digits.length
  if d.exp ≤ 0 ∧ -6 < adjusted then decimalToStr d
  else
    let mantissa := match digits with
      | lead :: (next :: rest) => lead :: '.' :: next :: rest
      | short => short
    let exponent := adjusted - 1
    String.ofList ((if d.coeff < 0 then ['-'] else []) ++ mantissa ++ 'E' ::
      (if exponent < 0 then '-' else '+') :: Nat.toDigits 10 exponent.natAbs)

/-- An optional sign. -/
def splitSign : List Char → Bool × List Char
  | '-' :: cs => (true, cs)
  | '+' :: cs => (false, cs)
  | cs => (false, cs)

/-- Digits with an optional point and an optional exponent. -/
def parseNumber (cs : List Char) : Option (ℕ × ℤ) :=
  let whole := cs.takeWhile Char.isDigit
  let rest := cs.dropWhile Char.isDigit
  let frac := match rest with
    | '.' :: r => r.takeWhile Char.isDigit
    | _ => []
  let tail := match rest with
    | '.' :: r => r.dropWhile Char.isDigit
    | r => r
  if whole = [] ∧ frac = [] then none
  else
    let coeff := Nat.ofDigitChars 10 (whole ++ frac) 0
    match tail with
    | [] => some (coeff, -frac.length)
    | e :: r =>
        let (negative, power) := splitSign r
        if (e = 'e' ∨ e = 'E') ∧ power ≠ [] ∧ power.all Char.isDigit then
          let magnitude : ℤ := Nat.ofDigitChars 10 power 0
          some (coeff, (if negative then -magnitude else magnitude) - frac.length)
        else none

/-- `str.isspace` of one character. -/
def isSpace (c : Char) : Bool :=
  let n := c.toNat
  (9 ≤ n ∧ n ≤ 13) ∨ (28 ≤ n ∧ n ≤ 32) ∨ (8192 ≤ n ∧ n ≤ 8202) ∨
    n ∈ [133, 160, 5760, 8232, 8233, 8239, 8287, 12288]

/-- The code points of the zeros beyond ASCII (Unicode 15, Python 3.12). Each is followed by the
other nine digits of its script. -/
def zeroDigits : List ℕ :=
  [1632, 1776, 1984, 2406, 2534, 2662, 2790, 2918, 3046, 3174, 3302, 3430, 3558, 3664, 3792, 3872, 4160,
    4240, 6112, 6160, 6470, 6608, 6784, 6800, 6992, 7088, 7232, 7248, 42528, 43216, 43264, 43472, 43504,
    43600, 44016, 65296, 66720, 68912, 69734, 69872, 69942, 70096, 70384, 70736, 70864, 71248, 71360, 71472,
    71904, 72016, 72784, 73040, 73120, 73552, 92768, 92864, 93008, 120782, 120792, 120802, 120812, 120822,
    123200, 123632, 124144, 125264, 130032]

/-- The ASCII form of a decimal digit; other characters stay. -/
def asciiDigit (c : Char) : Char :=
  if c.toNat < 128 then c
  else match zeroDigits.find? fun first => first ≤ c.toNat ∧ c.toNat < first + 10 with
    | some first => Nat.digitChar (c.toNat - first)
    | none => c

/-- Surrounding blanks and all underscores do not count, and the digits of all scripts do. -/
def cleanNumeral (cs : List Char) : List Char :=
  ((((cs.dropWhile isSpace).reverse.dropWhile isSpace).reverse).filter (· ≠ '_')).map asciiDigit

/-- The words for infinity and for a (signalling) NaN with optional digits. -/
def parseSpecial (negative : Bool) (cs : List Char) : Option PyDecimal :=
  let word := cs.map Char.toLower
  if word = "inf".toList ∨ word = "infinity".toList then some (.infinity negative)
  else if word.takeWhile Char.isAlpha ∈ ["nan".toList, "snan".toList] ∧
      (word.dropWhile Char.isAlpha).all Char.isDigit then some .nan
  else none

/-- Within the exponent limits of the implementation. -/
def representable (d : Decimal) : Prop :=
  d.exp + digitCount d.coeff.natAbs - 1 ≤ 999999999999999999 ∧ -1999999999999999997 ≤ d.exp

instance (d : Decimal) : Decidable (representable d) := inferInstanceAs (Decidable (_ ∧ _))

/-- `Decimal(text)`; `none` is `InvalidOperation`. -/
def decimalOfChars (text : List Char) : Option PyDecimal :=
  let (negative, body) := splitSign (cleanNumeral text)
  match parseNumber body with
  | some (coeff, exp) =>
      let d : Decimal := ⟨if negative then -(coeff : ℤ) else coeff, exp⟩
      if representable d then some (.finite d) else none
  | none => parseSpecial negative body

def decimalOfStr (text : String) : Option PyDecimal := decimalOfChars text.toList

section RoundTrip

theorem isDigit_pad (n k : ℕ) :
    ∀ c ∈ List.replicate k '0' ++ Nat.toDigits 10 n, c.isDigit = true := by
  intro c member
  rcases List.mem_append.mp member with pad | digit
  · rw [List.eq_of_mem_replicate pad]; decide
  · exact Nat.isDigit_of_mem_toDigits (by norm_num) (by norm_num) digit

theorem value_pad (n k : ℕ) :
    Nat.ofDigitChars 10 (List.replicate k '0' ++ Nat.toDigits 10 n) 0 = n := by
  rw [Nat.ofDigitChars_append, Nat.ofDigitChars_replicate_zero, Nat.mul_zero, Nat.ofDigitChars_ten_toDigits]

/-- A run of digits, a point and a run of digits is read back digit for digit. -/
theorem parseNumber_pointed {whole frac : List Char} (nonempty : whole ≠ [])
    (w : ∀ c ∈ whole, c.isDigit = true) (f : ∀ c ∈ frac, c.isDigit = true) :
    parseNumber (whole ++ '.' :: frac) =
      some (Nat.ofDigitChars 10 (whole ++ frac) 0, -(frac.length : ℤ)) := by
  have take : (whole ++ '.' :: frac).takeWhile Char.isDigit = whole := by
    rw [List.takeWhile_append_of_pos w]
    simp [show Char.isDigit '.' = false by decide]
  have drop : (whole ++ '.' :: frac).dropWhile Char.isDigit = '.' :: frac := by
    rw [List.dropWhile_append_of_pos w]
    simp [show Char.isDigit '.' = false by decide]
  have takeF : frac.takeWhile Char.isDigit = frac := List.takeWhile_eq_self_iff.mpr f
  have dropF : frac.dropWhile Char.isDigit = [] := List.dropWhile_eq_nil_iff.mpr f
  simp only [parseNumber, take, drop, takeF, dropF, if_neg (fun h : whole = [] ∧ frac = [] => nonempty h.1)]

/-- Text made of digits and points only is left alone by the cleaning. -/
theorem cleanNumeral_eq {cs : List Char} (plain : ∀ c ∈ cs, c.isDigit = true ∨ c = '.') :
    cleanNumeral cs = cs := by
  have code : ∀ c : Char, c.isDigit = true ∨ c = '.' → 46 ≤ c.toNat ∧ c.toNat ≤ 57 := by
    rintro c (digit | rfl)
    · have range : 48 ≤ c.toNat ∧ c.toNat ≤ 57 := by
        simpa [Char.isDigit, UInt32.le_iff_toNat_le] using digit
      omega
    · decide
  have blank : ∀ c : Char, c.isDigit = true ∨ c = '.' → isSpace c = false := by
    intro c plain
    have range := code c plain
    simp only [isSpace, List.mem_cons, List.not_mem_nil, or_false, decide_eq_false_iff_not]
    omega
  have head : ∀ xs : List Char, (∀ c ∈ xs, c.isDigit = true ∨ c = '.') → xs.dropWhile isSpace = xs := by
    intro xs h
    cases xs with
    | nil => rfl
    | cons x xs => simp [blank x (h x (by simp))]
  have ascii : ∀ c ∈ cs, asciiDigit c = id c := by
    intro c member
    have range := code c (plain c member)
    exact if_pos (by omega)
  have under : ∀ c ∈ cs, decide (c ≠ '_') = true := by
    intro c member
    rcases plain c member with digit | rfl
    · rw [decide_eq_true_eq]
      rintro rfl
      revert digit
      decide
    · decide
  rw [cleanNumeral, head cs plain, head cs.reverse (fun c h => plain c (List.mem_reverse.mp h)),
    List.reverse_reverse, List.filter_eq_self.mpr under, List.map_congr_left ascii, List.map_id]

theorem splitSign_digit {lead : Char} (digit : lead.isDigit = true) (rest : List Char) :
    splitSign (lead :: rest) = (false, lead :: rest) := by
  unfold splitSign
  split
  · rename_i same
    cases same
    exact absurd digit (by decide)
  · rename_i same
    cases same
    exact absurd digit (by decide)
  · rfl

/-- A non-negative amount that fits its column is read back from its text. -/
theorem decimalOfStr_cents {n : ℕ} (fits : n < 10 ^ 20) :
    decimalOfStr (decimalToStr (cents n)) = some (.finite (cents n)) := by
  set padded := List.replicate (2 + 1 - (Nat.toDigits 10 n).length) '0' ++ Nat.toDigits 10 n with shape
  have long : 3 ≤ padded.length := by
    rw [shape, List.length_append, List.length_replicate]
    omega
  have digit : ∀ c ∈ padded, c.isDigit = true := isDigit_pad n _
  have text : formatChars (cents n) =
      padded.take (padded.length - 2) ++ '.' :: padded.drop (padded.length - 2) := by
    simp [formatChars, cents, pointed, shape, show ¬ (n : ℤ) < 0 by omega]
  have whole : ∀ c ∈ padded.take (padded.length - 2), c.isDigit = true :=
    fun c h => digit c (List.mem_of_mem_take h)
  have frac : ∀ c ∈ padded.drop (padded.length - 2), c.isDigit = true :=
    fun c h => digit c (List.mem_of_mem_drop h)
  have nonempty : padded.take (padded.length - 2) ≠ [] := by
    intro nil
    have := congrArg List.length nil
    simp only [List.length_take, List.length_nil] at this
    omega
  have plain : ∀ c ∈ formatChars (cents n), c.isDigit = true ∨ c = '.' := by
    intro c member
    rw [text] at member
    rcases List.mem_append.mp member with h | h
    · exact .inl (whole c h)
    · exact (List.mem_cons.mp h).elim .inr (fun h => .inl (frac c h))
  have sign : splitSign (formatChars (cents n)) = (false, formatChars (cents n)) := by
    rw [text]
    cases first : padded.take (padded.length - 2) with
    | nil => exact absurd first nonempty
    | cons lead rest => exact splitSign_digit (whole lead (by rw [first]; simp)) _
  have number : parseNumber (formatChars (cents n)) = some (n, -2) := by
    rw [text, parseNumber_pointed nonempty whole frac, List.take_append_drop, shape, value_pad, ← shape,
      List.length_drop]
    congr 2
    omega
  have small : representable ⟨(n : ℤ), -2⟩ := by
    have digits : digitCount n ≤ 20 := (digitCount_le_iff (by norm_num)).mpr fits
    simp only [representable, Int.natAbs_natCast]
    omega
  simp only [decimalOfStr, decimalToStr, String.toList_ofList, decimalOfChars, cleanNumeral_eq plain, sign,
    number, Bool.false_eq_true, if_false, if_pos small]
  rfl

/-- Digits of other scripts count, as `Decimal` has it. -/
example : decimalOfStr " ١٢.٥_٠ " = some (.finite ⟨1250, -2⟩) := by decide +kernel

/-- On cents, `str` and `format` agree. -/
theorem str_cents (n : ℤ) : (cents n).str = decimalToStr (cents n) := by
  have long : 1 ≤ (Nat.toDigits 10 (cents n).coeff.natAbs).length := Nat.length_toDigits_pos
  refine if_pos ⟨by simp [cents], ?_⟩
  simp only [cents] at long ⊢
  omega

end RoundTrip

/-! ## Identifiers -/

/-- A 128-bit identifier. -/
abbrev Uuid := BitVec 128

/-- `width` hexadecimal digits, most significant first. -/
def hexDigits : ℕ → ℕ → List Char
  | 0, _ => []
  | width + 1, n => hexDigits width (n / 16) ++ [Nat.digitChar (n % 16)]

def hexValue (c : Char) : Option ℕ := (List.range 16).find? (fun k => Nat.digitChar k = c.toLower)

/-- One more digit on the right. -/
def hexStep (acc : Option ℕ) (c : Char) : Option ℕ := do return 16 * (← acc) + (← hexValue c)

/-- The value of a run of hexadecimal digits. -/
def ofHex (cs : List Char) : Option ℕ := cs.foldl hexStep (some 0)

/-- `str(uuid)`: groups of 8, 4, 4, 4 and 12 digits. -/
def uuidChars (u : Uuid) : List Char :=
  let h := hexDigits 32 u.toNat
  h.take 8 ++ '-' :: (h.drop 8).take 4 ++ '-' :: (h.drop 12).take 4 ++ '-' :: (h.drop 16).take 4 ++
    '-' :: h.drop 20

def uuidStr (u : Uuid) : String := String.ofList (uuidChars u)

/-- `UUID(text)`: 32 hexadecimal digits, hyphens aside. -/
def uuidOfStr (text : String) : Option Uuid :=
  let digits := text.toList.filter (· ≠ '-')
  if digits.length = 32 then (ofHex digits).map (BitVec.ofNat 128) else none

section RoundTrip

theorem length_hexDigits (width n : ℕ) : (hexDigits width n).length = width := by
  induction width generalizing n with
  | zero => rfl
  | succ width ih => simp [hexDigits, ih]

theorem hexDigit_facts : ∀ k < 16, hexValue (Nat.digitChar k) = some k ∧ Nat.digitChar k ≠ '-' := by
  decide

theorem hexDigits_ne_hyphen (width n : ℕ) : ∀ c ∈ hexDigits width n, c ≠ '-' := by
  induction width generalizing n with
  | zero => intro c member; cases member
  | succ width ih =>
      intro c member
      rcases List.mem_append.mp member with high | low
      · exact ih _ c high
      · rw [List.mem_singleton.mp low]
        exact (hexDigit_facts (n % 16) (Nat.mod_lt _ (by norm_num))).2

theorem ofHex_hexDigits (width n : ℕ) (fits : n < 16 ^ width) : ofHex (hexDigits width n) = some n := by
  induction width generalizing n with
  | zero =>
      have : n = 0 := by simpa using fits
      rw [this]
      rfl
  | succ width ih =>
      have high : n / 16 < 16 ^ width := Nat.div_lt_of_lt_mul (by rw [pow_succ] at fits; linarith)
      have low := (hexDigit_facts (n % 16) (Nat.mod_lt _ (by norm_num))).1
      have front : (hexDigits width (n / 16)).foldl hexStep (some 0) = some (n / 16) := ih (n / 16) high
      rw [ofHex, hexDigits, List.foldl_append, front, List.foldl_cons, List.foldl_nil, hexStep, low]
      exact congrArg some (Nat.div_add_mod n 16)

/-- The hyphens are the only thing `str` adds to the digits. -/
theorem filter_uuidChars (u : Uuid) : (uuidChars u).filter (· ≠ '-') = hexDigits 32 u.toNat := by
  have keep : ∀ cs : List Char, (∀ c ∈ cs, c ∈ hexDigits 32 u.toNat) → cs.filter (· ≠ '-') = cs := by
    intro cs sub
    refine List.filter_eq_self.mpr fun c member => ?_
    exact decide_eq_true (hexDigits_ne_hyphen 32 u.toNat c (sub c member))
  simp only [uuidChars]
  generalize whole : hexDigits 32 u.toNat = h at keep
  rw [List.filter_append, List.filter_append, List.filter_append, List.filter_append,
    List.filter_cons_of_neg (by decide), List.filter_cons_of_neg (by decide),
    List.filter_cons_of_neg (by decide), List.filter_cons_of_neg (by decide),
    keep _ (fun c m => List.mem_of_mem_take m),
    keep _ (fun c m => List.mem_of_mem_drop (List.mem_of_mem_take m)),
    keep _ (fun c m => List.mem_of_mem_drop (List.mem_of_mem_take m)),
    keep _ (fun c m => List.mem_of_mem_drop (List.mem_of_mem_take m)),
    keep _ (fun c m => List.mem_of_mem_drop m)]
  have parts : h.drop 8 = (h.drop 8).take 4 ++ ((h.drop 12).take 4 ++ ((h.drop 16).take 4 ++ h.drop 20)) := by
    conv_lhs => rw [← List.take_append_drop 4 (h.drop 8), List.drop_drop]
    conv_lhs => rw [← List.take_append_drop 4 (h.drop (8 + 4)), List.drop_drop]
    conv_lhs => rw [← List.take_append_drop 4 (h.drop (8 + 4 + 4)), List.drop_drop]
  conv_rhs => rw [← List.take_append_drop 8 h, parts]
  simp only [List.append_assoc]

theorem uuidOfStr_uuidStr (u : Uuid) : uuidOfStr (uuidStr u) = some u := by
  simp only [uuidOfStr, uuidStr, String.toList_ofList, filter_uuidChars, length_hexDigits, if_true,
    ofHex_hexDigits 32 u.toNat (by have := u.isLt; omega), Option.map_some, BitVec.ofNat_toNat,
    BitVec.setWidth_eq]

/-- An identifier needs no escape in a string literal. -/
theorem uuidStr_plain (u : Uuid) :
    ∀ c ∈ (uuidStr u).toList, (32 ≤ c.toNat ∧ c.toNat < 127) ∧ c ≠ '"' ∧ c ≠ '\\' := by
  have digit : ∀ k < 16, (32 ≤ (Nat.digitChar k).toNat ∧ (Nat.digitChar k).toNat < 127) ∧
      Nat.digitChar k ≠ '"' ∧ Nat.digitChar k ≠ '\\' := by decide
  have digits : ∀ width n, ∀ c ∈ hexDigits width n, ∃ k < 16, c = Nat.digitChar k := by
    intro width
    induction width with
    | zero =>
        intro n c member
        cases member
    | succ width ih =>
        intro n c member
        rcases List.mem_append.mp member with high | low
        · exact ih _ c high
        · exact ⟨n % 16, Nat.mod_lt _ (by norm_num), List.mem_singleton.mp low⟩
  intro c member
  rw [uuidStr, String.toList_ofList] at member
  by_cases hyphen : c = '-'
  · rw [hyphen]
    decide
  · have inside : c ∈ (uuidChars u).filter (· ≠ '-') := List.mem_filter.mpr ⟨member, by simpa using hyphen⟩
    rw [filter_uuidChars] at inside
    obtain ⟨k, small, rfl⟩ := digits _ _ c inside
    exact digit k small

theorem uuidStr_injective : Function.Injective uuidStr := by
  intro u v same
  have := uuidOfStr_uuidStr u
  rw [same, uuidOfStr_uuidStr v] at this
  exact (Option.some.inj this).symm

end RoundTrip

end FxEngine
