import FxEngine.Utils.Json
import FxEngine.Utils.Legible

/-! # Reading a JSON text back

Two values that are not the same up to the order of keys have different texts: strings are
escaped character by character, brackets are closed, and numbers and names run up to a stop.
-/

namespace FxEngine

namespace Json

/-! ## Characters -/

/-- The characters with a short escape. -/
def shortEscape : Char → Option ℕ
  | '"' => some 34
  | '\\' => some 92
  | 'n' => some 10
  | 'r' => some 13
  | 't' => some 9
  | 'b' => some 8
  | 'f' => some 12
  | _ => none

/-- Read one character of a string literal: its code point, and the rest. -/
def readChar : List Char → Option (ℕ × List Char)
  | '\\' :: 'u' :: cs => do
      let n ← ofHex (cs.take 4)
      if 0xd800 ≤ n ∧ n < 0xdc00 then
        let m ← ofHex ((cs.drop 6).take 4)
        return (0x10000 + (n - 0xd800) * 0x400 + (m - 0xdc00), cs.drop 10)
      else return (n, cs.drop 4)
  | '\\' :: c :: cs => (shortEscape c).map fun n => (n, cs)
  | c :: cs => some (c.toNat, cs)
  | [] => none

theorem readChar_plain {c : Char} (other : c ≠ '\\') (cs : List Char) : readChar (c :: cs) = some (c.toNat, cs) := by
  unfold readChar
  split <;> simp_all

theorem ofHex_take {n : ℕ} (fits : n < 16 ^ 4) (cs : List Char) : ofHex ((hexDigits 4 n ++ cs).take 4) = some n := by
  rw [List.take_left' (length_hexDigits 4 n), ofHex_hexDigits 4 n fits]

theorem drop_hexDigits (n : ℕ) (cs : List Char) : (hexDigits 4 n ++ cs).drop 4 = cs :=
  List.drop_left' (length_hexDigits 4 n)

theorem readChar_unicode {n : ℕ} (fits : n < 16 ^ 4) (single : ¬ (0xd800 ≤ n ∧ n < 0xdc00)) (cs : List Char) :
    readChar (unicodeEscape n ++ cs) = some (n, cs) := by
  simp only [unicodeEscape, List.cons_append, readChar, ofHex_take fits, drop_hexDigits, Option.bind_eq_bind,
    Option.bind_some, if_neg single]
  rfl

theorem readChar_pair {n m : ℕ} (high : 0xd800 ≤ n ∧ n < 0xdc00) (fits : m < 16 ^ 4) (cs : List Char) :
    readChar (unicodeEscape n ++ unicodeEscape m ++ cs) =
      some (0x10000 + (n - 0xd800) * 0x400 + (m - 0xdc00), cs) := by
  have small : n < 16 ^ 4 := by omega
  have rest : (hexDigits 4 n ++ '\\' :: 'u' :: (hexDigits 4 m ++ cs)).drop 6 = hexDigits 4 m ++ cs := by
    rw [show 6 = 4 + 2 from rfl, ← List.drop_drop, drop_hexDigits]
    rfl
  have after : (hexDigits 4 n ++ '\\' :: 'u' :: (hexDigits 4 m ++ cs)).drop 10 = cs := by
    rw [show 10 = 6 + 4 from rfl, ← List.drop_drop, rest, drop_hexDigits]
  simp only [unicodeEscape, List.cons_append, List.append_assoc, readChar, ofHex_take small, rest, after,
    ofHex_take fits, Option.bind_eq_bind, Option.bind_some, if_pos high]
  rfl

/-- A character is read back from its escape, whatever follows. -/
theorem readChar_escapeChar (c : Char) (cs : List Char) : readChar (escapeChar c ++ cs) = some (c.toNat, cs) := by
  have valid : c.toNat < 0xd800 ∨ 0xdfff < c.toNat ∧ c.toNat < 0x110000 := by
    simpa [UInt32.isValidChar, Nat.isValidChar] using c.valid
  unfold escapeChar
  split_ifs with quote backslash newline carriage tab backspace feed plain bmp
  · subst quote; rfl
  · subst backslash; rfl
  · subst newline; rfl
  · subst carriage; rfl
  · subst tab; rfl
  · rw [backspace]; rfl
  · rw [feed]; rfl
  · exact readChar_plain backslash cs
  · exact readChar_unicode (by omega) (by omega) cs
  · -- the pair stands for what is left above the basic plane
    generalize left : c.toNat - 0x10000 = n
    have value : 0x10000 + (0xd800 + n / 0x400 - 0xd800) * 0x400 + (0xdc00 + n % 0x400 - 0xdc00) = c.toNat := by
      omega
    rw [← value]
    exact readChar_pair (by omega) (by omega) cs

theorem escapeChar_legible (c d : Char) (x y : List Char) (same : escapeChar c ++ x = escapeChar d ++ y) :
    c = d ∧ x = y := by
  have read := readChar_escapeChar c x
  rw [same, readChar_escapeChar d y, Option.some.injEq, Prod.mk.injEq] at read
  exact ⟨Char.toNat_inj.mp read.1.symm, read.2.symm⟩

/-- No escape begins with the quote. -/
theorem escapeChar_opens (c : Char) : ∃ d rest, escapeChar c = d :: rest ∧ d ≠ '"' := by
  unfold escapeChar
  split_ifs with quote <;> simp [unicodeEscape, quote]

/-! ## Values -/

/-- The text of a float: digits with signs, a point or an exponent, or one of the names. -/
def FloatText (text : String) : Prop :=
  text ∈ ["NaN", "Infinity", "-Infinity"] ∨
    (∀ c ∈ text.toList, c.isDigit = true ∨ c ∈ ['-', '+', '.', 'e']) ∧ ∃ c ∈ text.toList, c = '.' ∨ c = 'e'

instance (text : String) : Decidable (FloatText text) := inferInstanceAs (Decidable (_ ∨ _))

mutual

/-- Its floats have the texts of floats. -/
def WellFormed : Json → Prop
  | .float text => FloatText text
  | .list items => WellFormedItems items
  | .dict fields => WellFormedFields fields
  | _ => True

def WellFormedItems : List Json → Prop
  | [] => True
  | item :: rest => item.WellFormed ∧ WellFormedItems rest

def WellFormedFields : List (String × Json) → Prop
  | [] => True
  | (_, value) :: rest => value.WellFormed ∧ WellFormedFields rest

end

theorem wellFormedItems_iff {items : List Json} : WellFormedItems items ↔ ∀ item ∈ items, item.WellFormed := by
  induction items with
  | nil => simp [WellFormedItems]
  | cons item rest ih => simp [WellFormedItems, ih]

theorem wellFormedFields_iff {fields : List (String × Json)} :
    WellFormedFields fields ↔ ∀ field ∈ fields, field.2.WellFormed := by
  induction fields with
  | nil => simp [WellFormedFields]
  | cons field rest ih => simp [WellFormedFields, ih]

/-- What ends a number or a name. -/
def Stop (c : Char) : Prop := c = ',' ∨ c = ']' ∨ c = '}'

/-- A value without a bracket or a quote. -/
def Scalar : Json → Prop
  | .null | .bool _ | .int _ | .float _ => True
  | _ => False

/-- The digits and the sign of an integer. -/
def intChars (n : ℤ) : List Char := (if n < 0 then ['-'] else []) ++ Nat.toDigits 10 n.natAbs

theorem intChars_digits (n : ℤ) : ∀ c ∈ intChars n, c.isDigit = true ∨ c = '-' := by
  intro c member
  rcases List.mem_append.mp member with sign | digit
  · split at sign
    · exact .inr (List.mem_singleton.mp sign)
    · cases sign
  · exact .inl (Nat.isDigit_of_mem_toDigits (by norm_num) (by norm_num) digit)

theorem intChars_injective : Function.Injective intChars := by
  have lead : ∀ n : ℕ, ∀ rest, Nat.toDigits 10 n ≠ '-' :: rest := by
    intro n rest same
    have digit := Nat.isDigit_of_mem_toDigits (b := 10) (n := n) (by norm_num) (by norm_num)
      (same ▸ List.mem_cons_self : '-' ∈ Nat.toDigits 10 n)
    exact absurd digit (by decide)
  have value : ∀ m n : ℕ, Nat.toDigits 10 m = Nat.toDigits 10 n → m = n := by
    intro m n same
    have read := congrArg (Nat.ofDigitChars 10 · 0) same
    simpa using read
  intro m n same
  simp only [intChars] at same
  split_ifs at same with negM negN negN
  · have := value _ _ (List.cons.inj same).2
    omega
  · exact absurd same.symm (lead _ _)
  · exact absurd same (lead _ _)
  · have := value _ _ same
    omega

theorem dumpsChars_int (n : ℤ) : dumpsChars (.int n) = intChars n := rfl

theorem intChars_ne_nil (n : ℤ) : intChars n ≠ [] := by
  have digits : 0 < (Nat.toDigits 10 n.natAbs).length := Nat.length_toDigits_pos
  intro none
  have := congrArg List.length none
  simp only [intChars, List.length_append, List.length_nil] at this
  omega

/-- What numbers are written with. -/
theorem numeral_char {c : Char} (h : c.isDigit = true ∨ c ∈ ['-', '+', '.', 'e']) :
    ¬ Stop c ∧ c ≠ '"' ∧ c ≠ '[' ∧ c ≠ '{' := by
  have differ : ∀ d : Char, d.isDigit = false → d ∉ ['-', '+', '.', 'e'] → c ≠ d := by
    rintro d noDigit noSign rfl
    exact h.elim (fun digit => by simp [noDigit] at digit) noSign
  refine ⟨?_, differ '"' (by decide) (by decide), differ '[' (by decide) (by decide), differ '{' (by decide) (by decide)⟩
  rintro (comma | bracket | brace)
  · exact differ ',' (by decide) (by decide) comma
  · exact differ ']' (by decide) (by decide) bracket
  · exact differ '}' (by decide) (by decide) brace

theorem numeral_text {text : List Char} (some : text ≠ [])
    (each : ∀ c ∈ text, c.isDigit = true ∨ c ∈ ['-', '+', '.', 'e']) :
    (∀ c ∈ text, ¬ Stop c) ∧ ∃ c rest, text = c :: rest ∧ c ≠ '"' ∧ c ≠ '[' ∧ c ≠ '{' := by
  refine ⟨fun c member => (numeral_char (each c member)).1, ?_⟩
  cases text with
  | nil => exact absurd rfl some
  | cons c rest => exact ⟨c, rest, rfl, (numeral_char (each c List.mem_cons_self)).2⟩

/-- The text of a scalar is a word, and no other kind of value begins like it. -/
theorem scalar_text {a : Json} (scalar : a.Scalar) (ok : a.WellFormed) :
    (∀ c ∈ dumpsChars a, ¬ Stop c) ∧ ∃ c rest, dumpsChars a = c :: rest ∧ c ≠ '"' ∧ c ≠ '[' ∧ c ≠ '{' := by
  cases a with
  | null => simp [dumpsChars, Stop]
  | bool b => cases b <;> simp [dumpsChars, Stop]
  | int n =>
      refine numeral_text (intChars_ne_nil n) fun c member => ?_
      exact (intChars_digits n c member).imp_right fun sign => by simp [sign]
  | float text =>
      rcases ok with name | ⟨each, c, member, -⟩
      · simp only [List.mem_cons, List.not_mem_nil, or_false] at name
        rcases name with rfl | rfl | rfl <;> simp [dumpsChars, Stop]
      · exact numeral_text (List.ne_nil_of_mem member) each
  | str | list | dict => exact scalar.elim

/-- Only integers are written with digits and a sign alone. -/
theorem scalar_int {a : Json} (scalar : a.Scalar) (ok : a.WellFormed)
    (digits : ∀ c ∈ dumpsChars a, c.isDigit = true ∨ c = '-') : ∃ n, a = .int n := by
  cases a with
  | null => exact absurd (digits 'n' (by simp [dumpsChars])) (by decide)
  | bool b => cases b <;> exact absurd (digits 'e' (by simp [dumpsChars])) (by decide)
  | int n => exact ⟨n, rfl⟩
  | float text =>
      rcases ok with name | ⟨-, c, member, point⟩
      · simp only [List.mem_cons, List.not_mem_nil, or_false] at name
        rcases name with rfl | rfl | rfl
        · exact absurd (digits 'N' (by simp [dumpsChars])) (by decide)
        · exact absurd (digits 'I' (by simp [dumpsChars])) (by decide)
        · exact absurd (digits 'I' (by simp [dumpsChars])) (by decide)
      · have digit := digits c member
        rcases point with rfl | rfl <;> exact absurd digit (by decide)
  | str | list | dict => exact scalar.elim

theorem not_floatText : ¬ FloatText "null" ∧ ¬ FloatText "true" ∧ ¬ FloatText "false" := by
  simp [FloatText, Char.isDigit]

/-- Only a float has the text of a float. -/
theorem scalar_float {a : Json} (scalar : a.Scalar) (ok : a.WellFormed) {text : String} (float : FloatText text)
    (same : dumpsChars a = text.toList) : a = .float text := by
  obtain ⟨notNull, notTrue, notFalse⟩ := not_floatText
  cases a with
  | null => exact absurd (String.toList_inj.mp same ▸ float) notNull
  | bool b =>
      cases b with
      | true => exact absurd (String.toList_inj.mp same ▸ float) notTrue
      | false => exact absurd (String.toList_inj.mp same ▸ float) notFalse
  | int n =>
      -- a float has more than digits and a sign
      rw [dumpsChars_int] at same
      obtain ⟨m, other⟩ := scalar_int (a := .float text) trivial float fun c member =>
        intChars_digits n c (same ▸ member)
      cases other
  | float text' => rw [String.toList_inj.mp same]
  | str | list | dict => exact scalar.elim

theorem scalar_injective {a b : Json} (scalarA : a.Scalar) (scalarB : b.Scalar) (okA : a.WellFormed)
    (okB : b.WellFormed) (same : dumpsChars a = dumpsChars b) : a = b := by
  cases a with
  | int n =>
      rw [dumpsChars_int] at same
      obtain ⟨m, rfl⟩ := scalar_int scalarB okB (same ▸ intChars_digits n)
      rw [intChars_injective same]
  | float text => exact (scalar_float scalarB okB okA same.symm).symm
  | null | bool =>
      cases b with
      | int n =>
          obtain ⟨m, other⟩ := scalar_int scalarA okA (same ▸ intChars_digits n)
          cases other
      | float text => exact scalar_float scalarA okA okB same
      | null | bool =>
          -- three names, told apart by their letters
          simp only [dumpsChars] at same
          grind
      | str | list | dict => exact scalarB.elim
  | str | list | dict => exact scalarA.elim

/-! ## Unique readability -/

/-- The first character of a string, a list or an object. -/
def lead : Json → Option Char
  | .str _ => some '"'
  | .list _ => some '['
  | .dict _ => some '{'
  | _ => none

theorem lead_text {a : Json} (ok : a.WellFormed) :
    ∃ c rest, dumpsChars a = c :: rest ∧ a.lead = if c ∈ ['"', '[', '{'] then some c else none := by
  have scalar : a.Scalar → a.lead = none →
      ∃ c rest, dumpsChars a = c :: rest ∧ a.lead = if c ∈ ['"', '[', '{'] then some c else none := by
    intro scalar none
    obtain ⟨-, c, rest, text, quote, bracket, brace⟩ := scalar_text scalar ok
    exact ⟨c, rest, text, by simp [none, quote, bracket, brace]⟩
  cases a with
  | str s => exact ⟨'"', _, rfl, rfl⟩
  | list items => exact ⟨'[', _, rfl, rfl⟩
  | dict fields => exact ⟨'{', _, rfl, rfl⟩
  | null | bool | int | float => exact scalar trivial rfl

theorem lead_eq {a b : Json} (okA : a.WellFormed) (okB : b.WellFormed) {x y : List Char}
    (same : dumpsChars a ++ x = dumpsChars b ++ y) : a.lead = b.lead := by
  obtain ⟨c, rest, text, leadA⟩ := lead_text okA
  obtain ⟨d, rest', text', leadB⟩ := lead_text okB
  rw [text, text', List.cons_append, List.cons_append, List.cons.injEq] at same
  rw [leadA, leadB, same.1]

/-- No value begins with a closing bracket. -/
theorem dumpsChars_opens (a : Json) (ok : a.WellFormed) : ∃ c rest, dumpsChars a = c :: rest ∧ c ≠ ']' := by
  have scalar : a.Scalar → ∃ c rest, dumpsChars a = c :: rest ∧ c ≠ ']' := by
    intro scalar
    obtain ⟨word, c, rest, text, -⟩ := scalar_text scalar ok
    refine ⟨c, rest, text, ?_⟩
    rintro rfl
    exact word ']' (by simp [text]) (by simp [Stop])
  cases a with
  | str s => exact ⟨'"', _, rfl, by decide⟩
  | list items => exact ⟨'[', _, rfl, by decide⟩
  | dict fields => exact ⟨'{', _, rfl, by decide⟩
  | null | bool | int | float => exact scalar trivial

theorem quoted_legible {s t : String} {x y : List Char} (same : quoted s ++ x = quoted t ++ y) : s = t ∧ x = y := by
  simp only [quoted, List.cons_append, List.append_assoc, List.cons.injEq, true_and, List.nil_append] at same
  obtain ⟨text, rest⟩ := Legible.closed escapeChar_legible escapeChar_opens same
  exact ⟨String.toList_inj.mp text, rest⟩

/-- A key with its value. -/
def fieldChars (field : String × Json) : List Char := quoted field.1 ++ ": ".toList ++ dumpsChars field.2

theorem dumpsItems_eq (items : List Json) : dumpsItems items = List.intercalate ", ".toList (items.map dumpsChars) := by
  induction items with
  | nil => rfl
  | cons item rest ih =>
      cases rest with
      | nil => simp [dumpsItems]
      | cons other rest => simp [dumpsItems, ih]

theorem dumpsFields_eq (fields : List (String × Json)) :
    dumpsFields fields = List.intercalate ", ".toList (fields.map fieldChars) := by
  induction fields with
  | nil => rfl
  | cons field rest ih =>
      cases rest with
      | nil => simp [dumpsFields, fieldChars]
      | cons other rest => simp [dumpsFields, fieldChars, ih]

theorem comma_eq : ", ".toList = ',' :: [' '] := by simp

theorem items_legible {as bs : List Json} (each : ∀ a ∈ as, Legible.At Stop WellFormed dumpsChars a)
    (okA : WellFormedItems as) (okB : WellFormedItems bs) {x y : List Char}
    (same : dumpsItems as ++ ']' :: x = dumpsItems bs ++ ']' :: y) : as = bs ∧ x = y := by
  rw [dumpsItems_eq, dumpsItems_eq, comma_eq] at same
  exact Legible.list (by decide) (.inl rfl) (.inr (.inl rfl)) dumpsChars_opens each (wellFormedItems_iff.mp okA)
    (wellFormedItems_iff.mp okB) same

theorem fields_legible {as bs : List (String × Json)}
    (each : ∀ a ∈ as, Legible.At Stop WellFormed dumpsChars a.2) (okA : WellFormedFields as)
    (okB : WellFormedFields bs) {x y : List Char} (same : dumpsFields as ++ '}' :: x = dumpsFields bs ++ '}' :: y) :
    as = bs ∧ x = y := by
  rw [dumpsFields_eq, dumpsFields_eq, comma_eq] at same
  have legible : ∀ a ∈ as, Legible.At Stop (fun field : String × Json => field.2.WellFormed) fieldChars a := by
    intro a member b okB x y endX endY same
    simp only [fieldChars, List.append_assoc] at same
    obtain ⟨key, rest⟩ := quoted_legible same
    obtain ⟨value, tail⟩ := each a member b.2 okB x y endX endY (List.append_cancel_left rest)
    exact ⟨Prod.ext key value, tail⟩
  have comma : Stop ',' := .inl rfl
  have close : Stop '}' := .inr (.inr rfl)
  exact Legible.list (by decide) comma close (fun field _ => ⟨'"', _, rfl, by decide⟩) legible
    (wellFormedFields_iff.mp okA) (wellFormedFields_iff.mp okB) same

mutual

/-- No two values have one text, and a value's text says where it ends. -/
theorem legible (a : Json) (ok : a.WellFormed) : Legible.At Stop WellFormed dumpsChars a := by
  intro b okB x y endX endY same
  have leads := lead_eq ok okB same
  have scalars : a.Scalar → b.Scalar → a = b ∧ x = y := by
    intro scalarA scalarB
    obtain ⟨text, rest⟩ := Legible.word (scalar_text scalarA ok).1 (scalar_text scalarB okB).1 endX endY same
    exact ⟨scalar_injective scalarA scalarB ok okB text, rest⟩
  cases a with
  | str s =>
      cases b with
      | str t =>
          obtain ⟨text, rest⟩ := quoted_legible same
          exact ⟨by rw [text], rest⟩
      | _ => simp [lead] at leads
  | list items =>
      cases b with
      | list others =>
          simp only [dumpsChars, List.cons_append, List.append_assoc, List.cons.injEq, true_and,
            List.nil_append] at same
          obtain ⟨eq, rest⟩ := items_legible (legible_items items ok) ok okB same
          exact ⟨by rw [eq], rest⟩
      | _ => simp [lead] at leads
  | dict fields =>
      cases b with
      | dict others =>
          simp only [dumpsChars, List.cons_append, List.append_assoc, List.cons.injEq, true_and,
            List.nil_append] at same
          obtain ⟨eq, rest⟩ := fields_legible (legible_fields fields ok) ok okB same
          exact ⟨by rw [eq], rest⟩
      | _ => simp [lead] at leads
  | null | bool | int | float =>
      cases b with
      | null | bool | int | float => exact scalars trivial trivial
      | str | list | dict => simp [lead] at leads

theorem legible_items (items : List Json) (ok : WellFormedItems items) :
    ∀ a ∈ items, Legible.At Stop WellFormed dumpsChars a := by
  cases items with
  | nil => simp
  | cons item rest =>
      intro a member
      rcases List.mem_cons.mp member with here | deeper
      · exact here ▸ legible item ok.1
      · exact legible_items rest ok.2 a deeper

theorem legible_fields (fields : List (String × Json)) (ok : WellFormedFields fields) :
    ∀ a ∈ fields, Legible.At Stop WellFormed dumpsChars a.2 := by
  cases fields with
  | nil => simp
  | cons field rest =>
      obtain ⟨key, value⟩ := field
      intro a member
      rcases List.mem_cons.mp member with here | deeper
      · exact here ▸ legible value ok.1
      · exact legible_fields rest ok.2 a deeper

end

/-! ## Sorted objects -/

mutual

theorem WellFormed.sorted {a : Json} (ok : a.WellFormed) : a.sorted.WellFormed := by
  cases a with
  | list items => exact wellFormed_sortedItems ok
  | dict fields =>
      have each := wellFormedFields_iff.mp (wellFormed_sortedFields ok)
      exact wellFormedFields_iff.mpr fun field member => each field ((List.mem_insertionSort _).mp member)
  | null | bool | int | float | str => exact ok

theorem wellFormed_sortedItems {items : List Json} (ok : WellFormedItems items) :
    WellFormedItems (sortedItems items) := by
  cases items with
  | nil => trivial
  | cons item rest => exact ⟨WellFormed.sorted ok.1, wellFormed_sortedItems ok.2⟩

theorem wellFormed_sortedFields {fields : List (String × Json)} (ok : WellFormedFields fields) :
    WellFormedFields (sortedFields fields) := by
  cases fields with
  | nil => trivial
  | cons field rest => exact ⟨WellFormed.sorted ok.1, wellFormed_sortedFields ok.2⟩

end

/-- Two values have one text exactly when they are the same up to the order of keys. -/
theorem dumps_eq_iff {a b : Json} (okA : a.WellFormed) (okB : b.WellFormed) : dumps a = dumps b ↔ a.Same b := by
  refine ⟨fun same => ?_, fun same => congrArg (String.ofList ∘ dumpsChars) same⟩
  have text : dumpsChars a.sorted ++ [] = dumpsChars b.sorted ++ [] := by
    simpa [dumps] using congrArg String.toList same
  exact (legible a.sorted okA.sorted b.sorted okB.sorted [] [] Legible.ends_nil Legible.ends_nil text).1

end Json

end FxEngine
