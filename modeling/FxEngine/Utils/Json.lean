import FxEngine.Utils.Text

/-! # JSON values

What `json.loads` returns and `json.dumps` writes. Objects keep the order of
their keys; two values are the same JSON when they agree once every object is
sorted by key, which is the form `sort_keys=True` writes.
-/

namespace FxEngine

/-- A float is given by its `repr`. -/
inductive Json where
  | null
  | bool (b : Bool)
  | int (n : ℤ)
  | float (repr : String)
  | str (s : String)
  | list (items : List Json)
  | dict (fields : List (String × Json))

namespace Json

/-- `value[key]` of an object, `value.get(key)`. -/
def lookup (key : String) (fields : List (String × Json)) : Option Json :=
  (fields.find? (·.1 = key)).map Prod.snd

/-- The truth value of `response_payload`. -/
def truthy : Json → Bool
  | .null => false
  | .bool b => b
  | .int n => n ≠ 0
  | .float repr => repr ≠ "0.0" ∧ repr ≠ "-0.0"
  | .str s => s ≠ ""
  | .list items => !items.isEmpty
  | .dict fields => !fields.isEmpty

/-- Fields in the order of their keys. -/
def sortFields (fields : List (String × Json)) : List (String × Json) :=
  fields.insertionSort (fun a b => a.1 ≤ b.1)

mutual

/-- The value with every object sorted by key. -/
def sorted : Json → Json
  | .list items => .list (sortedItems items)
  | .dict fields => .dict (sortFields (sortedFields fields))
  | other => other

def sortedItems : List Json → List Json
  | [] => []
  | item :: rest => sorted item :: sortedItems rest

def sortedFields : List (String × Json) → List (String × Json)
  | [] => []
  | (key, value) :: rest => (key, sorted value) :: sortedFields rest

end

/-- Equal up to the order of keys. -/
def Same (a b : Json) : Prop := a.sorted = b.sorted

theorem Same.refl (a : Json) : a.Same a := rfl
theorem Same.symm {a b : Json} (h : a.Same b) : b.Same a := Eq.symm h
theorem Same.trans {a b c : Json} (h : a.Same b) (h' : b.Same c) : a.Same c := Eq.trans h h'

theorem sortedFields_eq (fields : List (String × Json)) :
    sortedFields fields = fields.map fun field => (field.1, field.2.sorted) := by
  induction fields with
  | nil => rfl
  | cons field rest ih => rw [sortedFields, ih, List.map_cons]

/-- Objects that are the same have the same fields in some order. -/
theorem Same.fields {fields : List (String × Json)} {b : Json} (h : b.Same (.dict fields)) :
    ∃ others, b = .dict others ∧ List.Perm (sortedFields others) (sortedFields fields) := by
  cases b with
  | dict others =>
      have eq : sortFields (sortedFields others) = sortFields (sortedFields fields) := by
        simpa only [Same, sorted, dict.injEq] using h
      refine ⟨others, rfl, ?_⟩
      calc sortedFields others
          |>.Perm (sortFields (sortedFields others)) := (List.perm_insertionSort _ _).symm
        _ |>.Perm (sortedFields fields) := by rw [eq]; exact List.perm_insertionSort _ _
  | _ => simp [Same, sorted] at h

theorem Same.str {s : String} {b : Json} (h : b.Same (.str s)) : b = .str s := by
  cases b <;> simp_all [Same, sorted]

/-- Distinct keys make a lookup independent of the order. -/
theorem lookup_perm {fields others : List (String × Json)} (distinct : (fields.map Prod.fst).Nodup)
    (perm : others.Perm fields) (key : String) : lookup key others = lookup key fields := by
  have distinct' : (others.map Prod.fst).Nodup := (perm.map Prod.fst).nodup_iff.mpr distinct
  have found : ∀ {xs : List (String × Json)}, (xs.map Prod.fst).Nodup → ∀ {value : Json},
      lookup key xs = some value ↔ (key, value) ∈ xs := by
    intro xs nodup value
    induction xs with
    | nil => simp [lookup]
    | cons head rest ih =>
        obtain ⟨k, v⟩ := head
        simp only [List.map_cons, List.nodup_cons] at nodup
        have inner := ih nodup.2
        by_cases same : k = key
        · subst same
          have absent : (k, value) ∉ rest := fun mem => nodup.1 (List.mem_map_of_mem mem)
          simp [lookup, absent, eq_comm]
        · simpa [lookup, List.find?_cons, same, Ne.symm same] using inner
  refine Option.ext fun value => ?_
  rw [found distinct', found distinct]
  exact perm.mem_iff

theorem lookup_sortedFields (fields : List (String × Json)) (key : String) :
    lookup key (sortedFields fields) = (lookup key fields).map sorted := by
  induction fields with
  | nil => rfl
  | cons head rest ih =>
      obtain ⟨k, v⟩ := head
      simp only [lookup, sortedFields, List.find?_cons] at ih ⊢
      by_cases same : k = key
      · simp [same]
      · simpa [same] using ih

/-- The same object gives the same value for each key. -/
theorem Same.lookup {fields others : List (String × Json)} (distinct : (fields.map Prod.fst).Nodup)
    (perm : (sortedFields others).Perm (sortedFields fields)) {key : String} {value : Json}
    (found : lookup key fields = some value) : ∃ other, lookup key others = some other ∧ other.Same value := by
  have keys : (sortedFields fields).map Prod.fst = fields.map Prod.fst := by
    rw [sortedFields_eq, List.map_map]
    rfl
  have eq := lookup_perm (keys ▸ distinct) perm key
  rw [lookup_sortedFields, lookup_sortedFields, found] at eq
  cases other : Json.lookup key others with
  | none => rw [other] at eq; cases eq
  | some v =>
      rw [other] at eq
      exact ⟨v, rfl, Option.some.inj eq⟩

/-! ## `json.dumps` -/

/-- `\uXXXX`. -/
def unicodeEscape (n : ℕ) : List Char := '\\' :: 'u' :: hexDigits 4 n

/-- One character of a string literal, in ASCII. -/
def escapeChar (c : Char) : List Char :=
  if c = '"' then ['\\', '"']
  else if c = '\\' then ['\\', '\\']
  else if c = '\n' then ['\\', 'n']
  else if c = '\r' then ['\\', 'r']
  else if c = '\t' then ['\\', 't']
  else if c.toNat = 8 then ['\\', 'b']
  else if c.toNat = 12 then ['\\', 'f']
  else if 32 ≤ c.toNat ∧ c.toNat < 127 then [c]
  else if c.toNat < 0x10000 then unicodeEscape c.toNat
  else
    let n := c.toNat - 0x10000
    unicodeEscape (0xd800 + n / 0x400) ++ unicodeEscape (0xdc00 + n % 0x400)

def quoted (s : String) : List Char := '"' :: s.toList.flatMap escapeChar ++ ['"']

mutual

def dumpsChars : Json → List Char
  | .null => "null".toList
  | .bool b => if b then "true".toList else "false".toList
  | .int n => (if n < 0 then ['-'] else []) ++ Nat.toDigits 10 n.natAbs
  | .float repr => repr.toList
  | .str s => quoted s
  | .list items => '[' :: dumpsItems items ++ [']']
  | .dict fields => '{' :: dumpsFields fields ++ ['}']

def dumpsItems : List Json → List Char
  | [] => []
  | [item] => dumpsChars item
  | item :: rest => dumpsChars item ++ ", ".toList ++ dumpsItems rest

def dumpsFields : List (String × Json) → List Char
  | [] => []
  | [(key, value)] => quoted key ++ ": ".toList ++ dumpsChars value
  | (key, value) :: rest => quoted key ++ ": ".toList ++ dumpsChars value ++ ", ".toList ++ dumpsFields rest

end

/-- `json.dumps(value, sort_keys=True)`. -/
def dumps (value : Json) : String := String.ofList (dumpsChars value.sorted)

/-- Printable ASCII other than the quote and the backslash is written as it is. -/
theorem escapeChar_plain {c : Char} (printable : 32 ≤ c.toNat ∧ c.toNat < 127) (quote : c ≠ '"')
    (backslash : c ≠ '\\') : escapeChar c = [c] := by
  have control : ∀ d : Char, d.toNat < 32 → c ≠ d := by
    rintro d small rfl
    exact absurd printable.1 (by omega)
  rw [escapeChar, if_neg quote, if_neg backslash, if_neg (control '\n' (by decide)),
    if_neg (control '\r' (by decide)), if_neg (control '\t' (by decide)), if_neg (by omega),
    if_neg (by omega), if_pos printable]

theorem quoted_plain {s : String}
    (plain : ∀ c ∈ s.toList, (32 ≤ c.toNat ∧ c.toNat < 127) ∧ c ≠ '"' ∧ c ≠ '\\') :
    quoted s = '"' :: s.toList ++ ['"'] := by
  have each : s.toList.flatMap escapeChar = s.toList := by
    generalize s.toList = cs at plain
    induction cs with
    | nil => rfl
    | cons c cs ih =>
        have here := plain c List.mem_cons_self
        rw [List.flatMap_cons, escapeChar_plain here.1 here.2.1 here.2.2,
          ih fun d mem => plain d (List.mem_cons_of_mem _ mem)]
        rfl
  rw [quoted, each]

end Json

end FxEngine
