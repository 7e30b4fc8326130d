import Mathlib

/-! # Tables as lists of rows

A table lists its rows in the order of insertion; a key is a function of the
row. Rows are looked up by key, appended, and changed in place.
-/

namespace FxEngine.Transactions.Table

variable {Row Key : Type} [DecidableEq Key] {key : Row → Key}

/-- The row with the given key. -/
def row (key : Row → Key) (k : Key) (rows : List Row) : Option Row := rows.find? (key · = k)

/-- `UPDATE … WHERE key = k`. -/
def modify (key : Row → Key) (k : Key) (f : Row → Row) (rows : List Row) : List Row :=
  rows.map fun r => if key r = k then f r else r

/-- `INSERT … ON CONFLICT (key) DO UPDATE`. -/
def upsert (key : Row → Key) (r : Row) (rows : List Row) : List Row :=
  if (row key (key r) rows).isSome then modify key (key r) (fun _ => r) rows else rows ++ [r]

/-! ## Looking up -/

theorem row_some {k : Key} {rows : List Row} {r : Row} (h : row key k rows = some r) :
    r ∈ rows ∧ key r = k := by
  refine ⟨List.mem_of_find?_eq_some h, ?_⟩
  simpa using List.find?_some h

theorem row_none {k : Key} {rows : List Row} : row key k rows = none ↔ ∀ r ∈ rows, key r ≠ k := by
  simp [row]

/-- With distinct keys every row is found under its own. -/
theorem row_of_mem {rows : List Row} (distinct : (rows.map key).Nodup) {r : Row} (member : r ∈ rows) :
    row key (key r) rows = some r := by
  induction rows with
  | nil => cases member
  | cons head rest ih =>
      rw [List.map_cons, List.nodup_cons] at distinct
      rcases List.mem_cons.mp member with rfl | deeper
      · simp [row]
      · have differ : key head ≠ key r := fun same => distinct.1 (same ▸ List.mem_map_of_mem deeper)
        simpa [row, List.find?_cons, differ] using ih distinct.2 deeper

theorem row_isSome {k : Key} {rows : List Row} : (row key k rows).isSome ↔ k ∈ rows.map key := by
  simp [row]

/-- Two rows with one key are the same row. -/
theorem eq_of_key {rows : List Row} (distinct : (rows.map key).Nodup) {r s : Row} (hr : r ∈ rows)
    (hs : s ∈ rows) (same : key r = key s) : r = s := by
  have := row_of_mem distinct hr
  rw [same, row_of_mem distinct hs] at this
  exact (Option.some.inj this).symm

/-- At most one row has a given key. -/
theorem length_filter_le_one {rows : List Row} (distinct : (rows.map key).Nodup) (k : Key) :
    (rows.filter (key · = k)).length ≤ 1 := by
  induction rows with
  | nil => simp
  | cons head rest ih =>
      rw [List.map_cons, List.nodup_cons] at distinct
      by_cases same : key head = k
      · have none : rest.filter (key · = k) = [] := by
          refine List.filter_eq_nil_iff.mpr fun r member => ?_
          simpa using fun eq : key r = k => distinct.1 (same ▸ eq ▸ List.mem_map_of_mem member)
        simp [same, none]
      · simpa [same] using ih distinct.2

/-! ## Appending -/

theorem row_append_some {k : Key} {rows new : List Row} {r : Row} (h : row key k rows = some r) :
    row key k (rows ++ new) = some r := by
  simp only [row] at h ⊢
  rw [List.find?_append, h, Option.some_or]

theorem row_append_none {k : Key} {rows new : List Row} (h : row key k rows = none) :
    row key k (rows ++ new) = row key k new := by
  simp only [row] at h ⊢
  rw [List.find?_append, h, Option.none_or]

/-- Rows with other keys do not change a lookup. -/
theorem row_append_ne {k : Key} {rows new : List Row} (other : ∀ r ∈ new, key r ≠ k) :
    row key k (rows ++ new) = row key k rows := by
  cases h : row key k rows with
  | some r => exact row_append_some h
  | none => rw [row_append_none h, row_none]; exact other

theorem row_of_prefix {k : Key} {rows more : List Row} (grown : rows <+: more) {r : Row}
    (h : row key k rows = some r) : row key k more = some r := by
  obtain ⟨new, rfl⟩ := grown
  exact row_append_some h

theorem nodup_append {rows new : List Row} (distinct : (rows.map key).Nodup) (fresh : (new.map key).Nodup)
    (apart : ∀ r ∈ new, row key (key r) rows = none) : ((rows ++ new).map key).Nodup := by
  rw [List.map_append, List.nodup_append]
  refine ⟨distinct, fresh, ?_⟩
  rintro k old k' new' rfl
  obtain ⟨r, hr, rfl⟩ := List.mem_map.mp old
  obtain ⟨s, hs, same⟩ := List.mem_map.mp new'
  exact row_none.mp (apart s hs) r hr same.symm

/-! ## Changing in place -/

section Modify

variable {k : Key} {f : Row → Row}

theorem keys_modify (keeps : ∀ r, key (f r) = key r) (rows : List Row) :
    (modify key k f rows).map key = rows.map key := by
  rw [modify, List.map_map]
  refine List.map_congr_left fun r _ => ?_
  by_cases h : key r = k <;> simp [h, keeps]

theorem row_modify_self (keeps : ∀ r, key (f r) = key r) (rows : List Row) :
    row key k (modify key k f rows) = (row key k rows).map f := by
  induction rows with
  | nil => rfl
  | cons head rest ih =>
      simp only [row, modify, List.map_cons, List.find?_cons] at ih ⊢
      by_cases h : key head = k
      · simp [h, keeps]
      · simpa [h] using ih

theorem row_modify_ne (keeps : ∀ r, key (f r) = key r) {j : Key} (other : j ≠ k) (rows : List Row) :
    row key j (modify key k f rows) = row key j rows := by
  induction rows with
  | nil => rfl
  | cons head rest ih =>
      simp only [row, modify, List.map_cons, List.find?_cons] at ih ⊢
      by_cases h : key head = k
      · have : key head ≠ j := fun eq => other (eq.symm.trans h)
        simpa [h, keeps, Ne.symm other] using ih
      · by_cases here : key head = j
        · simp [here, other]
        · simpa [h, here] using ih

end Modify

/-! ## Replacing all rows -/

theorem modify_of_absent {k : Key} {f : Row → Row} {rows : List Row} (absent : k ∉ rows.map key) :
    modify key k f rows = rows := by
  conv_rhs => rw [← List.map_id rows]
  exact List.map_congr_left fun r member => if_neg fun same : key r = k =>
    absent (same ▸ List.mem_map_of_mem member)

/-- Upserting new rows over old ones with the same keys, or over nothing, leaves the
new rows; `done` is the part that is already new. -/
theorem foldl_upsert (done : List Row) {rest rows : List Row} (distinct : ((done ++ rows).map key).Nodup)
    (shape : rest = [] ∨ rest.map key = rows.map key) :
    rows.foldl (fun all r => upsert key r all) (done ++ rest) = done ++ rows := by
  induction rows generalizing done rest with
  | nil =>
      have : rest = [] := shape.elim id List.map_eq_nil_iff.mp
      rw [this]
      rfl
  | cons r rows ih =>
      rw [List.append_cons] at distinct
      have apart : key r ∉ done.map key := by
        rw [List.map_append, List.map_append, List.append_assoc, List.nodup_append] at distinct
        exact fun inside => distinct.2.2 _ inside (key r) (by simp) rfl
      have later : key r ∉ rows.map key := by
        rw [List.map_append, List.nodup_append] at distinct
        exact fun inside => distinct.2.2 (key r) (by simp) _ inside rfl
      have next : ∃ tail, upsert key r (done ++ rest) = (done ++ [r]) ++ tail ∧
          (tail = [] ∨ tail.map key = rows.map key) := by
        rcases shape with rfl | keys
        · refine ⟨[], ?_, .inl rfl⟩
          have absent : ¬ (row key (key r) (done ++ [])).isSome := by
            rw [row_isSome, List.append_nil]
            exact apart
          rw [upsert, if_neg absent, List.append_nil, List.append_nil]
        · cases rest with
          | nil => cases keys
          | cons old tail =>
              rw [List.map_cons, List.map_cons, List.cons.injEq] at keys
              have present : (row key (key r) (done ++ old :: tail)).isSome := by
                rw [row_isSome, ← keys.1]
                simp
              refine ⟨tail, ?_, .inr keys.2⟩
              have ahead : modify key (key r) (fun _ => r) done = done := modify_of_absent apart
              have behind : modify key (key r) (fun _ => r) tail = tail := modify_of_absent (keys.2 ▸ later)
              rw [modify] at ahead behind
              rw [upsert, if_pos present, modify, List.map_append, List.map_cons, if_pos keys.1, ahead, behind,
                List.append_cons]
      obtain ⟨tail, eq, keys⟩ := next
      rw [List.foldl_cons, eq, ih _ distinct keys, ← List.append_cons]

/-! ## Leaving rows out -/

section Filter

variable {p : Row → Bool} {k : Key} {rows : List Row}

theorem row_filter (shown : ∀ r ∈ rows, key r = k → p r = true) : row key k (rows.filter p) = row key k rows := by
  induction rows with
  | nil => rfl
  | cons head rest ih =>
      have tail := ih fun r member => shown r (List.mem_cons_of_mem _ member)
      simp only [row, List.find?_cons] at tail ⊢
      by_cases same : key head = k
      · simp [shown head List.mem_cons_self same, same]
      · cases kept : p head <;> simp [kept, same, tail]

variable {f : Row → Row} (keeps : ∀ r, p (f r) = p r)

include keeps in
theorem filter_modify : (modify key k f rows).filter p = modify key k f (rows.filter p) := by
  induction rows with
  | nil => rfl
  | cons head rest ih =>
      simp only [modify, List.map_cons, List.filter_cons] at ih ⊢
      by_cases same : key head = k
      · cases kept : p head <;> simp [same, keeps, kept, ih]
      · cases kept : p head <;> simp [same, kept, ih]

include keeps in
/-- Changes of rows that are left out do not show. -/
theorem filter_modify_hidden (hidden : ∀ r ∈ rows, key r = k → p r = false) :
    (modify key k f rows).filter p = rows.filter p := by
  rw [filter_modify keeps]
  refine modify_of_absent fun inside => ?_
  obtain ⟨r, member, same⟩ := List.mem_map.mp inside
  have shown := hidden r (List.mem_of_mem_filter member) same
  rw [(List.mem_filter.mp member).2] at shown
  cases shown

end Filter

end FxEngine.Transactions.Table
