import Mathlib

/-! # Texts that say where they end

A value is legible when its text is told apart from every other value's, whatever follows, and
what follows can be told as well. Characters, strings and lists of legible values are legible.
-/

namespace FxEngine.Legible

variable {α χ : Type} {stops : χ → Prop} {x y : List χ}

/-- Nothing, or something that begins with a stop. -/
def Ends (stops : χ → Prop) (rest : List χ) : Prop := ∀ c ∈ rest.head?, stops c

/-- The text of `a`, with something that ends it, is no other value's. -/
def At (stops : χ → Prop) (ok : α → Prop) (text : α → List χ) (a : α) : Prop :=
  ∀ b, ok b → ∀ x y, Ends stops x → Ends stops y → text a ++ x = text b ++ y → a = b ∧ x = y

theorem ends_nil : Ends stops [] := by simp [Ends]

theorem ends_cons {c : χ} {rest : List χ} : Ends stops (c :: rest) ↔ stops c := by simp [Ends]

/-- A word runs up to the first stop. -/
theorem word {u v : List χ} (inU : ∀ c ∈ u, ¬ stops c) (inV : ∀ c ∈ v, ¬ stops c) (endX : Ends stops x)
    (endY : Ends stops y) (same : u ++ x = v ++ y) : u = v ∧ x = y := by
  induction u generalizing v with
  | nil =>
      cases v with
      | nil => exact ⟨rfl, same⟩
      | cons d v =>
          obtain rfl : x = d :: v ++ y := same
          exact absurd (ends_cons.mp endX) (inV d List.mem_cons_self)
  | cons c u ih =>
      cases v with
      | nil =>
          obtain rfl : c :: u ++ x = y := same
          exact absurd (ends_cons.mp endY) (inU c List.mem_cons_self)
      | cons d v =>
          rw [List.cons_append, List.cons_append, List.cons.injEq] at same
          obtain ⟨rfl, rfl⟩ := ih (fun e member => inU e (List.mem_cons_of_mem _ member))
            (fun e member => inV e (List.mem_cons_of_mem _ member)) same.2
          exact ⟨by rw [same.1], rfl⟩

/-- A run of letters up to a closing one; a letter says where it ends. -/
theorem closed {text : α → List χ} {close : χ}
    (letter : ∀ a b x y, text a ++ x = text b ++ y → a = b ∧ x = y)
    (opens : ∀ a, ∃ c rest, text a = c :: rest ∧ c ≠ close) {as bs : List α}
    (same : as.flatMap text ++ close :: x = bs.flatMap text ++ close :: y) : as = bs ∧ x = y := by
  induction as generalizing bs with
  | nil =>
      cases bs with
      | nil => simpa using same
      | cons b bs =>
          obtain ⟨c, rest, text, other⟩ := opens b
          simp [text, Ne.symm other] at same
  | cons a as ih =>
      cases bs with
      | nil =>
          obtain ⟨c, rest, text, other⟩ := opens a
          simp [text, other] at same
      | cons b bs =>
          rw [List.flatMap_cons, List.flatMap_cons, List.append_assoc, List.append_assoc] at same
          obtain ⟨rfl, tail⟩ := letter _ _ _ _ same
          obtain ⟨rfl, rfl⟩ := ih tail
          exact ⟨rfl, rfl⟩

/-- The first text of a separated list, and what comes after it. -/
theorem intercalate_cons (sep : List χ) (text : α → List χ) (a : α) (rest : List α) :
    ∃ tail, sep.intercalate ((a :: rest).map text) = text a ++ tail ∧
      (rest = [] ∧ tail = [] ∨ rest ≠ [] ∧ tail = sep ++ sep.intercalate (rest.map text)) := by
  cases rest with
  | nil => exact ⟨[], by simp⟩
  | cons b rest => exact ⟨sep ++ sep.intercalate ((b :: rest).map text), by simp⟩

/-- A list of legible values up to a closing character. -/
theorem list {ok : α → Prop} {text : α → List χ} {sep : List χ} {comma close : χ} (differ : comma ≠ close)
    (stop : stops comma) (stop' : stops close) (opens : ∀ a, ok a → ∃ c rest, text a = c :: rest ∧ c ≠ close)
    {as bs : List α} (each : ∀ a ∈ as, At stops ok text a) (okA : ∀ a ∈ as, ok a) (okB : ∀ b ∈ bs, ok b)
    (same : (comma :: sep).intercalate (as.map text) ++ close :: x =
      (comma :: sep).intercalate (bs.map text) ++ close :: y) :
    as = bs ∧ x = y := by
  induction as generalizing bs with
  | nil =>
      cases bs with
      | nil => simpa using same
      | cons b bs =>
          obtain ⟨tail, shape, -⟩ := intercalate_cons (comma :: sep) text b bs
          obtain ⟨c, rest, first, other⟩ := opens b (okB b List.mem_cons_self)
          rw [shape] at same
          simp [first, Ne.symm other] at same
  | cons a as ih =>
      obtain ⟨tail, shape, more⟩ := intercalate_cons (comma :: sep) text a as
      cases bs with
      | nil =>
          obtain ⟨c, rest, first, other⟩ := opens a (okA a List.mem_cons_self)
          rw [shape] at same
          simp [first, other] at same
      | cons b bs =>
          obtain ⟨tail', shape', more'⟩ := intercalate_cons (comma :: sep) text b bs
          rw [shape, shape', List.append_assoc, List.append_assoc] at same
          have ends : Ends stops (tail ++ close :: x) := by
            rcases more with ⟨-, rfl⟩ | ⟨-, rfl⟩ <;> simp [ends_cons, stop, stop']
          have ends' : Ends stops (tail' ++ close :: y) := by
            rcases more' with ⟨-, rfl⟩ | ⟨-, rfl⟩ <;> simp [ends_cons, stop, stop']
          obtain ⟨rfl, rest⟩ := each a List.mem_cons_self b (okB b List.mem_cons_self) _ _ ends ends' same
          -- both lists end here, or neither does
          rcases more with ⟨rfl, rfl⟩ | ⟨some, rfl⟩ <;> rcases more' with ⟨rfl, rfl⟩ | ⟨some', rfl⟩
          · simpa using rest
          · simp [Ne.symm differ] at rest
          · simp [differ] at rest
          · rw [List.append_assoc, List.append_assoc, List.append_cancel_left_eq] at rest
            obtain ⟨rfl, rfl⟩ := ih (fun c member => each c (List.mem_cons_of_mem _ member))
              (fun c member => okA c (List.mem_cons_of_mem _ member))
              (fun c member => okB c (List.mem_cons_of_mem _ member)) rest
            exact ⟨rfl, rfl⟩

end FxEngine.Legible
