import FxEngine.Correctness.Pricing

/-! # What an accepted provider answer says -/

namespace FxEngine

open Numeric

variable [Platform]

/-- An answer is accepted when it is an object with a complete set of positive rates. -/
structure Accepted (answer : ProviderAnswer) (provided : ProviderRates) : Prop where
  payload : ∃ statusCode fields, answer = .response statusCode (.json (.dict fields)) ∧ statusCode < 400 ∧
    sanitize fields = .ok provided
  complete : ∀ currency, currency ≠ provided.baseCurrency → (provided.rate currency).isSome
  positive : anyNonPositive (provided.rates.map Prod.snd) = .ok false

theorem fetch_ok {answer : ProviderAnswer} {provided : ProviderRates} (h : fetch answer = .ok provided) :
    Accepted answer provided := by
  cases answer with
  | timeout | transportError => cases h
  | response statusCode body =>
      cases body with
      | invalid | tooDeep => cases h
      | json body =>
          cases body with
          | dict fields =>
              rw [fetch] at h
              split at h
              · cases h
              rename_i success
              split at h
              · cases h
              split at h
              · split at h <;> cases h
              rename_i clean
              dsimp only at h
              split at h
              · cases h
              rename_i missing
              split at h
              · cases h
              · cases h
              rename_i positive
              cases h
              refine ⟨⟨statusCode, fields, rfl, not_le.mp success, clean⟩, fun currency other => ?_, positive⟩
              by_contra absent
              refine missing (List.any_eq_true.mpr ⟨currency, Currency.mem_all currency, ?_⟩)
              simpa [other] using absent
          | _ =>
              rw [fetch] at h
              · split at h <;> cases h
              · intro fields same
                cases same

omit [Platform] in
/-- All rates of a list without non-positive ones are positive or infinite. -/
theorem anyNonPositive_false {rates : List PyDecimal} (h : anyNonPositive rates = .ok false) :
    ∀ rate ∈ rates, nonPositive rate = .ok false := by
  induction rates with
  | nil =>
      intro rate member
      cases member
  | cons first rest ih =>
      obtain ⟨sign, positive, h⟩ := Except.bind_ok h
      cases sign with
      | true => cases h
      | false =>
          intro rate member
          rcases List.mem_cons.mp member with rfl | member
          · exact positive
          · exact ih h rate member

theorem refreshRows_ok {provided : ProviderRates} {rows : List RateRow} : refreshRows provided = .ok rows ↔
    rateRows provided canonicalPairs = .ok rows ∧ Platform.dumpsTooDeep (.dict provided.rawPayload) = false := by
  constructor
  · intro h
    obtain ⟨made, found, h⟩ := Except.bind_ok h
    obtain ⟨hash, hashed, h⟩ := Except.bind_ok h
    cases h
    refine ⟨found, Bool.eq_false_iff.mpr fun deep => ?_⟩
    rw [hashProviderPayload, if_pos deep] at hashed
    cases hashed
  · rintro ⟨made, shallow⟩
    rw [refreshRows, made, hashProviderPayload, shallow]
    rfl

/-- Converting the rates can only fail in their arithmetic, or for want of one; hashing the
payload for its depth. -/
theorem refreshRows_error {provided : ProviderRates} {e : PyError} (h : refreshRows provided = .error e) :
    rateRows provided canonicalPairs = .error e ∨ e = .recursionError ∧
      Platform.dumpsTooDeep (.dict provided.rawPayload) = true ∧ ∃ rows, rateRows provided canonicalPairs = .ok rows := by
  obtain failed | ⟨rows, made, h⟩ := Except.bind_error h
  · exact .inl failed
  obtain failed | ⟨hash, -, h⟩ := Except.bind_error h
  · unfold hashProviderPayload at failed
    split at failed <;> cases failed
    exact .inr ⟨rfl, by assumption, rows, made⟩
  · cases h

omit [Platform] in
theorem rateRows_pairs {provided : ProviderRates} {pairs : List (Currency × Currency)} {rows : List RateRow}
    (h : rateRows provided pairs = .ok rows) :
    rows.map (fun row => (row.baseCurrency, row.quoteCurrency)) = pairs := by
  induction pairs generalizing rows with
  | nil =>
      cases h
      rfl
  | cons pair pairs ih =>
      obtain ⟨rate, -, h⟩ := Except.bind_ok h
      obtain ⟨mid, -, h⟩ := Except.bind_ok h
      obtain ⟨others, later, h⟩ := Except.bind_ok h
      cases h
      rw [List.map_cons, ih later]

/-- Each row holds the provider's rate of its quote currency, rounded. -/
theorem rateRows_mids {answer : ProviderAnswer} {provided : ProviderRates} (accepted : Accepted answer provided)
    {pairs : List (Currency × Currency)} {rows : List RateRow} (h : rateRows provided pairs = .ok rows) :
    ∀ row ∈ rows, ∃ rate : Decimal, 0 < rate.coeff ∧ pairMidRate provided row.quoteCurrency = .ok (.finite rate) ∧
      roundRate rate = .ok row.midRate := by
  induction pairs generalizing rows with
  | nil =>
      cases h
      intro row member
      cases member
  | cons pair pairs ih =>
      obtain ⟨rate, found, h⟩ := Except.bind_ok h
      obtain ⟨mid, rounded, h⟩ := Except.bind_ok h
      obtain ⟨others, later, h⟩ := Except.bind_ok h
      cases h
      intro row member
      rcases List.mem_cons.mp member with rfl | member
      · replace rounded := arith_eq_ok.mp rounded
        cases rate with
        | finite d =>
            refine ⟨d, ?_, found, rounded⟩
            rw [pairMidRate] at found
            split at found
            · cases found
              exact Int.one_pos
            · split at found
              · rename_i rate listed
                cases found
                obtain ⟨entry, member, value⟩ := Option.map_eq_some_iff.mp listed
                have inside : PyDecimal.finite d ∈ provided.rates.map Prod.snd :=
                  value ▸ List.mem_map_of_mem (List.mem_of_find?_eq_some member)
                have := anyNonPositive_false accepted.positive _ inside
                simpa [nonPositive] using this
              · cases found
        | _ => cases rounded
      · exact ih later row member

end FxEngine
