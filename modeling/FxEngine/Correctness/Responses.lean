import FxEngine.Correctness.Actions

/-! # Responses survive storage

What an idempotency row stores comes back as the same JSON object, possibly with
its keys in another order. The response model reads it as the same response.
-/

namespace FxEngine

open Numeric

namespace Json

/-- An object does not change when its fields are reordered. -/
theorem Same.of_perm {fields others : List (String × Json)} (distinct : (fields.map Prod.fst).Nodup)
    (perm : others.Perm fields) : (Json.dict others).Same (.dict fields) := by
  have mapped : (sortedFields others).Perm (sortedFields fields) := by
    rw [sortedFields_eq, sortedFields_eq]
    exact perm.map _
  have keys : (sortedFields fields).map Prod.fst = fields.map Prod.fst := by
    rw [sortedFields_eq, List.map_map]
    rfl
  have unique : ∀ a ∈ sortedFields fields, ∀ b ∈ sortedFields fields, a.1 = b.1 → a = b :=
    fun a ha b hb => List.inj_on_of_nodup_map (keys ▸ distinct) ha hb
  have sort := List.perm_insertionSort (fun a b : String × Json => a.1 ≤ b.1)
  have order := List.pairwise_insertionSort (fun a b : String × Json => a.1 ≤ b.1)
  rw [Same, sorted, sorted, sortFields, sortFields]
  refine congrArg Json.dict (List.Perm.eq_of_pairwise ?_ (order _) (order _)
    ((sort _).trans (mapped.trans (sort _).symm)))
  intro a b ha hb ab ba
  exact unique a (mapped.subset ((sort _).subset ha)) b ((sort _).subset hb) (le_antisymm ab ba)

/-- A field that holds a string. -/
def text (entry : String × String) : String × Json := (entry.1, .str entry.2)

/-- Fields that hold strings come back as they were, in some order. -/
theorem Same.strings {entries : List (String × String)} {j : Json} (h : j.Same (.dict (entries.map text))) :
    ∃ others : List (String × String), j = .dict (others.map text) ∧ others.Perm entries := by
  obtain ⟨fields, rfl, perm⟩ := h.fields
  have plain : sortedFields (entries.map text) = entries.map text := by
    rw [sortedFields_eq, List.map_map]
    rfl
  have same : sortedFields fields = fields := by
    rw [sortedFields_eq]
    conv_rhs => rw [← List.map_id fields]
    refine List.map_congr_left fun field member => Prod.ext rfl ?_
    have inside : (field.1, field.2.sorted) ∈ entries.map text := by
      rw [← plain]
      refine perm.subset ?_
      rw [sortedFields_eq]
      exact List.mem_map_of_mem member
    obtain ⟨entry, -, eq⟩ := List.mem_map.mp inside
    have value : field.2 = .str entry.2 := Same.str (congrArg Prod.snd eq).symm
    change field.2.sorted = field.2
    simp [value, sorted]
  rw [plain, same] at perm
  obtain ⟨others, eq, perm⟩ : Relation.Comp (· = List.map text ·) List.Perm fields entries := by
    rw [List.eq_map_comp_perm]
    exact perm
  exact ⟨others, by rw [eq], perm⟩

end Json

/-- An amount that a money column can hold. -/
def Storable (amount : Decimal) : Prop := ∃ n : ℤ, amount = cents n ∧ 0 ≤ n ∧ n < 10 ^ numericPrecision

/-- It is written and read back. -/
theorem Storable.read {amount : Decimal} (h : Storable amount) :
    decimalOfStr (decimalToStr amount) = some (.finite amount) := by
  obtain ⟨n, rfl, lower, upper⟩ := h
  obtain ⟨k, rfl⟩ := Int.eq_ofNat_of_zero_le lower
  refine decimalOfStr_cents ?_
  simp only [numericPrecision] at upper
  omega

theorem Storable.str {amount : Decimal} (h : Storable amount) : amount.str = decimalToStr amount := by
  obtain ⟨n, rfl, -⟩ := h
  exact str_cents n

theorem LegResponse.validate_same {leg : LegResponse} {j : Json} (amount : Storable leg.amount)
    (h : j.Same leg.modelDump) : validate j = some leg := by
  obtain ⟨fields, rfl, perm⟩ := Json.Same.fields h
  have distinct : ([("currency", Json.str leg.currency.value),
      ("amount", .str (decimalToStr leg.amount))].map Prod.fst).Nodup := by simp
  obtain ⟨_, currency, eq⟩ := Json.Same.lookup distinct perm
    (show Json.lookup "currency" _ = some (.str leg.currency.value) from rfl)
  cases eq.str
  obtain ⟨_, written, eq⟩ := Json.Same.lookup distinct perm
    (show Json.lookup "amount" _ = some (.str (decimalToStr leg.amount)) from rfl)
  cases eq.str
  simp [validate, currency, written, Currency.ofCode_value, decimalOfJson, amount.read]

/-- How a balance is written. -/
def balanceText (balance : Currency × Decimal) : String × String := (balance.1.value, balance.2.str)

theorem validateBalances_text {balances : List (Currency × Decimal)}
    (storable : ∀ b ∈ balances, Storable b.2) :
    validateBalances ((balances.map balanceText).map Json.text) = some balances := by
  induction balances with
  | nil => rfl
  | cons b rest ih =>
      have here := storable b List.mem_cons_self
      have others := ih fun c member => storable c (List.mem_cons_of_mem _ member)
      simp [validateBalances, balanceText, Json.text, Currency.ofCode_value, decimalOfJson, here.str,
        here.read, others, -List.map_map]

namespace ExecutionResponse

/-- The amounts of a response fit their columns. -/
structure Fits (response : ExecutionResponse) : Prop where
  debit : Storable response.debit.amount
  credit : Storable response.credit.amount
  balances : ∀ b ∈ response.balances, Storable b.2
  distinct : (response.balances.map Prod.fst).Nodup

variable {response : ExecutionResponse}

/-- The response model reads the same response, with its balances in some order. -/
theorem validate_same (fits : response.Fits) {j : Json} (h : j.Same response.modelDump) :
    ∃ balances, balances.Perm response.balances ∧ validate j = some { response with balances } := by
  obtain ⟨fields, rfl, perm⟩ := Json.Same.fields h
  have distinct : ([("execution_id", Json.str (uuidStr response.executionId)),
      ("quote_id", .str (uuidStr response.quoteId)), ("debit", response.debit.modelDump),
      ("credit", response.credit.modelDump), ("balances", .dict (response.balances.map
        fun b => (b.1.value, .str b.2.str)))].map Prod.fst).Nodup := by simp
  obtain ⟨_, executionId, eq⟩ := Json.Same.lookup distinct perm
    (show Json.lookup "execution_id" _ = some (.str (uuidStr response.executionId)) from rfl)
  cases eq.str
  obtain ⟨_, quoteId, eq⟩ := Json.Same.lookup distinct perm
    (show Json.lookup "quote_id" _ = some (.str (uuidStr response.quoteId)) from rfl)
  cases eq.str
  obtain ⟨debit, foundDebit, sameDebit⟩ := Json.Same.lookup distinct perm
    (show Json.lookup "debit" _ = some response.debit.modelDump from rfl)
  obtain ⟨credit, foundCredit, sameCredit⟩ := Json.Same.lookup distinct perm
    (show Json.lookup "credit" _ = some response.credit.modelDump from rfl)
  obtain ⟨_, foundBalances, sameBalances⟩ := Json.Same.lookup distinct perm
    (show Json.lookup "balances" _ = some (.dict ((response.balances.map balanceText).map Json.text)) by
      rw [List.map_map]; rfl)
  obtain ⟨entries, rfl, order⟩ := Json.Same.strings sameBalances
  obtain ⟨balances, eq, reordered⟩ : Relation.Comp (· = List.map balanceText ·) List.Perm
      entries response.balances := by
    rw [List.eq_map_comp_perm]
    exact order
  rw [eq] at foundBalances
  refine ⟨balances, reordered, ?_⟩
  simp [validate, executionId, quoteId, foundDebit, foundCredit, foundBalances, uuidOfJson,
    uuidOfStr_uuidStr, LegResponse.validate_same fits.debit sameDebit,
    LegResponse.validate_same fits.credit sameCredit,
    validateBalances_text fun b member => fits.balances b (reordered.subset member), -List.map_map]

/-- What was stored is answered as the same JSON. -/
theorem respond_same (fits : response.Fits) {j : Json} (h : j.Same response.modelDump) :
    ∃ body, respond j = .ok body ∧ body.Same response.modelDump := by
  obtain ⟨balances, reordered, read⟩ := validate_same fits h
  refine ⟨({ response with balances } : ExecutionResponse).modelDump, by rw [respond, read], ?_⟩
  have dict : (Json.dict (balances.map fun b => (b.1.value, .str b.2.str))).Same
      (.dict (response.balances.map fun b => (b.1.value, .str b.2.str))) := by
    refine Json.Same.of_perm ?_ (reordered.map _)
    rw [List.map_map]
    have injective : Function.Injective Currency.value := by
      intro c d
      cases c <;> cases d <;> simp [Currency.value]
    have := fits.distinct.map injective
    rwa [List.map_map] at this
  simp only [Json.Same, modelDump, Json.sorted, Json.sortedFields] at dict ⊢
  rw [dict]

end ExecutionResponse

end FxEngine
