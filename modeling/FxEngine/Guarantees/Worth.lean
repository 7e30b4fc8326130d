import FxEngine.Correctness.Reconciliation
import FxEngine.Guarantees.Conversions
import FxEngine.Guarantees.Snapshots

/-! # Nobody gets rich by converting

Balances follow from the credits and the executed quotes, and at the mid rates of one
refresh a customer's conversions gain no more than their roundings.
-/

namespace FxEngine

open Numeric Transactions

/-! ## Amounts of several currencies -/

/-- What cents of each currency are worth. -/
def valued (price : Currency → ℚ) (amounts : Currency → ℤ) : ℚ :=
  (Currency.all.map fun currency => (amounts currency : ℚ) / 100 * price currency).sum

section Valued

variable {price : Currency → ℚ}

theorem valued_add (amounts amounts' : Currency → ℤ) :
    valued price (fun currency => amounts currency + amounts' currency) =
      valued price amounts + valued price amounts' := by
  simp only [valued, Currency.all, List.map_cons, List.map_nil, List.sum_cons, List.sum_nil]
  push_cast
  ring

theorem valued_sum {α : Type} (amounts : α → Currency → ℤ) (rows : List α) :
    valued price (fun currency => (rows.map (amounts · currency)).sum) = (rows.map (valued price <| amounts ·)).sum := by
  induction rows with
  | nil => simp [valued]
  | cons row rows ih =>
      simp only [List.map_cons, List.sum_cons]
      rw [valued_add, ih]

theorem valued_single (own : Currency) (n : ℤ) :
    valued price (fun currency => if own = currency then n else 0) = n / 100 * price own := by
  cases own <;> simp [valued, Currency.all]

theorem CreditAdjustment.valued_adds (a : CreditAdjustment) :
    valued price a.adds = a.amount.coeff / 100 * price a.currency :=
  valued_single a.currency a.amount.coeff

theorem Quote.valued_moves (q : Quote) :
    valued price q.moves = q.destinationAmount.coeff / 100 * price q.destinationCurrency -
      q.sourceAmount.coeff / 100 * price q.sourceCurrency := by
  rw [← valued_single, ← valued_single]
  simp only [valued, Quote.moves, Currency.all, List.map_cons, List.map_nil, List.sum_cons, List.sum_nil]
  push_cast
  ring

end Valued

namespace Tables

/-- What a unit of a currency is worth in dollars at the snapshots of a refresh. -/
def price (db : Tables) (refreshId : Uuid) (currency : Currency) : ℚ :=
  if currency = .USD then 1
  else ((db.snapshotsOf refreshId).find? (·.quoteCurrency = currency)).elim 0 fun s => 1 / s.midRate.toRat

/-- What a customer holds of a currency. -/
def holding (db : Tables) (customerId : Uuid) (currency : Currency) : ℚ :=
  (db.balance customerId currency).elim 0 (·.balance.toRat)

/-- What all of it is worth. -/
def worth (db : Tables) (price : Currency → ℚ) (customerId : Uuid) : ℚ :=
  (Currency.all.map fun currency => db.holding customerId currency * price currency).sum

/-- Every leg of the quote was priced from the snapshots of the refresh. -/
def PricedAt (db : Tables) (refreshId : Uuid) (q : Quote) : Prop :=
  ∀ leg ∈ db.legsOf q.id, (db.snapshot leg.rateSnapshotId).map RateSnapshot.rateRefreshId = some refreshId

instance (db : Tables) (refreshId : Uuid) (q : Quote) : Decidable (db.PricedAt refreshId q) :=
  inferInstanceAs (Decidable (∀ leg ∈ db.legsOf q.id, _))

variable {db : Tables} {customerId : Uuid} {price : Currency → ℚ}

theorem holding_eq (accounts : Accounts db) (currency : Currency) :
    db.holding customerId currency = db.owed customerId currency / 100 := by
  rw [holding]
  cases found : db.balance customerId currency with
  | some row =>
      obtain ⟨held, rfl⟩ := accounts.row found
      rw [← (accounts.balance found).1]
      exact cents_toRat held
  | none =>
      have unknown : ¬ db.hasCustomer customerId := fun known => by
        have := accounts.opened customerId known currency
        rw [found] at this
        cases this
      rw [owed, posted_unknown accounts unknown, posted_unknown accounts unknown]
      simp

theorem worth_eq (accounts : Accounts db) : db.worth price customerId = valued price (db.owed customerId) := by
  simp only [worth, valued, holding_eq accounts]

/-- Who holds one currency is worth what that is. -/
theorem worth_single {own : Currency} (none : ∀ other ≠ own, db.holding customerId other = 0) :
    db.worth price customerId = db.holding customerId own * price own := by
  have zero : ∀ other ≠ own, db.holding customerId other * price other = 0 := fun other away => by
    rw [none other away, zero_mul]
  cases own <;> simp [worth, Currency.all, zero]

theorem valued_audited : valued price (db.audited customerId) =
    ((db.creditsOf customerId).map fun a => valued price a.adds).sum +
      ((db.executedBy customerId).map fun q => valued price q.moves).sum := by
  rw [← valued_sum, ← valued_sum, ← valued_add]
  rfl

end Tables

/-! ## Prices of a quote -/

/-- A priced quote has legs. -/
theorem Priced.legs_ne_nil {rows : List CurrentRate} {q : Quote} {legs : List QuoteLeg} (h : Priced rows q legs) :
    legs ≠ [] := by
  obtain ⟨amount, -, terms, quoted, -, made⟩ := h.terms
  have computed := quoteTerms_eq_ok.mp quoted
  obtain ⟨-, -, -, shape⟩ := buildRoute_ok h.differ computed.route
  obtain ⟨hops, -⟩ := priceRoute_ok computed.legs
  have length := congrArg List.length hops
  rw [List.length_map, (legRows_repeat made).2.length_eq] at length
  rintro rfl
  rcases shape with same | ⟨pivot, same⟩ <;> simp [same] at length

section

variable [Platform] [Settings] {start : Instant} {σ τ : Engine} {q : Quote}

namespace Engine

/-- The snapshots of a refresh give the prices of its book. -/
theorem Reachable.prices (h : Reachable start σ) {rows : List CurrentRate} {refresh : RateRefresh}
    (book : BookOf σ.world.db rows refresh) : Prices rows (σ.world.db.price refresh.id) := by
  refine ⟨if_pos rfl, fun rate member => ?_⟩
  obtain ⟨-, other⟩ := Complete.ends book.pairs member
  obtain ⟨provided, found⟩ := h.provided book.recorded book.completed
  have mids : ∀ s ∈ σ.world.db.snapshotsOf refresh.id, s.midRate = provided.mid s.quoteCurrency := by
    intro s taken
    have listed := List.mem_map_of_mem (f := fun s : RateSnapshot => ((s.baseCurrency, s.quoteCurrency), s.midRate)) taken
    rw [found.snapshots] at listed
    obtain ⟨pair, -, same⟩ := List.mem_map.mp listed
    obtain ⟨ends, mid⟩ := Prod.mk.inj same
    rw [← mid, ends]
  obtain ⟨s, stored, named, pair, mid, -⟩ := book.snapshots rate member
  have taken : s ∈ σ.world.db.snapshotsOf refresh.id :=
    List.mem_filter.mpr ⟨(Table.row_some stored).1, decide_eq_true named⟩
  have quote : s.quoteCurrency = rate.quoteCurrency := (Prod.mk.inj pair).2
  rw [Tables.price, if_neg other]
  cases first : (σ.world.db.snapshotsOf refresh.id).find? (·.quoteCurrency = rate.quoteCurrency) with
  | none => exact absurd (decide_eq_true quote) (List.find?_eq_none.mp first s taken)
  | some s' =>
      have same : s'.quoteCurrency = rate.quoteCurrency := by simpa using List.find?_some first
      rw [← mid, mids s taken, quote, ← same, ← mids s' (List.mem_of_find?_eq_some first)]
      rfl

/-- An execution posted both amounts of its quote. -/
theorem Reachable.executed_positive (h : Reachable start σ) {x : Execution} (executed : x ∈ σ.world.db.executions)
    (found : σ.world.db.quote x.quoteId = some q) : zeroMoney < q.sourceAmount ∧ zeroMoney < q.destinationAmount := by
  obtain ⟨q', stored, -, entries⟩ := h.invariant.posted.executed x executed
  obtain rfl : q' = q := Option.some.inj (stored.symm.trans found)
  have posted : ∀ entry ∈ [debitEntry x.id q', creditEntry x.id q'], zeroMoney < entry.amount := by
    intro entry member
    rw [← entries] at member
    obtain ⟨-, n, positive, amount⟩ := h.invariant.accounts.posted _ (List.mem_of_mem_filter member)
    rw [amount]
    exact cents_lt.mpr positive
  exact ⟨posted _ List.mem_cons_self, posted _ (List.mem_cons_of_mem _ List.mem_cons_self)⟩

/-- An executed quote pays something, and was priced from the book of the refresh that its
legs name. -/
theorem Reachable.executed_book (h : Reachable start σ)
    (spreads : SpreadInRange Settings.defaultBuySpreadBps ∧ SpreadInRange Settings.defaultSellSpreadBps)
    {customerId refreshId : Uuid} (executed : q ∈ σ.world.db.executedBy customerId)
    (priced : σ.world.db.PricedAt refreshId q) :
    ∃ rows, Complete rows ∧ (∀ rate ∈ rows, rate.Stored) ∧ Prices rows (σ.world.db.price refreshId) ∧
      Priced rows q (σ.world.db.legsOf q.id) ∧ q.destinationAmount.coeff ≠ 0 := by
  obtain ⟨x, inside, found⟩ := List.mem_filterMap.mp executed
  obtain ⟨-, rows, refresh, book, made⟩ := h.invariant.quoted.priced q (Table.row_some found).1
  obtain ⟨leg, legs⟩ := List.exists_mem_of_ne_nil _ made.legs_ne_nil
  obtain rfl : refresh.id = refreshId := by
    obtain ⟨s, there, named⟩ := Option.map_eq_some_iff.mp (priced leg legs)
    obtain ⟨rate, listed, same⟩ := made.snapshots leg legs
    obtain ⟨s', there', named', -⟩ := book.snapshots rate listed
    rw [← same, there] at there'
    rw [← named', ← named, Option.some.inj there']
  refine ⟨rows, book.pairs, fun rate member => ?_, h.prices book, made, ?_⟩
  · obtain ⟨buy, sell⟩ := book.spreads rate member
    exact ⟨book.mids rate member, buy ▸ spreads.1, sell ▸ spreads.2⟩
  · obtain ⟨-, n, -, destination, -⟩ := made.amounts
    have positive := (h.executed_positive (List.mem_of_mem_filter inside) found).2
    rw [destination] at positive ⊢
    exact (cents_lt.mp positive).ne'

/-- An executed quote moves at most what its roundings add. -/
theorem Reachable.moves_le (h : Reachable start σ) {customerId : Uuid} (executed : q ∈ σ.world.db.executedBy customerId)
    {price : Currency → ℚ} {most : ℚ} (bound : q.destinationAmount.toRat * price q.destinationCurrency ≤
      q.sourceAmount.toRat * price q.sourceCurrency + most) : valued price q.moves ≤ most := by
  obtain ⟨x, inside, found⟩ := List.mem_filterMap.mp executed
  obtain ⟨-, rows, refresh, book, made⟩ := h.invariant.quoted.priced q (Table.row_some found).1
  obtain ⟨spent, received, source, destination, -⟩ := made.amounts
  rw [source, destination, cents_toRat, cents_toRat] at bound
  rw [Quote.valued_moves, source, destination]
  change (received : ℚ) / 100 * _ - spent / 100 * _ ≤ _
  linarith

/-- In every reachable state a customer owns the credits and what the executed quotes moved,
whatever the ledger and the cached balances say; and these say the same. -/
theorem Reachable.reconciled (h : Reachable start σ) (customerId : Uuid) (currency : Currency) :
    σ.world.db.owed customerId currency = σ.world.db.audited customerId currency ∧
      ∀ row, σ.world.db.balance customerId currency = some row →
        row.balance = cents (σ.world.db.audited customerId currency) := by
  have same : σ.world.db.owed customerId currency = σ.world.db.audited customerId currency := by
    refine h.chain.keeps (P := fun db : Tables => db.owed customerId currency = db.audited customerId currency) rfl
      fun e member before => ?_
    obtain ⟨a, enabled, view, -⟩ := h.commits member
    have step := enabled.audited (h.sound.events e member).2.posted customerId currency
    rw [before, sub_self] at step
    rw [view]
    exact sub_eq_zero.mp step
  refine ⟨same, fun row found => ?_⟩
  obtain ⟨held, rfl⟩ := h.invariant.accounts.row found
  rw [← same, (h.invariant.accounts.balance found).1]

/-- Credits are whole cents. -/
theorem Reachable.credited_cents (h : Reachable start σ) {customerId : Uuid} {a : CreditAdjustment}
    (member : a ∈ σ.world.db.creditsOf customerId) : ∃ n : ℤ, a.amount = cents n := by
  have entries := h.invariant.posted.credited a (List.mem_of_mem_filter member)
  have posted : adjustmentEntry a ∈ σ.world.db.entriesOf .creditAdjustment a.id := by
    rw [entries]
    exact List.mem_cons_self
  obtain ⟨-, n, -, amount⟩ := h.invariant.accounts.posted _ (List.mem_of_mem_filter posted)
  exact ⟨n, amount⟩

/-- The worth of a customer is that of the credits and of what the executed quotes moved. -/
theorem Reachable.worth_eq (h : Reachable start σ) (price : Currency → ℚ) (customerId : Uuid) :
    σ.world.db.worth price customerId =
      ((σ.world.db.creditsOf customerId).map fun a => a.amount.toRat * price a.currency).sum +
        ((σ.world.db.executedBy customerId).map fun q => valued price q.moves).sum := by
  have same : σ.world.db.owed customerId = σ.world.db.audited customerId :=
    funext fun currency => (h.reconciled customerId currency).1
  rw [Tables.worth_eq h.invariant.accounts, same, Tables.valued_audited]
  congr 2
  refine List.map_congr_left fun a member => ?_
  obtain ⟨n, amount⟩ := h.credited_cents member
  rw [CreditAdjustment.valued_adds, amount, cents_toRat, cents_coeff]

/-- Over every run a customer is worth more by the credits and by what each new execution
moves. So who holds one currency before and after gains no more of it. -/
theorem Reachable.worth_le (h : Reachable start σ) (run : Run program σ τ) (customerId : Uuid) : ∃ credits converted,
    τ.world.db.creditsOf customerId = σ.world.db.creditsOf customerId ++ credits ∧
    τ.world.db.executedBy customerId = σ.world.db.executedBy customerId ++ converted ∧
    ∀ (price : Currency → ℚ) (most : Quote → ℚ), (∀ q ∈ converted, valued price q.moves ≤ most q) →
      let gained := (credits.map fun a => a.amount.toRat * price a.currency).sum + (converted.map most).sum
      τ.world.db.worth price customerId ≤ σ.world.db.worth price customerId + gained ∧
      ∀ own, 0 < price own → (∀ other ≠ own, σ.world.db.holding customerId other = 0 ∧
          τ.world.db.holding customerId other = 0) →
        τ.world.db.holding customerId own ≤ σ.world.db.holding customerId own + gained / price own := by
  have grown := h.grown run
  obtain ⟨adjustments, adjusted⟩ := grown.adjustments
  obtain ⟨executions, executed⟩ := grown.executions
  have credited := Tables.creditsOf_append adjustments adjusted.symm customerId
  have converted := Tables.executedBy_grown h.invariant.posted grown executions executed.symm customerId
  generalize adjustments.filter (·.customerId = customerId) = credits at credited
  generalize (executions.filter (·.customerId = customerId)).filterMap (τ.world.db.quote ·.quoteId) = quotes at converted
  refine ⟨credits, quotes, credited, converted, fun price most each => ?_⟩
  intro gained
  have bounded : (quotes.map fun q => valued price q.moves).sum ≤ (quotes.map most).sum := List.sum_le_sum each
  have total : τ.world.db.worth price customerId ≤ σ.world.db.worth price customerId + gained := by
    rw [(h.run run).worth_eq, h.worth_eq, credited, converted, List.map_append, List.map_append, List.sum_append,
      List.sum_append]
    linarith
  refine ⟨total, fun own positive others => ?_⟩
  rw [Tables.worth_single fun other away => (others other away).1,
    Tables.worth_single fun other away => (others other away).2] at total
  rw [← sub_le_iff_le_add', le_div_iff₀ positive]
  linarith

/-- Over every run, what a customer converts at the mid rates of one refresh, in whatever
order and next to whatever else, raises the worth of the balances by no more than the
credits and the roundings. So who holds one currency before and after gains no more of it. -/
theorem Reachable.no_money_machine (h : Reachable start σ) (run : Run program σ τ)
    (spreads : SpreadInRange Settings.defaultBuySpreadBps ∧ SpreadInRange Settings.defaultSellSpreadBps)
    (customerId refreshId : Uuid) : ∃ credits converted,
      τ.world.db.creditsOf customerId = σ.world.db.creditsOf customerId ++ credits ∧
      τ.world.db.executedBy customerId = σ.world.db.executedBy customerId ++ converted ∧
      ((∀ q ∈ converted, τ.world.db.PricedAt refreshId q) →
        let price := τ.world.db.price refreshId
        let gained := (credits.map fun a => a.amount.toRat * price a.currency).sum + (converted.map (·.allowance price)).sum
        τ.world.db.worth price customerId ≤ σ.world.db.worth price customerId + gained ∧
        ∀ own, 0 < price own → (∀ other ≠ own, σ.world.db.holding customerId other = 0 ∧
            τ.world.db.holding customerId other = 0) →
          τ.world.db.holding customerId own ≤ σ.world.db.holding customerId own + gained / price own) := by
  obtain ⟨credits, converted, credited, executed, bound⟩ := h.worth_le run customerId
  refine ⟨credits, converted, credited, executed, fun priced => ?_⟩
  refine bound (τ.world.db.price refreshId) (·.allowance (τ.world.db.price refreshId)) fun q member => ?_
  have inside : q ∈ τ.world.db.executedBy customerId := executed ▸ List.mem_append_right _ member
  obtain ⟨rows, complete, stored, prices, made, pays⟩ := (h.run run).executed_book spreads inside (priced q member)
  exact (h.run run).moves_le inside (made.worth_le complete stored prices pays).2.2

end Engine

end

attribute [local instance] Sample.platform Sample.settings

/-- Shillings for naira. -/
theorem Engine.no_money_machine_sample : ∃ σ τ : Engine, Engine.Reachable 0 τ ∧
    τ.world.db.executedBy 1 ≠ [] ∧ (∀ q ∈ τ.world.db.executedBy 1, τ.world.db.PricedAt 2 q) ∧
    ∃ credits converted, τ.world.db.creditsOf 1 = σ.world.db.creditsOf 1 ++ credits ∧
      τ.world.db.executedBy 1 = σ.world.db.executedBy 1 ++ converted ∧
      τ.world.db.worth (τ.world.db.price 2) 1 ≤ σ.world.db.worth (τ.world.db.price 2) 1 +
        ((credits.map fun a => a.amount.toRat * τ.world.db.price 2 a.currency).sum +
          (converted.map (·.allowance (τ.world.db.price 2))).sum) := by
  obtain ⟨τ, reached, db⟩ := Sample.reachable (Sample.prepared ++ Sample.executed) (by decide)
  have spreads : SpreadInRange Settings.defaultBuySpreadBps ∧ SpreadInRange Settings.defaultSellSpreadBps := by
    decide
  have priced : ∀ q ∈ τ.world.db.executedBy 1, τ.world.db.PricedAt 2 q := by
    rw [db]
    decide +kernel
  have empty : Engine.Reachable 0 (.init ⟨{}, 0⟩) := Relation.ReflTransGen.refl
  obtain ⟨credits, converted, credited, executed, bound⟩ := empty.no_money_machine reached spreads 1 2
  refine ⟨.init ⟨{}, 0⟩, τ, reached, ?_, priced, credits, converted, credited, executed, ?_⟩
  · rw [db]
    decide +kernel
  · refine (bound fun q member => priced q ?_).1
    rw [executed]
    exact List.mem_append_right _ member

theorem Engine.reconciled_sample : ∃ σ : Engine, Engine.Reachable 0 σ ∧
    σ.world.db.owed 1 .KES = σ.world.db.audited 1 .KES ∧ σ.world.db.audited 1 .KES = 90000 := by
  obtain ⟨σ, reached, db⟩ := Sample.reachable (Sample.prepared ++ Sample.executed) (by decide)
  refine ⟨σ, reached, (reached.reconciled 1 .KES).1, ?_⟩
  rw [db]
  decide +kernel

end FxEngine
