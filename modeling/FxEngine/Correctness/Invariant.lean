import FxEngine.Correctness.Interference

/-! # The invariant of the committed tables

Every balance is the sum of its ledger entries, every ledger entry belongs to one
execution or credit, every quote comes from one refresh, every idempotency row is
completed, and the current rates are those of one refresh. Each enabled action
keeps all of it.
-/

namespace FxEngine

open Numeric Transactions

namespace Tables

/-- What was posted to an account in one direction, in cents. -/
def posted (db : Tables) (customerId : Uuid) (currency : Currency) (direction : Direction) : ℤ :=
  ((db.ledger.filter fun entry =>
    entry.customerId = customerId ∧ entry.currency = currency ∧ entry.direction = direction).map
      fun entry => entry.amount.coeff).sum

/-- Credits less debits. -/
def owed (db : Tables) (customerId : Uuid) (currency : Currency) : ℤ :=
  db.posted customerId currency .credit - db.posted customerId currency .debit

/-- The ledger entries of one business event. -/
def entriesOf (db : Tables) (type : ReferenceType) (id : Uuid) : List LedgerEntry :=
  db.ledger.filter fun entry => entry.referenceType = type ∧ entry.referenceId = id

end Tables

/-- Every balance is cached from the ledger. -/
structure Accounts (db : Tables) : Prop where
  customersDistinct : db.customers.Nodup
  balancesDistinct : (db.balances.map BalanceRow.slot).Nodup
  opened : ∀ id, db.hasCustomer id → ∀ currency, (db.balance id currency).isSome
  owned : ∀ row ∈ db.balances, db.hasCustomer row.customerId
  cached : ∀ row ∈ db.balances, row.balance = cents (db.owed row.customerId row.currency) ∧
    0 ≤ db.owed row.customerId row.currency ∧ db.owed row.customerId row.currency < 10 ^ numericPrecision
  posted : ∀ entry ∈ db.ledger, db.hasCustomer entry.customerId ∧ ∃ n : ℤ, 0 < n ∧ entry.amount = cents n

/-- The ledger records executions and credits, each exactly once. -/
structure Posted (db : Tables) : Prop where
  executionsDistinct : (db.executions.map Execution.id).Nodup
  executedOnce : (db.executions.map Execution.quoteId).Nodup
  adjustmentsDistinct : (db.adjustments.map CreditAdjustment.id).Nodup
  executed : ∀ x ∈ db.executions, ∃ q, db.quote x.quoteId = some q ∧ x.customerId = q.customerId ∧
    db.entriesOf .execution x.id = [debitEntry x.id q, creditEntry x.id q]
  credited : ∀ a ∈ db.adjustments, db.entriesOf .creditAdjustment a.id = [adjustmentEntry a]
  referenced : ∀ entry ∈ db.ledger,
    (entry.referenceType = .execution ∧ entry.referenceId ∈ db.executions.map Execution.id) ∨
    (entry.referenceType = .creditAdjustment ∧ entry.referenceId ∈ db.adjustments.map CreditAdjustment.id)

section

variable [Settings]

/-- Every quote is priced from the rates of one refresh. -/
structure Quoted (db : Tables) : Prop where
  distinct : (db.quotes.map Quote.id).Nodup
  legs : ∀ leg ∈ db.legs, (db.quote leg.quoteId).isSome
  priced : ∀ q ∈ db.quotes, db.hasCustomer q.customerId ∧
    ∃ rows refresh, BookOf db rows refresh ∧ Priced rows q (db.legsOf q.id)

/-- The current rates are those of one refresh. -/
structure Refreshed (db : Tables) (now : Instant) : Prop where
  refreshesDistinct : (db.refreshes.map RateRefresh.id).Nodup
  snapshotsDistinct : (db.snapshots.map RateSnapshot.id).Nodup
  current : db.currentRates = [] ∨ ∃ refresh, BookOf db db.currentRates refresh
  past : ∀ rate ∈ db.currentRates, rate.lastUpdatedAt ≤ now
  recorded : ∀ s ∈ db.snapshots, ∃ r ∈ db.refreshes, r.id = s.rateRefreshId ∧ r.status = .completed ∧
    s.fetchedAt = r.fetchedAt

end

/-- The row of a key names the execution it stands for. -/
structure Completed [Platform] (db : Tables) (row : IdempotencyKey) (executionId : Uuid) (q : Quote)
    (debited credited : ℤ) : Prop where
  execution : db.execution executionId = some ⟨executionId, q.id, q.customerId⟩
  quote : db.quote q.id = some q
  content : ∃ completedAt, row = completedKey row.key (executionRequestHash q.id)
    (executionResponse executionId q (cents debited) (cents credited)).modelDump completedAt
  debited : 0 ≤ debited ∧ debited < 10 ^ numericPrecision
  credited : 0 ≤ credited ∧ credited < 10 ^ numericPrecision

/-- Every idempotency row is completed. -/
structure Claimed [Platform] (db : Tables) : Prop where
  distinct : (db.idempotencyKeys.map IdempotencyKey.slot).Nodup
  completed : ∀ row ∈ db.idempotencyKeys, ∃ executionId q debited credited,
    Completed db row executionId q debited credited

structure Invariant [Platform] [Settings] (db : Tables) (now : Instant) : Prop where
  accounts : Accounts db
  posted : Posted db
  quoted : Quoted db
  refreshed : Refreshed db now
  claimed : Claimed db
  native : db.foreignRates = []

/-! ## Sums over the ledger -/

namespace Tables

variable {db : Tables} {customerId : Uuid} {currency : Currency} {direction : Direction}

/-- What an entry adds to an account. -/
def contribution (entry : LedgerEntry) (customerId : Uuid) (currency : Currency) (direction : Direction) : ℤ :=
  if entry.customerId = customerId ∧ entry.currency = currency ∧ entry.direction = direction then
    entry.amount.coeff
  else 0

theorem posted_append (entries : List LedgerEntry) :
    ({ db with ledger := db.ledger ++ entries }).posted customerId currency direction =
      db.posted customerId currency direction +
        (entries.map (contribution · customerId currency direction)).sum := by
  have sum : ∀ es : List LedgerEntry, ((es.filter fun entry => entry.customerId = customerId ∧
      entry.currency = currency ∧ entry.direction = direction).map fun entry => entry.amount.coeff).sum =
      (es.map (contribution · customerId currency direction)).sum := by
    intro es
    induction es with
    | nil => rfl
    | cons e es ih =>
        by_cases here : e.customerId = customerId ∧ e.currency = currency ∧ e.direction = direction
        · simp only [List.filter_cons, here, decide_true, and_self, if_true, List.map_cons, List.sum_cons, ih,
            contribution]
        · rw [List.filter_cons_of_neg (by simpa using here), ih, List.map_cons, List.sum_cons, contribution,
            if_neg here, zero_add]
  rw [posted, posted, List.filter_append, List.map_append, List.sum_append, sum entries]

/-- Nothing is posted to a customer that does not exist. -/
theorem posted_unknown (accounts : Accounts db) (unknown : ¬ db.hasCustomer customerId) :
    db.posted customerId currency direction = 0 := by
  have none : db.ledger.filter (fun entry => entry.customerId = customerId ∧ entry.currency = currency ∧
      entry.direction = direction) = [] := by
    refine List.filter_eq_nil_iff.mpr fun entry member => ?_
    have known := (accounts.posted entry member).1
    simp only [decide_eq_true_eq, not_and]
    exact fun same => absurd (same ▸ known) unknown
  rw [posted, none]
  rfl

/-- One entry with the balance it leads to. -/
def post (db : Tables) (entry : LedgerEntry) (balance : ℤ) : Tables :=
  { db.setBalance entry.customerId entry.currency (cents balance) with ledger := db.ledger ++ [entry] }

/-- The amount with the sign of the entry's direction. -/
def signed (entry : LedgerEntry) : ℤ :=
  match entry.direction with
  | .credit => entry.amount.coeff
  | .debit => -entry.amount.coeff

theorem owed_append (entry : LedgerEntry) :
    ({ db with ledger := db.ledger ++ [entry] }).owed customerId currency =
      db.owed customerId currency +
        if entry.customerId = customerId ∧ entry.currency = currency then signed entry else 0 := by
  simp only [owed, posted_append, List.map_cons, List.map_nil, List.sum_cons, List.sum_nil, contribution,
    signed]
  by_cases here : entry.customerId = customerId ∧ entry.currency = currency
  · cases entry.direction <;> simp [here] <;> ring
  · have away : ∀ d, ¬ (entry.customerId = customerId ∧ entry.currency = currency ∧ entry.direction = d) :=
      fun d all => here ⟨all.1, all.2.1⟩
    simp [here, away]

theorem owed_post (entry : LedgerEntry) (balance : ℤ) :
    (db.post entry balance).owed customerId currency =
      db.owed customerId currency +
        if entry.customerId = customerId ∧ entry.currency = currency then signed entry else 0 :=
  owed_append entry

end Tables

/-! ## Accounts -/

namespace Accounts

variable {db : Tables} (h : Accounts db)

include h

/-- The cached balance of an account. -/
theorem balance {customerId : Uuid} {currency : Currency} {held : ℤ}
    (found : db.balance customerId currency = some ⟨customerId, currency, cents held⟩) :
    held = db.owed customerId currency ∧ 0 ≤ held ∧ held < 10 ^ numericPrecision := by
  obtain ⟨cached, lower, upper⟩ := h.cached _ (Table.row_some found).1
  have same : held = db.owed customerId currency := congrArg Decimal.coeff cached
  exact ⟨same, same ▸ lower, same ▸ upper⟩

/-- A balance row holds its own key and a whole number of cents. -/
theorem row {customerId : Uuid} {currency : Currency} {r : BalanceRow}
    (found : db.balance customerId currency = some r) : ∃ held, r = ⟨customerId, currency, cents held⟩ := by
  have slot := Prod.mk.inj (Table.row_some found).2
  refine ⟨db.owed r.customerId r.currency, ?_⟩
  rw [← (h.cached r (Table.row_some found).1).1, ← slot.1, ← slot.2]

theorem openAccount [Settings] {customerId : Uuid} (fresh : ¬ db.hasCustomer customerId) :
    Accounts ((Action.openAccount customerId).apply db) where
  customersDistinct := by
    refine List.nodup_append.mpr ⟨h.customersDistinct, List.nodup_singleton _, ?_⟩
    rintro a old b new rfl
    exact fresh (List.mem_singleton.mp new ▸ old)
  balancesDistinct := by
    refine Table.nodup_append h.balancesDistinct ?_ fun row member => ?_
    · simp [Currency.all]
    · obtain ⟨currency, -, rfl⟩ := List.mem_map.mp member
      refine Table.row_none.mpr fun row old same => fresh ?_
      simp only [Prod.mk.injEq] at same
      exact same.1 ▸ h.owned row old
  opened := by
    intro id known currency
    rcases List.mem_append.mp known with old | new
    · obtain ⟨row, found⟩ := Option.isSome_iff_exists.mp (h.opened id old currency)
      exact Option.isSome_iff_exists.mpr ⟨row, Table.row_append_some found⟩
    · rw [List.mem_singleton.mp new, Tables.balance, Table.row_isSome]
      simp only [Action.apply, List.map_append, List.map_map, List.mem_append]
      exact .inr (List.mem_map.mpr ⟨currency, Currency.mem_all currency, rfl⟩)
  owned := by
    intro row member
    rcases List.mem_append.mp member with old | new
    · exact List.mem_append_left _ (h.owned row old)
    · obtain ⟨currency, -, rfl⟩ := List.mem_map.mp new
      exact List.mem_append_right _ (List.mem_singleton.mpr rfl)
  cached := by
    intro row member
    rcases List.mem_append.mp member with old | new
    · exact h.cached row old
    · obtain ⟨currency, -, rfl⟩ := List.mem_map.mp new
      have zero : db.owed customerId currency = 0 := by
        rw [Tables.owed, Tables.posted_unknown h fresh, Tables.posted_unknown h fresh, sub_zero]
      change zeroMoney = cents (db.owed customerId currency) ∧ 0 ≤ db.owed customerId currency ∧
        db.owed customerId currency < _
      rw [zero]
      exact ⟨rfl, le_rfl, by norm_num⟩
  posted := fun entry member =>
    ⟨List.mem_append_left _ (h.posted entry member).1, (h.posted entry member).2⟩

/-- An entry and its new balance are recorded together. -/
theorem post (entry : LedgerEntry) {held amount : ℤ}
    (found : db.balance entry.customerId entry.currency =
      some ⟨entry.customerId, entry.currency, cents held⟩)
    (value : entry.amount = cents amount) (positive : 0 < amount) (lower : 0 ≤ held + Tables.signed entry)
    (upper : held + Tables.signed entry < 10 ^ numericPrecision) :
    Accounts (db.post entry (held + Tables.signed entry)) where
  customersDistinct := h.customersDistinct
  balancesDistinct := (Tables.balances_setBalance ).symm ▸ h.balancesDistinct
  opened := by
    intro id known currency
    have := h.opened id known currency
    rw [Tables.balance, Table.row_isSome] at this ⊢
    exact (Tables.balances_setBalance ).symm ▸ this
  owned := by
    intro row member
    obtain ⟨old, inside, rfl⟩ := List.mem_map.mp member
    have := h.owned old inside
    split
    · exact this
    · exact this
  cached := by
    intro row member
    obtain ⟨old, inside, rfl⟩ := List.mem_map.mp member
    by_cases here : old.slot = (entry.customerId, entry.currency)
    · rw [if_pos here]
      simp only [Prod.mk.injEq] at here
      simp only [here, Tables.owed_post, and_self, if_true, ← (h.balance found).1]
      exact ⟨trivial, lower, upper⟩
    · rw [if_neg here, Tables.owed_post, if_neg fun same => here (Prod.ext same.1.symm same.2.symm), add_zero]
      exact h.cached old inside
  posted := by
    intro e member
    rcases List.mem_append.mp member with old | new
    · exact h.posted e old
    · rw [List.mem_singleton.mp new]
      exact ⟨h.owned _ (Table.row_some found).1, amount, positive, value⟩

/-- Other tables do not matter. -/
theorem congr {other : Tables} (customers : other.customers = db.customers)
    (balances : other.balances = db.balances) (ledger : other.ledger = db.ledger) : Accounts other := by
  obtain ⟨_, _, _, _, _, _, _, _, _, _, _⟩ := other
  dsimp only at customers balances ledger
  subst customers balances ledger
  exact ⟨h.customersDistinct, h.balancesDistinct, h.opened, h.owned, h.cached, h.posted⟩

end Accounts

/-! ## Postings -/

namespace Posted

variable {db : Tables} (h : Posted db)

include h

theorem entriesOf_fresh {type : ReferenceType} {id : Uuid}
    (execution : type = .execution → db.execution id = none)
    (adjustment : type = .creditAdjustment → db.adjustment id = none) : db.entriesOf type id = [] := by
  refine List.filter_eq_nil_iff.mpr fun entry member => ?_
  simp only [decide_eq_true_eq, not_and]
  rintro rfl rfl
  rcases h.referenced entry member with ⟨kind, known⟩ | ⟨kind, known⟩
  · obtain ⟨x, inside, same⟩ := List.mem_map.mp known
    exact Table.row_none.mp (execution kind) x inside same
  · obtain ⟨a, inside, same⟩ := List.mem_map.mp known
    exact Table.row_none.mp (adjustment kind) a inside same

theorem credit [Settings] {adjustment : CreditAdjustment} {balance : Decimal}
    (fresh : db.adjustment adjustment.id = none) :
    Posted ((Action.credit adjustment balance).apply db) where
  executionsDistinct := h.executionsDistinct
  executedOnce := h.executedOnce
  adjustmentsDistinct :=
    Table.nodup_append h.adjustmentsDistinct (List.nodup_singleton _)
      fun a member => (List.mem_singleton.mp member) ▸ fresh
  executed := by
    intro x member
    obtain ⟨q, stored, customer, entries⟩ := h.executed x member
    refine ⟨q, stored, customer, ?_⟩
    change (db.ledger ++ [adjustmentEntry adjustment]).filter _ = _
    rw [List.filter_append, ← entries]
    simp [Tables.entriesOf, adjustmentEntry]
  credited := by
    intro a member
    change (db.ledger ++ [adjustmentEntry adjustment]).filter _ = _
    rw [List.filter_append]
    rcases List.mem_append.mp member with old | new
    · have differ : adjustment.id ≠ a.id := fun same => Table.row_none.mp fresh a old same.symm
      rw [← h.credited a old]
      simp [Tables.entriesOf, adjustmentEntry, differ]
    · rw [List.mem_singleton.mp new]
      have none : db.entriesOf .creditAdjustment adjustment.id = [] :=
        h.entriesOf_fresh (by simp) fun _ => fresh
      rw [Tables.entriesOf] at none
      rw [none]
      simp [adjustmentEntry]
  referenced := by
    intro entry member
    rcases List.mem_append.mp member with old | new
    · refine (h.referenced entry old).imp id fun found => ⟨found.1, ?_⟩
      rw [Action.apply, List.map_append]
      exact List.mem_append_left _ found.2
    · rw [List.mem_singleton.mp new]
      refine .inr ⟨rfl, ?_⟩
      rw [Action.apply, List.map_append]
      exact List.mem_append_right _ (List.mem_singleton.mpr rfl)

theorem execute [Settings] {executionId : Uuid} {q : Quote} {debited credited : Decimal}
    {key : IdempotencyKey} (stored : db.quote q.id = some q) (unexecuted : db.executionOf q.id = none)
    (fresh : db.execution executionId = none) :
    Posted ((Action.execute executionId q debited credited key).apply db) where
  executionsDistinct :=
    Table.nodup_append h.executionsDistinct (List.nodup_singleton _)
      fun x member => (List.mem_singleton.mp member) ▸ fresh
  executedOnce :=
    Table.nodup_append h.executedOnce (List.nodup_singleton _)
      fun x member => (List.mem_singleton.mp member) ▸ unexecuted
  adjustmentsDistinct := h.adjustmentsDistinct
  executed := by
    intro x member
    rcases List.mem_append.mp member with old | new
    · obtain ⟨q', stored', customer, entries⟩ := h.executed x old
      refine ⟨q', stored', customer, ?_⟩
      have differ : executionId ≠ x.id := fun same => Table.row_none.mp fresh x old same.symm
      change (db.ledger ++ [debitEntry executionId q, creditEntry executionId q]).filter _ = _
      rw [List.filter_append, ← entries]
      simp [Tables.entriesOf, debitEntry, creditEntry, differ]
    · rw [List.mem_singleton.mp new]
      refine ⟨q, stored, rfl, ?_⟩
      have none : db.entriesOf .execution executionId = [] :=
        h.entriesOf_fresh (fun _ => fresh) (by simp)
      change (db.ledger ++ [debitEntry executionId q, creditEntry executionId q]).filter _ = _
      rw [Tables.entriesOf] at none
      rw [List.filter_append, none]
      simp [debitEntry, creditEntry]
  credited := by
    intro a member
    change (db.ledger ++ [debitEntry executionId q, creditEntry executionId q]).filter _ = _
    rw [List.filter_append, ← h.credited a member]
    simp [Tables.entriesOf, debitEntry, creditEntry]
  referenced := by
    intro entry member
    rcases List.mem_append.mp member with old | new
    · refine (h.referenced entry old).imp (fun found => ⟨found.1, ?_⟩) id
      rw [Action.apply, List.map_append]
      exact List.mem_append_left _ found.2
    · have isNew : entry.referenceType = .execution ∧ entry.referenceId = executionId := by
        rcases List.mem_cons.mp new with rfl | last
        · exact ⟨rfl, rfl⟩
        · rw [List.mem_singleton.mp last]
          exact ⟨rfl, rfl⟩
      refine .inl ⟨isNew.1, ?_⟩
      rw [Action.apply, List.map_append, isNew.2]
      exact List.mem_append_right _ (List.mem_singleton.mpr rfl)

/-- Only the quotes that were executed matter, and quotes stay. -/
theorem quote [Settings] {row : Quote} {legs : List QuoteLeg} :
    Posted ((Action.quote row legs).apply db) where
  executionsDistinct := h.executionsDistinct
  executedOnce := h.executedOnce
  adjustmentsDistinct := h.adjustmentsDistinct
  executed := fun x member => by
    obtain ⟨q, stored, rest⟩ := h.executed x member
    exact ⟨q, Table.row_append_some stored, rest⟩
  credited := h.credited
  referenced := h.referenced

end Posted

/-! ## Quotes -/

theorem legRows_quoteId {quoteId : Uuid} {position : ℕ} {legs : List LegPricing} {rows : List QuoteLeg}
    (h : legRows quoteId position legs = .ok rows) : ∀ row ∈ rows, row.quoteId = quoteId := by
  induction legs generalizing position rows with
  | nil =>
      cases h
      intro row member
      cases member
  | cons leg legs ih =>
      simp only [legRows] at h
      cases mid : roundRate leg.midRate with
      | error e => rw [mid] at h; cases h
      | ok m =>
          cases others : legRows quoteId (position + 1) legs with
          | error e => rw [mid, others] at h; cases h
          | ok rest =>
              rw [mid, others] at h
              cases h
              intro row member
              rcases List.mem_cons.mp member with rfl | deeper
              · rfl
              · exact ih others row deeper

namespace Quoted

variable [Settings] {s t : Tables} (h : Quoted s)

include h

/-- Quotes stay priced while the other tables grow. -/
theorem grown (grown : Grown s t) (quotes : t.quotes = s.quotes) (legs : t.legs = s.legs) : Quoted t where
  distinct := quotes ▸ h.distinct
  legs := by
    intro leg member
    have := h.legs leg (legs ▸ member)
    rwa [Tables.quote, quotes]
  priced := by
    intro q member
    obtain ⟨customer, rows, refresh, book, priced⟩ := h.priced q (quotes ▸ member)
    refine ⟨grown.customer customer, rows, refresh, grown.book book, ?_⟩
    rwa [Tables.legsOf, legs]

theorem quote {row : Quote} {legs : List QuoteLeg} {rows : List CurrentRate} {refresh : RateRefresh}
    (customer : s.hasCustomer row.customerId) (fresh : s.quote row.id = none) (book : BookOf s rows refresh)
    (priced : Priced rows row legs) : Quoted ((Action.quote row legs).apply s) where
  distinct :=
    Table.nodup_append h.distinct (List.nodup_singleton _)
      fun q member => (List.mem_singleton.mp member) ▸ fresh
  legs := by
    intro leg member
    rcases List.mem_append.mp member with old | new
    · obtain ⟨q, found⟩ := Option.isSome_iff_exists.mp (h.legs leg old)
      exact Option.isSome_iff_exists.mpr ⟨q, Table.row_append_some found⟩
    · obtain ⟨_, _, _, _, _, stored⟩ := priced.terms
      rw [Tables.quote, Table.row_isSome, legRows_quoteId stored leg new]
      exact List.mem_map_of_mem (List.mem_append_right _ (List.mem_singleton.mpr rfl))
  priced := by
    intro q member
    obtain ⟨_, _, _, _, _, stored⟩ := priced.terms
    have owner := legRows_quoteId stored
    have split : ((Action.quote row legs).apply s).legsOf q.id =
        s.legsOf q.id ++ legs.filter (·.quoteId = q.id) := List.filter_append ..
    rcases List.mem_append.mp member with old | new
    · obtain ⟨customer', rows', refresh', book', priced'⟩ := h.priced q old
      have differ : row.id ≠ q.id := fun same => Table.row_none.mp fresh q old same.symm
      have none : legs.filter (·.quoteId = q.id) = [] :=
        List.filter_eq_nil_iff.mpr fun leg inside => by simp [owner leg inside, differ]
      refine ⟨customer', rows', refresh', (Action.grown _).book book', ?_⟩
      rwa [split, none, List.append_nil]
    · rw [List.mem_singleton.mp new] at split ⊢
      have all : legs.filter (·.quoteId = row.id) = legs :=
        List.filter_eq_self.mpr fun leg inside => by simp [owner leg inside]
      have none : s.legsOf row.id = [] := by
        refine List.filter_eq_nil_iff.mpr fun leg inside => ?_
        have known := h.legs leg inside
        simp only [decide_eq_true_eq]
        intro same
        rw [same, fresh] at known
        cases known
      refine ⟨customer, rows, refresh, (Action.grown _).book book, ?_⟩
      rwa [split, all, none, List.nil_append]

end Quoted

/-! ## Rates -/

namespace Refreshed

variable [Settings] {s t : Tables} {now : Instant} (h : Refreshed s now)

include h

/-- The actions on accounts and quotes leave the rates alone. -/
theorem congr (refreshes : t.refreshes = s.refreshes) (snapshots : t.snapshots = s.snapshots)
    (currentRates : t.currentRates = s.currentRates) : Refreshed t now where
  refreshesDistinct := refreshes ▸ h.refreshesDistinct
  snapshotsDistinct := snapshots ▸ h.snapshotsDistinct
  current := by
    rw [currentRates]
    refine h.current.imp id fun ⟨refresh, book⟩ => ⟨refresh, ?_⟩
    refine ⟨refreshes ▸ book.recorded, book.completed, book.pairs, book.fetched, book.spreads, book.mids, ?_⟩
    simpa only [Tables.snapshot, snapshots] using book.snapshots
  past := currentRates ▸ h.past
  recorded := by
    rw [snapshots, refreshes]
    exact h.recorded

theorem refreshFailure {row : RateRefresh} (fresh : s.refresh row.id = none) :
    Refreshed ((Action.refreshFailure row).apply s) now where
  refreshesDistinct :=
    Table.nodup_append h.refreshesDistinct (List.nodup_singleton _)
      fun r member => (List.mem_singleton.mp member) ▸ fresh
  snapshotsDistinct := h.snapshotsDistinct
  current := h.current.imp id fun ⟨refresh, book⟩ => ⟨refresh, (Action.grown _).book book⟩
  past := h.past
  recorded := fun r member => by
    obtain ⟨refresh, known, rest⟩ := h.recorded r member
    exact ⟨refresh, List.mem_append_left _ known, rest⟩

theorem refresh {row : RateRefresh} {rows : List (Uuid × RateRow)} (fresh : s.refresh row.id = none)
    (completed : row.status = .completed)
    (pairs : rows.map (fun row => (row.2.baseCurrency, row.2.quoteCurrency)) = canonicalPairs)
    (distinct : (rows.map Prod.fst).Nodup) (unused : ∀ row ∈ rows, s.snapshot row.1 = none)
    (mids : ∀ row ∈ rows, ∃ m : ℤ, row.2.midRate = ⟨m, -rateScale⟩ ∧ 0 ≤ m ∧ m < 10 ^ numericPrecision)
    (past : row.fetchedAt ≤ now) : Refreshed ((Action.refresh row rows).apply s) now := by
  have snapshotsDistinct : ((s.snapshots ++ rows.map (snapshotOf row)).map RateSnapshot.id).Nodup := by
    refine Table.nodup_append h.snapshotsDistinct ?_ fun r member => ?_
    · simpa [List.map_map, Function.comp_def, snapshotOf] using distinct
    · obtain ⟨source, inside, rfl⟩ := List.mem_map.mp member
      exact unused source inside
  refine ⟨?_, snapshotsDistinct, .inr ⟨row, ?_⟩, ?_, ?_⟩
  · exact Table.nodup_append h.refreshesDistinct (List.nodup_singleton _)
      fun r member => (List.mem_singleton.mp member) ▸ fresh
  · refine ⟨List.mem_append_right _ (List.mem_singleton.mpr rfl), completed, ?_, ?_, ?_, ?_, ?_⟩
    · simpa [Action.apply, List.map_map, Function.comp_def, rateOf, CurrentRate.pair] using pairs
    all_goals
      intro rate member
      obtain ⟨source, inside, rfl⟩ := List.mem_map.mp member
    · rfl
    · exact ⟨rfl, rfl⟩
    · exact mids source inside
    · have new : snapshotOf row source ∈ s.snapshots ++ rows.map (snapshotOf row) :=
        List.mem_append_right _ (List.mem_map_of_mem inside)
      exact ⟨snapshotOf row source, Table.row_of_mem snapshotsDistinct new, rfl, rfl, rfl, rfl⟩
  · intro rate member
    obtain ⟨source, -, rfl⟩ := List.mem_map.mp member
    exact past
  · intro r member
    rcases List.mem_append.mp member with old | new
    · obtain ⟨refresh, known, rest⟩ := h.recorded r old
      exact ⟨refresh, List.mem_append_left _ known, rest⟩
    · obtain ⟨source, -, rfl⟩ := List.mem_map.mp new
      exact ⟨row, List.mem_append_right _ (List.mem_singleton.mpr rfl), rfl, completed, rfl⟩

end Refreshed

/-! ## Idempotency keys -/

namespace Claimed

variable [Platform] {s t : Tables} (h : Claimed s)

include h

theorem grown (grown : Grown s t) (keys : t.idempotencyKeys = s.idempotencyKeys) : Claimed t where
  distinct := keys ▸ h.distinct
  completed := by
    intro row member
    obtain ⟨x, q, debited, credited, done⟩ := h.completed row (keys ▸ member)
    exact ⟨x, q, debited, credited, Table.row_of_prefix grown.executions done.execution,
      grown.quote done.quote, done.content, done.debited, done.credited⟩

theorem execute [Settings] {executionId : Uuid} {q : Quote} {key : String} {completedAt : Instant}
    {debited credited : ℤ} (stored : s.quote q.id = some q) (fresh : s.execution executionId = none)
    (unclaimed : s.idempotencyKey executionsEndpoint key = none)
    (debitedFits : 0 ≤ debited ∧ debited < 10 ^ numericPrecision)
    (creditedFits : 0 ≤ credited ∧ credited < 10 ^ numericPrecision) :
    Claimed ((Action.execute executionId q (cents debited) (cents credited)
      (completedKey key (executionRequestHash q.id)
        (executionResponse executionId q (cents debited) (cents credited)).modelDump completedAt)).apply s) where
  distinct :=
    Table.nodup_append h.distinct (List.nodup_singleton _)
      fun row member => (List.mem_singleton.mp member) ▸ unclaimed
  completed := by
    intro row member
    rcases List.mem_append.mp member with old | new
    · obtain ⟨x, q', debited', credited', done⟩ := h.completed row old
      exact ⟨x, q', debited', credited', Table.row_append_some done.execution, done.quote, done.content,
        done.debited, done.credited⟩
    · rw [List.mem_singleton.mp new]
      refine ⟨executionId, q, debited, credited, ?_, stored, ⟨completedAt, rfl⟩, debitedFits, creditedFits⟩
      refine (Table.row_append_none fresh).trans ?_
      simp [Table.row]

end Claimed

/-! ## All of it -/

variable [Platform] [Settings] {db : Tables} {now : Instant}

/-- Before the first call. -/
theorem Invariant.empty : Invariant {} now where
  accounts := by constructor <;> simp [Tables.hasCustomer]
  posted := by constructor <;> simp
  quoted := by constructor <;> simp
  refreshed := by constructor <;> simp
  claimed := by constructor <;> simp
  native := rfl

/-- Time passes. -/
theorem Invariant.later {later : Instant} (h : Invariant db now) (le : now ≤ later) : Invariant db later :=
  { h with refreshed := { h.refreshed with past := fun rate member => (h.refreshed.past rate member).trans le } }

/-- The balances an execution leaves are non-negative and fit their column. -/
theorem Invariant.executed {q : Quote} {held other spent received : ℤ} (h : Invariant db now)
    (source : db.balance q.customerId q.sourceCurrency = some ⟨q.customerId, q.sourceCurrency, cents held⟩)
    (destination : db.balance q.customerId q.destinationCurrency =
      some ⟨q.customerId, q.destinationCurrency, cents other⟩)
    (positive : 0 < spent) (funded : spent ≤ held) (received_pos : 0 < received) :
    (0 ≤ held - spent ∧ held - spent < 10 ^ numericPrecision) ∧ 0 ≤ other + received := by
  have fromSource := h.accounts.balance source
  have fromDestination := h.accounts.balance destination
  omega

theorem Enabled.invariant {a : Action} (enabled : Enabled db now a) (h : Invariant db now) :
    Invariant (a.apply db) now := by
  have grown : Grown db (a.apply db) := a.grown
  cases enabled with
  | openAccount fresh =>
      exact ⟨h.accounts.openAccount fresh,
        ⟨h.posted.executionsDistinct, h.posted.executedOnce, h.posted.adjustmentsDistinct, h.posted.executed,
          h.posted.credited, h.posted.referenced⟩,
        h.quoted.grown grown rfl rfl, h.refreshed.congr rfl rfl rfl, h.claimed.grown grown rfl, h.native⟩
  | @credit adjustment held amount customer fresh balance value positive fits =>
      have account := h.accounts.balance balance
      have signed : Tables.signed (adjustmentEntry adjustment) = amount := congrArg Decimal.coeff value
      have accounts := h.accounts.post (adjustmentEntry adjustment) balance value positive
        (by rw [signed]; omega) (by rw [signed]; exact fits)
      rw [signed] at accounts
      exact ⟨accounts.congr rfl rfl rfl, h.posted.credit fresh, h.quoted.grown grown rfl rfl,
        h.refreshed.congr rfl rfl rfl, h.claimed.grown grown rfl, h.native⟩
  | quote customer fresh book priced =>
      exact ⟨h.accounts.congr rfl rfl rfl, h.posted.quote, h.quoted.quote customer fresh book priced,
        h.refreshed.congr rfl rfl rfl, h.claimed.grown grown rfl, h.native⟩
  | @execute x q key completedAt held other spent received stored unexecuted fresh unclaimed source destination
      sourceValue destinationValue sourcePositive destinationPositive funded fits unexpired =>
      obtain ⟨debitedFits, creditedFits⟩ :=
        h.executed source destination sourcePositive funded destinationPositive
      have differ : q.sourceCurrency ≠ q.destinationCurrency := by
        obtain ⟨_, _, _, _, priced⟩ := h.quoted.priced q (Table.row_some stored).1
        exact priced.differ
      have debit : Tables.signed (debitEntry x q) = -spent := congrArg (fun d : Decimal => -d.coeff) sourceValue
      have credit : Tables.signed (creditEntry x q) = received := congrArg Decimal.coeff destinationValue
      have debited := h.accounts.post (debitEntry x q) source sourceValue sourcePositive
        (by rw [debit]; omega) (by rw [debit]; omega)
      have untouched : (db.post (debitEntry x q) (held + -spent)).balance q.customerId q.destinationCurrency =
          some ⟨q.customerId, q.destinationCurrency, cents other⟩ :=
        (Tables.balance_setBalance_ne fun same => differ (Prod.mk.inj same).2.symm).trans destination
      rw [debit] at debited
      have credited := debited.post (creditEntry x q) untouched destinationValue destinationPositive
        (by rw [credit]; omega) (by rw [credit]; exact fits)
      rw [credit] at credited
      refine ⟨credited.congr rfl rfl ?_, h.posted.execute stored unexecuted fresh, h.quoted.grown grown rfl rfl,
        h.refreshed.congr rfl rfl rfl,
        h.claimed.execute stored fresh unclaimed debitedFits ⟨creditedFits, fits⟩, h.native⟩
      simp [Action.apply, Tables.post]
  | refresh fresh completed pairs distinct unused mids past later =>
      exact ⟨h.accounts.congr rfl rfl rfl,
        ⟨h.posted.executionsDistinct, h.posted.executedOnce, h.posted.adjustmentsDistinct, h.posted.executed,
          h.posted.credited, h.posted.referenced⟩,
        h.quoted.grown grown rfl rfl, h.refreshed.refresh fresh completed pairs distinct unused mids past,
        h.claimed.grown grown rfl, h.native⟩
  | refreshFailure fresh failed past =>
      exact ⟨h.accounts.congr rfl rfl rfl,
        ⟨h.posted.executionsDistinct, h.posted.executedOnce, h.posted.adjustmentsDistinct, h.posted.executed,
          h.posted.credited, h.posted.referenced⟩,
        h.quoted.grown grown rfl rfl, h.refreshed.refreshFailure fresh, h.claimed.grown grown rfl, h.native⟩

end FxEngine
