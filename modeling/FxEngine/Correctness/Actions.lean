import FxEngine.Api.Routes

/-! # The engine as a machine of atomic actions

What the engine is for, without sessions, locks or statements: accounts are
opened and credited, rates are replaced as a whole, quotes are written down and
executed at most once. Each action happens at once, when it is enabled. The
calls are shown later to commit nothing else.
-/

namespace FxEngine

open Numeric Transactions

/-! ## Rows that belong together -/

/-- The two ledger entries of an execution. -/
def debitEntry (executionId : Uuid) (quote : Quote) : LedgerEntry :=
  ⟨quote.customerId, quote.sourceCurrency, quote.sourceAmount, .debit, .execution, executionId⟩

def creditEntry (executionId : Uuid) (quote : Quote) : LedgerEntry :=
  ⟨quote.customerId, quote.destinationCurrency, quote.destinationAmount, .credit, .execution, executionId⟩

/-- The ledger entry of a credit adjustment. -/
def adjustmentEntry (adjustment : CreditAdjustment) : LedgerEntry :=
  ⟨adjustment.customerId, adjustment.currency, adjustment.amount, .credit, .creditAdjustment, adjustment.id⟩

/-- What the client is told about an execution. -/
def executionResponse (executionId : Uuid) (quote : Quote) (debited credited : Decimal) : ExecutionResponse where
  executionId := executionId
  quoteId := quote.id
  debit := ⟨quote.sourceCurrency, quote.sourceAmount⟩
  credit := ⟨quote.destinationCurrency, quote.destinationAmount⟩
  balances := [(quote.sourceCurrency, debited), (quote.destinationCurrency, credited)]

/-- A completed idempotency row. -/
def completedKey [Platform] (key requestHash : String) (payload : Json) (completedAt : Instant) :
    IdempotencyKey :=
  ⟨executionsEndpoint, key, requestHash, some (Platform.jsonb payload), some 200, some completedAt⟩

def snapshotOf (refresh : RateRefresh) (row : Uuid × RateRow) : RateSnapshot :=
  ⟨row.1, refresh.id, row.2.baseCurrency, row.2.quoteCurrency, row.2.midRate, refresh.providerTimestamp,
    refresh.fetchedAt⟩

def rateOf [Settings] (refresh : RateRefresh) (row : Uuid × RateRow) : CurrentRate :=
  ⟨row.2.baseCurrency, row.2.quoteCurrency, row.2.midRate, Settings.defaultBuySpreadBps,
    Settings.defaultSellSpreadBps, row.1, refresh.fetchedAt⟩

def Tables.setBalance (db : Tables) (customerId : Uuid) (currency : Currency) (balance : Decimal) : Tables :=
  { db with
    balances := Table.modify BalanceRow.slot (customerId, currency) ({ · with balance }) db.balances }

def Tables.legsOf (db : Tables) (quoteId : Uuid) : List QuoteLeg := db.legs.filter (·.quoteId = quoteId)

/-! ## Rate books -/

section

variable [Settings]

/-- The rows are what one completed refresh made the current rates. -/
structure BookOf (db : Tables) (rows : List CurrentRate) (refresh : RateRefresh) : Prop where
  recorded : refresh ∈ db.refreshes
  completed : refresh.status = .completed
  pairs : rows.map CurrentRate.pair = canonicalPairs
  fetched : ∀ rate ∈ rows, rate.lastUpdatedAt = refresh.fetchedAt
  spreads : ∀ rate ∈ rows, rate.buySpreadBps = Settings.defaultBuySpreadBps ∧
    rate.sellSpreadBps = Settings.defaultSellSpreadBps
  mids : ∀ rate ∈ rows, ∃ m : ℤ, rate.midRate = ⟨m, -rateScale⟩ ∧ 0 ≤ m ∧ m < 10 ^ numericPrecision
  snapshots : ∀ rate ∈ rows, ∃ s, db.snapshot rate.rateSnapshotId = some s ∧ s.rateRefreshId = refresh.id ∧
    (s.baseCurrency, s.quoteCurrency) = rate.pair ∧ s.midRate = rate.midRate ∧
    s.fetchedAt = refresh.fetchedAt

/-- The quote and its legs are what the rate book gives for some accepted amount. -/
structure Priced (rows : List CurrentRate) (quote : Quote) (legs : List QuoteLeg) : Prop where
  differ : quote.sourceCurrency ≠ quote.destinationCurrency
  terms : ∃ amount : Decimal, 0 < amount.coeff ∧ ∃ terms,
    quoteTerms (rateBook rows) quote.sourceCurrency quote.destinationCurrency amount = .ok terms ∧
    quote = terms.toQuote quote.id quote.customerId quote.sourceCurrency quote.destinationCurrency
      quote.createdAt ∧
    legRows quote.id 0 terms.legs = .ok legs
  fits : fitsMoney quote.sourceAmount ∧ fitsMoney quote.destinationAmount ∧ fitsRate quote.executableRate

end

/-! ## Actions -/

inductive Action where
  | openAccount (customerId : Uuid)
  | credit (adjustment : CreditAdjustment) (balance : Decimal)
  | quote (row : Quote) (legs : List QuoteLeg)
  | execute (executionId : Uuid) (quote : Quote) (debited credited : Decimal) (key : IdempotencyKey)
  | refresh (row : RateRefresh) (rows : List (Uuid × RateRow))
  | refreshFailure (row : RateRefresh)

namespace Action

def apply [Settings] : Action → Tables → Tables
  | openAccount customerId, db => { db with
      customers := db.customers ++ [customerId]
      balances := db.balances ++ Currency.all.map fun currency => ⟨customerId, currency, zeroMoney⟩ }
  | credit adjustment balance, db =>
      { db.setBalance adjustment.customerId adjustment.currency balance with
        adjustments := db.adjustments ++ [adjustment]
        ledger := db.ledger ++ [adjustmentEntry adjustment] }
  | quote row legs, db => { db with
      quotes := db.quotes ++ [row]
      legs := db.legs ++ legs }
  | execute executionId q debited credited key, db =>
      { (db.setBalance q.customerId q.sourceCurrency debited).setBalance
          q.customerId q.destinationCurrency credited with
        executions := db.executions ++ [⟨executionId, q.id, q.customerId⟩]
        ledger := db.ledger ++ [debitEntry executionId q, creditEntry executionId q]
        idempotencyKeys := db.idempotencyKeys ++ [key] }
  | refresh row rows, db => { db with
      refreshes := db.refreshes ++ [row]
      snapshots := db.snapshots ++ rows.map (snapshotOf row)
      currentRates := rows.map (rateOf row) }
  | refreshFailure row, db => { db with refreshes := db.refreshes ++ [row] }

/-- The rows and keys the action changes. -/
def slots : Action → List Resource
  | openAccount customerId => .customer customerId :: Currency.all.map (.balance customerId ·)
  | credit adjustment _ =>
      [.balance adjustment.customerId adjustment.currency, .adjustment adjustment.id,
        .ledger (adjustmentEntry adjustment).reference]
  | quote row _ => [.quote row.id]
  | execute executionId q _ _ key =>
      [.idempotencyKey key.endpoint key.key, .quote q.id, .balance q.customerId q.sourceCurrency,
        .balance q.customerId q.destinationCurrency, .execution executionId, .executionOf q.id,
        .ledger (debitEntry executionId q).reference, .ledger (creditEntry executionId q).reference]
  | refresh row rows => .rateRefreshLock :: .refresh row.id :: rows.map (.snapshot ·.1)
  | refreshFailure row => [.refresh row.id]

end Action

variable [Platform] [Settings]

/-- When an action may happen, and with which values. -/
inductive Enabled (db : Tables) (now : Instant) : Action → Prop where
  | openAccount {customerId : Uuid} (fresh : ¬ db.hasCustomer customerId) :
      Enabled db now (.openAccount customerId)
  | credit {adjustment : CreditAdjustment} {held amount : ℤ} (customer : db.hasCustomer adjustment.customerId)
      (fresh : db.adjustment adjustment.id = none)
      (balance : db.balance adjustment.customerId adjustment.currency =
        some ⟨adjustment.customerId, adjustment.currency, cents held⟩)
      (value : adjustment.amount = cents amount) (positive : 0 < amount)
      (fits : held + amount < 10 ^ numericPrecision) :
      Enabled db now (.credit adjustment (cents (held + amount)))
  | quote {row : Quote} {legs : List QuoteLeg} {rows : List CurrentRate} {refresh : RateRefresh}
      (customer : db.hasCustomer row.customerId) (fresh : db.quote row.id = none)
      (book : BookOf db rows refresh) (priced : Priced rows row legs) : Enabled db now (.quote row legs)
  | execute {executionId : Uuid} {quote : Quote} {key : String} {completedAt : Instant}
      {held other spent received : ℤ} (stored : db.quote quote.id = some quote)
      (unexecuted : db.executionOf quote.id = none) (fresh : db.execution executionId = none)
      (unclaimed : db.idempotencyKey executionsEndpoint key = none)
      (source : db.balance quote.customerId quote.sourceCurrency =
        some ⟨quote.customerId, quote.sourceCurrency, cents held⟩)
      (destination : db.balance quote.customerId quote.destinationCurrency =
        some ⟨quote.customerId, quote.destinationCurrency, cents other⟩)
      (sourceValue : quote.sourceAmount = cents spent) (destinationValue : quote.destinationAmount = cents received)
      (sourcePositive : 0 < spent) (destinationPositive : 0 < received) (funded : spent ≤ held)
      (fits : other + received < 10 ^ numericPrecision)
      (unexpired : ∃ t ≤ now, t < quote.expiresAt) :
      Enabled db now (.execute executionId quote (cents (held - spent)) (cents (other + received))
        (completedKey key (executionRequestHash quote.id)
          (executionResponse executionId quote (cents (held - spent)) (cents (other + received))).modelDump
          completedAt))
  | refresh {row : RateRefresh} {rows : List (Uuid × RateRow)} (fresh : db.refresh row.id = none)
      (completed : row.status = .completed)
      (pairs : rows.map (fun row => (row.2.baseCurrency, row.2.quoteCurrency)) = canonicalPairs)
      (distinct : (rows.map Prod.fst).Nodup) (unused : ∀ row ∈ rows, db.snapshot row.1 = none)
      (mids : ∀ row ∈ rows, ∃ m : ℤ, row.2.midRate = ⟨m, -rateScale⟩ ∧ 0 ≤ m ∧ m < 10 ^ numericPrecision)
      (past : row.fetchedAt ≤ now) (later : ∀ rate ∈ db.currentRates, rate.lastUpdatedAt ≤ row.fetchedAt) :
      Enabled db now (.refresh row rows)
  | refreshFailure {row : RateRefresh} (fresh : db.refresh row.id = none) (failed : row.status = .failed)
      (past : row.fetchedAt ≤ now) : Enabled db now (.refreshFailure row)

end FxEngine
