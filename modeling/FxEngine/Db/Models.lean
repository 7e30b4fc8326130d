import FxEngine.Utils.Errors
import FxEngine.Transactions.Table

/-! # Tables, constraints and statements

The rows the engine stores and the statements it sends. A column of type
`NUMERIC(20, s)` refuses what does not fit it, an inserted row claims its unique
keys until the end of its transaction, and a conflict or a dangling reference is
an `IntegrityError`. Columns that no modelled function reads are left out.
-/

namespace FxEngine

open Numeric Transactions

/-! ## Rows -/

structure BalanceRow where
  customerId : Uuid
  currency : Currency
  balance : Decimal
  deriving DecidableEq, Repr

namespace BalanceRow
abbrev slot (row : BalanceRow) : Uuid × Currency := (row.customerId, row.currency)
end BalanceRow

inductive RefreshStatus where
  | completed
  | failed
  deriving DecidableEq, Repr

/-- One refresh attempt. -/
structure RateRefresh where
  id : Uuid
  status : RefreshStatus
  providerBaseCurrency : Option Currency
  providerTimestamp : Option Datetime
  fetchedAt : Instant
  pairsUpdated : ℕ
  errorCode : Option String
  errorMessage : Option String
  deriving DecidableEq, Repr

/-- A mid rate as one refresh fetched it. -/
structure RateSnapshot where
  id : Uuid
  rateRefreshId : Uuid
  baseCurrency : Currency
  quoteCurrency : Currency
  midRate : Decimal
  providerTimestamp : Option Datetime
  fetchedAt : Instant
  deriving DecidableEq, Repr

structure CurrentRate where
  baseCurrency : Currency
  quoteCurrency : Currency
  midRate : Decimal
  buySpreadBps : ℤ
  sellSpreadBps : ℤ
  rateSnapshotId : Uuid
  lastUpdatedAt : Instant
  deriving DecidableEq, Repr

/-- A row of `current_rates` that is no rate of the engine's: its columns hold any three
letters and any timestamp of the server's, infinite ones included, and either the driver
cannot load the timestamp or a code is no supported currency. The engine writes none. -/
structure ForeignRate where
  baseCurrency : String
  quoteCurrency : String
  lastUpdatedAt : Instant
  foreign : ¬ (isDatetime lastUpdatedAt ∧ (Currency.ofCode baseCurrency).isSome ∧
    (Currency.ofCode quoteCurrency).isSome)

namespace CurrentRate
abbrev pair (rate : CurrentRate) : Currency × Currency := (rate.baseCurrency, rate.quoteCurrency)
end CurrentRate

structure Quote where
  id : Uuid
  customerId : Uuid
  sourceCurrency : Currency
  destinationCurrency : Currency
  sourceAmount : Decimal
  destinationAmount : Decimal
  executableRate : Decimal
  route : List Currency
  spreadBps : ℤ
  createdAt : Instant
  expiresAt : Instant
  deriving DecidableEq, Repr

inductive SpreadSide where
  | buy
  | sell
  deriving DecidableEq, Repr

/-- How one leg of a quote was priced. -/
structure QuoteLeg where
  quoteId : Uuid
  position : ℕ
  sourceCurrency : Currency
  destinationCurrency : Currency
  midRate : Decimal
  executableRate : Decimal
  spreadSide : SpreadSide
  spreadBps : ℤ
  rateSnapshotId : Uuid
  deriving DecidableEq, Repr

namespace QuoteLeg
abbrev slot (leg : QuoteLeg) : Uuid × ℕ := (leg.quoteId, leg.position)
end QuoteLeg

/-- The quote that was executed; the money it moved is in the ledger. -/
structure Execution where
  id : Uuid
  quoteId : Uuid
  customerId : Uuid
  deriving DecidableEq, Repr

structure CreditAdjustment where
  id : Uuid
  customerId : Uuid
  currency : Currency
  amount : Decimal
  deriving DecidableEq, Repr

inductive Direction where
  | debit
  | credit
  deriving DecidableEq, Repr

inductive ReferenceType where
  | execution
  | creditAdjustment
  deriving DecidableEq, Repr

/-- One movement of money. -/
structure LedgerEntry where
  customerId : Uuid
  currency : Currency
  amount : Decimal
  direction : Direction
  referenceType : ReferenceType
  referenceId : Uuid
  deriving DecidableEq, Repr

namespace LedgerEntry
abbrev reference (entry : LedgerEntry) : ReferenceType × Uuid × Direction :=
  (entry.referenceType, entry.referenceId, entry.direction)
end LedgerEntry

structure IdempotencyKey where
  endpoint : String
  key : String
  requestHash : String
  responsePayload : Option Json := none
  statusCode : Option ℕ := none
  completedAt : Option Instant := none

namespace IdempotencyKey
abbrev slot (row : IdempotencyKey) : String × String := (row.endpoint, row.key)
end IdempotencyKey

structure Tables where
  customers : List Uuid := []
  balances : List BalanceRow := []
  refreshes : List RateRefresh := []
  snapshots : List RateSnapshot := []
  currentRates : List CurrentRate := []
  /-- The other rows of `current_rates`. -/
  foreignRates : List ForeignRate := []
  quotes : List Quote := []
  legs : List QuoteLeg := []
  executions : List Execution := []
  adjustments : List CreditAdjustment := []
  ledger : List LedgerEntry := []
  idempotencyKeys : List IdempotencyKey := []

namespace Tables

open Table

def hasCustomer (db : Tables) (id : Uuid) : Prop := id ∈ db.customers

instance (db : Tables) (id : Uuid) : Decidable (db.hasCustomer id) :=
  inferInstanceAs (Decidable (id ∈ db.customers))

def balance (db : Tables) (customerId : Uuid) (currency : Currency) : Option BalanceRow :=
  row BalanceRow.slot (customerId, currency) db.balances

def quote (db : Tables) (id : Uuid) : Option Quote := row Quote.id id db.quotes

def snapshot (db : Tables) (id : Uuid) : Option RateSnapshot := row RateSnapshot.id id db.snapshots

def refresh (db : Tables) (id : Uuid) : Option RateRefresh := row RateRefresh.id id db.refreshes

def execution (db : Tables) (id : Uuid) : Option Execution := row Execution.id id db.executions

def executionOf (db : Tables) (quoteId : Uuid) : Option Execution :=
  row Execution.quoteId quoteId db.executions

def adjustment (db : Tables) (id : Uuid) : Option CreditAdjustment :=
  row CreditAdjustment.id id db.adjustments

def leg (db : Tables) (quoteId : Uuid) (position : ℕ) : Option QuoteLeg :=
  row QuoteLeg.slot (quoteId, position) db.legs

def entry (db : Tables) (reference : ReferenceType × Uuid × Direction) : Option LedgerEntry :=
  row LedgerEntry.reference reference db.ledger

def idempotencyKey (db : Tables) (endpoint key : String) : Option IdempotencyKey :=
  row IdempotencyKey.slot (endpoint, key) db.idempotencyKeys

end Tables

/-! ## Statements -/

inductive Statement where
  | insertCustomer (id : Uuid)
  /-- `INSERT … ON CONFLICT DO NOTHING` with a zero balance. -/
  | insertBalance (customerId : Uuid) (currency : Currency)
  | updateBalance (customerId : Uuid) (currency : Currency) (balance : Decimal)
  | insertRefresh (row : RateRefresh)
  | insertSnapshot (row : RateSnapshot)
  /-- `INSERT … ON CONFLICT DO UPDATE`. -/
  | upsertCurrentRate (row : CurrentRate)
  | insertQuote (row : Quote)
  | insertLeg (row : QuoteLeg)
  | insertExecution (row : Execution)
  | insertAdjustment (row : CreditAdjustment)
  | insertLedger (row : LedgerEntry)
  | insertIdempotencyKey (row : IdempotencyKey)
  | completeIdempotencyKey (endpoint key : String) (responsePayload : Json) (statusCode : ℕ)
      (completedAt : Instant)

/-- Row locks, unique-key slots and the advisory lock of the refresh. -/
inductive Resource where
  | customer (id : Uuid)
  | balance (customerId : Uuid) (currency : Currency)
  | refresh (id : Uuid)
  | snapshot (id : Uuid)
  | currentRate (pair : Currency × Currency)
  | rateRefreshLock
  | quote (id : Uuid)
  | leg (quoteId : Uuid) (position : ℕ)
  | execution (id : Uuid)
  | executionOf (quoteId : Uuid)
  | adjustment (id : Uuid)
  | ledger (reference : ReferenceType × Uuid × Direction)
  | idempotencyKey (endpoint key : String)
  deriving DecidableEq

/-- The counters of `/metrics`. -/
inductive Counter where
  | quoteCreatedTotal
  | quoteExpiredTotal
  | executionSuccessTotal
  | executionFailureTotal
  | idempotencyReplayTotal
  | idempotencyConflictTotal
  | insufficientFundsTotal
  | rateRefreshSuccessTotal
  | rateRefreshFailureTotal
  | staleRatesTotal
  deriving DecidableEq, Repr

/-! ## Columns -/

def numericPrecision : ℕ := 20
def idempotencyKeyMaxLength : ℕ := 255

/-- The value fits `NUMERIC(20, scale)`. Everything the engine stores has been
rounded to the scale of its column before. -/
def fitsNumeric (scale : ℕ) (d : Decimal) : Prop := (d.rescale (-scale)).natAbs < 10 ^ numericPrecision

/-- The value fits `INTEGER`. -/
def fitsInteger (n : ℤ) : Prop := -2 ^ 31 ≤ n ∧ n < 2 ^ 31

instance (scale : ℕ) (d : Decimal) : Decidable (fitsNumeric scale d) := inferInstanceAs (Decidable (_ < _))
instance (n : ℤ) : Decidable (fitsInteger n) := inferInstanceAs (Decidable (_ ∧ _))

abbrev fitsMoney (d : Decimal) : Prop := fitsNumeric standardMinorUnitPlaces d
abbrev fitsRate (d : Decimal) : Prop := fitsNumeric rateScale d

theorem fitsMoney_cents {n : ℤ} : fitsMoney (cents n) ↔ n.natAbs < 10 ^ numericPrecision := by
  simp [fitsNumeric, cents, Decimal.rescale, standardMinorUnitPlaces]

theorem natAbs_fits {n : ℤ} (lower : 0 ≤ n) (upper : n < 10 ^ numericPrecision) :
    n.natAbs < 10 ^ numericPrecision := by
  simp only [numericPrecision] at upper ⊢
  omega

/-- A violated constraint and its error. -/
def violates (constraint : Prop) [Decidable constraint] (error : PyError) : Option PyError :=
  if constraint then some error else none

@[simp] theorem violates_eq_none {constraint : Prop} [Decidable constraint] {error : PyError} :
    violates constraint error = none ↔ ¬ constraint := by
  simp [violates]

section Database

variable [Platform]

namespace Statement

open Table

/-- What a statement must own before it can run. -/
def claims : Statement → Tables → List Resource
  | insertCustomer id, _ => [.customer id]
  | insertBalance customerId currency, db =>
      -- an existing row is left alone and not waited for
      if (db.balance customerId currency).isSome then [] else [.balance customerId currency]
  | updateBalance customerId currency _, _ => [.balance customerId currency]
  | insertRefresh row, _ => [.refresh row.id]
  | insertSnapshot row, _ => [.snapshot row.id]
  | upsertCurrentRate row, _ => [.currentRate row.pair]
  | insertQuote row, _ => [.quote row.id]
  | insertLeg row, _ => [.leg row.quoteId row.position]
  | insertExecution row, _ => [.execution row.id, .executionOf row.quoteId]
  | insertAdjustment row, _ => [.adjustment row.id]
  | insertLedger row, _ => [.ledger row.reference]
  | insertIdempotencyKey row, _ => [.idempotencyKey row.endpoint row.key]
  | completeIdempotencyKey endpoint key _ _ _, _ => [.idempotencyKey endpoint key]

def storable (timestamp : Option Datetime) : Prop :=
  ∀ t ∈ timestamp, Platform.storesTimestamp t = true

instance (timestamp : Option Datetime) : Decidable (storable timestamp) :=
  inferInstanceAs (Decidable (∀ t ∈ timestamp, _))

/-- The first constraint the statement violates. -/
def check : Statement → Tables → Option PyError
  | insertCustomer id, db => violates (db.hasCustomer id) .integrityError
  | insertBalance customerId currency, db =>
      violates ((db.balance customerId currency).isNone ∧ ¬ db.hasCustomer customerId) .integrityError
  | updateBalance _ _ balance, _ =>
      violates (¬ fitsMoney balance) .dataError <|> violates (balance < zeroMoney) .integrityError
  | insertRefresh row, db =>
      violates (¬ storable row.providerTimestamp) .dataError <|>
        violates ((db.refresh row.id).isSome) .integrityError
  | insertSnapshot row, db =>
      violates (¬ fitsRate row.midRate) .dataError <|>
        violates (¬ storable row.providerTimestamp) .dataError <|>
        violates ((db.snapshot row.id).isSome ∨ (db.refresh row.rateRefreshId).isNone) .integrityError
  | upsertCurrentRate row, db =>
      violates (¬ fitsRate row.midRate) .dataError <|>
        violates (¬ fitsInteger row.buySpreadBps ∨ ¬ fitsInteger row.sellSpreadBps) .dataError <|>
        violates ((db.snapshot row.rateSnapshotId).isNone) .integrityError
  | insertQuote row, db =>
      violates (¬ fitsMoney row.sourceAmount ∨ ¬ fitsMoney row.destinationAmount) .dataError <|>
        violates (¬ fitsRate row.executableRate ∨ ¬ fitsInteger row.spreadBps) .dataError <|>
        violates ((db.quote row.id).isSome ∨ ¬ db.hasCustomer row.customerId) .integrityError
  | insertLeg row, db =>
      violates (¬ fitsRate row.midRate ∨ ¬ fitsRate row.executableRate) .dataError <|>
        violates (¬ fitsInteger row.spreadBps) .dataError <|>
        violates ((db.leg row.quoteId row.position).isSome ∨ (db.quote row.quoteId).isNone ∨
          (db.snapshot row.rateSnapshotId).isNone) .integrityError
  | insertExecution row, db =>
      violates ((db.execution row.id).isSome ∨ (db.executionOf row.quoteId).isSome) .integrityError <|>
        violates ((db.quote row.quoteId).isNone ∨ ¬ db.hasCustomer row.customerId) .integrityError
  | insertAdjustment row, db =>
      violates (¬ fitsMoney row.amount) .dataError <|>
        violates ((db.adjustment row.id).isSome ∨ ¬ db.hasCustomer row.customerId) .integrityError
  | insertLedger row, db =>
      violates (¬ fitsMoney row.amount) .dataError <|>
        violates (¬ zeroMoney < row.amount) .integrityError <|>
        violates ((db.entry row.reference).isSome ∨ ¬ db.hasCustomer row.customerId) .integrityError
  | insertIdempotencyKey row, db =>
      violates (idempotencyKeyMaxLength < row.key.length) .dataError <|>
        violates ((db.idempotencyKey row.endpoint row.key).isSome) .integrityError
  | completeIdempotencyKey .., _ => none

section Check

variable {db : Tables}

omit [Platform] in
private theorem orElse_none {a b : Option PyError} : (a <|> b) = none ↔ a = none ∧ b = none := by
  cases a <;> simp

theorem check_updateBalance {customerId : Uuid} {currency : Currency} {balance : Decimal} :
    (updateBalance customerId currency balance).check db = none ↔ fitsMoney balance ∧ ¬ balance < zeroMoney := by
  simp only [check, orElse_none, violates_eq_none, not_not]

theorem check_insertRefresh {row : RateRefresh} :
    (insertRefresh row).check db = none ↔ storable row.providerTimestamp ∧ db.refresh row.id = none := by
  simp only [check, orElse_none, violates_eq_none, not_not, Option.not_isSome_iff_eq_none]

theorem check_insertSnapshot {row : RateSnapshot} :
    (insertSnapshot row).check db = none ↔ fitsRate row.midRate ∧ storable row.providerTimestamp ∧
      db.snapshot row.id = none ∧ (db.refresh row.rateRefreshId).isSome := by
  simp only [check, orElse_none, violates_eq_none, not_or, not_not,
    Option.isNone_iff_eq_none, Option.isSome_iff_ne_none, ne_eq]

theorem check_upsertCurrentRate {row : CurrentRate} :
    (upsertCurrentRate row).check db = none ↔ fitsRate row.midRate ∧
      (fitsInteger row.buySpreadBps ∧ fitsInteger row.sellSpreadBps) ∧
      (db.snapshot row.rateSnapshotId).isSome := by
  simp only [check, orElse_none, violates_eq_none, not_or, not_not, Option.isNone_iff_eq_none,
    Option.isSome_iff_ne_none, ne_eq]

theorem check_insertQuote {row : Quote} :
    (insertQuote row).check db = none ↔ (fitsMoney row.sourceAmount ∧ fitsMoney row.destinationAmount) ∧
      (fitsRate row.executableRate ∧ fitsInteger row.spreadBps) ∧ db.quote row.id = none ∧
      db.hasCustomer row.customerId := by
  simp only [check, orElse_none, violates_eq_none, not_or, not_not, Option.not_isSome_iff_eq_none]

theorem check_insertLeg {row : QuoteLeg} :
    (insertLeg row).check db = none ↔ (fitsRate row.midRate ∧ fitsRate row.executableRate) ∧
      fitsInteger row.spreadBps ∧ db.leg row.quoteId row.position = none ∧ (db.quote row.quoteId).isSome ∧
      (db.snapshot row.rateSnapshotId).isSome := by
  simp only [check, orElse_none, violates_eq_none, not_or, not_not,
    Option.isNone_iff_eq_none, Option.isSome_iff_ne_none, ne_eq]

theorem check_insertExecution {row : Execution} :
    (insertExecution row).check db = none ↔
      (db.execution row.id = none ∧ db.executionOf row.quoteId = none) ∧ (db.quote row.quoteId).isSome ∧
      db.hasCustomer row.customerId := by
  simp only [check, orElse_none, violates_eq_none, not_or, not_not,
    Option.isNone_iff_eq_none, Option.isSome_iff_ne_none, ne_eq]

theorem check_insertAdjustment {row : CreditAdjustment} :
    (insertAdjustment row).check db = none ↔ fitsMoney row.amount ∧ db.adjustment row.id = none ∧
      db.hasCustomer row.customerId := by
  simp only [check, orElse_none, violates_eq_none, not_or, not_not, Option.not_isSome_iff_eq_none]

theorem check_insertLedger {row : LedgerEntry} :
    (insertLedger row).check db = none ↔ fitsMoney row.amount ∧ zeroMoney < row.amount ∧
      db.entry row.reference = none ∧ db.hasCustomer row.customerId := by
  simp only [check, orElse_none, violates_eq_none, not_or, not_not, Option.not_isSome_iff_eq_none]

theorem check_insertIdempotencyKey {row : IdempotencyKey} :
    (insertIdempotencyKey row).check db = none ↔ row.key.length ≤ idempotencyKeyMaxLength ∧
      db.idempotencyKey row.endpoint row.key = none := by
  simp only [check, orElse_none, violates_eq_none, not_lt, Option.not_isSome_iff_eq_none]

/-- A key is refused for its length, or because it is taken. -/
theorem check_insertIdempotencyKey_some {row : IdempotencyKey} {e : PyError}
    (refused : (insertIdempotencyKey row).check db = some e) :
    e = .dataError ∧ idempotencyKeyMaxLength < row.key.length ∨
      e = .integrityError ∧ row.key.length ≤ idempotencyKeyMaxLength := by
  simp only [check, violates] at refused
  split at refused
  · rename_i long
    exact .inl ⟨(Option.some.inj refused).symm, long⟩
  · rename_i fits
    split at refused <;> cases refused
    exact .inr ⟨rfl, not_lt.mp fits⟩

end Check

def apply : Statement → Tables → Tables
  | insertCustomer id, db => { db with customers := db.customers ++ [id] }
  | insertBalance customerId currency, db =>
      if (db.balance customerId currency).isSome then db
      else { db with balances := db.balances ++ [⟨customerId, currency, zeroMoney⟩] }
  | updateBalance customerId currency balance, db =>
      { db with
        balances := modify BalanceRow.slot (customerId, currency) ({ · with balance }) db.balances }
  | insertRefresh row, db => { db with refreshes := db.refreshes ++ [row] }
  | insertSnapshot row, db => { db with snapshots := db.snapshots ++ [row] }
  | upsertCurrentRate row, db => { db with currentRates := upsert CurrentRate.pair row db.currentRates }
  | insertQuote row, db => { db with quotes := db.quotes ++ [row] }
  | insertLeg row, db => { db with legs := db.legs ++ [row] }
  | insertExecution row, db => { db with executions := db.executions ++ [row] }
  | insertAdjustment row, db => { db with adjustments := db.adjustments ++ [row] }
  | insertLedger row, db => { db with ledger := db.ledger ++ [row] }
  | insertIdempotencyKey row, db => { db with idempotencyKeys := db.idempotencyKeys ++ [row] }
  | completeIdempotencyKey endpoint key responsePayload statusCode completedAt, db =>
      { db with
        idempotencyKeys := modify IdempotencyKey.slot (endpoint, key)
          (fun row => { row with
            responsePayload := some (Platform.jsonb responsePayload)
            statusCode := some statusCode
            completedAt := some completedAt }) db.idempotencyKeys }

end Statement

/-- The engine's database. -/
abbrev fx : Database where
  State := Tables
  Write := Statement
  Resource := Resource
  Error := PyError
  Metric := Counter
  apply := Statement.apply
  claims := Statement.claims
  check := Statement.check

/-- A piece of a request handler with its session. -/
abbrev Tx (α : Type) := Program fx α

end Database

end FxEngine
