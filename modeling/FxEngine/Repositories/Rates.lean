import FxEngine.Repositories.Balances

/-! # Rate rows -/

namespace FxEngine

open Numeric Transactions Program

structure RateRow where
  baseCurrency : Currency
  quoteCurrency : Currency
  midRate : Decimal

/-- All current rates, loaded in one read. -/
structure CurrentRateBook where
  rates : List CurrentRate
  lastUpdatedAt : Option Instant

/-- `book.rates.get((base, quote))`; a pair has one row. -/
def CurrentRateBook.get (book : CurrentRateBook) (pair : Currency × Currency) : Option CurrentRate :=
  Table.row CurrentRate.pair pair book.rates

/-- The book the rows make. -/
def rateBook (rows : List CurrentRate) : CurrentRateBook where
  rates := rows
  lastUpdatedAt := (rows.map CurrentRate.lastUpdatedAt).max?

/-- A row of `current_rates`. -/
abbrev StoredRate := CurrentRate ⊕ ForeignRate

namespace StoredRate

def lastUpdatedAt : StoredRate → Instant
  | .inl rate => rate.lastUpdatedAt
  | .inr rate => rate.lastUpdatedAt

/-- The driver makes a `datetime` of the timestamp; the engine's own are from its clock. -/
def loads : StoredRate → Bool
  | .inl _ => true
  | .inr rate => isDatetime rate.lastUpdatedAt

end StoredRate

def Tables.storedRates (db : Tables) : List StoredRate := db.currentRates.map .inl ++ db.foreignRates.map .inr

/-- `ORDER BY last_updated_at DESC LIMIT 1`. -/
def newestRate : List StoredRate → Option StoredRate
  | [] => none
  | rate :: rest =>
      match newestRate rest with
      | some best => some (if rate.lastUpdatedAt < best.lastUpdatedAt then best else rate)
      | none => some rate

/-- `Currency(row.base_currency), Currency(row.quote_currency)`. -/
def ForeignRate.currencies (row : ForeignRate) : Except PyError (Currency × Currency) := do
  let base ← currencyOfStr row.baseCurrency
  let quote ← currencyOfStr row.quoteCurrency
  return (base, quote)

/-- What it takes to load the rows that are not the engine's: the driver loads all rows first,
then each row's codes are read. -/
def loadForeign (rows : List ForeignRate) : Except PyError Unit :=
  if ∃ row ∈ rows, ¬ isDatetime row.lastUpdatedAt then .error .dataError
  else rows.forM fun row => do let _ ← row.currencies

variable [Platform]

def loadCurrentRateBook : Tx CurrentRateBook := do
  let (rows, foreign) ← select fun db : Tables => (db.currentRates, db.foreignRates)
  ofExcept (loadForeign foreign)
  pure (rateBook rows)

def getLatestCurrentRate : Tx (Option StoredRate) := do
  let newest ← select fun db : Tables => newestRate db.storedRates
  if newest.all StoredRate.loads then pure newest else .raise .dataError

/-- One snapshot and one current rate for each row; the snapshots' ids come with
the rows. -/
def storePairRows (refreshId : Uuid) (providerTimestamp : Option Datetime) (fetchedAt : Instant)
    (buySpreadBps sellSpreadBps : ℤ) (rateRows : List (Uuid × RateRow)) : Tx Unit :=
  rateRows.forM fun (snapshotId, row) => do
    flush [.insertSnapshot
      ⟨snapshotId, refreshId, row.baseCurrency, row.quoteCurrency, row.midRate, providerTimestamp, fetchedAt⟩]
    execute (.upsertCurrentRate
      ⟨row.baseCurrency, row.quoteCurrency, row.midRate, buySpreadBps, sellSpreadBps, snapshotId, fetchedAt⟩)

/-- Persist a successful refresh and its snapshots. -/
def createRefreshSuccess (refreshId : Uuid) (providerBaseCurrency : Currency)
    (providerTimestamp : Option Datetime) (fetchedAt : Instant) (buySpreadBps sellSpreadBps : ℤ)
    (pairsUpdated : ℕ) (rateRows : List (Uuid × RateRow)) : Tx RateRefresh := do
  let refresh : RateRefresh := ⟨refreshId, .completed, some providerBaseCurrency, providerTimestamp, fetchedAt,
    pairsUpdated, none, none⟩
  flush [.insertRefresh refresh]
  storePairRows refreshId providerTimestamp fetchedAt buySpreadBps sellSpreadBps rateRows
  pure refresh

/-- Persist a failed attempt. -/
def createRefreshFailure (refreshId : Uuid) (fetchedAt : Instant) (errorCode errorMessage : String) :
    Tx RateRefresh := do
  let refresh : RateRefresh := ⟨refreshId, .failed, none, none, fetchedAt, 0, some errorCode, some errorMessage⟩
  flush [.insertRefresh refresh]
  pure refresh

end FxEngine
