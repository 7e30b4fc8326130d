import FxEngine.Services.Executions
import FxEngine.Services.Rates

/-! # The HTTP surface

The request schemas, the endpoints and the calls a client can make. The
identifiers a call generates come with it; a clash with an existing row is a
primary key violation.
-/

namespace FxEngine

open Numeric Transactions Program

/-! ## Schemas -/

/-- A `Decimal` field with `gt=0` that must be written as a string. -/
def positiveDecimal (field : String) (value : Json) : Except PyError Decimal :=
  let invalid (message : String) : Except PyError Decimal :=
    .error (validationError "Request validation failed." [(field, message)])
  match value with
  | .str text =>
      match decimalOfStr text with
      | none => invalid "Input should be a valid decimal"
      | some (.finite d) => if 0 < d.coeff then .ok d else invalid "Input should be greater than 0"
      | some _ => invalid "Input should be a finite number"
  | _ => invalid "Value error, amount must be a decimal string"

def LegResponse.validate : Json → Option LegResponse
  | .dict fields => do
      let .str code ← Json.lookup "currency" fields | none
      let currency ← Currency.ofCode code
      let .ok (.finite amount) := decimalOfJson (← Json.lookup "amount" fields) | none
      return ⟨currency, amount⟩
  | _ => none

/-- `dict[Currency, Decimal]`. -/
def validateBalances : List (String × Json) → Option (List (Currency × Decimal))
  | [] => some []
  | (code, value) :: rest => do
      let currency ← Currency.ofCode code
      let .ok (.finite balance) := decimalOfJson value | none
      let others ← validateBalances rest
      return (currency, balance) :: others

def uuidOfJson : Json → Option Uuid
  | .str text => uuidOfStr text
  | _ => none

def ExecutionResponse.validate : Json → Option ExecutionResponse
  | .dict fields => do
      let executionId ← uuidOfJson (← Json.lookup "execution_id" fields)
      let quoteId ← uuidOfJson (← Json.lookup "quote_id" fields)
      let debit ← LegResponse.validate (← Json.lookup "debit" fields)
      let credit ← LegResponse.validate (← Json.lookup "credit" fields)
      let .dict entries ← Json.lookup "balances" fields | none
      let balances ← validateBalances entries
      return ⟨executionId, quoteId, debit, credit, balances⟩
  | _ => none

/-- The route's response model reads the result back and writes it out again. -/
def respond (result : Json) : Except PyError Json :=
  match ExecutionResponse.validate result with
  | some response => .ok response.modelDump
  | none => .error .responseValidationError

/-- The body an execution request is hashed with. -/
def executionBody (quoteId : Uuid) : List (String × Json) := [("quote_id", .str (uuidStr quoteId))]

/-! ## Endpoints -/

inductive Call where
  | createCustomer (customerId : Uuid)
  | getBalances (customerId : Uuid)
  | creditBalance (adjustmentId customerId : Uuid) (currency : Currency) (amount : Json)
  | createQuote (quoteId customerId : Uuid) (sourceCurrency destinationCurrency : Currency)
      (sourceAmount : Json)
  | executeQuote (executionId quoteId : Uuid) (idempotencyKey : String)
  | refreshRates (refreshId failureId : Uuid) (snapshotIds : ℕ → Uuid) (answer : ProviderAnswer)
  | readyz

inductive Reply where
  | customer (customerId : Uuid)
  | balances (customerId : Uuid) (balances : List (Currency × Decimal))
  | balance (currency : Currency) (amount : Decimal)
  | quote (quote : Quote)
  | execution (body : Json)
  | refresh (result : RefreshResult)
  | readiness (status database rates : String)

section Endpoints

variable [Platform] [Settings]

def creditBalanceEndpoint (adjustmentId customerId : Uuid) (currency : Currency) (amount : Json) :
    Tx Reply := do
  let amount ← ofExcept (positiveDecimal "amount" amount)
  let balance ← creditBalance adjustmentId customerId currency amount
  pure (.balance currency balance)

def createQuoteEndpoint (quoteId customerId : Uuid) (sourceCurrency destinationCurrency : Currency)
    (sourceAmount : Json) : Tx Reply := do
  let amount ← ofExcept (positiveDecimal "source_amount" sourceAmount)
  let quote ← createQuote quoteId customerId sourceCurrency destinationCurrency amount
  pure (.quote quote)

/-- The hash of an execution request. -/
def executionRequestHash (quoteId : Uuid) : String :=
  requestHash httpPost executionsPath (executionBody quoteId)

/-- Execute stored quote terms atomically under the required idempotency key. -/
def executeQuoteEndpoint (executionId quoteId : Uuid) (idempotencyKey : String) : Tx Reply := do
  let (result, _) ← executeQuote executionId quoteId idempotencyKey (executionRequestHash quoteId)
  let body ← ofExcept (respond result)
  pure (.execution body)

/-- Readiness for quote traffic; stale rates make the service not ready. -/
def readyz : Tx Reply := do
  match ← attempt reload with
  | .error _ => pure (.readiness "not_ready" "unhealthy" "unknown")
  | .ok _ =>
      let rates ← ratesFreshnessStatus
      if rates ≠ "fresh" then pure (.readiness "not_ready" "ok" rates)
      else pure (.readiness "ready" "ok" "fresh")

/-- What each call runs. -/
def program : Call → Tx Reply
  | .createCustomer customerId => do return .customer (← createCustomer customerId)
  | .getBalances customerId => do return .balances customerId (← getBalances customerId)
  | .creditBalance adjustmentId customerId currency amount =>
      creditBalanceEndpoint adjustmentId customerId currency amount
  | .createQuote quoteId customerId sourceCurrency destinationCurrency sourceAmount =>
      createQuoteEndpoint quoteId customerId sourceCurrency destinationCurrency sourceAmount
  | .executeQuote executionId quoteId idempotencyKey =>
      executeQuoteEndpoint executionId quoteId idempotencyKey
  | .refreshRates refreshId failureId snapshotIds answer => do
      return .refresh (← refreshRates refreshId failureId snapshotIds answer)
  | .readyz => readyz

end Endpoints

end FxEngine
