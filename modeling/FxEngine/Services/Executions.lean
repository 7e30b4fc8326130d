import FxEngine.Services.Customers

/-! # Quote execution

The only operation that moves money between currencies. The idempotency key, the
balances, the ledger and the execution change in one transaction.
-/

namespace FxEngine

open Numeric Transactions Program

def httpPost : String := "POST"
def executionsPath : String := "/executions"

/-- The endpoint stored on every idempotency row. -/
def executionsEndpoint : String := httpPost ++ " " ++ executionsPath

def errorIdempotencyConflict : String := "idempotency_conflict"
def errorQuoteNotFound : String := "quote_not_found"
def errorQuoteAlreadyExecuted : String := "quote_already_executed"
def errorQuoteExpired : String := "quote_expired"
def errorInsufficientFunds : String := "insufficient_funds"

/-! ## The response -/

/-- One side of an execution as the client sees it. -/
structure LegResponse where
  currency : Currency
  amount : Decimal
  deriving DecidableEq

structure ExecutionResponse where
  executionId : Uuid
  quoteId : Uuid
  debit : LegResponse
  credit : LegResponse
  balances : List (Currency × Decimal)
  deriving DecidableEq

/-- The field serializer formats the amount. -/
def LegResponse.modelDump (leg : LegResponse) : Json :=
  .dict [("currency", .str leg.currency.value), ("amount", .str (decimalToStr leg.amount))]

/-- `model_dump(mode="json")`. The serializer leaves the dictionary alone, so its
values are written by `str`. -/
def ExecutionResponse.modelDump (response : ExecutionResponse) : Json :=
  .dict [("execution_id", .str (uuidStr response.executionId)), ("quote_id", .str (uuidStr response.quoteId)),
    ("debit", response.debit.modelDump), ("credit", response.credit.modelDump),
    ("balances", .dict (response.balances.map fun (currency, balance) => (currency.value, .str balance.str)))]

/-! ## The request hash -/

/-- What an idempotency key is bound to. -/
def requestPayload (method path : String) (body : List (String × Json)) : String :=
  Json.dumps (.dict [("method", .str method), ("path", .str path), ("body", .dict body)])

variable [Platform]

def requestHash (method path : String) (body : List (String × Json)) : String :=
  Platform.sha256 (requestPayload method path body)

/-! ## The service -/

/-- Claim the key; another request may have taken it meanwhile. -/
def claimKey (idempotencyKey reqHash : String) : Tx Unit := do
  match ← attempt (flush [.insertIdempotencyKey
      { endpoint := executionsEndpoint, key := idempotencyKey, requestHash := reqHash }]) with
  | .ok _ => pure ()
  | .error .integrityError =>
      rollbackAll
      inc .idempotencyConflictTotal
      .raise (conflict errorIdempotencyConflict "Idempotency-Key is already in use.")
  | .error e => .raise e

/-- Lock the quote and check that it may be executed now. -/
def validateQuote (quoteId : Uuid) (quote : Quote) : Tx Unit := do
  let existingExecution ← select fun db : Tables => db.executionOf quoteId
  if existingExecution.isSome then
    rollbackAll
    .raise (conflict errorQuoteAlreadyExecuted "Quote has already been executed.")
  else
    let now ← Program.now
    if quote.expiresAt ≤ now then
      rollbackAll
      inc .quoteExpiredTotal
      .raise (conflict errorQuoteExpired "Quote has expired.")
    else pure ()

/-- The two currencies in the order of their codes. -/
def lockOrder (source destination : Currency) : Currency × Currency :=
  if source.value ≤ destination.value then (source, destination) else (destination, source)

/-- Create missing balance rows, then lock both in a fixed order. -/
def lockBalances (quote : Quote) : Tx (Currency → Decimal) := do
  let (first, second) := lockOrder quote.sourceCurrency quote.destinationCurrency
  let _ ← ensureBalance quote.customerId first
  let _ ← ensureBalance quote.customerId second
  let firstRow ← getBalanceForUpdate quote.customerId first
  let secondRow ← getBalanceForUpdate quote.customerId second
  pure fun currency => if currency = second then secondRow.balance else firstRow.balance

/-- Post both ledger entries and the cached balances, and complete the key. -/
def settle (executionId : Uuid) (idempotencyKey : String) (quote : Quote)
    (locked : Currency → Decimal) : Tx Json := do
  let source := quote.sourceCurrency
  let destination := quote.destinationCurrency
  flush [.insertExecution ⟨executionId, quote.id, quote.customerId⟩]
  appendEntry ⟨quote.customerId, source, quote.sourceAmount, .debit, .execution, executionId⟩ []
  let debited ← ofExcept (arith (roundMoney (locked source - quote.sourceAmount) source))
  let locked := Function.update locked source debited
  -- the hook between debit and credit
  mayFail
  appendEntry ⟨quote.customerId, destination, quote.destinationAmount, .credit, .execution, executionId⟩
    [.updateBalance quote.customerId source debited]
  let credited ← ofExcept (arith (roundMoney (locked destination + quote.destinationAmount) destination))
  let payload := ExecutionResponse.modelDump
    { executionId, quoteId := quote.id
      debit := ⟨source, quote.sourceAmount⟩
      credit := ⟨destination, quote.destinationAmount⟩
      balances := [(source, debited), (destination, credited)] }
  let completedAt ← now
  -- the commit flushes the destination balance and the completed key
  flush [.updateBalance quote.customerId destination credited,
    .completeIdempotencyKey executionsEndpoint idempotencyKey payload 200 completedAt]
  commitAll
  inc .executionSuccessTotal
  -- the log line reads the quote and the execution
  reload
  pure payload

/-- The work on a locked quote. -/
def executeLocked (executionId quoteId : Uuid) (idempotencyKey : String) (quote : Quote) : Tx Json := do
  validateQuote quoteId quote
  let locked ← lockBalances quote
  if locked quote.sourceCurrency < quote.sourceAmount then
    rollbackAll
    inc .insufficientFundsTotal
    .raise (conflict errorInsufficientFunds "Insufficient source balance.")
  else settle executionId idempotencyKey quote locked

/-- `SELECT … FROM quotes … FOR UPDATE`. -/
def lockQuote (quoteId : Uuid) : Tx (Option Quote) :=
  selectForUpdate (fun db : Tables => if (db.quote quoteId).isSome then [.quote quoteId] else [])
    (fun db : Tables => db.quote quoteId)

/-- The handler of everything that goes wrong after the key was claimed. The log
line reads the quote, which the rollback has expired. -/
def executionFailed {α : Type} (quote : Option Quote) (e : PyError) : Tx α := do
  rollbackAll
  inc .executionFailureTotal
  if quote.isSome then reload
  .raise e

/-- The guarded block. -/
def executeClaimed (executionId quoteId : Uuid) (idempotencyKey : String) : Tx Json := do
  match ← attempt (lockQuote quoteId) with
  | .error e => executionFailed none e
  | .ok none =>
      rollbackAll
      executionFailed none (notFound errorQuoteNotFound s!"Quote {uuidStr quoteId} not found.")
  | .ok (some quote) =>
      match ← attempt (executeLocked executionId quoteId idempotencyKey quote) with
      | .error e => executionFailed (some quote) e
      | .ok payload => pure payload

/-- Execute stored quote terms exactly once, or return an idempotent replay. -/
def executeQuote (executionId quoteId : Uuid) (idempotencyKey reqHash : String) : Tx (Json × Bool) := do
  if idempotencyKey = "" then .raise (validationError "Idempotency-Key is required." [])
  else
    let existingKey ← select fun db : Tables => db.idempotencyKey executionsEndpoint idempotencyKey
    let replay : Tx (Option Json) := match existingKey with
      | none => pure none
      | some existing =>
          if existing.requestHash ≠ reqHash then do
            inc .idempotencyConflictTotal
            .raise (conflict errorIdempotencyConflict
              "Idempotency-Key was already used with a different request.")
          else match existing.completedAt, existing.responsePayload with
            | some _, some payload =>
                if payload.truthy then do
                  inc .idempotencyReplayTotal
                  pure (some payload)
                else pure none
            | _, _ => pure none
    match ← replay with
    | some payload => pure (payload, true)
    | none =>
        claimKey idempotencyKey reqHash
        let payload ← executeClaimed executionId quoteId idempotencyKey
        pure (payload, false)

end FxEngine
