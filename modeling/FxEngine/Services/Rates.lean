import FxEngine.Services.Quotes

/-! # Rate refresh and freshness

Each refresh keeps immutable snapshots and replaces the current rates, which
store one direction of each provider pair.
-/

namespace FxEngine

open Numeric Transactions Program

def errorUpstreamBadResponse : String := "upstream_bad_response"

/-- Only provider-supplied pairs are stored. -/
def canonicalPairs : List (Currency × Currency) := [(.USD, .KES), (.USD, .NGN), (.USD, .EUR)]

/-! ## The provider -/

/-- What `response.json()` makes of a body. -/
inductive ResponseBody where
  | json (value : Json)
  /-- `ValueError`. -/
  | invalid
  /-- `RecursionError`. -/
  | tooDeep

/-- What the HTTP call brings back. -/
inductive ProviderAnswer where
  | timeout
  | transportError
  | response (statusCode : ℕ) (body : ResponseBody)

structure ProviderRates where
  baseCurrency : Currency
  rates : List (Currency × PyDecimal)
  providerTimestamp : Option Datetime
  rawPayload : List (String × Json)

namespace ProviderRates

/-- `rates[currency]`. -/
def rate (provided : ProviderRates) (currency : Currency) : Option PyDecimal :=
  (provided.rates.find? (·.1 = currency)).map Prod.snd

end ProviderRates

/-- `Decimal(str(value))`; the text of any other value is no number. -/
def decimalOfJson : Json → Except DecimalException PyDecimal
  | .int n => .ok (.finite ⟨n, 0⟩)
  | .float text | .str text =>
      match decimalOfStr text with
      | some d => .ok d
      | none => .error .invalidOperation
  | _ => .error .invalidOperation

/-- `rate <= 0`; comparing a NaN is invalid. -/
def nonPositive : PyDecimal → Except DecimalException Bool
  | .finite d => .ok (d.coeff ≤ 0)
  | .infinity negative => .ok negative
  | .nan => .error .invalidOperation

/-- `any(rate <= 0 for rate in rates)`. -/
def anyNonPositive : List PyDecimal → Except DecimalException Bool
  | [] => .ok false
  | d :: rest => do
      if ← nonPositive d then return true
      anyNonPositive rest

/-- `value.replace("Z", "+00:00")`. -/
def replaceZ (text : String) : String :=
  String.ofList (text.toList.flatMap fun c => if c = 'Z' then "+00:00".toList else [c])

section Provider

variable [Platform]

/-- `str(value)` does not come to an end. -/
def unwritable : Json → Bool
  | .list items => Platform.strTooDeep (.list items)
  | .dict fields => Platform.strTooDeep (.dict fields)
  | _ => false

/-- `Decimal(str(value))` of a rate. -/
def providerRate (value : Json) : Except PyError PyDecimal :=
  if unwritable value then .error .recursionError else arith (decimalOfJson value)

/-- The supported currencies of the rates map. -/
def supportedRates : List (String × Json) → Except PyError (List (Currency × PyDecimal))
  | [] => .ok []
  | (code, value) :: rest =>
      match Currency.ofCode code with
      | none => supportedRates rest
      | some currency => do
          let d ← providerRate value
          let others ← supportedRates rest
          return (currency, d) :: others

/-- `Currency(value)`; the message of the `ValueError` quotes the value. -/
def currencyOfJson (value : Json) : Except PyError Currency :=
  match value with
  | .str code => currencyOfStr code
  | other => .error (if unwritable other then .recursionError else .valueError "not a valid Currency")

def providerTimestamp : Json → Except PyError (Option Datetime)
  | .null => .ok none
  | .str text =>
      match Platform.fromisoformat (replaceZ text) with
      | some t => .ok (some t)
      | none => .error (.valueError "Invalid isoformat string")
  -- a bool is an int
  | .int n => (Platform.fromtimestamp (.int n)).map some
  | .float text => (Platform.fromtimestamp (.float text)).map some
  | .bool b => (Platform.fromtimestamp (.bool b)).map some
  | _ => .error (.valueError "unsupported provider timestamp")

/-- The part of `fetch` inside its second `try`. -/
def sanitize (payload : List (String × Json)) : Except PyError ProviderRates := do
  let baseCurrency ← currencyOfJson ((Json.lookup "base" payload).getD (.str Currency.USD.value))
  let rates ← match Json.lookup "rates" payload with
    | some (.dict fields) => supportedRates fields
    | some _ => .error .attributeError
    | none => .error .keyError
  let timestamp ← providerTimestamp ((Json.lookup "timestamp" payload).getD .null)
  return ⟨baseCurrency, rates, timestamp, payload⟩

/-- `except (ValueError, DecimalException, TypeError)`. -/
def invalidRateData : PyError → Bool
  | .valueError _ | .decimal _ | .typeError => true
  | _ => false

/-- `payload.get("success") is False`. -/
def reportsFailure (payload : List (String × Json)) : Bool :=
  match Json.lookup "success" payload with
  | some (.bool false) => true
  | _ => false

/-- Fetch and validate the provider's payload before it reaches persistence. -/
def fetch : ProviderAnswer → Except PyError ProviderRates
  | .timeout => .error (.api (gatewayTimeout "Rate provider timed out."))
  | .transportError => .error (.api (badGateway errorUpstreamBadResponse "Rate provider request failed."))
  | .response _ .invalid =>
      .error (.api (badGateway errorUpstreamBadResponse "Rate provider returned invalid JSON."))
  | .response _ .tooDeep => .error .recursionError
  | .response statusCode (.json body) =>
      if 400 ≤ statusCode then
        .error (.api (badGateway errorUpstreamBadResponse "Rate provider returned an HTTP error."))
      else match body with
        | .dict payload =>
            if reportsFailure payload ∨ (Json.lookup "rates" payload).isNone then
              .error (.api (badGateway errorUpstreamBadResponse
                "Rate provider returned an unusable response."))
            else match sanitize payload with
              | .error e =>
                  if invalidRateData e then
                    .error (.api (badGateway errorUpstreamBadResponse
                      "Rate provider returned invalid rate data."))
                  else .error e
              | .ok provided =>
                  let missing := Currency.all.any fun currency =>
                    currency ≠ provided.baseCurrency ∧ (provided.rate currency).isNone
                  let incomplete : Except PyError ProviderRates :=
                    .error (.api (badGateway errorUpstreamBadResponse
                      "Rate provider returned incomplete or non-positive rates."))
                  if missing then incomplete
                  else match anyNonPositive (provided.rates.map Prod.snd) with
                    | .error e => .error (.decimal e)
                    | .ok true => incomplete
                    | .ok false => .ok provided
        -- only an object has `get`
        | _ => .error .attributeError

end Provider

/-- The provider's rate for `quote` relative to its base currency. -/
def pairMidRate (provided : ProviderRates) (quote : Currency) : Except PyError PyDecimal :=
  if quote = provided.baseCurrency then .ok (.finite decimalOne)
  else match provided.rate quote with
    | some rate => .ok rate
    | none => .error .keyError

/-- `round_rate` of a provider's rate; an infinite one cannot be quantized, and
`fetch` let no NaN through. -/
def roundProviderRate : PyDecimal → Except DecimalException Decimal
  | .finite d => roundRate d
  | _ => .error .invalidOperation

/-- The rows of the canonical pairs. -/
def rateRows (provided : ProviderRates) : List (Currency × Currency) → Except PyError (List RateRow)
  | [] => .ok []
  | (base, quote) :: pairs => do
      let rate ← pairMidRate provided quote
      let midRate ← arith (roundProviderRate rate)
      let others ← rateRows provided pairs
      return ⟨base, quote, midRate⟩ :: others

section Payload

variable [Platform]

/-- `_hash_provider_payload`; nothing that is modelled reads the hash, but it may not come about. -/
def hashProviderPayload (payload : List (String × Json)) : Except PyError String :=
  if Platform.dumpsTooDeep (.dict payload) then .error .recursionError
  else .ok (Platform.sha256 (Json.dict payload).dumps)

/-- What is stored of a refresh, as far as it is computed before the first statement. -/
def refreshRows (provided : ProviderRates) : Except PyError (List RateRow) := do
  let rows ← rateRows provided canonicalPairs
  let _ ← hashProviderPayload provided.rawPayload
  return rows

end Payload

/-! ## The refresh -/

/-- What a refresh returns. -/
structure RefreshResult where
  rateRefreshId : Uuid
  status : RefreshStatus
  fetchedAt : Instant
  pairsUpdated : ℕ

section Service

variable [Platform]

/-- Stage the audit row, the snapshots and the current rates. -/
def persistSuccessfulRefresh [Settings] (refreshId : Uuid) (snapshotIds : ℕ → Uuid)
    (provided : ProviderRates) (started : Instant) : Tx RateRefresh := do
  let rows ← ofExcept (refreshRows provided)
  createRefreshSuccess refreshId provided.baseCurrency provided.providerTimestamp started
    Settings.defaultBuySpreadBps Settings.defaultSellSpreadBps rows.length
    (rows.zipIdx.map fun (row, i) => (snapshotIds i, row))

/-- The row as it is loaded again; the driver may not be able to represent its
timestamp. -/
def loadRefresh (refresh : RateRefresh) : Except PyError RefreshResult :=
  if ∀ t ∈ refresh.providerTimestamp, Platform.loadsTimestamp t = true then
    .ok ⟨refresh.id, refresh.status, refresh.fetchedAt, refresh.pairsUpdated⟩
  else .error .dataError

/-- Commit the staged refresh; the attributes read afterwards load the row again. -/
def recordSuccessfulRefresh (refresh : RateRefresh) : Tx RefreshResult := do
  commitAll
  inc .rateRefreshSuccessTotal
  reload
  ofExcept (loadRefresh refresh)

def recordFailedRefresh (failureId : Uuid) (started : Instant) (error : ApiError) : Tx Unit := do
  rollbackAll
  let _ ← createRefreshFailure failureId started error.code error.detail
  commitAll
  inc .rateRefreshFailureTotal
  reload

/-- `except (KeyError, DecimalException, ZeroDivisionError, ValueError)`. -/
def unusableRates : PyError → Bool
  | .keyError | .decimal _ | .valueError _ => true
  | _ => false

/-- The `except` clauses of a refresh. -/
def refreshFailed (failureId : Uuid) (started : Instant) : PyError → Tx RefreshResult
  | .api error => do
      recordFailedRefresh failureId started error
      .raise (.api error)
  | e =>
      if unusableRates e then do
        let error := badGateway errorUpstreamBadResponse "Rate provider returned unusable rates."
        recordFailedRefresh failureId started error
        .raise (.api error)
      else .raise e

/-- One refresh attempt: fetch, persist, record the outcome. -/
def refreshRates [Settings] (refreshId failureId : Uuid) (snapshotIds : ℕ → Uuid)
    (answer : ProviderAnswer) : Tx RefreshResult := do
  selectForUpdate (fun _ => [.rateRefreshLock]) (fun _ => ())
  let started ← now
  let outcome ← attempt do
    let provided ← ofExcept (fetch answer)
    let refresh ← persistSuccessfulRefresh refreshId snapshotIds provided started
    recordSuccessfulRefresh refresh
  match outcome with
  | .ok result => pure result
  | .error e => refreshFailed failureId started e

/-- Rate readiness, without touching the metrics of the quote path. -/
def ratesFreshnessStatus [Settings] : Tx String := do
  match ← getLatestCurrentRate with
  | none => pure "unavailable"
  | some latest =>
      let oldest ← ofExcept (cutoff (← now))
      if latest.lastUpdatedAt < oldest then pure "stale" else pure "fresh"

/-- Refuse to go on when the newest current rate is outside the freshness window. -/
def ensureFreshRates [Settings] : Tx Unit := do
  let status ← ratesFreshnessStatus
  if status = "fresh" then pure ()
  else
    inc .staleRatesTotal
    let detail := if status = "unavailable" then "Rates are unavailable." else "Rates are stale."
    .raise (serviceUnavailable errorRatesStale detail)

end Service

end FxEngine
