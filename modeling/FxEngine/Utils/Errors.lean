import FxEngine.Utils.Json
import FxEngine.Transactions.Program

/-! # Errors and the surroundings of the engine

`ApiError` is what the engine raises on purpose; every other exception is
unclassified and reaches the client as a 500. `Platform` gathers what the
engine relies on outside its own code, `Settings` is its configuration.
-/

namespace FxEngine

open Numeric Transactions

/-- An error with the answer it gives the client. -/
structure ApiError where
  statusCode : ℕ
  code : String
  title : String
  detail : String
  retryable : Bool := false
  /-- Invalid fields with the message for each. -/
  errors : List (String × String) := []
  deriving DecidableEq, Repr

/-- The exceptions that cross the engine. -/
inductive PyError where
  | api (error : ApiError)
  | valueError (message : String)
  | keyError
  | typeError
  | attributeError
  | overflowError
  | osError
  /-- Nested too deeply; a `RuntimeError`. -/
  | recursionError
  | runtimeError (message : String)
  /-- `DecimalException`; a division by zero is a `ZeroDivisionError` too. -/
  | decimal (error : DecimalException)
  /-- A unique, foreign key or check constraint. -/
  | integrityError
  /-- A value outside its column. -/
  | dataError
  | operationalError
  | noResultFound
  | responseValidationError
  deriving DecidableEq, Repr

def validationError (detail : String) (errors : List (String × String)) : PyError :=
  .api ⟨422, "validation_error", "Validation error", detail, false, errors⟩

def notFound (code detail : String) : PyError := .api ⟨404, code, "Not found", detail, false, []⟩

def conflict (code detail : String) : PyError := .api ⟨409, code, "Conflict", detail, false, []⟩

def serviceUnavailable (code detail : String) : PyError :=
  .api ⟨503, code, "Service unavailable", detail, true, []⟩

def badGateway (code detail : String) : ApiError := ⟨502, code, "Bad upstream response", detail, true, []⟩

def gatewayTimeout (detail : String) : ApiError :=
  ⟨504, "upstream_timeout", "Upstream timeout", detail, true, []⟩

/-- Arithmetic raises decimal exceptions. -/
def arith {α : Type} : Except DecimalException α → Except PyError α
  | .ok a => .ok a
  | .error e => .error (.decimal e)

@[simp] theorem arith_ok {α : Type} (a : α) : arith (.ok a) = .ok a := rfl

theorem arith_eq_ok {α : Type} {r : Except DecimalException α} {a : α} : arith r = .ok a ↔ r = .ok a := by
  cases r <;> simp [arith]

/-- `Currency(code)`. -/
def currencyOfStr (code : String) : Except PyError Currency :=
  match Currency.ofCode code with
  | some currency => .ok currency
  | none => .error (.valueError s!"'{code}' is not a valid Currency")

/-- A point in time as the provider wrote it. -/
structure Datetime where
  instant : Instant
  utcoffset : ℤ
  deriving DecidableEq, Repr

/-- Python's standard library, the driver and the server, where the engine
depends on what they do. -/
class Platform where
  /-- `hashlib.sha256(text.encode()).hexdigest()`. -/
  sha256 : String → String
  /-- What a `JSONB` column gives back for a value stored in it. -/
  jsonb : Json → Json
  /-- `datetime.fromisoformat`; `none` is `ValueError`. -/
  fromisoformat : String → Option Datetime
  /-- `datetime.fromtimestamp(number, tz=UTC)`. -/
  fromtimestamp : Json → Except PyError Datetime
  /-- `str(value)` raises `RecursionError` for a list or an object. -/
  strTooDeep : Json → Bool
  /-- `json.dumps(value)` raises `RecursionError`. -/
  dumpsTooDeep : Json → Bool
  /-- The server accepts the value for a `timestamptz` column. -/
  storesTimestamp : Datetime → Bool
  /-- The driver can turn the stored value back into a `datetime`. -/
  loadsTimestamp : Datetime → Bool

/-- `get_settings()`. -/
class Settings where
  rateFreshnessSeconds : ℤ
  defaultBuySpreadBps : ℤ
  defaultSellSpreadBps : ℤ

/-! ## Time -/

/-- `timedelta(seconds=n)`, in microseconds. -/
def seconds (n : ℤ) : Instant := n * 1000000

/-- `datetime.min`, in microseconds since the epoch. -/
def datetimeMin : Instant := -62135596800000000

/-- `datetime.max`. The clock is taken to stay at least a minute before it. -/
def datetimeMax : Instant := 253402300799999999

/-- A `datetime` can hold the instant. -/
def isDatetime (t : Instant) : Prop := datetimeMin ≤ t ∧ t ≤ datetimeMax

instance (t : Instant) : Decidable (isDatetime t) := inferInstanceAs (Decidable (_ ∧ _))

/-- `t - timedelta(seconds=n)`. A difference outside `timedelta` leaves `datetime` too, with
the same exception. -/
def minusSeconds (t : Instant) (n : ℤ) : Except PyError Instant :=
  if isDatetime (t - seconds n) then .ok (t - seconds n) else .error .overflowError

/-- `datetime.now(UTC) - timedelta(seconds=get_settings().rate_freshness_seconds)`, of a clock
that shows `t`. -/
def cutoff [Settings] (t : Instant) : Except PyError Instant := minusSeconds t Settings.rateFreshnessSeconds

theorem minusSeconds_ok {t c : Instant} {n : ℤ} :
    minusSeconds t n = .ok c ↔ isDatetime (t - seconds n) ∧ c = t - seconds n := by
  unfold minusSeconds
  split
  · simp [*, eq_comm]
  · simp [*]

theorem minusSeconds_error {t : Instant} {n : ℤ} {e : PyError} :
    minusSeconds t n = .error e ↔ ¬ isDatetime (t - seconds n) ∧ e = .overflowError := by
  unfold minusSeconds
  split
  · simp [*]
  · simp [*, eq_comm]

end FxEngine
