import FxEngine.Api.Routes
import FxEngine.Transactions.Counters

/-! # Which calls touch which counters

No call touches that of stale rates, and only executions touch their own.
-/

namespace FxEngine

open Numeric Transactions Program

variable [Platform] {m : Counter}

theorem spares_flush (pending : List Statement) : (flush pending).Spares m := .forM fun _ => spares_execute (D := fx) _

theorem spares_reload : (reload : Tx Unit).Spares m := spares_select _

theorem spares_ensureBalance (customerId : Uuid) (currency : Currency) :
    (ensureBalance customerId currency).Spares m := by
  refine (spares_execute _).bind fun _ => (spares_select _).bind fun row => ?_
  cases row <;> trivial

theorem spares_ensureAllBalances (customerId : Uuid) : (ensureAllBalances customerId).Spares m :=
  .forM fun _ => (spares_ensureBalance _ _).bind fun _ => trivial

theorem spares_getBalanceForUpdate (customerId : Uuid) (currency : Currency) :
    (getBalanceForUpdate customerId currency).Spares m := by
  refine (spares_selectForUpdate _ _).bind fun row => ?_
  cases row <;> trivial

theorem spares_assertCustomerExists (customerId : Uuid) : (assertCustomerExists customerId).Spares m :=
  (spares_select _).bind fun _ => spares_ite (fun _ => trivial) fun _ => trivial

theorem spares_appendEntry (entry : LedgerEntry) (pending : List Statement) : (appendEntry entry pending).Spares m :=
  spares_ite (fun _ => trivial) fun _ => spares_flush _

theorem validateQuote_spares (expired : .quoteExpiredTotal ≠ m) (quoteId : Uuid) (quote : Quote) :
    (validateQuote quoteId quote).Spares m := by
  refine (spares_select _).bind fun _ => spares_ite (fun _ => trivial) fun _ => ?_
  exact spares_now.bind fun _ => spares_ite (fun _ => ⟨expired, trivial⟩) fun _ => trivial

theorem lockBalances_spares (quote : Quote) : (lockBalances quote).Spares m := by
  refine (spares_ensureBalance _ _).bind fun _ => (spares_ensureBalance _ _).bind fun _ => ?_
  exact (spares_getBalanceForUpdate _ _).bind fun _ => (spares_getBalanceForUpdate _ _).bind fun _ => trivial

theorem settle_spares (executionId : Uuid) (idempotencyKey : String) (quote : Quote) (locked : Currency → Decimal) :
    (settle executionId idempotencyKey quote locked).Spares Counter.staleRatesTotal := by
  refine (spares_flush _).bind fun _ => (spares_appendEntry _ _).bind fun _ => (spares_ofExcept _).bind fun _ => ?_
  refine spares_mayFail.bind fun _ => (spares_appendEntry _ _).bind fun _ => (spares_ofExcept _).bind fun _ => ?_
  refine spares_now.bind fun _ => (spares_flush _).bind fun _ => spares_commitAll.bind fun _ => ?_
  exact Spares.bind (spares_inc nofun) fun _ => spares_reload.bind fun _ => trivial

theorem executeLocked_spares (executionId quoteId : Uuid) (idempotencyKey : String) (quote : Quote) :
    (executeLocked executionId quoteId idempotencyKey quote).Spares Counter.staleRatesTotal := by
  refine Spares.bind (validateQuote_spares (by decide) quoteId quote) fun _ =>
    Spares.bind (lockBalances_spares quote) fun locked => ?_
  exact spares_ite (fun _ => ⟨nofun, trivial⟩) fun _ => settle_spares _ _ _ _

theorem executeQuote_spares (executionId quoteId : Uuid) (idempotencyKey reqHash : String) :
    (executeQuote executionId quoteId idempotencyKey reqHash).Spares Counter.staleRatesTotal := by
  have failed : ∀ {α : Type} {quote : Option Quote} {e : PyError},
      (executionFailed quote e : Tx α).Spares Counter.staleRatesTotal := by
    intro α quote e
    exact ⟨nofun, spares_ite (fun _ => .bind spares_reload fun _ => trivial) fun _ => trivial⟩
  have claimed : (executeClaimed executionId quoteId idempotencyKey).Spares Counter.staleRatesTotal := by
    refine (spares_selectForUpdate _ _).attempt.bind fun found => ?_
    rcases found with e | _ | quote
    · exact failed
    · exact failed
    · refine (executeLocked_spares _ _ _ _).attempt.bind fun done => ?_
      cases done with
      | error e => exact failed
      | ok payload => trivial
  have free : (claimKey idempotencyKey reqHash).Spares Counter.staleRatesTotal := by
    refine (spares_flush _).attempt.bind fun done => ?_
    split
    · trivial
    · exact ⟨nofun, trivial⟩
    · trivial
  refine spares_ite (fun _ => trivial) fun _ => (spares_select _).bind fun existing => Spares.bind ?_ fun replay => ?_
  · cases existing with
    | none => trivial
    | some row =>
        refine spares_ite (fun _ => ⟨nofun, trivial⟩) fun _ => ?_
        split
        · exact spares_ite (fun _ => ⟨nofun, trivial⟩) fun _ => trivial
        · trivial
  · cases replay with
    | some payload => trivial
    | none => exact free.bind fun _ => claimed.bind fun _ => trivial

theorem loadCurrentRateBook_spares : loadCurrentRateBook.Spares m :=
  (spares_select _).bind fun _ => (spares_ofExcept _).bind fun _ => trivial

theorem getLatestCurrentRate_spares : getLatestCurrentRate.Spares m :=
  (spares_select _).bind fun _ => spares_ite (fun _ => trivial) fun _ => trivial

variable [Settings]

theorem createQuote_spares (other : .quoteCreatedTotal ≠ m) (quoteId customerId : Uuid)
    (source destination : Currency) (amount : Decimal) :
    (createQuote quoteId customerId source destination amount).Spares m := by
  refine spares_ite (fun _ => trivial) fun _ => (spares_assertCustomerExists _).bind fun _ => ?_
  refine loadCurrentRateBook_spares.bind fun book => ?_
  cases book.lastUpdatedAt with
  | none => trivial
  | some latest =>
      refine spares_now.bind fun _ => (spares_ofExcept _).bind fun _ => spares_ite (fun _ => trivial) fun _ => ?_
      refine (spares_ofExcept _).bind fun _ => spares_now.bind fun _ => (spares_flush _).bind fun _ => ?_
      refine (spares_ofExcept _).bind fun _ => (spares_flush _).bind fun _ => spares_commitAll.bind fun _ => ?_
      exact Spares.bind (spares_inc other) fun _ => spares_reload.bind fun _ => trivial

theorem refreshRates_spares (success : .rateRefreshSuccessTotal ≠ m) (failure : .rateRefreshFailureTotal ≠ m)
    (refreshId failureId : Uuid) (snapshotIds : ℕ → Uuid) (answer : ProviderAnswer) :
    (refreshRates refreshId failureId snapshotIds answer).Spares m := by
  have recorded : ∀ {started : Instant} {error : ApiError},
      (recordFailedRefresh failureId started error).Spares m := by
    intro started error
    refine Spares.bind trivial fun _ => Spares.bind ?_ fun _ => ?_
    · exact (spares_flush _).bind fun _ => trivial
    · exact Spares.bind spares_commitAll fun _ => Spares.bind (spares_inc failure) fun _ => spares_reload
  have failed : ∀ {started : Instant} {e : PyError}, (refreshFailed failureId started e).Spares m := by
    intro started e
    unfold refreshFailed
    split
    · exact recorded.bind fun _ => trivial
    · exact spares_ite (fun _ => recorded.bind fun _ => trivial) fun _ => trivial
  have persisted : ∀ provided started,
      (persistSuccessfulRefresh refreshId snapshotIds provided started).Spares m := by
    intro provided started
    refine (spares_ofExcept _).bind fun rows => (spares_flush _).bind fun _ => Spares.bind ?_ fun _ => trivial
    exact .forM fun row => (spares_flush _).bind fun _ => spares_execute _
  refine (spares_selectForUpdate _ _).bind fun _ => spares_now.bind fun started => Spares.bind (Spares.attempt ?_) ?_
  · refine (spares_ofExcept _).bind fun provided => (persisted _ _).bind fun refresh => ?_
    exact Spares.bind spares_commitAll fun _ => Spares.bind (spares_inc success) fun _ => spares_reload.bind fun _ =>
      spares_ofExcept _
  · rintro (e | result)
    · exact failed
    · trivial

/-- The key a call is made under. -/
def Call.key : Call → Option String
  | .executeQuote _ _ key => some key
  | _ => none

/-- Other calls count quotes and refreshes only. -/
theorem program_spares_other {call : Call} (other : call.key = none) (quotes : .quoteCreatedTotal ≠ m)
    (success : .rateRefreshSuccessTotal ≠ m) (failure : .rateRefreshFailureTotal ≠ m) : (program call).Spares m := by
  cases call with
  | createCustomer =>
      refine Spares.bind ((spares_flush _).bind fun _ => (spares_ensureAllBalances _).bind fun _ => ?_) fun _ => trivial
      exact spares_commitAll.bind fun _ => spares_reload.bind fun _ => trivial
  | getBalances =>
      refine Spares.bind ((spares_assertCustomerExists _).bind fun _ => ?_) fun _ => trivial
      exact (spares_ensureAllBalances _).bind fun _ => (spares_select _).bind fun _ => spares_ofExcept _
  | creditBalance =>
      refine (spares_ofExcept _).bind fun _ => Spares.bind ?_ fun _ => trivial
      refine (spares_assertCustomerExists _).bind fun _ => (spares_ofExcept _).bind fun _ => ?_
      refine (spares_ensureBalance _ _).bind fun _ => (spares_getBalanceForUpdate _ _).bind fun _ => ?_
      refine (spares_flush _).bind fun _ => (spares_appendEntry _ _).bind fun _ => (spares_ofExcept _).bind fun _ => ?_
      refine (spares_flush _).bind fun _ => spares_commitAll.bind fun _ => (spares_select _).bind fun row => ?_
      cases row <;> trivial
  | createQuote =>
      exact (spares_ofExcept _).bind fun _ => (createQuote_spares quotes _ _ _ _ _).bind fun _ => trivial
  | executeQuote => cases other
  | refreshRates => exact (refreshRates_spares success failure _ _ _ _).bind fun _ => trivial
  | readyz =>
      refine spares_reload.attempt.bind fun answered => ?_
      cases answered with
      | error e => trivial
      | ok =>
          refine Spares.bind (getLatestCurrentRate_spares.bind fun latest => ?_) fun _ =>
            spares_ite (fun _ => trivial) fun _ => trivial
          cases latest with
          | none => trivial
          | some rate =>
              exact spares_now.bind fun _ => (spares_ofExcept _).bind fun _ =>
                spares_ite (fun _ => trivial) fun _ => trivial

/-- No call counts a refusal for stale rates. -/
theorem program_spares (call : Call) : (program call).Spares Counter.staleRatesTotal := by
  cases call with
  | executeQuote =>
      exact (executeQuote_spares _ _ _ _).bind fun _ => (spares_ofExcept _).bind fun _ => trivial
  | _ => exact program_spares_other rfl nofun nofun nofun

end FxEngine
