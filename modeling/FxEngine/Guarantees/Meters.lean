import FxEngine.Correctness.Engine
import FxEngine.Correctness.Solo
import FxEngine.Transactions.Meters

/-! # The counters beside the tables

Quotes, executions and refreshes are counted right after the commit that adds their row.
-/

namespace FxEngine

open Transactions Program

/-- The rows a counter is about. -/
def Counter.rows : Counter → Tables → ℕ
  | quoteCreatedTotal, db => db.quotes.length
  | executionSuccessTotal, db => db.executions.length
  | rateRefreshSuccessTotal, db => db.refreshes.countP (·.status = .completed)
  | rateRefreshFailureTotal, db => db.refreshes.countP (·.status = .failed)
  | _, _ => 0

/-- The counter that follows a row. -/
def Statement.counter : Statement → Option Counter
  | insertQuote _ => some .quoteCreatedTotal
  | insertExecution _ => some .executionSuccessTotal
  | insertRefresh row => some (if row.status = .completed then .rateRefreshSuccessTotal else .rateRefreshFailureTotal)
  | _ => none

/-- The counters that follow the tables. -/
def followed : List Counter :=
  [.quoteCreatedTotal, .executionSuccessTotal, .rateRefreshSuccessTotal, .rateRefreshFailureTotal]

section Calls

variable [Platform]

/-- Each row is counted by the counter it asks for. -/
def fxMeter : Meter fx where
  counters := followed
  asks := Statement.counter
  rows := Counter.rows
  adds := by
    intro w s m
    cases w with
    | insertRefresh row =>
        cases status : row.status <;> cases m <;> simp [Statement.counter, Counter.rows, Statement.apply, status]
    | insertBalance customerId currency =>
        simp only [Statement.counter, Statement.apply]
        split <;> cases m <;> rfl
    | _ => cases m <;> simp [Statement.counter, Counter.rows, Statement.apply]

theorem quiet_flush {pending : List Statement} (silent : ∀ s ∈ pending, s.counter = none) :
    (flush pending).Quiet fxMeter :=
  .forM fun s member => quiet_execute (silent s member)

theorem quiet_reload : (reload : Tx Unit).Quiet fxMeter := quiet_select _

theorem quiet_ensureBalance (customerId : Uuid) (currency : Currency) :
    (ensureBalance customerId currency).Quiet fxMeter := by
  refine (quiet_execute rfl).bind fun _ => (quiet_select _).bind fun row => ?_
  cases row with
  | none => exact quiet_raise _
  | some row => exact quiet_ret row

theorem quiet_ensureAllBalances (customerId : Uuid) : (ensureAllBalances customerId).Quiet fxMeter :=
  .forM fun _ _ => (quiet_ensureBalance _ _).bind fun _ => quiet_ret _

theorem quiet_getBalanceForUpdate (customerId : Uuid) (currency : Currency) :
    (getBalanceForUpdate customerId currency).Quiet fxMeter := by
  refine (quiet_selectForUpdate _ _).bind fun row => ?_
  cases row with
  | none => exact quiet_raise _
  | some row => exact quiet_ret row

theorem quiet_assertCustomerExists (customerId : Uuid) : (assertCustomerExists customerId).Quiet fxMeter :=
  (quiet_select _).bind fun _ => quiet_ite (fun _ => quiet_ret _) fun _ => quiet_raise _

omit [Platform] in
theorem silent_nil : ∀ s ∈ ([] : List Statement), s.counter = none := fun _ member => absurd member List.not_mem_nil

theorem quiet_appendEntry (entry : LedgerEntry) {pending : List Statement} (silent : ∀ s ∈ pending, s.counter = none) :
    (appendEntry entry pending).Quiet fxMeter := by
  refine quiet_ite (fun _ => quiet_raise _) fun _ => quiet_flush fun s member => ?_
  rcases List.mem_append.mp member with early | last
  · exact silent s early
  · rw [List.mem_singleton.mp last]
    rfl

/-- The row of a counter is flushed; the rest is up to its commit. -/
theorem metered_flushed {β : Type} {Q : β → List Counter → Prop} {s : Statement} {m : Counter} {f : Unit → Tx β}
    (asked : s.counter = some m) (rest : (f ()).Metered fxMeter Q [m] none) :
    (flush [s] >>= f).Metered fxMeter Q [] none := by
  refine Metered.bind (Metered.bind ((metered_execute (D := fx) s).mono fun _ due same => ⟨rfl, ?_⟩))
  have due : due = [m] := same.trans (congrArg Option.toList asked)
  exact due ▸ rest

theorem createCustomer_metered (customerId : Uuid) :
    (createCustomer customerId).Metered fxMeter (fun _ due => due = []) [] none := by
  refine Quiet.next (quiet_flush (by simp [Statement.counter])) fun _ => (quiet_ensureAllBalances _).next fun _ => ?_
  exact Metered.bind (metered_commitAll.mono fun _ _ same => same ▸ quiet_reload.next fun _ => ⟨rfl, rfl⟩)

theorem creditBalance_metered (adjustmentId customerId : Uuid) (currency : Currency) (amount : Numeric.Decimal) :
    (creditBalance adjustmentId customerId currency amount).Metered fxMeter (fun _ due => due = []) [] none := by
  refine (quiet_assertCustomerExists _).next fun _ => (quiet_ofExcept _).next fun _ => ?_
  refine (quiet_ensureBalance _ _).next fun _ => (quiet_getBalanceForUpdate _ _).next fun _ => ?_
  refine Quiet.next (quiet_flush (by simp [Statement.counter])) fun _ => Quiet.next (quiet_appendEntry _ silent_nil) fun _ => ?_
  refine (quiet_ofExcept _).next fun _ => Quiet.next (quiet_flush (by simp [Statement.counter])) fun _ => ?_
  refine Metered.bind (metered_commitAll.mono fun _ _ same => same ▸ (quiet_select _).next fun row => ?_)
  cases row with
  | none => exact rfl
  | some row => exact ⟨rfl, rfl⟩

theorem settle_metered (executionId : Uuid) (idempotencyKey : String) (quote : Quote)
    (locked : Currency → Numeric.Decimal) :
    (settle executionId idempotencyKey quote locked).Metered fxMeter (fun _ due => due = []) [] none := by
  refine metered_flushed rfl (Quiet.next (quiet_appendEntry _ silent_nil) fun _ => (quiet_ofExcept _).next fun _ => ?_)
  refine quiet_mayFail.next fun _ => Quiet.next (quiet_appendEntry _ (by simp [Statement.counter])) fun _ => ?_
  refine (quiet_ofExcept _).next fun _ => quiet_now.next fun _ => ?_
  refine Quiet.next (quiet_flush (by simp [Statement.counter])) fun _ => ?_
  exact Metered.announced (quiet_reload.next fun _ => ⟨rfl, rfl⟩)

theorem executeLocked_metered (executionId quoteId : Uuid) (idempotencyKey : String) (quote : Quote) :
    (executeLocked executionId quoteId idempotencyKey quote).Metered fxMeter (fun _ due => due = []) [] none := by
  have validated : (validateQuote quoteId quote).Quiet fxMeter := by
    refine (quiet_select _).bind fun _ => quiet_ite (fun _ _ => ⟨rfl, rfl⟩) fun _ => quiet_now.bind fun _ => ?_
    have other : Counter.quoteExpiredTotal ∉ followed := by decide
    exact quiet_ite (fun _ => quiet_refuse other _) fun _ => quiet_ret _
  have bothLocked : (lockBalances quote).Quiet fxMeter := by
    refine (quiet_ensureBalance _ _).bind fun _ => (quiet_ensureBalance _ _).bind fun _ => ?_
    exact (quiet_getBalanceForUpdate _ _).bind fun _ => (quiet_getBalanceForUpdate _ _).bind fun _ => quiet_ret _
  refine validated.next fun _ => bothLocked.next fun locked => ?_
  split
  · have other : Counter.insufficientFundsTotal ∉ followed := by decide
    exact quiet_refuse other _ []
  · exact settle_metered _ _ _ _

theorem executionFailed_metered {α : Type} {Q : α → List Counter → Prop} {due : List Counter} (quote : Option Quote)
    (e : PyError) : (executionFailed quote e : Tx α).Metered fxMeter Q due none := by
  have other : Counter.executionFailureTotal ∉ followed := by decide
  refine ⟨rfl, .inr ⟨rfl, other⟩, ?_⟩
  cases quote with
  | none => exact rfl
  | some quote => exact quiet_reload.next fun _ => rfl

theorem executeClaimed_metered (executionId quoteId : Uuid) (idempotencyKey : String) :
    (executeClaimed executionId quoteId idempotencyKey).Metered fxMeter (fun _ due => due = []) [] none := by
  refine Metered.guarded ((quiet_selectForUpdate _ _ []).mono fun found due same => ?_) fun e due => ?_
  · subst same
    cases found with
    | none => exact ⟨rfl, executionFailed_metered _ _⟩
    | some quote =>
        refine Metered.guarded ((executeLocked_metered _ _ _ _).mono fun payload due same => ⟨rfl, same⟩) fun e due => ?_
        exact executionFailed_metered _ _
  · exact executionFailed_metered _ _

theorem claimKey_metered (idempotencyKey reqHash : String) :
    (claimKey idempotencyKey reqHash).Metered fxMeter (fun _ due => due = []) [] none := by
  have other : Counter.idempotencyConflictTotal ∉ followed := by decide
  refine Metered.guarded ((quiet_flush (by simp [Statement.counter]) []).mono fun _ due same => ⟨rfl, same⟩) fun e due => ?_
  cases e with
  | integrityError => exact ⟨rfl, .inr ⟨rfl, other⟩, rfl⟩
  | _ => exact rfl

theorem executeQuote_metered (executionId quoteId : Uuid) (idempotencyKey reqHash : String) :
    (executeQuote executionId quoteId idempotencyKey reqHash).Metered fxMeter (fun _ due => due = []) [] none := by
  have claimed : (do
      claimKey idempotencyKey reqHash
      let payload ← executeClaimed executionId quoteId idempotencyKey
      pure (payload, false) : Tx (Json × Bool)).Metered fxMeter (fun _ due => due = []) [] none := by
    refine Metered.bind ((claimKey_metered _ _).mono fun _ due same => ?_)
    subst same
    exact Metered.bind ((executeClaimed_metered _ _ _).mono fun _ _ same => ⟨rfl, same⟩)
  have conflicted : Counter.idempotencyConflictTotal ∉ followed := by decide
  have replayed : Counter.idempotencyReplayTotal ∉ followed := by decide
  unfold executeQuote
  split
  · exact rfl
  refine (quiet_select _).next fun existing => Metered.bind ?_
  cases existing with
  | none => exact ⟨rfl, claimed⟩
  | some existing =>
      dsimp only
      split
      · exact ⟨.inr ⟨rfl, conflicted⟩, rfl⟩
      · split
        · split
          · exact ⟨.inr ⟨rfl, replayed⟩, rfl, rfl, rfl⟩
          · exact ⟨rfl, claimed⟩
        · exact ⟨rfl, claimed⟩

theorem quiet_loadCurrentRateBook : Quiet fxMeter loadCurrentRateBook :=
  (quiet_select _).bind fun _ => (quiet_ofExcept _).bind fun _ => quiet_ret _

theorem createQuote_metered [Settings] (quoteId customerId : Uuid) (source destination : Currency)
    (amount : Numeric.Decimal) :
    (createQuote quoteId customerId source destination amount).Metered fxMeter (fun _ due => due = []) [] none := by
  have refused : ∀ {e : PyError}, (.raise e : Tx Quote).Metered fxMeter (fun _ due => due = []) [] none := rfl
  unfold createQuote
  split
  · exact refused
  refine (quiet_assertCustomerExists _).next fun _ => quiet_loadCurrentRateBook.next fun book => ?_
  cases book.lastUpdatedAt with
  | none => exact refused
  | some latest =>
      refine quiet_now.next fun _ => (quiet_ofExcept _).next fun oldest => ?_
      split
      · exact refused
      refine (quiet_ofExcept _).next fun terms => quiet_now.next fun createdAt => metered_flushed rfl ?_
      refine (quiet_ofExcept _).next fun legs => Quiet.next (quiet_flush fun s member => ?_) fun _ => ?_
      · obtain ⟨leg, -, rfl⟩ := List.mem_map.mp member
        rfl
      · exact Metered.announced (quiet_reload.next fun _ => ⟨rfl, rfl⟩)

/-- A failure is counted with the row it leaves. -/
theorem refreshFailed_metered {due : List Counter} (failureId : Uuid) (started : Instant) (e : PyError) :
    (refreshFailed failureId started e).Metered fxMeter (fun _ due => due = []) due none := by
  have recorded : ∀ {error : ApiError} {Q : Unit → List Counter → Prop}, (∀ a, Q a []) →
      (recordFailedRefresh failureId started error).Metered fxMeter Q due none := by
    intro error Q enough
    refine Metered.bind (p := rollbackAll) ⟨rfl, rfl, Metered.bind (metered_flushed rfl ⟨rfl, ?_⟩)⟩
    exact Metered.announced ((quiet_select _ []).mono fun a _ same => same ▸ enough a)
  unfold refreshFailed
  split
  · exact Metered.bind (recorded fun _ => rfl)
  · split
    · exact Metered.bind (recorded fun _ => rfl)
    · exact rfl

theorem refreshRates_metered [Settings] (refreshId failureId : Uuid) (snapshotIds : ℕ → Uuid)
    (answer : ProviderAnswer) :
    (refreshRates refreshId failureId snapshotIds answer).Metered fxMeter (fun _ due => due = []) [] none := by
  refine (quiet_selectForUpdate _ _).next fun _ => quiet_now.next fun started =>
    Metered.guarded ?_ fun e due => refreshFailed_metered _ _ _
  refine (quiet_ofExcept _).next fun provided => Metered.bind ?_
  refine (quiet_ofExcept _).next fun rows => metered_flushed rfl ?_
  refine Quiet.next (.forM fun row _ => ?_) fun _ => ⟨rfl, Metered.announced ?_⟩
  · exact Quiet.bind (quiet_flush (by simp [Statement.counter])) fun _ => quiet_execute rfl
  · exact quiet_reload.next fun _ => (quiet_ofExcept _ []).mono fun _ _ same => ⟨rfl, same⟩

theorem program_metered [Settings] (call : Call) : (program call).Metered fxMeter (fun _ _ => True) [] none := by
  have reply : ∀ {α : Type} {p : Tx α} {f : α → Reply}, p.Metered fxMeter (fun _ due => due = []) [] none →
      (p >>= fun a => .ret (f a)).Metered fxMeter (fun _ _ => True) [] none :=
    fun metered => Metered.bind (metered.mono fun _ _ _ => ⟨rfl, trivial⟩)
  cases call with
  | createCustomer customerId => exact reply (createCustomer_metered _)
  | getBalances customerId =>
      refine reply (Quiet.next (quiet_assertCustomerExists _) fun _ => Quiet.next (quiet_ensureAllBalances _) fun _ => ?_)
      exact (quiet_select _).next fun _ => quiet_ofExcept _ []
  | creditBalance => exact (quiet_ofExcept _).next fun _ => reply (creditBalance_metered _ _ _ _)
  | createQuote => exact (quiet_ofExcept _).next fun _ => reply (createQuote_metered _ _ _ _ _)
  | executeQuote =>
      refine Metered.bind ((executeQuote_metered _ _ _ _).mono fun result _ same => same ▸ ?_)
      exact (quiet_ofExcept _).next fun _ => ⟨rfl, trivial⟩
  | refreshRates => exact reply (refreshRates_metered _ _ _ _)
  | readyz =>
      refine Metered.guarded ((quiet_select _ []).mono fun _ _ same => same ▸ ?_) fun e due => ⟨rfl, trivial⟩
      have newest : Quiet fxMeter getLatestCurrentRate :=
        (quiet_select _).bind fun _ => quiet_ite (fun _ => quiet_ret _) fun _ => quiet_raise _
      refine Quiet.next (newest.bind fun latest => ?_) fun rates => ?_
      · cases latest with
        | none => exact quiet_ret _
        | some rate =>
            exact quiet_now.bind fun _ => (quiet_ofExcept _).bind fun _ =>
              quiet_ite (fun _ => quiet_ret _) fun _ => quiet_ret _
      · split <;> exact ⟨rfl, trivial⟩

end Calls

namespace Engine

section Rows

variable [Platform] [Settings] {start : Instant} {σ : Engine}

/-- In every reachable state each of these counters, together with the finitely many sessions
that are just about to increment it, is the number of its rows; so it never runs ahead of
them, and once no call is running it is that number. -/
theorem Reachable.rows_counted (h : Reachable start σ) : ∀ m ∈ followed,
    (σ.counting m).Finite ∧ σ.counter m + (σ.counting m).ncard = m.rows σ.world.db ∧
      ((∀ i p, σ.procs i = some p → ∃ r, p.prog = .ofExcept r) → σ.counter m = m.rows σ.world.db) := by
  intro m follows
  have finite : (σ.counting m).Finite := Sys.finite_counting h.counted.finite
  have total : m.rows σ.world.db = m.rows {} + (σ.counter m + (σ.counting m).ncard) :=
    (Transactions.Reachable.tallied (M := fxMeter) program_metered h).total m follows
  have empty : m.rows {} = 0 := by
    cases m <;> rfl
  rw [empty, Nat.zero_add] at total
  refine ⟨finite, total.symm, fun answered => ?_⟩
  have none : σ.counting m = ∅ := by
    refine Set.eq_empty_of_forall_notMem fun i => ?_
    rintro ⟨p, k, at_, next⟩
    obtain ⟨r, done⟩ := answered i p at_
    rw [next] at done
    cases r <;> cases done
  rw [total, none, Set.ncard_empty, Nat.add_zero]

end Rows

attribute [local instance] Sample.platform Sample.settings

/-- After a day with one quote and one execution. -/
theorem rows_counted_sample : ∃ σ : Engine, Reachable 0 σ ∧ σ.counter .quoteCreatedTotal = 1 ∧
    σ.counter .executionSuccessTotal = 1 ∧ σ.counter .rateRefreshSuccessTotal = 1 ∧
    σ.counter .rateRefreshFailureTotal = 0 := by
  obtain ⟨σ, reached, db, -, -, others, ends⟩ :=
    serial_reachable (Sample.ordered (Sample.prepared ++ Sample.executed) (by decide))
  have length : ∀ (calls : List (Call × List Instant)) (db : Tables),
      (serial program calls db).1.length = calls.length := by
    intro calls
    induction calls with
    | nil => exact fun db => rfl
    | cons call calls ih => exact fun db => congrArg (· + 1) (ih _)
  have answered : ∀ i p, σ.procs i = some p → ∃ r, p.prog = .ofExcept r := by
    intro i p at_
    by_cases small : i < (Sample.prepared ++ Sample.executed).length
    · obtain ⟨p', at', -, done⟩ := ends i _ (List.getElem?_eq_getElem (by rwa [length]))
      obtain rfl : p = p' := Option.some.inj (at_.symm.trans at')
      exact ⟨_, done⟩
    · rw [others i (Nat.le_of_not_lt small)] at at_
      cases at_
  have rows : ∀ m ∈ followed, σ.counter m = m.rows σ.world.db := fun m follows =>
    (reached.rows_counted m follows).2.2 answered
  refine ⟨σ, reached, ?_, ?_, ?_, ?_⟩
  all_goals
    rw [rows _ (by decide), db]
    decide +kernel

end Engine

end FxEngine
