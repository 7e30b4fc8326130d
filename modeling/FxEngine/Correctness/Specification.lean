import FxEngine.Correctness.Repositories
import FxEngine.Correctness.Responses

/-! # What each call may commit and how it may end

A commit is one enabled action of its call; of a credit and of an execution it is
moreover what the call does when it runs alone on the tables at that moment.
-/

namespace FxEngine

open Numeric Transactions Program

variable [Platform] [Settings]

/-- The call, run alone on the tables with the same clock readings, does the same. -/
def Serial (call : Call) (reads : List Instant) (before after : Tables) : Prop :=
  ∃ reply, (program call).run reads before = (.ok reply, after)

/-- The action a call stands for. -/
def Performs (call : Call) (db : Tables) (reads : List Instant) (a : Action) : Prop :=
  match call with
  | .createCustomer customerId => a = .openAccount customerId
  | .creditBalance adjustmentId customerId currency _ =>
      (∃ amount balance, a = .credit ⟨adjustmentId, customerId, currency, amount⟩ balance) ∧
        Serial call reads db (a.apply db)
  | .createQuote quoteId customerId source destination sourceAmount =>
      ∃ row legs, a = .quote row legs ∧ row.id = quoteId ∧ row.customerId = customerId ∧
        row.sourceCurrency = source ∧ row.destinationCurrency = destination ∧
        ∃ checkedAt rows refresh, reads = [checkedAt, row.createdAt] ∧ BookOf db rows refresh ∧
          Priced rows row legs ∧ (∃ amount terms, positiveDecimal "source_amount" sourceAmount = .ok amount ∧
            quoteTerms (rateBook rows) source destination amount = .ok terms ∧
            row = terms.toQuote quoteId customerId source destination row.createdAt ∧
            ∀ leg ∈ terms.legs, fitsRate leg.executableRate ∧ fitsInteger leg.spreadBps) ∧
          refresh.fetchedAt ≤ checkedAt ∧
          checkedAt - seconds Settings.rateFreshnessSeconds ≤ refresh.fetchedAt
  | .executeQuote executionId quoteId key =>
      (∃ q debited credited row, a = .execute executionId q debited credited row ∧ q.id = quoteId ∧
        row.slot = (executionsEndpoint, key) ∧ row.requestHash = executionRequestHash quoteId) ∧
        Serial call reads db (a.apply db)
  | .refreshRates refreshId _ _ answer =>
      (∃ row rows provided, a = .refresh row rows ∧ row.id = refreshId ∧ fetch answer = .ok provided ∧
        rateRows provided canonicalPairs = .ok (rows.map Prod.snd)) ∨ ∃ row, a = .refreshFailure row
  | .getBalances _ | .readyz => False

section Calls

variable {call : Call} {db : Tables} {reads : List Instant}

/-- Only the call that asks for a quote stores it. -/
theorem Performs.quote {row : Quote} {legs : List QuoteLeg} (performs : Performs call db reads (.quote row legs)) :
    ∃ value, call = .createQuote row.id row.customerId row.sourceCurrency row.destinationCurrency value := by
  cases call with
  | createQuote quoteId customerId source destination value =>
      obtain ⟨row', legs', same, rfl, rfl, rfl, rfl, -⟩ := performs
      cases same
      exact ⟨value, rfl⟩
  | creditBalance | executeQuote =>
      obtain ⟨shape, -⟩ := performs
      simp at shape
  | refreshRates => rcases performs with ⟨_, _, _, same, -⟩ | ⟨_, same⟩ <;> cases same
  | createCustomer | getBalances | readyz => cases performs

/-- Only a refresh completes one, with what its answer provides. -/
theorem Performs.refresh {row : RateRefresh} {rows : List (Uuid × RateRow)}
    (performs : Performs call db reads (.refresh row rows)) : ∃ failureId snapshotIds answer provided,
      call = .refreshRates row.id failureId snapshotIds answer ∧ fetch answer = .ok provided ∧
      rateRows provided canonicalPairs = .ok (rows.map Prod.snd) := by
  cases call with
  | refreshRates refreshId failureId snapshotIds answer =>
      obtain ⟨row', rows', provided, same, rfl, fetched, made⟩ | ⟨row', same⟩ := performs
      · cases same
        exact ⟨failureId, snapshotIds, answer, provided, rfl, fetched, made⟩
      · cases same
  | creditBalance | executeQuote =>
      obtain ⟨shape, -⟩ := performs
      simp at shape
  | createQuote =>
      obtain ⟨_, _, same, -⟩ := performs
      cases same
  | createCustomer | getBalances | readyz => cases performs

end Calls

/-- A commit of the call is one enabled action, and it owns what it changes. -/
def Commits (call : Call) : Assertion fx := fun w l =>
  ∃ a : Action, Enabled w.db w.now a ∧ a.slots ⊆ l.held ∧ l.view w.db = a.apply w.db ∧
    Performs call w.db l.reads a

/-- The ways out of an execution request. -/
inductive Executed (executionId quoteId : Uuid) (key : String) :
    Except PyError Reply → World fx → Local fx → Prop where
  /-- The stored response is returned and nothing changes. -/
  | replayed {w l body row payload} (commits : l.commits = []) (counts : l.counts = [.idempotencyReplayTotal])
      (found : w.db.idempotencyKey executionsEndpoint key = some row)
      (hash : row.requestHash = executionRequestHash quoteId) (stored : row.responsePayload = some payload)
      (answer : respond payload = .ok body) : Executed executionId quoteId key (.ok (.execution body)) w l
  | executed {w l body row snapshot} {response : ExecutionResponse} (commits : l.commits = [snapshot])
      (counts : l.counts = [.executionSuccessTotal])
      (found : w.db.idempotencyKey executionsEndpoint key = some row)
      (hash : row.requestHash = executionRequestHash quoteId) (fits : response.Fits)
      (stored : row.responsePayload = some (Platform.jsonb response.modelDump))
      (answer : respond response.modelDump = .ok body)
      (serial : (program (.executeQuote executionId quoteId key)).run snapshot.reads snapshot.before =
        (.ok (.execution body), snapshot.after)) :
      Executed executionId quoteId key (.ok (.execution body)) w l
  /-- Nothing was committed and nothing is left behind. -/
  | failed {w l e} (commits : l.commits = []) (writes : l.writes = []) (held : l.held = [])
      (counts : l.counts ∈ [[], [.idempotencyConflictTotal], [.executionFailureTotal],
        [.quoteExpiredTotal, .executionFailureTotal], [.insufficientFundsTotal, .executionFailureTotal],
        [.idempotencyReplayTotal]]) : Executed executionId quoteId key (.error e) w l
  /-- The execution was committed, and what came after it failed. -/
  | late {w l e snapshot} (commits : l.commits = [snapshot]) (writes : l.writes = []) (held : l.held = [])
      (counts : l.counts = [.executionSuccessTotal, .executionFailureTotal]) :
      Executed executionId quoteId key (.error e) w l

def Outcome (call : Call) (r : Except PyError Reply) : Assertion fx := fun w l =>
  match call with
  | .executeQuote executionId quoteId key => Executed executionId quoteId key r w l
  | _ => Counter.staleRatesTotal ∉ l.counts

theorem Outcome.closed {call : Call} {r : Except PyError Reply} {w : World fx} {l : Local fx}
    (h : Outcome call r w l) : Outcome call r w l.rolledBack := by
  cases call with
  | executeQuote =>
      cases h with
      | replayed commits counts found hash stored answer =>
          exact .replayed commits counts found hash stored answer
      | executed commits counts found hash fits stored answer serial =>
          exact .executed commits counts found hash fits stored answer serial
      | failed commits _ _ counts => exact .failed commits rfl rfl counts
      | late commits _ _ counts => exact .late commits rfl rfl counts
  | _ => exact h

/-- Most outcomes only speak of the counters. -/
theorem settled_plain {call : Call}
    (plain : ∀ r w (l : Local fx), Outcome call r w l = (Counter.staleRatesTotal ∉ l.counts))
    {r : Except PyError Reply} {w : World fx} {l : Local fx} (fresh : Counter.staleRatesTotal ∉ l.counts) :
    engine.settled (Outcome call) r w l := by
  intro w' _
  rw [plain]
  exact fresh

/-- A call that counts nothing meets them. -/
theorem settled_quiet {call : Call}
    (plain : ∀ r w (l : Local fx), Outcome call r w l = (Counter.staleRatesTotal ∉ l.counts))
    {r : Except PyError Reply} {w : World fx} {l : Local fx} (none : l.counts = []) :
    engine.settled (Outcome call) r w l :=
  settled_plain plain (none ▸ List.not_mem_nil)

def specification : Spec fx Call Reply engine where
  Commits := Commits
  Post := Outcome
  closed := Outcome.closed
  inv := by
    rintro call w l ⟨a, enabled, -, view, -⟩ inv
    exact view ▸ enabled.invariant inv
  guarantee := by
    rintro call w l held ⟨a, -, slots, view, -⟩ - apart
    exact view ▸ a.interfere fun r inside outside => apart inside (slots outside)

end FxEngine
