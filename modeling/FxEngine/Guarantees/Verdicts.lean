import FxEngine.Correctness.Verdicts
import FxEngine.Guarantees.Idempotency

/-! # Executions do what is decided

In every reachable state a request comes to its verdict, and every execution that any
interleaving committed was due by the tables it was committed to.
-/

namespace FxEngine

open Numeric Transactions Program

section Verdicts

variable [Platform] [Settings] {db : Tables} {now : Instant} {executionId quoteId : Uuid} {key : String}
  {clock : List Instant}

/-- The session of a request that runs alone and has just claimed its key. -/
def claimingSession (db : Tables) (clock : List Instant) (quoteId : Uuid) (key : String) : Session fx :=
  (⟨clock, [], db⟩ : Session fx).wrote (Statement.insertIdempotencyKey
    { endpoint := executionsEndpoint, key, requestHash := executionRequestHash quoteId })

section Claimed

variable {s : Session fx} (keyGiven : key ≠ "") (unclaimed : db.idempotencyKey executionsEndpoint key = none)

include keyGiven unclaimed

omit [Settings] in
/-- A request whose key is free goes on to claim it. -/
theorem exec_executeQuote_unclaimed {r : Except PyError (Json × Bool)} (rest : (do
      claimKey key (executionRequestHash quoteId)
      let payload ← executeClaimed executionId quoteId key
      pure (payload, false) : Tx (Json × Bool)).exec ⟨clock, [], db⟩ = (r, s)) :
    (executeQuote executionId quoteId key (executionRequestHash quoteId)).exec ⟨clock, [], db⟩ = (r, s) := by
  refine (exec_if_neg keyGiven).trans ((exec_bind_ok (exec_select _ _)).trans ?_)
  rw [show Tables.idempotencyKey (Session.view (⟨clock, [], db⟩ : Session fx)) executionsEndpoint key = none from unclaimed]
  exact (exec_bind_ok (exec_ret none _)).trans rest

theorem executeQuote_run_tooLong (long : idempotencyKeyMaxLength < key.length) :
    (program (.executeQuote executionId quoteId key)).run clock db = (.error .dataError, db) := by
  let row : IdempotencyKey := { endpoint := executionsEndpoint, key, requestHash := executionRequestHash quoteId }
  have refused : (flush [.insertIdempotencyKey row]).exec ⟨clock, [], db⟩ = (.error .dataError, ⟨clock, [], db⟩) := by
    have check : violates (idempotencyKeyMaxLength < row.key.length) PyError.dataError = some .dataError := if_pos long
    rw [exec_flush_eq, flushError, Statement.check, check]
    rfl
  have unclaimable : (claimKey key (executionRequestHash quoteId)).exec ⟨clock, [], db⟩ =
      (.error .dataError, ⟨clock, [], db⟩) :=
    (exec_bind_ok ((exec_attempt _ _).trans (by rw [refused]))).trans rfl
  have service := exec_executeQuote_unclaimed keyGiven unclaimed
    (exec_bind_error (f := fun _ => do
      let payload ← executeClaimed executionId quoteId key
      pure (payload, false)) unclaimable)
  have whole : (program (.executeQuote executionId quoteId key)).exec ⟨clock, [], db⟩ =
      (.error .dataError, ⟨clock, [], db⟩) := exec_bind_error service
  rw [Program.run, whole]

variable (fits : key.length ≤ idempotencyKeyMaxLength)

include fits

omit [Settings] keyGiven in
theorem exec_claim : (claimKey key (executionRequestHash quoteId)).exec ⟨clock, [], db⟩ =
    (.ok (), claimingSession db clock quoteId key) := by
  let row : IdempotencyKey := { endpoint := executionsEndpoint, key, requestHash := executionRequestHash quoteId }
  have free : (Statement.insertIdempotencyKey row).check (Session.view (⟨clock, [], db⟩ : Session fx)) = none :=
    Statement.check_insertIdempotencyKey.mpr ⟨fits, unclaimed⟩
  exact exec_claimKey free

theorem executeQuote_run_error {e : PyError}
    (guarded : (executeClaimed executionId quoteId key).exec (claimingSession db clock quoteId key) = (.error e, s)) :
    (program (.executeQuote executionId quoteId key)).run clock db = (.error e, s.db) := by
  have service := exec_executeQuote_unclaimed keyGiven unclaimed
    ((exec_bind_ok (exec_claim unclaimed fits)).trans (exec_bind_error guarded))
  have whole : (program (.executeQuote executionId quoteId key)).exec ⟨clock, [], db⟩ = (.error e, s) :=
    exec_bind_error service
  rw [Program.run, whole]

theorem executeQuote_run_ok {payload body : Json} (answer : respond payload = .ok body)
    (guarded : (executeClaimed executionId quoteId key).exec (claimingSession db clock quoteId key) = (.ok payload, s)) :
    (program (.executeQuote executionId quoteId key)).run clock db = (.ok (.execution body), s.db) := by
  have service := exec_executeQuote_unclaimed keyGiven unclaimed
    ((exec_bind_ok (exec_claim unclaimed fits)).trans ((exec_bind_ok guarded).trans (exec_ret _ _)))
  have whole : (program (.executeQuote executionId quoteId key)).exec ⟨clock, [], db⟩ = (.ok (.execution body), s) :=
    (exec_bind_ok service).trans (exec_bind_ok ((exec_ofExcept _ _).trans (by rw [answer])))
  rw [Program.run, whole]

end Claimed

/-- A stored answer is given again. -/
theorem executeQuote_run_replayed {row : IdempotencyKey} {completedAt : Instant} {payload body : Json} (keyGiven : key ≠ "")
    (found : db.idempotencyKey executionsEndpoint key = some row) (hash : row.requestHash = executionRequestHash quoteId)
    (completed : row.completedAt = some completedAt) (stored : row.responsePayload = some payload)
    (truthy : payload.truthy) (answer : respond payload = .ok body) :
    (program (.executeQuote executionId quoteId key)).run clock db = (.ok (.execution body), db) := by
  have service : (executeQuote executionId quoteId key (executionRequestHash quoteId)).exec ⟨clock, [], db⟩ =
      (.ok (payload, true), ⟨clock, [], db⟩) := by
    refine (exec_if_neg keyGiven).trans ((exec_bind_ok (exec_select _ _)).trans ?_)
    rw [show Tables.idempotencyKey (Session.view (⟨clock, [], db⟩ : Session fx)) executionsEndpoint key = some row from found]
    dsimp only
    rw [if_neg (not_not.mpr hash), completed, stored]
    dsimp only
    rw [if_pos truthy]
    rfl
  have whole : (program (.executeQuote executionId quoteId key)).exec ⟨clock, [], db⟩ =
      (.ok (.execution body), ⟨clock, [], db⟩) :=
    (exec_bind_ok service).trans (exec_bind_ok ((exec_ofExcept _ _).trans (by rw [answer])))
  rw [Program.run, whole]

theorem executeQuote_run_conflict {row : IdempotencyKey} (keyGiven : key ≠ "")
    (found : db.idempotencyKey executionsEndpoint key = some row) (hash : row.requestHash ≠ executionRequestHash quoteId) :
    (program (.executeQuote executionId quoteId key)).run clock db = (.error (conflict errorIdempotencyConflict
      "Idempotency-Key was already used with a different request."), db) := by
  have service : (executeQuote executionId quoteId key (executionRequestHash quoteId)).exec ⟨clock, [], db⟩ =
      (.error (conflict errorIdempotencyConflict "Idempotency-Key was already used with a different request."),
        ⟨clock, [], db⟩) := by
    refine (exec_if_neg keyGiven).trans ((exec_bind_ok (exec_select _ _)).trans ?_)
    rw [show Tables.idempotencyKey (Session.view (⟨clock, [], db⟩ : Session fx)) executionsEndpoint key = some row from found]
    dsimp only
    rw [if_pos hash]
    rfl
  have whole : (program (.executeQuote executionId quoteId key)).exec ⟨clock, [], db⟩ = (.error (conflict
      errorIdempotencyConflict "Idempotency-Key was already used with a different request."), ⟨clock, [], db⟩) :=
    exec_bind_error service
  rw [Program.run, whole]

omit [Platform] [Settings] in
/-- A stored object with fields is a response. -/
theorem truthy_of_same {response : ExecutionResponse} {payload : Json} (same : payload.Same response.modelDump) :
    payload.truthy := by
  obtain ⟨fields, rfl, perm⟩ := Json.Same.fields same
  have long := perm.length_eq
  rw [Json.sortedFields_eq, Json.sortedFields_eq, List.length_map, List.length_map] at long
  cases fields with
  | nil => cases long
  | cons field rest => rfl

theorem executeQuote_comes_read (inv : Invariant db now) (fresh : db.execution executionId = none)
    (jsonb : ∀ response : ExecutionResponse, response.Fits → (Platform.jsonb response.modelDump).Same response.modelDump)
    (some : clock ≠ []) :
    Comes db executionId key ((Session.later clock).headD 0) (verdict db (clock.headD 0) quoteId key)
      ((program (.executeQuote executionId quoteId key)).run clock db) := by
  by_cases keyGiven : key = ""
  · have service : (executeQuote executionId quoteId key (executionRequestHash quoteId)).exec ⟨clock, [], db⟩ =
        (.error (validationError "Idempotency-Key is required." []), ⟨clock, [], db⟩) := by
      rw [executeQuote, if_pos keyGiven]
      rfl
    have whole : (program (.executeQuote executionId quoteId key)).exec ⟨clock, [], db⟩ =
        (.error (validationError "Idempotency-Key is required." []), ⟨clock, [], db⟩) := exec_bind_error service
    rw [verdict, if_pos keyGiven, Program.run, whole]
    exact .refused _
  rw [verdict, if_neg keyGiven]
  cases found : db.idempotencyKey executionsEndpoint key with
  | some row =>
      by_cases hash : row.requestHash = executionRequestHash quoteId
      · obtain ⟨x, q, debited, credited, done⟩ := inv.claimed.completed row (Table.row_some found).1
        obtain ⟨completedAt, content⟩ := done.content
        have fits := done.fits inv
        obtain ⟨body, answer, same⟩ := ExecutionResponse.respond_same fits (jsonb _ fits)
        have stored := congrArg IdempotencyKey.responsePayload content
        rw [executeQuote_run_replayed keyGiven found hash (congrArg IdempotencyKey.completedAt content) stored
          (truthy_of_same (jsonb _ fits)) answer]
        simp only [hash, ne_eq, not_true_eq_false, if_false]
        exact .replayed stored (same.trans (jsonb _ fits).symm)
      · rw [executeQuote_run_conflict keyGiven found hash]
        simp only [hash, ne_eq, not_false_eq_true, if_true]
        exact .refused _
  | none =>
      by_cases long : idempotencyKeyMaxLength < key.length
      · rw [executeQuote_run_tooLong keyGiven found long]
        simp only [long, if_true]
        exact .refused _
      simp only [long, if_false]
      have fits := not_lt.mp long
      cases stored : db.quote quoteId with
      | none =>
          rw [executeQuote_run_error keyGiven found fits (exec_executeClaimed_missing stored)]
          exact .refused _
      | some q =>
          obtain rfl : q.id = quoteId := (Table.row_some stored).2
          have claiming : Claiming (claimingSession db clock q.id key) db executionId key q :=
            ⟨⟨now, inv⟩, rfl, Session.view_wrote _ _, some, found, stored, fresh⟩
          cases against : quoteRefusal db (clock.headD 0) q with
          | some e =>
              obtain ⟨s', failed, kept⟩ := claiming.refused against
              rw [executeQuote_run_error keyGiven found fits (exec_executeClaimed_error stored failed)]
              simp only [against]
              rw [show ({ s' with writes := [] } : Session fx).db = db from kept]
              exact .refused _
          | none =>
              obtain ⟨s', settled, after, small⟩ := claiming.settles against
              obtain ⟨body, answer, same⟩ := ExecutionResponse.respond_same small (.refl _)
              rw [executeQuote_run_ok keyGiven found fits answer (exec_executeClaimed_ok stored settled), after]
              simp only [against]
              exact .settles same

/-- A request on its own comes to its verdict. -/
theorem executeQuote_comes (quoteId : Uuid) (key : String) (clock : List Instant) (inv : Invariant db now)
    (fresh : db.execution executionId = none)
    (jsonb : ∀ response : ExecutionResponse, response.Fits → (Platform.jsonb response.modelDump).Same response.modelDump) :
    Comes db executionId key ((Session.later clock).headD 0) (verdict db (clock.headD 0) quoteId key)
      ((program (.executeQuote executionId quoteId key)).run clock db) := by
  cases clock with
  | nil =>
      rw [run_noClock]
      exact executeQuote_comes_read inv fresh jsonb (List.cons_ne_nil 0 [])
  | cons t rest => exact executeQuote_comes_read inv fresh jsonb (List.cons_ne_nil t rest)

namespace Engine

variable {start : Instant} {σ : Engine}

/-- An execution that was committed was due. -/
theorem Reachable.execution_due (h : Reachable start σ)
    (jsonb : ∀ response : ExecutionResponse, response.Fits → (Platform.jsonb response.modelDump).Same response.modelDump)
    {e : Event fx Call} (member : e ∈ σ.history) (call : e.call = .executeQuote executionId quoteId key) :
    ∃ q, verdict e.world.db (e.loc.reads.headD 0) quoteId key = .settles q ∧
      e.after = (settlementOf e.world.db executionId key q ((Session.later e.loc.reads).headD 0)).apply e.world.db := by
  obtain ⟨a, enabled, view, performs⟩ := h.commits member
  rw [call] at performs
  obtain ⟨⟨q, debited, credited, row, rfl, rfl, slot, hash⟩, reply, serial⟩ := performs
  have inv := (h.sound.events e member).2
  have fresh : e.world.db.execution executionId = none := by
    cases enabled with
    | execute _ _ fresh => exact fresh
  have comes := executeQuote_comes q.id key e.loc.reads inv fresh jsonb
  rw [serial] at comes
  generalize due : verdict e.world.db (e.loc.reads.headD 0) q.id key = v at comes
  generalize ended : (Except.ok reply, (Action.execute executionId q debited credited row).apply e.world.db) = r at comes
  cases comes with
  | refused => cases ended
  | replayed =>
      -- a replay adds no execution
      have executions := congrArg (fun r => r.2.executions.length) ended
      simp [Action.apply] at executions
  | settles => exact ⟨_, rfl, view.trans (Prod.mk.inj ended).2⟩

/-- In every reachable state a request on its own comes to its verdict on the committed
tables; and in every interleaving each execution that was committed was due, by the
verdict on the tables it was committed to at the instant it had read. -/
theorem Reachable.execution_decided (h : Reachable start σ)
    (jsonb : ∀ response : ExecutionResponse, response.Fits → (Platform.jsonb response.modelDump).Same response.modelDump) :
    (∀ executionId quoteId key clock, σ.world.db.execution executionId = none →
      Comes σ.world.db executionId key ((Session.later clock).headD 0)
        (verdict σ.world.db (clock.headD 0) quoteId key)
        ((program (.executeQuote executionId quoteId key)).run clock σ.world.db)) ∧
    ∀ e ∈ σ.history, ∀ executionId quoteId key, e.call = .executeQuote executionId quoteId key →
      ∃ q, verdict e.world.db (e.loc.reads.headD 0) quoteId key = .settles q ∧
        e.after = (settlementOf e.world.db executionId key q ((Session.later e.loc.reads).headD 0)).apply e.world.db :=
  ⟨fun _ _ _ clock fresh => executeQuote_comes _ _ clock h.invariant fresh jsonb,
    fun _ member _ _ _ call => h.execution_due jsonb member call⟩

end Engine

end Verdicts

attribute [local instance] Sample.platform Sample.settings

theorem Engine.execution_decided_sample : ∃ σ : Engine, Engine.Reachable 0 σ ∧
    Comes σ.world.db 6 "k" 0 (verdict σ.world.db 0 5 "k") ((program (.executeQuote 6 5 "k")).run [0] σ.world.db) ∧
    fundsRefusal σ.world.db ⟨5, 1, .KES, .NGN, cents 10000, cents 114226, ⟨0, -10⟩, [], 0, 0, 0⟩ = none := by
  obtain ⟨σ, reached, db⟩ := Sample.reachable Sample.prepared (by decide)
  refine ⟨σ, reached, (reached.execution_decided fun _ _ => .refl _).1 6 5 "k" [0] ?_, ?_⟩
  · rw [db]
    decide +kernel
  · rw [db]
    decide +kernel

end FxEngine
