import FxEngine.Correctness.Counters
import FxEngine.Guarantees.Serializability

/-! # A key stands for one execution and one answer -/

namespace FxEngine

open Numeric Transactions Program

/-! ## What a key is bound to -/

/-- The payload with its keys in order. -/
theorem sorted_execution (quoteId : Uuid) :
    (Json.dict [("method", .str httpPost), ("path", .str executionsPath),
        ("body", .dict (executionBody quoteId))]).sorted =
      .dict [("body", .dict (executionBody quoteId)), ("method", .str httpPost), ("path", .str executionsPath)] := by
  have methodPath : ("method" : String) ≤ "path" := by decide
  have pathBody : ¬ ("path" : String) ≤ "body" := by decide
  have methodBody : ¬ ("method" : String) ≤ "body" := by decide
  simp [Json.sorted, Json.sortFields, Json.sortedFields, executionBody, List.insertionSort, List.orderedInsert,
    methodPath, pathBody, methodBody]

/-- Requests for different quotes are hashed from different payloads. -/
theorem requestPayload_injective {quoteId other : Uuid}
    (same : requestPayload httpPost executionsPath (executionBody quoteId) =
      requestPayload httpPost executionsPath (executionBody other)) : quoteId = other := by
  rw [requestPayload, requestPayload, Json.dumps, Json.dumps, sorted_execution, sorted_execution] at same
  have chars := congrArg String.toList same
  simp only [String.toList_ofList, Json.dumpsChars, Json.dumpsFields, executionBody, Json.quoted_plain (uuidStr_plain _),
    List.append_assoc, List.cons_append, List.cons.injEq, true_and, List.append_cancel_left_eq,
    List.append_cancel_right_eq] at chars
  exact uuidStr_injective (String.toList_inj.mp chars)

theorem Call.execution {call : Call} {key : String} (h : call.key = some key) :
    ∃ executionId quoteId, call = .executeQuote executionId quoteId key := by
  cases call with
  | executeQuote executionId quoteId k =>
      obtain rfl := Option.some.inj h
      exact ⟨executionId, quoteId, rfl⟩
  | _ => cases h

section Keys

variable [Platform] [Settings]

/-- What the row of a key answers fits the response model. -/
theorem Completed.fits {db : Tables} {now : Instant} {row : IdempotencyKey} {executionId : Uuid} {q : Quote}
    {debited credited : ℤ} (h : Completed db row executionId q debited credited) (inv : Invariant db now) :
    (executionResponse executionId q (cents debited) (cents credited)).Fits := by
  obtain ⟨other, stored, -, entries⟩ := inv.posted.executed _ (Table.row_some h.execution).1
  obtain rfl : q = other := Option.some.inj (h.quote.symm.trans stored)
  obtain ⟨-, rows, refresh, -, priced⟩ := inv.quoted.priced q (Table.row_some h.quote).1
  obtain ⟨spent, received, source, destination, spentFits, receivedFits⟩ := priced.amounts
  have posted : ∀ entry ∈ db.entriesOf .execution executionId, ∃ n : ℤ, 0 < n ∧ entry.amount = cents n :=
    fun entry member => (inv.accounts.posted entry (List.mem_filter.mp member).1).2
  rw [entries] at posted
  obtain ⟨n, spentPositive, same⟩ := posted _ List.mem_cons_self
  obtain rfl : spent = n := congrArg Decimal.coeff (source.symm.trans same)
  obtain ⟨m, receivedPositive, same⟩ := posted _ (List.mem_cons_of_mem _ List.mem_cons_self)
  obtain rfl : received = m := congrArg Decimal.coeff (destination.symm.trans same)
  simp only [numericPrecision] at spentFits receivedFits
  refine ⟨⟨spent, source, spentPositive.le, ?_⟩, ⟨received, destination, receivedPositive.le, ?_⟩, ?_, ?_⟩
  · simp only [numericPrecision]
    omega
  · simp only [numericPrecision]
    omega
  · intro balance member
    rcases List.mem_pair.mp member with rfl | rfl
    · exact ⟨debited, rfl, h.debited⟩
    · exact ⟨credited, rfl, h.credited⟩
  · simpa [executionResponse] using priced.differ

/-- The commit of an execution claims its key and adds one execution. -/
theorem Performs.execution {executionId quoteId : Uuid} {key : String} {db : Tables} {now : Instant}
    {reads : List Instant} {a : Action} (enabled : Enabled db now a)
    (performs : Performs (.executeQuote executionId quoteId key) db reads a) :
    db.idempotencyKey executionsEndpoint key = none ∧
      (∃ row, (a.apply db).idempotencyKey executionsEndpoint key = some row ∧
        row.requestHash = executionRequestHash quoteId) ∧
      ∃ customerId, (a.apply db).executions = db.executions ++ [⟨executionId, quoteId, customerId⟩] := by
  obtain ⟨⟨q, debited, credited, row, rfl, rfl, slot, hash⟩, -⟩ := performs
  cases enabled with
  | @execute _ _ key' completedAt _ _ _ _ stored unexecuted fresh unclaimed =>
      obtain rfl : key' = key := congrArg Prod.snd slot
      refine ⟨unclaimed, ⟨_, ?_, hash⟩, q.customerId, rfl⟩
      exact (Table.row_append_none unclaimed).trans (by simp [Table.row, completedKey])

namespace Engine

variable {start : Instant} {σ : Engine} {executionId quoteId : Uuid} {key : String}

/-- A call that returned a body returned what the row of its key holds. -/
theorem Reachable.answered (h : Reachable start σ)
    (jsonb : ∀ response : ExecutionResponse, response.Fits →
      (Platform.jsonb response.modelDump).Same response.modelDump)
    {i : ℕ} {p : Proc fx Call Reply} (at_ : σ.procs i = some p) (call : p.call = .executeQuote executionId quoteId key)
    {body : Json} (done : p.prog = .ret (.execution body)) :
    ∃ row payload, σ.world.db.idempotencyKey executionsEndpoint key = some row ∧
      row.requestHash = executionRequestHash quoteId ∧ row.responsePayload = some payload ∧ body.Same payload := by
  have post := h.sound.post at_ (r := .ok (.execution body)) done
  change Outcome p.call _ _ _ at post
  rw [call] at post
  cases post with
  | @replayed _ _ _ row payload _ _ found hash stored answer =>
      refine ⟨row, payload, found, hash, stored, ?_⟩
      obtain ⟨x, q, debited, credited, completed⟩ := h.invariant.claimed.completed row (Table.row_some found).1
      obtain ⟨completedAt, content⟩ := completed.content
      have fits := completed.fits h.invariant
      rw [content] at stored
      obtain rfl := Option.some.inj stored
      obtain ⟨body', answer', same⟩ := ExecutionResponse.respond_same fits (jsonb _ fits)
      rw [answer] at answer'
      obtain rfl := Except.ok.inj answer'
      exact same.trans (jsonb _ fits).symm
  | @executed _ _ _ row _ response _ _ found hash fits stored answer =>
      refine ⟨row, _, found, hash, stored, ?_⟩
      obtain ⟨body', answer', same⟩ := ExecutionResponse.respond_same fits (.refl _)
      rw [answer] at answer'
      obtain rfl := Except.ok.inj answer'
      exact same.trans (jsonb _ fits).symm

/-- The commit of an execution claimed its key for good. -/
theorem Reachable.claimed (h : Reachable start σ) {e : Event fx Call} (member : e ∈ σ.history)
    (call : e.call = .executeQuote executionId quoteId key) :
    e.world.db.idempotencyKey executionsEndpoint key = none ∧
      (e.after.idempotencyKey executionsEndpoint key).isSome ∧
      (∃ row, σ.world.db.idempotencyKey executionsEndpoint key = some row ∧
        row.requestHash = executionRequestHash quoteId) ∧
      ∃ customerId, e.after.executions = e.world.db.executions ++ [⟨executionId, quoteId, customerId⟩] := by
  obtain ⟨a, enabled, view, performs⟩ := h.commits member
  rw [call] at performs
  obtain ⟨unclaimed, ⟨row, found, hash⟩, executions⟩ := performs.execution enabled
  rw [← view] at found executions
  exact ⟨unclaimed, by rw [found]; rfl, ⟨row, (h.since member).idempotencyKey found, hash⟩, executions⟩

/-- A key is committed at most once. -/
theorem Reachable.commits_once (h : Reachable start σ) (key : String) :
    (σ.history.filter (·.call.key = some key)).length ≤ 1 := by
  have apart := h.chain.pairwise
    (fun e db => ∀ key, e.call.key = some key → (db.idempotencyKey executionsEndpoint key).isSome)
    (fun e member key named => by
      obtain ⟨x, q, called⟩ := Call.execution named
      exact (h.claimed member called).2.1)
    fun e f member marked key named => by
      obtain ⟨row, found⟩ := Option.isSome_iff_exists.mp (marked key named)
      exact Option.isSome_iff_exists.mpr ⟨row, (h.step member).idempotencyKey found⟩
  have filtered := apart.filter fun e => decide (e.call.key = some key)
  have members : ∀ e ∈ σ.history.filter (·.call.key = some key), e ∈ σ.history ∧ e.call.key = some key :=
    fun e member => ⟨(List.mem_filter.mp member).1, by simpa using (List.mem_filter.mp member).2⟩
  match eq : σ.history.filter (·.call.key = some key) with
  | [] | [_] => rw [eq]; simp
  | e :: f :: rest =>
      rw [eq] at filtered members
      obtain ⟨inside, named⟩ := members f (List.mem_cons_of_mem _ List.mem_cons_self)
      obtain ⟨x, q, called⟩ := Call.execution named
      have claimed := (List.pairwise_cons.mp filtered).1 f List.mem_cons_self key
        (members e List.mem_cons_self).2
      rw [(h.claimed inside called).1] at claimed
      cases claimed

/-- A finished call that counted a replay committed nothing. -/
theorem Reachable.replay_quiet (h : Reachable start σ) {i : ℕ} {p : Proc fx Call Reply} (at_ : σ.procs i = some p)
    (call : p.call = .executeQuote executionId quoteId key) {r : Except PyError Reply}
    (done : p.prog = Program.ofExcept r) (counted : Counter.idempotencyReplayTotal ∈ p.loc.counts) :
    ∀ e ∈ σ.history, e.pid ≠ i := by
  have post := h.sound.post at_ done
  change Outcome p.call _ _ _ at post
  rw [call] at post
  have none : p.loc.commits = [] := by
    cases post with
    | replayed commits => exact commits
    | failed commits => exact commits
    | executed _ counts => simp [counts] at counted
    | late _ _ _ counts => simp [counts] at counted
  rw [h.sound.logged at_, List.map_eq_nil_iff, List.filter_eq_nil_iff] at none
  exact fun e member same => none e member (by simpa using same)

/-- In every reachable state, for every key: one row, which stays as it is and is completed;
one answer to all calls; no commit by a replay; no answer to and no commit by a call for
another quote than that of the row; and one commit, of one execution. -/
theorem Reachable.idempotent (h : Reachable start σ)
    (collisionFree : ∀ q q' : Uuid, executionRequestHash q = executionRequestHash q' →
      requestPayload httpPost executionsPath (executionBody q) =
        requestPayload httpPost executionsPath (executionBody q'))
    (jsonb : ∀ response : ExecutionResponse, response.Fits →
      (Platform.jsonb response.modelDump).Same response.modelDump) (key : String) :
    ((σ.world.db.idempotencyKeys.filter (·.key = key)).length ≤ 1 ∧
      (∀ τ, Run program σ τ → σ.world.db.idempotencyKeys <+: τ.world.db.idempotencyKeys) ∧
      ∀ row ∈ σ.world.db.idempotencyKeys, row.responsePayload.isSome ∧ row.statusCode = some 200 ∧
        row.completedAt.isSome) ∧
    (∃ value : Json, ∀ i p body, σ.procs i = some p → p.call.key = some key → p.prog = .ret (.execution body) →
      body.Same value) ∧
    (∀ i p r, σ.procs i = some p → p.call.key = some key → p.prog = Program.ofExcept r →
      Counter.idempotencyReplayTotal ∈ p.loc.counts → ∀ e ∈ σ.history, e.pid ≠ i) ∧
    (∀ row ∈ σ.world.db.idempotencyKeys, row.key = key → ∃ quoteId, row.requestHash = executionRequestHash quoteId ∧
      ∀ i p executionId other, σ.procs i = some p → p.call = .executeQuote executionId other key →
        other ≠ quoteId → (∀ e ∈ σ.history, e.pid ≠ i) ∧ ∀ body, p.prog ≠ .ret (.execution body)) ∧
    (σ.history.filter (·.call.key = some key)).length ≤ 1 ∧
    ∀ e ∈ σ.history, e.call.key = some key → ∃ x, e.after.executions = e.world.db.executions ++ [x] := by
  have claimed := h.invariant.claimed
  have completed : ∀ row ∈ σ.world.db.idempotencyKeys, row.endpoint = executionsEndpoint ∧
      row.responsePayload.isSome ∧ row.statusCode = some 200 ∧ row.completedAt.isSome ∧
      ∃ quoteId, row.requestHash = executionRequestHash quoteId := by
    intro row member
    obtain ⟨x, q, debited, credited, done⟩ := claimed.completed row member
    obtain ⟨completedAt, content⟩ := done.content
    rw [content]
    exact ⟨rfl, rfl, rfl, rfl, q.id, rfl⟩
  have rowOf : ∀ row ∈ σ.world.db.idempotencyKeys, row.key = key →
      σ.world.db.idempotencyKey executionsEndpoint key = some row := by
    rintro row member rfl
    have slot : row.slot = (executionsEndpoint, row.key) := by rw [IdempotencyKey.slot, (completed row member).1]
    have found := Table.row_of_mem claimed.distinct member
    rwa [slot] at found
  refine ⟨⟨?_, fun τ run => (h.grown run).idempotencyKeys, fun row member => ?_⟩, ?_, ?_, ?_, ?_, ?_⟩
  · have once := Table.length_filter_le_one claimed.distinct (executionsEndpoint, key)
    refine le_of_eq_of_le (congrArg List.length (List.filter_congr fun row member => ?_)) once
    simp [IdempotencyKey.slot, (completed row member).1]
  · obtain ⟨-, payload, status, completedAt, -⟩ := completed row member
    exact ⟨payload, status, completedAt⟩
  · cases found : (σ.world.db.idempotencyKey executionsEndpoint key).bind IdempotencyKey.responsePayload with
    | none =>
        refine ⟨.null, fun i p body at_ call done => ?_⟩
        obtain ⟨x, q, called⟩ := Call.execution call
        obtain ⟨row, payload, there, -, stored, -⟩ := h.answered jsonb at_ called done
        simp [there, stored] at found
    | some value =>
        refine ⟨value, fun i p body at_ call done => ?_⟩
        obtain ⟨x, q, called⟩ := Call.execution call
        obtain ⟨row, payload, there, -, stored, same⟩ := h.answered jsonb at_ called done
        rw [there, Option.bind_some, stored] at found
        exact Option.some.inj found ▸ same
  · intro i p r at_ call done counted
    obtain ⟨x, q, called⟩ := Call.execution call
    exact h.replay_quiet at_ called done counted
  · intro row member named
    obtain ⟨-, -, -, -, quoteId, hash⟩ := completed row member
    refine ⟨quoteId, hash, fun i p executionId other at_ call differ => ?_⟩
    -- whoever got through with the key did so for the quote of the row
    have only : ∀ found, σ.world.db.idempotencyKey executionsEndpoint key = some found →
        found.requestHash ≠ executionRequestHash other := by
      intro found there same
      rw [rowOf row member named] at there
      obtain rfl := Option.some.inj there
      exact differ (requestPayload_injective (collisionFree _ _ (same.symm.trans hash)))
    refine ⟨fun e inside pid => ?_, fun body done => ?_⟩
    · obtain ⟨p', at', same⟩ := h.sound.owners e inside
      rw [pid, at_] at at'
      obtain rfl := Option.some.inj at'
      obtain ⟨-, -, ⟨found, there, bound⟩, -⟩ := h.claimed inside (same.symm.trans call)
      exact only found there bound
    · obtain ⟨found, payload, there, bound, -⟩ := h.answered jsonb at_ call done
      exact only found there bound
  · exact h.commits_once key
  · intro e member call
    obtain ⟨x, q, called⟩ := Call.execution call
    obtain ⟨-, -, -, customerId, executions⟩ := h.claimed member called
    exact ⟨_, executions⟩

end Engine

end Keys

attribute [local instance] Sample.platform Sample.settings

/-- The key `k` for the quote 5, again for the quote 5, and for the quote 8. -/
def Sample.replayed : List (Call × List Instant) :=
  prepared ++ [(.createQuote 8 1 .KES .NGN (.str "50.00"), [0]), (.executeQuote 6 5 "k", [0]),
    (.executeQuote 7 5 "k", [0]), (.executeQuote 9 8 "k", [0])]

/-- The second call is a replay with the answer of the first; the third is turned away. -/
theorem Engine.idempotent_sample : ∃ (σ : Engine) (p p' p'' : Proc fx Call Reply) (body body' : Json),
    Engine.Reachable 0 σ ∧ (σ.procs 5 = some p ∧ σ.procs 6 = some p' ∧ σ.procs 7 = some p'') ∧
    (p.call = .executeQuote 6 5 "k" ∧ p'.call = .executeQuote 7 5 "k" ∧ p''.call = .executeQuote 9 8 "k") ∧
    (p.prog = .ret (.execution body) ∧ p'.prog = .ret (.execution body')) ∧
    σ.world.db.idempotencyKeys.map IdempotencyKey.key = ["k"] ∧
    (∃ value : Json, body.Same value ∧ body'.Same value) ∧
    (∀ e ∈ σ.history, e.pid ≠ 6) ∧ (∀ e ∈ σ.history, e.pid ≠ 7) ∧ (∀ other, p''.prog ≠ .ret (.execution other)) ∧
    (σ.history.filter (·.call.key = some "k")).length ≤ 1 := by
  obtain ⟨σ, reached, db, -, -, -, ends⟩ := Engine.serial_reachable (Sample.ordered Sample.replayed (by decide))
  have answered : ∀ k executionId quoteId key,
      (Sample.replayed.map Prod.fst)[k]? = some (.executeQuote executionId quoteId key) →
      ((serial program Sample.replayed {}).1.map fun r => r.toOption.isSome)[k]? = some true →
      ∃ p body, σ.procs k = some p ∧ p.call = .executeQuote executionId quoteId key ∧
        p.prog = .ret (.execution body) := by
    intro k executionId quoteId key asked there
    rw [List.getElem?_map] at there
    obtain ⟨r, found, answer⟩ := Option.map_eq_some_iff.mp there
    obtain ⟨p, at_, called, ended⟩ := ends k r found
    have call : p.call = .executeQuote executionId quoteId key := Option.some.inj (called.symm.trans asked)
    cases r with
    | error e => cases answer
    | ok reply =>
        have post := reached.sound.post at_ (r := .ok reply) ended
        change Outcome p.call _ _ _ at post
        rw [call] at post
        cases post <;> exact ⟨p, _, at_, call, ended⟩
  obtain ⟨p, body, at_, call, done⟩ := answered 5 6 5 "k" rfl (by decide +kernel)
  obtain ⟨p', body', at', call', done'⟩ := answered 6 7 5 "k" rfl (by decide +kernel)
  obtain ⟨r, found⟩ : ∃ r, (serial program Sample.replayed {}).1[7]? = some r :=
    Option.isSome_iff_exists.mp (by decide +kernel)
  obtain ⟨p'', at'', called'', -⟩ := ends 7 r found
  obtain ⟨row, member, named, hash⟩ :
      ∃ row ∈ σ.world.db.idempotencyKeys, row.key = "k" ∧ row.requestHash = executionRequestHash 5 := by
    rw [db]
    decide +kernel
  have keys : σ.world.db.idempotencyKeys.map IdempotencyKey.key = ["k"] := by
    rw [db]
    decide +kernel
  obtain ⟨-, ⟨value, same⟩, replay, bound, once, -⟩ := reached.idempotent (fun _ _ same => same) (fun _ _ => .refl _) "k"
  have call'' : p''.call = .executeQuote 9 8 "k" := (Option.some.inj called'').symm
  have before := reached.uncommitted at' call' (by
    rw [db]
    decide +kernel)
  have counted : Counter.idempotencyReplayTotal ∈ p'.loc.counts := by
    have post := reached.sound.post at' (r := .ok (.execution body')) done'
    change Outcome p'.call _ _ _ at post
    rw [call'] at post
    cases post with
    | replayed _ counts => simp [counts]
    | executed commits =>
        rw [before] at commits
        cases commits
  obtain ⟨quoteId, hash', away⟩ := bound row member named
  obtain rfl : quoteId = 5 := requestPayload_injective (hash'.symm.trans hash)
  obtain ⟨absent, unanswered⟩ := away 7 p'' 9 8 at'' call'' (by decide)
  refine ⟨σ, p, p', p'', body, body', reached, ⟨at_, at', at''⟩, ⟨call, call', call''⟩, ⟨done, done'⟩, keys,
    ⟨value, same 5 p body at_ ?_ done, same 6 p' body' at' ?_ done'⟩,
    replay 6 p' (.ok (.execution body')) at' ?_ done' counted, absent, unanswered, once⟩
  · rw [call]
    rfl
  · rw [call']
    rfl
  · rw [call']
    rfl

end FxEngine
