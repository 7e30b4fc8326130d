import FxEngine.Guarantees.Verdicts
import FxEngine.Transactions.Trails

/-! # The counters of executions

Each execution request counts its outcome once, unless it fails before it has its key.
-/

namespace FxEngine

open Transactions Program

/-- The counters that say how an execution request ended. -/
def outcomeCounters : List Counter :=
  [.executionSuccessTotal, .executionFailureTotal, .idempotencyConflictTotal, .idempotencyReplayTotal]

/-- The counters of a reason for failing. -/
def reasonCounters : List Counter := [.quoteExpiredTotal, .insufficientFundsTotal]

section Trails

variable [Platform]

/-- The session has written its key. -/
def ClaimsKey (writes : List Statement) : Prop := ∃ row, .insertIdempotencyKey row ∈ writes

/-- What the trail of a call says of these counters. -/
def Tallies (call : Call) (_ : Except PyError Reply) (t : Trail fx) : Prop :=
  match call.key with
  | some _ => t.counts = [] → ¬ ClaimsKey t.writes
  | none => ∀ m ∈ outcomeCounters ++ reasonCounters, m ∉ t.counts

theorem settle_counts {executionId : Uuid} {idempotencyKey : String} {quote : Quote} {locked : Currency → Numeric.Decimal}
    {V : Environment fx} {t : Trail fx} :
    (settle executionId idempotencyKey quote locked).Ends V (fun r t' => r.isOk → t'.counts ≠ []) t := by
  have err : ∀ (e : PyError) (t : Trail fx), (Except.error e : Except PyError Json).isOk → t.counts ≠ [] := nofun
  refine .skip err fun _ _ => .skip err fun _ _ => .skip err fun debited _ => .skip err fun _ _ => ?_
  refine .skip err fun _ _ => .skip err fun credited _ => .skip err fun completedAt _ => ?_
  refine .skip err fun _ _ => .skip err fun _ t => ?_
  exact (ends_counted (t.counted_ne .executionSuccessTotal)).mono fun _ _ some _ => some

/-- Every way out of the guarded block counts. -/
theorem executeClaimed_counts {executionId quoteId : Uuid} {idempotencyKey : String} {V : Environment fx}
    {t : Trail fx} : (executeClaimed executionId quoteId idempotencyKey).Ends V (fun _ t' => t'.counts ≠ []) t := by
  have failed : ∀ {quote : Option Quote} {e : PyError} {t : Trail fx},
      (executionFailed quote e : Tx Json).Ends V (fun _ t' => t'.counts ≠ []) t := by
    intro quote e t
    exact ends_rollback (ends_count (ends_counted (t.counted_ne _)))
  refine .bind (.attempt (ends_trivial.mono fun found t _ => ?_))
  rcases found with e | _ | quote
  · exact failed
  · exact failed
  · refine .bind (.attempt (Ends.mono (Q := fun r t' => r.isOk → t'.counts ≠ []) ?_ fun done t some => ?_))
    · have err : ∀ (e : PyError) (t : Trail fx), (Except.error e : Except PyError Json).isOk → t.counts ≠ [] := nofun
      refine .skip err fun _ _ => .skip err fun locked _ => ends_ite (fun _ => ?_) fun _ => settle_counts
      exact fun ok => absurd ok Bool.false_ne_true
    · cases done with
      | error e => exact failed
      | ok payload => exact some rfl

/-- The key is claimed, taken by another request, or refused for its length. -/
theorem claimKey_ends {idempotencyKey reqHash : String} {V : Environment fx} {Q : Except PyError Unit → Trail fx → Prop}
    {t : Trail fx} (ok : idempotencyKey.length ≤ idempotencyKeyMaxLength → Q (.ok ()) (t.wrote
      (Statement.insertIdempotencyKey { endpoint := executionsEndpoint, key := idempotencyKey, requestHash := reqHash })))
    (taken : V.throws t ∨ idempotencyKey.length ≤ idempotencyKeyMaxLength → ∀ e, Q (.error e)
      (t.counted Counter.idempotencyConflictTotal))
    (failed : V.throws t ∨ idempotencyKeyMaxLength < idempotencyKey.length → ∀ e, Q (.error e) t) :
    (claimKey idempotencyKey reqHash).Ends V Q t := by
  refine .bind (.attempt (.bind (ends_execute (fun may e => ?_)
    (fun s free => ok (Statement.check_insertIdempotencyKey.mp free).1) fun s e refused => ?_)))
  · cases e with
    | integrityError => exact taken (.inl may) _
    | _ => exact failed (.inl may) _
  · rcases Statement.check_insertIdempotencyKey_some refused with ⟨rfl, long⟩ | ⟨rfl, fits⟩
    · exact failed (.inr long) _
    · exact taken (.inr fits) _

theorem executeQuote_tallies {executionId quoteId : Uuid} {idempotencyKey reqHash : String} :
    (executeQuote executionId quoteId idempotencyKey reqHash).Ends {}
      (fun _ t => t.counts = [] → ¬ ClaimsKey t.writes) {} := by
  have fresh : ¬ ClaimsKey (([] : List Statement)) := by
    rintro ⟨row, member⟩
    cases member
  have enough : ∀ (r : Except PyError (Json × Bool)) (t : Trail fx), t.counts ≠ [] →
      t.counts = [] → ¬ ClaimsKey t.writes := fun r t some none => absurd none some
  -- the insertion of the key, then the guarded block
  have claimed : (do
      claimKey idempotencyKey reqHash
      let payload ← executeClaimed executionId quoteId idempotencyKey
      pure (payload, false) : Tx (Json × Bool)).Ends {} (fun _ t => t.counts = [] → ¬ ClaimsKey t.writes)
      {} := by
    refine .bind (claimKey_ends (fun _ => .bind (executeClaimed_counts.mono fun r t some => ?_))
      (fun _ _ none => absurd none (Trail.counted_ne _ _)) fun _ _ _ => fresh)
    cases r <;> exact fun none => absurd none some
  refine ends_ite (fun _ _ => fresh) fun _ => .bind (ends_select (fun _ _ _ => fresh) fun db _ => .bind ?_)
  cases db.idempotencyKey executionsEndpoint idempotencyKey with
  | none => exact claimed
  | some existing =>
      refine ends_ite (fun _ => ends_count (Ends.counted (Ends.Next.counted enough) (Trail.counted_ne _ _))) fun _ => ?_
      split
      · refine ends_ite (fun _ => ends_count (Ends.counted (Ends.Next.counted enough) (Trail.counted_ne _ _))) fun _ => ?_
        exact claimed
      · exact claimed

theorem program_tallies [Settings] (call : Call) : (program call).Ends {} (Tallies call) {} := by
  have others : call.key = none → (program call).Ends {} (Tallies call) {} := by
    intro other
    have spares : ∀ m ∈ outcomeCounters ++ reasonCounters, (program call).Spares m := by
      intro m member
      have listed : ∀ m ∈ outcomeCounters ++ reasonCounters, .quoteCreatedTotal ≠ m ∧ .rateRefreshSuccessTotal ≠ m ∧
          .rateRefreshFailureTotal ≠ m := by decide
      obtain ⟨quotes, success, failure⟩ := listed m member
      exact program_spares_other other quotes success failure
    refine (Spares.ends spares fun _ _ => List.not_mem_nil).mono fun r t none => ?_
    rw [Tallies, other]
    exact none
  cases call with
  | executeQuote executionId quoteId key =>
      refine .bind (executeQuote_tallies.mono fun r t free => ?_)
      cases r with
      | error e => exact free
      | ok result => exact .bind (ends_ofExcept (by cases respond result.1 <;> exact free))
  | _ => exact others rfl

/-! ### Without faults at the wrong moment -/

/-- How often these counters say how a request ended. -/
def outcomes (counts : List Counter) : ℕ := counts.countP (· ∈ outcomeCounters)

/-- A fault is counted as a failure: the key is claimed, and no success counted, or the failure
is counted already. -/
def Covered (writes : List Statement) (counts : List Counter) : Prop :=
  ClaimsKey writes ∧ .executionSuccessTotal ∉ counts ∨ .executionFailureTotal ∈ counts

/-- What the trail of a request says of its outcome. -/
def Tallied (call : Call) (_ : Except PyError Reply) (t : Trail fx) : Prop :=
  ∀ key ∈ call.key, key ≠ "" → outcomes t.counts = if key.length ≤ idempotencyKeyMaxLength then 1 else 0

/-- When the environment may throw into a call. -/
def Throwable (call : Call) (writes : List Statement) (counts : List Counter) : Prop :=
  match call.key with
  | some _ => Covered writes counts
  | none => True

omit [Platform] in
theorem Throwable.mono {call : Call} {writes more : List Statement} {counts : List Counter} (sub : writes ⊆ more)
    (h : Throwable call writes counts) : Throwable call more counts := by
  unfold Throwable at h ⊢
  split
  · rename_i named
    rw [named] at h
    change Covered writes counts at h
    rcases h with ⟨⟨row, member⟩, unsettled⟩ | failed
    · exact .inl ⟨⟨row, sub member⟩, unsettled⟩
    · exact .inr failed
  · trivial

end Trails

/-! ## Every finished request -/

/-- What a finished request may have counted. -/
def possibleCounts : List (List Counter) :=
  [[], [.idempotencyConflictTotal], [.executionFailureTotal], [.quoteExpiredTotal, .executionFailureTotal],
    [.insufficientFundsTotal, .executionFailureTotal], [.idempotencyReplayTotal], [.executionSuccessTotal],
    [.executionSuccessTotal, .executionFailureTotal]]

theorem reasons_of_possible : ∀ counts ∈ possibleCounts,
    (∀ m ∈ reasonCounters, m ∈ counts → counts = [m, .executionFailureTotal]) ∧
      counts.countP (· ∈ reasonCounters) ≤ counts.countP (· == .executionFailureTotal) := by
  decide

section Outcomes

variable [Platform] [Settings]

/-- Only executions add executions. -/
theorem Performs.executions {call : Call} {db : Tables} {reads : List Instant} {a : Action}
    (performs : Performs call db reads a) :
    (a.apply db).executions.length = db.executions.length + if call.key.isSome then 1 else 0 := by
  cases call with
  | createCustomer customerId =>
      obtain rfl : a = .openAccount customerId := performs
      rfl
  | creditBalance =>
      obtain ⟨⟨amount, balance, rfl⟩, -⟩ := performs
      rfl
  | createQuote =>
      obtain ⟨row, legs, rfl, -⟩ := performs
      rfl
  | executeQuote =>
      obtain ⟨⟨q, debited, credited, row, rfl, -⟩, -⟩ := performs
      simp [Action.apply, Call.key]
  | refreshRates =>
      obtain ⟨row, rows, provided, rfl, -⟩ | ⟨row, rfl⟩ := performs <;> rfl
  | getBalances | readyz => exact performs.elim

theorem Executed.possible {executionId quoteId : Uuid} {key : String} {r : Except PyError Reply} {w : World fx}
    {l : Local fx} (h : Executed executionId quoteId key r w l) : l.counts ∈ possibleCounts := by
  cases h with
  | replayed _ counts | executed _ counts | late _ _ _ counts => simp [possibleCounts, counts]
  | failed _ _ _ counts =>
      simp only [possibleCounts, List.mem_cons, List.not_mem_nil, or_false] at counts ⊢
      tauto

/-- Unless something failed after its commit, it counts one outcome or nothing. -/
theorem Executed.once {executionId quoteId : Uuid} {key : String} {r : Except PyError Reply} {w : World fx}
    {l : Local fx} (h : Executed executionId quoteId key r w l) (early : l.commits = [] ∨ r.isOk) :
    outcomes l.counts = 1 ∨ l.counts = [] ∧ ¬ r.isOk := by
  cases h with
  | replayed _ counts | executed _ counts =>
      rw [counts]
      exact .inl rfl
  | failed _ _ _ counts =>
      simp only [List.mem_cons, List.not_mem_nil, or_false] at counts
      rcases counts with none | counts
      · exact .inr ⟨none, Bool.false_ne_true⟩
      · rcases counts with one | one | one | one | one <;> rw [one] <;> exact .inl rfl
  | late commits =>
      rw [commits] at early
      exact absurd (early.resolve_left (List.cons_ne_nil _ _)) Bool.false_ne_true

/-- A finished request counts its commit, and a reason only with a failure. -/
theorem Executed.totals {executionId quoteId : Uuid} {key : String} {r : Except PyError Reply} {w : World fx}
    {l : Local fx} (h : Executed executionId quoteId key r w l) :
    l.counts.countP (· == .executionSuccessTotal) = l.commits.length ∧
      l.counts.countP (· ∈ reasonCounters) ≤ l.counts.countP (· == .executionFailureTotal) := by
  refine ⟨?_, (reasons_of_possible _ h.possible).2⟩
  · cases h with
    | replayed commits counts | executed commits counts | late commits _ _ counts =>
        rw [counts, commits]
        rfl
    | failed commits _ _ counts =>
        rw [commits]
        simp only [List.mem_cons, List.not_mem_nil, or_false] at counts
        rcases counts with none | none | none | none | none | none <;> rw [none] <;> rfl

end Outcomes

namespace Engine

section Totals

variable [Platform] [Settings] {start : Instant} {σ : Engine}

/-- Session `i` has written its idempotency key at some earlier moment. -/
def ClaimedKey (start : Instant) (σ : Engine) (i : ℕ) : Prop :=
  ∃ (τ : Engine) (p : Proc fx Call Reply), Reachable start τ ∧ Run program τ σ ∧ τ.procs i = some p ∧
    ClaimsKey p.loc.writes

/-- All execution requests have returned or raised. -/
def Answered (σ : Engine) : Prop :=
  ∀ i p, σ.procs i = some p → p.call.key.isSome → ∃ r, p.prog = .ofExcept r

/-- Who has its key counts before it ends. -/
theorem Reachable.claimed_counts (h : Reachable start σ) {i : ℕ} {p : Proc fx Call Reply} (at_ : σ.procs i = some p)
    {executionId quoteId : Uuid} {key : String} (call : p.call = .executeQuote executionId quoteId key)
    {r : Except PyError Reply} (done : p.prog = .ofExcept r) (none : σ.countsOf i = []) : ¬ σ.ClaimedKey start i := by
  rintro ⟨τ, q, reached, run, before, row, member⟩
  obtain ⟨t, ends, counts, kept⟩ := Transactions.Reachable.trailed program_tallies reached run before at_
  rw [done, call] at ends
  have free : t.counts = [] → ¬ ClaimsKey t.writes := by cases r <;> exact ends
  refine free ?_ ⟨row, kept member⟩
  rw [counts, h.counted.counts at_, none]

/-- Other calls count none of these. -/
theorem Reachable.others_count (h : Reachable start σ) {i : ℕ} {p : Proc fx Call Reply} (at_ : σ.procs i = some p)
    (other : p.call.key = none) : ∀ m ∈ outcomeCounters ++ reasonCounters, m ∉ σ.countsOf i := by
  obtain ⟨t, ends, counts, -⟩ := Transactions.Reachable.trailed program_tallies h .refl at_ at_
  rw [← h.counted.counts at_, ← counts]
  refine @Ends.spared _ _ _ {} _ _ σ.world.db trivial (ends.mono fun r t' tallies => ?_)
  rwa [Tallies, other] at tallies

/-- Who is not there, or is no execution request, has counted none of these. -/
theorem Reachable.quiet (h : Reachable start σ) {i : ℕ}
    (other : ∀ p, σ.procs i = some p → p.call.key = none) :
    ∀ m ∈ outcomeCounters ++ reasonCounters, m ∉ σ.countsOf i := by
  cases at_ : σ.procs i with
  | none =>
      rintro m - counted
      obtain ⟨entry, member, -⟩ := List.mem_map.mp counted
      obtain ⟨logged, same⟩ := List.mem_filter.mp member
      have owned := h.counted.owners entry logged
      rw [of_decide_eq_true same, at_] at owned
      cases owned
  | some p => exact h.others_count at_ (other p at_)

/-- Each commit of an execution request adds one execution. -/
theorem Reachable.executions_length (h : Reachable start σ) :
    σ.world.db.executions.length = σ.history.countP fun e => e.call.key.isSome := by
  have each : ∀ e ∈ σ.history, e.after.executions.length =
      e.world.db.executions.length + if e.call.key.isSome then 1 else 0 := by
    intro e member
    obtain ⟨a, -, view, performs⟩ := h.commits member
    rw [view, performs.executions]
  rw [h.chain.counts (f := fun db => db.executions.length) each]
  exact Nat.zero_add _

/-- The commits of session `i` that are executions: all of them, or none. -/
theorem Reachable.commits_of (h : Reachable start σ) {i : ℕ} :
    (σ.history.filter (·.pid = i)).countP (fun e => e.call.key.isSome) =
      ((σ.procs i).elim 0 fun p => if p.call.key.isSome then p.loc.commits.length else 0) := by
  have owner : ∀ e ∈ σ.history.filter (·.pid = i), ∃ p, σ.procs i = some p ∧ p.call = e.call := by
    intro e member
    obtain ⟨inside, same⟩ := List.mem_filter.mp member
    obtain ⟨p, at_, call⟩ := h.sound.owners e inside
    exact ⟨p, of_decide_eq_true same ▸ at_, call⟩
  cases at_ : σ.procs i with
  | none =>
      refine List.countP_eq_zero.mpr fun e member => ?_
      obtain ⟨p, there, -⟩ := owner e member
      rw [at_] at there
      cases there
  | some p =>
      have calls : ∀ e ∈ σ.history.filter (·.pid = i), e.call = p.call := by
        intro e member
        obtain ⟨p', there, call⟩ := owner e member
        obtain rfl : p = p' := Option.some.inj (at_.symm.trans there)
        exact call.symm
      rw [Option.elim_some, h.sound.logged at_, List.length_map]
      by_cases execution : p.call.key.isSome
      · rw [if_pos execution]
        exact List.countP_eq_length.mpr fun e member => by rw [calls e member]; exact execution
      · rw [if_neg execution]
        exact List.countP_eq_zero.mpr fun e member => by rw [calls e member]; exact execution

omit [Settings] in
/-- Two counters together. -/
theorem counter_add (σ : Engine) {m m' : Counter} (differ : m ≠ m') :
    σ.counter m + σ.counter m' = σ.total (· ∈ [m, m']) := by
  rw [Sys.counter, Sys.counter, Sys.total]
  induction σ.metrics.map Prod.snd with
  | nil => rfl
  | cons counted rest ih =>
      rw [List.count_cons, List.count_cons, List.countP_cons, ← ih]
      simp only [beq_iff_eq, decide_eq_true_eq, List.mem_cons, List.not_mem_nil, or_false]
      by_cases first : counted = m
      · simp only [first, if_true, differ, true_or, if_false]
        omega
      · simp only [first, if_false, false_or]
        omega

/-- How a finished execution request ended. -/
theorem Reachable.ended (h : Reachable start σ) {i : ℕ} {p : Proc fx Call Reply} {executionId quoteId : Uuid}
    {key : String} {r : Except PyError Reply} (at_ : σ.procs i = some p)
    (call : p.call = .executeQuote executionId quoteId key) (done : p.prog = .ofExcept r) :
    Executed executionId quoteId key r σ.world p.loc := by
  have post := h.sound.post at_ done
  change Outcome p.call _ _ _ at post
  rwa [call] at post

/-- Once no request is running, the successes are the executions, and the reasons are among
the failures. -/
theorem Reachable.totals (h : Reachable start σ) (answered : σ.Answered) :
    σ.counter .executionSuccessTotal = σ.world.db.executions.length ∧
      σ.counter .quoteExpiredTotal + σ.counter .insufficientFundsTotal ≤ σ.counter .executionFailureTotal := by
  -- what each session counts, whether it is an execution request or not
  have each : ∀ i, (σ.countsOf i).countP (· == .executionSuccessTotal) =
        (σ.history.filter (·.pid = i)).countP (fun e => e.call.key.isSome) ∧
      (σ.countsOf i).countP (· ∈ reasonCounters) ≤ (σ.countsOf i).countP (· == .executionFailureTotal) := by
    intro i
    by_cases request : ∃ p, σ.procs i = some p ∧ p.call.key.isSome
    · obtain ⟨p, at_, some⟩ := request
      obtain ⟨r, done⟩ := answered i p at_ some
      obtain ⟨key, named⟩ := Option.isSome_iff_exists.mp some
      obtain ⟨executionId, quoteId, call⟩ := Call.execution named
      rw [h.commits_of, at_, Option.elim_some, if_pos some, ← h.counted.counts at_]
      exact (h.ended at_ call done).totals
    · have none : ∀ m ∈ outcomeCounters ++ reasonCounters, m ∉ σ.countsOf i := by
        refine h.quiet fun p at_ => ?_
        rw [← Option.not_isSome_iff_eq_none]
        exact fun some => request ⟨p, at_, some⟩
      have zero : (σ.countsOf i).countP (· ∈ reasonCounters) = 0 := by
        refine List.countP_eq_zero.mpr fun m counted reason => ?_
        exact none m (List.mem_append_right _ (of_decide_eq_true reason)) counted
      have success : (σ.countsOf i).countP (· == .executionSuccessTotal) = 0 := by
        refine List.countP_eq_zero.mpr fun m counted same => ?_
        rw [eq_of_beq same] at counted
        exact none _ (by decide) counted
      rw [zero, success, h.commits_of]
      refine ⟨?_, Nat.zero_le _⟩
      cases at_ : σ.procs i with
      | none => rfl
      | some p => exact (if_neg fun some => request ⟨p, at_, some⟩).symm
  refine ⟨?_, ?_⟩
  · rw [h.executions_length]
    exact Sys.total_eq_commits fun i => (each i).1
  · rw [counter_add σ (by decide)]
    exact Sys.total_le fun i => (each i).2

/-- Every finished execution request counts its outcome once, and counts nothing only when it
failed before it had its key; a reason is counted just before the failure. Once no request is
running, the successes are the executions, and the reasons are among the failures. -/
theorem Reachable.accounted (h : Reachable start σ) :
    (∀ i p executionId quoteId key r, σ.procs i = some p → p.call = .executeQuote executionId quoteId key →
      p.prog = .ofExcept r → p.loc.commits = [] ∨ r.isOk →
      ((σ.countsOf i).countP (· ∈ outcomeCounters) = 1 ∨
        σ.countsOf i = [] ∧ ¬ r.isOk ∧ ¬ σ.ClaimedKey start i) ∧
      ∀ m ∈ reasonCounters, m ∈ σ.countsOf i → σ.countsOf i = [m, .executionFailureTotal]) ∧
    (σ.Answered → σ.counter .executionSuccessTotal = σ.world.db.executions.length ∧
      σ.counter .quoteExpiredTotal + σ.counter .insufficientFundsTotal ≤ σ.counter .executionFailureTotal) := by
  refine ⟨fun i p executionId quoteId key r at_ call done early => ?_, h.totals⟩
  have ended := h.ended at_ call done
  rw [← h.counted.counts at_]
  refine ⟨(ended.once early).imp_right fun none => ⟨none.1, none.2, h.claimed_counts at_ call done ?_⟩,
    (reasons_of_possible _ ended.possible).1⟩
  rw [← h.counted.counts at_, none.1]

end Totals

attribute [local instance] Sample.platform Sample.settings

theorem accounted_sample : ∃ σ : Engine, Reachable 0 σ ∧ (σ.countsOf 4).countP (· ∈ outcomeCounters) = 1 ∧
    σ.counter .executionSuccessTotal = σ.world.db.executions.length ∧
    σ.counter .quoteExpiredTotal + σ.counter .insufficientFundsTotal ≤ σ.counter .executionFailureTotal := by
  obtain ⟨σ, reached, -, -, -, others, ends⟩ :=
    serial_reachable (Sample.ordered (Sample.prepared ++ Sample.executed) (by decide))
  have replies : ((Transactions.serial program (Sample.prepared ++ Sample.executed) {}).1.map (·.isOk)) =
      [true, true, true, true, true] := by
    decide +kernel
  have reply : ∀ k < 5, ∃ r, (Transactions.serial program (Sample.prepared ++ Sample.executed) {}).1[k]? = some r ∧
      r.isOk := by
    intro k small
    have length := congrArg List.length replies
    simp only [List.length_map, List.length_cons, List.length_nil] at length
    refine ⟨_, List.getElem?_eq_getElem (by omega), ?_⟩
    have each := List.forall_mem_map.mp (show ∀ ok ∈ (Transactions.serial program (Sample.prepared ++ Sample.executed)
      {}).1.map (·.isOk), ok = true by rw [replies]; decide)
    exact each _ (List.getElem_mem _)
  have answered : σ.Answered := by
    rintro i p at_ -
    by_cases small : i < 5
    · obtain ⟨r, found, -⟩ := reply i small
      obtain ⟨p', at', -, done⟩ := ends i r found
      obtain rfl : p = p' := Option.some.inj (at_.symm.trans at')
      exact ⟨r, done⟩
    · rw [others i (Nat.le_of_not_lt small)] at at_
      cases at_
  obtain ⟨r, found, ok⟩ := reply 4 (by omega)
  obtain ⟨p, at_, call, done⟩ := ends 4 r found
  obtain ⟨once, -⟩ := reached.accounted.1 4 p 6 5 "k" r at_ (Option.some.inj call).symm done (.inr ok)
  exact ⟨σ, reached, once.resolve_right fun none => none.2.1 ok, reached.accounted.2 answered⟩

end Engine

end FxEngine
