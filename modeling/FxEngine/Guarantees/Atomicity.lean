import FxEngine.Guarantees.Serializability
import FxEngine.Transactions.Erasure

/-! # A failed execution leaves nothing behind -/

namespace FxEngine

open Transactions

section Atomicity

variable [Platform] [Settings] {start : Instant} {σ τ : Engine} {i : ℕ} {p : Proc fx Call Reply}

namespace Engine

/-- An execution that failed before its commit is over and holds nothing. -/
theorem Reachable.failed_closed (h : Reachable start σ) (at_ : σ.procs i = some p) {executionId quoteId : Uuid}
    {key : String} (call : p.call = .executeQuote executionId quoteId key) {e : PyError}
    (failed : p.prog = .raise e) (before : p.loc.commits = []) : Closed σ i p := by
  have post := h.sound.post at_ (r := .error e) failed
  change Outcome p.call _ _ _ at post
  rw [call] at post
  refine ⟨at_, ⟨.error e, failed⟩, ?_⟩
  cases post with
  | failed commits writes held => rw [Local.rolledBack, ← writes, ← held]
  | late commits =>
      rw [before] at commits
      cases commits

/-- A session that committed nothing is not in the history. -/
theorem Reachable.absent (h : Reachable start σ) (at_ : σ.procs i = some p) (before : p.loc.commits = []) :
    ∀ e ∈ σ.history, e.pid ≠ i := by
  intro e member pid
  rw [h.sound.logged at_, List.map_eq_nil_iff, List.filter_eq_nil_iff] at before
  exact before e member (by simpa using pid)

/-- A call that executes a quote and ends in an exception before its commit has committed
nothing and holds nothing; the state is reached without the call as well; and from then
on the runs with it and the runs without it are the same, except for the call itself and
what it counted. -/
theorem Reachable.failed_as_if_never (h : Reachable start σ) (at_ : σ.procs i = some p)
    {executionId quoteId : Uuid} {key : String} (call : p.call = .executeQuote executionId quoteId key)
    {e : PyError} (failed : p.prog = .raise e) (before : p.loc.commits = []) :
    ((∀ e ∈ σ.history, e.pid ≠ i) ∧ p.loc.writes = [] ∧ p.loc.held = []) ∧
    (Reachable start (σ.erase i) ∧ (σ.erase i).world = σ.world ∧ (σ.erase i).history = σ.history) ∧
    (∀ τ, Run program σ τ → Run program (σ.erase i) (τ.erase i) ∧ τ.procs i = some p ∧
      ∀ e ∈ τ.history, e.pid ≠ i) ∧
    ∀ τ', Run program (σ.erase i) τ' → τ'.procs i = none → ∃ τ, Run program σ τ ∧ τ.erase i = τ' := by
  have closed := h.failed_closed at_ call failed before
  have quiet := h.absent at_ before
  refine ⟨⟨quiet, (congrArg Local.writes closed.idle).symm, (congrArg Local.held closed.idle).symm⟩,
    ⟨Transactions.Reachable.erase h quiet, rfl, rfl⟩, fun τ run => ?_, fun τ' run absent => Run.restore run closed absent⟩
  have there := (Run.closed run closed).at_
  have quiet' := (h.run run).absent there before
  exact ⟨run.erase quiet', there, quiet'⟩

end Engine

end Atomicity

attribute [local instance] Sample.platform Sample.settings

/-- The quote 8, the execution of the quote 5, and an attempt to execute it again under another key. -/
def Sample.repeated : List (Call × List Instant) :=
  prepared ++ [(.createQuote 8 1 .KES .NGN (.str "50.00"), [0]), (.executeQuote 6 5 "k", [0]),
    (.executeQuote 7 5 "j", [0])]

/-- The repeated execution has claimed the key `j` when it fails; the key then serves the quote 8. -/
theorem Engine.failed_as_if_never_sample : ∃ (σ τ : Engine) (p : Proc fx Call Reply), Engine.Reachable 0 σ ∧
    σ.procs 6 = some p ∧ p.call = .executeQuote 7 5 "j" ∧
    p.prog = .raise (conflict errorQuoteAlreadyExecuted "Quote has already been executed.") ∧
    Run program σ τ ∧ τ.world.db.idempotencyKeys.map IdempotencyKey.key = ["k", "j"] ∧
    τ.world.db.executions = [⟨6, 5, 1⟩, ⟨9, 8, 1⟩] ∧
    Engine.Reachable 0 (σ.erase 6) ∧ (σ.erase 6).world = σ.world ∧
    Run program (σ.erase 6) (τ.erase 6) ∧ (τ.erase 6).world = τ.world := by
  obtain ⟨σ, reached, db, now, idle, free, ends⟩ := Engine.serial_reachable (Sample.ordered Sample.repeated (by decide))
  let again : List (Call × List Instant) := [(.executeQuote 9 8 "j", [0])]
  obtain ⟨τ, calm, db', -⟩ := Run.serial idle free ((Sample.ordered again (by decide)).mono now)
  have run : Run program σ τ := calm.run
  have refusal : ((serial program Sample.repeated {}).1.map fun r => match r with
      | .ok _ => none
      | .error e => some e)[6]? = some (some (conflict errorQuoteAlreadyExecuted "Quote has already been executed.")) := by
    decide +kernel
  rw [List.getElem?_map] at refusal
  obtain ⟨r, found, refused⟩ := Option.map_eq_some_iff.mp refusal
  obtain ⟨p, at_, called, ended⟩ := ends 6 r found
  have call : p.call = .executeQuote 7 5 "j" := (Option.some.inj called).symm
  have failed : p.prog = .raise (conflict errorQuoteAlreadyExecuted "Quote has already been executed.") := by
    rw [ended]
    cases r with
    | ok reply => cases refused
    | error e => exact congrArg Program.raise (Option.some.inj refused)
  have before := reached.uncommitted at_ call (by
    rw [db]
    decide +kernel)
  obtain ⟨-, ⟨without, world, -⟩, same, -⟩ := reached.failed_as_if_never at_ call failed before
  refine ⟨σ, τ, p, reached, at_, call, failed, run, ?_, ?_, without, world, (same τ run).1, rfl⟩
  · rw [db', db]
    decide +kernel
  · rw [db', db]
    decide +kernel

end FxEngine
