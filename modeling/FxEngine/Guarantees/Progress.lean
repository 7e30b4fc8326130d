import FxEngine.Guarantees.Deadlock
import FxEngine.Transactions.Progress

/-! # Every call gets its answer -/

namespace FxEngine

open Transactions

namespace Engine

section Ending

variable [Platform] [Settings] {start : Instant} {σ : Engine}

/-- However the calls that have arrived are scheduled, they take finitely many turns; while
one has not ended there is a turn to take; so all of them come to an answer, with nothing
held or left uncommitted. -/
theorem Reachable.all_answered (h : Reachable start σ) :
    (¬ ∃ run : ℕ → Engine, run 0 = σ ∧
      (∀ n, Step program (run n) (run (n + 1)) ∧ ∀ i, (run n).procs i = none → (run (n + 1)).procs i = none) ∧
      ∀ n, ∃ m ≥ n, Sys.TurnOf (run (m + 1)).procs (run m).procs) ∧
    (∀ i p, σ.procs i = some p → ¬ p.Over → ∃ τ, Step program σ τ ∧ Sys.TurnOf τ.procs σ.procs) ∧
    ∃ τ : Engine, Run program σ τ ∧ (∀ i, σ.procs i = none → τ.procs i = none) ∧
      ∀ i p, σ.procs i = some p → ∃ p', τ.procs i = some p' ∧ p'.call = p.call ∧ p'.Over := by
  have empty : engine.Inv ⟨{}, start⟩ := Invariant.empty
  refine ⟨finitely_many_turns h.counted.finite, fun i p at_ open_ => ?_, ?_⟩
  · obtain ⟨τ, step, k, q, q', atK, turn, procs⟩ := h.climbing.turn program h.sound h.counted.finite at_ open_
    refine ⟨τ, step, k, q, q', atK, ?_, turn, fun j other => ?_⟩
    · rw [procs, Sys.set_procs_self]
    · rw [procs, Sys.set_procs_ne _ _ other]
  · obtain ⟨τ, run, idle, rest⟩ := comes_to_rest verified (fun call w _ => program_climbs call w) empty h
    refine ⟨τ, run, idle, fun i p at_ => ?_⟩
    obtain ⟨p', at', same⟩ := run.call at_
    exact ⟨p', at', same, rest i p' at'⟩

end Ending

attribute [local instance] Sample.platform Sample.settings

/-- A request that waits for another is answered as well. -/
theorem all_answered_sample : ∃ (σ τ : Engine) (p q : Proc fx Call Reply), Reachable 0 σ ∧ σ.Waits 1 0 ∧
    Run program σ τ ∧ τ.procs 0 = some p ∧ τ.procs 1 = some q ∧ p.Over ∧ q.Over := by
  obtain ⟨σ, p, q, reached, at_, waiting, waits⟩ := waiting_sample
  obtain ⟨-, -, τ, run, -, answers⟩ := reached.all_answered
  obtain ⟨p', first, -, done⟩ := answers 0 p at_
  obtain ⟨q', second, -, done'⟩ := answers 1 q waiting
  exact ⟨σ, τ, p', q', reached, waits, run, first, second, done, done'⟩

end Engine

end FxEngine
