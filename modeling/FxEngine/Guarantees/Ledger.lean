import FxEngine.Correctness.Engine

/-! # The ledger accounts for every execution and every credit -/

namespace FxEngine

open Transactions

section Accounting

variable [Platform] [Settings] {start : Instant} {σ : Engine}

/-- No two executions and no two credits share an identifier; a quote has at most one
execution; an execution has one debit and one credit, which are those of its quote as it was
created; a credit has one entry; there are no others. -/
theorem Engine.Reachable.ledger_accounted (h : Engine.Reachable start σ) :
    ((σ.world.db.executions.map Execution.id).Nodup ∧ (σ.world.db.adjustments.map CreditAdjustment.id).Nodup) ∧
    (∀ quoteId, (σ.world.db.executions.filter (·.quoteId = quoteId)).length ≤ 1) ∧
    (∀ x ∈ σ.world.db.executions, ∃ q, σ.world.db.quote x.quoteId = some q ∧
      (∃ e ∈ σ.history, e.world.db.quote q.id = none ∧ e.after.quote q.id = some q) ∧
      x.customerId = q.customerId ∧
      σ.world.db.entriesOf .execution x.id =
        [⟨q.customerId, q.sourceCurrency, q.sourceAmount, .debit, .execution, x.id⟩,
          ⟨q.customerId, q.destinationCurrency, q.destinationAmount, .credit, .execution, x.id⟩]) ∧
    (∀ a ∈ σ.world.db.adjustments, σ.world.db.entriesOf .creditAdjustment a.id =
      [⟨a.customerId, a.currency, a.amount, .credit, .creditAdjustment, a.id⟩]) ∧
    ∀ entry ∈ σ.world.db.ledger,
      (∃ x ∈ σ.world.db.executions, entry ∈ σ.world.db.entriesOf .execution x.id) ∨
      ∃ a ∈ σ.world.db.adjustments, entry ∈ σ.world.db.entriesOf .creditAdjustment a.id := by
  have posted := h.invariant.posted
  refine ⟨⟨posted.executionsDistinct, posted.adjustmentsDistinct⟩,
    fun quoteId => Table.length_filter_le_one posted.executedOnce quoteId, fun x member => ?_, posted.credited,
    fun entry member => ?_⟩
  · obtain ⟨q, stored, customer, entries⟩ := posted.executed x member
    have named := (Table.row_some stored).2
    obtain ⟨e, created, before, after, -⟩ := h.created (named ▸ stored)
    exact ⟨q, stored, ⟨e, created, before, after⟩, customer, entries⟩
  · rcases posted.referenced entry member with ⟨kind, known⟩ | ⟨kind, known⟩
    · obtain ⟨x, inside, same⟩ := List.mem_map.mp known
      exact .inl ⟨x, inside, List.mem_filter.mpr ⟨member, by simp [kind, same]⟩⟩
    · obtain ⟨a, inside, same⟩ := List.mem_map.mp known
      exact .inr ⟨a, inside, List.mem_filter.mpr ⟨member, by simp [kind, same]⟩⟩

end Accounting

attribute [local instance] Sample.platform Sample.settings

theorem Engine.ledger_accounted_sample : ∃ σ : Engine, Engine.Reachable 0 σ ∧
    (∀ quoteId, (σ.world.db.executions.filter (·.quoteId = quoteId)).length ≤ 1) ∧
    σ.world.db.executions = [⟨6, 5, 1⟩] := by
  obtain ⟨σ, reached, db⟩ := Sample.reachable (Sample.prepared ++ Sample.executed) (by decide)
  refine ⟨σ, reached, reached.ledger_accounted.2.1, ?_⟩
  rw [db]
  decide +kernel

end FxEngine
