import FxEngine.Correctness.Engine

/-! # What a stored response says about the ledger

A response is stored with its execution and replayed for ever. It states the balances of
the ledger as it stood right after the two entries of that execution.
-/

namespace FxEngine

open Transactions

/-- The account after these entries and no others. -/
def standing (entries : List LedgerEntry) (customerId : Uuid) (currency : Currency) : ℤ :=
  ({ ledger := entries } : Tables).owed customerId currency

/-- The entries an execution has to post. -/
def Tables.postings (db : Tables) (x : Execution) : List LedgerEntry :=
  (db.quote x.quoteId).elim [] fun q => [debitEntry x.id q, creditEntry x.id q]

/-- The ledger keeps the order of the executions and that of the credits. -/
structure Merged (db : Tables) : Prop where
  executions : db.ledger.filter (·.referenceType = .execution) = db.executions.flatMap db.postings
  credits : db.ledger.filter (·.referenceType = .creditAdjustment) = db.adjustments.map adjustmentEntry

section Receipts

variable [Platform]

/-- The key's row is the receipt of the execution. -/
def Receipt (db : Tables) (x : Execution) (row : IdempotencyKey) : Prop :=
  ∃ q completedAt before after, db.quote x.quoteId = some q ∧ x.customerId = q.customerId ∧
    db.ledger = before ++ db.postings x ++ after ∧
    row = completedKey row.key (executionRequestHash q.id)
      (executionResponse x.id q (cents (standing (before ++ db.postings x) q.customerId q.sourceCurrency))
        (cents (standing (before ++ db.postings x) q.customerId q.destinationCurrency))).modelDump completedAt

variable {db : Tables} {x : Execution} {row : IdempotencyKey}

omit [Platform] in
theorem postings_of_quote {q : Quote} (found : db.quote x.quoteId = some q) :
    db.postings x = [debitEntry x.id q, creditEntry x.id q] := by
  rw [Tables.postings, found]
  rfl

/-- What is stored later does not touch it. -/
theorem Receipt.grown {later : Tables} (grown : Grown db later) (h : Receipt db x row) : Receipt later x row := by
  obtain ⟨q, completedAt, before, after, found, customer, ledger, content⟩ := h
  obtain ⟨more, extended⟩ := grown.ledger
  have postings : later.postings x = db.postings x := by
    rw [postings_of_quote (grown.quote found), postings_of_quote found]
  refine ⟨q, completedAt, before, after ++ more, grown.quote found, customer, ?_, ?_⟩
  · rw [postings, ← extended, ledger, List.append_assoc]
  · rwa [postings]

omit [Platform] in
theorem standing_snoc (entries : List LedgerEntry) (entry : LedgerEntry) (customerId : Uuid) (currency : Currency) :
    standing (entries ++ [entry]) customerId currency = standing entries customerId currency +
      if entry.customerId = customerId ∧ entry.currency = currency then Tables.signed entry else 0 :=
  @Tables.owed_append { ledger := entries } customerId currency entry

omit [Platform] in
/-- The two entries of an execution take the paid amount off one account and put the received
one on the other. -/
theorem standing_executed {q : Quote} (executionId : Uuid) (entries : List LedgerEntry)
    (differ : q.sourceCurrency ≠ q.destinationCurrency) :
    standing (entries ++ [debitEntry executionId q, creditEntry executionId q]) q.customerId q.sourceCurrency =
        standing entries q.customerId q.sourceCurrency - q.sourceAmount.coeff ∧
      standing (entries ++ [debitEntry executionId q, creditEntry executionId q]) q.customerId q.destinationCurrency =
        standing entries q.customerId q.destinationCurrency + q.destinationAmount.coeff := by
  have split : entries ++ [debitEntry executionId q, creditEntry executionId q] =
      (entries ++ [debitEntry executionId q]) ++ [creditEntry executionId q] := by simp
  rw [split, standing_snoc, standing_snoc, standing_snoc, standing_snoc]
  simp only [debitEntry, creditEntry, Tables.signed, true_and, differ, differ.symm, if_true, if_false, add_zero]
  exact ⟨rfl, trivial⟩

variable [Settings] {now : Instant} {a : Action}

/-- A commit leaves the receipts as they are, and writes one for its execution. -/
theorem Enabled.receipts (enabled : Enabled db now a) (inv : Invariant db now)
    (h : List.Forall₂ (Receipt db) db.executions db.idempotencyKeys) :
    List.Forall₂ (Receipt (a.apply db)) (a.apply db).executions (a.apply db).idempotencyKeys := by
  have kept : List.Forall₂ (Receipt (a.apply db)) db.executions db.idempotencyKeys :=
    h.imp fun _ _ receipt => receipt.grown a.grown
  cases enabled with
  | openAccount | credit | quote | refresh | refreshFailure => exact kept
  | @execute executionId q key completedAt held other spent received stored unexecuted fresh unclaimed source
      destination sourceValue destinationValue sourcePositive destinationPositive funded fits unexpired =>
      refine List.rel_append kept (.cons ?_ .nil)
      generalize applied : (Action.execute executionId q _ _ _) = a
      have found : (a.apply db).quote q.id = some q := by
        rw [← applied]
        exact stored
      have postings : (a.apply db).postings ⟨executionId, q.id, q.customerId⟩ =
          [debitEntry executionId q, creditEntry executionId q] := postings_of_quote found
      obtain ⟨-, rows, refresh, -, priced⟩ := inv.quoted.priced q (Table.row_some stored).1
      obtain ⟨atSource, atDestination⟩ := standing_executed executionId db.ledger priced.differ
      have heldOwed : standing db.ledger q.customerId q.sourceCurrency = held :=
        (inv.accounts.balance source).1.symm
      have otherOwed : standing db.ledger q.customerId q.destinationCurrency = other :=
        (inv.accounts.balance destination).1.symm
      refine ⟨q, completedAt, db.ledger, [], found, rfl, ?_, ?_⟩
      · rw [postings, List.append_nil, ← applied]
        rfl
      · rw [postings, atSource, atDestination, heldOwed, otherOwed, sourceValue, destinationValue]
        rfl

omit [Platform] [Settings] in
theorem postings_grown {later : Tables} (posted : Posted db) (grown : Grown db later) :
    db.executions.flatMap later.postings = db.executions.flatMap db.postings := by
  refine List.flatMap_congr fun x member => ?_
  obtain ⟨q, found, -⟩ := posted.executed x member
  rw [postings_of_quote found, postings_of_quote (grown.quote found)]

theorem Enabled.merged (enabled : Enabled db now a) (posted : Posted db) (h : Merged db) : Merged (a.apply db) := by
  have kept : db.executions.flatMap (a.apply db).postings = db.executions.flatMap db.postings :=
    postings_grown posted a.grown
  cases enabled with
  | openAccount | quote | refresh | refreshFailure => exact ⟨h.executions.trans kept.symm, h.credits⟩
  | credit =>
      constructor
      · change (db.ledger ++ [adjustmentEntry _]).filter _ = db.executions.flatMap _
        rw [List.filter_append, h.executions, kept]
        simp [adjustmentEntry]
      · change (db.ledger ++ [adjustmentEntry _]).filter _ = (db.adjustments ++ [_]).map _
        rw [List.filter_append, h.credits]
        simp [adjustmentEntry]
  | @execute executionId q key completedAt held other spent received stored =>
      generalize applied : (Action.execute executionId q _ _ _) = a at kept
      have found : (a.apply db).quote q.id = some q := by
        rw [← applied]
        exact stored
      have executions : (a.apply db).executions = db.executions ++ [⟨executionId, q.id, q.customerId⟩] := by
        rw [← applied]
        rfl
      have ledger : (a.apply db).ledger = db.ledger ++ [debitEntry executionId q, creditEntry executionId q] := by
        rw [← applied]
        rfl
      have adjustments : (a.apply db).adjustments = db.adjustments := by
        rw [← applied]
        rfl
      constructor
      · rw [ledger, executions, List.filter_append, List.flatMap_append, h.executions, kept]
        simp [postings_of_quote (x := ⟨executionId, q.id, q.customerId⟩) found, debitEntry, creditEntry]
      · rw [ledger, adjustments, List.filter_append, h.credits]
        simp [debitEntry, creditEntry]

/-- In every reachable state the executions and the idempotency keys go together one to one, in
order; each key's response states the balances after the entries up to those of its
execution; and the ledger is the executions' entries and the credits' entries, each in order. -/
theorem Engine.Reachable.receipted {start : Instant} {σ : Engine} (h : Engine.Reachable start σ) :
    List.Forall₂ (Receipt σ.world.db) σ.world.db.executions σ.world.db.idempotencyKeys ∧ Merged σ.world.db := by
  constructor
  · refine h.chain.keeps (P := fun db : Tables => List.Forall₂ (Receipt db) db.executions db.idempotencyKeys) .nil
      fun e member before => ?_
    obtain ⟨a, enabled, view, -⟩ := h.commits member
    rw [view]
    exact enabled.receipts (h.sound.events e member).2 before
  · refine h.chain.keeps (P := Merged) ⟨rfl, rfl⟩ fun e member before => ?_
    obtain ⟨a, enabled, view, -⟩ := h.commits member
    rw [view]
    exact enabled.merged (h.sound.events e member).2.posted before

end Receipts

attribute [local instance] Sample.platform Sample.settings

/-- After one execution. -/
theorem Engine.receipted_sample : ∃ σ : Engine, Engine.Reachable 0 σ ∧ σ.world.db.executions.length = 1 ∧
    List.Forall₂ (Receipt σ.world.db) σ.world.db.executions σ.world.db.idempotencyKeys := by
  obtain ⟨σ, reached, db⟩ := Sample.reachable (Sample.prepared ++ Sample.executed) (by decide)
  refine ⟨σ, reached, ?_, reached.receipted.1⟩
  rw [db]
  decide +kernel

end FxEngine
