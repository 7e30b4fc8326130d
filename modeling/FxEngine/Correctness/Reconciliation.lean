import FxEngine.Correctness.Engine

/-! # Balances from the business records

What a customer owns follows from the credits and the executed quotes alone, without the
ledger and without the cached balances.
-/

namespace FxEngine

open Transactions

/-- What the execution of a quote adds to a currency, in cents. -/
def Quote.moves (q : Quote) (currency : Currency) : ℤ :=
  (if q.destinationCurrency = currency then q.destinationAmount.coeff else 0) -
    if q.sourceCurrency = currency then q.sourceAmount.coeff else 0

/-- What a credit adds to it. -/
def CreditAdjustment.adds (a : CreditAdjustment) (currency : Currency) : ℤ :=
  if a.currency = currency then a.amount.coeff else 0

namespace Tables

def creditsOf (db : Tables) (customerId : Uuid) : List CreditAdjustment :=
  db.adjustments.filter (·.customerId = customerId)

/-- The quotes of a customer that were executed, in that order. -/
def executedBy (db : Tables) (customerId : Uuid) : List Quote :=
  (db.executions.filter (·.customerId = customerId)).filterMap (db.quote ·.quoteId)

/-- What the records say the customer owns of a currency, in cents. -/
def audited (db : Tables) (customerId : Uuid) (currency : Currency) : ℤ :=
  ((db.creditsOf customerId).map (·.adds currency)).sum + ((db.executedBy customerId).map (·.moves currency)).sum

variable {db : Tables}

/-- Executions keep their quotes, so what was executed stays at the front. -/
theorem executedBy_grown {after : Tables} (posted : Posted db) (grown : Grown db after) (new : List Execution)
    (executions : after.executions = db.executions ++ new) (customerId : Uuid) :
    after.executedBy customerId = db.executedBy customerId ++
      (new.filter (·.customerId = customerId)).filterMap (after.quote ·.quoteId) := by
  have kept : (db.executions.filter (·.customerId = customerId)).filterMap (after.quote ·.quoteId) =
      db.executedBy customerId := by
    refine List.filterMap_congr fun x member => ?_
    obtain ⟨q, stored, -⟩ := posted.executed x (List.mem_of_mem_filter member)
    rw [stored, grown.quote stored]
  rw [executedBy, executions, List.filter_append, List.filterMap_append, kept]

theorem creditsOf_append {after : Tables} (new : List CreditAdjustment)
    (adjustments : after.adjustments = db.adjustments ++ new) (customerId : Uuid) :
    after.creditsOf customerId = db.creditsOf customerId ++ new.filter (·.customerId = customerId) := by
  rw [creditsOf, adjustments, List.filter_append]
  rfl

end Tables

section

variable [Platform] [Settings]

/-- Every action changes ledger and records alike. -/
theorem Enabled.audited {db : Tables} {now : Instant} {a : Action} (enabled : Enabled db now a) (posted : Posted db)
    (customerId : Uuid) (currency : Currency) :
    (a.apply db).owed customerId currency - (a.apply db).audited customerId currency =
      db.owed customerId currency - db.audited customerId currency := by
  cases enabled with
  | openAccount | refresh | refreshFailure => rfl
  | @quote row legs rows refresh =>
      have executed := Tables.executedBy_grown posted (Action.grown (.quote row legs)) [] (List.append_nil _).symm
        customerId
      rw [Tables.audited, executed]
      simp [Tables.audited, Tables.creditsOf, Tables.owed, Tables.posted, Action.apply]
  | @credit adjustment held amount =>
      have owed : ((Action.credit adjustment (cents (held + amount))).apply db).owed customerId currency = _ :=
        Tables.owed_append (adjustmentEntry adjustment)
      have audited : ((Action.credit adjustment (cents (held + amount))).apply db).audited customerId currency =
          db.audited customerId currency +
            if adjustment.customerId = customerId then adjustment.adds currency else 0 := by
        have credits : ((Action.credit adjustment (cents (held + amount))).apply db).creditsOf customerId = _ :=
          Tables.creditsOf_append [adjustment] rfl customerId
        rw [Tables.audited, credits]
        change ((_ ++ _ : List CreditAdjustment).map _).sum + ((db.executedBy customerId).map _).sum = _
        rw [Tables.audited]
        by_cases own : adjustment.customerId = customerId
        · simp [own]
          ring
        · simp [own]
      rw [owed, audited]
      by_cases own : adjustment.customerId = customerId
      · simp [own, adjustmentEntry, Tables.signed, CreditAdjustment.adds]
      · simp [own, adjustmentEntry]
  | @execute executionId quote key completedAt held other spent received stored =>
      generalize applied : (Action.execute executionId quote _ _ _) = a
      have owed : (a.apply db).owed customerId currency = db.owed customerId currency +
          if quote.customerId = customerId then quote.moves currency else 0 := by
        rw [← applied]
        change ({ db with ledger := db.ledger ++ [debitEntry executionId quote, creditEntry executionId quote] }).owed
          customerId currency = _
        rw [Tables.owed, Tables.posted_append, Tables.posted_append, Tables.owed]
        by_cases own : quote.customerId = customerId
        · simp [own, Tables.contribution, debitEntry, creditEntry, Quote.moves]
          ring
        · simp [own, Tables.contribution, debitEntry, creditEntry]
      have executed := Tables.executedBy_grown posted (Action.grown a) [⟨executionId, quote.id, quote.customerId⟩]
        (by rw [← applied]; rfl) customerId
      have audited : (a.apply db).audited customerId currency = db.audited customerId currency +
          if quote.customerId = customerId then quote.moves currency else 0 := by
        have found : (a.apply db).quote quote.id = some quote := (Action.grown a).quote stored
        rw [Tables.audited, executed, Tables.audited]
        rw [show (a.apply db).creditsOf customerId = db.creditsOf customerId by rw [← applied]; rfl]
        by_cases own : quote.customerId = customerId
        · simp [own, found]
          ring
        · simp [own]
      rw [owed, audited]
      ring

end

end FxEngine
