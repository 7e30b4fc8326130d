import FxEngine.Correctness.Engine

/-! # Balances are what the ledger says -/

namespace FxEngine

open Numeric Transactions Program

section Reconciliation

variable [Platform]

omit [Platform] in
/-- Adding up whole cents gives whole cents, however many there are. -/
theorem sqlSum_cents (amounts : List Decimal) (whole : ∀ a ∈ amounts, ∃ n : ℤ, a = cents n) :
    sqlSum amounts = cents (amounts.map Decimal.coeff).sum := by
  have sum : ∀ (as : List Decimal) (n : ℤ), (∀ a ∈ as, ∃ n : ℤ, a = cents n) →
      as.foldl Decimal.exactAdd (cents n) = cents (n + (as.map Decimal.coeff).sum) := by
    intro as
    induction as with
    | nil => exact fun n _ => by simp
    | cons a as ih =>
        intro n whole
        obtain ⟨m, rfl⟩ := whole a List.mem_cons_self
        rw [List.foldl_cons, exactAdd_cents, ih _ fun b member => whole b (List.mem_cons_of_mem _ member),
          List.map_cons, List.sum_cons, cents_coeff, add_assoc]
  exact (sum amounts 0 whole).trans (by rw [zero_add])

namespace Accounts

variable {db : Tables} (h : Accounts db)

include h

omit [Platform] in
theorem ledgerSum (customerId : Uuid) (currency : Currency) (direction : Direction) :
    db.ledgerSum customerId currency direction = cents (db.posted customerId currency direction) := by
  rw [Tables.ledgerSum, sqlSum_cents, Tables.posted, List.map_map]
  · rfl
  · intro amount member
    obtain ⟨entry, inside, rfl⟩ := List.mem_map.mp member
    obtain ⟨-, n, -, value⟩ := h.posted entry (List.mem_filter.mp inside).1
    exact ⟨n, value⟩

/-- The reconciliation gives what is owed. -/
theorem computeBalance_run {customerId : Uuid} {currency : Currency} (clock : List Instant)
    (fits : (db.owed customerId currency).natAbs < 10 ^ contextPrecision) :
    (computeBalance customerId currency).run clock db = (.ok (cents (db.owed customerId currency)), db) := by
  have difference : db.ledgerSum customerId currency .credit - db.ledgerSum customerId currency .debit =
      cents (db.owed customerId currency) := by
    rw [h.ledgerSum, h.ledgerSum, cents_sub fits]
    rfl
  have exec : (computeBalance customerId currency).exec ⟨clock, [], db⟩ =
      (.ok (cents (db.owed customerId currency)), ⟨clock, [], db⟩) := by
    refine (exec_bind_ok (exec_select _ _)).trans ((exec_bind_ok (exec_select _ _)).trans
      ((exec_ofExcept _ _).trans ?_))
    change (arith (roundMoney (db.ledgerSum customerId currency .credit -
      db.ledgerSum customerId currency .debit) currency), _) = _
    rw [difference, roundMoney_exact currency fits, arith_ok]
  rw [Program.run, exec]

end Accounts

/-- In every reachable state each balance is the sum of the customer's credits less the
debits, a non-negative whole number of cents, and updating it rounds nothing away. -/
theorem Engine.Reachable.balance_reconciles [Settings] {start : Instant} {σ : Engine}
    (h : Engine.Reachable start σ) {customerId : Uuid} (known : σ.world.db.hasCustomer customerId)
    (currency : Currency) (clock : List Instant) :
    ∃ n : ℤ, 0 ≤ n ∧ σ.world.db.balance customerId currency = some ⟨customerId, currency, cents n⟩ ∧
      (σ.world.db.ledgerSum customerId currency .credit).toRat -
        (σ.world.db.ledgerSum customerId currency .debit).toRat = (cents n).toRat ∧
      (computeBalance customerId currency).run clock σ.world.db = (.ok (cents n), σ.world.db) ∧
      ∀ amount : ℤ, amount.natAbs < 10 ^ numericPrecision →
        roundMoney (cents n + cents amount) currency = .ok (cents (n + amount)) ∧
        roundMoney (cents n - cents amount) currency = .ok (cents (n - amount)) := by
  have accounts := h.invariant.accounts
  obtain ⟨row, found⟩ := Option.isSome_iff_exists.mp (accounts.opened customerId known currency)
  obtain ⟨n, rfl⟩ := accounts.row found
  obtain ⟨owed, lower, upper⟩ := accounts.balance found
  have small := natAbs_fits lower upper
  refine ⟨n, lower, found, ?_, ?_, fun amount fits => ?_⟩
  · rw [accounts.ledgerSum, accounts.ledgerSum, cents_toRat, cents_toRat, cents_toRat, owed, Tables.owed]
    push_cast
    ring
  · rw [owed]
    refine accounts.computeBalance_run clock ?_
    rw [← owed]
    exact small.trans (by norm_num [numericPrecision])
  · exact ⟨roundMoney_add currency small fits, roundMoney_sub currency small fits⟩

end Reconciliation

attribute [local instance] Sample.platform Sample.settings

theorem Engine.balance_reconciles_sample : ∃ σ : Engine, Engine.Reachable 0 σ ∧ σ.world.db.hasCustomer 1 ∧
    ∃ n : ℤ, 0 ≤ n ∧ σ.world.db.balance 1 .KES = some ⟨1, .KES, cents n⟩ ∧
      (σ.world.db.ledgerSum 1 .KES .credit).toRat - (σ.world.db.ledgerSum 1 .KES .debit).toRat = (cents n).toRat ∧
      (computeBalance 1 .KES).run [] σ.world.db = (.ok (cents n), σ.world.db) ∧
      ∀ amount : ℤ, amount.natAbs < 10 ^ numericPrecision →
        roundMoney (cents n + cents amount) .KES = .ok (cents (n + amount)) ∧
        roundMoney (cents n - cents amount) .KES = .ok (cents (n - amount)) := by
  obtain ⟨σ, reached, db⟩ := Sample.reachable (Sample.prepared ++ Sample.executed) (by decide)
  have known : σ.world.db.hasCustomer 1 := by
    rw [db]
    decide +kernel
  exact ⟨σ, reached, known, reached.balance_reconciles known .KES []⟩

end FxEngine
