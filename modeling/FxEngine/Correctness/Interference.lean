import FxEngine.Correctness.Actions

/-! # What concurrent commits leave alone

The audit tables only grow, and what a session holds does not change under it.
Each action changes nothing outside its slots.
-/

namespace FxEngine

open Numeric Transactions

/-- Rows are only added; balances and current rates may change. -/
structure Grown (s t : Tables) : Prop where
  customers : s.customers <+: t.customers
  balances : s.balances.map BalanceRow.slot <+: t.balances.map BalanceRow.slot
  refreshes : s.refreshes <+: t.refreshes
  snapshots : s.snapshots <+: t.snapshots
  quotes : s.quotes <+: t.quotes
  legs : s.legs <+: t.legs
  executions : s.executions <+: t.executions
  adjustments : s.adjustments <+: t.adjustments
  ledger : s.ledger <+: t.ledger
  idempotencyKeys : s.idempotencyKeys <+: t.idempotencyKeys

theorem Grown.refl (s : Tables) : Grown s s := by
  constructor <;> exact List.prefix_rfl

theorem Grown.trans {s t u : Tables} (h : Grown s t) (h' : Grown t u) : Grown s u where
  customers := h.customers.trans h'.customers
  balances := h.balances.trans h'.balances
  refreshes := h.refreshes.trans h'.refreshes
  snapshots := h.snapshots.trans h'.snapshots
  quotes := h.quotes.trans h'.quotes
  legs := h.legs.trans h'.legs
  executions := h.executions.trans h'.executions
  adjustments := h.adjustments.trans h'.adjustments
  ledger := h.ledger.trans h'.ledger
  idempotencyKeys := h.idempotencyKeys.trans h'.idempotencyKeys

namespace Grown

variable {s t : Tables} (h : Grown s t)

include h

theorem customer {id : Uuid} (known : s.hasCustomer id) : t.hasCustomer id := h.customers.subset known

theorem quote {id : Uuid} {q : Quote} (found : s.quote id = some q) : t.quote id = some q :=
  Table.row_of_prefix h.quotes found

theorem snapshot {id : Uuid} {r : RateSnapshot} (found : s.snapshot id = some r) : t.snapshot id = some r :=
  Table.row_of_prefix h.snapshots found

theorem idempotencyKey {endpoint key : String} {r : IdempotencyKey}
    (found : s.idempotencyKey endpoint key = some r) : t.idempotencyKey endpoint key = some r :=
  Table.row_of_prefix h.idempotencyKeys found

theorem balance {customerId : Uuid} {currency : Currency} (found : (s.balance customerId currency).isSome) :
    (t.balance customerId currency).isSome := by
  rw [Tables.balance, Table.row_isSome] at found ⊢
  exact h.balances.subset found

theorem book [Settings] {rows : List CurrentRate} {refresh : RateRefresh} (book : BookOf s rows refresh) :
    BookOf t rows refresh where
  recorded := h.refreshes.subset book.recorded
  completed := book.completed
  pairs := book.pairs
  fetched := book.fetched
  spreads := book.spreads
  mids := book.mids
  snapshots := fun rate member => by
    obtain ⟨r, found, rest⟩ := book.snapshots rate member
    exact ⟨r, h.snapshot found, rest⟩

end Grown

/-- What the owner of a resource can rely on. The owner of a quote also rules its
execution. -/
def Same (s t : Tables) : Resource → Prop
  | .customer id => s.hasCustomer id ↔ t.hasCustomer id
  | .balance customerId currency => s.balance customerId currency = t.balance customerId currency
  | .refresh id => s.refresh id = t.refresh id
  | .snapshot id => s.snapshot id = t.snapshot id
  | .rateRefreshLock => s.currentRates = t.currentRates
  | .quote id => s.quote id = t.quote id ∧ s.executionOf id = t.executionOf id
  | .execution id => s.execution id = t.execution id
  | .adjustment id => s.adjustment id = t.adjustment id
  | .ledger reference => s.entry reference = t.entry reference
  | .idempotencyKey endpoint key => s.idempotencyKey endpoint key = t.idempotencyKey endpoint key
  | .currentRate _ | .leg .. | .executionOf _ => True

theorem Same.refl (s : Tables) (r : Resource) : Same s s r := by
  cases r <;> simp [Same]

theorem Same.trans {s t u : Tables} {r : Resource} (h : Same s t r) (h' : Same t u r) : Same s u r := by
  cases r with
  | customer => exact Iff.trans h h'
  | quote => exact ⟨h.1.trans h'.1, h.2.trans h'.2⟩
  | currentRate | leg | executionOf => trivial
  | _ => exact Eq.trans h h'

/-- What others may do to the tables while a session holds `held`. -/
structure Interfere (held : List Resource) (s t : Tables) : Prop where
  grown : Grown s t
  same : ∀ r ∈ held, Same s t r

namespace Interfere

theorem refl (held : List Resource) (s : Tables) : Interfere held s s := ⟨.refl s, fun r _ => .refl s r⟩

theorem trans {held : List Resource} {s t u : Tables} (h : Interfere held s t) (h' : Interfere held t u) :
    Interfere held s u :=
  ⟨h.grown.trans h'.grown, fun r member => (h.same r member).trans (h'.same r member)⟩

theorem anti {held more : List Resource} {s t : Tables} (sub : held ⊆ more) (h : Interfere more s t) :
    Interfere held s t :=
  ⟨h.grown, fun r member => h.same r (sub member)⟩

end Interfere

namespace Tables

variable {db : Tables} {customerId other : Uuid} {currency another : Currency} {amount : Decimal}

theorem balances_setBalance :
    (db.setBalance customerId currency amount).balances.map BalanceRow.slot =
      db.balances.map BalanceRow.slot := by
  refine Table.keys_modify ?_ _
  exact fun _ => rfl

theorem balance_setBalance_self {row : BalanceRow} (found : db.balance customerId currency = some row) :
    (db.setBalance customerId currency amount).balance customerId currency =
      some ⟨customerId, currency, amount⟩ := by
  have slot := (Table.row_some found).2
  simp only [Prod.mk.injEq] at slot
  rw [balance] at found
  rw [balance, setBalance, Table.row_modify_self, found]
  · simp [slot.1, slot.2]
  · exact fun _ => rfl

theorem balance_setBalance_ne (differ : (other, another) ≠ (customerId, currency)) :
    (db.setBalance customerId currency amount).balance other another = db.balance other another := by
  refine Table.row_modify_ne ?_ differ _
  exact fun _ => rfl

end Tables

section Actions

variable [Settings] {db : Tables} {now : Instant}

theorem Action.grown (a : Action) : Grown db (a.apply db) := by
  cases a with
  | openAccount customerId =>
      constructor <;> first | exact List.prefix_rfl | exact List.prefix_append _ _ |
        (simp only [Action.apply, List.map_append]; exact List.prefix_append _ _)
  | credit adjustment balance =>
      constructor <;> first | exact List.prefix_rfl | exact List.prefix_append _ _ |
        (simp only [Action.apply, Tables.balances_setBalance]; exact List.prefix_rfl)
  | execute executionId q debited credited key =>
      constructor <;> first | exact List.prefix_rfl | exact List.prefix_append _ _ |
        (simp only [Action.apply, Tables.balances_setBalance]; exact List.prefix_rfl)
  | quote | refresh | refreshFailure =>
      constructor <;> first | exact List.prefix_rfl | exact List.prefix_append _ _

omit [Settings] in
/-- Rows with another key do not matter to a lookup. -/
private theorem row_append_of_ne {Row Key : Type} [DecidableEq Key] {key : Row → Key} {k : Key}
    {rows new : List Row} (other : ∀ r ∈ new, k ≠ key r) :
    Table.row key k rows = Table.row key k (rows ++ new) :=
  (Table.row_append_ne fun r member => (other r member).symm).symm

theorem Action.same (a : Action) {r : Resource} (outside : r ∉ a.slots) : Same db (a.apply db) r := by
  cases a with
  | openAccount customerId =>
      have account : ∀ {id}, Resource.customer id ∉ (Action.openAccount customerId).slots → id ≠ customerId := by
        rintro id out rfl
        exact out List.mem_cons_self
      cases r with
      | customer id =>
          have := account outside
          simp [Same, Tables.hasCustomer, Action.apply, this]
      | balance id currency =>
          refine row_append_of_ne fun row member same => outside ?_
          obtain ⟨c, -, rfl⟩ := List.mem_map.mp member
          simp only [Prod.mk.injEq] at same
          rw [same.1, same.2]
          exact List.mem_cons_of_mem _ (List.mem_map.mpr ⟨c, Currency.mem_all c, rfl⟩)
      | quote => exact ⟨rfl, rfl⟩
      | currentRate | leg | executionOf => trivial
      | _ => rfl
  | credit adjustment amount =>
      simp only [Action.slots, List.mem_cons, List.not_mem_nil, or_false, not_or] at outside
      cases r with
      | balance id currency =>
          refine (Tables.balance_setBalance_ne fun same => outside.1 ?_).symm
          simp only [Prod.mk.injEq] at same
          rw [same.1, same.2]
      | adjustment id =>
          refine row_append_of_ne fun row member same => outside.2.1 ?_
          rw [same, List.mem_singleton.mp member]
      | ledger reference =>
          refine row_append_of_ne fun row member same => outside.2.2 ?_
          rw [same, List.mem_singleton.mp member]
      | customer => exact Iff.rfl
      | quote => exact ⟨rfl, rfl⟩
      | currentRate | leg | executionOf => trivial
      | _ => rfl
  | quote row legs =>
      simp only [Action.slots, List.mem_singleton] at outside
      cases r with
      | quote id =>
          refine ⟨row_append_of_ne fun other member same => outside ?_, rfl⟩
          rw [same, List.mem_singleton.mp member]
      | customer => exact Iff.rfl
      | currentRate | leg | executionOf => trivial
      | _ => rfl
  | execute executionId q debited credited key =>
      simp only [Action.slots, List.mem_cons, List.not_mem_nil, or_false, not_or] at outside
      obtain ⟨claimed, locked, source, destination, fresh, -, debit, credit⟩ := outside
      cases r with
      | idempotencyKey endpoint k =>
          refine row_append_of_ne fun row member same => claimed ?_
          rw [List.mem_singleton.mp member, Prod.mk.injEq] at same
          rw [same.1, same.2]
      | quote id =>
          refine ⟨rfl, row_append_of_ne fun row member same => locked ?_⟩
          rw [same, List.mem_singleton.mp member]
      | balance id currency =>
          refine .symm ((Tables.balance_setBalance_ne fun same => destination ?_).trans
            (Tables.balance_setBalance_ne fun same => source ?_))
          all_goals
            simp only [Prod.mk.injEq] at same
            rw [same.1, same.2]
      | execution id =>
          refine row_append_of_ne fun row member same => fresh ?_
          rw [same, List.mem_singleton.mp member]
      | ledger reference =>
          refine row_append_of_ne fun row member same => ?_
          rcases List.mem_cons.mp member with rfl | last
          · exact debit (same ▸ rfl)
          · rw [List.mem_singleton.mp last] at same
            exact credit (same ▸ rfl)
      | customer => exact Iff.rfl
      | currentRate | leg | executionOf => trivial
      | _ => rfl
  | refresh row rows =>
      simp only [Action.slots, List.mem_cons, not_or] at outside
      obtain ⟨lock, record, snapshots⟩ := outside
      cases r with
      | refresh id =>
          refine row_append_of_ne fun other member same => record ?_
          rw [same, List.mem_singleton.mp member]
      | snapshot id =>
          refine row_append_of_ne fun other member same => snapshots ?_
          obtain ⟨source, inside, rfl⟩ := List.mem_map.mp member
          exact List.mem_map.mpr ⟨source, inside, by rw [same]; rfl⟩
      | rateRefreshLock => exact absurd rfl lock
      | customer => exact Iff.rfl
      | quote => exact ⟨rfl, rfl⟩
      | currentRate | leg | executionOf => trivial
      | _ => rfl
  | refreshFailure row =>
      simp only [Action.slots, List.mem_singleton] at outside
      cases r with
      | refresh id =>
          refine row_append_of_ne fun other member same => outside ?_
          rw [same, List.mem_singleton.mp member]
      | customer => exact Iff.rfl
      | quote => exact ⟨rfl, rfl⟩
      | currentRate | leg | executionOf => trivial
      | _ => rfl

/-- An action leaves alone whoever holds none of its slots. -/
theorem Action.interfere (a : Action) {held : List Resource} (apart : List.Disjoint held a.slots) :
    Interfere held db (a.apply db) :=
  ⟨a.grown, fun _ member => a.same fun inside => apart member inside⟩

end Actions

end FxEngine
