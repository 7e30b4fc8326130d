import FxEngine.Correctness.Counters
import FxEngine.Correctness.Engine
import FxEngine.Transactions.Isolation

/-! # Customers do not notice each other

What a client can answer, store or read back does not depend on what other customers do:
every run, reduced to one party's rows and calls, is a run of the engine.
-/

namespace FxEngine

open Transactions Program

/-- Some customers with what is theirs: identifiers, generated ones included, and
idempotency keys. -/
structure Party where
  ids : Uuid → Bool
  keys : String → Bool

/-- The identifiers a call comes with that name rows of a customer. -/
def Call.ids : Call → List Uuid
  | .createCustomer customerId | .getBalances customerId => [customerId]
  | .creditBalance adjustmentId customerId _ _ => [adjustmentId, customerId]
  | .createQuote quoteId customerId _ _ _ => [quoteId, customerId]
  | .executeQuote executionId quoteId _ => [executionId, quoteId]
  | .refreshRates .. | .readyz => []

namespace Party

/-- All the call names is the party's; refreshes and probes are everyone's. -/
def Owns (party : Party) (call : Call) : Prop :=
  (∀ id ∈ call.ids, party.ids id = true) ∧ ∀ key ∈ call.key, party.keys key = true

/-- A call of other customers. -/
def Shuns (party : Party) (call : Call) : Prop :=
  call.ids ≠ [] ∧ (∀ id ∈ call.ids, party.ids id = false) ∧ ∀ key ∈ call.key, party.keys key = false

-- not by trying all identifiers
instance (party : Party) (call : Call) : Decidable (party.Owns call) :=
  decidable_of_iff (call.ids.all party.ids ∧ ∀ key ∈ call.key, party.keys key = true) (by simp [Owns])

instance (party : Party) (call : Call) : Decidable (party.Shuns call) :=
  decidable_of_iff (call.ids ≠ [] ∧ call.ids.all (!party.ids ·) ∧ ∀ key ∈ call.key, party.keys key = false)
    (by simp [Shuns])

/-- The rows of the party's customers, and the rates. -/
def see (party : Party) (db : Tables) : Tables where
  customers := db.customers.filter party.ids
  balances := db.balances.filter fun row => party.ids row.customerId
  refreshes := db.refreshes
  snapshots := db.snapshots
  currentRates := db.currentRates
  foreignRates := db.foreignRates
  quotes := db.quotes.filter fun q => party.ids q.customerId
  legs := db.legs.filter fun leg => party.ids leg.quoteId
  executions := db.executions.filter fun x => party.ids x.customerId
  adjustments := db.adjustments.filter fun a => party.ids a.customerId
  ledger := db.ledger.filter fun entry => party.ids entry.customerId
  idempotencyKeys := db.idempotencyKeys.filter fun row => party.keys row.key

/-- A row and its customer belong to the same side. -/
structure Tidy (party : Party) (db : Tables) : Prop where
  quotes : ∀ q ∈ db.quotes, party.ids q.customerId = party.ids q.id
  executions : ∀ x ∈ db.executions, party.ids x.customerId = party.ids x.id ∧
    party.ids x.customerId = party.ids x.quoteId
  adjustments : ∀ a ∈ db.adjustments, party.ids a.customerId = party.ids a.id
  ledger : ∀ entry ∈ db.ledger, party.ids entry.customerId = party.ids entry.referenceId

/-! ## What the party finds -/

section Lookups

variable {party : Party} {db : Tables}

theorem see_hasCustomer {id : Uuid} (own : party.ids id = true) :
    (party.see db).hasCustomer id ↔ db.hasCustomer id := by
  simp [see, Tables.hasCustomer, own]

theorem see_balance {customerId : Uuid} (own : party.ids customerId = true) (currency : Currency) :
    (party.see db).balance customerId currency = db.balance customerId currency :=
  Table.row_filter fun _ _ same => (congrArg (party.ids ·.1) same).trans own

theorem Tidy.see_quote (tidy : party.Tidy db) {id : Uuid} (own : party.ids id = true) :
    (party.see db).quote id = db.quote id := by
  refine Table.row_filter fun q member same => ?_
  rw [tidy.quotes q member, same, own]

theorem see_leg {quoteId : Uuid} (own : party.ids quoteId = true) (position : ℕ) :
    (party.see db).leg quoteId position = db.leg quoteId position :=
  Table.row_filter fun _ _ same => (congrArg (party.ids ·.1) same).trans own

theorem Tidy.see_execution (tidy : party.Tidy db) {id : Uuid} (own : party.ids id = true) :
    (party.see db).execution id = db.execution id := by
  refine Table.row_filter fun x member same => ?_
  rw [(tidy.executions x member).1, same, own]

theorem Tidy.see_executionOf (tidy : party.Tidy db) {quoteId : Uuid} (own : party.ids quoteId = true) :
    (party.see db).executionOf quoteId = db.executionOf quoteId := by
  refine Table.row_filter fun x member same => ?_
  rw [(tidy.executions x member).2, same, own]

theorem Tidy.see_adjustment (tidy : party.Tidy db) {id : Uuid} (own : party.ids id = true) :
    (party.see db).adjustment id = db.adjustment id := by
  refine Table.row_filter fun a member same => ?_
  rw [tidy.adjustments a member, same, own]

theorem Tidy.see_entry (tidy : party.Tidy db) {reference : ReferenceType × Uuid × Direction}
    (own : party.ids reference.2.1 = true) : (party.see db).entry reference = db.entry reference := by
  refine Table.row_filter fun entry member same => ?_
  rw [tidy.ledger entry member, ← own, ← same]

theorem see_idempotencyKey {key : String} (own : party.keys key = true) (endpoint : String) :
    (party.see db).idempotencyKey endpoint key = db.idempotencyKey endpoint key :=
  Table.row_filter fun _ _ same => (congrArg (party.keys ·.2) same).trans own

end Lookups

/-! ## What the statements touch -/

section Isolation

variable [Platform]

def window (party : Party) : Window fx := ⟨party.see, party.Tidy⟩

section Statements

variable {party : Party} {mine : Bool}

theorem respects_insertCustomer {id : Uuid} (own : party.ids id = mine) :
    party.window.Respects mine (.insertCustomer id) where
  tidy s tidy := ⟨tidy.quotes, tidy.executions, tidy.adjustments, tidy.ledger⟩
  see s _ := by cases mine <;> simp [window, see, Statement.apply, own]
  claims _ _ _ := rfl
  check same s _ := by simp [window, Statement.check, see_hasCustomer (own.trans same)]

theorem respects_insertBalance {customerId : Uuid} (own : party.ids customerId = mine) (currency : Currency) :
    party.window.Respects mine (.insertBalance customerId currency) where
  tidy s tidy := by
    by_cases present : (s.balance customerId currency).isSome
    · simpa only [Statement.apply, if_pos present] using tidy
    · simp only [Statement.apply, if_neg present]
      exact ⟨tidy.quotes, tidy.executions, tidy.adjustments, tidy.ledger⟩
  see s _ := by
    cases mine with
    | false =>
        by_cases present : (s.balance customerId currency).isSome
        · simp [Statement.apply, present]
        · simp [window, see, Statement.apply, present, own]
    | true =>
        have found : (party.see s).balance customerId currency = s.balance customerId currency :=
          see_balance own currency
        by_cases present : (s.balance customerId currency).isSome
        · simp [window, Statement.apply, found, present]
        · simp only [window, Statement.apply, found, if_neg present]
          simp [see, own]
  claims same s _ := by simp [window, Statement.claims, see_balance (own.trans same)]
  check same s _ := by
    simp [window, Statement.check, see_balance (own.trans same), see_hasCustomer (own.trans same)]

theorem respects_updateBalance {customerId : Uuid} (own : party.ids customerId = mine) (currency : Currency)
    (balance : Numeric.Decimal) : party.window.Respects mine (.updateBalance customerId currency balance) where
  tidy s tidy := ⟨tidy.quotes, tidy.executions, tidy.adjustments, tidy.ledger⟩
  see s _ := by
    cases mine with
    | false =>
        have hidden : (Table.modify BalanceRow.slot (customerId, currency) ({ · with balance }) s.balances).filter
            (fun row => party.ids row.customerId) = s.balances.filter fun row => party.ids row.customerId :=
          Table.filter_modify_hidden (fun _ => rfl) fun _ _ same => (congrArg (party.ids ·.1) same).trans own
        simp [window, see, Statement.apply, hidden]
    | true => simp [window, see, Statement.apply, Table.filter_modify]
  claims _ _ _ := rfl
  check _ _ _ := rfl

theorem respects_insertQuote {row : Quote} (own : party.ids row.id = mine)
    (customer : party.ids row.customerId = mine) : party.window.Respects mine (.insertQuote row) where
  tidy s tidy := by
    refine ⟨?_, tidy.executions, tidy.adjustments, tidy.ledger⟩
    simpa [Statement.apply, or_imp, forall_and, own, customer] using tidy.quotes
  see s _ := by cases mine <;> simp [window, see, Statement.apply, customer]
  claims _ _ _ := rfl
  check same s tidy := by
    simp [window, Statement.check, Tidy.see_quote tidy (own.trans same), see_hasCustomer (customer.trans same)]

theorem respects_insertLeg {row : QuoteLeg} (own : party.ids row.quoteId = mine) :
    party.window.Respects mine (.insertLeg row) where
  tidy s tidy := ⟨tidy.quotes, tidy.executions, tidy.adjustments, tidy.ledger⟩
  see s _ := by cases mine <;> simp [window, see, Statement.apply, own]
  claims _ _ _ := rfl
  check same s tidy := by
    have snapshot : ∀ id, (party.see s).snapshot id = s.snapshot id := fun _ => rfl
    simp [window, Statement.check, Tidy.see_quote tidy (own.trans same), see_leg (own.trans same), snapshot]

theorem respects_insertExecution {row : Execution} (own : party.ids row.id = mine)
    (quote : party.ids row.quoteId = mine) (customer : party.ids row.customerId = mine) :
    party.window.Respects mine (.insertExecution row) where
  tidy s tidy := by
    refine ⟨tidy.quotes, fun x member => ?_, tidy.adjustments, tidy.ledger⟩
    rcases List.mem_append.mp member with before | here
    · exact tidy.executions x before
    · obtain rfl := List.mem_singleton.mp here
      exact ⟨customer.trans own.symm, customer.trans quote.symm⟩
  see s _ := by cases mine <;> simp [window, see, Statement.apply, customer]
  claims _ _ _ := rfl
  check same s tidy := by
    simp [window, Statement.check, Tidy.see_execution tidy (own.trans same),
      Tidy.see_executionOf tidy (quote.trans same), Tidy.see_quote tidy (quote.trans same),
      see_hasCustomer (customer.trans same)]

theorem respects_insertAdjustment {row : CreditAdjustment} (own : party.ids row.id = mine)
    (customer : party.ids row.customerId = mine) : party.window.Respects mine (.insertAdjustment row) where
  tidy s tidy := by
    refine ⟨tidy.quotes, tidy.executions, ?_, tidy.ledger⟩
    simpa [Statement.apply, or_imp, forall_and, own, customer] using tidy.adjustments
  see s _ := by cases mine <;> simp [window, see, Statement.apply, customer]
  claims _ _ _ := rfl
  check same s tidy := by
    simp [window, Statement.check, Tidy.see_adjustment tidy (own.trans same),
      see_hasCustomer (customer.trans same)]

theorem respects_insertLedger {row : LedgerEntry} (own : party.ids row.referenceId = mine)
    (customer : party.ids row.customerId = mine) : party.window.Respects mine (.insertLedger row) where
  tidy s tidy := by
    refine ⟨tidy.quotes, tidy.executions, tidy.adjustments, ?_⟩
    simpa [Statement.apply, or_imp, forall_and, own, customer] using tidy.ledger
  see s _ := by cases mine <;> simp [window, see, Statement.apply, customer]
  claims _ _ _ := rfl
  check same s tidy := by
    have entry : (party.see s).entry row.reference = s.entry row.reference := Tidy.see_entry tidy (own.trans same)
    simp [window, Statement.check, entry, see_hasCustomer (customer.trans same)]

theorem respects_insertIdempotencyKey {row : IdempotencyKey} (own : party.keys row.key = mine) :
    party.window.Respects mine (.insertIdempotencyKey row) where
  tidy s tidy := ⟨tidy.quotes, tidy.executions, tidy.adjustments, tidy.ledger⟩
  see s _ := by cases mine <;> simp [window, see, Statement.apply, own]
  claims _ _ _ := rfl
  check same s _ := by simp [window, Statement.check, see_idempotencyKey (own.trans same)]

theorem respects_completeIdempotencyKey {key : String} (own : party.keys key = mine) (endpoint : String)
    (responsePayload : Json) (statusCode : ℕ) (completedAt : Instant) :
    party.window.Respects mine (.completeIdempotencyKey endpoint key responsePayload statusCode completedAt) where
  tidy s tidy := ⟨tidy.quotes, tidy.executions, tidy.adjustments, tidy.ledger⟩
  see s _ := by
    cases mine with
    | false =>
        have hidden : ∀ f : IdempotencyKey → IdempotencyKey, (∀ row, (f row).key = row.key) →
            (Table.modify IdempotencyKey.slot (endpoint, key) f s.idempotencyKeys).filter
              (fun row => party.keys row.key) = s.idempotencyKeys.filter fun row => party.keys row.key :=
          fun f keeps => Table.filter_modify_hidden (fun row => congrArg party.keys (keeps row))
            fun _ _ same => (congrArg (party.keys ·.2) same).trans own
        simp [window, see, Statement.apply, hidden]
    | true => simp [window, see, Statement.apply, Table.filter_modify]
  claims _ _ _ := rfl
  check _ _ _ := rfl

theorem respects_insertRefresh (row : RateRefresh) : party.window.Respects true (.insertRefresh row) where
  tidy _ tidy := ⟨tidy.quotes, tidy.executions, tidy.adjustments, tidy.ledger⟩
  see _ _ := rfl
  claims _ _ _ := rfl
  check _ _ _ := rfl

theorem respects_insertSnapshot (row : RateSnapshot) : party.window.Respects true (.insertSnapshot row) where
  tidy _ tidy := ⟨tidy.quotes, tidy.executions, tidy.adjustments, tidy.ledger⟩
  see _ _ := rfl
  claims _ _ _ := rfl
  check _ _ _ := rfl

theorem respects_upsertCurrentRate (row : CurrentRate) : party.window.Respects true (.upsertCurrentRate row) where
  tidy _ tidy := ⟨tidy.quotes, tidy.executions, tidy.adjustments, tidy.ledger⟩
  see _ _ := rfl
  claims _ _ _ := rfl
  check _ _ _ := rfl

end Statements

/-! ## What the calls touch -/

section Repositories

variable {party : Party} {mine : Bool}

/-- The piece of a handler stays on its side. -/
abbrev Keeps {α : Type} (party : Party) (mine : Bool) (p : Tx α) : Prop :=
  p.Respects party.window mine fun _ => True

theorem keeps_select {α : Type} {f : Tables → α}
    (shown : mine = true → ∀ db, party.Tidy db → f (party.see db) = f db) : party.Keeps mine (select f) :=
  respects_select shown fun _ _ => trivial

theorem keeps_selectForUpdate {α : Type} {rows : Tables → List Resource} {f : Tables → α}
    (owned : mine = true → ∀ db, party.Tidy db → rows (party.see db) = rows db)
    (shown : mine = true → ∀ db, party.Tidy db → f (party.see db) = f db) :
    party.Keeps mine (selectForUpdate rows f) :=
  respects_selectForUpdate owned shown fun _ _ => trivial

theorem keeps_ofExcept {α : Type} (r : Except PyError α) : party.Keeps mine (ofExcept r) :=
  respects_ofExcept fun _ _ => trivial

theorem keeps_attempt {α : Type} {p : Tx α} (h : party.Keeps mine p) : party.Keeps mine p.attempt :=
  Respects.attempt h fun _ => trivial

theorem keeps_rollbackAll : party.Keeps mine rollbackAll := trivial

theorem keeps_flush {pending : List Statement} (each : ∀ s ∈ pending, party.window.Respects mine s) :
    party.Keeps mine (flush pending) :=
  respects_forM fun s member => respects_execute (each s member)

/-- One statement on its own. -/
theorem keeps_send {s : Statement} (h : party.window.Respects mine s) : party.Keeps mine (flush [s]) :=
  keeps_flush fun _ member => List.mem_singleton.mp member ▸ h

theorem keeps_reload : party.Keeps mine reload := keeps_select fun _ _ _ => rfl

theorem keeps_getBalance {customerId : Uuid} (own : party.ids customerId = mine) (currency : Currency) :
    party.Keeps mine (getBalance customerId currency) :=
  keeps_select fun same _ _ => see_balance (own.trans same) currency

theorem keeps_ensureBalance {customerId : Uuid} (own : party.ids customerId = mine) (currency : Currency) :
    party.Keeps mine (ensureBalance customerId currency) := by
  refine (respects_execute (respects_insertBalance own currency)).bind fun _ _ =>
    (keeps_getBalance own currency).bind fun found _ => ?_
  cases found <;> trivial

theorem keeps_ensureAllBalances {customerId : Uuid} (own : party.ids customerId = mine) :
    party.Keeps mine (ensureAllBalances customerId) :=
  respects_forM fun currency _ => (keeps_ensureBalance own currency).bind fun _ _ => trivial

theorem keeps_getBalanceForUpdate {customerId : Uuid} (own : party.ids customerId = mine) (currency : Currency) :
    party.Keeps mine (getBalanceForUpdate customerId currency) := by
  have shown : mine = true → ∀ db : Tables,
      (party.see db).balance customerId currency = db.balance customerId currency :=
    fun same db => see_balance (own.trans same) currency
  refine (keeps_selectForUpdate (fun same db _ => ?_) fun same db _ => shown same db).bind fun found _ => ?_
  · simp only [shown same db]
  · cases found <;> trivial

theorem keeps_listBalances {customerId : Uuid} (own : party.ids customerId = mine) :
    party.Keeps mine (listBalances customerId) := by
  refine (keeps_ensureAllBalances own).bind fun _ _ =>
    (keeps_select fun same db _ => ?_).bind fun rows _ => keeps_ofExcept _
  simp only [see, List.filter_filter]
  refine List.filter_congr fun row _ => ?_
  by_cases here : row.customerId = customerId <;> simp [here, own, same]

theorem keeps_assertCustomerExists {customerId : Uuid} (own : party.ids customerId = mine) :
    party.Keeps mine (assertCustomerExists customerId) := by
  refine (keeps_select fun same db _ => ?_).bind fun known _ => ?_
  · exact decide_eq_decide.mpr (see_hasCustomer (own.trans same))
  · cases known <;> trivial

theorem keeps_appendEntry {entry : LedgerEntry} {pending : List Statement}
    (own : party.ids entry.referenceId = mine) (customer : party.ids entry.customerId = mine)
    (each : ∀ s ∈ pending, party.window.Respects mine s) :
    party.Keeps mine (appendEntry entry pending) := by
  unfold appendEntry
  split
  · trivial
  · refine keeps_flush fun s member => ?_
    rcases List.mem_append.mp member with before | here
    · exact each s before
    · exact List.mem_singleton.mp here ▸ respects_insertLedger own customer

end Repositories

section Services

variable {party : Party} {mine : Bool}

theorem keeps_createCustomer {customerId : Uuid} (own : party.ids customerId = mine) :
    party.Keeps mine (createCustomer customerId) :=
  (keeps_send (respects_insertCustomer own)).bind fun _ _ => (keeps_ensureAllBalances own).bind fun _ _ =>
    respects_commitAll.bind fun _ _ => keeps_reload.bind fun _ _ => trivial

theorem keeps_getBalances {customerId : Uuid} (own : party.ids customerId = mine) :
    party.Keeps mine (getBalances customerId) :=
  (keeps_assertCustomerExists own).bind fun _ _ => keeps_listBalances own

theorem keeps_creditBalance {adjustmentId customerId : Uuid} (own : party.ids adjustmentId = mine)
    (customer : party.ids customerId = mine) (currency : Currency) (amount : Numeric.Decimal) :
    party.Keeps mine (creditBalance adjustmentId customerId currency amount) := by
  refine (keeps_assertCustomerExists customer).bind fun _ _ => (keeps_ofExcept _).bind fun rounded _ =>
    (keeps_ensureBalance customer currency).bind fun _ _ =>
    (keeps_getBalanceForUpdate customer currency).bind fun balance _ =>
    (keeps_send (respects_insertAdjustment own customer)).bind fun _ _ =>
    (keeps_appendEntry own customer (by simp)).bind fun _ _ => (keeps_ofExcept _).bind fun updated _ =>
    (keeps_send (respects_updateBalance customer currency updated)).bind fun _ _ =>
    respects_commitAll.bind fun _ _ => (keeps_getBalance customer currency).bind fun row _ => ?_
  cases row <;> trivial

theorem keeps_loadCurrentRateBook : party.Keeps mine loadCurrentRateBook :=
  (keeps_select fun _ _ _ => rfl).bind fun _ _ => (keeps_ofExcept _).bind fun _ _ => trivial

theorem keeps_createQuote [Settings] {quoteId customerId : Uuid} (own : party.ids quoteId = mine)
    (customer : party.ids customerId = mine) (source destination : Currency) (amount : Numeric.Decimal) :
    party.Keeps mine (createQuote quoteId customerId source destination amount) := by
  unfold createQuote
  split
  · trivial
  refine (keeps_assertCustomerExists customer).bind fun _ _ =>
    keeps_loadCurrentRateBook.bind fun book _ => ?_
  split
  · trivial
  refine respects_now.bind fun checkedAt _ => (keeps_ofExcept _).bind fun oldest _ => ?_
  split
  · trivial
  refine (keeps_ofExcept _).bind fun terms _ => respects_now.bind fun createdAt _ =>
    (keeps_send (respects_insertQuote own customer)).bind fun _ _ =>
    (respects_ofExcept (Q := fun legs => ∀ leg ∈ legs, leg.quoteId = quoteId) fun legs made => ?_).bind
    fun legs named => (keeps_flush fun s member => ?_).bind fun _ _ =>
    respects_commitAll.bind fun _ _ => keeps_reload.bind fun _ _ => trivial
  · exact legRows_quoteId (arith_eq_ok.mp made)
  · obtain ⟨leg, inside, rfl⟩ := List.mem_map.mp member
    exact respects_insertLeg ((congrArg party.ids (named leg inside)).trans own)

theorem keeps_claimKey {key : String} (own : party.keys key = mine) (reqHash : String) :
    party.Keeps mine (claimKey key reqHash) := by
  refine (keeps_attempt (keeps_send (respects_insertIdempotencyKey own))).bind fun r _ => ?_
  cases r with
  | ok => trivial
  | error e => cases e <;> trivial

theorem keeps_validateQuote {quoteId : Uuid} (own : party.ids quoteId = mine) (quote : Quote) :
    party.Keeps mine (validateQuote quoteId quote) := by
  refine (keeps_select fun same db tidy => ?_).bind fun existing _ => ?_
  · exact Tidy.see_executionOf tidy (own.trans same)
  · split
    · trivial
    · refine respects_now.bind fun now _ => ?_
      split <;> trivial

theorem keeps_lockBalances {quote : Quote} (customer : party.ids quote.customerId = mine) :
    party.Keeps mine (lockBalances quote) :=
  (keeps_ensureBalance customer _).bind fun _ _ => (keeps_ensureBalance customer _).bind fun _ _ =>
    (keeps_getBalanceForUpdate customer _).bind fun _ _ =>
      (keeps_getBalanceForUpdate customer _).bind fun _ _ => trivial

theorem keeps_settle {executionId : Uuid} {key : String} {quote : Quote} (own : party.ids executionId = mine)
    (quoted : party.ids quote.id = mine) (customer : party.ids quote.customerId = mine)
    (claimed : party.keys key = mine) (locked : Currency → Numeric.Decimal) :
    party.Keeps mine (settle executionId key quote locked) := by
  refine (keeps_send (respects_insertExecution own quoted customer)).bind fun _ _ =>
    (keeps_appendEntry own customer (by simp)).bind fun _ _ => (keeps_ofExcept _).bind fun debited _ =>
    respects_mayFail.bind fun _ _ => (keeps_appendEntry own customer fun s member => ?_).bind fun _ _ =>
    (keeps_ofExcept _).bind fun credited _ => respects_now.bind fun completedAt _ =>
    (keeps_flush fun s member => ?_).bind fun _ _ => respects_commitAll.bind fun _ _ =>
    keeps_reload.bind fun _ _ => trivial
  · exact List.mem_singleton.mp member ▸ respects_updateBalance customer _ debited
  · rcases List.mem_pair.mp member with rfl | rfl
    · exact respects_updateBalance customer _ credited
    · exact respects_completeIdempotencyKey claimed _ _ _ completedAt

theorem keeps_executeLocked {executionId quoteId : Uuid} {key : String} {quote : Quote}
    (own : party.ids executionId = mine) (asked : party.ids quoteId = mine) (quoted : party.ids quote.id = mine)
    (customer : party.ids quote.customerId = mine) (claimed : party.keys key = mine) :
    party.Keeps mine (executeLocked executionId quoteId key quote) := by
  refine (keeps_validateQuote asked quote).bind fun _ _ => (keeps_lockBalances customer).bind fun locked _ => ?_
  split
  · trivial
  · exact keeps_settle own quoted customer claimed locked

theorem keeps_executionFailed {α : Type} (quote : Option Quote) (e : PyError) :
    party.Keeps mine (executionFailed quote e : Tx α) := by
  cases quote with
  | none => trivial
  | some quote => exact keeps_reload.bind fun _ _ => trivial

/-- The quote that is found under an identifier of one side belongs to a customer of it. -/
theorem respects_lockQuote {quoteId : Uuid} (own : party.ids quoteId = mine) :
    (lockQuote quoteId).Respects party.window mine fun found =>
      ∀ q ∈ found, party.ids q.id = mine ∧ party.ids q.customerId = mine := by
  have shown : mine = true → ∀ db, party.Tidy db → (party.see db).quote quoteId = db.quote quoteId :=
    fun same db tidy => tidy.see_quote (own.trans same)
  refine respects_selectForUpdate (fun same db tidy => ?_) shown fun db tidy q found => ?_
  · simp only [window, shown same db tidy]
  · obtain ⟨member, rfl⟩ := Table.row_some found
    exact ⟨own, (tidy.quotes q member).trans own⟩

theorem keeps_executeClaimed {executionId quoteId : Uuid} {key : String} (own : party.ids executionId = mine)
    (asked : party.ids quoteId = mine) (claimed : party.keys key = mine) :
    party.Keeps mine (executeClaimed executionId quoteId key) := by
  refine (Respects.attempt (Q := fun r => ∀ found, r = .ok found → ∀ q ∈ found,
    party.ids q.id = mine ∧ party.ids q.customerId = mine) ?_ (by simp)).bind fun r located => ?_
  · simpa only [Except.ok.injEq, forall_eq'] using respects_lockQuote asked
  · cases r with
    | error e => exact keeps_executionFailed none e
    | ok found =>
        cases found with
        | none => exact keeps_rollbackAll.bind fun _ _ => keeps_executionFailed none _
        | some quote =>
            obtain ⟨quoted, customer⟩ := located (some quote) rfl quote rfl
            refine (keeps_attempt (keeps_executeLocked own asked quoted customer claimed)).bind fun outcome _ => ?_
            cases outcome with
            | error e => exact keeps_executionFailed (some quote) e
            | ok => trivial

theorem keeps_executeQuote {executionId quoteId : Uuid} {key : String} (own : party.ids executionId = mine)
    (asked : party.ids quoteId = mine) (claimed : party.keys key = mine) (reqHash : String) :
    party.Keeps mine (executeQuote executionId quoteId key reqHash) := by
  unfold executeQuote
  split
  · trivial
  refine (keeps_select fun same db _ => see_idempotencyKey (claimed.trans same) _).bind fun existing _ => ?_
  refine Respects.bind (Q := fun _ => True) ?_ fun replay _ => ?_
  · cases existing with
    | none => trivial
    | some row =>
        -- a conflict, a replay, or a row without a usable answer
        dsimp only
        split
        · trivial
        · split
          · split <;> trivial
          · trivial
  · cases replay with
    | some payload => trivial
    | none =>
        exact (keeps_claimKey claimed reqHash).bind fun _ _ =>
          (keeps_executeClaimed own asked claimed).bind fun _ _ => trivial

theorem keeps_storePairRows (refreshId : Uuid) (providerTimestamp : Option Datetime) (fetchedAt : Instant)
    (buySpreadBps sellSpreadBps : ℤ) (rateRows : List (Uuid × RateRow)) :
    party.Keeps true
      (storePairRows refreshId providerTimestamp fetchedAt buySpreadBps sellSpreadBps rateRows) :=
  respects_forM fun _ _ => (keeps_send (respects_insertSnapshot _)).bind fun _ _ =>
    respects_execute (respects_upsertCurrentRate _)

theorem keeps_refreshFailed (failureId : Uuid) (started : Instant) (e : PyError) :
    party.Keeps true (refreshFailed failureId started e) := by
  have recorded : ∀ error : ApiError, party.Keeps true (recordFailedRefresh failureId started error) := by
    intro error
    have created : party.Keeps true (createRefreshFailure failureId started error.code error.detail) :=
      (keeps_send (respects_insertRefresh _)).bind fun _ _ => trivial
    exact keeps_rollbackAll.bind fun _ _ => created.bind fun _ _ => respects_commitAll.bind fun _ _ => keeps_reload
  unfold refreshFailed
  split
  · exact (recorded _).bind fun _ _ => trivial
  · split
    · exact (recorded _).bind fun _ _ => trivial
    · trivial

theorem keeps_persistSuccessfulRefresh [Settings] (refreshId : Uuid) (snapshotIds : ℕ → Uuid)
    (provided : ProviderRates) (started : Instant) :
    party.Keeps true (persistSuccessfulRefresh refreshId snapshotIds provided started) :=
  (keeps_ofExcept _).bind fun _ _ => (keeps_send (respects_insertRefresh _)).bind fun _ _ =>
    (keeps_storePairRows _ _ _ _ _ _).bind fun _ _ => trivial

/-- A refresh writes what everyone sees. -/
theorem keeps_refreshRates [Settings] (refreshId failureId : Uuid) (snapshotIds : ℕ → Uuid)
    (answer : ProviderAnswer) : party.Keeps true (refreshRates refreshId failureId snapshotIds answer) := by
  have recorded : ∀ refresh, party.Keeps true (recordSuccessfulRefresh refresh) := fun refresh =>
    respects_commitAll.bind fun _ _ => keeps_reload.bind fun _ _ => keeps_ofExcept _
  refine (keeps_selectForUpdate (fun _ _ _ => rfl) fun _ _ _ => rfl).bind fun _ _ =>
    respects_now.bind fun started _ => (keeps_attempt ((keeps_ofExcept _).bind fun provided _ =>
      (keeps_persistSuccessfulRefresh refreshId snapshotIds provided started).bind fun refresh _ =>
        recorded refresh)).bind fun outcome _ => ?_
  cases outcome with
  | ok => trivial
  | error e => exact keeps_refreshFailed failureId started e

theorem keeps_readyz [Settings] : party.Keeps true readyz := by
  have status : party.Keeps true ratesFreshnessStatus := by
    have newest : party.Keeps true getLatestCurrentRate := by
      refine (keeps_select fun _ _ _ => rfl).bind fun newest _ => ?_
      split <;> trivial
    refine newest.bind fun latest _ => ?_
    cases latest with
    | none => trivial
    | some latest =>
        refine respects_now.bind fun now _ => (keeps_ofExcept _).bind fun oldest _ => ?_
        split <;> trivial
  refine (keeps_attempt keeps_reload).bind fun r _ => ?_
  cases r with
  | error => trivial
  | ok =>
      refine status.bind fun rates _ => ?_
      split <;> trivial

/-- Every call stays on the side of what it names. -/
theorem keeps_program [Settings] {call : Call} (ids : ∀ id ∈ call.ids, party.ids id = mine)
    (keys : ∀ key ∈ call.key, party.keys key = mine) (sided : call.ids = [] → mine = true) :
    party.Keeps mine (program call) := by
  cases call with
  | createCustomer customerId => exact (keeps_createCustomer (ids _ (by simp [Call.ids]))).bind fun _ _ => trivial
  | getBalances customerId => exact (keeps_getBalances (ids _ (by simp [Call.ids]))).bind fun _ _ => trivial
  | creditBalance adjustmentId customerId currency amount =>
      refine (keeps_ofExcept _).bind fun parsed _ =>
        (keeps_creditBalance (ids _ ?_) (ids _ ?_) currency parsed).bind fun _ _ => trivial
      all_goals simp [Call.ids]
  | createQuote quoteId customerId source destination amount =>
      refine (keeps_ofExcept _).bind fun parsed _ =>
        (keeps_createQuote (ids _ ?_) (ids _ ?_) source destination parsed).bind fun _ _ => trivial
      all_goals simp [Call.ids]
  | executeQuote executionId quoteId key =>
      refine (keeps_executeQuote (ids _ ?_) (ids _ ?_) (keys key rfl) _).bind fun result _ =>
        (keeps_ofExcept _).bind fun _ _ => trivial <;> simp [Call.ids]
  | refreshRates =>
      obtain rfl := sided rfl
      exact (keeps_refreshRates _ _ _ _).bind fun _ _ => trivial
  | readyz =>
      obtain rfl := sided rfl
      exact keeps_readyz

end Services

end Isolation

end Party

namespace Engine

variable [Platform] [Settings] {start : Instant} {σ : Engine}

/-- Whatever other customers do meanwhile, in whatever interleaving: the party's calls run as they
could have run without the others, with the same answers, on the party's rows alone. -/
theorem Reachable.isolated (h : Reachable start σ) (party : Party)
    (sides : ∀ i p, σ.procs i = some p → party.Owns p.call ∨ party.Shuns p.call) :
    ∃ τ : Engine, Reachable start τ ∧ τ.world = ⟨party.see σ.world.db, σ.world.now⟩ ∧
      (∀ i p, σ.procs i = some p → party.Owns p.call → ∃ q, τ.procs i = some q ∧ q.call = p.call ∧
        q.prog = p.prog ∧ q.loc.reads = p.loc.reads ∧ q.loc.counts = p.loc.counts) ∧
      ∀ i q, τ.procs i = some q → party.Owns q.call ∧ ∃ p, σ.procs i = some p ∧ p.call = q.call := by
  let mine : ℕ → Bool := fun i => (σ.procs i).any fun p => party.Owns p.call
  have own : ∀ {i p}, σ.procs i = some p → (mine i = true ↔ party.Owns p.call) := fun at_ => by simp [mine, at_]
  have sorted : ∀ i p, σ.procs i = some p → party.Keeps (mine i) (program p.call) := by
    intro i p at_
    cases side : mine i with
    | true =>
        obtain ⟨ids, keys⟩ := (own at_).mp side
        exact Party.keeps_program ids keys fun _ => rfl
    | false =>
        have other : ¬ party.Owns p.call := fun owned => by simp [(own at_).mpr owned] at side
        obtain ⟨some, ids, keys⟩ := (sides i p at_).resolve_left other
        exact Party.keeps_program ids keys fun none => absurd none some
  have tidy : party.Tidy {} := ⟨by simp, by simp, by simp, by simp⟩
  obtain ⟨-, reached⟩ := Transactions.Reachable.seen (W := party.window) h tidy sorted
  refine ⟨σ.seen party.window mine, reached, rfl, fun i p at_ owned => ?_, fun i q at_ => ?_⟩
  · exact ⟨p.seen party.window, Sys.seen_procs ((own at_).mpr owned) at_, rfl, rfl, rfl, rfl⟩
  · simp only [Sys.seen, Option.ite_none_right_eq_some, Option.map_eq_some_iff] at at_
    obtain ⟨side, p, there, rfl⟩ := at_
    exact ⟨(own there).mp side, p, there, rfl⟩

end Engine

attribute [local instance] Sample.platform Sample.settings

/-- The customer 1 beside a customer 200, who pays in while the quote is pending. -/
def Sample.neighbours : List (Call × List Instant) :=
  Sample.prepared ++
    [(.createCustomer 200, [0]), (.creditBalance 201 200 .USD (.str "7.00"), [0])] ++ Sample.executed

def Sample.household : Party := ⟨fun id => id ∉ [200, 201], fun _ => true⟩

theorem Engine.isolated_sample : ∃ σ τ : Engine, Engine.Reachable 0 σ ∧ Engine.Reachable 0 τ ∧
    σ.world.db.customers = [1, 200] ∧ τ.world = ⟨Sample.household.see σ.world.db, σ.world.now⟩ ∧
    τ.world.db.customers = [1] ∧ τ.world.db.executions = [⟨6, 5, 1⟩] := by
  obtain ⟨σ, reached, db, -, -, free, ends⟩ :=
    Engine.serial_reachable (Sample.ordered Sample.neighbours (by decide))
  have sorted : ∀ call ∈ Sample.neighbours.map Prod.fst,
      Sample.household.Owns call ∨ Sample.household.Shuns call := by
    decide +kernel
  have answered : (Transactions.serial program Sample.neighbours {}).1.length = Sample.neighbours.length := by
    decide +kernel
  have sides : ∀ i p, σ.procs i = some p → Sample.household.Owns p.call ∨ Sample.household.Shuns p.call := by
    intro i p at_
    have inside : i < Sample.neighbours.length := by
      by_contra above
      rw [free i (by omega)] at at_
      cases at_
    obtain ⟨q, there, call, -⟩ := ends i _ (List.getElem?_eq_getElem (answered ▸ inside))
    rw [Option.some.inj (at_.symm.trans there)]
    exact sorted _ (List.mem_of_getElem? call)
  obtain ⟨τ, alone, world, -, -⟩ := reached.isolated Sample.household sides
  have rows : τ.world.db = Sample.household.see σ.world.db := congrArg World.db world
  refine ⟨σ, τ, reached, alone, ?_, world, ?_, ?_⟩
  · rw [db]
    decide +kernel
  · rw [rows, db]
    decide +kernel
  · rw [rows, db]
    decide +kernel

end FxEngine
