import FxEngine.Correctness.Executions
import FxEngine.Correctness.Quotes
import FxEngine.Correctness.Refreshes
import FxEngine.Transactions.Deadlock

/-! # The order in which calls lock

An execution locks its key, its quote and its balances in the order of their codes, then
inserts. The balances of a customer that is being created, the legs of a quote that is
being inserted and everything below the refresh lock are out of reach for others.
-/

namespace FxEngine

open Numeric Transactions Program

/-- The place of the currency's code among the codes. -/
def Currency.rank : Currency → ℕ
  | EUR => 0
  | KES => 1
  | NGN => 2
  | USD => 3

/-- The balances are locked in the order of their ranks. -/
theorem lockOrder_rank {source destination : Currency} (differ : source ≠ destination) :
    (lockOrder source destination).1.rank < (lockOrder source destination).2.rank := by
  revert differ
  cases source <;> cases destination <;> decide

def Resource.rank : Resource → ℕ
  | .customer _ | .idempotencyKey .. | .rateRefreshLock => 0
  | .quote _ | .refresh _ => 1
  | .balance _ currency => 2 + currency.rank
  | .execution _ | .executionOf _ | .adjustment _ => 6
  | .ledger (_, _, .debit) => 7
  | .ledger (_, _, .credit) => 8
  | .leg .. | .snapshot _ | .currentRate _ => 9

/-- What one has to hold to get to the resource at all. -/
def Tables.gate (db : Tables) : Resource → Option Resource
  | .balance customerId _ => if db.hasCustomer customerId then none else some (.customer customerId)
  | .leg quoteId _ => some (.quote quoteId)
  | .snapshot _ | .currentRate _ => some .rateRefreshLock
  | _ => none

variable [Platform]

/-- The order all calls keep to. -/
def acquisition : LockOrder fx where
  rank := Resource.rank
  gate := Tables.gate

theorem onOk_error {α : Type} {Q : α → Assertion fx} (e : PyError) (w : World fx) (l : Local fx) :
    Protocol.onOk Q (.error e) w l := trivial

theorem anyhow_error {α : Type} (e : PyError) (w : World fx) (l : Local fx) :
    Protocol.anyhow (.error e : Except PyError α) w l := trivial

variable [Settings]

section Statements

variable {w : World fx} {l : Local fx}

theorem climbs_flush {s : Statement} {pending : List Statement} {Q : Except PyError Unit → Assertion fx}
    (allowed : ∀ w', engine.Later l.held w w' → acquisition.Allows w'.db l.held (s.claims (l.view w'.db)))
    (err : ∀ e w l, Q (.error e) w l)
    (ok : ∀ w', engine.Later l.held w w' → s.check (l.view w'.db) = none →
      engine.climbs acquisition (flush pending) Q w' (l.wrote s w'.db)) :
    engine.climbs acquisition (flush (s :: pending)) Q w l := by
  change engine.climbs acquisition (execute s >>= fun _ => flush pending) Q w l
  exact Protocol.climbs_bind err (Protocol.climbs_execute allowed (fun _ _ _ _ => trivial) ok)

omit [Settings] in
theorem still_reload : (reload : Tx Unit).Still := still_select _

omit [Settings] in
theorem still_assertCustomerExists (customerId : Uuid) : (assertCustomerExists customerId).Still :=
  (still_select _).bind fun _ => still_ite (fun _ => trivial) fun _ => trivial

/-- Everything the session holds is behind `g`, and so is what it asks for. -/
structure Behind (g : Resource) (l : Local fx) : Prop where
  held : g ∈ l.held
  only : ∀ r ∈ l.held, ∀ db g', Tables.gate db r = some g' → g' = g

omit [Settings] in
theorem Behind.allows {g : Resource} {s : Statement} (h : Behind g l)
    (below : ∀ db db', ∀ r ∈ s.claims db, Tables.gate db' r = some g) (db db' : Tables) :
    acquisition.Allows db' l.held (s.claims db) := by
  refine ⟨fun r member g' gate => ?_, fun r member => .inr (.inl ⟨g, h.held, below db db' r member⟩)⟩
  exact h.only r member db' g' gate ▸ h.held

omit [Settings] in
theorem Behind.wrote {g : Resource} {s : Statement} (h : Behind g l)
    (below : ∀ db db', ∀ r ∈ s.claims db, Tables.gate db' r = some g) (db : Tables) : Behind g (l.wrote s db) where
  held := List.mem_append_right _ h.held
  only := by
    intro r member db' g' gate
    rcases List.mem_append.mp member with new | old
    · exact Option.some.inj (gate.symm.trans (below _ db' r new))
    · exact h.only r old db' g' gate

end Statements

/-! ## Customers -/

section Customers

variable {customerId : Uuid} {w : World fx} {l : Local fx}

omit [Settings] in
theorem still_getBalance (customerId : Uuid) (currency : Currency) : (getBalance customerId currency).Still :=
  still_select _

/-- A session that creates the customer, and holds nothing but it and its balances. -/
structure Opens (customerId : Uuid) (l : Local fx) : Prop where
  held : .customer customerId ∈ l.held
  only : ∀ r ∈ l.held, r = .customer customerId ∨ ∃ c, r = .balance customerId c

omit [Platform] [Settings] in
theorem claims_insertBalance {db : Tables} {currency : Currency} {r : Resource}
    (member : r ∈ (Statement.insertBalance customerId currency).claims db) : r = .balance customerId currency := by
  simp only [Statement.claims] at member
  split at member
  · cases member
  · exact List.mem_singleton.mp member

omit [Settings] in
/-- Nobody else gets to the balances of the customer. -/
theorem Opens.allows (h : Opens customerId l) {db : Tables} {rows : List Resource} (fresh : ¬ db.hasCustomer customerId)
    (balances : ∀ r ∈ rows, ∃ c, r = .balance customerId c) : acquisition.Allows db l.held rows := by
  have gate : ∀ c, Tables.gate db (.balance customerId c) = some (.customer customerId) := fun c => if_neg fresh
  refine ⟨fun r member g some => ?_, fun r member => .inr (.inl ⟨_, h.held, ?_⟩)⟩
  · rcases h.only r member with rfl | ⟨c, rfl⟩
    · cases some
    · exact Option.some.inj ((gate c).symm.trans some) ▸ h.held
  · obtain ⟨c, rfl⟩ := balances r member
    exact gate c

omit [Settings] in
theorem Opens.wrote (h : Opens customerId l) {currency : Currency} (db : Tables) :
    Opens customerId (l.wrote (Statement.insertBalance customerId currency) db) where
  held := List.mem_append_right _ h.held
  only := by
    intro r member
    rcases List.mem_append.mp member with new | old
    · exact .inr ⟨_, claims_insertBalance new⟩
    · exact h.only r old

theorem Opens.fresh (h : Opens customerId l) {w' : World fx} (fresh : ¬ Tables.hasCustomer w.db customerId)
    (later : engine.Later l.held w w') : ¬ Tables.hasCustomer w'.db customerId :=
  fun known => fresh ((carry later h.held).mpr known)

/-- A statement and the reload of its row, before the rest. -/
theorem climbs_ensureBalance {currency : Currency} {Q : Except PyError BalanceRow → Assertion fx}
    (allowed : ∀ w', engine.Later l.held w w' →
      acquisition.Allows w'.db l.held ((Statement.insertBalance customerId currency).claims (l.view w'.db)))
    (err : ∀ e w l, Q (.error e) w l)
    (ok : ∀ w' w'' row, engine.Later l.held w w' →
      engine.Later (l.wrote (Statement.insertBalance customerId currency) w'.db).held w' w'' →
      Q (.ok row) w'' (l.wrote (Statement.insertBalance customerId currency) w'.db)) :
    engine.climbs acquisition (ensureBalance customerId currency) Q w l := by
  refine Protocol.climbs_bind err (Protocol.climbs_execute allowed (fun _ _ _ _ => trivial) fun w' later _ => ?_)
  refine Protocol.climbs_bind err (Protocol.climbs_and (K := fun _ _ => True)
    (Protocol.climbs_still (still_getBalance _ _)) (Protocol.wp_select (fun _ _ _ => trivial) fun w'' later' => ?_))
  generalize Tables.balance _ customerId currency = found
  cases found with
  | none => exact err _ _ _
  | some row => exact ok w' w'' row later later'

theorem climbs_openBalances {currencies : List Currency} (opens : Opens customerId l)
    (fresh : ¬ Tables.hasCustomer w.db customerId) :
    engine.climbs acquisition (currencies.forM fun c => do let _ ← ensureBalance customerId c) Protocol.anyhow w l := by
  induction currencies generalizing w l with
  | nil => trivial
  | cons c rest ih =>
      refine Protocol.climbs_bind anyhow_error (Protocol.climbs_bind onOk_error
        (climbs_ensureBalance (fun w' later => ?_) onOk_error fun w' w'' row later later' => ?_))
      · exact opens.allows (opens.fresh fresh later) fun r member => ⟨c, claims_insertBalance member⟩
      · exact ih (opens.wrote w'.db) ((opens.wrote w'.db).fresh (opens.fresh fresh later) later')

theorem createCustomer_climbs : engine.climbs acquisition (program (.createCustomer customerId)) Protocol.anyhow w {} := by
  refine Protocol.climbs_bind_still (Protocol.climbs_bind (fun _ _ _ => trivial) (climbs_flush
    (fun _ _ => LockOrder.allows_first) (fun _ _ _ => trivial) fun w' later ok => ?_)) fun _ => trivial
  have opens : Opens customerId (({} : Local fx).wrote (Statement.insertCustomer customerId) w'.db) :=
    ⟨List.mem_append_left _ List.mem_cons_self, fun r member => .inl (List.mem_singleton.mp member)⟩
  exact Protocol.climbs_bind_still (climbs_openBalances opens (violates_eq_none.mp ok)) fun _ =>
    still_commitAll.bind fun _ => still_reload.bind fun _ => trivial

/-- Balances that are there are not asked for. -/
theorem climbs_ensureBalances {currencies : List Currency} (known : Tables.hasCustomer w.db customerId)
    (clean : ∀ db, Accounts db → db.hasCustomer customerId → l.view db = db) (none : l.held = []) :
    engine.climbs acquisition (currencies.forM fun c => do let _ ← ensureBalance customerId c) Protocol.anyhow w l := by
  induction currencies generalizing w l with
  | nil => trivial
  | cons c rest ih =>
      refine Protocol.climbs_bind anyhow_error (Protocol.climbs_bind onOk_error
        (climbs_ensureBalance (fun w' later => none ▸ LockOrder.allows_first) (fun _ _ _ => trivial)
          fun w' w'' row later later' => ?_))
      have still := later.interfere.grown.customer known
      have present : (Tables.balance (l.view w'.db) customerId c).isSome := by
        rw [clean _ later.inv.accounts still]
        exact later.inv.accounts.opened _ still c
      rw [wrote_ensured present]
      refine ih (later'.interfere.grown.customer still) (fun db accounts has => ?_) none
      have same := clean db accounts has
      rw [view_ensured (by rw [same]; exact accounts.opened _ has c), same]

theorem getBalances_climbs : engine.climbs acquisition (program (.getBalances customerId)) Protocol.anyhow w {} := by
  refine Protocol.climbs_bind_still (Protocol.climbs_bind (fun _ _ _ => trivial) (Protocol.climbs_and
    (K := fun _ _ => True) (Protocol.climbs_still (still_assertCustomerExists _))
    (wp_assertCustomerExists (fun _ _ _ => trivial) fun w' later known => ?_))) fun _ => trivial
  exact Protocol.climbs_bind_still (climbs_ensureBalances known (fun _ _ _ => rfl) rfl)
    fun _ => (still_select _).bind fun _ => still_ofExcept _

/-- A row that exists is locked. -/
theorem climbs_getBalanceForUpdate {currency : Currency} {Q : Except PyError BalanceRow → Assertion fx}
    (allowed : ∀ w', engine.Later l.held w w' → acquisition.Allows w'.db l.held [.balance customerId currency])
    (err : ∀ e w l, Q (.error e) w l)
    (ok : ∀ w' row, engine.Later l.held w w' → Q (.ok row) w' (l.acquire [.balance customerId currency])) :
    engine.climbs acquisition (getBalanceForUpdate customerId currency) Q w l := by
  refine Protocol.climbs_bind err (Protocol.climbs_selectForUpdate (fun w' later => ?_) (fun _ _ => trivial)
    fun w' later => ?_)
  · refine ⟨(allowed w' later).1, fun r member => ?_⟩
    split at member
    · exact (allowed w' later).2 r member
    · cases member
  · dsimp only
    generalize Tables.balance (l.view w'.db) customerId currency = found
    cases found with
    | none => exact err _ _ _
    | some row => exact ok w' row later

/-- The session holds nothing but balances of a known customer and resources without a gate,
all of rank below `n`. -/
structure Below (customerId : Uuid) (n : ℕ) (w : World fx) (l : Local fx) : Prop where
  known : Tables.hasCustomer w.db customerId
  held : ∀ r ∈ l.held, r.rank < n ∧ ((∀ db, Tables.gate db r = none) ∨ ∃ c, r = .balance customerId c)

theorem Below.later {n : ℕ} {w' : World fx} (h : Below customerId n w l) (later : engine.Later l.held w w') :
    Below customerId n w' l :=
  ⟨later.interfere.grown.customer h.known, h.held⟩

omit [Settings] in
/-- It may ask for what ranks above. -/
theorem Below.allows {n : ℕ} (h : Below customerId n w l) {rows : List Resource}
    (above : ∀ r ∈ rows, r ∈ l.held ∨ n ≤ r.rank) : acquisition.Allows w.db l.held rows := by
  refine ⟨fun r member g some => ?_, fun r member => ?_⟩
  · rcases (h.held r member).2 with none | ⟨c, rfl⟩
    · exact absurd ((none w.db).symm.trans some) nofun
    · exact absurd ((if_pos h.known).symm.trans some) nofun
  · rcases above r member with own | above
    · exact .inl own
    · exact .inr (.inr fun r' member' => lt_of_lt_of_le (h.held r' member').1 above)

/-- So it inserts one row after the other. -/
theorem Below.flush {n m : ℕ} (h : Below customerId n w l) {s : Statement} {pending : List Statement} (le : n ≤ m)
    (claims : ∀ db, ∀ r ∈ s.claims db, r ∈ l.held ∨ n ≤ r.rank ∧ r.rank < m ∧ ∀ db, Tables.gate db r = none)
    {Q : Except PyError Unit → Assertion fx} (err : ∀ e w l, Q (.error e) w l)
    (ok : ∀ w' l', Below customerId m w' l' → l.held ⊆ l'.held →
      engine.climbs acquisition (FxEngine.flush pending) Q w' l') :
    engine.climbs acquisition (FxEngine.flush (s :: pending)) Q w l := by
  refine climbs_flush (fun w' later => ?_) err fun w' later _ => ?_
  · exact (h.later later).allows fun r member => (claims _ r member).imp_right And.left
  · refine ok w' _ ⟨(h.later later).known, fun r member => ?_⟩ (List.subset_append_right _ _)
    rcases List.mem_append.mp member with new | old
    · rcases claims _ r new with own | ⟨-, below, gate⟩
      · exact ⟨lt_of_lt_of_le (h.held r own).1 le, (h.held r own).2⟩
      · exact ⟨below, .inl gate⟩
    · exact ⟨lt_of_lt_of_le (h.held r old).1 le, (h.held r old).2⟩

omit [Platform] [Settings] in
theorem rank_balance (currency : Currency) : (Resource.balance customerId currency).rank < 6 := by
  cases currency <;> simp [Resource.rank, Currency.rank]

end Customers

/-! ## Credits -/

section Credit

variable {adjustmentId customerId : Uuid} {currency : Currency} {amount : Json} {w : World fx}

theorem creditBalance_climbs : engine.climbs acquisition
    (program (.creditBalance adjustmentId customerId currency amount)) Protocol.anyhow w {} := by
  refine Protocol.climbs_bind anyhow_error (Protocol.climbs_ofExcept ?_)
  cases positiveDecimal "amount" amount with
  | error e => trivial
  | ok d =>
  refine Protocol.climbs_bind_still ?_ fun _ => trivial
  refine Protocol.climbs_bind anyhow_error (Protocol.climbs_and (K := fun _ _ => True)
    (Protocol.climbs_still (still_assertCustomerExists _)) (wp_assertCustomerExists (fun _ _ _ => trivial) ?_))
  intro w₁ later₁ known₁
  refine Protocol.climbs_bind anyhow_error (Protocol.climbs_ofExcept ?_)
  cases arith (roundMoney d currency) with
  | error e => trivial
  | ok rounded =>
  refine Protocol.climbs_bind anyhow_error (climbs_ensureBalance (fun _ _ => LockOrder.allows_first) onOk_error ?_)
  intro w₂ w₃ _ later₂ later₃
  have known₂ := later₂.interfere.grown.customer known₁
  have there : (Tables.balance (({} : Local fx).view w₂.db) customerId currency).isSome :=
    later₂.inv.accounts.opened _ known₂ currency
  rw [wrote_ensured there] at later₃ ⊢
  have known₃ := later₃.interfere.grown.customer known₂
  refine Protocol.climbs_bind anyhow_error (climbs_getBalanceForUpdate (fun _ _ => LockOrder.allows_first) onOk_error ?_)
  intro w₄ row later₄
  have locked : Below customerId 6 w₄ ((ensured {} customerId currency).acquire [.balance customerId currency]) := by
    refine ⟨later₄.interfere.grown.customer known₃, fun r member => ?_⟩
    obtain rfl := List.mem_singleton.mp member
    exact ⟨rank_balance currency, .inr ⟨currency, rfl⟩⟩
  -- the adjustment and the entry rank above the balance
  refine Protocol.climbs_bind anyhow_error (locked.flush (m := 7) (by omega) (by simp [Statement.claims, Resource.rank, Tables.gate])
    onOk_error fun w₅ l₅ below₅ held₅ => ?_)
  refine Protocol.climbs_bind anyhow_error ?_
  rw [appendEntry]
  refine Protocol.climbs_ite (fun _ => trivial) fun _ => ?_
  refine below₅.flush (m := 9) (by omega) (by simp [Statement.claims, Resource.rank, Tables.gate]) onOk_error
    fun w₆ l₆ below₆ held₆ => ?_
  refine Protocol.climbs_bind anyhow_error (Protocol.climbs_ofExcept ?_)
  cases arith (roundMoney (row.balance + rounded) currency) with
  | error e => trivial
  | ok updated =>
  have own : .balance customerId currency ∈ l₆.held := held₆ (held₅ (List.mem_cons_self))
  refine Protocol.climbs_bind anyhow_error (below₆.flush (m := 9) le_rfl (by simp [Statement.claims, own]) onOk_error
    fun w₇ l₇ _ _ => ?_)
  refine Protocol.climbs_still (still_commitAll.bind fun _ => (still_getBalance _ _).bind fun found => ?_)
  cases found <;> trivial

end Credit

/-! ## Quotes -/

section Quoting

variable {quoteId customerId : Uuid} {source destination : Currency} {sourceAmount : Json} {w : World fx}
  {l : Local fx}

theorem climbs_insertLegs {legs : List QuoteLeg} (behind : Behind (.quote quoteId) l)
    (named : ∀ leg ∈ legs, leg.quoteId = quoteId) :
    engine.climbs acquisition (flush (legs.map .insertLeg)) Protocol.anyhow w l := by
  induction legs generalizing w l with
  | nil => trivial
  | cons leg legs ih =>
      have below : ∀ db db', ∀ r ∈ (Statement.insertLeg leg).claims db, Tables.gate db' r = some (.quote quoteId) := by
        simp [Statement.claims, Tables.gate, named leg List.mem_cons_self]
      refine climbs_flush (fun w' _ => behind.allows below _ _) anyhow_error fun w' _ _ => ?_
      exact ih (behind.wrote below _) fun leg' member => named leg' (List.mem_cons_of_mem _ member)

omit [Settings] in
theorem still_loadCurrentRateBook : loadCurrentRateBook.Still :=
  (still_select _).bind fun _ => (still_ofExcept _).bind fun _ => trivial

theorem createQuote_climbs : engine.climbs acquisition
    (program (.createQuote quoteId customerId source destination sourceAmount)) Protocol.anyhow w {} := by
  refine Protocol.climbs_still_bind (still_ofExcept _) rfl fun amount w₁ l₁ none₁ => ?_
  refine Protocol.climbs_bind_still ?_ fun _ => trivial
  refine Protocol.climbs_ite (fun _ => trivial) fun _ => ?_
  refine Protocol.climbs_still_bind (still_assertCustomerExists _) none₁ fun _ w₂ l₂ none₂ => ?_
  refine Protocol.climbs_still_bind still_loadCurrentRateBook none₂ fun book w₃ l₃ none₃ => ?_
  cases book.lastUpdatedAt with
  | none => trivial
  | some lastUpdatedAt =>
  refine Protocol.climbs_still_bind still_now none₃ fun checkedAt w₄ l₄ none₄ => ?_
  refine Protocol.climbs_still_bind (still_ofExcept _) none₄ fun oldest w₄ l₄ none₄ => ?_
  refine Protocol.climbs_ite (fun _ => trivial) fun _ => ?_
  refine Protocol.climbs_still_bind (still_ofExcept _) none₄ fun terms w₅ l₅ none₅ => ?_
  refine Protocol.climbs_still_bind still_now none₅ fun createdAt w₆ l₆ none₆ => ?_
  refine Protocol.climbs_bind anyhow_error (climbs_flush (fun _ _ => none₆ ▸ LockOrder.allows_first) onOk_error
    fun w₇ _ _ => ?_)
  have behind : Behind (.quote quoteId) (l₆.wrote
      (Statement.insertQuote (terms.toQuote quoteId customerId source destination createdAt)) w₇.db) := by
    constructor <;> simp [Local.wrote, Statement.claims, none₆, Terms.toQuote, Tables.gate]
  refine Protocol.climbs_bind anyhow_error (Protocol.climbs_ofExcept ?_)
  cases made : legRows quoteId 0 terms.legs with
  | error e => trivial
  | ok legs =>
  refine Protocol.climbs_bind_still (climbs_insertLegs behind (legRows_quoteId made)) fun _ => ?_
  exact still_commitAll.bind fun _ => (still_inc _).bind fun _ => still_reload.bind fun _ => trivial

end Quoting

/-! ## Refreshes -/

section Refresh

variable {refreshId failureId : Uuid} {snapshotIds : ℕ → Uuid} {answer : ProviderAnswer} {w : World fx} {l : Local fx}

theorem climbs_storePairRows {refresh : Uuid} {providerTimestamp : Option Datetime} {fetchedAt : Instant}
    {buy sell : ℤ} {rows : List (Uuid × RateRow)} {Q : Except PyError Unit → Assertion fx}
    (behind : Behind .rateRefreshLock l) (err : ∀ e w l, Q (.error e) w l) (ok : ∀ w l, Q (.ok ()) w l) :
    engine.climbs acquisition (storePairRows refresh providerTimestamp fetchedAt buy sell rows) Q w l := by
  induction rows generalizing w l with
  | nil => exact ok w l
  | cons row rows ih =>
      refine Protocol.climbs_bind err (Protocol.climbs_bind onOk_error (climbs_flush
        (fun w' _ => behind.allows (by simp [Statement.claims, Tables.gate]) _ _) onOk_error fun w' _ _ => ?_))
      have behind' := behind.wrote (s := Statement.insertSnapshot ⟨row.1, refresh, row.2.baseCurrency,
        row.2.quoteCurrency, row.2.midRate, providerTimestamp, fetchedAt⟩) (by simp [Statement.claims, Tables.gate]) w'.db
      have below : ∀ rate : CurrentRate, ∀ db db', ∀ r ∈ (Statement.upsertCurrentRate rate).claims db,
          Tables.gate db' r = some .rateRefreshLock := by
        simp [Statement.claims, Tables.gate]
      refine Protocol.climbs_execute (fun w'' _ => behind'.allows (below _) w''.db w''.db) (fun _ _ _ _ => trivial)
        fun w'' _ _ => ?_
      exact ih (behind'.wrote (below _) w''.db)

theorem createRefreshFailure_climbs {fetchedAt : Instant} {code message : String} (none : l.held = []) :
    engine.climbs acquisition (createRefreshFailure refreshId fetchedAt code message) Protocol.anyhow w l := by
  refine Protocol.climbs_bind_still (climbs_flush (fun _ _ => none ▸ LockOrder.allows_first) anyhow_error ?_)
    fun _ => trivial
  exact fun _ _ _ => trivial

/-- The handler rolls back first, so it asks for the row of the failure holding nothing. -/
theorem refreshFailed_climbs {started : Instant} {e : PyError} :
    engine.climbs acquisition (refreshFailed failureId started e) Protocol.anyhow w l := by
  have recorded : ∀ error, engine.climbs acquisition
      ((recordFailedRefresh failureId started error) >>= fun _ => (.raise (.api error) : Tx RefreshResult))
      Protocol.anyhow w l := by
    intro error
    refine Protocol.climbs_bind_still (Protocol.climbs_bind anyhow_error fun w' _ => ?_) fun _ => trivial
    refine Protocol.climbs_bind_still (createRefreshFailure_climbs rfl) fun _ => ?_
    exact still_commitAll.bind fun _ => (still_inc _).bind fun _ => still_reload
  unfold refreshFailed
  split
  · exact recorded _
  · exact Protocol.climbs_ite (fun _ => recorded _) fun _ => trivial

theorem refreshRates_climbs : engine.climbs acquisition
    (program (.refreshRates refreshId failureId snapshotIds answer)) Protocol.anyhow w {} := by
  refine Protocol.climbs_bind_still ?_ fun _ => trivial
  refine Protocol.climbs_bind anyhow_error (Protocol.climbs_selectForUpdate (fun _ _ => LockOrder.allows_first)
    (fun _ _ => trivial) fun w₁ _ => ?_)
  refine Protocol.climbs_bind anyhow_error fun w₂ _ => ?_
  have failed : ∀ (e : PyError) (w' : World fx) (l' : Local fx), engine.climbs acquisition
      (refreshFailed failureId w₂.now e) Protocol.anyhow w' l' := fun _ _ _ => refreshFailed_climbs
  refine Protocol.climbs_bind anyhow_error (Protocol.climbs_attempt (Protocol.climbs_bind failed
    (Protocol.climbs_ofExcept ?_)))
  cases fetch answer with
  | error e => trivial
  | ok provided =>
  refine Protocol.climbs_bind failed (Protocol.climbs_bind onOk_error (Protocol.climbs_ofExcept ?_))
  cases refreshRows provided with
  | error e => trivial
  | ok rows =>
  -- the row of the refresh, then what is behind the lock
  refine Protocol.climbs_bind onOk_error (climbs_flush (fun w' _ => ?_) onOk_error fun w₃ _ _ => ?_)
  · refine ⟨?_, fun r member => .inr (.inr ?_)⟩
    · simp [LockOrder.Gated, acquisition, Tables.gate, Local.acquire, Local.read]
    · obtain rfl := List.mem_singleton.mp member
      simp [acquisition, Resource.rank, Local.acquire, Local.read]
  refine Protocol.climbs_bind onOk_error (climbs_storePairRows ⟨?_, ?_⟩ onOk_error fun w₄ l₄ => ?_)
  · simp [Local.wrote, Local.acquire, Local.read]
  · simp [Local.wrote, Statement.claims, Local.acquire, Local.read, Tables.gate]
  have still : (recordSuccessfulRefresh ⟨refreshId, .completed, some provided.baseCurrency,
      provided.providerTimestamp, w₂.now, rows.length, none, none⟩).Still :=
    still_commitAll.bind fun _ => (still_inc _).bind fun _ => still_reload.bind fun _ => still_ofExcept _
  refine (Protocol.climbs_mono (Protocol.climbs_still still) fun r w' l' _ => ?_ :
    engine.climbs acquisition (recordSuccessfulRefresh _) _ w₄ l₄)
  cases r with
  | error e => exact failed e w' l'
  | ok result => trivial

end Refresh

/-! ## Executions -/

section Execution

variable {executionId quoteId : Uuid} {key : String} {q : Quote} {w : World fx} {l : Local fx}

omit [Settings] in
theorem Below.lock {customerId : Uuid} {c : Currency} {n : ℕ} (h : Below customerId n w l) (le : n ≤ 2 + c.rank) :
    Below customerId (3 + c.rank) w (l.acquire [.balance customerId c]) := by
  refine ⟨h.known, fun r member => ?_⟩
  rcases List.mem_cons.mp member with rfl | old
  · exact ⟨by simp only [Resource.rank]; omega, .inr ⟨c, rfl⟩⟩
  · exact ⟨by have := (h.held r old).1; omega, (h.held r old).2⟩

/-- The session sees the balances of the customer. -/
def Sees (customerId : Uuid) (l : Local fx) : Prop :=
  ∀ db : Tables, Accounts db → db.hasCustomer customerId → ∀ c, (Tables.balance (l.view db) customerId c).isSome

/-- A balance that exists is not asked for. -/
theorem Below.ensure {customerId : Uuid} {c : Currency} {n : ℕ} (h : Below customerId n w l) (sees : Sees customerId l)
    {Q : Except PyError BalanceRow → Assertion fx} (err : ∀ e w l, Q (.error e) w l)
    (ok : ∀ w' row, Below customerId n w' (ensured l customerId c) → Sees customerId (ensured l customerId c) →
      Q (.ok row) w' (ensured l customerId c)) :
    engine.climbs acquisition (ensureBalance customerId c) Q w l := by
  refine climbs_ensureBalance (fun w' later => ?_) err fun w' w'' row later later' => ?_
  · refine (h.later later).allows fun r member => ?_
    rw [Statement.claims, if_pos (sees _ later.inv.accounts (h.later later).known c)] at member
    cases member
  · rw [wrote_ensured (sees _ later.inv.accounts (h.later later).known c)] at later' ⊢
    refine ok w'' row ⟨((h.later later).later later').known, h.held⟩ fun db accounts known c' => ?_
    rw [view_ensured (sees db accounts known c)]
    exact sees db accounts known c'

/-- Balances that exist are locked one after the other. -/
theorem lockBalances_climbs (differ : q.sourceCurrency ≠ q.destinationCurrency) (sees : Sees q.customerId l)
    (below : Below q.customerId 2 w l) : engine.climbs acquisition (lockBalances q) Protocol.anyhow w l := by
  have order := lockOrder_rank differ
  unfold lockBalances
  generalize lockOrder q.sourceCurrency q.destinationCurrency = ordered at order ⊢
  obtain ⟨first, second⟩ := ordered
  refine Protocol.climbs_bind anyhow_error (below.ensure sees onOk_error fun w₁ _ below₁ sees₁ => ?_)
  refine Protocol.climbs_bind anyhow_error (below₁.ensure sees₁ onOk_error fun w₂ _ below₂ _ => ?_)
  refine Protocol.climbs_bind anyhow_error (climbs_getBalanceForUpdate (fun w' later => ?_) onOk_error ?_)
  · exact (below₂.later later).allows (by simp [Resource.rank])
  intro w₃ _ later₃
  have below₃ := (below₂.later later₃).lock (c := first) (by omega)
  refine Protocol.climbs_bind_still (climbs_getBalanceForUpdate (fun w' later => ?_) anyhow_error ?_) fun _ => trivial
  · refine (below₃.later later).allows fun r member => .inr ?_
    obtain rfl := List.mem_singleton.mp member
    simp only [Resource.rank] at order ⊢
    omega
  · exact fun _ _ _ => trivial

/-- The rows of a settlement rank above the balances, and the balances are its own. -/
theorem settle_climbs {locked : Currency → Decimal} (below : Below q.customerId 6 w l)
    (source : .balance q.customerId q.sourceCurrency ∈ l.held)
    (destination : .balance q.customerId q.destinationCurrency ∈ l.held)
    (own : .idempotencyKey executionsEndpoint key ∈ l.held) :
    engine.climbs acquisition (settle executionId key q locked) Protocol.anyhow w l := by
  refine Protocol.climbs_bind anyhow_error (below.flush (m := 7) (by omega)
    (by simp [Statement.claims, Resource.rank, Tables.gate]) onOk_error fun w₁ l₁ below₁ held₁ => ?_)
  refine Protocol.climbs_bind anyhow_error ?_
  rw [appendEntry]
  refine Protocol.climbs_ite (fun _ => trivial) fun _ => ?_
  refine below₁.flush (m := 8) (by omega) (by simp [Statement.claims, Resource.rank, Tables.gate]) onOk_error
    fun w₂ l₂ below₂ held₂ => ?_
  refine Protocol.climbs_bind anyhow_error (Protocol.climbs_ofExcept ?_)
  cases arith (roundMoney (locked q.sourceCurrency - q.sourceAmount) q.sourceCurrency) with
  | error e => trivial
  | ok debited =>
  have to₂ := List.Subset.trans held₁ held₂
  refine Protocol.climbs_bind anyhow_error (Protocol.climbs_and (K := fun _ _ => True)
    (Protocol.climbs_still still_mayFail) (Protocol.wp_mayFail (fun _ _ _ => trivial) fun w₃ later₃ => ?_))
  have below₃ := below₂.later later₃
  refine Protocol.climbs_bind anyhow_error ?_
  rw [appendEntry]
  refine Protocol.climbs_ite (fun _ => trivial) fun _ => ?_
  refine below₃.flush (m := 8) le_rfl (by simp [Statement.claims, to₂ source]) onOk_error fun w₄ l₄ below₄ held₄ => ?_
  refine below₄.flush (m := 9) (by omega) (by simp [Statement.claims, Resource.rank, Tables.gate]) onOk_error
    fun w₅ l₅ below₅ held₅ => ?_
  refine Protocol.climbs_bind anyhow_error (Protocol.climbs_ofExcept ?_)
  generalize arith (roundMoney _ q.destinationCurrency) = credited
  cases credited with
  | error e => trivial
  | ok credited =>
  have to₅ := List.Subset.trans to₂ (List.Subset.trans held₄ held₅)
  refine Protocol.climbs_bind anyhow_error fun w₆ later₆ => ?_
  have below₆ : Below q.customerId 9 w₆ (l₅.read w₆.now) :=
    ⟨(below₅.later later₆).known, below₅.held⟩
  refine Protocol.climbs_bind anyhow_error (below₆.flush (m := 9) le_rfl ?_ onOk_error fun w₇ l₇ below₇ held₇ => ?_)
  · simp [Statement.claims, Local.read, to₅ destination]
  refine below₇.flush (m := 9) le_rfl ?_ onOk_error fun w₈ l₈ _ _ => ?_
  · simp [Statement.claims, held₇ (to₅ own)]
  exact Protocol.climbs_still (still_commitAll.bind fun _ => (still_inc _).bind fun _ => still_reload.bind fun _ => trivial)

omit [Settings] in
theorem still_validateQuote : (validateQuote quoteId q).Still := by
  refine (still_select _).bind fun _ => still_ite (fun _ => ?_) fun _ => still_now.bind fun _ => ?_
  · exact still_rollbackAll.bind fun _ => trivial
  · refine still_ite (fun _ => ?_) fun _ => trivial
    exact still_rollbackAll.bind fun _ => (still_inc _).bind fun _ => trivial

omit [Settings] in
theorem still_executionFailed {α : Type} {quote : Option Quote} {e : PyError} :
    (executionFailed quote e : Tx α).Still := by
  refine still_rollbackAll.bind fun _ => (still_inc _).bind fun _ => ?_
  cases quote with
  | none => trivial
  | some q => exact still_reload.bind fun _ => trivial

/-- The work on a quote that is locked. -/
theorem executeLocked_climbs (inv : Invariant w.db w.now) (stored : Tables.quote w.db q.id = some q) :
    engine.climbs acquisition (executeLocked executionId q.id key q) Protocol.anyhow w (claimed key q.id) := by
  obtain ⟨known, rows, refresh, -, priced⟩ := inv.quoted.priced q (Table.row_some stored).1
  refine Protocol.climbs_bind anyhow_error (Protocol.climbs_and (K := fun _ _ => True)
    (Protocol.climbs_still still_validateQuote) ?_)
  refine Protocol.wp_bind (Protocol.wp_select (fun _ _ _ => trivial) fun w₁ later₁ => ?_)
  refine Protocol.wp_ite (fun _ _ _ => trivial) fun _ => Protocol.wp_bind (Protocol.wp_now fun w₂ later₂ => ?_)
  refine Protocol.wp_ite (fun _ _ _ _ _ => trivial) fun _ => ?_
  -- the balances
  have below : Below q.customerId 2 w₂ ((claimed key q.id).read w₂.now) := by
    refine ⟨(later₁.trans later₂).interfere.grown.customer known, fun r member => ?_⟩
    simp only [claimed, Local.read, List.mem_cons, List.not_mem_nil, or_false] at member
    rcases member with rfl | rfl <;> exact ⟨by simp [Resource.rank], .inl fun _ => rfl⟩
  have sees : Sees q.customerId ((claimed key q.id).read w₂.now) := fun _ accounts known => accounts.opened _ known
  refine Protocol.climbs_bind anyhow_error (Protocol.climbs_and (K := fun _ _ => True)
    (lockBalances_climbs priced.differ sees below)
    (wp_lockBalances priced.differ (fun _ _ => rfl) below.known (fun _ _ _ _ _ => trivial) ?_))
  intro w₃ locked held other later₃ _ _ _ _
  refine Protocol.climbs_ite (fun _ => ?_) fun _ => ?_
  · exact Protocol.climbs_still (still_rollbackAll.bind fun _ => (still_inc _).bind fun _ => trivial)
  have order := lockOrder_cases q.sourceCurrency q.destinationCurrency
  refine settle_climbs ⟨later₃.interfere.grown.customer below.known, fun r member => ?_⟩ ?_ ?_ ?_
  · simp only [locking, ensured, Local.acquire, List.cons_append, List.nil_append, List.mem_cons] at member
    rcases member with rfl | rfl | old
    · exact ⟨rank_balance _, .inr ⟨_, rfl⟩⟩
    · exact ⟨rank_balance _, .inr ⟨_, rfl⟩⟩
    · exact ⟨lt_trans (below.held r old).1 (by omega), (below.held r old).2⟩
  · rcases order with order | order <;> simp [locking, ensured, Local.acquire, order]
  · rcases order with order | order <;> simp [locking, ensured, Local.acquire, order]
  · simp [locking, ensured, Local.acquire, Local.read, claimed]

/-- The guarded block, from the claimed key on. -/
theorem executeClaimed_climbs {db : Tables} : engine.climbs acquisition (executeClaimed executionId quoteId key)
    Protocol.anyhow w (({} : Local fx).wrote (Statement.insertIdempotencyKey
      { endpoint := executionsEndpoint, key, requestHash := executionRequestHash quoteId }) db) := by
  refine Protocol.climbs_bind anyhow_error (Protocol.climbs_attempt (Protocol.climbs_selectForUpdate ?_ ?_ ?_))
  · intro w' _
    refine ⟨fun r member g gate => ?_, fun r member => .inr (.inr fun r' member' => ?_)⟩
    · obtain rfl := List.mem_singleton.mp member
      cases gate
    · obtain rfl := List.mem_singleton.mp member'
      split at member
      · obtain rfl := List.mem_singleton.mp member
        simp [acquisition, Resource.rank]
      · cases member
  · exact fun _ _ => Protocol.climbs_still still_executionFailed
  intro w₁ later₁
  dsimp only
  generalize found : Tables.quote (Local.view _ w₁.db) quoteId = stored
  replace found : Tables.quote w₁.db quoteId = stored := found
  cases stored with
  | none => exact Protocol.climbs_still (still_rollbackAll.bind fun _ => still_executionFailed)
  | some q =>
      obtain rfl : q.id = quoteId := (Table.row_some found).2
      refine Protocol.climbs_bind anyhow_error (Protocol.climbs_attempt (Protocol.climbs_mono
        (executeLocked_climbs later₁.inv found) fun r w' l' _ => ?_))
      cases r with
      | error e => exact Protocol.climbs_still still_executionFailed
      | ok payload => trivial

/-- The key is claimed by a session that holds nothing. -/
theorem claimed_climbs : engine.climbs acquisition (do
    claimKey key (executionRequestHash quoteId)
    let payload ← executeClaimed executionId quoteId key
    pure (payload, false) : Tx (Json × Bool)) Protocol.anyhow w {} := by
  refine Protocol.climbs_bind anyhow_error (Protocol.climbs_bind onOk_error (Protocol.climbs_attempt
    (climbs_flush (fun _ _ => LockOrder.allows_first) (fun e w' l' => ?_) fun w' _ _ => ?_)))
  · cases e with
    | integrityError => exact fun _ _ _ _ => trivial
    | _ => trivial
  · exact Protocol.climbs_bind_still executeClaimed_climbs fun _ => trivial

theorem executeQuote_climbs : engine.climbs acquisition (program (.executeQuote executionId quoteId key))
    Protocol.anyhow w {} := by
  refine Protocol.climbs_bind_still ?_ fun _ => (still_ofExcept _).bind fun _ => trivial
  refine Protocol.climbs_ite (fun _ => trivial) fun _ => ?_
  refine Protocol.climbs_bind anyhow_error (Protocol.climbs_and (K := fun _ _ => True)
    (Protocol.climbs_still (still_select _)) (Protocol.wp_select (fun _ _ _ => trivial) fun w₁ _ => ?_))
  generalize Tables.idempotencyKey (Local.view _ w₁.db) executionsEndpoint key = existing
  cases existing with
  | none => exact claimed_climbs
  | some row =>
      dsimp only
      refine Protocol.climbs_bind anyhow_error (Protocol.climbs_ite (fun _ _ _ => trivial) fun _ => ?_)
      split
      · refine Protocol.climbs_ite (fun _ _ _ => trivial) fun _ => claimed_climbs
      · exact claimed_climbs

end Execution

/-! ## All calls -/

theorem still_readyz : (readyz : Tx Reply).Still := by
  refine still_reload.attempt.bind fun found => ?_
  cases found with
  | error e => trivial
  | ok _ =>
      refine Still.bind (Still.bind ?_ fun latest => ?_) fun rates => still_ite (fun _ => trivial) fun _ => trivial
      · exact (still_select _).bind fun newest => still_ite (fun _ => trivial) fun _ => trivial
      cases latest with
      | none => trivial
      | some latest =>
          exact still_now.bind fun _ => (still_ofExcept _).bind fun _ => still_ite (fun _ => trivial) fun _ => trivial

/-- Every call asks for its locks in order. -/
theorem program_climbs (call : Call) (w : World fx) : engine.climbs acquisition (program call) Protocol.anyhow w {} := by
  cases call with
  | createCustomer => exact createCustomer_climbs
  | getBalances => exact getBalances_climbs
  | creditBalance => exact creditBalance_climbs
  | createQuote => exact createQuote_climbs
  | executeQuote => exact executeQuote_climbs
  | refreshRates => exact refreshRates_climbs
  | readyz => exact Protocol.climbs_still still_readyz

end FxEngine
