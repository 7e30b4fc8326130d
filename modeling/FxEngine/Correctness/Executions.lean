import FxEngine.Correctness.Customers
import FxEngine.Correctness.Pricing
import FxEngine.Correctness.Responses

/-! # Executions meet their specification -/

namespace FxEngine

open Numeric Transactions Program

variable [Platform] [Settings]

/-! ## The tables an execution leaves -/

section Settlement

variable {executionId : Uuid} {key requestHash : String} {q : Quote} {debited credited : Decimal}
  {payload : Json} {completedAt : Instant}

/-- The writes of an execution, in the order of its flushes. -/
def settlementWrites (executionId : Uuid) (key requestHash : String) (q : Quote) (debited credited : Decimal)
    (payload : Json) (completedAt : Instant) : List Statement :=
  [.insertIdempotencyKey { endpoint := executionsEndpoint, key, requestHash },
    .insertExecution ⟨executionId, q.id, q.customerId⟩, .insertLedger (debitEntry executionId q),
    .updateBalance q.customerId q.sourceCurrency debited, .insertLedger (creditEntry executionId q),
    .updateBalance q.customerId q.destinationCurrency credited,
    .completeIdempotencyKey executionsEndpoint key payload 200 completedAt]

omit [Platform] [Settings] in
/-- Completing the row that was inserted last. -/
theorem complete_inserted {keys : List IdempotencyKey} {f : IdempotencyKey → IdempotencyKey}
    {row : IdempotencyKey} (fresh : Table.row IdempotencyKey.slot row.slot keys = none) :
    Table.modify IdempotencyKey.slot row.slot f (keys ++ [row]) = keys ++ [f row] := by
  rw [Table.modify, List.map_append]
  congr 1
  · conv_rhs => rw [← List.map_id keys]
    exact List.map_congr_left fun other member => if_neg (Table.row_none.mp fresh other member)
  · simp

theorem settlement {db : Tables} (unclaimed : db.idempotencyKey executionsEndpoint key = none) :
    fx.overlay (settlementWrites executionId key requestHash q debited credited payload completedAt) db =
      (Action.execute executionId q debited credited (completedKey key requestHash payload completedAt)).apply
        db := by
  let row : IdempotencyKey := { endpoint := executionsEndpoint, key, requestHash }
  let complete (row : IdempotencyKey) : IdempotencyKey := { row with
    responsePayload := some (Platform.jsonb payload)
    statusCode := some 200
    completedAt := some completedAt }
  have completed : Table.modify IdempotencyKey.slot row.slot complete (db.idempotencyKeys ++ [row]) =
      db.idempotencyKeys ++ [complete row] := complete_inserted unclaimed
  calc fx.overlay (settlementWrites executionId key requestHash q debited credited payload completedAt) db
      = { (db.setBalance q.customerId q.sourceCurrency debited).setBalance
            q.customerId q.destinationCurrency credited with
          executions := db.executions ++ [⟨executionId, q.id, q.customerId⟩]
          ledger := db.ledger ++ [debitEntry executionId q] ++ [creditEntry executionId q]
          idempotencyKeys := Table.modify IdempotencyKey.slot row.slot complete (db.idempotencyKeys ++ [row]) } := rfl
    _ = (Action.execute executionId q debited credited
          (completedKey key requestHash payload completedAt)).apply db := by
        rw [completed, List.append_assoc]
        rfl

end Settlement

/-! ## An execution on its own -/

omit [Platform] [Settings] in
/-- Both orders of locking read the same two balances. -/
theorem lockOrder_cases (source destination : Currency) :
    lockOrder source destination = (source, destination) ∨
      lockOrder source destination = (destination, source) := by
  rw [lockOrder]
  split
  · exact .inl rfl
  · exact .inr rfl

/-- What an execution has read when both balances are locked. -/
structure Locked (db : Tables) (key : String) (q : Quote) (held other : ℤ) (checkedAt : Instant) : Prop where
  invariant : ∃ now, Invariant db now
  keyGiven : key ≠ ""
  keyFits : key.length ≤ idempotencyKeyMaxLength
  unclaimed : db.idempotencyKey executionsEndpoint key = none
  stored : db.quote q.id = some q
  unexecuted : db.executionOf q.id = none
  unexpired : checkedAt < q.expiresAt
  source : db.balance q.customerId q.sourceCurrency = some ⟨q.customerId, q.sourceCurrency, cents held⟩
  destination : db.balance q.customerId q.destinationCurrency =
    some ⟨q.customerId, q.destinationCurrency, cents other⟩

/-- The facts on which an execution succeeds. -/
structure Executable (db : Tables) (executionId : Uuid) (key : String) (q : Quote)
    (held other spent received : ℤ) (checkedAt : Instant) : Prop extends
    Locked db key q held other checkedAt where
  fresh : db.execution executionId = none
  sourceValue : q.sourceAmount = cents spent
  destinationValue : q.destinationAmount = cents received
  sourcePositive : 0 < spent
  destinationPositive : 0 < received
  funded : spent ≤ held
  room : other + received < 10 ^ numericPrecision

omit [Platform] [Settings] in
/-- The ledger has no entries of an execution that does not exist. -/
theorem Posted.unposted {db : Tables} (h : Posted db) {executionId : Uuid} (fresh : db.execution executionId = none)
    (direction : Direction) : db.entry (.execution, executionId, direction) = none := by
  refine Table.row_none.mpr fun entry member same => ?_
  have none := @Posted.entriesOf_fresh _ h .execution executionId (fun _ => fresh) fun other => by cases other
  have inside := List.filter_eq_nil_iff.mp none entry member
  simp only [LedgerEntry.reference, Prod.mk.injEq] at same
  simp [same] at inside

/-! ### Stage by stage -/

section Stages

variable {s : Session fx} {key requestHash : String} {quoteId : Uuid} {q : Quote}

omit [Settings]

theorem exec_claimKey (ok : Statement.check (.insertIdempotencyKey
    { endpoint := executionsEndpoint, key, requestHash }) s.view = none) :
    (claimKey key requestHash).exec s = (.ok (), s.wrote (Statement.insertIdempotencyKey
      { endpoint := executionsEndpoint, key, requestHash })) := by
  have claimed := (exec_flush ok).trans (exec_flush_nil (s := s.wrote _))
  exact (exec_bind_ok (exec_attempt_ok claimed)).trans rfl

theorem exec_validateQuote {t t' : Instant} {rest : List Instant}
    (unexecuted : Tables.executionOf s.view quoteId = none) (clock : s.clock = t :: t' :: rest)
    (unexpired : t < q.expiresAt) :
    (validateQuote quoteId q).exec s = (.ok (), { s with clock := t' :: rest }) := by
  refine (exec_bind_ok (exec_select _ _)).trans ?_
  rw [unexecuted]
  have head : s.clock.headD 0 = t := by rw [clock, List.headD_cons]
  refine (exec_bind_ok (exec_now _)).trans ((exec_if_neg ?_).trans ?_)
  · rw [head]
    exact not_le.mpr unexpired
  · rw [clock]
    rfl

theorem exec_lockBalances {held other : Decimal} (differ : q.sourceCurrency ≠ q.destinationCurrency)
    (source : Tables.balance s.view q.customerId q.sourceCurrency = some ⟨q.customerId, q.sourceCurrency, held⟩)
    (destination : Tables.balance s.view q.customerId q.destinationCurrency =
      some ⟨q.customerId, q.destinationCurrency, other⟩) :
    ∃ s' locked, (lockBalances q).exec s = (.ok locked, s') ∧ s'.view = s.view ∧ s'.clock = s.clock ∧
      locked q.sourceCurrency = held ∧ locked q.destinationCurrency = other := by
  have ensure : ∀ {s : Session fx} {c : Currency} {row : BalanceRow},
      Tables.balance s.view q.customerId c = some row → (s.wrote (.insertBalance q.customerId c)).view = s.view :=
    fun found => (Session.view_wrote _ _).trans (apply_insertBalance (by rw [found]; rfl))
  -- whichever currency comes first
  have lock : ∀ {first second : Currency} {a b : BalanceRow},
      lockOrder q.sourceCurrency q.destinationCurrency = (first, second) →
      Tables.balance s.view q.customerId first = some a → Tables.balance s.view q.customerId second = some b →
      ∃ s', (lockBalances q).exec s =
          (.ok fun currency => if currency = second then b.balance else a.balance, s') ∧
        s'.view = s.view ∧ s'.clock = s.clock := by
    intro first second a b order foundFirst foundSecond
    let s₁ := s.wrote (Statement.insertBalance q.customerId first)
    let s₂ := s₁.wrote (Statement.insertBalance q.customerId second)
    have view₁ : s₁.view = s.view := ensure foundFirst
    have view₂ : s₂.view = s.view := (ensure (view₁ ▸ foundSecond)).trans view₁
    refine ⟨s₂, ?_, view₂, rfl⟩
    rw [lockBalances, order]
    refine (exec_bind_ok (exec_ensureBalance foundFirst)).trans ?_
    refine (exec_bind_ok (exec_ensureBalance (view₁ ▸ foundSecond))).trans ?_
    refine (exec_bind_ok (exec_getBalanceForUpdate (view₂ ▸ foundFirst))).trans ?_
    exact exec_bind_ok (exec_getBalanceForUpdate (view₂ ▸ foundSecond))
  rcases lockOrder_cases q.sourceCurrency q.destinationCurrency with order | order
  · obtain ⟨s', exec, view, clock⟩ := lock order source destination
    exact ⟨s', _, exec, view, clock, if_neg differ, if_pos rfl⟩
  · obtain ⟨s', exec, view, clock⟩ := lock order destination source
    exact ⟨s', _, exec, view, clock, if_pos rfl, if_neg differ.symm⟩

variable {db : Tables} {executionId : Uuid} {held other spent received : ℤ} {locked : Currency → Decimal}
  {completedAt : Instant} {rest : List Instant}

/-- The settlement of a claimed key, with both balances locked. -/
theorem exec_settle (differ : q.sourceCurrency ≠ q.destinationCurrency)
    (view : s.view = (Statement.insertIdempotencyKey
      { endpoint := executionsEndpoint, key, requestHash }).apply db)
    (clock : s.clock = completedAt :: rest) (stored : db.quote q.id = some q)
    (known : db.hasCustomer q.customerId) (unexecuted : db.executionOf q.id = none)
    (fresh : db.execution executionId = none)
    (unposted : ∀ direction, db.entry (.execution, executionId, direction) = none)
    (source : locked q.sourceCurrency = cents held) (destination : locked q.destinationCurrency = cents other)
    (sourceValue : q.sourceAmount = cents spent) (destinationValue : q.destinationAmount = cents received)
    (sourcePositive : 0 < spent) (destinationPositive : 0 < received) (funded : spent ≤ held)
    (heldFits : held < 10 ^ numericPrecision) (otherFits : 0 ≤ other)
    (room : other + received < 10 ^ numericPrecision) :
    ∃ s', (settle executionId key q locked).exec s =
        (.ok (executionResponse executionId q (cents (held - spent)) (cents (other + received))).modelDump, s') ∧
      s'.db = fx.overlay (settlementWrites executionId key requestHash q (cents (held - spent))
        (cents (other + received))
        (executionResponse executionId q (cents (held - spent)) (cents (other + received))).modelDump
        completedAt) db := by
  have heldSmall := natAbs_fits (sourcePositive.le.trans funded) heldFits
  have otherSmall : other.natAbs < 10 ^ numericPrecision := natAbs_fits otherFits (by omega)
  have spentSmall : spent < 10 ^ numericPrecision := by omega
  have receivedSmall : received < 10 ^ numericPrecision := by omega
  have debit : arith (roundMoney (locked q.sourceCurrency - q.sourceAmount) q.sourceCurrency) =
      .ok (cents (held - spent)) := by
    rw [source, sourceValue, roundMoney_sub q.sourceCurrency heldSmall (natAbs_fits sourcePositive.le spentSmall)]
    rfl
  have credit : arith (roundMoney (Function.update locked q.sourceCurrency (cents (held - spent))
      q.destinationCurrency + q.destinationAmount) q.destinationCurrency) = .ok (cents (other + received)) := by
    rw [Function.update_of_ne differ.symm, destination, destinationValue,
      roundMoney_add q.destinationCurrency otherSmall (natAbs_fits destinationPositive.le receivedSmall)]
    rfl
  obtain ⟨aboveSource, sourceFits, sourceAbove⟩ := postable sourceValue sourcePositive spentSmall
  obtain ⟨aboveDestination, destinationFits, destinationAbove⟩ :=
    postable destinationValue destinationPositive receivedSmall
  let row : IdempotencyKey := { endpoint := executionsEndpoint, key, requestHash }
  let payload := (executionResponse executionId q (cents (held - spent)) (cents (other + received))).modelDump
  let d₀ := (Statement.insertIdempotencyKey row).apply db
  let d₁ := (Statement.insertExecution ⟨executionId, q.id, q.customerId⟩).apply d₀
  let d₂ := (Statement.insertLedger (debitEntry executionId q)).apply d₁
  let d₃ := (Statement.updateBalance q.customerId q.sourceCurrency (cents (held - spent))).apply d₂
  let s₁ := s.wrote (Statement.insertExecution ⟨executionId, q.id, q.customerId⟩)
  let s₂ := s₁.wrote (Statement.insertLedger (debitEntry executionId q))
  let s₃ := s₂.wrote (Statement.updateBalance q.customerId q.sourceCurrency (cents (held - spent)))
  let s₄ := s₃.wrote (Statement.insertLedger (creditEntry executionId q))
  let s₅ : Session fx := { s₄ with clock := Session.later s₄.clock }
  let s₆ := s₅.wrote (Statement.updateBalance q.customerId q.destinationCurrency (cents (other + received)))
  let s₇ := s₆.wrote (Statement.completeIdempotencyKey executionsEndpoint key payload 200 completedAt)
  have view₀ : s.view = d₀ := view
  have view₁ : s₁.view = d₁ := (s.view_wrote _).trans (congrArg _ view₀)
  have view₂ : s₂.view = d₂ := (s₁.view_wrote _).trans (congrArg _ view₁)
  have view₃ : s₃.view = d₃ := (s₂.view_wrote _).trans (congrArg _ view₂)
  have view₅ : s₅.view = (Statement.insertLedger (creditEntry executionId q)).apply d₃ :=
    (s₃.view_wrote _).trans (congrArg _ view₃)
  have view₆ := (s₅.view_wrote (Statement.updateBalance q.customerId q.destinationCurrency
    (cents (other + received)))).trans (congrArg _ view₅)
  have view₇ := (s₆.view_wrote (Statement.completeIdempotencyKey executionsEndpoint key payload 200
    completedAt)).trans (congrArg _ view₆)
  have executed : (flush [.insertExecution ⟨executionId, q.id, q.customerId⟩]).exec s = (.ok (), s₁) := by
    refine (exec_flush (Statement.check_insertExecution.mpr ?_)).trans exec_flush_nil
    rw [view₀]
    exact ⟨⟨fresh, unexecuted⟩, by change (db.quote q.id).isSome; rw [stored]; rfl, known⟩
  have debited : (appendEntry (debitEntry executionId q) []).exec s₁ = (.ok (), s₂) := by
    refine (exec_appendEntry aboveSource).trans
      ((exec_flush (Statement.check_insertLedger.mpr ?_)).trans exec_flush_nil)
    rw [view₁]
    exact ⟨sourceFits, sourceAbove, unposted .debit, known⟩
  have credited : (appendEntry (creditEntry executionId q)
      [.updateBalance q.customerId q.sourceCurrency (cents (held - spent))]).exec s₂ = (.ok (), s₄) := by
    refine (exec_appendEntry aboveDestination).trans
      ((exec_flush (check_balance (by omega) (by omega))).trans
        ((exec_flush (Statement.check_insertLedger.mpr ?_)).trans exec_flush_nil))
    rw [view₃]
    refine ⟨destinationFits, destinationAbove, ?_, known⟩
    refine (Table.row_append_ne fun entry member => ?_).trans (unposted .credit)
    rw [List.mem_singleton.mp member]
    simp [debitEntry, creditEntry]
  have completed : (flush [.updateBalance q.customerId q.destinationCurrency (cents (other + received)),
      .completeIdempotencyKey executionsEndpoint key payload 200 completedAt]).exec s₅ = (.ok (), s₇) := by
    exact (exec_flush (check_balance (by omega) room)).trans ((exec_flush rfl).trans exec_flush_nil)
  refine ⟨s₇.committed, ?_, view₇⟩
  refine (exec_bind_ok executed).trans ((exec_bind_ok debited).trans ?_)
  refine (exec_bind_ok ((exec_ofExcept _ _).trans (by rw [debit]))).trans ?_
  refine (exec_bind_ok (exec_mayFail _)).trans ((exec_bind_ok credited).trans ?_)
  refine (exec_bind_ok ((exec_ofExcept _ _).trans (by rw [credit]))).trans ?_
  refine (exec_bind_ok (exec_now _)).trans ?_
  have head : s₄.clock.headD 0 = completedAt := by
    change s.clock.headD 0 = completedAt
    rw [clock, List.headD_cons]
  rw [head]
  refine (exec_bind_ok completed).trans ((exec_bind_ok (exec_commitAll _)).trans ?_)
  exact (exec_bind_ok (exec_inc _ _)).trans ((exec_bind_ok (exec_select _ _)).trans rfl)

end Stages

namespace Locked

variable {db : Tables} {key : String} {q : Quote} {held other : ℤ} {checkedAt : Instant}
  (h : Locked db key q held other checkedAt)

include h

theorem priced : db.hasCustomer q.customerId ∧ ∃ rows refresh, BookOf db rows refresh ∧
    Priced rows q (db.legsOf q.id) := by
  obtain ⟨now, inv⟩ := h.invariant
  exact inv.quoted.priced q (Table.row_some h.stored).1

theorem known : db.hasCustomer q.customerId := h.priced.1

theorem differ : q.sourceCurrency ≠ q.destinationCurrency := by
  obtain ⟨-, rows, refresh, -, priced⟩ := h.priced
  exact priced.differ

theorem heldFits : 0 ≤ held ∧ held < 10 ^ numericPrecision := by
  obtain ⟨now, inv⟩ := h.invariant
  exact (inv.accounts.balance h.source).2

theorem otherFits : 0 ≤ other ∧ other < 10 ^ numericPrecision := by
  obtain ⟨now, inv⟩ := h.invariant
  exact (inv.accounts.balance h.destination).2

end Locked

namespace Executable

variable {db : Tables} {executionId : Uuid} {key : String} {q : Quote} {held other spent received : ℤ}
  {checkedAt : Instant}

/-- The response of an execution. -/
def payload (executionId : Uuid) (q : Quote) (held other spent received : ℤ) : Json :=
  (executionResponse executionId q (cents (held - spent)) (cents (other + received))).modelDump

variable (h : Executable db executionId key q held other spent received checkedAt)

include h

theorem answerFits : (executionResponse executionId q (cents (held - spent)) (cents (other + received))).Fits := by
  have := h.heldFits
  have := h.otherFits
  have := h.sourcePositive
  have := h.destinationPositive
  have := h.funded
  have := h.room
  refine ⟨?_, ?_, ?_, ?_⟩
  · exact ⟨spent, h.sourceValue, by omega, by omega⟩
  · exact ⟨received, h.destinationValue, by omega, by omega⟩
  · intro balance member
    rcases List.mem_pair.mp member with rfl | rfl
    · exact ⟨held - spent, rfl, by omega, by omega⟩
    · exact ⟨other + received, rfl, by omega, by omega⟩
  · simpa [executionResponse] using h.differ

/-- The client reads the response as it was written. -/
theorem respond {j : Json} (same : j.Same (payload executionId q held other spent received)) :
    ∃ body, FxEngine.respond j = .ok body ∧ body.Same (payload executionId q held other spent received) :=
  ExecutionResponse.respond_same h.answerFits same

/-- An execution on its own. -/
theorem run (completedAt : Instant) : ∃ body, FxEngine.respond (payload executionId q held other spent received) = .ok body ∧
    body.Same (payload executionId q held other spent received) ∧
    (program (.executeQuote executionId q.id key)).run [checkedAt, completedAt] db =
      (.ok (.execution body), (Action.execute executionId q (cents (held - spent)) (cents (other + received))
        (completedKey key (executionRequestHash q.id) (payload executionId q held other spent received)
          completedAt)).apply db) := by
  obtain ⟨now, inv⟩ := h.invariant
  obtain ⟨body, read, same⟩ := h.respond (.refl _)
  refine ⟨body, read, same, ?_⟩
  let s : Session fx := ⟨[checkedAt, completedAt], [], db⟩
  let s₁ := s.wrote (Statement.insertIdempotencyKey
    { endpoint := executionsEndpoint, key, requestHash := executionRequestHash q.id })
  let s₂ : Session fx := { s₁ with clock := [completedAt] }
  have view₁ := s.view_wrote (Statement.insertIdempotencyKey
    { endpoint := executionsEndpoint, key, requestHash := executionRequestHash q.id })
  have claimed : (claimKey key (executionRequestHash q.id)).exec s = (.ok (), s₁) :=
    exec_claimKey (Statement.check_insertIdempotencyKey.mpr ⟨h.keyFits, h.unclaimed⟩)
  have found : (lockQuote q.id).exec s₁ = (.ok (some q), s₁) :=
    (exec_selectForUpdate _ _ _).trans (by rw [show Tables.quote s₁.view q.id = some q from h.stored])
  have valid : (validateQuote q.id q).exec s₁ = (.ok (), s₂) :=
    exec_validateQuote h.unexecuted rfl h.unexpired
  obtain ⟨s₃, locked, exec₃, view₃, clock₃, source, destination⟩ :=
    exec_lockBalances (s := s₂) h.differ h.source h.destination
  obtain ⟨s₄, settled, db₄⟩ := exec_settle h.differ (view₃.trans view₁) clock₃ h.stored h.known h.unexecuted
    h.fresh (inv.posted.unposted h.fresh) source destination h.sourceValue h.destinationValue h.sourcePositive
    h.destinationPositive h.funded h.heldFits.2 h.otherFits.1 h.room
  have funds : ¬ locked q.sourceCurrency < q.sourceAmount := by
    rw [source, h.sourceValue]
    exact fun lt => absurd (cents_lt.mp lt) (not_lt.mpr h.funded)
  have executed : (executeLocked executionId q.id key q).exec s₁ =
      (.ok (payload executionId q held other spent received), s₄) :=
    (exec_bind_ok valid).trans ((exec_bind_ok exec₃).trans ((exec_if_neg funds).trans settled))
  have guarded : (executeClaimed executionId q.id key).exec s₁ =
      (.ok (payload executionId q held other spent received), s₄) :=
    (exec_bind_ok (exec_attempt_ok found)).trans ((exec_bind_ok (exec_attempt_ok executed)).trans rfl)
  have service : (executeQuote executionId q.id key (executionRequestHash q.id)).exec s =
      (.ok (payload executionId q held other spent received, false), s₄) := by
    refine (exec_if_neg h.keyGiven).trans ((exec_bind_ok (exec_select _ _)).trans ?_)
    rw [show Tables.idempotencyKey s.view executionsEndpoint key = none from h.unclaimed]
    refine (exec_bind_ok (exec_ret none s)).trans ?_
    exact (exec_bind_ok claimed).trans ((exec_bind_ok guarded).trans rfl)
  have whole : (program (.executeQuote executionId q.id key)).exec s = (.ok (.execution body), s₄) := by
    refine (exec_bind_ok service).trans ?_
    refine (exec_bind_ok ((exec_ofExcept _ _).trans (by rw [read]))).trans rfl
  rw [Program.run, whole]
  exact congrArg (Prod.mk _) (db₄.trans (settlement h.unclaimed))

end Executable

/-! ## Under interference -/

section Interference

variable {executionId : Uuid} {key : String} {q : Quote} {held other : ℤ} {checkedAt : Instant}
  {w : World fx} {l : Local fx}

/-- What an execution owns while it settles. -/
structure Holding (l : Local fx) (key : String) (q : Quote) (checkedAt : Instant) : Prop where
  view : ∀ db : Tables, Accounts db → db.hasCustomer q.customerId → l.view db = (Statement.insertIdempotencyKey
    { endpoint := executionsEndpoint, key, requestHash := executionRequestHash q.id }).apply db
  key : .idempotencyKey executionsEndpoint key ∈ l.held
  quote : .quote q.id ∈ l.held
  source : .balance q.customerId q.sourceCurrency ∈ l.held
  destination : .balance q.customerId q.destinationCurrency ∈ l.held
  commits : l.commits = []
  counts : l.counts = []
  reads : l.reads = [checkedAt]

/-- What was read is still true while it is held. -/
theorem Locked.later (h : Locked w.db key q held other checkedAt) (own : Holding l key q checkedAt)
    {w' : World fx} (later : engine.Later l.held w w') : Locked w'.db key q held other checkedAt where
  invariant := ⟨_, later.inv⟩
  keyGiven := h.keyGiven
  keyFits := h.keyFits
  unclaimed := (carry later own.key).symm.trans h.unclaimed
  stored := (carry later own.quote).1.symm.trans h.stored
  unexecuted := (carry later own.quote).2.symm.trans h.unexecuted
  unexpired := h.unexpired
  source := (carry later own.source).symm.trans h.source
  destination := (carry later own.destination).symm.trans h.destination

/-- How the guarded block of an execution ends. -/
inductive Guarded (executionId quoteId : Uuid) (key : String) :
    Except PyError Json → World fx → Local fx → Prop where
  | undone {e w l} (commits : l.commits = [])
      (counts : l.counts ∈ [[], [Counter.quoteExpiredTotal], [Counter.insufficientFundsTotal]]) :
      Guarded executionId quoteId key (.error e) w l
  | late {e w l snapshot} (commits : l.commits = [snapshot]) (counts : l.counts = [.executionSuccessTotal]) :
      Guarded executionId quoteId key (.error e) w l
  | done {w l row body snapshot} {response : ExecutionResponse} (commits : l.commits = [snapshot])
      (counts : l.counts = [.executionSuccessTotal])
      (found : w.db.idempotencyKey executionsEndpoint key = some row)
      (hash : row.requestHash = executionRequestHash quoteId) (fits : response.Fits)
      (stored : row.responsePayload = some (Platform.jsonb response.modelDump))
      (answer : respond response.modelDump = .ok body)
      (serial : (program (.executeQuote executionId quoteId key)).run snapshot.reads snapshot.before =
        (.ok (.execution body), snapshot.after)) : Guarded executionId quoteId key (.ok response.modelDump) w l

/-- Once everything is written, the execution can be committed and answered. -/
theorem commit_settlement {spent received : ℤ} (completedAt : Instant)
    (h : Executable w.db executionId key q held other spent received checkedAt) (past : checkedAt ≤ w.now)
    (view : l.view w.db = fx.overlay (settlementWrites executionId key (executionRequestHash q.id) q
      (cents (held - spent)) (cents (other + received))
      (Executable.payload executionId q held other spent received) completedAt) w.db)
    (slots : (Action.execute executionId q (cents (held - spent)) (cents (other + received))
      (completedKey key (executionRequestHash q.id) (Executable.payload executionId q held other spent received)
        completedAt)).slots ⊆ l.held)
    (commits : l.commits = []) (counts : l.counts = []) (reads : l.reads = [checkedAt, completedAt]) :
    Commits (.executeQuote executionId q.id key) w l ∧
      engine.wp (Commits (.executeQuote executionId q.id key)) (do
          inc .executionSuccessTotal
          reload
          pure (Executable.payload executionId q held other spent received))
        (Guarded executionId q.id key) ⟨l.view w.db, w.now⟩ (l.committed w.db) := by
  obtain ⟨body, answer, -, serial⟩ := h.run completedAt
  rw [settlement h.unclaimed] at view
  have logged : (l.committed w.db).commits = [⟨w.db, l.writes, l.reads⟩] := by
    rw [Local.committed, commits, List.nil_append]
  have counted : ((l.committed w.db).counted Counter.executionSuccessTotal).counts =
      [.executionSuccessTotal] := by
    rw [Local.counted, Local.committed, counts, List.nil_append]
  refine ⟨⟨_, .execute h.stored h.unexecuted h.fresh h.unclaimed h.source h.destination h.sourceValue
    h.destinationValue h.sourcePositive h.destinationPositive h.funded h.room ⟨checkedAt, past, h.unexpired⟩,
    slots, view, ⟨_, _, _, _, rfl, rfl, rfl, rfl⟩, ⟨_, reads ▸ serial⟩⟩, ?_⟩
  refine Protocol.wp_bind (Protocol.wp_inc fun w₁ later₁ => ?_)
  refine Protocol.wp_bind (wp_reload (fun w₂ e later₂ => .late logged counted) fun w₂ later₂ => ?_)
  -- the row that was committed stays
  have stored : (l.view w.db).idempotencyKey executionsEndpoint key = some (completedKey key
      (executionRequestHash q.id) (Executable.payload executionId q held other spent received) completedAt) := by
    rw [view]
    exact (Table.row_append_none h.unclaimed).trans (by simp [Table.row, completedKey])
  refine .done logged counted ((later₁.interfere.grown.trans later₂.interfere.grown).idempotencyKey stored)
    rfl h.answerFits rfl answer ?_
  rw [reads]
  exact serial.trans (congrArg (Prod.mk _) view.symm)

/-- The settlement commits the execution, or fails with nothing committed. -/
theorem wp_settle {locked : Currency → Decimal} (h : Locked w.db key q held other checkedAt)
    (own : Holding l key q checkedAt) (past : checkedAt ≤ w.now)
    (source : locked q.sourceCurrency = cents held) (destination : locked q.destinationCurrency = cents other)
    (funded : ¬ locked q.sourceCurrency < q.sourceAmount) :
    engine.wp (Commits (.executeQuote executionId q.id key)) (settle executionId key q locked)
      (Guarded executionId q.id key) w l := by
  have failed : ∀ e w' (l' : Local fx), l'.commits = l.commits → l'.counts = l.counts →
      Guarded executionId q.id key (.error e) w' l' := fun e w' l' commits counts =>
    .undone (commits.trans own.commits) (by rw [counts, own.counts]; exact List.mem_cons_self)
  obtain ⟨-, rows, refresh, -, priced⟩ := h.priced
  obtain ⟨spent, received, sourceValue, destinationValue, spentFits, receivedFits⟩ := priced.amounts
  refine Protocol.wp_bind (wp_flush (fun _ _ _ => failed _ _ _ rfl rfl) (fun _ _ _ _ => failed _ _ _ rfl rfl) ?_)
  intro w₁ later₁ ok₁
  have h₁ := h.later own later₁
  rw [own.view _ later₁.inv.accounts h₁.known] at ok₁
  have fresh := (Statement.check_insertExecution.mp ok₁).1.1
  refine wp_flush_nil (Protocol.wp_bind ?_)
  rw [appendEntry]
  refine Protocol.wp_ite (fun _ => failed _ _ _ rfl rfl) fun sourceAbove => ?_
  refine wp_flush (fun _ _ _ => failed _ _ _ rfl rfl) (fun _ _ _ _ => failed _ _ _ rfl rfl) ?_
  intro w₂ later₂ _
  refine wp_flush_nil (Protocol.wp_bind (Protocol.wp_ofExcept ?_))
  have spentBelow : spent ≤ held := by
    rw [source, sourceValue] at funded
    exact not_lt.mp fun lt => funded (cents_lt.mpr lt)
  have spentAbove : 0 < spent := by
    rw [sourceValue] at sourceAbove
    exact not_le.mp fun le => sourceAbove (cents_le.mpr le)
  have debit : roundMoney (locked q.sourceCurrency - q.sourceAmount) q.sourceCurrency =
      .ok (cents (held - spent)) := by
    rw [source, sourceValue, roundMoney_sub q.sourceCurrency (natAbs_fits h.heldFits.1 h.heldFits.2) spentFits]
  rw [debit]
  refine Protocol.wp_bind (Protocol.wp_mayFail (fun _ _ _ => failed _ _ _ rfl rfl) fun w₃ later₃ => ?_)
  refine Protocol.wp_bind ?_
  rw [appendEntry]
  refine Protocol.wp_ite (fun _ => failed _ _ _ rfl rfl) fun destinationAbove => ?_
  refine wp_flush (fun _ _ _ => failed _ _ _ rfl rfl) (fun _ _ _ _ => failed _ _ _ rfl rfl) ?_
  intro w₄ later₄ _
  refine wp_flush (fun _ _ _ => failed _ _ _ rfl rfl) (fun _ _ _ _ => failed _ _ _ rfl rfl) ?_
  intro w₅ later₅ _
  refine wp_flush_nil (Protocol.wp_bind (Protocol.wp_ofExcept ?_))
  have receivedAbove : 0 < received := by
    rw [destinationValue] at destinationAbove
    exact not_le.mp fun le => destinationAbove (cents_le.mpr le)
  have credit : roundMoney (Function.update locked q.sourceCurrency (cents (held - spent))
      q.destinationCurrency + q.destinationAmount) q.destinationCurrency = .ok (cents (other + received)) := by
    rw [Function.update_of_ne h.differ.symm, destination, destinationValue,
      roundMoney_add q.destinationCurrency (natAbs_fits h.otherFits.1 h.otherFits.2) receivedFits]
  rw [credit]
  refine Protocol.wp_bind (Protocol.wp_now fun w₆ later₆ => ?_)
  refine Protocol.wp_bind (wp_flush (fun _ _ _ => failed _ _ _ rfl rfl) (fun _ _ _ _ => failed _ _ _ rfl rfl) ?_)
  intro w₇ later₇ ok₇
  have room : other + received < 10 ^ numericPrecision := by
    have := fitsMoney_cents.mp (Statement.check_updateBalance.mp ok₇).1
    simp only [numericPrecision] at *
    omega
  refine wp_flush (fun _ _ _ => failed _ _ _ rfl rfl) (fun _ _ _ _ => failed _ _ _ rfl rfl) ?_
  intro w₈ later₈ _
  refine wp_flush_nil (Protocol.wp_bind (Protocol.wp_commitAll (fun _ _ _ => failed _ _ _ rfl rfl) ?_))
  intro w₉ later₉
  -- everything it read or claimed is still held
  have to₉ : engine.Later (l.wrote (Statement.insertExecution ⟨executionId, q.id, q.customerId⟩) w₁.db).held
      w₁ w₉ :=
    later₂.trans <| later₃.of_wrote.trans <| later₄.of_wrote.trans <| later₅.of_wrote.of_wrote.trans <|
      later₆.of_wrote.of_wrote.of_wrote.trans <| later₇.of_read.of_wrote.of_wrote.of_wrote.trans <|
      later₈.of_wrote.of_read.of_wrote.of_wrote.of_wrote.trans <|
      later₉.of_wrote.of_wrote.of_read.of_wrote.of_wrote.of_wrote
  have executable : Executable w₉.db executionId key q held other spent received checkedAt :=
    { h₁.later own to₉.of_wrote with
      fresh := (carry to₉ (List.mem_append_left _ List.mem_cons_self)).symm.trans fresh
      sourceValue, destinationValue, room
      sourcePositive := spentAbove
      destinationPositive := receivedAbove
      funded := spentBelow }
  refine commit_settlement w₆.now executable (past.trans (later₁.now.trans to₉.now)) ?_ ?_ own.commits own.counts ?_
  · rw [Local.view_wrote, Local.view_wrote, Local.view_read, Local.view_wrote, Local.view_wrote, Local.view_wrote,
      Local.view_wrote, own.view _ to₉.inv.accounts executable.known]
    rfl
  · have := own.key
    have := own.quote
    have := own.source
    have := own.destination
    simp [Action.slots, Local.wrote, Local.read, Statement.claims, completedKey, debitEntry, creditEntry, *]
  · change l.reads ++ [w₆.now] = _
    rw [own.reads]
    rfl

/-- The session once both balances are locked. -/
def locking (l : Local fx) (customerId : Uuid) (order : Currency × Currency) : Local fx :=
  ((ensured (ensured l customerId order.1) customerId order.2).acquire [.balance customerId order.1]).acquire
    [.balance customerId order.2]

omit [Settings] in
theorem view_locking {customerId : Uuid} {order : Currency × Currency} {db : Tables}
    (present : ∀ c, (Tables.balance (l.view db) customerId c).isSome) :
    (locking l customerId order).view db = l.view db := by
  have once := view_ensured (present order.1)
  exact (view_ensured (by rw [once]; exact present order.2)).trans once

/-- Both balances are read in their latest version, in either order. -/
theorem wp_lockBalances {K : Assertion fx} {Q : Except PyError (Currency → Decimal) → Assertion fx}
    (differ : q.sourceCurrency ≠ q.destinationCurrency)
    (clean : ∀ db c, Tables.balance (l.view db) q.customerId c = Tables.balance db q.customerId c)
    (known : Tables.hasCustomer w.db q.customerId)
    (err : ∀ w' l' e, l'.counts = l.counts → l'.commits = l.commits → Q (.error e) w' l')
    (ok : ∀ w' locked held other, engine.Later l.held w w' →
      Tables.balance w'.db q.customerId q.sourceCurrency = some ⟨q.customerId, q.sourceCurrency, cents held⟩ →
      Tables.balance w'.db q.customerId q.destinationCurrency =
        some ⟨q.customerId, q.destinationCurrency, cents other⟩ →
      locked q.sourceCurrency = cents held → locked q.destinationCurrency = cents other →
      Q (.ok locked) w' (locking l q.customerId (lockOrder q.sourceCurrency q.destinationCurrency))) :
    engine.wp K (lockBalances q) Q w l := by
  have present : ∀ {w'}, engine.Later l.held w w' → ∀ c, (Tables.balance (l.view w'.db) q.customerId c).isSome := by
    intro w' later c
    rw [clean]
    exact later.inv.accounts.opened _ (later.interfere.grown.customer known) c
  -- whichever currency comes first
  have lock : ∀ {first second : Currency}, lockOrder q.sourceCurrency q.destinationCurrency = (first, second) →
      (∀ w' a b, engine.Later l.held w w' → Tables.balance w'.db q.customerId first = some a →
        Tables.balance w'.db q.customerId second = some b →
        Q (.ok fun currency => if currency = second then b.balance else a.balance) w'
          (locking l q.customerId (first, second))) →
      engine.wp K (lockBalances q) Q w l := by
    intro first second order done
    have once : ∀ {w'}, engine.Later l.held w w' → (ensured l q.customerId first).view w'.db = l.view w'.db :=
      fun later => view_ensured (present later first)
    have twice : ∀ {w'}, engine.Later l.held w w' →
        (ensured (ensured l q.customerId first) q.customerId second).view w'.db = l.view w'.db :=
      fun later => (view_ensured (by rw [once later]; exact present later second)).trans (once later)
    rw [lockBalances, order]
    refine Protocol.wp_bind (wp_ensureBalance (fun w' later => present later first)
      (by rintro w' l' e - (rfl | rfl | rfl) <;> exact err w' _ e rfl rfl) ?_)
    intro w₁ _ later₁
    refine Protocol.wp_bind (wp_ensureBalance
      (fun w' later => by rw [once (later₁.trans later)]; exact present (later₁.trans later) second)
      (by rintro w' l' e - (rfl | rfl | rfl) <;> exact err w' _ e rfl rfl) ?_)
    intro w₂ _ later₂
    have to₂ := later₁.trans later₂
    refine Protocol.wp_bind (wp_getBalanceForUpdate
      (fun w' later => by rw [twice (to₂.trans later)]; exact present (to₂.trans later) first)
      (fun w' e _ => err w' _ e rfl rfl) ?_)
    intro w₃ a later₃ foundFirst
    have to₃ := to₂.trans later₃
    rw [twice to₃, clean] at foundFirst
    refine Protocol.wp_bind (wp_getBalanceForUpdate
      (fun w' later => by
        rw [Local.view_acquire, twice (to₃.trans later.of_acquire)]
        exact present (to₃.trans later.of_acquire) second)
      (fun w' e _ => err w' _ e rfl rfl) ?_)
    intro w₄ b later₄ foundSecond
    have to₄ := to₃.trans later₄.of_acquire
    rw [Local.view_acquire, twice to₄, clean] at foundSecond
    exact done w₄ a b to₄ ((carry later₄ List.mem_cons_self).symm.trans foundFirst) foundSecond
  rcases lockOrder_cases q.sourceCurrency q.destinationCurrency with order | order
  · refine lock order fun w' a b later source destination => ?_
    obtain ⟨held, rfl⟩ := later.inv.accounts.row source
    obtain ⟨other, rfl⟩ := later.inv.accounts.row destination
    exact order ▸ ok w' _ held other later source destination (if_neg differ) (if_pos rfl)
  · refine lock order fun w' a b later destination source => ?_
    obtain ⟨held, rfl⟩ := later.inv.accounts.row source
    obtain ⟨other, rfl⟩ := later.inv.accounts.row destination
    exact order ▸ ok w' _ held other later source destination (if_pos rfl) (if_neg differ.symm)

/-- The session that has claimed the key and locked the quote. -/
def claimed (key : String) (quoteId : Uuid) : Local fx where
  writes := [Statement.insertIdempotencyKey
    { endpoint := executionsEndpoint, key, requestHash := executionRequestHash quoteId }]
  held := [.quote quoteId, .idempotencyKey executionsEndpoint key]

theorem wp_executeLocked (inv : Invariant w.db w.now) (keyGiven : key ≠ "")
    (keyFits : key.length ≤ idempotencyKeyMaxLength)
    (unclaimed : Tables.idempotencyKey w.db executionsEndpoint key = none)
    (stored : Tables.quote w.db q.id = some q) :
    engine.wp (Commits (.executeQuote executionId q.id key)) (executeLocked executionId q.id key q)
      (Guarded executionId q.id key) w (claimed key q.id) := by
  have failed : ∀ e w' (l' : Local fx), l'.commits = [] → l'.counts = [] →
      Guarded executionId q.id key (.error e) w' l' := fun e w' l' commits counts =>
    .undone commits (by rw [counts]; exact List.mem_cons_self)
  obtain ⟨known, rows, refresh, -, priced⟩ := inv.quoted.priced q (Table.row_some stored).1
  refine Protocol.wp_bind (Protocol.wp_bind (Protocol.wp_select (fun _ _ _ => failed _ _ _ rfl rfl) ?_))
  intro w₁ later₁
  refine Protocol.wp_ite (fun _ => ?_) fun unexecuted => ?_
  · exact Protocol.wp_bind (Protocol.wp_rollbackAll fun _ _ => failed _ _ _ rfl rfl)
  replace unexecuted : Tables.executionOf w₁.db q.id = none := Option.not_isSome_iff_eq_none.mp unexecuted
  refine Protocol.wp_bind (Protocol.wp_now fun w₂ later₂ => ?_)
  refine Protocol.wp_ite (fun _ => ?_) fun unexpired => ?_
  · refine Protocol.wp_bind (Protocol.wp_rollbackAll fun _ _ => Protocol.wp_bind (Protocol.wp_inc fun _ _ => ?_))
    exact .undone rfl (by simp [Local.counted, Local.rolledBack, Local.read, claimed])
  have to₂ := later₁.trans later₂
  refine Protocol.wp_bind (wp_lockBalances priced.differ (fun _ _ => rfl) (to₂.interfere.grown.customer known)
    (fun w' l' e counts commits => failed e w' l' commits counts) ?_)
  intro w₃ locked held other later₃ source destination lockedSource lockedDestination
  have to₃ := to₂.trans later₃.of_read
  refine Protocol.wp_ite (fun _ => ?_) fun funded => ?_
  · refine Protocol.wp_bind (Protocol.wp_rollbackAll fun _ _ => Protocol.wp_bind (Protocol.wp_inc fun _ _ => ?_))
    exact .undone rfl (by simp [Local.counted, Local.rolledBack, Local.read, claimed, locking, ensured, Local.acquire])
  have order := lockOrder_cases q.sourceCurrency q.destinationCurrency
  have own : Holding (locking ((claimed key q.id).read w₂.now) q.customerId
      (lockOrder q.sourceCurrency q.destinationCurrency)) key q w₂.now :=
    { view := fun db accounts known => view_locking fun c => accounts.opened _ known c
      key := by simp [locking, ensured, Local.acquire, Local.read, claimed]
      quote := by simp [locking, ensured, Local.acquire, Local.read, claimed]
      source := by rcases order with order | order <;> simp [locking, ensured, Local.acquire, order]
      destination := by rcases order with order | order <;> simp [locking, ensured, Local.acquire, order]
      commits := rfl
      counts := rfl
      reads := rfl }
  refine wp_settle ⟨⟨_, to₃.inv⟩, keyGiven, keyFits, ?_, ?_, ?_, not_le.mp unexpired, source, destination⟩ own
    later₃.now lockedSource lockedDestination funded
  · exact (carry to₃ (List.mem_cons_of_mem _ List.mem_cons_self)).symm.trans unclaimed
  · exact (carry to₃ List.mem_cons_self).1.symm.trans stored
  · exact (carry (later₂.trans later₃.of_read) List.mem_cons_self).2.symm.trans unexecuted

/-- Whatever went wrong, nothing is held when the handler is left. -/
theorem wp_executionFailed {α : Type} {K : Assertion fx} {Q : Except PyError α → Assertion fx}
    {quote : Option Quote} {e : PyError}
    (done : ∀ w' e, Q (.error e) w' (l.rolledBack.counted .executionFailureTotal)) :
    engine.wp K (executionFailed quote e) Q w l := by
  refine Protocol.wp_bind (Protocol.wp_rollbackAll fun w₁ _ => Protocol.wp_bind (Protocol.wp_inc fun w₂ _ => ?_))
  cases quote with
  | none => exact done w₂ e
  | some q => exact Protocol.wp_bind (wp_reload (fun w' e _ => done w' e) fun w' _ => done w' e)

end Interference

/-! ## The call -/

section Call

variable {executionId quoteId : Uuid} {key : String}

/-- The guarded block from the claimed key on. -/
theorem wp_executeClaimed {Q : Except PyError Json → Assertion fx} {w : World fx} {requestHash : String} {db : Tables}
    (hash : requestHash = executionRequestHash quoteId) (keyGiven : key ≠ "") (keyFits : key.length ≤ idempotencyKeyMaxLength)
    (unclaimed : Tables.idempotencyKey w.db executionsEndpoint key = none)
    (failed : ∀ w' (l' : Local fx) e, l'.commits = [] → l'.writes = [] → l'.held = [] →
      l'.counts ∈ [[Counter.executionFailureTotal], [.quoteExpiredTotal, .executionFailureTotal],
        [.insufficientFundsTotal, .executionFailureTotal]] → Q (.error e) w' l')
    (late : ∀ w' (l' : Local fx) e snapshot, l'.commits = [snapshot] → l'.writes = [] → l'.held = [] →
      l'.counts = [.executionSuccessTotal, .executionFailureTotal] → Q (.error e) w' l')
    (done : ∀ w' l' payload, Guarded executionId quoteId key (.ok payload) w' l' → Q (.ok payload) w' l') :
    engine.wp (Commits (.executeQuote executionId quoteId key)) (executeClaimed executionId quoteId key) Q w
      (({} : Local fx).wrote (Statement.insertIdempotencyKey
        { endpoint := executionsEndpoint, key, requestHash }) db) := by
  subst hash
  refine Protocol.wp_bind (Protocol.wp_attempt (Protocol.wp_selectForUpdate ?_ ?_))
  · exact fun w' e _ => wp_executionFailed fun w' e => failed w' _ e rfl rfl rfl List.mem_cons_self
  intro w₁ later₁
  dsimp only
  generalize found : Tables.quote (Local.view _ w₁.db) quoteId = stored
  replace found : Tables.quote w₁.db quoteId = stored := found
  cases stored with
  | none =>
      exact Protocol.wp_bind (Protocol.wp_rollbackAll fun w' _ =>
        wp_executionFailed fun w' e => failed w' _ e rfl rfl rfl List.mem_cons_self)
  | some q =>
      obtain rfl : q.id = quoteId := (Table.row_some found).2
      have free := (carry later₁ (List.mem_append_left _ List.mem_cons_self)).symm.trans unclaimed
      refine Protocol.wp_bind (Protocol.wp_attempt (Protocol.wp_mono
        (wp_executeLocked later₁.inv keyGiven keyFits free found) fun r w' l' guarded => ?_))
      cases guarded with
      | undone commits counts =>
          refine wp_executionFailed fun w' e => failed w' _ e commits rfl rfl ?_
          simp only [Local.counted, Local.rolledBack]
          simp only [List.mem_cons, List.not_mem_nil, or_false] at counts
          rcases counts with counts | counts | counts <;> rw [counts] <;> simp
      | late commits counts =>
          refine wp_executionFailed fun w' e => late w' _ e _ commits rfl rfl ?_
          simp only [Local.counted, Local.rolledBack, counts, List.cons_append, List.nil_append]
      | done commits counts found hash fits stored answer serial =>
          exact done w' l' _ (.done commits counts found hash fits stored answer serial)

/-- A key is claimed unless somebody has it. -/
theorem wp_claimKey {K : Assertion fx} {Q : Except PyError Unit → Assertion fx} {w : World fx} {requestHash : String}
    (refused : ∀ w' (l' : Local fx) e, l'.commits = [] → l'.writes = [] → l'.held = [] →
      l'.counts ∈ [[], [Counter.idempotencyConflictTotal]] → Q (.error e) w' l')
    (ok : ∀ w', engine.Later [] w w' → key.length ≤ idempotencyKeyMaxLength →
      Tables.idempotencyKey w'.db executionsEndpoint key = none → Q (.ok ()) w' (({} : Local fx).wrote
        (Statement.insertIdempotencyKey { endpoint := executionsEndpoint, key, requestHash }) w'.db)) :
    engine.wp K (claimKey key requestHash) Q w {} := by
  have taken : ∀ w' e, engine.wp K (rollbackAll.bind fun _ => (inc .idempotencyConflictTotal : Tx Unit).bind fun _ =>
      (.raise e : Tx Unit)) Q w' {} := fun w' e =>
    Protocol.wp_bind (Protocol.wp_rollbackAll fun _ _ => Protocol.wp_bind (Protocol.wp_inc fun _ _ =>
      refused _ _ e rfl rfl rfl (List.mem_cons_of_mem _ List.mem_cons_self)))
  have lost : ∀ w' e, Q (.error e) w' {} := fun w' e => refused w' _ e rfl rfl rfl List.mem_cons_self
  refine Protocol.wp_bind (Protocol.wp_attempt (wp_flush ?_ ?_ ?_))
  · intro w' e _
    cases e with
    | integrityError => exact taken w' _
    | _ => exact lost w' _
  · intro w' e _ _
    cases e with
    | integrityError => exact taken w' _
    | _ => exact lost w' _
  · intro w' later free
    obtain ⟨fits, unclaimed⟩ := Statement.check_insertIdempotencyKey.mp free
    exact ok w' later fits unclaimed

/-- The ways out of the service. -/
theorem wp_executeQuote {Q : Except PyError (Json × Bool) → Assertion fx} {w : World fx}
    (failed : ∀ w' (l' : Local fx) e, l'.commits = [] → l'.writes = [] → l'.held = [] →
      l'.counts ∈ [[], [Counter.idempotencyConflictTotal], [.executionFailureTotal],
        [.quoteExpiredTotal, .executionFailureTotal], [.insufficientFundsTotal, .executionFailureTotal]] →
      Q (.error e) w' l')
    (late : ∀ w' (l' : Local fx) e snapshot, l'.commits = [snapshot] → l'.writes = [] → l'.held = [] →
      l'.counts = [.executionSuccessTotal, .executionFailureTotal] → Q (.error e) w' l')
    (replayed : ∀ w' row payload, Tables.idempotencyKey w'.db executionsEndpoint key = some row →
      row.requestHash = executionRequestHash quoteId → row.responsePayload = some payload →
      Q (.ok (payload, true)) w' (({} : Local fx).counted .idempotencyReplayTotal))
    (done : ∀ w' l' payload, Guarded executionId quoteId key (.ok payload) w' l' → Q (.ok (payload, false)) w' l') :
    engine.wp (Commits (.executeQuote executionId quoteId key))
      (executeQuote executionId quoteId key (executionRequestHash quoteId)) Q w {} := by
  refine Protocol.wp_ite (fun _ => failed _ _ _ rfl rfl rfl List.mem_cons_self) fun keyGiven => ?_
  refine Protocol.wp_bind (Protocol.wp_select (fun _ _ _ => failed _ _ _ rfl rfl rfl List.mem_cons_self) ?_)
  intro w₁ later₁
  -- a key without a stored response is claimed
  have claim : ∀ w₂, engine.wp (Commits (.executeQuote executionId quoteId key)) (do
      claimKey key (executionRequestHash quoteId)
      let payload ← executeClaimed executionId quoteId key
      pure (payload, false)) Q w₂ {} := by
    intro w₂
    refine Protocol.wp_bind (wp_claimKey ?_ fun w₃ _ fits unclaimed => Protocol.wp_bind
      (wp_executeClaimed rfl keyGiven fits unclaimed ?_ ?_ ?_))
    · exact fun w' l' e commits writes held counts => failed w' l' e commits writes held
        (List.subset_append_left _ [_, _, _] counts)
    · exact fun w' l' e commits writes held counts => failed w' l' e commits writes held
        (List.subset_append_right [_, _] _ counts)
    · exact late
    · exact done
  generalize found : Tables.idempotencyKey (Local.view _ w₁.db) executionsEndpoint key = existing
  cases existing with
  | none => exact claim w₁
  | some row =>
      dsimp only
      refine Protocol.wp_bind (Protocol.wp_ite (fun _ => ?_) fun same => ?_)
      · refine Protocol.wp_bind (Protocol.wp_inc fun w' _ => failed w' _ _ rfl rfl rfl ?_)
        exact List.mem_cons_of_mem _ List.mem_cons_self
      · replace same : row.requestHash = executionRequestHash quoteId := not_not.mp same
        split
        · rename_i payload _ stored
          refine Protocol.wp_ite (fun _ => ?_) fun _ => claim w₁
          refine Protocol.wp_bind (Protocol.wp_inc fun w' later => ?_)
          exact replayed w' row payload (later.interfere.grown.idempotencyKey found) same stored
        · exact claim w₁

theorem executeQuote_verified {w : World fx} :
    engine.wp (Commits (.executeQuote executionId quoteId key)) (program (.executeQuote executionId quoteId key))
      (engine.settled (Outcome (.executeQuote executionId quoteId key))) w {} := by
  have failed : ∀ w' (l' : Local fx) e, l'.commits = [] → l'.writes = [] → l'.held = [] →
      l'.counts ∈ [[], [Counter.idempotencyConflictTotal], [.executionFailureTotal],
        [.quoteExpiredTotal, .executionFailureTotal], [.insufficientFundsTotal, .executionFailureTotal],
        [.idempotencyReplayTotal]] →
      engine.settled (Outcome (.executeQuote executionId quoteId key)) (.error e) w' l' :=
    fun _ _ _ commits writes held counts _ _ => Executed.failed commits writes held counts
  refine Protocol.wp_bind (wp_executeQuote ?_ ?_ ?_ ?_)
  · exact fun w' l' e commits writes held counts => failed w' l' e commits writes held
      (List.subset_append_left _ [_] counts)
  · exact fun w' l' e snapshot commits writes held counts _ _ => Executed.late commits writes held counts
  · intro w' row payload found hash stored
    refine Protocol.wp_bind (Protocol.wp_ofExcept ?_)
    cases answer : respond payload with
    | error e => exact failed _ _ _ rfl rfl rfl (List.mem_of_mem_getLast? rfl)
    | ok body =>
        exact fun w'' later => Executed.replayed rfl rfl (later.interfere.grown.idempotencyKey found) hash
          stored answer
  · intro w' l' payload guarded
    cases guarded with
    | @done _ _ _ _ _ response commits counts found hash fits stored answer serial =>
        generalize dump : response.modelDump = payload at answer ⊢
        refine Protocol.wp_bind (Protocol.wp_ofExcept ?_)
        rw [answer]
        exact fun w'' later => Executed.executed commits counts (later.interfere.grown.idempotencyKey found)
          hash fits stored (dump ▸ answer) serial

end Call

end FxEngine
