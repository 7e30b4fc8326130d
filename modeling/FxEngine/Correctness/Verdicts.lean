import FxEngine.Correctness.Solo

/-! # What an execution request comes to

The decision behind `execute_quote`, stated over the ledger: which error, the stored answer
or the settlement, in the order in which the checks are made. A request that runs on its own
does exactly that.
-/

namespace FxEngine

open Numeric Transactions Program

inductive Verdict where
  | refused (e : PyError)
  | replayed (row : IdempotencyKey)
  | settles (quote : Quote)

/-- What the accounts of the customer say against an execution. -/
def fundsRefusal (db : Tables) (q : Quote) : Option PyError :=
  if db.owed q.customerId q.sourceCurrency < q.sourceAmount.coeff then
    some (conflict errorInsufficientFunds "Insufficient source balance.")
  else if q.sourceAmount.coeff ≤ 0 ∨ q.destinationAmount.coeff ≤ 0 then
    some (.valueError "ledger entry amount must be positive")
  else if 10 ^ numericPrecision ≤ db.owed q.customerId q.destinationCurrency + q.destinationAmount.coeff then
    some .dataError
  else none

/-- What is said against executing a stored quote at the instant `t`. -/
def quoteRefusal (db : Tables) (t : Instant) (q : Quote) : Option PyError :=
  if (db.executionOf q.id).isSome then some (conflict errorQuoteAlreadyExecuted "Quote has already been executed.")
  else if q.expiresAt ≤ t then some (conflict errorQuoteExpired "Quote has expired.")
  else fundsRefusal db q

section Verdicts

variable [Platform]

/-- What a request at the instant `t` comes to. -/
def verdict (db : Tables) (t : Instant) (quoteId : Uuid) (key : String) : Verdict :=
  if key = "" then .refused (validationError "Idempotency-Key is required." [])
  else match db.idempotencyKey executionsEndpoint key with
    | some row =>
        if row.requestHash ≠ executionRequestHash quoteId then
          .refused (conflict errorIdempotencyConflict "Idempotency-Key was already used with a different request.")
        else .replayed row
    | none =>
        if idempotencyKeyMaxLength < key.length then .refused .dataError
        else match db.quote quoteId with
          | none => .refused (notFound errorQuoteNotFound s!"Quote {uuidStr quoteId} not found.")
          | some q =>
              match quoteRefusal db t q with
              | some e => .refused e
              | none => .settles q

/-- What the client is told about a settlement, from the accounts before it. -/
def settledResponse (db : Tables) (executionId : Uuid) (q : Quote) : ExecutionResponse :=
  executionResponse executionId q (cents (db.owed q.customerId q.sourceCurrency - q.sourceAmount.coeff))
    (cents (db.owed q.customerId q.destinationCurrency + q.destinationAmount.coeff))

/-- The settlement itself. -/
def settlementOf (db : Tables) (executionId : Uuid) (key : String) (q : Quote) (completedAt : Instant) : Action :=
  .execute executionId q (cents (db.owed q.customerId q.sourceCurrency - q.sourceAmount.coeff))
    (cents (db.owed q.customerId q.destinationCurrency + q.destinationAmount.coeff))
    (completedKey key (executionRequestHash q.id) (settledResponse db executionId q).modelDump completedAt)

variable [Settings]

/-- The answer and the tables that a verdict stands for. -/
inductive Comes (db : Tables) (executionId : Uuid) (key : String) (completedAt : Instant) :
    Verdict → Except PyError Reply × Tables → Prop where
  | refused (e : PyError) : Comes db executionId key completedAt (.refused e) (.error e, db)
  | replayed {row : IdempotencyKey} {payload body : Json} (stored : row.responsePayload = some payload)
      (same : body.Same payload) : Comes db executionId key completedAt (.replayed row) (.ok (.execution body), db)
  | settles {q : Quote} {body : Json} (same : body.Same (settledResponse db executionId q).modelDump) :
      Comes db executionId key completedAt (.settles q)
        (.ok (.execution body), (settlementOf db executionId key q completedAt).apply db)

/-! ## Stage by stage -/

section Stages

variable {s s' : Session fx} {executionId quoteId : Uuid} {key : String} {q : Quote} {e : PyError}

omit [Settings]

theorem keeps_ensureBalance (customerId : Uuid) (currency : Currency) : (ensureBalance customerId currency).Keeps := by
  refine (keeps_execute _).bind fun _ => (keeps_select _).bind fun row => ?_
  cases row with
  | none => exact keeps_raise _
  | some row => exact keeps_ret row

theorem keeps_getBalanceForUpdate (customerId : Uuid) (currency : Currency) :
    (getBalanceForUpdate customerId currency).Keeps := by
  refine (keeps_selectForUpdate _ _).bind fun row => ?_
  cases row with
  | none => exact keeps_raise _
  | some row => exact keeps_ret row

theorem keeps_lockBalances (q : Quote) : (lockBalances q).Keeps :=
  (keeps_ensureBalance _ _).bind fun _ => (keeps_ensureBalance _ _).bind fun _ =>
    (keeps_getBalanceForUpdate _ _).bind fun _ => (keeps_getBalanceForUpdate _ _).bind fun _ => keeps_ret _

theorem exec_executionFailed {α : Type} (quote : Option Quote) :
    (executionFailed quote e : Tx α).exec s = (.error e, { s with writes := [] }) := by
  refine (exec_bind_ok (exec_rollbackAll s)).trans ((exec_bind_ok (exec_inc _ _)).trans ?_)
  cases quote <;> rfl

/-- The guarded block when the work on the quote fails. -/
theorem exec_executeClaimed_error (found : Tables.quote s.view quoteId = some q)
    (failed : (executeLocked executionId quoteId key q).exec s = (.error e, s')) :
    (executeClaimed executionId quoteId key).exec s = (.error e, { s' with writes := [] }) := by
  have locked : (lockQuote quoteId).exec s = (.ok (some q), s) :=
    (exec_selectForUpdate _ _ _).trans (by rw [found])
  refine (exec_bind_ok (exec_attempt_ok locked)).trans ?_
  refine (exec_bind_ok ((exec_attempt _ _).trans (by rw [failed]))).trans ?_
  exact exec_executionFailed (some q)

theorem exec_executeClaimed_ok {payload : Json} (found : Tables.quote s.view quoteId = some q)
    (done : (executeLocked executionId quoteId key q).exec s = (.ok payload, s')) :
    (executeClaimed executionId quoteId key).exec s = (.ok payload, s') := by
  have locked : (lockQuote quoteId).exec s = (.ok (some q), s) :=
    (exec_selectForUpdate _ _ _).trans (by rw [found])
  exact (exec_bind_ok (exec_attempt_ok locked)).trans (exec_bind_ok (exec_attempt_ok done))

theorem exec_executeClaimed_missing (missing : Tables.quote s.view quoteId = none) :
    (executeClaimed executionId quoteId key).exec s =
      (.error (notFound errorQuoteNotFound s!"Quote {uuidStr quoteId} not found."), { s with writes := [] }) := by
  have locked : (lockQuote quoteId).exec s = (.ok none, s) :=
    (exec_selectForUpdate _ _ _).trans (by rw [missing])
  refine (exec_bind_ok (exec_attempt_ok locked)).trans ((exec_bind_ok (exec_rollbackAll s)).trans ?_)
  exact exec_executionFailed none

theorem exec_validateQuote_executed (executed : (Tables.executionOf s.view quoteId).isSome) :
    (validateQuote quoteId q).exec s =
      (.error (conflict errorQuoteAlreadyExecuted "Quote has already been executed."), { s with writes := [] }) := by
  refine (exec_bind_ok (exec_select _ _)).trans ?_
  rw [if_pos executed]
  rfl

theorem exec_validateQuote_expired (unexecuted : Tables.executionOf s.view quoteId = none)
    (expired : q.expiresAt ≤ s.clock.headD 0) :
    (validateQuote quoteId q).exec s = (.error (conflict errorQuoteExpired "Quote has expired."),
      { s with clock := Session.later s.clock, writes := [] }) := by
  refine (exec_bind_ok (exec_select _ _)).trans ?_
  rw [unexecuted]
  refine (exec_bind_ok (exec_now _)).trans ?_
  rw [if_pos expired]
  rfl

theorem exec_validateQuote_valid (unexecuted : Tables.executionOf s.view quoteId = none)
    (unexpired : ¬ q.expiresAt ≤ s.clock.headD 0) :
    (validateQuote quoteId q).exec s = (.ok (), { s with clock := Session.later s.clock }) := by
  refine (exec_bind_ok (exec_select _ _)).trans ?_
  rw [unexecuted]
  exact (exec_bind_ok (exec_now _)).trans ((exec_if_neg unexpired).trans rfl)

variable {db : Tables} {held other spent received : ℤ} {locked : Currency → Decimal}

/-- A settlement that ends at the guard of the ledger or at the column of the balance. -/
theorem exec_settle_refused {requestHash : String} (differ : q.sourceCurrency ≠ q.destinationCurrency)
    (view : s.view = (Statement.insertIdempotencyKey
      { endpoint := executionsEndpoint, key, requestHash }).apply db)
    (stored : db.quote q.id = some q) (known : db.hasCustomer q.customerId) (unexecuted : db.executionOf q.id = none)
    (fresh : db.execution executionId = none)
    (unposted : ∀ direction, db.entry (.execution, executionId, direction) = none)
    (source : locked q.sourceCurrency = cents held) (destination : locked q.destinationCurrency = cents other)
    (sourceValue : q.sourceAmount = cents spent) (destinationValue : q.destinationAmount = cents received)
    (funded : spent ≤ held) (heldFits : held < 10 ^ numericPrecision)
    (otherFits : 0 ≤ other ∧ other < 10 ^ numericPrecision) (receivedFits : received.natAbs < 10 ^ numericPrecision)
    (refused : (spent ≤ 0 ∨ received ≤ 0) ∨ 10 ^ numericPrecision ≤ other + received) :
    ∃ s', (settle executionId key q locked).exec s = (.error (if spent ≤ 0 ∨ received ≤ 0 then
        .valueError "ledger entry amount must be positive" else .dataError), s') ∧ s'.db = s.db := by
  let row : IdempotencyKey := { endpoint := executionsEndpoint, key, requestHash }
  let d₀ := (Statement.insertIdempotencyKey row).apply db
  let d₁ := (Statement.insertExecution ⟨executionId, q.id, q.customerId⟩).apply d₀
  let s₁ := s.wrote (Statement.insertExecution ⟨executionId, q.id, q.customerId⟩)
  let s₂ := s₁.wrote (Statement.insertLedger (debitEntry executionId q))
  have view₀ : s.view = d₀ := view
  have view₁ : s₁.view = d₁ := (s.view_wrote _).trans (congrArg _ view₀)
  have view₂ : s₂.view = (Statement.insertLedger (debitEntry executionId q)).apply d₁ :=
    (s₁.view_wrote _).trans (congrArg _ view₁)
  have executed : (flush [.insertExecution ⟨executionId, q.id, q.customerId⟩]).exec s = (.ok (), s₁) := by
    refine (exec_flush (Statement.check_insertExecution.mpr ?_)).trans exec_flush_nil
    rw [view₀]
    exact ⟨⟨fresh, unexecuted⟩, by change (db.quote q.id).isSome; rw [stored]; rfl, known⟩
  -- the guard stops an entry that is not positive
  have guarded : ∀ {entry : LedgerEntry} {pending : List Statement} {n : ℤ} {s : Session fx}, entry.amount = cents n →
      n ≤ 0 → (appendEntry entry pending).exec s = (.error (.valueError "ledger entry amount must be positive"), s) := by
    intro entry pending n s value low
    rw [appendEntry, if_pos (by rw [value]; exact cents_le.mpr low)]
    rfl
  by_cases sourceLow : spent ≤ 0
  · refine ⟨s₁, ?_, rfl⟩
    rw [if_pos (.inl sourceLow)]
    exact (exec_bind_ok executed).trans (exec_bind_error (guarded sourceValue sourceLow))
  have sourcePositive : 0 < spent := not_le.mp sourceLow
  have spentFits : spent < 10 ^ numericPrecision := by omega
  obtain ⟨aboveSource, sourceFits, sourceAbove⟩ := postable sourceValue sourcePositive spentFits
  have debited : (appendEntry (debitEntry executionId q) []).exec s₁ = (.ok (), s₂) := by
    refine (exec_appendEntry aboveSource).trans
      ((exec_flush (Statement.check_insertLedger.mpr ?_)).trans exec_flush_nil)
    rw [view₁]
    exact ⟨sourceFits, sourceAbove, unposted .debit, known⟩
  have debit : arith (roundMoney (locked q.sourceCurrency - q.sourceAmount) q.sourceCurrency) =
      .ok (cents (held - spent)) := by
    rw [source, sourceValue, roundMoney_sub q.sourceCurrency (natAbs_fits (sourcePositive.le.trans funded) heldFits)
      (natAbs_fits sourcePositive.le spentFits)]
    rfl
  -- up to the credit
  have upToCredit : ∀ {e : PyError} {s' : Session fx}, (do
        appendEntry ⟨q.customerId, q.destinationCurrency, q.destinationAmount, .credit, .execution, executionId⟩
          [.updateBalance q.customerId q.sourceCurrency (cents (held - spent))]
        let credited ← ofExcept (arith (roundMoney (Function.update locked q.sourceCurrency (cents (held - spent))
          q.destinationCurrency + q.destinationAmount) q.destinationCurrency))
        let payload := ExecutionResponse.modelDump
          { executionId, quoteId := q.id
            debit := ⟨q.sourceCurrency, q.sourceAmount⟩
            credit := ⟨q.destinationCurrency, q.destinationAmount⟩
            balances := [(q.sourceCurrency, cents (held - spent)), (q.destinationCurrency, credited)] }
        let completedAt ← now
        flush [.updateBalance q.customerId q.destinationCurrency credited,
          .completeIdempotencyKey executionsEndpoint key payload 200 completedAt]
        commitAll
        inc .executionSuccessTotal
        reload
        pure payload : Tx Json).exec s₂ = (.error e, s') →
      (settle executionId key q locked).exec s = (.error e, s') := by
    intro e s' rest
    refine (exec_bind_ok executed).trans ((exec_bind_ok debited).trans ?_)
    refine (exec_bind_ok ((exec_ofExcept _ _).trans (by rw [debit]))).trans ?_
    exact (exec_bind_ok (exec_mayFail _)).trans rest
  by_cases destinationLow : received ≤ 0
  · refine ⟨s₂, ?_, rfl⟩
    rw [if_pos (.inr destinationLow)]
    exact upToCredit (exec_bind_error (guarded destinationValue destinationLow))
  have destinationPositive : 0 < received := not_le.mp destinationLow
  have small : received < 10 ^ numericPrecision := by
    simp only [numericPrecision] at receivedFits ⊢
    omega
  obtain ⟨aboveDestination, destinationFits, destinationAbove⟩ := postable destinationValue destinationPositive small
  have large : 10 ^ numericPrecision ≤ other + received := refused.resolve_left (by omega)
  let d₃ := (Statement.updateBalance q.customerId q.sourceCurrency (cents (held - spent))).apply
    ((Statement.insertLedger (debitEntry executionId q)).apply d₁)
  let s₃ := s₂.wrote (Statement.updateBalance q.customerId q.sourceCurrency (cents (held - spent)))
  let s₄ := s₃.wrote (Statement.insertLedger (creditEntry executionId q))
  have view₃ : s₃.view = d₃ := (s₂.view_wrote _).trans (congrArg _ view₂)
  have credited : (appendEntry (creditEntry executionId q)
      [.updateBalance q.customerId q.sourceCurrency (cents (held - spent))]).exec s₂ = (.ok (), s₄) := by
    refine (exec_appendEntry aboveDestination).trans
      ((exec_flush (check_balance (by omega) (by omega))).trans
        ((exec_flush (Statement.check_insertLedger.mpr ?_)).trans exec_flush_nil))
    rw [view₃]
    refine ⟨destinationFits, destinationAbove, ?_, known⟩
    refine (Table.row_append_ne fun entry member => ?_).trans (unposted .credit)
    rw [List.mem_singleton.mp member]
    simp [debitEntry, creditEntry]
  have credit : arith (roundMoney (Function.update locked q.sourceCurrency (cents (held - spent))
      q.destinationCurrency + q.destinationAmount) q.destinationCurrency) = .ok (cents (other + received)) := by
    rw [Function.update_of_ne differ.symm, destination, destinationValue,
      roundMoney_add q.destinationCurrency (natAbs_fits otherFits.1 otherFits.2) receivedFits]
    rfl
  have overflow : ¬ fitsMoney (cents (other + received)) := fun fits => by
    have := fitsMoney_cents.mp fits
    simp only [numericPrecision] at this large
    omega
  refine ⟨{ s₄ with clock := Session.later s₄.clock, writes := [] }, ?_, rfl⟩
  rw [if_neg (by omega)]
  refine upToCredit ((exec_bind_ok credited).trans ?_)
  refine (exec_bind_ok ((exec_ofExcept _ _).trans (by rw [credit]))).trans ((exec_bind_ok (exec_now _)).trans ?_)
  refine exec_bind_error ((exec_flush_eq _).trans ?_)
  rw [flushError, Statement.check, violates, if_pos overflow]
  rfl

end Stages

/-! ## On a locked quote -/

omit [Platform] [Settings] in
theorem later_cons {clock : List Instant} (some : clock ≠ []) :
    Session.later clock = (Session.later clock).headD 0 :: (Session.later clock).tail := by
  cases clock with
  | nil => exact absurd rfl some
  | cons t rest => cases rest <;> rfl

section Locked

variable {db : Tables} {now : Instant} {executionId : Uuid} {key : String} {q : Quote} {s : Session fx}

/-- The session that has claimed the key. -/
structure Claiming (s : Session fx) (db : Tables) (executionId : Uuid) (key : String) (q : Quote) : Prop where
  invariant : ∃ now, Invariant db now
  committed : s.db = db
  view : s.view = (Statement.insertIdempotencyKey
    { endpoint := executionsEndpoint, key, requestHash := executionRequestHash q.id }).apply db
  clock : s.clock ≠ []
  unclaimed : db.idempotencyKey executionsEndpoint key = none
  stored : db.quote q.id = some q
  fresh : db.execution executionId = none

namespace Claiming

theorem facts (h : Claiming s db executionId key q) : db.hasCustomer q.customerId ∧
    q.sourceCurrency ≠ q.destinationCurrency ∧ ∃ spent received held other : ℤ,
      q.sourceAmount = cents spent ∧ q.destinationAmount = cents received ∧
      received.natAbs < 10 ^ numericPrecision ∧
      db.balance q.customerId q.sourceCurrency = some ⟨q.customerId, q.sourceCurrency, cents held⟩ ∧
      db.balance q.customerId q.destinationCurrency = some ⟨q.customerId, q.destinationCurrency, cents other⟩ ∧
      (held = db.owed q.customerId q.sourceCurrency ∧ 0 ≤ held ∧ held < 10 ^ numericPrecision) ∧
      (other = db.owed q.customerId q.destinationCurrency ∧ 0 ≤ other ∧ other < 10 ^ numericPrecision) := by
  obtain ⟨now, inv⟩ := h.invariant
  obtain ⟨known, rows, refresh, -, priced⟩ := inv.quoted.priced q (Table.row_some h.stored).1
  obtain ⟨spent, received, source, destination, -, fits⟩ := priced.amounts
  have account : ∀ c, ∃ held, db.balance q.customerId c = some ⟨q.customerId, c, cents held⟩ := by
    intro c
    obtain ⟨row, found⟩ := Option.isSome_iff_exists.mp (inv.accounts.opened _ known c)
    obtain ⟨held, rfl⟩ := inv.accounts.row found
    exact ⟨held, found⟩
  obtain ⟨held, foundSource⟩ := account q.sourceCurrency
  obtain ⟨other, foundDestination⟩ := account q.destinationCurrency
  exact ⟨known, priced.differ, spent, received, held, other, source, destination, fits, foundSource, foundDestination,
    inv.accounts.balance foundSource, inv.accounts.balance foundDestination⟩

variable (h : Claiming s db executionId key q)

include h

/-- Up to the settlement. -/
theorem locks {spent held other : ℤ} (valid : ¬ (db.executionOf q.id).isSome ∧ ¬ q.expiresAt ≤ s.clock.headD 0)
    (source : db.balance q.customerId q.sourceCurrency = some ⟨q.customerId, q.sourceCurrency, cents held⟩)
    (destination : db.balance q.customerId q.destinationCurrency = some ⟨q.customerId, q.destinationCurrency, cents other⟩)
    (value : q.sourceAmount = cents spent) :
    ∃ s' locked, s'.view = s.view ∧ s'.clock = Session.later s.clock ∧ s'.db = s.db ∧
      locked q.sourceCurrency = cents held ∧ locked q.destinationCurrency = cents other ∧
      (executeLocked executionId q.id key q).exec s = if held < spent then
        (.error (conflict errorInsufficientFunds "Insufficient source balance."), { s' with writes := [] })
      else (settle executionId key q locked).exec s' := by
  have differ := h.facts.2.1
  let s₁ : Session fx := { s with clock := Session.later s.clock }
  have unexecuted : Tables.executionOf s.view q.id = none := by
    rw [h.view]
    exact Option.not_isSome_iff_eq_none.mp valid.1
  have checked := exec_validateQuote_valid unexecuted valid.2
  have here : ∀ c, Tables.balance s₁.view q.customerId c = db.balance q.customerId c := by
    intro c
    rw [show s₁.view = s.view from rfl, h.view]
    rfl
  obtain ⟨s', locked, exec, view, clock, lockedSource, lockedDestination⟩ :=
    exec_lockBalances (s := s₁) differ ((here _).trans source) ((here _).trans destination)
  have kept : s'.db = s.db := by
    have := keeps_lockBalances q s₁
    rwa [exec] at this
  refine ⟨s', locked, view, clock, kept, lockedSource, lockedDestination, ?_⟩
  refine (exec_bind_ok checked).trans ((exec_bind_ok exec).trans ?_)
  rw [lockedSource, value]
  by_cases short : held < spent
  · rw [if_pos short, if_pos (cents_lt.mpr short)]
    rfl
  · rw [if_neg short]
    exact exec_if_neg fun lt => short (cents_lt.mp lt)

/-- Everything that is said against the quote ends the work on it. -/
theorem refused {e : PyError} (against : quoteRefusal db (s.clock.headD 0) q = some e) :
    ∃ s', (executeLocked executionId q.id key q).exec s = (.error e, s') ∧ s'.db = db := by
  obtain ⟨known, differ, spent, received, held, other, sourceValue, destinationValue, receivedFits, source, destination,
    ⟨heldOwed, heldFits⟩, otherOwed, otherFits⟩ := h.facts
  have viewed : Tables.executionOf s.view q.id = db.executionOf q.id := by
    rw [h.view]
    rfl
  unfold quoteRefusal at against
  split at against
  · rename_i executed
    cases against
    exact ⟨_, exec_bind_error (exec_validateQuote_executed (by rw [viewed]; exact executed)), h.committed⟩
  rename_i unexecuted
  have none : Tables.executionOf s.view q.id = none := viewed.trans (Option.not_isSome_iff_eq_none.mp unexecuted)
  split at against
  · rename_i expired
    cases against
    exact ⟨_, exec_bind_error (exec_validateQuote_expired none expired), h.committed⟩
  rename_i unexpired
  obtain ⟨s', locked, view, clock, kept, lockedSource, lockedDestination, exec⟩ :=
    h.locks ⟨unexecuted, unexpired⟩ source destination sourceValue
  rw [exec]
  rw [fundsRefusal, ← heldOwed, ← otherOwed, sourceValue, destinationValue, cents_coeff, cents_coeff] at against
  by_cases short : held < spent
  · rw [if_pos short] at against ⊢
    cases against
    exact ⟨_, rfl, kept.trans h.committed⟩
  rw [if_neg short] at against ⊢
  obtain ⟨now, inv⟩ := h.invariant
  have settles := exec_settle_refused differ (view.trans h.view) h.stored known (Option.not_isSome_iff_eq_none.mp unexecuted)
    h.fresh (inv.posted.unposted h.fresh) lockedSource lockedDestination sourceValue destinationValue (not_lt.mp short)
    heldFits.2 otherFits receivedFits
  by_cases low : spent ≤ 0 ∨ received ≤ 0
  · rw [if_pos low] at against
    cases against
    obtain ⟨s'', failed, same⟩ := settles (.inl low)
    rw [if_pos low] at failed
    exact ⟨s'', failed, same.trans (kept.trans h.committed)⟩
  · rw [if_neg low] at against
    split at against
    · rename_i large
      cases against
      obtain ⟨s'', failed, same⟩ := settles (.inr large)
      rw [if_neg low] at failed
      exact ⟨s'', failed, same.trans (kept.trans h.committed)⟩
    · cases against

/-- Against nothing, the quote is settled. -/
theorem settles (against : quoteRefusal db (s.clock.headD 0) q = none) :
    ∃ s', (executeLocked executionId q.id key q).exec s = (.ok (settledResponse db executionId q).modelDump, s') ∧
      s'.db = (settlementOf db executionId key q ((Session.later s.clock).headD 0)).apply db ∧
      (settledResponse db executionId q).Fits := by
  obtain ⟨known, differ, spent, received, held, other, sourceValue, destinationValue, receivedFits, source, destination,
    ⟨heldOwed, heldFits⟩, otherOwed, otherFits⟩ := h.facts
  unfold quoteRefusal at against
  split at against
  · cases against
  rename_i unexecuted
  split at against
  · cases against
  rename_i unexpired
  rw [fundsRefusal, ← heldOwed, ← otherOwed, sourceValue, destinationValue, cents_coeff, cents_coeff] at against
  split at against
  · cases against
  rename_i funded
  split at against
  · cases against
  rename_i positive
  split at against
  · cases against
  rename_i room
  simp only [not_or, not_le, not_lt] at positive funded room
  obtain ⟨s', locked, view, clock, kept, lockedSource, lockedDestination, exec⟩ :=
    h.locks ⟨unexecuted, unexpired⟩ source destination sourceValue
  obtain ⟨now, inv⟩ := h.invariant
  obtain ⟨spentPositive, receivedPositive⟩ := positive
  have response : settledResponse db executionId q =
      executionResponse executionId q (cents (held - spent)) (cents (other + received)) := by
    rw [settledResponse, ← heldOwed, ← otherOwed, sourceValue, destinationValue, cents_coeff, cents_coeff]
  have action : ∀ completedAt, settlementOf db executionId key q completedAt =
      .execute executionId q (cents (held - spent)) (cents (other + received))
        (completedKey key (executionRequestHash q.id) (settledResponse db executionId q).modelDump completedAt) := by
    intro completedAt
    rw [settlementOf, ← heldOwed, ← otherOwed, sourceValue, destinationValue, cents_coeff, cents_coeff]
  obtain ⟨s'', settled, after⟩ := exec_settle differ (view.trans h.view)
    (clock.trans (later_cons h.clock)) h.stored known (Option.not_isSome_iff_eq_none.mp unexecuted)
    h.fresh (inv.posted.unposted h.fresh) lockedSource lockedDestination sourceValue destinationValue spentPositive
    receivedPositive funded heldFits.2 otherFits.1 room
  rw [settlement h.unclaimed, ← response, ← action] at after
  rw [← response] at settled
  refine ⟨s'', exec.trans ((if_neg (not_lt.mpr funded)).trans settled), after, ?_⟩
  rw [response]
  refine ⟨⟨spent, sourceValue, by omega, by omega⟩, ⟨received, destinationValue, by omega, by omega⟩, ?_, ?_⟩
  · intro balance member
    rcases List.mem_pair.mp member with rfl | rfl
    · exact ⟨held - spent, rfl, by omega, by omega⟩
    · exact ⟨other + received, rfl, by omega, by omega⟩
  · simpa [executionResponse] using differ

end Claiming

end Locked

end Verdicts

end FxEngine
