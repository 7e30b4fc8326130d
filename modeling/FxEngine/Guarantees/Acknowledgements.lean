import FxEngine.Guarantees.Idempotency
import FxEngine.Transactions.Acknowledged

/-! # Who gets an answer has it in the tables

A reply names the row that its call has committed. Calls that only read commit nothing, the
others at most once; a refresh may commit a second time, to record that it failed after all.
-/

namespace FxEngine

open Numeric Transactions Program

/-- How often a call commits at most. -/
def Call.commitLimit : Call → ℕ
  | .getBalances _ | .readyz => 0
  | .refreshRates .. => 2
  | _ => 1

section Acknowledgements

variable [Platform]

/-- The amount a request asks for, as it is booked. -/
def Booked (field : String) (requested : Json) (currency : Currency) (booked : Decimal) : Prop :=
  ∃ amount, positiveDecimal field requested = .ok amount ∧ roundMoney amount currency = .ok booked

/-- The writes that have to be committed before a reply. -/
def Call.Acks (commits : List (Snapshot fx)) : Call → Reply → Prop
  | .createCustomer customerId, .customer replied =>
      replied = customerId ∧ ∃ s ∈ commits, Statement.insertCustomer customerId ∈ s.writes
  | .getBalances customerId, .balances replied _ => replied = customerId
  | .creditBalance adjustmentId customerId currency requested, .balance replied _ => replied = currency ∧
      ∃ booked, Booked "amount" requested currency booked ∧ ∃ s ∈ commits,
        Statement.insertAdjustment ⟨adjustmentId, customerId, currency, booked⟩ ∈ s.writes ∧
        Statement.insertLedger (adjustmentEntry ⟨adjustmentId, customerId, currency, booked⟩) ∈ s.writes
  | .createQuote quoteId customerId source destination requested, .quote q =>
      (q.id = quoteId ∧ q.customerId = customerId ∧ q.sourceCurrency = source ∧ q.destinationCurrency = destination ∧
        Booked "source_amount" requested source q.sourceAmount) ∧ ∃ s ∈ commits, Statement.insertQuote q ∈ s.writes
  | .executeQuote .., .execution _ => True
  | .refreshRates refreshId .., .refresh result => result.rateRefreshId = refreshId ∧ result.status = .completed ∧
      ∃ s ∈ commits, ∃ base timestamp, Statement.insertRefresh ⟨refreshId, .completed, some base, timestamp,
        result.fetchedAt, result.pairsUpdated, none, none⟩ ∈ s.writes
  | .readyz, .readiness .. => True
  | _, _ => False

/-- What a finished call has committed. -/
def Acknowledged (call : Call) (r : Except PyError Reply) (commits : List (Snapshot fx)) : Prop :=
  commits.length ≤ call.commitLimit ∧ ∀ reply, r = .ok reply → call.Acks commits reply

/-! ## What the repositories send -/

theorem sends_flush (pending : List Statement) : (flush pending).Sends pending := by
  have sent : (flush pending).Sends (pending.flatMap fun s => [s]) := sends_forM (D := fx) sends_execute pending
  rwa [List.flatMap_singleton'] at sent

theorem sends_reload : (reload : Tx Unit).Sends [] := sends_select _

theorem sends_ensureBalance (customerId : Uuid) (currency : Currency) :
    (ensureBalance customerId currency).Sends [.insertBalance customerId currency] := by
  refine (sends_execute (D := fx) _).and_nil fun _ => (sends_select _).of_nil fun row => ?_
  cases row with
  | none => exact sends_raise _
  | some row => exact sends_ret row

theorem sends_ensureAllBalances (customerId : Uuid) :
    (ensureAllBalances customerId).Sends
      (Currency.all.flatMap fun currency => [Statement.insertBalance customerId currency]) :=
  sends_forM (D := fx) (fun currency => (sends_ensureBalance customerId currency).bind fun _ => sends_ret _) _

theorem sends_getBalanceForUpdate (customerId : Uuid) (currency : Currency) :
    (getBalanceForUpdate customerId currency).Sends [] := by
  refine (sends_selectForUpdate _ _).of_nil fun row => ?_
  cases row with
  | none => exact sends_raise _
  | some row => exact sends_ret row

theorem sends_assertCustomerExists (customerId : Uuid) : (assertCustomerExists customerId).Sends [] := by
  refine (sends_select _).of_nil fun known => ?_
  split
  · exact sends_ret ()
  · exact sends_raise _

theorem sends_appendEntry (entry : LedgerEntry) (pending : List Statement) :
    (appendEntry entry pending).Sends (pending ++ [.insertLedger entry]) := by
  unfold appendEntry
  split
  · exact sends_raise _
  · exact sends_flush _

/-- Each pair sends its snapshot and its current rate. -/
theorem sends_storePairRows (refreshId : Uuid) (providerTimestamp : Option Datetime) (fetchedAt : Instant)
    (buySpreadBps sellSpreadBps : ℤ) (rateRows : List (Uuid × RateRow)) :
    ∃ ws, (storePairRows refreshId providerTimestamp fetchedAt buySpreadBps sellSpreadBps rateRows).Sends ws := by
  refine ⟨rateRows.flatMap fun row => [.insertSnapshot ⟨row.1, refreshId, row.2.baseCurrency, row.2.quoteCurrency,
    row.2.midRate, providerTimestamp, fetchedAt⟩] ++ [.upsertCurrentRate ⟨row.2.baseCurrency, row.2.quoteCurrency,
    row.2.midRate, buySpreadBps, sellSpreadBps, row.1, fetchedAt⟩], sends_forM (fun row => ?_) rateRows⟩
  exact (sends_flush _).bind fun _ => sends_execute (D := fx) _

/-! ## Call by call -/

/-- The call ends with what it acknowledges committed. -/
abbrev Keeping (call : Call) (p : Tx Reply) (l : Local fx) : Prop :=
  p.Answers (fun r l => Acknowledged call r l.commits) l

section Calls

variable {call : Call} {commits : List (Snapshot fx)}

/-- A call may fail as long as it has not committed more often than it should. -/
theorem keeping_error (few : commits.length ≤ call.commitLimit) (e : PyError) (l : Local fx) (same : l.commits = commits) :
    Acknowledged call (.error e) l.commits :=
  ⟨same ▸ few, fun _ impossible => by cases impossible⟩

theorem keeping_ok {reply : Reply} {l : Local fx} (few : commits.length ≤ call.commitLimit) (same : l.commits = commits)
    (acks : call.Acks commits reply) : Acknowledged call (.ok reply) l.commits := by
  subst same
  refine ⟨few, ?_⟩
  rintro _ ⟨⟩
  exact acks

theorem createCustomer_acknowledged (customerId : Uuid) :
    Keeping (.createCustomer customerId) (do return .customer (← createCustomer customerId)) {} := by
  have early : ∀ (e : PyError) (l : Local fx), l.commits = [] → Acknowledged (.createCustomer customerId) (.error e) l.commits :=
    keeping_error (Nat.zero_le _)
  refine Answers.bind (Sends.next (sends_flush _) rfl early fun _ l₁ none₁ sent₁ =>
    Sends.next (sends_ensureAllBalances _) none₁ early fun _ l₂ none₂ sent₂ => ?_)
  refine answers_commit none₂ early fun s l₃ sent one => ?_
  refine sends_reload.next one (keeping_error (Nat.le_refl _)) fun _ l₄ one _ => ?_
  refine answers_ret (answers_ret (keeping_ok (Nat.le_refl _) one ⟨rfl, s, List.mem_singleton_self s, ?_⟩))
  rw [sent, sent₂, sent₁]
  exact List.mem_append_left _ (by simp)

theorem getBalances_acknowledged (customerId : Uuid) :
    Keeping (.getBalances customerId) (do return .balances customerId (← getBalances customerId)) {} := by
  have early : ∀ (e : PyError) (l : Local fx), l.commits = [] → Acknowledged (.getBalances customerId) (.error e) l.commits :=
    keeping_error (Nat.zero_le _)
  refine Answers.bind (Sends.next (sends_assertCustomerExists _) rfl early fun _ l₁ none₁ _ =>
    Sends.next (sends_ensureAllBalances _) none₁ early fun _ l₂ none₂ _ =>
      Sends.next (sends_select _) none₂ early fun rows l₃ none₃ _ => (sends_ofExcept _ l₃).mono fun r l₄ ended => ?_)
  cases r with
  | error e => exact early e l₄ (ended.1.trans none₃)
  | ok balances => exact answers_ret (keeping_ok (Nat.zero_le _) (ended.1.trans none₃) rfl)

theorem creditBalance_acknowledged (adjustmentId customerId : Uuid) (currency : Currency) (requested : Json) :
    Keeping (.creditBalance adjustmentId customerId currency requested)
      (creditBalanceEndpoint adjustmentId customerId currency requested) {} := by
  have early : ∀ (e : PyError) (l : Local fx), l.commits = [] →
      Acknowledged (.creditBalance adjustmentId customerId currency requested) (.error e) l.commits :=
    keeping_error (Nat.zero_le _)
  unfold creditBalanceEndpoint
  cases parsed : positiveDecimal "amount" requested with
  | error e => exact answers_raise (early e _ rfl)
  | ok amount =>
      refine Answers.bind (answers_ret (Answers.bind (Sends.next (sends_assertCustomerExists _) rfl early
        fun _ l₁ none₁ sent₁ => ?_)))
      cases rounded : roundMoney amount currency with
      | error e => exact answers_raise (early _ _ none₁)
      | ok booked =>
          refine Answers.bind (answers_ret (Sends.next (sends_ensureBalance _ _) none₁ early fun _ l₂ none₂ sent₂ => ?_))
          refine Sends.next (sends_getBalanceForUpdate _ _) none₂ early fun balance l₃ none₃ sent₃ =>
            Sends.next (sends_flush _) none₃ early fun _ l₄ none₄ sent₄ =>
              Sends.next (sends_appendEntry _ _) none₄ early fun _ l₅ none₅ sent₅ =>
                Sends.next (sends_ofExcept _) none₅ early fun updated l₆ none₆ sent₆ =>
                  Sends.next (sends_flush _) none₆ early fun _ l₇ none₇ sent₇ => ?_
          refine answers_commit none₇ early fun s l₈ sent one => ?_
          refine Sends.next (sends_select _) one (keeping_error (Nat.le_refl _)) fun row l₉ one _ => ?_
          cases row with
          | none => exact answers_raise (keeping_error (Nat.le_refl _) _ _ one)
          | some row =>
              refine answers_ret (answers_ret (keeping_ok (Nat.le_refl _) one
                ⟨rfl, booked, ⟨amount, parsed, rounded⟩, s, List.mem_singleton_self s, ?_⟩))
              rw [sent, sent₇, sent₆, sent₅, sent₄]
              simp [adjustmentEntry]

theorem sends_loadCurrentRateBook : loadCurrentRateBook.Sends [] :=
  (sends_select _).of_nil fun _ => (sends_ofExcept _).of_nil fun _ => sends_ret _

theorem createQuote_acknowledged [Settings] (quoteId customerId : Uuid) (source destination : Currency)
    (requested : Json) : Keeping (.createQuote quoteId customerId source destination requested)
      (createQuoteEndpoint quoteId customerId source destination requested) {} := by
  have early : ∀ (e : PyError) (l : Local fx), l.commits = [] →
      Acknowledged (.createQuote quoteId customerId source destination requested) (.error e) l.commits :=
    keeping_error (Nat.zero_le _)
  unfold createQuoteEndpoint
  cases parsed : positiveDecimal "source_amount" requested with
  | error e => exact answers_raise (early e _ rfl)
  | ok amount =>
      refine Answers.bind (answers_ret (Answers.bind ?_))
      unfold createQuote
      split
      · exact answers_raise (early _ _ rfl)
      refine Sends.next (sends_assertCustomerExists _) rfl early fun _ l₁ none₁ _ =>
        Sends.next sends_loadCurrentRateBook none₁ early fun book l₂ none₂ _ => ?_
      cases book.lastUpdatedAt with
      | none => exact answers_raise (early _ _ none₂)
      | some latest =>
          refine Sends.next sends_now none₂ early fun checkedAt l₃ none₃ _ =>
            Sends.next (sends_ofExcept _) none₃ early fun oldest l₃ none₃ _ => ?_
          split
          · exact answers_raise (early _ _ none₃)
          cases computed : quoteTerms book source destination amount with
          | error e => exact answers_raise (early _ _ none₃)
          | ok terms =>
              refine Answers.bind (answers_ret (Sends.next sends_now none₃ early fun createdAt l₄ none₄ sent₄ => ?_))
              refine Sends.next (sends_flush _) none₄ early fun _ l₅ none₅ sent₅ =>
                Sends.next (sends_ofExcept _) none₅ early fun legs l₆ none₆ sent₆ =>
                  Sends.next (sends_flush _) none₆ early fun _ l₇ none₇ sent₇ => ?_
              refine answers_commit none₇ early fun s l₈ sent one => answers_inc fun l₉ same => ?_
              refine sends_reload.next (same.trans one) (keeping_error (Nat.le_refl _)) fun _ l₁₀ one _ => ?_
              have rounded := (quoteTerms_eq_ok.mp computed).sourceAmount
              refine answers_ret (answers_ret (keeping_ok (Nat.le_refl _) one
                ⟨⟨rfl, rfl, rfl, rfl, amount, parsed, rounded⟩, s, List.mem_singleton_self s, ?_⟩))
              rw [sent, sent₇, sent₆, sent₅]
              simp

theorem readyz_acknowledged [Settings] : Keeping .readyz readyz {} := by
  have answered : ∀ (reply : Reply) (l : Local fx), Call.Acks [] .readyz reply → l.commits = [] →
      Acknowledged .readyz (.ok reply) l.commits := fun reply l acks none => keeping_ok (Nat.zero_le _) none acks
  have status : ratesFreshnessStatus.Sends [] := by
    refine Sends.of_nil (p := getLatestCurrentRate) ?_ fun latest => ?_
    · exact (sends_select _).of_nil fun newest => sends_ite (fun _ => sends_ret _) fun _ => sends_raise _
    cases latest with
    | none => exact sends_ret _
    | some rate =>
        exact sends_now.of_nil fun now => (sends_ofExcept _).of_nil fun oldest =>
          sends_ite (fun _ => sends_ret _) fun _ => sends_ret _
  refine Answers.bind (Answers.attempt ((sends_reload _).mono fun r l₁ ended => ?_))
  cases r with
  | error e => exact answers_ret (answered _ _ trivial ended.1)
  | ok =>
      refine status.next ended.1 (keeping_error (Nat.zero_le _)) fun rates l₂ none₂ _ => ?_
      split <;> exact answers_ret (answered _ _ trivial none₂)

/-- The row of a failure is a commit more. -/
theorem refreshFailed_acknowledged {failureId : Uuid} {started : Instant} {l : Local fx} (e : PyError)
    (before : l.commits.length ≤ 1) :
    (refreshFailed failureId started e).Answers (fun r l' => ¬ r.isOk ∧ l'.commits.length ≤ 2) l := by
  have recorded : ∀ error : ApiError, (do recordFailedRefresh failureId started error; .raise (.api error) :
      Tx RefreshResult).Answers (fun r l' => ¬ r.isOk ∧ l'.commits.length ≤ 2) l := by
    intro error
    have early : ∀ (e : PyError) (l' : Local fx), l'.commits = l.commits →
        ¬ (Except.error e : Except PyError RefreshResult).isOk ∧ l'.commits.length ≤ 2 :=
      fun e l' same => ⟨nofun, same ▸ before.trans (by decide)⟩
    refine Answers.bind (answers_rollback fun l₁ same₁ => ?_)
    refine Sends.next ((sends_flush _).and_nil fun _ => sends_ret _) same₁ early fun _ l₂ same₂ _ => ?_
    refine answers_commit same₂ early fun s l₃ _ one => answers_inc fun l₄ same₄ => ?_
    refine (sends_reload l₄).mono fun r l₅ ended => ?_
    have two : l₅.commits.length ≤ 2 := by
      rw [ended.1, same₄, one, List.length_append]
      exact Nat.succ_le_succ before
    cases r with
    | error e => exact ⟨nofun, two⟩
    | ok => exact answers_raise ⟨nofun, two⟩
  unfold refreshFailed
  split
  · exact recorded _
  · split
    · exact recorded _
    · exact answers_raise ⟨nofun, before.trans (by decide)⟩

theorem refreshRates_acknowledged [Settings] (refreshId failureId : Uuid) (snapshotIds : ℕ → Uuid)
    (answer : ProviderAnswer) : Keeping (.refreshRates refreshId failureId snapshotIds answer)
      (do return .refresh (← refreshRates refreshId failureId snapshotIds answer)) {} := by
  have early : ∀ (e : PyError) (l : Local fx), l.commits = [] →
      Acknowledged (.refreshRates refreshId failureId snapshotIds answer) (.error e) l.commits :=
    keeping_error (Nat.zero_le _)
  refine Answers.bind (Sends.next (sends_selectForUpdate _ _) rfl early fun _ l₁ none₁ _ =>
    Sends.next sends_now none₁ early fun started l₂ none₂ _ => Answers.bind (Answers.attempt ?_))
  -- however the attempt fails, the row of the failure comes on top
  let Q : Except PyError RefreshResult → Local fx → Prop := Answers.Next
    (fun r l => Acknowledged (.refreshRates refreshId failureId snapshotIds answer) r l.commits)
    fun result => .ret (.refresh result)
  have failed : ∀ (commits : List (Snapshot fx)), commits.length ≤ 1 → ∀ (e : PyError) (l : Local fx),
      l.commits = commits → (refreshFailed failureId started e).Answers Q l := by
    intro commits few e l same
    refine (refreshFailed_acknowledged e (same ▸ few)).mono fun r l' ended => ?_
    cases r with
    | error e => exact keeping_error ended.2 e l' rfl
    | ok result => exact absurd rfl ended.1
  have unsent := failed [] (Nat.zero_le _)
  refine Sends.next (sends_ofExcept _) none₂ unsent fun provided l₃ none₃ _ => Answers.bind ?_
  refine Sends.next (sends_ofExcept _) none₃ unsent fun rows l₄ none₄ _ =>
    Sends.next (sends_flush _) none₄ unsent fun _ l₅ none₅ sent₅ => ?_
  obtain ⟨ws, sends⟩ := sends_storePairRows refreshId provided.providerTimestamp started Settings.defaultBuySpreadBps
    Settings.defaultSellSpreadBps (rows.zipIdx.map fun row => (snapshotIds row.2, row.1))
  refine sends.next none₅ unsent fun _ l₆ none₆ sent₆ => answers_ret ?_
  refine answers_commit none₆ unsent fun s l₇ sent one => answers_inc fun l₈ same => ?_
  refine sends_reload.next (same.trans one) (failed [s] (Nat.le_refl _)) fun _ l₉ one₉ _ => ?_
  unfold loadRefresh
  split
  · have few : ([] ++ [s]).length ≤ (Call.refreshRates refreshId failureId snapshotIds answer).commitLimit := Nat.le_succ 1
    refine answers_ret (answers_ret (answers_ret (keeping_ok few one₉
      ⟨rfl, rfl, s, List.mem_singleton_self s, provided.baseCurrency, provided.providerTimestamp, ?_⟩)))
    rw [sent, sent₆, sent₅]
    exact List.mem_append_left _ (List.mem_append_right _ (List.mem_singleton_self _))
  · exact answers_raise (failed [s] (Nat.le_refl _) _ _ one₉)

/-- Executions are specified elsewhere. -/
theorem program_acknowledged [Settings] (call : Call) :
    (program call).Answers (fun r l => call.key = none → Acknowledged call r l.commits) {} := by
  have plain : ∀ {p : Tx Reply}, Keeping call p {} →
      p.Answers (fun r l => call.key = none → Acknowledged call r l.commits) {} :=
    fun keeping => keeping.mono fun _ _ acknowledged _ => acknowledged
  cases call with
  | createCustomer => exact plain (createCustomer_acknowledged _)
  | getBalances => exact plain (getBalances_acknowledged _)
  | creditBalance => exact plain (creditBalance_acknowledged _ _ _ _)
  | createQuote => exact plain (createQuote_acknowledged _ _ _ _ _)
  | executeQuote => exact (answers_trivial _ _).mono fun _ _ _ other => by cases other
  | refreshRates => exact plain (refreshRates_acknowledged _ _ _ _)
  | readyz => exact plain readyz_acknowledged

end Calls

/-! ## Every answer -/

/-- No statement removes a row of these tables. -/
theorem Statement.apply_subset (s : Statement) (db : Tables) :
    db.customers ⊆ (s.apply db).customers ∧ db.adjustments ⊆ (s.apply db).adjustments ∧
      db.ledger ⊆ (s.apply db).ledger ∧ db.quotes ⊆ (s.apply db).quotes ∧ db.refreshes ⊆ (s.apply db).refreshes := by
  cases s with
  | insertBalance customerId currency =>
      by_cases present : (db.balance customerId currency).isSome <;> simp [Statement.apply, present]
  | _ => simp [Statement.apply]

/-- What the tables show of a reply. -/
def Call.Backed (db : Tables) : Call → Reply → Prop
  | .createCustomer customerId, .customer replied => replied = customerId ∧ db.hasCustomer customerId ∧
      ∀ currency, (db.balance customerId currency).isSome
  | .getBalances customerId, .balances replied _ => replied = customerId
  | .creditBalance adjustmentId customerId currency requested, .balance replied _ => replied = currency ∧
      ∃ booked, Booked "amount" requested currency booked ∧
        ⟨adjustmentId, customerId, currency, booked⟩ ∈ db.adjustments ∧
        adjustmentEntry ⟨adjustmentId, customerId, currency, booked⟩ ∈ db.ledger
  | .createQuote quoteId customerId source destination requested, .quote q =>
      (q.id = quoteId ∧ q.customerId = customerId ∧ q.sourceCurrency = source ∧ q.destinationCurrency = destination ∧
        Booked "source_amount" requested source q.sourceAmount) ∧ q ∈ db.quotes
  | .executeQuote _ quoteId key, .execution _ => ∃ row executionId q debited credited,
      db.idempotencyKey executionsEndpoint key = some row ∧ Completed db row executionId q debited credited ∧
        executionRequestHash q.id = executionRequestHash quoteId
  | .refreshRates refreshId .., .refresh result => result.rateRefreshId = refreshId ∧ result.status = .completed ∧
      ∃ base timestamp, ⟨refreshId, .completed, some base, timestamp, result.fetchedAt, result.pairsUpdated,
        none, none⟩ ∈ db.refreshes
  | .readyz, .readiness .. => True
  | _, _ => False

namespace Engine

variable [Settings] {start : Instant} {σ : Engine}

/-- A row that a session has committed is there from then on. -/
theorem Reachable.committed (h : Reachable start σ) {P : Tables → Prop} {s : Statement}
    (kept : ∀ (s : Statement) db, P db → P (s.apply db)) (made : ∀ db, P (s.apply db))
    (lasting : ∀ {db later}, Grown db later → P db → P later) {commits : List (Snapshot fx)} {snapshot : Snapshot fx}
    (logged : ∀ s ∈ commits, ∃ e ∈ σ.history, e.snapshot = s) (member : snapshot ∈ commits)
    (sent : s ∈ snapshot.writes) : P σ.world.db := by
  obtain ⟨e, inside, same⟩ := logged snapshot member
  refine lasting (h.since inside) ?_
  have sent : s ∈ e.loc.writes := by rwa [← same] at sent
  exact Database.overlay_establishes (D := fx) kept made sent e.world.db

/-- What has been committed backs the reply. -/
theorem Reachable.backed (h : Reachable start σ) {commits : List (Snapshot fx)}
    (logged : ∀ s ∈ commits, ∃ e ∈ σ.history, e.snapshot = s) {call : Call} (other : call.key = none) {reply : Reply}
    (acks : call.Acks commits reply) : call.Backed σ.world.db reply := by
  cases call with
  | createCustomer customerId =>
      cases reply with
      | customer replied =>
          obtain ⟨rfl, s, member, sent⟩ := acks
          have known : σ.world.db.hasCustomer replied := h.committed (P := fun db => replied ∈ db.customers)
            (fun s db there => (s.apply_subset db).1 there) (fun db => List.mem_append_right _ (List.mem_singleton_self _))
            (fun grown there => grown.customers.subset there) logged member sent
          exact ⟨rfl, known, h.invariant.accounts.opened _ known⟩
      | _ => exact acks.elim
  | getBalances =>
      cases reply with
      | balances => exact acks
      | _ => exact acks.elim
  | creditBalance =>
      cases reply with
      | balance =>
          obtain ⟨rfl, booked, rounded, s, member, adjusted, posted⟩ := acks
          refine ⟨rfl, booked, rounded, ?_, ?_⟩
          · exact h.committed (P := fun db => _ ∈ db.adjustments) (fun s db there => (s.apply_subset db).2.1 there)
              (fun db => List.mem_append_right _ (List.mem_singleton_self _))
              (fun grown there => grown.adjustments.subset there) logged member adjusted
          · exact h.committed (P := fun db => _ ∈ db.ledger) (fun s db there => (s.apply_subset db).2.2.1 there)
              (fun db => List.mem_append_right _ (List.mem_singleton_self _))
              (fun grown there => grown.ledger.subset there) logged member posted
      | _ => exact acks.elim
  | createQuote =>
      cases reply with
      | quote q =>
          obtain ⟨terms, s, member, sent⟩ := acks
          exact ⟨terms, h.committed (P := fun db => q ∈ db.quotes) (fun s db there => (s.apply_subset db).2.2.2.1 there)
            (fun db => List.mem_append_right _ (List.mem_singleton_self _))
            (fun grown there => grown.quotes.subset there) logged member sent⟩
      | _ => exact acks.elim
  | executeQuote => cases other
  | refreshRates =>
      cases reply with
      | refresh result =>
          obtain ⟨named, completed, s, member, base, timestamp, sent⟩ := acks
          exact ⟨named, completed, base, timestamp, h.committed (P := fun db => _ ∈ db.refreshes)
            (fun s db there => (s.apply_subset db).2.2.2.2 there)
            (fun db => List.mem_append_right _ (List.mem_singleton_self _))
            (fun grown there => grown.refreshes.subset there) logged member sent⟩
      | _ => exact acks.elim
  | readyz =>
      cases reply with
      | readiness => trivial
      | _ => exact acks.elim

/-- An execution that was answered is in the tables, under its key. -/
theorem Reachable.executed_backed (h : Reachable start σ) {executionId quoteId : Uuid} {key : String} {reply : Reply}
    {l : Local fx} (ended : Executed executionId quoteId key (.ok reply) σ.world l) :
    (Call.executeQuote executionId quoteId key).Backed σ.world.db reply := by
  have named : ∀ {row : IdempotencyKey} {body : Json}, σ.world.db.idempotencyKey executionsEndpoint key = some row →
      row.requestHash = executionRequestHash quoteId →
      (Call.executeQuote executionId quoteId key).Backed σ.world.db (.execution body) := by
    intro row body found hash
    obtain ⟨x, q, debited, credited, completed⟩ := h.invariant.claimed.completed row (Table.row_some found).1
    refine ⟨row, x, q, debited, credited, found, completed, ?_⟩
    obtain ⟨completedAt, content⟩ := completed.content
    rw [← hash, content]
    rfl
  cases ended with
  | replayed _ _ found hash => exact named found hash
  | executed _ _ found hash => exact named found hash

/-- Whatever runs besides: a call commits no more often than it may, and whoever got a reply
finds what it says in the committed tables, then and ever after. -/
theorem Reachable.acknowledged (h : Reachable start σ) {i : ℕ} {p : Proc fx Call Reply} (at_ : σ.procs i = some p)
    {r : Except PyError Reply} (done : p.prog = .ofExcept r) :
    p.loc.commits.length ≤ p.call.commitLimit ∧ ∀ reply, r = .ok reply → p.call.Backed σ.world.db reply := by
  obtain ⟨plain, logged⟩ := Transactions.Reachable.acknowledges
    (Q := fun call r commits => call.key = none → Acknowledged call r commits) program_acknowledged h at_ done
  cases other : p.call.key with
  | none =>
      refine ⟨(plain other).1, fun reply same => h.backed (fun s member => ?_) other ((plain other).2 reply same)⟩
      exact (logged s member).imp fun _ found => ⟨found.1, found.2.1⟩
  | some key =>
      obtain ⟨executionId, quoteId, call⟩ := Call.execution other
      have post := h.sound.post at_ done
      rw [call] at post ⊢
      have ended : Executed executionId quoteId key r σ.world p.loc := post
      refine ⟨?_, fun reply same => ?_⟩
      · cases ended with
        | replayed commits | failed commits => rw [commits]; exact Nat.zero_le _
        | executed commits | late commits => rw [commits]; exact Nat.le_refl _
      · subst same
        exact h.executed_backed ended

end Engine

end Acknowledgements

attribute [local instance] Sample.platform Sample.settings

/-- The quote of the sample day is in the tables when it is answered. -/
theorem Engine.acknowledged_sample : ∃ (σ : Engine) (p : Proc fx Call Reply) (reply : Reply), Engine.Reachable 0 σ ∧
    σ.procs 3 = some p ∧ p.call = .createQuote 5 1 .KES .NGN (.str "100.00") ∧ p.prog = .ofExcept (.ok reply) ∧
    p.loc.commits.length ≤ 1 ∧ p.call.Backed σ.world.db reply := by
  obtain ⟨σ, reached, -, -, -, -, ends⟩ := serial_reachable (Sample.ordered Sample.prepared (by decide))
  have replied : ((Transactions.serial program Sample.prepared {}).1[3]?.map (·.isOk)) = some true := by
    decide +kernel
  obtain ⟨r, found, ok⟩ := Option.map_eq_some_iff.mp replied
  cases r with
  | error e => cases ok
  | ok reply =>
      obtain ⟨p, at_, call, done⟩ := ends 3 _ found
      obtain call : p.call = .createQuote 5 1 .KES .NGN (.str "100.00") := (Option.some.inj call).symm
      obtain ⟨few, backed⟩ := reached.acknowledged at_ done
      exact ⟨σ, p, reply, reached, at_, call, done, by rwa [call] at few, backed reply rfl⟩

end FxEngine
