import FxEngine.Correctness.Engine
import FxEngine.Correctness.Limits

/-! # Amounts of every size

Any positive decimal is accepted. Which of them are stored, and that the others end in an
exception that is no answer of the engine.
-/

namespace FxEngine

open Numeric Transactions Program

section Credits

variable [Platform] [Settings] {db : Tables} {clock : List Instant} {adjustmentId customerId : Uuid}
  {currency : Currency} {value : Json} {amount : Decimal} {held : ℤ}

/-- The rounded amount is positive, and with it the balance fits its column. -/
def Credits (held : ℤ) (amount : ℚ) : Prop :=
  1 / 2 < amount * 100 ∧ held + halfEven (amount * 100) < 10 ^ numericPrecision

theorem creditBalance_error {e : PyError} {s : Session fx} (accepted : positiveDecimal "amount" value = .ok amount)
    (service : (creditBalance adjustmentId customerId currency amount).exec ⟨clock, [], db⟩ = (.error e, s))
    (kept : s.db = db) :
    (program (.creditBalance adjustmentId customerId currency value)).run clock db = (.error e, db) := by
  have whole : (program (.creditBalance adjustmentId customerId currency value)).exec ⟨clock, [], db⟩ = (.error e, s) :=
    (exec_bind_ok ((exec_ofExcept _ _).trans (by rw [accepted]))).trans (exec_bind_error service)
  rw [Program.run, whole, kept]

/-- A rounded amount that is zero, does not fit its column or leaves no room in the balance
ends with an exception that the engine did not raise. -/
theorem creditBalance_run_refused {n : ℤ} (accepted : positiveDecimal "amount" value = .ok amount)
    (rounded : roundMoney amount currency = .ok (cents n)) (nonneg : 0 ≤ n) (known : db.hasCustomer customerId)
    (fresh : db.adjustment adjustmentId = none) (unposted : db.entry (.creditAdjustment, adjustmentId, .credit) = none)
    (balance : db.balance customerId currency = some ⟨customerId, currency, cents held⟩)
    (funds : 0 ≤ held ∧ held < 10 ^ numericPrecision) (refused : ¬ (0 < n ∧ held + n < 10 ^ numericPrecision)) :
    ∃ e, (program (.creditBalance adjustmentId customerId currency value)).run clock db = (.error e, db) ∧
      ∀ error, e ≠ .api error := by
  let s : Session fx := ⟨clock, [], db⟩
  let s₁ := s.wrote (Statement.insertBalance customerId currency)
  let s₂ := s₁.wrote (Statement.insertAdjustment ⟨adjustmentId, customerId, currency, cents n⟩)
  let s₃ := s₂.wrote (Statement.insertLedger (adjustmentEntry ⟨adjustmentId, customerId, currency, cents n⟩))
  have present : (db.balance customerId currency).isSome := by rw [balance]; rfl
  have view₁ : s₁.view = db := (s.view_wrote _).trans (apply_insertBalance present)
  have view₂ : s₂.view = (Statement.insertAdjustment ⟨adjustmentId, customerId, currency, cents n⟩).apply db :=
    (s₁.view_wrote _).trans (congrArg _ view₁)
  have customer := exec_assertCustomerExists (s := s) known
  have converted : (ofExcept (arith (roundMoney amount currency)) : Tx Decimal).exec s = (.ok (cents n), s) :=
    (exec_ofExcept _ _).trans (by rw [rounded]; rfl)
  have ensured := exec_ensureBalance (s := s) balance
  have locked := exec_getBalanceForUpdate (s := s₁) (view₁ ▸ balance)
  have refusedBy : ∀ {w : Statement} {s : Session fx} {e : PyError}, w.check s.view = some e →
      (flush [w]).exec s = (.error e, { s with writes := [] }) := by
    intro w s e check
    rw [exec_flush_eq, flushError, check]
  -- the column of the adjustment
  by_cases fits : n < 10 ^ numericPrecision
  swap
  · have large : ¬ fitsMoney (cents n) := fun small => fits (by
      have := fitsMoney_cents.mp small
      simp only [numericPrecision] at *
      omega)
    have check : (Statement.insertAdjustment ⟨adjustmentId, customerId, currency, cents n⟩).check s₁.view =
        some .dataError := by
      rw [Statement.check, violates, if_pos large]
      rfl
    refine ⟨.dataError, creditBalance_error accepted (s := { s₁ with writes := [] }) ?_ rfl, fun error same => by cases same⟩
    exact (exec_bind_ok customer).trans ((exec_bind_ok converted).trans ((exec_bind_ok ensured).trans
      ((exec_bind_ok locked).trans (exec_bind_error (refusedBy check)))))
  have adjusted : (flush [.insertAdjustment ⟨adjustmentId, customerId, currency, cents n⟩]).exec s₁ = (.ok (), s₂) := by
    refine (exec_flush (Statement.check_insertAdjustment.mpr ?_)).trans exec_flush_nil
    rw [view₁]
    exact ⟨fitsMoney_cents.mpr (natAbs_fits nonneg fits), fresh, known⟩
  -- the guard of the ledger
  by_cases positive : 0 < n
  swap
  · have guarded : (appendEntry (adjustmentEntry ⟨adjustmentId, customerId, currency, cents n⟩) []).exec s₂ =
        (.error (.valueError "ledger entry amount must be positive"), s₂) := by
      have guard : (adjustmentEntry ⟨adjustmentId, customerId, currency, cents n⟩).amount ≤ zeroMoney :=
        cents_le.mpr (not_lt.mp positive)
      rw [appendEntry, if_pos guard]
      rfl
    refine ⟨.valueError "ledger entry amount must be positive", creditBalance_error accepted (s := s₂) ?_ rfl,
      fun error same => by cases same⟩
    exact (exec_bind_ok customer).trans ((exec_bind_ok converted).trans ((exec_bind_ok ensured).trans
      ((exec_bind_ok locked).trans ((exec_bind_ok adjusted).trans (exec_bind_error guarded)))))
  have posted : (appendEntry (adjustmentEntry ⟨adjustmentId, customerId, currency, cents n⟩) []).exec s₂ =
      (.ok (), s₃) := by
    obtain ⟨above, small, positive⟩ := postable rfl positive fits
    refine (exec_appendEntry above).trans ((exec_flush (Statement.check_insertLedger.mpr ?_)).trans exec_flush_nil)
    rw [view₂]
    exact ⟨small, positive, unposted, known⟩
  -- the column of the balance
  have sum : arith (roundMoney (cents held + cents n) currency) = .ok (cents (held + n)) := by
    rw [roundMoney_add currency (natAbs_fits funds.1 funds.2) (natAbs_fits nonneg fits)]
    rfl
  have large : ¬ fitsMoney (cents (held + n)) := fun small => refused ⟨positive, by
    have := fitsMoney_cents.mp small
    simp only [numericPrecision] at *
    omega⟩
  have check : (Statement.updateBalance customerId currency (cents (held + n))).check s₃.view = some .dataError := by
    rw [Statement.check, violates, if_pos large]
    rfl
  refine ⟨.dataError, creditBalance_error accepted (s := { s₃ with writes := [] }) ?_ rfl, fun error same => by cases same⟩
  exact (exec_bind_ok customer).trans ((exec_bind_ok converted).trans ((exec_bind_ok ensured).trans
    ((exec_bind_ok locked).trans ((exec_bind_ok adjusted).trans ((exec_bind_ok posted).trans
      ((exec_bind_ok ((exec_ofExcept _ _).trans (by rw [sum]))).trans (exec_bind_error (refusedBy check))))))))

/-- The call commits what was asked for, or answers with an error of the engine and changes
nothing. -/
def Orderly (db : Tables) (done : Reply → Tables → Prop) (ended : Except PyError Reply × Tables) : Prop :=
  (∃ reply, ended.1 = .ok reply ∧ done reply ended.2) ∨ ∃ error, ended = (.error (.api error), db)

omit [Platform] [Settings] in
theorem not_orderly {done : Reply → Tables → Prop} {e : PyError} (plain : ∀ error, e ≠ .api error) :
    ¬ Orderly db done (.error e, db) := by
  rintro (⟨reply, same, -⟩ | ⟨error, same⟩)
  · cases same
  · exact plain error (Except.error.inj (Prod.mk.inj same).1)

/-- The rounded amount is credited. -/
def CreditsRounded (db : Tables) (adjustmentId customerId : Uuid) (currency : Currency) (amount : ℚ) (reply : Reply)
    (after : Tables) : Prop :=
  ∃ balance, reply = .balance currency balance ∧
    after = (Action.credit ⟨adjustmentId, customerId, currency, Decimal.rounded 2 amount⟩ balance).apply db

/-- Credits are orderly exactly when they succeed. -/
theorem creditBalance_orderly_iff {now : Instant} (inv : Invariant db now)
    (accepted : positiveDecimal "amount" value = .ok amount) (known : db.hasCustomer customerId)
    (fresh : db.adjustment adjustmentId = none) :
    Orderly db (CreditsRounded db adjustmentId customerId currency amount.toRat)
        ((program (.creditBalance adjustmentId customerId currency value)).run clock db) ↔
      ∃ held, db.balance customerId currency = some ⟨customerId, currency, cents held⟩ ∧ Credits held amount.toRat := by
  obtain ⟨row, found⟩ := Option.isSome_iff_exists.mp (inv.accounts.opened _ known currency)
  obtain ⟨held, rfl⟩ := inv.accounts.row found
  have account := (inv.accounts.balance found).2
  have unposted : db.entry (.creditAdjustment, adjustmentId, .credit) = none := by
    have none : db.entriesOf .creditAdjustment adjustmentId = [] :=
      inv.posted.entriesOf_fresh (by simp) fun _ => fresh
    refine Table.row_none.mpr fun entry member same => ?_
    have := List.filter_eq_nil_iff.mp none entry member
    simp_all [LedgerEntry.reference]
  have only : (∃ held', db.balance customerId currency = some ⟨customerId, currency, cents held'⟩ ∧
      Credits held' amount.toRat) ↔ Credits held amount.toRat := by
    refine ⟨?_, fun credits => ⟨held, found, credits⟩⟩
    rintro ⟨held', found', credits⟩
    obtain rfl : held = held' := by
      have := Option.some.inj (found.symm.trans found')
      simpa [cents] using this
    exact credits
  rw [only]
  have nonneg : 0 ≤ halfEven (amount.toRat * 100) := halfEven_nonneg
    (mul_nonneg (Decimal.toRat_pos_iff.mpr (positiveDecimal_pos accepted)).le (by norm_num))
  have stored : Decimal.rounded 2 amount.toRat = cents (halfEven (amount.toRat * 100)) := rounded_money _
  rw [Credits, ← halfEven_pos_iff]
  generalize rounding : halfEven (amount.toRat * 100) = n at *
  by_cases credits : 0 < n ∧ held + n < 10 ^ numericPrecision
  · obtain ⟨positive, room⟩ := credits
    have fits : n < 10 ^ numericPrecision := by linarith [account.1]
    have rounded : roundMoney amount currency = .ok (cents n) :=
      roundMoney_iff.mpr ⟨by rw [rounding], fits_context (natAbs_fits nonneg fits)⟩
    have creditable : Creditable db adjustmentId customerId currency value held n :=
      ⟨known, ⟨amount, accepted, rounded⟩, positive, fits, found, account, room, fresh, unposted⟩
    rw [creditable.run]
    exact iff_of_true (.inl ⟨_, rfl, cents (held + n), rfl, by rw [stored]⟩) ⟨positive, room⟩
  · refine iff_of_false ?_ credits
    by_cases digits : n.natAbs < 10 ^ contextPrecision
    · have rounded : roundMoney amount currency = .ok (cents n) := roundMoney_iff.mpr ⟨by rw [rounding], digits⟩
      obtain ⟨e, run, plain⟩ : ∃ e, (program (.creditBalance adjustmentId customerId currency value)).run clock db =
          (.error e, db) ∧ ∀ error, e ≠ .api error :=
        creditBalance_run_refused accepted rounded nonneg known fresh unposted found account credits
      rw [run]
      exact not_orderly plain
    · have failed : roundMoney amount currency = .error .invalidOperation := by
        rw [roundMoney_eq, rounded_money, rounding, cents_coeff, if_neg digits]
      have service : (creditBalance adjustmentId customerId currency amount).exec ⟨clock, [], db⟩ =
          (.error (.decimal .invalidOperation), ⟨clock, [], db⟩) :=
        (exec_bind_ok (exec_assertCustomerExists (s := ⟨clock, [], db⟩) known)).trans
          (exec_bind_error ((exec_ofExcept _ _).trans (by rw [failed]; rfl)))
      have run := creditBalance_error accepted service rfl
      rw [run]
      exact not_orderly fun error same => by cases same

end Credits

section Quotes

variable [Platform] [Settings] {db : Tables} {clock : List Instant} {quoteId customerId : Uuid}
  {source destination : Currency} {sourceAmount : Json} {amount : Decimal}

/-- The rounded amount is quoted, against what the rate of the route makes of it. -/
def QuotesRounded (db : Tables) (source destination : Currency) (amount : ℚ) (reply : Reply) (after : Tables) : Prop :=
  ∃ quote legs routed, reply = .quote quote ∧ after = (Action.quote quote legs).apply db ∧
    routeTerms (rateBook db.currentRates) source destination = .ok routed ∧
    quote.executableRate = routed.executableRate ∧ quote.sourceAmount = Decimal.rounded 2 amount ∧
    roundMoney (quote.sourceAmount * quote.executableRate) destination = .ok quote.destinationAmount

omit [Platform] [Settings] in
theorem roundedAmounts {createdAt : Instant} {quote : Quote} {legs : List QuoteLeg} [Platform]
    (stored : quoteRows db quoteId customerId source destination amount createdAt = .ok (quote, legs)) :
    ∃ routed, routeTerms (rateBook db.currentRates) source destination = .ok routed ∧
      quote.executableRate = routed.executableRate ∧ quote.sourceAmount = Decimal.rounded 2 amount.toRat ∧
      roundMoney (quote.sourceAmount * quote.executableRate) destination = .ok quote.destinationAmount := by
  obtain ⟨terms, quoted, stored⟩ := Except.bind_ok stored
  obtain ⟨rows, taken, same⟩ := Except.bind_ok stored
  cases same
  rw [quoteTerms_routed] at quoted
  obtain ⟨routed, route, quoted⟩ := Except.bind_ok quoted
  obtain ⟨sold, rounded, quoted⟩ := Except.bind_ok quoted
  obtain ⟨bought, converted, same⟩ := Except.bind_ok quoted
  cases same
  exact ⟨routed, route, rfl, roundMoney_ok (arith_eq_ok.mp rounded), arith_eq_ok.mp converted⟩

/-- Quotes from fresh rates are orderly exactly when they are stored. -/
theorem createQuote_orderly_iff {now : Instant} (inv : Invariant db now)
    (accepted : positiveDecimal "source_amount" sourceAmount = .ok amount) (known : db.hasCustomer customerId)
    (unused : db.quote quoteId = none) (differ : source ≠ destination) (fresh : Fresh db.currentRates (clock.headD 0)) :
    Orderly db (QuotesRounded db source destination amount.toRat)
        ((program (.createQuote quoteId customerId source destination sourceAmount)).run clock db) ↔
      Admits db.currentRates source destination amount.toRat := by
  have some : db.currentRates ≠ [] := by
    obtain ⟨latest, found, -⟩ := fresh
    intro none
    rw [none] at found
    cases found
  have through : (quoteGate db (clock.headD 0) >>= fun _ =>
      quoteRows db quoteId customerId source destination amount ((Session.later clock).headD 0)) =
      quoteRows db quoteId customerId source destination amount ((Session.later clock).headD 0) := by
    rw [(quoteGate_eq_ok inv.native).mpr fresh]
    rfl
  rw [createQuote_run accepted differ known, through, ← quoteRows_iff inv some known unused differ]
  cases rows : quoteRows db quoteId customerId source destination amount ((Session.later clock).headD 0) with
  | ok made =>
      obtain ⟨quote, legs⟩ := made
      obtain ⟨routed, priced⟩ := roundedAmounts rows
      exact iff_of_true (.inl ⟨_, rfl, quote, legs, routed, rfl, rfl, priced⟩) ⟨_, rfl⟩
  | error e =>
      refine iff_of_false (not_orderly fun error same => ?_) (by rintro ⟨made, same⟩; cases same)
      subst same
      obtain ⟨refresh, book⟩ := inv.refreshed.current.resolve_left some
      obtain ⟨x, e⟩ | e | e | e := quoteRows_error rows
      · cases e
      · cases e
      · cases e
      · rw [Complete.route book.pairs differ] at e
        cases e

end Quotes

namespace Engine

section Reachability

variable [Platform] [Settings] {start : Instant} {σ : Engine} {clock : List Instant} {customerId : Uuid} {value : Json}
  {amount : Decimal}

/-- In every reachable state a credit or a quote of an accepted amount either does what was
asked for or answers with an error of the engine, exactly when the amount is inside the
bounds of everything that comes after its validation. -/
theorem Reachable.orderly_iff (h : Reachable start σ) (known : σ.world.db.hasCustomer customerId) :
    (∀ adjustmentId currency, σ.world.db.adjustment adjustmentId = none → positiveDecimal "amount" value = .ok amount →
      (Orderly σ.world.db (CreditsRounded σ.world.db adjustmentId customerId currency amount.toRat)
          ((program (.creditBalance adjustmentId customerId currency value)).run clock σ.world.db) ↔
        ∃ held, σ.world.db.balance customerId currency = some ⟨customerId, currency, cents held⟩ ∧
          Credits held amount.toRat)) ∧
    (∀ quoteId source destination, σ.world.db.quote quoteId = none → source ≠ destination →
      Fresh σ.world.db.currentRates (clock.headD 0) → positiveDecimal "source_amount" value = .ok amount →
      (Orderly σ.world.db (QuotesRounded σ.world.db source destination amount.toRat)
          ((program (.createQuote quoteId customerId source destination value)).run clock σ.world.db) ↔
        Admits σ.world.db.currentRates source destination amount.toRat)) :=
  ⟨fun _ _ fresh accepted => creditBalance_orderly_iff h.invariant accepted known fresh,
    fun _ _ _ unused differ fresh accepted => createQuote_orderly_iff h.invariant accepted known unused differ fresh⟩

end Reachability

attribute [local instance] Sample.platform Sample.settings

/-- A credit and a quote of 1.25 are orderly; a credit of a tenth of a cent and a quote for
`1e30` are accepted and not. -/
theorem orderly_iff_sample : ∃ σ : Engine, Reachable 0 σ ∧
    let credited := fun text (amount : Decimal) =>
      Orderly σ.world.db (CreditsRounded σ.world.db 7 1 .KES amount.toRat)
        ((program (.creditBalance 7 1 .KES (.str text))).run [0] σ.world.db)
    let quoted := fun text (amount : Decimal) =>
      Orderly σ.world.db (QuotesRounded σ.world.db .USD .KES amount.toRat)
        ((program (.createQuote 8 1 .USD .KES (.str text))).run [0] σ.world.db)
    credited "1.25" ⟨125, -2⟩ ∧ ¬ credited "0.001" ⟨1, -3⟩ ∧ quoted "1.25" ⟨125, -2⟩ ∧ ¬ quoted "1e30" ⟨1, 30⟩ := by
  obtain ⟨σ, reached, db⟩ := Sample.reachable Sample.prepared (by decide)
  have known : σ.world.db.hasCustomer 1 := by
    rw [db]
    decide +kernel
  have unadjusted : σ.world.db.adjustment 7 = none := by
    rw [db]
    decide +kernel
  have unused : σ.world.db.quote 8 = none := by
    rw [db]
    decide +kernel
  have fresh : Fresh σ.world.db.currentRates 0 := by
    rw [db]
    decide +kernel
  have held : σ.world.db.balance 1 .KES = some ⟨1, .KES, cents 100000⟩ := by
    rw [db]
    decide +kernel
  have credits := fun {text : String} {amount : Decimal} (accepted : positiveDecimal "amount" (.str text) = .ok amount) =>
    (@Reachable.orderly_iff _ _ 0 σ [0] 1 _ amount reached known).1 7 .KES unadjusted accepted
  have quotes := fun {text : String} {amount : Decimal}
      (accepted : positiveDecimal "source_amount" (.str text) = .ok amount) =>
    (@Reachable.orderly_iff _ _ 0 σ [0] 1 _ amount reached known).2 8 .USD .KES unused (by decide) fresh accepted
  refine ⟨σ, reached, (credits rfl).mpr ⟨100000, held, ?_⟩, ?_, (quotes rfl).mpr ?_, ?_⟩
  · unfold Credits
    decide +kernel
  · refine mt (credits rfl).mp ?_
    rintro ⟨held, -, half, -⟩
    norm_num [Decimal.toRat] at half
  · refine ⟨1293500000000, 50, .inl ⟨by decide, by decide, ?_⟩, by decide, by decide, by decide +kernel, by decide +kernel⟩
    rw [db]
    decide +kernel
  · refine mt (quotes rfl).mp ?_
    rintro ⟨n, spread, -, -, -, sold, -⟩
    have cents : (Decimal.toRat ⟨1, 30⟩) * 100 = ((10 ^ 32 : ℤ) : ℚ) := by norm_num [Decimal.toRat]
    rw [cents, halfEven_intCast] at sold
    norm_num [numericPrecision] at sold

/-- A tenth of a cent is accepted and then refused by the ledger, and a quote for `1e30` by
the context. -/
theorem not_orderly_amounts : ∃ σ : Engine, Reachable 0 σ ∧ σ.world.db.hasCustomer 1 ∧ Fresh σ.world.db.currentRates 0 ∧
    positiveDecimal "amount" (.str "0.001") = .ok ⟨1, -3⟩ ∧
    ¬ Orderly σ.world.db (CreditsRounded σ.world.db 7 1 .KES (Decimal.toRat ⟨1, -3⟩))
        ((program (.creditBalance 7 1 .KES (.str "0.001"))).run [0] σ.world.db) ∧
    positiveDecimal "source_amount" (.str "1e30") = .ok ⟨1, 30⟩ ∧
    ¬ Orderly σ.world.db (QuotesRounded σ.world.db .USD .KES (Decimal.toRat ⟨1, 30⟩))
        ((program (.createQuote 8 1 .USD .KES (.str "1e30"))).run [0] σ.world.db) := by
  obtain ⟨σ, reached, db⟩ := Sample.reachable Sample.prepared (by decide)
  have known : σ.world.db.hasCustomer 1 := by
    rw [db]
    decide +kernel
  have unadjusted : σ.world.db.adjustment 7 = none := by
    rw [db]
    decide +kernel
  have unused : σ.world.db.quote 8 = none := by
    rw [db]
    decide +kernel
  have fresh : Fresh σ.world.db.currentRates 0 := by
    rw [db]
    decide +kernel
  refine ⟨σ, reached, known, fresh, rfl, ?_, rfl, ?_⟩
  · intro orderly
    obtain ⟨held, -, half, -⟩ := (creditBalance_orderly_iff reached.invariant rfl known unadjusted).mp orderly
    norm_num [Decimal.toRat] at half
  · intro orderly
    obtain ⟨n, spread, -, -, -, sold, -⟩ :=
      (createQuote_orderly_iff reached.invariant rfl known unused (by decide)
        (show Fresh σ.world.db.currentRates ([0].headD 0) from fresh)).mp orderly
    have cents : (Decimal.toRat ⟨1, 30⟩) * 100 = ((10 ^ 32 : ℤ) : ℚ) := by norm_num [Decimal.toRat]
    rw [cents, halfEven_intCast] at sold
    norm_num [numericPrecision] at sold

end Engine

end FxEngine
