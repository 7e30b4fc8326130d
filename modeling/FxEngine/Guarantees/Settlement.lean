import FxEngine.Guarantees.Amounts
import FxEngine.Guarantees.Verdicts
import FxEngine.Guarantees.Worth

/-! # Which quotes can be executed

Amounts are validated before they are rounded, and the ledger takes positive amounts only.
A quote of an amount that a rounding makes vanish is stored and can never be executed.
-/

namespace FxEngine

open Numeric Transactions Program

/-- Neither the amount nor what the rate of the route makes of it is rounded to zero. -/
def Pays (rows : List CurrentRate) (source destination : Currency) (amount : ℚ) : Prop :=
  1 / 2 < amount * 100 ∧ ∃ n spread, RouteRate rows source destination n spread ∧ n.natAbs < 10 ^ numericPrecision ∧
    1 / 2 < ctx (halfEven (amount * 100) / 100 * (n / 10 ^ 10)) * 100

/-- Both amounts of the quote can be posted to the ledger. -/
def Quote.Postable (q : Quote) : Prop := zeroMoney < q.sourceAmount ∧ zeroMoney < q.destinationAmount

theorem Quote.postable_iff {q : Quote} {spent received : ℤ} (source : q.sourceAmount = cents spent)
    (destination : q.destinationAmount = cents received) : q.Postable ↔ 0 < spent ∧ 0 < received := by
  rw [Postable, source, destination]
  exact and_congr cents_lt cents_lt

/-! ## The two roundings -/

/-- The amounts of a stored quote are positive exactly when its rates pay for it. -/
theorem quoteTerms_postable_iff {rows : List CurrentRate} (complete : Complete rows) {source destination : Currency}
    (differ : source ≠ destination) {amount : Decimal} {terms : Terms}
    (quoted : quoteTerms (rateBook rows) source destination amount = .ok terms) (fits : fitsRate terms.executableRate)
    (columns : ∀ leg ∈ terms.legs, fitsRate leg.executableRate ∧ fitsInteger leg.spreadBps) :
    zeroMoney < terms.sourceAmount ∧ zeroMoney < terms.destinationAmount ↔
      Pays rows source destination amount.toRat := by
  rw [quoteTerms_routed] at quoted
  obtain ⟨routed, route, quoted⟩ := Except.bind_ok quoted
  obtain ⟨sold, rounded, quoted⟩ := Except.bind_ok quoted
  obtain ⟨bought, converted, same⟩ := Except.bind_ok quoted
  cases same
  obtain ⟨n, units, rate⟩ := routeTerms_rate complete differ route columns
  dsimp only at fits ⊢
  rw [units, fitsRate_rateUnits] at fits
  obtain ⟨rfl, -⟩ := roundMoney_iff.mp (arith_eq_ok.mp rounded)
  rw [units] at converted
  obtain ⟨rfl, -⟩ := roundMoney_iff.mp (arith_eq_ok.mp converted)
  have positive : ∀ q : ℚ, zeroMoney < cents (halfEven q) ↔ 1 / 2 < q := fun q => cents_lt.trans halfEven_pos_iff
  rw [positive, positive, cents_mul_rateUnits]
  constructor
  · rintro ⟨half, second⟩
    exact ⟨half, n, _, rate, fits, second⟩
  · rintro ⟨half, n', spread', rate', fits', second⟩
    -- the route has one rate
    obtain ⟨routed', route', units', -⟩ := rate'.priced complete differ fits'
    obtain rfl : routed = routed' := Except.ok.inj (route.symm.trans route')
    obtain rfl : n = n' := congrArg Decimal.coeff (units.symm.trans units')
    exact ⟨half, second⟩

/-! ## Requests that only depend on the quote -/

/-- The key is fresh, the quote is neither executed nor expired, and there is money for it
and room for what it pays. -/
structure Due [Platform] (db : Tables) (q : Quote) (executionId : Uuid) (key : String) (t : Instant) : Prop where
  given : key ≠ ""
  length : key.length ≤ idempotencyKeyMaxLength
  unclaimed : db.idempotencyKey executionsEndpoint key = none
  fresh : db.execution executionId = none
  unexecuted : db.executionOf q.id = none
  unexpired : t < q.expiresAt
  funded : q.sourceAmount.toRat ≤ db.holding q.customerId q.sourceCurrency
  room : db.holding q.customerId q.destinationCurrency + q.destinationAmount.toRat < 10 ^ 18

section Requests

variable [Platform] {db : Tables} {q : Quote} {executionId : Uuid} {key : String} {t : Instant} {spent received : ℤ}

instance : Decidable (Due db q executionId key t) :=
  decidable_of_iff (key ≠ "" ∧ key.length ≤ idempotencyKeyMaxLength ∧
      db.idempotencyKey executionsEndpoint key = none ∧ db.execution executionId = none ∧ db.executionOf q.id = none ∧
      t < q.expiresAt ∧ q.sourceAmount.toRat ≤ db.holding q.customerId q.sourceCurrency ∧
      db.holding q.customerId q.destinationCurrency + q.destinationAmount.toRat < 10 ^ 18)
    ⟨fun ⟨given, length, unclaimed, fresh, unexecuted, unexpired, funded, room⟩ =>
      { given, length, unclaimed, fresh, unexecuted, unexpired, funded, room },
    fun h => ⟨h.given, h.length, h.unclaimed, h.fresh, h.unexecuted, h.unexpired, h.funded, h.room⟩⟩

theorem Comes.of_refused [Settings] {completedAt : Instant} {e : PyError} {ended : Except PyError Reply × Tables}
    (h : Comes db executionId key completedAt (.refused e) ended) : ended = (.error e, db) := by
  cases h
  rfl

/-- Such a request comes down to the amounts. -/
theorem Due.verdict (h : Due db q executionId key t) (accounts : Accounts db) (stored : db.quote q.id = some q)
    (source : q.sourceAmount = cents spent) (destination : q.destinationAmount = cents received) :
    FxEngine.verdict db t q.id key = if spent ≤ 0 ∨ received ≤ 0 then
      .refused (.valueError "ledger entry amount must be positive") else .settles q := by
  have funded := h.funded
  have room := h.room
  rw [source, cents_toRat, Tables.holding_eq accounts, div_le_div_iff_of_pos_right (by norm_num)] at funded
  replace funded : spent ≤ db.owed q.customerId q.sourceCurrency := by exact_mod_cast funded
  rw [destination, cents_toRat, Tables.holding_eq accounts, ← add_div, div_lt_iff₀ (by norm_num)] at room
  replace room : db.owed q.customerId q.destinationCurrency + received < 10 ^ numericPrecision := by
    have : (db.owed q.customerId q.destinationCurrency + received : ℚ) < 10 ^ 20 := by linarith
    exact_mod_cast this
  have refusal : quoteRefusal db t q = if spent ≤ 0 ∨ received ≤ 0 then
      some (.valueError "ledger entry amount must be positive") else none := by
    rw [quoteRefusal, if_neg (by rw [h.unexecuted]; simp), if_neg (not_le.mpr h.unexpired), fundsRefusal, source,
      destination, cents_coeff, cents_coeff, if_neg (not_lt.mpr funded)]
    split
    · rfl
    · exact if_neg (not_le.mpr room)
  rw [FxEngine.verdict, if_neg h.given, h.unclaimed]
  dsimp only
  rw [if_neg (not_lt.mpr h.length), stored]
  dsimp only
  rw [refusal]
  by_cases vanished : spent ≤ 0 ∨ received ≤ 0
  · rw [if_pos vanished, if_pos vanished]
  · rw [if_neg vanished, if_neg vanished]

end Requests

namespace Engine

variable [Platform] [Settings] {start : Instant} {σ τ : Engine} {q : Quote}

/-- The call that created a stored quote, the book it was priced from and the amount it was
asked for. -/
theorem Reachable.requested (h : Reachable start σ) (stored : σ.world.db.quote q.id = some q) :
    ∃ e ∈ σ.history, e.world.db.quote q.id = none ∧ e.after.quote q.id = some q ∧
      ∃ value amount rows refresh terms,
        e.call = .createQuote q.id q.customerId q.sourceCurrency q.destinationCurrency value ∧
        positiveDecimal "source_amount" value = .ok amount ∧ BookOf σ.world.db rows refresh ∧
        Priced rows q (σ.world.db.legsOf q.id) ∧
        quoteTerms (rateBook rows) q.sourceCurrency q.destinationCurrency amount = .ok terms ∧
        q = terms.toQuote q.id q.customerId q.sourceCurrency q.destinationCurrency q.createdAt ∧
        ∀ leg ∈ terms.legs, fitsRate leg.executableRate ∧ fitsInteger leg.spreadBps := by
  obtain ⟨e, member, before, after, performs, grown⟩ := h.created stored
  obtain ⟨value, called⟩ := performs.quote
  rw [called] at performs
  obtain ⟨row, legs, same, -, -, -, -, checkedAt, rows, refresh, -, book, priced,
    ⟨amount, terms, accepted, quoted, row_, columns⟩, -⟩ := performs
  cases same
  exact ⟨e, member, before, after, value, amount, rows, refresh, terms, called, accepted, grown.book book, priced, quoted,
    row_, columns⟩

/-- A due request is settled unless an amount vanished. -/
theorem Reachable.comes_due (h : Reachable start σ) (stored : σ.world.db.quote q.id = some q) {executionId : Uuid}
    {key : String} {clock : List Instant} (due : Due σ.world.db q executionId key (clock.headD 0))
    (jsonb : ∀ response : ExecutionResponse, response.Fits → (Platform.jsonb response.modelDump).Same response.modelDump)
    {spent received : ℤ} (source : q.sourceAmount = cents spent) (destination : q.destinationAmount = cents received) :
    Comes σ.world.db executionId key ((Session.later clock).headD 0)
      (if spent ≤ 0 ∨ received ≤ 0 then .refused (.valueError "ledger entry amount must be positive") else .settles q)
      ((program (.executeQuote executionId q.id key)).run clock σ.world.db) := by
  rw [← due.verdict h.invariant.accounts stored source destination]
  exact executeQuote_comes q.id key clock h.invariant due.fresh jsonb

/-- Every quote that any interleaving stored has positive amounts, and a request that only
depends on it settles it, exactly when the rates it was priced from pay for the amount that
was asked for. Otherwise every such request ends with an exception of the ledger, and the
quote is never executed. -/
theorem Reachable.settled_iff (h : Reachable start σ) (stored : σ.world.db.quote q.id = some q)
    (jsonb : ∀ response : ExecutionResponse, response.Fits → (Platform.jsonb response.modelDump).Same response.modelDump) :
    ∃ e ∈ σ.history, e.world.db.quote q.id = none ∧ e.after.quote q.id = some q ∧
      ∃ value amount rows refresh,
        e.call = .createQuote q.id q.customerId q.sourceCurrency q.destinationCurrency value ∧
        positiveDecimal "source_amount" value = .ok amount ∧ BookOf σ.world.db rows refresh ∧
        Priced rows q (σ.world.db.legsOf q.id) ∧
        let pays := Pays rows q.sourceCurrency q.destinationCurrency amount.toRat
        (q.Postable ↔ pays) ∧
        ∀ τ, Run program σ τ → (¬ pays → τ.world.db.executionOf q.id = none) ∧
          ∀ executionId key clock, Due τ.world.db q executionId key (clock.headD 0) →
            let ended := (program (.executeQuote executionId q.id key)).run clock τ.world.db
            (Comes τ.world.db executionId key ((Session.later clock).headD 0) (.settles q) ended ↔ pays) ∧
            (¬ pays → ended = (.error (.valueError "ledger entry amount must be positive"), τ.world.db)) := by
  obtain ⟨e, member, before, after, value, amount, rows, refresh, terms, call, accepted, book, priced, quoted, row,
    columns⟩ := h.requested stored
  refine ⟨e, member, before, after, value, amount, rows, refresh, call, accepted, book, priced, ?_⟩
  intro pays
  have rate : terms.executableRate = q.executableRate := by rw [row]; rfl
  have same : q.Postable ↔ Pays rows q.sourceCurrency q.destinationCurrency amount.toRat := by
    have terms_ := quoteTerms_postable_iff book.pairs priced.differ quoted (rate ▸ priced.fits.2.2) columns
    rw [← terms_, Quote.Postable, row]
    rfl
  refine ⟨same, fun τ run => ?_⟩
  have reached := h.run run
  have kept : τ.world.db.quote q.id = some q := (h.grown run).quote stored
  refine ⟨fun unpaid => ?_, fun executionId key clock due => ?_⟩
  · by_contra executed
    obtain ⟨x, found⟩ := Option.ne_none_iff_exists'.mp executed
    obtain ⟨inside, named⟩ := Table.row_some found
    exact unpaid (same.mp (reached.executed_positive inside ((congrArg _ named).trans kept)))
  intro ended
  obtain ⟨spent, received, source, destination, -, -⟩ := priced.amounts
  have comes := reached.comes_due kept due jsonb source destination
  have amounts : pays ↔ 0 < spent ∧ 0 < received := same.symm.trans (Quote.postable_iff source destination)
  rw [amounts]
  by_cases vanished : spent ≤ 0 ∨ received ≤ 0
  · have against : ¬ (0 < spent ∧ 0 < received) := by omega
    rw [if_pos vanished] at comes
    have failed := comes.of_refused
    refine ⟨iff_of_false (fun settles => ?_) against, fun _ => failed⟩
    rw [show ended = _ from failed] at settles
    cases settles
  · rw [if_neg vanished] at comes
    exact ⟨iff_of_true comes (by omega), fun against => absurd (by omega) against⟩

end Engine

attribute [local instance] Sample.platform Sample.settings

namespace Sample

/-- The customer 1 with 1000 shillings, and the quote 5 of some of them. -/
def asked (destination : Currency) (text : String) : List (Call × List Instant) :=
  opened (answer "130" "1500" "0.9") ++
    [(.creditBalance 4 1 .KES (.str "1000.00"), [0]), (.createQuote 5 1 .KES destination (.str text), [0])]

/-- The quotes of a hundred shillings and of a tenth of a cent. -/
def paying : Quote :=
  ⟨5, 1, .KES, .NGN, cents 10000, cents 114237, ⟨114236509688, -10⟩, [.KES, .USD, .NGN], 100, 0, 60000000⟩

def vanished : Quote :=
  ⟨5, 1, .KES, .NGN, cents 0, cents 0, ⟨114236509688, -10⟩, [.KES, .USD, .NGN], 100, 0, 60000000⟩

end Sample

open Sample in
/-- A hundred shillings are settled, a tenth of a cent is not. -/
theorem Engine.settled_iff_sample : ∃ σ τ : Engine, Engine.Reachable 0 σ ∧ Engine.Reachable 0 τ ∧
    σ.world.db.quote 5 = some paying ∧ τ.world.db.quote 5 = some vanished ∧
    Comes σ.world.db 6 "k" 0 (.settles paying) ((program (.executeQuote 6 5 "k")).run [0] σ.world.db) ∧
    (program (.executeQuote 6 5 "k")).run [0] τ.world.db =
      (.error (.valueError "ledger entry amount must be positive"), τ.world.db) := by
  obtain ⟨σ, reached, db⟩ := Sample.reachable (asked .NGN "100.00") (by decide)
  obtain ⟨τ, reached', db'⟩ := Sample.reachable (asked .NGN "0.001") (by decide)
  have stored : σ.world.db.quote 5 = some paying ∧ Due σ.world.db paying 6 "k" 0 := by
    rw [db]
    decide +kernel
  have stored' : τ.world.db.quote 5 = some vanished ∧ Due τ.world.db vanished 6 "k" 0 := by
    rw [db']
    decide +kernel
  refine ⟨σ, τ, reached, reached', stored.1, stored'.1, ?_, ?_⟩
  · obtain ⟨_, -, -, -, _, _, _, _, -, -, -, -, positive, later⟩ :=
      @Engine.Reachable.settled_iff _ _ 0 σ paying reached stored.1 fun _ _ => .refl _
    have pays := positive.mp ((Quote.postable_iff rfl rfl).mpr (by decide))
    exact (((later σ .refl).2 6 "k" [0] stored.2).1).mpr pays
  · obtain ⟨_, -, -, -, _, _, _, _, -, -, -, -, positive, later⟩ :=
      @Engine.Reachable.settled_iff _ _ 0 τ vanished reached' stored'.1 fun _ _ => .refl _
    have unpaid := positive.not.mp ((Quote.postable_iff rfl rfl).not.mpr (by decide))
    exact ((later τ .refl).2 6 "k" [0] stored'.2).2 unpaid

open Sample in
/-- A tenth of a cent is accepted and quoted, and the quote cannot be executed. -/
theorem Engine.not_settled : ∃ (σ : Engine) (p : Proc fx Call Reply) (reply : Reply), Engine.Reachable 0 σ ∧
    positiveDecimal "source_amount" (.str "0.001") = .ok ⟨1, -3⟩ ∧
    σ.procs 3 = some p ∧ p.call = .createQuote 5 1 .KES .NGN (.str "0.001") ∧ p.prog = .ofExcept (.ok reply) ∧
    σ.world.db.quote 5 = some vanished ∧ ¬ zeroMoney < vanished.sourceAmount ∧
    ¬ zeroMoney < vanished.destinationAmount ∧ Due σ.world.db vanished 6 "k" 0 ∧
    (program (.executeQuote 6 5 "k")).run [0] σ.world.db =
      (.error (.valueError "ledger entry amount must be positive"), σ.world.db) := by
  obtain ⟨σ, reached, db, -, -, -, ends⟩ := Engine.serial_reachable (Sample.ordered (asked .NGN "0.001") (by decide))
  have replied : ((serial program (asked .NGN "0.001") {}).1[3]?.map (·.isOk)) = some true := by
    decide +kernel
  obtain ⟨r, found, ok⟩ := Option.map_eq_some_iff.mp replied
  obtain ⟨reply, rfl⟩ := Except.of_isOk ok
  obtain ⟨p, at_, call, done⟩ := ends 3 _ found
  have stored : σ.world.db.quote 5 = some vanished ∧ Due σ.world.db vanished 6 "k" 0 := by
    rw [db]
    decide +kernel
  have low : ¬ zeroMoney < cents 0 := cents_lt.not.mpr (lt_irrefl 0)
  have comes := @Engine.Reachable.comes_due _ _ 0 σ vanished reached stored.1 6 "k" [0] stored.2 (fun _ _ => .refl _) 0 0
    rfl rfl
  rw [if_pos (.inl le_rfl)] at comes
  exact ⟨σ, p, reply, reached, rfl, at_, (Option.some.inj call).symm, done, stored.1, low, low, stored.2,
    comes.of_refused⟩

end FxEngine
