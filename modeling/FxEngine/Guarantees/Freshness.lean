import FxEngine.Correctness.Counters
import FxEngine.Correctness.Engine
import FxEngine.Correctness.Freshness
import FxEngine.Transactions.Marks

/-! # Readiness, quoting and the counter of stale rates

Readiness and the quote path test the freshness of the rates separately, and agree. The
test that the service offers to the quote path counts its refusals; the one written into
it does not.
-/

namespace FxEngine

open Numeric Transactions Program

/-- A refusal for want of fresh rates. -/
def RatesRefused (r : Except PyError Reply) : Prop :=
  ∃ detail, r = .error (serviceUnavailable errorRatesStale detail)

/-- A readiness report. -/
def Reports (status : String) (r : Except PyError Reply) : Prop :=
  ∃ database rates, r = .ok (.readiness status database rates)

/-- The gate and the route give different reasons. -/
theorem gate_details (a b : Currency) : ∀ detail ∈ ["Rates are unavailable.", "Rates are stale."],
    detail ∉ [s!"No route available for {a.value}/{b.value}.", s!"Rate missing for {a.value}/{b.value}."] := by
  cases a <;> cases b <;> decide

section Readiness

variable [Platform] [Settings]

theorem reports_readyz {db : Tables} (native : db.foreignRates = []) (t : Instant) (later : List Instant) :
    (Reports "ready" ((program .readyz).run (t :: later) db).1 ↔ Fresh db.currentRates t) ∧
      (Reports "not_ready" ((program .readyz).run (t :: later) db).1 ↔ Stale db.currentRates t) ∧
      ∀ e, bookGate (rateBook db.currentRates) t = .error e → ¬ Stale db.currentRates t →
        ((program .readyz).run (t :: later) db).1 = .error e := by
  have same : sharedGate db t = quoteGate db t := sharedGate_native native
  rw [quoteGate_native native] at same
  rw [readyz_run, List.headD_cons]
  rw [sharedGate] at same
  cases found : freshness db t with
  | error e =>
      rw [found] at same
      have failed := freshness_error found
      rcases bookGate_cases db.currentRates t with ⟨fresh, passed⟩ | ⟨stale, refused⟩ | ⟨-, unbounded, overflow⟩
      · rw [passed] at same
        cases same
      · rw [refused] at same
        rcases failed with rfl | rfl <;> cases same
      · rw [overflow] at same
        obtain rfl := Except.error.inj same
        have notStale : ¬ Stale db.currentRates t := fun stale => by
          rw [bookGate_stale stale] at overflow
          cases overflow
        have notFresh : ¬ Fresh db.currentRates t := fun fresh => by
          rw [bookGate_eq_ok.mpr fresh] at overflow
          cases overflow
        refine ⟨by simp [Reports, Except.map, notFresh], by simp [Reports, Except.map, notStale], fun e failed _ => ?_⟩
        rw [overflow] at failed
        cases failed
        rfl
  | ok status =>
      rw [found] at same
      by_cases fresh : status = "fresh"
      · simp only [fresh, if_true] at same
        have holds := bookGate_eq_ok.mp same.symm
        refine ⟨by simp [Reports, Except.map, fresh, holds], by simp [Reports, Except.map, fresh, holds.not_stale],
          fun e failed => ?_⟩
        rw [← same] at failed
        cases failed
      · simp only [fresh, if_false] at same
        rcases bookGate_cases db.currentRates t with ⟨holds, passed⟩ | ⟨stale, refused⟩ | ⟨-, unbounded, overflow⟩
        · rw [passed] at same
          cases same
        · have notFresh : ¬ Fresh db.currentRates t := fun holds => holds.not_stale stale
          exact ⟨by simp [Reports, Except.map, fresh, notFresh], by simp [Reports, Except.map, fresh, stale],
            fun e _ other => absurd stale other⟩
        · rw [overflow] at same
          cases same

variable {db : Tables} {quoteId customerId : Uuid} {source destination : Currency} {sourceAmount : Json}
  {amount : Decimal} {t : Instant} {later : List Instant}

/-- A quote that the gate turns away gets the gate's answer. -/
theorem createQuote_turned_away (clock : List Instant)
    (accepted : positiveDecimal "source_amount" sourceAmount = .ok amount)
    (differ : source ≠ destination) (known : db.hasCustomer customerId) {e : PyError}
    (refused : quoteGate db (clock.headD 0) = .error e) :
    ((program (.createQuote quoteId customerId source destination sourceAmount)).run clock db).1 = .error e := by
  rw [createQuote_run accepted differ known, refused]
  rfl

/-- One that passes can only fail for other reasons. -/
theorem createQuote_passed (clock : List Instant)
    (accepted : positiveDecimal "source_amount" sourceAmount = .ok amount)
    (differ : source ≠ destination) (known : db.hasCustomer customerId)
    (passed : quoteGate db (clock.headD 0) = .ok ()) {e : PyError}
    (failed : ((program (.createQuote quoteId customerId source destination sourceAmount)).run clock db).1 =
      .error e) :
    (∃ x, e = .decimal x) ∨ e = .dataError ∨ e = .integrityError ∨
      buildRoute (rateBook db.currentRates) source destination = .error e := by
  have through : (quoteGate db (clock.headD 0) >>= fun _ =>
      quoteRows db quoteId customerId source destination amount ((Session.later clock).headD 0)) =
      quoteRows db quoteId customerId source destination amount ((Session.later clock).headD 0) := by
    rw [passed]
    rfl
  rw [createQuote_run accepted differ known, through] at failed
  cases rows : quoteRows db quoteId customerId source destination amount ((Session.later clock).headD 0) with
  | ok made =>
      rw [rows] at failed
      cases failed
  | error e' =>
      rw [rows] at failed
      cases failed
      exact quoteRows_error rows

namespace Engine

variable {start : Instant} {σ : Engine}

/-- Readiness reported at an instant is what a quote at that instant meets, as long as the
window begins at a `datetime` or there are no rates; otherwise both overflow. No quote is
refused for a missing route, a missing rate or a wrong direction. -/
theorem Reachable.ready_iff_quoting (h : Reachable start σ)
    (accepted : positiveDecimal "source_amount" sourceAmount = .ok amount) (differ : source ≠ destination)
    (known : σ.world.db.hasCustomer customerId) :
    let ready := ((program .readyz).run [t] σ.world.db).1
    let quoted := ((program (.createQuote quoteId customerId source destination sourceAmount)).run (t :: later)
      σ.world.db).1
    let measured := σ.world.db.currentRates = [] ∨ isDatetime (t - seconds Settings.rateFreshnessSeconds)
    (measured → (Reports "ready" ready ↔ ¬ RatesRefused quoted) ∧ (Reports "not_ready" ready ↔ RatesRefused quoted)) ∧
      (¬ measured → ready = .error .overflowError ∧ quoted = .error .overflowError) ∧
      (∀ a b : Currency, ∀ detail ∈ [s!"No route available for {a.value}/{b.value}.",
        s!"Rate missing for {a.value}/{b.value}."], quoted ≠ .error (serviceUnavailable errorRatesStale detail)) ∧
      quoted ≠ .error (validationError "Rate direction does not match requested leg." []) := by
  intro ready quoted measured
  have native := h.invariant.native
  obtain ⟨isReady, isNot, failed⟩ := reports_readyz native t []
  have turned : ∀ {e}, bookGate (rateBook σ.world.db.currentRates) t = .error e → quoted = .error e := fun {e} same =>
    createQuote_turned_away (t :: later) accepted differ known ((quoteGate_native native).trans same)
  rcases bookGate_cases σ.world.db.currentRates t with ⟨fresh, gate⟩ | ⟨stale, gate⟩ | ⟨some, unbounded, gate⟩
  · -- the rates come from a refresh, so there is a route
    obtain ⟨latest, found, bounded, -⟩ := id fresh
    have some : σ.world.db.currentRates ≠ [] := fun none => by
      rw [none] at found
      cases found
    obtain ⟨refresh, book⟩ := h.invariant.refreshed.current.resolve_left some
    have there := Complete.route book.pairs differ
    have other : ∀ {detail : ApiError}, quoted ≠ .error (.api detail) := by
      intro error failed
      obtain ⟨x, e⟩ | e | e | e := createQuote_passed (t :: later) accepted differ known
        ((quoteGate_native native).trans gate) failed
      · cases e
      · cases e
      · cases e
      · rw [there] at e
        cases e
    have passed : ¬ RatesRefused quoted := by
      rintro ⟨detail, failed⟩
      exact other failed
    refine ⟨fun _ => ?_, fun unmeasured => absurd (.inr bounded) unmeasured, fun _ _ _ _ => other, other⟩
    exact ⟨by simp [ready, isReady, passed, fresh], by simp [ready, isNot, passed, fresh.not_stale]⟩
  · have refused := turned gate
    have rejected : RatesRefused quoted := ⟨_, refused⟩
    have notFresh : ¬ Fresh σ.world.db.currentRates t := fun fresh => fresh.not_stale stale
    refine ⟨fun _ => ?_, fun unmeasured => ?_, ?_, ?_⟩
    · exact ⟨by simp [ready, isReady, rejected, notFresh], by simp [ready, isNot, rejected, stale]⟩
    · rw [not_or] at unmeasured
      obtain ⟨latest, found⟩ := Option.ne_none_iff_exists'.mp (mt rateBook_nil_iff.mp unmeasured.1)
      exact absurd (stale latest found).1 unmeasured.2
    · intro a b other unlisted same
      rw [refused] at same
      have details : (if σ.world.db.currentRates = [] then "Rates are unavailable." else "Rates are stale.") = other := by
        simpa [serviceUnavailable] using same
      exact gate_details a b _ (refusal_details _) (details ▸ unlisted)
    · rw [refused]
      intro same
      cases same
  · have overflow := turned gate
    have notStale : ¬ Stale σ.world.db.currentRates t := fun stale => by
      rw [bookGate_stale stale] at gate
      cases gate
    refine ⟨fun either => ?_, fun _ => ⟨failed _ gate notStale, overflow⟩, fun _ _ _ _ same => ?_, fun same => ?_⟩
    · exact absurd (either.resolve_left some) unbounded
    · rw [overflow] at same
      cases same
    · rw [overflow] at same
      cases same

end Engine

end Readiness

/-! ## Counting refusals -/

section Counting

variable [Platform] [Settings]

/-- A quote request with the clock readings it gets and the tables it finds. -/
structure QuoteRequest where
  quoteId : Uuid
  customerId : Uuid
  source : Currency
  destination : Currency
  sourceAmount : Json
  clock : List Instant
  db : Tables

namespace QuoteRequest

variable (request : QuoteRequest)

def call : Call :=
  .createQuote request.quoteId request.customerId request.source request.destination request.sourceAmount

def answer : Except PyError Reply := ((program request.call).run request.clock request.db).1

def counts : List Counter := (program request.call).tally ⟨request.clock, [], request.db⟩

/-- The request comes as far as the freshness gate. -/
def MeetsGate : Prop :=
  (positiveDecimal "source_amount" request.sourceAmount).isOk ∧ request.source ≠ request.destination ∧
    request.db.hasCustomer request.customerId

instance : Decidable request.MeetsGate := inferInstanceAs (Decidable (_ ∧ _ ∧ _))

variable {request}

theorem counts_none : Counter.staleRatesTotal ∉ request.counts := (program_spares _).tally _

/-- Short of it, it is rejected for what is wrong with the request. -/
theorem rejected (short : ¬ request.MeetsGate) :
    ∃ error : ApiError, request.answer = .error (.api error) ∧ error.statusCode ≠ 503 := by
  let s : Session fx := ⟨request.clock, [], request.db⟩
  have ended : ∀ {p : Tx Reply} {e : PyError} {s' : Session fx}, program request.call = p →
      p.exec s = (.error e, s') → request.answer = .error e := by
    intro p e s' same failed
    rw [answer, same, Program.run, failed]
  cases accepted : positiveDecimal "source_amount" request.sourceAmount with
  | error e =>
      obtain ⟨errors, rfl⟩ := positiveDecimal_error accepted
      have failed : (Program.ofExcept (positiveDecimal "source_amount" request.sourceAmount) : Tx Decimal).exec s =
          (.error (validationError "Request validation failed." errors), s) := by
        rw [exec_ofExcept, accepted]
      exact ⟨_, ended rfl (exec_bind_error failed), by norm_num⟩
  | ok amount =>
      have service : ∀ {e : PyError} {s' : Session fx},
          (createQuote request.quoteId request.customerId request.source request.destination amount).exec s =
            (.error e, s') → request.answer = .error e := fun failed =>
        ended rfl ((exec_bind_ok ((exec_ofExcept _ s).trans (by rw [accepted]))).trans (exec_bind_error failed))
      by_cases differ : request.source = request.destination
      · have failed : (createQuote request.quoteId request.customerId request.source request.destination amount).exec s =
            (.error (validationError "source_currency and destination_currency must differ." []), s) := by
          rw [createQuote, if_pos differ]
          rfl
        exact ⟨_, service failed, by norm_num⟩
      · have unknown : ¬ request.db.hasCustomer request.customerId := fun known =>
          short ⟨by rw [accepted]; rfl, differ, known⟩
        exact ⟨_, service ((exec_if_neg differ).trans
          (exec_bind_error (exec_assertCustomerExists_unknown (s := s) unknown))), by norm_num⟩

/-- It is refused there exactly when all rows are rates and the rates are stale. -/
theorem refused_iff : staleRefusal request.answer ↔ request.MeetsGate ∧ request.db.foreignRates = [] ∧
    Stale request.db.currentRates (request.clock.headD 0) := by
  by_cases meets : request.MeetsGate
  · obtain ⟨accepted, differ, known⟩ := id meets
    obtain ⟨amount, accepted⟩ := Except.of_isOk accepted
    have turned : ∀ {e}, quoteGate request.db (request.clock.headD 0) = .error e → request.answer = .error e :=
      createQuote_turned_away _ accepted differ known
    simp only [meets, true_and]
    by_cases native : request.db.foreignRates = []
    · simp only [native, true_and]
      rcases bookGate_cases request.db.currentRates (request.clock.headD 0) with
        ⟨fresh, gate⟩ | ⟨stale, gate⟩ | ⟨some, unbounded, gate⟩
      · simp only [fresh.not_stale, iff_false]
        intro refused
        obtain ⟨detail, listed, failed⟩ := staleRefusal_iff.mp refused
        obtain ⟨x, e⟩ | e | e | e := createQuote_passed _ accepted differ known
          ((quoteGate_native native).trans gate) failed
        · cases e
        · cases e
        · cases e
        · have same : detail =
              s!"No route available for {request.source.value}/{request.destination.value}." := by
            simpa [serviceUnavailable] using buildRoute_error e
          exact gate_details _ _ detail listed (by rw [same]; exact List.mem_cons_self)
      · simp only [stale, iff_true]
        exact staleRefusal_iff.mpr ⟨_, refusal_details _, turned ((quoteGate_native native).trans gate)⟩
      · rw [turned ((quoteGate_native native).trans gate)]
        refine iff_of_false (by decide) fun stale => ?_
        rw [bookGate_stale stale] at gate
        cases gate
    · obtain ⟨e, failed, kind⟩ := loadForeign_error native
      have gate : quoteGate request.db (request.clock.headD 0) = .error e := by rw [quoteGate, failed]
      rw [turned gate]
      refine iff_of_false (fun refused => ?_) fun both => native both.1
      obtain ⟨detail, -, same⟩ := staleRefusal_iff.mp refused
      rcases kind with rfl | ⟨message, rfl⟩ <;> cases same
  · obtain ⟨error, answered, other⟩ := rejected meets
    simp only [meets, false_and, iff_false]
    intro refused
    obtain ⟨detail, -, failed⟩ := staleRefusal_iff.mp refused
    rw [answered] at failed
    cases failed
    exact other rfl

/-- Requests count what the gate refuses exactly when it refuses none. -/
theorem counted_iff (requests : List QuoteRequest) :
    (requests.flatMap counts).count .staleRatesTotal = requests.countP (staleRefusal ·.answer) ↔
      ∀ request ∈ requests, request.MeetsGate → request.db.foreignRates = [] →
        ¬ Stale request.db.currentRates (request.clock.headD 0) := by
  have none : (requests.flatMap counts).count .staleRatesTotal = 0 := by
    rw [List.count_eq_zero, List.mem_flatMap]
    rintro ⟨request, -, counted⟩
    exact counts_none counted
  rw [none, eq_comm, List.countP_eq_zero]
  refine forall_congr' fun request => imp_congr_right fun _ => ?_
  rw [refused_iff]
  tauto

end QuoteRequest

/-- What a freshness test answers and counts. -/
def observed {α : Type} (test : Tx α) (s : Session fx) : Except PyError Unit × List Counter :=
  ((test.exec s).1.map fun _ => (), test.tally s)

theorem observed_gate (s : Session fx) : observed freshRateBook s = (quoteGate s.view (s.clock.headD 0), []) := by
  obtain ⟨refused, passed⟩ := exec_freshRateBook s
  refine Prod.ext ?_ (tally_freshRateBook s)
  dsimp only [observed]
  cases gate : quoteGate s.view (s.clock.headD 0) with
  | error e =>
      obtain ⟨s', failed, -⟩ := refused e gate
      rw [failed]
      rfl
  | ok _ =>
      rw [passed gate]
      rfl

theorem observed_ensureFreshRates (s : Session fx) : observed ensureFreshRates s =
    (sharedGate s.view (s.clock.headD 0),
      if staleRefusal (sharedGate s.view (s.clock.headD 0)) then [.staleRatesTotal] else []) := by
  obtain ⟨answer, counts⟩ := exec_ensureFreshRates s
  refine Prod.ext ?_ counts
  rw [← answer]
  dsimp only [observed]
  cases (ensureFreshRates.exec s).1 <;> rfl

omit [Platform] in
/-- The two gates give one answer unless there is a row that only one of them trips over. -/
theorem gates_agree_iff {db : Tables} {t : Instant} :
    quoteGate db t = sharedGate db t ↔ db.foreignRates = [] ∨ db.Unloadable := by
  by_cases native : db.foreignRates = []
  · simp [native, sharedGate_native]
  by_cases unloadable : db.Unloadable
  · simp [unloadable, sharedGate_unloadable, quoteGate, loadForeign_unloadable]
  simp only [native, unloadable, or_self, iff_false]
  obtain ⟨e, failed, kind⟩ := loadForeign_error native
  rw [quoteGate, failed]
  obtain passed | ⟨detail, refused⟩ | overflow : sharedGate db t = .ok () ∨
      (∃ detail, sharedGate db t = .error (serviceUnavailable errorRatesStale detail)) ∨
      sharedGate db t = .error .overflowError := sharedGate_loadable unloadable
  · rw [passed]
    rcases kind with rfl | ⟨message, rfl⟩ <;> simp
  · rw [refused]
    rcases kind with rfl | ⟨message, rfl⟩ <;> simp [serviceUnavailable]
  · rw [overflow]
    rcases kind with rfl | ⟨message, rfl⟩ <;> simp

/-- They are the same, counting included, where moreover the rates are not stale. -/
theorem observed_iff (s : Session fx) : observed freshRateBook s = observed ensureFreshRates s ↔
    (Tables.foreignRates s.view = [] ∧ ¬ Stale (Tables.currentRates s.view) (s.clock.headD 0)) ∨
      Tables.Unloadable s.view := by
  rw [observed_gate, observed_ensureFreshRates, Prod.mk.injEq, gates_agree_iff]
  generalize s.clock.headD 0 = t
  by_cases unloadable : Tables.Unloadable s.view
  · simp [unloadable, sharedGate_unloadable, staleRefusal, serviceUnavailable]
  by_cases native : Tables.foreignRates s.view = []
  · simp only [native, unloadable, or_false, true_and]
    rw [sharedGate_native native, quoteGate_native native]
    rcases bookGate_cases (Tables.currentRates s.view) t with
      ⟨fresh, gate⟩ | ⟨stale, gate⟩ | ⟨some, unbounded, gate⟩
    · simp [gate, fresh.not_stale, staleRefusal]
    · have refusal := staleRefusal_iff.mpr ⟨_, refusal_details _, gate⟩
      simp [refusal, stale]
    · have notStale : ¬ Stale (Tables.currentRates s.view) t := fun stale => by
        rw [bookGate_stale stale] at gate
        cases gate
      simp [gate, notStale, staleRefusal, serviceUnavailable]
  · simp [native, unloadable]

/-! ### Where a quote request is refused -/

/-- The rest of a quote request that has loaded its rate book and comes to the freshness test. -/
def tested (quoteId customerId : Uuid) (source destination : Currency) (amount : Decimal) (book : CurrentRateBook) :
    Tx Reply := do
  let book ← checkFresh book
  let quote ← quoteFrom quoteId customerId source destination amount book
  pure (.quote quote)

/-- The rest of one that is about to load it. -/
def loading (quoteId customerId : Uuid) (source destination : Currency) (amount : Decimal) : Tx Reply :=
  .read fun db : Tables => do
    ofExcept (loadForeign db.foreignRates)
    tested quoteId customerId source destination amount (rateBook db.currentRates)

/-- The gate is about to refuse: there are no rates to load, or those it has loaded are stale. -/
inductive Refuses : Tx Reply → Tables → Instant → Prop
  | unavailable {quoteId customerId source destination amount} {db : Tables} {t : Instant} :
      db.foreignRates = [] → db.currentRates = [] →
      Refuses (loading quoteId customerId source destination amount) db t
  | stale {quoteId customerId source destination amount rows} {db : Tables} {t : Instant} :
      rows ≠ [] → Stale rows t →
      Refuses (tested quoteId customerId source destination amount (rateBook rows)) db t

/-- The refusals of the gate. -/
def StaleError (e : PyError) : Prop := staleRefusal (.error e : Except PyError Reply)

omit [Platform] [Settings] in
theorem staleError_iff {e : PyError} : StaleError e ↔
    ∃ detail ∈ ["Rates are unavailable.", "Rates are stale."], e = serviceUnavailable errorRatesStale detail := by
  rw [StaleError, staleRefusal_iff]
  simp only [Except.error.injEq]

omit [Platform] [Settings] in
theorem not_staleError {e : PyError} (other : (∃ x, e = .decimal x) ∨ e = .dataError ∨ e = .integrityError) :
    ¬ StaleError e := by
  rw [staleError_iff]
  rintro ⟨detail, -, rfl⟩
  rcases other with ⟨x, same⟩ | same | same <;> cases same

omit [Settings] in
theorem never_flush (pending : List Statement) : (flush pending).Never StaleError :=
  never_forM fun _ => never_execute (D := fx) fun _ _ refused => not_staleError (.inr (check_plain refused))

omit [Settings] in
/-- Behind the gate nothing is refused for the age of the rates. -/
theorem quoteFrom_never (quoteId customerId : Uuid) (source destination : Currency) (amount : Decimal)
    (book : CurrentRateBook) : (quoteFrom quoteId customerId source destination amount book).Never StaleError := by
  refine (never_ofExcept fun e failed => ?_).bind fun terms => ?_
  · rcases quoteTerms_error failed with arithmetic | route
    · exact not_staleError (.inl arithmetic)
    · rw [buildRoute_error route, staleError_iff]
      rintro ⟨detail, listed, same⟩
      have details : s!"No route available for {source.value}/{destination.value}." = detail := by
        simpa [serviceUnavailable] using same
      exact gate_details source destination detail listed (by rw [← details]; exact List.mem_cons_self)
  refine Avoids.bind (fun _ _ => .inr trivial) fun createdAt => (never_flush _).bind fun _ => ?_
  refine (never_ofExcept fun e failed => not_staleError (.inl (arith_error failed))).bind fun legs => ?_
  refine (never_flush _).bind fun _ => never_commitAll.bind fun _ => ?_
  exact Avoids.bind (p := inc _) trivial fun _ => (never_select _).bind fun _ => trivial

section Gate

variable {quoteId customerId : Uuid} {source destination : Currency} {amount : Decimal} {rows : List CurrentRate}

/-- With rates at hand the test waits for the clock. -/
theorem tested_clock (some : rows ≠ []) : tested quoteId customerId source destination amount (rateBook rows) =
    .clock fun t => Program.ofExcept (bookGate (rateBook rows) t) >>= fun _ =>
      quoteFrom quoteId customerId source destination amount (rateBook rows) >>= fun quote => pure (.quote quote) := by
  obtain ⟨latest, found⟩ := Option.ne_none_iff_exists'.mp (mt rateBook_nil_iff.mp some)
  rw [tested, checkFresh]
  simp only [found, bind_bind]
  refine congrArg Program.clock (funext fun t => ?_)
  change (Program.ofExcept (cutoff t) : Tx Instant) >>= _ = _
  rw [bookGate, found]
  cases cutoff t with
  | error e => rfl
  | ok oldest =>
      change ((if latest < oldest then _ else _) >>= _) = (Program.ofExcept (if latest < oldest then _ else _) : Tx Unit) >>= _
      split <;> rfl

theorem tested_avoids (some : rows ≠ []) :
    (tested quoteId customerId source destination amount (rateBook rows)).Avoids StaleError Refuses := by
  have clock := @tested_clock _ _ quoteId customerId source destination amount rows some
  rw [clock]
  intro db t
  rcases bookGate_cases rows t with ⟨-, gate⟩ | ⟨stale, -⟩ | ⟨-, -, gate⟩
  · right
    dsimp only
    rw [gate]
    exact (quoteFrom_never quoteId customerId source destination amount _).bind fun _ => trivial
  · exact .inl (clock ▸ .stale some stale)
  · right
    dsimp only
    rw [gate]
    intro same
    obtain ⟨_, -, same⟩ := staleError_iff.mp same
    cases same

theorem loading_avoids : (loading quoteId customerId source destination amount).Avoids StaleError Refuses := by
  intro (db : Tables) t
  by_cases native : db.foreignRates = []
  · by_cases none : db.currentRates = []
    · exact .inl (.unavailable native none)
    right
    dsimp only
    rw [native]
    exact tested_avoids none
  · obtain ⟨e, failed, kind⟩ := loadForeign_error native
    right
    dsimp only
    rw [failed]
    intro same
    obtain ⟨_, -, same⟩ := staleError_iff.mp same
    rcases kind with rfl | ⟨message, rfl⟩ <;> cases same

end Gate

/-- A quote request is refused nowhere else. -/
theorem createQuote_avoids (quoteId customerId : Uuid) (source destination : Currency) (sourceAmount : Json) :
    (program (.createQuote quoteId customerId source destination sourceAmount)).Avoids StaleError Refuses := by
  have other : ∀ {error : ApiError}, error.statusCode ≠ 503 → ¬ StaleError (.api error) := by
    intro error differ same
    obtain ⟨_, -, same⟩ := staleError_iff.mp same
    cases same
    exact differ rfl
  refine (never_ofExcept fun e failed => ?_).bind fun amount => ?_
  · obtain ⟨errors, rfl⟩ := positiveDecimal_error failed
    exact other (by norm_num)
  rw [createQuote_gated]
  by_cases same : source = destination
  · rw [if_pos same]
    exact other (by norm_num)
  rw [if_neg same, bind_bind]
  refine Avoids.bind ((never_select _).bind fun found => ?_) fun _ => ?_
  · split
    · trivial
    · exact other (by norm_num)
  have path : (do let book ← freshRateBook; quoteFrom quoteId customerId source destination amount book : Tx Quote) >>=
      (fun quote => pure (.quote quote)) = mayFail >>= fun _ => loading quoteId customerId source destination amount := by
    rw [freshRateBook, loadCurrentRateBook, select]
    simp only [bind_bind]
    rfl
  rw [path]
  exact never_mayFail.bind fun _ => loading_avoids

theorem Refuses.waits {p : Tx Reply} {db : Tables} {t : Instant} (h : Refuses p db t) :
    (∃ k, p = .read k) ∨ ∃ k, p = .clock k := by
  cases h with
  | unavailable => exact .inl ⟨_, rfl⟩
  | stale some => exact .inr ⟨_, tested_clock some⟩

/-- What the gate refuses fails at that step. -/
theorem Refuses.fails {p p' : Tx Reply} {w : World fx} {busy : fx.Resource → Prop} {l l' : Local fx}
    (h : Refuses p (l.view w.db) w.now) (move : Move w busy p l p' l') : ∃ e, StaleError e ∧ p' = .raise e := by
  generalize view : (l.view w.db : Tables) = db at h
  generalize now : w.now = t at h
  cases h with
  | @unavailable quoteId customerId source destination amount _ _ native none =>
      cases move
      refine ⟨_, staleError_iff.mpr ⟨"Rates are unavailable.", by simp, rfl⟩, ?_⟩
      rw [view]
      dsimp only
      rw [native, none]
      rfl
  | @stale quoteId customerId source destination amount rows _ _ some stale =>
      rw [tested_clock some] at move
      cases move
      refine ⟨_, staleError_iff.mpr ⟨_, refusal_details rows, rfl⟩, ?_⟩
      change (Program.ofExcept (bookGate (rateBook rows) w.now) : Tx Unit) >>= _ = _
      rw [now, bookGate_stale stale]
      rfl

namespace Engine

/-- The sessions of quote requests that the freshness gate refused. -/
def refused (σ : Engine) : Set ℕ :=
  {i | ∃ quoteId customerId source destination sourceAmount e l,
    σ.procs i = some ⟨.createQuote quoteId customerId source destination sourceAmount, .raise e, l⟩ ∧
      staleRefusal (.error e : Except PyError Reply)}

variable {start : Instant} {σ : Engine}

omit start in
theorem none_counted {w : World fx} (h : Transactions.Reachable program w σ) : σ.counter .staleRatesTotal = 0 :=
  List.count_eq_zero.mpr (Transactions.Reachable.spared program_spares h).2

omit start in
theorem refused_finite {w : World fx} (h : Transactions.Reachable program w σ) : σ.refused.Finite := by
  refine (Transactions.Reachable.counted h).finite.subset ?_
  rintro i ⟨_, _, _, _, _, _, _, at_, _⟩
  simp [at_]

/-- The call is a quote request. -/
def Quoting (call : Call) : Prop :=
  ∃ quoteId customerId source destination sourceAmount, call = .createQuote quoteId customerId source destination sourceAmount

/-- Runs in which no quote request meets stale rates at its gate and the environment does not
raise the refusal itself. -/
abbrev FreshRun : Engine → Engine → Prop :=
  Relation.ReflTransGen fun σ τ => Step program σ τ ∧ Unmarked Quoting StaleError Refuses σ τ

omit start in
theorem FreshRun.run {σ τ : Engine} (h : FreshRun σ τ) : Run program σ τ :=
  Relation.ReflTransGen.mono (fun _ _ step => step.1) _ _ h

omit start in
/-- In such runs no request is refused. -/
theorem FreshRun.refused {w : World fx} (h : FreshRun (.init w) σ) : σ.refused = ∅ := by
  refine Set.eq_empty_iff_forall_notMem.mpr ?_
  rintro i ⟨quoteId, customerId, source, destination, sourceAmount, e, l, at_, refusal⟩
  have avoids : ∀ call, Quoting call → (program call).Avoids StaleError Refuses := by
    rintro _ ⟨quoteId, customerId, source, destination, sourceAmount, rfl⟩
    exact createQuote_avoids ..
  exact Run.avoids avoids h i _ at_ ⟨_, _, _, _, _, rfl⟩ refusal

omit start in
/-- Any other step of a quote request at its gate is refused for good. -/
theorem refused_of_marked {σ τ υ : Engine} {i : ℕ} (marked : σ.Marked Quoting Refuses i) (step : Step program σ τ)
    (moved : τ.procs i ≠ σ.procs i) (run : Run program τ υ) : i ∈ υ.refused := by
  obtain ⟨p, at_, ⟨quoteId, customerId, source, destination, sourceAmount, called⟩, refuses⟩ := marked
  obtain ⟨e, l, refusal, failed⟩ : ∃ e l, StaleError e ∧ τ.procs i = some ⟨p.call, .raise e, l⟩ := by
    cases step with
    | spawn j call free =>
        refine absurd (Sys.set_procs_ne _ _ fun same => ?_) moved
        rw [← same, at_] at free
        cases free
    | tick => exact absurd rfl moved
    | @move j q prog loc there move =>
        by_cases same : i = j
        · subst same
          rw [at_] at there
          cases there
          obtain ⟨e, refusal, rfl⟩ := refuses.fails move
          exact ⟨e, loc, refusal, Sys.set_procs_self ..⟩
        · exact absurd (Sys.set_procs_ne _ _ same) moved
    | @count j q m k there prog | @commit j q k there prog =>
        by_cases same : i = j
        · subst same
          rw [at_] at there
          cases there
          rw [prog] at refuses
          rcases refuses.waits with ⟨_, same⟩ | ⟨_, same⟩ <;> cases same
        · exact absurd (Sys.set_procs_ne _ _ same) moved
  obtain ⟨l', ended⟩ := Run.raised failed run
  rw [called] at ended
  exact ⟨_, _, _, _, _, e, l', ended, refusal⟩

/-- The gate that `createQuote` goes through answers like `ensureFreshRates` unless there are
rows that are no rates, and counts like it exactly where moreover the rates are not stale. So
quote requests count their refusals exactly when they do not meet stale rates at their gate, one
by one and in any run of the engine. -/
theorem stale_counted_iff :
    (∀ quoteId customerId source destination amount, createQuote quoteId customerId source destination amount = (do
      if source = destination then
        .raise (validationError "source_currency and destination_currency must differ." [])
      else
        assertCustomerExists customerId
        let book ← freshRateBook
        quoteFrom quoteId customerId source destination amount book)) ∧
    (∀ s : Session fx,
      ((observed freshRateBook s).1 = (observed ensureFreshRates s).1 ↔
        Tables.foreignRates s.view = [] ∨ Tables.Unloadable s.view) ∧
      (observed freshRateBook s = observed ensureFreshRates s ↔
        (Tables.foreignRates s.view = [] ∧ ¬ Stale (Tables.currentRates s.view) (s.clock.headD 0)) ∨
          Tables.Unloadable s.view)) ∧
    (∀ requests : List QuoteRequest,
      (requests.flatMap QuoteRequest.counts).count .staleRatesTotal =
          requests.countP (staleRefusal ·.answer) ↔
        ∀ request ∈ requests, request.MeetsGate → request.db.foreignRates = [] →
          ¬ Stale request.db.currentRates (request.clock.headD 0)) ∧
    (∀ (w : World fx) (σ : Engine), FreshRun (.init w) σ → σ.counter .staleRatesTotal = σ.refused.ncard) ∧
    ∀ (w : World fx) (σ τ υ : Engine) (i : ℕ), Transactions.Reachable program w σ → σ.Marked Quoting Refuses i →
      Step program σ τ → τ.procs i ≠ σ.procs i → Run program τ υ →
      υ.counter .staleRatesTotal ≠ υ.refused.ncard := by
  refine ⟨createQuote_gated, fun s => ⟨?_, observed_iff s⟩, QuoteRequest.counted_iff, fun w σ h => ?_, ?_⟩
  · rw [observed_gate, observed_ensureFreshRates, gates_agree_iff]
  · rw [none_counted (h.run : Transactions.Reachable program w σ), h.refused, Set.ncard_empty]
  · intro w σ τ υ i reached marked step moved run
    have later : Transactions.Reachable program w υ := (reached.tail step).trans run
    rw [none_counted later]
    exact ((Set.ncard_pos (refused_finite later)).mpr ⟨i, refused_of_marked marked step moved run⟩).ne

end Engine

end Counting

namespace Sample

/-- A freshness window of three thousand years. -/
abbrev wideSettings : Settings := ⟨100000000000, 50, 50⟩

end Sample

namespace Engine

section Wide

attribute [local instance] Sample.platform Sample.wideSettings

/-- With a window that begins before the first `datetime`, neither readiness nor the quote is
reported: both overflow. -/
theorem not_ready_iff_quoting : ∃ σ : Engine, Reachable 0 σ ∧ σ.world.db.hasCustomer 1 ∧
    ¬ (Reports "ready" ((program .readyz).run [0] σ.world.db).1 ↔
      ¬ RatesRefused ((program (.createQuote 20 1 .NGN .EUR (.str "5.00"))).run [0] σ.world.db).1) := by
  obtain ⟨σ, reached, db, -⟩ :=
    serial_reachable (Sample.ordered (Sample.opened (Sample.answer "130" "1500" "0.9")) (by decide))
  have known : σ.world.db.hasCustomer 1 := by
    rw [db]
    decide +kernel
  obtain ⟨amount, accepted⟩ : ∃ amount, positiveDecimal "source_amount" (.str "5.00") = .ok amount :=
    Except.of_isOk (by decide +kernel)
  have overflow : quoteGate σ.world.db 0 = .error .overflowError := by
    rw [db]
    decide +kernel
  have quoted : ((program (.createQuote 20 1 .NGN .EUR (.str "5.00"))).run [0] σ.world.db).1 = .error .overflowError :=
    createQuote_turned_away [0] accepted (by decide) known overflow
  have silent : ¬ Reports "ready" ((program .readyz).run [0] σ.world.db).1 := by
    rw [(reports_readyz reached.invariant.native 0 []).1, db]
    decide +kernel
  refine ⟨σ, reached, known, fun agree => silent (agree.mpr ?_)⟩
  rintro ⟨detail, refused⟩
  rw [quoted] at refused
  cases refused

end Wide

attribute [local instance] Sample.platform Sample.settings

theorem ready_iff_quoting_sample : ∃ σ : Engine, Reachable 0 σ ∧ σ.world.db.hasCustomer 1 ∧
    let ready := fun t => ((program .readyz).run [t] σ.world.db).1
    let quoted := fun t => ((program (.createQuote 20 1 .NGN .EUR (.str "5.00"))).run [t] σ.world.db).1
    Reports "ready" (ready 0) ∧ ¬ RatesRefused (quoted 0) ∧
      Reports "not_ready" (ready (seconds 301)) ∧ RatesRefused (quoted (seconds 301)) := by
  obtain ⟨σ, reached, db⟩ := Sample.reachable Sample.prepared (by decide)
  have known : σ.world.db.hasCustomer 1 := by
    rw [db]
    decide +kernel
  obtain ⟨amount, accepted⟩ : ∃ amount, positiveDecimal "source_amount" (.str "5.00") = .ok amount :=
    Except.of_isOk (by decide +kernel)
  have agree := fun t => (@Reachable.ready_iff_quoting _ _ 20 1 .NGN .EUR _ amount t [] 0 σ reached accepted
    (by decide) known).1
  have fresh := (reports_readyz reached.invariant.native 0 []).1.mpr (by
    rw [db]
    decide +kernel)
  have stale := (reports_readyz reached.invariant.native (seconds 301) []).2.1.mpr (by
    rw [db]
    decide +kernel)
  exact ⟨σ, reached, known, fresh, (agree 0 (.inr (by decide))).1.mp fresh, stale,
    (agree (seconds 301) (.inr (by decide))).2.mp stale⟩

theorem stale_counted_iff_sample :
    let db := (serial program Sample.prepared {}).2
    let session (t : Instant) : Session fx := ⟨[t], [], db⟩
    let asked (t : Instant) : QuoteRequest := ⟨20, 1, .NGN, .EUR, .str "5.00", [t], db⟩
    let counted (requests : List QuoteRequest) :=
      (requests.flatMap QuoteRequest.counts).count .staleRatesTotal = requests.countP (staleRefusal ·.answer)
    observed freshRateBook (session 0) = observed ensureFreshRates (session 0) ∧
      observed freshRateBook (session (seconds 301)) ≠ observed ensureFreshRates (session (seconds 301)) ∧
      counted [asked 0, asked (seconds 300)] ∧ ¬ counted [asked 0, asked (seconds 301)] := by
  obtain ⟨-, gates, requests, -⟩ := stale_counted_iff
  exact ⟨(gates _).2.mpr (by decide +kernel), mt (gates _).2.mp (by decide +kernel),
    (requests _).mpr (by decide +kernel), mt (requests _).mp (by decide +kernel)⟩

/-- A quote before the first refresh is refused and not counted. -/
theorem not_stale_counted : observed freshRateBook ⟨[0], [], {}⟩ ≠ observed ensureFreshRates ⟨[0], [], {}⟩ ∧
    ∃ σ : Engine, Reachable 0 σ ∧ σ.counter .staleRatesTotal ≠ σ.refused.ncard := by
  refine ⟨by decide +kernel, ?_⟩
  let calls : List (Call × List Instant) := [(.createCustomer 1, [0]), (.createQuote 5 1 .USD .KES (.str "1.00"), [0])]
  obtain ⟨σ, reached, -, -, -, -, ends⟩ := serial_reachable (Sample.ordered calls (by decide))
  have refusal : ((serial program calls {}).1.map staleRefusal)[1]? = some true := by decide +kernel
  rw [List.getElem?_map] at refusal
  obtain ⟨r, found, refused⟩ := Option.map_eq_some_iff.mp refusal
  obtain ⟨⟨call, prog, l⟩, at_, called, ended⟩ := ends 1 r found
  obtain rfl : .createQuote 5 1 .USD .KES (.str "1.00") = call := Option.some.inj called
  have one : 1 ∈ σ.refused := by
    cases r with
    | ok reply => cases refused
    | error e => exact ⟨_, _, _, _, _, e, l, by rw [at_, show prog = .raise e from ended], refused⟩
  refine ⟨σ, reached, ?_⟩
  rw [none_counted reached]
  exact ((Set.ncard_pos (refused_finite reached)).mpr ⟨1, one⟩).ne

end Engine

end FxEngine
