import FxEngine.Correctness.Counters
import FxEngine.Correctness.Solo

/-! # Fresh rates

The freshness test of readiness and the one written into the quote path, and how
else a quote request can be refused.
-/

namespace FxEngine

open Numeric Transactions Program

/-! ## The rows -/

/-- The newest row carries the latest time. -/
theorem newestRate_lastUpdatedAt (rows : List StoredRate) :
    (newestRate rows).map StoredRate.lastUpdatedAt = (rows.map StoredRate.lastUpdatedAt).max? := by
  induction rows with
  | nil => rfl
  | cons rate rest ih =>
      rw [newestRate, List.map_cons, List.max?_cons, ← ih]
      cases newestRate rest with
      | none => rfl
      | some best =>
          simp only [Option.map_some, Option.elim_some, Option.some.injEq]
          by_cases older : rate.lastUpdatedAt < best.lastUpdatedAt
          · rw [if_pos older, max_eq_right older.le]
          · rw [if_neg older, max_eq_left (not_lt.mp older)]

theorem newestRate_mem {rows : List StoredRate} {newest : StoredRate} (found : newestRate rows = some newest) :
    newest ∈ rows := by
  induction rows generalizing newest with
  | nil => cases found
  | cons rate rest ih =>
      rw [newestRate] at found
      cases best : newestRate rest with
      | none =>
          rw [best] at found
          cases found
          exact List.mem_cons_self
      | some other =>
          rw [best] at found
          cases found
          split
          · exact List.mem_cons_of_mem _ (ih best)
          · exact List.mem_cons_self

/-- Where all rows are the engine's, the newest has the time of the book. -/
theorem newestRate_native {db : Tables} (native : db.foreignRates = []) :
    (newestRate db.storedRates).map StoredRate.lastUpdatedAt = (rateBook db.currentRates).lastUpdatedAt := by
  rw [newestRate_lastUpdatedAt, Tables.storedRates, native, List.map_nil, List.append_nil, List.map_map]
  rfl

/-- The newest row has a timestamp that the driver cannot load. -/
def Tables.Unloadable (db : Tables) : Prop := ∃ newest ∈ newestRate db.storedRates, newest.loads = false

instance (db : Tables) : Decidable db.Unloadable :=
  inferInstanceAs (Decidable (∃ newest ∈ newestRate db.storedRates, newest.loads = false))

theorem loads_native {rate : StoredRate} {db : Tables} (native : db.foreignRates = []) (member : rate ∈ db.storedRates) :
    rate.loads = true := by
  rw [Tables.storedRates, native, List.map_nil, List.append_nil] at member
  obtain ⟨row, -, rfl⟩ := List.mem_map.mp member
  rfl

theorem ForeignRate.currencies_error {row : ForeignRate} (loaded : isDatetime row.lastUpdatedAt) :
    ∃ message, row.currencies = .error (.valueError message) := by
  have unsupported : ∀ {code : String}, ¬ (Currency.ofCode code).isSome →
      ∃ message, currencyOfStr code = .error (.valueError message) := by
    intro code none
    rw [Option.not_isSome_iff_eq_none] at none
    exact ⟨_, by rw [currencyOfStr, none]⟩
  by_cases base : (Currency.ofCode row.baseCurrency).isSome
  · obtain ⟨message, failed⟩ := unsupported fun quote => row.foreign ⟨loaded, base, quote⟩
    obtain ⟨currency, found⟩ := Option.isSome_iff_exists.mp base
    refine ⟨message, ?_⟩
    rw [ForeignRate.currencies, failed, currencyOfStr, found]
    rfl
  · obtain ⟨message, failed⟩ := unsupported base
    refine ⟨message, ?_⟩
    rw [ForeignRate.currencies, failed]
    rfl

/-- Rows that are not the engine's cannot be loaded. -/
theorem loadForeign_error {rows : List ForeignRate} (some : rows ≠ []) :
    ∃ e, loadForeign rows = .error e ∧ (e = .dataError ∨ ∃ message, e = .valueError message) := by
  by_cases unloadable : ∃ row ∈ rows, ¬ isDatetime row.lastUpdatedAt
  · exact ⟨.dataError, if_pos unloadable, .inl rfl⟩
  · obtain ⟨row, rest, rfl⟩ := List.exists_cons_of_ne_nil some
    have loaded : isDatetime row.lastUpdatedAt := by
      by_contra bad
      exact unloadable ⟨row, List.mem_cons_self, bad⟩
    obtain ⟨message, failed⟩ := row.currencies_error loaded
    refine ⟨.valueError message, ?_, .inr ⟨message, rfl⟩⟩
    rw [loadForeign, if_neg unloadable]
    change ((do let _ ← row.currencies : Except PyError Unit) >>= fun _ => rest.forM _) = _
    rw [failed]
    rfl

theorem loadForeign_unloadable {db : Tables} (h : db.Unloadable) : loadForeign db.foreignRates = .error .dataError := by
  obtain ⟨newest, found, bad⟩ := h
  refine if_pos ?_
  rcases List.mem_append.mp (newestRate_mem found) with own | foreign
  · obtain ⟨rate, -, rfl⟩ := List.mem_map.mp own
    cases bad
  · obtain ⟨row, member, rfl⟩ := List.mem_map.mp foreign
    exact ⟨row, member, of_decide_eq_false bad⟩

/-! ## The window -/

section Window

variable [Settings]

/-- The newest rate is not older than the window, which has a beginning. -/
def Fresh (rows : List CurrentRate) (checkedAt : Instant) : Prop :=
  ∃ latest ∈ (rateBook rows).lastUpdatedAt, isDatetime (checkedAt - seconds Settings.rateFreshnessSeconds) ∧
    checkedAt - seconds Settings.rateFreshnessSeconds ≤ latest

/-- There are no rates, or the newest is older than the window. -/
def Stale (rows : List CurrentRate) (checkedAt : Instant) : Prop :=
  ∀ latest ∈ (rateBook rows).lastUpdatedAt, isDatetime (checkedAt - seconds Settings.rateFreshnessSeconds) ∧
    latest < checkedAt - seconds Settings.rateFreshnessSeconds

instance (rows : List CurrentRate) (checkedAt : Instant) : Decidable (Fresh rows checkedAt) :=
  inferInstanceAs (Decidable (∃ latest ∈ (rateBook rows).lastUpdatedAt, _))

instance (rows : List CurrentRate) (checkedAt : Instant) : Decidable (Stale rows checkedAt) :=
  inferInstanceAs (Decidable (∀ latest ∈ (rateBook rows).lastUpdatedAt, _))

omit [Settings] in
theorem rateBook_nil_iff {rows : List CurrentRate} : (rateBook rows).lastUpdatedAt = none ↔ rows = [] := by
  simp [rateBook]

theorem Fresh.not_stale {rows : List CurrentRate} {checkedAt : Instant} (h : Fresh rows checkedAt) :
    ¬ Stale rows checkedAt := by
  obtain ⟨latest, found, -, recent⟩ := h
  exact fun stale => absurd (stale latest found).2 (not_lt.mpr recent)

variable {db : Tables} {rows : List CurrentRate} {checkedAt : Instant}

/-- The gate lets fresh rates pass, refuses stale ones, and cannot tell when the window begins
before the first `datetime` or after the last. -/
theorem bookGate_cases (rows : List CurrentRate) (checkedAt : Instant) :
    (Fresh rows checkedAt ∧ bookGate (rateBook rows) checkedAt = .ok ()) ∨
    (Stale rows checkedAt ∧ bookGate (rateBook rows) checkedAt = .error (serviceUnavailable errorRatesStale
      (if rows = [] then "Rates are unavailable." else "Rates are stale."))) ∨
    (rows ≠ [] ∧ ¬ isDatetime (checkedAt - seconds Settings.rateFreshnessSeconds) ∧
      bookGate (rateBook rows) checkedAt = .error .overflowError) := by
  unfold bookGate Fresh Stale
  cases found : (rateBook rows).lastUpdatedAt with
  | none => exact .inr (.inl ⟨by simp, by rw [if_pos (rateBook_nil_iff.mp found)]⟩)
  | some latest =>
      have some : rows ≠ [] := fun none => by
        rw [rateBook_nil_iff.mpr none] at found
        cases found
      dsimp only
      cases bounded : cutoff checkedAt with
      | error e =>
          obtain ⟨unbounded, rfl⟩ := minusSeconds_error.mp bounded
          exact .inr (.inr ⟨some, unbounded, rfl⟩)
      | ok oldest =>
          obtain ⟨valid, rfl⟩ := minusSeconds_ok.mp bounded
          dsimp only
          by_cases old : latest < checkedAt - seconds Settings.rateFreshnessSeconds
          · refine .inr (.inl ⟨?_, by rw [if_pos old, if_neg some]⟩)
            rintro _ ⟨⟩
            exact ⟨valid, old⟩
          · exact .inl ⟨⟨latest, rfl, valid, not_lt.mp old⟩, if_neg old⟩

theorem bookGate_stale (h : Stale rows checkedAt) : bookGate (rateBook rows) checkedAt = .error
    (serviceUnavailable errorRatesStale (if rows = [] then "Rates are unavailable." else "Rates are stale.")) := by
  rcases bookGate_cases rows checkedAt with ⟨fresh, -⟩ | ⟨-, refused⟩ | ⟨some, unbounded, -⟩
  · exact absurd h fresh.not_stale
  · exact refused
  · obtain ⟨latest, found⟩ := Option.ne_none_iff_exists'.mp (mt rateBook_nil_iff.mp some)
    exact absurd (h latest found).1 unbounded

theorem bookGate_eq_ok : bookGate (rateBook rows) checkedAt = .ok () ↔ Fresh rows checkedAt := by
  rcases bookGate_cases rows checkedAt with ⟨fresh, passed⟩ | ⟨stale, refused⟩ | ⟨-, unbounded, failed⟩
  · simp [fresh, passed]
  · simpa [refused] using fun fresh : Fresh rows checkedAt => fresh.not_stale stale
  · simpa [failed] using fun fresh : Fresh rows checkedAt => unbounded fresh.choose_spec.2.1

theorem quoteGate_native (native : db.foreignRates = []) :
    quoteGate db checkedAt = bookGate (rateBook db.currentRates) checkedAt := by
  rw [quoteGate, native]
  rfl

theorem quoteGate_eq_ok (native : db.foreignRates = []) :
    quoteGate db checkedAt = .ok () ↔ Fresh db.currentRates checkedAt := by
  rw [quoteGate_native native, bookGate_eq_ok]

omit [Settings] in
/-- The gate refuses stale rates for one of two reasons. -/
theorem refusal_details (rows : List CurrentRate) : (if rows = [] then "Rates are unavailable." else "Rates are stale.") ∈
    ["Rates are unavailable.", "Rates are stale."] := by
  split <;> simp

end Window

/-! ## The two tests -/

/-- A freshness gate refused. -/
def staleRefusal {α : Type} : Except PyError α → Bool
  | .ok _ => false
  | .error e =>
      e = serviceUnavailable errorRatesStale "Rates are unavailable." ∨
        e = serviceUnavailable errorRatesStale "Rates are stale."

theorem staleRefusal_iff {α : Type} {r : Except PyError α} : staleRefusal r ↔
    ∃ detail ∈ ["Rates are unavailable.", "Rates are stale."], r = .error (serviceUnavailable errorRatesStale detail) := by
  cases r with
  | ok => simp [staleRefusal]
  | error e => simp [staleRefusal]

section Tests

variable [Settings]

/-- What readiness says of the rates. -/
def freshness (db : Tables) (checkedAt : Instant) : Except PyError String :=
  match newestRate db.storedRates with
  | none => .ok "unavailable"
  | some newest =>
      if newest.loads = false then .error .dataError
      else match cutoff checkedAt with
        | .error e => .error e
        | .ok oldest => .ok (if newest.lastUpdatedAt < oldest then "stale" else "fresh")

theorem freshness_error {db : Tables} {checkedAt : Instant} {e : PyError} (h : freshness db checkedAt = .error e) :
    e = .dataError ∨ e = .overflowError := by
  unfold freshness at h
  split at h
  · cases h
  · split at h
    · cases h
      exact .inl rfl
    · split at h
      · rename_i bounded
        cases h
        exact .inr (minusSeconds_error.mp bounded).2
      · cases h

/-- What `ensureFreshRates` makes of it. -/
def sharedGate (db : Tables) (checkedAt : Instant) : Except PyError Unit :=
  match freshness db checkedAt with
  | .error e => .error e
  | .ok status =>
      if status = "fresh" then .ok ()
      else .error (serviceUnavailable errorRatesStale
        (if status = "unavailable" then "Rates are unavailable." else "Rates are stale."))

variable {db : Tables} {checkedAt : Instant}

/-- On rows of the engine both tests come to the same. -/
theorem sharedGate_native (native : db.foreignRates = []) : sharedGate db checkedAt = quoteGate db checkedAt := by
  rw [quoteGate_native native, sharedGate, freshness, bookGate, ← newestRate_native native]
  cases found : newestRate db.storedRates with
  | none => rfl
  | some newest =>
      have loads := loads_native native (newestRate_mem found)
      simp only [loads, Option.map_some, Bool.true_eq_false, if_false]
      cases cutoff checkedAt with
      | error e => rfl
      | ok oldest =>
          dsimp only
          by_cases old : newest.lastUpdatedAt < oldest
          · simp [if_pos old]
          · simp [if_neg old]

theorem sharedGate_unloadable (h : db.Unloadable) : sharedGate db checkedAt = .error .dataError := by
  obtain ⟨newest, found, bad⟩ := h
  rw [sharedGate, freshness, show newestRate db.storedRates = some newest from found]
  dsimp only
  rw [if_pos bad]

/-- A newest row that can be loaded ends the shared test with an answer of its own, or in an
overflow. -/
theorem sharedGate_loadable (h : ¬ db.Unloadable) : sharedGate db checkedAt = .ok () ∨
    (∃ detail, sharedGate db checkedAt = .error (serviceUnavailable errorRatesStale detail)) ∨
    sharedGate db checkedAt = .error .overflowError := by
  unfold sharedGate freshness
  cases found : newestRate db.storedRates with
  | none => exact .inr (.inl ⟨_, rfl⟩)
  | some newest =>
      have loads : ¬ newest.loads = false := fun bad => h ⟨newest, found, bad⟩
      dsimp only
      rw [if_neg loads]
      cases bounded : cutoff checkedAt with
      | error e => exact .inr (.inr (by rw [(minusSeconds_error.mp bounded).2]))
      | ok oldest =>
          dsimp only
          by_cases old : newest.lastUpdatedAt < oldest
          · simp [if_pos old]
          · simp [if_neg old]

variable [Platform] {s : Session fx}

omit [Settings] in
theorem exec_getLatestCurrentRate (s : Session fx) : getLatestCurrentRate.exec s =
    (if (newestRate (Tables.storedRates s.view)).all StoredRate.loads then
      .ok (newestRate (Tables.storedRates s.view)) else .error .dataError, s) ∧
    getLatestCurrentRate.tally s = [] := by
  constructor
  · refine (exec_bind_ok (exec_select _ s)).trans ?_
    dsimp only
    split <;> rfl
  · rw [getLatestCurrentRate, tally_bind]
    change tally (if _ then _ else _) _ = []
    split <;> rfl

theorem exec_ratesFreshnessStatus (s : Session fx) :
    ∃ s', (ratesFreshnessStatus : Tx String).exec s = (freshness s.view (s.clock.headD 0), s') ∧ s'.db = s.db ∧
      (ratesFreshnessStatus : Tx String).tally s = [] := by
  obtain ⟨loaded, silent⟩ := exec_getLatestCurrentRate s
  unfold freshness
  cases found : newestRate (Tables.storedRates s.view) with
  | none =>
      rw [found] at loaded
      refine ⟨s, (exec_bind_ok loaded).trans rfl, rfl, ?_⟩
      rw [ratesFreshnessStatus, tally_bind, loaded, silent]
      rfl
  | some newest =>
      rw [found] at loaded
      dsimp only
      cases loads : newest.loads with
      | false =>
          rw [show (some newest).all StoredRate.loads = false from loads] at loaded
          refine ⟨s, exec_bind_error loaded, rfl, ?_⟩
          rw [ratesFreshnessStatus, tally_bind, loaded, silent]
          rfl
      | true =>
          rw [show (some newest).all StoredRate.loads = true from loads] at loaded
          refine ⟨{ s with clock := Session.later s.clock }, (exec_bind_ok loaded).trans ?_, rfl, ?_⟩
          · refine (exec_bind_ok (exec_now s)).trans ?_
            cases cutoff (s.clock.headD 0) with
            | error e => exact exec_bind_error (exec_ofExcept _ _)
            | ok oldest =>
                refine (exec_bind_ok (exec_ofExcept _ _)).trans ?_
                dsimp only
                split <;> rfl
          · rw [ratesFreshnessStatus, tally_bind, loaded, silent, if_pos rfl]
            change (ofExcept (cutoff (s.clock.headD 0)) >>= fun oldest =>
              if newest.lastUpdatedAt < oldest then pure "stale" else pure "fresh" : Tx String).tally _ = []
            cases cutoff (s.clock.headD 0) with
            | error e => rfl
            | ok oldest =>
                change tally (if _ then _ else _) _ = []
                split <;> rfl

theorem exec_ensureFreshRates (s : Session fx) :
    (ensureFreshRates.exec s).1 = sharedGate s.view (s.clock.headD 0) ∧
      ensureFreshRates.tally s =
        if staleRefusal (sharedGate s.view (s.clock.headD 0)) then [Counter.staleRatesTotal] else [] := by
  obtain ⟨s', status, -, silent⟩ := exec_ratesFreshnessStatus s
  have gate : ∀ {r}, freshness s.view (s.clock.headD 0) = r → sharedGate s.view (s.clock.headD 0) = match r with
      | .error e => .error e
      | .ok status =>
          if status = "fresh" then .ok ()
          else .error (serviceUnavailable errorRatesStale
            (if status = "unavailable" then "Rates are unavailable." else "Rates are stale.")) := by
    rintro r rfl
    rfl
  cases found : freshness s.view (s.clock.headD 0) with
  | error e =>
      rw [found] at status
      rw [ensureFreshRates, tally_bind, silent, exec_bind_error status, status, gate found]
      refine ⟨rfl, ?_⟩
      rcases freshness_error found with rfl | rfl <;> rfl
  | ok status' =>
      rw [found] at status
      rw [ensureFreshRates, tally_bind, silent, exec_bind_ok status, status, gate found]
      dsimp only
      by_cases fresh : status' = "fresh"
      · simp only [fresh, if_true]
        exact ⟨rfl, rfl⟩
      · simp only [fresh, if_false]
        refine ⟨rfl, ?_⟩
        split <;> rfl

theorem checkFresh_spares {m : Counter} (book : CurrentRateBook) : (checkFresh book).Spares m := by
  unfold checkFresh
  cases book.lastUpdatedAt with
  | none => trivial
  | some latest =>
      exact spares_now.bind fun _ => (spares_ofExcept _).bind fun _ => spares_ite (fun _ => trivial) fun _ => trivial

/-- The gate of the quote path counts nothing. -/
theorem tally_freshRateBook (s : Session fx) : freshRateBook.tally s = [] := by
  refine List.eq_nil_iff_forall_not_mem.mpr fun m => Spares.tally ?_ s
  exact loadCurrentRateBook_spares.bind fun book => checkFresh_spares book

/-- Readiness is what the freshness of the rates is. -/
theorem readyz_run (clock : List Instant) (db : Tables) :
    (program .readyz).run clock db =
      ((freshness db (clock.headD 0)).map fun status =>
        if status ≠ "fresh" then .readiness "not_ready" "ok" status else .readiness "ready" "ok" "fresh", db) := by
  let s : Session fx := ⟨clock, [], db⟩
  obtain ⟨s', status, kept, -⟩ := exec_ratesFreshnessStatus s
  have view : freshness db (clock.headD 0) = freshness s.view (s.clock.headD 0) := rfl
  rw [view]
  cases found : freshness s.view (s.clock.headD 0) with
  | error e =>
      rw [found] at status
      have failed : (program .readyz).exec s = (.error e, s') :=
        (exec_bind_ok (exec_attempt _ _)).trans (exec_bind_error status)
      rw [Program.run, show (program .readyz).exec _ = _ from failed]
      exact Prod.ext rfl kept
  | ok status' =>
      rw [found] at status
      have answered : (program .readyz).exec s = (if status' ≠ "fresh" then
          (pure (.readiness "not_ready" "ok" status') : Tx Reply)
          else pure (.readiness "ready" "ok" "fresh")).exec s' :=
        (exec_bind_ok (exec_attempt _ _)).trans (exec_bind_ok status)
      rw [Program.run, show (program .readyz).exec _ = _ from answered]
      dsimp only [Except.map]
      split <;> exact Prod.ext rfl kept

end Tests

/-! ## Other refusals -/

section Routes

variable {book : CurrentRateBook} {source destination : Currency}

/-- A rate that is found is for the leg, in one of its two directions. -/
theorem findCurrentRate_ends {rate : CurrentRate} (h : findCurrentRate book source destination = some rate) :
    (source = rate.baseCurrency ∧ destination = rate.quoteCurrency) ∨
      (source = rate.quoteCurrency ∧ destination = rate.baseCurrency) := by
  rw [findCurrentRate] at h
  cases direct : book.get (source, destination) with
  | some r =>
      rw [direct] at h
      cases h
      have pair := (Table.row_some direct).2
      exact .inl ⟨(Prod.mk.inj pair).1.symm, (Prod.mk.inj pair).2.symm⟩
  | none =>
      rw [direct] at h
      have pair := (Table.row_some h).2
      exact .inr ⟨(Prod.mk.inj pair).2.symm, (Prod.mk.inj pair).1.symm⟩

/-- So only its arithmetic can fail. -/
theorem priceLeg_error {rate : CurrentRate} {e : PyError} (found : findCurrentRate book source destination = some rate)
    (h : priceLeg rate source destination = .error e) : ∃ x, e = .decimal x := by
  unfold priceLeg at h
  split at h
  · obtain failed | ⟨_, _, made⟩ := Except.bind_error h
    · exact arith_error failed
    · cases made
  · split at h
    · obtain failed | ⟨_, _, made⟩ := Except.bind_error h
      · exact arith_error failed
      · cases made
    · rcases findCurrentRate_ends found with direct | inverse <;> contradiction

/-- There is a rate for each hop of a route. -/
theorem buildRoute_found {route : List Currency} (h : buildRoute book source destination = .ok route) :
    ∀ hop ∈ route.zip route.tail, (findCurrentRate book hop.1 hop.2).isSome := by
  unfold buildRoute at h
  split at h
  · rename_i found
    cases h
    simpa using found
  · dsimp only at h
    split at h
    · rename_i pivot found
      cases h
      have both := List.find?_some found
      simp only [decide_eq_true_eq] at both
      simpa using both.2.2
    · cases h

theorem priceRoute_error {hops : List (Currency × Currency)} {e : PyError}
    (found : ∀ hop ∈ hops, (findCurrentRate book hop.1 hop.2).isSome) (h : priceRoute book hops = .error e) :
    ∃ x, e = .decimal x := by
  induction hops with
  | nil => cases h
  | cons hop hops ih =>
      obtain ⟨source, destination⟩ := hop
      obtain ⟨rate, there⟩ := Option.isSome_iff_exists.mp (found _ List.mem_cons_self)
      rw [priceRoute, there] at h
      obtain failed | ⟨leg, -, h⟩ := Except.bind_error h
      · exact priceLeg_error there failed
      · obtain failed | ⟨legs, -, made⟩ := Except.bind_error h
        · exact ih (fun hop member => found hop (List.mem_cons_of_mem _ member)) failed
        · cases made

/-- Apart from its arithmetic, pricing fails only for want of a route. -/
theorem quoteTerms_error {amount : Decimal} {e : PyError} (h : quoteTerms book source destination amount = .error e) :
    (∃ x, e = .decimal x) ∨ buildRoute book source destination = .error e := by
  obtain failed | ⟨route, found, h⟩ := Except.bind_error h
  · exact .inr failed
  left
  obtain failed | ⟨legs, -, h⟩ := Except.bind_error h
  · exact priceRoute_error (buildRoute_found found) failed
  obtain failed | ⟨rate, -, h⟩ := Except.bind_error h
  · exact arith_error failed
  obtain failed | ⟨sold, -, h⟩ := Except.bind_error h
  · exact arith_error failed
  obtain failed | ⟨bought, -, made⟩ := Except.bind_error h
  · exact arith_error failed
  · cases made

theorem buildRoute_error {e : PyError} (h : buildRoute book source destination = .error e) :
    e = serviceUnavailable errorRatesStale s!"No route available for {source.value}/{destination.value}." := by
  unfold buildRoute at h
  split at h
  · cases h
  · dsimp only at h
    split at h <;> cases h
    rfl

end Routes

section Stored

variable [Platform] {db : Tables} {book : CurrentRateBook} {source destination : Currency}

/-- The server raises no error of the engine's own. -/
theorem check_plain {w : Statement} {e : PyError} (h : w.check db = some e) : e = .dataError ∨ e = .integrityError := by
  have violated : ∀ {constraint : Prop} [Decidable constraint] {error : PyError},
      violates constraint error = some e → e = error := by
    intro constraint _ error h
    unfold violates at h
    split at h <;> cases h
    rfl
  have either : ∀ {a b : Option PyError}, (a <|> b) = some e → a = some e ∨ b = some e := by
    rintro (_ | x) b h
    · exact .inr h
    · exact .inl h
  cases w with
  | insertCustomer | insertBalance => exact .inr (violated h)
  | completeIdempotencyKey => cases h
  | insertExecution =>
      obtain h | h := either h
      · exact .inr (violated h)
      · exact .inr (violated h)
  | updateBalance | insertRefresh | insertAdjustment | insertIdempotencyKey =>
      obtain h | h := either h
      · exact .inl (violated h)
      · exact .inr (violated h)
  | insertSnapshot | upsertCurrentRate | insertQuote | insertLeg =>
      obtain h | h := either h
      · exact .inl (violated h)
      obtain h | h := either h
      · exact .inl (violated h)
      · exact .inr (violated h)
  | insertLedger =>
      obtain h | h := either h
      · exact .inl (violated h)
      obtain h | h := either h <;> exact .inr (violated h)

theorem flushError_plain {pending : List Statement} {e : PyError} (h : flushError pending db = some e) :
    e = .dataError ∨ e = .integrityError := by
  induction pending generalizing db with
  | nil => cases h
  | cons w pending ih =>
      rw [flushError] at h
      split at h
      · cases h
        exact check_plain ‹_›
      · exact ih h

/-- What a stored quote can fail with once it has a route. -/
theorem quoteRows_error {quoteId customerId : Uuid} {amount : Decimal} {createdAt : Instant} {e : PyError}
    (h : quoteRows db quoteId customerId source destination amount createdAt = .error e) :
    (∃ x, e = .decimal x) ∨ e = .dataError ∨ e = .integrityError ∨
      buildRoute (rateBook db.currentRates) source destination = .error e := by
  obtain failed | ⟨terms, -, h⟩ := Except.bind_error h
  · obtain arithmetic | route := quoteTerms_error failed
    · exact .inl arithmetic
    · exact .inr (.inr (.inr route))
  obtain failed | ⟨legs, -, made⟩ := Except.bind_error h
  · unfold storedLegs at failed
    split at failed
    · cases failed
      exact .inr ((flushError_plain ‹_›).imp_right .inl)
    · split at failed
      · cases failed
        exact .inl (arith_error ‹_›)
      · split at failed <;> cases failed
        exact .inr ((flushError_plain ‹_›).imp_right .inl)
  · cases made

end Stored

end FxEngine
