import FxEngine.Correctness.Engine
import FxEngine.Correctness.Solo

/-! # What a refresh leaves behind

Which provider answers end in an audit row, and which in an exception that no `except`
clause foresees.
-/

namespace FxEngine

open Numeric Transactions Program

section Outcomes

variable [Platform]

/-- `datetime.fromtimestamp` raises what its documentation says. -/
def DocumentedTimestamps : Prop := ∀ value e, Platform.fromtimestamp value = .error e →
  (∃ message, e = .valueError message) ∨ e = .overflowError ∨ e = .osError

/-- An object that came with success, reports none of its own failures and names its base. -/
structure Announced (statusCode : ℕ) (fields : List (String × Json)) : Prop where
  success : statusCode < 400
  reported : reportsFailure fields = false
  base : ∃ currency, currencyOfJson ((Json.lookup "base" fields).getD (.str Currency.USD.value)) = .ok currency

/-- The answers that neither list of `except` clauses foresees. -/
inductive Unforeseen : ProviderAnswer → Prop where
  /-- The body is nested too deeply to be parsed. -/
  | unparsed {statusCode} : Unforeseen (.response statusCode .tooDeep)
  /-- The base, or a rate, is nested too deeply to be written into a message or a decimal. -/
  | deepBase {statusCode fields} (success : statusCode < 400) (reported : reportsFailure fields = false)
      (listed : (Json.lookup "rates" fields).isSome)
      (deep : currencyOfJson ((Json.lookup "base" fields).getD (.str Currency.USD.value)) = .error .recursionError) :
      Unforeseen (.response statusCode (.json (.dict fields)))
  | deepRate {statusCode fields entries} (announced : Announced statusCode fields)
      (listed : Json.lookup "rates" fields = some (.dict entries))
      (deep : supportedRates entries = .error .recursionError) : Unforeseen (.response statusCode (.json (.dict fields)))
  /-- The payload is nested too deeply to be hashed. -/
  | deepPayload {answer provided rows} (fetched : fetch answer = .ok provided)
      (made : rateRows provided canonicalPairs = .ok rows)
      (deep : Platform.dumpsTooDeep (.dict provided.rawPayload) = true) : Unforeseen answer
  /-- Only an object has `get`. -/
  | notObject {statusCode body} (success : statusCode < 400) (other : ∀ fields, body ≠ .dict fields) :
      Unforeseen (.response statusCode (.json body))
  /-- Only an object has `items`. -/
  | ratesNotObject {statusCode fields rates} (announced : Announced statusCode fields)
      (listed : Json.lookup "rates" fields = some rates) (other : ∀ entries, rates ≠ .dict entries) :
      Unforeseen (.response statusCode (.json (.dict fields)))
  /-- The timestamp is out of range for the platform. -/
  | timestamp {statusCode fields entries rates e} (announced : Announced statusCode fields)
      (listed : Json.lookup "rates" fields = some (.dict entries)) (converted : supportedRates entries = .ok rates)
      (failed : providerTimestamp ((Json.lookup "timestamp" fields).getD .null) = .error e)
      (range : e = .overflowError ∨ e = .osError) : Unforeseen (.response statusCode (.json (.dict fields)))
  /-- The database refuses the timestamp or a rate. -/
  | refused {answer provided rows} (converted : Converted answer provided rows)
      (refused : ¬ Statement.storable provided.providerTimestamp ∨ ∃ row ∈ rows, ¬ fitsRate row.midRate) :
      Unforeseen answer

/-- The exception is recorded as a failure of the provider. -/
def Recorded (e : PyError) : Prop :=
  ∃ error, recordedError e = some error ∧ (error.statusCode = 502 ∨ error.statusCode = 504)

omit [Platform] in
theorem recorded_badGateway (detail : String) : Recorded (.api (badGateway errorUpstreamBadResponse detail)) :=
  ⟨_, rfl, .inl rfl⟩

omit [Platform] in
theorem recorded_unusable {e : PyError} (unusable : e = .keyError ∨ (∃ x, e = .decimal x) ∨ ∃ message, e = .valueError message) :
    Recorded e := by
  rcases unusable with rfl | ⟨x, rfl⟩ | ⟨message, rfl⟩ <;> exact ⟨_, rfl, .inl rfl⟩

theorem currencyOfJson_error {value : Json} {e : PyError} (h : currencyOfJson value = .error e) :
    (∃ message, e = .valueError message) ∨ e = .recursionError := by
  unfold currencyOfJson at h
  split at h
  · unfold currencyOfStr at h
    split at h <;> cases h
    exact .inl ⟨_, rfl⟩
  · obtain rfl := (Except.error.inj h).symm
    split
    · exact .inr rfl
    · exact .inl ⟨_, rfl⟩

theorem supportedRates_error {entries : List (String × Json)} {e : PyError} (h : supportedRates entries = .error e) :
    (∃ x, e = .decimal x) ∨ e = .recursionError := by
  induction entries with
  | nil => cases h
  | cons entry rest ih =>
      obtain ⟨code, value⟩ := entry
      rw [supportedRates] at h
      split at h
      · exact ih h
      · obtain failed | ⟨d, -, h⟩ := Except.bind_error h
        · unfold providerRate at failed
          split at failed
          · cases failed
            exact .inr rfl
          · exact .inl (arith_error failed)
        obtain failed | ⟨others, -, h⟩ := Except.bind_error h
        · exact ih failed
        · cases h

theorem providerTimestamp_error (documented : DocumentedTimestamps) {value : Json} {e : PyError}
    (h : providerTimestamp value = .error e) : (∃ message, e = .valueError message) ∨ e = .overflowError ∨ e = .osError := by
  have converted : ∀ v : Json, (Platform.fromtimestamp v).map some = .error e → Platform.fromtimestamp v = .error e := by
    intro v mapped
    cases found : Platform.fromtimestamp v with
    | ok t => rw [found] at mapped; cases mapped
    | error e' => rw [found] at mapped; cases mapped; rfl
  unfold providerTimestamp at h
  split at h
  · cases h
  · split at h <;> cases h
    exact .inl ⟨_, rfl⟩
  · exact documented _ _ (converted _ h)
  · exact documented _ _ (converted _ h)
  · exact documented _ _ (converted _ h)
  · cases h
    exact .inl ⟨_, rfl⟩

omit [Platform] in
theorem rateRows_error {provided : ProviderRates} {pairs : List (Currency × Currency)} {e : PyError}
    (h : rateRows provided pairs = .error e) : e = .keyError ∨ ∃ x, e = .decimal x := by
  induction pairs with
  | nil => cases h
  | cons pair pairs ih =>
      obtain failed | ⟨rate, -, h⟩ := Except.bind_error h
      · unfold pairMidRate at failed
        split at failed
        · cases failed
        · split at failed <;> cases failed
          exact .inl rfl
      obtain failed | ⟨mid, -, h⟩ := Except.bind_error h
      · exact .inr (arith_error failed)
      obtain failed | ⟨others, -, h⟩ := Except.bind_error h
      · exact ih failed
      · cases h

/-- What goes wrong while a payload is read is foreseen, or one of the two shapes that are not. -/
theorem sanitize_error (documented : DocumentedTimestamps) {statusCode : ℕ} {fields : List (String × Json)} {e : PyError}
    (success : statusCode < 400) (reported : reportsFailure fields = false) (listed : (Json.lookup "rates" fields).isSome)
    (h : sanitize fields = .error e) :
    invalidRateData e ∨ invalidRateData e = false ∧ recordedError e = none ∧
      Unforeseen (.response statusCode (.json (.dict fields))) := by
  obtain failed | ⟨base, named, h⟩ := Except.bind_error h
  · rcases currencyOfJson_error failed with ⟨message, rfl⟩ | rfl
    · exact .inl rfl
    · exact .inr ⟨rfl, rfl, .deepBase success reported listed failed⟩
  have announced : Announced statusCode fields := ⟨success, reported, base, named⟩
  obtain ⟨rates, found⟩ := Option.isSome_iff_exists.mp listed
  rw [found] at h
  cases rates with
  | dict entries =>
      obtain failed | ⟨converted, read, h⟩ := Except.bind_error h
      · rcases supportedRates_error failed with ⟨x, rfl⟩ | rfl
        · exact .inl rfl
        · exact .inr ⟨rfl, rfl, .deepRate announced found failed⟩
      obtain failed | ⟨timestamp, -, h⟩ := Except.bind_error h
      · rcases providerTimestamp_error documented failed with ⟨message, rfl⟩ | rfl | rfl
        · exact .inl rfl
        · exact .inr ⟨rfl, rfl, .timestamp announced found read failed (.inl rfl)⟩
        · exact .inr ⟨rfl, rfl, .timestamp announced found read failed (.inr rfl)⟩
      · cases h
  | _ =>
      cases h
      exact .inr ⟨rfl, rfl, .ratesNotObject announced found fun entries => by simp⟩

/-- A rejected answer is recorded or unforeseen. -/
theorem fetch_error (documented : DocumentedTimestamps) {answer : ProviderAnswer} {e : PyError} (h : fetch answer = .error e) :
    Recorded e ∨ recordedError e = none ∧ Unforeseen answer := by
  cases answer with
  | timeout =>
      cases h
      exact .inl ⟨_, rfl, .inr rfl⟩
  | transportError =>
      cases h
      exact .inl (recorded_badGateway _)
  | response statusCode body =>
      cases body with
      | invalid =>
          cases h
          exact .inl (recorded_badGateway _)
      | tooDeep =>
          cases h
          exact .inr ⟨rfl, .unparsed⟩
      | json body =>
          cases body with
          | dict fields =>
              rw [fetch] at h
              split at h
              · cases h
                exact .inl (recorded_badGateway _)
              rename_i failure
              split at h
              · cases h
                exact .inl (recorded_badGateway _)
              rename_i usable
              simp only [not_or, Bool.not_eq_true, Option.isNone_eq_false_iff] at usable
              split at h
              · rename_i e' broken
                rcases sanitize_error documented (not_le.mp failure) usable.1 usable.2 broken with
                  foreseen | ⟨other, unrecorded, shape⟩
                · rw [if_pos foreseen] at h
                  cases h
                  exact .inl (recorded_badGateway _)
                · rw [other] at h
                  cases h
                  exact .inr ⟨unrecorded, shape⟩
              · dsimp only at h
                split at h
                · cases h
                  exact .inl (recorded_badGateway _)
                · split at h <;> cases h
                  · exact .inl (recorded_unusable (.inr (.inl ⟨_, rfl⟩)))
                  · exact .inl (recorded_badGateway _)
          | _ =>
              rw [fetch] at h
              · split at h
                · cases h
                  exact .inl (recorded_badGateway _)
                · rename_i failure
                  cases h
                  exact .inr ⟨rfl, .notObject (not_le.mp failure) fun fields => by simp⟩
              · intro fields same
                cases same

theorem rejection_of_fetch {answer : ProviderAnswer} {e : PyError} (h : fetch answer = .error e) :
    rejection answer = some e := by
  rw [rejection, h]

/-- An object with rates that reports no failure is read. -/
theorem fetch_unreadable {statusCode : ℕ} {fields : List (String × Json)} {e : PyError} (success : statusCode < 400)
    (reported : reportsFailure fields = false) (listed : (Json.lookup "rates" fields).isSome)
    (broken : sanitize fields = .error e) (unforeseen : invalidRateData e = false) :
    fetch (.response statusCode (.json (.dict fields))) = .error e := by
  have usable : ¬ (reportsFailure fields = true ∨ (Json.lookup "rates" fields).isNone = true) := by
    simp [reported, Option.isSome_iff_ne_none.mp listed]
  rw [fetch, if_neg (not_le.mpr success), if_neg usable, broken]
  dsimp only
  rw [if_neg (by simp [unforeseen])]

/-- Unforeseen answers are rejected with an exception that is not recorded, or refused by the
database. -/
theorem Unforeseen.unrecorded {answer : ProviderAnswer} (h : Unforeseen answer) :
    (∃ e, rejection answer = some e ∧ recordedError e = none) ∨
      ∃ provided rows, Converted answer provided rows ∧
        (¬ Statement.storable provided.providerTimestamp ∨ ∃ row ∈ rows, ¬ fitsRate row.midRate) := by
  cases h with
  | unparsed => exact .inl ⟨.recursionError, rejection_of_fetch rfl, rfl⟩
  | @deepBase statusCode fields success reported listed deep =>
      have broken : sanitize fields = .error .recursionError := by rw [sanitize, deep]; rfl
      exact .inl ⟨.recursionError, rejection_of_fetch (fetch_unreadable success reported listed broken rfl), rfl⟩
  | @deepRate statusCode fields entries announced listed deep =>
      obtain ⟨base, named⟩ := announced.base
      have broken : sanitize fields = .error .recursionError := by
        rw [sanitize, named, listed]
        change (supportedRates entries >>= _) = _
        rw [deep]
        rfl
      exact .inl ⟨.recursionError, rejection_of_fetch (fetch_unreadable announced.success announced.reported
        (by rw [listed]; rfl) broken rfl), rfl⟩
  | @deepPayload answer provided rows fetched made deep =>
      have broken : refreshRows provided = .error .recursionError := by
        rw [refreshRows, made, hashProviderPayload, if_pos deep]
        rfl
      refine .inl ⟨.recursionError, ?_, rfl⟩
      rw [rejection, fetched]
      dsimp only
      rw [broken]
  | @notObject statusCode body success other =>
      refine .inl ⟨.attributeError, rejection_of_fetch ?_, rfl⟩
      cases body with
      | dict fields => exact absurd rfl (other fields)
      | _ =>
          rw [fetch]
          · exact if_neg (not_le.mpr success)
          · intro fields same
            cases same
  | @ratesNotObject statusCode fields rates announced listed other =>
      obtain ⟨base, named⟩ := announced.base
      have broken : sanitize fields = .error .attributeError := by
        rw [sanitize, named, listed]
        cases rates with
        | dict entries => exact absurd rfl (other entries)
        | _ => rfl
      exact .inl ⟨.attributeError, rejection_of_fetch (fetch_unreadable announced.success announced.reported
        (by rw [listed]; rfl) broken rfl), rfl⟩
  | @timestamp statusCode fields entries rates e announced listed converted failed range =>
      obtain ⟨base, named⟩ := announced.base
      have broken : sanitize fields = .error e := by
        rw [sanitize, named, listed]
        change (do
          let rates ← supportedRates entries
          let timestamp ← providerTimestamp ((Json.lookup "timestamp" fields).getD .null)
          return (⟨base, rates, timestamp, fields⟩ : ProviderRates)) = _
        rw [converted, failed]
        rfl
      have other : invalidRateData e = false ∧ recordedError e = none := by
        rcases range with rfl | rfl <;> exact ⟨rfl, rfl⟩
      exact .inl ⟨e, rejection_of_fetch (fetch_unreadable announced.success announced.reported
        (by rw [listed]; rfl) broken other.1), other.2⟩
  | refused converted refused => exact .inr ⟨_, _, converted, refused⟩

/-- A rejection that is not recorded is unforeseen. -/
theorem rejection_recorded (documented : DocumentedTimestamps) {answer : ProviderAnswer} {e : PyError}
    (rejected : rejection answer = some e) : Recorded e ∨ recordedError e = none ∧ Unforeseen answer := by
  unfold rejection at rejected
  split at rejected
  · rename_i fetched
    obtain rfl := Option.some.inj rejected
    exact fetch_error documented fetched
  · rename_i provided fetched
    split at rejected
    · rename_i failed
      obtain rfl := Option.some.inj rejected
      rcases refreshRows_error failed with made | ⟨rfl, deep, rows, made⟩
      · exact .inl (recorded_unusable ((rateRows_error made).imp id .inl))
      · exact .inr ⟨rfl, .deepPayload fetched made deep⟩
    · cases rejected

theorem rejection_none {answer : ProviderAnswer} (h : rejection answer = none) :
    ∃ provided rows, Converted answer provided rows := by
  unfold rejection at h
  split at h
  · cases h
  · rename_i provided fetched
    split at h
    · cases h
    · rename_i rows made
      exact ⟨provided, rows, fetched, made⟩

/-- A rejected answer does not get as far as the database. -/
theorem Converted.not_rejected {answer : ProviderAnswer} {provided : ProviderRates} {rows : List RateRow}
    (h : Converted answer provided rows) : rejection answer = none := by
  rw [rejection, h.fetched]
  dsimp only
  rw [h.prepared]

variable [Settings] {refreshId failureId : Uuid} {snapshotIds : ℕ → Uuid} {answer : ProviderAnswer}

/-- An unforeseen answer changes nothing. -/
theorem refreshRates_run_unforeseen {db : Tables} (unforeseen : Unforeseen answer)
    (spreads : fitsInteger Settings.defaultBuySpreadBps ∧ fitsInteger Settings.defaultSellSpreadBps)
    (ids : FreshIds db refreshId failureId snapshotIds) (clock : List Instant) :
    ∃ e, (program (.refreshRates refreshId failureId snapshotIds answer)).run clock db = (.error e, db) ∧
      ∀ error, e ≠ .api error := by
  rcases unforeseen.unrecorded with ⟨e, rejected, unrecorded⟩ | ⟨provided, rows, converted, refused⟩
  · have run : (program (.refreshRates refreshId failureId snapshotIds answer)).run clock db = _ :=
      refreshRates_run_rejected rejected ids
    rw [unrecorded] at run
    refine ⟨e, run, ?_⟩
    rintro error rfl
    cases unrecorded
  · exact ⟨.dataError, refreshRates_run_refused converted ids spreads refused, fun error same => by cases same⟩

/-- A foreseen one is recorded as a failure, or stored. -/
theorem refreshRates_run_foreseen {db : Tables} (foreseen : ¬ Unforeseen answer) (documented : DocumentedTimestamps)
    (spreads : fitsInteger Settings.defaultBuySpreadBps ∧ fitsInteger Settings.defaultSellSpreadBps)
    (ids : FreshIds db refreshId failureId snapshotIds)
    (book : db.currentRates = [] ∨ db.currentRates.map CurrentRate.pair = canonicalPairs) (clock : List Instant) :
    ((∀ provided rows, ¬ Converted answer provided rows) ∧
      ∃ error : ApiError, (error.statusCode = 502 ∨ error.statusCode = 504) ∧
        (program (.refreshRates refreshId failureId snapshotIds answer)).run clock db = (.error (.api error),
          (Action.refreshFailure (failureRow failureId (clock.headD 0) error)).apply db)) ∨
    ∃ provided rows, Converted answer provided rows ∧
      (program (.refreshRates refreshId failureId snapshotIds answer)).run clock db =
        (match loadRefresh (successRow refreshId provided (clock.headD 0)) with
          | .ok result => .ok (.refresh result)
          | .error _ => .error .dataError,
        (Action.refresh (successRow refreshId provided (clock.headD 0)) (stagedRows snapshotIds rows)).apply db) := by
  cases rejected : rejection answer with
  | some e =>
      obtain ⟨error, recorded, status⟩ := (rejection_recorded documented rejected).resolve_right fun other =>
        foreseen other.2
      have run : (program (.refreshRates refreshId failureId snapshotIds answer)).run clock db = _ :=
        refreshRates_run_rejected rejected ids
      rw [recorded] at run
      refine .inl ⟨fun provided rows converted => ?_, error, status, run⟩
      rw [converted.not_rejected] at rejected
      cases rejected
  | none =>
      obtain ⟨provided, rows, converted⟩ := rejection_none rejected
      have taken : Statement.storable provided.providerTimestamp ∧ ∀ row ∈ rows, fitsRate row.midRate := by
        by_contra refused
        refine foreseen (.refused converted ?_)
        by_contra neither
        simp only [not_or, not_not, not_exists, not_and] at neither
        exact refused neither
      exact .inr ⟨provided, rows, converted, refreshRates_run_stored converted ids spreads taken.1 taken.2 book⟩

variable {start : Instant} {σ : Engine}

/-- In every reachable state a refresh on its own leaves exactly one audit row, of a failure
with a 502 or 504 or of a success with the whole new book, unless the answer is unforeseen;
then it changes nothing and ends in an exception that the engine did not raise. -/
theorem Engine.Reachable.refresh_recorded (h : Reachable start σ) (documented : DocumentedTimestamps)
    (spreads : fitsInteger Settings.defaultBuySpreadBps ∧ fitsInteger Settings.defaultSellSpreadBps)
    (ids : FreshIds σ.world.db refreshId failureId snapshotIds) (clock : List Instant) :
    let ended := (program (.refreshRates refreshId failureId snapshotIds answer)).run clock σ.world.db
    let started := clock.headD 0
    (Unforeseen answer → ∃ e, ended = (.error e, σ.world.db) ∧ ∀ error, e ≠ .api error) ∧
    (¬ Unforeseen answer →
      (∃ error : ApiError, (error.statusCode = 502 ∨ error.statusCode = 504) ∧ ended = (.error (.api error),
        (Action.refreshFailure (failureRow failureId started error)).apply σ.world.db)) ∨
      ∃ provided rows, Converted answer provided rows ∧ ended.2 =
        (Action.refresh (successRow refreshId provided started) (stagedRows snapshotIds rows)).apply σ.world.db ∧
        (ended.1 = .ok (.refresh ⟨refreshId, .completed, started, canonicalPairs.length⟩) ∨
          ended.1 = .error .dataError ∧ ∃ t ∈ provided.providerTimestamp, Platform.loadsTimestamp t = false)) := by
  intro ended started
  refine ⟨fun unforeseen => refreshRates_run_unforeseen unforeseen spreads ids clock, fun foreseen => ?_⟩
  have book := h.invariant.refreshed.current.imp id fun ⟨_, book⟩ => book.pairs
  refine (refreshRates_run_foreseen foreseen documented spreads ids book clock).imp And.right
    fun ⟨provided, rows, converted, run⟩ => ⟨provided, rows, converted, congrArg Prod.snd run, ?_⟩
  rw [show ended = _ from run, loadRefresh]
  split
  · rename_i result loaded
    split at loaded <;> cases loaded
    exact .inl rfl
  · rename_i e failed
    split at failed <;> cases failed
    rename_i unloadable
    simpa [successRow] using unloadable

/-- An attempt on record: of a completed refresh with one new snapshot and one current rate
for each canonical pair, or of a failed one that leaves the rates alone. -/
inductive Audited (db : Tables) : Except PyError Reply × Tables → Prop where
  | completed {row : RateRefresh} {rows : List (Uuid × RateRow)} {after : Tables} {result : RefreshResult}
      (completed : row.status = .completed) (same : result.rateRefreshId = row.id)
      (pairs : rows.map (fun row => (row.2.baseCurrency, row.2.quoteCurrency)) = canonicalPairs)
      (recorded : after.refreshes = db.refreshes ++ [row])
      (snapshots : after.snapshots = db.snapshots ++ rows.map (snapshotOf row))
      (rates : after.currentRates = rows.map (rateOf row)) : Audited db (.ok (.refresh result), after)
  | failed {row : RateRefresh} {after : Tables} {error : ApiError} (failed : row.status = .failed)
      (gateway : error.statusCode = 502 ∨ error.statusCode = 504)
      (recorded : after.refreshes = db.refreshes ++ [row]) (snapshots : after.snapshots = db.snapshots)
      (rates : after.currentRates = db.currentRates) : Audited db (.error (.api error), after)

/-- The timestamp of a payload that is stored can be loaded again. -/
def Loadable (answer : ProviderAnswer) : Prop :=
  ∀ provided rows, Converted answer provided rows → ∀ t ∈ provided.providerTimestamp, Platform.loadsTimestamp t = true

/-- An attempt is on record exactly when its answer is foreseen and can be loaded. -/
theorem Engine.Reachable.audited_iff (h : Reachable start σ) (documented : DocumentedTimestamps)
    (spreads : fitsInteger Settings.defaultBuySpreadBps ∧ fitsInteger Settings.defaultSellSpreadBps)
    (ids : FreshIds σ.world.db refreshId failureId snapshotIds) (clock : List Instant) :
    Audited σ.world.db ((program (.refreshRates refreshId failureId snapshotIds answer)).run clock σ.world.db) ↔
      ¬ Unforeseen answer ∧ Loadable answer := by
  have book := h.invariant.refreshed.current.imp id fun ⟨_, book⟩ => book.pairs
  by_cases unforeseen : Unforeseen answer
  · obtain ⟨e, run, other⟩ := refreshRates_run_unforeseen unforeseen spreads ids clock
    refine iff_of_false (fun audited => ?_) fun condition => condition.1 unforeseen
    rw [run] at audited
    cases audited
    exact other _ rfl
  rcases refreshRates_run_foreseen unforeseen documented spreads ids book clock with
    ⟨rejected, error, gateway, run⟩ | ⟨provided, rows, converted, run⟩
  · exact iff_of_true (run ▸ .failed rfl gateway rfl rfl rfl)
      ⟨unforeseen, fun provided rows converted => absurd converted (rejected provided rows)⟩
  · rw [run, loadRefresh]
    by_cases loads : ∀ t ∈ provided.providerTimestamp, Platform.loadsTimestamp t = true
    · refine iff_of_true ?_ ⟨unforeseen, fun provided' rows' converted' => ?_⟩
      · rw [if_pos (show ∀ t ∈ (successRow refreshId provided (clock.headD 0)).providerTimestamp, _ from loads)]
        exact @Audited.completed _ σ.world.db (successRow refreshId provided (clock.headD 0)) _ _ _ rfl rfl
          converted.staged rfl rfl rfl
      · obtain rfl : provided' = provided := Except.ok.inj (converted'.fetched.symm.trans converted.fetched)
        exact loads
    · refine iff_of_false (fun audited => ?_) fun condition => loads (condition.2 provided rows converted)
      rw [if_neg (show ¬ ∀ t ∈ (successRow refreshId provided (clock.headD 0)).providerTimestamp, _ from loads)] at audited
      cases audited

end Outcomes

attribute [local instance] Sample.platform Sample.settings

namespace Sample

/-- A reachable state in which an attempt can be made. -/
theorem attempted : ∃ σ : Engine, Engine.Reachable 0 σ ∧ DocumentedTimestamps ∧
    (fitsInteger Settings.defaultBuySpreadBps ∧ fitsInteger Settings.defaultSellSpreadBps) ∧
    FreshIds σ.world.db 30 31 (40 + ·) := by
  obtain ⟨σ, reached, db⟩ := reachable prepared (by decide)
  refine ⟨σ, reached, fun value e failed => .inl ⟨"", (Except.error.inj failed).symm⟩, by decide, ?_⟩
  rw [db]
  exact ⟨by decide +kernel, by decide +kernel, by decide, by decide +kernel⟩

theorem foreseen_timeout : ¬ Unforeseen .timeout := by
  have unread : ∀ provided, fetch .timeout ≠ .ok provided := fun provided read => by cases read
  intro unforeseen
  cases unforeseen with
  | refused converted => exact unread _ converted.1
  | deepPayload fetched => exact unread _ fetched

theorem foreseen_answer : ¬ Unforeseen (answer "130" "1500" "0.9") := by
  intro unforeseen
  cases unforeseen with
  | deepBase success reported listed deep => cases deep
  | deepRate announced listed deep =>
      cases listed
      cases deep
  | deepPayload fetched made deep => cases deep
  | notObject success other => exact other _ rfl
  | ratesNotObject announced listed other =>
      cases listed
      exact other _ rfl
  | timestamp announced listed converted failed => cases failed
  | refused converted refused =>
      cases converted.fetched
      cases converted.prepared
      revert refused
      decide +kernel

end Sample

/-- A timeout is recorded, and a body that is not an object is not. -/
theorem Engine.refresh_recorded_sample : ∃ σ : Engine, Engine.Reachable 0 σ ∧
    (∃ error : ApiError, (error.statusCode = 502 ∨ error.statusCode = 504) ∧
      (program (.refreshRates 30 31 (40 + ·) .timeout)).run [0] σ.world.db = (.error (.api error),
        (Action.refreshFailure (failureRow 31 0 error)).apply σ.world.db)) ∧
    ∃ e, (program (.refreshRates 30 31 (40 + ·) (.response 200 (.json .null)))).run [0] σ.world.db =
      (.error e, σ.world.db) ∧ ∀ error, e ≠ .api error := by
  obtain ⟨σ, reached, documented, spreads, ids⟩ := Sample.attempted
  refine ⟨σ, reached, ?_, ?_⟩
  · obtain recorded | ⟨provided, rows, converted, -⟩ :=
      (reached.refresh_recorded documented spreads ids [0]).2 Sample.foreseen_timeout
    · exact recorded
    · cases converted.fetched
  · exact (reached.refresh_recorded documented spreads ids [0]).1 (.notObject (by decide) fun fields => by simp)

/-- A complete answer is on record, and a list is not. -/
theorem Engine.audited_iff_sample : ∃ σ : Engine, Engine.Reachable 0 σ ∧
    Audited σ.world.db ((program (.refreshRates 30 31 (40 + ·) (Sample.answer "130" "1500" "0.9"))).run [0] σ.world.db) ∧
    Audited σ.world.db ((program (.refreshRates 30 31 (40 + ·) .timeout)).run [0] σ.world.db) ∧
    ¬ Audited σ.world.db
      ((program (.refreshRates 30 31 (40 + ·) (.response 200 (.json (.list []))))).run [0] σ.world.db) := by
  obtain ⟨σ, reached, documented, spreads, ids⟩ := Sample.attempted
  have audited : ∀ answer, Audited σ.world.db ((program (.refreshRates 30 31 (40 + ·) answer)).run [0] σ.world.db) ↔
      ¬ Unforeseen answer ∧ Loadable answer := fun answer => reached.audited_iff documented spreads ids [0]
  refine ⟨σ, reached, (audited _).mpr ⟨Sample.foreseen_answer, fun _ _ _ _ _ => rfl⟩,
    (audited _).mpr ⟨Sample.foreseen_timeout, fun _ _ _ _ _ => rfl⟩, fun listed => ?_⟩
  exact ((audited _).mp listed).1 (.notObject (by decide) fun fields => by simp)

/-- After a success with the body `[]` nothing of the attempt is on record. -/
theorem Engine.not_audited : ∃ σ : Engine, Engine.Reachable 0 σ ∧ FreshIds σ.world.db 30 31 (40 + ·) ∧
    (program (.refreshRates 30 31 (40 + ·) (.response 200 (.json (.list []))))).run [0] σ.world.db =
      (.error .attributeError, σ.world.db) ∧
    ¬ ∀ answer, Audited σ.world.db ((program (.refreshRates 30 31 (40 + ·) answer)).run [0] σ.world.db) := by
  obtain ⟨σ, reached, -, -, ids⟩ := Sample.attempted
  have run : (program (.refreshRates 30 31 (40 + ·) (.response 200 (.json (.list []))))).run [0] σ.world.db =
      (.error .attributeError, σ.world.db) := by
    have rejected : rejection (.response 200 (.json (.list []))) = some .attributeError := rfl
    exact refreshRates_run_rejected rejected ids
  refine ⟨σ, reached, ids, run, fun every => ?_⟩
  have audited := every (.response 200 (.json (.list [])))
  rw [run] at audited
  cases audited

end FxEngine
