import FxEngine.Correctness.Executions
import FxEngine.Correctness.Quotes
import FxEngine.Correctness.Refreshes

/-! # Calls on their own

What a call does when nobody else is connected and no statement fails for an outside
reason. Credits and executions are in their own modules.
-/

namespace FxEngine

open Numeric Transactions Program

variable [Platform] [Settings]

/-! ## Refreshes -/

section Refresh

variable {s : Session fx} {refresh : RateRefresh} {rows : List (Uuid × RateRow)}

/-- The rows of a refresh can be inserted as far as everything but the size of their rates
is concerned. -/
structure Stageable (db : Tables) (refresh : RateRefresh) (rows : List (Uuid × RateRow)) : Prop where
  storable : Statement.storable refresh.providerTimestamp
  spreads : fitsInteger Settings.defaultBuySpreadBps ∧ fitsInteger Settings.defaultSellSpreadBps
  recorded : (db.refresh refresh.id).isSome
  distinct : (rows.map Prod.fst).Nodup
  unused : ∀ row ∈ rows, db.snapshot row.1 = none

theorem Stageable.tail {db : Tables} {row : Uuid × RateRow} (h : Stageable db refresh (row :: rows)) :
    Stageable (fx.overlay (rowWrites refresh row) db) refresh rows where
  storable := h.storable
  spreads := h.spreads
  recorded := h.recorded
  distinct := (List.nodup_cons.mp h.distinct).2
  unused other member := by
    refine (Table.row_append_ne fun new inside same => ?_).trans (h.unused other (List.mem_cons_of_mem _ member))
    rw [List.mem_singleton.mp inside] at same
    replace same : row.1 = other.1 := same
    exact (List.nodup_cons.mp h.distinct).1 (same ▸ List.mem_map_of_mem member)

/-- A row whose rate fits is stored. -/
theorem exec_storeRow {row : Uuid × RateRow} (h : Stageable s.view refresh (row :: rows))
    (fits : fitsRate row.2.midRate) :
    (do flush [.insertSnapshot (snapshotOf refresh row)]
        execute (.upsertCurrentRate (rateOf refresh row)) : Tx Unit).exec s =
      (.ok (), (s.wrote (Statement.insertSnapshot (snapshotOf refresh row))).wrote
        (Statement.upsertCurrentRate (rateOf refresh row))) := by
  have inserted : (Statement.insertSnapshot (snapshotOf refresh row)).check s.view = none :=
    Statement.check_insertSnapshot.mpr ⟨fits, h.storable, h.unused row List.mem_cons_self, h.recorded⟩
  have upserted : (Statement.upsertCurrentRate (rateOf refresh row)).check
      (s.wrote (Statement.insertSnapshot (snapshotOf refresh row))).view = none := by
    rw [s.view_wrote]
    refine Statement.check_upsertCurrentRate.mpr ⟨fits, h.spreads, ?_⟩
    rw [Tables.snapshot, Table.row_isSome]
    exact List.mem_map_of_mem (List.mem_append_right _ (List.mem_singleton.mpr rfl))
  exact (exec_bind_ok ((exec_flush inserted).trans exec_flush_nil)).trans (exec_execute_ok upserted)

/-- A row whose rate does not fit ends the transaction. -/
theorem exec_storeRow_tooLarge {row : Uuid × RateRow} (large : ¬ fitsRate row.2.midRate) :
    (do flush [.insertSnapshot (snapshotOf refresh row)]
        execute (.upsertCurrentRate (rateOf refresh row)) : Tx Unit).exec s =
      (.error .dataError, { s with writes := [] }) := by
  have refused : (Statement.insertSnapshot (snapshotOf refresh row)).check s.view = some .dataError := by
    have : violates (¬ fitsRate (snapshotOf refresh row).midRate) PyError.dataError = some .dataError :=
      if_pos large
    rw [Statement.check, this]
    rfl
  have failed : (flush [.insertSnapshot (snapshotOf refresh row)]).exec s =
      (.error .dataError, { s with writes := [] }) := by
    refine exec_bind_error ((exec_execute _ _).trans ?_)
    rw [show fx.check _ s.view = _ from refused]
  exact exec_bind_error failed

theorem view_storeRow {row : Uuid × RateRow} :
    ((s.wrote (Statement.insertSnapshot (snapshotOf refresh row))).wrote
        (Statement.upsertCurrentRate (rateOf refresh row))).view =
      fx.overlay (rowWrites refresh row) s.view := by
  rw [Session.view_wrote, Session.view_wrote]
  rfl

theorem exec_storePairRows (h : Stageable s.view refresh rows) (fits : ∀ row ∈ rows, fitsRate row.2.midRate) :
    (storePairRows refresh.id refresh.providerTimestamp refresh.fetchedAt Settings.defaultBuySpreadBps
      Settings.defaultSellSpreadBps rows).exec s =
      (.ok (), { s with writes := s.writes ++ rows.flatMap (rowWrites refresh) }) := by
  induction rows generalizing s with
  | nil =>
      rw [List.flatMap_nil, List.append_nil]
      rfl
  | cons row rows ih =>
      have next := h.tail
      rw [← view_storeRow] at next
      refine (exec_bind_ok (exec_storeRow h (fits row List.mem_cons_self))).trans
        ((ih next fun r member => fits r (List.mem_cons_of_mem _ member)).trans ?_)
      simp [Session.wrote, rowWrites]

theorem exec_storePairRows_tooLarge (h : Stageable s.view refresh rows)
    (large : ∃ row ∈ rows, ¬ fitsRate row.2.midRate) :
    ∃ s', (storePairRows refresh.id refresh.providerTimestamp refresh.fetchedAt Settings.defaultBuySpreadBps
      Settings.defaultSellSpreadBps rows).exec s = (.error .dataError, s') ∧ s'.db = s.db := by
  induction rows generalizing s with
  | nil =>
      obtain ⟨row, member, -⟩ := large
      cases member
  | cons row rows ih =>
      by_cases fits : fitsRate row.2.midRate
      · have next := h.tail
        rw [← view_storeRow] at next
        obtain ⟨s', failed, same⟩ := ih next (by simpa [fits] using large)
        exact ⟨s', (exec_bind_ok (exec_storeRow h fits)).trans failed, same⟩
      · exact ⟨_, exec_bind_error (exec_storeRow_tooLarge fits), rfl⟩

/-! ### The outcome of an attempt -/

variable {refreshId failureId : Uuid} {snapshotIds : ℕ → Uuid} {answer : ProviderAnswer} {provided : ProviderRates}
  {rateRow : List RateRow} {db : Tables} {clock : List Instant}

/-- The identifiers an attempt generates are new. -/
structure FreshIds (db : Tables) (refreshId failureId : Uuid) (snapshotIds : ℕ → Uuid) : Prop where
  refresh : db.refresh refreshId = none
  failure : db.refresh failureId = none
  distinct : ((List.range canonicalPairs.length).map snapshotIds).Nodup
  unused : ∀ i < canonicalPairs.length, db.snapshot (snapshotIds i) = none

/-- The audit row of a failed attempt. -/
def failureRow (failureId : Uuid) (started : Instant) (error : ApiError) : RateRefresh :=
  ⟨failureId, .failed, none, none, started, 0, some error.code, some error.detail⟩

/-- The audit row of a successful one. -/
def successRow (refreshId : Uuid) (provided : ProviderRates) (started : Instant) : RateRefresh :=
  ⟨refreshId, .completed, some provided.baseCurrency, provided.providerTimestamp, started, canonicalPairs.length,
    none, none⟩

/-- The rows with the identifiers of their snapshots. -/
def stagedRows (snapshotIds : ℕ → Uuid) (rows : List RateRow) : List (Uuid × RateRow) :=
  rows.zipIdx.map fun (row, i) => (snapshotIds i, row)

/-- What the `except` clauses record of an exception. -/
def recordedError : PyError → Option ApiError
  | .api error => some error
  | e =>
      if unusableRates e then some (badGateway errorUpstreamBadResponse "Rate provider returned unusable rates.")
      else none

theorem exec_recordFailedRefresh {started : Instant} {error : ApiError} (fresh : Tables.refresh s.db failureId = none) :
    (recordFailedRefresh failureId started error).exec s =
      (.ok (), { s with
        writes := []
        db := (Action.refreshFailure (failureRow failureId started error)).apply s.db }) := by
  let s₁ : Session fx := { s with writes := [] }
  have ok : (Statement.insertRefresh (failureRow failureId started error)).check s₁.view = none := by
    refine Statement.check_insertRefresh.mpr ⟨?_, fresh⟩
    rintro t ⟨⟩
  have inserted : (createRefreshFailure failureId started error.code error.detail).exec s₁ =
      (.ok (failureRow failureId started error), s₁.wrote (Statement.insertRefresh (failureRow failureId started error))) :=
    (exec_bind_ok ((exec_flush ok).trans exec_flush_nil)).trans rfl
  refine (exec_bind_ok (exec_rollbackAll s)).trans ((exec_bind_ok inserted).trans ?_)
  exact (exec_bind_ok (exec_commitAll _)).trans ((exec_bind_ok (exec_inc _ _)).trans (exec_select _ _))

/-- A recorded exception leaves a failed attempt and is raised as an `ApiError`. -/
theorem exec_refreshFailed_recorded {started : Instant} {e : PyError} {error : ApiError}
    (recorded : recordedError e = some error) (fresh : Tables.refresh s.db failureId = none) :
    (refreshFailed failureId started e).exec s =
      (.error (.api error), { s with
        writes := []
        db := (Action.refreshFailure (failureRow failureId started error)).apply s.db }) := by
  unfold refreshFailed
  split
  · obtain rfl : _ = error := Option.some.inj recorded
    exact (exec_bind_ok (exec_recordFailedRefresh fresh)).trans rfl
  · rename_i plain
    have unusable : unusableRates e = true ∧
        badGateway errorUpstreamBadResponse "Rate provider returned unusable rates." = error := by
      unfold recordedError at recorded
      split at recorded
      · exact absurd rfl (plain _)
      · split at recorded
        · exact ⟨by assumption, Option.some.inj recorded⟩
        · cases recorded
    obtain ⟨yes, rfl⟩ := unusable
    rw [if_pos yes]
    exact (exec_bind_ok (exec_recordFailedRefresh fresh)).trans rfl

omit [Settings] in
/-- Any other exception goes through. -/
theorem exec_refreshFailed_escapes {started : Instant} {e : PyError} (unrecorded : recordedError e = none) :
    (refreshFailed failureId started e).exec s = (.error e, s) := by
  unfold refreshFailed
  split
  · cases unrecorded
  · have unusable : ¬ unusableRates e = true := by
      intro yes
      unfold recordedError at unrecorded
      split at unrecorded
      · cases unrecorded
      · rw [if_pos yes] at unrecorded
        cases unrecorded
    exact (exec_if_neg unusable).trans rfl

variable (s refreshId failureId snapshotIds) in
/-- An attempt whose work fails with `e`. -/
theorem exec_refreshRates_error {s' : Session fx} {e : PyError} (failed : (do
      let provided ← ofExcept (fetch answer)
      let refresh ← persistSuccessfulRefresh refreshId snapshotIds provided (s.clock.headD 0)
      recordSuccessfulRefresh refresh : Tx RefreshResult).exec { s with clock := Session.later s.clock } =
        (.error e, s')) :
    (refreshRates refreshId failureId snapshotIds answer).exec s =
      (refreshFailed failureId (s.clock.headD 0) e).exec s' := by
  refine (exec_bind_ok (exec_selectForUpdate _ _ _)).trans ((exec_bind_ok (exec_now _)).trans ?_)
  refine (exec_bind_ok (exec_attempt _ _)).trans ?_
  rw [failed]

/-- The exception that rejects the provider's answer before anything is written. -/
def rejection (answer : ProviderAnswer) : Option PyError :=
  match fetch answer with
  | .error e => some e
  | .ok provided =>
      match refreshRows provided with
      | .error e => some e
      | .ok _ => none

variable (s refreshId failureId snapshotIds) in
theorem exec_refreshRates_rejected {e : PyError} (rejected : rejection answer = some e) :
    (refreshRates refreshId failureId snapshotIds answer).exec s =
      (refreshFailed failureId (s.clock.headD 0) e).exec { s with clock := Session.later s.clock } := by
  refine exec_refreshRates_error _ _ _ _ ?_
  unfold rejection at rejected
  split at rejected
  · rename_i fetched
    obtain rfl := Option.some.inj rejected
    exact exec_bind_error ((exec_ofExcept _ _).trans (by rw [fetched]))
  · rename_i provided fetched
    split at rejected
    · rename_i made
      obtain rfl := Option.some.inj rejected
      refine (exec_bind_ok ((exec_ofExcept _ _).trans (by rw [fetched]))).trans ?_
      refine exec_bind_error (exec_bind_error ((exec_ofExcept _ _).trans ?_))
      rw [made]
    · cases rejected

/-- A rejected answer is recorded if its exception is. -/
theorem refreshRates_run_rejected {e : PyError} (rejected : rejection answer = some e)
    (ids : FreshIds db refreshId failureId snapshotIds) :
    (program (.refreshRates refreshId failureId snapshotIds answer)).run clock db =
      match recordedError e with
      | some error => (.error (.api error),
          (Action.refreshFailure (failureRow failureId (clock.headD 0) error)).apply db)
      | none => (.error e, db) := by
  have start := exec_refreshRates_rejected ⟨clock, [], db⟩ refreshId failureId snapshotIds rejected
  cases recorded : recordedError e with
  | some error =>
      have ended := start.trans (exec_refreshFailed_recorded recorded ids.failure)
      rw [Program.run, show (program (.refreshRates refreshId failureId snapshotIds answer)).exec ⟨clock, [], db⟩ = _
        from exec_bind_error ended]
  | none =>
      have ended := start.trans (exec_refreshFailed_escapes recorded)
      rw [Program.run, show (program (.refreshRates refreshId failureId snapshotIds answer)).exec ⟨clock, [], db⟩ = _
        from exec_bind_error ended]

/-! ### An accepted answer -/

/-- An answer that got as far as the database. -/
structure Converted (answer : ProviderAnswer) (provided : ProviderRates) (rows : List RateRow) : Prop where
  fetched : fetch answer = .ok provided
  prepared : refreshRows provided = .ok rows

omit [Settings] in
theorem Converted.made (h : Converted answer provided rateRow) : rateRows provided canonicalPairs = .ok rateRow :=
  (refreshRows_ok.mp h.prepared).1

omit [Settings] in
theorem Converted.length (h : Converted answer provided rateRow) : rateRow.length = canonicalPairs.length := by
  rw [← rateRows_pairs h.made, List.length_map]

omit [Settings] in
theorem Converted.staged (h : Converted answer provided rateRow) :
    (stagedRows snapshotIds rateRow).map (fun row => (row.2.baseCurrency, row.2.quoteCurrency)) = canonicalPairs := by
  have := rateRows_pairs h.made
  rwa [← snd_zipIdx snapshotIds rateRow, List.map_map] at this

omit [Platform] [Settings] in
theorem fst_stagedRows (rows : List RateRow) :
    (stagedRows snapshotIds rows).map Prod.fst = (List.range rows.length).map snapshotIds := by
  have indices := List.zipIdx_map_snd 0 rows
  rw [← List.range_eq_range'] at indices
  rw [← indices, stagedRows, List.map_map, List.map_map]
  rfl

theorem exec_persist_unstorable (h : Converted answer provided rateRow) {started : Instant}
    (refused : ¬ Statement.storable provided.providerTimestamp) :
    ∃ s', (persistSuccessfulRefresh refreshId snapshotIds provided started).exec s = (.error .dataError, s') ∧
      s'.db = s.db := by
  refine ⟨{ s with writes := [] }, ?_, rfl⟩
  refine (exec_bind_ok ((exec_ofExcept _ _).trans (by rw [h.prepared]))).trans ?_
  refine exec_bind_error (exec_bind_error ((exec_execute _ _).trans ?_))
  have check : violates (¬ Statement.storable provided.providerTimestamp) PyError.dataError = some .dataError :=
    if_pos refused
  simp only [Statement.check, check]
  rfl

theorem stageable (h : Converted answer provided rateRow) (ids : FreshIds db refreshId failureId snapshotIds)
    (spreads : fitsInteger Settings.defaultBuySpreadBps ∧ fitsInteger Settings.defaultSellSpreadBps)
    (storable : Statement.storable provided.providerTimestamp) {started : Instant} :
    Stageable ((Statement.insertRefresh (successRow refreshId provided started)).apply db)
      (successRow refreshId provided started) (stagedRows snapshotIds rateRow) where
  storable := storable
  spreads := spreads
  recorded := by
    rw [Tables.refresh, Table.row_isSome]
    exact List.mem_map_of_mem (List.mem_append_right _ (List.mem_singleton.mpr rfl))
  distinct := by
    rw [fst_stagedRows, h.length]
    exact ids.distinct
  unused row member := by
    have inside := List.mem_map_of_mem (f := Prod.fst) member
    rw [fst_stagedRows, h.length] at inside
    obtain ⟨i, small, same⟩ := List.mem_map.mp inside
    exact same ▸ ids.unused i (List.mem_range.mp small)

theorem exec_persist (h : Converted answer provided rateRow) (ids : FreshIds (Session.view s) refreshId failureId snapshotIds)
    (spreads : fitsInteger Settings.defaultBuySpreadBps ∧ fitsInteger Settings.defaultSellSpreadBps)
    (storable : Statement.storable provided.providerTimestamp) {started : Instant} :
    ((∀ row ∈ rateRow, fitsRate row.midRate) →
      (persistSuccessfulRefresh refreshId snapshotIds provided started).exec s =
        (.ok (successRow refreshId provided started), { s with
          writes := s.writes ++ .insertRefresh (successRow refreshId provided started) ::
            (stagedRows snapshotIds rateRow).flatMap (rowWrites (successRow refreshId provided started)) })) ∧
    ((∃ row ∈ rateRow, ¬ fitsRate row.midRate) →
      ∃ s', (persistSuccessfulRefresh refreshId snapshotIds provided started).exec s = (.error .dataError, s') ∧
        s'.db = s.db) := by
  let refresh := successRow refreshId provided started
  let s₁ := s.wrote (Statement.insertRefresh refresh)
  have view₁ : s₁.view = (Statement.insertRefresh refresh).apply s.view := s.view_wrote _
  have ready := @stageable _ _ _ _ _ _ _ _ _ h ids spreads storable started
  rw [← show s₁.view = _ from view₁] at ready
  have inserted : (flush [.insertRefresh refresh]).exec s = (.ok (), s₁) :=
    (exec_flush (Statement.check_insertRefresh.mpr ⟨storable, ids.refresh⟩)).trans exec_flush_nil
  have size : (⟨refreshId, .completed, some provided.baseCurrency, provided.providerTimestamp, started, rateRow.length,
      none, none⟩ : RateRefresh) = refresh := by rw [h.length]; rfl
  have inside : ∀ row ∈ stagedRows snapshotIds rateRow, row.2 ∈ rateRow := fun row member =>
    snd_zipIdx snapshotIds rateRow ▸ List.mem_map_of_mem (f := Prod.snd) member
  have made : ∀ {r : Except PyError RateRefresh × Session fx},
      (createRefreshSuccess refreshId provided.baseCurrency provided.providerTimestamp started
        Settings.defaultBuySpreadBps Settings.defaultSellSpreadBps rateRow.length
        (stagedRows snapshotIds rateRow)).exec s = r →
      (persistSuccessfulRefresh refreshId snapshotIds provided started).exec s = r := fun same =>
    (exec_bind_ok ((exec_ofExcept _ _).trans (by rw [h.prepared]))).trans same
  constructor
  · intro fits
    refine made ?_
    rw [createRefreshSuccess, size]
    refine (exec_bind_ok inserted).trans ((exec_bind_ok (exec_storePairRows ready fun row member =>
      fits _ (inside row member))).trans ?_)
    simp only [s₁, Session.wrote, refresh, List.append_assoc, List.singleton_append]
    rfl
  · rintro ⟨row, member, large⟩
    rw [← snd_zipIdx snapshotIds rateRow] at member
    obtain ⟨staged, there, rfl⟩ := List.mem_map.mp member
    obtain ⟨s', failed, same⟩ := exec_storePairRows_tooLarge ready ⟨staged, there, large⟩
    refine ⟨s', made ?_, same⟩
    rw [createRefreshSuccess, size]
    exact (exec_bind_ok inserted).trans (exec_bind_error failed)

/-- What the database refuses ends the attempt without a trace. -/
theorem refreshRates_run_refused (h : Converted answer provided rateRow) (ids : FreshIds db refreshId failureId snapshotIds)
    (spreads : fitsInteger Settings.defaultBuySpreadBps ∧ fitsInteger Settings.defaultSellSpreadBps)
    (refused : ¬ Statement.storable provided.providerTimestamp ∨ ∃ row ∈ rateRow, ¬ fitsRate row.midRate) :
    (program (.refreshRates refreshId failureId snapshotIds answer)).run clock db = (.error .dataError, db) := by
  let s : Session fx := ⟨clock, [], db⟩
  let s₁ : Session fx := { s with clock := Session.later clock }
  obtain ⟨s₂, persisted, same⟩ : ∃ s₂, (persistSuccessfulRefresh refreshId snapshotIds provided
      (s.clock.headD 0)).exec s₁ = (.error .dataError, s₂) ∧ s₂.db = db := by
    by_cases storable : Statement.storable provided.providerTimestamp
    · exact (exec_persist (s := s₁) h ids spreads storable).2 (refused.resolve_left (not_not_intro storable))
    · exact exec_persist_unstorable h storable
  have ended := exec_refreshRates_error s refreshId failureId
    snapshotIds ((exec_bind_ok ((exec_ofExcept _ _).trans (by rw [h.fetched]))).trans
      (exec_bind_error persisted))
  have escaped := ended.trans (exec_refreshFailed_escapes (e := .dataError) rfl)
  have whole : (program (.refreshRates refreshId failureId snapshotIds answer)).exec s = (.error .dataError, s₂) :=
    exec_bind_error escaped
  rw [Program.run, whole, same]

/-- What the database takes replaces the rate book; the attempt then ends as the loading of
its row does. -/
theorem refreshRates_run_stored (h : Converted answer provided rateRow) (ids : FreshIds db refreshId failureId snapshotIds)
    (spreads : fitsInteger Settings.defaultBuySpreadBps ∧ fitsInteger Settings.defaultSellSpreadBps)
    (storable : Statement.storable provided.providerTimestamp) (fits : ∀ row ∈ rateRow, fitsRate row.midRate)
    (book : db.currentRates = [] ∨ db.currentRates.map CurrentRate.pair = canonicalPairs) :
    (program (.refreshRates refreshId failureId snapshotIds answer)).run clock db =
      (match loadRefresh (successRow refreshId provided (clock.headD 0)) with
        | .ok result => .ok (.refresh result)
        | .error _ => .error .dataError,
      (Action.refresh (successRow refreshId provided (clock.headD 0)) (stagedRows snapshotIds rateRow)).apply db) := by
  let refresh := successRow refreshId provided (clock.headD 0)
  let staged := stagedRows snapshotIds rateRow
  let s : Session fx := ⟨clock, [], db⟩
  let s₁ : Session fx := { s with clock := Session.later clock }
  let s₂ : Session fx := { s₁ with writes := .insertRefresh refresh :: staged.flatMap (rowWrites refresh) }
  have persisted : (persistSuccessfulRefresh refreshId snapshotIds provided (s.clock.headD 0)).exec s₁ =
      (.ok refresh, s₂) := (exec_persist (s := s₁) h ids spreads storable).1 fits
  have view : s₂.view = (Action.refresh refresh staged).apply db := overlay_refresh h.staged book
  have recorded : ∀ {r}, loadRefresh refresh = r →
      (do let provided ← ofExcept (fetch answer)
          let refresh ← persistSuccessfulRefresh refreshId snapshotIds provided (s.clock.headD 0)
          recordSuccessfulRefresh refresh : Tx RefreshResult).exec s₁ = (r, s₂.committed) := fun loaded =>
    (exec_bind_ok ((exec_ofExcept _ _).trans (by rw [h.fetched]))).trans ((exec_bind_ok persisted).trans
      ((exec_bind_ok (exec_commitAll _)).trans ((exec_bind_ok (exec_inc _ _)).trans
        ((exec_bind_ok (exec_select _ _)).trans ((exec_ofExcept _ _).trans (by rw [loaded]))))))
  cases loaded : loadRefresh refresh with
  | ok result =>
      have done : (refreshRates refreshId failureId snapshotIds answer).exec s = (.ok result, s₂.committed) := by
        refine (exec_bind_ok (exec_selectForUpdate _ _ _)).trans ((exec_bind_ok (exec_now _)).trans ?_)
        refine (exec_bind_ok (exec_attempt _ _)).trans ?_
        rw [recorded loaded]
        rfl
      have whole : (program (.refreshRates refreshId failureId snapshotIds answer)).exec s =
          (.ok (.refresh result), s₂.committed) := (exec_bind_ok done).trans rfl
      rw [Program.run, whole]
      exact congrArg (Prod.mk _) view
  | error e =>
      obtain rfl : .dataError = e := by
        unfold loadRefresh at loaded
        split at loaded <;> cases loaded
        rfl
      have ended := exec_refreshRates_error s refreshId failureId snapshotIds (recorded loaded)
      have escaped := ended.trans (exec_refreshFailed_escapes (e := .dataError) rfl)
      have whole : (program (.refreshRates refreshId failureId snapshotIds answer)).exec s =
          (.error .dataError, s₂.committed) := exec_bind_error escaped
      rw [Program.run, whole]
      exact congrArg (Prod.mk _) view

end Refresh

/-! ## Quotes -/

section Quoting

/-- The error of the first statement of a batch that is refused. -/
def flushError : List Statement → Tables → Option PyError
  | [], _ => none
  | w :: pending, db =>
      match w.check db with
      | some e => some e
      | none => flushError pending (w.apply db)

omit [Settings] in
theorem exec_flush_eq {pending : List Statement} (s : Session fx) :
    (flush pending).exec s = match flushError pending s.view with
      | none => (.ok (), { s with writes := s.writes ++ pending })
      | some e => (.error e, { s with writes := [] }) := by
  induction pending generalizing s with
  | nil =>
      rw [flushError, List.append_nil]
      rfl
  | cons w pending ih =>
      rw [flushError]
      cases refused : w.check s.view with
      | some e =>
          refine exec_bind_error ((exec_execute _ _).trans ?_)
          rw [show fx.check w s.view = _ from refused]
      | none =>
          refine (exec_flush refused).trans ((ih _).trans ?_)
          rw [Session.view_wrote]
          dsimp only
          cases flushError pending (w.apply s.view) <;> simp [Session.wrote]

/-- The freshness test of a quote, on the book it has loaded. -/
def checkFresh (book : CurrentRateBook) : Tx CurrentRateBook :=
  match book.lastUpdatedAt with
  | none => .raise (serviceUnavailable errorRatesStale "Rates are unavailable.")
  | some lastUpdatedAt => do
      let oldest ← ofExcept (cutoff (← now))
      if lastUpdatedAt < oldest then .raise (serviceUnavailable errorRatesStale "Rates are stale.")
      else pure book

/-- The gate of `createQuote`. -/
def freshRateBook : Tx CurrentRateBook := do checkFresh (← loadCurrentRateBook)

/-- What `createQuote` does behind its gate. -/
def quoteFrom (quoteId customerId : Uuid) (source destination : Currency) (amount : Decimal)
    (book : CurrentRateBook) : Tx Quote := do
  let terms ← ofExcept (quoteTerms book source destination amount)
  let createdAt ← now
  let quote := terms.toQuote quoteId customerId source destination createdAt
  flush [.insertQuote quote]
  let legs ← ofExcept (arith (legRows quoteId 0 terms.legs))
  flush (legs.map Statement.insertLeg)
  commitAll
  inc .quoteCreatedTotal
  reload
  pure quote

/-- A quote goes through its gate. -/
theorem createQuote_gated (quoteId customerId : Uuid) (source destination : Currency) (amount : Decimal) :
    createQuote quoteId customerId source destination amount = (do
      if source = destination then
        .raise (validationError "source_currency and destination_currency must differ." [])
      else
        assertCustomerExists customerId
        let book ← freshRateBook
        quoteFrom quoteId customerId source destination amount book) := by
  unfold createQuote freshRateBook
  congr 1
  congr 1
  funext _
  rw [bind_bind]
  congr 1
  funext book
  rw [checkFresh]
  cases book.lastUpdatedAt with
  | none => rfl
  | some latest =>
      dsimp only
      simp only [bind_bind]
      congr 1
      funext checkedAt
      congr 1
      funext oldest
      split <;> rfl

/-- What the freshness test comes to. -/
def bookGate (book : CurrentRateBook) (checkedAt : Instant) : Except PyError Unit :=
  match book.lastUpdatedAt with
  | none => .error (serviceUnavailable errorRatesStale "Rates are unavailable.")
  | some lastUpdatedAt =>
      match cutoff checkedAt with
      | .error e => .error e
      | .ok oldest =>
          if lastUpdatedAt < oldest then .error (serviceUnavailable errorRatesStale "Rates are stale.") else .ok ()

/-- The freshness gate of a quote. -/
def quoteGate (db : Tables) (checkedAt : Instant) : Except PyError Unit :=
  match loadForeign db.foreignRates with
  | .error e => .error e
  | .ok _ => bookGate (rateBook db.currentRates) checkedAt

theorem exec_checkFresh (book : CurrentRateBook) (s : Session fx) :
    (∀ e, bookGate book (s.clock.headD 0) = .error e →
      ∃ s', (checkFresh book).exec s = (.error e, s') ∧ s'.db = s.db) ∧
    (bookGate book (s.clock.headD 0) = .ok () →
      (checkFresh book).exec s = (.ok book, { s with clock := Session.later s.clock })) := by
  unfold checkFresh bookGate
  cases book.lastUpdatedAt with
  | none => exact ⟨fun e h => by cases h; exact ⟨s, rfl, rfl⟩, nofun⟩
  | some latest =>
      dsimp only
      rw [exec_bind_ok (exec_now s)]
      cases cutoff (s.clock.headD 0) with
      | error e => exact ⟨fun e' h => by cases h; exact ⟨_, exec_bind_error (exec_ofExcept _ _), rfl⟩, nofun⟩
      | ok oldest =>
          rw [exec_bind_ok (exec_ofExcept _ _)]
          dsimp only
          split
          · exact ⟨fun e h => by cases h; exact ⟨_, rfl, rfl⟩, nofun⟩
          · exact ⟨nofun, fun _ => rfl⟩

/-- The gate answers what `quoteGate` says. -/
theorem exec_freshRateBook (s : Session fx) :
    (∀ e, quoteGate s.view (s.clock.headD 0) = .error e →
      ∃ s', freshRateBook.exec s = (.error e, s') ∧ s'.db = s.db) ∧
    (quoteGate s.view (s.clock.headD 0) = .ok () →
      freshRateBook.exec s =
        (.ok (rateBook (Tables.currentRates s.view)), { s with clock := Session.later s.clock })) := by
  have loaded : loadCurrentRateBook.exec s =
      ((loadForeign (Tables.foreignRates s.view)).map fun _ => rateBook (Tables.currentRates s.view), s) := by
    refine (exec_bind_ok (exec_select _ s)).trans ?_
    dsimp only
    cases loadForeign (Tables.foreignRates s.view) with
    | error e => exact exec_bind_error (exec_ofExcept _ s)
    | ok _ => exact exec_bind_ok (exec_ofExcept _ s)
  unfold freshRateBook quoteGate
  cases found : loadForeign (Tables.foreignRates s.view) with
  | error e =>
      rw [found] at loaded
      exact ⟨fun e' h => by cases h; exact ⟨s, exec_bind_error loaded, rfl⟩, nofun⟩
  | ok _ =>
      rw [found] at loaded
      rw [exec_bind_ok loaded]
      exact exec_checkFresh _ s

/-- The legs stored with a quote. -/
def storedLegs (db : Tables) (quote : Quote) (legs : List LegPricing) : Except PyError (List QuoteLeg) :=
  match flushError [.insertQuote quote] db with
  | some e => .error e
  | none =>
      match arith (legRows quote.id 0 legs) with
      | .error e => .error e
      | .ok rows =>
          match flushError (rows.map .insertLeg) ((Statement.insertQuote quote).apply db) with
          | some e => .error e
          | none => .ok rows

/-- The rows of a quote whose rates are fresh. -/
def quoteRows (db : Tables) (quoteId customerId : Uuid) (source destination : Currency) (amount : Decimal)
    (createdAt : Instant) : Except PyError (Quote × List QuoteLeg) := do
  let terms ← quoteTerms (rateBook db.currentRates) source destination amount
  let quote := terms.toQuote quoteId customerId source destination createdAt
  let legs ← storedLegs db quote terms.legs
  return (quote, legs)

variable {quoteId customerId : Uuid} {source destination : Currency} {sourceAmount : Json} {amount : Decimal}
  {db : Tables} {clock : List Instant}

/-- Storing a quote and its legs. -/
theorem exec_storeQuote (quote : Quote) (priced : List LegPricing) (s : Session fx) (clean : s.writes = []) :
    ∃ s', (do
        flush [.insertQuote quote]
        let legs ← ofExcept (arith (legRows quote.id 0 priced))
        flush (legs.map Statement.insertLeg)
        commitAll
        inc .quoteCreatedTotal
        reload
        pure quote : Tx Quote).exec s = ((storedLegs s.db quote priced).map fun _ => quote, s') ∧
      s'.db = match storedLegs s.db quote priced with
        | .ok legs => (Action.quote quote legs).apply s.db
        | .error _ => s.db := by
  obtain ⟨clock, writes, db⟩ := s
  obtain rfl : writes = [] := clean
  let s₁ : Session fx := ⟨clock, [], db⟩
  let s₂ : Session fx := { s₁ with writes := [.insertQuote quote] }
  have view : s₂.view = (Statement.insertQuote quote).apply db := rfl
  dsimp only
  cases inserted : flushError [.insertQuote quote] db with
  | some e =>
      have refused : (flush [.insertQuote quote]).exec s₁ = (.error e, s₁) :=
        (exec_flush_eq s₁).trans (by rw [show flushError _ s₁.view = _ from inserted])
      simp only [storedLegs, inserted]
      exact ⟨s₁, exec_bind_error refused, rfl⟩
  | none =>
  have taken : (flush [.insertQuote quote]).exec s₁ = (.ok (), s₂) :=
    (exec_flush_eq s₁).trans (by rw [show flushError _ s₁.view = _ from inserted]; rfl)
  cases made : arith (legRows quote.id 0 priced) with
  | error e =>
      simp only [storedLegs, inserted, made]
      exact ⟨s₂, (exec_bind_ok taken).trans (exec_bind_error (exec_ofExcept _ _)), rfl⟩
  | ok legs =>
  cases stored : flushError (legs.map .insertLeg) ((Statement.insertQuote quote).apply db) with
  | some e =>
      simp only [storedLegs, inserted, made, stored]
      refine ⟨s₁, (exec_bind_ok taken).trans ((exec_bind_ok (exec_ofExcept _ _)).trans (exec_bind_error ?_)), rfl⟩
      refine (exec_flush_eq s₂).trans ?_
      rw [view, stored]
  | none =>
      simp only [storedLegs, inserted, made, stored]
      let s₃ : Session fx := { s₂ with writes := s₂.writes ++ legs.map .insertLeg }
      have after : s₃.committed.db = (Action.quote quote legs).apply db :=
        (Database.overlay_append fx [.insertQuote quote] _ db).trans (overlay_legs _)
      have flushed : (flush (legs.map Statement.insertLeg)).exec s₂ = (.ok (), s₃) := by
        refine (exec_flush_eq s₂).trans ?_
        rw [view, stored]
      exact ⟨s₃.committed, (exec_bind_ok taken).trans ((exec_bind_ok (exec_ofExcept _ _)).trans
        ((exec_bind_ok flushed).trans ((exec_bind_ok (exec_commitAll _)).trans rfl))), after⟩

variable (quoteId customerId source destination amount) in
/-- From the gate on, a quote ends as its rows do. -/
theorem exec_quoteRows (s : Session fx) (clean : s.writes = []) :
    ∃ s', (quoteFrom quoteId customerId source destination amount (rateBook (Tables.currentRates s.db))).exec s =
      ((quoteRows s.db quoteId customerId source destination amount (s.clock.headD 0)).map Prod.fst, s') ∧
      s'.db = match quoteRows s.db quoteId customerId source destination amount (s.clock.headD 0) with
        | .ok (quote, legs) => (Action.quote quote legs).apply s.db
        | .error _ => s.db := by
  unfold quoteFrom
  cases priced : quoteTerms (rateBook (Tables.currentRates s.db)) source destination amount with
  | error e =>
      have rows : quoteRows s.db quoteId customerId source destination amount (s.clock.headD 0) = .error e := by
        rw [quoteRows, priced]
        rfl
      rw [rows]
      exact ⟨_, exec_bind_error (exec_ofExcept _ _), rfl⟩
  | ok terms =>
      let quote := terms.toQuote quoteId customerId source destination (s.clock.headD 0)
      have rows : quoteRows s.db quoteId customerId source destination amount (s.clock.headD 0) =
          (storedLegs s.db quote terms.legs).map (quote, ·) := by
        rw [quoteRows, priced]
        change (do let legs ← storedLegs s.db quote terms.legs; return (quote, legs)) = _
        cases storedLegs s.db quote terms.legs <;> rfl
      obtain ⟨s', ended, after⟩ := exec_storeQuote quote terms.legs
        { s with clock := Session.later s.clock } clean
      refine ⟨s', (exec_bind_ok (exec_ofExcept _ _)).trans ((exec_bind_ok (exec_now _)).trans (ended.trans ?_)), ?_⟩
      · rw [rows]
        cases storedLegs s.db quote terms.legs <;> rfl
      · rw [rows, after]
        cases storedLegs s.db quote terms.legs <;> rfl

/-- A quote that reaches its gate is refused there, or ends as its rows do. -/
theorem createQuote_run (accepted : positiveDecimal "source_amount" sourceAmount = .ok amount)
    (differ : source ≠ destination) (known : db.hasCustomer customerId) :
    (program (.createQuote quoteId customerId source destination sourceAmount)).run clock db =
      match quoteGate db (clock.headD 0) >>= fun _ => quoteRows db quoteId customerId source destination amount
        ((Session.later clock).headD 0) with
      | .ok (quote, legs) => (.ok (.quote quote), (Action.quote quote legs).apply db)
      | .error e => (.error e, db) := by
  let s : Session fx := ⟨clock, [], db⟩
  let s₁ : Session fx := { s with clock := Session.later clock }
  have gated : ∀ {r : Except PyError Quote × Session fx}, (createQuote quoteId customerId source destination amount).exec s = r →
      (program (.createQuote quoteId customerId source destination sourceAmount)).run clock db =
        (r.1.map Reply.quote, r.2.db) := by
    intro r service
    have endpoint : (createQuoteEndpoint quoteId customerId source destination sourceAmount).exec s =
        (r.1.map Reply.quote, r.2) := by
      refine (exec_bind_ok ((exec_ofExcept _ _).trans (by rw [accepted]))).trans ?_
      obtain ⟨r, s'⟩ := r
      cases r with
      | ok q => exact (exec_bind_ok service).trans rfl
      | error e => exact exec_bind_error service
    rw [Program.run, show (program (.createQuote quoteId customerId source destination sourceAmount)).exec _ = _
      from endpoint]
  obtain ⟨refused, passed⟩ := exec_freshRateBook s
  have entered : ∀ {r : Except PyError Quote × Session fx}, (do
      let book ← freshRateBook
      quoteFrom quoteId customerId source destination amount book : Tx Quote).exec s = r →
      (createQuote quoteId customerId source destination amount).exec s = r := by
    intro r rest
    rw [createQuote_gated]
    exact (exec_if_neg differ).trans ((exec_bind_ok (exec_assertCustomerExists (s := s) known)).trans rest)
  cases gate : quoteGate db (clock.headD 0) with
  | error e =>
      obtain ⟨s', failed, kept⟩ := refused e gate
      rw [gated (entered (exec_bind_error failed)), show s'.db = db from kept]
      rfl
  | ok _ =>
      obtain ⟨s', done, after⟩ := exec_quoteRows quoteId customerId source destination amount s₁ rfl
      refine (gated (entered ((exec_bind_ok (passed gate)).trans done))).trans ?_
      change (Except.map Reply.quote (Except.map Prod.fst _), s'.db) = _
      rw [after]
      cases quoteRows db quoteId customerId source destination amount ((Session.later clock).headD 0) <;> rfl

end Quoting

end FxEngine
