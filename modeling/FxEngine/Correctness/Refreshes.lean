import FxEngine.Correctness.Customers
import FxEngine.Correctness.Provider

/-! # Refreshes meet their specification -/

namespace FxEngine

open Numeric Transactions Program

variable [Platform] [Settings]

/-! ## The rows of a refresh -/

/-- The writes of one pair. -/
def rowWrites (refresh : RateRefresh) (row : Uuid × RateRow) : List Statement :=
  [.insertSnapshot (snapshotOf refresh row), .upsertCurrentRate (rateOf refresh row)]

omit [Platform] in
theorem pairs_rateOf {refresh : RateRefresh} {rows : List (Uuid × RateRow)} :
    (rows.map (rateOf refresh)).map CurrentRate.pair =
      rows.map fun row => (row.2.baseCurrency, row.2.quoteCurrency) := by
  rw [List.map_map]
  rfl

theorem overlay_rows {refresh : RateRefresh} {rows : List (Uuid × RateRow)} (db : Tables) :
    fx.overlay (rows.flatMap (rowWrites refresh)) db = { db with
      snapshots := db.snapshots ++ rows.map (snapshotOf refresh)
      currentRates := (rows.map (rateOf refresh)).foldl (fun all r => Table.upsert CurrentRate.pair r all)
        db.currentRates } := by
  induction rows generalizing db with
  | nil =>
      rw [List.map_nil, List.append_nil]
      rfl
  | cons row rows ih =>
      refine (ih { db with
        snapshots := db.snapshots ++ [snapshotOf refresh row]
        currentRates := Table.upsert CurrentRate.pair (rateOf refresh row) db.currentRates }).trans ?_
      rw [List.append_assoc]
      rfl

/-- The snapshots to come have distinct, unused ids, and every rate fits its column. -/
structure Insertable (db : Tables) (rows : List (Uuid × RateRow)) : Prop where
  distinct : (rows.map Prod.fst).Nodup
  unused : ∀ row ∈ rows, db.snapshot row.1 = none
  fits : ∀ row ∈ rows, fitsRate row.2.midRate

/-- All rows together turn an empty or canonical rate book into the new one. -/
theorem overlay_refresh {refresh : RateRefresh} {rows : List (Uuid × RateRow)} {db : Tables}
    (pairs : rows.map (fun row => (row.2.baseCurrency, row.2.quoteCurrency)) = canonicalPairs)
    (book : db.currentRates = [] ∨ db.currentRates.map CurrentRate.pair = canonicalPairs) :
    fx.overlay (.insertRefresh refresh :: rows.flatMap (rowWrites refresh)) db =
      (Action.refresh refresh rows).apply db := by
  have replaced : (rows.map (rateOf refresh)).foldl (fun all r => Table.upsert CurrentRate.pair r all)
      db.currentRates = rows.map (rateOf refresh) := by
    refine Table.foldl_upsert [] ?_ ?_
    · rw [List.nil_append, pairs_rateOf, pairs]
      decide
    · rw [pairs_rateOf, pairs]
      exact book
  refine (overlay_rows { db with refreshes := db.refreshes ++ [refresh] }).trans ?_
  dsimp only
  rw [replaced]
  rfl

/-- The session after the audit row and the first rows. -/
def staging (started : Instant) (refresh : RateRefresh) (done : List (Uuid × RateRow)) : Local fx where
  writes := Statement.insertRefresh refresh :: done.flatMap (rowWrites refresh)
  held := (done.reverse.flatMap fun row =>
    [.currentRate (row.2.baseCurrency, row.2.quoteCurrency), .snapshot row.1]) ++
      [.refresh refresh.id, .rateRefreshLock]
  reads := [started]

theorem view_staging {started : Instant} {refresh : RateRefresh} {done : List (Uuid × RateRow)} {db : Tables} :
    (staging started refresh done).view db = { db with
      refreshes := db.refreshes ++ [refresh]
      snapshots := db.snapshots ++ done.map (snapshotOf refresh)
      currentRates := (done.map (rateOf refresh)).foldl (fun all r => Table.upsert CurrentRate.pair r all)
        db.currentRates } :=
  overlay_rows _

theorem mem_staging {started : Instant} {refresh : RateRefresh} {done : List (Uuid × RateRow)}
    {row : Uuid × RateRow} (member : row ∈ done) : .snapshot row.1 ∈ (staging started refresh done).held :=
  List.mem_append_left _ (List.mem_flatMap.mpr ⟨row, List.mem_reverse.mpr member, by simp⟩)

theorem Insertable.later {started : Instant} {refresh : RateRefresh} {done : List (Uuid × RateRow)}
    {w w' : World fx} (h : Insertable w.db done) (later : engine.Later (staging started refresh done).held w w') :
    Insertable w'.db done where
  distinct := h.distinct
  unused row member := (carry later (mem_staging member)).symm.trans (h.unused row member)
  fits := h.fits

/-- The loop over the pairs. -/
theorem wp_storePairRows {K : Assertion fx} {Q : Except PyError Unit → Assertion fx} {w : World fx}
    {started : Instant} {refresh : RateRefresh} {done rows : List (Uuid × RateRow)}
    (inv : Invariant w.db w.now) (insertable : Insertable w.db done)
    (err : ∀ w' l' e, w.now ≤ w'.now → l'.counts = [] → Q (.error e) w' l')
    (ok : ∀ w', engine.Later [.refresh refresh.id, .rateRefreshLock] w w' → Insertable w'.db (done ++ rows) →
      Q (.ok ()) w' (staging started refresh (done ++ rows))) :
    engine.wp K (storePairRows refresh.id refresh.providerTimestamp refresh.fetchedAt
      Settings.defaultBuySpreadBps Settings.defaultSellSpreadBps rows) Q w (staging started refresh done) := by
  induction rows generalizing done w with
  | nil =>
      rw [List.append_nil] at ok
      exact ok w (.refl inv) insertable
  | cons row rows ih =>
      have keep : [.refresh refresh.id, .rateRefreshLock] ⊆ (staging started refresh done).held :=
        List.subset_append_right _ _
      refine Protocol.wp_bind (Protocol.wp_bind (wp_flush (fun w' e later => err w' _ e later.now rfl)
        (fun w' e later _ => err w' _ e later.now rfl) ?_))
      intro w₁ later₁ ok₁
      have insertable₁ := insertable.later later₁
      rw [view_staging] at ok₁
      obtain ⟨fits, -, unused, -⟩ := Statement.check_insertSnapshot.mp ok₁
      refine wp_flush_nil (Protocol.wp_execute
        (fun w' e later => err w' _ e (later₁.now.trans later.now) rfl)
        (fun w' e later _ => err w' _ e (later₁.now.trans later.now) rfl) ?_)
      intro w₂ later₂ _
      have unusedRow : Tables.snapshot w₁.db row.1 = none := by
        refine Table.row_none.mpr fun s member => ?_
        exact Table.row_none.mp unused s (List.mem_append_left _ member)
      have unusedNow : Tables.snapshot w₂.db row.1 = none :=
        (carry later₂ (List.mem_append_left _ List.mem_cons_self)).symm.trans unusedRow
      have apart : row.1 ∉ done.map Prod.fst := by
        intro inside
        obtain ⟨other, member, same⟩ := List.mem_map.mp inside
        refine Table.row_none.mp unused (snapshotOf refresh other) ?_ same
        exact List.mem_append_right _ (List.mem_map_of_mem member)
      have insertable₂ := insertable₁.later later₂.of_wrote
      have next : Insertable w₂.db (done ++ [row]) :=
        { distinct := by
            rw [List.map_append, List.nodup_append]
            refine ⟨insertable₂.distinct, List.nodup_singleton _, ?_⟩
            rintro a old b new rfl
            exact apart (List.mem_singleton.mp new ▸ old)
          unused := fun r member => (List.mem_append.mp member).elim (insertable₂.unused r)
            fun last => List.mem_singleton.mp last ▸ unusedNow
          fits := fun r member => (List.mem_append.mp member).elim (insertable₂.fits r)
            fun last => List.mem_singleton.mp last ▸ fits }
      have staged : (((staging started refresh done).wrote (Statement.insertSnapshot (snapshotOf refresh row)) w₁.db).wrote
          (Statement.upsertCurrentRate (rateOf refresh row)) w₂.db) = staging started refresh (done ++ [row]) := by
        simp [staging, Local.wrote, Statement.claims, rowWrites, rateOf, snapshotOf]
      change engine.wp K _ Q w₂ (((staging started refresh done).wrote
        (Statement.insertSnapshot (snapshotOf refresh row)) w₁.db).wrote
          (Statement.upsertCurrentRate (rateOf refresh row)) w₂.db)
      rw [staged]
      refine ih later₂.inv next
        (fun w' l' e le => err w' l' e (later₁.now.trans (later₂.now.trans le))) fun w' later insertable' => ?_
      rw [← List.append_cons] at insertable' ⊢
      exact ok w' ((later₁.anti keep).trans ((later₂.of_wrote.anti keep).trans later)) insertable'

/-! ## The call -/

section Call

variable {refreshId failureId : Uuid} {snapshotIds : ℕ → Uuid} {answer : ProviderAnswer}

omit [Platform] [Settings] in
theorem snd_zipIdx (snapshotIds : ℕ → Uuid) (rows : List RateRow) :
    (rows.zipIdx.map fun (row, i) => (snapshotIds i, row)).map Prod.snd = rows := by
  rw [List.map_map]
  exact List.zipIdx_map_fst 0 rows

omit [Platform] [Settings] in
/-- A rounded positive rate is stored at ten decimals. -/
theorem roundRate_stored {rate mid : Decimal} (positive : 0 < rate.coeff) (rounded : roundRate rate = .ok mid)
    (fits : fitsRate mid) : ∃ m : ℤ, mid = ⟨m, -rateScale⟩ ∧ 0 ≤ m ∧ m < 10 ^ numericPrecision := by
  have value := (Decimal.quantize_ok (by norm_num) rounded).1
  have size : (halfEven (rate.toRat / (10 : ℚ) ^ (-rateScale : ℤ))).natAbs < 10 ^ numericPrecision := by
    have := value ▸ fits
    simpa [fitsNumeric, Decimal.rescale] using this
  refine ⟨_, value, ?_, ?_⟩
  · exact halfEven_nonneg (div_nonneg (Decimal.toRat_pos_iff.mpr positive).le (zpow_pos (by norm_num) _).le)
  · simp only [numericPrecision] at *
    omega

/-- A failed attempt is recorded, or nothing is. -/
theorem wp_recordFailedRefresh {K : Assertion fx} {Q : Except PyError Unit → Assertion fx} {w : World fx}
    {l : Local fx} {started : Instant} {error : ApiError} (past : started ≤ w.now)
    (err : ∀ w' l' e, Counter.staleRatesTotal ∉ l'.counts → Q (.error e) w' l')
    (ok : ∀ w' l', Counter.staleRatesTotal ∉ l'.counts → Q (.ok ()) w' l')
    (counts : Counter.staleRatesTotal ∉ l.counts)
    (commits : ∀ w' (l' : Local fx), (∃ row : RateRefresh, Enabled w'.db w'.now (.refreshFailure row) ∧
      .refresh row.id ∈ l'.held ∧ l'.view w'.db = (Action.refreshFailure row).apply w'.db) → K w' l') :
    engine.wp K (recordFailedRefresh failureId started error) Q w l := by
  refine Protocol.wp_bind (Protocol.wp_rollbackAll fun w₁ later₁ => ?_)
  refine Protocol.wp_bind (Protocol.wp_bind (wp_flush (fun _ _ _ => err _ _ _ counts)
    (fun _ _ _ _ => err _ _ _ counts) ?_))
  intro w₂ later₂ ok₂
  refine wp_flush_nil (Protocol.wp_bind (Protocol.wp_commitAll (fun _ _ _ => err _ _ _ counts) ?_))
  intro w₃ later₃
  have counted : Counter.staleRatesTotal ∉ l.counts ++ [Counter.rateRefreshFailureTotal] := by
    simpa using counts
  refine ⟨commits _ _ ⟨_, .refreshFailure ?_ rfl ?_, List.mem_cons_self, rfl⟩, ?_⟩
  · have fresh := (Statement.check_insertRefresh.mp ok₂).2
    exact (carry later₃ List.mem_cons_self).symm.trans fresh
  · exact past.trans (later₁.now.trans (later₂.now.trans later₃.now))
  · refine Protocol.wp_bind (Protocol.wp_inc fun w₄ _ => ?_)
    exact wp_reload (fun _ _ _ => err _ _ _ counted) fun _ _ => ok _ _ counted

/-- An error is recorded or passed on, whatever was staged before it. -/
theorem wp_refreshFailed {Q : Except PyError RefreshResult → Assertion fx} {w : World fx} {l : Local fx}
    {started : Instant} {e : PyError} (past : started ≤ w.now) (counts : Counter.staleRatesTotal ∉ l.counts)
    (done : ∀ r w' l', Counter.staleRatesTotal ∉ l'.counts → Q r w' l') :
    engine.wp (Commits (.refreshRates refreshId failureId snapshotIds answer)) (refreshFailed failureId started e)
      Q w l := by
  have recorded : ∀ error, engine.wp (Commits (.refreshRates refreshId failureId snapshotIds answer))
      ((recordFailedRefresh failureId started error).bind fun _ => (.raise (.api error) : Tx RefreshResult))
      Q w l := fun error =>
    Protocol.wp_bind (wp_recordFailedRefresh past (fun _ _ _ => done _ _ _) (fun _ _ => done _ _ _) counts
      fun w' l' ⟨row, enabled, owned, view⟩ => ⟨_, enabled, by simpa [Action.slots] using owned, view,
        .inr ⟨row, rfl⟩⟩)
  unfold refreshFailed
  split
  · exact recorded _
  · exact Protocol.wp_ite (fun _ => recorded _) fun _ => done _ w l counts

theorem wp_refreshRates {Q : Except PyError RefreshResult → Assertion fx} {w : World fx}
    (done : ∀ r w' l', Counter.staleRatesTotal ∉ l'.counts → Q r w' l') :
    engine.wp (Commits (.refreshRates refreshId failureId snapshotIds answer))
      (refreshRates refreshId failureId snapshotIds answer) Q w {} := by
  refine Protocol.wp_bind (Protocol.wp_selectForUpdate (fun _ _ _ => done _ _ _ List.not_mem_nil) fun w₁ later₁ => ?_)
  refine Protocol.wp_bind (Protocol.wp_now fun w₂ later₂ => ?_)
  have failed : ∀ e w' (l' : Local fx), w₂.now ≤ w'.now → Counter.staleRatesTotal ∉ l'.counts →
      engine.wp (Commits (.refreshRates refreshId failureId snapshotIds answer))
        (refreshFailed failureId w₂.now e) Q w' l' := fun e w' l' past counts => wp_refreshFailed past counts done
  refine Protocol.wp_bind (Protocol.wp_attempt (Protocol.wp_bind (Protocol.wp_ofExcept ?_)))
  cases fetched : fetch answer with
  | error e => exact failed _ _ _ le_rfl List.not_mem_nil
  | ok provided =>
  have accepted := fetch_ok fetched
  refine Protocol.wp_bind (Protocol.wp_bind (Protocol.wp_ofExcept ?_))
  cases prepared : refreshRows provided with
  | error e => exact failed _ _ _ le_rfl List.not_mem_nil
  | ok rows =>
  have made := (refreshRows_ok.mp prepared).1
  let refresh : RateRefresh := ⟨refreshId, .completed, some provided.baseCurrency, provided.providerTimestamp,
    w₂.now, rows.length, none, none⟩
  let staged := rows.zipIdx.map fun (row, i) => (snapshotIds i, row)
  have pairs : staged.map (fun row => (row.2.baseCurrency, row.2.quoteCurrency)) = canonicalPairs := by
    have := rateRows_pairs made
    rwa [← snd_zipIdx snapshotIds rows, List.map_map] at this
  refine Protocol.wp_bind (wp_flush (fun _ _ later => failed _ _ _ later.now List.not_mem_nil)
    (fun _ _ later _ => failed _ _ _ later.now List.not_mem_nil) ?_)
  intro w₃ later₃ ok₃
  have fresh := (Statement.check_insertRefresh.mp ok₃).2
  refine wp_flush_nil (Protocol.wp_bind ?_)
  change engine.wp _ (storePairRows refresh.id refresh.providerTimestamp refresh.fetchedAt
    Settings.defaultBuySpreadBps Settings.defaultSellSpreadBps staged) _ w₃ (staging w₂.now refresh [])
  refine wp_storePairRows later₃.inv ⟨List.nodup_nil, fun _ => by simp, fun _ => by simp⟩
    (fun w' l' e le none => failed e w' l' (later₃.now.trans le) (none ▸ List.not_mem_nil)) ?_
  intro w₄ later₄ insertable₄
  rw [List.nil_append] at insertable₄ ⊢
  have past₄ := later₃.now.trans later₄.now
  refine Protocol.wp_bind (Protocol.wp_commitAll
    (fun _ _ later => failed _ _ _ (past₄.trans later.now) List.not_mem_nil) ?_)
  intro w₅ later₅
  have insertable₅ := insertable₄.later later₅
  have to₅ : engine.Later [.refresh refresh.id, .rateRefreshLock] w₃ w₅ :=
    later₄.trans (later₅.anti (List.subset_append_right _ _))
  have past₅ := past₄.trans later₅.now
  have book : w₅.db.currentRates = [] ∨ w₅.db.currentRates.map CurrentRate.pair = canonicalPairs :=
    later₅.inv.refreshed.current.imp id fun ⟨_, book⟩ => book.pairs
  have unchanged : Tables.currentRates w₂.db = Tables.currentRates w₅.db :=
    (carry later₃ List.mem_cons_self).trans (carry to₅ (List.mem_cons_of_mem _ List.mem_cons_self))
  have enabled : Enabled w₅.db w₅.now (.refresh refresh staged) := by
    refine .refresh ?_ rfl pairs insertable₅.distinct insertable₅.unused ?_ past₅ ?_
    · exact (carry to₅ List.mem_cons_self).symm.trans fresh
    · intro row member
      have inside : row.2 ∈ rows := snd_zipIdx snapshotIds rows ▸ List.mem_map_of_mem member
      obtain ⟨rate, positive, -, rounded⟩ := rateRows_mids accepted made _ inside
      exact roundRate_stored positive rounded (insertable₅.fits row member)
    · intro rate member
      exact later₂.inv.refreshed.past rate (unchanged ▸ member)
  refine ⟨⟨_, enabled, ?_, overlay_refresh pairs book, .inl ⟨_, _, provided, rfl, rfl, fetched, ?_⟩⟩, ?_⟩
  · refine List.cons_subset.mpr ⟨by simp [staging], List.cons_subset.mpr ⟨by simp [staging], ?_⟩⟩
    intro slot member
    obtain ⟨row, inside, rfl⟩ := List.mem_map.mp member
    exact mem_staging inside
  · rw [snd_zipIdx]
    exact made
  · have counted : Counter.staleRatesTotal ∉ [Counter.rateRefreshSuccessTotal] := by decide
    refine Protocol.wp_bind (Protocol.wp_inc fun w₆ later₆ => Protocol.wp_bind (wp_reload ?_ ?_))
    · exact fun _ _ later => failed _ _ _ (past₅.trans (later₆.now.trans later.now)) counted
    · intro w₇ later₇
      have past₇ := past₅.trans (later₆.now.trans later₇.now)
      refine Protocol.wp_ofExcept ?_
      generalize loadRefresh _ = loaded
      cases loaded with
      | error e => exact failed _ _ _ past₇ counted
      | ok result => exact done _ _ _ counted

theorem refreshRates_verified {w : World fx} :
    engine.wp (Commits (.refreshRates refreshId failureId snapshotIds answer))
      (program (.refreshRates refreshId failureId snapshotIds answer))
      (engine.settled (Outcome (.refreshRates refreshId failureId snapshotIds answer))) w {} := by
  refine Protocol.wp_bind (wp_refreshRates fun r w' l' counts => ?_)
  cases r <;> exact settled_plain (fun _ _ _ => rfl) counts

end Call

end FxEngine
