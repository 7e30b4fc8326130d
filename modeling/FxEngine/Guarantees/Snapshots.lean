import FxEngine.Guarantees.Usability

/-! # Where the snapshots come from

A completed refresh has one snapshot for each pair, which never changes; it holds what the
provider gave for the quote currency relative to its own base, rounded once. That is the
rate of the pair only when the provider's base is the dollar, or the dollar is at par with it.
-/

namespace FxEngine

open Numeric Transactions

/-- The snapshots a refresh took. -/
def Tables.snapshotsOf (db : Tables) (refreshId : Uuid) : List RateSnapshot :=
  db.snapshots.filter (·.rateRefreshId = refreshId)

/-- The units of the quote currency for one of the base that the provider's rates imply. -/
def ProviderRates.implied (provided : ProviderRates) (pair : Currency × Currency) : ℚ :=
  provided.exact pair.2 / provided.exact pair.1

theorem ProviderRates.exact_base (provided : ProviderRates) : provided.exact provided.baseCurrency = 1 := by
  rw [ProviderRates.exact, pairMidRate, if_pos rfl]
  norm_num [decimalOne, Decimal.toRat]

theorem fst_of_mem_canonicalPairs {pair : Currency × Currency} (member : pair ∈ canonicalPairs) : pair.1 = .USD := by
  revert pair
  decide

section

variable [Platform]

/-- The rows of an accepted answer hold the provider's rates, each rounded once. -/
theorem rateRows_provided {answer : ProviderAnswer} {provided : ProviderRates} {rows : List RateRow}
    (fetched : fetch answer = .ok provided) (made : rateRows provided canonicalPairs = .ok rows) :
    rows.map (fun row => ((row.baseCurrency, row.quoteCurrency), row.midRate)) =
      canonicalPairs.map fun pair => (pair, provided.mid pair.2) := by
  rw [← rateRows_pairs made, List.map_map]
  refine List.map_congr_left fun row member => ?_
  obtain ⟨rate, -, found, rounded⟩ := rateRows_mids (fetch_ok fetched) made row member
  have exact : provided.exact row.quoteCurrency = rate.toRat := by rw [ProviderRates.exact, found]
  simp only [Function.comp_apply, Prod.mk.injEq, true_and]
  rw [ProviderRates.mid, exact]
  exact roundRate_ok rounded

variable [Settings]

/-- The snapshots of a recorded refresh stay what they are. -/
theorem snapshotsOf_kept {db : Tables} {now : Instant} {a : Action} (enabled : Enabled db now a) {refreshId : Uuid}
    (recorded : refreshId ∈ db.refreshes.map RateRefresh.id) :
    (a.apply db).snapshotsOf refreshId = db.snapshotsOf refreshId := by
  cases enabled with
  | @refresh row rows fresh =>
      have differ : row.id ≠ refreshId := by
        rintro rfl
        rw [← Table.row_isSome] at recorded
        exact Option.isSome_iff_ne_none.mp recorded fresh
      have none : (rows.map (snapshotOf row)).filter (·.rateRefreshId = refreshId) = [] := by
        refine List.filter_eq_nil_iff.mpr fun s member => ?_
        obtain ⟨source, -, rfl⟩ := List.mem_map.mp member
        exact fun same => differ (of_decide_eq_true same)
      rw [Tables.snapshotsOf, Action.apply, List.filter_append, none, List.append_nil]
      rfl
  | openAccount | credit | quote | execute | refreshFailure => rfl

omit [Platform] in
/-- A refresh takes the snapshots of its rows and no others. -/
theorem snapshotsOf_refresh {db : Tables} {now : Instant} (refreshed : Refreshed db now) {row : RateRefresh}
    (fresh : db.refresh row.id = none) (rows : List (Uuid × RateRow)) :
    ((Action.refresh row rows).apply db).snapshotsOf row.id = rows.map (snapshotOf row) := by
  have none : db.snapshots.filter (·.rateRefreshId = row.id) = [] := by
    refine List.filter_eq_nil_iff.mpr fun s member => ?_
    obtain ⟨r, recorded, same, -⟩ := refreshed.recorded s member
    rw [decide_eq_true_eq, ← same]
    exact Table.row_none.mp fresh r recorded
  have all : (rows.map (snapshotOf row)).filter (·.rateRefreshId = row.id) = rows.map (snapshotOf row) := by
    refine List.filter_eq_self.mpr fun s member => ?_
    obtain ⟨source, -, rfl⟩ := List.mem_map.mp member
    exact decide_eq_true rfl
  rw [Tables.snapshotsOf, Action.apply, List.filter_append, none, all, List.nil_append]

/-- What an auditor finds about a completed refresh: the commit that made it, the rates that
commit got, and a snapshot of each. -/
structure Provided (σ : Sys fx Call Reply) (r : RateRefresh) (provided : ProviderRates) : Prop where
  source : ∃ e ∈ σ.history, ∃ failureId snapshotIds answer,
    e.call = .refreshRates r.id failureId snapshotIds answer ∧ fetch answer = .ok provided ∧
    r ∉ e.world.db.refreshes ∧ r ∈ e.after.refreshes
  snapshots : (σ.world.db.snapshotsOf r.id).map (fun s => ((s.baseCurrency, s.quoteCurrency), s.midRate)) =
    canonicalPairs.map fun pair => (pair, provided.mid pair.2)
  stamped : ∀ s ∈ σ.world.db.snapshotsOf r.id,
    s.fetchedAt = r.fetchedAt ∧ s.providerTimestamp = r.providerTimestamp

/-- A refresh has stored the rates that the provider's imply, as current rates and as snapshots. -/
structure Implied (before after : Tables) (provided : ProviderRates) : Prop where
  book : after.currentRates.map (fun rate => (rate.pair, rate.midRate)) =
    canonicalPairs.map fun pair => (pair, Decimal.rounded 10 (provided.implied pair))
  snapshots : ∃ taken, after.snapshots = before.snapshots ++ taken ∧
    taken.map (fun s => ((s.baseCurrency, s.quoteCurrency), s.midRate)) =
      canonicalPairs.map fun pair => (pair, Decimal.rounded 10 (provided.implied pair))

/-- Dividing by the dollar's rate changes no rate in its ten decimals. -/
def AtPar (provided : ProviderRates) : Prop :=
  ∀ currency ∈ quotedCurrencies,
    halfEven (provided.exact currency / provided.exact .USD * 10 ^ 10) = halfEven (provided.exact currency * 10 ^ 10)

instance (provided : ProviderRates) : Decidable (AtPar provided) :=
  inferInstanceAs (Decidable (∀ currency ∈ quotedCurrencies, _))

namespace Engine

variable {start : Instant} {σ : Engine}

/-- A completed refresh holds what it was provided. -/
theorem Reachable.provided (h : Reachable start σ) {r : RateRefresh} (recorded : r ∈ σ.world.db.refreshes)
    (completed : r.status = .completed) : ∃ provided, Provided σ r provided := by
  have absent : r ∉ ({} : Tables).refreshes := List.not_mem_nil
  obtain ⟨pre, e, rest, split, before, after, chain⟩ :=
    h.chain.became (P := fun db : Tables => r ∈ db.refreshes) absent recorded
  have member : e ∈ σ.history := split ▸ List.mem_append_right _ List.mem_cons_self
  obtain ⟨a, enabled, view, performs⟩ := h.commits member
  have refreshed := (h.sound.events e member).2.refreshed
  -- from then on the refresh is recorded and its snapshots are kept
  have later := chain.keeps (P := fun db : Tables => r ∈ db.refreshes ∧
      db.snapshotsOf r.id = Tables.snapshotsOf e.after r.id) ⟨after, rfl⟩ fun e' inside ⟨known, kept⟩ => by
    have there : e' ∈ σ.history := split ▸ List.mem_append_right _ (List.mem_cons_of_mem _ inside)
    obtain ⟨a', enabled', view', -⟩ := h.commits there
    refine ⟨(h.step there).refreshes.subset known, ?_⟩
    rw [view', snapshotsOf_kept enabled' (List.mem_map_of_mem known), kept]
  have new : e.after.refreshes ≠ e.world.db.refreshes := fun same => before (same ▸ after)
  cases enabled with
  | @refresh row rows fresh =>
      obtain rfl : r = row := by
        rw [view] at after
        exact List.mem_singleton.mp ((List.mem_append.mp after).resolve_left before)
      have taken : σ.world.db.snapshotsOf r.id = rows.map (snapshotOf r) := by
        rw [later.2, view, snapshotsOf_refresh refreshed fresh]
      obtain ⟨failureId, snapshotIds, answer, provided, called, fetched, made⟩ := performs.refresh
      refine ⟨provided, ⟨e, member, failureId, snapshotIds, answer, called, fetched, before, after⟩, ?_, ?_⟩
      · rw [taken, ← rateRows_provided fetched made, List.map_map, List.map_map]
        rfl
      · intro s taken'
        rw [taken] at taken'
        obtain ⟨source, -, rfl⟩ := List.mem_map.mp taken'
        exact ⟨rfl, rfl⟩
  | @refreshFailure row fresh failed =>
      rw [view] at after
      obtain rfl := List.mem_singleton.mp ((List.mem_append.mp after).resolve_left before)
      rw [failed] at completed
      cases completed
  | openAccount | credit | quote | execute => exact absurd (view ▸ rfl) new

/-- A recorded refresh keeps its snapshots. -/
theorem Reachable.snapshots_kept (h : Reachable start σ) {τ : Engine} (run : Run program σ τ) {r : RateRefresh}
    (recorded : r ∈ σ.world.db.refreshes) :
    r ∈ τ.world.db.refreshes ∧ τ.world.db.snapshotsOf r.id = σ.world.db.snapshotsOf r.id := by
  obtain ⟨new, split, chain, -⟩ := Run.history run
  refine chain.keeps (P := fun db : Tables => r ∈ db.refreshes ∧
    db.snapshotsOf r.id = Tables.snapshotsOf σ.world.db r.id) ⟨recorded, rfl⟩ fun e inside ⟨known, kept⟩ => ?_
  have there : e ∈ τ.history := split ▸ List.mem_append_right _ inside
  obtain ⟨a, enabled, view, -⟩ := (h.run run).commits there
  refine ⟨((h.run run).step there).refreshes.subset known, ?_⟩
  rw [view, snapshotsOf_kept enabled (List.mem_map_of_mem known), kept]

/-- In every reachable state a failed refresh has no snapshots, and a completed one has for
each pair exactly one, of what an accepted answer gave for the quote currency. It is the
rate the answer implies if the provider's base is the dollar; otherwise the base's own pair
is stored at one. The refresh and its snapshots stay. -/
theorem Reachable.snapshots_provided (h : Reachable start σ) {r : RateRefresh} (recorded : r ∈ σ.world.db.refreshes) :
    (r.status = .failed → σ.world.db.snapshotsOf r.id = []) ∧
    (r.status = .completed → ∃ provided, Provided σ r provided ∧ ∀ pair ∈ canonicalPairs,
      (provided.baseCurrency = .USD → provided.mid pair.2 = Decimal.rounded 10 (provided.implied pair)) ∧
      (provided.baseCurrency = pair.2 → provided.mid pair.2 = Decimal.rounded 10 1)) ∧
    ∀ τ, Run program σ τ → r ∈ τ.world.db.refreshes ∧
      τ.world.db.snapshotsOf r.id = σ.world.db.snapshotsOf r.id := by
  refine ⟨?_, ?_, fun τ run => h.snapshots_kept run recorded⟩
  · intro failed
    refine List.filter_eq_nil_iff.mpr fun s member => ?_
    obtain ⟨other, there, same, completed, -⟩ := h.invariant.refreshed.recorded s member
    rw [decide_eq_true_eq]
    intro taken
    obtain rfl : other = r :=
      Table.eq_of_key h.invariant.refreshed.refreshesDistinct there recorded (same.trans taken)
    rw [failed] at completed
    cases completed
  · intro completed
    obtain ⟨provided, found⟩ := h.provided recorded completed
    refine ⟨provided, found, fun pair member => ⟨fun dollar => ?_, fun own => ?_⟩⟩
    · rw [ProviderRates.mid, ProviderRates.implied, fst_of_mem_canonicalPairs member, ← dollar,
        provided.exact_base, div_one]
    · rw [ProviderRates.mid, ← own, provided.exact_base]

/-- The rows of a completed refresh hold the provider's rates. -/
theorem Reachable.took (h : Reachable start σ) {e : Event fx Call} {provided : ProviderRates} (member : e ∈ σ.history)
    (completes : Completes e provided) : ∃ row rows, e.after = (Action.refresh row rows).apply e.world.db ∧
      rows.map (fun r => ((r.2.baseCurrency, r.2.quoteCurrency), r.2.midRate)) =
        canonicalPairs.map fun pair => (pair, provided.mid pair.2) := by
  obtain ⟨answer, row, rows, fetched, -, view, made⟩ := h.completing member completes
  refine ⟨row, rows, view, ?_⟩
  rw [← rateRows_provided fetched made, List.map_map]
  rfl

/-- A completed refresh stores the implied rates exactly when the provider's base is the dollar
or the dollar is at par: always at a dollar rate of one, never when the inverse of the dollar's
rate is off one by more than half of the tenth decimal place. -/
theorem Reachable.implied_iff (h : Reachable start σ) {e : Event fx Call} {provided : ProviderRates}
    (member : e ∈ σ.history) (completes : Completes e provided) :
    (Implied e.world.db e.after provided ↔ provided.baseCurrency = .USD ∨ AtPar provided) ∧
    (provided.exact .USD = 1 → AtPar provided) ∧
    (provided.baseCurrency ≠ .USD → 1 / 2 < |1 / provided.exact .USD - 1| * 10 ^ 10 → ¬ AtPar provided) := by
  obtain ⟨row, rows, view, taken⟩ := h.took member completes
  have same : Implied e.world.db e.after provided ↔
      ∀ pair ∈ canonicalPairs, provided.mid pair.2 = Decimal.rounded 10 (provided.implied pair) := by
    constructor
    · intro implied pair inside
      have book := implied.book
      rw [view] at book
      change (rows.map (rateOf row)).map _ = _ at book
      rw [List.map_map] at book
      have both := taken.symm.trans book
      exact (Prod.mk.inj (List.map_inj_left.mp both pair inside)).2
    · intro each
      have rounded : rows.map (fun r => ((r.2.baseCurrency, r.2.quoteCurrency), r.2.midRate)) =
          canonicalPairs.map fun pair => (pair, Decimal.rounded 10 (provided.implied pair)) :=
        taken.trans (List.map_congr_left fun pair inside => by rw [each pair inside])
      refine ⟨?_, rows.map (snapshotOf row), by rw [view]; rfl, ?_⟩
      · rw [view]
        change (rows.map (rateOf row)).map _ = _
        rw [List.map_map]
        exact rounded
      · rw [List.map_map]
        exact rounded
  have par : AtPar provided ↔
      ∀ pair ∈ canonicalPairs, provided.mid pair.2 = Decimal.rounded 10 (provided.implied pair) := by
    rw [AtPar, quotedCurrencies, List.forall_mem_map]
    refine forall₂_congr fun pair inside => ?_
    rw [ProviderRates.mid, ProviderRates.implied, fst_of_mem_canonicalPairs inside, Decimal.rounded, Decimal.rounded,
      Decimal.mk.injEq, and_iff_left rfl, eq_comm]
  have one : provided.exact .USD = 1 → AtPar provided := fun unit currency _ => by rw [unit, div_one]
  refine ⟨?_, one, fun other off par => ?_⟩
  · rw [same, ← par]
    refine (or_iff_right_of_imp fun dollar => one ?_).symm
    rw [← dollar, provided.exact_base]
  · have own := par provided.baseCurrency (mem_quotedCurrencies.mpr other)
    rw [provided.exact_base, one_mul, show (10 ^ 10 : ℚ) = ((10 ^ 10 : ℤ) : ℚ) by norm_num, halfEven_intCast] at own
    have near := abs_sub_halfEven_le (1 / provided.exact .USD * ((10 ^ 10 : ℤ) : ℚ))
    rw [own] at near
    have scaled : 1 / provided.exact .USD * ((10 ^ 10 : ℤ) : ℚ) - ((10 ^ 10 : ℤ) : ℚ) =
        (1 / provided.exact .USD - 1) * 10 ^ 10 := by
      push_cast
      ring
    rw [scaled, abs_mul, abs_of_pos (by norm_num : (0 : ℚ) < 10 ^ 10)] at near
    exact absurd near (not_le.mpr off)

end Engine

end

attribute [local instance] Sample.platform Sample.settings

theorem Engine.snapshots_provided_sample : ∃ (σ : Engine) (r : RateRefresh), Engine.Reachable 0 σ ∧
    r ∈ σ.world.db.refreshes ∧ ∃ provided, Provided σ r provided := by
  obtain ⟨σ, reached, db⟩ := Sample.reachable Sample.prepared (by decide)
  obtain ⟨r, recorded, completed⟩ : ∃ r ∈ σ.world.db.refreshes, r.status = .completed := by
    rw [db]
    decide +kernel
  obtain ⟨provided, found, -⟩ := (reached.snapshots_provided recorded).2.1 completed
  exact ⟨σ, r, reached, recorded, provided, found⟩

/-- A provider that gives its rates to the euro. -/
def Sample.euroAnswer : ProviderAnswer :=
  .response 200 (.json (.dict [("base", .str "EUR"),
    ("rates", .dict [("USD", .str "1.1"), ("KES", .str "140"), ("NGN", .str "1600")])]))

theorem Engine.implied_iff_sample :
    (∃ σ : Engine, Engine.Reachable 0 σ ∧ ∃ e ∈ σ.history, ∃ provided, Completes e provided ∧
      Implied e.world.db e.after provided) ∧
    ∃ σ : Engine, Engine.Reachable 0 σ ∧ ∃ e ∈ σ.history, ∃ provided, Completes e provided ∧
      ¬ Implied e.world.db e.after provided := by
  constructor
  · obtain ⟨σ, reached, -, ⟨e, member, provided, completes⟩, all⟩ :=
      Sample.completed (Sample.answer "130" "1500" "0.9") (by decide +kernel) (by decide +kernel)
    exact ⟨σ, reached, e, member, provided, completes, (reached.implied_iff member completes).1.mpr
      (of_decide_eq_true (Sample.judged (P := fun provided => provided.baseCurrency = .USD ∨ AtPar provided) (b := true)
        (by decide +kernel) (all e member provided completes)))⟩
  · obtain ⟨σ, reached, -, ⟨e, member, provided, completes⟩, all⟩ :=
      Sample.completed Sample.euroAnswer (by decide +kernel) (by decide +kernel)
    exact ⟨σ, reached, e, member, provided, completes, mt (reached.implied_iff member completes).1.mp
      (of_decide_eq_false (Sample.judged (P := fun provided => provided.baseCurrency = .USD ∨ AtPar provided) (b := false)
        (by decide +kernel) (all e member provided completes)))⟩

/-- From rates to the euro the pair of dollar and euro is stored at one. -/
theorem Engine.not_implied : ∃ σ : Engine, Engine.Reachable 0 σ ∧ ∃ e ∈ σ.history, ∃ provided, Completes e provided ∧
    fetch Sample.euroAnswer = .ok provided ∧ (∃ rate ∈ σ.world.db.currentRates, rate.pair = (.USD, .EUR) ∧
      rate.midRate = ⟨10000000000, -10⟩) ∧ ¬ Implied e.world.db e.after provided := by
  obtain ⟨σ, reached, db, ⟨e, member, provided, completes⟩, all⟩ :=
    Sample.completed Sample.euroAnswer (by decide +kernel) (by decide +kernel)
  refine ⟨σ, reached, e, member, provided, completes, all e member provided completes, ?_, fun implied => ?_⟩
  · rw [db]
    decide +kernel
  obtain ⟨row, rows, view, taken⟩ := reached.took member completes
  have book := implied.book
  rw [view] at book
  change (rows.map (rateOf row)).map _ = _ at book
  rw [List.map_map] at book
  have same := List.map_inj_left.mp (taken.symm.trans book) (.USD, .EUR) (by decide)
  have differ : (match fetch Sample.euroAnswer with
      | .ok provided => decide (provided.mid .EUR = Decimal.rounded 10 (provided.implied (.USD, .EUR)))
      | .error _ => true) = false := by
    decide +kernel
  rw [all e member provided completes] at differ
  exact of_decide_eq_false differ (Prod.mk.inj same).2

end FxEngine
