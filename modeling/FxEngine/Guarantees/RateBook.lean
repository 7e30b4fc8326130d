import FxEngine.Correctness.Engine

/-! # The rate book is always that of one refresh -/

namespace FxEngine

open Transactions

section Book

variable [Platform] [Settings] {start : Instant} {σ τ : Engine}

/-- A book that is at least as new. -/
def Newer (s t : Tables) : Prop :=
  (t.currentRates = [] → s.currentRates = []) ∧
    ∀ r ∈ s.currentRates, ∀ r' ∈ t.currentRates, r.lastUpdatedAt ≤ r'.lastUpdatedAt

omit [Platform] [Settings] in
theorem Newer.trans {s t u : Tables} (h : Newer s t) (h' : Newer t u) : Newer s u := by
  refine ⟨fun none => h.1 (h'.1 none), fun r member r' member' => ?_⟩
  have some : t.currentRates ≠ [] := fun none => by
    rw [h.1 none] at member
    cases member
  obtain ⟨between, inside⟩ := List.exists_mem_of_ne_nil _ some
  exact (h.2 r member between inside).trans (h'.2 between inside r' member')

omit [Platform] in
theorem Refreshed.newer {db : Tables} {now : Instant} (h : Refreshed db now) : Newer db db := by
  refine ⟨id, fun r member r' member' => ?_⟩
  obtain ⟨refresh, book⟩ := h.current.resolve_left fun none => by
    rw [none] at member
    cases member
  rw [book.fetched r member, book.fetched r' member']

/-- No action makes the book older. -/
theorem Enabled.newer {db : Tables} {now : Instant} {a : Action} (enabled : Enabled db now a)
    (inv : Invariant db now) : Newer db (a.apply db) := by
  cases enabled with
  | @refresh row rows fresh completed pairs distinct unused mids past later =>
      refine ⟨fun none => ?_, fun r member r' member' => ?_⟩
      · have : rows = [] := List.map_eq_nil_iff.mp none
        rw [this] at pairs
        cases pairs
      · obtain ⟨source, -, rfl⟩ := List.mem_map.mp member'
        exact later r member
  | openAccount | credit | quote | execute | refreshFailure => exact inv.refreshed.newer

namespace Engine

/-- Over any run the book only gets newer. -/
theorem Reachable.newer (h : Reachable start σ) (run : Run program σ τ) : Newer σ.world.db τ.world.db := by
  obtain ⟨new, split, chain, -⟩ := Run.history run
  refine chain.keeps (P := fun db => Newer σ.world.db db) h.invariant.refreshed.newer fun e member newer => ?_
  have there : e ∈ τ.history := split ▸ List.mem_append_right _ member
  obtain ⟨a, enabled, view, -⟩ := (h.run run).commits there
  rw [view]
  exact newer.trans (enabled.newer ((h.run run).sound.events e there).2)

/-- In every reachable state the current rates are empty or one row for each canonical
pair, all of one completed refresh, whose snapshots they repeat; they never go back in
time; and the legs of every quote come from one refresh that was fresh when the quote
checked it. -/
theorem Reachable.rate_book (h : Reachable start σ) :
    (σ.world.db.currentRates = [] ∨
      σ.world.db.currentRates.map CurrentRate.pair = canonicalPairs ∧
      ∃ refresh ∈ σ.world.db.refreshes, refresh.status = .completed ∧
        ∀ rate ∈ σ.world.db.currentRates, rate.lastUpdatedAt = refresh.fetchedAt ∧
          ∃ s, σ.world.db.snapshot rate.rateSnapshotId = some s ∧ s.rateRefreshId = refresh.id ∧
            s.midRate = rate.midRate ∧ (s.baseCurrency, s.quoteCurrency) = rate.pair ∧
            s.fetchedAt = rate.lastUpdatedAt) ∧
    (∀ rate ∈ σ.world.db.currentRates, ∀ rate' ∈ σ.world.db.currentRates, rate.pair ≠ rate'.pair.swap) ∧
    (∀ τ, Run program σ τ → ∀ rate ∈ σ.world.db.currentRates, τ.world.db.currentRates ≠ [] ∧
      ∀ rate' ∈ τ.world.db.currentRates, rate.lastUpdatedAt ≤ rate'.lastUpdatedAt) ∧
    ∀ q ∈ σ.world.db.quotes, ∃ refresh ∈ σ.world.db.refreshes, refresh.status = .completed ∧
      (∀ leg ∈ σ.world.db.legsOf q.id, ∃ s, σ.world.db.snapshot leg.rateSnapshotId = some s ∧
        s.rateRefreshId = refresh.id) ∧
      ∃ e ∈ σ.history, e.world.db.quote q.id = none ∧ e.after.quote q.id = some q ∧
        ∃ checkedAt, e.loc.reads = [checkedAt, q.createdAt] ∧ refresh.fetchedAt ≤ checkedAt ∧
          checkedAt - seconds Settings.rateFreshnessSeconds ≤ refresh.fetchedAt := by
  have current := h.invariant.refreshed.current
  refine ⟨?_, fun rate member rate' member' => ?_, fun τ run rate member => ?_, fun q member => ?_⟩
  · refine current.imp id fun ⟨refresh, book⟩ => ?_
    refine ⟨book.pairs, refresh, book.recorded, book.completed, fun rate member => ?_⟩
    obtain ⟨s, found, named, pair, mid, fetched⟩ := book.snapshots rate member
    exact ⟨book.fetched rate member, s, found, named, mid, pair, fetched.trans (book.fetched rate member).symm⟩
  · obtain ⟨refresh, book⟩ := current.resolve_left fun none => by
      rw [none] at member
      cases member
    have canonical : ∀ pair ∈ canonicalPairs, ∀ pair' ∈ canonicalPairs, pair ≠ pair'.swap := by decide
    exact canonical _ (book.pairs ▸ List.mem_map_of_mem member) _ (book.pairs ▸ List.mem_map_of_mem member')
  · have newer := h.newer run
    refine ⟨fun none => ?_, newer.2 rate member⟩
    rw [newer.1 none] at member
    cases member
  · obtain ⟨e, inside, before, after, performs, grown⟩ :=
      h.created (Table.row_of_mem h.invariant.quoted.distinct member)
    obtain ⟨value, called⟩ := performs.quote
    rw [called] at performs
    obtain ⟨row, legs, same, -, -, -, -, checkedAt, rows, refresh, reads, book, priced, -, past, fresh⟩ := performs
    cases same
    have book' := grown.book book
    refine ⟨refresh, book'.recorded, book'.completed, fun leg there => ?_, e, inside, before, after, checkedAt,
      reads, past, fresh⟩
    obtain ⟨rate, listed, same⟩ := priced.snapshots leg there
    obtain ⟨s, found, named, -⟩ := book'.snapshots rate listed
    exact ⟨s, same ▸ found, named⟩

end Engine

end Book

attribute [local instance] Sample.platform Sample.settings

theorem Engine.rate_book_sample : ∃ σ : Engine, Engine.Reachable 0 σ ∧
    σ.world.db.currentRates.map CurrentRate.pair = canonicalPairs ∧
    ∃ refresh ∈ σ.world.db.refreshes, refresh.status = .completed ∧
      ∀ rate ∈ σ.world.db.currentRates, rate.lastUpdatedAt = refresh.fetchedAt := by
  obtain ⟨σ, reached, db⟩ := Sample.reachable (Sample.prepared ++ Sample.executed) (by decide)
  have some : σ.world.db.currentRates ≠ [] := by
    rw [db]
    decide +kernel
  obtain ⟨pairs, refresh, recorded, completed, rates⟩ := reached.rate_book.1.resolve_left some
  exact ⟨σ, reached, pairs, refresh, recorded, completed, fun rate member => (rates rate member).1⟩

end FxEngine
