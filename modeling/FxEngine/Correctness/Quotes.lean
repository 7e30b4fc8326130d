import FxEngine.Correctness.Customers
import FxEngine.Correctness.Pricing

/-! # Quotes meet their specification -/

namespace FxEngine

open Numeric Transactions Program

variable [Platform] [Settings]

theorem wp_loadCurrentRateBook {K : Assertion fx} {Q : Except PyError CurrentRateBook → Assertion fx} {w : World fx}
    {l : Local fx} (err : ∀ w' e, engine.Later l.held w w' → Q (.error e) w' l)
    (ok : ∀ w', engine.Later l.held w w' → Q (.ok (rateBook (Tables.currentRates (l.view w'.db)))) w' l) :
    engine.wp K loadCurrentRateBook Q w l := by
  refine Protocol.wp_bind (Protocol.wp_select err fun w' later => ?_)
  refine Protocol.wp_bind (Protocol.wp_ofExcept ?_)
  cases loadForeign (Tables.foreignRates (l.view w'.db)) with
  | error e => exact err w' e later
  | ok _ => exact ok w' later

/-- A batch of statements adds its writes, each of which was checked, and keeps everything
else. -/
theorem wp_flush_all {K : Assertion fx} {Q : Except PyError Unit → Assertion fx} {w : World fx} {l : Local fx}
    {pending : List Statement} (inv : Invariant w.db w.now)
    (err : ∀ w' l' e, l'.counts = l.counts → Q (.error e) w' l')
    (ok : ∀ w' l', engine.Later l.held w w' → l'.writes = l.writes ++ pending → l.held ⊆ l'.held →
      l'.reads = l.reads → l'.counts = l.counts → (∀ s ∈ pending, ∃ db, s.check db = none) → Q (.ok ()) w' l') :
    engine.wp K (flush pending) Q w l := by
  induction pending generalizing w l with
  | nil =>
      exact ok w l (.refl inv) (List.append_nil _).symm (List.Subset.refl _) rfl rfl
        fun s member => absurd member List.not_mem_nil
  | cons s pending ih =>
      refine wp_flush (fun w' e _ => err w' l e rfl) (fun w' e _ _ => err w' _ e rfl) ?_
      intro w' later checked
      have more : l.held ⊆ (l.wrote s w'.db).held := List.subset_append_right _ _
      refine ih later.inv (fun w'' l' e same => err w'' l' e same) ?_
      intro w'' l' later' writes held reads counts all
      refine ok w'' l' (later.trans (later'.anti more)) ?_ (List.Subset.trans more held) reads counts ?_
      · rw [writes, List.append_cons]
        rfl
      · exact List.forall_mem_cons.mpr ⟨⟨_, checked⟩, all⟩

omit [Settings] in
theorem overlay_legs {legs : List QuoteLeg} (db : Tables) :
    fx.overlay (legs.map Statement.insertLeg) db = { db with legs := db.legs ++ legs } := by
  induction legs generalizing db with
  | nil =>
      rw [List.map_nil, List.append_nil]
      rfl
  | cons leg legs ih =>
      refine (ih { db with legs := db.legs ++ [leg] }).trans ?_
      rw [List.append_assoc, List.singleton_append]

omit [Platform] [Settings] in
theorem positiveDecimal_pos {field : String} {value : Json} {d : Decimal}
    (h : positiveDecimal field value = .ok d) : 0 < d.coeff := by
  cases value with
  | str text =>
      simp only [positiveDecimal] at h
      split at h
      · cases h
      · split at h
        · cases h
          assumption
        · cases h
      · cases h
  | _ => cases h

omit [Platform] [Settings] in
theorem positiveDecimal_error {field : String} {value : Json} {e : PyError} (h : positiveDecimal field value = .error e) :
    ∃ errors, e = validationError "Request validation failed." errors := by
  unfold positiveDecimal at h
  dsimp only at h
  split at h
  · split at h
    · cases h
      exact ⟨_, rfl⟩
    · split at h <;> cases h
      exact ⟨_, rfl⟩
    · cases h
      exact ⟨_, rfl⟩
  · cases h
    exact ⟨_, rfl⟩

omit [Platform] in
/-- The time of a book is the time of the refresh it comes from. -/
theorem BookOf.lastUpdatedAt {db : Tables} {rows : List CurrentRate} {refresh : RateRefresh}
    (book : BookOf db rows refresh) {t : Instant} (found : (rateBook rows).lastUpdatedAt = some t) :
    t = refresh.fetchedAt := by
  obtain ⟨rate, member, rfl⟩ := List.mem_map.mp (List.max?_mem found)
  exact book.fetched rate member

section Quoting

variable {quoteId customerId : Uuid} {source destination : Currency} {sourceAmount : Json}

theorem createQuote_verified {w : World fx} :
    engine.wp (Commits (.createQuote quoteId customerId source destination sourceAmount))
      (program (.createQuote quoteId customerId source destination sourceAmount))
      (engine.settled (Outcome (.createQuote quoteId customerId source destination sourceAmount))) w {} := by
  have quiet : ∀ r w l, l.counts = [] →
      engine.settled (Outcome (.createQuote quoteId customerId source destination sourceAmount)) r w l :=
    fun _ _ _ => settled_quiet fun _ _ _ => rfl
  refine Protocol.wp_bind (Protocol.wp_ofExcept ?_)
  cases accepted : positiveDecimal "source_amount" sourceAmount with
  | error e => exact quiet _ _ _ rfl
  | ok amount =>
  have positive := positiveDecimal_pos accepted
  refine Protocol.wp_bind ?_
  refine Protocol.wp_ite (fun _ => quiet _ _ _ rfl) fun differ => ?_
  refine Protocol.wp_bind (wp_assertCustomerExists (fun _ _ _ => quiet _ _ _ rfl) ?_)
  intro w₁ later₁ known₁
  refine Protocol.wp_bind (wp_loadCurrentRateBook (fun _ _ _ => quiet _ _ _ rfl) fun w₂ later₂ => ?_)
  dsimp only
  generalize rowsEq : Tables.currentRates (({} : Local fx).view w₂.db) = rows
  cases found : (rateBook rows).lastUpdatedAt with
  | none => exact quiet _ _ _ rfl
  | some lastUpdatedAt =>
  -- the current rates at this moment are those of one refresh
  obtain ⟨rate, member, same⟩ := List.mem_map.mp (List.max?_mem found)
  obtain ⟨refresh, book⟩ : ∃ refresh, BookOf w₂.db rows refresh := by
    subst rowsEq
    refine later₂.inv.refreshed.current.resolve_left fun none => ?_
    exact List.not_mem_nil (none ▸ member)
  have fetched := book.lastUpdatedAt found
  have past : refresh.fetchedAt ≤ w₂.now := by
    subst rowsEq
    exact fetched ▸ same ▸ later₂.inv.refreshed.past rate member
  refine Protocol.wp_bind (Protocol.wp_now fun w₃ later₃ => ?_)
  refine Protocol.wp_bind (Protocol.wp_ofExcept ?_)
  cases bounded : cutoff w₃.now with
  | error e => exact quiet _ _ _ rfl
  | ok oldest =>
  obtain ⟨-, rfl⟩ := minusSeconds_ok.mp bounded
  refine Protocol.wp_ite (fun _ => quiet _ _ _ rfl) fun recent => ?_
  refine Protocol.wp_bind (Protocol.wp_ofExcept ?_)
  cases priced : quoteTerms (rateBook rows) source destination amount with
  | error e => exact quiet _ _ _ rfl
  | ok terms =>
  refine Protocol.wp_bind (Protocol.wp_now fun w₄ later₄ => ?_)
  refine Protocol.wp_bind (wp_flush (fun _ _ _ => quiet _ _ _ rfl) (fun _ _ _ _ => quiet _ _ _ rfl) ?_)
  intro w₅ later₅ ok₅
  obtain ⟨money, ⟨rate, -⟩, fresh, -⟩ := Statement.check_insertQuote.mp ok₅
  refine wp_flush_nil (Protocol.wp_bind (Protocol.wp_ofExcept ?_))
  cases stored : legRows quoteId 0 terms.legs with
  | error e => exact quiet _ _ _ rfl
  | ok legs =>
  refine Protocol.wp_bind (wp_flush_all later₅.inv (fun _ _ _ same => quiet _ _ _ same) ?_)
  intro w₆ l₆ later₆ writes held reads counts checked
  refine Protocol.wp_bind (Protocol.wp_commitAll (fun _ _ _ => quiet _ _ _ counts) ?_)
  intro w₇ later₇
  have since₅ : engine.Later [.quote quoteId] w₅ w₇ :=
    (later₆.anti (by simp [Local.wrote, Statement.claims, Terms.toQuote])).trans
      (later₇.anti (List.Subset.trans (by simp [Local.wrote, Statement.claims, Terms.toQuote]) held))
  have grown₅ : Grown w₂.db w₅.db :=
    later₃.interfere.grown.trans (later₄.interfere.grown.trans later₅.interfere.grown)
  have grown₇ := grown₅.trans since₅.interfere.grown
  have book₇ := grown₇.book book
  have columns : ∀ leg ∈ terms.legs, fitsRate leg.executableRate ∧ fitsInteger leg.spreadBps := by
    refine (repeats_fit (legRows_repeat stored).2).mp fun leg member => ?_
    obtain ⟨db, taken⟩ := checked _ (List.mem_map_of_mem member)
    obtain ⟨⟨-, fits⟩, spread, -⟩ := Statement.check_insertLeg.mp taken
    exact ⟨fits, spread⟩
  have priced₇ : Priced rows (terms.toQuote quoteId customerId source destination w₄.now) legs :=
    { differ, terms := ⟨amount, positive, terms, priced, rfl, stored⟩, fits := ⟨money.1, money.2, rate⟩ }
  refine ⟨⟨.quote (terms.toQuote quoteId customerId source destination w₄.now) legs, ?_, ?_, ?_, ?_⟩, ?_⟩
  · refine .quote ?_ ?_ book₇ priced₇
    · exact grown₇.customer (later₂.interfere.grown.customer known₁)
    · exact (carry since₅ List.mem_cons_self).1.symm.trans fresh
  · exact List.Subset.trans (by simp [Action.slots, Local.wrote, Statement.claims, Terms.toQuote]) held
  · rw [Local.view, writes]
    exact overlay_legs _
  · refine ⟨_, _, rfl, rfl, rfl, rfl, rfl, w₃.now, rows, refresh, ?_, book₇, priced₇,
      ⟨amount, terms, accepted, priced, rfl, columns⟩, ?_, ?_⟩
    · exact reads
    · exact past.trans later₃.now
    · exact fetched ▸ not_lt.mp recent
  · refine Protocol.wp_bind (Protocol.wp_inc fun w₈ _ => ?_)
    refine Protocol.wp_bind (wp_reload ?_ ?_)
    all_goals
      intros
      refine settled_plain (fun _ _ _ => rfl) ?_
      simp [Local.counted, Local.committed, counts, Local.wrote, Local.read]

end Quoting

end FxEngine
