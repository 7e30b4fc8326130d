import FxEngine.Correctness.Engine
import FxEngine.Correctness.Provider
import FxEngine.Correctness.RouteRates

/-! # Books that can be quoted from

A stored rate is the provider's, rounded to ten decimals. It can vanish, and the product of
two legs can be too large; everything else can be quoted from.
-/

namespace FxEngine

open Numeric Transactions

/-- The same pair at the same mid rate, with spreads of less than the whole. -/
structure CurrentRate.Respread (rate rate' : CurrentRate) : Prop where
  pair : rate'.pair = rate.pair
  mid : rate'.midRate = rate.midRate
  buy : 0 ≤ rate'.buySpreadBps ∧ rate'.buySpreadBps ≤ 9999
  sell : 0 ≤ rate'.sellSpreadBps ∧ rate'.sellSpreadBps ≤ 9999

/-- All rates are positive, and whatever the spreads, no route fails in its arithmetic. -/
structure Usable (rows : List CurrentRate) : Prop where
  positive : ∀ rate ∈ rows, 0 < rate.midRate.coeff
  computed : ∀ rows', List.Forall₂ CurrentRate.Respread rows rows' → ∀ source destination, source ≠ destination →
    ∀ x, routeTerms (rateBook rows') source destination ≠ .error (.decimal x)

/-- Without rates there are no routes to compute. -/
theorem Usable.empty : Usable [] := by
  refine ⟨fun rate member => absurd member List.not_mem_nil, fun rows' same source destination differ x failed => ?_⟩
  cases same
  have none : ∀ base quote, findCurrentRate (rateBook []) base quote = .none := fun _ _ => rfl
  have unrouted : buildRoute (rateBook []) source destination = .error (serviceUnavailable errorRatesStale
      s!"No route available for {source.value}/{destination.value}.") := by
    simp [buildRoute, none]
  rw [routeTerms, unrouted] at failed
  cases failed

/-- The currencies whose dollar rates are stored. -/
def quotedCurrencies : List Currency := canonicalPairs.map Prod.snd

theorem mem_quotedCurrencies {currency : Currency} : currency ∈ quotedCurrencies ↔ currency ≠ .USD := by
  cases currency <;> decide

/-- The rate a provider gives for a currency. -/
def ProviderRates.exact (provided : ProviderRates) (currency : Currency) : ℚ :=
  match pairMidRate provided currency with
  | .ok (.finite rate) => rate.toRat
  | _ => 0

/-- What is stored of it. -/
def ProviderRates.mid (provided : ProviderRates) (currency : Currency) : Decimal :=
  Decimal.rounded 10 (provided.exact currency)

/-- Every rate is more than half of the tenth decimal place, and the inverse of one times
another stays below 28 digits. -/
def Quotable (provided : ProviderRates) : Prop :=
  (∀ currency ∈ quotedCurrencies, 1 / 2 < provided.exact currency * 10 ^ 10) ∧
    ∀ source ∈ quotedCurrencies, ∀ destination ∈ quotedCurrencies, source ≠ destination →
      (Decimal.rounded 10 (1 / (provided.mid source).toRat)).toRat * (provided.mid destination).toRat * 10 ^ 10 <
        10 ^ 28 - 1 / 2

/-- The rows hold what the provider gave. -/
structure Holds (rows : List CurrentRate) (provided : ProviderRates) : Prop where
  complete : Complete rows
  mids : ∀ rate ∈ rows, rate.midRate = provided.mid rate.quoteCurrency
  fits : ∀ rate ∈ rows, ∃ m : ℤ, rate.midRate = rateUnits m ∧ 0 ≤ m ∧ m < 10 ^ numericPrecision

namespace Holds

variable {rows : List CurrentRate} {provided : ProviderRates} (h : Holds rows provided)

include h

theorem positive_iff : (∀ rate ∈ rows, 0 < rate.midRate.coeff) ↔
    ∀ currency ∈ quotedCurrencies, 1 / 2 < provided.exact currency * 10 ^ 10 := by
  have quotes : rows.map CurrentRate.quoteCurrency = quotedCurrencies := by
    rw [quotedCurrencies, ← h.complete, List.map_map]
    rfl
  rw [← quotes]
  simp only [List.mem_map, forall_exists_index, and_imp, forall_apply_eq_imp_iff₂]
  refine forall₂_congr fun rate member => ?_
  rw [h.mids rate member, ProviderRates.mid, Decimal.rounded, halfEven_pos_iff]

/-- With positive rates the book is sound at any spreads. -/
theorem respread (positive : ∀ rate ∈ rows, 0 < rate.midRate.coeff) {rows' : List CurrentRate}
    (same : List.Forall₂ CurrentRate.Respread rows rows') : Complete rows' ∧ ∀ rate' ∈ rows', rate'.Sound ∧
      rate'.midRate = provided.mid rate'.quoteCurrency := by
  have pairs : rows'.map CurrentRate.pair = rows.map CurrentRate.pair := by
    clear h positive
    induction same with
    | nil => rfl
    | cons head _ ih => rw [List.map_cons, List.map_cons, head.pair, ih]
  refine ⟨pairs.trans h.complete, fun rate' member => ?_⟩
  obtain ⟨rate, inside, changed⟩ : ∃ rate ∈ rows, rate.Respread rate' := by
    clear h positive pairs
    induction same with
    | nil => cases member
    | cons head _ ih =>
        rcases List.mem_cons.mp member with rfl | member
        · exact ⟨_, List.mem_cons_self, head⟩
        · obtain ⟨rate, inside, changed⟩ := ih member
          exact ⟨rate, List.mem_cons_of_mem _ inside, changed⟩
  obtain ⟨m, units, -, fits⟩ := h.fits rate inside
  have up := positive rate inside
  rw [units] at up
  refine ⟨⟨⟨m, up, fits, changed.mid.trans units⟩, ?_, ?_⟩, ?_⟩
  · exact ⟨changed.buy.1, changed.buy.2.trans (by norm_num)⟩
  · exact ⟨changed.sell.1, changed.sell.2.trans (by norm_num)⟩
  · rw [changed.mid, h.mids rate inside, (Prod.mk.inj changed.pair).2]

/-- What is provided is quotable exactly when what is stored is usable. -/
theorem usable_quotable : Usable rows ↔ Quotable provided := by
  constructor
  · intro usable
    refine ⟨h.positive_iff.mp usable.positive, fun source listed destination listed' differ => ?_⟩
    -- the same book without spreads
    let flat (rate : CurrentRate) : CurrentRate := { rate with buySpreadBps := 0, sellSpreadBps := 0 }
    have same : List.Forall₂ CurrentRate.Respread rows (rows.map flat) := by
      refine List.forall₂_map_right_iff.mpr (List.forall₂_same.mpr fun rate _ => ?_)
      exact ⟨rfl, rfl, by simp [flat], by simp [flat]⟩
    obtain ⟨complete, sound⟩ := h.respread usable.positive same
    have other := mem_quotedCurrencies.mp listed
    have other' := mem_quotedCurrencies.mp listed'
    obtain ⟨rate, member, pair, rate', member', pair', priced⟩ :=
      routeTerms_cross complete (fun rate member => (sound rate member).1) other other' differ
    have fails := usable.computed _ same source destination differ .invalidOperation
    obtain ⟨free, rfl⟩ : rate.buySpreadBps = 0 ∧ rate.quoteCurrency = source := by
      obtain ⟨from_, -, rfl⟩ := List.mem_map.mp member
      exact ⟨rfl, (Prod.mk.inj pair).2⟩
    obtain ⟨free', rfl⟩ : rate'.sellSpreadBps = 0 ∧ rate'.quoteCurrency = destination := by
      obtain ⟨from_, -, rfl⟩ := List.mem_map.mp member'
      exact ⟨rfl, (Prod.mk.inj pair').2⟩
    obtain ⟨m, -, -, units⟩ := (sound rate' member').1.mid
    dsimp only at priced
    rw [CurrentRate.leg_buy pair other, CurrentRate.leg_sell pair', free, free', buyValue_zero,
      sellValue_zero, (sound rate' member').1.rounded_mid, (sound rate member).2, (sound rate' member').2] at priced
    by_contra large
    exact fails (priced.trans (if_neg large))
  · rintro ⟨large, small⟩
    have positive := h.positive_iff.mpr large
    refine ⟨positive, fun rows' same source destination differ x failed => ?_⟩
    obtain ⟨complete, sound⟩ := h.respread positive same
    have plain : ∀ rate ∈ rows', rate.Sound := fun rate member => (sound rate member).1
    by_cases dollar : source = .USD
    · subst dollar
      obtain ⟨rate, -, -, priced, -⟩ := routeTerms_dollar complete plain differ.symm
      rw [priced] at failed
      cases failed
    by_cases dollar' : destination = .USD
    · subst dollar'
      obtain ⟨rate, -, -, -, priced⟩ := routeTerms_dollar complete plain dollar
      rw [priced] at failed
      cases failed
    obtain ⟨rate, member, pair, rate', member', pair', priced⟩ :=
      routeTerms_cross complete plain dollar dollar' differ
    obtain ⟨known, mid⟩ := sound rate member
    obtain ⟨known', mid'⟩ := sound rate' member'
    rw [(Prod.mk.inj pair).2] at mid
    rw [(Prod.mk.inj pair').2] at mid'
    obtain ⟨n, units, low, -⟩ := known.leg_units source .USD
    obtain ⟨n', units', low', -⟩ := known'.leg_units .USD destination
    have sold : (rate.leg source .USD).executableRate.toRat ≤
        (Decimal.rounded rateScale (1 / rate.midRate.toRat)).toRat := by
      rw [CurrentRate.leg_buy pair dollar, ← buyValue_zero]
      exact Decimal.rounded_mono _ (buyValue_antitone known.positive (by decide) known.buy.1)
    have bought : (rate'.leg .USD destination).executableRate.toRat ≤ rate'.midRate.toRat := by
      rw [CurrentRate.leg_sell pair']
      exact (Decimal.rounded_mono _ (sellValue_le known'.positive.le known'.sell).2).trans_eq
        (congrArg _ known'.rounded_mid)
    have nonneg : ∀ {n : ℤ}, 0 ≤ n → 0 ≤ (rateUnits n).toRat := fun low => by
      rw [rateUnits_toRat]
      positivity
    have bound := small source (mem_quotedCurrencies.mpr dollar) destination (mem_quotedCurrencies.mpr dollar') differ
    rw [← mid, ← mid'] at bound
    have product := mul_le_mul sold bought (units' ▸ nonneg low') ((units ▸ nonneg low).trans sold)
    have fits : (rate.leg source .USD).executableRate.toRat * (rate'.leg .USD destination).executableRate.toRat *
        10 ^ rateScale < 10 ^ contextPrecision - 1 / 2 :=
      (mul_le_mul_of_nonneg_right product (by positivity)).trans_lt bound
    rw [priced, if_pos fits] at failed
    cases failed

end Holds

/-! ## Over a run -/

section Runs

variable [Platform] [Settings] {start : Instant} {σ : Engine} {e : Event fx Call} {provided : ProviderRates}

/-- The commit of a refresh that was accepted, with the rates it got. -/
def Completes (e : Event fx Call) (provided : ProviderRates) : Prop :=
  ∃ refreshId failureId snapshotIds answer, e.call = .refreshRates refreshId failureId snapshotIds answer ∧
    fetch answer = .ok provided ∧ ∃ row ∈ e.after.refreshes, row ∉ e.world.db.refreshes ∧ row.status = .completed

namespace Engine

/-- A completion is one refresh of the rows that its answer gives. -/
theorem Reachable.completing (h : Reachable start σ) (member : e ∈ σ.history) (completes : Completes e provided) :
    ∃ answer row rows, fetch answer = .ok provided ∧ Enabled e.world.db e.world.now (.refresh row rows) ∧
      e.after = (Action.refresh row rows).apply e.world.db ∧
      rateRows provided canonicalPairs = .ok (rows.map Prod.snd) := by
  obtain ⟨refreshId, failureId, snapshotIds, answer, called, fetched, row, stored, new, completed⟩ := completes
  obtain ⟨a, enabled, view, performs⟩ := h.commits member
  rw [called] at performs
  obtain ⟨row', rows, provided', rfl, -, fetched', made⟩ | ⟨row', rfl⟩ := performs
  · cases fetched.symm.trans fetched'
    exact ⟨answer, row', rows, fetched, enabled, view, made⟩
  · -- a failure only adds its own row
    cases enabled with
    | refreshFailure fresh failed =>
        rw [view] at stored
        rcases List.mem_append.mp stored with old | added
        · exact absurd old new
        · rw [List.mem_singleton.mp added, failed] at completed
          cases completed

/-- A refresh that completes stores what it got. -/
theorem Reachable.holds (h : Reachable start σ) (member : e ∈ σ.history) (completes : Completes e provided) :
    Holds e.after.currentRates provided := by
  obtain ⟨answer, row, rows, fetched, enabled, view, made⟩ := h.completing member completes
  cases enabled with
  | refresh fresh completed pairs distinct unused mids =>
      rw [view]
      refine ⟨?_, fun rate member => ?_, fun rate member => ?_⟩
      · rw [Complete, ← pairs]
        exact List.map_map
      · obtain ⟨source, inside, rfl⟩ := List.mem_map.mp member
        obtain ⟨rate, -, found, rounded⟩ := rateRows_mids (fetch_ok fetched) made _ (List.mem_map_of_mem inside)
        rw [ProviderRates.mid, ProviderRates.exact]
        change source.2.midRate = Decimal.rounded 10 (match pairMidRate provided source.2.quoteCurrency with
          | .ok (.finite rate) => rate.toRat
          | _ => 0)
        rw [found]
        exact roundRate_ok rounded
      · obtain ⟨source, inside, rfl⟩ := List.mem_map.mp member
        exact mids source inside

/-- Only the completion of a refresh changes the current rates. -/
theorem Reachable.completes_or_keeps (h : Reachable start σ) (member : e ∈ σ.history) :
    (∃ provided, Completes e provided) ∨ e.after.currentRates = e.world.db.currentRates := by
  obtain ⟨a, enabled, view, performs⟩ := h.commits member
  cases enabled with
  | @refresh row rows fresh completed =>
      obtain ⟨failureId, snapshotIds, answer, provided, called, fetched, -⟩ := performs.refresh
      refine .inl ⟨provided, row.id, failureId, snapshotIds, answer, called, fetched, row, ?_, ?_, completed⟩
      · rw [view]
        exact List.mem_append_right _ List.mem_cons_self
      · exact fun old => Table.row_none.mp fresh row old rfl
  | openAccount | credit | quote | execute | refreshFailure =>
      refine .inr ?_
      rw [view]
      rfl

/-- A completed refresh leaves a usable book exactly when what it got is quotable, and when
all were, the current book is usable. -/
theorem Reachable.usable_iff (h : Reachable start σ) :
    (∀ e ∈ σ.history, ∀ provided, Completes e provided → (Usable e.after.currentRates ↔ Quotable provided)) ∧
    ((∀ e ∈ σ.history, ∀ provided, Completes e provided → Quotable provided) → Usable σ.world.db.currentRates) := by
  have each : ∀ e ∈ σ.history, ∀ provided, Completes e provided →
      (Usable e.after.currentRates ↔ Quotable provided) :=
    fun e member provided completes => (h.holds member completes).usable_quotable
  refine ⟨each, fun quotable => ?_⟩
  refine h.chain.keeps (P := fun db => Usable db.currentRates) Usable.empty fun e member usable => ?_
  obtain ⟨provided, completes⟩ | kept := h.completes_or_keeps member
  · exact (each e member provided completes).mpr (quotable e member provided completes)
  · exact kept ▸ usable

end Engine

end Runs

attribute [local instance] Sample.platform Sample.settings

instance (provided : ProviderRates) : Decidable (Quotable provided) := inferInstanceAs (Decidable (_ ∧ _))

/-- What the refresh in `opened` got. -/
theorem Sample.completed (answer : ProviderAnswer) (some : (serial program (opened answer) {}).2.currentRates ≠ [])
    (sessions : ∀ k ∈ [0, 1], ((serial program (opened answer) {}).1[k]?).isSome) :
    ∃ σ : Engine, Engine.Reachable 0 σ ∧ σ.world.db = (serial program (opened answer) {}).2 ∧
      (∃ e ∈ σ.history, ∃ provided, Completes e provided) ∧
      ∀ e ∈ σ.history, ∀ provided, Completes e provided → fetch answer = .ok provided := by
  obtain ⟨σ, reached, db, -, -, free, ends⟩ := Engine.serial_reachable (ordered (opened answer) (by simp [opened]))
  refine ⟨σ, reached, db, ?_, fun e member provided completes => ?_⟩
  · by_contra none
    have kept := reached.chain.keeps (P := fun db => db.currentRates = []) rfl fun e member empty =>
      ((reached.completes_or_keeps member).resolve_left fun ⟨provided, completes⟩ =>
        none ⟨e, member, provided, completes⟩).trans empty
    exact some (db ▸ kept)
  -- the only refresh is that of session 1
  obtain ⟨refreshId, failureId, snapshotIds, answer', called, fetched, -⟩ := completes
  obtain ⟨p, at_, same⟩ := reached.sound.owners e member
  have inside : e.pid < 2 := by
    by_contra outside
    rw [free e.pid (not_lt.mp outside)] at at_
    cases at_
  generalize e.pid = k at at_ inside
  obtain ⟨r, found⟩ := Option.isSome_iff_exists.mp (sessions k (by interval_cases k <;> simp))
  obtain ⟨p', at', called', -⟩ := ends k r found
  rw [at_] at at'
  obtain rfl := Option.some.inj at'
  rw [same, called] at called'
  interval_cases k <;> cases called'
  exact fetched

/-- What holds of the rates that an answer gives is found from the answer. -/
theorem Sample.judged {answer : ProviderAnswer} {provided : ProviderRates} {P : ProviderRates → Prop} [DecidablePred P]
    {b : Bool} (decided : (fetch answer).toOption.map (fun provided => decide (P provided)) = some b)
    (fetched : fetch answer = .ok provided) : decide (P provided) = b := by
  rw [fetched] at decided
  exact Option.some.inj decided

/-- From a shilling at 130 to the dollar all pairs can be quoted; from one at `1e-11` none can. -/
theorem Engine.usable_iff_sample :
    (∃ σ : Engine, Engine.Reachable 0 σ ∧ (∃ e ∈ σ.history, ∃ provided, Completes e provided ∧
      Usable e.after.currentRates) ∧ Usable σ.world.db.currentRates) ∧
    ∃ σ : Engine, Engine.Reachable 0 σ ∧ ∃ e ∈ σ.history, ∃ provided, Completes e provided ∧
      ¬ Usable e.after.currentRates := by
  constructor
  · obtain ⟨σ, reached, -, ⟨e, member, provided, completes⟩, all⟩ :=
      Sample.completed (Sample.answer "130" "1500" "0.9") (by decide +kernel) (by decide +kernel)
    have quotable : ∀ e ∈ σ.history, ∀ provided, Completes e provided → Quotable provided :=
      fun e member provided completes =>
        of_decide_eq_true (Sample.judged (by decide +kernel) (all e member provided completes))
    obtain ⟨each, last⟩ := reached.usable_iff
    exact ⟨σ, reached, ⟨e, member, provided, completes, (each e member provided completes).mpr
      (quotable e member provided completes)⟩, last quotable⟩
  · obtain ⟨σ, reached, -, ⟨e, member, provided, completes⟩, all⟩ :=
      Sample.completed (Sample.answer "1e-11" "1500" "0.9") (by decide +kernel) (by decide +kernel)
    have unquotable : ¬ Quotable provided :=
      of_decide_eq_false (Sample.judged (by decide +kernel) (all e member provided completes))
    exact ⟨σ, reached, e, member, provided, completes,
      mt (reached.usable_iff.1 e member provided completes).mp unquotable⟩

/-- A positive rate of less than half the tenth decimal is accepted and stored as zero; then
pricing divides by it. -/
theorem Engine.not_usable : ∃ σ : Engine, Engine.Reachable 0 σ ∧ (∃ e ∈ σ.history, ∃ provided, Completes e provided) ∧
    (∃ rate ∈ σ.world.db.currentRates, rate.midRate.coeff = 0) ∧
    routeTerms (rateBook σ.world.db.currentRates) .KES .USD = .error (.decimal .divisionByZero) := by
  obtain ⟨σ, reached, db, completed, -⟩ :=
    Sample.completed (Sample.answer "1e-11" "1500" "0.9") (by decide +kernel) (by decide +kernel)
  refine ⟨σ, reached, completed, ?_, ?_⟩
  · rw [db]
    decide +kernel
  · rw [db]
    decide +kernel

end FxEngine
