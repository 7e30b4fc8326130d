import FxEngine.Correctness.Executions
import FxEngine.Correctness.Quotes
import FxEngine.Correctness.Refreshes
import FxEngine.Transactions.Alone

/-! # The engine under every interleaving

Every call meets its specification on its own, so everything that can happen when
they run together is sound.
-/

namespace FxEngine

open Transactions Program

section Verification

variable [Platform] [Settings]

theorem readyz_verified {w : World fx} :
    engine.wp (Commits .readyz) (program .readyz) (engine.settled (Outcome .readyz)) w {} := by
  have quiet : ∀ r w l, l.counts = [] → engine.settled (Outcome .readyz) r w l :=
    fun _ _ _ => settled_quiet fun _ _ _ => rfl
  refine Protocol.wp_bind (Protocol.wp_attempt (wp_reload (fun _ _ _ => quiet _ _ _ rfl) fun w₁ _ => ?_))
  refine Protocol.wp_bind (Protocol.wp_bind (Protocol.wp_bind (Protocol.wp_select (fun _ _ _ => quiet _ _ _ rfl)
    fun w₂ _ => ?_)))
  have answered : ∀ rates w' (l : Local fx), l.counts = [] → engine.wp (Commits .readyz)
      (if rates ≠ "fresh" then pure (.readiness "not_ready" "ok" rates)
        else pure (.readiness "ready" "ok" "fresh")) (engine.settled (Outcome .readyz)) w' l :=
    fun rates w' l none => Protocol.wp_ite (fun _ => quiet _ _ _ none) fun _ => quiet _ _ _ none
  dsimp only
  generalize newestRate _ = latest
  refine Protocol.wp_ite (fun _ => ?_) fun _ => quiet _ _ _ rfl
  cases latest with
  | none => exact answered _ _ _ rfl
  | some latest =>
      refine Protocol.wp_bind (Protocol.wp_now fun w₃ _ => ?_)
      refine Protocol.wp_bind (Protocol.wp_ofExcept ?_)
      cases cutoff w₃.now with
      | error e => exact quiet _ _ _ rfl
      | ok oldest =>
      exact Protocol.wp_ite (fun _ => answered _ _ _ rfl) fun _ => answered _ _ _ rfl

/-- Every call meets its specification. -/
theorem verified : specification.Verified program := by
  intro call w _
  cases call with
  | createCustomer => exact createCustomer_verified
  | getBalances => exact getBalances_verified
  | creditBalance => exact creditBalance_verified
  | createQuote => exact createQuote_verified
  | executeQuote => exact executeQuote_verified
  | refreshRates => exact refreshRates_verified
  | readyz => exact readyz_verified

/-- A running engine, or its history. -/
abbrev Engine := Sys fx Call Reply

namespace Engine

/-- Some interleaving of any number of calls leads here from empty tables. -/
def Reachable (start : Instant) (σ : Engine) : Prop := Transactions.Reachable program ⟨{}, start⟩ σ

variable {start : Instant} {σ : Engine}

theorem Reachable.run {τ : Engine} (h : Reachable start σ) (run : Run program σ τ) : Reachable start τ :=
  Relation.ReflTransGen.trans h run

theorem Reachable.sound (h : Reachable start σ) : specification.Sound σ := by
  have empty : engine.Inv ⟨{}, start⟩ := Invariant.empty
  exact Spec.reachable_sound verified empty h

theorem Reachable.invariant (h : Reachable start σ) : Invariant σ.world.db σ.world.now :=
  h.sound.inv

/-- The history starts from empty tables and ends at the committed ones. -/
theorem Reachable.chain (h : Reachable start σ) : Chain σ.history {} σ.world.db := by
  obtain ⟨new, eq, chain, -⟩ := Run.history h
  rw [eq]
  exact chain

/-- Every commit is one enabled action of its call. -/
theorem Reachable.commits (h : Reachable start σ) {e : Event fx Call} (member : e ∈ σ.history) :
    ∃ a, Enabled e.world.db e.world.now a ∧ e.after = a.apply e.world.db ∧
      Performs e.call e.world.db e.loc.reads a := by
  obtain ⟨⟨a, enabled, -, view, performs⟩, -⟩ := h.sound.events e member
  exact ⟨a, enabled, view, performs⟩

/-- No commit removes a row. -/
theorem Reachable.step (h : Reachable start σ) {e : Event fx Call} (member : e ∈ σ.history) :
    Grown e.world.db e.after := by
  obtain ⟨a, -, view, -⟩ := h.commits member
  exact view ▸ a.grown

/-- What a commit left is still there. -/
theorem Reachable.since (h : Reachable start σ) {e : Event fx Call} (member : e ∈ σ.history) :
    Grown e.after σ.world.db := by
  obtain ⟨pre, rest, split, chain⟩ := h.chain.since member
  refine chain.keeps (P := fun db => Grown e.after db) (.refl _) fun f inside grown => grown.trans (h.step ?_)
  exact split ▸ List.mem_append_right _ (List.mem_cons_of_mem _ inside)

theorem Reachable.grown {τ : Engine} (h : Reachable start σ) (run : Run program σ τ) :
    Grown σ.world.db τ.world.db := by
  obtain ⟨new, split, chain, -⟩ := Run.history run
  refine chain.keeps (P := fun db => Grown σ.world.db db) (.refl _) fun e member grown => grown.trans ?_
  exact (h.run run).step (split ▸ List.mem_append_right _ member)

/-- The legs of a stored quote stay what they are. -/
theorem legsOf_kept {db : Tables} {now : Instant} {a : Action} (enabled : Enabled db now a) {quoteId : Uuid}
    (stored : (db.quote quoteId).isSome) : (a.apply db).legsOf quoteId = db.legsOf quoteId := by
  cases enabled with
  | @quote row legs rows refresh customer fresh book priced =>
      obtain ⟨-, -, terms, -, -, made⟩ := priced.terms
      have none : legs.filter (·.quoteId = quoteId) = [] := by
        refine List.filter_eq_nil_iff.mpr fun leg member => ?_
        rw [decide_eq_true_eq, legRows_quoteId made leg member]
        rintro rfl
        rw [fresh] at stored
        cases stored
      rw [Tables.legsOf, Action.apply, List.filter_append, none, List.append_nil]
      rfl
  | openAccount | credit | execute | refresh | refreshFailure => rfl

/-- A stored quote is the row of the commit that created it, with the legs that were
created with it. -/
theorem Reachable.created (h : Reachable start σ) {q : Quote} (stored : σ.world.db.quote q.id = some q) :
    ∃ e ∈ σ.history, e.world.db.quote q.id = none ∧ e.after.quote q.id = some q ∧
      Performs e.call e.world.db e.loc.reads (.quote q (σ.world.db.legsOf q.id)) ∧
      Grown e.world.db σ.world.db := by
  have absent : ¬ ({} : Tables).quote q.id = some q := fun found => by cases found
  obtain ⟨pre, e, rest, split, before, after, chain⟩ :=
    h.chain.became (P := fun db : Tables => db.quote q.id = some q) absent stored
  have member : e ∈ σ.history := split ▸ List.mem_append_right _ List.mem_cons_self
  obtain ⟨a, enabled, view, performs⟩ := h.commits member
  rw [view] at after chain
  have free : e.world.db.quote q.id = none := by
    cases found : e.world.db.quote q.id with
    | none => rfl
    | some other =>
        have kept := a.grown.quote found
        rw [after] at kept
        exact absurd (found.trans kept.symm) before
  -- from then on the quote, its legs and everything else is kept
  have later := chain.keeps (P := fun db : Tables => Grown (a.apply e.world.db) db ∧
      db.legsOf q.id = (a.apply e.world.db).legsOf q.id) ⟨.refl _, rfl⟩ fun e' inside ⟨grown, legs⟩ => by
    have there : e' ∈ σ.history := split ▸ List.mem_append_right _ (List.mem_cons_of_mem _ inside)
    obtain ⟨a', enabled', view', -⟩ := h.commits there
    rw [view']
    refine ⟨grown.trans a'.grown, (legsOf_kept enabled' ?_).trans legs⟩
    rw [grown.quote after]
    rfl
  refine ⟨e, member, free, view ▸ after, ?_, a.grown.trans later.1⟩
  rw [later.2]
  cases enabled with
  | @quote row legs rows refresh customer fresh book priced =>
      have same : q = row := List.mem_singleton.mp
        (Table.row_some ((Table.row_append_none free).symm.trans after)).1
      subst same
      obtain ⟨-, -, terms, -, -, made⟩ := priced.terms
      have none : e.world.db.legs.filter (·.quoteId = q.id) = [] := by
        refine List.filter_eq_nil_iff.mpr fun leg there => ?_
        have := (h.sound.events e member).2.quoted.legs leg there
        rw [decide_eq_true_eq]
        intro same
        rw [same, free] at this
        cases this
      have all : legs.filter (·.quoteId = q.id) = legs :=
        List.filter_eq_self.mpr fun leg there => decide_eq_true (legRows_quoteId made leg there)
      have legs_ : ((Action.quote q legs).apply e.world.db).legsOf q.id = legs := by
        rw [Tables.legsOf, Action.apply, List.filter_append, none, all, List.nil_append]
      rw [legs_]
      exact performs
  | openAccount | credit | execute | refresh | refreshFailure => exact absurd after before

/-! ## Calls in turn -/

/-- Calls that run one after the other from empty tables, without faults; all sessions are
closed then. -/
theorem serial_calm {calls : List (Call × List Instant)} {last : Instant} (ordered : Ordered start calls last) :
    ∃ σ : Engine, CalmRun program (.init ⟨{}, start⟩) σ ∧ σ.world.db = (serial program calls {}).2 ∧
      σ.world.now ≤ last ∧ σ.Idle ∧ (∀ i ≥ calls.length, σ.procs i = none) ∧
      ∀ k r, (serial program calls {}).1[k]? = some r →
        ∃ p, σ.procs k = some p ∧ (calls.map Prod.fst)[k]? = some p.call ∧ p.prog = .ofExcept r := by
  have idle : (Sys.init ⟨{}, start⟩ : Engine).Idle := fun i p at_ => by cases at_
  obtain ⟨σ, run, db, now, closed, kept, -, ends⟩ := Run.serial (n := 0) idle (fun _ _ => rfl) ordered
  exact ⟨σ, run, db, now, closed, fun i above => kept i (.inr (by omega)), fun k r found => by simpa using ends k r found⟩

theorem serial_reachable {calls : List (Call × List Instant)} {last : Instant} (ordered : Ordered start calls last) :
    ∃ σ : Engine, Reachable start σ ∧ σ.world.db = (serial program calls {}).2 ∧ σ.world.now ≤ last ∧ σ.Idle ∧
      (∀ i ≥ calls.length, σ.procs i = none) ∧
      ∀ k r, (serial program calls {}).1[k]? = some r →
        ∃ p, σ.procs k = some p ∧ (calls.map Prod.fst)[k]? = some p.call ∧ p.prog = .ofExcept r := by
  obtain ⟨σ, run, rest⟩ := serial_calm ordered
  exact ⟨σ, run.run, rest⟩

end Engine

end Verification

/-! ## A sample day

Opening an account, fetching rates, paying in, and converting shillings to naira.
-/

namespace Sample

/-- A hash without collisions, a `JSONB` column that gives back what it got, and a provider
that sends no timestamps. -/
abbrev platform : Platform where
  sha256 text := text
  jsonb value := value
  fromisoformat _ := none
  fromtimestamp _ := .error (.valueError "")
  strTooDeep _ := false
  dumpsTooDeep _ := false
  storesTimestamp _ := true
  loadsTimestamp _ := true

abbrev settings : Settings := ⟨300, 50, 50⟩

/-- A provider answer with the given shillings, naira and euros to the dollar. -/
def answer (kes ngn eur : String) : ProviderAnswer :=
  .response 200 (.json (.dict [("base", .str "USD"),
    ("rates", .dict [("KES", .str kes), ("NGN", .str ngn), ("EUR", .str eur)])]))

/-- The customer 1 and the refresh 2. -/
def opened (answer : ProviderAnswer) : List (Call × List Instant) :=
  [(.createCustomer 1, [0]), (.refreshRates 2 3 (fun n => 10 + n) answer, [0])]

/-- The credit 4 and the quote 5. -/
def prepared : List (Call × List Instant) :=
  opened (answer "130" "1500" "0.9") ++
    [(.creditBalance 4 1 .KES (.str "1000.00"), [0]), (.createQuote 5 1 .KES .NGN (.str "100.00"), [0])]

/-- The execution 6 of the quote, under the key `k`. -/
def executed : List (Call × List Instant) := [(.executeQuote 6 5 "k", [0])]

theorem ordered (calls : List (Call × List Instant)) (still : ∀ entry ∈ calls, entry.2 = [0]) :
    Ordered 0 calls 0 := by
  induction calls with
  | nil => exact le_rfl
  | cons entry calls ih =>
      obtain ⟨call, clock⟩ := entry
      obtain rfl : clock = [0] := still _ List.mem_cons_self
      exact ⟨0, ⟨List.cons_ne_nil _ _, by simp, by simp⟩, ih fun e member => still e (List.mem_cons_of_mem _ member)⟩

attribute [local instance] platform settings

/-- The row that a request claims. -/
def claimed (quoteId : Uuid) (key : String) : IdempotencyKey :=
  { endpoint := executionsEndpoint, key, requestHash := executionRequestHash quoteId }

/-- On empty tables an execution request comes as far as claiming its key; a key that is
refused ends it. -/
theorem claiming (executionId quoteId : Uuid) {key : String} (some : key ≠ "") :
    ∃ k, k (.error .dataError) = .raise .dataError ∧
      ∀ (σ : Engine) (i : ℕ), σ.world = ⟨{}, 0⟩ → σ.procs i = none → ∃ τ, CalmRun program σ τ ∧ τ.world = σ.world ∧
        τ.metrics = σ.metrics ∧ (∀ j, j ≠ i → τ.procs j = σ.procs j) ∧ τ.procs i = Option.some
          ⟨.executeQuote executionId quoteId key, .write (.insertIdempotencyKey (claimed quoteId key)) k, {}⟩ := by
  let call : Call := .executeQuote executionId quoteId key
  obtain ⟨k₁, start, k₂, reads, k₃, faults, k, writes, raised⟩ :
      ∃ k₁, program call = .fault k₁ ∧ ∃ k₂, k₁ none = .read k₂ ∧ ∃ k₃, k₂ {} = .fault k₃ ∧
        ∃ k, k₃ none = .write (.insertIdempotencyKey (claimed quoteId key)) k ∧
          k (.error .dataError) = .raise .dataError := by
    rw [program, executeQuoteEndpoint, executeQuote, if_neg some]
    exact ⟨_, rfl, _, rfl, _, rfl, _, rfl, rfl⟩
  refine ⟨k, raised, fun σ i world free => ?_⟩
  -- a move of session `i` from one program to the next
  have move : ∀ {σ : Engine} {prog rest : Tx Reply}, σ.procs i = Option.some ⟨call, prog, {}⟩ →
      Move σ.world (σ.busy i) prog {} rest {} → (∀ k, prog = .fault k → rest = k none) →
      CalmRun program σ (σ.set i ⟨call, rest, {}⟩) := by
    refine fun at_ move goes => Step.calm (.move i _ at_ move) rfl fun p k there fault => ?_
    obtain rfl := Option.some.inj (at_.symm.trans there)
    rw [goes k fault]
  let σ₁ : Engine := σ.set i ⟨call, program call, {}⟩
  let σ₂ : Engine := σ₁.set i ⟨call, k₁ none, {}⟩
  let σ₃ : Engine := σ₂.set i ⟨call, k₂ {}, {}⟩
  let σ₄ : Engine := σ₃.set i ⟨call, k₃ none, {}⟩
  have run₁ : CalmRun program σ σ₁ :=
    Step.calm (.spawn i call free) rfl fun p k at_ => by rw [free] at at_; cases at_
  have run₂ : CalmRun program σ₁ σ₂ := move (Sys.set_procs_self ..) (start ▸ .proceed) fun k same => by
    cases start.symm.trans same
    rfl
  have run₃ : CalmRun program σ₂ σ₃ := move (Sys.set_procs_self ..) (by
    have view : k₂ {} = k₂ (({} : Local fx).view σ₂.world.db) := by
      rw [show σ₂.world = ⟨{}, 0⟩ from world]
      rfl
    rw [reads, view]
    exact .read) fun k same => by
    rw [reads] at same
    cases same
  have run₄ : CalmRun program σ₃ σ₄ := move (Sys.set_procs_self ..) (faults ▸ .proceed) fun k same => by
    cases faults.symm.trans same
    rfl
  refine ⟨σ₄, ((run₁.trans run₂).trans run₃).trans run₄, rfl, rfl, fun j ne => ?_, ?_⟩
  · rw [Sys.set_procs_ne _ _ ne, Sys.set_procs_ne _ _ ne, Sys.set_procs_ne _ _ ne, Sys.set_procs_ne _ _ ne]
  · rw [← writes]
    exact Sys.set_procs_self ..

/-- Where calls at the first instant lead. -/
theorem reachable (calls : List (Call × List Instant)) (still : ∀ entry ∈ calls, entry.2 = [0]) :
    ∃ σ : Engine, Engine.Reachable 0 σ ∧ σ.world.db = (serial program calls {}).2 := by
  obtain ⟨σ, reached, db, -⟩ := Engine.serial_reachable (ordered calls still)
  exact ⟨σ, reached, db⟩

/-- Where more calls lead from there. -/
theorem continued (calls more : List (Call × List Instant)) (still : ∀ entry ∈ calls ++ more, entry.2 = [0]) :
    ∃ σ τ : Engine, Engine.Reachable 0 σ ∧ Run program σ τ ∧ σ.world.db = (serial program calls {}).2 ∧
      τ.world.db = (serial program more (serial program calls {}).2).2 := by
  obtain ⟨σ, reached, db, now, idle, free, -⟩ :=
    Engine.serial_reachable (ordered calls fun entry member => still entry (List.mem_append_left _ member))
  obtain ⟨τ, run, db', -⟩ := Run.serial idle free
    ((ordered more fun entry member => still entry (List.mem_append_right _ member)).mono now)
  exact ⟨σ, τ, reached, run.run, db, db'.trans (by rw [db])⟩

end Sample

end FxEngine
