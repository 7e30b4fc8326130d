import FxEngine.Correctness.Engine
import FxEngine.Transactions.Alone

/-! # Executions and credits are serializable -/

namespace FxEngine

open Transactions

section Serializability

variable [Platform] [Settings] {start : Instant} {σ τ : Engine}

/-- The calls that move money. -/
def Call.movesMoney : Call → Prop
  | .executeQuote .. | .creditBalance .. => True
  | _ => False

/-- The row by which a call that moves money is known. -/
def Call.recorded (call : Call) (db : Tables) : Prop :=
  match call with
  | .executeQuote executionId _ _ => (db.execution executionId).isSome
  | .creditBalance adjustmentId _ _ _ => (db.adjustment adjustmentId).isSome
  | _ => False

omit [Platform] [Settings] in
theorem Grown.recorded {s t : Tables} (h : Grown s t) {call : Call} (known : call.recorded s) :
    call.recorded t := by
  cases call with
  | executeQuote executionId =>
      obtain ⟨row, found⟩ := Option.isSome_iff_exists.mp known
      exact Option.isSome_iff_exists.mpr ⟨row, Table.row_of_prefix h.executions found⟩
  | creditBalance adjustmentId =>
      obtain ⟨row, found⟩ := Option.isSome_iff_exists.mp known
      exact Option.isSome_iff_exists.mpr ⟨row, Table.row_of_prefix h.adjustments found⟩
  | _ => exact known

/-- A commit that moves money records its call and does what the call does alone. -/
theorem Performs.money {call : Call} {db : Tables} {now : Instant} {reads : List Instant} {a : Action}
    (enabled : Enabled db now a) (performs : Performs call db reads a) (money : call.movesMoney) :
    ¬ call.recorded db ∧ call.recorded (a.apply db) ∧ Serial call reads db (a.apply db) := by
  cases call with
  | executeQuote executionId quoteId key =>
      obtain ⟨⟨q, debited, credited, row, rfl, -⟩, serial⟩ := performs
      cases enabled with
      | execute stored unexecuted fresh =>
          refine ⟨by simp [Call.recorded, fresh], ?_, serial⟩
          simp [Call.recorded, Tables.execution, Action.apply, Table.row_isSome]
  | creditBalance adjustmentId customerId currency amount =>
      obtain ⟨⟨credited, balance, rfl⟩, serial⟩ := performs
      cases enabled with
      | credit customer fresh =>
          refine ⟨by simp [Call.recorded, fresh], ?_, serial⟩
          simp [Call.recorded, Tables.adjustment, Action.apply, Table.row_isSome]
  | _ => exact money.elim

namespace Engine

/-- The payload of a finished execution that committed is what the call returns alone. -/
theorem Reachable.payload (h : Reachable start σ) {e : Event fx Call} (member : e ∈ σ.history)
    {executionId quoteId : Uuid} {key : String} (call : e.call = .executeQuote executionId quoteId key)
    {p : Proc fx Call Reply} (at_ : σ.procs e.pid = some p) {body : Json} (done : p.prog = .ret (.execution body)) :
    ((program e.call).run e.loc.reads e.world.db).1 = .ok (.execution body) := by
  obtain ⟨q, there, same⟩ := h.sound.owners e member
  rw [at_] at there
  cases there
  have logged : e.snapshot ∈ p.loc.commits := by
    rw [h.sound.logged at_]
    exact List.mem_map_of_mem (List.mem_filter.mpr ⟨member, by simp⟩)
  have post := h.sound.post at_ (r := .ok (.execution body)) done
  change Outcome p.call _ _ _ at post
  rw [same, call] at post
  cases post with
  | replayed commits =>
      rw [commits] at logged
      cases logged
  | executed commits _ _ _ _ _ _ serial =>
      rw [commits, List.mem_singleton] at logged
      subst logged
      rw [call]
      exact congrArg Prod.fst serial

/-- An execution that is not on record committed nothing. -/
theorem Reachable.uncommitted (h : Reachable start σ) {i : ℕ} {p : Proc fx Call Reply} (at_ : σ.procs i = some p)
    {executionId quoteId : Uuid} {key : String}
    (call : p.call = .executeQuote executionId quoteId key)
    (unrecorded : σ.world.db.execution executionId = none) : p.loc.commits = [] := by
  rw [h.sound.logged at_, List.map_eq_nil_iff, List.filter_eq_nil_iff]
  intro e member pid
  rw [decide_eq_true_eq] at pid
  obtain ⟨p', there, same⟩ := h.sound.owners e member
  rw [pid, at_] at there
  obtain rfl := Option.some.inj there
  obtain ⟨a, enabled, view, performs⟩ := h.commits member
  rw [← same, call] at performs
  obtain ⟨-, recorded, -⟩ := performs.money enabled trivial
  rw [← view] at recorded
  have known : (σ.world.db.execution executionId).isSome := (h.since member).recorded recorded
  rw [unrecorded] at known
  cases known

/-- Whatever happens between two reachable states, when only calls that move money commit in
between: the tables are those that the committed calls leave when they run in turn, in the
order of their commits and with the clock readings they took; none of them fails then; no
call commits twice; and an execution returned what it returns there. -/
theorem Reachable.serializable (h : Reachable start σ) (run : Run program σ τ) {new : List (Event fx Call)}
    (split : τ.history = σ.history ++ new) (money : ∀ e ∈ new, e.call.movesMoney) :
    (serial program (new.map Event.entry) σ.world.db).2 = τ.world.db ∧
    (∀ r ∈ (serial program (new.map Event.entry) σ.world.db).1, ∃ reply, r = .ok reply) ∧
    (new.map Event.pid).Nodup ∧
    ∀ (k : ℕ) (e : Event fx Call) executionId quoteId key, new[k]? = some e → e.call = .executeQuote executionId quoteId key →
      ∃ p, τ.procs e.pid = some p ∧ p.call = e.call ∧ ∀ body, p.prog = .ret (.execution body) →
        (serial program (new.map Event.entry) σ.world.db).1[k]? = some (.ok (.execution body)) := by
  have reached := h.run run
  have inside : ∀ {e}, e ∈ new → e ∈ τ.history := fun member => split ▸ List.mem_append_right _ member
  obtain ⟨new', split', chain, -⟩ := Run.history run
  obtain rfl : new' = new := List.append_cancel_left (split'.symm.trans split)
  have each : ∀ e ∈ new', ¬ e.call.recorded e.world.db ∧ e.call.recorded e.after ∧
      Serial e.call e.loc.reads e.world.db e.after := by
    intro e member
    obtain ⟨a, enabled, view, performs⟩ := reached.commits (inside member)
    exact view ▸ performs.money enabled (money e member)
  have alone : ∀ e ∈ new', ((program e.call).run e.loc.reads e.world.db).2 = e.after := by
    intro e member
    obtain ⟨reply, ran⟩ := (each e member).2.2
    rw [ran]
  have distinct : (new'.map Event.call).Nodup := by
    refine List.pairwise_map.mpr ((chain.pairwise (fun e db => e.call.recorded db)
      (fun e member => (each e member).2.1) fun e f member known => ?_).imp_of_mem fun _ member recorded same => ?_)
    · exact (reached.step (inside member)).recorded known
    · exact (each _ member).1 (same ▸ recorded)
  rw [chain.serial alone]
  refine ⟨rfl, fun r member => ?_, ?_, fun k e executionId quoteId key found call => ?_⟩
  · obtain ⟨e, there, rfl⟩ := List.mem_map.mp member
    obtain ⟨reply, ran⟩ := (each e there).2.2
    exact ⟨reply, by rw [ran]⟩
  · refine List.Nodup.of_map (fun i => (τ.procs i).map Proc.call) ?_
    rw [List.map_map]
    have calls : new'.map ((fun i => (τ.procs i).map Proc.call) ∘ Event.pid) = (new'.map Event.call).map some := by
      rw [List.map_map]
      refine List.map_congr_left fun e member => ?_
      obtain ⟨p, at_, same⟩ := reached.sound.owners e (inside member)
      simp only [Function.comp_apply, at_, Option.map_some, same]
    rw [calls]
    exact distinct.map (Option.some_injective _)
  · have member : e ∈ new' := List.mem_of_getElem? found
    obtain ⟨p, at_, same⟩ := reached.sound.owners e (inside member)
    refine ⟨p, at_, same, fun body done => ?_⟩
    rw [List.getElem?_map, found, Option.map_some, reached.payload (inside member) call at_ done]

end Engine

end Serializability

attribute [local instance] Sample.platform Sample.settings

/-- A credit begins and reads the customer, the execution runs from first to last, then the
credit goes on. -/
theorem Engine.serializable_sample : ∃ (σ σ₁ τ : Engine) (p : Proc fx Call Reply) (new : List (Event fx Call)),
    Engine.Reachable 0 σ ∧ Run program σ σ₁ ∧ Run program σ₁ τ ∧
    (σ₁.procs 4 = some p ∧ p.call = .creditBalance 11 1 .KES (.str "7.00") ∧ σ₁.procs 5 = none) ∧
    σ₁.history = σ.history ∧ τ.history = σ.history ++ new ∧ (∀ e ∈ new, e.call.movesMoney) ∧
    (τ.world.db.executions = [⟨6, 5, 1⟩] ∧ τ.world.db.adjustments.map CreditAdjustment.id = [4, 11]) ∧
    (serial program (new.map Event.entry) σ.world.db).2 = τ.world.db ∧ (new.map Event.pid).Nodup := by
  let call : Call := .creditBalance 11 1 .KES (.str "7.00")
  let db := (serial program Sample.prepared {}).2
  let db' := ((program (.executeQuote 6 5 "k")).run [0] db).2
  obtain ⟨k, start, k', customer, executions, adjustments⟩ : ∃ k, program call = .fault k ∧ ∃ k', k none = .read k' ∧
      ((k' db).exec ⟨[0], [], db'⟩).2.db.executions = [⟨6, 5, 1⟩] ∧
      ((k' db).exec ⟨[0], [], db'⟩).2.db.adjustments.map CreditAdjustment.id = [4, 11] :=
    ⟨_, rfl, _, rfl, by decide +kernel, by decide +kernel⟩
  obtain ⟨σ, reached, at_, now, idle, free, -⟩ := Engine.serial_reachable (Sample.ordered Sample.prepared (by decide))
  let p : Proc fx Call Reply := ⟨call, k' db, {}⟩
  let begun : Engine := (σ.set 4 ⟨call, program call, {}⟩).set 4 ⟨call, k none, {}⟩
  let σ₁ : Engine := begun.set 4 p
  have run : Run program σ σ₁ := by
    refine .tail (.tail (.single (.spawn 4 call (free 4 le_rfl))) (.move 4 _ (Sys.set_procs_self ..) ?_))
      (.move 4 _ (Sys.set_procs_self ..) ?_)
    · exact start ▸ .proceed
    · dsimp only
      rw [customer, show k' db = k' (({} : Local fx).view begun.world.db) from congrArg k' at_.symm]
      exact .read
  have others : ∀ {j}, j ≠ 4 → σ₁.procs j = σ.procs j := fun ne => by
    rw [Sys.set_procs_ne _ _ ne, Sys.set_procs_ne _ _ ne, Sys.set_procs_ne _ _ ne]
  have ascending : ∀ {now : Instant}, now ≤ 0 → Ascending now [0] 0 := fun le => ⟨by simp, by simp [le], by simp [le]⟩
  have idle₁ : σ₁.Idle := by
    intro j q there
    by_cases same : j = 4
    · rw [same, Sys.set_procs_self] at there
      cases there
      rfl
    · exact idle j q (others same ▸ there)
  have free₁ : σ₁.procs 5 = none := (others (by decide)).trans (free 5 (by decide))
  obtain ⟨σ₂, q, calm₂, db₂, now₂, idle₂, procs₂, -, -, only₂⟩ :=
    Run.alone program (.executeQuote 6 5 "k") idle₁ free₁ (ascending now)
  have mine : σ₂.procs 4 = some p := by
    rw [procs₂, Sys.set_procs_ne _ _ (by decide)]
    exact Sys.set_procs_self ..
  have alone : σ₂.Alone 4 := by
    rintro r ⟨j, other, -, there, held⟩
    rw [idle₂ j other there] at held
    cases held
  obtain ⟨τ, l, calm₃, db₃, -, -, only₃⟩ := Run.finishes program mine alone (ascending now₂)
  have world : σ₂.world.db = db' := db₂.trans (congrArg (fun t => ((program (.executeQuote 6 5 "k")).run [0] t).2) at_)
  rw [world] at db₃
  obtain ⟨new, split, named⟩ := only₂.trans only₃
  have money : ∀ e ∈ new, e.call.movesMoney := fun e member => by
    rcases List.mem_cons.mp (named e member) with same | same
    · rw [same]
      trivial
    · rw [List.mem_singleton.mp same]
      trivial
  have run₂ : Run program σ₁ σ₂ := calm₂.run
  have run₃ : Run program σ₂ τ := calm₃.run
  have final := reached.serializable (run.trans (run₂.trans run₃)) split money
  refine ⟨σ, σ₁, τ, p, new, reached, run, run₂.trans run₃, ⟨Sys.set_procs_self .., rfl, free₁⟩, rfl, split, money, ?_,
    final.1, final.2.2.1⟩
  rw [db₃]
  exact ⟨executions, adjustments⟩

end FxEngine
