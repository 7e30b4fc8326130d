import FxEngine.Transactions.System

/-! # One call on its own, as an interleaving

When no other session holds anything, a call can run from its first statement to
its last without a step of another session in between. What it then does is what
`Program.run` says.
-/

namespace FxEngine.Transactions

variable {D : Database} {C α : Type} {program : C → Program D α}

namespace Sys

@[simp] theorem busy_set {σ : Sys D C α} {i : ℕ} {p : Proc D C α} {r : D.Resource} :
    (σ.set i p).busy i r ↔ σ.busy i r := by
  constructor <;> rintro ⟨j, q, ne, at_, held⟩
  · exact ⟨j, q, ne, set_procs_ne σ p ne ▸ at_, held⟩
  · exact ⟨j, q, ne, (set_procs_ne σ p ne).trans at_, held⟩

theorem set_set {σ : Sys D C α} {i : ℕ} {p q : Proc D C α} : ((σ.set i p).set i q).procs = (σ.set i q).procs :=
  Function.update_idem _ _ _

/-- The session is the only one that holds anything. -/
def Alone (σ : Sys D C α) (i : ℕ) : Prop := ∀ r, ¬ σ.busy i r

end Sys

/-- Readings that come in order, from `now` to `last`. -/
structure Ascending (now : Instant) (clock : List Instant) (last : Instant) : Prop where
  some : clock ≠ []
  order : (now :: clock).Pairwise (· ≤ ·)
  bound : ∀ t ∈ now :: clock, t ≤ last

namespace Ascending

variable {now last : Instant} {clock : List Instant}

theorem now_le (h : Ascending now clock last) : now ≤ clock.headD 0 := by
  cases clock with
  | nil => exact absurd rfl h.some
  | cons t rest => exact (List.pairwise_cons.mp h.order).1 t List.mem_cons_self

theorem later (h : Ascending now clock last) : Ascending (clock.headD 0) (Session.later clock) last := by
  cases clock with
  | nil => exact absurd rfl h.some
  | cons t rest =>
      have order := (List.pairwise_cons.mp h.order).2
      have bound : ∀ t' ∈ t :: rest, t' ≤ last := fun t' member => h.bound t' (List.mem_cons_of_mem _ member)
      cases rest with
      | nil => exact ⟨List.cons_ne_nil _ _, by simp [Session.later], by simpa [Session.later] using bound⟩
      | cons t' rest => exact ⟨List.cons_ne_nil _ _, order, bound⟩

end Ascending

variable {σ σ' : Sys D C α} {i : ℕ} {call : C} {l : Local D} {last : Instant}

/-- Only `calls` commit between the two systems. -/
def Sys.OnlyCommit (calls : List C) (σ τ : Sys D C α) : Prop :=
  ∃ new, τ.history = σ.history ++ new ∧ ∀ e ∈ new, e.call ∈ calls

theorem Sys.OnlyCommit.refl (calls : List C) (σ : Sys D C α) : σ.OnlyCommit calls σ :=
  ⟨[], (List.append_nil _).symm, fun _ member => absurd member List.not_mem_nil⟩

theorem Sys.OnlyCommit.trans {calls more : List C} {σ τ υ : Sys D C α} (h : σ.OnlyCommit calls τ)
    (h' : τ.OnlyCommit more υ) : σ.OnlyCommit (calls ++ more) υ := by
  obtain ⟨new, split, named⟩ := h
  obtain ⟨new', split', named'⟩ := h'
  refine ⟨new ++ new', by rw [split', split, List.append_assoc], fun e member => ?_⟩
  exact List.mem_append.mpr ((List.mem_append.mp member).imp (named e) (named' e))

theorem Sys.OnlyCommit.mono {calls more : List C} {σ τ : Sys D C α} (sub : calls ⊆ more)
    (h : σ.OnlyCommit calls τ) : σ.OnlyCommit more τ :=
  ⟨h.choose, h.choose_spec.1, fun e member => sub (h.choose_spec.2 e member)⟩

/-- A step of session `i`, which at a fault goes on. -/
theorem Step.calm {τ : Sys D C α} {q : Proc D C α} (step : Step program σ τ) (procs : τ.procs = (σ.set i q).procs)
    (goes : ∀ p k, σ.procs i = some p → p.prog = .fault k → q = ⟨p.call, k none, p.loc⟩) : CalmRun program σ τ := by
  refine .single ⟨step, fun j p k at_ fault => ?_⟩
  rw [procs]
  by_cases same : j = i
  · subst same
    rw [Sys.set_procs_self, goes p k at_ fault]
    exact .inr (.inl rfl)
  · rw [Sys.set_procs_ne _ _ same]
    exact .inl at_

/-- Some interleaving without faults ends the call of session `i` as `r` says, by `last`;
nothing else commits, and the other sessions stay where they are. -/
def Finishes (program : C → Program D α) (σ : Sys D C α) (i : ℕ) (call : C) (last : Instant)
    (r : Except D.Error α × Session D) : Prop :=
  ∃ τ loc, CalmRun program σ τ ∧ τ.world.db = r.2.db ∧ τ.world.now ≤ last ∧
    τ.procs = (σ.set i ⟨call, .ofExcept r.1, loc⟩).procs ∧ σ.OnlyCommit [call] τ

/-- A first step, then the rest. -/
theorem Finishes.after {p : Proc D C α} {r : Except D.Error α × Session D} (step : CalmRun program σ σ')
    (procs : σ'.procs = (σ.set i p).procs) (only : σ.OnlyCommit [call] σ') (h : Finishes program σ' i call last r) :
    Finishes program σ i call last r := by
  obtain ⟨τ, loc, run, db, now, procs', only'⟩ := h
  refine ⟨τ, loc, step.trans run, db, now, ?_, (only.trans only').mono (by simp)⟩
  rw [procs', Sys.set, procs]
  exact Sys.set_set

theorem Sys.Alone.set {p : Proc D C α} (alone : σ.Alone i) : (σ.set i p).Alone i :=
  fun r busy => alone r (Sys.busy_set.mp busy)

variable (program) in
/-- From the middle of a call to its end. -/
theorem Run.finishes {prog : Program D α} {clock : List Instant} (at_ : σ.procs i = some ⟨call, prog, l⟩)
    (alone : σ.Alone i) (ascending : Ascending σ.world.now clock last) :
    Finishes program σ i call last (prog.exec ⟨clock, l.writes, σ.world.db⟩) := by
  -- a step of the session, from a program that is no fault or to what follows it
  have steps : ∀ {σ τ : Sys D C α} {prog rest : Program D α} {l l' : Local D},
      σ.procs i = some ⟨call, prog, l⟩ → Step program σ τ → τ.procs = (σ.set i ⟨call, rest, l'⟩).procs →
      (∀ k, prog = .fault k → rest = k none ∧ l' = l) → CalmRun program σ τ := by
    refine fun at_ step procs goes => step.calm procs fun p k there fault => ?_
    obtain rfl := Option.some.inj (at_.symm.trans there)
    obtain ⟨rfl, rfl⟩ := goes k fault
    rfl
  have here : ∀ {σ : Sys D C α} {prog rest : Program D α} {l l' : Local D},
      σ.procs i = some ⟨call, prog, l⟩ → Move σ.world (σ.busy i) prog l rest l' →
      (∀ k, prog = .fault k → rest = k none ∧ l' = l) → CalmRun program σ (σ.set i ⟨call, rest, l'⟩) :=
    fun at_ move goes => steps at_ (.move i _ at_ move) rfl goes
  induction prog generalizing σ clock l with
  | ret a =>
      refine ⟨σ, l, .refl, rfl, ascending.bound _ List.mem_cons_self, ?_, .refl _ _⟩
      exact (Function.update_eq_self_iff.mpr at_.symm).symm
  | raise e =>
      refine ⟨σ, l, .refl, rfl, ascending.bound _ List.mem_cons_self, ?_, .refl _ _⟩
      exact (Function.update_eq_self_iff.mpr at_.symm).symm
  | read k ih =>
      exact .after (here at_ .read (by simp)) rfl (.refl _ _) (ih _ (Sys.set_procs_self ..) alone.set ascending)
  | lock rows k ih =>
      exact .after (here at_ (.lock fun r _ => alone r) (by simp)) rfl (.refl _ _)
        (ih _ (l := l.acquire (rows (l.view σ.world.db))) (Sys.set_procs_self ..) alone.set ascending)
  | write w k ih =>
      rw [Program.exec]
      cases ok : D.check w (Session.view ⟨clock, l.writes, σ.world.db⟩) with
      | none =>
          exact .after (here at_ (.write (fun r _ => alone r) ok) (by simp)) rfl (.refl _ _)
            (ih _ (Sys.set_procs_self ..) alone.set ascending)
      | some e =>
          exact .after (here at_ (.violate (fun r _ => alone r) ok) (by simp)) rfl (.refl _ _)
            (ih _ (Sys.set_procs_self ..) alone.set ascending)
  | clock k ih =>
      let σ₁ : Sys D C α := { σ with world := ⟨σ.world.db, clock.headD 0⟩ }
      have tick : CalmRun program σ σ₁ := .single ⟨.tick _ ascending.now_le, fun _ _ _ there _ => .inl there⟩
      have read : CalmRun program σ₁ (σ₁.set i ⟨call, k (clock.headD 0), l.read (clock.headD 0)⟩) :=
        here (show σ₁.procs i = _ from at_) .clock (by simp)
      exact .after (tick.trans read) rfl (.refl _ _)
        (ih (clock.headD 0) (l := l.read (clock.headD 0)) (Sys.set_procs_self ..) (Sys.Alone.set (σ := σ₁) alone)
          ascending.later)
  | fault k ih =>
      exact .after (here at_ .proceed fun _ same => by cases same; exact ⟨rfl, rfl⟩) rfl (.refl _ _)
        (ih _ (Sys.set_procs_self ..) alone.set ascending)
  | commit k ih =>
      let σ₁ : Sys D C α := { σ.set i ⟨call, k, l.committed σ.world.db⟩ with
        world := ⟨l.view σ.world.db, σ.world.now⟩
        history := σ.history ++ [⟨i, call, σ.world, l⟩] }
      have kept : σ₁.Alone i := fun r busy => alone r (Sys.busy_set.mp busy)
      have only : σ.OnlyCommit [call] σ₁ := ⟨_, rfl, fun e member => by simp [List.mem_singleton.mp member]⟩
      exact .after (steps at_ (.commit i _ at_ rfl) rfl (by simp)) rfl only
        (ih (σ := σ₁) (Sys.set_procs_self σ i ⟨call, k, l.committed σ.world.db⟩) kept ascending)
  | rollback k ih =>
      exact .after (here at_ .rollback (by simp)) rfl (.refl _ _) (ih (Sys.set_procs_self ..) alone.set ascending)
  | count m k ih =>
      let σ₁ : Sys D C α := { σ.set i ⟨call, k, l.counted m⟩ with metrics := σ.metrics ++ [(i, m)] }
      have kept : σ₁.Alone i := fun r busy => alone r (Sys.busy_set.mp busy)
      exact .after (steps at_ (.count i _ at_ rfl) rfl (by simp)) rfl (.refl _ _)
        (ih (σ := σ₁) (l := l.counted m) (Sys.set_procs_self σ i ⟨call, k, l.counted m⟩) kept ascending)

/-- Nobody holds anything. -/
def Sys.Idle (σ : Sys D C α) : Prop := ∀ i p, σ.procs i = some p → p.loc.held = []

variable (program call) in
/-- A new call that runs on its own and closes its session. -/
theorem Run.alone {clock : List Instant} (idle : σ.Idle) (free : σ.procs i = none)
    (ascending : Ascending σ.world.now clock last) :
    ∃ τ p, CalmRun program σ τ ∧ τ.world.db = ((program call).run clock σ.world.db).2 ∧ τ.world.now ≤ last ∧
      τ.Idle ∧ τ.procs = (σ.set i p).procs ∧ p.call = call ∧
      p.prog = .ofExcept ((program call).run clock σ.world.db).1 ∧ σ.OnlyCommit [call] τ := by
  have spawn : CalmRun program σ (σ.set i ⟨call, program call, {}⟩) :=
    Step.calm (.spawn i call free) rfl fun p k at_ => by rw [free] at at_; cases at_
  have alone : (σ.set i ⟨call, program call, {}⟩).Alone i := by
    rintro r ⟨j, q, ne, at_, held⟩
    rw [Sys.set_procs_ne _ _ ne] at at_
    rw [idle j q at_] at held
    cases held
  obtain ⟨τ, loc, run, db, now, procs, only⟩ :=
    Run.finishes program (Sys.set_procs_self σ i _) alone ascending
  rw [Sys.set_set] at procs
  let p : Proc D C α := ⟨call, .ofExcept ((program call).run clock σ.world.db).1, loc.rolledBack⟩
  have at_ : τ.procs i = some ⟨call, .ofExcept ((program call).run clock σ.world.db).1, loc⟩ := by
    rw [procs]
    exact Sys.set_procs_self ..
  have close : CalmRun program τ (τ.set i p) := by
    refine Step.calm (.move i _ at_ ?_) rfl fun q k there fault => ?_
    · cases ((program call).run clock σ.world.db).1 with
      | ok a => exact .closeRet
      | error e => exact .closeRaise
    · obtain rfl := Option.some.inj (at_.symm.trans there)
      cases ended : ((program call).run clock σ.world.db).1 <;> rw [ended] at fault <;> cases fault
  refine ⟨τ.set i p, p, spawn.trans (run.trans close), db, now, ?_, ?_, rfl, rfl, only⟩
  · intro j q atJ
    by_cases ji : j = i
    · subst ji
      rw [Sys.set_procs_self] at atJ
      cases atJ
      rfl
    · rw [Sys.set_procs_ne _ _ ji, procs, Sys.set_procs_ne _ _ ji] at atJ
      exact idle j q atJ
  · rw [Sys.set, procs]
    exact Sys.set_set

/-! ## One call after the other -/

/-- The calls in turn, each with its clock readings: their outcomes and the tables they
leave. -/
def serial (program : C → Program D α) : List (C × List Instant) → D.State →
    List (Except D.Error α) × D.State
  | [], db => ([], db)
  | (call, clock) :: calls, db =>
      let (r, db') := (program call).run clock db
      let (rs, final) := serial program calls db'
      (r :: rs, final)

/-- The call behind a commit, with the readings it had taken. -/
def Event.entry (e : Event D C) : C × List Instant := (e.call, e.loc.reads)

/-- Commits that each do what their call does alone are the calls in turn. -/
theorem Chain.serial {es : List (Event D C)} {s t : D.State} (h : Chain es s t)
    (alone : ∀ e ∈ es, ((program e.call).run e.loc.reads e.world.db).2 = e.after) :
    serial program (es.map Event.entry) s =
      (es.map fun e => ((program e.call).run e.loc.reads e.world.db).1, t) := by
  induction es generalizing s with
  | nil => rw [show s = t from h]; rfl
  | cons e es ih =>
      obtain ⟨rfl, rest⟩ := h
      have tail := ih rest fun f inside => alone f (List.mem_cons_of_mem _ inside)
      rw [← alone e List.mem_cons_self] at tail
      simp only [List.map_cons, Transactions.serial, Event.entry] at tail ⊢
      rw [tail]

/-- The readings of all calls come in order, from `now` to `last`. -/
def Ordered : Instant → List (C × List Instant) → Instant → Prop
  | now, [], last => now ≤ last
  | now, (_, clock) :: calls, last => ∃ between, Ascending now clock between ∧ Ordered between calls last

theorem Ordered.mono {now now' : Instant} {calls : List (C × List Instant)} (le : now' ≤ now)
    (h : Ordered now calls last) : Ordered now' calls last := by
  cases calls with
  | nil => exact le.trans h
  | cons entry calls =>
      obtain ⟨between, ascending, rest⟩ := h
      obtain ⟨above, order⟩ := List.pairwise_cons.mp ascending.order
      refine ⟨between, ⟨ascending.some, List.pairwise_cons.mpr ⟨fun t member => le.trans (above t member), order⟩, ?_⟩,
        rest⟩
      intro t member
      rcases List.mem_cons.mp member with rfl | member
      · exact le.trans (ascending.bound now List.mem_cons_self)
      · exact ascending.bound t (List.mem_cons_of_mem _ member)

/-- Calls that run in turn are one of the interleavings; the `k`-th runs as session
`n + k`, and nothing else happens. -/
theorem Run.serial {calls : List (C × List Instant)} {n : ℕ} (idle : σ.Idle) (free : ∀ i ≥ n, σ.procs i = none)
    (ordered : Ordered σ.world.now calls last) :
    ∃ τ, CalmRun program σ τ ∧ τ.world.db = (Transactions.serial program calls σ.world.db).2 ∧
      τ.world.now ≤ last ∧ τ.Idle ∧
      (∀ i, i < n ∨ n + calls.length ≤ i → τ.procs i = σ.procs i) ∧
      σ.OnlyCommit (calls.map Prod.fst) τ ∧
      ∀ k r, (Transactions.serial program calls σ.world.db).1[k]? = some r →
        ∃ p, τ.procs (n + k) = some p ∧ (calls.map Prod.fst)[k]? = some p.call ∧ p.prog = .ofExcept r := by
  induction calls generalizing σ n with
  | nil =>
      refine ⟨σ, .refl, rfl, ordered, idle, fun _ _ => rfl, .refl _ _, fun k r found => ?_⟩
      simp [Transactions.serial] at found
  | cons entry calls ih =>
      obtain ⟨call, clock⟩ := entry
      obtain ⟨between, ascending, ordered⟩ := ordered
      obtain ⟨σ₁, p, run, db, now, idle₁, procs, called, finished, only⟩ :=
        Run.alone program call idle (free n le_rfl) ascending
      have free₁ : ∀ i ≥ n + 1, σ₁.procs i = none := by
        intro i above
        rw [procs, Sys.set_procs_ne _ _ (by omega)]
        exact free i (by omega)
      obtain ⟨τ, rest, db', now', idle', kept, only', ends⟩ := ih idle₁ free₁ (ordered.mono now)
      rw [db] at db' ends
      refine ⟨τ, run.trans rest, db', now', idle', fun i outside => ?_, only.trans only', fun k r found => ?_⟩
      · rw [List.length_cons] at outside
        rw [kept i (by omega), procs, Sys.set_procs_ne _ _ (by omega)]
      · cases k with
        | zero =>
            refine ⟨p, ?_, by simp [called], ?_⟩
            · rw [Nat.add_zero, kept n (by omega), procs, Sys.set_procs_self]
            · rw [finished]
              congr 1
              simpa [Transactions.serial] using found
        | succ k =>
            obtain ⟨q, at_, named, ended⟩ := ends k r (by simpa [Transactions.serial] using found)
            exact ⟨q, by rw [← at_]; congr 1; omega, by simpa using named, ended⟩

end FxEngine.Transactions
