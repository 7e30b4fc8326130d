import FxEngine.Transactions.System

/-! # Exceptions of marked steps

Some exceptions of a program come from a few of its steps only. In a run in which no
session takes such a step, no session ends in such an exception.
-/

namespace FxEngine.Transactions

variable {D : Database} {C α β : Type}

namespace Program

variable {E : D.Error → Prop}

/-- The program raises one of `E` only after a step that is marked, for the tables it sees and
the time at which it is taken, or because the environment throws one. -/
def Avoids (E : D.Error → Prop) (M : Program D α → D.State → Instant → Prop) : Program D α → Prop
  | .ret _ => True
  | .raise e => ¬ E e
  | .read k => ∀ s t, M (.read k) s t ∨ (k s).Avoids E M
  | .lock _ k => ∀ s, (k s).Avoids E M
  | .write w k => (k (.ok ())).Avoids E M ∧ ∀ s e, D.check w s = some e → (k (.error e)).Avoids E M
  | .clock k => ∀ s t, M (.clock k) s t ∨ (k t).Avoids E M
  | .fault k => (k none).Avoids E M ∧ ∀ e, ¬ E e → (k (some e)).Avoids E M
  | .commit k | .rollback k | .count _ k => k.Avoids E M

/-- The program raises none of `E` by itself. -/
abbrev Never (E : D.Error → Prop) (p : Program D α) : Prop := p.Avoids E fun _ _ _ => False

theorem Avoids.bind {p : Program D α} {f : α → Program D β} {M : Program D β → D.State → Instant → Prop}
    (first : p.Never E) (rest : ∀ a, (f a).Avoids E M) : (p >>= f).Avoids E M := by
  induction p with
  | ret a => exact rest a
  | raise e => exact first
  | read k ih => exact fun s t => .inr (ih s ((first s t).resolve_left id))
  | clock k ih => exact fun s t => .inr (ih t ((first s t).resolve_left id))
  | lock rows k ih => exact fun s => ih s (first s)
  | write w k ih => exact ⟨ih _ first.1, fun s e refused => ih _ (first.2 s e refused)⟩
  | fault k ih => exact ⟨ih _ first.1, fun e other => ih _ (first.2 e other)⟩
  | commit k ih | rollback k ih | count m k ih => exact ih first

theorem never_mayFail : (mayFail : Program D Unit).Never E := ⟨trivial, fun _ other => other⟩

theorem never_select (f : D.State → β) : (select f : Program D β).Never E :=
  never_mayFail.bind fun _ _ _ => .inr trivial

theorem never_execute {w : D.Write} (plain : ∀ s e, D.check w s = some e → ¬ E e) :
    (execute w : Program D Unit).Never E :=
  never_mayFail.bind fun _ => ⟨trivial, plain⟩

theorem never_commitAll : (commitAll : Program D Unit).Never E := never_mayFail.bind fun _ => trivial

theorem never_ofExcept {r : Except D.Error α} (plain : ∀ e, r = .error e → ¬ E e) :
    (ofExcept r : Program D α).Never E := by
  cases r with
  | ok a => trivial
  | error e => exact plain e rfl

theorem never_forM {γ : Type} {xs : List γ} {f : γ → Program D PUnit} (each : ∀ x, (f x).Never E) :
    (xs.forM f).Never E := by
  induction xs with
  | nil => trivial
  | cons x xs ih => exact (each x).bind fun _ => ih

end Program

section Runs

variable {program : C → Program D α} {E : D.Error → Prop} {M : Program D α → D.State → Instant → Prop}
  {Q : C → Prop} {σ τ : Sys D C α} {i : ℕ}

/-- The session is about to take a marked step. -/
def Sys.Marked (Q : C → Prop) (M : Program D α → D.State → Instant → Prop) (σ : Sys D C α) (i : ℕ) : Prop :=
  ∃ p, σ.procs i = some p ∧ Q p.call ∧ M p.prog (p.loc.view σ.world.db) σ.world.now

/-- In the step from `σ` to `τ` no call of interest takes a marked step and the environment
throws none of `E`. -/
structure Unmarked (Q : C → Prop) (E : D.Error → Prop) (M : Program D α → D.State → Instant → Prop)
    (σ τ : Sys D C α) : Prop where
  steps : ∀ i, σ.Marked Q M i → τ.procs i = σ.procs i
  faults : ∀ i p k e, σ.procs i = some p → p.prog = .fault k → τ.procs i = some ⟨p.call, k (some e), p.loc⟩ → ¬ E e

theorem Step.avoids (each : ∀ c, Q c → (program c).Avoids E M) (step : Step program σ τ) (unmarked : Unmarked Q E M σ τ)
    (h : ∀ i p, σ.procs i = some p → Q p.call → p.prog.Avoids E M) :
    ∀ i p, τ.procs i = some p → Q p.call → p.prog.Avoids E M := by
  have next : ∀ {i p}, (Q p.call → p.prog.Avoids E M) →
      ∀ j q, (σ.set i p).procs j = some q → Q q.call → q.prog.Avoids E M := by
    intro i p here j q at_
    by_cases same : j = i
    · subst same
      rw [Sys.set_procs_self] at at_
      cases at_
      exact here
    · exact h j q (Sys.set_procs_ne σ p same ▸ at_)
  cases step with
  | spawn i c free => exact next (each c)
  | tick t _ => exact h
  | @move i p prog loc at_ move =>
      refine next fun wanted => ?_
      have before := h i p at_ wanted
      -- a session that is where it was has taken no marked step
      have quiet : ¬ σ.Marked Q M i ∨ p = ⟨p.call, prog, loc⟩ := by
        by_cases marked : σ.Marked Q M i
        · have same := unmarked.steps i marked
          rw [Sys.set_procs_self, at_] at same
          exact .inr (Option.some.inj same).symm
        · exact .inl marked
      rcases quiet with quiet | same
      · have open_ : ¬ M p.prog (p.loc.view σ.world.db) σ.world.now := fun marked => quiet ⟨p, at_, wanted, marked⟩
        have faults := fun k e same => unmarked.faults i p k e at_ same
        rw [Sys.set_procs_self] at faults
        generalize p.prog = from_ at before move open_ faults
        generalize p.loc = l at before move open_ faults
        cases move with
        | read => exact (before _ _).resolve_left open_
        | clock => exact (before _ _).resolve_left open_
        | lock => exact before _
        | write => exact before.1
        | violate _ refused => exact before.2 _ _ refused
        | proceed => exact before.1
        | throw e => exact before.2 e (faults _ e rfl rfl)
        | rollback | closeRet | closeRaise => exact before
      · rw [same] at before
        exact before
  | @count i p m k at_ prog =>
      refine next fun wanted => ?_
      have before := h i p at_ wanted
      rw [prog] at before
      exact before
  | @commit i p k at_ prog =>
      refine next fun wanted => ?_
      have before := h i p at_ wanted
      rw [prog] at before
      exact before

/-- Without marked steps the exceptions do not occur. -/
theorem Run.avoids (each : ∀ c, Q c → (program c).Avoids E M) {w : World D}
    (run : Relation.ReflTransGen (fun σ τ => Step program σ τ ∧ Unmarked Q E M σ τ) (.init w) σ) :
    ∀ i p, σ.procs i = some p → Q p.call → p.prog.Avoids E M := by
  induction run with
  | refl => exact fun i p at_ => by cases at_
  | tail _ step ih => exact step.1.avoids each step.2 ih

/-- A call that has failed stays so. -/
theorem Run.raised {c : C} {e : D.Error} {l : Local D} (at_ : σ.procs i = some ⟨c, .raise e, l⟩)
    (run : Run program σ τ) : ∃ l', τ.procs i = some ⟨c, .raise e, l'⟩ := by
  induction run with
  | refl => exact ⟨l, at_⟩
  | @tail σ τ _ step ih =>
      obtain ⟨l', at_⟩ := ih
      have other : ∀ {j p}, j ≠ i → (σ.set j p).procs i = some ⟨c, .raise e, l'⟩ := fun differ => by
        rw [Sys.set_procs_ne σ _ differ.symm, at_]
      cases step with
      | spawn j c' free =>
          exact ⟨l', other fun same => by rw [same, at_] at free; cases free⟩
      | tick t _ => exact ⟨l', at_⟩
      | @move j p prog loc there move =>
          by_cases same : j = i
          · subst same
            rw [at_] at there
            cases there
            cases move
            exact ⟨_, Sys.set_procs_self ..⟩
          · exact ⟨l', other same⟩
      | @count j p m k there prog | @commit j p k there prog =>
          refine ⟨l', other fun same => ?_⟩
          rw [same, at_] at there
          cases there
          cases prog

end Runs

end FxEngine.Transactions
