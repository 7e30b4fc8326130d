import FxEngine.Transactions.System

/-! # Counters

What a session counts when it runs alone, and how the log of all counters splits
into what each session counted.
-/

namespace FxEngine.Transactions

variable {D : Database} {α β : Type}

namespace Program

/-! ## What a session counts -/

/-- The counters a session increments, in the run of `exec`. -/
def tally : Program D α → Session D → List D.Metric
  | .ret _, _ | .raise _, _ => []
  | .read k, s => (k s.view).tally s
  | .lock _ k, s => (k s.view).tally s
  | .write w k, s =>
      match D.check w s.view with
      | none => (k (.ok ())).tally (s.wrote w)
      | some e => (k (.error e)).tally { s with writes := [] }
  | .clock k, s => (k (s.clock.headD 0)).tally { s with clock := Session.later s.clock }
  | .fault k, s => (k none).tally s
  | .commit k, s => k.tally s.committed
  | .rollback k, s => k.tally { s with writes := [] }
  | .count m k, s => m :: k.tally s

theorem tally_bind (p : Program D α) (f : α → Program D β) (s : Session D) :
    (p >>= f).tally s = p.tally s ++ match p.exec s with
      | (.ok a, s') => (f a).tally s'
      | (.error _, _) => [] := by
  rw [bind_eq]
  induction p generalizing s with
  | ret | raise => rfl
  | read k ih | lock rows k ih | clock k ih | fault k ih => exact ih _ _
  | commit k ih | rollback k ih => exact ih _
  | count m k ih => exact congrArg (m :: ·) (ih s)
  | write w k ih =>
      simp only [Program.bind, exec, tally]
      cases D.check w s.view <;> exact ih _ _

/-- The counter is nowhere in the program. -/
def Spares (m : D.Metric) : Program D α → Prop
  | .ret _ | .raise _ => True
  | .read k | .lock _ k => ∀ s, (k s).Spares m
  | .write _ k => ∀ r, (k r).Spares m
  | .clock k => ∀ t, (k t).Spares m
  | .fault k => ∀ e, (k e).Spares m
  | .commit k | .rollback k => k.Spares m
  | .count m' k => m' ≠ m ∧ k.Spares m

theorem Spares.bind {m : D.Metric} {p : Program D α} {f : α → Program D β} (first : p.Spares m)
    (rest : ∀ a, (f a).Spares m) : (p >>= f).Spares m := by
  induction p with
  | ret a => exact rest a
  | raise => trivial
  | read k ih | lock rows k ih | write w k ih | clock k ih | fault k ih => exact fun x => ih x (first x)
  | commit k ih | rollback k ih => exact ih first
  | count m' k ih => exact ⟨first.1, ih first.2⟩

theorem Spares.attempt {m : D.Metric} {p : Program D α} (h : p.Spares m) : p.attempt.Spares m := by
  induction p with
  | ret | raise => trivial
  | read k ih | lock rows k ih | write w k ih | clock k ih | fault k ih => exact fun x => ih x (h x)
  | commit k ih | rollback k ih => exact ih h
  | count m' k ih => exact ⟨h.1, ih h.2⟩

theorem Spares.forM {γ : Type} {m : D.Metric} {xs : List γ} {f : γ → Program D PUnit} (each : ∀ x, (f x).Spares m) :
    (xs.forM f).Spares m := by
  induction xs with
  | nil => trivial
  | cons x xs ih => exact (each x).bind fun _ => ih

theorem Spares.tally {m : D.Metric} {p : Program D α} (spares : p.Spares m) (s : Session D) : m ∉ p.tally s := by
  induction p generalizing s with
  | ret | raise => exact List.not_mem_nil
  | read k ih | lock rows k ih | clock k ih | fault k ih => exact ih _ (spares _) _
  | commit k ih | rollback k ih => exact ih spares _
  | count m' k ih => exact fun member => (List.mem_cons.mp member).elim (fun same => spares.1 same.symm) (ih spares.2 s)
  | write w k ih =>
      simp only [Program.tally]
      cases D.check w s.view <;> exact ih _ (spares _) _

section Spares

variable {m : D.Metric}

theorem spares_select (f : D.State → β) : (select f : Program D β).Spares m := by
  rintro (_ | e)
  · exact fun _ => trivial
  · trivial

theorem spares_selectForUpdate (rows : D.State → List D.Resource) (f : D.State → β) :
    (selectForUpdate rows f : Program D β).Spares m := by
  rintro (_ | e)
  · exact fun _ => trivial
  · trivial

theorem spares_mayFail : (mayFail : Program D Unit).Spares m := by
  rintro (_ | e) <;> trivial

theorem spares_execute (w : D.Write) : (execute w : Program D Unit).Spares m := by
  rintro (_ | e)
  · rintro (_ | _) <;> trivial
  · trivial

theorem spares_now : (now : Program D Instant).Spares m := fun _ => trivial

theorem spares_commitAll : (commitAll : Program D Unit).Spares m := by
  rintro (_ | e) <;> trivial

theorem spares_inc {m' : D.Metric} (other : m' ≠ m) : (inc m' : Program D Unit).Spares m := ⟨other, trivial⟩

theorem spares_ofExcept (r : Except D.Error α) : (ofExcept r : Program D α).Spares m := by
  cases r <;> trivial

theorem spares_ite {c : Prop} [Decidable c] {p q : Program D α} (yes : c → p.Spares m) (no : ¬ c → q.Spares m) :
    (if c then p else q).Spares m := by
  split
  · exact yes ‹_›
  · exact no ‹_›

end Spares

end Program

/-! ## What all sessions count -/

variable {C : Type} {program : C → Program D α} {σ τ : Sys D C α} {i : ℕ}

namespace Sys

/-- How often a counter was incremented. -/
def counter [DecidableEq D.Metric] (σ : Sys D C α) (m : D.Metric) : ℕ := (σ.metrics.map Prod.snd).count m

/-- What session `i` counted. -/
def countsOf (σ : Sys D C α) (i : ℕ) : List D.Metric := (σ.metrics.filter (·.1 = i)).map Prod.snd

/-- The log of the counters is that of the sessions, of which there are finitely many. -/
structure Counted (σ : Sys D C α) : Prop where
  finite : {i | (σ.procs i).isSome}.Finite
  counts : ∀ {i p}, σ.procs i = some p → p.loc.counts = σ.countsOf i
  owners : ∀ entry ∈ σ.metrics, (σ.procs entry.1).isSome

theorem isSome_set {p : Proc D C α} {j : ℕ} : ((σ.set i p).procs j).isSome ↔ j = i ∨ (σ.procs j).isSome := by
  by_cases same : j = i
  · simp [same]
  · simp [set_procs_ne σ p same, same]

/-- One session goes on and counts what it logs. -/
theorem Counted.set (h : σ.Counted) {p : Proc D C α} (new : List D.Metric)
    (procs : τ.procs = (σ.set i p).procs) (metrics : τ.metrics = σ.metrics ++ new.map (i, ·))
    (counts : p.loc.counts = σ.countsOf i ++ new) : τ.Counted where
  finite := by
    rw [procs]
    exact (h.finite.insert i).subset fun j there => isSome_set.mp there
  counts := by
    intro j q at_
    have split : τ.countsOf j = σ.countsOf j ++ if i = j then new else [] := by
      rw [countsOf, metrics]
      by_cases same : i = j <;> simp [countsOf, List.filter_append, List.filter_map, Function.comp_def, same]
    rw [procs] at at_
    rw [split]
    by_cases same : i = j
    · subst same
      rw [set_procs_self] at at_
      cases at_
      rw [if_pos rfl, counts]
    · rw [set_procs_ne _ _ (Ne.symm same)] at at_
      rw [if_neg same, List.append_nil, h.counts at_]
  owners := by
    intro entry member
    rw [procs, isSome_set]
    rw [metrics] at member
    rcases List.mem_append.mp member with old | added
    · exact .inr (h.owners entry old)
    · obtain ⟨m, -, rfl⟩ := List.mem_map.mp added
      exact .inl rfl

end Sys

theorem Move.counts {w : World D} {busy : D.Resource → Prop} {p p' : Program D α} {l l' : Local D}
    (move : Move w busy p l p' l') : l'.counts = l.counts := by
  cases move <;> rfl

theorem Step.counted (h : σ.Counted) (step : Step program σ τ) : τ.Counted := by
  cases step with
  | spawn i c free =>
      have none : σ.countsOf i = [] := by
        rw [Sys.countsOf, List.map_eq_nil_iff, List.filter_eq_nil_iff]
        intro entry member
        have owned := h.owners entry member
        rw [decide_eq_true_eq]
        intro same
        rw [same, free] at owned
        cases owned
      exact h.set [] rfl (List.append_nil _).symm (by rw [none]; rfl)
  | tick t _ => exact ⟨h.finite, h.counts, h.owners⟩
  | move i p at_ move =>
      exact h.set [] rfl (List.append_nil _).symm (by rw [List.append_nil, ← h.counts at_]; exact move.counts)
  | @count i p m k at_ prog =>
      exact h.set [m] rfl rfl (by rw [← h.counts at_]; rfl)
  | commit i p at_ prog =>
      exact h.set [] rfl (List.append_nil _).symm (by rw [List.append_nil, ← h.counts at_]; rfl)

/-- What no program counts was never counted. -/
theorem Reachable.spared {m : D.Metric} {start : World D} (each : ∀ c, (program c).Spares m)
    (h : Reachable program start σ) : (∀ i p, σ.procs i = some p → p.prog.Spares m) ∧ m ∉ σ.metrics.map Prod.snd := by
  have next : ∀ {σ : Sys D C α} {i : ℕ} {p : Proc D C α}, (∀ i p, σ.procs i = some p → p.prog.Spares m) →
      p.prog.Spares m → ∀ j q, (σ.set i p).procs j = some q → q.prog.Spares m := by
    intro σ i p all here j q at_
    by_cases same : j = i
    · subst same
      rw [Sys.set_procs_self] at at_
      cases at_
      exact here
    · exact all j q (Sys.set_procs_ne σ p same ▸ at_)
  induction h with
  | refl => exact ⟨fun i p at_ => (by cases at_), List.not_mem_nil⟩
  | tail _ step ih =>
      obtain ⟨all, none⟩ := ih
      cases step with
      | spawn i c free => exact ⟨next all (each c), none⟩
      | tick t _ => exact ⟨all, none⟩
      | @move i p prog loc at_ move =>
          have here := all i p at_
          refine ⟨next all ?_, none⟩
          generalize p.prog = before at here move
          cases move with
          | read | lock | write | violate | clock | proceed | throw => exact here _
          | rollback | closeRet | closeRaise => exact here
      | @count i p m' k at_ prog =>
          have here := all i p at_
          rw [prog] at here
          refine ⟨next all here.2, ?_⟩
          simp only [List.map_append, List.map_cons, List.map_nil, List.mem_append, List.mem_singleton, not_or]
          exact ⟨none, here.1.symm⟩
      | commit i p at_ prog =>
          have here := all i p at_
          rw [prog] at here
          exact ⟨next all here, none⟩

/-! ## Totals -/

namespace Sys

/-- How often one of the counters in `P` was incremented. -/
def total (σ : Sys D C α) (P : D.Metric → Bool) : ℕ := (σ.metrics.map Prod.snd).countP P

/-- The sessions that incremented one of the counters, one entry for each time. -/
def incremented (σ : Sys D C α) (P : D.Metric → Bool) : List ℕ := (σ.metrics.filter (P ·.2)).map Prod.fst

theorem incremented_length (σ : Sys D C α) (P : D.Metric → Bool) : (σ.incremented P).length = σ.total P := by
  rw [incremented, total, List.length_map, List.countP_map, List.countP_eq_length_filter]
  rfl

theorem incremented_count (σ : Sys D C α) (P : D.Metric → Bool) (i : ℕ) :
    (σ.incremented P).count i = (σ.countsOf i).countP P := by
  rw [incremented, countsOf, List.count_eq_countP, List.countP_map, List.countP_map, List.countP_filter,
    List.countP_filter]
  refine List.countP_congr fun entry _ => ?_
  simp [and_comm]

/-- What no session counts more often, all sessions together do not. -/
theorem total_le {P Q : D.Metric → Bool} (each : ∀ i, (σ.countsOf i).countP P ≤ (σ.countsOf i).countP Q) :
    σ.total P ≤ σ.total Q := by
  rw [← incremented_length, ← incremented_length]
  refine List.Subperm.length_le (List.subperm_iff_count.mpr fun i => ?_)
  rw [incremented_count, incremented_count]
  exact each i

/-- A counter that each session increments once for each of its commits of a kind. -/
theorem total_eq_commits {P : D.Metric → Bool} {R : Event D C → Bool}
    (each : ∀ i, (σ.countsOf i).countP P = (σ.history.filter (·.pid = i)).countP R) :
    σ.total P = σ.history.countP R := by
  have same : (σ.incremented P).Perm ((σ.history.filter R).map Event.pid) := by
    refine List.perm_iff_count.mpr fun i => ?_
    rw [incremented_count, each, List.count_eq_countP, List.countP_map, List.countP_filter, List.countP_filter]
    refine List.countP_congr fun e _ => ?_
    simp [and_comm]
  rw [← incremented_length, same.length_eq, List.length_map, List.countP_eq_length_filter]

end Sys

theorem Reachable.counted {start : World D} (h : Reachable program start σ) : σ.Counted := by
  induction h with
  | refl => exact ⟨by simp [Sys.init], fun at_ => (by cases at_), fun entry member => (by cases member)⟩
  | tail _ step ih => exact step.counted ih

end FxEngine.Transactions
