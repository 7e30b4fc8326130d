import FxEngine.Transactions.Counters

/-! # What a session leaves behind on every path

A trail keeps the writes that went through, also those that were rolled back later, and
the counters. What holds of every path through the tree of a program holds of every
session in every run. What the environment may do to a session can be limited: the tables
it sees before it has written anything, and the trails after which a statement may fail.
-/

namespace FxEngine.Transactions

variable {D : Database} {α β : Type}

/-- The writes and the counters of a session, from its first statement on. -/
structure Trail (D : Database) where
  writes : List D.Write := []
  counts : List D.Metric := []

namespace Trail

def wrote (t : Trail D) (w : D.Write) : Trail D := { t with writes := t.writes ++ [w] }

def counted (t : Trail D) (m : D.Metric) : Trail D := { t with counts := t.counts ++ [m] }

theorem counted_ne (t : Trail D) (m : D.Metric) : (t.counted m).counts ≠ [] :=
  List.append_ne_nil_of_right_ne_nil _ (List.cons_ne_nil _ _)

end Trail

/-- What the environment may do to a session. -/
structure Environment (D : Database) where
  shows : D.State → Prop := fun _ => True
  throws : Trail D → Prop := fun _ => True

namespace Program

/-- However the environment answers the statements, the program ends in `Q`. -/
def Ends (V : Environment D) (Q : Except D.Error α → Trail D → Prop) : Program D α → Trail D → Prop
  | .ret a, t => Q (.ok a) t
  | .raise e, t => Q (.error e) t
  | .read k, t | .lock _ k, t => ∀ s, (t.writes = [] → V.shows s) → (k s).Ends V Q t
  | .write w k, t => (∀ s, D.check w s = none → (k (.ok ())).Ends V Q (t.wrote w)) ∧
      ∀ s e, D.check w s = some e → (k (.error e)).Ends V Q t
  | .clock k, t => ∀ now, (k now).Ends V Q t
  | .fault k, t => (k none).Ends V Q t ∧ (V.throws t → ∀ e, (k (some e)).Ends V Q t)
  | .commit k, t | .rollback k, t => k.Ends V Q t
  | .count m k, t => k.Ends V Q (t.counted m)

section Rules

variable {t : Trail D} {V : Environment D}

theorem Ends.mono {Q R : Except D.Error α → Trail D → Prop} {p : Program D α} (h : p.Ends V Q t)
    (weaker : ∀ r t, Q r t → R r t) : p.Ends V R t := by
  induction p generalizing t with
  | ret | raise => exact weaker _ _ h
  | read k ih | lock rows k ih => exact fun s shown => ih s (h s shown)
  | clock k ih => exact fun now => ih now (h now)
  | fault k ih => exact ⟨ih _ h.1, fun may e => ih _ (h.2 may e)⟩
  | write w k ih => exact ⟨fun s free => ih _ (h.1 s free), fun s e refused => ih _ (h.2 s e refused)⟩
  | commit k ih | rollback k ih | count m k ih => exact ih h

/-- What the first program ends in, the second one starts from. -/
def Ends.Next (V : Environment D) (Q : Except D.Error β → Trail D → Prop) (f : α → Program D β)
    (r : Except D.Error α) (t : Trail D) : Prop :=
  match r with
  | .ok a => (f a).Ends V Q t
  | .error e => Q (.error e) t

theorem Ends.bind {Q : Except D.Error β → Trail D → Prop} {p : Program D α} {f : α → Program D β}
    (h : p.Ends V (Ends.Next V Q f) t) : (p >>= f).Ends V Q t := by
  rw [bind_eq]
  induction p generalizing t with
  | ret | raise => exact h
  | read k ih | lock rows k ih => exact fun s shown => ih s (h s shown)
  | clock k ih => exact fun now => ih now (h now)
  | fault k ih => exact ⟨ih _ h.1, fun may e => ih _ (h.2 may e)⟩
  | write w k ih => exact ⟨fun s free => ih _ (h.1 s free), fun s e refused => ih _ (h.2 s e refused)⟩
  | commit k ih | rollback k ih | count m k ih => exact ih h

theorem Ends.attempt {Q : Except D.Error (Except D.Error α) → Trail D → Prop} {p : Program D α}
    (h : p.Ends V (fun r => Q (.ok r)) t) : p.attempt.Ends V Q t := by
  induction p generalizing t with
  | ret | raise => exact h
  | read k ih | lock rows k ih => exact fun s shown => ih s (h s shown)
  | clock k ih => exact fun now => ih now (h now)
  | fault k ih => exact ⟨ih _ h.1, fun may e => ih _ (h.2 may e)⟩
  | write w k ih => exact ⟨fun s free => ih _ (h.1 s free), fun s e refused => ih _ (h.2 s e refused)⟩
  | commit k ih | rollback k ih | count m k ih => exact ih h

theorem ends_rollback {Q : Except D.Error α → Trail D → Prop} {p : Program D α} (h : p.Ends V Q t) :
    (Program.rollback p).Ends V Q t := h

theorem ends_count {Q : Except D.Error α → Trail D → Prop} {m : D.Metric} {p : Program D α}
    (h : p.Ends V Q (t.counted m)) : (Program.count m p).Ends V Q t := h

theorem ends_mayFail {Q : Except D.Error Unit → Trail D → Prop} (err : V.throws t → ∀ e, Q (.error e) t)
    (ok : Q (.ok ()) t) : mayFail.Ends V Q t := ⟨ok, err⟩

theorem ends_select {f : D.State → β} {Q : Except D.Error β → Trail D → Prop} (err : V.throws t → ∀ e, Q (.error e) t)
    (ok : ∀ s, (t.writes = [] → V.shows s) → Q (.ok (f s)) t) : (select f).Ends V Q t :=
  (ends_mayFail err ok).bind

theorem ends_execute {w : D.Write} {Q : Except D.Error Unit → Trail D → Prop} (err : V.throws t → ∀ e, Q (.error e) t)
    (ok : ∀ s, D.check w s = none → Q (.ok ()) (t.wrote w)) (refused : ∀ s e, D.check w s = some e → Q (.error e) t) :
    (execute w).Ends V Q t :=
  Ends.bind (ends_mayFail err ⟨ok, refused⟩)

theorem ends_ite {c : Prop} [Decidable c] {p q : Program D α} {Q : Except D.Error α → Trail D → Prop}
    (yes : c → p.Ends V Q t) (no : ¬ c → q.Ends V Q t) : (if c then p else q).Ends V Q t := by
  split
  · exact yes ‹_›
  · exact no ‹_›

theorem ends_ofExcept {r : Except D.Error α} {Q : Except D.Error α → Trail D → Prop} (h : Q r t) :
    (ofExcept r).Ends V Q t := by
  cases r <;> exact h

/-- Counters that are nowhere in the program are not on its trails. -/
theorem Spares.ends {ms : List D.Metric} {p : Program D α} (spares : ∀ m ∈ ms, p.Spares m)
    (before : ∀ m ∈ ms, m ∉ t.counts) : p.Ends V (fun _ t' => ∀ m ∈ ms, m ∉ t'.counts) t := by
  induction p generalizing t with
  | ret | raise => exact before
  | read k ih | lock rows k ih => exact fun s _ => ih s (fun m member => spares m member s) before
  | clock k ih => exact fun now => ih now (fun m member => spares m member now) before
  | fault k ih =>
      exact ⟨ih _ (fun m member => spares m member _) before, fun _ e => ih _ (fun m member => spares m member _) before⟩
  | write w k ih =>
      exact ⟨fun s _ => ih _ (fun m member => spares m member _) before,
        fun s e _ => ih _ (fun m member => spares m member _) before⟩
  | commit k ih | rollback k ih => exact ih spares before
  | count m' k ih =>
      refine ih (fun m member => (spares m member).2) fun m member counted => ?_
      rcases List.mem_append.mp counted with old | new
      · exact before m member old
      · exact (spares m member).1 (List.mem_singleton.mp new).symm

theorem ends_trivial {p : Program D α} : p.Ends V (fun _ _ => True) t := by
  induction p generalizing t with
  | ret | raise => trivial
  | read k ih | lock rows k ih => exact fun s _ => ih s
  | clock k ih => exact fun now => ih now
  | fault k ih => exact ⟨ih _, fun _ e => ih _⟩
  | write w k ih => exact ⟨fun s _ => ih _, fun s e _ => ih _⟩
  | commit k ih | rollback k ih | count m k ih => exact ih

/-- What was counted stays counted. -/
theorem ends_counted {p : Program D α} (some : t.counts ≠ []) : p.Ends V (fun _ t' => t'.counts ≠ []) t := by
  induction p generalizing t with
  | ret | raise => exact some
  | read k ih | lock rows k ih => exact fun s _ => ih s some
  | clock k ih => exact fun now => ih now some
  | fault k ih => exact ⟨ih _ some, fun _ e => ih _ some⟩
  | write w k ih => exact ⟨fun s _ => ih _ some, fun s e _ => ih _ some⟩
  | commit k ih | rollback k ih => exact ih some
  | count m k ih => exact ih (t.counted_ne m)

/-- What no path counts was not counted so far. -/
theorem Ends.spared {ms : List D.Metric} {p : Program D α} {s : D.State} (shown : V.shows s)
    (h : p.Ends V (fun _ t' => ∀ m ∈ ms, m ∉ t'.counts) t) : ∀ m ∈ ms, m ∉ t.counts := by
  induction p generalizing t with
  | ret | raise => exact h
  | read k ih | lock rows k ih => exact ih s (h s fun _ => shown)
  | write w k ih =>
      cases answer : D.check w s with
      | none => exact ih (t := t.wrote w) (.ok ()) (h.1 s answer)
      | some e => exact ih (.error e) (h.2 s e answer)
  | clock k ih => exact ih 0 (h 0)
  | fault k ih => exact ih none h.1
  | commit k ih | rollback k ih => exact ih h
  | count m k ih => exact fun m' member counted => ih h m' member (List.mem_append_left _ counted)

/-- From there on, an outcome is good enough if it counts at all. -/
theorem Ends.counted {Q : Except D.Error α → Trail D → Prop} {p : Program D α} (enough : ∀ r t, t.counts ≠ [] → Q r t)
    (some : t.counts ≠ []) : p.Ends V Q t :=
  (ends_counted some).mono fun r t some => enough r t some

theorem Ends.Next.counted {Q : Except D.Error β → Trail D → Prop} {f : α → Program D β}
    (enough : ∀ r t, t.counts ≠ [] → Q r t) (r : Except D.Error α) (t : Trail D) (some : t.counts ≠ []) :
    Ends.Next V Q f r t := by
  cases r with
  | ok a => exact Ends.counted enough some
  | error e => exact enough _ t some

/-- Where nothing is asked of exceptions, a first program is as good as any other. -/
theorem Ends.skip {Q : Except D.Error β → Trail D → Prop} {p : Program D α} {f : α → Program D β}
    (err : ∀ e t, Q (.error e) t) (rest : ∀ a t, (f a).Ends V Q t) : (p >>= f).Ends V Q t := by
  refine Ends.bind (ends_trivial.mono fun r t _ => ?_)
  cases r with
  | ok a => exact rest a t
  | error e => exact err e t

end Rules

end Program

/-! ## In the running system -/

section Runs

variable {C : Type} {program : C → Program D α} {V : C → Environment D} {U : C → Local D → Prop}
  {Q : C → Except D.Error α → Trail D → Prop} {σ τ : Sys D C α} {i : ℕ}

/-- Sessions in `U` are on trails after which the environment may throw. -/
def Covers (U : C → Local D → Prop) (V : C → Environment D) : Prop :=
  ∀ c l (t : Trail D), U c l → t.counts = l.counts → l.writes ⊆ t.writes → (V c).throws t

/-- The rest of the session ends as its call does, from a trail with these writes. -/
structure Sys.Trailed (V : C → Environment D) (Q : C → Except D.Error α → Trail D → Prop) (σ : Sys D C α) (i : ℕ)
    (writes : List D.Write) : Prop where
  opened : (σ.procs i).isSome ∨ writes = []
  trail : ∀ p, σ.procs i = some p → ∃ t : Trail D, p.prog.Ends (V p.call) (Q p.call) t ∧ t.counts = p.loc.counts ∧
    p.loc.writes ⊆ t.writes ∧ writes ⊆ t.writes

/-- A move keeps to a path of the program. -/
theorem Move.ends {V : Environment D} {Q : Except D.Error α → Trail D → Prop} {w : World D} {busy : D.Resource → Prop}
    {p p' : Program D α} {l l' : Local D} (move : Move w busy p l p' l') {t : Trail D} (ends : p.Ends V Q t)
    (shown : V.shows w.db) (faults : ∀ k, p = .fault k → p' = k none ∧ l' = l ∨ p' = p ∧ l' = l ∨ V.throws t)
    (counts : t.counts = l.counts) (held : l.writes ⊆ t.writes) :
    ∃ t' : Trail D, p'.Ends V Q t' ∧ t'.counts = l'.counts ∧ l'.writes ⊆ t'.writes ∧ t.writes ⊆ t'.writes := by
  -- who has written nothing sees the committed tables
  have seen : t.writes = [] → V.shows (l.view w.db) := by
    intro none
    rw [none, List.subset_nil] at held
    rw [Local.view, held]
    exact shown
  cases move with
  | read | lock => exact ⟨t, ends _ seen, counts, held, List.Subset.refl _⟩
  | clock => exact ⟨t, ends _, counts, held, List.Subset.refl _⟩
  | @write s _ _ _ free =>
      refine ⟨t.wrote s, ends.1 _ free, counts, ?_, List.subset_append_left _ _⟩
      exact List.append_subset.mpr ⟨List.Subset.trans held (List.subset_append_left _ _), List.subset_append_right _ _⟩
  | violate _ refused => exact ⟨t, ends.2 _ _ refused, counts, List.nil_subset _, List.Subset.refl _⟩
  | proceed => exact ⟨t, ends.1, counts, held, List.Subset.refl _⟩
  | @throw k _ e =>
      have next : (k (some e)).Ends V Q t := by
        rcases faults k rfl with ⟨same, -⟩ | ⟨same, -⟩ | may
        · exact same ▸ ends.1
        · exact same ▸ ends
        · exact ends.2 may e
      exact ⟨t, next, counts, held, List.Subset.refl _⟩
  | rollback | closeRet | closeRaise => exact ⟨t, ends, counts, List.nil_subset _, List.Subset.refl _⟩

/-- So does every step of the system. -/
theorem Step.trailed (each : ∀ c, (program c).Ends (V c) (Q c) {}) (covers : Covers U V) {writes : List D.Write}
    (h : σ.Trailed V Q i writes) (shown : ∀ c, (V c).shows σ.world.db) (step : Step program σ τ)
    (tolerated : Tolerated U σ τ) : τ.Trailed V Q i writes := by
  -- the session itself, or one of the others
  have go : ∀ {σ : Sys D C α} {j : ℕ} {q : Proc D C α}, σ.Trailed V Q i writes →
      (j = i → ∃ t : Trail D, q.prog.Ends (V q.call) (Q q.call) t ∧ t.counts = q.loc.counts ∧ q.loc.writes ⊆ t.writes ∧
        writes ⊆ t.writes) → (σ.set j q).Trailed V Q i writes := by
    intro σ j q before after
    refine ⟨before.opened.imp_left fun there => Sys.isSome_set.mpr (.inr there), fun p at_ => ?_⟩
    by_cases same : j = i
    · subst same
      rw [Sys.set_procs_self] at at_
      cases at_
      exact after rfl
    · exact before.trail p ((Sys.set_procs_ne σ q (Ne.symm same)).symm.trans at_)
  cases step with
  | spawn j c free =>
      refine go h fun same => ⟨{}, each c, rfl, List.Subset.refl _, ?_⟩
      rw [same] at free
      rw [h.opened.resolve_left (by simp [free])]
      exact List.nil_subset _
  | tick => exact ⟨h.opened, h.trail⟩
  | @move j p prog loc at_ move =>
      refine go h fun same => ?_
      obtain ⟨t, ends, counts, held, kept⟩ := h.trail p (same ▸ at_)
      have faults : ∀ k, p.prog = .fault k → prog = k none ∧ loc = p.loc ∨ prog = p.prog ∧ loc = p.loc ∨
          (V p.call).throws t := by
        intro k fault
        have moved := tolerated j p k at_ fault
        rw [Sys.set_procs_self, Option.some.injEq, Option.some.injEq] at moved
        rcases moved with still | goes | inside
        · exact .inr (.inl ⟨congrArg Proc.prog still, congrArg Proc.loc still⟩)
        · exact .inl ⟨congrArg Proc.prog goes, congrArg Proc.loc goes⟩
        · exact .inr (.inr (covers _ _ _ inside counts held))
      obtain ⟨t', ends', counts', held', grown⟩ := move.ends ends (shown _) faults counts held
      exact ⟨t', ends', counts', held', List.Subset.trans kept grown⟩
  | @count j p m k at_ prog =>
      have counted : (σ.set j ⟨p.call, k, p.loc.counted m⟩).Trailed V Q i writes := go h fun same => by
        obtain ⟨t, ends, counts, held, kept⟩ := h.trail p (same ▸ at_)
        rw [prog] at ends
        exact ⟨t.counted m, ends, congrArg (· ++ [m]) counts, held, kept⟩
      exact ⟨counted.opened, counted.trail⟩
  | @commit j p k at_ prog =>
      have committed : (σ.set j ⟨p.call, k, p.loc.committed σ.world.db⟩).Trailed V Q i writes := go h fun same => by
        obtain ⟨t, ends, counts, -, kept⟩ := h.trail p (same ▸ at_)
        rw [prog] at ends
        exact ⟨t, ends, counts, List.nil_subset _, kept⟩
      exact ⟨committed.opened, committed.trail⟩

theorem SparingRun.keeps {start : World D} (each : ∀ c, (program c).Ends (V c) (Q c) {}) (covers : Covers U V)
    (shown : ∀ τ : Sys D C α, Reachable program start τ → ∀ c, (V c).shows τ.world.db) {writes : List D.Write}
    (reached : Reachable program start σ) (h : σ.Trailed V Q i writes) (run : SparingRun program U σ τ) :
    τ.Trailed V Q i writes := by
  induction run with
  | refl => exact h
  | tail before step ih =>
      exact Step.trailed each covers ih (shown _ (Relation.ReflTransGen.trans reached (SparingRun.run before))) step.1 step.2

/-- What a session has written at some moment is on its trail ever after. -/
theorem SparingRun.trailed {start : World D} (each : ∀ c, (program c).Ends (V c) (Q c) {}) (covers : Covers U V)
    (shown : ∀ τ : Sys D C α, Reachable program start τ → ∀ c, (V c).shows τ.world.db)
    (h : SparingRun program U (.init start) σ) (run : SparingRun program U σ τ)
    {p q : Proc D C α} (before : σ.procs i = some p) (after : τ.procs i = some q) :
    ∃ t : Trail D, q.prog.Ends (V q.call) (Q q.call) t ∧ t.counts = q.loc.counts ∧ p.loc.writes ⊆ t.writes := by
  have empty : (Sys.init start : Sys D C α).Trailed V Q i [] := ⟨.inr rfl, fun p at_ => by cases at_⟩
  obtain ⟨-, trail⟩ := SparingRun.keeps each covers shown .refl empty h
  have here : σ.Trailed V Q i p.loc.writes := by
    refine ⟨.inl (by rw [before]; rfl), fun p' at_ => ?_⟩
    obtain rfl : p = p' := Option.some.inj (before.symm.trans at_)
    obtain ⟨t, ends, counts, held, -⟩ := trail p at_
    exact ⟨t, ends, counts, held, held⟩
  obtain ⟨t, ends, counts, -, kept⟩ := (SparingRun.keeps each covers shown h.run here run).trail q after
  exact ⟨t, ends, counts, kept⟩

theorem Reachable.trailed {start : World D} (each : ∀ c, (program c).Ends {} (Q c) {})
    (h : Reachable program start σ) (run : Run program σ τ) {p q : Proc D C α} (before : σ.procs i = some p)
    (after : τ.procs i = some q) :
    ∃ t : Trail D, q.prog.Ends {} (Q q.call) t ∧ t.counts = q.loc.counts ∧ p.loc.writes ⊆ t.writes := by
  have covers : Covers (fun (_ : C) (_ : Local D) => True) fun _ => ({} : Environment D) := fun _ _ _ _ _ _ => trivial
  exact SparingRun.trailed each covers (fun _ _ _ => trivial) (Run.sparing h) (Run.sparing run) before after

end Runs

end FxEngine.Transactions
