import FxEngine.Transactions.Counters

/-! # Counters that follow the tables

Some rows are announced: right after the commit that adds such a row, the session
increments the counter of its kind, and nobody increments it otherwise. Then the counter
and the sessions about to increment it together tell the number of rows.
-/

namespace FxEngine.Transactions

variable {D : Database} {α β : Type}

/-! ## Who is about to count -/

section Counting

variable {C : Type} {σ : Sys D C α} {i : ℕ} {m : D.Metric}

/-- The sessions whose next statement increments the counter. -/
def Sys.counting (σ : Sys D C α) (m : D.Metric) : Set ℕ := {i | ∃ p k, σ.procs i = some p ∧ p.prog = .count m k}

theorem Sys.counting_set_same {p : Proc D C α} {k : Program D α} (next : p.prog = .count m k) :
    (σ.set i p).counting m = insert i (σ.counting m) := by
  ext j
  by_cases same : j = i
  · subst same
    simp [Sys.counting, next]
  · simp [Sys.counting, Sys.set_procs_ne σ p same, same]

theorem Sys.counting_set_other {p : Proc D C α} (next : ∀ k, p.prog ≠ .count m k) :
    (σ.set i p).counting m = σ.counting m \ {i} := by
  ext j
  by_cases same : j = i
  · subst same
    simp [Sys.counting, next]
  · simp [Sys.counting, Sys.set_procs_ne σ p same, same]

theorem Sys.mem_counting {p : Proc D C α} (at_ : σ.procs i = some p) : i ∈ σ.counting m ↔ ∃ k, p.prog = .count m k := by
  simp [Sys.counting, at_]

theorem Sys.finite_counting (finite : {i | (σ.procs i).isSome}.Finite) : (σ.counting m).Finite := by
  refine finite.subset fun i => ?_
  rintro ⟨p, k, at_, -⟩
  simp [at_]

/-- A session that counts nothing before and after leaves the others to it. -/
theorem Sys.counting_set_idle {p q : Proc D C α} (at_ : σ.procs i = some p) (before : ∀ k, p.prog ≠ .count m k)
    (after : ∀ k, q.prog ≠ .count m k) : (σ.set i q).counting m = σ.counting m := by
  rw [Sys.counting_set_other after, Set.sdiff_singleton_eq_self]
  rw [Sys.mem_counting at_]
  rintro ⟨k, next⟩
  exact before k next

end Counting

/-! ## Meters -/

variable [DecidableEq D.Metric]

/-- Counters that follow the tables: which writes ask for which counter, and the rows they add. -/
structure Meter (D : Database) [DecidableEq D.Metric] where
  counters : List D.Metric
  asks : D.Write → Option D.Metric
  rows : D.Metric → D.State → ℕ
  adds : ∀ w s m, rows m (D.apply w s) = rows m s + if asks w = some m then 1 else 0

namespace Meter

/-- What a commit of these writes asks for. -/
def due (M : Meter D) (ws : List D.Write) : List D.Metric := ws.filterMap M.asks

@[simp] theorem due_nil (M : Meter D) : M.due [] = [] := rfl

theorem due_snoc (M : Meter D) (ws : List D.Write) (w : D.Write) :
    M.due (ws ++ [w]) = M.due ws ++ (M.asks w).toList := by
  cases asked : M.asks w <;> simp [due, asked]

theorem rows_overlay (M : Meter D) (m : D.Metric) (ws : List D.Write) (s : D.State) :
    M.rows m (D.overlay ws s) = M.rows m s + (M.due ws).count m := by
  induction ws generalizing s with
  | nil => rfl
  | cons w ws ih =>
      rw [Database.overlay_cons, ih, M.adds, due, due, Nat.add_assoc]
      cases asked : M.asks w with
      | none => simp [asked]
      | some m' => simp only [List.filterMap_cons_some asked, List.count_cons, beq_iff_eq, Option.some.injEq, add_comm]

end Meter

namespace Program

/-- The session increments what its commits ask for, at once, and no other counter that
follows the tables. `due` is what the uncommitted writes ask for, `owed` what the commit
before has asked for; a value is returned in `Q`. -/
def Metered (M : Meter D) (Q : α → List D.Metric → Prop) : Program D α → List D.Metric → Option D.Metric → Prop
  | .ret a, due, owed => owed = none ∧ Q a due
  | .raise _, _, owed => owed = none
  | .read k, due, owed | .lock _ k, due, owed => owed = none ∧ ∀ s, (k s).Metered M Q due none
  | .write w k, due, owed => owed = none ∧ (k (.ok ())).Metered M Q (due ++ (M.asks w).toList) none ∧
      ∀ e, (k (.error e)).Metered M Q [] none
  | .clock k, due, owed => owed = none ∧ ∀ now, (k now).Metered M Q due none
  | .fault k, due, owed => owed = none ∧ ∀ e, (k e).Metered M Q due none
  | .commit k, due, owed => owed = none ∧ due.length ≤ 1 ∧ k.Metered M Q [] due.head?
  | .rollback k, _, owed => owed = none ∧ k.Metered M Q [] none
  | .count m k, due, owed => (owed = some m ∨ owed = none ∧ m ∉ M.counters) ∧ k.Metered M Q due none

section Rules

variable {M : Meter D} {due : List D.Metric} {owed : Option D.Metric}

theorem Metered.mono {Q R : α → List D.Metric → Prop} {p : Program D α} (h : p.Metered M Q due owed)
    (weaker : ∀ a due, Q a due → R a due) : p.Metered M R due owed := by
  induction p generalizing due owed with
  | ret a => exact ⟨h.1, weaker a due h.2⟩
  | raise => exact h
  | read k ih | lock rows k ih | clock k ih | fault k ih => exact ⟨h.1, fun x => ih x (h.2 x)⟩
  | write w k ih => exact ⟨h.1, ih _ h.2.1, fun e => ih _ (h.2.2 e)⟩
  | commit k ih => exact ⟨h.1, h.2.1, ih h.2.2⟩
  | rollback k ih | count m k ih => exact ⟨h.1, ih h.2⟩

theorem Metered.bind {Q : β → List D.Metric → Prop} {p : Program D α} {f : α → Program D β}
    (h : p.Metered M (fun a due => (f a).Metered M Q due none) due owed) : (p >>= f).Metered M Q due owed := by
  rw [bind_eq]
  induction p generalizing due owed with
  | ret a =>
      obtain ⟨rfl, rest⟩ := h
      exact rest
  | raise => exact h
  | read k ih | lock rows k ih | clock k ih | fault k ih => exact ⟨h.1, fun x => ih x (h.2 x)⟩
  | write w k ih => exact ⟨h.1, ih _ h.2.1, fun e => ih _ (h.2.2 e)⟩
  | commit k ih => exact ⟨h.1, h.2.1, ih h.2.2⟩
  | rollback k ih | count m k ih => exact ⟨h.1, ih h.2⟩

theorem Metered.attempt {Q : Except D.Error α → List D.Metric → Prop} {p : Program D α}
    (h : p.Metered M (fun a => Q (.ok a)) due owed) (err : ∀ e due, Q (.error e) due) :
    p.attempt.Metered M Q due owed := by
  induction p generalizing due owed with
  | ret a => exact h
  | raise e => exact ⟨h, err e due⟩
  | read k ih | lock rows k ih | clock k ih | fault k ih => exact ⟨h.1, fun x => ih x (h.2 x)⟩
  | write w k ih => exact ⟨h.1, ih _ h.2.1, fun e => ih _ (h.2.2 e)⟩
  | commit k ih => exact ⟨h.1, h.2.1, ih h.2.2⟩
  | rollback k ih | count m k ih => exact ⟨h.1, ih h.2⟩

/-- A guarded program, and what is made of its outcome. -/
theorem Metered.guarded {Q : β → List D.Metric → Prop} {p : Program D α} {f : Except D.Error α → Program D β}
    (h : p.Metered M (fun a due => (f (.ok a)).Metered M Q due none) due owed)
    (err : ∀ e due, (f (.error e)).Metered M Q due none) : (p.attempt >>= f).Metered M Q due owed :=
  Metered.bind (Metered.attempt h err)

/-- Whatever its writes so far ask for, the program asks for nothing more. -/
def Quiet (M : Meter D) (p : Program D α) : Prop := ∀ due, p.Metered M (fun _ due' => due' = due) due none

theorem Quiet.next {Q : β → List D.Metric → Prop} {p : Program D α} {f : α → Program D β} (first : p.Quiet M)
    (rest : ∀ a, (f a).Metered M Q due none) : (p >>= f).Metered M Q due none :=
  Metered.bind ((first due).mono fun a _ same => same ▸ rest a)

theorem Quiet.bind {p : Program D α} {f : α → Program D β} (first : p.Quiet M) (rest : ∀ a, (f a).Quiet M) :
    (p >>= f).Quiet M :=
  fun due => first.next fun a => rest a due

theorem Quiet.forM {γ : Type} {xs : List γ} {f : γ → Program D PUnit} (each : ∀ x ∈ xs, (f x).Quiet M) :
    (xs.forM f).Quiet M := by
  induction xs with
  | nil => exact fun due => ⟨rfl, rfl⟩
  | cons x xs ih =>
      exact (each x List.mem_cons_self).bind fun _ => ih fun y member => each y (List.mem_cons_of_mem _ member)

theorem quiet_ret (a : α) : (ret a : Program D α).Quiet M := fun _ => ⟨rfl, rfl⟩

theorem quiet_raise (e : D.Error) : (raise e : Program D α).Quiet M := fun _ => rfl

theorem quiet_mayFail : (mayFail : Program D Unit).Quiet M := by
  refine fun due => ⟨rfl, fun e => ?_⟩
  cases e with
  | none => exact ⟨rfl, rfl⟩
  | some e => exact rfl

theorem quiet_select (f : D.State → β) : (select f : Program D β).Quiet M :=
  quiet_mayFail.bind fun _ _ => ⟨rfl, fun _ => ⟨rfl, rfl⟩⟩

theorem quiet_selectForUpdate (rows : D.State → List D.Resource) (f : D.State → β) :
    (selectForUpdate rows f : Program D β).Quiet M :=
  quiet_mayFail.bind fun _ _ => ⟨rfl, fun _ => ⟨rfl, rfl⟩⟩

theorem quiet_now : (now : Program D Instant).Quiet M := fun _ => ⟨rfl, fun _ => ⟨rfl, rfl⟩⟩

theorem quiet_ofExcept (r : Except D.Error α) : (ofExcept r : Program D α).Quiet M := by
  cases r with
  | ok a => exact quiet_ret a
  | error e => exact quiet_raise e

theorem quiet_ite {c : Prop} [Decidable c] {p q : Program D α} (yes : c → p.Quiet M) (no : ¬ c → q.Quiet M) :
    (if c then p else q).Quiet M := by
  split
  · exact yes ‹_›
  · exact no ‹_›

/-- A refusal: the transaction is given up, and only other counters are incremented. -/
theorem quiet_refuse {m : D.Metric} (other : m ∉ M.counters) (e : D.Error) :
    (do rollbackAll; inc m; .raise e : Program D α).Quiet M :=
  fun _ => ⟨rfl, .inr ⟨rfl, other⟩, rfl⟩

theorem metered_execute (w : D.Write) :
    (execute w).Metered M (fun _ due' => due' = due ++ (M.asks w).toList) due none :=
  quiet_mayFail.next fun _ => ⟨rfl, ⟨rfl, rfl⟩, fun _ => rfl⟩

theorem quiet_execute {w : D.Write} (silent : M.asks w = none) : (execute w).Quiet M := fun due =>
  (metered_execute w).mono fun _ _ same => by rw [same, silent, Option.toList_none, List.append_nil]

/-- A commit that asks for nothing. -/
theorem metered_commitAll : commitAll.Metered M (fun _ due' => due' = []) [] none :=
  quiet_mayFail.next fun _ => ⟨rfl, Nat.zero_le _, rfl, rfl⟩

/-- A commit that asks for a counter, and the increment. -/
theorem Metered.announced {Q : β → List D.Metric → Prop} {m : D.Metric} {f : PUnit → Program D β}
    (rest : (f ()).Metered M Q [] none) :
    (commitAll >>= fun _ => inc m >>= f).Metered M Q [m] none := by
  rw [commitAll, bind_bind]
  exact quiet_mayFail.next fun _ => ⟨rfl, Nat.le_refl _, .inl rfl, rest⟩

end Rules

end Program

/-! ## In the running system -/

section Runs

variable {C : Type} {program : C → Program D α} {M : Meter D} {σ τ : Sys D C α} {i : ℕ} {m : D.Metric}

/-- The session keeps to the meter from here on. -/
def Proc.Metered (M : Meter D) (p : Proc D C α) (owed : Option D.Metric) : Prop :=
  p.prog.Metered M (fun _ _ => True) (M.due p.loc.writes) owed

/-- Every session keeps to the meter. -/
def Sys.Metered (M : Meter D) (σ : Sys D C α) : Prop := ∀ i p, σ.procs i = some p → ∃ owed, p.Metered M owed

theorem Sys.Metered.set (h : σ.Metered M) {p : Proc D C α} {owed : Option D.Metric} (here : p.Metered M owed) :
    (σ.set i p).Metered M := by
  intro j q at_
  by_cases same : j = i
  · subst same
    rw [Sys.set_procs_self] at at_
    cases at_
    exact ⟨owed, here⟩
  · exact h j q (Sys.set_procs_ne σ p same ▸ at_)

/-- Who owes nothing counts nothing that follows the tables. -/
theorem Proc.Metered.next {p : Proc D C α} {owed : Option D.Metric} (h : p.Metered M owed) (follows : m ∈ M.counters)
    (other : owed ≠ some m) (k : Program D α) : p.prog ≠ .count m k := by
  intro next
  rw [Proc.Metered, next] at h
  exact h.1.elim other fun free => free.2 follows

/-- Who owes a counter increments it next. -/
theorem Program.Metered.owing {Q : α → List D.Metric → Prop} {p : Program D α} {due : List D.Metric}
    (h : p.Metered M Q due (some m)) : ∃ k, p = .count m k := by
  cases p with
  | count m' k =>
      rcases h.1 with same | ⟨none, -⟩
      · cases same
        exact ⟨k, rfl⟩
      · cases none
  | raise => cases h
  | _ => cases h.1

theorem Move.metered {w : World D} {busy : D.Resource → Prop} {p p' : Program D α} {l l' : Local D}
    (move : Move w busy p l p' l') {owed : Option D.Metric}
    (h : p.Metered M (fun _ _ => True) (M.due l.writes) owed) :
    (∀ m k, p ≠ .count m k) ∧ p'.Metered M (fun _ _ => True) (M.due l'.writes) none := by
  refine ⟨fun m k same => ?_, ?_⟩
  · rw [same] at move
    cases move
  · cases move with
    | read | lock | clock | proceed | throw => exact h.2 _
    | @write s =>
        have written := h.2.1
        rwa [← M.due_snoc] at written
    | violate => exact h.2.2 _
    | rollback => exact h.2
    | closeRet => exact ⟨rfl, trivial⟩
    | closeRaise => exact rfl

/-- The counter and the sessions about to increment it tell the rows added since `start`. -/
structure Sys.Tallied (M : Meter D) (start : D.State) (σ : Sys D C α) : Prop where
  metered : σ.Metered M
  total : ∀ m, m ∈ M.counters → M.rows m σ.world.db = M.rows m start + (σ.counter m + (σ.counting m).ncard)

theorem Step.tallied {start : D.State} (each : ∀ c, (program c).Metered M (fun _ _ => True) [] none)
    (counted : σ.Counted) (h : σ.Tallied M start) (step : Step program σ τ) : τ.Tallied M start := by
  have finite : ∀ m, (σ.counting m).Finite := fun m => Sys.finite_counting counted.finite
  cases step with
  | spawn i c free =>
      have here : (⟨c, program c, {}⟩ : Proc D C α).Metered M none := each c
      refine ⟨h.metered.set here, fun m follows => ?_⟩
      have absent : i ∉ σ.counting m := by
        rintro ⟨p, k, at_, -⟩
        rw [free] at at_
        cases at_
      rw [Sys.counting_set_other (here.next follows (by simp)), Set.sdiff_singleton_eq_self absent]
      exact h.total m follows
  | tick t later => exact ⟨h.metered, h.total⟩
  | @move i p prog loc at_ move =>
      obtain ⟨owed, before⟩ := h.metered i p at_
      obtain ⟨idle, after⟩ := move.metered before
      have here : (⟨p.call, prog, loc⟩ : Proc D C α).Metered M none := after
      refine ⟨h.metered.set here, fun m follows => ?_⟩
      rw [Sys.counting_set_idle at_ (idle m) (here.next follows (by simp))]
      exact h.total m follows
  | @count i p m' k at_ prog =>
      obtain ⟨owed, before⟩ := h.metered i p at_
      have rest := before
      rw [Proc.Metered, prog] at rest
      have here : (⟨p.call, k, p.loc.counted m'⟩ : Proc D C α).Metered M none := rest.2
      refine ⟨fun j q there => h.metered.set here j q there, fun m follows => ?_⟩
      have total := h.total m follows
      have quiet := here.next follows (by simp)
      by_cases same : m' = m
      · subst same
        have inside : i ∈ σ.counting m' := (Sys.mem_counting at_).mpr ⟨k, prog⟩
        have fewer := Set.ncard_sdiff_singleton_add_one inside (finite m')
        have counts : (σ.metrics ++ [(i, m')]).map Prod.snd = σ.metrics.map Prod.snd ++ [m'] := List.map_append
        change M.rows m' σ.world.db = _ + (((σ.metrics ++ [(i, m')]).map Prod.snd).count m' +
          ((σ.set i ⟨p.call, k, p.loc.counted m'⟩).counting m').ncard)
        rw [counts, List.count_append, List.count_singleton_self, Sys.counting_set_other quiet, total, Sys.counter]
        omega
      · have other : ∀ k, p.prog ≠ .count m k := by
          intro k' next
          rw [prog] at next
          cases next
          exact same rfl
        have counts : ((σ.metrics ++ [(i, m')]).map Prod.snd).count m = σ.counter m := by
          rw [List.map_append, List.count_append, Sys.counter]
          simp [same]
        change M.rows m σ.world.db = _ + (((σ.metrics ++ [(i, m')]).map Prod.snd).count m +
          ((σ.set i ⟨p.call, k, p.loc.counted m'⟩).counting m).ncard)
        rw [counts, Sys.counting_set_idle at_ other quiet, total]
  | @commit i p k at_ prog =>
      obtain ⟨owed, before⟩ := h.metered i p at_
      have rest := before
      rw [Proc.Metered, prog] at rest
      obtain ⟨-, single, after⟩ := rest
      have here : (⟨p.call, k, p.loc.committed σ.world.db⟩ : Proc D C α).Metered M (M.due p.loc.writes).head? := after
      refine ⟨fun j q there => h.metered.set here j q there, fun m follows => ?_⟩
      have idle : ∀ k, p.prog ≠ .count m k := fun k' next => by
        rw [prog] at next
        cases next
      have total : M.rows m (p.loc.view σ.world.db) = M.rows m start + (σ.counter m + (σ.counting m).ncard) +
          (M.due p.loc.writes).count m := by
        rw [Local.view, M.rows_overlay, h.total m follows]
      change M.rows m (p.loc.view σ.world.db) = _ + (σ.counter m + ((σ.set i _).counting m).ncard)
      rw [total]
      -- at most one counter is due
      cases asked : M.due p.loc.writes with
      | nil =>
          rw [asked] at here
          rw [Sys.counting_set_idle at_ idle (here.next follows (by simp)), List.count_nil, Nat.add_zero]
      | cons m' others =>
          rw [asked] at here single
          obtain rfl : others = [] := List.eq_nil_of_length_eq_zero (by simpa using single)
          obtain ⟨k', next⟩ := here.owing
          by_cases same : m' = m
          · subst same
            have absent : i ∉ σ.counting m' := fun inside => by
              obtain ⟨k, next⟩ := (Sys.mem_counting at_).mp inside
              exact idle k next
            rw [Sys.counting_set_same next, Set.ncard_insert_of_notMem absent (finite m'), List.count_singleton_self]
            omega
          · have other := here.next follows fun given => same (Option.some.inj given)
            rw [Sys.counting_set_idle at_ idle other, List.count_cons_of_ne same, List.count_nil, Nat.add_zero]

/-- In every reachable state. -/
theorem Reachable.tallied {world : World D} (each : ∀ c, (program c).Metered M (fun _ _ => True) [] none)
    (h : Reachable program world σ) : σ.Tallied M world.db := by
  have both : σ.Counted ∧ σ.Tallied M world.db := by
    induction h with
    | refl =>
        have here : Reachable program world (.init world) := .refl
        refine ⟨here.counted, fun i p at_ => (by cases at_), fun m _ => ?_⟩
        have none : (Sys.init world : Sys D C α).counting m = ∅ := by
          ext i
          simp [Sys.counting, Sys.init]
        rw [none, Set.ncard_empty]
        rfl
    | tail _ step ih => exact ⟨step.counted ih.1, step.tallied each ih.1 ih.2⟩
  exact both.2

end Runs

end FxEngine.Transactions
