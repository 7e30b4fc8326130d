import FxEngine.Transactions.System

/-! # A session that commits nothing

Its steps can be taken out of a run: the others never see what it wrote, and what
it held only kept them waiting. Once it is over and holds nothing, the runs with it
and the runs without it are the same.
-/

namespace FxEngine.Transactions

variable {D : Database} {C α : Type} {program : C → Program D α} {σ τ : Sys D C α} {i : ℕ}

namespace Sys

/-- The system without session `i`. -/
def erase (σ : Sys D C α) (i : ℕ) : Sys D C α :=
  { σ with
    procs := Function.update σ.procs i none
    metrics := σ.metrics.filter (·.1 ≠ i) }

@[simp] theorem erase_world : (σ.erase i).world = σ.world := rfl
@[simp] theorem erase_history : (σ.erase i).history = σ.history := rfl
@[simp] theorem erase_procs_self : (σ.erase i).procs i = none := by simp [erase]
theorem erase_procs_ne {j : ℕ} (h : j ≠ i) : (σ.erase i).procs j = σ.procs j := by simp [erase, h]

theorem erase_init {w : World D} : (init w : Sys D C α).erase i = init w := by
  simp [erase, init]

/-- What session `i` does is not seen without it. -/
theorem erase_set_self {p : Proc D C α} : (σ.set i p).erase i = σ.erase i := by
  simp [erase, set]

theorem erase_set_ne {j : ℕ} {p : Proc D C α} (h : j ≠ i) : (σ.set j p).erase i = (σ.erase i).set j p := by
  simp only [erase, set, mk.injEq, and_true, true_and]
  exact Function.update_comm h _ _ _

theorem erase_counted {j : ℕ} {p : Proc D C α} {m : D.Metric} (h : j ≠ i) :
    ({ σ.set j p with metrics := σ.metrics ++ [(j, m)] } : Sys D C α).erase i =
      { (σ.erase i).set j p with metrics := (σ.erase i).metrics ++ [(j, m)] } := by
  simp only [erase, set, mk.injEq, true_and]
  exact ⟨Function.update_comm h _ _ _, by simp [List.filter_append, h]⟩

theorem erase_committed {j : ℕ} {p : Proc D C α} {w : World D} {h : List (Event D C)} (ne : j ≠ i) :
    ({ σ.set j p with world := w, history := h } : Sys D C α).erase i =
      { (σ.erase i).set j p with world := w, history := h } := by
  simp only [erase, set, mk.injEq, true_and, and_true]
  exact Function.update_comm ne _ _ _

/-- Fewer sessions hold less. -/
theorem busy_erase {j : ℕ} {r : D.Resource} (h : (σ.erase i).busy j r) : σ.busy j r := by
  obtain ⟨k, p, ne, at_, held⟩ := h
  have ki : k ≠ i := by
    rintro rfl
    rw [erase_procs_self] at at_
    cases at_
  exact ⟨k, p, ne, erase_procs_ne ki ▸ at_, held⟩

/-- A session that holds nothing keeps nobody waiting. -/
theorem busy_of_erase {p : Proc D C α} (at_ : σ.procs i = some p) (idle : p.loc.held = []) {j : ℕ}
    {r : D.Resource} (h : σ.busy j r) : (σ.erase i).busy j r := by
  obtain ⟨k, q, ne, atK, held⟩ := h
  have ki : k ≠ i := by
    rintro rfl
    rw [at_] at atK
    cases atK
    rw [idle] at held
    cases held
  exact ⟨k, q, ne, (erase_procs_ne ki).trans atK, held⟩

end Sys

/-- Waiting for less, a session can do the same. -/
theorem Move.mono {w : World D} {busy busy' : D.Resource → Prop} {p p' : Program D α} {l l' : Local D}
    (h : Move w busy p l p' l') (less : ∀ r, busy' r → busy r) : Move w busy' p l p' l' := by
  cases h with
  | read => exact .read
  | lock free => exact .lock fun r member held => free r member (less r held)
  | write free ok => exact .write (fun r member held => free r member (less r held)) ok
  | violate free bad => exact .violate (fun r member held => free r member (less r held)) bad
  | clock => exact .clock
  | proceed => exact .proceed
  | throw e => exact .throw e
  | rollback => exact .rollback
  | closeRet => exact .closeRet
  | closeRaise => exact .closeRaise

/-! ## Leaving it out -/

/-- Without session `i`, which has not committed, its steps do not happen and the others do. -/
theorem Step.erase (h : Step program σ τ) (quiet : ∀ e ∈ τ.history, e.pid ≠ i) :
    Run program (σ.erase i) (τ.erase i) := by
  cases h with
  | spawn j c free =>
      by_cases ji : j = i
      · rw [ji, Sys.erase_set_self]
      · rw [Sys.erase_set_ne ji]
        exact .single (.spawn j c ((Sys.erase_procs_ne ji).trans free))
  | tick t later => exact .single (.tick (σ := σ.erase i) t later)
  | move j p at_ move =>
      by_cases ji : j = i
      · rw [ji, Sys.erase_set_self]
      · rw [Sys.erase_set_ne ji]
        exact .single (.move j p ((Sys.erase_procs_ne ji).trans at_) (move.mono fun r => Sys.busy_erase))
  | @count j p m k at_ prog =>
      by_cases ji : j = i
      · subst ji
        have same : ({ σ.set j ⟨p.call, k, p.loc.counted m⟩ with
            metrics := σ.metrics ++ [(j, m)] } : Sys D C α).erase j = σ.erase j := by
          simp [Sys.erase, Sys.set]
        rw [same]
      · rw [Sys.erase_counted ji]
        exact .single (.count j p ((Sys.erase_procs_ne ji).trans at_) prog)
  | @commit j p k at_ prog =>
      have ji : j ≠ i := quiet ⟨j, p.call, σ.world, p.loc⟩ (List.mem_append_right _ List.mem_cons_self)
      rw [Sys.erase_committed ji]
      exact .single (.commit (σ := σ.erase i) j p ((Sys.erase_procs_ne ji).trans at_) prog)

theorem Run.erase (h : Run program σ τ) (quiet : ∀ e ∈ τ.history, e.pid ≠ i) :
    Run program (σ.erase i) (τ.erase i) := by
  induction h with
  | refl => exact .refl
  | tail _ step ih =>
      obtain ⟨new, split, -⟩ := step.history
      have before := ih fun e member => quiet e (split ▸ List.mem_append_left _ member)
      exact before.trans (step.erase quiet)

/-- A state that is reached with a session that committed nothing is reached without it. -/
theorem Reachable.erase {start : World D} (h : Reachable program start σ) (quiet : ∀ e ∈ σ.history, e.pid ≠ i) :
    Reachable program start (σ.erase i) := by
  have run := Run.erase h quiet
  rwa [Sys.erase_init] at run

/-! ## A session that is over -/

/-- The call has ended and its session is closed. -/
structure Closed (σ : Sys D C α) (i : ℕ) (p : Proc D C α) : Prop where
  at_ : σ.procs i = some p
  ended : ∃ r, p.prog = Program.ofExcept r
  idle : p.loc.rolledBack = p.loc

/-- It stays as it is. -/
theorem Step.closed {p : Proc D C α} (h : Step program σ τ) (closed : Closed σ i p) : Closed τ i p := by
  obtain ⟨at_, ⟨r, ended⟩, idle⟩ := closed
  refine ⟨?_, ⟨r, ended⟩, idle⟩
  have apart : ∀ {j q}, j ≠ i → (σ.set j q).procs i = some p := fun ji =>
    (Sys.set_procs_ne σ _ (Ne.symm ji)).trans at_
  have here : ∀ {j q}, σ.procs j = some q → j = i → q = p := by
    rintro j q atJ rfl
    exact Option.some.inj (atJ.symm.trans at_)
  cases h with
  | spawn j c free =>
      refine apart ?_
      rintro rfl
      rw [free] at at_
      cases at_
  | tick t later => exact at_
  | @move j q prog loc atJ move =>
      by_cases ji : j = i
      · obtain rfl := here atJ ji
        have same : prog = q.prog ∧ loc = q.loc := by
          rw [ended] at move ⊢
          cases r <;> cases move <;> exact ⟨rfl, idle⟩
        rw [ji, Sys.set_procs_self, same.1, same.2]
      · exact apart ji
  | count j q atJ prog =>
      refine apart fun ji => ?_
      obtain rfl := here atJ ji
      rw [ended] at prog
      cases r <;> cases prog
  | commit j q atJ prog =>
      refine apart fun ji => ?_
      obtain rfl := here atJ ji
      rw [ended] at prog
      cases r <;> cases prog

theorem Run.closed {p : Proc D C α} (h : Run program σ τ) (closed : Closed σ i p) : Closed τ i p := by
  induction h with
  | refl => exact closed
  | tail _ step ih => exact step.closed ih

/-- What the others do without it they do with it. -/
theorem Step.restore {p : Proc D C α} {τ' : Sys D C α} (h : Step program (σ.erase i) τ') (closed : Closed σ i p)
    (absent : τ'.procs i = none) : ∃ τ, Step program σ τ ∧ τ.erase i = τ' := by
  have other : ∀ {j q}, ((σ.erase i).set j q).procs i = none → j ≠ i := by
    rintro j q none rfl
    rw [Sys.set_procs_self] at none
    cases none
  have idle : p.loc.held = [] := congrArg Local.held closed.idle.symm
  generalize eq : σ.erase i = σ' at h
  cases h with
  | spawn j c free =>
      subst eq
      have ji := other absent
      exact ⟨_, .spawn j c ((Sys.erase_procs_ne ji).symm.trans free), Sys.erase_set_ne ji⟩
  | tick t later =>
      subst eq
      exact ⟨_, .tick t later, rfl⟩
  | @move j q prog loc atJ move =>
      subst eq
      have ji := other absent
      refine ⟨_, .move j q ((Sys.erase_procs_ne ji).symm.trans atJ) (move.mono fun r busy => ?_), Sys.erase_set_ne ji⟩
      exact Sys.busy_of_erase closed.at_ idle busy
  | @count j q m k atJ prog =>
      subst eq
      have ji : j ≠ i := other absent
      refine ⟨_, .count j q ((Sys.erase_procs_ne ji).symm.trans atJ) prog, ?_⟩
      exact Sys.erase_counted ji
  | @commit j q k atJ prog =>
      subst eq
      have ji : j ≠ i := other absent
      refine ⟨_, .commit j q ((Sys.erase_procs_ne ji).symm.trans atJ) prog, ?_⟩
      exact Sys.erase_committed ji

/-- A session that is there stays there. -/
theorem Step.stays {j : ℕ} (h : Step program σ τ) (absent : τ.procs j = none) : σ.procs j = none := by
  have set : ∀ {k q}, (σ.set k q).procs j = none → σ.procs j = none := by
    intro k q none
    by_cases jk : j = k
    · rw [jk, Sys.set_procs_self] at none
      cases none
    · rwa [Sys.set_procs_ne _ _ jk] at none
  cases h with
  | tick => exact absent
  | spawn | move | count | commit => exact set absent

theorem Run.restore {p : Proc D C α} {τ' : Sys D C α} (h : Run program (σ.erase i) τ') (closed : Closed σ i p)
    (absent : τ'.procs i = none) : ∃ τ, Run program σ τ ∧ τ.erase i = τ' := by
  induction h with
  | refl => exact ⟨σ, .refl, rfl⟩
  | tail _ step ih =>
      obtain ⟨τ, run, rfl⟩ := ih (step.stays absent)
      obtain ⟨τ₁, last, eq⟩ := step.restore (Run.closed run closed) absent
      exact ⟨τ₁, run.tail last, eq⟩

end FxEngine.Transactions
