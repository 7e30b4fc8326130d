import FxEngine.Correctness.Engine
import FxEngine.Correctness.LockOrder

/-! # No deadlocks -/

namespace FxEngine

open Transactions Program

namespace Engine

/-- Claimed keys, quotes and balances. -/
def Contended : Resource → Prop
  | .idempotencyKey .. | .quote _ | .balance .. => True
  | _ => False

section Waiting

variable [Platform] [Settings] {start : Instant} {σ : Engine}

/-- Session `i` waits for session `j` over a claimed key, a quote or a balance. -/
def Contends (σ : Engine) (i j : ℕ) : Prop :=
  j ≠ i ∧ ∃ r, Contended r ∧ σ.Wants i r ∧ ∃ q, σ.procs j = some q ∧ r ∈ q.loc.held

omit [Settings] in
theorem Contends.waits {i j : ℕ} (h : Contends σ i j) : σ.Waits i j := by
  obtain ⟨ne, r, -, wants, holds⟩ := h
  exact ⟨ne, r, wants, holds⟩

theorem Reachable.climbing (h : Reachable start σ) : σ.Climbing engine acquisition := by
  have empty : engine.Inv ⟨{}, start⟩ := Invariant.empty
  exact Transactions.Reachable.climbing verified (fun call w _ => program_climbs call w) empty h

/-- Whatever calls run together, no session waits for itself through others, and each can go on
or waits for one that can. -/
theorem Reachable.deadlock_free (h : Reachable start σ) :
    (∀ i, ¬ Relation.TransGen σ.Waits i i) ∧
      ∀ i p, σ.procs i = some p → ∃ k, Relation.ReflTransGen σ.Waits i k ∧ σ.CanStep k :=
  ⟨h.climbing.acyclic h.sound, fun _ _ at_ => h.climbing.canStep h.sound h.counted.finite at_⟩

/-- Waiting over keys, quotes and balances never goes in a circle, and an open session that
cannot go on waits, over whatever it is, for one that can. -/
theorem Reachable.contention_acyclic (h : Reachable start σ) :
    (∀ i, ¬ Relation.TransGen (Contends σ) i i) ∧
      ∀ i p, σ.procs i = some p → σ.CanStep i ∨ ∃ k, Relation.TransGen σ.Waits i k ∧ σ.CanStep k := by
  refine ⟨fun i cycle => h.climbing.acyclic h.sound i
    (Relation.TransGen.mono (fun _ _ (contends : Contends σ _ _) => contends.waits) i i cycle),
    fun i p at_ => ?_⟩
  obtain ⟨k, waits, goes⟩ := h.climbing.canStep h.sound h.counted.finite at_
  rcases Relation.reflTransGen_iff_eq_or_transGen.mp waits with rfl | waits
  · exact .inl goes
  · exact .inr ⟨k, waits, goes⟩

end Waiting

attribute [local instance] Sample.platform Sample.settings

/-- Two requests for the same customer; the second waits for the first. -/
theorem waiting_sample : ∃ (σ : Engine) (p q : Proc fx Call Reply), Reachable 0 σ ∧ σ.procs 0 = some p ∧
    σ.procs 1 = some q ∧ σ.Waits 1 0 := by
  let call : Call := .createCustomer 1
  obtain ⟨k, start, k', insert⟩ : ∃ k, program call = .fault k ∧ ∃ k', k none = .write (.insertCustomer 1) k' :=
    ⟨_, rfl, _, rfl⟩
  let σ₁ : Engine := (Sys.init ⟨{}, 0⟩ : Engine).set 0 ⟨call, program call, {}⟩
  let σ₂ : Engine := σ₁.set 0 ⟨call, k none, {}⟩
  let inserted : Local fx := ({} : Local fx).wrote (Statement.insertCustomer 1) ({} : Tables)
  let σ₃ : Engine := σ₂.set 0 ⟨call, k' (.ok ()), inserted⟩
  let σ₄ : Engine := σ₃.set 1 ⟨call, program call, {}⟩
  let σ₅ : Engine := σ₄.set 1 ⟨call, k none, {}⟩
  have free : ∀ r, ¬ σ₂.busy 0 r := by
    rintro r ⟨j, p, ne, at_, held⟩
    rw [Sys.set_procs_ne _ _ ne, Sys.set_procs_ne _ _ ne] at at_
    cases at_
  have step₁ : Step program (Sys.init ⟨{}, 0⟩) σ₁ := .spawn 0 call rfl
  have step₂ : Step program σ₁ σ₂ := .move 0 ⟨call, program call, {}⟩ rfl (start ▸ .proceed)
  have step₃ : Step program σ₂ σ₃ := .move 0 ⟨call, k none, {}⟩ rfl (insert ▸ .write (fun r _ => free r) rfl)
  have step₄ : Step program σ₃ σ₄ := .spawn 1 call rfl
  have step₅ : Step program σ₄ σ₅ := .move 1 ⟨call, program call, {}⟩ rfl (start ▸ .proceed)
  have reached : Reachable 0 σ₅ := .tail (.tail (.tail (.tail (.tail .refl step₁) step₂) step₃) step₄) step₅
  have waits : σ₅.Waits 1 0 := by
    refine ⟨by decide, .customer 1, ⟨⟨call, k none, {}⟩, rfl, ?_⟩, ⟨call, k' (.ok ()), inserted⟩, rfl, List.mem_cons_self⟩
    dsimp only
    rw [insert]
    exact List.mem_cons_self
  exact ⟨σ₅, _, _, reached, rfl, rfl, waits⟩

/-- The second request waits, and the first can go on. -/
theorem deadlock_free_sample : ∃ σ : Engine, Reachable 0 σ ∧ σ.Waits 1 0 ∧
    ¬ Relation.TransGen σ.Waits 1 1 ∧ ∃ k, Relation.ReflTransGen σ.Waits 1 k ∧ σ.CanStep k := by
  obtain ⟨σ, -, q, reached, -, at_, waits⟩ := waiting_sample
  obtain ⟨acyclic, goes⟩ := reached.deadlock_free
  exact ⟨σ, reached, waits, acyclic 1, goes 1 q at_⟩

/-- Two requests with one key: the second waits for the first, which can go on. -/
theorem contention_acyclic_sample : ∃ (σ : Engine) (p q : Proc fx Call Reply), Reachable 0 σ ∧
    (σ.procs 0 = some p ∧ σ.procs 1 = some q) ∧
    (p.call = .executeQuote 6 5 "k" ∧ q.call = .executeQuote 7 5 "k") ∧ Contends σ 1 0 ∧
    ¬ Relation.TransGen (Contends σ) 1 1 ∧ (σ.CanStep 1 ∨ ∃ k, Relation.TransGen σ.Waits 1 k ∧ σ.CanStep k) := by
  obtain ⟨k, -, claims⟩ := Sample.claiming 6 5 (show "k" ≠ "" by decide)
  obtain ⟨k', -, claims'⟩ := Sample.claiming 7 5 (show "k" ≠ "" by decide)
  obtain ⟨σ₁, run₁, world₁, -, others₁, at₁⟩ := claims (Sys.init ⟨{}, 0⟩) 0 rfl rfl
  let p : Proc fx Call Reply := ⟨.executeQuote 6 5 "k", k (.ok ()),
    ({} : Local fx).wrote (Statement.insertIdempotencyKey (Sample.claimed 5 "k")) σ₁.world.db⟩
  have free : ∀ r, ¬ σ₁.busy 0 r := by
    rintro r ⟨j, q, ne, at_, held⟩
    rw [others₁ j ne] at at_
    cases at_
  have step : Step program σ₁ (σ₁.set 0 p) := .move 0 _ at₁ (.write (fun r _ => free r) (by
    rw [world₁]
    rfl))
  obtain ⟨σ₂, run₂, -, -, others₂, at₂⟩ := claims' (σ₁.set 0 p) 1 world₁ (by
    rw [Sys.set_procs_ne _ _ (by decide), others₁ 1 (by decide)]
    rfl)
  have held : σ₂.procs 0 = some p := (others₂ 0 (by decide)).trans (Sys.set_procs_self ..)
  have contends : Contends σ₂ 1 0 :=
    ⟨by decide, .idempotencyKey executionsEndpoint "k", trivial, ⟨_, at₂, List.mem_cons_self⟩, p, held, List.mem_cons_self⟩
  have reached : Reachable 0 σ₂ := (run₁.run.tail step).trans run₂.run
  obtain ⟨acyclic, goes⟩ := reached.contention_acyclic
  exact ⟨σ₂, p, _, reached, ⟨held, at₂⟩, ⟨rfl, rfl⟩, contends, acyclic 1, goes 1 _ at₂⟩

end Engine

end FxEngine
