import FxEngine.Transactions.Deadlock
import Mathlib.Data.DFinsupp.WellFounded

/-! # Sessions come to rest

Every statement leaves less of a program, so sessions take only finitely many turns unless
new ones begin; and sessions that wait in order always have a turn to take until all of
them have ended and let go of everything.
-/

namespace FxEngine.Transactions

variable {D : Database} {C α : Type}

namespace Program

/-- What one statement leaves of a program. -/
inductive Rest : Program D α → Program D α → Prop where
  | read {k} (s) : Rest (k s) (.read k)
  | lock {rows k} (s) : Rest (k s) (.lock rows k)
  | write {s k} (r) : Rest (k r) (.write s k)
  | clock {k} (t) : Rest (k t) (.clock k)
  | fault {k} (e) : Rest (k e) (.fault k)
  | commit {k} : Rest k (.commit k)
  | rollback {k} : Rest k (.rollback k)
  | count {m k} : Rest k (.count m k)

theorem rest_wf : WellFounded (Rest : Program D α → Program D α → Prop) := by
  refine ⟨fun p => ?_⟩
  induction p with
  | ret | raise => exact ⟨_, fun _ less => by cases less⟩
  | read k ih | lock rows k ih | write s k ih | clock k ih | fault k ih =>
      exact ⟨_, fun _ less => by cases less; exact ih _⟩
  | commit k ih | rollback k ih | count m k ih => exact ⟨_, fun _ less => by cases less; exact ih⟩

end Program

namespace Proc

/-- Nothing is uncommitted and nothing is held. -/
def Closed (p : Proc D C α) : Prop := p.loc.writes = [] ∧ p.loc.held = []

/-- The call has ended and let go of everything. -/
def Over (p : Proc D C α) : Prop := (∃ r, p.prog = .ofExcept r) ∧ p.Closed

/-- What a turn of the session leaves: less of its program, or a closed session. -/
def Turn (p' p : Proc D C α) : Prop :=
  Program.Rest p'.prog p.prog ∨ p'.prog = p.prog ∧ p'.Closed ∧ ¬ p.Closed

theorem turn_wf : WellFounded (Turn : Proc D C α → Proc D C α → Prop) := by
  have each : ∀ prog : Program D α, ∀ p : Proc D C α, p.prog = prog → Acc Turn p := by
    intro prog
    induction prog using Program.rest_wf.induction with
    | _ prog ih =>
        -- a closed session only has its program left
        have closed : ∀ p : Proc D C α, p.prog = prog → p.Closed → Acc Turn p := by
          rintro p rfl here
          refine ⟨_, fun p' turn => ?_⟩
          obtain less | ⟨-, -, still⟩ := turn
          · exact ih _ less p' rfl
          · exact absurd here still
        rintro p rfl
        refine ⟨_, fun p' turn => ?_⟩
        obtain less | ⟨same, here, -⟩ := turn
        · exact ih _ less p' rfl
        · exact closed p' same here
  exact ⟨fun p => each _ p rfl⟩

end Proc

namespace Sys

/-- One session took a turn and the others did not. -/
def TurnOf (procs' procs : ℕ → Option (Proc D C α)) : Prop :=
  ∃ i p p', procs i = some p ∧ procs' i = some p' ∧ p'.Turn p ∧ ∀ j ≠ i, procs' j = procs j

/-- Finitely many sessions take finitely many turns. -/
theorem turnOf_acc {procs : ℕ → Option (Proc D C α)} (finite : {i | (procs i).isSome}.Finite) :
    Acc TurnOf procs := by
  let Session := {i // (procs i).isSome}
  have : Finite Session := finite
  let less (p' p : Option (Proc D C α)) : Prop := ∃ q' q, p' = some q' ∧ p = some q ∧ q'.Turn q
  have lessWf : WellFounded less := by
    refine ⟨fun p => ?_⟩
    cases p with
    | none => exact ⟨_, fun _ ⟨_, _, _, same, _⟩ => by cases same⟩
    | some p =>
        induction p using Proc.turn_wf.induction with
        | _ p ih =>
            refine ⟨_, fun p' ⟨q', q, same', same, turn⟩ => ?_⟩
            cases same
            subst same'
            exact ih q' turn
  have wf := Pi.Lex.wellFounded (ι := Session) (· < ·) fun _ => lessWf
  have each : ∀ g : Session → Option (Proc D C α), ∀ f : ℕ → Option (Proc D C α), (fun i : Session => f i.1) = g →
      (∀ i, (f i).isSome → (procs i).isSome) → Acc TurnOf f := by
    intro g
    induction g using wf.induction with
    | _ g ih =>
        rintro f rfl known
        refine ⟨_, fun f' ⟨i, p, p', at_, at', turn, others⟩ => ?_⟩
        have here : (procs i).isSome := known i (by rw [at_]; rfl)
        refine ih (fun j => f' j.1) ⟨⟨i, here⟩, fun j before => ?_, p', p, at', at_, turn⟩ f' rfl fun j some => ?_
        · exact others j.1 fun same => (ne_of_lt before) (Subtype.ext same)
        · by_cases same : j = i
          · exact same ▸ here
          · exact known j (others j same ▸ some)
  exact each _ procs rfl fun _ some => some

end Sys

section Runs

variable {program : C → Program D α} {σ τ : Sys D C α}

/-- A move is a turn, unless a session that is over is closed once more. -/
theorem Move.turn {w : World D} {busy : D.Resource → Prop} {p p' : Program D α} {l l' : Local D}
    (move : Move w busy p l p' l') (c : C) :
    ((⟨c, p', l'⟩ : Proc D C α) = ⟨c, p, l⟩ ∧ (⟨c, p, l⟩ : Proc D C α).Over) ∨
      (⟨c, p', l'⟩ : Proc D C α).Turn ⟨c, p, l⟩ := by
  cases move with
  | read => exact .inr (.inl (.read _))
  | lock => exact .inr (.inl (.lock _))
  | write => exact .inr (.inl (.write _))
  | violate => exact .inr (.inl (.write _))
  | clock => exact .inr (.inl (.clock _))
  | proceed => exact .inr (.inl (.fault none))
  | throw e => exact .inr (.inl (.fault (some e)))
  | rollback => exact .inr (.inl .rollback)
  | @closeRet a =>
      by_cases closed : l.writes = [] ∧ l.held = []
      · refine .inl ⟨?_, ⟨.ok a, rfl⟩, closed⟩
        rw [Local.rolledBack, ← closed.1, ← closed.2]
      · exact .inr (.inr ⟨rfl, ⟨rfl, rfl⟩, closed⟩)
  | @closeRaise e =>
      by_cases closed : l.writes = [] ∧ l.held = []
      · refine .inl ⟨?_, ⟨.error e, rfl⟩, closed⟩
        rw [Local.rolledBack, ← closed.1, ← closed.2]
      · exact .inr (.inr ⟨rfl, ⟨rfl, rfl⟩, closed⟩)

/-- Without a new session a step is a turn of one session, or changes none. -/
theorem Step.turn (step : Step program σ τ) (none : ∀ i, σ.procs i = none → τ.procs i = none) :
    τ.procs = σ.procs ∨ Sys.TurnOf τ.procs σ.procs := by
  have same : ∀ {i} {p : Proc D C α}, σ.procs i = some p → (σ.set i p).procs = σ.procs :=
    fun {i p} at_ => by rw [Sys.set, ← at_, Function.update_eq_self]
  cases step with
  | spawn i c free =>
      have := none i free
      rw [Sys.set_procs_self] at this
      cases this
  | tick => exact .inl rfl
  | move i p at_ move =>
      obtain ⟨still, -⟩ | turn := move.turn p.call
      · exact .inl (by rw [still]; exact same at_)
      · exact .inr ⟨i, p, _, at_, Sys.set_procs_self _ _ _, turn, fun j other => Sys.set_procs_ne _ _ other⟩
  | count i p at_ prog =>
      refine .inr ⟨i, p, _, at_, Sys.set_procs_self _ _ _, .inl ?_, fun j other => Sys.set_procs_ne _ _ other⟩
      rw [prog]
      exact .count
  | commit i p at_ prog =>
      refine .inr ⟨i, p, _, at_, Sys.set_procs_self _ _ _, .inl ?_, fun j other => Sys.set_procs_ne _ _ other⟩
      rw [prog]
      exact .commit

/-- No run without new sessions has turns forever. -/
theorem finitely_many_turns (finite : {i | (σ.procs i).isSome}.Finite) : ¬ ∃ run : ℕ → Sys D C α, run 0 = σ ∧
    (∀ n, Step program (run n) (run (n + 1)) ∧ ∀ i, (run n).procs i = none → (run (n + 1)).procs i = none) ∧
    ∀ n, ∃ m ≥ n, Sys.TurnOf (run (m + 1)).procs (run m).procs := by
  rintro ⟨run, rfl, steps, turns⟩
  have never : ∀ procs : ℕ → Option (Proc D C α), Acc Sys.TurnOf procs → ∀ n, (run n).procs ≠ procs := by
    intro procs acc
    induction acc with
    | intro procs acc ih =>
        rintro n rfl
        clear acc
        -- the next turn leads to less
        obtain ⟨m, later, turn⟩ := turns n
        obtain ⟨d, rfl⟩ := Nat.exists_eq_add_of_le later
        clear later
        induction d generalizing n with
        | zero => exact ih _ turn (n + 1) rfl
        | succ d down =>
            obtain ⟨step, none⟩ := steps n
            obtain same | less := step.turn none
            · refine down (n + 1) (same ▸ ih) ?_
              rw [show n + 1 + d = n + (d + 1) by omega]
              exact turn
            · exact ih _ less (n + 1) rfl
  exact never _ (Sys.turnOf_acc finite) 0 rfl

/-- A session that can step takes a turn, unless it is over. -/
theorem Sys.CanStep.turn (program : C → Program D α) {i : ℕ} {p : Proc D C α} (can : σ.CanStep i)
    (at_ : σ.procs i = some p) (open_ : ¬ p.Over) :
    ∃ τ, Step program σ τ ∧ ∃ p', p'.Turn p ∧ τ.procs = (σ.set i p').procs := by
  obtain ⟨p', at', can⟩ := can
  obtain rfl : p = p' := Option.some.inj (at_.symm.trans at')
  obtain ⟨prog, loc, move⟩ | ⟨m, k, prog⟩ | ⟨k, prog⟩ := can
  · obtain ⟨-, ended⟩ | turn := move.turn p.call
    · exact absurd ended open_
    · exact ⟨_, .move i p at_ move, _, turn, rfl⟩
  · refine ⟨_, .count i p at_ prog, _, .inl ?_, rfl⟩
    rw [prog]
    exact .count
  · refine ⟨_, .commit i p at_ prog, _, .inl ?_, rfl⟩
    rw [prog]
    exact .commit

/-- A session stays the session of its call. -/
theorem Step.call (step : Step program σ τ) {i : ℕ} {p : Proc D C α} (at_ : σ.procs i = some p) :
    ∃ p', τ.procs i = some p' ∧ p'.call = p.call := by
  have set : ∀ (j : ℕ) (q q' : Proc D C α), σ.procs j = some q → q'.call = q.call →
      ∃ p', (σ.set j q').procs i = some p' ∧ p'.call = p.call := by
    intro j q q' at' same
    by_cases here : i = j
    · subst here
      rw [at_] at at'
      cases at'
      exact ⟨q', Sys.set_procs_self _ _ _, same⟩
    · exact ⟨p, by rw [Sys.set_procs_ne _ _ here, at_], rfl⟩
  cases step with
  | spawn j c free =>
      have other : i ≠ j := by
        rintro rfl
        rw [at_] at free
        cases free
      exact ⟨p, by rw [Sys.set_procs_ne _ _ other, at_], rfl⟩
  | tick => exact ⟨p, at_, rfl⟩
  | move j q at' => exact set j q _ at' rfl
  | count j q at' => exact set j q _ at' rfl
  | commit j q at' => exact set j q _ at' rfl

theorem Run.call (run : Run program σ τ) {i : ℕ} {p : Proc D C α} (at_ : σ.procs i = some p) :
    ∃ p', τ.procs i = some p' ∧ p'.call = p.call := by
  induction run with
  | refl => exact ⟨p, at_, rfl⟩
  | tail _ step ih =>
      obtain ⟨q, there, same⟩ := ih
      obtain ⟨p', at', same'⟩ := step.call there
      exact ⟨p', at', same'.trans same⟩

variable {P : Protocol D} {S : Spec D C α P} {O : LockOrder D}

/-- While a session is not over, one of them has a turn to take. -/
theorem Sys.Climbing.turn (program : C → Program D α) (h : σ.Climbing P O) (sound : S.Sound σ)
    (finite : {i | (σ.procs i).isSome}.Finite) {i : ℕ} {p : Proc D C α} (at_ : σ.procs i = some p) (open_ : ¬ p.Over) :
    ∃ τ, Step program σ τ ∧ ∃ k q q', σ.procs k = some q ∧ q'.Turn q ∧ τ.procs = (σ.set k q').procs := by
  obtain ⟨k, path, can⟩ := h.canStep sound finite at_
  -- who is waited for holds something
  obtain ⟨q, atK, busy⟩ : ∃ q, σ.procs k = some q ∧ ¬ q.Over := by
    obtain rfl | ⟨c, -, edge⟩ := path.cases_tail
    · exact ⟨p, at_, open_⟩
    · obtain ⟨-, r, -, q, atK, held⟩ := edge
      refine ⟨q, atK, fun ended => ?_⟩
      rw [ended.2.2] at held
      cases held
  obtain ⟨τ, step, q', turn, procs⟩ := can.turn program atK busy
  exact ⟨τ, step, k, q, q', atK, turn, procs⟩

/-- Every system whose sessions wait in order can bring all of them to their end. -/
theorem comes_to_rest (verified : S.Verified program)
    (each : ∀ c w, P.Inv w → P.climbs O (program c) Protocol.anyhow w {}) {start : World D} (inv : P.Inv start)
    (h : Reachable program start σ) : ∃ τ, Run program σ τ ∧ (∀ i, σ.procs i = none → τ.procs i = none) ∧
      ∀ i p, τ.procs i = some p → p.Over := by
  have acc := Sys.turnOf_acc (Reachable.counted h).finite
  generalize begun : σ.procs = procs at acc
  induction acc generalizing σ with
  | intro procs acc ih =>
      clear acc
      subst begun
      by_cases busy : ∃ i p, σ.procs i = some p ∧ ¬ p.Over
      · obtain ⟨i, p, at_, open_⟩ := busy
        obtain ⟨υ, step, k, q, q', atK, turn, after⟩ := (Reachable.climbing verified each inv h).turn program
          (Spec.reachable_sound verified inv h) (Reachable.counted h).finite at_ open_
        have others : ∀ j, j ≠ k → υ.procs j = σ.procs j := fun j other => by
          rw [after, Sys.set_procs_ne _ _ other]
        obtain ⟨τ, run, idle, rest⟩ := ih υ.procs
          ⟨k, q, q', atK, by rw [after, Sys.set_procs_self], turn, others⟩ (h.tail step) rfl
        refine ⟨τ, run.head step, fun j free => idle j ?_, rest⟩
        have other : j ≠ k := by
          rintro rfl
          rw [atK] at free
          cases free
        rw [others j other, free]
      · push Not at busy
        exact ⟨σ, .refl, fun _ free => free, busy⟩

end Runs

end FxEngine.Transactions
