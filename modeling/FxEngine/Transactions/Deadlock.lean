import FxEngine.Transactions.Counters
import FxEngine.Transactions.Logic

/-! # Waiting in order

Resources have ranks, and a session only waits for what ranks above everything it holds.
Some resources have a gate instead: whoever holds the gate may acquire them in any order,
because nobody else gets to them. Sessions that keep to this never wait in a circle.
-/

namespace FxEngine.Transactions

variable {D : Database} {C α β : Type}

/-- The order in which resources are acquired. The gate of a resource depends on the
committed tables. -/
structure LockOrder (D : Database) where
  rank : D.Resource → ℕ
  gate : D.State → D.Resource → Option D.Resource

namespace LockOrder

variable (O : LockOrder D)

/-- Who holds a resource with a gate holds the gate. -/
def Gated (s : D.State) (held : List D.Resource) : Prop :=
  ∀ r ∈ held, ∀ g, O.gate s r = some g → g ∈ held

/-- Holding `held`, a session may wait for `r`. -/
def MayWait (s : D.State) (held : List D.Resource) (r : D.Resource) : Prop :=
  r ∈ held ∨ (∃ g ∈ held, O.gate s r = some g) ∨ ∀ r' ∈ held, O.rank r' < O.rank r

/-- Holding `held`, a session may ask for `rows`. -/
def Allows (s : D.State) (held rows : List D.Resource) : Prop :=
  O.Gated s held ∧ ∀ r ∈ rows, O.MayWait s held r

variable {O}

theorem allows_first {s : D.State} {rows : List D.Resource} : O.Allows s [] rows :=
  ⟨nofun, fun _ _ => .inr (.inr nofun)⟩

end LockOrder

namespace Program

/-- What the next statement must own. -/
def needs : Program D α → D.State → List D.Resource
  | .lock rows _, s => rows s
  | .write w _, s => D.claims w s
  | _, _ => []

/-- No statement of the program asks for anything. -/
def Still : Program D α → Prop
  | .ret _ | .raise _ => True
  | .read k => ∀ s, (k s).Still
  | .lock .. | .write .. => False
  | .clock k => ∀ t, (k t).Still
  | .fault k => ∀ e, (k e).Still
  | .commit k | .rollback k | .count _ k => k.Still

theorem Still.bind {p : Program D α} {f : α → Program D β} (first : p.Still) (rest : ∀ a, (f a).Still) :
    (p >>= f).Still := by
  rw [bind_eq]
  induction p with
  | ret a => exact rest a
  | raise => trivial
  | read k ih | clock k ih | fault k ih => exact fun x => ih x (first x)
  | lock | write => exact first.elim
  | commit k ih | rollback k ih | count m k ih => exact ih first

theorem Still.attempt {p : Program D α} (h : p.Still) : p.attempt.Still := by
  induction p with
  | ret | raise => trivial
  | read k ih | clock k ih | fault k ih => exact fun x => ih x (h x)
  | lock | write => exact h.elim
  | commit k ih | rollback k ih | count m k ih => exact ih h

theorem still_select (f : D.State → β) : (select f : Program D β).Still := by
  rintro (_ | e)
  · exact fun _ => trivial
  · trivial

theorem still_mayFail : (mayFail : Program D Unit).Still := by
  rintro (_ | e) <;> trivial

theorem still_now : (now : Program D Instant).Still := fun _ => trivial

theorem still_commitAll : (commitAll : Program D Unit).Still := by
  rintro (_ | e) <;> trivial

theorem still_rollbackAll : (rollbackAll : Program D Unit).Still := trivial

theorem still_inc (m : D.Metric) : (inc m : Program D Unit).Still := trivial

theorem still_ofExcept (r : Except D.Error α) : (ofExcept r : Program D α).Still := by
  cases r <;> trivial

theorem still_ite {c : Prop} [Decidable c] {p q : Program D α} (yes : c → p.Still) (no : ¬ c → q.Still) :
    (if c then p else q).Still := by
  split
  · exact yes ‹_›
  · exact no ‹_›

end Program

namespace Protocol

variable (P : Protocol D) (O : LockOrder D)

/-- The weakest precondition under interference of asking for resources in order. -/
def climbs : Program D α → (Except D.Error α → Assertion D) → Assertion D
  | .ret a, Q, w, l => Q (.ok a) w l
  | .raise e, Q, w, l => Q (.error e) w l
  | .read k, Q, w, l => ∀ w', P.Later l.held w w' → climbs (k (l.view w'.db)) Q w' l
  | .lock rows k, Q, w, l => ∀ w', P.Later l.held w w' →
      O.Allows w'.db l.held (rows (l.view w'.db)) ∧
        climbs (k (l.view w'.db)) Q w' (l.acquire (rows (l.view w'.db)))
  | .write s k, Q, w, l => ∀ w', P.Later l.held w w' →
      O.Allows w'.db l.held (D.claims s (l.view w'.db)) ∧
        (D.check s (l.view w'.db) = none → climbs (k (.ok ())) Q w' (l.wrote s w'.db)) ∧
        ∀ e, D.check s (l.view w'.db) = some e → climbs (k (.error e)) Q w' l.rolledBack
  | .clock k, Q, w, l => ∀ w', P.Later l.held w w' → climbs (k w'.now) Q w' (l.read w'.now)
  | .fault k, Q, w, l => ∀ w', P.Later l.held w w' → ∀ e, climbs (k e) Q w' l
  | .commit k, Q, w, l => ∀ w', P.Later l.held w w' →
      climbs k Q ⟨l.view w'.db, w'.now⟩ (l.committed w'.db)
  | .rollback k, Q, w, l => ∀ w', P.Later l.held w w' → climbs k Q w' l.rolledBack
  | .count m k, Q, w, l => ∀ w', P.Later l.held w w' → climbs k Q w' (l.counted m)

/-- Nothing is asked of the outcome. -/
def anyhow : Except D.Error α → Assertion D := fun _ _ _ => True

/-- Something is asked of the outcome only where it is a value. -/
def onOk (Q : α → Assertion D) : Except D.Error α → Assertion D
  | .ok a => Q a
  | .error _ => fun _ _ => True

variable {P O}

section Rules

variable {w : World D} {l : Local D} {K : Assertion D}

theorem climbs_later {p : Program D α} {w' : World D} (h : P.climbs O p anyhow w l) (later : P.Later l.held w w') :
    P.climbs O p anyhow w' l := by
  cases p with
  | ret | raise => trivial
  | read | lock | write | clock | fault | commit | rollback | count =>
      intro w'' later'
      exact h w'' (later.trans later')

/-- What is proved of the outcome elsewhere is so here. -/
theorem climbs_and {p : Program D α} {Q : Except D.Error α → Assertion D} (h : P.climbs O p anyhow w l)
    (wp : P.wp K p Q w l) : P.climbs O p Q w l := by
  induction p generalizing w l with
  | ret | raise => exact wp
  | read k ih | clock k ih => exact fun w' later => ih _ (h w' later) (wp w' later)
  | lock rows k ih => exact fun w' later => ⟨(h w' later).1, ih _ (h w' later).2 (wp w' later)⟩
  | write s k ih =>
      intro w' later
      obtain ⟨allowed, ok, bad⟩ := h w' later
      exact ⟨allowed, fun none => ih _ (ok none) ((wp w' later).1 none),
        fun e some => ih _ (bad e some) ((wp w' later).2 e some)⟩
  | fault k ih =>
      rintro w' later (_ | e)
      · exact ih _ (h w' later none) (wp w' later).1
      · exact ih _ (h w' later (some e)) ((wp w' later).2 e)
  | commit k ih => exact fun w' later => ih (h w' later) (wp w' later).2
  | rollback k ih | count m k ih => exact fun w' later => ih (h w' later) (wp w' later)

theorem climbs_mono {p : Program D α} {Q R : Except D.Error α → Assertion D} (h : P.climbs O p Q w l)
    (imp : ∀ r w l, Q r w l → R r w l) : P.climbs O p R w l := by
  induction p generalizing w l with
  | ret | raise => exact imp _ _ _ h
  | read k ih | clock k ih => exact fun w' later => ih _ (h w' later)
  | lock rows k ih => exact fun w' later => ⟨(h w' later).1, ih _ (h w' later).2⟩
  | write s k ih =>
      intro w' later
      obtain ⟨allowed, ok, bad⟩ := h w' later
      exact ⟨allowed, fun none => ih _ (ok none), fun e some => ih _ (bad e some)⟩
  | fault k ih => exact fun w' later e => ih e (h w' later e)
  | commit k ih | rollback k ih | count m k ih => exact fun w' later => ih (h w' later)

/-- What asks for nothing holds no more at its end. -/
theorem climbs_still_held {p : Program D α} (still : p.Still) :
    P.climbs O p (fun _ _ l' => l'.held ⊆ l.held) w l := by
  induction p generalizing w l with
  | ret | raise => exact List.Subset.refl _
  | read k ih => exact fun w' _ => ih _ (still _)
  | clock k ih => exact fun w' _ => ih (l := l.read w'.now) _ (still _)
  | lock | write => exact still.elim
  | fault k ih => exact fun w' _ e => ih e (still e)
  | commit k ih | rollback k ih =>
      exact fun w' _ => climbs_mono (ih still) fun _ _ _ sub => List.Subset.trans sub (List.nil_subset _)
  | count m k ih => exact fun w' _ => ih (l := l.counted m) still

theorem climbs_still {p : Program D α} (still : p.Still) : P.climbs O p anyhow w l :=
  climbs_mono (climbs_still_held still) fun _ _ _ _ => trivial

theorem climbs_bind {Q : Except D.Error β → Assertion D} {p : Program D α} {f : α → Program D β}
    (err : ∀ e w l, Q (.error e) w l) (h : P.climbs O p (onOk fun a => P.climbs O (f a) Q) w l) :
    P.climbs O (p >>= f) Q w l := by
  rw [Program.bind_eq]
  induction p generalizing w l with
  | ret a => exact h
  | raise e => exact err e w l
  | read k ih | clock k ih => exact fun w' later => ih _ (h w' later)
  | lock rows k ih => exact fun w' later => ⟨(h w' later).1, ih _ (h w' later).2⟩
  | write s k ih =>
      intro w' later
      obtain ⟨allowed, ok, bad⟩ := h w' later
      exact ⟨allowed, fun none => ih _ (ok none), fun e some => ih _ (bad e some)⟩
  | fault k ih => exact fun w' later e => ih e (h w' later e)
  | commit k ih | rollback k ih | count m k ih => exact fun w' later => ih (h w' later)

theorem climbs_bind_still {p : Program D α} {f : α → Program D β} (h : P.climbs O p anyhow w l)
    (still : ∀ a, (f a).Still) : P.climbs O (p >>= f) anyhow w l := by
  refine climbs_bind (fun _ _ _ => trivial) (climbs_mono h fun r w' l' _ => ?_)
  cases r with
  | ok a => exact climbs_still (still a)
  | error e => trivial

/-- A session that holds nothing still holds nothing after what asks for nothing. -/
theorem climbs_still_bind {p : Program D α} {f : α → Program D β} (still : p.Still) (none : l.held = [])
    (rest : ∀ a w' l', l'.held = [] → P.climbs O (f a) anyhow w' l') : P.climbs O (p >>= f) anyhow w l := by
  refine climbs_bind (fun _ _ _ => trivial) (climbs_mono (climbs_still_held still) fun r w' l' sub => ?_)
  cases r with
  | ok a => exact rest a w' l' (List.subset_nil.mp (none ▸ sub))
  | error e => trivial

theorem climbs_attempt {Q : Except D.Error (Except D.Error α) → Assertion D} {p : Program D α}
    (h : P.climbs O p (fun r => Q (.ok r)) w l) : P.climbs O p.attempt Q w l := by
  induction p generalizing w l with
  | ret | raise => exact h
  | read k ih | clock k ih => exact fun w' later => ih _ (h w' later)
  | lock rows k ih => exact fun w' later => ⟨(h w' later).1, ih _ (h w' later).2⟩
  | write s k ih =>
      intro w' later
      obtain ⟨allowed, ok, bad⟩ := h w' later
      exact ⟨allowed, fun none => ih _ (ok none), fun e some => ih _ (bad e some)⟩
  | fault k ih => exact fun w' later e => ih e (h w' later e)
  | commit k ih | rollback k ih | count m k ih => exact fun w' later => ih (h w' later)

/-- A statement that asks for what it may ask for. -/
theorem climbs_execute {s : D.Write} {Q : Except D.Error Unit → Assertion D}
    (allowed : ∀ w', P.Later l.held w w' → O.Allows w'.db l.held (D.claims s (l.view w'.db)))
    (err : ∀ w' e l', l' = l ∨ l' = l.rolledBack → Q (.error e) w' l')
    (ok : ∀ w', P.Later l.held w w' → D.check s (l.view w'.db) = none → Q (.ok ()) w' (l.wrote s w'.db)) :
    P.climbs O (Program.execute s) Q w l := by
  rintro w' later (_ | e)
  · intro w'' later'
    exact ⟨allowed w'' (later.trans later'), ok w'' (later.trans later'), fun e _ => err w'' e _ (.inr rfl)⟩
  · exact err w' e _ (.inl rfl)

theorem climbs_selectForUpdate {rows : D.State → List D.Resource} {f : D.State → β}
    {Q : Except D.Error β → Assertion D}
    (allowed : ∀ w', P.Later l.held w w' → O.Allows w'.db l.held (rows (l.view w'.db)))
    (err : ∀ w' e, Q (.error e) w' l)
    (ok : ∀ w', P.Later l.held w w' → Q (.ok (f (l.view w'.db))) w' (l.acquire (rows (l.view w'.db)))) :
    P.climbs O (Program.selectForUpdate rows f) Q w l := by
  rintro w' later (_ | e)
  · exact fun w'' later' => ⟨allowed w'' (later.trans later'), ok w'' (later.trans later')⟩
  · exact err w' e

theorem climbs_ofExcept {r : Except D.Error α} {Q : Except D.Error α → Assertion D} (h : Q r w l) :
    P.climbs O (Program.ofExcept r) Q w l := by
  cases r <;> exact h

theorem climbs_ite {c : Prop} [Decidable c] {p q : Program D α} {Q : Except D.Error α → Assertion D}
    (yes : c → P.climbs O p Q w l) (no : ¬ c → P.climbs O q Q w l) : P.climbs O (if c then p else q) Q w l := by
  split
  · exact yes ‹_›
  · exact no ‹_›

end Rules

end Protocol

/-! ## In the running system -/

namespace Sys

/-- What the next statement of session `i` must own. -/
def Wants (σ : Sys D C α) (i : ℕ) (r : D.Resource) : Prop :=
  ∃ p, σ.procs i = some p ∧ r ∈ p.prog.needs (p.loc.view σ.world.db)

/-- Session `i` waits for session `j`. -/
def Waits (σ : Sys D C α) (i j : ℕ) : Prop :=
  j ≠ i ∧ ∃ r, σ.Wants i r ∧ ∃ q, σ.procs j = some q ∧ r ∈ q.loc.held

/-- The next statement of session `i` can run, or the session can be closed. -/
def CanStep (σ : Sys D C α) (i : ℕ) : Prop :=
  ∃ p, σ.procs i = some p ∧ ((∃ prog loc, Move σ.world (σ.busy i) p.prog p.loc prog loc) ∨
    (∃ m k, p.prog = .count m k) ∨ ∃ k, p.prog = .commit k)

/-- Every session asks for resources in order from here on. -/
def Climbing (P : Protocol D) (O : LockOrder D) (σ : Sys D C α) : Prop :=
  ∀ i p, σ.procs i = some p → P.climbs O p.prog Protocol.anyhow σ.world p.loc

/-- Who waits for nobody can go on. -/
theorem canStep_of_free {σ : Sys D C α} {i : ℕ} {p : Proc D C α} (at_ : σ.procs i = some p)
    (free : ∀ j, ¬ σ.Waits i j) : σ.CanStep i := by
  have unclaimed : ∀ r ∈ p.prog.needs (p.loc.view σ.world.db), ¬ σ.busy i r := by
    rintro r needed ⟨j, q, ne, there, held⟩
    exact free j ⟨ne, r, ⟨p, at_, needed⟩, q, there, held⟩
  refine ⟨p, at_, ?_⟩
  generalize p.prog = prog at unclaimed
  cases prog with
  | ret | raise => exact .inl ⟨_, _, by constructor⟩
  | read | clock | rollback => exact .inl ⟨_, _, by constructor⟩
  | fault k => exact .inl ⟨_, _, .proceed⟩
  | lock rows k => exact .inl ⟨_, _, .lock unclaimed⟩
  | write s k =>
      cases checked : D.check s (p.loc.view σ.world.db) with
      | none => exact .inl ⟨_, _, .write unclaimed checked⟩
      | some e => exact .inl ⟨_, _, .violate unclaimed checked⟩
  | commit k => exact .inr (.inr ⟨k, rfl⟩)
  | count m k => exact .inr (.inl ⟨m, k, rfl⟩)

end Sys

section Runs

variable {P : Protocol D} {S : Spec D C α P} {O : LockOrder D} {program : C → Program D α} {σ τ : Sys D C α}

theorem Move.climbs {w : World D} {busy : D.Resource → Prop}
    {p p' : Program D α} {l l' : Local D} (move : Move w busy p l p' l') (inv : P.Inv w)
    (h : P.climbs O p Protocol.anyhow w l) : P.climbs O p' Protocol.anyhow w l' := by
  have here : P.Later l.held w w := .refl inv
  cases move with
  | read | clock | rollback => exact h w here
  | proceed => exact h w here none
  | throw e => exact h w here (some e)
  | lock => exact (h w here).2
  | write _ ok => exact (h w here).2.1 ok
  | violate _ bad => exact (h w here).2.2 _ bad
  | closeRet | closeRaise => trivial

/-- One session goes on, the others only see the world change. -/
theorem Sys.Climbing.set (h : σ.Climbing P O) {i : ℕ} {p : Proc D C α} {w : World D}
    (mine : P.climbs O p.prog Protocol.anyhow w p.loc)
    (others : ∀ j q, j ≠ i → σ.procs j = some q → P.Later q.loc.held σ.world w) :
    ∀ j q, (σ.set i p).procs j = some q → P.climbs O q.prog Protocol.anyhow w q.loc := by
  intro j q at_
  by_cases same : j = i
  · subst same
    rw [Sys.set_procs_self] at at_
    cases at_
    exact mine
  · rw [Sys.set_procs_ne _ _ same] at at_
    exact Protocol.climbs_later (h j q at_) (others j q same at_)

theorem Step.climbing (each : ∀ c w, P.Inv w → P.climbs O (program c) Protocol.anyhow w {}) (sound : S.Sound σ)
    (h : σ.Climbing P O) (step : Step program σ τ) : τ.Climbing P O := by
  have stay : ∀ {i} (j : ℕ) (q : Proc D C α), j ≠ i → σ.procs j = some q → P.Later q.loc.held σ.world σ.world :=
    fun _ _ _ _ => .refl sound.inv
  cases step with
  | spawn i c free => exact h.set (each c _ sound.inv) stay
  | tick t later =>
      intro j q at_
      exact Protocol.climbs_later (h j q at_) ⟨P.refl _ _, later, P.tick sound.inv later⟩
  | move i p at_ move => exact h.set (move.climbs sound.inv (h i p at_)) stay
  | count i p at_ prog =>
      have here := h i p at_
      rw [prog] at here
      exact h.set (here σ.world (.refl sound.inv)) stay
  | commit i p at_ prog =>
      have here := h i p at_
      have verified := sound.verified at_
      rw [prog] at here verified
      obtain ⟨commits, -⟩ := verified σ.world (.refl sound.inv)
      refine h.set (here σ.world (.refl sound.inv)) fun j q other there => ?_
      exact ⟨S.guarantee commits sound.inv (sound.apart other there at_), le_rfl, S.inv commits sound.inv⟩

/-- Sessions that climb one by one climb under every interleaving. -/
theorem Reachable.climbing (verified : S.Verified program)
    (each : ∀ c w, P.Inv w → P.climbs O (program c) Protocol.anyhow w {}) {start : World D} (inv : P.Inv start)
    (h : Reachable program start σ) : σ.Climbing P O := by
  induction h with
  | refl => exact fun i p at_ => by cases at_
  | tail run step ih => exact step.climbing each (Spec.reachable_sound verified inv run) ih

/-- Who wants something may wait for it. -/
theorem Sys.Climbing.allows (h : σ.Climbing P O) (inv : P.Inv σ.world) {i : ℕ} {p : Proc D C α}
    (at_ : σ.procs i = some p) {r : D.Resource} (wants : σ.Wants i r) :
    O.Gated σ.world.db p.loc.held ∧ O.MayWait σ.world.db p.loc.held r := by
  obtain ⟨p', at', needed⟩ := wants
  obtain rfl : p = p' := Option.some.inj (at_.symm.trans at')
  have climbs := h i p at_
  generalize p.prog = prog at climbs needed
  have here : P.Later p.loc.held σ.world σ.world := .refl inv
  cases prog with
  | lock rows k => exact ⟨(climbs σ.world here).1.1, (climbs σ.world here).1.2 r needed⟩
  | write s k => exact ⟨(climbs σ.world here).1.1, (climbs σ.world here).1.2 r needed⟩
  | ret | raise | read | clock | fault | commit | rollback | count => cases needed

/-- Along a chain of waiting sessions the resources they wait for rank higher and higher. -/
theorem Sys.Climbing.rank_lt (h : σ.Climbing P O) (sound : S.Sound σ) {j k : ℕ} {r r' : D.Resource} {q q' : Proc D C α}
    (atJ : σ.procs j = some q) (holds : r ∈ q.loc.held) (wants : σ.Wants j r') (other : k ≠ j)
    (atK : σ.procs k = some q') (holds' : r' ∈ q'.loc.held) (waits : ∃ r, σ.Wants k r) : O.rank r < O.rank r' := by
  obtain ⟨r'', wants'⟩ := waits
  have apart := sound.apart other.symm atJ atK
  obtain ⟨-, own | ⟨g, held, gate⟩ | above⟩ := h.allows sound.inv atJ wants
  · exact absurd holds' (apart own)
  · have gated := (h.allows sound.inv atK wants').1
    exact absurd (gated r' holds' g gate) (apart held)
  · exact above r holds

/-- The first resource of a chain of waiting sessions ranks no higher than the last. -/
theorem Sys.Climbing.chain (h : σ.Climbing P O) (sound : S.Sound σ) {i j : ℕ} (chain : Relation.TransGen σ.Waits i j)
    (waits : ∃ r, σ.Wants j r) :
    ∃ r k q r' q', σ.Wants i r ∧ k ≠ i ∧ σ.procs k = some q ∧ r ∈ q.loc.held ∧ (∃ x, σ.Wants k x) ∧
      σ.procs j = some q' ∧ r' ∈ q'.loc.held ∧ O.rank r ≤ O.rank r' := by
  induction chain using Relation.TransGen.head_induction_on with
  | single edge =>
      obtain ⟨other, r, wants, q, at_, held⟩ := edge
      exact ⟨r, j, q, r, q, wants, other, at_, held, waits, at_, held, le_rfl⟩
  | head edge _ ih =>
      obtain ⟨other, r, wants, q, at_, held⟩ := edge
      obtain ⟨x, k, q', r', q'', wants', other', at', held', more, last, heldLast, le⟩ := ih
      have lt := h.rank_lt sound at_ held wants' other' at' held' more
      exact ⟨r, _, q, r', q'', wants, other, at_, held, ⟨x, wants'⟩, last, heldLast, lt.le.trans le⟩

/-- Nobody waits for itself, directly or not. -/
theorem Sys.Climbing.acyclic (h : σ.Climbing P O) (sound : S.Sound σ) (i : ℕ) :
    ¬ Relation.TransGen σ.Waits i i := by
  intro cycle
  have waits : ∃ r, σ.Wants i r := by
    obtain ⟨_, edge, -⟩ := Relation.TransGen.head'_iff.mp cycle
    obtain ⟨-, r, wants, -⟩ := edge
    exact ⟨r, wants⟩
  obtain ⟨r, k, q, r', q', wants, other, at_, held, more, last, heldLast, le⟩ := h.chain sound cycle waits
  exact absurd (h.rank_lt sound last heldLast wants other at_ held more) (not_lt.mpr le)

/-- Every session can go on, or waits for one that can, perhaps through others. -/
theorem Sys.Climbing.canStep (h : σ.Climbing P O) (sound : S.Sound σ) (finite : {i | (σ.procs i).isSome}.Finite)
    {i : ℕ} {p : Proc D C α} (at_ : σ.procs i = some p) : ∃ k, Relation.ReflTransGen σ.Waits i k ∧ σ.CanStep k := by
  let Session := {i // (σ.procs i).isSome}
  have : Finite Session := finite
  let After : Session → Session → Prop := fun a b => Relation.TransGen σ.Waits b.1 a.1
  have : IsTrans Session After := ⟨fun _ _ _ first second => second.trans first⟩
  have : Std.Irrefl After := ⟨fun a => h.acyclic sound a.1⟩
  have wf : WellFounded After := Finite.wellFounded_of_trans_of_irrefl After
  -- from each session, by induction on the sessions it waits for
  have all : ∀ a : Session, ∃ k, Relation.ReflTransGen σ.Waits a.1 k ∧ σ.CanStep k := by
    intro a
    induction a using wf.induction with
    | _ a ih =>
        obtain ⟨p, there⟩ := Option.isSome_iff_exists.mp a.2
        by_cases free : ∀ j, ¬ σ.Waits a.1 j
        · exact ⟨a.1, .refl, Sys.canStep_of_free there free⟩
        · push Not at free
          obtain ⟨j, waits⟩ := free
          have waits' := waits
          obtain ⟨-, -, -, q, atJ, -⟩ := waits'
          obtain ⟨k, path, can⟩ := ih ⟨j, by rw [atJ]; rfl⟩ (.single waits)
          exact ⟨k, path.head waits, can⟩
  exact all ⟨i, by rw [at_]; rfl⟩

end Runs

end FxEngine.Transactions
