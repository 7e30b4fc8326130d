import FxEngine.Transactions.System

/-! # A rely/guarantee logic for sessions

While a session runs, the commits of the others may change the committed tables
at any statement boundary; what it holds limits how (`Protocol.Interfere`).
`wp` is the weakest precondition of a program under that interference, with an
obligation at every commit. `Sound` is the invariant the whole system keeps once
every call is verified on its own: `Spec.reachable_sound` is the only induction
over interleavings.
-/

namespace FxEngine.Transactions

variable {D : Database} {C α β : Type}

/-- An invariant of the committed tables and the clock, and what others may do
to the tables while a session holds the given resources. -/
structure Protocol (D : Database) where
  Inv : World D → Prop
  Interfere : List D.Resource → D.State → D.State → Prop
  refl : ∀ held s, Interfere held s s
  trans : ∀ {held s t u}, Interfere held s t → Interfere held t u → Interfere held s u
  anti : ∀ {held more s t}, held ⊆ more → Interfere more s t → Interfere held s t
  tick : ∀ {w t}, Inv w → w.now ≤ t → Inv ⟨w.db, t⟩

abbrev Assertion (D : Database) := World D → Local D → Prop

namespace Protocol

variable (P : Protocol D)

/-- `w'` is a world the environment may turn `w` into while a session holds `held`. -/
structure Later (held : List D.Resource) (w w' : World D) : Prop where
  interfere : P.Interfere held w.db w'.db
  now : w.now ≤ w'.now
  inv : P.Inv w'

variable {P}

theorem Later.refl {held : List D.Resource} {w : World D} (inv : P.Inv w) : P.Later held w w :=
  ⟨P.refl _ _, le_rfl, inv⟩

theorem Later.trans {held : List D.Resource} {w w' w'' : World D} (h : P.Later held w w')
    (h' : P.Later held w' w'') : P.Later held w w'' :=
  ⟨P.trans h.interfere h'.interfere, h.now.trans h'.now, h'.inv⟩

/-- Holding less, more can happen. -/
theorem Later.anti {held more : List D.Resource} {w w' : World D} (sub : held ⊆ more)
    (h : P.Later more w w') : P.Later held w w' :=
  ⟨P.anti sub h.interfere, h.now, h.inv⟩

theorem Later.of_wrote {l : Local D} {s : D.Write} {db : D.State} {w w' : World D}
    (h : P.Later (l.wrote s db).held w w') : P.Later l.held w w' :=
  h.anti (List.subset_append_right _ _)

theorem Later.of_acquire {l : Local D} {rows : List D.Resource} {w w' : World D}
    (h : P.Later (l.acquire rows).held w w') : P.Later l.held w w' :=
  h.anti (List.subset_append_right _ _)

theorem Later.of_read {l : Local D} {t : Instant} {w w' : World D}
    (h : P.Later (l.read t).held w w') : P.Later l.held w w' := h

variable (P)

/-- `Q` holds when the call is over, and whatever happens afterwards. -/
def settled (Q : Except D.Error α → Assertion D) : Except D.Error α → Assertion D :=
  fun r w l => ∀ w', P.Later [] w w' → Q r w' l

/-- The weakest precondition under interference; `K` must hold at each commit. -/
def wp (K : Assertion D) : Program D α → (Except D.Error α → Assertion D) → Assertion D
  | .ret a, Q, w, l => Q (.ok a) w l
  | .raise e, Q, w, l => Q (.error e) w l
  | .read k, Q, w, l => ∀ w', P.Later l.held w w' → wp K (k (l.view w'.db)) Q w' l
  | .lock rows k, Q, w, l => ∀ w', P.Later l.held w w' →
      wp K (k (l.view w'.db)) Q w' (l.acquire (rows (l.view w'.db)))
  | .write s k, Q, w, l => ∀ w', P.Later l.held w w' →
      (D.check s (l.view w'.db) = none → wp K (k (.ok ())) Q w' (l.wrote s w'.db)) ∧
      ∀ e, D.check s (l.view w'.db) = some e → wp K (k (.error e)) Q w' l.rolledBack
  | .clock k, Q, w, l => ∀ w', P.Later l.held w w' → wp K (k w'.now) Q w' (l.read w'.now)
  | .fault k, Q, w, l => ∀ w', P.Later l.held w w' → wp K (k none) Q w' l ∧ ∀ e, wp K (k (some e)) Q w' l
  | .commit k, Q, w, l => ∀ w', P.Later l.held w w' →
      K w' l ∧ wp K k Q ⟨l.view w'.db, w'.now⟩ (l.committed w'.db)
  | .rollback k, Q, w, l => ∀ w', P.Later l.held w w' → wp K k Q w' l.rolledBack
  | .count m k, Q, w, l => ∀ w', P.Later l.held w w' → wp K k Q w' (l.counted m)

variable {P} {K : Assertion D}

/-! ## Rules -/

/-- Every precondition survives the environment, provided the postcondition does. -/
theorem wp_later {p : Program D α} {Q : Except D.Error α → Assertion D} {w w' : World D} {l : Local D}
    (stable : ∀ r, Q r w l → Q r w' l) (h : P.wp K p Q w l) (later : P.Later l.held w w') :
    P.wp K p Q w' l := by
  cases p with
  | ret | raise => exact stable _ h
  | read | lock | write | clock | fault | commit | rollback | count =>
      intro w'' later'
      exact h w'' (later.trans later')

theorem wp_mono {p : Program D α} {Q R : Except D.Error α → Assertion D} {w : World D} {l : Local D}
    (h : P.wp K p Q w l) (imp : ∀ r w l, Q r w l → R r w l) : P.wp K p R w l := by
  induction p generalizing w l with
  | ret | raise => exact imp _ _ _ h
  | read k ih | lock rows k ih | clock k ih => exact fun w' later => ih _ (h w' later)
  | write s k ih =>
      intro w' later
      exact ⟨fun ok => ih _ ((h w' later).1 ok), fun e bad => ih _ ((h w' later).2 e bad)⟩
  | fault k ih => exact fun w' later => ⟨ih _ (h w' later).1, fun e => ih _ ((h w' later).2 e)⟩
  | commit k ih => exact fun w' later => ⟨(h w' later).1, ih (h w' later).2⟩
  | rollback k ih | count m k ih => exact fun w' later => ih (h w' later)

theorem wp_bind {p : Program D α} {f : α → Program D β} {Q : Except D.Error β → Assertion D}
    {w : World D} {l : Local D}
    (h : P.wp K p (fun r => match r with
      | .ok a => P.wp K (f a) Q
      | .error e => Q (.error e)) w l) : P.wp K (p.bind f) Q w l := by
  induction p generalizing w l with
  | ret | raise => exact h
  | read k ih | lock rows k ih | clock k ih => exact fun w' later => ih _ (h w' later)
  | write s k ih =>
      intro w' later
      exact ⟨fun ok => ih _ ((h w' later).1 ok), fun e bad => ih _ ((h w' later).2 e bad)⟩
  | fault k ih => exact fun w' later => ⟨ih _ (h w' later).1, fun e => ih _ ((h w' later).2 e)⟩
  | commit k ih => exact fun w' later => ⟨(h w' later).1, ih (h w' later).2⟩
  | rollback k ih | count m k ih => exact fun w' later => ih (h w' later)

theorem wp_attempt {p : Program D α} {Q : Except D.Error (Except D.Error α) → Assertion D}
    {w : World D} {l : Local D} (h : P.wp K p (fun r => Q (.ok r)) w l) : P.wp K p.attempt Q w l := by
  induction p generalizing w l with
  | ret | raise => exact h
  | read k ih | lock rows k ih | clock k ih => exact fun w' later => ih _ (h w' later)
  | write s k ih =>
      intro w' later
      exact ⟨fun ok => ih _ ((h w' later).1 ok), fun e bad => ih _ ((h w' later).2 e bad)⟩
  | fault k ih => exact fun w' later => ⟨ih _ (h w' later).1, fun e => ih _ ((h w' later).2 e)⟩
  | commit k ih => exact fun w' later => ⟨(h w' later).1, ih (h w' later).2⟩
  | rollback k ih | count m k ih => exact fun w' later => ih (h w' later)

section Statements

variable {w : World D} {l : Local D}

theorem wp_mayFail {Q : Except D.Error Unit → Assertion D}
    (err : ∀ w' e, P.Later l.held w w' → Q (.error e) w' l) (ok : ∀ w', P.Later l.held w w' → Q (.ok ()) w' l) :
    P.wp K Program.mayFail Q w l :=
  fun w' later => ⟨ok w' later, fun e => err w' e later⟩

theorem wp_select {f : D.State → β} {Q : Except D.Error β → Assertion D}
    (err : ∀ w' e, P.Later l.held w w' → Q (.error e) w' l)
    (ok : ∀ w', P.Later l.held w w' → Q (.ok (f (l.view w'.db))) w' l) :
    P.wp K (Program.select f) Q w l :=
  fun w' later => ⟨fun w'' later' => ok w'' (later.trans later'), fun e => err w' e later⟩

theorem wp_selectForUpdate {rows : D.State → List D.Resource} {f : D.State → β}
    {Q : Except D.Error β → Assertion D} (err : ∀ w' e, P.Later l.held w w' → Q (.error e) w' l)
    (ok : ∀ w', P.Later l.held w w' →
      Q (.ok (f (l.view w'.db))) w' (l.acquire (rows (l.view w'.db)))) :
    P.wp K (Program.selectForUpdate rows f) Q w l :=
  fun w' later => ⟨fun w'' later' => ok w'' (later.trans later'), fun e => err w' e later⟩

theorem wp_execute {s : D.Write} {Q : Except D.Error Unit → Assertion D}
    (err : ∀ w' e, P.Later l.held w w' → Q (.error e) w' l)
    (bad : ∀ w' e, P.Later l.held w w' → D.check s (l.view w'.db) = some e → Q (.error e) w' l.rolledBack)
    (ok : ∀ w', P.Later l.held w w' → D.check s (l.view w'.db) = none → Q (.ok ()) w' (l.wrote s w'.db)) :
    P.wp K (Program.execute s) Q w l := by
  intro w' later
  refine ⟨fun w'' later' => ⟨fun none => ?_, fun e some => ?_⟩, fun e => err w' e later⟩
  · exact ok w'' (later.trans later') none
  · exact bad w'' e (later.trans later') some

theorem wp_now {Q : Except D.Error Instant → Assertion D}
    (ok : ∀ w', P.Later l.held w w' → Q (.ok w'.now) w' (l.read w'.now)) : P.wp K Program.now Q w l :=
  ok

theorem wp_commitAll {Q : Except D.Error Unit → Assertion D}
    (err : ∀ w' e, P.Later l.held w w' → Q (.error e) w' l)
    (ok : ∀ w', P.Later l.held w w' →
      K w' l ∧ Q (.ok ()) ⟨l.view w'.db, w'.now⟩ (l.committed w'.db)) :
    P.wp K Program.commitAll Q w l :=
  fun w' later => ⟨fun w'' later' => ok w'' (later.trans later'), fun e => err w' e later⟩

theorem wp_rollbackAll {Q : Except D.Error Unit → Assertion D}
    (ok : ∀ w', P.Later l.held w w' → Q (.ok ()) w' l.rolledBack) : P.wp K Program.rollbackAll Q w l :=
  ok

theorem wp_inc {m : D.Metric} {Q : Except D.Error Unit → Assertion D}
    (ok : ∀ w', P.Later l.held w w' → Q (.ok ()) w' (l.counted m)) : P.wp K (Program.inc m) Q w l :=
  ok

theorem wp_ite {c : Prop} [Decidable c] {p q : Program D α} {Q : Except D.Error α → Assertion D}
    (yes : c → P.wp K p Q w l) (no : ¬ c → P.wp K q Q w l) : P.wp K (if c then p else q) Q w l := by
  by_cases h : c
  · rw [if_pos h]
    exact yes h
  · rw [if_neg h]
    exact no h

theorem wp_ofExcept {r : Except D.Error α} {Q : Except D.Error α → Assertion D} (h : Q r w l) :
    P.wp K (Program.ofExcept r) Q w l := by
  cases r <;> exact h

end Statements

theorem settled_later {Q : Except D.Error α → Assertion D} {r} {w w' : World D} {l : Local D}
    (h : P.settled Q r w l) (later : P.Later l.held w w') : P.settled Q r w' l :=
  fun w'' later' => h w'' ((later.anti (List.nil_subset _)).trans later')

end Protocol

/-! ## The whole system -/

/-- What each call may commit and how it may end. -/
structure Spec (D : Database) (C α : Type) (P : Protocol D) where
  Commits : C → Assertion D
  Post : C → Except D.Error α → Assertion D
  /-- Closing the session does not matter to the outcome. -/
  closed : ∀ {c r w l}, Post c r w l → Post c r w l.rolledBack
  inv : ∀ {c w l}, Commits c w l → P.Inv w → P.Inv ⟨l.view w.db, w.now⟩
  /-- A commit changes nothing that another session holds. -/
  guarantee : ∀ {c w l held}, Commits c w l → P.Inv w → List.Disjoint held l.held →
    P.Interfere held w.db (l.view w.db)

namespace Spec

variable {P : Protocol D} (S : Spec D C α P) (program : C → Program D α)

/-- Each call meets its specification, from any good world, next to anything. -/
def Verified : Prop :=
  ∀ c w, P.Inv w → P.wp (S.Commits c) (program c) (P.settled (S.Post c)) w {}

/-- The invariant of the running system. -/
structure Sound (σ : Sys D C α) : Prop where
  inv : P.Inv σ.world
  apart : ∀ {i j p q}, i ≠ j → σ.procs i = some p → σ.procs j = some q →
    List.Disjoint p.loc.held q.loc.held
  verified : ∀ {i p}, σ.procs i = some p →
    P.wp (S.Commits p.call) p.prog (P.settled (S.Post p.call)) σ.world p.loc
  events : ∀ e ∈ σ.history, S.Commits e.call e.world e.loc ∧ P.Inv e.world
  owners : ∀ e ∈ σ.history, ∃ p, σ.procs e.pid = some p ∧ p.call = e.call
  logged : ∀ {i p}, σ.procs i = some p →
    p.loc.commits = (σ.history.filter (·.pid = i)).map Event.snapshot

variable {S program}

/-- A move acquires only what is free, and keeps the verification condition. -/
theorem move_spec {w : World D} {busy : D.Resource → Prop} {K : Assertion D}
    {Q : Except D.Error α → Assertion D} {p p' : Program D α} {l l' : Local D}
    (step : Move w busy p l p' l') (inv : P.Inv w) (h : P.wp K p (P.settled Q) w l)
    (closed : ∀ r w l, Q r w l → Q r w l.rolledBack) :
    P.wp K p' (P.settled Q) w l' ∧ (∀ r ∈ l'.held, r ∈ l.held ∨ ¬ busy r) ∧ l'.commits = l.commits := by
  have here : P.Later l.held w w := .refl inv
  cases step with
  | read | clock => exact ⟨h w here, fun r hr => .inl hr, rfl⟩
  | proceed => exact ⟨(h w here).1, fun r hr => .inl hr, rfl⟩
  | throw e => exact ⟨(h w here).2 e, fun r hr => .inl hr, rfl⟩
  | rollback => exact ⟨h w here, fun r hr => by simp at hr, rfl⟩
  | lock free =>
      refine ⟨h w here, fun r hr => ?_, rfl⟩
      exact (List.mem_append.mp hr).elim (fun new => .inr (free r new)) .inl
  | write free ok =>
      refine ⟨(h w here).1 ok, fun r hr => ?_, rfl⟩
      exact (List.mem_append.mp hr).elim (fun new => .inr (free r new)) .inl
  | violate _ bad => exact ⟨(h w here).2 _ bad, fun r hr => by simp at hr, rfl⟩
  | closeRet | closeRaise =>
      exact ⟨fun w' later => closed _ _ _ (h w' later), fun r hr => by simp at hr, rfl⟩

namespace Sound

variable {σ : Sys D C α}

/-- Replacing one session by one that holds nothing of the others keeps the
sessions apart. -/
theorem apart_set (h : S.Sound σ) {i : ℕ} {p : Proc D C α}
    (free : ∀ j q, j ≠ i → σ.procs j = some q → List.Disjoint p.loc.held q.loc.held) :
    ∀ {j k a b}, j ≠ k → (σ.set i p).procs j = some a → (σ.set i p).procs k = some b →
      List.Disjoint a.loc.held b.loc.held := by
  intro j k a b ne atJ atK
  by_cases ji : j = i
  · subst ji
    rw [Sys.set_procs_self] at atJ
    cases atJ
    rw [Sys.set_procs_ne _ _ ne.symm] at atK
    exact free k b ne.symm atK
  · rw [Sys.set_procs_ne _ _ ji] at atJ
    by_cases ki : k = i
    · subst ki
      rw [Sys.set_procs_self] at atK
      cases atK
      exact (free j a ji atJ).symm
    · rw [Sys.set_procs_ne _ _ ki] at atK
      exact h.apart ne atJ atK

theorem owners_set (h : S.Sound σ) {i : ℕ} {p q : Proc D C α} (at_ : σ.procs i = some q)
    (call : p.call = q.call) :
    ∀ e ∈ σ.history, ∃ r, (σ.set i p).procs e.pid = some r ∧ r.call = e.call := by
  intro e member
  obtain ⟨r, atE, same⟩ := h.owners e member
  by_cases ei : e.pid = i
  · rw [ei] at atE ⊢
    rw [at_] at atE
    cases atE
    exact ⟨p, Sys.set_procs_self _ _ _, call.trans same⟩
  · exact ⟨r, by rw [Sys.set_procs_ne _ _ ei]; exact atE, same⟩

/-- A change of one session that leaves world and history alone. -/
theorem local_step (h : S.Sound σ) {i : ℕ} {p q : Proc D C α} (at_ : σ.procs i = some q)
    (call : p.call = q.call) (held : ∀ r ∈ p.loc.held, r ∈ q.loc.held ∨ ¬ σ.busy i r)
    (commits : p.loc.commits = q.loc.commits)
    (wp : P.wp (S.Commits p.call) p.prog (P.settled (S.Post p.call)) σ.world p.loc)
    (metrics : List (ℕ × D.Metric)) : S.Sound { σ.set i p with metrics := metrics } where
  inv := h.inv
  apart := by
    refine h.apart_set fun j r ne atJ x hx hx' => ?_
    rcases held x hx with old | free
    · exact h.apart ne.symm at_ atJ old hx'
    · exact free ⟨j, r, ne, atJ, hx'⟩
  verified := by
    intro j r atJ
    by_cases ji : j = i
    · subst ji
      rw [Sys.set_procs_self] at atJ
      cases atJ
      exact wp
    · rw [Sys.set_procs_ne _ _ ji] at atJ
      exact h.verified atJ
  events := h.events
  owners := h.owners_set at_ call
  logged := by
    intro j r atJ
    by_cases ji : j = i
    · subst ji
      rw [Sys.set_procs_self] at atJ
      cases atJ
      exact commits.trans (h.logged at_)
    · rw [Sys.set_procs_ne _ _ ji] at atJ
      exact h.logged atJ

/-- A session commits: the others see only what the guarantee allows. -/
theorem commit_step (h : S.Sound σ) {i : ℕ} {p : Proc D C α} {k : Program D α}
    (at_ : σ.procs i = some p) (prog : p.prog = .commit k) :
    S.Sound { σ.set i ⟨p.call, k, p.loc.committed σ.world.db⟩ with
      world := ⟨p.loc.view σ.world.db, σ.world.now⟩
      history := σ.history ++ [⟨i, p.call, σ.world, p.loc⟩] } := by
  have verified := h.verified at_
  rw [prog] at verified
  obtain ⟨commits, next⟩ := verified σ.world (.refl h.inv)
  have inv' := S.inv commits h.inv
  refine ⟨inv', ?_, ?_, ?_, ?_, ?_⟩
  · exact h.apart_set fun j q _ _ x hx _ => by simp [Local.committed] at hx
  · intro j q atJ
    by_cases ji : j = i
    · subst ji
      rw [Sys.set_procs_self] at atJ
      cases atJ
      exact next
    · rw [Sys.set_procs_ne _ _ ji] at atJ
      have later : P.Later q.loc.held σ.world ⟨p.loc.view σ.world.db, σ.world.now⟩ :=
        ⟨S.guarantee commits h.inv (h.apart ji atJ at_), le_rfl, inv'⟩
      exact Protocol.wp_later (fun r q => Protocol.settled_later q later) (h.verified atJ) later
  · intro e member
    rcases List.mem_append.mp member with old | new
    · exact h.events e old
    · cases List.mem_singleton.mp new
      exact ⟨commits, h.inv⟩
  · intro e member
    rcases List.mem_append.mp member with old | new
    · exact h.owners_set (p := ⟨p.call, k, p.loc.committed σ.world.db⟩) at_ rfl e old
    · cases List.mem_singleton.mp new
      exact ⟨_, Sys.set_procs_self _ _ _, rfl⟩
  · intro j q atJ
    by_cases ji : j = i
    · subst ji
      rw [Sys.set_procs_self] at atJ
      cases atJ
      simp [Local.committed, h.logged at_, Event.snapshot]
    · rw [Sys.set_procs_ne _ _ ji] at atJ
      simp [h.logged atJ, Ne.symm ji]

theorem step (verified : S.Verified program) (h : S.Sound σ) {τ : Sys D C α}
    (step : Step program σ τ) : S.Sound τ := by
  cases step with
  | spawn i c free =>
      have absent : ∀ e ∈ σ.history, e.pid ≠ i := by
        intro e member same
        obtain ⟨p, at_, _⟩ := h.owners e member
        rw [same, free] at at_
        cases at_
      refine ⟨h.inv, ?_, ?_, h.events, ?_, ?_⟩
      · exact h.apart_set fun j q _ _ x hx _ => by cases hx
      · intro j q atJ
        by_cases ji : j = i
        · subst ji
          rw [Sys.set_procs_self] at atJ
          cases atJ
          exact verified c σ.world h.inv
        · rw [Sys.set_procs_ne _ _ ji] at atJ
          exact h.verified atJ
      · intro e member
        obtain ⟨p, at_, same⟩ := h.owners e member
        exact ⟨p, by rw [Sys.set_procs_ne _ _ (absent e member)]; exact at_, same⟩
      · intro j q atJ
        by_cases ji : j = i
        · subst ji
          rw [Sys.set_procs_self] at atJ
          cases atJ
          have none : σ.history.filter (·.pid = j) = [] := by
            simpa [List.filter_eq_nil_iff] using absent
          simp [none]
        · rw [Sys.set_procs_ne _ _ ji] at atJ
          exact h.logged atJ
  | tick t later =>
      have inv' := P.tick h.inv later
      refine ⟨inv', h.apart, fun {i p} at_ => ?_, h.events, h.owners, h.logged⟩
      have next : P.Later p.loc.held σ.world ⟨σ.world.db, t⟩ := ⟨P.refl _ _, later, inv'⟩
      exact Protocol.wp_later (fun r q => Protocol.settled_later q next) (h.verified at_) next
  | @move i p prog loc at_ move =>
      obtain ⟨wp, held, commits⟩ := move_spec move h.inv (h.verified at_) fun _ _ _ => S.closed
      exact h.local_step (p := ⟨p.call, prog, loc⟩) at_ rfl held commits wp σ.metrics
  | @count i p m k at_ prog =>
      have wp := h.verified at_
      rw [prog] at wp
      exact h.local_step (p := ⟨p.call, k, p.loc.counted m⟩) at_ rfl (fun r hr => .inl hr) rfl
        (wp σ.world (.refl h.inv)) _
  | commit i p at_ prog => exact h.commit_step at_ prog

end Sound

theorem run_sound (verified : S.Verified program) {σ τ : Sys D C α} (h : S.Sound σ)
    (run : Run program σ τ) : S.Sound τ := by
  induction run with
  | refl => exact h
  | tail _ step ih => exact ih.step verified step

theorem init_sound {w : World D} (inv : P.Inv w) : S.Sound (.init w) where
  inv := inv
  apart := fun _ at_ => by cases at_
  verified := fun at_ => by cases at_
  events := fun e member => by cases member
  owners := fun e member => by cases member
  logged := fun at_ => by cases at_

/-- Verified calls keep the system sound under every interleaving. -/
theorem reachable_sound (verified : S.Verified program) {start : World D} (inv : P.Inv start)
    {σ : Sys D C α} (h : Reachable program start σ) : S.Sound σ :=
  run_sound verified (init_sound inv) h

/-- A finished call satisfies its postcondition. -/
theorem Sound.post {σ : Sys D C α} (h : S.Sound σ) {i : ℕ} {p : Proc D C α}
    (at_ : σ.procs i = some p) {r : Except D.Error α}
    (finished : p.prog = Program.ofExcept r) : S.Post p.call r σ.world p.loc := by
  have wp := h.verified at_
  rw [finished] at wp
  have here : P.Later [] σ.world σ.world := .refl h.inv
  cases r <;> exact wp σ.world here

end Spec

end FxEngine.Transactions
