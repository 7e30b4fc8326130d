import FxEngine.Transactions.Erasure

/-! # What one party sees

A window shows a part of the tables. The sessions of the party behind it read and write only
what it shows, and all others write only what it does not show. Then a run, seen through the
window, is a run of the party's sessions alone: the others can keep them waiting, nothing else.
-/

namespace FxEngine.Transactions

variable {D : Database} {C α β : Type}

/-- A part of the tables; the rows have to be tidy to tell which belong to it. -/
structure Window (D : Database) where
  see : D.State → D.State
  Tidy : D.State → Prop

/-- A statement of the party (`mine`) acts on the part as it acts on the whole, one of the
others does not act on the part. -/
structure Window.Respects (W : Window D) (mine : Bool) (w : D.Write) : Prop where
  tidy : ∀ s, W.Tidy s → W.Tidy (D.apply w s)
  see : ∀ s, W.Tidy s → W.see (D.apply w s) = if mine then D.apply w (W.see s) else W.see s
  claims : mine = true → ∀ s, W.Tidy s → D.claims w (W.see s) = D.claims w s
  check : mine = true → ∀ s, W.Tidy s → D.check w (W.see s) = D.check w s

namespace Window

variable {W : Window D} {mine : Bool} {ws : List D.Write}

theorem tidy_overlay (each : ∀ w ∈ ws, W.Respects mine w) {s : D.State} (tidy : W.Tidy s) :
    W.Tidy (D.overlay ws s) := by
  induction ws generalizing s with
  | nil => exact tidy
  | cons w ws ih =>
      exact ih (fun v member => each v (List.mem_cons_of_mem _ member)) ((each w List.mem_cons_self).tidy s tidy)

theorem see_overlay (each : ∀ w ∈ ws, W.Respects mine w) {s : D.State} (tidy : W.Tidy s) :
    W.see (D.overlay ws s) = if mine then D.overlay ws (W.see s) else W.see s := by
  induction ws generalizing s with
  | nil => cases mine <;> rfl
  | cons w ws ih =>
      have first := each w List.mem_cons_self
      rw [Database.overlay_cons, ih (fun v member => each v (List.mem_cons_of_mem _ member)) (first.tidy s tidy),
        first.see s tidy]
      cases mine <;> rfl

end Window

namespace Program

/-- What the program of a party reads is shown by its window, and all its statements respect
the window; a value is returned in `Q`. -/
def Respects (W : Window D) (mine : Bool) (Q : α → Prop) : Program D α → Prop
  | .ret a => Q a
  | .raise _ => True
  | .read k => ∀ s, W.Tidy s → (mine = true → k (W.see s) = k s) ∧ (k s).Respects W mine Q
  | .lock rows k => ∀ s, W.Tidy s → (mine = true → rows (W.see s) = rows s ∧ k (W.see s) = k s) ∧
      (k s).Respects W mine Q
  | .write w k => W.Respects mine w ∧ ∀ r, (k r).Respects W mine Q
  | .clock k => ∀ t, (k t).Respects W mine Q
  | .fault k => ∀ e, (k e).Respects W mine Q
  | .commit k | .rollback k | .count _ k => k.Respects W mine Q

section Rules

variable {W : Window D} {mine : Bool} {Q : α → Prop} {R : β → Prop}

theorem Respects.bind {p : Program D α} {f : α → Program D β} (first : p.Respects W mine Q)
    (rest : ∀ a, Q a → (f a).Respects W mine R) : (p >>= f).Respects W mine R := by
  rw [bind_eq]
  induction p with
  | ret a => exact rest a first
  | raise => trivial
  | read k ih =>
      exact fun s tidy => ⟨fun own => congrArg (Program.bind · f) ((first s tidy).1 own), ih s (first s tidy).2⟩
  | lock rows k ih =>
      refine fun s tidy => ⟨fun own => ?_, ih s (first s tidy).2⟩
      obtain ⟨rows, next⟩ := (first s tidy).1 own
      exact ⟨rows, congrArg (Program.bind · f) next⟩
  | write w k ih => exact ⟨first.1, fun r => ih r (first.2 r)⟩
  | clock k ih | fault k ih => exact fun x => ih x (first x)
  | commit k ih | rollback k ih | count m k ih => exact ih first

theorem Respects.attempt {Q : Except D.Error α → Prop} {p : Program D α}
    (h : p.Respects W mine fun a => Q (.ok a)) (err : ∀ e, Q (.error e)) : p.attempt.Respects W mine Q := by
  induction p with
  | ret a => exact h
  | raise e => exact err e
  | read k ih => exact fun s tidy => ⟨fun own => congrArg Program.attempt ((h s tidy).1 own), ih s (h s tidy).2⟩
  | lock rows k ih =>
      refine fun s tidy => ⟨fun own => ?_, ih s (h s tidy).2⟩
      obtain ⟨rows, next⟩ := (h s tidy).1 own
      exact ⟨rows, congrArg Program.attempt next⟩
  | write w k ih => exact ⟨h.1, fun r => ih r (h.2 r)⟩
  | clock k ih | fault k ih => exact fun x => ih x (h x)
  | commit k ih | rollback k ih | count m k ih => exact ih h

theorem respects_mayFail : (mayFail : Program D Unit).Respects W mine fun _ => True := by
  intro e
  cases e <;> trivial

theorem respects_select {f : D.State → β} (shown : mine = true → ∀ s, W.Tidy s → f (W.see s) = f s)
    (found : ∀ s, W.Tidy s → R (f s)) : (select f : Program D β).Respects W mine R :=
  respects_mayFail.bind fun _ _ s tidy => ⟨fun own => congrArg ret (shown own s tidy), found s tidy⟩

theorem respects_selectForUpdate {rows : D.State → List D.Resource} {f : D.State → β}
    (owned : mine = true → ∀ s, W.Tidy s → rows (W.see s) = rows s)
    (shown : mine = true → ∀ s, W.Tidy s → f (W.see s) = f s) (found : ∀ s, W.Tidy s → R (f s)) :
    (selectForUpdate rows f : Program D β).Respects W mine R :=
  respects_mayFail.bind fun _ _ s tidy =>
    ⟨fun own => ⟨owned own s tidy, congrArg ret (shown own s tidy)⟩, found s tidy⟩

theorem respects_execute {w : D.Write} (h : W.Respects mine w) :
    (execute w : Program D Unit).Respects W mine fun _ => True := by
  refine respects_mayFail.bind fun _ _ => ⟨h, fun r => ?_⟩
  cases r <;> trivial

theorem respects_now : (now : Program D Instant).Respects W mine fun _ => True := fun _ => trivial

theorem respects_commitAll : (commitAll : Program D Unit).Respects W mine fun _ => True :=
  respects_mayFail.bind fun _ _ => trivial

theorem respects_ofExcept {r : Except D.Error α} (ok : ∀ a, r = .ok a → Q a) :
    (ofExcept r : Program D α).Respects W mine Q := by
  cases r with
  | ok a => exact ok a rfl
  | error => trivial

theorem respects_forM {γ : Type} {xs : List γ} {f : γ → Program D PUnit}
    (each : ∀ x ∈ xs, (f x).Respects W mine fun _ => True) : (xs.forM f).Respects W mine fun _ => True := by
  induction xs with
  | nil => trivial
  | cons x xs ih =>
      exact (each x List.mem_cons_self).bind fun _ _ => ih fun y member => each y (List.mem_cons_of_mem _ member)

end Rules

end Program

/-! ## The system through the window -/

section Runs

variable {program : C → Program D α} {W : Window D} {mine : ℕ → Bool} {σ τ : Sys D C α} {i : ℕ}

/-- A session with the commits it has made, as the window shows them. -/
def Local.seen (W : Window D) (l : Local D) : Local D :=
  { l with commits := l.commits.map fun s => ⟨W.see s.before, s.writes, s.reads⟩ }

def World.seen (W : Window D) (w : World D) : World D := ⟨W.see w.db, w.now⟩

def Proc.seen (W : Window D) (p : Proc D C α) : Proc D C α := ⟨p.call, p.prog, p.loc.seen W⟩

def Event.seen (W : Window D) (e : Event D C) : Event D C := ⟨e.pid, e.call, e.world.seen W, e.loc.seen W⟩

/-- The party's sessions alone. -/
def Sys.seen (W : Window D) (mine : ℕ → Bool) (σ : Sys D C α) : Sys D C α where
  world := σ.world.seen W
  procs i := if mine i then (σ.procs i).map (Proc.seen W) else none
  history := (σ.history.filter fun e => mine e.pid).map (Event.seen W)
  metrics := σ.metrics.filter fun c => mine c.1

/-- Everyone keeps to the window from here on. -/
structure Sys.Parted (W : Window D) (mine : ℕ → Bool) (σ : Sys D C α) : Prop where
  tidy : W.Tidy σ.world.db
  prog : ∀ i p, σ.procs i = some p → p.prog.Respects W (mine i) fun _ => True
  sent : ∀ i p, σ.procs i = some p → ∀ w ∈ p.loc.writes, W.Respects (mine i) w

theorem Local.tidy_view {l : Local D} {own : Bool} (sent : ∀ w ∈ l.writes, W.Respects own w) {s : D.State}
    (tidy : W.Tidy s) : W.Tidy (l.view s) :=
  Window.tidy_overlay sent tidy

/-- The party's own writes lie on top of what the window shows. -/
theorem Local.view_seen {l : Local D} (sent : ∀ w ∈ l.writes, W.Respects true w) {s : D.State} (tidy : W.Tidy s) :
    (l.seen W).view (W.see s) = W.see (l.view s) :=
  (Window.see_overlay sent tidy).symm

theorem Local.view_other {l : Local D} (sent : ∀ w ∈ l.writes, W.Respects false w) {s : D.State}
    (tidy : W.Tidy s) :
    W.see (l.view s) = W.see s :=
  Window.see_overlay sent tidy

theorem Move.respects {w : World D} {busy : D.Resource → Prop} {p p' : Program D α} {l l' : Local D} {own : Bool}
    (move : Move w busy p l p' l') (tidy : W.Tidy w.db) (h : p.Respects W own fun _ => True)
    (sent : ∀ w ∈ l.writes, W.Respects own w) :
    (p'.Respects W own fun _ => True) ∧ ∀ w ∈ l'.writes, W.Respects own w := by
  cases move with
  | read => exact ⟨(h _ (Local.tidy_view sent tidy)).2, sent⟩
  | lock => exact ⟨(h _ (Local.tidy_view sent tidy)).2, sent⟩
  | write =>
      refine ⟨h.2 _, fun v member => ?_⟩
      rcases List.mem_append.mp member with before | here
      · exact sent v before
      · exact List.mem_singleton.mp here ▸ h.1
  | violate => exact ⟨h.2 _, nofun⟩
  | clock | proceed => exact ⟨h _, sent⟩
  | throw e => exact ⟨h _, sent⟩
  | rollback | closeRet | closeRaise => exact ⟨h, nofun⟩

/-- A session of the party does through its window what it does on the whole tables. -/
theorem Move.seen {w : World D} {busy busy' : D.Resource → Prop} {p p' : Program D α} {l l' : Local D}
    (move : Move w busy p l p' l') (less : ∀ r, busy' r → busy r) (tidy : W.Tidy w.db)
    (h : p.Respects W true fun _ => True) (sent : ∀ w ∈ l.writes, W.Respects true w) :
    Move (w.seen W) busy' p (l.seen W) p' (l'.seen W) := by
  have view : (l.seen W).view (w.seen W).db = W.see (l.view w.db) := Local.view_seen sent tidy
  have tidy' := Local.tidy_view sent tidy
  refine Move.mono ?_ less
  cases move with
  | read =>
      have next := (h _ tidy').1 rfl
      rw [← view] at next
      rw [← next]
      exact .read
  | @lock rows k l free =>
      obtain ⟨owned, next⟩ := (h _ tidy').1 rfl
      rw [← view] at owned next
      have locked : (l.acquire (rows (l.view w.db))).seen W =
          (l.seen W).acquire (rows ((l.seen W).view (w.seen W).db)) := by
        rw [owned]
        rfl
      rw [← next, locked]
      exact .lock fun r member => free r (owned ▸ member)
  | @write s k l free ok =>
      have claims := h.1.claims rfl _ tidy'
      have check := h.1.check rfl _ tidy'
      rw [← view] at claims check
      have wrote : (l.wrote s w.db).seen W = (l.seen W).wrote s (w.seen W).db := by
        rw [Local.wrote, ← claims]
        rfl
      rw [wrote]
      exact .write (fun r member => free r (claims ▸ member)) (check.trans ok)
  | @violate s k l e free bad =>
      have claims := h.1.claims rfl _ tidy'
      have check := h.1.check rfl _ tidy'
      rw [← view] at claims check
      exact .violate (fun r member => free r (claims ▸ member)) (check.trans bad)
  | clock => exact .clock
  | proceed => exact .proceed
  | throw e => exact .throw e
  | rollback => exact .rollback
  | closeRet => exact .closeRet
  | closeRaise => exact .closeRaise

namespace Sys

theorem seen_procs {p : Proc D C α} (own : mine i = true) (at_ : σ.procs i = some p) :
    (σ.seen W mine).procs i = some (p.seen W) := by
  simp [seen, own, at_]

theorem seen_free (free : σ.procs i = none) : (σ.seen W mine).procs i = none := by
  simp [seen, free]

/-- Fewer sessions hold less. -/
theorem busy_seen {r : D.Resource} (h : (σ.seen W mine).busy i r) : σ.busy i r := by
  obtain ⟨j, q, ne, at_, held⟩ := h
  simp only [seen, Option.ite_none_right_eq_some, Option.map_eq_some_iff] at at_
  obtain ⟨-, p, there, rfl⟩ := at_
  exact ⟨j, p, ne, there, held⟩

theorem seen_set_mine {p : Proc D C α} (own : mine i = true) :
    (σ.set i p).seen W mine = (σ.seen W mine).set i (p.seen W) := by
  simp only [seen, set, mk.injEq, and_true, true_and]
  ext1 j
  by_cases same : j = i
  · subst same
    simp [own]
  · simp [same]

/-- What the others do is not seen. -/
theorem seen_set_other {p : Proc D C α} (other : mine i = false) : (σ.set i p).seen W mine = σ.seen W mine := by
  simp only [seen, set, mk.injEq, and_true, true_and]
  ext1 j
  by_cases same : j = i
  · subst same
    simp [other]
  · simp [same]

theorem seen_counted_mine {p : Proc D C α} {m : D.Metric} (own : mine i = true) :
    ({ σ.set i p with metrics := σ.metrics ++ [(i, m)] } : Sys D C α).seen W mine =
      { (σ.seen W mine).set i (p.seen W) with metrics := (σ.seen W mine).metrics ++ [(i, m)] } := by
  have procs := congrArg Sys.procs (seen_set_mine (W := W) (σ := σ) (p := p) own)
  simp only [seen, set, mk.injEq, true_and]
  exact ⟨procs, by simp [own]⟩

theorem seen_counted_other {p : Proc D C α} {m : D.Metric} (other : mine i = false) :
    ({ σ.set i p with metrics := σ.metrics ++ [(i, m)] } : Sys D C α).seen W mine = σ.seen W mine := by
  have procs := congrArg Sys.procs (seen_set_other (W := W) (σ := σ) (p := p) other)
  simp only [seen, set, mk.injEq, true_and]
  exact ⟨procs, by simp [other]⟩

theorem seen_committed_mine {p q : Proc D C α} (own : mine i = true)
    (sent : ∀ w ∈ p.loc.writes, W.Respects true w) (tidy : W.Tidy σ.world.db) :
    ({ σ.set i q with
        world := ⟨p.loc.view σ.world.db, σ.world.now⟩
        history := σ.history ++ [⟨i, p.call, σ.world, p.loc⟩] } : Sys D C α).seen W mine =
      { (σ.seen W mine).set i (q.seen W) with
        world := ⟨(p.seen W).loc.view (σ.seen W mine).world.db, (σ.seen W mine).world.now⟩
        history := (σ.seen W mine).history ++ [⟨i, (p.seen W).call, (σ.seen W mine).world, (p.seen W).loc⟩] } := by
  have procs := congrArg Sys.procs (seen_set_mine (W := W) (σ := σ) (p := q) own)
  have view := Local.view_seen (W := W) sent tidy
  simp only [seen, set, mk.injEq, and_true]
  refine ⟨?_, procs, ?_⟩
  · exact congrArg (World.mk · σ.world.now) view.symm
  · simp [own, Event.seen, Proc.seen]

theorem seen_committed_other {p q : Proc D C α} (other : mine i = false)
    (sent : ∀ w ∈ p.loc.writes, W.Respects false w) (tidy : W.Tidy σ.world.db) :
    ({ σ.set i q with
        world := ⟨p.loc.view σ.world.db, σ.world.now⟩
        history := σ.history ++ [⟨i, p.call, σ.world, p.loc⟩] } : Sys D C α).seen W mine = σ.seen W mine := by
  have procs := congrArg Sys.procs (seen_set_other (W := W) (σ := σ) (p := q) other)
  simp only [seen, set, mk.injEq, and_true]
  refine ⟨?_, procs, by simp [other]⟩
  exact congrArg (World.mk · σ.world.now) (Local.view_other sent tidy)

/-- After the step of a session, everyone keeps to the window if it does. -/
theorem Parted.set (h : σ.Parted W mine) {p : Proc D C α} (prog : p.prog.Respects W (mine i) fun _ => True)
    (sent : ∀ w ∈ p.loc.writes, W.Respects (mine i) w) : (σ.set i p).Parted W mine := by
  have here : ∀ j q, (σ.set i p).procs j = some q → j = i ∧ q = p ∨ σ.procs j = some q := by
    intro j q at_
    by_cases same : j = i
    · subst same
      rw [set_procs_self] at at_
      exact .inl ⟨rfl, (Option.some.inj at_).symm⟩
    · exact .inr (set_procs_ne σ p same ▸ at_)
  refine ⟨h.tidy, fun j q at_ => ?_, fun j q at_ => ?_⟩
  · obtain ⟨rfl, rfl⟩ | there := here j q at_
    · exact prog
    · exact h.prog j q there
  · obtain ⟨rfl, rfl⟩ | there := here j q at_
    · exact sent
    · exact h.sent j q there

end Sys

/-- The sessions that are there after a step are there before, with the same calls, or start
with it. -/
theorem Step.parted (h : σ.Parted W mine) (step : Step program σ τ)
    (sorted : ∀ i p, τ.procs i = some p → (program p.call).Respects W (mine i) fun _ => True) :
    τ.Parted W mine := by
  cases step with
  | spawn i c free => exact h.set (sorted i _ (Sys.set_procs_self ..)) nofun
  | tick t later => exact ⟨h.tidy, h.prog, h.sent⟩
  | @move i p prog loc at_ move =>
      obtain ⟨prog, sent⟩ := move.respects h.tidy (h.prog i p at_) (h.sent i p at_)
      exact h.set prog sent
  | @count i p m k at_ prog =>
      have next := h.prog i p at_
      rw [prog] at next
      have set := h.set (p := ⟨p.call, k, p.loc.counted m⟩) next (h.sent i p at_)
      exact ⟨set.tidy, set.prog, set.sent⟩
  | @commit i p k at_ prog =>
      have next := h.prog i p at_
      rw [prog] at next
      have set := h.set (p := ⟨p.call, k, p.loc.committed σ.world.db⟩) next nofun
      exact ⟨Local.tidy_view (h.sent i p at_) h.tidy, set.prog, set.sent⟩

/-- A step of the party is a step of the party alone; a step of the others is none. -/
theorem Step.seen (h : σ.Parted W mine) (step : Step program σ τ) :
    Run program (σ.seen W mine) (τ.seen W mine) := by
  cases step with
  | spawn i c free =>
      cases side : mine i with
      | false => rw [Sys.seen_set_other side]
      | true =>
          rw [Sys.seen_set_mine side]
          exact .single (.spawn i c (Sys.seen_free free))
  | tick t later => exact .single (.tick (σ := σ.seen W mine) t later)
  | @move i p prog loc at_ move =>
      cases side : mine i with
      | false => rw [Sys.seen_set_other side]
      | true =>
          rw [Sys.seen_set_mine side]
          have less : ∀ r, (σ.seen W mine).busy i r → σ.busy i r := fun _ => Sys.busy_seen
          have own := move.seen less h.tidy (side ▸ h.prog i p at_) (side ▸ h.sent i p at_)
          exact .single (.move i (p.seen W) (Sys.seen_procs side at_) own)
  | @count i p m k at_ prog =>
      cases side : mine i with
      | false => rw [Sys.seen_counted_other side]
      | true =>
          rw [Sys.seen_counted_mine side]
          exact .single (.count i (p.seen W) (Sys.seen_procs side at_) prog)
  | @commit i p k at_ prog =>
      have sent := h.sent i p at_
      cases side : mine i with
      | false => rw [Sys.seen_committed_other side (side ▸ sent) h.tidy]
      | true =>
          rw [Sys.seen_committed_mine side (side ▸ sent) h.tidy]
          have committed : Proc.seen W (⟨p.call, k, p.loc.committed σ.world.db⟩ : Proc D C α) =
              ⟨p.call, k, (p.seen W).loc.committed (σ.seen W mine).world.db⟩ := by
            simp [Proc.seen, Local.seen, Local.committed, Sys.seen, World.seen]
          rw [committed]
          exact .single (.commit i (p.seen W) (Sys.seen_procs side at_) prog)

/-- A session keeps its call. -/
theorem Step.keeps_call (step : Step program σ τ) {p : Proc D C α} (at_ : σ.procs i = some p) :
    ∃ q, τ.procs i = some q ∧ q.call = p.call := by
  have set : ∀ {j q}, (j = i → q.call = p.call) → ∃ q', (σ.set j q).procs i = some q' ∧ q'.call = p.call := by
    intro j q same
    by_cases here : i = j
    · subst here
      exact ⟨q, Sys.set_procs_self .., same rfl⟩
    · exact ⟨p, (Sys.set_procs_ne σ q here).trans at_, rfl⟩
  have kept : ∀ {j q}, σ.procs j = some q → j = i → q.call = p.call := by
    rintro j q there rfl
    rw [Option.some.inj (there.symm.trans at_)]
  cases step with
  | spawn j c free =>
      refine set fun same => ?_
      rw [← same, free] at at_
      cases at_
  | tick => exact ⟨p, at_, rfl⟩
  | move j q there | count j q there | commit j q there =>
      exact set fun same => (kept there same : q.call = p.call)

theorem Run.seen (h : σ.Parted W mine) (run : Run program σ τ)
    (sorted : ∀ i p, τ.procs i = some p → (program p.call).Respects W (mine i) fun _ => True) :
    τ.Parted W mine ∧ Run program (σ.seen W mine) (τ.seen W mine) := by
  induction run with
  | refl => exact ⟨h, .refl⟩
  | tail _ step ih =>
      have before := ih fun i p at_ => by
        obtain ⟨q, there, same⟩ := step.keeps_call at_
        exact same ▸ sorted i q there
      exact ⟨step.parted before.1 sorted, before.2.trans (step.seen before.1)⟩

/-- Seen through the window, a reachable state is reached by the party's sessions alone. -/
theorem Reachable.seen {start : World D} (h : Reachable program start σ) (tidy : W.Tidy start.db)
    (sorted : ∀ i p, σ.procs i = some p → (program p.call).Respects W (mine i) fun _ => True) :
    W.Tidy σ.world.db ∧ Reachable program (start.seen W) (σ.seen W mine) := by
  have empty : (Sys.init start : Sys D C α).Parted W mine := ⟨tidy, nofun, nofun⟩
  have init : (Sys.init start : Sys D C α).seen W mine = .init (start.seen W) := by
    simp [Sys.seen, Sys.init]
  obtain ⟨parted, run⟩ := Run.seen empty h sorted
  rw [init] at run
  exact ⟨parted.tidy, run⟩

end Runs

end FxEngine.Transactions
