import FxEngine.Transactions.Program

/-! # Concurrent sessions

Any number of sessions interleave statement by statement. A session that needs
a row or a unique-key slot waits while another session holds it; what it holds
is released by commit or rollback, and closing a session rolls it back. The
history lists the commits in the order in which they took effect.
-/

namespace FxEngine.Transactions

variable {D : Database} {C α : Type}

/-- One commit of a session: the tables before it, what was written, and the
clock readings the session had taken. -/
structure Snapshot (D : Database) where
  before : D.State
  writes : List D.Write
  reads : List Instant

def Snapshot.after (s : Snapshot D) : D.State := D.overlay s.writes s.before

/-- What a session carries besides its program. `reads`, `counts` and `commits`
only record what it did. -/
structure Local (D : Database) where
  writes : List D.Write := []
  held : List D.Resource := []
  reads : List Instant := []
  counts : List D.Metric := []
  commits : List (Snapshot D) := []

namespace Local

def view (l : Local D) (db : D.State) : D.State := D.overlay l.writes db

def rolledBack (l : Local D) : Local D := { l with writes := [], held := [] }

def committed (l : Local D) (db : D.State) : Local D :=
  { l with writes := [], held := [], commits := l.commits ++ [⟨db, l.writes, l.reads⟩] }

/-- The row locks are the caller's from here on. -/
def acquire (l : Local D) (rows : List D.Resource) : Local D := { l with held := rows ++ l.held }

def wrote (l : Local D) (w : D.Write) (db : D.State) : Local D :=
  { l with writes := l.writes ++ [w], held := D.claims w (l.view db) ++ l.held }

def read (l : Local D) (t : Instant) : Local D := { l with reads := l.reads ++ [t] }

def counted (l : Local D) (m : D.Metric) : Local D := { l with counts := l.counts ++ [m] }

@[simp] theorem view_rolledBack (l : Local D) (db : D.State) : l.rolledBack.view db = db := rfl
@[simp] theorem view_acquire (l : Local D) (rows : List D.Resource) (db : D.State) :
    (l.acquire rows).view db = l.view db := rfl
@[simp] theorem view_read (l : Local D) (t : Instant) (db : D.State) : (l.read t).view db = l.view db := rfl
@[simp] theorem view_counted (l : Local D) (m : D.Metric) (db : D.State) :
    (l.counted m).view db = l.view db := rfl
@[simp] theorem view_wrote (l : Local D) (w : D.Write) (db db' : D.State) :
    (l.wrote w db).view db' = D.apply w (l.view db') := by
  simp [view, wrote]

@[simp] theorem held_rolledBack (l : Local D) : l.rolledBack.held = [] := rfl
@[simp] theorem rolledBack_rolledBack (l : Local D) : l.rolledBack.rolledBack = l.rolledBack := rfl

end Local

/-- The committed tables and the wall clock. -/
structure World (D : Database) where
  db : D.State
  now : Instant

structure Proc (D : Database) (C α : Type) where
  call : C
  prog : Program D α
  loc : Local D

/-- A commit in the history: who committed, in which world, with what. -/
structure Event (D : Database) (C : Type) where
  pid : ℕ
  call : C
  world : World D
  loc : Local D

namespace Event

def after (e : Event D C) : D.State := e.loc.view e.world.db

def snapshot (e : Event D C) : Snapshot D := ⟨e.world.db, e.loc.writes, e.loc.reads⟩

@[simp] theorem snapshot_after (e : Event D C) : e.snapshot.after = e.after := rfl

end Event

structure Sys (D : Database) (C α : Type) where
  world : World D
  procs : ℕ → Option (Proc D C α)
  history : List (Event D C)
  metrics : List (ℕ × D.Metric)

namespace Sys

def init (w : World D) : Sys D C α := ⟨w, fun _ => none, [], []⟩

def set (σ : Sys D C α) (i : ℕ) (p : Proc D C α) : Sys D C α :=
  { σ with procs := Function.update σ.procs i (some p) }

/-- Some other session holds `r`. -/
def busy (σ : Sys D C α) (i : ℕ) (r : D.Resource) : Prop :=
  ∃ j p, j ≠ i ∧ σ.procs j = some p ∧ r ∈ p.loc.held

@[simp] theorem set_world (σ : Sys D C α) (i p) : (σ.set i p).world = σ.world := rfl
@[simp] theorem set_history (σ : Sys D C α) (i p) : (σ.set i p).history = σ.history := rfl
@[simp] theorem set_metrics (σ : Sys D C α) (i p) : (σ.set i p).metrics = σ.metrics := rfl
@[simp] theorem set_procs_self (σ : Sys D C α) (i p) : (σ.set i p).procs i = some p := by
  simp [set]
theorem set_procs_ne (σ : Sys D C α) {i j : ℕ} (p) (h : j ≠ i) : (σ.set i p).procs j = σ.procs j := by
  simp [set, h]

end Sys

/-- A step of one session that neither commits nor counts. -/
inductive Move (w : World D) (busy : D.Resource → Prop) :
    Program D α → Local D → Program D α → Local D → Prop where
  | read {k l} : Move w busy (.read k) l (k (l.view w.db)) l
  | lock {rows k l} : (∀ r ∈ rows (l.view w.db), ¬ busy r) →
      Move w busy (.lock rows k) l (k (l.view w.db)) (l.acquire (rows (l.view w.db)))
  | write {s k l} : (∀ r ∈ D.claims s (l.view w.db), ¬ busy r) → D.check s (l.view w.db) = none →
      Move w busy (.write s k) l (k (.ok ())) (l.wrote s w.db)
  /-- A constraint violation aborts the transaction on the server. -/
  | violate {s k l e} : (∀ r ∈ D.claims s (l.view w.db), ¬ busy r) → D.check s (l.view w.db) = some e →
      Move w busy (.write s k) l (k (.error e)) l.rolledBack
  | clock {k l} : Move w busy (.clock k) l (k w.now) (l.read w.now)
  | proceed {k l} : Move w busy (.fault k) l (k none) l
  | throw {k l} (e : D.Error) : Move w busy (.fault k) l (k (some e)) l
  | rollback {k l} : Move w busy (.rollback k) l k l.rolledBack
  | closeRet {a l} : Move w busy (.ret a) l (.ret a) l.rolledBack
  | closeRaise {e l} : Move w busy (.raise e) l (.raise e) l.rolledBack

/-- The calls of a service arrive at any time and interleave at any statement. -/
inductive Step (program : C → Program D α) : Sys D C α → Sys D C α → Prop where
  | spawn {σ} (i : ℕ) (c : C) : σ.procs i = none → Step program σ (σ.set i ⟨c, program c, {}⟩)
  | tick {σ} (t : Instant) : σ.world.now ≤ t → Step program σ { σ with world := ⟨σ.world.db, t⟩ }
  | move {σ} (i : ℕ) (p : Proc D C α) {prog loc} : σ.procs i = some p →
      Move σ.world (σ.busy i) p.prog p.loc prog loc → Step program σ (σ.set i ⟨p.call, prog, loc⟩)
  | count {σ} (i : ℕ) (p : Proc D C α) {m k} : σ.procs i = some p → p.prog = .count m k →
      Step program σ { σ.set i ⟨p.call, k, p.loc.counted m⟩ with metrics := σ.metrics ++ [(i, m)] }
  | commit {σ} (i : ℕ) (p : Proc D C α) {k} : σ.procs i = some p → p.prog = .commit k →
      Step program σ
        { σ.set i ⟨p.call, k, p.loc.committed σ.world.db⟩ with
          world := ⟨p.loc.view σ.world.db, σ.world.now⟩
          history := σ.history ++ [⟨i, p.call, σ.world, p.loc⟩] }

/-- Any interleaving of any number of steps. -/
abbrev Run (program : C → Program D α) : Sys D C α → Sys D C α → Prop :=
  Relation.ReflTransGen (Step program)

/-- A state some interleaving leads to, from the given tables and nobody connected. -/
def Reachable (program : C → Program D α) (start : World D) (σ : Sys D C α) : Prop :=
  Run program (.init start) σ

/-- In the step from `σ` to `τ` the environment throws into no session but those in `U`. -/
def Tolerated (U : C → Local D → Prop) (σ τ : Sys D C α) : Prop :=
  ∀ i p k, σ.procs i = some p → p.prog = .fault k →
    τ.procs i = some p ∨ τ.procs i = some ⟨p.call, k none, p.loc⟩ ∨ U p.call p.loc

/-- An interleaving of such steps. -/
abbrev SparingRun (program : C → Program D α) (U : C → Local D → Prop) : Sys D C α → Sys D C α → Prop :=
  Relation.ReflTransGen fun σ τ => Step program σ τ ∧ Tolerated U σ τ

/-- An interleaving without faults. -/
abbrev CalmRun (program : C → Program D α) : Sys D C α → Sys D C α → Prop := SparingRun program fun _ _ => False

theorem SparingRun.run {program : C → Program D α} {U : C → Local D → Prop} {σ τ : Sys D C α}
    (h : SparingRun program U σ τ) : Run program σ τ := by
  induction h with
  | refl => exact .refl
  | tail _ step ih => exact ih.tail step.1

theorem SparingRun.mono {program : C → Program D α} {U V : C → Local D → Prop} {σ τ : Sys D C α}
    (sub : ∀ c l, U c l → V c l) (h : SparingRun program U σ τ) : SparingRun program V σ τ := by
  induction h with
  | refl => exact .refl
  | tail _ step ih =>
      exact ih.tail ⟨step.1, fun i p k at_ fault => (step.2 i p k at_ fault).imp_right (.imp_right (sub _ _))⟩

/-- Where the environment may do as it likes, every run will do. -/
theorem Run.sparing {program : C → Program D α} {σ τ : Sys D C α} (h : Run program σ τ) :
    SparingRun program (fun _ _ => True) σ τ := by
  induction h with
  | refl => exact .refl
  | tail _ step ih => exact ih.tail ⟨step, fun _ _ _ _ _ => .inr (.inr trivial)⟩

/-! ## The history as a chain of commits -/

/-- Each commit starts from the tables the one before it left. -/
def Chain : List (Event D C) → D.State → D.State → Prop
  | [], s, t => s = t
  | e :: es, s, t => e.world.db = s ∧ Chain es e.after t

theorem Chain.append {es fs : List (Event D C)} {s t u : D.State}
    (h : Chain es s t) (h' : Chain fs t u) : Chain (es ++ fs) s u := by
  induction es generalizing s with
  | nil => simpa only [List.nil_append, show s = t from h] using h'
  | cons head tail ih => exact ⟨h.1, ih h.2⟩

/-- What every commit keeps is still so at the end. -/
theorem Chain.keeps {es : List (Event D C)} {s t : D.State} (h : Chain es s t) {P : D.State → Prop}
    (start : P s) (each : ∀ e ∈ es, P e.world.db → P e.after) : P t := by
  induction es generalizing s with
  | nil => exact (show s = t from h) ▸ start
  | cons e es ih =>
      refine ih h.2 (each e List.mem_cons_self (h.1.symm ▸ start)) fun e' member => ?_
      exact each e' (List.mem_cons_of_mem _ member)

/-- A number that the commits of one kind raise by one counts them. -/
theorem Chain.counts {es : List (Event D C)} {s t : D.State} (h : Chain es s t) {f : D.State → ℕ}
    {R : Event D C → Bool} (each : ∀ e ∈ es, f e.after = f e.world.db + if R e then 1 else 0) :
    f t = f s + es.countP R := by
  induction es generalizing s with
  | nil => exact congrArg f (show s = t from h).symm
  | cons e es ih =>
      have first := each e List.mem_cons_self
      have rest := ih h.2 fun e' member => each e' (List.mem_cons_of_mem _ member)
      rw [h.1] at first
      rw [rest, first, List.countP_cons, Nat.add_assoc, Nat.add_comm (List.countP R es)]

/-- It was so at every commit. -/
theorem Chain.throughout {es : List (Event D C)} {s t : D.State} (h : Chain es s t) {P : D.State → Prop}
    (start : P s) (each : ∀ e ∈ es, P e.world.db → P e.after) : ∀ e ∈ es, P e.world.db := by
  induction es generalizing s with
  | nil => exact fun e member => by cases member
  | cons e es ih =>
      intro e' member
      have here : P e.world.db := h.1.symm ▸ start
      rcases List.mem_cons.mp member with rfl | deeper
      · exact here
      · exact ih h.2 (each e List.mem_cons_self here) (fun f inside => each f (List.mem_cons_of_mem _ inside)) e' deeper

/-- A lasting mark that a commit leaves is there at every later commit. -/
theorem Chain.pairwise {es : List (Event D C)} {s t : D.State} (h : Chain es s t)
    (mark : Event D C → D.State → Prop) (left : ∀ e ∈ es, mark e e.after)
    (lasting : ∀ e, ∀ f ∈ es, mark e f.world.db → mark e f.after) :
    es.Pairwise fun e f => mark e f.world.db := by
  induction es generalizing s with
  | nil => exact List.Pairwise.nil
  | cons e es ih =>
      have tail : ∀ {f}, f ∈ es → f ∈ e :: es := List.mem_cons_of_mem _
      refine List.pairwise_cons.mpr ⟨fun f inside => ?_, ih h.2 (fun f inside => left f (tail inside))
        fun f g inside => lasting f g (tail inside)⟩
      exact h.2.throughout (P := mark e) (left e List.mem_cons_self) (fun g there => lasting e g (tail there)) f inside

/-- The history from one of its commits on. -/
theorem Chain.since {es : List (Event D C)} {s t : D.State} (h : Chain es s t) {e : Event D C} (member : e ∈ es) :
    ∃ pre rest, es = pre ++ e :: rest ∧ Chain rest e.after t := by
  induction es generalizing s with
  | nil => cases member
  | cons f es ih =>
      rcases List.mem_cons.mp member with rfl | deeper
      · exact ⟨[], es, rfl, h.2⟩
      · obtain ⟨pre, rest, split, chain⟩ := ih h.2 deeper
        exact ⟨f :: pre, rest, by rw [split, List.cons_append], chain⟩

/-- What became true in the course of the history became true by one commit. -/
theorem Chain.became {es : List (Event D C)} {s t : D.State} (h : Chain es s t) {P : D.State → Prop}
    (before : ¬ P s) (after : P t) :
    ∃ pre e rest, es = pre ++ e :: rest ∧ ¬ P e.world.db ∧ P e.after ∧ Chain rest e.after t := by
  induction es generalizing s with
  | nil =>
      rw [show s = t from h] at before
      exact absurd after before
  | cons e es ih =>
      by_cases here : P e.after
      · exact ⟨[], e, es, rfl, h.1 ▸ before, here, h.2⟩
      · obtain ⟨pre, e', rest, eq, found⟩ := ih h.2 here
        exact ⟨e :: pre, e', rest, by rw [eq, List.cons_append], found⟩

/-- What a step adds to the history starts at the tables before the step and
ends at the tables after it. -/
theorem Step.history {program : C → Program D α} {σ τ : Sys D C α} (h : Step program σ τ) :
    ∃ new, τ.history = σ.history ++ new ∧ Chain new σ.world.db τ.world.db ∧
      σ.world.now ≤ τ.world.now := by
  cases h with
  | spawn | move | count => exact ⟨[], (List.append_nil _).symm, rfl, le_rfl⟩
  | tick t later => exact ⟨[], (List.append_nil _).symm, rfl, later⟩
  | commit i p => exact ⟨[⟨i, p.call, σ.world, p.loc⟩], rfl, ⟨rfl, rfl⟩, le_rfl⟩

theorem Run.history {program : C → Program D α} {σ τ : Sys D C α} (h : Run program σ τ) :
    ∃ new, τ.history = σ.history ++ new ∧ Chain new σ.world.db τ.world.db ∧
      σ.world.now ≤ τ.world.now := by
  induction h with
  | refl => exact ⟨[], (List.append_nil _).symm, rfl, le_rfl⟩
  | tail _ step ih =>
      obtain ⟨first, eq, chain, le⟩ := ih
      obtain ⟨second, eq', chain', le'⟩ := step.history
      exact ⟨first ++ second, by rw [eq', eq, List.append_assoc], chain.append chain', le.trans le'⟩

end FxEngine.Transactions
