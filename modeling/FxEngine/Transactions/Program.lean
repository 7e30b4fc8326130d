import Mathlib

/-! # Programs over a transactional database

A client program is a tree of database statements. What the statements mean is
the business of a `Database`: how a write changes the tables, which rows and
unique-key slots it has to own, and which constraint it may violate. Nothing
here fixes the tables.

Writes stay private to the session until `commit`; a statement sees the
committed tables with the session's own writes on top (`READ COMMITTED`).
-/

namespace FxEngine.Transactions

/-- Clock ticks since the epoch. -/
abbrev Instant := ℤ

/-- The tables of a database and the statements that change them. -/
structure Database where
  State : Type
  Write : Type
  /-- Row locks and unique-key slots. -/
  Resource : Type
  Error : Type
  Metric : Type
  apply : Write → State → State
  /-- What the statement must own before it can run. -/
  claims : Write → State → List Resource
  /-- The constraint the statement violates, if any. -/
  check : Write → State → Option Error

/-- Statements of one session, with what the client does with each answer. -/
inductive Program (D : Database) (α : Type) : Type where
  | ret (a : α)
  | raise (e : D.Error)
  /-- A plain `SELECT`: it takes no lock and sees one snapshot. -/
  | read (k : D.State → Program D α)
  /-- `SELECT … FOR UPDATE`: it waits for the rows, then sees their latest version. -/
  | lock (rows : D.State → List D.Resource) (k : D.State → Program D α)
  | write (w : D.Write) (k : Except D.Error Unit → Program D α)
  | clock (k : Instant → Program D α)
  /-- A point where the environment may throw. -/
  | fault (k : Option D.Error → Program D α)
  | commit (k : Program D α)
  | rollback (k : Program D α)
  | count (m : D.Metric) (k : Program D α)

namespace Program

variable {D : Database} {α β : Type}

def bind : Program D α → (α → Program D β) → Program D β
  | .ret a, f => f a
  | .raise e, _ => .raise e
  | .read k, f => .read fun s => (k s).bind f
  | .lock rows k, f => .lock rows fun s => (k s).bind f
  | .write w k, f => .write w fun r => (k r).bind f
  | .clock k, f => .clock fun t => (k t).bind f
  | .fault k, f => .fault fun e => (k e).bind f
  | .commit k, f => .commit (k.bind f)
  | .rollback k, f => .rollback (k.bind f)
  | .count m k, f => .count m (k.bind f)

/-- Run the program and hand its outcome, value or exception, to the next one. -/
def attempt : Program D α → Program D (Except D.Error α)
  | .ret a => .ret (.ok a)
  | .raise e => .ret (.error e)
  | .read k => .read fun s => (k s).attempt
  | .lock rows k => .lock rows fun s => (k s).attempt
  | .write w k => .write w fun r => (k r).attempt
  | .clock k => .clock fun t => (k t).attempt
  | .fault k => .fault fun e => (k e).attempt
  | .commit k => .commit k.attempt
  | .rollback k => .rollback k.attempt
  | .count m k => .count m k.attempt

instance : Monad (Program D) where
  pure := .ret
  bind := .bind

theorem bind_eq (p : Program D α) (f : α → Program D β) : p >>= f = p.bind f := rfl

theorem bind_bind {γ : Type} (p : Program D α) (f : α → Program D β) (g : β → Program D γ) :
    p >>= f >>= g = p >>= fun a => f a >>= g := by
  simp only [bind_eq]
  induction p with
  | ret | raise => rfl
  | read k ih | lock rows k ih | write w k ih | clock k ih | fault k ih => simp only [Program.bind, ih]
  | commit k ih | rollback k ih | count m k ih => simp only [Program.bind, ih]

/-! ## Statements -/

/-- The connection or an injected hook may fail here. -/
def mayFail : Program D Unit := .fault fun
  | none => .ret ()
  | some e => .raise e

def select (f : D.State → β) : Program D β := do
  mayFail
  .read fun s => .ret (f s)

def selectForUpdate (rows : D.State → List D.Resource) (f : D.State → β) : Program D β := do
  mayFail
  .lock rows fun s => .ret (f s)

def execute (w : D.Write) : Program D Unit := do
  mayFail
  .write w fun
    | .ok _ => .ret ()
    | .error e => .raise e

def now : Program D Instant := .clock .ret

/-- `session.commit()`. One that raises has not taken effect: the server's acknowledgement is not
lost on the way. -/
def commitAll : Program D Unit := do
  mayFail
  .commit (.ret ())

def rollbackAll : Program D Unit := .rollback (.ret ())

def inc (m : D.Metric) : Program D Unit := .count m (.ret ())

/-- Raise what `r` raises. -/
def ofExcept : Except D.Error α → Program D α
  | .ok a => .ret a
  | .error e => .raise e

end Program

/-- The tables with a session's own writes on top. -/
def Database.overlay (D : Database) (ws : List D.Write) (s : D.State) : D.State :=
  ws.foldl (fun s w => D.apply w s) s

@[simp] theorem Database.overlay_nil (D : Database) (s : D.State) : D.overlay [] s = s := rfl

@[simp] theorem Database.overlay_cons (D : Database) (w : D.Write) (ws : List D.Write) (s : D.State) :
    D.overlay (w :: ws) s = D.overlay ws (D.apply w s) := rfl

@[simp] theorem Database.overlay_append (D : Database) (ws vs : List D.Write) (s : D.State) :
    D.overlay (ws ++ vs) s = D.overlay vs (D.overlay ws s) :=
  List.foldl_append

/-! ## One session on its own

The reference behaviour of a call: every statement runs, none fails for an
outside reason, nobody else is connected. The clock readings are an input.
-/

/-- A session with nobody else around: the readings its clock will give, the last of
which repeats, its uncommitted writes and the committed tables. -/
structure Session (D : Database) where
  clock : List Instant
  writes : List D.Write
  db : D.State

namespace Session

variable {D : Database}

/-- What the session's own statements see. -/
def view (s : Session D) : D.State := D.overlay s.writes s.db

/-- The readings after the next one. -/
def later : List Instant → List Instant
  | _ :: t :: rest => t :: rest
  | clock => clock

def wrote (s : Session D) (w : D.Write) : Session D := { s with writes := s.writes ++ [w] }

def committed (s : Session D) : Session D := { s with writes := [], db := s.view }

theorem view_wrote (s : Session D) (w : D.Write) : (s.wrote w).view = D.apply w s.view :=
  D.overlay_append s.writes [w] s.db

end Session

namespace Program

variable {D : Database} {α β : Type}

def exec : Program D α → Session D → Except D.Error α × Session D
  | .ret a, s => (.ok a, s)
  | .raise e, s => (.error e, s)
  | .read k, s => (k s.view).exec s
  | .lock _ k, s => (k s.view).exec s
  | .write w k, s =>
      match D.check w s.view with
      | none => (k (.ok ())).exec { s with writes := s.writes ++ [w] }
      | some e => (k (.error e)).exec { s with writes := [] }
  | .clock k, s => (k (s.clock.headD 0)).exec { s with clock := Session.later s.clock }
  | .fault k, s => (k none).exec s
  | .commit k, s => k.exec { s with writes := [], db := s.view }
  | .rollback k, s => k.exec { s with writes := [] }
  | .count _ k, s => k.exec s

/-- A call that runs alone on the tables `db`: its outcome and the tables it
leaves committed. -/
def run (p : Program D α) (clock : List Instant) (db : D.State) : Except D.Error α × D.State :=
  let r := p.exec { clock, writes := [], db }
  (r.1, r.2.db)

@[simp] theorem exec_bind (p : Program D α) (f : α → Program D β) (s : Session D) :
    (p.bind f).exec s = match p.exec s with
      | (.ok a, s') => (f a).exec s'
      | (.error e, s') => (.error e, s') := by
  induction p generalizing s with
  | ret | raise => rfl
  | read k ih | lock rows k ih | clock k ih | fault k ih => simp only [Program.bind, exec, ih]
  | commit k ih | rollback k ih | count m k ih => simp only [Program.bind, exec, ih]
  | write w k ih =>
      simp only [Program.bind, exec]
      cases D.check w s.view <;> simp only [ih]

@[simp] theorem exec_attempt (p : Program D α) (s : Session D) :
    p.attempt.exec s = (.ok (p.exec s).1, (p.exec s).2) := by
  induction p generalizing s with
  | ret | raise => rfl
  | read k ih | lock rows k ih | clock k ih | fault k ih => simp only [attempt, exec, ih]
  | commit k ih | rollback k ih | count m k ih => simp only [attempt, exec, ih]
  | write w k ih =>
      simp only [attempt, exec]
      cases D.check w s.view <;> simp only [ih]

theorem exec_attempt_ok {p : Program D α} {s s' : Session D} {a : α} (h : p.exec s = (.ok a, s')) :
    p.attempt.exec s = (.ok (.ok a), s') := by
  rw [exec_attempt, h]

@[simp] theorem exec_ret (a : α) (s : Session D) : (ret a : Program D α).exec s = (.ok a, s) := rfl

@[simp] theorem exec_raise (e : D.Error) (s : Session D) :
    (raise e : Program D α).exec s = (.error e, s) := rfl

@[simp] theorem exec_select (f : D.State → β) (s : Session D) :
    (select f : Program D β).exec s = (.ok (f s.view), s) := rfl

@[simp] theorem exec_selectForUpdate (rows : D.State → List D.Resource) (f : D.State → β)
    (s : Session D) : (selectForUpdate rows f : Program D β).exec s = (.ok (f s.view), s) := rfl

theorem exec_execute (w : D.Write) (s : Session D) :
    (execute w : Program D Unit).exec s = match D.check w s.view with
      | none => (.ok (), s.wrote w)
      | some e => (.error e, { s with writes := [] }) := by
  change Program.exec (.write w _) s = _
  simp only [exec]
  rfl

/-- A statement that violates no constraint is added to the session's writes. -/
theorem exec_execute_ok {w : D.Write} {s : Session D} (ok : D.check w s.view = none) :
    (execute w : Program D Unit).exec s = (.ok (), s.wrote w) := by
  rw [exec_execute, ok]

/-- A program that succeeds hands its value and its session on. -/
theorem exec_bind_ok {p : Program D α} {f : α → Program D β} {s s' : Session D} {a : α}
    (h : p.exec s = (.ok a, s')) : (p >>= f).exec s = (f a).exec s' := by
  rw [bind_eq, exec_bind, h]

/-- A program that fails ends the whole. -/
theorem exec_bind_error {p : Program D α} {f : α → Program D β} {s s' : Session D} {e : D.Error}
    (h : p.exec s = (.error e, s')) : (p >>= f).exec s = (.error e, s') := by
  rw [bind_eq, exec_bind, h]

theorem exec_if_neg {c : Prop} [Decidable c] {p q : Program D α} {s : Session D} (h : ¬ c) :
    (if c then p else q).exec s = q.exec s := by
  rw [if_neg h]

@[simp] theorem exec_now (s : Session D) :
    (now : Program D Instant).exec s = (.ok (s.clock.headD 0), { s with clock := Session.later s.clock }) := rfl

@[simp] theorem exec_commitAll (s : Session D) :
    (commitAll : Program D Unit).exec s = (.ok (), s.committed) := rfl

@[simp] theorem exec_rollbackAll (s : Session D) :
    (rollbackAll : Program D Unit).exec s = (.ok (), { s with writes := [] }) := rfl

@[simp] theorem exec_inc (m : D.Metric) (s : Session D) :
    (inc m : Program D Unit).exec s = (.ok (), s) := rfl

@[simp] theorem exec_mayFail (s : Session D) : (mayFail : Program D Unit).exec s = (.ok (), s) := rfl

@[simp] theorem exec_ofExcept (r : Except D.Error α) (s : Session D) :
    (ofExcept r : Program D α).exec s = (r, s) := by
  cases r <;> rfl

/-- Without readings the clock shows zero. -/
theorem exec_noClock (p : Program D α) (ws : List D.Write) (db : D.State) :
    p.exec ⟨[0], ws, db⟩ = ((p.exec ⟨[], ws, db⟩).1, { (p.exec ⟨[], ws, db⟩).2 with clock := [0] }) := by
  induction p generalizing ws db with
  | ret | raise => rfl
  | read k ih | lock rows k ih | clock k ih | fault k ih => exact ih _ ws db
  | commit k ih | rollback k ih | count m k ih => exact ih _ _
  | write w k ih =>
      have view : ∀ clock clock' : List Instant, Session.view ⟨clock, ws, db⟩ = Session.view ⟨clock', ws, db⟩ :=
        fun _ _ => rfl
      simp only [exec, view [0] []]
      cases D.check w (Session.view ⟨[], ws, db⟩) with
      | none => exact ih _ _ db
      | some e => exact ih _ _ db

theorem run_noClock (p : Program D α) (db : D.State) : p.run [] db = p.run [0] db := by
  simp only [run, exec_noClock]

/-- The program leaves the committed tables as they are. -/
def Keeps (p : Program D α) : Prop := ∀ s, (p.exec s).2.db = s.db

theorem Keeps.bind {p : Program D α} {f : α → Program D β} (first : p.Keeps) (rest : ∀ a, (f a).Keeps) :
    (p >>= f).Keeps := by
  intro s
  rw [bind_eq, exec_bind, ← first s]
  rcases p.exec s with ⟨r, s'⟩
  cases r with
  | ok a => exact rest a s'
  | error e => rfl

theorem keeps_ret (a : α) : (ret a : Program D α).Keeps := fun _ => rfl

theorem keeps_raise (e : D.Error) : (raise e : Program D α).Keeps := fun _ => rfl

theorem keeps_select (f : D.State → β) : (select f : Program D β).Keeps := fun _ => rfl

theorem keeps_selectForUpdate (rows : D.State → List D.Resource) (f : D.State → β) :
    (selectForUpdate rows f : Program D β).Keeps := fun _ => rfl

theorem keeps_execute (w : D.Write) : (execute w : Program D Unit).Keeps := by
  intro s
  rw [exec_execute]
  cases D.check w s.view <;> rfl

end Program

end FxEngine.Transactions
