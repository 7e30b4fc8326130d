import FxEngine.Transactions.Logic

/-! # What a session has committed when it answers

Which writes a call has committed before it answers does not depend on the other sessions,
so nothing is assumed of them here.
-/

namespace FxEngine.Transactions

variable {D : Database} {C α β : Type}

/-- The others may do anything. -/
def Protocol.unconstrained (D : Database) : Protocol D where
  Inv _ := True
  Interfere _ _ _ := True
  refl _ _ := trivial
  trans _ _ := trivial
  anti _ _ := trivial
  tick _ _ := trivial

namespace Program

/-- Whatever the others do, the session ends in `Q`. -/
def Answers (Q : Except D.Error α → Local D → Prop) (p : Program D α) (l : Local D) : Prop :=
  ∀ w, (Protocol.unconstrained D).wp (fun _ _ => True) p (fun r _ l => Q r l) w l

/-- The program commits nothing, and unless it fails it has sent these writes. -/
def Sends (p : Program D α) (ws : List D.Write) : Prop :=
  ∀ l, p.Answers (fun r l' => l'.commits = l.commits ∧ (r.isOk → l'.writes = l.writes ++ ws)) l

section Rules

variable {ws vs : List D.Write} {l : Local D}

theorem Answers.mono {Q R : Except D.Error α → Local D → Prop} {p : Program D α} (h : p.Answers Q l)
    (weaker : ∀ r l, Q r l → R r l) : p.Answers R l :=
  fun w => Protocol.wp_mono (h w) fun r _ l => weaker r l

/-- What the first program ends in, the second one starts from. -/
def Answers.Next (Q : Except D.Error β → Local D → Prop) (f : α → Program D β) (r : Except D.Error α) (l : Local D) :
    Prop :=
  match r with
  | .ok a => (f a).Answers Q l
  | .error e => Q (.error e) l

theorem Answers.bind {Q : Except D.Error β → Local D → Prop} {p : Program D α} {f : α → Program D β}
    (h : p.Answers (Answers.Next Q f) l) : (p >>= f).Answers Q l := by
  refine fun w => Protocol.wp_bind (Protocol.wp_mono (h w) fun r w' l' ended => ?_)
  cases r with
  | ok a => exact ended w'
  | error e => exact ended

theorem Answers.attempt {Q : Except D.Error (Except D.Error α) → Local D → Prop} {p : Program D α}
    (h : p.Answers (fun r => Q (.ok r)) l) : p.attempt.Answers Q l :=
  fun w => Protocol.wp_attempt (h w)

/-- What is sent first, and what is made of it. -/
theorem Sends.next {p : Program D α} {f : α → Program D β} {Q : Except D.Error β → Local D → Prop}
    {commits : List (Snapshot D)} (first : p.Sends ws) (here : l.commits = commits)
    (err : ∀ e l', l'.commits = commits → Q (.error e) l')
    (rest : ∀ a l', l'.commits = commits → l'.writes = l.writes ++ ws → (f a).Answers Q l') :
    (p >>= f).Answers Q l := by
  refine Answers.bind ((first l).mono fun r l' sent => ?_)
  cases r with
  | ok a => exact rest a l' (sent.1.trans here) (sent.2 rfl)
  | error e => exact err e l' (sent.1.trans here)

theorem Sends.bind {p : Program D α} {f : α → Program D β} (first : p.Sends ws) (rest : ∀ a, (f a).Sends vs) :
    (p >>= f).Sends (ws ++ vs) := by
  refine fun l => first.next rfl (fun e l' same => ⟨same, nofun⟩) fun a l' same sent => (rest a l').mono fun r l'' more => ?_
  exact ⟨more.1.trans same, fun ok => by rw [more.2 ok, sent, List.append_assoc]⟩

/-- What sends nothing does not show, before or after. -/
theorem Sends.of_nil {p : Program D α} {f : α → Program D β} (first : p.Sends []) (rest : ∀ a, (f a).Sends vs) :
    (p >>= f).Sends vs :=
  first.bind rest

theorem Sends.and_nil {p : Program D α} {f : α → Program D β} (first : p.Sends ws) (rest : ∀ a, (f a).Sends []) :
    (p >>= f).Sends ws :=
  ws.append_nil ▸ first.bind rest

theorem sends_ret (a : α) : (ret a : Program D α).Sends [] :=
  fun _ _ => ⟨rfl, fun _ => (List.append_nil _).symm⟩

theorem sends_raise (e : D.Error) : (raise e : Program D α).Sends ws := fun _ _ => ⟨rfl, nofun⟩

theorem sends_select (f : D.State → β) : (select f : Program D β).Sends [] :=
  fun _ _ => Protocol.wp_select (fun _ _ _ => ⟨rfl, nofun⟩) fun _ _ => ⟨rfl, fun _ => (List.append_nil _).symm⟩

theorem sends_selectForUpdate (rows : D.State → List D.Resource) (f : D.State → β) :
    (selectForUpdate rows f : Program D β).Sends [] :=
  fun _ _ => Protocol.wp_selectForUpdate (fun _ _ _ => ⟨rfl, nofun⟩) fun _ _ => ⟨rfl, fun _ => (List.append_nil _).symm⟩

theorem sends_now : (now : Program D Instant).Sends [] :=
  fun _ _ => Protocol.wp_now fun _ _ => ⟨rfl, fun _ => (List.append_nil _).symm⟩

theorem sends_execute (s : D.Write) : (execute s).Sends [s] :=
  fun _ _ => Protocol.wp_execute (fun _ _ _ => ⟨rfl, nofun⟩) (fun _ _ _ _ => ⟨rfl, nofun⟩) fun _ _ _ => ⟨rfl, fun _ => rfl⟩

theorem sends_ofExcept (r : Except D.Error α) : (ofExcept r : Program D α).Sends [] := by
  cases r with
  | ok a => exact sends_ret a
  | error e => exact sends_raise e

theorem sends_forM {γ : Type} {f : γ → Program D PUnit} {g : γ → List D.Write} (each : ∀ x, (f x).Sends (g x))
    (xs : List γ) : (xs.forM f).Sends (xs.flatMap g) := by
  induction xs with
  | nil => exact sends_ret _
  | cons x xs ih => exact (each x).bind fun _ => ih

theorem sends_ite {c : Prop} [Decidable c] {p q : Program D α} (yes : c → p.Sends ws) (no : ¬ c → q.Sends ws) :
    (if c then p else q).Sends ws := by
  split
  · exact yes ‹_›
  · exact no ‹_›

/-- Where nothing is asked, any program will do. -/
theorem answers_trivial (p : Program D α) (l : Local D) : p.Answers (fun _ _ => True) l := by
  intro w
  induction p generalizing w l with
  | ret | raise => trivial
  | read k ih | lock rows k ih | clock k ih => exact fun w' _ => ih _ _ w'
  | write s k ih => exact fun w' _ => ⟨fun _ => ih _ _ w', fun e _ => ih _ _ w'⟩
  | fault k ih => exact fun w' _ => ⟨ih _ _ w', fun e => ih _ _ w'⟩
  | commit k ih => exact fun w' _ => ⟨trivial, ih _ _⟩
  | rollback k ih | count m k ih => exact fun w' _ => ih _ w'

theorem answers_ret {Q : Except D.Error α → Local D → Prop} {a : α} (h : Q (.ok a) l) : (ret a : Program D α).Answers Q l :=
  fun _ => h

theorem answers_raise {Q : Except D.Error α → Local D → Prop} {e : D.Error} (h : Q (.error e) l) :
    (raise e : Program D α).Answers Q l :=
  fun _ => h

/-- The commit of everything sent. -/
theorem answers_commit {f : Unit → Program D β} {Q : Except D.Error β → Local D → Prop}
    {commits : List (Snapshot D)} (here : l.commits = commits) (err : ∀ e l', l'.commits = commits → Q (.error e) l')
    (rest : ∀ s l', s.writes = l.writes → l'.commits = commits ++ [s] → (f ()).Answers Q l') :
    (commitAll >>= f).Answers Q l := by
  refine fun w => Protocol.wp_bind (Protocol.wp_commitAll (fun _ e _ => err e l here) fun w' _ => ⟨trivial, ?_⟩)
  exact rest ⟨w'.db, l.writes, l.reads⟩ _ rfl (congrArg (· ++ [_]) here) _

theorem answers_inc {m : D.Metric} {f : Unit → Program D β} {Q : Except D.Error β → Local D → Prop}
    (rest : ∀ l', l'.commits = l.commits → (f ()).Answers Q l') : (inc m >>= f).Answers Q l :=
  fun _ => Protocol.wp_bind (Protocol.wp_inc fun w' _ => rest (l.counted m) rfl w')

theorem answers_rollback {f : Unit → Program D β} {Q : Except D.Error β → Local D → Prop}
    (rest : ∀ l', l'.commits = l.commits → (f ()).Answers Q l') : (rollbackAll >>= f).Answers Q l :=
  fun _ => Protocol.wp_bind (Protocol.wp_rollbackAll fun w' _ => rest l.rolledBack rfl w')

end Rules

end Program

/-! ## In the running system -/

/-- A specification of what calls have committed when they end. -/
def acknowledgement (Q : C → Except D.Error α → List (Snapshot D) → Prop) :
    Spec D C α (Protocol.unconstrained D) where
  Commits _ _ _ := True
  Post c r _ l := Q c r l.commits
  closed h := h
  inv _ _ := trivial
  guarantee _ _ _ := trivial

variable {Q : C → Except D.Error α → List (Snapshot D) → Prop} {program : C → Program D α} {σ : Sys D C α}

/-- The outcome of each finished call is about commits that are in the history. -/
theorem Reachable.acknowledges {start : World D} (each : ∀ c, (program c).Answers (fun r l => Q c r l.commits) {})
    (h : Reachable program start σ) {i : ℕ} {p : Proc D C α} (at_ : σ.procs i = some p) {r : Except D.Error α}
    (done : p.prog = .ofExcept r) :
    Q p.call r p.loc.commits ∧ ∀ s ∈ p.loc.commits, ∃ e ∈ σ.history, e.snapshot = s ∧ e.call = p.call := by
  have verified : (acknowledgement Q).Verified program := fun c w _ =>
    Protocol.wp_mono (each c w) fun r w l post _ _ => post
  have sound : (acknowledgement Q).Sound σ := Spec.reachable_sound verified trivial h
  refine ⟨sound.post at_ done, fun s member => ?_⟩
  rw [sound.logged at_] at member
  obtain ⟨e, inside, same⟩ := List.mem_map.mp member
  obtain ⟨logged, own⟩ := List.mem_filter.mp inside
  obtain ⟨p', at', call⟩ := sound.owners e logged
  rw [of_decide_eq_true own, at_] at at'
  cases at'
  exact ⟨e, logged, same, call.symm⟩

/-- What one write of a session establishes, and no write undoes, holds once they are applied. -/
theorem Database.overlay_establishes {P : D.State → Prop} (kept : ∀ s db, P db → P (D.apply s db)) {s : D.Write}
    (made : ∀ db, P (D.apply s db)) {ws : List D.Write} (sent : s ∈ ws) (db : D.State) : P (D.overlay ws db) := by
  have keeps : ∀ (ws : List D.Write) (db : D.State), P db → P (D.overlay ws db) := by
    intro ws
    induction ws with
    | nil => exact fun _ there => there
    | cons v ws ih => exact fun db there => ih _ (kept v db there)
  obtain ⟨before, after, rfl⟩ := List.append_of_mem sent
  rw [Database.overlay_append, Database.overlay_cons]
  exact keeps after _ (made _)

end FxEngine.Transactions
