import FxEngine.Correctness.Invariant
import FxEngine.Transactions.Logic

/-! # Rules for the repository functions

What the statements of the repositories do under interference, and what they do
in a session of their own.
-/

namespace FxEngine

open Numeric Transactions Program

variable [Platform] [Settings]

/-- The engine's invariant and what a session can rely on. -/
def engine : Protocol fx where
  Inv w := Invariant w.db w.now
  Interfere := Interfere
  refl := Interfere.refl
  trans := Interfere.trans
  anti := Interfere.anti
  tick := Invariant.later

/-! ## Under interference -/

section Interference

variable {α : Type} {K : Assertion fx} {w : World fx} {l : Local fx} {customerId : Uuid} {currency : Currency}

/-- A batch of statements is executed one after the other. -/
theorem wp_flush {s : Statement} {pending : List Statement} {Q : Except PyError Unit → Assertion fx}
    (err : ∀ w' e, engine.Later l.held w w' → Q (.error e) w' l)
    (bad : ∀ w' e, engine.Later l.held w w' → s.check (l.view w'.db) = some e → Q (.error e) w' l.rolledBack)
    (ok : ∀ w', engine.Later l.held w w' → s.check (l.view w'.db) = none →
      engine.wp K (flush pending) Q w' (l.wrote s w'.db)) :
    engine.wp K (flush (s :: pending)) Q w l := by
  change engine.wp K ((execute s).bind fun _ => flush pending) Q w l
  exact Protocol.wp_bind (Protocol.wp_execute err bad ok)

theorem wp_flush_nil {Q : Except PyError Unit → Assertion fx} (ok : Q (.ok ()) w l) :
    engine.wp K (flush []) Q w l := ok

theorem wp_reload {Q : Except PyError Unit → Assertion fx}
    (err : ∀ w' e, engine.Later l.held w w' → Q (.error e) w' l) (ok : ∀ w', engine.Later l.held w w' → Q (.ok ()) w' l) :
    engine.wp K reload Q w l :=
  Protocol.wp_select err ok

/-- The session after the insertion of a balance that was there. -/
def ensured (l : Local fx) (customerId : Uuid) (currency : Currency) : Local fx :=
  { l with writes := l.writes ++ [Statement.insertBalance customerId currency] }

omit [Settings] in
theorem wrote_of_claims {s : Statement} {db : Tables} {rows : List Resource}
    (claims : s.claims (l.view db) = rows) :
    l.wrote s db = { l with writes := l.writes ++ [s], held := rows ++ l.held } :=
  congrArg (fun rows => ({ l with writes := l.writes ++ [s], held := rows ++ l.held } : Local fx)) claims

omit [Settings] in
theorem wrote_ensured {db : Tables} (present : (Tables.balance (l.view db) customerId currency).isSome) :
    l.wrote (Statement.insertBalance customerId currency) db = ensured l customerId currency := by
  have claims : (Statement.insertBalance customerId currency).claims (l.view db) = [] := if_pos present
  exact wrote_of_claims claims

omit [Settings] in
theorem apply_insertBalance {db : Tables} (present : (db.balance customerId currency).isSome) :
    (Statement.insertBalance customerId currency).apply db = db :=
  if_pos present

omit [Settings] in
theorem view_ensured {db : Tables} (present : (Tables.balance (l.view db) customerId currency).isSome) :
    (ensured l customerId currency).view db = l.view db :=
  (Database.overlay_append fx l.writes _ db).trans (apply_insertBalance present)

/-- An account that exists is neither created nor waited for. -/
theorem wp_ensureBalance {Q : Except PyError BalanceRow → Assertion fx}
    (present : ∀ w', engine.Later l.held w w' → (Tables.balance (l.view w'.db) customerId currency).isSome)
    (err : ∀ w' l' e, engine.Later l.held w w' → l' = l ∨ l' = l.rolledBack ∨ l' = ensured l customerId currency →
      Q (.error e) w' l')
    (ok : ∀ w' row, engine.Later l.held w w' → Q (.ok row) w' (ensured l customerId currency)) :
    engine.wp K (ensureBalance customerId currency) Q w l := by
  refine Protocol.wp_bind (Protocol.wp_execute ?_ ?_ ?_)
  · exact fun w' e later => err w' l e later (.inl rfl)
  · exact fun w' e later _ => err w' _ e later (.inr (.inl rfl))
  · intro w' later _
    rw [wrote_ensured (present w' later)]
    refine Protocol.wp_bind (Protocol.wp_select ?_ ?_)
    · exact fun w'' e later' => err w'' _ e (later.trans later') (.inr (.inr rfl))
    · intro w'' later'
      have here := present w'' (later.trans later')
      obtain ⟨row, found⟩ := Option.isSome_iff_exists.mp here
      simp only [view_ensured here, found]
      exact ok w'' row (later.trans later')

/-- A row that exists is locked and read in its latest version. -/
theorem wp_getBalanceForUpdate {Q : Except PyError BalanceRow → Assertion fx}
    (present : ∀ w', engine.Later l.held w w' → (Tables.balance (l.view w'.db) customerId currency).isSome)
    (err : ∀ w' e, engine.Later l.held w w' → Q (.error e) w' l)
    (ok : ∀ w' row, engine.Later l.held w w' → Tables.balance (l.view w'.db) customerId currency = some row →
      Q (.ok row) w' (l.acquire [.balance customerId currency])) :
    engine.wp K (getBalanceForUpdate customerId currency) Q w l := by
  refine Protocol.wp_bind (Protocol.wp_selectForUpdate err ?_)
  intro w' later
  have here := present w' later
  obtain ⟨row, found⟩ := Option.isSome_iff_exists.mp here
  simp only [found, Option.isSome_some, if_true]
  exact ok w' row later found

end Interference

/-! ## In a session of its own -/

omit [Platform] [Settings] in
/-- A positive amount of the size of its column can be posted. -/
theorem postable {amount : Decimal} {n : ℤ} (value : amount = cents n) (positive : 0 < n)
    (fits : n < 10 ^ numericPrecision) : ¬ amount ≤ zeroMoney ∧ fitsMoney amount ∧ zeroMoney < amount := by
  subst value
  refine ⟨fun le => absurd (cents_le.mp le) (not_le.mpr positive), ?_, cents_lt.mpr positive⟩
  exact fitsMoney_cents.mpr (natAbs_fits positive.le fits)

omit [Settings] in
/-- A balance of the size of its column can be stored. -/
theorem check_balance {db : Tables} {customerId : Uuid} {currency : Currency} {n : ℤ} (lower : 0 ≤ n)
    (upper : n < 10 ^ numericPrecision) : (Statement.updateBalance customerId currency (cents n)).check db = none :=
  Statement.check_updateBalance.mpr ⟨fitsMoney_cents.mpr (natAbs_fits lower upper),
    fun lt => absurd (cents_lt.mp lt) (not_lt.mpr lower)⟩

section Alone

variable {s : Session fx} {customerId : Uuid} {currency : Currency}

omit [Settings]

theorem exec_flush {w : Statement} {pending : List Statement} (ok : w.check s.view = none) :
    (flush (w :: pending)).exec s = (flush pending).exec (s.wrote w) := by
  change ((execute w) >>= fun _ => flush pending).exec s = _
  exact exec_bind_ok (exec_execute_ok ok)

theorem exec_flush_nil : (flush []).exec s = (.ok (), s) := rfl

theorem exec_ensureBalance {row : BalanceRow} (found : Tables.balance s.view customerId currency = some row) :
    (ensureBalance customerId currency).exec s = (.ok row, s.wrote (.insertBalance customerId currency)) := by
  have present : (Tables.balance s.view customerId currency).isSome := by rw [found]; rfl
  have ok : (Statement.insertBalance customerId currency).check s.view = none := by
    simp [Statement.check, found]
  have view : (s.wrote (.insertBalance customerId currency)).view = s.view :=
    (s.view_wrote _).trans (apply_insertBalance present)
  refine (exec_bind_ok (exec_execute_ok ok)).trans ((exec_bind_ok (exec_select _ _)).trans ?_)
  rw [view, found]
  rfl

theorem exec_getBalanceForUpdate {row : BalanceRow}
    (found : Tables.balance s.view customerId currency = some row) :
    (getBalanceForUpdate customerId currency).exec s = (.ok row, s) := by
  refine (exec_bind_ok (exec_selectForUpdate _ _ _)).trans ?_
  rw [found]
  rfl

theorem exec_appendEntry {entry : LedgerEntry} {pending : List Statement} (positive : ¬ entry.amount ≤ zeroMoney) :
    (appendEntry entry pending).exec s = (flush (pending ++ [.insertLedger entry])).exec s := by
  rw [appendEntry, if_neg positive]

end Alone

end FxEngine
