import FxEngine.Correctness.Specification

/-! # Customers and credits meet their specification -/

namespace FxEngine

open Numeric Transactions Program

variable [Platform] [Settings]

/-! ## Opening an account -/

section Opening

variable {customerId : Uuid}

/-- A session that has inserted a customer and the given balances. -/
def opening (customerId : Uuid) (done : List Currency) : Local fx where
  writes := Statement.insertCustomer customerId :: done.map (Statement.insertBalance customerId)
  held := (done.map (Resource.balance customerId)).reverse ++ [.customer customerId]

omit [Settings] in
theorem overlay_balances {done : List Currency} {db : Tables} (distinct : done.Nodup)
    (absent : ∀ c ∈ done, db.balance customerId c = none) :
    fx.overlay (done.map (Statement.insertBalance customerId)) db =
      { db with balances := db.balances ++ done.map fun c => ⟨customerId, c, zeroMoney⟩ } := by
  induction done generalizing db with
  | nil =>
      rw [List.map_nil, List.map_nil, List.append_nil]
      rfl
  | cons c rest ih =>
      rw [List.nodup_cons] at distinct
      have here : (Statement.insertBalance customerId c).apply db =
          { db with balances := db.balances ++ [⟨customerId, c, zeroMoney⟩] } := by
        simp [Statement.apply, absent c List.mem_cons_self]
      refine (congrArg (fx.overlay _) here).trans ((ih distinct.2 fun d member => ?_).trans ?_)
      · refine (Table.row_append_ne fun row new => ?_).trans (absent d (List.mem_cons_of_mem _ member))
        rw [List.mem_singleton.mp new]
        intro same
        have : c = d := (Prod.mk.inj same).2
        exact distinct.1 (this ▸ member)
      · simp

omit [Settings] in
/-- What the session sees: the customer and its balances on top of the tables. -/
theorem view_opening {done : List Currency} {db : Tables} (accounts : Accounts db)
    (fresh : ¬ db.hasCustomer customerId) (distinct : done.Nodup) :
    (opening customerId done).view db = { db with
      customers := db.customers ++ [customerId]
      balances := db.balances ++ done.map fun c => ⟨customerId, c, zeroMoney⟩ } := by
  refine (overlay_balances distinct fun c _ => ?_ :
    fx.overlay _ { db with customers := db.customers ++ [customerId] } = _)
  refine Table.row_none.mpr fun row member same => fresh ?_
  exact (Prod.mk.inj same).1 ▸ accounts.owned row member

omit [Settings] in
theorem wrote_opening {done : List Currency} {c : Currency} {db : Tables}
    (absent : Tables.balance ((opening customerId done).view db) customerId c = none) :
    (opening customerId done).wrote (Statement.insertBalance customerId c) db =
      opening customerId (done ++ [c]) := by
  have claims : (Statement.insertBalance customerId c).claims ((opening customerId done).view db) =
      [.balance customerId c] := by
    rw [Statement.claims, absent]
    rfl
  rw [wrote_of_claims claims]
  simp [opening]

/-- The loop over the currencies: the balances `done` are inserted, `rest` are not. -/
theorem wp_openBalances {K : Assertion fx} {Q : Except PyError Unit → Assertion fx} {w : World fx}
    {done rest : List Currency} (distinct : (done ++ rest).Nodup) (inv : Invariant w.db w.now)
    (fresh : ¬ Tables.hasCustomer w.db customerId)
    (err : ∀ w' l e, l.counts = [] → Q (.error e) w' l)
    (ok : ∀ w', Invariant w'.db w'.now → ¬ Tables.hasCustomer w'.db customerId →
      Q (.ok ()) w' (opening customerId (done ++ rest))) :
    engine.wp K (rest.forM fun c => do let _ ← ensureBalance customerId c) Q w (opening customerId done) := by
  induction rest generalizing done w with
  | nil =>
      rw [List.append_nil] at ok
      exact ok w inv fresh
  | cons c rest ih =>
      have stays : ∀ {w'}, engine.Later (opening customerId done).held w w' →
          ¬ Tables.hasCustomer w'.db customerId := fun later known =>
        fresh ((later.interfere.same (.customer customerId) (by simp [opening])).mpr known)
      have seen : ∀ {w'}, engine.Later (opening customerId done).held w w' →
          Tables.balance ((opening customerId done).view w'.db) customerId c = none := by
        intro w' later
        rw [view_opening later.inv.accounts (stays later) (List.Nodup.of_append_left distinct)]
        refine Table.row_none.mpr fun row member same => ?_
        rcases List.mem_append.mp member with old | new
        · exact stays later ((Prod.mk.inj same).1 ▸ later.inv.accounts.owned row old)
        · obtain ⟨d, inside, rfl⟩ := List.mem_map.mp new
          have := (List.nodup_append.mp distinct).2.2 d inside c List.mem_cons_self
          exact this (Prod.mk.inj same).2
      refine Protocol.wp_bind (Protocol.wp_bind (Protocol.wp_bind (Protocol.wp_execute ?_ ?_ ?_)))
      · exact fun w' e _ => err w' _ e rfl
      · exact fun w' e _ _ => err w' _ e rfl
      · intro w' later _
        rw [wrote_opening (seen later)]
        refine Protocol.wp_bind (Protocol.wp_select ?_ ?_)
        · exact fun w'' e _ => err w'' _ e rfl
        · intro w'' later'
          have both : engine.Later (opening customerId done).held w w'' :=
            later.trans (later'.anti (by simp [opening]))
          have view : (opening customerId (done ++ [c])).view w''.db = _ :=
            view_opening both.inv.accounts (stays both)
              (List.Nodup.of_append_left (List.append_cons .. ▸ distinct))
          have present : (Tables.balance ((opening customerId (done ++ [c])).view w''.db) customerId c).isSome := by
            rw [view, Tables.balance, Table.row_isSome]
            exact List.mem_map.mpr ⟨⟨customerId, c, zeroMoney⟩, by simp, rfl⟩
          obtain ⟨row, found⟩ := Option.isSome_iff_exists.mp present
          simp only [found]
          refine ih (List.append_cons .. ▸ distinct) later'.inv (stays both) fun final good absent => ?_
          rw [← List.append_cons]
          exact ok final good absent

theorem createCustomer_verified {w : World fx} :
    engine.wp (Commits (.createCustomer customerId)) (program (.createCustomer customerId))
      (engine.settled (Outcome (.createCustomer customerId))) w {} := by
  have quiet : ∀ r w l, l.counts = [] → engine.settled (Outcome (.createCustomer customerId)) r w l :=
    fun _ _ _ => settled_quiet fun _ _ _ => rfl
  refine Protocol.wp_bind (Protocol.wp_bind (wp_flush ?_ ?_ ?_))
  · exact fun w' e _ => quiet _ _ _ rfl
  · exact fun w' e _ _ => quiet _ _ _ rfl
  · intro w' later ok
    have fresh : ¬ Tables.hasCustomer w'.db customerId := violates_eq_none.mp ok
    refine wp_flush_nil (Protocol.wp_bind ?_)
    change engine.wp _ _ _ w' (opening customerId [])
    refine wp_openBalances (by decide) later.inv fresh ?_ ?_
    · exact fun w' l e none => quiet _ _ _ none
    · intro w' inv fresh
      refine Protocol.wp_bind (Protocol.wp_commitAll ?_ ?_)
      · exact fun w'' e _ => quiet _ _ _ rfl
      · intro w'' later
        have absent : ¬ Tables.hasCustomer w''.db customerId := fun known =>
          fresh ((later.interfere.same (.customer customerId) (by simp [opening])).mpr known)
        refine ⟨⟨.openAccount customerId, .openAccount absent, ?_, ?_, rfl⟩, ?_⟩
        · simp [Action.slots, opening, Currency.all]
        · exact view_opening later.inv.accounts absent (by decide)
        · refine Protocol.wp_bind (wp_reload ?_ ?_)
          · exact fun w'' e _ => quiet _ _ _ rfl
          · exact fun w'' _ => quiet _ _ _ rfl

end Opening

/-! ## Reading balances -/

section Reading

variable {customerId : Uuid} {K : Assertion fx}

theorem wp_assertCustomerExists {Q : Except PyError Unit → Assertion fx} {w : World fx} {l : Local fx}
    (err : ∀ w' e, engine.Later l.held w w' → Q (.error e) w' l)
    (ok : ∀ w', engine.Later l.held w w' → Tables.hasCustomer (l.view w'.db) customerId → Q (.ok ()) w' l) :
    engine.wp K (assertCustomerExists customerId) Q w l := by
  refine Protocol.wp_bind (Protocol.wp_select err fun w' later => ?_)
  by_cases known : Tables.hasCustomer (l.view w'.db) customerId
  all_goals change engine.wp K (if decide _ = true then _ else _) Q w' l
  · rw [if_pos (decide_eq_true known)]
    exact ok w' later known
  · rw [if_neg (by simpa using known)]
    exact err w' _ later

/-- Inserting the balances of an existing customer again does nothing. -/
theorem wp_ensureBalances {Q : Except PyError Unit → Assertion fx} {w : World fx} {l : Local fx}
    {currencies : List Currency} (known : Tables.hasCustomer w.db customerId)
    (clean : ∀ db, Accounts db → db.hasCustomer customerId → l.view db = db) (inv : Invariant w.db w.now)
    (err : ∀ w' l' e, l'.counts = l.counts → Q (.error e) w' l')
    (ok : ∀ w' l', l'.counts = l.counts → Q (.ok ()) w' l') :
    engine.wp K (currencies.forM fun c => do let _ ← ensureBalance customerId c) Q w l := by
  induction currencies generalizing w l with
  | nil => exact ok w l rfl
  | cons c rest ih =>
      have present : ∀ w', engine.Later l.held w w' →
          (Tables.balance (l.view w'.db) customerId c).isSome := by
        intro w' later
        have still := later.interfere.grown.customer known
        rw [clean _ later.inv.accounts still]
        exact later.inv.accounts.opened _ still c
      refine Protocol.wp_bind (Protocol.wp_bind (wp_ensureBalance present ?_ ?_))
      · rintro w' l' e - (rfl | rfl | rfl) <;> exact err w' _ e rfl
      · intro w' row later
        have still := later.interfere.grown.customer known
        refine ih still (fun db accounts has => ?_) later.inv err ok
        have same := clean db accounts has
        rw [view_ensured (by rw [same]; exact accounts.opened _ has c), same]

theorem getBalances_verified {w : World fx} :
    engine.wp (Commits (.getBalances customerId)) (program (.getBalances customerId))
      (engine.settled (Outcome (.getBalances customerId))) w {} := by
  have quiet : ∀ r w l, l.counts = [] → engine.settled (Outcome (.getBalances customerId)) r w l :=
    fun _ _ _ => settled_quiet fun _ _ _ => rfl
  refine Protocol.wp_bind (Protocol.wp_bind (wp_assertCustomerExists ?_ ?_))
  · exact fun w' e _ => quiet _ _ _ rfl
  · intro w' later known
    refine Protocol.wp_bind (wp_ensureBalances known (fun _ _ _ => rfl) later.inv ?_ ?_)
    · exact fun w' l e none => quiet _ _ _ none
    · intro w' l none
      refine Protocol.wp_bind (Protocol.wp_select ?_ ?_)
      · exact fun w'' e _ => quiet _ _ _ none
      · refine fun w'' _ => Protocol.wp_ofExcept ?_
        generalize arith _ = r
        cases r <;> exact quiet _ _ _ none

end Reading

/-! ## Credits -/

section Credit

variable {adjustmentId customerId : Uuid} {currency : Currency} {amount : Json}

omit [Settings] in
theorem exec_assertCustomerExists {s : Session fx} (known : Tables.hasCustomer s.view customerId) :
    (assertCustomerExists customerId).exec s = (.ok (), s) := by
  refine (exec_bind_ok (exec_select _ _)).trans ?_
  change Program.exec (if decide _ = true then _ else _) s = _
  rw [if_pos (decide_eq_true known)]
  rfl

omit [Settings] in
theorem exec_assertCustomerExists_unknown {s : Session fx} (unknown : ¬ Tables.hasCustomer s.view customerId) :
    (assertCustomerExists customerId).exec s =
      (.error (notFound "customer_not_found" s!"Customer {uuidStr customerId} not found."), s) := by
  refine (exec_bind_ok (exec_select _ _)).trans ?_
  change Program.exec (if decide _ = true then _ else _) s = _
  rw [if_neg (by simpa using unknown)]
  rfl

/-- The facts on which a credit succeeds. -/
structure Creditable (db : Tables) (adjustmentId customerId : Uuid) (currency : Currency) (amount : Json)
    (held credited : ℤ) : Prop where
  customer : db.hasCustomer customerId
  accepted : ∃ d, positiveDecimal "amount" amount = .ok d ∧ roundMoney d currency = .ok (cents credited)
  positive : 0 < credited
  fits : credited < 10 ^ numericPrecision
  balance : db.balance customerId currency = some ⟨customerId, currency, cents held⟩
  funds : 0 ≤ held ∧ held < 10 ^ numericPrecision
  room : held + credited < 10 ^ numericPrecision
  fresh : db.adjustment adjustmentId = none
  unposted : db.entry (.creditAdjustment, adjustmentId, .credit) = none

/-- A credit on its own. -/
theorem Creditable.run {db : Tables} {held credited : ℤ} {clock : List Instant}
    (h : Creditable db adjustmentId customerId currency amount held credited) :
    (program (.creditBalance adjustmentId customerId currency amount)).run clock db =
      (.ok (.balance currency (cents (held + credited))),
        (Action.credit ⟨adjustmentId, customerId, currency, cents credited⟩
          (cents (held + credited))).apply db) := by
  obtain ⟨d, accepted, rounded⟩ := h.accepted
  have present : (db.balance customerId currency).isSome := by rw [h.balance]; rfl
  let s : Session fx := ⟨clock, [], db⟩
  let s₁ := s.wrote (Statement.insertBalance customerId currency)
  let s₂ := s₁.wrote (Statement.insertAdjustment ⟨adjustmentId, customerId, currency, cents credited⟩)
  let s₃ := s₂.wrote (Statement.insertLedger
    (adjustmentEntry ⟨adjustmentId, customerId, currency, cents credited⟩))
  let s₄ := s₃.wrote (Statement.updateBalance customerId currency (cents (held + credited)))
  have view₁ : s₁.view = db := (s.view_wrote _).trans (apply_insertBalance present)
  have view₂ : s₂.view = { db with
      adjustments := db.adjustments ++ [⟨adjustmentId, customerId, currency, cents credited⟩] } :=
    (s₁.view_wrote _).trans (congrArg _ view₁)
  have view₃ : s₃.view = { db with
      adjustments := db.adjustments ++ [⟨adjustmentId, customerId, currency, cents credited⟩]
      ledger := db.ledger ++ [adjustmentEntry ⟨adjustmentId, customerId, currency, cents credited⟩] } :=
    (s₂.view_wrote _).trans (congrArg _ view₂)
  have view₄ : s₄.view = (Action.credit ⟨adjustmentId, customerId, currency, cents credited⟩
      (cents (held + credited))).apply db := (s₃.view_wrote _).trans (congrArg _ view₃)
  have adjusted : (flush [.insertAdjustment ⟨adjustmentId, customerId, currency, cents credited⟩]).exec s₁ =
      (.ok (), s₂) := by
    refine (exec_flush (Statement.check_insertAdjustment.mpr ?_)).trans exec_flush_nil
    rw [view₁]
    exact ⟨fitsMoney_cents.mpr (natAbs_fits h.positive.le h.fits), h.fresh, h.customer⟩
  have posted : (appendEntry (adjustmentEntry ⟨adjustmentId, customerId, currency, cents credited⟩) []).exec s₂ =
      (.ok (), s₃) := by
    obtain ⟨above, fits, positive⟩ := postable rfl h.positive h.fits
    refine (exec_appendEntry above).trans
      ((exec_flush (Statement.check_insertLedger.mpr ?_)).trans exec_flush_nil)
    rw [view₂]
    exact ⟨fits, positive, h.unposted, h.customer⟩
  have updated : (flush [.updateBalance customerId currency (cents (held + credited))]).exec s₃ =
      (.ok (), s₄) := by
    exact (exec_flush (check_balance (add_nonneg h.funds.1 h.positive.le) h.room)).trans exec_flush_nil
  have found : Tables.balance s₄.committed.view customerId currency =
      some ⟨customerId, currency, cents (held + credited)⟩ := by
    change Tables.balance s₄.view customerId currency = _
    rw [view₄]
    exact Tables.balance_setBalance_self h.balance
  have sum : arith (roundMoney (cents held + cents credited) currency) = .ok (cents (held + credited)) := by
    rw [roundMoney_add currency (natAbs_fits h.funds.1 h.funds.2)
      (natAbs_fits h.positive.le h.fits)]
    rfl
  have service : (creditBalance adjustmentId customerId currency d).exec s =
      (.ok (cents (held + credited)), s₄.committed) := by
    refine (exec_bind_ok (exec_assertCustomerExists (s := s) h.customer)).trans ?_
    refine (exec_bind_ok ((exec_ofExcept _ _).trans (by rw [rounded]; rfl))).trans ?_
    refine (exec_bind_ok (exec_ensureBalance (s := s) h.balance)).trans ?_
    refine (exec_bind_ok (exec_getBalanceForUpdate (view₁ ▸ h.balance))).trans ?_
    refine (exec_bind_ok adjusted).trans ((exec_bind_ok posted).trans ?_)
    refine (exec_bind_ok ((exec_ofExcept _ _).trans (by rw [sum]))).trans ?_
    refine (exec_bind_ok updated).trans ((exec_bind_ok (exec_commitAll _)).trans ?_)
    refine (exec_bind_ok (exec_select _ _)).trans ?_
    rw [found]
    rfl
  have whole : (program (.creditBalance adjustmentId customerId currency amount)).exec s =
      (.ok (.balance currency (cents (held + credited))), s₄.committed) := by
    refine (exec_bind_ok ((exec_ofExcept _ _).trans (by rw [accepted]))).trans ?_
    exact exec_bind_ok service
  rw [Program.run, whole]
  exact congrArg (Prod.mk _) view₄

/-- What a held resource says is still so later. -/
theorem carry {held : List Resource} {w w' : World fx} (later : engine.Later held w w') {r : Resource}
    (inside : r ∈ held) : Same w.db w'.db r :=
  later.interfere.same r inside

theorem creditBalance_verified {w : World fx} :
    engine.wp (Commits (.creditBalance adjustmentId customerId currency amount))
      (program (.creditBalance adjustmentId customerId currency amount))
      (engine.settled (Outcome (.creditBalance adjustmentId customerId currency amount))) w {} := by
  have quiet : ∀ r w l, l.counts = [] →
      engine.settled (Outcome (.creditBalance adjustmentId customerId currency amount)) r w l :=
    fun _ _ _ => settled_quiet fun _ _ _ => rfl
  refine Protocol.wp_bind (Protocol.wp_ofExcept ?_)
  cases accepted : positiveDecimal "amount" amount with
  | error e => exact quiet _ _ _ rfl
  | ok d =>
  refine Protocol.wp_bind (Protocol.wp_bind (wp_assertCustomerExists (fun _ _ _ => quiet _ _ _ rfl) ?_))
  intro w₁ later₁ known₁
  refine Protocol.wp_bind (Protocol.wp_ofExcept ?_)
  cases rounded : roundMoney d currency with
  | error e => exact quiet _ _ _ rfl
  | ok r =>
  obtain ⟨n, rfl⟩ : ∃ n, r = cents n := ⟨_, roundMoney_cents rounded⟩
  -- the customer's balances exist from here on
  have opened : ∀ {w' : World fx}, Grown w₁.db w'.db → Invariant w'.db w'.now →
      (Tables.balance w'.db customerId currency).isSome :=
    fun grown inv => inv.accounts.opened _ (grown.customer known₁) currency
  have see : ∀ {w' : World fx}, Grown w₁.db w'.db → Invariant w'.db w'.now →
      (ensured {} customerId currency).view w'.db = w'.db :=
    fun grown inv => view_ensured (opened grown inv)
  refine Protocol.wp_bind (wp_ensureBalance (fun w' later => opened later.interfere.grown later.inv)
    (by rintro w' l' e - (rfl | rfl | rfl) <;> exact quiet _ _ _ rfl) ?_)
  intro w₂ _ later₂
  have grown₂ := later₂.interfere.grown
  refine Protocol.wp_bind (wp_getBalanceForUpdate
    (fun w' later => by
      rw [see (grown₂.trans later.interfere.grown) later.inv]
      exact opened (grown₂.trans later.interfere.grown) later.inv) (fun _ _ _ => quiet _ _ _ rfl) ?_)
  intro w₃ row later₃ found
  have grown₃ := grown₂.trans later₃.interfere.grown
  rw [see grown₃ later₃.inv] at found
  obtain ⟨m, rfl⟩ := later₃.inv.accounts.row found
  refine Protocol.wp_bind (wp_flush (fun _ _ _ => quiet _ _ _ rfl) (fun _ _ _ _ => quiet _ _ _ rfl) ?_)
  intro w₄ later₄ ok₄
  have grown₄ := grown₃.trans later₄.interfere.grown
  rw [Local.view_acquire, see grown₄ later₄.inv] at ok₄
  obtain ⟨fits, fresh, -⟩ := Statement.check_insertAdjustment.mp ok₄
  refine wp_flush_nil (Protocol.wp_bind ?_)
  rw [appendEntry]
  split
  · exact quiet _ _ _ rfl
  rename_i positive
  refine wp_flush (fun _ _ _ => quiet _ _ _ rfl) (fun _ _ _ _ => quiet _ _ _ rfl) ?_
  intro w₅ later₅ ok₅
  have grown₅ := grown₄.trans later₅.interfere.grown
  rw [Local.view_wrote, Local.view_acquire, see grown₅ later₅.inv] at ok₅
  obtain ⟨-, above, unposted, -⟩ := Statement.check_insertLedger.mp ok₅
  have credited : 0 < n := cents_lt.mp above
  refine wp_flush_nil (Protocol.wp_bind (Protocol.wp_ofExcept ?_))
  have account := later₃.inv.accounts.balance found
  rw [roundMoney_add currency (natAbs_fits account.2.1 account.2.2) (fitsMoney_cents.mp fits)]
  refine Protocol.wp_bind (wp_flush (fun _ _ _ => quiet _ _ _ rfl) (fun _ _ _ _ => quiet _ _ _ rfl) ?_)
  intro w₆ later₆ ok₆
  have room : (m + n).natAbs < 10 ^ numericPrecision :=
    fitsMoney_cents.mp (Statement.check_updateBalance.mp ok₆).1
  refine wp_flush_nil (Protocol.wp_bind (Protocol.wp_commitAll (fun _ _ _ => quiet _ _ _ rfl) ?_))
  intro w₇ later₇
  -- what the credit rests on has not changed since it was read
  have grown₇ := grown₅.trans (later₆.interfere.grown.trans later₇.interfere.grown)
  have since₄ : engine.Later [.adjustment adjustmentId] w₄ w₇ :=
    (later₅.anti (by simp [Local.wrote, Statement.claims])).trans
      ((later₆.anti (by simp [Local.wrote, Statement.claims])).trans
        (later₇.anti (by simp [Local.wrote, Statement.claims])))
  have since₅ : engine.Later [.ledger (.creditAdjustment, adjustmentId, .credit)] w₅ w₇ :=
    (later₆.anti (by simp [Local.wrote, Statement.claims])).trans
      (later₇.anti (by simp [Local.wrote, Statement.claims]))
  have since₃ : engine.Later [.balance customerId currency] w₃ w₇ :=
    (later₄.anti (by simp [Local.acquire])).trans
      ((later₅.anti (by simp [Local.wrote, Local.acquire])).trans
        ((later₆.anti (by simp [Local.wrote, Local.acquire])).trans
          (later₇.anti (by simp [Local.wrote, Local.acquire]))))
  have creditable : Creditable w₇.db adjustmentId customerId currency amount m n :=
    { customer := grown₇.customer known₁
      accepted := ⟨d, accepted, rounded⟩
      positive := credited
      fits := by have := fitsMoney_cents.mp fits; simp only [numericPrecision] at *; omega
      balance := (carry since₃ List.mem_cons_self).symm.trans found
      funds := account.2
      room := by have := room; simp only [numericPrecision] at *; omega
      fresh := (carry since₄ List.mem_cons_self).symm.trans fresh
      unposted := (carry since₅ List.mem_cons_self).symm.trans unposted }
  refine ⟨⟨_, .credit creditable.customer creditable.fresh creditable.balance rfl credited creditable.room,
    ?_, ?_, ⟨_, _, rfl⟩, ⟨_, creditable.run⟩⟩, ?_⟩
  · simp [Action.slots, Local.wrote, Statement.claims, adjustmentEntry]
  · rw [Local.view_wrote, Local.view_wrote, Local.view_wrote, Local.view_acquire, see grown₇ later₇.inv]
    rfl
  · refine Protocol.wp_bind (Protocol.wp_select (fun _ _ _ => quiet _ _ _ rfl) fun w' _ => ?_)
    generalize Tables.balance _ customerId currency = row
    cases row <;> exact quiet _ _ _ rfl

end Credit

end FxEngine
