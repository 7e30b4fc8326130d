import FxEngine.Repositories.Ledger

/-! # Customers and credits -/

namespace FxEngine

open Numeric Transactions Program

variable [Platform]

def createCustomer (customerId : Uuid) : Tx Uuid := do
  flush [.insertCustomer customerId]
  ensureAllBalances customerId
  commitAll
  reload
  pure customerId

def assertCustomerExists (customerId : Uuid) : Tx Unit := do
  let known ← select fun db : Tables => decide (db.hasCustomer customerId)
  if known then pure ()
  else .raise (notFound "customer_not_found" s!"Customer {uuidStr customerId} not found.")

def getBalances (customerId : Uuid) : Tx (List (Currency × Decimal)) := do
  assertCustomerExists customerId
  listBalances customerId

def creditBalance (adjustmentId customerId : Uuid) (currency : Currency) (amount : Decimal) : Tx Decimal := do
  assertCustomerExists customerId
  let rounded ← ofExcept (arith (roundMoney amount currency))
  let _ ← ensureBalance customerId currency
  let balance ← getBalanceForUpdate customerId currency
  flush [.insertAdjustment ⟨adjustmentId, customerId, currency, rounded⟩]
  appendEntry ⟨customerId, currency, rounded, .credit, .creditAdjustment, adjustmentId⟩ []
  let updated ← ofExcept (arith (roundMoney (balance.balance + rounded) currency))
  -- the commit flushes the changed balance
  flush [.updateBalance customerId currency updated]
  commitAll
  match ← getBalance customerId currency with
  | some row => pure row.balance
  | none => .raise .noResultFound

end FxEngine
