import FxEngine.Repositories.Balances

/-! # The ledger

The only writer to the ledger, and the sum a reconciliation compares with the
cached balance.
-/

namespace FxEngine

open Numeric Transactions Program

variable [Platform]

/-- Insert one immutable entry; the amount must be positive. The flush sends the
session's other changes along. -/
def appendEntry (entry : LedgerEntry) (pending : List Statement) : Tx Unit :=
  if entry.amount ≤ zeroMoney then .raise (.valueError "ledger entry amount must be positive")
  else flush (pending ++ [.insertLedger entry])

/-- `COALESCE(SUM(amount), 0)`; sums of `NUMERIC` are exact. -/
def sqlSum (amounts : List Decimal) : Decimal := amounts.foldl Decimal.exactAdd zeroMoney

def Tables.ledgerSum (db : Tables) (customerId : Uuid) (currency : Currency) (direction : Direction) :
    Decimal :=
  sqlSum ((db.ledger.filter fun entry =>
    entry.customerId = customerId ∧ entry.currency = currency ∧ entry.direction = direction).map
      LedgerEntry.amount)

/-- Sum the ledger for one customer and currency. -/
def computeBalance (customerId : Uuid) (currency : Currency) : Tx Decimal := do
  let credits ← select fun db : Tables => db.ledgerSum customerId currency .credit
  let debits ← select fun db : Tables => db.ledgerSum customerId currency .debit
  ofExcept (arith (roundMoney (credits - debits) currency))

end FxEngine
