import FxEngine.Db.Models

/-! # Balance rows -/

namespace FxEngine

open Transactions Program

variable [Platform]

/-- `session.flush()`: send what is pending. -/
def flush (pending : List Statement) : Tx Unit := pending.forM fun s => execute s

/-- An attribute read after a commit loads its row again. -/
def reload : Tx Unit := select fun _ => ()

def getBalance (customerId : Uuid) (currency : Currency) : Tx (Option BalanceRow) :=
  select fun db : Tables => db.balance customerId currency

def ensureBalance (customerId : Uuid) (currency : Currency) : Tx BalanceRow := do
  execute (.insertBalance customerId currency)
  match ← getBalance customerId currency with
  | some balance => pure balance
  | none => .raise (.runtimeError "Balance row was not available after ensure.")

def ensureAllBalances (customerId : Uuid) : Tx Unit :=
  Currency.all.forM fun currency => do
    let _ ← ensureBalance customerId currency

def getBalanceForUpdate (customerId : Uuid) (currency : Currency) : Tx BalanceRow := do
  let found ← selectForUpdate
    (fun db : Tables => if (db.balance customerId currency).isSome then [.balance customerId currency] else [])
    (fun db : Tables => db.balance customerId currency)
  match found with
  | some balance => pure balance
  | none => .raise .noResultFound

def listBalances (customerId : Uuid) : Tx (List (Currency × Numeric.Decimal)) := do
  ensureAllBalances customerId
  let rows ← select fun db : Tables => db.balances.filter (·.customerId = customerId)
  let value (currency : Currency) :=
    ((Table.row BalanceRow.currency currency rows).map BalanceRow.balance).getD zeroMoney
  ofExcept (arith (Currency.all.mapM fun currency => do
    let rounded ← roundMoney (value currency) currency
    return (currency, rounded)))

end FxEngine
