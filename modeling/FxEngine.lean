import FxEngine.Transactions.Erasure
import FxEngine.Correctness.Solo
import FxEngine.Guarantees.Acknowledgements
import FxEngine.Guarantees.Amounts
import FxEngine.Guarantees.Atomicity
import FxEngine.Guarantees.Balances
import FxEngine.Guarantees.Idempotency
import FxEngine.Guarantees.Isolation
import FxEngine.Guarantees.Audit
import FxEngine.Guarantees.Deadlock
import FxEngine.Guarantees.Freshness
import FxEngine.Guarantees.Ledger
import FxEngine.Guarantees.Meters
import FxEngine.Guarantees.Metrics
import FxEngine.Guarantees.Pricing
import FxEngine.Guarantees.Progress
import FxEngine.Guarantees.RateBook
import FxEngine.Guarantees.Receipts
import FxEngine.Guarantees.Refreshes
import FxEngine.Guarantees.Requests
import FxEngine.Guarantees.RoundTrips
import FxEngine.Guarantees.Serializability
import FxEngine.Guarantees.Settlement
import FxEngine.Guarantees.Snapshots
import FxEngine.Guarantees.Usability
import FxEngine.Guarantees.Verdicts
