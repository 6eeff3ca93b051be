import Courier.Backend.Outage
import Courier.Main
import Courier.Poll.Rehearsal
import Courier.Proofs.Store.Blocking
import Courier.Proofs.Store.Fifo
import Courier.Proofs.Store.Lease
import Courier.Proofs.Store.Rows
import Courier.Session.Basic
import Courier.Proofs.Store.Conservation
import Courier.Proofs.Store.Continuity
import Courier.Proofs.Store.Filings
import Courier.Proofs.Store.Unspent
import Courier.Proofs.Consumer.Execution
import Courier.Proofs.Supervisor.Drain
import Courier.Proofs.Store.Undisturbed
import Courier.Proofs.Supervisor.Delivery
import Courier.Proofs.Cron.Search
import Courier.Proofs.Cron.Fire
import Courier.Proofs.Cron.Interleaving
import Courier.Proofs.Cron.Occurrences
import Courier.Proofs.Store.Refusal
import Courier.Proofs.Store.Locks
import Courier.Proofs.Consumer.Verdict
import Courier.Proofs.Store.Handover
import Courier.Proofs.Store.Overtaking
import Courier.Proofs.Cron.Commit
import Courier.Proofs.Store.Independence
import Courier.Proofs.Json.RoundTrip
import Courier.Proofs.Poll.Cancellation
import Courier.Proofs.Poll.Schedule
import Courier.Proofs.Poll.Standing
import Courier.Proofs.Supervisor.Termination
import Courier.Proofs.Store.Choice
import Courier.Proofs.Store.Breaker
import Courier.Proofs.Store.Duplicates
import Courier.Proofs.Consumer.Uninterrupted
import Courier.Proofs.Cron.Setback
import Courier.Proofs.Poll.Interval
import Courier.Proofs.Poll.Vigilance
import Courier.Proofs.Store.Retention
import Courier.Proofs.Url.Redaction
import Courier.Proofs.Url.Base
import Courier.Proofs.Cron.Instantiation
import Courier.Proofs.Config.StatusCodes
import Courier.Proofs.Config.BaseUrl
