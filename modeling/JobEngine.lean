import JobEngine.Execution.Controller
import JobEngine.Store.Memory
import JobEngine.Store.LockWait
import JobEngine.Store.QueryCodec
import JobEngine.Settings.Basic
import JobEngine.Waiter
import JobEngine.Simulation.BusTrial
import JobEngine.Simulation.Rehearsal
import JobEngine.Simulation.Scenario
import JobEngine.Simulation.Exchange
import JobEngine.Simulation.Process
import JobEngine.Json.Parser
import JobEngine.Proofs.Pool.Swap
import JobEngine.Proofs.Pool.Attempts
import JobEngine.Proofs.Pool.DueTime
import JobEngine.Proofs.Pool.WellFormed
import JobEngine.Proofs.Pool.CutOff
import JobEngine.Proofs.Pool.Secrets
import JobEngine.Proofs.Pool.Recovery
import JobEngine.Proofs.Store.Holding
import JobEngine.Proofs.Store.Ledger
import JobEngine.Proofs.Store.Origin
import JobEngine.Proofs.Life
import JobEngine.Proofs.Nest
import JobEngine.Proofs.Backoff
import JobEngine.Proofs.LeftAlone
import JobEngine.Proofs.AllOrNothing
import JobEngine.Proofs.Sql.Rows
import JobEngine.Proofs.Sql.Table
import JobEngine.Proofs.Sql.Update
import JobEngine.Proofs.Listing
import JobEngine.Proofs.Sql.Listing
import JobEngine.Proofs.Sql.ReadBack
import JobEngine.Proofs.Worker.Shutdown
import JobEngine.Proofs.Worker.Cancellation
import JobEngine.Proofs.Paging
import JobEngine.Proofs.RetryDates
import JobEngine.Proofs.Store.Waiting
import JobEngine.Proofs.Polling
import JobEngine.Proofs.FanOut
import JobEngine.Proofs.Sql.Bounds
import JobEngine.Proofs.LastWriter
import JobEngine.Proofs.Codec.Records
import JobEngine.Proofs.Settings.LockWait
