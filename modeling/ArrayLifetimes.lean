import ArrayLifetimes.Engine.Draws
import ArrayLifetimes.Session.Basic
import ArrayLifetimes.Session.Stored
import ArrayLifetimes.Telemetry.Filter
import ArrayLifetimes.Telemetry.LogFormat
import ArrayLifetimes.Json.Writer
import ArrayLifetimes.Proofs.World.Ownership
import ArrayLifetimes.Proofs.World.Keeping
import ArrayLifetimes.Proofs.World.Commands
import ArrayLifetimes.Proofs.World.Issue
import ArrayLifetimes.Proofs.World.Ledger
import ArrayLifetimes.Proofs.Machine.Frames
import ArrayLifetimes.Proofs.Machine.Turn
import ArrayLifetimes.Proofs.Machine.Reach
import ArrayLifetimes.Proofs.Machine.Accounted
import ArrayLifetimes.Proofs.HandleProtocol
import ArrayLifetimes.Proofs.Machine.Debts
import ArrayLifetimes.Proofs.ClosedReleased
import ArrayLifetimes.Proofs.Machine.Call
import ArrayLifetimes.Proofs.CloseComplete
import ArrayLifetimes.Proofs.World.Outputs
import ArrayLifetimes.Proofs.Machine.Answers
import ArrayLifetimes.Proofs.OutputsDisposed
import ArrayLifetimes.Proofs.Cascade.Holding
import ArrayLifetimes.Proofs.Cascade.Cleared
import ArrayLifetimes.Proofs.Cascade.Stands
import ArrayLifetimes.Proofs.Cascade.Runs
import ArrayLifetimes.Proofs.Cascade.Closes
import ArrayLifetimes.Proofs.CascadeOrder
import ArrayLifetimes.Proofs.FailuresExact
import ArrayLifetimes.Proofs.PiecewiseClose
import ArrayLifetimes.Proofs.Engine.Inventory
import ArrayLifetimes.Proofs.Engine.Books
import ArrayLifetimes.Proofs.Engine.Encoding
import ArrayLifetimes.Proofs.Engine.Scatter
import ArrayLifetimes.Proofs.Engine.Compressed
import ArrayLifetimes.Proofs.World.Tally
import ArrayLifetimes.Proofs.World.Custody
import ArrayLifetimes.Proofs.Machine.Custody
import ArrayLifetimes.Proofs.NoLeak
import ArrayLifetimes.Proofs.World.Aside
import ArrayLifetimes.Proofs.World.Deeds
import ArrayLifetimes.Proofs.Machine.Feats
import ArrayLifetimes.Proofs.World.Forest
import ArrayLifetimes.Proofs.ForestExact
import ArrayLifetimes.Proofs.Machine.Rules
import ArrayLifetimes.Proofs.Machine.Inheritance
import ArrayLifetimes.Proofs.Machine.Lineage
import ArrayLifetimes.Proofs.NothingLost
import ArrayLifetimes.Proofs.Refusal
import ArrayLifetimes.Proofs.World.Seclusion
import ArrayLifetimes.Proofs.Machine.Seclusion
import ArrayLifetimes.Proofs.World.Contents
import ArrayLifetimes.Proofs.World.Household
import ArrayLifetimes.Proofs.World.Making
import ArrayLifetimes.Proofs.Machine.Making
import ArrayLifetimes.Proofs.CompressedRows
import ArrayLifetimes.Proofs.DetachedStays
import ArrayLifetimes.Proofs.RoundTrip
import ArrayLifetimes.Proofs.CascadesTerminate
import ArrayLifetimes.Proofs.WaitCycles
import ArrayLifetimes.Proofs.ElementCounts
import ArrayLifetimes.Proofs.FailedCalls
import ArrayLifetimes.Proofs.Cascade.Grove
import ArrayLifetimes.Proofs.Machine.Execution
import ArrayLifetimes.Proofs.Shutdown
import ArrayLifetimes.Proofs.Scopes
import ArrayLifetimes.Proofs.StoredValues
import ArrayLifetimes.Proofs.Engine.GivenRows
import ArrayLifetimes.Proofs.SparseRows
import ArrayLifetimes.Proofs.Engine.Words
import ArrayLifetimes.Proofs.Engine.Writing
import ArrayLifetimes.Proofs.Engine.Placing
import ArrayLifetimes.Proofs.Engine.Halting
import ArrayLifetimes.Proofs.AllocationPanics
import ArrayLifetimes.Proofs.Number.Integers
import ArrayLifetimes.Proofs.ResultsInPlace
import ArrayLifetimes.Proofs.IntegerSums
import ArrayLifetimes.Proofs.DeviceTexts
import ArrayLifetimes.Proofs.Number.Sums
import ArrayLifetimes.Proofs.Engine.Counts
import ArrayLifetimes.Proofs.DrawnCounts
import ArrayLifetimes.Proofs.FlatFailures
import ArrayLifetimes.Proofs.World.Pictures
import ArrayLifetimes.Proofs.Snapshots
