import Dismissal.Session.Step
import Dismissal.Proofs.Instant.Calendar
import Dismissal.Proofs.Instant.Written
import Dismissal.Proofs.Identity.Keys
import Dismissal.Proofs.Json.Plain
import Dismissal.Proofs.Store.Codec
import Dismissal.Proofs.Store.Durable
import Dismissal.Proofs.Store.TreeLaws
import Dismissal.Proofs.Store.TableLaws
import Dismissal.Proofs.Store.TableFailures
import Dismissal.Proofs.Lifecycle.Exec
import Dismissal.Proofs.Lifecycle.Reference
import Dismissal.Proofs.Store.BackendLaws
import Dismissal.Proofs.Lifecycle.Batches
import Dismissal.Proofs.Lifecycle.Keeper
import Dismissal.Proofs.Lifecycle.Refinement
import Dismissal.Proofs.Store.FaultyLaws
import Dismissal.Proofs.Lifecycle.Races
import Dismissal.Proofs.Lifecycle.Announced
import Dismissal.Proofs.Cache.Chain
import Dismissal.Proofs.Cache.Laid
import Dismissal.Proofs.Cache.Refinement
import Dismissal.Proofs.Cache.Deeds
import Dismissal.Proofs.Cache.Retention
import Dismissal.Proofs.Cache.Sweeping
import Dismissal.Proofs.Cache.Keeping
import Dismissal.Proofs.Lifecycle.Substitution
import Dismissal.Proofs.Lifecycle.Isolation
import Dismissal.Proofs.Store.Rows
import Dismissal.Proofs.Lifecycle.Transitions
import Dismissal.Proofs.Lifecycle.Dates
import Dismissal.Proofs.Cache.Settling
import Dismissal.Proofs.Feed.History
import Dismissal.Proofs.Feed.Query
import Dismissal.Proofs.Http.Plan
import Dismissal.Proofs.Identity.WellFormed
import Dismissal.Proofs.Lifecycle.Refusals
import Dismissal.Proofs.Session.Delivery
import Dismissal.Proofs.Session.Items
import Dismissal.Proofs.Session.Streams
import Dismissal.Proofs.Cache.Inclusion
import Dismissal.Proofs.Lifecycle.Singles
import Dismissal.Proofs.Lifecycle.Straying
import Dismissal.Proofs.Store.TreeWrites
import Dismissal.Proofs.Lifecycle.Turns
import Dismissal.Proofs.Store.Gathering
import Dismissal.Proofs.Store.Obedient
import Dismissal.Proofs.Lifecycle.Telling
import Dismissal.Proofs.Cache.Filling
import Dismissal.Proofs.Lifecycle.CachedBatches
import Dismissal.Proofs.Instant.Advance
import Dismissal.Proofs.Cache.Evictions
import Dismissal.Proofs.Lifecycle.AtOnce
import Dismissal.Proofs.Text.Pieces
import Dismissal.Proofs.Disk.Join
import Dismissal.Proofs.Store.DefaultAddress
import Dismissal.Proofs.Session.Startup
import Dismissal.Proofs.Lifecycle.Checks
import Dismissal.Proofs.Lifecycle.Lockstep
import Dismissal.Proofs.Lifecycle.TimeLimits
import Dismissal.Proofs.Store.Accepting
import Dismissal.Proofs.Lifecycle.Blameless
import Dismissal.Proofs.Http.Boundary
import Dismissal.Proofs.Cache.Integrity
import Dismissal.Proofs.Store.Reach
