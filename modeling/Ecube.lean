import Ecube.Basic.BackwardLines
import Ecube.Basic.Chunks
import Ecube.Basic.EnvFile
import Ecube.Basic.EnvLines
import Ecube.Basic.Exclusion
import Ecube.Basic.FileTree
import Ecube.Basic.Integers
import Ecube.Basic.IpAddress
import Ecube.Basic.Json
import Ecube.Basic.JsonText
import Ecube.Basic.Like
import Ecube.Basic.MountLines
import Ecube.Basic.MountStack
import Ecube.Basic.OrderBy
import Ecube.Basic.Outcome
import Ecube.Basic.Pages
import Ecube.Basic.PosixPath
import Ecube.Basic.Quote
import Ecube.Basic.RelativePath
import Ecube.Basic.Retries
import Ecube.Basic.RoundRobin
import Ecube.Basic.RowHistory
import Ecube.Basic.Sql
import Ecube.Basic.StraightLine
import Ecube.Basic.Substitution
import Ecube.Basic.Swaps
import Ecube.Basic.SymlinkTree
import Ecube.Basic.Table
import Ecube.Basic.Text
import Ecube.Basic.TextLines
import Ecube.Basic.ThresholdBuffer
import Ecube.Basic.Transition
import Ecube.Basic.UpperCase
import Ecube.Basic.Upsert
import Ecube.Basic.Url
import Ecube.Interleaving.ActiveTime
import Ecube.Interleaving.BearerTokens
import Ecube.Interleaving.CallbackPermits
import Ecube.Interleaving.Completion
import Ecube.Interleaving.CopyRun
import Ecube.Interleaving.EjectHost
import Ecube.Interleaving.EjectStart
import Ecube.Interleaving.Fencing
import Ecube.Interleaving.FormatMount
import Ecube.Interleaving.HashWorker
import Ecube.Interleaving.HotplugEvents
import Ecube.Interleaving.Pause
import Ecube.Interleaving.PauseRestart
import Ecube.Interleaving.ProgressWriter
import Ecube.Interleaving.ReconciliationLock
import Ecube.Interleaving.Scheduling
import Ecube.Interleaving.SchedulingPass
import Ecube.Interleaving.SchedulingPlaces
import Ecube.Interleaving.SchedulingProgress
import Ecube.Interleaving.SessionStore
import Ecube.Interleaving.Sessions
import Ecube.Interleaving.Setup
import Ecube.Interleaving.SetupOnce
import Ecube.Interleaving.SetupRetry
import Ecube.Interleaving.ShareIsolation
import Ecube.Interleaving.SpaceRefresh
import Ecube.Interleaving.StartupWorkers
import Ecube.Interleaving.TargetFull
import Ecube.Invariants.Atomicity
import Ecube.Invariants.AuditExport
import Ecube.Invariants.Compared
import Ecube.Invariants.Completed
import Ecube.Invariants.Consistent
import Ecube.Invariants.Counters
import Ecube.Invariants.CustodySelector
import Ecube.Invariants.CustodySummary
import Ecube.Invariants.CustodyTotals
import Ecube.Invariants.Deletion
import Ecube.Invariants.Destination
import Ecube.Invariants.DeviceNodes
import Ecube.Invariants.Discovered
import Ecube.Invariants.DriveBinding
import Ecube.Invariants.EnvLayout
import Ecube.Invariants.Evidence
import Ecube.Invariants.ForeignAccounts
import Ecube.Invariants.GeneratedMounts
import Ecube.Invariants.Handoffs
import Ecube.Invariants.Holding
import Ecube.Invariants.IdentifierMaps
import Ecube.Invariants.IdentityRestart
import Ecube.Invariants.Isolation
import Ecube.Invariants.JobHistory
import Ecube.Invariants.JobRows
import Ecube.Invariants.Ledger
import Ecube.Invariants.Listing
import Ecube.Invariants.LiveShares
import Ecube.Invariants.LoginRoles
import Ecube.Invariants.Manifests
import Ecube.Invariants.Memberships
import Ecube.Invariants.MountRestored
import Ecube.Invariants.Moved
import Ecube.Invariants.Persisted
import Ecube.Invariants.PolicyUpdates
import Ecube.Invariants.ProjectFilter
import Ecube.Invariants.Provisioning
import Ecube.Invariants.Reassigned
import Ecube.Invariants.Reconciled
import Ecube.Invariants.Recovered
import Ecube.Invariants.Rediscovered
import Ecube.Invariants.Reservation
import Ecube.Invariants.Resynced
import Ecube.Invariants.Retention
import Ecube.Invariants.RolledBack
import Ecube.Invariants.Sizes
import Ecube.Invariants.SourceIsolation
import Ecube.Invariants.Sources
import Ecube.Invariants.Verification
import Ecube.Lifecycle
import Ecube.Paths.AuditText
import Ecube.Paths.Overlap
import Ecube.Paths.OverlapClassification
import Ecube.Paths.Sanitize
import Ecube.Paths.ShareContainment
import Ecube.Paths.SourceAreas
import Ecube.Repository
import Ecube.Schema
import Ecube.Services.AccountRequests
import Ecube.Services.Attention
import Ecube.Services.AuditDetails
import Ecube.Services.AuditListing
import Ecube.Services.AuditTrail
import Ecube.Services.Authentication
import Ecube.Services.Browse
import Ecube.Services.BrowseListing
import Ecube.Services.CacheReuse
import Ecube.Services.CallbackDelivery
import Ecube.Services.CallbackOutcome
import Ecube.Services.CallbackPayload
import Ecube.Services.Checks
import Ecube.Services.Configuration
import Ecube.Services.ConfigurationRequest
import Ecube.Services.CopyEngine
import Ecube.Services.CopyFile
import Ecube.Services.Custody
import Ecube.Services.DatabaseUrl
import Ecube.Services.DemoPassword
import Ecube.Services.Discovery
import Ecube.Services.DriveEject
import Ecube.Services.DriveFormat
import Ecube.Services.DriveIdentity
import Ecube.Services.DriveService
import Ecube.Services.DriveUnmount
import Ecube.Services.FileCompare
import Ecube.Services.FileFailures
import Ecube.Services.FileProgress
import Ecube.Services.Handoff
import Ecube.Services.JobRecovery
import Ecube.Services.JobService
import Ecube.Services.LogPatterns
import Ecube.Services.LogRedaction
import Ecube.Services.LogView
import Ecube.Services.MountLookup
import Ecube.Services.MountTableText
import Ecube.Services.Mounts
import Ecube.Services.NetworkMountPaths
import Ecube.Services.OsUsers
import Ecube.Services.PasswordPolicy
import Ecube.Services.Preparation
import Ecube.Services.Reconciliation
import Ecube.Services.SamplePlan
import Ecube.Services.SetupGate
import Ecube.Services.ShareReconciliation
import Ecube.Services.ShareValidation
import Ecube.Services.Shares
import Ecube.Services.StartupCache
import Ecube.Services.TargetFullQuery
import Ecube.Services.UserRoles
import Ecube.Writes
