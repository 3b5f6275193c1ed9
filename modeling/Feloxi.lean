import Feloxi.Lib.F64
import Feloxi.Lib.Json
import Feloxi.Lib.Uuid
import Feloxi.Lib.Runs
import Feloxi.Alerting.Models
import Feloxi.Alerting.Stats
import Feloxi.Alerting.Engine
import Feloxi.Alerting.Context
import Feloxi.Alerting.FailClosed
import Feloxi.Alerting.Channels
import Feloxi.Alerting.Recovery
import Feloxi.Alerting.Store
import Feloxi.Alerting.Dispatch
import Feloxi.Alerting.Evaluation
import Feloxi.Alerting.System
import Feloxi.Alerting.Waiting
import Feloxi.Alerting.Steps
import Feloxi.Alerting.Pass
import Feloxi.Alerting.Drain
import Feloxi.Alerting.Keys
import Feloxi.Alerting.Cooldown
import Feloxi.Alerting.Incidents
import Feloxi.Alerting.Focus
import Feloxi.Alerting.Resolve
import Feloxi.Alerting.Notices
import Feloxi.Alerting.Silences
import Feloxi.Alerting.Routing
import Feloxi.Alerting.PagerDuty
import Feloxi.Alerting.Evidence
import Feloxi.Alerting.Attempts
import Feloxi.Alerting.Budget
import Feloxi.Alerting.DeliveryLog
import Feloxi.Lib.RedisList
import Feloxi.Pipeline.Events
import Feloxi.Pipeline.Ingest
import Feloxi.Pipeline.Tally
import Feloxi.Pipeline.Conservation
import Feloxi.Pipeline.ReplayOrder
import Feloxi.Pipeline.LiveUpdates
import Feloxi.Lib.Batches
import Feloxi.Pipeline.WorkerBatches
import Feloxi.Broker.Consumers
import Feloxi.Broker.Transports
import Feloxi.Tasks.PyRepr
import Feloxi.Tasks.SafeRepr
import Feloxi.Tasks.ReadBack
import Feloxi.Tasks.Quotes
import Feloxi.Tasks.Cuts
import Feloxi.Tasks.Weights
import Feloxi.Tasks.Retry
import Feloxi.Broker.Loops
import Feloxi.Auth.Rbac
import Feloxi.Broker.Manager
import Feloxi.Broker.Exclusive
import Feloxi.Broker.Tenancy
import Feloxi.Broker.Isolation
import Feloxi.Broker.Status
import Feloxi.Auth.Store
import Feloxi.Auth.Sessions
import Feloxi.Auth.Effects
import Feloxi.Auth.Refresh
import Feloxi.Auth.Footprints
import Feloxi.Auth.Contracts
import Feloxi.Auth.MagicLinks
import Feloxi.Auth.ApiKeys
import Feloxi.Auth.Members
import Feloxi.Auth.Setup
import Feloxi.Ws.Dashboard
import Feloxi.Auth.Takeover
import Feloxi.Lib.Doubles
import Feloxi.Lib.JsonValues
import Feloxi.Tasks.Resend
import Feloxi.Lib.Overwrites
import Feloxi.Ws.Rounds
import Feloxi.Ws.Store
import Feloxi.Lib.Paging
import Feloxi.Views.TaskEvents
import Feloxi.Views.TaskList
import Feloxi.Views.TaskSummary
import Feloxi.Views.Merged
import Feloxi.Views.RetryChain
import Feloxi.Views.Agreement
import Feloxi.Lib.Forests
import Feloxi.Views.RetryTree
import Feloxi.Lib.Acyclic
import Feloxi.Views.Dag
import Feloxi.Views.Workflow
import Feloxi.Tenants.Retention
import Feloxi.Broker.Redact
import Feloxi.Broker.Passwords
import Feloxi.Lib.Sweeps
import Feloxi.Broker.AtRest
import Feloxi.Broker.Masking
import Feloxi.Lib.Base64
import Feloxi.Redis.Keys
import Feloxi.Auth.OAuth
import Feloxi.Auth.OAuthFlow
import Feloxi.Lib.Templates
import Feloxi.Redis.KeySpace
import Feloxi.Lib.Interleavings
import Feloxi.Redis.Workers
import Feloxi.Redis.Liveness
import Feloxi.Alerting.Failures
import Feloxi.Alerting.Recording
import Feloxi.Lib.Memo
import Feloxi.Alerting.Memoisation
import Feloxi.Lib.Moments
import Feloxi.Lib.Finite
import Feloxi.Alerting.Baseline
import Feloxi.Lib.Reals
import Feloxi.Alerting.Spikes
import Feloxi.Alerting.NoiseFloor
import Feloxi.Alerting.NoEvents
import Feloxi.Alerting.TaskGlobs
import Feloxi.Broker.ParseFailures
import Feloxi.Pipeline.Names
import Feloxi.Pipeline.Timestamps
import Feloxi.Broker.Envelopes
import Feloxi.Broker.RedisUrl
import Feloxi.Broker.RedisDb
import Feloxi.Tasks.LiteralValues
import Feloxi.Tasks.Repr
import Feloxi.Tasks.PyLiterals
import Feloxi.Tasks.Deviations
import Feloxi.Tasks.DictDisplays
import Feloxi.Tasks.Guesses
import Feloxi.Lib.Utf8
import Feloxi.Tasks.ReprBytes
import Feloxi.Broker.RedactScan
import Feloxi.Lib.Grouping
import Feloxi.Views.DagEdges
import Feloxi.Views.Chords
import Feloxi.Views.WorkflowRoot
import Feloxi.Lib.Placeholders
import Feloxi.Views.RetryLinks
import Feloxi.Views.SqlBinds
import Feloxi.Auth.Invites
import Feloxi.Lib.JsRegex
import Feloxi.Web.Fingerprint
import Feloxi.Web.FailureGroups
import Feloxi.Lib.Ranking
import Feloxi.Web.FailureSamples
import Feloxi.Lib.Bins
import Feloxi.Web.Series
import Feloxi.Lib.DepthFirst
import Feloxi.Web.Layout
import Feloxi.Web.LayoutDepths
import Feloxi.Auth.SlackChannels
import Feloxi.Views.Exposition
import Feloxi.Redis.WorkerGauge
import Feloxi.Alerting.Discord
import Feloxi.Lib.JsonEscapes
import Feloxi.Lib.Replacements
import Feloxi.Auth.PopupPage
import Feloxi.Alerting.Templates
import Feloxi.Auth.SlackFlight
import Feloxi.Auth.SlackListing
import Feloxi.Broker.QueueStats
import Feloxi.Broker.QueuePolls
import Feloxi.Redis.WorkerHealth
import Feloxi.Web.ApiClient
import Feloxi.Alerting.BaselineReads
import Feloxi.Views.QueueOverview
import Feloxi.Auth.GoogleSignIn
import Feloxi.Auth.Admission
import Feloxi.Lib.Csv
import Feloxi.Web.TasksPage
import Feloxi.Alerting.Seclusion
import Feloxi.Ws.Socket
import Feloxi.Tenants.Notifications
