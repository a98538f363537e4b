import Wheel.Text.Search
import Wheel.Text.Utf8
import Wheel.Text.Percent
import Wheel.Core.Name
import Wheel.Text.Escape
import Wheel.Core.Message
import Wheel.Core.Address
import Wheel.Core.Tool
import Wheel.Core.Node
import Wheel.Core.Validate
import Wheel.Core.State
import Wheel.Core.Envelope
import Wheel.Data.Keyed
import Wheel.Db.Messages
import Wheel.Data.Run
import Wheel.Db.MessageHistory
import Wheel.Db.Notifications
import Wheel.Db.Requeued
import Wheel.Db.Tables
import Wheel.Db.BoardState
import Wheel.Db.Vault
import Wheel.Harness.OauthSession
import Wheel.Db.SpawnEnv
import Wheel.Db.Board
import Wheel.Concurrency.Pool
import Wheel.Concurrency.Once
import Wheel.Concurrency.Program
import Wheel.Data.Json
import Wheel.Data.MergePatch
import Wheel.Harness.Event
import Wheel.Supervisor.Quota
import Wheel.Supervisor.Engine
import Wheel.Supervisor.Sections
import Wheel.Supervisor.Frame
import Wheel.Supervisor.Notified
import Wheel.Supervisor.Steps
import Wheel.Supervisor.InFlight
import Wheel.Supervisor.Replay
import Wheel.Supervisor.Delivered
import Wheel.Supervisor.Shutdown
import Wheel.Supervisor.Sessions
import Wheel.Data.Burst
import Wheel.Supervisor.Fairness
import Wheel.Supervisor.Parking
import Wheel.Data.Files
import Wheel.Update.State
import Wheel.Update.Driver
import Wheel.Update.Install
import Wheel.Update.Daemon
import Wheel.Update.Recovery
import Wheel.Update.Threads
import Wheel.Update.Crashes
import Wheel.Update.Verdict
import Wheel.Update.Components
import Wheel.Update.Ci
import Wheel.Update.Gate
import Wheel.Update.Registry
import Wheel.Update.Drain
import Wheel.Db.BoardHistory
import Wheel.Api.Ingress
import Wheel.Core.ProxyPath
import Wheel.Api.Auth
import Wheel.Api.Policy
import Wheel.Api.Proxy
import Wheel.Api.Membership
import Wheel.Api.Invites
import Wheel.Api.Accepted
import Wheel.Api.Apply
import Wheel.Api.Consent
import Wheel.Api.PlanDigest
import Wheel.Cli.Calls
import Wheel.Cli.Disclosure
import Wheel.Renewal.Broker
import Wheel.Renewal.EnsureFresh
import Wheel.Text.IpAddr
import Wheel.Http.HeaderLine
import Wheel.Http.ClientIp
import Wheel.Http.Forwarded
import Wheel.Mcp.Bridge
import Wheel.Mcp.Offered
import Wheel.Db.NodeJson
import Wheel.Builder.Shown
import Wheel.Builder.Hidden
import Wheel.Host.Store
import Wheel.Host.UidRanges
import Wheel.Host.Calls
import Wheel.Host.Wish
import Wheel.Api.Orphans
import Wheel.Api.Credentials
import Wheel.Api.Revocation
import Wheel.Host.Sandbox
import Wheel.Host.Engines
import Wheel.Supervisor.Idle
import Wheel.Data.DepthFirst
import Wheel.Supervisor.Awaits
import Wheel.Core.Denied
import Wheel.Api.Applied
import Wheel.Api.Reorder
import Wheel.Supervisor.Spend
import Wheel.Db.LimitCount
import Wheel.Supervisor.LimitCap
import Wheel.Data.JsonMap
import Wheel.Core.ToolOutput
import Wheel.Text.Replace
import Wheel.Data.JsonText
import Wheel.Tools.Execute
import Wheel.Text.UrlPath
import Wheel.Tools.Segments
import Wheel.Text.Template
import Wheel.Tools.Fixed
import Wheel.Data.Latest
import Wheel.Update.Breaker
import Wheel.Update.Persist
import Wheel.Api.QueryValue
import Wheel.Data.MergeMeaning
import Wheel.Api.MergePatch
import Wheel.Db.TableKeys
import Wheel.Data.Calendar
import Wheel.Text.Rfc3339
import Wheel.Db.Inbox
import Wheel.Api.VaultRoutes
import Wheel.Supervisor.ResumeAt
import Wheel.Api.EventsQuery
import Wheel.Renewal.Ratchet
import Wheel.Api.Redact
import Wheel.Builder.Credential
import Wheel.Builder.Compose
import Wheel.Core.Upstream
import Wheel.Api.ToolRoutes
import Wheel.Text.UrlHost
import Wheel.Core.VettedHost
import Wheel.Text.GitConfig
import Wheel.Text.Lines
import Wheel.Supervisor.GitCreds
import Wheel.Text.SqlTokens
import Wheel.Db.ExtraStatement
import Wheel.Supervisor.Queue
import Wheel.Api.ScriptOutput
import Wheel.Core.ChestKey
import Wheel.Db.JournalMode
import Wheel.Mcp.Serve
import Wheel.Db.TableStatements
import Wheel.Tools.Send
import Wheel.Api.BoardRoutes
