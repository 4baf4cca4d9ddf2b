import SshLogger.Library.History
import SshLogger.Library.Rows
import SshLogger.Library.Bytes
import SshLogger.Library.Lines
import SshLogger.Library.Grouping
import SshLogger.Library.Netip
import SshLogger.Library.Transaction
import SshLogger.Library.Schema
import SshLogger.Library.Nft
import SshLogger.Library.Json
import SshLogger.PolicyCache
import SshLogger.Policy
import SshLogger.Event
import SshLogger.Parser
import SshLogger.Spool
import SshLogger.Collect
import SshLogger.Store
import SshLogger.Terminations
import SshLogger.Firewall
import SshLogger.Ingest
import SshLogger.Servers
import SshLogger.Passkeys
import SshLogger.Accounts
import SshLogger.Administration
import SshLogger.Console
import SshLogger.Backup
import SshLogger.Agent
import SshLogger.Deployment
import SshLogger.Proofs.Records
import SshLogger.Proofs.Reading
import SshLogger.Proofs.LogRuns
import SshLogger.Proofs.Collection
import SshLogger.Proofs.Rotation
import SshLogger.Proofs.Poison
import SshLogger.Proofs.Serving
import SshLogger.Proofs.TerminationLifecycle
import SshLogger.Proofs.Delivery
import SshLogger.Proofs.Acknowledgement
import SshLogger.Proofs.Revocation
import SshLogger.Proofs.Ceremonies
import SshLogger.Proofs.Frame
import SshLogger.Proofs.Administration
import SshLogger.Proofs.Passwords
import SshLogger.Proofs.Factors
import SshLogger.Proofs.Consumption
import SshLogger.Proofs.Limiter
import SshLogger.Proofs.Authorization
import SshLogger.Proofs.Deletion
import SshLogger.Proofs.Replay
import SshLogger.Proofs.Restoration
import SshLogger.Proofs.Ruleset
import SshLogger.Proofs.PolicyCache
import SshLogger.Proofs.PolicyOrder
import SshLogger.Proofs.Progress
import SshLogger.Library.Select
import SshLogger.Activity
import SshLogger.Views
import SshLogger.Proofs.Noninterference
import SshLogger.Library.Search
import SshLogger.Proofs.Redaction
import SshLogger.Library.Rowid
import SshLogger.Proofs.Queue
import SshLogger.Proofs.Rejection
import SshLogger.Proofs.PasskeyLimit
import SshLogger.Library.NetipText
import SshLogger.Library.OrderedMap
import SshLogger.Access
import SshLogger.Proofs.FirewallEdits
import SshLogger.Proofs.FirewallRuns
import SshLogger.Proofs.FirewallHistory
import SshLogger.Library.Numerals
import SshLogger.Library.Interaction
import SshLogger.AgentTermination
import SshLogger.Proofs.SessionKill
import SshLogger.Proofs.AuditText
import SshLogger.Proofs.Reassembly
import SshLogger.Proofs.Arguments
import SshLogger.Proofs.Supervision
import SshLogger.Proofs.Rewind
import SshLogger.Proofs.AcceptedRequests
import SshLogger.Proofs.Replacement
import SshLogger.Proofs.ControlReports
import SshLogger.Proofs.ResponseLimit
import SshLogger.Proofs.ActivityViews
import SshLogger.Library.JsonText
import SshLogger.Proofs.WireRuns
import SshLogger.Proofs.DecodedBatches
import SshLogger.SpoolText
import SshLogger.Proofs.SpoolText
import SshLogger.Library.MatchedRows
import SshLogger.Proofs.SessionView
import SshLogger.Proofs.Presence
import SshLogger.Startup
import SshLogger.Proofs.Upgrade
import SshLogger.Proofs.DeliveryDelay
