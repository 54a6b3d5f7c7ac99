import NodeConfig.Cell
import NodeConfig.Global
import NodeConfig.Main
import NodeConfig.Session
import NodeConfig.Proofs.Channel.Accounting
import NodeConfig.Proofs.Files.Append
import NodeConfig.Proofs.Files.Change
import NodeConfig.Proofs.Snapshot.RoundTrip
import NodeConfig.Proofs.Store.Rotation
import NodeConfig.Proofs.Snapshot.Write
import NodeConfig.Proofs.Identity.Defaults
import NodeConfig.Proofs.Store.Persistence
import NodeConfig.Proofs.Global
import NodeConfig.Proofs.Session.Rotate
import NodeConfig.Proofs.Channel.Wakeups
import NodeConfig.Proofs.Store.Freshness
import NodeConfig.Proofs.Store.Listeners
import NodeConfig.Proofs.Store.Load
import NodeConfig.Proofs.Session.Provenance
import NodeConfig.Proofs.Daemon.Exit
import NodeConfig.Proofs.Session.Completeness
import NodeConfig.Proofs.Session.Counters
import NodeConfig.Proofs.Session.KeyChange
import NodeConfig.Proofs.Snapshot.Idle
import NodeConfig.Proofs.Snapshot.Partial
import NodeConfig.Proofs.Snapshot.Unquoted
import NodeConfig.Proofs.Json.Scalar
import NodeConfig.Proofs.Json.Write
import NodeConfig.Proofs.Schema
import NodeConfig.Proofs.CommandLine.Settings
import NodeConfig.Proofs.CommandLine.Numbers
import NodeConfig.Proofs.Daemon.Inert
import NodeConfig.Proofs.Daemon.Reload
import NodeConfig.Proofs.Schema.Canonical
import NodeConfig.Proofs.Cell.Codec
import NodeConfig.Proofs.Cell.Calls
import NodeConfig.Proofs.Cell.Atomicity
import NodeConfig.Proofs.Identity.Routine
import NodeConfig.Proofs.Identity.Completion
import NodeConfig.Proofs.Identity.Interleaving
import NodeConfig.Proofs.Identity.Defaulting
import NodeConfig.Proofs.NodeName
import NodeConfig.Proofs.Daemon.JsonLog
import NodeConfig.Proofs.Snapshot.NotText
