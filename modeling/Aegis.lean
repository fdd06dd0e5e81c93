import Aegis.Lib.Transition
import Aegis.Lib.Nft
import Aegis.Lib.Register
import Aegis.Lib.Tape
import Aegis.Lib.Conntrack
import Aegis.Lib.Router
import Aegis.Lib.Text
import Aegis.Lib.Bytes
import Aegis.Lib.Compare
import Aegis.Lib.Json
import Aegis.Lib.JsonText
import Aegis.Lib.JsonPretty
import Aegis.Lib.Xml
import Aegis.Lib.XmlTree
import Aegis.Lib.Disk
import Aegis.Lib.Stream
import Aegis.Lib.FileTree
import Aegis.Lib.FileRun
import Aegis.Core.Base
import Aegis.Core.Session
import Aegis.Core.Network
import Aegis.Core.Profile
import Aegis.Core.Browser
import Aegis.Core.Vm
import Aegis.Core.Spec
import Aegis.Core.Update
import Aegis.Gateway.Render
import Aegis.Gateway.Containment
import Aegis.Gateway.Confinement
import Aegis.Gateway.Controller
import Aegis.Gateway.Bootstrap
import Aegis.Gateway.Calls
import Aegis.Gateway.Operations
import Aegis.Gateway.History
import Aegis.Gateway.Agreement
import Aegis.Firewall.Files
import Aegis.Firewall.Swap
import Aegis.Firewall.Rendered
import Aegis.Firewall.Tracked
import Aegis.Firewall.Health
import Aegis.Store.Lock
import Aegis.Store.Exclusion
import Aegis.Store.Removal
import Aegis.Store.Repository
import Aegis.Store.Stored
import Aegis.Store.Ownership
import Aegis.Vm.Controller
import Aegis.Vm.Domain
import Aegis.Vm.Definition
import Aegis.Lib.Program
import Aegis.Vm.Host
import Aegis.Vm.Residue
import Aegis.Vm.Fleet
import Aegis.Orchestrator.Session
import Aegis.Orchestrator.World
import Aegis.Orchestrator.Steps
import Aegis.Orchestrator.Gate
import Aegis.Orchestrator.Launch
import Aegis.Orchestrator.Owned
import Aegis.Orchestrator.Leases
import Aegis.Orchestrator.SingleWriter
import Aegis.Orchestrator.Cleanup
import Aegis.Orchestrator.KillSwitch
import Aegis.Orchestrator.CutOff
import Aegis.Orchestrator.Policies
import Aegis.Orchestrator.StateGraph
import Aegis.Orchestrator.Alone
import Aegis.Orchestrator.FailedStart
import Aegis.Orchestrator.Idempotent
import Aegis.Orchestrator.Destroyed
import Aegis.Orchestrator.Views
import Aegis.Orchestrator.Toggles
import Aegis.Orchestrator.Request
import Aegis.Orchestrator.Daemon
import Aegis.Orchestrator.Enforced
import Aegis.Orchestrator.Networks
import Aegis.Orchestrator.Endpoint
import Aegis.Update.Manifest
import Aegis.Update.Client
import Aegis.Update.Pass
import Aegis.Update.Atomic
import Aegis.Update.Replay
import Aegis.Update.Signing
import Aegis.Ipc.Serde
import Aegis.Secure.Storage
import Aegis.Ipc.Payload
import Aegis.Ipc.Protocol
import Aegis.Ipc.Frame
import Aegis.Ipc.Lockstep
import Aegis.Ipc.Transport
import Aegis.Update.Verified
import Aegis.Launcher.HostRunner
import Aegis.Store.Shred
import Aegis.Store.FileStore
import Aegis.Store.Isolation
import Aegis.Store.Serial
import Aegis.Store.Sequential
import Aegis.Store.Fits
import Aegis.Store.Pending
import Aegis.Store.Serialised
import Aegis.Audit.Auditor
import Aegis.Audit.Diagnostics
import Aegis.Launcher.Chromium
import Aegis.Lib.UserJs
import Aegis.Launcher.Firefox
import Aegis.Lib.Endpoint
import Aegis.Orchestrator.HostProxy
import Aegis.Store.Acquire
import Aegis.Lib.FileWalk
import Aegis.Store.Listing
import Aegis.Lib.FilePlan
import Aegis.Store.Shredded
import Aegis.Lib.FileApart
import Aegis.Store.Deleted
import Aegis.Store.Ledger
import Aegis.Store.Refines
import Aegis.Lib.OsPath
import Aegis.Lib.OsJoin
import Aegis.Lib.OsBelow
import Aegis.Update.Resolve
import Aegis.Lib.LineLog
import Aegis.Audit.Sink
import Aegis.Manager.Form
import Aegis.Daemon.Handler
import Aegis.Cli.Command
import Aegis.Cli.Document
import Aegis.Cli.Exit
import Aegis.Cli.Update
import Aegis.Daemon.Evidence
import Aegis.Orchestrator.Attested
