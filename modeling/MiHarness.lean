import MiHarness.Storage.Conservation
import MiHarness.Scheduler.Lease
import MiHarness.Scheduler.Children
import MiHarness.Scheduler.Resume
import MiHarness.Scheduler.Exclusive
import MiHarness.Scheduler.Finality
import MiHarness.Policy.Authority
import MiHarness.Scheduler.Wakeup
import MiHarness.Scheduler.Stuck
import MiHarness.Context.Revision
import MiHarness.Library.Trace
import MiHarness.Tools.Calls
import MiHarness.Tools.Once
import MiHarness.Tools.Authorized
import MiHarness.Tools.Exchange
import MiHarness.Scheduler.Abandoned
import MiHarness.Tools.Crashes
import MiHarness.Storage.Versions
import MiHarness.Client.Reducer
import MiHarness.Client.Fold
import MiHarness.Server.Commands
import MiHarness.Server.Idempotent
import MiHarness.Scheduler.Books
import MiHarness.Scheduler.Delegation
import MiHarness.Server.Stream
import MiHarness.Runtime.Selection
import MiHarness.Runtime.Commands
import MiHarness.Runtime.Bindings
import MiHarness.Plugins.Registry
import MiHarness.Plugins.Resolution
import MiHarness.Plugins.Recovery
import MiHarness.Library.Delimited
import MiHarness.Core.Json
import MiHarness.Library.Utf8
import MiHarness.Library.Lines
import MiHarness.Library.Paging
import MiHarness.Tools.Reading
import MiHarness.Client.EventStream
import MiHarness.Library.Effects
import MiHarness.Library.Occurrence
import MiHarness.Tools.Writing
import MiHarness.Tools.Patching
import MiHarness.Tools.Searching
import MiHarness.Mcp.Outcome
import MiHarness.Mcp.ConfigFile
import MiHarness.Mcp.Convergence
import MiHarness.Skills.Snapshots
import MiHarness.Skills.Registry
import MiHarness.Skills.Refreshing
import MiHarness.Skills.Pinning
import MiHarness.Skills.Enabling
import MiHarness.Gateway.Messages
import MiHarness.Gateway.History
import MiHarness.Library.Merging
import MiHarness.Gateway.Assembler
import MiHarness.Runtime.Failures
import MiHarness.Context.Memory
import MiHarness.Context.Retrieval
import MiHarness.Server.Configs
import MiHarness.Mcp.Publication
import MiHarness.Policy.Endpoint
import MiHarness.Tools.Fetching
import MiHarness.Gateway.Attempts
import MiHarness.Gateway.Permits
import MiHarness.Scheduler.Fifo
import MiHarness.Server.Committed
import MiHarness.Client.Draft
import MiHarness.Mcp.Discovery
import MiHarness.Gateway.Limits
import MiHarness.Server.Migration
import MiHarness.Server.Migrated
import MiHarness.Server.Setup
import MiHarness.Server.Keys
import MiHarness.Server.Verification
import MiHarness.Server.Verified
import MiHarness.Context.Composition
import MiHarness.Context.Pieces
import MiHarness.Context.Compaction
import MiHarness.Context.Coverage
import MiHarness.Mcp.Authorization
import MiHarness.Mcp.Redemption
import MiHarness.Library.Window
import MiHarness.Server.Pairing
import MiHarness.Server.Paired
import MiHarness.Storage.Objects
import MiHarness.Storage.Durable
