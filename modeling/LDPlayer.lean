import LDPlayer.Foundation.Runs
import LDPlayer.Foundation.HashTable
import LDPlayer.Foundation.Text
import LDPlayer.Utility
import LDPlayer.Controller.Filter
import LDPlayer.Message
import LDPlayer.Controller.Postman
import LDPlayer.Controller.Connections
import LDPlayer.Controller.Routing
import LDPlayer.Client.Manager
import LDPlayer.Client.Schedule
import LDPlayer.Receivers
import LDPlayer.Client.Results
import LDPlayer.Client.Net
import LDPlayer.Client.Tables
import LDPlayer.Client.Writes
import LDPlayer.Client.Latency
import LDPlayer.Client.Distribution
import LDPlayer.Controller.Distribution
import LDPlayer.Replay.Local
import LDPlayer.Replay.Distributed
import LDPlayer.Replay.Handshake
import LDPlayer.Client.Commander
import LDPlayer.Client.Deadlines
import LDPlayer.Client.TraceOrder
import LDPlayer.RawFile
import LDPlayer.Foundation.OnesComplement
import LDPlayer.Proxy.Checksum
import LDPlayer.Proxy.Packet
import LDPlayer.Foundation.WorkerPool
import LDPlayer.Proxy.Hierarchy
import LDPlayer.Foundation.Actions
import LDPlayer.Foundation.DomainName
import LDPlayer.Zone.DNSZone
import LDPlayer.Zone.Converter
import LDPlayer.Zone.Indexes
import LDPlayer.Zone.InZone
import LDPlayer.Client.ManagerHandles
import LDPlayer.Client.WorkerHandles
import LDPlayer.Controller.PostmanHandles
import LDPlayer.Replay.Handles
import LDPlayer.Client.ServerStream
import LDPlayer.Client.Wire
import LDPlayer.Input.TextLine
import LDPlayer.Client.Ledger
import LDPlayer.Input.TimeStamp
import LDPlayer.Input.Packets
import LDPlayer.Input.Get
import LDPlayer.Replay.Capture
import LDPlayer.Controller.FilterWeights
import LDPlayer.Client.Retries
import LDPlayer.Controller.FilterCopies
import LDPlayer.Foundation.ConditionVariable
import LDPlayer.Proxy.SafeQueue
import LDPlayer.Zone.Enclosing
import LDPlayer.Zone.Views
import LDPlayer.Zone.Delegations
import LDPlayer.Zone.FsdbReader
import LDPlayer.Mutator.DNSUtil
import LDPlayer.Mutator.Header
import LDPlayer.Mutator.HashOrder
import LDPlayer.Mutator.Main
import LDPlayer.Mutator.Requests
import LDPlayer.Client.Workers
import LDPlayer.Client.Accessors
import LDPlayer.Foundation.Loops
import LDPlayer.Mutator.Conversion
import LDPlayer.Foundation.Simulation
import LDPlayer.Foundation.Pipeline
import LDPlayer.Client.SendQuery
import LDPlayer.Client.WorkerProcess
import LDPlayer.Replay.OnTheWire
import LDPlayer.Proxy.Threads
import LDPlayer.Proxy.Delivery
import LDPlayer.Mutator.MutateQuery
import LDPlayer.Mutator.Start
import LDPlayer.Zone.Routes
import LDPlayer.Zone.Files
import LDPlayer.Controller.PostmanProcess
import LDPlayer.Replay.Emulation
