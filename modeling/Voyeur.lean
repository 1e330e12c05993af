import Voyeur.Stream.LittleEndian
import Voyeur.Stream.Reader
import Voyeur.Wire.Basic
import Voyeur.Wire.Writers
import Voyeur.Wire.Handlers
import Voyeur.Environment.Augment
import Voyeur.Environment.Lookup
import Voyeur.Environment.Options
import Voyeur.Environment.Chain
import Voyeur.Environment.Slots
import Voyeur.Environment.Frame
import Voyeur.Environment.Truncation
import Voyeur.Text.Separated
import Voyeur.Environment.Libs
import Voyeur.Environment.Components
import Voyeur.Environment.OptsMemory
import Voyeur.Wire.Fields
import Voyeur.Wire.Layout
import Voyeur.Wire.Payload
import Voyeur.Wire.Agreement
import Voyeur.Wire.Grammar
import Voyeur.Wire.Messages
import Voyeur.Wire.Truncated
import Voyeur.Wire.StringBuffer
import Voyeur.Client.Process
import Voyeur.Client.Interpose
import Voyeur.Transition.System
import Voyeur.Server.Loop
import Voyeur.Server.Connection
import Voyeur.Server.Steps
import Voyeur.Server.Projection
import Voyeur.Server.Delivery
import Voyeur.Server.Descriptors
import Voyeur.Server.ExitStatus
import Voyeur.Server.Reading
import Voyeur.Server.Shutdown
import Voyeur.Server.Ledger
import Voyeur.Server.Ownership
import Voyeur.Server.ActiveSet
import Voyeur.Server.Closing
import Voyeur.Server.Refinement
import Voyeur.Files.Tree
import Voyeur.Files.Search
import Voyeur.Start.Prepare
import Voyeur.Start.Cleanup
import Voyeur.Fork.Library
import Voyeur.Fork.Tree
import Voyeur.Fork.Streams
import Voyeur.Fork.Silence
import Voyeur.Fork.Exits
import Voyeur.Program.From
import Voyeur.Client.Writing
import Voyeur.Client.World
import Voyeur.Client.Calls
import Voyeur.Client.Runs
import Voyeur.Client.Links
import Voyeur.Client.Streams
import Voyeur.Client.Rebinding
import Voyeur.Client.Telling
import Voyeur.Client.OwnCloses
import Voyeur.Client.Spawning
import Voyeur.Client.Survival
import Voyeur.Client.Variants
import Voyeur.Client.SpawnPid
import Voyeur.Client.Searches
import Voyeur.Transition.Loop
import Voyeur.Wire.Transport
import Voyeur.Client.Connecting
import Voyeur.Environment.ResourcePath
import Voyeur.Client.FailedWrites
import Voyeur.Wire.ArrayStores
import Voyeur.Client.Pointers
import Voyeur.Concurrent.Threads
import Voyeur.Concurrent.Protocol
import Voyeur.Threads.Shared
import Voyeur.Threads.Connections
import Voyeur.Threads.Operations
import Voyeur.Threads.Verified
import Voyeur.Threads.Progress
import Voyeur.Threads.Delivery
import Voyeur.Threads.Forwarding
import Voyeur.Memory.Heap
import Voyeur.Stream.Refinement
import Voyeur.Allocation.Handlers
import Voyeur.Allocation.Kept
import Voyeur.Allocation.Strings
import Voyeur.Allocation.Arrays
import Voyeur.Allocation.Events
import Voyeur.Allocation.Balance
import Voyeur.Stream.Demand
import Voyeur.Wire.Demand
import Voyeur.Server.Blocking
import Voyeur.Server.Passes
import Voyeur.Transition.Descent
import Voyeur.Client.Served
import Voyeur.Environment.Growth
import Voyeur.Transition.Fairness
import Voyeur.Server.Liveness
import Voyeur.Memory.Programs
import Voyeur.Host.Calls
import Voyeur.Host.Session
import Voyeur.Host.Ledger
import Voyeur.Host.Books
import Voyeur.Host.Environments
