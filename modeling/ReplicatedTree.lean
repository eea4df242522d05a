import ReplicatedTree.ServerRuns
import ReplicatedTree.Lib.Slots
import ReplicatedTree.PollLoop
import ReplicatedTree.PollLoopTheorems
import ReplicatedTree.Serialization
import ReplicatedTree.SerializationTheorems
import ReplicatedTree.EntryWire
import ReplicatedTree.ServerWrites
import ReplicatedTree.Replication
import ReplicatedTree.ReplicationTheorems
import ReplicatedTree.Registry
import ReplicatedTree.RegistryTheorems
import ReplicatedTree.Cluster
import ReplicatedTree.ClusterTheorems
import ReplicatedTree.Promotion
import ReplicatedTree.ClusterTraffic
import ReplicatedTree.Numbering
import ReplicatedTree.Verification
import ReplicatedTree.Roles
import ReplicatedTree.Registration
import ReplicatedTree.LostPromotion
import ReplicatedTree.Buffers
import ReplicatedTree.Lib.Frames
import ReplicatedTree.Inet
import ReplicatedTree.InetTheorems
import ReplicatedTree.Framing
import ReplicatedTree.Replies
import ReplicatedTree.MessageWire
import ReplicatedTree.ClientStub
import ReplicatedTree.ClientStubTheorems
import ReplicatedTree.Invoke
import ReplicatedTree.RemoteTree
import ReplicatedTree.Lib.Ledger
import ReplicatedTree.RtreeConnection
import ReplicatedTree.ClientResources
import ReplicatedTree.Lib.Locks
import ReplicatedTree.ServerThreads
import ReplicatedTree.LockDiscipline
import ReplicatedTree.TreeAnswers
import ReplicatedTree.TaskResults
import ReplicatedTree.InvokeTheorems
import ReplicatedTree.BufferToTree
import ReplicatedTree.MessageCopies
import ReplicatedTree.AddressPort
import ReplicatedTree.ReplicateToBackup
import ReplicatedTree.ClientInput
import ReplicatedTree.TreeToBuffer
import ReplicatedTree.Lib.Comparator
import ReplicatedTree.EntryCompare
import ReplicatedTree.Lib.Heap
import ReplicatedTree.DataMemory
import ReplicatedTree.TreeMemory
import ReplicatedTree.TreeMemoryTheorems
import ReplicatedTree.TreeSession
import ReplicatedTree.Lib.Handles
import ReplicatedTree.MainLoopDescriptors
import ReplicatedTree.Lib.Signals
import ReplicatedTree.ServerProgress
import ReplicatedTree.Lib.Simulation
import ReplicatedTree.ServerRefinement
