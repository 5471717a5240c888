import Ioutgt.Target.Proof.NamespaceIo
import Ioutgt.Tcp.Proof.Framing
import Ioutgt.Tcp.Proof.Mismatch
import Ioutgt.Tcp.Proof.SlotIo
import Ioutgt.Tcp.Proof.Buffers
import Ioutgt.Tcp.KeepAlive
import Ioutgt.Target.Proof.Returned
import Ioutgt.Target.Proof.Binding
import Ioutgt.Core.Proof.Uuid
import Ioutgt.Cpus.Proof.Spread
import Ioutgt.Backend.Proof.Memory
import Ioutgt.Control.Proof.Server
import Ioutgt.Harness.Proof.Ports
import Ioutgt.Target.Proof.Notices
import Ioutgt.Target.Proof.EventLimit
import Ioutgt.Rdma.Proof.Order
import Ioutgt.Rdma.Proof.WrStats
import Ioutgt.Rdma.Proof.Lifecycle
import Ioutgt.Rdma.Proof.Park
import Ioutgt.Target.Proof.Drain
import Ioutgt.Tcp.Proof.TagWait
import Ioutgt.Tcp.Proof.SendRoom
import Ioutgt.Core.Proof.NsTable
import Ioutgt.Core.Proof.PoolTasks
import Ioutgt.Target.Proof.SendOrder
import Ioutgt.Core.Proof.Doorbells
import Ioutgt.Uring.Proof.Groups
import Ioutgt.Cpus.Proof.Sets
import Ioutgt.Uring.Proof.Mailbox
import Ioutgt.Rdma.Proof.Segments
import Ioutgt.Rdma.Proof.Places
import Ioutgt.Harness.Proof.Idle
import Ioutgt.Harness.Proof.Stats
