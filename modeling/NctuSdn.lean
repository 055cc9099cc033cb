import NctuSdn.Sync.Cleanup
import NctuSdn.Sync.BlindWrite
import NctuSdn.Sync.Listeners
import NctuSdn.Sync.RemoteIteration
import NctuSdn.Sync.Hints
import NctuSdn.Sync.JavaDB
import NctuSdn.Sync.Cluster
import NctuSdn.Sync.Auth
import NctuSdn.Topology.IterationOrder
import NctuSdn.Topology.RoutePriority
import NctuSdn.Topology.Broadcast
import NctuSdn.Topology.LinkIndexes
import NctuSdn.Topology.Quarantine
import NctuSdn.Switch.PortDeletion
import NctuSdn.Switch.MessageBuffer
import NctuSdn.Device.IndexConsistency
import NctuSdn.Forwarding.Flood
import NctuSdn.Forwarding.LearningSwitch
import NctuSdn.Firewall.Storage
import NctuSdn.Forwarding.TargetResource
import NctuSdn.Core.ListenerDispatcher
import NctuSdn.StaticFlow.SwitchTables
import NctuSdn.VirtualNetwork.VirtualNetworkFilter
import NctuSdn.Core.SwitchLifeCycle
import NctuSdn.Switch.PortTracking
import NctuSdn.OpenFlow.Framing
import NctuSdn.Forwarding.RedirectedPacket
import NctuSdn.Forwarding.Delivery
import NctuSdn.LoadBalancer.FlowRows
import NctuSdn.Storage.RowLists
import NctuSdn.FlowCache.PortDownReconciliation
import NctuSdn.FlowCache.FlowReconcileManager
import NctuSdn.OpenFlow.MatchPacket
