import DalService.Api.ClientStream
import DalService.Balancer.Committable
import DalService.Balancer.Convergence
import DalService.Meta.Bootstrap
import DalService.Meta.Liveness
import DalService.Meta.Maintenance
import DalService.Meta.PlacementGeneration
import DalService.Meta.PlanDriver
import DalService.Meta.PlanLifecycle
import DalService.Meta.ReplySize
import DalService.Meta.RoutingSnapshot
import DalService.Meta.SearchCatalog
import DalService.Meta.Silence
import DalService.Partition.ApplyBudget
import DalService.Partition.CoalescedApply
import DalService.Partition.LogStore
import DalService.Partition.VersionHistory
import DalService.Runtime.QuiesceBarrier
import DalService.Runtime.Readiness
import DalService.Runtime.Registration
import DalService.Search.Coordinator
import DalService.Search.Merge
import DalService.Search.OutboxKeys
import DalService.Search.Retention
import DalService.Storage.DurabilityOrder
import DalService.Storage.DurabilityRegistry
import DalService.Storage.RecoveryLineage
import DalService.Storage.SnapshotCodec
import DalService.Storage.SnapshotTransfer
import DalService.Transport.AddrBook
import DalService.Transport.Router
import DalService.Transport.Security
import DalService.Verify.RegisterHistory
