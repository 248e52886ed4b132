import CoreFlow.Instance.Ownership
import CoreFlow.Instance.Copies
import CoreFlow.Instance.Counts
import CoreFlow.Instance.Progress
import CoreFlow.Scheduler.Swaps
import CoreFlow.Instance.Swaps
import CoreFlow.Dag.Dispatch
import CoreFlow.Dag.Finish
import CoreFlow.Controller.Completion
import CoreFlow.Controller.HashChains
import CoreFlow.Controller.Indexes
import CoreFlow.Controller.Priority
import CoreFlow.Allocator.Partition
import CoreFlow.Controller.Migration
import CoreFlow.Instance.CacheState
import CoreFlow.Manager.Integrity
import CoreFlow.Allocator.Workflow
import CoreFlow.Instance.QueryIds
import CoreFlow.Instance.Prefill
import CoreFlow.Manager.Registration
import CoreFlow.Manager.Admission
import CoreFlow.Manager.Capacity
import CoreFlow.Scripts.Reuse
import CoreFlow.Scripts.Deployment
import CoreFlow.Allocator.CallDomain
import CoreFlow.Instance.Bookkeeping
import CoreFlow.Instance.Work
import CoreFlow.Controller.Quiescence
import CoreFlow.Instance.Holdings
import CoreFlow.Instance.Slots
import CoreFlow.Lib.Halving
import CoreFlow.Allocator.Planning
import CoreFlow.Instance.Feeds
import CoreFlow.Instance.Migrated
import CoreFlow.Block.Reset
import CoreFlow.Instance.Reset
