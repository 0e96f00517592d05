import LinkFlow.DagValidate
import LinkFlow.ExecutorRuns
import LinkFlow.PendingRuns
import LinkFlow.Saga
import LinkFlow.StateMachineRuns
import LinkFlow.TwoPhaseCommit
import LinkFlow.EventReplay
import LinkFlow.RefreshRace
import LinkFlow.Validation
import LinkFlow.Sharing
import LinkFlow.EventBus
import LinkFlow.UpdateRace
import LinkFlow.QueueBound
import LinkFlow.QueueCounters
import LinkFlow.WorkerPool
import LinkFlow.PoolShutdown
import LinkFlow.CoordinatorLoads
import LinkFlow.Partition
import LinkFlow.CronRaces
import LinkFlow.LeaderElection
import LinkFlow.TriggerRaces
import LinkFlow.CachedUserRuns
import LinkFlow.Hub
import LinkFlow.StatsCollector
import LinkFlow.UnifiedQuery
import LinkFlow.RecoveryRuns
import LinkFlow.TransferRemap
import LinkFlow.TransferSanitize
import LinkFlow.VariableContext
import LinkFlow.VariableRaces
import LinkFlow.WebhookRaces
import LinkFlow.Cancellation
import LinkFlow.DeadLetters
import LinkFlow.ExecutionGroups
import LinkFlow.NodeRetries
import LinkFlow.RetryManager
import LinkFlow.Timeouts
import LinkFlow.Metrics
import LinkFlow.NestedValues
import LinkFlow.WorkerSelection
import LinkFlow.APIKeys
import LinkFlow.CacheCompression
