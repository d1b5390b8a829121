import AgenticPlatform.Gateway
import AgenticPlatform.Concurrency
import AgenticPlatform.ControlPlane
import AgenticPlatform.Replay
import AgenticPlatform.GovernedSessions
import AgenticPlatform.Persistence
import AgenticPlatform.Worker
import AgenticPlatform.Frame
import AgenticPlatform.Restarts
import AgenticPlatform.OrderlySessions
import AgenticPlatform.Approvals
import AgenticPlatform.SchedulerRun
import AgenticPlatform.Phases
import AgenticPlatform.EngineCalls
import AgenticPlatform.ToolAgreement
import AgenticPlatform.ApprovalBinding
import AgenticPlatform.StoredIdentity
import AgenticPlatform.Insights
import AgenticPlatform.ReplayReport
import AgenticPlatform.CreationRaces
import AgenticPlatform.ToolEvidence
import AgenticPlatform.TraceTime
import AgenticPlatform.ToolProtocol
import AgenticPlatform.Termination
import AgenticPlatform.ReplayMirror
import AgenticPlatform.ReplayExact
import AgenticPlatform.StreamEnd
import AgenticPlatform.SseFraming
import AgenticPlatform.ToolCounts
import AgenticPlatform.ModelRetries
import AgenticPlatform.RetrievalScope
import AgenticPlatform.Ingestion
import AgenticPlatform.ProviderErrors
import AgenticPlatform.ModelTrace
import AgenticPlatform.AuditTrail
import AgenticPlatform.Chunking
import AgenticPlatform.EvaluationScore
import AgenticPlatform.EvaluationMetrics
import AgenticPlatform.Aggregation
import AgenticPlatform.MuktiEvidence
import AgenticPlatform.MuktiOrder
import AgenticPlatform.FeedbackStores
import AgenticPlatform.TraceSections
import AgenticPlatform.MetricsPage
import AgenticPlatform.References
import AgenticPlatform.ReferencesKept
import AgenticPlatform.TenantIsolation
import AgenticPlatform.Authorization
