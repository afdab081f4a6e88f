import GuardMem.Accounting
import GuardMem.Backends
import GuardMem.BetterEvidence
import GuardMem.Components
import GuardMem.Confinement
import GuardMem.Corroboration
import GuardMem.Echoes
import GuardMem.Eval.Discrimination
import GuardMem.Evaluation
import GuardMem.Fakes
import GuardMem.Fairness
import GuardMem.Gateway
import GuardMem.Grammar
import GuardMem.GraphAgreement
import GuardMem.LastWriter
import GuardMem.Memory.Tenants
import GuardMem.Memory.Entities
import GuardMem.Memory.Blocks
import GuardMem.Neighbors
import GuardMem.Observability.AuditRuns
import GuardMem.Observability.Tamper
import GuardMem.Observability.Total
import GuardMem.PerCredential
import GuardMem.Pipeline.Rendered
import GuardMem.Pipeline.Snap
import GuardMem.Resources
import GuardMem.SameEntity
import GuardMem.NearestFacts
import GuardMem.PointInTime
import GuardMem.Precomputed
import GuardMem.Prompts.Renders
import GuardMem.Race
import GuardMem.Replay
import GuardMem.ReplayTrace
import GuardMem.Restart
import GuardMem.Retrieval
import GuardMem.RiskFloor
import GuardMem.Severest
import GuardMem.SingleTenant
import GuardMem.SingleValue
import GuardMem.SourceCap
import GuardMem.Storability
import GuardMem.StoredAsDecided
import GuardMem.StrictMode
import GuardMem.Supersession
import GuardMem.Tools.Reported
import GuardMem.TypedErrors
import GuardMem.Schemas.Packs
import GuardMem.Ingress.Routes
