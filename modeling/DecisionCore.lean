import DecisionCore.Lib.Dict
import DecisionCore.Lib.MerkleTree
import DecisionCore.Lib.MerkleBinding
import DecisionCore.Lib.MerkleTerm
import DecisionCore.Lib.Transition
import DecisionCore.Lib.Components
import DecisionCore.Lib.Separated
import DecisionCore.Lib.Reader
import DecisionCore.Lib.Sha256
import DecisionCore.Lib.BigEndian
import DecisionCore.Lib.Pieces
import DecisionCore.Lib.Linearization
import DecisionCore.Lib.Termination
import DecisionCore.Domain.Values
import DecisionCore.Domain.PyText
import DecisionCore.Domain.JsonText
import DecisionCore.Domain.CanonicalText
import DecisionCore.Domain.JsonReader
import DecisionCore.Domain.JsonRoundTrip
import DecisionCore.Infrastructure.ProjectionStores
import DecisionCore.Domain.Models
import DecisionCore.Domain.PyFloatSum
import DecisionCore.Infrastructure.LocalEnv
import DecisionCore.Infrastructure.AuditTrail
import DecisionCore.Infrastructure.PostgresAuditTrail
import DecisionCore.Infrastructure.KafkaAdapter
import DecisionCore.Infrastructure.Der
import DecisionCore.Infrastructure.BerTree
import DecisionCore.Infrastructure.DerTree
import DecisionCore.Infrastructure.GeneralizedTime
import DecisionCore.Infrastructure.Rfc3161Client
import DecisionCore.Application.Merkle
import DecisionCore.Application.LeafPreimage
import DecisionCore.Application.CommandHandler
import DecisionCore.Application.MetricsRegistry
import DecisionCore.Application.EvidenceRegistry
import DecisionCore.Application.CompletionCriteria
import DecisionCore.Application.PolicyEvaluator
import DecisionCore.Application.ExactPolicy
import DecisionCore.Application.ScoreboardProjector
import DecisionCore.Application.MerkleAnchorService
import DecisionCore.Merkle.Inclusion
import DecisionCore.Merkle.Roots
import DecisionCore.Transport.MerkleProof
import DecisionCore.Transport.Scoreboard
import DecisionCore.Transport.UpdateMetric
import DecisionCore.System.Tasks
import DecisionCore.System.Steps
import DecisionCore.System.Runs
import DecisionCore.System.Deliveries
import DecisionCore.System.Provenance
import DecisionCore.System.Ledger
import DecisionCore.System.Custody
import DecisionCore.System.Anchored
import DecisionCore.System.CommitPath
import DecisionCore.System.Recovery
import DecisionCore.System.ExactlyOnce
import DecisionCore.System.Acknowledged
import DecisionCore.System.Adapters
import DecisionCore.System.FailedAppends
import DecisionCore.System.Deployment
import DecisionCore.System.Ownership
import DecisionCore.System.Handled
import DecisionCore.System.Bus
import DecisionCore.ReadModel.Registry
import DecisionCore.ReadModel.Policy
import DecisionCore.ReadModel.Streams
import DecisionCore.ReadModel.Histories
import DecisionCore.ReadModel.Supersession
import DecisionCore.ReadModel.EvidenceReplay
import DecisionCore.ReadModel.Scoring
import DecisionCore.ReadModel.PolicyFormula
import DecisionCore.ReadModel.Approval
import DecisionCore.ReadModel.EvidenceGate
import DecisionCore.ReadModel.ServedProofs
import DecisionCore.ReadModel.Redelivery
import DecisionCore.ReadModel.Replayable
import DecisionCore.ReadModel.Recomputed
import DecisionCore.ReadModel.PublishedRoots
import DecisionCore.ReadModel.RiskOrder
import DecisionCore.ReadModel.ProofAgreement
import DecisionCore.ReadModel.StoredBoard
import DecisionCore.ReadModel.Readiness
import DecisionCore.ReadModel.Lifecycle
import DecisionCore.Timestamp.Codec
import DecisionCore.Timestamp.Encoders
import DecisionCore.Timestamp.RoundTrip
import DecisionCore.Timestamp.Imprint
import DecisionCore.Timestamp.Failures
import DecisionCore.Timestamp.Tiling
import DecisionCore.Timestamp.Contents
import DecisionCore.System.Provable
import DecisionCore.System.ConcurrentAppends
import DecisionCore.System.Timely
import DecisionCore.System.Shutdown
import DecisionCore.ReadModel.OfflineProofs
import DecisionCore.ReadModel.Isolation
import DecisionCore.ReadModel.BoardAgreement
import DecisionCore.ReadModel.RequiredMetrics
import DecisionCore.ReadModel.TamperEvidence
import DecisionCore.ReadModel.TopicOrder
