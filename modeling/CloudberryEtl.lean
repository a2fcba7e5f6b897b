import CloudberryEtl.Result
import CloudberryEtl.SqlLogic
import CloudberryEtl.KeyedTable
import CloudberryEtl.Sha256
import CloudberryEtl.SortedLog
import CloudberryEtl.Schema
import CloudberryEtl.Change
import CloudberryEtl.SqlText
import CloudberryEtl.TablePlan
import CloudberryEtl.CopyText
import CloudberryEtl.Checkpoint
import CloudberryEtl.StagedApply
import CloudberryEtl.Normalize
import CloudberryEtl.KeyLayout
import CloudberryEtl.StagingColumns
import CloudberryEtl.Replay
import CloudberryEtl.FoldInvariant
import CloudberryEtl.FoldStep
import CloudberryEtl.StagedSteps
import CloudberryEtl.SetStatements
import CloudberryEtl.BatchValidation
import CloudberryEtl.FoldedBatch
import CloudberryEtl.FoldRefines
import CloudberryEtl.RowDescent
import CloudberryEtl.KeyEquality
import CloudberryEtl.Respelling
import CloudberryEtl.SpelledSteps
import CloudberryEtl.Redelivery
import CloudberryEtl.Rejection
import CloudberryEtl.StagedDecoding
import CloudberryEtl.TargetStore
import CloudberryEtl.Manifest
import CloudberryEtl.ShadowLoad
import CloudberryEtl.Activation
import CloudberryEtl.Cleanup
import CloudberryEtl.Fencing
import CloudberryEtl.Planning
import CloudberryEtl.PipelineStore
import CloudberryEtl.PipelineHistory
import CloudberryEtl.ActivatedGroup
import CloudberryEtl.Maintenance
import CloudberryEtl.Resume
import CloudberryEtl.Wire
import CloudberryEtl.Batch
import CloudberryEtl.Batching
import CloudberryEtl.Assembly
import CloudberryEtl.Adapter
import CloudberryEtl.Coverage
import CloudberryEtl.Replication
import CloudberryEtl.Delivery
import CloudberryEtl.Lease
import CloudberryEtl.Reconciler
import CloudberryEtl.Ownership
import CloudberryEtl.LeaseDeadline
import CloudberryEtl.DeadlineInvariant
import CloudberryEtl.DeadlineSteps
import CloudberryEtl.LeaseRenewal
import CloudberryEtl.LeaseExpiry
import CloudberryEtl.Settings
import CloudberryEtl.UserTypes
import CloudberryEtl.StoreChange
import CloudberryEtl.Metadata
import CloudberryEtl.RoundTrip
import CloudberryEtl.Moves
import CloudberryEtl.Transactions
import CloudberryEtl.Reachable
import CloudberryEtl.Registration
import CloudberryEtl.Retry
import CloudberryEtl.Collection
import CloudberryEtl.Recovery
import CloudberryEtl.Rebuild
import CloudberryEtl.Catalog
import CloudberryEtl.Inventory
import CloudberryEtl.RowIdentity
import CloudberryEtl.DdlCapture
import CloudberryEtl.Decoder
import CloudberryEtl.Generations
import CloudberryEtl.Publication
import CloudberryEtl.Standalone
import CloudberryEtl.SchemaDrift
import CloudberryEtl.EnumEvolution
import CloudberryEtl.StableSort
import CloudberryEtl.LinkChain
import CloudberryEtl.Membership
import CloudberryEtl.TypeResolution
import CloudberryEtl.TypeAdmission
import CloudberryEtl.Isolation
import CloudberryEtl.TypeModifiers
import CloudberryEtl.ModifierFidelity
import CloudberryEtl.SqlScanner
import CloudberryEtl.JsonText
import CloudberryEtl.Namespaces
import CloudberryEtl.SqlQuoting
import CloudberryEtl.Acknowledgement
import CloudberryEtl.Fingerprint
import CloudberryEtl.PgOutput
import CloudberryEtl.PublicationScope
import CloudberryEtl.LoopRuns
import CloudberryEtl.StagingStatements
import CloudberryEtl.HashTable
import CloudberryEtl.Telemetry
import CloudberryEtl.LoginLimiter
import CloudberryEtl.LoginRuns
import CloudberryEtl.LsnText
import CloudberryEtl.PrefixCode
import CloudberryEtl.Framing
import CloudberryEtl.Reconcile
import CloudberryEtl.ManifestIdentity
import CloudberryEtl.SlotOwners
import CloudberryEtl.SlotContinuity
import CloudberryEtl.LogContents
import CloudberryEtl.Convergence
import CloudberryEtl.CarriedRelations
import CloudberryEtl.Provenance
import CloudberryEtl.Placement
import CloudberryEtl.InitialSnapshot
import CloudberryEtl.FirstRun
import CloudberryEtl.VersionedScripts
import CloudberryEtl.Migrations
