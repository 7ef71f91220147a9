import ApiMigrator.Foundation.Outcome
import ApiMigrator.Foundation.Interaction
import ApiMigrator.Foundation.Guarded
import ApiMigrator.Foundation.Base64
import ApiMigrator.Foundation.Text
import ApiMigrator.Foundation.Number
import ApiMigrator.Foundation.Arithmetic
import ApiMigrator.Foundation.Pattern
import ApiMigrator.Foundation.GitNames
import ApiMigrator.Foundation.Binary
import ApiMigrator.Foundation.Json
import ApiMigrator.Foundation.JsonText
import ApiMigrator.Foundation.JsonSize
import ApiMigrator.Foundation.FileTree
import ApiMigrator.Foundation.Framing
import ApiMigrator.Foundation.CanonicalForm
import ApiMigrator.Foundation.CanonicalEncoder
import ApiMigrator.App.CanonicalJson
import ApiMigrator.App.SourceBundleJson
import ApiMigrator.App.VerifiedArtifact
import ApiMigrator.Foundation.KeyedDifference
import ApiMigrator.Engine.TscOutput
import ApiMigrator.Engine.IntroducedErrors
import ApiMigrator.Engine.TscCompleteness
import ApiMigrator.Db.OwnerAuthorization
import ApiMigrator.Db.OwnerLedger
import ApiMigrator.Db.OwnerReplay
import ApiMigrator.App.GitTree
import ApiMigrator.App.GitTreeInsertion
import ApiMigrator.App.GitTreeIdentity
import ApiMigrator.Runner.Filesystem
import ApiMigrator.Runner.TreeDigests
import ApiMigrator.Runner.SealedTrees
import ApiMigrator.Ops.RunnerOutput
import ApiMigrator.Ops.RunnerOutputAgreement
import ApiMigrator.Engine.RepositoryDigest
import ApiMigrator.Engine.RepositoryDigestExact
import ApiMigrator.Engine.TypeScriptConfig
import ApiMigrator.Engine.KeyRenames
import ApiMigrator.Engine.DependencySpecs
import ApiMigrator.Engine.DependencyTrust
import ApiMigrator.App.SourceBundleHeader
import ApiMigrator.App.SourceBundle
import ApiMigrator.App.SourceBundleCodec
import ApiMigrator.App.ParsedSourceBundle
import ApiMigrator.App.PublicationRunner
import ApiMigrator.Foundation.IpAddress
import ApiMigrator.App.EgressAddresses
import ApiMigrator.App.PublicationRunnerPlan
import ApiMigrator.App.RunnerEvidence
import ApiMigrator.App.RunnerKeyRegistry
import ApiMigrator.App.RunnerEvidenceDeadline
import ApiMigrator.App.RunnerJobRecord
import ApiMigrator.App.RunnerJobCodec
import ApiMigrator.App.RunnerJobSize
import ApiMigrator.Db.JobStore
import ApiMigrator.App.RunnerJobService
import ApiMigrator.App.RunnerJobHistory
import ApiMigrator.App.RunnerJobSteps
import ApiMigrator.App.RunnerJobTime
import ApiMigrator.App.RunnerJobAdvance
import ApiMigrator.App.RunnerJobSound
import ApiMigrator.App.RunnerJobPreparation
import ApiMigrator.App.RunnerJobCalls
import ApiMigrator.App.RunnerJobAgreement
import ApiMigrator.App.RunnerJobHandoff
import ApiMigrator.App.OwnerBindings
import ApiMigrator.App.OwnerAuthorization
import ApiMigrator.App.OwnerGrant
import ApiMigrator.App.OwnerLedgerProjection
import ApiMigrator.App.OwnerChallenge
import ApiMigrator.App.OwnerSigner
import ApiMigrator.Db.ReplayStore
import ApiMigrator.Db.ReplayStoreCalls
import ApiMigrator.Db.ReplayStoreSafety
import ApiMigrator.Console.Approval
import ApiMigrator.Console.ApprovalProcess
import ApiMigrator.Console.ApprovalSafety
import ApiMigrator.Console.ApprovalCeremony
import ApiMigrator.Foundation.HashChain
import ApiMigrator.Ops.Lib
import ApiMigrator.Ops.DedicatedDrill
import ApiMigrator.Ops.DedicatedDrillEvents
import ApiMigrator.App.StableJson
import ApiMigrator.App.PreflightId
import ApiMigrator.Foundation.Regex
import ApiMigrator.Foundation.Redaction
import ApiMigrator.App.Security
import ApiMigrator.Ops.TrialCleanup
import ApiMigrator.Ops.CleanupProtocol
import ApiMigrator.Ops.CleanupSafety
import ApiMigrator.Foundation.PaddedBase64
import ApiMigrator.Ops.BatchLog
import ApiMigrator.Ops.BatchResult
import ApiMigrator.Ops.BatchAgreement
import ApiMigrator.Ops.DedicatedDrillLog
import ApiMigrator.App.OwnerApproval
import ApiMigrator.App.OwnerWindow
import ApiMigrator.App.OwnerFreshness
import ApiMigrator.Foundation.Sequential
import ApiMigrator.Foundation.WorkerPool
import ApiMigrator.Rewrite.CandidateFiles
import ApiMigrator.Rewrite.CandidateCommit
import ApiMigrator.Rewrite.CandidateTree
import ApiMigrator.Publishing.AuditText
import ApiMigrator.Db.CampaignStore
import ApiMigrator.App.CampaignRunner
import ApiMigrator.App.CampaignRecords
import ApiMigrator.App.JobQueue
import ApiMigrator.App.GitHubPublication
import ApiMigrator.App.PublicationSafety
import ApiMigrator.App.PublicationAgreement
import ApiMigrator.Console.PublishDecision
