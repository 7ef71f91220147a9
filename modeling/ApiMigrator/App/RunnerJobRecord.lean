import ApiMigrator.App.RunnerEvidence

/-!
`runner-job-record-contract.ts`: the record of a runner job. A job is prepared, then reviewed, then
its evidence is retained; each step appends to the record and leaves what was there. A record is
stored as its canonical text, and reading the text back rebuilds the record from its parts and
compares the texts.
-/

set_option autoImplicit false
set_option relaxedAutoImplicit false

namespace ApiMigrator.App.RunnerJob

open Foundation.Text Foundation.Number Foundation.Json Foundation.Outcome Foundation.Pattern
open PublicationRunner RunnerEvidence
open CanonicalJson (canonicalJson parseCanonicalJson)
open SourceBundle (field isSchemaVersion)

inductive JobFailureCode
  | inputInvalid
  | jobMissing
  | jobConflict
  | jobExpired
  | clockRollback
  | storeUnsafe
  | storeMismatch
  | storeCorrupt
  | storeFull
  | storeUnavailable
  deriving DecidableEq

def maxRecordBytes : JsNumber := .int 262144

/-! ### Records -/

structure RecordBase where
  storeId : JsString
  campaignId : JsString
  runId : JsString
  jobId : JsString
  intentDigest : JsString
  source : PreviewSourceIdentity
  plan : PublicationRunnerPlanRecord
  deriving DecidableEq

/-- The state of a job with what it has gathered. -/
inductive JobStage
  | prepared
  | reviewed (review : RunnerEvidenceContext)
  | evidenceRetained (review : RunnerEvidenceContext) (identity : RetainedRunnerEvidenceIdentity)
  deriving DecidableEq

structure JobRecord extends RecordBase where
  stage : JobStage
  recordDigest : JsString
  deriving DecidableEq

namespace JobStage

def revision : JobStage → ℕ
  | prepared => 1
  | reviewed _ => 2
  | evidenceRetained _ _ => 3

def stateName : JobStage → JsString
  | prepared => js "prepared"
  | reviewed _ => js "reviewed"
  | evidenceRetained _ _ => js "evidence_retained"

def review : JobStage → Option RunnerEvidenceContext
  | prepared => none
  | reviewed review => some review
  | evidenceRetained review _ => some review

def identity : JobStage → Option RetainedRunnerEvidenceIdentity
  | evidenceRetained _ identity => some identity
  | _ => none

def reviewMember : JobStage → List Member
  | prepared => []
  | reviewed review => [(js "review", review.toJson)]
  | evidenceRetained review _ => [(js "review", review.toJson)]

def identityMember : JobStage → List Member
  | evidenceRetained _ identity => [(js "identity", identity.toJson)]
  | _ => []

end JobStage

/-- The members of a record in the order of their keys, with or without the digest. -/
def recordMembers (base : RecordBase) (stage : JobStage) (recordDigest : List Member) :
    List Member :=
  [(js "campaignId", .str base.campaignId)] ++ stage.identityMember ++
    [(js "intentDigest", .str base.intentDigest), (js "jobId", .str base.jobId),
      (js "plan", base.plan.toJson)] ++ recordDigest ++ stage.reviewMember ++
    [(js "revision", .num (.int stage.revision)), (js "runId", .str base.runId),
      (js "schemaVersion", .num (.int 1)), (js "source", base.source.toJson),
      (js "state", .str stage.stateName), (js "storeId", .str base.storeId)]

def bodyJson (base : RecordBase) (stage : JobStage) : JsValue := .obj (recordMembers base stage [])

def JobRecord.toJson (r : JobRecord) : JsValue :=
  .obj (recordMembers r.toRecordBase r.stage [(js "recordDigest", .str r.recordDigest)])

/-! ### Reading fields -/

def object (value : JsValue) : Except String (List Member) :=
  match value with
  | .obj ms => .ok ms
  | _ => .error "invalid job record object"

/-- The expected keys are given in their order. -/
def recordKeys (value : List Member) (expected : List String) : Except String Unit :=
  reject ((sortByKey value).map Prod.fst ≠ expected.map js)
    "job record contains missing or unexpected fields"

def identifier (value : JsValue) : Except String JsString :=
  match value with
  | .str s => do
    reject (isIdentifier s = false) "invalid job identifier"
    return s
  | _ => .error "invalid job identifier"

def canonicalPlan (P : Platform) (value : JsValue) : Except String PublicationRunnerPlanRecord := do
  let root ← object value
  recordKeys root ["canonicalJson", "digest", "plan"]
  let plan ← validatePublicationRunnerPlan P (field root "plan")
  match field root "canonicalJson", field root "digest" with
  | .str canonical, .str digest => do
    reject (canonical ≠ plan.canonicalJson ∨ digest ≠ plan.digest) "plan record identity mismatch"
    return plan
  | _, _ => throw "plan record identity mismatch"

/-- Throws unless the two values have one canonical text. -/
def rejectDifferent (left right : JsValue) (error : String) : Except String Unit := do
  let leftText ← canonicalJson left
  let rightText ← canonicalJson right
  reject (leftText ≠ rightText) error

/-! ### Preparation -/

structure PreparedFields where
  storeId : JsString
  campaignId : JsString
  runId : JsString
  source : PreviewSourceIdentity
  plan : PublicationRunnerPlanRecord

def JobRecord.preparedFields (r : JobRecord) : PreparedFields :=
  ⟨r.storeId, r.campaignId, r.runId, r.source, r.plan⟩

def PreparedFields.toJson (p : PreparedFields) : JsValue :=
  .obj [(js "campaignId", .str p.campaignId), (js "plan", p.plan.toJson),
    (js "runId", .str p.runId), (js "source", p.source.toJson), (js "storeId", .str p.storeId)]

/-- What a caller wants prepared, whatever the nonce and the creation time. -/
structure PreparationIntent where
  campaignId : JsString
  runId : JsString
  pilotId : JsString
  source : PreviewSourceIdentity
  imageDigest : JsString
  migrationInstallEgress : List RunnerEgressDestination
  expiresAt : ℕ
  deriving DecidableEq

def PreparationIntent.toJson (i : PreparationIntent) : JsValue :=
  .obj [(js "campaignId", .str i.campaignId), (js "expiresAt", .num (.int i.expiresAt)),
    (js "imageDigest", .str i.imageDigest),
    (js "migrationInstallEgress", destinationsJson i.migrationInstallEgress),
    (js "pilotId", .str i.pilotId), (js "runId", .str i.runId), (js "source", i.source.toJson)]

def canonicalPreparedInput (input : JsValue) : Except String (List Member) := do
  let value ← detachRunnerEvidenceData input
  let detached ← object value
  recordKeys detached ["campaignId", "plan", "runId", "source", "storeId"]
  return detached

/-- The inputs a plan was made from. -/
def planInputOf (plan : PublicationRunnerPlan) : CreatePublicationRunnerPlanInput where
  pilotId := .str plan.subject.pilotId
  repository := plan.subject.repository.toJson
  base := .obj [(js "branch", .str plan.subject.branch), (js "sha", .str plan.subject.sha)]
  sourceArchiveDigest := plan.inputs.sourceArchiveDigest
  manifestDigest := plan.inputs.manifestDigest
  imageDigest := .str plan.imageDigest
  migrationInstallEgress := destinationsJson plan.destinations
  expiresAt := .num (.int plan.expiresAt)
  now := .num (.int plan.createdAt)

def intentOf (campaignId runId : JsString) (source : PreviewSourceIdentity)
    (normalized : NormalizedPlanInput) : PreparationIntent where
  campaignId := campaignId
  runId := runId
  pilotId := normalized.subject.pilotId
  source := source
  imageDigest := normalized.imageDigest
  migrationInstallEgress := normalized.destinations
  expiresAt := normalized.expiresAt

def readPreparationIntent (P : Platform) (input : JsValue) : Except String PreparationIntent := do
  let detached ← canonicalPreparedInput input
  let campaignId ← identifier (field detached "campaignId")
  let runId ← identifier (field detached "runId")
  let source ← canonicalSource (field detached "source")
  let plan ← canonicalPlan P (field detached "plan")
  reject (¬ SourceMatchesPlan source plan.plan) "source does not match plan"
  let normalized ← normalizePublicationRunnerPlanInput P (planInputOf plan.plan)
  return intentOf campaignId runId source normalized

def preparationIntent (P : Platform) (input : JsValue) : Except JobFailureCode PreparationIntent :=
  rethrow (readPreparationIntent P input) .inputInvalid

/-! ### The codec -/

def baseKeys : List String :=
  ["campaignId", "intentDigest", "jobId", "plan", "recordDigest", "revision", "runId",
    "schemaVersion", "source", "state", "storeId"]

def reviewedKeys : List String :=
  ["campaignId", "intentDigest", "jobId", "plan", "recordDigest", "review", "revision", "runId",
    "schemaVersion", "source", "state", "storeId"]

def retainedKeys : List String :=
  ["campaignId", "identity", "intentDigest", "jobId", "plan", "recordDigest", "review", "revision",
    "runId", "schemaVersion", "source", "state", "storeId"]

def isRevision (value : JsValue) (revision : ℤ) : Bool :=
  match value with
  | .num n => decide (n = .int revision)
  | _ => false

/-- The revision that the members announce, with its keys. -/
def announcedRevision (root : List Member) : Except String (ℕ × List String) :=
  if isRevision (field root "revision") 1 && isText (field root "state") "prepared" then
    .ok (1, baseKeys)
  else if isRevision (field root "revision") 2 && isText (field root "state") "reviewed" then
    .ok (2, reviewedKeys)
  else if isRevision (field root "revision") 3 &&
      isText (field root "state") "evidence_retained" then
    .ok (3, retainedKeys)
  else .error "unsupported job record revision"

def storeIdOf (root : List Member) : Except String JsString :=
  match isSchemaVersion (field root "schemaVersion"), field root "storeId" with
  | true, .str s => do
    reject (isUuid s = false) "invalid job record header"
    return s
  | _, _ => .error "invalid job record header"

def textField (root : List Member) (key error : String) : Except String JsString :=
  match field root key with
  | .str s => .ok s
  | _ => .error error

def readReview (P : Platform) (root : List Member) (campaignId runId : JsString)
    (source : PreviewSourceIdentity) (plan : PublicationRunnerPlanRecord) :
    Except String RunnerEvidenceContext := do
  let review ← rethrow (validateRunnerEvidenceContextStructure P (field root "review"))
    "expected_context_invalid"
  reject (review.campaignId ≠ campaignId ∨ review.runId ≠ runId)
    "job review is not bound to the record"
  rejectDifferent review.source.toJson source.toJson "job review is not bound to the record"
  rejectDifferent review.plan.toJson plan.toJson "job review is not bound to the record"
  reject (plan.plan.expiresAt ≤ review.previewCompletedAt) "job review is not bound to the record"
  return review

def readIdentity (P : Platform) (root : List Member) (plan : PublicationRunnerPlanRecord)
    (review : RunnerEvidenceContext) : Except String RetainedRunnerEvidenceIdentity := do
  let identity ← rethrow (validateRetainedRunnerEvidenceIdentity (field root "identity"))
    "expected_context_invalid"
  let contextDigest ← runnerEvidenceDigest P review.toJson
  reject (identity.jobId ≠ plan.plan.jobId ∨ identity.planDigest ≠ plan.digest ∨
    identity.contextDigest ≠ contextDigest ∨ plan.plan.expiresAt < identity.expiresAt ∨
    review.previewCompletedAt + reviewTtlMs < identity.expiresAt)
    "retained identity is not bound to the review"
  return identity

def readStage (P : Platform) (root : List Member) (revision : ℕ) (campaignId runId : JsString)
    (source : PreviewSourceIdentity) (plan : PublicationRunnerPlanRecord) :
    Except String JobStage := do
  if revision = 1 then return .prepared
  let review ← readReview P root campaignId runId source plan
  if revision = 2 then return .reviewed review
  let identity ← readIdentity P root plan review
  return .evidenceRetained review identity

/-- The members without the digest. -/
def bodyOf (root : List Member) : JsValue := .obj (root.filter fun m ↦ m.1 ≠ js "recordDigest")

/-- The record that the members of a canonical object make. -/
def readRecord (P : Platform) (root : List Member) : Except String JobRecord := do
  let (revision, keys) ← announcedRevision root
  recordKeys root keys
  let storeId ← storeIdOf root
  let campaignId ← identifier (field root "campaignId")
  let runId ← identifier (field root "runId")
  let source ← canonicalSource (field root "source")
  let plan ← canonicalPlan P (field root "plan")
  let jobId ← textField root "jobId" "job id does not match plan"
  reject (jobId ≠ plan.plan.jobId) "job id does not match plan"
  reject (¬ SourceMatchesPlan source plan.plan) "source does not match plan"
  let intent ← rethrow (preparationIntent P
    (PreparedFields.toJson { storeId, campaignId, runId, source, plan })) "input_invalid"
  let intentDigest ← runnerEvidenceDigest P intent.toJson
  let givenIntent ← textField root "intentDigest" "job record intent or digest is invalid"
  let recordDigest ← textField root "recordDigest" "job record intent or digest is invalid"
  reject (givenIntent ≠ intentDigest ∨ isDigestText recordDigest = false)
    "job record intent or digest is invalid"
  let bodyDigest ← runnerEvidenceDigest P (bodyOf root)
  reject (recordDigest ≠ bodyDigest) "job record digest mismatch"
  let stage ← readStage P root revision campaignId runId source plan
  return {
    storeId, campaignId, runId, jobId := plan.plan.jobId, intentDigest, source, plan, stage,
    recordDigest }

def readCanonicalRecord (P : Platform) (bytes : JsString) : Except String JobRecord := do
  let value ← parseCanonicalJson (.text bytes) maxRecordBytes "job record"
  let root ← object value
  let normalized ← readRecord P root
  rejectDifferent normalized.toJson value "job record is noncanonical"
  return normalized

def decodeJobRecord (P : Platform) (bytes : JsString) : Except JobFailureCode JobRecord :=
  rethrow (readCanonicalRecord P bytes) .storeCorrupt

def encodeJobRecord (P : Platform) (record : JobRecord) : Except JobFailureCode JsString := do
  let detached ← rethrow (detachRunnerEvidenceData record.toJson) .inputInvalid
  let bytes ← rethrow (canonicalJson detached) .inputInvalid
  let _ ← rethrow (decodeJobRecord P bytes) .inputInvalid
  return bytes

/-- The record that a canonical text of the candidate decodes to. -/
def decodeCandidate (P : Platform) (candidate : JsValue) : Except JobFailureCode JobRecord := do
  let bytes ← rethrow (canonicalJson candidate) .inputInvalid
  decodeJobRecord P bytes

def makePreparedRecord (P : Platform) (input : JsValue) : Except JobFailureCode JobRecord :=
  rethrow (do
    let detached ← rethrow (canonicalPreparedInput input) .inputInvalid
    let intent ← preparationIntent P (.obj detached)
    let plan ← rethrow (canonicalPlan P (field detached "plan")) .inputInvalid
    let intentDigest ← rethrow (runnerEvidenceDigest P intent.toJson) .inputInvalid
    let body : List Member := [(js "schemaVersion", .num (.int 1)),
      (js "storeId", field detached "storeId"), (js "campaignId", field detached "campaignId"),
      (js "runId", field detached "runId"), (js "jobId", .str plan.plan.jobId),
      (js "revision", .num (.int 1)), (js "state", .str (js "prepared")),
      (js "intentDigest", .str intentDigest), (js "source", field detached "source"),
      (js "plan", field detached "plan")]
    let recordDigest ← rethrow (runnerEvidenceDigest P (.obj body)) JobFailureCode.inputInvalid
    decodeCandidate P (.obj (body ++ [(js "recordDigest", .str recordDigest)])))
    .inputInvalid

/-! ### Time -/

/-- The earliest of the bounds that the record carries. -/
def JobRecord.expiresAt (r : JobRecord) : ℕ :=
  match r.stage with
  | .prepared => r.plan.plan.expiresAt
  | .reviewed review => min r.plan.plan.expiresAt (review.previewCompletedAt + reviewTtlMs)
  | .evidenceRetained review identity =>
    min r.plan.plan.expiresAt (min (review.previewCompletedAt + reviewTtlMs) identity.expiresAt)

def assertJobCurrent (record : JobRecord) (now : JsNumber) : Except JobFailureCode Unit := do
  let now ← orThrow (timestampOf now) .inputInvalid
  reject (now < record.plan.plan.createdAt ∨
    record.stage.review.any (fun review ↦ decide (now < review.previewCompletedAt)) = true)
    .clockRollback
  reject (record.expiresAt ≤ now) .jobExpired

/-! ### Transitions -/

def withNextRevision (P : Platform) (current : JobRecord) (stage : JobStage) :
    Except JobFailureCode JobRecord := do
  let recordDigest ← rethrow (runnerEvidenceDigest P (bodyJson current.toRecordBase stage))
    .inputInvalid
  decodeCandidate P (JobRecord.toJson { current with stage, recordDigest })

/-- The review that the output and completion time make of a job. -/
def reviewOf (P : Platform) (current : JobRecord) (output completedAt : JsValue)
    (now : JsNumber) : Except JobFailureCode RunnerEvidenceContext :=
  rethrow (validateRunnerEvidenceContext P
    (contextJson current.campaignId current.runId current.plan current.source output completedAt)
    now) .inputInvalid

/-- Throws `jobConflict` unless the two values have one canonical text. -/
def conflictUnlessSame (left right : JsValue) : Except JobFailureCode Unit := do
  let leftText ← rethrow (canonicalJson left) .inputInvalid
  let rightText ← rethrow (canonicalJson right) .inputInvalid
  reject (leftText ≠ rightText) .jobConflict

def appendJobReview (P : Platform) (record : JobRecord) (output completedAt : JsValue)
    (now : JsNumber) : Except JobFailureCode JobRecord := do
  let bytes ← encodeJobRecord P record
  let current ← decodeJobRecord P bytes
  assertJobCurrent current now
  match current.stage with
  | .evidenceRetained _ _ => throw .jobConflict
  | .reviewed review => do
    let given ← reviewOf P current output completedAt now
    conflictUnlessSame review.toJson given.toJson
    return current
  | .prepared => do
    let review ← reviewOf P current output completedAt now
    withNextRevision P current (.reviewed review)

/-- The identity of evidence that is bound to a reviewed job and outlives the moment. -/
def boundIdentity (P : Platform) (current : JobRecord) (review : RunnerEvidenceContext)
    (identity : JsValue) (now : JsNumber) :
    Except JobFailureCode RetainedRunnerEvidenceIdentity := do
  let validated ← rethrow (validateRetainedRunnerEvidenceIdentity identity) .inputInvalid
  let contextDigest ← rethrow (runnerEvidenceDigest P review.toJson) .inputInvalid
  let observedAt ← orThrow (timestampOf now) .inputInvalid
  reject (validated.jobId ≠ current.jobId ∨ validated.planDigest ≠ current.plan.digest ∨
    validated.contextDigest ≠ contextDigest ∨ current.plan.plan.expiresAt < validated.expiresAt ∨
    review.previewCompletedAt + reviewTtlMs < validated.expiresAt ∨
    validated.expiresAt ≤ observedAt) .jobConflict
  return validated

def appendJobIdentity (P : Platform) (record : JobRecord) (identity : JsValue) (now : JsNumber) :
    Except JobFailureCode JobRecord := do
  let bytes ← encodeJobRecord P record
  let current ← decodeJobRecord P bytes
  assertJobCurrent current now
  match current.stage with
  | .prepared => throw .jobConflict
  | .reviewed review => do
    let validated ← boundIdentity P current review identity now
    withNextRevision P current (.evidenceRetained review validated)
  | .evidenceRetained review retained => do
    let validated ← boundIdentity P current review identity now
    conflictUnlessSame retained.toJson validated.toJson
    return current

end ApiMigrator.App.RunnerJob
