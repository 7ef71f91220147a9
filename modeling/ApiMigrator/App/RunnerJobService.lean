import ApiMigrator.App.RunnerJobCodec
import ApiMigrator.App.SourceBundle
import ApiMigrator.Db.JobStore
import ApiMigrator.Foundation.Interaction

/-!
`runner-job-service-core.ts`, `runner-job-producer.ts`, `runner-job-evidence.ts` and
`runner-job-handoff.ts`: the operations of a session on a job store. Each is a program over the
atomic steps it takes: the queries and transactions of the store, the readings of the clock, and
its calls to the evidence client, the checkout and the source store.
-/

set_option autoImplicit false
set_option relaxedAutoImplicit false

namespace ApiMigrator.App.RunnerJob

open Foundation.Text Foundation.Number Foundation.Json Foundation.Outcome Foundation.Pattern
open Foundation.Binary Foundation.Interaction PublicationRunner RunnerEvidence Db.JobStore
open CanonicalJson (canonicalJson)
open SourceBundle (field sha256 Checkout CreateSourceBundleInput createSourceBundle
  parseSourceBundle SourceBundleHeader)

/-! ### Steps -/

/-- How an operation fails: by its own rules, by the evidence client's answer, or because
something it depends on failed, as the service reports it. -/
inductive Failure
  | job (code : JobFailureCode)
  | evidence (code : RunnerEvidenceFailureCode)
  | fault (code : JobFailureCode)
  deriving DecidableEq

/-- A reading of the wall clock. The mark of the store at that moment is kept for the record; no
operation looks at it. -/
structure Reading where
  value : JsNumber
  wallHighWater : ℕ

/-- What an operation does outside itself, one atomic step each. -/
inductive Op
  | custodyCheck
  | custodySync
  | metadata (expectedStoreId : JsString)
  | count
  | observe (expectedStoreId : JsString) (now : ℕ)
  | listRows
  | readRow (campaignId runId : JsString)
  | insert (row : StoredJobRow)
  | compareAndSwap (previous next : StoredJobRow)
  | wallNow
  | randomBytes
  | overlapsCheckout (checkoutPath sourceDirectory : JsString)
  | readCheckout (checkoutPath : JsString)
  | acquireInitial (context : RunnerEvidenceContext)
  | reacquire (context : RunnerEvidenceContext) (identity : RetainedRunnerEvidenceIdentity)
  | readSource (jobId : JsString)
  | putSource (jobId : JsString) (bytes : Bytes)

/-- What a step returns when it does not fail. The client answers with an identity or a code. -/
def Op.Answer : Op → Type
  | .metadata _ => ℕ
  | .count => ℕ
  | .listRows => List StoredJobRow
  | .readRow _ _ => Option StoredJobRow
  | .insert _ => Bool
  | .compareAndSwap _ _ => Bool
  | .wallNow => Reading
  | .randomBytes => Bytes
  | .overlapsCheckout _ _ => Bool
  | .readCheckout _ => Checkout
  | .acquireInitial _ => Except RunnerEvidenceFailureCode JsValue
  | .reacquire _ _ => Except RunnerEvidenceFailureCode JsValue
  | .readSource _ => Bytes
  | _ => Unit

abbrev Service := Prog Op (fun op ↦ Except Failure op.Answer) Failure

abbrev run (op : Op) : Service op.Answer := Prog.attempt op

def storeCode : StoreFailureCode → JobFailureCode
  | .inputInvalid => .inputInvalid
  | .jobConflict => .jobConflict
  | .clockRollback => .clockRollback
  | .storeUnsafe => .storeUnsafe
  | .storeMismatch => .storeMismatch
  | .storeCorrupt => .storeCorrupt
  | .storeFull => .storeFull
  | .storeUnavailable => .storeUnavailable

def storeOutcome {α : Type} (outcome : Except StoreFailureCode α) : Except Failure α :=
  outcome.mapError fun code ↦ .job (storeCode code)

def jobOutcome {α : Type} (outcome : Except JobFailureCode α) : Except Failure α :=
  outcome.mapError .job

def orFail {α : Type} (outcome : Except JobFailureCode α) : Service α :=
  Prog.lift (jobOutcome outcome)

/-- `try { ... } catch { throw new RunnerJobError(code) }` around a step. -/
def runOr (op : Op) (code : JobFailureCode) : Service op.Answer :=
  (run op).recover fun _ ↦ throw (.job code)

/-! ### The job store -/

section Store

variable (storeId : JsString)

def check : Service Unit := do
  run .custodyCheck
  let _ ← run (.metadata storeId)
  let _ ← run .count
  return ()

def sync : Service Unit := do
  run .custodySync
  check storeId

def observeTime (now : JsNumber) : Service Unit := do
  let now ← Prog.lift (storeOutcome (observable now))
  check storeId
  run (.observe storeId now)
  sync storeId
  let mark : ℕ ← run (.metadata storeId)
  Prog.ensure (now ≤ mark) (.job .storeCorrupt)

def list : Service (List StoredJobRow) := do
  check storeId
  run .listRows

def read (campaignId runId : JsString) : Service (Option StoredJobRow) := do
  Prog.ensure (isIdentifier campaignId = true ∧ isIdentifier runId = true) (.job .inputInvalid)
  check storeId
  run (.readRow campaignId runId)

def insert (input : StoredJobRow) : Service (Bool × StoredJobRow) := do
  let row ← Prog.lift (storeOutcome (validateRow input .inputInvalid))
  check storeId
  let inserted : Bool ← run (.insert row)
  sync storeId
  let actual : Option StoredJobRow ← run (.readRow row.campaignId row.runId)
  let actual ← orFail (orThrow actual .storeCorrupt)
  return (inserted, actual)

/-- The rows differ in nothing but the revision and what comes with it. -/
def Follows (previous next : StoredJobRow) : Prop :=
  next.revision = previous.revision + 1 ∧ next.campaignId = previous.campaignId ∧
    next.runId = previous.runId ∧ next.jobId = previous.jobId ∧
    next.intentDigest = previous.intentDigest

instance (previous next : StoredJobRow) : Decidable (Follows previous next) :=
  inferInstanceAs (Decidable (_ ∧ _))

def compareAndSwap (previousInput nextInput : StoredJobRow) : Service (Bool × StoredJobRow) := do
  let previous ← Prog.lift (storeOutcome (validateRow previousInput .inputInvalid))
  let next ← Prog.lift (storeOutcome (validateRow nextInput .inputInvalid))
  Prog.ensure (Follows previous next) (.job .inputInvalid)
  check storeId
  let committed : Bool ← run (.compareAndSwap previous next)
  sync storeId
  let actual : Option StoredJobRow ← run (.readRow previous.campaignId previous.runId)
  let actual ← orFail (orThrow actual .storeCorrupt)
  return (committed, actual)

end Store

/-! ### Rows and records -/

def recordToStoredRow (P : Platform) (record : JobRecord) : Except JobFailureCode StoredJobRow := do
  let canonicalRecord ← encodeJobRecord P record
  let validated ← decodeJobRecord P canonicalRecord
  return {
    campaignId := validated.campaignId
    runId := validated.runId
    jobId := validated.jobId
    revision := validated.stage.revision
    intentDigest := validated.intentDigest
    recordDigest := validated.recordDigest
    canonicalRecord }

/-- The columns are those of the record. -/
def RowMatches (row : StoredJobRow) (record : JobRecord) : Prop :=
  row.campaignId = record.campaignId ∧ row.runId = record.runId ∧ row.jobId = record.jobId ∧
    row.revision = record.stage.revision ∧ row.intentDigest = record.intentDigest ∧
    row.recordDigest = record.recordDigest

instance (row : StoredJobRow) (record : JobRecord) : Decidable (RowMatches row record) :=
  inferInstanceAs (Decidable (_ ∧ _))

def validateStoredJob (P : Platform) (row : StoredJobRow) (storeId : JsString) :
    Except JobFailureCode JobRecord := do
  let record ← decodeJobRecord P row.canonicalRecord
  reject (¬ RowMatches row record) .storeCorrupt
  let canonical ← rethrow (canonicalJson record.toJson) .storeCorrupt
  reject (canonical ≠ row.canonicalRecord) .storeCorrupt
  reject (record.storeId ≠ storeId) .storeMismatch
  return record

structure JobKey where
  campaignId : JsString
  runId : JsString
  jobId : JsString

def readJobKey (value : JsValue) : Except String JobKey := do
  let detached ← detachRunnerEvidenceData value
  let key ← object detached
  recordKeys key ["campaignId", "jobId", "runId"]
  let campaignId ← identifier (field key "campaignId")
  let runId ← identifier (field key "runId")
  let jobId ← textField key "jobId" "invalid job key"
  reject (isJobId jobId = false) "invalid job key"
  return { campaignId, runId, jobId }

def snapshotJobKey (value : JsValue) : Except JobFailureCode JobKey :=
  rethrow (readJobKey value) .inputInvalid

/-- Whether two values have one canonical text. -/
def sameText (left right : JsValue) : Except JobFailureCode Bool := do
  let leftText ← rethrow (canonicalJson left) .storeUnavailable
  let rightText ← rethrow (canonicalJson right) .storeUnavailable
  return decide (leftText = rightText)

def preparedJson (r : JobRecord) : JsValue :=
  .obj [(js "campaignId", .str r.campaignId), (js "intentDigest", .str r.intentDigest),
    (js "jobId", .str r.jobId), (js "plan", r.plan.toJson), (js "runId", .str r.runId),
    (js "source", r.source.toJson), (js "storeId", .str r.storeId)]

def samePrepared (a b : JobRecord) : Except JobFailureCode Bool :=
  sameText (preparedJson a) (preparedJson b)

/-! ### The clock -/

def currentTime : Service ℕ :=
  (do
    let reading : Reading ← run .wallNow
    orFail (orThrow (timestampOf reading.value) .inputInvalid)).recover fun _ ↦
      throw (Failure.job .inputInvalid)

section Operations

variable (P : Platform) (storeId : JsString)

def checkRunnerJobCurrent (record : JobRecord) : Service Unit := do
  let observedAt ← currentTime
  observeTime storeId (.int observedAt)
  let checkedAt ← currentTime
  Prog.ensure (observedAt ≤ checkedAt) (.job .clockRollback)
  orFail (assertJobCurrent record (.int checkedAt))

def inspectRunnerJob (selected : JobKey) : Service JobRecord := do
  let row ← read storeId selected.campaignId selected.runId
  let row ← orFail (orThrow row .jobMissing)
  let record ← orFail (validateStoredJob P row storeId)
  Prog.ensure (record.jobId = selected.jobId) (.job .jobConflict)
  return record

/-! ### Reviews -/

def snapshotReviewOutput (value : JsValue) : Except JobFailureCode PublicationRunnerOutput :=
  rethrow (do
    let detached ← detachRunnerEvidenceData value
    validateRunnerOutput detached) .inputInvalid

def snapshotCompletedAt (value : JsValue) : Except JobFailureCode ℕ :=
  rethrow (timestamp value "completion time") .inputInvalid

/-- What the readback of a committed review may show: the review, or evidence retained for it. -/
def settleCommitted (next actual : JobRecord) (review : RunnerEvidenceContext)
    (row nextRow : StoredJobRow) : Except JobFailureCode Unit :=
  if row.canonicalRecord = nextRow.canonicalRecord then .ok ()
  else
    match actual.stage with
    | .evidenceRetained stored _ => do
      let same ← samePrepared next actual
      reject (same = false) .storeCorrupt
      let sameReview ← sameText stored.toJson review.toJson
      reject (sameReview = false) .storeCorrupt
    | _ => .error .storeCorrupt

/-- What a review that was not committed may find in its place: itself. -/
def settleLost (previous actual : JobRecord) (review : RunnerEvidenceContext) :
    Except JobFailureCode Unit := do
  let same ← samePrepared previous actual
  reject (same = false) .jobConflict
  match actual.stage.review with
  | none => throw .jobConflict
  | some stored => do
    let sameReview ← sameText stored.toJson review.toJson
    reject (sameReview = false) .jobConflict

/-- The end of `recordRunnerJobReview` on a job that has no review yet. -/
def writeReview (selected : JobKey) (previousRow : StoredJobRow) (previous : JobRecord)
    (review : RunnerEvidenceContext) (output : PublicationRunnerOutput)
    (completedAt startedAt : ℕ) : Service JobRecord := do
  let next ← orFail (appendJobReview P previous output.toJson (.num (.int completedAt))
    (.int startedAt))
  checkRunnerJobCurrent storeId next
  let nextRow ← orFail (recordToStoredRow P next)
  let (committed, swapped) ← compareAndSwap storeId previousRow nextRow
  if committed then do
    let actual ← orFail (validateStoredJob P swapped storeId)
    orFail (settleCommitted next actual review swapped nextRow)
    checkRunnerJobCurrent storeId actual
    return actual
  else do
    let row ← read storeId selected.campaignId selected.runId
    let row ← orFail (orThrow row .storeCorrupt)
    let actual ← orFail (validateStoredJob P row storeId)
    orFail (settleLost previous actual review)
    checkRunnerJobCurrent storeId actual
    return actual

def recordRunnerJobReview (key output completedAt : JsValue) : Service JobRecord := do
  let selected ← orFail (snapshotJobKey key)
  let selectedOutput ← orFail (snapshotReviewOutput output)
  let selectedTime ← orFail (snapshotCompletedAt completedAt)
  let startedAt ← currentTime
  observeTime storeId (.int startedAt)
  let previousRow ← read storeId selected.campaignId selected.runId
  let previousRow ← orFail (orThrow previousRow .jobMissing)
  let previous ← orFail (validateStoredJob P previousRow storeId)
  Prog.ensure (previous.jobId = selected.jobId) (.job .jobConflict)
  orFail (assertJobCurrent previous (.int startedAt))
  Prog.ensure (previous.plan.plan.createdAt ≤ selectedTime ∧ selectedTime ≤ startedAt)
    (.job .inputInvalid)
  let review ← orFail (reviewOf P previous selectedOutput.toJson (.num (.int selectedTime))
    (.int startedAt))
  match previous.stage.review with
  | some stored => do
    let same ← orFail (sameText stored.toJson review.toJson)
    Prog.ensure (same = true) (.job .jobConflict)
    checkRunnerJobCurrent storeId previous
    return previous
  | none =>
    writeReview P storeId selected previousRow previous review selectedOutput selectedTime startedAt

/-! ### Evidence -/

/-- `value < bound` for an integral bound. -/
def isBelow (value : JsNumber) (bound : ℤ) : Bool :=
  match value with
  | .int i => decide (i < bound)
  | .negZero => decide (0 < bound)
  | .fraction negative numerator exponent =>
    decide ((if negative then -(numerator : ℤ) else numerator) < bound * 2 ^ exponent)
  | .infinite negative => negative
  | .nan => false

/-- The call of the client on a job that has a review. -/
def acquireFrom (stage : JobStage) : Service (Except RunnerEvidenceFailureCode JsValue) :=
  match stage with
  | .prepared => throw (.job .jobConflict)
  | .reviewed review => run (.acquireInitial review)
  | .evidenceRetained review identity => run (.reacquire review identity)

/-- Stores the candidate unless the snapshot had its evidence already; returns what is stored. -/
def retainEvidence (selected : JobKey) (snapshot candidate : JobRecord) : Service JobRecord :=
  if snapshot.stage.revision = 3 then inspectRunnerJob P storeId selected
  else do
    let candidateRow ← orFail (recordToStoredRow P candidate)
    let snapshotRow ← orFail (recordToStoredRow P snapshot)
    let (committed, row) ← compareAndSwap storeId snapshotRow candidateRow
    let actual ← orFail (validateStoredJob P row storeId)
    Prog.ensure (committed = true → row.canonicalRecord = candidateRow.canonicalRecord)
      (.job .storeCorrupt)
    return actual

/-- The end of `acquireRunnerJobEvidence`, with an identity from the client. -/
def retainIdentity (selected : JobKey) (snapshot : JobRecord) (identity : JsValue) :
    Service JobRecord := do
  let checkedAt : Reading ← run .wallNow
  orFail (assertJobCurrent snapshot checkedAt.value)
  let appendedAt : Reading ← run .wallNow
  let candidate ← orFail (appendJobIdentity P snapshot identity appendedAt.value)
  let actual ← retainEvidence P storeId selected snapshot candidate
  let actualText ← orFail (encodeJobRecord P actual)
  let candidateText ← orFail (encodeJobRecord P candidate)
  Prog.ensure (actualText = candidateText) (.job .jobConflict)
  let observedAt : Reading ← run .wallNow
  observeTime storeId observedAt.value
  let finishedAt : Reading ← run .wallNow
  Prog.ensure (isBelow finishedAt.value ((safeInteger observedAt.value).getD 0) = false)
    (.job .clockRollback)
  orFail (assertJobCurrent snapshot finishedAt.value)
  orFail (assertJobCurrent actual finishedAt.value)
  return actual

def acquireRunnerJobEvidence (key : JsValue) : Service JobRecord := do
  let selected ← orFail (snapshotJobKey key)
  let startedAt : Reading ← run .wallNow
  observeTime storeId startedAt.value
  let snapshot ← inspectRunnerJob P storeId selected
  orFail (assertJobCurrent snapshot startedAt.value)
  let result ← acquireFrom snapshot.stage
  let answeredAt : Reading ← run .wallNow
  observeTime storeId answeredAt.value
  match result with
  | .error code => throw (.evidence code)
  | .ok identity => retainIdentity P storeId selected snapshot identity

/-- `acquireEvidence` of a session that was configured without a client. -/
def acquireWithoutClient (key : JsValue) : Service JobRecord := do
  let selected ← orFail (snapshotJobKey key)
  let now : Reading ← run .wallNow
  observeTime storeId now.value
  let record ← inspectRunnerJob P storeId selected
  orFail (assertJobCurrent record now.value)
  Prog.ensure (record.stage.revision ≠ 1) (.job .jobConflict)
  throw (.evidence .configurationInvalid)

/-! ### Preparation -/

structure PrepareJobInput where
  campaignId : JsString
  runId : JsString
  pilotId : JsValue
  checkoutPath : JsString
  repository : JsValue
  base : JsValue
  manifestJson : JsString
  imageDigest : JsValue
  migrationInstallEgress : JsValue
  expiresAt : JsValue

def zeroDigest : JsValue := .str (js "sha256:" ++ List.replicate 64 0x30)

def readPrepareInput (value : JsValue) : Except String PrepareJobInput := do
  let detached ← detachRunnerEvidenceData value
  let input ← object detached
  recordKeys input ["base", "campaignId", "checkoutPath", "expiresAt", "imageDigest",
    "manifestJson", "migrationInstallEgress", "pilotId", "repository", "runId"]
  let campaignId ← identifier (field input "campaignId")
  let runId ← identifier (field input "runId")
  let checkoutPath ← textField input "checkoutPath" "invalid preparation input"
  let manifestJson ← textField input "manifestJson" "invalid preparation input"
  let _ ← canonicalSource (.obj [(js "repository", field input "repository"),
    (js "base", field input "base"), (js "manifestDigest", zeroDigest),
    (js "sourceArchiveDigest", zeroDigest)])
  return {
    campaignId, runId, checkoutPath, manifestJson
    pilotId := field input "pilotId"
    repository := field input "repository"
    base := field input "base"
    imageDigest := field input "imageDigest"
    migrationInstallEgress := field input "migrationInstallEgress"
    expiresAt := field input "expiresAt" }

def snapshotInput (value : JsValue) : Except JobFailureCode PrepareJobInput :=
  rethrow (readPrepareInput value) .inputInvalid

/-- The identity that a bundle's header and digest give its source. -/
def sourceOfHeader (header : SourceBundleHeader) (digest : JsString) : PreviewSourceIdentity where
  repository := header.repository
  base := header.base
  manifestDigest := header.manifest.digest
  sourceArchiveDigest := digest

/-- The source identity of a checkout, with the bundle it was read from. -/
def sourceOfCheckout (checkout : Checkout) (input : PrepareJobInput)
    (maxSourceBytes : Option ℕ) : Except String (PreviewSourceIdentity × Bytes) := do
  let bundle ← createSourceBundle P.hashes checkout
    { repository := input.repository, base := input.base, manifestJson := .str input.manifestJson }
  reject (∃ limit ∈ maxSourceBytes, limit < bundle.bytes.length) "source exceeds handoff limit"
  let parsed ← parseSourceBundle P.hashes bundle.bytes
  return (sourceOfHeader parsed.header parsed.digest, bundle.bytes)

def planInput (input : PrepareJobInput) (source : PreviewSourceIdentity) (now : ℕ) :
    CreatePublicationRunnerPlanInput where
  pilotId := input.pilotId
  repository := source.repository.toJson
  base := .obj [(js "branch", .str source.base.branch), (js "sha", .str source.base.sha)]
  sourceArchiveDigest := source.sourceArchiveDigest
  manifestDigest := source.manifestDigest
  imageDigest := input.imageDigest
  migrationInstallEgress := input.migrationInstallEgress
  expiresAt := input.expiresAt
  now := .num (.int now)

/-- What the input asks for, read against a creation time. -/
def normalizedIntent (input : PrepareJobInput) (source : PreviewSourceIdentity) (now : ℕ) :
    Except JobFailureCode PreparationIntent := do
  let normalized ← rethrow (normalizePublicationRunnerPlanInput P (planInput input source now))
    .inputInvalid
  return intentOf input.campaignId input.runId source normalized

def assertDisjointCustody (checkoutPath : JsString) :
    Option JsString → Service Unit
  | none => pure ()
  | some sourceDirectory => do
    let overlaps : Bool ← runOr (.overlapsCheckout checkoutPath sourceDirectory) .storeUnsafe
    Prog.ensure (overlaps = false) (.job .storeUnsafe)

/-- The end of a preparation that finds the job stored. -/
def retryPreparation (existing : JobRecord) (input : PrepareJobInput)
    (source : PreviewSourceIdentity) : Service JobRecord := do
  let intent ← orFail (normalizedIntent P input source existing.plan.plan.createdAt)
  let existingIntent ← orFail (preparationIntent P existing.preparedFields.toJson)
  let same ← orFail (sameText intent.toJson existingIntent.toJson)
  Prog.ensure (same = true) (.job .jobConflict)
  checkRunnerJobCurrent storeId existing
  return existing

/-- The end of a preparation that finds no job stored. -/
def firstPreparation (input : PrepareJobInput) (source : PreviewSourceIdentity) :
    Service JobRecord := do
  let createdAt ← currentTime
  let intent ← orFail (normalizedIntent P input source createdAt)
  let nonce : Bytes ← runOr .randomBytes .inputInvalid
  let plan ← orFail (rethrow (createPublicationRunnerPlan P (planInput input source createdAt)
    nonce) .inputInvalid)
  let candidate ← orFail (makePreparedRecord P (PreparedFields.toJson {
    storeId, campaignId := input.campaignId, runId := input.runId, source, plan }))
  checkRunnerJobCurrent storeId candidate
  let row ← orFail (recordToStoredRow P candidate)
  let (inserted, stored) ← insert storeId row
  let winner ← orFail (validateStoredJob P stored storeId)
  let winnerIntent ← orFail (preparationIntent P winner.preparedFields.toJson)
  let same ← orFail (sameText intent.toJson winnerIntent.toJson)
  Prog.ensure (inserted = true ∨ same = true) (.job .jobConflict)
  checkRunnerJobCurrent storeId winner
  return winner

def prepareRunnerJobWithSource (value : JsValue) (maxSourceBytes : Option ℕ)
    (protectedSourceDirectory : Option JsString) : Service (JobRecord × Bytes) := do
  let input ← orFail (snapshotInput value)
  let startedAt ← currentTime
  observeTime storeId (.int startedAt)
  assertDisjointCustody input.checkoutPath protectedSourceDirectory
  let checkout : Checkout ← runOr (.readCheckout input.checkoutPath) .inputInvalid
  let (source, sourceBundle) ←
    orFail (rethrow (sourceOfCheckout P checkout input maxSourceBytes) .inputInvalid)
  let previousRow ← read storeId input.campaignId input.runId
  match previousRow with
  | some row => do
    let existing ← orFail (validateStoredJob P row storeId)
    let job ← retryPreparation P storeId existing input source
    return (job, sourceBundle)
  | none => do
    let job ← firstPreparation P storeId input source
    return (job, sourceBundle)

def prepareRunnerJob (value : JsValue) : Service JobRecord := do
  let (job, _) ← prepareRunnerJobWithSource P storeId value none none
  return job

/-! ### Handoffs -/

def maxJobSourceBytes : ℕ := 8388608

structure RunnerJobHandoff where
  job : JobRecord
  sourceBundle : Bytes

/-- `prepared` of the handoff: current, and not yet reviewed. -/
def assertPrepared (record : JobRecord) : Service Unit := do
  checkRunnerJobCurrent storeId record
  Prog.ensure (record.stage = .prepared) (.job .jobConflict)

/-- The bytes are a bundle of the source that the job was prepared from. -/
def assertSourceOf (record : JobRecord) (bytes : Bytes) : Except String Unit := do
  reject (maxJobSourceBytes < bytes.length) "source exceeds handoff limit"
  let parsed ← parseSourceBundle P.hashes bytes
  rejectDifferent (sourceOfHeader parsed.header parsed.digest).toJson record.source.toJson
    "source differs from original job"

def readHandoff (selected : JobKey) : Service RunnerJobHandoff := do
  let record ← inspectRunnerJob P storeId selected
  assertPrepared storeId record
  let bytes : Bytes ← run (.readSource record.jobId)
  orFail (rethrow (assertSourceOf P record bytes) .storeCorrupt)
  let current ← inspectRunnerJob P storeId selected
  assertPrepared storeId current
  let same ← orFail (sameText current.toJson record.toJson)
  Prog.ensure (same = true) (.job .jobConflict)
  return { job := current, sourceBundle := bytes }

def readRunnerJobHandoff (key : JsValue) : Service RunnerJobHandoff := do
  let selected ← orFail (snapshotJobKey key)
  readHandoff P storeId selected

def JobRecord.key (r : JobRecord) : JsValue :=
  .obj [(js "campaignId", .str r.campaignId), (js "runId", .str r.runId),
    (js "jobId", .str r.jobId)]

def prepareRunnerJobHandoff (value : JsValue) (handoffDirectory : JsString) :
    Service RunnerJobHandoff := do
  let (job, sourceBundle) ← prepareRunnerJobWithSource P storeId value (some maxJobSourceBytes)
    (some handoffDirectory)
  assertPrepared storeId job
  run (.putSource job.jobId sourceBundle)
  readRunnerJobHandoff P storeId job.key

/-! ### Sessions -/

/-- Opening a session checks every stored job and observes the time. -/
def openSession : Service Unit := do
  let rows ← list storeId
  orFail (forEach (fun row ↦ (validateStoredJob P row storeId).map fun _ ↦ ()) rows)
  let now : Reading ← run .wallNow
  observeTime storeId now.value

/-- A call of a session. -/
inductive Call
  | open
  | inspect (key : JsValue)
  | prepare (input : JsValue)
  | prepareHandoff (input : JsValue) (handoffDirectory : JsString)
  | readHandoff (key : JsValue)
  | recordReviewedOutput (key output completedAt : JsValue)
  | acquireEvidence (key : JsValue)
  | acquireWithoutClient (key : JsValue)

/-- What a call returns. -/
inductive Reply
  | opened
  | job (record : JobRecord)
  | handoff (handoff : RunnerJobHandoff)

def Call.program : Call → Service Reply
  | .open => do
    openSession P storeId
    return .opened
  | .inspect key => do
    let selected ← orFail (snapshotJobKey key)
    let record ← inspectRunnerJob P storeId selected
    return .job record
  | .prepare input => do
    let record ← prepareRunnerJob P storeId input
    return .job record
  | .prepareHandoff input handoffDirectory => do
    let handoff ← prepareRunnerJobHandoff P storeId input handoffDirectory
    return .handoff handoff
  | .readHandoff key => do
    let handoff ← readRunnerJobHandoff P storeId key
    return .handoff handoff
  | .recordReviewedOutput key output completedAt => do
    let record ← recordRunnerJobReview P storeId key output completedAt
    return .job record
  | .acquireEvidence key => do
    let record ← acquireRunnerJobEvidence P storeId key
    return .job record
  | .acquireWithoutClient key => do
    let record ← RunnerJob.acquireWithoutClient P storeId key
    return .job record

end Operations

end ApiMigrator.App.RunnerJob
