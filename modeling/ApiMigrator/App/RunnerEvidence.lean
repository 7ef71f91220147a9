import ApiMigrator.App.PublicationRunner

/-!
`runner-evidence-contract.ts` and the source identity of `preview-evidence.ts`: the context an
operator reviewed, and the identity of the signed evidence that is retained for it. Both are read
from detached JSON under exact key sets.
-/

set_option autoImplicit false
set_option relaxedAutoImplicit false

namespace ApiMigrator.App.RunnerEvidence

open Foundation.Text Foundation.Number Foundation.Json Foundation.Outcome Foundation.Pattern
open Foundation.Binary PublicationRunner
open CanonicalJson (canonicalJson)
open SourceBundle (RepositoryIdentity BaseIdentity field sha256 isSchemaVersion)

/-! ### Detaching data -/

def descriptorRefusal : Exotic → String
  | .undefined | .hidden | .accessor =>
    "Runner evidence input contains an accessor or hidden member"
  | .unsupported => "Canonical JSON rejected: unsupported JSON value"
  | .cyclic => "Runner evidence input is cyclic"
  | .irregularArray => "Runner evidence input contains a sparse or extended array"
  | .nonPlainObject => "Runner evidence input is not plain JSON data"

mutual

/-- Rejects accessors before any ordinary property read. -/
def assertDataDescriptors : JsValue → Except String Unit
  | .arr xs => assertElements xs
  | .obj ms => assertMembers ms
  | .exotic kind => .error (descriptorRefusal kind)
  | .null => .ok ()
  | .bool _ => .ok ()
  | .num n => (canonicalJson (.num n)).map fun _ ↦ ()
  | .str s => (canonicalJson (.str s)).map fun _ ↦ ()

def assertElements : List JsValue → Except String Unit
  | [] => .ok ()
  | x :: xs => do
    assertDataDescriptors x
    assertElements xs

def assertMembers : List Member → Except String Unit
  | [] => .ok ()
  | (_, v) :: ms => do
    assertDataDescriptors v
    assertMembers ms

end

def detachRunnerEvidenceData (value : JsValue) : Except String JsValue := do
  assertDataDescriptors value
  let text ← canonicalJson value
  orThrow (jsonParse text) "Unexpected token in JSON"

def runnerEvidenceDigest (P : Platform) (value : JsValue) : Except String JsString := do
  assertDataDescriptors value
  canonicalDigest P value

/-! ### Reading fields -/

def plainRecord (value : JsValue) (label : String) : Except String (List Member) :=
  match value with
  | .obj ms => .ok ms
  | _ => .error s!"{label} must be a plain object"

def detachedRecord (value : JsValue) (label : String) : Except String (List Member) := do
  let detached ← detachRunnerEvidenceData value
  plainRecord detached label

/-- The expected keys are given in their order. -/
def expectedKeys (root : List Member) (expected : List String) (label : String) :
    Except String Unit :=
  reject ((sortByKey root).map Prod.fst ≠ expected.map js)
    s!"{label} contains missing or unexpected fields"

def string (value : JsValue) (label : String) : Except String JsString :=
  match value with
  | .str s => do
    reject (s = []) s!"{label} is invalid"
    let _ ← canonicalJson value
    return s
  | _ => .error s!"{label} is invalid"

/-- `^[A-Za-z0-9][A-Za-z0-9._:@+-]{0,127}$` -/
def isSignerIdentifier (s : JsString) : Bool :=
  match s with
  | first :: rest =>
    isAlphanumeric first && rest.all (isAlphanumericOr "._:@+-") && decide (rest.length ≤ 127)
  | [] => false

def contextIdentifier (value : JsValue) (label : String) : Except String JsString := do
  let parsed ← string value label
  reject (isIdentifier parsed = false) s!"{label} is invalid"
  return parsed

def evidenceDigest (value : JsValue) (label : String) : Except String JsString := do
  let parsed ← string value label
  reject (isDigestText parsed = false) s!"{label} is invalid"
  return parsed

/-! ### Source identities -/

structure PreviewSourceIdentity where
  repository : RepositoryIdentity
  base : BaseIdentity
  manifestDigest : JsString
  sourceArchiveDigest : JsString
  deriving DecidableEq

def PreviewSourceIdentity.toJson (s : PreviewSourceIdentity) : JsValue :=
  .obj [(js "base", .obj [(js "branch", .str s.base.branch), (js "sha", .str s.base.sha),
      (js "treeSha", .str s.base.treeSha)]),
    (js "manifestDigest", .str s.manifestDigest), (js "repository", s.repository.toJson),
    (js "sourceArchiveDigest", .str s.sourceArchiveDigest)]

@[simp]
theorem PreviewSourceIdentity.canonical_toJson (s : PreviewSourceIdentity) :
    Canonical s.toJson := by
  have hbase : Canonical (.obj [(js "branch", .str s.base.branch), (js "sha", .str s.base.sha),
      (js "treeSha", .str s.base.treeSha)]) :=
    canonical_obj (by simp only [List.map_cons, List.map_nil]; decide) (by simp)
  exact canonical_obj (by simp only [List.map_cons, List.map_nil]; decide) (by simpa using hbase)

theorem PreviewSourceIdentity.toJson_injective {s s' : PreviewSourceIdentity}
    (h : s.toJson = s'.toJson) : s = s' := by
  obtain ⟨repository, ⟨branch, sha, treeSha⟩, manifest, archive⟩ := s
  obtain ⟨repository', ⟨branch', sha', treeSha'⟩, manifest', archive'⟩ := s'
  simp only [PreviewSourceIdentity.toJson, JsValue.obj.injEq, JsValue.str.injEq, List.cons.injEq,
    Prod.mk.injEq, true_and, and_true] at h
  obtain ⟨⟨rfl, rfl, rfl⟩, rfl, hrepository, rfl⟩ := h
  rw [repository_injective hrepository]

def previewRecord (value : JsValue) (label : String) : Except String (List Member) :=
  match value with
  | .obj ms => .ok ms
  | .exotic .nonPlainObject => .error s!"{label} must be a plain JSON object"
  | _ => .error s!"{label} must be an object"

/-- The expected keys are given in their order. -/
def previewKeys (value : List Member) (expected : List String) (label : String) :
    Except String Unit :=
  reject ((sortByKey value).map Prod.fst ≠ expected.map js)
    s!"{label} has unknown or missing fields"

def positiveSafeInteger (value : JsValue) (label : String) : Except String JsNumber :=
  match value with
  | .num n => do
    let i ← orThrow (safeInteger n) s!"Local preview {label} must be a positive safe integer"
    reject (i ≤ 0) s!"Local preview {label} must be a positive safe integer"
    return n
  | _ => .error s!"Local preview {label} must be a positive safe integer"

def gitOid (value : JsValue) (label : String) : Except String JsString :=
  match value with
  | .str s => do
    reject (isGitSha s = false) s!"Local preview {label} is invalid"
    return s
  | _ => .error s!"Local preview {label} is invalid"

def previewDigest (value : JsValue) (label : String) : Except String JsString :=
  match value with
  | .str s => do
    reject (isDigestText s = false) s!"Local preview {label} is invalid"
    return s
  | _ => .error s!"Local preview {label} is invalid"

inductive LocalPreviewExecution
  | available (source : PreviewSourceIdentity)
  | unavailable (reason : JsString)

def previewSource (value : JsValue) : Except String PreviewSourceIdentity := do
  let source ← previewRecord value "local preview source"
  previewKeys source ["base", "manifestDigest", "repository", "sourceArchiveDigest"]
    "local preview source"
  let repository ← previewRecord (field source "repository") "local preview repository"
  previewKeys repository ["id", "ownerId", "slug"] "local preview repository"
  let given ← validateRepositorySlug (field repository "slug")
  let slug := asciiLower given
  let id ← positiveSafeInteger (field repository "id") "repository id"
  let ownerId ← positiveSafeInteger (field repository "ownerId") "repository owner id"
  let base ← previewRecord (field source "base") "local preview base"
  previewKeys base ["branch", "sha", "treeSha"] "local preview base"
  let branch ← validateRepositoryBranch (field base "branch")
  let sha ← gitOid (field base "sha") "base commit object id"
  let treeSha ← gitOid (field base "treeSha") "base tree object id"
  reject (sha.length ≠ treeSha.length) "Local preview base object ids use different formats"
  let manifestDigest ← previewDigest (field source "manifestDigest") "manifest digest"
  let sourceArchiveDigest ← previewDigest (field source "sourceArchiveDigest")
    "source archive digest"
  return {
    repository := { slug, id, ownerId }
    base := { branch, sha, treeSha }
    manifestDigest
    sourceArchiveDigest }

def unavailableReason (value : JsValue) : Except String LocalPreviewExecution :=
  if isText value "repository_identity_unavailable" then
    .ok (.unavailable (js "repository_identity_unavailable"))
  else if isText value "source_bundle_unavailable" then
    .ok (.unavailable (js "source_bundle_unavailable"))
  else .error "Local preview unavailable reason is unsupported"

def validateLocalPreviewExecution (value : JsValue) : Except String LocalPreviewExecution := do
  let execution ← previewRecord value "local preview execution"
  reject (isSchemaVersion (field execution "schemaVersion") = false)
    "Local preview schema version is unsupported"
  reject (isText (field execution "kind") "local-preview" = false)
    "Local preview kind is unsupported"
  match field execution "source" with
  | .null => do
    previewKeys execution ["kind", "schemaVersion", "source", "unavailableReason"]
      "local preview execution"
    unavailableReason (field execution "unavailableReason")
  | given => do
    previewKeys execution ["kind", "schemaVersion", "source"] "local preview execution"
    let source ← previewSource given
    return .available source

/-- The source of a local preview made of nothing else. -/
def canonicalSource (value : JsValue) : Except String PreviewSourceIdentity := do
  let preview ← validateLocalPreviewExecution (.obj [(js "schemaVersion", .num (.int 1)),
    (js "kind", .str (js "local-preview")), (js "source", value)])
  match preview with
  | .available source => return source
  | .unavailable _ => throw "source is missing"

/-- The source and the plan are about one repository, commit, manifest and archive. -/
def SourceMatchesPlan (source : PreviewSourceIdentity) (plan : PublicationRunnerPlan) : Prop :=
  source.repository = plan.subject.repository ∧ source.base.branch = plan.subject.branch ∧
    source.base.sha = plan.subject.sha ∧ source.manifestDigest = plan.inputs.manifestDigest ∧
    source.sourceArchiveDigest = plan.inputs.sourceArchiveDigest

instance (source : PreviewSourceIdentity) (plan : PublicationRunnerPlan) :
    Decidable (SourceMatchesPlan source plan) := inferInstanceAs (Decidable (_ ∧ _))

/-! ### Reviewed contexts -/

inductive RunnerEvidenceFailureCode
  | configurationInvalid
  | expectedContextInvalid
  | trustUnavailable
  | evidenceUnavailable
  | evidenceInvalid
  | identityChanged
  | expired
  deriving DecidableEq

structure RunnerEvidenceContext where
  campaignId : JsString
  runId : JsString
  plan : PublicationRunnerPlanRecord
  source : PreviewSourceIdentity
  reviewedOutput : PublicationRunnerOutput
  previewCompletedAt : ℕ
  deriving DecidableEq

/-- A context whose output and completion time have not been read. -/
def contextJson (campaignId runId : JsString) (plan : PublicationRunnerPlanRecord)
    (source : PreviewSourceIdentity) (reviewedOutput previewCompletedAt : JsValue) : JsValue :=
  .obj [(js "campaignId", .str campaignId), (js "plan", plan.toJson),
    (js "previewCompletedAt", previewCompletedAt), (js "reviewedOutput", reviewedOutput),
    (js "runId", .str runId), (js "source", source.toJson)]

def RunnerEvidenceContext.toJson (c : RunnerEvidenceContext) : JsValue :=
  contextJson c.campaignId c.runId c.plan c.source c.reviewedOutput.toJson
    (.num (.int c.previewCompletedAt))

@[simp]
theorem RunnerEvidenceContext.canonical_toJson (c : RunnerEvidenceContext) : Canonical c.toJson :=
  canonical_obj (by simp only [List.map_cons, List.map_nil]; decide) (by simp)

theorem RunnerEvidenceContext.toJson_injective {c c' : RunnerEvidenceContext}
    (h : c.toJson = c'.toJson) : c = c' := by
  cases c
  cases c'
  simp only [RunnerEvidenceContext.toJson, contextJson, JsValue.obj.injEq, JsValue.str.injEq,
    JsValue.num.injEq, JsNumber.int.injEq, Nat.cast_inj, List.cons.injEq, Prod.mk.injEq, true_and,
    and_true] at h
  obtain ⟨rfl, hplan, rfl, houtput, rfl, hsource⟩ := h
  rw [PublicationRunnerPlanRecord.toJson_injective hplan,
    PublicationRunnerOutput.toJson_injective houtput,
    PreviewSourceIdentity.toJson_injective hsource]

def contextKeys : List String :=
  ["campaignId", "plan", "previewCompletedAt", "reviewedOutput", "runId", "source"]

/-- A plan record is read by rebuilding its plan. -/
def planRecordOf (P : Platform) (value : JsValue) (label mismatch : String) :
    Except String PublicationRunnerPlanRecord := do
  let planRoot ← plainRecord value label
  expectedKeys planRoot ["canonicalJson", "digest", "plan"] label
  let plan ← validatePublicationRunnerPlan P (field planRoot "plan")
  match field planRoot "canonicalJson", field planRoot "digest" with
  | .str canonical, .str digest => do
    reject (canonical ≠ plan.canonicalJson ∨ digest ≠ plan.digest) mismatch
    return plan
  | _, _ => throw mismatch

/-- Without an observation time the context is historical. -/
def timelineValid (plan : PublicationRunnerPlan) (previewCompletedAt : ℕ) : Option ℕ → Bool
  | none => decide (plan.createdAt ≤ previewCompletedAt ∧ previewCompletedAt < plan.expiresAt)
  | some observedAt => decide (plan.createdAt ≤ previewCompletedAt ∧
      previewCompletedAt ≤ observedAt ∧ plan.createdAt ≤ observedAt)

def parseRunnerEvidenceContextStructure (P : Platform) (root : List Member)
    (observedAt : Option ℕ) : Except String RunnerEvidenceContext := do
  let campaignId ← contextIdentifier (field root "campaignId") "campaign id"
  let runId ← contextIdentifier (field root "runId") "run id"
  let plan ← planRecordOf P (field root "plan") "publication runner plan record"
    "Publication runner plan record does not match its canonical identity"
  let source ← canonicalSource (field root "source")
  let reviewedOutput ← validateRunnerOutput (field root "reviewedOutput")
  let previewCompletedAt ← timestamp (field root "previewCompletedAt") "preview completion"
  reject (timelineValid plan.plan previewCompletedAt observedAt = false)
    "Runner evidence context timeline is invalid"
  reject (¬ SourceMatchesPlan source plan.plan) "Runner evidence source does not match its plan"
  return { campaignId, runId, plan, source, reviewedOutput, previewCompletedAt }

/-- How long a review stands. -/
def reviewTtlMs : ℕ := 600000

def contextObservedAt (P : Platform) (value : JsValue) (now : JsNumber) :
    Except String (RunnerEvidenceContext × ℕ) := do
  let root ← detachedRecord value "runner evidence context"
  expectedKeys root contextKeys "runner evidence context"
  let observedAt ← timestamp (.num now) "runner evidence clock"
  let context ← parseRunnerEvidenceContextStructure P root (some observedAt)
  return (context, observedAt)

def validateRunnerEvidenceContext (P : Platform) (value : JsValue) (now : JsNumber) :
    Except RunnerEvidenceFailureCode RunnerEvidenceContext := do
  let (context, observedAt) ← rethrow (contextObservedAt P value now) .expectedContextInvalid
  reject (context.plan.plan.expiresAt ≤ observedAt ∨
    context.previewCompletedAt + reviewTtlMs ≤ observedAt) .expired
  let _ ← rethrow (assertPublicationRunnerPlanCurrent P context.plan (.num (.int observedAt)))
    .expectedContextInvalid
  return context

def validateRunnerEvidenceContextStructure (P : Platform) (value : JsValue) :
    Except RunnerEvidenceFailureCode RunnerEvidenceContext :=
  rethrow (do
    let root ← detachedRecord value "runner evidence context"
    expectedKeys root contextKeys "runner evidence context"
    parseRunnerEvidenceContextStructure P root none) .expectedContextInvalid

/-! ### Retained identities -/

structure RetainedRunnerEvidenceIdentity where
  contextDigest : JsString
  jobId : JsString
  planDigest : JsString
  attestationPayloadDigest : JsString
  attestationEnvelopeDigest : JsString
  signerKeyId : JsString
  signerFingerprint : JsString
  signerTrustDigest : JsString
  expiresAt : ℕ
  deriving DecidableEq

def RetainedRunnerEvidenceIdentity.toJson (i : RetainedRunnerEvidenceIdentity) : JsValue :=
  .obj [(js "attestationEnvelopeDigest", .str i.attestationEnvelopeDigest),
    (js "attestationPayloadDigest", .str i.attestationPayloadDigest),
    (js "contextDigest", .str i.contextDigest), (js "expiresAt", .num (.int i.expiresAt)),
    (js "jobId", .str i.jobId), (js "planDigest", .str i.planDigest),
    (js "schemaVersion", .num (.int 1)), (js "signerFingerprint", .str i.signerFingerprint),
    (js "signerKeyId", .str i.signerKeyId), (js "signerTrustDigest", .str i.signerTrustDigest)]

@[simp]
theorem RetainedRunnerEvidenceIdentity.canonical_toJson (i : RetainedRunnerEvidenceIdentity) :
    Canonical i.toJson :=
  canonical_obj (by simp only [List.map_cons, List.map_nil]; decide) (by simp)

theorem RetainedRunnerEvidenceIdentity.toJson_injective {i i' : RetainedRunnerEvidenceIdentity}
    (h : i.toJson = i'.toJson) : i = i' := by
  cases i
  cases i'
  simp only [RetainedRunnerEvidenceIdentity.toJson, JsValue.obj.injEq, JsValue.str.injEq,
    JsValue.num.injEq, JsNumber.int.injEq, Nat.cast_inj, List.cons.injEq, Prod.mk.injEq, true_and,
    and_true] at h
  obtain ⟨rfl, rfl, rfl, rfl, rfl, rfl, rfl, rfl, rfl⟩ := h
  rfl

def validateRetainedRunnerEvidenceIdentity (value : JsValue) :
    Except RunnerEvidenceFailureCode RetainedRunnerEvidenceIdentity :=
  rethrow (do
    let root ← detachedRecord value "retained runner evidence identity"
    expectedKeys root ["attestationEnvelopeDigest", "attestationPayloadDigest", "contextDigest",
      "expiresAt", "jobId", "planDigest", "schemaVersion", "signerFingerprint", "signerKeyId",
      "signerTrustDigest"] "retained runner evidence identity"
    reject (isSchemaVersion (field root "schemaVersion") = false)
      "Retained runner evidence schema is unsupported"
    let jobId ← string (field root "jobId") "runner evidence job id"
    let signerKeyId ← string (field root "signerKeyId") "runner evidence signer key id"
    reject (isJobId jobId = false ∨ isSignerIdentifier signerKeyId = false)
      "Retained runner evidence identifier is invalid"
    let contextDigest ← evidenceDigest (field root "contextDigest") "context digest"
    let planDigest ← evidenceDigest (field root "planDigest") "plan digest"
    let attestationPayloadDigest ← evidenceDigest (field root "attestationPayloadDigest")
      "attestation payload digest"
    let attestationEnvelopeDigest ← evidenceDigest (field root "attestationEnvelopeDigest")
      "attestation envelope digest"
    let signerFingerprint ← evidenceDigest (field root "signerFingerprint") "signer fingerprint"
    let signerTrustDigest ← evidenceDigest (field root "signerTrustDigest") "signer trust digest"
    let expiresAt ← timestamp (field root "expiresAt") "retained evidence expiry"
    return {
      contextDigest, jobId, planDigest, attestationPayloadDigest, attestationEnvelopeDigest,
      signerKeyId, signerFingerprint, signerTrustDigest, expiresAt }) .expectedContextInvalid

end ApiMigrator.App.RunnerEvidence
