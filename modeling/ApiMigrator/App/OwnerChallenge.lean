import ApiMigrator.App.OwnerAuthorization

/-!
`owner-challenge.ts`: the challenge that asks an owner for the approval of one blocker-free preview,
parsed again from its canonical text when it is signed.
-/

set_option autoImplicit false
set_option relaxedAutoImplicit false

namespace ApiMigrator.App.OwnerChallenge

open Foundation.Text Foundation.Number Foundation.Json Foundation.Outcome Foundation.Pattern
open CanonicalJson PublicationRunner OwnerAuthorization

variable {PublicKey PrivateKey : Type}

def rejected (message : String) : String := s!"Owner challenge rejected: {message}"

def ownerAuthorizationChallengeKind : JsString := js "owner_publication_challenge"

def ownerAuthorizationChallengeMaxAgeMs : ℤ := 600000

def ownerAuthorizationChallengeMaxTtlMs : ℤ := ownerAuthorizationMaxTtlMs

def maxChallengeBytes : ℕ := 65536

structure OwnerAuthorizationChallenge where
  createdAt : ℤ
  expiresAt : ℤ
  bindings : ExpectedOwnerAuthorizationBindings
  challengeDigest : JsString
  deriving DecidableEq

/-- The members of a challenge before its digest. -/
def bodyJson (createdAt expiresAt : ℤ) (bindings : ExpectedOwnerAuthorizationBindings) : JsValue :=
  .obj [
    (js "audience", .str ownerAuthorizationAudience),
    (js "bindings", bindings.json),
    (js "blockers", .arr []),
    (js "createdAt", integer createdAt),
    (js "expiresAt", integer expiresAt),
    (js "kind", .str ownerAuthorizationChallengeKind),
    (js "version", integer 1)]

/-! ### Bindings -/

def validAction (value : JsValue) : Except String JsString :=
  match value with
  | .str action => .ok action
  | _ => .error (rejected "allowedActions contains a malformed action")

def validateActions (value : JsValue) : Except String (List JsString) :=
  match value with
  | .arr values => do
    let actions ← mapEach validAction values
    reject (actions ∉ permittedActions)
      (rejected "allowedActions is not an exact canonical publication state")
    return actions
  | _ => .error (rejected "allowedActions must be an array")

/-- The records of the bindings are opened, and some of their fields checked, before the others. -/
def validateBindings (crypto : Crypto PublicKey PrivateKey) (value : JsValue) :
    Except String ExpectedOwnerAuthorizationBindings := do
  let object ← asRecord rejected value "bindings"
  assertExactKeys rejected object bindingKeys "bindings"
  let repository ← asRecord rejected (field object "repository") "bindings.repository"
  assertExactKeys rejected repository ["slug", "id", "ownerId"] "bindings.repository"
  let slug ← validBoundedString rejected (field repository "slug") "repository slug" 140
  let _ ← validateRepositorySlug (.str slug)
  reject (slug ≠ asciiLower slug)
    (rejected "repository slug must be lowercase canonical owner/repo")
  let github ← asRecord rejected (field object "github") "bindings.github"
  assertExactKeys rejected github ["appId", "installationId"] "bindings.github"
  let base ← asRecord rejected (field object "base") "bindings.base"
  assertExactKeys rejected base ["branch", "sha"] "bindings.base"
  let baseBranch ← validBoundedString rejected (field base "branch") "base branch" 240
  let _ ← validateRepositoryBranch (.str baseBranch)
  let engine ← asRecord rejected (field object "engine") "bindings.engine"
  assertExactKeys rejected engine ["tag", "commit"] "bindings.engine"
  let engineTag ← validBoundedString rejected (field engine "tag") "engine tag" 128
  reject (isInvalidTag engineTag = true) (rejected "invalid engine tag")
  let manifest ← asRecord rejected (field object "manifest") "bindings.manifest"
  assertExactKeys rejected manifest ["byteLength", "digest"] "bindings.manifest"
  let preview ← asRecord rejected (field object "preview") "bindings.preview"
  assertExactKeys rejected preview previewKeys "bindings.preview"
  let preflightId ← validBoundedString rejected (field preview "preflightId") "preflightId" 67
  reject (isPreflightId preflightId = false) (rejected "invalid preflightId")
  let candidateBranch ←
    validBoundedString rejected (field preview "candidateBranch") "candidate branch" 240
  let _ ← validateRepositoryBranch (.str candidateBranch)
  reject (candidateBranch = baseBranch)
    (rejected "candidate branch must differ from the base branch")
  let findingsDigest ← validDigest rejected (field preview "findingsDigest") "findings digest"
  let resolutionsDigest ←
    validDigest rejected (field preview "resolutionsDigest") "resolutions digest"
  let emptySetDigest ← canonicalSha256 crypto (.arr [])
  reject (findingsDigest ≠ emptySetDigest ∨ resolutionsDigest ≠ emptySetDigest)
    (rejected "owner challenges require canonical empty findings and resolutions")
  let allowedActions ← validateActions (field object "allowedActions")
  let pullRequestNumber ← validPullRequestNumber rejected (field object "pullRequestNumber")
  reject (createPullRequest ∈ allowedActions ∧ pullRequestNumber ≠ none)
    (rejected "new pull-request action cannot bind an existing pull request")
  reject (allowedActions.head? = some updatePullRequest ∧ pullRequestNumber = none)
    (rejected "pull-request update action must bind its exact pull request number")
  let pilotId ← validIdentifier rejected (field object "pilotId") "pilotId"
  let approvalEvidenceDigest ←
    validDigest rejected (field object "approvalEvidenceDigest") "approval evidence digest"
  let preRunAuthorizationDigest ← validDigest rejected (field object "preRunAuthorizationDigest")
    "pre-run authorization digest"
  let previewCompletedAt ←
    validTimestamp rejected (field object "previewCompletedAt") "previewCompletedAt"
  let authorizationExpiresAt ←
    validTimestamp rejected (field object "authorizationExpiresAt") "authorizationExpiresAt"
  let id ← validPositiveInteger rejected (field repository "id") "repository id"
  let ownerId ← validPositiveInteger rejected (field repository "ownerId") "repository owner id"
  let appId ← validPositiveInteger rejected (field github "appId") "GitHub App id"
  let installationId ←
    validPositiveInteger rejected (field github "installationId") "GitHub installation id"
  let sha ← validGitSha rejected (field base "sha") "base sha"
  let commit ← validGitSha rejected (field engine "commit") "engine commit"
  let byteLength ←
    validPositiveInteger rejected (field manifest "byteLength") "manifest byteLength"
  let digest ← validDigest rejected (field manifest "digest") "manifest digest"
  let artifactDigest ← validDigest rejected (field preview "artifactDigest") "artifact digest"
  let candidateTreeSha ←
    validGitSha rejected (field preview "candidateTreeSha") "candidate tree sha"
  let commandScopeDigest ←
    validDigest rejected (field preview "commandScopeDigest") "command scope digest"
  let runnerAttestationDigest ←
    validDigest rejected (field preview "runnerAttestationDigest") "runner attestation digest"
  let rulesetDigest ← validDigest rejected (field preview "rulesetDigest") "ruleset digest"
  let requiredCiDigest ←
    validDigest rejected (field preview "requiredCiDigest") "required CI digest"
  return {
    pilotId, approvalEvidenceDigest, preRunAuthorizationDigest, previewCompletedAt,
    authorizationExpiresAt
    repository := { slug, id, ownerId }
    github := { appId, installationId }
    base := { branch := baseBranch, sha }
    engine := { tag := engineTag, commit }
    manifest := { byteLength, digest }
    preview := {
      preflightId, artifactDigest, candidateBranch, candidateTreeSha, findingsDigest,
      resolutionsDigest, commandScopeDigest, runnerAttestationDigest, rulesetDigest,
      requiredCiDigest }
    allowedActions, pullRequestNumber }

def assertPreviewFresh (bindings : ExpectedOwnerAuthorizationBindings) (clock : ℤ) :
    Except String Unit := do
  reject (clock < bindings.previewCompletedAt) (rejected "preview completion is in the future")
  reject (ownerAuthorizationChallengeMaxAgeMs < clock - bindings.previewCompletedAt)
    (rejected "preview is stale; run a new preview")
  reject (bindings.authorizationExpiresAt ≤ bindings.previewCompletedAt)
    (rejected "preview falls outside the underlying owner authorization")

/-! ### Challenges -/

def validDuration (value : JsValue) (label : String) (max : ℤ) : Except String ℤ := do
  let duration ← validPositiveInteger rejected value label
  reject (max < duration) (rejected s!"{label} exceeds the supported maximum")
  return duration

def OwnerAuthorizationChallenge.json (challenge : OwnerAuthorizationChallenge) : JsValue :=
  .obj [
    (js "audience", .str ownerAuthorizationAudience),
    (js "bindings", challenge.bindings.json),
    (js "blockers", .arr []),
    (js "challengeDigest", .str challenge.challengeDigest),
    (js "createdAt", integer challenge.createdAt),
    (js "expiresAt", integer challenge.expiresAt),
    (js "kind", .str ownerAuthorizationChallengeKind),
    (js "version", integer 1)]

/-- A challenge with its text. -/
structure OwnerAuthorizationChallengeArtifact where
  challengeJson : JsString
  challenge : OwnerAuthorizationChallenge
  deriving DecidableEq

structure CreateOwnerAuthorizationChallengeInput where
  bindings : JsValue
  blockers : JsValue
  now : ℤ
  ttlMs : Option JsValue

/-- The list of blockers, complete and empty. -/
def assertNoBlockers (blockers : JsValue) : Except String Unit :=
  match blockers with
  | .arr values =>
    reject (values ≠ []) (rejected "blocked previews cannot produce an owner challenge")
  | _ => .error (rejected "complete preview blockers are required")

def createOwnerAuthorizationChallenge (crypto : Crypto PublicKey PrivateKey)
    (input : CreateOwnerAuthorizationChallengeInput) :
    Except String OwnerAuthorizationChallengeArtifact := do
  assertNoBlockers input.blockers
  let now ← validTimestamp rejected (integer input.now) "challenge clock"
  let bindings ← validateBindings crypto input.bindings
  assertPreviewFresh bindings now
  reject (bindings.authorizationExpiresAt ≤ now)
    (rejected "underlying owner authorization has expired")
  let ttlMs ← validDuration (input.ttlMs.getD (integer ownerAuthorizationChallengeMaxTtlMs))
    "challenge TTL" ownerAuthorizationChallengeMaxTtlMs
  let expiresAt := min (now + ttlMs) bindings.authorizationExpiresAt
  reject (expiresAt ≤ now) (rejected "challenge authorization window is empty")
  let challengeDigest ← canonicalSha256 crypto (bodyJson now expiresAt bindings)
  let challenge : OwnerAuthorizationChallenge :=
    { createdAt := now, expiresAt, bindings, challengeDigest }
  let challengeJson ← canonicalJson challenge.json
  return { challengeJson, challenge }

def parseChallengeJson (text : JsString) : Except String (List Member) := do
  let failure := rejected "challenge must contain exact canonical JSON within the supported size"
  let value ← relabel
    (CanonicalJson.parseCanonicalJson (.text text) (.int maxChallengeBytes) "owner challenge")
    failure
  relabel (asRecord rejected value "challenge") failure

def challengeKeys : List String :=
  ["version", "kind", "audience", "createdAt", "expiresAt", "blockers", "bindings",
    "challengeDigest"]

def parseOwnerAuthorizationChallenge (crypto : Crypto PublicKey PrivateKey)
    (challengeJson : JsString) (now : ℤ) : Except String OwnerAuthorizationChallenge := do
  let clock ← validTimestamp rejected (integer now) "challenge clock"
  let raw ← parseChallengeJson challengeJson
  assertExactKeys rejected raw challengeKeys "challenge"
  reject (isInteger (field raw "version") 1 = false) (rejected "unsupported challenge version")
  reject (isString (field raw "kind") ownerAuthorizationChallengeKind = false)
    (rejected "invalid challenge kind")
  reject (isString (field raw "audience") ownerAuthorizationAudience = false)
    (rejected "invalid challenge audience")
  reject (¬ (field raw "blockers" matches .arr [])) (rejected "blocked previews cannot be signed")
  let createdAt ← validTimestamp rejected (field raw "createdAt") "challenge createdAt"
  let expiresAt ← validTimestamp rejected (field raw "expiresAt") "challenge expiresAt"
  reject (clock < createdAt) (rejected "challenge was created in the future")
  reject (expiresAt ≤ createdAt ∨ ownerAuthorizationChallengeMaxTtlMs < expiresAt - createdAt)
    (rejected "challenge validity window is invalid")
  reject (expiresAt ≤ clock) (rejected "challenge has expired")
  let bindings ← validateBindings crypto (field raw "bindings")
  assertPreviewFresh bindings createdAt
  reject (bindings.authorizationExpiresAt < expiresAt)
    (rejected "challenge outlives the underlying owner authorization")
  let challengeDigest ← validDigest rejected (field raw "challengeDigest") "challenge digest"
  let actual ← canonicalSha256 crypto (bodyJson createdAt expiresAt bindings)
  reject (actual ≠ challengeDigest) (rejected "challenge digest does not match")
  return { createdAt, expiresAt, bindings, challengeDigest }

/-- The window of a challenge that parsed, and the clock in it. -/
structure Current (challenge : OwnerAuthorizationChallenge) (now : ℤ) : Prop where
  created : challenge.createdAt ≤ now
  live : now < challenge.expiresAt
  lifetime : challenge.expiresAt ≤ challenge.createdAt + ownerAuthorizationChallengeMaxTtlMs
  preview : challenge.bindings.previewCompletedAt ≤ challenge.createdAt
  fresh : challenge.createdAt - challenge.bindings.previewCompletedAt ≤
    ownerAuthorizationChallengeMaxAgeMs
  underlying : challenge.expiresAt ≤ challenge.bindings.authorizationExpiresAt

theorem parseOwnerAuthorizationChallenge_eq_ok {crypto : Crypto PublicKey PrivateKey}
    {challengeJson : JsString} {now : ℤ} {challenge : OwnerAuthorizationChallenge}
    (h : parseOwnerAuthorizationChallenge crypto challengeJson now = .ok challenge) :
    Current challenge now := by
  simp only [parseOwnerAuthorizationChallenge, assertPreviewFresh, bind_eq_ok, reject_eq_ok,
    exists_unit, pure_eq_ok, not_or, not_lt, not_le] at h
  obtain ⟨clock, hclock, raw, -, -, -, -, -, -, createdAt, -, expiresAt, -, hcreated,
    ⟨-, hlifetime⟩, hlive, bindings, -, ⟨hpreview, hfresh, -⟩, hunderlying, digest, -, _, -, -,
    rfl⟩ := h
  obtain rfl := validTimestamp_integer hclock
  exact ⟨hcreated, hlive, by dsimp only; omega, hpreview, hfresh, hunderlying⟩

end ApiMigrator.App.OwnerChallenge
