import ApiMigrator.App.OwnerBindings

/-!
`owner-authorization.ts`: an owner's signed envelope is verified against the bindings the runtime
observed, the challenge that was issued and the owner's key registry as it reads at that time. The
grant this makes is checked again before it is consumed, when its consumption is recorded, and
after it.
-/

set_option autoImplicit false
set_option relaxedAutoImplicit false

namespace ApiMigrator.App.OwnerAuthorization

open Foundation.Text Foundation.Number Foundation.Json Foundation.Outcome Foundation.Pattern
open Foundation.GitNames Foundation.Binary Foundation.Base64
open CanonicalJson PublicationRunner

def rejected (message : String) : String := s!"Owner authorization rejected: {message}"

def ownerAuthorizationAudience : JsString := js "api-migrator:owner-publication:v1"

/-- The audience and a NUL. -/
def ownerAuthorizationSignatureDomain : Bytes := utf8Encode ownerAuthorizationAudience ++ [0]

def ownerAuthorizationMaxTtlMs : ℤ := 1800000

def maxEnvelopeBytes : ℕ := 65536

def maxPayloadBytes : ℕ := 32768

def maxRegistryBytes : ℕ := 262144

def maxPublicKeyBytes : ℕ := 16384

/-- What `node:crypto` does with keys. A key that does not parse or cannot be exported is none. -/
structure Crypto (PublicKey PrivateKey : Type) where
  sha256 : HashFunction 32
  createPublicKey : JsString → Option PublicKey
  publicPem : PublicKey → JsString
  publicDer : PublicKey → Bytes
  publicType : PublicKey → JsString
  verify : PublicKey → Bytes → Bytes → Bool
  createPrivateKey : JsString → Option PrivateKey
  privatePem : PrivateKey → JsString
  privateType : PrivateKey → JsString
  publicOf : PrivateKey → PublicKey
  sign : PrivateKey → Bytes → Bytes

variable {PublicKey PrivateKey : Type}

def Crypto.digest (crypto : Crypto PublicKey PrivateKey) (bytes : Bytes) : JsString :=
  js "sha256:" ++ crypto.sha256.hex bytes

def canonicalSha256 (crypto : Crypto PublicKey PrivateKey) (value : JsValue) :
    Except String JsString := do
  let text ← canonicalJson value
  return crypto.digest (utf8Encode text)

/-! ### The payload -/

structure OwnerAuthorizationPayload extends ExpectedOwnerAuthorizationBindings where
  envelopeId : JsString
  authorizationId : JsString
  signerId : JsString
  keyId : JsString
  challengeDigest : JsString
  issuedAt : ℤ
  notBefore : ℤ
  expiresAt : ℤ
  nonce : JsString
  deriving DecidableEq

def expectedBindings (payload : OwnerAuthorizationPayload) : ExpectedOwnerAuthorizationBindings :=
  payload.toExpectedOwnerAuthorizationBindings

def OwnerAuthorizationPayload.json (p : OwnerAuthorizationPayload) : JsValue :=
  .obj [
    (js "allowedActions", actionsJson p.allowedActions),
    (js "approvalEvidenceDigest", .str p.approvalEvidenceDigest),
    (js "audience", .str ownerAuthorizationAudience),
    (js "authorizationExpiresAt", integer p.authorizationExpiresAt),
    (js "authorizationId", .str p.authorizationId),
    (js "base", p.base.json),
    (js "challengeDigest", .str p.challengeDigest),
    (js "engine", p.engine.json),
    (js "envelopeId", .str p.envelopeId),
    (js "expiresAt", integer p.expiresAt),
    (js "github", p.github.json),
    (js "issuedAt", integer p.issuedAt),
    (js "keyId", .str p.keyId),
    (js "manifest", p.manifest.json),
    (js "nonce", .str p.nonce),
    (js "notBefore", integer p.notBefore),
    (js "pilotId", .str p.pilotId),
    (js "preRunAuthorizationDigest", .str p.preRunAuthorizationDigest),
    (js "preview", p.preview.json),
    (js "previewCompletedAt", integer p.previewCompletedAt),
    (js "pullRequestNumber", pullRequestJson p.pullRequestNumber),
    (js "repository", p.repository.json),
    (js "signerId", .str p.signerId),
    (js "version", integer 1)]

/-! ### Parsing and decoding -/

/-- The refusal of the canonical parser under the module's own name. -/
def reworded (message : String) : String :=
  rejected (String.ofList (message.toList.drop "Canonical JSON rejected: ".length))

def parseCanonicalJson (text : JsString) (maxBytes : ℕ) (label : String) :
    Except String JsValue :=
  (CanonicalJson.parseCanonicalJson (.text text) (.int maxBytes) label).mapError reworded

def decodeCanonicalBase64Url (value : JsString) (label : String) : Except String Bytes := do
  reject (value = [] ∨ value.all (isAlphanumericOr "-_") = false ∨ includes value "=" = true ∨
    value.length % 4 = 1) (rejected s!"{label} is not unpadded base64url")
  let decoded := base64Decode value
  reject (base64url decoded ≠ value) (rejected s!"{label} is not canonical base64url")
  return decoded

def decodeUtf8Exactly (value : Bytes) (label : String) : Except String JsString := do
  let decoded := utf8Decode value
  reject (utf8Encode decoded ≠ value) (rejected s!"{label} is not valid UTF-8")
  rejectUnpaired "unpaired high surrogate" "unpaired low surrogate" decoded
  return decoded

def field (ms : List Member) (key : String) : JsValue := getMember ms (js key)

def isString (value : JsValue) (s : JsString) : Bool :=
  match value with
  | .str t => decide (t = s)
  | _ => false

def isInteger (value : JsValue) (i : ℤ) : Bool :=
  match value with
  | .num n => decide (n = .int i)
  | _ => false

/-! ### Validation -/

def validateRepository (value : JsValue) : Except String Repository := do
  let object ← asRecord rejected value "repository"
  assertExactKeys rejected object ["slug", "id", "ownerId"] "repository"
  let slug ← validBoundedString rejected (field object "slug") "repository slug" 140
  let _ ← validateRepositorySlug (.str slug)
  reject (slug ≠ asciiLower slug)
    (rejected "repository slug must be lowercase canonical owner/repo")
  let id ← validPositiveInteger rejected (field object "id") "repository id"
  let ownerId ← validPositiveInteger rejected (field object "ownerId") "repository owner id"
  return { slug, id, ownerId }

def validateGitHub (value : JsValue) : Except String GitHub := do
  let object ← asRecord rejected value "github"
  assertExactKeys rejected object ["appId", "installationId"] "github"
  let appId ← validPositiveInteger rejected (field object "appId") "GitHub App id"
  let installationId ←
    validPositiveInteger rejected (field object "installationId") "GitHub installation id"
  return { appId, installationId }

def validateBase (value : JsValue) : Except String Base := do
  let object ← asRecord rejected value "base"
  assertExactKeys rejected object ["branch", "sha"] "base"
  let branch ← validBoundedString rejected (field object "branch") "base branch" 240
  let _ ← validateRepositoryBranch (.str branch)
  let sha ← validGitSha rejected (field object "sha") "base sha"
  return { branch, sha }

def validateEngine (value : JsValue) : Except String Engine := do
  let object ← asRecord rejected value "engine"
  assertExactKeys rejected object ["tag", "commit"] "engine"
  let tag ← validBoundedString rejected (field object "tag") "engine tag" 128
  reject (isInvalidTag tag = true) (rejected "invalid engine tag")
  let commit ← validGitSha rejected (field object "commit") "engine commit"
  return { tag, commit }

def validateManifest (value : JsValue) : Except String Manifest := do
  let object ← asRecord rejected value "manifest"
  assertExactKeys rejected object ["byteLength", "digest"] "manifest"
  let byteLength ←
    validPositiveInteger rejected (field object "byteLength") "manifest byteLength"
  let digest ← validDigest rejected (field object "digest") "manifest digest"
  return { byteLength, digest }

def previewKeys : List String :=
  ["preflightId", "artifactDigest", "candidateBranch", "candidateTreeSha", "findingsDigest",
    "resolutionsDigest", "commandScopeDigest", "runnerAttestationDigest", "rulesetDigest",
    "requiredCiDigest"]

def validatePreview (value : JsValue) : Except String Preview := do
  let object ← asRecord rejected value "preview"
  assertExactKeys rejected object previewKeys "preview"
  let candidateBranch ←
    validBoundedString rejected (field object "candidateBranch") "candidate branch" 240
  let _ ← validateRepositoryBranch (.str candidateBranch)
  let preflightId ← validBoundedString rejected (field object "preflightId") "preflightId" 67
  reject (isPreflightId preflightId = false) (rejected "invalid preflightId")
  let artifactDigest ← validDigest rejected (field object "artifactDigest") "artifact digest"
  let candidateTreeSha ← validGitSha rejected (field object "candidateTreeSha") "candidate tree sha"
  let findingsDigest ← validDigest rejected (field object "findingsDigest") "findings digest"
  let resolutionsDigest ←
    validDigest rejected (field object "resolutionsDigest") "resolutions digest"
  let commandScopeDigest ←
    validDigest rejected (field object "commandScopeDigest") "command scope digest"
  let runnerAttestationDigest ←
    validDigest rejected (field object "runnerAttestationDigest") "runner attestation digest"
  let rulesetDigest ← validDigest rejected (field object "rulesetDigest") "ruleset digest"
  let requiredCiDigest ← validDigest rejected (field object "requiredCiDigest") "required CI digest"
  return {
    preflightId, artifactDigest, candidateBranch, candidateTreeSha, findingsDigest,
    resolutionsDigest, commandScopeDigest, runnerAttestationDigest, rulesetDigest,
    requiredCiDigest }

def createBranch : JsString := js "create_branch"

def createPullRequest : JsString := js "create_pull_request"

def updatePullRequest : JsString := js "update_pull_request"

/-- The action lists whose joined text is permitted. -/
def permittedActions : List (List JsString) :=
  [[createBranch, createPullRequest], [createPullRequest], [updatePullRequest]]

def validAction (value : JsValue) : Except String JsString :=
  match value with
  | .str action => do
    reject (action ∉ [createBranch, createPullRequest, updatePullRequest])
      (rejected "allowedActions contains an unsupported action")
    return action
  | _ => .error (rejected "allowedActions contains an unsupported action")

def validateAllowedActions (value : JsValue) : Except String (List JsString) :=
  match value with
  | .arr values => do
    reject (values.length < 1 ∨ 2 < values.length)
      (rejected "allowedActions must contain the exact bounded publication actions")
    let actions ← mapEach validAction values
    reject (actions ∉ permittedActions)
      (rejected "allowedActions is not an exact canonical publication state")
    return actions
  | _ => .error (rejected "allowedActions must contain the exact bounded publication actions")

def bindingKeys : List String :=
  ["pilotId", "approvalEvidenceDigest", "preRunAuthorizationDigest", "previewCompletedAt",
    "authorizationExpiresAt", "repository", "github", "base", "engine", "manifest", "preview",
    "allowedActions", "pullRequestNumber"]

def validateExpectedBindings (value : JsValue) :
    Except String ExpectedOwnerAuthorizationBindings := do
  let object ← asRecord rejected value "expected bindings"
  assertExactKeys rejected object bindingKeys "expected bindings"
  let pilotId ← validIdentifier rejected (field object "pilotId") "expected pilotId"
  let approvalEvidenceDigest ← validDigest rejected (field object "approvalEvidenceDigest")
    "expected approvalEvidenceDigest"
  let preRunAuthorizationDigest ← validDigest rejected (field object "preRunAuthorizationDigest")
    "expected preRunAuthorizationDigest"
  let previewCompletedAt ←
    validTimestamp rejected (field object "previewCompletedAt") "expected previewCompletedAt"
  let authorizationExpiresAt ← validTimestamp rejected (field object "authorizationExpiresAt")
    "expected authorizationExpiresAt"
  let repository ← validateRepository (field object "repository")
  let github ← validateGitHub (field object "github")
  let base ← validateBase (field object "base")
  let engine ← validateEngine (field object "engine")
  let manifest ← validateManifest (field object "manifest")
  let preview ← validatePreview (field object "preview")
  let allowedActions ← validateAllowedActions (field object "allowedActions")
  let pullRequestNumber ← validPullRequestNumber rejected (field object "pullRequestNumber")
  return {
    pilotId, approvalEvidenceDigest, preRunAuthorizationDigest, previewCompletedAt,
    authorizationExpiresAt, repository, github, base, engine, manifest, preview, allowedActions,
    pullRequestNumber }

def payloadKeys : List String :=
  ["version", "audience", "envelopeId", "authorizationId", "pilotId", "signerId", "keyId",
    "approvalEvidenceDigest", "preRunAuthorizationDigest", "challengeDigest",
    "previewCompletedAt", "issuedAt", "notBefore", "expiresAt", "authorizationExpiresAt", "nonce",
    "repository", "github", "base", "engine", "manifest", "preview", "allowedActions",
    "pullRequestNumber"]

def validatePayload (value : JsValue) : Except String OwnerAuthorizationPayload := do
  let object ← asRecord rejected value "payload"
  assertExactKeys rejected object payloadKeys "payload"
  reject (isInteger (field object "version") 1 = false) (rejected "unsupported payload version")
  reject (isString (field object "audience") ownerAuthorizationAudience = false)
    (rejected "invalid payload audience")
  let nonce ← validBoundedString rejected (field object "nonce") "nonce" 64
  let nonceBytes ← decodeCanonicalBase64Url nonce "nonce"
  reject (nonceBytes.length ≠ 32) (rejected "nonce must contain exactly 32 bytes")
  let envelopeId ← validIdentifier rejected (field object "envelopeId") "envelopeId"
  let authorizationId ← validIdentifier rejected (field object "authorizationId") "authorizationId"
  let pilotId ← validIdentifier rejected (field object "pilotId") "pilotId"
  let signerId ← validIdentifier rejected (field object "signerId") "signerId"
  let keyId ← validIdentifier rejected (field object "keyId") "keyId"
  let approvalEvidenceDigest ←
    validDigest rejected (field object "approvalEvidenceDigest") "approvalEvidenceDigest"
  let preRunAuthorizationDigest ←
    validDigest rejected (field object "preRunAuthorizationDigest") "preRunAuthorizationDigest"
  let challengeDigest ← validDigest rejected (field object "challengeDigest") "challengeDigest"
  let previewCompletedAt ←
    validTimestamp rejected (field object "previewCompletedAt") "previewCompletedAt"
  let issuedAt ← validTimestamp rejected (field object "issuedAt") "issuedAt"
  let notBefore ← validTimestamp rejected (field object "notBefore") "notBefore"
  let expiresAt ← validTimestamp rejected (field object "expiresAt") "expiresAt"
  let authorizationExpiresAt ←
    validTimestamp rejected (field object "authorizationExpiresAt") "authorizationExpiresAt"
  let repository ← validateRepository (field object "repository")
  let github ← validateGitHub (field object "github")
  let base ← validateBase (field object "base")
  let engine ← validateEngine (field object "engine")
  let manifest ← validateManifest (field object "manifest")
  let preview ← validatePreview (field object "preview")
  let allowedActions ← validateAllowedActions (field object "allowedActions")
  let pullRequestNumber ← validPullRequestNumber rejected (field object "pullRequestNumber")
  return {
    envelopeId, authorizationId, pilotId, signerId, keyId, approvalEvidenceDigest,
    preRunAuthorizationDigest, challengeDigest, previewCompletedAt, issuedAt, notBefore, expiresAt,
    authorizationExpiresAt, nonce, repository, github, base, engine, manifest, preview,
    allowedActions, pullRequestNumber }

/-! ### Checks of a payload -/

def assertExpectedBindings (payload : OwnerAuthorizationPayload)
    (expected : ExpectedOwnerAuthorizationBindings) : Except String Unit := do
  let signed ← canonicalJson (expectedBindings payload).json
  let text ← canonicalJson expected.json
  reject (signed ≠ text) (rejected "signed payload does not match the exact runtime bindings")

def assertPayloadTimes (payload : OwnerAuthorizationPayload) (now : ℤ) : Except String Unit := do
  reject (payload.issuedAt < payload.previewCompletedAt)
    (rejected "previewCompletedAt must not be after issuedAt")
  reject (payload.notBefore < payload.issuedAt)
    (rejected "issuedAt must not be after notBefore")
  reject (payload.expiresAt ≤ payload.notBefore) (rejected "authorization window is empty")
  reject (payload.expiresAt ≤ payload.issuedAt ∨
    ownerAuthorizationMaxTtlMs < payload.expiresAt - payload.issuedAt)
    (rejected "owner envelope lifetime must be at most 30 minutes")
  reject (payload.authorizationExpiresAt < payload.expiresAt)
    (rejected "envelope outlives the underlying owner authorization")
  reject (now < payload.notBefore) (rejected "owner authorization is not yet valid")
  reject (payload.expiresAt ≤ now ∨ payload.authorizationExpiresAt ≤ now)
    (rejected "owner authorization has expired")
  let creates := decide (createPullRequest ∈ payload.allowedActions)
  reject (creates = true ∧ payload.pullRequestNumber ≠ none)
    (rejected "new pull-request authorization cannot bind an existing pull request")
  reject (creates = false ∧ payload.pullRequestNumber = none)
    (rejected "pull-request update authorization must bind its exact pull request number")

/-! ### The key registry -/

structure OwnerAuthorizationRegistryKey where
  keyId : JsString
  signerId : JsString
  publicKeyPem : JsString
  fingerprint : JsString
  repository : Repository
  validFrom : ℤ
  validUntil : ℤ
  revokedAt : Option ℤ
  deriving DecidableEq

structure OwnerAuthorizationKeyRegistry where
  keys : List OwnerAuthorizationRegistryKey
  revokedAuthorizationIds : List JsString

def validRevokedAt (value : JsValue) (validFrom validUntil : ℤ) : Except String (Option ℤ) :=
  match value with
  | .null => .ok none
  | value => do
    let revokedAt ← validTimestamp rejected value "key revokedAt"
    reject (revokedAt < validFrom ∨ validUntil < revokedAt)
      (rejected "owner key revocation is outside key validity")
    return some revokedAt

def registryKeyKeys : List String :=
  ["keyId", "signerId", "algorithm", "publicKeyPem", "fingerprint", "repository", "validFrom",
    "validUntil", "revokedAt"]

def validateRegistryKey (value : JsValue) : Except String OwnerAuthorizationRegistryKey := do
  let object ← asRecord rejected value "owner key registry entry"
  assertExactKeys rejected object registryKeyKeys "owner key registry entry"
  reject (isString (field object "algorithm") (js "Ed25519") = false)
    (rejected "owner key algorithm must be Ed25519")
  let validFrom ← validTimestamp rejected (field object "validFrom") "key validFrom"
  let validUntil ← validTimestamp rejected (field object "validUntil") "key validUntil"
  reject (validUntil ≤ validFrom) (rejected "owner key validity window is empty")
  let revokedAt ← validRevokedAt (field object "revokedAt") validFrom validUntil
  let keyId ← validIdentifier rejected (field object "keyId") "registry keyId"
  let signerId ← validIdentifier rejected (field object "signerId") "registry signerId"
  let publicKeyPem ← validBoundedString rejected (field object "publicKeyPem")
    "registry publicKeyPem" maxPublicKeyBytes
  let fingerprint ← validDigest rejected (field object "fingerprint") "registry fingerprint"
  let repository ← validateRepository (field object "repository")
  return {
    keyId, signerId, publicKeyPem, fingerprint, repository, validFrom, validUntil, revokedAt }

def parseRegistryPublicKey (crypto : Crypto PublicKey PrivateKey)
    (entry : OwnerAuthorizationRegistryKey) : Except String PublicKey := do
  let key ← orThrow (crypto.createPublicKey entry.publicKeyPem)
    (rejected "owner key registry publicKeyPem must be canonical SPKI PUBLIC KEY PEM")
  reject (entry.publicKeyPem ≠ crypto.publicPem key)
    (rejected "owner key registry publicKeyPem must be canonical SPKI PUBLIC KEY PEM")
  reject (crypto.publicType key ≠ js "ed25519")
    (rejected "owner key registry public key is not Ed25519")
  reject (crypto.digest (crypto.publicDer key) ≠ entry.fingerprint)
    (rejected "owner key fingerprint does not match SPKI DER")
  return key

def scopeJson (entry : OwnerAuthorizationRegistryKey) : JsValue :=
  .obj [(js "repository", entry.repository.json), (js "signerId", .str entry.signerId)]

/-- The loop of `validateRegistry` over the keys, with the sets it fills. -/
def assertDistinctKeys (crypto : Crypto PublicKey PrivateKey)
    (keyIds fingerprints scopes : List JsString) :
    List OwnerAuthorizationRegistryKey → Except String Unit
  | [] => .ok ()
  | key :: keys => do
    let _ ← parseRegistryPublicKey crypto key
    let scope ← canonicalJson (scopeJson key)
    reject (key.keyId ∈ keyIds ∨ key.fingerprint ∈ fingerprints)
      (rejected "owner key registry contains a duplicate key")
    reject (scope ∈ scopes) (rejected "owner key registry contains a duplicate signer scope")
    assertDistinctKeys crypto (key.keyId :: keyIds) (key.fingerprint :: fingerprints)
      (scope :: scopes) keys

/-- An array of some length. -/
def boundedArray (value : JsValue) (low high : ℕ) (message : String) :
    Except String (List JsValue) :=
  match value with
  | .arr values => do
    reject (values.length < low ∨ high < values.length) (rejected message)
    return values
  | _ => .error (rejected message)

def validateRegistry (crypto : Crypto PublicKey PrivateKey) (value : JsValue) :
    Except String OwnerAuthorizationKeyRegistry := do
  let object ← asRecord rejected value "owner key registry"
  assertExactKeys rejected object ["version", "keys", "revokedAuthorizationIds"]
    "owner key registry"
  reject (isInteger (field object "version") 1 = false)
    (rejected "unsupported owner key registry version")
  let entries ← boundedArray (field object "keys") 1 128
    "owner key registry keys are missing or excessive"
  let revoked ← boundedArray (field object "revokedAuthorizationIds") 0 10000
    "owner key registry revocation list is invalid or excessive"
  let keys ← mapEach validateRegistryKey entries
  assertDistinctKeys crypto [] [] [] keys
  let revokedAuthorizationIds ←
    mapEach (fun value ↦ validIdentifier rejected value "revoked authorization id") revoked
  reject (¬ revokedAuthorizationIds.Nodup)
    (rejected "owner key registry contains duplicate revoked authorization ids")
  return { keys, revokedAuthorizationIds }

/-- A file that was read, with its real path. -/
structure OwnerFile where
  canonicalPath : JsString
  contents : JsString

/-- The process at the time of a call: what reading an owner-only file finds, the path set for the
registry, and the resolution of paths. -/
structure Host where
  readOwnerOnlyFile : JsString → Except String OwnerFile
  registryPath : Option JsString
  resolve : JsString → JsString

def resolveRegistryPath (host : Host) (value : Option JsString) : Except String JsString := do
  let path ← orThrow (value <|> host.registryPath) (rejected "owner key registry path is required")
  reject (path = [] ∨ 4096 < byteLength path) (rejected "owner key registry path is required")
  reject (startsWith path "/" = false) (rejected "owner key registry path must be absolute")
  return host.resolve path

/-- The registry as it reads now, with the real path of its file. -/
def readRegistry (crypto : Crypto PublicKey PrivateKey) (host : Host) (path : JsString) :
    Except String (JsString × OwnerAuthorizationKeyRegistry) := do
  let file ← host.readOwnerOnlyFile path
  let value ← parseCanonicalJson file.contents maxRegistryBytes "owner key registry"
  let registry ← validateRegistry crypto value
  return (file.canonicalPath, registry)

structure VerifiedRegistryKey (PublicKey : Type) where
  entry : OwnerAuthorizationRegistryKey
  publicKey : PublicKey
  canonicalPath : JsString

def readAndSelectRegistryKey (crypto : Crypto PublicKey PrivateKey) (host : Host)
    (path : JsString) (payload : OwnerAuthorizationPayload) (now : ℤ) :
    Except String (VerifiedRegistryKey PublicKey) := do
  let (canonicalPath, registry) ← readRegistry crypto host path
  reject (payload.authorizationId ∈ registry.revokedAuthorizationIds)
    (rejected "owner authorization has been revoked")
  let entry ← orThrow (registry.keys.find? fun candidate ↦ decide (candidate.keyId = payload.keyId))
    (rejected "owner signing key is not registered")
  reject (entry.signerId ≠ payload.signerId) (rejected "owner signer scope does not match")
  let registered ← canonicalJson entry.repository.json
  let signed ← canonicalJson payload.repository.json
  reject (registered ≠ signed) (rejected "owner repository scope does not match")
  reject (entry.revokedAt ≠ none) (rejected "owner signing key is revoked")
  reject (now < entry.validFrom ∨ payload.issuedAt < entry.validFrom)
    (rejected "owner signing key is not yet valid")
  reject (entry.validUntil ≤ now ∨ entry.validUntil < payload.expiresAt)
    (rejected "owner signing key has expired")
  let publicKey ← parseRegistryPublicKey crypto entry
  return { entry, publicKey, canonicalPath }

end ApiMigrator.App.OwnerAuthorization
