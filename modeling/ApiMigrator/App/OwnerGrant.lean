import ApiMigrator.App.OwnerAuthorization

/-!
Envelopes and grants of `owner-authorization.ts`: the verification of an envelope, the state of the
grant it makes, and what every acceptance of an envelope or its grant shows about the payload, the
clock and the registry at that time.
-/

set_option autoImplicit false
set_option relaxedAutoImplicit false

namespace ApiMigrator.App.OwnerAuthorization

open Foundation.Text Foundation.Number Foundation.Json Foundation.Outcome Foundation.Pattern
open Foundation.GitNames Foundation.Binary Foundation.Base64
open CanonicalJson PublicationRunner

variable {PublicKey PrivateKey : Type}

/-! ### Consumptions and receipts -/

structure OwnerAuthorizationConsumption where
  authorizationId : JsString
  envelopeId : JsString
  envelopeDigest : JsString
  nonceDigest : JsString
  signerId : JsString
  keyId : JsString
  repositorySlug : JsString
  repositoryId : ℤ
  baseSha : JsString
  preflightId : JsString
  artifactDigest : JsString
  manifestDigest : JsString
  candidateBranch : JsString
  candidateTreeSha : JsString
  expiresAt : ℤ
  deriving DecidableEq

structure OwnerAuthorizationReceipt extends OwnerAuthorizationConsumption where
  consumedAt : ℤ
  deriving DecidableEq

def OwnerAuthorizationConsumption.json (c : OwnerAuthorizationConsumption) : JsValue :=
  .obj [
    (js "artifactDigest", .str c.artifactDigest),
    (js "authorizationId", .str c.authorizationId),
    (js "baseSha", .str c.baseSha),
    (js "candidateBranch", .str c.candidateBranch),
    (js "candidateTreeSha", .str c.candidateTreeSha),
    (js "envelopeDigest", .str c.envelopeDigest),
    (js "envelopeId", .str c.envelopeId),
    (js "expiresAt", integer c.expiresAt),
    (js "keyId", .str c.keyId),
    (js "manifestDigest", .str c.manifestDigest),
    (js "nonceDigest", .str c.nonceDigest),
    (js "preflightId", .str c.preflightId),
    (js "repositoryId", integer c.repositoryId),
    (js "repositorySlug", .str c.repositorySlug),
    (js "signerId", .str c.signerId)]

def normalizeDigest (value : JsValue) (label : String) : Except String JsString :=
  match value with
  | .str s =>
    validDigest rejected (.str (if startsWith s "sha256:" then s else js "sha256:" ++ s)) label
  | _ => .error (rejected s!"{label} is invalid")

def receiptKeys : List String :=
  ["authorizationId", "envelopeId", "envelopeDigest", "nonceDigest", "signerId", "keyId",
    "repositorySlug", "repositoryId", "baseSha", "preflightId", "artifactDigest",
    "manifestDigest", "candidateBranch", "candidateTreeSha", "expiresAt", "consumedAt"]

def validateReceipt (value : JsValue) : Except String OwnerAuthorizationReceipt := do
  let object ← asRecord rejected value "durable consumption receipt"
  assertExactKeys rejected object receiptKeys "durable consumption receipt"
  let slug ←
    validBoundedString rejected (field object "repositorySlug") "receipt repositorySlug" 140
  let _ ← validateRepositorySlug (.str slug)
  let preflightId ←
    validBoundedString rejected (field object "preflightId") "receipt preflightId" 67
  reject (isPreflightId preflightId = false) (rejected "invalid receipt preflightId")
  let candidateBranch ←
    validBoundedString rejected (field object "candidateBranch") "receipt candidateBranch" 240
  let _ ← validateRepositoryBranch (.str candidateBranch)
  let authorizationId ←
    validIdentifier rejected (field object "authorizationId") "receipt authorizationId"
  let envelopeId ← validIdentifier rejected (field object "envelopeId") "receipt envelopeId"
  let envelopeDigest ← normalizeDigest (field object "envelopeDigest") "receipt envelopeDigest"
  let nonceDigest ← normalizeDigest (field object "nonceDigest") "receipt nonceDigest"
  let signerId ← validIdentifier rejected (field object "signerId") "receipt signerId"
  let keyId ← validIdentifier rejected (field object "keyId") "receipt keyId"
  let repositoryId ←
    validPositiveInteger rejected (field object "repositoryId") "receipt repositoryId"
  let baseSha ← validGitSha rejected (field object "baseSha") "receipt baseSha"
  let artifactDigest ← normalizeDigest (field object "artifactDigest") "receipt artifactDigest"
  let manifestDigest ← normalizeDigest (field object "manifestDigest") "receipt manifestDigest"
  let candidateTreeSha ←
    validGitSha rejected (field object "candidateTreeSha") "receipt candidateTreeSha"
  let expiresAt ← validTimestamp rejected (field object "expiresAt") "receipt expiresAt"
  let consumedAt ← validTimestamp rejected (field object "consumedAt") "receipt consumedAt"
  return {
    authorizationId, envelopeId, envelopeDigest, nonceDigest, signerId, keyId,
    repositorySlug := asciiLower slug, repositoryId, baseSha, preflightId, artifactDigest,
    manifestDigest, candidateBranch, candidateTreeSha, expiresAt, consumedAt }

/-! ### Envelopes -/

structure Envelope where
  keyId : JsString
  payloadBytes : Bytes
  payload : OwnerAuthorizationPayload
  signatureBytes : Bytes

/-- `verifyOwnerAuthorizationEnvelope` up to the checks of the payload's time. -/
def openEnvelope (envelopeJson expectedChallengeDigest : JsString) : Except String Envelope := do
  let value ← parseCanonicalJson envelopeJson maxEnvelopeBytes "owner authorization envelope"
  let envelope ← asRecord rejected value "owner authorization envelope"
  assertExactKeys rejected envelope ["version", "keyId", "payload", "signature"] "envelope"
  reject (isInteger (field envelope "version") 1 = false) (rejected "unsupported envelope version")
  let keyId ← validIdentifier rejected (field envelope "keyId") "envelope keyId"
  let encodedPayload ←
    validBoundedString rejected (field envelope "payload") "payload" maxEnvelopeBytes
  let encodedSignature ← validBoundedString rejected (field envelope "signature") "signature" 256
  let payloadBytes ← decodeCanonicalBase64Url encodedPayload "payload"
  reject (payloadBytes.length = 0 ∨ maxPayloadBytes < payloadBytes.length)
    (rejected "payload exceeds the supported size")
  let payloadJson ← decodeUtf8Exactly payloadBytes "payload"
  let raw ← parseCanonicalJson payloadJson maxPayloadBytes "owner authorization payload"
  let payload ← validatePayload raw
  reject (payload.keyId ≠ keyId) (rejected "envelope keyId does not match payload keyId")
  reject (payload.challengeDigest ≠ expectedChallengeDigest)
    (rejected "signed payload does not bind the exact issued owner challenge")
  let signatureBytes ← decodeCanonicalBase64Url encodedSignature "signature"
  reject (signatureBytes.length ≠ 64) (rejected "Ed25519 signature must be exactly 64 bytes")
  return { keyId, payloadBytes, payload, signatureBytes }

/-! ### Grants -/

/-- What the module holds of a grant. A grant is consumed once it has its receipt. -/
structure GrantState where
  payload : OwnerAuthorizationPayload
  expected : ExpectedOwnerAuthorizationBindings
  registryPath : JsString
  keyFingerprint : JsString
  payloadBytes : Bytes
  signatureBytes : Bytes
  consumption : OwnerAuthorizationConsumption
  receipt : Option OwnerAuthorizationReceipt

structure VerifyOwnerAuthorizationInput where
  expected : JsValue
  expectedChallengeDigest : JsValue
  registryPath : Option JsString
  now : ℤ

structure AssertCurrentOwnerGrantInput where
  expected : JsValue
  registryPath : Option JsString
  now : ℤ

/-- The clock reads whole milliseconds. -/
def validClock (now : ℤ) (label : String) : Except String ℤ :=
  validTimestamp rejected (integer now) label

def signedBytes (payloadBytes : Bytes) : Bytes := ownerAuthorizationSignatureDomain ++ payloadBytes

def consumptionOf (crypto : Crypto PublicKey PrivateKey) (envelopeJson : JsString)
    (payload : OwnerAuthorizationPayload) : OwnerAuthorizationConsumption where
  authorizationId := payload.authorizationId
  envelopeId := payload.envelopeId
  envelopeDigest := crypto.digest (utf8Encode envelopeJson)
  nonceDigest := crypto.digest (base64Decode payload.nonce)
  signerId := payload.signerId
  keyId := payload.keyId
  repositorySlug := payload.repository.slug
  repositoryId := payload.repository.id
  baseSha := payload.base.sha
  preflightId := payload.preview.preflightId
  artifactDigest := payload.preview.artifactDigest
  manifestDigest := payload.manifest.digest
  candidateBranch := payload.preview.candidateBranch
  candidateTreeSha := payload.preview.candidateTreeSha
  expiresAt := payload.expiresAt

def verifyOwnerAuthorizationEnvelope (crypto : Crypto PublicKey PrivateKey) (host : Host)
    (envelopeJson : JsString) (input : VerifyOwnerAuthorizationInput) :
    Except String GrantState := do
  let now ← validClock input.now "verification clock"
  let expected ← validateExpectedBindings input.expected
  let expectedChallengeDigest ←
    validDigest rejected input.expectedChallengeDigest "expected challengeDigest"
  let envelope ← openEnvelope envelopeJson expectedChallengeDigest
  assertPayloadTimes envelope.payload now
  assertExpectedBindings envelope.payload expected
  let registryPath ← resolveRegistryPath host input.registryPath
  let registryKey ← readAndSelectRegistryKey crypto host registryPath envelope.payload now
  reject (crypto.verify registryKey.publicKey (signedBytes envelope.payloadBytes)
    envelope.signatureBytes = false) (rejected "Ed25519 signature verification failed")
  return {
    payload := envelope.payload
    expected
    registryPath := registryKey.canonicalPath
    keyFingerprint := registryKey.entry.fingerprint
    payloadBytes := envelope.payloadBytes
    signatureBytes := envelope.signatureBytes
    consumption := consumptionOf crypto envelopeJson envelope.payload
    receipt := none }

def assertRegistryStillAuthorizes (crypto : Crypto PublicKey PrivateKey) (host : Host)
    (state : GrantState) (registryPath : JsString) (now : ℤ) : Except String Unit := do
  let registryKey ← readAndSelectRegistryKey crypto host registryPath state.payload now
  reject (registryKey.canonicalPath ≠ state.registryPath) (rejected "owner key registry changed")
  reject (registryKey.entry.fingerprint ≠ state.keyFingerprint)
    (rejected "owner signing key changed")
  reject (crypto.verify registryKey.publicKey (signedBytes state.payloadBytes)
    state.signatureBytes = false) (rejected "owner signature is no longer valid")

def activeGrantState (state : GrantState) : Except String Unit :=
  reject (state.receipt ≠ none) (rejected "owner authorization grant has already been consumed")

/-- The registry of the verification, when no other is asked for. -/
def requestedPath (host : Host) (state : GrantState) : Option JsString → Except String JsString
  | none => .ok state.registryPath
  | some path => resolveRegistryPath host (some path)

/-- What both checks of a current grant do after they looked at its status. -/
def assertGrantCurrent (crypto : Crypto PublicKey PrivateKey) (host : Host) (state : GrantState)
    (input : AssertCurrentOwnerGrantInput) : Except String Unit := do
  let now ← validClock input.now "verification clock"
  let expected ← validateExpectedBindings input.expected
  assertExpectedBindings state.payload expected
  assertPayloadTimes state.payload now
  let path ← requestedPath host state input.registryPath
  assertRegistryStillAuthorizes crypto host state path now

def assertCurrentOwnerGrant (crypto : Crypto PublicKey PrivateKey) (host : Host)
    (state : GrantState) (input : AssertCurrentOwnerGrantInput) : Except String Unit := do
  activeGrantState state
  assertGrantCurrent crypto host state input

/-- `now` is what the clock reads after the consumption. -/
def markGrantConsumed (crypto : Crypto PublicKey PrivateKey) (host : Host) (state : GrantState)
    (receipt : JsValue) (now : ℤ) : Except String GrantState := do
  activeGrantState state
  let normalized ← validateReceipt receipt
  let actual ← canonicalJson normalized.toOwnerAuthorizationConsumption.json
  let expected ← canonicalJson state.consumption.json
  reject (actual ≠ expected)
    (rejected "durable consumption receipt does not match the verified grant")
  reject (normalized.consumedAt < state.payload.notBefore ∨
    normalized.consumedAt < state.payload.issuedAt ∨
    state.payload.expiresAt ≤ normalized.consumedAt)
    (rejected "durable consumption receipt is outside the authorization window")
  let postConsumptionNow ← validClock now "post-consumption clock"
  assertPayloadTimes state.payload postConsumptionNow
  assertRegistryStillAuthorizes crypto host state state.registryPath postConsumptionNow
  return { state with receipt := some normalized }

def assertConsumedOwnerGrant (state : GrantState) : Except String OwnerAuthorizationReceipt :=
  orThrow state.receipt (rejected "owner authorization grant has not been durably consumed")

def assertCurrentConsumedOwnerGrant (crypto : Crypto PublicKey PrivateKey) (host : Host)
    (state : GrantState) (input : AssertCurrentOwnerGrantInput) :
    Except String OwnerAuthorizationReceipt := do
  let receipt ← assertConsumedOwnerGrant state
  assertGrantCurrent crypto host state input
  return receipt

/-! ### What an acceptance shows -/

theorem validClock_eq_ok {now i : ℤ} {label : String} (h : validClock now label = .ok i) :
    i = now :=
  validTimestamp_integer h

/-- The window of a payload, and the clock in it. -/
structure InWindow (payload : OwnerAuthorizationPayload) (now : ℤ) : Prop where
  preview : payload.previewCompletedAt ≤ payload.issuedAt
  issued : payload.issuedAt ≤ payload.notBefore
  started : payload.notBefore ≤ now
  live : now < payload.expiresAt
  lifetime : payload.expiresAt ≤ payload.issuedAt + ownerAuthorizationMaxTtlMs
  underlying : payload.expiresAt ≤ payload.authorizationExpiresAt

theorem assertPayloadTimes_eq_ok {payload : OwnerAuthorizationPayload} {now : ℤ} {u : Unit}
    (h : assertPayloadTimes payload now = .ok u) : InWindow payload now := by
  simp only [assertPayloadTimes, bind_eq_ok, reject_eq_ok, exists_unit, not_lt, not_le, not_or]
    at h
  obtain ⟨hpreview, hissued, -, ⟨-, hlifetime⟩, hunderlying, hstarted, ⟨hlive, -⟩, -, -⟩ := h
  exact ⟨hpreview, hissued, hstarted, hlive, by omega, hunderlying⟩

theorem assertExpectedBindings_eq_ok {payload : OwnerAuthorizationPayload}
    {expected : ExpectedOwnerAuthorizationBindings} {u : Unit}
    (h : assertExpectedBindings payload expected = .ok u) : expectedBindings payload = expected := by
  simp only [assertExpectedBindings, bind_eq_ok, reject_eq_ok, not_not] at h
  obtain ⟨signed, hsigned, text, htext, rfl⟩ := h
  exact bindings_json_injective
    (eq_of_canonicalJson_eq (canonical_bindings _) (canonical_bindings _) hsigned htext)

/-- The registry, as it reads now, holds an unrevoked key of the payload that outlives it, and does
not revoke the authorization. -/
structure Registered (crypto : Crypto PublicKey PrivateKey) (host : Host)
    (payload : OwnerAuthorizationPayload) (now : ℤ) (entry : OwnerAuthorizationRegistryKey) :
    Prop where
  read : ∃ path canonicalPath registry,
    readRegistry crypto host path = .ok (canonicalPath, registry) ∧ entry ∈ registry.keys ∧
      payload.authorizationId ∉ registry.revokedAuthorizationIds
  keyId : entry.keyId = payload.keyId
  signerId : entry.signerId = payload.signerId
  unrevoked : entry.revokedAt = none
  started : entry.validFrom ≤ now ∧ entry.validFrom ≤ payload.issuedAt
  live : now < entry.validUntil
  outlives : payload.expiresAt ≤ entry.validUntil

theorem readAndSelectRegistryKey_eq_ok {crypto : Crypto PublicKey PrivateKey} {host : Host}
    {path : JsString} {payload : OwnerAuthorizationPayload} {now : ℤ}
    {key : VerifiedRegistryKey PublicKey}
    (h : readAndSelectRegistryKey crypto host path payload now = .ok key) :
    Registered crypto host payload now key.entry := by
  simp only [readAndSelectRegistryKey, bind_eq_ok, reject_eq_ok, exists_unit, orThrow_eq_ok,
    pure_eq_ok, not_or, not_lt, not_le, not_not] at h
  obtain ⟨⟨canonicalPath, registry⟩, hread, hunrevoked, entry, hfind, hsigner, _, -, _, -, -,
    hkey, ⟨hfrom, hissued⟩, ⟨hlive, houtlives⟩, publicKey, -, rfl⟩ := h
  have hid := List.find?_some hfind
  rw [decide_eq_true_eq] at hid
  exact {
    read := ⟨path, canonicalPath, registry, hread, List.mem_of_find?_eq_some hfind, hunrevoked⟩
    keyId := hid
    signerId := hsigner
    unrevoked := hkey
    started := ⟨hfrom, hissued⟩
    live := hlive
    outlives := houtlives }

theorem assertRegistryStillAuthorizes_eq_ok {crypto : Crypto PublicKey PrivateKey} {host : Host}
    {state : GrantState} {path : JsString} {now : ℤ} {u : Unit}
    (h : assertRegistryStillAuthorizes crypto host state path now = .ok u) :
    ∃ entry, Registered crypto host state.payload now entry := by
  simp only [assertRegistryStillAuthorizes, bind_eq_ok] at h
  obtain ⟨key, hkey, -⟩ := h
  exact ⟨key.entry, readAndSelectRegistryKey_eq_ok hkey⟩

/-- The payload is within its window, and the registry authorizes it. -/
def Authorized (crypto : Crypto PublicKey PrivateKey) (host : Host)
    (payload : OwnerAuthorizationPayload) (now : ℤ) : Prop :=
  InWindow payload now ∧ ∃ entry, Registered crypto host payload now entry

theorem verifyOwnerAuthorizationEnvelope_eq_ok {crypto : Crypto PublicKey PrivateKey}
    {host : Host} {envelopeJson : JsString} {input : VerifyOwnerAuthorizationInput}
    {state : GrantState}
    (h : verifyOwnerAuthorizationEnvelope crypto host envelopeJson input = .ok state) :
    ∃ digest envelope, openEnvelope envelopeJson digest = .ok envelope ∧
      input.expectedChallengeDigest = .str digest ∧ state.payload = envelope.payload ∧
      validateExpectedBindings input.expected = .ok state.expected ∧
      expectedBindings state.payload = state.expected ∧
      Authorized crypto host state.payload input.now := by
  simp only [verifyOwnerAuthorizationEnvelope, bind_eq_ok, reject_eq_ok, exists_unit, pure_eq_ok]
    at h
  obtain ⟨now, hnow, expected, hexpected, digest, hdigest, envelope, hopen, htimes, hbindings,
    path, -, key, hkey, -, rfl⟩ := h
  obtain rfl := validClock_eq_ok hnow
  refine ⟨digest, envelope, hopen, ?_, rfl, hexpected, assertExpectedBindings_eq_ok hbindings,
    assertPayloadTimes_eq_ok htimes, key.entry, readAndSelectRegistryKey_eq_ok hkey⟩
  unfold validDigest at hdigest
  split at hdigest
  · rename_i s heq
    simp only [bind_eq_ok, reject_eq_ok, exists_unit, pure_eq_ok] at hdigest
    rw [heq, hdigest.2]
  · cases hdigest

theorem markGrantConsumed_eq_ok {crypto : Crypto PublicKey PrivateKey} {host : Host}
    {state state' : GrantState} {receipt : JsValue} {now : ℤ}
    (h : markGrantConsumed crypto host state receipt now = .ok state') :
    state'.payload = state.payload ∧ state'.expected = state.expected ∧
      Authorized crypto host state.payload now := by
  simp only [markGrantConsumed, bind_eq_ok, reject_eq_ok, exists_unit, pure_eq_ok] at h
  obtain ⟨-, normalized, -, _, -, _, -, -, -, clock, hclock, htimes, hregistry, rfl⟩ := h
  obtain rfl := validClock_eq_ok hclock
  exact ⟨rfl, rfl, assertPayloadTimes_eq_ok htimes, assertRegistryStillAuthorizes_eq_ok hregistry⟩

/-! ### Payloads read back -/

theorem canonical_payload (p : OwnerAuthorizationPayload) : Canonical p.json := by
  refine canonical_obj ?_ (by simp)
  change (["allowedActions", "approvalEvidenceDigest", "audience", "authorizationExpiresAt",
    "authorizationId", "base", "challengeDigest", "engine", "envelopeId", "expiresAt", "github",
    "issuedAt", "keyId", "manifest", "nonce", "notBefore", "pilotId", "preRunAuthorizationDigest",
    "preview", "previewCompletedAt", "pullRequestNumber", "repository", "signerId",
    "version"].map js).Pairwise (· < ·)
  decide

theorem validateRepository_json {r r' : Repository} (h : validateRepository r.json = .ok r') :
    r' = r := by
  simp only [validateRepository, bind_eq_ok, reject_eq_ok, exists_unit, pure_eq_ok] at h
  obtain ⟨_, hrecord, -, slug, hslug, _, -, -, id, hid, ownerId, howner, rfl⟩ := h
  cases hrecord
  obtain rfl : slug = r.slug := validBoundedString_str hslug
  obtain rfl : id = r.id := validPositiveInteger_integer hid
  obtain rfl : ownerId = r.ownerId := validPositiveInteger_integer howner
  rfl

theorem validateGitHub_json {g g' : GitHub} (h : validateGitHub g.json = .ok g') : g' = g := by
  simp only [validateGitHub, bind_eq_ok, pure_eq_ok] at h
  obtain ⟨_, hrecord, _, -, appId, happ, installationId, hinstallation, rfl⟩ := h
  cases hrecord
  obtain rfl : appId = g.appId := validPositiveInteger_integer happ
  obtain rfl : installationId = g.installationId := validPositiveInteger_integer hinstallation
  rfl

theorem validateBase_json {b b' : Base} (h : validateBase b.json = .ok b') : b' = b := by
  simp only [validateBase, bind_eq_ok, pure_eq_ok] at h
  obtain ⟨_, hrecord, _, -, branch, hbranch, _, -, sha, hsha, rfl⟩ := h
  cases hrecord
  obtain rfl : branch = b.branch := validBoundedString_str hbranch
  obtain rfl : sha = b.sha := validGitSha_str hsha
  rfl

theorem validateEngine_json {e e' : Engine} (h : validateEngine e.json = .ok e') : e' = e := by
  simp only [validateEngine, bind_eq_ok, pure_eq_ok] at h
  obtain ⟨_, hrecord, _, -, tag, htag, _, -, commit, hcommit, rfl⟩ := h
  cases hrecord
  obtain rfl : tag = e.tag := validBoundedString_str htag
  obtain rfl : commit = e.commit := validGitSha_str hcommit
  rfl

theorem validateManifest_json {m m' : Manifest} (h : validateManifest m.json = .ok m') :
    m' = m := by
  simp only [validateManifest, bind_eq_ok, pure_eq_ok] at h
  obtain ⟨_, hrecord, _, -, byteLength, hbytes, digest, hdigest, rfl⟩ := h
  cases hrecord
  obtain rfl : byteLength = m.byteLength := validPositiveInteger_integer hbytes
  obtain rfl : digest = m.digest := validDigest_str hdigest
  rfl

theorem validatePreview_json {p p' : Preview} (h : validatePreview p.json = .ok p') : p' = p := by
  simp only [validatePreview, bind_eq_ok, reject_eq_ok, exists_unit, pure_eq_ok] at h
  obtain ⟨_, hrecord, -, candidateBranch, hbranch, _, -, preflightId, hpreflight, -,
    artifactDigest, hartifact, candidateTreeSha, htree, findingsDigest, hfindings,
    resolutionsDigest, hresolutions, commandScopeDigest, hscope, runnerAttestationDigest,
    hattestation, rulesetDigest, hruleset, requiredCiDigest, hci, rfl⟩ := h
  cases hrecord
  obtain rfl : candidateBranch = p.candidateBranch := validBoundedString_str hbranch
  obtain rfl : preflightId = p.preflightId := validBoundedString_str hpreflight
  obtain rfl : artifactDigest = p.artifactDigest := validDigest_str hartifact
  obtain rfl : candidateTreeSha = p.candidateTreeSha := validGitSha_str htree
  obtain rfl : findingsDigest = p.findingsDigest := validDigest_str hfindings
  obtain rfl : resolutionsDigest = p.resolutionsDigest := validDigest_str hresolutions
  obtain rfl : commandScopeDigest = p.commandScopeDigest := validDigest_str hscope
  obtain rfl : runnerAttestationDigest = p.runnerAttestationDigest := validDigest_str hattestation
  obtain rfl : rulesetDigest = p.rulesetDigest := validDigest_str hruleset
  obtain rfl : requiredCiDigest = p.requiredCiDigest := validDigest_str hci
  rfl

theorem validateAllowedActions_json {actions actions' : List JsString}
    (h : validateAllowedActions (actionsJson actions) = .ok actions') : actions' = actions := by
  simp only [validateAllowedActions, actionsJson, bind_eq_ok, reject_eq_ok, exists_unit,
    pure_eq_ok, mapEach_eq_ok] at h
  obtain ⟨-, found, hactions, -, rfl⟩ := h
  induction actions generalizing found with
  | nil =>
    cases hactions
    rfl
  | cons action actions ih =>
    cases hactions with
    | cons haction hactions =>
      simp only [validAction, bind_eq_ok, reject_eq_ok, exists_unit, pure_eq_ok] at haction
      rw [ih _ hactions, haction.2]

/-- A payload is read back from its JSON value as it was. -/
theorem validatePayload_json {p p' : OwnerAuthorizationPayload}
    (h : validatePayload p.json = .ok p') : p' = p := by
  simp only [validatePayload, bind_eq_ok, reject_eq_ok, exists_unit, pure_eq_ok] at h
  obtain ⟨_, hrecord, -, -, -, nonce, hnonce, _, -, -, envelopeId, henvelope, authorizationId,
    hauthorization, pilotId, hpilot, signerId, hsigner, keyId, hkey, evidence, hevidence, preRun,
    hpreRun, challenge, hchallenge, completedAt, hcompleted, issuedAt, hissued, notBefore,
    hnotBefore, expiresAt, hexpires, underlying, hunderlying, repository, hrepository, github,
    hgithub, base, hbase, engine, hengine, manifest, hmanifest, preview, hpreview, actions,
    hactions, number, hnumber, rfl⟩ := h
  cases hrecord
  obtain rfl : nonce = p.nonce := validBoundedString_str hnonce
  obtain rfl : envelopeId = p.envelopeId := validIdentifier_str henvelope
  obtain rfl : authorizationId = p.authorizationId := validIdentifier_str hauthorization
  obtain rfl : pilotId = p.pilotId := validIdentifier_str hpilot
  obtain rfl : signerId = p.signerId := validIdentifier_str hsigner
  obtain rfl : keyId = p.keyId := validIdentifier_str hkey
  obtain rfl : evidence = p.approvalEvidenceDigest := validDigest_str hevidence
  obtain rfl : preRun = p.preRunAuthorizationDigest := validDigest_str hpreRun
  obtain rfl : challenge = p.challengeDigest := validDigest_str hchallenge
  obtain rfl : completedAt = p.previewCompletedAt := validTimestamp_integer hcompleted
  obtain rfl : issuedAt = p.issuedAt := validTimestamp_integer hissued
  obtain rfl : notBefore = p.notBefore := validTimestamp_integer hnotBefore
  obtain rfl : expiresAt = p.expiresAt := validTimestamp_integer hexpires
  obtain rfl : underlying = p.authorizationExpiresAt := validTimestamp_integer hunderlying
  obtain rfl : repository = p.repository := validateRepository_json hrepository
  obtain rfl : github = p.github := validateGitHub_json hgithub
  obtain rfl : base = p.base := validateBase_json hbase
  obtain rfl : engine = p.engine := validateEngine_json hengine
  obtain rfl : manifest = p.manifest := validateManifest_json hmanifest
  obtain rfl : preview = p.preview := validatePreview_json hpreview
  obtain rfl : actions = p.allowedActions := validateAllowedActions_json hactions
  obtain rfl : number = p.pullRequestNumber := validPullRequestNumber_json hnumber
  rfl

end ApiMigrator.App.OwnerAuthorization
