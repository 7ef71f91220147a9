import ApiMigrator.App.OwnerSigner
import ApiMigrator.App.OwnerLedgerProjection

/-!
What an owner's signature approves: whatever later accepts the envelope does so for the bindings of
the challenge they reviewed, within its window and the envelope's, under a registry that still
authorizes the key.
-/

set_option autoImplicit false
set_option relaxedAutoImplicit false

namespace ApiMigrator.App.OwnerSigner

open Foundation.Text Foundation.Number Foundation.Json Foundation.Outcome Foundation.Pattern
open Foundation.Binary Foundation.Base64
open CanonicalJson PublicationRunner OwnerAuthorization OwnerChallenge

variable {PublicKey PrivateKey : Type}

/-! ### From the challenge to every acceptance -/

/-- The grants of an envelope: as its verification made them, or consumed since. -/
inductive GrantOf (crypto : Crypto PublicKey PrivateKey) (envelopeJson : JsString) :
    GrantState → Prop
  | verified {host : Host} {input : VerifyOwnerAuthorizationInput} {state : GrantState}
    (h : verifyOwnerAuthorizationEnvelope crypto host envelopeJson input = .ok state) :
    GrantOf crypto envelopeJson state
  | consumed {host : Host} {state state' : GrantState} {receipt : JsValue} {now : ℤ}
    (hstate : GrantOf crypto envelopeJson state)
    (h : markGrantConsumed crypto host state receipt now = .ok state') :
    GrantOf crypto envelopeJson state'

/-- The envelope, or a grant of it, is accepted at a time by a host: for which bindings, under which
challenge digest. -/
inductive Accepts (crypto : Crypto PublicKey PrivateKey) (envelopeJson : JsString) (host : Host) :
    ℤ → GrantState → ExpectedOwnerAuthorizationBindings → JsValue → Prop
  | verified {input : VerifyOwnerAuthorizationInput} {state : GrantState}
    {expected : ExpectedOwnerAuthorizationBindings}
    (h : verifyOwnerAuthorizationEnvelope crypto host envelopeJson input = .ok state)
    (hexpected : validateExpectedBindings input.expected = .ok expected) :
    Accepts crypto envelopeJson host input.now state expected input.expectedChallengeDigest
  | current {input : AssertCurrentOwnerGrantInput} {state : GrantState}
    {expected : ExpectedOwnerAuthorizationBindings} (hstate : GrantOf crypto envelopeJson state)
    (h : assertCurrentOwnerGrant crypto host state input = .ok ())
    (hexpected : validateExpectedBindings input.expected = .ok expected) :
    Accepts crypto envelopeJson host input.now state expected (.str state.payload.challengeDigest)
  | consumed {state state' : GrantState} {receipt : JsValue} {now : ℤ}
    (hstate : GrantOf crypto envelopeJson state)
    (h : markGrantConsumed crypto host state receipt now = .ok state') :
    Accepts crypto envelopeJson host now state' state'.expected
      (.str state'.payload.challengeDigest)
  | currentConsumed {input : AssertCurrentOwnerGrantInput} {state : GrantState}
    {expected : ExpectedOwnerAuthorizationBindings} {receipt : OwnerAuthorizationReceipt}
    (hstate : GrantOf crypto envelopeJson state)
    (h : assertCurrentConsumedOwnerGrant crypto host state input = .ok receipt)
    (hexpected : validateExpectedBindings input.expected = .ok expected) :
    Accepts crypto envelopeJson host input.now state expected (.str state.payload.challengeDigest)

/-- A grant of an envelope carries the payload the envelope opens to, and expects its bindings. -/
theorem GrantOf.opened {crypto : Crypto PublicKey PrivateKey} {envelopeJson : JsString}
    {state : GrantState} (h : GrantOf crypto envelopeJson state) :
    expectedBindings state.payload = state.expected ∧ ∃ digest envelope,
      openEnvelope envelopeJson digest = .ok envelope ∧ state.payload = envelope.payload := by
  induction h with
  | verified h =>
    obtain ⟨digest, envelope, hopen, -, hpayload, -, hbindings, -⟩ :=
      verifyOwnerAuthorizationEnvelope_eq_ok h
    exact ⟨hbindings, digest, envelope, hopen, hpayload⟩
  | consumed _ h ih =>
    obtain ⟨hpayload, hexpected, -⟩ := markGrantConsumed_eq_ok h
    rw [hpayload, hexpected]
    exact ih

/-- What a signing that issued an envelope made it from. -/
structure Signs (crypto : Crypto PublicKey PrivateKey) (signer : Signer)
    (input : SignOwnerAuthorizationChallengeFileInput) (issue : Issue)
    (challenge : OwnerAuthorizationChallenge) (payload : OwnerAuthorizationPayload) : Prop where
  parsed : ∃ file, signer.readOwnerOnlyExternalFile input.challengePath maxChallengeBytes
      "owner challenge" = .ok file ∧
    parseOwnerAuthorizationChallenge crypto file.contents input.now = .ok challenge
  approved : input.approveChallengeDigest = challenge.challengeDigest
  issuedAt : payload.issuedAt = input.now
  bindings : expectedBindings payload = challenge.bindings
  digest : payload.challengeDigest = challenge.challengeDigest
  expires : payload.expiresAt ≤ challenge.expiresAt
  envelope : ∃ payloadJson signature, canonicalJson payload.json = .ok payloadJson ∧
    canonicalJson (envelopeValue payload.keyId (utf8Encode payloadJson) signature) =
      .ok issue.envelopeJson

theorem positiveSafeInteger_integer {i j : ℤ} {label : String}
    (h : positiveSafeInteger (integer i) label = .ok j) : j = i := by
  simp only [positiveSafeInteger, integer, bind_eq_ok, orThrow_eq_ok, reject_eq_ok, exists_unit,
    pure_eq_ok, safeInteger] at h
  obtain ⟨_, hsafe, -, rfl⟩ := h
  split_ifs at hsafe
  exact (Option.some.inj hsafe).symm

theorem bounded_base64url {bytes : Bytes} {maxBytes : ℕ} (hne : bytes ≠ [])
    (hsize : 4 * bytes.length + 2 ≤ 3 * maxBytes) : Bounded maxBytes (base64url bytes) := by
  have hascii : ∀ c ∈ base64url bytes, c.toNat < 0x80 :=
    fun c hc ↦ (base64url_ascii bytes c hc).1
  refine ⟨fun hnil ↦ ?_, ?_, isWellFormed_of_ascii hascii⟩
  · have hdecode := base64Decode_base64url bytes
    rw [List.length_eq_zero_iff.mp hnil] at hdecode
    exact hne hdecode.symm
  · have hlength := (length_base64url bytes).2
    rw [byteLength_of_ascii hascii]
    omega

/-- The envelope of a valid payload opens. -/
theorem openEnvelope_of_signed {payload : OwnerAuthorizationPayload}
    {payloadJson envelopeJson : JsString} {signature : Bytes}
    (hkey : validIdentifier OwnerAuthorization.rejected (.str payload.keyId) "envelope keyId" =
      .ok payload.keyId)
    (hvalid : validatePayload payload.json = .ok payload)
    (hpayload : canonicalJson payload.json = .ok payloadJson)
    (hsize : 0 < byteLength payloadJson ∧ byteLength payloadJson ≤ maxPayloadBytes)
    (henvelope : canonicalJson (envelopeValue payload.keyId (utf8Encode payloadJson) signature) =
      .ok envelopeJson)
    (henvelopeSize : byteLength envelopeJson ≤ maxEnvelopeBytes)
    (hsignature : signature.length = 64) :
    openEnvelope envelopeJson payload.challengeDigest = .ok {
      keyId := payload.keyId
      payloadBytes := utf8Encode payloadJson
      payload
      signatureBytes := signature } := by
  obtain ⟨hpos, hle⟩ := hsize
  have hne : utf8Encode payloadJson ≠ [] := List.ne_nil_of_length_pos hpos
  have hsignatureNe : signature ≠ [] := List.ne_nil_of_length_pos (by omega)
  obtain ⟨hjson, htext⟩ := (canonicalJson_of_canonical (canonical_payload payload)).mp hpayload
  have hwell : isWellFormed payloadJson = true := htext ▸ isWellFormed_compactText hjson
  have hvalue : OwnerAuthorization.parseCanonicalJson envelopeJson maxEnvelopeBytes
      "owner authorization envelope" =
        .ok (envelopeValue payload.keyId (utf8Encode payloadJson) signature) :=
    parseCanonicalJson_of_canonicalJson (canonical_envelopeValue _ _ _) henvelope (by decide)
      (by decide) henvelopeSize
  have hraw : OwnerAuthorization.parseCanonicalJson payloadJson maxPayloadBytes
      "owner authorization payload" = .ok payload.json :=
    parseCanonicalJson_of_canonicalJson (canonical_payload _) hpayload (by decide) (by decide) hle
  have hdecoded : decodeUtf8Exactly (utf8Encode payloadJson) "payload" = .ok payloadJson := by
    simp only [decodeUtf8Exactly, utf8Decode_utf8Encode _ hwell, bind_eq_ok, reject_eq_ok,
      exists_unit, pure_eq_ok]
    exact ⟨fun h ↦ h rfl, rejectUnpaired_eq_ok.mpr hwell, trivial⟩
  have hencoded : validBoundedString OwnerAuthorization.rejected
      (.str (base64url (utf8Encode payloadJson))) "payload" maxEnvelopeBytes =
        .ok (base64url (utf8Encode payloadJson)) := by
    refine validBoundedString_of_bounded (bounded_base64url hne ?_)
    have hlength : (utf8Encode payloadJson).length ≤ maxPayloadBytes := hle
    rw [maxPayloadBytes] at hlength
    rw [maxEnvelopeBytes]
    omega
  have hsigned : validBoundedString OwnerAuthorization.rejected (.str (base64url signature))
      "signature" 256 = .ok (base64url signature) :=
    validBoundedString_of_bounded (bounded_base64url hsignatureNe (by omega))
  simp only [openEnvelope, bind_eq_ok, reject_eq_ok, pure_eq_ok, exists_unit]
  exact ⟨_, hvalue, _, rfl, rfl, fun h ↦ Bool.noConfusion (show true = false from h), _, hkey, _,
    hencoded, _, hsigned, _, decodeCanonicalBase64Url_of_ne_nil hne,
    not_or.mpr ⟨hpos.ne', not_lt.mpr hle⟩, _, hdecoded, _, hraw, _, hvalid, fun h ↦ h rfl, fun h ↦ h rfl, _,
    decodeCanonicalBase64Url_of_ne_nil hsignatureNe, fun h ↦ h hsignature, rfl⟩

/-! ### A signing -/

def pem (label body : String) : JsString :=
  js "-----BEGIN " ++ js label ++ js "-----\n" ++ js body ++ js "\n-----END " ++ js label ++
    js "-----\n"

def sampleDer : Bytes :=
  base64Decode (js "MCowBQYDK2VwAyEAJE_qlnu30PaF_A9XdwRz9BamDS1Zzn9BT7TTW8iM-RM")

def sampleZeroDigest : JsString := js "sha256:" ++ List.replicate 64 0x30

def sampleEmptySetDigest : JsString :=
  js "sha256:4f53cda18c2baa0c0354bb5f9a3ecbe5ed12ab4d8e11ba873c2f11161202b945"

def sampleBindings : ExpectedOwnerAuthorizationBindings where
  pilotId := js "pilot_sample"
  approvalEvidenceDigest := sampleZeroDigest
  preRunAuthorizationDigest := sampleZeroDigest
  previewCompletedAt := 1000
  authorizationExpiresAt := 9000
  repository := ⟨js "owner/repo", 1, 2⟩
  github := ⟨3, 4⟩
  base := ⟨js "main", List.replicate 40 0x30⟩
  engine := ⟨js "v1", List.replicate 40 0x30⟩
  manifest := ⟨2, sampleZeroDigest⟩
  preview := {
    preflightId := js "pf_" ++ List.replicate 64 0x30
    artifactDigest := sampleZeroDigest
    candidateBranch := js "codex/sample"
    candidateTreeSha := List.replicate 40 0x30
    findingsDigest := sampleEmptySetDigest
    resolutionsDigest := sampleEmptySetDigest
    commandScopeDigest := sampleZeroDigest
    runnerAttestationDigest := sampleZeroDigest
    rulesetDigest := sampleZeroDigest
    requiredCiDigest := sampleZeroDigest }
  allowedActions := [createPullRequest]
  pullRequestNumber := none

def sampleBody : JsString := compactText (bodyJson 2000 8000 sampleBindings)

def sampleChallengeDigest : JsString :=
  js "sha256:6252e63b5b094202e942c5ea68f352c9b4d916b87ba0740a30e30db2458820c7"

/-- The text of the challenge, its digest in its place. -/
def sampleChallenge : JsString :=
  compactText (.obj [
    (js "audience", .str ownerAuthorizationAudience),
    (js "bindings", sampleBindings.json),
    (js "blockers", .arr []),
    (js "challengeDigest", .str sampleChallengeDigest),
    (js "createdAt", integer 2000),
    (js "expiresAt", integer 8000),
    (js "kind", .str ownerAuthorizationChallengeKind),
    (js "version", integer 1)])

def sampleSignature : Bytes :=
  base64Decode (js "g0PrmYUvofBFPT40WSPegZaX6dA3nttO7mhZlESK3zPLOw4LF6OGlGLuvNun" ++
    js "3sxsTbRzNfGo-oppY_lIma3aBw")

def sampleNonce : Bytes := List.replicate 32 7

/-- The digests of the texts and bytes that are hashed below; the last one is the envelope's. -/
def sampleDigest (bytes : Bytes) : Bytes :=
  if bytes = utf8Encode (js "[]") then base64Decode (js "T1PNoYwrqgwDVLtfmj7L5e0Sq02OEbqHPC8RFhICuUU")
  else if bytes = utf8Encode sampleBody then
    base64Decode (js "YlLmO1sJQgLpQsXqaPNSybTZFrh7oHQKMOMNskWIIMc")
  else if bytes = sampleDer then base64Decode (js "JQrDh8DnAhNJ6J_mWCODrWYGZckAZCEQnFFKS0fhDWs")
  else if bytes = sampleNonce then base64Decode (js "S7Bvjk46dxXSAdVz0KpCN2LlXavWGiwCJ4-lbMbSlOA")
  else base64Decode (js "a73u6P6KBLxHFLWAOgUGl9cLyF6zayfwN_TkCO6BB4w")

theorem length_sampleDigest (bytes : Bytes) : (sampleDigest bytes).length = 32 := by
  unfold sampleDigest
  split_ifs <;> decide +kernel

/-- One key, and the one signature made with it. -/
def sampleCrypto : Crypto Unit Unit where
  sha256 := ⟨sampleDigest, length_sampleDigest⟩
  createPublicKey _ := some ()
  publicPem _ := pem "PUBLIC KEY" "MCowBQYDK2VwAyEAJE/qlnu30PaF/A9XdwRz9BamDS1Zzn9BT7TTW8iM+RM="
  publicDer _ := sampleDer
  publicType _ := js "ed25519"
  verify _ _ signature := decide (signature = sampleSignature)
  createPrivateKey _ := some ()
  privatePem _ := pem "PRIVATE KEY" "MC4CAQAwBQYDK2VwBCIEIMzo0IZqIQ+pA3lZnTM35A31S0HIzb1zE9rLVxKZGezO"
  privateType _ := js "ed25519"
  publicOf := id
  sign _ _ := sampleSignature

def sampleRegistry : JsString :=
  compactText (.obj [
    (js "keys", .arr [.obj [
      (js "algorithm", .str (js "Ed25519")),
      (js "fingerprint", .str (sampleCrypto.digest sampleDer)),
      (js "keyId", .str (js "key-1")),
      (js "publicKeyPem", .str (sampleCrypto.publicPem ())),
      (js "repository", sampleBindings.repository.json),
      (js "revokedAt", .null),
      (js "signerId", .str (js "signer-1")),
      (js "validFrom", integer 1),
      (js "validUntil", integer 8000)]]),
    (js "revokedAuthorizationIds", .arr []),
    (js "version", integer 1)])

def sampleFile (path : JsString) : Except String OwnerFile :=
  if path = js "/challenge" then .ok ⟨path, sampleChallenge⟩
  else if path = js "/registry" then .ok ⟨path, sampleRegistry⟩
  else .ok ⟨path, sampleCrypto.privatePem ()⟩

def sampleSigner : Signer where
  readOwnerOnlyFile := sampleFile
  registryPath := none
  resolve := id
  readOwnerOnlyExternalFile path _ _ := sampleFile path
  writeNewOwnerOnlyExternalFile path _ := .ok path
  randomUuid := js "00000000-0000-4000-8000-000000000000"
  randomNonce := sampleNonce

def sampleInput : SignOwnerAuthorizationChallengeFileInput where
  challengePath := js "/challenge"
  registryPath := js "/registry"
  privateKeyPath := js "/key"
  outputPath := js "/envelope"
  approveChallengeDigest := sampleChallengeDigest
  authorizationId := js "authorization-1"
  signerId := js "signer-1"
  keyId := js "key-1"
  ttlMs := none
  now := 3000

/-- What the sample challenge says. -/
def sampleOwnerChallenge : OwnerAuthorizationChallenge where
  createdAt := 2000
  expiresAt := 8000
  bindings := sampleBindings
  challengeDigest := sampleChallengeDigest

def samplePayload : OwnerAuthorizationPayload :=
  payloadOf sampleSigner sampleOwnerChallenge (js "authorization-1") (js "signer-1") (js "key-1")
    3000 8000

def samplePayloadBytes : Bytes := utf8Encode (compactText samplePayload.json)

def sampleEnvelopeValue : JsValue :=
  envelopeValue (js "key-1") samplePayloadBytes sampleSignature

def sampleEnvelope : JsString := compactText sampleEnvelopeValue

/-- What the signer reads and checks before it signs the sample. -/
structure SampleRequest : Prop where
  challenge : parseOwnerAuthorizationChallenge sampleCrypto sampleChallenge 3000 =
    .ok sampleOwnerChallenge
  authorizationId : identifier (js "authorization-1") "authorizationId" = .ok (js "authorization-1")
  signerId : identifier (js "signer-1") "signerId" = .ok (js "signer-1")
  keyId : identifier (js "key-1") "keyId" = .ok (js "key-1")
  privateKey : parseCanonicalEd25519PrivateKey sampleCrypto (sampleCrypto.privatePem ()) = .ok ()

set_option maxRecDepth 100000 in
theorem sampleRequest : SampleRequest where
  challenge := by decide +kernel
  authorizationId := by decide +kernel
  signerId := by decide +kernel
  keyId := by decide +kernel
  privateKey := by decide +kernel

/-- What the signer writes. -/
structure SampleIssue : Prop where
  registry : assertRegistryKeyCorrespondence sampleCrypto sampleRegistry (js "key-1")
    (js "signer-1") (js "authorization-1") sampleBindings.repository () = .ok ()
  payload : canonicalJson samplePayload.json = .ok (compactText samplePayload.json)
  envelope : canonicalJson sampleEnvelopeValue = .ok sampleEnvelope
  signatureLength : sampleSignature.length = 64

set_option maxRecDepth 100000 in
theorem sampleIssue : SampleIssue where
  registry := by decide +kernel
  payload := by decide +kernel
  envelope := by decide +kernel
  signatureLength := by decide +kernel

/-- The sizes of the sample. -/
structure SampleSizes : Prop where
  envelope : byteLength sampleEnvelope ≤ maxEnvelopeBytes
  keyId : validIdentifier OwnerAuthorization.rejected (.str (js "key-1")) "envelope keyId" =
    .ok (js "key-1")
  payload : 0 < byteLength (compactText samplePayload.json) ∧
    byteLength (compactText samplePayload.json) ≤ maxPayloadBytes

set_option maxRecDepth 100000 in
theorem sampleSizes : SampleSizes where
  envelope := by decide +kernel
  keyId := by decide +kernel
  payload := by decide +kernel

/-- What its verification checks. -/
structure SampleGrant : Prop where
  expected : validateExpectedBindings sampleBindings.json = .ok sampleBindings
  digest : validDigest OwnerAuthorization.rejected (.str sampleChallengeDigest)
    "expected challengeDigest" = .ok sampleChallengeDigest
  validPayload : validatePayload samplePayload.json = .ok samplePayload
  bindings : assertExpectedBindings samplePayload sampleBindings = .ok ()
  selected : (readAndSelectRegistryKey sampleCrypto sampleSigner.toHost (js "/registry")
    samplePayload 3000).isOk = true

set_option maxRecDepth 100000 in
theorem sampleGrant : SampleGrant where
  expected := by decide +kernel
  digest := by decide +kernel
  validPayload := by decide +kernel
  bindings := by decide +kernel
  selected := by decide +kernel

/-- What the signer expects of the envelope it made. -/
def sampleVerification : VerifyOwnerAuthorizationInput where
  expected := sampleBindings.json
  expectedChallengeDigest := .str sampleChallengeDigest
  registryPath := some (js "/registry")
  now := 3000

theorem openEnvelope_sample : openEnvelope sampleEnvelope sampleChallengeDigest = .ok {
    keyId := js "key-1"
    payloadBytes := samplePayloadBytes
    payload := samplePayload
    signatureBytes := sampleSignature } := by
  have hkey : samplePayload.keyId = js "key-1" := rfl
  have hdigest : samplePayload.challengeDigest = sampleChallengeDigest := rfl
  have hopen := @openEnvelope_of_signed samplePayload (compactText samplePayload.json)
    sampleEnvelope sampleSignature
  rw [hkey, hdigest] at hopen
  exact hopen sampleSizes.keyId sampleGrant.validPayload sampleIssue.payload sampleSizes.payload
    sampleIssue.envelope sampleSizes.envelope sampleIssue.signatureLength

theorem exists_verified_sample : ∃ state, verifyOwnerAuthorizationEnvelope sampleCrypto
    sampleSigner.toHost sampleEnvelope sampleVerification = .ok state := by
  have hselected := sampleGrant.selected
  cases hkey : readAndSelectRegistryKey sampleCrypto sampleSigner.toHost (js "/registry")
      samplePayload 3000 with
  | error e =>
    rw [hkey] at hselected
    cases hselected
  | ok key =>
    have hverify : sampleCrypto.verify key.publicKey (signedBytes samplePayloadBytes)
        sampleSignature = true := by simp [sampleCrypto]
    simp only [verifyOwnerAuthorizationEnvelope, bind_eq_ok, reject_eq_ok, pure_eq_ok,
      exists_unit]
    exact ⟨_, 3000, by decide, sampleBindings, sampleGrant.expected, sampleChallengeDigest,
      sampleGrant.digest, _, openEnvelope_sample, by decide, sampleGrant.bindings, js "/registry",
      rfl, key, hkey, by simp [hverify], rfl⟩

theorem sample_signed :
    ∃ issue, signOwnerAuthorizationChallengeFile sampleCrypto sampleSigner sampleInput =
      .ok issue := by
  obtain ⟨state, hverified⟩ := exists_verified_sample
  simp only [signOwnerAuthorizationChallengeFile, bind_eq_ok, reject_eq_ok, pure_eq_ok,
    exists_unit]
  exact ⟨_, 3000, by decide, ⟨js "/challenge", sampleChallenge⟩, rfl, sampleOwnerChallenge,
    sampleRequest.challenge, fun h ↦ h rfl, js "authorization-1", sampleRequest.authorizationId,
    js "signer-1", sampleRequest.signerId, js "key-1", sampleRequest.keyId, 1800000, by decide,
    by decide, ⟨js "/registry", sampleRegistry⟩, by rfl,
    ⟨js "/key", sampleCrypto.privatePem ()⟩, by rfl, sampleRequest.privateKey,
    sampleIssue.registry, _, sampleIssue.payload, fun h ↦ h sampleIssue.signatureLength, _,
    sampleIssue.envelope, state, hverified, _, rfl, rfl⟩

/-- The grant of the sample envelope goes through the ledger. -/
theorem ledger_projection_round_trip_sample :
    ∃ state, verifyOwnerAuthorizationEnvelope sampleCrypto sampleSigner.toHost sampleEnvelope
        sampleVerification = .ok state ∧
      Db.auditConsumption state.consumption.input = .ok state.consumption.ledgerRow := by
  obtain ⟨state, hverified⟩ := exists_verified_sample
  exact ⟨state, hverified, (ledger_projection_round_trip hverified).1⟩

end ApiMigrator.App.OwnerSigner
