import ApiMigrator.App.OwnerWindow

/-!
The age of a challenge at its signing. The challenge is fresh against its preview when it is
created, and that is checked again when it is signed, but against the same two times: the clock of
the signing is held to the challenge's window only.
-/

set_option autoImplicit false
set_option relaxedAutoImplicit false

namespace ApiMigrator.App.OwnerSigner

open Foundation.Text Foundation.Number Foundation.Json Foundation.Outcome Foundation.Pattern
open Foundation.Binary Foundation.Base64
open CanonicalJson PublicationRunner OwnerAuthorization OwnerChallenge

variable {PublicKey PrivateKey : Type}

/-- What is documented of every challenge that the signer accepts, and of the envelope it issues. -/
structure DocumentedFreshness (signer : Signer) (input : SignOwnerAuthorizationChallengeFileInput)
    (issue : Issue) (challenge : OwnerAuthorizationChallenge) : Prop where
  blockerFree : ∃ file members, signer.readOwnerOnlyExternalFile input.challengePath
      maxChallengeBytes "owner challenge" = .ok file ∧
    canonicalJson (.obj members) = .ok file.contents ∧ field members "blockers" = .arr []
  age : input.now - challenge.createdAt < 10 * 60 * 1000
  window : challenge.expiresAt - challenge.createdAt ≤ 30 * 60 * 1000
  lifetime : issue.receipt.expiresAt ≤ input.now + 30 * 60 * 1000
  challengeExpiry : issue.receipt.expiresAt ≤ challenge.expiresAt
  underlying : issue.receipt.expiresAt ≤ challenge.bindings.authorizationExpiresAt

/-- A challenge that parses is the canonical text of a record without blockers. -/
theorem parseOwnerAuthorizationChallenge_canonical {crypto : Crypto PublicKey PrivateKey}
    {challengeJson : JsString} {now : ℤ} {challenge : OwnerAuthorizationChallenge}
    (h : parseOwnerAuthorizationChallenge crypto challengeJson now = .ok challenge) :
    ∃ members, canonicalJson (.obj members) = .ok challengeJson ∧
      field members "blockers" = .arr [] := by
  simp only [parseOwnerAuthorizationChallenge, parseChallengeJson, bind_eq_ok, reject_eq_ok,
    exists_unit, relabel_eq_ok, not_not] at h
  obtain ⟨_, -, members, ⟨value, hvalue, hrecord⟩, -, -, -, -, hblockers, -⟩ := h
  obtain ⟨hjson, hsorted, htext, -⟩ := CanonicalJson.parseCanonicalJson_eq_ok.mp hvalue
  unfold asRecord at hrecord
  split at hrecord
  · obtain rfl := Except.ok.inj hrecord
    refine ⟨_, (canonicalJson_of_canonical ⟨hjson.distinctKeys, hsorted⟩).mpr ⟨hjson, htext⟩, ?_⟩
    split at hblockers
    · assumption
    · cases hblockers
  · cases hrecord

/-- Everything documented of a signing holds but for the age of the challenge, which no check
bounds: it holds where the challenge was made less than ten minutes before. -/
theorem signing_fresh_iff {crypto : Crypto PublicKey PrivateKey} {signer : Signer}
    {input : SignOwnerAuthorizationChallengeFileInput} {issue : Issue}
    (hsign : signOwnerAuthorizationChallengeFile crypto signer input = .ok issue) :
    ∃ challenge payload, Signs crypto signer input issue challenge payload ∧
      (DocumentedFreshness signer input issue challenge ↔
        input.now - challenge.createdAt < ownerAuthorizationChallengeMaxAgeMs) := by
  obtain ⟨challenge, payload, hsigns, -, ⟨_, state, -, hverified⟩, -, hreceipt⟩ :=
    signOwnerAuthorizationChallengeFile_verified hsign
  refine ⟨challenge, payload, hsigns, DocumentedFreshness.age, fun hage ↦ ?_⟩
  obtain ⟨file, hfile, hparse⟩ := hsigns.parsed
  obtain ⟨members, htext, hblockers⟩ := parseOwnerAuthorizationChallenge_canonical hparse
  obtain ⟨-, -, hlifetime, -, -, hunderlying⟩ := parseOwnerAuthorizationChallenge_eq_ok hparse
  obtain ⟨-, -, -, -, -, -, -, hwindow, -⟩ := verifyOwnerAuthorizationEnvelope_eq_ok hverified
  rw [hsigns.payload_eq hverified] at hwindow
  have hexpires : issue.receipt.expiresAt = payload.expiresAt :=
    congrArg OwnerAuthorizationSigningReceipt.expiresAt hreceipt
  have hmaximum := hwindow.lifetime
  rw [hsigns.issuedAt, ← hexpires] at hmaximum
  have hexpiry : issue.receipt.expiresAt ≤ challenge.expiresAt := hexpires ▸ hsigns.expires
  simp only [ownerAuthorizationChallengeMaxTtlMs, ownerAuthorizationMaxTtlMs] at hlifetime hmaximum
  exact {
    blockerFree := ⟨file, members, hfile, htext, hblockers⟩
    age := hage
    window := by omega
    lifetime := by omega
    challengeExpiry := hexpiry
    underlying := hexpiry.trans hunderlying }

/-! ### A late signing -/

/-- The sample bindings under a longer authorization. -/
def lateBindings : ExpectedOwnerAuthorizationBindings :=
  { sampleBindings with authorizationExpiresAt := 2000000 }

def lateBody : JsString := compactText (bodyJson 2000 1802000 lateBindings)

/-- A challenge of half an hour. -/
def lateOwnerChallenge : OwnerAuthorizationChallenge where
  createdAt := 2000
  expiresAt := 1802000
  bindings := lateBindings
  challengeDigest := js "sha256:0122fd7167c70d85bd4551fa4871469c0055cef671f98926db4bc9c025266391"

def lateChallenge : JsString := compactText lateOwnerChallenge.json

def lateSignature : Bytes :=
  base64Decode (js "a9aBs5bQ57Fniu6TOYIHNYDLiNh4VG5twGEuw51kx6_3vZWcNI2utwdFviEQ" ++
    js "5DBMjf5SNfHyH7_rSq9qEt43Cw")

/-- The digests of the texts and bytes that are hashed below; the last one is the envelope's. -/
def lateDigest (bytes : Bytes) : Bytes :=
  if bytes = utf8Encode lateBody then
    base64Decode (js "ASL9cWfHDYW9RVH6SHFGnABVzvZx-Ykm20vJwCUmY5E")
  else if bytes = utf8Encode (js "[]") ∨ bytes = sampleDer ∨ bytes = sampleNonce then
    sampleDigest bytes
  else base64Decode (js "jJunqgQK20gRQGuuC9_gARTtooW67bKd8Xt429F7i84")

theorem length_lateDigest (bytes : Bytes) : (lateDigest bytes).length = 32 := by
  unfold lateDigest
  split_ifs
  · decide +kernel
  · exact length_sampleDigest bytes
  · decide +kernel

/-- The sample key, and the one signature made with it here. -/
def lateCrypto : Crypto Unit Unit :=
  { sampleCrypto with
    sha256 := ⟨lateDigest, length_lateDigest⟩
    verify := fun _ _ signature ↦ decide (signature = lateSignature)
    sign := fun _ _ ↦ lateSignature }

def lateRegistry : JsString :=
  compactText (.obj [
    (js "keys", .arr [.obj [
      (js "algorithm", .str (js "Ed25519")),
      (js "fingerprint", .str (lateCrypto.digest sampleDer)),
      (js "keyId", .str (js "key-1")),
      (js "publicKeyPem", .str (lateCrypto.publicPem ())),
      (js "repository", lateBindings.repository.json),
      (js "revokedAt", .null),
      (js "signerId", .str (js "signer-1")),
      (js "validFrom", integer 1),
      (js "validUntil", integer 2000000)]]),
    (js "revokedAuthorizationIds", .arr []),
    (js "version", integer 1)])

def lateFile (path : JsString) : Except String OwnerFile :=
  if path = js "/challenge" then .ok ⟨path, lateChallenge⟩
  else if path = js "/registry" then .ok ⟨path, lateRegistry⟩
  else .ok ⟨path, lateCrypto.privatePem ()⟩

def lateSigner : Signer :=
  { sampleSigner with
    readOwnerOnlyFile := lateFile
    readOwnerOnlyExternalFile := fun path _ _ ↦ lateFile path }

/-- The challenge is signed eleven minutes and forty seconds after it was made. -/
def lateInput : SignOwnerAuthorizationChallengeFileInput :=
  { sampleInput with approveChallengeDigest := lateOwnerChallenge.challengeDigest, now := 702000 }

def latePayload : OwnerAuthorizationPayload :=
  payloadOf lateSigner lateOwnerChallenge (js "authorization-1") (js "signer-1") (js "key-1")
    702000 1802000

def lateEnvelope : JsString :=
  compactText (envelopeValue latePayload.keyId (utf8Encode (compactText latePayload.json))
    lateSignature)

/-- The challenge as it is created, and what the signer reads before it signs it. -/
structure LateRequest : Prop where
  created : (createOwnerAuthorizationChallenge lateCrypto {
    bindings := lateBindings.json, blockers := .arr [], now := 2000, ttlMs := none }) =
      .ok { challengeJson := lateChallenge, challenge := lateOwnerChallenge }
  challenge : parseOwnerAuthorizationChallenge lateCrypto lateChallenge 702000 =
    .ok lateOwnerChallenge
  privateKey : parseCanonicalEd25519PrivateKey lateCrypto (lateCrypto.privatePem ()) = .ok ()

set_option maxRecDepth 100000 in
theorem lateRequest : LateRequest where
  created := by decide +kernel
  challenge := by decide +kernel
  privateKey := by decide +kernel

/-- What the signer writes. -/
structure LateIssue : Prop where
  registry : assertRegistryKeyCorrespondence lateCrypto lateRegistry (js "key-1")
    (js "signer-1") (js "authorization-1") lateBindings.repository () = .ok ()
  payload : canonicalJson latePayload.json = .ok (compactText latePayload.json)
  payloadSize : 0 < byteLength (compactText latePayload.json) ∧
    byteLength (compactText latePayload.json) ≤ maxPayloadBytes
  envelope : canonicalJson (envelopeValue latePayload.keyId
    (utf8Encode (compactText latePayload.json)) lateSignature) = .ok lateEnvelope
  envelopeSize : byteLength lateEnvelope ≤ maxEnvelopeBytes
  signatureLength : lateSignature.length = 64

set_option maxRecDepth 100000 in
theorem lateIssue : LateIssue where
  registry := by decide +kernel
  payload := by decide +kernel
  payloadSize := by decide +kernel
  envelope := by decide +kernel
  envelopeSize := by decide +kernel
  signatureLength := by decide +kernel

/-- What its verification checks. -/
structure LateGrant : Prop where
  expected : validateExpectedBindings lateBindings.json = .ok lateBindings
  digest : validDigest OwnerAuthorization.rejected (.str lateOwnerChallenge.challengeDigest)
    "expected challengeDigest" = .ok lateOwnerChallenge.challengeDigest
  validPayload : validatePayload latePayload.json = .ok latePayload
  bindings : assertExpectedBindings latePayload lateBindings = .ok ()
  selected : (readAndSelectRegistryKey lateCrypto lateSigner.toHost (js "/registry")
    latePayload 702000).isOk = true

set_option maxRecDepth 100000 in
theorem lateGrant : LateGrant where
  expected := by decide +kernel
  digest := by decide +kernel
  validPayload := by decide +kernel
  bindings := by decide +kernel
  selected := by decide +kernel

theorem exists_verified_late : ∃ state, verifyOwnerAuthorizationEnvelope lateCrypto
    lateSigner.toHost lateEnvelope
    (verificationOf lateOwnerChallenge (some (js "/registry")) 702000) = .ok state := by
  have hselected := lateGrant.selected
  have hopen := openEnvelope_of_signed sampleSizes.keyId lateGrant.validPayload lateIssue.payload
    lateIssue.payloadSize lateIssue.envelope lateIssue.envelopeSize lateIssue.signatureLength
  cases hkey : readAndSelectRegistryKey lateCrypto lateSigner.toHost (js "/registry")
      latePayload 702000 with
  | error e =>
    rw [hkey] at hselected
    cases hselected
  | ok key =>
    have hverify : lateCrypto.verify key.publicKey
        (signedBytes (utf8Encode (compactText latePayload.json))) lateSignature = true := by
      simp [lateCrypto]
    simp only [verifyOwnerAuthorizationEnvelope, bind_eq_ok, reject_eq_ok, pure_eq_ok,
      exists_unit]
    exact ⟨_, 702000, by decide, lateBindings, lateGrant.expected, _, lateGrant.digest, _, hopen,
      by decide, lateGrant.bindings, js "/registry", rfl, key, hkey, by simp [hverify], rfl⟩

theorem late_signed :
    ∃ issue, signOwnerAuthorizationChallengeFile lateCrypto lateSigner lateInput = .ok issue := by
  obtain ⟨state, hverified⟩ := exists_verified_late
  simp only [signOwnerAuthorizationChallengeFile, bind_eq_ok, reject_eq_ok, pure_eq_ok,
    exists_unit]
  exact ⟨_, 702000, by decide, ⟨js "/challenge", lateChallenge⟩, rfl, lateOwnerChallenge,
    lateRequest.challenge, fun h ↦ h rfl, js "authorization-1", sampleRequest.authorizationId,
    js "signer-1", sampleRequest.signerId, js "key-1", sampleRequest.keyId, 1800000, by decide,
    by decide, ⟨js "/registry", lateRegistry⟩, by rfl,
    ⟨js "/key", lateCrypto.privatePem ()⟩, by rfl, lateRequest.privateKey,
    lateIssue.registry, _, lateIssue.payload, fun h ↦ h lateIssue.signatureLength, _,
    lateIssue.envelope, state, hverified, _, rfl, rfl⟩

/-- A challenge as it is created is signed when it is older than ten minutes. -/
theorem late_signing_not_fresh :
    (createOwnerAuthorizationChallenge lateCrypto {
      bindings := lateBindings.json, blockers := .arr [], now := 2000, ttlMs := none }) =
        .ok { challengeJson := lateChallenge, challenge := lateOwnerChallenge } ∧
    ∃ issue, signOwnerAuthorizationChallengeFile lateCrypto lateSigner lateInput = .ok issue ∧
      ∃ file, lateSigner.readOwnerOnlyExternalFile lateInput.challengePath maxChallengeBytes
          "owner challenge" = .ok file ∧ file.contents = lateChallenge ∧
        parseOwnerAuthorizationChallenge lateCrypto file.contents lateInput.now =
          .ok lateOwnerChallenge ∧
        ¬ DocumentedFreshness lateSigner lateInput issue lateOwnerChallenge := by
  obtain ⟨issue, hsign⟩ := late_signed
  refine ⟨lateRequest.created, issue, hsign, ⟨js "/challenge", lateChallenge⟩, rfl, rfl,
    lateRequest.challenge, fun hfresh ↦ ?_⟩
  exact absurd hfresh.age (by decide)

/-- The sample is signed a second after its challenge was made. -/
theorem signing_fresh_iff_sample :
    ∃ issue, signOwnerAuthorizationChallengeFile sampleCrypto sampleSigner sampleInput =
        .ok issue ∧
      ∃ challenge payload, Signs sampleCrypto sampleSigner sampleInput issue challenge payload ∧
        (DocumentedFreshness sampleSigner sampleInput issue challenge ↔
          sampleInput.now - challenge.createdAt < ownerAuthorizationChallengeMaxAgeMs) := by
  obtain ⟨issue, hsign⟩ := sample_signed
  exact ⟨issue, hsign, signing_fresh_iff hsign⟩

end ApiMigrator.App.OwnerSigner
