import ApiMigrator.App.OwnerChallenge
import ApiMigrator.App.OwnerGrant

/-!
`owner-signer.ts`: an owner signs the challenge they reviewed. The envelope that the signer writes
opens to the payload that it signed.
-/

set_option autoImplicit false
set_option relaxedAutoImplicit false

namespace ApiMigrator.App.OwnerSigner

open Foundation.Text Foundation.Number Foundation.Json Foundation.Outcome Foundation.Pattern
open Foundation.Binary Foundation.Base64
open CanonicalJson PublicationRunner OwnerAuthorization OwnerChallenge

variable {PublicKey PrivateKey : Type}

def rejected (message : String) : String := s!"Owner signing rejected: {message}"

def maxPrivateKeyBytes : ℕ := 16384

structure SignOwnerAuthorizationChallengeFileInput where
  challengePath : JsString
  registryPath : JsString
  privateKeyPath : JsString
  outputPath : JsString
  approveChallengeDigest : JsString
  authorizationId : JsString
  signerId : JsString
  keyId : JsString
  ttlMs : Option JsValue
  now : ℤ

/-- The signer's machine: its files, what it writes, and what it draws at random. -/
structure Signer extends Host where
  readOwnerOnlyExternalFile : JsString → ℕ → String → Except String OwnerFile
  writeNewOwnerOnlyExternalFile : JsString → JsString → Except String JsString
  randomUuid : JsString
  randomNonce : Bytes

structure OwnerAuthorizationSigningReceipt where
  challengeDigest : JsString
  envelopeDigest : JsString
  envelopeId : JsString
  authorizationId : JsString
  signerId : JsString
  keyId : JsString
  repositorySlug : JsString
  repositoryId : ℤ
  githubAppId : ℤ
  installationId : ℤ
  baseBranch : JsString
  baseSha : JsString
  preflightId : JsString
  candidateBranch : JsString
  candidateTreeSha : JsString
  allowedActions : List JsString
  pullRequestNumber : Option ℤ
  manifestDigest : JsString
  runnerAttestationDigest : JsString
  rulesetDigest : JsString
  requiredCiDigest : JsString
  expiresAt : ℤ
  outputPath : JsString

/-- What a signing leaves: the envelope in the output file, and the receipt it returns. -/
structure Issue where
  envelopeJson : JsString
  receipt : OwnerAuthorizationSigningReceipt

def identifier (value : JsString) (label : String) : Except String JsString := do
  reject (isOwnerIdentifier value = false) (rejected s!"{label} is invalid")
  return value

def positiveSafeInteger (value : JsValue) (label : String) : Except String ℤ :=
  match value with
  | .num n => do
    let i ← orThrow (safeInteger n) (rejected s!"{label} is invalid")
    reject (i ≤ 0) (rejected s!"{label} is invalid")
    return i
  | _ => .error (rejected s!"{label} is invalid")

def boundedTtl (value : JsValue) : Except String ℤ := do
  let ttl ← positiveSafeInteger value "owner envelope TTL"
  reject (ownerAuthorizationMaxTtlMs < ttl) (rejected "owner envelope TTL exceeds 30 minutes")
  return ttl

def parseCanonicalEd25519PrivateKey (crypto : Crypto PublicKey PrivateKey) (pem : JsString) :
    Except String PrivateKey := do
  let key ← orThrow (crypto.createPrivateKey pem)
    (rejected "owner private key must be canonical unencrypted PKCS8 PRIVATE KEY PEM")
  reject (crypto.privateType key ≠ js "ed25519" ∨ pem ≠ crypto.privatePem key)
    (rejected "owner private key must be canonical unencrypted Ed25519 PKCS8 PRIVATE KEY PEM")
  return key

/-- The key id of an entry, of which only records have one. -/
def entryKeyId (candidate : JsValue) : JsValue :=
  match candidate with
  | .obj entry => field entry "keyId"
  | _ => .exotic .undefined

def arrayOf (value : JsValue) (message : String) : Except String (List JsValue) :=
  match value with
  | .arr values => .ok values
  | _ => .error (rejected message)

def uniqueEntry (candidates : List JsValue) (keyId : JsString) : Except String JsValue :=
  match candidates.filter fun candidate ↦ isString (entryKeyId candidate) keyId with
  | [entry] => .ok entry
  | _ => .error (rejected "owner signing key is not uniquely registered")

def assertRegistryKeyCorrespondence (crypto : Crypto PublicKey PrivateKey)
    (registryJson keyId signerId authorizationId : JsString) (repository : Repository)
    (privateKey : PrivateKey) : Except String Unit := do
  let parsed ← relabel (CanonicalJson.parseCanonicalJson (.text registryJson)
    (.int maxRegistryBytes) "owner key registry") (rejected "owner key registry is invalid")
  let registry ← asRecord rejected parsed "owner key registry"
  assertExactKeys rejected registry ["version", "keys", "revokedAuthorizationIds"]
    "owner key registry"
  reject (isInteger (field registry "version") 1 = false)
    (rejected "owner key registry is invalid")
  let keys ← arrayOf (field registry "keys") "owner key registry is invalid"
  let revoked ← arrayOf (field registry "revokedAuthorizationIds") "owner key registry is invalid"
  reject (revoked.any (fun value ↦ isString value authorizationId) = true)
    (rejected "owner authorization has been revoked")
  let candidate ← uniqueEntry keys keyId
  let entry ← asRecord rejected candidate "owner key registry entry"
  assertExactKeys rejected entry registryKeyKeys "owner key registry entry"
  reject (isString (field entry "algorithm") (js "Ed25519") = false ∨
    isString (field entry "signerId") signerId = false ∨ ¬ (field entry "revokedAt" matches .null))
    (rejected "owner signing key registry scope does not match")
  let registered ← canonicalJson (field entry "repository")
  let expected ← canonicalJson repository.json
  reject (registered ≠ expected)
    (rejected "owner signing key repository scope does not match")
  let publicKey := crypto.publicOf privateKey
  reject (crypto.publicType publicKey ≠ js "ed25519")
    (rejected "owner private key is not Ed25519")
  let fingerprint := crypto.digest (crypto.publicDer publicKey)
  reject (isString (field entry "publicKeyPem") (crypto.publicPem publicKey) = false ∨
    isString (field entry "fingerprint") fingerprint = false)
    (rejected "owner private key does not match the registered public key")
  reject (isDigestText fingerprint = false) (rejected "owner key registry fingerprint is invalid")

/-- The payload that is signed for a challenge. -/
def payloadOf (signer : Signer) (challenge : OwnerAuthorizationChallenge)
    (authorizationId signerId keyId : JsString) (now expiresAt : ℤ) :
    OwnerAuthorizationPayload where
  toExpectedOwnerAuthorizationBindings := challenge.bindings
  envelopeId := js "envelope-" ++ signer.randomUuid
  authorizationId
  signerId
  keyId
  challengeDigest := challenge.challengeDigest
  issuedAt := now
  notBefore := now
  expiresAt
  nonce := base64url signer.randomNonce

def envelopeValue (keyId : JsString) (payloadBytes signature : Bytes) : JsValue :=
  .obj [
    (js "keyId", .str keyId),
    (js "payload", .str (base64url payloadBytes)),
    (js "signature", .str (base64url signature)),
    (js "version", integer 1)]

def receiptOf (crypto : Crypto PublicKey PrivateKey) (challenge : OwnerAuthorizationChallenge)
    (payload : OwnerAuthorizationPayload) (envelopeJson outputPath : JsString) :
    OwnerAuthorizationSigningReceipt where
  challengeDigest := challenge.challengeDigest
  envelopeDigest := crypto.digest (utf8Encode envelopeJson)
  envelopeId := payload.envelopeId
  authorizationId := payload.authorizationId
  signerId := payload.signerId
  keyId := payload.keyId
  repositorySlug := payload.repository.slug
  repositoryId := payload.repository.id
  githubAppId := payload.github.appId
  installationId := payload.github.installationId
  baseBranch := payload.base.branch
  baseSha := payload.base.sha
  preflightId := payload.preview.preflightId
  candidateBranch := payload.preview.candidateBranch
  candidateTreeSha := payload.preview.candidateTreeSha
  allowedActions := payload.allowedActions
  pullRequestNumber := payload.pullRequestNumber
  manifestDigest := payload.manifest.digest
  runnerAttestationDigest := payload.preview.runnerAttestationDigest
  rulesetDigest := payload.preview.rulesetDigest
  requiredCiDigest := payload.preview.requiredCiDigest
  expiresAt := payload.expiresAt
  outputPath

def signOwnerAuthorizationChallengeFile (crypto : Crypto PublicKey PrivateKey) (signer : Signer)
    (input : SignOwnerAuthorizationChallengeFileInput) : Except String Issue := do
  let now ← positiveSafeInteger (integer input.now) "signing clock"
  let challengeFile ←
    signer.readOwnerOnlyExternalFile input.challengePath maxChallengeBytes "owner challenge"
  let challenge ← parseOwnerAuthorizationChallenge crypto challengeFile.contents now
  reject (input.approveChallengeDigest ≠ challenge.challengeDigest)
    (rejected "explicit approved challenge digest does not match the parsed challenge")
  let authorizationId ← identifier input.authorizationId "authorizationId"
  let signerId ← identifier input.signerId "signerId"
  let keyId ← identifier input.keyId "keyId"
  let ttlMs ← boundedTtl (input.ttlMs.getD (integer ownerAuthorizationMaxTtlMs))
  let expiresAt :=
    min (min (now + ttlMs) challenge.expiresAt) challenge.bindings.authorizationExpiresAt
  reject (expiresAt ≤ now) (rejected "owner envelope authorization window is empty")
  let registryFile ←
    signer.readOwnerOnlyExternalFile input.registryPath maxRegistryBytes "owner key registry"
  let privateKeyFile ←
    signer.readOwnerOnlyExternalFile input.privateKeyPath maxPrivateKeyBytes "owner private key"
  let privateKey ← parseCanonicalEd25519PrivateKey crypto privateKeyFile.contents
  assertRegistryKeyCorrespondence crypto registryFile.contents keyId signerId authorizationId
    challenge.bindings.repository privateKey
  let payload := payloadOf signer challenge authorizationId signerId keyId now expiresAt
  let payloadJson ← canonicalJson payload.json
  let payloadBytes := utf8Encode payloadJson
  let signature := crypto.sign privateKey (signedBytes payloadBytes)
  reject (signature.length ≠ 64) (rejected "Ed25519 signer returned an invalid signature")
  let envelopeJson ← canonicalJson (envelopeValue keyId payloadBytes signature)
  let _ ← verifyOwnerAuthorizationEnvelope crypto signer.toHost envelopeJson {
    expected := challenge.bindings.json
    expectedChallengeDigest := .str challenge.challengeDigest
    registryPath := some registryFile.canonicalPath
    now }
  let outputPath ← signer.writeNewOwnerOnlyExternalFile input.outputPath envelopeJson
  return { envelopeJson, receipt := receiptOf crypto challenge payload envelopeJson outputPath }

/-! ### The envelope read back -/

theorem canonical_envelopeValue (keyId : JsString) (payloadBytes signature : Bytes) :
    Canonical (envelopeValue keyId payloadBytes signature) := by
  refine canonical_obj ?_ (by simp)
  change (["keyId", "payload", "signature", "version"].map js).Pairwise (· < ·)
  decide

/-- The canonical text of a canonical value parses to that value only. -/
theorem parseCanonicalJson_canonicalJson {v w : JsValue} {text : JsString} {maxBytes : ℕ}
    {label : String} (hv : Canonical v) (htext : canonicalJson v = .ok text)
    (h : OwnerAuthorization.parseCanonicalJson text maxBytes label = .ok w) : w = v := by
  obtain ⟨hjson, rfl⟩ := (canonicalJson_of_canonical hv).mp htext
  unfold OwnerAuthorization.parseCanonicalJson at h
  cases hparse : CanonicalJson.parseCanonicalJson (.text (compactText v)) (.int maxBytes) label with
  | error e =>
    rw [hparse] at h
    cases h
  | ok w' =>
    rw [hparse] at h
    obtain rfl : w' = w := Except.ok.inj h
    obtain ⟨hjson', -, hcarries, -⟩ := parseCanonicalJson_eq_ok.mp hparse
    have hsame : compactText v = compactText w' := hcarries
    exact Option.some.inj ((hjson'.plain.jsonParse_compactText).symm.trans
      (hsame ▸ hjson.plain.jsonParse_compactText))

theorem parseCanonicalJson_of_canonicalJson {v : JsValue} {text : JsString} {maxBytes : ℕ}
    {label : String} (hv : Canonical v) (htext : canonicalJson v = .ok text)
    (hsafe : isSafe maxBytes = true) (hpos : 0 < maxBytes) (hsize : byteLength text ≤ maxBytes) :
    OwnerAuthorization.parseCanonicalJson text maxBytes label = .ok v := by
  obtain ⟨hjson, rfl⟩ := (canonicalJson_of_canonical hv).mp htext
  have hparse : CanonicalJson.parseCanonicalJson (.text (compactText v)) (.int maxBytes) label =
      .ok v :=
    parseCanonicalJson_eq_ok.mpr ⟨hjson, hv.2, rfl, maxBytes, rfl, hsafe, by exact_mod_cast hpos,
      by exact_mod_cast hsize⟩
  rw [OwnerAuthorization.parseCanonicalJson, hparse]
  rfl

theorem decodeCanonicalBase64Url_base64url {bytes bytes' : Bytes} {label : String}
    (h : decodeCanonicalBase64Url (base64url bytes) label = .ok bytes') : bytes' = bytes := by
  simp only [decodeCanonicalBase64Url, bind_eq_ok, reject_eq_ok, exists_unit, pure_eq_ok,
    base64Decode_base64url] at h
  exact h.2.2.symm

theorem isAlphanumericOr_base64url (bytes : Bytes) :
    ∀ c ∈ base64url bytes, isAlphanumericOr "-_" c = true := by
  have hdigit : ∀ n < 64, isAlphanumericOr "-_" (base64Digit n) = true := by decide
  induction bytes using base64url.induct with
  | case1 => exact fun c hc ↦ absurd hc List.not_mem_nil
  | case2 a =>
    have ha : a.toNat < 256 := a.toNat_lt
    simp only [base64url, List.forall_mem_cons, List.not_mem_nil, false_implies, implies_true,
      and_true]
    exact ⟨hdigit _ (by omega), hdigit _ (by omega)⟩
  | case3 a b =>
    have ha : a.toNat < 256 := a.toNat_lt
    have hb : b.toNat < 256 := b.toNat_lt
    simp only [base64url, List.forall_mem_cons, List.not_mem_nil, false_implies, implies_true,
      and_true]
    exact ⟨hdigit _ (by omega), hdigit _ (by omega), hdigit _ (by omega)⟩
  | case4 a b c rest ih =>
    have ha : a.toNat < 256 := a.toNat_lt
    have hb : b.toNat < 256 := b.toNat_lt
    have hc : c.toNat < 256 := c.toNat_lt
    simp only [base64url, List.forall_mem_cons]
    exact ⟨hdigit _ (by omega), hdigit _ (by omega), hdigit _ (by omega), hdigit _ (by omega), ih⟩

/-- Three bytes are four characters, and what remains is never one. -/
theorem length_base64url (bytes : Bytes) :
    (base64url bytes).length % 4 ≠ 1 ∧ 3 * (base64url bytes).length ≤ 4 * bytes.length + 2 := by
  induction bytes using base64url.induct with
  | case1 => decide
  | case2 a => simp [base64url]
  | case3 a b => simp [base64url]
  | case4 a b c rest ih =>
    simp only [base64url, List.length_cons]
    omega

/-- What was encoded is decoded. -/
theorem decodeCanonicalBase64Url_of_ne_nil {bytes : Bytes} {label : String} (h : bytes ≠ []) :
    decodeCanonicalBase64Url (base64url bytes) label = .ok bytes := by
  have hdecode := base64Decode_base64url bytes
  have hne : base64url bytes ≠ [] := by
    intro hnil
    rw [hnil] at hdecode
    exact h hdecode.symm
  have hpadding : ¬ includes (base64url bytes) "=" = true := by
    intro hincludes
    have hmem : (0x3d : UInt16) ∈ base64url bytes :=
      (of_decide_eq_true hincludes).subset (by decide)
    exact absurd (isAlphanumericOr_base64url bytes _ hmem) (by decide)
  simp only [decodeCanonicalBase64Url, bind_eq_ok, reject_eq_ok, exists_unit, pure_eq_ok, not_or,
    hdecode, not_not, and_true]
  refine ⟨hne, ?_, hpadding, (length_base64url bytes).1⟩
  rw [List.all_eq_true.mpr (isAlphanumericOr_base64url bytes)]
  exact Bool.noConfusion

/-- An envelope of the signer is opened to the payload that was signed. -/
theorem openEnvelope_canonicalJson {payload : OwnerAuthorizationPayload}
    {keyId payloadJson envelopeJson digest : JsString} {signature : Bytes} {envelope : Envelope}
    (hpayload : canonicalJson payload.json = .ok payloadJson)
    (henvelope : canonicalJson (envelopeValue keyId (utf8Encode payloadJson) signature) =
      .ok envelopeJson)
    (h : openEnvelope envelopeJson digest = .ok envelope) :
    envelope.payload = payload ∧ payload.challengeDigest = digest := by
  simp only [openEnvelope, bind_eq_ok, reject_eq_ok, exists_unit, pure_eq_ok, not_not] at h
  obtain ⟨value, hvalue, ms, hrecord, -, -, _, -, encoded, hencoded, _, -, bytes, hbytes, -,
    text, htext, raw, hraw, payload', hvalid, -, hdigest, _, -, -, rfl⟩ := h
  obtain rfl := parseCanonicalJson_canonicalJson (canonical_envelopeValue _ _ _) henvelope hvalue
  cases hrecord
  obtain rfl : encoded = base64url (utf8Encode payloadJson) := validBoundedString_str hencoded
  obtain rfl := decodeCanonicalBase64Url_base64url hbytes
  obtain ⟨hjson, hpayloadJson⟩ :=
    (canonicalJson_of_canonical (canonical_payload payload)).mp hpayload
  have hwell : isWellFormed payloadJson = true := by
    rw [hpayloadJson]
    exact isWellFormed_compactText hjson
  simp only [decodeUtf8Exactly, bind_eq_ok, exists_unit, pure_eq_ok,
    utf8Decode_utf8Encode _ hwell] at htext
  obtain ⟨-, -, rfl⟩ := htext
  obtain rfl := parseCanonicalJson_canonicalJson (canonical_payload payload) hpayload hraw
  obtain rfl := validatePayload_json hvalid
  exact ⟨rfl, hdigest⟩

end ApiMigrator.App.OwnerSigner
