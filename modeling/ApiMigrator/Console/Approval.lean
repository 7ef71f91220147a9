import ApiMigrator.Foundation.Base64
import ApiMigrator.Foundation.Binary
import ApiMigrator.Foundation.CanonicalForm
import ApiMigrator.Foundation.GitNames
import ApiMigrator.Foundation.Outcome

/-!
`approval.ts` of the console: the tokens of the publication ceremony. A preview receipt, an owner
challenge receipt for it and an operator approval are signed texts of one form, told apart by their
domains; two maps remember which receipts and approvals were used until they expire.
-/

set_option autoImplicit false
set_option relaxedAutoImplicit false

namespace ApiMigrator.Console.Approval

open Foundation.Text Foundation.Number Foundation.Json Foundation.Outcome Foundation.Pattern
open Foundation.GitNames Foundation.Binary Foundation.Base64

inductive Failure
  | httpInput (message : JsString) (status : ℕ)
  | other (message : JsString)

/-- `HttpInputError` with its default status. -/
def invalid (message : String) : Failure := .httpInput (js message) 400

def conflict (message : String) : Failure := .httpInput (js message) 409

/-- What the ceremony uses of its process and of the other packages: the secret, the two hash
functions, the canonical text of a stored manifest, the record of a local execution with its JSON
text and its source, and the canonical form of a repository slug. -/
structure Environment (Execution : Type) where
  secret : Option JsString
  hmac : Bytes → Bytes → Bytes
  sha256 : HashFunction 32
  canonicalManifest : JsString → Except Failure JsString
  validateLocalPreviewExecution : JsValue → Option Execution
  executionText : Execution → JsString
  executionSource : Execution → Option (JsString × JsString)
  canonicalSlug : JsString → JsString

variable {Execution : Type}

def tokenTtlMs : ℤ := 600000

def maxOwnerEnvelopeBytes : ℕ := 65536

/-! ### Payloads -/

structure ReviewedPreview where
  slug : JsString
  preflightId : JsString
  artifactDigest : JsString
  candidateTreeSha : JsString
  previewCompletedAt : ℤ
  deriving DecidableEq

structure PreviewReceiptV1 where
  campaignId : JsString
  manifestDigest : JsString
  repository : ReviewedPreview
  expiresAt : ℤ
  nonce : JsString
  deriving DecidableEq

structure PreviewReceiptV2 (Execution : Type) extends PreviewReceiptV1 where
  execution : Execution

inductive PreviewReceipt (Execution : Type)
  | v1 (payload : PreviewReceiptV1)
  | v2 (payload : PreviewReceiptV2 Execution)

/-- What the two versions of a preview receipt share. -/
def PreviewReceipt.base : PreviewReceipt Execution → PreviewReceiptV1
  | .v1 payload => payload
  | .v2 payload => payload.toPreviewReceiptV1

structure OwnerChallengeReceipt where
  campaignId : JsString
  manifestDigest : JsString
  repository : ReviewedPreview
  previewReceiptDigest : JsString
  ownerChallengeDigest : JsString
  expiresAt : ℤ
  nonce : JsString
  deriving DecidableEq

structure OperatorApproval where
  campaignId : JsString
  manifestDigest : JsString
  repository : ReviewedPreview
  ownerChallengeDigest : JsString
  ownerAuthorizationDigest : JsString
  confirmationPhrase : JsString
  expiresAt : ℤ
  nonce : JsString
  deriving DecidableEq

def integer (i : ℤ) : JsValue := .num (.int i)

def ReviewedPreview.json (r : ReviewedPreview) : JsValue :=
  .obj [
    (js "slug", .str r.slug),
    (js "preflightId", .str r.preflightId),
    (js "artifactDigest", .str r.artifactDigest),
    (js "candidateTreeSha", .str r.candidateTreeSha),
    (js "previewCompletedAt", integer r.previewCompletedAt)]

def PreviewReceiptV1.json (p : PreviewReceiptV1) : JsValue :=
  .obj [
    (js "version", integer 1),
    (js "kind", .str (js "preview_receipt")),
    (js "campaignId", .str p.campaignId),
    (js "manifestDigest", .str p.manifestDigest),
    (js "repository", p.repository.json),
    (js "expiresAt", integer p.expiresAt),
    (js "nonce", .str p.nonce)]

/-- `JSON.stringify` of the payload. -/
def PreviewReceiptV2.text (env : Environment Execution) (p : PreviewReceiptV2 Execution) :
    JsString :=
  0x7b :: joinComma [
    memberText (js "version") (compactText (integer 2)),
    memberText (js "kind") (quote (js "preview_receipt")),
    memberText (js "campaignId") (quote p.campaignId),
    memberText (js "manifestDigest") (quote p.manifestDigest),
    memberText (js "repository") (compactText p.repository.json),
    memberText (js "execution") (env.executionText p.execution),
    memberText (js "expiresAt") (compactText (integer p.expiresAt)),
    memberText (js "nonce") (quote p.nonce)] ++ [0x7d]

def OwnerChallengeReceipt.json (p : OwnerChallengeReceipt) : JsValue :=
  .obj [
    (js "version", integer 1),
    (js "kind", .str (js "owner_challenge_receipt")),
    (js "campaignId", .str p.campaignId),
    (js "manifestDigest", .str p.manifestDigest),
    (js "repository", p.repository.json),
    (js "previewReceiptDigest", .str p.previewReceiptDigest),
    (js "ownerChallengeDigest", .str p.ownerChallengeDigest),
    (js "expiresAt", integer p.expiresAt),
    (js "nonce", .str p.nonce)]

def OperatorApproval.json (p : OperatorApproval) : JsValue :=
  .obj [
    (js "version", integer 2),
    (js "kind", .str (js "operator_publication_approval")),
    (js "campaignId", .str p.campaignId),
    (js "manifestDigest", .str p.manifestDigest),
    (js "repository", p.repository.json),
    (js "ownerChallengeDigest", .str p.ownerChallengeDigest),
    (js "ownerAuthorizationDigest", .str p.ownerAuthorizationDigest),
    (js "confirmationPhrase", .str p.confirmationPhrase),
    (js "expiresAt", integer p.expiresAt),
    (js "nonce", .str p.nonce)]

/-! ### Validation -/

def asRecord (value : JsValue) (e : Failure) : Except Failure (List Member) :=
  match value with
  | .obj ms => .ok ms
  | _ => .error e

/-- The expected keys are given in their order. -/
def assertExactKeys (ms : List Member) (expected : List String) : Except Failure Unit :=
  reject ((sortByKey ms).map Prod.fst ≠ expected.map js) (invalid "invalid signed token payload")

def field (ms : List Member) (key : String) : JsValue := getMember ms (js key)

def validCampaignId (value : JsValue) : Except Failure JsString :=
  match value with
  | .str s => do
    reject (s.length = 0 ∨ 128 < s.length) (invalid "invalid campaign id")
    return s
  | _ => throw (invalid "invalid campaign id")

def validDigest (value : JsValue) (label : String) : Except Failure JsString :=
  match value with
  | .str s => do
    reject (isDigestText s = false) (invalid s!"invalid {label}")
    return s
  | _ => throw (invalid s!"invalid {label}")

/-- `^[A-Za-z0-9_-]{16,64}$` -/
def isNonce (s : JsString) : Bool :=
  decide (16 ≤ s.length ∧ s.length ≤ 64) && s.all (isAlphanumericOr "_-")

def validNonce (value : JsValue) : Except Failure JsString :=
  match value with
  | .str s => do
    reject (isNonce s = false) (invalid "invalid token nonce")
    return s
  | _ => throw (invalid "invalid token nonce")

def validTimestamp (value : JsValue) (label : String) : Except Failure ℤ :=
  match value with
  | .num n => do
    let i ← orThrow (safeInteger n) (invalid s!"invalid {label}")
    reject (i < 0) (invalid s!"invalid {label}")
    return i
  | _ => throw (invalid s!"invalid {label}")

/-- The clock reads whole milliseconds. -/
def validNow (now : ℤ) : Except Failure ℤ := validTimestamp (integer now) "clock"

/-- `normalizeRepoSlugs` of one candidate. -/
def normalizeRepoSlug (candidate : JsValue) : Except Failure JsString :=
  match candidate with
  | .str s =>
    let slug := trim s
    let failure := Failure.httpInput
      (js "invalid GitHub repository slug: " ++ if slug = [] then js "(empty)" else slug) 400
    match splitSlash slug with
    | [owner, repo] => do
      reject (isOwnerName owner = false ∨ isRepositoryName repo = false ∨ repo = js "." ∨
        repo = js "..") failure
      return slug
    | _ => throw failure
  | _ => throw (invalid "each repo slug must be a string")

/-- `^pf_[a-f0-9]{64}$` -/
def isPreflightId (s : JsString) : Bool := startsWith s "pf_" && isHexOfLength 64 (s.drop 3)

/-- `^(?:sha256:)?[a-f0-9]{64}$` -/
def isArtifactDigest (s : JsString) : Bool := isDigestText s || isHexOfLength 64 s

/-- `^(?:[a-f0-9]{40}|[a-f0-9]{64})$` -/
def isGitSha (s : JsString) : Bool := isHexOfLength 40 s || isHexOfLength 64 s

/-- A member of a reviewed preview that must be a string of some form. -/
def formed (value : JsValue) (form : JsString → Bool) (label : String) (slug : JsString) :
    Except Failure JsString :=
  let failure := Failure.httpInput (js s!"missing valid {label} for " ++ slug) 409
  match value with
  | .str s => do
    reject (form s = false) failure
    return s
  | _ => throw failure

def reviewedPreviewKeys : List String :=
  ["artifactDigest", "candidateTreeSha", "preflightId", "previewCompletedAt", "slug"]

def validateReviewedPreview (value : JsValue) : Except Failure ReviewedPreview := do
  let record ← asRecord value (invalid "invalid reviewed preview")
  assertExactKeys record reviewedPreviewKeys
  let slug ← normalizeRepoSlug (field record "slug")
  let preflightId ← formed (field record "preflightId") isPreflightId "preflight id" slug
  let artifactDigest ← formed (field record "artifactDigest") isArtifactDigest "artifact digest" slug
  let candidateTreeSha ← formed (field record "candidateTreeSha") isGitSha "candidate tree" slug
  let previewCompletedAt ←
    validTimestamp (field record "previewCompletedAt") "preview completion time"
  return { slug, preflightId, artifactDigest, candidateTreeSha, previewCompletedAt }

/-- `sha256` -/
def sha256Text (env : Environment Execution) (s : JsString) : JsString :=
  js "sha256:" ++ env.sha256.hex (utf8Encode s)

def digestManifest (env : Environment Execution) (manifestJson : JsString) :
    Except Failure JsString := do
  let text ← env.canonicalManifest manifestJson
  return sha256Text env text

def digestOwnerAuthorizationEnvelope (env : Environment Execution) (envelope : JsString) :
    JsString :=
  sha256Text env envelope

def validateOwnerAuthorizationEnvelope (value : JsValue) : Except Failure JsString :=
  let failure :=
    invalid "a non-empty ownerAuthorizationEnvelope of at most 65536 bytes is required"
  match value with
  | .str s => do
    reject (byteLength s = 0 ∨ maxOwnerEnvelopeBytes < byteLength s) failure
    return s
  | _ => throw failure

/-- `canonicalJson` of a reviewed preview. -/
def ReviewedPreview.canonicalJson (r : ReviewedPreview) : JsString := compactText r.json.sorted

/-! ### Tokens -/

inductive Kind
  | previewV1
  | previewV2
  | ownerChallenge
  | operatorApproval
  deriving DecidableEq

/-- `PREVIEW_RECEIPT_V1_PREFIX` and its siblings. -/
def Kind.tag : Kind → JsString
  | .previewV1 => js "preview-v1"
  | .previewV2 => js "preview-v2"
  | .ownerChallenge => js "owner-challenge-v1"
  | .operatorApproval => js "operator-v2"

/-- `PREVIEW_RECEIPT_V1_DOMAIN` and its siblings, without the NUL that ends each. -/
def Kind.domainName : Kind → JsString
  | .previewV1 => js "api-migrator:console-preview-receipt:v1"
  | .previewV2 => js "api-migrator:console-preview-receipt:v2"
  | .ownerChallenge => js "api-migrator:console-owner-challenge-receipt:v1"
  | .operatorApproval => js "api-migrator:console-operator-approval:v2"

/-- The parameter of a call that carries a token of the kind. -/
def Kind.label : Kind → JsString
  | .previewV1 | .previewV2 => js "previewReceipt"
  | .ownerChallenge => js "ownerChallengeReceipt"
  | .operatorApproval => js "operatorApprovalToken"

/-- A blank between a small letter and a capital. -/
def splitCamel : JsString → JsString
  | a :: b :: rest =>
    if isLowerLetter a && isUpperLetter b then a :: 0x20 :: splitCamel (b :: rest)
    else a :: splitCamel (b :: rest)
  | s => s

def humanLabel (label : JsString) : JsString := asciiLower (splitCamel label)

/-- What is signed: the domain, its NUL, and the encoded payload. -/
def message (kind : Kind) (encoded : JsString) : Bytes :=
  utf8Encode kind.domainName ++ 0 :: utf8Encode encoded

def signature (env : Environment Execution) (kind : Kind) (encoded : JsString) :
    Except Failure JsString :=
  match env.secret with
  | some secret => do
    reject (byteLength secret < 32)
      (.other (js "OPERATOR_APPROVAL_SECRET must be at least 32 bytes"))
    return base64url (env.hmac (utf8Encode secret) (message kind encoded))
  | none => throw (.other (js "OPERATOR_APPROVAL_SECRET must be at least 32 bytes"))

/-- The three parts of a token. -/
def assemble (kind : Kind) (encoded signed : JsString) : JsString :=
  kind.tag ++ 0x2e :: encoded ++ 0x2e :: signed

def encodeToken (env : Environment Execution) (kind : Kind) (text : JsString) :
    Except Failure JsString := do
  let encoded := base64url (utf8Encode text)
  let signed ← signature env kind encoded
  return assemble kind encoded signed

/-- `split(".")` -/
def splitDot (s : JsString) : List JsString := s.splitOn 0x2e

def decodeToken (env : Environment Execution) (kind : Kind) (token : JsValue) :
    Except Failure (List Member) :=
  let failure := Failure.httpInput (js "invalid " ++ humanLabel kind.label) 400
  match token with
  | .str s =>
    match splitDot s with
    | [tag, encoded, signed] => do
      reject (tag ≠ kind.tag ∨ encoded = [] ∨ signed = []) failure
      let expected ← signature env kind encoded
      reject (utf8Encode signed ≠ utf8Encode expected) failure
      let value ← orThrow (jsonParse (utf8Decode (base64Decode encoded))) failure
      asRecord value failure
    | _ => throw failure
  | _ => throw (.httpInput (kind.label ++ js " required") 400)

/-! ### Reading payloads -/

/-- Equality of a member with a string. -/
def isString (value : JsValue) (s : JsString) : Bool :=
  match value with
  | .str t => decide (t = s)
  | _ => false

/-- Equality of a member with a number. -/
def isInteger (value : JsValue) (i : ℤ) : Bool :=
  match value with
  | .num n => decide (n = .int i)
  | _ => false

def parsePreviewReceiptV1 (raw : List Member) : Except Failure PreviewReceiptV1 := do
  assertExactKeys raw
    ["campaignId", "expiresAt", "kind", "manifestDigest", "nonce", "repository", "version"]
  reject (isInteger (field raw "version") 1 = false ∨
    isString (field raw "kind") (js "preview_receipt") = false) (invalid "invalid preview receipt")
  let campaignId ← validCampaignId (field raw "campaignId")
  let manifestDigest ← validDigest (field raw "manifestDigest") "manifest digest"
  let repository ← validateReviewedPreview (field raw "repository")
  let expiresAt ← validTimestamp (field raw "expiresAt") "preview receipt expiry"
  let nonce ← validNonce (field raw "nonce")
  return { campaignId, manifestDigest, repository, expiresAt, nonce }

def localPreviewExecution (env : Environment Execution) (value : JsValue) :
    Except Failure Execution :=
  orThrow (env.validateLocalPreviewExecution value) (invalid "invalid local preview execution")

def parsePreviewReceiptV2 (env : Environment Execution) (raw : List Member) :
    Except Failure (PreviewReceiptV2 Execution) := do
  assertExactKeys raw
    ["campaignId", "execution", "expiresAt", "kind", "manifestDigest", "nonce", "repository",
      "version"]
  reject (isInteger (field raw "version") 2 = false ∨
    isString (field raw "kind") (js "preview_receipt") = false) (invalid "invalid preview receipt")
  let campaignId ← validCampaignId (field raw "campaignId")
  let manifestDigest ← validDigest (field raw "manifestDigest") "manifest digest"
  let repository ← validateReviewedPreview (field raw "repository")
  let execution ← localPreviewExecution env (field raw "execution")
  let expiresAt ← validTimestamp (field raw "expiresAt") "preview receipt expiry"
  let nonce ← validNonce (field raw "nonce")
  return { campaignId, manifestDigest, repository, execution, expiresAt, nonce }

def previewReceiptTokenVersion (token : JsValue) : Except Failure Kind :=
  match token with
  | .str s =>
    if startsWith s "preview-v1." then return .previewV1
    else if startsWith s "preview-v2." then return .previewV2
    else throw (invalid "invalid preview receipt")
  | _ => throw (invalid "previewReceipt required")

/-- The payload of a preview receipt of either version. -/
def previewPayload (env : Environment Execution) (token : JsValue) :
    Except Failure (PreviewReceipt Execution) := do
  let kind ← previewReceiptTokenVersion token
  let raw ← decodeToken env kind token
  if kind = .previewV2 then
    let payload ← parsePreviewReceiptV2 env raw
    return .v2 payload
  else
    let payload ← parsePreviewReceiptV1 raw
    return .v1 payload

def challengePayload (env : Environment Execution) (token : JsValue) :
    Except Failure OwnerChallengeReceipt := do
  let raw ← decodeToken env .ownerChallenge token
  assertExactKeys raw
    ["campaignId", "expiresAt", "kind", "manifestDigest", "nonce", "ownerChallengeDigest",
      "previewReceiptDigest", "repository", "version"]
  reject (isInteger (field raw "version") 1 = false ∨
    isString (field raw "kind") (js "owner_challenge_receipt") = false)
    (invalid "invalid owner challenge receipt")
  let campaignId ← validCampaignId (field raw "campaignId")
  let manifestDigest ← validDigest (field raw "manifestDigest") "manifest digest"
  let repository ← validateReviewedPreview (field raw "repository")
  let previewReceiptDigest ← validDigest (field raw "previewReceiptDigest") "preview receipt digest"
  let ownerChallengeDigest ← validDigest (field raw "ownerChallengeDigest") "owner challenge digest"
  let expiresAt ← validTimestamp (field raw "expiresAt") "owner challenge expiry"
  let nonce ← validNonce (field raw "nonce")
  return {
    campaignId, manifestDigest, repository, previewReceiptDigest, ownerChallengeDigest, expiresAt,
    nonce }

/-- `PUBLISH`, the repository and the first twelve digits of the envelope's digest. -/
def confirmationPhrase (slug ownerAuthorizationDigest : JsString) : JsString :=
  js "PUBLISH " ++ slug ++ js " " ++ (ownerAuthorizationDigest.drop 7).take 12

def operatorPayload (env : Environment Execution) (token : JsValue) :
    Except Failure OperatorApproval := do
  let raw ← decodeToken env .operatorApproval token
  assertExactKeys raw
    ["campaignId", "confirmationPhrase", "expiresAt", "kind", "manifestDigest", "nonce",
      "ownerAuthorizationDigest", "ownerChallengeDigest", "repository", "version"]
  reject (isInteger (field raw "version") 2 = false ∨
    isString (field raw "kind") (js "operator_publication_approval") = false)
    (invalid "invalid operator approval token")
  let repository ← validateReviewedPreview (field raw "repository")
  let ownerChallengeDigest ← validDigest (field raw "ownerChallengeDigest") "owner challenge digest"
  let ownerAuthorizationDigest ←
    validDigest (field raw "ownerAuthorizationDigest") "owner authorization digest"
  let expectedPhrase := confirmationPhrase repository.slug ownerAuthorizationDigest
  reject (isString (field raw "confirmationPhrase") expectedPhrase = false)
    (invalid "invalid operator approval token")
  let campaignId ← validCampaignId (field raw "campaignId")
  let manifestDigest ← validDigest (field raw "manifestDigest") "manifest digest"
  let expiresAt ← validTimestamp (field raw "expiresAt") "operator approval expiry"
  let nonce ← validNonce (field raw "nonce")
  return {
    campaignId, manifestDigest, repository, ownerChallengeDigest, ownerAuthorizationDigest,
    confirmationPhrase := expectedPhrase, expiresAt, nonce }

/-! ### One-shot maps -/

/-- What was used, under its digest, with its expiry. -/
abbrev OneShots := List (JsString × ℤ)

/-- A computation over a one-shot map, which keeps what was done to it when it throws. -/
def Act (α : Type) : Type := OneShots → Except Failure α × OneShots

namespace Act

variable {α β : Type}

/-- A computation that does not look at the map. -/
def lift (outcome : Except Failure α) : Act α := fun store ↦ (outcome, store)

def bind (x : Act α) (f : α → Act β) : Act β := fun store ↦
  match x store with
  | (.ok a, store) => f a store
  | (.error e, store) => (.error e, store)

instance : Monad Act where
  pure a := lift (.ok a)
  bind := bind

end Act

/-- Drops what has expired. -/
def purge (now : ℤ) (store : OneShots) : OneShots := store.filter fun entry ↦ decide (now < entry.2)

def oneShotKey (env : Environment Execution) (token : JsString) : JsString :=
  env.sha256.hex (utf8Encode token)

def assertOneShotUnused (env : Environment Execution) (token : JsString) (now : ℤ)
    (label : String) : Act JsString := fun store ↦
  let key := oneShotKey env token
  if key ∈ (purge now store).map Prod.fst then
    (.error (conflict s!"{label} was already used; run a new preview"), purge now store)
  else (.ok key, purge now store)

/-- `store.set` of a key that is not there. -/
def remember (key : JsString) (expiresAt : ℤ) : Act Unit := fun store ↦
  (.ok (), store ++ [(key, expiresAt)])

def consumeOneShot (env : Environment Execution) (token : JsString) (expiresAt now : ℤ)
    (label : String) : Act Unit := do
  let key ← assertOneShotUnused env token now label
  remember key expiresAt

/-! ### The functions of the ceremony -/

structure PreviewInput where
  campaignId : JsString
  manifestJson : JsString
  repository : JsValue
  execution : Option JsValue
  now : ℤ
  random : Bytes

structure PreviewReceiptReply where
  previewReceipt : JsString
  expiresAt : ℤ
  repository : ReviewedPreview
  manifestDigest : JsString

def checkedExpiry (completedAt now : ℤ) : Except Failure ℤ := do
  reject (now < completedAt) (invalid "preview completion time is in the future")
  let expiresAt := completedAt + tokenTtlMs
  reject (isSafe expiresAt = false) (invalid "invalid preview receipt expiry")
  return expiresAt

def validateLocalReceiptBindings (env : Environment Execution)
    (payload : PreviewReceiptV2 Execution) (now : ℤ) : Except Failure Unit := do
  let completion := payload.repository.previewCompletedAt
  reject (now < completion) (invalid "preview completion time is in the future")
  let maximumExpiry ← checkedExpiry completion now
  reject (payload.expiresAt ≤ completion ∨ maximumExpiry < payload.expiresAt)
    (invalid "invalid local preview receipt lifetime")
  match env.executionSource payload.execution with
  | some (slug, manifestDigest) => do
    reject (env.canonicalSlug slug ≠ env.canonicalSlug payload.repository.slug)
      (invalid "preview source repository does not match receipt")
    reject (manifestDigest ≠ payload.manifestDigest)
      (invalid "preview source manifest does not match receipt")
  | none => return ()

def createLocalPreviewReceiptPayload (env : Environment Execution)
    (campaignId manifestDigest : JsString) (repository : ReviewedPreview) (execution : JsValue)
    (now : ℤ) (nonce : JsString) : Except Failure (PreviewReceiptV2 Execution) := do
  let execution ← localPreviewExecution env execution
  let expiresAt ← checkedExpiry repository.previewCompletedAt now
  let payload : PreviewReceiptV2 Execution :=
    { campaignId, manifestDigest, repository, execution, expiresAt, nonce }
  validateLocalReceiptBindings env payload now
  reject (payload.expiresAt ≤ now) (conflict "preview receipt expired; run a new preview")
  return payload

def createPreviewReceipt (env : Environment Execution) (input : PreviewInput) :
    Except Failure PreviewReceiptReply := do
  let repository ← validateReviewedPreview input.repository
  let now ← validNow input.now
  let campaignId ← validCampaignId (.str input.campaignId)
  let manifestDigest ← digestManifest env input.manifestJson
  let nonce := base64url input.random
  match input.execution with
  | none => do
    let expiresAt ← checkedExpiry now now
    let payload : PreviewReceiptV1 := { campaignId, manifestDigest, repository, expiresAt, nonce }
    let previewReceipt ← encodeToken env .previewV1 (compactText payload.json)
    return { previewReceipt, expiresAt, repository, manifestDigest }
  | some execution => do
    let payload ← createLocalPreviewReceiptPayload env campaignId manifestDigest repository
      execution now nonce
    let previewReceipt ← encodeToken env .previewV2 (payload.text env)
    return { previewReceipt, expiresAt := payload.expiresAt, repository, manifestDigest }

structure ReceiptInput where
  previewReceipt : JsValue
  campaignId : JsString
  manifestJson : JsString
  now : ℤ

/-- The text of a token that was read as one. -/
def tokenText : JsValue → JsString
  | .str s => s
  | _ => []

/-- The payload is of this campaign and its manifest, which is not read for another campaign. -/
def matchCampaign (env : Environment Execution) (campaignId manifestDigest : JsString)
    (inputCampaignId manifestJson : JsString) (e : Failure) : Except Failure Unit := do
  reject (campaignId ≠ inputCampaignId) e
  let expected ← digestManifest env manifestJson
  reject (manifestDigest ≠ expected) e

/-- Only a receipt with a local execution record has bindings to validate. -/
def PreviewReceipt.validateBindings (env : Environment Execution)
    (payload : PreviewReceipt Execution) (now : ℤ) : Except Failure Unit :=
  match payload with
  | .v1 _ => .ok ()
  | .v2 payload => validateLocalReceiptBindings env payload now

/-- `verifyPreviewReceipt` up to the one-shot check. -/
def readPreviewReceipt (env : Environment Execution) (input : ReceiptInput) :
    Except Failure (PreviewReceipt Execution) := do
  let payload ← previewPayload env input.previewReceipt
  matchCampaign env payload.base.campaignId payload.base.manifestDigest input.campaignId
    input.manifestJson (invalid "preview receipt does not match this campaign")
  let now ← validNow input.now
  payload.validateBindings env now
  reject (payload.base.expiresAt ≤ now) (conflict "preview receipt expired; run a new preview")
  return payload

def verifyPreviewReceipt (env : Environment Execution) (input : ReceiptInput) :
    Act (PreviewReceipt Execution) := do
  let payload ← Act.lift (readPreviewReceipt env input)
  let _ ← assertOneShotUnused env (tokenText input.previewReceipt) input.now "preview receipt"
  return payload

structure ChallengeInput extends ReceiptInput where
  ownerChallengeDigest : JsValue
  challengeExpiresAt : JsValue
  random : Bytes

structure ChallengeReply where
  ownerChallengeReceipt : JsString
  ownerChallengeDigest : JsString
  expiresAt : ℤ
  repository : ReviewedPreview
  manifestDigest : JsString

/-- A preview receipt without a local execution record. -/
def withoutExecution (preview : PreviewReceipt Execution) (e : Failure) :
    Except Failure PreviewReceiptV1 :=
  match preview with
  | .v1 payload => .ok payload
  | .v2 _ => .error e

def createOwnerChallengeReceipt (env : Environment Execution) (input : ChallengeInput) :
    Act ChallengeReply := do
  let now ← Act.lift (validNow input.now)
  let preview ← verifyPreviewReceipt env input.toReceiptInput
  let preview ← Act.lift (withoutExecution preview
    (conflict "local preview receipt cannot prepare an owner challenge"))
  Act.lift do
    let ownerChallengeDigest ← validDigest input.ownerChallengeDigest "owner challenge digest"
    let expiresAt ← validTimestamp input.challengeExpiresAt "owner challenge expiry"
    reject (expiresAt ≤ now) (conflict "owner challenge expired; generate a new challenge")
    reject (preview.expiresAt < expiresAt)
      (conflict "owner challenge outlives its preview receipt")
    let payload : OwnerChallengeReceipt := {
      campaignId := preview.campaignId
      manifestDigest := preview.manifestDigest
      repository := preview.repository
      previewReceiptDigest := sha256Text env (tokenText input.previewReceipt)
      ownerChallengeDigest
      expiresAt
      nonce := base64url input.random }
    let ownerChallengeReceipt ← encodeToken env .ownerChallenge (compactText payload.json)
    return {
      ownerChallengeReceipt
      ownerChallengeDigest
      expiresAt
      repository := payload.repository
      manifestDigest := payload.manifestDigest }

structure ChallengeReceiptInput extends ReceiptInput where
  ownerChallengeReceipt : JsValue

def verifyOwnerChallengeReceipt (env : Environment Execution) (input : ChallengeReceiptInput) :
    Act OwnerChallengeReceipt := do
  let now ← Act.lift (validNow input.now)
  let payload ← Act.lift (challengePayload env input.ownerChallengeReceipt)
  Act.lift do
    matchCampaign env payload.campaignId payload.manifestDigest input.campaignId input.manifestJson
      (invalid "owner challenge receipt does not match this campaign")
    reject (payload.expiresAt ≤ now) (conflict "owner challenge expired; generate a new challenge")
  let preview ← verifyPreviewReceipt env input.toReceiptInput
  let preview ← Act.lift (withoutExecution preview
    (conflict "local preview receipt cannot verify an owner challenge"))
  Act.lift (reject (payload.previewReceiptDigest ≠ sha256Text env (tokenText input.previewReceipt) ∨
      payload.repository.canonicalJson ≠ preview.repository.canonicalJson ∨
      preview.expiresAt < payload.expiresAt)
    (conflict "owner challenge receipt does not match this preview"))
  return payload

structure ApprovalInput extends ChallengeReceiptInput where
  ownerAuthorizationEnvelope : JsValue
  random : Bytes

structure PreparedOperatorApproval where
  operatorApprovalToken : JsString
  confirmationPhrase : JsString
  expiresAt : ℤ
  ownerChallengeDigest : JsString
  ownerAuthorizationDigest : JsString
  repository : ReviewedPreview
  manifestDigest : JsString

/-- The payload that `prepareOperatorApproval` signs. -/
def approvalPayload (env : Environment Execution) (challenge : OwnerChallengeReceipt)
    (envelope : JsString) (now : ℤ) (random : Bytes) : OperatorApproval :=
  let ownerAuthorizationDigest := digestOwnerAuthorizationEnvelope env envelope
  { campaignId := challenge.campaignId
    manifestDigest := challenge.manifestDigest
    repository := challenge.repository
    ownerChallengeDigest := challenge.ownerChallengeDigest
    ownerAuthorizationDigest
    confirmationPhrase := confirmationPhrase challenge.repository.slug ownerAuthorizationDigest
    expiresAt := min challenge.expiresAt (now + tokenTtlMs)
    nonce := base64url random }

def prepareOperatorApproval (env : Environment Execution) (input : ApprovalInput) :
    Act PreparedOperatorApproval := do
  let now ← Act.lift (validNow input.now)
  let challenge ← verifyOwnerChallengeReceipt env input.toChallengeReceiptInput
  let preview ← verifyPreviewReceipt env input.toReceiptInput
  let envelope ← Act.lift (validateOwnerAuthorizationEnvelope input.ownerAuthorizationEnvelope)
  let payload := approvalPayload env challenge envelope now input.random
  Act.lift (reject (payload.expiresAt ≤ now)
    (conflict "preview receipt expired; run a new preview"))
  let operatorApprovalToken ← Act.lift
    (encodeToken env .operatorApproval (compactText payload.json))
  consumeOneShot env (tokenText input.previewReceipt) preview.base.expiresAt now "preview receipt"
  return {
    operatorApprovalToken
    confirmationPhrase := payload.confirmationPhrase
    expiresAt := payload.expiresAt
    ownerChallengeDigest := payload.ownerChallengeDigest
    ownerAuthorizationDigest := payload.ownerAuthorizationDigest
    repository := payload.repository
    manifestDigest := payload.manifestDigest }

structure TokenInput where
  operatorApprovalToken : JsValue
  confirmation : JsValue
  ownerAuthorizationEnvelope : JsValue
  campaignId : JsString
  manifestJson : JsString
  now : ℤ

def verifyOperatorApprovalToken (env : Environment Execution) (input : TokenInput) :
    Except Failure OperatorApproval := do
  let envelope ← validateOwnerAuthorizationEnvelope input.ownerAuthorizationEnvelope
  let payload ← operatorPayload env input.operatorApprovalToken
  let failure := invalid "operator approval does not match this publication"
  matchCampaign env payload.campaignId payload.manifestDigest input.campaignId input.manifestJson
    failure
  reject (payload.ownerAuthorizationDigest ≠ digestOwnerAuthorizationEnvelope env envelope) failure
  let now ← validNow input.now
  reject (payload.expiresAt ≤ now) (conflict "operator approval expired; run a new preview")
  reject (isString input.confirmation payload.confirmationPhrase = false)
    (.httpInput (js "type " ++ payload.confirmationPhrase ++ js " to publish") 409)
  return payload

def consumeOperatorApprovalToken (env : Environment Execution) (token : JsString)
    (expiresAt now : ℤ) : Act Unit :=
  consumeOneShot env token expiresAt now "operator approval"

end ApiMigrator.Console.Approval
