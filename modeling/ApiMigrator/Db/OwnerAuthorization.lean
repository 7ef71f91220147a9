import ApiMigrator.Foundation.GitNames
import ApiMigrator.Foundation.Json

/-!
`repo.ts`: what a caller asks the owner-authorization ledger to consume, and the audit that turns
it into the row to be written. The audit removes the optional `sha256:` prefix of a digest and
lowercases the repository slug; everything else is stored as given or refused.
-/

set_option autoImplicit false
set_option relaxedAutoImplicit false

namespace ApiMigrator.Db

open Foundation.Text Foundation.Number Foundation.Json Foundation.Outcome Foundation.Pattern
open Foundation.GitNames

structure OwnerAuthorizationConsumptionInput where
  authorizationId : JsValue
  envelopeId : JsValue
  envelopeDigest : JsValue
  nonceDigest : JsValue
  signerId : JsValue
  keyId : JsValue
  repositorySlug : JsValue
  repositoryId : JsValue
  baseSha : JsValue
  preflightId : JsValue
  artifactDigest : JsValue
  manifestDigest : JsValue
  candidateBranch : JsValue
  candidateTreeSha : JsValue
  expiresAt : JsValue

/-- `OwnerAuthorizationLedgerInsert`: a row without the time of its consumption. -/
structure LedgerInsert where
  authorizationId : JsString
  envelopeId : JsString
  envelopeDigest : JsString
  nonceDigest : JsString
  signerId : JsString
  keyId : JsString
  repositorySlug : JsString
  repositoryId : ℤ
  baseSha : JsString
  preflightId : JsString
  artifactDigest : JsString
  manifestDigest : JsString
  candidateBranch : JsString
  candidateTreeSha : JsString
  expiresAt : ℤ
  deriving DecidableEq

/-- `OwnerAuthorizationConsumption`: a row of `owner_authorization_consumptions`. -/
structure Consumption extends LedgerInsert where
  consumedAt : ℤ
  deriving DecidableEq

/-! ### The audit -/

def maxAuditTimestamp : ℤ := 8640000000000000

/-- `^[A-Za-z0-9][A-Za-z0-9._:@+-]*$` -/
def isIdentifier : JsString → Bool
  | [] => false
  | c :: rest => isAlphanumeric c && rest.all (isAlphanumericOr "._:@+-")

def auditIdentifier (value : JsValue) (label : String) : Except String JsString :=
  match value with
  | .str s => do
    reject (s.length < 1 ∨ 128 < s.length ∨ s ≠ trim s ∨ isIdentifier s = false)
      s!"invalid owner authorization {label}"
    return s
  | _ => throw s!"invalid owner authorization {label}"

/-- A digest without its optional `sha256:` prefix. -/
def canonicalDigest (s : JsString) : JsString := if startsWith s "sha256:" then s.drop 7 else s

def auditSha256 (value : JsValue) (label : String) : Except String JsString :=
  match value with
  | .str s => do
    reject (isHexOfLength 64 (canonicalDigest s) = false) s!"invalid owner authorization {label}"
    return canonicalDigest s
  | _ => throw s!"invalid owner authorization {label}"

def auditGitSha (value : JsValue) (label : String) : Except String JsString :=
  match value with
  | .str s => do
    reject (isHexOfLength 40 s = false ∧ isHexOfLength 64 s = false)
      s!"invalid owner authorization {label}"
    return s
  | _ => throw s!"invalid owner authorization {label}"

def auditPreflightId (value : JsValue) : Except String JsString :=
  match value with
  | .str s => do
    reject (startsWith s "pf_" = false ∨ isHexOfLength 64 (s.drop 3) = false)
      "invalid owner authorization preflightId"
    return s
  | _ => throw "invalid owner authorization preflightId"

def auditGitHubId (value : JsValue) : Except String ℤ :=
  match value with
  | .num n => do
    let i ← orThrow (safeInteger n) "invalid owner authorization repositoryId"
    reject (i ≤ 0) "invalid owner authorization repositoryId"
    return i
  | _ => throw "invalid owner authorization repositoryId"

def auditTimestamp (value : JsValue) (label : String) : Except String ℤ :=
  match value with
  | .num n => do
    let i ← orThrow (safeInteger n) s!"invalid owner authorization {label}"
    reject (i ≤ 0 ∨ maxAuditTimestamp < i) s!"invalid owner authorization {label}"
    return i
  | _ => throw s!"invalid owner authorization {label}"

def auditRepositorySlug (value : JsValue) : Except String JsString :=
  match value with
  | .str s => do
    reject (s ≠ trim s) "invalid owner authorization repositorySlug"
    match splitSlash s with
    | [owner, repo] => do
      reject (isOwnerName owner = false ∨ includes owner "--" = true ∨
        isRepositoryName repo = false ∨ repo = js "." ∨ repo = js ".." ∨
        endsWith (asciiLower repo) ".git" = true) "invalid owner authorization repositorySlug"
      return asciiLower (owner ++ js "/" ++ repo)
    | _ => throw "invalid owner authorization repositorySlug"
  | _ => throw "invalid owner authorization repositorySlug"

def auditGitBranch (value : JsValue) : Except String JsString :=
  match value with
  | .str s => do
    reject (isBranchName s = false) "invalid owner authorization candidateBranch"
    return s
  | _ => throw "invalid owner authorization candidateBranch"

/-- The audited row, checked in the order of `consumeOwnerAuthorization`. -/
def auditConsumption (input : OwnerAuthorizationConsumptionInput) : Except String LedgerInsert := do
  let expiresAt ← auditTimestamp input.expiresAt "expiresAt"
  let authorizationId ← auditIdentifier input.authorizationId "authorizationId"
  let envelopeId ← auditIdentifier input.envelopeId "envelopeId"
  let envelopeDigest ← auditSha256 input.envelopeDigest "envelopeDigest"
  let nonceDigest ← auditSha256 input.nonceDigest "nonceDigest"
  let signerId ← auditIdentifier input.signerId "signerId"
  let keyId ← auditIdentifier input.keyId "keyId"
  let repositorySlug ← auditRepositorySlug input.repositorySlug
  let repositoryId ← auditGitHubId input.repositoryId
  let baseSha ← auditGitSha input.baseSha "baseSha"
  let preflightId ← auditPreflightId input.preflightId
  let artifactDigest ← auditSha256 input.artifactDigest "artifactDigest"
  let manifestDigest ← auditSha256 input.manifestDigest "manifestDigest"
  let candidateBranch ← auditGitBranch input.candidateBranch
  let candidateTreeSha ← auditGitSha input.candidateTreeSha "candidateTreeSha"
  return {
    authorizationId, envelopeId, envelopeDigest, nonceDigest, signerId, keyId, repositorySlug,
    repositoryId, baseSha, preflightId, artifactDigest, manifestDigest, candidateBranch,
    candidateTreeSha, expiresAt }

/-! ### What the audit keeps of the replay keys -/

/-- The four replay keys of a row are those of the input, digests without their prefix. -/
structure KeysOf (input : OwnerAuthorizationConsumptionInput) (row : LedgerInsert) : Prop where
  authorizationId : input.authorizationId = .str row.authorizationId
  envelopeId : input.envelopeId = .str row.envelopeId
  envelopeDigest : ∃ s, input.envelopeDigest = .str s ∧ canonicalDigest s = row.envelopeDigest
  nonceDigest : ∃ s, input.nonceDigest = .str s ∧ canonicalDigest s = row.nonceDigest

/-- The input asks for one of the replay keys of the row. -/
def SharesKeyOf (input : OwnerAuthorizationConsumptionInput) (row : LedgerInsert) : Prop :=
  input.authorizationId = .str row.authorizationId ∨ input.envelopeId = .str row.envelopeId ∨
    (∃ s, input.envelopeDigest = .str s ∧ canonicalDigest s = row.envelopeDigest) ∨
    ∃ s, input.nonceDigest = .str s ∧ canonicalDigest s = row.nonceDigest

theorem auditIdentifier_eq_ok {value : JsValue} {label : String} {s : JsString}
    (h : auditIdentifier value label = .ok s) : value = .str s := by
  unfold auditIdentifier at h
  split at h
  · simp only [bind_eq_ok, reject_eq_ok, exists_unit, pure_eq_ok] at h
    rw [h.2]
  · cases h

theorem auditSha256_eq_ok {value : JsValue} {label : String} {s : JsString}
    (h : auditSha256 value label = .ok s) : ∃ t, value = .str t ∧ canonicalDigest t = s := by
  unfold auditSha256 at h
  split at h
  · rename_i t
    simp only [bind_eq_ok, reject_eq_ok, exists_unit, pure_eq_ok] at h
    exact ⟨t, rfl, h.2⟩
  · cases h

theorem keysOf_of_auditConsumption {input : OwnerAuthorizationConsumptionInput}
    {row : LedgerInsert} (h : auditConsumption input = .ok row) : KeysOf input row := by
  simp only [auditConsumption, bind_eq_ok, pure_eq_ok] at h
  obtain ⟨_, -, _, hauthorization, _, henvelope, _, hdigest, _, hnonce, _, -, _, -, _, -, _, -, _,
    -, _, -, _, -, _, -, _, -, _, -, rfl⟩ := h
  exact {
    authorizationId := auditIdentifier_eq_ok hauthorization
    envelopeId := auditIdentifier_eq_ok henvelope
    envelopeDigest := auditSha256_eq_ok hdigest
    nonceDigest := auditSha256_eq_ok hnonce }

end ApiMigrator.Db
