import ApiMigrator.App.CanonicalJson
import ApiMigrator.App.PublicationRunner
import ApiMigrator.Foundation.Base64

/-!
What an owner approves, in `owner-authorization.ts`: the bindings of one publication, their JSON
values with the members in the order of the canonical text, and the checks of single fields, which
`owner-challenge.ts` makes too.
-/

set_option autoImplicit false
set_option relaxedAutoImplicit false

namespace ApiMigrator.App.OwnerAuthorization

open Foundation.Text Foundation.Number Foundation.Json Foundation.Outcome Foundation.Pattern
open Foundation.GitNames Foundation.Binary
open CanonicalJson PublicationRunner

/-! ### Records -/

structure Repository where
  slug : JsString
  id : ℤ
  ownerId : ℤ
  deriving DecidableEq

structure GitHub where
  appId : ℤ
  installationId : ℤ
  deriving DecidableEq

structure Base where
  branch : JsString
  sha : JsString
  deriving DecidableEq

structure Engine where
  tag : JsString
  commit : JsString
  deriving DecidableEq

structure Manifest where
  byteLength : ℤ
  digest : JsString
  deriving DecidableEq

structure Preview where
  preflightId : JsString
  artifactDigest : JsString
  candidateBranch : JsString
  candidateTreeSha : JsString
  findingsDigest : JsString
  resolutionsDigest : JsString
  commandScopeDigest : JsString
  runnerAttestationDigest : JsString
  rulesetDigest : JsString
  requiredCiDigest : JsString
  deriving DecidableEq

structure ExpectedOwnerAuthorizationBindings where
  pilotId : JsString
  approvalEvidenceDigest : JsString
  preRunAuthorizationDigest : JsString
  previewCompletedAt : ℤ
  authorizationExpiresAt : ℤ
  repository : Repository
  github : GitHub
  base : Base
  engine : Engine
  manifest : Manifest
  preview : Preview
  allowedActions : List JsString
  pullRequestNumber : Option ℤ
  deriving DecidableEq

def integer (i : ℤ) : JsValue := .num (.int i)

def Repository.json (r : Repository) : JsValue :=
  .obj [(js "id", integer r.id), (js "ownerId", integer r.ownerId), (js "slug", .str r.slug)]

def GitHub.json (g : GitHub) : JsValue :=
  .obj [(js "appId", integer g.appId), (js "installationId", integer g.installationId)]

def Base.json (b : Base) : JsValue :=
  .obj [(js "branch", .str b.branch), (js "sha", .str b.sha)]

def Engine.json (e : Engine) : JsValue :=
  .obj [(js "commit", .str e.commit), (js "tag", .str e.tag)]

def Manifest.json (m : Manifest) : JsValue :=
  .obj [(js "byteLength", integer m.byteLength), (js "digest", .str m.digest)]

def Preview.json (p : Preview) : JsValue :=
  .obj [
    (js "artifactDigest", .str p.artifactDigest),
    (js "candidateBranch", .str p.candidateBranch),
    (js "candidateTreeSha", .str p.candidateTreeSha),
    (js "commandScopeDigest", .str p.commandScopeDigest),
    (js "findingsDigest", .str p.findingsDigest),
    (js "preflightId", .str p.preflightId),
    (js "requiredCiDigest", .str p.requiredCiDigest),
    (js "resolutionsDigest", .str p.resolutionsDigest),
    (js "rulesetDigest", .str p.rulesetDigest),
    (js "runnerAttestationDigest", .str p.runnerAttestationDigest)]

def actionsJson (actions : List JsString) : JsValue := .arr (actions.map .str)

def pullRequestJson : Option ℤ → JsValue
  | none => .null
  | some n => integer n

def ExpectedOwnerAuthorizationBindings.json (b : ExpectedOwnerAuthorizationBindings) : JsValue :=
  .obj [
    (js "allowedActions", actionsJson b.allowedActions),
    (js "approvalEvidenceDigest", .str b.approvalEvidenceDigest),
    (js "authorizationExpiresAt", integer b.authorizationExpiresAt),
    (js "base", b.base.json),
    (js "engine", b.engine.json),
    (js "github", b.github.json),
    (js "manifest", b.manifest.json),
    (js "pilotId", .str b.pilotId),
    (js "preRunAuthorizationDigest", .str b.preRunAuthorizationDigest),
    (js "preview", b.preview.json),
    (js "previewCompletedAt", integer b.previewCompletedAt),
    (js "pullRequestNumber", pullRequestJson b.pullRequestNumber),
    (js "repository", b.repository.json)]

/-! ### Canonical texts -/

@[simp]
theorem canonical_integer (i : ℤ) : Canonical (integer i) := canonical_num _

@[simp]
theorem canonical_repository (r : Repository) : Canonical r.json := by
  refine canonical_obj ?_ (by simp)
  change (["id", "ownerId", "slug"].map js).Pairwise (· < ·)
  decide

@[simp]
theorem canonical_github (g : GitHub) : Canonical g.json := by
  refine canonical_obj ?_ (by simp)
  change (["appId", "installationId"].map js).Pairwise (· < ·)
  decide

@[simp]
theorem canonical_base (b : Base) : Canonical b.json := by
  refine canonical_obj ?_ (by simp)
  change (["branch", "sha"].map js).Pairwise (· < ·)
  decide

@[simp]
theorem canonical_engine (e : Engine) : Canonical e.json := by
  refine canonical_obj ?_ (by simp)
  change (["commit", "tag"].map js).Pairwise (· < ·)
  decide

@[simp]
theorem canonical_manifest (m : Manifest) : Canonical m.json := by
  refine canonical_obj ?_ (by simp)
  change (["byteLength", "digest"].map js).Pairwise (· < ·)
  decide

@[simp]
theorem canonical_preview (p : Preview) : Canonical p.json := by
  refine canonical_obj ?_ (by simp)
  change (["artifactDigest", "candidateBranch", "candidateTreeSha", "commandScopeDigest",
    "findingsDigest", "preflightId", "requiredCiDigest", "resolutionsDigest", "rulesetDigest",
    "runnerAttestationDigest"].map js).Pairwise (· < ·)
  decide

@[simp]
theorem canonical_actions (actions : List JsString) : Canonical (actionsJson actions) := by
  refine canonical_arr fun x hx ↦ ?_
  obtain ⟨action, -, rfl⟩ := List.mem_map.mp hx
  exact canonical_str action

@[simp]
theorem canonical_pullRequest (number : Option ℤ) : Canonical (pullRequestJson number) := by
  cases number <;> simp [pullRequestJson]

@[simp]
theorem canonical_bindings (b : ExpectedOwnerAuthorizationBindings) : Canonical b.json := by
  refine canonical_obj ?_ (by simp)
  change (["allowedActions", "approvalEvidenceDigest", "authorizationExpiresAt", "base", "engine",
    "github", "manifest", "pilotId", "preRunAuthorizationDigest", "preview", "previewCompletedAt",
    "pullRequestNumber", "repository"].map js).Pairwise (· < ·)
  decide

theorem actionsJson_injective {actions actions' : List JsString}
    (h : actionsJson actions = actionsJson actions') : actions = actions' :=
  List.map_injective_iff.mpr (fun _ _ ↦ JsValue.str.inj) (JsValue.arr.inj h)

theorem pullRequestJson_injective {number number' : Option ℤ}
    (h : pullRequestJson number = pullRequestJson number') : number = number' := by
  cases number <;> cases number' <;> simp_all [pullRequestJson, integer]

/-- The JSON value tells the bindings. -/
theorem bindings_json_injective {b b' : ExpectedOwnerAuthorizationBindings} (h : b.json = b'.json) :
    b = b' := by
  obtain ⟨_, _, _, _, _, ⟨_, _, _⟩, ⟨_, _⟩, ⟨_, _⟩, ⟨_, _⟩, ⟨_, _⟩, ⟨_, _, _, _, _, _, _, _, _, _⟩,
    _, _⟩ := b
  obtain ⟨_, _, _, _, _, ⟨_, _, _⟩, ⟨_, _⟩, ⟨_, _⟩, ⟨_, _⟩, ⟨_, _⟩, ⟨_, _, _, _, _, _, _, _, _, _⟩,
    _, _⟩ := b'
  simp only [ExpectedOwnerAuthorizationBindings.json, Repository.json, GitHub.json, Base.json,
    Engine.json, Manifest.json, Preview.json, integer, JsValue.obj.injEq, List.cons.injEq,
    Prod.mk.injEq, JsValue.str.injEq, JsValue.num.injEq, JsNumber.int.injEq, true_and, and_true]
    at h
  obtain ⟨hactions, rfl, rfl, ⟨rfl, rfl⟩, ⟨rfl, rfl⟩, ⟨rfl, rfl⟩, ⟨rfl, rfl⟩, rfl, rfl,
    ⟨rfl, rfl, rfl, rfl, rfl, rfl, rfl, rfl, rfl, rfl⟩, rfl, hnumber, ⟨rfl, rfl, rfl⟩⟩ := h
  rw [actionsJson_injective hactions, pullRequestJson_injective hnumber]

/-! ### Fields -/

section Fields

-- How the module words a refusal.
variable (refused : String → String)

def asRecord (value : JsValue) (label : String) : Except String (List Member) :=
  match value with
  | .obj ms => .ok ms
  | _ => .error (refused s!"{label} must be an object")

/-- The expected keys are given in any order. -/
def assertExactKeys (ms : List Member) (expected : List String) (label : String) :
    Except String Unit :=
  reject ((sortByKey ms).map Prod.fst ≠ (expected.map js).insertionSort (· ≤ ·))
    (refused s!"{label} has unknown or missing fields")

/-- `validBoundedString`, in `owner-challenge.ts` `validString`. -/
def validBoundedString (value : JsValue) (label : String) (maxBytes : ℕ) :
    Except String JsString :=
  match value with
  | .str s => do
    reject (s.length = 0 ∨ maxBytes < byteLength s)
      (refused s!"{label} is missing or exceeds the supported size")
    reject (isWellFormed s = false) (refused s!"{label} contains invalid Unicode")
    return s
  | _ => .error (refused s!"{label} is missing or exceeds the supported size")

/-- `^[A-Za-z0-9][A-Za-z0-9._:@+-]{0,127}$` -/
def isOwnerIdentifier (s : JsString) : Bool :=
  match s with
  | c :: rest =>
    isAlphanumeric c && rest.all (isAlphanumericOr "._:@+-") && decide (rest.length ≤ 127)
  | [] => false

def validIdentifier (value : JsValue) (label : String) : Except String JsString := do
  let identifier ← validBoundedString refused value label 128
  reject (isOwnerIdentifier identifier = false) (refused s!"{label} is not a canonical identifier")
  return identifier

def validDigest (value : JsValue) (label : String) : Except String JsString :=
  match value with
  | .str s => do
    reject (isDigestText s = false) (refused s!"{label} must be lowercase sha256:<64hex>")
    return s
  | _ => .error (refused s!"{label} must be lowercase sha256:<64hex>")

def validGitSha (value : JsValue) (label : String) : Except String JsString :=
  match value with
  | .str s => do
    reject (isGitSha s = false) (refused s!"{label} is invalid")
    return s
  | _ => .error (refused s!"{label} is invalid")

def validPositiveInteger (value : JsValue) (label : String) : Except String ℤ :=
  match value with
  | .num n => do
    let i ← orThrow (safeInteger n) (refused s!"{label} must be a positive safe integer")
    reject (i ≤ 0) (refused s!"{label} must be a positive safe integer")
    return i
  | _ => .error (refused s!"{label} must be a positive safe integer")

def maxTimestamp : ℤ := 8640000000000000

def validTimestamp (value : JsValue) (label : String) : Except String ℤ := do
  let timestamp ← validPositiveInteger refused value label
  reject (maxTimestamp < timestamp) (refused s!"{label} exceeds the supported timestamp range")
  return timestamp

/-- `validPullRequestNumber` -/
def validPullRequestNumber (value : JsValue) : Except String (Option ℤ) :=
  match value with
  | .null => .ok none
  | value => some <$> validPositiveInteger refused value "pullRequestNumber"

/-- `tag !== tag.trim() || /[\u0000-\u0020\u007f]/.test(tag)` -/
def isInvalidTag (tag : JsString) : Bool :=
  decide (tag ≠ trim tag) || tag.any fun c ↦ decide (c.toNat ≤ 0x20 ∨ c.toNat = 0x7f)

/-! ### What a field check returns -/

variable {refused} {s t : JsString} {label : String} {i j : ℤ}

theorem validBoundedString_str {maxBytes : ℕ}
    (h : validBoundedString refused (.str t) label maxBytes = .ok s) : s = t := by
  simp only [validBoundedString, bind_eq_ok, reject_eq_ok, exists_unit, pure_eq_ok] at h
  exact h.2.2.symm

theorem validIdentifier_str (h : validIdentifier refused (.str t) label = .ok s) : s = t := by
  simp only [validIdentifier, bind_eq_ok, reject_eq_ok, exists_unit, pure_eq_ok] at h
  obtain ⟨_, hstring, -, rfl⟩ := h
  exact validBoundedString_str hstring

theorem validDigest_str (h : validDigest refused (.str t) label = .ok s) : s = t := by
  simp only [validDigest, bind_eq_ok, reject_eq_ok, exists_unit, pure_eq_ok] at h
  exact h.2.symm

theorem validGitSha_str (h : validGitSha refused (.str t) label = .ok s) : s = t := by
  simp only [validGitSha, bind_eq_ok, reject_eq_ok, exists_unit, pure_eq_ok] at h
  exact h.2.symm

theorem validPositiveInteger_integer
    (h : validPositiveInteger refused (integer i) label = .ok j) : j = i := by
  simp only [validPositiveInteger, integer, bind_eq_ok, orThrow_eq_ok, reject_eq_ok, exists_unit,
    pure_eq_ok, safeInteger] at h
  obtain ⟨_, hsafe, -, rfl⟩ := h
  split_ifs at hsafe
  exact (Option.some.inj hsafe).symm

theorem validTimestamp_integer (h : validTimestamp refused (integer i) label = .ok j) : j = i := by
  simp only [validTimestamp, bind_eq_ok, reject_eq_ok, exists_unit, pure_eq_ok] at h
  obtain ⟨_, hinteger, -, rfl⟩ := h
  exact validPositiveInteger_integer hinteger

theorem validPullRequestNumber_json {number number' : Option ℤ}
    (h : validPullRequestNumber refused (pullRequestJson number) = .ok number') :
    number' = number := by
  cases number with
  | none => exact (Except.ok.inj h).symm
  | some n =>
    change some <$> validPositiveInteger refused (integer n) "pullRequestNumber" = _ at h
    rw [map_eq_ok] at h
    obtain ⟨m, hm, rfl⟩ := h
    rw [validPositiveInteger_integer hm]

end Fields

end ApiMigrator.App.OwnerAuthorization
