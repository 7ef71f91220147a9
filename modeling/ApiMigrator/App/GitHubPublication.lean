import ApiMigrator.App.OwnerGrant
import ApiMigrator.App.Security
import ApiMigrator.Publishing.AuditText
import ApiMigrator.Foundation.Sequential

/-!
The publishing half of `migrateRepo` in `github.ts`: from the reviewed candidate in its disposable
clone to the pull request. The remote repository is looked at with the read token, the owner's
grant is checked against what was seen, the write token is minted for it, and the repository is
looked at again before anything is written. Every call of git, of GitHub and of the owner's
authorization is an operation of its environment.
-/

set_option autoImplicit false
set_option relaxedAutoImplicit false

namespace ApiMigrator.App.GitHubPublication

open Foundation.Text Foundation.Number Foundation.Pattern Foundation.Outcome
open Foundation.Interaction (Prog Event)
open Security (Failure safeErrorMessage)
open PublicationRunner (isGitSha)
open OwnerAuthorization (OwnerAuthorizationReceipt)
open Publishing.AuditText (PublicationBlockerAudit)

/-! ### The environment -/

structure OpenPullRequestIdentity where
  number : JsNumber
  htmlUrl : JsString
  baseBranch : JsString
  deriving DecidableEq

structure RemotePublicationState where
  sha : Option JsString
  pullRequest : Option OpenPullRequestIdentity
  pushRequired : Bool

/-- What GitHub says of a commit. -/
structure RemoteCommit where
  sha : JsString
  parents : List JsString
  tree : JsString

/-- What GitHub answers when a pull request is created or updated. -/
structure PullRequestAnswer where
  number : JsNumber
  htmlUrl : JsString
  headSha : Option JsString
  baseRef : Option JsString
  baseSha : Option JsString

/-- The parts of `new URL(..)`. -/
structure Url where
  protocol : JsString
  hostname : JsString
  port : JsString
  username : JsString
  password : JsString
  search : JsString
  hash : JsString
  pathname : JsString

/-- What `resolveAuthorizedWriteAuth` returns. -/
structure AuthorizedWriteAuth where
  token : JsString
  githubApp : Bool
  ownerAuthorizationReceipt : OwnerAuthorizationReceipt

/-- A failed call: what it says, and the status of the response if there was one. -/
structure CallFailure where
  error : Failure
  status : Option ℕ

inductive Op
  | git (args : List JsString)
  | getRef (token branch : JsString)
  | getCommit (token sha : JsString)
  | listPulls (token branch : JsString)
  /-- `readOwnerPublicationPolicy`, `buildExpectedOwnerAuthorizationBindings` and
  `verifyOwnerAuthorizationEnvelope`, for the remote state that was reviewed. -/
  | ownerGrant (reviewed : RemotePublicationState)
  | writeAuth
  | updatePull (token : JsString) (number : JsNumber) (title body base : JsString)
  | createPull (token head base title body : JsString)

abbrev Val : Op → Type
  | .git _ => JsString
  | .getRef _ _ => JsString
  | .getCommit _ _ => RemoteCommit
  | .listPulls _ _ => List OpenPullRequestIdentity
  | .ownerGrant _ => Unit
  | .writeAuth => AuthorizedWriteAuth
  | .updatePull _ _ _ _ _ => PullRequestAnswer
  | .createPull _ _ _ _ _ => PullRequestAnswer

abbrev Answer (op : Op) : Type := Except CallFailure (Val op)

abbrev History := List (Event Op Answer)

/-! ### What is published -/

/-- The reviewed candidate, as `migrateRepo` has it when it turns to publication. -/
structure Candidate where
  owner : JsString
  repo : JsString
  baseBranch : JsString
  baseSha : JsString
  /-- Checked when the clone was made. -/
  baseSha_valid : isGitSha baseSha = true
  branch : JsString
  candidateTreeSha : JsString
  preflightId : JsString
  artifactDigest : JsString
  blockers : List PublicationBlockerAudit
  requestedPreflightId : JsString
  approvedBy : JsString
  manifestName : JsString
  /-- `reportToMarkdown(report)` -/
  markdown : JsString
  readToken : JsString
  actor : JsString
  /-- `auth.mode` is `github-app`, and `auth.githubApp` is there. -/
  githubApp : Bool
  /-- `new URL(..)`, where it does not throw. -/
  parseUrl : JsString → Option Url

structure PublicationAttemptAudit where
  preflightId : JsString
  artifactDigest : JsString
  baseSha : JsString
  baseBranch : JsString
  headSha : JsString
  branch : JsString
  candidateTreeSha : JsString
  ownerAuthorizationReceipt : OwnerAuthorizationReceipt
  pullRequestNumber : Option ℤ
  prUrl : Option JsString
  publicationBlockers : List PublicationBlockerAudit
  approvedBy : JsString

/-- An error of an operation, or one of the two errors of this module. -/
inductive Thrown
  | failure (error : Failure)
  | createdPullRequestMismatch (message : JsString) (number : ℤ) (prUrl : JsString)
  | publicationAttempt (message : JsString) (audit : PublicationAttemptAudit)

def Failure.ofMessage (message : JsString) : Failure :=
  ⟨.string message, .other, .other, .other⟩

def Thrown.error (message : JsString) : Thrown := .failure (Failure.ofMessage message)

def Thrown.details : Thrown → Failure
  | .failure error => error
  | .createdPullRequestMismatch message _ _ => Failure.ofMessage message
  | .publicationAttempt message _ => Failure.ofMessage message

inductive PublicationStatus
  | blocked
  | prOpened
  deriving DecidableEq

structure Published where
  status : PublicationStatus
  prUrl : Option JsString
  headSha : Option JsString
  ownerAuthorizationReceipt : Option OwnerAuthorizationReceipt

abbrev Publishing := Prog Op Answer Thrown

def ask (op : Op) : Publishing (Val op) :=
  .call op fun answer ↦ .done (answer.mapError fun e ↦ .failure e.error)

/-- `catch`, and throw with a label in front of the safe message. -/
def relabel {α : Type} (label : JsString) (secrets : List JsString) (p : Publishing α) :
    Publishing α :=
  p.recover fun e ↦ .done (.error (.error (label ++ safeErrorMessage e.details secrets)))

/-! ### Git -/

/-- `args[0]?.replace(/[^a-z-]/gi, "") || "operation"` -/
def operationName (args : List JsString) : JsString :=
  let kept := (args.head?.getD []).filter fun c ↦
    isUpperLetter c || isLowerLetter c || decide (c = 0x2d)
  if kept = [] then js "operation" else kept

def gitExec (args : List JsString) (secrets : List JsString) : Publishing JsString :=
  relabel (js "git " ++ operationName args ++ js " failed: ") secrets (ask (.git args))

section Publication

variable (g : Candidate)

def githubCloneUrl : JsString :=
  js "https://github.com/" ++ g.owner ++ js "/" ++ g.repo ++ js ".git"

/-- A push that creates the branch while it is absent. The branch name was checked when it was
made. -/
def publicationPushArgs : List JsString :=
  [js "push", js "--force-with-lease=refs/heads/" ++ g.branch ++ js ":", githubCloneUrl g,
    js "HEAD:refs/heads/" ++ g.branch]

def assertCanonicalRemote : Publishing Unit := do
  let actual ← gitExec [js "remote", js "get-url", js "origin"] []
  .lift (reject (trim actual ≠ githubCloneUrl g)
    (.error (js "Repository origin changed after clone; refusing credentialed push")))

/-! ### The remote branch -/

def assertRemoteBaseMatchesApproval (token : JsString) : Publishing Unit :=
  relabel (js "Could not verify approved base branch: ") [token] (do
    let sha ← ask (.getRef token g.baseBranch)
    .lift (reject (sha ≠ g.baseSha)
      (.error (js "base branch advanced after the approved preview"))))

def assertRemoteBranchMatchesArtifact (remoteSha : JsString) (commit : RemoteCommit) :
    Except Thrown Unit := do
  reject (isGitSha remoteSha = false)
    (.error (js "GitHub returned an invalid remote branch commit id"))
  reject (([g.baseSha, g.candidateTreeSha, commit.sha, commit.tree] ++ commit.parents).any
      (fun sha ↦ !isGitSha sha) = true)
    (.error (js "GitHub returned invalid commit recovery metadata"))
  reject (commit.parents ≠ [g.baseSha] ∨ commit.sha ≠ remoteSha ∨
      commit.tree ≠ g.candidateTreeSha)
    (.error (js ("Existing migration branch does not match the approved artifact and base; " ++
      "refusing reuse")))

/-- The branch has not been made yet. -/
def RemotePublicationState.absent : RemotePublicationState := ⟨none, none, true⟩

/-- The branch exists at `sha`, with the open pull requests `pulls`. -/
def RemotePublicationState.present (sha : JsString) (pulls : List OpenPullRequestIdentity) :
    RemotePublicationState :=
  ⟨some sha, pulls.find? (fun pull ↦ decide (pull.baseBranch = g.baseBranch)), false⟩

def verifyMigrationBranch (token sha : JsString) : Publishing RemotePublicationState :=
  relabel (js "Could not verify immutable migration branch: ") [token] (do
    let commit ← ask (.getCommit token sha)
    .lift (assertRemoteBranchMatchesArtifact g sha commit)
    let pulls ← ask (.listPulls token g.branch)
    return .present g sha pulls)

def inspectRemotePublicationState (token : JsString) : Publishing RemotePublicationState := do
  assertRemoteBaseMatchesApproval g token
  let answer ← .perform (.getRef token g.branch)
  match answer with
  | .ok sha => verifyMigrationBranch g token sha
  | .error e =>
    if e.status = some 404 then return .absent
    else throw (.error (js "Could not inspect migration branch: " ++
      safeErrorMessage e.error [token]))

def assertRemotePublicationStateUnchanged (reviewed current : RemotePublicationState) :
    Except Thrown Unit :=
  reject (reviewed.pushRequired ≠ current.pushRequired ∨ reviewed.sha ≠ current.sha ∨
      reviewed.pullRequest.map OpenPullRequestIdentity.number ≠
        current.pullRequest.map OpenPullRequestIdentity.number ∨
      reviewed.pullRequest.map OpenPullRequestIdentity.baseBranch ≠
        current.pullRequest.map OpenPullRequestIdentity.baseBranch)
    (.error (js "Remote branch or pull request state changed after owner authorization"))

/-! ### The pull request -/

/-- The address of a pull request, as the repository and its number give it. -/
def pullRequestUrl (number : ℤ) : JsString :=
  js "https://github.com/" ++ g.owner ++ js "/" ++ g.repo ++ js "/pull/" ++ integerText number

/-- Hosts and paths of a parsed address are ASCII. -/
def Url.names (url : Url) (number : ℤ) : Bool :=
  match splitSlash url.pathname with
  | [first, owner, repo, pull, last] =>
    decide (url.protocol = js "https:" ∧ asciiLower url.hostname = js "github.com" ∧
      url.port = [] ∧ url.username = [] ∧ url.password = [] ∧ url.search = [] ∧ url.hash = [] ∧
      first = [] ∧ asciiLower owner = asciiLower g.owner ∧ asciiLower repo = asciiLower g.repo ∧
      pull = js "pull" ∧ last = integerText number)
  | _ => false

def createdPullRequestEvidence (number : JsNumber) (htmlUrl : JsString) :
    Except Thrown (ℤ × JsString) := do
  let number ← orThrow (safeInteger number)
    (.error (js "GitHub returned an invalid created pull request number"))
  reject (number ≤ 0) (.error (js "GitHub returned an invalid created pull request number"))
  let parsed ← orThrow (g.parseUrl htmlUrl) (.createdPullRequestMismatch
    (js ("GitHub returned an invalid created pull request URL; the repository-derived pull " ++
      "request remains open for manual review")) number (pullRequestUrl g number))
  reject (Url.names g parsed number = false) (.createdPullRequestMismatch
    (js ("GitHub returned a mismatched created pull request URL; the repository-derived pull " ++
      "request remains open for manual review")) number (pullRequestUrl g number))
  return (number, pullRequestUrl g number)

/-- GitHub has the pull request at the expected head, against the approved base. -/
def PullRequestAnswer.matches (data : PullRequestAnswer) (expectedHeadSha : JsString) : Bool :=
  decide (data.headSha = some expectedHeadSha ∧ data.baseRef = some g.baseBranch ∧
    data.baseSha = some g.baseSha)

def updatedPull (data : PullRequestAnswer) (expectedHeadSha : JsString) :
    Except Thrown JsString := do
  reject (data.matches g expectedHeadSha = false) (.error
    (js "Existing pull request head or approved base changed during reconciliation"))
  return data.htmlUrl

def createdPull (data : PullRequestAnswer) (expectedHeadSha : JsString) :
    Except Thrown JsString := do
  let created ← createdPullRequestEvidence g data.number data.htmlUrl
  reject (data.matches g expectedHeadSha = false) (.createdPullRequestMismatch
    (js ("New pull request head or approved base changed during reconciliation; the created " ++
      "pull request remains open for manual review")) created.1 created.2)
  return created.2

/-- The end of `reconcilePr`: one of the module's own errors passes as it is. -/
def reconciliationFailure (token : JsString) : Thrown → Thrown
  | .createdPullRequestMismatch message number prUrl =>
    .createdPullRequestMismatch message number prUrl
  | e => .error (js "Could not reconcile pull request: " ++ safeErrorMessage e.details [token])

def reconcilePr (token title body : JsString) (current : Option OpenPullRequestIdentity)
    (expectedHeadSha : JsString) : Publishing JsString := do
  .lift (reject (isGitSha expectedHeadSha = false)
    (.error (js "Invalid expected migration commit id")))
  .lift (reject (isGitSha g.baseSha = false) (.error (js "Invalid expected base commit id")))
  Prog.recover (match current with
    | some pull => do
      let data ← ask (.updatePull token pull.number title body g.baseBranch)
      .lift (updatedPull g data expectedHeadSha)
    | none => do
      let data ← ask (.createPull token g.branch g.baseBranch title body)
      .lift (createdPull g data expectedHeadSha)) fun e ↦
    .done (.error (reconciliationFailure token e))

/-- The audit of a failure, with the pull request that was made. -/
def PublicationAttemptAudit.failed (audit : PublicationAttemptAudit) :
    Thrown → PublicationAttemptAudit
  | .createdPullRequestMismatch _ number prUrl =>
    { audit with pullRequestNumber := some number, prUrl := some prUrl }
  | _ => audit

def reconcilePrWithAudit (token title body : JsString) (current : Option OpenPullRequestIdentity)
    (audit : PublicationAttemptAudit) : Publishing JsString :=
  (reconcilePr g token title body current audit.headSha).recover fun e ↦
    .done (.error (.publicationAttempt (js "Migration branch " ++ audit.branch ++
      js " is present but pull request reconciliation failed: " ++
        safeErrorMessage e.details [token]) (audit.failed e)))

/-! ### Publication -/

def actorEmail (actor : JsString) : JsString := actor ++ js "@users.noreply.github.com"

def commitMessage : JsString := js "chore: " ++ g.manifestName ++ js " [api-migrator]"

def prTitle : JsString := g.manifestName ++ js " — automated migration"

def publicationAuditFooter (githubApp : Bool) (expectedHeadSha : JsString) : JsString :=
  let generator := if githubApp then js "api-migrator GitHub App" else js "api-migrator pilot auth"
  js "\n\n---\n_Generated by the " ++ generator ++ js " after approval by \u0060" ++ g.approvedBy ++
    js "\u0060._\n_Approved migration head: \u0060" ++ expectedHeadSha ++ js "\u0060._"

/-- `assertPublicationAllowed` -/
def assertPublicationAllowed : Except Thrown Unit := do
  reject (g.requestedPreflightId ≠ g.preflightId)
    (.error (js "Preview is stale; run a new preview and approve that exact result"))
  reject (g.blockers ≠ []) (.error (js "Publication blocked: " ++
    List.intercalate (js "; ") (g.blockers.map PublicationBlockerAudit.message)))

/-- What is known when the write token is asked for. -/
structure Reviewed where
  remote : RemotePublicationState
  localCommitSha : JsString

/-- The candidate is committed in the clone, and the commit is the one that was reviewed. -/
def commitCandidate : Publishing JsString := do
  let _ ← gitExec [js "checkout", js "-B", g.branch] []
  let tree ← gitExec [js "write-tree"] []
  .lift (reject (trim tree ≠ g.candidateTreeSha)
    (.error (js "Candidate tree changed after owner-review preparation")))
  let _ ← gitExec [js "-c", js "user.name=" ++ g.actor, js "-c",
    js "user.email=" ++ actorEmail g.actor, js "commit", js "-m", commitMessage g] []
  let head ← gitExec [js "rev-parse", js "HEAD"] []
  .lift (reject (isGitSha (trim head) = false)
    (.error (js "Git returned an invalid migration commit id")))
  let committed ← gitExec [js "rev-parse", js "HEAD^\x7btree\x7d"] []
  .lift (reject (isGitSha (trim committed) = false)
    (.error (js "Git returned an invalid migration tree id")))
  .lift (reject (trim committed ≠ g.candidateTreeSha)
    (.error (js "Committed migration tree differs from the reviewed candidate tree")))
  return trim head

/-- What is done with the read token. -/
def review : Publishing (Reviewed × AuthorizedWriteAuth) := do
  .lift (reject (g.githubApp = false)
    (.error (js "Owner-authorized publication requires GitHub App authentication")))
  assertCanonicalRemote g
  let remote ← inspectRemotePublicationState g g.readToken
  ask (.ownerGrant remote)
  let localCommitSha ← commitCandidate g
  let write ← ask .writeAuth
  return (⟨remote, localCommitSha⟩, write)

def attemptAudit (write : AuthorizedWriteAuth) (expectedHeadSha : JsString) :
    PublicationAttemptAudit where
  preflightId := g.requestedPreflightId
  artifactDigest := g.artifactDigest
  baseSha := g.baseSha
  baseBranch := g.baseBranch
  headSha := expectedHeadSha
  branch := g.branch
  candidateTreeSha := g.candidateTreeSha
  ownerAuthorizationReceipt := write.ownerAuthorizationReceipt
  pullRequestNumber := none
  prUrl := none
  publicationBlockers := g.blockers
  approvedBy := g.approvedBy

/-- The second look, with the write token. -/
def reinspect (reviewed : Reviewed) (write : AuthorizedWriteAuth) :
    Publishing (RemotePublicationState × JsString) := do
  .lift (reject (write.token = []) (.error (js "GitHub authentication returned an empty token")))
  let remote ← inspectRemotePublicationState g write.token
  .lift (assertRemotePublicationStateUnchanged reviewed.remote remote)
  let expectedHeadSha ← .lift (orThrow
    (if remote.pushRequired then some reviewed.localCommitSha else remote.sha)
    (.error (js "Could not determine the expected migration branch head")))
  return (remote, expectedHeadSha)

/-- What is written: the branch if it is absent, and then the pull request. -/
def deliver (write : AuthorizedWriteAuth) (remote : RemotePublicationState)
    (expectedHeadSha : JsString) : Publishing Published := do
  if remote.pushRequired then
    let _ ← gitExec (publicationPushArgs g) [write.token]
  let prUrl ← reconcilePrWithAudit g write.token (prTitle g)
    (g.markdown ++ publicationAuditFooter g write.githubApp expectedHeadSha) remote.pullRequest
    (attemptAudit g write expectedHeadSha)
  return ⟨.prOpened, some prUrl, some expectedHeadSha, some write.ownerAuthorizationReceipt⟩

/-- The `catch` of `migrateRepo`, with the tokens that are known by then. -/
def publicationFailure (tokens : List JsString) : Thrown → Thrown
  | .publicationAttempt message audit => .publicationAttempt
    (safeErrorMessage (Failure.ofMessage message) tokens) audit
  | e => .error (safeErrorMessage e.details tokens)

def catching {α : Type} (tokens : List JsString) (p : Publishing α) : Publishing α :=
  p.recover fun e ↦ .done (.error (publicationFailure tokens e))

/-- The publishing half of `migrateRepo`. -/
def publish : Publishing Published :=
  if g.requestedPreflightId = g.preflightId ∧ g.blockers ≠ [] then
    return ⟨.blocked, none, none, none⟩
  else do
    let (reviewed, write) ← catching [g.readToken] (do
      .lift (assertPublicationAllowed g)
      review g)
    catching [g.readToken, write.token] (do
      let (remote, expectedHeadSha) ← reinspect g reviewed write
      deliver g write remote expectedHeadSha)

end Publication

end ApiMigrator.App.GitHubPublication
