import ApiMigrator.App.PublicationRunner
import ApiMigrator.App.Security
import ApiMigrator.Db.CampaignStore
import ApiMigrator.Foundation.Sequential
import ApiMigrator.Foundation.WorkerPool

/-!
`campaign/runner.ts`: a campaign runs over its repositories with a few workers. Each repository gets
a run of its own in the store, which is queued while the repository is migrated and closed with
what came of it.
-/

set_option autoImplicit false
set_option relaxedAutoImplicit false

namespace ApiMigrator.App.CampaignRunner

open Foundation.Text Foundation.Json Foundation.Outcome Foundation.Interaction
open Foundation.Interaction.Prog
open Foundation.WorkerPool (Pool Processing Runs)
open Db (CampaignRow Field MigrationRun MigrationRunStatus PublicationMode RepoInput RepoRow
  RunPatch Store)
open Publishing.AuditText (PublicationBlockerAudit)
open Db.Store (RunInput)

/-! ### What a migration answers -/

/-- A report, of which the runner looks at the summary. -/
structure AppMigrationReport where
  value : JsValue
  summary : JsValue

/-- The status of a publication, which is one of a run. -/
inductive OutcomeStatus
  | previewReady
  | blocked
  | prOpened
  | noChanges
  deriving DecidableEq

def OutcomeStatus.run : OutcomeStatus → MigrationRunStatus
  | previewReady => .previewReady
  | blocked => .blocked
  | prOpened => .prOpened
  | noChanges => .noChanges

structure PublicationOutcome where
  mode : PublicationMode
  status : OutcomeStatus
  preflightId : JsString
  baseBranch : JsString
  baseSha : JsString
  branch : JsString
  headSha : Option JsString
  artifactDigest : JsString
  blockers : List PublicationBlockerAudit
  approvedBy : Option JsString

structure MigrateRepoResult where
  report : AppMigrationReport
  prUrl : Option JsString
  preflightId : JsString
  publication : PublicationOutcome

structure PublicationAttemptAudit where
  preflightId : JsString
  artifactDigest : JsString
  baseSha : JsString
  baseBranch : JsString
  headSha : JsString
  branch : JsString
  prUrl : Option JsString
  publicationBlockers : List PublicationBlockerAudit
  approvedBy : JsString
  report : AppMigrationReport

/-- What is thrown: a `PublicationAttemptError` carries an audit. -/
structure Thrown where
  failure : Security.Failure
  audit : Option PublicationAttemptAudit

structure CampaignRepoResult where
  slug : JsString
  status : MigrationRunStatus
  prUrl : Option JsString
  preflightId : Option JsString
  report : Option AppMigrationReport
  publication : Option PublicationOutcome
  error : Option JsString

/-! ### Patches -/

/-- `blockers.map((blocker) => blocker.message).join("; ")`, of a publication that is blocked. -/
def blockerError (publication : PublicationOutcome) : Option JsString :=
  if publication.status = .blocked then
    some (List.intercalate (js "; ") (publication.blockers.map PublicationBlockerAudit.message))
  else none

def resultPatch (result : MigrateRepoResult) : RunPatch where
  status := result.publication.status.run
  prUrl := some result.prUrl
  summary := some result.report.summary
  report := some result.report.value
  error := (blockerError result.publication).map some
  publicationMode := some (some result.publication.mode)
  preflightId := some (some result.preflightId)
  artifactDigest := some (some result.publication.artifactDigest)
  baseSha := some (some result.publication.baseSha)
  baseBranch := some (some result.publication.baseBranch)
  headSha := some result.publication.headSha
  publicationBlockers := some (some result.publication.blockers)
  approvedBy := some result.publication.approvedBy
  overrideUnsafe := some false
  overrideReason := some none
  branch := some (some result.publication.branch)

/-- An empty error is not mentioned. -/
def repoResult (slug : JsString) (result : MigrateRepoResult) : CampaignRepoResult where
  slug := slug
  status := result.publication.status.run
  prUrl := result.prUrl
  preflightId := some result.preflightId
  report := some result.report
  publication := some result.publication
  error := (blockerError result.publication).filter fun error ↦ decide (error ≠ [])

def failureMessage (error : Thrown) : JsString := Security.safeErrorMessage error.failure []

def buildFailedRunPatch (error : Thrown) : RunPatch :=
  match error.audit with
  | none => {
      status := .failed
      prUrl := none
      summary := none
      report := none
      error := some (some (failureMessage error))
      branch := none
      publicationMode := none
      preflightId := none
      artifactDigest := none
      baseSha := none
      baseBranch := none
      headSha := none
      publicationBlockers := none
      approvedBy := none
      overrideUnsafe := none
      overrideReason := none }
  | some audit => {
      status := .failed
      prUrl := some audit.prUrl
      summary := some audit.report.summary
      report := some audit.report.value
      error := some (some (failureMessage error))
      branch := some (some audit.branch)
      publicationMode := some (some .publish)
      preflightId := some (some audit.preflightId)
      artifactDigest := some (some audit.artifactDigest)
      baseSha := some (some audit.baseSha)
      baseBranch := some (some audit.baseBranch)
      headSha := some (some audit.headSha)
      publicationBlockers := some (some audit.publicationBlockers)
      approvedBy := some (some audit.approvedBy)
      overrideUnsafe := some false
      overrideReason := some none }

def failedResult (slug : JsString) (error : Thrown) : CampaignRepoResult where
  slug := slug
  status := .failed
  prUrl := error.audit.bind PublicationAttemptAudit.prUrl
  preflightId := none
  report := none
  publication := none
  error := some (failureMessage error)

/-! ### The calls of a worker -/

inductive Op
  | upsertRepo (input : RepoInput)
  | createRun (input : RunInput)
  | updateRun (id : JsString) (patch : RunPatch)

abbrev Op.Val : Op → Type
  | upsertRepo _ => RepoRow
  | createRun _ => MigrationRun
  | updateRun _ _ => Unit

abbrev Answer (op : Op) : Type := Except String op.Val

abbrev Program (α : Type) := Prog Op Answer Thrown α

def storeError (message : String) : Thrown := ⟨⟨.string (js message), .other, .other, .other⟩, none⟩

abbrev attempt (op : Op) : Program op.Val := attemptAs storeError op

/-- A campaign that may run. -/
structure Campaign where
  campaignId : JsString
  repoSlugs : List JsString
  branch : Option JsString

def Campaign.slug (c : Campaign) (i : ℕ) : JsString := c.repoSlugs.getD i []

def pendingBranch : JsString := js "codex/api-migrator/pending"

/-- Until the repository is migrated. -/
def beginRun (c : Campaign) (slug : JsString) : Program MigrationRun := do
  let repo ← attempt (.upsertRepo ⟨slug, none, none⟩)
  attempt (.createRun ⟨c.campaignId, repo.id, c.branch.getD pendingBranch⟩)

def persistFailedRun (runId : JsString) (error : Thrown) : Program Unit :=
  attempt (.updateRun runId (buildFailedRunPatch error))

/-- From the answer of `migrateRepo` on. -/
def endRun (slug runId : JsString) (migrated : Except Thrown MigrateRepoResult) :
    Program CampaignRepoResult :=
  recover
    (do
      let result ← lift migrated
      let _ ← attempt (.upsertRepo ⟨slug, some result.publication.baseBranch, none⟩)
      attempt (.updateRun runId (resultPatch result))
      return repoResult slug result)
    fun error ↦ do
      persistFailedRun runId error
      return failedResult slug error

/-! ### The store between the calls -/

/-- The store, and the runs that this campaign has created. -/
structure World where
  store : Store
  mine : List JsString

/-- One call. Ids and times are whatever they are; a call that fails, for a reason or without one,
changes nothing. -/
inductive Step (w : World) : (op : Op) → Answer op → World → Prop
  | upserts (input : RepoInput) (id : JsString) (store : Store) (row : RepoRow)
      (hstore : w.store.upsertRepo id input = .ok store)
      (hrow : store.getRepoBySlug input.slug = some row) :
    Step w (.upsertRepo input) (.ok row) { w with store := store }
  | creates (input : RunInput) (id : JsString) (now : ℤ) (store : Store)
      (hstore : w.store.createRun id now input = .ok store) :
    Step w (.createRun input) (.ok (Db.Store.queuedRun id now input)) ⟨store, id :: w.mine⟩
  | updates (id : JsString) (now : ℤ) (patch : RunPatch) (store : Store)
      (hstore : w.store.updateRun now id patch = .ok store) :
    Step w (.updateRun id patch) (.ok ()) { w with store := store }
  | fails (op : Op) (message : String) : Step w op (.error message) w

/-- Other processes do not know the runs of this campaign, and take no repository away. -/
structure Others (w w' : World) : Prop where
  mine : w'.mine = w.mine
  runs : ∀ id ∈ w.mine, w'.store.getRun id = w.store.getRun id
  repos : Db.Store.KeepsRepos w.store w'.store

/-- A repository of the campaign is begun before `migrateRepo` is called and ended after. -/
def processing (c : Campaign) : Processing World JsString CampaignRepoResult where
  begins i w token w' := ∃ result, (beginRun c (c.slug i)).Ends Step w result w' ∧
    token = result.toOption.map MigrationRun.id
  ends i runId w result w' := ∃ migrated outcome,
    (endRun (c.slug i) runId migrated).Ends Step w outcome w' ∧ result = outcome.toOption
  others := Others

/-! ### A campaign -/

structure RunCampaignInput where
  campaignId : JsString
  repoSlugs : List JsString
  branch : Option JsString
  concurrency : Option ℤ

/-- An empty branch is no branch. -/
def branchOverride : Option JsString → Except String (Option JsString)
  | none => .ok none
  | some branch =>
    if branch = [] then .ok none
    else some <$> PublicationRunner.validateRepositoryBranch (.str branch)

/-- What is looked at before anything is begun. -/
def prepareCampaign (parseStoredManifest : JsString → Except String JsValue) (store : Store)
    (input : RunCampaignInput) : Except String Campaign := do
  let campaign ← orThrow (store.getCampaign input.campaignId) "campaign not found"
  reject (campaign.status ≠ js "active") "only active campaigns can run"
  let _ ← parseStoredManifest campaign.manifest
  let branch ← branchOverride input.branch
  let repoSlugs ← mapEach (fun slug ↦ PublicationRunner.validateRepositorySlug (.str slug))
    input.repoSlugs
  reject (repoSlugs.dedup.length ≠ repoSlugs.length) "Campaign repository list contains duplicates"
  return ⟨input.campaignId, repoSlugs, branch⟩

/-- `Math.min(Math.min(5, Math.max(1, input.concurrency ?? 2)), repoSlugs.length)` -/
def workers (concurrency : Option ℤ) (n : ℕ) : ℕ :=
  min (min 5 (max 1 (concurrency.getD 2))).toNat n

/-- The results are an array that is filled in any order. -/
structure CampaignRunSummary where
  campaignId : JsString
  total : ℕ
  results : List (Option CampaignRepoResult)

abbrev CampaignPool (k : ℕ) := Pool k World JsString CampaignRepoResult

/-- What the workers of a campaign may have come to, after some number of their steps. -/
def Reaches (c : Campaign) (store : Store) (k m : ℕ) (pool : CampaignPool k) : Prop :=
  Runs (processing c) c.repoSlugs.length (Pool.initial k ⟨store, []⟩) m pool

/-- `runCampaign` returns once every worker has. -/
def Returns (parseStoredManifest : JsString → Except String JsValue) (input : RunCampaignInput)
    (store : Store) (summary : CampaignRunSummary) (w : World) : Prop :=
  ∃ c m, ∃ pool : CampaignPool (workers input.concurrency c.repoSlugs.length),
    prepareCampaign parseStoredManifest store input = .ok c ∧
      Reaches c store (workers input.concurrency c.repoSlugs.length) m pool ∧ pool.Finished ∧
        w = pool.world ∧ summary = ⟨c.campaignId, c.repoSlugs.length,
          (List.range c.repoSlugs.length).map pool.result⟩

end ApiMigrator.App.CampaignRunner
