import ApiMigrator.Publishing.AuditText
import ApiMigrator.Db.OwnerLedger

/-!
`repo.ts`: the campaigns, repositories and migration runs. A store carries its keys and references,
so that a run without its campaign or its repository cannot be built.
-/

set_option autoImplicit false
set_option relaxedAutoImplicit false

namespace ApiMigrator.Db

open Foundation.Text Foundation.Number Foundation.Json Foundation.Outcome Foundation.Pattern
open Publishing.AuditText

/-! ### Rows -/

structure CampaignRow where
  id : JsString
  status : JsString
  manifest : JsString

structure RepoRow where
  id : JsString
  slug : JsString
  defaultBranch : Option JsString
  installationId : Option ℤ

inductive MigrationRunStatus
  | queued
  | scanning
  | transforming
  | verifying
  | previewReady
  | blocked
  | prOpened
  | merged
  | failed
  | noChanges
  deriving DecidableEq

def MigrationRunStatus.terminal : MigrationRunStatus → Bool
  | queued => false
  | scanning => false
  | transforming => false
  | verifying => false
  | _ => true

inductive PublicationMode
  | preview
  | publish
  deriving DecidableEq

/-- A row of `migration_runs`. -/
structure MigrationRun where
  id : JsString
  campaignId : JsString
  repoId : JsString
  status : MigrationRunStatus
  branch : Option JsString
  prUrl : Option JsString
  summary : Option JsString
  report : Option JsString
  error : Option JsString
  publicationMode : Option PublicationMode
  preflightId : Option JsString
  artifactDigest : Option JsString
  baseSha : Option JsString
  baseBranch : Option JsString
  headSha : Option JsString
  publicationBlockers : Option JsString
  approvedBy : Option JsString
  overrideUnsafe : Bool
  overrideReason : Option JsString
  startedAt : ℤ
  finishedAt : Option ℤ

/-! ### The store -/

structure Store where
  campaigns : List CampaignRow
  repos : List RepoRow
  runs : List MigrationRun
  repoIds : (repos.map RepoRow.id).Nodup
  slugs : (repos.map RepoRow.slug).Nodup
  runIds : (runs.map MigrationRun.id).Nodup
  references : ∀ run ∈ runs, run.campaignId ∈ campaigns.map CampaignRow.id ∧
    run.repoId ∈ repos.map RepoRow.id

/-- The row of a key, where no two rows have one key. -/
theorem find?_key_eq_some {α : Type} {key : α → JsString} {rows : List α}
    (hnodup : (rows.map key).Nodup) {k : JsString} {row : α} :
    rows.find? (fun row ↦ decide (key row = k)) = some row ↔ row ∈ rows ∧ key row = k := by
  constructor
  · intro h
    have hkey := List.find?_some h
    exact ⟨List.mem_of_find?_eq_some h, of_decide_eq_true hkey⟩
  · rintro ⟨hmem, rfl⟩
    cases hfind : rows.find? fun other ↦ decide (key other = key row) with
    | none =>
      have hnone := List.find?_eq_none.mp hfind row hmem
      exact absurd (decide_eq_true rfl) hnone
    | some found =>
      have hkey := List.find?_some hfind
      rw [List.inj_on_of_nodup_map hnodup (List.mem_of_find?_eq_some hfind) hmem
        (of_decide_eq_true hkey)]

namespace Store

def getCampaign (store : Store) (id : JsString) : Option CampaignRow :=
  store.campaigns.find? fun row ↦ row.id = id

def getRun (store : Store) (id : JsString) : Option MigrationRun :=
  store.runs.find? fun row ↦ row.id = id

end Store

/-! ### Repositories -/

/-- What `upsertRepo` is given; what is left out of it stays as it is. -/
structure RepoInput where
  slug : JsString
  defaultBranch : Option JsString
  installationId : Option ℤ

/-- `length(trim(slug)) > 0` -/
def isSlugText (slug : JsString) : Bool :=
  let isBlank : UInt16 → Bool := fun c ↦ decide (c = 0x20)
  decide (0 < sqlLength ((slug.dropWhile isBlank).rdropWhile isBlank))

/-- The columns that a conflict sets. -/
def RepoRow.refresh (input : RepoInput) (row : RepoRow) : RepoRow :=
  if row.slug = sqlText input.slug then
    { row with
      defaultBranch := (input.defaultBranch.map sqlText).or row.defaultBranch
      installationId := input.installationId.or row.installationId }
  else row

theorem RepoRow.refresh_id (input : RepoInput) (row : RepoRow) :
    (row.refresh input).id = row.id := by
  unfold refresh
  split_ifs <;> rfl

theorem RepoRow.refresh_slug (input : RepoInput) (row : RepoRow) :
    (row.refresh input).slug = row.slug := by
  unfold refresh
  split_ifs <;> rfl

theorem RepoRow.map_refresh {α : Type} (input : RepoInput) {column : RepoRow → α}
    (hcolumn : ∀ row : RepoRow, column (row.refresh input) = column row) (rows : List RepoRow) :
    (rows.map (RepoRow.refresh input)).map column = rows.map column := by
  rw [List.map_map]
  exact List.map_congr_left fun row _ ↦ hcolumn row

namespace Store

/-- The conflicting row is refreshed. -/
def refreshRepo (store : Store) (input : RepoInput) : Store where
  campaigns := store.campaigns
  repos := store.repos.map (RepoRow.refresh input)
  runs := store.runs
  repoIds := by
    rw [RepoRow.map_refresh input (RepoRow.refresh_id input)]
    exact store.repoIds
  slugs := by
    rw [RepoRow.map_refresh input (RepoRow.refresh_slug input)]
    exact store.slugs
  runIds := store.runIds
  references := by
    rw [RepoRow.map_refresh input (RepoRow.refresh_id input)]
    exact store.references

def insertRepo (store : Store) (row : RepoRow) (hid : row.id ∉ store.repos.map RepoRow.id)
    (hslug : row.slug ∉ store.repos.map RepoRow.slug) : Store where
  campaigns := store.campaigns
  repos := store.repos ++ [row]
  runs := store.runs
  repoIds := by
    rw [List.map_append, List.map_singleton]
    exact List.nodup_append.mpr ⟨store.repoIds, List.nodup_singleton _, fun a ha b hb hab ↦
      hid (List.mem_singleton.mp hb ▸ hab ▸ ha)⟩
  slugs := by
    rw [List.map_append, List.map_singleton]
    exact List.nodup_append.mpr ⟨store.slugs, List.nodup_singleton _, fun a ha b hb hab ↦
      hslug (List.mem_singleton.mp hb ▸ hab ▸ ha)⟩
  runIds := store.runIds
  references := by
    rw [List.map_append]
    exact fun run hrun ↦ ⟨(store.references run hrun).1,
      List.mem_append_left _ (store.references run hrun).2⟩

/-- `upsertRepo`; the id is the random one it has drawn. -/
def upsertRepo (store : Store) (id : JsString) (input : RepoInput) : Except String Store := do
  reject (isSlugText (sqlText input.slug) = false) "CHECK constraint failed: repos_slug_not_empty"
  reject (input.installationId.any (fun n ↦ decide (n ≤ 0)) = true)
    "CHECK constraint failed: repos_installation_id_positive"
  if hslug : sqlText input.slug ∈ store.repos.map RepoRow.slug then
    return store.refreshRepo input
  else if hid : id ∈ store.repos.map RepoRow.id then
    .error "UNIQUE constraint failed: repos.id"
  else
    return store.insertRepo ⟨id, sqlText input.slug, input.defaultBranch.map sqlText,
      input.installationId⟩ hid hslug

def getRepoBySlug (store : Store) (slug : JsString) : Option RepoRow :=
  store.repos.find? fun row ↦ row.slug = sqlText slug

/-! ### Runs -/

structure RunInput where
  campaignId : JsString
  repoId : JsString
  branch : JsString

def insertRun (store : Store) (run : MigrationRun) (hid : run.id ∉ store.runs.map MigrationRun.id)
    (hcampaign : run.campaignId ∈ store.campaigns.map CampaignRow.id)
    (hrepo : run.repoId ∈ store.repos.map RepoRow.id) : Store where
  campaigns := store.campaigns
  repos := store.repos
  runs := store.runs ++ [run]
  repoIds := store.repoIds
  slugs := store.slugs
  runIds := by
    rw [List.map_append, List.map_singleton]
    exact List.nodup_append.mpr ⟨store.runIds, List.nodup_singleton _, fun a ha b hb hab ↦
      hid (List.mem_singleton.mp hb ▸ hab ▸ ha)⟩
  references := List.forall_mem_append.mpr
    ⟨store.references, List.forall_mem_singleton.mpr ⟨hcampaign, hrepo⟩⟩

/-- A run as it is first stored. -/
def queuedRun (id : JsString) (now : ℤ) (input : RunInput) : MigrationRun where
  id := id
  campaignId := input.campaignId
  repoId := input.repoId
  status := .queued
  branch := some (sqlText input.branch)
  prUrl := none
  summary := none
  report := none
  error := none
  publicationMode := none
  preflightId := none
  artifactDigest := none
  baseSha := none
  baseBranch := none
  headSha := none
  publicationBlockers := none
  approvedBy := none
  overrideUnsafe := false
  overrideReason := none
  startedAt := now
  finishedAt := none

def createRun (store : Store) (id : JsString) (now : ℤ) (input : RunInput) :
    Except String Store :=
  if hid : id ∈ store.runs.map MigrationRun.id then
    .error "UNIQUE constraint failed: migration_runs.id"
  else if hcampaign : input.campaignId ∈ store.campaigns.map CampaignRow.id then
    if hrepo : input.repoId ∈ store.repos.map RepoRow.id then
      .ok (store.insertRun (queuedRun id now input) hid hcampaign hrepo)
    else .error "FOREIGN KEY constraint failed"
  else .error "FOREIGN KEY constraint failed"

end Store

/-! ### Updates -/

/-- A property of a patch: left out, `null` or a value. -/
abbrev Field (α : Type) := Option (Option α)

structure RunPatch where
  status : MigrationRunStatus
  prUrl : Field JsString
  summary : Option JsValue
  report : Option JsValue
  error : Field JsString
  branch : Field JsString
  publicationMode : Field PublicationMode
  preflightId : Field JsString
  artifactDigest : Field JsString
  baseSha : Field JsString
  baseBranch : Field JsString
  headSha : Field JsString
  publicationBlockers : Field (List PublicationBlockerAudit)
  approvedBy : Field JsString
  overrideUnsafe : Option Bool
  overrideReason : Field JsString

/-- An audit looks at values only. -/
def audited {α β : Type} (audit : α → Except String β) : Field α → Except String (Field β)
  | none => .ok none
  | some none => .ok (some none)
  | some (some value) => do
    let kept ← audit value
    return some (some kept)

/-- What the audits of a patch have let through. -/
structure AuditedFields where
  artifactDigest : Field JsString
  baseSha : Field JsString
  baseBranch : Field JsString
  headSha : Field JsString
  publicationBlockers : Field JsString
  overrideReason : Field JsString

def RunPatch.audit (patch : RunPatch) : Except String AuditedFields := do
  let artifactDigest ← audited auditDigest patch.artifactDigest
  let baseSha ← audited auditCommit patch.baseSha
  let baseBranch ← audited auditBranch patch.baseBranch
  let headSha ← audited auditCommit patch.headSha
  let publicationBlockers ← audited serializePublicationBlockers patch.publicationBlockers
  let overrideReason ← audited sanitizeOverrideReason patch.overrideReason
  return ⟨artifactDigest, baseSha, baseBranch, headSha, publicationBlockers, overrideReason⟩

/-- A text column after an update. -/
def setText (field : Field JsString) (old : Option JsString) : Option JsString :=
  match field with
  | none => old
  | some value => value.map sqlText

def setJson (field : Option JsValue) (old : Option JsString) : Option JsString :=
  match field with
  | none => old
  | some value => some (sqlText (compactText value))

def RunPatch.apply (patch : RunPatch) (audited : AuditedFields) (now : ℤ) (run : MigrationRun) :
    MigrationRun :=
  { run with
    status := patch.status
    prUrl := setText patch.prUrl run.prUrl
    summary := setJson patch.summary run.summary
    report := setJson patch.report run.report
    error := setText patch.error run.error
    branch := setText patch.branch run.branch
    publicationMode := patch.publicationMode.getD run.publicationMode
    preflightId := setText patch.preflightId run.preflightId
    artifactDigest := setText audited.artifactDigest run.artifactDigest
    baseSha := setText audited.baseSha run.baseSha
    baseBranch := setText audited.baseBranch run.baseBranch
    headSha := setText audited.headSha run.headSha
    publicationBlockers := setText audited.publicationBlockers run.publicationBlockers
    approvedBy := setText patch.approvedBy run.approvedBy
    overrideUnsafe := patch.overrideUnsafe.getD run.overrideUnsafe
    overrideReason := setText audited.overrideReason run.overrideReason
    finishedAt := if patch.status.terminal = true then some now else none }

namespace Store

/-- The rows of one id are changed, but for their keys. -/
def mapRun (store : Store) (id : JsString) (change : MigrationRun → MigrationRun)
    (hchange : ∀ run, (change run).id = run.id ∧ (change run).campaignId = run.campaignId ∧
      (change run).repoId = run.repoId) : Store where
  campaigns := store.campaigns
  repos := store.repos
  runs := store.runs.map fun run ↦ if run.id = id then change run else run
  repoIds := store.repoIds
  slugs := store.slugs
  runIds := by
    have hids : (store.runs.map fun run ↦ if run.id = id then change run else run).map
        MigrationRun.id = store.runs.map MigrationRun.id := by
      rw [List.map_map]
      refine List.map_congr_left fun run _ ↦ ?_
      rw [Function.comp_apply]
      split_ifs
      · exact (hchange run).1
      · rfl
    rw [hids]
    exact store.runIds
  references := by
    refine List.forall_mem_map.mpr fun run hrun ↦ ?_
    split_ifs
    · rw [(hchange run).2.1, (hchange run).2.2]
      exact store.references run hrun
    · exact store.references run hrun

theorem apply_keys (patch : RunPatch) (audited : AuditedFields) (now : ℤ) (run : MigrationRun) :
    (patch.apply audited now run).id = run.id ∧
      (patch.apply audited now run).campaignId = run.campaignId ∧
        (patch.apply audited now run).repoId = run.repoId := ⟨rfl, rfl, rfl⟩

def updateRun (store : Store) (now : ℤ) (id : JsString) (patch : RunPatch) :
    Except String Store := do
  let audited ← patch.audit
  return store.mapRun id (patch.apply audited now) (apply_keys patch audited now)

/-! ### What the operations leave -/

variable {store store' : Store}

/-- Repositories are not taken away and keep their ids and slugs. -/
def KeepsRepos (store store' : Store) : Prop :=
  ∀ id slug, (∃ row ∈ store.repos, row.id = id ∧ row.slug = slug) →
    ∃ row ∈ store'.repos, row.id = id ∧ row.slug = slug

theorem upsertRepo_eq_ok {id : JsString} {input : RepoInput}
    (h : store.upsertRepo id input = .ok store') :
    store'.runs = store.runs ∧ store'.campaigns = store.campaigns ∧ KeepsRepos store store' := by
  simp only [upsertRepo, bind_eq_ok, reject_eq_ok, exists_unit] at h
  obtain ⟨-, -, h⟩ := h
  split at h
  · obtain rfl := Except.ok.inj h
    refine ⟨rfl, rfl, ?_⟩
    rintro _ _ ⟨row, hrow, rfl, rfl⟩
    exact ⟨row.refresh input, List.mem_map_of_mem hrow, row.refresh_id input,
      row.refresh_slug input⟩
  · split at h
    · cases h
    · obtain rfl := Except.ok.inj h
      refine ⟨rfl, rfl, ?_⟩
      rintro _ _ ⟨row, hrow, rfl, rfl⟩
      exact ⟨row, List.mem_append_left _ hrow, rfl, rfl⟩

theorem getRepoBySlug_eq_some {slug : JsString} {row : RepoRow} :
    store.getRepoBySlug slug = some row ↔ row ∈ store.repos ∧ row.slug = sqlText slug :=
  find?_key_eq_some store.slugs

theorem getRun_insertRun {run : MigrationRun} (hid : run.id ∉ store.runs.map MigrationRun.id)
    (hcampaign : run.campaignId ∈ store.campaigns.map CampaignRow.id)
    (hrepo : run.repoId ∈ store.repos.map RepoRow.id) (other : JsString) :
    (store.insertRun run hid hcampaign hrepo).getRun other =
      if other = run.id then some run else store.getRun other := by
  unfold getRun insertRun
  rw [List.find?_append]
  split_ifs with hsame
  · subst hsame
    have hnone : store.runs.find? (fun row ↦ decide (row.id = run.id)) = none :=
      List.find?_eq_none.mpr fun row hrow heq ↦
        hid (of_decide_eq_true heq ▸ List.mem_map_of_mem hrow)
    rw [hnone, Option.none_or, List.find?_singleton, decide_eq_true rfl]
    rfl
  · rw [List.find?_singleton, decide_eq_false (Ne.symm hsame)]
    exact Option.or_none

theorem createRun_eq_ok {id : JsString} {now : ℤ} {input : RunInput}
    (h : store.createRun id now input = .ok store') :
    store.getRun id = none ∧ (∀ other, store'.getRun other =
      if other = id then some (queuedRun id now input) else store.getRun other) ∧
        store'.repos = store.repos ∧ input.repoId ∈ store.repos.map RepoRow.id := by
  unfold createRun at h
  split_ifs at h with hid hcampaign hrepo
  obtain rfl := Except.ok.inj h
  refine ⟨?_, fun other ↦ getRun_insertRun hid hcampaign hrepo other, rfl, hrepo⟩
  exact List.find?_eq_none.mpr fun row hrow heq ↦
    hid (of_decide_eq_true heq ▸ List.mem_map_of_mem hrow)

theorem getRun_mapRun {id : JsString} {change : MigrationRun → MigrationRun}
    (hchange : ∀ run, (change run).id = run.id ∧ (change run).campaignId = run.campaignId ∧
      (change run).repoId = run.repoId) (other : JsString) :
    (store.mapRun id change hchange).getRun other =
      if other = id then (store.getRun other).map change else store.getRun other := by
  have hcomp : (fun row : MigrationRun ↦ decide (row.id = other)) ∘
      (fun run : MigrationRun ↦ if run.id = id then change run else run) =
        fun row ↦ decide (row.id = other) := by
    funext run
    rw [Function.comp_apply]
    split_ifs
    · rw [(hchange run).1]
    · rfl
  unfold getRun mapRun
  rw [List.find?_map, hcomp]
  cases hfind : store.runs.find? fun row ↦ decide (row.id = other) with
  | none => split_ifs <;> rfl
  | some row =>
    have hkey := List.find?_some hfind
    rw [Option.map_some, of_decide_eq_true hkey]
    split_ifs <;> rfl

theorem updateRun_eq_ok {now : ℤ} {id : JsString} {patch : RunPatch}
    (h : store.updateRun now id patch = .ok store') :
    ∃ audited, patch.audit = .ok audited ∧
      (∀ other, store'.getRun other = if other = id then
        (store.getRun other).map (patch.apply audited now) else store.getRun other) ∧
          store'.repos = store.repos := by
  simp only [updateRun, bind_eq_ok, pure_eq_ok] at h
  obtain ⟨audited, haudited, rfl⟩ := h
  exact ⟨audited, haudited, fun other ↦ getRun_mapRun _ other, rfl⟩

end Store

end ApiMigrator.Db
