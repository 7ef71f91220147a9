import ApiMigrator.App.CampaignRunner

/-!
What the store says of a campaign, at any moment and in any order of the steps of its workers: a
repository in work has a queued run, and a repository that is done has a closed run that says what
the result says.
-/

set_option autoImplicit false
set_option relaxedAutoImplicit false

namespace ApiMigrator.App.CampaignRunner

open Foundation.Text Foundation.Json Foundation.Outcome Foundation.Interaction
open Foundation.Interaction.Prog
open Foundation.WorkerPool (Jobs JobStep Pool Runs Slot)
open Db (CampaignRow MigrationRun MigrationRunStatus PublicationMode RepoInput RepoRow
  RunPatch Store sqlText)
open Publishing.AuditText (PublicationBlockerAudit serializePublicationBlockers)
open Db.Store (KeepsRepos RunInput queuedRun)

variable {c : Campaign} {w w' : World} {slug runId : JsString}

/-! ### What the calls leave -/

def IsRepo (store : Store) (repoId slug : JsString) : Prop :=
  ∃ row ∈ store.repos, row.id = repoId ∧ row.slug = sqlText slug

/-- Only some runs have changed. -/
structure Frame (changed : JsString → Prop) (w w' : World) : Prop where
  runs : ∀ id, ¬ changed id → w'.store.getRun id = w.store.getRun id
  repos : KeepsRepos w.store w'.store
  mine : ∀ id ∈ w.mine, id ∈ w'.mine

theorem Frame.refl (changed : JsString → Prop) (w : World) : Frame changed w w :=
  ⟨fun _ _ ↦ rfl, fun _ _ h ↦ h, fun _ h ↦ h⟩

theorem Frame.trans {changed : JsString → Prop} {w'' : World} (h : Frame changed w w')
    (h' : Frame changed w' w'') : Frame changed w w'' :=
  ⟨fun id hid ↦ (h'.runs id hid).trans (h.runs id hid), fun id slug hrow ↦
    h'.repos id slug (h.repos id slug hrow), fun id hid ↦ h'.mine id (h.mine id hid)⟩

theorem Frame.mono {changed changed' : JsString → Prop} (himp : ∀ id, changed id → changed' id)
    (h : Frame changed w w') : Frame changed' w w' :=
  ⟨fun id hid ↦ h.runs id fun hc ↦ hid (himp id hc), h.repos, h.mine⟩

theorem Frame.isRepo {changed : JsString → Prop} (h : Frame changed w w') {repoId : JsString}
    (hrepo : IsRepo w.store repoId slug) : IsRepo w'.store repoId slug := h.repos _ _ hrepo

theorem step_upsertRepo {input : RepoInput} {answer : Answer (.upsertRepo input)}
    (hstep : Step w (.upsertRepo input) answer w') : Frame (fun _ ↦ False) w w' ∧
      ∀ row, answer = .ok row → IsRepo w'.store row.id input.slug := by
  cases hstep with
  | upserts _ id store row hstore hrow =>
    obtain ⟨hruns, -, hrepos⟩ := Db.Store.upsertRepo_eq_ok hstore
    refine ⟨⟨fun id _ ↦ ?_, hrepos, fun _ h ↦ h⟩, ?_⟩
    · show store.getRun id = w.store.getRun id
      rw [Db.Store.getRun, Db.Store.getRun, hruns]
    · rintro _ ⟨⟩
      obtain ⟨hmem, hslug⟩ := Db.Store.getRepoBySlug_eq_some.mp hrow
      exact ⟨row, hmem, rfl, hslug⟩
  | fails => exact ⟨.refl _ w, fun _ h ↦ nomatch h⟩

theorem step_createRun {input : RunInput} {answer : Answer (.createRun input)}
    (hstep : Step w (.createRun input) answer w') :
    (∃ message, answer = .error message ∧ w' = w) ∨
      ∃ id now, answer = .ok (queuedRun id now input) ∧ w.store.getRun id = none ∧
        w'.store.getRun id = some (queuedRun id now input) ∧ id ∈ w'.mine ∧
          Frame (· = id) w w' := by
  cases hstep with
  | creates _ id now store hstore =>
    obtain ⟨hnone, hruns, hrepos, -⟩ := Db.Store.createRun_eq_ok hstore
    refine Or.inr ⟨id, now, rfl, hnone, (hruns id).trans (if_pos rfl), List.mem_cons_self,
      fun other hne ↦ (hruns other).trans (if_neg hne), fun _ _ h ↦ ?_, fun _ h ↦
        List.mem_cons_of_mem _ h⟩
    show ∃ row ∈ store.repos, _
    rw [hrepos]
    exact h
  | fails _ message => exact Or.inl ⟨message, rfl, rfl⟩

theorem step_updateRun {id : JsString} {patch : RunPatch} {answer : Answer (.updateRun id patch)}
    (hstep : Step w (.updateRun id patch) answer w') :
    (∃ message, answer = .error message ∧ w' = w) ∨
      answer = .ok () ∧ Frame (· = id) w w' ∧ ∃ audited now, patch.audit = .ok audited ∧
        w'.store.getRun id = (w.store.getRun id).map (patch.apply audited now) := by
  cases hstep with
  | updates _ now _ store hstore =>
    obtain ⟨audited, haudited, hruns, hrepos⟩ := Db.Store.updateRun_eq_ok hstore
    refine Or.inr ⟨rfl, ⟨fun other hne ↦ (hruns other).trans (if_neg hne), fun _ _ h ↦ ?_,
      fun _ h ↦ h⟩, audited, now, haudited, (hruns id).trans (if_pos rfl)⟩
    show ∃ row ∈ store.repos, _
    rw [hrepos]
    exact h
  | fails _ message => exact Or.inl ⟨message, rfl, rfl⟩

/-! ### The run of a repository -/

/-- The run of a repository that is being migrated. -/
def Queued (c : Campaign) (slug runId : JsString) (store : Store) : Prop :=
  ∃ now repoId, store.getRun runId = some (queuedRun runId now
    ⟨c.campaignId, repoId, c.branch.getD pendingBranch⟩) ∧ IsRepo store repoId slug

/-- The columns of a publication. -/
structure Publishes (row : MigrationRun) (publication : PublicationOutcome) : Prop where
  publicationMode : row.publicationMode = some publication.mode
  artifactDigest : row.artifactDigest = some (sqlText publication.artifactDigest)
  baseSha : row.baseSha = some (sqlText publication.baseSha)
  baseBranch : row.baseBranch = some (sqlText publication.baseBranch)
  headSha : row.headSha = publication.headSha.map sqlText
  branch : row.branch = some (sqlText publication.branch)
  approvedBy : row.approvedBy = publication.approvedBy.map sqlText
  publicationBlockers : ∃ text, serializePublicationBlockers publication.blockers = .ok text ∧
    row.publicationBlockers = some (sqlText text)
  overrides : row.overrideUnsafe = false ∧ row.overrideReason = none

/-- A closed run says what a result says. -/
structure Records (c : Campaign) (slug : JsString) (store : Store) (row : MigrationRun)
    (result : CampaignRepoResult) : Prop where
  about : result.slug = slug
  campaignId : row.campaignId = c.campaignId
  repo : IsRepo store row.repoId slug
  status : row.status = result.status
  terminal : row.status.terminal = true
  finishedAt : row.finishedAt.isSome = true
  prUrl : row.prUrl = result.prUrl.map sqlText
  error : row.error.getD [] = sqlText (result.error.getD [])
  preflightId : ∀ id, result.preflightId = some id → row.preflightId = some (sqlText id)
  report : ∀ report, result.report = some report →
    row.report = some (sqlText (compactText report.value)) ∧
      row.summary = some (sqlText (compactText report.summary))
  publication : ∀ publication, result.publication = some publication → Publishes row publication

theorem Records.frame {changed : JsString → Prop} (h : Frame changed w w') {row : MigrationRun}
    {result : CampaignRepoResult} (hrow : Records c slug w.store row result) :
    Records c slug w'.store row result :=
  ⟨hrow.about, hrow.campaignId, h.isRepo hrow.repo, hrow.status, hrow.terminal, hrow.finishedAt,
    hrow.prUrl, hrow.error, hrow.preflightId, hrow.report, hrow.publication⟩

/-- A beginning that does not throw has queued a new run; one that throws has changed no run. -/
def Begun (c : Campaign) (slug : JsString) (w : World) : Except Thrown MigrationRun → World → Prop
  | .ok run, w' => w.store.getRun run.id = none ∧ Queued c slug run.id w'.store ∧
      run.id ∈ w'.mine ∧ Frame (· = run.id) w w'
  | .error _, w' => Frame (fun _ ↦ False) w w'

theorem beginRun_ensures (c : Campaign) (slug : JsString) (w : World) :
    (beginRun c slug).Ensures Step (Begun c slug w) w := by
  refine Ensures.attempt_bind (fun e w₁ hstep ↦ (step_upsertRepo hstep).1) ?_
  intro repo w₁ hstep
  obtain ⟨hframe, hrepo⟩ := step_upsertRepo hstep
  refine Ensures.attempt (fun e w₂ hstep ↦ ?_) fun run w₂ hstep ↦ ?_
  · obtain ⟨-, -, rfl⟩ | ⟨id, now, he, -⟩ := step_createRun hstep
    · exact hframe
    · cases he
  · obtain ⟨_, he, -⟩ | ⟨id, now, he, hnone, hrun, hmine, hcreated⟩ := step_createRun hstep
    · cases he
    · obtain rfl := Except.ok.inj he
      refine ⟨?_, ⟨now, repo.id, hrun, hcreated.isRepo (hrepo repo rfl)⟩, hmine,
        (hframe.mono fun _ h ↦ h.elim).trans hcreated⟩
      exact (hframe.runs id fun h ↦ h).symm.trans hnone

/-- An end that does not throw has closed the run; one that throws has touched no other. -/
def Ended (c : Campaign) (slug runId : JsString) (w : World) :
    Except Thrown CampaignRepoResult → World → Prop
  | .ok result, w' => Frame (· = runId) w w' ∧ ∃ row, w'.store.getRun runId = some row ∧
      Records c slug w'.store row result
  | .error _, w' => Frame (· = runId) w w'

theorem audited_some {α β : Type} {audit : α → Except String β} {value : α} {kept : Db.Field β}
    (h : Db.audited audit (some (some value)) = .ok kept) :
    ∃ v, audit value = .ok v ∧ kept = some (some v) := by
  simp only [Db.audited, bind_eq_ok, pure_eq_ok] at h
  obtain ⟨v, hv, rfl⟩ := h
  exact ⟨v, hv, rfl⟩

theorem auditDigest_eq_ok {value kept : JsString}
    (h : Publishing.AuditText.auditDigest value = .ok kept) : kept = value := by
  simp only [Publishing.AuditText.auditDigest, bind_eq_ok, reject_eq_ok, exists_unit, pure_eq_ok] at h
  exact h.2.symm

theorem auditCommit_eq_ok {value kept : JsString}
    (h : Publishing.AuditText.auditCommit value = .ok kept) : kept = value := by
  simp only [Publishing.AuditText.auditCommit, bind_eq_ok, reject_eq_ok, exists_unit, pure_eq_ok] at h
  exact h.2.symm

theorem auditBranch_eq_ok {value kept : JsString}
    (h : Publishing.AuditText.auditBranch value = .ok kept) : kept = value := by
  simp only [Publishing.AuditText.auditBranch, bind_eq_ok, reject_eq_ok, exists_unit, pure_eq_ok] at h
  exact h.2.symm

/-- A commit that may be missing. -/
theorem setText_auditCommit {value old : Option JsString} {kept : Db.Field JsString}
    (h : Db.audited Publishing.AuditText.auditCommit (some value) = .ok kept) :
    Db.setText kept old = value.map sqlText := by
  cases value with
  | none =>
    obtain rfl := Except.ok.inj h
    rfl
  | some value =>
    obtain ⟨_, hvalue, rfl⟩ := audited_some h
    obtain rfl := auditCommit_eq_ok hvalue
    rfl

theorem terminal_run (status : OutcomeStatus) : status.run.terminal = true := by
  cases status <;> rfl

/-- An empty error is stored as an empty text, or not at all. -/
theorem getD_blockerError (publication : PublicationOutcome) :
    (Db.setText ((blockerError publication).map some) none).getD [] =
      sqlText (((blockerError publication).filter fun error ↦ decide (error ≠ [])).getD []) := by
  cases blockerError publication with
  | none => rfl
  | some error =>
    by_cases herror : error = []
    · rw [herror]
      rfl
    · rw [Option.filter_some, if_pos (decide_eq_true herror)]
      rfl

/-- What a result is recorded as. -/
theorem records_result {result : MigrateRepoResult} {audited : Db.AuditedFields} {now : ℤ}
    (haudited : (resultPatch result).audit = .ok audited) {store : Store} {now₀ : ℤ}
    {repoId branch : JsString} (hrepo : IsRepo store repoId slug) :
    Records c slug store ((resultPatch result).apply audited now
      (queuedRun runId now₀ ⟨c.campaignId, repoId, branch⟩)) (repoResult slug result) := by
  obtain ⟨artifactDigest, baseSha, baseBranch, headSha, publicationBlockers, overrideReason⟩ :=
    audited
  simp only [RunPatch.audit, bind_eq_ok, pure_eq_ok, Db.AuditedFields.mk.injEq] at haudited
  obtain ⟨_, hdigest, _, hsha, _, hbranch, _, hhead, _, hblockers, _, hreason, rfl, rfl, rfl, rfl,
    rfl, rfl⟩ := haudited
  obtain ⟨_, hdigest', rfl⟩ := audited_some hdigest
  obtain ⟨_, hsha', rfl⟩ := audited_some hsha
  obtain ⟨_, hbranch', rfl⟩ := audited_some hbranch
  obtain ⟨text, hblockers', rfl⟩ := audited_some hblockers
  obtain rfl := auditDigest_eq_ok hdigest'
  obtain rfl := auditCommit_eq_ok hsha'
  obtain rfl := auditBranch_eq_ok hbranch'
  obtain rfl := Except.ok.inj hreason
  refine ⟨rfl, rfl, hrepo, rfl, terminal_run _, ?_, rfl, getD_blockerError _, ?_, ?_, ?_⟩
  · show (if result.publication.status.run.terminal = true then some now else none).isSome = true
    rw [if_pos (terminal_run _)]
    rfl
  · rintro _ ⟨⟩
    rfl
  · rintro _ ⟨⟩
    exact ⟨rfl, rfl⟩
  · rintro _ ⟨⟩
    exact ⟨rfl, rfl, rfl, rfl, setText_auditCommit hhead, rfl, rfl, ⟨text, hblockers', rfl⟩, rfl,
      rfl⟩

theorem records_failure {error : Thrown} {audited : Db.AuditedFields} {now : ℤ}
    {store : Store} {now₀ : ℤ} {repoId branch : JsString} (hrepo : IsRepo store repoId slug) :
    Records c slug store ((buildFailedRunPatch error).apply audited now
      (queuedRun runId now₀ ⟨c.campaignId, repoId, branch⟩)) (failedResult slug error) := by
  unfold buildFailedRunPatch failedResult
  generalize failureMessage error = message
  cases error.audit with
  | none => exact ⟨rfl, rfl, hrepo, rfl, rfl, rfl, rfl, rfl, nofun, nofun, nofun⟩
  | some audit => exact ⟨rfl, rfl, hrepo, rfl, rfl, rfl, rfl, rfl, nofun, nofun, nofun⟩

theorem persistFailedRun_ensures (hqueued : Queued c slug runId w.store) (error : Thrown) :
    (persistFailedRun runId error >>= fun _ ↦ pure (failedResult slug error)).Ensures Step
      (Ended c slug runId w) w := by
  refine Ensures.attempt_bind (fun e w' hstep ↦ ?_) fun _ w' hstep ↦ ?_
  · obtain ⟨-, -, rfl⟩ | ⟨he, -⟩ := step_updateRun hstep
    · exact .refl _ _
    · cases he
  · obtain ⟨_, he, -⟩ | ⟨-, hframe, audited, now, -, hrun⟩ := step_updateRun hstep
    · cases he
    · obtain ⟨now₀, repoId, hrow, hrepo⟩ := hqueued
      rw [hrow] at hrun
      exact ⟨hframe, _, hrun, records_failure (hframe.isRepo hrepo)⟩

theorem endRun_ensures (hqueued : Queued c slug runId w.store)
    (migrated : Except Thrown MigrateRepoResult) :
    (endRun slug runId migrated).Ensures Step (Ended c slug runId w) w := by
  refine Ensures.recover ?_
  cases migrated with
  | error error => exact persistFailedRun_ensures hqueued error
  | ok result =>
    have hcaught : ∀ {w' : World} (e : Thrown), Frame (fun _ ↦ False) w w' →
        ((persistFailedRun runId e) >>= fun _ ↦ pure (failedResult slug e)).Ensures Step
          (Ended c slug runId w) w' := by
      intro w' e hframe
      obtain ⟨now₀, repoId, hrow, hrepo⟩ := hqueued
      have hqueued' : Queued c slug runId w'.store :=
        ⟨now₀, repoId, (hframe.runs runId fun h ↦ h).trans hrow, hframe.isRepo hrepo⟩
      have hbefore : Frame (· = runId) w w' := hframe.mono fun _ h ↦ h.elim
      refine (persistFailedRun_ensures hqueued' e).mono fun outcome w'' hended ↦ ?_
      cases outcome with
      | ok result => exact ⟨hbefore.trans hended.1, hended.2⟩
      | error e => exact hbefore.trans hended
    refine Ensures.attempt_bind (fun e w₁ hstep ↦ hcaught _ (step_upsertRepo hstep).1) ?_
    intro repo w₁ hstep
    have hframe := (step_upsertRepo hstep).1
    refine Ensures.attempt_bind (fun e w₂ hstep ↦ ?_) fun _ w₂ hstep ↦ ?_
    · obtain ⟨-, -, rfl⟩ | ⟨he, -⟩ := step_updateRun hstep
      · exact hcaught _ hframe
      · cases he
    · obtain ⟨_, he, -⟩ | ⟨-, hupdated, audited, now, haudited, hrun⟩ := step_updateRun hstep
      · cases he
      · obtain ⟨now₀, repoId, hrow, hrepo⟩ := hqueued
        rw [hframe.runs runId fun h ↦ h, hrow] at hrun
        exact ⟨(hframe.mono fun _ h ↦ h.elim).trans hupdated, _, hrun,
          records_result haudited (hupdated.isRepo (hframe.isRepo hrepo))⟩

/-! ### The runs of a campaign -/

abbrev CampaignJobs := Jobs World JsString CampaignRepoResult

/-- A repository that has a run. -/
def HasRun (jobs : CampaignJobs) (i : ℕ) : Prop :=
  (∃ runId, jobs.slot i = .active runId) ∨ ∃ result, jobs.slot i = .done result

/-- Which run belongs to which repository, and what it says. -/
structure Tracks (c : Campaign) (run : ℕ → JsString) (jobs : CampaignJobs) : Prop where
  mine : ∀ i, HasRun jobs i → run i ∈ jobs.world.mine
  apart : ∀ i j, HasRun jobs i → HasRun jobs j → run i = run j → i = j
  active : ∀ i runId, jobs.slot i = .active runId →
    runId = run i ∧ Queued c (c.slug i) runId jobs.world.store
  done : ∀ i result, jobs.slot i = .done result → ∃ row,
    jobs.world.store.getRun (run i) = some row ∧ Records c (c.slug i) jobs.world.store row result

variable {run : ℕ → JsString} {jobs : CampaignJobs}

theorem Tracks.isSome (h : Tracks c run jobs) {i : ℕ} (hi : HasRun jobs i) :
    jobs.world.store.getRun (run i) ≠ none := by
  obtain ⟨runId, hslot⟩ | ⟨result, hslot⟩ := hi
  · obtain ⟨rfl, now, repoId, hrow, -⟩ := h.active i runId hslot
    rw [hrow]
    exact Option.some_ne_none _
  · obtain ⟨row, hrow, -⟩ := h.done i result hslot
    rw [hrow]
    exact Option.some_ne_none _

/-- A repository whose run is not touched is where it was. -/
theorem Tracks.kept {changed : JsString → Prop} (h : Tracks c run jobs)
    (hframe : Frame changed jobs.world w') {i : ℕ} (hi : ¬ changed (run i)) :
    (∀ runId, jobs.slot i = .active runId →
      runId = run i ∧ Queued c (c.slug i) runId w'.store) ∧
        ∀ result, jobs.slot i = .done result → ∃ row, w'.store.getRun (run i) = some row ∧
          Records c (c.slug i) w'.store row result := by
  refine ⟨fun runId hslot ↦ ?_, fun result hslot ↦ ?_⟩
  · obtain ⟨rfl, now, repoId, hrow, hrepo⟩ := h.active i runId hslot
    exact ⟨rfl, now, repoId, (hframe.runs _ hi).trans hrow, hframe.isRepo hrepo⟩
  · obtain ⟨row, hrow, hrecords⟩ := h.done i result hslot
    exact ⟨row, (hframe.runs _ hi).trans hrow, hrecords.frame hframe⟩

/-- A repository that has no run to look after any longer. -/
theorem Tracks.lose {changed : JsString → Prop} (h : Tracks c run jobs)
    (hframe : Frame changed jobs.world w') {i : ℕ}
    (hchanged : ∀ j, j ≠ i → HasRun jobs j → ¬ changed (run j)) :
    Tracks c run ⟨Function.update jobs.slot i .lost, w'⟩ := by
  have hold : ∀ {j}, HasRun ⟨Function.update jobs.slot i .lost, w'⟩ j →
      j ≠ i ∧ HasRun jobs j := by
    intro j hj
    by_cases hne : j = i
    · subst hne
      simp [HasRun] at hj
    · simp only [HasRun, Function.update_of_ne hne] at hj
      exact ⟨hne, hj⟩
  refine ⟨fun j hj ↦ hframe.mine _ (h.mine j (hold hj).2), fun j k hj hk ↦
    h.apart j k (hold hj).2 (hold hk).2, fun j runId hslot ↦ ?_, fun j result hslot ↦ ?_⟩
  · obtain ⟨hne, hj⟩ := hold (Or.inl ⟨runId, hslot⟩)
    simp only [Function.update_of_ne hne] at hslot
    exact (h.kept hframe (hchanged j hne hj)).1 runId hslot
  · obtain ⟨hne, hj⟩ := hold (Or.inr ⟨result, hslot⟩)
    simp only [Function.update_of_ne hne] at hslot
    exact (h.kept hframe (hchanged j hne hj)).2 result hslot

theorem Tracks.begins (h : Tracks c run jobs) {i : ℕ} (hwaiting : jobs.slot i = .waiting)
    {row : MigrationRun} (hbegun : Begun c (c.slug i) jobs.world (.ok row) w') :
    Tracks c (Function.update run i row.id)
      ⟨Function.update jobs.slot i (.active row.id), w'⟩ := by
  obtain ⟨hnone, hqueued, hmine, hframe⟩ := hbegun
  have hfresh : ∀ {j}, HasRun jobs j → run j ≠ row.id := fun hj hsame ↦
    h.isSome hj (hsame ▸ hnone)
  have hwas : ¬ HasRun jobs i := by
    rintro (⟨_, hslot⟩ | ⟨_, hslot⟩) <;> exact nomatch hwaiting.symm.trans hslot
  have hold : ∀ {j}, HasRun ⟨Function.update jobs.slot i (.active row.id), w'⟩ j → j ≠ i →
      HasRun jobs j := by
    intro j hj hne
    simp only [HasRun, Function.update_of_ne hne] at hj
    exact hj
  refine ⟨fun j hj ↦ ?_, fun j k hj hk hsame ↦ ?_, fun j runId hslot ↦ ?_,
    fun j result hslot ↦ ?_⟩
  · by_cases hne : j = i
    · rw [hne, Function.update_self]
      exact hmine
    · rw [Function.update_of_ne hne]
      exact hframe.mine _ (h.mine j (hold hj hne))
  · by_cases hj' : j = i
    · by_cases hk' : k = i
      · rw [hj', hk']
      · rw [hj', Function.update_self, Function.update_of_ne hk'] at hsame
        exact absurd hsame.symm (hfresh (hold hk hk'))
    · by_cases hk' : k = i
      · rw [hk', Function.update_self, Function.update_of_ne hj'] at hsame
        exact absurd hsame (hfresh (hold hj hj'))
      · rw [Function.update_of_ne hj', Function.update_of_ne hk'] at hsame
        exact h.apart j k (hold hj hj') (hold hk hk') hsame
  · by_cases hne : j = i
    · subst hne
      simp only [Function.update_self] at hslot ⊢
      obtain rfl := Slot.active.inj hslot
      exact ⟨rfl, hqueued⟩
    · simp only [Function.update_of_ne hne] at hslot ⊢
      exact (h.kept hframe (hfresh (Or.inl ⟨runId, hslot⟩))).1 runId hslot
  · have hne : j ≠ i := by
      rintro rfl
      simp only [Function.update_self] at hslot
      cases hslot
    simp only [Function.update_of_ne hne] at hslot ⊢
    exact (h.kept hframe (hfresh (Or.inr ⟨result, hslot⟩))).2 result hslot

theorem Tracks.ends (h : Tracks c run jobs) {i : ℕ} {runId : JsString}
    (hactive : jobs.slot i = .active runId) {result : CampaignRepoResult}
    (hended : Ended c (c.slug i) runId jobs.world (.ok result) w') :
    Tracks c run ⟨Function.update jobs.slot i (.done result), w'⟩ := by
  obtain ⟨hframe, row, hrow, hrecords⟩ := hended
  obtain ⟨rfl, -⟩ := h.active i runId hactive
  have hold : ∀ {j}, HasRun ⟨Function.update jobs.slot i (.done result), w'⟩ j →
      HasRun jobs j := by
    intro j hj
    by_cases hne : j = i
    · exact Or.inl ⟨_, hne ▸ hactive⟩
    · simp only [HasRun, Function.update_of_ne hne] at hj
      exact hj
  refine ⟨fun j hj ↦ hframe.mine _ (h.mine j (hold hj)), fun j k hj hk ↦
    h.apart j k (hold hj) (hold hk), fun j runId hslot ↦ ?_, fun j other hslot ↦ ?_⟩
  · have hne : j ≠ i := by
      rintro rfl
      simp only [Function.update_self] at hslot
      cases hslot
    have hapart : run j ≠ run i := fun hsame ↦
      hne (h.apart j i (hold (Or.inl ⟨runId, hslot⟩)) (Or.inl ⟨_, hactive⟩) hsame)
    simp only [Function.update_of_ne hne] at hslot
    exact (h.kept hframe hapart).1 runId hslot
  · by_cases hne : j = i
    · subst hne
      simp only [Function.update_self] at hslot
      obtain rfl := Slot.done.inj hslot
      exact ⟨row, hrow, hrecords⟩
    · have hapart : run j ≠ run i := fun hsame ↦
        hne (h.apart j i (hold (Or.inr ⟨other, hslot⟩)) (Or.inl ⟨_, hactive⟩) hsame)
      simp only [Function.update_of_ne hne] at hslot
      exact (h.kept hframe hapart).2 other hslot

theorem Tracks.others (h : Tracks c run jobs) (hothers : Others jobs.world w') :
    Tracks c run ⟨jobs.slot, w'⟩ := by
  have hframe : Frame (fun id ↦ id ∉ jobs.world.mine) jobs.world w' :=
    ⟨fun id hid ↦ hothers.runs id (not_not.mp hid), hothers.repos, fun id hid ↦ by
      rw [hothers.mine]
      exact hid⟩
  have hmine : ∀ {j}, HasRun jobs j → ¬ run j ∉ jobs.world.mine := fun hj hnot ↦ hnot (h.mine _ hj)
  exact ⟨fun j hj ↦ hframe.mine _ (h.mine j hj), h.apart,
    fun j runId hslot ↦ (h.kept hframe (hmine (Or.inl ⟨runId, hslot⟩))).1 runId hslot,
    fun j result hslot ↦ (h.kept hframe (hmine (Or.inr ⟨result, hslot⟩))).2 result hslot⟩

/-- A step of one repository. -/
theorem Tracks.step {n : ℕ} {jobs' : CampaignJobs} (h : Tracks c run jobs)
    (hstep : JobStep (processing c) n jobs jobs') : ∃ run', Tracks c run' jobs' := by
  cases hstep with
  | begins i token world hi hwaiting hbegins =>
    obtain ⟨result, hends, htoken⟩ := hbegins
    have hbegun := (beginRun_ensures c (c.slug i) jobs.world).ends hends
    cases result with
    | ok row =>
      obtain rfl := Option.some.inj htoken
      exact ⟨_, h.begins hwaiting hbegun⟩
    | error e => cases htoken
  | refuses i world hi hwaiting hbegins =>
    obtain ⟨result, hends, htoken⟩ := hbegins
    have hbegun := (beginRun_ensures c (c.slug i) jobs.world).ends hends
    cases result with
    | ok row => cases htoken
    | error e => exact ⟨run, h.lose hbegun fun _ _ _ hfalse ↦ hfalse⟩
  | ends i runId result world hactive hends =>
    obtain ⟨migrated, outcome, hends, hresult⟩ := hends
    have hended := (endRun_ensures (h.active i runId hactive).2 migrated).ends hends
    cases outcome with
    | ok result =>
      obtain rfl := Option.some.inj hresult
      exact ⟨run, h.ends hactive hended⟩
    | error e => cases hresult
  | breaks i runId world hactive hends =>
    obtain ⟨migrated, outcome, hends, hresult⟩ := hends
    have hended := (endRun_ensures (h.active i runId hactive).2 migrated).ends hends
    cases outcome with
    | ok result => cases hresult
    | error e =>
      refine ⟨run, h.lose hended fun j hne hj hsame ↦ hne (h.apart j i hj (Or.inl ⟨_, hactive⟩) ?_)⟩
      exact hsame.trans (h.active i runId hactive).1
  | others world hothers => exact ⟨run, h.others hothers⟩

/-- Any number of steps. -/
theorem tracks {n : ℕ} {store : Store} (hjobs : Relation.ReflTransGen (JobStep (processing c) n)
    (Jobs.initial ⟨store, []⟩) jobs) : ∃ run, Tracks c run jobs := by
  induction hjobs with
  | refl =>
    have hnone : ∀ i, ¬ HasRun (Jobs.initial ⟨store, []⟩) i := by
      rintro i (⟨_, hslot⟩ | ⟨_, hslot⟩) <;> cases hslot
    exact ⟨fun _ ↦ [], fun i hi ↦ absurd hi (hnone i), fun i _ hi ↦ absurd hi (hnone i),
      fun _ _ hslot ↦ (nomatch hslot), fun _ _ hslot ↦ (nomatch hslot)⟩
  | tail _ hstep ih =>
    obtain ⟨run, h⟩ := ih
    exact h.step hstep

/-! ### Whole campaigns -/

variable {store : Store} {k m : ℕ} {pool : CampaignPool k}

/-- A repository that a worker has taken and not lost. -/
def InPool (pool : CampaignPool k) (i : ℕ) : Prop :=
  (∃ w runId, pool.worker w = .working i runId) ∨ ∃ result, pool.result i = some result

/-- What the store says of the repositories: one in work has a queued run, one with a result has a
closed run that says what the result says, and no two of them share a run. -/
structure Reports (c : Campaign) (pool : CampaignPool k) (run : ℕ → JsString) : Prop where
  working : ∀ w i runId, pool.worker w = .working i runId →
    runId = run i ∧ Queued c (c.slug i) (run i) pool.world.store
  done : ∀ i result, pool.result i = some result → ∃ row,
    pool.world.store.getRun (run i) = some row ∧
      Records c (c.slug i) pool.world.store row result
  apart : ∀ i j, InPool pool i → InPool pool j → run i = run j → i = j

/-- At any moment, in whatever order the workers and everybody else have acted. -/
theorem runCampaign_reports (hreaches : Reaches c store k m pool) : ∃ run, Reports c pool run := by
  obtain ⟨jobs, hviews, hjobs⟩ := hreaches.views
  obtain ⟨run, h⟩ := tracks hjobs
  have hrun : ∀ {i}, InPool pool i → HasRun jobs i := by
    rintro i (⟨w, runId, hw⟩ | ⟨result, hresult⟩)
    · exact Or.inl ⟨runId, (hviews.active i runId).mpr ⟨w, hw⟩⟩
    · exact Or.inr ⟨result, (hviews.done i result).mpr hresult⟩
  refine ⟨run, fun w i runId hw ↦ ?_, fun i result hresult ↦ ?_, fun i j hi hj ↦
    h.apart i j (hrun hi) (hrun hj)⟩
  · obtain ⟨rfl, hqueued⟩ := h.active i runId ((hviews.active i runId).mpr ⟨w, hw⟩)
    rw [hviews.world] at hqueued
    exact ⟨rfl, hqueued⟩
  · have hdone := h.done i result ((hviews.done i result).mpr hresult)
    rw [hviews.world] at hdone
    exact hdone

theorem workers_pos {concurrency : Option ℤ} {n : ℕ} : n = 0 ∨ 0 < workers concurrency n := by
  unfold workers
  omega

theorem workers_le (concurrency : Option ℤ) (n : ℕ) : workers concurrency n ≤ 5 := by
  unfold workers
  omega

/-- There are never more than five repositories in work, and the workers come to an end. -/
theorem runCampaign_bounded {concurrency : Option ℤ}
    {pool : CampaignPool (workers concurrency c.repoSlugs.length)}
    (hreaches : Reaches c store (workers concurrency c.repoSlugs.length) m pool) :
    { i | ∃ w runId, pool.worker w = .working i runId }.ncard ≤ 5 ∧
      m ≤ 2 * c.repoSlugs.length + 5 := by
  obtain ⟨jobs, hviews, -⟩ := hreaches.views
  have hflight : { i | ∃ w runId, pool.worker w = .working i runId } = jobs.inFlight := by
    ext i
    constructor
    · rintro ⟨w, runId, hw⟩
      exact ⟨runId, (hviews.active i runId).mpr ⟨w, hw⟩⟩
    · rintro ⟨runId, hslot⟩
      obtain ⟨w, hw⟩ := (hviews.active i runId).mp hslot
      exact ⟨w, runId, hw⟩
  have hworkers := workers_le concurrency c.repoSlugs.length
  have hsteps := hreaches.le
  rw [hflight]
  exact ⟨hviews.inFlight_le.2.trans hworkers, by omega⟩

/-- A campaign that returns has one result for each repository, in the order of the repositories,
and for each a closed run of its own that says what the result says. -/
theorem runCampaign_returns {parseStoredManifest : JsString → Except String JsValue}
    {input : RunCampaignInput} {summary : CampaignRunSummary}
    (hreturns : Returns parseStoredManifest input store summary w) :
    ∃ c, prepareCampaign parseStoredManifest store input = .ok c ∧ c.repoSlugs.Nodup ∧
      summary.total = c.repoSlugs.length ∧ summary.results.length = c.repoSlugs.length ∧
        ∃ run : ℕ → JsString, Set.InjOn run (Set.Iio c.repoSlugs.length) ∧
          ∀ i < c.repoSlugs.length, ∃ result row, summary.results[i]? = some (some result) ∧
            w.store.getRun (run i) = some row ∧ Records c (c.slug i) w.store row result := by
  obtain ⟨c, m, pool, hprepare, hreaches, hfinished, rfl, rfl⟩ := hreturns
  obtain ⟨run, hreports⟩ := runCampaign_reports hreaches
  obtain ⟨jobs, hviews, -⟩ := hreaches.views
  have hresult : ∀ {i}, i < c.repoSlugs.length → ∃ result, pool.result i = some result := by
    intro i hi
    obtain ⟨result, hresult, -⟩ := hviews.finished hfinished workers_pos hi
    exact ⟨result, hresult⟩
  have hnodup : c.repoSlugs.Nodup := by
    simp only [prepareCampaign, bind_eq_ok, reject_eq_ok, exists_unit, pure_eq_ok] at hprepare
    obtain ⟨_, -, -, _, -, branch, -, slugs, -, hlength, rfl⟩ := hprepare
    exact List.dedup_eq_self.mp
      ((List.dedup_sublist slugs).eq_of_length (not_not.mp hlength))
  refine ⟨c, hprepare, hnodup, rfl, by simp, run, fun i hi j hj ↦ hreports.apart i j
    (Or.inr (hresult hi)) (Or.inr (hresult hj)), fun i hi ↦ ?_⟩
  obtain ⟨result, hi'⟩ := hresult hi
  obtain ⟨row, hrow, hrecords⟩ := hreports.done i result hi'
  refine ⟨result, row, ?_, hrow, hrecords⟩
  rw [List.getElem?_map, List.getElem?_range hi, Option.map_some, hi']

/-! ### A campaign of one repository -/

/-- A store that answers every call it can. -/
def perform (w : World) : (op : Op) → Answer op × World
  | .upsertRepo input =>
    match w.store.upsertRepo (js "repo") input with
    | .ok store =>
      match store.getRepoBySlug input.slug with
      | some row => (.ok row, { w with store := store })
      | none => (.error "not found", w)
    | .error message => (.error message, w)
  | .createRun input =>
    match w.store.createRun (js "run") 0 input with
    | .ok store => (.ok (queuedRun (js "run") 0 input), ⟨store, js "run" :: w.mine⟩)
    | .error message => (.error message, w)
  | .updateRun id patch =>
    match w.store.updateRun 1 id patch with
    | .ok store => (.ok (), { w with store := store })
    | .error message => (.error message, w)

theorem step_perform (w : World) (op : Op) : Step w op (perform w op).1 (perform w op).2 := by
  cases op with
  | upsertRepo input =>
    simp only [perform]
    split
    · next store hstore =>
      split
      · next row hrow => exact .upserts input _ store row hstore hrow
      · exact .fails _ _
    · exact .fails _ _
  | createRun input =>
    simp only [perform]
    split
    · next store hstore => exact .creates input _ _ store hstore
    · exact .fails _ _
  | updateRun id patch =>
    simp only [perform]
    split
    · next store hstore => exact .updates id _ patch store hstore
    · exact .fails _ _

def sampleStore : Store where
  campaigns := [⟨js "campaign", js "active", js "{}"⟩]
  repos := []
  runs := []
  repoIds := List.nodup_nil
  slugs := List.nodup_nil
  runIds := List.nodup_nil
  references _ h := absurd h List.not_mem_nil

def sampleInput : RunCampaignInput := ⟨js "campaign", [js "octo/app"], none, none⟩

def sampleCampaign : Campaign := ⟨js "campaign", [js "octo/app"], none⟩

def sampleManifest (_ : JsString) : Except String JsValue := .ok .null

theorem prepare_sample :
    prepareCampaign sampleManifest sampleStore sampleInput = .ok sampleCampaign := by
  rfl

def sampleThrown : Thrown := ⟨⟨.string (js "clone failed"), .other, .other, .other⟩, none⟩

def sampleBegun : Except Thrown MigrationRun × World :=
  (beginRun sampleCampaign (js "octo/app")).run perform ⟨sampleStore, []⟩

def sampleEnded : Except Thrown CampaignRepoResult × World :=
  (endRun (js "octo/app") (js "run") (.error sampleThrown)).run perform sampleBegun.2

def sampleWorker : Fin (workers none 1) := ⟨0, by decide⟩

def sampleResult : CampaignRepoResult :=
  sampleEnded.1.toOption.getD (failedResult (js "octo/app") sampleThrown)

def samplePool : CampaignPool (workers none 1) where
  cursor := 2
  worker := Function.update (Function.update (Function.update (fun _ ↦ .ready) sampleWorker
    (.working 0 (js "run"))) sampleWorker .ready) sampleWorker .stopped
  result := Function.update (fun _ ↦ none) 0 (some sampleResult)
  world := sampleEnded.2

theorem reaches_sample : Reaches sampleCampaign sampleStore (workers none 1) 3 samplePool := by
  have hbegun : (beginRun sampleCampaign (js "octo/app")).Ends Step ⟨sampleStore, []⟩
      sampleBegun.1 sampleBegun.2 := run_ends step_perform _ _
  have hended : (endRun (js "octo/app") (js "run") (.error sampleThrown)).Ends Step sampleBegun.2
      sampleEnded.1 sampleEnded.2 := run_ends step_perform _ _
  have htoken : some (js "run") = sampleBegun.1.toOption.map MigrationRun.id := by decide +kernel
  have hsome : sampleEnded.1.toOption.isSome = true := by decide +kernel
  have hresult : some sampleResult = sampleEnded.1.toOption := by
    unfold sampleResult
    cases hend : sampleEnded.1.toOption with
    | none =>
      rw [hend] at hsome
      cases hsome
    | some result => rfl
  have hstart : Reaches sampleCampaign sampleStore (workers none 1) 0
      (Pool.initial (workers none 1) ⟨sampleStore, []⟩) := .none
  have hfirst := hstart.own
    (.begins sampleWorker (js "run") sampleBegun.2 rfl (by decide) ⟨_, hbegun, htoken⟩)
  have hsecond := Runs.own hfirst (.ends sampleWorker 0 (js "run") sampleResult sampleEnded.2
    rfl ⟨.error sampleThrown, _, hended, hresult⟩)
  exact Runs.own hsecond (.stops sampleWorker rfl le_rfl)

theorem finished_sample : samplePool.Finished := by
  intro w
  have hworkers : workers none 1 = 1 := by decide
  obtain rfl : w = sampleWorker := Fin.ext (by
    have hlt := w.isLt
    have hzero : sampleWorker.val = 0 := rfl
    omega)
  simp only [samplePool, Function.update_self]

theorem runCampaign_reports_sample : ∃ run, Reports sampleCampaign samplePool run :=
  runCampaign_reports reaches_sample

theorem runCampaign_bounded_sample :
    { i | ∃ w runId, samplePool.worker w = .working i runId }.ncard ≤ 5 :=
  (@runCampaign_bounded sampleCampaign sampleStore 3 none samplePool reaches_sample).1

theorem runCampaign_returns_sample : ∃ run : ℕ → JsString, ∀ i < 1, ∃ result row,
    [samplePool.result 0][i]? = some (some result) ∧
      samplePool.world.store.getRun (run i) = some row ∧ row.status = result.status := by
  have hreturns : Returns sampleManifest sampleInput sampleStore
      ⟨js "campaign", 1, [samplePool.result 0]⟩ samplePool.world :=
    ⟨sampleCampaign, 3, samplePool, prepare_sample, reaches_sample, finished_sample, rfl, rfl⟩
  obtain ⟨c, hc, -, -, -, run, -, hall⟩ := runCampaign_returns hreturns
  obtain rfl : sampleCampaign = c := Except.ok.inj (prepare_sample.symm.trans hc)
  refine ⟨run, fun i hi ↦ ?_⟩
  obtain ⟨result, row, hresult, hrow, hrecords⟩ := hall i hi
  exact ⟨result, row, hresult, hrow, hrecords.status⟩

end ApiMigrator.App.CampaignRunner
