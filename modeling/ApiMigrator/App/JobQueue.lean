import ApiMigrator.App.CampaignRunner

/-!
`queue.ts`: a batch of previews runs with bounded concurrency, without a store. A job that throws
becomes a result of its own and stops no other.
-/

set_option autoImplicit false
set_option relaxedAutoImplicit false

namespace ApiMigrator.App.JobQueue

open Foundation.Text Foundation.Number Foundation.Json Foundation.Outcome
open Foundation.WorkerPool (Jobs JobStep Pool PoolStep Processing Runs Slot exists_step)
open CampaignRunner (Thrown failureMessage)
open Db (PublicationMode)

/-! ### Jobs -/

/-- What a report says of the manifest, and whether it has a runtime policy. -/
structure JobManifest where
  name : JsString
  provider : JsString
  runtime : Bool

/-- A job, of which the queue looks at the capabilities that it must not have. -/
structure MigrationJob where
  id : JsString
  manifest : JobManifest
  publicationMode : Option PublicationMode
  ownerChallenge : Option JsValue
  runnerAttestation : Option JsValue

def MigrationJob.isPrivileged (job : MigrationJob) : Bool :=
  decide (job.publicationMode = some .publish) || job.ownerChallenge.isSome ||
    job.runnerAttestation.isSome

def skippedCheck : JsValue :=
  .obj [(js "status", .str (js "skipped")), (js "command", .null), (js "exitCode", .null),
    (js "output", .str []), (js "reason", .str (js "job failed before verification"))]

def emptyReport (manifest : JobManifest) : JsValue :=
  .obj [
    (js "manifest",
      .obj [(js "name", .str manifest.name), (js "provider", .str manifest.provider)]),
    (js "scannedFiles", .arr []),
    (js "changedFiles", .arr []),
    (js "entries", .arr []),
    (js "verification", .obj [
      (js "ok", .bool false),
      (js "baseline", .arr []),
      (js "after", .arr []),
      (js "introduced", .arr []),
      (js "skipped", .bool true),
      (js "skipReason", .str (js "job failed")),
      (js "runner", .str (js "not-started")),
      (js "checks", .obj ([(js "install", skippedCheck), (js "typecheck", skippedCheck),
        (js "test", skippedCheck), (js "lint", skippedCheck)] ++
          if manifest.runtime = true then [(js "runtime", skippedCheck)] else []))]),
    (js "summary", .obj [(js "applied", .num (.int 0)), (js "review", .num (.int 0)),
      (js "changedFiles", .num (.int 0)), (js "introducedErrors", .num (.int 0)),
      (js "verified", .str (js "skipped"))])]

variable {R : Type}

inductive MigrationJobResult (R : Type)
  | migrated (result : R) (id : JsString)
  | failed (id : JsString) (report : JsValue) (error : JsString)

def MigrationJobResult.id : MigrationJobResult R → JsString
  | migrated _ id => id
  | failed id _ _ => id

/-- What becomes of the answer of `migrateRepo`. -/
def jobResult (job : MigrationJob) : Except Thrown R → MigrationJobResult R
  | .ok result => .migrated result job.id
  | .error e => .failed job.id (emptyReport job.manifest) (failureMessage e)

/-! ### The queue -/

/-- The calls of `migrateRepo` so far, and its answers. -/
structure Calls (R : Type) where
  begun : List ℕ
  answers : List (ℕ × Except Thrown R)

def processing (jobs : List MigrationJob) :
    Processing (Calls R) Unit (MigrationJobResult R) where
  begins i calls token calls' :=
    token = some () ∧ calls' = { calls with begun := calls.begun ++ [i] }
  ends i _ calls result calls' := ∃ job answer, jobs[i]? = some job ∧
    calls' = { calls with answers := calls.answers ++ [(i, answer)] } ∧
      result = some (jobResult job answer)
  others calls calls' := calls' = calls

abbrev JobPool (R : Type) (k : ℕ) := Pool k (Calls R) Unit (MigrationJobResult R)

/-- `Math.min(Math.max(1, opts.concurrency ?? 2), jobs.length)` -/
def workers (concurrency : Option ℤ) (n : ℕ) : ℕ := min (max 1 (concurrency.getD 2)).toNat n

/-- The whole batch is looked at before any work is started. -/
def assertPreviewOnly (jobs : List MigrationJob) : Except String Unit :=
  reject (jobs.any MigrationJob.isPrivileged = true) "runCampaignJobs is preview-only"

/-- What the workers may have come to. -/
def Reaches (jobs : List MigrationJob) (k m : ℕ) (pool : JobPool R k) : Prop :=
  assertPreviewOnly jobs = .ok () ∧
    Runs (processing jobs) jobs.length (Pool.initial k ⟨[], []⟩) m pool

/-! ### What is called -/

/-- A job has been begun once it no longer waits, and answered once it is done. -/
structure Tracks (jobs : List MigrationJob) (state : Jobs (Calls R) Unit (MigrationJobResult R)) :
    Prop where
  begun : state.world.begun.Nodup
  mem_begun : ∀ i, i ∈ state.world.begun ↔ state.slot i ≠ .waiting
  noneLost : ∀ i, state.slot i ≠ .lost
  answered : (state.world.answers.map Prod.fst).Nodup
  mem_answers : ∀ i, i ∈ state.world.answers.map Prod.fst → ∃ result, state.slot i = .done result
  done : ∀ i result, state.slot i = .done result → ∃ job answer, jobs[i]? = some job ∧
    (i, answer) ∈ state.world.answers ∧ result = jobResult job answer

variable {jobs : List MigrationJob} {state state' : Jobs (Calls R) Unit (MigrationJobResult R)}

theorem Tracks.step {n : ℕ} (h : Tracks jobs state)
    (hstep : JobStep (processing jobs) n state state') : Tracks jobs state' := by
  cases hstep with
  | begins i token calls hi hwaiting hbegins =>
    obtain ⟨-, rfl⟩ := hbegins
    have hnew : i ∉ state.world.begun := fun hmem ↦ (h.mem_begun i).mp hmem hwaiting
    refine ⟨?_, fun j ↦ ?_, fun j ↦ ?_, h.answered, fun j hj ↦ ?_, fun j result hslot ↦ ?_⟩
    · exact List.nodup_append.mpr ⟨h.begun, List.nodup_singleton i, fun a ha b hb hab ↦
        hnew (List.mem_singleton.mp hb ▸ hab ▸ ha)⟩
    · by_cases hne : j = i
      · simp [hne]
      · simp only [List.mem_append, List.mem_singleton, hne, or_false, Function.update_of_ne hne]
        exact h.mem_begun j
    · by_cases hne : j = i
      · simp [hne]
      · simp only [Function.update_of_ne hne]
        exact h.noneLost j
    · obtain ⟨result, hdone⟩ := h.mem_answers j hj
      have hne : j ≠ i := by
        rintro rfl
        exact nomatch hwaiting.symm.trans hdone
      exact ⟨result, by simpa only [Function.update_of_ne hne] using hdone⟩
    · have hne : j ≠ i := by
        rintro rfl
        simp only [Function.update_self] at hslot
        cases hslot
      simp only [Function.update_of_ne hne] at hslot
      exact h.done j result hslot
  | refuses i calls hi hwaiting hbegins => cases hbegins.1
  | ends i token result calls hactive hends =>
    obtain ⟨job, answer, hjob, rfl, hresult⟩ := hends
    obtain rfl := Option.some.inj hresult
    have hnew : i ∉ state.world.answers.map Prod.fst := by
      intro hmem
      obtain ⟨result, hdone⟩ := h.mem_answers i hmem
      exact nomatch hactive.symm.trans hdone
    refine ⟨h.begun, fun j ↦ ?_, fun j ↦ ?_, ?_, fun j hj ↦ ?_, fun j result hslot ↦ ?_⟩
    · by_cases hne : j = i
      · simp only [hne, Function.update_self, ne_eq, reduceCtorEq, not_false_eq_true, iff_true]
        exact (h.mem_begun i).mpr fun hwaiting ↦ nomatch hactive.symm.trans hwaiting
      · simp only [Function.update_of_ne hne]
        exact h.mem_begun j
    · by_cases hne : j = i
      · simp [hne]
      · simp only [Function.update_of_ne hne]
        exact h.noneLost j
    · rw [List.map_append, List.map_singleton]
      refine List.nodup_append.mpr ⟨h.answered, List.nodup_singleton _, fun a ha b hb hab ↦ ?_⟩
      rw [hab, List.mem_singleton.mp hb] at ha
      exact hnew ha
    · by_cases hne : j = i
      · exact ⟨_, by rw [hne]; exact Function.update_self ..⟩
      · rw [List.map_append, List.map_singleton, List.mem_append, List.mem_singleton] at hj
        obtain ⟨result, hdone⟩ := h.mem_answers j (hj.resolve_right hne)
        exact ⟨result, by simpa only [Function.update_of_ne hne] using hdone⟩
    · by_cases hne : j = i
      · subst hne
        simp only [Function.update_self] at hslot
        obtain rfl := Slot.done.inj hslot
        exact ⟨job, answer, hjob, List.mem_append_right _ (List.mem_singleton_self _), rfl⟩
      · simp only [Function.update_of_ne hne] at hslot
        obtain ⟨job', answer', hjob', hmem, rfl⟩ := h.done j result hslot
        exact ⟨job', answer', hjob', List.mem_append_left _ hmem, rfl⟩
  | breaks i token calls hactive hends =>
    obtain ⟨_, _, _, _, hresult⟩ := hends
    cases hresult
  | others calls hothers =>
    obtain rfl : calls = state.world := hothers
    exact h

theorem tracks {n : ℕ} (hstate : Relation.ReflTransGen (JobStep (processing jobs) n)
    (Jobs.initial ⟨[], []⟩) state) : Tracks jobs state := by
  induction hstate with
  | refl =>
    exact ⟨List.nodup_nil, fun i ↦ by simp [Jobs.initial], fun i hslot ↦ (nomatch hslot),
      List.nodup_nil, fun i hi ↦ absurd hi List.not_mem_nil, fun i _ hslot ↦ (nomatch hslot)⟩
  | tail _ hstep ih => exact ih.step hstep

/-! ### Whole batches -/

theorem workers_pos {concurrency : Option ℤ} {n : ℕ} : n = 0 ∨ 0 < workers concurrency n := by
  unfold workers
  omega

variable {concurrency : Option ℤ} {m : ℕ}
  {pool : JobPool R (workers concurrency jobs.length)}

/-- A batch that returns has called `migrateRepo` once for each job, and its results are what the
answers make of the jobs, in the order of the jobs. No job of it could publish. -/
theorem runCampaignJobs_returns
    (hreaches : Reaches jobs (workers concurrency jobs.length) m pool)
    (hfinished : pool.Finished) :
    (∀ job ∈ jobs, job.isPrivileged = false) ∧
      pool.world.begun.Perm (List.range jobs.length) ∧
        (pool.world.answers.map Prod.fst).Perm (List.range jobs.length) ∧
          ∀ i job, jobs[i]? = some job → ∃ answer, (i, answer) ∈ pool.world.answers ∧
            pool.result i = some (jobResult job answer) ∧ (jobResult job answer).id = job.id := by
  obtain ⟨hpreview, hruns⟩ := hreaches
  obtain ⟨state, hviews, hstate⟩ := hruns.views
  have h := tracks hstate
  have hdone : ∀ {i}, i < jobs.length → ∃ result, pool.result i = some result ∧
      state.slot i = .done result := fun hi ↦ hviews.finished hfinished workers_pos hi
  have hlt : ∀ {i}, state.slot i ≠ .waiting → i < jobs.length := by
    intro i hslot
    by_contra hge
    exact hslot ((hviews.waiting i).mpr fun hboth ↦ hge hboth.2)
  refine ⟨?_, ?_, ?_, fun i job hjob ↦ ?_⟩
  · rw [assertPreviewOnly, reject_eq_ok, Bool.not_eq_true, List.any_eq_false] at hpreview
    exact fun job hjob ↦ Bool.not_eq_true _ ▸ hpreview job hjob
  · rw [← hviews.world]
    refine (List.perm_ext_iff_of_nodup h.begun List.nodup_range).mpr fun i ↦ ?_
    rw [h.mem_begun, List.mem_range]
    refine ⟨hlt, fun hi hwaiting ↦ ?_⟩
    obtain ⟨result, -, hslot⟩ := hdone hi
    exact nomatch hwaiting.symm.trans hslot
  · rw [← hviews.world]
    refine (List.perm_ext_iff_of_nodup h.answered List.nodup_range).mpr fun i ↦ ?_
    rw [List.mem_range]
    constructor
    · intro hi
      obtain ⟨result, hslot⟩ := h.mem_answers i hi
      exact hlt fun hwaiting ↦ nomatch hwaiting.symm.trans hslot
    · intro hi
      obtain ⟨result, -, hslot⟩ := hdone hi
      obtain ⟨job, answer, -, hmem, -⟩ := h.done i result hslot
      exact List.mem_map_of_mem hmem
  · obtain ⟨hi, rfl⟩ := List.getElem?_eq_some_iff.mp hjob
    obtain ⟨result, hresult, hslot⟩ := hdone hi
    obtain ⟨job, answer, hjob', hmem, rfl⟩ := h.done i result hslot
    obtain rfl := Option.some.inj (hjob.symm.trans hjob')
    rw [hviews.world] at hmem
    refine ⟨answer, hmem, hresult, ?_⟩
    cases answer <;> rfl

/-- The workers come to an end, and where none of them can go on the batch returns: no job takes
its worker with it. -/
theorem runCampaignJobs_ends
    (hreaches : Reaches jobs (workers concurrency jobs.length) m pool) :
    m ≤ 2 * jobs.length + workers concurrency jobs.length ∧
      ((∀ pool', ¬ PoolStep (processing jobs) jobs.length pool pool') → pool.Finished) := by
  obtain ⟨-, hruns⟩ := hreaches
  obtain ⟨state, hviews, hstate⟩ := hruns.views
  have h := tracks hstate
  have hle := hruns.le
  refine ⟨by omega, fun hstuck w ↦ ?_⟩
  by_contra hw
  have hfailed : ∀ i, pool.worker w ≠ .failed i := fun i hi ↦
    h.noneLost i ((hviews.lost i).mpr ⟨w, hi⟩)
  have hends : ∀ i token, pool.worker w = .working i token →
      ∃ result calls, (processing jobs).ends i token pool.world result calls := by
    intro i token hworker
    have hslot := (hviews.active i token).mpr ⟨w, hworker⟩
    have hi : i < jobs.length := by
      by_contra hge
      exact nomatch ((hviews.waiting i).mpr fun hboth ↦ hge hboth.2).symm.trans hslot
    exact ⟨_, _, jobs[i], .error ⟨⟨.other, .other, .other, .other⟩, none⟩,
      List.getElem?_eq_getElem hi, rfl, rfl⟩
  have hbegins : ∃ token calls,
      (processing jobs).begins pool.cursor pool.world token calls := ⟨_, _, rfl, rfl⟩
  obtain ⟨pool', hstep⟩ := exists_step hbegins hends ⟨hw, hfailed⟩
  exact hstuck pool' hstep

/-! ### A batch of one job -/

def sampleJob : MigrationJob := ⟨js "job", ⟨js "inngest", js "inngest", false⟩, none, none, none⟩

def sampleAnswer : Except Thrown Unit :=
  .error ⟨⟨.string (js "clone failed"), .other, .other, .other⟩, none⟩

def sampleWorker : Fin (workers none 1) := ⟨0, by decide⟩

def samplePool : JobPool Unit (workers none 1) where
  cursor := 2
  worker := Function.update (Function.update (Function.update (fun _ ↦ .ready) sampleWorker
    (.working 0 ())) sampleWorker .ready) sampleWorker .stopped
  result := Function.update (fun _ ↦ none) 0 (some (jobResult sampleJob sampleAnswer))
  world := ⟨[0], [(0, sampleAnswer)]⟩

theorem reaches_sample : Reaches [sampleJob] (workers none 1) 3 samplePool := by
  have hstart : Reaches [sampleJob] (workers none 1) 0
      (Pool.initial (workers none 1) (⟨[], []⟩ : Calls Unit)) := ⟨rfl, .none⟩
  have hfirst := hstart.2.own (.begins sampleWorker () ⟨[0], []⟩ rfl (by decide) ⟨rfl, rfl⟩)
  have hsecond := Runs.own hfirst (.ends sampleWorker 0 () (jobResult sampleJob sampleAnswer)
    ⟨[0], [(0, sampleAnswer)]⟩ rfl ⟨sampleJob, sampleAnswer, rfl, rfl, rfl⟩)
  exact ⟨rfl, Runs.own hsecond (.stops sampleWorker rfl le_rfl)⟩

theorem finished_sample : samplePool.Finished := by
  intro w
  have hworkers : workers none 1 = 1 := by decide
  obtain rfl : w = sampleWorker := Fin.ext (by
    have hlt := w.isLt
    have hzero : sampleWorker.val = 0 := rfl
    omega)
  simp only [samplePool, Function.update_self]

theorem runCampaignJobs_ends_sample : 3 ≤ 2 * 1 + workers none 1 ∧ samplePool.Finished :=
  have hends := @runCampaignJobs_ends Unit [sampleJob] none 3 samplePool reaches_sample
  ⟨hends.1, hends.2 finished_sample.not_step⟩

theorem runCampaignJobs_returns_sample : samplePool.world.begun.Perm [0] :=
  (@runCampaignJobs_returns Unit [sampleJob] none 3 samplePool reaches_sample
    finished_sample).2.1

end ApiMigrator.App.JobQueue
