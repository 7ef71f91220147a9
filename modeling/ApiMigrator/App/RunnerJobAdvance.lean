import ApiMigrator.App.RunnerJobHistory

/-!
The next revision of a stored record. What a transition appends has passed the checks that the
codec makes when it reads the record back, and the record stays within its bound, so that a
transition never finds its own record corrupt.
-/

set_option autoImplicit false
set_option relaxedAutoImplicit false

namespace ApiMigrator.App.RunnerJob

open Foundation.Text Foundation.Number Foundation.Json Foundation.Outcome Foundation.Pattern
open Foundation.Binary PublicationRunner RunnerEvidence Db.JobStore
open CanonicalJson (canonicalJson canonicalJson_of_canonical eq_of_canonicalJson_eq)
open SourceBundle (field isSchemaVersion)

/-! ### Comparing records -/

section Comparisons

variable {P : Platform} {text : JsString} {r r' : JobRecord}

end Comparisons

/-! ### Reading a context back -/

section Contexts

variable {P : Platform}

theorem plan_of_validatePublicationRunnerPlan {plan : PublicationRunnerPlan}
    {p : PublicationRunnerPlanRecord} (h : validatePublicationRunnerPlan P plan.toJson = .ok p) :
    p.plan = plan := by
  simp only [validatePublicationRunnerPlan, bind_eq_ok, reject_eq_ok, exists_unit, not_not] at h
  obtain ⟨_, -, -, -, _, -, -, _, -, -, _, -, _, -, _, -, -, _, -, _, -, _, -, _, -, -, _, -, -, _,
    -, _, -, -, expected, -, given, hgiven, canonical, hcanonical, rfl, hrecord⟩ := h
  simp only [recordForPlan, bind_eq_ok, pure_eq_ok] at hrecord
  obtain ⟨_, -, rfl⟩ := hrecord
  exact PublicationRunnerPlan.toJson_injective (eq_of_canonicalJson_eq expected.canonical_toJson
    plan.canonical_toJson hcanonical hgiven)

theorem recordKeys_of_canonical {ms : List Member} (hms : Canonical (.obj ms))
    (expected : List String) (hkeys : ms.map Prod.fst = expected.map js) :
    recordKeys ms expected = .ok () := by
  rw [recordKeys, reject_eq_ok, hms.keys_sorted, not_not]
  exact hkeys

theorem expectedKeys_of_canonical {ms : List Member} (hms : Canonical (.obj ms))
    (expected : List String) (label : String) (hkeys : ms.map Prod.fst = expected.map js) :
    expectedKeys ms expected label = .ok () := by
  rw [expectedKeys, reject_eq_ok, hms.keys_sorted, not_not]
  exact hkeys

/-- A plan record reads back as itself or not at all. -/
theorem canonicalPlan_eq_ok {p q : PublicationRunnerPlanRecord} :
    canonicalPlan P p.toJson = .ok q ↔
      q = p ∧ validatePublicationRunnerPlan P p.plan.toJson = .ok p := by
  have hms := p.canonical_toJson
  simp only [PublicationRunnerPlanRecord.toJson] at hms
  have hcanonical := hms.getMember_of_mem (js "canonicalJson") (.str p.canonicalJson) (by simp)
  have hdigest := hms.getMember_of_mem (js "digest") (.str p.digest) (by simp)
  have hplan := hms.getMember_of_mem (js "plan") p.plan.toJson (by simp)
  simp only [canonicalPlan, PublicationRunnerPlanRecord.toJson, object, ok_bind,
    recordKeys_of_canonical hms ["canonicalJson", "digest", "plan"] rfl, field, hcanonical, hdigest, hplan, reject_eq_ok, not_or,
    not_not, bind_eq_ok, exists_unit, pure_eq_ok]
  constructor
  · rintro ⟨plan, hvalid, ⟨hcanonical, hdigest⟩, rfl⟩
    have hsame := plan_of_validatePublicationRunnerPlan hvalid
    obtain rfl : plan = p := by
      cases plan
      cases p
      simp_all
    exact ⟨rfl, hvalid⟩
  · rintro ⟨rfl, hvalid⟩
    exact ⟨q, hvalid, ⟨rfl, rfl⟩, rfl⟩

theorem planRecordOf_eq_ok {p q : PublicationRunnerPlanRecord} {label mismatch : String} :
    planRecordOf P p.toJson label mismatch = .ok q ↔ canonicalPlan P p.toJson = .ok q := by
  have hms := p.canonical_toJson
  simp only [PublicationRunnerPlanRecord.toJson] at hms
  have hcanonical := hms.getMember_of_mem (js "canonicalJson") (.str p.canonicalJson) (by simp)
  have hdigest := hms.getMember_of_mem (js "digest") (.str p.digest) (by simp)
  have hplan := hms.getMember_of_mem (js "plan") p.plan.toJson (by simp)
  have hkeys := recordKeys_of_canonical hms ["canonicalJson", "digest", "plan"] rfl
  have hkeys' := expectedKeys_of_canonical hms ["canonicalJson", "digest", "plan"] label rfl
  simp only [canonicalPlan, planRecordOf, plainRecord, PublicationRunnerPlanRecord.toJson, object,
    ok_bind, hkeys, hkeys', field, hcanonical, hdigest, hplan, reject_eq_ok, bind_eq_ok,
    exists_unit, pure_eq_ok]

theorem eq_of_contextIdentifier {text text' : JsString} {label : String}
    (h : contextIdentifier (.str text) label = .ok text') : text' = text := by
  simp only [contextIdentifier, string, bind_eq_ok, reject_eq_ok, exists_unit, pure_eq_ok] at h
  obtain ⟨_, ⟨-, _, -, rfl⟩, -, rfl⟩ := h
  rfl

theorem eq_of_boundedString {text text' : JsString} {label : String} {maxBytes : ℕ}
    (h : boundedString (.str text) label maxBytes = .ok text') : text' = text := by
  simp only [boundedString, bind_eq_ok, reject_eq_ok, exists_unit, pure_eq_ok] at h
  obtain ⟨-, _, -, rfl⟩ := h
  rfl

theorem eq_of_digest {text text' : JsString} {label : String}
    (h : digest (.str text) label = .ok text') : text' = text := by
  simp only [digest, bind_eq_ok, reject_eq_ok, exists_unit, pure_eq_ok] at h
  exact h.2.symm

theorem eq_of_timestampOf {n m : ℕ} (h : timestampOf (.int n) = some m) : m = n := by
  simp only [timestampOf, safeInteger] at h
  split at h
  · rename_i i hi
    split_ifs at hi h
    cases hi
    cases h
    rfl
  · cases h

/-- A reviewed output reads back as itself or not at all. -/
theorem eq_of_validateRunnerOutput {o o' : PublicationRunnerOutput}
    (h : validateRunnerOutput o.toJson = .ok o') : o' = o := by
  have hms := o.canonical_toJson
  simp only [PublicationRunnerOutput.toJson] at hms
  have hartifact := hms.getMember_of_mem (js "artifactDigest") (.str o.artifactDigest) (by simp)
  have htree := hms.getMember_of_mem (js "candidateTreeSha") (.str o.candidateTreeSha) (by simp)
  have hpreflight := hms.getMember_of_mem (js "preflightId") (.str o.preflightId) (by simp)
  simp only [validateRunnerOutput, PublicationRunnerOutput.toJson, record, field, bind_eq_ok,
    pure_eq_ok, exists_unit] at h
  obtain ⟨_, ⟨_, -, rfl⟩, -, preflight, hreadPreflight, tree, hreadTree, -, artifact,
    hreadArtifact, rfl⟩ := h
  rw [hpreflight] at hreadPreflight
  rw [htree] at hreadTree
  rw [hartifact] at hreadArtifact
  rw [eq_of_boundedString hreadPreflight, eq_of_boundedString hreadTree,
    eq_of_digest hreadArtifact]

/-- The members of a context. -/
def contextMembers (c : RunnerEvidenceContext) : List Member :=
  [(js "campaignId", .str c.campaignId), (js "plan", c.plan.toJson),
    (js "previewCompletedAt", .num (.int c.previewCompletedAt)),
    (js "reviewedOutput", c.reviewedOutput.toJson), (js "runId", .str c.runId),
    (js "source", c.source.toJson)]

/-- What the members of a context pass when they make that context again. -/
structure ContextChecks (P : Platform) (c : RunnerEvidenceContext) (observedAt : Option ℕ) :
    Prop where
  campaignId : contextIdentifier (.str c.campaignId) "campaign id" = .ok c.campaignId
  runId : contextIdentifier (.str c.runId) "run id" = .ok c.runId
  plan : canonicalPlan P c.plan.toJson = .ok c.plan
  output : validateRunnerOutput c.reviewedOutput.toJson = .ok c.reviewedOutput
  completedAt : timestampOf (.int c.previewCompletedAt) = some c.previewCompletedAt
  timeline : timelineValid c.plan.plan c.previewCompletedAt observedAt = true
  sourceMatchesPlan : SourceMatchesPlan c.source c.plan.plan

/-- A context with a canonical source reads back as itself or not at all. -/
theorem parseContext_eq_ok {c c' : RunnerEvidenceContext} {observedAt : Option ℕ}
    (hsource : canonicalSource c.source.toJson = .ok c.source) :
    parseRunnerEvidenceContextStructure P (contextMembers c) observedAt = .ok c' ↔
      c' = c ∧ ContextChecks P c observedAt := by
  have hms : Canonical (.obj (contextMembers c)) := c.canonical_toJson
  have hcampaign := hms.getMember_of_mem (js "campaignId") (.str c.campaignId)
    (by simp [contextMembers])
  have hrun := hms.getMember_of_mem (js "runId") (.str c.runId) (by simp [contextMembers])
  have hplan := hms.getMember_of_mem (js "plan") c.plan.toJson (by simp [contextMembers])
  have hsourceField := hms.getMember_of_mem (js "source") c.source.toJson (by simp [contextMembers])
  have houtput := hms.getMember_of_mem (js "reviewedOutput") c.reviewedOutput.toJson
    (by simp [contextMembers])
  have hcompleted := hms.getMember_of_mem (js "previewCompletedAt")
    (.num (.int c.previewCompletedAt)) (by simp [contextMembers])
  simp only [parseRunnerEvidenceContextStructure, field, hcampaign, hrun, hplan, hsourceField,
    houtput, hcompleted, hsource, ok_bind, bind_eq_ok, planRecordOf_eq_ok, timestamp, orThrow_eq_ok,
    reject_eq_ok, exists_unit, pure_eq_ok, Bool.not_eq_false, not_not]
  constructor
  · rintro ⟨campaign, hcampaignId, run, hrunId, plan, hreadPlan, output, hreadOutput, completedAt,
      hcompletedAt, htimeline, hmatches, rfl⟩
    obtain ⟨rfl, -⟩ := canonicalPlan_eq_ok.mp hreadPlan
    obtain rfl := eq_of_contextIdentifier hcampaignId
    obtain rfl := eq_of_contextIdentifier hrunId
    obtain rfl := eq_of_validateRunnerOutput hreadOutput
    obtain rfl := eq_of_timestampOf hcompletedAt
    exact ⟨rfl, hcampaignId, hrunId, hreadPlan, hreadOutput, hcompletedAt, htimeline, hmatches⟩
  · rintro ⟨rfl, h⟩
    exact ⟨_, h.campaignId, _, h.runId, _, h.plan, _, h.output, _, h.completedAt, h.timeline,
      h.sourceMatchesPlan, rfl⟩

/-- The review that an output and a completion time make of a job. -/
def ownReview (r : JobRecord) (output : PublicationRunnerOutput) (completedAt : ℕ) :
    RunnerEvidenceContext where
  campaignId := r.campaignId
  runId := r.runId
  plan := r.plan
  source := r.source
  reviewedOutput := output
  previewCompletedAt := completedAt

end Contexts

end ApiMigrator.App.RunnerJob
