import ApiMigrator.App.RunnerJobAdvance
import ApiMigrator.App.RunnerJobSize

/-!
The codec agrees with the transitions. The windows that a transition checks against a clock contain
those that the decoder checks without one, every reader returns its own result unchanged, and the
next record stays within the bound, so that a record that was made decodes again.
-/

set_option autoImplicit false
set_option relaxedAutoImplicit false

namespace ApiMigrator.App.RunnerJob

open Foundation.Text Foundation.Number Foundation.Json Foundation.Outcome Foundation.Pattern
open Foundation.Binary PublicationRunner RunnerEvidence
open CanonicalJson (canonicalJson canonicalJson_of_canonical)
open SourceBundle (field isDigestText_sha256 sha256)

variable {P : Platform}

/-! ### The bound -/

private theorem weight_context_le {c : RunnerEvidenceContext} (hcampaign : isIdentifier c.campaignId = true)
    (hrun : isIdentifier c.runId = true) (hplan : c.plan.toJson.weight ≤ 74400)
    (hsource : c.source.toJson.weight ≤ 4200) (houtput : c.reviewedOutput.toJson.weight ≤ 1400) :
    c.toJson.weight ≤ 82000 := by
  have hcampaign := weight_str_le (byteLength_of_isIdentifier hcampaign).2
  have hrun := weight_str_le (byteLength_of_isIdentifier hrun).2
  have hkeys : (JsValue.obj [(js "campaignId", .null), (js "plan", .null),
      (js "previewCompletedAt", .null), (js "reviewedOutput", .null), (js "runId", .null),
      (js "source", .null)]).weight ≤ 140 := by decide +kernel
  simp only [JsValue.weight, membersWeight] at hkeys hcampaign hrun
  simp only [RunnerEvidenceContext.toJson, contextJson, JsValue.weight, membersWeight]
  linarith

private theorem isDigestText_of_runnerEvidenceDigest {value : JsValue} {text : JsString}
    (h : runnerEvidenceDigest P value = .ok text) : isDigestText text = true := by
  simp only [runnerEvidenceDigest, canonicalDigest, bind_eq_ok, exists_unit, pure_eq_ok] at h
  obtain ⟨-, _, -, rfl⟩ := h
  exact isDigestText_sha256 _ _

/-- What a stage adds to a record. -/
structure StageFits (stage : JobStage) : Prop where
  review : ∀ review, stage.review = some review → review.toJson.weight ≤ 82000
  identity : ∀ identity, stage.identity = some identity → identity.toJson.weight ≤ 4200

private theorem weight_stageMembers {stage : JobStage} (h : StageFits stage) :
    membersWeight stage.identityMember ≤ 4300 ∧ membersWeight stage.reviewMember ≤ 82100 := by
  have hkeys : membersWeight [(js "identity", .null), (js "review", .null)] ≤ 40 := by
    decide +kernel
  simp only [JsValue.weight, membersWeight] at hkeys
  cases stage with
  | prepared => exact ⟨Nat.zero_le _, Nat.zero_le _⟩
  | reviewed review =>
    have hreview := h.review review rfl
    simp only [JobStage.identityMember, JobStage.reviewMember, membersWeight]
    exact ⟨by linarith, by linarith⟩
  | evidenceRetained review identity =>
    have hreview := h.review review rfl
    have hidentity := h.identity identity rfl
    simp only [JobStage.identityMember, JobStage.reviewMember, membersWeight]
    exact ⟨by linarith, by linarith⟩

private theorem weight_stageName (stage : JobStage) :
    (JsValue.str stage.stateName).weight ≤ 30 := by
  have hprepared : (JsValue.str (js "prepared")).weight ≤ 30 := by decide +kernel
  have hreviewed : (JsValue.str (js "reviewed")).weight ≤ 30 := by decide +kernel
  have hretained : (JsValue.str (js "evidence_retained")).weight ≤ 30 := by decide +kernel
  cases stage with
  | prepared => exact hprepared
  | reviewed => exact hreviewed
  | evidenceRetained => exact hretained

/-- A record whose parts are bounded is within the bound of the store. -/
private theorem weight_record_le {r : JobRecord} (hstore : isUuid r.storeId = true)
    (hcampaign : isIdentifier r.campaignId = true) (hrun : isIdentifier r.runId = true)
    (hjob : isJobId r.jobId = true) (hintent : isDigestText r.intentDigest = true)
    (hdigest : isDigestText r.recordDigest = true) (hplan : r.plan.toJson.weight ≤ 74400)
    (hsource : r.source.toJson.weight ≤ 4200) (hstage : StageFits r.stage) :
    r.toJson.weight ≤ 262144 := by
  have hstore := weight_str_le (byteLength_of_isUuid hstore).le
  have hcampaign := weight_str_le (byteLength_of_isIdentifier hcampaign).2
  have hrun := weight_str_le (byteLength_of_isIdentifier hrun).2
  have hjob := weight_str_le (byteLength_of_isJobId hjob).le
  have hintent := weight_digest_le hintent
  have hdigest := weight_digest_le hdigest
  have hstate := weight_stageName r.stage
  obtain ⟨hidentityMember, hreviewMember⟩ := weight_stageMembers hstage
  have hkeys : (JsValue.obj [(js "campaignId", .null), (js "intentDigest", .null),
      (js "jobId", .null), (js "plan", .null), (js "recordDigest", .null), (js "revision", .null),
      (js "runId", .null), (js "schemaVersion", .null), (js "source", .null), (js "state", .null),
      (js "storeId", .null)]).weight ≤ 240 := by decide +kernel
  simp only [JsValue.weight, membersWeight] at hkeys hstore hcampaign hrun hjob hintent hdigest hstate
  simp only [JobRecord.toJson, recordMembers, membersWeight_append, JsValue.weight, membersWeight]
  linarith

/-! ### Reading what was made -/

/-- What was read from one text is read again. -/
private theorem string_again {value : JsValue} {label label' : String} {text : JsString}
    (h : string value label = .ok text) : string (.str text) label' = .ok text := by
  cases value with
  | str s =>
    simp only [string, bind_eq_ok, reject_eq_ok, exists_unit, pure_eq_ok] at h ⊢
    obtain ⟨hne, t, ht, rfl⟩ := h
    exact ⟨hne, t, ht, trivial⟩
  | _ => cases h

private theorem evidenceDigest_again {value : JsValue} {label : String} {text : JsString}
    (h : evidenceDigest value label = .ok text) : evidenceDigest (.str text) label = .ok text := by
  simp only [evidenceDigest, bind_eq_ok, reject_eq_ok, exists_unit, pure_eq_ok] at h ⊢
  obtain ⟨_, hstring, hdigest, rfl⟩ := h
  exact ⟨_, string_again hstring, hdigest, rfl⟩

private theorem iJson_of_string {value : JsValue} {label : String} {text : JsString}
    (h : string value label = .ok text) : IJson (.str text) := by
  cases value with
  | str s =>
    simp only [string, bind_eq_ok, reject_eq_ok, exists_unit, pure_eq_ok] at h
    obtain ⟨-, t, ht, rfl⟩ := h
    exact ((CanonicalJson.canonicalJson_eq_ok (.str _)).mp ht).1
  | _ => cases h

private theorem iJson_of_evidenceDigest {value : JsValue} {label : String} {text : JsString}
    (h : evidenceDigest value label = .ok text) : IJson (.str text) := by
  simp only [evidenceDigest, bind_eq_ok, reject_eq_ok, exists_unit, pure_eq_ok] at h
  obtain ⟨_, hstring, -, rfl⟩ := h
  exact iJson_of_string hstring

private theorem detachedRecord_of_canonical {ms : List Member} (hcanonical : Canonical (.obj ms))
    (hdata : IJson (.obj ms)) (label : String) : detachedRecord (.obj ms) label = .ok ms := by
  simp only [detachedRecord, bind_eq_ok, detachRunnerEvidenceData_eq_ok hcanonical.1]
  exact ⟨_, ⟨hdata, hcanonical.2.symm⟩, rfl⟩

theorem validateRetainedRunnerEvidenceIdentity_again {value : JsValue}
    {i : RetainedRunnerEvidenceIdentity} (h : validateRetainedRunnerEvidenceIdentity value = .ok i) :
    validateRetainedRunnerEvidenceIdentity i.toJson = .ok i := by
  simp only [validateRetainedRunnerEvidenceIdentity, rethrow_eq_ok, bind_eq_ok, exists_unit,
    pure_eq_ok] at h ⊢
  obtain ⟨_, -, -, -, jobId, hjobId, keyId, hkeyId, hvalid, context, hcontext, plan, hplan, payload,
    hpayload, envelope, henvelope, fingerprint, hfingerprint, trust, htrust, expires, hexpires,
    rfl⟩ := h
  have hcanonical := RetainedRunnerEvidenceIdentity.canonical_toJson
    ⟨context, jobId, plan, payload, envelope, keyId, fingerprint, trust, expires⟩
  have hdata : IJson (RetainedRunnerEvidenceIdentity.toJson
      ⟨context, jobId, plan, payload, envelope, keyId, fingerprint, trust, expires⟩) := by
    refine .obj (by simp only [List.map_cons, List.map_nil]; decide) ?_ ?_
    · simp only [List.forall_mem_cons, List.not_mem_nil, false_implies, implies_true, and_true]
      decide
    · simp only [List.forall_mem_cons, List.not_mem_nil, false_implies, implies_true, and_true]
      exact ⟨iJson_of_evidenceDigest henvelope, iJson_of_evidenceDigest hpayload,
        iJson_of_evidenceDigest hcontext, iJson_of_timestamp hexpires, iJson_of_string hjobId,
        iJson_of_evidenceDigest hplan, .num (by decide), iJson_of_evidenceDigest hfingerprint,
        iJson_of_string hkeyId, iJson_of_evidenceDigest htrust⟩
  have hfieldEnvelope := field_eq hcanonical List.mem_cons_self
  have hfieldPayload := field_eq hcanonical (.tail _ List.mem_cons_self)
  have hfieldContext := field_eq hcanonical (.tail _ (.tail _ List.mem_cons_self))
  have hfieldExpires := field_eq hcanonical (.tail _ (.tail _ (.tail _ List.mem_cons_self)))
  have hfieldJob := field_eq hcanonical
    (.tail _ (.tail _ (.tail _ (.tail _ List.mem_cons_self))))
  have hfieldPlan := field_eq hcanonical
    (.tail _ (.tail _ (.tail _ (.tail _ (.tail _ List.mem_cons_self)))))
  have hfieldVersion := field_eq hcanonical
    (.tail _ (.tail _ (.tail _ (.tail _ (.tail _ (.tail _ List.mem_cons_self))))))
  have hfieldFingerprint := field_eq hcanonical
    (.tail _ (.tail _ (.tail _ (.tail _ (.tail _ (.tail _ (.tail _ List.mem_cons_self)))))))
  have hfieldKey := field_eq hcanonical
    (.tail _ (.tail _ (.tail _ (.tail _ (.tail _ (.tail _ (.tail _ (.tail _
      List.mem_cons_self))))))))
  have hfieldTrust := field_eq hcanonical
    (.tail _ (.tail _ (.tail _ (.tail _ (.tail _ (.tail _ (.tail _ (.tail _ (.tail _
      List.mem_cons_self)))))))))
  refine ⟨_, detachedRecord_of_canonical hcanonical hdata _,
    expectedKeys_of_canonical hcanonical _ _ rfl, ?_, jobId, ?_, keyId, ?_, hvalid, context, ?_,
    plan, ?_, payload, ?_, envelope, ?_, fingerprint, ?_, trust, ?_, expires, ?_, rfl⟩
  · rw [hfieldVersion]
    rfl
  · rw [hfieldJob]
    exact string_again hjobId
  · rw [hfieldKey]
    exact string_again hkeyId
  · rw [hfieldContext]
    exact evidenceDigest_again hcontext
  · rw [hfieldPlan]
    exact evidenceDigest_again hplan
  · rw [hfieldPayload]
    exact evidenceDigest_again hpayload
  · rw [hfieldEnvelope]
    exact evidenceDigest_again henvelope
  · rw [hfieldFingerprint]
    exact evidenceDigest_again hfingerprint
  · rw [hfieldTrust]
    exact evidenceDigest_again htrust
  · rw [hfieldExpires]
    exact timestamp_again hexpires _

/-! ### The next record -/

/-- What identifies a job passes the same checks in its next record. -/
theorem checks_of_next {r next : JobRecord} (hr : r.Checks P)
    (hbase : next.toRecordBase = r.toRecordBase)
    (hdigest : runnerEvidenceDigest P (bodyJson next.toRecordBase next.stage) =
      .ok next.recordDigest)
    (hstage : readStage P next.members next.stage.revision next.campaignId next.runId next.source
      next.plan = .ok next.stage) : next.Checks P := by
  obtain ⟨base, stage, digest⟩ := next
  obtain rfl : base = r.toRecordBase := hbase
  exact {
    storeId := hr.storeId
    campaignId := hr.campaignId
    runId := hr.runId
    source := hr.source
    plan := hr.plan
    jobId := hr.jobId
    sourceMatchesPlan := hr.sourceMatchesPlan
    intent := hr.intent
    digestText := isDigestText_of_runnerEvidenceDigest hdigest
    digest := hdigest
    stage := hstage }

/-- The bounds of a record that was read, whatever its stage holds. -/
private theorem weight_of_checks {r : JobRecord} (hr : r.Checks P) (hstage : StageFits r.stage) :
    r.toJson.weight ≤ 262144 := by
  have hvalid := (canonicalPlan_eq_ok.mp hr.plan).2
  obtain ⟨hchecks, hrecord, -⟩ := checks_of_validatePublicationRunnerPlan hvalid
  simp only [recordForPlan, bind_eq_ok] at hrecord
  obtain ⟨text, htext, -⟩ := hrecord
  have hbounds := planBounds_of_checks hchecks
    ((canonicalJson_of_canonical r.plan.plan.canonical_toJson).mp htext).1
  obtain ⟨intent, -, hintent⟩ := hr.intent
  exact weight_record_le hr.storeId hr.campaignId hr.runId (hr.jobId ▸ hbounds.jobId)
    (isDigestText_of_runnerEvidenceDigest hintent) hr.digestText (weight_planRecord_le hvalid)
    (weight_source_le hbounds hr.sourceMatchesPlan (isGitSha_of_canonicalSource hr.source)) hstage

/-- A candidate with sound parts decodes, if it has a canonical text at all. -/
theorem withNextRevision_ne_storeCorrupt {r : JobRecord} {stage : JobStage} (hr : r.Checks P)
    (hfits : StageFits stage)
    (hstage : ∀ recordDigest, readStage P (JobRecord.members { r with stage, recordDigest })
      stage.revision r.campaignId r.runId r.source r.plan = .ok stage) :
    withNextRevision P r stage ≠ .error .storeCorrupt := by
  intro h
  simp only [withNextRevision, bind_eq_error, rethrow_eq_error, rethrow_eq_ok] at h
  rcases h with ⟨-, h⟩ | ⟨recordDigest, hdigest, h⟩
  · cases h
  simp only [decodeCandidate, bind_eq_error, rethrow_eq_error, rethrow_eq_ok] at h
  rcases h with ⟨-, h⟩ | ⟨text, htext, h⟩
  · cases h
  have hchecks : JobRecord.Checks P { r with stage, recordDigest } :=
    checks_of_next hr rfl hdigest (hstage recordDigest)
  have hdata := (canonicalJson_of_canonical (JobRecord.canonical_toJson _)).mp htext
  have hsize := hdata.1.plain.byteLength_compactText_le.trans (weight_of_checks hchecks hfits)
  have hdecode := decodeJobRecord_eq_ok.mpr ⟨htext, hdata.2 ▸ hsize, hchecks⟩
  rw [hdecode] at h
  cases h

/-! ### Reviews -/

theorem validateRunnerOutput_again {value : JsValue} {o : PublicationRunnerOutput}
    (h : validateRunnerOutput value = .ok o) : validateRunnerOutput o.toJson = .ok o := by
  simp only [validateRunnerOutput, bind_eq_ok, exists_unit, pure_eq_ok] at h ⊢
  obtain ⟨_, -, -, preflight, hpreflight, tree, htree, hvalid, artifact, hartifact, rfl⟩ := h
  have hcanonical := PublicationRunnerOutput.canonical_toJson ⟨preflight, artifact, tree⟩
  have hdata : IJson (PublicationRunnerOutput.toJson ⟨preflight, artifact, tree⟩) := by
    refine .obj (by simp only [List.map_cons, List.map_nil]; decide) ?_ ?_
    · simp only [List.forall_mem_cons, List.not_mem_nil, false_implies, implies_true, and_true]
      decide
    · simp only [List.forall_mem_cons, List.not_mem_nil, false_implies, implies_true, and_true]
      exact ⟨.str (isWellFormed_of_isDigestText (isDigestText_of_digest hartifact)),
        iJson_of_boundedString htree, iJson_of_boundedString hpreflight⟩
  have hfieldArtifact := field_eq hcanonical List.mem_cons_self
  have hfieldTree := field_eq hcanonical (.tail _ List.mem_cons_self)
  have hfieldPreflight := field_eq hcanonical (.tail _ (.tail _ List.mem_cons_self))
  refine ⟨_, record_of_iJson hdata _, exactKeys_of_canonical hcanonical _ _ rfl, preflight, ?_, tree,
    ?_, hvalid, artifact, ?_, rfl⟩
  · rw [hfieldPreflight]
    exact boundedString_again hpreflight
  · rw [hfieldTree]
    exact boundedString_again htree
  · rw [hfieldArtifact]
    exact digest_again hartifact _

/-- The review that any output and completion time make of a job. -/
theorem review_of_reviewOf {r : JobRecord} {output completedAt : JsValue} {now : JsNumber}
    {review : RunnerEvidenceContext} (hr : r.Checks P) (houtput : DistinctKeys output)
    (hcompleted : DistinctKeys completedAt)
    (h : reviewOf P r output completedAt now = .ok review) :
    ∃ o n observedAt, review = ownReview r o n ∧ IJson review.toJson ∧
      ContextChecks P review (some observedAt) ∧ observedAt < r.plan.plan.expiresAt := by
  have hkeys : DistinctKeys (contextJson r.campaignId r.runId r.plan r.source output
      completedAt) := by
    refine .obj (by simp only [List.map_cons, List.map_nil]; decide) ?_
    simp only [List.forall_mem_cons, List.not_mem_nil, false_implies, implies_true, and_true]
    exact ⟨.str _, r.plan.canonical_toJson.1, hcompleted, houtput, .str _,
      r.source.canonical_toJson.1⟩
  have hsorted : (contextJson r.campaignId r.runId r.plan r.source output completedAt).sorted =
      contextJson r.campaignId r.runId r.plan r.source output.sorted completedAt.sorted := by
    simp only [contextJson, JsValue.sorted, sortedMembers, r.plan.canonical_toJson.2,
      r.source.canonical_toJson.2]
    rfl
  simp only [reviewOf, rethrow_eq_ok, validateRunnerEvidenceContext, contextObservedAt,
    detachedRecord, detachRunnerEvidenceData_eq_ok hkeys, hsorted, bind_eq_ok, exists_unit,
    reject_eq_ok, pure_eq_ok, Prod.exists, Prod.mk.injEq, not_or, not_le] at h
  obtain ⟨_, _, ⟨_, ⟨_, ⟨hdata, rfl⟩, hroot⟩, -, observedAt, -, _, hparse, rfl, rfl⟩,
    ⟨hexpiry, -⟩, _, -, rfl⟩ := h
  obtain rfl := Except.ok.inj hroot
  have hdata := hsorted ▸ hdata.sorted
  have hcanonical : Canonical (contextJson r.campaignId r.runId r.plan r.source output.sorted
      completedAt.sorted) := by
    refine canonical_obj (by simp only [List.map_cons, List.map_nil]; decide) ?_
    simp only [List.forall_mem_cons, List.not_mem_nil, false_implies, implies_true, and_true]
    exact ⟨canonical_str _, r.plan.canonical_toJson,
      ⟨(iJson_of_member hdata (.tail _ (.tail _ List.mem_cons_self))).distinctKeys,
        JsValue.sorted_sorted _⟩,
      ⟨(iJson_of_member hdata (.tail _ (.tail _ (.tail _ List.mem_cons_self)))).distinctKeys,
        JsValue.sorted_sorted _⟩, canonical_str _, r.source.canonical_toJson⟩
  have hfieldCampaign := field_eq hcanonical List.mem_cons_self
  have hfieldPlan := field_eq hcanonical (.tail _ List.mem_cons_self)
  have hfieldCompleted := field_eq hcanonical (.tail _ (.tail _ List.mem_cons_self))
  have hfieldOutput := field_eq hcanonical (.tail _ (.tail _ (.tail _ List.mem_cons_self)))
  have hfieldRun := field_eq hcanonical
    (.tail _ (.tail _ (.tail _ (.tail _ List.mem_cons_self))))
  have hfieldSource := field_eq hcanonical
    (.tail _ (.tail _ (.tail _ (.tail _ (.tail _ List.mem_cons_self)))))
  simp only [parseRunnerEvidenceContextStructure, hfieldCampaign, hfieldPlan, hfieldCompleted,
    hfieldOutput, hfieldRun, hfieldSource, hr.source, ok_bind, bind_eq_ok, planRecordOf_eq_ok,
    exists_unit, reject_eq_ok, Bool.not_eq_false, not_not, pure_eq_ok] at hparse
  obtain ⟨campaign, hcampaign, run, hrun, plan, hplan, o, ho, n, hn, htimeline, hmatches, rfl⟩ :=
    hparse
  obtain ⟨rfl, -⟩ := canonicalPlan_eq_ok.mp hplan
  obtain rfl := eq_of_contextIdentifier hcampaign
  obtain rfl := eq_of_contextIdentifier hrun
  have hn' := timestamp_again hn "preview completion"
  have ho' := validateRunnerOutput_again ho
  refine ⟨o, n, observedAt, rfl, ?_, ⟨hcampaign, hrun, hplan, ho', ?_, htimeline, hmatches⟩, hexpiry⟩
  · refine .obj (by simp only [List.map_cons, List.map_nil]; decide) ?_ ?_
    · simp only [List.forall_mem_cons, List.not_mem_nil, false_implies, implies_true, and_true]
      decide
    · simp only [List.forall_mem_cons, List.not_mem_nil, false_implies, implies_true, and_true]
      have houtputData : IJson o.toJson := by
        simp only [validateRunnerOutput, bind_eq_ok] at ho'
        obtain ⟨ms, hms, -⟩ := ho'
        simp only [PublicationRunnerOutput.toJson, record, bind_eq_ok] at hms
        obtain ⟨_, htext, -⟩ := hms
        exact ((canonicalJson_of_canonical o.canonical_toJson).mp htext).1
      exact ⟨iJson_of_member hdata List.mem_cons_self, iJson_of_member hdata (.tail _ List.mem_cons_self),
        iJson_of_timestamp hn, houtputData,
        iJson_of_member hdata (.tail _ (.tail _ (.tail _ (.tail _ List.mem_cons_self)))),
        iJson_of_member hdata (.tail _ (.tail _ (.tail _ (.tail _ (.tail _ List.mem_cons_self)))))⟩
  · rw [timestamp, orThrow_eq_ok] at hn'
    exact hn'

private theorem rejectDifferent_self {v : JsValue} (hcanonical : Canonical v) (hdata : IJson v)
    (error : String) : rejectDifferent v v error = .ok () := by
  have htext := (canonicalJson_of_canonical hcanonical).mpr ⟨hdata, rfl⟩
  exact rejectDifferent_eq_ok.mpr ⟨_, htext, htext⟩

/-- The decoder accepts the review of a job, without a clock. -/
theorem readReview_of_checks {root : List Member} {r : JobRecord} {o : PublicationRunnerOutput}
    {n observedAt : ℕ} (hr : r.Checks P) (hdata : IJson (ownReview r o n).toJson)
    (hchecks : ContextChecks P (ownReview r o n) (some observedAt))
    (hexpiry : observedAt < r.plan.plan.expiresAt)
    (hfield : field root "review" = (ownReview r o n).toJson) :
    readReview P root r.campaignId r.runId r.source r.plan = .ok (ownReview r o n) := by
  have hcanonical : Canonical (.obj (contextMembers (ownReview r o n))) :=
    (ownReview r o n).canonical_toJson
  have htimeline := of_decide_eq_true hchecks.timeline
  have hbefore : n < r.plan.plan.expiresAt := htimeline.2.1.trans_lt hexpiry
  have hparse : parseRunnerEvidenceContextStructure P (contextMembers (ownReview r o n)) none =
      .ok (ownReview r o n) := by
    refine (parseContext_eq_ok (c := ownReview r o n) hr.source).mpr ⟨rfl, ?_⟩
    exact ⟨hchecks.campaignId, hchecks.runId, hchecks.plan, hchecks.output, hchecks.completedAt,
      decide_eq_true ⟨htimeline.1, hbefore⟩, hchecks.sourceMatchesPlan⟩
  have hread : validateRunnerEvidenceContextStructure P (ownReview r o n).toJson =
      .ok (ownReview r o n) := by
    have hroot := detachedRecord_of_canonical hcanonical hdata "runner evidence context"
    have hkeys := expectedKeys_of_canonical hcanonical contextKeys "runner evidence context" rfl
    simp only [validateRunnerEvidenceContextStructure, rethrow_eq_ok, bind_eq_ok, exists_unit]
    exact ⟨_, hroot, hkeys, hparse⟩
  have hplanData := iJson_of_member hdata (.tail _ List.mem_cons_self)
  have hsourceData := iJson_of_member hdata
    (.tail _ (.tail _ (.tail _ (.tail _ (.tail _ List.mem_cons_self)))))
  simp only [readReview, hfield, rethrow_eq_ok, bind_eq_ok, exists_unit, pure_eq_ok]
  refine ⟨_, hread, ?_, rejectDifferent_self r.source.canonical_toJson hsourceData _,
    rejectDifferent_self r.plan.canonical_toJson hplanData _, ?_, rfl⟩
  · rw [reject_eq_ok]
    exact fun h ↦ h.elim (fun h ↦ h rfl) fun h ↦ h rfl
  · rw [reject_eq_ok]
    exact not_le.mpr hbefore

/-- The decoder looks for the review in its member. -/
theorem readReview_congr {root root' : List Member} {campaignId runId : JsString}
    {source : PreviewSourceIdentity} {plan : PublicationRunnerPlanRecord}
    (h : field root "review" = field root' "review") :
    readReview P root campaignId runId source plan =
      readReview P root' campaignId runId source plan := by
  rw [readReview, readReview, h]

/-- A review that was read is about its record. -/
theorem weight_of_readReview {root : List Member} {r : JobRecord} {review : RunnerEvidenceContext}
    (hr : r.Checks P)
    (h : readReview P root r.campaignId r.runId r.source r.plan = .ok review) :
    review.toJson.weight ≤ 82000 := by
  simp only [readReview, rethrow_eq_ok, bind_eq_ok, exists_unit, reject_eq_ok, not_or, not_not,
    pure_eq_ok, rejectDifferent_eq_ok] at h
  obtain ⟨_, hread, ⟨hcampaign, hrun⟩, ⟨_, hsource, hsource'⟩, ⟨_, hplan, hplan'⟩, -, rfl⟩ := h
  have hsource := PreviewSourceIdentity.toJson_injective (CanonicalJson.eq_of_canonicalJson_eq
    (PreviewSourceIdentity.canonical_toJson _) r.source.canonical_toJson hsource hsource')
  have hplan := PublicationRunnerPlanRecord.toJson_injective (CanonicalJson.eq_of_canonicalJson_eq
    (PublicationRunnerPlanRecord.canonical_toJson _) r.plan.canonical_toJson hplan hplan')
  simp only [validateRunnerEvidenceContextStructure, rethrow_eq_ok, bind_eq_ok, exists_unit,
    parseRunnerEvidenceContextStructure, pure_eq_ok] at hread
  obtain ⟨_, -, -, _, -, _, -, _, -, _, -, o, ho, _, -, -, -, rfl⟩ := hread
  have hvalid := (canonicalPlan_eq_ok.mp hr.plan).2
  obtain ⟨hchecks, hrecord, -⟩ := checks_of_validatePublicationRunnerPlan hvalid
  simp only [recordForPlan, bind_eq_ok] at hrecord
  obtain ⟨text, htext, -⟩ := hrecord
  have hbounds := planBounds_of_checks hchecks
    ((canonicalJson_of_canonical r.plan.plan.canonical_toJson).mp htext).1
  refine weight_context_le ?_ ?_ ?_ ?_ (weight_output_le ho)
  · exact hcampaign ▸ hr.campaignId
  · exact hrun ▸ hr.runId
  · exact hplan ▸ weight_planRecord_le hvalid
  · exact hsource ▸ weight_source_le hbounds hr.sourceMatchesPlan
      (isGitSha_of_canonicalSource hr.source)

/-! ### Transitions -/

private theorem assertJobCurrent_ne_corrupt {r : JobRecord} {now : JsNumber} :
    assertJobCurrent r now ≠ .error .storeCorrupt := by
  intro h
  simp only [assertJobCurrent, bind_eq_error, orThrow_eq_error, reject_eq_error] at h
  rcases h with ⟨-, h⟩ | ⟨_, -, ⟨-, h⟩ | ⟨_, -, -, h⟩⟩ <;> cases h

private theorem conflictUnlessSame_ne_storeCorrupt {left right : JsValue} :
    conflictUnlessSame left right ≠ .error .storeCorrupt := by
  intro h
  simp only [conflictUnlessSame, bind_eq_error, rethrow_eq_error, reject_eq_error] at h
  rcases h with ⟨-, h⟩ | ⟨_, -, ⟨-, h⟩ | ⟨_, -, -, h⟩⟩ <;> cases h

private theorem reviewOf_ne_storeCorrupt {r : JobRecord} {output completedAt : JsValue}
    {now : JsNumber} : reviewOf P r output completedAt now ≠ .error .storeCorrupt := by
  intro h
  rw [reviewOf, rethrow_eq_error] at h
  cases h.2

private theorem boundIdentity_ne_storeCorrupt {r : JobRecord} {review : RunnerEvidenceContext}
    {identity : JsValue} {now : JsNumber} :
    boundIdentity P r review identity now ≠ .error .storeCorrupt := by
  intro h
  simp only [boundIdentity, bind_eq_error, rethrow_eq_error, orThrow_eq_error, reject_eq_error,
    pure_eq_error] at h
  rcases h with ⟨-, h⟩ | ⟨_, -, ⟨-, h⟩ | ⟨_, -, ⟨-, h⟩ | ⟨_, -, ⟨-, h⟩ | ⟨_, -, h⟩⟩⟩⟩ <;> cases h

private theorem field_review (base : RecordBase) (stage : JobStage) (recordDigest : JsString)
    {review : RunnerEvidenceContext} (h : (js "review", review.toJson) ∈ stage.reviewMember) :
    field (JobRecord.members { base with stage, recordDigest }) "review" = review.toJson := by
  refine field_eq (JobRecord.canonical_toJson { base with stage, recordDigest }) ?_
  simp only [recordMembers, List.mem_append]
  exact .inl (.inr h)

private theorem field_identity (base : RecordBase) (review : RunnerEvidenceContext)
    (identity : RetainedRunnerEvidenceIdentity) (recordDigest : JsString) :
    field (JobRecord.members { base with stage := .evidenceRetained review identity, recordDigest })
      "identity" = identity.toJson := by
  refine field_eq (JobRecord.canonical_toJson
    { base with stage := .evidenceRetained review identity, recordDigest }) ?_
  simp only [recordMembers, List.mem_append]
  exact .inl (.inl (.inl (.inl (.inr List.mem_cons_self))))

/-- A review that was made is read back. -/
theorem appendJobReview_ne_storeCorrupt {text : JsString} {r : JobRecord}
    (hdecode : decodeJobRecord P text = .ok r) {output completedAt : JsValue} {now : JsNumber}
    (houtput : DistinctKeys output) (hcompleted : DistinctKeys completedAt) :
    appendJobReview P r output completedAt now ≠ .error .storeCorrupt := by
  have hr := (decodeJobRecord_eq_ok.mp hdecode).2.2
  intro h
  rw [appendJobReview, encodeJobRecord_of_decode hdecode, ok_bind, hdecode, ok_bind,
    bind_eq_error] at h
  rcases h with h | ⟨_, -, h⟩
  · exact assertJobCurrent_ne_corrupt h
  cases hstage : r.stage with
  | prepared =>
    simp only [hstage, bind_eq_error] at h
    rcases h with h | ⟨review, hreview, h⟩
    · exact reviewOf_ne_storeCorrupt h
    obtain ⟨o, n, observedAt, rfl, hdata, hchecks, hexpiry⟩ :=
      review_of_reviewOf hr houtput hcompleted hreview
    have hread : ∀ root, field root "review" = (ownReview r o n).toJson →
        readReview P root r.campaignId r.runId r.source r.plan = .ok (ownReview r o n) :=
      fun root hfield ↦ readReview_of_checks hr hdata hchecks hexpiry hfield
    have hweight := weight_of_readReview hr (hread [(js "review", (ownReview r o n).toJson)] rfl)
    refine withNextRevision_ne_storeCorrupt hr ⟨fun review h ↦ ?_, fun _ h ↦ ?_⟩
      (fun recordDigest ↦ ?_) h
    · obtain rfl := Option.some.inj h
      exact hweight
    · cases h
    · have hreview := hread _ (field_review r.toRecordBase (.reviewed (ownReview r o n))
        recordDigest List.mem_cons_self)
      simp only [readStage, JobStage.revision, OfNat.ofNat_ne_one, if_false, if_true, hreview,
        ok_bind]
      rfl
  | reviewed review =>
    simp only [hstage, bind_eq_error, pure_eq_error] at h
    rcases h with h | ⟨_, -, h | ⟨_, -, h⟩⟩
    · exact reviewOf_ne_storeCorrupt h
    · exact conflictUnlessSame_ne_storeCorrupt h
    · exact h
  | evidenceRetained review identity =>
    simp only [hstage] at h
    cases h

/-- An identity that was bound is read back. -/
theorem appendJobIdentity_ne_storeCorrupt {text : JsString} {r : JobRecord}
    (hdecode : decodeJobRecord P text = .ok r) {identity : JsValue} {now : JsNumber} :
    appendJobIdentity P r identity now ≠ .error .storeCorrupt := by
  have hr := (decodeJobRecord_eq_ok.mp hdecode).2.2
  intro h
  rw [appendJobIdentity, encodeJobRecord_of_decode hdecode, ok_bind, hdecode, ok_bind,
    bind_eq_error] at h
  rcases h with h | ⟨_, -, h⟩
  · exact assertJobCurrent_ne_corrupt h
  cases hstage : r.stage with
  | prepared =>
    simp only [hstage] at h
    cases h
  | reviewed review =>
    simp only [hstage, bind_eq_error] at h
    rcases h with h | ⟨validated, hvalidated, h⟩
    · exact boundIdentity_ne_storeCorrupt h
    have hread := hr.stage
    rw [hstage, JobStage.revision] at hread
    simp only [readStage, OfNat.ofNat_ne_one, if_false, if_true, bind_eq_ok, pure_eq_ok,
      JobStage.reviewed.injEq] at hread
    obtain ⟨given, hreview, hgiven⟩ := hread
    rw [hgiven] at hreview
    have hweight := weight_of_readReview hr hreview
    have hmember : (js "review", review.toJson) ∈ (JobStage.reviewed review).reviewMember :=
      List.mem_cons_self
    have hbound := hvalidated
    simp only [boundIdentity, bind_eq_ok, rethrow_eq_ok, orThrow_eq_ok, exists_unit, reject_eq_ok,
      not_or, not_not, pure_eq_ok] at hbound
    obtain ⟨validated, hidentity, contextDigest, hcontext, observedAt, -, ⟨hjob, hplan, hdigest, hexpires,
      httl, -⟩, rfl⟩ := hbound
    refine withNextRevision_ne_storeCorrupt hr ⟨fun review' h ↦ ?_, fun identity' h ↦ ?_⟩
      (fun recordDigest ↦ ?_) h
    · obtain rfl := Option.some.inj h
      exact hweight
    · obtain rfl := Option.some.inj h
      exact weight_identity_le hidentity
    · have hfieldBefore := field_review r.toRecordBase r.stage r.recordDigest
        (hstage ▸ hmember)
      have hfieldReview := field_review r.toRecordBase (.evidenceRetained review validated)
        recordDigest List.mem_cons_self
      have hfieldIdentity := field_identity r.toRecordBase review validated recordDigest
      have hreview' := (readReview_congr (hfieldBefore.trans hfieldReview.symm)).symm.trans hreview
      have hidentity' : readIdentity P (JobRecord.members
          { r with stage := .evidenceRetained review validated, recordDigest }) r.plan review =
          .ok validated := by
        simp only [readIdentity, hfieldIdentity, rethrow_eq_ok, bind_eq_ok, exists_unit,
          reject_eq_ok, pure_eq_ok]
        refine ⟨_, validateRetainedRunnerEvidenceIdentity_again hidentity, _, hcontext, ?_, rfl⟩
        rw [← hr.jobId]
        simp only [not_or, not_not]
        exact ⟨hjob, hplan, hdigest, hexpires, httl⟩
      simp only [readStage, JobStage.revision, OfNat.ofNat_ne_one, if_false, hreview', ok_bind,
        hidentity']
      rfl
  | evidenceRetained review retained =>
    simp only [hstage, bind_eq_error, pure_eq_error] at h
    rcases h with h | ⟨_, -, h | ⟨_, -, h⟩⟩
    · exact boundIdentity_ne_storeCorrupt h
    · exact conflictUnlessSame_ne_storeCorrupt h
    · exact h

/-! ### The codec -/

/-- The records that the transitions make of what they are given. -/
inductive Made (P : Platform) : JobRecord → Prop
  | prepared {input : JsValue} {r : JobRecord} (h : makePreparedRecord P input = .ok r) : Made P r
  | reviewed {r next : JobRecord} {output completedAt : JsValue} {now : JsNumber} (hr : Made P r)
      (h : appendJobReview P r output completedAt now = .ok next) : Made P next
  | evidenceRetained {r next : JobRecord} {identity : JsValue} {now : JsNumber} (hr : Made P r)
      (h : appendJobIdentity P r identity now = .ok next) : Made P next

theorem Made.decodes {r : JobRecord} (h : Made P r) : ∃ text, decodeJobRecord P text = .ok r := by
  induction h with
  | prepared h =>
    simp only [makePreparedRecord, rethrow_eq_ok, bind_eq_ok, decodeCandidate] at h
    obtain ⟨_, -, _, -, _, -, _, -, _, -, text, -, hdecode⟩ := h
    exact ⟨text, hdecode⟩
  | reviewed _ h ih =>
    obtain ⟨_, -, ⟨-, -, -, hdecodes⟩ | ⟨-, rfl⟩⟩ := appendJobReview_eq_ok h
    · exact hdecodes
    · exact ih
  | evidenceRetained _ h ih =>
    obtain ⟨_, _, -, ⟨-, -, -, hdecodes⟩ | ⟨-, rfl⟩⟩ := appendJobIdentity_eq_ok h
    · exact hdecodes
    · exact ih

/-- **The codec of records.** A text decodes to a record exactly if it is the encoding of that
record; every record that the transitions make decodes again from its own encoding; and no
transition of such a record finds what it has made corrupt. -/
theorem job_record_codec (P : Platform) :
    (∀ text r, decodeJobRecord P text = .ok r ↔ encodeJobRecord P r = .ok text) ∧
    ∀ r, Made P r →
      (∃ text, encodeJobRecord P r = .ok text ∧ decodeJobRecord P text = .ok r) ∧
      (∀ output completedAt now, DistinctKeys output → DistinctKeys completedAt →
        appendJobReview P r output completedAt now ≠ .error .storeCorrupt) ∧
      ∀ identity now, appendJobIdentity P r identity now ≠ .error .storeCorrupt := by
  refine ⟨fun text r ↦ encodeJobRecord_eq_ok.symm, fun r hr ↦ ?_⟩
  obtain ⟨text, hdecode⟩ := hr.decodes
  exact ⟨⟨text, encodeJobRecord_of_decode hdecode, hdecode⟩,
    fun _ _ _ houtput hcompleted ↦ appendJobReview_ne_storeCorrupt hdecode houtput hcompleted,
    fun _ _ ↦ appendJobIdentity_ne_storeCorrupt hdecode⟩

end ApiMigrator.App.RunnerJob
