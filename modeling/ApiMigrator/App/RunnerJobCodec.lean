import ApiMigrator.App.RunnerJobRecord

/-!
What the codec of runner-job records accepts. A text decodes to a record exactly as its canonical
encoding, so a record and its text determine each other; and a transition that returns has kept
what identifies the job and appended what it was given.
-/

set_option autoImplicit false
set_option relaxedAutoImplicit false

namespace ApiMigrator.App.RunnerJob

open Foundation.Text Foundation.Number Foundation.Json Foundation.Outcome Foundation.Pattern
open PublicationRunner RunnerEvidence
open CanonicalJson (canonicalJson parseCanonicalJson canonicalJson_of_canonical
  eq_of_canonicalJson_eq)
open SourceBundle (field isSchemaVersion)

/-! ### Canonical values -/

private theorem assertDataDescriptors_of_iJson {v : JsValue} (hv : IJson v) :
    assertDataDescriptors v = .ok () := by
  induction hv with
  | null => rfl
  | bool => rfl
  | num hsafe =>
    have htext := (CanonicalJson.canonicalJson_eq_ok (.num _)).mpr ⟨IJson.num hsafe, rfl⟩
    rw [assertDataDescriptors, htext]
    rfl
  | str hs =>
    have htext := (CanonicalJson.canonicalJson_eq_ok (.str _)).mpr ⟨IJson.str hs, rfl⟩
    rw [assertDataDescriptors, htext]
    rfl
  | @arr xs _ ih =>
    rw [assertDataDescriptors]
    clear * - ih
    induction xs with
    | nil => rfl
    | cons x xs ihxs =>
      rw [assertElements, ih x List.mem_cons_self, ok_bind]
      exact ihxs fun y hy ↦ ih y (List.mem_cons_of_mem x hy)
  | @obj ms _ _ _ ih =>
    rw [assertDataDescriptors]
    clear * - ih
    induction ms with
    | nil => rfl
    | cons m ms ihms =>
      rw [assertMembers, ih m List.mem_cons_self, ok_bind]
      exact ihms fun n hn ↦ ih n (List.mem_cons_of_mem m hn)

/-- Detaching copies plain data with its members in order. -/
theorem detachRunnerEvidenceData_eq_ok {v w : JsValue} (hv : DistinctKeys v) :
    detachRunnerEvidenceData v = .ok w ↔ IJson v ∧ w = v.sorted := by
  simp only [detachRunnerEvidenceData, bind_eq_ok, exists_unit, orThrow_eq_ok,
    CanonicalJson.canonicalJson_eq_ok hv]
  constructor
  · rintro ⟨-, t, ⟨hdata, rfl⟩, hparse⟩
    exact ⟨hdata, Option.some.inj (hparse.symm.trans (jsonParse_compactText hdata.sorted))⟩
  · rintro ⟨hdata, rfl⟩
    exact ⟨assertDataDescriptors_of_iJson hdata, _, ⟨hdata, rfl⟩,
      jsonParse_compactText hdata.sorted⟩

/-! ### Records and their JSON -/

@[simp]
theorem PreparedFields.canonical_toJson (p : PreparedFields) : Canonical p.toJson :=
  canonical_obj (by simp only [List.map_cons, List.map_nil]; decide) (by simp)

@[simp]
theorem PreparationIntent.canonical_toJson (i : PreparationIntent) : Canonical i.toJson :=
  canonical_obj (by simp only [List.map_cons, List.map_nil]; decide) (by simp)

theorem PreparationIntent.toJson_injective {i i' : PreparationIntent}
    (h : i.toJson = i'.toJson) : i = i' := by
  cases i
  cases i'
  simp only [PreparationIntent.toJson, JsValue.obj.injEq, JsValue.str.injEq, JsValue.num.injEq,
    JsNumber.int.injEq, Nat.cast_inj, List.cons.injEq, Prod.mk.injEq, true_and, and_true] at h
  obtain ⟨rfl, rfl, rfl, hdestinations, rfl, rfl, hsource⟩ := h
  rw [destinationsJson_injective hdestinations, PreviewSourceIdentity.toJson_injective hsource]

@[simp]
theorem canonical_bodyJson (base : RecordBase) (stage : JobStage) :
    Canonical (bodyJson base stage) := by
  cases stage <;>
    exact canonical_obj (by
      simp only [recordMembers, JobStage.identityMember, JobStage.reviewMember, List.map_cons,
        List.map_append, List.map_nil]
      decide) (by simp [recordMembers, JobStage.identityMember, JobStage.reviewMember])

@[simp]
theorem JobRecord.canonical_toJson (r : JobRecord) : Canonical r.toJson := by
  obtain ⟨base, stage, digest⟩ := r
  cases stage <;>
    exact canonical_obj (by
      simp only [recordMembers, JobStage.identityMember, JobStage.reviewMember, List.map_cons,
        List.map_append, List.map_nil]
      decide) (by simp [recordMembers, JobStage.identityMember, JobStage.reviewMember])

/-- A member of a record of a given stage, by its key. -/
def memberOf (value : JsValue) (key : String) : JsValue :=
  match value with
  | .obj ms => field ms key
  | _ => .exotic .undefined

theorem JobRecord.memberOf_revision (r : JobRecord) :
    memberOf r.toJson "revision" = .num (.int r.stage.revision) := by
  obtain ⟨base, stage, digest⟩ := r
  cases stage <;> rfl

theorem JobRecord.toJson_injective {r r' : JobRecord} (h : r.toJson = r'.toJson) : r = r' := by
  have hrevision : r.stage.revision = r'.stage.revision := by
    have hmember := congrArg (fun value ↦ memberOf value "revision") h
    simp only [memberOf_revision, JsValue.num.injEq, JsNumber.int.injEq, Nat.cast_inj] at hmember
    exact hmember
  obtain ⟨⟨storeId, campaignId, runId, jobId, intent, source, plan⟩, stage, digest⟩ := r
  obtain ⟨⟨storeId', campaignId', runId', jobId', intent', source', plan'⟩, stage', digest'⟩ := r'
  cases stage <;> cases stage' <;> cases hrevision <;>
    simp only [JobRecord.toJson, recordMembers, JobStage.identityMember, JobStage.reviewMember,
      JobStage.revision, JobStage.stateName, JsValue.obj.injEq, JsValue.str.injEq,
      List.cons.injEq, List.cons_append, List.nil_append, Prod.mk.injEq, true_and, and_true] at h
  · obtain ⟨rfl, rfl, rfl, hplan, rfl, rfl, hsource, rfl⟩ := h
    rw [PublicationRunnerPlanRecord.toJson_injective hplan,
      PreviewSourceIdentity.toJson_injective hsource]
  · obtain ⟨rfl, rfl, rfl, hplan, rfl, hreview, rfl, hsource, rfl⟩ := h
    rw [PublicationRunnerPlanRecord.toJson_injective hplan,
      PreviewSourceIdentity.toJson_injective hsource,
      RunnerEvidenceContext.toJson_injective hreview]
  · obtain ⟨rfl, hidentity, rfl, rfl, hplan, rfl, hreview, rfl, hsource, rfl⟩ := h
    rw [PublicationRunnerPlanRecord.toJson_injective hplan,
      PreviewSourceIdentity.toJson_injective hsource,
      RunnerEvidenceContext.toJson_injective hreview,
      RetainedRunnerEvidenceIdentity.toJson_injective hidentity]

/-! ### The codec -/

theorem rejectDifferent_eq_ok {left right : JsValue} {error : String} {u : Unit} :
    rejectDifferent left right error = .ok u ↔
      ∃ t, canonicalJson left = .ok t ∧ canonicalJson right = .ok t := by
  simp only [rejectDifferent, bind_eq_ok, reject_eq_ok, not_not]
  constructor
  · rintro ⟨t, hleft, _, hright, rfl⟩
    exact ⟨t, hleft, hright⟩
  · rintro ⟨t, hleft, hright⟩
    exact ⟨t, hleft, t, hright, rfl⟩

theorem conflictUnlessSame_eq_ok {left right : JsValue} (hl : Canonical left)
    (hr : Canonical right) {u : Unit} (h : conflictUnlessSame left right = .ok u) :
    left = right := by
  simp only [conflictUnlessSame, bind_eq_ok, rethrow_eq_ok, reject_eq_ok, not_not] at h
  obtain ⟨t, hleft, _, hright, rfl⟩ := h
  exact eq_of_canonicalJson_eq hl hr hleft hright

private theorem fitsLimit_maxRecordBytes {size : ℕ} :
    CanonicalJson.FitsLimit maxRecordBytes size ↔ size ≤ 262144 := by
  simp only [CanonicalJson.FitsLimit, maxRecordBytes, JsNumber.int.injEq]
  constructor
  · rintro ⟨_, rfl, -, -, hsize⟩
    exact_mod_cast hsize
  · intro hsize
    exact ⟨_, rfl, by decide, by decide, by exact_mod_cast hsize⟩

def JobRecord.members (r : JobRecord) : List Member :=
  recordMembers r.toRecordBase r.stage [(js "recordDigest", .str r.recordDigest)]

/-- What the members of a record pass when they make that record again. -/
structure JobRecord.Checks (P : Platform) (r : JobRecord) : Prop where
  storeId : isUuid r.storeId = true
  campaignId : isIdentifier r.campaignId = true
  runId : isIdentifier r.runId = true
  source : canonicalSource r.source.toJson = .ok r.source
  plan : canonicalPlan P r.plan.toJson = .ok r.plan
  jobId : r.jobId = r.plan.plan.jobId
  sourceMatchesPlan : SourceMatchesPlan r.source r.plan.plan
  intent : ∃ intent, readPreparationIntent P r.preparedFields.toJson = .ok intent ∧
    runnerEvidenceDigest P intent.toJson = .ok r.intentDigest
  digestText : isDigestText r.recordDigest = true
  digest : runnerEvidenceDigest P (bodyJson r.toRecordBase r.stage) = .ok r.recordDigest
  stage : readStage P r.members r.stage.revision r.campaignId r.runId r.source r.plan = .ok r.stage

private theorem announcedRevision_members (r : JobRecord) :
    ∃ keys, announcedRevision r.members = .ok (r.stage.revision, keys) ∧
      recordKeys r.members keys = .ok () := by
  have hkeys : (sortByKey r.members).map Prod.fst = r.members.map Prod.fst :=
    Canonical.keys_sorted r.canonical_toJson
  obtain ⟨base, stage, digest⟩ := r
  simp only [recordKeys, hkeys, reject_eq_ok, not_not]
  cases stage with
  | prepared => exact ⟨baseKeys, rfl, rfl⟩
  | reviewed review => exact ⟨reviewedKeys, rfl, rfl⟩
  | evidenceRetained review identity => exact ⟨retainedKeys, rfl, rfl⟩

private theorem bodyOf_members (r : JobRecord) :
    bodyOf r.members = bodyJson r.toRecordBase r.stage := by
  obtain ⟨base, stage, digest⟩ := r
  cases stage <;> rfl

private theorem field_members (r : JobRecord) (key : String) (value : JsValue)
    (hmem : (js key, value) ∈ r.members) : field r.members key = value :=
  Canonical.getMember_of_mem r.canonical_toJson _ _ hmem

theorem readRecord_members_eq_ok {P : Platform} {r : JobRecord} :
    readRecord P r.members = .ok r ↔ r.Checks P := by
  obtain ⟨keys, hannounced, hkeys⟩ := announcedRevision_members r
  have hschema := field_members r "schemaVersion" (.num (.int 1))
    (by simp [JobRecord.members, recordMembers])
  have hstore := field_members r "storeId" (.str r.storeId)
    (by simp [JobRecord.members, recordMembers])
  have hcampaign := field_members r "campaignId" (.str r.campaignId)
    (by simp [JobRecord.members, recordMembers])
  have hrun := field_members r "runId" (.str r.runId)
    (by simp [JobRecord.members, recordMembers])
  have hsource := field_members r "source" (r.source.toJson)
    (by simp [JobRecord.members, recordMembers])
  have hplan := field_members r "plan" (r.plan.toJson)
    (by simp [JobRecord.members, recordMembers])
  have hjob := field_members r "jobId" (.str r.jobId)
    (by simp [JobRecord.members, recordMembers])
  have hintent := field_members r "intentDigest" (.str r.intentDigest)
    (by simp [JobRecord.members, recordMembers])
  have hdigest := field_members r "recordDigest" (.str r.recordDigest)
    (by simp [JobRecord.members, recordMembers])
  have hone : isSchemaVersion (.num (.int 1)) = true := rfl
  simp only [readRecord, hannounced, hkeys, ok_bind, storeIdOf, hschema, hone, hstore, hcampaign,
    hrun, hsource, hplan, hjob, hintent, hdigest, identifier, textField, bodyOf_members, bind_eq_ok,
    reject_eq_ok, exists_unit, pure_eq_ok, rethrow_eq_ok, preparationIntent, not_or, not_not,
    Bool.not_eq_false]
  constructor
  · rintro ⟨_, ⟨hstoreId, rfl⟩, _, ⟨hcampaignId, rfl⟩, _, ⟨hrunId, rfl⟩, source, hreadSource, plan,
      hreadPlan, hjobId, hmatches, intent, hreadIntent, _, hintentDigest, ⟨rfl, htext⟩, _,
      hbodyDigest, rfl, stage, hreadStage, hr⟩
    obtain rfl : source = r.source := congrArg (fun r' : JobRecord ↦ r'.source) hr
    obtain rfl : plan = r.plan := congrArg (fun r' : JobRecord ↦ r'.plan) hr
    obtain rfl : stage = r.stage := congrArg (fun r' : JobRecord ↦ r'.stage) hr
    exact {
      storeId := hstoreId
      campaignId := hcampaignId
      runId := hrunId
      source := hreadSource
      plan := hreadPlan
      jobId := hjobId
      sourceMatchesPlan := hmatches
      intent := ⟨intent, hreadIntent, hintentDigest⟩
      digestText := htext
      digest := hbodyDigest
      stage := hreadStage }
  · intro h
    obtain ⟨intent, hreadIntent, hintentDigest⟩ := h.intent
    refine ⟨_, ⟨h.storeId, rfl⟩, _, ⟨h.campaignId, rfl⟩, _, ⟨h.runId, rfl⟩, _, h.source, _, h.plan,
      h.jobId, h.sourceMatchesPlan, intent, hreadIntent, _, hintentDigest, ⟨rfl, h.digestText⟩, _,
      h.digest, rfl, _, h.stage, ?_⟩
    rw [← h.jobId]

/-- **What the decoder accepts**: the canonical text, within the bound, of a record that passes the
checks. -/
theorem decodeJobRecord_eq_ok {P : Platform} {text : JsString} {r : JobRecord} :
    decodeJobRecord P text = .ok r ↔
      canonicalJson r.toJson = .ok text ∧ byteLength text ≤ 262144 ∧
        r.Checks P := by
  rw [← readRecord_members_eq_ok]
  simp only [decodeJobRecord, readCanonicalRecord, rethrow_eq_ok, bind_eq_ok,
    CanonicalJson.parseCanonicalJson_eq_ok, fitsLimit_maxRecordBytes, rejectDifferent_eq_ok,
    exists_unit, pure_eq_ok]
  constructor
  · rintro ⟨value, ⟨hdata, hsorted, htext, hsize⟩, root, hroot, _, hread, ⟨t, hnormal, hvalue⟩, rfl⟩
    have hcanonical : Canonical value := ⟨hdata.distinctKeys, hsorted⟩
    have hequal := eq_of_canonicalJson_eq hcanonical (JobRecord.canonical_toJson _) hvalue hnormal
    obtain rfl : text = compactText value := htext
    subst hequal
    obtain rfl : JobRecord.members _ = root := Except.ok.inj hroot
    exact ⟨(canonicalJson_of_canonical hcanonical).mpr ⟨hdata, rfl⟩, hsize, hread⟩
  · rintro ⟨htext, hsize, hread⟩
    obtain ⟨hdata, rfl⟩ := (canonicalJson_of_canonical r.canonical_toJson).mp htext
    exact ⟨r.toJson, ⟨hdata, r.canonical_toJson.2, rfl, hsize⟩, r.members, rfl, r, hread,
      ⟨_, htext, htext⟩, rfl⟩

theorem encodeJobRecord_of_decode {P : Platform} {text : JsString} {r : JobRecord}
    (h : decodeJobRecord P text = .ok r) : encodeJobRecord P r = .ok text := by
  obtain ⟨htext, -, -⟩ := decodeJobRecord_eq_ok.mp h
  obtain ⟨hdata, -⟩ := (canonicalJson_of_canonical r.canonical_toJson).mp htext
  have hdetach : detachRunnerEvidenceData r.toJson = .ok r.toJson :=
    (detachRunnerEvidenceData_eq_ok r.canonical_toJson.1).mpr ⟨hdata, r.canonical_toJson.2.symm⟩
  simp only [encodeJobRecord, bind_eq_ok, rethrow_eq_ok, pure_eq_ok]
  exact ⟨_, hdetach, text, htext, r, h, rfl⟩

theorem decodeJobRecord_of_encode {P : Platform} {text : JsString} {r : JobRecord}
    (h : encodeJobRecord P r = .ok text) : decodeJobRecord P text = .ok r := by
  simp only [encodeJobRecord, bind_eq_ok, rethrow_eq_ok, pure_eq_ok,
    detachRunnerEvidenceData_eq_ok r.canonical_toJson.1, r.canonical_toJson.2] at h
  obtain ⟨_, ⟨-, rfl⟩, t, htext, r', hdecode, rfl⟩ := h
  obtain ⟨htext', -, -⟩ := decodeJobRecord_eq_ok.mp hdecode
  obtain rfl : r' = r := JobRecord.toJson_injective
    (eq_of_canonicalJson_eq r'.canonical_toJson r.canonical_toJson htext' htext)
  exact hdecode

/-- A record and its text determine each other. -/
theorem encodeJobRecord_eq_ok {P : Platform} {text : JsString} {r : JobRecord} :
    encodeJobRecord P r = .ok text ↔ decodeJobRecord P text = .ok r :=
  ⟨decodeJobRecord_of_encode, encodeJobRecord_of_decode⟩

/-- A canonical candidate decodes to the record whose JSON it is. -/
theorem decodeCandidate_eq_ok {P : Platform} {candidate : JsValue} (hc : DistinctKeys candidate)
    {r : JobRecord} (h : decodeCandidate P candidate = .ok r) :
    r.toJson = candidate.sorted ∧ ∃ text, decodeJobRecord P text = .ok r := by
  simp only [decodeCandidate, bind_eq_ok, rethrow_eq_ok, CanonicalJson.canonicalJson_eq_ok hc] at h
  obtain ⟨text, ⟨hdata, rfl⟩, hdecode⟩ := h
  obtain ⟨htext, -, -⟩ := decodeJobRecord_eq_ok.mp hdecode
  obtain ⟨hdata', htext⟩ := (canonicalJson_of_canonical r.canonical_toJson).mp htext
  exact ⟨(compactText_injective hdata.sorted hdata' htext).symm, _, hdecode⟩

/-! ### Transitions -/

theorem withNextRevision_eq_ok {P : Platform} {current r : JobRecord} {stage : JobStage}
    (h : withNextRevision P current stage = .ok r) :
    r.toRecordBase = current.toRecordBase ∧ r.stage = stage ∧
      ∃ text, decodeJobRecord P text = .ok r := by
  simp only [withNextRevision, bind_eq_ok] at h
  obtain ⟨recordDigest, -, h⟩ := h
  have hcanonical := JobRecord.canonical_toJson { current with stage, recordDigest }
  obtain ⟨hjson, hdecodes⟩ := decodeCandidate_eq_ok hcanonical.1 h
  rw [hcanonical.2] at hjson
  obtain rfl := JobRecord.toJson_injective hjson
  exact ⟨rfl, rfl, hdecodes⟩

/-- A review is appended to a prepared job, and a job that has it already is left alone. -/
theorem appendJobReview_eq_ok {P : Platform} {record r : JobRecord} {output completedAt : JsValue}
    {now : JsNumber} (h : appendJobReview P record output completedAt now = .ok r) :
    ∃ review, reviewOf P record output completedAt now = .ok review ∧
      (record.stage = .prepared ∧ r.toRecordBase = record.toRecordBase ∧
          r.stage = .reviewed review ∧ (∃ text, decodeJobRecord P text = .ok r) ∨
        record.stage = .reviewed review ∧ r = record) := by
  simp only [appendJobReview, bind_eq_ok, encodeJobRecord_eq_ok, exists_unit] at h
  obtain ⟨text, hencode, current, hdecode, -, h⟩ := h
  obtain rfl : current = record := Except.ok.inj (hdecode.symm.trans hencode)
  cases hstage : current.stage with
  | prepared =>
    simp only [hstage, bind_eq_ok] at h
    obtain ⟨review, hreview, hnext⟩ := h
    exact ⟨review, hreview, Or.inl ⟨rfl, withNextRevision_eq_ok hnext⟩⟩
  | reviewed review =>
    simp only [hstage, bind_eq_ok, exists_unit, pure_eq_ok] at h
    obtain ⟨given, hgiven, hsame, rfl⟩ := h
    obtain rfl := RunnerEvidenceContext.toJson_injective
      (conflictUnlessSame_eq_ok review.canonical_toJson given.canonical_toJson hsame)
    exact ⟨review, hgiven, Or.inr ⟨rfl, rfl⟩⟩
  | evidenceRetained review identity =>
    simp only [hstage] at h
    cases h

/-- An identity is appended to a reviewed job, and a job that has it already is left alone. -/
theorem appendJobIdentity_eq_ok {P : Platform} {record r : JobRecord} {identity : JsValue}
    {now : JsNumber} (h : appendJobIdentity P record identity now = .ok r) :
    ∃ review validated, boundIdentity P record review identity now = .ok validated ∧
      (record.stage = .reviewed review ∧ r.toRecordBase = record.toRecordBase ∧
          r.stage = .evidenceRetained review validated ∧
          (∃ text, decodeJobRecord P text = .ok r) ∨
        record.stage = .evidenceRetained review validated ∧ r = record) := by
  simp only [appendJobIdentity, bind_eq_ok, encodeJobRecord_eq_ok, exists_unit] at h
  obtain ⟨text, hencode, current, hdecode, -, h⟩ := h
  obtain rfl : current = record := Except.ok.inj (hdecode.symm.trans hencode)
  cases hstage : current.stage with
  | prepared =>
    simp only [hstage] at h
    cases h
  | reviewed review =>
    simp only [hstage, bind_eq_ok] at h
    obtain ⟨validated, hvalidated, hnext⟩ := h
    exact ⟨review, validated, hvalidated, Or.inl ⟨rfl, withNextRevision_eq_ok hnext⟩⟩
  | evidenceRetained review retained =>
    simp only [hstage, bind_eq_ok, exists_unit, pure_eq_ok] at h
    obtain ⟨validated, hvalidated, hsame, rfl⟩ := h
    obtain rfl := RetainedRunnerEvidenceIdentity.toJson_injective
      (conflictUnlessSame_eq_ok retained.canonical_toJson validated.canonical_toJson hsame)
    exact ⟨review, retained, hvalidated, Or.inr ⟨rfl, rfl⟩⟩

theorem canonicalPreparedInput_eq_ok {input : PreparedFields} {ms : List Member}
    (h : canonicalPreparedInput input.toJson = .ok ms) : input.toJson = .obj ms := by
  simp only [canonicalPreparedInput, bind_eq_ok,
    detachRunnerEvidenceData_eq_ok input.canonical_toJson.1, input.canonical_toJson.2, exists_unit,
    pure_eq_ok] at h
  obtain ⟨_, ⟨-, rfl⟩, _, hobject, -, rfl⟩ := h
  exact congrArg JsValue.obj (Except.ok.inj hobject)

/-- A prepared record holds what it was prepared from. -/
theorem makePreparedRecord_eq_ok {P : Platform} {input : PreparedFields} {r : JobRecord}
    (h : makePreparedRecord P input.toJson = .ok r) :
    r.storeId = input.storeId ∧ r.campaignId = input.campaignId ∧ r.runId = input.runId ∧
      r.source = input.source ∧ r.plan = input.plan ∧ r.stage = .prepared ∧
      ∃ text, decodeJobRecord P text = .ok r := by
  simp only [makePreparedRecord, rethrow_eq_ok, bind_eq_ok] at h
  obtain ⟨ms, hms, intent, -, plan, -, intentDigest, -, recordDigest, -, h⟩ := h
  obtain rfl := JsValue.obj.inj (canonicalPreparedInput_eq_ok hms).symm
  have hkeys : DistinctKeys (.obj ([(js "schemaVersion", JsValue.num (.int 1)),
      (js "storeId", .str input.storeId), (js "campaignId", .str input.campaignId),
      (js "runId", .str input.runId), (js "jobId", .str plan.plan.jobId),
      (js "revision", .num (.int 1)), (js "state", .str (js "prepared")),
      (js "intentDigest", .str intentDigest), (js "source", input.source.toJson),
      (js "plan", input.plan.toJson), (js "recordDigest", .str recordDigest)])) := by
    refine .obj (by simp only [List.map_cons, List.map_nil]; decide) ?_
    simp only [List.forall_mem_cons, List.not_mem_nil, false_implies, implies_true, and_true]
    exact ⟨.num _, .str _, .str _, .str _, .str _, .num _, .str _, .str _,
      input.source.canonical_toJson.1, input.plan.canonical_toJson.1, .str _⟩
  obtain ⟨hjson, hdecodes⟩ := decodeCandidate_eq_ok hkeys h
  have hsorted : r.toJson = JobRecord.toJson {
      storeId := input.storeId, campaignId := input.campaignId, runId := input.runId,
      jobId := plan.plan.jobId, intentDigest, source := input.source, plan := input.plan,
      stage := .prepared, recordDigest } := by
    rw [hjson]
    simp only [JsValue.sorted, sortedMembers, input.source.canonical_toJson.2,
      input.plan.canonical_toJson.2]
    rfl
  obtain rfl := JobRecord.toJson_injective hsorted
  exact ⟨rfl, rfl, rfl, rfl, rfl, rfl, hdecodes⟩

end ApiMigrator.App.RunnerJob
