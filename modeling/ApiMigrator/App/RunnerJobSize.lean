import ApiMigrator.App.PublicationRunnerPlan
import ApiMigrator.App.RunnerJobCodec
import ApiMigrator.Foundation.JsonSize
import Mathlib.Tactic.Linarith

/-!
How long a record is. Every text of a record is bounded by the reader that accepts it, and the
canonical text of a plan is at most doubled where the record quotes it, so that the record with its
review and its evidence stays far within the bound of the store.
-/

set_option autoImplicit false
set_option relaxedAutoImplicit false

namespace ApiMigrator.App.RunnerJob

open Foundation.Text Foundation.Number Foundation.Json Foundation.Outcome Foundation.Pattern
open Foundation.Binary PublicationRunner RunnerEvidence
open CanonicalJson (canonicalJson canonicalJson_of_canonical)
open SourceBundle (field isDigestText_sha256 sha256)

/-! ### Plans -/

theorem byteLength_of_boundedString {value : JsValue} {label : String} {maxBytes : ℕ}
    {text : JsString} (h : boundedString value label maxBytes = .ok text) :
    byteLength text ≤ maxBytes := by
  cases value with
  | str s =>
    simp only [boundedString, bind_eq_ok, reject_eq_ok, exists_unit, pure_eq_ok, not_or,
      not_lt] at h
    obtain ⟨⟨-, -, hle⟩, _, -, rfl⟩ := h
    exact hle
  | _ => cases h

theorem isDigestText_of_digest {value : JsValue} {label : String} {text : JsString}
    (h : digest value label = .ok text) : isDigestText text = true := by
  cases value with
  | str s =>
    simp only [digest, bind_eq_ok, reject_eq_ok, exists_unit, pure_eq_ok, Bool.not_eq_false] at h
    exact h.2 ▸ h.1
  | _ => cases h

theorem weight_digest_le {text : JsString} (h : isDigestText text = true) :
    (JsValue.str text).weight ≤ 428 :=
  weight_str_le (byteLength_of_isDigestText h).le

/-- A plan with nothing filled in. -/
def emptyPlan : PublicationRunnerPlan where
  jobId := []
  nonceDigest := []
  createdAt := 0
  expiresAt := 0
  subject := { pilotId := [], repository := ⟨[], .int 0, .int 0⟩, branch := [], sha := [] }
  inputs := ⟨[], [], []⟩
  imageDigest := []
  destinations := []
  policyDigest := []

/-- What the forms weigh with nothing filled in, evaluated in one go. -/
private theorem weight_forms :
    (planEgress emptyPlan).weight ≤ 250 ∧ (planExecution emptyPlan).weight ≤ 1250 ∧
      (planJob emptyPlan).weight ≤ 110 ∧ (PlanInputs.toJson ⟨[], [], []⟩).weight ≤ 90 ∧
      emptyPlan.subject.toJson.weight ≤ 140 ∧
      (JsValue.obj [(js "egress", .null), (js "execution", .null), (js "imageDigest", .null),
        (js "inputs", .null), (js "job", .null), (js "profile", .str publicationRunnerProfile),
        (js "schemaVersion", .num (.int 1)), (js "subject", .null),
        (js "teardown", planTeardown)]).weight ≤ 450 ∧
      (RunnerEgressDestination.toJson ⟨[], [], [], 0, 0⟩).weight ≤ 300 ∧
      (JsValue.obj [(js "canonicalJson", .null), (js "digest", .null),
        (js "plan", .null)]).weight ≤ 60 ∧
      (PreviewSourceIdentity.toJson ⟨⟨[], .int 0, .int 0⟩, ⟨[], [], []⟩, [], []⟩).weight ≤ 240 ∧
      (JsValue.obj [(js "artifactDigest", .null), (js "candidateTreeSha", .null),
        (js "preflightId", .null)]).weight ≤ 80 ∧
      (RetainedRunnerEvidenceIdentity.toJson ⟨[], [], [], [], [], [], [], [], 0⟩).weight ≤ 300 := by
  decide +kernel

private theorem weight_planEgress (p : PublicationRunnerPlan) :
    (planEgress p).weight ≤ 250 + (destinationsJson p.destinations).weight +
      (JsValue.str p.policyDigest).weight := by
  have hempty : (planEgress emptyPlan).weight ≤ 250 := weight_forms.1
  simp only [planEgress, JsValue.weight, membersWeight] at hempty ⊢
  linarith

private theorem weight_planExecution (p : PublicationRunnerPlan) :
    (planExecution p).weight ≤ 1250 + (JsValue.str (p.jobId ++ js ":migration")).weight +
      (JsValue.str p.policyDigest).weight := by
  have hempty : (planExecution emptyPlan).weight ≤ 1250 := weight_forms.2.1
  simp only [planExecution, JsValue.weight, membersWeight] at hempty ⊢
  linarith

private theorem weight_planJob (p : PublicationRunnerPlan) :
    (planJob p).weight ≤ 110 + (JsValue.str p.jobId).weight +
      (JsValue.str p.nonceDigest).weight := by
  have hempty : (planJob emptyPlan).weight ≤ 110 := weight_forms.2.2.1
  simp only [planJob, JsValue.weight, membersWeight] at hempty ⊢
  linarith

private theorem weight_inputs (i : PlanInputs) :
    i.toJson.weight ≤ 90 + (JsValue.str i.sourceArchiveDigest).weight +
      (JsValue.str i.manifestDigest).weight + (JsValue.str i.commandScopeDigest).weight := by
  have hempty : (PlanInputs.toJson ⟨[], [], []⟩).weight ≤ 90 := weight_forms.2.2.2.1
  simp only [PlanInputs.toJson, JsValue.weight, membersWeight] at hempty ⊢
  linarith

private theorem weight_subject (s : PlanSubject) :
    s.toJson.weight ≤ 140 + (JsValue.str s.pilotId).weight +
      (JsValue.str s.repository.slug).weight + (JsValue.str s.branch).weight +
      (JsValue.str s.sha).weight := by
  have hempty : emptyPlan.subject.toJson.weight ≤ 140 := weight_forms.2.2.2.2.1
  simp only [emptyPlan, PlanSubject.toJson, SourceBundle.RepositoryIdentity.toJson, JsValue.weight,
    membersWeight] at hempty ⊢
  linarith

private theorem weight_plan (p : PublicationRunnerPlan) :
    p.toJson.weight ≤ 450 + (planEgress p).weight + (planExecution p).weight +
      (JsValue.str p.imageDigest).weight + p.inputs.toJson.weight + (planJob p).weight +
      p.subject.toJson.weight := by
  have hfixed : (JsValue.obj [(js "egress", .null), (js "execution", .null),
      (js "imageDigest", .null), (js "inputs", .null), (js "job", .null),
      (js "profile", .str publicationRunnerProfile), (js "schemaVersion", .num (.int 1)),
      (js "subject", .null), (js "teardown", planTeardown)]).weight ≤ 450 :=
    weight_forms.2.2.2.2.2.1
  simp only [PublicationRunnerPlan.toJson, JsValue.weight, membersWeight] at hfixed ⊢
  linarith

private theorem weight_destination_le {createdAt expiresAt : ℕ} {P : Platform} {value : JsValue}
    {d : RunnerEgressDestination} (h : validateDestination P createdAt expiresAt value = .ok d) :
    d.toJson.weight ≤ 14700 := by
  simp only [validateDestination, bind_eq_ok, exists_unit, pure_eq_ok] at h
  obtain ⟨_, -, -, host, hhost, -, entries, hentries, literals, hliterals, -, observed, -, expires,
    -, -, evidence, hevidence, rfl⟩ := h
  have hhost := weight_str_le (byteLength_of_boundedString hhost)
  have hevidence := weight_digest_le (isDigestText_of_digest hevidence)
  have hlength : literals.length ≤ 32 := by
    rw [← (mapEach_eq_ok.mp hliterals).length_eq]
    unfold addressEntries at hentries
    split at hentries
    · simp only [bind_eq_ok, reject_eq_ok, exists_unit, pure_eq_ok, not_or, not_lt] at hentries
      exact hentries.2 ▸ hentries.1.2
    · cases hentries
  have haddress : ∀ x ∈ (literals.insertionSort (· ≤ ·)).map JsValue.str, x.weight ≤ 386 := by
    refine List.forall_mem_map.mpr fun literal hliteral ↦ ?_
    obtain ⟨entry, -, hentry⟩ := exists_of_mapEach hliterals
      ((List.perm_insertionSort (· ≤ ·) literals).mem_iff.mp hliteral)
    simp only [validateAddress, bind_eq_ok, exists_unit, pure_eq_ok] at hentry
    obtain ⟨_, hbounded, -, rfl⟩ := hentry
    exact weight_str_le (byteLength_of_boundedString hbounded)
  have haddresses := elementsWeight_le haddress
  rw [List.length_map, List.length_insertionSort] at haddresses
  have hsum : literals.length * (386 + 1) ≤ 32 * (386 + 1) := Nat.mul_le_mul_right _ hlength
  let empty : RunnerEgressDestination := ⟨[], [], [], 0, 0⟩
  have hempty : empty.toJson.weight ≤ 300 := weight_forms.2.2.2.2.2.2.1
  have hle : (RunnerEgressDestination.toJson
      ⟨host, literals.insertionSort (· ≤ ·), evidence, observed, expires⟩).weight ≤
      empty.toJson.weight + elementsWeight ((literals.insertionSort (· ≤ ·)).map JsValue.str) +
        (JsValue.str host).weight + (JsValue.str evidence).weight := by
    simp only [RunnerEgressDestination.toJson, empty, JsValue.weight, membersWeight, elementsWeight,
      List.map_nil]
    linarith
  linarith

private theorem weight_destinations_le {createdAt expiresAt : ℕ} {P : Platform} {value : JsValue}
    {ds : List RunnerEgressDestination}
    (h : normalizeAndValidateDestinations P value createdAt expiresAt = .ok ds) :
    (destinationsJson ds).weight ≤ 14703 := by
  cases value with
  | arr entries =>
    simp only [normalizeAndValidateDestinations, bind_eq_ok, exists_unit, pure_eq_ok,
      reject_eq_ok, not_not] at h
    obtain ⟨hcount, _, hread, -, rfl⟩ := h
    have hweight := elementsWeight_le (List.forall_mem_map.mpr fun d hd ↦ by
      obtain ⟨entry, -, hentry⟩ := exists_of_mapEach hread hd
      exact weight_destination_le hentry)
    rw [List.length_map, ← (mapEach_eq_ok.mp hread).length_eq, hcount] at hweight
    rw [destinationsJson, JsValue.weight]
    exact Nat.add_le_add_right hweight 2
  | _ => cases h

/-- The texts of a subject that was read. -/
theorem bounds_of_validateSubject {value : JsValue} {s : PlanSubject}
    (h : validateSubject value = .ok s) :
    byteLength s.pilotId ≤ 86 ∧ byteLength s.repository.slug ≤ 140 ∧ byteLength s.branch ≤ 240 ∧
      byteLength s.sha ≤ 64 := by
  simp only [validateSubject, bind_eq_ok, exists_unit, pure_eq_ok] at h
  obtain ⟨_, -, -, pilotId, hpilotId, -, _, -, -, bounded, hbounded, slug, hslug, -, _, -, -, sha,
    hsha, -, id, -, ownerId, -, given, hgiven, branch, hbranch, rfl⟩ := h
  obtain rfl := validateRepositorySlug_again hslug
  obtain rfl := validateRepositoryBranch_again hbranch
  exact ⟨byteLength_of_boundedString hpilotId, byteLength_of_boundedString hbounded,
    byteLength_of_boundedString hgiven, byteLength_of_boundedString hsha⟩

theorem digests_of_validateInputs {P : Platform} {value : JsValue} {i : PlanInputs}
    (h : validateInputs P value = .ok i) :
    isDigestText i.sourceArchiveDigest = true ∧ isDigestText i.manifestDigest = true ∧
      isDigestText i.commandScopeDigest = true := by
  simp only [validateInputs, bind_eq_ok, exists_unit, pure_eq_ok] at h
  obtain ⟨_, -, -, scope, hscope, expected, -, -, archive, harchive, manifest, hmanifest, rfl⟩ := h
  exact ⟨isDigestText_of_digest harchive, isDigestText_of_digest hmanifest,
    isDigestText_of_digest hscope⟩

/-- What bounds the texts of a plan that was read. -/
structure PlanBounds (p : PublicationRunnerPlan) : Prop where
  jobId : isJobId p.jobId = true
  nonceDigest : isDigestText p.nonceDigest = true
  imageDigest : isDigestText p.imageDigest = true
  policyDigest : isDigestText p.policyDigest = true
  subject : byteLength p.subject.pilotId ≤ 86 ∧ byteLength p.subject.repository.slug ≤ 140 ∧
    byteLength p.subject.branch ≤ 240 ∧ byteLength p.subject.sha ≤ 64
  inputs : isDigestText p.inputs.sourceArchiveDigest = true ∧
    isDigestText p.inputs.manifestDigest = true ∧ isDigestText p.inputs.commandScopeDigest = true
  destinations : (destinationsJson p.destinations).weight ≤ 14703

theorem planBounds_of_checks {P : Platform} {p : PublicationRunnerPlan} (h : PlanChecks P p)
    (hdata : IJson p.toJson) : PlanBounds p where
  jobId := h.isJobId
  nonceDigest := isDigestText_of_digest h.nonceDigest
  imageDigest := isDigestText_of_digest h.imageDigest
  policyDigest := by
    have hbuilt := h.built
    simp only [buildPlan, canonicalDigest, bind_eq_ok, pure_eq_ok] at hbuilt
    obtain ⟨_, ⟨_, -, rfl⟩, hplan⟩ := hbuilt
    rw [← hplan]
    exact isDigestText_sha256 _ _
  subject := bounds_of_validateSubject (h.subject (iJson_of_member hdata
    (.tail _ (.tail _ (.tail _ (.tail _ (.tail _ (.tail _ (.tail _ List.mem_cons_self)))))))))
  inputs := digests_of_validateInputs (h.inputs (iJson_of_member hdata
    (.tail _ (.tail _ (.tail _ List.mem_cons_self)))))
  destinations := by
    have hegress := iJson_of_member hdata List.mem_cons_self
    have hinstall := iJson_of_member hegress (.tail _ (.tail _ (.tail _ List.mem_cons_self)))
    exact weight_destinations_le (h.destinations (forall_of_destinationsJson
      (iJson_of_member hinstall (.tail _ List.mem_cons_self))))

theorem PlanBounds.weight_le {p : PublicationRunnerPlan} (h : PlanBounds p) :
    p.toJson.weight ≤ 24600 := by
  obtain ⟨hpilot, hslug, hbranch, hsha⟩ := h.subject
  obtain ⟨harchive, hmanifest, hscope⟩ := h.inputs
  have hidentity : (JsValue.str (p.jobId ++ js ":migration")).weight ≤ 512 := by
    have hlength : byteLength (p.jobId ++ js ":migration") ≤ 85 := by
      have hmigration : byteLength (js ":migration") = 10 := by decide
      rw [byteLength_append (isWellFormed_of_isJobId h.jobId), byteLength_of_isJobId h.jobId,
        hmigration]
    exact weight_str_le hlength
  have hjob := weight_str_le (byteLength_of_isJobId h.jobId).le
  have hnonce := weight_digest_le h.nonceDigest
  have himage := weight_digest_le h.imageDigest
  have hpolicy := weight_digest_le h.policyDigest
  have harchive := weight_digest_le harchive
  have hmanifest := weight_digest_le hmanifest
  have hscope := weight_digest_le hscope
  have hpilot := weight_str_le hpilot
  have hslug := weight_str_le hslug
  have hbranch := weight_str_le hbranch
  have hsha := weight_str_le hsha
  have hdestinations := h.destinations
  have hegress := weight_planEgress p
  have hexecution := weight_planExecution p
  have hjobObject := weight_planJob p
  have hinputs := weight_inputs p.inputs
  have hsubject := weight_subject p.subject
  have hle := weight_plan p
  linarith

/-! ### What a record holds -/

/-- A plan record quotes the text of its plan. -/
theorem weight_planRecord_le {P : Platform} {p : PublicationRunnerPlanRecord}
    (h : validatePublicationRunnerPlan P p.plan.toJson = .ok p) : p.toJson.weight ≤ 74400 := by
  obtain ⟨hchecks, hrecord, -⟩ := checks_of_validatePublicationRunnerPlan h
  obtain ⟨plan, canonical, digest⟩ := p
  simp only [recordForPlan, bind_eq_ok, pure_eq_ok, PublicationRunnerPlanRecord.mk.injEq, true_and]
    at hrecord
  obtain ⟨text, htext, rfl, rfl⟩ := hrecord
  obtain ⟨hdata, rfl⟩ := (canonicalJson_of_canonical plan.canonical_toJson).mp htext
  have hplan : plan.toJson.weight ≤ 24600 := (planBounds_of_checks hchecks hdata).weight_le
  have hquoted := hdata.plain.weight_compactText_le
  have hdigest := weight_digest_le
    (isDigestText_sha256 P.hashes (utf8Encode (compactText plan.toJson)))
  have hkeys : (JsValue.obj [(js "canonicalJson", .null), (js "digest", .null),
      (js "plan", .null)]).weight ≤ 60 := weight_forms.2.2.2.2.2.2.2.1
  simp only [JsValue.weight, membersWeight] at hkeys hquoted hdigest
  simp only [PublicationRunnerPlanRecord.toJson, JsValue.weight, membersWeight]
  linarith

theorem isGitSha_of_canonicalSource {value : JsValue} {s : PreviewSourceIdentity}
    (h : canonicalSource value = .ok s) : isGitSha s.base.treeSha = true := by
  simp only [canonicalSource, validateLocalPreviewExecution, bind_eq_ok, exists_unit] at h
  obtain ⟨preview, ⟨_, -, -, -, hpreview⟩, h⟩ := h
  split at hpreview
  · simp only [unavailableReason, bind_eq_ok, exists_unit] at hpreview
    obtain ⟨-, hpreview⟩ := hpreview
    split_ifs at hpreview
    · cases hpreview
      cases h
    · cases hpreview
      cases h
  · simp only [bind_eq_ok, exists_unit, pure_eq_ok, previewSource] at hpreview
    obtain ⟨-, source, ⟨_, -, -, _, -, -, _, -, id, -, owner, -, base, -, -, branch, -, sha, -, tree,
      htree, -, manifest, -, archive, -, rfl⟩, rfl⟩ := hpreview
    simp only [pure_eq_ok] at h
    subst h
    cases hfield : field base "treeSha" with
    | str text =>
      rw [hfield] at htree
      simp only [gitOid, bind_eq_ok, reject_eq_ok, exists_unit, pure_eq_ok, Bool.not_eq_false]
        at htree
      exact htree.2 ▸ htree.1
    | _ =>
      rw [hfield] at htree
      cases htree

theorem byteLength_of_isGitSha {s : JsString} (h : isGitSha s = true) : byteLength s ≤ 64 := by
  rcases Bool.or_eq_true_iff.mp h with h | h
  · rw [byteLength_of_isHexOfLength h]
    decide
  · rw [byteLength_of_isHexOfLength h]

theorem weight_source_le {s : PreviewSourceIdentity} {p : PublicationRunnerPlan}
    (hp : PlanBounds p) (hmatches : SourceMatchesPlan s p) (htree : isGitSha s.base.treeSha = true) :
    s.toJson.weight ≤ 4200 := by
  obtain ⟨hrepository, hbranch, hsha, hmanifest, harchive⟩ := hmatches
  obtain ⟨-, hslug', hbranch', hsha'⟩ := hp.subject
  have hslug := weight_str_le hslug'
  have hbranch := weight_str_le (hbranch ▸ hbranch')
  have hsha := weight_str_le (hsha ▸ hsha')
  have htree := weight_str_le (byteLength_of_isGitSha htree)
  have hmanifest := weight_digest_le (hmanifest ▸ hp.inputs.2.1)
  have harchive := weight_digest_le (harchive ▸ hp.inputs.1)
  rw [← hrepository] at hslug
  let empty : PreviewSourceIdentity := ⟨⟨[], .int 0, .int 0⟩, ⟨[], [], []⟩, [], []⟩
  have hempty : empty.toJson.weight ≤ 240 := weight_forms.2.2.2.2.2.2.2.2.1
  have hle : s.toJson.weight ≤ empty.toJson.weight + (JsValue.str s.repository.slug).weight +
      (JsValue.str s.base.branch).weight + (JsValue.str s.base.sha).weight +
      (JsValue.str s.base.treeSha).weight + (JsValue.str s.manifestDigest).weight +
      (JsValue.str s.sourceArchiveDigest).weight := by
    simp only [PreviewSourceIdentity.toJson, SourceBundle.RepositoryIdentity.toJson, empty,
      JsValue.weight, membersWeight]
    linarith
  linarith

theorem weight_output_le {value : JsValue} {o : PublicationRunnerOutput}
    (h : validateRunnerOutput value = .ok o) : o.toJson.weight ≤ 1400 := by
  simp only [validateRunnerOutput, bind_eq_ok, exists_unit, pure_eq_ok] at h
  obtain ⟨_, -, -, preflight, hpreflight, tree, htree, -, artifact, hartifact, rfl⟩ := h
  have hpreflight := weight_str_le (byteLength_of_boundedString hpreflight)
  have htree := weight_str_le (byteLength_of_boundedString htree)
  have hartifact := weight_digest_le (isDigestText_of_digest hartifact)
  have hkeys : (JsValue.obj [(js "artifactDigest", .null), (js "candidateTreeSha", .null),
      (js "preflightId", .null)]).weight ≤ 80 := weight_forms.2.2.2.2.2.2.2.2.2.1
  simp only [JsValue.weight, membersWeight] at hkeys hpreflight htree hartifact
  simp only [PublicationRunnerOutput.toJson, JsValue.weight, membersWeight]
  linarith

private theorem isDigestText_of_evidenceDigest {value : JsValue} {label : String} {text : JsString}
    (h : evidenceDigest value label = .ok text) : isDigestText text = true := by
  simp only [evidenceDigest, bind_eq_ok, reject_eq_ok, exists_unit, pure_eq_ok,
    Bool.not_eq_false] at h
  obtain ⟨_, -, hdigest, rfl⟩ := h
  exact hdigest

theorem byteLength_of_isSignerIdentifier {s : JsString} (h : isSignerIdentifier s = true) :
    byteLength s ≤ 128 := by
  unfold isSignerIdentifier at h
  split at h
  · rename_i first rest
    simp only [Bool.and_eq_true, decide_eq_true_eq, List.all_eq_true] at h
    obtain ⟨⟨hfirst, hrest⟩, hlength⟩ := h
    rw [byteLength_of_ascii (List.forall_mem_cons.mpr ⟨toNat_lt_of_isAlphanumeric hfirst,
      fun c hc ↦ toNat_lt_of_isAlphanumericOr (by decide) (hrest c hc)⟩), List.length_cons]
    linarith
  · exact absurd h Bool.false_ne_true

theorem weight_identity_le {value : JsValue} {i : RetainedRunnerEvidenceIdentity}
    (h : validateRetainedRunnerEvidenceIdentity value = .ok i) : i.toJson.weight ≤ 4200 := by
  simp only [validateRetainedRunnerEvidenceIdentity, rethrow_eq_ok, bind_eq_ok, exists_unit,
    reject_eq_ok, not_or, Bool.not_eq_false, pure_eq_ok] at h
  obtain ⟨_, -, -, -, jobId, -, keyId, -, ⟨hjob, hkey⟩, context, hcontext, plan, hplan, payload,
    hpayload, envelope, henvelope, fingerprint, hfingerprint, trust, htrust, expires, -, rfl⟩ := h
  have hjob := weight_str_le (byteLength_of_isJobId hjob).le
  have hkey := weight_str_le (byteLength_of_isSignerIdentifier hkey)
  have hcontext := weight_digest_le (isDigestText_of_evidenceDigest hcontext)
  have hplan := weight_digest_le (isDigestText_of_evidenceDigest hplan)
  have hpayload := weight_digest_le (isDigestText_of_evidenceDigest hpayload)
  have henvelope := weight_digest_le (isDigestText_of_evidenceDigest henvelope)
  have hfingerprint := weight_digest_le (isDigestText_of_evidenceDigest hfingerprint)
  have htrust := weight_digest_le (isDigestText_of_evidenceDigest htrust)
  let empty : RetainedRunnerEvidenceIdentity := ⟨[], [], [], [], [], [], [], [], 0⟩
  have hempty : empty.toJson.weight ≤ 300 := weight_forms.2.2.2.2.2.2.2.2.2.2
  simp only [JsValue.weight] at hjob hkey hcontext hplan hpayload henvelope hfingerprint htrust
  simp only [RetainedRunnerEvidenceIdentity.toJson, empty, JsValue.weight, membersWeight] at hempty
  simp only [RetainedRunnerEvidenceIdentity.toJson, JsValue.weight, membersWeight]
  linarith

end ApiMigrator.App.RunnerJob
