import ApiMigrator.App.PublicationRunner

/-!
The normal form of a runner plan. Every reader returns its own result unchanged, so a plan that was
created or read once is read back as itself, and a value that is read as a plan differs from the
plan at most in the order of its keys.
-/

set_option autoImplicit false
set_option relaxedAutoImplicit false

namespace ApiMigrator.App.PublicationRunner

open Foundation.Text Foundation.Number Foundation.Json Foundation.Outcome Foundation.Pattern
open Foundation.Binary
open CanonicalJson (canonicalJson canonicalJson_eq_ok canonicalJson_of_canonical)
open SourceBundle (field isSchemaVersion isDigestText_sha256 sha256)

/-! ### Reading a result again -/

theorem boundedString_again {value : JsValue} {label : String} {maxBytes : ℕ} {text : JsString}
    (h : boundedString value label maxBytes = .ok text) :
    boundedString (.str text) label maxBytes = .ok text := by
  cases value with
  | str s =>
    have hread := h
    simp only [boundedString, bind_eq_ok, reject_eq_ok, exists_unit, pure_eq_ok] at hread
    obtain ⟨-, _, -, rfl⟩ := hread
    exact h
  | _ => cases h

theorem digest_of_isDigestText {text : JsString} (h : isDigestText text = true) (label : String) :
    digest (.str text) label = .ok text := by
  simp only [digest, reject, h, Bool.true_eq_false, if_false]
  rfl

theorem digest_again {value : JsValue} {label : String} {text : JsString}
    (h : digest value label = .ok text) (label' : String) :
    digest (.str text) label' = .ok text := by
  cases value with
  | str s =>
    simp only [digest, bind_eq_ok, reject_eq_ok, exists_unit, pure_eq_ok, Bool.not_eq_false] at h
    exact digest_of_isDigestText (h.2 ▸ h.1) label'
  | _ => cases h

theorem positiveInteger_again {value : JsValue} {label : String} {n : JsNumber}
    (h : positiveInteger value label = .ok n) : positiveInteger (.num n) label = .ok n := by
  cases value with
  | num m =>
    have hread := h
    simp only [positiveInteger, bind_eq_ok, reject_eq_ok, exists_unit, pure_eq_ok] at hread
    obtain ⟨_, -, -, rfl⟩ := hread
    exact h
  | _ => cases h

theorem timestamp_again {value : JsValue} {label : String} {n : ℕ}
    (h : timestamp value label = .ok n) (label' : String) :
    timestamp (.num (.int n)) label' = .ok n := by
  cases value with
  | num m =>
    rw [timestamp, orThrow_eq_ok] at h ⊢
    unfold timestampOf at h
    split at h
    · rename_i i hi
      split_ifs at h with hrange
      have hn : (n : ℤ) = i := by
        rw [← Option.some.inj h, Int.toNat_of_nonneg hrange.1.le]
      have hsafe : safeInteger (.int n) = some (n : ℤ) := by
        rw [safeInteger, if_pos (hn ▸ isSafe_of_safeInteger hi)]
      unfold timestampOf
      rw [hsafe]
      dsimp only
      rw [if_pos (hn ▸ hrange), Int.toNat_natCast]
    · cases h
  | _ => cases h

theorem validateRepositorySlug_again {text slug : JsString}
    (h : validateRepositorySlug (.str text) = .ok slug) : slug = text := by
  simp only [validateRepositorySlug, bind_eq_ok, exists_unit] at h
  obtain ⟨-, h⟩ := h
  split at h
  · simp only [bind_eq_ok, exists_unit, pure_eq_ok] at h
    exact h.2.2.symm
  · cases h

theorem validateRepositoryBranch_again {text branch : JsString}
    (h : validateRepositoryBranch (.str text) = .ok branch) : branch = text := by
  simp only [validateRepositoryBranch, bind_eq_ok, exists_unit, pure_eq_ok] at h
  exact h.2.symm

/-! ### Reading objects -/

theorem record_of_iJson {ms : List Member} (h : IJson (.obj ms)) (label : String) :
    record (.obj ms) label = .ok ms := by
  simp only [record, bind_eq_ok, pure_eq_ok, and_true]
  exact ⟨_, (canonicalJson_eq_ok h.distinctKeys).mpr ⟨h, rfl⟩⟩

theorem eq_obj_of_record {value : JsValue} {ms : List Member} {label : String}
    (h : record value label = .ok ms) : value = .obj ms := by
  cases value with
  | obj ns =>
    simp only [record, bind_eq_ok, pure_eq_ok] at h
    obtain ⟨_, -, rfl⟩ := h
    rfl
  | _ => cases h

theorem exactKeys_of_canonical {ms : List Member} (hms : Canonical (.obj ms))
    (expected : List String) (label : String) (hkeys : ms.map Prod.fst = expected.map js) :
    exactKeys ms expected label = .ok () := by
  rw [exactKeys, reject_eq_ok, hms.keys_sorted, not_not]
  exact hkeys

theorem iJson_of_boundedString {value : JsValue} {label : String} {maxBytes : ℕ}
    {text : JsString} (h : boundedString value label maxBytes = .ok text) : IJson (.str text) := by
  cases value with
  | str s =>
    simp only [boundedString, bind_eq_ok, reject_eq_ok, exists_unit, pure_eq_ok] at h
    obtain ⟨-, t, htext, rfl⟩ := h
    exact ((CanonicalJson.canonicalJson_eq_ok (.str _)).mp htext).1
  | _ => cases h

theorem iJson_of_timestamp {value : JsValue} {label : String} {n : ℕ}
    (h : timestamp value label = .ok n) : IJson (.num (.int n)) := by
  have h := timestamp_again h label
  rw [timestamp, orThrow_eq_ok] at h
  unfold timestampOf at h
  split at h
  · rename_i i hi
    rw [safeInteger] at hi
    split_ifs at hi with hsafe
    exact .num hsafe
  · cases h

theorem iJson_of_member {ms : List Member} (h : IJson (.obj ms)) {k : JsString} {v : JsValue}
    (hmem : (k, v) ∈ ms) : IJson v := by
  cases h with
  | obj _ _ hms => exact hms _ hmem

theorem mapEach_map_self {α β ε : Type} {f : β → Except ε α} {g : α → β} {xs : List α}
    (h : ∀ x ∈ xs, f (g x) = .ok x) : mapEach f (xs.map g) = .ok xs := by
  rw [mapEach_eq_ok, List.forall₂_map_left_iff, List.forall₂_same]
  exact h

theorem field_eq {ms : List Member} (hms : Canonical (.obj ms)) {key : String} {value : JsValue}
    (hmem : (js key, value) ∈ ms) : field ms key = value :=
  hms.getMember_of_mem (js key) value hmem

theorem validateSubject_again {value : JsValue} {s : PlanSubject}
    (h : validateSubject value = .ok s) (hdata : IJson s.toJson) :
    validateSubject s.toJson = .ok s := by
  simp only [validateSubject, bind_eq_ok, exists_unit, pure_eq_ok] at h
  obtain ⟨_, -, -, pilotId, hpilotId, hpilot, _, -, -, bounded, hbounded, slug, hslug, hlower, _, -,
    -, sha, hsha, hgit, id, hid, ownerId, hownerId, given, hgiven, branch, hbranch, rfl⟩ := h
  obtain rfl := validateRepositorySlug_again hslug
  obtain rfl := validateRepositoryBranch_again hbranch
  have hcanonical := PlanSubject.canonical_toJson
    { pilotId, repository := { slug, id, ownerId }, branch, sha }
  have hrepository := canonical_repository { slug, id, ownerId }
  have hbase : Canonical (.obj [(js "branch", .str branch), (js "sha", .str sha)]) :=
    canonical_obj (by simp only [List.map_cons, List.map_nil]; decide) (by simp)
  have hfieldBase := field_eq hcanonical (List.mem_cons_self)
  have hfieldPilot := field_eq hcanonical (.tail _ List.mem_cons_self)
  have hfieldRepository := field_eq hcanonical (.tail _ (.tail _ List.mem_cons_self))
  have hfieldId := field_eq hrepository List.mem_cons_self
  have hfieldOwner := field_eq hrepository (.tail _ List.mem_cons_self)
  have hfieldSlug := field_eq hrepository (.tail _ (.tail _ List.mem_cons_self))
  have hfieldBranch := field_eq hbase List.mem_cons_self
  have hfieldSha := field_eq hbase (.tail _ List.mem_cons_self)
  have hdataBase := iJson_of_member hdata List.mem_cons_self
  have hdataRepository := iJson_of_member hdata (.tail _ (.tail _ List.mem_cons_self))
  simp only [validateSubject, bind_eq_ok, exists_unit, pure_eq_ok]
  refine ⟨_, record_of_iJson hdata _, exactKeys_of_canonical hcanonical _ _ rfl, pilotId, ?_, hpilot,
    _, ?_, exactKeys_of_canonical hrepository _ _ rfl, slug, ?_, slug, hslug, hlower, _, ?_,
    exactKeys_of_canonical hbase _ _ rfl, sha, ?_, hgit, id, ?_, ownerId, ?_, branch, ?_, branch,
    hbranch, rfl⟩
  · rw [hfieldPilot]
    exact boundedString_again hpilotId
  · rw [hfieldRepository]
    exact record_of_iJson hdataRepository _
  · rw [hfieldSlug]
    exact boundedString_again hbounded
  · rw [hfieldBase]
    exact record_of_iJson hdataBase _
  · rw [hfieldSha]
    exact boundedString_again hsha
  · rw [hfieldId]
    exact positiveInteger_again hid
  · rw [hfieldOwner]
    exact positiveInteger_again hownerId
  · rw [hfieldBranch]
    exact boundedString_again hgiven

variable {P : Platform}

theorem validateInputs_again {value : JsValue} {i : PlanInputs}
    (h : validateInputs P value = .ok i) (hdata : IJson i.toJson) :
    validateInputs P i.toJson = .ok i := by
  simp only [validateInputs, bind_eq_ok, exists_unit, pure_eq_ok] at h
  obtain ⟨_, -, -, scope, hscope, expected, hexpected, hsame, archive, harchive, manifest,
    hmanifest, rfl⟩ := h
  have hcanonical := PlanInputs.canonical_toJson ⟨archive, manifest, scope⟩
  have hfieldScope := field_eq hcanonical List.mem_cons_self
  have hfieldManifest := field_eq hcanonical (.tail _ List.mem_cons_self)
  have hfieldArchive := field_eq hcanonical (.tail _ (.tail _ List.mem_cons_self))
  simp only [validateInputs, bind_eq_ok, exists_unit, pure_eq_ok]
  refine ⟨_, record_of_iJson hdata _, exactKeys_of_canonical hcanonical _ _ rfl, scope, ?_, expected,
    hexpected, hsame, archive, ?_, manifest, ?_, rfl⟩
  · rw [hfieldScope]
    exact digest_again hscope _
  · rw [hfieldArchive]
    exact digest_again harchive _
  · rw [hfieldManifest]
    exact digest_again hmanifest _

theorem validateAddress_again {value : JsValue} {literal : JsString}
    (h : validateAddress P value = .ok literal) :
    validateAddress P (.str literal) = .ok literal := by
  simp only [validateAddress, bind_eq_ok, exists_unit, pure_eq_ok] at h ⊢
  obtain ⟨_, hbounded, hliteral, rfl⟩ := h
  exact ⟨_, boundedString_again hbounded, hliteral, rfl⟩

/-- Sorted addresses stay as they are. -/
theorem validateDestination_again {createdAt expiresAt : ℕ} {value : JsValue}
    {d : RunnerEgressDestination} (h : validateDestination P createdAt expiresAt value = .ok d)
    (hdata : IJson d.toJson) : validateDestination P createdAt expiresAt d.toJson = .ok d := by
  simp only [validateDestination, bind_eq_ok, exists_unit, pure_eq_ok] at h
  obtain ⟨_, -, -, host, hhost, htarget, entries, hentries, literals, hliterals, hnodup, observed,
    hobserved, expires, hexpires, htimes, evidence, hevidence, rfl⟩ := h
  have hperm := List.perm_insertionSort (· ≤ ·) literals
  have hsorted : (literals.insertionSort (· ≤ ·)).insertionSort (· ≤ ·) =
      literals.insertionSort (· ≤ ·) :=
    (List.pairwise_insertionSort (· ≤ ·) literals).insertionSort_eq
  have hcanonical := RunnerEgressDestination.canonical_toJson
    ⟨host, literals.insertionSort (· ≤ ·), evidence, observed, expires⟩
  have hfieldAddresses := field_eq hcanonical List.mem_cons_self
  have hfieldHost := field_eq hcanonical (.tail _ List.mem_cons_self)
  have hfieldPort := field_eq hcanonical (.tail _ (.tail _ List.mem_cons_self))
  have hfieldProtocol := field_eq hcanonical (.tail _ (.tail _ (.tail _ List.mem_cons_self)))
  have hfieldEvidence := field_eq hcanonical
    (.tail _ (.tail _ (.tail _ (.tail _ List.mem_cons_self))))
  have hfieldExpires := field_eq hcanonical
    (.tail _ (.tail _ (.tail _ (.tail _ (.tail _ List.mem_cons_self)))))
  have hfieldObserved := field_eq hcanonical
    (.tail _ (.tail _ (.tail _ (.tail _ (.tail _ (.tail _ List.mem_cons_self))))))
  have hfieldTls := field_eq hcanonical
    (.tail _ (.tail _ (.tail _ (.tail _ (.tail _ (.tail _ (.tail _ List.mem_cons_self)))))))
  simp only [validateDestination, bind_eq_ok, exists_unit, pure_eq_ok]
  refine ⟨_, record_of_iJson hdata _, exactKeys_of_canonical hcanonical _ _ rfl, host, ?_, ?_,
    (literals.insertionSort (· ≤ ·)).map .str, ?_, literals.insertionSort (· ≤ ·), ?_,
    ?_, observed, ?_, expires, ?_, htimes, evidence, ?_, ?_⟩
  · rw [hfieldHost]
    exact boundedString_again hhost
  · rw [reject_eq_ok, not_or, not_or, not_or] at htarget ⊢
    rw [hfieldPort, hfieldProtocol, hfieldTls]
    exact ⟨htarget.1, htarget.2.1, htarget.2.2.1, by decide⟩
  · rw [hfieldAddresses]
    have hlength : literals.length = entries.length :=
      (mapEach_eq_ok.mp hliterals).length_eq.symm
    cases haddresses : field _ "addresses" with
    | arr xs =>
      rw [haddresses] at hentries
      simp only [addressEntries, bind_eq_ok, exists_unit, pure_eq_ok, reject_eq_ok] at hentries ⊢
      obtain ⟨hcount, rfl⟩ := hentries
      refine ⟨?_, trivial⟩
      rwa [List.length_map, List.length_insertionSort, hlength]
    | _ =>
      rw [haddresses] at hentries
      cases hentries
  · refine mapEach_map_self fun literal hliteral ↦ ?_
    obtain ⟨entry, -, hentry⟩ := exists_of_mapEach hliterals (hperm.mem_iff.mp hliteral)
    exact validateAddress_again hentry
  · rwa [hsorted]
  · rw [hfieldObserved]
    exact timestamp_again hobserved _
  · rw [hfieldExpires]
    exact timestamp_again hexpires _
  · rw [hfieldEvidence]
    exact digest_again hevidence _
  · rw [hsorted]

theorem normalizeAndValidateDestinations_again {createdAt expiresAt : ℕ} {value : JsValue}
    {ds : List RunnerEgressDestination}
    (h : normalizeAndValidateDestinations P value createdAt expiresAt = .ok ds)
    (hdata : ∀ d ∈ ds, IJson d.toJson) :
    normalizeAndValidateDestinations P (destinationsJson ds) createdAt expiresAt = .ok ds := by
  cases value with
  | arr entries =>
    simp only [normalizeAndValidateDestinations, destinationsJson, bind_eq_ok, exists_unit,
      pure_eq_ok] at h ⊢
    obtain ⟨hcount, _, hread, hhosts, rfl⟩ := h
    refine ⟨?_, _, mapEach_map_self fun d hd ↦ ?_, hhosts, rfl⟩
    · rw [reject_eq_ok] at hcount ⊢
      rwa [List.length_map, ← (mapEach_eq_ok.mp hread).length_eq]
    · obtain ⟨entry, -, hentry⟩ := exists_of_mapEach hread hd
      exact validateDestination_again hentry (hdata d hd)
  | _ => cases h

/-! ### Plans -/

/-- The inputs that a plan was made from. -/
def PublicationRunnerPlan.normalized (p : PublicationRunnerPlan) : NormalizedPlanInput where
  createdAt := p.createdAt
  expiresAt := p.expiresAt
  subject := p.subject
  inputs := p.inputs
  imageDigest := p.imageDigest
  destinations := p.destinations

/-- What the fields of a plan pass when they make that plan again. -/
structure PlanChecks (P : Platform) (p : PublicationRunnerPlan) : Prop where
  jobId : boundedString (.str p.jobId) "runner job id" 76 = .ok p.jobId
  isJobId : isJobId p.jobId = true
  nonceDigest : digest (.str p.nonceDigest) "runner nonce digest" = .ok p.nonceDigest
  createdAt : timestamp (.num (.int p.createdAt)) "plan creation time" = .ok p.createdAt
  expiresAt : timestamp (.num (.int p.expiresAt)) "plan expiry" = .ok p.expiresAt
  lifetime : assertPlanLifetime p.createdAt p.expiresAt = .ok ()
  subject : IJson p.subject.toJson → validateSubject p.subject.toJson = .ok p.subject
  inputs : IJson p.inputs.toJson → validateInputs P p.inputs.toJson = .ok p.inputs
  imageDigest : digest (.str p.imageDigest) "migration image digest" = .ok p.imageDigest
  destinations : (∀ d ∈ p.destinations, IJson d.toJson) →
    normalizeAndValidateDestinations P (destinationsJson p.destinations) p.createdAt p.expiresAt =
      .ok p.destinations
  derived : deriveJobId P p.nonceDigest p.normalized = .ok p.jobId
  built : buildPlan P p.jobId p.nonceDigest p.normalized = .ok p

theorem forall_of_destinationsJson {ds : List RunnerEgressDestination}
    (h : IJson (destinationsJson ds)) : ∀ d ∈ ds, IJson d.toJson := by
  cases h with
  | arr hxs => exact fun d hd ↦ hxs _ (List.mem_map_of_mem hd)

/-- A plan whose fields pass their checks is read back as itself. -/
theorem PlanChecks.validate {p : PublicationRunnerPlan} {r : PublicationRunnerPlanRecord}
    (hp : PlanChecks P p) (hrecord : recordForPlan P p = .ok r) :
    validatePublicationRunnerPlan P p.toJson = .ok r := by
  have hcanonical := p.canonical_toJson
  have hcanonicalJob := canonical_planJob p
  have hcanonicalEgress := canonical_planEgress p
  have hcanonicalInstall : Canonical (.obj [
      (js "applicationLayerEnforcement", .str (js "external_l7_gateway_required")),
      (js "destinations", destinationsJson p.destinations),
      (js "policyDigest", .str p.policyDigest)]) :=
    canonical_obj (by simp only [List.map_cons, List.map_nil]; decide) (by simp)
  have htext := hrecord
  simp only [recordForPlan, bind_eq_ok, pure_eq_ok] at htext
  obtain ⟨text, htext, -⟩ := htext
  have hdata := ((canonicalJson_of_canonical hcanonical).mp htext).1
  -- the members of the plan, of its job and of its egress policy
  have hdataEgress := iJson_of_member hdata List.mem_cons_self
  have hdataInputs := iJson_of_member hdata (.tail _ (.tail _ (.tail _ List.mem_cons_self)))
  have hdataJob := iJson_of_member hdata
    (.tail _ (.tail _ (.tail _ (.tail _ List.mem_cons_self))))
  have hdataSubject := iJson_of_member hdata
    (.tail _ (.tail _ (.tail _ (.tail _ (.tail _ (.tail _ (.tail _ List.mem_cons_self)))))))
  have hdataInstall := iJson_of_member hdataEgress
    (.tail _ (.tail _ (.tail _ List.mem_cons_self)))
  have hdataDestinations := iJson_of_member hdataInstall (.tail _ List.mem_cons_self)
  have hfieldEgress := field_eq hcanonical List.mem_cons_self
  have hfieldImage := field_eq hcanonical (.tail _ (.tail _ List.mem_cons_self))
  have hfieldInputs := field_eq hcanonical (.tail _ (.tail _ (.tail _ List.mem_cons_self)))
  have hfieldJob := field_eq hcanonical
    (.tail _ (.tail _ (.tail _ (.tail _ List.mem_cons_self))))
  have hfieldProfile := field_eq hcanonical
    (.tail _ (.tail _ (.tail _ (.tail _ (.tail _ List.mem_cons_self)))))
  have hfieldVersion := field_eq hcanonical
    (.tail _ (.tail _ (.tail _ (.tail _ (.tail _ (.tail _ List.mem_cons_self))))))
  have hfieldSubject := field_eq hcanonical
    (.tail _ (.tail _ (.tail _ (.tail _ (.tail _ (.tail _ (.tail _ List.mem_cons_self)))))))
  have hfieldCreated := field_eq hcanonicalJob List.mem_cons_self
  have hfieldDisposable := field_eq hcanonicalJob (.tail _ List.mem_cons_self)
  have hfieldExpires := field_eq hcanonicalJob (.tail _ (.tail _ List.mem_cons_self))
  have hfieldId := field_eq hcanonicalJob (.tail _ (.tail _ (.tail _ List.mem_cons_self)))
  have hfieldNonce := field_eq hcanonicalJob
    (.tail _ (.tail _ (.tail _ (.tail _ List.mem_cons_self))))
  have hfieldInstall := field_eq hcanonicalEgress
    (.tail _ (.tail _ (.tail _ List.mem_cons_self)))
  have hfieldDestinations := field_eq hcanonicalInstall (.tail _ List.mem_cons_self)
  simp only [validatePublicationRunnerPlan, bind_eq_ok, exists_unit]
  refine ⟨_, record_of_iJson hdata _, exactKeys_of_canonical hcanonical _ _ rfl, ?_, _,
    hfieldJob ▸ record_of_iJson hdataJob _, exactKeys_of_canonical hcanonicalJob _ _ rfl, p.jobId,
    ?_, ?_, p.nonceDigest, ?_, p.createdAt, ?_, p.expiresAt, ?_, hp.lifetime, p.subject, ?_,
    p.inputs, ?_, p.imageDigest, ?_, _, hfieldEgress ▸ record_of_iJson hdataEgress _,
    exactKeys_of_canonical hcanonicalEgress _ _ rfl, _,
    hfieldInstall ▸ record_of_iJson hdataInstall _,
    exactKeys_of_canonical hcanonicalInstall _ _ rfl, p.destinations, ?_, p.jobId, hp.derived, ?_,
    p, hp.built, text, htext, text, htext, ?_, hrecord⟩
  · rw [hfieldProfile, hfieldVersion, reject_eq_ok]
    decide
  · rw [hfieldId]
    exact hp.jobId
  · rw [hfieldDisposable, reject_eq_ok, hp.isJobId]
    decide
  · rw [hfieldNonce]
    exact hp.nonceDigest
  · rw [hfieldCreated]
    exact hp.createdAt
  · rw [hfieldExpires]
    exact hp.expiresAt
  · rw [hfieldSubject]
    exact hp.subject hdataSubject
  · rw [hfieldInputs]
    exact hp.inputs hdataInputs
  · rw [hfieldImage]
    exact hp.imageDigest
  · rw [hfieldDestinations]
    exact hp.destinations (forall_of_destinationsJson hdataDestinations)
  · rw [reject_eq_ok]
    exact not_not.mpr rfl
  · rw [reject_eq_ok]
    exact not_not.mpr rfl

/-- A value that is read as a plan has the fields of that plan, and its text. -/
theorem checks_of_validatePublicationRunnerPlan {value : JsValue} {r : PublicationRunnerPlanRecord}
    (h : validatePublicationRunnerPlan P value = .ok r) :
    PlanChecks P r.plan ∧ recordForPlan P r.plan = .ok r ∧
      canonicalJson value = .ok r.canonicalJson ∧
      ∃ ms job, value = .obj ms ∧ field ms "job" = .obj job ∧
        boundedString (field job "id") "runner job id" 76 = .ok r.plan.jobId := by
  simp only [validatePublicationRunnerPlan, bind_eq_ok, exists_unit] at h
  obtain ⟨root, hroot, -, -, job, hjob, -, jobId, hjobId, hidentity, nonceDigest, hnonce, createdAt,
    hcreated, expiresAt, hexpires, hlifetime, subject, hsubject, inputs, hinputs, image, himage, _,
    -, -, _, -, -, destinations, hdestinations, derived, hderived, hsame, expected, hexpected,
    given, hgiven, text, htext, heq, hrecord⟩ := h
  have hbuilt := hexpected
  have hmade := hrecord
  simp only [buildPlan, recordForPlan, bind_eq_ok, pure_eq_ok] at hexpected hrecord
  obtain ⟨policyDigest, -, rfl⟩ := hexpected
  obtain ⟨canonical, hcanonical, rfl⟩ := hrecord
  rw [reject_eq_ok, not_not] at hsame heq
  rw [reject_eq_ok, not_or, Bool.not_eq_false] at hidentity
  obtain rfl := hsame
  obtain rfl := Except.ok.inj (htext.symm.trans hcanonical)
  obtain rfl := heq
  refine ⟨?_, hmade, hgiven, root, job, eq_obj_of_record hroot, eq_obj_of_record hjob, hjobId⟩
  exact {
    jobId := boundedString_again hjobId
    isJobId := hidentity.1
    nonceDigest := digest_again hnonce _
    createdAt := timestamp_again hcreated _
    expiresAt := timestamp_again hexpires _
    lifetime := hlifetime
    subject := validateSubject_again hsubject
    inputs := validateInputs_again hinputs
    imageDigest := digest_again himage _
    destinations := normalizeAndValidateDestinations_again hdestinations
    derived := hderived
    built := hbuilt }

/-! ### Job ids -/

/-- What a job id is the digest of. -/
def jobIdJson (p : PublicationRunnerPlan) : JsValue :=
  .obj [(js "createdAt", .num (.int p.createdAt)), (js "expiresAt", .num (.int p.expiresAt)),
    (js "imageDigest", .str p.imageDigest), (js "inputs", p.inputs.toJson),
    (js "installEgressPolicy", canonicalInstallEgressPolicy p.destinations),
    (js "nonceDigest", .str p.nonceDigest), (js "subject", p.subject.toJson)]

def jobIdBytes (p : PublicationRunnerPlan) : Bytes := utf8Encode (compactText (jobIdJson p))

theorem canonical_jobIdJson (p : PublicationRunnerPlan) : Canonical (jobIdJson p) := by
  have hpolicy : Canonical (canonicalInstallEgressPolicy p.destinations) :=
    canonical_obj (by simp only [List.map_cons, List.map_nil]; decide) (by simp)
  exact canonical_obj (by simp only [List.map_cons, List.map_nil]; decide) (by simpa using hpolicy)

/-- Plans with one job id text are made from the same inputs. -/
theorem normalized_of_jobIdJson_eq {p p' : PublicationRunnerPlan}
    (h : jobIdJson p = jobIdJson p') :
    p.nonceDigest = p'.nonceDigest ∧ p.normalized = p'.normalized := by
  simp only [jobIdJson, canonicalInstallEgressPolicy, JsValue.obj.injEq, JsValue.str.injEq,
    JsValue.num.injEq, JsNumber.int.injEq, Nat.cast_inj, List.cons.injEq, Prod.mk.injEq, true_and,
    and_true] at h
  obtain ⟨hcreated, hexpires, himage, hinputs, hdestinations, hnonce, hsubject⟩ := h
  refine ⟨hnonce, ?_⟩
  simp only [PublicationRunnerPlan.normalized, hcreated, hexpires, himage,
    PlanInputs.toJson_injective hinputs, destinationsJson_injective hdestinations,
    PlanSubject.toJson_injective hsubject]

theorem deriveJobId_eq_ok {p : PublicationRunnerPlan} {jobId : JsString} :
    deriveJobId P p.nonceDigest p.normalized = .ok jobId ↔
      IJson (jobIdJson p) ∧ jobId = js "previewjob_" ++ P.hashes.sha256.hex (jobIdBytes p) := by
  simp only [deriveJobId, bind_eq_ok, pure_eq_ok]
  constructor
  · rintro ⟨text, htext, rfl⟩
    obtain ⟨hdata, rfl⟩ := (canonicalJson_of_canonical (canonical_jobIdJson p)).mp htext
    exact ⟨hdata, rfl⟩
  · rintro ⟨hdata, rfl⟩
    exact ⟨_, (canonicalJson_of_canonical (canonical_jobIdJson p)).mpr ⟨hdata, rfl⟩, rfl⟩

theorem isJobId_of_deriveJobId {p : PublicationRunnerPlan} {jobId : JsString}
    (h : deriveJobId P p.nonceDigest p.normalized = .ok jobId) : isJobId jobId = true := by
  obtain ⟨-, rfl⟩ := deriveJobId_eq_ok.mp h
  have hdrop : (js "previewjob_" ++ P.hashes.sha256.hex (jobIdBytes p)).drop 11 =
      P.hashes.sha256.hex (jobIdBytes p) :=
    List.drop_left' (show (js "previewjob_").length = 11 by decide)
  have hstarts : startsWith (js "previewjob_" ++ P.hashes.sha256.hex (jobIdBytes p))
      "previewjob_" = true :=
    List.isPrefixOf_iff_prefix.mpr (List.prefix_append _ _)
  rw [isJobId, hdrop, hstarts, Bool.true_and]
  exact P.hashes.sha256.isHexOfLength_hex _

theorem isSpace_of_isLowerHex {c : UInt16} (h : isLowerHex c = true) : isSpace c = false := by
  simp only [isLowerHex, isDigit, Bool.or_eq_true, decide_eq_true_eq] at h
  simp only [isSpace, decide_eq_false_iff_not, not_or, List.mem_cons, List.not_mem_nil, or_false]
  refine ⟨by omega, by omega, ?_⟩
  refine ⟨?_, ?_, ?_, ?_, ?_, ?_, ?_, ?_, ?_⟩ <;> rintro rfl <;> revert h <;> decide

theorem isSpace_of_mem_jobId {s : JsString} (h : isJobId s = true) :
    ∀ c ∈ s, isSpace c = false := by
  obtain ⟨hstart, hhex⟩ := Bool.and_eq_true_iff.mp h
  obtain ⟨rest, rfl⟩ := List.isPrefixOf_iff_prefix.mp hstart
  rw [List.drop_left' (show (js "previewjob_").length = 11 by decide)] at hhex
  simp only [isHexOfLength, Bool.and_eq_true, List.all_eq_true] at hhex
  refine List.forall_mem_append.mpr ⟨?_, fun c hc ↦ isSpace_of_isLowerHex (hhex.2 c hc)⟩
  exact forall_mem_of_all (by decide)

theorem boundedString_of_isJobId {s : JsString} (h : isJobId s = true) (label : String) :
    boundedString (.str s) label 76 = .ok s := by
  have hlength := byteLength_of_isJobId h
  have hne : s ≠ [] := by
    rintro rfl
    exact absurd hlength (by decide)
  have htext := (canonicalJson_of_canonical (canonical_str s)).mpr
    ⟨.str (isWellFormed_of_isJobId h), rfl⟩
  simp only [boundedString, bind_eq_ok, reject_eq_ok, exists_unit, pure_eq_ok, and_true]
  refine ⟨?_, _, htext⟩
  rw [trim_of_forall (isSpace_of_mem_jobId h), hlength]
  simp [hne]

/-- The plan that is made for a request passes the checks of the reader. -/
theorem checks_of_createPublicationRunnerPlan {input : CreatePublicationRunnerPlanInput}
    {nonce : Bytes} {r : PublicationRunnerPlanRecord}
    (h : createPublicationRunnerPlan P input nonce = .ok r) :
    PlanChecks P r.plan ∧ recordForPlan P r.plan = .ok r := by
  simp only [createPublicationRunnerPlan, normalizePublicationRunnerPlanInput, bind_eq_ok,
    exists_unit, pure_eq_ok] at h
  obtain ⟨_, ⟨createdAt, hcreated, expiresAt, hexpires, hlifetime, subject, hsubject, _, -, inputs,
    hinputs, image, himage, destinations, hdestinations, rfl⟩, jobId, hderived, plan, hbuilt,
    hrecord⟩ := h
  have hmade := hbuilt
  have hread := hrecord
  simp only [buildPlan, recordForPlan, bind_eq_ok, pure_eq_ok] at hbuilt hrecord
  obtain ⟨policyDigest, -, rfl⟩ := hbuilt
  obtain ⟨text, -, rfl⟩ := hrecord
  refine ⟨?_, hread⟩
  have hid : isJobId jobId = true := isJobId_of_deriveJobId (p := {
    jobId, nonceDigest := sha256 P.hashes nonce, createdAt, expiresAt, subject, inputs,
    imageDigest := image, destinations, policyDigest }) hderived
  exact {
    jobId := boundedString_of_isJobId hid _
    isJobId := hid
    nonceDigest := digest_of_isDigestText (isDigestText_sha256 _ _) _
    createdAt := timestamp_again hcreated _
    expiresAt := timestamp_again hexpires _
    lifetime := hlifetime
    subject := validateSubject_again hsubject
    inputs := validateInputs_again hinputs
    imageDigest := digest_again himage _
    destinations := normalizeAndValidateDestinations_again hdestinations
    derived := hderived
    built := hmade }

/-! ### The normal form -/

/-- The job id that a value states. -/
def statedJobId (value : JsValue) : JsValue :=
  match value with
  | .obj ms =>
    match field ms "job" with
    | .obj job => field job "id"
    | _ => .null
  | _ => .null

theorem statedJobId_of_validate {value : JsValue} {r : PublicationRunnerPlanRecord}
    (h : validatePublicationRunnerPlan P value = .ok r) :
    statedJobId value = .str r.plan.jobId := by
  obtain ⟨-, -, -, ms, job, rfl, hjob, hid⟩ := checks_of_validatePublicationRunnerPlan h
  simp only [statedJobId, hjob]
  cases hfield : field job "id" with
  | str s =>
    rw [hfield] at hid
    simp only [boundedString, bind_eq_ok, exists_unit, pure_eq_ok] at hid
    obtain ⟨-, _, -, hid⟩ := hid
    rw [hid]
  | _ =>
    rw [hfield] at hid
    cases hid

/-- Plans with one job id are the same, unless two different texts have one digest. -/
theorem record_eq_of_jobId {value other : JsValue} {r r' : PublicationRunnerPlanRecord}
    (h : validatePublicationRunnerPlan P value = .ok r)
    (h' : validatePublicationRunnerPlan P other = .ok r') (hid : r'.plan.jobId = r.plan.jobId)
    (hcollision : P.hashes.sha256.digest (jobIdBytes r'.plan) =
      P.hashes.sha256.digest (jobIdBytes r.plan) → jobIdBytes r'.plan = jobIdBytes r.plan) :
    r' = r := by
  obtain ⟨hchecks, hrecord, -⟩ := checks_of_validatePublicationRunnerPlan h
  obtain ⟨hchecks', hrecord', -⟩ := checks_of_validatePublicationRunnerPlan h'
  obtain ⟨hdata, hderived⟩ := deriveJobId_eq_ok.mp hchecks.derived
  obtain ⟨hdata', hderived'⟩ := deriveJobId_eq_ok.mp hchecks'.derived
  have hhex := List.append_cancel_left (hderived'.symm.trans (hid.trans hderived))
  have hbytes := hcollision (hexText_injective hhex)
  have htext := utf8Encode_injective (isWellFormed_compactText hdata')
    (isWellFormed_compactText hdata) hbytes
  obtain ⟨hnonce, hnormalized⟩ := normalized_of_jobIdJson_eq
    (compactText_injective hdata' hdata htext)
  have hbuilt' := hchecks'.built
  rw [hid, hnonce, hnormalized, hchecks.built] at hbuilt'
  have hplan := Except.ok.inj hbuilt'
  rw [← hplan, hrecord] at hrecord'
  exact (Except.ok.inj hrecord').symm

/-- **Runner plans have one normal form.** A created plan and a plan that was read are read back as
themselves, and any other value with the job id of a plan is refused. -/
theorem runner_plan_normal_form (P : Platform) :
    (∀ input nonce r, createPublicationRunnerPlan P input nonce = .ok r →
      validatePublicationRunnerPlan P r.plan.toJson = .ok r) ∧
    (∀ value r, validatePublicationRunnerPlan P value = .ok r →
      validatePublicationRunnerPlan P r.plan.toJson = .ok r) ∧
    ∀ value other r, DistinctKeys value → DistinctKeys other →
      validatePublicationRunnerPlan P value = .ok r → statedJobId other = statedJobId value →
      (∀ r', validatePublicationRunnerPlan P other = .ok r' →
        P.hashes.sha256.digest (jobIdBytes r'.plan) = P.hashes.sha256.digest (jobIdBytes r.plan) →
          jobIdBytes r'.plan = jobIdBytes r.plan) →
      ¬ Same value other → ∃ e, validatePublicationRunnerPlan P other = .error e := by
  refine ⟨fun input nonce r h ↦ ?_, fun value r h ↦ ?_, ?_⟩
  · obtain ⟨hchecks, hrecord⟩ := checks_of_createPublicationRunnerPlan h
    exact hchecks.validate hrecord
  · obtain ⟨hchecks, hrecord, -⟩ := checks_of_validatePublicationRunnerPlan h
    exact hchecks.validate hrecord
  · intro value other r hvalue hother h hid hcollision hdiffers
    cases h' : validatePublicationRunnerPlan P other with
    | error e => exact ⟨e, rfl⟩
    | ok r' =>
      refine absurd ?_ hdiffers
      rw [statedJobId_of_validate h, statedJobId_of_validate h'] at hid
      obtain rfl := record_eq_of_jobId h h' (JsValue.str.inj hid) (hcollision r' h')
      obtain ⟨-, -, htext, -⟩ := checks_of_validatePublicationRunnerPlan h
      obtain ⟨-, -, htext', -⟩ := checks_of_validatePublicationRunnerPlan h'
      obtain ⟨hdata, hsorted⟩ := (canonicalJson_eq_ok hvalue).mp htext
      obtain ⟨hdata', hsorted'⟩ := (canonicalJson_eq_ok hother).mp htext'
      exact (same_iff_sorted_eq hvalue hother).mpr
        (compactText_injective hdata.sorted hdata'.sorted (hsorted.symm.trans hsorted'))

end ApiMigrator.App.PublicationRunner
