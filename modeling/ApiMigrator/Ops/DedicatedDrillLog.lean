import ApiMigrator.Ops.DedicatedDrillEvents

/-!
The events of a drill attempt are a complete log that cannot be altered unseen. Iterating the
builder over the order of a scenario gives a stream that the validation accepts; two accepted
streams of one attempt with one last digest are equal; and a stream accepted for one handoff and
scenario is accepted for no other.
-/

set_option autoImplicit false
set_option relaxedAutoImplicit false

namespace ApiMigrator.Ops.DedicatedDrill

open Foundation.Text Foundation.Number Foundation.Json Foundation.Outcome Foundation.Pattern
open Foundation.Binary Foundation.HashChain Lib

variable {H : HashFunction 32}

/-! ### Canonical texts -/

@[simp]
theorem canonical_eventBody (e : EventBody) : Canonical e.json := by
  refine canonical_obj ?_ (by simp)
  change (["attemptDigest", "bootId", "event", "evidenceDigest", "handoffDigest", "instanceId",
    "jobId", "observedAt", "planDigest", "previousEventDigest", "scenario",
    "sequence"].map js).Pairwise (· < ·)
  decide

theorem EventBody.json_injective {e e' : EventBody} (h : e.json = e'.json) : e = e' := by
  cases e
  cases e'
  simp only [EventBody.json, JsValue.obj.injEq, JsValue.str.injEq, JsValue.num.injEq,
    JsNumber.int.injEq, List.cons.injEq, Prod.mk.injEq, true_and, and_true] at h
  simp only [EventBody.mk.injEq]
  tauto

theorem eventDigestOf_eq_ok {e : EventBody} {s : JsString} :
    eventDigestOf H e = .ok s ↔ IJson e.json ∧ s = sha256 H e.bytes := by
  simp only [eventDigestOf, bind_eq_ok, pure_eq_ok]
  constructor
  · rintro ⟨t, ht, rfl⟩
    obtain ⟨hdata, rfl⟩ := eq_compactText_of_canonicalJson (canonical_eventBody e) ht
    exact ⟨hdata, rfl⟩
  · rintro ⟨hdata, rfl⟩
    exact ⟨_, canonicalJson_of_canonical hdata (canonical_eventBody e), rfl⟩

theorem EventBody.bytes_injective {e e' : EventBody} (he : IJson e.json) (he' : IJson e'.json)
    (h : e.bytes = e'.bytes) : e = e' :=
  json_injective (compactText_injective he he'
    (utf8Encode_injective (isWellFormed_compactText he) (isWellFormed_compactText he') h))

/-! ### One event -/

/-- What the observer of an attempt has to say about one event. -/
structure Observation where
  bootId : JsString
  observedAt : ℤ
  evidenceDigest : JsString

/-- Digests and a timestamp. -/
structure Observation.Legal (o : Observation) : Prop where
  bootId : isDigestText o.bootId = true
  evidence : isDigestText o.evidenceDigest = true
  positive : 0 < o.observedAt
  bounded : o.observedAt ≤ maxTimestamp

def boundBody (d : Deployment H) (a : Attempt) (index : ℕ) (name : String) (previous : JsString)
    (o : Observation) : EventBody where
  sequence := index + 1
  event := js name
  scenario := js a.scenario.name
  handoffDigest := d.digest
  attemptDigest := a.attemptDigest
  jobId := a.jobId
  planDigest := a.planDigest
  instanceId := a.instanceId
  bootId := o.bootId
  observedAt := o.observedAt
  evidenceDigest := o.evidenceDigest
  previousEventDigest := previous

/-- The one event that an observation makes at this place of the chain. -/
def boundEvent (d : Deployment H) (a : Attempt) (index : ℕ) (name : String) (previous : JsString)
    (o : Observation) : Event :=
  { boundBody d a index name previous o with
    eventDigest := sha256 H (boundBody d a index name previous o).bytes }

/-- The fields of the entry have the values of the event. -/
structure Reads (root : List Member) (e : Event) : Prop where
  sequence : isNumber (field root "sequence") e.sequence = true
  event : field root "event" = .str e.event
  scenario : field root "scenario" = .str e.scenario
  handoff : field root "handoffDigest" = .str e.handoffDigest
  attempt : field root "attemptDigest" = .str e.attemptDigest
  job : field root "jobId" = .str e.jobId
  plan : field root "planDigest" = .str e.planDigest
  instance_eq : field root "instanceId" = .str e.instanceId
  boot : field root "bootId" = .str e.bootId
  observedAt : field root "observedAt" = .num (.int e.observedAt)
  evidence : field root "evidenceDigest" = .str e.evidenceDigest
  previous : field root "previousEventDigest" = .str e.previousEventDigest
  digest : field root "eventDigest" = .str e.eventDigest

/-- An accepted entry is the event of some observation later than the one before. -/
theorem validateEvent_eq_ok {d : Deployment H} {a : Attempt} {index : ℕ} {name : String}
    {previous : JsString} {after : ℤ} {entry : JsValue} {e : Event} :
    validateEvent d a index name previous after entry = .ok e ↔
      ∃ (root : List Member) (o : Observation), entry = .obj root ∧
        (sortByKey root).map Prod.fst = (eventFields.map js).insertionSort (· ≤ ·) ∧
        o.Legal ∧ after < o.observedAt ∧ IJson (boundBody d a index name previous o).json ∧
        Reads root e ∧ e = boundEvent d a index name previous o := by
  simp only [validateEvent, bind_eq_ok, record_eq_ok, exactKeys, reject_eq_ok, pure_eq_ok,
    exists_unit, not_not, not_le, isText_eq_true, Bool.not_eq_false, eventDigestOf_eq_ok,
    digest_eq_ok]
  constructor
  · rintro ⟨root, rfl, hkeys, ⟨hsequence, hevent, hscenario, hhandoff, hattempt, hjob, hplan,
      hinstance, hprevious⟩, t, ht, hafter, boot, ⟨hboot, hbootDigest⟩, evidence,
      ⟨hevidence, hevidenceDigest⟩, _, ⟨hdata, rfl⟩, hdigest, rfl⟩
    obtain ⟨htime, hpos, hmax⟩ := timestamp_eq_ok ht
    exact ⟨root, ⟨boot, t, evidence⟩, rfl, hkeys, ⟨hbootDigest, hevidenceDigest, hpos, hmax⟩,
      hafter, hdata, ⟨hsequence, hevent, hscenario, hhandoff, hattempt, hjob, hplan, hinstance,
        hboot, htime, hevidence, hprevious, hdigest⟩, rfl⟩
  · rintro ⟨root, o, rfl, hkeys, hlegal, hafter, hdata, hreads, rfl⟩
    refine ⟨root, rfl, hkeys, ⟨hreads.sequence, hreads.event, hreads.scenario, hreads.handoff,
      hreads.attempt, hreads.job, hreads.plan, hreads.instance_eq, hreads.previous⟩,
      o.observedAt, ?_, hafter, o.bootId, ⟨hreads.boot, hlegal.bootId⟩, o.evidenceDigest,
      ⟨hreads.evidence, hlegal.evidence⟩, _, ⟨hdata, rfl⟩, hreads.digest, rfl⟩
    rw [hreads.observedAt]
    exact timestamp_num hlegal.positive hlegal.bounded

theorem reads_members (e : Event) (hsafe : isSafe e.sequence = true) :
    ∃ root, e.json = .obj root ∧ Reads root e ∧
      (sortByKey root).map Prod.fst = (eventFields.map js).insertionSort (· ≤ ·) := by
  refine ⟨_, rfl, ⟨?_, rfl, rfl, rfl, rfl, rfl, rfl, rfl, rfl, rfl, rfl, rfl, rfl⟩, ?_⟩
  · change decide (safeInteger (.int e.sequence) = some e.sequence) = true
    simp [safeInteger, hsafe]
  · rw [sortByKey_eq_self_of_keys]
    · simp only [List.map_cons, List.map_nil]
      decide
    · simp only [List.map_cons, List.map_nil]
      decide

/-! ### Data -/

theorem isWellFormed_of_isInstanceId {s : JsString} (h : isInstanceId s = true) :
    isWellFormed s = true := by
  cases s with
  | nil => rfl
  | cons c rest =>
    simp only [isInstanceId, Bool.and_eq_true, List.all_eq_true] at h
    refine isWellFormed_of_ascii fun d hd ↦ ?_
    rcases List.mem_cons.mp hd with rfl | hd
    · exact toNat_lt_of_isAlphanumeric h.1.1
    · exact toNat_lt_of_isAlphanumericOr (by decide) (h.1.2 d hd)

theorem Deployment.isDigest_digest (d : Deployment H) : isDigestText d.digest = true :=
  d.digest_eq ▸ isDigestText_sha256 H _

/-- The text of a bound event can be written. -/
theorem iJson_boundBody (d : Deployment H) (a : Attempt) {index : ℕ} (name : String)
    {previous : JsString} {o : Observation} (hindex : index < 2 ^ 32)
    (hprevious : isDigestText previous = true) (ho : o.Legal) :
    IJson (boundBody d a index name previous o).json := by
  have hsequence : isSafe (index + 1) = true := by
    refine decide_eq_true ?_
    unfold maxSafeInteger
    omega
  have htime : isSafe o.observedAt = true := by
    have hbounded := ho.bounded
    have hpositive := ho.positive
    unfold maxTimestamp at hbounded
    refine decide_eq_true ?_
    unfold maxSafeInteger
    omega
  have hdigest : ∀ {s : JsString}, isDigestText s = true → IJson (.str s) :=
    fun h ↦ .str (isWellFormed_of_isDigestText h)
  refine .obj ?_ (fun m hm ↦ ?_) fun m hm ↦ ?_
  · simp only [boundBody, List.map_cons, List.map_nil]
    decide
  · simp only [List.mem_cons, List.not_mem_nil, or_false] at hm
    rcases hm with rfl | rfl | rfl | rfl | rfl | rfl | rfl | rfl | rfl | rfl | rfl | rfl <;>
      exact isWellFormed_js _
  · simp only [List.mem_cons, List.not_mem_nil, or_false] at hm
    rcases hm with rfl | rfl | rfl | rfl | rfl | rfl | rfl | rfl | rfl | rfl | rfl | rfl
    · exact hdigest a.isDigest_attempt
    · exact hdigest ho.bootId
    · exact .str (isWellFormed_js name)
    · exact hdigest ho.evidence
    · exact hdigest d.isDigest_digest
    · exact .str (isWellFormed_of_isInstanceId a.isInstanceId_instanceId)
    · exact .str (isWellFormed_of_isJobId a.isJobId_jobId)
    · exact .num htime
    · exact hdigest a.isDigest_plan
    · exact hdigest hprevious
    · exact .str (isWellFormed_js _)
    · exact .num hsequence

theorem canonical_chainRoot (d : Deployment H) (a : Attempt) : Canonical (chainRootJson d a) := by
  refine canonical_obj ?_ (by simp)
  change (["attemptDigest", "domain", "handoffDigest", "root"].map js).Pairwise (· < ·)
  decide

/-- There is a chain root, and it is a digest. -/
theorem exists_chainRoot (d : Deployment H) (a : Attempt) :
    ∃ root, eventChainRootFor d a = .ok root ∧ isDigestText root = true := by
  have hdata : IJson (chainRootJson d a) := by
    refine .obj ?_ (fun m hm ↦ ?_) fun m hm ↦ ?_
    · simp only [List.map_cons, List.map_nil]
      decide
    · simp only [List.mem_cons, List.not_mem_nil, or_false] at hm
      rcases hm with rfl | rfl | rfl | rfl <;> exact isWellFormed_js _
    · simp only [List.mem_cons, List.not_mem_nil, or_false] at hm
      rcases hm with rfl | rfl | rfl | rfl
      · exact .str (isWellFormed_of_isDigestText a.isDigest_attempt)
      · exact .str (isWellFormed_js _)
      · exact .str (isWellFormed_of_isDigestText d.isDigest_digest)
      · exact .str (isWellFormed_of_isDigestText (isDigestText_sha256 H _))
  refine ⟨_, ?_, isDigestText_sha256 H (utf8Encode (compactText (chainRootJson d a)))⟩
  simp only [eventChainRootFor, bind_eq_ok, pure_eq_ok]
  exact ⟨_, canonicalJson_of_canonical hdata (canonical_chainRoot d a), rfl⟩

/-! ### Orders -/

/-- Every scenario has its order: at most thirty events, all different. -/
theorem exists_eventOrder (s : Scenario) : ∃ order, dedicatedDrillEventOrder s = .ok order ∧
    order ≠ [] ∧ order.length < 30 ∧ (order.map js).Nodup ∧
      "host_lease_verified" ∈ order := by
  cases s <;> exact ⟨_, rfl, by decide, by decide, by decide, by decide⟩

theorem scenarioDefinition_name (s : Scenario) :
    scenarioDefinition (.str (js s.name)) = .ok s := by
  cases s <;> rfl

/-- A handoff has exactly one attempt for a scenario. -/
theorem exists_attempt (d : Deployment H) (s : Scenario) :
    ∃ a, attemptForScenario d (.str (js s.name)) = .ok a ∧ a.scenario = s := by
  have hmem : s ∈ d.attempts.map (·.scenario) := d.scenarios_eq ▸ mem_dedicatedDrillScenarios s
  obtain ⟨b, hb, hbs⟩ := List.mem_map.mp hmem
  simp only [attemptForScenario, scenarioDefinition_name, ok_bind, orThrow_eq_ok]
  have hsome : (d.attempts.find? fun entry ↦ decide (entry.scenario = s)).isSome = true :=
    List.find?_isSome.mpr ⟨b, hb, by simpa using hbs⟩
  obtain ⟨a, ha⟩ := Option.isSome_iff_exists.mp hsome
  exact ⟨a, ha, by simpa using List.find?_some ha⟩

theorem eq_of_scenarioDefinition {value : JsValue} {s : Scenario}
    (h : scenarioDefinition value = .ok s) : value = .str (js s.name) := by
  rw [scenarioDefinition, orThrow_eq_ok] at h
  have htext : isText value (js s.name) = true := by simpa using List.find?_eq_some_iff_append.mp h |>.1
  exact isText_eq_true.mp htext

theorem scenario_of_attemptForScenario {d : Deployment H} {value : JsValue} {a : Attempt}
    (h : attemptForScenario d value = .ok a) : value = .str (js a.scenario.name) := by
  simp only [attemptForScenario, bind_eq_ok, orThrow_eq_ok] at h
  obtain ⟨s, hs, ha⟩ := h
  have hscenario : a.scenario = s := by simpa using List.find?_some ha
  exact hscenario ▸ eq_of_scenarioDefinition hs

/-! ### Streams -/

/-- The events that observations make, one after the other. -/
def boundEvents (d : Deployment H) (a : Attempt) :
    ℕ → JsString → List String → List Observation → List Event
  | index, previous, name :: order, o :: os =>
    boundEvent d a index name previous o ::
      boundEvents d a (index + 1) (boundEvent d a index name previous o).eventDigest order os
  | _, _, _, _ => []

/-- An accepted stream is what some observations make, in the order of time. -/
theorem validateEach_eq_ok {d : Deployment H} {a : Attempt} {index : ℕ} {previous : JsString}
    {after : ℤ} {order : List String} {entries : List JsValue} {es : List Event}
    (hlength : entries.length = order.length)
    (h : validateEach d a index previous after order entries = .ok es) :
    Linked (·.previousEventDigest) (·.eventDigest) previous es ∧ es.length = order.length ∧
      (∀ e ∈ es, IJson e.toEventBody.json ∧ e.eventDigest = sha256 H e.toEventBody.bytes) ∧
      List.Forall₂ (fun entry e ↦ ∃ root, entry = .obj root ∧ Reads root e) entries es ∧
      ∀ e ∈ es, e.handoffDigest = d.digest ∧ e.scenario = js a.scenario.name := by
  induction order generalizing index previous after entries es with
  | nil =>
    obtain rfl := List.length_eq_zero_iff.mp hlength
    simp only [validateEach, Except.ok.injEq] at h
    subst h
    simp [Linked]
  | cons name order ih =>
    cases entries with
    | nil => simp at hlength
    | cons entry entries =>
      simp only [validateEach, bind_eq_ok, pure_eq_ok] at h
      obtain ⟨e, he, rest, hrest, rfl⟩ := h
      obtain ⟨root, o, hentry, -, -, -, hdata, hreads, rfl⟩ := validateEvent_eq_ok.mp he
      obtain ⟨hlinked, hcount, hdigests, hentries, hbound⟩ := ih (by simpa using hlength) hrest
      refine ⟨⟨rfl, hlinked⟩, by rw [List.length_cons, hcount, List.length_cons], ?_,
        .cons ⟨root, hentry, hreads⟩ hentries, ?_⟩
      · exact List.forall_mem_cons.mpr ⟨⟨hdata, rfl⟩, hdigests⟩
      · exact List.forall_mem_cons.mpr ⟨⟨rfl, rfl⟩, hbound⟩

/-- The stream that legal observations make is accepted. -/
theorem validateEach_boundEvents (d : Deployment H) (a : Attempt) (index : ℕ)
    (order : List String) {previous : JsString} {after : ℤ} {os : List Observation}
    (hindex : index + order.length < 2 ^ 32) (hprevious : isDigestText previous = true)
    (hlegal : ∀ o ∈ os, o.Legal) (hlater : ∀ o ∈ os, after < o.observedAt)
    (hincreasing : os.Pairwise (·.observedAt < ·.observedAt)) :
    validateEach d a index previous after order
        ((boundEvents d a index previous order os).map Event.json) =
      .ok (boundEvents d a index previous order os) := by
  induction order generalizing index previous after os with
  | nil => rfl
  | cons name order ih =>
    cases os with
    | nil => rfl
    | cons o os =>
      rw [List.forall_mem_cons] at hlegal hlater
      rw [List.pairwise_cons] at hincreasing
      rw [List.length_cons] at hindex
      have hsafe : isSafe (index + 1) = true := by
        refine decide_eq_true ?_
        unfold maxSafeInteger
        omega
      obtain ⟨root, hjson, hreads, hkeys⟩ :=
        reads_members (boundEvent d a index name previous o) hsafe
      have hfirst : validateEvent d a index name previous after
          (boundEvent d a index name previous o).json =
            .ok (boundEvent d a index name previous o) :=
        validateEvent_eq_ok.mpr ⟨root, o, hjson, hkeys, hlegal.1, hlater.1,
          iJson_boundBody d a name (by omega) hprevious hlegal.1, hreads, rfl⟩
      have hrest := @ih (index + 1) (boundEvent d a index name previous o).eventDigest _ _
        (by omega) (isDigestText_sha256 H _) hlegal.2 hincreasing.1 hincreasing.2
      simp only [boundEvents, List.map_cons, validateEach, bind_eq_ok, pure_eq_ok]
      exact ⟨_, hfirst, _, hrest, rfl⟩

/-- What an event repeats of its observation. -/
theorem map_boundEvents {β : Type} (f : Event → β) (g : String × Observation → β)
    (hfg : ∀ (d : Deployment H) a index name previous o,
      f (boundEvent d a index name previous o) = g (name, o))
    (d : Deployment H) (a : Attempt) (index : ℕ) (previous : JsString) (order : List String)
    (os : List Observation) :
    (boundEvents d a index previous order os).map f = (order.zip os).map g := by
  induction order generalizing index previous os with
  | nil => rfl
  | cons name order ih =>
    cases os with
    | nil => rfl
    | cons o os => simp only [boundEvents, List.map_cons, List.zip_cons_cons, hfg, ih]

/-! ### Building a stream -/

/-- The input of the builder for one event. -/
def eventInput (s : Scenario) (sequence : ℤ) (event : String) (o : Observation)
    (previous : JsString) : JsValue :=
  .obj [
    (js "bootId", .str o.bootId),
    (js "event", .str (js event)),
    (js "evidenceDigest", .str o.evidenceDigest),
    (js "observedAt", .num (.int o.observedAt)),
    (js "previousEventDigest", .str previous),
    (js "scenario", .str (js s.name)),
    (js "sequence", .num (.int sequence))]

/-- The builder, called for one event after the other with the digest of the event before. -/
def buildEach (d : Deployment H) (s : Scenario) :
    ℤ → JsString → List String → List Observation → Except String (List Event)
  | sequence, previous, name :: order, o :: os => do
    let event ← buildDedicatedDrillEvent (eventInput s sequence name o previous) d
    let events ← buildEach d s (sequence + 1) event.eventDigest order os
    return event :: events
  | _, _, _, _ => .ok []

/-- The builder iterated over the order of the scenario, from the chain root. -/
def buildDrillEvents (d : Deployment H) (s : Scenario) (os : List Observation) :
    Except String (List Event) := do
  let order ← dedicatedDrillEventOrder s
  let root ← dedicatedDrillEventChainRoot d (.str (js s.name))
  buildEach d s 1 root order os

theorem buildDedicatedDrillEvent_eq {d : Deployment H} {a : Attempt}
    (ha : attemptForScenario d (.str (js a.scenario.name)) = .ok a) {order : List String}
    (horder : dedicatedDrillEventOrder a.scenario = .ok order) (hshort : order.length < 30)
    {index : ℕ} {name : String} (hname : order[index]? = some name) {previous : JsString}
    (hprevious : isDigestText previous = true) {o : Observation} (ho : o.Legal) :
    buildDedicatedDrillEvent (eventInput a.scenario (index + 1) name o previous) d =
      .ok (boundEvent d a index name previous o) := by
  have hindex : index < order.length := (List.getElem?_eq_some_iff.mp hname).1
  have hsafe : safeInteger (.int ((index : ℤ) + 1)) = some ((index : ℤ) + 1) := by
    have hsafe : isSafe ((index : ℤ) + 1) = true := by
      refine decide_eq_true ?_
      unfold maxSafeInteger
      omega
    simp [safeInteger, hsafe]
  have hbody : eventDigestOf H (boundBody d a index name previous o) =
      .ok (sha256 H (boundBody d a index name previous o).bytes) :=
    eventDigestOf_eq_ok.mpr ⟨iJson_boundBody d a name (by omega) hprevious ho, rfl⟩
  have hplace : order[((index : ℤ) + 1 - 1).toNat]? = some name := by
    rw [show ((index : ℤ) + 1 - 1).toNat = index by omega]
    exact hname
  simp only [buildDedicatedDrillEvent, eventInput, bind_eq_ok, record_eq_ok, exactKeys,
    reject_eq_ok, orThrow_eq_ok, pure_eq_ok, exists_unit, not_not, Bool.not_eq_false,
    isText_eq_true, digest_eq_ok]
  refine ⟨_, rfl, ?_, a, ha, order, horder, (index : ℤ) + 1, hsafe, by omega, name, hplace, rfl,
    o.bootId, ⟨rfl, ho.bootId⟩, o.observedAt, timestamp_num ho.positive ho.bounded,
    o.evidenceDigest, ⟨rfl, ho.evidence⟩, previous, ⟨rfl, hprevious⟩, _, hbody, rfl⟩
  rw [sortByKey_eq_self_of_keys]
  · simp only [List.map_cons, List.map_nil]
    decide
  · simp only [List.map_cons, List.map_nil]
    decide

/-- What the builder makes of the rest of the order. -/
theorem buildEach_eq {d : Deployment H} {a : Attempt}
    (ha : attemptForScenario d (.str (js a.scenario.name)) = .ok a) {full : List String}
    (hfull : dedicatedDrillEventOrder a.scenario = .ok full) (hshort : full.length < 30)
    {before order : List String} (hsplit : full = before ++ order) {previous : JsString}
    (hprevious : isDigestText previous = true) {os : List Observation}
    (hlegal : ∀ o ∈ os, o.Legal) :
    buildEach d a.scenario (before.length + 1) previous order os =
      .ok (boundEvents d a before.length previous order os) := by
  induction order generalizing before previous os with
  | nil => rfl
  | cons name order ih =>
    cases os with
    | nil => rfl
    | cons o os =>
      rw [List.forall_mem_cons] at hlegal
      have hname : full[before.length]? = some name := by simp [hsplit]
      have hfirst := buildDedicatedDrillEvent_eq ha hfull hshort hname hprevious hlegal.1
      have hsplit' : full = (before ++ [name]) ++ order := by simp [hsplit]
      have hrest := ih hsplit'
        (isDigestText_sha256 H (boundBody d a before.length name previous o).bytes) hlegal.2
      rw [List.length_append, List.length_singleton, Nat.cast_add, Nat.cast_one] at hrest
      simp only [buildEach, boundEvents, bind_eq_ok, pure_eq_ok]
      exact ⟨_, hfirst, _, hrest, rfl⟩

theorem buildDrillEvents_eq {d : Deployment H} {a : Attempt}
    (ha : attemptForScenario d (.str (js a.scenario.name)) = .ok a) {order : List String}
    (horder : dedicatedDrillEventOrder a.scenario = .ok order) {root : JsString}
    (hroot : eventChainRootFor d a = .ok root) {os : List Observation}
    (hlegal : ∀ o ∈ os, o.Legal) :
    buildDrillEvents d a.scenario os = .ok (boundEvents d a 0 root order os) := by
  obtain ⟨order', horder', -, hshort, -⟩ := exists_eventOrder a.scenario
  rw [Except.ok.inj (horder'.symm.trans horder)] at hshort
  obtain ⟨root', hroot', hdigest⟩ := exists_chainRoot d a
  rw [Except.ok.inj (hroot'.symm.trans hroot)] at hdigest
  simp only [buildDrillEvents, dedicatedDrillEventChainRoot, bind_eq_ok]
  exact ⟨order, horder, root, ⟨a, ha, hroot⟩,
    buildEach_eq ha horder hshort (List.nil_append order).symm hdigest hlegal⟩

/-! ### Documented observations -/

/-- One boot all along, or, where the drill reboots the host, one other boot from the reconnect
on. -/
def BootTimeline (a : Attempt) (order : List String) (os : List Observation) : Prop :=
  if a.scenario = .reboot then
    (∀ o ∈ os.take (order.idxOf "host_reconnected"), o.bootId = a.initialBootId) ∧
      ∃ next ≠ a.initialBootId,
        ∀ o ∈ os.drop (order.idxOf "host_reconnected"), o.bootId = next
  else ∀ o ∈ os, o.bootId = a.initialBootId

/-- Observations of the events of an order that meet the documented bindings. -/
structure Documented (d : Deployment H) (a : Attempt) (order : List String)
    (os : List Observation) : Prop where
  length_eq : os.length = order.length
  digests : ∀ o ∈ os, isDigestText o.bootId = true ∧ isDigestText o.evidenceDigest = true
  increasing : os.Pairwise (·.observedAt < ·.observedAt)
  inWindow : ∀ o ∈ os, d.issuedAt ≤ o.observedAt ∧ o.observedAt < a.deadlineAt
  distinct : (os.map (·.evidenceDigest)).Nodup
  boots : BootTimeline a order os
  lease : ∀ p ∈ order.zip os, p.1 = "host_lease_verified" →
    p.2.evidenceDigest = a.providerLeaseReceiptDigest

theorem Documented.legal {d : Deployment H} {a : Attempt} {order : List String}
    {os : List Observation} (h : Documented d a order os) : ∀ o ∈ os, o.Legal := by
  intro o ho
  obtain ⟨hboot, hevidence⟩ := h.digests o ho
  obtain ⟨hstart, hend⟩ := h.inWindow o ho
  exact ⟨hboot, hevidence, d.issuedAt_pos.trans_le hstart, hend.le.trans a.deadlineAt_le⟩

section Stream

variable (d : Deployment H) (a : Attempt) (index : ℕ) (previous : JsString) {order : List String}
  {os : List Observation}

/-- What holds of the boots of the observations holds of the boots of the events. -/
private theorem forall_mem_of_map_eq {es : List Event} {qs : List Observation} {boot : JsString}
    (hmap : es.map (·.bootId) = qs.map (·.bootId)) (hqs : ∀ o ∈ qs, o.bootId = boot) :
    ∀ e ∈ es, e.bootId = boot := by
  intro e he
  have hmem : e.bootId ∈ qs.map (·.bootId) := hmap ▸ List.mem_map_of_mem he
  obtain ⟨o, ho, hboot⟩ := List.mem_map.mp hmem
  rw [← hboot, hqs o ho]

private theorem map_snd_zip (hlength : os.length = order.length) {β : Type} (f : Observation → β) :
    (order.zip os).map (fun p ↦ f p.2) = os.map f := by
  have hzip := congrArg (List.map f) (List.map_snd_zip hlength.le : (order.zip os).map _ = os)
  rwa [List.map_map] at hzip

theorem map_bootId_boundEvents (hlength : os.length = order.length) :
    (boundEvents d a index previous order os).map (·.bootId) = os.map (·.bootId) := by
  rw [map_boundEvents (·.bootId) (fun p ↦ p.2.bootId) (fun _ _ _ _ _ _ ↦ rfl),
    map_snd_zip hlength]

theorem map_observedAt_boundEvents (hlength : os.length = order.length) :
    (boundEvents d a index previous order os).map (·.observedAt) = os.map (·.observedAt) := by
  rw [map_boundEvents (·.observedAt) (fun p ↦ p.2.observedAt) (fun _ _ _ _ _ _ ↦ rfl),
    map_snd_zip hlength]

theorem map_evidence_boundEvents (hlength : os.length = order.length) :
    (boundEvents d a index previous order os).map (·.evidenceDigest) =
      os.map (·.evidenceDigest) := by
  rw [map_boundEvents (·.evidenceDigest) (fun p ↦ p.2.evidenceDigest) (fun _ _ _ _ _ _ ↦ rfl),
    map_snd_zip hlength]

theorem map_event_boundEvents (hlength : os.length = order.length) :
    (boundEvents d a index previous order os).map (·.event) = order.map js := by
  have hzip := congrArg (List.map js) (List.map_fst_zip hlength.ge : (order.zip os).map _ = order)
  rw [List.map_map] at hzip
  exact (map_boundEvents (·.event) (fun p ↦ js p.1) (fun _ _ _ _ _ _ ↦ rfl) ..).trans hzip

/-- The boots of the events are judged as the boots of the observations. -/
theorem validateBootTimeline_boundEvents (horder : dedicatedDrillEventOrder a.scenario = .ok order)
    (hlength : os.length = order.length) (hboots : BootTimeline a order os) :
    validateBootTimeline (boundEvents d a index previous order os) a = .ok () := by
  have hmap := map_bootId_boundEvents d a index previous hlength
  generalize hevents : boundEvents d a index previous order os = events at hmap ⊢
  unfold validateBootTimeline
  by_cases hreboot : a.scenario = .reboot
  · rw [BootTimeline, if_pos hreboot] at hboots
    rw [if_neg (not_not.mpr hreboot)]
    obtain rfl : rebootScenarioEvents = order := by
      rw [hreboot] at horder
      exact Except.ok.inj horder
    have hindex : events.findIdx (fun e ↦ decide (e.event = js "host_reconnected")) =
        rebootScenarioEvents.idxOf "host_reconnected" := by
      have hnames := map_event_boundEvents d a index previous hlength
      rw [hevents] at hnames
      have hfind := congrArg (List.findIdx fun s ↦ decide (s = js "host_reconnected")) hnames
      rw [List.findIdx_map] at hfind
      exact hfind.trans (by decide)
    obtain ⟨hbefore, next, hnext, hafter⟩ := hboots
    have hbefore' : ∀ e ∈ events.take (rebootScenarioEvents.idxOf "host_reconnected"),
        e.bootId = a.initialBootId := by
      refine forall_mem_of_map_eq ?_ hbefore
      rw [List.map_take, hmap, List.map_take]
    have hafter' : ∀ e ∈ events.drop (rebootScenarioEvents.idxOf "host_reconnected"),
        e.bootId = next := by
      refine forall_mem_of_map_eq ?_ hafter
      rw [List.map_drop, hmap, List.map_drop]
    have hcount : events.length = rebootScenarioEvents.length := by
      rw [← hlength, ← List.length_map (f := fun o : Observation ↦ o.bootId), ← hmap,
        List.length_map]
    have hsome : (events.drop (rebootScenarioEvents.idxOf "host_reconnected")).head? ≠ none := by
      rw [ne_eq, List.head?_eq_none_iff, List.drop_eq_nil_iff, hcount, not_le]
      decide
    obtain ⟨e, he⟩ := Option.ne_none_iff_exists'.mp hsome
    have heq : e.bootId = next := hafter' e (List.mem_of_head? he)
    simp only [hindex, bind_eq_ok, reject_eq_ok, orThrow_eq_ok, exists_unit]
    refine ⟨?_, e, he, ?_⟩
    · simpa using hbefore'
    · rw [heq, not_or]
      exact ⟨hnext, by simpa using hafter'⟩
  · rw [BootTimeline, if_neg hreboot] at hboots
    rw [if_pos hreboot, reject_eq_ok]
    have hall : ∀ e ∈ events, e.bootId = a.initialBootId := forall_mem_of_map_eq hmap hboots
    simpa using hall

/-- The lease event carries the evidence of its observation. -/
theorem byName_boundEvents (hlength : os.length = order.length) (hnodup : (order.map js).Nodup)
    {name : String} (hname : name ∈ order) {evidence : JsString}
    (hevidence : ∀ p ∈ order.zip os, p.1 = name → p.2.evidenceDigest = evidence) :
    ∃ e, byName (boundEvents d a index previous order os) name = some e ∧
      e.evidenceDigest = evidence := by
  have hnames := map_event_boundEvents d a index previous hlength
  have hboth := map_boundEvents (fun e ↦ (e.event, e.evidenceDigest))
    (fun p ↦ (js p.1, p.2.evidenceDigest)) (fun _ _ _ _ _ _ ↦ rfl) d a index previous order os
  generalize boundEvents d a index previous order os = events at hnames hboth ⊢
  have hmem : js name ∈ events.map (·.event) := hnames ▸ List.mem_map_of_mem hname
  obtain ⟨found, hfound, heq⟩ := List.mem_map.mp hmem
  have hsome : (events.reverse.find? fun e ↦ decide (e.event = js name)).isSome = true :=
    List.find?_isSome.mpr ⟨found, List.mem_reverse.mpr hfound, by simpa using heq⟩
  obtain ⟨e, he⟩ := Option.isSome_iff_exists.mp hsome
  have hevent : e.event = js name := by simpa using List.find?_some he
  have hpair : (e.event, e.evidenceDigest) ∈ (order.zip os).map fun p ↦
      (js p.1, p.2.evidenceDigest) :=
    hboth ▸ List.mem_map_of_mem (List.mem_reverse.mp (List.mem_of_find?_eq_some he))
  obtain ⟨p, hp, hpe⟩ := List.mem_map.mp hpair
  obtain ⟨hpname, hpevidence⟩ := Prod.mk.inj hpe
  have hsame : p.1 = name :=
    List.inj_on_of_nodup_map hnodup (List.of_mem_zip hp).1 hname (hpname.trans hevent)
  exact ⟨e, he, hpevidence.symm.trans (hevidence p hp hsame)⟩

end Stream

/-- **Completeness.** The events built from documented observations are accepted. -/
theorem validateEvents_buildDrillEvents {d : Deployment H} {s : Scenario} {a : Attempt}
    (ha : attemptForScenario d (.str (js s.name)) = .ok a) {order : List String}
    (horder : dedicatedDrillEventOrder s = .ok order) {os : List Observation}
    (hos : Documented d a order os) :
    ∃ events startedAt finishedAt, buildDrillEvents d s os = .ok events ∧
      os.head?.map (·.observedAt) = some startedAt ∧
      os.getLast?.map (·.observedAt) = some finishedAt ∧
      validateEvents (.arr (events.map Event.json)) d a startedAt finishedAt = .ok events := by
  obtain ⟨b, hb, hscenario⟩ := exists_attempt d s
  rw [Except.ok.inj (hb.symm.trans ha)] at hscenario
  subst hscenario
  obtain ⟨order', horder', hne, hshort, hnodup, hlease⟩ := exists_eventOrder a.scenario
  rw [Except.ok.inj (horder'.symm.trans horder)] at hne hshort hnodup hlease
  obtain ⟨root, hroot, hdigest⟩ := exists_chainRoot d a
  have hbuild := buildDrillEvents_eq ha horder hroot hos.legal
  have hnonempty : os ≠ [] := by
    rintro rfl
    exact hne (List.length_eq_zero_iff.mp hos.length_eq.symm)
  obtain ⟨first, hfirst⟩ := Option.ne_none_iff_exists'.mp (mt List.head?_eq_none_iff.mp hnonempty)
  obtain ⟨last, hlast⟩ :=
    Option.ne_none_iff_exists'.mp (mt List.getLast?_eq_none_iff.mp hnonempty)
  have htimes := map_observedAt_boundEvents d a 0 root hos.length_eq
  have hevidence := map_evidence_boundEvents d a 0 root hos.length_eq
  have hcount : (boundEvents d a 0 root order os).length = order.length := by
    rw [← hos.length_eq, ← List.length_map (f := fun o : Observation ↦ o.observedAt), ← htimes,
      List.length_map]
  have heach := validateEach_boundEvents d a 0 order (by omega) hdigest hos.legal
    (fun o ho ↦ (hos.legal o ho).positive) hos.increasing
  obtain ⟨e, he, hreceipt⟩ := byName_boundEvents d a 0 root hos.length_eq hnodup hlease
    hos.lease
  refine ⟨_, first.observedAt, last.observedAt, hbuild, by rw [hfirst]; rfl,
    by rw [hlast]; rfl, ?_⟩
  simp only [validateEvents, bind_eq_ok, orThrow_eq_ok, reject_eq_ok, pure_eq_ok, exists_unit,
    not_not, not_or]
  refine ⟨order, horder, _, rfl, by rw [List.length_map, hcount], root, hroot, _, heach,
    ⟨?_, ?_⟩, validateBootTimeline_boundEvents d a 0 root horder hos.length_eq hos.boots, ?_, e, he,
    hreceipt, rfl⟩
  · rw [← List.head?_map, htimes, List.head?_map, hfirst]
    rfl
  · rw [← List.getLast?_map, htimes, List.getLast?_map, hlast]
    rfl
  · rw [hevidence]
    exact hos.distinct

/-! ### Accepted streams -/

/-- What an accepted stream is. -/
theorem validateEvents_eq_ok {d : Deployment H} {a : Attempt} {value : JsValue}
    {startedAt finishedAt : ℤ} {es : List Event}
    (h : validateEvents value d a startedAt finishedAt = .ok es) :
    ∃ order root entries, dedicatedDrillEventOrder a.scenario = .ok order ∧
      value = .arr entries ∧ eventChainRootFor d a = .ok root ∧
      entries.length = order.length ∧ validateEach d a 0 root 0 order entries = .ok es := by
  simp only [validateEvents, bind_eq_ok, orThrow_eq_ok, reject_eq_ok, pure_eq_ok, exists_unit,
    not_not] at h
  obtain ⟨order, horder, entries, hentries, hlength, root, hroot, es', heach, -, -, -, -, -, -,
    rfl⟩ := h
  refine ⟨order, root, entries, horder, ?_, hroot, hlength, heach⟩
  cases value with
  | arr xs => rw [Option.some.inj hentries]
  | null | bool | num | str | obj | exotic => cases hentries

/-- The hash tells the texts of these events apart. -/
def CollisionFree (H : HashFunction 32) (es : List Event) : Prop :=
  ∀ e ∈ es, ∀ e' ∈ es, H.digest e.toEventBody.bytes = H.digest e'.toEventBody.bytes →
    e.toEventBody.bytes = e'.toEventBody.bytes

/-- **Tamper evidence.** Accepted streams of one attempt with one last digest are equal. -/
theorem eq_of_last_digest {d : Deployment H} {a : Attempt} {value value' : JsValue}
    {startedAt finishedAt startedAt' finishedAt' : ℤ} {es es' : List Event}
    (hes : validateEvents value d a startedAt finishedAt = .ok es)
    (hes' : validateEvents value' d a startedAt' finishedAt' = .ok es')
    (hcollision : CollisionFree H (es ++ es'))
    (hlast : es.getLast?.map (·.eventDigest) = es'.getLast?.map (·.eventDigest)) : es = es' := by
  obtain ⟨order, root, entries, horder, -, hroot, hlength, heach⟩ := validateEvents_eq_ok hes
  obtain ⟨_, _, entries', horder', -, hroot', hlength', heach'⟩ := validateEvents_eq_ok hes'
  obtain rfl := Except.ok.inj (horder.symm.trans horder')
  obtain rfl := Except.ok.inj (hroot.symm.trans hroot')
  obtain ⟨hlinked, hcount, hdigests, -, -⟩ := validateEach_eq_ok hlength heach
  obtain ⟨hlinked', hcount', hdigests', -, -⟩ := validateEach_eq_ok hlength' heach'
  refine eq_of_tip_eq _ _ hlinked hlinked' (hcount.trans hcount'.symm) ?_ ?_
  · intro e he e' he' hdigest
    obtain ⟨hdata, hhash⟩ := hdigests e he
    obtain ⟨hdata', hhash'⟩ := hdigests' e' he'
    have hbytes := hcollision e (List.mem_append_left _ he) e' (List.mem_append_right _ he')
      (sha256_injOn (hhash.symm.trans (hdigest.trans hhash')))
    have hbody := EventBody.bytes_injective hdata hdata' hbytes
    cases e
    cases e'
    cases hbody
    cases hdigest
    rfl
  · cases hes : es.getLast? with
    | none =>
      rw [hes] at hlast
      rw [List.getLast?_eq_none_iff.mp hes,
        List.getLast?_eq_none_iff.mp (Option.map_eq_none_iff.mp hlast.symm)]
    | some e =>
      rw [hes] at hlast
      obtain ⟨e', he', hdigest⟩ := Option.map_eq_some_iff.mp hlast.symm
      rw [tip_eq_of_getLast? _ _ hes, tip_eq_of_getLast? _ _ he']
      exact hdigest.symm

/-- **Binding.** A stream is accepted for one handoff and one scenario only. -/
theorem eq_of_accepted_twice {d d' : Deployment H} {a a' : Attempt} {value : JsValue}
    {startedAt finishedAt startedAt' finishedAt' : ℤ} {es es' : List Event}
    (hes : validateEvents value d a startedAt finishedAt = .ok es)
    (hes' : validateEvents value d' a' startedAt' finishedAt' = .ok es') :
    d.digest = d'.digest ∧ js a.scenario.name = js a'.scenario.name := by
  obtain ⟨order, root, entries, horder, hvalue, -, hlength, heach⟩ := validateEvents_eq_ok hes
  obtain ⟨_, _, entries', horder', hvalue', -, hlength', heach'⟩ := validateEvents_eq_ok hes'
  obtain rfl := JsValue.arr.inj (hvalue.symm.trans hvalue')
  obtain ⟨-, -, -, hreads, hbound⟩ := validateEach_eq_ok hlength heach
  obtain ⟨-, -, -, hreads', hbound'⟩ := validateEach_eq_ok hlength' heach'
  obtain ⟨_, horder'', hne, -⟩ := exists_eventOrder a.scenario
  obtain rfl := Except.ok.inj (horder''.symm.trans horder)
  cases entries with
  | nil => exact absurd (List.length_eq_zero_iff.mp hlength.symm) hne
  | cons entry entries =>
    obtain ⟨e, rest, ⟨ms, hms, hread⟩, -, rfl⟩ := List.forall₂_cons_left_iff.mp hreads
    obtain ⟨e', rest', ⟨ms', hms', hread'⟩, -, rfl⟩ := List.forall₂_cons_left_iff.mp hreads'
    obtain rfl := JsValue.obj.inj (hms.symm.trans hms')
    obtain ⟨hhandoff, hscenario⟩ := hbound e List.mem_cons_self
    obtain ⟨hhandoff', hscenario'⟩ := hbound' e' List.mem_cons_self
    have hdigest := JsValue.str.inj (hread.handoff.symm.trans hread'.handoff)
    have hname := JsValue.str.inj (hread.scenario.symm.trans hread'.scenario)
    exact ⟨hhandoff.symm.trans (hdigest.trans hhandoff'),
      hscenario.symm.trans (hname.trans hscenario')⟩

/-- **Drill attempts have a complete, tamper-evident log.** For a handoff and a scenario: the
events built from documented observations are accepted; accepted streams with one last digest are
one stream; and what is accepted here is accepted for no other scenario and no other handoff. -/
theorem drill_log_complete_and_tamper_evident (d : Deployment H) (s : Scenario) :
    ∃ a order, attemptForScenario d (.str (js s.name)) = .ok a ∧
      dedicatedDrillEventOrder s = .ok order ∧
      (∀ os, Documented d a order os → ∃ events startedAt finishedAt,
        buildDrillEvents d s os = .ok events ∧
        os.head?.map (·.observedAt) = some startedAt ∧
        os.getLast?.map (·.observedAt) = some finishedAt ∧
        validateEvents (.arr (events.map Event.json)) d a startedAt finishedAt = .ok events) ∧
      (∀ value value' startedAt finishedAt startedAt' finishedAt' es es',
        validateEvents value d a startedAt finishedAt = .ok es →
        validateEvents value' d a startedAt' finishedAt' = .ok es' →
        CollisionFree H (es ++ es') →
        es.getLast?.map (·.eventDigest) = es'.getLast?.map (·.eventDigest) → es = es') ∧
      ∀ (d' : Deployment H) s' a' value startedAt finishedAt startedAt' finishedAt' es es',
        attemptForScenario d' (.str (js s'.name)) = .ok a' →
        validateEvents value d a startedAt finishedAt = .ok es →
        validateEvents value d' a' startedAt' finishedAt' = .ok es' →
        (H.digest (utf8Encode d.canonicalJson) = H.digest (utf8Encode d'.canonicalJson) →
          utf8Encode d.canonicalJson = utf8Encode d'.canonicalJson) →
        s = s' ∧ d.canonicalJson = d'.canonicalJson := by
  obtain ⟨a, ha, hscenario⟩ := exists_attempt d s
  obtain ⟨order, horder, -⟩ := exists_eventOrder s
  refine ⟨a, order, ha, horder, fun os hos ↦ validateEvents_buildDrillEvents ha horder hos,
    fun _ _ _ _ _ _ _ _ hes hes' hcollision hlast ↦ eq_of_last_digest hes hes' hcollision hlast,
    ?_⟩
  intro d' s' a' value _ _ _ _ es es' ha' hes hes' hcollision
  obtain ⟨hdigest, hname⟩ := eq_of_accepted_twice hes hes'
  constructor
  · have hname' : js s.name = js s'.name := by
      rw [← hscenario, hname]
      exact (JsValue.str.inj (scenario_of_attemptForScenario ha')).symm
    have hsame := scenarioDefinition_name s
    rw [hname', scenarioDefinition_name s'] at hsame
    exact (Except.ok.inj hsame).symm
  · rw [d.digest_eq, d'.digest_eq] at hdigest
    exact utf8Encode_injective d.isWellFormed_canonicalJson d'.isWellFormed_canonicalJson
      (hcollision (sha256_injOn hdigest))

/-! ### A drill -/

def sampleDigest (n : ℕ) : JsString :=
  js "sha256:" ++ hexText (List.replicate 31 0 ++ [UInt8.ofNat n])

def sampleAttempt (s : Scenario) : Attempt where
  scenario := s
  deadlineAt := 2000
  jobId := js "previewjob_" ++ hexText (List.replicate 32 7)
  planDigest := sampleDigest 100
  instanceId := js "i-0a1b2c3d"
  initialBootId := sampleDigest 101
  providerLeaseReceiptDigest := sampleDigest 2
  attemptDigest := sampleDigest 102
  deadlineAt_le := by decide
  isJobId_jobId := by decide
  isDigest_plan := by decide
  isInstanceId_instanceId := by decide
  isDigest_initialBoot := by decide
  isDigest_leaseReceipt := by decide
  isDigest_attempt := by decide

def sampleDeployment : Deployment HashFunction.polynomial where
  issuedAt := 1000
  attempts := dedicatedDrillScenarios.map sampleAttempt
  canonicalJson := js "handoff"
  digest := sha256 HashFunction.polynomial (utf8Encode (js "handoff"))
  issuedAt_pos := by decide
  scenarios_eq := rfl
  isWellFormed_canonicalJson := isWellFormed_js _
  digest_eq := rfl

def sampleObservations : List Observation :=
  (List.range 21).map fun (i : ℕ) ↦ ⟨sampleDigest 101, 1000 + (i : ℤ), sampleDigest i⟩

theorem eq_sampleAttempt {s : Scenario} {a : Attempt}
    (h : attemptForScenario sampleDeployment (.str (js s.name)) = .ok a) : a = sampleAttempt s := by
  simp only [attemptForScenario, scenarioDefinition_name, ok_bind, orThrow_eq_ok] at h
  have hscenario : a.scenario = s := by simpa using List.find?_some h
  obtain ⟨s', -, rfl⟩ := List.mem_map.mp (List.mem_of_find?_eq_some h)
  exact congrArg sampleAttempt hscenario

theorem documented_sample {order : List String}
    (horder : dedicatedDrillEventOrder .success = .ok order) :
    Documented sampleDeployment (sampleAttempt .success) order sampleObservations := by
  obtain rfl : _ = order := Except.ok.inj horder
  refine {
    length_eq := by decide +kernel
    digests := by decide +kernel
    increasing := by decide +kernel
    inWindow := by decide +kernel
    distinct := by decide +kernel
    boots := ?_
    lease := by decide +kernel }
  rw [BootTimeline, if_neg (by decide)]
  decide +kernel

set_option maxRecDepth 100000 in
private theorem nodup_sampleDigests : ∀ order root,
    dedicatedDrillEventOrder .success = .ok order →
    eventChainRootFor sampleDeployment (sampleAttempt .success) = .ok root →
    ((boundEvents sampleDeployment (sampleAttempt .success) 0 root order sampleObservations).map
      fun e ↦ HashFunction.polynomial.digest e.toEventBody.bytes).Nodup := by
  have hevaluated : ((do
      let order ← dedicatedDrillEventOrder .success
      let root ← eventChainRootFor sampleDeployment (sampleAttempt .success)
      reject (¬ ((boundEvents sampleDeployment (sampleAttempt .success) 0 root order
        sampleObservations).map fun e ↦ HashFunction.polynomial.digest e.toEventBody.bytes).Nodup) "") :
          Except String Unit) = .ok () := by
    decide +kernel
  intro order root horder hroot
  rw [horder, hroot, ok_bind, ok_bind, reject_eq_ok, not_not] at hevaluated
  exact hevaluated

theorem collisionFree_of_nodup {es : List Event}
    (hes : (es.map fun e ↦ H.digest e.toEventBody.bytes).Nodup) : CollisionFree H (es ++ es) := by
  intro e he e' he' h
  rw [List.mem_append, or_self] at he he'
  rw [List.inj_on_of_nodup_map hes he he' h]

/-- The log of the success scenario: it is built, accepted, and only itself. -/
theorem drill_log_complete_and_tamper_evident_success :
    ∃ events startedAt finishedAt,
      buildDrillEvents sampleDeployment .success sampleObservations = .ok events ∧
      validateEvents (.arr (events.map Event.json)) sampleDeployment (sampleAttempt .success)
        startedAt finishedAt = .ok events ∧
      CollisionFree HashFunction.polynomial (events ++ events) ∧ events = events ∧
      Scenario.success = .success ∧
      sampleDeployment.canonicalJson = sampleDeployment.canonicalJson := by
  obtain ⟨a, order, ha, horder, hcomplete, htamper, hbinding⟩ :=
    drill_log_complete_and_tamper_evident sampleDeployment .success
  obtain rfl := eq_sampleAttempt ha
  obtain ⟨events, startedAt, finishedAt, hbuild, -, -, haccepted⟩ :=
    hcomplete sampleObservations (documented_sample horder)
  obtain ⟨root, hroot, -⟩ := exists_chainRoot sampleDeployment (sampleAttempt .success)
  have hlegal := (documented_sample horder).legal
  have hevents : buildDrillEvents sampleDeployment .success sampleObservations =
      .ok (boundEvents sampleDeployment (sampleAttempt .success) 0 root order sampleObservations) :=
    buildDrillEvents_eq (a := sampleAttempt .success) ha horder hroot hlegal
  rw [hbuild] at hevents
  have hfree : CollisionFree HashFunction.polynomial (events ++ events) := by
    rw [Except.ok.inj hevents]
    exact collisionFree_of_nodup (nodup_sampleDigests order root horder hroot)
  have hsame := htamper _ _ _ _ _ _ _ _ haccepted haccepted hfree rfl
  have hbound := hbinding sampleDeployment .success _ _ _ _ _ _ _ _ ha haccepted haccepted
    fun _ ↦ rfl
  exact ⟨events, startedAt, finishedAt, hbuild, haccepted, hfree, hsame, hbound⟩

end ApiMigrator.Ops.DedicatedDrill
