import ApiMigrator.Ops.Lib

/-!
`deployment/dedicated-drill-handoff.mjs`: the events of a drill attempt. A handoff binds seventeen
attempts, one for each scenario, to fresh hosts. The observer of an attempt builds its events one
after the other, each with the digest of the one before it, and a report is accepted only with the
exact events of its scenario, chained from a root that belongs to the handoff and the attempt.
-/

set_option autoImplicit false
set_option relaxedAutoImplicit false

namespace ApiMigrator.Ops.DedicatedDrill

open Foundation.Text Foundation.Number Foundation.Json Foundation.Outcome Foundation.Pattern
open Foundation.Binary Lib

/-! ### Scenarios -/

/-- The names of `LIFECYCLE_SCENARIO_MATRIX`. -/
inductive Scenario
  | success
  | timeout
  | sigkill
  | oom
  | reboot
  | wrongSni
  | absentSni
  | plaintext
  | directBypass
  | non443
  | nonNpm
  | offlineNetwork
  | gatewayStop
  | uidIdle
  | policyRemoval
  | cgroupNamespaceCleanup
  | workspaceCleanup
  deriving DecidableEq

def Scenario.name : Scenario → String
  | .success => "success"
  | .timeout => "timeout"
  | .sigkill => "sigkill"
  | .oom => "oom"
  | .reboot => "reboot"
  | .wrongSni => "wrong_sni"
  | .absentSni => "absent_sni"
  | .plaintext => "plaintext"
  | .directBypass => "direct_bypass"
  | .non443 => "non_443"
  | .nonNpm => "non_npm"
  | .offlineNetwork => "offline_network"
  | .gatewayStop => "gateway_stop"
  | .uidIdle => "uid_idle"
  | .policyRemoval => "policy_removal"
  | .cgroupNamespaceCleanup => "cgroup_namespace_cleanup"
  | .workspaceCleanup => "workspace_cleanup"

/-- `DEDICATED_DRILL_SCENARIOS`, in the order of the matrix. -/
def dedicatedDrillScenarios : List Scenario :=
  [.success, .timeout, .sigkill, .oom, .reboot, .wrongSni, .absentSni, .plaintext, .directBypass,
    .non443, .nonNpm, .offlineNetwork, .gatewayStop, .uidIdle, .policyRemoval,
    .cgroupNamespaceCleanup, .workspaceCleanup]

theorem mem_dedicatedDrillScenarios (s : Scenario) : s ∈ dedicatedDrillScenarios := by
  cases s <;> decide

def isText (value : JsValue) (expected : JsString) : Bool :=
  match value with
  | .str s => decide (s = expected)
  | _ => false

theorem isText_eq_true {value : JsValue} {expected : JsString} :
    isText value expected = true ↔ value = .str expected := by
  cases value <;> simp [isText]

def scenarioDefinition (value : JsValue) : Except String Scenario :=
  orThrow (dedicatedDrillScenarios.find? fun s ↦ isText value (js s.name))
    "dedicated drill scenario is unsupported"

/-! ### Event orders -/

def basePrefixEvents : List String :=
  ["observer_started", "handoff_validated", "host_lease_verified", "initial_boot_observed",
    "runtime_manifest_verified", "nftables_policy_installed", "gateway_started", "gateway_ready",
    "scenario_started"]

def tableLastEvents : List String :=
  ["gateway_stopped", "offline_network_checked", "runner_uid_idle", "gateway_uid_idle",
    "cgroup_namespace_cleanup", "workspace_cleanup", "nftables_policy_removed", "host_destroyed",
    "scenario_finished", "observer_finished"]

def oomScenarioEvents : List String :=
  basePrefixEvents ++ ["oom_limits_verified", "oom_workload_started", "oom_observed"] ++
    tableLastEvents

def rebootScenarioEvents : List String :=
  basePrefixEvents ++
    ["reboot_requested", "host_unreachable", "host_reconnected", "post_reboot_boot_observed",
      "post_reboot_units_idle", "post_reboot_containment_absent", "cgroup_namespace_cleanup",
      "workspace_cleanup", "host_destroyed", "scenario_finished", "observer_finished"]

structure ScenarioProof where
  stimulusEvent : String
  observationEvent : String
  insertObservationAfter : Option String

def genericScenarioProofDefinition : Scenario → Except String ScenarioProof
  | .timeout => .ok ⟨"timeout_injected", "timeout_observed", none⟩
  | .sigkill => .ok ⟨"sigkill_injected", "sigkill_observed", none⟩
  | .gatewayStop =>
    .ok ⟨"gateway_stopped", "gateway_stop_observed", some "offline_network_checked"⟩
  | .uidIdle => .ok ⟨"runner_uid_idle", "uid_idle_observed", some "gateway_uid_idle"⟩
  | .policyRemoval =>
    .ok ⟨"nftables_policy_removed", "policy_removal_observed", some "nftables_policy_removed"⟩
  | .cgroupNamespaceCleanup =>
    .ok ⟨"cgroup_namespace_cleanup", "cgroup_namespace_cleanup_observed",
      some "cgroup_namespace_cleanup"⟩
  | .workspaceCleanup =>
    .ok ⟨"workspace_cleanup", "workspace_cleanup_observed", some "workspace_cleanup"⟩
  | .oom | .reboot => .error "OOM and reboot use dedicated fault-proof event definitions"
  | scenario => .ok ⟨s!"{scenario.name}_probe_started", s!"{scenario.name}_observed", none⟩

/-- The exact externally observed lifecycle of one scenario. -/
def dedicatedDrillEventOrder : Scenario → Except String (List String)
  | .oom => .ok oomScenarioEvents
  | .reboot => .ok rebootScenarioEvents
  | scenario => do
    let proof ← genericScenarioProofDefinition scenario
    match proof.insertObservationAfter with
    | some event =>
      return basePrefixEvents ++
        tableLastEvents.insertIdx (tableLastEvents.idxOf event + 1) proof.observationEvent
    | none =>
      return basePrefixEvents ++ [proof.stimulusEvent, proof.observationEvent] ++ tableLastEvents

/-! ### Handoffs -/

def maxTimestamp : ℤ := 8640000000000000

/-- `^[A-Za-z0-9][A-Za-z0-9._:@/+~-]{5,255}$` -/
def isInstanceId (s : JsString) : Bool :=
  match s with
  | c :: rest =>
    isAlphanumeric c && rest.all (isAlphanumericOr "._:@/+~-") &&
      decide (5 ≤ rest.length ∧ rest.length ≤ 255)
  | [] => false

/-- What the events of an attempt are bound to, as the validation of a handoff leaves it. -/
structure Attempt where
  scenario : Scenario
  deadlineAt : ℤ
  jobId : JsString
  /-- `bindings.planDigest` -/
  planDigest : JsString
  /-- `hostLease.instanceId` -/
  instanceId : JsString
  /-- `hostLease.initialBootId` -/
  initialBootId : JsString
  /-- `hostLease.providerLeaseReceiptDigest` -/
  providerLeaseReceiptDigest : JsString
  attemptDigest : JsString
  deadlineAt_le : deadlineAt ≤ maxTimestamp
  isJobId_jobId : isJobId jobId = true
  isDigest_plan : isDigestText planDigest = true
  isInstanceId_instanceId : isInstanceId instanceId = true
  isDigest_initialBoot : isDigestText initialBootId = true
  isDigest_leaseReceipt : isDigestText providerLeaseReceiptDigest = true
  isDigest_attempt : isDigestText attemptDigest = true

/-- A validated handoff record: the exact seventeen attempts, the canonical text of the handoff
and its digest. -/
structure Deployment (H : HashFunction 32) where
  issuedAt : ℤ
  attempts : List Attempt
  canonicalJson : JsString
  digest : JsString
  issuedAt_pos : 0 < issuedAt
  scenarios_eq : attempts.map (·.scenario) = dedicatedDrillScenarios
  isWellFormed_canonicalJson : isWellFormed canonicalJson = true
  digest_eq : digest = sha256 H (utf8Encode canonicalJson)

variable {H : HashFunction 32}

def attemptForScenario (handoff : Deployment H) (scenario : JsValue) : Except String Attempt := do
  let definition ← scenarioDefinition scenario
  orThrow (handoff.attempts.find? fun entry ↦ entry.scenario = definition)
    "dedicated drill handoff is missing the requested scenario"

/-! ### Reading fields -/

def record (value : JsValue) (label : String) : Except String (List Member) :=
  match value with
  | .obj ms => .ok ms
  | _ => .error s!"{label} must be a plain object"

def exactKeys (root : List Member) (names : List String) (label : String) : Except String Unit :=
  reject ((sortByKey root).map Prod.fst ≠ (names.map js).insertionSort (· ≤ ·))
    s!"{label} has unsupported or missing fields"

def field (root : List Member) (key : String) : JsValue := getMember root (js key)

def digest (value : JsValue) (label : String) : Except String JsString :=
  match value with
  | .str s => do
    reject (isDigestText s = false) s!"{label} is not a SHA-256 digest"
    return s
  | _ => .error s!"{label} is not a SHA-256 digest"

def timestamp (value : JsValue) (label : String) : Except String ℤ :=
  match value with
  | .num n => do
    let t ← orThrow (safeInteger n) s!"{label} is not a bounded positive timestamp"
    reject (t ≤ 0 ∨ maxTimestamp < t) s!"{label} is not a bounded positive timestamp"
    return t
  | _ => .error s!"{label} is not a bounded positive timestamp"

/-- `Number.isSafeInteger`, with the integer. -/
def asSafeInteger : JsValue → Option ℤ
  | .num n => safeInteger n
  | _ => none

def isNumber (value : JsValue) (expected : ℤ) : Bool := asSafeInteger value = some expected

theorem digest_eq_ok {value : JsValue} {label : String} {s : JsString} :
    digest value label = .ok s ↔ value = .str s ∧ isDigestText s = true := by
  cases value with
  | str t =>
    simp only [digest, bind_eq_ok, reject_eq_ok, pure_eq_ok, exists_unit, Bool.not_eq_false,
      JsValue.str.injEq]
    constructor
    · rintro ⟨ht, rfl⟩
      exact ⟨rfl, ht⟩
    · rintro ⟨rfl, ht⟩
      exact ⟨ht, rfl⟩
  | null | bool | num | arr | obj | exotic => simp [digest]

theorem record_eq_ok {value : JsValue} {label : String} {ms : List Member} :
    record value label = .ok ms ↔ value = .obj ms := by
  cases value <;> simp [record]

theorem timestamp_num {t : ℤ} {label : String} (hpos : 0 < t) (hmax : t ≤ maxTimestamp) :
    timestamp (.num (.int t)) label = .ok t := by
  have hsafe : safeInteger (.int t) = some t := by
    have hmax' : t ≤ maxSafeInteger := hmax.trans (by decide)
    have hmin : -maxSafeInteger ≤ t := le_trans (by decide) hpos.le
    simp [safeInteger, isSafe, hmin, hmax']
  simp only [timestamp, bind_eq_ok, orThrow_eq_ok, reject_eq_ok, pure_eq_ok, exists_unit, not_or,
    not_le, not_lt]
  exact ⟨t, hsafe, ⟨hpos, hmax⟩, rfl⟩

theorem timestamp_eq_ok {value : JsValue} {label : String} {t : ℤ}
    (h : timestamp value label = .ok t) : value = .num (.int t) ∧ 0 < t ∧ t ≤ maxTimestamp := by
  cases value with
  | num n =>
    simp only [timestamp, bind_eq_ok, orThrow_eq_ok, reject_eq_ok, pure_eq_ok, exists_unit,
      not_or, not_le, not_lt] at h
    obtain ⟨i, hi, ⟨hpos, hmax⟩, rfl⟩ := h
    refine ⟨?_, hpos, hmax⟩
    cases n with
    | int j =>
      simp only [safeInteger] at hi
      split_ifs at hi
      rw [Option.some.inj hi]
    | negZero =>
      cases hi
      exact absurd hpos (lt_irrefl 0)
    | fraction | infinite | nan => cases hi
  | null | bool | str | arr | obj | exotic => simp [timestamp] at h

end ApiMigrator.Ops.DedicatedDrill
