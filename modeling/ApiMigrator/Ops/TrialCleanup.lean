import ApiMigrator.Ops.Lib
import ApiMigrator.Foundation.CanonicalForm

/-!
`gcp-trial/plan.mjs` and `gcp-trial/cleanup.mjs`: the plan of a trial run, the record of the
resources it created, and the decision over one complete inventory which of them may be deleted.
-/

set_option autoImplicit false
set_option relaxedAutoImplicit false

namespace ApiMigrator.Ops.TrialCleanup

open Foundation.Text Foundation.Number Foundation.Json Foundation.Outcome Foundation.Pattern
open Foundation.Binary Lib

/-! ### Values -/

/-- A property of a value. Where the source would throw, on `null` or `undefined`, it is
`undefined`, which every reader here refuses as well. -/
def field (value : JsValue) (key : String) : JsValue :=
  match value with
  | .obj members => getMember members (js key)
  | _ => .exotic .undefined

def object (value : JsValue) : Bool := value matches .obj _

def isUndefined (value : JsValue) : Bool := value matches .exotic .undefined

def text (value : JsValue) : Option JsString :=
  match value with
  | .str s => some s
  | _ => none

def elements (value : JsValue) : Option (List JsValue) :=
  match value with
  | .arr xs => some xs
  | _ => none

/-- `Object.hasOwn` -/
def hasOwn (value : JsValue) (key : String) : Bool :=
  match value with
  | .obj members => decide (js key ∈ members.map Prod.fst)
  | _ => false

/-- An instant of the calendar in milliseconds. -/
def isTime (i : ℤ) : Bool := decide (0 ≤ i ∧ i ≤ 8640000000000000)

def time (value : JsValue) : Option ℤ :=
  match value with
  | .num n => (safeInteger n).filter isTime
  | _ => none

/-- `^[1-9][0-9]{0,19}$`, at most `2 ^ 64 - 1` -/
def idText (value : JsValue) : Option JsString :=
  (text value).filter fun s ↦ s.head?.any (fun c ↦ isDigit c && decide (c ≠ 0x30)) &&
    s.all isDigit && decide (s.length ≤ 20 ∧ digitsValue s ≤ 18446744073709551615)

def isPlain (value : JsValue) (expected : String) : Bool := decide (text value = some (js expected))

def isTrue (value : JsValue) : Bool := value matches .bool true

def parse (json : JsValue) (max : ℕ) : Except String JsValue := do
  let json ← orThrow (text json) "invalid JSON size"
  reject (max < byteLength json) "invalid JSON size"
  let value ← orThrow (jsonParse json) "invalid JSON object"
  reject (object value = false) "invalid JSON object"
  let _ ← relabel (canonicalJson value) "invalid JSON object"
  return value

def fields (value : JsValue) (keys : List String) : Except String Unit :=
  match value with
  | .obj members =>
    reject (members.length ≠ keys.length ∨ keys.any (fun key ↦ !hasOwn value key) = true)
      "invalid fields"
  | _ => throw "invalid fields"

def project : JsString := js "project-32bf49a2-bd30-4956-850"

def zone : JsString := js "us-central1-a"

def base : JsString :=
  js "https://www.googleapis.com/compute/v1/projects/" ++ project ++ js "/zones/" ++ zone

inductive Kind
  | instances
  | disks
  deriving DecidableEq

def Kind.name : Kind → String
  | instances => "instances"
  | disks => "disks"

def Kind.url (kind : Kind) : JsString := base ++ js "/" ++ js kind.name

def jsonDigest (H : HashFunction 32) (value : JsValue) : Except String JsString := do
  return sha256 H (utf8Encode (← canonicalJson value))

/-! ### Plans -/

/-- The civil year, month and day of a number of days since 1970-01-01. -/
def civilDate (days : ℕ) : ℕ × ℕ × ℕ :=
  let z := days + 719468
  let dayOfEra := z % 146097
  let yearOfEra := (dayOfEra - dayOfEra / 1460 + dayOfEra / 36524 - dayOfEra / 146096) / 365
  let dayOfYear := dayOfEra - (365 * yearOfEra + yearOfEra / 4 - yearOfEra / 100)
  let shifted := (5 * dayOfYear + 2) / 153
  let month := if shifted < 10 then shifted + 3 else shifted - 9
  let year := yearOfEra + z / 146097 * 400 + if month ≤ 2 then 1 else 0
  (year, month, dayOfYear - (153 * shifted + 2) / 5 + 1)

private def padded (width n : ℕ) : JsString :=
  let digits := decimalDigits n
  List.replicate (width - digits.length) 0x30 ++ digits

/-- `new Date(ms).toISOString()` -/
def toISOString (ms : ℤ) : JsString :=
  let n := ms.toNat
  let (year, month, day) := civilDate (n / 86400000)
  let clock := n % 86400000
  let yearText := if year ≤ 9999 then padded 4 year else js "+" ++ padded 6 year
  yearText ++ js "-" ++ padded 2 month ++ js "-" ++ padded 2 day ++ js "T" ++
    padded 2 (clock / 3600000) ++ js ":" ++ padded 2 (clock / 60000 % 60) ++ js ":" ++
    padded 2 (clock / 1000 % 60) ++ js "." ++ padded 3 (clock % 1000) ++ js "Z"

private def isNameUnit (c : UInt16) : Bool := isLowerLetter c || isDigit c || decide (c = 0x2d)

private def isNameEnd (c : UInt16) : Bool := isLowerLetter c || isDigit c

/-- `^api-migrator-trial-[a-z0-9](?:[a-z0-9-]{0,42}[a-z0-9])?$` -/
def isNetwork (s : JsString) : Bool :=
  let name := s.drop 19
  startsWith s "api-migrator-trial-" && decide (name.length ≤ 44) && name.all isNameUnit &&
    name.head?.any isNameEnd && name.getLast?.any isNameEnd

/-- `^debian-12-bookworm-v[0-9]{8}$` -/
def isBootImage (s : JsString) : Bool :=
  startsWith s "debian-12-bookworm-v" && decide ((s.drop 20).length = 8) && (s.drop 20).all isDigit

/-- The input of `renderTrialPlan`, as a caller gives it. -/
structure TrialRequest where
  projectId : JsValue
  runId : JsValue
  sourceRevision : JsValue
  sourceArchiveSha256 : JsValue
  bootImage : JsValue
  network : JsValue
  subnetwork : JsValue
  egress : JsValue
  startupScriptSha256 : JsValue
  deleteAt : JsValue

structure TrialPlan where
  runId : JsString
  instanceName : JsString
  issuedAt : ℤ
  deleteAt : ℤ
  planDigest : JsString
  /-- The whole plan as it is written. -/
  value : JsValue

private def record (members : List (String × JsValue)) : JsValue :=
  .obj (members.map fun m ↦ (js m.1, m.2))

private def texts (xs : List JsString) : JsValue := .arr (xs.map .str)

private def integer (i : ℤ) : JsValue := .num (.int i)

private def command (args : List JsString) : JsValue :=
  texts (js "gcloud" :: args ++ [js "--project=" ++ project, js "--billing-project=" ++ project,
    js "--format=json"])

private def pattern (p : JsString → Bool) (value : JsValue) : Except String JsString :=
  orThrow ((text value).filter p) "trial immutable inputs or network declaration invalid"

def planCommands (instanceName network subnetwork egress bootImage runId metadata : JsString)
    (deleteAt : ℤ) : JsValue :=
  record [
    ("inspectNetwork", command [js "compute", js "networks", js "describe", network]),
    ("inspectSubnetwork", command [js "compute", js "networks", js "subnets", js "describe",
      subnetwork, js "--region=us-central1"]),
    ("create", command ([js "compute", js "instances", js "create", instanceName,
      js "--zone=" ++ zone, js "--machine-type=e2-medium", js "--image=" ++ bootImage,
      js "--image-project=debian-cloud", js "--boot-disk-size=30GB",
      js "--boot-disk-type=pd-standard", js "--boot-disk-auto-delete", js "--no-service-account",
      js "--no-scopes", js "--no-restart-on-failure", js "--maintenance-policy=TERMINATE",
      js "--instance-termination-action=DELETE", js "--termination-time=" ++ toISOString deleteAt,
      js "--network=" ++ network, js "--subnet=" ++ subnetwork, js "--stack-type=IPV4_ONLY"] ++
      (if egress = js "existing-nat" then [js "--no-address"] else []) ++
      [js "--labels=api-migrator-trial=" ++ runId, js "--metadata=" ++ metadata,
        js "--metadata-from-file=startup-script=./startup.sh"])),
    ("describe", command [js "compute", js "instances", js "describe", instanceName,
      js "--zone=" ++ zone]),
    ("delete", command [js "compute", js "instances", js "delete", instanceName,
      js "--zone=" ++ zone]),
    ("instanceInventory", command [js "compute", js "instances", js "list",
      js "--zones=" ++ zone]),
    ("diskInventory", command [js "compute", js "disks", js "list", js "--zones=" ++ zone])]

def renderTrialPlan (H : HashFunction 32) (input : TrialRequest) (nowMs : JsValue) :
    Except String TrialPlan := do
  reject (text input.projectId ≠ some project) "project scope invalid"
  let now ← orThrow (time nowMs) "planner clock invalid"
  let deleteAt ← orThrow ((time input.deleteAt).filter fun t ↦
    decide (900000 ≤ t - now ∧ t - now ≤ 3600000))
    "trial deadline invalid; require 15-60 minutes remaining"
  let runId ← pattern (isHexOfLength 32) input.runId
  let revision ← pattern (isHexOfLength 40) input.sourceRevision
  let archive ← pattern (isHexOfLength 64) input.sourceArchiveSha256
  let startup ← pattern (isHexOfLength 64) input.startupScriptSha256
  let bootImage ← pattern isBootImage input.bootImage
  let network ← pattern isNetwork input.network
  let subnetwork ← pattern isNetwork input.subnetwork
  let egress ← pattern
    (fun s ↦ decide (s = js "existing-nat" ∨ s = js "ephemeral-external-ip")) input.egress
  let instanceName := js "api-migrator-trial-" ++ runId
  let metadata := js "enable-oslogin=TRUE,block-project-ssh-keys=TRUE,serial-port-enable=FALSE," ++
    js "serial-port-logging-enable=TRUE,api-migrator-trial=" ++ runId ++
    js ",api-migrator-source=" ++ revision ++ js ",api-migrator-startup-sha256=" ++ startup
  let body : List (String × JsValue) := [
    ("schemaVersion", integer 1), ("kind", .str (js "api_migrator_gcp_trial_proposal")),
    ("projectId", .str project), ("runId", .str runId), ("instanceName", .str instanceName),
    ("zone", .str zone), ("issuedAt", integer now), ("deleteAt", integer deleteAt),
    ("createBefore", integer (min (now + 300000) (deleteAt - 900000))),
    ("runtime", record [("version", .str (js "22.23.2")), ("platform", .str (js "linux-x64")),
      ("url", .str (js "https://nodejs.org/dist/v22.23.2/node-v22.23.2-linux-x64.tar.xz")),
      ("sha256",
        .str (js "d60acfe00a2932254bb0ad20e01b0d74397a0875595de719654b214f4b03f307"))]),
    ("source", record [("repository", .str (js "Abhishekpundir23/api-migrator")),
      ("revision", .str revision),
      ("url", .str
        (js "https://codeload.github.com/Abhishekpundir23/api-migrator/tar.gz/" ++ revision)),
      ("sha256", .str archive)]),
    ("startup", record [("path", .str (js "./startup.sh")), ("sha256", .str startup),
      ("contentsVerified", .bool false)]),
    ("bootImage", record [("project", .str (js "debian-cloud")), ("name", .str bootImage),
      ("existenceVerified", .bool false)]),
    ("network", .str network), ("subnetwork", .str subnetwork), ("egress", .str egress),
    ("executionBlocked", .bool true), ("billingApprovalRequired", .bool true),
    ("activationBlocked", .bool true), ("authoritativeDrill", .bool false),
    ("releaseEvidenceEligible", .bool false), ("externalSigningEligible", .bool false),
    ("requiredBeforeExecution", texts [js "billing_and_trial_credit_approval",
      js "personal_account_no_impersonation", js "fresh_plan_and_unused_run_identity",
      js "reviewed_bootstrap_matches_digest", js "source_and_runtime_hashes_verified",
      js "boot_image_and_guest_environment_verified", js "compute_api_and_quota_verified",
      js "effective_ingress_policy_verified", js "declared_internet_egress_verified",
      js "off_host_logging_retention_verified", js "independent_cleanup_controller_ready"]),
    ("requiredAfterExecution", texts [js "instance_and_boot_disk_ids_recorded",
      js "live_configuration_matches_proposal", js "complete_bounded_smoke_result",
      js "evidence_collection_must_not_delay_cleanup", js "exact_owned_vm_and_disk_absent",
      js "logs_retrievable_after_delete"]),
    ("commands",
      planCommands instanceName network subnetwork egress bootImage runId metadata deleteAt),
    ("limitations", texts [js "proposal_only_no_cloud_calls",
      js "live_cloud_adapter_not_implemented", js "timer_not_a_cost_cap_or_deletion_receipt",
      js "name_based_commands_require_fresh_exact_id_ownership_checks",
      js "fresh_id_checks_do_not_eliminate_name_reuse_races",
      js "network_names_do_not_prove_isolation",
      js "logging_enablement_is_not_retained_evidence"])]
  let planDigest ← jsonDigest H (record body)
  return {
    runId, instanceName, issuedAt := now, deleteAt, planDigest
    value := record (body ++ [("planDigest", .str planDigest)]) }

/-- A plan is valid when rendering its own inputs gives it again. -/
def validatedPlan (H : HashFunction 32) (json : JsValue) : Except String TrialPlan :=
  (do
    let p ← parse json 65536
    let expected ← renderTrialPlan H {
      projectId := field p "projectId"
      runId := field p "runId"
      sourceRevision := field (field p "source") "revision"
      sourceArchiveSha256 := field (field p "source") "sha256"
      bootImage := field (field p "bootImage") "name"
      network := field p "network"
      subnetwork := field p "subnetwork"
      egress := field p "egress"
      startupScriptSha256 := field (field p "startup") "sha256"
      deleteAt := field p "deleteAt" } (field p "issuedAt")
    let actual ← canonicalJson p
    let rendered ← canonicalJson expected.value
    reject (actual ≠ rendered) "invalid trial plan"
    return expected : Except String TrialPlan) |> (relabel · "invalid trial plan")

/-! ### Ownership -/

structure Ownership where
  planDigest : JsString
  runId : JsString
  instanceName : JsString
  instanceId : JsString
  diskName : JsString
  diskId : JsString
  operationId : JsString
  capturedAt : ℤ
  deleteAt : ℤ
  ownershipDigest : JsString

def ownershipFields : List String :=
  ["schemaVersion", "projectId", "zone", "planDigest", "runId", "instanceName", "instanceId",
    "diskName", "diskId", "operationId", "capturedAt", "deleteAt", "activationBlocked",
    "ownershipDigest"]

private def without (key : String) : JsValue → JsValue
  | .obj members => .obj (members.filter fun m ↦ decide (m.1 ≠ js key))
  | value => value

/-- The record as it is read, before its instants are compared with the clock. -/
def readOwnership (H : HashFunction 32) (json : JsValue) (p : TrialPlan) :
    Except String Ownership := do
  let r ← parse json 16384
  fields r ownershipFields
  reject (time (field r "schemaVersion") ≠ some 1 ∨ text (field r "projectId") ≠ some project ∨
    text (field r "zone") ≠ some zone ∨ text (field r "planDigest") ≠ some p.planDigest ∨
    text (field r "runId") ≠ some p.runId ∨ text (field r "instanceName") ≠ some p.instanceName ∨
    text (field r "diskName") ≠ some p.instanceName ∨ time (field r "deleteAt") ≠ some p.deleteAt ∨
    isTrue (field r "activationBlocked") = false) "invalid ownership record"
  let instanceId ← orThrow (idText (field r "instanceId")) "invalid ownership record"
  let diskId ← orThrow (idText (field r "diskId")) "invalid ownership record"
  let operationId ← orThrow (idText (field r "operationId")) "invalid ownership record"
  let capturedAt ← orThrow (time (field r "capturedAt")) "invalid ownership record"
  let ownershipDigest ← jsonDigest H (without "ownershipDigest" r)
  reject (text (field r "ownershipDigest") ≠ some ownershipDigest) "invalid ownership record"
  return {
    planDigest := p.planDigest, runId := p.runId
    instanceName := p.instanceName, instanceId
    diskName := p.instanceName, diskId
    operationId, capturedAt, deleteAt := p.deleteAt, ownershipDigest }

def validatedOwnership (H : HashFunction 32) (json : JsValue) (p : TrialPlan) (nowMs : ℤ) :
    Except String Ownership := do
  let r ← readOwnership H json p
  reject (r.capturedAt < p.issuedAt ∨ r.capturedAt ≥ p.deleteAt ∨ r.capturedAt > nowMs)
    "invalid ownership record"
  return r

def validateTrialOwnership (H : HashFunction 32) (planJson recordJson : JsValue) (nowMs : ℤ) :
    Except String (TrialPlan × Ownership) := do
  reject (isTime nowMs = false) "invalid ownership clock"
  let plan ← validatedPlan H planJson
  return (plan, ← validatedOwnership H recordJson plan nowMs)

/-! ### Inventories -/

/-- An instance or a disk of an inventory. An instance has `disks`, where that is an array, and a
disk the links of its `users`. -/
structure Resource where
  id : JsString
  name : JsString
  selfLink : JsString
  trial : Option JsString
  disks : Option (List JsValue)
  users : List JsString

/-- `^[a-z](?:[a-z0-9-]{0,61}[a-z0-9])?$` -/
def isResourceName (s : JsString) : Bool :=
  decide (s.length ≤ 63) && s.all isNameUnit && s.head?.any isLowerLetter &&
    s.getLast?.any isNameEnd

/-- `Date.parse` on a text that no format fixes is left to the platform; `none` is `NaN`. -/
abbrev DateParser := JsString → Option ℤ

def resource (dateParse : DateParser) (kind : Kind) (value : JsValue) : Except String Resource := do
  let refusal := "invalid resource identity or scope"
  reject (object value = false) refusal
  let id ← orThrow (idText (field value "id")) refusal
  let name ← orThrow ((text (field value "name")).filter isResourceName) refusal
  let selfLink := kind.url ++ js "/" ++ name
  reject (text (field value "zone") ≠ some base ∨ text (field value "selfLink") ≠ some selfLink)
    refusal
  let created ← orThrow (text (field value "creationTimestamp")) refusal
  reject ((dateParse created).any isTime = false) refusal
  let labels := field value "labels"
  reject (isUndefined labels = false ∧ object labels = false) refusal
  let users ← match kind with
    | .instances => pure []
    | .disks =>
      if isUndefined (field value "users") then pure []
      else orThrow ((elements (field value "users")).bind (·.mapM text)) "invalid disk users"
  return {
    id, name, selfLink, users
    trial := text (field labels "api-migrator-trial")
    disks := elements (field value "disks") }

def diskUrl (name : JsString) : JsString := Kind.disks.url ++ js "/" ++ name

def hasSource (source : JsString) (disk : JsValue) : Bool :=
  decide (text (field disk "source") = some source)

def expectedAttachment (vm : Resource) (diskName : JsString) : Bool :=
  match vm.disks with
  | some [disk] =>
    object disk && isTrue (field disk "boot") && isTrue (field disk "autoDelete") &&
      hasSource (diskUrl diskName) disk
  | _ => false

def Kind.listKind : Kind → String
  | instances => "compute#instanceList"
  | disks => "compute#diskList"

def addItem (dateParse : DateParser) (kind : Kind) (items : List Resource) (value : JsValue) :
    Except String (List Resource) := do
  let item ← resource dateParse kind value
  reject (item.id ∈ items.map Resource.id ∨ item.name ∈ items.map Resource.name)
    "duplicate inventory resource"
  reject (1000 < (items ++ [item]).length) "inventory size exceeded"
  return items ++ [item]

/-- The pages that are left, the token that leads to the next one, and the tokens and items of the
pages before. The last page has no token for a next one. -/
def pagesFrom (dateParse : DateParser) (kind : Kind) :
    JsString → List JsString → List Resource → List JsValue → Except String (List Resource)
  | token, _, items, [] => do
    reject (token ≠ []) "incomplete inventory pagination"
    return items
  | token, seenTokens, items, page :: rest => do
    fields page ["pageToken", "response"]
    reject (text (field page "pageToken") ≠ some token ∨ token ∈ seenTokens)
      "invalid pagination token"
    let response := field page "response"
    let listed := field response "items"
    reject (object response = false ∨ hasOwn response "error" = true ∨
      hasOwn response "warning" = true ∨ isPlain (field response "kind") kind.listKind = false ∨
      text (field response "selfLink") ≠ some kind.url ∨
      (isUndefined listed = false ∧ (elements listed).isNone = true)) "invalid inventory response"
    let items ← ((elements listed).getD []).foldlM (addItem dateParse kind) items
    let next := field response "nextPageToken"
    let next ← if isUndefined next then pure [] else orThrow (text next) "invalid pagination"
    reject (2048 < next.length ∨ (next = [] ∧ rest ≠ [])) "invalid pagination"
    pagesFrom dateParse kind next (token :: seenTokens) items rest

def pages (dateParse : DateParser) (kind : Kind) (chain : JsValue) :
    Except String (List Resource) := do
  let chain ← orThrow (elements chain) "invalid inventory pages"
  reject (chain = [] ∨ 20 < chain.length) "invalid inventory pages"
  pagesFrom dateParse kind [] [] [] chain

structure Inventory where
  observedAt : ℤ
  instances : List Resource
  disks : List Resource

def validateTrialInventory (dateParse : DateParser) (inventoryJson : JsValue) (nowMs : ℤ) :
    Except String Inventory := do
  let inventory ← parse inventoryJson 262144
  fields inventory ["projectId", "zone", "observedAt", "filter", "instances", "disks"]
  reject (text (field inventory "projectId") ≠ some project ∨
    text (field inventory "zone") ≠ some zone) "invalid scope"
  reject (isTime nowMs = false) "stale or invalid observation"
  let observedAt ← orThrow ((time (field inventory "observedAt")).filter fun t ↦
    decide (t ≤ nowMs ∧ nowMs - t ≤ 30000)) "stale or invalid observation"
  reject (text (field inventory "filter") ≠ some []) "invalid inventory scope or time"
  return {
    observedAt
    instances := ← pages dateParse .instances (field inventory "instances")
    disks := ← pages dateParse .disks (field inventory "disks") }

/-! ### The decision -/

inductive BlockedReason
  | replacementOrUnownedResource
  | ownershipChanged
  | diskAttachedElsewhere
  | generationSafeDeleteUnverified
  deriving DecidableEq

inductive Decision
  | blocked (reason : BlockedReason) (resource : Option Kind)
  | absenceObserved
  | waiting
  deriving DecidableEq

def cleanupReasons : List String :=
  ["deadline", "completed", "failed", "cancelled", "controller_failure"]

/-- Another resource has the planned name or the label of the run. -/
def isReplacement (p : TrialPlan) (ownedId name : JsString) (v : Resource) : Bool :=
  decide (v.id ≠ ownedId ∧ (v.name = name ∨ v.trial = some p.runId))

/-- The owned resources are no longer what the plan and the record say. -/
def isChanged (p : TrialPlan) (r : Ownership) (vm disk : Option Resource) : Bool :=
  vm.any (fun v ↦ decide (v.name ≠ r.instanceName) || decide (v.trial ≠ some p.runId) ||
    !expectedAttachment v r.diskName) ||
  disk.any (fun d ↦ decide (d.name ≠ r.diskName)) || (vm.isSome && disk.isNone)

def isAttachedElsewhere (vm disk : Option Resource) : Bool :=
  disk.any fun d ↦ d.users.any fun user ↦ !vm.any fun v ↦ decide (user = v.selfLink)

def hasReplacement (p : TrialPlan) (r : Ownership) (inv : Inventory) : Bool :=
  inv.instances.any (isReplacement p r.instanceId r.instanceName) ||
    inv.disks.any (isReplacement p r.diskId r.diskName)

def Inventory.instance? (inv : Inventory) (id : JsString) : Option Resource :=
  inv.instances.find? fun v ↦ decide (v.id = id)

def Inventory.disk? (inv : Inventory) (id : JsString) : Option Resource :=
  inv.disks.find? fun v ↦ decide (v.id = id)

/-- The decision over the resources of one inventory. -/
def decideOver (p : TrialPlan) (r : Ownership) (inv : Inventory) (nowMs : ℤ) (reason : String) :
    Decision :=
  let vm := inv.instance? r.instanceId
  let disk := inv.disk? r.diskId
  if hasReplacement p r inv then .blocked .replacementOrUnownedResource none
  else if vm.isNone && disk.isNone then .absenceObserved
  else if isChanged p r vm disk then .blocked .ownershipChanged none
  else if isAttachedElsewhere vm disk then .blocked .diskAttachedElsewhere (some .disks)
  else if reason = "deadline" ∧ nowMs < p.deleteAt then .waiting
  else .blocked .generationSafeDeleteUnverified
    (some (if vm.isSome then .instances else .disks))

def decideCleanup (H : HashFunction 32) (dateParse : DateParser)
    (planJson recordJson inventoryJson : JsValue) (nowMs : ℤ) (reason : String) :
    Except String Decision := do
  reject (isTime nowMs = false ∨ reason ∉ cleanupReasons) "invalid cleanup clock or reason"
  let p ← validatedPlan H planJson
  let r ← validatedOwnership H recordJson p nowMs
  let inv ← validateTrialInventory dateParse inventoryJson nowMs
  reject (inv.observedAt < r.capturedAt) "invalid inventory scope or time"
  return decideOver p r inv nowMs reason

/-! ### What a decision rests on -/

/-- What the inventory must show before the resource of a kind is deleted. -/
structure Confirms (p : TrialPlan) (r : Ownership) (inv : Inventory) (kind : Kind) : Prop where
  /-- The instance carries the planned name, the label of the run and nothing but the planned
  disk; for the disk the instance is absent. -/
  owned : match kind with
    | .instances => ∃ vm ∈ inv.instances, vm.id = r.instanceId ∧ vm.name = p.instanceName ∧
        vm.trial = some p.runId ∧ expectedAttachment vm p.instanceName = true
    | .disks => ∀ vm ∈ inv.instances, vm.id ≠ r.instanceId
  /-- The disk carries the planned name, and nothing but the instance uses it. -/
  disk : ∃ d ∈ inv.disks, d.id = r.diskId ∧ d.name = p.instanceName ∧
    ∀ user ∈ d.users, ∃ vm ∈ inv.instances, vm.id = r.instanceId ∧ user = vm.selfLink
  other_instances : ∀ vm ∈ inv.instances, vm.id ≠ r.instanceId →
    vm.name ≠ p.instanceName ∧ vm.trial ≠ some p.runId
  other_disks : ∀ d ∈ inv.disks, d.id ≠ r.diskId →
    d.name ≠ p.instanceName ∧ d.trial ≠ some p.runId

theorem readOwnership_names {H : HashFunction 32} {json : JsValue} {p : TrialPlan} {r : Ownership}
    (h : readOwnership H json p = .ok r) :
    r.planDigest = p.planDigest ∧ r.runId = p.runId ∧ r.instanceName = p.instanceName ∧
      r.diskName = p.instanceName := by
  simp only [readOwnership, bind_eq_ok, pure_eq_ok] at h
  obtain ⟨_, -, _, -, _, -, _, -, _, -, _, -, _, -, _, -, _, -, rfl⟩ := h
  exact ⟨rfl, rfl, rfl, rfl⟩

theorem readOwnership_of_validated {H : HashFunction 32} {json : JsValue} {p : TrialPlan}
    {nowMs : ℤ} {r : Ownership} (h : validatedOwnership H json p nowMs = .ok r) :
    readOwnership H json p = .ok r := by
  simp only [validatedOwnership, bind_eq_ok, pure_eq_ok] at h
  obtain ⟨_, hr, _, -, rfl⟩ := h
  exact hr

private theorem forall_of_any_false {xs : List Resource} {p : Resource → Bool}
    (h : xs.any p = false) : ∀ v ∈ xs, p v = false := by
  intro v hv
  rw [← Bool.not_eq_true]
  exact fun hp ↦ Bool.false_ne_true (h ▸ List.any_eq_true.mpr ⟨v, hv, hp⟩)

private theorem not_planned {p : TrialPlan} {ownedId name : JsString} {v : Resource}
    (h : isReplacement p ownedId name v = false) (hid : v.id ≠ ownedId) :
    v.name ≠ name ∧ v.trial ≠ some p.runId := by
  simp only [isReplacement, decide_eq_false_iff_not, not_and, not_or] at h
  exact h hid

/-- What has been found is in the inventory and has the id. -/
private theorem mem_of_find {xs : List Resource} {id : JsString} {v : Resource}
    (h : xs.find? (fun v ↦ decide (v.id = id)) = some v) : v ∈ xs ∧ v.id = id := by
  have hid := List.find?_some h
  exact ⟨List.mem_of_find?_eq_some h, of_decide_eq_true hid⟩

private theorem forall_of_find {xs : List Resource} {id : JsString}
    (h : xs.find? (fun v ↦ decide (v.id = id)) = none) : ∀ v ∈ xs, v.id ≠ id := by
  intro v hv
  have hid := List.find?_eq_none.mp h v hv
  simpa using hid

/-- The checks that stand before this decision. -/
private theorem checks_of_decideOver {p : TrialPlan} {r : Ownership} {inv : Inventory} {nowMs : ℤ}
    {reason : String} {kind : Kind}
    (h : decideOver p r inv nowMs reason = .blocked .generationSafeDeleteUnverified (some kind)) :
    hasReplacement p r inv = false ∧
      ((inv.instance? r.instanceId).isNone && (inv.disk? r.diskId).isNone) = false ∧
      isChanged p r (inv.instance? r.instanceId) (inv.disk? r.diskId) = false ∧
      isAttachedElsewhere (inv.instance? r.instanceId) (inv.disk? r.diskId) = false ∧
      kind = if (inv.instance? r.instanceId).isSome then .instances else .disks := by
  simp only [decideOver] at h
  split_ifs at h with hreplacement habsent hchanged helsewhere hwaiting hvm
  all_goals try (simp at h; done)
  all_goals
    injection h with _ hkind
    refine ⟨Bool.eq_false_iff.mpr hreplacement, Bool.eq_false_iff.mpr habsent,
      Bool.eq_false_iff.mpr hchanged, Bool.eq_false_iff.mpr helsewhere, ?_⟩
    rw [← Option.some.inj hkind]
  · rw [if_pos hvm]
  · rw [if_neg hvm]

/-- Where nothing but the generation stands against a deletion, the inventory confirms it. -/
theorem confirms_of_decideOver {p : TrialPlan} {r : Ownership} {inv : Inventory} {nowMs : ℤ}
    {reason : String} {kind : Kind} (hinstance : r.instanceName = p.instanceName)
    (hdiskName : r.diskName = p.instanceName)
    (h : decideOver p r inv nowMs reason = .blocked .generationSafeDeleteUnverified (some kind)) :
    Confirms p r inv kind := by
  obtain ⟨hreplacement, habsent, hchanged, helsewhere, hkind⟩ := checks_of_decideOver h
  obtain ⟨hinstances, hdisks⟩ := Bool.or_eq_false_iff.mp hreplacement
  have hothers := forall_of_any_false hinstances
  have hotherDisks := forall_of_any_false hdisks
  simp only [isChanged, Bool.or_eq_false_iff] at hchanged
  obtain ⟨⟨hvmSame, hdiskSame⟩, hboth⟩ := hchanged
  obtain ⟨d, hd⟩ : ∃ d, inv.disk? r.diskId = some d := by
    cases hdisk : inv.disk? r.diskId with
    | some d => exact ⟨d, rfl⟩
    | none =>
      rw [hdisk] at habsent hboth
      cases hvm : inv.instance? r.instanceId <;> rw [hvm] at habsent hboth <;> contradiction
  have hdmem := mem_of_find hd
  rw [hd] at hdiskSame helsewhere
  have hdname : d.name = p.instanceName := by
    simpa [hdiskName] using hdiskSame
  have husers : ∀ user ∈ d.users, ∃ vm ∈ inv.instances,
      vm.id = r.instanceId ∧ user = vm.selfLink := by
    intro user huser
    simp only [isAttachedElsewhere, Option.any_some, List.any_eq_false, Bool.not_eq_true,
      Bool.not_eq_false'] at helsewhere
    have hlink := helsewhere user huser
    cases hvm : inv.instance? r.instanceId with
    | none =>
      rw [hvm] at hlink
      exact absurd hlink Bool.false_ne_true
    | some vm =>
      rw [hvm, Option.any_some] at hlink
      have hmem := mem_of_find hvm
      exact ⟨vm, hmem.1, hmem.2, of_decide_eq_true hlink⟩
  refine {
    owned := ?_
    disk := ⟨d, hdmem.1, hdmem.2, hdname, husers⟩
    other_instances := fun v hv hne ↦ hinstance ▸ not_planned (hothers v hv) hne
    other_disks := fun v hv hne ↦ hdiskName ▸ not_planned (hotherDisks v hv) hne }
  cases hvm : inv.instance? r.instanceId with
  | none =>
    rw [hvm] at hkind
    subst hkind
    exact forall_of_find hvm
  | some vm =>
    rw [hvm] at hkind hvmSame
    subst hkind
    simp only [Option.any_some, Bool.or_eq_false_iff, decide_eq_false_iff_not, not_not,
      Bool.not_eq_false', hinstance, hdiskName] at hvmSame
    obtain ⟨hmem, hid⟩ := mem_of_find hvm
    exact ⟨vm, hmem, hid, hvmSame.1.1, hvmSame.1.2, hvmSame.2⟩

/-- Absence means that neither id is in the inventory. -/
theorem absent_of_decideOver {p : TrialPlan} {r : Ownership} {inv : Inventory} {nowMs : ℤ}
    {reason : String} (h : decideOver p r inv nowMs reason = .absenceObserved) :
    (∀ vm ∈ inv.instances, vm.id ≠ r.instanceId) ∧ ∀ d ∈ inv.disks, d.id ≠ r.diskId := by
  simp only [decideOver] at h
  split_ifs at h with hreplacement habsent
  obtain ⟨hvm, hdisk⟩ := (Bool.and_eq_true ..).mp habsent
  exact ⟨forall_of_find (Option.isNone_iff_eq_none.mp hvm),
    forall_of_find (Option.isNone_iff_eq_none.mp hdisk)⟩

/-- A decision is one over an inventory that was accepted, with the plan and the record. -/
theorem decideCleanup_eq_ok {H : HashFunction 32} {dateParse : DateParser}
    {planJson recordJson inventoryJson : JsValue} {startedAt nowMs : ℤ} {reason : String}
    {p : TrialPlan} {r : Ownership} {inv : Inventory} {decision : Decision}
    (hvalid : validateTrialOwnership H planJson recordJson startedAt = .ok (p, r))
    (hinv : validateTrialInventory dateParse inventoryJson nowMs = .ok inv)
    (h : decideCleanup H dateParse planJson recordJson inventoryJson nowMs reason = .ok decision) :
    decision = decideOver p r inv nowMs reason := by
  simp only [validateTrialOwnership, bind_eq_ok, pure_eq_ok, Prod.mk.injEq] at hvalid
  obtain ⟨_, -, p', hplan, r', hownership, rfl, rfl⟩ := hvalid
  simp only [decideCleanup, bind_eq_ok, pure_eq_ok] at h
  obtain ⟨_, -, p, hplan', r, hownership', inv', hinv', _, -, rfl⟩ := h
  obtain rfl := Except.ok.inj (hplan.symm.trans hplan')
  obtain rfl := Except.ok.inj (hinv.symm.trans hinv')
  obtain rfl := Except.ok.inj ((readOwnership_of_validated hownership).symm.trans
    (readOwnership_of_validated hownership'))
  rfl

end ApiMigrator.Ops.TrialCleanup
