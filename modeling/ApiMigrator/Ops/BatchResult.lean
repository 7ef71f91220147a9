import ApiMigrator.Ops.BatchLog
import ApiMigrator.Ops.TrialCleanup

/-!
`gcp-trial/batch-result.mjs`: what the operator concludes from a prepared run, the accepted job, the
job as it was fetched, and the lines of its log. The chunks of the log are put together again from
lines in any order.
-/

set_option autoImplicit false
set_option relaxedAutoImplicit false

namespace ApiMigrator.Ops.BatchResult

open Foundation Foundation.Text Foundation.Number Foundation.Json Foundation.Outcome
open Foundation.Pattern Foundation.Binary Foundation.Regex Foundation.Base64 Lib BatchLog
open TrialCleanup (field object text elements hasOwn isUndefined isTrue isPlain project DateParser)

/-! ### Values -/

def integer (value : JsValue) : Option ℤ :=
  match value with
  | .num n => safeInteger n
  | _ => none

def isFalse (value : JsValue) : Bool := value matches .bool false

/-- An element of an array, `undefined` where there is none. -/
def item (value : JsValue) (index : ℕ) : JsValue :=
  match value with
  | .arr xs => xs.getD index (.exotic .undefined)
  | .obj members => getMember members (decimalDigits index)
  | _ => .exotic .undefined

/-- A property of a value that has properties. -/
def member (value : JsValue) (key : String) : Except String JsValue :=
  match value with
  | .null | .exotic .undefined => throw "TypeError"
  | value => .ok (field value key)

def withMember (value : JsValue) (key : String) (new : JsValue) : JsValue :=
  match value with
  | .obj members => .obj (setMember members (js key) new)
  | value => value

def withoutMember (value : JsValue) (key : String) : JsValue :=
  match value with
  | .obj members => .obj (members.filter fun m ↦ decide (m.1 ≠ js key))
  | value => value

/-- `Object.keys` -/
def ownKeys (value : JsValue) : List JsString :=
  match value with
  | .obj members => members.map Prod.fst
  | _ => []

/-- Exactly these members. -/
def exact (value : JsValue) (keys : List String) : Bool :=
  match value with
  | .obj members => decide (members.length = keys.length) && keys.all (hasOwn value)
  | _ => false

private def digits (n : ℕ) : Regex := .many isDigit n (some n) true

/-- `^\d{4}-\d\d-\d\dT\d\d:\d\d:\d\d(?:\.\d{1,9})?Z$` -/
def instantPattern : Regex :=
  sequence [digits 4, lit false "-", digits 2, lit false "-", digits 2, lit false "T", digits 2,
    lit false ":", digits 2, lit false ":", digits 2,
    choice [.seq (lit false ".") (.many isDigit 1 (some 9) true), .empty], lit false "Z"]

def instant (dateParse : DateParser) (value : JsValue) : Option ℤ :=
  ((text value).filter instantPattern.matchesAll).bind dateParse

/-! ### The prepared run and the job -/

structure Prepared where
  runId : JsString
  revision : JsString
  archive : JsString
  jobId : JsString
  issuedAt : ℤ
  deleteAt : ℤ
  job : JsValue

def prepare (H : HashFunction 32) (p : JsValue) : Except String Prepared := do
  let refusal := "invalid prepared identity"
  let source := field p "source"
  let runId ← orThrow ((text (field p "runId")).filter (isHexOfLength 32)) refusal
  let jobId := js "api-migrator-batch-" ++ runId
  reject (integer (field p "schemaVersion") ≠ some 1 ∨ text (field p "projectId") ≠ some project ∨
    isPlain (field p "region") "us-central1" = false ∨ text (field p "jobId") ≠ some jobId ∨
    object source = false ∨ isTrue (field p "activationBlocked") = false) refusal
  let revision ← orThrow ((text (field source "revision")).filter (isHexOfLength 40)) refusal
  let archive ← orThrow ((text (field source "sha256")).filter (isHexOfLength 64)) refusal
  let issuedAt ← orThrow (integer (field p "issuedAt")) refusal
  let deleteAt ← orThrow (integer (field p "deleteAt")) refusal
  reject (deleteAt ≤ issuedAt) refusal
  let job := field p "job"
  let spec := field (item (field job "taskGroups") 0) "taskSpec"
  let script ← orThrow (text (field (field (item (field spec "runnables") 0) "script") "text"))
    "script digest mismatch"
  reject (text (field p "scriptSha256") ≠ some (H.hex (utf8Encode script)))
    "script digest mismatch"
  return { runId, revision, archive, jobId, issuedAt, deleteAt, job }

def Prepared.name (p : Prepared) : JsString :=
  js "projects/" ++ project ++ js "/locations/us-central1/jobs/" ++ p.jobId

structure Acceptance where
  uid : JsString
  createTime : JsString
  createdAt : ℤ

/-- `^[A-Za-z0-9][A-Za-z0-9_-]{0,127}$` -/
def isUid (s : JsString) : Bool :=
  s.head?.any isAlphanumeric && s.all (isAlphanumericOr "_-") && decide (s.length ≤ 128)

def acceptance (dateParse : DateParser) (p : Prepared) (a : JsValue) :
    Except String Acceptance := do
  let refusal := "invalid retained acceptance"
  reject (text (field a "name") ≠ some p.name) refusal
  let uid ← orThrow ((text (field a "uid")).filter isUid) refusal
  let createTime ← orThrow (text (field a "createTime")) refusal
  let createdAt ← orThrow ((instant dateParse (field a "createTime")).filter fun t ↦
    decide (p.issuedAt < t ∧ t < p.deleteAt)) refusal
  return ⟨uid, createTime, createdAt⟩

inductive JobState
  | queued
  | scheduled
  | running
  | succeeded
  | failed
  | cancelled
  | unspecified
  deriving DecidableEq

def jobStates : List (String × JobState) :=
  [("QUEUED", .queued), ("SCHEDULED", .scheduled), ("RUNNING", .running),
    ("SUCCEEDED", .succeeded), ("FAILED", .failed), ("CANCELLED", .cancelled),
    ("STATE_UNSPECIFIED", .unspecified)]

structure Job where
  state : JobState
  updatedAt : ℤ

def materialKeys : List String := ["taskGroups", "allocationPolicy", "labels", "logsPolicy"]

def outputKeys : List String := ["name", "uid", "createTime", "updateTime", "status"]

/-- A group of tasks without the name the provider gave it. -/
def fetchedGroup (group : JsValue) : Except String JsValue := do
  reject (object group = false) "invalid fetched task group"
  let name := field group "name"
  reject (isUndefined name = false ∧
    (text name).any (fun s ↦ decide (0 < s.length ∧ s.length ≤ 1024)) = false)
    "invalid output-only task group name"
  return withoutMember group "name"

/-- The provider leaves out a retry count of zero. -/
def withRetryCount (expected group : JsValue) : JsValue :=
  let spec := field group "taskSpec"
  if object spec && !hasOwn spec "maxRetryCount" &&
      decide (integer (field (field expected "taskSpec") "maxRetryCount") = some 0) then
    withMember group "taskSpec" (withMember spec "maxRetryCount" (.num (.int 0)))
  else group

/-- It adds a label with the id of the job. -/
def withoutJobLabel (p : Prepared) (allocation : JsValue) : Except String JsValue := do
  let labels := field allocation "labels"
  if object labels && decide (text (field labels "batch-job-id") = some p.jobId) then do
    let expected ← member (← member p.job "allocationPolicy") "labels"
    let _ ← member expected "batch-job-id"
    return if hasOwn expected "batch-job-id" then allocation
      else withMember allocation "labels" (withoutMember labels "batch-job-id")
  else return allocation

/-- It writes the region in front of the zone. -/
def withLocations (p : Prepared) (allocation : JsValue) : Except String JsValue := do
  let expected ← member (← member (← member p.job "allocationPolicy") "location")
    "allowedLocations"
  let zones ← canonicalJson expected
  if zones = js "[\"zones/us-central1-a\"]" then do
    let location := field allocation "location"
    let locations ← canonicalJson (field location "allowedLocations")
    return if locations = js "[\"regions/us-central1\",\"zones/us-central1-a\"]" then
      withMember allocation "location" (withMember location "allowedLocations" expected)
    else allocation
  else return allocation

/-- It leaves out a `false`. -/
def withAddress (expected : JsValue) (network : JsValue) : JsValue :=
  if object network && !hasOwn network "noExternalIpAddress" &&
      isFalse (field expected "noExternalIpAddress") then
    withMember network "noExternalIpAddress" (.bool false)
  else network

def withNetworks (p : Prepared) (allocation : JsValue) : Except String JsValue := do
  let network := field allocation "network"
  match elements (field network "networkInterfaces") with
  | none => return allocation
  | some interfaces => do
    let expected ← interfaces.zipIdx.mapM fun entry ↦ do
      if object entry.1 && !hasOwn entry.1 "noExternalIpAddress" then do
        let interfaces ← member (← member (← member p.job "allocationPolicy") "network")
          "networkInterfaces"
        let _ ← member interfaces "0"
        return withAddress (item interfaces entry.2) entry.1
      else return entry.1
    return withMember allocation "network" (withMember network "networkInterfaces" (.arr expected))

/-- The configuration of the fetched job, with what the provider is known to change undone. -/
def fetchedMaterial (p : Prepared) (j : JsValue) : Except String JsValue := do
  let groups ← orThrow (elements (field j "taskGroups")) "missing fetched task groups"
  let groups ← groups.mapM fetchedGroup
  let groups := groups.zipIdx.map fun entry ↦
    withRetryCount (item (field p.job "taskGroups") entry.2) entry.1
  let allocation := field j "allocationPolicy"
  let allocation ← if object allocation then do
      let allocation ← withoutJobLabel p allocation
      let allocation ← withLocations p allocation
      withNetworks p allocation
    else pure allocation
  return .obj [(js "taskGroups", .arr groups), (js "allocationPolicy", allocation),
    (js "labels", field j "labels"), (js "logsPolicy", field j "logsPolicy")]

def readJob (dateParse : DateParser) (p : Prepared) (a : Acceptance) (j : JsValue) :
    Except String Job := do
  let refusal := "invalid job identity or state"
  reject (text (field j "name") ≠ some p.name ∨ text (field j "uid") ≠ some a.uid ∨
    text (field j "createTime") ≠ some a.createTime) refusal
  let updatedAt ← orThrow ((instant dateParse (field j "updateTime")).filter fun t ↦
    decide (a.createdAt ≤ t)) refusal
  reject (object (field j "status") = false) refusal
  let state ← orThrow (jobStates.find? fun s ↦ isPlain (field (field j "status") "state") s.1)
    refusal
  reject ((ownKeys j).any (fun key ↦ decide (key ∉ (materialKeys ++ outputKeys).map js)) = true)
    "unknown fetched job configuration"
  let fetched ← fetchedMaterial p j
  let actual ← canonicalJson fetched
  let expected ← canonicalJson p.job
  reject (actual ≠ expected) "fetched job material configuration mismatch"
  return ⟨state.2, updatedAt⟩

/-! ### The lines of the log -/

structure BatchRecord where
  phase : JsString
  exitCode : ℤ
  passed : Bool
  logBytes : ℤ
  logChunks : ℤ
  logSha256 : JsString

structure Lines where
  chunks : List (ℕ × Bytes)
  result : Option BatchRecord

def resultKeys : List String :=
  ["schemaVersion", "profile", "runId", "sourceRevision", "sourceArchiveSha256", "phase",
    "exitCode", "status", "logBytes", "logChunks", "logSha256", "activationBlocked"]

/-- The record behind a marker. -/
def markedRecord (marker : String) (line : JsString) : Except String JsValue := do
  let start := js marker ++ js " "
  reject (start.isPrefixOf line = false) "malformed recognized marker"
  orThrow (jsonParse (line.drop start.length)) "malformed recognized marker"

def readChunk (p : Prepared) (lines : Lines) (record : JsValue) : Except String Lines := do
  let refusal := "invalid chunk identity or index"
  reject (exact record ["runId", "index", "data"] = false ∨
    text (field record "runId") ≠ some p.runId) refusal
  let index ← orThrow ((integer (field record "index")).filter fun i ↦
    decide (0 ≤ i ∧ i < 1366)) refusal
  reject (index.toNat ∈ lines.chunks.map Prod.fst) refusal
  let data ← orThrow ((text (field record "data")).filter fun s ↦ decide (s.length ≤ 4096)) refusal
  let bytes := base64Decode data
  reject (bytes = [] ∨ 3072 < bytes.length ∨ base64 bytes ≠ data) "invalid chunk base64"
  return { lines with chunks := lines.chunks ++ [(index.toNat, bytes)] }

def readResult (p : Prepared) (lines : Lines) (record : JsValue) : Except String Lines := do
  let refusal := "invalid result identity or bounds"
  reject (lines.result.isSome = true ∨ exact record resultKeys = false ∨
    integer (field record "schemaVersion") ≠ some 1 ∨
    isPlain (field record "profile") "batch-engine-smoke-v1" = false ∨
    text (field record "runId") ≠ some p.runId ∨
    text (field record "sourceRevision") ≠ some p.revision ∨
    text (field record "sourceArchiveSha256") ≠ some p.archive ∨
    isTrue (field record "activationBlocked") = false) refusal
  let phase ← orThrow (text (field record "phase")) refusal
  let exitCode ← orThrow ((integer (field record "exitCode")).filter fun i ↦
    decide (0 ≤ i ∧ i ≤ 255)) refusal
  reject (isPlain (field record "status") "passed" = false ∧
    isPlain (field record "status") "failed" = false) refusal
  let logBytes ← orThrow ((integer (field record "logBytes")).filter fun i ↦
    decide (0 ≤ i ∧ i ≤ 4194304)) refusal
  let logChunks ← orThrow ((integer (field record "logChunks")).filter fun i ↦
    decide (0 ≤ i ∧ i ≤ 1366)) refusal
  let logSha256 ← orThrow ((text (field record "logSha256")).filter (isHexOfLength 64)) refusal
  return { lines with
    result := some ⟨phase, exitCode, isPlain (field record "status") "passed", logBytes, logChunks,
      logSha256⟩ }

def readRecord (p : Prepared) (lines : Lines) (line : JsString) : Except String Lines :=
  if startsWith line logMarker then do readChunk p lines (← markedRecord logMarker line)
  else if startsWith line resultMarker then do readResult p lines (← markedRecord resultMarker line)
  else .ok lines

/-- `[...chunks].sort((a, b) => a[0] - b[0])` -/
def sortChunks (chunks : List (ℕ × Bytes)) : List (ℕ × Bytes) :=
  chunks.mergeSort fun a b ↦ decide (a.1 ≤ b.1)

def isSequential (ordered : List (ℕ × Bytes)) : Bool :=
  ordered.zipIdx.all fun entry ↦ decide (entry.1.1 = entry.2) &&
    (decide (entry.2 + 1 = ordered.length) || decide (entry.1.2.length = 3072))

/-- The bytes the chunks are put together to. -/
def assemble (H : HashFunction 32) (chunks : List (ℕ × Bytes)) (result : BatchRecord) :
    Except String Bytes := do
  reject ((chunks.length : ℤ) ≠ result.logChunks) "missing log chunks"
  let ordered := sortChunks chunks
  reject (isSequential ordered = false) "nonsequential chunks"
  let bytes := ordered.flatMap Prod.snd
  reject ((bytes.length : ℤ) ≠ result.logBytes ∨ H.hex bytes ≠ result.logSha256)
    "log bytes or digest mismatch"
  return bytes

structure Logs where
  complete : Bool
  records : List JsString

def readLogs (a : Acceptance) (logs : JsValue) : Except String Logs := do
  let refusal := "invalid logs envelope"
  reject (text (field logs "jobUid") ≠ some a.uid ∨
    (isTrue (field logs "complete") = false ∧ isFalse (field logs "complete") = false)) refusal
  let records ← orThrow ((elements (field logs "records")).bind (·.mapM text)) refusal
  reject (4096 < records.length ∨ records.any (fun s ↦ decide (65536 < byteLength s)) = true)
    refusal
  return ⟨isTrue (field logs "complete"), records⟩

/-- Whether the lines show that the smoke test passed. -/
def smokePassed (H : HashFunction 32) (p : Prepared) (a : Acceptance) (job : Option Job)
    (logs : JsValue) : Except String Bool := do
  let logs ← readLogs a logs
  let lines ← logs.records.foldlM (readRecord p) ⟨[], none⟩
  match lines.result with
  | none => return false
  | some result => do
    let bytes ← assemble H lines.chunks result
    return job.any (fun j ↦ decide (j.state = .succeeded)) && logs.complete &&
      decide (result.phase = js "complete" ∧ result.exitCode = 0) && result.passed &&
      hasBatchSmokeSummary (utf8Decode bytes)

/-! ### The classification -/

inductive Smoke
  | unverified
  | failed
  | passed
  deriving DecidableEq

structure Outcome where
  smoke : Smoke
  verifiedAbsent : Bool

def isTerminal (job : Option Job) : Bool :=
  job.any fun j ↦ decide (j.state = .succeeded ∨ j.state = .failed ∨ j.state = .cancelled)

def verifiedAbsent (dateParse : DateParser) (job : Option Job) (inventory : JsValue) :
    Except String Bool := do
  reject (text (field inventory "projectId") ≠ some project) "invalid inventory project"
  return isTerminal job &&
    exact inventory ["projectId", "observedAt", "complete", "instances", "disks",
      "instanceGroupManagers"] &&
    isTrue (field inventory "complete") &&
    (instant dateParse (field inventory "observedAt")).any (fun t ↦ job.any fun j ↦
      decide (j.updatedAt < t ∧ t - j.updatedAt ≤ 300000)) &&
    ["instances", "disks", "instanceGroupManagers"].all fun key ↦
      (elements (field inventory key)).any List.isEmpty

def smokeWith (H : HashFunction 32) (p : Prepared) (a : Acceptance) (job : Option Job)
    (smoke : Smoke) : Option JsValue → Except String Smoke
  | none => .ok smoke
  | some logs => do
    let passed ← smokePassed H p a job logs
    return if passed then .passed else smoke

def absentWith (dateParse : DateParser) (job : Option Job) : Option JsValue → Except String Bool
  | none => .ok false
  | some inventory => verifiedAbsent dateParse job inventory

/-- An argument that is `none` is absent. -/
def classifyBatchResult (H : HashFunction 32) (dateParse : DateParser) (prepared : JsValue)
    (accepted job logs inventory : Option JsValue) : Except String Outcome := do
  let p ← prepare H prepared
  match accepted with
  | none => do
    reject (job.isSome = true ∨ logs.isSome = true) "missing retained acceptance"
    return ⟨.unverified, false⟩
  | some accepted => do
    let a ← acceptance dateParse p accepted
    let job ← job.mapM (readJob dateParse p a)
    let smoke := if job.any fun j ↦ decide (j.state = .failed ∨ j.state = .cancelled) then
      Smoke.failed else .unverified
    let smoke ← smokeWith H p a job smoke logs
    let absent ← absentWith dateParse job inventory
    return ⟨smoke, absent⟩

end ApiMigrator.Ops.BatchResult
