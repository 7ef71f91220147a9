import ApiMigrator.Foundation.HashChain
import ApiMigrator.Ops.DedicatedDrill

/-!
The event stream of a drill attempt in `deployment/dedicated-drill-handoff.mjs`: the builder of one
event and the validation of a whole stream. Reading an event back fixes every field of it but the
boot, the time and the evidence, so that the digest of the last event stands for the stream.
-/

set_option autoImplicit false
set_option relaxedAutoImplicit false

namespace ApiMigrator.Ops.DedicatedDrill

open Foundation.Text Foundation.Number Foundation.Json Foundation.Outcome Foundation.Pattern
open Foundation.Binary Foundation.HashChain Lib

variable {H : HashFunction 32}

/-! ### Events -/

/-- `eventWithoutDigest` -/
structure EventBody where
  sequence : ℤ
  event : JsString
  scenario : JsString
  handoffDigest : JsString
  attemptDigest : JsString
  jobId : JsString
  planDigest : JsString
  instanceId : JsString
  bootId : JsString
  observedAt : ℤ
  evidenceDigest : JsString
  previousEventDigest : JsString
  deriving DecidableEq

structure Event extends EventBody where
  eventDigest : JsString
  deriving DecidableEq

def EventBody.json (e : EventBody) : JsValue :=
  .obj [
    (js "attemptDigest", .str e.attemptDigest),
    (js "bootId", .str e.bootId),
    (js "event", .str e.event),
    (js "evidenceDigest", .str e.evidenceDigest),
    (js "handoffDigest", .str e.handoffDigest),
    (js "instanceId", .str e.instanceId),
    (js "jobId", .str e.jobId),
    (js "observedAt", .num (.int e.observedAt)),
    (js "planDigest", .str e.planDigest),
    (js "previousEventDigest", .str e.previousEventDigest),
    (js "scenario", .str e.scenario),
    (js "sequence", .num (.int e.sequence))]

def Event.json (e : Event) : JsValue :=
  .obj [
    (js "attemptDigest", .str e.attemptDigest),
    (js "bootId", .str e.bootId),
    (js "event", .str e.event),
    (js "eventDigest", .str e.eventDigest),
    (js "evidenceDigest", .str e.evidenceDigest),
    (js "handoffDigest", .str e.handoffDigest),
    (js "instanceId", .str e.instanceId),
    (js "jobId", .str e.jobId),
    (js "observedAt", .num (.int e.observedAt)),
    (js "planDigest", .str e.planDigest),
    (js "previousEventDigest", .str e.previousEventDigest),
    (js "scenario", .str e.scenario),
    (js "sequence", .num (.int e.sequence))]

/-- The bytes an event digest is taken of. -/
def EventBody.bytes (e : EventBody) : Bytes := utf8Encode (compactText e.json)

def eventFields : List String :=
  ["sequence", "event", "scenario", "handoffDigest", "attemptDigest", "jobId", "planDigest",
    "instanceId", "bootId", "observedAt", "evidenceDigest", "previousEventDigest", "eventDigest"]

/-- The digest of an event: of the canonical text of the rest of it. -/
def eventDigestOf (H : HashFunction 32) (e : EventBody) : Except String JsString := do
  let text ← canonicalJson e.json
  return sha256 H (utf8Encode text)

/-! ### The chain root -/

def eventChainDomain : JsString := js "api-migrator:dedicated-drill:event-chain:v1"

def dedicatedDrillEventChainRootDigest (H : HashFunction 32) : JsString :=
  sha256 H (utf8Encode (js "api-migrator:dedicated-drill:event-chain-root:v1"))

def chainRootJson (handoff : Deployment H) (attempt : Attempt) : JsValue :=
  .obj [
    (js "attemptDigest", .str attempt.attemptDigest),
    (js "domain", .str eventChainDomain),
    (js "handoffDigest", .str handoff.digest),
    (js "root", .str (dedicatedDrillEventChainRootDigest H))]

def eventChainRootFor (deployment : Deployment H) (attempt : Attempt) : Except String JsString := do
  let text ← canonicalJson (chainRootJson deployment attempt)
  return sha256 H (utf8Encode text)

/-- The first link of one exact handoff attempt. -/
def dedicatedDrillEventChainRoot (deployment : Deployment H) (scenario : JsValue) :
    Except String JsString := do
  let attempt ← attemptForScenario deployment scenario
  eventChainRootFor deployment attempt

/-! ### Building -/

def outsideOrder : String := "dedicated drill event is outside the exact scenario order"

/-- One hash-chained externally observed event of a bound attempt. -/
def buildDedicatedDrillEvent (input : JsValue) (deployment : Deployment H) :
    Except String Event := do
  let root ← record input "dedicated drill event input"
  exactKeys root ["scenario", "sequence", "event", "bootId", "observedAt", "evidenceDigest",
    "previousEventDigest"] "dedicated drill event input"
  let attempt ← attemptForScenario deployment (field root "scenario")
  let order ← dedicatedDrillEventOrder attempt.scenario
  let sequence ← orThrow (asSafeInteger (field root "sequence")) outsideOrder
  reject (sequence < 1 ∨ order.length < sequence) outsideOrder
  let event ← orThrow order[(sequence - 1).toNat]? outsideOrder
  reject (isText (field root "event") (js event) = false) outsideOrder
  let bootId ← digest (field root "bootId") "dedicated drill event boot ID"
  let observedAt ← timestamp (field root "observedAt") "dedicated drill event timestamp"
  let evidenceDigest ← digest (field root "evidenceDigest") "dedicated drill event evidence"
  let previousEventDigest ← digest (field root "previousEventDigest")
    "dedicated drill previous event"
  let body : EventBody := {
    sequence, event := js event, scenario := js attempt.scenario.name
    handoffDigest := deployment.digest, attemptDigest := attempt.attemptDigest
    jobId := attempt.jobId, planDigest := attempt.planDigest, instanceId := attempt.instanceId
    bootId, observedAt, evidenceDigest, previousEventDigest }
  let eventDigest ← eventDigestOf H body
  return { body with eventDigest }

/-! ### Validation -/

def validateEvent (deployment : Deployment H) (attempt : Attempt) (index : ℕ) (expected : String)
    (previousDigest : JsString) (previousTimestamp : ℤ) (entry : JsValue) :
    Except String Event := do
  let root ← record entry s!"dedicated drill event {index}"
  exactKeys root eventFields s!"dedicated drill event {index}"
  reject (¬ (isNumber (field root "sequence") (index + 1) ∧ isText (field root "event") (js expected) ∧
      isText (field root "scenario") (js attempt.scenario.name) ∧
      isText (field root "handoffDigest") deployment.digest ∧
      isText (field root "attemptDigest") attempt.attemptDigest ∧
      isText (field root "jobId") attempt.jobId ∧
      isText (field root "planDigest") attempt.planDigest ∧
      isText (field root "instanceId") attempt.instanceId ∧
      isText (field root "previousEventDigest") previousDigest))
    "dedicated drill event is reordered, unchained, or substitutes its attempt"
  let observedAt ← timestamp (field root "observedAt") s!"{expected} observation"
  reject (observedAt ≤ previousTimestamp) "dedicated drill event timestamps must strictly increase"
  let bootId ← digest (field root "bootId") s!"{expected} boot ID"
  let evidenceDigest ← digest (field root "evidenceDigest") s!"{expected} evidence"
  let body : EventBody := {
    sequence := index + 1, event := js expected, scenario := js attempt.scenario.name
    handoffDigest := deployment.digest, attemptDigest := attempt.attemptDigest
    jobId := attempt.jobId, planDigest := attempt.planDigest, instanceId := attempt.instanceId
    bootId, observedAt, evidenceDigest, previousEventDigest := previousDigest }
  let eventDigest ← eventDigestOf H body
  reject (isText (field root "eventDigest") eventDigest = false)
    "dedicated drill event digest is substituted"
  return { body with eventDigest }

/-- The events one after the other, each against its place in the order. -/
def validateEach (deployment : Deployment H) (attempt : Attempt) :
    ℕ → JsString → ℤ → List String → List JsValue → Except String (List Event)
  | index, previousDigest, previousTimestamp, expected :: order, entry :: entries => do
    let event ← validateEvent deployment attempt index expected previousDigest previousTimestamp
      entry
    let events ← validateEach deployment attempt (index + 1) event.eventDigest event.observedAt
      order entries
    return event :: events
  | _, _, _, _, _ => .ok []

/-- The reconnect event is in the order of the scenario, and so among the events. -/
def validateBootTimeline (events : List Event) (attempt : Attempt) : Except String Unit :=
  if attempt.scenario ≠ .reboot then
    reject (events.any fun e ↦ e.bootId ≠ attempt.initialBootId)
      "non-reboot dedicated drill changed the bound boot identity"
  else do
    let reconnect := events.findIdx fun e ↦ e.event = js "host_reconnected"
    reject ((events.take reconnect).any fun e ↦ e.bootId ≠ attempt.initialBootId)
      "reboot drill changed boot identity before the reconnect boundary"
    let after := events.drop reconnect
    let next ← orThrow after.head? "reboot drill does not bind one distinct post-reboot boot identity"
    reject (next.bootId = attempt.initialBootId ∨ after.any fun e ↦ e.bootId ≠ next.bootId)
      "reboot drill does not bind one distinct post-reboot boot identity"

/-- `byName[name]`, the last event of that name. -/
def byName (events : List Event) (name : String) : Option Event :=
  events.reverse.find? fun e ↦ e.event = js name

def asArray : JsValue → Option (List JsValue)
  | .arr xs => some xs
  | _ => none

def validateEvents (value : JsValue) (deployment : Deployment H) (attempt : Attempt)
    (startedAt finishedAt : ℤ) : Except String (List Event) := do
  let order ← dedicatedDrillEventOrder attempt.scenario
  let entries ← orThrow (asArray value) "dedicated drill event stream is incomplete"
  reject (entries.length ≠ order.length) "dedicated drill event stream is incomplete"
  let root ← eventChainRootFor deployment attempt
  let events ← validateEach deployment attempt 0 root 0 order entries
  reject (events.head?.map (·.observedAt) ≠ some startedAt ∨
      events.getLast?.map (·.observedAt) ≠ some finishedAt)
    "dedicated drill observer boundaries do not match report timestamps"
  validateBootTimeline events attempt
  reject (¬ (events.map (·.evidenceDigest)).Nodup)
    "dedicated drill event evidence artifacts must be independently identified"
  let lease ← orThrow (byName events "host_lease_verified")
    "Cannot read properties of undefined (reading 'evidenceDigest')"
  reject (lease.evidenceDigest ≠ attempt.providerLeaseReceiptDigest)
    "dedicated drill host lease event does not bind the provider lease receipt"
  return events

end ApiMigrator.Ops.DedicatedDrill
