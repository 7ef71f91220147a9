import ApiMigrator.Foundation.Guarded
import ApiMigrator.Ops.TrialCleanup

/-!
`gcp-trial/cleanup-protocol.mjs`: the rehearsal of the deletion of one instance and its disk. The
program awaits the transport, the inventory reader and the timer; each may answer anything, fail, or
be overtaken by the timeout. Nothing is asked for before the clock and the timeout are checked.
-/

set_option autoImplicit false
set_option relaxedAutoImplicit false

namespace ApiMigrator.Ops.CleanupProtocol

open Foundation.Text Foundation.Number Foundation.Json Foundation.Outcome Foundation.Pattern
open Foundation.Binary Foundation.Interaction Foundation.Interaction.Prog Lib TrialCleanup

/-! ### What the program asks for -/

inductive Method
  | get
  | delete
  deriving DecidableEq

structure Request where
  method : Method
  url : JsString
  deriving DecidableEq

inductive Op
  | now
  | readInventory
  | transport (request : Request)
  | wait
  deriving DecidableEq

/-- How an awaited call ends: with a value, or with `none` when it throws or rejects; and whether
the timeout fired in the meantime. -/
structure Awaited where
  value : Option JsValue
  timedOut : Bool

/-- `now` answers `none` when it throws or gives anything but a safe integer. -/
def Answer : Op → Type
  | .now => Option ℤ
  | .readInventory | .transport _ | .wait => Awaited

/-! ### Requests and operations -/

/-- A UUID of version 5 from the digest of the ownership record. -/
def requestId (sha1 : HashFunction 20) (ownershipDigest : JsString) (kind : Kind) : JsString :=
  let namespaceBytes : Bytes := [0x90, 0xb5, 0x5e, 0xca, 0x28, 0x27, 0x5f, 0x34, 0xa1, 0x9c, 0xdf,
    0xbc, 0x4d, 0x83, 0x73, 0xe0]
  let digest := (sha1.digest (namespaceBytes ++
    utf8Encode (ownershipDigest ++ js "/" ++ js kind.name))).take 16
  let hex := hexText ((digest.modify 6 fun b ↦ b &&& 15 ||| 80).modify 8 fun b ↦ b &&& 63 ||| 128)
  hex.take 8 ++ js "-" ++ (hex.drop 8).take 4 ++ js "-" ++ (hex.drop 12).take 4 ++ js "-" ++
    (hex.drop 16).take 4 ++ js "-" ++ hex.drop 20

def resourceId (r : Ownership) : Kind → JsString
  | .instances => r.instanceId
  | .disks => r.diskId

def deleteUrl (sha1 : HashFunction 20) (r : Ownership) (kind : Kind) : JsString :=
  kind.url ++ js "/" ++ resourceId r kind ++ js "?requestId=" ++
    requestId sha1 r.ownershipDigest kind

inductive OperationStatus
  | pending
  | running
  | done
  deriving DecidableEq

structure Operation where
  id : JsString
  name : JsString
  status : OperationStatus

private def operationStatus (value : JsValue) : Option OperationStatus :=
  if isPlain value "PENDING" then some .pending
  else if isPlain value "RUNNING" then some .running
  else if isPlain value "DONE" then some .done
  else none

/-- `^[A-Za-z0-9][A-Za-z0-9_-]{0,255}$` -/
def isOperationName (s : JsString) : Bool :=
  s.head?.any isAlphanumeric && s.all (isAlphanumericOr "_-") && decide (s.length ≤ 256)

def operationUrl (name : JsString) : JsString := base ++ js "/operations/" ++ name

def operation (response : JsValue) (kind : Kind) (r : Ownership) (previous : Option Operation) :
    Except Unit Operation := do
  reject (object response = false ∨ time (field response "status") ≠ some 200) ()
  let body ← orThrow ((text (field response "body")).filter fun s ↦
    decide (byteLength s ≤ 65536)) ()
  let op ← orThrow (jsonParse body) ()
  reject (object op = false ∨ isPlain (field op "kind") "compute#operation" = false) ()
  let id ← orThrow (idText (field op "id")) ()
  let name ← orThrow ((text (field op "name")).filter isOperationName) ()
  reject (text (field op "selfLink") ≠ some (operationUrl name) ∨
    text (field op "zone") ≠ some base ∨ isPlain (field op "operationType") "delete" = false ∨
    text (field op "targetId") ≠ some (resourceId r kind) ∨
    text (field op "targetLink") ≠ some (kind.url ++ js "/" ++ r.instanceName)) ()
  let status ← orThrow (operationStatus (field op "status")) ()
  reject (["error", "warnings", "httpErrorStatusCode", "httpErrorMessage"].any (hasOwn op) = true)
    ()
  reject (previous.any (fun before ↦ decide (id ≠ before.id ∨ name ≠ before.name ∨
    (before.status = .running ∧ status = .pending))) = true) ()
  return ⟨id, name, status⟩

/-! ### The rehearsal -/

inductive AttemptOutcome
  | indeterminate
  | notFound
  | operationDone
  deriving DecidableEq

structure Attempt where
  resource : Kind
  resourceId : JsString
  outcome : AttemptOutcome

inductive Status
  | blocked (reason : BlockedReason)
  | absenceObserved
  | waiting
  | resourceStillPresent
  | protocolIncomplete
  deriving DecidableEq

/-- The result, without the members that are the same in every one. -/
structure Result where
  status : Status
  planDigest : JsString
  ownershipDigest : JsString
  deleteAt : ℤ
  startedAt : ℤ
  completedAt : ℤ
  attempts : List Attempt

/-- What the arguments fix for one run. -/
structure Context where
  sha1 : HashFunction 20
  sha256 : HashFunction 32
  dateParse : DateParser
  planJson : JsValue
  ownershipJson : JsValue
  reason : String
  timeoutMs : ℤ
  plan : TrialPlan
  ownership : Ownership
  startedAt : ℤ

/-- What changes during the run. -/
structure State where
  lastTime : ℤ
  timedOut : Bool
  attempts : List Attempt

/-- The arguments are refused, or the run stops in a state. -/
inductive Stop
  | refused
  | incomplete (s : State)

abbrev Program (α : Type) := Prog Op Answer Stop α

variable (c : Context)

/-- The clock has not gone back, and the time is not over. -/
def inTime (s : State) (value : Option ℤ) : Bool :=
  value.any fun v ↦
    isTime v && decide (s.lastTime ≤ v ∧ v - c.startedAt ≤ c.timeoutMs) && !s.timedOut

def check (s : State) : Program State := do
  let value ← perform (.now : Op)
  ensure (inTime c s value = true) (Stop.incomplete s)
  return { s with lastTime := value.getD 0 }

/-- What follows an awaited call: it has thrown, or the clock and the timeout are checked again. -/
def settle (s : State) (answer : Awaited) : Program (JsValue × State) := do
  let s := { s with timedOut := answer.timedOut }
  let value ← lift (orThrow answer.value (.incomplete s))
  let s ← check c s
  return (value, s)

/-- The decision over one inventory, asked for at `requestedAt`. -/
def decideRead (json : JsValue) (requestedAt nowMs : ℤ) : Except String Decision := do
  let inventory ← validateTrialInventory c.dateParse json nowMs
  reject (inventory.observedAt < requestedAt) ""
  let decision ← decideCleanup c.sha256 c.dateParse c.planJson c.ownershipJson json nowMs c.reason
  return if inventory.instances.any fun vm ↦ decide (vm.id ≠ c.ownership.instanceId) &&
      vm.disks.any (·.any (hasSource (diskUrl c.ownership.diskName))) then
    .blocked .diskAttachedElsewhere none else decision

def read (s : State) : Program (Decision × State) := do
  let requested ← check c s
  let answer ← perform (.readInventory : Op)
  let (json, s) ← settle c requested answer
  let decision ← lift (rethrow (decideRead c json requested.lastTime s.lastTime) (.incomplete s))
  return (decision, s)

def request (s : State) (method : Method) (url : JsString) : Program (JsValue × State) := do
  let s ← check c s
  let answer ← perform (.transport ⟨method, url⟩ : Op)
  settle c s answer

private def withOutcome (s : State) (kind : Kind) (outcome : AttemptOutcome) : State :=
  { s with
    attempts := s.attempts.map fun a ↦ if a.resource = kind then { a with outcome } else a }

/-- At most `polls` more polls of an operation that is not done. -/
def poll (kind : Kind) : ℕ → Operation → State → Program State
  | polls, op, s =>
    if op.status = .done then pure s
    else
      match polls with
      | 0 => throw (.incomplete s)
      | polls + 1 => do
        let s ← check c s
        let answer ← perform (.wait : Op)
        let (_, s) ← settle c s answer
        let (response, s) ← request c s .get (operationUrl op.name)
        let op ← lift (rethrow (operation response kind c.ownership (some op)) (.incomplete s))
        poll kind polls op s

def remove (kind : Kind) (s : State) : Program State := do
  let s := { s with
    attempts := s.attempts ++ [⟨kind, resourceId c.ownership kind, .indeterminate⟩] }
  let (response, s) ← request c s .delete (deleteUrl c.sha1 c.ownership kind)
  if object response = true ∧ time (field response "status") = some 404 then
    return withOutcome s kind .notFound
  else do
    let op ← lift (rethrow (operation response kind c.ownership none) (.incomplete s))
    let s ← poll c kind 5 op s
    return withOutcome s kind .operationDone

def result (s : State) (status : Status) : Result where
  status := status
  planDigest := c.plan.planDigest
  ownershipDigest := c.ownership.ownershipDigest
  deleteAt := c.plan.deleteAt
  startedAt := c.startedAt
  completedAt := s.lastTime
  attempts := s.attempts

def Decision.status : Decision → Status
  | .blocked reason _ => .blocked reason
  | .absenceObserved => .absenceObserved
  | .waiting => .waiting

/-- Nothing but the generation of the resource stands against its deletion. -/
def isUnverified (decision : Decision) : Bool :=
  decision matches .blocked .generationSafeDeleteUnverified _

def mayDelete (decision : Decision) (kind : Kind) : Bool :=
  decide (decision = .blocked .generationSafeDeleteUnverified (some kind))

/-- The kinds that are left to look at, with the decision of the last read. -/
def visit : List Kind → Decision → State → Program Result
  | [], decision, s => pure (result c s (Decision.status decision))
  | kind :: kinds, decision, s => do
    if isUnverified decision = false then return result c s (Decision.status decision)
    else if mayDelete decision kind = true then do
      let s ← remove c kind s
      let (decision, s) ← read c s
      if mayDelete decision kind = true then return result c s .resourceStillPresent
      else visit kinds decision s
    else visit kinds decision s

def run (s : State) : Program Result := do
  let (decision, s) ← read c s
  visit c [.instances, .disks] decision s

/-- When the timeout fires first the outcome is the same as when a call fails: the next check of
the run, which is still there, fails too. -/
def incompleteOr (stop : Stop) : Program Result :=
  match stop with
  | .refused => throw .refused
  | .incomplete s => pure (result c s .protocolIncomplete)

/-- What follows the validation of the arguments. -/
def rehearse : Program Result :=
  (run c ⟨c.startedAt, false, []⟩).recover (incompleteOr c)

def rehearseTrialCleanup (sha1 : HashFunction 20) (sha256 : HashFunction 32)
    (dateParse : DateParser) (planJson ownershipJson : JsValue) (reason : String)
    (timeoutMs : ℤ) : Program Result := do
  ensure (1 ≤ timeoutMs ∧ timeoutMs ≤ 20000 ∧ reason ∈ cleanupReasons) Stop.refused
  let value ← perform (.now : Op)
  let startedAt ← lift (orThrow value .refused)
  let (plan, ownership) ← lift (rethrow
    (validateTrialOwnership sha256 planJson ownershipJson startedAt) .refused)
  rehearse ⟨sha1, sha256, dateParse, planJson, ownershipJson, reason, timeoutMs, plan, ownership,
    startedAt⟩

end ApiMigrator.Ops.CleanupProtocol
