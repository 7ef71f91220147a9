import ApiMigrator.Foundation.Regex
import ApiMigrator.Foundation.PaddedBase64
import ApiMigrator.Foundation.JsonSize
import ApiMigrator.Foundation.Binary

/-!
`gcp-trial/batch-bootstrap.mjs`: the log of a batch worker as the guest writes it to its console.
The bytes go out in chunks of 3072, each a line of its own, and one last line sums them up.
-/

set_option autoImplicit false
set_option relaxedAutoImplicit false

namespace ApiMigrator.Ops.BatchLog

open Foundation Foundation.Text Foundation.Number Foundation.Json Foundation.Outcome
open Foundation.Pattern Foundation.Binary Foundation.Regex Foundation.Base64

/-! ### The summary of the test runner -/

def summaryNames : List String := ["tests", "pass", "fail", "cancelled", "skipped", "todo"]

/-- `^# (tests|pass|fail|cancelled|skipped|todo)\b` -/
def summaryStart : Regex :=
  sequence [lit false "# ", choice (summaryNames.map (lit false)), .boundary]

/-- `0|[1-9][0-9]*` -/
def isCount (s : JsString) : Bool :=
  decide (s = js "0") || (s.all isDigit && s.head?.any fun c ↦ decide (c ≠ 0x30))

/-- `^# (tests|pass|fail|cancelled|skipped|todo) (0|[1-9][0-9]*)$` -/
def summaryOf (line : JsString) : Option (String × ℕ) :=
  summaryNames.findSome? fun name ↦
    let start := js "# " ++ js name ++ js " "
    let count := line.drop start.length
    if start.isPrefixOf line && isCount count then some (name, digitsValue count) else none

/-- `#\s*word\b`, in either case. -/
def mark (word : String) : Regex :=
  sequence [lit false "#", .many isSpace 0 none true, lit true word, .boundary]

def isSafeCount (n : ℕ) : Bool := isSafe n

structure Summary where
  counts : List (String × ℕ)
  skipLines : List JsString

/-- One line of the output; `none` is a verdict against it. -/
def readLine (s : Summary) (line : JsString) : Option Summary := do
  let counts ← if matchesStart summaryStart line then do
      let summary ← summaryOf line
      if summary.1 ∈ s.counts.map Prod.fst then none
      else if isSafeCount summary.2 then some (s.counts ++ [summary]) else none
    else some s.counts
  let skipLines := if search (mark "skip") line then s.skipLines ++ [line] else s.skipLines
  if search (mark "todo") line && !(summaryOf line).any (decide <| ·.1 = "todo") then none
  else some ⟨counts, skipLines⟩

def skippedTest : String :=
  " - Docker runner performs an install then an offline typecheck # SKIP"

/-- `^ok ([1-9][0-9]*) - Docker runner performs an install then an offline typecheck # SKIP$` -/
def namedSkip (line : JsString) : Option ℕ :=
  let number := (line.drop 3).take (line.length - 3 - (js skippedTest).length)
  if startsWith line "ok " && endsWith line skippedTest &&
      decide (line = js "ok " ++ number ++ js skippedTest) && isCount number &&
      decide (number ≠ js "0") then
    some (digitsValue number)
  else none

def Summary.count (s : Summary) (name : String) : ℕ := (s.counts.lookup name).getD 0

def Summary.isPassing (s : Summary) : Bool :=
  decide (s.counts.length = 6 ∧ 0 < s.count "pass" ∧ s.count "fail" = 0 ∧
    s.count "cancelled" = 0 ∧ s.count "todo" = 0 ∧ s.count "skipped" ≤ 1 ∧
    s.count "tests" = s.count "pass" + s.count "skipped" ∧
    s.skipLines.length = s.count "skipped") &&
  (decide (s.count "skipped" ≠ 1) || (s.skipLines.head?.bind namedSkip).any fun n ↦
    isSafeCount n && decide (n ≤ s.count "tests"))

def hasBatchSmokeSummary (output : JsString) : Bool :=
  ((output.splitOn 0x0a).foldlM readLine ⟨[], []⟩).any Summary.isPassing

/-! ### The encoder -/

structure Context where
  runId : JsString
  sourceRevision : JsString
  sourceArchiveSha256 : JsString
  phase : JsString
  exitCode : ℤ

def logMarker : String := "API_MIGRATOR_BATCH_LOG"

def resultMarker : String := "API_MIGRATOR_BATCH_RESULT"

def chunkCount (bytes : Bytes) : ℕ := (bytes.length + 3071) / 3072

/-- `bytes.subarray(3072 * index, 3072 * index + 3072)` -/
def chunk (bytes : Bytes) (index : ℕ) : Bytes := (bytes.drop (3072 * index)).take 3072

def chunkRecord (runId : JsString) (index : ℕ) (data : Bytes) : JsValue :=
  .obj [(js "runId", .str runId), (js "index", .num (.int index)), (js "data", .str (base64 data))]

def chunkLine (runId : JsString) (index : ℕ) (data : Bytes) : JsString :=
  js logMarker ++ js " " ++ compactText (chunkRecord runId index data)

def passed (bytes : Bytes) (context : Context) : Bool :=
  decide (context.exitCode = 0 ∧ context.phase = js "complete") &&
    hasBatchSmokeSummary (utf8Decode bytes)

def resultRecord (H : HashFunction 32) (bytes : Bytes) (context : Context) : JsValue :=
  .obj [(js "schemaVersion", .num (.int 1)), (js "profile", .str (js "batch-engine-smoke-v1")),
    (js "runId", .str context.runId), (js "sourceRevision", .str context.sourceRevision),
    (js "sourceArchiveSha256", .str context.sourceArchiveSha256),
    (js "phase", .str context.phase), (js "exitCode", .num (.int context.exitCode)),
    (js "status", .str (if passed bytes context then js "passed" else js "failed")),
    (js "logBytes", .num (.int bytes.length)), (js "logChunks", .num (.int (chunkCount bytes))),
    (js "logSha256", .str (H.hex bytes)), (js "activationBlocked", .bool true)]

def resultLine (H : HashFunction 32) (bytes : Bytes) (context : Context) : JsString :=
  js resultMarker ++ js " " ++ compactText (resultRecord H bytes context)

def chunkLines (runId : JsString) (bytes : Bytes) : List JsString :=
  (List.range (chunkCount bytes)).map fun i ↦ chunkLine runId i (chunk bytes i)

def encodeBatchLog (H : HashFunction 32) (bytes : Bytes) (context : Context) :
    Except String (List JsString) := do
  reject (4194304 < bytes.length) "worker log too large"
  return chunkLines context.runId bytes ++ [resultLine H bytes context]

end ApiMigrator.Ops.BatchLog
