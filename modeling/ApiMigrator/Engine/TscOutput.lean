import ApiMigrator.Foundation.Pattern

/-!
`verifier.ts`: one run of the TypeScript compiler and the reading of its output. Three scans go over
the lines: one collects the located diagnostics, one looks for diagnostics without a file, and one
looks for lines that are neither. A run whose output is not read completely is reported as skipped.
-/

set_option autoImplicit false
set_option relaxedAutoImplicit false

namespace ApiMigrator.Engine.Verifier

open Foundation.Text Foundation.Number Foundation.Pattern

/-! ### Results -/

inductive CheckStatus
  | passed
  | failed
  | skipped
  deriving DecidableEq

structure CheckResult where
  status : CheckStatus
  command : Option JsString
  exitCode : Option ℤ
  output : JsString
  reason : Option JsString
  deriving DecidableEq

structure VerificationChecks where
  install : CheckResult
  typecheck : CheckResult
  repoTypecheck : Option CheckResult
  test : CheckResult
  lint : CheckResult
  runtime : Option CheckResult
  deriving DecidableEq

structure RunnerResult where
  exitCode : Option ℤ
  stdout : JsString
  stderr : JsString
  spawnError : Option JsString
  timedOut : Bool

/-- The fields by which errors are compared. -/
structure Diagnostic where
  file : JsString
  line : Option JsNumber
  col : Option JsNumber
  code : JsString
  message : JsString
  deriving DecidableEq

structure TypeError extends Diagnostic where
  raw : JsString
  deriving DecidableEq

structure VerifyResult where
  ok : Bool
  baseline : List TypeError
  after : List TypeError
  introduced : List TypeError
  skipped : Bool
  skipReason : Option JsString
  runner : JsString
  checks : VerificationChecks
  deriving DecidableEq

/-! ### Lines -/

/-- `split(/\r?\n/)` -/
def splitLines : JsString → List JsString
  | [] => [[]]
  | c :: rest =>
    if c = 0x0a then [] :: splitLines rest
    else if c = 0x0d ∧ rest.head? = some 0x0a then splitLines rest
    else
      match splitLines rest with
      | line :: lines => (c :: line) :: lines
      | [] => [[c]]

def isBlank (line : JsString) : Bool := decide (trim line = [])

/-- `^[\t ]+\S` -/
def isContinuation (line : JsString) : Bool :=
  let indented (c : UInt16) : Bool := decide (c = 0x09 ∨ c = 0x20)
  line.head?.any indented && (line.dropWhile indented).head?.any fun c ↦ !isSpace c

/-- What `.` does not match. -/
def isLineTerminator (c : UInt16) : Bool := decide (c ∈ [0x0a, 0x0d, 0x2028, 0x2029])

def readText (p : String) (s : JsString) : Option JsString :=
  if startsWith s p = true then some (s.drop (js p).length) else none

/-- `\s+` -/
def readSpaces (s : JsString) : Option JsString :=
  if s.head?.any isSpace = true then some (s.dropWhile isSpace) else none

/-- `(\d+)` -/
def readDigits (s : JsString) : Option (JsString × JsString) :=
  if s.head?.any isDigit = true then some (s.takeWhile isDigit, s.dropWhile isDigit) else none

/-- `(TS\d+):\s+(.*)$`, of which the code and the message. -/
def readCode (s : JsString) : Option (JsString × JsString) := do
  let (digits, rest) ← (readText "TS" s).bind readDigits
  let message ← (readText ":" rest).bind readSpaces
  if message.any isLineTerminator = true then none else some (js "TS" ++ digits, message)

/-- `\((\d+),(\d+)\):\s+error\s+(TS\d+):\s+(.*)$` -/
def readLocation (s : JsString) : Option (JsString × JsString × JsString × JsString) := do
  let (line, rest) ← (readText "(" s).bind readDigits
  let (col, rest) ← (readText "," rest).bind readDigits
  let rest ← (readText "):" rest).bind readSpaces
  let rest ← (readText "error" rest).bind readSpaces
  let (code, message) ← readCode rest
  return (line, col, code, message)

/-- `Number(text)` of decimal digits. -/
def numberOfDigits (ds : JsString) : JsNumber := toDouble false (digitsValue ds) 1

/-- The error of a line that `TS_ERROR` matches: the file is the shortest text before a location. -/
def tsError (line : JsString) : Option TypeError :=
  (List.range line.length).findSome? fun i ↦
    let file := line.take (i + 1)
    if file.any isLineTerminator = true then none
    else
      (readLocation (line.drop (i + 1))).map fun (row, col, code, message) ↦
        { file, line := some (numberOfDigits row), col := some (numberOfDigits col), code, message,
          raw := line }

/-- The code of a line that `TS_GLOBAL_ERROR` matches. -/
def tsGlobalError (line : JsString) : Option JsString :=
  (((readText "error" line).bind readSpaces).bind readCode).map Prod.fst

/-! ### The scans -/

def TypeError.extend (e : TypeError) (line : JsString) : TypeError :=
  { e with message := e.message ++ 0x0a :: line, raw := e.raw ++ 0x0a :: line }

/-- The errors from here on, given the one that an indented line would belong to. -/
def parseLines : Option TypeError → List JsString → List TypeError
  | current, [] => current.toList
  | current, line :: lines =>
    match tsError line, current with
    | some e, _ => current.toList ++ parseLines (some e) lines
    | none, some e =>
      if isContinuation line = true then parseLines (some (e.extend line)) lines
      else if isBlank line = true then parseLines (some e) lines
      else e :: parseLines none lines
    | none, none => parseLines none lines

def parseTscErrors (output : JsString) : List TypeError := parseLines none (splitLines output)

def globalTscErrorCodes (output : JsString) : List JsString :=
  ((splitLines output).filterMap tsGlobalError).eraseDups

def hasUnclassifiedLine : Bool → List JsString → Bool
  | _, [] => false
  | insideDiagnostic, line :: lines =>
    if isBlank line = true then hasUnclassifiedLine insideDiagnostic lines
    else if (tsError line).isSome = true ∨ (tsGlobalError line).isSome = true then
      hasUnclassifiedLine true lines
    else if insideDiagnostic = true ∧ isContinuation line = true then
      hasUnclassifiedLine insideDiagnostic lines
    else true

def hasUnclassifiedTscOutput (stdout stderr : JsString) : Bool :=
  decide (trim stderr ≠ []) || hasUnclassifiedLine false (splitLines stdout)

/-- `\.json$`, in any case. -/
def namesJson (file : JsString) : Bool :=
  endsWith (asciiLower (file.map fun c ↦ if c = 0x5c then 0x2f else c)) ".json"

def configurationTscErrorCodes (errors : List TypeError) : List JsString :=
  ((errors.filter fun e ↦ namesJson e.file).map fun e ↦ e.code).eraseDups

/-! ### Checks -/

/-- A text that counts as true. -/
def isGiven (text : Option JsString) : Bool := text.any fun s ↦ decide (s ≠ [])

def maxOutput : ℕ := 24000

def combinedOutput (result : RunnerResult) : JsString :=
  let output := result.stdout ++ result.stderr
  output.drop (output.length - maxOutput)

def skippedCheck (reason : String) : CheckResult where
  status := .skipped
  command := none
  exitCode := none
  output := []
  reason := some (js reason)

def exitText (exitCode : Option ℤ) : JsString := (exitCode.map integerText).getD (js "without status")

def commandCheck (command : JsString) (result : RunnerResult) : CheckResult :=
  let output := combinedOutput result
  let failedCheck (reason : JsString) : CheckResult :=
    ⟨.failed, some command, result.exitCode, output, some reason⟩
  if isGiven result.spawnError = true then
    failedCheck (js "spawn failed: " ++ result.spawnError.getD [])
  else if result.timedOut = true then failedCheck (js "command timed out")
  else if result.exitCode ≠ some 0 then failedCheck (js "command exited " ++ exitText result.exitCode)
  else ⟨.passed, some command, result.exitCode, output, none⟩

def failedVerification (runner : JsString) (checks : VerificationChecks) (reason : JsString) :
    VerifyResult where
  ok := false
  baseline := []
  after := []
  introduced := []
  skipped := true
  skipReason := some reason
  runner := runner
  checks := checks

/-! ### The compiler -/

/-- What was done before the compiler ran: a failed step reports why, with a type check that has
failed or has not been run. -/
inductive Preparation
  | stopped (checks : VerificationChecks) (reason : JsString)
    (notPassed : checks.typecheck.status ≠ .passed)
  | ready (checks : VerificationChecks)

/-- What a run of the compiler meets. -/
structure TscRun where
  runner : JsString
  preparation : Preparation
  command : JsString
  raw : RunnerResult
  cleanupFailed : Bool
  treeChanged : Bool

/-- The first three codes, and whether there are more. -/
def displayedCodes (codes : List JsString) : JsString :=
  List.intercalate (js ", ") (codes.take 3) ++ if 3 < codes.length then js ", …" else []

/-- Why a finished run of the compiler is not trusted. -/
def tscRefusal (run : TscRun) : Option JsString :=
  let raw := run.raw
  let compilerOutput := raw.stdout ++ raw.stderr
  let errors := parseTscErrors compilerOutput
  let globalErrorCodes := globalTscErrorCodes compilerOutput
  let configurationErrorCodes := configurationTscErrorCodes errors
  if run.cleanupFailed = true then
    some (js "verification runner failed to clean compiler temporary storage")
  else if run.treeChanged = true then
    some (js "trusted compiler invocation modified the repository tree")
  else if isGiven raw.spawnError = true then
    some (js "compiler spawn failed: " ++ raw.spawnError.getD [])
  else if raw.timedOut = true then some (js "compiler timed out")
  else
    match raw.exitCode with
    | none => some (js "compiler exited without status")
    | some exitCode =>
      if globalErrorCodes ≠ [] then
        some (js "compiler reported non-file TypeScript diagnostic " ++
          displayedCodes globalErrorCodes ++ js "; type-check result is incomplete")
      else if configurationErrorCodes ≠ [] then
        some (js "compiler reported configuration diagnostic " ++
          displayedCodes configurationErrorCodes ++ js "; type-check result is incomplete")
      else if hasUnclassifiedTscOutput raw.stdout raw.stderr = true then
        some (js "compiler emitted unclassified output; type-check result is incomplete")
      else if exitCode = 0 ∧ errors ≠ [] then
        some (js "compiler exited successfully despite reporting TypeScript errors")
      else if exitCode ≠ 0 ∧ errors = [] then
        some (js "compiler exited " ++ integerText exitCode ++
          js " without parseable TypeScript diagnostics")
      else if exitCode ∉ [0, 1, 2] then
        some (js "compiler exited with unexpected status " ++ integerText exitCode)
      else none

def runTsc (run : TscRun) : VerifyResult :=
  match run.preparation with
  | .stopped checks reason _ => failedVerification run.runner checks reason
  | .ready checks =>
    let errors := parseTscErrors (run.raw.stdout ++ run.raw.stderr)
    let typecheck := commandCheck run.command run.raw
    match tscRefusal run with
    | some reason =>
      failedVerification run.runner
        { checks with typecheck := { typecheck with status := .failed, reason := some reason } } reason
    | none =>
      { ok := decide (run.raw.exitCode = some 0), baseline := [], after := errors,
        introduced := errors, skipped := false, skipReason := none, runner := run.runner,
        checks := { checks with typecheck } }

end ApiMigrator.Engine.Verifier
