import ApiMigrator.Engine.TscOutput
import ApiMigrator.Foundation.CanonicalForm
import ApiMigrator.Foundation.JsonText
import ApiMigrator.Runner.Filesystem

/-!
`verifier.ts`: the inspection of what `tsc --showConfig` prints, before a migrated repository is
type-checked. Every required source has to be selected and checked. Comments that turn checking off
are looked for line by line, with exactly two slashes; the compiler reads them among the leading
comments of a file, with two or three slashes and any white space behind them.
-/

set_option autoImplicit false
set_option relaxedAutoImplicit false

namespace ApiMigrator.Engine.Verifier

open Foundation.Text Foundation.Number Foundation.Json Foundation.Outcome Foundation.Pattern
open App.Artifact (Path joinSlash)
open Runner.Filesystem (resolveComponent)

/-! ### Paths -/

def replaceBackslashes (file : JsString) : JsString := file.map fun c ↦ if c = 0x5c then 0x2f else c

/-- `replace(/^\.\//, "")` -/
def stripDotSlash (file : JsString) : JsString :=
  if startsWith file "./" = true then file.drop 2 else file

/-- `^[A-Za-z]:\/` -/
def namesDrive : JsString → Bool
  | letter :: colon :: slash :: _ =>
    (isLowerLetter letter || isUpperLetter letter) && decide (colon = 0x3a ∧ slash = 0x2f)
  | _ => false

def normalizeRepositoryPath (file : JsString) : Option JsString :=
  let normalized := stripDotSlash (replaceBackslashes file)
  if normalized = [] ∨ startsWith normalized "/" = true ∨ namesDrive normalized = true then none
  else if (splitSlash normalized).any
      (fun part ↦ decide (part = [] ∨ part = js "." ∨ part = js "..")) = true then none
  else some (joinSlash (splitSlash normalized))

/-- How many components two paths share at their start. -/
def sharedLength : Path → Path → ℕ
  | a :: p, b :: q => if a = b then sharedLength p q + 1 else 0
  | _, _ => 0

/-- `relative(repoPath, file)` of an absolute file -/
def relative (repoPath : Path) (file : JsString) : JsString :=
  let target := (splitSlash file).foldl resolveComponent []
  let shared := sharedLength repoPath target
  joinSlash (List.replicate (repoPath.length - shared) (js "..") ++ target.drop shared)

/-! ### The inspection -/

/-- One inspection: the repository, the runner, what the compiler printed, whether the digests of
the repository before and after are equal, the required files and what reading one gives. -/
structure ConfigInspection where
  repoPath : Path
  isDocker : Bool
  execPath : JsString
  raw : RunnerResult
  unmodified : Bool
  requiredFiles : List JsString
  readRepositoryText : JsString → Except JsString JsString

/-- How an inspection stops: with a reason that it returns, or with an error that it throws. -/
inductive Stop
  | refused (reason : JsString)
  | thrown (error : JsString)

variable (inspected : ConfigInspection)

def compilerSelectedFile (file : JsString) : Option JsString :=
  if startsWith file "/" = true then
    match normalizeRepositoryPath (replaceBackslashes (relative inspected.repoPath file)) with
    | some normalizedHostPath => some normalizedHostPath
    | none =>
      if inspected.isDocker = true ∧ startsWith (replaceBackslashes file) "/workspace/" = true then
        normalizeRepositoryPath ((replaceBackslashes file).drop 11)
      else none
  else normalizeRepositoryPath file

/-- `config.compilerOptions?.[key]` -/
def compilerOption (config : List Member) (key : String) : JsValue :=
  match getMember config (js "compilerOptions") with
  | .obj options => getMember options (js key)
  | _ => .exotic .undefined

/-- `=== true` -/
def isTrue : JsValue → Bool
  | .bool b => b
  | _ => false

/-- What stands between tokens for the compiler, comments aside. -/
def isTrivia (c : UInt16) : Bool := isSpace c || decide (c = 0x85 ∨ c = 0x200b)

/-- Where the scan of the leading comments stands. -/
inductive Scan
  | between
  | line (comment : JsString)
  | block

/-- The single-line comments before the first token. -/
def scanComments : Scan → JsString → List JsString
  | .between, 0x2f :: 0x2f :: rest => scanComments (.line (js "//")) rest
  | .between, 0x2f :: 0x2a :: rest => scanComments .block rest
  | .between, c :: rest => if isTrivia c = true then scanComments .between rest else []
  | .line comment, c :: rest =>
    if isLineTerminator c = true then comment :: scanComments .between rest
    else scanComments (.line (comment ++ [c])) rest
  | .line comment, [] => [comment]
  | .block, 0x2a :: 0x2f :: rest => scanComments .between rest
  | .block, _ :: rest => scanComments .block rest
  | _, [] => []

/-- A first line that starts with `#!` is no part of the program. -/
def withoutShebang (source : JsString) : JsString :=
  if startsWith source "#!" = true then source.dropWhile fun c ↦ !isLineTerminator c else source

def leadingComments (source : JsString) : List JsString :=
  scanComments .between (withoutShebang source)

/-- `^\/\/\/?\s*@ts-nocheck`, before the end, white space or a colon. -/
def isNoCheckComment (comment : JsString) : Bool :=
  startsWith comment "//" &&
    let text := comment.drop 2
    let text := (if text.head? = some 0x2f then text.tail else text).dropWhile isSpace
    startsWith text "@ts-nocheck" &&
      (text.drop 11).head?.all fun c ↦ isSpace c || decide (c = 0x3a)

/-- TypeScript reports no errors of the file. -/
def isSkipped (source : JsString) : Bool := (leadingComments source).any isNoCheckComment

variable {inspected : ConfigInspection}

/-- A path whose extension is one of JavaScript's. -/
def IsJavaScriptFile (path : JsString) : Prop :=
  endsWith path ".js" = true ∨ endsWith path ".jsx" = true ∨ endsWith path ".mjs" = true ∨
    endsWith path ".cjs" = true

def IsDeclarationFile (path : JsString) : Prop :=
  endsWith path ".d.ts" = true ∨ endsWith path ".d.mts" = true ∨ endsWith path ".d.cts" = true

/-- The compiler checks the required file, by the configuration that it has printed. -/
structure Checked (inspected : ConfigInspection) (config : List Member) (required : JsString) :
    Prop where
  selected : ∃ path, ∃ files : List JsString, normalizeRepositoryPath required = some path ∧
    getMember config (js "files") = .arr (files.map .str) ∧
      path ∈ files.filterMap (compilerSelectedFile inspected)
  noCheck : isTrue (compilerOption config "noCheck") = false
  checkJs : ∀ path, normalizeRepositoryPath required = some path → IsJavaScriptFile path →
    isTrue (compilerOption config "checkJs") = true
  declarations : ∀ path, normalizeRepositoryPath required = some path → IsDeclarationFile path →
    isTrue (compilerOption config "skipLibCheck") = false
  source : ∀ path text, normalizeRepositoryPath required = some path →
    inspected.readRepositoryText path = .ok text → isSkipped text = false

def sampleConfig : List Member := [(js "files", .arr [.str (js "a.ts")])]

end ApiMigrator.Engine.Verifier
