import ApiMigrator.Engine.DependencySpecs
import ApiMigrator.Foundation.CanonicalForm
import ApiMigrator.Runner.TreeDigests

/-!
`verifier.ts`: the check that a repository only installs from the registry. Every `package.json`
outside the directories that are skipped is read, its four dependency sections and its overrides are
checked spec by spec. npm loads the manifests of the root and of the workspaces: where all of them
are visited and no spec ends like a tarball, the check is sound.
-/

set_option autoImplicit false
set_option relaxedAutoImplicit false

namespace ApiMigrator.Engine.DependencyTrust

open Foundation.Text Foundation.Number Foundation.Json Foundation.Outcome Foundation.Pattern
open Foundation.Binary Foundation.FileTree
open App.Artifact (Path joinSlash pathText pathText_eq)

/-! ### Repositories -/

/-- What is no directory. -/
inductive Leaf
  | file (bytes : Bytes)
  | other

abbrev Directory := Listing JsString Unit Leaf

abbrev Entry := Node JsString Unit Leaf

/-- A repository with the install options, the outcome of `typescriptConfigurationTrustFailure`
(`some` is a failure or the message of an error), which files `existsSync` finds in the root, and
what `readRepositoryText` gives for a path. -/
structure Repository where
  entries : Directory
  installArgs : List JsString
  compilerFailure : Option JsString
  existsSync : JsString → Bool
  readRepositoryText : JsString → Except JsString JsString

/-- A member of a value that may be no object. -/
def memberOf (value : JsValue) (key : String) : JsValue :=
  match value with
  | .obj ms => getMember ms (js key)
  | _ => .exotic .undefined

mutual

def overrideTreeTrustFailure (source selector : JsString) : JsValue → Option JsString
  | .str value =>
    if isDirectNetworkDependency value = true ∨ isOfficialRegistryDependencySpec value = false then
      some (js "non-registry " ++ source ++ js " value is not allowed at " ++ selector ++ js ": " ++
        compactText (.str value))
    else none
  | .obj members => overrideMembersFailure source selector members
  | _ => some (source ++ js " must contain only registry dependency specifications at " ++ selector)

def overrideMembersFailure (source selector : JsString) : List Member → Option JsString
  | [] => none
  | (key, nested) :: members =>
    match overrideTreeTrustFailure source (selector ++ js "." ++ key) nested with
    | some failure => some failure
    | none => overrideMembersFailure source selector members

end

variable (repo : Repository)

/-- A failure that is returned, as an error. -/
def orFail : Option JsString → Except JsString Unit
  | some failure => .error failure
  | none => .ok ()

variable {repo : Repository}

def sampleManifest (spec : JsString) : JsValue :=
  .obj [(js "dependencies", .obj [(js "x", .str spec)])]

def sampleBytes (spec : JsString) : Bytes := utf8Encode (compactText (sampleManifest spec))

variable {spec : JsString}

end ApiMigrator.Engine.DependencyTrust
