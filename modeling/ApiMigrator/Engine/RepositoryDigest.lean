import ApiMigrator.App.VerifiedArtifact
import ApiMigrator.Foundation.FileTree
import ApiMigrator.Foundation.Framing

/-!
`verifier.ts`: the digest by which the verifier notices that a compiler, a test or a lint process
has changed the repository. Every entry is fed to the hash as fields that end with a NUL, the
contents of a file among them without their length. The messages leave out the path they end with.
-/

set_option autoImplicit false
set_option relaxedAutoImplicit false

namespace ApiMigrator.Engine.RepositoryDigest

open Foundation.Text Foundation.Number Foundation.Outcome Foundation.Pattern Foundation.Binary
open Foundation.FileTree Foundation.Framing
open App.Artifact (Path IsPath joinSlash pathText pathText_eq mem_joinSlash isName)

/-- What is not a directory: a mode is `stat.mode`, a target its bytes. -/
inductive Leaf
  | file (mode : ℕ) (bytes : Bytes)
  | symlink (target : Bytes)
  | special
  deriving DecidableEq

/-- What a directory holds, as `readdir` lists it; each directory below it has its `stat.mode`. -/
abbrev Directory := Listing JsString ℕ Leaf

abbrev Entry := Node JsString ℕ Leaf

def maxPackageManifestBytes : ℕ := 1024 * 1024

def maxRootLockfileBytes : ℕ := 32 * 1024 * 1024

def rootLockfiles : List JsString :=
  ["package-lock.json", "npm-shrinkwrap.json", "pnpm-lock.yaml", "yarn.lock", "bun.lock",
    "bun.lockb"].map js

def isRootLockfileName (name : JsString) : Bool := decide (name ∈ rootLockfiles)

/-- `readRepositoryFile` of a regular file that the walk has met: its path is checked again, and
its size. -/
def readRepositoryFile (path : JsString) (bytes : Bytes) (label : String) (maxBytes : ℕ) :
    Except String Bytes := do
  reject (path = [] ∨ startsWith path "/" = true ∨ 0 ∈ path) s!"Invalid {label} path"
  reject ((splitSlash path).any (fun part ↦ decide (part = [] ∨ part = js "." ∨ part = js "..")) =
    true) s!"Invalid {label} path"
  reject (maxBytes < bytes.length) s!"{label} exceeds {maxBytes} bytes"
  return bytes

/-- The fields before the contents of an entry: its type, its path, and its mode or target. -/
def entryFields (type : String) (path field : JsString) : Bytes :=
  utf8Encode (js type ++ 0 :: (path ++ 0 :: (field ++ [0])))

/-- The contents of a file, which the names of manifests and lockfiles bound. -/
def fileContents (p : Path) (bytes : Bytes) : Except String Bytes :=
  if p.getLast? = some (js "package.json") then
    readRepositoryFile (pathText p) bytes "package manifest" maxPackageManifestBytes
  else if isRootLockfileName (pathText p) = true then
    readRepositoryFile (pathText p) bytes "root lockfile" maxRootLockfileBytes
  else .ok bytes

/-- What `repositoryDigest` feeds to the hash for one entry. -/
def hashEntry (e : Path × Entry) : Except String Bytes :=
  let path := pathText e.1
  match e.2 with
  | .directory mode _ => .ok (entryFields "d" path (decimalDigits (mode &&& 0o777)))
  | .leaf (.symlink target) => .ok (entryFields "l" path (utf8Decode target))
  | .leaf (.file mode bytes) => do
    let contents ← fileContents e.1 bytes
    return entryFields "f" path (decimalDigits (mode &&& 0o777)) ++ (contents ++ [0])
  | .leaf .special => .ok []

def isDigestedName (name : JsString) : Bool :=
  decide (name ≠ js ".git" ∧ name ≠ js "node_modules")

/-- `a.localeCompare(b) <= 0` -/
def localeBefore (localeCompare : JsString → JsString → ℤ) (a b : JsString) : Prop :=
  localeCompare a b ≤ 0

instance (localeCompare : JsString → JsString → ℤ) : DecidableRel (localeBefore localeCompare) :=
  fun a b ↦ inferInstanceAs (Decidable (localeCompare a b ≤ 0))

/-- The entries in the order in which they are hashed. -/
def digested (localeCompare : JsString → JsString → ℤ) (entries : Directory) :
    List (Path × Entry) :=
  walk isDigestedName (localeBefore localeCompare) [([], entries)]

def repositoryDigest (H : HashFunction 32) (localeCompare : JsString → JsString → ℤ)
    (entries : Directory) : Except String JsString := do
  let hashed ← mapEach hashEntry (digested localeCompare entries)
  return H.hex hashed.flatten

/-! ### What is compared -/

/-- A tree of directories, regular files and symbolic links: distinct names in every directory,
each of them UTF-8 without a slash, NUL or backslash. No target has a NUL. -/
structure Valid (entries : Directory) : Prop where
  distinct : Distinct entries
  names : ∀ p node, At entries p node → ∀ name ∈ p,
    isName name = true ∧ isWellFormed name = true ∧ (0x5c : UInt16) ∉ name
  plain : ∀ p, ¬ At entries p (.leaf .special)
  targets : ∀ p target, At entries p (.leaf (.symlink target)) → (0 : UInt16) ∉ utf8Decode target

/-- What the verifier watches of an entry: type, permission bits, bytes and target. -/
inductive Item
  | directory (permissions : ℕ)
  | file (permissions : ℕ) (bytes : Bytes)
  | symlink (target : Bytes)
  | special

def itemOf : Entry → Item
  | .directory mode _ => .directory (mode &&& 0o777)
  | .leaf (.file mode bytes) => .file (mode &&& 0o777) bytes
  | .leaf (.symlink target) => .symlink target
  | .leaf .special => .special

/-- The trees agree on every path outside Git metadata and installed dependencies. -/
abbrev SameTree (entries entries' : Directory) : Prop := Agree isDigestedName itemOf entries entries'

/-- The sizes of the files in the order in which they are hashed. -/
def fileSizes (localeCompare : JsString → JsString → ℤ) (entries : Directory) : List ℕ :=
  (digested localeCompare entries).filterMap fun e ↦
    match e.2 with
    | .leaf (.file _ bytes) => some bytes.length
    | _ => none

/-- No link of the trees has two targets that are read alike. -/
def TargetsReadApart (entries entries' : Directory) : Prop :=
  ∀ p target target', Kept isDigestedName entries p (.leaf (.symlink target)) →
    Kept isDigestedName entries' p (.leaf (.symlink target')) →
      utf8Encode (utf8Decode target) = utf8Encode (utf8Decode target') → target = target'

/-- What the bytes of the digest are made of, where no file is refused. -/
def entryBytes (e : Path × Entry) : Bytes :=
  match e.2 with
  | .directory mode _ => entryFields "d" (pathText e.1) (decimalDigits (mode &&& 0o777))
  | .leaf (.symlink target) => entryFields "l" (pathText e.1) (utf8Decode target)
  | .leaf (.file mode bytes) =>
    entryFields "f" (pathText e.1) (decimalDigits (mode &&& 0o777)) ++ (bytes ++ [0])
  | .leaf .special => []

/-- What is hashed of a repository. -/
def repositoryBytes (localeCompare : JsString → JsString → ℤ) (entries : Directory) : Bytes :=
  (digested localeCompare entries).flatMap entryBytes

end ApiMigrator.Engine.RepositoryDigest
