import ApiMigrator.App.GitTreeInsertion
import ApiMigrator.App.VerifiedArtifact
import ApiMigrator.Foundation.FileTree
import ApiMigrator.Foundation.Framing

/-!
`filesystem.ts` of the runner: digests of source trees and of installed dependency trees, and the
paths at which two source trees differ. A tree is what `readdir` and `lstat` show below a root. The
messages leave out the path they end with in the source.
-/

set_option autoImplicit false
set_option relaxedAutoImplicit false

namespace ApiMigrator.Runner.Filesystem

open Foundation.Text Foundation.Number Foundation.Json Foundation.Outcome Foundation.Pattern
open Foundation.Binary Foundation.FileTree Foundation.Framing
open App.GitTree (mapSet mem_mapSet mem_keys_mapSet nodup_keys_mapSet)
open App.Artifact (Path joinSlash pathText isName lastOf)

/-! ### Trees -/

/-- What is not a directory: a mode is `stat.mode`, a target its bytes. -/
inductive Leaf
  | file (mode links : ℕ) (bytes : Bytes)
  | symlink (target : Bytes)
  | special
  deriving DecidableEq

/-- What a directory holds; each directory below it has its `stat.mode`. -/
abbrev Directory := Listing JsString ℕ Leaf

abbrev Entry := Node JsString ℕ Leaf

/-- A directory of the host: the components of its path, whether `lstat` and `realpath` find a
directory under exactly this path, what it holds, and which absolute paths exist on the host. -/
structure Root where
  path : Path
  isCanonical : Bool
  entries : Directory
  existsSync : Path → Bool

def maxSourceEntries : ℕ := 50000

def maxSourceBytes : ℕ := 536870912

def maxSourceFileBytes : ℕ := 268435456

def maxDependencyEntries : ℕ := 200000

def maxDependencyBytes : ℕ := 1073741824

def maxDepth : ℕ := 64

structure RegularTreeEntry where
  mode : ℕ
  size : ℕ
  digest : JsString
  deriving DecidableEq

def assertCanonicalDirectory (root : Root) : Except String Unit :=
  reject (root.isCanonical = false) "tree root must be a real canonical directory"

/-- `compareNames(a, b) <= 0` -/
def compareNames (a b : JsString) : Prop := utf8Encode a ≤ utf8Encode b

instance : DecidableRel compareNames :=
  fun a b ↦ inferInstanceAs (Decidable (utf8Encode a ≤ utf8Encode b))

def assertSafeRelativePath (path : JsString) : Except String Unit := do
  reject (path = [] ∨ 0 ∈ path ∨ 0x5c ∈ path ∨ startsWith path "/" = true) "tree path is invalid"
  reject ((splitSlash path).any (fun part ↦ decide (part = [] ∨ part = js "." ∨ part = js "..")) =
    true) "tree path is not normalized"

variable (H : HashFunction 32)

def sha256 (bytes : Bytes) : JsString := js "sha256:" ++ H.hex bytes

/-! ### Source trees -/

def isSourceName (name : JsString) : Bool :=
  decide (name ≠ js ".git" ∧ name ≠ js "node_modules")

/-- The map and the byte count of `collectRegularTree`. -/
structure Collected where
  entries : List (JsString × RegularTreeEntry)
  totalBytes : ℕ

def regularMode (mode : ℕ) : ℕ := if mode &&& 0o111 = 0 then 0o100644 else 0o100755

/-- What `collectRegularTree` does with one entry: it is given the rewritten path. -/
def collectEntry (collected : Collected) (e : Path × Entry) : Except String Collected := do
  let path := pathText e.1
  assertSafeRelativePath path
  reject (maxDepth < (splitSlash path).length) "tree path exceeds depth limit"
  match e.2 with
  | .directory _ _ => return collected
  | .leaf (.file mode links bytes) => do
    reject (links ≠ 1) "tree contains a non-regular entry"
    reject (maxSourceFileBytes < bytes.length) "tree file exceeds size limit"
    let totalBytes := collected.totalBytes + bytes.length
    reject (maxSourceEntries < collected.entries.length + 1 ∨ maxSourceBytes < totalBytes)
      "tree exceeds entry or byte limit"
    return {
      entries := mapSet collected.entries path ⟨regularMode mode, bytes.length, sha256 H bytes⟩
      totalBytes }
  | .leaf _ => throw "tree contains a non-regular entry"

def collectRegularTree (root : Root) : Except String (List (JsString × RegularTreeEntry)) := do
  assertCanonicalDirectory root
  let collected ← (walk isSourceName compareNames [([], root.entries)]).foldlM (collectEntry H)
    ⟨[], 0⟩
  return collected.entries

def regularRecord (e : JsString × RegularTreeEntry) : JsValue :=
  .arr [.str e.1, .num (.int e.2.mode), .num (.int e.2.size), .str e.2.digest]

/-- What `regularTreeDigestExcluding` hashes. -/
def regularBytes (entries : List (JsString × RegularTreeEntry)) : Bytes :=
  utf8Encode (js "api-migrator:regular-tree:v1") ++ 0 ::
    (entries.map regularRecord).flatMap recordBytes

def regularTreeDigestExcluding (root : Root) (excludedPaths : List JsString) :
    Except String JsString := do
  reject (¬ excludedPaths.Nodup) "tree digest exclusions contain duplicates"
  forEach assertSafeRelativePath excludedPaths
  let entries ← collectRegularTree H root
  return sha256 H (regularBytes (entries.filter fun e ↦ decide (e.1 ∉ excludedPaths)))

def regularTreeDigest (root : Root) : Except String JsString := regularTreeDigestExcluding H root []

def sameRegularEntry (a b : Option RegularTreeEntry) : Bool :=
  decide (a.map RegularTreeEntry.mode = b.map RegularTreeEntry.mode ∧
    a.map RegularTreeEntry.size = b.map RegularTreeEntry.size ∧
    a.map RegularTreeEntry.digest = b.map RegularTreeEntry.digest)

def changedRegularPaths (baseRoot candidateRoot : Root) : Except String (List JsString) := do
  let base ← collectRegularTree H baseRoot
  let candidate ← collectRegularTree H candidateRoot
  return (((base.map Prod.fst ++ candidate.map Prod.fst).dedup).filter fun path ↦
    !sameRegularEntry (lastOf base path) (lastOf candidate path)).insertionSort (· ≤ ·)

/-! ### Dependency trees -/

/-- One component of a path that `resolve` appends. -/
def resolveComponent (path : Path) (part : JsString) : Path :=
  if part = [] ∨ part = js "." then path else if part = js ".." then path.dropLast
  else path ++ [part]

/-- `resolve(directory, target)` of a relative target -/
def resolveTarget (directory : Path) (target : JsString) : Path :=
  (splitSlash target).foldl resolveComponent directory

/-- The root itself or a path below it. Nothing starts with the `//` that stands for the children
of the host's root. -/
def isInside (root candidate : Path) : Prop := candidate = root ∨ root ≠ [] ∧ root <+: candidate

instance (root candidate : Path) : Decidable (isInside root candidate) :=
  inferInstanceAs (Decidable (_ ∨ _))

/-- The counters of `dependencyTreeDigest` and the records hashed so far. -/
structure Sealed where
  entries : ℕ
  totalBytes : ℕ
  records : List JsValue

/-- What `dependencyTreeDigest` does with one entry. -/
def sealEntry (root : Root) (done : Sealed) (e : Path × Entry) : Except String Sealed := do
  let path := pathText e.1
  assertSafeRelativePath path
  reject (maxDepth < (splitSlash path).length) "dependency path exceeds depth limit"
  let entries := done.entries + 1
  reject (maxDependencyEntries < entries) "dependency tree exceeds entry limit"
  match e.2 with
  | .directory mode _ =>
    let record := .arr [.str (js "directory"), .str path, .num (.int (mode &&& 0o777 : ℕ))]
    return { done with entries, records := done.records ++ [record] }
  | .leaf (.file mode links bytes) => do
    reject (links ≠ 1) "dependency tree contains a special or linked file"
    let totalBytes := done.totalBytes + bytes.length
    reject (maxSourceFileBytes < bytes.length ∨ maxDependencyBytes < totalBytes)
      "dependency tree exceeds byte limit"
    let record := .arr [.str (js "file"), .str path, .num (.int (mode &&& 0o777 : ℕ)),
      .num (.int bytes.length), .str (sha256 H bytes)]
    return { entries, totalBytes, records := done.records ++ [record] }
  | .leaf (.symlink bytes) => do
    let target := utf8Decode bytes
    reject (target = [] ∨ startsWith target "/" = true ∨ 0 ∈ target)
      "dependency symlink has an unsafe target"
    let resolvedTarget := resolveTarget (root.path ++ e.1.dropLast) target
    reject (¬ isInside root.path resolvedTarget) "dependency symlink escapes its tree"
    reject (root.existsSync resolvedTarget = false) "dependency symlink is dangling"
    let record := .arr [.str (js "symlink"), .str path, .str target]
    return { done with entries, records := done.records ++ [record] }
  | .leaf .special => throw "dependency tree contains a special or linked file"

def dependencyRecords (root : Root) : Except String (List JsValue) := do
  assertCanonicalDirectory root
  let done ← (walk (fun _ ↦ true) compareNames [([], root.entries)]).foldlM (sealEntry H root)
    ⟨0, 0, []⟩
  return done.records

/-- What `dependencyTreeDigest` hashes. -/
def dependencyBytes (records : List JsValue) : Bytes :=
  utf8Encode (js "api-migrator:dependency-tree:v1") ++ 0 :: records.flatMap recordBytes

def dependencyTreeDigest (root : Root) : Except String JsString := do
  let records ← dependencyRecords H root
  return sha256 H (dependencyBytes records)

end ApiMigrator.Runner.Filesystem
