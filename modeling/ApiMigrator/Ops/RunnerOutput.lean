import ApiMigrator.Runner.Filesystem

/-!
`deployment/lib.mjs`: the identities of a repository that the observer computes again from the
output of the runner, with its own walk of the tree and its own encoding of Git trees. The runner
keeps its files in a map under their rewritten paths and reads their contents once more; the
observer keeps a list with the contents. Where no name has a backslash, the two agree.
-/

set_option autoImplicit false
set_option relaxedAutoImplicit false

namespace ApiMigrator.Ops.RunnerOutput

open Foundation.Text Foundation.Number Foundation.Json Foundation.Outcome Foundation.Pattern
open Foundation.Binary Foundation.FileTree Foundation.Framing
open App.Artifact (Path joinSlash pathText pathText_eq)
open App.GitTree (Hashes GitObjectFormat GitFileMode FileNode DirectoryNode EncodedTreeItem mapSet
  childDirectory isControl isForbiddenComponent HoldsPaths mem_mapSet)
open Runner.Filesystem (Directory Entry Root isSourceName compareNames regularMode sha256
  RegularTreeEntry regularBytes regularRecord)

variable (H : Hashes)

/-! ### The observer's walk -/

structure OutputEntry where
  path : JsString
  mode : ℕ
  size : ℕ
  digest : JsString
  content : Bytes

structure Output where
  entries : List OutputEntry
  totalBytes : ℕ

def assertRunnerRelativePath (path : JsString) : Except String Unit := do
  reject (path = [] ∨ 0 ∈ path ∨ 0x5c ∈ path ∨ startsWith path "/" = true)
    "runner output path is invalid"
  reject ((splitSlash path).any (fun part ↦ decide (part = [] ∨ part = js "." ∨ part = js "..")) =
    true) "runner output path is not normalized"

/-- What `collectRunnerRegularTree` does with one child: it is given the rewritten path. -/
def collectChild (output : Output) (child : Path × Entry) : Except String Output := do
  let path := pathText child.1
  assertRunnerRelativePath path
  reject (64 < (splitSlash path).length) "runner output path exceeds depth limit"
  match child.2 with
  | .directory _ _ => return output
  | .leaf (.file mode links content) => do
    reject (links ≠ 1) "runner output contains a non-regular entry"
    reject (268435456 < content.length) "runner output file exceeds size limit"
    let totalBytes := output.totalBytes + content.length
    reject (50000 < output.entries.length + 1 ∨ 536870912 < totalBytes)
      "runner output exceeds entry or byte limit"
    return {
      entries := output.entries ++
        [⟨path, if mode &&& 0o111 = 0 then 0o100644 else 0o100755, content.length,
          sha256 H.sha256 content, content⟩]
      totalBytes }
  | .leaf _ => throw "runner output contains a non-regular entry"

def collectRunnerRegularTree (root : Root) : Except String (List OutputEntry) := do
  reject (root.isCanonical = false) "runner output root must be a real canonical directory"
  let output ← (walk isSourceName compareNames [([], root.entries)]).foldlM (collectChild H) ⟨[], 0⟩
  return output.entries

/-! ### The observer's Git trees -/

def gitObjectFormatFromBaseSha (baseSha : JsString) : Except String GitObjectFormat :=
  if isHexOfLength 40 baseSha then .ok .sha1
  else if isHexOfLength 64 baseSha then .ok .sha256
  else .error "runner base Git object id must be a lowercase SHA-1 or SHA-256 value"

def validateRunnerGitPath (path : JsString) : Except String Unit := do
  reject (path.any isControl = true ∨ 4096 < byteLength path)
    "runner output Git path is oversized or non-portable"
  rejectUnpaired "canonical JSON contains an unpaired high surrogate"
    "canonical JSON contains an unpaired low surrogate" path
  reject ((splitSlash path).any isForbiddenComponent = true)
    "runner output Git path contains a forbidden component"

/-- The mode that an entry is encoded with. -/
def gitMode (mode : ℕ) : GitFileMode := if mode = 0o100755 then .executable else .regular

def insertRunnerGitEntry (file : FileNode) :
    List JsString → DirectoryNode → Except String DirectoryNode
  | [], directory => .ok directory
  | [name], .mk directories files => do
    reject (name ∈ directories.map Prod.fst ∨ name ∈ files.map Prod.fst)
      "runner output Git path is duplicated or colliding"
    return .mk directories (mapSet files name file)
  | part :: rest, .mk directories files => do
    reject (part ∈ files.map Prod.fst) "runner output Git path collides with a file"
    let child ← insertRunnerGitEntry file rest (childDirectory directories part)
    return .mk (mapSet directories part child) files

def hashRunnerGitObject (type : String) (body : Bytes) (format : GitObjectFormat) : Bytes :=
  let framed := utf8Encode (js type ++ js " " ++ decimalDigits body.length) ++ 0 :: body
  match format with
  | .sha1 => H.sha1.digest framed
  | .sha256 => H.sha256.digest framed

/-- The items of a directory in the order of their names, each with the bytes it adds. -/
def runnerBody (items : List EncodedTreeItem) : Bytes :=
  (items.insertionSort fun left right ↦
    utf8Encode (left.name ++ if left.directory then js "/" else []) ≤
      utf8Encode (right.name ++ if right.directory then js "/" else [])).flatMap fun item ↦
    utf8Encode (item.mode ++ js " ") ++ utf8Encode item.name ++ 0 :: item.oid

def runnerFileItem (format : GitObjectFormat) (file : JsString × FileNode) : EncodedTreeItem where
  name := file.1
  directory := false
  mode := file.2.mode.text
  oid := hashRunnerGitObject H "blob" file.2.content format

mutual

def encodeRunnerGitDirectory (format : GitObjectFormat) : DirectoryNode → Bytes
  | .mk directories files =>
    hashRunnerGitObject H "tree"
      (runnerBody (runnerDirectoryItems format directories ++ files.map (runnerFileItem H format)))
      format

def runnerDirectoryItems (format : GitObjectFormat) :
    List (JsString × DirectoryNode) → List EncodedTreeItem
  | [] => []
  | (name, child) :: rest =>
    ⟨name, true, js "40000", encodeRunnerGitDirectory format child⟩ ::
      runnerDirectoryItems format rest

end

/-- The directories of the entries, below a root that is not empty any more. -/
def insertRunnerEntries : List OutputEntry → DirectoryNode → Except String DirectoryNode
  | [], root => .ok root
  | entry :: entries, root => do
    validateRunnerGitPath entry.path
    let root ← insertRunnerGitEntry ⟨gitMode entry.mode, entry.content⟩ (splitSlash entry.path) root
    insertRunnerEntries entries root

def runnerGitTreeOid (entries : List OutputEntry) (format : GitObjectFormat) :
    Except String JsString := do
  let root ← insertRunnerEntries entries .empty
  return hexText (encodeRunnerGitDirectory H format root)

structure OutputIdentity where
  regularTreeDigest : JsString
  candidateTreeSha : JsString

def outputRecord (entry : OutputEntry) : JsValue :=
  .arr [.str entry.path, .num (.int entry.mode), .num (.int entry.size), .str entry.digest]

def computeRunnerOutputIdentity (root : Root) (baseSha : JsString) :
    Except String OutputIdentity := do
  let entries ← collectRunnerRegularTree H root
  let digest := sha256 H.sha256 (utf8Encode (js "api-migrator:regular-tree:v1") ++ 0 ::
    (entries.map outputRecord).flatMap recordBytes)
  let format ← gitObjectFormatFromBaseSha baseSha
  let oid ← runnerGitTreeOid H entries format
  return ⟨digest, oid⟩

/-! ### The runner's own computation -/

/-- `readFileSync` of a path below the directory. -/
def readFile : Directory → Path → Option Bytes
  | _, [] => none
  | entries, [name] =>
    match entries.lookup name with
    | some (.leaf (.file _ _ bytes)) => some bytes
    | _ => none
  | entries, name :: rest =>
    match entries.lookup name with
    | some (.directory _ children) => readFile children rest
    | _ => none

def gitTreeEntry (root : Root) (e : JsString × RegularTreeEntry) :
    Except String App.GitTree.GitTreeEntry := do
  let content ← orThrow (readFile root.entries (splitSlash e.1)) "ENOENT: no such file or directory"
  return ⟨e.1, gitMode e.2.mode, content⟩

def gitTreeEntries (root : Root) : Except String (List App.GitTree.GitTreeEntry) := do
  let entries ← Runner.Filesystem.collectRegularTree H.sha256 root
  mapEach (gitTreeEntry root) entries

def runnerOutputIdentity (root : Root) (baseSha : JsString) : Except String OutputIdentity := do
  let digest ← Runner.Filesystem.regularTreeDigest H.sha256 root
  let entries ← gitTreeEntries H root
  let format ← App.GitTree.gitObjectFormatFromOid baseSha
  let oid ← App.GitTree.gitTreeOid H entries format
  return ⟨digest, oid⟩

end ApiMigrator.Ops.RunnerOutput
