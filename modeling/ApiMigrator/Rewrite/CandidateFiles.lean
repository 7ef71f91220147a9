import ApiMigrator.App.GitTree
import ApiMigrator.Engine.RepositoryDigest
import ApiMigrator.Foundation.Sequential
import Mathlib.Data.List.AList

/-!
`pipeline.ts`: the verified candidate files are written into the live repository as a transaction.
Every candidate is staged beside its destination, every original is looked at again, and a failure
after the first replacement puts the originals back in reverse order. The messages leave out the
path they end with.
-/

set_option autoImplicit false
set_option relaxedAutoImplicit false

namespace ApiMigrator.Rewrite.CandidateFiles

open Foundation.Text Foundation.Number Foundation.Json Foundation.Outcome Foundation.Pattern
open Foundation.Binary Foundation.Framing Foundation.Interaction Foundation.Interaction.Prog
open App.Artifact (Path joinSlash pathText isExcluded)
open App.GitTree (mapSet)
open Engine.RepositoryDigest (localeBefore)

/-! ### Trees -/

/-- The permission bits of `stat.mode`. -/
abbrev Mode := Fin 0o10000

inductive Node
  | directory (mode : Mode)
  | file (mode : Mode) (bytes : Bytes)
  | symlink (mode : Mode) (target : Bytes)
  | special
  deriving DecidableEq

def Node.isDirectory : Node → Bool
  | .directory _ => true
  | _ => false

/-- What is below a root, which is a real directory. -/
abbrev Tree := AList fun _ : Path ↦ Node

inductive EntryType
  | directory
  | file
  | symlink
  deriving DecidableEq

structure RepositoryTreeEntry where
  type : EntryType
  mode : Mode
  digest : JsString
  deriving DecidableEq

/-- What surrounds a transaction: the hash, the collation, the mode that a copy has before it is
changed, the two trees nobody else writes to, and the random part of each temporary name. -/
structure Setting where
  sha256 : HashFunction 32
  localeCompare : JsString → JsString → ℤ
  createdMode : Mode → Mode
  expected : Tree
  proposed : Tree
  stageId : Path → JsString
  rollbackId : Path → JsString

variable (g : Setting)

/-! ### Digests -/

def repositoryTreeEntry : Node → Except String RepositoryTreeEntry
  | .directory mode => .ok ⟨.directory, mode, []⟩
  | .symlink mode target => .ok ⟨.symlink, mode, g.sha256.hex (utf8Encode (utf8Decode target))⟩
  | .file mode bytes => .ok ⟨.file, mode, g.sha256.hex bytes⟩
  | .special => .error "Repository contains an unsupported filesystem entry"

def EntryType.text : EntryType → JsString
  | directory => js "directory"
  | file => js "file"
  | symlink => js "symlink"

/-- `[entry.type, path, entry.mode, entry.digest]` -/
def entryRecord (path : JsString) (entry : RepositoryTreeEntry) : JsValue :=
  .arr [.str entry.type.text, .str path, .num (.int entry.mode.val), .str entry.digest]

/-- The directories above a path, the root left out. -/
def parents (p : Path) : List Path := p.inits.tail.dropLast

/-- What a walk meets that leaves out Git metadata and installed dependencies. Where the collation
ties two paths they are hashed in the order of the walk, for which the order of the map stands. -/
def walked (tree : Tree) : List (Path × Node) :=
  (tree.entries.map fun e ↦ (e.1, e.2)).filter fun e ↦
    !isExcluded e.1 && (parents e.1).all fun parent ↦ (tree.lookup parent).any Node.isDirectory

abbrev EntryMap := List (JsString × RepositoryTreeEntry)

def overlay (entries : EntryMap) (change : JsString × Option RepositoryTreeEntry) : EntryMap :=
  match change.2 with
  | some entry => mapSet entries change.1 entry
  | none => entries.filter fun e ↦ decide (e.1 ≠ change.1)

def repositoryTree (tree : Tree) (overlays : List (JsString × Option RepositoryTreeEntry)) :
    Except String EntryMap := do
  let entries ← mapEach (fun e ↦ do
    let entry ← repositoryTreeEntry g e.2
    return (pathText e.1, entry)) (walked tree)
  return overlays.foldl overlay (entries.foldl (fun map e ↦ mapSet map e.1 e.2) [])

/-- What is hashed of the entries. -/
def treeBytes (entries : EntryMap) : Bytes :=
  (entries.insertionSort fun a b ↦ localeBefore g.localeCompare a.1 b.1).flatMap fun e ↦
    recordBytes (entryRecord e.1 e.2)

def repositoryTreeDigest (tree : Tree) (overlays : List (JsString × Option RepositoryTreeEntry)) :
    Except String JsString := do
  let entries ← repositoryTree g tree overlays
  return g.sha256.hex (treeBytes g entries)

/-! ### Checks -/

/-- The path of a file. A root that is a real directory and parents that are real directories leave
nothing for the checks of the resolved path to refuse. -/
def safeRepositoryPath (tree : Tree) (file : JsString) : Except String Path := do
  reject (file = [] ∨ 0 ∈ file ∨ 0x5c ∈ file ∨ startsWith file "/" = true)
    "Migration output path is empty or invalid"
  let parts := splitSlash file
  reject (parts.any (fun part ↦ decide (part = [] ∨ part = js "." ∨ part = js "..")) = true)
    "Migration output path is not normalized"
  forEach (fun parent ↦ do
    let node ← orThrow (tree.lookup parent) "ENOENT: no such file or directory"
    reject (node.isDirectory = false) "Migration output parent must be a real directory")
    (parents parts)
  return parts

def assertExpectedFileState (destination expected : Option Node) : Except String Unit :=
  match expected, destination with
  | none, none => .ok ()
  | some (.file mode bytes), some (.file mode' bytes') =>
    reject (mode ≠ mode' ∨ bytes ≠ bytes') "Repository file changed after migration planning"
  | some _, some _ => .error "Repository path is not a regular file"
  | _, _ => .error "Repository file changed after migration planning"

def assertCandidateFileState (destination : Option Node)
    (candidate : Option RepositoryTreeEntry) : Except String Unit :=
  match candidate, destination with
  | none, none => .ok ()
  | some entry, some node => do
    let found ← repositoryTreeEntry g node
    reject (entry.type ≠ .file ∨ found ≠ entry) "Repository file changed while rolling back"
  | _, _ => .error "Repository file changed while rolling back"

/-- The mode and the bytes of a regular file. -/
def regularFile (node : Option Node) (message : String) : Except String (Mode × Bytes) :=
  match node with
  | some (.file mode bytes) => .ok (mode, bytes)
  | some _ => .error message
  | none => .error "ENOENT: no such file or directory"

/-! ### The steps on the file system -/

/-- What the transaction asks of the file system, and the hook before each replacement. -/
inductive Op
  | unchanged
  | paths (file : JsString)
  | expectedState (file : JsString)
  | proposed (file : JsString)
  | copy (target : Path) (mode : Mode) (bytes : Bytes)
  | chmod (target : Path) (mode : Mode)
  | entry (target : Path)
  | intended (overlays : List (JsString × Option RepositoryTreeEntry))
  | beforeCommit (file : JsString) (index : ℕ)
  | rename (source target : Path)
  | unlink (target : Path)
  | candidateState (file : JsString) (candidate : Option RepositoryTreeEntry)
  | treeDigest (intended : JsString)
  | pathEntryExists (target : Path)
  | expectedFile (target : Path)

abbrev Op.Val : Op → Type
  | proposed _ => Option (Mode × Bytes)
  | entry _ => RepositoryTreeEntry
  | intended _ => JsString
  | pathEntryExists _ => Bool
  | expectedFile _ => Mode × Bytes
  | _ => Unit

abbrev Answer (op : Op) : Type := Except String op.Val

/-- What an operation answers that does not write. -/
def Op.read (tree : Tree) : (op : Op) → Answer op
  | unchanged => do
    let live ← repositoryTreeDigest g tree []
    let planned ← repositoryTreeDigest g g.expected []
    reject (live ≠ planned) "Repository tree changed after migration planning"
  | paths file => do
    let _ ← safeRepositoryPath tree file
    let _ ← safeRepositoryPath g.expected file
    let _ ← safeRepositoryPath g.proposed file
    return ()
  | expectedState file => do
    let destination ← safeRepositoryPath tree file
    let expected ← safeRepositoryPath g.expected file
    assertExpectedFileState (tree.lookup destination) (g.expected.lookup expected)
  | proposed file => do
    let path ← safeRepositoryPath g.proposed file
    match g.proposed.lookup path with
    | none => return none
    | some node =>
      some <$> regularFile (some node) "Proposed migration output is not a regular file"
  | entry target => do
    let node ← orThrow (tree.lookup target) "ENOENT: no such file or directory"
    repositoryTreeEntry g node
  | intended overlays => repositoryTreeDigest g g.expected overlays
  | candidateState file candidate => do
    let destination ← safeRepositoryPath tree file
    assertCandidateFileState g (tree.lookup destination) candidate
  | treeDigest digest => do
    let live ← repositoryTreeDigest g tree []
    reject (live ≠ digest) "Applied repository tree differs from the verified migration candidate"
  | pathEntryExists target => .ok (tree.lookup target).isSome
  | expectedFile target =>
    regularFile (g.expected.lookup target) "Expected rollback source is not a regular file"
  | copy target _ _ => reject ((tree.lookup target).isSome = true) "EEXIST: file already exists"
  | chmod target _ => do
    let _ ← regularFile (tree.lookup target) "EPERM: operation not permitted"
    return ()
  | rename source target => do
    let _ ← orThrow (tree.lookup source) "ENOENT: no such file or directory"
    reject ((tree.lookup target).any Node.isDirectory = true) "EISDIR: illegal operation"
  | unlink target => do
    let node ← orThrow (tree.lookup target) "ENOENT: no such file or directory"
    reject (node.isDirectory = true) "EISDIR: illegal operation"
  | beforeCommit _ _ => .ok ()

/-- The tree after an operation that has not failed. Where a copy is made, or a file is moved to,
the parents have just been looked at. -/
def Op.write (tree : Tree) : Op → Tree
  | copy target mode bytes => tree.insert target (.file (g.createdMode mode) bytes)
  | chmod target mode =>
    match tree.lookup target with
    | some (.file _ bytes) => tree.insert target (.file mode bytes)
    | _ => tree
  | rename source target =>
    match tree.lookup source with
    | some node => (tree.erase source).insert target node
    | none => tree
  | unlink target => tree.erase target
  | _ => tree

/-! ### The transaction -/

structure PreparedCandidateFile where
  relative : JsString
  destination : Path
  staged : Option Path
  stagedCreated : Bool
  candidate : Option RepositoryTreeEntry
  expectedExists : Bool
  candidateInstalled : Bool

/-- What was thrown before the end, with the files prepared so far. -/
structure Stop where
  prepared : List PreparedCandidateFile
  message : String

/-- The message of the failure, and those of the rollback. -/
structure ApplyError where
  message : String
  rollbackErrors : List String
  deriving DecidableEq

abbrev Program (ε α : Type) := Prog Op Answer ε α

abbrev attempt (prepared : List PreparedCandidateFile) (op : Op) : Program Stop op.Val :=
  attemptAs (Stop.mk prepared) op

/-- A name in the directory of the destination. -/
def temporary (p : Path) (id : JsString) (kind : String) : Path :=
  p.dropLast ++ [js "." ++ p.getLastD [] ++ js ".api-migrator-" ++ id ++ js kind]

def stagePath (p : Path) : Path := temporary p (g.stageId p) ".stage"

def rollbackPath (p : Path) : Path := temporary p (g.rollbackId p) ".rollback"

def prepareFile (prepared : List PreparedCandidateFile) (file : JsString) :
    Program Stop PreparedCandidateFile := do
  attempt prepared (.paths file)
  attempt prepared (.expectedState file)
  let proposed ← attempt prepared (.proposed file)
  let path := splitSlash file
  let item : PreparedCandidateFile := {
    relative := file
    destination := path
    staged := proposed.map fun _ ↦ stagePath g path
    stagedCreated := false
    candidate := none
    expectedExists := (g.expected.lookup path).isSome
    candidateInstalled := false }
  match proposed with
  | none => return item
  | some (mode, bytes) => do
    attempt (prepared ++ [item]) (.copy (stagePath g path) mode bytes)
    let item := { item with stagedCreated := true }
    attempt (prepared ++ [item]) (.chmod (stagePath g path) mode)
    let candidate ← attempt (prepared ++ [item]) (.entry (stagePath g path))
    return { item with candidate := some candidate }

def prepare : List PreparedCandidateFile → List JsString →
    Program Stop (List PreparedCandidateFile)
  | prepared, [] => pure prepared
  | prepared, file :: files => do
    let item ← prepareFile g prepared file
    prepare (prepared ++ [item]) files

/-- The same look at every file. -/
def lookAt (op : PreparedCandidateFile → Op) (prepared : List PreparedCandidateFile) :
    List PreparedCandidateFile → Program Stop Unit
  | [] => pure ()
  | item :: items => do
    let _ ← attempt prepared (op item)
    lookAt op prepared items

def commit : List PreparedCandidateFile → List PreparedCandidateFile →
    Program Stop (List PreparedCandidateFile)
  | committed, [] => pure committed
  | committed, item :: items => do
    attempt (committed ++ item :: items) (.beforeCommit item.relative committed.length)
    attempt (committed ++ item :: items) (.expectedState item.relative)
    match item.staged with
    | some staged => attempt (committed ++ item :: items) (.rename staged item.destination)
    | none => attempt (committed ++ item :: items) (.unlink item.destination)
    commit (committed ++ [{ item with candidateInstalled := true }]) items

/-- `[...new Set(changedFiles)].sort()` -/
def sortedFiles (changedFiles : List JsString) : List JsString :=
  changedFiles.dedup.insertionSort (· ≤ ·)

def transaction (changedFiles : List JsString) : Program Stop Unit := do
  attempt [] .unchanged
  let prepared ← prepare g [] (sortedFiles changedFiles)
  let digest ← attempt prepared
    (.intended (prepared.map fun item ↦ (item.relative, item.candidate)))
  lookAt (fun item ↦ .expectedState item.relative) prepared prepared
  let committed ← commit [] prepared
  lookAt (fun item ↦ .candidateState item.relative item.candidate) committed committed
  attempt committed (.treeDigest digest)

/-! ### The rollback -/

abbrev attemptText (op : Op) : Program String op.Val := attemptAs id op

def removeIfExists (path : Path) : Program String Unit := do
  let found : Bool ← attemptText (.pathEntryExists path)
  if found = true then attemptText (.unlink path) else pure ()

def restoreExpectedFile (item : PreparedCandidateFile) : Program String Unit :=
  if item.expectedExists = false then removeIfExists item.destination
  else do
    let (mode, bytes) ← attemptText (.expectedFile item.destination)
    let rollback := rollbackPath g item.destination
    attemptText (.copy rollback mode bytes)
    let restored : Except String Unit ← outcome (do
      attemptText (.chmod rollback mode)
      attemptText (.rename rollback item.destination))
    removeIfExists rollback
    lift restored

def restore (item : PreparedCandidateFile) : Program String Unit :=
  if item.candidateInstalled = true then do
    attemptText (.candidateState item.relative item.candidate)
    restoreExpectedFile g item
  else pure ()

def removeStage (item : PreparedCandidateFile) : Program String Unit :=
  match item.staged with
  | some staged => if item.stagedCreated = true then removeIfExists staged else pure ()
  | none => pure ()

def errorsOf : Except String Unit → List String
  | .ok _ => []
  | .error message => [message]

def rollback : List PreparedCandidateFile → Program ApplyError (List String)
  | [] => pure []
  | item :: items => do
    let restored ← outcome (restore g item)
    let removed ← outcome (removeStage item)
    let errors ← rollback items
    return errorsOf restored ++ errorsOf removed ++ errors

def applyCandidateFiles (changedFiles : List JsString) : Program ApplyError Unit := do
  let applied ← outcome (transaction g changedFiles)
  match applied with
  | .ok _ => return
  | .error stop => do
    let errors ← rollback g stop.prepared.reverse
    throw ⟨stop.message, errors⟩

end ApiMigrator.Rewrite.CandidateFiles
