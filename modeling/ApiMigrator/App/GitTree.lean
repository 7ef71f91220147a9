import ApiMigrator.Foundation.Binary

/-!
`runner-git-tree.ts`: Git blob and tree object ids computed from a list of files, with the paths
Runner v1 supports. A tree is built by inserting the files one by one, each directory keeping its
children in the order of their insertion, and is encoded in the order Git gives them. The messages
leave out the path they end with in the source.
-/

set_option autoImplicit false
set_option relaxedAutoImplicit false

namespace ApiMigrator.App.GitTree

open Foundation.Text Foundation.Number Foundation.Outcome Foundation.Pattern Foundation.Binary

/-- The hash functions of `node:crypto`. -/
structure Hashes where
  sha1 : HashFunction 20
  sha256 : HashFunction 32

inductive GitObjectFormat
  | sha1
  | sha256
  deriving DecidableEq

inductive GitFileMode
  | regular
  | executable
  deriving DecidableEq

def GitFileMode.text : GitFileMode → JsString
  | .regular => js "100644"
  | .executable => js "100755"

structure GitTreeEntry where
  path : JsString
  mode : GitFileMode
  content : Bytes
  deriving DecidableEq

def maxGitPathBytes : ℕ := 4096

def maxGitTreeDepth : ℕ := 64

def gitObjectFormatFromOid (oid : JsString) : Except String GitObjectFormat :=
  if isHexOfLength 40 oid then .ok .sha1
  else if isHexOfLength 64 oid then .ok .sha256
  else .error "Git object id must be a lowercase SHA-1 or SHA-256 value"

def isControl (c : UInt16) : Bool := decide (c.toNat ≤ 0x1f ∨ c.toNat = 0x7f)

/-- Lowercasing takes no other character to a letter of the forbidden names. -/
def isForbiddenComponent (part : JsString) : Bool :=
  decide (asciiLower part = js ".git" ∨ asciiLower part = js "node_modules")

def validateGitPath (value : JsString) : Except String JsString := do
  reject (value.length = 0 ∨ startsWith value "/" = true ∨ includes value "\\" = true ∨
    value.any isControl = true ∨ maxGitPathBytes < byteLength value)
    "Git tree path is empty, oversized, absolute, or non-portable"
  rejectUnpaired "Git tree path contains an unpaired high surrogate"
    "Git tree path contains an unpaired low surrogate" value
  reject (maxGitTreeDepth < (splitSlash value).length ∨
    (splitSlash value).any (fun part ↦ decide (part = [] ∨ part = js "." ∨ part = js "..")) = true)
    "Git tree path is not normalized or exceeds depth 64"
  reject ((splitSlash value).any isForbiddenComponent = true)
    "Git tree path contains a forbidden component"
  return value

theorem validateGitPath_eq_ok {value path : JsString} (h : validateGitPath value = .ok path) :
    path = value ∧ value ≠ [] ∧ isWellFormed value = true ∧ byteLength value ≤ maxGitPathBytes := by
  simp only [validateGitPath, bind_eq_ok, reject_eq_ok, rejectUnpaired_eq_ok, exists_unit,
    pure_eq_ok, not_or, not_lt] at h
  obtain ⟨⟨hne, -, -, -, hlength⟩, hunicode, -, -, rfl⟩ := h
  exact ⟨rfl, fun hnil ↦ hne (by rw [hnil]; rfl), hunicode, hlength⟩

/-! ### Trees -/

structure FileNode where
  mode : GitFileMode
  content : Bytes

inductive DirectoryNode
  | mk (directories : List (JsString × DirectoryNode)) (files : List (JsString × FileNode))

def DirectoryNode.empty : DirectoryNode := .mk [] []

/-- `Map.set` -/
def mapSet {α : Type} (entries : List (JsString × α)) (key : JsString) (value : α) :
    List (JsString × α) :=
  if key ∈ entries.map Prod.fst then
    entries.map fun e ↦ if e.1 = key then (key, value) else e
  else entries ++ [(key, value)]

/-- The directory found under a name, or a new one. -/
def childDirectory (directories : List (JsString × DirectoryNode)) (name : JsString) :
    DirectoryNode :=
  match directories.find? fun e ↦ e.1 = name with
  | some e => e.2
  | none => .empty

def insert (path : JsString) (file : FileNode) :
    List JsString → DirectoryNode → Except String DirectoryNode
  | [], directory => .ok directory
  | [name], .mk directories files => do
    reject (name ∈ directories.map Prod.fst) "Git tree path collides with a directory"
    return .mk directories (mapSet files name file)
  | part :: rest, .mk directories files => do
    reject (part ∈ files.map Prod.fst) "Git tree path collides with a file"
    let child ← insert path file rest (childDirectory directories part)
    return .mk (mapSet directories part child) files

structure EncodedTreeItem where
  name : JsString
  directory : Bool
  mode : JsString
  oid : Bytes

/-- The name `base_name_compare` sees: a directory's ends with a slash. -/
def EncodedTreeItem.sortName (item : EncodedTreeItem) : Bytes :=
  utf8Encode (if item.directory then item.name ++ js "/" else item.name)

def compareTreeItems (left right : EncodedTreeItem) : Bool :=
  decide (left.sortName ≤ right.sortName)

def hashGitObject (H : Hashes) (type : String) (body : Bytes) (format : GitObjectFormat) : Bytes :=
  let framed := utf8Encode (js type ++ js " " ++ decimalDigits body.length) ++ 0 :: body
  match format with
  | .sha1 => H.sha1.digest framed
  | .sha256 => H.sha256.digest framed

def gitBlobOid (H : Hashes) (content : Bytes) (format : GitObjectFormat) : JsString :=
  hexText (hashGitObject H "blob" content format)

def EncodedTreeItem.bytes (item : EncodedTreeItem) : Bytes :=
  utf8Encode (item.mode ++ js " ") ++ utf8Encode item.name ++ 0 :: item.oid

def encodeItems (items : List EncodedTreeItem) : Bytes :=
  (items.insertionSort fun left right ↦ compareTreeItems left right = true).flatMap
    EncodedTreeItem.bytes

def fileItem (H : Hashes) (format : GitObjectFormat) (file : JsString × FileNode) :
    EncodedTreeItem :=
  { name := file.1, directory := false, mode := file.2.mode.text,
    oid := hashGitObject H "blob" file.2.content format }

mutual

/-- The object id of a directory. -/
def encodeDirectory (H : Hashes) (format : GitObjectFormat) : DirectoryNode → Bytes
  | .mk directories files =>
    hashGitObject H "tree"
      (encodeItems (directoryItems H format directories ++ files.map (fileItem H format))) format

def directoryItems (H : Hashes) (format : GitObjectFormat) :
    List (JsString × DirectoryNode) → List EncodedTreeItem
  | [] => []
  | (name, child) :: rest =>
    { name, directory := true, mode := js "40000", oid := encodeDirectory H format child } ::
      directoryItems H format rest

end

/-- The tree of the entries, after the `seen` ones. -/
def buildTree : List GitTreeEntry → List JsString → DirectoryNode → Except String DirectoryNode
  | [], _, root => .ok root
  | entry :: entries, seen, root => do
    let path ← validateGitPath entry.path
    reject (path ∈ seen) "Duplicate Git tree path"
    let root ← insert path ⟨entry.mode, entry.content⟩ (splitSlash path) root
    buildTree entries (path :: seen) root

def gitTreeOid (H : Hashes) (entries : List GitTreeEntry) (format : GitObjectFormat) :
    Except String JsString := do
  let root ← buildTree entries [] .empty
  return hexText (encodeDirectory H format root)

end ApiMigrator.App.GitTree
