import ApiMigrator.Foundation.Binary
import ApiMigrator.Foundation.Framing
import ApiMigrator.Foundation.Pattern
import Mathlib.Data.List.Sort

/-!
`artifact.ts`: the exact transfer of a verified migration from a proposed tree to a clean clone.
Trees are compared by what Git tracks of them: files with their executable bit and their bytes, and
symbolic links with their targets. The messages leave out the path they end with in the source.
-/

set_option autoImplicit false
set_option relaxedAutoImplicit false

namespace ApiMigrator.App.Artifact

open Foundation.Text Foundation.Number Foundation.Outcome Foundation.Pattern Foundation.Binary

/-! ### Trees -/

/-- What a path names: a mode is its permission bits, a target its bytes. -/
inductive Node
  | directory
  | file (mode : ℕ) (bytes : Bytes)
  | symlink (target : Bytes)
  deriving DecidableEq

/-- The names from the root to an entry, as the runtime reads them. -/
abbrev Path := List JsString

/-- A file system below a root. -/
abbrev Entries := Path → Option Node

/-- A name of a directory entry. -/
def isName (s : JsString) : Bool :=
  decide (s ≠ [] ∧ s ≠ js "." ∧ s ≠ js ".." ∧ 0x2f ∉ s ∧ 0 ∉ s)

/-- The value under a key, the last one where there are several. -/
def lastOf {α β : Type} [DecidableEq α] (entries : List (α × β)) (key : α) : Option β :=
  (entries.reverse.find? fun e ↦ decide (e.1 = key)).map Prod.snd

/-- A directory tree: its entries in the order in which a walk meets them. -/
structure Tree where
  nodes : List (Path × Node)
  nodup_paths : (nodes.map Prod.fst).Nodup
  isName_of_mem : ∀ e ∈ nodes, e.1 ≠ [] ∧ ∀ name ∈ e.1, isName name = true

def Tree.get (t : Tree) : Entries := lastOf t.nodes

def joinSlash (p : Path) : JsString := List.intercalate [0x2f] p

inductive EntryType
  | file
  | symlink
  deriving DecidableEq

structure TreeEntry where
  type : EntryType
  mode : ℕ
  digest : JsString
  deriving DecidableEq

structure VerifiedArtifact where
  files : List JsString
  digest : JsString
  deriving DecidableEq

variable (H : HashFunction 32)

def canonicalGitFileMode (mode : ℕ) : ℕ := if mode &&& 0o111 = 0 then 0o100644 else 0o100755

/-- `readlinkSync` decodes the target, and the hash encodes it again. -/
def treeEntry : Node → Option TreeEntry
  | .directory => none
  | .file mode bytes => some ⟨.file, canonicalGitFileMode mode, H.hex bytes⟩
  | .symlink target => some ⟨.symlink, 0o120000, H.hex (utf8Encode (utf8Decode target))⟩

/-- Git metadata and installed dependencies are left out, at every level. -/
def isExcluded (p : Path) : Bool :=
  p.any fun name ↦ decide (name = js ".git" ∨ name = js "node_modules")

/-- `relative(root, absolute).replace(/\\/g, "/")` -/
def pathText (p : Path) : JsString := (joinSlash p).map fun c ↦ if c = 0x5c then 0x2f else c

def collectTree (t : Tree) : List (JsString × TreeEntry) :=
  t.nodes.filterMap fun e ↦
    if isExcluded e.1 = true then none else (treeEntry H e.2).map fun entry ↦ (pathText e.1, entry)

/-! ### Paths -/

def normalizeArtifactPath (value : JsString) : Except String JsString := do
  reject (value = [] ∨ startsWith value "/" = true ∨ includes value "\\" = true)
    "Invalid artifact path"
  let normalized := joinSlash ((splitSlash value).filter fun part ↦ decide (part ≠ js "."))
  reject (value ≠ normalized ∨ normalized = [] ∨ startsWith normalized "/" = true ∨
    (splitSlash normalized).any (fun part ↦ decide (part = [] ∨ part = js "..")) = true)
    "Invalid artifact path"
  reject (normalized = js ".git" ∨ startsWith normalized ".git/" = true ∨
    normalized = js "node_modules" ∨ startsWith normalized "node_modules/" = true)
    "Forbidden artifact path"
  return normalized

/-- `lstat` below a root: a missing path is none, and a path through a file is an error. A path
through a symbolic link is not asked for: `assertNoSymlinkComponents` has refused it. -/
def lstatIfExists (fs : Entries) (p : Path) : Except String (Option Node) := do
  reject (p.any (fun name ↦ decide (0 ∈ name)) = true)
    "The argument 'path' must be a string without null bytes"
  reject (p.inits.any (fun q ↦ decide (q ≠ p) && fs q matches some (.file _ _)) = true)
    "ENOTDIR: not a directory"
  return fs p

def assertNoSymlinkComponents (fs : Entries) (p : Path) : Except String Unit :=
  forEach (fun current ↦ do
    let stat ← lstatIfExists fs current
    reject (stat matches some (.symlink _)) "Artifact path traverses a symlink") p.inits.tail

/-! ### Inspection -/

/-- Missing entries are allowed. -/
def assertRegularArtifactEntry (fs : Entries) (p : Path) (entry : Option TreeEntry) :
    Except String Unit := do
  assertNoSymlinkComponents fs p
  match entry with
  | none => return
  | some entry => reject (entry.type ≠ .file) "Artifact path is not a regular file"

def typeText : EntryType → JsString
  | .file => js "file"
  | .symlink => js "symlink"

def entryIdentity : Option TreeEntry → JsString
  | some entry =>
    typeText entry.type ++ 0x3a :: (decimalDigits entry.mode ++ 0x3a :: entry.digest)
  | none => js "missing"

/-- What is hashed of one path. -/
def fileBytes (base proposed : List (JsString × TreeEntry)) (path : JsString) : Bytes :=
  utf8Encode path ++ 0 :: (utf8Encode (entryIdentity (lastOf base path)) ++
    0 :: (utf8Encode (entryIdentity (lastOf proposed path)) ++ [0]))

def artifactBytes (base proposed : List (JsString × TreeEntry)) (files : List JsString) : Bytes :=
  utf8Encode (js "api-migrator-artifact-v1") ++ 0 :: files.flatMap (fileBytes base proposed)

/-- The paths whose entries differ. -/
def actualFiles (base proposed : List (JsString × TreeEntry)) : List JsString :=
  (((base.map Prod.fst ++ proposed.map Prod.fst).dedup).filter fun path ↦
    decide (lastOf base path ≠ lastOf proposed path)).insertionSort (· ≤ ·)

def joinNul (paths : List JsString) : JsString := List.intercalate [0] paths

def inspectVerifiedArtifact (base proposed : Tree) (reportedFiles : List JsString) :
    Except String VerifiedArtifact := do
  let normalized ← mapEach normalizeArtifactPath reportedFiles
  let files := normalized.dedup.insertionSort (· ≤ ·)
  let old := collectTree H base
  let new := collectTree H proposed
  reject (joinNul (actualFiles old new) ≠ joinNul files)
    "Verified tree differs from engine report"
  forEach (fun path ↦ do
    assertRegularArtifactEntry base.get (splitSlash path) (lastOf old path)
    assertRegularArtifactEntry proposed.get (splitSlash path) (lastOf new path)) files
  return { files, digest := H.hex (artifactBytes old new files) }

/-! ### Application -/

def Entries.set (fs : Entries) (p : Path) (node : Option Node) : Entries :=
  fun q ↦ if q = p then node else fs q

/-- `mkdirSync(dirname(path), { recursive: true })`: a file on the way has been refused. -/
def mkdirParents (fs : Entries) (p : Path) : Entries :=
  fun q ↦ if fs q = none ∧ q ≠ p ∧ q <+: p then some .directory else fs q

def applyFile (proposed destination : Entries) (path : JsString) : Except String Entries := do
  let normalized ← normalizeArtifactPath path
  let p := splitSlash normalized
  assertNoSymlinkComponents proposed p
  assertNoSymlinkComponents destination p
  let source ← lstatIfExists proposed p
  let target ← lstatIfExists destination p
  match source, target with
  | none, none => return destination
  | none, some (.file _ _) => return destination.set p none
  | none, some _ => throw "Refusing to delete non-regular artifact path"
  | some (.file mode bytes), some (.file _ _) =>
    return destination.set p (some (.file (mode &&& 0o777) bytes))
  | some (.file mode bytes), none => do
    let made := mkdirParents destination p
    assertNoSymlinkComponents made p
    return made.set p (some (.file (mode &&& 0o777) bytes))
  | some (.file _ _), some _ => throw "Refusing to overwrite non-regular artifact path"
  | some _, _ => throw "Refusing to publish non-regular artifact path"

def applyFiles (proposed : Entries) : List JsString → Entries → Except String Entries
  | [], destination => .ok destination
  | path :: files, destination => do
    let next ← applyFile proposed destination path
    applyFiles proposed files next

def applyVerifiedArtifact (destination : Entries) (proposed : Tree) (artifact : VerifiedArtifact) :
    Except String Entries :=
  applyFiles proposed.get artifact.files destination

/-- `treeEntry` of a path: a directory is an error. -/
def treeEntryAt (fs : Entries) (p : Path) : Except String (Option TreeEntry) := do
  let stat ← lstatIfExists fs p
  match stat with
  | none => return none
  | some node => some <$> orThrow (treeEntry H node) "Artifact path is not a regular file"

def assertAppliedArtifact (destination : Entries) (proposed : Tree) (artifact : VerifiedArtifact) :
    Except String Unit :=
  forEach (fun path ↦ do
    assertNoSymlinkComponents destination (splitSlash path)
    assertNoSymlinkComponents proposed.get (splitSlash path)
    let applied ← treeEntryAt H destination (splitSlash path)
    let expected ← treeEntryAt H proposed.get (splitSlash path)
    reject (applied ≠ expected) "Published artifact differs from verified bytes") artifact.files

/-! ### Lists under keys -/

theorem lastOf_eq_some {α β : Type} [DecidableEq α] {entries : List (α × β)}
    (hnodup : (entries.map Prod.fst).Nodup) {key : α} {value : β} :
    lastOf entries key = some value ↔ (key, value) ∈ entries := by
  have hfound : ∀ e, entries.reverse.find? (fun e ↦ decide (e.1 = key)) = some e →
      e ∈ entries ∧ e.1 = key := fun e he ↦
    ⟨List.mem_reverse.mp (List.mem_of_find?_eq_some he), by simpa using List.find?_some he⟩
  unfold lastOf
  constructor
  · intro h
    obtain ⟨e, he, rfl⟩ := Option.map_eq_some_iff.mp h
    obtain ⟨hmem, rfl⟩ := hfound e he
    exact hmem
  · intro h
    have hsome : (entries.reverse.find? fun e ↦ decide (e.1 = key)).isSome = true :=
      List.find?_isSome.mpr ⟨(key, value), List.mem_reverse.mpr h, by simp⟩
    obtain ⟨e, he⟩ := Option.isSome_iff_exists.mp hsome
    obtain ⟨hmem, hkey⟩ := hfound e he
    have hsame : e = (key, value) := List.inj_on_of_nodup_map hnodup hmem h hkey
    rw [he, hsame]
    rfl

theorem Tree.get_eq_some {t : Tree} {p : Path} {node : Node} :
    t.get p = some node ↔ (p, node) ∈ t.nodes := lastOf_eq_some t.nodup_paths

/-! ### Names and paths -/

/-- A path of names. -/
def IsPath (p : Path) : Prop := p ≠ [] ∧ ∀ name ∈ p, isName name = true

theorem IsPath.splitSlash_joinSlash {p : Path} (hp : IsPath p) : splitSlash (joinSlash p) = p := by
  refine List.splitOn_intercalate _ (fun name hname ↦ ?_) hp.1
  have h := of_decide_eq_true (hp.2 name hname)
  exact h.2.2.2.1

theorem IsPath.joinSlash_injective {p q : Path} (hp : IsPath p) (hq : IsPath q)
    (h : joinSlash p = joinSlash q) : p = q := by
  rw [← hp.splitSlash_joinSlash, h, hq.splitSlash_joinSlash]

theorem joinSlash_splitSlash (s : JsString) : joinSlash (splitSlash s) = s :=
  List.intercalate_splitOn _

theorem mem_joinSlash {p : Path} {c : UInt16} (hc : c ∈ joinSlash p) :
    c = 0x2f ∨ ∃ name ∈ p, c ∈ name := by
  induction p with
  | nil => cases hc
  | cons name rest ih =>
    cases rest with
    | nil => exact Or.inr ⟨name, List.mem_cons_self, by simpa [joinSlash] using hc⟩
    | cons next rest =>
      rw [joinSlash, List.intercalate_cons_cons] at hc
      rcases List.mem_append.mp hc with hc | hc
      · rcases List.mem_append.mp hc with hc | hc
        · exact Or.inr ⟨name, List.mem_cons_self, hc⟩
        · exact Or.inl (List.mem_singleton.mp hc)
      · rcases ih hc with h | ⟨name', hname', h⟩
        · exact Or.inl h
        · exact Or.inr ⟨name', List.mem_cons_of_mem _ hname', h⟩

/-- No name of the tree that is not excluded has a backslash, and every target is UTF-8. -/
structure Tree.Plain (t : Tree) : Prop where
  names : ∀ e ∈ t.nodes, isExcluded e.1 = false → ∀ name ∈ e.1, 0x5c ∉ name
  targets : ∀ e ∈ t.nodes, isExcluded e.1 = false → ∀ target, e.2 = .symlink target →
    utf8Encode (utf8Decode target) = target

theorem pathText_eq {p : Path} (hp : ∀ name ∈ p, (0x5c : UInt16) ∉ name) :
    pathText p = joinSlash p := by
  have hunits : ∀ c ∈ joinSlash p, (if c = 0x5c then 0x2f else c) = c := by
    intro c hc
    refine if_neg ?_
    rintro rfl
    rcases mem_joinSlash hc with h | ⟨name, hname, h⟩
    · exact absurd h (by decide)
    · exact hp name hname h
  rw [pathText, List.map_congr_left hunits, List.map_id']

/-! ### What Git tracks -/

/-- The mode of a file is the one Git gives it. -/
inductive Tracked
  | file (mode : ℕ) (bytes : Bytes)
  | symlink (target : Bytes)
  deriving DecidableEq

def Node.tracked : Node → Option Tracked
  | .directory => none
  | .file mode bytes => some (.file (canonicalGitFileMode mode) bytes)
  | .symlink target => some (.symlink target)

def trackedAt (fs : Entries) (p : Path) : Option Tracked := (fs p).bind Node.tracked

def Tracked.entry : Tracked → TreeEntry
  | .file mode bytes => ⟨.file, mode, H.hex bytes⟩
  | .symlink target => ⟨.symlink, 0o120000, H.hex (utf8Encode (utf8Decode target))⟩

def Tracked.content : Tracked → Bytes
  | .file _ bytes => bytes
  | .symlink target => target

def Tracked.IsText : Tracked → Prop
  | .file _ _ => True
  | .symlink target => utf8Encode (utf8Decode target) = target

/-- The tracked contents of a tree. -/
def Tree.contents (t : Tree) : List Bytes :=
  (t.nodes.filter fun e ↦ !isExcluded e.1).filterMap fun e ↦ e.2.tracked.map Tracked.content

def CollisionFree (contents : List Bytes) : Prop :=
  ∀ x ∈ contents, ∀ y ∈ contents, H.digest x = H.digest y → x = y

theorem treeEntry_eq (node : Node) : treeEntry H node = node.tracked.map (Tracked.entry H) := by
  cases node <;> rfl

theorem trackedAt_eq_some {t : Tree} {p : Path} {x : Tracked} :
    trackedAt t.get p = some x ↔ ∃ node, (p, node) ∈ t.nodes ∧ node.tracked = some x := by
  simp only [trackedAt, Option.bind_eq_some_iff, Tree.get_eq_some]

theorem isPath_of_trackedAt {t : Tree} {p : Path} {x : Tracked} (h : trackedAt t.get p = some x) :
    IsPath p := by
  obtain ⟨node, hnode, -⟩ := trackedAt_eq_some.mp h
  exact t.isName_of_mem _ hnode

theorem content_mem {t : Tree} {p : Path} {x : Tracked} (h : trackedAt t.get p = some x)
    (hexcluded : isExcluded p = false) : x.content ∈ t.contents := by
  obtain ⟨node, hnode, hx⟩ := trackedAt_eq_some.mp h
  refine List.mem_filterMap.mpr ⟨(p, node), List.mem_filter.mpr ⟨hnode, by simp [hexcluded]⟩, ?_⟩
  rw [hx]
  rfl

theorem Tree.Plain.isText {t : Tree} (ht : t.Plain) {p : Path} {x : Tracked}
    (h : trackedAt t.get p = some x) (hexcluded : isExcluded p = false) : x.IsText := by
  obtain ⟨node, hnode, hx⟩ := trackedAt_eq_some.mp h
  cases node with
  | directory => cases hx
  | file mode bytes =>
    cases hx
    trivial
  | symlink target =>
    cases hx
    exact ht.targets _ hnode hexcluded target rfl

variable {H}

theorem Tracked.eq_of_entry_eq {x y : Tracked} (hx : x.IsText) (hy : y.IsText)
    (hfree : H.digest x.content = H.digest y.content → x.content = y.content)
    (h : x.entry H = y.entry H) : x = y := by
  cases x with
  | file mode bytes =>
    cases y with
    | symlink target => cases h
    | file mode' bytes' =>
      simp only [Tracked.entry, TreeEntry.mk.injEq, true_and] at h
      obtain ⟨rfl, hdigest⟩ := h
      have hbytes : bytes = bytes' := hfree (hexText_injective hdigest)
      rw [hbytes]
  | symlink target =>
    cases y with
    | file mode bytes => cases h
    | symlink target' =>
      simp only [Tracked.IsText] at hx hy
      simp only [Tracked.entry, TreeEntry.mk.injEq, true_and, hx, hy] at h
      have htarget : target = target' := hfree (hexText_injective h)
      rw [htarget]

/-! ### Collected trees -/

theorem mem_collectTree {t : Tree} (ht : t.Plain) {path : JsString} {entry : TreeEntry} :
    (path, entry) ∈ collectTree H t ↔ ∃ p x, trackedAt t.get p = some x ∧ isExcluded p = false ∧
      x.entry H = entry ∧ path = joinSlash p := by
  simp only [collectTree, List.mem_filterMap, treeEntry_eq, Option.map_map, Prod.exists,
    trackedAt_eq_some]
  constructor
  · rintro ⟨p, node, hnode, h⟩
    split_ifs at h with hexcluded
    have hexcluded : isExcluded p = false := Bool.eq_false_of_not_eq_true hexcluded
    obtain ⟨x, hx, heq⟩ := Option.map_eq_some_iff.mp h
    obtain ⟨rfl, rfl⟩ := Prod.mk.inj heq
    exact ⟨p, x, ⟨node, hnode, hx⟩, hexcluded, rfl, pathText_eq (ht.names _ hnode hexcluded)⟩
  · rintro ⟨p, x, ⟨node, hnode, hx⟩, hexcluded, rfl, rfl⟩
    refine ⟨p, node, hnode, ?_⟩
    rw [if_neg (by simp [hexcluded]), hx]
    simp [pathText_eq (ht.names _ hnode hexcluded)]

theorem nodup_collectTree {t : Tree} (ht : t.Plain) : ((collectTree H t).map Prod.fst).Nodup := by
  rw [List.nodup_iff_pairwise_ne, List.pairwise_map]
  have hnodes : t.nodes.Pairwise fun a b ↦ a.1 ≠ b.1 := List.pairwise_map.mp t.nodup_paths
  have hmem : t.nodes.Pairwise fun a b ↦ a ∈ t.nodes ∧ b ∈ t.nodes ∧ a.1 ≠ b.1 :=
    List.Pairwise.imp_of_mem (fun ha hb h ↦ ⟨ha, hb, h⟩) hnodes
  refine List.Pairwise.filterMap _ ?_ hmem
  rintro ⟨p, node⟩ ⟨q, node'⟩ ⟨hp, hq, hne⟩ b hb b' hb'
  have hjoin : ∀ {r : Path} {n : Node} {c : JsString × TreeEntry}, (r, n) ∈ t.nodes →
      (if isExcluded r = true then none else
        (treeEntry H n).map fun entry ↦ (pathText r, entry)) = some c → c.1 = joinSlash r := by
    intro r n c hr hc
    split_ifs at hc with hexcluded
    obtain ⟨entry, -, rfl⟩ := Option.map_eq_some_iff.mp hc
    exact pathText_eq (ht.names _ hr (Bool.eq_false_of_not_eq_true hexcluded))
  intro heq
  rw [hjoin hp hb, hjoin hq hb'] at heq
  exact hne (IsPath.joinSlash_injective (t.isName_of_mem _ hp) (t.isName_of_mem _ hq) heq)

theorem lastOf_collectTree {t : Tree} (ht : t.Plain) {p : Path} (hp : IsPath p)
    (hexcluded : isExcluded p = false) :
    lastOf (collectTree H t) (joinSlash p) = (trackedAt t.get p).map (Tracked.entry H) := by
  refine Option.ext fun entry ↦ ?_
  rw [lastOf_eq_some (nodup_collectTree ht), mem_collectTree ht, Option.map_eq_some_iff]
  constructor
  · rintro ⟨q, x, hx, -, rfl, heq⟩
    rw [hp.joinSlash_injective (isPath_of_trackedAt hx) heq]
    exact ⟨x, hx, rfl⟩
  · rintro ⟨x, hx, rfl⟩
    exact ⟨p, x, hx, hexcluded, rfl, rfl⟩

/-! ### Inspection -/

theorem normalizeArtifactPath_eq_ok {value path : JsString}
    (h : normalizeArtifactPath value = .ok path) : path = value ∧ value ≠ [] := by
  simp only [normalizeArtifactPath, bind_eq_ok, reject_eq_ok, exists_unit, pure_eq_ok, not_or,
    not_not] at h
  obtain ⟨⟨hne, -⟩, ⟨hvalue, -⟩, -, rfl⟩ := h
  exact ⟨hvalue.symm, hne⟩

theorem mapEach_normalizeArtifactPath {values paths : List JsString}
    (h : mapEach normalizeArtifactPath values = .ok paths) :
    paths = values ∧ ∀ path ∈ paths, path ≠ [] := by
  rw [mapEach_eq_ok] at h
  induction h with
  | nil => exact ⟨rfl, fun _ h ↦ nomatch h⟩
  | cons hpath _ ih =>
    obtain ⟨rfl, hne⟩ := normalizeArtifactPath_eq_ok hpath
    obtain ⟨rfl, hrest⟩ := ih
    exact ⟨rfl, List.forall_mem_cons.mpr ⟨hne, hrest⟩⟩

theorem lstatIfExists_eq_ok {fs : Entries} {p : Path} {node : Option Node}
    (h : lstatIfExists fs p = .ok node) : node = fs p ∧ ∀ name ∈ p, (0 : UInt16) ∉ name := by
  simp only [lstatIfExists, bind_eq_ok, reject_eq_ok, exists_unit, pure_eq_ok] at h
  obtain ⟨hnul, -, rfl⟩ := h
  refine ⟨rfl, fun name hname hmem ↦ hnul ?_⟩
  exact List.any_eq_true.mpr ⟨name, hname, decide_eq_true hmem⟩

theorem notMem_of_assertNoSymlinkComponents {fs : Entries} {p : Path} {u : Unit} (hne : p ≠ [])
    (h : assertNoSymlinkComponents fs p = .ok u) : ∀ name ∈ p, (0 : UInt16) ∉ name := by
  have hmem : p ∈ p.inits.tail := by
    cases p with
    | nil => exact absurd rfl hne
    | cons name rest =>
      rw [List.inits_cons, List.tail_cons]
      exact List.mem_map_of_mem ((List.mem_inits _ _).mpr (List.prefix_refl rest))
  have hcheck := forEach_eq_ok.mp h p hmem
  simp only [bind_eq_ok] at hcheck
  obtain ⟨_, hstat, -⟩ := hcheck
  exact (lstatIfExists_eq_ok hstat).2

theorem joinNul_injective {xs ys : List JsString} (hxs : ∀ x ∈ xs, x ≠ [] ∧ (0 : UInt16) ∉ x)
    (hys : ∀ y ∈ ys, y ≠ [] ∧ (0 : UInt16) ∉ y) (h : joinNul xs = joinNul ys) : xs = ys := by
  have hnil : ∀ {zs : List JsString}, (∀ z ∈ zs, z ≠ [] ∧ (0 : UInt16) ∉ z) → joinNul zs = [] →
      zs = [] := by
    intro zs hzs hjoin
    cases zs with
    | nil => rfl
    | cons z zs =>
      have hz := (hzs z List.mem_cons_self).1
      cases zs with
      | nil => exact absurd (by simpa [joinNul] using hjoin) hz
      | cons z' zs =>
        rw [joinNul, List.intercalate_cons_cons] at hjoin
        simp at hjoin
  have hsplit : ∀ {zs : List JsString}, (∀ z ∈ zs, z ≠ [] ∧ (0 : UInt16) ∉ z) → zs ≠ [] →
      (joinNul zs).splitOn 0 = zs := fun hzs hne ↦
    List.splitOn_intercalate _ (fun z hz ↦ (hzs z hz).2) hne
  by_cases hx : xs = []
  · subst hx
    exact (hnil hys h.symm).symm
  · by_cases hy : ys = []
    · subst hy
      exact hnil hxs h
    · rw [← hsplit hxs hx, h, hsplit hys hy]

theorem mem_actualFiles {old new : List (JsString × TreeEntry)}
    (hold : (old.map Prod.fst).Nodup) (hnew : (new.map Prod.fst).Nodup) {path : JsString} :
    path ∈ actualFiles old new ↔ lastOf old path ≠ lastOf new path := by
  have hkey : ∀ {entries : List (JsString × TreeEntry)}, (entries.map Prod.fst).Nodup →
      lastOf entries path ≠ none → path ∈ entries.map Prod.fst := by
    intro entries hnodup hsome
    obtain ⟨entry, hentry⟩ := Option.ne_none_iff_exists'.mp hsome
    exact List.mem_map_of_mem (f := Prod.fst) ((lastOf_eq_some hnodup).mp hentry)
  simp only [actualFiles, List.mem_insertionSort, List.mem_filter, List.mem_dedup,
    List.mem_append, decide_eq_true_eq]
  refine ⟨And.right, fun hne ↦ ⟨?_, hne⟩⟩
  by_cases hnone : lastOf old path = none
  · exact Or.inr (hkey hnew fun h ↦ hne (hnone.trans h.symm))
  · exact Or.inl (hkey hold hnone)

variable {base proposed : Tree} {reported : List JsString} {artifact : VerifiedArtifact}

theorem exists_path_of_mem_actualFiles (hbase : base.Plain) (hproposed : proposed.Plain)
    {path : JsString}
    (h : path ∈ actualFiles (collectTree H base) (collectTree H proposed)) :
    ∃ p, IsPath p ∧ isExcluded p = false ∧ path = joinSlash p := by
  have hsome : ∀ {t : Tree}, t.Plain → lastOf (collectTree H t) path ≠ none →
      ∃ p, IsPath p ∧ isExcluded p = false ∧ path = joinSlash p := by
    intro t ht hne
    obtain ⟨entry, hentry⟩ := Option.ne_none_iff_exists'.mp hne
    obtain ⟨p, x, hx, hexcluded, -, heq⟩ :=
      (mem_collectTree ht).mp ((lastOf_eq_some (nodup_collectTree ht)).mp hentry)
    exact ⟨p, isPath_of_trackedAt hx, hexcluded, heq⟩
  rw [mem_actualFiles (nodup_collectTree hbase) (nodup_collectTree hproposed)] at h
  by_cases hnone : lastOf (collectTree H base) path = none
  · exact hsome hproposed fun hnew ↦ h (hnone.trans hnew.symm)
  · exact hsome hbase hnone

theorem IsPath.joinSlash_ne_nil {p : Path} (hp : IsPath p) : joinSlash p ≠ [] := by
  intro h
  have hsplit := hp.splitSlash_joinSlash
  rw [h] at hsplit
  have hempty : ([] : JsString) ∈ p := hsplit ▸ List.mem_singleton_self _
  exact absurd (hp.2 [] hempty) (by decide)

theorem IsPath.zero_notMem {p : Path} (hp : IsPath p) : (0 : UInt16) ∉ joinSlash p := by
  intro h
  rcases mem_joinSlash h with h | ⟨name, hname, h⟩
  · exact absurd h (by decide)
  · exact (of_decide_eq_true (hp.2 name hname)).2.2.2.2 h

/-- An inspection that returns: the reported paths are the ones whose entries differ. -/
theorem inspectVerifiedArtifact_eq_ok (hbase : base.Plain) (hproposed : proposed.Plain)
    (h : inspectVerifiedArtifact H base proposed reported = .ok artifact) :
    (∀ path, path ∈ reported ↔ path ∈ artifact.files) ∧
      artifact.files = actualFiles (collectTree H base) (collectTree H proposed) ∧
      artifact.digest = H.hex
        (artifactBytes (collectTree H base) (collectTree H proposed) artifact.files) := by
  simp only [inspectVerifiedArtifact, bind_eq_ok, reject_eq_ok, exists_unit, pure_eq_ok,
    not_not, forEach_eq_ok] at h
  obtain ⟨normalized, hnormalized, hjoin, hregular, rfl⟩ := h
  obtain ⟨rfl, hne⟩ := mapEach_normalizeArtifactPath hnormalized
  have hmem : ∀ path, path ∈ normalized ↔
      path ∈ normalized.dedup.insertionSort (· ≤ ·) := by
    simp
  have hfiles : ∀ path ∈ normalized.dedup.insertionSort (· ≤ ·),
      path ≠ [] ∧ (0 : UInt16) ∉ path := by
    intro path hpath
    refine ⟨hne path ((hmem path).mpr hpath), ?_⟩
    have hcheck := (hregular path hpath).1
    simp only [assertRegularArtifactEntry, bind_eq_ok, exists_unit] at hcheck
    have hnul := notMem_of_assertNoSymlinkComponents (List.splitOn_ne_nil _ _) hcheck.1
    intro hzero
    rw [← joinSlash_splitSlash path] at hzero
    rcases mem_joinSlash hzero with hslash | ⟨name, hname, hin⟩
    · exact absurd hslash (by decide)
    · exact hnul name hname hin
  have hactual : ∀ path ∈ actualFiles (collectTree H base) (collectTree H proposed),
      path ≠ [] ∧ (0 : UInt16) ∉ path := by
    intro path hpath
    obtain ⟨p, hp, -, rfl⟩ := exists_path_of_mem_actualFiles hbase hproposed hpath
    exact ⟨hp.joinSlash_ne_nil, hp.zero_notMem⟩
  exact ⟨hmem, (joinNul_injective hactual hfiles hjoin).symm, rfl⟩

theorem trackedAt_eq_of_entry_eq {t t' : Tree} (ht : t.Plain) (ht' : t'.Plain) {p : Path}
    (hexcluded : isExcluded p = false)
    (hfree : ∀ x ∈ t.contents, ∀ y ∈ t'.contents, H.digest x = H.digest y → x = y)
    (h : (trackedAt t.get p).map (Tracked.entry H) = (trackedAt t'.get p).map (Tracked.entry H)) :
    trackedAt t.get p = trackedAt t'.get p := by
  cases hx : trackedAt t.get p with
  | none =>
    rw [hx, Option.map_none] at h
    exact (Option.map_eq_none_iff.mp h.symm).symm
  | some x =>
    rw [hx, Option.map_some] at h
    obtain ⟨y, hy, hentry⟩ := Option.map_eq_some_iff.mp h.symm
    rw [hy, Tracked.eq_of_entry_eq (ht.isText hx hexcluded) (ht'.isText hy hexcluded)
      (hfree _ (content_mem hx hexcluded) _ (content_mem hy hexcluded)) hentry.symm]

/-- **The reported set is the set of the paths at which the two trees differ.** -/
theorem mem_files_iff (hbase : base.Plain) (hproposed : proposed.Plain)
    (hfree : CollisionFree H (base.contents ++ proposed.contents)) {path : JsString} :
    path ∈ actualFiles (collectTree H base) (collectTree H proposed) ↔
      ∃ p, IsPath p ∧ isExcluded p = false ∧ path = joinSlash p ∧
        trackedAt base.get p ≠ trackedAt proposed.get p := by
  rw [mem_actualFiles (nodup_collectTree hbase) (nodup_collectTree hproposed)]
  constructor
  · intro hne
    obtain ⟨p, hp, hexcluded, rfl⟩ := exists_path_of_mem_actualFiles hbase hproposed
      ((mem_actualFiles (nodup_collectTree hbase) (nodup_collectTree hproposed)).mpr hne)
    rw [lastOf_collectTree hbase hp hexcluded, lastOf_collectTree hproposed hp hexcluded] at hne
    exact ⟨p, hp, hexcluded, rfl, fun heq ↦ hne (by rw [heq])⟩
  · rintro ⟨p, hp, hexcluded, rfl, hne⟩ heq
    rw [lastOf_collectTree hbase hp hexcluded, lastOf_collectTree hproposed hp hexcluded] at heq
    exact hne (trackedAt_eq_of_entry_eq hbase hproposed hexcluded (fun x hx y hy ↦
      hfree x (List.mem_append_left _ hx) y (List.mem_append_right _ hy)) heq)

/-! ### Application -/

theorem trackedAt_set_of_ne {fs : Entries} {p q : Path} {node : Option Node} (h : q ≠ p) :
    trackedAt (fs.set p node) q = trackedAt fs q := by
  rw [trackedAt, Entries.set, if_neg h, trackedAt]

theorem trackedAt_set_self {fs : Entries} {p : Path} {node : Option Node} :
    trackedAt (fs.set p node) p = node.bind Node.tracked := by
  rw [trackedAt, Entries.set, if_pos rfl]

/-- A new directory is nothing that Git tracks. -/
theorem trackedAt_mkdirParents (fs : Entries) (p q : Path) :
    trackedAt (mkdirParents fs p) q = trackedAt fs q := by
  unfold trackedAt mkdirParents
  split_ifs with h
  · rw [h.1]
    rfl
  · rfl

theorem canonicalGitFileMode_permissions (mode : ℕ) :
    canonicalGitFileMode (mode &&& 0o777) = canonicalGitFileMode mode := by
  have hbits : mode &&& 0o777 &&& 0o111 = mode &&& 0o111 := by
    rw [Nat.and_assoc]
    rfl
  rw [canonicalGitFileMode, canonicalGitFileMode, hbits]

variable {source destination next : Entries}

/-- Applying one path leaves there what the proposed tree has, and every other path as it was. -/
theorem applyFile_eq_ok {path : JsString}
    (h : applyFile source destination path = .ok next) :
    trackedAt next (splitSlash path) = trackedAt source (splitSlash path) ∧
      ∀ q, q ≠ splitSlash path → trackedAt next q = trackedAt destination q := by
  simp only [applyFile, bind_eq_ok, exists_unit] at h
  obtain ⟨normalized, hnormalized, -, -, proposed, hsource, target, htarget, h⟩ := h
  obtain ⟨rfl, -⟩ := normalizeArtifactPath_eq_ok hnormalized
  obtain ⟨rfl, -⟩ := lstatIfExists_eq_ok hsource
  obtain ⟨rfl, -⟩ := lstatIfExists_eq_ok htarget
  have hcopied : ∀ {mode : ℕ} {bytes : Bytes},
      source (splitSlash normalized) = some (.file mode bytes) →
      (some (Node.file (mode &&& 0o777) bytes)).bind Node.tracked =
        trackedAt source (splitSlash normalized) := by
    intro mode bytes heq
    rw [trackedAt, heq]
    simp [Node.tracked, canonicalGitFileMode_permissions]
  split at h
  · rename_i hs hd
    obtain rfl := pure_eq_ok.mp h
    exact ⟨by rw [trackedAt, hd, trackedAt, hs], fun q _ ↦ rfl⟩
  · rename_i hs hd
    obtain rfl := pure_eq_ok.mp h
    exact ⟨by rw [trackedAt_set_self, trackedAt, hs], fun q hq ↦ trackedAt_set_of_ne hq⟩
  · cases h
  · rename_i hs hd
    obtain rfl := pure_eq_ok.mp h
    exact ⟨by rw [trackedAt_set_self, hcopied hs], fun q hq ↦ trackedAt_set_of_ne hq⟩
  · rename_i hs hd
    simp only [bind_eq_ok, exists_unit, pure_eq_ok] at h
    obtain ⟨-, rfl⟩ := h
    exact ⟨by rw [trackedAt_set_self, hcopied hs],
      fun q hq ↦ by rw [trackedAt_set_of_ne hq, trackedAt_mkdirParents]⟩
  · cases h
  · cases h

/-- Applying every path: each is as proposed, and no other path has changed. -/
theorem applyFiles_eq_ok {files : List JsString}
    (h : applyFiles source files destination = .ok next) :
    (∀ path ∈ files, trackedAt next (splitSlash path) = trackedAt source (splitSlash path)) ∧
      ∀ q, (∀ path ∈ files, q ≠ splitSlash path) → trackedAt next q = trackedAt destination q := by
  induction files generalizing destination with
  | nil =>
    obtain rfl := Except.ok.inj h
    exact ⟨fun _ h ↦ (nomatch h), fun _ _ ↦ rfl⟩
  | cons path files ih =>
    simp only [applyFiles, bind_eq_ok] at h
    obtain ⟨step, hstep, hrest⟩ := h
    obtain ⟨hself, hother⟩ := applyFile_eq_ok hstep
    obtain ⟨hfiles, hframe⟩ := ih hrest
    refine ⟨List.forall_mem_cons.mpr ⟨?_, hfiles⟩, fun q hq ↦ ?_⟩
    · -- A later path may name the same file again.
      by_cases hagain : ∃ later ∈ files, splitSlash path = splitSlash later
      · obtain ⟨later, hlater, heq⟩ := hagain
        rw [heq]
        exact hfiles later hlater
      · rw [hframe _ fun later hlater heq ↦ hagain ⟨later, hlater, heq⟩]
        exact hself
    · rw [hframe q fun later hlater ↦ hq later (List.mem_cons_of_mem _ hlater)]
      exact hother q (hq path List.mem_cons_self)

/-- **The whole change.** A destination that is the base becomes the proposed tree. -/
theorem tracked_applyVerifiedArtifact (hbase : base.Plain) (hproposed : proposed.Plain)
    (hfree : CollisionFree H (base.contents ++ proposed.contents))
    (hinspect : inspectVerifiedArtifact H base proposed reported = .ok artifact)
    (hdestination : ∀ p, IsPath p → isExcluded p = false →
      trackedAt destination p = trackedAt base.get p)
    (happly : applyVerifiedArtifact destination proposed artifact = .ok next) {p : Path}
    (hp : IsPath p) (hexcluded : isExcluded p = false) :
    trackedAt next p = trackedAt proposed.get p := by
  obtain ⟨-, hfiles, -⟩ := inspectVerifiedArtifact_eq_ok hbase hproposed hinspect
  obtain ⟨happlied, hframe⟩ := applyFiles_eq_ok happly
  by_cases hmem : joinSlash p ∈ artifact.files
  · have hself := happlied (joinSlash p) hmem
    rwa [hp.splitSlash_joinSlash] at hself
  · have hunchanged : trackedAt next p = trackedAt destination p := by
      refine hframe p fun path hpath heq ↦ hmem ?_
      rw [heq, joinSlash_splitSlash]
      exact hpath
    rw [hunchanged, hdestination p hp hexcluded]
    by_contra hne
    refine hmem ?_
    rw [hfiles]
    exact (mem_files_iff hbase hproposed hfree).mpr ⟨p, hp, hexcluded, rfl, hne⟩

/-! ### Digests -/

/-- An ASCII character other than NUL. -/
def IsPrintable (c : UInt16) : Prop := c ≠ 0 ∧ c.toNat < 0x80

instance : DecidablePred IsPrintable := fun _ ↦ inferInstanceAs (Decidable (_ ∧ _))

theorem zero_notMem_utf8Encode {s : JsString} (hs : ∀ c ∈ s, IsPrintable c) :
    (0 : UInt8) ∉ utf8Encode s := by
  induction s with
  | nil => exact List.not_mem_nil
  | cons c s ih =>
    obtain ⟨hne, hascii⟩ := hs c List.mem_cons_self
    have hsurrogate : isSurrogate c = false := by
      simp only [isSurrogate, isHighSurrogate, isLowSurrogate, Bool.or_eq_false_iff,
        decide_eq_false_iff_not]
      omega
    have hunit : unitBytes c = [UInt8.ofNat c.toNat] := by
      simp only [isSurrogate] at hsurrogate
      simp [unitBytes, hsurrogate, scalarBytes, hascii]
    rw [utf8Encode_cons hsurrogate, hunit, List.singleton_append, List.mem_cons, not_or]
    refine ⟨fun hzero ↦ hne ?_, ih fun d hd ↦ hs d (List.mem_cons_of_mem c hd)⟩
    have hvalue := congrArg UInt8.toNat hzero
    rw [UInt8.toNat_ofNat', Nat.mod_eq_of_lt (by omega)] at hvalue
    exact UInt16.toNat_inj.mp hvalue.symm

theorem isPrintable_of_isDigit {c : UInt16} (hc : isDigit c = true) : IsPrintable c := by
  have hrange := of_decide_eq_true hc
  refine ⟨?_, by omega⟩
  rintro rfl
  exact absurd hrange.1 (by decide)

theorem isPrintable_of_isLowerHex {c : UInt16} (hc : isLowerHex c = true) : IsPrintable c := by
  rcases Bool.or_eq_true_iff.mp hc with hdigit | hletter
  · exact isPrintable_of_isDigit hdigit
  · have hrange := of_decide_eq_true hletter
    refine ⟨?_, by omega⟩
    rintro rfl
    exact absurd hrange.1 (by decide)

/-- The identity of an entry that Git tracks is a printable text. -/
theorem isPrintable_entryIdentity (x : Option Tracked) :
    ∀ c ∈ entryIdentity (x.map (Tracked.entry H)), IsPrintable c := by
  cases x with
  | none =>
    change ∀ c ∈ js "missing", IsPrintable c
    exact forall_mem_of_all (by decide)
  | some x =>
    have htype : ∀ c ∈ typeText (x.entry H).type, IsPrintable c := by
      cases x with
      | file =>
        change ∀ c ∈ js "file", IsPrintable c
        exact forall_mem_of_all (by decide)
      | symlink =>
        change ∀ c ∈ js "symlink", IsPrintable c
        exact forall_mem_of_all (by decide)
    have hdigest : ∀ c ∈ (x.entry H).digest, IsPrintable c := by
      have hhex : ∀ bytes, ∀ c ∈ H.hex bytes, IsPrintable c := by
        intro bytes c hc
        have hall := H.isHexOfLength_hex bytes
        rw [isHexOfLength, Bool.and_eq_true] at hall
        exact isPrintable_of_isLowerHex (List.all_eq_true.mp hall.2 c hc)
      cases x <;> exact hhex _
    have hcolon : IsPrintable 0x3a := ⟨by decide, by decide⟩
    intro c hc
    rw [Option.map_some, entryIdentity] at hc
    simp only [List.mem_append, List.mem_cons] at hc
    rcases hc with hc | rfl | hc | rfl | hc
    · exact htype c hc
    · exact hcolon
    · exact isPrintable_of_isDigit (isDigit_of_mem_decimalDigits hc)
    · exact hcolon
    · exact hdigest c hc

theorem entryIdentity_injective {e e' : Option TreeEntry}
    (h : entryIdentity e = entryIdentity e') : e = e' := by
  have hcolon : ∀ entry : TreeEntry, (0x3a : UInt16) ∈ entryIdentity (some entry) := fun entry ↦
    List.mem_append_right _ List.mem_cons_self
  have hmissing : (0x3a : UInt16) ∉ entryIdentity none := by
    rw [entryIdentity]
    decide
  have htype : ∀ type, (0x3a : UInt16) ∉ typeText type := by
    rintro (_ | _) <;> decide
  have hdigits : ∀ n, (0x3a : UInt16) ∉ decimalDigits n := fun n hn ↦
    absurd (isDigit_of_mem_decimalDigits hn) (by decide)
  cases e with
  | none =>
    cases e' with
    | none => rfl
    | some entry => exact absurd (h ▸ hcolon entry) hmissing
  | some entry =>
    cases e' with
    | none => exact absurd (h ▸ hcolon entry) hmissing
    | some entry' =>
      obtain ⟨htypes, hrest⟩ := Foundation.Framing.append_cons_injective (htype _) (htype _) h
      obtain ⟨hmodes, hdigest⟩ := Foundation.Framing.append_cons_injective (hdigits _) (hdigits _) hrest
      have htypes : entry.type = entry'.type := by
        revert htypes
        cases entry.type <;> cases entry'.type <;> decide
      have hmodes : entry.mode = entry'.mode := decimalDigits_injective hmodes
      cases entry
      cases entry'
      simp_all

theorem utf8Encode_entryIdentity_injective {x y : Option Tracked}
    (h : utf8Encode (entryIdentity (x.map (Tracked.entry H))) =
      utf8Encode (entryIdentity (y.map (Tracked.entry H)))) :
    x.map (Tracked.entry H) = y.map (Tracked.entry H) :=
  entryIdentity_injective
    (eq_of_utf8Encode_eq (fun c hc ↦ (isPrintable_entryIdentity y c hc).2) h)

/-- Every entry of a collected tree is the one of what Git tracks there. -/
theorem exists_lastOf_eq {t : Tree} (ht : t.Plain) (path : JsString) :
    ∃ x, lastOf (collectTree H t) path = Option.map (Tracked.entry H) x := by
  cases hentry : lastOf (collectTree H t) path with
  | none => exact ⟨none, rfl⟩
  | some entry =>
    obtain ⟨_, x, -, -, rfl, -⟩ :=
      (mem_collectTree ht).mp ((lastOf_eq_some (nodup_collectTree ht)).mp hentry)
    exact ⟨some x, rfl⟩

variable {base' proposed' : Tree}

/-- Equal texts for the same paths: equal entries for each. -/
theorem lastOf_eq_of_flatMap_eq (hbase : base.Plain) (hproposed : proposed.Plain)
    (hbase' : base'.Plain) (hproposed' : proposed'.Plain) {files : List JsString}
    (h : files.flatMap (fileBytes (collectTree H base) (collectTree H proposed)) =
      files.flatMap (fileBytes (collectTree H base') (collectTree H proposed'))) :
    ∀ path ∈ files,
      lastOf (collectTree H base) path = lastOf (collectTree H base') path ∧
        lastOf (collectTree H proposed) path = lastOf (collectTree H proposed') path := by
  induction files with
  | nil => exact fun _ h ↦ nomatch h
  | cons path files ih =>
    obtain ⟨x, hx⟩ := exists_lastOf_eq (H := H) hbase path
    obtain ⟨y, hy⟩ := exists_lastOf_eq (H := H) hproposed path
    obtain ⟨x', hx'⟩ := exists_lastOf_eq (H := H) hbase' path
    obtain ⟨y', hy'⟩ := exists_lastOf_eq (H := H) hproposed' path
    have hzero : ∀ z : Option Tracked,
        (0 : UInt8) ∉ utf8Encode (entryIdentity (z.map (Tracked.entry H))) := fun z ↦
      zero_notMem_utf8Encode (isPrintable_entryIdentity z)
    simp only [List.flatMap_cons, fileBytes, hx, hy, hx', hy', List.append_assoc,
      List.cons_append, List.nil_append] at h
    have hrest := List.tail_eq_of_cons_eq (List.append_cancel_left h)
    obtain ⟨hold, hrest⟩ := Foundation.Framing.append_cons_injective (hzero _) (hzero _) hrest
    obtain ⟨hnew, hrest⟩ := Foundation.Framing.append_cons_injective (hzero _) (hzero _) hrest
    refine List.forall_mem_cons.mpr ⟨?_, ih hrest⟩
    rw [hx, hy, hx', hy']
    exact ⟨utf8Encode_entryIdentity_injective hold, utf8Encode_entryIdentity_injective hnew⟩

/-- **Equal digests.** Artifacts with the same paths and the same digest have the same entries. -/
theorem tracked_eq_of_digest_eq {artifact' : VerifiedArtifact} {reported' : List JsString}
    (hbase : base.Plain) (hproposed : proposed.Plain) (hbase' : base'.Plain)
    (hproposed' : proposed'.Plain)
    (hfree : CollisionFree H ((base.contents ++ proposed.contents) ++
      (base'.contents ++ proposed'.contents)))
    (hstream : H.digest (artifactBytes (collectTree H base) (collectTree H proposed)
        artifact.files) =
      H.digest (artifactBytes (collectTree H base') (collectTree H proposed') artifact.files) →
      artifactBytes (collectTree H base) (collectTree H proposed) artifact.files =
        artifactBytes (collectTree H base') (collectTree H proposed') artifact.files)
    (hinspect : inspectVerifiedArtifact H base proposed reported = .ok artifact)
    (hinspect' : inspectVerifiedArtifact H base' proposed' reported' = .ok artifact')
    (hfiles : artifact.files = artifact'.files) (hdigest : artifact.digest = artifact'.digest)
    {p : Path} (hp : IsPath p) (hexcluded : isExcluded p = false)
    (hmem : joinSlash p ∈ artifact.files) :
    trackedAt base.get p = trackedAt base'.get p ∧
      trackedAt proposed.get p = trackedAt proposed'.get p := by
  obtain ⟨-, -, htext⟩ := inspectVerifiedArtifact_eq_ok hbase hproposed hinspect
  obtain ⟨-, -, htext'⟩ := inspectVerifiedArtifact_eq_ok hbase' hproposed' hinspect'
  rw [htext, htext', ← hfiles] at hdigest
  have hbytes := List.tail_eq_of_cons_eq
    (List.append_cancel_left (hstream (hexText_injective hdigest)))
  obtain ⟨hold, hnew⟩ :=
    lastOf_eq_of_flatMap_eq hbase hproposed hbase' hproposed' hbytes _ hmem
  rw [lastOf_collectTree hbase hp hexcluded, lastOf_collectTree hbase' hp hexcluded] at hold
  rw [lastOf_collectTree hproposed hp hexcluded, lastOf_collectTree hproposed' hp hexcluded] at hnew
  constructor
  · refine trackedAt_eq_of_entry_eq hbase hbase' hexcluded (fun x hx y hy ↦ hfree x ?_ y ?_) hold
    · exact List.mem_append_left _ (List.mem_append_left _ hx)
    · exact List.mem_append_right _ (List.mem_append_left _ hy)
  · refine trackedAt_eq_of_entry_eq hproposed hproposed' hexcluded
      (fun x hx y hy ↦ hfree x ?_ y ?_) hnew
    · exact List.mem_append_left _ (List.mem_append_right _ hx)
    · exact List.mem_append_right _ (List.mem_append_right _ hy)

/-! ### Verified artifacts -/

/-- **A verified artifact is the complete change of a tree.** For plain trees whose contents the
hash tells apart: the reported paths are the ones at which the trees differ; applying the artifact
to the base makes the proposed tree; and artifacts with the same paths and the same digest are made
from the same entries. -/
theorem verified_artifact_complete (hbase : base.Plain) (hproposed : proposed.Plain)
    (hfree : CollisionFree H (base.contents ++ proposed.contents))
    (hinspect : inspectVerifiedArtifact H base proposed reported = .ok artifact) :
    (∀ path, path ∈ reported ↔ ∃ p, IsPath p ∧ isExcluded p = false ∧ path = joinSlash p ∧
      trackedAt base.get p ≠ trackedAt proposed.get p) ∧
    (∀ destination next,
      (∀ p, IsPath p → isExcluded p = false → trackedAt destination p = trackedAt base.get p) →
      applyVerifiedArtifact destination proposed artifact = .ok next →
      assertAppliedArtifact H next proposed artifact = .ok () →
      ∀ p, IsPath p → isExcluded p = false → trackedAt next p = trackedAt proposed.get p) ∧
    ∀ base' proposed' reported' artifact', base'.Plain → proposed'.Plain →
      CollisionFree H ((base.contents ++ proposed.contents) ++
        (base'.contents ++ proposed'.contents)) →
      inspectVerifiedArtifact H base' proposed' reported' = .ok artifact' →
      artifact.files = artifact'.files → artifact.digest = artifact'.digest →
      (H.digest (artifactBytes (collectTree H base) (collectTree H proposed) artifact.files) =
          H.digest
            (artifactBytes (collectTree H base') (collectTree H proposed') artifact.files) →
        artifactBytes (collectTree H base) (collectTree H proposed) artifact.files =
          artifactBytes (collectTree H base') (collectTree H proposed') artifact.files) →
      ∀ p, IsPath p → isExcluded p = false → joinSlash p ∈ artifact.files →
        trackedAt base.get p = trackedAt base'.get p ∧
          trackedAt proposed.get p = trackedAt proposed'.get p := by
  obtain ⟨hmem, hfiles, -⟩ := inspectVerifiedArtifact_eq_ok hbase hproposed hinspect
  refine ⟨fun path ↦ ?_, fun destination next hdestination happly _ p hp hexcluded ↦ ?_, ?_⟩
  · rw [hmem, hfiles]
    exact mem_files_iff hbase hproposed hfree
  · exact tracked_applyVerifiedArtifact hbase hproposed hfree hinspect hdestination happly hp
      hexcluded
  · intro base' proposed' reported' artifact' hbase' hproposed' hall hinspect' hsame hdigest hstream
      p hp hexcluded hpath
    exact tracked_eq_of_digest_eq hbase hproposed hbase' hproposed' hall hstream hinspect hinspect'
      hsame hdigest hp hexcluded hpath

/-- A tree of one file. -/
def oneFile (name : JsString) (hname : isName name = true) (bytes : Bytes) : Tree where
  nodes := [([name], .file 0o644 bytes)]
  nodup_paths := by simp
  isName_of_mem := by
    intro e he
    rw [List.mem_singleton.mp he]
    exact ⟨List.cons_ne_nil _ _, fun n hn ↦ List.mem_singleton.mp hn ▸ hname⟩

def backslashFile (bytes : Bytes) : Tree := oneFile (js "a\\b") (by decide) bytes

/-- A changed file whose name has a backslash is taken for a file of a directory, which neither tree
has. -/
theorem backslash_collected_as_slash :
    ¬ ∀ (H : HashFunction 32) (base proposed : Tree) (reported : List JsString)
      (artifact : VerifiedArtifact),
      CollisionFree H (base.contents ++ proposed.contents) →
      inspectVerifiedArtifact H base proposed reported = .ok artifact →
      ∀ path, path ∈ reported ↔ ∃ p, IsPath p ∧ isExcluded p = false ∧ path = joinSlash p ∧
        trackedAt base.get p ≠ trackedAt proposed.get p := by
  intro h
  have hfree : CollisionFree HashFunction.polynomial
      ((backslashFile [1]).contents ++ (backslashFile [2]).contents) := by
    unfold CollisionFree
    decide +kernel
  cases hinspect : inspectVerifiedArtifact HashFunction.polynomial (backslashFile [1])
      (backslashFile [2]) [js "a/b"] with
  | error e =>
    have hok : (inspectVerifiedArtifact HashFunction.polynomial (backslashFile [1])
        (backslashFile [2]) [js "a/b"]).isOk = true := by
      decide +kernel
    rw [hinspect] at hok
    cases hok
  | ok artifact =>
    obtain ⟨p, hp, -, heq, hne⟩ :=
      (h _ _ _ _ artifact hfree hinspect (js "a/b")).mp (List.mem_singleton_self _)
    have hpath : p = splitSlash (js "a/b") := by rw [heq, hp.splitSlash_joinSlash]
    refine hne ?_
    rw [hpath]
    decide +kernel

/-- A file that changes and becomes executable, and a file in a new directory. -/
def sampleProposed : Tree where
  nodes := [([js "a"], .file 0o755 [2]), ([js "d"], .directory),
    ([js "d", js "b"], .file 0o600 [3])]
  nodup_paths := by decide
  isName_of_mem := by decide

theorem plain_oneFile (name : JsString) (hname : isName name = true) (bytes : Bytes)
    (hplain : 0x5c ∉ name) : (oneFile name hname bytes).Plain where
  names e he _ n hn := by
    rw [List.mem_singleton.mp he] at hn
    exact List.mem_singleton.mp hn ▸ hplain
  targets e he _ target htarget := by
    rw [List.mem_singleton.mp he] at htarget
    cases htarget

theorem plain_sampleProposed : sampleProposed.Plain where
  names := by decide
  targets e he _ target htarget := by
    rcases List.mem_cons.mp he with rfl | he
    · cases htarget
    rcases List.mem_cons.mp he with rfl | he
    · cases htarget
    rw [List.mem_singleton.mp he] at htarget
    cases htarget

def sampleBase : Tree := oneFile (js "a") (by decide) [1]

def sampleArtifact : VerifiedArtifact where
  files := [js "a", js "d/b"]
  digest := HashFunction.polynomial.hex (artifactBytes
    (collectTree HashFunction.polynomial sampleBase)
    (collectTree HashFunction.polynomial sampleProposed) [js "a", js "d/b"])

theorem verified_artifact_complete_sample :
    inspectVerifiedArtifact HashFunction.polynomial sampleBase sampleProposed
        [js "d/b", js "a"] = .ok sampleArtifact ∧
      ∃ next, applyVerifiedArtifact sampleBase.get sampleProposed sampleArtifact = .ok next ∧
        ∀ p, IsPath p → isExcluded p = false →
          trackedAt next p = trackedAt sampleProposed.get p := by
  have hinspect : inspectVerifiedArtifact HashFunction.polynomial sampleBase sampleProposed
      [js "d/b", js "a"] = .ok sampleArtifact := by
    decide +kernel
  have hfree : CollisionFree HashFunction.polynomial
      (sampleBase.contents ++ sampleProposed.contents) := by
    unfold CollisionFree
    decide +kernel
  have happlied : (applyVerifiedArtifact sampleBase.get sampleProposed sampleArtifact >>= fun next ↦
      assertAppliedArtifact HashFunction.polynomial next sampleProposed sampleArtifact) =
        .ok () := by
    decide +kernel
  obtain ⟨next, happly, hassert⟩ := bind_eq_ok.mp happlied
  obtain ⟨-, hcomplete, -⟩ := verified_artifact_complete
    (plain_oneFile (js "a") (by decide) [1] (by decide)) plain_sampleProposed hfree hinspect
  exact ⟨hinspect, next, happly,
    hcomplete sampleBase.get next (fun _ _ _ ↦ rfl) happly hassert⟩

end ApiMigrator.App.Artifact
