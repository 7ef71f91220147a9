import ApiMigrator.App.GitTree

/-!
The directories that insertion builds: what a directory holds, when a file can be inserted, and
that a list of entries is accepted exactly if its paths can stand beside each other.
-/

set_option autoImplicit false
set_option relaxedAutoImplicit false

namespace ApiMigrator.App.GitTree

open Foundation.Text Foundation.Outcome Foundation.Pattern Foundation.Binary

/-! ### Maps -/

section Maps

variable {α : Type} {entries : List (JsString × α)} {key k : JsString} {value v : α}

theorem mem_mapSet : (k, v) ∈ mapSet entries key value ↔
    k = key ∧ v = value ∨ k ≠ key ∧ (k, v) ∈ entries := by
  rw [mapSet]
  split_ifs with hkey
  · rw [List.mem_map]
    constructor
    · rintro ⟨e, he, heq⟩
      split_ifs at heq with hsame
      · obtain ⟨rfl, rfl⟩ := Prod.mk.inj heq
        exact Or.inl ⟨rfl, rfl⟩
      · subst heq
        exact Or.inr ⟨hsame, he⟩
    · rintro (⟨rfl, rfl⟩ | ⟨hne, hmem⟩)
      · obtain ⟨e, he, hfirst⟩ := List.mem_map.mp hkey
        exact ⟨e, he, if_pos hfirst⟩
      · exact ⟨(k, v), hmem, if_neg hne⟩
  · rw [List.mem_append, List.mem_singleton, Prod.mk.injEq]
    constructor
    · rintro (hmem | hsame)
      · exact Or.inr ⟨fun heq ↦ hkey (heq ▸ List.mem_map_of_mem hmem), hmem⟩
      · exact Or.inl hsame
    · rintro (hsame | ⟨-, hmem⟩)
      · exact Or.inr hsame
      · exact Or.inl hmem

theorem keys_mapSet : (mapSet entries key value).map Prod.fst =
    if key ∈ entries.map Prod.fst then entries.map Prod.fst
    else entries.map Prod.fst ++ [key] := by
  rw [mapSet]
  split_ifs with hkey
  · rw [List.map_map]
    refine List.map_congr_left fun e _ ↦ ?_
    rw [Function.comp_apply]
    split_ifs with hsame
    · exact hsame.symm
    · rfl
  · rw [List.map_append, List.map_singleton]

theorem mem_keys_mapSet :
    k ∈ (mapSet entries key value).map Prod.fst ↔ k = key ∨ k ∈ entries.map Prod.fst := by
  rw [keys_mapSet]
  split_ifs with hkey
  · exact ⟨Or.inr, fun h ↦ h.elim (fun heq ↦ heq ▸ hkey) id⟩
  · rw [List.mem_append, List.mem_singleton, or_comm]

theorem nodup_keys_mapSet (h : (entries.map Prod.fst).Nodup) :
    ((mapSet entries key value).map Prod.fst).Nodup := by
  rw [keys_mapSet]
  split_ifs with hkey
  · exact h
  · exact List.nodup_append.mpr ⟨h, List.nodup_singleton key, fun a ha b hb hab ↦
      hkey (List.mem_singleton.mp hb ▸ hab ▸ ha)⟩

theorem eq_of_mem_entries (h : (entries.map Prod.fst).Nodup) (hv : (k, v) ∈ entries)
    (hvalue : (k, value) ∈ entries) : v = value := by
  have := List.inj_on_of_nodup_map h hv hvalue rfl
  exact (Prod.mk.inj this).2

end Maps

/-! ### Directories -/

/-- The name of a file or directory. -/
structure IsName (name : JsString) : Prop where
  wellFormed : isWellFormed name = true
  slash : (0x2f : UInt16) ∉ name
  nul : (0 : UInt16) ∉ name

namespace DirectoryNode

/-- The file at a path. -/
def Holds : List JsString → DirectoryNode → FileNode → Prop
  | [], _, _ => False
  | [name], .mk _ files, file => (name, file) ∈ files
  | part :: next :: rest, .mk directories _, file =>
    ∃ child, (part, child) ∈ directories ∧ Holds (next :: rest) child file

/-- What insertion keeps: names are distinct, and no directory is empty. -/
inductive Good : DirectoryNode → Prop
  | mk {directories : List (JsString × DirectoryNode)} {files : List (JsString × FileNode)}
      (distinctDirectories : (directories.map Prod.fst).Nodup)
      (distinctFiles : (files.map Prod.fst).Nodup)
      (apart : ∀ name ∈ directories.map Prod.fst, name ∉ files.map Prod.fst)
      (directoryNames : ∀ name ∈ directories.map Prod.fst, IsName name)
      (fileNames : ∀ name ∈ files.map Prod.fst, IsName name)
      (children : ∀ name child, (name, child) ∈ directories → Good child)
      (inhabited : ∀ name child, (name, child) ∈ directories → ∃ path file,
        Holds path child file) :
      Good (.mk directories files)

theorem good_empty : Good empty := by
  refine .mk List.nodup_nil List.nodup_nil ?_ ?_ ?_ ?_ ?_ <;> simp

variable {directories : List (JsString × DirectoryNode)} {files : List (JsString × FileNode)}
  {part name : JsString} {rest path : List JsString} {file : FileNode} {d : DirectoryNode}

theorem ne_nil_of_holds (h : Holds path d file) : path ≠ [] := by
  rintro rfl
  exact h

theorem holds_cons (hrest : rest ≠ []) : Holds (part :: rest) (.mk directories files) file ↔
    ∃ child, (part, child) ∈ directories ∧ Holds rest child file := by
  cases rest with
  | nil => exact absurd rfl hrest
  | cons next rest => exact Iff.rfl

theorem not_holds_empty : ¬ Holds path empty file := by
  intro h
  cases path with
  | nil => exact h
  | cons part rest =>
    by_cases hrest : rest = []
    · subst hrest
      exact List.not_mem_nil h
    · obtain ⟨child, hchild, -⟩ := (holds_cons hrest).mp h
      exact List.not_mem_nil hchild

theorem childDirectory_mem (h : part ∈ directories.map Prod.fst) :
    (part, childDirectory directories part) ∈ directories := by
  rw [childDirectory]
  split
  · rename_i e hfind
    obtain rfl : e.1 = part := by simpa using List.find?_some hfind
    exact List.mem_of_find?_eq_some hfind
  · rename_i hfind
    obtain ⟨e, he, rfl⟩ := List.mem_map.mp h
    have := List.find?_eq_none.mp hfind e he
    simp at this

theorem childDirectory_of_notMem (h : part ∉ directories.map Prod.fst) :
    childDirectory directories part = empty := by
  rw [childDirectory]
  split
  · rename_i e hfind
    obtain rfl : e.1 = part := by simpa using List.find?_some hfind
    exact absurd (List.mem_map_of_mem (List.mem_of_find?_eq_some hfind)) h
  · rfl

/-- Below a name, a directory holds what its child of that name holds. -/
theorem holds_cons_iff (hdistinct : (directories.map Prod.fst).Nodup) (hrest : rest ≠ []) :
    Holds (part :: rest) (.mk directories files) file ↔
      Holds rest (childDirectory directories part) file := by
  rw [holds_cons hrest]
  by_cases hpart : part ∈ directories.map Prod.fst
  · have hmem := childDirectory_mem hpart
    constructor
    · rintro ⟨child, hchild, hholds⟩
      rwa [eq_of_mem_entries hdistinct hmem hchild]
    · exact fun hholds ↦ ⟨_, hmem, hholds⟩
  · rw [childDirectory_of_notMem hpart]
    constructor
    · rintro ⟨child, hchild, -⟩
      exact absurd (List.mem_map_of_mem hchild) hpart
    · exact fun hholds ↦ absurd hholds not_holds_empty

/-- A file of the directory stands in the way of a path: one of the two is a directory of the
other. -/
def Clashes (d : DirectoryNode) (path : List JsString) : Prop :=
  ∃ other file, Holds other d file ∧ other ≠ path ∧ (other <+: path ∨ path <+: other)

theorem clashes_singleton (hgood : Good (.mk directories files)) :
    Clashes (.mk directories files) [name] ↔ name ∈ directories.map Prod.fst := by
  obtain ⟨hdistinct, -, -, -, -, -, hinhabited⟩ := hgood
  constructor
  · rintro ⟨other, file, hholds, hne, hprefix | hprefix⟩
    · cases other with
      | nil => exact absurd rfl (ne_nil_of_holds hholds)
      | cons first tail =>
        obtain ⟨rfl, htail⟩ := List.cons_prefix_cons.mp hprefix
        obtain rfl := List.prefix_nil.mp htail
        exact absurd rfl hne
    · obtain ⟨tail, rfl⟩ := hprefix
      have htail : tail ≠ [] := by
        rintro rfl
        exact hne rfl
      obtain ⟨child, hchild, -⟩ := (holds_cons htail).mp hholds
      exact List.mem_map_of_mem hchild
  · intro hname
    obtain ⟨path, file, hholds⟩ := hinhabited _ _ (childDirectory_mem hname)
    have hpath := ne_nil_of_holds hholds
    exact ⟨name :: path, file, (holds_cons_iff hdistinct hpath).mpr hholds, by simpa using hpath,
      Or.inr ⟨path, rfl⟩⟩

theorem clashes_cons (hgood : Good (.mk directories files)) (hrest : rest ≠ []) :
    Clashes (.mk directories files) (part :: rest) ↔
      part ∈ files.map Prod.fst ∨ Clashes (childDirectory directories part) rest := by
  obtain ⟨hdistinct, -, -, -, -, -, -⟩ := hgood
  constructor
  · rintro ⟨other, file, hholds, hne, hclash⟩
    cases other with
    | nil => exact absurd rfl (ne_nil_of_holds hholds)
    | cons first tail =>
      obtain rfl : first = part := by
        obtain h | h := hclash
        · exact (List.cons_prefix_cons.mp h).1
        · exact (List.cons_prefix_cons.mp h).1.symm
      by_cases htail : tail = []
      · subst htail
        exact Or.inl (List.mem_map_of_mem hholds)
      · refine Or.inr ⟨tail, file, (holds_cons_iff hdistinct htail).mp hholds, ?_, ?_⟩
        · rintro rfl
          exact hne rfl
        · simpa using hclash
  · rintro (hfile | ⟨other, file, hholds, hne, hclash⟩)
    · obtain ⟨⟨name, file⟩, hmem, rfl⟩ := List.mem_map.mp hfile
      exact ⟨[name], file, hmem, by simpa using hrest.symm, Or.inl ⟨rest, rfl⟩⟩
    · have hother := ne_nil_of_holds hholds
      exact ⟨part :: other, file, (holds_cons_iff hdistinct hother).mpr hholds, by simpa using hne,
        by simpa using hclash⟩

theorem Good.childDirectory (hgood : Good (.mk directories files)) (part : JsString) :
    Good (GitTree.childDirectory directories part) := by
  obtain ⟨-, -, -, -, -, hchildren, -⟩ := hgood
  by_cases hpart : part ∈ directories.map Prod.fst
  · exact hchildren _ _ (childDirectory_mem hpart)
  · rw [childDirectory_of_notMem hpart]
    exact good_empty

/-- A file is set in a directory that has no directory of its name. -/
private theorem good_setFile (hgood : Good (.mk directories files)) (hname : IsName name)
    (hapart : name ∉ directories.map Prod.fst) :
    Good (.mk directories (mapSet files name file)) ∧ ∀ path file',
      Holds path (.mk directories (mapSet files name file)) file' ↔
        path = [name] ∧ file' = file ∨ path ≠ [name] ∧ Holds path (.mk directories files) file' := by
  obtain ⟨hdirectories, hfiles, hdisjoint, hdirectoryNames, hfileNames, hchildren,
    hinhabited⟩ := hgood
  refine ⟨.mk hdirectories (nodup_keys_mapSet hfiles) ?_ hdirectoryNames ?_ hchildren hinhabited, ?_⟩
  · intro part hpart
    rw [mem_keys_mapSet]
    rintro (rfl | hmem)
    · exact hapart hpart
    · exact hdisjoint part hpart hmem
  · intro other hother
    obtain rfl | hother := mem_keys_mapSet.mp hother
    · exact hname
    · exact hfileNames other hother
  · intro path file'
    match path with
    | [] => simp [Holds]
    | [other] =>
      rw [Holds, Holds, mem_mapSet]
      simp
    | part :: next :: rest =>
      rw [holds_cons (by simp), holds_cons (by simp)]
      simp

/-- A child is set under a name that no file has. -/
private theorem good_setDirectory (hgood : Good (.mk directories files)) (hpart : IsName part)
    (hapart : part ∉ files.map Prod.fst) {child : DirectoryNode} (hchild : Good child)
    (hrest : rest ≠ []) (hholds : ∀ path file', Holds path child file' ↔
      path = rest ∧ file' = file ∨
        path ≠ rest ∧ Holds path (GitTree.childDirectory directories part) file') :
    Good (.mk (mapSet directories part child) files) ∧ ∀ path file',
      Holds path (.mk (mapSet directories part child) files) file' ↔
        path = part :: rest ∧ file' = file ∨
          path ≠ part :: rest ∧ Holds path (.mk directories files) file' := by
  obtain ⟨hdirectories, hfiles, hdisjoint, hdirectoryNames, hfileNames, hchildren,
    hinhabited⟩ := hgood
  have hdistinct : ((mapSet directories part child).map Prod.fst).Nodup :=
    nodup_keys_mapSet hdirectories
  have hget : GitTree.childDirectory (mapSet directories part child) part = child :=
    eq_of_mem_entries hdistinct (childDirectory_mem (mem_keys_mapSet.mpr (Or.inl rfl)))
      (mem_mapSet.mpr (Or.inl ⟨rfl, rfl⟩))
  refine ⟨.mk hdistinct hfiles ?_ ?_ hfileNames ?_ ?_, ?_⟩
  · intro name hname
    obtain rfl | hname := mem_keys_mapSet.mp hname
    · exact hapart
    · exact hdisjoint name hname
  · intro name hname
    obtain rfl | hname := mem_keys_mapSet.mp hname
    · exact hpart
    · exact hdirectoryNames name hname
  · intro name child' hmem
    obtain ⟨rfl, rfl⟩ | ⟨-, hmem⟩ := mem_mapSet.mp hmem
    · exact hchild
    · exact hchildren name child' hmem
  · intro name child' hmem
    obtain ⟨rfl, rfl⟩ | ⟨-, hmem⟩ := mem_mapSet.mp hmem
    · exact ⟨rest, file, (hholds rest file).mpr (Or.inl ⟨rfl, rfl⟩)⟩
    · exact hinhabited name child' hmem
  · intro path file'
    cases path with
    | nil => simp [Holds]
    | cons first tail =>
      by_cases htail : tail = []
      · subst htail
        simp [Holds, hrest.symm]
      · by_cases hfirst : first = part
        · subst hfirst
          rw [holds_cons_iff hdistinct htail, hget, hholds tail file',
            holds_cons_iff hdirectories htail]
          simp
        · rw [holds_cons htail, holds_cons htail]
          simp [mem_mapSet, hfirst]

/-- **Insertion.** A file is inserted exactly where no file of the directory clashes with its
path, and then the directory holds it beside what it held elsewhere. -/
theorem insert_spec {path : JsString} {parts : List JsString} (hgood : Good d)
    (hnames : ∀ name ∈ parts, IsName name) (hparts : parts ≠ []) :
    (Clashes d parts → ∃ e, insert path file parts d = .error e) ∧
      (¬ Clashes d parts → ∃ d', insert path file parts d = .ok d' ∧ Good d' ∧ ∀ path file',
        Holds path d' file' ↔
          path = parts ∧ file' = file ∨ path ≠ parts ∧ Holds path d file') := by
  induction parts generalizing d with
  | nil => exact absurd rfl hparts
  | cons part rest ih =>
    obtain ⟨directories, files⟩ := d
    by_cases hrest : rest = []
    · subst hrest
      rw [clashes_singleton hgood, insert]
      refine ⟨fun hname ↦ ⟨_, by rw [reject, if_pos hname]; rfl⟩, fun hname ↦ ?_⟩
      exact ⟨_, by rw [reject, if_neg hname]; rfl,
        good_setFile hgood (hnames part List.mem_cons_self) hname⟩
    · have hinsert : insert path file (part :: rest) (.mk directories files) = (do
          reject (part ∈ files.map Prod.fst) "Git tree path collides with a file"
          let child ← insert path file rest (GitTree.childDirectory directories part)
          return .mk (mapSet directories part child) files) := by
        cases rest with
        | nil => exact absurd rfl hrest
        | cons next rest => rfl
      obtain ⟨hclash, hclear⟩ := ih (hgood.childDirectory part)
        (fun name hname ↦ hnames name (List.mem_cons_of_mem part hname)) hrest
      rw [clashes_cons hgood hrest, hinsert]
      by_cases hfile : part ∈ files.map Prod.fst
      · exact ⟨fun _ ↦ ⟨_, by rw [reject, if_pos hfile]; rfl⟩, fun h ↦ absurd (Or.inl hfile) h⟩
      · rw [reject, if_neg hfile, ok_bind]
        refine ⟨fun h ↦ ?_, fun h ↦ ?_⟩
        · obtain ⟨e, he⟩ := hclash (h.resolve_left hfile)
          exact ⟨e, by rw [he]; rfl⟩
        · obtain ⟨child, hchild, hgood', hholds⟩ := hclear fun h' ↦ h (Or.inr h')
          obtain ⟨hgood'', hholds'⟩ := good_setDirectory hgood (hnames part List.mem_cons_self)
            hfile hgood' hrest hholds
          exact ⟨_, by rw [hchild]; rfl, hgood'', hholds'⟩

end DirectoryNode

/-! ### Entries -/

/-- An entry whose mode has not been checked. -/
structure UncheckedEntry where
  path : JsString
  mode : JsString
  content : Bytes

def GitFileMode.ofText? (text : JsString) : Option GitFileMode :=
  if text = js "100644" then some .regular
  else if text = js "100755" then some .executable
  else none

/-- `buildTree` of entries whose modes have not been checked. -/
def buildUncheckedTree :
    List UncheckedEntry → List JsString → DirectoryNode → Except String DirectoryNode
  | [], _, root => .ok root
  | entry :: entries, seen, root => do
    let path ← validateGitPath entry.path
    let mode ← orThrow (GitFileMode.ofText? entry.mode) "Unsupported Git file mode"
    reject (path ∈ seen) "Duplicate Git tree path"
    let root ← insert path ⟨mode, entry.content⟩ (splitSlash path) root
    buildUncheckedTree entries (path :: seen) root

/-- `gitTreeOid` of entries whose modes have not been checked. -/
def gitTreeOidUnchecked (H : Hashes) (entries : List UncheckedEntry) (format : GitObjectFormat) :
    Except String JsString := do
  let root ← buildUncheckedTree entries [] .empty
  return hexText (encodeDirectory H format root)

def GitTreeEntry.unchecked (entry : GitTreeEntry) : UncheckedEntry :=
  ⟨entry.path, entry.mode.text, entry.content⟩

/-- Entries whose modes have been checked are built as before. -/
theorem buildUncheckedTree_unchecked (entries : List GitTreeEntry) (seen : List JsString)
    (root : DirectoryNode) :
    buildUncheckedTree (entries.map GitTreeEntry.unchecked) seen root =
      buildTree entries seen root := by
  have hmode : ∀ mode : GitFileMode, GitFileMode.ofText? mode.text = some mode := by
    intro mode
    cases mode <;> decide +kernel
  induction entries generalizing seen root with
  | nil => rfl
  | cons entry entries ih =>
    simp only [List.map_cons, buildUncheckedTree, buildTree, GitTreeEntry.unchecked, hmode, ih,
      orThrow, ok_bind]

theorem gitTreeOidUnchecked_unchecked (H : Hashes) (entries : List GitTreeEntry)
    (format : GitObjectFormat) :
    gitTreeOidUnchecked H (entries.map GitTreeEntry.unchecked) format =
      gitTreeOid H entries format := by
  rw [gitTreeOidUnchecked, buildUncheckedTree_unchecked, gitTreeOid]

/-- The file that an entry is. -/
def UncheckedEntry.IsFile (entry : UncheckedEntry) (parts : List JsString) (file : FileNode) :
    Prop :=
  parts = splitSlash entry.path ∧ GitFileMode.ofText? entry.mode = some file.mode ∧
    file.content = entry.content

/-- What makes an entry acceptable by itself. -/
def UncheckedEntry.IsValid (entry : UncheckedEntry) : Prop :=
  validateGitPath entry.path = .ok entry.path ∧ (GitFileMode.ofText? entry.mode).isSome = true

/-- One path names a directory on the way to the other. -/
def IsDirectoryOf (path other : JsString) : Prop :=
  splitSlash path <+: splitSlash other ∧ path ≠ other

theorem splitSlash_injective {path other : JsString} (h : splitSlash path = splitSlash other) :
    path = other := by
  have hpath : [0x2f].intercalate (splitSlash path) = path := List.intercalate_splitOn _
  have hother : [0x2f].intercalate (splitSlash other) = other := List.intercalate_splitOn _
  rw [← hpath, ← hother, h]

private theorem isName_of_split (n : ℕ) {value : JsString} (hlength : value.length ≤ n)
    (hwell : isWellFormed value = true) (hnul : (0 : UInt16) ∉ value) :
    ∀ name ∈ splitSlash value, IsName name := by
  induction n generalizing value with
  | zero =>
    obtain rfl := List.length_eq_zero_iff.mp (Nat.le_zero.mp hlength)
    intro name hname
    obtain rfl := List.mem_singleton.mp hname
    exact ⟨rfl, List.not_mem_nil, List.not_mem_nil⟩
  | succ n ih =>
    by_cases hslash : (0x2f : UInt16) ∈ value
    · obtain ⟨first, rest, rfl, hfirst⟩ := List.eq_append_cons_of_mem hslash
      obtain ⟨hwellFirst, hwellRest⟩ := isWellFormed_around (by decide) hwell
      rw [splitSlash, List.splitOn_append_cons_self_of_not_mem hfirst]
      intro name hname
      obtain rfl | hname := List.mem_cons.mp hname
      · exact ⟨hwellFirst, hfirst, fun h ↦ hnul (List.mem_append_left _ h)⟩
      · refine ih ?_ hwellRest (fun h ↦ hnul ?_) name hname
        · rw [List.length_append, List.length_cons] at hlength
          omega
        · exact List.mem_append_right _ (List.mem_cons_of_mem _ h)
    · rw [splitSlash, List.splitOn_eq_singleton hslash]
      intro name hname
      obtain rfl := List.mem_singleton.mp hname
      exact ⟨hwell, hslash, hnul⟩

theorem isName_of_validateGitPath {path : JsString} (h : validateGitPath path = .ok path) :
    ∀ name ∈ splitSlash path, IsName name := by
  obtain ⟨-, -, hwell, -⟩ := validateGitPath_eq_ok h
  refine isName_of_split path.length le_rfl hwell fun hnul ↦ ?_
  simp only [validateGitPath, bind_eq_ok, reject_eq_ok, exists_unit, not_or] at h
  exact h.1.2.2.2.1 (List.any_eq_true.mpr ⟨0, hnul, rfl⟩)

/-! ### Lists of entries -/

/-- The directory holds the files of the paths that have been seen. -/
def HoldsPaths (d : DirectoryNode) (seen : List JsString) : Prop :=
  ∀ parts, (∃ file, d.Holds parts file) ↔ ∃ path ∈ seen, parts = splitSlash path

theorem holdsPaths_empty : HoldsPaths .empty [] := by
  intro parts
  constructor
  · rintro ⟨file, hholds⟩
    exact absurd hholds DirectoryNode.not_holds_empty
  · rintro ⟨path, hpath, -⟩
    exact absurd hpath List.not_mem_nil

/-- What an insertion adds to the paths that have been seen. -/
theorem HoldsPaths.set {root root' : DirectoryNode} {seen : List JsString} {path : JsString}
    {file : FileNode} (hseen : HoldsPaths root seen) (hnew : path ∉ seen)
    (hholds : ∀ parts file', root'.Holds parts file' ↔
      parts = splitSlash path ∧ file' = file ∨ parts ≠ splitSlash path ∧ root.Holds parts file') :
    HoldsPaths root' (path :: seen) := by
  intro parts
  constructor
  · rintro ⟨file, hfile⟩
    obtain ⟨rfl, -⟩ | ⟨-, hfile⟩ := (hholds parts file).mp hfile
    · exact ⟨path, List.mem_cons_self, rfl⟩
    · obtain ⟨other, hother, rfl⟩ := (hseen parts).mp ⟨file, hfile⟩
      exact ⟨other, List.mem_cons_of_mem _ hother, rfl⟩
  · rintro ⟨other, hother, rfl⟩
    obtain rfl | hother := List.mem_cons.mp hother
    · exact ⟨_, (hholds _ _).mpr (Or.inl ⟨rfl, rfl⟩)⟩
    · obtain ⟨file, hfile⟩ := (hseen _).mpr ⟨other, hother, rfl⟩
      refine ⟨file, (hholds _ _).mpr (Or.inr ⟨fun h ↦ ?_, hfile⟩)⟩
      exact hnew (splitSlash_injective h ▸ hother)

theorem HoldsPaths.of_insert {root root' : DirectoryNode} {seen : List JsString}
    {path : JsString} {file : FileNode} (hgood : root.Good) (hseen : HoldsPaths root seen)
    (hnames : ∀ name ∈ splitSlash path, IsName name) (hnew : path ∉ seen)
    (h : insert path file (splitSlash path) root = .ok root') :
    root'.Good ∧ HoldsPaths root' (path :: seen) := by
  obtain ⟨hclash, hclear⟩ := @DirectoryNode.insert_spec file root path _ hgood hnames
    (List.splitOn_ne_nil _ _ : splitSlash path ≠ [])
  by_cases hclashes : root.Clashes (splitSlash path)
  · obtain ⟨e, he⟩ := hclash hclashes
    rw [h] at he
    cases he
  · obtain ⟨root'', hroot, hgood', hholds⟩ := hclear hclashes
    obtain rfl : root' = root'' := Except.ok.inj (h.symm.trans hroot)
    exact ⟨hgood', hseen.set hnew hholds⟩

theorem clashes_iff {d : DirectoryNode} {seen : List JsString} (hseen : HoldsPaths d seen)
    (path : JsString) : d.Clashes (splitSlash path) ↔
      ∃ other ∈ seen, IsDirectoryOf other path ∨ IsDirectoryOf path other := by
  constructor
  · rintro ⟨parts, file, hholds, hne, hclash⟩
    obtain ⟨other, hother, rfl⟩ := (hseen parts).mp ⟨file, hholds⟩
    have hne' : other ≠ path := fun h ↦ hne (h ▸ rfl)
    exact ⟨other, hother, hclash.imp (fun h ↦ ⟨h, hne'⟩) fun h ↦ ⟨h, hne'.symm⟩⟩
  · rintro ⟨other, hother, hclash⟩
    obtain ⟨file, hholds⟩ := (hseen _).mpr ⟨other, hother, rfl⟩
    refine ⟨splitSlash other, file, hholds, fun h ↦ ?_, hclash.imp And.left And.left⟩
    obtain rfl := splitSlash_injective h
    exact hclash.elim (fun h ↦ h.2 rfl) fun h ↦ h.2 rfl

/-- What is accepted after the seen paths. -/
structure Acceptable (entries : List UncheckedEntry) (seen : List JsString) : Prop where
  valid : ∀ entry ∈ entries, entry.IsValid
  distinct : (entries.map UncheckedEntry.path).Nodup
  unseen : ∀ entry ∈ entries, entry.path ∉ seen
  compatible : ∀ entry ∈ entries, ∀ other ∈ seen ++ entries.map UncheckedEntry.path,
    ¬ IsDirectoryOf other entry.path ∧ ¬ IsDirectoryOf entry.path other

theorem acceptable_cons {entry : UncheckedEntry} {entries : List UncheckedEntry}
    {seen : List JsString} : Acceptable (entry :: entries) seen ↔
      entry.IsValid ∧ entry.path ∉ seen ∧
        (∀ other ∈ seen, ¬ IsDirectoryOf other entry.path ∧ ¬ IsDirectoryOf entry.path other) ∧
        Acceptable entries (entry.path :: seen) := by
  constructor
  · rintro ⟨hvalid, hdistinct, hunseen, hcompatible⟩
    rw [List.map_cons, List.nodup_cons] at hdistinct
    have hself := hcompatible entry List.mem_cons_self
    refine ⟨hvalid entry List.mem_cons_self, hunseen entry List.mem_cons_self,
      fun other hother ↦ hself other (List.mem_append_left _ hother),
      fun e he ↦ hvalid e (List.mem_cons_of_mem entry he), hdistinct.2, fun e he hmem ↦ ?_,
      fun e he other hother ↦ hcompatible e (List.mem_cons_of_mem entry he) other ?_⟩
    · obtain heq | hmem := List.mem_cons.mp hmem
      · exact hdistinct.1 (heq ▸ List.mem_map_of_mem he)
      · exact hunseen e (List.mem_cons_of_mem entry he) hmem
    · simp only [List.map_cons, List.cons_append, List.mem_append, List.mem_cons] at hother ⊢
      tauto
  · rintro ⟨hvalid, hunseen, hseen, hrest⟩
    refine ⟨?_, ?_, ?_, ?_⟩
    · rintro e he
      obtain rfl | he := List.mem_cons.mp he
      · exact hvalid
      · exact hrest.valid e he
    · rw [List.map_cons, List.nodup_cons]
      refine ⟨fun hmem ↦ ?_, hrest.distinct⟩
      obtain ⟨e, he, heq⟩ := List.mem_map.mp hmem
      exact hrest.unseen e he (heq ▸ List.mem_cons_self)
    · rintro e he
      obtain rfl | he := List.mem_cons.mp he
      · exact hunseen
      · exact fun hmem ↦ hrest.unseen e he (List.mem_cons_of_mem _ hmem)
    · rintro e he other hother
      simp only [List.map_cons, List.mem_append, List.mem_cons] at hother
      obtain rfl | he := List.mem_cons.mp he
      · obtain hother | rfl | hother := hother
        · exact hseen other hother
        · exact ⟨fun h ↦ h.2 rfl, fun h ↦ h.2 rfl⟩
        · obtain ⟨x, hx, rfl⟩ := List.mem_map.mp hother
          exact (hrest.compatible x hx e.path (List.mem_append_left _ List.mem_cons_self)).symm
      · refine hrest.compatible e he other ?_
        simp only [List.cons_append, List.mem_append, List.mem_cons]
        tauto

/-- **Building.** A tree is built exactly of an acceptable list, and holds the files of the list
beside what it held before. -/
theorem buildUncheckedTree_spec {entries : List UncheckedEntry} {seen : List JsString}
    {root : DirectoryNode} (hgood : root.Good) (hseen : HoldsPaths root seen) :
    ((∃ tree, buildUncheckedTree entries seen root = .ok tree) ↔ Acceptable entries seen) ∧
      ∀ tree, buildUncheckedTree entries seen root = .ok tree →
        tree.Good ∧ ∀ parts file, tree.Holds parts file ↔
          root.Holds parts file ∨ ∃ entry ∈ entries, entry.IsFile parts file := by
  induction entries generalizing seen root with
  | nil =>
    refine ⟨⟨fun _ ↦ ⟨by simp, List.nodup_nil, by simp, by simp⟩, fun _ ↦ ⟨root, rfl⟩⟩, ?_⟩
    rintro tree ⟨⟩
    exact ⟨hgood, by simp⟩
  | cons entry entries ih =>
    rw [acceptable_cons]
    by_cases hvalid : entry.IsValid
    swap
    · have hfails : ∀ tree, buildUncheckedTree (entry :: entries) seen root ≠ .ok tree := by
        intro tree h
        simp only [buildUncheckedTree, bind_eq_ok, orThrow_eq_ok] at h
        obtain ⟨path, hpath, mode, hmode, -⟩ := h
        obtain rfl := (validateGitPath_eq_ok hpath).1
        exact hvalid ⟨hpath, by rw [hmode]; rfl⟩
      refine ⟨⟨?_, fun h ↦ absurd h.1 hvalid⟩, fun tree h ↦ absurd h (hfails tree)⟩
      rintro ⟨tree, h⟩
      exact absurd h (hfails tree)
    obtain ⟨mode, hmode⟩ := Option.isSome_iff_exists.mp hvalid.2
    have hbuild : buildUncheckedTree (entry :: entries) seen root = (do
        reject (entry.path ∈ seen) "Duplicate Git tree path"
        let root ← insert entry.path ⟨mode, entry.content⟩ (splitSlash entry.path) root
        buildUncheckedTree entries (entry.path :: seen) root) := by
      rw [buildUncheckedTree, hvalid.1, ok_bind, hmode]
      rfl
    rw [hbuild]
    by_cases hduplicate : entry.path ∈ seen
    · rw [reject, if_pos hduplicate]
      refine ⟨⟨?_, fun h ↦ absurd hduplicate h.2.1⟩, ?_⟩
      · rintro ⟨tree, ⟨⟩⟩
      · rintro tree ⟨⟩
    rw [reject, if_neg hduplicate, ok_bind]
    let file : FileNode := ⟨mode, entry.content⟩
    obtain ⟨hclash, hclear⟩ := @DirectoryNode.insert_spec file root entry.path _ hgood
      (isName_of_validateGitPath hvalid.1) (List.splitOn_ne_nil _ _ : splitSlash entry.path ≠ [])
    by_cases hclashes : root.Clashes (splitSlash entry.path)
    · obtain ⟨e, he⟩ := hclash hclashes
      rw [he]
      refine ⟨⟨?_, fun h ↦ ?_⟩, ?_⟩
      · rintro ⟨tree, ⟨⟩⟩
      · obtain ⟨other, hother, hdirectory⟩ := (clashes_iff hseen entry.path).mp hclashes
        exact absurd hdirectory (not_or.mpr (h.2.2.1 other hother))
      · rintro tree ⟨⟩
    · obtain ⟨root', hroot', hgood', hholds⟩ := hclear hclashes
      have hseen' : HoldsPaths root' (entry.path :: seen) := hseen.set hduplicate hholds
      obtain ⟨hiff, hbuilt⟩ := ih hgood' hseen'
      rw [hroot', ok_bind, hiff]
      refine ⟨⟨fun h ↦ ⟨hvalid, hduplicate, fun other hother ↦ ?_, h⟩, fun h ↦ h.2.2.2⟩,
        fun tree htree ↦ ?_⟩
      · exact not_or.mp fun hdirectory ↦
          hclashes ((clashes_iff hseen entry.path).mpr ⟨other, hother, hdirectory⟩)
      · obtain ⟨hgoodTree, hholdsTree⟩ := hbuilt tree htree
        refine ⟨hgoodTree, fun parts file ↦ ?_⟩
        rw [hholdsTree, hholds, List.exists_mem_cons_iff]
        have hfile : entry.IsFile parts file ↔
            parts = splitSlash entry.path ∧ file = ⟨mode, entry.content⟩ := by
          obtain ⟨mode', content⟩ := file
          simp [UncheckedEntry.IsFile, hmode, eq_comm]
        rw [hfile]
        constructor
        · rintro ((hnew | ⟨-, hold⟩) | hlater)
          · exact Or.inr (Or.inl hnew)
          · exact Or.inl hold
          · exact Or.inr (Or.inr hlater)
        · rintro (hold | hnew | hlater)
          · refine Or.inl (Or.inr ⟨fun h ↦ ?_, hold⟩)
            obtain ⟨path, hpath, heq⟩ := (hseen parts).mp ⟨file, hold⟩
            exact hduplicate (splitSlash_injective (h ▸ heq) ▸ hpath)
          · exact Or.inl (Or.inl hnew)
          · exact Or.inr hlater

end ApiMigrator.App.GitTree
