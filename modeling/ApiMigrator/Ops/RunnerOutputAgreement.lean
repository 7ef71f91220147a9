import ApiMigrator.Ops.RunnerOutput
import ApiMigrator.Runner.TreeDigests

/-!
The observer agrees with the runner: from a tree in which no path of a file has a backslash both
compute the same identities or none, and from any other tree at most one of them computes any.
-/

set_option autoImplicit false
set_option relaxedAutoImplicit false

namespace ApiMigrator.Ops.RunnerOutput

open Foundation.Text Foundation.Number Foundation.Json Foundation.Outcome Foundation.Pattern
open Foundation.Binary Foundation.FileTree Foundation.Framing
open App.Artifact (Path IsPath joinSlash pathText pathText_eq)
open App.GitTree (Hashes GitObjectFormat GitFileMode FileNode DirectoryNode EncodedTreeItem mapSet
  childDirectory HoldsPaths holdsPaths_empty)
open Runner.Filesystem (Directory Entry Root isSourceName compareNames regularMode sha256
  RegularTreeEntry regularBytes regularRecord Valid PlainFiles RegularAt pathText_injective)

/-! ### Insertion -/

variable {H : Hashes}

/-- The observer inserts where the runner does, but never a file twice. -/
theorem insertRunnerGitEntry_eq_ok (path : JsString) {file : FileNode} {parts : List JsString}
    {d d' : DirectoryNode} (hgood : d.Good) (hparts : parts ≠ []) :
    insertRunnerGitEntry file parts d = .ok d' ↔
      (∀ file', ¬ d.Holds parts file') ∧ App.GitTree.insert path file parts d = .ok d' := by
  induction parts generalizing d d' with
  | nil => exact absurd rfl hparts
  | cons part rest ih =>
    obtain ⟨directories, files⟩ := d
    by_cases hrest : rest = []
    · subst hrest
      have hholds : (∀ file', ¬ DirectoryNode.Holds [part] (.mk directories files) file') ↔
          part ∉ files.map Prod.fst := by
        rw [← not_exists, not_iff_not, List.mem_map]
        constructor
        · rintro ⟨file', hmem⟩
          exact ⟨(part, file'), hmem, rfl⟩
        · rintro ⟨⟨name, file'⟩, hmem, rfl⟩
          exact ⟨file', hmem⟩
      rw [hholds]
      simp only [insertRunnerGitEntry, App.GitTree.insert, bind_eq_ok, reject_eq_ok, exists_unit,
        pure_eq_ok, not_or]
      tauto
    · have hdistinct : (directories.map Prod.fst).Nodup := by
        cases hgood
        assumption
      have hholds : (∀ file', ¬ DirectoryNode.Holds (part :: rest) (.mk directories files) file') ↔
          ∀ file', ¬ (childDirectory directories part).Holds rest file' :=
        forall_congr' fun file' ↦ not_congr (DirectoryNode.holds_cons_iff hdistinct hrest)
      have hinsert : App.GitTree.insert path file (part :: rest) (.mk directories files) = (do
          reject (part ∈ files.map Prod.fst) "Git tree path collides with a file"
          let child ← App.GitTree.insert path file rest (childDirectory directories part)
          return .mk (mapSet directories part child) files) := by
        cases rest with
        | nil => exact absurd rfl hrest
        | cons next rest => rfl
      have hrunner : insertRunnerGitEntry file (part :: rest) (.mk directories files) = (do
          reject (part ∈ files.map Prod.fst) "runner output Git path collides with a file"
          let child ← insertRunnerGitEntry file rest (childDirectory directories part)
          return .mk (mapSet directories part child) files) := by
        cases rest with
        | nil => exact absurd rfl hrest
        | cons next rest => rfl
      rw [hholds, hinsert, hrunner]
      simp only [bind_eq_ok, reject_eq_ok, exists_unit, pure_eq_ok]
      have hchild := fun child ↦ @ih (childDirectory directories part) child
        (hgood.childDirectory part) hrest
      constructor
      · rintro ⟨hfile, child, hinserted, rfl⟩
        obtain ⟨hnot, hinserted⟩ := (hchild child).mp hinserted
        exact ⟨hnot, hfile, child, hinserted, rfl⟩
      · rintro ⟨hnot, hfile, child, hinserted, rfl⟩
        exact ⟨hfile, child, (hchild child).mpr ⟨hnot, hinserted⟩, rfl⟩

/-- What both walks ask of a path. -/
def IsSafe (path : JsString) : Prop :=
  assertRunnerRelativePath path = .ok () ∧ (splitSlash path).length ≤ 64

theorem validateRunnerGitPath_eq_ok {path : JsString} (hsafe : IsSafe path) :
    validateRunnerGitPath path = .ok () ↔ App.GitTree.validateGitPath path = .ok path := by
  obtain ⟨hpath, hdepth⟩ := hsafe
  simp only [assertRunnerRelativePath, bind_eq_ok, reject_eq_ok, exists_unit, not_or] at hpath
  obtain ⟨⟨hne, -, hbackslash, hslash⟩, hparts⟩ := hpath
  have hincludes : ¬ includes path "\\" = true := by
    intro h
    exact hbackslash ((of_decide_eq_true h).subset (by decide))
  have hlength : ¬ path.length = 0 := fun h ↦ hne (List.length_eq_zero_iff.mp h)
  simp only [validateRunnerGitPath, App.GitTree.validateGitPath, bind_eq_ok, reject_eq_ok,
    rejectUnpaired_eq_ok, exists_unit, pure_eq_ok, not_or]
  constructor
  · rintro ⟨⟨hcontrol, hbytes⟩, hunicode, hforbidden⟩
    exact ⟨⟨hlength, hslash, hincludes, hcontrol, hbytes⟩, hunicode,
      ⟨not_lt.mpr hdepth, hparts⟩, hforbidden, trivial⟩
  · rintro ⟨⟨-, -, -, hcontrol, hbytes⟩, hunicode, -, hforbidden, -⟩
    exact ⟨⟨hcontrol, hbytes⟩, hunicode, hforbidden⟩

/-- The entry that the runner makes of a file. -/
def gitEntry (entry : OutputEntry) : App.GitTree.GitTreeEntry :=
  ⟨entry.path, gitMode entry.mode, entry.content⟩

theorem insertRunnerEntries_eq_ok {entries : List OutputEntry} {seen : List JsString}
    {root tree : DirectoryNode} (hsafe : ∀ entry ∈ entries, IsSafe entry.path)
    (hgood : root.Good) (hseen : HoldsPaths root seen) :
    insertRunnerEntries entries root = .ok tree ↔
      App.GitTree.buildTree (entries.map gitEntry) seen root = .ok tree := by
  induction entries generalizing seen root with
  | nil => exact Iff.rfl
  | cons entry entries ih =>
    obtain ⟨hentry, hrest⟩ := List.forall_mem_cons.mp hsafe
    have hunseen : (∀ file, ¬ root.Holds (splitSlash entry.path) file) ↔ entry.path ∉ seen := by
      rw [← not_exists, not_iff_not, hseen]
      constructor
      · rintro ⟨path, hpath, heq⟩
        exact App.GitTree.splitSlash_injective heq ▸ hpath
      · exact fun hmem ↦ ⟨_, hmem, rfl⟩
    have hne : splitSlash entry.path ≠ [] := List.splitOn_ne_nil _ _
    have hlater : ∀ {root' : DirectoryNode},
        App.GitTree.validateGitPath entry.path = .ok entry.path → entry.path ∉ seen →
        App.GitTree.insert entry.path ⟨gitMode entry.mode, entry.content⟩ (splitSlash entry.path) root =
          .ok root' →
        (insertRunnerEntries entries root' = .ok tree ↔
          App.GitTree.buildTree (entries.map gitEntry) (entry.path :: seen) root' = .ok tree) := by
      intro root' hvalid hnew hinsert
      obtain ⟨hgood', hseen'⟩ := HoldsPaths.of_insert hgood hseen
        (App.GitTree.isName_of_validateGitPath hvalid) hnew hinsert
      exact ih hrest hgood' hseen'
    rw [insertRunnerEntries, List.map_cons, App.GitTree.buildTree]
    simp only [bind_eq_ok, reject_eq_ok, exists_unit, validateRunnerGitPath_eq_ok hentry,
      insertRunnerGitEntry_eq_ok entry.path hgood hne, hunseen]
    constructor
    · rintro ⟨hvalid, root', ⟨hnew, hinsert⟩, htree⟩
      exact ⟨entry.path, hvalid, hnew, root', hinsert, (hlater hvalid hnew hinsert).mp htree⟩
    · rintro ⟨path, hvalid, hnew, root', hinsert, htree⟩
      obtain rfl := (App.GitTree.validateGitPath_eq_ok hvalid).1
      exact ⟨hvalid, root', ⟨hnew, hinsert⟩, (hlater hvalid hnew hinsert).mpr htree⟩

/-! ### Encoding -/

theorem insertionSort_congr {α : Type} {r r' : α → α → Prop} [DecidableRel r] [DecidableRel r']
    (h : ∀ a b, r a b ↔ r' a b) (l : List α) : l.insertionSort r = l.insertionSort r' := by
  obtain rfl : r = r' := funext fun a ↦ funext fun b ↦ propext (h a b)
  congr!

theorem runnerBody_eq (items : List EncodedTreeItem) :
    runnerBody items = App.GitTree.encodeItems items := by
  rw [runnerBody, App.GitTree.encodeItems]
  refine congrArg (fun items : List EncodedTreeItem ↦ items.flatMap EncodedTreeItem.bytes)
    (insertionSort_congr (fun left right ↦ ?_) items)
  have hname : ∀ item : EncodedTreeItem,
      utf8Encode (item.name ++ if item.directory then js "/" else []) = item.sortName := by
    intro item
    rw [EncodedTreeItem.sortName]
    split_ifs
    · rfl
    · rw [List.append_nil]
  rw [hname, hname, App.GitTree.compareTreeItems, decide_eq_true_eq]

mutual

theorem encodeRunnerGitDirectory_eq (format : GitObjectFormat) : ∀ directory : DirectoryNode,
    encodeRunnerGitDirectory H format directory = App.GitTree.encodeDirectory H format directory
  | .mk directories files => by
    rw [encodeRunnerGitDirectory, App.GitTree.encodeDirectory, runnerDirectoryItems_eq format
      directories, runnerBody_eq]
    rfl

theorem runnerDirectoryItems_eq (format : GitObjectFormat) :
    ∀ directories : List (JsString × DirectoryNode),
      runnerDirectoryItems H format directories = App.GitTree.directoryItems H format directories
  | [] => rfl
  | (name, child) :: rest => by
    rw [runnerDirectoryItems, App.GitTree.directoryItems, encodeRunnerGitDirectory_eq format child,
      runnerDirectoryItems_eq format rest]

end

theorem runnerGitTreeOid_eq_ok {entries : List OutputEntry} {format : GitObjectFormat}
    {oid : JsString} (hsafe : ∀ entry ∈ entries, IsSafe entry.path) :
    runnerGitTreeOid H entries format = .ok oid ↔
      App.GitTree.gitTreeOid H (entries.map gitEntry) format = .ok oid := by
  simp only [runnerGitTreeOid, App.GitTree.gitTreeOid, bind_eq_ok, pure_eq_ok,
    insertRunnerEntries_eq_ok hsafe DirectoryNode.good_empty holdsPaths_empty, encodeRunnerGitDirectory_eq]

theorem gitObjectFormatFromBaseSha_eq_ok {baseSha : JsString} {format : GitObjectFormat} :
    gitObjectFormatFromBaseSha baseSha = .ok format ↔
      App.GitTree.gitObjectFormatFromOid baseSha = .ok format := by
  rw [gitObjectFormatFromBaseSha, App.GitTree.gitObjectFormatFromOid]
  split_ifs
  · rfl
  · rfl
  · constructor <;> rintro ⟨⟩

/-! ### The two walks -/

/-- What the observer keeps of a child. -/
def outputOf (H : Hashes) (e : Path × Entry) : Option OutputEntry :=
  match e.2 with
  | .leaf (.file mode _ content) =>
    some ⟨pathText e.1, if mode &&& 0o111 = 0 then 0o100644 else 0o100755, content.length,
      sha256 H.sha256 content, content⟩
  | _ => none

/-- What the runner keeps of it. -/
def OutputEntry.regular (entry : OutputEntry) : JsString × RegularTreeEntry :=
  (entry.path, ⟨entry.mode, entry.size, entry.digest⟩)

def Output.collected (output : Output) : Runner.Filesystem.Collected :=
  ⟨output.entries.map OutputEntry.regular, output.totalBytes⟩

theorem map_fst_regular (entries : List OutputEntry) :
    (entries.map OutputEntry.regular).map Prod.fst = entries.map OutputEntry.path := by
  rw [List.map_map]
  rfl

theorem assertSafeRelativePath_eq_ok {path : JsString} :
    Runner.Filesystem.assertSafeRelativePath path = .ok () ↔
      assertRunnerRelativePath path = .ok () := by
  simp only [Runner.Filesystem.assertSafeRelativePath, assertRunnerRelativePath, bind_eq_ok,
    reject_eq_ok, exists_unit]

theorem collectChild_eq_ok {output next : Output} {e : Path × Entry}
    (h : collectChild H output e = .ok next) : IsSafe (pathText e.1) ∧
      next.entries = output.entries ++ (outputOf H e).toList := by
  obtain ⟨p, node⟩ := e
  rcases node with ⟨mode, children⟩ | (⟨mode, links, content⟩ | target | _)
  · simp only [collectChild, bind_eq_ok, reject_eq_ok, exists_unit, pure_eq_ok, not_lt] at h
    obtain ⟨hpath, hdepth, rfl⟩ := h
    exact ⟨⟨hpath, hdepth⟩, (List.append_nil _).symm⟩
  · simp only [collectChild, bind_eq_ok, reject_eq_ok, exists_unit, pure_eq_ok, not_lt] at h
    obtain ⟨hpath, hdepth, -, -, -, rfl⟩ := h
    exact ⟨⟨hpath, hdepth⟩, rfl⟩
  · simp only [collectChild, bind_eq_ok, throw_eq_ok, and_false, exists_false] at h
  · simp only [collectChild, bind_eq_ok, throw_eq_ok, and_false, exists_false] at h

/-- The runner collects a child where the observer does, if its path is new. -/
theorem collectEntry_collected {output : Output} {e : Path × Entry}
    {next : Runner.Filesystem.Collected}
    (hnew : ∀ entry ∈ outputOf H e, entry.path ∉ output.entries.map OutputEntry.path) :
    Runner.Filesystem.collectEntry H.sha256 output.collected e = .ok next ↔
      ∃ last, collectChild H output e = .ok last ∧ last.collected = next := by
  obtain ⟨p, node⟩ := e
  rcases node with ⟨mode, children⟩ | (⟨mode, links, content⟩ | target | _)
  · simp only [Runner.Filesystem.collectEntry, collectChild, bind_eq_ok, reject_eq_ok, exists_unit,
      pure_eq_ok, assertSafeRelativePath_eq_ok]
    constructor
    · rintro ⟨hpath, hdepth, rfl⟩
      exact ⟨_, ⟨hpath, hdepth, rfl⟩, rfl⟩
    · rintro ⟨_, ⟨hpath, hdepth, rfl⟩, rfl⟩
      exact ⟨hpath, hdepth, rfl⟩
  · have hset : mapSet output.collected.entries (pathText p) ⟨regularMode mode, content.length,
        sha256 H.sha256 content⟩ = output.collected.entries ++ [(pathText p,
          ⟨regularMode mode, content.length, sha256 H.sha256 content⟩)] := by
      refine if_neg ?_
      rw [Output.collected, map_fst_regular]
      exact hnew _ rfl
    have hcount : output.collected.entries.length = output.entries.length := List.length_map _
    simp only [Runner.Filesystem.collectEntry, collectChild, bind_eq_ok, reject_eq_ok, exists_unit,
      pure_eq_ok, assertSafeRelativePath_eq_ok, hset, hcount]
    constructor
    · rintro ⟨hpath, hdepth, hlinks, hsize, htotal, rfl⟩
      refine ⟨_, ⟨hpath, hdepth, hlinks, hsize, htotal, rfl⟩, ?_⟩
      rw [Output.collected, List.map_append]
      rfl
    · rintro ⟨_, ⟨hpath, hdepth, hlinks, hsize, htotal, rfl⟩, rfl⟩
      refine ⟨hpath, hdepth, hlinks, hsize, htotal, ?_⟩
      rw [Output.collected, Output.collected, List.map_append]
      rfl
  · simp only [Runner.Filesystem.collectEntry, collectChild, bind_eq_ok, throw_eq_ok, and_false,
      exists_false, false_and]
  · simp only [Runner.Filesystem.collectEntry, collectChild, bind_eq_ok, throw_eq_ok, and_false,
      exists_false, false_and]

theorem foldlM_collectChild {es : List (Path × Entry)} {output last : Output}
    (h : es.foldlM (collectChild H) output = .ok last) : (∀ e ∈ es, IsSafe (pathText e.1)) ∧
      last.entries = output.entries ++ es.filterMap (outputOf H) := by
  induction es generalizing output with
  | nil =>
    obtain rfl := Except.ok.inj h
    exact ⟨fun e he ↦ absurd he List.not_mem_nil, (List.append_nil _).symm⟩
  | cons e es ih =>
    rw [List.foldlM_cons, bind_eq_ok] at h
    obtain ⟨next, hnext, hlast⟩ := h
    obtain ⟨hsafe, hentries⟩ := collectChild_eq_ok hnext
    obtain ⟨hrest, hfold⟩ := ih hlast
    refine ⟨List.forall_mem_cons.mpr ⟨hsafe, hrest⟩, ?_⟩
    rw [hfold, hentries, List.append_assoc]
    cases houtput : outputOf H e with
    | none => rw [List.filterMap_cons_none houtput]; rfl
    | some entry => rw [List.filterMap_cons_some houtput]; rfl

/-- The walks agree while no path comes twice. -/
theorem foldlM_collected {es : List (Path × Entry)} {output : Output}
    {last : Runner.Filesystem.Collected}
    (hnew : (output.entries.map OutputEntry.path ++
      (es.filterMap (outputOf H)).map OutputEntry.path).Nodup) :
    es.foldlM (Runner.Filesystem.collectEntry H.sha256) output.collected = .ok last ↔
      ∃ final, es.foldlM (collectChild H) output = .ok final ∧ final.collected = last := by
  induction es generalizing output with
  | nil =>
    constructor
    · intro h
      exact ⟨output, rfl, Except.ok.inj h⟩
    · rintro ⟨final, ⟨⟩, rfl⟩
      rfl
  | cons e es ih =>
    have hhead : ∀ entry ∈ outputOf H e, entry.path ∉ output.entries.map OutputEntry.path := by
      intro entry hentry hmem
      rw [List.filterMap_cons_some hentry, List.map_cons] at hnew
      exact (List.disjoint_of_nodup_append hnew) hmem List.mem_cons_self
    have htail : ∀ {next : Output}, collectChild H output e = .ok next →
        (next.entries.map OutputEntry.path ++
          (es.filterMap (outputOf H)).map OutputEntry.path).Nodup := by
      intro next hnext
      rw [(collectChild_eq_ok hnext).2, List.map_append, List.append_assoc, ← List.map_append]
      cases houtput : outputOf H e with
      | none => rwa [List.filterMap_cons_none houtput] at hnew
      | some entry => rwa [List.filterMap_cons_some houtput] at hnew
    simp only [List.foldlM_cons, bind_eq_ok, collectEntry_collected hhead]
    constructor
    · rintro ⟨_, ⟨next, hnext, rfl⟩, hlast⟩
      obtain ⟨final, hfinal, rfl⟩ := (ih (htail hnext)).mp hlast
      exact ⟨final, ⟨next, hnext, hfinal⟩, rfl⟩
    · rintro ⟨final, ⟨next, hnext, hfinal⟩, rfl⟩
      exact ⟨next.collected, ⟨next, hnext, rfl⟩, (ih (htail hnext)).mpr ⟨final, hfinal, rfl⟩⟩

/-! ### Agreement -/

variable {root : Root}

theorem outputOf_eq_some {e : Path × Entry} {entry : OutputEntry} : outputOf H e = some entry ↔
    ∃ mode links, e.2 = .leaf (.file mode links entry.content) ∧
      entry = ⟨pathText e.1, regularMode mode, entry.content.length,
        sha256 H.sha256 entry.content, entry.content⟩ := by
  obtain ⟨p, node⟩ := e
  constructor
  · intro h
    rcases node with ⟨mode, children⟩ | (⟨mode, links, content⟩ | target | _)
    · cases h
    · cases h
      exact ⟨mode, links, rfl, rfl⟩
    · cases h
    · cases h
  · rintro ⟨mode, links, rfl, hentry⟩
    exact congrArg some hentry.symm

theorem collectRunnerRegularTree_eq_ok {entries : List OutputEntry}
    (h : collectRunnerRegularTree H root = .ok entries) :
    entries = (walk isSourceName compareNames [([], root.entries)]).filterMap (outputOf H) ∧
      ∀ entry ∈ entries, IsSafe entry.path := by
  simp only [collectRunnerRegularTree, bind_eq_ok, reject_eq_ok, exists_unit, pure_eq_ok] at h
  obtain ⟨-, output, houtput, rfl⟩ := h
  obtain ⟨hsafe, hentries⟩ := foldlM_collectChild houtput
  rw [List.nil_append] at hentries
  refine ⟨hentries, fun entry hentry ↦ ?_⟩
  rw [hentries] at hentry
  obtain ⟨e, hmem, he⟩ := List.mem_filterMap.mp hentry
  obtain ⟨mode, links, -, hpath⟩ := outputOf_eq_some.mp he
  rw [hpath]
  exact hsafe e hmem

/-- A file that the observer keeps is one of the tree. -/
theorem mem_outputs {entry : OutputEntry} :
    entry ∈ (walk isSourceName compareNames [([], root.entries)]).filterMap (outputOf H) ↔
      ∃ p mode links, Kept isSourceName root.entries p (.leaf (.file mode links entry.content)) ∧
        entry = ⟨pathText p, regularMode mode, entry.content.length,
          sha256 H.sha256 entry.content, entry.content⟩ := by
  rw [List.mem_filterMap]
  constructor
  · rintro ⟨⟨p, node⟩, hmem, he⟩
    obtain ⟨mode, links, rfl, hentry⟩ := outputOf_eq_some.mp he
    exact ⟨p, mode, links, mem_walk_root.mp hmem, hentry⟩
  · rintro ⟨p, mode, links, hkept, hentry⟩
    exact ⟨_, mem_walk_root.mpr hkept, outputOf_eq_some.mpr ⟨mode, links, rfl, hentry⟩⟩

/-- Without backslashes no path comes twice. -/
theorem nodup_outputs (hvalid : Valid root.entries) (hplain : PlainFiles root.entries) :
    (((walk isSourceName compareNames [([], root.entries)]).filterMap (outputOf H)).map
      OutputEntry.path).Nodup := by
  have hwalk : ((walk isSourceName compareNames [([], root.entries)]).map Prod.fst).Nodup :=
    nodup_walk (List.forall_mem_singleton.mpr hvalid.distinct) (List.pairwise_singleton _ _)
  have hfile : ∀ {e entry}, e ∈ walk isSourceName compareNames [([], root.entries)] →
      outputOf H e = some entry →
        IsPath e.1 ∧ (∀ name ∈ e.1, (0x5c : UInt16) ∉ name) ∧ entry.path = pathText e.1 := by
    rintro ⟨p, node⟩ entry hmem he
    obtain ⟨mode, links, rfl, hentry⟩ := outputOf_eq_some.mp he
    have hkept := mem_walk_root.mp hmem
    refine ⟨hvalid.isPath hkept.1, hplain _ _ _ (.of_kept hkept), ?_⟩
    rw [hentry]
  refine List.pairwise_map.mpr (List.pairwise_filterMap.mpr ?_)
  refine (List.pairwise_map.mp hwalk).imp_of_mem ?_
  intro e e' hmem hmem' hne entry hentry entry' hentry' hsame
  obtain ⟨hpath, hclear, htext⟩ := hfile hmem hentry
  obtain ⟨hpath', hclear', htext'⟩ := hfile hmem' hentry'
  exact hne (pathText_injective hpath hpath' hclear hclear'
    (htext.symm.trans (hsame.trans htext')))

theorem collectRegularTree_eq_ok (hvalid : Valid root.entries) (hplain : PlainFiles root.entries)
    {entries : List (JsString × RegularTreeEntry)} :
    Runner.Filesystem.collectRegularTree H.sha256 root = .ok entries ↔
      ∃ outputs, collectRunnerRegularTree H root = .ok outputs ∧
        outputs.map OutputEntry.regular = entries := by
  have hnew := nodup_outputs (H := H) hvalid hplain
  have hfold := fun last ↦ @foldlM_collected H (walk isSourceName compareNames
    [([], root.entries)]) ⟨[], 0⟩ last hnew
  simp only [Runner.Filesystem.collectRegularTree, Runner.Filesystem.assertCanonicalDirectory,
    collectRunnerRegularTree, bind_eq_ok, reject_eq_ok, exists_unit, pure_eq_ok]
  constructor
  · rintro ⟨hroot, last, hlast, rfl⟩
    obtain ⟨final, hfinal, rfl⟩ := (hfold last).mp hlast
    exact ⟨final.entries, ⟨hroot, final, hfinal, rfl⟩, rfl⟩
  · rintro ⟨_, ⟨hroot, final, hfinal, rfl⟩, rfl⟩
    exact ⟨hroot, final.collected, (hfold _).mpr ⟨final, hfinal, rfl⟩, rfl⟩

theorem lookup_of_mem {entries : Directory} (hdistinct : Distinct entries) {name : JsString}
    {node : Entry} (h : (name, node) ∈ entries) : entries.lookup name = some node := by
  have hnames := hdistinct.names
  clear hdistinct
  induction entries with
  | nil => exact absurd h List.not_mem_nil
  | cons e entries ih =>
    rw [List.map_cons, List.nodup_cons] at hnames
    obtain rfl | h := List.mem_cons.mp h
    · exact List.lookup_cons_self
    · have hne : (name == e.1) = false :=
        beq_eq_false_iff_ne.mpr fun heq ↦ hnames.1 (heq ▸ List.mem_map_of_mem h)
      rw [List.lookup_cons, hne]
      exact ih h hnames.2

theorem mem_of_lookup {entries : Directory} {name : JsString} {node : Entry}
    (h : entries.lookup name = some node) : (name, node) ∈ entries := by
  obtain ⟨before, after, rfl, -⟩ := List.lookup_eq_some_iff.mp h
  exact List.mem_append_right _ List.mem_cons_self

/-- A path reads what it names. -/
theorem readFile_eq_some {entries : Directory} {p : Path} {content : Bytes}
    (hdistinct : Distinct entries) : readFile entries p = some content ↔
      ∃ mode links, At entries p (.leaf (.file mode links content)) := by
  induction p generalizing entries with
  | nil =>
    constructor
    · rintro ⟨⟩
    · rintro ⟨mode, links, hat⟩
      exact absurd rfl hat.ne_nil
  | cons name rest ih =>
    by_cases hrest : rest = []
    · subst hrest
      simp only [at_singleton]
      constructor
      · intro h
        rw [readFile] at h
        split at h
        · next mode links bytes hlookup =>
          obtain rfl := Option.some.inj h
          exact ⟨mode, links, mem_of_lookup hlookup⟩
        · cases h
      · rintro ⟨mode, links, hmem⟩
        rw [readFile, lookup_of_mem hdistinct hmem]
    · simp only [at_cons hrest]
      obtain ⟨first, below, rfl⟩ := List.exists_cons_of_ne_nil hrest
      rw [readFile]
      swap
      · exact List.cons_ne_nil first below
      constructor
      · intro h
        split at h
        · next data children hlookup =>
          have hmem := mem_of_lookup hlookup
          obtain ⟨mode, links, hat⟩ := (ih (hdistinct.children hmem)).mp h
          exact ⟨mode, links, data, children, hmem, hat⟩
        · cases h
      · rintro ⟨mode, links, data, children, hmem, hat⟩
        rw [lookup_of_mem hdistinct hmem]
        exact (ih (hdistinct.children hmem)).mpr ⟨mode, links, hat⟩

/-- The runner reads each file of a plain tree once more as it was. -/
theorem gitTreeEntries_eq_ok (hvalid : Valid root.entries) (hplain : PlainFiles root.entries)
    {outputs : List OutputEntry} (h : collectRunnerRegularTree H root = .ok outputs) :
    gitTreeEntries H root = .ok (outputs.map gitEntry) := by
  have hcollect := (collectRegularTree_eq_ok hvalid hplain).mpr ⟨outputs, h, rfl⟩
  have hread : ∀ entry ∈ outputs, gitTreeEntry root entry.regular = .ok (gitEntry entry) := by
    intro entry hentry
    rw [(collectRunnerRegularTree_eq_ok h).1] at hentry
    obtain ⟨p, mode, links, hkept, heq⟩ := mem_outputs.mp hentry
    have hpath : splitSlash entry.path = p := by
      rw [heq, pathText_eq (hplain _ _ _ (.of_kept hkept)),
        (hvalid.isPath hkept.1).splitSlash_joinSlash]
    have hcontent : readFile root.entries (splitSlash entry.path) = some entry.content := by
      rw [hpath]
      exact (readFile_eq_some hvalid.distinct).mpr ⟨mode, links, hkept.1⟩
    rw [gitTreeEntry]
    show orThrow (readFile root.entries (splitSlash entry.path)) _ >>= _ = _
    rw [hcontent]
    rfl
  rw [gitTreeEntries, hcollect, ok_bind]
  clear h hcollect
  induction outputs with
  | nil => rfl
  | cons entry outputs ih =>
    obtain ⟨hentry, hrest⟩ := List.forall_mem_cons.mp hread
    rw [List.map_cons, mapEach, hentry, ok_bind, ih hrest]
    rfl

theorem computeRunnerOutputIdentity_eq_ok {baseSha : JsString} {identity : OutputIdentity} :
    computeRunnerOutputIdentity H root baseSha = .ok identity ↔
      ∃ outputs format oid, collectRunnerRegularTree H root = .ok outputs ∧
        App.GitTree.gitObjectFormatFromOid baseSha = .ok format ∧
        App.GitTree.gitTreeOid H (outputs.map gitEntry) format = .ok oid ∧
        identity = ⟨sha256 H.sha256 (regularBytes (outputs.map OutputEntry.regular)), oid⟩ := by
  have hrecords : ∀ outputs : List OutputEntry, outputs.map outputRecord =
      (outputs.map OutputEntry.regular).map regularRecord := by
    intro outputs
    rw [List.map_map]
    rfl
  simp only [computeRunnerOutputIdentity, bind_eq_ok, pure_eq_ok, gitObjectFormatFromBaseSha_eq_ok,
    hrecords]
  constructor
  · rintro ⟨outputs, houtputs, format, hformat, oid, hoid, rfl⟩
    exact ⟨outputs, format, oid, houtputs, hformat,
      (runnerGitTreeOid_eq_ok (collectRunnerRegularTree_eq_ok houtputs).2).mp hoid, rfl⟩
  · rintro ⟨outputs, format, oid, houtputs, hformat, hoid, rfl⟩
    exact ⟨outputs, houtputs, format, hformat, oid,
      (runnerGitTreeOid_eq_ok (collectRunnerRegularTree_eq_ok houtputs).2).mpr hoid, rfl⟩

theorem runnerOutputIdentity_eq_ok {baseSha : JsString} {identity : OutputIdentity} :
    runnerOutputIdentity H root baseSha = .ok identity ↔
      ∃ entries gitEntries format oid,
        Runner.Filesystem.collectRegularTree H.sha256 root = .ok entries ∧
        gitTreeEntries H root = .ok gitEntries ∧
        App.GitTree.gitObjectFormatFromOid baseSha = .ok format ∧
        App.GitTree.gitTreeOid H gitEntries format = .ok oid ∧
        identity = ⟨sha256 H.sha256 (regularBytes entries), oid⟩ := by
  simp only [runnerOutputIdentity, bind_eq_ok, pure_eq_ok, Runner.Filesystem.regularTreeDigest_eq_ok]
  constructor
  · rintro ⟨_, ⟨entries, hentries, rfl⟩, gitEntries, hgit, format, hformat, oid, hoid, rfl⟩
    exact ⟨entries, gitEntries, format, oid, hentries, hgit, hformat, hoid, rfl⟩
  · rintro ⟨entries, gitEntries, format, oid, hentries, hgit, hformat, hoid, rfl⟩
    exact ⟨_, ⟨entries, hentries, rfl⟩, gitEntries, hgit, format, hformat, oid, hoid, rfl⟩

/-- The observer and the runner give the same identities, or neither gives any. -/
def Agree (H : Hashes) (root : Root) : Prop :=
  ∀ baseSha identity, computeRunnerOutputIdentity H root baseSha = .ok identity ↔
    runnerOutputIdentity H root baseSha = .ok identity

theorem agree_of_plainFiles (hvalid : Valid root.entries) (hplain : PlainFiles root.entries) :
    Agree H root := by
  intro baseSha identity
  rw [computeRunnerOutputIdentity_eq_ok, runnerOutputIdentity_eq_ok]
  constructor
  · rintro ⟨outputs, format, oid, houtputs, hformat, hoid, rfl⟩
    exact ⟨_, _, format, oid, (collectRegularTree_eq_ok hvalid hplain).mpr ⟨outputs, houtputs, rfl⟩,
      gitTreeEntries_eq_ok hvalid hplain houtputs, hformat, hoid, rfl⟩
  · rintro ⟨entries, gitEntries, format, oid, hentries, hgit, hformat, hoid, rfl⟩
    obtain ⟨outputs, houtputs, rfl⟩ := (collectRegularTree_eq_ok hvalid hplain).mp hentries
    obtain rfl : outputs.map gitEntry = gitEntries :=
      Except.ok.inj ((gitTreeEntries_eq_ok hvalid hplain houtputs).symm.trans hgit)
    exact ⟨outputs, format, oid, houtputs, hformat, hoid, rfl⟩

/-- What the observer accepts has valid paths, each of them once. -/
theorem valid_of_gitTreeOid {outputs : List OutputEntry} {format : GitObjectFormat}
    {oid : JsString} (h : App.GitTree.gitTreeOid H (outputs.map gitEntry) format = .ok oid) :
    (outputs.map OutputEntry.path).Nodup ∧
      ∀ entry ∈ outputs, App.GitTree.validateGitPath entry.path = .ok entry.path := by
  simp only [App.GitTree.gitTreeOid, bind_eq_ok] at h
  obtain ⟨tree, htree, -⟩ := h
  rw [← App.GitTree.buildUncheckedTree_unchecked] at htree
  have haccepted := (App.GitTree.buildUncheckedTree_spec DirectoryNode.good_empty
    holdsPaths_empty).1.mp ⟨tree, htree⟩
  constructor
  · have hdistinct := haccepted.distinct
    rw [List.map_map, List.map_map] at hdistinct
    exact hdistinct
  · intro entry hentry
    exact (haccepted.valid _ (List.mem_map_of_mem (List.mem_map_of_mem hentry))).1

theorem exists_ok_of_mapEach {α β : Type} {f : α → Except String β} {xs : List α} {ys : List β}
    (h : mapEach f xs = .ok ys) {x : α} (hx : x ∈ xs) : ∃ y, f x = .ok y := by
  rw [mapEach_eq_ok] at h
  induction h with
  | nil => exact absurd hx List.not_mem_nil
  | cons hhead _ ih =>
    obtain rfl | hx := List.mem_cons.mp hx
    · exact ⟨_, hhead⟩
    · exact ih hx

/-- The runner looks for each file of a tree under its rewritten path. -/
theorem exists_of_gitTreeEntries (hvalid : Valid root.entries)
    {entries : List (JsString × RegularTreeEntry)}
    {gitEntries : List App.GitTree.GitTreeEntry} {p : Path} {mode links : ℕ} {bytes : Bytes}
    (hentries : Runner.Filesystem.collectRegularTree H.sha256 root = .ok entries)
    (hgit : gitTreeEntries H root = .ok gitEntries)
    (hkept : Kept isSourceName root.entries p (.leaf (.file mode links bytes))) :
    ∃ mode' links' bytes', At root.entries (splitSlash (pathText p))
      (.leaf (.file mode' links' bytes')) := by
  rw [gitTreeEntries, hentries, ok_bind] at hgit
  simp only [Runner.Filesystem.collectRegularTree, Runner.Filesystem.assertCanonicalDirectory,
    bind_eq_ok, reject_eq_ok, exists_unit, pure_eq_ok] at hentries
  obtain ⟨-, collected, hcollected, rfl⟩ := hentries
  have hkey : pathText p ∈ collected.entries.map Prod.fst := by
    rw [(Runner.Filesystem.foldlM_collectEntry hcollected).2]
    exact Runner.Filesystem.mem_keys_foldl_mapSet (Or.inr (List.mem_map.mpr ⟨_,
      Runner.Filesystem.mem_filterMap_regularOf.mpr ⟨p, mode, links, bytes, hkept, rfl, rfl⟩, rfl⟩))
  obtain ⟨⟨path, e⟩, he, rfl⟩ := List.mem_map.mp hkey
  obtain ⟨gitEntry, hgitEntry⟩ := exists_ok_of_mapEach hgit he
  simp only [gitTreeEntry, bind_eq_ok, orThrow_eq_ok] at hgitEntry
  obtain ⟨content, hcontent, -⟩ := hgitEntry
  obtain ⟨mode', links', hat⟩ := (readFile_eq_some hvalid.distinct).mp hcontent
  exact ⟨mode', links', content, hat⟩

theorem isSourceName_of_validateGitPath {path : JsString}
    (h : App.GitTree.validateGitPath path = .ok path) :
    ∀ name ∈ splitSlash path, isSourceName name = true := by
  intro name hname
  simp only [App.GitTree.validateGitPath, bind_eq_ok, reject_eq_ok, exists_unit] at h
  obtain ⟨-, -, -, hforbidden, -⟩ := h
  refine decide_eq_true ⟨?_, ?_⟩
  · rintro rfl
    exact hforbidden (List.any_eq_true.mpr ⟨_, hname, by decide⟩)
  · rintro rfl
    exact hforbidden (List.any_eq_true.mpr ⟨_, hname, by decide⟩)

/-- Where a file's path has a backslash, the runner finds another file under the rewritten path or
none, and of two files under one path the observer makes no tree. -/
theorem not_both_of_backslash (hvalid : Valid root.entries) (hplain : ¬ PlainFiles root.entries)
    {baseSha : JsString} {identity identity' : OutputIdentity}
    (h : computeRunnerOutputIdentity H root baseSha = .ok identity) :
    runnerOutputIdentity H root baseSha ≠ .ok identity' := by
  intro h'
  obtain ⟨outputs, format, oid, houtputs, -, hoid, -⟩ := computeRunnerOutputIdentity_eq_ok.mp h
  obtain ⟨entries, gitEntries, -, -, hentries, hgit, -⟩ := runnerOutputIdentity_eq_ok.mp h'
  obtain ⟨hdistinct, hpaths⟩ := valid_of_gitTreeOid hoid
  have houtput := (collectRunnerRegularTree_eq_ok houtputs).1
  simp only [PlainFiles, not_forall, not_not] at hplain
  obtain ⟨p, executable, bytes, ⟨mode, links, hkept, -⟩, name, hname, hbackslash⟩ := hplain
  obtain ⟨mode', links', bytes', hat⟩ := exists_of_gitTreeEntries hvalid hentries hgit hkept
  have hmem : (p, .leaf (.file mode links bytes)) ∈
      walk isSourceName compareNames [([], root.entries)] := mem_walk_root.mpr hkept
  have hvalidPath : App.GitTree.validateGitPath (pathText p) = .ok (pathText p) :=
    hpaths ⟨pathText p, regularMode mode, bytes.length, sha256 H.sha256 bytes, bytes⟩
      (houtput ▸ List.mem_filterMap.mpr ⟨_, hmem, rfl⟩)
  have hmem' : (splitSlash (pathText p), .leaf (.file mode' links' bytes')) ∈
      walk isSourceName compareNames [([], root.entries)] :=
    mem_walk_root.mpr ⟨hat, isSourceName_of_validateGitPath hvalidPath⟩
  have hclear : ∀ name ∈ splitSlash (pathText p), (0x5c : UInt16) ∉ name := by
    intro name hname hmem
    refine Runner.Filesystem.notMem_pathText p ?_
    rw [← App.Artifact.joinSlash_splitSlash (pathText p)]
    exact Runner.Filesystem.mem_joinSlash_of_mem hname hmem
  have hne : ((p, .leaf (.file mode links bytes)) : Path × Entry) ≠
      (splitSlash (pathText p), .leaf (.file mode' links' bytes')) := by
    intro heq
    exact hclear name ((Prod.mk.inj heq).1 ▸ hname) hbackslash
  rw [houtput] at hdistinct
  have hpairs := List.pairwise_filterMap.mp (List.pairwise_map.mp hdistinct)
  have : Std.Symm fun a a' : Path × Entry ↦ ∀ b, outputOf H a = some b → ∀ b',
      outputOf H a' = some b' → b.path ≠ b'.path :=
    ⟨fun a a' hpair b hb b' hb' ↦ (hpair b' hb' b hb).symm⟩
  refine hpairs.forall hmem hmem' hne _ rfl _ rfl ?_
  rw [pathText_eq hclear, App.Artifact.joinSlash_splitSlash]

/-- **The observer agrees with the runner** on a tree none of whose files has a path with a
backslash: one gives the identities that the other gives. On any other tree at most one of them
gives an identity. -/
theorem runner_output_identities_agree (H : Hashes) {root : Root} (hvalid : Valid root.entries) :
    (PlainFiles root.entries → Agree H root) ∧
      (¬ PlainFiles root.entries → ∀ baseSha identity identity',
        ¬ (computeRunnerOutputIdentity H root baseSha = .ok identity ∧
          runnerOutputIdentity H root baseSha = .ok identity')) := by
  refine ⟨agree_of_plainFiles hvalid, fun hplain baseSha identity identity' ↦ ?_⟩
  rintro ⟨h, h'⟩
  exact not_both_of_backslash hvalid hplain h h'

/-- Hashes that can be evaluated. -/
def sampleHashes : Hashes where
  sha1 := ⟨fun bytes ↦ (HashFunction.polynomial.digest bytes).take 20, fun bytes ↦ by
    rw [List.length_take, HashFunction.polynomial.length_digest]
    rfl⟩
  sha256 := .polynomial

theorem runner_output_identities_agree_nested : Agree sampleHashes Runner.Filesystem.nestedRoot := by
  refine (runner_output_identities_agree sampleHashes Runner.Filesystem.valid_nestedRoot).1 ?_
  rintro p executable bytes ⟨mode, links, hkept, -⟩
  obtain ⟨-, hnode⟩ | ⟨rfl, -⟩ := Runner.Filesystem.at_nestedRoot hkept.1
  · cases hnode
  · exact List.forall_mem_cons.mpr ⟨by decide, List.forall_mem_singleton.mpr (by decide)⟩

def sampleOutput : OutputEntry :=
  ⟨js "a/b", 0o100644, 1, sha256 .polynomial [0x78], [0x78]⟩

/-- The observer takes the file `a\b` for a file `b` in a directory `a`; the runner looks for that
file and does not find it. -/
theorem backslash_observed_only : ¬ ∀ root : Root, Valid root.entries → Agree sampleHashes root := by
  intro hclaim
  have hcollect : collectRunnerRegularTree sampleHashes Runner.Filesystem.backslashRoot =
      .ok [sampleOutput] := by
    rw [collectRunnerRegularTree, Runner.Filesystem.walk_backslashRoot (by decide)]
    rfl
  obtain ⟨oid, hoid⟩ : ∃ oid, App.GitTree.gitTreeOid sampleHashes ([sampleOutput].map gitEntry)
      .sha1 = .ok oid := ⟨_, rfl⟩
  have hobserved := computeRunnerOutputIdentity_eq_ok.mpr
    ⟨_, _, oid, hcollect, (rfl : App.GitTree.gitObjectFormatFromOid (List.replicate 40 0x30) =
      .ok .sha1), hoid, rfl⟩
  have hrunner := (hclaim _ Runner.Filesystem.valid_backslashRoot _ _).mp hobserved
  obtain ⟨-, gitEntries, -, -, -, hgit, -⟩ := runnerOutputIdentity_eq_ok.mp hrunner
  have hfails : gitTreeEntries sampleHashes Runner.Filesystem.backslashRoot =
      .error "ENOENT: no such file or directory" := by
    rw [gitTreeEntries, sampleHashes, Runner.Filesystem.collect_backslashRoot]
    rfl
  rw [hfails] at hgit
  cases hgit

end ApiMigrator.Ops.RunnerOutput
