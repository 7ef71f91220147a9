import ApiMigrator.Rewrite.CandidateFiles

/-!
What a transaction leaves behind. The file system may fail once, at any step; another writer may
change anything but the temporary files at the hook before each replacement. A transaction that
returns has left the candidate in place; one that throws has put back every file that it has
replaced and nobody else has touched, and has overwritten no edit but one that matches the
candidate.
-/

set_option autoImplicit false
set_option relaxedAutoImplicit false

namespace ApiMigrator.Rewrite.CandidateFiles

open Foundation.Text Foundation.Number Foundation.Json Foundation.Outcome Foundation.Pattern
open Foundation.Binary Foundation.Interaction Foundation.Interaction.Prog
open App.Artifact (Path)

/-! ### The surroundings -/

/-- The live repository, whether an operation has failed, and what the other writer has last left
at each path it has changed. -/
structure World where
  tree : Tree
  failed : Bool
  edits : Path → Option (Option Node)

/-- The other writer changes the tree. -/
def World.edited (w : World) (tree : Tree) : World where
  tree := tree
  failed := w.failed
  edits p := if tree.lookup p = w.tree.lookup p then w.edits p else some (tree.lookup p)

def Op.isHook : Op → Bool
  | beforeCommit _ _ => true
  | _ => false

/-- One operation. It does its work or says why it cannot; the first failure of all may also have
no reason. The hook lets the other writer act and may throw. -/
inductive Step (g : Setting) (allowed : Tree → Tree → Prop) (w : World) :
    (op : Op) → Answer op → World → Prop
  | works (op : Op) (a : op.Val) (hop : op.isHook = false) (hread : op.read g w.tree = .ok a) :
    Step g allowed w op (.ok a) { w with tree := op.write g w.tree }
  | refuses (op : Op) (message : String) (hop : op.isHook = false)
      (hread : op.read g w.tree = .error message) :
    Step g allowed w op (.error message) { w with failed := true }
  | fails (op : Op) (message : String) (hop : op.isHook = false) (hfirst : w.failed = false) :
    Step g allowed w op (.error message) { w with failed := true }
  | edits (file : JsString) (index : ℕ) (tree : Tree) (hallowed : allowed w.tree tree) :
    Step g allowed w (.beforeCommit file index) (.ok ()) (w.edited tree)
  | throws (file : JsString) (index : ℕ) (tree : Tree) (message : String)
      (hallowed : allowed w.tree tree) (hfirst : w.failed = false) :
    Step g allowed w (.beforeCommit file index) (.error message)
      { w.edited tree with failed := true }

variable {g : Setting} {allowed : Tree → Tree → Prop} {w w' : World}

theorem step_ok {op : Op} (hop : op.isHook = false) {a : op.Val}
    (hstep : Step g allowed w op (.ok a) w') :
    op.read g w.tree = .ok a ∧ w' = { w with tree := op.write g w.tree } := by
  cases hstep with
  | works _ _ _ hread => exact ⟨hread, rfl⟩
  | edits => cases hop

theorem step_error {op : Op} (hop : op.isHook = false) {message : String}
    (hstep : Step g allowed w op (.error message) w') :
    w' = { w with failed := true } ∧ (w.failed = true → op.read g w.tree = .error message) := by
  cases hstep with
  | refuses _ _ _ hread => exact ⟨rfl, fun _ ↦ hread⟩
  | fails _ _ _ hfirst => exact ⟨rfl, fun hfailed ↦ absurd (hfirst.symm.trans hfailed) (by decide)⟩
  | throws => cases hop

theorem step_hook {file : JsString} {index : ℕ} {answer : Answer (.beforeCommit file index)}
    (hstep : Step g allowed w (.beforeCommit file index) answer w') :
    ∃ tree, allowed w.tree tree ∧ ((∃ a, answer = .ok a ∧ w' = w.edited tree) ∨
      ∃ message, answer = .error message ∧ w' = { w.edited tree with failed := true }) := by
  cases hstep with
  | works _ _ hop => cases hop
  | refuses _ _ hop => cases hop
  | fails _ _ hop => cases hop
  | edits _ _ tree hallowed => exact ⟨tree, hallowed, Or.inl ⟨(), rfl, rfl⟩⟩
  | throws _ _ tree message hallowed => exact ⟨tree, hallowed, Or.inr ⟨message, rfl, rfl⟩⟩

/-! ### What the checks establish -/

/-- The path of a file below the root, every name of which is a real name. -/
def IsOutputPath (file : JsString) : Prop :=
  ¬ (file = [] ∨ 0 ∈ file ∨ 0x5c ∈ file ∨ startsWith file "/" = true) ∧
    ¬ (splitSlash file).any (fun part ↦ decide (part = [] ∨ part = js "." ∨ part = js "..")) = true

theorem safeRepositoryPath_eq_ok {tree : Tree} {file : JsString} {p : Path} :
    safeRepositoryPath tree file = .ok p ↔ IsOutputPath file ∧ splitSlash file = p ∧
      ∀ parent ∈ parents (splitSlash file),
        (tree.lookup parent).any Node.isDirectory = true := by
  have hparent : ∀ parent, (do
      let node ← orThrow (tree.lookup parent) "ENOENT: no such file or directory"
      reject (node.isDirectory = false) "Migration output parent must be a real directory") =
        Except.ok () ↔ (tree.lookup parent).any Node.isDirectory = true := by
    intro parent
    simp only [bind_eq_ok, orThrow_eq_ok, reject_eq_ok, Bool.not_eq_false, Option.any_eq_true]
  simp only [safeRepositoryPath, bind_eq_ok, reject_eq_ok, exists_unit, forEach_eq_ok, hparent,
    pure_eq_ok, IsOutputPath, and_assoc]
  tauto

theorem assertExpectedFileState_eq_ok {destination expected : Option Node}
    (h : assertExpectedFileState destination expected = .ok ()) : destination = expected ∧
      (expected = none ∨ ∃ mode bytes, expected = some (.file mode bytes)) := by
  unfold assertExpectedFileState at h
  split at h
  · exact ⟨rfl, Or.inl rfl⟩
  · rw [reject_eq_ok, not_or, not_not, not_not] at h
    obtain ⟨rfl, rfl⟩ := h
    exact ⟨rfl, Or.inr ⟨_, _, rfl⟩⟩
  · cases h
  · cases h

/-- Nothing in either place, or regular files of one mode and one digest. -/
def SameCandidate (g : Setting) (x y : Option Node) : Prop :=
  x = none ∧ y = none ∨ ∃ mode bytes bytes', x = some (.file mode bytes) ∧
    y = some (.file mode bytes') ∧ g.sha256.hex bytes = g.sha256.hex bytes'

/-- What is recorded of a proposed file. -/
def candidateOf (g : Setting) : Option Node → Option RepositoryTreeEntry
  | some (.file mode bytes) => some ⟨.file, mode, g.sha256.hex bytes⟩
  | _ => none

/-- What may be proposed for a path. -/
def Regular (x : Option Node) : Prop := x = none ∨ ∃ mode bytes, x = some (.file mode bytes)

theorem Regular.not_directory {x : Option Node} (h : Regular x) :
    x.any Node.isDirectory = false := by
  obtain rfl | ⟨mode, bytes, rfl⟩ := h <;> rfl

theorem assertCandidateFileState_eq_ok {destination y : Option Node} (hy : Regular y) :
    assertCandidateFileState g destination (candidateOf g y) = .ok () ↔
      SameCandidate g destination y := by
  obtain rfl | ⟨mode, bytes, rfl⟩ := hy
  · cases destination with
    | none => simp [assertCandidateFileState, candidateOf, SameCandidate]
    | some node => simp [assertCandidateFileState, candidateOf, SameCandidate]
  · cases destination with
    | none => simp [assertCandidateFileState, candidateOf, SameCandidate]
    | some node =>
      cases node <;>
        simp [assertCandidateFileState, candidateOf, SameCandidate, repositoryTreeEntry]
      exact fun _ ↦ eq_comm

theorem SameCandidate.refl {y : Option Node} (hy : Regular y) : SameCandidate g y y := by
  obtain rfl | ⟨mode, bytes, rfl⟩ := hy
  · exact Or.inl ⟨rfl, rfl⟩
  · exact Or.inr ⟨mode, bytes, bytes, rfl, rfl, rfl⟩

theorem SameCandidate.regular {x y : Option Node} (h : SameCandidate g x y) : Regular x := by
  obtain ⟨rfl, -⟩ | ⟨mode, bytes, bytes', rfl, -, -⟩ := h
  · exact Or.inl rfl
  · exact Or.inr ⟨mode, bytes, rfl⟩

/-! ### The state between two steps -/

/-- The temporary names of the changed files. -/
def temporaries (g : Setting) (files : List JsString) : List Path :=
  files.map (fun file ↦ stagePath g (splitSlash file)) ++
    files.map fun file ↦ rollbackPath g (splitSlash file)

/-- The random parts are new: no temporary name is taken, and no two names are alike. -/
structure Fresh (g : Setting) (original : Tree) (files : List JsString) : Prop where
  nodup : (files.map splitSlash ++ temporaries g files).Nodup
  absent : ∀ p ∈ temporaries g files, original.lookup p = none

/-- What a path would hold without the transaction. -/
def World.others (original : Tree) (w : World) (p : Path) : Option Node :=
  (w.edits p).getD (original.lookup p)

/-- Why a changed file is not as it would be without the transaction: the other writer has taken
away a directory above it, or has written what matches the candidate, which is then undone. -/
def Excused (g : Setting) (files : List JsString) (w : World) (p : Path) : Prop :=
  ∃ file ∈ files, splitSlash file = p ∧
    ((∃ parent ∈ parents p, ∃ x, w.edits parent = some x ∧ x.any Node.isDirectory = false) ∨
      ∃ x, w.edits p = some x ∧ SameCandidate g x (g.proposed.lookup p) ∧
        w.tree.lookup p = g.expected.lookup p)

/-- What is known of a file once its preparation has begun. -/
structure Sound (g : Setting) (original : Tree) (files : List JsString)
    (item : PreparedCandidateFile) : Prop where
  mem : item.relative ∈ files
  destination : item.destination = splitSlash item.relative
  output : IsOutputPath item.relative
  staged : ∀ p, item.staged = some p → p = stagePath g item.destination
  expectedExists : item.expectedExists = (g.expected.lookup item.destination).isSome
  regular : Regular (g.expected.lookup item.destination)
  above : ∀ parent ∈ parents item.destination,
    (original.lookup parent).any Node.isDirectory = true

/-- The candidate of a file is staged, or there is none. -/
structure Complete (g : Setting) (item : PreparedCandidateFile) : Prop where
  candidate : item.candidate = candidateOf g (g.proposed.lookup item.destination)
  regular : Regular (g.proposed.lookup item.destination)
  staged : item.staged = if (g.proposed.lookup item.destination).isSome = true then
    some (stagePath g item.destination) else none
  created : item.staged.isSome = true → item.stagedCreated = true

/-- A file whose stage is in the repository. -/
def PreparedCandidateFile.HasStage (item : PreparedCandidateFile) : Prop :=
  item.stagedCreated = true ∧ item.candidateInstalled = false

/-- The state of a transaction: each path holds what it would hold without it, but for the stages,
the candidates that have replaced their originals, and the paths that were left alone. -/
structure Between (g : Setting) (original : Tree) (files : List JsString) (left : List Path)
    (items : List PreparedCandidateFile) (w : World) : Prop where
  sound : ∀ item ∈ items, Sound g original files item
  complete : ∀ item ∈ items, item.candidateInstalled = true → Complete g item
  nodup : (items.map PreparedCandidateFile.relative).Nodup
  apart : ∀ item ∈ items, item.destination ∉ left
  excused : ∀ p ∈ left, Excused g files w p
  elsewhere : ∀ p ∉ left, (∀ item ∈ items, item.candidateInstalled = true → item.destination ≠ p) →
    (∀ item ∈ items, item.HasStage → item.staged ≠ some p) →
      w.tree.lookup p = w.others original p
  installed : ∀ item ∈ items, item.candidateInstalled = true →
    w.others original item.destination = g.expected.lookup item.destination ∧
        w.tree.lookup item.destination = g.proposed.lookup item.destination ∨
      ∃ x, w.edits item.destination = some x ∧ w.tree.lookup item.destination = x
  stage : ∀ item ∈ items, item.HasStage → ∀ p, item.staged = some p →
    ∃ mode bytes, w.tree.lookup p = some (.file mode bytes) ∧ (item.candidate ≠ none →
      g.proposed.lookup item.destination = some (.file mode bytes))
  temporary : ∀ p ∈ temporaries g files, w.edits p = none
  directories : ∀ q, (w.tree.lookup q).any Node.isDirectory =
    (w.others original q).any Node.isDirectory

variable {original : Tree} {files : List JsString} {left : List Path}
  {items : List PreparedCandidateFile} {item other : PreparedCandidateFile}

theorem Between.again (h : Between g original files left items w) (failed : Bool) :
    Between g original files left items { w with failed := failed } :=
  ⟨h.sound, h.complete, h.nodup, h.apart, h.excused, h.elsewhere, h.installed, h.stage,
    h.temporary, h.directories⟩

/-- The order of the files does not matter. -/
theorem Between.perm {items' : List PreparedCandidateFile} (hperm : items.Perm items')
    (h : Between g original files left items w) : Between g original files left items' w where
  sound i hi := h.sound i (hperm.mem_iff.mpr hi)
  complete i hi := h.complete i (hperm.mem_iff.mpr hi)
  nodup := (hperm.map _).nodup_iff.mp h.nodup
  apart i hi := h.apart i (hperm.mem_iff.mpr hi)
  excused := h.excused
  elsewhere p hp hinstalled hstage := h.elsewhere p hp
    (fun i hi ↦ hinstalled i (hperm.mem_iff.mp hi)) fun i hi ↦ hstage i (hperm.mem_iff.mp hi)
  installed i hi := h.installed i (hperm.mem_iff.mpr hi)
  stage i hi := h.stage i (hperm.mem_iff.mpr hi)
  temporary := h.temporary
  directories := h.directories

theorem Sound.stage_mem (hitem : Sound g original files item) {p : Path}
    (hp : item.staged = some p) : p ∈ temporaries g files := by
  rw [hitem.staged p hp, hitem.destination]
  exact List.mem_append_left _ (List.mem_map_of_mem hitem.mem)

theorem Sound.rollback_mem (hitem : Sound g original files item) :
    rollbackPath g item.destination ∈ temporaries g files := by
  rw [hitem.destination]
  exact List.mem_append_right _ (List.mem_map_of_mem hitem.mem)

section Names

variable (hfresh : Fresh g original files)
include hfresh

theorem Fresh.destination_notMem (hitem : Sound g original files item) :
    item.destination ∉ temporaries g files := by
  rw [hitem.destination]
  exact (List.nodup_append.mp hfresh.nodup).2.2 _ (List.mem_map_of_mem hitem.mem) |>
    fun h hmem ↦ h _ hmem rfl

theorem Fresh.rollback_ne_stage (hitem : Sound g original files item)
    (hother : Sound g original files other) {p : Path} (hp : other.staged = some p) :
    rollbackPath g item.destination ≠ p := by
  rw [hother.staged p hp, hitem.destination, hother.destination]
  have hnodup := (List.nodup_append.mp hfresh.nodup).2.1
  exact ((List.nodup_append.mp hnodup).2.2 _ (List.mem_map_of_mem hother.mem) _
    (List.mem_map_of_mem hitem.mem)).symm

theorem Fresh.relative_of_stage (hitem : Sound g original files item)
    (hother : Sound g original files other) {p : Path} (hp : item.staged = some p)
    (hp' : other.staged = some p) : item.relative = other.relative := by
  have hnodup := (List.nodup_append.mp hfresh.nodup).2.1
  refine List.inj_on_of_nodup_map (List.nodup_append.mp hnodup).1 hitem.mem hother.mem ?_
  show stagePath g (splitSlash item.relative) = stagePath g (splitSlash other.relative)
  rw [← hitem.destination, ← hother.destination, ← hitem.staged p hp, ← hother.staged p hp']

theorem Fresh.relative_of_destination (hitem : Sound g original files item)
    (hother : Sound g original files other) (hsame : item.destination = other.destination) :
    item.relative = other.relative := by
  refine List.inj_on_of_nodup_map (List.nodup_append.mp hfresh.nodup).1 hitem.mem hother.mem ?_
  rw [← hitem.destination, ← hother.destination, hsame]

/-- A temporary name is absent without the transaction. -/
theorem Fresh.others_temporary (h : Between g original files left items w) {p : Path}
    (hp : p ∈ temporaries g files) : w.others original p = none := by
  rw [World.others, h.temporary p hp, Option.getD_none, hfresh.absent p hp]

end Names

/-! ### Preparation -/

/-- The other writer leaves the temporary files alone. -/
def LeavesTemporaries (g : Setting) (files : List JsString) (tree tree' : Tree) : Prop :=
  ∀ p ∈ temporaries g files, tree'.lookup p = tree.lookup p

theorem others_edited (tree : Tree) (p : Path) : (w.edited tree).others original p =
    if tree.lookup p = w.tree.lookup p then w.others original p else tree.lookup p := by
  simp only [World.others, World.edited]
  split_ifs with h
  · rfl
  · rfl

/-- An edit does not touch what the transaction has left, and takes its own place. -/
theorem Between.edited (h : Between g original files [] items w) {tree : Tree}
    (htree : LeavesTemporaries g files w.tree tree) :
    Between g original files [] items (w.edited tree) where
  sound := h.sound
  complete := h.complete
  nodup := h.nodup
  apart := h.apart
  excused p hp := absurd hp List.not_mem_nil
  elsewhere p hp hinstalled hstage := by
    rw [others_edited]
    split_ifs with hsame
    · exact hsame.trans (h.elsewhere p hp hinstalled hstage)
    · rfl
  installed i hi hinstalled := by
    by_cases hsame : tree.lookup i.destination = w.tree.lookup i.destination
    · rw [others_edited, if_pos hsame]
      have hedits : (w.edited tree).edits i.destination = w.edits i.destination := if_pos hsame
      have htree : (w.edited tree).tree.lookup i.destination = w.tree.lookup i.destination := hsame
      rw [hedits, htree]
      exact h.installed i hi hinstalled
    · exact Or.inr ⟨tree.lookup i.destination, if_neg hsame, rfl⟩
  stage i hi hstage p hp := by
    obtain ⟨mode, bytes, hlookup, hcandidate⟩ := h.stage i hi hstage p hp
    exact ⟨mode, bytes, (htree p ((h.sound i hi).stage_mem hp)).trans hlookup, hcandidate⟩
  temporary p hp := (if_pos (htree p hp)).trans (h.temporary p hp)
  directories q := by
    rw [others_edited]
    split_ifs with hsame
    · exact (congrArg (·.any Node.isDirectory) hsame).trans (h.directories q)
    · rfl

/-- What distinguishes two states is a file at one path. -/
structure Beside (p : Path) (w w' : World) : Prop where
  edits : w'.edits = w.edits
  tree : ∀ q, q ≠ p → w'.tree.lookup q = w.tree.lookup q
  file : ∃ mode bytes, w'.tree.lookup p = some (.file mode bytes)

theorem Beside.others {p : Path} (h : Beside p w w') : w'.others original = w.others original := by
  funext q
  rw [World.others, World.others, h.edits]

theorem beside_copy {p : Path} {mode : Mode} {bytes : Bytes} :
    Beside p w { w with tree := Op.write g w.tree (.copy p mode bytes) } :=
  ⟨rfl, fun _ hq ↦ AList.lookup_insert_ne hq, _, _, AList.lookup_insert _⟩

theorem lookup_chmod {tree : Tree} {p : Path} {mode mode' : Mode} {bytes : Bytes}
    (hp : tree.lookup p = some (.file mode bytes)) :
    Op.write g tree (.chmod p mode') = tree.insert p (.file mode' bytes) := by
  simp only [Op.write, hp]

theorem beside_chmod {p : Path} (mode : Mode) (h : Beside p w w') :
    Beside p w { w' with tree := Op.write g w'.tree (.chmod p mode) } := by
  obtain ⟨mode', bytes, hfile⟩ := h.file
  rw [lookup_chmod hfile]
  exact ⟨h.edits, fun q hq ↦ (AList.lookup_insert_ne hq).trans (h.tree q hq), _, _,
    AList.lookup_insert _⟩

/-- A file whose preparation has begun, before anything is staged for it. -/
theorem Between.begin (h : Between g original files [] items w)
    (hitem : Sound g original files item) (hnew : item.relative ∉ items.map (·.relative))
    (hstaged : item.stagedCreated = false) (hinstalled : item.candidateInstalled = false) :
    Between g original files [] (items ++ [item]) w where
  sound := List.forall_mem_append.mpr ⟨h.sound, List.forall_mem_singleton.mpr hitem⟩
  complete := List.forall_mem_append.mpr ⟨h.complete, List.forall_mem_singleton.mpr fun hi ↦
    absurd (hinstalled.symm.trans hi) (by decide)⟩
  nodup := by
    rw [List.map_append, List.map_singleton]
    exact List.nodup_append.mpr ⟨h.nodup, List.nodup_singleton _, fun x hx y hy heq ↦
      hnew (List.mem_singleton.mp hy ▸ heq ▸ hx)⟩
  apart _ _ := List.not_mem_nil
  excused p hp := absurd hp List.not_mem_nil
  elsewhere p hp hi hs := h.elsewhere p hp (fun i him ↦ hi i (List.mem_append_left _ him))
    fun i him ↦ hs i (List.mem_append_left _ him)
  installed := List.forall_mem_append.mpr ⟨h.installed, List.forall_mem_singleton.mpr fun hi ↦
    absurd (hinstalled.symm.trans hi) (by decide)⟩
  stage := List.forall_mem_append.mpr ⟨h.stage, List.forall_mem_singleton.mpr fun hi ↦
    absurd (hstaged.symm.trans hi.1) (by decide)⟩
  temporary := h.temporary
  directories := h.directories

/-- The stage of the next file is there. -/
theorem Between.stages (hfresh : Fresh g original files)
    (h : Between g original files [] items w) (hitem : Sound g original files item)
    (hnew : item.relative ∉ items.map (·.relative)) (hinstalled : item.candidateInstalled = false)
    {p : Path} (hp : item.staged = some p) (hw : Beside p w w')
    (hcandidate : item.candidate ≠ none →
      w'.tree.lookup p = g.proposed.lookup item.destination)
    (hcreated : item.stagedCreated = true) :
    Between g original files [] (items ++ [item]) w' := by
  have hothers : w'.others original = w.others original := hw.others
  have htemporary : p ∈ temporaries g files := hitem.stage_mem hp
  have hold : ∀ i ∈ items, ∀ q, i.staged = some q → q ≠ p := by
    rintro i hi q hq rfl
    exact hnew (hfresh.relative_of_stage (h.sound i hi) hitem hq hp ▸ List.mem_map_of_mem hi)
  have hdestination : ∀ i ∈ items, i.destination ≠ p := by
    rintro i hi rfl
    exact hfresh.destination_notMem (h.sound i hi) htemporary
  obtain ⟨mode, bytes, hfile⟩ := hw.file
  refine ⟨List.forall_mem_append.mpr ⟨h.sound, List.forall_mem_singleton.mpr hitem⟩,
    List.forall_mem_append.mpr ⟨h.complete, List.forall_mem_singleton.mpr fun hi ↦
      absurd (hinstalled.symm.trans hi) (by decide)⟩, ?_, fun _ _ ↦ List.not_mem_nil,
    fun q hq ↦ absurd hq List.not_mem_nil, ?_, ?_, ?_, ?_, ?_⟩
  · rw [List.map_append, List.map_singleton]
    exact List.nodup_append.mpr ⟨h.nodup, List.nodup_singleton _, fun x hx y hy heq ↦
      hnew (List.mem_singleton.mp hy ▸ heq ▸ hx)⟩
  · intro q hq hi hs
    have hne : q ≠ p := by
      rintro rfl
      exact hs item (List.mem_append_right _ (List.mem_singleton_self _)) ⟨hcreated, hinstalled⟩ hp
    rw [hw.tree q hne, hothers]
    exact h.elsewhere q hq (fun i him ↦ hi i (List.mem_append_left _ him))
      fun i him ↦ hs i (List.mem_append_left _ him)
  · refine List.forall_mem_append.mpr ⟨fun i hi hset ↦ ?_, List.forall_mem_singleton.mpr fun hi ↦
      absurd (hinstalled.symm.trans hi) (by decide)⟩
    rw [hothers, hw.edits, hw.tree _ (hdestination i hi)]
    exact h.installed i hi hset
  · refine List.forall_mem_append.mpr ⟨fun i hi hset q hq ↦ ?_,
      List.forall_mem_singleton.mpr fun _ q hq ↦ ?_⟩
    · rw [hw.tree q (hold i hi q hq)]
      exact h.stage i hi hset q hq
    · obtain rfl : p = q := Option.some.inj (hp.symm.trans hq)
      exact ⟨mode, bytes, hfile, fun hne ↦ (hcandidate hne).symm.trans hfile⟩
  · intro q hq
    rw [hw.edits]
    exact h.temporary q hq
  · intro q
    rw [hothers]
    by_cases hq : q = p
    · subst hq
      rw [hfile, hfresh.others_temporary h htemporary]
      rfl
    · rw [hw.tree q hq]
      exact h.directories q

/-- What the part before a rollback must establish: a failure leaves the state of the files it has
prepared. -/
def Safely (g : Setting) (original : Tree) (files : List JsString) {α : Type}
    (good : α → World → Prop) : Except Stop α → World → Prop
  | .ok a, w => good a w
  | .error stop, w => Between g original files [] stop.prepared w ∧ w.failed = true

theorem ensures_attempt_bind {α : Type} {op : Op} (hop : op.isHook = false)
    {good : α → World → Prop} (h : Between g original files [] items w)
    {f : op.Val → Program Stop α}
    (hok : ∀ a, op.read g w.tree = .ok a → (f a).Ensures (Step g allowed)
      (Safely g original files good) { w with tree := op.write g w.tree }) :
    (attempt items op >>= f).Ensures (Step g allowed) (Safely g original files good) w := by
  refine Ensures.attempt_bind (fun e w' hstep ↦ ?_) fun a w' hstep ↦ ?_
  · obtain ⟨rfl, -⟩ := step_error hop hstep
    exact ⟨h.again true, rfl⟩
  · obtain ⟨hread, rfl⟩ := step_ok hop hstep
    exact hok a hread

/-- Nothing has been edited yet: the tree shows which directories there were. -/
theorem above_of_safe (h : Between g original files [] items w) (hnone : ∀ p, w.edits p = none)
    {file : JsString} {p : Path} (hsafe : safeRepositoryPath w.tree file = .ok p) :
    ∀ parent ∈ parents (splitSlash file),
      (original.lookup parent).any Node.isDirectory = true := by
  intro parent hparent
  have hdirectory := (safeRepositoryPath_eq_ok.mp hsafe).2.2 parent hparent
  rwa [h.directories parent, World.others, hnone parent] at hdirectory

theorem prepareFile_ensures (hfresh : Fresh g original files)
    (h : Between g original files [] items w) (hnone : ∀ p, w.edits p = none) {file : JsString}
    (hfile : file ∈ files) (hnew : file ∉ items.map (·.relative)) :
    (prepareFile g items file).Ensures (Step g allowed) (Safely g original files fun item w' ↦
      Between g original files [] (items ++ [item]) w' ∧ (∀ p, w'.edits p = none) ∧
        Complete g item ∧ item.relative = file ∧ item.candidateInstalled = false) w := by
  refine ensures_attempt_bind rfl h fun _ _ ↦ ?_
  refine ensures_attempt_bind rfl h fun _ hread ↦ ?_
  simp only [Op.read, bind_eq_ok] at hread
  obtain ⟨destination, hsafe, expected, hexpected, hstate⟩ := hread
  obtain ⟨houtput, rfl, -⟩ := safeRepositoryPath_eq_ok.mp hsafe
  obtain ⟨-, rfl, -⟩ := safeRepositoryPath_eq_ok.mp hexpected
  obtain ⟨-, hregular⟩ := assertExpectedFileState_eq_ok hstate
  refine ensures_attempt_bind rfl h fun proposed hread ↦ ?_
  simp only [Op.read, bind_eq_ok] at hread
  obtain ⟨path, hpath, hread⟩ := hread
  obtain ⟨-, rfl, -⟩ := safeRepositoryPath_eq_ok.mp hpath
  have hsound : ∀ item : PreparedCandidateFile, item.relative = file →
      item.destination = splitSlash file →
      (∀ p, item.staged = some p → p = stagePath g (splitSlash file)) →
      item.expectedExists = (g.expected.lookup (splitSlash file)).isSome →
        Sound g original files item := by
    rintro item rfl hdestination hstaged hexists
    refine ⟨hfile, hdestination, houtput, ?_, ?_, ?_, ?_⟩ <;> rw [hdestination]
    · exact hstaged
    · exact hexists
    · exact hregular
    · exact above_of_safe h hnone hsafe
  cases hlookup : g.proposed.lookup (splitSlash file) with
  | none =>
    rw [hlookup] at hread
    obtain rfl : none = proposed := pure_eq_ok.mp hread
    refine ⟨h.begin (hsound _ rfl rfl (fun _ hp ↦ by cases hp) rfl) hnew rfl rfl, hnone, ?_, rfl,
      rfl⟩
    exact ⟨by rw [hlookup]; rfl, Or.inl hlookup, by rw [hlookup]; rfl, fun hsome ↦ by cases hsome⟩
  | some node =>
    rw [hlookup] at hread
    simp only [map_eq_ok] at hread
    obtain ⟨⟨mode, bytes⟩, hregularFile, rfl⟩ := hread
    obtain rfl : node = .file mode bytes := by
      unfold regularFile at hregularFile
      split at hregularFile <;> simp_all
    have hstaged : ∀ p, some (stagePath g (splitSlash file)) = some p →
        p = stagePath g (splitSlash file) := fun p hp ↦ (Option.some.inj hp).symm
    have hbegun := h.begin (hsound ⟨file, splitSlash file, some (stagePath g (splitSlash file)),
      false, none, (g.expected.lookup (splitSlash file)).isSome, false⟩ rfl rfl hstaged rfl)
      hnew rfl rfl
    have hstages : ∀ w' candidate, Beside (stagePath g (splitSlash file)) w w' →
        (candidate ≠ none → w'.tree.lookup (stagePath g (splitSlash file)) =
          g.proposed.lookup (splitSlash file)) →
        Between g original files [] (items ++ [⟨file, splitSlash file,
          some (stagePath g (splitSlash file)), true, candidate,
          (g.expected.lookup (splitSlash file)).isSome, false⟩]) w' :=
      fun w' candidate hbeside hcandidate ↦ h.stages hfresh (hsound _ rfl rfl hstaged rfl) hnew rfl
        rfl hbeside hcandidate rfl
    refine ensures_attempt_bind rfl hbegun fun _ _ ↦ ?_
    have hcopied : Beside (stagePath g (splitSlash file)) w
      { w with tree := Op.write g w.tree (.copy (stagePath g (splitSlash file)) mode bytes) } :=
      beside_copy
    refine ensures_attempt_bind rfl (hstages _ none hcopied fun hne ↦ absurd rfl hne) fun _ _ ↦ ?_
    have hchanged := beside_chmod (g := g) mode hcopied
    refine ensures_attempt_bind rfl (hstages _ none hchanged fun hne ↦ absurd rfl hne)
      fun candidate hread ↦ ?_
    have hlast : (Op.write g (Op.write g w.tree (.copy (stagePath g (splitSlash file)) mode bytes))
        (.chmod (stagePath g (splitSlash file)) mode)).lookup (stagePath g (splitSlash file)) =
          some (.file mode bytes) := by
      have hcopy : (Op.write g w.tree (.copy (stagePath g (splitSlash file)) mode bytes)).lookup
          (stagePath g (splitSlash file)) = some (.file (g.createdMode mode) bytes) :=
        AList.lookup_insert _
      rw [lookup_chmod hcopy]
      exact AList.lookup_insert _
    simp only [Op.read, bind_eq_ok, orThrow_eq_ok] at hread
    obtain ⟨node, hnode, hentry⟩ := hread
    obtain rfl : Node.file mode bytes = node := Option.some.inj (hlast.symm.trans hnode)
    obtain rfl : (⟨.file, mode, g.sha256.hex bytes⟩ : RepositoryTreeEntry) = candidate :=
      Except.ok.inj hentry
    refine ⟨hstages _ _ hchanged fun _ ↦ hlast.trans hlookup.symm, hnone, ?_, rfl, rfl⟩
    exact ⟨by rw [hlookup]; rfl, Or.inr ⟨mode, bytes, hlookup⟩, by rw [hlookup]; rfl, fun _ ↦ rfl⟩

/-- The state in which every file of the transaction is prepared and none is replaced. -/
structure Ready (g : Setting) (original : Tree) (files done : List JsString)
    (items : List PreparedCandidateFile) (w : World) : Prop where
  between : Between g original files [] items w
  unedited : ∀ p, w.edits p = none
  complete : ∀ item ∈ items, Complete g item
  relative : items.map (·.relative) = done
  installed : ∀ item ∈ items, item.candidateInstalled = false

theorem prepare_ensures (hfresh : Fresh g original files) {done rest : List JsString}
    (hfiles : files = done ++ rest) (hnodup : files.Nodup)
    (h : Ready g original files done items w) :
    (prepare g items rest).Ensures (Step g allowed)
      (Safely g original files fun items w' ↦ Ready g original files files items w') w := by
  induction rest generalizing done items w with
  | nil =>
    rw [List.append_nil] at hfiles
    rw [hfiles] at h ⊢
    exact h
  | cons file rest ih =>
    have hnew : file ∉ items.map (·.relative) := by
      rw [h.relative]
      rw [hfiles] at hnodup
      exact fun hmem ↦ (List.nodup_append.mp hnodup).2.2 _ hmem _ List.mem_cons_self rfl
    have hmem : file ∈ files := by
      rw [hfiles]
      exact List.mem_append_right _ List.mem_cons_self
    refine Ensures.bind_of (prepareFile_ensures hfresh h.between h.unedited hmem hnew)
      (fun _ _ hstop ↦ hstop) ?_
    rintro item w' ⟨hbetween, hnone, hcomplete, rfl, hinstalled⟩
    have hfiles' : files = done ++ [item.relative] ++ rest := by
      rw [hfiles, List.append_assoc, List.singleton_append]
    refine ih hfiles' ⟨hbetween, hnone, ?_, ?_, ?_⟩
    · exact List.forall_mem_append.mpr ⟨h.complete, List.forall_mem_singleton.mpr hcomplete⟩
    · rw [List.map_append, h.relative, List.map_singleton]
    · exact List.forall_mem_append.mpr ⟨h.installed, List.forall_mem_singleton.mpr hinstalled⟩

/-- Looking changes nothing. -/
theorem lookAt_ensures (h : Between g original files [] items w)
    {op : PreparedCandidateFile → Op} (hop : ∀ item, (op item).isHook = false)
    (hwrite : ∀ item, (op item).write g w.tree = w.tree) (looked : List PreparedCandidateFile) :
    (lookAt op items looked).Ensures (Step g allowed) (Safely g original files fun _ w' ↦
      w' = w ∧ ∀ item ∈ looked, ∃ a, (op item).read g w.tree = .ok a) w := by
  induction looked with
  | nil => exact ⟨rfl, fun _ hi ↦ absurd hi List.not_mem_nil⟩
  | cons item looked ih =>
    refine ensures_attempt_bind (hop item) h fun a hread ↦ ?_
    rw [hwrite item]
    refine ih.mono fun result w' hresult ↦ ?_
    cases result with
    | error stop => exact hresult
    | ok _ => exact ⟨hresult.1, List.forall_mem_cons.mpr ⟨⟨a, hread⟩, hresult.2⟩⟩

/-! ### Replacement -/

/-- A candidate has taken the place of its original. -/
structure Replaced (g : Setting) (item : PreparedCandidateFile) (w w' : World) : Prop where
  edits : w'.edits = w.edits
  destination : w'.tree.lookup item.destination = g.proposed.lookup item.destination
  staged : ∀ p, item.staged = some p → w'.tree.lookup p = none
  elsewhere : ∀ p, p ≠ item.destination → item.staged ≠ some p →
    w'.tree.lookup p = w.tree.lookup p

theorem Between.replaces (hfresh : Fresh g original files)
    {before after : List PreparedCandidateFile}
    (h : Between g original files [] (before ++ item :: after) w) (hcomplete : Complete g item)
    (hinstalled : item.candidateInstalled = false)
    (hexpected : w.tree.lookup item.destination = g.expected.lookup item.destination)
    (hw : Replaced g item w w') :
    Between g original files []
      (before ++ { item with candidateInstalled := true } :: after) w' := by
  have hitem := h.sound item (List.mem_append_right _ List.mem_cons_self)
  have hothers : w'.others original = w.others original := by
    funext q
    rw [World.others, World.others, hw.edits]
  have hnodup := h.nodup
  rw [List.map_append, List.map_cons, List.nodup_middle, List.nodup_cons,
    ← List.map_append] at hnodup
  -- every other file is still there, and has other paths
  have hrest : ∀ i ∈ before ++ after, i ∈ before ++ item :: after ∧ i.relative ≠ item.relative :=
    fun i hi ↦ ⟨List.mem_append.mpr ((List.mem_append.mp hi).imp_right (List.mem_cons_of_mem _)),
      fun hsame ↦ hnodup.1 (hsame ▸ List.mem_map_of_mem hi)⟩
  have hsplit : ∀ {head : PreparedCandidateFile} {P : PreparedCandidateFile → Prop},
      (∀ i ∈ before ++ head :: after, P i) ↔ P head ∧ ∀ i ∈ before ++ after, P i := by
    intro head P
    simp only [List.mem_append, List.mem_cons]
    exact ⟨fun hall ↦ ⟨hall _ (by simp), fun i hi ↦ hall i (hi.imp_right Or.inr)⟩,
      fun hall i hi ↦ by
        rcases hi with hi | rfl | hi
        · exact hall.2 i (Or.inl hi)
        · exact hall.1
        · exact hall.2 i (Or.inr hi)⟩
  have hdestination : ∀ i ∈ before ++ after, i.destination ≠ item.destination := fun i hi hsame ↦
    (hrest i hi).2 (hfresh.relative_of_destination (h.sound i (hrest i hi).1) hitem hsame)
  have hstaged : ∀ i ∈ before ++ after, ∀ p, i.staged = some p → item.staged ≠ some p :=
    fun i hi p hp hp' ↦
      (hrest i hi).2 (hfresh.relative_of_stage (h.sound i (hrest i hi).1) hitem hp hp')
  have hapart : ∀ i ∈ before ++ item :: after, ∀ j ∈ before ++ item :: after, ∀ p,
      i.staged = some p → j.destination ≠ p := fun i hi j hj p hp hsame ↦
    hfresh.destination_notMem (h.sound j hj) (hsame ▸ (h.sound i hi).stage_mem hp)
  have hself : item ∈ before ++ item :: after := List.mem_append_right _ List.mem_cons_self
  have hbefore : w.others original item.destination = g.expected.lookup item.destination := by
    rw [← hexpected]
    refine (h.elsewhere _ List.not_mem_nil (hsplit.mpr ⟨fun hi ↦ ?_, fun i hi _ ↦ ?_⟩)
      fun i hi _ hp ↦ hapart i hi item hself _ hp rfl).symm
    · exact absurd (hinstalled.symm.trans hi) (by decide)
    · exact hdestination i hi
  refine ⟨hsplit.mpr ⟨?_, fun i hi ↦ h.sound i (hrest i hi).1⟩,
    hsplit.mpr ⟨fun _ ↦ ?_, fun i hi ↦ h.complete i (hrest i hi).1⟩, ?_,
    fun _ _ ↦ List.not_mem_nil, fun q hq ↦ absurd hq List.not_mem_nil, ?_, ?_, ?_, ?_, ?_⟩
  · exact ⟨hitem.mem, hitem.destination, hitem.output, hitem.staged, hitem.expectedExists,
      hitem.regular, hitem.above⟩
  · exact ⟨hcomplete.candidate, hcomplete.regular, hcomplete.staged, hcomplete.created⟩
  · simpa only [List.map_append, List.map_cons] using h.nodup
  · intro p hp hi hs
    obtain ⟨hne, hi⟩ := hsplit.mp hi
    obtain ⟨-, hs⟩ := hsplit.mp hs
    rw [hothers]
    by_cases hstage : item.staged = some p
    · rw [hw.staged p hstage, hfresh.others_temporary h (hitem.stage_mem hstage)]
    · rw [hw.elsewhere p (hne rfl).symm hstage]
      refine h.elsewhere p hp (hsplit.mpr ⟨fun hi ↦ ?_, hi⟩) (hsplit.mpr ⟨fun _ ↦ hstage, hs⟩)
      exact absurd (hinstalled.symm.trans hi) (by decide)
  · refine hsplit.mpr ⟨fun _ ↦ Or.inl ?_, fun i hi hset ↦ ?_⟩
    · rw [hothers]
      exact ⟨hbefore, hw.destination⟩
    · rw [hothers, hw.edits, hw.elsewhere _ (hdestination i hi)
        fun hp ↦ hapart item hself i (hrest i hi).1 _ hp rfl]
      exact h.installed i (hrest i hi).1 hset
  · refine hsplit.mpr ⟨fun hi ↦ Bool.noConfusion hi.2, fun i hi hset p hp ↦ ?_⟩
    rw [hw.elsewhere p (hapart i (hrest i hi).1 item hself p hp).symm (hstaged i hi p hp)]
    exact h.stage i (hrest i hi).1 hset p hp
  · intro p hp
    rw [hw.edits]
    exact h.temporary p hp
  · intro q
    rw [hothers]
    by_cases hq : q = item.destination
    · rw [hq, hw.destination, hbefore, hcomplete.regular.not_directory,
        hitem.regular.not_directory]
    · by_cases hstage : item.staged = some q
      · rw [hw.staged q hstage, hfresh.others_temporary h (hitem.stage_mem hstage)]
      · rw [hw.elsewhere q hq hstage]
        exact h.directories q

theorem replaced_rename {p : Path} {node : Node} (hp : item.staged = some p)
    (hne : p ≠ item.destination) (hnode : w.tree.lookup p = some node)
    (hproposed : g.proposed.lookup item.destination = some node) :
    Replaced g item w { w with tree := Op.write g w.tree (.rename p item.destination) } := by
  have hwrite : Op.write g w.tree (.rename p item.destination) =
      (w.tree.erase p).insert item.destination node := by simp only [Op.write, hnode]
  refine ⟨rfl, ?_, fun q hq ↦ ?_, fun q hq hstaged ↦ ?_⟩ <;> simp only [hwrite]
  · rw [AList.lookup_insert, hproposed]
  · obtain rfl : p = q := Option.some.inj (hp.symm.trans hq)
    rw [AList.lookup_insert_ne hne, AList.lookup_erase]
  · rw [AList.lookup_insert_ne hq, AList.lookup_erase_ne]
    rintro rfl
    exact hstaged hp

theorem replaced_unlink (hp : item.staged = none)
    (hproposed : g.proposed.lookup item.destination = none) :
    Replaced g item w { w with tree := Op.write g w.tree (.unlink item.destination) } := by
  refine ⟨rfl, ?_, fun q hq ↦ ?_, fun q hq _ ↦ AList.lookup_erase_ne hq⟩
  · exact (AList.lookup_erase _ _).trans hproposed.symm
  · exact absurd (hp.symm.trans hq) (by simp)

theorem commit_ensures (hfresh : Fresh g original files)
    (hallowed : ∀ tree tree', allowed tree tree' → LeavesTemporaries g files tree tree')
    {committed pending : List PreparedCandidateFile}
    (h : Between g original files [] (committed ++ pending) w)
    (hcomplete : ∀ item ∈ committed ++ pending, Complete g item)
    (hcommitted : ∀ item ∈ committed, item.candidateInstalled = true)
    (hpending : ∀ item ∈ pending, item.candidateInstalled = false) :
    (commit committed pending).Ensures (Step g allowed) (Safely g original files fun items w' ↦
      Between g original files [] items w' ∧ (∀ item ∈ items, Complete g item) ∧
        (∀ item ∈ items, item.candidateInstalled = true) ∧
          items.map (·.relative) = (committed ++ pending).map (·.relative)) w := by
  induction pending generalizing committed w with
  | nil =>
    rw [List.append_nil] at h hcomplete ⊢
    exact ⟨h, hcomplete, hcommitted, rfl⟩
  | cons item pending ih =>
    have hself : item ∈ committed ++ item :: pending :=
      List.mem_append_right _ List.mem_cons_self
    have hinstalled := hpending item List.mem_cons_self
    obtain hitem := hcomplete item hself
    refine Ensures.attempt_bind (fun e w' hstep ↦ ?_) fun _ w' hstep ↦ ?_
    · obtain ⟨tree, htree, ⟨a, ha, -⟩ | ⟨message, -, rfl⟩⟩ := step_hook hstep
      · cases ha
      · exact ⟨(h.edited (hallowed _ _ htree)).again true, rfl⟩
    obtain ⟨tree, htree, ⟨a, -, rfl⟩ | ⟨message, ha, -⟩⟩ := step_hook hstep
    · have hedited := h.edited (hallowed _ _ htree)
      refine ensures_attempt_bind rfl hedited fun _ hread ↦ ?_
      simp only [Op.read, bind_eq_ok] at hread
      obtain ⟨destination, hsafe, expected, hexpected, hstate⟩ := hread
      obtain ⟨-, rfl, -⟩ := safeRepositoryPath_eq_ok.mp hsafe
      obtain ⟨-, rfl, -⟩ := safeRepositoryPath_eq_ok.mp hexpected
      rw [← (h.sound item hself).destination] at hstate
      obtain ⟨hsame, -⟩ := assertExpectedFileState_eq_ok hstate
      -- the next file starts from the state in which this one is replaced
      have hnext : ∀ w', Replaced g item (w.edited tree) w' →
          (commit (committed ++ [{ item with candidateInstalled := true }]) pending).Ensures
            (Step g allowed) (Safely g original files fun items w' ↦
              Between g original files [] items w' ∧ (∀ item ∈ items, Complete g item) ∧
                (∀ item ∈ items, item.candidateInstalled = true) ∧
                  items.map (·.relative) =
                    (committed ++ item :: pending).map (·.relative)) w' := by
        intro w' hreplaced
        have hbetween := hedited.replaces hfresh hitem hinstalled hsame hreplaced
        rw [List.append_cons] at hbetween
        refine (ih hbetween ?_ ?_ fun i hi ↦ hpending i (List.mem_cons_of_mem _ hi)).mono ?_
        · intro i hi
          rw [← List.append_cons] at hi
          rcases List.mem_append.mp hi with hi | hi
          · exact hcomplete i (List.mem_append_left _ hi)
          · rcases List.mem_cons.mp hi with rfl | hi
            · exact ⟨hitem.candidate, hitem.regular, hitem.staged, hitem.created⟩
            · exact hcomplete i (List.mem_append_right _ (List.mem_cons_of_mem _ hi))
        · exact List.forall_mem_append.mpr ⟨hcommitted, List.forall_mem_singleton.mpr rfl⟩
        · intro result w'' hresult
          cases result with
          | error stop => exact hresult
          | ok items => simpa using hresult
      dsimp only
      cases hstaged : item.staged with
      | none =>
        rw [hstaged] at hnext
        have hproposed : g.proposed.lookup item.destination = none := by
          have hif := hitem.staged
          rw [hstaged] at hif
          split_ifs at hif with hsome
          exact Option.not_isSome_iff_eq_none.mp hsome
        exact ensures_attempt_bind rfl hedited fun _ _ ↦ hnext _ (replaced_unlink hstaged hproposed)
      | some p =>
        rw [hstaged] at hnext
        have hcreated := hitem.created (Option.isSome_of_eq_some hstaged)
        obtain ⟨mode, bytes, hfile, hproposed⟩ := hedited.stage item hself
          ⟨hcreated, hinstalled⟩ p hstaged
        have hcandidate : item.candidate ≠ none := by
          have hif := hitem.staged
          rw [hstaged] at hif
          split_ifs at hif with hsome
          obtain hnone | ⟨mode, bytes, hsome⟩ := hitem.regular
          · rw [hnone] at hsome
            cases hsome
          · rw [hitem.candidate, hsome]
            exact Option.some_ne_none _
        have hne : p ≠ item.destination := fun hsame ↦
          hfresh.destination_notMem (h.sound item hself)
            (hsame ▸ (h.sound item hself).stage_mem hstaged)
        exact ensures_attempt_bind rfl hedited fun _ _ ↦
          hnext _ (replaced_rename hstaged hne hfile (hproposed hcandidate))
    · cases ha

/-- What a transaction that returns has done. -/
structure Applied (g : Setting) (original : Tree) (files : List JsString) (w : World) : Prop where
  elsewhere : ∀ p ∉ files.map splitSlash, w.tree.lookup p = w.others original p
  candidate : ∀ file ∈ files,
    SameCandidate g (w.tree.lookup (splitSlash file)) (g.proposed.lookup (splitSlash file))
  untouched : ∀ file ∈ files, w.edits (splitSlash file) = none →
    w.tree.lookup (splitSlash file) = g.proposed.lookup (splitSlash file)
  digest : ∃ digest, repositoryTreeDigest g w.tree [] = .ok digest ∧
    repositoryTreeDigest g g.expected (files.map fun file ↦
      (file, candidateOf g (g.proposed.lookup (splitSlash file)))) = .ok digest

theorem transaction_ensures (hfresh : Fresh g original (sortedFiles files))
    (hallowed : ∀ tree tree', allowed tree tree' →
      LeavesTemporaries g (sortedFiles files) tree tree')
    (horiginal : w.tree = original) (hnone : ∀ p, w.edits p = none) :
    (transaction g files).Ensures (Step g allowed) (Safely g original (sortedFiles files)
      fun _ w' ↦ Applied g original (sortedFiles files) w') w := by
  have hothers : ∀ p, w.others original p = w.tree.lookup p := by
    intro p
    rw [World.others, hnone p, horiginal]
    rfl
  have hstart : Between g original (sortedFiles files) [] [] w := {
    sound := fun _ hi ↦ absurd hi List.not_mem_nil
    complete := fun _ hi ↦ absurd hi List.not_mem_nil
    nodup := List.nodup_nil
    apart := fun _ hi ↦ absurd hi List.not_mem_nil
    excused := fun _ hp ↦ absurd hp List.not_mem_nil
    elsewhere := fun p _ _ _ ↦ (hothers p).symm
    installed := fun _ hi ↦ absurd hi List.not_mem_nil
    stage := fun _ hi ↦ absurd hi List.not_mem_nil
    temporary := fun p _ ↦ hnone p
    directories := fun q ↦ congrArg (·.any Node.isDirectory) (hothers q).symm }
  have hnodup : (sortedFiles files).Nodup :=
    ((List.perm_insertionSort _ _).nodup_iff).mpr (List.nodup_dedup files)
  refine ensures_attempt_bind rfl hstart fun _ _ ↦ ?_
  have hready : Ready g original (sortedFiles files) [] [] w :=
    ⟨hstart, hnone, fun _ hi ↦ absurd hi List.not_mem_nil, rfl,
      fun _ hi ↦ absurd hi List.not_mem_nil⟩
  refine Ensures.bind_of (prepare_ensures hfresh (List.nil_append _).symm hnodup hready)
    (fun _ _ hstop ↦ hstop) fun prepared w₁ hprepared ↦ ?_
  refine ensures_attempt_bind rfl hprepared.between fun digest hdigest ↦ ?_
  refine Ensures.bind_of (lookAt_ensures hprepared.between (fun _ ↦ rfl) (fun _ ↦ rfl) prepared)
    (fun _ _ hstop ↦ hstop) ?_
  rintro _ w₂ ⟨rfl, -⟩
  refine Ensures.bind_of (commit_ensures hfresh hallowed hprepared.between hprepared.complete
    (fun _ hi ↦ absurd hi List.not_mem_nil) hprepared.installed) (fun _ _ hstop ↦ hstop) ?_
  rintro committed w₃ ⟨hbetween, hcomplete, hinstalled, hrelative⟩
  rw [List.nil_append, hprepared.relative] at hrelative
  refine Ensures.bind_of (lookAt_ensures hbetween (fun _ ↦ rfl) (fun _ ↦ rfl) committed)
    (fun _ _ hstop ↦ hstop) ?_
  rintro _ w₄ ⟨rfl, hlooked⟩
  refine Ensures.attempt (fun e w' hstep ↦ ?_) fun _ w' hstep ↦ ?_
  · obtain ⟨rfl, -⟩ := step_error rfl hstep
    exact ⟨hbetween.again true, rfl⟩
  obtain ⟨hread, rfl⟩ := step_ok rfl hstep
  have hcommitted : ∀ file ∈ sortedFiles files,
      ∃ item ∈ committed, item.relative = file ∧ item.destination = splitSlash file := by
    intro file hfile
    rw [← hrelative] at hfile
    obtain ⟨item, hitem, rfl⟩ := List.mem_map.mp hfile
    exact ⟨item, hitem, rfl, (hbetween.sound item hitem).destination⟩
  refine ⟨fun p hp ↦ ?_, fun file hfile ↦ ?_, fun file hfile hedits ↦ ?_, digest, ?_, ?_⟩
  · refine hbetween.elsewhere p List.not_mem_nil (fun i hi _ hsame ↦ hp ?_) fun i hi hstage ↦ ?_
    · rw [← hsame, (hbetween.sound i hi).destination]
      exact List.mem_map_of_mem (hbetween.sound i hi).mem
    · exact absurd (hstage.2.symm.trans (hinstalled i hi)) (by decide)
  · obtain ⟨item, hitem, rfl, hdestination⟩ := hcommitted file hfile
    obtain ⟨_, hlook⟩ := hlooked item hitem
    simp only [Op.read, bind_eq_ok] at hlook
    obtain ⟨p, hsafe, hstate⟩ := hlook
    obtain ⟨-, rfl, -⟩ := safeRepositoryPath_eq_ok.mp hsafe
    rw [(hcomplete item hitem).candidate, ← hdestination] at hstate
    rw [← hdestination]
    exact (assertCandidateFileState_eq_ok (hcomplete item hitem).regular).mp hstate
  · obtain ⟨item, hitem, rfl, hdestination⟩ := hcommitted file hfile
    rw [← hdestination] at hedits ⊢
    obtain ⟨-, hsame⟩ | ⟨x, hx, -⟩ := hbetween.installed item hitem (hinstalled item hitem)
    · exact hsame
    · exact absurd (hedits.symm.trans hx) (Option.some_ne_none x).symm
  · simp only [Op.read, bind_eq_ok, reject_eq_ok, not_not] at hread
    obtain ⟨live, hlive, rfl⟩ := hread
    exact hlive
  · have hoverlays : (prepared.map fun item ↦ (item.relative, item.candidate)) =
        (sortedFiles files).map fun file ↦
          (file, candidateOf g (g.proposed.lookup (splitSlash file))) := by
      rw [← hprepared.relative, List.map_map]
      refine List.map_congr_left fun item hitem ↦ ?_
      rw [Function.comp_apply, (hprepared.complete item hitem).candidate,
        (hprepared.between.sound item hitem).destination]
    rw [← hoverlays]
    exact hdigest

/-! ### Rollback -/

section Rollback

variable {β : Type} {post : Except String β → World → Prop}

/-- After the first failure nothing fails without a reason. -/
theorem works_bind (hfailed : w.failed = true) {op : Op} (hop : op.isHook = false) {a : op.Val}
    (hread : op.read g w.tree = .ok a) {f : op.Val → Program String β}
    (hnext : (f a).Ensures (Step g allowed) post { w with tree := op.write g w.tree }) :
    (attemptText op >>= f).Ensures (Step g allowed) post w := by
  refine Ensures.attempt_bind (fun e w' hstep ↦ ?_) fun a' w' hstep ↦ ?_
  · have herror := (step_error hop hstep).2 hfailed
    rw [hread] at herror
    cases herror
  · obtain ⟨hread', rfl⟩ := step_ok hop hstep
    obtain rfl : a = a' := Except.ok.inj (hread.symm.trans hread')
    exact hnext

theorem works (hfailed : w.failed = true) {op : Op} (hop : op.isHook = false) {a : op.Val}
    (hread : op.read g w.tree = .ok a) {post : Except String op.Val → World → Prop}
    (hnext : post (.ok a) { w with tree := op.write g w.tree }) :
    (attemptText op).Ensures (Step g allowed) post w := by
  refine Ensures.attempt (fun e w' hstep ↦ ?_) fun a' w' hstep ↦ ?_
  · have herror := (step_error hop hstep).2 hfailed
    rw [hread] at herror
    cases herror
  · obtain ⟨hread', rfl⟩ := step_ok hop hstep
    obtain rfl : a = a' := Except.ok.inj (hread.symm.trans hread')
    exact hnext

theorem refuses_bind (hfailed : w.failed = true) {op : Op} (hop : op.isHook = false) {e : String}
    (hread : op.read g w.tree = .error e) (hpost : post (.error e) w)
    {f : op.Val → Program String β} :
    (attemptText op >>= f).Ensures (Step g allowed) post w := by
  refine Ensures.attempt_bind (fun e' w' hstep ↦ ?_) fun a w' hstep ↦ ?_
  · obtain ⟨rfl, hread'⟩ := step_error hop hstep
    obtain rfl : e = e' := Except.error.inj (hread.symm.trans (hread' hfailed))
    obtain ⟨tree, failed, edits⟩ := w
    obtain rfl : failed = true := hfailed
    exact hpost
  · have hok := (step_ok hop hstep).1
    rw [hread] at hok
    cases hok

/-- The one change is at one path. -/
structure Writes (p : Path) (x : Option Node) (w w' : World) : Prop where
  edits : w'.edits = w.edits
  failed : w'.failed = w.failed
  here : w'.tree.lookup p = x
  elsewhere : ∀ q, q ≠ p → w'.tree.lookup q = w.tree.lookup q

theorem removeIfExists_ensures (hfailed : w.failed = true) {p : Path}
    (hregular : Regular (w.tree.lookup p)) :
    (removeIfExists p).Ensures (Step g allowed)
      (fun result w' ↦ result = .ok () ∧ Writes p none w w') w := by
  refine works_bind hfailed rfl rfl ?_
  obtain hnone | ⟨mode, bytes, hfile⟩ := hregular
  · have hfound : ¬ (w.tree.lookup p).isSome = true := by rw [hnone]; decide
    rw [if_neg hfound]
    exact ⟨rfl, rfl, rfl, hnone, fun _ _ ↦ rfl⟩
  · have hfound : (w.tree.lookup p).isSome = true := by rw [hfile]; rfl
    rw [if_pos hfound]
    refine works hfailed rfl (a := ()) ?_ ⟨rfl, rfl, rfl, AList.lookup_erase _ _,
      fun _ hq ↦ AList.lookup_erase_ne hq⟩
    simp only [Op.read, hfile]
    rfl

theorem restoreExpectedFile_ensures (hfailed : w.failed = true)
    (hitem : Sound g original files item) (hregular : Regular (w.tree.lookup item.destination))
    (habsent : w.tree.lookup (rollbackPath g item.destination) = none)
    (hne : rollbackPath g item.destination ≠ item.destination) :
    (restoreExpectedFile g item).Ensures (Step g allowed) (fun result w' ↦ result = .ok () ∧
      Writes item.destination (g.expected.lookup item.destination) w w') w := by
  unfold restoreExpectedFile
  obtain hnone | ⟨mode, bytes, hfile⟩ := hitem.regular
  · have hexists : item.expectedExists = false := by rw [hitem.expectedExists, hnone]; rfl
    rw [if_pos hexists, hnone]
    exact removeIfExists_ensures hfailed hregular
  · have hexists : ¬ item.expectedExists = false := by
      rw [hitem.expectedExists, hfile]
      exact fun h ↦ Bool.noConfusion h
    rw [if_neg hexists]
    have hread : Op.read g w.tree (.expectedFile item.destination) = .ok (mode, bytes) := by
      simp only [Op.read, hfile]
      rfl
    refine works_bind hfailed rfl hread ?_
    have hcopy : Op.read g w.tree (.copy (rollbackPath g item.destination) mode bytes) = .ok () :=
      reject_eq_ok.mpr (by rw [habsent]; decide)
    refine works_bind hfailed rfl hcopy ?_
    set copied : World := { w with
      tree := Op.write g w.tree (.copy (rollbackPath g item.destination) mode bytes) }
    have hcopied : copied.failed = true := hfailed
    have hthere : copied.tree.lookup (rollbackPath g item.destination) =
        some (.file (g.createdMode mode) bytes) := AList.lookup_insert _
    have hchmod : Op.read g copied.tree (.chmod (rollbackPath g item.destination) mode) =
        .ok () := by
      simp only [Op.read, hthere]
      rfl
    refine Ensures.outcome_bind (works_bind hcopied rfl hchmod ?_)
    rw [lookup_chmod hthere]
    set changed : World := { copied with
      tree := copied.tree.insert (rollbackPath g item.destination) (.file mode bytes) }
    have hchanged : changed.failed = true := hfailed
    have hnode : changed.tree.lookup (rollbackPath g item.destination) =
        some (.file mode bytes) := AList.lookup_insert _
    have hother : ∀ q, q ≠ rollbackPath g item.destination →
        changed.tree.lookup q = w.tree.lookup q := fun q hq ↦
      (AList.lookup_insert_ne hq).trans (AList.lookup_insert_ne hq)
    have hrename : Op.read g changed.tree
        (.rename (rollbackPath g item.destination) item.destination) = .ok () := by
      simp only [Op.read, hnode, hother _ hne.symm, bind_eq_ok, orThrow_eq_ok, reject_eq_ok,
        hregular.not_directory]
      exact ⟨_, rfl, Bool.false_ne_true⟩
    refine works hchanged rfl hrename ?_
    have hwrite : Op.write g changed.tree
        (.rename (rollbackPath g item.destination) item.destination) =
          (changed.tree.erase (rollbackPath g item.destination)).insert item.destination
            (.file mode bytes) := by simp only [Op.write, hnode]
    rw [hwrite]
    set moved : World := { changed with
      tree := (changed.tree.erase (rollbackPath g item.destination)).insert item.destination
        (.file mode bytes) }
    have hmoved : moved.failed = true := hfailed
    refine Ensures.bind_of (removeIfExists_ensures hmoved (Or.inl ?_)) ?_ ?_
    · exact (AList.lookup_insert_ne hne).trans (AList.lookup_erase _ _)
    · rintro e w' ⟨he, -⟩
      cases he
    · rintro _ w' ⟨-, hw⟩
      refine ⟨rfl, hw.edits, hw.failed, ?_, fun q hq ↦ ?_⟩
      · rw [hw.elsewhere _ hne.symm, hfile]
        exact AList.lookup_insert _
      · by_cases hq' : q = rollbackPath g item.destination
        · rw [hq', hw.here, habsent]
        · rw [hw.elsewhere q hq']
          exact ((AList.lookup_insert_ne hq).trans (AList.lookup_erase_ne hq')).trans (hother q hq')

end Rollback

/-- One file is done with: it holds what it would hold without the transaction, or was left alone
for a reason. -/
theorem Between.settles (hfresh : Fresh g original files)
    (h : Between g original files left (item :: items) w) {left' : List Path}
    (hleft : left' = left ∧ w'.tree.lookup item.destination = w'.others original item.destination ∨
      left' = item.destination :: left ∧ Excused g files w' item.destination)
    (hedits : w'.edits = w.edits)
    (hregular : Regular (w'.tree.lookup item.destination) ∧
      Regular (w.tree.lookup item.destination) ∨
        w'.tree.lookup item.destination = w.tree.lookup item.destination)
    (hstaged : item.HasStage → ∀ p, item.staged = some p → w'.tree.lookup p = none)
    (hsame : ∀ q, q ≠ item.destination → (item.HasStage → item.staged ≠ some q) →
      w'.tree.lookup q = w.tree.lookup q) :
    Between g original files left' items w' := by
  have hitem := h.sound item List.mem_cons_self
  obtain ⟨hnew, hnodup⟩ := List.nodup_cons.mp (List.map_cons ▸ h.nodup)
  have hothers : w'.others original = w.others original := by
    funext q
    rw [World.others, World.others, hedits]
  have hdestination : ∀ i ∈ items, i.destination ≠ item.destination := fun i hi hsame' ↦
    hnew (hfresh.relative_of_destination (h.sound i (.tail _ hi)) hitem hsame' ▸
      List.mem_map_of_mem hi)
  have hother : ∀ i ∈ items, ∀ p, i.staged = some p → item.staged ≠ some p := fun i hi p hp hp' ↦
    hnew (hfresh.relative_of_stage (h.sound i (.tail _ hi)) hitem hp hp' ▸ List.mem_map_of_mem hi)
  have hpath : ∀ i ∈ item :: items, ∀ j ∈ item :: items, i.staged ≠ some j.destination :=
    fun i hi j hj hp ↦ hfresh.destination_notMem (h.sound j hj) ((h.sound i hi).stage_mem hp)
  have hmem : ∀ p, p ∈ left' → p ∈ left ∨ p = item.destination ∧
      Excused g files w' item.destination := by
    intro p hp
    obtain ⟨rfl, -⟩ | ⟨rfl, hexcused⟩ := hleft
    · exact Or.inl hp
    · exact (List.mem_cons.mp hp).symm.imp_right fun hp ↦ ⟨hp, hexcused⟩
  have hkept : ∀ p ∈ left, p ∈ left' := by
    obtain ⟨rfl, -⟩ | ⟨rfl, -⟩ := hleft
    · exact fun p hp ↦ hp
    · exact fun p hp ↦ List.mem_cons_of_mem _ hp
  refine ⟨fun i hi ↦ h.sound i (.tail _ hi), fun i hi ↦ h.complete i (.tail _ hi), hnodup,
    fun i hi hp ↦ ?_, fun p hp ↦ ?_, fun p hp hi hs ↦ ?_, fun i hi hset ↦ ?_,
    fun i hi hset p hp ↦ ?_, fun p hp ↦ ?_, fun q ↦ ?_⟩
  · rcases hmem _ hp with hp | ⟨hp, -⟩
    · exact h.apart i (.tail _ hi) hp
    · exact hdestination i hi hp
  · rcases hmem p hp with hp | ⟨rfl, hexcused⟩
    · obtain ⟨file, hfile, rfl, hwhy⟩ := h.excused p hp
      have hne : splitSlash file ≠ item.destination := fun heq ↦
        h.apart item List.mem_cons_self (heq ▸ hp)
      have hstage : item.staged ≠ some (splitSlash file) := fun hp ↦
        (List.nodup_append.mp hfresh.nodup).2.2 _ (List.mem_map_of_mem hfile) _
          (hitem.stage_mem hp) rfl
      refine ⟨file, hfile, rfl, ?_⟩
      rw [hedits, hsame _ hne fun _ ↦ hstage]
      exact hwhy
    · exact hexcused
  · rw [hothers]
    by_cases hp' : p = item.destination
    · subst hp'
      obtain ⟨rfl, hhere⟩ | ⟨rfl, -⟩ := hleft
      · rw [hhere, hothers]
      · exact absurd List.mem_cons_self hp
    · by_cases hstage : item.HasStage ∧ item.staged = some p
      · rw [hstaged hstage.1 p hstage.2, hfresh.others_temporary h (hitem.stage_mem hstage.2)]
      · have hstage' : item.HasStage → item.staged ≠ some p := fun h' hp ↦ hstage ⟨h', hp⟩
        rw [hsame p hp' hstage']
        exact h.elsewhere p (fun hmem ↦ hp (hkept p hmem))
          (List.forall_mem_cons.mpr ⟨fun _ ↦ Ne.symm hp', hi⟩)
          (List.forall_mem_cons.mpr ⟨hstage', hs⟩)
  · rw [hothers, hedits, hsame _ (hdestination i hi) fun _ ↦
      hpath item List.mem_cons_self i (.tail _ hi)]
    exact h.installed i (.tail _ hi) hset
  · have hp' : p ≠ item.destination := fun heq ↦
      hpath i (.tail _ hi) item List.mem_cons_self (heq ▸ hp)
    rw [hsame p hp' fun _ ↦ hother i hi p hp]
    exact h.stage i (.tail _ hi) hset p hp
  · rw [hedits]
    exact h.temporary p hp
  · rw [hothers, ← h.directories q]
    by_cases hq : q = item.destination
    · subst hq
      obtain ⟨hnow, hbefore⟩ | hsame' := hregular
      · rw [hnow.not_directory, hbefore.not_directory]
      · rw [hsame']
    · by_cases hstage : item.HasStage ∧ item.staged = some q
      · obtain ⟨mode, bytes, hfile, -⟩ := h.stage item List.mem_cons_self hstage.1 q hstage.2
        rw [hstaged hstage.1 q hstage.2, hfile]
        rfl
      · rw [hsame q hq fun h' hp ↦ hstage ⟨h', hp⟩]

/-- Where nothing is replaced, the path of a file holds what it would hold without the
transaction. -/
theorem Between.destination_of_not_installed (hfresh : Fresh g original files)
    (h : Between g original files left (item :: items) w)
    (hinstalled : item.candidateInstalled = false) :
    w.tree.lookup item.destination = w.others original item.destination := by
  have hitem := h.sound item List.mem_cons_self
  obtain ⟨hnew, -⟩ := List.nodup_cons.mp (List.map_cons ▸ h.nodup)
  refine h.elsewhere _ (h.apart item List.mem_cons_self) (List.forall_mem_cons.mpr
    ⟨fun hset ↦ absurd (hinstalled.symm.trans hset) (by decide), fun i hi _ hsame ↦ hnew ?_⟩)
    fun i hi _ hp ↦ hfresh.destination_notMem hitem ((h.sound i hi).stage_mem hp)
  exact hfresh.relative_of_destination (h.sound i (.tail _ hi)) hitem hsame ▸
    List.mem_map_of_mem hi

/-- A temporary name that is no stage of a file still to be looked at is free. -/
theorem Between.temporary_free (hfresh : Fresh g original files)
    (h : Between g original files left items w) {p : Path} (hp : p ∈ temporaries g files)
    (hfree : ∀ i ∈ items, i.staged ≠ some p) : w.tree.lookup p = none := by
  rw [← hfresh.others_temporary h hp]
  refine h.elsewhere p (fun hmem ↦ ?_) (fun i hi _ hsame ↦ ?_) fun i hi _ ↦ hfree i hi
  · obtain ⟨file, hfile, rfl, -⟩ := h.excused p hmem
    exact (List.nodup_append.mp hfresh.nodup).2.2 _ (List.mem_map_of_mem hfile) _ hp rfl
  · exact hfresh.destination_notMem (h.sound i hi) (hsame ▸ hp)

/-- Why the look at an installed candidate fails that nobody has touched. -/
theorem Between.excused_of_refused
    (h : Between g original files left (item :: items) w)
    (hinstalled : item.candidateInstalled = true)
    (hsame : w.tree.lookup item.destination = g.proposed.lookup item.destination) {e : String}
    (hread : Op.read g w.tree (.candidateState item.relative item.candidate) = .error e) :
    Excused g files w item.destination := by
  have hitem := h.sound item List.mem_cons_self
  have hcomplete := h.complete item List.mem_cons_self hinstalled
  have hparent : ¬ ∀ parent ∈ parents (splitSlash item.relative),
      (w.tree.lookup parent).any Node.isDirectory = true := by
    intro hall
    have hsafe := safeRepositoryPath_eq_ok.mpr ⟨hitem.output, rfl, hall⟩
    have hstate : assertCandidateFileState g (w.tree.lookup (splitSlash item.relative))
        item.candidate = .ok () := by
      rw [← hitem.destination, hsame, hcomplete.candidate]
      exact (assertCandidateFileState_eq_ok hcomplete.regular).mpr (.refl hcomplete.regular)
    have hok : Op.read g w.tree (.candidateState item.relative item.candidate) = .ok () := by
      simp only [Op.read, hsafe, ok_bind, hstate]
    rw [hok] at hread
    cases hread
  simp only [not_forall, exists_prop, Bool.not_eq_true, ← hitem.destination] at hparent
  obtain ⟨parent, hmem, hgone⟩ := hparent
  refine ⟨item.relative, hitem.mem, hitem.destination.symm, Or.inl ⟨parent, hmem, ?_⟩⟩
  rw [h.directories parent, World.others] at hgone
  cases hedit : w.edits parent with
  | none =>
    rw [hedit, Option.getD_none] at hgone
    exact absurd ((hitem.above parent hmem).symm.trans hgone) (by decide)
  | some x =>
    rw [hedit, Option.getD_some] at hgone
    exact ⟨x, rfl, hgone⟩

theorem not_excused (hnone : ∀ p, w.edits p = none) {p : Path} : ¬ Excused g files w p := by
  rintro ⟨_, _, _, ⟨parent, _, x, hx, -⟩ | ⟨x, hx, -⟩⟩
  · exact Option.some_ne_none x (hx.symm.trans (hnone parent))
  · exact Option.some_ne_none x (hx.symm.trans (hnone p))

theorem restore_ensures (hfresh : Fresh g original files)
    (h : Between g original files left (item :: items) w) (hfailed : w.failed = true)
    (hinstalled : item.candidateInstalled = true) :
    (restore g item).Ensures (Step g allowed) (fun result w' ↦ w'.failed = true ∧
      w'.edits = w.edits ∧ ((∀ p, w.edits p = none) → result = .ok ()) ∧
        ∃ left', Between g original files left' items w') w := by
  have hitem := h.sound item List.mem_cons_self
  have hcomplete := h.complete item List.mem_cons_self hinstalled
  have hstage : ¬ item.HasStage := fun hset ↦
    absurd (hinstalled.symm.trans hset.2) (by decide)
  have hstate := h.installed item List.mem_cons_self hinstalled
  rw [restore, if_pos hinstalled]
  cases hread : Op.read g w.tree (.candidateState item.relative item.candidate) with
  | error e =>
    refine refuses_bind hfailed rfl hread ⟨hfailed, rfl, ?_⟩
    obtain ⟨-, hsame⟩ | ⟨x, hx, hsame⟩ := hstate
    · have hexcused := h.excused_of_refused hinstalled hsame hread
      exact ⟨fun hnone ↦ absurd hexcused (not_excused hnone), _,
        h.settles hfresh (Or.inr ⟨rfl, hexcused⟩) rfl (Or.inr rfl)
          (fun hset ↦ absurd hset hstage) fun _ _ _ ↦ rfl⟩
    · have hothers : w.others original item.destination = x := by
        rw [World.others, hx, Option.getD_some]
      refine ⟨fun hnone ↦ absurd (hx.symm.trans (hnone _)) (Option.some_ne_none x), left, ?_⟩
      exact h.settles hfresh (Or.inl ⟨rfl, hsame.trans hothers.symm⟩) rfl (Or.inr rfl)
        (fun hset ↦ absurd hset hstage) fun _ _ _ ↦ rfl
  | ok _ =>
    refine works_bind hfailed rfl hread ?_
    simp only [Op.read, bind_eq_ok] at hread
    obtain ⟨p, hsafe, hcandidate⟩ := hread
    obtain ⟨-, rfl, -⟩ := safeRepositoryPath_eq_ok.mp hsafe
    rw [hcomplete.candidate, ← hitem.destination] at hcandidate
    have hmatches := (assertCandidateFileState_eq_ok hcomplete.regular).mp hcandidate
    have hfree := h.temporary_free hfresh hitem.rollback_mem fun i hi hp ↦
      hfresh.rollback_ne_stage hitem (h.sound i hi) hp rfl
    have hne : rollbackPath g item.destination ≠ item.destination := fun hsame ↦
      hfresh.destination_notMem hitem (hsame ▸ hitem.rollback_mem)
    refine (restoreExpectedFile_ensures hfailed hitem hmatches.regular hfree hne).mono ?_
    rintro result w' ⟨hresult, hw⟩
    refine ⟨hw.failed.trans hfailed, hw.edits, fun _ ↦ hresult, ?_⟩
    have hregular : Regular (w'.tree.lookup item.destination) := by
      rw [hw.here]
      exact hitem.regular
    have hsettles : ∀ left', (left' = left ∧
        w'.tree.lookup item.destination = w'.others original item.destination ∨
          left' = item.destination :: left ∧ Excused g files w' item.destination) →
            Between g original files left' items w' := fun left' hleft ↦
      h.settles hfresh hleft hw.edits (Or.inl ⟨hregular, hmatches.regular⟩)
        (fun hset ↦ absurd hset hstage) fun q hq _ ↦ hw.elsewhere q hq
    obtain ⟨hothers, -⟩ | ⟨x, hx, hsame⟩ := hstate
    · refine ⟨_, hsettles left (Or.inl ⟨rfl, ?_⟩)⟩
      rw [hw.here, ← hothers, World.others, World.others, hw.edits]
    · refine ⟨_, hsettles _ (Or.inr ⟨rfl, item.relative, hitem.mem, hitem.destination.symm,
        Or.inr ⟨x, ?_, ?_, hw.here⟩⟩)⟩
      · rw [hw.edits, hx]
      · rw [← hsame]
        exact hmatches

theorem removeIfExists_none (hfailed : w.failed = true) {p : Path}
    (hp : w.tree.lookup p = none) :
    (removeIfExists p).Ensures (Step g allowed) (fun result w' ↦ result = .ok () ∧ w' = w) w := by
  refine works_bind hfailed rfl rfl ?_
  have hfound : ¬ (w.tree.lookup p).isSome = true := by rw [hp]; decide
  rw [if_neg hfound]
  exact ⟨rfl, rfl⟩

/-- A rollback does what it can for every file, and reports nothing where nobody else wrote. -/
structure RolledBack (g : Setting) (original : Tree) (files : List JsString) (w : World)
    (result : Except ApplyError (List String)) (w' : World) : Prop where
  ends : ∃ errors, result = .ok errors ∧ ((∀ p, w.edits p = none) → errors = [])
  edits : w'.edits = w.edits
  between : ∃ left, Between g original files left [] w'

theorem rollback_ensures (hfresh : Fresh g original files) (hfailed : w.failed = true)
    (h : Between g original files left items w) :
    (rollback g items).Ensures (Step g allowed) (RolledBack g original files w) w := by
  induction items generalizing left w with
  | nil => exact ⟨⟨[], rfl, fun _ ↦ rfl⟩, rfl, left, h⟩
  | cons item items ih =>
    have hitem := h.sound item List.mem_cons_self
    obtain ⟨hnew, -⟩ := List.nodup_cons.mp (List.map_cons ▸ h.nodup)
    have hnext : ∀ {w' : World} {left' : List Path} (restored removed : Except String Unit),
        w'.failed = true → w'.edits = w.edits →
          ((∀ p, w.edits p = none) → restored = .ok () ∧ removed = .ok ()) →
            Between g original files left' items w' →
              (rollback g items >>= fun errors ↦
                pure (errorsOf restored ++ errorsOf removed ++ errors)).Ensures (Step g allowed)
                  (RolledBack g original files w) w' := by
      intro w' left' restored removed hfailed' hedits hboth h'
      refine Ensures.bind_of (ih hfailed' h') ?_ ?_
      · rintro e _ ⟨⟨_, he, -⟩, -, -⟩
        cases he
      · rintro errors _ ⟨⟨errors', herrors, hnone⟩, hedits', hleft⟩
        obtain rfl : errors = errors' := Except.ok.inj herrors
        refine ⟨⟨_, rfl, fun hall ↦ ?_⟩, hedits'.trans hedits, hleft⟩
        obtain ⟨rfl, rfl⟩ := hboth hall
        rw [hedits] at hnone
        rw [hnone hall]
        rfl
    rw [rollback]
    by_cases hinstalled : item.candidateInstalled = true
    · refine Ensures.outcome_bind ((restore_ensures hfresh h hfailed hinstalled).mono ?_)
      rintro restored w₁ ⟨hfailed₁, hedits, hrestored, left₁, h₁⟩
      refine Ensures.outcome_bind ?_
      unfold removeStage
      cases hstaged : item.staged with
      | none => exact hnext restored (Except.ok ()) hfailed₁ hedits (fun hall ↦
          ⟨hrestored hall, rfl⟩) h₁
      | some p =>
        dsimp only
        split_ifs with hcreated
        · have hfree : w₁.tree.lookup p = none :=
            h₁.temporary_free hfresh (hitem.stage_mem hstaged) fun i hi hp ↦ hnew
              (hfresh.relative_of_stage (h.sound i (.tail _ hi)) hitem hp hstaged ▸
                List.mem_map_of_mem hi)
          refine (removeIfExists_none hfailed₁ hfree).mono ?_
          rintro removed w₂ ⟨hremoved, rfl⟩
          exact hnext restored removed hfailed₁ hedits (fun hall ↦
            ⟨hrestored hall, hremoved⟩) h₁
        · exact hnext restored (Except.ok ()) hfailed₁ hedits (fun hall ↦
            ⟨hrestored hall, rfl⟩) h₁
    · rw [Bool.not_eq_true] at hinstalled
      have hrestore : restore g item = pure () := by
        rw [restore, if_neg (by rw [hinstalled]; decide)]
      rw [hrestore]
      refine Ensures.outcome_bind (Ensures.outcome_bind ?_)
      have hthere := h.destination_of_not_installed hfresh hinstalled
      unfold removeStage
      cases hstaged : item.staged with
      | none =>
        refine hnext (Except.ok ()) (Except.ok ()) hfailed rfl (fun _ ↦ ⟨rfl, rfl⟩)
          (h.settles hfresh (Or.inl ⟨rfl, hthere⟩) rfl (Or.inr rfl) (fun _ p hp ↦ ?_)
            fun _ _ _ ↦ rfl)
        exact absurd (hstaged.symm.trans hp) (by simp)
      | some p =>
        dsimp only
        split_ifs with hcreated
        · obtain ⟨mode, bytes, hfile, -⟩ := h.stage item List.mem_cons_self
            ⟨hcreated, hinstalled⟩ p hstaged
          refine (removeIfExists_ensures hfailed (Or.inr ⟨mode, bytes, hfile⟩)).mono ?_
          rintro removed w₂ ⟨hremoved, hw⟩
          have hne : item.destination ≠ p := fun hsame ↦
            hfresh.destination_notMem hitem (hsame ▸ hitem.stage_mem hstaged)
          refine hnext (Except.ok ()) removed (hw.failed.trans hfailed) hw.edits
            (fun _ ↦ ⟨rfl, hremoved⟩) (h.settles hfresh (Or.inl ⟨rfl, ?_⟩) hw.edits
              (Or.inr (hw.elsewhere _ hne)) (fun _ q hq ↦ ?_) fun q _ hq ↦ hw.elsewhere q ?_)
          · rw [hw.elsewhere _ hne, hthere, World.others, World.others, hw.edits]
          · rw [← Option.some.inj (hstaged.symm.trans hq), hw.here]
          · rintro rfl
            exact hq ⟨hcreated, hinstalled⟩ hstaged
        · refine hnext (Except.ok ()) (Except.ok ()) hfailed rfl (fun _ ↦ ⟨rfl, rfl⟩)
            (h.settles hfresh (Or.inl ⟨rfl, hthere⟩) rfl (Or.inr rfl) (fun hset ↦ ?_)
              fun _ _ _ ↦ rfl)
          exact absurd hset.1 hcreated

/-! ### Whole executions -/

/-- The live repository as the transaction finds it. -/
def World.initial (original : Tree) : World := ⟨original, false, fun _ ↦ none⟩

/-- What is left after an execution. -/
def Left (g : Setting) (original : Tree) (files : List JsString) :
    Except ApplyError Unit → World → Prop
  | .ok _, w => Applied g original (sortedFiles files) w
  | .error e, w => ((∀ p, w.edits p = none) → e.rollbackErrors = []) ∧
      ∀ p, w.tree.lookup p = w.others original p ∨ Excused g (sortedFiles files) w p

theorem applyCandidateFiles_ensures (hfresh : Fresh g original (sortedFiles files))
    (hallowed : ∀ tree tree', allowed tree tree' →
      LeavesTemporaries g (sortedFiles files) tree tree') :
    (applyCandidateFiles g files).Ensures (Step g allowed) (Left g original files)
      (World.initial original) := by
  refine Ensures.outcome_bind ((transaction_ensures hfresh hallowed rfl fun _ ↦ rfl).mono ?_)
  intro applied w happlied
  cases applied with
  | ok _ => exact happlied
  | error stop =>
    obtain ⟨hbetween, hfailed⟩ := happlied
    refine Ensures.bind_of (rollback_ensures hfresh hfailed
      (hbetween.perm (List.reverse_perm stop.prepared).symm)) ?_ ?_
    · rintro e w' ⟨⟨_, he, -⟩, -, -⟩
      cases he
    · rintro errors w' ⟨⟨errors', herrors, hnone⟩, hedits, left, hleft⟩
      obtain rfl : errors = errors' := Except.ok.inj herrors
      rw [← hedits] at hnone
      refine ⟨hnone, fun p ↦ ?_⟩
      by_cases hp : p ∈ left
      · exact Or.inr (hleft.excused p hp)
      · exact Or.inl (hleft.elsewhere p hp (fun _ hi ↦ absurd hi List.not_mem_nil)
          fun _ hi ↦ absurd hi List.not_mem_nil)

/-- Nobody else writes. -/
def Undisturbed (tree tree' : Tree) : Prop := ∀ p, tree'.lookup p = tree.lookup p

theorem undisturbed_step {op : Op} {answer : Answer op}
    (hstep : Step g Undisturbed w op answer w') (hnone : ∀ p, w.edits p = none) :
    ∀ p, w'.edits p = none := by
  cases hstep with
  | works => exact hnone
  | refuses => exact hnone
  | fails => exact hnone
  | edits _ _ tree hsame => exact fun p ↦ (if_pos (hsame p)).trans (hnone p)
  | throws _ _ tree _ hsame => exact fun p ↦ (if_pos (hsame p)).trans (hnone p)

/-- A transaction that nobody disturbs replaces all of the changed files or, wherever it fails,
none: every path is then as it was, and the rollback has nothing to report. -/
theorem applyCandidateFiles_all_or_nothing (hfresh : Fresh g original (sortedFiles files))
    {result : Except ApplyError Unit}
    (hends : (applyCandidateFiles g files).Ends (Step g Undisturbed) (World.initial original)
      result w') :
    (result = .ok () → ∀ p, w'.tree.lookup p =
      if p ∈ files.map splitSlash then g.proposed.lookup p else original.lookup p) ∧
        ∀ e, result = .error e →
          e.rollbackErrors = [] ∧ ∀ p, w'.tree.lookup p = original.lookup p := by
  have hnone : ∀ p, w'.edits p = none :=
    hends.preserves (fun _ _ _ _ hstep ↦ undisturbed_step hstep) fun _ ↦ rfl
  have hothers : ∀ p, w'.others original p = original.lookup p := fun p ↦ by
    rw [World.others, hnone p, Option.getD_none]
  have hmem : ∀ file, file ∈ sortedFiles files ↔ file ∈ files := fun file ↦
    (List.perm_insertionSort _ _).mem_iff.trans List.mem_dedup
  have hleft := (applyCandidateFiles_ensures hfresh fun _ _ hsame p _ ↦ hsame p).ends hends
  refine ⟨?_, ?_⟩
  · rintro rfl p
    split_ifs with hp
    · obtain ⟨file, hfile, rfl⟩ := List.mem_map.mp hp
      exact hleft.untouched file ((hmem file).mpr hfile) (hnone _)
    · rw [hleft.elsewhere p, hothers p]
      rw [List.mem_map] at hp ⊢
      rintro ⟨file, hfile, hpath⟩
      exact hp ⟨file, (hmem file).mp hfile, hpath⟩
  · rintro e rfl
    refine ⟨hleft.1 hnone, fun p ↦ ?_⟩
    obtain hsame | hexcused := hleft.2 p
    · exact hsame.trans (hothers p)
    · exact absurd hexcused (not_excused hnone)

/-! ### An execution -/

/-- Every operation does its work or says why it cannot. -/
def perform (g : Setting) (w : World) (op : Op) : Answer op × World :=
  match op.read g w.tree with
  | .ok a => (.ok a, { w with tree := op.write g w.tree })
  | .error message => (.error message, { w with failed := true })

theorem edited_self : w.edited w.tree = w := by
  have hedits : (w.edited w.tree).edits = w.edits := funext fun _ ↦ if_pos rfl
  rw [show w.edited w.tree = ⟨w.tree, w.failed, (w.edited w.tree).edits⟩ from rfl, hedits]

theorem step_perform (hrefl : ∀ tree, allowed tree tree) (w : World) (op : Op) :
    Step g allowed w op (perform g w op).1 (perform g w op).2 := by
  cases hhook : op.isHook with
  | true =>
    cases op with
    | beforeCommit file index =>
      have hstep := Step.edits (g := g) file index w.tree (hrefl w.tree)
      rw [edited_self] at hstep
      exact hstep
    | _ => cases hhook
  | false =>
    unfold perform
    cases hread : op.read g w.tree with
    | ok a => exact .works op a hhook hread
    | error message => exact .refuses op message hhook hread

def sampleOriginal : Tree :=
  [⟨[js "b"], .directory 0o755⟩, ⟨[js "b", js "c"], .file 0o644 [1]⟩,
    ⟨[js "d"], .file 0o600 [2]⟩].toAList

def sampleProposed : Tree :=
  [⟨[js "b"], .directory 0o755⟩, ⟨[js "b", js "c"], .file 0o755 [3]⟩].toAList

/-- One file is changed and one is deleted. -/
def sampleSetting : Setting where
  sha256 := .polynomial
  localeCompare a b := if a < b then -1 else if b < a then 1 else 0
  createdMode mode := mode
  expected := sampleOriginal
  proposed := sampleProposed
  stageId _ := js "s"
  rollbackId _ := js "r"

def sampleFiles : List JsString := [js "d", js "b/c"]

theorem fresh_sample : Fresh sampleSetting sampleOriginal (sortedFiles sampleFiles) :=
  ⟨by decide +kernel, by decide +kernel⟩

def sampleEnd : Except ApplyError Unit × World :=
  (applyCandidateFiles sampleSetting sampleFiles).run (perform sampleSetting)
    (World.initial sampleOriginal)

theorem sampleEnd_ends (hrefl : ∀ tree, allowed tree tree) :
    (applyCandidateFiles sampleSetting sampleFiles).Ends (Step sampleSetting allowed)
      (World.initial sampleOriginal) sampleEnd.1 sampleEnd.2 :=
  run_ends (step_perform hrefl) _ _

theorem sampleEnd_ok : sampleEnd.1 = .ok () := by
  have hok : sampleEnd.1.toBool = true := by decide +kernel
  cases hend : sampleEnd.1 with
  | ok _ => rfl
  | error e =>
    rw [hend] at hok
    cases hok

theorem applyCandidateFiles_all_or_nothing_sample : sampleEnd.1 = .ok () ∧
    ∀ p, sampleEnd.2.tree.lookup p =
      if p ∈ sampleFiles.map splitSlash then sampleProposed.lookup p
        else sampleOriginal.lookup p :=
  ⟨sampleEnd_ok, (applyCandidateFiles_all_or_nothing fresh_sample
    (sampleEnd_ends fun _ _ ↦ rfl)).1 sampleEnd_ok⟩

end ApiMigrator.Rewrite.CandidateFiles
