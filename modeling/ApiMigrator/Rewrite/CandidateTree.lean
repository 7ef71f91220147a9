import ApiMigrator.Rewrite.CandidateCommit
import ApiMigrator.Runner.TreeDigests

/-!
What the last look of a transaction establishes. One digest for two maps of entries means one map,
so that a transaction that returns has left the intended tree, outside Git metadata and installed
dependencies, whatever the other writer has done in between.
-/

set_option autoImplicit false
set_option relaxedAutoImplicit false

namespace ApiMigrator.Rewrite.CandidateFiles

open Foundation.Text Foundation.Number Foundation.Json Foundation.Outcome Foundation.Pattern
open Foundation.Binary Foundation.Framing Foundation.Interaction Foundation.Interaction.Prog
open App.Artifact (Path IsPath joinSlash joinSlash_splitSlash pathText pathText_eq isExcluded)
open App.GitTree (mapSet mem_mapSet)
open Engine.RepositoryDigest (localeBefore)
open Runner.Filesystem (mem_foldl_mapSet pathText_injective)

variable {g : Setting} {original tree : Tree} {files : List JsString} {w' : World}

/-! ### What is recorded -/

/-- What a digest says about a path. -/
def recorded (g : Setting) (tree : Tree) (p : Path) : Option RepositoryTreeEntry :=
  if isExcluded p = false ∧ ∀ parent ∈ parents p, (tree.lookup parent).any Node.isDirectory = true
  then (tree.lookup p).bind fun node ↦ (repositoryTreeEntry g node).toOption
  else none

/-- What the candidates say of the changed files. -/
def overlaysOf (g : Setting) (files : List JsString) :
    List (JsString × Option RepositoryTreeEntry) :=
  files.map fun file ↦ (file, candidateOf g (g.proposed.lookup (splitSlash file)))

/-- No two trees that a transaction compares at its end are told apart by their bytes and not by
their digests. -/
def CollisionFree (g : Setting) (tree : Tree) (files : List JsString) : Prop :=
  ∀ live intended, repositoryTree g tree [] = .ok live →
    repositoryTree g g.expected (overlaysOf g (sortedFiles files)) = .ok intended →
      g.sha256.hex (treeBytes g live) = g.sha256.hex (treeBytes g intended) →
        treeBytes g live = treeBytes g intended

instance (p : Path) : Decidable (IsPath p) := inferInstanceAs (Decidable (_ ∧ _))

end ApiMigrator.Rewrite.CandidateFiles
