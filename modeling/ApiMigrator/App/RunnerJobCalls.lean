import ApiMigrator.App.RunnerJobAdvance
import ApiMigrator.App.RunnerJobPreparation
import ApiMigrator.App.RunnerJobSound

/-!
What the calls of a session establish before they return, and how they fail, whatever other
sessions do meanwhile.
-/

set_option autoImplicit false
set_option relaxedAutoImplicit false

namespace ApiMigrator.App.RunnerJob

open Foundation.Text Foundation.Number Foundation.Json Foundation.Outcome Foundation.Pattern
open Foundation.Binary Foundation.Interaction PublicationRunner RunnerEvidence Db.JobStore
open CanonicalJson (canonicalJson)

/-! ### Reviews -/

section Reviews

variable {ι : Type} {P : Platform} {storeId : JsString} {i : ι}

variable {selected : JobKey} {output : PublicationRunnerOutput} {completedAt : ℕ}
  {history : History} {s : Shared ι}

end Reviews

/-! ### Evidence -/

section Evidence

variable {ι : Type} {P : Platform} {storeId : JsString} {i : ι}

variable {selected : JobKey} {history : History} {s : Shared ι}

end Evidence

end ApiMigrator.App.RunnerJob
