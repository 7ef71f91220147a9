import ApiMigrator.App.RunnerJobService
import Mathlib.Order.WithBot

/-!
The history of a job store that any number of sessions share. To each pair of a campaign and a run
the store holds at most one record, and a record only gains what it lacks: first a review, then a
retained identity. So the store is a map that grows along an order of its records, whatever the
calls, their interleaving and the failures of their steps.
-/

set_option autoImplicit false
set_option relaxedAutoImplicit false

namespace ApiMigrator.App.RunnerJob

open Foundation.Text Foundation.Number Foundation.Json Foundation.Outcome Foundation.Pattern
open Foundation.Binary Foundation.Interaction PublicationRunner RunnerEvidence Db.JobStore
open CanonicalJson (canonicalJson)
open SourceBundle (Checkout)

/-! ### Growth -/

/-- A stage grows by keeping what it has gathered. -/
instance : PartialOrder JobStage where
  le stage stage' := (∀ review ∈ stage.review, stage'.review = some review) ∧
    ∀ identity ∈ stage.identity, stage'.identity = some identity
  le_refl _ := ⟨fun _ h ↦ h, fun _ h ↦ h⟩
  le_trans _ _ _ h h' := ⟨fun review hreview ↦ h'.1 review (h.1 review hreview),
    fun identity hidentity ↦ h'.2 identity (h.2 identity hidentity)⟩
  le_antisymm stage stage' h h' := by
    cases stage <;> cases stage' <;> simp_all [JobStage.review, JobStage.identity]

namespace JobStage

variable {stage stage' : JobStage}

theorem prepared_le (stage : JobStage) : prepared ≤ stage :=
  ⟨fun _ h ↦ (nomatch h), fun _ h ↦ (nomatch h)⟩

theorem reviewed_le_evidenceRetained (review : RunnerEvidenceContext)
    (identity : RetainedRunnerEvidenceIdentity) :
    reviewed review ≤ evidenceRetained review identity :=
  ⟨fun _ h ↦ h, fun _ h ↦ (nomatch h)⟩

end JobStage

/-- A record grows in its stage; the digest follows. -/
instance : Preorder JobRecord where
  le r r' := r.toRecordBase = r'.toRecordBase ∧ r.stage ≤ r'.stage
  le_refl _ := ⟨rfl, le_refl _⟩
  le_trans _ _ _ h h' := ⟨h.1.trans h'.1, h.2.trans h'.2⟩

/-! ### Rows and records -/

section Rows

variable {P : Platform} {storeId : JsString} {row row' : StoredJobRow} {r r' : JobRecord}

theorem recordToStoredRow_eq_ok :
    recordToStoredRow P r = .ok row ↔
      decodeJobRecord P row.canonicalRecord = .ok r ∧ RowMatches row r := by
  simp only [recordToStoredRow, bind_eq_ok, encodeJobRecord_eq_ok, pure_eq_ok]
  constructor
  · rintro ⟨text, htext, validated, hvalidated, rfl⟩
    obtain rfl : validated = r := Except.ok.inj (hvalidated.symm.trans htext)
    exact ⟨htext, rfl, rfl, rfl, rfl, rfl, rfl⟩
  · rintro ⟨hdecode, hcampaign, hrun, hjob, hrevision, hintent, hdigest⟩
    refine ⟨_, hdecode, r, hdecode, ?_⟩
    rw [← hcampaign, ← hrun, ← hjob, ← hrevision, ← hintent, ← hdigest]

/-- A stored row is valid exactly when it is the row of a record of its store. -/
theorem validateStoredJob_eq_ok :
    validateStoredJob P row storeId = .ok r ↔
      recordToStoredRow P r = .ok row ∧ r.storeId = storeId := by
  simp only [validateStoredJob, bind_eq_ok, rethrow_eq_ok, reject_eq_ok, exists_unit, pure_eq_ok,
    not_not, recordToStoredRow_eq_ok]
  constructor
  · rintro ⟨record, hdecode, hmatches, _, -, -, hstore, rfl⟩
    exact ⟨⟨hdecode, hmatches⟩, hstore⟩
  · rintro ⟨⟨hdecode, hmatches⟩, hstore⟩
    exact ⟨r, hdecode, hmatches, _, (decodeJobRecord_eq_ok.mp hdecode).1, rfl, hstore, rfl⟩

theorem rowMatches_of_validateStoredJob (h : validateStoredJob P row storeId = .ok r) :
    RowMatches row r :=
  (recordToStoredRow_eq_ok.mp (validateStoredJob_eq_ok.mp h).1).2

end Rows

/-! ### The store as a map -/

section Map

variable (P : Platform) (storeId : JsString)

/-- The record of a row, if it holds one. -/
def recordOf (row : StoredJobRow) : WithBot JobRecord :=
  match validateStoredJob P row storeId with
  | .ok r => r
  | .error _ => ⊥

/-- The job of each campaign and run. -/
def storedJobs (db : JobDatabase) (key : JsString × JsString) : WithBot JobRecord :=
  match db.jobs.find key.1 key.2 with
  | some row => recordOf P storeId row
  | none => ⊥

variable {P storeId} {db db' : JobDatabase} {row : StoredJobRow} {r : JobRecord}
  {key : JsString × JsString}

theorem recordOf_eq_coe : recordOf P storeId row = r ↔ validateStoredJob P row storeId = .ok r := by
  unfold recordOf
  cases hrow : validateStoredJob P row storeId with
  | ok r' => simp
  | error e => simp

/-- A job that is stored is stored in the row of its key. -/
theorem storedJobs_eq_coe :
    storedJobs P storeId db key = r ↔ ∃ row ∈ db.jobs.rows,
      row.campaignId = key.1 ∧ row.runId = key.2 ∧ validateStoredJob P row storeId = .ok r := by
  unfold storedJobs
  constructor
  · intro h
    split at h
    · rename_i row hfound
      obtain ⟨hrow, hcampaign, hrun⟩ := JobTable.find_eq_some.mp hfound
      exact ⟨row, hrow, hcampaign, hrun, recordOf_eq_coe.mp h⟩
    · exact absurd h.symm (WithBot.coe_ne_bot)
  · rintro ⟨row, hrow, hcampaign, hrun, hr⟩
    rw [JobTable.find_eq_some.mpr ⟨hrow, hcampaign, hrun⟩]
    exact recordOf_eq_coe.mpr hr

/-- The key of a record. -/
def JobRecord.place (r : JobRecord) : JsString × JsString := (r.campaignId, r.runId)

theorem storedJobs_of_mem (hrow : row ∈ db.jobs.rows) (hr : validateStoredJob P row storeId = .ok r) :
    storedJobs P storeId db r.place = r := by
  obtain ⟨hcampaign, hrun, -⟩ := rowMatches_of_validateStoredJob hr
  exact storedJobs_eq_coe.mpr ⟨row, hrow, hcampaign, hrun, hr⟩

/-- An insertion puts a record under a key that had none. -/
theorem storedJobs_insert {jobs : JobTable} (hrows : jobs.rows = db.jobs.rows ++ [row])
    (hr : validateStoredJob P row storeId = .ok r) :
    storedJobs P storeId db r.place = ⊥ ∧
      storedJobs P storeId { db with jobs } = Function.update (storedJobs P storeId db) r.place r := by
  obtain ⟨hcampaign, hrun, -⟩ := rowMatches_of_validateStoredJob hr
  have hunique := jobs.unique
  rw [hrows, List.pairwise_append] at hunique
  have hfresh : db.jobs.find r.campaignId r.runId = none := by
    refine JobTable.find_eq_none.mpr fun row' hrow' hkey ↦ ?_
    refine (hunique.2.2 row' hrow' row (List.mem_singleton_self row)).1 ⟨?_, ?_⟩
    · rw [hkey.1, hcampaign]
    · rw [hkey.2, hrun]
  refine ⟨by rw [storedJobs, JobRecord.place, hfresh], ?_⟩
  funext key
  by_cases hkey : key = r.place
  · subst hkey
    rw [Function.update_self]
    exact storedJobs_of_mem (by rw [hrows]; simp) hr
  · rw [Function.update_of_ne hkey, storedJobs, storedJobs]
    have hfind : jobs.find key.1 key.2 = db.jobs.find key.1 key.2 := by
      have hne : ¬ (row.campaignId = key.1 ∧ row.runId = key.2) := by
        rintro ⟨hcampaign', hrun'⟩
        exact hkey (Prod.ext (hcampaign'.symm.trans hcampaign) (hrun'.symm.trans hrun))
      rw [JobTable.find, hrows, List.find?_append, JobTable.find]
      simp [hne]
    rw [hfind]

/-- A swap puts the next record in the place of the previous one. -/
theorem storedJobs_update {previous next : StoredJobRow} (hmem : previous ∈ db.jobs.rows)
    (hfollows : Follows previous next) (hr : validateStoredJob P next storeId = .ok r) :
    storedJobs P storeId { db with jobs := db.jobs.update previous next } =
      Function.update (storedJobs P storeId db) r.place r := by
  obtain ⟨hcampaign, hrun, -⟩ := rowMatches_of_validateStoredJob hr
  have hnext : JobTable.replace previous next previous = next := by
    obtain ⟨-, hcampaign', hrun', hjob, hintent⟩ := hfollows
    rw [JobTable.replace, if_pos rfl, ← hcampaign', ← hrun', ← hjob, ← hintent]
  funext key
  by_cases hkey : key = r.place
  · subst hkey
    rw [Function.update_self]
    exact storedJobs_of_mem (List.mem_map.mpr ⟨previous, hmem, hnext⟩) hr
  · rw [Function.update_of_ne hkey, storedJobs, storedJobs]
    have hfind : (db.jobs.update previous next).find key.1 key.2 = db.jobs.find key.1 key.2 := by
      cases hfound : db.jobs.find key.1 key.2 with
      | none =>
        refine JobTable.find_eq_none.mpr fun row hrow ↦ ?_
        obtain ⟨row', hrow', rfl⟩ := List.mem_map.mp hrow
        obtain ⟨hcampaign', hrun', -⟩ := JobTable.replace_keys previous next row'
        rw [hcampaign', hrun']
        exact JobTable.find_eq_none.mp hfound row' hrow'
      | some row =>
        obtain ⟨hrow, hcampaign', hrun'⟩ := JobTable.find_eq_some.mp hfound
        have hne : row ≠ previous := by
          rintro rfl
          refine hkey (Prod.ext ?_ ?_)
          · exact hcampaign'.symm.trans (hfollows.2.1.symm.trans hcampaign)
          · exact hrun'.symm.trans (hfollows.2.2.1.symm.trans hrun)
        have hsame : JobTable.replace previous next row = row := if_neg hne
        exact JobTable.find_eq_some.mpr
          ⟨List.mem_map.mpr ⟨row, hrow, hsame⟩, hcampaign', hrun'⟩
    rw [hfind]

end Map

/-! ### One step -/

/-- The database that the sessions share, and a history variable: which call committed which
row. -/
structure Shared (ι : Type) where
  db : JobDatabase
  log : List (ι × StoredJobRow)

section Steps

variable {ι : Type}

/-- Something the step depends on failed. -/
def Faulted {α : Type} (answer : Except Failure α) : Prop := ∃ code, answer = .error (.fault code)

/-- A query answers what it computed, or fails. -/
def Queries {α : Type} (s : Shared ι) (value answer : Except Failure α) (after : Shared ι) : Prop :=
  after = s ∧ (answer = value ∨ Faulted answer)

/-- A call of something else answers what it likes, or fails. -/
def Asks {α : Type} (s : Shared ι) (answer : Except Failure α) (after : Shared ι) : Prop :=
  after = s ∧ ((∃ a, answer = .ok a) ∨ Faulted answer)

/-- A transaction answers what its body computed once it has committed. It fails before the commit,
and then nothing has happened, or after it. -/
def Transacts {α : Type} (s : Shared ι) (body : Except Failure (Shared ι × α))
    (answer : Except Failure α) (after : Shared ι) : Prop :=
  after = s ∧ (Faulted answer ∨ ∃ e, body = .error e ∧ answer = .error e) ∨
    ∃ a, body = .ok (after, a) ∧ (answer = .ok a ∨ Faulted answer)

def observeBody (s : Shared ι) (expectedStoreId : JsString) (now : ℕ) :
    Except Failure (Shared ι × Unit) := do
  let db ← storeOutcome (observeTransaction s.db expectedStoreId now)
  return ({ s with db }, ())

def insertBody (s : Shared ι) (i : ι) (row : StoredJobRow) : Except Failure (Shared ι × Bool) := do
  let (db, inserted) ← storeOutcome (insertTransaction s.db row)
  return (⟨db, if inserted then s.log ++ [(i, row)] else s.log⟩, inserted)

def swapBody (s : Shared ι) (i : ι) (previous next : StoredJobRow) :
    Except Failure (Shared ι × Bool) := do
  let (db, committed) ← storeOutcome (compareAndSwapTransaction s.db previous next)
  return (⟨db, if committed then s.log ++ [(i, next)] else s.log⟩, committed)

/-- What one operation of call `i` may do. -/
def Step (s : Shared ι) (i : ι) : (op : Op) → Except Failure op.Answer → Shared ι → Prop
  | .custodyCheck, answer, after => Queries s (.ok ()) (answer : Except Failure Unit) after
  | .custodySync, answer, after => Queries s (.ok ()) (answer : Except Failure Unit) after
  | .metadata expectedStoreId, answer, after =>
    Queries s (storeOutcome (metadata s.db expectedStoreId)) answer after
  | .count, answer, after => Queries s (storeOutcome (count s.db)) answer after
  | .listRows, answer, after => Queries s (storeOutcome (rows s.db)) answer after
  | .readRow campaignId runId, answer, after =>
    Queries s (storeOutcome (Db.JobStore.readRow s.db campaignId runId)) answer after
  | .observe expectedStoreId now, answer, after =>
    Transacts s (observeBody s expectedStoreId now) answer after
  | .insert row, answer, after => Transacts s (insertBody s i row) answer after
  | .compareAndSwap previous next, answer, after =>
    Transacts s (swapBody s i previous next) answer after
  | .wallNow, answer, after => ∃ value,
    Queries s (.ok ⟨value, s.db.wallHighWater⟩) (answer : Except Failure Reading) after
  | .randomBytes, answer, after => Asks s answer after
  | .overlapsCheckout _ _, answer, after => Asks s answer after
  | .readCheckout _, answer, after => Asks s answer after
  | .acquireInitial _, answer, after => Asks s answer after
  | .reacquire _ _, answer, after => Asks s answer after
  | .readSource _, answer, after => Asks s answer after
  | .putSource _ _, answer, after => Asks s answer after

@[simp]
theorem storeOutcome_eq_ok {α : Type} {outcome : Except StoreFailureCode α} {a : α} :
    storeOutcome outcome = .ok a ↔ outcome = .ok a := by
  cases outcome <;> simp [storeOutcome, Except.mapError]

@[simp]
theorem jobOutcome_eq_ok {α : Type} {outcome : Except JobFailureCode α} {a : α} :
    jobOutcome outcome = .ok a ↔ outcome = .ok a := by
  cases outcome <;> simp [jobOutcome, Except.mapError]

end Steps

/-! ### The discipline of the store -/

section Discipline

variable {ι : Type} (P : Platform) (storeId : JsString)

/-- The store is the one its sessions opened, every row holds a record of it, and what was
committed is still there or has grown. -/
structure Consistent (s : Shared ι) : Prop where
  opened : s.db.storeId = storeId
  uuid : isUuid storeId = true
  mark : isSafe s.db.wallHighWater = true
  size : s.db.jobs.rows.length ≤ maxJobs
  rows : ∀ row ∈ s.db.jobs.rows, row.isValid = true ∧
    ∃ r, validateStoredJob P row storeId = .ok r
  log : ∀ e ∈ s.log, ∃ r : JobRecord, validateStoredJob P e.2 storeId = .ok r ∧
    r ≤ storedJobs P storeId s.db r.place

/-- Time does not go back, jobs grow, and commits stay. -/
structure Grows (s s' : Shared ι) : Prop where
  mark : s.db.wallHighWater ≤ s'.db.wallHighWater
  jobs : storedJobs P storeId s.db ≤ storedJobs P storeId s'.db
  log : s.log ⊆ s'.log

def jobDiscipline (ι : Type) : Discipline (Shared ι) where
  inv := Consistent P storeId
  rel := Grows P storeId
  rel_refl _ := ⟨le_refl _, le_refl _, List.Subset.refl _⟩
  rel_trans h h' := ⟨h.mark.trans h'.mark, h.jobs.trans h'.jobs, List.Subset.trans h.log h'.log⟩

/-- What a session may ask of the store: to write rows of records, and records that grow. -/
def Op.Sanctioned : Op → Prop
  | .observe _ now => isSafe now = true
  | .insert row => row.isValid = true ∧ ∃ r, validateStoredJob P row storeId = .ok r
  | .compareAndSwap previous next => next.isValid = true ∧ Follows previous next ∧
    ∃ r r' : JobRecord, validateStoredJob P previous storeId = .ok r ∧
      validateStoredJob P next storeId = .ok r' ∧ r ≤ r'
  | _ => True

variable {P storeId} {s s' : Shared ι}

private theorem keeps_of_eq (hinv : Consistent P storeId s) (hs : s' = s) :
    Consistent P storeId s' ∧ Grows P storeId s s' := by
  subst hs
  exact ⟨hinv, (jobDiscipline P storeId ι).rel_refl s'⟩

private theorem keeps_of_observe (hinv : Consistent P storeId s) {now : ℕ}
    (hnow : isSafe now = true) (hmark : s.db.wallHighWater ≤ now) :
    Consistent P storeId { s with db := { s.db with wallHighWater := now } } ∧
      Grows P storeId s { s with db := { s.db with wallHighWater := now } } :=
  ⟨⟨hinv.opened, hinv.uuid, hnow, hinv.size, hinv.rows, hinv.log⟩, hmark, le_refl _,
    List.Subset.refl _⟩

/-- Writing one record where it keeps what was there keeps what the log records. -/
private theorem log_of_update {db : JobDatabase} {r : JobRecord} {row : StoredJobRow} {i : ι}
    (hinv : Consistent P storeId s) (hrow : validateStoredJob P row storeId = .ok r)
    (hle : storedJobs P storeId s.db ≤ storedJobs P storeId db)
    (hat : storedJobs P storeId db r.place = r) (e : ι × StoredJobRow)
    (he : e ∈ s.log ++ [(i, row)]) :
    ∃ r : JobRecord, validateStoredJob P e.2 storeId = .ok r ∧
      r ≤ storedJobs P storeId db r.place := by
  rcases List.mem_append.mp he with he | he
  · obtain ⟨r', hr', hstored⟩ := hinv.log e he
    exact ⟨r', hr', hstored.trans (hle _)⟩
  · obtain rfl := List.mem_singleton.mp he
    exact ⟨r, hrow, hat.ge⟩

private theorem keeps_of_insert (hinv : Consistent P storeId s) {i : ι} {row : StoredJobRow}
    {r : JobRecord} {jobs : JobTable} (hvalid : row.isValid = true)
    (hrow : validateStoredJob P row storeId = .ok r)
    (hrows : jobs.rows = s.db.jobs.rows ++ [row]) (hsize : s.db.jobs.rows.length < maxJobs) :
    Consistent P storeId ⟨{ s.db with jobs }, s.log ++ [(i, row)]⟩ ∧
      Grows P storeId s ⟨{ s.db with jobs }, s.log ++ [(i, row)]⟩ := by
  obtain ⟨hfresh, hupdate⟩ : storedJobs P storeId s.db r.place = ⊥ ∧
      storedJobs P storeId { s.db with jobs } =
        Function.update (storedJobs P storeId s.db) r.place r := storedJobs_insert hrows hrow
  have hle : storedJobs P storeId s.db ≤ storedJobs P storeId { s.db with jobs } := by
    rw [hupdate, le_update_iff, hfresh]
    exact ⟨bot_le, fun _ _ ↦ le_refl _⟩
  refine ⟨⟨hinv.opened, hinv.uuid, hinv.mark, ?_, fun row' hrow' ↦ ?_, ?_⟩, le_refl _, hle,
    List.subset_append_left _ _⟩
  · rw [hrows, List.length_append]
    exact hsize
  · rw [hrows] at hrow'
    rcases List.mem_append.mp hrow' with hrow' | hrow'
    · exact hinv.rows row' hrow'
    · obtain rfl := List.mem_singleton.mp hrow'
      exact ⟨hvalid, r, hrow⟩
  · refine log_of_update hinv hrow hle ?_
    rw [hupdate, Function.update_self]

private theorem keeps_of_swap (hinv : Consistent P storeId s) {i : ι}
    {previous next : StoredJobRow} {r r' : JobRecord} (hvalid : next.isValid = true)
    (hfollows : Follows previous next) (hprevious : validateStoredJob P previous storeId = .ok r)
    (hnext : validateStoredJob P next storeId = .ok r') (hgrows : r ≤ r')
    (hmem : previous ∈ s.db.jobs.rows) :
    Consistent P storeId
        ⟨{ s.db with jobs := s.db.jobs.update previous next }, s.log ++ [(i, next)]⟩ ∧
      Grows P storeId s
        ⟨{ s.db with jobs := s.db.jobs.update previous next }, s.log ++ [(i, next)]⟩ := by
  have hupdate := storedJobs_update hmem hfollows hnext
  have hplace : r.place = r'.place := congrArg (fun base ↦ (base.campaignId, base.runId)) hgrows.1
  have hle : storedJobs P storeId s.db ≤
      storedJobs P storeId { s.db with jobs := s.db.jobs.update previous next } := by
    rw [hupdate, le_update_iff, ← hplace, storedJobs_of_mem hmem hprevious]
    exact ⟨WithBot.coe_le_coe.mpr hgrows, fun _ _ ↦ le_refl _⟩
  refine ⟨⟨hinv.opened, hinv.uuid, hinv.mark, ?_, fun row' hrow' ↦ ?_, ?_⟩, le_refl _, hle,
    List.subset_append_left _ _⟩
  · simpa only [JobTable.update, List.length_map] using hinv.size
  · obtain ⟨row, hrow, rfl⟩ := List.mem_map.mp hrow'
    by_cases heq : row = previous
    · have hreplaced : JobTable.replace previous next row = next := by
        obtain ⟨-, hcampaign, hrun, hjob, hintent⟩ := hfollows
        rw [JobTable.replace, if_pos heq, heq, ← hcampaign, ← hrun, ← hjob, ← hintent]
      rw [hreplaced]
      exact ⟨hvalid, r', hnext⟩
    · rw [JobTable.replace, if_neg heq]
      exact hinv.rows row hrow
  · refine log_of_update hinv hnext hle ?_
    rw [hupdate, Function.update_self]

/-- A sanctioned operation keeps the discipline, whoever performs it. -/
theorem keeps_of_sanctioned {op : Op} (hop : op.Sanctioned P storeId) :
    (jobDiscipline P storeId ι).Keeps Step op := by
  intro s i answer after hinv hstep
  cases op with
  | observe expectedStoreId now =>
    obtain ⟨hafter, -⟩ | ⟨u, hbody, -⟩ := hstep
    · exact keeps_of_eq hinv hafter
    · simp only [observeBody, bind_eq_ok, pure_eq_ok, storeOutcome_eq_ok, Prod.mk.injEq] at hbody
      obtain ⟨db, hobserve, rfl, -⟩ := hbody
      obtain ⟨hmark, rfl⟩ := observeTransaction_eq_ok hobserve
      exact keeps_of_observe hinv hop hmark
  | insert row =>
    obtain ⟨hafter, -⟩ | ⟨inserted, hbody, -⟩ := hstep
    · exact keeps_of_eq hinv hafter
    · simp only [insertBody, bind_eq_ok, pure_eq_ok, storeOutcome_eq_ok, Prod.exists,
        Prod.mk.injEq] at hbody
      obtain ⟨db, _, hinsert, rfl, rfl⟩ := hbody
      obtain ⟨hvalid, r, hrow⟩ := hop
      obtain ⟨rfl, rfl, -⟩ | ⟨rfl, jobs, rfl, hrows, hsize⟩ := insertTransaction_eq_ok hinsert
      · exact keeps_of_eq hinv rfl
      · exact keeps_of_insert hinv hvalid hrow hrows hsize
  | compareAndSwap previous next =>
    obtain ⟨hafter, -⟩ | ⟨committed, hbody, -⟩ := hstep
    · exact keeps_of_eq hinv hafter
    · simp only [swapBody, bind_eq_ok, pure_eq_ok, storeOutcome_eq_ok, Prod.exists,
        Prod.mk.injEq] at hbody
      obtain ⟨db, _, hswap, rfl, rfl⟩ := hbody
      obtain ⟨hvalid, hfollows, r, r', hprevious, hnext, hgrows⟩ := hop
      obtain ⟨rfl, rfl, -⟩ | ⟨rfl, hmem, rfl⟩ := compareAndSwapTransaction_eq_ok hswap
      · exact keeps_of_eq hinv rfl
      · exact keeps_of_swap hinv hvalid hfollows hprevious hnext hgrows hmem
  | wallNow =>
    obtain ⟨value, hafter, -⟩ := hstep
    exact keeps_of_eq hinv hafter
  | custodyCheck => exact keeps_of_eq hinv hstep.1
  | custodySync => exact keeps_of_eq hinv hstep.1
  | metadata expectedStoreId => exact keeps_of_eq hinv hstep.1
  | count => exact keeps_of_eq hinv hstep.1
  | listRows => exact keeps_of_eq hinv hstep.1
  | readRow campaignId runId => exact keeps_of_eq hinv hstep.1
  | randomBytes => exact keeps_of_eq hinv hstep.1
  | overlapsCheckout checkoutPath sourceDirectory => exact keeps_of_eq hinv hstep.1
  | readCheckout checkoutPath => exact keeps_of_eq hinv hstep.1
  | acquireInitial context => exact keeps_of_eq hinv hstep.1
  | reacquire context identity => exact keeps_of_eq hinv hstep.1
  | readSource jobId => exact keeps_of_eq hinv hstep.1
  | putSource jobId bytes => exact keeps_of_eq hinv hstep.1

end Discipline

/-! ### What a call writes -/

section Calls

variable {P : Platform} {storeId : JsString}

/-- The program asks nothing of the store that is not sanctioned, and returns what it should. -/
abbrev Service.Complies (P : Platform) (storeId : JsString) {α : Type} (returns : α → Prop)
    (p : Service α) : Prop :=
  p.Only (Op.Sanctioned P storeId) returns

private theorem complies_run {op : Op} (hop : op.Sanctioned P storeId) :
    (run op).Complies P storeId fun _ ↦ True :=
  ⟨hop, fun answer ↦ by cases answer <;> trivial⟩

private theorem complies_runOr (op : Op) (hop : op.Sanctioned P storeId) (code : JobFailureCode) :
    (runOr op code).Complies P storeId fun _ ↦ True :=
  .recover (complies_run hop) fun _ ↦ trivial

private theorem complies_check : (check storeId).Complies P storeId fun _ ↦ True := by
  refine .bind (complies_run trivial) fun _ _ ↦ ?_
  refine .bind (complies_run trivial) fun _ _ ↦ ?_
  exact .bind (complies_run trivial) fun _ _ ↦ trivial

private theorem complies_sync : (sync storeId).Complies P storeId fun _ ↦ True :=
  .bind (complies_run trivial) fun _ _ ↦ complies_check

private theorem complies_observeTime (now : JsNumber) :
    (observeTime storeId now).Complies P storeId fun _ ↦ True := by
  refine .lift_bind fun n hn ↦ ?_
  have hsafe : isSafe n = true :=
    isSafe_of_safeInteger (observable_eq_ok.mp (storeOutcome_eq_ok.mp hn))
  refine .bind complies_check fun _ _ ↦ ?_
  refine .bind (complies_run hsafe) fun _ _ ↦ ?_
  refine .bind complies_sync fun _ _ ↦ ?_
  exact .bind (complies_run trivial) fun _ _ ↦ .ensure fun _ ↦ trivial

private theorem complies_list : (list storeId).Complies P storeId fun _ ↦ True :=
  .bind complies_check fun _ _ ↦ complies_run trivial

private theorem complies_read (campaignId runId : JsString) :
    (read storeId campaignId runId).Complies P storeId fun _ ↦ True := by
  refine .ensure_bind fun _ ↦ ?_
  exact .bind complies_check fun _ _ ↦ complies_run trivial

theorem validateRow_eq_ok {row row' : StoredJobRow} {code : StoreFailureCode}
    (h : validateRow row code = .ok row') : row' = row ∧ row.isValid = true := by
  simp only [validateRow, bind_eq_ok, reject_eq_ok, exists_unit, pure_eq_ok, Bool.not_eq_false] at h
  exact ⟨h.2.symm, h.1⟩

private theorem complies_insert {row : StoredJobRow} {r : JobRecord}
    (hrow : validateStoredJob P row storeId = .ok r) :
    (insert storeId row).Complies P storeId fun _ ↦ True := by
  refine .lift_bind fun row' hvalid ↦ ?_
  obtain ⟨rfl, hvalid⟩ := validateRow_eq_ok (storeOutcome_eq_ok.mp hvalid)
  refine .bind complies_check fun _ _ ↦ ?_
  refine .bind (complies_run ⟨hvalid, r, hrow⟩) fun _ _ ↦ ?_
  refine .bind complies_sync fun _ _ ↦ ?_
  refine .bind (complies_run trivial) fun _ _ ↦ ?_
  exact .lift_bind fun _ _ ↦ trivial

private theorem complies_compareAndSwap {previous next : StoredJobRow} {r r' : JobRecord}
    (hprevious : validateStoredJob P previous storeId = .ok r)
    (hnext : validateStoredJob P next storeId = .ok r') (hgrows : r ≤ r') :
    (compareAndSwap storeId previous next).Complies P storeId fun _ ↦ True := by
  refine .lift_bind fun previous' hvalid ↦ ?_
  obtain ⟨rfl, -⟩ := validateRow_eq_ok (storeOutcome_eq_ok.mp hvalid)
  refine .lift_bind fun next' hvalid' ↦ ?_
  obtain ⟨rfl, hvalid'⟩ := validateRow_eq_ok (storeOutcome_eq_ok.mp hvalid')
  refine .ensure_bind fun hfollows ↦ ?_
  refine .bind complies_check fun _ _ ↦ ?_
  refine .bind (complies_run ⟨hvalid', hfollows, r, r', hprevious, hnext, hgrows⟩) fun _ _ ↦ ?_
  refine .bind complies_sync fun _ _ ↦ ?_
  refine .bind (complies_run trivial) fun _ _ ↦ ?_
  exact .lift_bind fun _ _ ↦ trivial

private theorem complies_currentTime : currentTime.Complies P storeId fun _ ↦ True := by
  refine .recover ?_ fun _ ↦ trivial
  exact .bind (complies_run trivial) fun _ _ ↦ .lift fun _ _ ↦ trivial

private theorem complies_checkRunnerJobCurrent (record : JobRecord) :
    (checkRunnerJobCurrent storeId record).Complies P storeId fun _ ↦ True := by
  refine .bind complies_currentTime fun _ _ ↦ ?_
  refine .bind (complies_observeTime _) fun _ _ ↦ ?_
  refine .bind complies_currentTime fun _ _ ↦ ?_
  exact .ensure_bind fun _ ↦ .lift fun _ _ ↦ trivial

private theorem complies_inspectRunnerJob (selected : JobKey) :
    (inspectRunnerJob P storeId selected).Complies P storeId fun r ↦
      ∃ row, validateStoredJob P row storeId = .ok r := by
  refine .bind (complies_read _ _) fun _ _ ↦ ?_
  refine .lift_bind fun row _ ↦ ?_
  refine .lift_bind fun r hr ↦ ?_
  exact .ensure_bind fun _ ↦ ⟨row, jobOutcome_eq_ok.mp hr⟩

/-! #### Reviews -/

/-- A review that was appended grows the job. -/
theorem le_of_appendJobReview {r next : JobRecord} {output completedAt : JsValue} {now : JsNumber}
    (h : appendJobReview P r output completedAt now = .ok next) : r ≤ next := by
  obtain ⟨review, -, ⟨hstage, hbase, hnext, -⟩ | ⟨-, rfl⟩⟩ := appendJobReview_eq_ok h
  · refine ⟨hbase.symm, ?_⟩
    rw [hstage]
    exact JobStage.prepared_le _
  · exact le_refl _

/-- An identity that was appended grows the job. -/
theorem le_of_appendJobIdentity {r next : JobRecord} {identity : JsValue} {now : JsNumber}
    (h : appendJobIdentity P r identity now = .ok next) : r ≤ next := by
  obtain ⟨review, validated, -, ⟨hstage, hbase, hnext, -⟩ | ⟨-, rfl⟩⟩ := appendJobIdentity_eq_ok h
  · refine ⟨hbase.symm, ?_⟩
    rw [hstage, hnext]
    exact JobStage.reviewed_le_evidenceRetained _ _
  · exact le_refl _

/-- The row of a record that a stored one grows to is a row of the same store. -/
theorem validateStoredJob_of_le {row nextRow : StoredJobRow} {r next : JobRecord}
    (hr : validateStoredJob P row storeId = .ok r) (hle : r ≤ next)
    (hnext : recordToStoredRow P next = .ok nextRow) :
    validateStoredJob P nextRow storeId = .ok next := by
  refine validateStoredJob_eq_ok.mpr ⟨hnext, ?_⟩
  rw [← (validateStoredJob_eq_ok.mp hr).2]
  exact congrArg RecordBase.storeId hle.1.symm

private theorem complies_writeReview {selected : JobKey} {row : StoredJobRow} {r : JobRecord}
    {review : RunnerEvidenceContext} {output : PublicationRunnerOutput} {completedAt startedAt : ℕ}
    (hr : validateStoredJob P row storeId = .ok r) :
    (writeReview P storeId selected row r review output completedAt startedAt).Complies P storeId
      fun _ ↦ True := by
  refine .lift_bind fun next hnext ↦ ?_
  have hle := le_of_appendJobReview (jobOutcome_eq_ok.mp hnext)
  refine .bind (complies_checkRunnerJobCurrent _) fun _ _ ↦ ?_
  refine .lift_bind fun nextRow hnextRow ↦ ?_
  have hnextValid := validateStoredJob_of_le hr hle (jobOutcome_eq_ok.mp hnextRow)
  refine .bind (complies_compareAndSwap hr hnextValid hle) fun result _ ↦ ?_
  split
  split_ifs
  · refine .lift_bind fun _ _ ↦ ?_
    refine .lift_bind fun _ _ ↦ ?_
    exact .bind (complies_checkRunnerJobCurrent _) fun _ _ ↦ trivial
  · refine .bind (complies_read _ _) fun _ _ ↦ ?_
    refine .lift_bind fun _ _ ↦ ?_
    refine .lift_bind fun _ _ ↦ ?_
    refine .lift_bind fun _ _ ↦ ?_
    exact .bind (complies_checkRunnerJobCurrent _) fun _ _ ↦ trivial

private theorem complies_recordRunnerJobReview (key output completedAt : JsValue) :
    (recordRunnerJobReview P storeId key output completedAt).Complies P storeId fun _ ↦ True := by
  refine .lift_bind fun _ _ ↦ ?_
  refine .lift_bind fun _ _ ↦ ?_
  refine .lift_bind fun _ _ ↦ ?_
  refine .bind complies_currentTime fun _ _ ↦ ?_
  refine .bind (complies_observeTime _) fun _ _ ↦ ?_
  refine .bind (complies_read _ _) fun _ _ ↦ ?_
  refine .lift_bind fun row _ ↦ ?_
  refine .lift_bind fun previous hprevious ↦ ?_
  refine .ensure_bind fun _ ↦ ?_
  refine .lift_bind fun _ _ ↦ ?_
  refine .ensure_bind fun _ ↦ ?_
  refine .lift_bind fun _ _ ↦ ?_
  split
  · refine .lift_bind fun _ _ ↦ ?_
    refine .ensure_bind fun _ ↦ ?_
    exact .bind (complies_checkRunnerJobCurrent _) fun _ _ ↦ trivial
  · exact complies_writeReview (jobOutcome_eq_ok.mp hprevious)

/-! #### Evidence -/

private theorem complies_acquireFrom (stage : JobStage) :
    (acquireFrom stage).Complies P storeId fun _ ↦ True := by
  cases stage with
  | prepared => trivial
  | reviewed review => exact complies_run trivial
  | evidenceRetained review identity => exact complies_run trivial

private theorem complies_retainEvidence (selected : JobKey) {row : StoredJobRow}
    {snapshot candidate : JobRecord} (hsnapshot : validateStoredJob P row storeId = .ok snapshot)
    (hle : snapshot ≤ candidate) :
    (retainEvidence P storeId selected snapshot candidate).Complies P storeId fun _ ↦ True := by
  unfold retainEvidence
  split_ifs
  · exact (complies_inspectRunnerJob selected).mono fun _ _ ↦ trivial
  · refine .lift_bind fun candidateRow hcandidateRow ↦ ?_
    refine .lift_bind fun snapshotRow hsnapshotRow ↦ ?_
    have hprevious := validateStoredJob_of_le hsnapshot (le_refl _)
      (jobOutcome_eq_ok.mp hsnapshotRow)
    have hnext := validateStoredJob_of_le hsnapshot hle (jobOutcome_eq_ok.mp hcandidateRow)
    refine .bind (complies_compareAndSwap hprevious hnext hle) fun _ _ ↦ ?_
    refine .lift_bind fun _ _ ↦ ?_
    exact .ensure_bind fun _ ↦ trivial

private theorem complies_retainIdentity (selected : JobKey) {row : StoredJobRow}
    {snapshot : JobRecord} (hsnapshot : validateStoredJob P row storeId = .ok snapshot)
    (identity : JsValue) :
    (retainIdentity P storeId selected snapshot identity).Complies P storeId fun _ ↦ True := by
  refine .bind (complies_run trivial) fun _ _ ↦ ?_
  refine .lift_bind fun _ _ ↦ ?_
  refine .bind (complies_run trivial) fun _ _ ↦ ?_
  refine .lift_bind fun candidate hcandidate ↦ ?_
  have hle := le_of_appendJobIdentity (jobOutcome_eq_ok.mp hcandidate)
  refine .bind (complies_retainEvidence selected hsnapshot hle) fun _ _ ↦ ?_
  refine .lift_bind fun _ _ ↦ ?_
  refine .lift_bind fun _ _ ↦ ?_
  refine .ensure_bind fun _ ↦ ?_
  refine .bind (complies_run trivial) fun _ _ ↦ ?_
  refine .bind (complies_observeTime _) fun _ _ ↦ ?_
  refine .bind (complies_run trivial) fun _ _ ↦ ?_
  refine .ensure_bind fun _ ↦ ?_
  refine .lift_bind fun _ _ ↦ ?_
  exact .lift_bind fun _ _ ↦ trivial

private theorem complies_acquireRunnerJobEvidence (key : JsValue) :
    (acquireRunnerJobEvidence P storeId key).Complies P storeId fun _ ↦ True := by
  refine .lift_bind fun selected _ ↦ ?_
  refine .bind (complies_run trivial) fun _ _ ↦ ?_
  refine .bind (complies_observeTime _) fun _ _ ↦ ?_
  refine .bind (complies_inspectRunnerJob selected) fun snapshot hsnapshot ↦ ?_
  obtain ⟨row, hrow⟩ := hsnapshot
  refine .lift_bind fun _ _ ↦ ?_
  refine .bind (complies_acquireFrom _) fun result _ ↦ ?_
  refine .bind (complies_run trivial) fun _ _ ↦ ?_
  refine .bind (complies_observeTime _) fun _ _ ↦ ?_
  cases result with
  | error code => trivial
  | ok identity => exact complies_retainIdentity selected hrow identity

private theorem complies_acquireWithoutClient (key : JsValue) :
    (acquireWithoutClient P storeId key).Complies P storeId fun _ ↦ True := by
  refine .lift_bind fun selected _ ↦ ?_
  refine .bind (complies_run trivial) fun _ _ ↦ ?_
  refine .bind (complies_observeTime _) fun _ _ ↦ ?_
  refine .bind (complies_inspectRunnerJob selected) fun _ _ ↦ ?_
  refine .lift_bind fun _ _ ↦ ?_
  exact .ensure_bind fun _ ↦ trivial

/-! #### Preparation -/

private theorem complies_assertDisjointCustody (checkoutPath : JsString)
    (sourceDirectory : Option JsString) :
    (assertDisjointCustody checkoutPath sourceDirectory).Complies P storeId fun _ ↦ True := by
  cases sourceDirectory with
  | none => trivial
  | some directory =>
    refine .bind (complies_runOr (.overlapsCheckout _ _) trivial _) fun _ _ ↦ ?_
    exact .ensure fun _ ↦ trivial

private theorem complies_retryPreparation (existing : JobRecord) (input : PrepareJobInput)
    (source : PreviewSourceIdentity) :
    (retryPreparation P storeId existing input source).Complies P storeId fun _ ↦ True := by
  refine .lift_bind fun _ _ ↦ ?_
  refine .lift_bind fun _ _ ↦ ?_
  refine .lift_bind fun _ _ ↦ ?_
  refine .ensure_bind fun _ ↦ ?_
  exact .bind (complies_checkRunnerJobCurrent _) fun _ _ ↦ trivial

private theorem complies_firstPreparation (input : PrepareJobInput)
    (source : PreviewSourceIdentity) :
    (firstPreparation P storeId input source).Complies P storeId fun _ ↦ True := by
  refine .bind complies_currentTime fun _ _ ↦ ?_
  refine .lift_bind fun _ _ ↦ ?_
  refine .bind (complies_runOr .randomBytes trivial _) fun _ _ ↦ ?_
  refine .lift_bind fun _ _ ↦ ?_
  refine .lift_bind fun candidate hcandidate ↦ ?_
  obtain ⟨hstore, -⟩ := makePreparedRecord_eq_ok (jobOutcome_eq_ok.mp hcandidate)
  refine .bind (complies_checkRunnerJobCurrent _) fun _ _ ↦ ?_
  refine .lift_bind fun row hrow ↦ ?_
  have hvalid := validateStoredJob_eq_ok.mpr ⟨jobOutcome_eq_ok.mp hrow, hstore⟩
  refine .bind (complies_insert hvalid) fun _ _ ↦ ?_
  refine .lift_bind fun _ _ ↦ ?_
  refine .lift_bind fun _ _ ↦ ?_
  refine .lift_bind fun _ _ ↦ ?_
  refine .ensure_bind fun _ ↦ ?_
  exact .bind (complies_checkRunnerJobCurrent _) fun _ _ ↦ trivial

private theorem complies_prepareRunnerJobWithSource (value : JsValue) (maxSourceBytes : Option ℕ)
    (protectedSourceDirectory : Option JsString) :
    (prepareRunnerJobWithSource P storeId value maxSourceBytes
      protectedSourceDirectory).Complies P storeId fun _ ↦ True := by
  refine .lift_bind fun input _ ↦ ?_
  refine .bind complies_currentTime fun _ _ ↦ ?_
  refine .bind (complies_observeTime _) fun _ _ ↦ ?_
  refine .bind (complies_assertDisjointCustody _ _) fun _ _ ↦ ?_
  refine .bind (complies_runOr (.readCheckout _) trivial _) fun _ _ ↦ ?_
  refine .lift_bind fun found _ ↦ ?_
  refine .bind (complies_read _ _) fun previous _ ↦ ?_
  cases previous with
  | some row =>
    refine .lift_bind fun _ _ ↦ ?_
    exact .bind (complies_retryPreparation _ _ _) fun _ _ ↦ trivial
  | none => exact .bind (complies_firstPreparation _ _) fun _ _ ↦ trivial

private theorem complies_prepareRunnerJob (value : JsValue) :
    (prepareRunnerJob P storeId value).Complies P storeId fun _ ↦ True :=
  .bind (complies_prepareRunnerJobWithSource _ _ _) fun _ _ ↦ trivial

/-! #### Handoffs -/

private theorem complies_assertPrepared (record : JobRecord) :
    (assertPrepared storeId record).Complies P storeId fun _ ↦ True :=
  .bind (complies_checkRunnerJobCurrent _) fun _ _ ↦ .ensure fun _ ↦ trivial

private theorem complies_readRunnerJobHandoff (key : JsValue) :
    (readRunnerJobHandoff P storeId key).Complies P storeId fun _ ↦ True := by
  refine .lift_bind fun selected _ ↦ ?_
  refine .bind (complies_inspectRunnerJob selected) fun _ _ ↦ ?_
  refine .bind (complies_assertPrepared _) fun _ _ ↦ ?_
  refine .bind (complies_run trivial) fun _ _ ↦ ?_
  refine .lift_bind fun _ _ ↦ ?_
  refine .bind (complies_inspectRunnerJob selected) fun _ _ ↦ ?_
  refine .bind (complies_assertPrepared _) fun _ _ ↦ ?_
  refine .lift_bind fun _ _ ↦ ?_
  exact .ensure_bind fun _ ↦ trivial

private theorem complies_prepareRunnerJobHandoff (value : JsValue) (directory : JsString) :
    (prepareRunnerJobHandoff P storeId value directory).Complies P storeId fun _ ↦ True := by
  refine .bind (complies_prepareRunnerJobWithSource _ _ _) fun _ _ ↦ ?_
  refine .bind (complies_assertPrepared _) fun _ _ ↦ ?_
  refine .bind (complies_run trivial) fun _ _ ↦ ?_
  exact complies_readRunnerJobHandoff _

private theorem complies_openSession : (openSession P storeId).Complies P storeId fun _ ↦ True := by
  refine .bind complies_list fun _ _ ↦ ?_
  refine .lift_bind fun _ _ ↦ ?_
  exact .bind (complies_run trivial) fun _ _ ↦ complies_observeTime _

theorem Call.complies (call : Call) :
    (call.program P storeId).Complies P storeId fun _ ↦ True := by
  cases call with
  | «open» => exact .bind complies_openSession fun _ _ ↦ trivial
  | inspect key =>
    refine .lift_bind fun selected _ ↦ ?_
    exact .bind (complies_inspectRunnerJob selected) fun _ _ ↦ trivial
  | prepare input => exact .bind (complies_prepareRunnerJob _) fun _ _ ↦ trivial
  | prepareHandoff input directory =>
    exact .bind (complies_prepareRunnerJobHandoff _ _) fun _ _ ↦ trivial
  | readHandoff key => exact .bind (complies_readRunnerJobHandoff _) fun _ _ ↦ trivial
  | recordReviewedOutput key output completedAt =>
    exact .bind (complies_recordRunnerJobReview _ _ _) fun _ _ ↦ trivial
  | acquireEvidence key =>
    exact .bind (complies_acquireRunnerJobEvidence _) fun _ _ ↦ trivial
  | acquireWithoutClient key =>
    exact .bind (complies_acquireWithoutClient _) fun _ _ ↦ trivial

end Calls

/-! ### Runs -/

/-- Any number of calls of sessions on one new store, before their first step. -/
def begin {ι : Type} (P : Platform) (storeId : JsString) (calls : ι → Call) :
    Config Op (fun op ↦ Except Failure op.Answer) Failure Reply (Shared ι) ι :=
  .start ⟨initializeJobStore storeId, []⟩ fun i ↦ (calls i).program P storeId

section Runs

variable {ι : Type} [DecidableEq ι] {P : Platform} {storeId : JsString} {calls : ι → Call}

omit [DecidableEq ι] in
theorem consistent_initial (hstore : isUuid storeId = true) :
    Consistent P storeId (⟨initializeJobStore storeId, []⟩ : Shared ι) where
  opened := rfl
  uuid := hstore
  mark := rfl
  size := Nat.zero_le _
  rows _ hrow := absurd hrow List.not_mem_nil
  log _ he := absurd he List.not_mem_nil

omit [DecidableEq ι] in
/-- A program that complies moves the store along its discipline. -/
theorem Service.Complies.meets {α : Type} {returns : α → Prop} {p : Service α} {i : ι}
    (hp : p.Complies P storeId returns)
    (history : List (Event Op fun op ↦ Except Failure op.Answer)) (s : Shared ι) :
    Meets Step (jobDiscipline P storeId ι) i (fun h outcome s' ↦ Grows P storeId s s' ∧
      history <+: h ∧ ∀ a, outcome = .ok a → returns a) p history s :=
  Meets.of_only (hp.allow fun _ ↦ keeps_of_sanctioned) history s

/-- Along any run the store stays consistent and grows. -/
theorem Run.consistent (hstore : isUuid storeId = true)
    {c : Config Op (fun op ↦ Except Failure op.Answer) Failure Reply (Shared ι) ι}
    (hrun : Config.Run Step (begin P storeId calls) c) :
    Config.Orderly Step (jobDiscipline P storeId ι) (fun _ _ _ _ ↦ True) c :=
  (hrun.orderly (Config.orderly_start (consistent_initial hstore) fun i ↦
    ((calls i).complies.meets [] _).mono fun _ _ _ _ ↦ trivial)).1

end Runs

/-! ### A run -/

/-- The answers of a store that never fails, under a clock that stands still, when nothing else
answers. -/
def answers {ι : Type} (value : JsNumber) (s : Shared ι) (i : ι) :
    (op : Op) → Except Failure op.Answer × Shared ι
  | .custodyCheck => (.ok (), s)
  | .custodySync => (.ok (), s)
  | .metadata expectedStoreId => (storeOutcome (metadata s.db expectedStoreId), s)
  | .count => (storeOutcome (count s.db), s)
  | .listRows => (storeOutcome (rows s.db), s)
  | .readRow campaignId runId => (storeOutcome (Db.JobStore.readRow s.db campaignId runId), s)
  | .observe expectedStoreId now => settle (observeBody s expectedStoreId now)
  | .insert row => settle (insertBody s i row)
  | .compareAndSwap previous next => settle (swapBody s i previous next)
  | .wallNow => (.ok ⟨value, s.db.wallHighWater⟩, s)
  | _ => (.error (.fault .storeUnavailable), s)
where
  settle {α : Type} (body : Except Failure (Shared ι × α)) : Except Failure α × Shared ι :=
    match body with
    | .ok (after, a) => (.ok a, after)
    | .error e => (.error e, s)

private theorem transacts_settle {ι α : Type} (s : Shared ι)
    (body : Except Failure (Shared ι × α)) :
    Transacts s body (answers.settle s body).1 (answers.settle s body).2 := by
  cases body with
  | ok result => exact Or.inr ⟨result.2, rfl, Or.inl rfl⟩
  | error e => exact Or.inl ⟨rfl, Or.inr ⟨e, rfl, rfl⟩⟩

theorem step_answers {ι : Type} (value : JsNumber) (s : Shared ι) (i : ι) (op : Op) :
    Step s i op (answers value s i op).1 (answers value s i op).2 := by
  cases op with
  | observe | insert | compareAndSwap => exact transacts_settle s _
  | wallNow => exact ⟨value, rfl, Or.inl rfl⟩
  | custodyCheck | custodySync | metadata | count | listRows | readRow =>
    exact ⟨rfl, Or.inl rfl⟩
  | randomBytes | overlapsCheckout | readCheckout | acquireInitial | reacquire | readSource
    | putSource => exact ⟨rfl, Or.inr ⟨_, rfl⟩⟩

def sampleStoreId : JsString := js "123e4567-e89b-42d3-a456-426614174000"

/-- A platform whose hash functions tell nothing apart, without network addresses. -/
def samplePlatform : Platform where
  hashes := {
    sha1 := ⟨fun _ ↦ bigEndian 20 0, fun _ ↦ length_bigEndian _ _⟩
    sha256 := ⟨fun _ ↦ bigEndian 32 0, fun _ ↦ length_bigEndian _ _⟩ }
  isIP _ := 0
  urlHostname _ := none

/-- Two sessions that open one new store. -/
def sampleRun : Config Op (fun op ↦ Except Failure op.Answer) Failure Reply (Shared ℕ) ℕ :=
  (begin samplePlatform sampleStoreId fun _ ↦ .open).play (answers (.int 1000))
    (List.replicate 14 0 ++ List.replicate 14 1)

end ApiMigrator.App.RunnerJob
