import ApiMigrator.Foundation.Pattern
import Mathlib.Data.List.Pairwise
import Mathlib.Data.List.Sort

/-!
`runner-job-store-sqlite.ts`: the table of runner jobs and the mark of the latest wall-clock time,
with the bodies of its transactions. SQLite's primary key and unique column are part of the table,
so a table that repeats a key or a job id cannot be built.
-/

set_option autoImplicit false
set_option relaxedAutoImplicit false

namespace ApiMigrator.Db.JobStore

open Foundation.Text Foundation.Number Foundation.Outcome Foundation.Pattern

inductive StoreFailureCode
  | inputInvalid
  | jobConflict
  | clockRollback
  | storeUnsafe
  | storeMismatch
  | storeCorrupt
  | storeFull
  | storeUnavailable
  deriving DecidableEq

structure StoredJobRow where
  campaignId : JsString
  runId : JsString
  jobId : JsString
  revision : ℕ
  intentDigest : JsString
  recordDigest : JsString
  canonicalRecord : JsString
  deriving DecidableEq

/-- The checks of `validateRow`. Texts that pass come back from SQLite as they went in. -/
def StoredJobRow.isValid (row : StoredJobRow) : Bool :=
  isIdentifier row.campaignId && isIdentifier row.runId && isJobId row.jobId &&
    decide (row.revision ∈ [1, 2, 3]) && isDigestText row.intentDigest &&
    isDigestText row.recordDigest &&
    decide (1 ≤ byteLength row.canonicalRecord ∧ byteLength row.canonicalRecord ≤ 262144) &&
    isWellFormed row.canonicalRecord

def validateRow (row : StoredJobRow) (code : StoreFailureCode) :
    Except StoreFailureCode StoredJobRow := do
  reject (row.isValid = false) code
  return row

/-- The lengths that `count` bounds before any text is read. -/
def StoredJobRow.hasLengths (row : StoredJobRow) : Bool :=
  decide (1 ≤ byteLength row.campaignId ∧ byteLength row.campaignId ≤ 128 ∧
    1 ≤ byteLength row.runId ∧ byteLength row.runId ≤ 128 ∧ byteLength row.jobId = 75 ∧
    byteLength row.intentDigest = 71 ∧ byteLength row.recordDigest = 71 ∧
    1 ≤ byteLength row.canonicalRecord ∧ byteLength row.canonicalRecord ≤ 262144)

/-! ### The table -/

/-- Two rows have one primary key. -/
def StoredJobRow.SameKey (row row' : StoredJobRow) : Prop :=
  row.campaignId = row'.campaignId ∧ row.runId = row'.runId

instance (row row' : StoredJobRow) : Decidable (row.SameKey row') :=
  inferInstanceAs (Decidable (_ ∧ _))

/-- Two rows that the constraints admit beside each other. -/
def StoredJobRow.Apart (row row' : StoredJobRow) : Prop :=
  ¬ row.SameKey row' ∧ row.jobId ≠ row'.jobId

instance (row row' : StoredJobRow) : Decidable (row.Apart row') :=
  inferInstanceAs (Decidable (_ ∧ _))

theorem StoredJobRow.Apart.symm {row row' : StoredJobRow} (h : row.Apart row') :
    row'.Apart row :=
  ⟨fun hkey ↦ h.1 ⟨hkey.1.symm, hkey.2.symm⟩, h.2.symm⟩

/-- The table `runner_jobs`. -/
structure JobTable where
  rows : List StoredJobRow
  unique : rows.Pairwise StoredJobRow.Apart

namespace JobTable

def empty : JobTable := ⟨[], .nil⟩

/-- Rows with one key are one row. -/
theorem eq_of_sameKey (t : JobTable) {row row' : StoredJobRow} (hrow : row ∈ t.rows)
    (hrow' : row' ∈ t.rows) (hkey : row.SameKey row') : row = row' := by
  by_contra hne
  have : Std.Symm StoredJobRow.Apart := ⟨fun _ _ ↦ StoredJobRow.Apart.symm⟩
  exact (t.unique.forall hrow hrow' hne).1 hkey

def find (t : JobTable) (campaignId runId : JsString) : Option StoredJobRow :=
  t.rows.find? fun row ↦ decide (row.campaignId = campaignId ∧ row.runId = runId)

theorem find_eq_some {t : JobTable} {campaignId runId : JsString} {row : StoredJobRow} :
    t.find campaignId runId = some row ↔
      row ∈ t.rows ∧ row.campaignId = campaignId ∧ row.runId = runId := by
  constructor
  · intro h
    have hkey := List.find?_some h
    rw [decide_eq_true_eq] at hkey
    exact ⟨List.mem_of_find?_eq_some h, hkey⟩
  · rintro ⟨hrow, rfl, rfl⟩
    obtain ⟨row', hfound⟩ : ∃ row', t.find row.campaignId row.runId = some row' := by
      rw [← Option.isSome_iff_exists, find, List.find?_isSome]
      exact ⟨row, hrow, by simp⟩
    have hkey := List.find?_some hfound
    rw [decide_eq_true_eq] at hkey
    rw [hfound, t.eq_of_sameKey (List.mem_of_find?_eq_some hfound) hrow hkey]

theorem find_eq_none {t : JobTable} {campaignId runId : JsString} :
    t.find campaignId runId = none ↔
      ∀ row ∈ t.rows, ¬ (row.campaignId = campaignId ∧ row.runId = runId) := by
  simp [find]

/-- `INSERT INTO runner_jobs`. -/
def insert (t : JobTable) (row : StoredJobRow) : Except StoreFailureCode JobTable :=
  if hunique : ∀ row' ∈ t.rows, row'.Apart row then
    .ok {
      rows := t.rows ++ [row]
      unique := by
        refine List.pairwise_append.mpr ⟨t.unique, List.pairwise_singleton _ _, ?_⟩
        intro a ha b hb
        exact List.mem_singleton.mp hb ▸ hunique a ha }
  else .error .storeUnavailable

theorem insert_eq_ok {t t' : JobTable} {row : StoredJobRow} (h : t.insert row = .ok t') :
    t'.rows = t.rows ++ [row] := by
  unfold insert at h
  split_ifs at h
  cases h
  rfl

/-- The columns that `UPDATE` sets, on the row it names. -/
def replace (previous next row : StoredJobRow) : StoredJobRow :=
  if row = previous then
    { row with
      revision := next.revision
      recordDigest := next.recordDigest
      canonicalRecord := next.canonicalRecord }
  else row

theorem replace_keys (previous next row : StoredJobRow) :
    (replace previous next row).campaignId = row.campaignId ∧
      (replace previous next row).runId = row.runId ∧
      (replace previous next row).jobId = row.jobId := by
  unfold replace
  split_ifs <;> exact ⟨rfl, rfl, rfl⟩

/-- `UPDATE runner_jobs`. -/
def update (t : JobTable) (previous next : StoredJobRow) : JobTable where
  rows := t.rows.map (replace previous next)
  unique := by
    refine List.pairwise_map.mpr (t.unique.imp fun {row row'} h ↦ ?_)
    obtain ⟨hcampaign, hrun, hjob⟩ := replace_keys previous next row
    obtain ⟨hcampaign', hrun', hjob'⟩ := replace_keys previous next row'
    simpa only [StoredJobRow.Apart, StoredJobRow.SameKey, hcampaign, hrun, hjob, hcampaign', hrun',
      hjob'] using h

end JobTable

/-! ### Transactions -/

/-- The database of one initialised store. -/
structure JobDatabase where
  storeId : JsString
  wallHighWater : ℕ
  jobs : JobTable

def maxJobs : ℕ := 100

/-- The mark, read from the metadata of the expected store. -/
def metadata (db : JobDatabase) (expectedStoreId : JsString) : Except StoreFailureCode ℕ := do
  reject (isUuid db.storeId = false ∨ isSafe db.wallHighWater = false) .storeCorrupt
  reject (db.storeId ≠ expectedStoreId) .storeMismatch
  return db.wallHighWater

def count (db : JobDatabase) : Except StoreFailureCode ℕ := do
  reject (maxJobs < db.jobs.rows.length) .storeCorrupt
  reject (db.jobs.rows.any (fun row ↦ !row.hasLengths) = true) .storeCorrupt
  return db.jobs.rows.length

/-- `ORDER BY campaign_id, run_id`. The identifiers are ASCII, so the order of their bytes is that of
their code units. -/
def StoredJobRow.keyLe (row row' : StoredJobRow) : Prop :=
  row.campaignId < row'.campaignId ∨ row.campaignId = row'.campaignId ∧ row.runId ≤ row'.runId

instance : DecidableRel StoredJobRow.keyLe := fun _ _ ↦ inferInstanceAs (Decidable (_ ∨ _))

def rows (db : JobDatabase) : Except StoreFailureCode (List StoredJobRow) := do
  let _ ← count db
  mapEach (fun row ↦ validateRow row .storeCorrupt)
    (db.jobs.rows.insertionSort StoredJobRow.keyLe)

def readRow (db : JobDatabase) (campaignId runId : JsString) :
    Except StoreFailureCode (Option StoredJobRow) :=
  match db.jobs.find campaignId runId with
  | none => return none
  | some row => do
    let row ← validateRow row .storeCorrupt
    return some row

def observeTransaction (db : JobDatabase) (expectedStoreId : JsString) (now : ℕ) :
    Except StoreFailureCode JobDatabase := do
  let mark ← metadata db expectedStoreId
  reject (now < mark) .clockRollback
  return { db with wallHighWater := now }

/-- Returns whether it has inserted the row. -/
def insertTransaction (db : JobDatabase) (row : StoredJobRow) :
    Except StoreFailureCode (JobDatabase × Bool) := do
  let existing ← readRow db row.campaignId row.runId
  match existing with
  | some _ => return (db, false)
  | none => do
    reject (∃ row' ∈ db.jobs.rows, row'.jobId = row.jobId) .jobConflict
    let size ← count db
    reject (maxJobs ≤ size) .storeFull
    let jobs ← db.jobs.insert row
    return ({ db with jobs }, true)

/-- Returns whether it has replaced the row. -/
def compareAndSwapTransaction (db : JobDatabase) (previous next : StoredJobRow) :
    Except StoreFailureCode (JobDatabase × Bool) := do
  let existing ← readRow db previous.campaignId previous.runId
  reject (existing = none) .jobConflict
  if previous ∈ db.jobs.rows then return ({ db with jobs := db.jobs.update previous next }, true)
  else return (db, false)

theorem metadata_eq_ok {db : JobDatabase} {expectedStoreId : JsString} {mark : ℕ}
    (h : metadata db expectedStoreId = .ok mark) :
    mark = db.wallHighWater ∧ db.storeId = expectedStoreId := by
  simp only [metadata, bind_eq_ok, reject_eq_ok, exists_unit, pure_eq_ok, not_not] at h
  obtain ⟨-, hstore, rfl⟩ := h
  exact ⟨rfl, hstore⟩

theorem readRow_eq_some {db : JobDatabase} {campaignId runId : JsString} {row : StoredJobRow}
    (h : readRow db campaignId runId = .ok (some row)) :
    row ∈ db.jobs.rows ∧ row.campaignId = campaignId ∧ row.runId = runId := by
  unfold readRow at h
  split at h
  · cases h
  · rename_i row' hfound
    simp only [validateRow, bind_eq_ok, reject_eq_ok, exists_unit, pure_eq_ok,
      Option.some.injEq] at h
    obtain ⟨_, ⟨-, rfl⟩, rfl⟩ := h
    exact JobTable.find_eq_some.mp hfound

theorem observeTransaction_eq_ok {db db' : JobDatabase} {expectedStoreId : JsString} {now : ℕ}
    (h : observeTransaction db expectedStoreId now = .ok db') :
    db.wallHighWater ≤ now ∧ db' = { db with wallHighWater := now } := by
  simp only [observeTransaction, bind_eq_ok, reject_eq_ok, exists_unit, pure_eq_ok, not_lt] at h
  obtain ⟨mark, hmark, hle, rfl⟩ := h
  obtain ⟨rfl, -⟩ := metadata_eq_ok hmark
  exact ⟨hle, rfl⟩

/-- An insertion adds the row after fewer than the most rows, or finds its key taken. -/
theorem insertTransaction_eq_ok {db db' : JobDatabase} {row : StoredJobRow} {inserted : Bool}
    (h : insertTransaction db row = .ok (db', inserted)) :
    inserted = false ∧ db' = db ∧ (∃ row' ∈ db.jobs.rows, row'.SameKey row) ∨
      inserted = true ∧ ∃ jobs, db' = { db with jobs } ∧ jobs.rows = db.jobs.rows ++ [row] ∧
        db.jobs.rows.length < maxJobs := by
  simp only [insertTransaction, bind_eq_ok] at h
  obtain ⟨existing, hexisting, h⟩ := h
  cases existing with
  | some row' =>
    simp only [pure_eq_ok, Prod.mk.injEq] at h
    obtain ⟨rfl, rfl⟩ := h
    exact Or.inl ⟨rfl, rfl, row', readRow_eq_some hexisting⟩
  | none =>
    simp only [bind_eq_ok, reject_eq_ok, exists_unit, pure_eq_ok, Prod.mk.injEq, not_le] at h
    obtain ⟨-, size, hsize, hfull, jobs, hjobs, rfl, rfl⟩ := h
    simp only [count, bind_eq_ok, reject_eq_ok, exists_unit, pure_eq_ok] at hsize
    obtain ⟨-, -, rfl⟩ := hsize
    exact Or.inr ⟨rfl, jobs, rfl, JobTable.insert_eq_ok hjobs, hfull⟩

/-- A swap replaces exactly the row it was given, or finds it gone. -/
theorem compareAndSwapTransaction_eq_ok {db db' : JobDatabase} {previous next : StoredJobRow}
    {committed : Bool} (h : compareAndSwapTransaction db previous next = .ok (db', committed)) :
    committed = false ∧ db' = db ∧ previous ∉ db.jobs.rows ∨
      committed = true ∧ previous ∈ db.jobs.rows ∧
        db' = { db with jobs := db.jobs.update previous next } := by
  simp only [compareAndSwapTransaction, bind_eq_ok, reject_eq_ok, exists_unit] at h
  obtain ⟨existing, -, -, h⟩ := h
  split_ifs at h with hmem
  · simp only [pure_eq_ok, Prod.mk.injEq] at h
    obtain ⟨rfl, rfl⟩ := h
    exact Or.inr ⟨rfl, hmem, rfl⟩
  · simp only [pure_eq_ok, Prod.mk.injEq] at h
    obtain ⟨rfl, rfl⟩ := h
    exact Or.inl ⟨rfl, rfl, hmem⟩

/-- The argument of `observeTime` as the column stores it. -/
def observable (now : JsNumber) : Except StoreFailureCode ℕ := do
  let value ← orThrow (safeInteger now) .inputInvalid
  reject (value < 0) .inputInvalid
  return value.toNat

theorem observable_eq_ok {now : JsNumber} {n : ℕ} :
    observable now = .ok n ↔ safeInteger now = some (n : ℤ) := by
  simp only [observable, bind_eq_ok, orThrow_eq_ok, reject_eq_ok, exists_unit, pure_eq_ok, not_lt]
  constructor
  · rintro ⟨value, hvalue, hnonneg, rfl⟩
    rw [hvalue, Int.toNat_of_nonneg hnonneg]
  · intro h
    exact ⟨n, h, Int.natCast_nonneg n, Int.toNat_natCast n⟩

/-- A new store under its fresh id. -/
def initializeJobStore (storeId : JsString) : JobDatabase := ⟨storeId, 0, .empty⟩

end ApiMigrator.Db.JobStore
