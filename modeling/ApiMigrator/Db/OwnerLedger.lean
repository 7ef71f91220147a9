import ApiMigrator.Db.OwnerAuthorization
import ApiMigrator.Foundation.Interaction

/-!
`client.ts`: the owner-authorization ledger inside the campaign database. The ledger table carries
the constraints SQLite enforces on it, so a table that repeats a replay key cannot be built.
Consuming an authorization, migrating and resetting are the operations of the processes that share
the database: each of their transactions is one atomic step, which may fail before it commits or
after.
-/

set_option autoImplicit false
set_option relaxedAutoImplicit false

namespace ApiMigrator.Db

open Foundation.Text Foundation.Number Foundation.Json Foundation.Outcome Foundation.Pattern
open Foundation.Interaction

/-! ### The ledger table -/

/-- Text as SQLite gives it back: stored as UTF-8. -/
def sqlText (s : JsString) : JsString := utf8Decode (utf8Encode s)

/-- `length` of a text: its characters up to the first NUL. -/
def sqlLength (s : JsString) : ℕ :=
  ((s.takeWhile fun c ↦ c ≠ 0).filter fun c ↦ !isLowSurrogate c).length

/-- `NOT GLOB '*[^0-9a-f]*'` together with a length. -/
def isSqlHex (lengths : List ℕ) (s : JsString) : Bool :=
  decide (sqlLength s ∈ lengths) && s.all isLowerHex

def isSqlLength (low high : ℕ) (s : JsString) : Bool :=
  decide (low ≤ sqlLength s ∧ sqlLength s ≤ high)

/-- The `CHECK` constraints of `owner_authorization_consumptions`. -/
def Consumption.satisfiesChecks (r : Consumption) : Bool :=
  isSqlLength 1 128 r.authorizationId && isSqlLength 1 128 r.envelopeId &&
  isSqlHex [64] r.envelopeDigest && isSqlHex [64] r.nonceDigest &&
  isSqlLength 1 128 r.signerId && isSqlLength 1 128 r.keyId &&
  isSqlLength 3 140 r.repositorySlug && decide (0 < r.repositoryId) &&
  isSqlHex [40, 64] r.baseSha &&
  (decide (sqlLength r.preflightId = 67) && startsWith r.preflightId "pf_" &&
    (r.preflightId.drop 3).all isLowerHex) &&
  isSqlHex [64] r.artifactDigest && isSqlHex [64] r.manifestDigest &&
  isSqlLength 1 240 r.candidateBranch && isSqlHex [40, 64] r.candidateTreeSha &&
  decide (0 < r.consumedAt ∧ r.consumedAt < r.expiresAt)

theorem consumedAt_of_satisfiesChecks {r : Consumption} (h : r.satisfiesChecks = true) :
    0 < r.consumedAt ∧ r.consumedAt < r.expiresAt := by
  rw [Consumption.satisfiesChecks, Bool.and_eq_true, decide_eq_true_eq] at h
  exact h.2

/-- Two rows agree on one of the columns that are `UNIQUE` or the primary key. -/
def LedgerInsert.SharesKey (r r' : LedgerInsert) : Prop :=
  r.authorizationId = r'.authorizationId ∨ r.envelopeId = r'.envelopeId ∨
    r.envelopeDigest = r'.envelopeDigest ∨ r.nonceDigest = r'.nonceDigest

instance (r r' : LedgerInsert) : Decidable (r.SharesKey r') :=
  inferInstanceAs (Decidable (_ ∨ _ ∨ _ ∨ _))

theorem LedgerInsert.SharesKey.symm {r r' : LedgerInsert} (h : r.SharesKey r') :
    r'.SharesKey r := by
  rcases h with h | h | h | h
  · exact Or.inl h.symm
  · exact Or.inr (Or.inl h.symm)
  · exact Or.inr (Or.inr (Or.inl h.symm))
  · exact Or.inr (Or.inr (Or.inr h.symm))

/-- Two rows that the constraints admit beside each other. -/
def Consumption.Apart (r r' : Consumption) : Prop := ¬ r.SharesKey r'.toLedgerInsert

instance (r r' : Consumption) : Decidable (r.Apart r') := inferInstanceAs (Decidable (¬ _))

instance : Std.Symm Consumption.Apart := ⟨fun _ _ h h' ↦ h h'.symm⟩

/-- A table with the declared columns and constraints, which its rows satisfy. -/
structure LedgerTable where
  rows : List Consumption
  checked : ∀ r ∈ rows, r.satisfiesChecks = true
  unique : rows.Pairwise Consumption.Apart

namespace LedgerTable

def empty : LedgerTable := ⟨[], by simp, .nil⟩

/-- `INSERT INTO owner_authorization_consumptions`. -/
def insert (t : LedgerTable) (r : Consumption) : Except String LedgerTable :=
  if hchecks : r.satisfiesChecks = true then
    if hunique : ∀ r' ∈ t.rows, r'.Apart r then
      .ok {
        rows := t.rows ++ [r]
        checked := by
          intro r' hr'
          rcases List.mem_append.mp hr' with hr' | hr'
          · exact t.checked r' hr'
          · exact List.mem_singleton.mp hr' ▸ hchecks
        unique := by
          refine List.pairwise_append.mpr ⟨t.unique, List.pairwise_singleton _ _, ?_⟩
          intro a ha b hb
          exact List.mem_singleton.mp hb ▸ hunique a ha }
    else .error "UNIQUE constraint failed"
  else .error "CHECK constraint failed"

/-- A row that shares a key with a stored row is that row. -/
theorem eq_of_sharesKey (t : LedgerTable) {r r' : Consumption} (hr : r ∈ t.rows)
    (hr' : r' ∈ t.rows) (hkey : r.SharesKey r'.toLedgerInsert) : r = r' := by
  by_contra hne
  exact t.unique.forall hr hr' hne hkey

theorem insert_eq_ok {t t' : LedgerTable} {r : Consumption} (h : t.insert r = .ok t') :
    t'.rows = t.rows ++ [r] ∧ (∀ r' ∈ t.rows, r'.Apart r) := by
  unfold insert at h
  split_ifs at h with hchecks hunique
  cases h
  exact ⟨rfl, hunique⟩

/-- The row found by its primary key is the row that has it. -/
theorem find?_of_mem (t : LedgerTable) {r : Consumption} (hr : r ∈ t.rows) :
    t.rows.find? (fun r' ↦ r'.authorizationId = r.authorizationId) = some r := by
  obtain ⟨r', hfound⟩ : ∃ r', t.rows.find? (fun r' ↦ r'.authorizationId = r.authorizationId) =
      some r' := by
    rw [← Option.isSome_iff_exists, List.find?_isSome]
    exact ⟨r, hr, by simp⟩
  have hkey : r'.authorizationId = r.authorizationId := by
    simpa using List.find?_some hfound
  rw [hfound, t.eq_of_sharesKey (List.mem_of_find?_eq_some hfound) hr (Or.inl hkey)]

end LedgerTable

/-! ### The database -/

/-- A table or index of the schema: absent, there as declared, or there under another definition. -/
inductive SchemaObject (α : Type)
  | missing
  | exact (content : α)
  | altered (rows : List Consumption)

/-- A campaign table. A row lists the values of the columns. -/
structure CampaignTable where
  columns : List String
  rows : List (List JsValue)

/-- What the database file holds, as far as the ledger, migration and reset look at it. -/
structure Database where
  userVersion : ℤ
  ledger : SchemaObject LedgerTable
  storeIdentity : SchemaObject Unit
  triggers : List JsString
  repositoryIndex : SchemaObject Unit
  preflightIndex : SchemaObject Unit
  providers : Option CampaignTable
  campaigns : Option CampaignTable
  repos : Option CampaignTable
  migrationRuns : Option CampaignTable

/-- The rows of the ledger table, whatever its definition. -/
def Database.ledgerRows (db : Database) : List Consumption :=
  match db.ledger with
  | .missing => []
  | .exact table => table.rows
  | .altered rows => rows

def schemaVersion : ℤ := 5

/-- The parts of `verifyOwnerAuthorizationSchema`, each a query of its own. -/
inductive SchemaCheck
  | ledgerTable
  | storeIdentityTable
  | noTriggers
  | uniqueColumns
  | repositoryIndex
  | preflightIndex
  deriving DecidableEq

def SchemaCheck.all : List SchemaCheck :=
  [.ledgerTable, .storeIdentityTable, .noTriggers, .uniqueColumns, .repositoryIndex,
    .preflightIndex]

def SchemaObject.isExact {α : Type} : SchemaObject α → Bool
  | .exact _ => true
  | _ => false

/-- Only a ledger table with its declared definition has the four unique columns. -/
def SchemaCheck.run (db : Database) : SchemaCheck → Except String Unit
  | .ledgerTable => reject (db.ledger.isExact = false)
      "owner authorization replay schema is missing or invalid"
  | .storeIdentityTable => reject (db.storeIdentity.isExact = false)
      "owner authorization store identity schema is missing or invalid"
  | .noTriggers => reject (db.triggers ≠ [])
      "owner authorization database must not contain triggers"
  | .uniqueColumns => reject (db.ledger.isExact = false)
      "owner authorization replay uniqueness constraints are missing"
  | .repositoryIndex => reject (db.repositoryIndex.isExact = false)
      "owner authorization replay index owner_authorization_consumptions_repository_idx is missing or invalid"
  | .preflightIndex => reject (db.preflightIndex.isExact = false)
      "owner authorization replay index owner_authorization_consumptions_preflight_idx is missing or invalid"

def verifyOwnerAuthorizationSchema (db : Database) : Except String Unit :=
  forEach (SchemaCheck.run db) SchemaCheck.all

def assertSupportedSchemaVersion (db : Database) : Except String ℤ := do
  reject (db.userVersion < 0) "database schema version is invalid"
  reject (schemaVersion < db.userVersion)
    s!"database schema version {db.userVersion} is newer than supported version {schemaVersion}"
  return db.userVersion

/-- `CREATE ... IF NOT EXISTS`. -/
def SchemaObject.created {α : Type} (o : SchemaObject α) (fresh : α) : SchemaObject α :=
  match o with
  | .missing => .exact fresh
  | o => o

def created (t : Option CampaignTable) (columns : List String) : CampaignTable :=
  t.getD ⟨columns, []⟩

def providerColumns : List String := ["id", "name", "slug", "created_at"]

def campaignColumns : List String :=
  ["id", "provider_id", "name", "manifest", "status", "created_at"]

def repoColumns : List String := ["id", "slug", "default_branch", "installation_id", "created_at"]

def migrationRunColumns : List String :=
  ["id", "campaign_id", "repo_id", "status", "branch", "pr_url", "summary", "report", "error",
    "publication_mode", "preflight_id", "artifact_digest", "base_sha", "base_branch", "head_sha",
    "publication_blockers", "approved_by", "override_unsafe", "override_reason", "started_at",
    "finished_at"]

/-- `ALTER TABLE ... ADD COLUMN`, with the value it gives to the rows that exist. -/
def CampaignTable.addColumn (t : CampaignTable) (name : String) (value : JsValue) :
    CampaignTable :=
  if name ∈ t.columns then t else ⟨t.columns ++ [name], t.rows.map (· ++ [value])⟩

def ensurePilotAuditColumns (t : CampaignTable) : CampaignTable :=
  [("publication_mode", JsValue.null), ("preflight_id", .null), ("artifact_digest", .null),
    ("base_sha", .null), ("base_branch", .null), ("head_sha", .null),
    ("publication_blockers", .null), ("approved_by", .null), ("override_unsafe", .num (.int 0)),
    ("override_reason", .null)].foldl (fun t column ↦ t.addColumn column.1 column.2) t

def applySchema (db : Database) : Except String Database := do
  let db := { db with
    providers := some (created db.providers providerColumns)
    campaigns := some (created db.campaigns campaignColumns)
    repos := some (created db.repos repoColumns)
    migrationRuns := some (ensurePilotAuditColumns (created db.migrationRuns migrationRunColumns))
    ledger := db.ledger.created .empty
    storeIdentity := db.storeIdentity.created ()
    repositoryIndex := db.repositoryIndex.created ()
    preflightIndex := db.preflightIndex.created () }
  verifyOwnerAuthorizationSchema db
  return { db with userVersion := schemaVersion }

/-- The transaction of `migrate`. -/
def migrateTransaction (db : Database) : Except String Database := do
  let currentVersion ← assertSupportedSchemaVersion db
  if currentVersion = schemaVersion then verifyOwnerAuthorizationSchema db
  applySchema db

/-- The transaction of `resetDb`. -/
def resetTransaction (db : Database) : Except String Database :=
  applySchema { db with providers := none, campaigns := none, repos := none, migrationRuns := none }

/-! ### Consuming an authorization -/

/-- What the SQLite clock answered, when it is a legal timestamp. -/
def sqliteEpochMilliseconds (reading : JsNumber) : Except String ℤ := do
  let now ← orThrow (safeInteger reading) "SQLite returned an invalid authorization timestamp"
  reject (now ≤ 0) "SQLite returned an invalid authorization timestamp"
  return now

/-- The row as the columns store it. -/
def Consumption.stored (r : Consumption) : Consumption := {
  authorizationId := sqlText r.authorizationId
  envelopeId := sqlText r.envelopeId
  envelopeDigest := sqlText r.envelopeDigest
  nonceDigest := sqlText r.nonceDigest
  signerId := sqlText r.signerId
  keyId := sqlText r.keyId
  repositorySlug := sqlText r.repositorySlug
  repositoryId := r.repositoryId
  baseSha := sqlText r.baseSha
  preflightId := sqlText r.preflightId
  artifactDigest := sqlText r.artifactDigest
  manifestDigest := sqlText r.manifestDigest
  candidateBranch := sqlText r.candidateBranch
  candidateTreeSha := sqlText r.candidateTreeSha
  expiresAt := r.expiresAt
  consumedAt := r.consumedAt }

def Database.insertConsumption (db : Database) (r : Consumption) : Except String Database :=
  match db.ledger with
  | .exact table => do
    let table ← table.insert r.stored
    return { db with ledger := .exact table }
  | _ => throw "no such table: owner_authorization_consumptions"

def readOwnerAuthorizationConsumption (db : Database) (authorizationId : JsString) :
    Option Consumption :=
  db.ledgerRows.find? fun r ↦ r.authorizationId = sqlText authorizationId

def assertExactConsumption (stored : Option Consumption) (expected : Consumption) :
    Except String Unit :=
  match stored with
  | none => throw "owner authorization consumption readback is missing"
  | some stored =>
    reject (stored ≠ expected) "owner authorization consumption readback does not match"

structure LedgerResult where
  stored : Consumption
  expiredAfterInsert : Bool

/-- The transaction of `persistOwnerAuthorizationConsumption`, with the two readings of its clock.
The store-identity check between the first two lines is taken to pass. -/
def consumeTransaction (db : Database) (input : LedgerInsert) (first second : JsNumber) :
    Except String (Database × LedgerResult) := do
  verifyOwnerAuthorizationSchema db
  let consumedAt ← sqliteEpochMilliseconds first
  reject (input.expiresAt ≤ consumedAt) "owner authorization is expired"
  let expected : Consumption := { input with consumedAt }
  let db ← db.insertConsumption expected
  assertExactConsumption (readOwnerAuthorizationConsumption db input.authorizationId) expected
  let now ← sqliteEpochMilliseconds second
  return (db, { stored := expected, expiredAfterInsert := decide (input.expiresAt ≤ now) })

/-! ### The processes -/

/-- What a process does to the database, one atomic step each. -/
inductive Op
  | getDb
  | consume (input : LedgerInsert)
  | syncDurableDatabaseFile
  | inspect (check : SchemaCheck)
  | assertInitializedStore
  | readConsumption (authorizationId : JsString)
  | sqliteClock
  | migrate
  | reset

/-- What the step returns when it does not throw. -/
def Op.Answer : Op → Type
  | .consume _ => LedgerResult
  | .readConsumption _ => Option Consumption
  | .sqliteClock => ℤ
  | _ => Unit

/-- What a call returns. -/
inductive Reply
  | consumed (stored : Consumption)
  | finished

abbrev Process := Prog Op (fun op ↦ Except String op.Answer) String

abbrev run (op : Op) : Process op.Answer := Prog.attempt op

def inspectAll : List SchemaCheck → Process Unit
  | [] => pure ()
  | check :: checks => do
    run (.inspect check)
    inspectAll checks

/-- What `persistOwnerAuthorizationConsumption` does once its transaction has committed. -/
def persistAfterCommit (input : LedgerInsert) (result : LedgerResult) : Process LedgerResult := do
  run .syncDurableDatabaseFile
  inspectAll SchemaCheck.all
  run .assertInitializedStore
  let stored : Option Consumption ← run (.readConsumption input.authorizationId)
  Prog.lift (assertExactConsumption stored result.stored)
  if result.expiredAfterInsert then return result
  let now : ℤ ← run .sqliteClock
  return { result with expiredAfterInsert := decide (input.expiresAt ≤ now) }

def persistOwnerAuthorizationConsumption (input : LedgerInsert) : Process LedgerResult := do
  let result : LedgerResult ← run (.consume input)
  persistAfterCommit input result

def consumptionRejected : String := "owner authorization already consumed or unavailable"

/-- The `try` block of `consumeOwnerAuthorization`. -/
def reserve (value : LedgerInsert) : Process Reply := do
  run .getDb
  let result ← persistOwnerAuthorizationConsumption value
  Prog.ensure (result.expiredAfterInsert = false) consumptionRejected
  return .consumed result.stored

def consumeOwnerAuthorization (input : OwnerAuthorizationConsumptionInput) : Process Reply := do
  let value ← Prog.lift (auditConsumption input)
  (reserve value).recover fun _ ↦ throw consumptionRejected

def migrate : Process Reply := do
  run .migrate
  return .finished

def resetDb : Process Reply := do
  run .reset
  return .finished

/-- A call some process makes. -/
inductive Call
  | consumeOwnerAuthorization (input : OwnerAuthorizationConsumptionInput)
  | migrate
  | resetDb

def Call.program : Call → Process Reply
  | .consumeOwnerAuthorization input => Db.consumeOwnerAuthorization input
  | .migrate => Db.migrate
  | .resetDb => Db.resetDb

end ApiMigrator.Db
