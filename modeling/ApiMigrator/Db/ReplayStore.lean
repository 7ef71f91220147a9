import ApiMigrator.Db.OwnerLedger
import ApiMigrator.Foundation.Guarded
import ApiMigrator.Foundation.CanonicalForm
import ApiMigrator.Foundation.Binary

/-!
`client.ts`: the identity of the replay store. A database file becomes the replay store when an
anchor file outside its directory is created exclusively and a row that names both is committed to
it; every later use compares that row and the anchor with the live metadata of both files.
-/

set_option autoImplicit false
set_option relaxedAutoImplicit false

namespace ApiMigrator.Db.ReplayStore

open Foundation.Text Foundation.Number Foundation.Json Foundation.Outcome Foundation.Pattern
open Foundation.Binary Foundation.Interaction

/-! ### Files -/

/-- What tells the files of a machine apart. -/
structure FileId where
  device : ℕ
  inode : ℕ
  deriving DecidableEq

/-- What `stat` reports of a file or directory. -/
structure FileStats where
  id : FileId
  isFile : Bool
  isDirectory : Bool
  nlink : ℕ
  uid : ℕ
  mode : ℕ
  size : ℕ

structure DurableFileIdentity where
  databasePath : JsString
  device : JsString
  inode : JsString
  linkCount : ℕ
  deriving DecidableEq

/-- An open connection: the file it reads and writes, and where that file was when it was opened.
An in-memory database has no file identity. -/
structure Connection where
  handle : FileId
  databasePath : JsString
  fileBacked : Bool
  deriving DecidableEq

/-- `_openFileIdentity`: a file that is not alone under its name is refused when it is opened. -/
def Connection.openFileIdentity (conn : Connection) : Option DurableFileIdentity :=
  if conn.fileBacked then
    some {
      databasePath := conn.databasePath
      device := decimalDigits conn.handle.device
      inode := decimalDigits conn.handle.inode
      linkCount := 1 }
  else none

/-- The environment of the processes: its variables, the user, and the hash function. -/
structure Environment where
  storeId : Option JsString
  anchorPath : Option JsString
  uid : Option ℕ
  sha256 : HashFunction 32

/-- The file belongs to another user than the process. -/
def Environment.isForeign (env : Environment) (stats : FileStats) : Prop :=
  ∃ uid ∈ env.uid, stats.uid ≠ uid

instance (env : Environment) (stats : FileStats) : Decidable (env.isForeign stats) :=
  inferInstanceAs (Decidable (∃ uid ∈ env.uid, stats.uid ≠ uid))

/-! ### The anchor document -/

structure ReplayAnchorDocument where
  storeId : JsString
  databasePath : JsString
  databaseDevice : JsString
  databaseInode : JsString
  initializedAt : ℤ
  nonce : JsString
  deriving DecidableEq

structure DurableReplayAnchor where
  anchorPath : JsString
  anchorDevice : JsString
  anchorInode : JsString
  anchorDigest : JsString
  document : ReplayAnchorDocument

def maxReplayAnchorBytes : ℕ := 8192

/-- `^[A-Za-z0-9][A-Za-z0-9._:@+-]{15,127}$` -/
def isReplayStoreId : JsString → Bool
  | [] => false
  | c :: rest => isAlphanumeric c && decide (15 ≤ rest.length ∧ rest.length ≤ 127) &&
    rest.all (isAlphanumericOr "._:@+-")

def ReplayAnchorDocument.json (document : ReplayAnchorDocument) : JsValue :=
  .obj [
    (js "version", .num (.int 1)),
    (js "storeId", .str document.storeId),
    (js "databasePath", .str document.databasePath),
    (js "databaseDevice", .str document.databaseDevice),
    (js "databaseInode", .str document.databaseInode),
    (js "initializedAt", .num (.int document.initializedAt)),
    (js "nonce", .str document.nonce)]

/-- `JSON.stringify(document)` and a line feed. -/
def ReplayAnchorDocument.bytes (document : ReplayAnchorDocument) : Bytes :=
  utf8Encode (compactText document.json ++ [0x0a])

def isAbsolute (path : JsString) : Bool := startsWith path "/"

def decimalIdentity (s : JsString) : Bool :=
  decide (1 ≤ s.length ∧ s.length ≤ 32) && s.all isDigit

def invalidDocument : String := "owner authorization anchor document is invalid"

def anchorKeys : List String :=
  ["databaseDevice", "databaseInode", "databasePath", "initializedAt", "nonce", "storeId",
    "version"]

/-- A member that must be a string. -/
def stringMember (ms : List Member) (key : String) : Except String JsString :=
  match getMember ms (js key) with
  | .str s => return s
  | _ => throw invalidDocument

/-- A member that must be a number. -/
def numberMember (ms : List Member) (key : String) : Except String JsNumber :=
  match getMember ms (js key) with
  | .num n => return n
  | _ => throw invalidDocument

def parseReplayAnchorDocument (value : JsValue) : Except String ReplayAnchorDocument :=
  match value with
  | .obj ms => do
    reject ((sortByKey ms).map Prod.fst ≠ anchorKeys.map js) invalidDocument
    let version ← numberMember ms "version"
    reject (version ≠ .int 1) invalidDocument
    let storeId ← stringMember ms "storeId"
    reject (isReplayStoreId storeId = false) invalidDocument
    let databasePath ← stringMember ms "databasePath"
    reject (isAbsolute databasePath = false) invalidDocument
    let databaseDevice ← stringMember ms "databaseDevice"
    reject (decimalIdentity databaseDevice = false) invalidDocument
    let databaseInode ← stringMember ms "databaseInode"
    reject (decimalIdentity databaseInode = false) invalidDocument
    let reading ← numberMember ms "initializedAt"
    let initializedAt ← orThrow (safeInteger reading) invalidDocument
    reject (initializedAt ≤ 0) invalidDocument
    let nonce ← stringMember ms "nonce"
    reject (isHexOfLength 64 nonce = false) invalidDocument
    return { storeId, databasePath, databaseDevice, databaseInode, initializedAt, nonce }
  | _ => throw invalidDocument

/-- The document that the bytes of an anchor file hold. -/
def documentOf (bytes : Bytes) : Except String ReplayAnchorDocument := do
  reject (bytes.length < 1 ∨ maxReplayAnchorBytes < bytes.length) invalidDocument
  let value ← orThrow (jsonParse (utf8Decode bytes)) invalidDocument
  parseReplayAnchorDocument value

/-! ### The store identity -/

/-- `OwnerAuthorizationStoreIdentity`: the row of `owner_authorization_store_identity`. -/
structure StoreIdentity where
  singleton : ℤ
  storeId : JsString
  databasePath : JsString
  device : JsString
  inode : JsString
  linkCount : ℕ
  anchorPath : JsString
  anchorDevice : JsString
  anchorInode : JsString
  anchorDigest : JsString
  initializedAt : ℤ
  deriving DecidableEq

/-- `NOT GLOB '*[^0-9]*'` together with a length. -/
def isSqlDecimal (s : JsString) : Bool := isSqlLength 1 32 s && s.all isDigit

/-- The `CHECK` constraints of `owner_authorization_store_identity`. -/
def StoreIdentity.satisfiesChecks (row : StoreIdentity) : Bool :=
  decide (row.singleton = 1) && isSqlLength 16 128 row.storeId &&
  isSqlLength 1 4096 row.databasePath && isSqlDecimal row.device && isSqlDecimal row.inode &&
  decide (0 < row.linkCount) && isSqlLength 1 4096 row.anchorPath &&
  isSqlDecimal row.anchorDevice && isSqlDecimal row.anchorInode &&
  isSqlHex [64] row.anchorDigest && decide (0 < row.initializedAt)

/-- The row as the columns store it. -/
def StoreIdentity.stored (row : StoreIdentity) : StoreIdentity := {
  singleton := row.singleton
  storeId := sqlText row.storeId
  databasePath := sqlText row.databasePath
  device := sqlText row.device
  inode := sqlText row.inode
  linkCount := row.linkCount
  anchorPath := sqlText row.anchorPath
  anchorDevice := sqlText row.anchorDevice
  anchorInode := sqlText row.anchorInode
  anchorDigest := sqlText row.anchorDigest
  initializedAt := row.initializedAt }

/-- What a database file holds: the database, and the row of its identity table. -/
structure Contents where
  database : Database
  storeIdentity : Option StoreIdentity

/-- `INSERT INTO owner_authorization_store_identity`. -/
def Contents.insertStoreIdentity (contents : Contents) (row : StoreIdentity) :
    Except String Contents := do
  reject (contents.storeIdentity.isSome = true) "UNIQUE constraint failed"
  reject (row.stored.satisfiesChecks = false) "CHECK constraint failed"
  return { contents with storeIdentity := some row.stored }

def assertExactStoreIdentity (stored : StoreIdentity) (storeId : JsString)
    (file : DurableFileIdentity) (anchor : DurableReplayAnchor) (initializedAt : ℤ) :
    Except String Unit :=
  reject (
    stored.singleton ≠ 1 ∨
    stored.storeId ≠ storeId ∨
    stored.databasePath ≠ file.databasePath ∨
    stored.device ≠ file.device ∨
    stored.inode ≠ file.inode ∨
    stored.linkCount ≠ file.linkCount ∨
    stored.anchorPath ≠ anchor.anchorPath ∨
    stored.anchorDevice ≠ anchor.anchorDevice ∨
    stored.anchorInode ≠ anchor.anchorInode ∨
    stored.anchorDigest ≠ anchor.anchorDigest ∨
    anchor.document.storeId ≠ storeId ∨
    anchor.document.databasePath ≠ file.databasePath ∨
    anchor.document.databaseDevice ≠ file.device ∨
    anchor.document.databaseInode ≠ file.inode ∨
    anchor.document.initializedAt ≠ initializedAt ∨
    stored.initializedAt ≠ initializedAt)
    "owner authorization store identity does not match the initialized file"

/-! ### Operations -/

structure DatabaseStats where
  databasePath : JsString
  file : FileStats
  directory : FileStats

structure DirectoryStats where
  path : JsString
  stats : FileStats

structure DurabilitySettings where
  journalMode : JsString
  synchronous : ℤ
  fullfsync : ℤ

/-- What a process does to the files, one atomic step each. -/
inductive Op
  | getDb
  | begin (conn : Connection)
  | rollback (conn : Connection)
  | commit (conn : Connection) (contents : Contents)
  | read (conn : Connection)
  | sqliteClock
  | pragmas (conn : Connection)
  | statDatabase (conn : Connection)
  | openDatabase (path : JsString)
  | sync
  | statAnchorDirectory
  | lstatAnchor
  | openAnchor
  | readAnchor
  | createAnchor
  | writeAnchor (bytes : Bytes)
  | randomBytes

/-- What the step returns when it does not throw. -/
def Op.Answer : Op → Type
  | .getDb => Connection
  | .begin _ | .read _ => Contents
  | .sqliteClock => JsNumber
  | .pragmas _ => DurabilitySettings
  | .statDatabase _ => DatabaseStats
  | .openDatabase _ | .lstatAnchor | .openAnchor => FileStats
  | .statAnchorDirectory => DirectoryStats
  | .readAnchor | .randomBytes => Bytes
  | _ => Unit

/-- What a call returns. -/
inductive Reply
  | initialized (stored : StoreIdentity)
  | consumed (stored : Consumption)

abbrev Process := Prog Op (fun op ↦ Except String op.Answer) String

abbrev run (op : Op) : Process op.Answer := Prog.attempt op

abbrev Trace := List (Event Op fun op ↦ Except String op.Answer)

/-! ### The database file -/

/-- `readDurableFileIdentity`. -/
def readDurableFileIdentity (env : Environment) (conn : Connection) :
    Process DurableFileIdentity := do
  Prog.ensure (conn.fileBacked = true) "owner authorization requires a file-backed database"
  let stats : DatabaseStats ← run (.statDatabase conn)
  Prog.ensure (¬ (
    stats.file.isFile = false ∨ stats.file.nlink ≠ 1 ∨ env.isForeign stats.file ∨
    stats.file.mode &&& 0o022 ≠ 0 ∨ stats.file.mode &&& 0o600 ≠ 0o600 ∨
    stats.directory.isDirectory = false ∨ env.isForeign stats.directory ∨
    stats.directory.mode &&& 0o022 ≠ 0 ∨ stats.directory.mode &&& 0o700 ≠ 0o700))
    "owner authorization database and directory must be owner-controlled"
  return {
    databasePath := stats.databasePath
    device := decimalDigits stats.file.id.device
    inode := decimalDigits stats.file.id.inode
    linkCount := stats.file.nlink }

def assertStableOpenFileIdentity (env : Environment) (conn : Connection) :
    Process DurableFileIdentity := do
  Prog.ensure (conn.openFileIdentity.isSome = true)
    "owner authorization requires an initialized file-backed database"
  let current ← readDurableFileIdentity env conn
  Prog.ensure (conn.openFileIdentity = some current)
    "owner authorization database file identity changed after open"
  return current

def settingsChanged : String := "owner authorization database durability settings changed"

def syncDurableDatabaseFile (env : Environment) (conn : Connection) :
    Process DurableFileIdentity := do
  let settings : DurabilitySettings ← run (.pragmas conn)
  Prog.ensure (settings.journalMode = js "delete" ∧ settings.synchronous = 2 ∧
    settings.fullfsync = 1) settingsChanged
  let file ← assertStableOpenFileIdentity env conn
  let opened : FileStats ← run (.openDatabase file.databasePath)
  Prog.ensure (opened.isFile = true ∧ decimalDigits opened.id.device = file.device ∧
    decimalDigits opened.id.inode = file.inode ∧ opened.nlink = file.linkCount)
    "owner authorization database changed before durable sync"
  run .sync
  run .sync
  assertStableOpenFileIdentity env conn

/-! ### The anchor file -/

def configuredReplayStoreId (env : Environment) : Except String JsString :=
  match env.storeId with
  | some value => do
    reject (isReplayStoreId value = false)
      "API_MIGRATOR_REPLAY_STORE_ID must be a 16-128 character stable identifier"
    return value
  | none => throw "API_MIGRATOR_REPLAY_STORE_ID must be a 16-128 character stable identifier"

/-- The names along a path. -/
def pathNames (path : JsString) : List JsString := (splitSlash path).filter (· ≠ [])

def joinSlash : List JsString → JsString
  | [] => []
  | [name] => name
  | name :: names => name ++ 0x2f :: joinSlash names

/-- `basename` -/
def basename (path : JsString) : JsString := (pathNames path).getLastD []

/-- `dirname` of a normalized absolute path. -/
def dirname (path : JsString) : JsString := 0x2f :: joinSlash (pathNames path).dropLast

/-- `join` of a normalized absolute path and a name. -/
def join (directory name : JsString) : JsString := 0x2f :: joinSlash (pathNames directory ++ [name])

/-- The names that lead from one directory to a path. -/
def relativeNames : List JsString → List JsString → List JsString
  | a :: source, b :: target =>
    if a = b then relativeNames source target
    else List.replicate (source.length + 1) (js "..") ++ b :: target
  | source, target => List.replicate source.length (js "..") ++ target

/-- `relative` of normalized absolute paths. -/
def relative (source target : JsString) : JsString :=
  joinSlash (relativeNames (pathNames source) (pathNames target))

def configuredReplayAnchorPath (env : Environment) (file : DurableFileIdentity) :
    Process JsString := do
  let configured ← Prog.lift (orThrow env.anchorPath
    "API_MIGRATOR_REPLAY_ANCHOR_PATH must be an absolute secure anchor path")
  Prog.ensure (1 ≤ configured.length ∧ configured.length ≤ 4096 ∧ isAbsolute configured = true)
    "API_MIGRATOR_REPLAY_ANCHOR_PATH must be an absolute secure anchor path"
  let name := basename configured
  Prog.ensure (name ≠ [] ∧ name ≠ js "." ∧ name ≠ js "..")
    "API_MIGRATOR_REPLAY_ANCHOR_PATH must name an anchor file"
  let parent : DirectoryStats ← run .statAnchorDirectory
  Prog.ensure (¬ (
    parent.stats.isDirectory = false ∨ env.isForeign parent.stats ∨
    parent.stats.mode &&& 0o022 ≠ 0 ∨ parent.stats.mode &&& 0o200 = 0))
    "owner authorization anchor directory must be owner-controlled and writable"
  let anchorPath := join parent.path name
  let fromDatabaseDirectory := relative (dirname file.databasePath) anchorPath
  Prog.ensure (¬ (
    anchorPath = file.databasePath ∨ fromDatabaseDirectory = [] ∨
    startsWith fromDatabaseDirectory ".." = false ∧ isAbsolute fromDatabaseDirectory = false))
    "owner authorization anchor must be outside the database directory"
  return anchorPath

def assertSecureReplayAnchorFile (env : Environment) (stats : FileStats) : Except String Unit :=
  reject (
    stats.isFile = false ∨ stats.nlink ≠ 1 ∨ stats.size < 1 ∨ maxReplayAnchorBytes < stats.size ∨
    env.isForeign stats ∨ stats.mode &&& 0o077 ≠ 0 ∨ stats.mode &&& 0o400 = 0)
    "owner authorization anchor file is not owner-only and durable"

def readDurableReplayAnchor (env : Environment) (anchorPath : JsString) :
    Process DurableReplayAnchor := do
  let before : FileStats ← run .lstatAnchor
  let opened : FileStats ← run .openAnchor
  Prog.lift (assertSecureReplayAnchorFile env opened)
  let bytes : Bytes ← run .readAnchor
  let after : FileStats ← run .lstatAnchor
  Prog.ensure (before.id = opened.id ∧ after.id = opened.id ∧ after.nlink = opened.nlink ∧
    bytes.length = opened.size) "owner authorization anchor file changed while being read"
  let document ← Prog.lift (documentOf bytes)
  return {
    anchorPath
    anchorDevice := decimalDigits opened.id.device
    anchorInode := decimalDigits opened.id.inode
    anchorDigest := env.sha256.hex bytes
    document }

def createDurableReplayAnchor (env : Environment) (anchorPath : JsString)
    (document : ReplayAnchorDocument) : Process DurableReplayAnchor := do
  Prog.ensure (1 ≤ document.bytes.length ∧ document.bytes.length ≤ maxReplayAnchorBytes)
    invalidDocument
  Prog.recover (do
    run .createAnchor
    run (.writeAnchor document.bytes)
    run .sync) fun _ ↦
      throw "owner authorization anchor already exists or could not be created"
  run .sync
  readDurableReplayAnchor env anchorPath

/-! ### The calls -/

/-- An immediate transaction. The body returns the contents to commit; when it or the commit
throws, the transaction is rolled back. -/
def transaction {α : Type} (conn : Connection) (body : Contents → Process (Contents × α)) :
    Process α := do
  let contents : Contents ← run (.begin conn)
  Prog.recover (do
    let (contents, a) ← body contents
    run (.commit conn contents)
    return a) fun e ↦ do
      run (.rollback conn)
      throw e

/-- The transaction of `initializeOwnerAuthorizationStore`. -/
def initializeTransaction (env : Environment) (conn : Connection) (storeId : JsString)
    (contents : Contents) : Process (Contents × StoreIdentity) := do
  Prog.lift (verifyOwnerAuthorizationSchema contents.database)
  let file ← assertStableOpenFileIdentity env conn
  let anchorPath ← configuredReplayAnchorPath env file
  match contents.storeIdentity with
  | some existing => do
    let anchor ← readDurableReplayAnchor env anchorPath
    Prog.lift (assertExactStoreIdentity existing storeId file anchor existing.initializedAt)
    return (contents, existing)
  | none => do
    let reading : JsNumber ← run .sqliteClock
    let initializedAt ← Prog.lift (sqliteEpochMilliseconds reading)
    let nonce : Bytes ← run .randomBytes
    let anchor ← createDurableReplayAnchor env anchorPath {
      storeId
      databasePath := file.databasePath
      databaseDevice := file.device
      databaseInode := file.inode
      initializedAt
      nonce := hexText nonce }
    let contents ← Prog.lift (contents.insertStoreIdentity {
      singleton := 1
      storeId
      databasePath := file.databasePath
      device := file.device
      inode := file.inode
      linkCount := file.linkCount
      anchorPath := anchor.anchorPath
      anchorDevice := anchor.anchorDevice
      anchorInode := anchor.anchorInode
      anchorDigest := anchor.anchorDigest
      initializedAt })
    let inserted ← Prog.lift (orThrow contents.storeIdentity
      "owner authorization store identity was not persisted")
    Prog.lift (assertExactStoreIdentity inserted storeId file anchor initializedAt)
    return (contents, inserted)

def initializeOwnerAuthorizationStore (env : Environment) : Process Reply := do
  let conn : Connection ← run .getDb
  let storeId ← Prog.lift (configuredReplayStoreId env)
  let stored ← transaction conn (initializeTransaction env conn storeId)
  let file ← syncDurableDatabaseFile env conn
  let anchorPath ← configuredReplayAnchorPath env file
  let anchor ← readDurableReplayAnchor env anchorPath
  Prog.lift (assertExactStoreIdentity stored storeId file anchor stored.initializedAt)
  return .initialized stored

/-- The row of the identity table is the one the contents show. -/
def assertInitializedOwnerAuthorizationStore (env : Environment) (conn : Connection)
    (contents : Contents) : Process StoreIdentity := do
  let file ← assertStableOpenFileIdentity env conn
  let storeId ← Prog.lift (configuredReplayStoreId env)
  let stored ← Prog.lift (orThrow contents.storeIdentity
    "owner authorization store is not initialized")
  let anchorPath ← configuredReplayAnchorPath env file
  let anchor ← readDurableReplayAnchor env anchorPath
  Prog.lift (assertExactStoreIdentity stored storeId file anchor stored.initializedAt)
  return stored

/-- The transaction of `persistOwnerAuthorizationConsumption`. -/
def consumeTransaction (env : Environment) (conn : Connection) (input : LedgerInsert)
    (contents : Contents) : Process (Contents × LedgerResult) := do
  Prog.lift (verifyOwnerAuthorizationSchema contents.database)
  let _ ← assertInitializedOwnerAuthorizationStore env conn contents
  let first : JsNumber ← run .sqliteClock
  let consumedAt ← Prog.lift (sqliteEpochMilliseconds first)
  Prog.ensure (consumedAt < input.expiresAt) "owner authorization is expired"
  let expected : Consumption := { input with consumedAt }
  let database ← Prog.lift (contents.database.insertConsumption expected)
  Prog.lift (assertExactConsumption
    (readOwnerAuthorizationConsumption database input.authorizationId) expected)
  let second : JsNumber ← run .sqliteClock
  let now ← Prog.lift (sqliteEpochMilliseconds second)
  return ({ contents with database },
    { stored := expected, expiredAfterInsert := decide (input.expiresAt ≤ now) })

def persistOwnerAuthorizationConsumption (env : Environment) (conn : Connection)
    (input : LedgerInsert) : Process LedgerResult := do
  let result ← transaction conn (consumeTransaction env conn input)
  let _ ← syncDurableDatabaseFile env conn
  let contents : Contents ← run (.read conn)
  Prog.lift (verifyOwnerAuthorizationSchema contents.database)
  let contents : Contents ← run (.read conn)
  let _ ← assertInitializedOwnerAuthorizationStore env conn contents
  let contents : Contents ← run (.read conn)
  Prog.lift (assertExactConsumption
    (readOwnerAuthorizationConsumption contents.database input.authorizationId) result.stored)
  if result.expiredAfterInsert then return result
  let reading : JsNumber ← run .sqliteClock
  let now ← Prog.lift (sqliteEpochMilliseconds reading)
  return { result with expiredAfterInsert := decide (input.expiresAt ≤ now) }

/-- The `try` block of `consumeOwnerAuthorization`. -/
def reserve (env : Environment) (value : LedgerInsert) : Process Reply := do
  let conn : Connection ← run .getDb
  let result ← persistOwnerAuthorizationConsumption env conn value
  Prog.ensure (result.expiredAfterInsert = false) consumptionRejected
  return .consumed result.stored

def consumeOwnerAuthorization (env : Environment) (input : OwnerAuthorizationConsumptionInput) :
    Process Reply := do
  let value ← Prog.lift (auditConsumption input)
  (reserve env value).recover fun _ ↦ throw consumptionRejected

/-- A call some process makes. -/
inductive Call
  | initializeOwnerAuthorizationStore
  | consumeOwnerAuthorization (input : OwnerAuthorizationConsumptionInput)

def Call.program (env : Environment) : Call → Process Reply
  | .initializeOwnerAuthorizationStore => ReplayStore.initializeOwnerAuthorizationStore env
  | .consumeOwnerAuthorization input => ReplayStore.consumeOwnerAuthorization env input

end ApiMigrator.Db.ReplayStore
