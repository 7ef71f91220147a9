import ApiMigrator.Db.ReplayStore

/-!
What the calls on the replay store do to the files of their machine. Each step may fail before or
after it takes effect, and between the steps others may delete, create or replace database files:
a file is never edited but by the calls and its identity is never used again. The anchor file is
never deleted or edited by others, but they may have created it. Whatever the answers are, a call
asks for a commit only after it has compared the store identity with both files.
-/

set_option autoImplicit false
set_option relaxedAutoImplicit false

namespace ApiMigrator.Db.ReplayStore

open Foundation.Text Foundation.Number Foundation.Json Foundation.Outcome Foundation.Pattern
open Foundation.Binary Foundation.Interaction

/-! ### The files of the machine -/

/-- The anchor file. The call that created it holds it open for one write. -/
structure AnchorFile (ι : Type) where
  id : FileId
  bytes : Bytes
  writer : Option ι
  written : bytes ≠ [] → writer = none

/-- What the processes share: the contents of every file there ever was, what is found under a
path, who has begun a transaction on a file, and the anchor file. -/
structure World (ι : Type) where
  files : FileId → Option Contents
  path : JsString → Option FileId
  lock : FileId → Option ι
  anchor : Option (AnchorFile ι)

/-- What others may do between two steps. The lock of a process that stopped is released. -/
structure Disturbs {ι : Type} (w w' : World ι) : Prop where
  files : ∀ id contents, w.files id = some contents → w'.files id = some contents
  anchor : ∀ a, w.anchor = some a → w'.anchor = some a
  lock : ∀ id, w'.lock id = w.lock id ∨ w'.lock id = none

/-- What an interrupted write leaves of a text that is a JSON object and a line feed: a JSON object
has no proper prefix that is one. -/
def Torn (bytes written : Bytes) : Prop :=
  written <+: bytes ∧
    (written = bytes ∨ written ++ [0x0a] = bytes ∨ jsonParse (utf8Decode written) = none)

def Threw {α : Type} (answer : Except String α) : Prop := ∃ e, answer = .error e

/-- A query throws, or answers as `value` admits. -/
def Queries {ι α : Type} (w : World ι) (value : α → Prop) (answer : Except String α)
    (after : World ι) : Prop :=
  after = w ∧ (Threw answer ∨ ∃ a, answer = .ok a ∧ value a)

/-- An effect throws before it happened, throws after it, or answers. -/
def Takes {ι : Type} (w : World ι) (effect : World ι → Prop) (answer : Except String Unit)
    (after : World ι) : Prop :=
  after = w ∧ Threw answer ∨ effect after ∧ (answer = .ok () ∨ Threw answer)

/-- What one operation of call `i` may do. -/
def Perform {ι : Type} [DecidableEq ι] (w : World ι) (i : ι) :
    (op : Op) → Except String op.Answer → World ι → Prop
  | .getDb, answer, after =>
    Queries (α := Connection) w
      (fun conn ↦ (w.files conn.handle).isSome = true ∧ isWellFormed conn.databasePath = true)
      answer after
  | .begin conn, answer, after =>
    after = w ∧ Threw (α := Contents) answer ∨
      ∃ contents, w.files conn.handle = some contents ∧ w.lock conn.handle = none ∧
        answer = .ok contents ∧ after.files = w.files ∧ after.anchor = w.anchor ∧
        ∀ id, after.lock id = if id = conn.handle then some i else w.lock id
  | .rollback conn, answer, after =>
    Takes w (fun after ↦ after.files = w.files ∧ after.anchor = w.anchor ∧
      ∀ id, after.lock id = if id = conn.handle ∧ w.lock id = some i then none else w.lock id)
      answer after
  | .commit conn contents, answer, after =>
    Takes w (fun after ↦ w.lock conn.handle = some i ∧ after.anchor = w.anchor ∧
      (∀ id, after.files id = if id = conn.handle then some contents else w.files id) ∧
      ∀ id, after.lock id = if id = conn.handle then none else w.lock id) answer after
  | .read conn, answer, after =>
    Queries (α := Contents) w (fun contents ↦ w.files conn.handle = some contents) answer after
  | .statDatabase _, answer, after =>
    Queries (α := DatabaseStats) w (fun stats ↦ w.path stats.databasePath = some stats.file.id)
      answer after
  | .openDatabase path, answer, after =>
    Queries (α := FileStats) w (fun stats ↦ w.path path = some stats.id) answer after
  | .lstatAnchor, answer, after =>
    Queries (α := FileStats) w (fun stats ↦ ∃ a ∈ w.anchor, stats.id = a.id) answer after
  | .openAnchor, answer, after =>
    Queries (α := FileStats) w
      (fun stats ↦ ∃ a ∈ w.anchor, stats.id = a.id ∧ stats.size = a.bytes.length) answer after
  | .readAnchor, answer, after =>
    Queries (α := Bytes) w (fun bytes ↦ ∃ a ∈ w.anchor, bytes = a.bytes) answer after
  | .createAnchor, answer, after =>
    after = w ∧ Threw (α := Unit) answer ∨
      w.anchor = none ∧ after.files = w.files ∧ answer = .ok () ∧
        ∃ a ∈ after.anchor, a.bytes = [] ∧ a.writer = some i
  | .writeAnchor bytes, answer, after =>
    after = w ∧ Threw (α := Unit) answer ∨
      ∃ a ∈ w.anchor, a.writer = some i ∧ after.files = w.files ∧
        ∃ a' ∈ after.anchor, a'.id = a.id ∧ a'.writer = none ∧
          (a'.bytes = bytes ∧ answer = .ok () ∨ Torn bytes a'.bytes ∧ Threw (α := Unit) answer)
  | .randomBytes, answer, after =>
    Queries (α := Bytes) w (fun bytes ↦ bytes.length = 32) answer after
  | .sqliteClock, _, after | .pragmas _, _, after | .sync, _, after
  | .statAnchorDirectory, _, after => after = w

/-- One step of call `i`, after whatever others did. -/
def Step {ι : Type} [DecidableEq ι] (w : World ι) (i : ι) (op : Op) (answer : Except String op.Answer)
    (after : World ι) : Prop :=
  ∃ now, Disturbs w now ∧ Perform now i op answer after

/-! ### What one step leaves alone -/

section Steps

variable {ι : Type} [DecidableEq ι] {w after : World ι} {i : ι} {op : Op} {answer : Except String op.Answer}

omit [DecidableEq ι] in
theorem Queries.after_eq {α : Type} {value : α → Prop} {answer : Except String α}
    (h : Queries w value answer after) : after = w := h.1

omit [DecidableEq ι] in
theorem Queries.ok {α : Type} {value : α → Prop} {a : α}
    (h : Queries w value (.ok a) after) : value a := by
  rcases h.2 with ⟨e, he⟩ | ⟨a', ha', hvalue⟩
  · cases he
  · cases ha'
    exact hvalue

/-- Only a commit to a file changes what it holds. -/
theorem Perform.files (h : Perform w i op answer after) (id : FileId) :
    after.files id = w.files id ∨
      ∃ conn contents, op = .commit conn contents ∧ conn.handle = id ∧
        after.files id = some contents := by
  cases op with
  | begin conn =>
    rcases h with ⟨rfl, -⟩ | ⟨contents, -, -, -, hfiles, -⟩
    · exact Or.inl rfl
    · exact Or.inl (by rw [hfiles])
  | rollback conn =>
    rcases h with ⟨rfl, -⟩ | ⟨⟨hfiles, -⟩, -⟩
    · exact Or.inl rfl
    · exact Or.inl (by rw [hfiles])
  | commit conn contents =>
    rcases h with ⟨rfl, -⟩ | ⟨⟨-, -, hfiles, -⟩, -⟩
    · exact Or.inl rfl
    · by_cases hid : id = conn.handle
      · exact Or.inr ⟨conn, contents, rfl, hid.symm, by rw [hfiles, if_pos hid]⟩
      · exact Or.inl (by rw [hfiles, if_neg hid])
  | createAnchor =>
    rcases h with ⟨rfl, -⟩ | ⟨-, hfiles, -⟩
    · exact Or.inl rfl
    · exact Or.inl (by rw [hfiles])
  | writeAnchor bytes =>
    rcases h with ⟨rfl, -⟩ | ⟨a, -, -, hfiles, -⟩
    · exact Or.inl rfl
    · exact Or.inl (by rw [hfiles])
  | sqliteClock | pragmas | sync | statAnchorDirectory => exact Or.inl (by rw [show after = w from h])
  | getDb | read | statDatabase | openDatabase | lstatAnchor | openAnchor | readAnchor
  | randomBytes => exact Or.inl (by rw [Queries.after_eq h])

/-- Only the creation of the anchor and the one write to it change it. -/
theorem Perform.anchor (h : Perform w i op answer after) :
    after.anchor = w.anchor ∨
      op = .createAnchor ∧ w.anchor = none ∧
        (∃ a ∈ after.anchor, a.bytes = [] ∧ a.writer = some i) ∨
      ∃ bytes, op = .writeAnchor bytes ∧ ∃ a ∈ w.anchor, a.writer = some i ∧
        ∃ a' ∈ after.anchor, a'.id = a.id ∧ a'.writer = none ∧
          (a'.bytes = bytes ∨ Torn bytes a'.bytes) := by
  cases op with
  | begin conn =>
    rcases h with ⟨rfl, -⟩ | ⟨contents, -, -, -, -, hanchor, -⟩
    · exact Or.inl rfl
    · exact Or.inl hanchor
  | rollback conn =>
    rcases h with ⟨rfl, -⟩ | ⟨⟨-, hanchor, -⟩, -⟩
    · exact Or.inl rfl
    · exact Or.inl hanchor
  | commit conn contents =>
    rcases h with ⟨rfl, -⟩ | ⟨⟨-, hanchor, -, -⟩, -⟩
    · exact Or.inl rfl
    · exact Or.inl hanchor
  | createAnchor =>
    rcases h with ⟨rfl, -⟩ | ⟨hnone, -, -, hcreated⟩
    · exact Or.inl rfl
    · exact Or.inr (Or.inl ⟨rfl, hnone, hcreated⟩)
  | writeAnchor bytes =>
    rcases h with ⟨rfl, -⟩ | ⟨a, ha, hwriter, -, a', ha', hid, hidle, hbytes⟩
    · exact Or.inl rfl
    · exact Or.inr (Or.inr ⟨bytes, rfl, a, ha, hwriter, a', ha', hid, hidle,
        hbytes.imp And.left And.left⟩)
  | sqliteClock | pragmas | sync | statAnchorDirectory => exact Or.inl (by rw [show after = w from h])
  | getDb | read | statDatabase | openDatabase | lstatAnchor | openAnchor | readAnchor
  | randomBytes => exact Or.inl (by rw [Queries.after_eq h])

/-- An anchor that holds something stays as it is. -/
theorem Step.anchor_stays (h : Step w i op answer after) {a : AnchorFile ι} (ha : w.anchor = some a)
    (hbytes : a.bytes ≠ []) : after.anchor = some a := by
  obtain ⟨now, hnow, hperform⟩ := h
  have hanchor := hnow.anchor a ha
  rcases hperform.anchor with hsame | ⟨-, hnone, -⟩ | ⟨bytes, -, a', ha', hwriter, -⟩
  · rw [hsame, hanchor]
  · rw [hanchor] at hnone
    cases hnone
  · rw [hanchor, Option.mem_some_iff] at ha'
    subst ha'
    rw [a.written hbytes] at hwriter
    cases hwriter

/-- An anchor file is never deleted. -/
theorem Step.anchor_isSome (h : Step w i op answer after) (ha : w.anchor.isSome = true) :
    after.anchor.isSome = true := by
  obtain ⟨a, ha⟩ := Option.isSome_iff_exists.mp ha
  obtain ⟨now, hnow, hperform⟩ := h
  rcases hperform.anchor with hsame | ⟨-, -, a', ha', -⟩ | ⟨bytes, -, -, -, -, a', ha', -⟩
  · rw [hsame, hnow.anchor a ha]
    rfl
  · exact Option.isSome_iff_exists.mpr ⟨a', ha'⟩
  · exact Option.isSome_iff_exists.mpr ⟨a', ha'⟩

/-- A step leaves a file as it is, unless it commits to it. -/
theorem Step.files (h : Step w i op answer after) {id : FileId} {contents : Contents}
    (hfile : w.files id = some contents) :
    after.files id = some contents ∨
      ∃ conn contents', op = .commit conn contents' ∧ conn.handle = id ∧
        after.files id = some contents' := by
  obtain ⟨now, hnow, hperform⟩ := h
  rcases hperform.files id with hsame | hcommit
  · exact Or.inl (by rw [hsame, hnow.files id contents hfile])
  · exact Or.inr hcommit

end Steps

/-! ### What the history of a call shows -/

abbrev StoreEvent := Event Op fun op ↦ Except String op.Answer

namespace StoreEvent

/-- The connection a call obtained. -/
def opened : StoreEvent → Option Connection
  | ⟨.getDb, .ok conn⟩ => some conn
  | _ => none

/-- The file a transaction was begun on, with what it held. -/
def begun : StoreEvent → Option (FileId × Contents)
  | ⟨.begin conn, .ok contents⟩ => some (conn.handle, contents)
  | _ => none

/-- The file a transaction was committed to, as the call was told. -/
def committed : StoreEvent → Option (FileId × Contents)
  | ⟨.commit conn contents, .ok _⟩ => some (conn.handle, contents)
  | _ => none

/-- The file a call asked to commit to. -/
def attempted : StoreEvent → Option FileId
  | ⟨.commit conn _, _⟩ => some conn.handle
  | _ => none

def anchorBytes : StoreEvent → Option Bytes
  | ⟨.readAnchor, .ok bytes⟩ => some bytes
  | _ => none

def createsAnchor : StoreEvent → Bool
  | ⟨.createAnchor, .ok _⟩ => true
  | _ => false

end StoreEvent

/-- The connection of a call. -/
def Uses (h : Trace) (conn : Connection) : Prop := h.findSome? StoreEvent.opened = some conn

/-- The document names the file. -/
structure ReplayAnchorDocument.Names (document : ReplayAnchorDocument) (id : FileId) : Prop where
  device : document.databaseDevice = decimalDigits id.device
  inode : document.databaseInode = decimalDigits id.inode

def ReadAnchor (h : Trace) (document : ReplayAnchorDocument) : Prop :=
  ∃ e ∈ h, ∃ bytes, StoreEvent.anchorBytes e = some bytes ∧ documentOf bytes = .ok document

/-- The call found the file named in the anchor. -/
def Accepted (h : Trace) (id : FileId) : Prop :=
  ∃ document, ReadAnchor h document ∧ document.Names id

def CreatedAnchor (h : Trace) : Prop := ∃ e ∈ h, StoreEvent.createsAnchor e = true

/-- The call found the store initialized when it began its transaction. -/
def FoundIdentity (h : Trace) (id : FileId) : Prop :=
  ∃ e ∈ h, ∃ contents, StoreEvent.begun e = some (id, contents) ∧
    contents.storeIdentity.isSome = true

/-- What a call has seen before it asks for a commit. -/
structure MayCommit (h : Trace) (conn : Connection) (contents : Contents) : Prop where
  uses : Uses h conn
  accepted : Accepted h conn.handle
  identified : contents.storeIdentity.isSome = true
  origin : CreatedAnchor h ∨ FoundIdentity h conn.handle

/-- The document a call may write describes the file of its connection. -/
structure Describes (document : ReplayAnchorDocument) (conn : Connection) : Prop where
  names : document.Names conn.handle
  databasePath : document.databasePath = conn.databasePath
  storeId : isReplayStoreId document.storeId = true
  initializedAt : isSafe document.initializedAt = true
  nonce : ∃ bytes, document.nonce = hexText bytes

/-- What a call has done before each operation. -/
def Admits (h : Trace) : Op → Prop
  | .commit conn contents => MayCommit h conn contents
  | .writeAnchor bytes => ∃ conn document, Uses h conn ∧ Describes document conn ∧
    bytes = document.bytes
  | _ => True

/-- A call that returns has committed. -/
def Commits (h : Trace) : Prop := ∃ e ∈ h, (StoreEvent.committed e).isSome = true

section Histories

variable {h h' : Trace} {conn : Connection} {id : FileId}

theorem Uses.mono (hstarts : h <+: h') (huses : Uses h conn) : Uses h' conn := by
  obtain ⟨t, rfl⟩ := hstarts
  rw [Uses, List.findSome?_append, huses]
  rfl

theorem ReadAnchor.mono (hstarts : h <+: h') {document : ReplayAnchorDocument}
    (hread : ReadAnchor h document) : ReadAnchor h' document := by
  obtain ⟨e, he, hread⟩ := hread
  exact ⟨e, hstarts.subset he, hread⟩

theorem Accepted.mono (hstarts : h <+: h') (haccepted : Accepted h id) : Accepted h' id := by
  obtain ⟨document, hread, hnames⟩ := haccepted
  exact ⟨document, hread.mono hstarts, hnames⟩

theorem CreatedAnchor.mono (hstarts : h <+: h') (hcreated : CreatedAnchor h) :
    CreatedAnchor h' := by
  obtain ⟨e, he, hcreates⟩ := hcreated
  exact ⟨e, hstarts.subset he, hcreates⟩

theorem FoundIdentity.mono (hstarts : h <+: h') (hfound : FoundIdentity h id) :
    FoundIdentity h' id := by
  obtain ⟨e, he, hbegun⟩ := hfound
  exact ⟨e, hstarts.subset he, hbegun⟩

theorem MayCommit.mono (hstarts : h <+: h') {contents : Contents}
    (hmay : MayCommit h conn contents) : MayCommit h' conn contents where
  uses := hmay.uses.mono hstarts
  accepted := hmay.accepted.mono hstarts
  identified := hmay.identified
  origin := hmay.origin.imp (.mono hstarts) (.mono hstarts)

theorem Admits.mono (hstarts : h <+: h') (op : Op) (hadmits : Admits h op) : Admits h' op := by
  cases op with
  | commit conn contents => exact MayCommit.mono hstarts hadmits
  | writeAnchor bytes =>
    obtain ⟨conn, document, huses, hdescribes⟩ := hadmits
    exact ⟨conn, document, huses.mono hstarts, hdescribes⟩
  | _ => trivial

end Histories

/-! ### Each call -/

section Calls

variable {env : Environment} {conn : Connection} {h : Trace}

theorem guarded_readDurableFileIdentity :
    (readDurableFileIdentity env conn).Guarded Admits (fun _ _ ↦ True) h := by
  refine .ensure_bind fun _ ↦ .attempt_bind trivial fun stats ↦ .ensure_bind fun _ ↦ ?_
  trivial

theorem guarded_assertStableOpenFileIdentity :
    (assertStableOpenFileIdentity env conn).Guarded Admits
      (fun _ file ↦ conn.openFileIdentity = some file) h := by
  refine .ensure_bind fun _ ↦ .bind (guarded_readDurableFileIdentity.mono fun h current _ ↦ ?_)
  exact .ensure_bind fun hsame ↦ hsame

theorem guarded_syncDurableDatabaseFile :
    (syncDurableDatabaseFile env conn).Guarded Admits
      (fun _ file ↦ conn.openFileIdentity = some file) h := by
  refine .attempt_bind trivial fun settings ↦ .ensure_bind fun _ ↦ .bind
    (guarded_assertStableOpenFileIdentity.mono fun h file _ ↦ ?_)
  exact .attempt_bind trivial fun opened ↦ .ensure_bind fun _ ↦ .attempt_bind trivial fun _ ↦
    .attempt_bind trivial fun _ ↦ guarded_assertStableOpenFileIdentity

theorem guarded_configuredReplayAnchorPath {file : DurableFileIdentity} :
    (configuredReplayAnchorPath env file).Guarded Admits (fun _ _ ↦ True) h := by
  refine .lift_bind fun configured _ ↦ .ensure_bind fun _ ↦ .ensure_bind fun _ ↦
    .attempt_bind trivial fun parent ↦ .ensure_bind fun _ ↦ .ensure_bind fun _ ↦ ?_
  trivial

theorem guarded_readDurableReplayAnchor {anchorPath : JsString} :
    (readDurableReplayAnchor env anchorPath).Guarded Admits
      (fun h anchor ↦ ReadAnchor h anchor.document) h := by
  refine .attempt_bind trivial fun before ↦ .attempt_bind trivial fun opened ↦ .lift_bind
    fun _ _ ↦ .attempt_bind trivial fun bytes ↦ .attempt_bind trivial fun after ↦ .ensure_bind
    fun _ ↦ .lift_bind fun document hdocument ↦ ?_
  exact ⟨⟨.readAnchor, .ok bytes⟩, by simp, bytes, rfl, hdocument⟩

theorem guarded_createDurableReplayAnchor {anchorPath : JsString}
    {document : ReplayAnchorDocument} (huses : Uses h conn) (hdescribes : Describes document conn) :
    (createDurableReplayAnchor env anchorPath document).Guarded Admits
      (fun h anchor ↦ ReadAnchor h anchor.document ∧ CreatedAnchor h) h := by
  refine .ensure_bind fun _ ↦ .bind ?_
  refine Prog.Guarded.recover ?_ fun _ _ _ ↦ trivial
  refine .attempt_bind trivial fun created ↦ .attempt_bind ?_ fun _ ↦ .attempt trivial fun _ ↦ ?_
  · exact ⟨conn, document, huses.mono (List.prefix_append _ _), hdescribes, rfl⟩
  · refine .attempt_bind trivial fun _ ↦ ?_
    refine guarded_readDurableReplayAnchor.extends.mono fun h anchor hread ↦ ⟨hread.2, ?_⟩
    exact ⟨⟨.createAnchor, .ok created⟩, hread.1.subset (by simp), rfl⟩

/-- What the comparison of a stored identity with the files shows. -/
theorem names_of_assertExactStoreIdentity {stored : StoreIdentity} {storeId : JsString}
    {file : DurableFileIdentity} {anchor : DurableReplayAnchor} {initializedAt : ℤ} {u : Unit}
    (hopen : conn.openFileIdentity = some file)
    (hexact : assertExactStoreIdentity stored storeId file anchor initializedAt = .ok u) :
    anchor.document.Names conn.handle := by
  simp only [assertExactStoreIdentity, reject_eq_ok, not_or, not_not] at hexact
  obtain ⟨-, -, -, -, -, -, -, -, -, -, -, -, hdevice, hinode, -⟩ := hexact
  simp only [Connection.openFileIdentity] at hopen
  split_ifs at hopen
  cases hopen
  exact ⟨hdevice, hinode⟩

/-- A transaction whose body only returns contents it may commit. -/
theorem guarded_transaction {α : Type} {body : Contents → Process (Contents × α)}
    (huses : Uses h conn)
    (hbody : ∀ h contents, Uses h conn →
      (∃ e ∈ h, StoreEvent.begun e = some (conn.handle, contents)) →
      (body contents).Guarded Admits (fun h out ↦ MayCommit h conn out.1) h) :
    (transaction conn body).Guarded Admits (fun h _ ↦ Uses h conn ∧ Commits h) h := by
  refine .attempt_bind trivial fun contents ↦ ?_
  refine Prog.Guarded.recover (.bind ?_) fun _ _ _ ↦ .attempt_bind trivial fun _ ↦ trivial
  have hmay := hbody (h ++ [⟨.begin conn, .ok contents⟩]) contents
    (huses.mono (List.prefix_append _ _)) ⟨⟨.begin conn, .ok contents⟩, by simp, rfl⟩
  refine hmay.mono fun h out hmay ↦ .attempt_bind hmay fun u ↦ ?_
  exact ⟨hmay.uses.mono (List.prefix_append _ _),
    ⟨.commit conn out.1, .ok u⟩, by simp, rfl⟩

theorem guarded_initializeTransaction {storeId : JsString} {contents : Contents}
    (hstoreId : isReplayStoreId storeId = true) (huses : Uses h conn)
    (hbegun : ∃ e ∈ h, StoreEvent.begun e = some (conn.handle, contents)) :
    (initializeTransaction env conn storeId contents).Guarded Admits
      (fun h out ↦ MayCommit h conn out.1) h := by
  refine .lift_bind fun _ _ ↦ .bind_extends guarded_assertStableOpenFileIdentity
    fun h₁ file hstarts₁ hopen ↦ .bind_extends guarded_configuredReplayAnchorPath
    fun h₂ anchorPath hstarts₂ _ ↦ ?_
  have hstarts := hstarts₁.trans hstarts₂
  cases hidentity : contents.storeIdentity with
  | some existing =>
    refine .bind_extends guarded_readDurableReplayAnchor fun h₃ anchor hstarts₃ hread ↦
      .lift_bind fun _ hexact ↦ ?_
    obtain ⟨e, he, hbegun⟩ := hbegun
    exact {
      uses := huses.mono (hstarts.trans hstarts₃)
      accepted := ⟨anchor.document, hread, names_of_assertExactStoreIdentity hopen hexact⟩
      identified := by rw [hidentity]; rfl
      origin := Or.inr ⟨e, (hstarts.trans hstarts₃).subset he, contents, hbegun, by
        rw [hidentity]; rfl⟩ }
  | none =>
    refine .attempt_bind trivial fun reading ↦ .lift_bind fun initializedAt hreading ↦
      .attempt_bind trivial fun nonce ↦ ?_
    have huses' := huses.mono
      (hstarts.trans ((List.prefix_append _ [⟨.sqliteClock, .ok reading⟩]).trans
        (List.prefix_append _ [⟨.randomBytes, .ok nonce⟩])))
    have hsafe : isSafe initializedAt = true := by
      simp only [sqliteEpochMilliseconds, bind_eq_ok, orThrow_eq_ok, pure_eq_ok] at hreading
      obtain ⟨_, hsafe, _, -, rfl⟩ := hreading
      exact isSafe_of_safeInteger hsafe
    refine .bind_extends (guarded_createDurableReplayAnchor huses' ?_)
      fun h₃ anchor hstarts₃ hread ↦ ?_
    · simp only [Connection.openFileIdentity] at hopen
      split_ifs at hopen
      cases hopen
      exact ⟨⟨rfl, rfl⟩, rfl, hstoreId, hsafe, nonce, rfl⟩
    · refine .lift_bind fun contents' hinserted ↦ .lift_bind fun inserted hstored ↦ .lift_bind
        fun _ hexact ↦ ?_
      exact {
        uses := huses'.mono hstarts₃
        accepted := ⟨anchor.document, hread.1, names_of_assertExactStoreIdentity hopen hexact⟩
        identified := by rw [orThrow_eq_ok.mp hstored]; rfl
        origin := Or.inl hread.2 }

theorem guarded_assertInitializedOwnerAuthorizationStore {contents : Contents} :
    (assertInitializedOwnerAuthorizationStore env conn contents).Guarded Admits
      (fun h _ ↦ Accepted h conn.handle ∧ contents.storeIdentity.isSome = true) h := by
  refine .bind (guarded_assertStableOpenFileIdentity.mono fun h₁ file hopen ↦ .lift_bind
    fun storeId _ ↦ .lift_bind fun stored hstored ↦
    .bind (guarded_configuredReplayAnchorPath.mono fun h₂ anchorPath _ ↦
    .bind (guarded_readDurableReplayAnchor.mono fun h₃ anchor hread ↦ .lift_bind
    fun _ hexact ↦ ?_)))
  exact ⟨⟨anchor.document, hread, names_of_assertExactStoreIdentity hopen hexact⟩, by
    rw [orThrow_eq_ok.mp hstored]; rfl⟩

theorem guarded_consumeTransaction {input : LedgerInsert} {contents : Contents}
    (huses : Uses h conn)
    (hbegun : ∃ e ∈ h, StoreEvent.begun e = some (conn.handle, contents)) :
    (consumeTransaction env conn input contents).Guarded Admits
      (fun h out ↦ MayCommit h conn out.1) h := by
  refine .lift_bind fun _ _ ↦ .bind_extends guarded_assertInitializedOwnerAuthorizationStore
    fun h₁ _ hstarts haccepted ↦ .attempt_bind trivial fun first ↦ .lift_bind fun consumedAt _ ↦
    .ensure_bind fun _ ↦ .lift_bind fun database _ ↦ .lift_bind fun _ _ ↦ .attempt_bind trivial
    fun second ↦ .lift_bind fun now _ ↦ ?_
  obtain ⟨e, he, hbegun⟩ := hbegun
  have hstarts' := (List.prefix_append h₁ [⟨.sqliteClock, .ok first⟩]).trans
    (List.prefix_append _ [⟨.sqliteClock, .ok second⟩])
  exact {
    uses := huses.mono (hstarts.trans hstarts')
    accepted := haccepted.1.mono hstarts'
    identified := haccepted.2
    origin := Or.inr ⟨e, (hstarts.trans hstarts').subset he, contents, hbegun, haccepted.2⟩ }

theorem guarded_persistOwnerAuthorizationConsumption {input : LedgerInsert} (huses : Uses h conn) :
    (persistOwnerAuthorizationConsumption env conn input).Guarded Admits
      (fun h _ ↦ Uses h conn ∧ Commits h) h := by
  have hcommits : ∀ {h h' : Trace}, h <+: h' → Uses h conn ∧ Commits h →
      Uses h' conn ∧ Commits h' := by
    rintro h h' hstarts ⟨huses, e, he, hcommitted⟩
    exact ⟨huses.mono hstarts, e, hstarts.subset he, hcommitted⟩
  refine .bind ((guarded_transaction huses fun _ _ ↦ guarded_consumeTransaction).mono
    fun h result hdone ↦ .bind_extends guarded_syncDurableDatabaseFile fun h₁ _ hstarts₁ _ ↦
    .attempt_bind trivial fun contents ↦ .lift_bind fun _ _ ↦
    .attempt_bind trivial fun contents' ↦
    .bind_extends guarded_assertInitializedOwnerAuthorizationStore fun h₂ _ hstarts₂ _ ↦
    .attempt_bind trivial fun contents'' ↦ .lift_bind fun _ _ ↦ ?_)
  have hfirst := hcommits (List.prefix_append _ [(⟨.read conn, .ok contents⟩ : StoreEvent)])
    (hcommits hstarts₁ hdone)
  have hsecond := hcommits hstarts₂
    (hcommits (List.prefix_append _ [(⟨.read conn, .ok contents'⟩ : StoreEvent)]) hfirst)
  have hdone' := hcommits (List.prefix_append _ [(⟨.read conn, .ok contents''⟩ : StoreEvent)])
    hsecond
  split
  · exact hdone'
  · exact .attempt_bind trivial fun reading ↦ .lift_bind fun now _ ↦
      hcommits (List.prefix_append _ _) hdone'

theorem uses_getDb (conn : Connection) : Uses [⟨.getDb, .ok conn⟩] conn := rfl

theorem guarded_initializeOwnerAuthorizationStore :
    (initializeOwnerAuthorizationStore env).Guarded Admits (fun h _ ↦ Commits h) [] := by
  refine .attempt_bind trivial fun conn ↦ .lift_bind fun storeId hstoreId ↦ ?_
  have hvalid : isReplayStoreId storeId = true := by
    unfold configuredReplayStoreId at hstoreId
    split at hstoreId
    · simp only [bind_eq_ok, reject_eq_ok, exists_unit, pure_eq_ok] at hstoreId
      obtain ⟨hvalid, rfl⟩ := hstoreId
      simpa using hvalid
    · cases hstoreId
  refine .bind ((guarded_transaction (uses_getDb conn) fun _ _ ↦
    guarded_initializeTransaction hvalid).mono fun h stored hdone ↦ ?_)
  obtain ⟨-, e, he, hcommitted⟩ := hdone
  refine .bind_extends guarded_syncDurableDatabaseFile fun h₁ file hstarts₁ _ ↦
    .bind_extends guarded_configuredReplayAnchorPath fun h₂ anchorPath hstarts₂ _ ↦
    .bind_extends guarded_readDurableReplayAnchor fun h₃ anchor hstarts₃ _ ↦
    .lift_bind fun _ _ ↦ ?_
  exact ⟨e, ((hstarts₁.trans hstarts₂).trans hstarts₃).subset he, hcommitted⟩

theorem guarded_consumeOwnerAuthorization {input : OwnerAuthorizationConsumptionInput} :
    (consumeOwnerAuthorization env input).Guarded Admits (fun h _ ↦ Commits h) [] := by
  refine .lift_bind fun value _ ↦ .recover (.attempt_bind trivial fun conn ↦ ?_) fun _ _ _ ↦ trivial
  exact .bind ((guarded_persistOwnerAuthorizationConsumption (uses_getDb conn)).mono
    fun h result hdone ↦ .ensure_bind fun _ ↦ hdone.2)

theorem guarded_program (call : Call) :
    (call.program env).Guarded Admits (fun h _ ↦ Commits h) [] := by
  cases call with
  | initializeOwnerAuthorizationStore => exact guarded_initializeOwnerAuthorizationStore
  | consumeOwnerAuthorization input => exact guarded_consumeOwnerAuthorization

end Calls

end ApiMigrator.Db.ReplayStore
