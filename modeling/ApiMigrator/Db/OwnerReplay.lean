import ApiMigrator.Db.OwnerLedger

/-!
Replay safety of the owner-authorization ledger. Any number of processes consume authorizations,
migrate and reset one database in any interleaving, each step may fail before or after it takes
effect, and the clocks read what they like. The ledger only grows, no two calls that return
success share a replay key, and a key whose row was committed is never granted again.
-/

set_option autoImplicit false
set_option relaxedAutoImplicit false

namespace ApiMigrator.Db

open Foundation.Text Foundation.Number Foundation.Json Foundation.Outcome Foundation.Pattern
open Foundation.Interaction

/-! ### One step -/

/-- The database the processes share, and a history variable: which call committed which row. -/
structure Shared (ι : Type) where
  db : Database
  log : List (ι × Consumption)

def Threw {α : Type} (answer : Except String α) : Prop := ∃ e, answer = .error e

/-- A transaction answers what its body computed once it has committed, or throws: before the
commit, and then nothing has happened, or after it. -/
def Transacts {ι α : Type} (s : Shared ι) (body : Except String (Shared ι × α))
    (answer : Except String α) (after : Shared ι) : Prop :=
  after = s ∧ Threw answer ∨
    ∃ a, body = .ok (after, a) ∧ (answer = .ok a ∨ Threw answer)

/-- A query answers what it computed, or throws. -/
def Queries {ι α : Type} (s : Shared ι) (value : Except String α) (answer : Except String α)
    (after : Shared ι) : Prop :=
  after = s ∧ (answer = value ∨ Threw answer)

/-- What one operation of call `i` may do. -/
def Step {ι : Type} (s : Shared ι) (i : ι) :
    (op : Op) → Except String op.Answer → Shared ι → Prop
  | .getDb, answer, after => Queries (α := Unit) s (.ok ()) answer after
  | .consume input, answer, after => ∃ first second,
    Transacts (α := LedgerResult) s
      (do
        let (db, result) ← consumeTransaction s.db input first second
        return (⟨db, s.log ++ [(i, result.stored)]⟩, result))
      answer after
  | .syncDurableDatabaseFile, answer, after => Queries (α := Unit) s (.ok ()) answer after
  | .inspect check, answer, after => Queries s (check.run s.db) answer after
  | .assertInitializedStore, answer, after => Queries (α := Unit) s (.ok ()) answer after
  | .readConsumption authorizationId, answer, after =>
    Queries s (.ok (readOwnerAuthorizationConsumption s.db authorizationId)) answer after
  | .sqliteClock, answer, after => ∃ reading,
    Queries s (sqliteEpochMilliseconds reading) answer after
  | .migrate, answer, after =>
    Transacts (α := Unit) s (do let db ← migrateTransaction s.db; return ({ s with db }, ()))
      answer after
  | .reset, answer, after =>
    Transacts (α := Unit) s (do let db ← resetTransaction s.db; return ({ s with db }, ()))
      answer after

/-! ### What a transaction does to the ledger -/

theorem isExact_of_verify {db : Database} (h : verifyOwnerAuthorizationSchema db = .ok ()) :
    db.ledger.isExact = true := by
  have hcheck := forEach_eq_ok.mp h .ledgerTable (by decide)
  simpa [SchemaCheck.run] using hcheck

/-- Applying the schema keeps the rows of the ledger and leaves it as declared. -/
theorem applySchema_ledger {db db' : Database} (h : applySchema db = .ok db') :
    db'.ledgerRows = db.ledgerRows ∧ db'.ledger.isExact = true := by
  simp only [applySchema, bind_eq_ok, exists_unit, pure_eq_ok] at h
  obtain ⟨hverify, rfl⟩ := h
  refine ⟨?_, isExact_of_verify hverify⟩
  have hexact := isExact_of_verify hverify
  simp only [Database.ledgerRows] at hexact ⊢
  cases hledger : db.ledger with
  | missing => rfl
  | exact table => rfl
  | altered rows => rw [hledger] at hexact; cases hexact

theorem migrateTransaction_ledger {db db' : Database} (h : migrateTransaction db = .ok db') :
    db'.ledgerRows = db.ledgerRows ∧ db'.ledger.isExact = true := by
  simp only [migrateTransaction, bind_eq_ok] at h
  obtain ⟨version, -, h⟩ := h
  split_ifs at h
  · obtain ⟨-, -, h⟩ := bind_eq_ok.mp h
    exact applySchema_ledger h
  · exact applySchema_ledger h

theorem resetTransaction_ledger {db db' : Database} (h : resetTransaction db = .ok db') :
    db'.ledgerRows = db.ledgerRows ∧ db'.ledger.isExact = true := by
  obtain ⟨hrows, hexact⟩ := applySchema_ledger h
  exact ⟨hrows, hexact⟩

/-- Consuming appends one row: the one it returns, with the keys it was asked for, apart from
every row that was there, and not expired. -/
theorem consumeTransaction_eq_ok {db db' : Database} {input : LedgerInsert}
    {first second : JsNumber} {result : LedgerResult}
    (h : consumeTransaction db input first second = .ok (db', result)) :
    db'.ledgerRows = db.ledgerRows ++ [result.stored] ∧ db'.ledger.isExact = true ∧
      (∀ r ∈ db.ledgerRows, r.Apart result.stored) ∧ result.stored.toLedgerInsert = input ∧
      result.stored.consumedAt < result.stored.expiresAt := by
  simp only [consumeTransaction, bind_eq_ok, reject_eq_ok, exists_unit, pure_eq_ok, not_le,
    Prod.mk.injEq] at h
  obtain ⟨hverify, consumedAt, -, hexpiry, dbi, hinsert, hread, -, -, rfl, rfl⟩ := h
  have hexact := isExact_of_verify hverify
  cases hledger : db.ledger with
  | missing => rw [hledger] at hexact; cases hexact
  | altered rows => rw [hledger] at hexact; cases hexact
  | exact table =>
    simp only [Database.insertConsumption, hledger, bind_eq_ok, pure_eq_ok] at hinsert
    obtain ⟨table', htable, rfl⟩ := hinsert
    obtain ⟨hrows, hapart⟩ := LedgerTable.insert_eq_ok htable
    -- The row read back is the row as stored; the comparison makes it the row as sent.
    have hstored := table'.find?_of_mem (hrows ▸ List.mem_append_right table.rows
      (List.mem_singleton_self _))
    simp only [readOwnerAuthorizationConsumption, Database.ledgerRows] at hread
    rw [show (fun r' : Consumption ↦ decide (r'.authorizationId = sqlText input.authorizationId)) =
      fun r' ↦ decide (r'.authorizationId =
        ({ input with consumedAt } : Consumption).stored.authorizationId) from rfl, hstored] at hread
    simp only [assertExactConsumption, reject_eq_ok, ne_eq, not_not] at hread
    rw [hread] at hrows hapart
    refine ⟨?_, rfl, ?_, rfl, hexpiry⟩
    · simp only [Database.ledgerRows, hledger, hrows]
    · simpa only [Database.ledgerRows, hledger] using hapart

/-! ### The discipline of the ledger -/

/-- Every committed row is in the ledger, which is as declared, and no two of them share a key.
Rows and commits stay. -/
def ledgerDiscipline (ι : Type) : Discipline (Shared ι) where
  inv s := (∀ e ∈ s.log, e.2 ∈ s.db.ledgerRows ∧ s.db.ledger.isExact = true) ∧
    s.log.Pairwise fun e e' ↦ e.2.Apart e'.2
  rel s s' := s.db.ledgerRows ⊆ s'.db.ledgerRows ∧ s.log ⊆ s'.log
  rel_refl _ := ⟨List.Subset.refl _, List.Subset.refl _⟩
  rel_trans h h' := ⟨List.Subset.trans h.1 h'.1, List.Subset.trans h.2 h'.2⟩

section Discipline

variable {ι : Type} {s s' : Shared ι}

/-- A step that leaves the rows alone and the table as declared keeps the discipline. -/
private theorem keeps_of_same_rows (hinv : (ledgerDiscipline ι).inv s) {db : Database}
    (hrows : db.ledgerRows = s.db.ledgerRows) (hexact : db.ledger.isExact = true) :
    (ledgerDiscipline ι).inv { s with db } ∧ (ledgerDiscipline ι).rel s { s with db } := by
  refine ⟨⟨fun e he ↦ ⟨?_, hexact⟩, hinv.2⟩, ?_, List.Subset.refl _⟩
  · exact hrows ▸ (hinv.1 e he).1
  · exact hrows ▸ List.Subset.refl _

private theorem keeps_of_eq (hinv : (ledgerDiscipline ι).inv s) (hs : s' = s) :
    (ledgerDiscipline ι).inv s' ∧ (ledgerDiscipline ι).rel s s' := by
  subst hs
  exact ⟨hinv, (ledgerDiscipline ι).rel_refl s'⟩

private theorem keeps_of_consume (hinv : (ledgerDiscipline ι).inv s) {input : LedgerInsert}
    {first second : JsNumber} {db : Database} {result : LedgerResult}
    (h : consumeTransaction s.db input first second = .ok (db, result)) (i : ι) :
    (ledgerDiscipline ι).inv ⟨db, s.log ++ [(i, result.stored)]⟩ ∧
      (ledgerDiscipline ι).rel s ⟨db, s.log ++ [(i, result.stored)]⟩ := by
  obtain ⟨hrows, hexact, hapart, -, -⟩ := consumeTransaction_eq_ok h
  refine ⟨⟨?_, ?_⟩, ?_, List.subset_append_left _ _⟩
  · intro e he
    refine ⟨?_, hexact⟩
    rw [hrows]
    rcases List.mem_append.mp he with he | he
    · exact List.mem_append_left _ (hinv.1 e he).1
    · rw [List.mem_singleton.mp he]
      exact List.mem_append_right _ (List.mem_singleton_self _)
  · refine List.pairwise_append.mpr ⟨hinv.2, List.pairwise_singleton _ _, ?_⟩
    intro e he e' he'
    rw [List.mem_singleton.mp he']
    exact hapart e.2 (hinv.1 e he).1
  · rw [hrows]
    exact List.subset_append_left _ _

/-- Every operation of every call keeps the discipline. -/
theorem ledgerDiscipline_sound : (ledgerDiscipline ι).Sound Step := by
  intro s i op answer after hinv hstep
  cases op with
  | getDb => exact keeps_of_eq hinv hstep.1
  | syncDurableDatabaseFile => exact keeps_of_eq hinv hstep.1
  | inspect check => exact keeps_of_eq hinv hstep.1
  | assertInitializedStore => exact keeps_of_eq hinv hstep.1
  | readConsumption authorizationId => exact keeps_of_eq hinv hstep.1
  | sqliteClock =>
    obtain ⟨reading, hstep⟩ := hstep
    exact keeps_of_eq hinv hstep.1
  | consume input =>
    obtain ⟨first, second, ⟨hafter, -⟩ | ⟨result, hbody, -⟩⟩ := hstep
    · exact keeps_of_eq hinv hafter
    · simp only [bind_eq_ok, pure_eq_ok, Prod.exists, Prod.mk.injEq] at hbody
      obtain ⟨db, _, hconsume, rfl, rfl⟩ := hbody
      exact keeps_of_consume hinv hconsume i
  | migrate =>
    obtain ⟨hafter, -⟩ | ⟨result, hbody, -⟩ := hstep
    · exact keeps_of_eq hinv hafter
    · simp only [bind_eq_ok, pure_eq_ok, Prod.mk.injEq, and_true] at hbody
      obtain ⟨db, hmigrate, rfl⟩ := hbody
      obtain ⟨hrows, hexact⟩ := migrateTransaction_ledger hmigrate
      exact keeps_of_same_rows hinv hrows hexact
  | reset =>
    obtain ⟨hafter, -⟩ | ⟨result, hbody, -⟩ := hstep
    · exact keeps_of_eq hinv hafter
    · simp only [bind_eq_ok, pure_eq_ok, Prod.mk.injEq, and_true] at hbody
      obtain ⟨db, hreset, rfl⟩ := hbody
      obtain ⟨hrows, hexact⟩ := resetTransaction_ledger hreset
      exact keeps_of_same_rows hinv hrows hexact

/-! ### What a call returns -/

/-- Call `i` has committed the row `r` for the input. -/
structure Granted (s : Shared ι) (i : ι) (input : LedgerInsert) (r : Consumption) : Prop where
  committed : (i, r) ∈ s.log
  keys : r.toLedgerInsert = input
  unexpired : r.consumedAt < r.expiresAt

theorem Granted.mono {i : ι} {input : LedgerInsert} {r : Consumption}
    (h : Granted s i input r) (hrel : (ledgerDiscipline ι).rel s s') : Granted s' i input r :=
  { h with committed := hrel.2 h.committed }

/-- Once the row is committed, whatever follows returns that row or throws. -/
private theorem meets_afterCommit {i : ι} {input : LedgerInsert} {result : LedgerResult}
    {history : List (Event Op fun op ↦ Except String op.Answer)}
    (hgranted : Granted s i input result.stored) :
    Meets Step (ledgerDiscipline ι) i
      (fun _ outcome s' ↦ ∀ r, outcome = .ok r → Granted s' i input r.stored)
      (persistAfterCommit input result) history s := by
  have hsound := ledgerDiscipline_sound (ι := ι)
  refine Meets.bind_of_moves hsound (fun _ _ _ _ _ h ↦ nomatch h) fun _ _ s₁ h₁ ↦ ?_
  refine Meets.bind_of_moves hsound (fun _ _ _ _ _ h ↦ nomatch h) fun _ _ s₂ h₂ ↦ ?_
  refine Meets.bind_of_moves hsound (fun _ _ _ _ _ h ↦ nomatch h) fun _ _ s₃ h₃ ↦ ?_
  refine Meets.bind_of_moves hsound (fun _ _ _ _ _ h ↦ nomatch h) fun _ stored s₄ h₄ ↦ ?_
  refine Meets.bind_of_moves hsound (fun _ _ _ _ _ h ↦ nomatch h) fun _ _ s₅ h₅ ↦ ?_
  have hkept : Granted s₅ i input result.stored :=
    ((((hgranted.mono h₁).mono h₂).mono h₃).mono h₄).mono h₅
  split_ifs
  · intro r hr
    cases hr
    exact hkept
  · refine Meets.bind_of_moves hsound (fun _ _ _ _ _ h ↦ nomatch h) fun _ now s₆ h₆ ↦ ?_
    intro r hr
    cases hr
    exact hkept.mono h₆

private theorem meets_persist {i : ι} {input : LedgerInsert}
    {history : List (Event Op fun op ↦ Except String op.Answer)} :
    Meets Step (ledgerDiscipline ι) i
      (fun _ outcome s' ↦ ∀ r, outcome = .ok r → Granted s' i input r.stored)
      (persistOwnerAuthorizationConsumption input) history s := by
  refine Meets.attempt_bind (ledgerDiscipline_sound.keeps _) (fun _ _ _ _ _ _ _ h ↦ nomatch h) ?_
  intro now result after _ _ _ _ hstep
  obtain ⟨first, second, ⟨-, e, he⟩ | ⟨a, hbody, ha⟩⟩ := hstep
  · cases he
  · simp only [bind_eq_ok, pure_eq_ok, Prod.exists, Prod.mk.injEq] at hbody
    obtain ⟨db, _, hconsume, rfl, rfl⟩ := hbody
    obtain ⟨-, -, -, hkeys, hunexpired⟩ := consumeTransaction_eq_ok hconsume
    obtain rfl : result = _ := by
      rcases ha with ha | ⟨e, he⟩
      · exact Except.ok.inj ha
      · cases he
    exact meets_afterCommit ⟨List.mem_append_right _ (List.mem_singleton_self _), hkeys,
      hunexpired⟩

private theorem meets_reserve {i : ι} {value : LedgerInsert}
    {history : List (Event Op fun op ↦ Except String op.Answer)} :
    Meets Step (ledgerDiscipline ι) i
      (fun _ outcome s' ↦ ∀ reply, outcome = .ok reply →
        ∃ r, reply = .consumed r ∧ Granted s' i value r)
      (reserve value) history s := by
  refine Meets.bind_of_moves ledgerDiscipline_sound (fun _ _ _ _ _ h ↦ by cases h) ?_
  intro history _ s₁ _
  refine Meets.bind (meets_persist.mono fun _ outcome s₂ hpersist ↦ ?_)
  cases outcome with
  | error e =>
    intro reply hreply
    cases hreply
  | ok result =>
    by_cases hexpired : result.expiredAfterInsert = false
    · simp only [Prog.ensure, if_pos hexpired]
      intro reply hreply
      cases hreply
      exact ⟨result.stored, rfl, hpersist result rfl⟩
    · simp only [Prog.ensure, if_neg hexpired]
      intro reply hreply
      cases hreply

/-- What a call may return: a consumed row it has committed itself, for the input it was given. -/
def Call.Returns (call : Call) (i : ι) (reply : Reply) (s : Shared ι) : Prop :=
  match call, reply with
  | .consumeOwnerAuthorization input, .consumed r =>
    ∃ value, auditConsumption input = .ok value ∧ Granted s i value r
  | .migrate, .finished => True
  | .resetDb, .finished => True
  | _, _ => False

theorem Call.meets (call : Call) (i : ι) (s : Shared ι) :
    Meets Step (ledgerDiscipline ι) i
      (fun _ outcome s' ↦ ∀ reply, outcome = .ok reply → call.Returns i reply s')
      call.program [] s := by
  have hsound := ledgerDiscipline_sound (ι := ι)
  cases call with
  | consumeOwnerAuthorization input =>
    simp only [Call.program, Db.consumeOwnerAuthorization]
    cases haudit : auditConsumption input with
    | error e => exact fun reply h ↦ nomatch h
    | ok value =>
      refine Meets.recover (meets_reserve.mono fun _ outcome s' hreserve ↦ ?_)
      cases outcome with
      | error e => exact fun reply h ↦ nomatch h
      | ok reply =>
        intro reply' hreply
        cases hreply
        obtain ⟨r, rfl, hgranted⟩ := hreserve reply rfl
        exact ⟨value, haudit, hgranted⟩
  | migrate =>
    refine Meets.bind_of_moves hsound (fun _ _ _ _ _ h ↦ nomatch h) fun _ _ _ _ reply h ↦ ?_
    cases h
    trivial
  | resetDb =>
    refine Meets.bind_of_moves hsound (fun _ _ _ _ _ h ↦ nomatch h) fun _ _ _ _ reply h ↦ ?_
    cases h
    trivial

/-- A call whose input asks for a key of `r` can only be granted a row that shares it. -/
theorem Granted.sharesKey {i : ι} {input : OwnerAuthorizationConsumptionInput}
    {value : LedgerInsert} {r r' : Consumption} (hgranted : Granted s i value r')
    (haudit : auditConsumption input = .ok value) (hshares : SharesKeyOf input r.toLedgerInsert) :
    r'.SharesKey r.toLedgerInsert := by
  obtain ⟨hauthorization, henvelope, ⟨digest, hdigest, hdigest'⟩, ⟨nonce, hnonce, hnonce'⟩⟩ :=
    keysOf_of_auditConsumption haudit
  rw [hgranted.keys]
  rcases hshares with h | h | ⟨t, h, ht⟩ | ⟨t, h, ht⟩
  · exact Or.inl (JsValue.str.inj (hauthorization.symm.trans h))
  · exact Or.inr (Or.inl (JsValue.str.inj (henvelope.symm.trans h)))
  · obtain rfl := JsValue.str.inj (hdigest.symm.trans h)
    exact Or.inr (Or.inr (Or.inl (hdigest'.symm.trans ht)))
  · obtain rfl := JsValue.str.inj (hnonce.symm.trans h)
    exact Or.inr (Or.inr (Or.inr (hnonce'.symm.trans ht)))

end Discipline

/-! ### Runs -/

section Runs

variable {ι : Type} [DecidableEq ι] {calls : ι → Call} {db : Database}
  {c c' : Config Op (fun op ↦ Except String op.Answer) String Reply (Shared ι) ι}

abbrev begin (db : Database) (calls : ι → Call) :
    Config Op (fun op ↦ Except String op.Answer) String Reply (Shared ι) ι :=
  Config.start ⟨db, []⟩ fun i ↦ (calls i).program

private theorem orderly_of_run (hrun : Config.Run Step (begin db calls) c) :
    Config.Orderly Step (ledgerDiscipline ι)
      (fun i _ outcome s' ↦ ∀ reply, outcome = .ok reply → (calls i).Returns i reply s') c := by
  have hinv : (ledgerDiscipline ι).inv ⟨db, []⟩ := ⟨fun _ h ↦ absurd h List.not_mem_nil, .nil⟩
  exact (hrun.orderly (Config.orderly_start hinv fun i ↦ (calls i).meets i _)).1

private theorem granted_of_done (hrun : Config.Run Step (begin db calls) c) {i : ι}
    {r : Consumption} (hdone : (c.thread i).rest = .done (.ok (.consumed r))) :
    ∃ input value, calls i = .consumeOwnerAuthorization input ∧
      auditConsumption input = .ok value ∧ Granted c.state i value r := by
  obtain ⟨seen, hseen, hpost⟩ := (orderly_of_run hrun).ended hdone
  have hreturns := hpost _ rfl
  cases hcall : calls i with
  | consumeOwnerAuthorization input =>
    rw [hcall] at hreturns
    obtain ⟨value, haudit, hgranted⟩ := hreturns
    exact ⟨input, value, rfl, haudit, hgranted.mono hseen⟩
  | migrate => rw [hcall] at hreturns; exact hreturns.elim
  | resetDb => rw [hcall] at hreturns; exact hreturns.elim

/-- The row a call returns is the audited row of its input, consumed before it expired. -/
theorem consumed_of_done (hrun : Config.Run Step (begin db calls) c) {i : ι} {r : Consumption}
    {input : OwnerAuthorizationConsumptionInput} (hcall : calls i = .consumeOwnerAuthorization input)
    (hdone : (c.thread i).rest = .done (.ok (.consumed r))) :
    ∃ value, auditConsumption input = .ok value ∧ r.toLedgerInsert = value ∧ 0 < r.consumedAt ∧
      r.consumedAt < r.expiresAt := by
  obtain ⟨input', value, hcall', haudit, hgranted⟩ := granted_of_done hrun hdone
  obtain rfl := Call.consumeOwnerAuthorization.inj (hcall.symm.trans hcall')
  refine ⟨value, haudit, hgranted.keys, ?_⟩
  obtain ⟨hrow, hexact⟩ := (orderly_of_run hrun).inv.1 _ hgranted.committed
  cases hledger : c.state.db.ledger with
  | missing => rw [hledger] at hexact; cases hexact
  | altered rows => rw [hledger] at hexact; cases hexact
  | exact table =>
    rw [Database.ledgerRows, hledger] at hrow
    exact consumedAt_of_satisfiesChecks (table.checked r hrow)

private theorem apart_of_committed (hrun : Config.Run Step (begin db calls) c) {i j : ι}
    (hij : i ≠ j) {r r' : Consumption} (hr : (i, r) ∈ c.state.log) (hr' : (j, r') ∈ c.state.log) :
    r.Apart r' := by
  have : Std.Symm fun e e' : ι × Consumption ↦ e.2.Apart e'.2 :=
    ⟨fun _ _ h ↦ Std.Symm.symm _ _ h⟩
  exact (orderly_of_run hrun).inv.2.forall hr hr' fun h ↦ hij (Prod.mk.inj h).1

/-- **Replay safety.** From any database, in any interleaving of consuming, migrating and
resetting, with failures and clock readings as they come: rows of the ledger stay as they are;
two calls that return success have no replay key in common; a call that returns success returns
the row that is in the ledger, the only one with any of its keys, with the keys of its input and
not expired; and once a call has committed a row, whether it goes on to fail or not, every other
call that asks for one of its keys fails. -/
theorem owner_authorization_replay_safety
    (hrun : Config.Run Step (begin db calls) c) (hlater : Config.Run Step c c') :
    (∀ r ∈ c.state.db.ledgerRows, r ∈ c'.state.db.ledgerRows) ∧
    (∀ i j r r', i ≠ j → (c.thread i).rest = .done (.ok (.consumed r)) →
      (c.thread j).rest = .done (.ok (.consumed r')) →
      r.authorizationId ≠ r'.authorizationId ∧ r.envelopeId ≠ r'.envelopeId ∧
        r.envelopeDigest ≠ r'.envelopeDigest ∧ r.nonceDigest ≠ r'.nonceDigest) ∧
    (∀ i r, (c.thread i).rest = .done (.ok (.consumed r)) →
      (∃ input, calls i = .consumeOwnerAuthorization input ∧ KeysOf input r.toLedgerInsert) ∧
        r ∈ c.state.db.ledgerRows ∧
        (∀ r' ∈ c.state.db.ledgerRows, r'.SharesKey r.toLedgerInsert → r' = r) ∧
        r.consumedAt < r.expiresAt) ∧
    (∀ i r, (i, r) ∈ c.state.log → ∀ j input, j ≠ i → calls j = .consumeOwnerAuthorization input →
      SharesKeyOf input r.toLedgerInsert → ∀ outcome, (c'.thread j).rest = .done outcome →
        ∃ e, outcome = .error e) := by
  obtain ⟨-, hmoves⟩ := hlater.orderly (orderly_of_run hrun)
  refine ⟨fun r hr ↦ hmoves.1 hr, ?_, ?_, ?_⟩
  · intro i j r r' hij hi hj
    obtain ⟨_, _, -, -, hgranted⟩ := granted_of_done hrun hi
    obtain ⟨_, _, -, -, hgranted'⟩ := granted_of_done hrun hj
    have hapart := apart_of_committed hrun hij hgranted.committed hgranted'.committed
    simpa only [Consumption.Apart, LedgerInsert.SharesKey, not_or] using hapart
  · intro i r hi
    obtain ⟨input, value, hcall, haudit, hgranted⟩ := granted_of_done hrun hi
    obtain ⟨hrow, hexact⟩ := (orderly_of_run hrun).inv.1 _ hgranted.committed
    refine ⟨⟨input, hcall, hgranted.keys ▸ keysOf_of_auditConsumption haudit⟩, hrow, ?_,
      hgranted.unexpired⟩
    intro r' hr' hshares
    cases hledger : c.state.db.ledger with
    | missing => rw [hledger] at hexact; cases hexact
    | altered rows => rw [hledger] at hexact; cases hexact
    | exact table =>
      rw [Database.ledgerRows, hledger] at hrow hr'
      exact table.eq_of_sharesKey hr' hrow hshares
  · intro i r hr j input hji hcall hshares outcome hdone
    cases outcome with
    | error e => exact ⟨e, rfl⟩
    | ok reply =>
      -- The row that call `j` would have been granted shares a key with the committed one.
      exfalso
      have hrun' : Config.Run Step (begin db calls) c' := hrun.trans hlater
      obtain ⟨seen, hseen, hpost⟩ := (orderly_of_run hrun').ended hdone
      have hreturns := hpost _ rfl
      rw [hcall] at hreturns
      cases reply with
      | finished => exact hreturns
      | consumed r' =>
        obtain ⟨value, haudit, hgranted⟩ := hreturns
        exact apart_of_committed hrun' hji (hgranted.mono hseen).committed (hmoves.2 hr)
          (hgranted.sharesKey haudit hshares)

end Runs

/-! ### A run -/

/-- The answers of a database that never fails, under a clock that stands still. -/
def answers {ι : Type} (reading : JsNumber) (s : Shared ι) (i : ι) :
    (op : Op) → Except String op.Answer × Shared ι
  | .getDb => (.ok (), s)
  | .consume input =>
    match consumeTransaction s.db input reading reading with
    | .ok (db, result) => (.ok result, ⟨db, s.log ++ [(i, result.stored)]⟩)
    | .error e => (.error e, s)
  | .syncDurableDatabaseFile => (.ok (), s)
  | .inspect check => (check.run s.db, s)
  | .assertInitializedStore => (.ok (), s)
  | .readConsumption authorizationId =>
    (.ok (readOwnerAuthorizationConsumption s.db authorizationId), s)
  | .sqliteClock => (sqliteEpochMilliseconds reading, s)
  | .migrate =>
    match migrateTransaction s.db with
    | .ok db => (.ok (), { s with db })
    | .error e => (.error e, s)
  | .reset =>
    match resetTransaction s.db with
    | .ok db => (.ok (), { s with db })
    | .error e => (.error e, s)

theorem step_answers {ι : Type} (reading : JsNumber) (s : Shared ι) (i : ι) (op : Op) :
    Step s i op (answers reading s i op).1 (answers reading s i op).2 := by
  cases op with
  | getDb | syncDurableDatabaseFile | inspect | assertInitializedStore | readConsumption =>
    exact ⟨rfl, Or.inl rfl⟩
  | sqliteClock => exact ⟨reading, rfl, Or.inl rfl⟩
  | consume input =>
    refine ⟨reading, reading, ?_⟩
    simp only [answers]
    cases h : consumeTransaction s.db input reading reading with
    | error e => exact Or.inl ⟨rfl, e, rfl⟩
    | ok out => exact Or.inr ⟨out.2, rfl, Or.inl rfl⟩
  | migrate =>
    simp only [answers]
    cases h : migrateTransaction s.db with
    | error e => exact Or.inl ⟨rfl, e, rfl⟩
    | ok db => exact Or.inr ⟨(), by simp [h], Or.inl rfl⟩
  | reset =>
    simp only [answers]
    cases h : resetTransaction s.db with
    | error e => exact Or.inl ⟨rfl, e, rfl⟩
    | ok db => exact Or.inr ⟨(), by simp [h], Or.inl rfl⟩

/-- A fresh database file. -/
def freshDatabase : Database where
  userVersion := 0
  ledger := .missing
  storeIdentity := .missing
  triggers := []
  repositoryIndex := .missing
  preflightIndex := .missing
  providers := none
  campaigns := none
  repos := none
  migrationRuns := none

private def hex64 (digit : UInt16) : JsString := List.replicate 64 digit

/-- An owner authorization for one repository. -/
def sampleInput : OwnerAuthorizationConsumptionInput where
  authorizationId := .str (js "auth-1")
  envelopeId := .str (js "envelope-1")
  envelopeDigest := .str (js "sha256:" ++ hex64 0x61)
  nonceDigest := .str (hex64 0x62)
  signerId := .str (js "owner")
  keyId := .str (js "key-1")
  repositorySlug := .str (js "Acme/Api")
  repositoryId := .num (.int 7)
  baseSha := .str (List.replicate 40 0x63)
  preflightId := .str (js "pf_" ++ hex64 0x64)
  artifactDigest := .str (hex64 0x65)
  manifestDigest := .str (hex64 0x66)
  candidateBranch := .str (js "migrate/v2")
  candidateTreeSha := .str (List.replicate 40 0x61)
  expiresAt := .num (.int 2000)

/-- A migration and two calls that consume the same authorization. -/
def sampleCalls : ℕ → Call
  | 0 => .migrate
  | _ => .consumeOwnerAuthorization sampleInput

/-- The migration, then one call to its end, then the other. -/
def sampleRun : Config Op (fun op ↦ Except String op.Answer) String Reply (Shared ℕ) ℕ :=
  (begin freshDatabase sampleCalls).play (answers (.int 1000))
    (0 :: List.replicate 14 1 ++ List.replicate 14 2)

private def consumedRow : Process Reply → Option Consumption
  | .done (.ok (.consumed r)) => some r
  | _ => none

private theorem eq_done_of_consumedRow {p : Process Reply} (h : (consumedRow p).isSome = true) :
    ∃ r, p = .done (.ok (.consumed r)) := by
  unfold consumedRow at h
  split at h
  · exact ⟨_, rfl⟩
  · cases h

/-- In the sample run one of the two calls is granted the row, which the ledger then holds. -/
theorem owner_authorization_replay_safety_sample :
    Config.Run Step (begin freshDatabase sampleCalls) sampleRun ∧
      ∃ r, (sampleRun.thread 1).rest = .done (.ok (.consumed r)) ∧
        r ∈ sampleRun.state.db.ledgerRows ∧ r.consumedAt < r.expiresAt := by
  have hrun : Config.Run Step (begin freshDatabase sampleCalls) sampleRun :=
    Config.run_play (step_answers (.int 1000)) _ _
  obtain ⟨r, hr⟩ := eq_done_of_consumedRow (p := (sampleRun.thread 1).rest) (by decide +kernel)
  obtain ⟨-, -, hgranted, -⟩ := owner_authorization_replay_safety hrun .refl
  obtain ⟨-, hrow, -, hunexpired⟩ := hgranted 1 r hr
  exact ⟨hrun, r, hr, hrow, hunexpired⟩

end ApiMigrator.Db
