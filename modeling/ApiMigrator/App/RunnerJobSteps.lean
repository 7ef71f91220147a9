import ApiMigrator.App.RunnerJobHistory

/-!
What each part of a session's operations does to a consistent store that others move along: which
answers it can get, how it can fail, and what it adds to the trace of its call.
-/

set_option autoImplicit false
set_option relaxedAutoImplicit false

namespace ApiMigrator.App.RunnerJob

open Foundation.Text Foundation.Number Foundation.Json Foundation.Outcome Foundation.Pattern
open Foundation.Binary Foundation.Interaction PublicationRunner RunnerEvidence Db.JobStore
open CanonicalJson (canonicalJson)

/-! ### Traces -/

abbrev History := List (Event Op fun op ↦ Except Failure op.Answer)

/-- The checks of custody and shape that surround every access to the store. -/
def Op.isQuiet : Op → Bool
  | .custodyCheck | .custodySync | .metadata _ | .count => true
  | _ => false

/-- An attempt to write a row, or a reading of a row or of a checkout that was answered. -/
def isRowEvent : Event Op (fun op ↦ Except Failure op.Answer) → Bool
  | ⟨.readCheckout _, .ok _⟩ => true
  | ⟨.insert _, _⟩ => true
  | ⟨.compareAndSwap _ _, _⟩ => true
  | ⟨.readRow _ _, .ok _⟩ => true
  | _ => false

/-- What a call did, but for these checks. -/
def trace (h : History) : History := h.filter fun e ↦ !e.1.isQuiet

/-- The rows that a call has read or tried to write, and the checkout that it read. -/
def rowEvents (h : History) : History := h.filter isRowEvent

theorem rowEvents_trace (h : History) : rowEvents (trace h) = rowEvents h := by
  rw [rowEvents, trace, List.filter_filter, rowEvents]
  refine List.filter_congr fun e _ ↦ ?_
  obtain ⟨op, answer⟩ := e
  cases op with
  | readRow campaignId runId => simp [Op.isQuiet]
  | readCheckout checkoutPath => simp [Op.isQuiet]
  | _ => rfl

theorem rowEvents_of_trace {h h' : History} (htrace : trace h = trace h') :
    rowEvents h = rowEvents h' := by
  rw [← rowEvents_trace h, htrace, rowEvents_trace]

section Checks

variable {ι : Type} {P : Platform} {storeId : JsString} {s : Shared ι}

theorem metadata_of_consistent (h : Consistent P storeId s) :
    metadata s.db storeId = .ok s.db.wallHighWater := by
  simp only [metadata, bind_eq_ok, reject_eq_ok, exists_unit, pure_eq_ok, not_or, not_not,
    Bool.not_eq_false, and_true]
  exact ⟨⟨h.opened ▸ h.uuid, h.mark⟩, h.opened⟩

/-- A row that passes the checks of every field passes those of the lengths. -/
private theorem hasLengths_of_isValid {row : StoredJobRow} (h : row.isValid = true) :
    row.hasLengths = true := by
  simp only [StoredJobRow.isValid, Bool.and_eq_true, decide_eq_true_eq] at h
  obtain ⟨⟨⟨⟨⟨⟨⟨hcampaign, hrun⟩, hjob⟩, -⟩, hintent⟩, hdigest⟩, hsize⟩, -⟩ := h
  obtain ⟨hcampaign, hcampaign'⟩ := byteLength_of_isIdentifier hcampaign
  obtain ⟨hrun, hrun'⟩ := byteLength_of_isIdentifier hrun
  simp only [StoredJobRow.hasLengths, decide_eq_true_eq]
  exact ⟨hcampaign, hcampaign', hrun, hrun', byteLength_of_isJobId hjob,
    byteLength_of_isDigestText hintent, byteLength_of_isDigestText hdigest, hsize⟩

theorem count_of_consistent (h : Consistent P storeId s) :
    count s.db = .ok s.db.jobs.rows.length := by
  simp only [count, bind_eq_ok, reject_eq_ok, exists_unit, pure_eq_ok, not_lt, and_true]
  refine ⟨h.size, ?_⟩
  simp only [List.any_eq_true, Bool.not_eq_true', not_exists, not_and, Bool.not_eq_false]
  exact fun row hrow ↦ hasLengths_of_isValid (h.rows row hrow).1

end Checks

/-! ### Parts of an operation -/

section Parts

variable {ι : Type} {P : Platform} {storeId : JsString} {i : ι} {α : Type}

/-- The call goes on as `post` says, from a state that the store may have left meanwhile. -/
abbrev Ends (P : Platform) (storeId : JsString) (i : ι)
    (post : Post Op (fun op ↦ Except Failure op.Answer) Failure α (Shared ι)) (p : Service α)
    (history : History) (s : Shared ι) : Prop :=
  Meets Step (jobDiscipline P storeId ι) i post p history s

/-- Every failure of a dependency, before another row is written, satisfies the postcondition. -/
def FaultsEnd (P : Platform) (storeId : JsString) (history : History) (s : Shared ι)
    (post : History → Failure → Shared ι → Prop) : Prop :=
  ∀ h s' code, Grows P storeId s s' → rowEvents h = rowEvents history → post h (.fault code) s'

/-- So does every failure but corruption. -/
def FailuresEnd (P : Platform) (storeId : JsString) (history : History) (s : Shared ι)
    (post : History → Failure → Shared ι → Prop) : Prop :=
  ∀ h s' e, Grows P storeId s s' → rowEvents h = rowEvents history → e ≠ .job .storeCorrupt → post h e s'

variable {history : History} {s : Shared ι} {fails : History → Failure → Shared ι → Prop}

theorem Grows.refl (s : Shared ι) : Grows P storeId s s := (jobDiscipline P storeId ι).rel_refl s

theorem Grows.trans {s s' s'' : Shared ι} (h : Grows P storeId s s')
    (h' : Grows P storeId s' s'') : Grows P storeId s s'' :=
  (jobDiscipline P storeId ι).rel_trans h h'

theorem FaultsEnd.later (h : FaultsEnd P storeId history s fails) {history' : History}
    {s' : Shared ι} (hgrows : Grows P storeId s s') (hwrites : rowEvents history' = rowEvents history) :
    FaultsEnd P storeId history' s' fails :=
  fun h' s'' code hgrows' hwrites' ↦ h h' s'' code (hgrows.trans hgrows') (hwrites'.trans hwrites)

theorem FailuresEnd.later (h : FailuresEnd P storeId history s fails) {history' : History}
    {s' : Shared ι} (hgrows : Grows P storeId s s') (hwrites : rowEvents history' = rowEvents history) :
    FailuresEnd P storeId history' s' fails :=
  fun h' s'' e hgrows' hwrites' ↦ h h' s'' e (hgrows.trans hgrows') (hwrites'.trans hwrites)

/-- How a part of an operation ends: with a value of which `returns` holds, or failing. -/
def Outcomes (returns : History → α → Shared ι → Prop)
    (fails : History → Failure → Shared ι → Prop) :
    Post Op (fun op ↦ Except Failure op.Answer) Failure α (Shared ι) :=
  fun h outcome s ↦
    match outcome with
    | .ok a => returns h a s
    | .error e => fails h e s

variable {returns : History → α → Shared ι → Prop}

/-- One operation, and what it answers to a consistent store. -/
theorem ends_run (op : Op) (hop : op.Sanctioned P storeId)
    {returns : History → op.Answer → Shared ι → Prop}
    (hstep : ∀ now answer after, Grows P storeId s now → Consistent P storeId now →
      Consistent P storeId after → Grows P storeId now after → Step now i op answer after →
      Outcomes returns fails (history ++ [⟨op, answer⟩]) answer after) :
    Ends P storeId i (Outcomes returns fails) (run op) history s := by
  intro now hgrows hinv answer after hop'
  obtain ⟨hinv', hgrows'⟩ := keeps_of_sanctioned hop now i answer after hinv hop'
  exact ⟨hinv', hgrows', hstep now answer after hgrows hinv hinv' hgrows' hop'⟩

/-- Sequencing two parts. -/
theorem ends_bind {β : Type} {returns' : History → β → Shared ι → Prop} {p : Service α}
    {f : α → Service β}
    (hp : Ends P storeId i
      (Outcomes (fun h a s' ↦ Ends P storeId i (Outcomes returns' fails) (f a) h s') fails)
      p history s) :
    Ends P storeId i (Outcomes returns' fails) (p >>= f) history s := by
  refine Meets.bind (hp.mono fun h outcome s' hend ↦ ?_)
  cases outcome with
  | ok a => exact hend
  | error e => exact hend

theorem ends_lift {β : Type} {returns' : History → β → Shared ι → Prop} {outcome : Except Failure α}
    {f : α → Service β} (herror : ∀ e, outcome = .error e → fails history e s)
    (hok : ∀ a, outcome = .ok a → Ends P storeId i (Outcomes returns' fails) (f a) history s) :
    Ends P storeId i (Outcomes returns' fails) (Prog.lift outcome >>= f) history s := by
  cases outcome with
  | ok a => exact hok a rfl
  | error e => exact herror e rfl

private theorem rowEvents_append (h : History) {event : Event Op fun op ↦ Except Failure op.Answer}
    (hevent : isRowEvent event = false) : rowEvents (h ++ [event]) = rowEvents h := by
  simp [rowEvents, hevent]

private theorem trace_quiet (h : History) {op : Op} (hop : op.isQuiet = true)
    (answer : Except Failure op.Answer) : trace (h ++ [⟨op, answer⟩]) = trace h := by
  simp [trace, hop]

/-- A check that a consistent store passes fails only when a dependency does. -/
theorem ends_quiet (op : Op) (hop : op.isQuiet = true) (value : Shared ι → op.Answer)
    (hquery : ∀ now answer after, Consistent P storeId now → Step now i op answer after →
      after = now ∧ (answer = .ok (value now) ∨ Faulted answer))
    {returns : History → op.Answer → Shared ι → Prop}
    (hfault : FaultsEnd P storeId history s fails)
    (hok : ∀ h now, Grows P storeId s now → Consistent P storeId now →
      trace h = trace history → returns h (value now) now) :
    Ends P storeId i (Outcomes returns fails) (run op) history s := by
  have hsanctioned : op.Sanctioned P storeId := by cases op <;> trivial
  have hrow : ∀ answer, isRowEvent ⟨op, answer⟩ = false := by
    intro answer
    cases op <;> first | rfl | exact nomatch hop
  refine ends_run op hsanctioned fun now answer after hgrows hinv hinv' _ hstep ↦ ?_
  obtain ⟨rfl, rfl | ⟨code, rfl⟩⟩ := hquery now answer after hinv hstep
  · exact hok _ _ hgrows hinv (trace_quiet _ hop _)
  · exact hfault _ _ code hgrows (rowEvents_append _ (hrow _))

@[simp]
theorem storeOutcome_ok {β : Type} (b : β) : storeOutcome (.ok b) = .ok b := rfl

theorem ends_check {returns : History → Unit → Shared ι → Prop}
    (hfault : FaultsEnd P storeId history s fails)
    (hok : ∀ h s', Grows P storeId s s' → Consistent P storeId s' → trace h = trace history →
      returns h () s') :
    Ends P storeId i (Outcomes returns fails) (check storeId) history s := by
  refine ends_bind (ends_quiet .custodyCheck rfl (fun _ ↦ ()) (fun _ _ _ _ hstep ↦ hstep) hfault
    fun h₁ s₁ hs₁ _ ht₁ ↦ ?_)
  refine ends_bind (ends_quiet (.metadata storeId) rfl (fun s ↦ s.db.wallHighWater)
    (fun _ _ _ hinv hstep ↦ ?_) (hfault.later hs₁ (rowEvents_of_trace ht₁)) fun h₂ s₂ hs₂ _ ht₂ ↦ ?_)
  · simp only [Step, Queries, metadata_of_consistent hinv, storeOutcome_ok] at hstep
    exact hstep
  have hs₂ := hs₁.trans hs₂
  have ht₂ := ht₂.trans ht₁
  refine ends_bind (ends_quiet .count rfl (fun s ↦ s.db.jobs.rows.length)
    (fun _ _ _ hinv hstep ↦ ?_) (hfault.later hs₂ (rowEvents_of_trace ht₂))
    fun h₃ s₃ hs₃ hinv₃ ht₃ ↦ ?_)
  · simp only [Step, Queries, count_of_consistent hinv, storeOutcome_ok] at hstep
    exact hstep
  exact hok h₃ s₃ (hs₂.trans hs₃) hinv₃ (ht₃.trans ht₂)

theorem trace_append (h : History) (event : Event Op fun op ↦ Except Failure op.Answer)
    (hloud : event.1.isQuiet = false) : trace (h ++ [event]) = trace h ++ [event] := by
  simp [trace, hloud]

/-! #### Time -/

@[simp]
theorem storeOutcome_eq_error {β : Type} {outcome : Except StoreFailureCode β} {e : Failure} :
    storeOutcome outcome = .error e ↔ ∃ code, outcome = .error code ∧ e = .job (storeCode code) := by
  cases outcome <;> simp [storeOutcome, Except.mapError, eq_comm]

/-- The transaction that observes a time, on a consistent store. -/
theorem step_observe {now after : Shared ι} {n : ℕ} {answer : Except Failure Unit}
    (hinv : Consistent P storeId now) (hstep : Step now i (.observe storeId n) answer after) :
    answer = .ok () ∧ now.db.wallHighWater ≤ n ∧ after.db.wallHighWater = n ∨
      answer = .error (.job .clockRollback) ∧ n < now.db.wallHighWater ∨ Faulted answer := by
  have hmark := metadata_of_consistent hinv
  obtain ⟨-, hfault | ⟨e, hbody, rfl⟩⟩ | ⟨u, hbody, hanswer⟩ := hstep
  · exact Or.inr (Or.inr hfault)
  · simp only [observeBody, observeTransaction, hmark, ok_bind, bind_eq_error, reject_eq_error,
      storeOutcome_eq_error, pure_eq_error, and_false, exists_false, or_false] at hbody
    obtain ⟨code, ⟨hlt, rfl⟩, rfl⟩ := hbody
    exact Or.inr (Or.inl ⟨rfl, hlt⟩)
  · simp only [observeBody, bind_eq_ok, pure_eq_ok, storeOutcome_eq_ok, Prod.mk.injEq] at hbody
    obtain ⟨db, hobserve, rfl, -⟩ := hbody
    obtain ⟨hle, rfl⟩ := observeTransaction_eq_ok hobserve
    rcases hanswer with rfl | hfault
    · exact Or.inl ⟨rfl, hle, rfl⟩
    · exact Or.inr (Or.inr hfault)

/-- A reading that is a timestamp. -/
def Reads (reading : Reading) (n : ℕ) : Prop := timestampOf reading.value = some n

/-- The store holds the record, or what it has grown to. -/
def Holds (P : Platform) (storeId : JsString) (s : Shared ι) (r : JobRecord) : Prop :=
  r ≤ storedJobs P storeId s.db r.place

theorem Holds.later {s s' : Shared ι} {r : JobRecord} (h : Holds P storeId s r)
    (hgrows : Grows P storeId s s') : Holds P storeId s' r :=
  le_trans h (hgrows.jobs _)

theorem Holds.exists {s : Shared ι} {r : JobRecord} (h : Holds P storeId s r) :
    ∃ r' : JobRecord, storedJobs P storeId s.db r.place = r' ∧ r ≤ r' :=
  WithBot.coe_le_iff.mp h

end Parts

end ApiMigrator.App.RunnerJob
