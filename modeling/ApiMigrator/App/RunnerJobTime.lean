import ApiMigrator.App.RunnerJobSteps

/-!
The clock of the job service. A call that returns a record has last observed a time and then read
its clock again, within every bound of the record; and a call whose first reading lies below the
mark of the store ends before it writes anything.
-/

set_option autoImplicit false
set_option relaxedAutoImplicit false

namespace ApiMigrator.App.RunnerJob

open Foundation.Text Foundation.Number Foundation.Json Foundation.Outcome Foundation.Pattern
open Foundation.Binary Foundation.Interaction PublicationRunner RunnerEvidence Db.JobStore

/-! ### What a call has done when it returns -/

/-- The last thing a call did was to observe a time and to find the record current at a later
reading of its clock. -/
def EndsCurrent (storeId : JsString) (h : History) (r : JobRecord) : Prop :=
  ∃ before n last m, trace h = before ++ [⟨.observe storeId n, .ok ()⟩, ⟨.wallNow, .ok last⟩] ∧
    Reads last m ∧ n ≤ m ∧ assertJobCurrent r (.int m) = .ok ()

section Returns

variable {P : Platform} {storeId : JsString} {history : History}

private theorem returns_quiet {op : Op} (hop : op.isQuiet = true)
    {returns : History → op.Answer → Prop}
    (hreturns : ∀ h a, trace h = trace history → returns h a) : (run op).Returns returns history :=
  .attempt fun a ↦ hreturns _ a (by simp [trace, hop])

private theorem returns_check {returns : History → Unit → Prop}
    (hreturns : ∀ h, trace h = trace history → returns h ()) :
    (check storeId).Returns returns history := by
  refine .bind (returns_quiet rfl fun h₁ _ ht₁ ↦ ?_)
  refine .bind (returns_quiet rfl fun h₂ _ ht₂ ↦ ?_)
  refine .bind (returns_quiet rfl fun h₃ _ ht₃ ↦ ?_)
  exact hreturns h₃ (ht₃.trans (ht₂.trans ht₁))

private theorem returns_sync {returns : History → Unit → Prop}
    (hreturns : ∀ h, trace h = trace history → returns h ()) :
    (sync storeId).Returns returns history := by
  refine .bind (returns_quiet rfl fun h₁ _ ht₁ ↦ ?_)
  exact returns_check fun h₂ ht₂ ↦ hreturns h₂ (ht₂.trans ht₁)

private theorem returns_observeTime {returns : History → Unit → Prop} {now : JsNumber}
    (hreturns : ∀ h (n : ℕ), safeInteger now = some (n : ℤ) →
      trace h = trace history ++ [⟨.observe storeId n, .ok ()⟩] → returns h ()) :
    (observeTime storeId now).Returns returns history := by
  refine .lift_bind fun n hn ↦ ?_
  refine .bind (returns_check fun h₁ ht₁ ↦ ?_)
  refine .bind (.attempt fun _ ↦ ?_)
  refine .bind (returns_sync fun h₂ ht₂ ↦ ?_)
  refine .bind (returns_quiet rfl fun h₃ (mark : ℕ) ht₃ ↦ ?_)
  refine .ensure fun (_ : n ≤ mark) ↦ ?_
  refine hreturns h₃ n (observable_eq_ok.mp (storeOutcome_eq_ok.mp hn)) ?_
  rw [ht₃, ht₂, trace_append _ _ rfl, ht₁]
  rfl

private theorem returns_currentTime {returns : History → ℕ → Prop}
    (hreturns : ∀ h reading n, Reads reading n →
      trace h = trace history ++ [⟨.wallNow, .ok reading⟩] → returns h n) :
    currentTime.Returns returns history := by
  refine Prog.Returns.recover (fun _ ↦ Failure.job .inputInvalid) ?_
  refine .bind (.attempt fun reading ↦ ?_)
  refine .lift fun n hn ↦ ?_
  exact hreturns _ reading n (orThrow_eq_ok.mp (jobOutcome_eq_ok.mp hn)) (trace_append _ _ rfl)

theorem safeInteger_natCast {n : ℕ} {i : ℤ} (h : safeInteger (.int n) = some i) : i = n := by
  simp only [safeInteger, Option.ite_none_right_eq_some, Option.some.injEq] at h
  exact h.2.symm

private theorem returns_checkRunnerJobCurrent {returns : History → Unit → Prop}
    {record : JobRecord} (hreturns : ∀ h, EndsCurrent storeId h record → returns h ()) :
    (checkRunnerJobCurrent storeId record).Returns returns history := by
  refine .bind (returns_currentTime fun h₁ _ n _ _ ↦ ?_)
  refine .bind (returns_observeTime fun h₂ n' hn' ht₂ ↦ ?_)
  refine .bind (returns_currentTime fun h₃ last m hlast ht₃ ↦ ?_)
  refine .ensure_bind fun hle ↦ ?_
  refine .lift fun _ hcurrent ↦ hreturns h₃ ⟨trace h₁, n', last, m, ?_, hlast, ?_, ?_⟩
  · rw [ht₃, ht₂, List.append_assoc]
    rfl
  · obtain rfl : n' = n := Int.ofNat.inj (safeInteger_natCast hn')
    exact hle
  · exact jobOutcome_eq_ok.mp hcurrent

theorem eq_int_of_timestampOf {value : JsNumber} {n : ℕ} (h : timestampOf value = some n) :
    value = .int n ∧ safeInteger value = some (n : ℤ) := by
  simp only [timestampOf] at h
  split at h
  · rename_i i hi
    simp only [Option.ite_none_right_eq_some, Option.some.injEq] at h
    obtain ⟨⟨hpos, -⟩, rfl⟩ := h
    rw [Int.toNat_of_nonneg hpos.le]
    refine ⟨?_, hi⟩
    cases value with
    | int j =>
      simp only [safeInteger, Option.ite_none_right_eq_some, Option.some.injEq] at hi
      rw [hi.2]
    | negZero =>
      obtain rfl := Option.some.inj hi
      exact absurd hpos (lt_irrefl 0)
    | fraction | infinite | nan => cases hi
  · cases h

private theorem currentAt_of_assertJobCurrent {r : JobRecord} {value : JsNumber} {u : Unit}
    (h : assertJobCurrent r value = .ok u) :
    ∃ m, timestampOf value = some m ∧ assertJobCurrent r (.int m) = .ok () := by
  obtain ⟨m, hm, -⟩ := bind_eq_ok.mp h
  rw [orThrow_eq_ok] at hm
  exact ⟨m, hm, (eq_int_of_timestampOf hm).1 ▸ h⟩

private theorem returns_writeReview {selected : JobKey} {row : StoredJobRow} {r : JobRecord}
    {review : RunnerEvidenceContext} {output : PublicationRunnerOutput}
    {completedAt startedAt : ℕ} :
    (writeReview P storeId selected row r review output completedAt startedAt).Returns
      (EndsCurrent storeId) history := by
  refine .skip fun _ next ↦ ?_
  refine .skip fun _ _ ↦ ?_
  refine .skip fun _ _ ↦ ?_
  refine .skip fun _ swapped ↦ ?_
  obtain ⟨committed, swapped⟩ := swapped
  dsimp only
  split_ifs
  · refine .skip fun _ actual ↦ ?_
    refine .skip fun _ _ ↦ ?_
    exact .bind (returns_checkRunnerJobCurrent fun _ hcurrent ↦ hcurrent)
  · refine .skip fun _ _ ↦ ?_
    refine .skip fun _ _ ↦ ?_
    refine .skip fun _ actual ↦ ?_
    refine .skip fun _ _ ↦ ?_
    exact .bind (returns_checkRunnerJobCurrent fun _ hcurrent ↦ hcurrent)

private theorem returns_recordRunnerJobReview {key output completedAt : JsValue} :
    (recordRunnerJobReview P storeId key output completedAt).Returns (EndsCurrent storeId)
      history := by
  refine .skip fun _ _ ↦ ?_
  refine .skip fun _ _ ↦ ?_
  refine .skip fun _ _ ↦ ?_
  refine .skip fun _ _ ↦ ?_
  refine .skip fun _ _ ↦ ?_
  refine .skip fun _ _ ↦ ?_
  refine .skip fun _ _ ↦ ?_
  refine .skip fun _ previous ↦ ?_
  refine .skip fun _ _ ↦ ?_
  refine .skip fun _ _ ↦ ?_
  refine .skip fun _ _ ↦ ?_
  refine .skip fun _ _ ↦ ?_
  split
  · refine .skip fun _ _ ↦ ?_
    refine .skip fun _ _ ↦ ?_
    exact .bind (returns_checkRunnerJobCurrent fun _ hcurrent ↦ hcurrent)
  · exact returns_writeReview

private theorem returns_retainIdentity {selected : JobKey} {snapshot : JobRecord}
    {identity : JsValue} :
    (retainIdentity P storeId selected snapshot identity).Returns (EndsCurrent storeId)
      history := by
  refine .skip fun _ _ ↦ ?_
  refine .skip fun _ _ ↦ ?_
  refine .skip fun _ _ ↦ ?_
  refine .skip fun _ _ ↦ ?_
  refine .skip fun _ actual ↦ ?_
  refine .skip fun _ _ ↦ ?_
  refine .skip fun _ _ ↦ ?_
  refine .skip fun h₀ _ ↦ ?_
  refine .bind (.attempt fun observed ↦ ?_)
  refine .bind (returns_observeTime fun h₂ n hn ht₂ ↦ ?_)
  refine .bind (.attempt fun finished ↦ ?_)
  refine .ensure_bind fun hbelow ↦ ?_
  refine .lift_bind fun _ _ ↦ ?_
  refine .lift_bind fun _ hcurrent ↦ ?_
  obtain ⟨m, hm, hcurrent⟩ := currentAt_of_assertJobCurrent (jobOutcome_eq_ok.mp hcurrent)
  refine ⟨trace (h₀ ++ [⟨.wallNow, .ok observed⟩]), n, finished, m, ?_, hm, ?_, hcurrent⟩
  · rw [trace_append _ _ rfl, ht₂, List.append_assoc]
    rfl
  · rw [hn, (eq_int_of_timestampOf hm).1] at hbelow
    simpa [isBelow] using hbelow

private theorem returns_acquireRunnerJobEvidence {key : JsValue} :
    (acquireRunnerJobEvidence P storeId key).Returns (EndsCurrent storeId) history := by
  refine .skip fun _ _ ↦ ?_
  refine .skip fun _ _ ↦ ?_
  refine .skip fun _ _ ↦ ?_
  refine .skip fun _ snapshot ↦ ?_
  refine .skip fun _ _ ↦ ?_
  refine .skip fun _ result ↦ ?_
  refine .skip fun _ _ ↦ ?_
  refine .skip fun _ _ ↦ ?_
  cases result with
  | error code => trivial
  | ok identity => exact returns_retainIdentity

private theorem returns_prepareRunnerJobWithSource {value : JsValue} {maxSourceBytes : Option ℕ}
    {directory : Option JsString} :
    (prepareRunnerJobWithSource P storeId value maxSourceBytes directory).Returns
      (fun h x ↦ EndsCurrent storeId h x.1) history := by
  refine .skip fun _ input ↦ ?_
  refine .skip fun _ _ ↦ ?_
  refine .skip fun _ _ ↦ ?_
  refine .skip fun _ _ ↦ ?_
  refine .skip fun _ _ ↦ ?_
  refine .skip fun _ source ↦ ?_
  refine .skip fun _ found ↦ ?_
  cases found with
  | none =>
    refine .bind ?_
    refine .skip fun _ _ ↦ ?_
    refine .skip fun _ _ ↦ ?_
    refine .skip fun _ _ ↦ ?_
    refine .skip fun _ _ ↦ ?_
    refine .skip fun _ candidate ↦ ?_
    refine .skip fun _ _ ↦ ?_
    refine .skip fun _ _ ↦ ?_
    refine .skip fun _ _ ↦ ?_
    refine .skip fun _ winner ↦ ?_
    refine .skip fun _ _ ↦ ?_
    refine .skip fun _ _ ↦ ?_
    refine .skip fun _ _ ↦ ?_
    exact .bind (returns_checkRunnerJobCurrent fun _ hcurrent ↦ hcurrent)
  | some row =>
    refine .skip fun _ existing ↦ ?_
    refine .bind ?_
    refine .skip fun _ _ ↦ ?_
    refine .skip fun _ _ ↦ ?_
    refine .skip fun _ _ ↦ ?_
    refine .skip fun _ _ ↦ ?_
    exact .bind (returns_checkRunnerJobCurrent fun _ hcurrent ↦ hcurrent)

private theorem returns_readRunnerJobHandoff {key : JsValue} :
    (readRunnerJobHandoff P storeId key).Returns (fun h x ↦ EndsCurrent storeId h x.job)
      history := by
  refine .skip fun _ selected ↦ ?_
  refine .skip fun _ record ↦ ?_
  refine .skip fun _ _ ↦ ?_
  refine .skip fun _ bytes ↦ ?_
  refine .skip fun _ _ ↦ ?_
  refine .skip fun _ current ↦ ?_
  refine .bind (.bind (returns_checkRunnerJobCurrent fun h hcurrent ↦ ?_))
  refine .ensure fun _ ↦ ?_
  refine .lift_bind fun _ _ ↦ ?_
  exact .ensure_bind fun _ ↦ hcurrent

/-- What a reply tells of a job. -/
def Reply.record : Reply → Option JobRecord
  | .opened => none
  | .job found => some found
  | .handoff given => some given.job

/-- The calls that return a record only while it is current. -/
def Call.isTimed : Call → Bool
  | .prepare _ | .prepareHandoff _ _ | .readHandoff _ | .recordReviewedOutput _ _ _
  | .acquireEvidence _ | .acquireWithoutClient _ => true
  | .open | .inspect _ => false

theorem Call.returns {call : Call} (hcall : call.isTimed = true) :
    (call.program P storeId).Returns
      (fun h reply ↦ ∀ r, reply.record = some r → EndsCurrent storeId h r) history := by
  have hjob : ∀ {h : History} {record : JobRecord}, EndsCurrent storeId h record →
      ∀ r, (Reply.job record).record = some r → EndsCurrent storeId h r := by
    rintro h record hcurrent r hr
    obtain rfl : record = r := Option.some.inj hr
    exact hcurrent
  have hhandoff : ∀ {h : History} {handoff : RunnerJobHandoff}, EndsCurrent storeId h handoff.job →
      ∀ r, (Reply.handoff handoff).record = some r → EndsCurrent storeId h r := by
    rintro h handoff hcurrent r hr
    obtain rfl : handoff.job = r := Option.some.inj hr
    exact hcurrent
  cases call with
  | «open» => cases hcall
  | inspect key => cases hcall
  | prepare input =>
    refine .bind (.bind (returns_prepareRunnerJobWithSource.mono fun h prepared hcurrent ↦ ?_))
    exact hjob hcurrent
  | prepareHandoff input directory =>
    refine .bind ?_
    refine .skip fun _ prepared ↦ ?_
    refine .skip fun _ _ ↦ ?_
    refine .skip fun _ _ ↦ ?_
    exact returns_readRunnerJobHandoff.mono fun h handoff hcurrent ↦ hhandoff hcurrent
  | readHandoff key =>
    exact .bind (returns_readRunnerJobHandoff.mono fun h handoff hcurrent ↦ hhandoff hcurrent)
  | recordReviewedOutput key output completedAt =>
    exact .bind (returns_recordRunnerJobReview.mono fun h record hcurrent ↦ hjob hcurrent)
  | acquireEvidence key =>
    exact .bind (returns_acquireRunnerJobEvidence.mono fun h record hcurrent ↦ hjob hcurrent)
  | acquireWithoutClient key =>
    refine .bind ?_
    refine .skip fun _ _ ↦ ?_
    refine .skip fun _ _ ↦ ?_
    refine .skip fun _ _ ↦ ?_
    refine .skip fun _ _ ↦ ?_
    refine .skip fun _ _ ↦ ?_
    exact .ensure_bind fun _ ↦ trivial

end Returns

/-! ### The times that a call has observed -/

section Times

variable {ι : Type} {P : Platform} {storeId : JsString} {i : ι}

/-- The observations of a call never went back, and lie within the mark. -/
structure Ordered (storeId : JsString) (h : History) (s : Shared ι) : Prop where
  marked : ∀ n, ⟨.observe storeId n, .ok ()⟩ ∈ h → n ≤ s.db.wallHighWater
  sorted : ∀ before n after, h = before ++ ⟨.observe storeId n, .ok ()⟩ :: after →
    ∀ n', ⟨.observe storeId n', .ok ()⟩ ∈ before → n' ≤ n

private theorem ordered_step {now after : Shared ι} {history : History} {op : Op}
    {answer : Except Failure op.Answer} (hinv : Consistent P storeId now)
    (hstep : Step now i op answer after) (h : Ordered storeId history now)
    (hafter : now.db.wallHighWater ≤ after.db.wallHighWater) :
    Ordered storeId (history ++ [⟨op, answer⟩]) after := by
  have hlast : ∀ n, (⟨op, answer⟩ : Event Op fun op ↦ Except Failure op.Answer) =
      ⟨.observe storeId n, .ok ()⟩ → now.db.wallHighWater ≤ n ∧ after.db.wallHighWater = n := by
    intro n hevent
    cases hevent
    obtain ⟨-, hle, hmark⟩ | ⟨hanswer, -⟩ | ⟨code, hanswer⟩ := step_observe hinv hstep
    · exact ⟨hle, hmark⟩
    · cases hanswer
    · cases hanswer
  constructor
  · intro n hmem
    obtain hmem | hmem := List.mem_append.mp hmem
    · exact (h.marked n hmem).trans hafter
    · exact (hlast n (List.mem_singleton.mp hmem).symm).2.ge
  · intro before n rest hsplit n' hmem
    obtain rfl | ⟨rest', last, rfl⟩ := List.eq_nil_or_concat' rest
    · obtain ⟨rfl, hevent⟩ := List.append_inj' hsplit rfl
      exact (h.marked n' hmem).trans (hlast n (List.singleton_inj.mp hevent)).1
    · rw [← List.cons_append, ← List.append_assoc] at hsplit
      obtain ⟨hsplit, -⟩ := List.append_inj' hsplit rfl
      exact h.sorted before n rest' hsplit n' hmem

/-- The time observed last is the latest of them. -/
theorem Ordered.le_last {h : History} {s : Shared ι} (hordered : Ordered storeId h s)
    {before more : History} {n n' : ℕ}
    (htrace : trace h = before ++ ⟨.observe storeId n, .ok ()⟩ :: more)
    (hmore : ∀ n', ⟨.observe storeId n', .ok ()⟩ ∉ more)
    (hmem : ⟨.observe storeId n', .ok ()⟩ ∈ h) : n' ≤ n := by
  obtain ⟨front, back, rfl, hfront, hback⟩ := List.filter_eq_append_iff.mp htrace
  obtain ⟨skipped, rest, rfl, hskipped, -, hrest⟩ := List.filter_eq_cons_iff.mp hback
  have hloud : ∀ {e : History}, ⟨.observe storeId n', .ok ()⟩ ∈ e →
      ⟨.observe storeId n', .ok ()⟩ ∈ trace e := by
    intro e he
    exact List.mem_filter.mpr ⟨he, rfl⟩
  rw [List.mem_append, List.mem_append, List.mem_cons] at hmem
  obtain hmem | hmem | hmem | hmem := hmem
  · exact hordered.sorted (front ++ skipped) n rest (by simp) n' (List.mem_append_left _ hmem)
  · exact absurd rfl (hskipped _ hmem)
  · cases hmem
    exact le_refl _
  · exact absurd (hrest ▸ hloud hmem) (hmore n')

end Times

/-! ### A clock that has gone back -/

def readingOf : Event Op (fun op ↦ Except Failure op.Answer) → Option Reading
  | ⟨.wallNow, .ok reading⟩ => some reading
  | _ => none

/-- The first time that the call read. -/
def firstReading (h : History) : Option Reading := (h.filterMap readingOf).head?

def isWrite : Event Op (fun op ↦ Except Failure op.Answer) → Bool
  | ⟨.insert _, _⟩ => true
  | ⟨.compareAndSwap _ _, _⟩ => true
  | _ => false

/-- The first reading of the call is a time before the mark of that moment. -/
def LateReading (h : History) : Prop :=
  ∃ reading n, firstReading h = some reading ∧ Reads reading n ∧ n < reading.wallHighWater

section Rollback

variable {ι : Type} {P : Platform} {storeId : JsString} {i : ι} {α β : Type}

/-- A call that has returned started in time, and one that started late has written no row and
failed for that reason, or because a dependency failed. -/
def RollsBack : Post Op (fun op ↦ Except Failure op.Answer) Failure α (Shared ι) :=
  fun h outcome _ ↦
    match outcome with
    | .ok _ => ∃ reading, firstReading h = some reading ∧
        ∀ n, Reads reading n → reading.wallHighWater ≤ n
    | .error e => LateReading h → (∀ event ∈ h, isWrite event = false) ∧
        (e = .job .clockRollback ∨ ∃ code, e = .fault code)

/-- The steps of a session that keep its discipline. -/
abbrev KeptStep (P : Platform) (storeId : JsString) (ι : Type) :=
  (jobDiscipline P storeId ι).restrict (Step (ι := ι))

/-- The call has neither read its clock nor tried to write. -/
def Untouched (h : History) : Prop := ∀ e ∈ h, readingOf e = none ∧ isWrite e = false

private theorem firstReading_of_untouched {h : History} (hh : Untouched h) :
    firstReading h = none := by
  have hnil : h.filterMap readingOf = [] := List.filterMap_eq_nil_iff.mpr fun e he ↦ (hh e he).1
  rw [firstReading, hnil]
  rfl

/-- What a call may do before it reads its clock. -/
def Op.IsIdle : Op → Prop
  | .custodyCheck | .metadata _ | .count | .listRows | .readRow _ _ => True
  | _ => False

private theorem meets_idle {post : Post Op (fun op ↦ Except Failure op.Answer) Failure β (Shared ι)}
    (herror : ∀ h e s, Untouched h → post h (.error e) s) {p : Service α}
    (hp : p.Only Op.IsIdle fun _ ↦ True) {f : α → Service β} {h : History} {s : Shared ι}
    (hh : Untouched h) (hf : ∀ h' a s', Untouched h' →
      Meets (KeptStep P storeId ι) (jobDiscipline P storeId ι) i post (f a) h' s') :
    Meets (KeptStep P storeId ι) (jobDiscipline P storeId ι) i post (p >>= f) h s := by
  induction p generalizing h s with
  | done outcome =>
    cases outcome with
    | ok a => exact hf h a s hh
    | error e => exact herror h e s hh
  | call op next ih =>
    intro now hgrows hinv answer after hstep
    refine ⟨hstep.2.1, hstep.2.2, ih answer (hp.2 answer) ?_⟩
    intro e he
    obtain he | he := List.mem_append.mp he
    · exact hh e he
    · obtain rfl := List.mem_singleton.mp he
      have hop : op.IsIdle := hp.1
      cases op <;> first | exact ⟨rfl, rfl⟩ | exact hop.elim

private theorem rollsBack_of_untouched {h : History} {e : Failure} {s : Shared ι}
    (hh : Untouched h) : RollsBack (α := α) h (.error e) s := by
  rintro ⟨reading, n, hfirst, -⟩
  rw [firstReading_of_untouched hh] at hfirst
  cases hfirst

private theorem rollsBack_idle {p : Service α} (hp : p.Only Op.IsIdle fun _ ↦ True)
    {f : α → Service β} {h : History} {s : Shared ι} (hh : Untouched h)
    (hf : ∀ h' a s', Untouched h' → Meets (KeptStep P storeId ι) (jobDiscipline P storeId ι) i
      RollsBack (f a) h' s') :
    Meets (KeptStep P storeId ι) (jobDiscipline P storeId ι) i RollsBack (p >>= f) h s :=
  meets_idle (fun _ _ _ ↦ rollsBack_of_untouched) hp hh hf

private theorem firstReading_append {h : History} (hh : Untouched h) (reading : Reading)
    (more : History) : firstReading (h ++ ⟨.wallNow, .ok reading⟩ :: more) = some reading := by
  have hnil : h.filterMap readingOf = [] := List.filterMap_eq_nil_iff.mpr fun e he ↦ (hh e he).1
  rw [firstReading, List.filterMap_append, hnil]
  rfl

/-- Observing the time that was read first: it stands, or the call ends. -/
private theorem rollsBack_observe {h : History} {reading : Reading} {s : Shared ι}
    {rest : Unit → Service α} (hh : Untouched h) (hmark : reading.wallHighWater ≤ s.db.wallHighWater) :
    Meets (KeptStep P storeId ι) (jobDiscipline P storeId ι) i RollsBack
      (observeTime storeId reading.value >>= rest) (h ++ [⟨.wallNow, .ok reading⟩]) s := by
  by_cases hlate : ∃ n, Reads reading n ∧ n < reading.wallHighWater
  · obtain ⟨n, hn, hlt⟩ := hlate
    have hwrites : ∀ h', rowEvents h' = rowEvents (h ++ [⟨.wallNow, .ok reading⟩]) →
        ∀ event ∈ h', isWrite event = false := by
      intro h' hrows event hevent
      by_contra hwrite
      rw [Bool.not_eq_false] at hwrite
      have hrow : isRowEvent event = true := by
        obtain ⟨op, answer⟩ := event
        cases op <;> first | rfl | cases hwrite
      have hmem : event ∈ rowEvents h' := List.mem_filter.mpr ⟨hevent, hrow⟩
      rw [hrows] at hmem
      obtain ⟨hmem, -⟩ := List.mem_filter.mp hmem
      obtain hmem | hmem := List.mem_append.mp hmem
      · rw [(hh event hmem).2] at hwrite
        cases hwrite
      · obtain rfl := List.mem_singleton.mp hmem
        cases hwrite
    have hfails : Ends P storeId i (Outcomes (fun _ _ _ ↦ False) fun h' e _ ↦
        rowEvents h' = rowEvents (h ++ [⟨.wallNow, .ok reading⟩]) ∧
          (e = .job .clockRollback ∨ ∃ code, e = .fault code))
        (observeTime storeId reading.value) (h ++ [⟨.wallNow, .ok reading⟩]) s := by
      refine ends_lift (fun e he ↦ ?_) fun m hm ↦ ?_
      · rw [observable_eq_ok.mpr (eq_int_of_timestampOf hn).2] at he
        cases he
      obtain rfl : m = n := by
        have hm := observable_eq_ok.mp (storeOutcome_eq_ok.mp hm)
        rw [(eq_int_of_timestampOf hn).2] at hm
        exact Int.ofNat.inj (Option.some.inj hm).symm
      refine ends_bind (ends_check (fun _ _ code _ hrows ↦ ⟨hrows, Or.inr ⟨code, rfl⟩⟩)
        fun h₁ s₁ hs₁ _ ht₁ ↦ ?_)
      have hrows : ∀ answer : Except Failure Unit,
          rowEvents (h₁ ++ [⟨.observe storeId m, answer⟩]) =
            rowEvents (h ++ [⟨.wallNow, .ok reading⟩]) := by
        intro answer
        rw [← rowEvents_of_trace ht₁, rowEvents, List.filter_append]
        exact List.append_nil _
      refine ends_bind (ends_run (.observe storeId m)
        (isSafe_of_safeInteger (eq_int_of_timestampOf hn).2) fun now answer after hs₂ hinv _ _ hstep ↦ ?_)
      obtain ⟨-, hle, -⟩ | ⟨rfl, -⟩ | ⟨code, rfl⟩ := step_observe hinv hstep
      · exact absurd (hmark.trans ((hs₁.mark.trans hs₂.mark).trans hle)) (not_le.mpr hlt)
      · exact ⟨hrows _, Or.inl rfl⟩
      · exact ⟨hrows _, Or.inr ⟨code, rfl⟩⟩
    refine Meets.bind (hfails.restrict.mono fun h' outcome s' hend ↦ ?_)
    cases outcome with
    | ok u => exact hend.elim
    | error e => exact fun _ ↦ ⟨hwrites h' hend.1, hend.2⟩
  · have htimely : ∀ n, Reads reading n → reading.wallHighWater ≤ n :=
      fun n hn ↦ not_lt.mp fun hlt ↦ hlate ⟨n, hn, hlt⟩
    refine (Meets.of_only (.of_forall ?_ _) _ _).mono fun h' outcome s' hend ↦ ?_
    · exact fun op now j answer after _ hstep ↦ hstep.2
    · obtain ⟨more, rfl⟩ := hend.2.1
      have hfirst := firstReading_append hh reading more
      rw [List.append_assoc]
      cases outcome with
      | ok a => exact ⟨reading, hfirst, htimely⟩
      | error e =>
        rintro ⟨reading', n, hfirst', hn, hlt⟩
        obtain rfl := Option.some.inj (hfirst.symm.trans hfirst')
        exact absurd (htimely n hn) (not_le.mpr hlt)

/-- Whatever follows a program that has started in time. -/
private theorem rollsBack_bind {p : Service α} {f : α → Service β} {h : History} {s : Shared ι}
    (hp : Meets (KeptStep P storeId ι) (jobDiscipline P storeId ι) i RollsBack p h s) :
    Meets (KeptStep P storeId ι) (jobDiscipline P storeId ι) i RollsBack (p >>= f) h s := by
  refine Meets.bind (hp.mono fun h' outcome s' hend ↦ ?_)
  cases outcome with
  | error e => exact hend
  | ok a =>
    obtain ⟨reading, hfirst, htimely⟩ := hend
    refine (Meets.of_only (.of_forall ?_ _) h' s').mono fun h'' outcome s'' hend ↦ ?_
    · exact fun op now j answer after _ hstep ↦ hstep.2
    obtain ⟨more, rfl⟩ := hend.2.1
    have hfirst' : firstReading (h' ++ more) = some reading := by
      rw [firstReading, List.filterMap_append, List.head?_append, ← firstReading, hfirst]
      rfl
    cases outcome with
    | ok b => exact ⟨reading, hfirst', htimely⟩
    | error e =>
      rintro ⟨reading', n, hfirst'', hn, hlt⟩
      obtain rfl := Option.some.inj (hfirst'.symm.trans hfirst'')
      exact absurd (htimely n hn) (not_le.mpr hlt)

/-- A call that starts by reading its clock and observing what it read. -/
private theorem rollsBack_wallNow {rest : Reading → Unit → Service α} {h : History} {s : Shared ι}
    (hh : Untouched h) :
    Meets (KeptStep P storeId ι) (jobDiscipline P storeId ι) i RollsBack
      (do
        let now : Reading ← run .wallNow
        observeTime storeId now.value >>= rest now) h s := by
  intro now hgrows hinv answer after hstep
  refine ⟨hstep.2.1, hstep.2.2, ?_⟩
  obtain ⟨⟨value, rfl, rfl | ⟨code, rfl⟩⟩, -⟩ := hstep
  · exact rollsBack_observe hh (le_refl _)
  · refine rollsBack_of_untouched fun e he ↦ ?_
    obtain he | he := List.mem_append.mp he
    · exact hh e he
    · obtain rfl := List.mem_singleton.mp he
      exact ⟨rfl, rfl⟩

/-- A call that starts so with a reading that must be a time. -/
private theorem rollsBack_currentTime {rest : ℕ → Unit → Service α} {h : History} {s : Shared ι}
    (hh : Untouched h) :
    Meets (KeptStep P storeId ι) (jobDiscipline P storeId ι) i RollsBack
      (do
        let now ← currentTime
        observeTime storeId (.int now) >>= rest now) h s := by
  intro now hgrows hinv answer after hstep
  refine ⟨hstep.2.1, hstep.2.2, ?_⟩
  obtain ⟨⟨value, rfl, rfl | ⟨code, rfl⟩⟩, -⟩ := hstep
  · have hnext : ∀ outcome : Except JobFailureCode ℕ,
        orThrow (timestampOf value) .inputInvalid = outcome →
        Meets (KeptStep P storeId ι) (jobDiscipline P storeId ι) i RollsBack
          (((orFail outcome).recover fun _ ↦ throw (Failure.job .inputInvalid)) >>= fun now ↦
            observeTime storeId (.int now) >>= rest now)
          (h ++ [⟨.wallNow, .ok ⟨value, after.db.wallHighWater⟩⟩]) after := by
      intro outcome houtcome
      cases outcome with
      | error code =>
        rintro ⟨reading, n, hfirst, hn, -⟩
        obtain rfl := Option.some.inj ((firstReading_append hh _ []).symm.trans hfirst)
        rw [Reads, (orThrow_eq_error.mp houtcome).1] at hn
        cases hn
      | ok n =>
        have hvalue := (eq_int_of_timestampOf (orThrow_eq_ok.mp houtcome)).1
        obtain rfl : value = .int n := hvalue
        have hread : Reading.wallHighWater ⟨.int n, after.db.wallHighWater⟩ ≤
            after.db.wallHighWater := le_refl _
        exact rollsBack_observe hh hread
    exact hnext _ rfl
  · refine rollsBack_of_untouched fun e he ↦ ?_
    obtain he | he := List.mem_append.mp he
    · exact hh e he
    · obtain rfl := List.mem_singleton.mp he
      exact ⟨rfl, rfl⟩

private theorem idle_orFail {outcome : Except JobFailureCode α} :
    (orFail outcome).Only Op.IsIdle fun _ ↦ True := .lift fun _ _ ↦ trivial

private theorem idle_run {op : Op} (hop : op.IsIdle) : (run op).Only Op.IsIdle fun _ ↦ True := by
  refine ⟨hop, fun answer ↦ ?_⟩
  cases answer <;> trivial

private theorem idle_check : (check storeId).Only Op.IsIdle fun _ ↦ True :=
  .bind (idle_run trivial) fun _ _ ↦ .bind (idle_run trivial) fun _ _ ↦
    .bind (idle_run trivial) fun _ _ ↦ trivial

private theorem idle_inspectRunnerJob {selected : JobKey} :
    (inspectRunnerJob P storeId selected).Only Op.IsIdle fun _ ↦ True := by
  refine .bind (.ensure_bind fun _ ↦ .bind idle_check fun _ _ ↦ idle_run trivial) fun _ _ ↦ ?_
  exact .bind idle_orFail fun _ _ ↦ .bind idle_orFail fun _ _ ↦ .ensure_bind fun _ ↦ trivial

private theorem rollsBack_checkRunnerJobCurrent {record : JobRecord} {h : History} {s : Shared ι}
    (hh : Untouched h) :
    Meets (KeptStep P storeId ι) (jobDiscipline P storeId ι) i RollsBack
      (checkRunnerJobCurrent storeId record) h s :=
  rollsBack_currentTime hh

private theorem rollsBack_prepareRunnerJobWithSource {value : JsValue}
    {maxSourceBytes : Option ℕ} {directory : Option JsString} {s : Shared ι} :
    Meets (KeptStep P storeId ι) (jobDiscipline P storeId ι) i RollsBack
      (prepareRunnerJobWithSource P storeId value maxSourceBytes directory) [] s :=
  rollsBack_idle idle_orFail (fun _ h ↦ nomatch h) fun _ _ _ hh ↦ rollsBack_currentTime hh

/-- Every call that reads its clock starts so. -/
theorem Call.rollsBack (call : Call) (s : Shared ι) :
    Meets (KeptStep P storeId ι) (jobDiscipline P storeId ι) i
      (fun h outcome _ ↦ LateReading h → (∀ event ∈ h, isWrite event = false) ∧
        ∃ e, outcome = .error e ∧ (e = .job .clockRollback ∨ ∃ code, e = .fault code))
      (call.program P storeId) [] s := by
  have hnil : Untouched [] := fun _ h ↦ nomatch h
  have hnot : ∀ h, Untouched h → ¬ LateReading h := by
    rintro h hh ⟨reading, n, hfirst, -⟩
    rw [firstReading_of_untouched hh] at hfirst
    cases hfirst
  have hweaken : ∀ {p : Service Reply},
      Meets (KeptStep P storeId ι) (jobDiscipline P storeId ι) i RollsBack p [] s →
      Meets (KeptStep P storeId ι) (jobDiscipline P storeId ι) i
        (fun h outcome _ ↦ LateReading h → (∀ event ∈ h, isWrite event = false) ∧
          ∃ e, outcome = .error e ∧ (e = .job .clockRollback ∨ ∃ code, e = .fault code)) p [] s := by
    intro p hp
    refine hp.mono fun h outcome s' hend hlate ↦ ?_
    cases outcome with
    | error e => exact ⟨(hend hlate).1, e, rfl, (hend hlate).2⟩
    | ok reply =>
      obtain ⟨reading, hfirst, htimely⟩ := hend
      obtain ⟨reading', n, hfirst', hn, hlt⟩ := hlate
      obtain rfl := Option.some.inj (hfirst.symm.trans hfirst')
      exact absurd (htimely n hn) (not_le.mpr hlt)
  cases call with
  | «open» =>
    refine hweaken (rollsBack_bind ?_)
    refine rollsBack_idle (.bind idle_check fun _ _ ↦ idle_run (show Op.IsIdle .listRows from
      trivial)) hnil fun _ rows _ hh ↦ ?_
    refine rollsBack_idle idle_orFail hh fun h _ s' hh ↦ ?_
    have hwhole : Meets (KeptStep P storeId ι) (jobDiscipline P storeId ι) i RollsBack
        (do
          let now : Reading ← run .wallNow
          observeTime storeId now.value >>= pure) h s' := rollsBack_wallNow hh
    simpa only [Prog.bind_pure] using hwhole
  | inspect key =>
    refine meets_idle (fun h e s hh hlate ↦ absurd hlate (hnot h hh)) idle_orFail hnil
      fun _ selected _ hh ↦ ?_
    refine meets_idle (fun h e s hh hlate ↦ absurd hlate (hnot h hh)) idle_inspectRunnerJob hh
      fun h _ _ hh hlate ↦ absurd hlate (hnot h hh)
  | prepare input =>
    exact hweaken (rollsBack_bind (rollsBack_bind rollsBack_prepareRunnerJobWithSource))
  | prepareHandoff input directory =>
    exact hweaken (rollsBack_bind (rollsBack_bind rollsBack_prepareRunnerJobWithSource))
  | readHandoff key =>
    refine hweaken (rollsBack_bind ?_)
    refine rollsBack_idle idle_orFail hnil fun _ _ _ hh ↦ ?_
    refine rollsBack_idle idle_inspectRunnerJob hh fun _ _ _ hh ↦ ?_
    exact rollsBack_bind (rollsBack_bind (rollsBack_checkRunnerJobCurrent hh))
  | recordReviewedOutput key output completedAt =>
    refine hweaken (rollsBack_bind ?_)
    refine rollsBack_idle idle_orFail hnil fun _ _ _ hh ↦ ?_
    refine rollsBack_idle idle_orFail hh fun _ _ _ hh ↦ ?_
    refine rollsBack_idle idle_orFail hh fun _ _ _ hh ↦ ?_
    exact rollsBack_currentTime hh
  | acquireEvidence key =>
    refine hweaken (rollsBack_bind ?_)
    refine rollsBack_idle idle_orFail hnil fun _ _ _ hh ↦ ?_
    exact rollsBack_wallNow hh
  | acquireWithoutClient key =>
    refine hweaken (rollsBack_bind ?_)
    refine rollsBack_idle idle_orFail hnil fun _ _ _ hh ↦ ?_
    exact rollsBack_wallNow hh

end Rollback

/-! ### Runs -/

section Log

variable {ι : Type}

/-- A write that its transaction has committed, as far as the call can tell. -/
def isCommit : Event Op (fun op ↦ Except Failure op.Answer) → Bool
  | ⟨.insert _, .ok inserted⟩ => inserted
  | ⟨.insert _, .error (.fault _)⟩ => true
  | ⟨.compareAndSwap _ _, .ok committed⟩ => committed
  | ⟨.compareAndSwap _ _, .error (.fault _)⟩ => true
  | _ => false

theorem isWrite_of_isCommit {event : Event Op fun op ↦ Except Failure op.Answer}
    (h : isCommit event = true) : isWrite event = true := by
  obtain ⟨op, answer⟩ := event
  cases op <;> first | rfl | cases h

/-- Only a commit is logged, under the call that made it. -/
theorem step_log {now after : Shared ι} {i : ι} {op : Op} {answer : Except Failure op.Answer}
    (hstep : Step now i op answer after) :
    after.log = now.log ∨
      ∃ row, after.log = now.log ++ [(i, row)] ∧ isCommit ⟨op, answer⟩ = true := by
  cases op with
  | observe expectedStoreId n =>
    obtain ⟨rfl, -⟩ | ⟨u, hbody, -⟩ := hstep
    · exact Or.inl rfl
    · simp only [observeBody, bind_eq_ok, pure_eq_ok, Prod.mk.injEq] at hbody
      obtain ⟨db, -, rfl, -⟩ := hbody
      exact Or.inl rfl
  | insert row =>
    obtain ⟨rfl, -⟩ | ⟨inserted, hbody, hanswer⟩ := hstep
    · exact Or.inl rfl
    · simp only [insertBody, bind_eq_ok, pure_eq_ok, Prod.exists, Prod.mk.injEq] at hbody
      obtain ⟨db, inserted, -, rfl, rfl⟩ := hbody
      cases inserted with
      | true =>
        refine Or.inr ⟨row, rfl, ?_⟩
        obtain rfl | ⟨code, rfl⟩ := hanswer <;> rfl
      | false => exact Or.inl rfl
  | compareAndSwap previous next =>
    obtain ⟨rfl, -⟩ | ⟨committed, hbody, hanswer⟩ := hstep
    · exact Or.inl rfl
    · simp only [swapBody, bind_eq_ok, pure_eq_ok, Prod.exists, Prod.mk.injEq] at hbody
      obtain ⟨db, committed, -, rfl, rfl⟩ := hbody
      cases committed with
      | true =>
        refine Or.inr ⟨next, rfl, ?_⟩
        obtain rfl | ⟨code, rfl⟩ := hanswer <;> rfl
      | false => exact Or.inl rfl
  | wallNow =>
    obtain ⟨value, rfl, -⟩ := hstep
    exact Or.inl rfl
  | custodyCheck | custodySync | metadata | count | listRows | readRow | randomBytes
    | overlapsCheckout | readCheckout | acquireInitial | reacquire | readSource | putSource =>
    obtain ⟨rfl, -⟩ := hstep
    exact Or.inl rfl

variable [DecidableEq ι]

/-- Every row that was committed was written by a step of the call it is logged under. -/
theorem Run.logged {P : Platform} {storeId : JsString} {calls : ι → Call}
    {c : Config Op (fun op ↦ Except Failure op.Answer) Failure Reply (Shared ι) ι}
    (hrun : Config.Run Step (begin P storeId calls) c) :
    ∀ e ∈ c.state.log, ∃ event ∈ (c.thread e.1).history, isCommit event = true := by
  refine Config.Run.invariant (J := fun c ↦ ∀ e ∈ c.state.log,
    ∃ event ∈ (c.thread e.1).history, isCommit event = true) ?_ hrun fun e he ↦ nomatch he
  rintro c c' ⟨i, op, next, answer, after, hrest, hstep⟩ hc e he
  have hkept : ∀ event ∈ (c.thread e.1).history,
      event ∈ (Function.update c.thread i
        ⟨(c.thread i).history ++ [⟨op, answer⟩], next answer⟩ e.1).history := by
    intro event hevent
    by_cases hi : e.1 = i
    · rw [hi, Function.update_self]
      exact List.mem_append_left _ (hi ▸ hevent)
    · rwa [Function.update_of_ne hi]
  have hold : e ∈ c.state.log → ∃ event ∈ (Function.update c.thread i
      ⟨(c.thread i).history ++ [⟨op, answer⟩], next answer⟩ e.1).history, isCommit event = true := by
    intro he
    obtain ⟨event, hevent, hwrite⟩ := hc e he
    exact ⟨event, hkept event hevent, hwrite⟩
  obtain hlog | ⟨row, hlog, hwrite⟩ := step_log hstep
  · exact hold (hlog ▸ he)
  · rw [hlog] at he
    obtain he | he := List.mem_append.mp he
    · exact hold he
    · obtain rfl := List.mem_singleton.mp he
      refine ⟨⟨op, answer⟩, ?_, hwrite⟩
      simp only [Function.update_self]
      exact List.mem_append_right _ (List.mem_singleton.mpr rfl)

end Log

/-- The time lies within every bound that the record carries. -/
structure CurrentAt (r : JobRecord) (t : ℕ) : Prop where
  created : r.plan.plan.createdAt ≤ t
  unexpired : t < r.plan.plan.expiresAt
  reviewed : ∀ review, r.stage.review = some review →
    review.previewCompletedAt ≤ t ∧ t < review.previewCompletedAt + 600000
  retained : ∀ identity, r.stage.identity = some identity → t < identity.expiresAt

theorem currentAt_of_assertJobCurrent_int {r : JobRecord} {t : ℕ}
    (h : assertJobCurrent r (.int t) = .ok ()) : CurrentAt r t := by
  simp only [assertJobCurrent, bind_eq_ok, orThrow_eq_ok, reject_eq_ok, exists_unit, not_or, not_lt,
    not_le, Bool.not_eq_true] at h
  obtain ⟨t', ht', ⟨hcreated, hreviewed⟩, hexpires⟩ := h
  obtain rfl : t' = t := by
    have hvalue := (eq_int_of_timestampOf ht').1
    exact (Int.ofNat.inj (JsNumber.int.inj hvalue)).symm
  obtain ⟨base, stage, digest⟩ := r
  cases stage with
  | prepared =>
    refine ⟨hcreated, hexpires, ?_, ?_⟩
    · rintro _ ⟨⟩
    · rintro _ ⟨⟩
  | reviewed review =>
    simp only [JobRecord.expiresAt, reviewTtlMs, lt_min_iff, JobStage.review, Option.any_some,
      decide_eq_false_iff_not, not_lt] at hexpires hreviewed
    refine ⟨hcreated, hexpires.1, ?_, ?_⟩
    · rintro _ ⟨⟩
      exact ⟨hreviewed, hexpires.2⟩
    · rintro _ ⟨⟩
  | evidenceRetained review identity =>
    simp only [JobRecord.expiresAt, reviewTtlMs, lt_min_iff, JobStage.review, Option.any_some,
      decide_eq_false_iff_not, not_lt] at hexpires hreviewed
    refine ⟨hcreated, hexpires.1, ?_, ?_⟩
    · rintro _ ⟨⟩
      exact ⟨hreviewed, hexpires.2.1⟩
    · rintro _ ⟨⟩
      exact hexpires.2.2

section Runs

variable {ι : Type} [DecidableEq ι] {P : Platform} {storeId : JsString} {calls : ι → Call}

/-- How the calls of a run end, as far as time is concerned. -/
private def TimelyEnd (storeId : JsString) (call : Call) :
    Post Op (fun op ↦ Except Failure op.Answer) Failure Reply (Shared ι) :=
  fun h outcome s ↦
    (call.isTimed = true → ∀ reply, outcome = .ok reply → ∀ r, reply.record = some r →
      EndsCurrent storeId h r) ∧ Ordered storeId h s ∧
    (LateReading h → (∀ event ∈ h, isWrite event = false) ∧
      ∃ e, outcome = .error e ∧ (e = .job .clockRollback ∨ ∃ code, e = .fault code))

omit [DecidableEq ι] in
private theorem meets_timelyEnd (i : ι) (call : Call) (s : Shared ι) :
    Meets Step (jobDiscipline P storeId ι) i (TimelyEnd storeId call) (call.program P storeId) []
      s := by
  have hkeeps : (call.program P storeId).Only
      ((jobDiscipline P storeId ι).Keeps (Step (ι := ι))) fun _ ↦ True :=
    call.complies.allow fun _ ↦ keeps_of_sanctioned
  have hordered : Ordered storeId ([] : History) s := by
    refine ⟨fun _ h ↦ (nomatch h), fun before n after h ↦ ?_⟩
    exact absurd h.symm (by simp)
  have hends := (@Call.rollsBack _ P storeId i call s).keeping
    (J := Ordered storeId) (fun h s s' hgrows hJ ↦
      ⟨fun n hn ↦ (hJ.marked n hn).trans (Grows.mark hgrows), hJ.sorted⟩)
    (fun h now op answer after hinv hstep hJ ↦
      ordered_step hinv hstep.1 hJ (Grows.mark hstep.2.2)) hordered
  by_cases htimed : call.isTimed = true
  · refine ((hends.returning (Call.returns htimed)).of_restrict hkeeps).mono ?_
    exact fun h outcome s' hend ↦ ⟨fun _ ↦ hend.2, hend.1.2, hend.1.1⟩
  · refine (hends.of_restrict hkeeps).mono fun h outcome s' hend ↦ ?_
    exact ⟨fun h ↦ absurd h htimed, hend.2, hend.1⟩

/-- **Time safety.** Along any run of any calls, under any clock: the mark never goes back; a call
that returns a record has ended by observing a time and reading a later one that is not before any
time it observed, and is within every bound of the record; and a call whose first reading is a time
before the mark of that moment ends with `clockRollback`, or because a dependency failed first, and
has committed no row. -/
theorem runner_job_time_safe (hstore : isUuid storeId = true)
    {c c' : Config Op (fun op ↦ Except Failure op.Answer) Failure Reply (Shared ι) ι}
    (hrun : Config.Run Step (begin P storeId calls) c) (hlater : Config.Run Step c c') :
    c.state.db.wallHighWater ≤ c'.state.db.wallHighWater ∧
      ∀ i outcome, (c.thread i).rest = .done outcome →
        (∀ reply r, outcome = .ok reply → (calls i).isTimed = true → reply.record = some r →
          ∃ before n last t,
            trace (c.thread i).history =
              before ++ [⟨.observe storeId n, .ok ()⟩, ⟨.wallNow, .ok last⟩] ∧
            Reads last t ∧ CurrentAt r t ∧
            ∀ n', ⟨.observe storeId n', .ok ()⟩ ∈ (c.thread i).history → n' ≤ t) ∧
        (LateReading (c.thread i).history →
          (∃ e, outcome = .error e ∧ (e = .job .clockRollback ∨ ∃ code, e = .fault code)) ∧
            ∀ entry ∈ c.state.log, entry.1 ≠ i) := by
  have hc := (hrun.orderly (Config.orderly_start (consistent_initial hstore) fun i ↦
    (meets_timelyEnd i (calls i) _ : Meets Step (jobDiscipline P storeId ι) i _ _ _ _))).1
  refine ⟨Grows.mark (hlater.orderly hc).2, fun i outcome hdone ↦ ?_⟩
  obtain ⟨seen, -, hcurrent, hordered, hlate⟩ := hc.ended hdone
  refine ⟨?_, fun hreading ↦ ⟨(hlate hreading).2, ?_⟩⟩
  · intro reply r hreply htimed hr
    obtain ⟨before, n, last, t, htrace, hreads, hle, hok⟩ := hcurrent htimed reply hreply r hr
    refine ⟨before, n, last, t, htrace, hreads, currentAt_of_assertJobCurrent_int hok, ?_⟩
    intro n' hmem
    refine (hordered.le_last htrace (fun m hm ↦ ?_) hmem).trans hle
    cases List.mem_singleton.mp hm
  · rintro entry hentry rfl
    obtain ⟨event, hevent, hwrite⟩ := Run.logged hrun entry hentry
    have hwrite := isWrite_of_isCommit hwrite
    rw [(hlate hreading).1 event hevent] at hwrite
    cases hwrite

end Runs

/-! ### Two runs -/

/-- One session opens a store; the other opens it with a clock that has gone back. -/
def lateRun : Config Op (fun op ↦ Except Failure op.Answer) Failure Reply (Shared ℕ) ℕ :=
  ((begin samplePlatform sampleStoreId fun _ ↦ .open).play (answers (.int 1000))
    (List.replicate 14 0)).play (answers (.int 500)) (List.replicate 14 1)

private theorem lateRun_run :
    Config.Run Step (begin samplePlatform sampleStoreId fun _ : ℕ ↦ .open) lateRun :=
  (Config.run_play (step_answers (.int 1000)) _ _).trans
    (Config.run_play (step_answers (.int 500)) _ _)

/-- How a call has failed. -/
def failureOf (thread : Thread Op (fun op ↦ Except Failure op.Answer) Failure Reply) :
    Option Failure :=
  match thread.rest with
  | .done (.error e) => some e
  | _ => none

/-- The second session is refused, and the mark stays where the first one left it. -/
theorem runner_job_time_safe_late :
    Config.Run Step (begin samplePlatform sampleStoreId fun _ : ℕ ↦ .open) lateRun ∧
      lateRun.state.db.wallHighWater = 1000 ∧
      failureOf (lateRun.thread 1) = some (.job .clockRollback) ∧
      lateRun.state.db.wallHighWater ≤ lateRun.state.db.wallHighWater := by
  have hstore : isUuid sampleStoreId = true := by decide +kernel
  obtain ⟨hmark, -⟩ := runner_job_time_safe hstore lateRun_run .refl
  exact ⟨lateRun_run, by decide +kernel, by decide +kernel, hmark⟩

def sampleKey : JsValue :=
  .obj [(js "campaignId", .str (js "campaign")), (js "jobId", .str (js "previewjob_" ++
    List.replicate 64 0x30)), (js "runId", .str (js "run"))]

/-- A call that acquires evidence under a clock before the epoch. -/
def epochRun : Config Op (fun op ↦ Except Failure op.Answer) Failure Reply (Shared ℕ) ℕ :=
  (begin samplePlatform sampleStoreId fun _ ↦ .acquireEvidence sampleKey).play
    (answers (.int (-1))) [0]

/-- Its first reading is below the mark, and it ends with another error than `clockRollback`. -/
theorem runner_job_clock_before_epoch :
    Config.Run Step (begin samplePlatform sampleStoreId fun _ : ℕ ↦ .acquireEvidence sampleKey)
        epochRun ∧
      (firstReading (epochRun.thread 0).history).any (fun reading ↦
        isBelow reading.value reading.wallHighWater) = true ∧
      failureOf (epochRun.thread 0) = some (.job .inputInvalid) := by
  refine ⟨Config.run_play (step_answers (.int (-1))) _ _, ?_, ?_⟩
  · decide +kernel
  · decide +kernel

end ApiMigrator.App.RunnerJob
