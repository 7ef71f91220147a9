import ApiMigrator.App.PublicationRunnerPlan
import ApiMigrator.App.RunnerJobAdvance
import ApiMigrator.App.RunnerJobTime
import ApiMigrator.App.SourceBundleCodec

/-!
Preparing a job. Callers that race for one campaign and run make different plans; the one whose
insertion wins is the job, and the others recognise it by the intent that its plan was made from.
-/

set_option autoImplicit false
set_option relaxedAutoImplicit false

namespace ApiMigrator.App.RunnerJob

open Foundation.Text Foundation.Number Foundation.Json Foundation.Outcome Foundation.Pattern
open Foundation.Binary Foundation.Interaction PublicationRunner RunnerEvidence Db.JobStore
open CanonicalJson (canonicalJson canonicalJson_of_canonical)
open SourceBundle (field sha256 Checkout parseSourceBundle)

/-! ### Intents -/

/-- What a job was prepared for, as its plan has it. -/
def JobRecord.intent (r : JobRecord) : PreparationIntent where
  campaignId := r.campaignId
  runId := r.runId
  pilotId := r.plan.plan.subject.pilotId
  source := r.source
  imageDigest := r.plan.plan.imageDigest
  migrationInstallEgress := r.plan.plan.destinations
  expiresAt := r.plan.plan.expiresAt

section Intents

variable {P : Platform}

/-- The times of the plan only decide whether a destination is accepted. -/
private theorem validateDestination_unique {t e t' e' : ℕ} {value : JsValue}
    {d d' : RunnerEgressDestination} (h : validateDestination P t e value = .ok d)
    (h' : validateDestination P t' e' value = .ok d') : d = d' := by
  simp only [validateDestination, bind_eq_ok, exists_unit, pure_eq_ok] at h h'
  obtain ⟨root, hroot, -, host, hhost, -, entries, hentries, literals, hliterals, -, observed,
    hobserved, expires, hexpires, -, evidence, hevidence, rfl⟩ := h
  obtain ⟨root', hroot', -, host', hhost', -, entries', hentries', literals', hliterals', -,
    observed', hobserved', expires', hexpires', -, evidence', hevidence', rfl⟩ := h'
  obtain rfl := Except.ok.inj (hroot.symm.trans hroot')
  obtain rfl := Except.ok.inj (hhost.symm.trans hhost')
  obtain rfl := Except.ok.inj (hentries.symm.trans hentries')
  obtain rfl := Except.ok.inj (hliterals.symm.trans hliterals')
  obtain rfl := Except.ok.inj (hobserved.symm.trans hobserved')
  obtain rfl := Except.ok.inj (hexpires.symm.trans hexpires')
  obtain rfl := Except.ok.inj (hevidence.symm.trans hevidence')
  rfl

private theorem normalizeAndValidateDestinations_unique {t e t' e' : ℕ} {value : JsValue}
    {ds ds' : List RunnerEgressDestination}
    (h : normalizeAndValidateDestinations P value t e = .ok ds)
    (h' : normalizeAndValidateDestinations P value t' e' = .ok ds') : ds = ds' := by
  cases value with
  | arr entries =>
    simp only [normalizeAndValidateDestinations, bind_eq_ok, exists_unit, pure_eq_ok,
      mapEach_eq_ok] at h h'
    obtain ⟨-, read, hread, -, hds⟩ := h
    obtain ⟨-, read', hread', -, hds'⟩ := h'
    rw [← hds, ← hds']
    clear hds hds'
    induction hread generalizing read' with
    | nil =>
      cases hread'
      rfl
    | cons hd _ ih =>
      cases hread' with
      | cons hd' hrest' => rw [validateDestination_unique hd hd', ih _ hrest']
  | _ => cases h

/-- An input asks for one thing, whatever the creation time it is read against. -/
theorem normalizedIntent_unique {input : PrepareJobInput} {source : PreviewSourceIdentity}
    {t t' : ℕ} {a b : PreparationIntent} (h : normalizedIntent P input source t = .ok a)
    (h' : normalizedIntent P input source t' = .ok b) : a = b := by
  simp only [normalizedIntent, rethrow_eq_ok, normalizePublicationRunnerPlanInput, planInput,
    bind_eq_ok, exists_unit, pure_eq_ok] at h h'
  obtain ⟨_, ⟨_, -, expires, hexpires, -, subject, hsubject, _, -, inputs, -, image, himage, ds, hds,
    rfl⟩, rfl⟩ := h
  obtain ⟨_, ⟨_, -, expires', hexpires', -, subject', hsubject', _, -, inputs', -, image', himage',
    ds', hds', rfl⟩, rfl⟩ := h'
  obtain rfl := Except.ok.inj (hexpires.symm.trans hexpires')
  obtain rfl := Except.ok.inj (hsubject.symm.trans hsubject')
  obtain rfl := Except.ok.inj (himage.symm.trans himage')
  obtain rfl := normalizeAndValidateDestinations_unique hds hds'
  rfl

end Intents

/-! ### What a call establishes -/

/-- What a call asks for, read against a creation time: its input, with the source of the checkout
that it read. -/
def OwnIntent (P : Platform) (value : JsValue) (h : History) (t : ℕ) (own : PreparationIntent) :
    Prop :=
  ∃ input checkout rest source bytes, snapshotInput value = .ok input ∧
    rowEvents h = ⟨.readCheckout input.checkoutPath, .ok checkout⟩ :: rest ∧
    sourceOfCheckout P checkout input none = .ok (source, bytes) ∧
    normalizedIntent P input source t = .ok own

/-- The call reads one input and one checkout. -/
theorem OwnIntent.normalized {P : Platform} {value : JsValue} {h : History} {t : ℕ}
    {own : PreparationIntent} (hown : OwnIntent P value h t own) {input : PrepareJobInput}
    {checkout : Checkout} {rest : History} {source : PreviewSourceIdentity} {bytes : Bytes}
    (hinput : snapshotInput value = .ok input)
    (hrows : rowEvents h = ⟨.readCheckout input.checkoutPath, .ok checkout⟩ :: rest)
    (hsource : sourceOfCheckout P checkout input none = .ok (source, bytes)) :
    normalizedIntent P input source t = .ok own := by
  obtain ⟨input', checkout', rest', source', bytes', hinput', hrows', hsource', hintent'⟩ := hown
  obtain rfl := Except.ok.inj (hinput.symm.trans hinput')
  have hevent := hrows.symm.trans hrows'
  rw [List.cons.injEq] at hevent
  cases hevent.1
  obtain ⟨rfl, -⟩ := Prod.mk.inj (Except.ok.inj (hsource.symm.trans hsource'))
  exact hintent'

theorem OwnIntent.unique {P : Platform} {value : JsValue} {h : History} {t t' : ℕ}
    {own own' : PreparationIntent} (hown : OwnIntent P value h t own)
    (hown' : OwnIntent P value h t' own') : own = own' := by
  obtain ⟨input, checkout, rest, source, bytes, hinput, hrows, hsource, hintent⟩ := hown
  exact normalizedIntent_unique hintent (hown'.normalized hinput hrows hsource)

section Preparations

variable {ι : Type} {P : Platform} {storeId : JsString} {i : ι} {value : JsValue}

variable {input : PrepareJobInput} {checkout : Checkout} {source : PreviewSourceIdentity}
  {bytes : Bytes} {history : History} {s : Shared ι}

end Preparations

/-! ### Runs -/

section Runs

variable {ι : Type} [DecidableEq ι] {P : Platform} {storeId : JsString} {calls : ι → Call}

end Runs

end ApiMigrator.App.RunnerJob
