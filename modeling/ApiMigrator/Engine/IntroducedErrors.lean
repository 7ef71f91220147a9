import ApiMigrator.Engine.TscOutput
import ApiMigrator.Foundation.KeyedDifference

/-!
`verifier.ts`: the comparison of the errors after a migration with those before it. Errors are told
apart by one text that joins their fields with colons, which a file name or a message may hold too.
The errors that a migration introduced are the difference of the two multisets exactly when the
errors under each of these texts cancel.
-/

set_option autoImplicit false
set_option relaxedAutoImplicit false

namespace ApiMigrator.Engine.Verifier

open Foundation.Text Foundation.Number Foundation.Pattern Foundation.KeyedDifference

-- How the language writes fractions and integers from `10 ^ 21` on.
variable (T : JsNumber → JsString)

/-- `String(value)` -/
def numberText : JsNumber → JsString
  | .int i => if i.natAbs < 10 ^ 21 then integerText i else T (.int i)
  | .negZero => js "0"
  | .fraction negative numerator exponent => T (.fraction negative numerator exponent)
  | .infinite true => js "-Infinity"
  | .infinite false => js "Infinity"
  | .nan => js "NaN"

def positionText (position : Option JsNumber) : JsString :=
  (position.map (numberText T)).getD (js "null")

def diagnosticText (d : Diagnostic) : JsString :=
  d.file ++ 0x3a :: (positionText T d.line ++ 0x3a :: (positionText T d.col ++
    0x3a :: (d.code ++ 0x3a :: d.message)))

def signature (error : TypeError) : JsString := diagnosticText T error.toDiagnostic

def introducedErrors (after baseline : List TypeError) : List TypeError :=
  uncancelled (signature T) (tally (signature T) baseline) after

/-! ### Verification -/

/-- The scripts that are requested, with what each of them reports. -/
structure Requests where
  test : Option CheckResult
  lint : Option CheckResult
  repoTypecheck : Option CheckResult

def comparedCheck (check : CheckResult) (after introduced : List TypeError) : CheckResult :=
  if introduced = [] then
    { check with
      status := .passed
      reason := if after ≠ [] then some (js "only pre-existing errors remain") else none }
  else
    { check with
      status := .failed
      reason := some (integerText introduced.length ++ js " new TypeScript error(s)") }

def isPassed (check : Option CheckResult) : Bool :=
  check.all fun c ↦ decide (c.status = .passed)

def verify (run : TscRun) (baseline : Option (List TypeError)) (requests : Requests) :
    VerifyResult :=
  let result := runTsc run
  if result.skipped = true then result
  else
    match baseline with
    | none =>
      { result with
        ok := false
        skipped := true
        skipReason := some (js "baseline type-check was unavailable") }
    | some baseline =>
      let introduced := introducedErrors T result.after baseline
      { result with
        ok := decide (introduced = []) && isPassed requests.test && isPassed requests.lint &&
          isPassed requests.repoTypecheck
        baseline
        introduced
        checks :=
          { result.checks with
            typecheck := comparedCheck result.checks.typecheck result.after introduced
            test := requests.test.getD result.checks.test
            lint := requests.lint.getD result.checks.lint
            repoTypecheck := requests.repoTypecheck.or result.checks.repoTypecheck } }

/-- A run that is reported as skipped has not passed its type check. -/
theorem runTsc_skipped {run : TscRun} (h : (runTsc run).skipped = true) :
    (runTsc run).ok = false ∧ (runTsc run).checks.typecheck.status ≠ .passed := by
  revert h
  unfold runTsc
  cases run.preparation with
  | stopped checks reason notPassed => exact fun _ ↦ ⟨rfl, notPassed⟩
  | ready checks =>
    cases tscRefusal run with
    | some reason =>
      refine fun _ ↦ ⟨rfl, fun hpassed ↦ ?_⟩
      cases hpassed
    | none =>
      intro h
      cases h

theorem introduced_eq_nil_of_passed {run : TscRun} {baseline : List TypeError} {requests : Requests}
    (h : (verify T run (some baseline) requests).checks.typecheck.status = .passed) :
    introducedErrors T (runTsc run).after baseline = [] := by
  by_cases hskipped : (runTsc run).skipped = true
  · simp only [verify, if_pos hskipped] at h
    exact absurd h (runTsc_skipped hskipped).2
  · simp only [verify, if_neg hskipped] at h
    by_contra hne
    simp only [comparedCheck, if_neg hne] at h
    cases h

/-! ### The difference of multisets -/

theorem introducedErrors_sublist (after baseline : List TypeError) :
    (introducedErrors T after baseline).Sublist after :=
  uncancelled_sublist _ _ _

theorem diagnostics_introducedErrors (after baseline : List TypeError) :
    (introducedErrors T after baseline).map TypeError.toDiagnostic =
      uncancelled (diagnosticText T) (tally (diagnosticText T) (baseline.map TypeError.toDiagnostic))
        (after.map TypeError.toDiagnostic) := by
  rw [introducedErrors, ← tally_map, ← map_uncancelled]
  rfl

/-- The introduced errors are those of the difference of multisets, and a type check passes only
when there are none in it, exactly when the errors cancel under each signature. -/
theorem introduced_errors_exact_iff (after baseline : List TypeError) :
    ((introducedErrors T after baseline).Sublist after ∧
      (∀ d, ((introducedErrors T after baseline).map TypeError.toDiagnostic).count d =
        (after.map TypeError.toDiagnostic).count d - (baseline.map TypeError.toDiagnostic).count d) ∧
      ∀ run requests, (runTsc run).after = after →
        (verify T run (some baseline) requests).checks.typecheck.status = .passed →
          ∀ d, (after.map TypeError.toDiagnostic).count d ≤
            (baseline.map TypeError.toDiagnostic).count d) ↔
      Cancels (diagnosticText T) (after.map TypeError.toDiagnostic)
        (baseline.map TypeError.toDiagnostic) := by
  rw [diagnostics_introducedErrors, count_uncancelled_iff]
  constructor
  · exact fun h ↦ h.2.1
  · intro hcancels
    refine ⟨introducedErrors_sublist T after baseline, hcancels, ?_⟩
    rintro run requests rfl hpassed d
    have hcount := (count_uncancelled_iff (diagnosticText T) _ _).mpr hcancels d
    rw [← diagnostics_introducedErrors, introduced_eq_nil_of_passed T hpassed, List.map_nil,
      List.count_nil] at hcount
    omega

/-- Errors with different signatures for different fields are compared exactly. -/
theorem cancels_of_signatures {after baseline : List TypeError}
    (h : ∀ e ∈ after, ∀ e' ∈ after ++ baseline, signature T e = signature T e' →
      e.toDiagnostic = e'.toDiagnostic) :
    Cancels (diagnosticText T) (after.map TypeError.toDiagnostic)
      (baseline.map TypeError.toDiagnostic) := by
  refine cancels_of_injOn _ fun d hd d' hd' hsame ↦ ?_
  rw [← List.map_append] at hd'
  obtain ⟨e, he, rfl⟩ := List.mem_map.mp hd
  obtain ⟨e', he', rfl⟩ := List.mem_map.mp hd'
  exact h e he e' he' hsame

/-- An error in a file whose name holds colons hides a new error of another file. -/
theorem introduced_error_excused :
    ¬ ∀ (T : JsNumber → JsString) (after baseline : List TypeError) (d : Diagnostic),
      ((introducedErrors T after baseline).map TypeError.toDiagnostic).count d =
        (after.map TypeError.toDiagnostic).count d -
          (baseline.map TypeError.toDiagnostic).count d := by
  intro h
  have hcount := h (fun _ ↦ []) (parseTscErrors (js "a.ts(1,2): error TS3: b.ts:4:5:TS6:m"))
    (parseTscErrors (js "a.ts:1:2:TS3:b.ts(4,5): error TS6: m"))
    ⟨js "a.ts", some (.int 1), some (.int 2), js "TS3", js "b.ts:4:5:TS6:m"⟩
  revert hcount
  decide +kernel

end ApiMigrator.Engine.Verifier
