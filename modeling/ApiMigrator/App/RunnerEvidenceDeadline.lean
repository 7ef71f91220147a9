import ApiMigrator.Foundation.Arithmetic
import ApiMigrator.App.RunnerEvidence

/-!
The deadline that the steps of a runner-evidence request share: two clocks, a wall expiry that only
shrinks, and a signal that aborts every operation once the deadline has expired. Its calls, its
timer and the callbacks of its operations interleave in any order.
-/

set_option autoImplicit false
set_option relaxedAutoImplicit false

namespace ApiMigrator.App.RunnerEvidenceDeadline

open Foundation.Number RunnerEvidence

/-! ### The deadline -/

/-- What the two clocks read. -/
structure Reading where
  wall : JsNumber
  monotonic : JsNumber
  deriving DecidableEq

structure Deadline where
  monotonicEnd : JsNumber
  wallExpiry : JsNumber
  lastWall : JsNumber
  lastMonotonic : JsNumber
  /-- The delay of the timer that is set. -/
  timer : Option JsNumber
  closed : Bool
  aborted : Bool
  deriving DecidableEq

namespace Deadline

def expire (d : Deadline) : Deadline := { d with timer := none, aborted := true }

def remainingAt (d : Deadline) (wall monotonic : JsNumber) :
    Except RunnerEvidenceFailureCode JsNumber × Deadline :=
  let remaining := (d.wallExpiry.sub wall).min (d.monotonicEnd.sub monotonic)
  if wall.isSafeInteger = false ∨ monotonic.isFinite = false ∨
      d.wallExpiry.isSafeInteger = false ∨ d.monotonicEnd.isFinite = false ∨
      wall.lt d.lastWall = true ∨ monotonic.lt d.lastMonotonic = true ∨
      remaining.le (.int 0) = true then
    (.error .expired, d.expire)
  else (.ok remaining, { d with lastWall := wall, lastMonotonic := monotonic })

def arm (d : Deadline) (remaining : JsNumber) : Deadline :=
  { d with timer := if d.closed ∨ d.aborted then none else some remaining }

def check (d : Deadline) (r : Reading) : Except RunnerEvidenceFailureCode JsNumber × Deadline :=
  if d.closed ∨ d.aborted then (.error .expired, d.expire)
  else
    match d.remainingAt r.wall r.monotonic with
    | (.error e, d') => (.error e, d')
    | (.ok remaining, d') => (.ok d'.lastWall, d'.arm remaining)

def cap (d : Deadline) (nextExpiry : JsNumber) (r : Reading) :
    Except RunnerEvidenceFailureCode Unit × Deadline :=
  if nextExpiry.isSafeInteger = false then (.error .expired, d.expire)
  else
    match { d with wallExpiry := d.wallExpiry.min nextExpiry }.check r with
    | (.error e, d') => (.error e, d')
    | (.ok _, d') => (.ok (), d')

def close (d : Deadline) : Deadline := { d with closed := true, timer := none }

end Deadline

def createRunnerEvidenceDeadline (start : Reading) (expiresAt : JsNumber) :
    Except RunnerEvidenceFailureCode Deadline :=
  let d : Deadline :=
    { monotonicEnd := start.monotonic.add (.int 10000)
      wallExpiry := expiresAt
      lastWall := start.wall
      lastMonotonic := start.monotonic
      timer := none
      closed := false
      aborted := false }
  match d.remainingAt start.wall start.monotonic with
  | (.error e, _) => .error e
  | (.ok remaining, d') => .ok (d'.arm remaining)

/-! ### What the calls do to a deadline -/

namespace Deadline

/-- The deadline has expired, or is closed. -/
def Dead (d : Deadline) : Prop := d.closed = true ∨ d.aborted = true

instance (d : Deadline) : Decidable d.Dead := inferInstanceAs (Decidable (_ ∨ _))

/-- What a deadline that has been created keeps: its numbers are finite. -/
structure Sane (d : Deadline) : Prop where
  wallExpiry : d.wallExpiry.isSafeInteger = true
  monotonicEnd : d.monotonicEnd.isFinite = true
  lastWall : d.lastWall.isSafeInteger = true
  lastMonotonic : d.lastMonotonic.isFinite = true

/-- A reading that the deadline accepts. -/
structure Accepts (d : Deadline) (r : Reading) : Prop where
  wall : r.wall.isSafeInteger = true
  monotonic : r.monotonic.isFinite = true
  lastWall : d.lastWall.value ≤ r.wall.value
  lastMonotonic : d.lastMonotonic.value ≤ r.monotonic.value
  wallRemains : (JsNumber.int 0).lt (d.wallExpiry.sub r.wall) = true
  monotonicRemains : (JsNumber.int 0).lt (d.monotonicEnd.sub r.monotonic) = true

variable {d d' : Deadline} {r : Reading} {next wall : JsNumber}

@[simp] theorem dead_expire (d : Deadline) : d.expire.Dead := Or.inr rfl

theorem dead_close (d : Deadline) : d.close.Dead := Or.inl rfl

theorem Sane.expire (h : d.Sane) : d.expire.Sane := ⟨h.1, h.2, h.3, h.4⟩

private theorem remainingAt_eq (h : d.Sane) (r : Reading) :
    d.remainingAt r.wall r.monotonic =
        (.ok ((d.wallExpiry.sub r.wall).min (d.monotonicEnd.sub r.monotonic)),
          { d with lastWall := r.wall, lastMonotonic := r.monotonic }) ∧ d.Accepts r ∨
      d.remainingAt r.wall r.monotonic = (.error .expired, d.expire) ∧ ¬ d.Accepts r := by
  have hlast := JsNumber.isFinite_of_isSafeInteger h.lastWall
  have hexpiry := JsNumber.isFinite_of_isSafeInteger h.wallExpiry
  rw [remainingAt]
  split_ifs with hfail
  · refine Or.inr ⟨rfl, fun haccepts ↦ ?_⟩
    have hwall := JsNumber.isFinite_of_isSafeInteger haccepts.wall
    have hremains := (JsNumber.min_pos (JsNumber.sub_ne_nan hexpiry hwall)
      (JsNumber.sub_ne_nan h.monotonicEnd haccepts.monotonic)).mpr
        ⟨haccepts.wallRemains, haccepts.monotonicRemains⟩
    rw [haccepts.wall, haccepts.monotonic, h.wallExpiry, h.monotonicEnd, hremains,
      JsNumber.lt_iff_value hwall hlast,
      JsNumber.lt_iff_value haccepts.monotonic h.lastMonotonic] at hfail
    simp [not_lt.mpr haccepts.lastWall, not_lt.mpr haccepts.lastMonotonic] at hfail
  · simp only [not_or, Bool.not_eq_false, Bool.not_eq_true] at hfail
    obtain ⟨hwall, hmonotonic, -, -, hwallLast, hmonotonicLast, hremains⟩ := hfail
    have hfinite := JsNumber.isFinite_of_isSafeInteger hwall
    obtain ⟨hwallRemains, hmonotonicRemains⟩ := (JsNumber.min_pos
      (JsNumber.sub_ne_nan hexpiry hfinite) (JsNumber.sub_ne_nan h.monotonicEnd hmonotonic)).mp
        hremains
    rw [← Bool.not_eq_true, JsNumber.lt_iff_value hfinite hlast, not_lt] at hwallLast
    rw [← Bool.not_eq_true, JsNumber.lt_iff_value hmonotonic h.lastMonotonic, not_lt]
      at hmonotonicLast
    exact Or.inl ⟨rfl, hwall, hmonotonic, hwallLast, hmonotonicLast, hwallRemains,
      hmonotonicRemains⟩

/-- The deadline after it has accepted a reading. -/
def accept (d : Deadline) (r : Reading) : Deadline :=
  { d with
    lastWall := r.wall
    lastMonotonic := r.monotonic
    timer := some ((d.wallExpiry.sub r.wall).min (d.monotonicEnd.sub r.monotonic)) }

/-- A check returns exactly on a reading that a live deadline accepts, and expires otherwise. -/
theorem check_cases (h : d.Sane) (r : Reading) :
    d.check r = (.ok r.wall, d.accept r) ∧ ¬ d.Dead ∧ d.Accepts r ∨
      d.check r = (.error .expired, d.expire) ∧ (d.Dead ∨ ¬ d.Accepts r) := by
  rw [check]
  split_ifs with hdead
  · exact Or.inr ⟨rfl, Or.inl hdead⟩
  · obtain ⟨hremaining, haccepts⟩ | ⟨hremaining, haccepts⟩ := remainingAt_eq h r
    · refine Or.inl ⟨?_, hdead, haccepts⟩
      rw [hremaining]
      simp only [arm, if_neg hdead, accept]
    · refine Or.inr ⟨?_, Or.inr haccepts⟩
      rw [hremaining]

/-- Lowers the expiry. -/
def shorten (d : Deadline) (next : JsNumber) : Deadline :=
  { d with wallExpiry := d.wallExpiry.min next }

theorem cap_eq (d : Deadline) (next : JsNumber) (r : Reading) :
    d.cap next r = if next.isSafeInteger = false then (.error .expired, d.expire)
      else (((d.shorten next).check r).1.map fun _ ↦ (), ((d.shorten next).check r).2) := by
  rw [cap, shorten]
  split_ifs
  · rfl
  · split <;> simp_all [Except.map]

/-- A deadline that is at least as strict: it accepts no earlier reading and expires no later. -/
structure Tightens (d d' : Deadline) : Prop where
  wallExpiry : d'.wallExpiry.value ≤ d.wallExpiry.value
  monotonicEnd : d'.monotonicEnd = d.monotonicEnd
  lastWall : d.lastWall.value ≤ d'.lastWall.value
  lastMonotonic : d.lastMonotonic.value ≤ d'.lastMonotonic.value
  dead : d.Dead → d'.Dead

theorem Tightens.refl (d : Deadline) : d.Tightens d := ⟨le_rfl, rfl, le_rfl, le_rfl, id⟩

theorem Tightens.trans {d'' : Deadline} (h : d.Tightens d') (h' : d'.Tightens d'') :
    d.Tightens d'' :=
  ⟨h'.1.trans h.1, h'.2.trans h.2, h.3.trans h'.3, h.4.trans h'.4, h'.5 ∘ h.5⟩

theorem tightens_expire (d : Deadline) : d.Tightens d.expire :=
  ⟨le_rfl, rfl, le_rfl, le_rfl, fun _ ↦ dead_expire d⟩

theorem tightens_close (d : Deadline) : d.Tightens d.close :=
  ⟨le_rfl, rfl, le_rfl, le_rfl, fun _ ↦ dead_close d⟩

/-- What a stricter deadline accepts the laxer one accepts. -/
theorem Tightens.accepts (h : d.Sane) (h' : d'.Sane) (htightens : d.Tightens d')
    (haccepts : d'.Accepts r) : d.Accepts r where
  wall := haccepts.wall
  monotonic := haccepts.monotonic
  lastWall := htightens.lastWall.trans haccepts.lastWall
  lastMonotonic := htightens.lastMonotonic.trans haccepts.lastMonotonic
  wallRemains := by
    have hremains := (JsNumber.sub_pos_iff h'.wallExpiry haccepts.wall).mp haccepts.wallRemains
    exact (JsNumber.sub_pos_iff h.wallExpiry haccepts.wall).mpr
      (hremains.trans_le htightens.wallExpiry)
  monotonicRemains := htightens.monotonicEnd ▸ haccepts.monotonicRemains

theorem Accepts.sane (h : d.Sane) (haccepts : d.Accepts r) : (d.accept r).Sane :=
  ⟨h.wallExpiry, h.monotonicEnd, haccepts.wall, haccepts.monotonic⟩

/-- What one check does: it keeps the deadline sane and tightens it. -/
theorem check_tightens (h : d.Sane) (r : Reading) :
    (d.check r).2.Sane ∧ d.Tightens (d.check r).2 := by
  obtain ⟨hcheck, hdead, haccepts⟩ | ⟨hcheck, -⟩ := check_cases h r
  · rw [hcheck]
    exact ⟨haccepts.sane h, le_rfl, rfl, haccepts.lastWall, haccepts.lastMonotonic,
      fun hd ↦ absurd hd hdead⟩
  · rw [hcheck]
    exact ⟨h.expire, tightens_expire d⟩

theorem shorten_tightens (h : d.Sane) (hnext : next.isSafeInteger = true) :
    (d.shorten next).Sane ∧ d.Tightens (d.shorten next) ∧
      (d.shorten next).wallExpiry.value ≤ next.value := by
  have hmin := (JsNumber.min_of_finite (JsNumber.isFinite_of_isSafeInteger h.wallExpiry)
    (JsNumber.isFinite_of_isSafeInteger hnext)).2
  refine ⟨⟨JsNumber.isSafeInteger_min h.wallExpiry hnext, h.monotonicEnd, h.lastWall, h.lastMonotonic⟩,
    ⟨?_, rfl, le_rfl, le_rfl, id⟩, ?_⟩
  · rw [shorten, hmin]
    exact min_le_left _ _
  · rw [shorten, hmin]
    exact min_le_right _ _

/-- A cap tightens the deadline, and lowers the expiry below itself unless it ends the deadline. -/
theorem cap_tightens (h : d.Sane) (next : JsNumber) (r : Reading) :
    (d.cap next r).2.Sane ∧ d.Tightens (d.cap next r).2 ∧
      ((d.cap next r).2.Dead ∨ next.isSafeInteger = true ∧
        (d.cap next r).2.wallExpiry.value ≤ next.value) := by
  rw [cap_eq]
  split_ifs with hnext
  · exact ⟨h.expire, tightens_expire d, Or.inl (dead_expire d)⟩
  · rw [Bool.not_eq_false] at hnext
    obtain ⟨hsane, htightens, hle⟩ := shorten_tightens h hnext
    obtain ⟨hsane', htightens'⟩ := check_tightens hsane r
    exact ⟨hsane', htightens.trans htightens', Or.inr ⟨hnext, htightens'.wallExpiry.trans hle⟩⟩

theorem cap_cases (h : d.Sane) (next : JsNumber) (r : Reading) :
    (d.cap next r).1 = .ok () ∧ ¬ d.Dead ∨
      (d.cap next r).1 = .error .expired ∧ (d.cap next r).2.Dead := by
  rw [cap_eq]
  split_ifs with hnext
  · exact Or.inr ⟨rfl, dead_expire d⟩
  · rw [Bool.not_eq_false] at hnext
    obtain ⟨hsane, htightens, -⟩ := shorten_tightens h hnext
    obtain ⟨hcheck, hlive, -⟩ | ⟨hcheck, -⟩ := check_cases hsane r
    · exact Or.inl ⟨by rw [hcheck]; rfl, fun hdead ↦ hlive (htightens.dead hdead)⟩
    · refine Or.inr ⟨by rw [hcheck]; rfl, ?_⟩
      rw [hcheck]
      exact dead_expire _

end Deadline

/-! ### Calls and callbacks -/

section Calls

variable {α ε : Type}

/-- What a promise is rejected with. -/
inductive Thrown (ε : Type)
  | evidence (code : RunnerEvidenceFailureCode)
  | other (error : ε)
  deriving DecidableEq

/-- Where the operation of a call of `run` stands. -/
inductive Phase (α ε : Type)
  | called
  | operating
  | settled (result : Except (Thrown ε) α)

/-- The deadline, and the calls of `run` that have not returned. -/
structure Session (α ε : Type) where
  deadline : Deadline
  runs : ℕ → Option (Phase α ε)

/-- A call, or a callback: of the timer, of an operation that starts or settles, and of a call of
`run` that goes on once its operation has settled or the signal is aborted. -/
inductive Action (α ε : Type)
  | check (r : Reading)
  | cap (nextExpiry : JsNumber) (r : Reading)
  | run (id : ℕ) (r : Reading)
  | start (id : ℕ) (r : Reading)
  | settle (id : ℕ) (result : Except (Thrown ε) α)
  | finish (id : ℕ) (r : Reading)
  | abandon (id : ℕ)
  | fire
  | close
  deriving DecidableEq

/-- How the action ends the call that it belongs to, if it does. -/
inductive Outcome (α ε : Type)
  | pending
  | checked (wall : JsNumber)
  | capped
  | value (a : α)
  | failed (error : Thrown ε)
  deriving DecidableEq

def Session.setRun (s : Session α ε) (id : ℕ) (phase : Option (Phase α ε)) : Session α ε :=
  { s with runs := Function.update s.runs id phase }

/-- `check()` with what follows it where it returns and where it throws. -/
def Session.checkThen (s : Session α ε) (r : Reading)
    (ok : JsNumber → Session α ε → Outcome α ε × Session α ε)
    (error : RunnerEvidenceFailureCode → Session α ε → Outcome α ε × Session α ε) :
    Outcome α ε × Session α ε :=
  match s.deadline.check r with
  | (.ok wall, d) => ok wall { s with deadline := d }
  | (.error e, d) => error e { s with deadline := d }

/-- One action, where it can happen. -/
def step (s : Session α ε) : Action α ε → Option (Outcome α ε × Session α ε)
  | .check r => some (s.checkThen r (fun wall s ↦ (.checked wall, s))
      fun e s ↦ (.failed (.evidence e), s))
  | .cap nextExpiry r =>
    match s.deadline.cap nextExpiry r with
    | (.ok _, d) => some (.capped, { s with deadline := d })
    | (.error e, d) => some (.failed (.evidence e), { s with deadline := d })
  | .run id r =>
    match s.runs id with
    | some _ => none
    | none => some (s.checkThen r (fun _ s ↦ (.pending, s.setRun id (some .called)))
        fun e s ↦ (.failed (.evidence e), s))
  | .start id r =>
    match s.runs id with
    | some .called => some (s.checkThen r
        (fun _ s ↦ (.pending, s.setRun id (some .operating)))
        fun e s ↦ (.pending, s.setRun id (some (.settled (.error (.evidence e))))))
    | _ => none
  | .settle id result =>
    match s.runs id with
    | some .operating => some (.pending, s.setRun id (some (.settled result)))
    | _ => none
  | .finish id r =>
    match s.runs id with
    | some (.settled (.ok a)) => some ((s.setRun id none).checkThen r
        (fun _ s ↦ (.value a, s)) fun e s ↦ (.failed (.evidence e), s))
    | some (.settled (.error error)) =>
      if s.deadline.aborted then
        some (.failed (.evidence .expired),
          { s.setRun id none with deadline := s.deadline.expire })
      else some ((s.setRun id none).checkThen r (fun _ s ↦ (.failed error, s))
        fun e s ↦ (.failed (.evidence e), s))
    | _ => none
  | .abandon id =>
    if (s.runs id).isSome ∧ s.deadline.aborted then
      some (.failed (.evidence .expired), { s.setRun id none with deadline := s.deadline.expire })
    else none
  | .fire =>
    if s.deadline.timer.isSome then some (.pending, { s with deadline := s.deadline.expire })
    else none
  | .close => some (.pending, { s with deadline := s.deadline.close })

abbrev Event (α ε : Type) : Type := Action α ε × Outcome α ε

/-- A run of actions, with how each ends. -/
inductive Trace : Session α ε → List (Event α ε) → Session α ε → Prop
  | nil (s : Session α ε) : Trace s [] s
  | cons {s s₁ s₂ : Session α ε} {action : Action α ε} {outcome : Outcome α ε}
      {events : List (Event α ε)} :
      step s action = some (outcome, s₁) → Trace s₁ events s₂ →
      Trace s ((action, outcome) :: events) s₂

theorem Trace.append_inv {s s₂ : Session α ε} {before after : List (Event α ε)}
    (h : Trace s (before ++ after) s₂) : ∃ s₁, Trace s before s₁ ∧ Trace s₁ after s₂ := by
  induction before generalizing s with
  | nil => exact ⟨s, .nil s, h⟩
  | cons event before ih =>
    obtain ⟨⟩ | ⟨hstep, htail⟩ := h
    obtain ⟨s₁, hbefore, hafter⟩ := ih htail
    exact ⟨s₁, .cons hstep hbefore, hafter⟩

/-! ### Steps -/

variable {s s' : Session α ε} {action : Action α ε} {outcome : Outcome α ε}

/-- The calls that a user of the deadline makes. -/
def Action.isCall : Action α ε → Bool
  | .check _ => true
  | .cap _ _ => true
  | .run _ _ => true
  | _ => false

/-- The operation of a call of `run` was rejected with `expired`. -/
def Expired (s : Session α ε) (id : ℕ) : Prop :=
  s.runs id = some (.settled (.error (.evidence .expired)))

/-- What every step keeps. -/
structure Keeps (s : Session α ε) (action : Action α ε) (outcome : Outcome α ε)
    (s' : Session α ε) : Prop where
  sane : s'.deadline.Sane
  tightens : s.deadline.Tightens s'.deadline
  refuses : s.deadline.Dead → action.isCall = true → outcome = .failed (.evidence .expired)
  valueless : s.deadline.Dead → ∀ a, outcome ≠ .value a
  expires : outcome = .failed (.evidence .expired) → s'.deadline.Dead ∨
    ∃ id r, action = .finish id r ∧ Expired s id
  ends : action = .fire ∨ action = .close → s'.deadline.Dead
  fresh : ∀ id, Expired s' id → s'.deadline.Dead ∨ Expired s id ∨
    action = .settle id (.error (.evidence .expired))

/-- A step that expires. -/
private theorem keeps_expire (h : s.deadline.Sane) (hdeadline : s'.deadline = s.deadline.expire)
    (hcall : action.isCall = true → outcome = .failed (.evidence .expired))
    (hvalue : ∀ a, outcome ≠ .value a) : Keeps s action outcome s' := by
  have hdead : s'.deadline.Dead := hdeadline ▸ Deadline.dead_expire _
  exact ⟨hdeadline ▸ h.expire, hdeadline ▸ Deadline.tightens_expire _, fun _ ↦ hcall,
    fun _ ↦ hvalue, fun _ ↦ Or.inl hdead, fun _ ↦ hdead, fun _ _ ↦ Or.inl hdead⟩

/-- A step that accepts a reading. -/
private theorem keeps_accept {r : Reading} (h : s.deadline.Sane) (hlive : ¬ s.deadline.Dead)
    (haccepts : s.deadline.Accepts r) (hdeadline : s'.deadline = s.deadline.accept r)
    (hexpires : outcome = .failed (.evidence .expired) →
      ∃ id r, action = .finish id r ∧ Expired s id)
    (hends : action ≠ .fire ∧ action ≠ .close)
    (hfresh : ∀ id, Expired s' id → Expired s id) : Keeps s action outcome s' where
  sane := hdeadline ▸ haccepts.sane h
  tightens := hdeadline ▸ ⟨le_rfl, rfl, haccepts.lastWall, haccepts.lastMonotonic,
    fun hdead ↦ absurd hdead hlive⟩
  refuses hdead := absurd hdead hlive
  valueless hdead := absurd hdead hlive
  expires houtcome := Or.inr (hexpires houtcome)
  ends h := by
    obtain rfl | rfl := h
    · exact absurd rfl hends.1
    · exact absurd rfl hends.2
  fresh id hid := Or.inr (Or.inl (hfresh id hid))

private theorem checkThen_cases (h : s.deadline.Sane) (r : Reading)
    (ok : JsNumber → Session α ε → Outcome α ε × Session α ε)
    (error : RunnerEvidenceFailureCode → Session α ε → Outcome α ε × Session α ε) :
    s.checkThen r ok error = ok r.wall { s with deadline := s.deadline.accept r } ∧
        ¬ s.deadline.Dead ∧ s.deadline.Accepts r ∨
      s.checkThen r ok error = error .expired { s with deadline := s.deadline.expire } := by
  rw [Session.checkThen]
  obtain ⟨hcheck, hlive⟩ | ⟨hcheck, -⟩ := Deadline.check_cases h r
  · exact Or.inl ⟨by rw [hcheck], hlive⟩
  · exact Or.inr (by rw [hcheck])

/-- A phase that is set for one call leaves the others as they are. -/
private theorem expired_of_setRun {d : Deadline} {id id' : ℕ} {phase : Option (Phase α ε)}
    (hphase : phase ≠ some (.settled (.error (.evidence .expired))))
    (h : Expired (({ s with deadline := d } : Session α ε).setRun id phase) id') :
    Expired s id' := by
  dsimp only [Expired, Session.setRun] at h
  rw [Function.update_apply] at h
  split_ifs at h
  · exact absurd h hphase
  · exact h

theorem step_keeps (h : s.deadline.Sane) (hstep : step s action = some (outcome, s')) :
    Keeps s action outcome s' := by
  cases action with
  | check r =>
    obtain ⟨hcheck, hlive, haccepts⟩ | hcheck := checkThen_cases h r
      (fun wall s ↦ (Outcome.checked wall, s)) fun e s ↦ (.failed (.evidence e), s)
    · rw [step, hcheck] at hstep
      obtain ⟨rfl, rfl⟩ := Prod.mk.inj (Option.some.inj hstep)
      exact keeps_accept h hlive haccepts rfl (by simp) (by simp) fun _ hid ↦ hid
    · rw [step, hcheck] at hstep
      obtain ⟨rfl, rfl⟩ := Prod.mk.inj (Option.some.inj hstep)
      exact keeps_expire h rfl (fun _ ↦ rfl) (by simp)
  | cap next r =>
    obtain ⟨hsane, htightens, -⟩ := Deadline.cap_tightens h next r
    rw [step] at hstep
    obtain ⟨hcap, hlive⟩ | ⟨hcap, hdead⟩ := Deadline.cap_cases h next r
    · rw [show s.deadline.cap next r = (.ok (), (s.deadline.cap next r).2) from
        Prod.ext hcap rfl] at hstep
      obtain ⟨rfl, rfl⟩ := Prod.mk.inj (Option.some.inj hstep)
      exact ⟨hsane, htightens, fun hdead ↦ absurd hdead hlive, fun _ ↦ by simp, by simp, by simp,
        fun _ hid ↦ Or.inr (Or.inl hid)⟩
    · rw [show s.deadline.cap next r = (.error .expired, (s.deadline.cap next r).2) from
        Prod.ext hcap rfl] at hstep
      obtain ⟨rfl, rfl⟩ := Prod.mk.inj (Option.some.inj hstep)
      exact ⟨hsane, htightens, fun _ _ ↦ rfl, fun _ ↦ by simp, fun _ ↦ Or.inl hdead, by simp,
        fun _ hid ↦ Or.inr (Or.inl hid)⟩
  | run id r =>
    rw [step] at hstep
    cases hrun : s.runs id with
    | some phase => simp [hrun] at hstep
    | none =>
      rw [hrun] at hstep
      obtain ⟨hcheck, hlive, haccepts⟩ | hcheck := checkThen_cases h r
        (fun _ s ↦ ((.pending : Outcome α ε), s.setRun id (some .called)))
        fun e s ↦ (.failed (.evidence e), s)
      · rw [hcheck] at hstep
        obtain ⟨rfl, rfl⟩ := Prod.mk.inj (Option.some.inj hstep)
        exact keeps_accept h hlive haccepts rfl (by simp) (by simp) fun _ hid ↦
          expired_of_setRun (by simp) hid
      · rw [hcheck] at hstep
        obtain ⟨rfl, rfl⟩ := Prod.mk.inj (Option.some.inj hstep)
        exact keeps_expire h rfl (fun _ ↦ rfl) (by simp)
  | start id r =>
    rw [step] at hstep
    split at hstep
    case h_2 => cases hstep
    obtain ⟨hcheck, hlive, haccepts⟩ | hcheck := checkThen_cases h r
      (fun _ s ↦ ((.pending : Outcome α ε), s.setRun id (some .operating)))
      fun e s ↦ (.pending, s.setRun id (some (.settled (.error (.evidence e)))))
    · rw [hcheck] at hstep
      obtain ⟨rfl, rfl⟩ := Prod.mk.inj (Option.some.inj hstep)
      exact keeps_accept h hlive haccepts rfl (by simp) (by simp) fun _ hid ↦
        expired_of_setRun (by simp) hid
    · rw [hcheck] at hstep
      obtain ⟨rfl, rfl⟩ := Prod.mk.inj (Option.some.inj hstep)
      exact keeps_expire h rfl (by simp [Action.isCall]) (by simp)
  | settle id result =>
    rw [step] at hstep
    split at hstep
    case h_2 => cases hstep
    obtain ⟨rfl, rfl⟩ := Prod.mk.inj (Option.some.inj hstep)
    refine ⟨h, .refl _, fun _ ↦ by simp [Action.isCall], fun _ ↦ by simp, by simp, by simp,
      fun id' hid ↦ Or.inr ?_⟩
    dsimp only [Expired, Session.setRun] at hid
    rw [Function.update_apply] at hid
    split_ifs at hid with hsame
    · subst hsame
      simp only [Option.some.injEq, Phase.settled.injEq] at hid
      exact Or.inr (by rw [hid])
    · exact Or.inl hid
  | finish id r =>
    have hexpired : ∀ {d : Deadline} {id'}, Expired
        (({ s with deadline := d } : Session α ε).setRun id none) id' → Expired s id' :=
      fun hid ↦ expired_of_setRun (by simp) hid
    rw [step] at hstep
    split at hstep
    case h_3 => cases hstep
    case h_1 a hsettled =>
      obtain ⟨hcheck, hlive, haccepts⟩ | hcheck := checkThen_cases (s := s.setRun id none) h r
        (fun _ s ↦ (Outcome.value a, s)) fun e s ↦ (.failed (.evidence e), s)
      · rw [hcheck] at hstep
        obtain ⟨rfl, rfl⟩ := Prod.mk.inj (Option.some.inj hstep)
        exact keeps_accept h hlive haccepts rfl (by simp) (by simp) fun _ ↦ hexpired
      · rw [hcheck] at hstep
        obtain ⟨rfl, rfl⟩ := Prod.mk.inj (Option.some.inj hstep)
        exact keeps_expire h rfl (fun _ ↦ rfl) (by simp)
    case h_2 error hsettled =>
      split_ifs at hstep with haborted
      · obtain ⟨rfl, rfl⟩ := Prod.mk.inj (Option.some.inj hstep)
        exact keeps_expire h rfl (fun _ ↦ rfl) (by simp)
      · obtain ⟨hcheck, hlive, haccepts⟩ | hcheck := checkThen_cases (s := s.setRun id none) h r
          (fun _ s ↦ ((.failed error : Outcome α ε), s)) fun e s ↦ (.failed (.evidence e), s)
        · rw [hcheck] at hstep
          obtain ⟨rfl, rfl⟩ := Prod.mk.inj (Option.some.inj hstep)
          refine keeps_accept h hlive haccepts rfl (fun herror ↦ ⟨id, r, rfl, ?_⟩) (by simp)
            fun _ ↦ hexpired
          rw [Expired, hsettled, Outcome.failed.inj herror]
        · rw [hcheck] at hstep
          obtain ⟨rfl, rfl⟩ := Prod.mk.inj (Option.some.inj hstep)
          exact keeps_expire h rfl (fun _ ↦ rfl) (by simp)
  | abandon id =>
    rw [step] at hstep
    split_ifs at hstep
    obtain ⟨rfl, rfl⟩ := Prod.mk.inj (Option.some.inj hstep)
    exact keeps_expire h rfl (fun _ ↦ rfl) (by simp)
  | fire =>
    rw [step] at hstep
    split_ifs at hstep
    obtain ⟨rfl, rfl⟩ := Prod.mk.inj (Option.some.inj hstep)
    exact keeps_expire h rfl (by simp [Action.isCall]) (by simp)
  | close =>
    rw [step] at hstep
    obtain ⟨rfl, rfl⟩ := Prod.mk.inj (Option.some.inj hstep)
    have hdead := Deadline.dead_close s.deadline
    exact ⟨⟨h.1, h.2, h.3, h.4⟩, Deadline.tightens_close _, fun _ ↦ by simp [Action.isCall],
      fun _ ↦ by simp, fun _ ↦ Or.inl hdead, fun _ ↦ hdead, fun _ _ ↦ Or.inl hdead⟩

/-! ### Runs -/

/-- The operation of the call has been rejected with `expired`. -/
def Rejected (events : List (Event α ε)) (id : ℕ) : Prop :=
  ∃ outcome, (.settle id (.error (.evidence .expired)), outcome) ∈ events

/-- The event that ends a deadline: its timer fires, it is closed, or a call fails with `expired`
other than by passing on what the operation of that call was rejected with. -/
def EndsDeadline (before : List (Event α ε)) (event : Event α ε) : Prop :=
  event.1 = .fire ∨ event.1 = .close ∨ event.2 = .failed (.evidence .expired) ∧
    ∀ id r, event.1 = .finish id r → ¬ Rejected before id

/-- What every run keeps: an operation that was rejected with `expired` was so by itself, or the
deadline is dead. -/
structure Sound (past : List (Event α ε)) (s : Session α ε) : Prop where
  sane : s.deadline.Sane
  expired : ∀ id, Expired s id → s.deadline.Dead ∨ Rejected past id

theorem Sound.step {past : List (Event α ε)} (h : Sound past s)
    (hstep : step s action = some (outcome, s')) : Sound (past ++ [(action, outcome)]) s' := by
  have hkeeps := step_keeps h.sane hstep
  refine ⟨hkeeps.sane, fun id hid ↦ ?_⟩
  obtain hdead | hid | rfl := hkeeps.fresh id hid
  · exact Or.inl hdead
  · obtain hdead | ⟨outcome', hmem⟩ := h.expired id hid
    · exact Or.inl (hkeeps.tightens.dead hdead)
    · exact Or.inr ⟨outcome', List.mem_append_left _ hmem⟩
  · exact Or.inr ⟨outcome, List.mem_append_right _ (List.mem_singleton_self _)⟩

theorem Trace.sound {past events : List (Event α ε)} (htrace : Trace s events s')
    (h : Sound past s) : Sound (past ++ events) s' ∧ s.deadline.Tightens s'.deadline := by
  induction htrace generalizing past with
  | nil s => exact ⟨(List.append_nil past).symm ▸ h, .refl _⟩
  | cons hstep _ ih =>
    obtain ⟨hsound, htightens⟩ := ih (h.step hstep)
    rw [List.append_assoc, List.singleton_append] at hsound
    exact ⟨hsound, (step_keeps h.sane hstep).tightens.trans htightens⟩

theorem Trace.cons_inv {events : List (Event α ε)}
    (h : Trace s ((action, outcome) :: events) s') :
    ∃ s₁, step s action = some (outcome, s₁) ∧ Trace s₁ events s' := by
  cases h with
  | cons hstep htail => exact ⟨_, hstep, htail⟩

/-- An event of a run, with the states before and after it. -/
theorem Trace.at {past before after : List (Event α ε)}
    (htrace : Trace s (before ++ (action, outcome) :: after) s') (h : Sound past s) :
    ∃ s₁ s₂, Trace s before s₁ ∧ Sound (past ++ before) s₁ ∧
      step s₁ action = some (outcome, s₂) ∧ Keeps s₁ action outcome s₂ ∧ Trace s₂ after s' := by
  obtain ⟨s₁, hbefore, hafter⟩ := htrace.append_inv
  obtain ⟨s₂, hstep, hafter⟩ := hafter.cons_inv
  have hsound := (hbefore.sound h).1
  exact ⟨s₁, s₂, hbefore, hsound, hstep, step_keeps hsound.sane hstep, hafter⟩

private theorem check_of_step {r : Reading} {wall : JsNumber} (h : s.deadline.Sane)
    (hstep : step s (.check r) = some (.checked wall, s')) :
    wall = r.wall ∧ ¬ s.deadline.Dead ∧ s.deadline.Accepts r ∧
      s'.deadline = s.deadline.accept r := by
  obtain ⟨hcheck, hlive, haccepts⟩ | hcheck := checkThen_cases h r
    (fun wall s ↦ (Outcome.checked wall, s)) fun e s ↦ (.failed (.evidence e), s)
  · rw [step, hcheck] at hstep
    obtain ⟨hwall, rfl⟩ := Prod.mk.inj (Option.some.inj hstep)
    exact ⟨(Outcome.checked.inj hwall).symm, hlive, haccepts, rfl⟩
  · rw [step, hcheck] at hstep
    cases hstep

private theorem cap_of_step {next : JsNumber} {r : Reading} (h : s.deadline.Sane)
    (hstep : step s (.cap next r) = some (outcome, s')) :
    s'.deadline.Dead ∨ next.isSafeInteger = true ∧
      s'.deadline.wallExpiry.value ≤ next.value := by
  obtain ⟨-, -, hcap⟩ := Deadline.cap_tightens h next r
  rw [step] at hstep
  split at hstep
  all_goals
    rename_i heq
    obtain ⟨rfl, rfl⟩ := Prod.mk.inj (Option.some.inj hstep)
    rw [heq] at hcap
    exact hcap

/-- A session begins with its deadline and no call. -/
def Session.begin (d : Deadline) : Session α ε := ⟨d, fun _ ↦ none⟩

theorem created {start : Reading} {expiresAt : JsNumber} {d : Deadline}
    (h : createRunnerEvidenceDeadline start expiresAt = .ok d) :
    d.Sane ∧ d.wallExpiry = expiresAt ∧ d.monotonicEnd = start.monotonic.add (.int 10000) := by
  rw [createRunnerEvidenceDeadline, Deadline.remainingAt] at h
  dsimp only at h
  split_ifs at h with hfail
  obtain rfl := Except.ok.inj h
  simp only [not_or, Bool.not_eq_false] at hfail
  exact ⟨⟨hfail.2.2.1, hfail.2.2.2.1, hfail.1, hfail.2.1⟩, rfl, rfl⟩

theorem Sound.begin {d : Deadline} (h : d.Sane) : Sound [] (Session.begin d : Session α ε) :=
  ⟨h, fun _ hid ↦ nomatch hid⟩

private theorem checked_le {past before between : List (Event α ε)} {s₀ : Session α ε}
    {r r' : Reading} {wall wall' : JsNumber} (h : Sound past s₀)
    (htrace : Trace s₀ (before ++ (.check r', .checked wall') :: between) s)
    (haccepts : s.deadline.Accepts r) (hwall : wall = r.wall) : wall'.le wall = true := by
  obtain ⟨s₁, s₂, -, hsound, hstep, hkeeps, hafter⟩ := htrace.at h
  obtain ⟨rfl, -, haccepts', hdeadline⟩ := check_of_step hsound.sane hstep
  have hsound' := hsound.step hstep
  have htightens := (hafter.sound hsound').2
  subst hwall
  rw [JsNumber.le_iff_value (JsNumber.isFinite_of_isSafeInteger haccepts'.wall)
    (JsNumber.isFinite_of_isSafeInteger haccepts.wall)]
  have hlast := htightens.lastWall
  rw [hdeadline] at hlast
  exact hlast.trans haccepts.lastWall

private theorem checked_lt_cap {past before between : List (Event α ε)} {s₀ : Session α ε}
    {next wall : JsNumber} {r r' : Reading} {ended : Outcome α ε} (h : Sound past s₀)
    (htrace : Trace s₀ (before ++ (.cap next r', ended) :: between) s)
    (hsane : s.deadline.Sane) (hlive : ¬ s.deadline.Dead) (haccepts : s.deadline.Accepts r)
    (hwall : wall = r.wall) : wall.lt next = true := by
  obtain ⟨s₁, s₂, -, hsound, hstep, hkeeps, hafter⟩ := htrace.at h
  have hsound' := hsound.step hstep
  have htightens := (hafter.sound hsound').2
  obtain hdead | ⟨hnext, hle⟩ := cap_of_step hsound.sane hstep
  · exact absurd (htightens.dead hdead) hlive
  · subst hwall
    have hremains := (JsNumber.sub_pos_iff hsane.wallExpiry haccepts.wall).mp haccepts.wallRemains
    rw [JsNumber.lt_iff_value (JsNumber.isFinite_of_isSafeInteger haccepts.wall)
      (JsNumber.isFinite_of_isSafeInteger hnext)]
    exact hremains.trans_le (htightens.wallExpiry.trans hle)

/-- **The deadline is sticky and monotone.** Along any run of calls, callbacks and readings of a
deadline that has been created: the times that checks return never decrease, each is below every
cap applied before and below the initial expiry, read with the monotonic clock below ten seconds
after the start; once the timer has fired, the deadline is closed, or a call has failed with
`expired` other than by passing on what its own operation was rejected with, every later check, cap
and run fails with `expired` and no call that waits returns a value; and after a cap the deadline
accepts no reading that it did not accept before. -/
theorem deadline_sticky_and_monotone {start : Reading} {expiresAt : JsNumber} {d : Deadline}
    (hcreate : createRunnerEvidenceDeadline start expiresAt = .ok d)
    {events : List (Event α ε)} (htrace : Trace (Session.begin d) events s) :
    (∀ before r wall after, events = before ++ (.check r, .checked wall) :: after →
      (∀ r' wall', (.check r', .checked wall') ∈ before → wall'.le wall = true) ∧
      (∀ next r' ended, (.cap next r', ended) ∈ before → wall.lt next = true) ∧
      wall.lt expiresAt = true ∧ wall = r.wall ∧
      r.monotonic.lt (start.monotonic.add (.int 10000)) = true) ∧
    (∀ before event after, events = before ++ event :: after → EndsDeadline before event →
      ∀ later ∈ after, (later.1.isCall = true → later.2 = .failed (.evidence .expired)) ∧
        ∀ a, later.2 ≠ .value a) ∧
    ∀ next r, (s.deadline.cap next r).2.wallExpiry.le s.deadline.wallExpiry = true ∧
      (s.deadline.cap next r).2.monotonicEnd = s.deadline.monotonicEnd ∧
      ∀ r' wall, ((s.deadline.cap next r).2.check r').1 = .ok wall →
        (s.deadline.check r').1 = .ok wall := by
  obtain ⟨hsane, hexpiry, hend⟩ := created hcreate
  have hbegin : Sound [] (Session.begin d : Session α ε) := .begin hsane
  refine ⟨?_, ?_, fun next r ↦ ?_⟩
  · rintro before r wall after rfl
    obtain ⟨s₁, s₂, hbefore, hsound, hstep, -, -⟩ := htrace.at hbegin
    obtain ⟨hwall, hlive, haccepts, -⟩ := check_of_step hsound.sane hstep
    have htightens := (hbefore.sound hbegin).2
    have hfinite := JsNumber.isFinite_of_isSafeInteger haccepts.wall
    refine ⟨fun r' wall' hmem ↦ ?_, fun next r' ended hmem ↦ ?_, ?_, hwall, ?_⟩
    · obtain ⟨first, between, rfl⟩ := List.append_of_mem hmem
      exact checked_le hbegin hbefore haccepts hwall
    · obtain ⟨first, between, rfl⟩ := List.append_of_mem hmem
      exact checked_lt_cap hbegin hbefore hsound.sane hlive haccepts hwall
    · have hremains := (JsNumber.sub_pos_iff hsound.sane.wallExpiry haccepts.wall).mp
        haccepts.wallRemains
      rw [hwall, ← hexpiry, JsNumber.lt_iff_value hfinite
        (JsNumber.isFinite_of_isSafeInteger hsane.wallExpiry)]
      exact hremains.trans_le htightens.wallExpiry
    · have hremains := JsNumber.lt_of_sub_pos hsound.sane.monotonicEnd haccepts.monotonic
        haccepts.monotonicRemains
      rw [← hend, JsNumber.lt_iff_value haccepts.monotonic hsane.monotonicEnd]
      rwa [htightens.monotonicEnd] at hremains
  · rintro before ⟨action, outcome⟩ after rfl hends later hlater
    obtain ⟨s₁, s₂, -, hsound, hstep, hkeeps, hafter⟩ := htrace.at hbegin
    have hdead : s₂.deadline.Dead := by
      obtain hfire | hclose | ⟨houtcome, hown⟩ := hends
      · exact hkeeps.ends (Or.inl hfire)
      · exact hkeeps.ends (Or.inr hclose)
      · obtain hdead | ⟨id, r, hfinish, hid⟩ := hkeeps.expires houtcome
        · exact hdead
        · obtain hdead | hrejected := hsound.expired id hid
          · exact hkeeps.tightens.dead hdead
          · exact absurd hrejected (hown id r hfinish)
    obtain ⟨action', outcome'⟩ := later
    obtain ⟨first, last, rfl⟩ := List.append_of_mem hlater
    obtain ⟨s₃, s₄, hbetween, -, -, hkeeps', -⟩ := hafter.at (hsound.step hstep)
    have hdead' := ((hbetween.sound (hsound.step hstep)).2).dead hdead
    exact ⟨hkeeps'.refuses hdead', hkeeps'.valueless hdead'⟩
  · have hsound := (htrace.sound hbegin).1.sane
    obtain ⟨hsane', htightens, -⟩ := Deadline.cap_tightens hsound next r
    refine ⟨?_, htightens.monotonicEnd, fun r' wall hcheck ↦ ?_⟩
    · rw [JsNumber.le_iff_value (JsNumber.isFinite_of_isSafeInteger hsane'.wallExpiry)
        (JsNumber.isFinite_of_isSafeInteger hsound.wallExpiry)]
      exact htightens.wallExpiry
    · obtain ⟨hafter, hlive, haccepts⟩ | ⟨hafter, -⟩ := Deadline.check_cases hsane' r'
      · have haccepts' := htightens.accepts hsound hsane' haccepts
        obtain ⟨hbefore, -⟩ | ⟨-, hdead | hnot⟩ := Deadline.check_cases hsound r'
        · rw [hbefore]
          rwa [hafter] at hcheck
        · exact absurd (htightens.dead hdead) hlive
        · exact absurd haccepts' hnot
      · rw [hafter] at hcheck
        cases hcheck

/-- Lets the actions happen in turn. -/
def play (s : Session α ε) : List (Action α ε) → Option (List (Event α ε) × Session α ε)
  | [] => some ([], s)
  | action :: actions =>
    match step s action with
    | none => none
    | some (outcome, s') => (play s' actions).map (Prod.map ((action, outcome) :: ·) id)

theorem trace_of_play {s s' : Session α ε} {actions : List (Action α ε)} {events : List (Event α ε)}
    (h : play s actions = some (events, s')) : Trace s events s' := by
  induction actions generalizing s events with
  | nil =>
    cases h
    exact .nil _
  | cons action actions ih =>
    rw [play] at h
    split at h
    · cases h
    · rename_i outcome s₁ hstep
      obtain ⟨⟨events', s₂⟩, hplay, heq⟩ := Option.map_eq_some_iff.mp h
      cases heq
      exact .cons hstep (ih hplay)

end Calls

/-! ### Fixed runs -/

def sampleReading : Reading := ⟨.int 1000, .int 50⟩

def sampleDeadline : Deadline :=
  { monotonicEnd := .int 10050
    wallExpiry := .int 6000
    lastWall := .int 1000
    lastMonotonic := .int 50
    timer := some (.int 5000)
    closed := false
    aborted := false }

private theorem sampleDeadline_created :
    createRunnerEvidenceDeadline sampleReading (.int 6000) = .ok sampleDeadline := by
  decide +kernel

/-- A run of which only the events are kept. -/
private theorem trace_of_events (actions : List (Action Unit Unit))
    {events : List (Event Unit Unit)}
    (h : (play (Session.begin sampleDeadline) actions).map Prod.fst = some events) :
    ∃ s, Trace (Session.begin sampleDeadline) events s := by
  obtain ⟨⟨events', s⟩, hplay, rfl⟩ := Option.map_eq_some_iff.mp h
  exact ⟨s, trace_of_play hplay⟩

/-- A call whose operation is rejected with `expired` fails with that, and leaves the deadline
alive. -/
theorem deadline_survives_expired_operation :
    createRunnerEvidenceDeadline sampleReading (.int 6000) = .ok sampleDeadline ∧
      ∃ (before after : List (Event Unit Unit)) (s : Session Unit Unit),
        Trace (Session.begin sampleDeadline)
          (before ++ (.finish 0 sampleReading, .failed (.evidence .expired)) :: after) s ∧
        (.check sampleReading, .checked (.int 1000)) ∈ after := by
  refine ⟨sampleDeadline_created,
    [(.run 0 sampleReading, .pending), (.start 0 sampleReading, .pending),
      (.settle 0 (.error (.evidence .expired)), .pending)],
    [(.check sampleReading, .checked (.int 1000))], ?_⟩
  obtain ⟨s, htrace⟩ : ∃ s, Trace (Session.begin sampleDeadline)
      [((.run 0 sampleReading, .pending) : Event Unit Unit), (.start 0 sampleReading, .pending),
        (.settle 0 (.error (.evidence .expired)), .pending),
        (.finish 0 sampleReading, .failed (.evidence .expired)),
        (.check sampleReading, .checked (.int 1000))] s :=
    trace_of_events [.run 0 sampleReading, .start 0 sampleReading,
      .settle 0 (.error (.evidence .expired)), .finish 0 sampleReading, .check sampleReading]
      (by decide +kernel)
  exact ⟨s, htrace, List.mem_singleton_self _⟩

/-- The deadline is closed, and a check fails. -/
theorem deadline_sticky_and_monotone_closed :
    ∃ (events : List (Event Unit Unit)) (s : Session Unit Unit),
      Trace (Session.begin sampleDeadline) events s ∧
      events = [(.check sampleReading, .checked (.int 1000)), (.close, .pending),
        (.check sampleReading, .failed (.evidence .expired))] ∧
      (JsNumber.int 1000).lt (.int 6000) = true ∧
      ∀ later ∈ [((.check sampleReading, .failed (.evidence .expired)) : Event Unit Unit)],
        ∀ a, later.2 ≠ .value a := by
  obtain ⟨s, htrace⟩ : ∃ s, Trace (Session.begin sampleDeadline)
      [((.check sampleReading, .checked (.int 1000)) : Event Unit Unit), (.close, .pending),
        (.check sampleReading, .failed (.evidence .expired))] s :=
    trace_of_events [.check sampleReading, .close, .check sampleReading]
      (by decide +kernel)
  obtain ⟨hchecked, hends, -⟩ := deadline_sticky_and_monotone sampleDeadline_created htrace
  refine ⟨_, s, htrace, rfl, (hchecked [] sampleReading (.int 1000) _ rfl).2.2.1, ?_⟩
  intro later hlater a
  exact (hends [_] (.close, .pending) _ rfl (Or.inr (Or.inl rfl)) later hlater).2 a

end ApiMigrator.App.RunnerEvidenceDeadline
