import ApiMigrator.Ops.CleanupProtocol

/-!
What the rehearsal does whatever the clock, the transport and the inventory reader answer: nothing
is asked for after the timeout or on a clock that went back, each deletion rests on the last
complete inventory, and absence is reported only where that inventory shows it.
-/

set_option autoImplicit false
set_option relaxedAutoImplicit false

namespace ApiMigrator.Ops.CleanupSafety

open Foundation.Text Foundation.Number Foundation.Json Foundation.Outcome Foundation.Pattern
open Foundation.Binary Foundation.Interaction Foundation.Interaction.Prog Lib TrialCleanup
open CleanupProtocol

/-! ### Histories -/

abbrev History := List (Event Op Answer)

def timedOut : Event Op Answer → Bool
  | ⟨.now, _⟩ => false
  | ⟨.readInventory, answer⟩ => Awaited.timedOut answer
  | ⟨.transport _, answer⟩ => Awaited.timedOut answer
  | ⟨.wait, answer⟩ => Awaited.timedOut answer

def clockAnswer : Event Op Answer → Option (Option ℤ)
  | ⟨.now, answer⟩ => some answer
  | _ => none

def clock (h : History) : List (Option ℤ) := h.filterMap clockAnswer

/-- The address an event deletes. -/
def deletedUrl : Event Op Answer → Option JsString
  | ⟨.transport ⟨.delete, url⟩, _⟩ => some url
  | _ => none

def isRead (e : Event Op Answer) : Bool := decide (e.1 = .readInventory)

/-- The timeout has not fired, and the clock has only gone forward. -/
def Quiet (h : History) : Prop :=
  (∀ e ∈ h, timedOut e = false) ∧
    ∃ times : List ℤ, clock h = times.map some ∧ times.Pairwise (· ≤ ·)

section Guard

variable (sha1 : HashFunction 20) (sha256 : HashFunction 32) (dateParse : DateParser)
  (planJson ownershipJson : JsValue)

/-- The last inventory that was read shows that the resource may be deleted. It was asked for
during the run, is complete and at most 30 seconds old, and nothing was deleted since. -/
def Confirmed (p : TrialPlan) (r : Ownership) (startedAt : ℤ) (h : History) (kind : Kind) : Prop :=
  ∃ (before : History) (json : JsValue) (after : History) (nowMs : ℤ) (inv : Inventory),
    h = before ++ ⟨.readInventory, (⟨some json, false⟩ : Awaited)⟩ :: after ∧
      before.head? = some ⟨.now, (some startedAt : Option ℤ)⟩ ∧
      (∀ e ∈ after, deletedUrl e = none) ∧
      validateTrialInventory dateParse json nowMs = .ok inv ∧ Confirms p r inv kind ∧
      (∀ vm ∈ inv.instances, vm.id ≠ r.instanceId → ∀ disks, vm.disks = some disks →
        disks.any (hasSource (diskUrl p.instanceName)) = false) ∧
      startedAt ≤ inv.observedAt ∧
        ∃ now, (clock h).getLast? = some (some now) ∧ now - inv.observedAt ≤ 30000

/-- A deletion goes to the address of an owned resource that was not deleted before, and rests on
the last inventory. -/
def MayDelete (h : History) (url : JsString) : Prop :=
  ∃ (startedAt : ℤ) (p : TrialPlan) (r : Ownership) (kind : Kind),
    validateTrialOwnership sha256 planJson ownershipJson startedAt = .ok (p, r) ∧
      url = deleteUrl sha1 r kind ∧ (∀ e ∈ h, deletedUrl e ≠ some url) ∧
        Confirmed dateParse p r startedAt h kind

/-- What the history must show before the program asks for something. -/
def guard (h : History) : Op → Prop
  | .now => True
  | .wait => True
  | .readInventory => Quiet h
  | .transport request => Quiet h ∧
      (request.method = .delete → MayDelete sha1 sha256 dateParse planJson ownershipJson h
        request.url)

/-- Absence is reported only where the last inventory that was read has neither id. -/
def Reports (h : History) (result : Result) : Prop :=
  result.status = .absenceObserved →
    ∃ (startedAt : ℤ) (p : TrialPlan) (r : Ownership) (before : History) (json : JsValue)
      (after : History) (nowMs : ℤ) (inv : Inventory),
      validateTrialOwnership sha256 planJson ownershipJson startedAt = .ok (p, r) ∧
        h = before ++ ⟨.readInventory, (⟨some json, false⟩ : Awaited)⟩ :: after ∧
        (∀ e ∈ after, isRead e = false) ∧
        validateTrialInventory dateParse json nowMs = .ok inv ∧
        (∀ vm ∈ inv.instances, vm.id ≠ r.instanceId) ∧ ∀ d ∈ inv.disks, d.id ≠ r.diskId

end Guard

/-! ### The state of a run -/

/-- The arguments of a run have been accepted. -/
structure Accepted (c : Context) : Prop where
  timeout : c.timeoutMs ≤ 20000
  valid : validateTrialOwnership c.sha256 c.planJson c.ownershipJson c.startedAt =
    .ok (c.plan, c.ownership)

/-- What the history shows of the state. -/
structure Steady (c : Context) (s : State) (h : History) : Prop where
  begins : h.head? = some ⟨.now, (some c.startedAt : Option ℤ)⟩
  times : ∃ times : List ℤ, clock h = times.map some ∧ times.Pairwise (· ≤ ·) ∧
    times.getLast? = some s.lastTime
  started : c.startedAt ≤ s.lastTime
  within : s.lastTime - c.startedAt ≤ c.timeoutMs
  quiet : s.timedOut = false → ∀ e ∈ h, timedOut e = false

variable {c : Context} {s : State} {h : History}

abbrev guardOf (c : Context) : History → Op → Prop :=
  guard c.sha1 c.sha256 c.dateParse c.planJson c.ownershipJson

private theorem accepted_names (hc : Accepted c) :
    c.ownership.instanceName = c.plan.instanceName ∧
      c.ownership.diskName = c.plan.instanceName := by
  have hvalid := hc.valid
  simp only [validateTrialOwnership, bind_eq_ok, pure_eq_ok, Prod.mk.injEq] at hvalid
  obtain ⟨_, -, p, -, r, hr, rfl, rfl⟩ := hvalid
  exact (readOwnership_names (readOwnership_of_validated hr)).2.2

theorem Steady.quietly (hs : Steady c s h) (hrunning : s.timedOut = false) : Quiet h := by
  obtain ⟨times, hclock, hsorted, -⟩ := hs.times
  exact ⟨hs.quiet hrunning, times, hclock, hsorted⟩

/-- The clock says nothing new, and a timeout is noted. -/
theorem Steady.await (hs : Steady c s h) (hrunning : s.timedOut = false) {e : Event Op Answer}
    (hclock : clockAnswer e = none) {late : Bool} (hlate : timedOut e = late) :
    Steady c { s with timedOut := late } (h ++ [e]) := by
  obtain ⟨times, htimes, hsorted, hlast⟩ := hs.times
  refine ⟨?_, ⟨times, ?_, hsorted, hlast⟩, hs.started, hs.within, ?_⟩
  · rw [List.head?_append, hs.begins, Option.some_or]
  · rw [clock, List.filterMap_append, List.filterMap_cons_none hclock, List.filterMap_nil,
      List.append_nil]
    exact htimes
  · intro hquiet e' he'
    rcases List.mem_append.mp he' with he' | he'
    · exact hs.quiet hrunning e' he'
    · rw [List.mem_singleton.mp he', hlate]
      exact hquiet

/-- A check that passes leaves the state steady, with the time it read. -/
theorem guarded_check (hs : Steady c s h) :
    (check c s).Guarded (guardOf c) (fun h' s' ↦ Steady c s' h' ∧ s'.timedOut = false ∧
      s'.attempts = s.attempts ∧ s.lastTime ≤ s'.lastTime ∧
        ∃ answer : Option ℤ, h' = h ++ [⟨.now, answer⟩]) h := by
  refine Guarded.perform_bind trivial fun answer ↦ Guarded.ensure_bind fun hintime ↦ ?_
  obtain ⟨v, rfl, htime⟩ : ∃ v, answer = some v ∧
      (isTime v && decide (s.lastTime ≤ v ∧ v - c.startedAt ≤ c.timeoutMs) && !s.timedOut) =
        true := by
    cases answer with
    | none => exact absurd hintime Bool.false_ne_true
    | some v => exact ⟨v, rfl, hintime⟩
  simp only [Bool.and_eq_true, decide_eq_true_eq, Bool.not_eq_true'] at htime
  obtain ⟨⟨-, hle, hwithin⟩, hrunning⟩ := htime
  obtain ⟨times, htimes, hsorted, hlast⟩ := hs.times
  refine ⟨⟨?_, ⟨times ++ [v], ?_, ?_, ?_⟩, hs.started.trans hle, hwithin, ?_⟩, hrunning, rfl, hle,
    some v, rfl⟩
  · rw [List.head?_append, hs.begins, Option.some_or]
  · rw [clock, List.filterMap_append, List.map_append]
    exact congrArg (· ++ _) htimes
  · rw [List.pairwise_append]
    refine ⟨hsorted, List.pairwise_singleton .., fun a ha b hb ↦ ?_⟩
    rw [List.mem_singleton.mp hb]
    -- the last time is the greatest so far
    obtain ⟨init, rfl⟩ := List.getLast?_eq_some_iff.mp hlast
    rcases List.mem_append.mp ha with ha | ha
    · exact ((List.pairwise_append.mp hsorted).2.2 a ha _ List.mem_cons_self).trans hle
    · rw [List.mem_singleton.mp ha]
      exact hle
  · rw [List.getLast?_append, List.getLast?_singleton, Option.some_or]
    rfl
  · intro _ e he
    rcases List.mem_append.mp he with he | he
    · exact hs.quiet hrunning e he
    · rw [List.mem_singleton.mp he]
      rfl

/-- An awaited call that has not failed answered in time. -/
theorem guarded_settle (hs : Steady c s h) (hrunning : s.timedOut = false) {e : Event Op Answer}
    (hclock : clockAnswer e = none) (answer : Awaited) (hlate : timedOut e = answer.timedOut) :
    (settle c s answer).Guarded (guardOf c) (fun h' r ↦ Steady c r.2 h' ∧ r.2.timedOut = false ∧
      r.2.attempts = s.attempts ∧ s.lastTime ≤ r.2.lastTime ∧ answer = ⟨some r.1, false⟩ ∧
        ∃ later : Option ℤ, h' = h ++ [e, ⟨.now, later⟩]) (h ++ [e]) := by
  have hsteady := hs.await hrunning hclock hlate
  refine Guarded.lift_bind fun value hvalue ↦ Guarded.bind ((guarded_check hsteady).mono ?_)
  rw [orThrow_eq_ok] at hvalue
  rintro h' s' ⟨hs', hrunning', hattempts, hle, later, rfl⟩
  refine ⟨hs', hrunning', hattempts, hle, ?_, later, by rw [List.append_assoc]; rfl⟩
  obtain ⟨answered, late⟩ := answer
  have hnot : late = false := by
    have hlate' : timedOut e = late := hlate
    rw [← hlate']
    refine hs'.quiet hrunning' e ?_
    simp
  exact congrArg₂ Awaited.mk hvalue hnot

/-- What a part of the program adds to the history. -/
def Adds (P : Event Op Answer → Prop) (h h' : History) : Prop :=
  ∃ added, h' = h ++ added ∧ ∀ e ∈ added, P e

theorem Adds.refl (P : Event Op Answer → Prop) (h : History) : Adds P h h :=
  ⟨[], (List.append_nil h).symm, fun _ he ↦ absurd he List.not_mem_nil⟩

theorem Adds.trans {P : Event Op Answer → Prop} {h h' h'' : History} (hfirst : Adds P h h')
    (hsecond : Adds P h' h'') : Adds P h h'' := by
  obtain ⟨first, rfl, hP⟩ := hfirst
  obtain ⟨second, rfl, hP'⟩ := hsecond
  refine ⟨first ++ second, List.append_assoc .., fun e he ↦ ?_⟩
  exact (List.mem_append.mp he).elim (hP e) (hP' e)

theorem Adds.mono {P Q : Event Op Answer → Prop} (himp : ∀ e, P e → Q e) {h h' : History}
    (hadds : Adds P h h') : Adds Q h h' := by
  obtain ⟨added, rfl, hP⟩ := hadds
  exact ⟨added, rfl, fun e he ↦ himp e (hP e he)⟩

/-- Nothing is deleted. -/
abbrev DeletesNothing (e : Event Op Answer) : Prop := deletedUrl e = none

/-- The decision is over the inventory the last call but one has read. -/
def Observed (c : Context) (decision : Decision) (s : State) (h : History) : Prop :=
  ∃ (before : History) (json : JsValue) (later : Option ℤ) (requestedAt : ℤ),
    h = before ++ [⟨.readInventory, (⟨some json, false⟩ : Awaited)⟩, ⟨.now, later⟩] ∧
      before.head? = some ⟨.now, (some c.startedAt : Option ℤ)⟩ ∧ c.startedAt ≤ requestedAt ∧
        decideRead c json requestedAt s.lastTime = .ok decision

theorem guarded_read (hs : Steady c s h) :
    (read c s).Guarded (guardOf c) (fun h' r ↦ Steady c r.2 h' ∧ r.2.timedOut = false ∧
      Observed c r.1 r.2 h' ∧ Adds DeletesNothing h h') h := by
  refine Guarded.bind ((guarded_check hs).mono ?_)
  rintro h₁ requested ⟨hrequested, hrunning, -, hle, first, rfl⟩
  refine Guarded.perform_bind (hrequested.quietly hrunning) fun answer ↦
    Guarded.bind ((guarded_settle hrequested hrunning rfl answer rfl).mono ?_)
  rintro h₂ ⟨json, s'⟩ ⟨hs', hrunning', -, -, rfl, later, rfl⟩
  refine Guarded.lift_bind fun decision hdecision ↦ ⟨hs', hrunning', ?_, ?_⟩
  · rw [rethrow_eq_ok] at hdecision
    exact ⟨_, json, later, requested.lastTime, rfl, hrequested.begins, hrequested.started,
      hdecision⟩
  · exact ⟨_, List.append_assoc .., by simp [DeletesNothing, deletedUrl]⟩

theorem guarded_request (hs : Steady c s h) (method : Method) {url : JsString}
    (hguard : ∀ (h' : History) (s' : State), Steady c s' h' → s'.timedOut = false →
      s.lastTime ≤ s'.lastTime → (∃ answer : Option ℤ, h' = h ++ [⟨.now, answer⟩]) →
        method = .delete →
          MayDelete c.sha1 c.sha256 c.dateParse c.planJson c.ownershipJson h' url) :
    (request c s method url).Guarded (guardOf c) (fun h' r ↦ Steady c r.2 h' ∧
      Adds (fun e ↦ DeletesNothing e ∨ method = .delete ∧ deletedUrl e = some url) h h') h := by
  refine Guarded.bind ((guarded_check hs).mono ?_)
  rintro h₁ s₁ ⟨hs₁, hrunning, -, hle, first, rfl⟩
  refine Guarded.perform_bind ⟨hs₁.quietly hrunning, hguard _ s₁ hs₁ hrunning hle ⟨first, rfl⟩⟩
    fun answer ↦ (guarded_settle hs₁ hrunning rfl answer rfl).mono ?_
  rintro h₂ ⟨value, s'⟩ ⟨hs', -, -, -, -, later, rfl⟩
  refine ⟨hs', _, List.append_assoc .., ?_⟩
  cases method <;> simp [DeletesNothing, deletedUrl]

theorem guarded_poll {kind : Kind} (polls : ℕ) (op : Operation) (hs : Steady c s h) :
    (poll c kind polls op s).Guarded (guardOf c)
      (fun h' s' ↦ Steady c s' h' ∧ Adds DeletesNothing h h') h := by
  induction polls generalizing op s h with
  | zero =>
    rw [poll]
    split_ifs
    · exact ⟨hs, Adds.refl ..⟩
    · trivial
  | succ polls ih =>
    rw [poll]
    split_ifs
    · exact ⟨hs, Adds.refl ..⟩
    · refine Guarded.bind ((guarded_check hs).mono ?_)
      rintro h₁ s₁ ⟨hs₁, hrunning, -, -, first, rfl⟩
      refine Guarded.perform_bind trivial fun answer ↦
        Guarded.bind ((guarded_settle hs₁ hrunning rfl answer rfl).mono ?_)
      rintro h₂ ⟨_, s₂⟩ ⟨hs₂, -, -, -, -, later, rfl⟩
      refine Guarded.bind ((guarded_request hs₂ .get ?_).mono ?_)
      · intro _ _ _ _ _ _ hmethod
        exact absurd hmethod (by decide)
      rintro h₃ ⟨response, s₃⟩ ⟨hs₃, hadds⟩
      refine Guarded.lift_bind fun next _ ↦ (ih next hs₃).mono ?_
      rintro h₄ s₄ ⟨hs₄, hlast⟩
      have hwaited : Adds DeletesNothing h (h ++ [⟨Op.now, first⟩] ++
          [⟨Op.wait, answer⟩, ⟨Op.now, later⟩]) :=
        ⟨_, List.append_assoc .., by simp [DeletesNothing, deletedUrl]⟩
      have hpolled : Adds DeletesNothing _ h₃ :=
        hadds.mono fun e he ↦ he.elim (fun h ↦ h) fun h ↦ absurd h.1 (by decide)
      exact ⟨hs₄, (hwaited.trans hpolled).trans hlast⟩

/-- The state keeps its times when an attempt is noted. -/
theorem Steady.attempts (hs : Steady c s h) (attempts : List Attempt) :
    Steady c { s with attempts := attempts } h :=
  ⟨hs.begins, hs.times, hs.started, hs.within, hs.quiet⟩

/-- What is added when the resource of a kind is deleted. -/
abbrev Deletes (c : Context) (kind : Kind) (e : Event Op Answer) : Prop :=
  DeletesNothing e ∨ deletedUrl e = some (deleteUrl c.sha1 c.ownership kind)

theorem guarded_remove {kind : Kind} (hs : Steady c s h)
    (hguard : ∀ (h' : History) (s' : State), Steady c s' h' → s.lastTime ≤ s'.lastTime →
      (∃ answer : Option ℤ, h' = h ++ [⟨.now, answer⟩]) →
        MayDelete c.sha1 c.sha256 c.dateParse c.planJson c.ownershipJson h'
          (deleteUrl c.sha1 c.ownership kind)) :
    (remove c kind s).Guarded (guardOf c)
      (fun h' s' ↦ Steady c s' h' ∧ Adds (Deletes c kind) h h') h := by
  rw [remove]
  refine Guarded.bind ((guarded_request (hs.attempts _) .delete ?_).mono ?_)
  · intro h' s' hs' _ hle hnow _
    exact hguard h' s' hs' hle hnow
  rintro h₁ ⟨response, s₁⟩ ⟨hs₁, hadds⟩
  have hdeleted : Adds (Deletes c kind) h h₁ :=
    hadds.mono fun e he ↦ he.elim Or.inl fun h ↦ Or.inr h.2
  dsimp only
  split_ifs
  · exact ⟨hs₁.attempts _, hdeleted⟩
  · refine Guarded.lift_bind fun op _ ↦ Guarded.bind ((guarded_poll 5 op hs₁).mono ?_)
    rintro h₂ s₂ ⟨hs₂, hpolled⟩
    exact ⟨hs₂.attempts _, hdeleted.trans (hpolled.mono fun e he ↦ Or.inl he)⟩

/-! ### The decisions -/

/-- What a decision over a read inventory says of the inventory. -/
theorem observed_inventory (hc : Accepted c) {json : JsValue} {requestedAt nowMs : ℤ}
    {decision : Decision} (h : decideRead c json requestedAt nowMs = .ok decision) :
    ∃ inv, validateTrialInventory c.dateParse json nowMs = .ok inv ∧ requestedAt ≤ inv.observedAt ∧
      (decision = decideOver c.plan c.ownership inv nowMs c.reason ∧
        (∀ vm ∈ inv.instances, vm.id ≠ c.ownership.instanceId → ∀ disks, vm.disks = some disks →
          disks.any (hasSource (diskUrl c.ownership.diskName)) = false) ∨
      decision = .blocked .diskAttachedElsewhere none) := by
  simp only [decideRead, bind_eq_ok, pure_eq_ok] at h
  obtain ⟨inv, hinv, _, hrequested, decision', hdecision, rfl⟩ := h
  rw [reject_eq_ok, not_lt] at hrequested
  refine ⟨inv, hinv, hrequested, ?_⟩
  split_ifs with helsewhere
  · exact .inr rfl
  · refine .inl ⟨decideCleanup_eq_ok hc.valid hinv hdecision, fun vm hvm hid disks hdisks ↦ ?_⟩
    rw [← Bool.not_eq_true]
    intro hsource
    apply helsewhere
    refine List.any_eq_true.mpr ⟨vm, hvm, ?_⟩
    rw [hdisks, Option.any_some, hsource, decide_eq_true hid]
    rfl

private theorem not_read_now (answer : Option ℤ) :
    isRead (⟨.now, answer⟩ : Event Op Answer) = false := rfl

/-- A deletion right after a read that allows it. -/
theorem mayDelete_of_observed (hc : Accepted c) {decision : Decision} {kind : Kind}
    (hobserved : Observed c decision s h) (hmay : mayDelete decision kind = true) {s' : State}
    {h' : History} (hs' : Steady c s' h') (hnow : ∃ answer : Option ℤ, h' = h ++ [⟨.now, answer⟩])
    (hfresh : ∀ e ∈ h, deletedUrl e ≠ some (deleteUrl c.sha1 c.ownership kind)) :
    MayDelete c.sha1 c.sha256 c.dateParse c.planJson c.ownershipJson h'
      (deleteUrl c.sha1 c.ownership kind) := by
  obtain ⟨before, json, later, requestedAt, rfl, hbegins, hrequested, hdecision⟩ := hobserved
  obtain ⟨answer, rfl⟩ := hnow
  obtain ⟨inv, hinv, hobservedAt, hcases⟩ := observed_inventory hc hdecision
  have hdecided : decision = .blocked .generationSafeDeleteUnverified (some kind) :=
    of_decide_eq_true hmay
  obtain ⟨hinstance, hdisk⟩ := accepted_names hc
  rcases hcases with ⟨hover, helsewhere⟩ | hblocked
  · obtain ⟨times, htimes, -, hlast⟩ := hs'.times
    refine ⟨c.startedAt, c.plan, c.ownership, kind, hc.valid, rfl, ?_, before, json,
      [⟨.now, later⟩, ⟨.now, answer⟩], s.lastTime, inv, ?_, hbegins, ?_, hinv, ?_, ?_, ?_,
      s'.lastTime, ?_, ?_⟩
    · intro e he
      rcases List.mem_append.mp he with he | he
      · exact hfresh e he
      · rw [List.mem_singleton.mp he]
        exact (Option.some_ne_none _).symm
    · rw [List.append_assoc]
      rfl
    · simp [deletedUrl]
    · exact confirms_of_decideOver hinstance hdisk (hover.symm.trans hdecided)
    · rw [← hdisk]
      exact helsewhere
    · exact hrequested.trans hobservedAt
    · rw [htimes, List.getLast?_map, hlast]
      rfl
    · have hwithin := hs'.within
      have htimeout := hc.timeout
      omega
  · rw [hblocked] at hdecided
    exact absurd hdecided (by simp)

/-- What a run reports of a decision. -/
theorem reports_of_observed (hc : Accepted c) {decision : Decision}
    (hobserved : Observed c decision s h) :
    Reports c.sha256 c.dateParse c.planJson c.ownershipJson h
      (result c s (Decision.status decision)) := by
  intro hstatus
  obtain ⟨before, json, later, requestedAt, rfl, -, -, hdecision⟩ := hobserved
  obtain ⟨inv, hinv, -, hcases⟩ := observed_inventory hc hdecision
  have habsent : decision = .absenceObserved := by
    cases decision with
    | absenceObserved => rfl
    | blocked reason kind => exact absurd hstatus (by simp [result, Decision.status])
    | waiting => exact absurd hstatus (by simp [result, Decision.status])
  rcases hcases with ⟨hover, -⟩ | hblocked
  · obtain ⟨hinstances, hdisks⟩ := absent_of_decideOver (hover.symm.trans habsent)
    refine ⟨c.startedAt, c.plan, c.ownership, before, json, [⟨.now, later⟩], s.lastTime, inv,
      hc.valid, rfl, ?_, hinv, hinstances, hdisks⟩
    intro e he
    rw [List.mem_singleton.mp he]
    exact not_read_now later
  · rw [hblocked] at habsent
    exact absurd habsent (by decide)

/-- The addresses of the two kinds differ. -/
theorem deleteUrl_ne {sha1 : HashFunction 20} {r : Ownership} {kind kind' : Kind}
    (hne : kind ≠ kind') : deleteUrl sha1 r kind ≠ deleteUrl sha1 r kind' := by
  intro heq
  have hcommon : ∀ k : Kind, deleteUrl sha1 r k = (base ++ js "/") ++ (js k.name ++ (js "/" ++
      resourceId r k ++ js "?requestId=" ++ requestId sha1 r.ownershipDigest k)) := by
    intro k
    simp only [deleteUrl, Kind.url, List.append_assoc]
  rw [hcommon, hcommon] at heq
  have hhead := congrArg List.head? (List.append_cancel_left heq)
  have hfirst : ∀ k : Kind, ∃ tail, js k.name =
      (if k = .instances then 0x69 else 0x64) :: tail := by
    intro k
    cases k with
    | instances => exact ⟨(js "instances").tail, by decide⟩
    | disks => exact ⟨(js "disks").tail, by decide⟩
  obtain ⟨tail, htail⟩ := hfirst kind
  obtain ⟨tail', htail'⟩ := hfirst kind'
  rw [htail, htail', List.cons_append, List.cons_append, List.head?_cons, List.head?_cons] at hhead
  apply hne
  cases kind <;> cases kind' <;> first | rfl | exact absurd hhead (by decide)

/-! ### A run -/

/-- The kinds that are left to look at have not been deleted. -/
def Untouched (c : Context) (kinds : List Kind) (h : History) : Prop :=
  ∀ kind ∈ kinds, ∀ e ∈ h, deletedUrl e ≠ some (deleteUrl c.sha1 c.ownership kind)

theorem Untouched.adds {kinds : List Kind} {h h' : History} (hkinds : Untouched c kinds h)
    {P : Event Op Answer → Prop} (hadds : Adds P h h')
    (hP : ∀ kind ∈ kinds, ∀ e, P e → deletedUrl e ≠ some (deleteUrl c.sha1 c.ownership kind)) :
    Untouched c kinds h' := by
  obtain ⟨added, rfl, hadded⟩ := hadds
  intro kind hkind e he
  rcases List.mem_append.mp he with he | he
  · exact hkinds kind hkind e he
  · exact hP kind hkind e (hadded e he)

theorem guarded_visit (hc : Accepted c) {kinds : List Kind} (hnodup : kinds.Nodup)
    {decision : Decision} (hs : Steady c s h) (hobserved : Observed c decision s h)
    (hkinds : Untouched c kinds h) :
    (visit c kinds decision s).Guarded (guardOf c)
      (Reports c.sha256 c.dateParse c.planJson c.ownershipJson) h := by
  induction kinds generalizing decision s h with
  | nil => exact reports_of_observed hc hobserved
  | cons kind kinds ih =>
    obtain ⟨hkind, hrest⟩ := List.nodup_cons.mp hnodup
    have huntouched : Untouched c kinds h := fun k hk ↦ hkinds k (List.mem_cons_of_mem kind hk)
    rw [visit]
    by_cases hunverified : isUnverified decision = false
    · rw [if_pos hunverified]
      exact reports_of_observed hc hobserved
    rw [if_neg hunverified]
    by_cases hmay : mayDelete decision kind = true
    · rw [if_pos hmay]
      refine Guarded.bind ((guarded_remove hs ?_).mono ?_)
      · intro h' s' hs' _ hnow
        exact mayDelete_of_observed hc hobserved hmay hs' hnow (hkinds kind List.mem_cons_self)
      rintro h₁ s₁ ⟨hs₁, hdeleted⟩
      refine Guarded.bind ((guarded_read hs₁).mono ?_)
      rintro h₂ ⟨decision', s₂⟩ ⟨hs₂, -, hobserved', hadds⟩
      dsimp only
      split_ifs
      · exact fun hstatus ↦ absurd hstatus (by simp [result])
      · refine ih hrest hs₂ hobserved' ((huntouched.adds hdeleted ?_).adds hadds ?_)
        · -- only the address of this kind was deleted
          rintro k hk e (he | he)
          · rw [he]
            exact (Option.some_ne_none _).symm
          · rw [he]
            intro heq
            exact deleteUrl_ne (fun hsame : kind = k ↦ hkind (hsame ▸ hk)) (Option.some.inj heq)
        · intro k _ e he
          rw [show deletedUrl e = none from he]
          exact (Option.some_ne_none _).symm
    · rw [if_neg hmay]
      exact ih hrest hs hobserved huntouched

theorem guarded_rehearse (hc : Accepted c) (hpositive : 1 ≤ c.timeoutMs) :
    (rehearse c).Guarded (guardOf c) (Reports c.sha256 c.dateParse c.planJson c.ownershipJson)
      [⟨.now, (some c.startedAt : Option ℤ)⟩] := by
  refine Guarded.recover ?_ ?_
  · have hs : Steady c ⟨c.startedAt, false, []⟩ [⟨.now, (some c.startedAt : Option ℤ)⟩] := by
      refine ⟨rfl, ⟨[c.startedAt], rfl, List.pairwise_singleton .., rfl⟩, le_rfl, ?_, ?_⟩
      · show c.startedAt - c.startedAt ≤ c.timeoutMs
        omega
      · intro _ e he
        rw [List.mem_singleton.mp he]
        rfl
    refine Guarded.bind ((guarded_read hs).mono ?_)
    rintro h' ⟨decision, s'⟩ ⟨hs', -, hobserved, hadds⟩
    refine guarded_visit hc (by decide) hs' hobserved (Untouched.adds ?_ hadds ?_)
    · intro kind _ e he
      rw [List.mem_singleton.mp he]
      exact (Option.some_ne_none _).symm
    · intro kind _ e he
      rw [show deletedUrl e = none from he]
      exact (Option.some_ne_none _).symm
  · intro h' stop _
    cases stop with
    | refused => trivial
    | incomplete s' => exact fun hstatus ↦ absurd hstatus (by simp [result])

/-- Whatever the clock, the transport and the inventory reader answer, the rehearsal deletes only
what the last inventory confirms as its own, asks for nothing once the timeout fired or the clock
went back, and reports absence only where the last inventory shows it. -/
theorem rehearsal_deletes_only_owned (sha1 : HashFunction 20) (sha256 : HashFunction 32)
    (dateParse : DateParser) (planJson ownershipJson : JsValue) (reason : String)
    (timeoutMs : ℤ) :
    (rehearseTrialCleanup sha1 sha256 dateParse planJson ownershipJson reason timeoutMs).Guarded
      (guard sha1 sha256 dateParse planJson ownershipJson)
      (Reports sha256 dateParse planJson ownershipJson) [] := by
  refine Guarded.ensure_bind fun hargs ↦ Guarded.perform_bind trivial
    fun value ↦ Guarded.lift_bind fun startedAt hstarted ↦ Guarded.lift_bind ?_
  rintro ⟨plan, ownership⟩ hvalid
  have hvalue : value = some startedAt := orThrow_eq_ok.mp hstarted
  rw [rethrow_eq_ok] at hvalid
  subst hvalue
  exact guarded_rehearse (c := ⟨sha1, sha256, dateParse, planJson, ownershipJson, reason, timeoutMs,
    plan, ownership, startedAt⟩) ⟨hargs.2.1, hvalid⟩ hargs.1

end ApiMigrator.Ops.CleanupSafety
