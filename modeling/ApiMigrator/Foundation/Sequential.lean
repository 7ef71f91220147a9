import ApiMigrator.Foundation.Interaction

/-!
One program that runs to its end: each of its operations finds the state as the last one left it.
What holds however the operations are answered is found by going through the program backwards, one
rule for each way of composing programs.
-/

set_option autoImplicit false
set_option relaxedAutoImplicit false

namespace Foundation.Interaction

section Programs

variable {Op : Type} {Res : Op → Type} {ε ε' α β σ : Type}

namespace Prog

/-- `try` and `catch` in one: the outcome becomes a value. -/
def outcome : Prog Op Res ε α → Prog Op Res ε' (Except ε α)
  | .done result => .done (.ok result)
  | .call op next => .call op fun answer ↦ (next answer).outcome

/-- One execution from a state to an outcome and the state it leaves. -/
inductive Ends (step : σ → (op : Op) → Res op → σ → Prop) :
    Prog Op Res ε α → σ → Except ε α → σ → Prop
  | done (result : Except ε α) (s : σ) : Ends step (.done result) s result s
  | call {op : Op} {next : Res op → Prog Op Res ε α} {s after last : σ} {answer : Res op}
      {result : Except ε α} (hstep : step s op answer after)
      (hrest : Ends step (next answer) after result last) : Ends step (.call op next) s result last

/-- The execution in which `perform` answers. -/
def run (perform : σ → (op : Op) → Res op × σ) : Prog Op Res ε α → σ → Except ε α × σ
  | .done result, s => (result, s)
  | .call op next, s => (next (perform s op).1).run perform (perform s op).2

/-- Every execution from a state ends as `post` says. -/
def Ensures (step : σ → (op : Op) → Res op → σ → Prop) (post : Except ε α → σ → Prop) :
    Prog Op Res ε α → σ → Prop
  | .done result, s => post result s
  | .call op next, s => ∀ answer after, step s op answer after →
      Ensures step post (next answer) after

variable {step : σ → (op : Op) → Res op → σ → Prop} {post : Except ε α → σ → Prop} {s : σ}

theorem run_ends {perform : σ → (op : Op) → Res op × σ}
    (hperform : ∀ s op, step s op (perform s op).1 (perform s op).2) (p : Prog Op Res ε α) (s : σ) :
    p.Ends step s (p.run perform s).1 (p.run perform s).2 := by
  induction p generalizing s with
  | done result => exact .done result s
  | call op next ih => exact .call (hperform s op) (ih _ _)

theorem Ensures.ends {p : Prog Op Res ε α} (hp : p.Ensures step post s) {result : Except ε α}
    {last : σ} (hends : p.Ends step s result last) : post result last := by
  induction hends with
  | done result s => exact hp
  | call hstep hrest ih => exact ih (hp _ _ hstep)

/-- What every step keeps is kept by an execution. -/
theorem Ends.preserves {kept : σ → Prop} (hkept : ∀ s op answer after, step s op answer after →
    kept s → kept after) {p : Prog Op Res ε α} {result : Except ε α} {last : σ}
    (hends : p.Ends step s result last) (hs : kept s) : kept last := by
  induction hends with
  | done result s => exact hs
  | call hstep hrest ih => exact ih (hkept _ _ _ _ hstep hs)

theorem Ensures.mono {post' : Except ε α → σ → Prop} (himp : ∀ result s, post result s →
    post' result s) {p : Prog Op Res ε α} (hp : p.Ensures step post s) :
    p.Ensures step post' s := by
  induction p generalizing s with
  | done result => exact himp _ _ hp
  | call op next ih => exact fun answer after hstep ↦ ih answer (hp answer after hstep)

/-- What a computation does to its outcome: the continuation of a value, or the error itself. -/
def followed (post : Except ε β → σ → Prop) (run : α → σ → Prop) : Except ε α → σ → Prop
  | .ok a, s => run a s
  | .error e, s => post (.error e) s

theorem Ensures.bind {post : Except ε β → σ → Prop} {p : Prog Op Res ε α}
    {f : α → Prog Op Res ε β}
    (hp : p.Ensures step (followed post fun a s ↦ (f a).Ensures step post s) s) :
    (p >>= f).Ensures step post s := by
  induction p generalizing s with
  | done result =>
    cases result with
    | ok a => exact hp
    | error e => exact hp
  | call op next ih => exact fun answer after hstep ↦ ih answer (hp answer after hstep)

/-- The errors of the first program are as they must be, and the second goes on from its values. -/
theorem Ensures.bind_of {post : Except ε β → σ → Prop} {middle : Except ε α → σ → Prop}
    {p : Prog Op Res ε α} {f : α → Prog Op Res ε β} (hp : p.Ensures step middle s)
    (herror : ∀ e s, middle (.error e) s → post (.error e) s)
    (hok : ∀ a s, middle (.ok a) s → (f a).Ensures step post s) :
    (p >>= f).Ensures step post s := by
  refine Ensures.bind (hp.mono fun result s' hresult ↦ ?_)
  cases result with
  | ok a => exact hok a s' hresult
  | error e => exact herror e s' hresult

/-- What a handler makes of an outcome. -/
def caught (post : Except ε α → σ → Prop) (handle : ε → σ → Prop) : Except ε α → σ → Prop
  | .ok a, s => post (.ok a) s
  | .error e, s => handle e s

theorem Ensures.recover {p : Prog Op Res ε α} {handler : ε → Prog Op Res ε α}
    (hp : p.Ensures step (caught post fun e s ↦ (handler e).Ensures step post s) s) :
    (p.recover handler).Ensures step post s := by
  induction p generalizing s with
  | done result =>
    cases result with
    | ok a => exact hp
    | error e => exact hp
  | call op next ih => exact fun answer after hstep ↦ ih answer (hp answer after hstep)

theorem Ensures.outcome {post : Except ε' (Except ε α) → σ → Prop} {p : Prog Op Res ε α}
    (hp : p.Ensures step (fun result s ↦ post (.ok result) s) s) :
    (p.outcome : Prog Op Res ε' (Except ε α)).Ensures step post s := by
  induction p generalizing s with
  | done result => exact hp
  | call op next ih => exact fun answer after hstep ↦ ih answer (hp answer after hstep)

/-- A caught program ends without an error of its own. -/
theorem Ensures.outcome_bind {post : Except ε' β → σ → Prop} {p : Prog Op Res ε α}
    {f : Except ε α → Prog Op Res ε' β}
    (hp : p.Ensures step (fun result s ↦ (f result).Ensures step post s) s) :
    (p.outcome >>= f).Ensures step post s :=
  Ensures.bind (Ensures.outcome hp)

end Prog

end Programs

section Attempts

variable {Op : Type} {Val : Op → Type} {ε α β σ : Type}
  {step : σ → (op : Op) → Except String (Val op) → σ → Prop}

/-- One operation, whose failure is thrown as `fail` has it. -/
def Prog.attemptAs (fail : String → ε) (op : Op) :
    Prog Op (fun op ↦ Except String (Val op)) ε (Val op) :=
  .call op fun answer ↦ .done (answer.mapError fail)

/-- To go on from an operation it is enough to look at what it may answer. -/
theorem Prog.Ensures.attempt_bind {post : Except ε β → σ → Prop} {fail : String → ε} {op : Op}
    {f : Val op → Prog Op (fun op ↦ Except String (Val op)) ε β} {s : σ}
    (herror : ∀ e s', step s op (.error e) s' → post (.error (fail e)) s')
    (hok : ∀ a s', step s op (.ok a) s' → (f a).Ensures step post s') :
    (Prog.attemptAs fail op >>= f).Ensures step post s := by
  intro answer s' hstep
  cases answer with
  | ok a => exact hok a s' hstep
  | error e => exact herror e s' hstep

theorem Prog.Ensures.attempt {fail : String → ε} {op : Op} {post : Except ε (Val op) → σ → Prop}
    {s : σ} (herror : ∀ e s', step s op (.error e) s' → post (.error (fail e)) s')
    (hok : ∀ a s', step s op (.ok a) s' → post (.ok a) s') :
    (Prog.attemptAs fail op : Prog Op (fun op ↦ Except String (Val op)) ε (Val op)).Ensures step
      post s := by
  intro answer s' hstep
  cases answer with
  | ok a => exact hok a s' hstep
  | error e => exact herror e s' hstep

end Attempts

end Foundation.Interaction
