import Mathlib.Logic.Function.Basic
import Mathlib.Logic.Relation

/-!
Programs that act on shared state one atomic operation at a time, and what holds of any number of
them in any interleaving. A program is a tree of operations with the answers as branches. A
discipline names an invariant of the shared state and a preorder along which the state may move.
A program meets its discipline when each of its own operations keeps both, however the others have
moved the state since its last one; a pool of such programs then keeps them in every reachable
configuration.
-/

set_option autoImplicit false
set_option relaxedAutoImplicit false

namespace Foundation.Interaction

/-- A program over the atomic operations `Op`, each answered in `Res op`. It ends with a value or
with an error. -/
inductive Prog (Op : Type) (Res : Op → Type) (ε α : Type)
  | done (outcome : Except ε α)
  | call (op : Op) (next : Res op → Prog Op Res ε α)

/-- An operation a program performed, with the answer it got. -/
abbrev Event (Op : Type) (Res : Op → Type) := Σ op : Op, Res op

section Programs

variable {Op : Type} {Res : Op → Type} {ε α β : Type}

namespace Prog

def bind : Prog Op Res ε α → (α → Prog Op Res ε β) → Prog Op Res ε β
  | .done (.ok a), f => f a
  | .done (.error e), _ => .done (.error e)
  | .call op next, f => .call op fun r ↦ (next r).bind f

/-- Runs `handler` when the program ends with an error. What the program did before stays done. -/
def recover : Prog Op Res ε α → (ε → Prog Op Res ε α) → Prog Op Res ε α
  | .done (.ok a), _ => .done (.ok a)
  | .done (.error e), handler => handler e
  | .call op next, handler => .call op fun r ↦ (next r).recover handler

instance : Monad (Prog Op Res ε) where
  pure a := .done (.ok a)
  bind := Prog.bind

instance : MonadExceptOf ε (Prog Op Res ε) where
  throw e := .done (.error e)
  tryCatch := Prog.recover

/-- One operation, returning its answer. -/
def perform (op : Op) : Prog Op Res ε (Res op) := .call op fun r ↦ .done (.ok r)

/-- A computation that touches no shared state. -/
def lift (outcome : Except ε α) : Prog Op Res ε α := .done outcome

/-- Ends with the error unless the condition holds. -/
def ensure (condition : Prop) [Decidable condition] (e : ε) : Prog Op Res ε Unit :=
  if condition then pure () else throw e

@[simp] theorem bind_done_error (e : ε) (f : α → Prog Op Res ε β) :
    (Prog.done (.error e) >>= f) = .done (.error e) := rfl

@[simp] theorem bind_call (op : Op) (next : Res op → Prog Op Res ε α)
    (f : α → Prog Op Res ε β) :
    (Prog.call op next >>= f) = .call op fun r ↦ next r >>= f := rfl

@[simp] theorem throw_eq_done (e : ε) : (throw e : Prog Op Res ε α) = .done (.error e) := rfl

theorem bind_pure (p : Prog Op Res ε α) : p >>= pure = p := by
  induction p with
  | done outcome => cases outcome <;> rfl
  | call op next ih => exact congrArg (Prog.call op) (funext ih)

/-- Whatever the answers are, every operation the program performs is allowed, and what it returns
is as `returns` says. -/
def Only (allowed : Op → Prop) (returns : α → Prop) : Prog Op Res ε α → Prop
  | .done (.ok a) => returns a
  | .done (.error _) => True
  | .call op next => allowed op ∧ ∀ answer, (next answer).Only allowed returns

variable {allowed : Op → Prop} {returns : α → Prop}

theorem Only.mono {returns' : α → Prop} (himp : ∀ a, returns a → returns' a)
    {p : Prog Op Res ε α} (hp : p.Only allowed returns) : p.Only allowed returns' := by
  induction p with
  | done outcome =>
    cases outcome with
    | ok a => exact himp a hp
    | error e => trivial
  | call op next ih => exact ⟨hp.1, fun answer ↦ ih answer (hp.2 answer)⟩

theorem Only.allow {allowed' : Op → Prop} (himp : ∀ op, allowed op → allowed' op)
    {p : Prog Op Res ε α} (hp : p.Only allowed returns) : p.Only allowed' returns := by
  induction p with
  | done outcome => cases outcome <;> exact hp
  | call op next ih => exact ⟨himp op hp.1, fun answer ↦ ih answer (hp.2 answer)⟩

theorem Only.bind {returns' : β → Prop} {p : Prog Op Res ε α} {f : α → Prog Op Res ε β}
    (hp : p.Only allowed returns) (hf : ∀ a, returns a → (f a).Only allowed returns') :
    (p >>= f).Only allowed returns' := by
  induction p with
  | done outcome =>
    cases outcome with
    | ok a => exact hf a hp
    | error e => trivial
  | call op next ih => exact ⟨hp.1, fun answer ↦ ih answer (hp.2 answer)⟩

theorem Only.recover {p : Prog Op Res ε α} {handler : ε → Prog Op Res ε α}
    (hp : p.Only allowed returns) (hhandler : ∀ e, (handler e).Only allowed returns) :
    (p.recover handler).Only allowed returns := by
  induction p with
  | done outcome =>
    cases outcome with
    | ok a => exact hp
    | error e => exact hhandler e
  | call op next ih => exact ⟨hp.1, fun answer ↦ ih answer (hp.2 answer)⟩

theorem Only.lift {outcome : Except ε α} (hreturns : ∀ a, outcome = .ok a → returns a) :
    (Prog.lift outcome : Prog Op Res ε α).Only allowed returns := by
  cases outcome with
  | ok a => exact hreturns a rfl
  | error e => trivial

theorem Only.ensure {condition : Prop} [Decidable condition] {e : ε} {returns : Unit → Prop}
    (hreturns : condition → returns ()) :
    (Prog.ensure condition e : Prog Op Res ε Unit).Only allowed returns := by
  by_cases hcondition : condition
  · rw [Prog.ensure, if_pos hcondition]
    exact hreturns hcondition
  · rw [Prog.ensure, if_neg hcondition]
    trivial

theorem Only.lift_bind {returns' : β → Prop} {outcome : Except ε α}
    {f : α → Prog Op Res ε β} (hf : ∀ a, outcome = .ok a → (f a).Only allowed returns') :
    (Prog.lift outcome >>= f).Only allowed returns' :=
  Only.bind (.lift fun _ h ↦ h) hf

theorem Only.ensure_bind {returns' : β → Prop} {condition : Prop} [Decidable condition] {e : ε}
    {f : Unit → Prog Op Res ε β} (hf : condition → (f ()).Only allowed returns') :
    (Prog.ensure condition e >>= f).Only allowed returns' := by
  have hensure : (Prog.ensure condition e : Prog Op Res ε Unit).Only allowed fun _ ↦ condition :=
    .ensure fun h ↦ h
  exact hensure.bind fun _ ↦ hf

/-- Where every operation is allowed, every program is. -/
theorem Only.of_forall (hallowed : ∀ op, allowed op) (p : Prog Op Res ε α) :
    p.Only allowed fun _ ↦ True := by
  induction p with
  | done outcome => cases outcome <;> trivial
  | call op next ih => exact ⟨hallowed op, ih⟩

/-- Whatever the answers are, a program that returns has done and returned what `returns` says. -/
def Returns (returns : List (Event Op Res) → α → Prop) :
    Prog Op Res ε α → List (Event Op Res) → Prop
  | .done (.ok a), history => returns history a
  | .done (.error _), _ => True
  | .call op next, history => ∀ answer, Returns returns (next answer) (history ++ [⟨op, answer⟩])

section Returns

variable {returns : List (Event Op Res) → α → Prop} {returns' : List (Event Op Res) → β → Prop}
  {history : List (Event Op Res)}

theorem Returns.mono {returns'' : List (Event Op Res) → α → Prop}
    (himp : ∀ h a, returns h a → returns'' h a) {p : Prog Op Res ε α}
    (hp : p.Returns returns history) : p.Returns returns'' history := by
  induction p generalizing history with
  | done outcome =>
    cases outcome with
    | ok a => exact himp _ a hp
    | error e => trivial
  | call op next ih => exact fun answer ↦ ih answer (hp answer)

theorem Returns.bind {p : Prog Op Res ε α} {f : α → Prog Op Res ε β}
    (hp : p.Returns (fun h a ↦ (f a).Returns returns' h) history) :
    (p >>= f).Returns returns' history := by
  induction p generalizing history with
  | done outcome =>
    cases outcome with
    | ok a => exact hp
    | error e => trivial
  | call op next ih => exact fun answer ↦ ih answer (hp answer)

/-- Nothing is known of the first program. -/
theorem Returns.skip {p : Prog Op Res ε α} {f : α → Prog Op Res ε β}
    (hf : ∀ h a, (f a).Returns returns' h) : (p >>= f).Returns returns' history := by
  induction p generalizing history with
  | done outcome =>
    cases outcome with
    | ok a => exact hf history a
    | error e => trivial
  | call op next ih => exact fun answer ↦ ih answer

/-- Whatever is thrown, an error is thrown in its place. -/
theorem Returns.recover {p : Prog Op Res ε α} (handler : ε → ε)
    (hp : p.Returns returns history) :
    (p.recover fun e ↦ throw (handler e)).Returns returns history := by
  induction p generalizing history with
  | done outcome =>
    cases outcome with
    | ok a => exact hp
    | error e => trivial
  | call op next ih => exact fun answer ↦ ih answer (hp answer)

theorem Returns.lift {outcome : Except ε α} (ha : ∀ a, outcome = .ok a → returns history a) :
    (Prog.lift outcome : Prog Op Res ε α).Returns returns history := by
  cases outcome with
  | ok a => exact ha a rfl
  | error e => trivial

theorem Returns.lift_bind {outcome : Except ε α} {f : α → Prog Op Res ε β}
    (hf : ∀ a, outcome = .ok a → (f a).Returns returns' history) :
    (Prog.lift outcome >>= f).Returns returns' history :=
  Returns.bind (.lift hf)

theorem Returns.ensure {condition : Prop} [Decidable condition] {e : ε}
    {returns : List (Event Op Res) → Unit → Prop} (hf : condition → returns history ()) :
    (Prog.ensure condition e : Prog Op Res ε Unit).Returns returns history := by
  by_cases hcondition : condition
  · rw [Prog.ensure, if_pos hcondition]
    exact hf hcondition
  · rw [Prog.ensure, if_neg hcondition]
    trivial

theorem Returns.ensure_bind {condition : Prop} [Decidable condition] {e : ε}
    {f : Unit → Prog Op Res ε β} (hf : condition → (f ()).Returns returns' history) :
    (Prog.ensure condition e >>= f).Returns returns' history :=
  Returns.bind (.ensure hf)

end Returns

end Prog

end Programs

/-- What the shared state may do: an invariant it keeps, and a preorder it moves along. -/
structure Discipline (σ : Type) where
  inv : σ → Prop
  rel : σ → σ → Prop
  rel_refl : ∀ s, rel s s
  rel_trans : ∀ {a b c}, rel a b → rel b c → rel a c

section Conduct

variable {Op : Type} {Res : Op → Type} {ε α β σ ι : Type}
  (step : σ → ι → (op : Op) → Res op → σ → Prop) (D : Discipline σ) (i : ι)

/-- A predicate on how a program ends: its history, its outcome, and the state at that moment. -/
abbrev Post (Op : Type) (Res : Op → Type) (ε α σ : Type) :=
  List (Event Op Res) → Except ε α → σ → Prop

/-- The program of caller `i`, having done `history` and having last seen the state `s`, keeps the
discipline at each operation and ends as `post` says. Before each operation the state may have
moved on. -/
def Meets (post : Post Op Res ε α σ) :
    Prog Op Res ε α → List (Event Op Res) → σ → Prop
  | .done outcome, history, s => post history outcome s
  | .call op next, history, s =>
    ∀ now, D.rel s now → D.inv now → ∀ answer after, step now i op answer after →
      D.inv after ∧ D.rel now after ∧
        Meets post (next answer) (history ++ [⟨op, answer⟩]) after

variable {step D i}

@[simp] theorem meets_done {post : Post Op Res ε α σ} {outcome : Except ε α}
    {history : List (Event Op Res)} {s : σ} :
    Meets step D i post (.done outcome) history s ↔ post history outcome s := Iff.rfl

theorem Meets.mono {post post' : Post Op Res ε α σ}
    (himp : ∀ history outcome s, post history outcome s → post' history outcome s)
    {p : Prog Op Res ε α} {history : List (Event Op Res)} {s : σ}
    (hp : Meets step D i post p history s) : Meets step D i post' p history s := by
  induction p generalizing history s with
  | done outcome => exact himp _ _ _ hp
  | call op next ih =>
    intro now hrel hinv answer after hstep
    obtain ⟨hinv', hrel', hnext⟩ := hp now hrel hinv answer after hstep
    exact ⟨hinv', hrel', ih answer hnext⟩

/-- The continuation starts from whatever the first program established. -/
theorem Meets.bind {post : Post Op Res ε β σ} {p : Prog Op Res ε α}
    {f : α → Prog Op Res ε β} {history : List (Event Op Res)} {s : σ}
    (hp : Meets step D i (fun h outcome s' ↦
      match outcome with
      | .ok a => Meets step D i post (f a) h s'
      | .error e => post h (.error e) s') p history s) :
    Meets step D i post (p >>= f) history s := by
  induction p generalizing history s with
  | done outcome =>
    cases outcome with
    | ok a => exact hp
    | error e => exact hp
  | call op next ih =>
    intro now hrel hinv answer after hstep
    obtain ⟨hinv', hrel', hnext⟩ := hp now hrel hinv answer after hstep
    exact ⟨hinv', hrel', ih answer hnext⟩

theorem Meets.recover {post : Post Op Res ε α σ} {p : Prog Op Res ε α}
    {handler : ε → Prog Op Res ε α} {history : List (Event Op Res)} {s : σ}
    (hp : Meets step D i (fun h outcome s' ↦
      match outcome with
      | .ok a => post h (.ok a) s'
      | .error e => Meets step D i post (handler e) h s') p history s) :
    Meets step D i post (p.recover handler) history s := by
  induction p generalizing history s with
  | done outcome =>
    cases outcome with
    | ok a => exact hp
    | error e => exact hp
  | call op next ih =>
    intro now hrel hinv answer after hstep
    obtain ⟨hinv', hrel', hnext⟩ := hp now hrel hinv answer after hstep
    exact ⟨hinv', hrel', ih answer hnext⟩

/-- A postcondition that survives every move the discipline allows. -/
def Stable (D : Discipline σ) (post : Post Op Res ε α σ) : Prop :=
  ∀ history outcome s s', D.rel s s' → post history outcome s → post history outcome s'

/-- Others may move the state before the program goes on. -/
theorem Meets.rely {post : Post Op Res ε α σ} (hstable : Stable D post)
    {p : Prog Op Res ε α} {history : List (Event Op Res)} {s s' : σ} (hrel : D.rel s s')
    (hp : Meets step D i post p history s) : Meets step D i post p history s' := by
  cases p with
  | done outcome => exact hstable _ _ _ _ hrel hp
  | call op next => exact fun now hnow ↦ hp now (D.rel_trans hrel hnow)

/-- A fact about history and state that others keep true and every step of the program carries on
still holds where the program ends. -/
theorem Meets.keeping {post : Post Op Res ε α σ} {J : List (Event Op Res) → σ → Prop}
    (hrely : ∀ history s s', D.rel s s' → J history s → J history s')
    (hown : ∀ history now op answer after, D.inv now → step now i op answer after →
      J history now → J (history ++ [⟨op, answer⟩]) after)
    {p : Prog Op Res ε α} {history : List (Event Op Res)} {s : σ} (hJ : J history s)
    (hp : Meets step D i post p history s) :
    Meets step D i (fun h outcome s' ↦ post h outcome s' ∧ J h s') p history s := by
  induction p generalizing history s with
  | done outcome => exact ⟨hp, hJ⟩
  | call op next ih =>
    intro now hrel hinv answer after hstep
    obtain ⟨hinv', hrel', hnext⟩ := hp now hrel hinv answer after hstep
    exact ⟨hinv', hrel', ih answer (hown _ _ _ _ _ hinv hstep (hrely _ _ _ hrel hJ)) hnext⟩

/-- What holds of a program whatever the answers are holds of it here. -/
theorem Meets.returning {post : Post Op Res ε α σ} {returns : List (Event Op Res) → α → Prop}
    {p : Prog Op Res ε α} {history : List (Event Op Res)} {s : σ}
    (hreturns : p.Returns returns history) (hp : Meets step D i post p history s) :
    Meets step D i (fun h outcome s' ↦ post h outcome s' ∧ ∀ a, outcome = .ok a → returns h a)
      p history s := by
  induction p generalizing history s with
  | done outcome =>
    refine ⟨hp, fun a ha ↦ ?_⟩
    subst ha
    exact hreturns
  | call op next ih =>
    intro now hrel hinv answer after hstep
    obtain ⟨hinv', hrel', hnext⟩ := hp now hrel hinv answer after hstep
    exact ⟨hinv', hrel', ih answer (hreturns answer) hnext⟩

/-- An operation that keeps the discipline, whoever performs it and whatever it answers. -/
def Discipline.Keeps (D : Discipline σ) (step : σ → ι → (op : Op) → Res op → σ → Prop)
    (op : Op) : Prop :=
  ∀ now i answer after, D.inv now → step now i op answer after → D.inv after ∧ D.rel now after

/-- The steps that keep the discipline. -/
def Discipline.restrict (D : Discipline σ) (step : σ → ι → (op : Op) → Res op → σ → Prop) (now : σ)
    (i : ι) (op : Op) (answer : Res op) (after : σ) : Prop :=
  step now i op answer after ∧ D.inv after ∧ D.rel now after

theorem Meets.restrict {post : Post Op Res ε α σ} {p : Prog Op Res ε α}
    {history : List (Event Op Res)} {s : σ} (hp : Meets step D i post p history s) :
    Meets (D.restrict step) D i post p history s := by
  induction p generalizing history s with
  | done outcome => exact hp
  | call op next ih =>
    intro now hrel hinv answer after hstep
    exact ⟨hstep.2.1, hstep.2.2, ih answer (hp now hrel hinv answer after hstep.1).2.2⟩

/-- For a program whose every operation keeps the discipline it is enough to look at such steps. -/
theorem Meets.of_restrict {post : Post Op Res ε α σ} {returns : α → Prop} {p : Prog Op Res ε α}
    {history : List (Event Op Res)} {s : σ} (hkeeps : p.Only (D.Keeps step) returns)
    (hp : Meets (D.restrict step) D i post p history s) : Meets step D i post p history s := by
  induction p generalizing history s with
  | done outcome => exact hp
  | call op next ih =>
    intro now hrel hinv answer after hstep
    have hafter := hkeeps.1 now i answer after hinv hstep
    have hnext := (hp now hrel hinv answer after ⟨hstep, hafter⟩).2.2
    exact ⟨hafter.1, hafter.2, ih answer (hkeeps.2 answer) hnext⟩

/-- A program of such operations moves the state along the discipline and extends its history. -/
theorem Meets.of_only {returns : α → Prop} {p : Prog Op Res ε α}
    (hp : p.Only (D.Keeps step) returns) (history : List (Event Op Res)) (s : σ) :
    Meets step D i (fun h outcome s' ↦ D.rel s s' ∧ history <+: h ∧
      ∀ a, outcome = .ok a → returns a) p history s := by
  suffices h : ∀ h s', D.rel s s' → history <+: h → Meets step D i (fun h outcome s' ↦
      D.rel s s' ∧ history <+: h ∧ ∀ a, outcome = .ok a → returns a) p h s' from
    h history s (D.rel_refl s) (List.prefix_refl history)
  induction p with
  | done outcome =>
    intro h s' hrel hstarts
    refine ⟨hrel, hstarts, fun a ha ↦ ?_⟩
    subst ha
    exact hp
  | call op next ih =>
    intro h s' hrel hstarts now hnow hinv answer after hstep
    obtain ⟨hinv', hrel'⟩ := hp.1 now i answer after hinv hstep
    exact ⟨hinv', hrel', ih answer (hp.2 answer) _ after
      (D.rel_trans (D.rel_trans hrel hnow) hrel') (hstarts.trans (List.prefix_append _ _))⟩

end Conduct

section Attempts

variable {Op : Type} {Val : Op → Type} {ε α β σ ι : Type}

/-- One operation that answers with a value or throws. -/
def Prog.attempt (op : Op) : Prog Op (fun op ↦ Except ε (Val op)) ε (Val op) := .call op .done

theorem Prog.Returns.attempt {op : Op}
    {returns : List (Event Op fun op ↦ Except ε (Val op)) → Val op → Prop}
    {history : List (Event Op fun op ↦ Except ε (Val op))}
    (ha : ∀ a, returns (history ++ [⟨op, .ok a⟩]) a) :
    (Prog.attempt op : Prog Op (fun op ↦ Except ε (Val op)) ε (Val op)).Returns returns
      history := by
  intro answer
  cases answer with
  | ok a => exact ha a
  | error e => trivial

variable {step : σ → ι → (op : Op) → Except ε (Val op) → σ → Prop} {D : Discipline σ} {i : ι}

/-- Every operation of every caller keeps the discipline, whatever program it belongs to. -/
def Discipline.Sound (D : Discipline σ)
    (step : σ → ι → (op : Op) → Except ε (Val op) → σ → Prop) : Prop :=
  ∀ now i op answer after, D.inv now → step now i op answer after →
    D.inv after ∧ D.rel now after

theorem Discipline.Sound.keeps (hsound : D.Sound step) (op : Op) : D.Keeps step op :=
  fun now i ↦ hsound now i op

/-- To meet a postcondition that every failure satisfies it is enough to go on from each value the
operation can return. -/
theorem Meets.attempt_bind {post : Post Op (fun op ↦ Except ε (Val op)) ε β σ} {op : Op}
    (hkeeps : D.Keeps step op)
    {f : Val op → Prog Op (fun op ↦ Except ε (Val op)) ε β}
    {history : List (Event Op fun op ↦ Except ε (Val op))} {s : σ}
    (herror : ∀ now e after, D.rel s now → D.inv now → step now i op (.error e) after →
      post (history ++ [⟨op, .error e⟩]) (.error e) after)
    (hok : ∀ now a after, D.rel s now → D.inv now → D.inv after → D.rel now after →
      step now i op (.ok a) after →
      Meets step D i post (f a) (history ++ [⟨op, .ok a⟩]) after) :
    Meets step D i post (Prog.attempt op >>= f) history s := by
  intro now hrel hinv answer after hstep
  obtain ⟨hinv', hrel'⟩ := hkeeps now i answer after hinv hstep
  refine ⟨hinv', hrel', ?_⟩
  cases answer with
  | error e => exact herror now e after hrel hinv hstep
  | ok a => exact hok now a after hrel hinv hinv' hrel' hstep

/-- Whatever a program does moves the state along the discipline. -/
theorem Meets.moves (hsound : D.Sound step)
    (p : Prog Op (fun op ↦ Except ε (Val op)) ε α)
    (history : List (Event Op fun op ↦ Except ε (Val op))) (s : σ) :
    Meets step D i (fun _ _ s' ↦ D.rel s s') p history s :=
  (Meets.of_only (.of_forall hsound.keeps p) history s).mono fun _ _ _ h ↦ h.1

/-- A program whose result is not looked at only moves the state. -/
theorem Meets.bind_of_moves {post : Post Op (fun op ↦ Except ε (Val op)) ε β σ}
    (hsound : D.Sound step) {p : Prog Op (fun op ↦ Except ε (Val op)) ε α}
    {f : α → Prog Op (fun op ↦ Except ε (Val op)) ε β}
    {history : List (Event Op fun op ↦ Except ε (Val op))} {s : σ}
    (herror : ∀ history e s', D.rel s s' → post history (.error e) s')
    (hok : ∀ history a s', D.rel s s' → Meets step D i post (f a) history s') :
    Meets step D i post (p >>= f) history s := by
  refine Meets.bind ((Meets.moves hsound p history s).mono fun history outcome s' hrel ↦ ?_)
  cases outcome with
  | ok a => exact hok history a s' hrel
  | error e => exact herror history e s' hrel

end Attempts

section Pools

variable {Op : Type} {Res : Op → Type} {ε α σ ι : Type}

/-- A call in progress: what it has done, and what it has left to do. -/
structure Thread (Op : Type) (Res : Op → Type) (ε α : Type) where
  history : List (Event Op Res)
  rest : Prog Op Res ε α

/-- The shared state together with every call. -/
structure Config (Op : Type) (Res : Op → Type) (ε α σ ι : Type) where
  state : σ
  thread : ι → Thread Op Res ε α

/-- The calls at their beginning. -/
def Config.start (s : σ) (program : ι → Prog Op Res ε α) : Config Op Res ε α σ ι :=
  ⟨s, fun i ↦ ⟨[], program i⟩⟩

variable [DecidableEq ι] (step : σ → ι → (op : Op) → Res op → σ → Prop)

/-- One call performs its next operation; every other call stays where it is. -/
inductive Config.Step : Config Op Res ε α σ ι → Config Op Res ε α σ ι → Prop
  | perform (c : Config Op Res ε α σ ι) (i : ι) (op : Op)
      (next : Res op → Prog Op Res ε α) (answer : Res op) (after : σ)
      (hrest : (c.thread i).rest = .call op next) (hstep : step c.state i op answer after) :
      Config.Step c ⟨after, Function.update c.thread i
        ⟨(c.thread i).history ++ [⟨op, answer⟩], next answer⟩⟩

/-- Any number of steps, in any order of the calls. -/
abbrev Config.Run : Config Op Res ε α σ ι → Config Op Res ε α σ ι → Prop :=
  Relation.ReflTransGen (Config.Step step)

/-- Every call meets its own postcondition from a state it may have seen last. -/
structure Config.Orderly (D : Discipline σ) (post : ι → Post Op Res ε α σ)
    (c : Config Op Res ε α σ ι) : Prop where
  inv : D.inv c.state
  meets : ∀ i, ∃ seen, D.rel seen c.state ∧
    Meets step D i (post i) (c.thread i).rest (c.thread i).history seen

variable {step}

omit [DecidableEq ι] in
theorem Config.orderly_start {D : Discipline σ} {post : ι → Post Op Res ε α σ} {s : σ}
    {program : ι → Prog Op Res ε α} (hinv : D.inv s)
    (hmeets : ∀ i, Meets step D i (post i) (program i) [] s) :
    Config.Orderly step D post (Config.start s program) :=
  ⟨hinv, fun i ↦ ⟨s, D.rel_refl s, hmeets i⟩⟩

/-- One step of one call keeps the pool orderly and moves the state along the discipline. -/
theorem Config.Step.orderly {D : Discipline σ} {post : ι → Post Op Res ε α σ}
    {c c' : Config Op Res ε α σ ι} (hstep : Config.Step step c c')
    (hc : Config.Orderly step D post c) :
    Config.Orderly step D post c' ∧ D.rel c.state c'.state := by
  cases hstep with
  | perform i op next answer after hrest hop =>
    obtain ⟨seen, hseen, hmeets⟩ := hc.meets i
    rw [hrest] at hmeets
    obtain ⟨hinv, hrel, hnext⟩ := hmeets c.state hseen hc.inv answer after hop
    refine ⟨⟨hinv, fun j ↦ ?_⟩, hrel⟩
    by_cases hj : j = i
    · subst hj
      refine ⟨after, D.rel_refl after, ?_⟩
      simpa only [Function.update_self] using hnext
    · obtain ⟨seenj, hseenj, hmeetsj⟩ := hc.meets j
      refine ⟨seenj, D.rel_trans hseenj hrel, ?_⟩
      simpa only [Function.update_of_ne hj] using hmeetsj

/-- Along any run the pool stays orderly and the state moves along the discipline. -/
theorem Config.Run.orderly {D : Discipline σ} {post : ι → Post Op Res ε α σ}
    {c c' : Config Op Res ε α σ ι} (hrun : Config.Run step c c')
    (hc : Config.Orderly step D post c) :
    Config.Orderly step D post c' ∧ D.rel c.state c'.state := by
  induction hrun with
  | refl => exact ⟨hc, D.rel_refl _⟩
  | tail _ hlast ih =>
    obtain ⟨hmid, hrel⟩ := ih
    obtain ⟨hend, hrel'⟩ := hlast.orderly hmid
    exact ⟨hend, D.rel_trans hrel hrel'⟩

/-- What the start satisfies and every step keeps holds along any run. -/
theorem Config.Run.invariant {J : Config Op Res ε α σ ι → Prop}
    (hkeeps : ∀ c c', Config.Step step c c' → J c → J c') {c c' : Config Op Res ε α σ ι}
    (hrun : Config.Run step c c') (hc : J c) : J c' := by
  induction hrun with
  | refl => exact hc
  | tail _ hlast ih => exact hkeeps _ _ hlast ih

/-- What the operations of a call are, they are in what it has left to do. -/
theorem Config.Run.only {allowed : Op → Prop} {i : ι}
    {c c' : Config Op Res ε α σ ι} (hrun : Config.Run step c c')
    (hc : (c.thread i).rest.Only allowed fun _ ↦ True) :
    (c'.thread i).rest.Only allowed fun _ ↦ True := by
  refine Config.Run.invariant (J := fun c ↦ (c.thread i).rest.Only allowed fun _ ↦ True) ?_ hrun hc
  rintro c c' ⟨j, op, next, answer, after, hrest, -⟩ hc
  by_cases hj : i = j
  · subst hj
    rw [hrest] at hc
    simpa only [Function.update_self] using hc.2 answer
  · simpa only [Function.update_of_ne hj] using hc

omit [DecidableEq ι] in
/-- A call that has ended did so as its postcondition says, in a state the run has passed. -/
theorem Config.Orderly.ended {D : Discipline σ} {post : ι → Post Op Res ε α σ}
    {c : Config Op Res ε α σ ι} (hc : Config.Orderly step D post c) {i : ι}
    {outcome : Except ε α} (hdone : (c.thread i).rest = .done outcome) :
    ∃ seen, D.rel seen c.state ∧ post i (c.thread i).history outcome seen := by
  obtain ⟨seen, hseen, hmeets⟩ := hc.meets i
  rw [hdone] at hmeets
  exact ⟨seen, hseen, hmeets⟩

/-- Lets the calls of a schedule perform one operation each, in turn, as `answers` has it. -/
def Config.play (answers : σ → ι → (op : Op) → Res op × σ) :
    List ι → Config Op Res ε α σ ι → Config Op Res ε α σ ι
  | [], c => c
  | i :: schedule, c =>
    match (c.thread i).rest with
    | .done _ => Config.play answers schedule c
    | .call op next => Config.play answers schedule
        ⟨(answers c.state i op).2, Function.update c.thread i
          ⟨(c.thread i).history ++ [⟨op, (answers c.state i op).1⟩],
            next (answers c.state i op).1⟩⟩

/-- A schedule played with answers the steps admit is a run. -/
theorem Config.run_play {answers : σ → ι → (op : Op) → Res op × σ}
    (hanswers : ∀ s i op, step s i op (answers s i op).1 (answers s i op).2)
    (schedule : List ι) (c : Config Op Res ε α σ ι) :
    Config.Run step c (c.play answers schedule) := by
  induction schedule generalizing c with
  | nil => exact .refl
  | cons i schedule ih =>
    rw [Config.play]
    split
    · exact ih c
    · rename_i op next hrest
      exact .head (.perform c i op next _ _ hrest (hanswers c.state i op)) (ih _)

end Pools

end Foundation.Interaction
