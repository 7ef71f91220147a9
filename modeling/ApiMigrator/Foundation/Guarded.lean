import ApiMigrator.Foundation.Interaction

/-!
What the programs of a pool have done before each of their operations. A guard names, for an
operation, what the history of its own program must show; a program is guarded when that holds
whatever the answers are, and then it holds of every thread of every run. Invariants of a run may
rely on the guard of each step.
-/

set_option autoImplicit false
set_option relaxedAutoImplicit false

namespace Foundation.Interaction

section Programs

variable {Op : Type} {Res : Op → Type} {ε α β : Type}

namespace Prog

/-- Whatever the answers are: each operation is performed after a history the guard admits, and
what is returned is as `returns` says. -/
def Guarded (guard : List (Event Op Res) → Op → Prop) (returns : List (Event Op Res) → α → Prop) :
    Prog Op Res ε α → List (Event Op Res) → Prop
  | .done (.ok a), history => returns history a
  | .done (.error _), _ => True
  | .call op next, history =>
    guard history op ∧ ∀ answer, Guarded guard returns (next answer) (history ++ [⟨op, answer⟩])

variable {guard : List (Event Op Res) → Op → Prop} {returns : List (Event Op Res) → α → Prop}
  {returns' : List (Event Op Res) → β → Prop} {history : List (Event Op Res)}

theorem Guarded.mono {returns'' : List (Event Op Res) → α → Prop}
    (himp : ∀ h a, returns h a → returns'' h a) {p : Prog Op Res ε α}
    (hp : p.Guarded guard returns history) : p.Guarded guard returns'' history := by
  induction p generalizing history with
  | done outcome =>
    cases outcome with
    | ok a => exact himp _ a hp
    | error e => trivial
  | call op next ih => exact ⟨hp.1, fun answer ↦ ih answer (hp.2 answer)⟩

theorem Guarded.bind {p : Prog Op Res ε α} {f : α → Prog Op Res ε β}
    (hp : p.Guarded guard (fun h a ↦ (f a).Guarded guard returns' h) history) :
    (p >>= f).Guarded guard returns' history := by
  induction p generalizing history with
  | done outcome =>
    cases outcome with
    | ok a => exact hp
    | error e => trivial
  | call op next ih => exact ⟨hp.1, fun answer ↦ ih answer (hp.2 answer)⟩

theorem Guarded.recover {p : Prog Op Res ε α} {handler : ε → Prog Op Res ε α}
    (hp : p.Guarded guard returns history)
    (hhandler : ∀ h e, history <+: h → (handler e).Guarded guard returns h) :
    (p.recover handler).Guarded guard returns history := by
  induction p generalizing history with
  | done outcome =>
    cases outcome with
    | ok a => exact hp
    | error e => exact hhandler history e (List.prefix_refl history)
  | call op next ih =>
    exact ⟨hp.1, fun answer ↦ ih answer (hp.2 answer) fun h e hstarts ↦
      hhandler h e ((List.prefix_append _ _).trans hstarts)⟩

/-- A program only adds to its history. -/
theorem Guarded.extends {p : Prog Op Res ε α} (hp : p.Guarded guard returns history) :
    p.Guarded guard (fun h a ↦ history <+: h ∧ returns h a) history := by
  suffices hfrom : ∀ h, history <+: h → p.Guarded guard returns h →
      p.Guarded guard (fun h a ↦ history <+: h ∧ returns h a) h from
    hfrom history (List.prefix_refl history) hp
  clear hp
  induction p with
  | done outcome =>
    intro h hstarts hp
    cases outcome with
    | ok a => exact ⟨hstarts, hp⟩
    | error e => trivial
  | call op next ih =>
    intro h hstarts hp
    exact ⟨hp.1, fun answer ↦ ih answer _ (hstarts.trans (List.prefix_append _ _)) (hp.2 answer)⟩

/-- The continuation starts from a longer history. -/
theorem Guarded.bind_extends {p : Prog Op Res ε α} {f : α → Prog Op Res ε β}
    (hp : p.Guarded guard returns history)
    (hf : ∀ h a, history <+: h → returns h a → (f a).Guarded guard returns' h) :
    (p >>= f).Guarded guard returns' history :=
  Guarded.bind (hp.extends.mono fun h a hreturns ↦ hf h a hreturns.1 hreturns.2)

theorem Guarded.perform_bind {op : Op} {f : Res op → Prog Op Res ε β} (hguard : guard history op)
    (hf : ∀ answer, (f answer).Guarded guard returns' (history ++ [⟨op, answer⟩])) :
    (perform op >>= f).Guarded guard returns' history :=
  ⟨hguard, hf⟩

theorem Guarded.lift_bind {outcome : Except ε α} {f : α → Prog Op Res ε β}
    (hf : ∀ a, outcome = .ok a → (f a).Guarded guard returns' history) :
    (Prog.lift outcome >>= f).Guarded guard returns' history := by
  cases outcome with
  | ok a => exact hf a rfl
  | error e => trivial

theorem Guarded.ensure_bind {condition : Prop} [Decidable condition] {e : ε}
    {f : Unit → Prog Op Res ε β} (hf : condition → (f ()).Guarded guard returns' history) :
    (Prog.ensure condition e >>= f).Guarded guard returns' history := by
  by_cases hcondition : condition
  · rw [Prog.ensure, if_pos hcondition]
    exact hf hcondition
  · rw [Prog.ensure, if_neg hcondition]
    trivial

end Prog

end Programs

section Attempts

variable {Op : Type} {Val : Op → Type} {ε β : Type}
  {guard : List (Event Op fun op ↦ Except ε (Val op)) → Op → Prop}
  {history : List (Event Op fun op ↦ Except ε (Val op))}

theorem Prog.Guarded.attempt {op : Op}
    {returns : List (Event Op fun op ↦ Except ε (Val op)) → Val op → Prop}
    (hguard : guard history op) (ha : ∀ a, returns (history ++ [⟨op, .ok a⟩]) a) :
    (Prog.attempt op : Prog Op (fun op ↦ Except ε (Val op)) ε (Val op)).Guarded guard returns
      history := by
  refine ⟨hguard, fun answer ↦ ?_⟩
  cases answer with
  | ok a => exact ha a
  | error e => trivial

theorem Prog.Guarded.attempt_bind {op : Op}
    {returns : List (Event Op fun op ↦ Except ε (Val op)) → β → Prop}
    {f : Val op → Prog Op (fun op ↦ Except ε (Val op)) ε β} (hguard : guard history op)
    (hf : ∀ a, (f a).Guarded guard returns (history ++ [⟨op, .ok a⟩])) :
    (Prog.attempt op >>= f).Guarded guard returns history :=
  Prog.Guarded.bind (.attempt hguard hf)

end Attempts

section Pools

variable {Op : Type} {Res : Op → Type} {ε α σ ι : Type} [DecidableEq ι]
  {step : σ → ι → (op : Op) → Res op → σ → Prop}
  {guard : List (Event Op Res) → Op → Prop} {returns : List (Event Op Res) → α → Prop}

/-- Every thread is guarded. -/
def Config.Guarded (guard : List (Event Op Res) → Op → Prop)
    (returns : List (Event Op Res) → α → Prop) (c : Config Op Res ε α σ ι) : Prop :=
  ∀ i, (c.thread i).rest.Guarded guard returns (c.thread i).history

theorem Config.Step.guarded {c c' : Config Op Res ε α σ ι} (hstep : Config.Step step c c')
    (hc : c.Guarded guard returns) : c'.Guarded guard returns := by
  cases hstep with
  | perform i op next answer after hrest hop =>
    intro j
    by_cases hj : j = i
    · subst hj
      have hguarded := hc j
      rw [hrest] at hguarded
      simpa only [Function.update_self] using hguarded.2 answer
    · simpa only [Function.update_of_ne hj] using hc j

theorem Config.Run.guarded {c c' : Config Op Res ε α σ ι} (hrun : Config.Run step c c')
    (hc : c.Guarded guard returns) : c'.Guarded guard returns :=
  Config.Run.invariant (fun _ _ hstep hc ↦ hstep.guarded hc) hrun hc

/-- What every guarded step keeps holds along any run of guarded programs. -/
theorem Config.Run.guarded_invariant {J : Config Op Res ε α σ ι → Prop}
    (hkeeps : ∀ (c : Config Op Res ε α σ ι) i op answer after (rest : Prog Op Res ε α),
      step c.state i op answer after → guard (c.thread i).history op → J c →
      J ⟨after, Function.update c.thread i ⟨(c.thread i).history ++ [⟨op, answer⟩], rest⟩⟩)
    {c c' : Config Op Res ε α σ ι} (hrun : Config.Run step c c') (hguarded : c.Guarded guard returns)
    (hc : J c) : J c' := by
  induction hrun with
  | refl => exact hc
  | tail hfirst hlast ih =>
    have hmid := Config.Run.guarded hfirst hguarded
    cases hlast with
    | perform i op next answer after hrest hop =>
      have hguard := hmid i
      rw [hrest] at hguard
      exact hkeeps _ i op answer after (next answer) hop hguard.1 ih

omit [DecidableEq ι] in
theorem Config.guarded_start {s : σ} {program : ι → Prog Op Res ε α}
    (hprogram : ∀ i, (program i).Guarded guard returns []) :
    (Config.start s program).Guarded guard returns :=
  hprogram

omit [DecidableEq ι] in
/-- A call that has returned did so as it must. -/
theorem Config.Guarded.returned {c : Config Op Res ε α σ ι} (hc : c.Guarded guard returns) {i : ι}
    {a : α} (hdone : (c.thread i).rest = .done (.ok a)) : returns (c.thread i).history a := by
  have hi := hc i
  rw [hdone] at hi
  exact hi

theorem mem_history_update {c : Config Op Res ε α σ ι} {i j : ι}
    {event e : Event Op Res} {rest : Prog Op Res ε α}
    (he : e ∈ (Function.update c.thread i ⟨(c.thread i).history ++ [event], rest⟩ j).history) :
    e ∈ (c.thread j).history ∨ j = i ∧ e = event := by
  by_cases hj : j = i
  · subst hj
    simp only [Function.update_self, List.mem_append, List.mem_singleton] at he
    exact he.imp id fun he ↦ ⟨rfl, he⟩
  · simp only [Function.update_of_ne hj] at he
    exact Or.inl he

theorem prefix_history_update (c : Config Op Res ε α σ ι) (i j : ι) (event : Event Op Res)
    (rest : Prog Op Res ε α) :
    (c.thread j).history <+:
      (Function.update c.thread i ⟨(c.thread i).history ++ [event], rest⟩ j).history := by
  by_cases hj : j = i
  · subst hj
    simp only [Function.update_self]
    exact List.prefix_append _ _
  · simp only [Function.update_of_ne hj]
    exact List.prefix_refl _

/-- Every operation performed in a run was admitted, by a guard that longer histories keep. -/
theorem Config.Run.performed (hmono : ∀ h h' op, h <+: h' → guard h op → guard h' op)
    {c c' : Config Op Res ε α σ ι} (hrun : Config.Run step c c') (hguarded : c.Guarded guard returns)
    (hc : ∀ i, ∀ e ∈ (c.thread i).history, guard (c.thread i).history e.1) :
    ∀ i, ∀ e ∈ (c'.thread i).history, guard (c'.thread i).history e.1 := by
  refine Config.Run.guarded_invariant (J := fun c : Config Op Res ε α σ ι ↦
    ∀ i, ∀ e ∈ (c.thread i).history, guard (c.thread i).history e.1) ?_ hrun hguarded hc
  intro c i op answer after rest _ hguard hc j e he
  refine hmono _ _ _ (prefix_history_update c i j _ rest) ?_
  rcases mem_history_update he with he | ⟨rfl, rfl⟩
  · exact hc j e he
  · exact hguard

/-- The histories of a run only grow. -/
theorem Config.Run.history_prefix {c c' : Config Op Res ε α σ ι} (hrun : Config.Run step c c')
    (i : ι) : (c.thread i).history <+: (c'.thread i).history := by
  induction hrun with
  | refl => exact List.prefix_refl _
  | tail _ hlast ih =>
    cases hlast with
    | perform j op next answer after hrest hop =>
      exact ih.trans (prefix_history_update _ j i _ (next answer))

/-- A call that a schedule leaves out stays where it is. -/
theorem Config.thread_play {answers : σ → ι → (op : Op) → Res op × σ} {schedule : List ι} {i : ι}
    (hi : i ∉ schedule) (c : Config Op Res ε α σ ι) :
    (c.play answers schedule).thread i = c.thread i := by
  induction schedule generalizing c with
  | nil => rfl
  | cons j schedule ih =>
    obtain ⟨hij, hi⟩ := List.ne_and_not_mem_of_not_mem_cons hi
    rw [Config.play]
    split
    · exact ih hi c
    · rw [ih hi]
      exact Function.update_of_ne hij _ _

end Pools

end Foundation.Interaction
