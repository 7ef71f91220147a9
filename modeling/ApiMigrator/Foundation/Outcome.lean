import Mathlib.Data.List.Forall2

/-!
Computations that return a value or throw. `Except` is the monad; this module says when a
composed computation returns, so that a validator's acceptance unfolds into the conjunction of its
checks.
-/

set_option autoImplicit false
set_option relaxedAutoImplicit false

namespace Foundation.Outcome

universe u

variable {ε : Type} {α β : Type}

/-- Throws when the condition holds. -/
def reject (condition : Prop) [Decidable condition] (e : ε) : Except ε Unit :=
  if condition then .error e else .ok ()

@[simp]
theorem reject_eq_ok {condition : Prop} [Decidable condition] {e : ε} {u : Unit} :
    reject condition e = .ok u ↔ ¬ condition := by
  unfold reject
  split_ifs with h <;> simp [h]

@[simp]
theorem bind_eq_ok {x : Except ε α} {f : α → Except ε β} {b : β} :
    x >>= f = .ok b ↔ ∃ a, x = .ok a ∧ f a = .ok b := by
  cases x with
  | error e => simp [bind, Except.bind]
  | ok a => simp [bind, Except.bind]

@[simp]
theorem pure_eq_ok {a b : α} : (pure a : Except ε α) = .ok b ↔ a = b := by
  simp [pure, Except.pure]

@[simp]
theorem throw_eq_ok {e : ε} {a : α} : (throw e : Except ε α) = .ok a ↔ False := by
  simp [throw, throwThe, MonadExceptOf.throw]

@[simp]
theorem map_eq_ok {x : Except ε α} {f : α → β} {b : β} :
    f <$> x = .ok b ↔ ∃ a, x = .ok a ∧ f a = b := by
  cases x with
  | error e => simp [Functor.map, Except.map]
  | ok a => simp [Functor.map, Except.map]

/-- What a check that returned has returned. -/
@[simp]
theorem exists_unit {p : Unit → Prop} : (∃ u, p u) ↔ p () :=
  ⟨fun ⟨_, h⟩ ↦ h, fun h ↦ ⟨(), h⟩⟩

theorem ok_bind (a : α) (f : α → Except ε β) : (Except.ok a >>= f) = f a := rfl

/-- Replaces whatever was thrown. -/
def relabel (x : Except ε α) (e : ε) : Except ε α :=
  match x with
  | .ok a => .ok a
  | .error _ => .error e

@[simp]
theorem relabel_eq_ok {x : Except ε α} {e : ε} {a : α} : relabel x e = .ok a ↔ x = .ok a := by
  cases x <;> simp [relabel]

/-- Throws one error, of another kind, for whatever was thrown. -/
def rethrow {ε' : Type} (x : Except ε α) (e : ε') : Except ε' α :=
  match x with
  | .ok a => .ok a
  | .error _ => .error e

@[simp]
theorem rethrow_eq_ok {ε' : Type} {x : Except ε α} {e : ε'} {a : α} :
    rethrow x e = .ok a ↔ x = .ok a := by
  cases x <;> simp [rethrow]

/-- The values of an option, or an error where there is none. -/
def orThrow (x : Option α) (e : ε) : Except ε α :=
  match x with
  | some a => .ok a
  | none => .error e

@[simp]
theorem orThrow_eq_ok {x : Option α} {e : ε} {a : α} : orThrow x e = .ok a ↔ x = some a := by
  cases x <;> simp [orThrow]

/-! ### How a computation throws -/

@[simp]
theorem bind_eq_error {x : Except ε α} {f : α → Except ε β} {e : ε} :
    x >>= f = .error e ↔ x = .error e ∨ ∃ a, x = .ok a ∧ f a = .error e := by
  cases x with
  | error e' => simp [bind, Except.bind]
  | ok a => simp [bind, Except.bind]

@[simp]
theorem pure_eq_error {a : α} {e : ε} : (pure a : Except ε α) = .error e ↔ False := by
  simp [pure, Except.pure]

@[simp]
theorem throw_eq_error {e e' : ε} : (throw e : Except ε α) = .error e' ↔ e' = e := by
  simp [throw, throwThe, MonadExceptOf.throw, eq_comm]

@[simp]
theorem reject_eq_error {condition : Prop} [Decidable condition] {e e' : ε} :
    reject condition e = .error e' ↔ condition ∧ e' = e := by
  unfold reject
  split_ifs with h <;> simp [h, eq_comm]

@[simp]
theorem rethrow_eq_error {ε' : Type} {x : Except ε α} {e e' : ε'} :
    rethrow x e = .error e' ↔ (∃ thrown, x = .error thrown) ∧ e' = e := by
  cases x <;> simp [rethrow, eq_comm]

@[simp]
theorem orThrow_eq_error {x : Option α} {e e' : ε} :
    orThrow x e = .error e' ↔ x = none ∧ e' = e := by
  cases x <;> simp [orThrow, eq_comm]

/-- Runs a check on every element, in order. -/
def forEach (check : α → Except ε Unit) : List α → Except ε Unit
  | [] => .ok ()
  | x :: xs => do
    check x
    forEach check xs

@[simp]
theorem forEach_eq_ok {check : α → Except ε Unit} {xs : List α} {u : Unit} :
    forEach check xs = .ok u ↔ ∀ x ∈ xs, check x = .ok () := by
  induction xs with
  | nil => simp [forEach]
  | cons x xs ih =>
    rw [forEach, bind_eq_ok, List.forall_mem_cons, exists_unit, ih]

/-- Runs a computation on every element, in order. -/
def mapEach (f : α → Except ε β) : List α → Except ε (List β)
  | [] => .ok []
  | x :: xs => do
    let y ← f x
    let ys ← mapEach f xs
    return y :: ys

theorem mapEach_eq_ok {f : α → Except ε β} {xs : List α} {ys : List β} :
    mapEach f xs = .ok ys ↔ List.Forall₂ (fun x y ↦ f x = .ok y) xs ys := by
  induction xs generalizing ys with
  | nil => simp [mapEach, eq_comm]
  | cons x xs ih =>
    simp only [mapEach, bind_eq_ok, pure_eq_ok, ih, List.forall₂_cons_left_iff]
    constructor
    · rintro ⟨y, hy, rest, hrest, rfl⟩
      exact ⟨y, rest, hy, hrest, rfl⟩
    · rintro ⟨y, rest, hy, hrest, rfl⟩
      exact ⟨y, hy, rest, hrest, rfl⟩

theorem exists_of_mapEach {f : α → Except ε β} {xs : List α} {ys : List β}
    (h : mapEach f xs = .ok ys) {y : β} (hy : y ∈ ys) : ∃ x ∈ xs, f x = .ok y := by
  rw [mapEach_eq_ok] at h
  induction h with
  | nil => cases hy
  | @cons x z xs zs hx _ ih =>
    obtain rfl | hy := List.mem_cons.mp hy
    · exact ⟨x, List.mem_cons_self, hx⟩
    · obtain ⟨x', hx', hy'⟩ := ih hy
      exact ⟨x', List.mem_cons_of_mem x hx', hy'⟩

end Foundation.Outcome
