import Mathlib.Algebra.BigOperators.Fin
import Mathlib.Algebra.Order.BigOperators.Group.Finset
import Mathlib.Data.Set.Card
import Mathlib.Logic.Relation

/-!
Workers that take the items of a list off one cursor, in any order of their steps. To whoever looks
at the items alone, each of them is begun once and ended once, by itself.
-/

set_option autoImplicit false
set_option relaxedAutoImplicit false

namespace Foundation.WorkerPool

/-- How an item is processed: its beginning and its end each find the world as the others have left
it, and either may throw. -/
structure Processing (σ τ ρ : Type) where
  begins : ℕ → σ → Option τ → σ → Prop
  ends : ℕ → τ → σ → Option ρ → σ → Prop
  others : σ → σ → Prop

section Pools

variable {σ τ ρ : Type} (P : Processing σ τ ρ) (n : ℕ) {k : ℕ}

/-! ### Items -/

inductive Slot (τ ρ : Type)
  | waiting
  | active (token : τ)
  | done (result : ρ)
  | lost

structure Jobs (σ τ ρ : Type) where
  slot : ℕ → Slot τ ρ
  world : σ

/-- Each item goes its own way. -/
inductive JobStep (jobs : Jobs σ τ ρ) : Jobs σ τ ρ → Prop
  | begins (i : ℕ) (token : τ) (world : σ) (hi : i < n) (hwaiting : jobs.slot i = .waiting)
      (hbegins : P.begins i jobs.world (some token) world) :
    JobStep jobs ⟨Function.update jobs.slot i (.active token), world⟩
  | refuses (i : ℕ) (world : σ) (hi : i < n) (hwaiting : jobs.slot i = .waiting)
      (hbegins : P.begins i jobs.world none world) :
    JobStep jobs ⟨Function.update jobs.slot i .lost, world⟩
  | ends (i : ℕ) (token : τ) (result : ρ) (world : σ) (hactive : jobs.slot i = .active token)
      (hends : P.ends i token jobs.world (some result) world) :
    JobStep jobs ⟨Function.update jobs.slot i (.done result), world⟩
  | breaks (i : ℕ) (token : τ) (world : σ) (hactive : jobs.slot i = .active token)
      (hends : P.ends i token jobs.world none world) :
    JobStep jobs ⟨Function.update jobs.slot i .lost, world⟩
  | others (world : σ) (hothers : P.others jobs.world world) : JobStep jobs ⟨jobs.slot, world⟩

def Jobs.initial (world : σ) : Jobs σ τ ρ := ⟨fun _ ↦ .waiting, world⟩

/-! ### Workers -/

inductive Worker (τ : Type)
  | ready
  | working (i : ℕ) (token : τ)
  | stopped
  | failed (i : ℕ)

structure Pool (k : ℕ) (σ τ ρ : Type) where
  cursor : ℕ
  worker : Fin k → Worker τ
  result : ℕ → Option ρ
  world : σ

def Pool.initial (k : ℕ) (world : σ) : Pool k σ τ ρ := ⟨0, fun _ ↦ .ready, fun _ ↦ none, world⟩

/-- A worker that is ready takes the item under the cursor, or stops behind the last. -/
inductive PoolStep (pool : Pool k σ τ ρ) : Pool k σ τ ρ → Prop
  | stops (w : Fin k) (hready : pool.worker w = .ready) (hcursor : n ≤ pool.cursor) :
    PoolStep pool { pool with
      cursor := pool.cursor + 1
      worker := Function.update pool.worker w .stopped }
  | begins (w : Fin k) (token : τ) (world : σ) (hready : pool.worker w = .ready)
      (hcursor : pool.cursor < n) (hbegins : P.begins pool.cursor pool.world (some token) world) :
    PoolStep pool { pool with
      cursor := pool.cursor + 1
      worker := Function.update pool.worker w (.working pool.cursor token)
      world := world }
  | refuses (w : Fin k) (world : σ) (hready : pool.worker w = .ready)
      (hcursor : pool.cursor < n) (hbegins : P.begins pool.cursor pool.world none world) :
    PoolStep pool { pool with
      cursor := pool.cursor + 1
      worker := Function.update pool.worker w (.failed pool.cursor)
      world := world }
  | ends (w : Fin k) (i : ℕ) (token : τ) (result : ρ) (world : σ)
      (hworking : pool.worker w = .working i token)
      (hends : P.ends i token pool.world (some result) world) :
    PoolStep pool { pool with
      worker := Function.update pool.worker w .ready
      result := Function.update pool.result i (some result)
      world := world }
  | breaks (w : Fin k) (i : ℕ) (token : τ) (world : σ)
      (hworking : pool.worker w = .working i token)
      (hends : P.ends i token pool.world none world) :
    PoolStep pool { pool with
      worker := Function.update pool.worker w (.failed i)
      world := world }

/-- The steps of the workers, counted, and those of everybody else. -/
inductive Runs (start : Pool k σ τ ρ) : ℕ → Pool k σ τ ρ → Prop
  | none : Runs start 0 start
  | own {m : ℕ} {pool pool' : Pool k σ τ ρ} (hruns : Runs start m pool)
      (hstep : PoolStep P n pool pool') : Runs start (m + 1) pool'
  | others {m : ℕ} {pool : Pool k σ τ ρ} {world : σ} (hruns : Runs start m pool)
      (hothers : P.others pool.world world) : Runs start m { pool with world := world }

/-! ### The items of a pool -/

/-- What the workers do, item by item. -/
structure Views (pool : Pool k σ τ ρ) (jobs : Jobs σ τ ρ) : Prop where
  world : jobs.world = pool.world
  waiting : ∀ i, jobs.slot i = .waiting ↔ ¬ (i < pool.cursor ∧ i < n)
  active : ∀ i token, jobs.slot i = .active token ↔ ∃ w, pool.worker w = .working i token
  done : ∀ i result, jobs.slot i = .done result ↔ pool.result i = some result
  lost : ∀ i, jobs.slot i = .lost ↔ ∃ w, pool.worker w = .failed i
  alone : ∀ w w' i token token', pool.worker w = .working i token →
    pool.worker w' = .working i token' → w = w'
  stopped : ∀ w, pool.worker w = .stopped → n ≤ pool.cursor

variable {P n} {pool pool' : Pool k σ τ ρ} {jobs : Jobs σ τ ρ}

theorem views_initial (world : σ) :
    Views n (Pool.initial k world : Pool k σ τ ρ) (Jobs.initial world) := by
  constructor <;> simp [Pool.initial, Jobs.initial]

/-- A step of a worker is a step of one item, or of none. -/
theorem Views.step (hviews : Views n pool jobs) (hstep : PoolStep P n pool pool') :
    ∃ jobs', Views n pool' jobs' ∧ Relation.ReflGen (JobStep P n) jobs jobs' := by
  obtain ⟨hworld, hwaiting, hactive, hdone, hlost, halone, hstopped⟩ := hviews
  cases hstep with
  | stops w hready hcursor =>
    refine ⟨jobs, ⟨hworld, ?_, ?_, hdone, ?_, ?_, ?_⟩, .refl⟩ <;>
      simp only [Function.update_apply] <;> grind
  | begins w token world hready hcursor hbegins =>
    have hslot : jobs.slot pool.cursor = .waiting := by
      rw [hwaiting]
      omega
    have hfree : ∀ v token, pool.worker v ≠ .working pool.cursor token := by
      intro v token hv
      exact nomatch hslot.symm.trans ((hactive _ token).mpr ⟨v, hv⟩)
    refine ⟨_, ⟨rfl, ?_, ?_, ?_, ?_, ?_, ?_⟩,
      .single (.begins pool.cursor token world hcursor hslot (hworld ▸ hbegins))⟩ <;>
      simp only [Function.update_apply] <;> grind
  | refuses w world hready hcursor hbegins =>
    have hslot : jobs.slot pool.cursor = .waiting := by
      rw [hwaiting]
      omega
    refine ⟨_, ⟨rfl, ?_, ?_, ?_, ?_, ?_, ?_⟩,
      .single (.refuses pool.cursor world hcursor hslot (hworld ▸ hbegins))⟩ <;>
      simp only [Function.update_apply] <;> grind
  | ends w i token result world hworking hends =>
    have hslot : jobs.slot i = .active token := (hactive i token).mpr ⟨w, hworking⟩
    refine ⟨_, ⟨rfl, ?_, ?_, ?_, ?_, ?_, ?_⟩,
      .single (.ends i token result world hslot (hworld ▸ hends))⟩ <;>
      simp only [Function.update_apply] <;> grind
  | breaks w i token world hworking hends =>
    have hslot : jobs.slot i = .active token := (hactive i token).mpr ⟨w, hworking⟩
    refine ⟨_, ⟨rfl, ?_, ?_, ?_, ?_, ?_, ?_⟩,
      .single (.breaks i token world hslot (hworld ▸ hends))⟩ <;>
      simp only [Function.update_apply] <;> grind

/-- Whatever the order of the steps, the items of a pool have gone their ways. -/
theorem Runs.views {m : ℕ} {world : σ} (hruns : Runs P n (Pool.initial k world) m pool) :
    ∃ jobs, Views n pool jobs ∧
      Relation.ReflTransGen (JobStep P n) (Jobs.initial world) jobs := by
  induction hruns with
  | none => exact ⟨_, views_initial world, .refl⟩
  | own _ hstep ih =>
    obtain ⟨jobs, hviews, hjobs⟩ := ih
    obtain ⟨jobs', hviews', hstep'⟩ := hviews.step hstep
    exact ⟨jobs', hviews', hjobs.trans hstep'.to_reflTransGen⟩
  | others _ hothers ih =>
    obtain ⟨jobs, hviews, hjobs⟩ := ih
    refine ⟨⟨jobs.slot, _⟩, ⟨rfl, hviews.waiting, hviews.active, hviews.done, hviews.lost,
      hviews.alone, hviews.stopped⟩, hjobs.tail (.others _ ?_)⟩
    rw [hviews.world]
    exact hothers

/-- Every worker has stopped, so that nobody waits any longer. -/
def Pool.Finished (pool : Pool k σ τ ρ) : Prop := ∀ w, pool.worker w = .stopped

theorem Pool.Finished.not_step (hfinished : pool.Finished) (pool' : Pool k σ τ ρ) :
    ¬ PoolStep P n pool pool' := by
  intro hstep
  have hnot : ∀ w x, pool.worker w = x → x = Worker.stopped := fun w _ hw ↦
    hw.symm.trans (hfinished w)
  cases hstep with
  | stops w hready => cases hnot w _ hready
  | begins w _ _ hready => cases hnot w _ hready
  | refuses w _ hready => cases hnot w _ hready
  | ends w _ _ _ _ hworking => cases hnot w _ hworking
  | breaks w _ _ _ hworking => cases hnot w _ hworking

theorem Views.finished (hviews : Views n pool jobs) (hfinished : pool.Finished)
    (hk : n = 0 ∨ 0 < k) {i : ℕ} (hi : i < n) :
    ∃ result, pool.result i = some result ∧ jobs.slot i = .done result := by
  have hcursor : n ≤ pool.cursor := by
    obtain rfl | hk := hk
    · exact Nat.zero_le _
    · exact hviews.stopped ⟨0, hk⟩ (hfinished _)
  have hnot : ∀ w x, x ≠ Worker.stopped → pool.worker w ≠ x := fun w x hx hw ↦
    hx (hw.symm.trans (hfinished w))
  cases hslot : jobs.slot i with
  | waiting => exact absurd ⟨by omega, hi⟩ ((hviews.waiting i).mp hslot)
  | active token =>
    obtain ⟨w, hw⟩ := (hviews.active i token).mp hslot
    exact absurd hw (hnot w _ nofun)
  | done result => exact ⟨result, (hviews.done i result).mp hslot, rfl⟩
  | lost =>
    obtain ⟨w, hw⟩ := (hviews.lost i).mp hslot
    exact absurd hw (hnot w _ nofun)

/-- The items in work. -/
def Jobs.inFlight (jobs : Jobs σ τ ρ) : Set ℕ := { i | ∃ token, jobs.slot i = .active token }

/-- There are never more items in work than workers. -/
theorem Views.inFlight_le (hviews : Views n pool jobs) :
    jobs.inFlight.Finite ∧ jobs.inFlight.ncard ≤ k := by
  have hworker : ∀ i : jobs.inFlight, ∃ w, ∃ token, pool.worker w = .working i token := by
    rintro ⟨i, token, hslot⟩
    obtain ⟨w, hw⟩ := (hviews.active i token).mp hslot
    exact ⟨w, token, hw⟩
  choose w hw using hworker
  have hinjective : Function.Injective w := by
    intro i j hsame
    obtain ⟨token, hi⟩ := hw i
    obtain ⟨token', hj⟩ := hw j
    rw [hsame, hj] at hi
    exact Subtype.ext (Worker.working.inj hi).1.symm
  have hfinite : Finite jobs.inFlight := Finite.of_injective w hinjective
  refine ⟨hfinite, ?_⟩
  have hcard := Nat.card_le_card_of_injective w hinjective
  rwa [Nat.card_fin, Nat.card_coe_set_eq] at hcard

/-! ### The end -/

/-- How many steps a worker can still take before it needs another item. -/
def Worker.weight : Worker τ → ℕ
  | ready => 1
  | working _ _ => 2
  | stopped => 0
  | failed _ => 0

def Pool.remaining (n : ℕ) (pool : Pool k σ τ ρ) : ℕ :=
  2 * (n - pool.cursor) + ∑ w, (pool.worker w).weight

theorem sum_update (worker : Fin k → Worker τ) (w : Fin k) (x : Worker τ) :
    ∑ v, (Function.update worker w x v).weight + (worker w).weight =
      ∑ v, (worker v).weight + x.weight := by
  have hsum := Finset.sum_update_of_mem (Finset.mem_univ w) (fun v ↦ (worker v).weight) x.weight
  have hcomp : ∀ v, (Function.update worker w x v).weight =
      Function.update (fun v ↦ (worker v).weight) w x.weight v := by
    intro v
    by_cases h : v = w
    · rw [h, Function.update_self, Function.update_self]
    · rw [Function.update_of_ne h, Function.update_of_ne h]
  have hwhole := Finset.add_sum_erase Finset.univ (fun v ↦ (worker v).weight) (Finset.mem_univ w)
  simp only [hcomp, hsum, Finset.sdiff_singleton_eq_erase]
  omega

theorem PoolStep.remaining_lt (hstep : PoolStep P n pool pool') :
    pool'.remaining n < pool.remaining n := by
  cases hstep with
  | stops w hready hcursor =>
    have hsum := sum_update pool.worker w .stopped
    simp only [hready, Worker.weight, Pool.remaining] at hsum ⊢
    omega
  | begins w token world hready hcursor hbegins =>
    have hsum := sum_update pool.worker w (.working pool.cursor token)
    simp only [hready, Worker.weight, Pool.remaining] at hsum ⊢
    omega
  | refuses w world hready hcursor hbegins =>
    have hsum := sum_update pool.worker w (.failed pool.cursor)
    simp only [hready, Worker.weight, Pool.remaining] at hsum ⊢
    omega
  | ends w i token result world hworking hends =>
    have hsum := sum_update pool.worker w .ready
    simp only [hworking, Worker.weight, Pool.remaining] at hsum ⊢
    omega
  | breaks w i token world hworking hends =>
    have hsum := sum_update pool.worker w (.failed i)
    simp only [hworking, Worker.weight, Pool.remaining] at hsum ⊢
    omega

/-- The workers take two steps for each item at most, and one each to stop. -/
theorem Runs.le {m : ℕ} {world : σ} (hruns : Runs P n (Pool.initial k world) m pool) :
    m + pool.remaining n ≤ 2 * n + k := by
  induction hruns with
  | none => simp [Pool.remaining, Pool.initial, Worker.weight]
  | own _ hstep ih =>
    have hlt := hstep.remaining_lt
    omega
  | others _ _ ih => exact ih

/-- Where its item can be begun or ended, a worker that has not stopped can go on. -/
theorem exists_step {w : Fin k}
    (hbegins : ∃ token world, P.begins pool.cursor pool.world token world)
    (hends : ∀ i token, pool.worker w = .working i token →
      ∃ result world, P.ends i token pool.world result world)
    (hw : pool.worker w ≠ .stopped ∧ ∀ i, pool.worker w ≠ .failed i) :
    ∃ pool', PoolStep P n pool pool' := by
  cases hworker : pool.worker w with
  | ready =>
    by_cases hcursor : pool.cursor < n
    · obtain ⟨token, world, h⟩ := hbegins
      cases token with
      | none => exact ⟨_, .refuses w world hworker hcursor h⟩
      | some token => exact ⟨_, .begins w token world hworker hcursor h⟩
    · exact ⟨_, .stops w hworker (Nat.le_of_not_lt hcursor)⟩
  | working i token =>
    obtain ⟨result, world, h⟩ := hends i token hworker
    cases result with
    | none => exact ⟨_, .breaks w i token world hworker h⟩
    | some result => exact ⟨_, .ends w i token result world hworker h⟩
  | stopped => exact absurd hworker hw.1
  | failed i => exact absurd hworker (hw.2 i)

end Pools

end Foundation.WorkerPool
