import Mathlib.Data.List.Perm.Subperm
import Mathlib.Logic.Function.Basic

/-!
Taking one list away from another by keys. Every element of the second list cancels the first
element left in the first list that has its key. When the key tells the elements apart this is the
difference of multisets; it is so for other keys under a condition on the elements of each key.
-/

set_option autoImplicit false
set_option relaxedAutoImplicit false

namespace Foundation.KeyedDifference

variable {α κ : Type} [DecidableEq κ] (key : α → κ)

/-- How often each key occurs. -/
def tally (xs : List α) : κ → ℕ :=
  xs.foldl (fun remaining x ↦ Function.update remaining (key x) (remaining (key x) + 1)) fun _ ↦ 0

/-- The elements for which nothing is left to cancel them. -/
def uncancelled : (κ → ℕ) → List α → List α
  | _, [] => []
  | remaining, x :: xs =>
    if remaining (key x) = 0 then x :: uncancelled remaining xs
    else uncancelled (Function.update remaining (key x) (remaining (key x) - 1)) xs

/-- The elements under a key. -/
def under (k : κ) (xs : List α) : List α := xs.filter fun x ↦ decide (key x = k)

theorem under_cons_self (x : α) (xs : List α) :
    under key (key x) (x :: xs) = x :: under key (key x) xs := by
  rw [under, List.filter_cons, if_pos (decide_eq_true rfl), under]

theorem under_cons_of_ne {k : κ} {x : α} (hk : key x ≠ k) (xs : List α) :
    under key k (x :: xs) = under key k xs := by
  rw [under, List.filter_cons, if_neg (by simpa using hk), under]

private theorem tally_from (xs : List α) (remaining : κ → ℕ) (k : κ) :
    xs.foldl (fun remaining x ↦ Function.update remaining (key x) (remaining (key x) + 1))
      remaining k = remaining k + (under key k xs).length := by
  induction xs generalizing remaining with
  | nil => rfl
  | cons x xs ih =>
    rw [List.foldl_cons, ih]
    by_cases hk : key x = k
    · subst hk
      rw [Function.update_self, under_cons_self, List.length_cons]
      omega
    · rw [Function.update_of_ne (Ne.symm hk), under_cons_of_ne key hk]

theorem tally_eq (xs : List α) (k : κ) : tally key xs k = (under key k xs).length := by
  rw [tally, tally_from, Nat.zero_add]

theorem uncancelled_sublist (remaining : κ → ℕ) (xs : List α) :
    (uncancelled key remaining xs).Sublist xs := by
  induction xs generalizing remaining with
  | nil => exact List.Sublist.refl []
  | cons x xs ih =>
    unfold uncancelled
    split_ifs
    · exact (ih remaining).cons_cons x
    · exact (ih _).cons x

/-- Of each key the first elements are cancelled. -/
theorem under_uncancelled (remaining : κ → ℕ) (xs : List α) (k : κ) :
    under key k (uncancelled key remaining xs) = (under key k xs).drop (remaining k) := by
  induction xs generalizing remaining with
  | nil => rw [uncancelled, under, List.filter_nil, List.drop_nil]
  | cons x xs ih =>
    unfold uncancelled
    by_cases hzero : remaining (key x) = 0
    · rw [if_pos hzero]
      by_cases hk : key x = k
      · subst hk
        rw [under_cons_self, under_cons_self, ih, hzero, List.drop_zero, List.drop_zero]
      · rw [under_cons_of_ne key hk, under_cons_of_ne key hk, ih]
    · rw [if_neg hzero, ih]
      by_cases hk : key x = k
      · subst hk
        obtain ⟨n, hn⟩ := Nat.exists_eq_succ_of_ne_zero hzero
        rw [Function.update_self, under_cons_self, hn, Nat.succ_sub_one, List.drop_succ_cons]
      · rw [Function.update_of_ne (Ne.symm hk), under_cons_of_ne key hk]

/-- Only the keys matter for what is cancelled. -/
theorem map_uncancelled {β : Type} (f : β → α) (remaining : κ → ℕ) (xs : List β) :
    (uncancelled (fun x ↦ key (f x)) remaining xs).map f = uncancelled key remaining (xs.map f) := by
  induction xs generalizing remaining with
  | nil => rfl
  | cons x xs ih =>
    rw [List.map_cons, uncancelled, uncancelled]
    split_ifs
    · rw [List.map_cons, ih]
    · exact ih _

theorem tally_map {β : Type} (f : β → α) (xs : List β) :
    tally (fun x ↦ key (f x)) xs = tally key (xs.map f) := by
  rw [tally, tally, List.foldl_map]

theorem mem_under {xs : List α} {x : α} {k : κ} : x ∈ under key k xs ↔ x ∈ xs ∧ key x = k := by
  rw [under, List.mem_filter, decide_eq_true_eq]

/-! ### Multisets -/

section Exactness

variable [DecidableEq α]

/-- Under each key either the second list has every element at least as often, or it cancels its
own elements. -/
def Cancels (xs ys : List α) : Prop :=
  ∀ k, (∀ x ∈ under key k xs, xs.count x ≤ ys.count x) ∨
    ((under key k xs).take (under key k ys).length).Perm (under key k ys)

theorem count_under (xs : List α) (x : α) : (under key (key x) xs).count x = xs.count x :=
  List.count_filter (decide_eq_true rfl)

theorem count_uncancelled (xs ys : List α) (x : α) :
    (uncancelled key (tally key ys) xs).count x =
      ((under key (key x) xs).drop (under key (key x) ys).length).count x := by
  rw [← count_under key, under_uncancelled, tally_eq]

/-- Taking away by keys is the difference of multisets exactly when the keys cancel. -/
theorem count_uncancelled_iff (xs ys : List α) :
    (∀ x, (uncancelled key (tally key ys) xs).count x = xs.count x - ys.count x) ↔
      Cancels key xs ys := by
  simp only [count_uncancelled]
  constructor
  · intro h k
    have hcount : ∀ x, key x = k →
        ((under key k xs).drop (under key k ys).length).count x = xs.count x - ys.count x := by
      rintro x rfl
      exact h x
    by_cases hlength : (under key k xs).length ≤ (under key k ys).length
    · refine Or.inl fun x hx ↦ ?_
      have hempty := hcount x ((mem_under key).mp hx).2
      rw [List.drop_eq_nil_of_le hlength, List.count_nil] at hempty
      omega
    · refine Or.inr ?_
      have hsub : ((under key k xs).take (under key k ys).length).Subperm (under key k ys) := by
        refine List.subperm_ext_iff.mpr fun x hx ↦ ?_
        have hk := ((mem_under key).mp (List.mem_of_mem_take hx)).2
        have hsplit := congrArg (List.count x)
          (List.take_append_drop (under key k ys).length (under key k xs))
        rw [List.count_append, hcount x hk] at hsplit
        subst hk
        rw [count_under] at hsplit ⊢
        omega
      refine hsub.perm_of_length_le ?_
      rw [List.length_take]
      omega
  · intro h x
    rcases h (key x) with hle | hperm
    · by_cases hx : x ∈ xs
      · have hshort : (under key (key x) xs).length ≤ (under key (key x) ys).length := by
          refine (List.subperm_ext_iff.mpr fun y hy ↦ ?_).length_le
          have hk := ((mem_under key).mp hy).2
          rw [← hk, count_under, count_under]
          exact hle y hy
        rw [List.drop_eq_nil_of_le hshort, List.count_nil]
        have := hle x ((mem_under key).mpr ⟨hx, rfl⟩)
        omega
      · have hnone : x ∉ (under key (key x) xs).drop (under key (key x) ys).length := fun hmem ↦
          hx ((mem_under key).mp (List.mem_of_mem_drop hmem)).1
        rw [List.count_eq_zero_of_not_mem hnone, List.count_eq_zero_of_not_mem hx, Nat.zero_sub]
    · have hsplit := congrArg (List.count x)
        (List.take_append_drop (under key (key x) ys).length (under key (key x) xs))
      rw [List.count_append, hperm.count_eq, count_under, count_under] at hsplit
      omega

/-- It is the difference of multisets when the key tells the elements apart. -/
theorem cancels_of_injOn {xs ys : List α}
    (h : ∀ x ∈ xs, ∀ y ∈ xs ++ ys, key x = key y → x = y) : Cancels key xs ys := by
  intro k
  by_cases hlength : (under key k xs).length ≤ (under key k ys).length
  · refine Or.inl fun x hx ↦ ?_
    obtain ⟨hmem, rfl⟩ := (mem_under key).mp hx
    have hxs : under key (key x) xs = List.replicate (under key (key x) xs).length x :=
      List.eq_replicate_of_mem fun y hy ↦ (h x hmem y
        (List.mem_append_left _ ((mem_under key).mp hy).1) ((mem_under key).mp hy).2.symm).symm
    have hys : under key (key x) ys = List.replicate (under key (key x) ys).length x :=
      List.eq_replicate_of_mem fun y hy ↦ (h x hmem y
        (List.mem_append_right _ ((mem_under key).mp hy).1) ((mem_under key).mp hy).2.symm).symm
    rw [← count_under key xs, ← count_under key ys, hxs, hys, List.count_replicate_self,
      List.count_replicate_self]
    exact hlength
  · refine Or.inr ?_
    obtain ⟨x, hx⟩ : ∃ x, x ∈ under key k xs :=
      List.exists_mem_of_length_pos (Nat.lt_of_le_of_lt (Nat.zero_le _) (Nat.lt_of_not_le hlength))
    obtain ⟨hmem, rfl⟩ := (mem_under key).mp hx
    have hall : ∀ y ∈ xs ++ ys, key y = key x → y = x := fun y hy hk ↦
      (h x hmem y hy hk.symm).symm
    have htake : (under key (key x) xs).take (under key (key x) ys).length =
        List.replicate (under key (key x) ys).length x := by
      refine List.eq_replicate_iff.mpr ⟨?_, fun y hy ↦ ?_⟩
      · rw [List.length_take]
        omega
      · have hy := (mem_under key).mp (List.mem_of_mem_take hy)
        exact hall y (List.mem_append_left _ hy.1) hy.2
    have hys : under key (key x) ys = List.replicate (under key (key x) ys).length x :=
      List.eq_replicate_of_mem fun y hy ↦ hall y
        (List.mem_append_right _ ((mem_under key).mp hy).1) ((mem_under key).mp hy).2
    rw [htake, ← hys]

end Exactness

end Foundation.KeyedDifference
