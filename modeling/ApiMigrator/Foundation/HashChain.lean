import Mathlib.Data.List.Induction
import Mathlib.Tactic.Cases

/-!
Chains of records in which every record names the digest of the one before it, and the first one a
given root. The digest of the last record then stands for the whole chain.
-/

set_option autoImplicit false
set_option relaxedAutoImplicit false

namespace Foundation.HashChain

variable {α D : Type} (previous digest : α → D)

/-- The first record names `root`, every later one the digest of the record before it. -/
def Linked : D → List α → Prop
  | _, [] => True
  | root, x :: xs => previous x = root ∧ Linked (digest x) xs

/-- The digest a next record has to name. -/
def tip : D → List α → D
  | root, [] => root
  | _, x :: xs => tip (digest x) xs

theorem tip_append (root : D) (xs ys : List α) :
    tip digest root (xs ++ ys) = tip digest (tip digest root xs) ys := by
  induction xs generalizing root with
  | nil => rfl
  | cons x xs ih => exact ih (digest x)

theorem tip_concat (root : D) (xs : List α) (x : α) :
    tip digest root (xs ++ [x]) = digest x := by
  rw [tip_append]
  rfl

theorem linked_append (root : D) (xs ys : List α) :
    Linked previous digest root (xs ++ ys) ↔
      Linked previous digest root xs ∧ Linked previous digest (tip digest root xs) ys := by
  induction xs generalizing root with
  | nil => simp [Linked, tip]
  | cons x xs ih => simp only [List.cons_append, Linked, tip, ih, and_assoc]

theorem tip_eq_of_getLast? (root : D) {xs : List α} {x : α} (h : xs.getLast? = some x) :
    tip digest root xs = digest x := by
  obtain ⟨before, rfl⟩ := List.getLast?_eq_some_iff.mp h
  exact tip_concat digest root before x

/-- **The tip stands for the chain.** Chains of one length and one tip are equal, when records
with one digest are. -/
theorem eq_of_tip_eq {root root' : D} {xs ys : List α} (hxs : Linked previous digest root xs)
    (hys : Linked previous digest root' ys) (hlength : xs.length = ys.length)
    (hdigest : ∀ x ∈ xs, ∀ y ∈ ys, digest x = digest y → x = y)
    (htip : tip digest root xs = tip digest root' ys) : xs = ys := by
  induction xs using List.reverseRecOn generalizing ys with
  | nil => exact (List.length_eq_zero_iff.mp hlength.symm).symm
  | append_singleton xs x ih =>
    rcases List.eq_nil_or_concat ys with rfl | ⟨ys, y, rfl⟩
    · simp at hlength
    · rw [tip_concat, List.concat_eq_append, tip_concat] at htip
      rw [List.concat_eq_append] at hys hlength hdigest ⊢
      obtain rfl : x = y := hdigest x (by simp) y (by simp) htip
      rw [linked_append] at hxs hys
      have hrest : tip digest root xs = tip digest root' ys := hxs.2.1.symm.trans hys.2.1
      rw [ih hxs.1 hys.1 (by simpa using hlength)
        (fun a ha b hb ↦ hdigest a (by simp [ha]) b (by simp [hb])) hrest]

end Foundation.HashChain
