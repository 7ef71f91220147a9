import ApiMigrator.Foundation.Regex
import Mathlib.Data.List.Basic

/-!
Texts in which parts give way to bracketed markers. A piece of the result without brackets comes
from one piece of the text, or from the inside of a marker, so redaction joins nothing that was
apart.
-/

set_option autoImplicit false
set_option relaxedAutoImplicit false

namespace Foundation

open Text Regex

/-- A marker stands between square brackets. -/
def IsMarker (m : JsString) : Prop := m.head? = some 0x5b ∧ m.getLast? = some 0x5d

instance (m : JsString) : Decidable (IsMarker m) := inferInstanceAs (Decidable (_ ∧ _))

/-- From left to right, a code unit stays where `kept` holds of what is left, or a part that is not
empty gives way to a marker. -/
inductive Redacts (markers : List JsString) (kept : JsString → Prop) : JsString → JsString → Prop
  | nil : Redacts markers kept [] []
  | keep {c : UInt16} {s t : JsString} :
      kept (c :: s) → Redacts markers kept s t → Redacts markers kept (c :: s) (c :: t)
  | mark {d m s t : JsString} :
      d ≠ [] → m ∈ markers → Redacts markers kept s t → Redacts markers kept (d ++ s) (m ++ t)

/-- A text without brackets that no marker contains. -/
structure Foreign (markers : List JsString) (x : JsString) : Prop where
  ne_nil : x ≠ []
  no_open : (0x5b : UInt16) ∉ x
  no_close : (0x5d : UInt16) ∉ x
  not_in_marker : ∀ m ∈ markers, ¬ x <:+: m

instance (markers : List JsString) (x : JsString) : Decidable (Foreign markers x) :=
  decidable_of_iff (x ≠ [] ∧ (0x5b : UInt16) ∉ x ∧ (0x5d : UInt16) ∉ x ∧
      ∀ m ∈ markers, ¬ x <:+: m)
    ⟨fun h ↦ ⟨h.1, h.2.1, h.2.2.1, h.2.2.2⟩, fun h ↦ ⟨h.1, h.2, h.3, h.4⟩⟩

variable {markers : List JsString} {kept : JsString → Prop}

namespace Redacts

theorem append_left (hkept : ∀ s, kept s) (k : JsString) {s t : JsString}
    (h : Redacts markers kept s t) : Redacts markers kept (k ++ s) (k ++ t) := by
  induction k with
  | nil => exact h
  | cons c k ih => exact .keep (hkept _) ih

theorem refl (hkept : ∀ s, kept s) (s : JsString) : Redacts markers kept s s := by
  have happend : Redacts markers kept (s ++ []) (s ++ []) := append_left hkept s .nil
  rwa [List.append_nil] at happend

/-- What the result begins with before any bracket, the text begins with. -/
theorem of_prefix (hmarkers : ∀ m ∈ markers, IsMarker m) {s x after : JsString}
    (hopen : (0x5b : UInt16) ∉ x) (h : Redacts markers kept s (x ++ after)) :
    ∃ rest, s = x ++ rest ∧ Redacts markers kept rest after := by
  induction x generalizing s with
  | nil => exact ⟨s, rfl, h⟩
  | cons c x ih =>
    have hc : c ≠ 0x5b := fun heq ↦ hopen (heq ▸ List.mem_cons_self)
    generalize htext : c :: x ++ after = text at h
    cases h with
    | nil => exact absurd htext (List.cons_ne_nil c _)
    | keep hkeep h =>
      obtain ⟨rfl, rfl⟩ := List.cons.inj htext
      obtain ⟨rest, rfl, hrest⟩ := ih (fun hmem ↦ hopen (List.mem_cons_of_mem _ hmem)) h
      exact ⟨rest, rfl, hrest⟩
    | @mark d m s t hd hm h =>
      have hhead : (m ++ t).head? = some c := by rw [← htext]; rfl
      rw [List.head?_append, (hmarkers m hm).1, Option.some_or, Option.some.injEq] at hhead
      exact absurd hhead.symm hc

/-- A foreign piece of the result is one piece of the text, in the same order with what follows. -/
theorem of_append (hmarkers : ∀ m ∈ markers, IsMarker m) {x : JsString} (hx : Foreign markers x)
    {s front after : JsString} (h : Redacts markers kept s (front ++ (x ++ after))) :
    ∃ start rest, s = start ++ (x ++ rest) ∧ (front ≠ [] → start ≠ []) ∧ kept (x ++ rest) ∧
      Redacts markers kept rest after := by
  have hfirst : ∀ {s : JsString}, Redacts markers kept s (x ++ after) →
      ∃ rest, s = x ++ rest ∧ kept (x ++ rest) ∧ Redacts markers kept rest after := by
    intro s h
    obtain ⟨rest, rfl, hrest⟩ := of_prefix hmarkers hx.no_open h
    refine ⟨rest, rfl, ?_, hrest⟩
    obtain ⟨c, x', rfl⟩ := List.exists_cons_of_ne_nil hx.ne_nil
    have hc : c ≠ 0x5b := fun heq ↦ hx.no_open (heq ▸ List.mem_cons_self)
    generalize htext : c :: x' ++ after = text at h
    generalize hsource : c :: x' ++ rest = source at h
    cases h with
    | nil => exact absurd htext (List.cons_ne_nil c _)
    | keep hkeep h => exact hsource ▸ hkeep
    | @mark d m s t hd hm h =>
      have hhead : (m ++ t).head? = some c := by rw [← htext]; rfl
      rw [List.head?_append, (hmarkers m hm).1, Option.some_or, Option.some.injEq] at hhead
      exact absurd hhead.symm hc
  generalize htext : front ++ (x ++ after) = text at h
  induction h generalizing front with
  | nil =>
    have hnil := (List.append_eq_nil_iff.mp (List.append_eq_nil_iff.mp htext).2).1
    exact absurd hnil hx.ne_nil
  | @keep c s t hkeep h ih =>
    cases front with
    | nil =>
      rw [List.nil_append] at htext
      obtain ⟨rest, hs, hrest⟩ := hfirst (htext ▸ Redacts.keep hkeep h)
      exact ⟨[], rest, hs, fun hne ↦ absurd rfl hne, hrest⟩
    | cons b front =>
      obtain ⟨rfl, htail⟩ := List.cons.inj htext
      obtain ⟨start, rest, rfl, -, hrest⟩ := ih htail
      exact ⟨b :: start, rest, rfl, fun _ ↦ List.cons_ne_nil b start, hrest⟩
  | @mark d m s t hd hm h ih =>
    -- either the marker ends before the piece, or the piece and the marker share a code unit
    rcases List.append_eq_append_iff.mp htext with ⟨tail, rfl, htail⟩ | ⟨front', rfl, hfront⟩
    · rcases List.append_eq_append_iff.mp htail with ⟨inner, rfl, -⟩ | ⟨x', rfl, hafter⟩
      · exact absurd ⟨front, inner, by rw [List.append_assoc]⟩ (hx.not_in_marker _ hm)
      · by_cases htail : tail = []
        · subst htail
          obtain ⟨rest, hs, hrest⟩ := hfirst (hafter ▸ h)
          exact ⟨d, rest, by rw [hs], fun _ ↦ hd, hrest⟩
        · have hlast := (hmarkers _ hm).2
          rw [List.getLast?_append_of_ne_nil _ htail] at hlast
          exact absurd (List.mem_append_left _ (List.mem_of_getLast? hlast)) hx.no_close
    · obtain ⟨start, rest, rfl, -, hrest⟩ := ih hfront.symm
      refine ⟨d ++ start, rest, by rw [List.append_assoc], fun _ ↦ ?_, hrest⟩
      exact fun hnil ↦ hd (List.append_eq_nil_iff.mp hnil).1

end Redacts

/-! ### Replacements as redactions -/

end Foundation
