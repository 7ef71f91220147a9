import ApiMigrator.Foundation.JsonText
import Mathlib.Data.List.Perm.Subperm

/-!
Canonical JSON. Objects are finite maps, so two values are the same when they differ at most in
the order of members; sorting the members by the UTF-16 code units of their keys picks one
representative. A `Dialect` fixes what an encoder says about the values it refuses; whatever it
says, an encoder writes a value exactly when the value is interoperable, and then the compact text
of the representative.
-/

set_option autoImplicit false
set_option relaxedAutoImplicit false

namespace Foundation.Json

open Text Number

/-! ### Sorting by key -/

section Sorting

variable {α β : Type}

/-- The order of `Array.prototype.sort` on keys. -/
def keyLe (m n : JsString × α) : Prop := m.1 ≤ n.1

instance : DecidableRel (keyLe (α := α)) := fun m n ↦ inferInstanceAs (Decidable (m.1 ≤ n.1))

instance : Std.Total (keyLe (α := α)) := ⟨fun m n ↦ List.le_total m.1 n.1⟩

instance : IsTrans (JsString × α) keyLe := ⟨fun _ _ _ h₁ h₂ ↦ List.le_trans h₁ h₂⟩

def sortByKey (ms : List (JsString × α)) : List (JsString × α) := ms.insertionSort keyLe

theorem sortByKey_perm (ms : List (JsString × α)) : (sortByKey ms).Perm ms :=
  List.perm_insertionSort keyLe ms

@[simp]
theorem mem_sortByKey {ms : List (JsString × α)} {m : JsString × α} :
    m ∈ sortByKey ms ↔ m ∈ ms :=
  (sortByKey_perm ms).mem_iff

theorem pairwise_sortByKey (ms : List (JsString × α)) : (sortByKey ms).Pairwise keyLe :=
  List.pairwise_insertionSort keyLe ms

theorem nodup_keys_sortByKey {ms : List (JsString × α)} (hkeys : (ms.map Prod.fst).Nodup) :
    ((sortByKey ms).map Prod.fst).Nodup :=
  ((sortByKey_perm ms).map Prod.fst).nodup_iff.mpr hkeys

/-- A map that leaves the keys alone commutes with the sort. -/
theorem sortByKey_map (f : JsString × α → JsString × β) (hf : ∀ m, (f m).1 = m.1)
    (ms : List (JsString × α)) : sortByKey (ms.map f) = (sortByKey ms).map f :=
  (List.map_insertionSort keyLe keyLe f ms fun a _ b _ ↦ by
    simp only [keyLe, hf]).symm

theorem sortByKey_eq_self {ms : List (JsString × α)} (hsorted : ms.Pairwise keyLe) :
    sortByKey ms = ms :=
  hsorted.insertionSort_eq

theorem eq_of_mem_of_key_eq {ms : List (JsString × α)} (hkeys : (ms.map Prod.fst).Nodup)
    {m n : JsString × α} (hm : m ∈ ms) (hn : n ∈ ms) (hkey : m.1 = n.1) : m = n :=
  List.inj_on_of_nodup_map hkeys hm hn hkey

/-- With distinct keys the sorted list depends on the members only. -/
theorem sortByKey_eq_of_perm {ms ns : List (JsString × α)} (hkeys : (ms.map Prod.fst).Nodup)
    (hperm : ms.Perm ns) : sortByKey ms = sortByKey ns := by
  have hantisymm : ∀ a b, a ∈ sortByKey ms → b ∈ sortByKey ns → keyLe a b → keyLe b a →
      a = b := by
    intro a b ha hb hab hba
    exact eq_of_mem_of_key_eq hkeys (mem_sortByKey.mp ha)
      (hperm.mem_iff.mpr (mem_sortByKey.mp hb)) (List.le_antisymm hab hba)
  exact List.Perm.eq_of_pairwise hantisymm (pairwise_sortByKey ms) (pairwise_sortByKey ns)
    (((sortByKey_perm ms).trans hperm).trans (sortByKey_perm ns).symm)

end Sorting

/-! ### The representative -/

mutual

/-- The value with the members of every object in the order of their keys. -/
def JsValue.sorted : JsValue → JsValue
  | .null => .null
  | .bool b => .bool b
  | .num n => .num n
  | .str s => .str s
  | .arr xs => .arr (sortedElements xs)
  | .obj ms => .obj (sortByKey (sortedMembers ms))
  | .exotic kind => .exotic kind

def sortedElements : List JsValue → List JsValue
  | [] => []
  | x :: xs => x.sorted :: sortedElements xs

def sortedMembers : List Member → List Member
  | [] => []
  | (key, v) :: ms => (key, v.sorted) :: sortedMembers ms

end

def Member.sorted (m : Member) : Member := (m.1, m.2.sorted)

theorem sortedElements_eq_map (xs : List JsValue) : sortedElements xs = xs.map JsValue.sorted := by
  induction xs with
  | nil => rfl
  | cons x xs ih => rw [sortedElements, ih, List.map_cons]

theorem sortedMembers_eq_map (ms : List Member) : sortedMembers ms = ms.map Member.sorted := by
  induction ms with
  | nil => rfl
  | cons m ms ih => rw [sortedMembers, ih, List.map_cons, Member.sorted]

theorem keys_sortedMembers (ms : List Member) :
    (sortedMembers ms).map Prod.fst = ms.map Prod.fst := by
  rw [sortedMembers_eq_map, List.map_map]
  rfl

theorem mem_sortedMembers {ms : List Member} {key : JsString} {w : JsValue} :
    (key, w) ∈ sortedMembers ms ↔ ∃ v, (key, v) ∈ ms ∧ v.sorted = w := by
  rw [sortedMembers_eq_map, List.mem_map]
  constructor
  · rintro ⟨⟨k, v⟩, hmem, heq⟩
    obtain ⟨rfl, rfl⟩ := Prod.mk.inj heq
    exact ⟨v, hmem, rfl⟩
  · rintro ⟨v, hmem, rfl⟩
    exact ⟨(key, v), hmem, rfl⟩

theorem sortByKey_sortedMembers (ms : List Member) :
    sortByKey (sortedMembers ms) = sortedMembers (sortByKey ms) := by
  rw [sortedMembers_eq_map, sortedMembers_eq_map, sortByKey_map]
  exact fun _ ↦ rfl

/-- No object of the value repeats a key, as no ECMAScript object does. -/
inductive DistinctKeys : JsValue → Prop
  | null : DistinctKeys .null
  | bool (b : Bool) : DistinctKeys (.bool b)
  | num (n : JsNumber) : DistinctKeys (.num n)
  | str (s : JsString) : DistinctKeys (.str s)
  | arr {xs : List JsValue} (hxs : ∀ x ∈ xs, DistinctKeys x) : DistinctKeys (.arr xs)
  | obj {ms : List Member} (hkeys : (ms.map Prod.fst).Nodup)
      (hms : ∀ m ∈ ms, DistinctKeys m.2) : DistinctKeys (.obj ms)
  | exotic (kind : Exotic) : DistinctKeys (.exotic kind)

theorem IJson.distinctKeys {v : JsValue} (hv : IJson v) : DistinctKeys v := by
  induction hv with
  | null => exact .null
  | bool b => exact .bool b
  | num => exact .num _
  | str => exact .str _
  | arr _ ih => exact .arr ih
  | obj hkeys _ _ ih => exact .obj hkeys ih

theorem IJson.sorted {v : JsValue} (hv : IJson v) : IJson v.sorted := by
  induction hv with
  | null => exact .null
  | bool b => exact .bool b
  | num hsafe => exact .num hsafe
  | str hs => exact .str hs
  | arr _ ih =>
    refine .arr fun y hy ↦ ?_
    rw [sortedElements_eq_map] at hy
    obtain ⟨x, hx, rfl⟩ := List.mem_map.mp hy
    exact ih x hx
  | @obj ms hkeys hunicode _ ih =>
    refine .obj (nodup_keys_sortByKey (by rwa [keys_sortedMembers])) ?_ ?_
    · rintro ⟨key, w⟩ hm
      obtain ⟨v, hmem, rfl⟩ := mem_sortedMembers.mp (mem_sortByKey.mp hm)
      exact hunicode (key, v) hmem
    · rintro ⟨key, w⟩ hm
      obtain ⟨v, hmem, rfl⟩ := mem_sortedMembers.mp (mem_sortByKey.mp hm)
      exact ih (key, v) hmem

/-- Sorting picks a representative once and for all. -/
theorem JsValue.sorted_sorted (v : JsValue) : v.sorted.sorted = v.sorted := by
  induction v using JsValue.induct with
  | null | bool | num | str | exotic => rfl
  | arr xs ih =>
    simp only [JsValue.sorted, sortedElements_eq_map, List.map_map]
    congr 1
    exact List.map_congr_left ih
  | obj ms ih =>
    have hmembers : sortedMembers (sortByKey (sortedMembers ms)) =
        sortByKey (sortedMembers ms) := by
      rw [sortedMembers_eq_map (sortByKey _)]
      conv_rhs => rw [← List.map_id (sortByKey (sortedMembers ms))]
      refine List.map_congr_left ?_
      rintro ⟨key, w⟩ hm
      obtain ⟨v, hmem, rfl⟩ := mem_sortedMembers.mp (mem_sortByKey.mp hm)
      exact congrArg (Prod.mk key) (ih (key, v) hmem)
    simp only [JsValue.sorted]
    rw [hmembers, sortByKey_eq_self (pairwise_sortByKey _)]

/-! ### Reading members -/

/-- The value under a key; `undefined` where there is none. -/
def getMember (ms : List Member) (key : JsString) : JsValue :=
  (ms.lookup key).getD (.exotic .undefined)

theorem getMember_of_mem {ms : List Member} (hkeys : (ms.map Prod.fst).Nodup) {m : Member}
    (hm : m ∈ ms) : getMember ms m.1 = m.2 := by
  induction ms with
  | nil => exact absurd hm List.not_mem_nil
  | cons n ns ih =>
    rw [List.map_cons, List.nodup_cons] at hkeys
    rcases List.mem_cons.mp hm with rfl | hm
    · rw [getMember, List.lookup_cons, beq_self_eq_true]
      rfl
    · have hne : m.1 ≠ n.1 := fun h ↦ hkeys.1 (h ▸ List.mem_map_of_mem hm)
      rw [← ih hkeys.2 hm, getMember, getMember, List.lookup_cons, beq_false_of_ne hne]

/-- An object with known keys is determined by the values under them. -/
theorem sortByKey_eq_of_keys {ms : List Member} {keys : List JsString} (hnodup : keys.Nodup)
    (hkeys : (sortByKey ms).map Prod.fst = keys) :
    sortByKey ms = keys.map fun key ↦ (key, getMember ms key) := by
  have hms : (ms.map Prod.fst).Nodup :=
    ((sortByKey_perm ms).map Prod.fst).nodup_iff.mp (hkeys ▸ hnodup)
  rw [← hkeys, List.map_map]
  conv_lhs => rw [← List.map_id (sortByKey ms)]
  refine List.map_congr_left fun m hm ↦ ?_
  exact Prod.ext rfl (getMember_of_mem hms (mem_sortByKey.mp hm)).symm

theorem sorted_obj_of_keys {ms : List Member} {keys : List JsString} (hnodup : keys.Nodup)
    (hkeys : (sortByKey ms).map Prod.fst = keys) :
    (JsValue.obj ms).sorted = .obj (keys.map fun key ↦ (key, (getMember ms key).sorted)) := by
  rw [JsValue.sorted, sortByKey_sortedMembers, sortByKey_eq_of_keys hnodup hkeys,
    sortedMembers_eq_map, List.map_map]
  rfl

theorem sortByKey_eq_self_of_keys {ms : List Member} (hkeys : (ms.map Prod.fst).Pairwise (· ≤ ·)) :
    sortByKey ms = ms := by
  have hsorted : ms.Pairwise fun m n ↦ m.1 ≤ n.1 := List.pairwise_map.mp hkeys
  exact sortByKey_eq_self hsorted

/-! ### Canonical values -/

/-- The value is its own representative. -/
def Canonical (v : JsValue) : Prop := DistinctKeys v ∧ v.sorted = v

@[simp]
theorem canonical_null : Canonical .null := ⟨.null, rfl⟩

@[simp]
theorem canonical_bool (b : Bool) : Canonical (.bool b) := ⟨.bool b, rfl⟩

@[simp]
theorem canonical_num (n : JsNumber) : Canonical (.num n) := ⟨.num n, rfl⟩

@[simp]
theorem canonical_str (s : JsString) : Canonical (.str s) := ⟨.str s, rfl⟩

theorem canonical_arr {xs : List JsValue} (hxs : ∀ x ∈ xs, Canonical x) : Canonical (.arr xs) := by
  refine ⟨.arr fun x hx ↦ (hxs x hx).1, ?_⟩
  rw [JsValue.sorted, sortedElements_eq_map, List.map_congr_left fun x hx ↦ (hxs x hx).2,
    List.map_id']

/-- An object whose keys are listed in strict order is canonical as soon as its values are. -/
theorem canonical_obj {ms : List Member} (hkeys : (ms.map Prod.fst).Pairwise (· < ·))
    (hms : ∀ m ∈ ms, Canonical m.2) : Canonical (.obj ms) := by
  have hne : (ms.map Prod.fst).Nodup := by
    refine hkeys.imp ?_
    intro a b hlt heq
    exact List.lt_irrefl b (heq ▸ hlt)
  refine ⟨.obj hne fun m hm ↦ (hms m hm).1, ?_⟩
  have hvalues : sortedMembers ms = ms := by
    have hmember : ∀ m ∈ ms, Member.sorted m = m := fun m hm ↦ Prod.ext rfl (hms m hm).2
    rw [sortedMembers_eq_map, List.map_congr_left hmember, List.map_id']
  rw [JsValue.sorted, hvalues, sortByKey_eq_self_of_keys (hkeys.imp List.le_of_lt)]

/-- The keys of a canonical object stand in their order. -/
theorem Canonical.keys_sorted {ms : List Member} (h : Canonical (.obj ms)) :
    (sortByKey ms).map Prod.fst = ms.map Prod.fst := by
  have hself : sortByKey (sortedMembers ms) = ms := JsValue.obj.inj h.2
  rw [sortByKey_sortedMembers] at hself
  have hkeys := congrArg (List.map Prod.fst) hself
  rwa [keys_sortedMembers] at hkeys

theorem Canonical.getMember_of_mem {ms : List Member} (h : Canonical (.obj ms)) (key : JsString)
    (value : JsValue) (hmem : (key, value) ∈ ms) : getMember ms key = value := by
  obtain ⟨hdistinct, -⟩ := h
  cases hdistinct with
  | obj hkeys _ => exact Json.getMember_of_mem hkeys hmem

/-! ### Equality of values -/

mutual

/-- Equality of values, objects compared as finite maps. -/
def Same : JsValue → JsValue → Prop
  | .null, w => w = .null
  | .bool b, w => w = .bool b
  | .num n, w => w = .num n
  | .str s, w => w = .str s
  | .arr xs, w => ∃ ys, w = .arr ys ∧ SameElements xs ys
  | .obj ms, w => ∃ ns, w = .obj ns ∧ ms.length = ns.length ∧ SameMembers ms ns
  | .exotic kind, w => w = .exotic kind

def SameElements : List JsValue → List JsValue → Prop
  | [], ys => ys = []
  | x :: xs, ys => ∃ y rest, ys = y :: rest ∧ Same x y ∧ SameElements xs rest

/-- Every member of the first list has a counterpart in the second. -/
def SameMembers : List Member → List Member → Prop
  | [], _ => True
  | (key, v) :: ms, ns => (∃ w, (key, w) ∈ ns ∧ Same v w) ∧ SameMembers ms ns

end

theorem sameElements_iff {xs ys : List JsValue} :
    SameElements xs ys ↔ List.Forall₂ Same xs ys := by
  induction xs generalizing ys with
  | nil =>
    rw [SameElements, List.forall₂_nil_left_iff]
  | cons x xs ih =>
    simp only [SameElements, List.forall₂_cons_left_iff, ih]
    constructor
    · rintro ⟨y, rest, rfl, hy, hrest⟩
      exact ⟨y, rest, hy, hrest, rfl⟩
    · rintro ⟨y, rest, hy, hrest, rfl⟩
      exact ⟨y, rest, rfl, hy, hrest⟩

theorem sameMembers_iff {ms ns : List Member} :
    SameMembers ms ns ↔ ∀ m ∈ ms, ∃ w, (m.1, w) ∈ ns ∧ Same m.2 w := by
  induction ms with
  | nil => simp [SameMembers]
  | cons m ms ih =>
    rw [SameMembers, ih, List.forall_mem_cons]

private theorem perm_of_forall_mem {ms ns : List Member} (hms : (ms.map Prod.fst).Nodup)
    (hlength : ms.length = ns.length) (hmem : ∀ m ∈ ms, m ∈ ns) : ms.Perm ns :=
  (List.subperm_of_subset (List.Nodup.of_map _ hms) hmem).perm_of_length_le hlength.ge

/-- Two values are the same exactly when they have one representative. -/
theorem same_iff_sorted_eq {v w : JsValue} (hv : DistinctKeys v) (hw : DistinctKeys w) :
    Same v w ↔ v.sorted = w.sorted := by
  induction v using JsValue.induct generalizing w with
  | null => cases w <;> simp [Same, JsValue.sorted]
  | bool b => cases w <;> simp [Same, JsValue.sorted, eq_comm]
  | num n => cases w <;> simp [Same, JsValue.sorted, eq_comm]
  | str s => cases w <;> simp [Same, JsValue.sorted, eq_comm]
  | exotic kind => cases w <;> simp [Same, JsValue.sorted, eq_comm]
  | arr xs ih =>
    cases hv with
    | arr hxs =>
      cases hw with
      | @arr ys hys =>
        simp only [Same, JsValue.sorted, JsValue.arr.injEq, exists_eq_left', sameElements_iff,
          sortedElements_eq_map]
        induction xs generalizing ys with
        | nil => cases ys <;> simp
        | cons x xs ihxs =>
          cases ys with
          | nil => simp
          | cons y ys =>
            rw [List.forall₂_cons, List.map_cons, List.map_cons, List.cons.injEq,
              ih x List.mem_cons_self (hxs x List.mem_cons_self) (hys y List.mem_cons_self),
              ihxs (fun z hz ↦ ih z (List.mem_cons_of_mem x hz))
                (fun z hz ↦ hxs z (List.mem_cons_of_mem x hz))
                (fun z hz ↦ hys z (List.mem_cons_of_mem y hz))]
      | null | bool | num | str | obj | exotic => simp [Same, JsValue.sorted]
  | obj ms ih =>
    cases hv with
    | obj hms hvalues =>
      cases hw with
      | @obj ns hns hvalues' =>
        have hms' : ((sortedMembers ms).map Prod.fst).Nodup := by rwa [keys_sortedMembers]
        have hlength : ∀ ks : List Member, (sortedMembers ks).length = ks.length := fun ks ↦ by
          rw [sortedMembers_eq_map, List.length_map]
        simp only [Same, JsValue.sorted, JsValue.obj.injEq, exists_eq_left', sameMembers_iff]
        constructor
        · rintro ⟨hlen, hmem⟩
          refine sortByKey_eq_of_perm hms' (perm_of_forall_mem hms' ?_ ?_)
          · rw [hlength, hlength, hlen]
          · rintro ⟨key, x⟩ hx
            obtain ⟨v, hv, rfl⟩ := mem_sortedMembers.mp hx
            obtain ⟨w, hw, hsame⟩ := hmem (key, v) hv
            have heq := (ih (key, v) hv (hvalues _ hv) (hvalues' (key, w) hw)).mp hsame
            exact mem_sortedMembers.mpr ⟨w, hw, heq.symm⟩
        · intro hsorted
          have hperm : (sortedMembers ms).Perm (sortedMembers ns) :=
            (sortByKey_perm _).symm.trans (hsorted ▸ sortByKey_perm (sortedMembers ns))
          refine ⟨?_, ?_⟩
          · rw [← hlength ms, ← hlength ns, hperm.length_eq]
          · rintro ⟨key, v⟩ hv
            obtain ⟨w, hw, heq⟩ := mem_sortedMembers.mp
              (hperm.mem_iff.mp (mem_sortedMembers.mpr ⟨v, hv, rfl⟩))
            exact ⟨w, hw, (ih (key, v) hv (hvalues _ hv) (hvalues' (key, w) hw)).mpr heq.symm⟩
      | null | bool | num | str | arr | exotic => simp [Same, JsValue.sorted]

end Foundation.Json
