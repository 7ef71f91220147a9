import ApiMigrator.Foundation.CanonicalForm
import ApiMigrator.Foundation.Outcome

/-!
Encoders of canonical JSON. A `Dialect` is what one encoder says about the values it refuses and
the order in which it looks at the members of an object. Whatever it says, an encoder writes a
value exactly when the value is interoperable, and then the compact text of the representative; a
text is some value's encoding exactly when the value it parses to encodes to that very text.
-/

set_option autoImplicit false
set_option relaxedAutoImplicit false

namespace Foundation.Json

open Text Number Outcome

/-! ### What the parser builds -/

private theorem keys_setMember_of_mem {members : List Member} {key : JsString} (v : JsValue)
    (hkey : key ∈ members.map Prod.fst) :
    (setMember members key v).map Prod.fst = members.map Prod.fst := by
  rw [setMember, if_pos hkey, List.map_map]
  refine List.map_congr_left fun m _ ↦ ?_
  simp only [Function.comp_apply]
  split_ifs with hm
  · exact hm.symm
  · rfl

theorem nodup_keys_setMember {members : List Member} (hkeys : (members.map Prod.fst).Nodup)
    (key : JsString) (v : JsValue) : ((setMember members key v).map Prod.fst).Nodup := by
  by_cases hkey : key ∈ members.map Prod.fst
  · rwa [keys_setMember_of_mem v hkey]
  · rw [setMember, if_neg hkey, List.map_append, List.nodup_append]
    refine ⟨hkeys, List.nodup_singleton _, ?_⟩
    rintro a ha b hb rfl
    rw [List.map_singleton, List.mem_singleton] at hb
    obtain rfl : a = key := hb
    exact hkey ha

theorem mem_setMember {members : List Member} {key : JsString} {v : JsValue} {m : Member}
    (hm : m ∈ setMember members key v) : m ∈ members ∨ m = (key, v) := by
  rw [setMember] at hm
  split_ifs at hm with hkey
  · obtain ⟨n, hn, rfl⟩ := List.mem_map.mp hm
    split_ifs
    · exact Or.inr rfl
    · exact Or.inl hn
  · simpa using hm

/-- With this much fuel the parsers build values with distinct keys, given that what they have
read already has distinct keys. -/
private structure Builds (fuel : ℕ) : Prop where
  value : ∀ t v r, parseValue fuel t = some (v, r) → DistinctKeys v
  elements : ∀ before t v r, (∀ x ∈ before, DistinctKeys x) →
    parseElements fuel before t = some (v, r) → DistinctKeys v
  members : ∀ before t v r, (before.map Prod.fst).Nodup → (∀ m ∈ before, DistinctKeys m.2) →
    parseMembers fuel before t = some (v, r) → DistinctKeys v

private theorem Builds.value_succ {fuel : ℕ} (hfuel : Builds fuel) {t : JsString} {v : JsValue}
    {r : JsString} (h : parseValue (fuel + 1) t = some (v, r)) : DistinctKeys v := by
  rw [parseValue.eq_def] at h
  simp only at h
  split at h
  · cases h
  · split_ifs at h
    · obtain ⟨p, -, hp⟩ := Option.map_eq_some_iff.mp h
      exact (Prod.mk.inj hp).1 ▸ .str p.1
    · split at h
      · cases h
      · split_ifs at h
        · cases h
          exact .arr fun x hx ↦ absurd hx List.not_mem_nil
        · exact hfuel.elements _ _ _ _ (fun x hx ↦ absurd hx List.not_mem_nil) h
    · split at h
      · cases h
      · split_ifs at h
        · cases h
          exact .obj List.nodup_nil fun x hx ↦ absurd hx List.not_mem_nil
        · exact hfuel.members [] _ _ _ List.nodup_nil (fun x hx ↦ absurd hx List.not_mem_nil) h
    · obtain ⟨p, -, hp⟩ := Option.map_eq_some_iff.mp h
      exact (Prod.mk.inj hp).1 ▸ .null
    · obtain ⟨p, -, hp⟩ := Option.map_eq_some_iff.mp h
      exact (Prod.mk.inj hp).1 ▸ .bool true
    · obtain ⟨p, -, hp⟩ := Option.map_eq_some_iff.mp h
      exact (Prod.mk.inj hp).1 ▸ .bool false
    · obtain ⟨p, -, hp⟩ := Option.map_eq_some_iff.mp h
      exact (Prod.mk.inj hp).1 ▸ .num p.1

private theorem Builds.elements_succ {fuel : ℕ} (hfuel : Builds fuel) {before : List JsValue}
    (hbefore : ∀ x ∈ before, DistinctKeys x) {t : JsString} {v : JsValue} {r : JsString}
    (h : parseElements (fuel + 1) before t = some (v, r)) : DistinctKeys v := by
  rw [parseElements] at h
  split at h
  · cases h
  · rename_i x s hx
    have hnext : ∀ y ∈ before ++ [x], DistinctKeys y := by
      intro y hy
      rcases List.mem_append.mp hy with hy | hy
      · exact hbefore y hy
      · exact List.mem_singleton.mp hy ▸ hfuel.value _ _ _ hx
    split at h
    · cases h
    · split_ifs at h
      · exact hfuel.elements _ _ _ _ hnext h
      · cases h
        exact .arr hnext

private theorem Builds.members_succ {fuel : ℕ} (hfuel : Builds fuel) {before : List Member}
    (hkeys : (before.map Prod.fst).Nodup) (hbefore : ∀ m ∈ before, DistinctKeys m.2)
    {t : JsString} {v : JsValue} {r : JsString}
    (h : parseMembers (fuel + 1) before t = some (v, r)) : DistinctKeys v := by
  rw [parseMembers] at h
  split at h
  · cases h
  · split_ifs at h
    split at h
    · cases h
    · rename_i key _ _
      split at h
      · cases h
      · split_ifs at h
        split at h
        · cases h
        · rename_i x s hx
          have hnext : ∀ m ∈ setMember before key x, DistinctKeys m.2 := by
            intro m hm
            rcases mem_setMember hm with hm | rfl
            · exact hbefore m hm
            · exact hfuel.value _ _ _ hx
          split at h
          · cases h
          · split_ifs at h
            · exact hfuel.members _ _ _ _ (nodup_keys_setMember hkeys key x) hnext h
            · cases h
              exact .obj (nodup_keys_setMember hkeys key x) hnext

private theorem builds (fuel : ℕ) : Builds fuel := by
  induction fuel with
  | zero =>
    exact {
      value := fun _ _ _ h ↦ by cases h
      elements := fun _ _ _ _ _ h ↦ by cases h
      members := fun _ _ _ _ _ _ h ↦ by cases h }
  | succ fuel ih =>
    exact {
      value := fun _ _ _ ↦ ih.value_succ
      elements := fun _ _ _ _ hbefore ↦ ih.elements_succ hbefore
      members := fun _ _ _ _ hkeys hbefore ↦ ih.members_succ hkeys hbefore }

theorem distinctKeys_of_jsonParse {t : JsString} {v : JsValue} (h : jsonParse t = some v) :
    DistinctKeys v := by
  rw [jsonParse] at h
  split at h
  · cases h
  · rename_i w rest hparse
    split_ifs at h
    cases h
    exact (builds _).value _ _ _ hparse

/-! ### Encoders -/

/-- A member that cannot be read as data: it has a getter, or its value is `undefined`. -/
def JsValue.isHole : JsValue → Bool
  | .exotic .undefined => true
  | .exotic .accessor => true
  | _ => false

/-- A member with the text of its value, or the refusal of that value. -/
abbrev Encoded := JsString × JsValue × Except String JsString

/-- How an encoder speaks: its check of a string, its words for what it refuses, and its pass over
the sorted members. It may word and order its refusals as it likes, but a string passes exactly
when it is well formed, and members pass exactly when keys and values do. -/
structure Dialect where
  checkString : JsString → Except String Unit
  unsafeNumber : String
  refusal : Exotic → String
  memberTexts : List Encoded → Except String (List JsString)
  checkString_eq_ok : ∀ s, checkString s = .ok () ↔ isWellFormed s = true
  memberTexts_eq_ok : ∀ ms ts, memberTexts ms = .ok ts ↔
    List.Forall₂ (fun m t ↦ isWellFormed m.1 = true ∧ m.2.1.isHole = false ∧
      ∃ u, m.2.2 = .ok u ∧ t = memberText m.1 u) ms ts

mutual

/-- Canonical JSON in the words of a dialect. Cycles are `Exotic.cyclic` values. -/
def encodeWith (d : Dialect) : JsValue → Except String JsString
  | .null => .ok (js "null")
  | .str s => do
    d.checkString s
    return quote s
  | .bool b => .ok (if b then js "true" else js "false")
  | .num (.int i) => if isSafe i then .ok (integerText i) else .error d.unsafeNumber
  | .num _ => .error d.unsafeNumber
  | .exotic kind => .error (d.refusal kind)
  | .arr xs => do
    let texts ← encodeElements d xs
    return 0x5b :: joinComma texts ++ [0x5d]
  | .obj ms => do
    reject (ms.any fun m ↦ m.2 matches .exotic .hidden) (d.refusal .hidden)
    let texts ← d.memberTexts (sortByKey (encodeMembers d ms))
    return 0x7b :: joinComma texts ++ [0x7d]

def encodeElements (d : Dialect) : List JsValue → Except String (List JsString)
  | [] => .ok []
  | x :: xs => do
    let text ← encodeWith d x
    let texts ← encodeElements d xs
    return text :: texts

def encodeMembers (d : Dialect) : List Member → List Encoded
  | [] => []
  | (key, v) :: ms => (key, v, encodeWith d v) :: encodeMembers d ms

end

theorem IJson.isHole {v : JsValue} (hv : IJson v) : v.isHole = false := by
  cases hv <;> rfl

theorem encodeElements_eq_mapEach (d : Dialect) (xs : List JsValue) :
    encodeElements d xs = mapEach (encodeWith d) xs := by
  induction xs with
  | nil => rfl
  | cons x xs ih => rw [encodeElements, mapEach, ih]

theorem encodeMembers_eq_map (d : Dialect) (ms : List Member) :
    encodeMembers d ms = ms.map fun m ↦ (m.1, m.2, encodeWith d m.2) := by
  induction ms with
  | nil => rfl
  | cons m ms ih => rw [encodeMembers, ih, List.map_cons]

private theorem encodeElements_eq_ok {d : Dialect} {xs : List JsValue} {ts : List JsString}
    (hxs : ∀ x ∈ xs, ∀ t, encodeWith d x = .ok t ↔ IJson x ∧ t = compactText x.sorted) :
    encodeElements d xs = .ok ts ↔
      (∀ x ∈ xs, IJson x) ∧ ts = elementTexts (sortedElements xs) := by
  rw [encodeElements_eq_mapEach, mapEach_eq_ok, elementTexts_eq_map, sortedElements_eq_map,
    List.map_map]
  induction xs generalizing ts with
  | nil => simp
  | cons x xs ih =>
    rw [List.forall₂_cons_left_iff, List.forall_mem_cons]
    constructor
    · rintro ⟨t, rest, ht, hrest, rfl⟩
      obtain ⟨hx, rfl⟩ := (hxs x List.mem_cons_self t).mp ht
      obtain ⟨hall, rfl⟩ := (ih fun y hy ↦ hxs y (List.mem_cons_of_mem x hy)).mp hrest
      exact ⟨⟨hx, hall⟩, rfl⟩
    · rintro ⟨⟨hx, hall⟩, rfl⟩
      exact ⟨_, _, (hxs x List.mem_cons_self _).mpr ⟨hx, rfl⟩,
        (ih fun y hy ↦ hxs y (List.mem_cons_of_mem x hy)).mpr ⟨hall, rfl⟩, rfl⟩

/-- The members pass when their keys are well formed and their values are interoperable. -/
private theorem memberTexts_eq_ok {d : Dialect} {ms : List Member} {ts : List JsString}
    (hms : ∀ m ∈ ms, ∀ t, encodeWith d m.2 = .ok t ↔ IJson m.2 ∧ t = compactText m.2.sorted) :
    d.memberTexts (encodeMembers d ms) = .ok ts ↔
      (∀ m ∈ ms, isWellFormed m.1 = true ∧ IJson m.2) ∧ ts = memberTexts (sortedMembers ms) := by
  rw [d.memberTexts_eq_ok, encodeMembers_eq_map, memberTexts_eq_map, sortedMembers_eq_map,
    List.map_map]
  induction ms generalizing ts with
  | nil => simp
  | cons m ms ih =>
    rw [List.map_cons, List.forall₂_cons_left_iff, List.forall_mem_cons]
    constructor
    · rintro ⟨t, rest, ⟨hkey, -, u, hu, rfl⟩, hrest, rfl⟩
      obtain ⟨hm, rfl⟩ := (hms m List.mem_cons_self u).mp hu
      obtain ⟨hall, rfl⟩ := (ih fun n hn ↦ hms n (List.mem_cons_of_mem m hn)).mp hrest
      exact ⟨⟨⟨hkey, hm⟩, hall⟩, rfl⟩
    · rintro ⟨⟨⟨hkey, hm⟩, hall⟩, rfl⟩
      exact ⟨_, _, ⟨hkey, hm.isHole, _, (hms m List.mem_cons_self _).mpr ⟨hm, rfl⟩, rfl⟩,
        (ih fun n hn ↦ hms n (List.mem_cons_of_mem m hn)).mpr ⟨hall, rfl⟩, rfl⟩

private theorem sortByKey_encodeMembers (d : Dialect) (ms : List Member) :
    sortByKey (encodeMembers d ms) = encodeMembers d (sortByKey ms) := by
  rw [encodeMembers_eq_map, encodeMembers_eq_map, sortByKey_map]
  exact fun _ ↦ rfl

private theorem no_hidden_of_iJson {ms : List Member} (hms : ∀ m ∈ ms, IJson m.2) :
    ¬ (ms.any fun m ↦ m.2 matches .exotic .hidden) = true := by
  rw [List.any_eq_true]
  rintro ⟨⟨key, v⟩, hm, hhidden⟩
  have hvalue : IJson v := hms _ hm
  cases v with
  | exotic kind => cases hvalue
  | null | bool | num | str | arr | obj => cases hhidden

/-- **An encoder writes the interoperable values and nothing else**, each as the compact text of
its representative. -/
theorem encodeWith_eq_ok (d : Dialect) {v : JsValue} (hv : DistinctKeys v) {t : JsString} :
    encodeWith d v = .ok t ↔ IJson v ∧ t = compactText v.sorted := by
  induction v using JsValue.induct generalizing t with
  | null =>
    simp only [encodeWith, Except.ok.injEq, JsValue.sorted, compactText, IJson.null, true_and,
      eq_comm]
  | bool b =>
    cases b <;>
      simp [encodeWith, JsValue.sorted, compactText, IJson.bool, eq_comm]
  | num n =>
    cases n with
    | int i =>
      simp only [encodeWith, JsValue.sorted, compactText]
      split_ifs with hsafe
      · simp only [Except.ok.injEq, IJson.num hsafe, true_and, eq_comm]
      · constructor
        · intro h
          cases h
        · rintro ⟨hnum, -⟩
          cases hnum with
          | num hsafe' => exact absurd hsafe' hsafe
    | negZero | fraction | infinite | nan =>
      constructor
      · intro h
        cases h
      · rintro ⟨hnum, -⟩
        cases hnum
  | str s =>
    simp only [encodeWith, bind_eq_ok, pure_eq_ok, d.checkString_eq_ok, JsValue.sorted,
      compactText]
    constructor
    · rintro ⟨-, hs, rfl⟩
      exact ⟨.str hs, rfl⟩
    · rintro ⟨hstr, rfl⟩
      cases hstr with
      | str hs => exact ⟨(), hs, rfl⟩
  | exotic kind =>
    constructor
    · intro h
      cases h
    · rintro ⟨hexotic, -⟩
      cases hexotic
  | arr xs ih =>
    cases hv with
    | arr hxs =>
      have helements : ∀ ts, encodeElements d xs = .ok ts ↔
          (∀ x ∈ xs, IJson x) ∧ ts = elementTexts (sortedElements xs) :=
        fun ts ↦ encodeElements_eq_ok fun x hx t ↦ ih x hx (hxs x hx)
      simp only [encodeWith, bind_eq_ok, pure_eq_ok, JsValue.sorted, compactText, helements]
      constructor
      · rintro ⟨-, ⟨hdata, rfl⟩, rfl⟩
        exact ⟨.arr hdata, rfl⟩
      · rintro ⟨harr, rfl⟩
        cases harr with
        | arr hdata => exact ⟨_, ⟨hdata, rfl⟩, rfl⟩
  | obj ms ih =>
    cases hv with
    | obj hkeys hvalues =>
      have hmembers : ∀ ts, d.memberTexts (encodeMembers d (sortByKey ms)) = .ok ts ↔
          (∀ m ∈ sortByKey ms, isWellFormed m.1 = true ∧ IJson m.2) ∧
            ts = memberTexts (sortedMembers (sortByKey ms)) :=
        fun ts ↦ memberTexts_eq_ok fun m hm t ↦
          ih m (mem_sortByKey.mp hm) (hvalues m (mem_sortByKey.mp hm))
      simp only [encodeWith, bind_eq_ok, pure_eq_ok, reject_eq_ok, JsValue.sorted, compactText,
        sortByKey_encodeMembers, sortByKey_sortedMembers, hmembers, mem_sortByKey]
      constructor
      · rintro ⟨-, -, -, ⟨hdata, rfl⟩, rfl⟩
        exact ⟨.obj hkeys (fun m hm ↦ (hdata m hm).1) fun m hm ↦ (hdata m hm).2, rfl⟩
      · rintro ⟨hobj, rfl⟩
        cases hobj with
        | obj _ hunicode hdata =>
          exact ⟨(), no_hidden_of_iJson hdata, _, ⟨fun m hm ↦ ⟨hunicode m hm, hdata m hm⟩, rfl⟩,
            rfl⟩

/-- Members that are all checked before the text of the first one is looked at. -/
def checkedMemberTexts (check : Encoded → Except String Unit) (ms : List Encoded) :
    Except String (List JsString) := do
  forEach check ms
  mapEach (fun m ↦ memberText m.1 <$> m.2.2) ms

theorem checkedMemberTexts_eq_ok {check : Encoded → Except String Unit}
    (hcheck : ∀ m, check m = .ok () ↔ isWellFormed m.1 = true ∧ m.2.1.isHole = false)
    (ms : List Encoded) (ts : List JsString) :
    checkedMemberTexts check ms = .ok ts ↔ List.Forall₂ (fun m t ↦ isWellFormed m.1 = true ∧
      m.2.1.isHole = false ∧ ∃ u, m.2.2 = .ok u ∧ t = memberText m.1 u) ms ts := by
  simp only [checkedMemberTexts, bind_eq_ok, forEach_eq_ok, mapEach_eq_ok, map_eq_ok, exists_unit,
    hcheck]
  induction ms generalizing ts with
  | nil => simp
  | cons m ms ih =>
    simp only [List.forall_mem_cons, List.forall₂_cons_left_iff, ← ih]
    constructor
    · rintro ⟨⟨hm, hms⟩, t, rest, ⟨u, hu, rfl⟩, hrest, rfl⟩
      exact ⟨_, rest, ⟨hm.1, hm.2, u, hu, rfl⟩, ⟨hms, hrest⟩, rfl⟩
    · rintro ⟨t, rest, ⟨hkey, hhole, u, hu, rfl⟩, ⟨hms, hrest⟩, rfl⟩
      exact ⟨⟨⟨hkey, hhole⟩, hms⟩, _, rest, ⟨u, hu, rfl⟩, hrest, rfl⟩

/-- **Exact texts.** A text parses to a value that encodes to that very text exactly when it is
the compact text of an interoperable value with sorted members. -/
theorem jsonParse_encodeWith_iff (d : Dialect) {t : JsString} {v : JsValue} :
    (jsonParse t = some v ∧ encodeWith d v = .ok t) ↔
      IJson v ∧ v.sorted = v ∧ t = compactText v := by
  constructor
  · rintro ⟨hparse, hencode⟩
    obtain ⟨hv, rfl⟩ := (encodeWith_eq_ok d (distinctKeys_of_jsonParse hparse)).mp hencode
    have hsorted : v.sorted = v :=
      Option.some.inj ((jsonParse_compactText hv.sorted).symm.trans hparse)
    exact ⟨hv, hsorted, by rw [hsorted]⟩
  · rintro ⟨hv, hsorted, rfl⟩
    refine ⟨jsonParse_compactText hv, (encodeWith_eq_ok d hv.distinctKeys).mpr ⟨hv, ?_⟩⟩
    rw [hsorted]

end Foundation.Json
