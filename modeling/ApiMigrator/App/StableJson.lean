import ApiMigrator.Foundation.CanonicalForm
import ApiMigrator.Foundation.Pattern

/-!
`stableStringify` of `repository.ts`, which the identity of a previewed result is computed over. It
writes any value: what JSON cannot say becomes `null`, and `-0` becomes `0`. Apart from this a text
tells its value, and no text with something after it is the text of another value.
-/

set_option autoImplicit false
set_option relaxedAutoImplicit false

namespace ApiMigrator.App.StableJson

open Foundation.Text Foundation.Number Foundation.Json Foundation.Pattern

/-! ### Numbers -/

/-- A character of a number: a digit or one of `-+.e`. -/
def isNumberUnit (c : UInt16) : Bool := isDigit c || decide (c ∈ js "-+.e")

/-- The number that a number is read back as; none for what is written `null`. -/
def finite : JsNumber → Option JsNumber
  | .int i => some (.int i)
  | .negZero => some (.int 0)
  | .fraction negative numerator exponent => some (.fraction negative numerator exponent)
  | .infinite _ => none
  | .nan => none

theorem finite_of_finite {n m : JsNumber} (h : finite n = some m) : finite m = some m := by
  cases n <;> cases h <;> rfl

/-- How the language writes the finite numbers other than `-0`: with the characters of numbers, the
first of them a digit or a minus, and different numbers differently. -/
structure NumberText where
  text : JsNumber → JsString
  units : ∀ n, finite n = some n → ∀ c ∈ text n, isNumberUnit c = true
  start : ∀ n, finite n = some n →
    ∃ c rest, text n = c :: rest ∧ (isDigit c || decide (c = 0x2d)) = true
  injective : ∀ n m, finite n = some n → finite m = some m → text n = text m → n = m

variable (T : NumberText)

/-! ### Texts -/

mutual

def stableStringify : JsValue → JsString
  | .null => js "null"
  | .bool true => js "true"
  | .bool false => js "false"
  | .num n =>
    match finite n with
    | some m => T.text m
    | none => js "null"
  | .str s => quote s
  | .arr xs => 0x5b :: joinComma (stableElements xs) ++ [0x5d]
  | .obj ms =>
    0x7b :: joinComma ((sortByKey (stableMembers ms)).map fun m ↦ memberText m.1 m.2) ++ [0x7d]
  | .exotic _ => js "null"

def stableElements : List JsValue → List JsString
  | [] => []
  | x :: xs => stableStringify x :: stableElements xs

def stableMembers : List Member → List (JsString × JsString)
  | [] => []
  | (key, v) :: ms => (key, stableStringify v) :: stableMembers ms

end

mutual

/-- What the text of a value says: the value with its members in order, and `null` or `0` for what
the text does not tell. -/
def settle : JsValue → JsValue
  | .null => .null
  | .bool b => .bool b
  | .num n =>
    match finite n with
    | some m => .num m
    | none => .null
  | .str s => .str s
  | .arr xs => .arr (settleElements xs)
  | .obj ms => .obj (sortByKey (settleMembers ms))
  | .exotic _ => .null

def settleElements : List JsValue → List JsValue
  | [] => []
  | x :: xs => settle x :: settleElements xs

def settleMembers : List Member → List Member
  | [] => []
  | (key, v) :: ms => (key, settle v) :: settleMembers ms

end

theorem stableElements_eq_map (xs : List JsValue) :
    stableElements T xs = xs.map (stableStringify T) := by
  induction xs with
  | nil => rfl
  | cons x xs ih => rw [stableElements, ih, List.map_cons]

theorem stableMembers_eq_map (ms : List Member) :
    stableMembers T ms = ms.map fun m ↦ (m.1, stableStringify T m.2) := by
  induction ms with
  | nil => rfl
  | cons m ms ih => rw [stableMembers, ih, List.map_cons]

theorem settleElements_eq_map (xs : List JsValue) : settleElements xs = xs.map settle := by
  induction xs with
  | nil => rfl
  | cons x xs ih => rw [settleElements, ih, List.map_cons]

theorem settleMembers_eq_map (ms : List Member) :
    settleMembers ms = ms.map fun m ↦ (m.1, settle m.2) := by
  induction ms with
  | nil => rfl
  | cons m ms ih => rw [settleMembers, ih, List.map_cons]

theorem stableStringify_arr (xs : List JsValue) : stableStringify T (.arr xs) =
    0x5b :: joinComma (xs.map (stableStringify T)) ++ [0x5d] := by
  rw [stableStringify, stableElements_eq_map]

theorem stableStringify_obj (ms : List Member) : stableStringify T (.obj ms) =
    0x7b :: joinComma ((sortByKey ms).map fun m ↦ memberText m.1 (stableStringify T m.2)) ++
      [0x7d] := by
  rw [stableStringify, stableMembers_eq_map,
    sortByKey_map (fun m : Member ↦ (m.1, stableStringify T m.2)) fun _ ↦ rfl, List.map_map]
  rfl

theorem settle_obj (ms : List Member) :
    settle (.obj ms) = .obj ((sortByKey ms).map fun m ↦ (m.1, settle m.2)) := by
  rw [settle, settleMembers_eq_map,
    sortByKey_map (fun m : Member ↦ (m.1, settle m.2)) fun _ ↦ rfl]

/-! ### First characters -/

/-- The kind of text a value has. -/
inductive Kind
  | null
  | true
  | false
  | number
  | string
  | array
  | object
  | other
  deriving DecidableEq

def kindOf : JsValue → Kind
  | .null => .null
  | .bool true => .true
  | .bool false => .false
  | .num n => if (finite n).isSome then .number else .null
  | .str _ => .string
  | .arr _ => .array
  | .obj _ => .object
  | .exotic _ => .null

def kindOfUnit (c : UInt16) : Kind :=
  if c = 0x6e then .null
  else if c = 0x74 then .true
  else if c = 0x66 then .false
  else if c = 0x22 then .string
  else if c = 0x5b then .array
  else if c = 0x7b then .object
  else if isDigit c || decide (c = 0x2d) then .number
  else .other

private theorem kindOfUnit_number {c : UInt16} (hc : (isDigit c || decide (c = 0x2d)) = true) :
    kindOfUnit c = .number := by
  have hne : c ≠ 0x6e ∧ c ≠ 0x74 ∧ c ≠ 0x66 ∧ c ≠ 0x22 ∧ c ≠ 0x5b ∧ c ≠ 0x7b := by
    refine ⟨?_, ?_, ?_, ?_, ?_, ?_⟩ <;>
      (rintro rfl; revert hc; decide)
  obtain ⟨h1, h2, h3, h4, h5, h6⟩ := hne
  simp only [kindOfUnit, if_neg h1, if_neg h2, if_neg h3, if_neg h4, if_neg h5, if_neg h6,
    if_pos hc]

/-- The first character of a text tells its kind. -/
theorem stableStringify_cons (v : JsValue) :
    ∃ c rest, stableStringify T v = c :: rest ∧ kindOfUnit c = kindOf v := by
  cases v with
  | null => exact ⟨_, _, rfl, by decide⟩
  | bool b => cases b <;> exact ⟨_, _, rfl, by decide⟩
  | str s => exact ⟨_, _, rfl, rfl⟩
  | arr xs => exact ⟨_, _, rfl, rfl⟩
  | obj ms => exact ⟨_, _, rfl, rfl⟩
  | exotic kind => exact ⟨_, _, rfl, rfl⟩
  | num n =>
    cases hn : finite n with
    | none => exact ⟨0x6e, _, by simp only [stableStringify, hn]; rfl, by simp [kindOf, hn]; decide⟩
    | some m =>
      obtain ⟨c, rest, htext, hc⟩ := T.start m (finite_of_finite hn)
      exact ⟨c, rest, by simp only [stableStringify, hn, htext],
        by rw [kindOfUnit_number hc]; simp [kindOf, hn]⟩

/-- What follows a text does not go on with a number. -/
def Ends (r : JsString) : Prop := ∀ c rest, r = c :: rest → isNumberUnit c = false

theorem ends_nil : Ends [] := fun _ _ h ↦ nomatch h

theorem ends_cons {c : UInt16} (hc : isNumberUnit c = false) (rest : JsString) :
    Ends (c :: rest) := by
  rintro _ _ ⟨⟩
  exact hc

private theorem kindOf_eq {v w : JsValue} {r s : JsString}
    (h : stableStringify T v ++ r = stableStringify T w ++ s) : kindOf v = kindOf w := by
  obtain ⟨c, rest, hv, hc⟩ := stableStringify_cons T v
  obtain ⟨d, rest', hw, hd⟩ := stableStringify_cons T w
  rw [hv, hw, List.cons_append, List.cons_append, List.cons.injEq] at h
  rw [← hc, ← hd, h.1]

/-! ### Reading back -/

private theorem of_kind_null {v : JsValue} (h : kindOf v = .null) :
    stableStringify T v = js "null" ∧ settle v = .null := by
  cases v with
  | null => exact ⟨rfl, rfl⟩
  | exotic kind => exact ⟨rfl, rfl⟩
  | bool b => cases b <;> cases h
  | num n => cases hn : finite n <;> simp_all [kindOf, stableStringify, settle]
  | str | arr | obj => cases h

private theorem of_kind_number {v : JsValue} (h : kindOf v = .number) :
    ∃ n, finite n = some n ∧ stableStringify T v = T.text n ∧ settle v = .num n := by
  cases v with
  | num n =>
    cases hn : finite n with
    | none => simp [kindOf, hn] at h
    | some m =>
      exact ⟨m, finite_of_finite hn, by simp only [stableStringify, hn], by simp only [settle, hn]⟩
  | bool b => cases b <;> cases h
  | null | str | arr | obj | exotic => cases h

private theorem number_readable {n m : JsNumber} (hn : finite n = some n) (hm : finite m = some m)
    {r s : JsString} (hr : Ends r) (hs : Ends s) (h : T.text n ++ r = T.text m ++ s) :
    n = m ∧ r = s := by
  have htake : ∀ k, finite k = some k → ∀ q, Ends q →
      (T.text k ++ q).takeWhile isNumberUnit = T.text k := by
    intro k hk q hq
    rw [List.takeWhile_append_of_pos (T.units k hk)]
    cases q with
    | nil => simp
    | cons c q => rw [List.takeWhile_cons_of_neg (by simp [hq c q rfl]), List.append_nil]
  have htext : T.text n = T.text m := by rw [← htake n hn r hr, h, htake m hm s hs]
  rw [htext] at h
  exact ⟨T.injective n m hn hm htext, List.append_cancel_left h⟩

private theorem quote_readable {s t r q : JsString} (h : quote s ++ r = quote t ++ q) :
    s = t ∧ r = q := by
  simp only [quote, List.cons_append, List.append_assoc, List.nil_append, List.cons.injEq,
    true_and] at h
  have hread := congrArg parseString h
  rw [parseString_quoteUnits, parseString_quoteUnits] at hread
  exact Prod.mk.inj (Option.some.inj hread)

/-- What comes after the first of some texts between commas. -/
private def following (close : UInt16) (ts : List JsString) (r : JsString) : JsString :=
  match ts with
  | [] => close :: r
  | _ => 0x2c :: (joinComma ts ++ close :: r)

private theorem joinComma_cons (close : UInt16) (t : JsString) (ts : List JsString) (r : JsString) :
    joinComma (t :: ts) ++ close :: r = t ++ following close ts r := by
  cases ts with
  | nil => rfl
  | cons u us => simp [joinComma, following]

private theorem ends_following {close : UInt16} (hclose : isNumberUnit close = false)
    (ts : List JsString) (r : JsString) : Ends (following close ts r) := by
  cases ts with
  | nil => exact ends_cons hclose r
  | cons t ts => exact ends_cons (by decide) _

/-- Texts between commas can be told apart when each of them can. -/
theorem joinComma_readable {α β : Type} {f : α → JsString} {g : α → β} {close : UInt16}
    (hclose : isNumberUnit close = false) (hcomma : close ≠ 0x2c)
    (hstart : ∀ x, ∃ c rest, f x = c :: rest ∧ c ≠ close) {xs : List α} :
    ∀ {ys : List α} {r s : JsString},
      (∀ x ∈ xs, ∀ y ∈ ys, ∀ r s, Ends r → Ends s → f x ++ r = f y ++ s → g x = g y ∧ r = s) →
      joinComma (xs.map f) ++ close :: r = joinComma (ys.map f) ++ close :: s →
        xs.map g = ys.map g ∧ r = s := by
  induction xs with
  | nil =>
    intro ys r s _ h
    cases ys with
    | nil => exact ⟨rfl, (List.cons.inj h).2⟩
    | cons y ys =>
      obtain ⟨c, rest, hc, hne⟩ := hstart y
      rw [List.map_cons, joinComma_cons, hc] at h
      exact absurd (List.cons.inj h).1.symm hne
  | cons x xs ih =>
    intro ys r s hf h
    cases ys with
    | nil =>
      obtain ⟨c, rest, hc, hne⟩ := hstart x
      rw [List.map_cons, joinComma_cons, hc] at h
      exact absurd (List.cons.inj h).1 hne
    | cons y ys =>
      rw [List.map_cons, List.map_cons, joinComma_cons, joinComma_cons] at h
      obtain ⟨hvalue, hrest⟩ := hf x List.mem_cons_self y List.mem_cons_self _ _
        (ends_following hclose _ r) (ends_following hclose _ s) h
      have hf' : ∀ a ∈ xs, ∀ b ∈ ys, ∀ r s, Ends r → Ends s → f a ++ r = f b ++ s →
          g a = g b ∧ r = s :=
        fun a ha b hb ↦ hf a (List.mem_cons_of_mem x ha) b (List.mem_cons_of_mem y hb)
      cases xs with
      | nil =>
        cases ys with
        | nil => exact ⟨by simp [hvalue], (List.cons.inj hrest).2⟩
        | cons b ys => exact absurd (List.cons.inj hrest).1 hcomma
      | cons a xs =>
        cases ys with
        | nil => exact absurd (List.cons.inj hrest).1.symm hcomma
        | cons b ys =>
          obtain ⟨hvalues, hend⟩ := ih hf' (List.cons.inj hrest).2
          exact ⟨by rw [List.map_cons, List.map_cons (l := b :: ys), hvalue, hvalues], hend⟩

/-- **The text of a value can be read back**, whatever follows it. -/
theorem stableStringify_readable (v : JsValue) : ∀ (w : JsValue) (r s : JsString), Ends r →
    Ends s → stableStringify T v ++ r = stableStringify T w ++ s → settle v = settle w ∧ r = s := by
  induction v using JsValue.induct with
  | arr xs ih =>
    intro w r s _ _ h
    have hkind := kindOf_eq T h
    cases w with
    | arr ys =>
      simp only [stableStringify_arr, List.cons_append, List.append_assoc, List.nil_append,
        List.cons.injEq, true_and] at h
      have hstart : ∀ x, ∃ c rest, stableStringify T x = c :: rest ∧ c ≠ 0x5d := by
        intro x
        obtain ⟨c, rest, hx, hc⟩ := stableStringify_cons T x
        refine ⟨c, rest, hx, ?_⟩
        rintro rfl
        have hother : kindOf x ≠ .other := by
          cases x with
          | num n => cases hn : finite n <;> simp [kindOf, hn]
          | bool b => cases b <;> simp [kindOf]
          | null | str | arr | obj | exotic => simp [kindOf]
        exact hother (hc.symm.trans (by decide))
      obtain ⟨hvalues, hend⟩ := joinComma_readable (g := settle) (by decide) (by decide) hstart
        (fun x hx y _ ↦ ih x hx y) h
      exact ⟨by rw [settle, settle, settleElements_eq_map, settleElements_eq_map, hvalues], hend⟩
    | num n => cases hn : finite n <;> simp [kindOf, hn] at hkind
    | bool b => cases b <;> cases hkind
    | null | str | obj | exotic => cases hkind
  | obj ms ih =>
    intro w r s _ _ h
    have hkind := kindOf_eq T h
    cases w with
    | obj ns =>
      simp only [stableStringify_obj, List.cons_append, List.append_assoc, List.nil_append,
        List.cons.injEq, true_and] at h
      have hstart : ∀ m : Member, ∃ c rest,
          memberText m.1 (stableStringify T m.2) = c :: rest ∧ c ≠ 0x7d :=
        fun m ↦ ⟨0x22, _, rfl, by decide⟩
      have hmember : ∀ m ∈ sortByKey ms, ∀ n ∈ sortByKey ns, ∀ r s, Ends r → Ends s →
          memberText m.1 (stableStringify T m.2) ++ r =
            memberText n.1 (stableStringify T n.2) ++ s →
          (m.1, settle m.2) = (n.1, settle n.2) ∧ r = s := by
        intro m hm n _ r s hr hs h
        simp only [memberText, List.append_assoc, List.cons_append] at h
        obtain ⟨hkey, hrest⟩ := quote_readable h
        obtain ⟨hvalue, hend⟩ :=
          ih m (mem_sortByKey.mp hm) n.2 r s hr hs (List.cons.inj hrest).2
        exact ⟨by rw [hkey, hvalue], hend⟩
      obtain ⟨hvalues, hend⟩ := joinComma_readable (g := fun m : Member ↦ (m.1, settle m.2))
        (by decide) (by decide) hstart hmember h
      exact ⟨by rw [settle_obj, settle_obj, hvalues], hend⟩
    | num n => cases hn : finite n <;> simp [kindOf, hn] at hkind
    | bool b => cases b <;> cases hkind
    | null | str | arr | exotic => cases hkind
  | str t =>
    intro w r s _ _ h
    have hkind := kindOf_eq T h
    cases w with
    | str u =>
      obtain ⟨rfl, hend⟩ := quote_readable h
      exact ⟨rfl, hend⟩
    | num n => cases hn : finite n <;> simp [kindOf, hn] at hkind
    | bool b => cases b <;> cases hkind
    | null | arr | obj | exotic => cases hkind
  | bool b =>
    intro w r s _ _ h
    have hkind := kindOf_eq T h
    cases w with
    | bool b' =>
      cases b <;> cases b' <;> first | exact ⟨rfl, List.append_cancel_left h⟩ | cases hkind
    | num n => cases hn : finite n <;> cases b <;> simp [kindOf, hn] at hkind
    | null | str | arr | obj | exotic => cases b <;> cases hkind
  | num n =>
    intro w r s hr hs h
    have hkind := kindOf_eq T h
    cases hn : finite n with
    | none =>
      have hv : kindOf (.num n) = .null := by simp [kindOf, hn]
      obtain ⟨htext, hsettle⟩ := of_kind_null T hv
      obtain ⟨htext', hsettle'⟩ := of_kind_null T (hkind.symm.trans hv)
      rw [htext, htext'] at h
      exact ⟨hsettle.trans hsettle'.symm, List.append_cancel_left h⟩
    | some m =>
      have hv : kindOf (.num n) = .number := by simp [kindOf, hn]
      obtain ⟨k, hk, htext, hsettle⟩ := of_kind_number T hv
      obtain ⟨k', hk', htext', hsettle'⟩ := of_kind_number T (hkind.symm.trans hv)
      rw [htext, htext'] at h
      obtain ⟨rfl, hend⟩ := number_readable T hk hk' hr hs h
      exact ⟨hsettle.trans hsettle'.symm, hend⟩
  | null =>
    intro w r s _ _ h
    obtain ⟨htext, hsettle⟩ := of_kind_null T (kindOf_eq T h).symm
    rw [htext] at h
    exact ⟨hsettle.symm, List.append_cancel_left h⟩
  | exotic kind =>
    intro w r s _ _ h
    obtain ⟨htext, hsettle⟩ := of_kind_null T (kindOf_eq T h).symm
    rw [htext] at h
    exact ⟨hsettle.symm, List.append_cancel_left h⟩

/-- Values with one text say the same. -/
theorem settle_eq_of_stableStringify_eq {v w : JsValue}
    (h : stableStringify T v = stableStringify T w) : settle v = settle w :=
  (stableStringify_readable T v w [] [] ends_nil ends_nil (by rw [h])).1

/-! ### Bytes -/

private theorem isSurrogate_of_isNumberUnit {c : UInt16} (hc : isNumberUnit c = true) :
    isSurrogate c = false := by
  have hothers : ∀ d ∈ js "-+.e", isSurrogate d = false := forall_mem_of_all (by decide)
  rw [isNumberUnit, Bool.or_eq_true, decide_eq_true_eq] at hc
  rcases hc with hc | hc
  · simp only [isDigit, decide_eq_true_eq] at hc
    simp only [isSurrogate, isHighSurrogate, isLowSurrogate, Bool.or_eq_false_iff,
      decide_eq_false_iff_not]
    omega
  · exact hothers c hc

/-- A text has no unpaired surrogates, whatever strings the value holds. -/
theorem isWellFormed_stableStringify (v : JsValue) : isWellFormed (stableStringify T v) = true := by
  induction v using JsValue.induct with
  | null => exact isWellFormed_js "null"
  | bool b => cases b <;> exact isWellFormed_js _
  | num n =>
    rw [stableStringify]
    split
    · rename_i m hm
      exact isWellFormed_of_forall fun c hc ↦
        isSurrogate_of_isNumberUnit (T.units m (finite_of_finite hm) c hc)
    · exact isWellFormed_js "null"
  | str s => exact isWellFormed_quote s
  | exotic kind => exact isWellFormed_js "null"
  | arr xs ih =>
    rw [stableStringify_arr]
    refine isWellFormed_wrapped (isWellFormed_joinComma fun t ht ↦ ?_) (by decide) (by decide)
    obtain ⟨x, hx, rfl⟩ := List.mem_map.mp ht
    exact ih x hx
  | obj ms ih =>
    rw [stableStringify_obj]
    refine isWellFormed_wrapped (isWellFormed_joinComma fun t ht ↦ ?_) (by decide) (by decide)
    obtain ⟨m, hm, rfl⟩ := List.mem_map.mp ht
    rw [memberText, isWellFormed_append (isWellFormed_quote _), isWellFormed_cons (by decide)]
    exact ih m (mem_sortByKey.mp hm)

theorem settle_eq_of_bytes_eq {v w : JsValue}
    (h : utf8Encode (stableStringify T v) = utf8Encode (stableStringify T w)) :
    settle v = settle w :=
  settle_eq_of_stableStringify_eq T (utf8Encode_injective (isWellFormed_stableStringify T v)
    (isWellFormed_stableStringify T w) h)

/-! ### Reading members -/

/-- Objects that say the same say the same under every key. -/
theorem settle_getMember {ms ns : List Member} (hms : (ms.map Prod.fst).Nodup)
    (hns : (ns.map Prod.fst).Nodup) (h : settle (.obj ms) = settle (.obj ns)) {key : JsString}
    (hkey : key ∈ ms.map Prod.fst) :
    key ∈ ns.map Prod.fst ∧ settle (getMember ms key) = settle (getMember ns key) := by
  rw [settle_obj, settle_obj, JsValue.obj.injEq] at h
  obtain ⟨m, hm, rfl⟩ := List.mem_map.mp hkey
  have hmem : (m.1, settle m.2) ∈ (sortByKey ns).map fun n ↦ (n.1, settle n.2) :=
    h ▸ List.mem_map_of_mem (f := fun n : Member ↦ (n.1, settle n.2)) (mem_sortByKey.mpr hm)
  obtain ⟨n, hn, heq⟩ := List.mem_map.mp hmem
  obtain ⟨hfst, hsnd⟩ := Prod.mk.inj heq
  have hn' := mem_sortByKey.mp hn
  refine ⟨hfst ▸ List.mem_map_of_mem hn', ?_⟩
  rw [getMember_of_mem hms hm, ← hfst, getMember_of_mem hns hn', hsnd]

end ApiMigrator.App.StableJson
