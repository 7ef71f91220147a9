import ApiMigrator.Foundation.Json
import Mathlib.Data.List.Nodup

/-!
The compact text of a JSON value and its reading. A value of the interoperable subset has integer
numbers within the safe range, strings without unpaired surrogates and distinct keys; its compact
text parses back to the very same value.
-/

set_option autoImplicit false
set_option relaxedAutoImplicit false

namespace Foundation.Json

open Text Number

/-- Induction over a value, with the hypothesis for every element and every member. -/
@[elab_as_elim]
theorem JsValue.induct {motive : JsValue → Prop} (null : motive .null)
    (bool : ∀ b, motive (.bool b)) (num : ∀ n, motive (.num n)) (str : ∀ s, motive (.str s))
    (arr : ∀ xs, (∀ x ∈ xs, motive x) → motive (.arr xs))
    (obj : ∀ ms, (∀ m ∈ ms, motive m.2) → motive (.obj ms))
    (exotic : ∀ kind, motive (.exotic kind))
    (v : JsValue) : motive v :=
  @JsValue.rec motive (fun xs ↦ ∀ x ∈ xs, motive x) (fun ms ↦ ∀ m ∈ ms, motive m.2)
    (fun m ↦ motive m.2) null bool num str arr obj exotic
    (fun _ h ↦ absurd h List.not_mem_nil)
    (fun _ _ hx hxs _ hmem ↦ by
      rcases List.mem_cons.mp hmem with rfl | hmem
      · exact hx
      · exact hxs _ hmem)
    (fun _ h ↦ absurd h List.not_mem_nil)
    (fun _ _ hm hms _ hmem ↦ by
      rcases List.mem_cons.mp hmem with rfl | hmem
      · exact hm
      · exact hms _ hmem)
    (fun _ _ h ↦ h) v

/-! ### Strings -/

private theorem hexValue_hexDigit {n : ℕ} (hn : n < 16) : hexValue (hexDigit n) = some n := by
  interval_cases n <;> decide

theorem hexUnit_unicodeEscape (c : UInt16) :
    hexUnit (hexDigit (c.toNat / 0x1000)) (hexDigit (c.toNat / 0x100 % 0x10))
      (hexDigit (c.toNat / 0x10 % 0x10)) (hexDigit (c.toNat % 0x10)) = some c := by
  have hc : c.toNat < 0x10000 := c.toNat_lt
  have hvalue : c.toNat / 0x1000 * 0x1000 + c.toNat / 0x100 % 0x10 * 0x100 +
      c.toNat / 0x10 % 0x10 * 0x10 + c.toNat % 0x10 = c.toNat := by omega
  simp only [hexUnit, hexValue_hexDigit (show c.toNat / 0x1000 < 16 by omega),
    hexValue_hexDigit (show c.toNat / 0x100 % 0x10 < 16 by omega),
    hexValue_hexDigit (show c.toNat / 0x10 % 0x10 < 16 by omega),
    hexValue_hexDigit (show c.toNat % 0x10 < 16 by omega), hvalue, UInt16.ofNat_toNat]

private theorem parseString_cons (c : UInt16) (r : JsString) :
    parseString (c :: r) =
      if c = 0x22 then some ([], r)
      else if c.toNat < 0x20 then none
      else if c = 0x5c then
        match r with
        | [] => none
        | e :: r₁ =>
          if e = 0x75 then
            match r₁ with
            | w :: x :: y :: z :: r₂ =>
              match hexUnit w x y z with
              | some u => prepend u (parseString r₂)
              | none => none
            | _ => none
          else
            match simpleEscape e with
            | some u => prepend u (parseString r₁)
            | none => none
      else prepend c (parseString r) :=
  parseString.eq_def (c :: r)

private theorem parseString_escape {e u : UInt16} (hne : ¬ e = 0x75)
    (hescape : simpleEscape e = some u) (rest : JsString) :
    parseString (0x5c :: e :: rest) = prepend u (parseString rest) := by
  rw [parseString_cons, if_neg (by decide), if_neg (by decide), if_pos rfl]
  simp only [if_neg hne, hescape]

private theorem parseString_unicodeEscape (c : UInt16) (rest : JsString) :
    parseString (unicodeEscape c ++ rest) = prepend c (parseString rest) := by
  simp only [unicodeEscape, List.cons_append, List.nil_append]
  rw [parseString_cons, if_neg (by decide), if_neg (by decide), if_pos rfl]
  simp only [if_true, hexUnit_unicodeEscape]

private theorem parseString_plain {c : UInt16} (hquote : ¬ c = 0x22) (hcontrol : ¬ c.toNat < 0x20)
    (hescape : ¬ c = 0x5c) (rest : JsString) :
    parseString (c :: rest) = prepend c (parseString rest) := by
  rw [parseString_cons, if_neg hquote, if_neg hcontrol, if_neg hescape]

theorem parseString_quoteUnit (c : UInt16) (rest : JsString) :
    parseString (quoteUnit c ++ rest) = prepend c (parseString rest) := by
  unfold quoteUnit
  split_ifs with h1 h2 h3 h4 h5 h6 h7 h8
  · subst h1
    exact parseString_escape (by decide) (by decide) rest
  · subst h2
    exact parseString_escape (by decide) (by decide) rest
  · subst h3
    exact parseString_escape (by decide) (by decide) rest
  · subst h4
    exact parseString_escape (by decide) (by decide) rest
  · subst h5
    exact parseString_escape (by decide) (by decide) rest
  · subst h6
    exact parseString_escape (by decide) (by decide) rest
  · subst h7
    exact parseString_escape (by decide) (by decide) rest
  · exact parseString_unicodeEscape c rest
  · simp only [Bool.or_eq_true, decide_eq_true_eq, not_or] at h8
    exact parseString_plain h6 h8.1.1 h7 rest

private theorem surrogate_plain {c : UInt16} (hc : 0xd800 ≤ c.toNat) (rest : JsString) :
    parseString (c :: rest) = prepend c (parseString rest) := by
  refine parseString_plain ?_ (by omega) ?_ rest <;> rintro rfl <;> revert hc <;> decide

/-- Reading a quoted string gives the string back, and what follows the closing quote. -/
theorem parseString_quoteUnits : ∀ (s rest : JsString),
    parseString (quoteUnits s ++ 0x22 :: rest) = some (s, rest)
  | [], rest => by rw [quoteUnits, List.nil_append, parseString_cons, if_pos rfl]
  | [c], rest => by
    rw [quoteUnits, parseString_quoteUnit, parseString_cons, if_pos rfl]
    rfl
  | c :: d :: s, rest => by
    rw [quoteUnits]
    split_ifs with hpair
    · simp only [isHighSurrogate, isLowSurrogate, Bool.and_eq_true, decide_eq_true_eq] at hpair
      rw [List.cons_append, List.cons_append, surrogate_plain hpair.1.1,
        surrogate_plain (by omega), parseString_quoteUnits s rest]
      rfl
    · rw [List.append_assoc, parseString_quoteUnit, parseString_quoteUnits (d :: s) rest]
      rfl

/-! ### Numbers -/

/-- The text does not go on with a digit, a fraction or an exponent. -/
def EndsNumber (rest : JsString) : Prop :=
  ∀ c ∈ rest.head?, isDigit c = false ∧ c ≠ 0x2e ∧ c ≠ 0x65 ∧ c ≠ 0x45

theorem endsNumber_nil : EndsNumber [] := by
  intro c hc
  simp at hc

theorem endsNumber_cons {c : UInt16} (rest : JsString)
    (hc : isDigit c = false ∧ c ≠ 0x2e ∧ c ≠ 0x65 ∧ c ≠ 0x45) : EndsNumber (c :: rest) := by
  intro d hd
  rw [List.head?_cons, Option.mem_some_iff] at hd
  exact hd ▸ hc

private theorem span_digits {ds rest : JsString} (hds : ∀ c ∈ ds, isDigit c = true)
    (hrest : EndsNumber rest) :
    (ds ++ rest).takeWhile isDigit = ds ∧ (ds ++ rest).dropWhile isDigit = rest := by
  induction ds with
  | nil =>
    cases rest with
    | nil => exact ⟨rfl, rfl⟩
    | cons c rest =>
      have hc := (hrest c rfl).1
      simp [hc]
  | cons d ds ih =>
    obtain ⟨htake, hdrop⟩ := ih fun c hc ↦ hds c (List.mem_cons_of_mem d hc)
    have hd := hds d List.mem_cons_self
    constructor
    · rw [List.cons_append, List.takeWhile_cons_of_pos hd, htake]
    · rw [List.cons_append, List.dropWhile_cons_of_pos hd, hdrop]

private theorem parseIntegerPart_decimalDigits (n : ℕ) {rest : JsString}
    (hrest : EndsNumber rest) :
    parseIntegerPart (decimalDigits n ++ rest) = some (decimalDigits n, rest) := by
  obtain ⟨c, ds, hds⟩ := List.exists_cons_of_ne_nil (decimalDigits_ne_nil n)
  have hdigits : ∀ e ∈ c :: ds, isDigit e = true := fun e he ↦
    isDigit_of_mem_decimalDigits (hds ▸ he)
  rw [hds, List.cons_append, parseIntegerPart]
  split_ifs with hzero hdigit
  · have hnil : ds = [] := decimalDigits_leading (n := n) (by rw [hds, hzero])
    rw [hnil, List.nil_append]
  · rw [← List.cons_append, (span_digits hdigits hrest).1, (span_digits hdigits hrest).2]
  · exact absurd (hdigits c List.mem_cons_self) hdigit

private theorem parseFraction_none {rest : JsString} (hrest : EndsNumber rest) :
    parseFraction rest = some ([], rest) := by
  cases rest with
  | nil => rfl
  | cons c rest => rw [parseFraction, if_neg (hrest c rfl).2.1]

private theorem parseExponent_none {rest : JsString} (hrest : EndsNumber rest) :
    parseExponent rest = some (0, rest) := by
  cases rest with
  | nil => rfl
  | cons c rest =>
    rw [parseExponent.eq_def]
    exact if_neg (not_or.mpr ⟨(hrest c rfl).2.2.1, (hrest c rfl).2.2.2⟩)

private theorem parseMagnitude_decimalDigits (negative : Bool) {n : ℕ} (hn : n < 2 ^ 53)
    {rest : JsString} (hrest : EndsNumber rest) :
    parseMagnitude negative (decimalDigits n ++ rest) = some (signed negative n, rest) := by
  have hliteral : literalValue negative (decimalDigits n) [] 0 = signed negative n := by
    simp only [literalValue, List.length_nil, Nat.cast_zero, sub_zero, le_refl, if_true,
      Int.toNat_zero, pow_zero, mul_one, List.append_nil, digitsValue_decimalDigits,
      toDouble_one hn]
  simp only [parseMagnitude, parseIntegerPart_decimalDigits n hrest, parseFraction_none hrest,
    parseExponent_none hrest, hliteral, Option.bind_eq_bind, Option.bind_some, pure]

private theorem natAbs_lt {i : ℤ} (hi : isSafe i = true) : i.natAbs < 2 ^ 53 := by
  have hbounds := of_decide_eq_true hi
  unfold maxSafeInteger at hbounds
  omega

/-- The first code unit of an integer's text is a minus sign or a digit. -/
theorem integerText_cons (i : ℤ) :
    ∃ c rest, integerText i = c :: rest ∧ (c = 0x2d ∨ isDigit c = true) := by
  unfold integerText
  split_ifs with hneg
  · exact ⟨_, _, rfl, Or.inl rfl⟩
  · obtain ⟨c, ds, hds⟩ := List.exists_cons_of_ne_nil (decimalDigits_ne_nil i.natAbs)
    exact ⟨c, ds, hds, Or.inr (isDigit_of_mem_decimalDigits (n := i.natAbs) (by simp [hds]))⟩

theorem parseNumber_integerText {i : ℤ} (hi : isSafe i = true) {rest : JsString}
    (hrest : EndsNumber rest) :
    parseNumber (integerText i ++ rest) = some (.int i, rest) := by
  unfold integerText
  split_ifs with hneg
  · rw [List.cons_append, parseNumber, if_pos rfl,
      parseMagnitude_decimalDigits true (natAbs_lt hi) hrest, signed, if_pos rfl,
      if_neg (by omega)]
    congr 3
    omega
  · obtain ⟨c, ds, hds⟩ := List.exists_cons_of_ne_nil (decimalDigits_ne_nil i.natAbs)
    have hminus : ¬ c = 0x2d := by
      rintro rfl
      have hdigit := isDigit_of_mem_decimalDigits (n := i.natAbs) (c := 0x2d) (by simp [hds])
      revert hdigit
      decide
    have hnumber := parseMagnitude_decimalDigits false (natAbs_lt hi) hrest
    rw [hds, List.cons_append] at hnumber ⊢
    rw [parseNumber, if_neg hminus, hnumber, signed, if_neg (by decide)]
    congr 3
    omega

/-! ### Compact text -/

/-- Texts separated by commas. -/
def joinComma : List JsString → JsString
  | [] => []
  | [t] => t
  | t :: ts => t ++ 0x2c :: joinComma ts

mutual

/-- The text of a value without whitespace, members in their order. -/
def compactText : JsValue → JsString
  | .null => js "null"
  | .bool true => js "true"
  | .bool false => js "false"
  | .num (.int i) => integerText i
  | .num _ => []
  | .str s => quote s
  | .arr xs => 0x5b :: joinComma (elementTexts xs) ++ [0x5d]
  | .obj ms => 0x7b :: joinComma (memberTexts ms) ++ [0x7d]
  | .exotic _ => []

def elementTexts : List JsValue → List JsString
  | [] => []
  | x :: xs => compactText x :: elementTexts xs

def memberTexts : List Member → List JsString
  | [] => []
  | (key, v) :: ms => (quote key ++ 0x3a :: compactText v) :: memberTexts ms

end

/-- The text of a member whose value has the text `t`. -/
def memberText (key t : JsString) : JsString := quote key ++ 0x3a :: t

theorem elementTexts_eq_map (xs : List JsValue) : elementTexts xs = xs.map compactText := by
  induction xs with
  | nil => rfl
  | cons x xs ih => rw [elementTexts, ih, List.map_cons]

theorem memberTexts_eq_map (ms : List Member) :
    memberTexts ms = ms.map fun m ↦ memberText m.1 (compactText m.2) := by
  induction ms with
  | nil => rfl
  | cons m ms ih => rw [memberTexts, ih, List.map_cons, memberText]

/-- The values that have a text of their own: safe integers other than `-0`, any strings, and
distinct keys, throughout. -/
inductive Plain : JsValue → Prop
  | null : Plain .null
  | bool (b : Bool) : Plain (.bool b)
  | num {i : ℤ} (hsafe : isSafe i = true) : Plain (.num (.int i))
  | str (s : JsString) : Plain (.str s)
  | arr {xs : List JsValue} (hxs : ∀ x ∈ xs, Plain x) : Plain (.arr xs)
  | obj {ms : List Member} (hkeys : (ms.map Prod.fst).Nodup) (hms : ∀ m ∈ ms, Plain m.2) :
    Plain (.obj ms)

/-- The interoperable subset of JSON: safe integers other than `-0`, no unpaired surrogates, and
distinct keys, throughout. -/
inductive IJson : JsValue → Prop
  | null : IJson .null
  | bool (b : Bool) : IJson (.bool b)
  | num {i : ℤ} (hsafe : isSafe i = true) : IJson (.num (.int i))
  | str {s : JsString} (hs : isWellFormed s = true) : IJson (.str s)
  | arr {xs : List JsValue} (hxs : ∀ x ∈ xs, IJson x) : IJson (.arr xs)
  | obj {ms : List Member} (hkeys : (ms.map Prod.fst).Nodup)
      (hunicode : ∀ m ∈ ms, isWellFormed m.1 = true) (hms : ∀ m ∈ ms, IJson m.2) : IJson (.obj ms)

theorem IJson.plain {v : JsValue} (hv : IJson v) : Plain v := by
  induction hv with
  | null => exact .null
  | bool b => exact .bool b
  | num hsafe => exact .num hsafe
  | str _ => exact .str _
  | arr _ ih => exact .arr ih
  | obj hkeys _ _ ih => exact .obj hkeys ih

/-- The first code unit of a value's text decides how it is read. -/
private theorem compactText_cons {v : JsValue} (hv : Plain v) :
    ∃ c rest, compactText v = c :: rest ∧ isWhitespace c = false ∧ c ≠ 0x5d ∧ c ≠ 0x7d := by
  cases hv with
  | null => exact ⟨_, _, rfl, by decide⟩
  | bool b => cases b <;> exact ⟨_, _, rfl, by decide⟩
  | str => exact ⟨_, _, rfl, by decide⟩
  | arr => exact ⟨_, _, rfl, by decide⟩
  | obj => exact ⟨_, _, rfl, by decide⟩
  | @num i _ =>
    obtain ⟨c, rest, htext, hc⟩ := integerText_cons i
    refine ⟨c, rest, by rw [compactText, htext], ?_⟩
    rcases hc with rfl | hc
    · decide
    · refine ⟨?_, ?_, ?_⟩
      · by_contra hspace
        simp only [isWhitespace, Bool.not_eq_false, Bool.or_eq_true, beq_iff_eq] at hspace
        rcases hspace with ((rfl | rfl) | rfl) | rfl <;> revert hc <;> decide
      · rintro rfl
        revert hc
        decide
      · rintro rfl
        revert hc
        decide

theorem compactText_ne_nil {v : JsValue} (hv : IJson v) : compactText v ≠ [] := by
  obtain ⟨c, rest, htext, -⟩ := compactText_cons hv.plain
  rw [htext]
  exact List.cons_ne_nil c rest

private theorem skipWhitespace_cons {c : UInt16} (hc : isWhitespace c = false) (rest : JsString) :
    skipWhitespace (c :: rest) = c :: rest := by
  rw [skipWhitespace, hc, if_neg (by decide)]

/-- The value is read from its text with whatever follows it. -/
private def Reads (v : JsValue) : Prop :=
  Plain v → ∀ fuel rest, 2 * (compactText v).length ≤ fuel → EndsNumber rest →
    parseValue fuel (compactText v ++ rest) = some (v, rest)

private theorem endsNumber_comma (rest : JsString) : EndsNumber (0x2c :: rest) :=
  endsNumber_cons rest (by decide)

private theorem endsNumber_bracket (rest : JsString) : EndsNumber (0x5d :: rest) :=
  endsNumber_cons rest (by decide)

private theorem endsNumber_brace (rest : JsString) : EndsNumber (0x7d :: rest) :=
  endsNumber_cons rest (by decide)

private theorem parseElements_texts {x : JsValue} {xs : List JsValue}
    (hreads : ∀ y ∈ x :: xs, Reads y) (hdata : ∀ y ∈ x :: xs, Plain y) (before : List JsValue)
    (rest : JsString) (fuel : ℕ)
    (hfuel : 2 * (joinComma (elementTexts (x :: xs))).length + 1 ≤ fuel) :
    parseElements fuel before (joinComma (elementTexts (x :: xs)) ++ 0x5d :: rest) =
      some (.arr (before ++ x :: xs), rest) := by
  induction xs generalizing x before fuel with
  | nil =>
    simp only [elementTexts, joinComma] at hfuel ⊢
    obtain ⟨fuel, rfl⟩ : ∃ k, fuel = k + 1 := ⟨fuel - 1, by omega⟩
    rw [parseElements, hreads x List.mem_cons_self (hdata x List.mem_cons_self) fuel
      (0x5d :: rest) (by omega) (endsNumber_bracket rest)]
    simp only [skipWhitespace_cons (show isWhitespace 0x5d = false by decide),
      if_neg (show ¬ (0x5d : UInt16) = 0x2c by decide), if_true]
  | cons y ys ih =>
    simp only [elementTexts, joinComma, List.length_append, List.length_cons] at hfuel ih ⊢
    obtain ⟨fuel, rfl⟩ : ∃ k, fuel = k + 1 := ⟨fuel - 1, by omega⟩
    rw [List.append_assoc, List.cons_append, parseElements,
      hreads x List.mem_cons_self (hdata x List.mem_cons_self) fuel _ (by omega)
        (endsNumber_comma _)]
    simp only [skipWhitespace_cons (show isWhitespace 0x2c = false by decide), if_true]
    rw [ih (fun z hz ↦ hreads z (List.mem_cons_of_mem x hz))
      (fun z hz ↦ hdata z (List.mem_cons_of_mem x hz)) (before ++ [x]) fuel (by omega),
      List.append_assoc, List.singleton_append]

private theorem setMember_fresh {before : List Member} {key : JsString} {v : JsValue}
    (hkey : key ∉ before.map Prod.fst) : setMember before key v = before ++ [(key, v)] :=
  if_neg hkey

private theorem nodup_keys_assoc {before : List Member} {m : Member} {ms : List Member}
    (hkeys : ((before ++ m :: ms).map Prod.fst).Nodup) :
    m.1 ∉ before.map Prod.fst ∧ (((before ++ [m]) ++ ms).map Prod.fst).Nodup := by
  refine ⟨?_, by rwa [List.append_assoc, List.singleton_append]⟩
  rw [List.map_append, List.nodup_append] at hkeys
  intro hmem
  exact hkeys.2.2 m.1 hmem m.1 (by rw [List.map_cons]; exact List.mem_cons_self) rfl

/-- One member: its key, the colon, and its value up to what follows. -/
private theorem parseMembers_step {m : Member} (hreads : Reads m.2) (hdata : Plain m.2)
    (before : List Member) (fuel : ℕ) (hfuel : 2 * (compactText m.2).length ≤ fuel) {c : UInt16}
    (hc : isWhitespace c = false) {rest : JsString} (hends : EndsNumber (c :: rest)) :
    parseMembers (fuel + 1) before (quote m.1 ++ 0x3a :: compactText m.2 ++ c :: rest) =
      if c = 0x2c then parseMembers fuel (setMember before m.1 m.2) rest
      else if c = 0x7d then some (.obj (setMember before m.1 m.2), rest)
      else none := by
  have htext : quote m.1 ++ 0x3a :: compactText m.2 ++ c :: rest =
      0x22 :: (quoteUnits m.1 ++ 0x22 :: 0x3a :: (compactText m.2 ++ c :: rest)) := by
    simp only [quote, List.cons_append, List.append_assoc, List.nil_append]
  rw [htext, parseMembers]
  simp only [skipWhitespace_cons (show isWhitespace 0x22 = false by decide), if_true,
    parseString_quoteUnits, skipWhitespace_cons (show isWhitespace 0x3a = false by decide),
    hreads hdata fuel (c :: rest) hfuel hends, skipWhitespace_cons hc]

private theorem parseMembers_texts {m : Member} {ms : List Member}
    (hreads : ∀ n ∈ m :: ms, Reads n.2) (hdata : ∀ n ∈ m :: ms, Plain n.2) (before : List Member)
    (hkeys : ((before ++ m :: ms).map Prod.fst).Nodup) (rest : JsString) (fuel : ℕ)
    (hfuel : 2 * (joinComma (memberTexts (m :: ms))).length + 1 ≤ fuel) :
    parseMembers fuel before (joinComma (memberTexts (m :: ms)) ++ 0x7d :: rest) =
      some (.obj (before ++ m :: ms), rest) := by
  induction ms generalizing m before fuel with
  | nil =>
    obtain ⟨key, v⟩ := m
    simp only [memberTexts, joinComma, List.length_append, List.length_cons] at hfuel ⊢
    obtain ⟨fuel, rfl⟩ : ∃ k, fuel = k + 1 := ⟨fuel - 1, by omega⟩
    have hvalue : 2 * (compactText v).length ≤ fuel := by omega
    rw [parseMembers_step (hreads _ List.mem_cons_self) (hdata _ List.mem_cons_self) before fuel
      hvalue (by decide) (endsNumber_brace rest),
      if_neg (by decide), if_pos rfl, setMember_fresh (nodup_keys_assoc hkeys).1]
  | cons n ns ih =>
    obtain ⟨key, v⟩ := m
    obtain ⟨hfresh, hkeys'⟩ := nodup_keys_assoc hkeys
    simp only [memberTexts, joinComma, List.length_append, List.length_cons] at hfuel
    obtain ⟨fuel, rfl⟩ : ∃ k, fuel = k + 1 := ⟨fuel - 1, by omega⟩
    have htext : joinComma (memberTexts ((key, v) :: n :: ns)) ++ 0x7d :: rest =
        quote key ++ 0x3a :: compactText v ++
          0x2c :: (joinComma (memberTexts (n :: ns)) ++ 0x7d :: rest) := by
      simp only [memberTexts, joinComma, List.append_assoc, List.cons_append]
    have hvalue : 2 * (compactText v).length ≤ fuel := by omega
    rw [htext, parseMembers_step (hreads _ List.mem_cons_self) (hdata _ List.mem_cons_self) before
      fuel hvalue (by decide) (endsNumber_comma _), if_pos rfl, setMember_fresh hfresh]
    rw [ih (fun k hk ↦ hreads k (List.mem_cons_of_mem _ hk))
      (fun k hk ↦ hdata k (List.mem_cons_of_mem _ hk)) (before ++ [(key, v)]) hkeys' fuel
      (by simp only [memberTexts]; omega), List.append_assoc, List.singleton_append]

private theorem stripWord_append (word rest : JsString) : stripWord word (word ++ rest) = some rest := by
  rw [stripWord, if_pos (by simp), List.drop_left]

/-- An integer's text starts with none of the characters that start another value. -/
private theorem parseValue_integerText {i : ℤ} (hi : isSafe i = true) (fuel : ℕ) {rest : JsString}
    (hrest : EndsNumber rest) :
    parseValue (fuel + 1) (integerText i ++ rest) = some (.num (.int i), rest) := by
  obtain ⟨c, ds, htext, hc⟩ := integerText_cons i
  have hnumber := parseNumber_integerText hi hrest
  rw [htext, List.cons_append] at hnumber ⊢
  have hspace : isWhitespace c = false := by
    obtain ⟨d, _, htext', hd, _⟩ := compactText_cons (.num hi)
    rw [compactText, htext] at htext'
    rwa [(List.cons.inj htext').1]
  have hother : ∀ d : UInt16, d ≠ 0x2d → isDigit d = false → c ≠ d := by
    rintro d hminus hdigit rfl
    rcases hc with rfl | hc
    · exact hminus rfl
    · rw [hdigit] at hc
      exact absurd hc (by decide)
  rw [parseValue, skipWhitespace_cons hspace]
  simp only [if_neg (hother 0x22 (by decide) (by decide)),
    if_neg (hother 0x5b (by decide) (by decide)), if_neg (hother 0x7b (by decide) (by decide)),
    if_neg (hother 0x6e (by decide) (by decide)), if_neg (hother 0x74 (by decide) (by decide)),
    if_neg (hother 0x66 (by decide) (by decide)), hnumber, Option.map_some]

private theorem parseValue_arr {xs : List JsValue} (hreads : ∀ x ∈ xs, Reads x)
    (hdata : ∀ x ∈ xs, Plain x) (fuel : ℕ) (rest : JsString)
    (hfuel : 2 * (joinComma (elementTexts xs)).length + 1 ≤ fuel) :
    parseValue (fuel + 1) (0x5b :: (joinComma (elementTexts xs) ++ 0x5d :: rest)) =
      some (.arr xs, rest) := by
  rw [parseValue, skipWhitespace_cons (by decide)]
  simp only [if_neg (show ¬ (0x5b : UInt16) = 0x22 by decide), if_true]
  cases xs with
  | nil =>
    simp only [elementTexts, joinComma, List.nil_append,
      skipWhitespace_cons (show isWhitespace 0x5d = false by decide), if_true]
  | cons x xs =>
    have helements := parseElements_texts hreads hdata [] rest fuel hfuel
    obtain ⟨c, ds, htext, hspace, hbracket, _⟩ := compactText_cons (hdata x List.mem_cons_self)
    obtain ⟨tail, htail⟩ : ∃ tail, joinComma (elementTexts (x :: xs)) = c :: tail := by
      cases xs with
      | nil => exact ⟨ds, by simp only [elementTexts, joinComma, htext]⟩
      | cons y ys =>
        simp only [elementTexts, joinComma, htext, List.cons_append]
        exact ⟨_, rfl⟩
    rw [htail, List.cons_append] at helements ⊢
    rw [skipWhitespace_cons hspace]
    simpa only [if_neg hbracket, List.nil_append] using helements

private theorem parseValue_obj {ms : List Member} (hreads : ∀ m ∈ ms, Reads m.2)
    (hdata : ∀ m ∈ ms, Plain m.2) (hkeys : (ms.map Prod.fst).Nodup) (fuel : ℕ) (rest : JsString)
    (hfuel : 2 * (joinComma (memberTexts ms)).length + 1 ≤ fuel) :
    parseValue (fuel + 1) (0x7b :: (joinComma (memberTexts ms) ++ 0x7d :: rest)) =
      some (.obj ms, rest) := by
  rw [parseValue, skipWhitespace_cons (by decide)]
  simp only [if_neg (show ¬ (0x7b : UInt16) = 0x22 by decide),
    if_neg (show ¬ (0x7b : UInt16) = 0x5b by decide), if_true]
  cases ms with
  | nil =>
    simp only [memberTexts, joinComma, List.nil_append,
      skipWhitespace_cons (show isWhitespace 0x7d = false by decide), if_true]
  | cons m ms =>
    have hmembers := parseMembers_texts hreads hdata [] hkeys rest fuel hfuel
    obtain ⟨tail, htail⟩ : ∃ tail, joinComma (memberTexts (m :: ms)) = 0x22 :: tail := by
      obtain ⟨key, v⟩ := m
      cases ms with
      | nil =>
        simp only [memberTexts, joinComma, quote, List.cons_append]
        exact ⟨_, rfl⟩
      | cons n ns =>
        simp only [memberTexts, joinComma, quote, List.cons_append]
        exact ⟨_, rfl⟩
    rw [htail, List.cons_append] at hmembers ⊢
    rw [skipWhitespace_cons (by decide)]
    simpa only [if_neg (show ¬ (0x22 : UInt16) = 0x7d by decide), List.nil_append] using hmembers

private theorem reads (v : JsValue) : Reads v := by
  induction v using JsValue.induct with
  | null =>
    intro _ fuel rest hfuel _
    have hlength : (compactText .null).length = 4 := by decide
    obtain ⟨fuel, rfl⟩ : ∃ k, fuel = k + 1 := ⟨fuel - 1, by omega⟩
    exact congrArg (Option.map fun r ↦ (JsValue.null, r)) (stripWord_append (js "null") rest)
  | bool b =>
    intro _ fuel rest hfuel _
    cases b with
    | true =>
      have hlength : (compactText (.bool true)).length = 4 := by decide
      obtain ⟨fuel, rfl⟩ : ∃ k, fuel = k + 1 := ⟨fuel - 1, by omega⟩
      exact congrArg (Option.map fun r ↦ (JsValue.bool true, r)) (stripWord_append (js "true") rest)
    | false =>
      have hlength : (compactText (.bool false)).length = 5 := by decide
      obtain ⟨fuel, rfl⟩ : ∃ k, fuel = k + 1 := ⟨fuel - 1, by omega⟩
      exact congrArg (Option.map fun r ↦ (JsValue.bool false, r))
        (stripWord_append (js "false") rest)
  | num n =>
    intro hdata fuel rest hfuel hrest
    cases hdata with
    | @num i hsafe =>
      obtain ⟨c, ds, htext, _⟩ := integerText_cons i
      obtain ⟨fuel, rfl⟩ : ∃ k, fuel = k + 1 :=
        ⟨fuel - 1, by rw [compactText, htext, List.length_cons] at hfuel; omega⟩
      exact parseValue_integerText hsafe fuel hrest
  | str s =>
    intro _ fuel rest hfuel _
    simp only [compactText, quote, List.length_append, List.length_cons] at hfuel
    obtain ⟨fuel, rfl⟩ : ∃ k, fuel = k + 1 := ⟨fuel - 1, by omega⟩
    simp only [compactText, quote, List.cons_append, List.append_assoc, List.nil_append]
    rw [parseValue, skipWhitespace_cons (by decide)]
    simp only [if_true, parseString_quoteUnits, Option.map_some]
  | arr xs ih =>
    intro hdata fuel rest hfuel _
    cases hdata with
    | arr hxs =>
      simp only [compactText, List.length_append, List.length_cons, List.cons_append,
        List.append_assoc, List.nil_append] at hfuel ⊢
      obtain ⟨fuel, rfl⟩ : ∃ k, fuel = k + 1 := ⟨fuel - 1, by omega⟩
      exact parseValue_arr ih hxs fuel rest (by omega)
  | obj ms ih =>
    intro hdata fuel rest hfuel _
    cases hdata with
    | obj hkeys hms =>
      simp only [compactText, List.length_append, List.length_cons, List.cons_append,
        List.append_assoc, List.nil_append] at hfuel ⊢
      obtain ⟨fuel, rfl⟩ : ∃ k, fuel = k + 1 := ⟨fuel - 1, by omega⟩
      exact parseValue_obj ih hms hkeys fuel rest (by omega)
  | exotic kind => intro hdata; cases hdata

/-- The compact text of a value parses back to that value, whatever whitespace follows. -/
theorem Plain.jsonParse_append {v : JsValue} (hv : Plain v) {rest : JsString}
    (hspace : skipWhitespace rest = []) (hrest : EndsNumber rest) :
    jsonParse (compactText v ++ rest) = some v := by
  have hparse := reads v hv (2 * (compactText v ++ rest).length + 2) rest
    (by rw [List.length_append]; omega) hrest
  rw [jsonParse, hparse]
  exact if_pos hspace

theorem Plain.jsonParse_compactText {v : JsValue} (hv : Plain v) :
    jsonParse (compactText v) = some v := by
  have hparse := hv.jsonParse_append (show skipWhitespace [] = [] from rfl) endsNumber_nil
  rwa [List.append_nil] at hparse

theorem jsonParse_compactText {v : JsValue} (hv : IJson v) :
    jsonParse (compactText v) = some v :=
  hv.plain.jsonParse_compactText

theorem compactText_injective {v w : JsValue} (hv : IJson v) (hw : IJson w)
    (htext : compactText v = compactText w) : v = w :=
  Option.some.inj ((jsonParse_compactText hv).symm.trans
    ((congrArg jsonParse htext).trans (jsonParse_compactText hw)))

/-! ### Well-formed texts -/

private theorem isSurrogate_hexDigit {n : ℕ} (hn : n < 16) : isSurrogate (hexDigit n) = false := by
  interval_cases n <;> decide

private theorem isSurrogate_unicodeEscape (c : UInt16) :
    ∀ d ∈ unicodeEscape c, isSurrogate d = false := by
  have hc : c.toNat < 0x10000 := c.toNat_lt
  simp only [unicodeEscape, List.forall_mem_cons, List.not_mem_nil, false_implies, implies_true,
    and_true]
  exact ⟨by decide, by decide, isSurrogate_hexDigit (by omega), isSurrogate_hexDigit (by omega),
    isSurrogate_hexDigit (by omega), isSurrogate_hexDigit (by omega)⟩

theorem isWellFormed_quoteUnit (c : UInt16) : isWellFormed (quoteUnit c) = true := by
  unfold quoteUnit
  split_ifs with _ _ _ _ _ _ _ hescaped
  · decide
  · decide
  · decide
  · decide
  · decide
  · decide
  · decide
  · exact isWellFormed_of_forall (isSurrogate_unicodeEscape c)
  · simp only [Bool.or_eq_true, not_or, Bool.not_eq_true] at hescaped
    have hc : isSurrogate c = false := by
      rw [isSurrogate, hescaped.1.2, hescaped.2]
      rfl
    exact isWellFormed_cons hc []

theorem isWellFormed_quoteUnits (s : JsString) : isWellFormed (quoteUnits s) = true := by
  induction s using quoteUnits.induct with
  | case1 => rfl
  | case2 c => exact isWellFormed_quoteUnit c
  | case3 c d rest hpair ih =>
    rw [quoteUnits, if_pos hpair]
    obtain ⟨hhigh, hlow⟩ := Bool.and_eq_true_iff.mp hpair
    simp only [isWellFormed, hhigh, if_true, hlow, Bool.true_and]
    exact ih
  | case4 c d rest hpair ih =>
    rw [quoteUnits, if_neg hpair, isWellFormed_append (isWellFormed_quoteUnit c)]
    exact ih

/-- What is quoted has no unpaired surrogates, whatever the string has. -/
theorem isWellFormed_quote (s : JsString) : isWellFormed (quote s) = true := by
  rw [quote, List.cons_append, isWellFormed_cons (by decide),
    isWellFormed_append (isWellFormed_quoteUnits s)]
  decide

theorem isWellFormed_integerText (i : ℤ) : isWellFormed (integerText i) = true := by
  have hdigits : ∀ c ∈ decimalDigits i.natAbs, isSurrogate c = false := by
    intro c hc
    have hdigit := isDigit_of_mem_decimalDigits hc
    simp only [isDigit, decide_eq_true_eq] at hdigit
    simp only [isSurrogate, isHighSurrogate, isLowSurrogate, Bool.or_eq_false_iff,
      decide_eq_false_iff_not]
    omega
  rw [integerText]
  split_ifs
  · rw [isWellFormed_cons (by decide)]
    exact isWellFormed_of_forall hdigits
  · exact isWellFormed_of_forall hdigits

theorem isWellFormed_joinComma {ts : List JsString}
    (hts : ∀ t ∈ ts, isWellFormed t = true) : isWellFormed (joinComma ts) = true := by
  induction ts with
  | nil => rfl
  | cons t ts ih =>
    cases ts with
    | nil => exact hts t List.mem_cons_self
    | cons u us =>
      rw [joinComma, isWellFormed_append (hts t List.mem_cons_self), isWellFormed_cons (by decide)]
      · exact ih fun x hx ↦ hts x (List.mem_cons_of_mem t hx)
      · simp

theorem isWellFormed_wrapped {s : JsString} (hs : isWellFormed s = true) {a b : UInt16}
    (ha : isSurrogate a = false) (hb : isSurrogate b = false) :
    isWellFormed (a :: s ++ [b]) = true := by
  rw [List.cons_append, isWellFormed_cons ha, isWellFormed_append hs, isWellFormed_cons hb]
  rfl

/-- The text of a value has no unpaired surrogates. -/
theorem Plain.isWellFormed_compactText {v : JsValue} (hv : Plain v) :
    isWellFormed (compactText v) = true := by
  induction hv with
  | null => decide
  | bool b => cases b <;> decide
  | num => exact isWellFormed_integerText _
  | str s => exact isWellFormed_quote s
  | @arr xs _ ih =>
    refine isWellFormed_wrapped (isWellFormed_joinComma ?_) (by decide) (by decide)
    rw [elementTexts_eq_map]
    intro t ht
    obtain ⟨x, hx, rfl⟩ := List.mem_map.mp ht
    exact ih x hx
  | @obj ms _ _ ih =>
    refine isWellFormed_wrapped (isWellFormed_joinComma ?_) (by decide) (by decide)
    rw [memberTexts_eq_map]
    intro t ht
    obtain ⟨m, hm, rfl⟩ := List.mem_map.mp ht
    rw [memberText, isWellFormed_append (isWellFormed_quote m.1), isWellFormed_cons (by decide)]
    exact ih m hm

theorem isWellFormed_compactText {v : JsValue} (hv : IJson v) :
    isWellFormed (compactText v) = true :=
  hv.plain.isWellFormed_compactText

end Foundation.Json
