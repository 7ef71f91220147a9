import ApiMigrator.Foundation.JsonText

/-!
How long the text of a value is. The weight of a value bounds the bytes of its compact text and is a
sum over its members, so that what fills a value adds its own weight to that of an empty one.
-/

set_option autoImplicit false
set_option relaxedAutoImplicit false

namespace Foundation.Json

open Text Number

/-! ### Bytes of texts -/

theorem byteLength_append {s : JsString} (hs : isWellFormed s = true) (t : JsString) :
    byteLength (s ++ t) = byteLength s + byteLength t := by
  rw [byteLength, utf8Encode_append hs, List.length_append, byteLength, byteLength]

theorem byteLength_cons {c : UInt16} (hc : isSurrogate c = false) (s : JsString) :
    byteLength (c :: s) = byteLength [c] + byteLength s :=
  byteLength_append (isWellFormed_cons hc []) s

theorem one_le_length_unitBytes (c : UInt16) : 1 ≤ (unitBytes c).length := by
  unfold unitBytes scalarBytes
  split_ifs <;> simp

theorem byteLength_singleton (c : UInt16) : byteLength [c] = (unitBytes c).length := rfl

/-- A text between two ASCII characters. -/
theorem byteLength_wrapped {s : JsString} (hs : isWellFormed s = true) {a b : UInt16}
    (ha : isSurrogate a = false) (ha' : byteLength [a] = 1) (hb : byteLength [b] = 1) :
    byteLength (a :: s ++ [b]) = byteLength s + 2 := by
  rw [List.cons_append, byteLength_cons ha, byteLength_append hs, ha', hb]
  omega

theorem byteLength_joinComma_le {ts : List JsString} (hts : ∀ t ∈ ts, isWellFormed t = true) :
    byteLength (joinComma ts) ≤ (ts.map fun t ↦ byteLength t + 1).sum := by
  induction ts with
  | nil => exact Nat.le_refl 0
  | cons t ts ih =>
    obtain ⟨ht, hrest⟩ := List.forall_mem_cons.mp hts
    rw [List.map_cons, List.sum_cons]
    cases ts with
    | nil =>
      rw [joinComma]
      omega
    | cons u us =>
      have hcomma : byteLength [(0x2c : UInt16)] = 1 := by decide
      have ih := ih hrest
      rw [joinComma, byteLength_append ht, byteLength_cons (by decide), hcomma]
      · omega
      · exact List.cons_ne_nil u us

/-! ### Quoting -/

theorem byteLength_quote (s : JsString) : byteLength (quote s) = byteLength (quoteUnits s) + 2 :=
  byteLength_wrapped (isWellFormed_quoteUnits s) (by decide) (by decide) (by decide)

/-- A character stands for itself, after a backslash, or as an escape. -/
theorem quoteUnit_cases (c : UInt16) :
    quoteUnit c = [c] ∧ 0x20 ≤ c.toNat ∨
      (∃ a ∈ [0x62, 0x74, 0x6e, 0x66, 0x72, 0x22, (0x5c : UInt16)], quoteUnit c = [0x5c, a]) ∨
      quoteUnit c = unicodeEscape c ∧ (c.toNat < 0x20 ∨ isSurrogate c = true) := by
  unfold quoteUnit
  split_ifs with _ _ _ _ _ _ _ hescaped
  · exact .inr (.inl ⟨_, by decide, rfl⟩)
  · exact .inr (.inl ⟨_, by decide, rfl⟩)
  · exact .inr (.inl ⟨_, by decide, rfl⟩)
  · exact .inr (.inl ⟨_, by decide, rfl⟩)
  · exact .inr (.inl ⟨_, by decide, rfl⟩)
  · exact .inr (.inl ⟨_, by decide, rfl⟩)
  · exact .inr (.inl ⟨_, by decide, rfl⟩)
  · rw [Bool.or_assoc, ← isSurrogate, Bool.or_eq_true, decide_eq_true_eq] at hescaped
    exact .inr (.inr ⟨rfl, hescaped⟩)
  · rw [Bool.or_assoc, ← isSurrogate, Bool.or_eq_true, decide_eq_true_eq, not_or, not_lt] at hescaped
    exact .inl ⟨rfl, hescaped.1⟩

private theorem byteLength_escaped {a : UInt16}
    (ha : a ∈ [0x62, 0x74, 0x6e, 0x66, 0x72, 0x22, (0x5c : UInt16)]) :
    byteLength [0x5c, a] = 2 := by
  have htwo : ∀ a ∈ [0x62, 0x74, 0x6e, 0x66, 0x72, 0x22, (0x5c : UInt16)],
      byteLength [0x5c, a] = 2 := forall_mem_of_all (by decide)
  exact htwo a ha

private theorem byteLength_unicodeEscape (c : UInt16) : byteLength (unicodeEscape c) = 6 := by
  refine (byteLength_of_ascii ?_).trans rfl
  have hc : c.toNat < 0x10000 := c.toNat_lt
  have hdigit : ∀ n < 16, (hexDigit n).toNat < 0x80 := by decide
  simp only [unicodeEscape, List.forall_mem_cons, List.not_mem_nil, false_implies, implies_true,
    and_true]
  exact ⟨by decide, by decide, hdigit _ (by omega), hdigit _ (by omega), hdigit _ (by omega),
    hdigit _ (by omega)⟩

private theorem byteLength_quoteUnit_le (c : UInt16) :
    byteLength (quoteUnit c) ≤ 6 * (unitBytes c).length := by
  have hone := one_le_length_unitBytes c
  rcases quoteUnit_cases c with ⟨h, -⟩ | ⟨a, ha, h⟩ | ⟨h, -⟩
  · rw [h, byteLength_singleton]
    omega
  · rw [h, byteLength_escaped ha]
    omega
  · rw [h, byteLength_unicodeEscape]
    omega

/-- Escaping a character takes six bytes at most. -/
theorem byteLength_quoteUnits_le (s : JsString) :
    byteLength (quoteUnits s) ≤ 6 * byteLength s := by
  induction s using quoteUnits.induct with
  | case1 => exact Nat.le_refl 0
  | case2 c => exact byteLength_quoteUnit_le c
  | case3 c d rest hpair ih =>
    rw [quoteUnits, if_pos hpair]
    simp only [byteLength, utf8Encode, hpair, if_true, List.length_append] at ih ⊢
    omega
  | case4 c d rest hpair ih =>
    have hc := byteLength_quoteUnit_le c
    have hs : byteLength (c :: d :: rest) = (unitBytes c).length + byteLength (d :: rest) := by
      rw [byteLength, utf8Encode, if_neg hpair, List.length_append, byteLength]
    rw [quoteUnits, if_neg hpair, byteLength_append (isWellFormed_quoteUnit c), hs]
    omega

theorem byteLength_quote_le (s : JsString) : byteLength (quote s) ≤ 6 * byteLength s + 2 := by
  have h := byteLength_quoteUnits_le s
  rw [byteLength_quote]
  omega

private theorem byteLength_quoteUnit_le_two {c : UInt16} (hc : isSurrogate c = false)
    (hprinted : 0x20 ≤ c.toNat) : byteLength (quoteUnit c) ≤ 2 * (unitBytes c).length := by
  have hone := one_le_length_unitBytes c
  rcases quoteUnit_cases c with ⟨h, -⟩ | ⟨a, ha, h⟩ | ⟨-, hcontrol | hsurrogate⟩
  · rw [h, byteLength_singleton]
    omega
  · rw [h, byteLength_escaped ha]
    omega
  · omega
  · exact absurd (hc.symm.trans hsurrogate) Bool.false_ne_true

/-- Without control characters, a text is at most doubled. -/
theorem byteLength_quoteUnits_le_two {s : JsString} (hs : isWellFormed s = true)
    (hprinted : ∀ c ∈ s, 0x20 ≤ c.toNat) : byteLength (quoteUnits s) ≤ 2 * byteLength s := by
  induction s using quoteUnits.induct with
  | case1 => exact Nat.le_refl 0
  | case2 c =>
    have hc : isSurrogate c = false := by simpa [isWellFormed, isSurrogate] using hs
    exact byteLength_quoteUnit_le_two hc (hprinted c List.mem_cons_self)
  | case3 c d rest hpair ih =>
    obtain ⟨-, -, hrest⟩ := List.forall_mem_cons.mp hprinted |>.imp_right List.forall_mem_cons.mp
    obtain ⟨hhigh, hlow⟩ := Bool.and_eq_true_iff.mp hpair
    have hs : isWellFormed rest = true := by
      simpa [isWellFormed, hhigh, hlow] using hs
    have ih := ih hs hrest
    rw [quoteUnits, if_pos hpair]
    simp only [byteLength, utf8Encode, hpair, if_true, List.length_append] at ih ⊢
    omega
  | case4 c d rest hpair ih =>
    obtain ⟨hfirst, hrest⟩ := List.forall_mem_cons.mp hprinted
    have hhigh : isHighSurrogate c = false := by
      by_contra h
      rw [Bool.not_eq_false] at h
      rw [isWellFormed, if_pos h, Bool.and_eq_true] at hs
      exact hpair (by rw [h, hs.1]; rfl)
    rw [isWellFormed, if_neg (by simp [hhigh]), Bool.and_eq_true, Bool.not_eq_true'] at hs
    have hsurrogate : isSurrogate c = false := by rw [isSurrogate, hhigh, hs.1]; rfl
    have hc := byteLength_quoteUnit_le_two hsurrogate hfirst
    have hlength : byteLength (c :: d :: rest) = (unitBytes c).length + byteLength (d :: rest) := by
      rw [byteLength, utf8Encode, if_neg hpair, List.length_append, byteLength]
    have ih := ih hs.2 hrest
    rw [quoteUnits, if_neg hpair, byteLength_append (isWellFormed_quoteUnit c), hlength]
    omega

/-! ### Weights -/

mutual

/-- A bound of the bytes of a value's text. -/
def JsValue.weight : JsValue → ℕ
  | .null => 4
  | .bool _ => 5
  | .num _ => 17
  | .str s => byteLength (quote s)
  | .arr xs => elementsWeight xs + 2
  | .obj ms => membersWeight ms + 2
  | .exotic _ => 0

def elementsWeight : List JsValue → ℕ
  | [] => 0
  | x :: xs => x.weight + 1 + elementsWeight xs

def membersWeight : List Member → ℕ
  | [] => 0
  | (key, v) :: ms => byteLength (quote key) + v.weight + 2 + membersWeight ms

end

theorem membersWeight_append (ms ns : List Member) :
    membersWeight (ms ++ ns) = membersWeight ms + membersWeight ns := by
  induction ms with
  | nil => exact (Nat.zero_add _).symm
  | cons m ms ih =>
    rw [List.cons_append, membersWeight, membersWeight, ih]
    omega

theorem elementsWeight_le {xs : List JsValue} {n : ℕ} (h : ∀ x ∈ xs, x.weight ≤ n) :
    elementsWeight xs ≤ xs.length * (n + 1) := by
  induction xs with
  | nil => exact Nat.zero_le _
  | cons x xs ih =>
    obtain ⟨hx, hxs⟩ := List.forall_mem_cons.mp h
    have ih := ih hxs
    rw [elementsWeight, List.length_cons, Nat.add_one_mul]
    omega

theorem weight_str_le {s : JsString} {n : ℕ} (h : byteLength s ≤ n) :
    (JsValue.str s).weight ≤ 6 * n + 2 := by
  have hquote := byteLength_quote_le s
  rw [JsValue.weight]
  omega

private theorem length_decimalDigits_le {n k : ℕ} (hk : 1 ≤ k) (hn : n < 10 ^ k) :
    (decimalDigits n).length ≤ k := by
  unfold decimalDigits
  split_ifs
  · exact hk
  · rw [List.length_reverse, List.length_map]
    exact (Nat.digits_length_le_iff (by decide) n).mpr hn

private theorem byteLength_integerText_le {i : ℤ} (hi : isSafe i = true) :
    byteLength (integerText i) ≤ 17 := by
  have hascii : ∀ c ∈ decimalDigits i.natAbs, c.toNat < 0x80 := by
    intro c hc
    have hdigit := isDigit_of_mem_decimalDigits hc
    simp only [isDigit, decide_eq_true_eq] at hdigit
    omega
  have hlength : (decimalDigits i.natAbs).length ≤ 16 := by
    refine length_decimalDigits_le (by decide) ?_
    have hrange := of_decide_eq_true hi
    simp only [maxSafeInteger] at hrange
    omega
  unfold integerText
  split_ifs
  · rw [byteLength_cons (by decide), byteLength_of_ascii hascii]
    have hminus : byteLength [(0x2d : UInt16)] = 1 := by decide
    omega
  · rw [byteLength_of_ascii hascii]
    omega

private theorem sum_elementTexts {xs : List JsValue}
    (h : ∀ x ∈ xs, byteLength (compactText x) ≤ x.weight) :
    ((elementTexts xs).map fun t ↦ byteLength t + 1).sum ≤ elementsWeight xs := by
  induction xs with
  | nil => exact Nat.le_refl 0
  | cons x xs ih =>
    obtain ⟨hx, hxs⟩ := List.forall_mem_cons.mp h
    have ih := ih hxs
    rw [elementTexts, List.map_cons, List.sum_cons, elementsWeight]
    omega

private theorem sum_memberTexts {ms : List Member}
    (h : ∀ m ∈ ms, byteLength (compactText m.2) ≤ m.2.weight) :
    ((memberTexts ms).map fun t ↦ byteLength t + 1).sum ≤ membersWeight ms := by
  induction ms with
  | nil => exact Nat.le_refl 0
  | cons m ms ih =>
    obtain ⟨hm, hms⟩ := List.forall_mem_cons.mp h
    have ih := ih hms
    have hcolon : byteLength [(0x3a : UInt16)] = 1 := by decide
    rw [memberTexts, List.map_cons, List.sum_cons, membersWeight,
      byteLength_append (isWellFormed_quote m.1), byteLength_cons (by decide), hcolon]
    omega

/-- The text of a value has no more bytes than the value weighs. -/
theorem Plain.byteLength_compactText_le {v : JsValue} (hv : Plain v) :
    byteLength (compactText v) ≤ v.weight := by
  induction hv with
  | null => decide
  | bool b => cases b <;> decide
  | num hsafe => exact byteLength_integerText_le hsafe
  | str s => exact Nat.le_refl _
  | @arr xs hxs ih =>
    have hwell : ∀ t ∈ elementTexts xs, isWellFormed t = true := by
      rw [elementTexts_eq_map]
      exact List.forall_mem_map.mpr fun x hx ↦ (hxs x hx).isWellFormed_compactText
    rw [compactText, byteLength_wrapped (isWellFormed_joinComma hwell) (by decide) (by decide)
      (by decide), JsValue.weight]
    exact Nat.add_le_add_right ((byteLength_joinComma_le hwell).trans (sum_elementTexts ih)) 2
  | @obj ms _ hms ih =>
    have hwell : ∀ t ∈ memberTexts ms, isWellFormed t = true := by
      rw [memberTexts_eq_map]
      refine List.forall_mem_map.mpr fun m hm ↦ ?_
      rw [memberText, isWellFormed_append (isWellFormed_quote m.1), isWellFormed_cons (by decide)]
      exact (hms m hm).isWellFormed_compactText
    rw [compactText, byteLength_wrapped (isWellFormed_joinComma hwell) (by decide) (by decide)
      (by decide), JsValue.weight]
    exact Nat.add_le_add_right ((byteLength_joinComma_le hwell).trans (sum_memberTexts ih)) 2

/-! ### Control characters -/

def Printed (s : JsString) : Prop := ∀ c ∈ s, 0x20 ≤ c.toNat

theorem printed_append {s t : JsString} : Printed (s ++ t) ↔ Printed s ∧ Printed t :=
  List.forall_mem_append

theorem printed_cons {c : UInt16} {s : JsString} : Printed (c :: s) ↔ 0x20 ≤ c.toNat ∧ Printed s :=
  List.forall_mem_cons

private theorem printed_quoteUnit (c : UInt16) : Printed (quoteUnit c) := by
  have hdigit : ∀ n < 16, 0x20 ≤ (hexDigit n).toNat := by decide
  have hc : c.toNat < 0x10000 := c.toNat_lt
  rcases quoteUnit_cases c with ⟨h, hprinted⟩ | ⟨a, ha, h⟩ | ⟨h, -⟩
  · rw [h]
    exact List.forall_mem_singleton.mpr hprinted
  · have hescaped : ∀ a ∈ [0x62, 0x74, 0x6e, 0x66, 0x72, 0x22, (0x5c : UInt16)],
        0x20 ≤ a.toNat := forall_mem_of_all (by decide)
    rw [h]
    exact printed_cons.mpr ⟨by decide, List.forall_mem_singleton.mpr (hescaped a ha)⟩
  · rw [h, Printed]
    simp only [unicodeEscape, List.forall_mem_cons, List.not_mem_nil, false_implies, implies_true,
      and_true]
    exact ⟨by decide, by decide, hdigit _ (by omega), hdigit _ (by omega), hdigit _ (by omega),
      hdigit _ (by omega)⟩

theorem printed_quoteUnits (s : JsString) : Printed (quoteUnits s) := by
  induction s using quoteUnits.induct with
  | case1 => exact fun _ h ↦ absurd h List.not_mem_nil
  | case2 c => exact printed_quoteUnit c
  | case3 c d rest hpair ih =>
    obtain ⟨hhigh, hlow⟩ := Bool.and_eq_true_iff.mp hpair
    simp only [isHighSurrogate, isLowSurrogate, decide_eq_true_eq] at hhigh hlow
    rw [quoteUnits, if_pos hpair]
    exact printed_cons.mpr ⟨by omega, printed_cons.mpr ⟨by omega, ih⟩⟩
  | case4 c d rest hpair ih =>
    rw [quoteUnits, if_neg hpair]
    exact printed_append.mpr ⟨printed_quoteUnit c, ih⟩

theorem printed_quote (s : JsString) : Printed (quote s) :=
  printed_append.mpr ⟨printed_cons.mpr ⟨by decide, printed_quoteUnits s⟩, by
    exact List.forall_mem_singleton.mpr (by decide)⟩

theorem printed_joinComma {ts : List JsString} (hts : ∀ t ∈ ts, Printed t) :
    Printed (joinComma ts) := by
  induction ts with
  | nil => exact fun _ h ↦ absurd h List.not_mem_nil
  | cons t ts ih =>
    obtain ⟨ht, hrest⟩ := List.forall_mem_cons.mp hts
    cases ts with
    | nil => exact ht
    | cons u us =>
      rw [joinComma]
      · exact printed_append.mpr ⟨ht, printed_cons.mpr ⟨by decide, ih hrest⟩⟩
      · exact List.cons_ne_nil u us

private theorem printed_integerText (i : ℤ) : Printed (integerText i) := by
  have hdigits : Printed (decimalDigits i.natAbs) := by
    intro c hc
    have hdigit := isDigit_of_mem_decimalDigits hc
    simp only [isDigit, decide_eq_true_eq] at hdigit
    omega
  unfold integerText
  split_ifs
  · exact printed_cons.mpr ⟨by decide, hdigits⟩
  · exact hdigits

private theorem printed_wrapped {s : JsString} (hs : Printed s) {a b : UInt16}
    (ha : 0x20 ≤ a.toNat) (hb : 0x20 ≤ b.toNat) : Printed (a :: s ++ [b]) :=
  printed_append.mpr ⟨printed_cons.mpr ⟨ha, hs⟩, List.forall_mem_singleton.mpr hb⟩

/-- The text of a value has no control characters. -/
theorem Plain.printed_compactText {v : JsValue} (hv : Plain v) : Printed (compactText v) := by
  induction hv with
  | null => exact forall_mem_of_all (by decide)
  | bool b => cases b <;> exact forall_mem_of_all (by decide)
  | num => exact printed_integerText _
  | str s => exact printed_quote s
  | @arr xs _ ih =>
    refine printed_wrapped (printed_joinComma ?_) (by decide) (by decide)
    rw [elementTexts_eq_map]
    exact List.forall_mem_map.mpr ih
  | @obj ms _ _ ih =>
    refine printed_wrapped (printed_joinComma ?_) (by decide) (by decide)
    rw [memberTexts_eq_map]
    exact List.forall_mem_map.mpr fun m hm ↦
      printed_append.mpr ⟨printed_quote m.1, printed_cons.mpr ⟨by decide, ih m hm⟩⟩

/-- A text within a text. -/
theorem Plain.weight_compactText_le {v : JsValue} (hv : Plain v) :
    (JsValue.str (compactText v)).weight ≤ 2 * v.weight + 2 := by
  have hquoted := byteLength_quoteUnits_le_two hv.isWellFormed_compactText hv.printed_compactText
  have hle := hv.byteLength_compactText_le
  rw [JsValue.weight, byteLength_quote]
  omega

end Foundation.Json
