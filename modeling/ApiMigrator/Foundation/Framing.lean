import ApiMigrator.Foundation.JsonText

/-!
Flat byte streams: a field that ends at a separator, and JSON records under the length of their
text. What was written can be read off again.
-/

set_option autoImplicit false
set_option relaxedAutoImplicit false

namespace Foundation.Framing

open Foundation.Text Foundation.Number Foundation.Json

/-- A field is what stands before the first separator. -/
theorem append_cons_injective {α : Type} {separator : α} {xs ys rest rest' : List α}
    (hxs : separator ∉ xs) (hys : separator ∉ ys)
    (h : xs ++ separator :: rest = ys ++ separator :: rest') : xs = ys ∧ rest = rest' := by
  induction xs generalizing ys with
  | nil =>
    cases ys with
    | nil => exact ⟨rfl, (List.cons.inj h).2⟩
    | cons y ys => exact absurd (List.cons.inj h).1 (List.ne_of_not_mem_cons hys)
  | cons x xs ih =>
    cases ys with
    | nil => exact absurd (List.cons.inj h).1.symm (List.ne_of_not_mem_cons hxs)
    | cons y ys =>
      obtain ⟨rfl, hrest⟩ := List.cons.inj h
      obtain ⟨rfl, hsame⟩ := ih (List.not_mem_of_not_mem_cons hxs)
        (List.not_mem_of_not_mem_cons hys) hrest
      exact ⟨rfl, hsame⟩

theorem notMem_utf8Encode {s : JsString} {b : UInt8} {c : UInt16} (hb : b.toNat < 0x80)
    (hc : c.toNat = b.toNat) (hs : c ∉ s) : b ∉ utf8Encode s := by
  intro hmem
  obtain ⟨d, hd, heq⟩ := mem_of_mem_utf8Encode hmem hb
  obtain rfl : d = c := UInt16.toNat_inj.mp (heq.trans hc.symm)
  exact hs hd

/-- A text can be encoded up to a character that pairs with nothing, and on from there. -/
theorem utf8Encode_append_cons {c : UInt16} (hc : isSurrogate c = false) (s t : JsString) :
    utf8Encode (s ++ c :: t) = utf8Encode s ++ (unitBytes c ++ utf8Encode t) := by
  have hlow : isLowSurrogate c = false := (Bool.or_eq_false_iff.mp hc).2
  induction s using utf8Encode.induct with
  | case1 => exact utf8Encode_cons hc t
  | case2 d =>
    rw [List.singleton_append, utf8Encode.eq_def]
    simp only [hlow, Bool.and_false, Bool.false_eq_true, if_false, utf8Encode_cons hc]
    rfl
  | case3 d d' s hpair ih =>
    rw [List.cons_append, List.cons_append, utf8Encode, if_pos hpair, ih, utf8Encode, if_pos hpair,
      List.append_assoc]
  | case4 d d' s hpair ih =>
    rw [List.cons_append, List.cons_append, utf8Encode, if_neg hpair, ← List.cons_append, ih,
      utf8Encode, if_neg hpair, List.append_assoc]

/-- The decimal digits of a number, as bytes. -/
def digitBytes (n : ℕ) : Bytes := utf8Encode (decimalDigits n)

theorem ascii_of_mem_decimalDigits {n : ℕ} {c : UInt16} (hc : c ∈ decimalDigits n) :
    0x30 ≤ c.toNat ∧ c.toNat ≤ 0x39 :=
  of_decide_eq_true (isDigit_of_mem_decimalDigits hc)

theorem notMem_digitBytes {n : ℕ} {b : UInt8} (hb : b.toNat < 0x30 ∨ b.toNat = 0x3a) :
    b ∉ digitBytes n := by
  intro hmem
  obtain ⟨c, hc, heq⟩ := mem_of_mem_utf8Encode hmem (by omega)
  have hdigit := ascii_of_mem_decimalDigits hc
  omega

theorem digitBytes_injective {m n : ℕ} (h : digitBytes m = digitBytes n) : m = n := by
  refine decimalDigits_injective (eq_of_utf8Encode_eq (fun c hc ↦ ?_) h)
  have hdigit := ascii_of_mem_decimalDigits hc
  omega

/-! ### Records -/

/-- A JSON record under the length of its text. -/
def recordBytes (v : JsValue) : Bytes :=
  digitBytes (byteLength (compactText v)) ++ 0x3a :: utf8Encode (compactText v)

theorem recordBytes_ne_nil (v : JsValue) : recordBytes v ≠ [] :=
  List.append_ne_nil_of_right_ne_nil _ (List.cons_ne_nil _ _)

theorem recordBytes_append {v w : JsValue} (hv : Plain v) (hw : Plain w) {rest rest' : Bytes}
    (h : recordBytes v ++ rest = recordBytes w ++ rest') : v = w ∧ rest = rest' := by
  simp only [recordBytes, List.append_assoc, List.cons_append] at h
  obtain ⟨hlength, h⟩ := append_cons_injective (notMem_digitBytes (by decide))
    (notMem_digitBytes (by decide)) h
  obtain ⟨htext, hrest⟩ := List.append_inj h (digitBytes_injective hlength)
  have htext := utf8Encode_injective hv.isWellFormed_compactText hw.isWellFormed_compactText htext
  have hsame := hv.jsonParse_compactText.symm.trans
    ((congrArg jsonParse htext).trans hw.jsonParse_compactText)
  exact ⟨Option.some.inj hsame, hrest⟩

/-- A sequence of records can be read off its bytes. -/
theorem records_injective {vs ws : List JsValue} (hvs : ∀ v ∈ vs, Plain v) (hws : ∀ w ∈ ws, Plain w)
    (h : vs.flatMap recordBytes = ws.flatMap recordBytes) : vs = ws := by
  induction vs generalizing ws with
  | nil =>
    cases ws with
    | nil => rfl
    | cons w ws =>
      rw [List.flatMap_nil, List.flatMap_cons] at h
      exact absurd (List.append_eq_nil_iff.mp h.symm).1 (recordBytes_ne_nil w)
  | cons v vs ih =>
    cases ws with
    | nil =>
      rw [List.flatMap_nil, List.flatMap_cons] at h
      exact absurd (List.append_eq_nil_iff.mp h).1 (recordBytes_ne_nil v)
    | cons w ws =>
      rw [List.forall_mem_cons] at hvs hws
      rw [List.flatMap_cons, List.flatMap_cons] at h
      obtain ⟨rfl, hrest⟩ := recordBytes_append hvs.1 hws.1 h
      rw [ih hvs.2 hws.2 hrest]

end Foundation.Framing
