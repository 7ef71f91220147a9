import ApiMigrator.Foundation.CanonicalEncoder
import ApiMigrator.Foundation.Pattern

/-!
`canonical-json.ts`: the strict canonical JSON that owner challenges, signatures and digests are
computed over, and its parser, which accepts a text or a buffer only when it is the very text that
the encoder writes for the parsed value.
-/

set_option autoImplicit false
set_option relaxedAutoImplicit false

namespace ApiMigrator.App.CanonicalJson

open Foundation.Text Foundation.Number Foundation.Json Foundation.Outcome Foundation.Pattern

def assertValidUnicode : JsString → Except String Unit :=
  rejectUnpaired "Canonical JSON rejected: unpaired high surrogate"
    "Canonical JSON rejected: unpaired low surrogate"

theorem assertValidUnicode_eq_ok (s : JsString) :
    assertValidUnicode s = .ok () ↔ isWellFormed s = true :=
  rejectUnpaired_eq_ok

/-! ### Encoding -/

def refusal : Exotic → String
  | .undefined | .unsupported => "Canonical JSON rejected: unsupported JSON value"
  | .cyclic => "Canonical JSON rejected: cyclic JSON value"
  | .irregularArray => "Canonical JSON rejected: sparse or extended JSON array"
  | .nonPlainObject => "Canonical JSON rejected: non-plain JSON object"
  | .hidden => "Canonical JSON rejected: hidden or symbolic JSON member"
  | .accessor => "Canonical JSON rejected: accessor or hidden JSON member"

def checkMember (m : Encoded) : Except String Unit := do
  assertValidUnicode m.1
  reject (m.2.1 matches .exotic .accessor) (refusal .accessor)
  reject (m.2.1 matches .exotic .undefined) "Canonical JSON rejected: undefined JSON member"

theorem checkMember_eq_ok (m : Encoded) :
    checkMember m = .ok () ↔ isWellFormed m.1 = true ∧ m.2.1.isHole = false := by
  obtain ⟨key, v, text⟩ := m
  simp only [checkMember, bind_eq_ok, reject_eq_ok, assertValidUnicode_eq_ok, exists_unit]
  cases v with
  | exotic kind => cases kind <;> simp [JsValue.isHole]
  | null | bool | num | str | arr | obj => simp [JsValue.isHole]

/-- Every member is checked before the text of the first one is looked at. -/
def memberTexts (ms : List Encoded) : Except String (List JsString) := do
  forEach checkMember ms
  mapEach (fun m ↦ memberText m.1 <$> m.2.2) ms

def dialect : Dialect where
  checkString := assertValidUnicode
  unsafeNumber := "Canonical JSON rejected: unsafe JSON number"
  refusal := refusal
  memberTexts := memberTexts
  checkString_eq_ok := assertValidUnicode_eq_ok
  memberTexts_eq_ok := checkedMemberTexts_eq_ok checkMember_eq_ok

def canonicalJson (value : JsValue) : Except String JsString := encodeWith dialect value

/-! ### Parsing -/

/-- What a caller hands to the parser. -/
inductive Input
  | buffer (bytes : Bytes)
  | text (s : JsString)
  | other

/-- `input.length` of a buffer, `Buffer.byteLength` of a string. -/
def Input.size : Input → ℕ
  | .buffer bytes => bytes.length
  | .text s => byteLength s
  | .other => 0

def decodeInput (input : Input) (maxBytes : ℤ) (label : String) : Except String JsString := do
  let text ← match input with
    | .buffer bytes => do
      reject (bytes.length = 0 ∨ maxBytes < bytes.length)
        s!"Canonical JSON rejected: {label} is missing or exceeds the supported size"
      reject (utf8Encode (utf8Decode bytes) ≠ bytes)
        s!"Canonical JSON rejected: {label} is not valid UTF-8"
      pure (utf8Decode bytes)
    | .text s => do
      reject (s.length = 0 ∨ maxBytes < byteLength s)
        s!"Canonical JSON rejected: {label} is missing or exceeds the supported size"
      pure s
    | .other =>
      throw s!"Canonical JSON rejected: {label} is missing or exceeds the supported size"
  relabel (assertValidUnicode text) s!"Canonical JSON rejected: {label} contains invalid Unicode"
  return text

def parseCanonicalJson (input : Input) (maxBytes : JsNumber) (label : String) :
    Except String JsValue :=
  match maxBytes with
  | .int limit => do
    reject (¬ (isSafe limit = true ∧ 0 < limit))
      "Canonical JSON rejected: invalid parser byte limit"
    let text ← decodeInput input limit label
    let parsed ← orThrow (jsonParse text) s!"Canonical JSON rejected: {label} is not valid JSON"
    let canonical ← relabel (canonicalJson parsed)
      s!"Canonical JSON rejected: {label} contains unsupported JSON values"
    reject (canonical ≠ text)
      s!"Canonical JSON rejected: {label} is not canonical JSON (including duplicate keys)"
    return parsed
  | _ => .error "Canonical JSON rejected: invalid parser byte limit"

/-! ### Acceptance -/

/-- The input is this text: the string itself, or the buffer with its UTF-8 bytes. -/
def Input.Carries : Input → JsString → Prop
  | .buffer bytes, t => bytes = utf8Encode t ∧ isWellFormed t = true
  | .text s, t => s = t
  | .other, _ => False

theorem Input.Carries.unique {input : Input} {t u : JsString} (ht : input.Carries t)
    (hu : input.Carries u) : t = u := by
  cases input with
  | buffer bytes => exact utf8Encode_injective ht.2 hu.2 (ht.1.symm.trans hu.1)
  | text s => exact (show s = t from ht).symm.trans hu
  | other => exact ht.elim

/-- A legal byte bound that admits `size` bytes. -/
def FitsLimit (maxBytes : JsNumber) (size : ℕ) : Prop :=
  ∃ limit : ℤ, maxBytes = .int limit ∧ isSafe limit = true ∧ 0 < limit ∧ size ≤ limit

theorem decodeInput_eq_ok {input : Input} {maxBytes : ℤ} {label : String} {t : JsString} :
    decodeInput input maxBytes label = .ok t ↔
      input.Carries t ∧ isWellFormed t = true ∧ t ≠ [] ∧ byteLength t ≤ maxBytes := by
  cases input with
  | buffer bytes =>
    simp only [decodeInput, bind_eq_ok, reject_eq_ok, pure_eq_ok, relabel_eq_ok,
      assertValidUnicode_eq_ok, exists_unit, not_or, not_not, not_lt, Input.Carries]
    constructor
    · rintro ⟨⟨hne, hle⟩, hutf8, _, rfl, hunicode, rfl⟩
      refine ⟨⟨hutf8.symm, hunicode⟩, hunicode, ?_, ?_⟩
      · intro hnil
        rw [hnil] at hutf8
        exact hne (by rw [← hutf8]; rfl)
      · rwa [byteLength, hutf8]
    · rintro ⟨⟨rfl, hunicode⟩, -, hne, hle⟩
      rw [utf8Decode_utf8Encode t hunicode]
      refine ⟨⟨fun hlength ↦ hne ?_, hle⟩, rfl, t, rfl, hunicode, rfl⟩
      have hdecode := utf8Decode_utf8Encode t hunicode
      rw [List.length_eq_zero_iff.mp hlength] at hdecode
      exact hdecode.symm
  | text s =>
    simp only [decodeInput, bind_eq_ok, reject_eq_ok, pure_eq_ok, relabel_eq_ok,
      assertValidUnicode_eq_ok, exists_unit, not_or, not_lt, Input.Carries,
      List.length_eq_zero_iff]
    constructor
    · rintro ⟨⟨hne, hle⟩, _, rfl, hunicode, rfl⟩
      exact ⟨rfl, hunicode, hne, hle⟩
    · rintro ⟨rfl, hunicode, hne, hle⟩
      exact ⟨⟨hne, hle⟩, s, rfl, hunicode, rfl⟩
  | other => simp [decodeInput, Input.Carries]

/-- The parser returns exactly the sorted interoperable values, each from its compact text. -/
theorem parseCanonicalJson_eq_ok {input : Input} {maxBytes : JsNumber} {label : String}
    {v : JsValue} :
    parseCanonicalJson input maxBytes label = .ok v ↔
      IJson v ∧ v.sorted = v ∧ input.Carries (compactText v) ∧
        FitsLimit maxBytes (byteLength (compactText v)) := by
  cases maxBytes with
  | int limit =>
    simp only [parseCanonicalJson, bind_eq_ok, reject_eq_ok, relabel_eq_ok, orThrow_eq_ok,
      pure_eq_ok, decodeInput_eq_ok, exists_unit, not_not]
    constructor
    · rintro ⟨⟨hsafe, hpos⟩, t, ⟨hcarries, hunicode, hne, hle⟩, _, hparse, u, hencode, rfl, rfl⟩
      obtain ⟨hv, hsorted, rfl⟩ := (jsonParse_encodeWith_iff dialect).mp ⟨hparse, hencode⟩
      exact ⟨hv, hsorted, hcarries, limit, rfl, hsafe, hpos, hle⟩
    · rintro ⟨hv, hsorted, hcarries, _, hlimit, hsafe, hpos, hle⟩
      cases hlimit
      obtain ⟨hparse, hencode⟩ := (jsonParse_encodeWith_iff dialect).mpr ⟨hv, hsorted, rfl⟩
      refine ⟨⟨hsafe, hpos⟩, compactText v,
        ⟨hcarries, isWellFormed_compactText hv, compactText_ne_nil hv, hle⟩, v, hparse, _, hencode,
        rfl, rfl⟩
  | negZero | fraction | infinite | nan => simp [parseCanonicalJson, FitsLimit]

theorem canonicalJson_eq_ok {v : JsValue} (hv : DistinctKeys v) {t : JsString} :
    canonicalJson v = .ok t ↔ IJson v ∧ t = compactText v.sorted :=
  encodeWith_eq_ok dialect hv

theorem canonicalJson_of_canonical {v : JsValue} (hv : Canonical v) {t : JsString} :
    canonicalJson v = .ok t ↔ IJson v ∧ t = compactText v := by
  rw [canonicalJson_eq_ok hv.1, hv.2]

/-- Two canonical values with one text are equal. -/
theorem eq_of_canonicalJson_eq {v w : JsValue} (hv : Canonical v) (hw : Canonical w)
    {t : JsString} (hvt : canonicalJson v = .ok t) (hwt : canonicalJson w = .ok t) : v = w := by
  obtain ⟨hdata, rfl⟩ := (canonicalJson_of_canonical hv).mp hvt
  obtain ⟨hdata', htext⟩ := (canonicalJson_of_canonical hw).mp hwt
  exact compactText_injective hdata hdata' htext

end ApiMigrator.App.CanonicalJson
