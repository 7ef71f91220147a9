import ApiMigrator.App.CanonicalJson

/-!
The private copy of canonical JSON in `runner-source-bundle.ts`, which words its refusals
differently, looks at each member's key and value together and takes no byte bound. Both copies
write the same texts and accept the same texts, and canonical JSON is a bijection between the
interoperable values and the accepted texts.
-/

set_option autoImplicit false
set_option relaxedAutoImplicit false

namespace ApiMigrator.App.SourceBundle

open Foundation.Text Foundation.Number Foundation.Json Foundation.Outcome Foundation.Pattern

def assertValidUnicode (value : JsString) (label : String) : Except String Unit :=
  rejectUnpaired s!"{label} has invalid Unicode" s!"{label} has invalid Unicode" value

def refusal : Exotic → String
  | .undefined | .unsupported => "Canonical JSON contains an unsupported value"
  | .cyclic => "Canonical JSON contains a cycle"
  | .irregularArray => "Canonical JSON contains a sparse or extended array"
  | .nonPlainObject => "Canonical JSON object has an unsupported prototype"
  | .hidden => "Canonical JSON contains hidden or symbolic members"
  | .accessor => "Canonical JSON contains an accessor, hidden, or undefined member"

/-- Each member is checked and written before the next one is looked at. -/
def memberTexts (ms : List Encoded) : Except String (List JsString) :=
  mapEach (fun m ↦ do
    assertValidUnicode m.1 "canonical JSON key"
    reject m.2.1.isHole (refusal .accessor)
    memberText m.1 <$> m.2.2) ms

private theorem memberTexts_eq_ok (ms : List Encoded) (ts : List JsString) :
    memberTexts ms = .ok ts ↔ List.Forall₂ (fun m t ↦ isWellFormed m.1 = true ∧
      m.2.1.isHole = false ∧ ∃ u, m.2.2 = .ok u ∧ t = memberText m.1 u) ms ts := by
  simp only [memberTexts, mapEach_eq_ok, bind_eq_ok, reject_eq_ok, map_eq_ok, assertValidUnicode,
    rejectUnpaired_eq_ok, exists_unit, Bool.not_eq_true,
    eq_comm (a := memberText _ _)]

def dialect : Dialect where
  checkString s := assertValidUnicode s "canonical JSON string"
  unsafeNumber := "Canonical JSON contains an unsafe number"
  refusal := refusal
  memberTexts := memberTexts
  checkString_eq_ok _ := rejectUnpaired_eq_ok
  memberTexts_eq_ok := memberTexts_eq_ok

def canonicalJson (value : JsValue) : Except String JsString := encodeWith dialect value

def parseCanonicalJson (value : JsString) (label : String) : Except String JsValue := do
  let parsed ← orThrow (jsonParse value) s!"{label} is not valid JSON"
  let canonical ← canonicalJson parsed
  reject (canonical ≠ value) s!"{label} is not canonical JSON, including duplicate keys"
  return parsed

theorem canonicalJson_eq_ok {v : JsValue} (hv : DistinctKeys v) {t : JsString} :
    canonicalJson v = .ok t ↔ IJson v ∧ t = compactText v.sorted :=
  encodeWith_eq_ok dialect hv

theorem parseCanonicalJson_eq_ok {t : JsString} {label : String} {v : JsValue} :
    parseCanonicalJson t label = .ok v ↔ IJson v ∧ v.sorted = v ∧ t = compactText v := by
  rw [← jsonParse_encodeWith_iff dialect]
  simp only [parseCanonicalJson, bind_eq_ok, orThrow_eq_ok, reject_eq_ok, pure_eq_ok, not_not,
    exists_unit]
  constructor
  · rintro ⟨_, hparse, _, hencode, rfl, rfl⟩
    exact ⟨hparse, hencode⟩
  · rintro ⟨hparse, hencode⟩
    exact ⟨v, hparse, t, hencode, rfl, rfl⟩

/-! ### The bijection -/

open CanonicalJson (Input FitsLimit)

private theorem canonicalJson_of_iJson {v : JsValue} (hv : IJson v) :
    CanonicalJson.canonicalJson v = .ok (compactText v.sorted) :=
  (CanonicalJson.canonicalJson_eq_ok hv.distinctKeys).mpr ⟨hv, rfl⟩

private theorem canonicalJson_eq_iff_same {v w : JsValue} (hv : IJson v) (hw : IJson w) :
    CanonicalJson.canonicalJson v = CanonicalJson.canonicalJson w ↔ Same v w := by
  rw [same_iff_sorted_eq hv.distinctKeys hw.distinctKeys, canonicalJson_of_iJson hv,
    canonicalJson_of_iJson hw, Except.ok.injEq]
  exact ⟨compactText_injective hv.sorted hw.sorted, fun h ↦ by rw [h]⟩

private theorem parseCanonicalJson_sorted {v : JsValue} (hv : IJson v) {input : Input}
    (hinput : input.Carries (compactText v.sorted)) {maxBytes : JsNumber}
    (hfits : FitsLimit maxBytes (byteLength (compactText v.sorted))) (label : String) :
    CanonicalJson.parseCanonicalJson input maxBytes label = .ok v.sorted :=
  CanonicalJson.parseCanonicalJson_eq_ok.mpr ⟨hv.sorted, v.sorted_sorted, hinput, hfits⟩

private theorem same_sorted {v : JsValue} (hv : IJson v) : Same v.sorted v :=
  (same_iff_sorted_eq hv.sorted.distinctKeys hv.distinctKeys).mpr v.sorted_sorted

/-- An accepted value has sorted members, so it is determined by what it is the same as. -/
private theorem accepted_eq {maxBytes : JsNumber} {label : String} {i : Input} {v w : JsValue}
    (hv : CanonicalJson.parseCanonicalJson i maxBytes label = .ok v) (hw : DistinctKeys w)
    (hsame : Same v w) : w.sorted = v := by
  obtain ⟨hdata, hsorted, -, -⟩ := CanonicalJson.parseCanonicalJson_eq_ok.mp hv
  rw [← (same_iff_sorted_eq hdata.distinctKeys hw).mp hsame, hsorted]

/-- **Canonical JSON is a bijection** between the interoperable values, objects taken as finite
maps, and the texts the parser accepts: exactly these values have a text; values have one text
exactly when they are the same; the parser takes the text back to the value; it accepts nothing
but the texts of these values within its bound; and whatever else parses to the value of an
accepted text is refused. The copy of the bundle module writes and accepts the same. -/
theorem canonicalJson_bijection (maxBytes : JsNumber) (label : String) :
    (∀ v, DistinctKeys v → ((∃ t, CanonicalJson.canonicalJson v = .ok t) ↔ IJson v)) ∧
    (∀ v w, IJson v → IJson w →
      (CanonicalJson.canonicalJson v = CanonicalJson.canonicalJson w ↔ Same v w)) ∧
    (∀ v t, IJson v → CanonicalJson.canonicalJson v = .ok t → ∀ input : Input, input.Carries t →
      FitsLimit maxBytes (byteLength t) →
      ∃ w, CanonicalJson.parseCanonicalJson input maxBytes label = .ok w ∧ Same w v) ∧
    (∀ input : Input, (∃ w, CanonicalJson.parseCanonicalJson input maxBytes label = .ok w) ↔
      ∃ v t, IJson v ∧ CanonicalJson.canonicalJson v = .ok t ∧ input.Carries t ∧
        FitsLimit maxBytes (byteLength t)) ∧
    (∀ (input : Input) w, CanonicalJson.parseCanonicalJson input maxBytes label = .ok w →
      IJson w ∧ ∃ t, CanonicalJson.canonicalJson w = .ok t ∧ input.Carries t) ∧
    (∀ (i j : Input) v w, CanonicalJson.parseCanonicalJson i maxBytes label = .ok v →
      CanonicalJson.parseCanonicalJson j maxBytes label = .ok w → Same v w →
      ∃ t, i.Carries t ∧ j.Carries t) ∧
    (∀ (i j : Input) v w u, CanonicalJson.parseCanonicalJson i maxBytes label = .ok v →
      j.Carries u → jsonParse u = some w → Same v w → ¬ i.Carries u →
      ∃ e, CanonicalJson.parseCanonicalJson j maxBytes label = .error e) ∧
    (∀ v t, DistinctKeys v → (canonicalJson v = .ok t ↔ CanonicalJson.canonicalJson v = .ok t)) ∧
    (∀ t v, FitsLimit maxBytes (byteLength t) → (parseCanonicalJson t label = .ok v ↔
      CanonicalJson.parseCanonicalJson (.text t) maxBytes label = .ok v)) := by
  refine ⟨?_, fun v w ↦ canonicalJson_eq_iff_same, ?_, ?_, ?_, ?_, ?_, ?_, ?_⟩
  · intro v hv
    refine ⟨?_, fun hdata ↦ ⟨_, canonicalJson_of_iJson hdata⟩⟩
    rintro ⟨t, ht⟩
    exact ((CanonicalJson.canonicalJson_eq_ok hv).mp ht).1
  · intro v t hv ht input hinput hfits
    obtain ⟨-, rfl⟩ := (CanonicalJson.canonicalJson_eq_ok hv.distinctKeys).mp ht
    exact ⟨v.sorted, parseCanonicalJson_sorted hv hinput hfits label, same_sorted hv⟩
  · intro input
    constructor
    · rintro ⟨w, hw⟩
      obtain ⟨hdata, hsorted, hcarries, hfits⟩ := CanonicalJson.parseCanonicalJson_eq_ok.mp hw
      refine ⟨w, compactText w, hdata, ?_, hcarries, hfits⟩
      rw [canonicalJson_of_iJson hdata, hsorted]
    · rintro ⟨v, t, hv, ht, hcarries, hfits⟩
      obtain ⟨-, rfl⟩ := (CanonicalJson.canonicalJson_eq_ok hv.distinctKeys).mp ht
      exact ⟨v.sorted, parseCanonicalJson_sorted hv hcarries hfits label⟩
  · intro input w hw
    obtain ⟨hdata, hsorted, hcarries, -⟩ := CanonicalJson.parseCanonicalJson_eq_ok.mp hw
    refine ⟨hdata, compactText w, ?_, hcarries⟩
    rw [canonicalJson_of_iJson hdata, hsorted]
  · intro i j v w hv hw hsame
    obtain ⟨-, -, hi, -⟩ := CanonicalJson.parseCanonicalJson_eq_ok.mp hv
    obtain ⟨hdata, hsorted, hj, -⟩ := CanonicalJson.parseCanonicalJson_eq_ok.mp hw
    obtain rfl : w = v := hsorted.symm.trans (accepted_eq hv hdata.distinctKeys hsame)
    exact ⟨compactText w, hi, hj⟩
  · intro i j v w u hv hj hparse hsame hi
    -- Were `j` accepted, its text would be the compact text of `v`, which `i` carries.
    cases hresult : CanonicalJson.parseCanonicalJson j maxBytes label with
    | error e => exact ⟨e, rfl⟩
    | ok r =>
      obtain ⟨hdata, hsorted, hjr, -⟩ := CanonicalJson.parseCanonicalJson_eq_ok.mp hresult
      obtain rfl := hj.unique hjr
      obtain rfl : r = w := Option.some.inj ((jsonParse_compactText hdata).symm.trans hparse)
      obtain rfl : r = v := hsorted.symm.trans (accepted_eq hv hdata.distinctKeys hsame)
      exact absurd (CanonicalJson.parseCanonicalJson_eq_ok.mp hv).2.2.1 hi
  · intro v t hv
    rw [canonicalJson_eq_ok hv, CanonicalJson.canonicalJson_eq_ok hv]
  · intro t v hfits
    rw [parseCanonicalJson_eq_ok, CanonicalJson.parseCanonicalJson_eq_ok]
    constructor
    · rintro ⟨hv, hsorted, rfl⟩
      exact ⟨hv, hsorted, rfl, hfits⟩
    · rintro ⟨hv, hsorted, rfl, -⟩
      exact ⟨hv, hsorted, rfl⟩

end ApiMigrator.App.SourceBundle
