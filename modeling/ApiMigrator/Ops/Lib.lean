import ApiMigrator.Foundation.Binary
import ApiMigrator.Foundation.CanonicalEncoder
import ApiMigrator.Foundation.Pattern

/-!
The part of `deployment/lib.mjs` that the records of the deployment tools are written with: its
strict canonical JSON and its digests.
-/

set_option autoImplicit false
set_option relaxedAutoImplicit false

namespace ApiMigrator.Ops.Lib

open Foundation.Text Foundation.Number Foundation.Json Foundation.Outcome Foundation.Pattern
open Foundation.Binary

def assertValidUnicode : JsString → Except String Unit :=
  rejectUnpaired "canonical JSON contains an unpaired high surrogate"
    "canonical JSON contains an unpaired low surrogate"

def refusal : Exotic → String
  | .undefined | .unsupported | .nonPlainObject => "canonical JSON contains an unsupported value"
  | .cyclic => "canonical JSON cannot contain cycles"
  | .irregularArray => "canonical JSON cannot contain sparse or extended arrays"
  | .hidden => "canonical JSON cannot contain hidden or symbolic members"
  | .accessor => "canonical JSON cannot contain accessors or hidden members"

def checkMember (m : Encoded) : Except String Unit := do
  assertValidUnicode m.1
  reject (m.2.1 matches .exotic .accessor) (refusal .accessor)
  reject (m.2.1 matches .exotic .undefined) "canonical JSON cannot contain undefined members"

private theorem checkMember_eq_ok (m : Encoded) :
    checkMember m = .ok () ↔ isWellFormed m.1 = true ∧ m.2.1.isHole = false := by
  obtain ⟨key, v, text⟩ := m
  simp only [checkMember, assertValidUnicode, bind_eq_ok, reject_eq_ok, rejectUnpaired_eq_ok,
    exists_unit]
  cases v with
  | exotic kind => cases kind <;> simp [JsValue.isHole]
  | null | bool | num | str | arr | obj => simp [JsValue.isHole]

def dialect : Dialect where
  checkString := assertValidUnicode
  unsafeNumber := "canonical JSON numbers must be safe non-negative-zero integers"
  refusal := refusal
  memberTexts := checkedMemberTexts checkMember
  checkString_eq_ok := fun _ ↦ rejectUnpaired_eq_ok
  memberTexts_eq_ok := checkedMemberTexts_eq_ok checkMember_eq_ok

def canonicalJson (value : JsValue) : Except String JsString := encodeWith dialect value

/-- The encoder writes a value with its members in order as its compact text. -/
theorem canonicalJson_of_canonical {v : JsValue} (hv : IJson v) (hcanonical : Canonical v) :
    canonicalJson v = .ok (compactText v) := by
  refine (encodeWith_eq_ok dialect hcanonical.1).mpr ⟨hv, ?_⟩
  rw [hcanonical.2]

theorem eq_compactText_of_canonicalJson {v : JsValue} (hcanonical : Canonical v) {t : JsString}
    (h : canonicalJson v = .ok t) : IJson v ∧ t = compactText v := by
  obtain ⟨hv, ht⟩ := (encodeWith_eq_ok dialect hcanonical.1).mp h
  rw [hcanonical.2] at ht
  exact ⟨hv, ht⟩

/-! ### Digests -/

/-- `sha256:` and the hexadecimal digest. -/
def sha256 (H : HashFunction 32) (bytes : Bytes) : JsString := js "sha256:" ++ H.hex bytes

theorem isDigestText_sha256 (H : HashFunction 32) (bytes : Bytes) :
    isDigestText (sha256 H bytes) = true := by
  have hstart : startsWith (sha256 H bytes) "sha256:" = true := by
    simp [startsWith, sha256]
  have hdrop : (sha256 H bytes).drop 7 = H.hex bytes := rfl
  rw [isDigestText, hstart, hdrop, Bool.true_and]
  exact H.isHexOfLength_hex bytes

/-- Digests of one hash are equal exactly when the raw digests are. -/
theorem sha256_injOn {H : HashFunction 32} {a b : Bytes} (h : sha256 H a = sha256 H b) :
    H.digest a = H.digest b :=
  hexText_injective (List.append_cancel_left h)

end ApiMigrator.Ops.Lib
