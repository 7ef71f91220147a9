import ApiMigrator.Foundation.Base64

/-!
Base64 in the standard alphabet, with padding. It has four characters for each three bytes that
have begun, and reading gives back the bytes that were written.
-/

set_option autoImplicit false
set_option relaxedAutoImplicit false

namespace Foundation.Base64

open Text

/-- The digit of the standard alphabet for one of the other. -/
def standardDigit (c : UInt16) : UInt16 :=
  if c = 0x2d then 0x2b else if c = 0x5f then 0x2f else c

/-- `toString("base64")` -/
def base64 (bytes : Bytes) : JsString :=
  (base64url bytes).map standardDigit ++ List.replicate ((3 - bytes.length % 3) % 3) 0x3d

private theorem base64Value_standardDigit (c : UInt16) :
    base64Value (standardDigit c) = base64Value c := by
  rw [standardDigit]
  split_ifs with hminus hlow
  · rw [hminus]
    decide
  · rw [hlow]
    decide
  · rfl

private theorem filterMap_padding (n : ℕ) :
    (List.replicate n (0x3d : UInt16)).filterMap base64Value = [] := by
  rw [List.filterMap_eq_nil_iff]
  intro c hc
  rw [List.eq_of_mem_replicate hc]
  decide

theorem base64Decode_base64 (bytes : Bytes) : base64Decode (base64 bytes) = bytes := by
  have hdigits : ((base64url bytes).map standardDigit).filterMap base64Value =
      (base64url bytes).filterMap base64Value := by
    rw [List.filterMap_map]
    exact congrArg (List.filterMap · _) (funext base64Value_standardDigit)
  rw [base64Decode, base64, List.filterMap_append, filterMap_padding, List.append_nil, hdigits]
  exact base64Decode_base64url bytes

private theorem length_base64url (bytes : Bytes) :
    (base64url bytes).length = (4 * bytes.length + 2) / 3 := by
  induction bytes using base64url.induct with
  | case1 => rfl
  | case2 a => simp [base64url]
  | case3 a b => simp [base64url]
  | case4 a b c rest ih =>
    simp only [base64url, List.length_cons, ih]
    omega

theorem length_base64 (bytes : Bytes) : (base64 bytes).length = 4 * ((bytes.length + 2) / 3) := by
  rw [base64, List.length_append, List.length_map, List.length_replicate, length_base64url]
  omega

theorem base64_ascii (bytes : Bytes) : ∀ c ∈ base64 bytes, c.toNat < 0x80 := by
  intro c hc
  rcases List.mem_append.mp hc with hc | hc
  · obtain ⟨d, hd, rfl⟩ := List.mem_map.mp hc
    have hascii := (base64url_ascii bytes d hd).1
    rw [standardDigit]
    split_ifs
    · decide
    · decide
    · exact hascii
  · rw [List.eq_of_mem_replicate hc]
    decide

end Foundation.Base64
