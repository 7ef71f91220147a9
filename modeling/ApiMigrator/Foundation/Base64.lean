import ApiMigrator.Foundation.Pattern
import Mathlib.Tactic.IntervalCases

/-!
Base64url texts without padding. Three bytes are written as four digits; a last group of one or two
bytes takes two or three. Reading skips what is no digit, takes the digits of both alphabets, and
gives back the bytes that were written.
-/

set_option autoImplicit false
set_option relaxedAutoImplicit false

namespace Foundation.Base64

open Text

/-- The digit of a number below 64. -/
def base64Digit (n : ℕ) : UInt16 :=
  if n < 26 then UInt16.ofNat (0x41 + n)
  else if n < 52 then UInt16.ofNat (0x61 + (n - 26))
  else if n < 62 then UInt16.ofNat (0x30 + (n - 52))
  else if n = 62 then 0x2d
  else 0x5f

def base64Value (c : UInt16) : Option ℕ :=
  let n := c.toNat
  if 0x41 ≤ n ∧ n ≤ 0x5a then some (n - 0x41)
  else if 0x61 ≤ n ∧ n ≤ 0x7a then some (n - 0x61 + 26)
  else if 0x30 ≤ n ∧ n ≤ 0x39 then some (n - 0x30 + 52)
  else if c = 0x2d ∨ c = 0x2b then some 62
  else if c = 0x5f ∨ c = 0x2f then some 63
  else none

/-- `toString("base64url")` -/
def base64url : Bytes → JsString
  | [] => []
  | [a] => [base64Digit (a.toNat / 4), base64Digit (a.toNat % 4 * 16)]
  | [a, b] =>
    [base64Digit (a.toNat / 4), base64Digit (a.toNat % 4 * 16 + b.toNat / 16),
      base64Digit (b.toNat % 16 * 4)]
  | a :: b :: c :: rest =>
    base64Digit (a.toNat / 4) :: base64Digit (a.toNat % 4 * 16 + b.toNat / 16) ::
      base64Digit (b.toNat % 16 * 4 + c.toNat / 64) :: base64Digit (c.toNat % 64) ::
        base64url rest

/-- The bytes that numbers below 64 spell, the last ones dropped where they spell no whole byte. -/
def bytesOfDigits : List ℕ → Bytes
  | v :: w :: x :: y :: rest =>
    UInt8.ofNat (v * 4 + w / 16) :: UInt8.ofNat (w % 16 * 16 + x / 4) ::
      UInt8.ofNat (x % 4 * 64 + y) :: bytesOfDigits rest
  | [v, w, x] => [UInt8.ofNat (v * 4 + w / 16), UInt8.ofNat (w % 16 * 16 + x / 4)]
  | [v, w] => [UInt8.ofNat (v * 4 + w / 16)]
  | _ => []

/-- `Buffer.from(s, "base64url")` -/
def base64Decode (s : JsString) : Bytes := bytesOfDigits (s.filterMap base64Value)

theorem base64Value_base64Digit {n : ℕ} (hn : n < 64) : base64Value (base64Digit n) = some n := by
  interval_cases n <;> decide

/-- A digit is one of 64 ASCII characters, none of them a dot. -/
theorem base64Digit_ascii {n : ℕ} (hn : n < 64) :
    (base64Digit n).toNat < 0x80 ∧ base64Digit n ≠ 0x2e := by
  interval_cases n <;> decide

private theorem ofNat_eq {b : UInt8} {n : ℕ} (h : n = b.toNat) : UInt8.ofNat n = b := by
  rw [h, UInt8.ofNat_toNat]

/-- Reading gives back the bytes that were written. -/
theorem base64Decode_base64url (bytes : Bytes) : base64Decode (base64url bytes) = bytes := by
  unfold base64Decode
  induction bytes using base64url.induct with
  | case1 => rfl
  | case2 a =>
    have ha : a.toNat < 256 := a.toNat_lt
    rw [base64url, List.filterMap_cons_some (base64Value_base64Digit (by omega)),
      List.filterMap_cons_some (base64Value_base64Digit (by omega))]
    exact congrArg (fun x ↦ [x]) (ofNat_eq (by omega))
  | case3 a b =>
    have ha : a.toNat < 256 := a.toNat_lt
    have hb : b.toNat < 256 := b.toNat_lt
    rw [base64url, List.filterMap_cons_some (base64Value_base64Digit (by omega)),
      List.filterMap_cons_some (base64Value_base64Digit (by omega)),
      List.filterMap_cons_some (base64Value_base64Digit (by omega))]
    exact congrArg₂ (fun x y ↦ [x, y]) (ofNat_eq (by omega)) (ofNat_eq (by omega))
  | case4 a b c rest ih =>
    have ha : a.toNat < 256 := a.toNat_lt
    have hb : b.toNat < 256 := b.toNat_lt
    have hc : c.toNat < 256 := c.toNat_lt
    rw [base64url, List.filterMap_cons_some (base64Value_base64Digit (by omega)),
      List.filterMap_cons_some (base64Value_base64Digit (by omega)),
      List.filterMap_cons_some (base64Value_base64Digit (by omega)),
      List.filterMap_cons_some (base64Value_base64Digit (by omega)), bytesOfDigits, ih,
      ofNat_eq (b := a) (by omega), ofNat_eq (b := b) (by omega), ofNat_eq (b := c) (by omega)]

/-- A base64url text is made of ASCII characters other than the dot. -/
theorem base64url_ascii (bytes : Bytes) : ∀ c ∈ base64url bytes, c.toNat < 0x80 ∧ c ≠ 0x2e := by
  induction bytes using base64url.induct with
  | case1 => exact fun c hc ↦ absurd hc List.not_mem_nil
  | case2 a =>
    have ha : a.toNat < 256 := a.toNat_lt
    simp only [base64url, List.forall_mem_cons, List.not_mem_nil, false_implies, implies_true,
      and_true]
    exact ⟨base64Digit_ascii (by omega), base64Digit_ascii (by omega)⟩
  | case3 a b =>
    have ha : a.toNat < 256 := a.toNat_lt
    have hb : b.toNat < 256 := b.toNat_lt
    simp only [base64url, List.forall_mem_cons, List.not_mem_nil, false_implies, implies_true,
      and_true]
    exact ⟨base64Digit_ascii (by omega), base64Digit_ascii (by omega),
      base64Digit_ascii (by omega)⟩
  | case4 a b c rest ih =>
    have ha : a.toNat < 256 := a.toNat_lt
    have hb : b.toNat < 256 := b.toNat_lt
    have hc : c.toNat < 256 := c.toNat_lt
    rw [base64url]
    simp only [List.forall_mem_cons]
    exact ⟨base64Digit_ascii (by omega), base64Digit_ascii (by omega),
      base64Digit_ascii (by omega), base64Digit_ascii (by omega), ih⟩

end Foundation.Base64
