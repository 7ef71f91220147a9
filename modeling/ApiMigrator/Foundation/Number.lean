import ApiMigrator.Foundation.Text
import Mathlib.Data.Nat.Digits.Lemmas

/-!
ECMAScript numbers as a decimal literal denotes them: the exact decimal value rounded to the
nearest double, ties to even. Integers below `2 ^ 53` are their own doubles, so their decimal text
reads back as the same number.
-/

set_option autoImplicit false
set_option relaxedAutoImplicit false

namespace Foundation.Number

open Text

/-- A double: an integral value other than `-0`, the value `-0`, a proper binary fraction
`± numerator / 2 ^ exponent`, an infinity, or NaN. -/
inductive JsNumber
  | int (value : ℤ)
  | negZero
  | fraction (negative : Bool) (numerator exponent : ℕ)
  | infinite (negative : Bool)
  | nan
  deriving DecidableEq

def maxSafeInteger : ℤ := 2 ^ 53 - 1

/-- `Number.isSafeInteger` for a value that is not `-0`. -/
def isSafe (i : ℤ) : Bool := decide (-maxSafeInteger ≤ i ∧ i ≤ maxSafeInteger)

/-- The integer for which `Number.isSafeInteger` holds. `-0` counts as zero. -/
def safeInteger : JsNumber → Option ℤ
  | .int i => if isSafe i then some i else none
  | .negZero => some 0
  | _ => none

theorem isSafe_of_safeInteger {n : JsNumber} {i : ℤ} (h : safeInteger n = some i) :
    isSafe i = true := by
  cases n with
  | int j =>
    simp only [safeInteger, Option.ite_none_right_eq_some, Option.some.injEq] at h
    obtain ⟨hsafe, rfl⟩ := h
    exact hsafe
  | negZero =>
    cases h
    decide
  | fraction _ _ _ => cases h
  | infinite _ => cases h
  | nan => cases h

/-- The number with the given sign and integral magnitude. -/
def signed (negative : Bool) (magnitude : ℕ) : JsNumber :=
  if negative then if magnitude = 0 then .negZero else .int (-magnitude) else .int magnitude

/-- The quotient `n / d` rounded to an integer, ties to even. -/
def roundHalfEven (n d : ℕ) : ℕ :=
  if 2 * (n % d) < d then n / d
  else if d < 2 * (n % d) then n / d + 1
  else if n / d % 2 = 0 then n / d else n / d + 1

/-- Numerator of `n / (d * 2 ^ e)` over `scaledDenominator`. -/
def scaledNumerator (n : ℕ) (e : ℤ) : ℕ := if 0 ≤ e then n else n * 2 ^ (-e).toNat

def scaledDenominator (d : ℕ) (e : ℤ) : ℕ := if 0 ≤ e then d * 2 ^ e.toNat else d

/-- The exponent of the last of the 53 bits kept of `n / d`; `-1074` for the subnormals. -/
def lastBitExponent (n d : ℕ) : ℤ :=
  let guess : ℤ := n.log2 - d.log2 - 52
  max (if scaledNumerator n guess < 2 ^ 52 * scaledDenominator d guess then guess - 1 else guess)
    (-1074)

/-- Every finite double is below two to this power. -/
def overflowExponent : ℕ := 1024

/-- Magnitudes from here on round to an infinity. -/
def overflowBound : ℕ := 2 ^ overflowExponent

/-- The double nearest to `± n / d`. -/
def toDouble (negative : Bool) (n d : ℕ) : JsNumber :=
  if n = 0 then signed negative 0
  else
    let e := lastBitExponent n d
    let m := roundHalfEven (scaledNumerator n e) (scaledDenominator d e)
    if 0 ≤ e then
      if overflowBound ≤ m * 2 ^ e.toNat then .infinite negative else signed negative (m * 2 ^ e.toNat)
    else if m % 2 ^ (-e).toNat = 0 then signed negative (m / 2 ^ (-e).toNat)
    else
      let common := m.gcd (2 ^ (-e).toNat)
      .fraction negative (m / common) ((-e).toNat - common.log2)

private theorem roundHalfEven_one (n : ℕ) : roundHalfEven n 1 = n := by
  rw [roundHalfEven, Nat.mod_one, if_pos (by omega), Nat.div_one]

private theorem le_overflowBound : 2 ^ 53 ≤ overflowBound :=
  Nat.pow_le_pow_right Nat.two_pos (show 53 ≤ overflowExponent by decide)

/-- An integer of at most 53 bits is a double. -/
theorem toDouble_one {n : ℕ} (hn : n < 2 ^ 53) (negative : Bool) :
    toDouble negative n 1 = signed negative n := by
  by_cases hzero : n = 0
  · rw [toDouble, if_pos hzero, hzero]
  · have hlog : n.log2 < 53 := (Nat.log2_lt hzero).mpr hn
    have hone : Nat.log2 1 = 0 := by decide
    have hexp : lastBitExponent n 1 ≤ 0 := by
      simp only [lastBitExponent, hone]
      split_ifs <;> omega
    rw [toDouble, if_neg hzero]
    rcases hexp.eq_or_lt with hzeroExp | hneg
    · have hsmall : ¬ overflowBound ≤ n :=
        not_le.mpr (hn.trans_le le_overflowBound)
      simp only [hzeroExp, scaledNumerator, scaledDenominator, le_refl, if_true, Int.toNat_zero,
        pow_zero, mul_one, roundHalfEven_one, if_neg hsmall]
    · have hnot : ¬ 0 ≤ lastBitExponent n 1 := by omega
      have hpos : 0 < 2 ^ (-lastBitExponent n 1).toNat := Nat.two_pow_pos _
      simp only [scaledNumerator, scaledDenominator, if_neg hnot, roundHalfEven_one,
        Nat.mul_mod_left, if_true, Nat.mul_div_cancel _ hpos]

/-- Decimal digits, most significant first. -/
def decimalDigits (n : ℕ) : JsString :=
  if n = 0 then [0x30] else ((Nat.digits 10 n).map fun d ↦ UInt16.ofNat (0x30 + d)).reverse

/-- `String(value)` of an integer of at most 21 digits. -/
def integerText (i : ℤ) : JsString :=
  if i < 0 then 0x2d :: decimalDigits i.natAbs else decimalDigits i.natAbs

def isDigit (c : UInt16) : Bool := decide (0x30 ≤ c.toNat ∧ c.toNat ≤ 0x39)

/-- A lowercase hexadecimal digit. -/
def hexDigit (n : ℕ) : UInt16 := if n < 10 then UInt16.ofNat (0x30 + n) else UInt16.ofNat (0x57 + n)

def digitValue (c : UInt16) : ℕ := c.toNat - 0x30

/-- The value of a run of decimal digits. -/
def digitsValue (ds : JsString) : ℕ := ds.foldl (fun acc c ↦ acc * 10 + digitValue c) 0

private theorem toNat_digit {d : ℕ} (hd : d < 10) : (UInt16.ofNat (0x30 + d)).toNat = 0x30 + d :=
  UInt16.toNat_ofNat_of_lt' (by
    have : UInt16.size = 65536 := rfl
    omega)

theorem isDigit_of_mem_decimalDigits {n : ℕ} {c : UInt16} (hc : c ∈ decimalDigits n) :
    isDigit c = true := by
  unfold decimalDigits at hc
  split_ifs at hc
  · rw [List.mem_singleton] at hc
    subst hc
    decide
  · rw [List.mem_reverse, List.mem_map] at hc
    obtain ⟨d, hd, rfl⟩ := hc
    have hlt : d < 10 := Nat.digits_lt_base (by decide) hd
    rw [isDigit, toNat_digit hlt]
    exact decide_eq_true (by omega)

theorem decimalDigits_ne_nil (n : ℕ) : decimalDigits n ≠ [] := by
  unfold decimalDigits
  split_ifs with h
  · exact List.cons_ne_nil _ _
  · simpa only [ne_eq, List.reverse_eq_nil_iff, List.map_eq_nil_iff, Nat.digits_eq_nil_iff_eq_zero]
      using h

/-- A number of more than one digit does not start with zero. -/
theorem decimalDigits_leading {n : ℕ} {rest : JsString} (h : decimalDigits n = 0x30 :: rest) :
    rest = [] := by
  unfold decimalDigits at h
  split_ifs at h with hzero
  · exact (List.cons.inj h).2.symm
  · exfalso
    have hne : Nat.digits 10 n ≠ [] := by
      simpa only [ne_eq, Nat.digits_eq_nil_iff_eq_zero] using hzero
    have hhead : ((Nat.digits 10 n).map fun d ↦ UInt16.ofNat (0x30 + d)).reverse.head? =
        some 0x30 := by rw [h, List.head?_cons]
    rw [List.head?_reverse, List.getLast?_map, List.getLast?_eq_some_getLast hne, Option.map_some,
      Option.some.injEq] at hhead
    have hlt : (Nat.digits 10 n).getLast hne < 10 :=
      Nat.digits_lt_base (by decide) (List.getLast_mem hne)
    have hval := congrArg UInt16.toNat hhead
    rw [toNat_digit hlt] at hval
    have hlast := Nat.getLast_digit_ne_zero 10 hzero
    have h48 : (0x30 : UInt16).toNat = 0x30 := rfl
    omega

private theorem foldl_digits (ds : List ℕ) (hds : ∀ d ∈ ds, d < 10) :
    (ds.map fun d ↦ UInt16.ofNat (0x30 + d)).reverse.foldl (fun acc c ↦ acc * 10 + digitValue c) 0 =
      Nat.ofDigits 10 ds := by
  induction ds with
  | nil => rfl
  | cons d ds ih =>
    have hd : digitValue (UInt16.ofNat (0x30 + d)) = d := by
      rw [digitValue, toNat_digit (hds d List.mem_cons_self)]
      omega
    rw [List.map_cons, List.reverse_cons, List.foldl_append,
      ih fun e he ↦ hds e (List.mem_cons_of_mem d he), List.foldl_cons, List.foldl_nil, hd,
      Nat.ofDigits_cons]
    ring

theorem digitsValue_decimalDigits (n : ℕ) : digitsValue (decimalDigits n) = n := by
  unfold digitsValue decimalDigits
  split_ifs with h
  · subst h
    rfl
  · rw [foldl_digits _ fun d hd ↦ Nat.digits_lt_base (by decide) hd, Nat.ofDigits_digits]

theorem decimalDigits_injective {m n : ℕ} (h : decimalDigits m = decimalDigits n) : m = n := by
  rw [← digitsValue_decimalDigits m, h, digitsValue_decimalDigits]

end Foundation.Number
