import ApiMigrator.Foundation.Number
import Mathlib.Algebra.Order.Field.Rat
import Mathlib.Tactic.Linarith
import Mathlib.Tactic.Positivity

/-!
ECMAScript arithmetic on doubles: sums and differences are exact values rounded to a double. The
rounding keeps the sign, so that a positive difference orders its operands.
-/

set_option autoImplicit false
set_option relaxedAutoImplicit false

namespace Foundation.Number

namespace JsNumber

/-- The value of a finite number. -/
def value : JsNumber → ℚ
  | .int i => i
  | .negZero => 0
  | .fraction negative numerator exponent =>
    (if negative then -(numerator : ℚ) else numerator) / 2 ^ exponent
  | .infinite _ => 0
  | .nan => 0

/-- `Number.isFinite`. -/
def isFinite : JsNumber → Bool
  | .infinite _ => false
  | .nan => false
  | _ => true

/-- `Number.isSafeInteger`. -/
def isSafeInteger (n : JsNumber) : Bool := (safeInteger n).isSome

/-- `a < b`. -/
def lt : JsNumber → JsNumber → Bool
  | .nan, _ => false
  | _, .nan => false
  | .infinite negative, .infinite negative' => negative && !negative'
  | .infinite negative, _ => negative
  | _, .infinite negative => !negative
  | a, b => decide (a.value < b.value)

/-- `a <= b`. -/
def le (a b : JsNumber) : Bool := !(a == .nan) && !(b == .nan) && !lt b a

/-- `-a`. -/
def neg : JsNumber → JsNumber
  | .int i => if i = 0 then .negZero else .int (-i)
  | .negZero => .int 0
  | .fraction negative numerator exponent => .fraction (!negative) numerator exponent
  | .infinite negative => .infinite !negative
  | .nan => .nan

/-- The double nearest to a rational. -/
def ofRat (q : ℚ) : JsNumber := toDouble (decide (q < 0)) q.num.natAbs q.den

/-- `a + b`. -/
def add : JsNumber → JsNumber → JsNumber
  | .nan, _ => .nan
  | _, .nan => .nan
  | .infinite negative, .infinite negative' =>
    if negative = negative' then .infinite negative else .nan
  | .infinite negative, _ => .infinite negative
  | _, .infinite negative => .infinite negative
  | .negZero, .negZero => .negZero
  | a, b => ofRat (a.value + b.value)

/-- `a - b`. -/
def sub (a b : JsNumber) : JsNumber := a.add b.neg

/-- `Math.min(a, b)`. -/
def min (a b : JsNumber) : JsNumber :=
  if a = .nan ∨ b = .nan then .nan
  else if lt b a ∨ b = .negZero ∧ a = .int 0 then b
  else a

variable {a b : JsNumber}

theorem isFinite_of_isSafeInteger (h : a.isSafeInteger = true) : a.isFinite = true := by
  cases a with
  | int _ => rfl
  | negZero => rfl
  | fraction _ _ _ => rfl
  | infinite _ => cases h
  | nan => cases h

theorem lt_iff_value (ha : a.isFinite = true) (hb : b.isFinite = true) :
    a.lt b = true ↔ a.value < b.value := by
  cases a <;> cases b <;> first
    | exact decide_eq_true_iff
    | exact absurd ha Bool.false_ne_true
    | exact absurd hb Bool.false_ne_true
    | simp [lt]

theorem le_iff_value (ha : a.isFinite = true) (hb : b.isFinite = true) :
    a.le b = true ↔ a.value ≤ b.value := by
  have hanan : (a == .nan) = false := by
    cases a <;> first | rfl | exact absurd ha Bool.false_ne_true
  have hbnan : (b == .nan) = false := by
    cases b <;> first | rfl | exact absurd hb Bool.false_ne_true
  rw [le, hanan, hbnan, ← not_lt, ← lt_iff_value hb ha]
  simp

theorem isFinite_neg (ha : a.isFinite = true) : a.neg.isFinite = true := by
  cases a with
  | int i =>
    rw [neg]
    split_ifs <;> rfl
  | negZero => rfl
  | fraction _ _ _ => rfl
  | infinite _ => cases ha
  | nan => cases ha

theorem value_neg (a : JsNumber) : a.neg.value = -a.value := by
  cases a with
  | int i =>
    rw [neg]
    split_ifs with h
    · simp [value, h]
    · simp [value]
  | negZero => simp [neg, value]
  | fraction negative numerator exponent =>
    cases negative <;> simp [neg, value, neg_div]
  | infinite _ => simp [neg, value]
  | nan => simp [neg, value]

theorem min_of_finite (ha : a.isFinite = true) (hb : b.isFinite = true) :
    (min a b).isFinite = true ∧ (min a b).value = Min.min a.value b.value := by
  have hnan : ¬ (a = .nan ∨ b = .nan) := by
    rintro (rfl | rfl)
    · cases ha
    · cases hb
  rw [min, if_neg hnan]
  simp only [lt_iff_value hb ha]
  split_ifs with h
  · refine ⟨hb, (min_eq_right ?_).symm⟩
    obtain h | ⟨rfl, rfl⟩ := h
    · exact h.le
    · simp [value]
  · push Not at h
    exact ⟨ha, (min_eq_left h.1).symm⟩

theorem le_eq_false (ha : a ≠ .nan) (hb : b ≠ .nan) : a.le b = false ↔ b.lt a = true := by
  simp [le, ha, hb]

theorem isFinite_or (ha : a ≠ .nan) : a.isFinite = true ∨ ∃ negative, a = .infinite negative := by
  cases a with
  | infinite negative => exact Or.inr ⟨negative, rfl⟩
  | nan => exact absurd rfl ha
  | int _ => exact Or.inl rfl
  | negZero => exact Or.inl rfl
  | fraction _ _ _ => exact Or.inl rfl

private theorem lt_infinite (ha : a.isFinite = true) (negative : Bool) :
    a.lt (.infinite negative) = !negative ∧ (JsNumber.infinite negative).lt a = negative := by
  cases a <;> first | exact ⟨rfl, rfl⟩ | exact absurd ha Bool.false_ne_true

private theorem min_eq (ha : a ≠ .nan) (hb : b ≠ .nan) :
    min a b = if lt b a ∨ b = .negZero ∧ a = .int 0 then b else a := by
  rw [min, if_neg (by simp [ha, hb])]

/-- A minimum is positive where both numbers are. -/
theorem min_pos (ha : a ≠ .nan) (hb : b ≠ .nan) :
    (min a b).le (.int 0) = false ↔ (int 0).lt a = true ∧ (int 0).lt b = true := by
  have hmin : min a b ≠ .nan := by
    rw [min_eq ha hb]
    split_ifs
    · exact hb
    · exact ha
  rw [le_eq_false hmin (by simp)]
  obtain hfa | ⟨m, rfl⟩ := isFinite_or ha
  · obtain hfb | ⟨n, rfl⟩ := isFinite_or hb
    · have hmin := min_of_finite hfa hfb
      rw [lt_iff_value rfl hmin.1, lt_iff_value rfl hfa, lt_iff_value rfl hfb, hmin.2, lt_min_iff]
    · have h := lt_infinite hfa n
      have h0 := lt_infinite (a := .int 0) rfl n
      rw [min_eq ha hb]
      cases n <;> simp [h.2, h0.1]
  · obtain hfb | ⟨n, rfl⟩ := isFinite_or hb
    · have h := lt_infinite hfb m
      have h0 := lt_infinite (a := .int 0) rfl m
      rw [min_eq ha hb]
      cases m <;> simp [h.1, h0.1]
    · cases m <;> cases n <;> decide

/-! ### Signs -/

private theorem value_signed_nonpos (m : ℕ) : (signed true m).value ≤ 0 := by
  rw [signed, if_pos rfl]
  split_ifs
  · exact le_rfl
  · simp [value]

/-- Rounding a negative value gives no positive number. -/
theorem toDouble_not_pos (n d : ℕ) : (JsNumber.int 0).lt (toDouble true n d) = false := by
  have hsigned : ∀ m, (JsNumber.int 0).lt (signed true m) = false := by
    intro m
    have hfinite : (signed true m).isFinite = true := by
      rw [signed, if_pos rfl]
      split_ifs <;> rfl
    rw [← Bool.not_eq_true, lt_iff_value rfl hfinite, not_lt]
    exact (value_signed_nonpos m).trans (by simp [value])
  rw [toDouble]
  split_ifs
  · exact hsigned 0
  · dsimp only
    split_ifs
    · rfl
    · exact hsigned _
    · exact hsigned _
    · rw [← Bool.not_eq_true, lt_iff_value rfl rfl, not_lt]
      simp only [value, if_true, Int.cast_zero]
      exact div_nonpos_of_nonpos_of_nonneg (by simp) (by positivity)

theorem pos_of_ofRat {q : ℚ} (h : (JsNumber.int 0).lt (ofRat q) = true) : 0 < q := by
  by_contra hq
  obtain hneg | hzero := (not_lt.mp hq).lt_or_eq
  · rw [ofRat, decide_eq_true hneg, toDouble_not_pos] at h
    cases h
  · subst hzero
    cases h

private theorem toDouble_ne_nan (negative : Bool) (n d : ℕ) : toDouble negative n d ≠ .nan := by
  have hsigned : ∀ m, signed negative m ≠ .nan := by
    intro m
    rw [signed]
    split_ifs <;> simp
  rw [toDouble]
  split_ifs
  · exact hsigned 0
  · dsimp only
    split_ifs
    · simp
    · exact hsigned _
    · exact hsigned _
    · simp

private theorem sub_eq (ha : a.isFinite = true) (hb : b.isFinite = true) :
    a = .negZero ∧ b = .int 0 ∧ a.sub b = .negZero ∨ a.sub b = ofRat (a.value - b.value) := by
  have hb' := isFinite_neg hb
  rw [sub, sub_eq_add_neg, ← value_neg]
  cases a <;> cases hbneg : b.neg <;> rw [hbneg] at hb' <;> first
    | exact Or.inr rfl
    | exact absurd ha Bool.false_ne_true
    | exact absurd hb' Bool.false_ne_true
    | skip
  refine Or.inl ⟨rfl, ?_, rfl⟩
  cases b with
  | int i =>
    rw [neg] at hbneg
    split_ifs at hbneg with h
    rw [h]
  | negZero => cases hbneg
  | fraction _ _ _ => cases hbneg
  | infinite _ => cases hbneg
  | nan => cases hbneg

theorem sub_ne_nan (ha : a.isFinite = true) (hb : b.isFinite = true) : a.sub b ≠ .nan := by
  obtain ⟨-, -, h⟩ | h := sub_eq ha hb
  · rw [h]
    simp
  · rw [h]
    exact toDouble_ne_nan _ _ _

/-- A positive difference orders its operands. -/
theorem lt_of_sub_pos (ha : a.isFinite = true) (hb : b.isFinite = true)
    (h : (JsNumber.int 0).lt (a.sub b) = true) : b.value < a.value := by
  obtain ⟨-, -, hsub⟩ | hsub := sub_eq ha hb
  · rw [hsub] at h
    cases h
  · rw [hsub] at h
    exact sub_pos.mp (pos_of_ofRat h)

private theorem le_roundHalfEven (n d : ℕ) : n / d ≤ roundHalfEven n d := by
  rw [roundHalfEven]
  split_ifs <;> omega

private theorem lastBitExponent_one_le (n : ℕ) : lastBitExponent n 1 ≤ n.log2 := by
  have hone : Nat.log2 1 = 0 := by decide
  simp only [lastBitExponent, hone]
  split_ifs <;> omega

/-- Rounding a positive integer gives a positive number. -/
theorem toDouble_pos {n : ℕ} (hn : 0 < n) : (JsNumber.int 0).lt (toDouble false n 1) = true := by
  have hscaled : scaledDenominator 1 (lastBitExponent n 1) ≤
      scaledNumerator n (lastBitExponent n 1) := by
    rw [scaledDenominator, scaledNumerator]
    split_ifs with he
    · have hexp : (lastBitExponent n 1).toNat ≤ n.log2 := by
        have := lastBitExponent_one_le n
        omega
      rw [one_mul]
      exact (Nat.pow_le_pow_right Nat.two_pos hexp).trans (Nat.log2_self_le hn.ne')
    · exact Nat.mul_pos hn (Nat.two_pow_pos _)
  have hden : 0 < scaledDenominator 1 (lastBitExponent n 1) := by
    rw [scaledDenominator]
    split_ifs
    · exact Nat.mul_pos one_pos (Nat.two_pow_pos _)
    · exact one_pos
  have hm := (Nat.div_pos hscaled hden).trans_le (le_roundHalfEven _ _)
  have hsigned : ∀ k, 0 < k → (JsNumber.int 0).lt (signed false k) = true := by
    intro k hk
    have hpos : (0 : ℚ) < k := Nat.cast_pos.mpr hk
    rw [signed, if_neg Bool.false_ne_true, lt_iff_value rfl rfl]
    simpa [value] using hpos
  rw [toDouble, if_neg hn.ne']
  dsimp only
  generalize roundHalfEven (scaledNumerator n (lastBitExponent n 1))
    (scaledDenominator 1 (lastBitExponent n 1)) = m at hm
  split_ifs with he hover hdvd
  · rfl
  · exact hsigned _ (Nat.mul_pos hm (Nat.two_pow_pos _))
  · have hle := Nat.le_of_dvd hm (Nat.dvd_of_mod_eq_zero hdvd)
    exact hsigned _ (Nat.div_pos hle (Nat.two_pow_pos _))
  · rw [lt_iff_value rfl rfl]
    have hle := Nat.le_of_dvd hm (m.gcd_dvd_left (2 ^ (-lastBitExponent n 1).toNat))
    have hgcd := Nat.gcd_pos_of_pos_left (2 ^ (-lastBitExponent n 1).toNat) hm
    have hpos : (0 : ℚ) < (m / m.gcd (2 ^ (-lastBitExponent n 1).toNat) : ℕ) :=
      Nat.cast_pos.mpr (Nat.div_pos hle hgcd)
    simp only [value, Int.cast_zero, if_neg Bool.false_ne_true]
    positivity

theorem value_of_isSafeInteger (h : a.isSafeInteger = true) : ∃ i : ℤ, a.value = i := by
  cases a with
  | int i => exact ⟨i, rfl⟩
  | negZero => exact ⟨0, by simp [value]⟩
  | fraction _ _ _ => cases h
  | infinite _ => cases h
  | nan => cases h

theorem isSafeInteger_min (ha : a.isSafeInteger = true)
    (hb : b.isSafeInteger = true) : (a.min b).isSafeInteger = true := by
  have hnan : ¬ (a = .nan ∨ b = .nan) := by
    rintro (rfl | rfl)
    · cases ha
    · cases hb
  rw [min, if_neg hnan]
  split_ifs
  · exact hb
  · exact ha

/-- The difference of two integers is positive exactly where it orders them. -/
theorem sub_pos_iff (ha : a.isSafeInteger = true) (hb : b.isSafeInteger = true) :
    (JsNumber.int 0).lt (a.sub b) = true ↔ b.value < a.value := by
  have hfa := isFinite_of_isSafeInteger ha
  have hfb := isFinite_of_isSafeInteger hb
  refine ⟨lt_of_sub_pos hfa hfb, fun h ↦ ?_⟩
  obtain ⟨i, hi⟩ := value_of_isSafeInteger ha
  obtain ⟨j, hj⟩ := value_of_isSafeInteger hb
  obtain ⟨rfl, rfl, -⟩ | hsub := sub_eq hfa hfb
  · exact absurd h (by simp [value])
  · rw [hi, hj, Int.cast_lt] at h
    obtain ⟨n, hn⟩ := Int.eq_ofNat_of_zero_le (sub_pos.mpr h).le
    have hpos : 0 < n := by omega
    have hrat : (i : ℚ) - j = (n : ℚ) := by
      rw [← Int.cast_sub, hn]
      rfl
    have hnot : ¬ (n : ℚ) < 0 := not_lt.mpr (Nat.cast_nonneg n)
    rw [hsub, hi, hj, hrat, ofRat, decide_eq_false hnot, Rat.num_natCast, Rat.den_natCast,
      Int.natAbs_natCast]
    exact toDouble_pos hpos

end JsNumber

end Foundation.Number
