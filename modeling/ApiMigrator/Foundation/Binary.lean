import ApiMigrator.Foundation.Pattern

/-!
Big-endian integers, hexadecimal text and hash functions over bytes.
-/

set_option autoImplicit false
set_option relaxedAutoImplicit false

namespace Foundation.Binary

open Text Number Pattern

/-! ### Big-endian integers -/

/-- The low `width` bytes of `n`, most significant first. -/
def bigEndian : ℕ → ℕ → Bytes
  | 0, _ => []
  | width + 1, n => UInt8.ofNat (n / 256 ^ width) :: bigEndian width (n % 256 ^ width)

def readBigEndian : Bytes → ℕ
  | [] => 0
  | b :: bs => b.toNat * 256 ^ bs.length + readBigEndian bs

@[simp]
theorem length_bigEndian (width n : ℕ) : (bigEndian width n).length = width := by
  induction width generalizing n with
  | zero => rfl
  | succ width ih => rw [bigEndian, List.length_cons, ih]

theorem readBigEndian_lt (bs : Bytes) : readBigEndian bs < 256 ^ bs.length := by
  induction bs with
  | nil => exact Nat.one_pos
  | cons b bs ih =>
    have hb : b.toNat + 1 ≤ 256 := b.toNat_lt
    calc b.toNat * 256 ^ bs.length + readBigEndian bs
        < b.toNat * 256 ^ bs.length + 256 ^ bs.length := Nat.add_lt_add_left ih _
      _ = (b.toNat + 1) * 256 ^ bs.length := by ring
      _ ≤ 256 * 256 ^ bs.length := Nat.mul_le_mul_right _ hb
      _ = 256 ^ (b :: bs).length := by rw [List.length_cons, pow_succ, Nat.mul_comm]

theorem readBigEndian_bigEndian {width n : ℕ} (hn : n < 256 ^ width) :
    readBigEndian (bigEndian width n) = n := by
  induction width generalizing n with
  | zero =>
    rw [pow_zero, Nat.lt_one_iff] at hn
    rw [hn]
    rfl
  | succ width ih =>
    have hpos : 0 < 256 ^ width := Nat.pow_pos (by decide)
    have hhigh : n / 256 ^ width < 256 := by
      rw [Nat.div_lt_iff_lt_mul hpos, ← pow_succ']
      exact hn
    rw [bigEndian, readBigEndian, length_bigEndian, ih (Nat.mod_lt n hpos),
      UInt8.toNat_ofNat_of_lt' hhigh, Nat.div_add_mod']

theorem bigEndian_readBigEndian (bs : Bytes) : bigEndian bs.length (readBigEndian bs) = bs := by
  induction bs with
  | nil => rfl
  | cons b bs ih =>
    have hpos : 0 < 256 ^ bs.length := Nat.pow_pos (by decide)
    have hlow := readBigEndian_lt bs
    have hdiv : (b.toNat * 256 ^ bs.length + readBigEndian bs) / 256 ^ bs.length = b.toNat := by
      rw [Nat.mul_comm, Nat.mul_add_div hpos, Nat.div_eq_of_lt hlow, Nat.add_zero]
    have hmod : (b.toNat * 256 ^ bs.length + readBigEndian bs) % 256 ^ bs.length =
        readBigEndian bs := by
      rw [Nat.mul_comm, Nat.mul_add_mod, Nat.mod_eq_of_lt hlow]
    rw [List.length_cons, readBigEndian, bigEndian, hdiv, hmod, ih, UInt8.ofNat_toNat]

/-! ### Hexadecimal text -/

/-- `toString("hex")` -/
def hexText (bytes : Bytes) : JsString :=
  bytes.flatMap fun b ↦ [hexDigit (b.toNat / 16), hexDigit (b.toNat % 16)]

private theorem isLowerHex_hexDigit {n : ℕ} (hn : n < 16) : isLowerHex (hexDigit n) = true := by
  interval_cases n <;> decide

theorem isHexOfLength_hexText (bytes : Bytes) :
    isHexOfLength (2 * bytes.length) (hexText bytes) = true := by
  unfold isHexOfLength
  rw [Bool.and_eq_true, decide_eq_true_eq, List.all_eq_true]
  induction bytes with
  | nil => exact ⟨rfl, fun _ h ↦ absurd h List.not_mem_nil⟩
  | cons b bytes ih =>
    have hb : b.toNat < 256 := b.toNat_lt
    simp only [hexText, List.flatMap_cons, List.cons_append, List.nil_append, List.length_cons,
      List.forall_mem_cons] at ih ⊢
    refine ⟨by omega, isLowerHex_hexDigit (by omega), isLowerHex_hexDigit (by omega), ih.2⟩

private theorem hexDigit_injective {n m : ℕ} (hn : n < 16) (hm : m < 16)
    (h : hexDigit n = hexDigit m) : n = m := by
  have hdigits : ∀ n < 16, ∀ m < 16, hexDigit n = hexDigit m → n = m := by decide
  exact hdigits n hn m hm h

/-- The text of bytes tells them. -/
theorem hexText_injective {bytes bytes' : Bytes} (h : hexText bytes = hexText bytes') :
    bytes = bytes' := by
  induction bytes generalizing bytes' with
  | nil =>
    cases bytes' with
    | nil => rfl
    | cons b bytes' => exact absurd h (by simp [hexText])
  | cons b bytes ih =>
    cases bytes' with
    | nil => exact absurd h (by simp [hexText])
    | cons b' bytes' =>
      have hb : b.toNat < 256 := b.toNat_lt
      have hb' : b'.toNat < 256 := b'.toNat_lt
      simp only [hexText, List.flatMap_cons, List.cons_append, List.nil_append,
        List.cons.injEq] at h
      obtain ⟨hhigh, hlow, hrest⟩ := h
      have hhigh := hexDigit_injective (by omega) (by omega) hhigh
      have hlow := hexDigit_injective (by omega) (by omega) hlow
      have hbyte : b = b' := UInt8.toNat_inj.mp (by omega)
      rw [hbyte, ih hrest]

/-! ### Hash functions -/

/-- A hash function with digests of `size` bytes. Feeding it piece by piece hashes the
concatenation. -/
structure HashFunction (size : ℕ) where
  digest : Bytes → Bytes
  length_digest : ∀ bytes, (digest bytes).length = size

def HashFunction.hex {size : ℕ} (h : HashFunction size) (bytes : Bytes) : JsString :=
  hexText (h.digest bytes)

theorem HashFunction.isHexOfLength_hex {size : ℕ} (h : HashFunction size) (bytes : Bytes) :
    isHexOfLength (2 * size) (h.hex bytes) = true := by
  have hhex := isHexOfLength_hexText (h.digest bytes)
  rwa [h.length_digest] at hhex

/-- A hash that can be evaluated, for examples: a polynomial in the bytes modulo `256 ^ 32`. -/
def HashFunction.polynomial : HashFunction 32 where
  digest bytes :=
    let value := bytes.foldl (fun n b ↦ (n * 1000003 + b.toNat) % 256 ^ 32) 1
    (List.range 32).map fun i ↦ UInt8.ofNat (value / 256 ^ i % 256)
  length_digest := fun _ ↦ by simp

end Foundation.Binary
