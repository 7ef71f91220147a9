import Mathlib.Data.List.Basic
import Mathlib.Data.UInt
import Mathlib.Tactic.IntervalCases
import Mathlib.Tactic.Linarith

/-!
ECMAScript strings as sequences of UTF-16 code units, and their UTF-8 encoding. A string may hold
unpaired surrogates; the encoder writes each as the bytes of U+FFFD, and the decoder puts U+FFFD
for each maximal ill-formed prefix of its input. On well-formed strings decoding undoes encoding.
-/

set_option autoImplicit false
set_option relaxedAutoImplicit false

namespace Foundation.Text

abbrev Bytes := List UInt8

/-- A string of UTF-16 code units. -/
abbrev JsString := List UInt16

instance : LawfulBEq JsString := inferInstance

instance : LawfulBEq (List JsString) := inferInstance

/-- The code units of one Unicode scalar value. -/
def scalarUnits (n : ℕ) : JsString :=
  if n < 0x10000 then [UInt16.ofNat n]
  else [UInt16.ofNat (0xd800 + (n - 0x10000) / 0x400), UInt16.ofNat (0xdc00 + (n - 0x10000) % 0x400)]

/-- A string literal of the source. -/
def js (literal : String) : JsString := literal.toList.flatMap fun c ↦ scalarUnits c.toNat

def isHighSurrogate (c : UInt16) : Bool := decide (0xd800 ≤ c.toNat ∧ c.toNat ≤ 0xdbff)

def isLowSurrogate (c : UInt16) : Bool := decide (0xdc00 ≤ c.toNat ∧ c.toNat ≤ 0xdfff)

/-- No surrogate of the string is unpaired. -/
def isWellFormed : JsString → Bool
  | [] => true
  | [c] => !isHighSurrogate c && !isLowSurrogate c
  | c :: d :: rest =>
    if isHighSurrogate c then isLowSurrogate d && isWellFormed rest
    else !isLowSurrogate c && isWellFormed (d :: rest)

def isSurrogate (c : UInt16) : Bool := isHighSurrogate c || isLowSurrogate c

theorem isWellFormed_cons {c : UInt16} (hc : isSurrogate c = false) (s : JsString) :
    isWellFormed (c :: s) = isWellFormed s := by
  obtain ⟨hhigh, hlow⟩ := Bool.or_eq_false_iff.mp hc
  cases s with
  | nil => simp [isWellFormed, hhigh, hlow]
  | cons d s => simp [isWellFormed, hhigh, hlow]

theorem isWellFormed_append {s : JsString} (hs : isWellFormed s = true) (t : JsString) :
    isWellFormed (s ++ t) = isWellFormed t := by
  induction s using isWellFormed.induct with
  | case1 => rfl
  | case2 c =>
    rw [List.singleton_append]
    refine isWellFormed_cons ?_ t
    simpa [isWellFormed, isSurrogate] using hs
  | case3 c d s hhigh ih =>
    simp only [isWellFormed, hhigh, if_true, Bool.and_eq_true] at hs
    simp only [List.cons_append, isWellFormed, hhigh, if_true, hs.1, Bool.true_and]
    exact ih hs.2
  | case4 c d s hhigh ih =>
    rw [isWellFormed, if_neg hhigh, Bool.and_eq_true, Bool.not_eq_true'] at hs
    rw [List.cons_append, isWellFormed_cons, ih hs.2]
    simp [isSurrogate, hhigh, hs.1]

theorem isWellFormed_of_forall {s : JsString} (hs : ∀ c ∈ s, isSurrogate c = false) :
    isWellFormed s = true := by
  induction s with
  | nil => rfl
  | cons c s ih =>
    rw [isWellFormed_cons (hs c List.mem_cons_self)]
    exact ih fun d hd ↦ hs d (List.mem_cons_of_mem c hd)

private theorem isWellFormed_scalarUnits (c : Char) : isWellFormed (scalarUnits c.toNat) = true := by
  have hvalid : c.toNat < 0xd800 ∨ 0xdfff < c.toNat ∧ c.toNat < 0x110000 := c.valid
  unfold scalarUnits
  split_ifs with hlow
  · have hunit : (UInt16.ofNat c.toNat).toNat = c.toNat := by
      simp only [UInt16.toNat_ofNat']
      omega
    simp only [isWellFormed, isHighSurrogate, isLowSurrogate, hunit, Bool.and_eq_true,
      Bool.not_eq_true', decide_eq_false_iff_not]
    omega
  · have hhigh : (UInt16.ofNat (0xd800 + (c.toNat - 0x10000) / 0x400)).toNat =
        0xd800 + (c.toNat - 0x10000) / 0x400 := by
      simp only [UInt16.toNat_ofNat']
      omega
    have hlow : (UInt16.ofNat (0xdc00 + (c.toNat - 0x10000) % 0x400)).toNat =
        0xdc00 + (c.toNat - 0x10000) % 0x400 := by
      simp only [UInt16.toNat_ofNat']
      omega
    have hpair : isHighSurrogate (UInt16.ofNat (0xd800 + (c.toNat - 0x10000) / 0x400)) = true := by
      simp only [isHighSurrogate, hhigh, decide_eq_true_eq]
      omega
    rw [isWellFormed, if_pos hpair, isWellFormed, Bool.and_true]
    simp only [isLowSurrogate, hlow, decide_eq_true_eq]
    omega

/-- A string literal has no unpaired surrogates. -/
theorem isWellFormed_js (literal : String) : isWellFormed (js literal) = true := by
  unfold js
  induction literal.toList with
  | nil => rfl
  | cons c cs ih =>
    rw [List.flatMap_cons, isWellFormed_append (isWellFormed_scalarUnits c)]
    exact ih

/-- A condition on the code units of a string, from the evaluation of the string. -/
theorem forall_mem_of_all {s : JsString} {p : UInt16 → Prop} [DecidablePred p]
    (h : s.all (fun c ↦ decide (p c)) = true) : ∀ c ∈ s, p c :=
  fun c hc ↦ of_decide_eq_true (List.all_eq_true.mp h c hc)

/-- The code point of a surrogate pair. -/
def pairScalar (high low : UInt16) : ℕ :=
  0x10000 + (high.toNat - 0xd800) * 0x400 + (low.toNat - 0xdc00)

/-- The UTF-8 bytes of one code point. -/
def scalarBytes (n : ℕ) : Bytes :=
  if n < 0x80 then [UInt8.ofNat n]
  else if n < 0x800 then [UInt8.ofNat (0xc0 + n / 0x40), UInt8.ofNat (0x80 + n % 0x40)]
  else if n < 0x10000 then
    [UInt8.ofNat (0xe0 + n / 0x1000), UInt8.ofNat (0x80 + n / 0x40 % 0x40),
      UInt8.ofNat (0x80 + n % 0x40)]
  else
    [UInt8.ofNat (0xf0 + n / 0x40000), UInt8.ofNat (0x80 + n / 0x1000 % 0x40),
      UInt8.ofNat (0x80 + n / 0x40 % 0x40), UInt8.ofNat (0x80 + n % 0x40)]

/-- The bytes of one code unit that is not half of a pair. -/
def unitBytes (c : UInt16) : Bytes :=
  if isHighSurrogate c || isLowSurrogate c then scalarBytes 0xfffd else scalarBytes c.toNat

def utf8Encode : JsString → Bytes
  | [] => []
  | [c] => unitBytes c
  | c :: d :: rest =>
    if isHighSurrogate c && isLowSurrogate d then scalarBytes (pairScalar c d) ++ utf8Encode rest
    else unitBytes c ++ utf8Encode (d :: rest)

def byteLength (s : JsString) : ℕ := (utf8Encode s).length

theorem utf8Encode_cons {c : UInt16} (hc : isSurrogate c = false) (s : JsString) :
    utf8Encode (c :: s) = unitBytes c ++ utf8Encode s := by
  have hhigh : isHighSurrogate c = false := (Bool.or_eq_false_iff.mp hc).1
  cases s with
  | nil => simp [utf8Encode]
  | cons d rest => simp [utf8Encode, hhigh]

/-- A text that does not end within a pair is encoded apart from what follows it. -/
theorem utf8Encode_append {s : JsString} (hs : isWellFormed s = true) (t : JsString) :
    utf8Encode (s ++ t) = utf8Encode s ++ utf8Encode t := by
  induction s using isWellFormed.induct with
  | case1 => rfl
  | case2 c =>
    have hc : isSurrogate c = false := by simpa [isWellFormed, isSurrogate] using hs
    rw [List.singleton_append, utf8Encode_cons hc]
    rfl
  | case3 c d s hhigh ih =>
    simp only [isWellFormed, hhigh, if_true, Bool.and_eq_true] at hs
    simp only [List.cons_append, utf8Encode, hhigh, hs.1, Bool.and_true, if_true, ih hs.2,
      List.append_assoc]
  | case4 c d s hhigh ih =>
    rw [isWellFormed, if_neg hhigh, Bool.and_eq_true, Bool.not_eq_true'] at hs
    have hc : isSurrogate c = false := by simp [isSurrogate, hhigh, hs.1]
    rw [List.cons_append, utf8Encode_cons hc, utf8Encode_cons hc, ih hs.2, List.append_assoc]

/-- One byte encodes one ASCII character. -/
theorem byteLength_of_ascii {s : JsString} (hs : ∀ c ∈ s, c.toNat < 0x80) :
    byteLength s = s.length := by
  induction s with
  | nil => rfl
  | cons c s ih =>
    have hc : c.toNat < 0x80 := hs c List.mem_cons_self
    have hsurrogate : isSurrogate c = false := by
      simp only [isSurrogate, isHighSurrogate, isLowSurrogate, Bool.or_eq_false_iff,
        decide_eq_false_iff_not]
      omega
    have hunit : (unitBytes c).length = 1 := by
      simp only [isSurrogate] at hsurrogate
      simp [unitBytes, hsurrogate, scalarBytes, hc]
    have ih := ih fun d hd ↦ hs d (List.mem_cons_of_mem c hd)
    rw [byteLength] at ih
    rw [byteLength, utf8Encode_cons hsurrogate, List.length_append, hunit, ih, List.length_cons]
    omega

/-- A continuation byte within bounds. -/
def continues (low high : ℕ) (b : UInt8) : Bool := decide (low ≤ b.toNat ∧ b.toNat ≤ high)

/-- The decoder between two bytes: at a boundary, or owing continuation bytes. A pending sequence
keeps the code point read so far and the bounds of the next byte. -/
inductive DecoderState
  | boundary
  | pending (needed point low high : ℕ)

/-- The first byte of a sequence. -/
def decodeLead (b : UInt8) : JsString × DecoderState :=
  if b.toNat < 0x80 then (scalarUnits b.toNat, .boundary)
  else if 0xc2 ≤ b.toNat ∧ b.toNat ≤ 0xdf then ([], .pending 1 (b.toNat - 0xc0) 0x80 0xbf)
  else if 0xe0 ≤ b.toNat ∧ b.toNat ≤ 0xef then
    ([], .pending 2 (b.toNat - 0xe0) (if b.toNat = 0xe0 then 0xa0 else 0x80)
      (if b.toNat = 0xed then 0x9f else 0xbf))
  else if 0xf0 ≤ b.toNat ∧ b.toNat ≤ 0xf4 then
    ([], .pending 3 (b.toNat - 0xf0) (if b.toNat = 0xf0 then 0x90 else 0x80)
      (if b.toNat = 0xf4 then 0x8f else 0xbf))
  else ([0xfffd], .boundary)

/-- One byte. A byte that cannot continue a pending sequence ends it and starts the next. -/
def decodeByte : DecoderState → UInt8 → JsString × DecoderState
  | .boundary, b => decodeLead b
  | .pending needed point low high, b =>
    if continues low high b then
      if needed = 1 then (scalarUnits (point * 0x40 + (b.toNat - 0x80)), .boundary)
      else ([], .pending (needed - 1) (point * 0x40 + (b.toNat - 0x80)) 0x80 0xbf)
    else (0xfffd :: (decodeLead b).1, (decodeLead b).2)

def decodeFrom : DecoderState → Bytes → JsString
  | .boundary, [] => []
  | .pending _ _ _ _, [] => [0xfffd]
  | state, b :: rest => (decodeByte state b).1 ++ decodeFrom (decodeByte state b).2 rest

def utf8Decode (bytes : Bytes) : JsString := decodeFrom .boundary bytes

private theorem toNat_ofNat8 {n : ℕ} (h : n < 256) : (UInt8.ofNat n).toNat = n :=
  UInt8.toNat_ofNat_of_lt' h

theorem decodeFrom_cons (state : DecoderState) (b : UInt8) (rest : Bytes) :
    decodeFrom state (b :: rest) =
      (decodeByte state b).1 ++ decodeFrom (decodeByte state b).2 rest := by
  cases state <;> rfl

/-- A continuation byte `0x80 + digit` within its bounds adds six bits to the code point. -/
private theorem decodeFrom_digit {needed point low high digit : ℕ} (hdigit : digit < 0x40)
    (hbounds : low ≤ 0x80 + digit ∧ 0x80 + digit ≤ high) (rest : Bytes) :
    decodeFrom (.pending needed point low high) (UInt8.ofNat (0x80 + digit) :: rest) =
      if needed = 1 then scalarUnits (point * 0x40 + digit) ++ decodeFrom .boundary rest
      else decodeFrom (.pending (needed - 1) (point * 0x40 + digit) 0x80 0xbf) rest := by
  have hb : (UInt8.ofNat (0x80 + digit)).toNat = 0x80 + digit := toNat_ofNat8 (by omega)
  have hcontinues : continues low high (UInt8.ofNat (0x80 + digit)) = true := by
    rw [continues, hb]
    exact decide_eq_true hbounds
  rw [decodeFrom_cons, decodeByte, if_pos hcontinues, hb, Nat.add_sub_cancel_left]
  split_ifs <;> rfl

/-- Decoding gives back each encoded scalar value, whatever follows it. -/
theorem utf8Decode_scalarBytes {n : ℕ} (hn : n < 0x110000)
    (hsurrogate : n < 0xd800 ∨ 0xdfff < n) (rest : Bytes) :
    utf8Decode (scalarBytes n ++ rest) = scalarUnits n ++ utf8Decode rest := by
  unfold scalarBytes utf8Decode
  split_ifs with h1 h2 h3
  · have hb : (UInt8.ofNat n).toNat = n := toNat_ofNat8 (by omega)
    rw [List.cons_append, List.nil_append, decodeFrom_cons, decodeByte, decodeLead, hb, if_pos h1]
  · have hb : (UInt8.ofNat (0xc0 + n / 0x40)).toNat = 0xc0 + n / 0x40 := toNat_ofNat8 (by omega)
    have hvalue : n / 0x40 * 0x40 + n % 0x40 = n := by omega
    simp only [List.cons_append, List.nil_append]
    rw [decodeFrom_cons, decodeByte, decodeLead, hb, if_neg (by omega), if_pos (by omega),
      decodeFrom_digit (by omega) (by omega), if_pos rfl, Nat.add_sub_cancel_left, hvalue,
      List.nil_append]
  · have hb : (UInt8.ofNat (0xe0 + n / 0x1000)).toNat = 0xe0 + n / 0x1000 :=
      toNat_ofNat8 (by omega)
    have hvalue : (n / 0x1000 * 0x40 + n / 0x40 % 0x40) * 0x40 + n % 0x40 = n := by omega
    simp only [List.cons_append, List.nil_append]
    rw [decodeFrom_cons, decodeByte, decodeLead, hb, if_neg (by omega), if_neg (by omega),
      if_pos (by omega), decodeFrom_digit (by omega) (by split_ifs <;> omega),
      if_neg (show ¬ (2 : ℕ) = 1 by decide), decodeFrom_digit (by omega) (by omega), if_pos rfl,
      Nat.add_sub_cancel_left, hvalue, List.nil_append]
  · have hb : (UInt8.ofNat (0xf0 + n / 0x40000)).toNat = 0xf0 + n / 0x40000 :=
      toNat_ofNat8 (by omega)
    have hvalue : ((n / 0x40000 * 0x40 + n / 0x1000 % 0x40) * 0x40 + n / 0x40 % 0x40) * 0x40 +
        n % 0x40 = n := by omega
    simp only [List.cons_append, List.nil_append]
    rw [decodeFrom_cons, decodeByte, decodeLead, hb, if_neg (by omega), if_neg (by omega),
      if_neg (by omega), if_pos (by omega), decodeFrom_digit (by omega) (by split_ifs <;> omega),
      if_neg (show ¬ (3 : ℕ) = 1 by decide), decodeFrom_digit (by omega) (by omega),
      if_neg (show ¬ (3 - 1 : ℕ) = 1 by decide), decodeFrom_digit (by omega) (by omega), if_pos rfl,
      Nat.add_sub_cancel_left, hvalue, List.nil_append]

private theorem scalarUnits_unit (c : UInt16) : scalarUnits c.toNat = [c] := by
  have hc : c.toNat < 0x10000 := c.toNat_lt
  rw [scalarUnits, if_pos hc, UInt16.ofNat_toNat]

private theorem scalarUnits_pair {c d : UInt16} (hc : isHighSurrogate c = true)
    (hd : isLowSurrogate d = true) : scalarUnits (pairScalar c d) = [c, d] := by
  simp only [isHighSurrogate, isLowSurrogate, decide_eq_true_eq] at hc hd
  have hhigh : 0xd800 + (pairScalar c d - 0x10000) / 0x400 = c.toNat := by
    unfold pairScalar
    omega
  have hlow : 0xdc00 + (pairScalar c d - 0x10000) % 0x400 = d.toNat := by
    unfold pairScalar
    omega
  have hbig : ¬ pairScalar c d < 0x10000 := by
    unfold pairScalar
    omega
  rw [scalarUnits, if_neg hbig, hhigh, hlow, UInt16.ofNat_toNat, UInt16.ofNat_toNat]

private theorem utf8Decode_unitBytes {c : UInt16} (hhigh : isHighSurrogate c = false)
    (hlow : isLowSurrogate c = false) (rest : Bytes) :
    utf8Decode (unitBytes c ++ rest) = c :: utf8Decode rest := by
  have hc : c.toNat < 0x10000 := c.toNat_lt
  have hscalar : c.toNat < 0xd800 ∨ 0xdfff < c.toNat := by
    simp only [isHighSurrogate, isLowSurrogate, decide_eq_false_iff_not] at hhigh hlow
    omega
  rw [unitBytes, hhigh, hlow, Bool.or_self, if_neg (by decide),
    utf8Decode_scalarBytes (by omega) hscalar, scalarUnits_unit]
  rfl

/-- Decoding the encoding of a well-formed string gives the string back. -/
theorem utf8Decode_utf8Encode : ∀ s : JsString, isWellFormed s = true →
    utf8Decode (utf8Encode s) = s
  | [], _ => rfl
  | [c], h => by
    simp only [isWellFormed, Bool.and_eq_true, Bool.not_eq_true'] at h
    have hdecode := utf8Decode_unitBytes h.1 h.2 []
    rw [List.append_nil] at hdecode
    rw [utf8Encode, hdecode, utf8Decode, decodeFrom]
  | c :: d :: rest, h => by
    rw [isWellFormed] at h
    by_cases hc : isHighSurrogate c = true
    · rw [if_pos hc, Bool.and_eq_true] at h
      have hpair : pairScalar c d < 0x110000 ∧ 0xdfff < pairScalar c d := by
        have hhigh := hc
        have hlow := h.1
        simp only [isHighSurrogate, isLowSurrogate, decide_eq_true_eq] at hhigh hlow
        unfold pairScalar
        omega
      rw [utf8Encode, hc, h.1, Bool.and_self, if_pos rfl,
        utf8Decode_scalarBytes hpair.1 (Or.inr hpair.2), scalarUnits_pair hc h.1,
        utf8Decode_utf8Encode rest h.2]
      rfl
    · have hc' : isHighSurrogate c = false := by simpa using hc
      rw [if_neg hc, Bool.and_eq_true, Bool.not_eq_true'] at h
      rw [utf8Encode, hc', Bool.false_and, if_neg (by decide), utf8Decode_unitBytes hc' h.1,
        utf8Decode_utf8Encode (d :: rest) h.2]

/-- Distinct well-formed strings have distinct encodings. -/
theorem utf8Encode_injective {s t : JsString} (hs : isWellFormed s = true)
    (ht : isWellFormed t = true) (h : utf8Encode s = utf8Encode t) : s = t := by
  rw [← utf8Decode_utf8Encode s hs, ← utf8Decode_utf8Encode t ht, h]

/-! ### ASCII texts -/

private theorem toNat_ofNat_lead {n k : ℕ} (h : k + n < 256) : (UInt8.ofNat (k + n)).toNat = k + n := by
  simp only [UInt8.toNat_ofNat']
  omega

/-- Only the code points below 0x80 are encoded without a byte from 0x80 on. -/
theorem lt_of_scalarBytes {n : ℕ} (hn : n < 0x110000)
    (h : ∀ b ∈ scalarBytes n, b.toNat < 0x80) : n < 0x80 := by
  by_contra hlarge
  unfold scalarBytes at h
  split_ifs at h
  · have hlead := h _ List.mem_cons_self
    rw [toNat_ofNat_lead (by omega)] at hlead
    omega
  · have hlead := h _ List.mem_cons_self
    rw [toNat_ofNat_lead (by omega)] at hlead
    omega
  · have hlead := h _ List.mem_cons_self
    rw [toNat_ofNat_lead (by omega)] at hlead
    omega

theorem lt_of_unitBytes {c : UInt16} (h : ∀ b ∈ unitBytes c, b.toNat < 0x80) : c.toNat < 0x80 := by
  have hc : c.toNat < 0x10000 := c.toNat_lt
  unfold unitBytes at h
  split_ifs at h
  · exact absurd (lt_of_scalarBytes (by omega) h) (by omega)
  · exact lt_of_scalarBytes (by omega) h

/-- A text whose bytes are all below 0x80 is made of ASCII characters. -/
theorem ascii_of_utf8Encode {s : JsString} (h : ∀ b ∈ utf8Encode s, b.toNat < 0x80) :
    ∀ c ∈ s, c.toNat < 0x80 := by
  induction s using utf8Encode.induct with
  | case1 => exact fun c hc ↦ absurd hc List.not_mem_nil
  | case2 c =>
    intro d hd
    obtain rfl := List.mem_singleton.mp hd
    exact lt_of_unitBytes h
  | case3 c d rest hpair ih =>
    rw [utf8Encode, if_pos hpair] at h
    obtain ⟨hhigh, hlow⟩ := Bool.and_eq_true_iff.mp hpair
    simp only [isHighSurrogate, isLowSurrogate, decide_eq_true_eq] at hhigh hlow
    have hscalar := lt_of_scalarBytes (n := pairScalar c d)
      (by unfold pairScalar; omega) fun b hb ↦ h b (List.mem_append_left _ hb)
    unfold pairScalar at hscalar
    omega
  | case4 c d rest hpair ih =>
    rw [utf8Encode, if_neg hpair] at h
    intro e he
    rcases List.mem_cons.mp he with rfl | he
    · exact lt_of_unitBytes fun b hb ↦ h b (List.mem_append_left _ hb)
    · exact ih (fun b hb ↦ h b (List.mem_append_right _ hb)) e he

/-- The bytes of an ASCII text are below 0x80. -/
theorem utf8Encode_ascii {s : JsString} (h : ∀ c ∈ s, c.toNat < 0x80) :
    ∀ b ∈ utf8Encode s, b.toNat < 0x80 := by
  induction s with
  | nil => exact fun b hb ↦ absurd hb List.not_mem_nil
  | cons c s ih =>
    have hc : c.toNat < 0x80 := h c List.mem_cons_self
    have hsurrogate : isSurrogate c = false := by
      simp only [isSurrogate, isHighSurrogate, isLowSurrogate, Bool.or_eq_false_iff,
        decide_eq_false_iff_not]
      omega
    intro b hb
    rw [utf8Encode_cons hsurrogate] at hb
    rcases List.mem_append.mp hb with hb | hb
    · have hunit : unitBytes c = [UInt8.ofNat c.toNat] := by
        simp only [isSurrogate] at hsurrogate
        simp [unitBytes, hsurrogate, scalarBytes, hc]
      rw [hunit, List.mem_singleton] at hb
      subst hb
      simp only [UInt8.toNat_ofNat']
      omega
    · exact ih (fun d hd ↦ h d (List.mem_cons_of_mem c hd)) b hb

/-- An ASCII text is told by its bytes from every other text. -/
theorem eq_of_utf8Encode_eq {s t : JsString} (ht : ∀ c ∈ t, c.toNat < 0x80)
    (h : utf8Encode s = utf8Encode t) : s = t := by
  have hs : ∀ c ∈ s, c.toNat < 0x80 := ascii_of_utf8Encode (h ▸ utf8Encode_ascii ht)
  have hwell : ∀ r : JsString, (∀ c ∈ r, c.toNat < 0x80) → isWellFormed r = true := by
    intro r hr
    refine isWellFormed_of_forall fun c hc ↦ ?_
    have hc := hr c hc
    simp only [isSurrogate, isHighSurrogate, isLowSurrogate, Bool.or_eq_false_iff,
      decide_eq_false_iff_not]
    omega
  exact utf8Encode_injective (hwell s hs) (hwell t ht) h

/-- The parts of a text around an ASCII character are well-formed with it. -/
theorem isWellFormed_around {s t : JsString} {c : UInt16} (hc : isSurrogate c = false)
    (h : isWellFormed (s ++ c :: t) = true) : isWellFormed s = true ∧ isWellFormed t = true := by
  induction s using isWellFormed.induct with
  | case1 =>
    rw [List.nil_append, isWellFormed_cons hc] at h
    exact ⟨rfl, h⟩
  | case2 d =>
    rw [List.singleton_append, isWellFormed] at h
    obtain ⟨hhigh, hlow⟩ := Bool.or_eq_false_iff.mp hc
    split_ifs at h with hd
    · rw [hlow, Bool.false_and] at h
      cases h
    · rw [Bool.and_eq_true, isWellFormed_cons hc] at h
      rw [isWellFormed, Bool.eq_false_of_not_eq_true hd]
      exact ⟨by simpa using h.1, h.2⟩
  | case3 d e s hhigh ih =>
    rw [List.cons_append, List.cons_append, isWellFormed, if_pos hhigh, Bool.and_eq_true] at h
    obtain ⟨hs, ht⟩ := ih h.2
    rw [isWellFormed, if_pos hhigh, h.1, hs]
    exact ⟨rfl, ht⟩
  | case4 d e s hhigh ih =>
    rw [List.cons_append, List.cons_append, isWellFormed, if_neg hhigh, Bool.and_eq_true] at h
    obtain ⟨hs, ht⟩ := ih h.2
    rw [isWellFormed, if_neg hhigh, h.1, hs]
    exact ⟨rfl, ht⟩

private theorem toNat_lead {n : ℕ} (hn : n < 0x100) : (UInt8.ofNat n).toNat = n := by
  rw [UInt8.toNat_ofNat', Nat.mod_eq_of_lt (by omega)]

private theorem eq_of_mem_scalarBytes {n : ℕ} (hn : n < 0x110000) {b : UInt8}
    (hb : b ∈ scalarBytes n) (hascii : b.toNat < 0x80) : b.toNat = n := by
  unfold scalarBytes at hb
  split_ifs at hb
  · obtain rfl := List.mem_singleton.mp hb
    exact toNat_lead (by omega)
  all_goals
    simp only [List.mem_cons, List.not_mem_nil, or_false] at hb
    obtain ⟨m, rfl, hm, hle⟩ : ∃ m, b = UInt8.ofNat m ∧ 0x80 ≤ m ∧ m < 0x100 := by
      rcases hb with rfl | rfl | rfl | rfl <;> exact ⟨_, rfl, by omega, by omega⟩
    rw [toNat_lead hle] at hascii
    omega

private theorem eq_of_mem_unitBytes {c : UInt16} {b : UInt8} (hb : b ∈ unitBytes c)
    (hascii : b.toNat < 0x80) : c.toNat = b.toNat := by
  have hc : c.toNat < 0x10000 := c.toNat_lt
  unfold unitBytes at hb
  split_ifs at hb
  · have := eq_of_mem_scalarBytes (by omega) hb hascii
    omega
  · exact (eq_of_mem_scalarBytes (by omega) hb hascii).symm

/-- An ASCII byte of an encoded text is a character of the text. -/
theorem mem_of_mem_utf8Encode {s : JsString} {b : UInt8} (hb : b ∈ utf8Encode s)
    (hascii : b.toNat < 0x80) : ∃ c ∈ s, c.toNat = b.toNat := by
  induction s using utf8Encode.induct with
  | case1 => exact absurd hb List.not_mem_nil
  | case2 c => exact ⟨c, List.mem_singleton_self c, eq_of_mem_unitBytes hb hascii⟩
  | case3 c d rest hpair ih =>
    rw [utf8Encode, if_pos hpair] at hb
    obtain ⟨hhigh, hlow⟩ := Bool.and_eq_true_iff.mp hpair
    simp only [isHighSurrogate, isLowSurrogate, decide_eq_true_eq] at hhigh hlow
    obtain hb | hb := List.mem_append.mp hb
    · have hscalar : b.toNat = pairScalar c d :=
        eq_of_mem_scalarBytes (by unfold pairScalar; omega) hb hascii
      unfold pairScalar at hscalar
      omega
    · obtain ⟨e, he, heq⟩ := ih hb
      exact ⟨e, List.mem_cons_of_mem c (List.mem_cons_of_mem d he), heq⟩
  | case4 c d rest hpair ih =>
    rw [utf8Encode, if_neg hpair] at hb
    obtain hb | hb := List.mem_append.mp hb
    · exact ⟨c, List.mem_cons_self, eq_of_mem_unitBytes hb hascii⟩
    · obtain ⟨e, he, heq⟩ := ih hb
      exact ⟨e, List.mem_cons_of_mem c he, heq⟩

end Foundation.Text
