import ApiMigrator.Foundation.Number
import ApiMigrator.Foundation.Outcome
import Mathlib.Data.List.Infix
import Mathlib.Data.List.DropRight

/-!
String methods and the character classes that regular expressions name. A pattern that is anchored
at both ends and made of classes and bounded repetitions is a predicate on code units.
-/

set_option autoImplicit false
set_option relaxedAutoImplicit false

namespace Foundation.Pattern

open Text Number Outcome

/-! ### Character classes -/

def isLowerLetter (c : UInt16) : Bool := decide (0x61 ≤ c.toNat ∧ c.toNat ≤ 0x7a)

def isUpperLetter (c : UInt16) : Bool := decide (0x41 ≤ c.toNat ∧ c.toNat ≤ 0x5a)

/-- `[A-Za-z0-9]` -/
def isAlphanumeric (c : UInt16) : Bool := isLowerLetter c || isUpperLetter c || isDigit c

/-- `[a-f0-9]` -/
def isLowerHex (c : UInt16) : Bool := isDigit c || decide (0x61 ≤ c.toNat ∧ c.toNat ≤ 0x66)

/-- A class given by listing its members after `[A-Za-z0-9`. -/
def isAlphanumericOr (others : String) (c : UInt16) : Bool :=
  isAlphanumeric c || decide (c ∈ js others)

/-- White space and line terminators, as `trim` removes them. -/
def isSpace (c : UInt16) : Bool :=
  decide (0x09 ≤ c.toNat ∧ c.toNat ≤ 0x0d ∨ 0x2000 ≤ c.toNat ∧ c.toNat ≤ 0x200a ∨
    c ∈ [0x20, 0xa0, 0x1680, 0x2028, 0x2029, 0x202f, 0x205f, 0x3000, 0xfeff])

/-- `^[a-f0-9]` repeated `n` times `$`. -/
def isHexOfLength (n : ℕ) (s : JsString) : Bool := decide (s.length = n) && s.all isLowerHex

/-! ### String methods -/

def trim (s : JsString) : JsString := (s.dropWhile isSpace).rdropWhile isSpace

theorem trim_of_forall {s : JsString} (h : ∀ c ∈ s, isSpace c = false) : trim s = s := by
  have hleft : s.dropWhile isSpace = s := by
    cases s with
    | nil => rfl
    | cons c s => rw [List.dropWhile_cons_of_neg (by rw [h c List.mem_cons_self]; decide)]
  rw [trim, hleft, List.rdropWhile_eq_self_iff]
  intro hne
  rw [h _ (List.getLast_mem hne)]
  decide

def startsWith (s : JsString) (p : String) : Bool := (js p).isPrefixOf s

def endsWith (s : JsString) (p : String) : Bool := (js p).isSuffixOf s

def includes (s : JsString) (p : String) : Bool := decide (js p <:+: s)

/-- `split("/")` -/
def splitSlash (s : JsString) : List JsString := s.splitOn 0x2f

/-- `toLowerCase` on strings of ASCII characters. -/
def asciiLower (s : JsString) : JsString := s.map fun c ↦ if isUpperLetter c then c + 0x20 else c

/-- `split("-")` -/
def splitDash (s : JsString) : List JsString := s.splitOn 0x2d

/-! ### Identifiers -/

/-- `^sha256:[a-f0-9]{64}$` -/
def isDigestText (s : JsString) : Bool := startsWith s "sha256:" && isHexOfLength 64 (s.drop 7)

/-- `^previewjob_[a-f0-9]{64}$` -/
def isJobId (s : JsString) : Bool := startsWith s "previewjob_" && isHexOfLength 64 (s.drop 11)

/-- `^[A-Za-z0-9_-]{1,128}$` -/
def isIdentifier (s : JsString) : Bool :=
  decide (1 ≤ s.length ∧ s.length ≤ 128) && s.all (isAlphanumericOr "_-")

/-- `^[0-9a-f]{8}-[0-9a-f]{4}-[1-8][0-9a-f]{3}-[89ab][0-9a-f]{3}-[0-9a-f]{12}$` -/
def isUuid (s : JsString) : Bool :=
  match splitDash s with
  | [a, b, c, d, e] =>
    isHexOfLength 8 a && isHexOfLength 4 b && isHexOfLength 4 c && isHexOfLength 4 d &&
      isHexOfLength 12 e && c.head?.any (fun x ↦ decide (0x31 ≤ x.toNat ∧ x.toNat ≤ 0x38)) &&
      d.head?.any (fun x ↦ decide (x ∈ js "89ab"))
  | _ => false

theorem toNat_lt_of_isAlphanumeric {c : UInt16} (hc : isAlphanumeric c = true) :
    c.toNat < 0x80 := by
  simp only [isAlphanumeric, isLowerLetter, isUpperLetter, isDigit, Bool.or_eq_true,
    decide_eq_true_eq] at hc
  omega

theorem toNat_lt_of_isAlphanumericOr {others : String}
    (hothers : (js others).all (fun c ↦ decide (c.toNat < 0x80)) = true) {c : UInt16}
    (hc : isAlphanumericOr others c = true) : c.toNat < 0x80 := by
  rw [isAlphanumericOr, Bool.or_eq_true, decide_eq_true_eq] at hc
  exact hc.elim toNat_lt_of_isAlphanumeric (forall_mem_of_all hothers c)

private theorem ascii_of_isLowerHex {c : UInt16} (h : isLowerHex c = true) : c.toNat < 0x80 := by
  simp only [isLowerHex, isDigit, Bool.or_eq_true, decide_eq_true_eq] at h
  omega

theorem byteLength_of_isHexOfLength {n : ℕ} {s : JsString} (h : isHexOfLength n s = true) :
    byteLength s = n := by
  simp only [isHexOfLength, Bool.and_eq_true, decide_eq_true_eq, List.all_eq_true] at h
  rw [byteLength_of_ascii fun c hc ↦ ascii_of_isLowerHex (h.2 c hc), h.1]

/-- A fixed ASCII text followed by hexadecimal digits has as many bytes as characters. -/
private theorem ascii_of_hex {s : JsString} {p : String} {n : ℕ}
    (hp : (js p).all (fun c ↦ decide (c.toNat < 0x80)) = true) (hstart : startsWith s p = true)
    (hhex : isHexOfLength n (s.drop (js p).length) = true) :
    s.length = (js p).length + n ∧ ∀ c ∈ s, c.toNat < 0x80 := by
  obtain ⟨rest, rfl⟩ := List.isPrefixOf_iff_prefix.mp hstart
  rw [List.drop_left] at hhex
  simp only [isHexOfLength, Bool.and_eq_true, decide_eq_true_eq, List.all_eq_true] at hhex
  refine ⟨by rw [List.length_append, hhex.1], fun c hc ↦ ?_⟩
  rcases List.mem_append.mp hc with hc | hc
  · exact of_decide_eq_true (List.all_eq_true.mp hp c hc)
  · exact ascii_of_isLowerHex (hhex.2 c hc)

private theorem byteLength_of_hex {s : JsString} {p : String} {n : ℕ}
    (hp : (js p).all (fun c ↦ decide (c.toNat < 0x80)) = true) (hstart : startsWith s p = true)
    (hhex : isHexOfLength n (s.drop (js p).length) = true) :
    byteLength s = (js p).length + n := by
  obtain ⟨hlength, hascii⟩ := ascii_of_hex hp hstart hhex
  rw [byteLength_of_ascii hascii, hlength]

/-- A text of ASCII characters has no surrogates. -/
theorem isWellFormed_of_ascii {s : JsString} (h : ∀ c ∈ s, c.toNat < 0x80) :
    isWellFormed s = true := by
  refine isWellFormed_of_forall fun c hc ↦ ?_
  have hc := h c hc
  simp only [isSurrogate, isHighSurrogate, isLowSurrogate, Bool.or_eq_false_iff,
    decide_eq_false_iff_not]
  omega

theorem isWellFormed_of_isDigestText {s : JsString} (h : isDigestText s = true) :
    isWellFormed s = true := by
  obtain ⟨hstart, hhex⟩ := Bool.and_eq_true_iff.mp h
  exact isWellFormed_of_ascii (ascii_of_hex (by decide) hstart hhex).2

theorem isWellFormed_of_isJobId {s : JsString} (h : isJobId s = true) : isWellFormed s = true := by
  obtain ⟨hstart, hhex⟩ := Bool.and_eq_true_iff.mp h
  exact isWellFormed_of_ascii (ascii_of_hex (by decide) hstart hhex).2

theorem byteLength_of_isDigestText {s : JsString} (h : isDigestText s = true) :
    byteLength s = 71 := by
  obtain ⟨hstart, hhex⟩ := Bool.and_eq_true_iff.mp h
  exact byteLength_of_hex (by decide) hstart hhex

theorem byteLength_of_isJobId {s : JsString} (h : isJobId s = true) : byteLength s = 75 := by
  obtain ⟨hstart, hhex⟩ := Bool.and_eq_true_iff.mp h
  exact byteLength_of_hex (by decide) hstart hhex

private theorem ascii_of_isIdentifier {s : JsString} (h : isIdentifier s = true) :
    ∀ c ∈ s, c.toNat < 0x80 := by
  simp only [isIdentifier, Bool.and_eq_true, decide_eq_true_eq, List.all_eq_true] at h
  exact fun c hc ↦ toNat_lt_of_isAlphanumericOr (by decide) (h.2 c hc)

theorem byteLength_of_isIdentifier {s : JsString} (h : isIdentifier s = true) :
    1 ≤ byteLength s ∧ byteLength s ≤ 128 := by
  rw [byteLength_of_ascii (ascii_of_isIdentifier h)]
  simp only [isIdentifier, Bool.and_eq_true, decide_eq_true_eq] at h
  exact h.1

theorem byteLength_of_isUuid {s : JsString} (h : isUuid s = true) : byteLength s = 36 := by
  unfold isUuid at h
  split at h
  · rename_i a b c d e hsplit
    have hjoin := @List.intercalate_splitOn _ s _ _ (0x2d : UInt16)
    rw [← splitDash, hsplit] at hjoin
    simp only [Bool.and_eq_true] at h
    obtain ⟨⟨⟨⟨⟨⟨ha, hb⟩, hc⟩, hd⟩, he⟩, -⟩, -⟩ := h
    simp only [isHexOfLength, Bool.and_eq_true, decide_eq_true_eq, List.all_eq_true] at ha hb hc hd he
    rw [← hjoin]
    have hascii : ∀ x ∈ a ++ 0x2d :: (b ++ 0x2d :: (c ++ 0x2d :: (d ++ 0x2d :: e))),
        x.toNat < 0x80 := by
      simp only [List.forall_mem_append, List.forall_mem_cons]
      exact ⟨fun x hx ↦ ascii_of_isLowerHex (ha.2 x hx), by decide,
        fun x hx ↦ ascii_of_isLowerHex (hb.2 x hx), by decide,
        fun x hx ↦ ascii_of_isLowerHex (hc.2 x hx), by decide,
        fun x hx ↦ ascii_of_isLowerHex (hd.2 x hx), by decide,
        fun x hx ↦ ascii_of_isLowerHex (he.2 x hx)⟩
    have hlist : [(0x2d : UInt16)].intercalate [a, b, c, d, e] =
        a ++ 0x2d :: (b ++ 0x2d :: (c ++ 0x2d :: (d ++ 0x2d :: e))) := by
      simp [List.intercalate, List.intersperse]
    rw [hlist, byteLength_of_ascii hascii]
    simp only [List.length_append, List.length_cons, ha.1, hb.1, hc.1, hd.1, he.1]
  · exact absurd h Bool.false_ne_true

/-- Throws `high` at the first unpaired high surrogate, `low` at the first unpaired low one. -/
def rejectUnpaired {ε : Type} (high low : ε) : JsString → Except ε Unit
  | [] => .ok ()
  | [code] => do
    reject (isHighSurrogate code) high
    reject (isLowSurrogate code) low
  | code :: next :: rest =>
    if isHighSurrogate code then do
      reject (¬ isLowSurrogate next) high
      rejectUnpaired high low rest
    else do
      reject (isLowSurrogate code) low
      rejectUnpaired high low (next :: rest)

@[simp]
theorem rejectUnpaired_eq_ok {ε : Type} {high low : ε} {s : JsString} {u : Unit} :
    rejectUnpaired high low s = .ok u ↔ isWellFormed s = true := by
  induction s using isWellFormed.induct with
  | case1 => simp [rejectUnpaired, isWellFormed]
  | case2 code => simp [rejectUnpaired, isWellFormed]
  | case3 code next rest hhigh ih => simp [rejectUnpaired, isWellFormed, hhigh, ih]
  | case4 code next rest hhigh ih => simp [rejectUnpaired, isWellFormed, hhigh, ih]

end Foundation.Pattern
