import ApiMigrator.Foundation.Json
import ApiMigrator.Foundation.Pattern

/-!
Addresses of the internet protocol: the numbers of versions 4 and 6, the texts that denote them, and
the one text that the URL standard writes for an address.
-/

set_option autoImplicit false
set_option relaxedAutoImplicit false

namespace Foundation.IpAddress

open Foundation.Text Foundation.Number Foundation.Json Foundation.Pattern

/-! ### Addresses -/

structure Ipv4 where
  octets : List ℕ
  length_octets : octets.length = 4
  lt_octets : ∀ o ∈ octets, o < 2 ^ 8

structure Ipv6 where
  words : List ℕ
  length_words : words.length = 8
  lt_words : ∀ w ∈ words, w < 2 ^ 16

inductive Address
  | v4 (address : Ipv4)
  | v6 (address : Ipv6)

/-- The number of an address, its parts from the highest. -/
def Ipv4.value (a : Ipv4) : ℕ := a.octets.foldl (fun acc o ↦ acc * 2 ^ 8 + o) 0

def Ipv6.value (a : Ipv6) : ℕ := a.words.foldl (fun acc w ↦ acc * 2 ^ 16 + w) 0

/-- The number lies in the block of a base and a prefix length. -/
def InBlock (width : ℕ) (base length value : ℕ) : Prop :=
  value / 2 ^ (width - length) = base / 2 ^ (width - length)

instance (width base length value : ℕ) : Decidable (InBlock width base length value) :=
  inferInstanceAs (Decidable (_ = _))

/-! ### Texts -/

/-- A decimal number up to 255, without leading zeros. -/
def octetOf (part : JsString) : Option ℕ :=
  if decimalDigits (digitsValue part) = part ∧ digitsValue part < 2 ^ 8 then
    some (digitsValue part)
  else none

/-- The values of a list, if each element has one. -/
def every {α β : Type} (f : α → Option β) : List α → Option (List β)
  | [] => some []
  | x :: xs =>
    match f x, every f xs with
    | some y, some ys => some (y :: ys)
    | _, _ => none

/-- Four decimal numbers between dots. -/
def parseIpv4 (s : JsString) : Option Ipv4 :=
  match every octetOf (s.splitOn 0x2e) with
  | some octets =>
    if h : octets.length = 4 ∧ ∀ o ∈ octets, o < 2 ^ 8 then some ⟨octets, h.1, h.2⟩ else none
  | none => none

/-- One to four hexadecimal digits. -/
def wordOf (part : JsString) : Option ℕ :=
  match every hexValue part with
  | some digits =>
    if 1 ≤ digits.length ∧ digits.length ≤ 4 then
      some (digits.foldl (fun acc d ↦ acc * 16 + d) 0)
    else none
  | none => none

/-- The words of a text between colons, of which the last two may be written as an address of
version 4. -/
def wordsOf (last : Bool) (text : JsString) : Option (List ℕ) :=
  if text = [] then some []
  else
    let parts := text.splitOn 0x3a
    match every wordOf parts with
    | some words => some words
    | none =>
      match every wordOf parts.dropLast, parts.getLast?.bind parseIpv4 with
      | some words, some address =>
        if last then some (words ++ [address.value / 2 ^ 16, address.value % 2 ^ 16]) else none
      | _, _ => none

/-- Eight words, or fewer and `::` for the zeros between them. -/
def parseIpv6 (s : JsString) : Option Ipv6 :=
  let words : Option (List ℕ) :=
    match (List.range s.length).find? fun i ↦ startsWith (s.drop i) "::" with
    | none => wordsOf true s
    | some i =>
      match wordsOf false (s.take i), wordsOf true (s.drop (i + 2)) with
      | some left, some right =>
        if left.length + right.length < 8 then
          some (left ++ List.replicate (8 - left.length - right.length) 0 ++ right)
        else none
      | _, _ => none
  match words with
  | some words =>
    if h : words.length = 8 ∧ ∀ w ∈ words, w < 2 ^ 16 then some ⟨words, h.1, h.2⟩ else none
  | none => none

/-- The address that a text denotes. -/
def parseAddress (s : JsString) : Option Address :=
  match parseIpv4 s with
  | some address => some (.v4 address)
  | none => (parseIpv6 s).map .v6

/-! ### Serialization -/

/-- The shortest lowercase hexadecimal number. -/
def wordText (w : ℕ) : JsString :=
  if w < 16 then [hexDigit w]
  else if w < 256 then [hexDigit (w / 16), hexDigit (w % 16)]
  else if w < 4096 then [hexDigit (w / 256), hexDigit (w / 16 % 16), hexDigit (w % 16)]
  else [hexDigit (w / 4096), hexDigit (w / 256 % 16), hexDigit (w / 16 % 16), hexDigit (w % 16)]

def joinColon (words : List ℕ) : JsString := List.intercalate [0x3a] (words.map wordText)

/-- The length of the run of zeros from a position on. -/
def zeroRun (words : List ℕ) (i : ℕ) : ℕ := ((words.drop i).takeWhile fun w ↦ decide (w = 0)).length

/-- The first of the longest runs of zeros: where it starts, and its length. -/
def longestZeroRun (words : List ℕ) : Option (ℕ × ℕ) :=
  let longest := ((List.range words.length).map (zeroRun words)).foldr max 0
  ((List.range words.length).find? fun i ↦ decide (zeroRun words i = longest)).map
    fun i ↦ (i, longest)

/-- The words between colons, with the first longest run of two or more zeros left out. -/
def serializeIpv6 (a : Ipv6) : JsString :=
  match longestZeroRun a.words with
  | some (i, n) =>
    if 2 ≤ n then joinColon (a.words.take i) ++ js "::" ++ joinColon (a.words.drop (i + n))
    else joinColon a.words
  | none => joinColon a.words

/-! ### Addresses of version 4 -/

theorem every_eq_some {α β : Type} {f : α → Option β} {xs : List α} {ys : List β} :
    every f xs = some ys ↔ List.Forall₂ (fun x y ↦ f x = some y) xs ys := by
  induction xs generalizing ys with
  | nil => simp [every, eq_comm]
  | cons x xs ih =>
    rw [every, List.forall₂_cons_left_iff]
    cases hx : f x with
    | none => simp
    | some y =>
      cases hxs : every f xs with
      | none =>
        have hnone : ∀ ys, ¬ List.Forall₂ (fun x y ↦ f x = some y) xs ys := by
          intro ys hys
          rw [ih.mpr hys] at hxs
          cases hxs
        simp [hnone]
      | some zs =>
        have hzs : ∀ ys, List.Forall₂ (fun x y ↦ f x = some y) xs ys ↔ zs = ys := by
          intro ys
          rw [← ih, hxs, Option.some.injEq]
        simp [hzs, eq_comm]

theorem octetOf_eq_some {part : JsString} {o : ℕ} (h : octetOf part = some o) :
    digitsValue part = o ∧ decimalDigits o = part ∧ o < 2 ^ 8 := by
  unfold octetOf at h
  split_ifs at h with hpart
  obtain rfl := Option.some.inj h
  exact ⟨rfl, hpart⟩

theorem octets_of_every {parts : List JsString} {octets : List ℕ}
    (h : List.Forall₂ (fun part o ↦ octetOf part = some o) parts octets) :
    parts.map digitsValue = octets ∧ octets.map decimalDigits = parts := by
  induction h with
  | nil => exact ⟨rfl, rfl⟩
  | cons hpart _ ih =>
    obtain ⟨hvalue, htext, -⟩ := octetOf_eq_some hpart
    rw [List.map_cons, List.map_cons, hvalue, htext, ih.1, ih.2]
    exact ⟨rfl, rfl⟩

/-- An address of version 4 is read off its four parts, and written back as it was. -/
theorem parseIpv4_eq_some {s : JsString} {a : Ipv4} (h : parseIpv4 s = some a) :
    (s.splitOn 0x2e).map digitsValue = a.octets ∧
      List.intercalate [0x2e] (a.octets.map decimalDigits) = s := by
  unfold parseIpv4 at h
  split at h
  · rename_i octets hoctets
    split_ifs at h
    obtain rfl := Option.some.inj h
    obtain ⟨hvalues, htexts⟩ := octets_of_every (every_eq_some.mp hoctets)
    refine ⟨hvalues, ?_⟩
    rw [htexts, List.intercalate_splitOn]
  · cases h

/-! ### The text of an address of version 6 -/

theorem hexValue_hexDigit {n : ℕ} (hn : n < 16) : hexValue (hexDigit n) = some n := by
  have hall : ∀ n < 16, hexValue (hexDigit n) = some n := by decide
  exact hall n hn

/-- The digits of a word, the highest first. -/
theorem wordText_digits {w : ℕ} (hw : w < 2 ^ 16) :
    ∃ ds : List ℕ, wordText w = ds.map hexDigit ∧ ds ≠ [] ∧ (∀ d ∈ ds, d < 16) ∧
      ds.foldl (fun acc d ↦ acc * 16 + d) 0 = w := by
  unfold wordText
  split_ifs with h16 h256 h4096
  · exact ⟨[w], rfl, List.cons_ne_nil _ _, by simpa using h16, by simp⟩
  · refine ⟨[w / 16, w % 16], rfl, List.cons_ne_nil _ _, ?_, ?_⟩
    · simp only [List.mem_cons, List.not_mem_nil, or_false, forall_eq_or_imp, forall_eq]
      omega
    · simp only [List.foldl_cons, List.foldl_nil]
      omega
  · refine ⟨[w / 256, w / 16 % 16, w % 16], rfl, List.cons_ne_nil _ _, ?_, ?_⟩
    · simp only [List.mem_cons, List.not_mem_nil, or_false, forall_eq_or_imp, forall_eq]
      omega
    · simp only [List.foldl_cons, List.foldl_nil]
      omega
  · refine ⟨[w / 4096, w / 256 % 16, w / 16 % 16, w % 16], rfl, List.cons_ne_nil _ _, ?_, ?_⟩
    · simp only [List.mem_cons, List.not_mem_nil, or_false, forall_eq_or_imp, forall_eq]
      omega
    · simp only [List.foldl_cons, List.foldl_nil]
      omega

/-- The characters that a serialized address is made of. -/
def isAddressUnit (c : UInt16) : Bool := isLowerHex c || decide (c = 0x3a)

theorem isLowerHex_hexDigit {n : ℕ} (hn : n < 16) : isLowerHex (hexDigit n) = true := by
  have hall : ∀ n < 16, isLowerHex (hexDigit n) = true := by decide
  exact hall n hn

theorem isLowerHex_wordText {w : ℕ} (hw : w < 2 ^ 16) :
    ∀ c ∈ wordText w, isLowerHex c = true := by
  obtain ⟨ds, htext, -, hds, -⟩ := wordText_digits hw
  rw [htext]
  exact List.forall_mem_map.mpr fun d hd ↦ isLowerHex_hexDigit (hds d hd)

theorem wordText_ne_nil {w : ℕ} (hw : w < 2 ^ 16) : wordText w ≠ [] := by
  obtain ⟨ds, htext, hne, -⟩ := wordText_digits hw
  rw [htext]
  exact fun h ↦ hne (List.map_eq_nil_iff.mp h)

theorem ne_colon_of_isLowerHex {c : UInt16} (hc : isLowerHex c = true) : c ≠ 0x3a := by
  rintro rfl
  exact absurd hc (by decide)

/-- The words between colons are what was joined. -/
theorem splitOn_joinColon {words : List ℕ} (hwords : ∀ w ∈ words, w < 2 ^ 16)
    (hne : words ≠ []) : (joinColon words).splitOn 0x3a = words.map wordText := by
  refine List.splitOn_intercalate 0x3a (List.forall_mem_map.mpr fun w hw hmem ↦ ?_)
    (fun h ↦ hne (List.map_eq_nil_iff.mp h))
  exact ne_colon_of_isLowerHex (isLowerHex_wordText (hwords w hw) _ hmem) rfl

theorem joinColon_cons_cons (w v : ℕ) (words : List ℕ) :
    joinColon (w :: v :: words) = wordText w ++ 0x3a :: joinColon (v :: words) := by
  simp [joinColon, List.intercalate]

/-- Joined words begin with a digit. -/
theorem joinColon_cons {w : ℕ} (hw : w < 2 ^ 16) (words : List ℕ) :
    ∃ c rest, joinColon (w :: words) = c :: rest ∧ isLowerHex c = true := by
  obtain ⟨c, rest, htext⟩ := List.exists_cons_of_ne_nil (wordText_ne_nil hw)
  have hc : isLowerHex c = true := isLowerHex_wordText hw c (htext ▸ List.mem_cons_self)
  cases words with
  | nil => exact ⟨c, rest, by simp [joinColon, List.intercalate, htext], hc⟩
  | cons v words =>
    refine ⟨c, rest ++ 0x3a :: joinColon (v :: words), ?_, hc⟩
    rw [joinColon_cons_cons, htext, List.cons_append]

theorem joinColon_eq_nil {words : List ℕ} (hwords : ∀ w ∈ words, w < 2 ^ 16) :
    joinColon words = [] ↔ words = [] := by
  constructor
  · intro h
    cases words with
    | nil => rfl
    | cons w words =>
      obtain ⟨c, rest, htext, -⟩ := joinColon_cons (hwords w List.mem_cons_self) words
      rw [htext] at h
      cases h
  · rintro rfl
    rfl

/-- Every unit of joined words is a hexadecimal digit or a colon. -/
theorem isAddressUnit_joinColon {words : List ℕ} (hwords : ∀ w ∈ words, w < 2 ^ 16) :
    ∀ c ∈ joinColon words, isAddressUnit c = true := by
  have hword {w : ℕ} (hw : w < 2 ^ 16) : ∀ c ∈ wordText w, isAddressUnit c = true := by
    intro c hc
    rw [isAddressUnit, isLowerHex_wordText hw c hc, Bool.true_or]
  induction words with
  | nil => exact fun c hc ↦ absurd hc List.not_mem_nil
  | cons w words ih =>
    obtain ⟨hw, hwords⟩ := List.forall_mem_cons.mp hwords
    cases words with
    | nil =>
      intro c hc
      exact hword hw c (by simpa [joinColon, List.intercalate] using hc)
    | cons v words =>
      rw [joinColon_cons_cons]
      exact List.forall_mem_append.mpr ⟨hword hw,
        List.forall_mem_cons.mpr ⟨by decide, ih hwords⟩⟩

theorem startsWith_colons_cons {c : UInt16} (hc : c ≠ 0x3a) (s : JsString) :
    startsWith (c :: s) "::" = false := by
  have hcolon : js "::" = [0x3a, 0x3a] := by decide
  rw [startsWith, hcolon, List.isPrefixOf_cons_cons, beq_eq_false_iff_ne.mpr hc.symm, Bool.false_and]

theorem startsWith_colons_cons_cons {c : UInt16} (hc : c ≠ 0x3a) (s : JsString) :
    startsWith (0x3a :: c :: s) "::" = false := by
  have hcolon : js "::" = [0x3a, 0x3a] := by decide
  rw [startsWith, hcolon, List.isPrefixOf_cons_cons, List.isPrefixOf_cons_cons,
    beq_eq_false_iff_ne.mpr hc.symm, Bool.false_and, Bool.and_false]

/-- No two colons follow each other where a text of digits begins. -/
theorem startsWith_colons_of_digits {t : JsString} (ht : ∀ c ∈ t, isLowerHex c = true)
    (rest : JsString) {i : ℕ} (hi : i < t.length) :
    startsWith ((t ++ rest).drop i) "::" = false := by
  rw [List.drop_append_of_le_length hi.le, List.drop_eq_getElem_cons hi, List.cons_append]
  exact startsWith_colons_cons (ne_colon_of_isLowerHex (ht _ (List.getElem_mem hi))) _

/-- Within joined words no two colons follow each other, whatever comes after them. -/
theorem startsWith_colons_joinColon {words : List ℕ} (hwords : ∀ w ∈ words, w < 2 ^ 16)
    (rest : JsString) {i : ℕ} (hi : i < (joinColon words).length) :
    startsWith ((joinColon words ++ rest).drop i) "::" = false := by
  induction words generalizing i with
  | nil => exact absurd hi (Nat.not_lt_zero i)
  | cons w words ih =>
    obtain ⟨hw, hwords⟩ := List.forall_mem_cons.mp hwords
    cases words with
    | nil =>
      have htext : joinColon [w] = wordText w := by simp [joinColon, List.intercalate]
      rw [htext] at hi ⊢
      exact startsWith_colons_of_digits (isLowerHex_wordText hw) rest hi
    | cons v words =>
      rw [joinColon_cons_cons] at hi ⊢
      rcases Nat.lt_trichotomy i (wordText w).length with hlt | heq | hgt
      · rw [List.append_assoc]
        exact startsWith_colons_of_digits (isLowerHex_wordText hw) _ hlt
      · obtain ⟨c, tail, htext, hc⟩ := joinColon_cons (hwords v List.mem_cons_self) words
        rw [List.append_assoc, heq, List.drop_left, htext, List.cons_append, List.cons_append]
        exact startsWith_colons_cons_cons (ne_colon_of_isLowerHex hc) _
      · obtain ⟨j, rfl⟩ : ∃ j, i = (wordText w).length + (j + 1) :=
          ⟨i - (wordText w).length - 1, by omega⟩
        rw [List.append_assoc, List.drop_length_add_append, List.cons_append, List.drop_succ_cons]
        refine ih hwords ?_
        rw [List.length_append, List.length_cons] at hi
        omega

theorem zeroRun_of_longestZeroRun {words : List ℕ} {i n : ℕ}
    (h : longestZeroRun words = some (i, n)) : zeroRun words i = n := by
  unfold longestZeroRun at h
  obtain ⟨j, hfound, hpair⟩ := Option.map_eq_some_iff.mp h
  obtain ⟨rfl, rfl⟩ := Prod.mk.inj hpair
  have hrun := List.find?_some hfound
  exact of_decide_eq_true hrun

/-- A run of zeros splits the words. -/
theorem eq_of_zeroRun {words : List ℕ} {i n : ℕ} (h : zeroRun words i = n) :
    words = words.take i ++ List.replicate n 0 ++ words.drop (i + n) := by
  have hzeros : (words.drop i).takeWhile (fun w ↦ decide (w = 0)) = List.replicate n 0 := by
    refine List.eq_replicate_iff.mpr ⟨h, fun w hw ↦ ?_⟩
    have hzero := List.mem_takeWhile_imp hw
    exact of_decide_eq_true hzero
  have hsplit := @List.takeWhile_append_dropWhile _ (fun w ↦ decide (w = 0)) (words.drop i)
  have hrest : (words.drop i).dropWhile (fun w ↦ decide (w = 0)) = words.drop (i + n) := by
    have hdrop := @List.drop_left' _ (List.replicate n 0)
      ((words.drop i).dropWhile fun w ↦ decide (w = 0)) n List.length_replicate
    rw [← hdrop, ← hzeros, hsplit, List.drop_drop]
  rw [List.append_assoc, ← hzeros, ← hrest, hsplit, List.take_append_drop]

/-- The text leaves a run of at least two zeros out, or nothing. -/
theorem serializeIpv6_cases (a : Ipv6) :
    serializeIpv6 a = joinColon a.words ∨
      ∃ left right n, 2 ≤ n ∧ a.words = left ++ List.replicate n 0 ++ right ∧
        serializeIpv6 a = joinColon left ++ js "::" ++ joinColon right := by
  unfold serializeIpv6
  split
  · rename_i i n hrun
    split_ifs with hn
    · right
      exact ⟨a.words.take i, a.words.drop (i + n), n, hn,
        eq_of_zeroRun (zeroRun_of_longestZeroRun hrun), rfl⟩
    · exact Or.inl rfl
  · exact Or.inl rfl

end Foundation.IpAddress
