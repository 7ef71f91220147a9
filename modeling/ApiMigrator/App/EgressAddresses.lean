import ApiMigrator.App.PublicationRunner
import ApiMigrator.Foundation.IpAddress

/-!
The addresses that a runner may reach are validated twice: by `publication-runner.ts` when the plan
is made, and by `gateway-contract.mjs` when the gateway is configured. Both read an address with
code of their own; this module compares them with each other and with the number it stands for.
-/

set_option autoImplicit false
set_option relaxedAutoImplicit false

namespace ApiMigrator.App.EgressAddresses

open Foundation.Text Foundation.Number Foundation.Json Foundation.Outcome Foundation.Pattern
open Foundation.IpAddress PublicationRunner
open CanonicalJson (canonicalJson)

/-! ### The gateway -/

def canonicalIp (P : Platform) (value : JsString) : JsString :=
  if P.isIP value = 4 then
    List.intercalate (js ".") ((value.splitOn 0x2e).map fun part ↦
      decimalDigits (digitsValue part))
  else if P.isIP value ≠ 6 then []
  else
    match P.urlHostname value with
    | some hostname =>
      if startsWith hostname "[" = true ∧ endsWith hostname "]" = true then
        (hostname.drop 1).dropLast
      else []
    | none => []

/-- The comparisons of `isGlobalUnicast` on the first three words, `none` for `NaN`. -/
def isGlobalWords (first second third : Option ℕ) : Bool :=
  first.any (fun w ↦ decide (0x2000 ≤ w)) && first.any (fun w ↦ decide (w ≤ 0x3ffe)) &&
    !(decide (first = some 0x2001) && second.any fun w ↦ decide (w ≤ 0x01ff)) &&
    !(decide (first = some 0x2001) && decide (second = some 0x0db8)) &&
    !(decide (first = some 0x2001) && decide (second = some 0x0002) && decide (third = some 0)) &&
    decide (first ≠ some 0x2002)

/-- The expander of the gateway is the one of the plan, in the same text. -/
def isGlobalUnicast (P : Platform) (value : JsString) : Bool :=
  if P.isIP value = 4 then
    match (value.splitOn 0x2e).map digitsValue with
    | first :: second :: third :: _ =>
      !(decide (first = 0) || decide (first = 10) || decide (first = 127) ||
        decide (first = 100 ∧ 64 ≤ second ∧ second ≤ 127) ||
        decide (first = 169 ∧ second = 254) || decide (first = 172 ∧ 16 ≤ second ∧ second ≤ 31) ||
        decide (first = 192 ∧ second = 0 ∧ third = 0) ||
        decide (first = 192 ∧ second = 0 ∧ third = 2) || decide (first = 192 ∧ second = 168) ||
        decide (first = 198 ∧ (second = 18 ∨ second = 19)) ||
        decide (first = 198 ∧ second = 51 ∧ third = 100) ||
        decide (first = 203 ∧ second = 0 ∧ third = 113) || decide (224 ≤ first))
    | _ => false
  else if P.isIP value ≠ 6 ∨ includes value "." = true then false
  else
    match ipv6Words value with
    | some (first :: second :: third :: _) => isGlobalWords first second third
    | _ => false

def globalIp (P : Platform) (value : JsString) : Except String JsString := do
  reject (64 < value.length ∨ includes value "%" = true ∨ includes value "/" = true)
    "Gateway origin address is not an exact IP literal"
  reject (P.isIP value = 0 ∨ canonicalIp P value ≠ value ∨ isGlobalUnicast P value = false)
    "Gateway origin address must be canonical global unicast"
  return value

/-! ### The expander -/

theorem filterMap_hexValue {ds : List ℕ} (hds : ∀ d ∈ ds, d < 16) :
    (ds.map hexDigit).filterMap hexValue = ds := by
  induction ds with
  | nil => rfl
  | cons d ds ih =>
    obtain ⟨hd, hds⟩ := List.forall_mem_cons.mp hds
    rw [List.map_cons, List.filterMap_cons_some (Foundation.IpAddress.hexValue_hexDigit hd),
      ih hds]

theorem parseHexWord_wordText {w : ℕ} (hw : w < 2 ^ 16) : parseHexWord (wordText w) = some w := by
  obtain ⟨ds, htext, hne, hds, hvalue⟩ := wordText_digits hw
  have htake : ((wordText w).takeWhile fun c ↦ (hexValue c).isSome) = wordText w := by
    refine List.takeWhile_eq_self_iff.mpr ?_
    rw [htext]
    refine List.forall_mem_map.mpr fun d hd ↦ ?_
    rw [Foundation.IpAddress.hexValue_hexDigit (hds d hd)]
    rfl
  unfold parseHexWord
  rw [htake, htext, filterMap_hexValue hds]
  split
  · contradiction
  · rw [hvalue]

/-- One side of the expander reads back what was joined. -/
theorem map_parseHexWord_joinColon {words : List ℕ} (hwords : ∀ w ∈ words, w < 2 ^ 16) :
    (if joinColon words = [] then [] else ((joinColon words).splitOn 0x3a).map parseHexWord) =
      words.map some := by
  by_cases hne : words = []
  · subst hne
    rfl
  · rw [if_neg (mt (joinColon_eq_nil hwords).mp hne), splitOn_joinColon hwords hne, List.map_map]
    exact List.map_congr_left fun w hw ↦ parseHexWord_wordText (hwords w hw)

theorem not_includes_colons {words : List ℕ} (hwords : ∀ w ∈ words, w < 2 ^ 16) :
    includes (joinColon words) "::" = false := by
  refine decide_eq_false fun hinside ↦ ?_
  obtain ⟨before, after, htext⟩ := hinside
  have hcolon : js "::" = [0x3a, 0x3a] := by decide
  have hlength : before.length < (joinColon words).length := by
    rw [← htext, hcolon]
    simp only [List.length_append, List.length_cons, List.length_nil]
    omega
  have hstarts := startsWith_colons_joinColon hwords [] hlength
  rw [List.append_nil, ← htext, List.append_assoc, List.drop_left, startsWith, hcolon] at hstarts
  simp at hstarts

theorem ipv6Words_joinColon {words : List ℕ} (hwords : ∀ w ∈ words, w < 2 ^ 16)
    (hlength : words.length = 8) : ipv6Words (joinColon words) = some (words.map some) := by
  have hposition : ((List.range (joinColon words).length).find? fun i ↦
      startsWith ((joinColon words).drop i) "::") = none := by
    refine List.find?_range_eq_none.mpr fun i hi ↦ ?_
    have hstarts := startsWith_colons_joinColon hwords [] hi
    rw [List.append_nil] at hstarts
    rw [hstarts]
    rfl
  simp only [ipv6Words, hposition, map_parseHexWord_joinColon hwords, List.length_map, hlength,
    if_true]

theorem ipv6Words_colons {left right : List ℕ} {n : ℕ} (hleft : ∀ w ∈ left, w < 2 ^ 16)
    (hright : ∀ w ∈ right, w < 2 ^ 16) (hlength : left.length + n + right.length = 8) :
    ipv6Words (joinColon left ++ js "::" ++ joinColon right) =
      some ((left ++ List.replicate n 0 ++ right).map some) := by
  have hcolon : js "::" = [0x3a, 0x3a] := by decide
  have hposition : ((List.range (joinColon left ++ js "::" ++ joinColon right).length).find?
      fun i ↦ startsWith ((joinColon left ++ js "::" ++ joinColon right).drop i) "::") =
        some (joinColon left).length := by
    refine List.find?_range_eq_some.mpr ⟨?_, ?_, fun j hj ↦ ?_⟩
    · rw [List.append_assoc, List.drop_left, startsWith, hcolon]
      rfl
    · rw [List.mem_range, hcolon]
      simp only [List.length_append, List.length_cons, List.length_nil]
      omega
    · rw [List.append_assoc, startsWith_colons_joinColon hleft _ hj]
      rfl
  have htake : (joinColon left ++ js "::" ++ joinColon right).take (joinColon left).length =
      joinColon left := by
    rw [List.append_assoc, List.take_left]
  have hdrop : (joinColon left ++ js "::" ++ joinColon right).drop ((joinColon left).length + 2) =
      joinColon right := by
    rw [List.append_assoc, List.drop_length_add_append, hcolon]
    rfl
  have hn : 8 - left.length - right.length = n := by omega
  simp only [ipv6Words, hposition, htake, hdrop, map_parseHexWord_joinColon hleft,
    map_parseHexWord_joinColon hright, List.length_map, not_includes_colons hright, hn]
  rw [if_neg (by simp; omega)]
  simp

/-- The expander reads every serialized address as it is. -/
theorem ipv6Words_serializeIpv6 (a : Ipv6) :
    ipv6Words (serializeIpv6 a) = some (a.words.map some) := by
  have hlt := a.lt_words
  have hlength := a.length_words
  rcases serializeIpv6_cases a with htext | ⟨left, right, n, -, hwords, htext⟩
  · rw [htext]
    exact ipv6Words_joinColon hlt hlength
  · rw [hwords] at hlt hlength
    rw [htext, hwords]
    rw [List.forall_mem_append, List.forall_mem_append] at hlt
    refine ipv6Words_colons hlt.1.1 hlt.2 ?_
    rwa [List.length_append, List.length_append, List.length_replicate] at hlength

/-! ### Public addresses -/

/-- The blocks that no accepted address of version 4 lies in: their base, by its first octets, and
their length. -/
def excludedIpv4 : List (ℕ × ℕ × ℕ × ℕ) :=
  [(0, 0, 0, 8), (10, 0, 0, 8), (100, 64, 0, 10), (127, 0, 0, 8), (169, 254, 0, 16),
    (172, 16, 0, 12), (192, 0, 0, 24), (192, 0, 2, 24), (192, 168, 0, 16), (198, 18, 0, 15),
    (198, 51, 100, 24), (203, 0, 113, 24), (224, 0, 0, 3)]

/-- The blocks that no accepted address of version 6 lies in, by their first words. -/
def excludedIpv6 : List (ℕ × ℕ × ℕ) :=
  [(0x2001, 0, 23), (0x2001, 0x0db8, 32), (0x2002, 0, 16), (0x3fff, 0, 16)]

/-- The address lies in none of the excluded blocks and, if of version 6, in `2000::/3`. -/
def Public : Address → Prop
  | .v4 a => ∀ a₁ a₂ a₃ length, (a₁, a₂, a₃, length) ∈ excludedIpv4 →
    ¬ InBlock 32 (a₁ * 2 ^ 24 + a₂ * 2 ^ 16 + a₃ * 2 ^ 8) length a.value
  | .v6 a => InBlock 128 (0x2000 * 2 ^ 112) 3 a.value ∧
    ∀ w₁ w₂ length, (w₁, w₂, length) ∈ excludedIpv6 →
      ¬ InBlock 128 (w₁ * 2 ^ 112 + w₂ * 2 ^ 96) length a.value

/-- The leading bits of an address of version 4, by its octets. -/
theorem ipv4_div (o₁ : ℕ) {o₂ o₃ o₄ : ℕ} (h₂ : o₂ < 2 ^ 8) (h₃ : o₃ < 2 ^ 8) (h₄ : o₄ < 2 ^ 8) :
    ∀ v, v = ((o₁ * 2 ^ 8 + o₂) * 2 ^ 8 + o₃) * 2 ^ 8 + o₄ →
      v / 2 ^ 29 = o₁ / 32 ∧ v / 2 ^ 24 = o₁ ∧ v / 2 ^ 22 = o₁ * 4 + o₂ / 64 ∧
        v / 2 ^ 20 = o₁ * 16 + o₂ / 16 ∧ v / 2 ^ 17 = o₁ * 128 + o₂ / 2 ∧
        v / 2 ^ 16 = o₁ * 256 + o₂ ∧ v / 2 ^ 8 = (o₁ * 256 + o₂) * 256 + o₃ := by
  intro v hv
  refine ⟨?_, ?_, ?_, ?_, ?_, ?_, ?_⟩ <;> omega

theorem public_of_isGlobalIpv4 {s : JsString} {a : Ipv4}
    (hoctets : (s.splitOn 0x2e).map digitsValue = a.octets) (h : isGlobalIpv4 s = true) :
    Public (.v4 a) := by
  obtain ⟨octets, hlength, hlt⟩ := a
  obtain ⟨o₁, o₂, o₃, o₄, rfl⟩ : ∃ o₁ o₂ o₃ o₄, octets = [o₁, o₂, o₃, o₄] :=
    List.length_eq_four.mp hlength
  rw [isGlobalIpv4, hoctets] at h
  simp only [Bool.not_eq_true', decide_eq_false_iff_not] at h
  simp only [List.forall_mem_cons, List.not_mem_nil, false_implies, implies_true, and_true] at hlt
  obtain ⟨-, h₂, h₃, h₄⟩ := hlt
  intro a₁ a₂ a₃ length hmem hblock
  obtain ⟨h29, h24, h22, h20, h17, h16, h8⟩ := ipv4_div o₁ h₂ h₃ h₄ _ rfl
  simp only [excludedIpv4, List.mem_cons, Prod.mk.injEq, List.not_mem_nil, or_false] at hmem
  simp only [InBlock, Ipv4.value, List.foldl_cons, List.foldl_nil, zero_mul, zero_add] at hblock
  refine h ?_
  clear h
  rcases hmem with ⟨rfl, rfl, rfl, rfl⟩ | ⟨rfl, rfl, rfl, rfl⟩ | ⟨rfl, rfl, rfl, rfl⟩ |
    ⟨rfl, rfl, rfl, rfl⟩ | ⟨rfl, rfl, rfl, rfl⟩ | ⟨rfl, rfl, rfl, rfl⟩ | ⟨rfl, rfl, rfl, rfl⟩ |
    ⟨rfl, rfl, rfl, rfl⟩ | ⟨rfl, rfl, rfl, rfl⟩ | ⟨rfl, rfl, rfl, rfl⟩ | ⟨rfl, rfl, rfl, rfl⟩ |
    ⟨rfl, rfl, rfl, rfl⟩ | ⟨rfl, rfl, rfl, rfl⟩
  · rw [h24] at hblock
    norm_num at hblock
    exact .inl hblock
  · rw [h24] at hblock
    norm_num at hblock
    exact .inr (.inl hblock)
  · rw [h22] at hblock
    norm_num at hblock
    exact .inr (.inr (.inr (.inl (by omega))))
  · rw [h24] at hblock
    norm_num at hblock
    exact .inr (.inr (.inl hblock))
  · rw [h16] at hblock
    norm_num at hblock
    exact .inr (.inr (.inr (.inr (.inl (by omega)))))
  · rw [h20] at hblock
    norm_num at hblock
    exact .inr (.inr (.inr (.inr (.inr (.inl (by omega))))))
  · rw [h8] at hblock
    norm_num at hblock
    exact .inr (.inr (.inr (.inr (.inr (.inr (.inl (by omega)))))))
  · rw [h8] at hblock
    norm_num at hblock
    exact .inr (.inr (.inr (.inr (.inr (.inr (.inr (.inl (by omega))))))))
  · rw [h16] at hblock
    norm_num at hblock
    exact .inr (.inr (.inr (.inr (.inr (.inr (.inr (.inr (.inl (by omega)))))))))
  · rw [h17] at hblock
    norm_num at hblock
    exact .inr (.inr (.inr (.inr (.inr (.inr (.inr (.inr (.inr (.inl (by omega))))))))))
  · rw [h8] at hblock
    norm_num at hblock
    exact .inr (.inr (.inr (.inr (.inr (.inr (.inr (.inr (.inr (.inr (.inl (by omega)))))))))))
  · rw [h8] at hblock
    norm_num at hblock
    exact .inr (.inr (.inr (.inr (.inr (.inr (.inr (.inr (.inr (.inr (.inr (.inl (by omega))))))))))))
  · rw [h29] at hblock
    norm_num at hblock
    exact .inr (.inr (.inr (.inr (.inr (.inr (.inr (.inr (.inr (.inr (.inr (.inr (by omega))))))))))))

/-- The leading bits of an address of version 6, by its first two words. -/
theorem ipv6_div (w₀ : ℕ) {w₁ rest : ℕ} (h₁ : w₁ < 2 ^ 16) (hrest : rest < 2 ^ 96) :
    ∀ v, v = (w₀ * 2 ^ 16 + w₁) * 2 ^ 96 + rest →
      v / 2 ^ 125 = w₀ / 8192 ∧ v / 2 ^ 112 = w₀ ∧ v / 2 ^ 105 = w₀ * 128 + w₁ / 512 ∧
        v / 2 ^ 96 = w₀ * 65536 + w₁ := by
  intro v hv
  refine ⟨?_, ?_, ?_, ?_⟩ <;> omega

/-- What follows the first words of an address is less than their unit. -/
theorem foldl_words {words : List ℕ} (hlt : ∀ w ∈ words, w < 2 ^ 16) (acc : ℕ) :
    ∃ rest < (2 ^ 16) ^ words.length,
      words.foldl (fun acc w ↦ acc * 2 ^ 16 + w) acc = acc * (2 ^ 16) ^ words.length + rest := by
  induction words generalizing acc with
  | nil => exact ⟨0, Nat.one_pos, by simp⟩
  | cons w words ih =>
    obtain ⟨hw, hlt⟩ := List.forall_mem_cons.mp hlt
    obtain ⟨rest, hrest, hfold⟩ := ih hlt (acc * 2 ^ 16 + w)
    have hpower : (2 ^ 16) ^ (w :: words).length = 2 ^ 16 * (2 ^ 16) ^ words.length :=
      pow_succ' (2 ^ 16) words.length
    rw [hpower]
    refine ⟨w * (2 ^ 16) ^ words.length + rest, ?_, ?_⟩
    · have hle : (w + 1) * (2 ^ 16) ^ words.length ≤ 2 ^ 16 * (2 ^ 16) ^ words.length :=
        Nat.mul_le_mul_right _ hw
      calc w * (2 ^ 16) ^ words.length + rest
          < w * (2 ^ 16) ^ words.length + (2 ^ 16) ^ words.length := Nat.add_lt_add_left hrest _
        _ = (w + 1) * (2 ^ 16) ^ words.length := (Nat.succ_mul _ _).symm
        _ ≤ 2 ^ 16 * (2 ^ 16) ^ words.length := hle
    · rw [List.foldl_cons, hfold]
      ring

theorem public_of_isGlobalIpv6 {a : Ipv6} (h : isGlobalIpv6 (a.words.map some) = true) :
    Public (.v6 a) := by
  obtain ⟨words, hlength, hlt⟩ := a
  obtain ⟨w₀, w₁, words, rfl⟩ : ∃ w₀ w₁ rest, words = w₀ :: w₁ :: rest := by
    rcases words with _ | ⟨w₀, _ | ⟨w₁, rest⟩⟩
    · cases hlength
    · cases hlength
    · exact ⟨w₀, w₁, rest, rfl⟩
  obtain ⟨w₂, words, rfl⟩ := List.exists_cons_of_length_eq_add_one (Nat.succ.inj (Nat.succ.inj hlength))
  obtain ⟨-, hlt⟩ := List.forall_mem_cons.mp hlt
  obtain ⟨h₁, hlt⟩ := List.forall_mem_cons.mp hlt
  have hrestLength : (w₂ :: words).length = 6 := Nat.succ.inj (Nat.succ.inj hlength)
  obtain ⟨rest, hrest, hvalue⟩ := foldl_words hlt (w₀ * 2 ^ 16 + w₁)
  rw [hrestLength] at hrest hvalue
  have hpower : (2 ^ 16) ^ 6 = 2 ^ 96 := by norm_num
  rw [hpower] at hrest hvalue
  obtain ⟨h125, h112, h105, h96⟩ := ipv6_div w₀ h₁ hrest _ rfl
  simp only [isGlobalIpv6, List.map_cons, Option.any_some, Option.some.injEq, Bool.and_eq_true,
    decide_eq_true_eq, Bool.not_eq_true', Bool.and_eq_false_iff, decide_eq_false_iff_not,
    not_and, ne_eq] at h
  obtain ⟨⟨⟨⟨⟨hlow, hhigh⟩, h2001⟩, hdb8⟩, -⟩, h2002⟩ := h
  have hfold : Ipv6.value ⟨w₀ :: w₁ :: w₂ :: words, hlength, ‹_›⟩ =
      (w₀ * 2 ^ 16 + w₁) * 2 ^ 96 + rest := by
    simp only [Ipv6.value, List.foldl_cons, zero_mul, zero_add] at hvalue ⊢
    exact hvalue
  refine ⟨?_, fun b₁ b₂ length hmem hblock ↦ ?_⟩
  · rw [InBlock, hfold, h125]
    norm_num
    omega
  · rw [InBlock, hfold] at hblock
    simp only [excludedIpv6, List.mem_cons, Prod.mk.injEq, List.not_mem_nil, or_false] at hmem
    rcases hmem with ⟨rfl, rfl, rfl⟩ | ⟨rfl, rfl, rfl⟩ | ⟨rfl, rfl, rfl⟩ | ⟨rfl, rfl, rfl⟩
    · rw [h105] at hblock
      norm_num at hblock
      omega
    · rw [h96] at hblock
      norm_num at hblock
      omega
    · rw [h112] at hblock
      norm_num at hblock
      exact h2002 hblock
    · rw [h112] at hblock
      norm_num at hblock
      omega

/-! ### Two validators -/

/-- Node's reading of addresses: what `isIP` takes for version 4 denotes an address of version 4, and
the host name of a URL of a version 6 address is its serialization between brackets. -/
structure NodeAddresses (P : Platform) : Prop where
  isIP_four : ∀ s, P.isIP s = 4 → (parseIpv4 s).isSome = true
  urlHostname : ∀ s, P.isIP s = 6 →
    P.urlHostname s = (parseIpv6 s).map fun a ↦ 0x5b :: serializeIpv6 a ++ [0x5d]

theorem canonicalIp_eq (P : Platform) (s : JsString) : canonicalIp P s = canonicalIpLiteral P s :=
  rfl

theorem isGlobalUnicast_eq (P : Platform) (s : JsString) :
    isGlobalUnicast P s = isGlobalUnicastLiteral P s := by
  unfold isGlobalUnicast isGlobalUnicastLiteral
  split_ifs
  · unfold isGlobalIpv4
    generalize (s.splitOn 0x2e).map digitsValue = octets
    rcases octets with _ | ⟨first, _ | ⟨second, _ | ⟨third, rest⟩⟩⟩
    · rfl
    · rfl
    · rfl
    · simp only [Bool.decide_or, Bool.or_assoc]
  · rfl
  · cases hwords : ipv6Words s with
    | none => rfl
    | some words =>
      rcases words with _ | ⟨first, _ | ⟨second, _ | ⟨third, rest⟩⟩⟩
      · rfl
      · rfl
      · rfl
      · cases first with
        | none => rfl
        | some w => simp [isGlobalWords, isGlobalIpv6, Bool.decide_and, Bool.and_assoc]

/-- What both validators accept: the one text of a public address. -/
inductive Accepted (s : JsString) : Prop
  | v4 (a : Ipv4) (hparse : parseIpv4 s = some a)
    (htext : List.intercalate [0x2e] (a.octets.map decimalDigits) = s) (hpublic : Public (.v4 a))
  | v6 (a : Ipv6) (hparse : parseIpv6 s = some a) (htext : serializeIpv6 a = s)
    (hpublic : Public (.v6 a))

theorem accepted_of_literal {P : Platform} (hP : NodeAddresses P) {s : JsString}
    (hcanonical : canonicalIpLiteral P s = s) (hglobal : isGlobalUnicastLiteral P s = true) :
    Accepted s := by
  unfold isGlobalUnicastLiteral at hglobal
  split_ifs at hglobal with hfour hsix
  · obtain ⟨a, hparse⟩ := Option.isSome_iff_exists.mp (hP.isIP_four s hfour)
    obtain ⟨hoctets, htext⟩ := parseIpv4_eq_some hparse
    exact .v4 a hparse htext (public_of_isGlobalIpv4 hoctets hglobal)
  · have hversion : P.isIP s = 6 := not_not.mp (not_or.mp hsix).1
    have hhostname := hP.urlHostname s hversion
    unfold canonicalIpLiteral at hcanonical
    rw [if_neg hfour, if_neg (not_not.mpr hversion), hhostname] at hcanonical
    cases hparse : parseIpv6 s with
    | none =>
      rw [hparse] at hcanonical
      obtain rfl : [] = s := hcanonical
      exact absurd hglobal (by decide)
    | some a =>
      have hbracket : js "[" = [0x5b] ∧ js "]" = [0x5d] := by decide
      have hstarts : startsWith (0x5b :: serializeIpv6 a ++ [0x5d]) "[" = true := by
        rw [startsWith, hbracket.1]
        rfl
      have hends : endsWith (0x5b :: serializeIpv6 a ++ [0x5d]) "]" = true := by
        rw [endsWith, hbracket.2]
        exact List.isSuffixOf_iff_suffix.mpr (List.suffix_append _ _)
      rw [hparse, Option.map_some] at hcanonical
      simp only [hstarts, hends, and_self, if_true] at hcanonical
      rw [List.cons_append, List.drop_succ_cons, List.drop_zero, List.dropLast_concat]
        at hcanonical
      rw [← hcanonical, ipv6Words_serializeIpv6] at hglobal
      exact .v6 a hparse hcanonical (public_of_isGlobalIpv6 hglobal)

/-- The units of an accepted text are digits, colons and dots. -/
def isLiteralUnit (c : UInt16) : Bool := isAddressUnit c || decide (c = 0x2e)

theorem isAddressUnit_serializeIpv6 (a : Ipv6) : ∀ c ∈ serializeIpv6 a, isAddressUnit c = true := by
  have hcolon : ∀ c ∈ js "::", isAddressUnit c = true :=
    forall_mem_of_all (by decide)
  have hlt := a.lt_words
  rcases serializeIpv6_cases a with htext | ⟨left, right, n, -, hwords, htext⟩
  · rw [htext]
    exact isAddressUnit_joinColon hlt
  · rw [hwords, List.forall_mem_append, List.forall_mem_append] at hlt
    rw [htext]
    exact List.forall_mem_append.mpr ⟨List.forall_mem_append.mpr
      ⟨isAddressUnit_joinColon hlt.1.1, hcolon⟩, isAddressUnit_joinColon hlt.2⟩

theorem isLiteralUnit_intercalate (octets : List ℕ) :
    ∀ c ∈ List.intercalate [0x2e] (octets.map decimalDigits), isLiteralUnit c = true := by
  have hdigits (o : ℕ) : ∀ c ∈ decimalDigits o, isLiteralUnit c = true := by
    intro c hc
    rw [isLiteralUnit, isAddressUnit, isLowerHex, isDigit_of_mem_decimalDigits hc]
    rfl
  induction octets with
  | nil => exact fun c hc ↦ absurd hc List.not_mem_nil
  | cons o octets ih =>
    cases octets with
    | nil =>
      intro c hc
      exact hdigits o c (by simpa [List.intercalate] using hc)
    | cons o' octets =>
      have htext : List.intercalate [0x2e] ((o :: o' :: octets).map decimalDigits) =
          decimalDigits o ++ 0x2e ::
            List.intercalate [0x2e] ((o' :: octets).map decimalDigits) := by
        simp [List.intercalate]
      rw [htext]
      exact List.forall_mem_append.mpr ⟨hdigits o, List.forall_mem_cons.mpr ⟨by decide, ih⟩⟩

theorem Accepted.isLiteralUnit {s : JsString} (h : Accepted s) :
    ∀ c ∈ s, isLiteralUnit c = true := by
  cases h with
  | v4 a _ htext _ => exact htext ▸ isLiteralUnit_intercalate a.octets
  | v6 a _ htext _ =>
    subst htext
    intro c hc
    rw [EgressAddresses.isLiteralUnit, isAddressUnit_serializeIpv6 a c hc, Bool.true_or]

theorem isLiteralUnit_bounds {c : UInt16} (hc : isLiteralUnit c = true) :
    0x2e ≤ c.toNat ∧ c.toNat ≤ 0x66 ∧ isUpperLetter c = false ∧ c ≠ 0x25 ∧ c ≠ 0x2f := by
  simp only [isLiteralUnit, isAddressUnit, isLowerHex, isDigit, Bool.or_eq_true,
    decide_eq_true_eq, ← UInt16.toNat_inj, UInt16.reduceToNat] at hc
  simp only [isUpperLetter, decide_eq_false_iff_not, ne_eq, ← UInt16.toNat_inj, UInt16.reduceToNat]
  omega

/-- Nothing that the plan's validator checks beside the address refuses an accepted text. -/
theorem Accepted.plain {s : JsString} (h : Accepted s) :
    s ≠ [] ∧ trim s = s ∧ byteLength s = s.length ∧ isWellFormed s = true ∧ asciiLower s = s ∧
      includes s "%" = false ∧ includes s "/" = false := by
  have hunit (c : UInt16) (hc : c ∈ s) := isLiteralUnit_bounds (h.isLiteralUnit c hc)
  have hascii : ∀ c ∈ s, c.toNat < 0x80 := fun c hc ↦ by
    obtain ⟨-, hle, -⟩ := hunit c hc
    omega
  have hexcludes {p : String} {d : UInt16} (hp : js p = [d]) (hd : ∀ c ∈ s, c ≠ d) :
      includes s p = false := by
    refine decide_eq_false fun hinside ↦ ?_
    rw [hp] at hinside
    exact hd d (hinside.subset List.mem_cons_self) rfl
  refine ⟨?_, trim_of_forall fun c hc ↦ ?_, byteLength_of_ascii hascii,
    isWellFormed_of_ascii hascii, ?_, hexcludes (by decide) fun c hc ↦ (hunit c hc).2.2.2.1,
    hexcludes (by decide) fun c hc ↦ (hunit c hc).2.2.2.2⟩
  · rintro rfl
    cases h with
    | v4 a hparse _ _ =>
      have hnone : (parseIpv4 []).isSome = false := by decide
      rw [hparse] at hnone
      cases hnone
    | v6 a hparse _ _ =>
      have hnone : (parseIpv6 []).isSome = false := by decide
      rw [hparse] at hnone
      cases hnone
  · obtain ⟨hlow, hhigh, -⟩ := hunit c hc
    simp only [isSpace, decide_eq_false_iff_not, List.mem_cons, List.not_mem_nil, or_false,
      ← UInt16.toNat_inj, UInt16.reduceToNat]
    omega
  · rw [asciiLower]
    refine (List.map_congr_left fun c hc ↦ ?_).trans (List.map_id s)
    rw [(hunit c hc).2.2.1]
    rfl

theorem validateAddress_eq_ok {P : Platform} {s t : JsString} :
    validateAddress P (.str s) = .ok t ↔
      (s ≠ [] ∧ trim s = s ∧ byteLength s ≤ 64 ∧ isWellFormed s = true ∧ asciiLower s = s ∧
        includes s "%" = false) ∧
      (P.isIP s ≠ 0 ∧ canonicalIpLiteral P s = s ∧ isGlobalUnicastLiteral P s = true) ∧ s = t := by
  have hjson : (∃ text, canonicalJson (.str s) = .ok text) ↔ isWellFormed s = true := by
    simp only [CanonicalJson.canonicalJson_of_canonical (canonical_str s)]
    constructor
    · rintro ⟨-, hstr, -⟩
      cases hstr with
      | str hwell => exact hwell
    · exact fun hwell ↦ ⟨_, .str hwell, rfl⟩
  simp only [validateAddress, boundedString, bind_eq_ok, reject_eq_ok, exists_unit, pure_eq_ok,
    not_or, not_lt, not_not, Bool.not_eq_true, Bool.not_eq_false, ne_eq]
  constructor
  · rintro ⟨_, ⟨⟨hne, htrim, hsize⟩, text, htext, rfl⟩, ⟨hlower, hzone, hliteral⟩, rfl⟩
    exact ⟨⟨hne, htrim.symm, hsize, hjson.mp ⟨text, htext⟩, hlower.symm, hzone⟩, hliteral, rfl⟩
  · rintro ⟨⟨hne, htrim, hsize, hwell, hlower, hzone⟩, hliteral, rfl⟩
    obtain ⟨text, htext⟩ := hjson.mpr hwell
    exact ⟨s, ⟨⟨hne, htrim.symm, hsize⟩, text, htext, rfl⟩, ⟨hlower.symm, hzone, hliteral⟩, rfl⟩

theorem globalIp_eq_ok {P : Platform} {s t : JsString} :
    globalIp P s = .ok t ↔
      (s.length ≤ 64 ∧ includes s "%" = false ∧ includes s "/" = false) ∧
      (P.isIP s ≠ 0 ∧ canonicalIpLiteral P s = s ∧ isGlobalUnicastLiteral P s = true) ∧ s = t := by
  simp only [globalIp, bind_eq_ok, reject_eq_ok, exists_unit, pure_eq_ok, not_or, not_lt,
    Bool.not_eq_true, not_not, canonicalIp_eq, isGlobalUnicast_eq, Bool.not_eq_false, ne_eq]

/-- The two validators accept the same strings. -/
theorem validateAddress_iff_globalIp {P : Platform} (hP : NodeAddresses P) (s : JsString) :
    validateAddress P (.str s) = .ok s ↔ globalIp P s = .ok s := by
  rw [validateAddress_eq_ok, globalIp_eq_ok]
  constructor
  · rintro ⟨⟨-, -, hsize, -, -, hzone⟩, hliteral, -⟩
    obtain ⟨-, -, hlength, -, -, -, hslash⟩ := (accepted_of_literal hP hliteral.2.1 hliteral.2.2).plain
    exact ⟨⟨hlength ▸ hsize, hzone, hslash⟩, hliteral, rfl⟩
  · rintro ⟨⟨hsize, hzone, -⟩, hliteral, -⟩
    obtain ⟨hne, htrim, hlength, hwell, hlower, -, -⟩ :=
      (accepted_of_literal hP hliteral.2.1 hliteral.2.2).plain
    exact ⟨⟨hne, htrim, hlength.symm ▸ hsize, hwell, hlower, hzone⟩, hliteral, rfl⟩

theorem parseAddress_v4 {s : JsString} {a : Ipv4} (hparse : parseIpv4 s = some a) :
    parseAddress s = some (.v4 a) := by
  rw [parseAddress, hparse]

/-- A serialized address has no dots. -/
theorem parseAddress_v6 {s : JsString} {a : Ipv6} (hparse : parseIpv6 s = some a)
    (htext : serializeIpv6 a = s) : parseAddress s = some (.v6 a) := by
  have hnone : parseIpv4 s = none := by
    cases hfour : parseIpv4 s with
    | none => rfl
    | some b =>
      obtain ⟨-, hdots⟩ := parseIpv4_eq_some hfour
      obtain ⟨o₁, o₂, o₃, o₄, hoctets⟩ : ∃ o₁ o₂ o₃ o₄, b.octets = [o₁, o₂, o₃, o₄] :=
        List.length_eq_four.mp b.length_octets
      have hmem : (0x2e : UInt16) ∈ s := by
        rw [← hdots, hoctets]
        simp [List.intercalate]
      exact absurd (isAddressUnit_serializeIpv6 a _ (htext ▸ hmem)) (by decide)
  rw [parseAddress, hnone, hparse]
  rfl

theorem parseAddress_of_accepted {s : JsString} (h : Accepted s) :
    ∃ a, parseAddress s = some a ∧ Public a := by
  cases h with
  | v4 a hparse _ hpublic => exact ⟨.v4 a, parseAddress_v4 hparse, hpublic⟩
  | v6 a hparse htext hpublic => exact ⟨.v6 a, parseAddress_v6 hparse htext, hpublic⟩

/-- One address has one accepted text. -/
theorem Accepted.unique {s t : JsString} (hs : Accepted s) (ht : Accepted t)
    (h : parseAddress s = parseAddress t) : s = t := by
  cases hs with
  | v4 a hparse htext _ =>
    rw [parseAddress_v4 hparse] at h
    cases ht with
    | v4 b hparse' htext' _ =>
      rw [parseAddress_v4 hparse', Option.some.injEq, Address.v4.injEq] at h
      rw [← htext, ← htext', h]
    | v6 b hparse' htext' _ =>
      rw [parseAddress_v6 hparse' htext'] at h
      cases h
  | v6 a hparse htext _ =>
    rw [parseAddress_v6 hparse htext] at h
    cases ht with
    | v4 b hparse' _ _ =>
      rw [parseAddress_v4 hparse'] at h
      cases h
    | v6 b hparse' htext' _ =>
      rw [parseAddress_v6 hparse' htext', Option.some.injEq, Address.v6.injEq] at h
      rw [← htext, ← htext', h]

/-- Under Node's reading of addresses the plan and the gateway accept the same strings; each of them
is the only accepted text of its address; and the address is public. -/
theorem egress_address_validation {P : Platform} (hP : NodeAddresses P) :
    (∀ s, validateAddress P (.str s) = .ok s ↔ globalIp P s = .ok s) ∧
    (∀ s t, globalIp P s = .ok s → globalIp P t = .ok t → parseAddress s = parseAddress t →
      s = t) ∧
    ∀ s, globalIp P s = .ok s → ∃ a, parseAddress s = some a ∧ Public a := by
  have haccepted {s : JsString} (h : globalIp P s = .ok s) : Accepted s := by
    obtain ⟨-, ⟨-, hcanonical, hglobal⟩, -⟩ := globalIp_eq_ok.mp h
    exact accepted_of_literal hP hcanonical hglobal
  refine ⟨validateAddress_iff_globalIp hP, fun s t hs ht hsame ↦ ?_, fun s hs ↦ ?_⟩
  · exact (haccepted hs).unique (haccepted ht) hsame
  · exact parseAddress_of_accepted (haccepted hs)

/-! ### A platform -/

private theorem length_sampleSha1 (_ : Bytes) : (List.replicate 20 (0 : UInt8)).length = 20 :=
  List.length_replicate

/-- The platform that reads addresses as they denote. -/
def samplePlatform : Platform where
  hashes := ⟨⟨fun _ ↦ List.replicate 20 0, length_sampleSha1⟩,
    Foundation.Binary.HashFunction.polynomial⟩
  isIP s := if (parseIpv4 s).isSome then 4 else if (parseIpv6 s).isSome then 6 else 0
  urlHostname s := (parseIpv6 s).map fun a ↦ 0x5b :: serializeIpv6 a ++ [0x5d]

theorem nodeAddresses_sample : NodeAddresses samplePlatform where
  isIP_four s h := by
    simp only [samplePlatform] at h
    split_ifs at h with hfour hsix
    · exact hfour
    · exact absurd h (by decide)
  urlHostname _ _ := rfl

theorem egress_address_validation_sample :
    globalIp samplePlatform (js "2606:4700::1111") = .ok (js "2606:4700::1111") ∧
    (∀ s, validateAddress samplePlatform (.str s) = .ok s ↔ globalIp samplePlatform s = .ok s) ∧
    (∀ s t, globalIp samplePlatform s = .ok s → globalIp samplePlatform t = .ok t →
      parseAddress s = parseAddress t → s = t) ∧
    ∀ s, globalIp samplePlatform s = .ok s → ∃ a, parseAddress s = some a ∧ Public a :=
  ⟨by decide +kernel, egress_address_validation nodeAddresses_sample⟩

end ApiMigrator.App.EgressAddresses
