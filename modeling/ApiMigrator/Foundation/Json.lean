import ApiMigrator.Foundation.Number
import Mathlib.Data.List.Sort

/-!
ECMAScript JSON: the values `JSON.parse` builds, the parser as the grammar of ECMA-404 reads a
text, and the quoting of `JSON.stringify`. An object keeps its members in the order they were
created, on which nothing here depends; a repeated key overwrites the earlier member.
-/

set_option autoImplicit false
set_option relaxedAutoImplicit false

namespace Foundation.Json

open Text Number

/-- What a value can be that is not plain data. The last two are members rather than values: one
that is not enumerable or has a symbol for a key, and one with a getter. -/
inductive Exotic
  | undefined
  | unsupported
  | cyclic
  | irregularArray
  | nonPlainObject
  | hidden
  | accessor
  deriving DecidableEq

/-- An ECMAScript value, data or not. Functions, symbols and bigints are `Exotic.unsupported`. -/
inductive JsValue
  | null
  | bool (b : Bool)
  | num (n : JsNumber)
  | str (s : JsString)
  | arr (elements : List JsValue)
  | obj (members : List (JsString × JsValue))
  | exotic (kind : Exotic)

abbrev Member := JsString × JsValue

/-! ### Quoting -/

/-- `\u` and four lowercase hexadecimal digits. -/
def unicodeEscape (c : UInt16) : JsString :=
  [0x5c, 0x75, hexDigit (c.toNat / 0x1000), hexDigit (c.toNat / 0x100 % 0x10),
    hexDigit (c.toNat / 0x10 % 0x10), hexDigit (c.toNat % 0x10)]

/-- One code unit of a quoted string that is not half of a surrogate pair. -/
def quoteUnit (c : UInt16) : JsString :=
  if c = 0x08 then [0x5c, 0x62]
  else if c = 0x09 then [0x5c, 0x74]
  else if c = 0x0a then [0x5c, 0x6e]
  else if c = 0x0c then [0x5c, 0x66]
  else if c = 0x0d then [0x5c, 0x72]
  else if c = 0x22 then [0x5c, 0x22]
  else if c = 0x5c then [0x5c, 0x5c]
  else if c.toNat < 0x20 || isHighSurrogate c || isLowSurrogate c then unicodeEscape c
  else [c]

def quoteUnits : JsString → JsString
  | [] => []
  | [c] => quoteUnit c
  | c :: d :: rest =>
    if isHighSurrogate c && isLowSurrogate d then c :: d :: quoteUnits rest
    else quoteUnit c ++ quoteUnits (d :: rest)

/-- `JSON.stringify` of a string. -/
def quote (s : JsString) : JsString := 0x22 :: quoteUnits s ++ [0x22]

/-! ### Parsing -/

def isWhitespace (c : UInt16) : Bool := c == 0x20 || c == 0x09 || c == 0x0a || c == 0x0d

def skipWhitespace : JsString → JsString
  | [] => []
  | c :: rest => if isWhitespace c then skipWhitespace rest else c :: rest

def hexValue (c : UInt16) : Option ℕ :=
  if 0x30 ≤ c.toNat ∧ c.toNat ≤ 0x39 then some (c.toNat - 0x30)
  else if 0x61 ≤ c.toNat ∧ c.toNat ≤ 0x66 then some (c.toNat - 0x57)
  else if 0x41 ≤ c.toNat ∧ c.toNat ≤ 0x46 then some (c.toNat - 0x37)
  else none

def hexUnit (a b c d : UInt16) : Option UInt16 :=
  match hexValue a, hexValue b, hexValue c, hexValue d with
  | some w, some x, some y, some z => some (UInt16.ofNat (w * 0x1000 + x * 0x100 + y * 0x10 + z))
  | _, _, _, _ => none

def simpleEscape (c : UInt16) : Option UInt16 :=
  if c = 0x22 then some 0x22
  else if c = 0x5c then some 0x5c
  else if c = 0x2f then some 0x2f
  else if c = 0x62 then some 0x08
  else if c = 0x66 then some 0x0c
  else if c = 0x6e then some 0x0a
  else if c = 0x72 then some 0x0d
  else if c = 0x74 then some 0x09
  else none

/-- Puts a code unit before a string that has been read. -/
def prepend (c : UInt16) (read : Option (JsString × JsString)) : Option (JsString × JsString) :=
  read.map fun r ↦ (c :: r.1, r.2)

/-- A string after its opening quote, and the text after its closing one. -/
def parseString : JsString → Option (JsString × JsString)
  | [] => none
  | c :: r =>
    if c = 0x22 then some ([], r)
    else if c.toNat < 0x20 then none
    else if c = 0x5c then
      match r with
      | [] => none
      | e :: r₁ =>
        if e = 0x75 then
          match r₁ with
          | w :: x :: y :: z :: r₂ =>
            match hexUnit w x y z with
            | some u => prepend u (parseString r₂)
            | none => none
          | _ => none
        else
          match simpleEscape e with
          | some u => prepend u (parseString r₁)
          | none => none
    else prepend c (parseString r)

/-- The integer part of a number: a single zero, or digits that do not start with one. -/
def parseIntegerPart (s : JsString) : Option (JsString × JsString) :=
  match s with
  | [] => none
  | c :: r =>
    if c = 0x30 then some ([c], r)
    else if isDigit c then some ((c :: r).takeWhile isDigit, (c :: r).dropWhile isDigit)
    else none

/-- The digits after a decimal point; none when there is no point. -/
def parseFraction (s : JsString) : Option (JsString × JsString) :=
  match s with
  | [] => some ([], s)
  | c :: r =>
    if c = 0x2e then
      if r.takeWhile isDigit = [] then none else some (r.takeWhile isDigit, r.dropWhile isDigit)
    else some ([], s)

def parseExponentDigits (s : JsString) : Option (ℕ × JsString) :=
  if s.takeWhile isDigit = [] then none
  else some (digitsValue (s.takeWhile isDigit), s.dropWhile isDigit)

/-- The exponent after `e` or `E`; zero when there is neither. -/
def parseExponent (s : JsString) : Option (ℤ × JsString) :=
  match s with
  | [] => some (0, s)
  | c :: r =>
    if c = 0x65 ∨ c = 0x45 then
      match r with
      | [] => none
      | sign :: r₁ =>
        if sign = 0x2d then (parseExponentDigits r₁).map fun d ↦ (-(d.1 : ℤ), d.2)
        else if sign = 0x2b then (parseExponentDigits r₁).map fun d ↦ ((d.1 : ℤ), d.2)
        else (parseExponentDigits r).map fun d ↦ ((d.1 : ℤ), d.2)
    else some (0, s)

/-- The double of a decimal literal. -/
def literalValue (negative : Bool) (integer fraction : JsString) (exponent : ℤ) : JsNumber :=
  let scale := exponent - fraction.length
  let digits := digitsValue (integer ++ fraction)
  if 0 ≤ scale then toDouble negative (digits * 10 ^ scale.toNat) 1
  else toDouble negative digits (10 ^ (-scale).toNat)

def parseMagnitude (negative : Bool) (s : JsString) : Option (JsNumber × JsString) := do
  let (integer, s₁) ← parseIntegerPart s
  let (fraction, s₂) ← parseFraction s₁
  let (exponent, s₃) ← parseExponent s₂
  return (literalValue negative integer fraction exponent, s₃)

def parseNumber (s : JsString) : Option (JsNumber × JsString) :=
  match s with
  | [] => none
  | c :: r => if c = 0x2d then parseMagnitude true r else parseMagnitude false s

/-- Removes a literal word from the front of a text. -/
def stripWord (word s : JsString) : Option JsString :=
  if word.isPrefixOf s then some (s.drop word.length) else none

/-- Creates the member, or overwrites the one with its key. -/
def setMember (members : List Member) (key : JsString) (value : JsValue) : List Member :=
  if key ∈ members.map Prod.fst then
    members.map fun m ↦ if m.1 = key then (key, value) else m
  else members ++ [(key, value)]

mutual

/-- A value after leading whitespace, and the text after it. The fuel bounds the nesting. -/
def parseValue : ℕ → JsString → Option (JsValue × JsString)
  | 0, _ => none
  | fuel + 1, text =>
    match skipWhitespace text with
    | [] => none
    | c :: r =>
      if c = 0x22 then (parseString r).map fun p ↦ (.str p.1, p.2)
      else if c = 0x5b then
        match skipWhitespace r with
        | [] => none
        | d :: r₁ => if d = 0x5d then some (.arr [], r₁) else parseElements fuel [] (d :: r₁)
      else if c = 0x7b then
        match skipWhitespace r with
        | [] => none
        | d :: r₁ => if d = 0x7d then some (.obj [], r₁) else parseMembers fuel [] (d :: r₁)
      else if c = 0x6e then (stripWord (js "null") (c :: r)).map fun r₁ ↦ (.null, r₁)
      else if c = 0x74 then (stripWord (js "true") (c :: r)).map fun r₁ ↦ (.bool true, r₁)
      else if c = 0x66 then (stripWord (js "false") (c :: r)).map fun r₁ ↦ (.bool false, r₁)
      else (parseNumber (c :: r)).map fun p ↦ (.num p.1, p.2)

/-- Array elements up to the closing bracket, after the `before` already read. -/
def parseElements : ℕ → List JsValue → JsString → Option (JsValue × JsString)
  | 0, _, _ => none
  | fuel + 1, before, text =>
    match parseValue fuel text with
    | none => none
    | some (v, r) =>
      match skipWhitespace r with
      | [] => none
      | c :: r₁ =>
        if c = 0x2c then parseElements fuel (before ++ [v]) r₁
        else if c = 0x5d then some (.arr (before ++ [v]), r₁)
        else none

/-- Object members up to the closing brace, after the `before` already created. -/
def parseMembers : ℕ → List Member → JsString → Option (JsValue × JsString)
  | 0, _, _ => none
  | fuel + 1, before, text =>
    match skipWhitespace text with
    | [] => none
    | q :: r =>
      if q = 0x22 then
        match parseString r with
        | none => none
        | some (key, r₁) =>
          match skipWhitespace r₁ with
          | [] => none
          | colon :: r₂ =>
            if colon = 0x3a then
              match parseValue fuel r₂ with
              | none => none
              | some (v, r₃) =>
                match skipWhitespace r₃ with
                | [] => none
                | c :: r₄ =>
                  if c = 0x2c then parseMembers fuel (setMember before key v) r₄
                  else if c = 0x7d then some (.obj (setMember before key v), r₄)
                  else none
            else none
      else none

end

/-- `JSON.parse`. The fuel is never short: every level of nesting and every element or member
consumes a code unit. -/
def jsonParse (text : JsString) : Option JsValue :=
  match parseValue (2 * text.length + 2) text with
  | none => none
  | some (v, rest) => if skipWhitespace rest = [] then some v else none

end Foundation.Json
