import ApiMigrator.Foundation.Pattern

/-!
Regular expressions as a backtracking matcher reads them, and the replacement of every match in a
text. The matcher tries the alternatives in order; a repetition is of one class of code units and
is greedy or lazy.
-/

set_option autoImplicit false
set_option relaxedAutoImplicit false

namespace Foundation

open Text Pattern

/-- A repetition takes between `least` and `most` code units of its class. -/
inductive Regex
  | empty
  | unit (p : UInt16 → Bool)
  | boundary
  | many (p : UInt16 → Bool) (least : ℕ) (most : Option ℕ) (greedy : Bool)
  | seq (first second : Regex)
  | alt (first second : Regex)

namespace Regex

/-- `\w` -/
def isWord (c : UInt16) : Bool := isAlphanumericOr "_" c

/-- `\b` between two code units, or at an end of the text. -/
def isBoundary (before after : Option UInt16) : Bool := before.any isWord != after.any isWord

/-- The code unit in front of what is left after `n` code units. -/
def unitBefore (before : Option UInt16) (s : JsString) (n : ℕ) : Option UInt16 :=
  (s.take n).getLast?.or before

/-- The numbers of code units a match at the start of `s` takes, the matcher's first choice
first. -/
def ends : Regex → Option UInt16 → JsString → List ℕ
  | empty, _, _ => [0]
  | unit p, _, s => if s.head?.any p then [1] else []
  | boundary, before, s => if isBoundary before s.head? then [0] else []
  | many p least most greedy, _, s =>
    let run := (s.takeWhile p).length
    let counts := (List.range (min run (most.getD run) + 1)).filter (decide <| least ≤ ·)
    if greedy then counts.reverse else counts
  | seq first second, before, s =>
    (first.ends before s).flatMap fun n ↦
      (second.ends (unitBefore before s n) (s.drop n)).map (n + ·)
  | alt first second, before, s => first.ends before s ++ second.ends before s

/-- `r.test(text)` for a pattern that is anchored at the start. -/
def matchesStart (r : Regex) (text : JsString) : Bool := !(r.ends none text).isEmpty

/-- `r.test(text)` for a pattern that is anchored at both ends. -/
def matchesAll (r : Regex) (text : JsString) : Bool := decide (text.length ∈ r.ends none text)

/-- Whether the pattern matches here or further on. -/
def searchFrom (r : Regex) : Option UInt16 → JsString → Bool
  | before, [] => !(r.ends before []).isEmpty
  | before, c :: s => !(r.ends before (c :: s)).isEmpty || r.searchFrom (some c) s

/-- `r.test(text)` -/
def search (r : Regex) (text : JsString) : Bool := r.searchFrom none text

/-- With the flag `i` a letter matches in either case. -/
def foldCase (ignoreCase : Bool) (c : UInt16) : UInt16 :=
  if ignoreCase && isUpperLetter c then c + 0x20 else c

def units (ignoreCase : Bool) : JsString → Regex
  | [] => empty
  | c :: s => seq (unit fun d ↦ foldCase ignoreCase d == foldCase ignoreCase c) (units ignoreCase s)

def lit (ignoreCase : Bool) (literal : String) : Regex := units ignoreCase (js literal)

/-- The first alternative that matches. -/
def choice : List Regex → Regex
  | [] => empty
  | [r] => r
  | r :: rest => alt r (choice rest)

def sequence (parts : List Regex) : Regex := parts.foldr seq empty

/-! ### What a match takes -/

/-- One replacement: of a match the part of `keep` stays, the part of `drop` gives way to the
marker, and the part of `tail` is written as `tailText`. -/
structure Rule where
  keep : Regex
  drop : Regex
  tail : Regex
  marker : JsString
  tailText : JsString

/-- How many code units the three parts of the first match at the start of `s` take. -/
def Rule.find (r : Rule) (before : Option UInt16) (s : JsString) : Option (ℕ × ℕ × ℕ) :=
  ((r.keep.ends before s).flatMap fun k ↦
    (r.drop.ends (unitBefore before s k) (s.drop k)).flatMap fun d ↦
      (r.tail.ends (unitBefore before s (k + d)) (s.drop (k + d))).map fun t ↦ (k, d, t)).head?

/-- The number of code units a match takes, and the text it is replaced by. -/
def Rule.rewrite (r : Rule) (before : Option UInt16) (s : JsString) : Option (ℕ × JsString) :=
  (r.find before s).map fun m ↦ (m.1 + m.2.1 + m.2.2, s.take m.1 ++ r.marker ++ r.tailText)

/-- Replaces every match from left to right, where no match is empty. The first argument counts the
code units of the last match that are still to be passed over. -/
def replaceFrom (rewrite : Option UInt16 → JsString → Option (ℕ × JsString)) :
    ℕ → Option UInt16 → JsString → JsString
  | _, _, [] => []
  | skip + 1, _, c :: s => replaceFrom rewrite skip (some c) s
  | 0, before, c :: s =>
    match rewrite before (c :: s) with
    | some (n + 1, text) => text ++ replaceFrom rewrite n (some c) s
    | _ => c :: replaceFrom rewrite 0 (some c) s

/-- `text.replace(pattern, replacement)` for a pattern with the flag `g`. -/
def Rule.replaceAll (r : Rule) (text : JsString) : JsString := replaceFrom r.rewrite 0 none text

/-- `text.split(separator).join(replacement)` for a separator that is not empty. -/
def splitJoin (separator replacement text : JsString) : JsString :=
  replaceFrom (fun _ s ↦ if separator.isPrefixOf s then some (separator.length, replacement)
    else none) 0 none text

end Regex

end Foundation
