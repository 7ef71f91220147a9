import ApiMigrator.Engine.TscOutput
import Mathlib.Data.List.Infix

/-!
`verifier.ts`: which dependency specs are taken for registry versions, ranges, tags or aliases to
them, beside the reading of the same texts by npm-package-arg. A spec that passes the checks is one,
except where npm reads the end of its name as a tarball with any character before `gz`.
-/

set_option autoImplicit false
set_option relaxedAutoImplicit false

namespace ApiMigrator.Engine.DependencyTrust

open Foundation.Text Foundation.Number Foundation.Pattern
open Verifier (isLineTerminator)

def isLetter (c : UInt16) : Bool := isLowerLetter c || isUpperLetter c

def startsWithAny (s : JsString) (words : List String) : Bool := words.any (startsWith s ·)

/-- The unit that stands for the dot in `\.tar.gz$`. -/
def tarGzUnit (s : JsString) : Option UInt16 :=
  match (asciiLower s).reverse with
  | 0x7a :: 0x67 :: unit :: 0x72 :: 0x61 :: 0x74 :: 0x2e :: _ => some unit
  | _ => none

/-! ### The checks -/

/-- `\.(?:tgz|tar|tar\.gz)$`, in any case. -/
def endsArchive (s : JsString) : Bool :=
  endsWith (asciiLower s) ".tgz" || endsWith (asciiLower s) ".tar" || decide (tarGzUnit s = some 0x2e)

/-- `(?:#.*)?$` -/
def isFragment : JsString → Bool
  | [] => true
  | c :: rest => decide (c = 0x23) && rest.all fun c ↦ !isLineTerminator c

/-- `\.(?:tgz|tar|tar\.gz)(?:#.*)?$`, in any case. -/
def namesArchive (s : JsString) : Bool :=
  s.inits.any fun before ↦ endsArchive before && isFragment (s.drop before.length)

def isRepositoryUnit (c : UInt16) : Bool := isAlphanumericOr "_.-" c

/-- `^(?!\.{1,2}\/)[A-Za-z0-9_.-]+\/[A-Za-z0-9_.-]+(?:#|$)` -/
def isRepositoryShortcut (s : JsString) : Bool :=
  let owner := s.takeWhile isRepositoryUnit
  let behind := s.dropWhile isRepositoryUnit
  let name := behind.tail.takeWhile isRepositoryUnit
  !startsWithAny s ["./", "../"] && decide (owner ≠ [] ∧ behind.head? = some 0x2f ∧ name ≠ []) &&
    (behind.tail.dropWhile isRepositoryUnit).head?.all fun c ↦ decide (c = 0x23)

def isDirectNetworkDependency (spec : JsString) : Bool :=
  startsWithAny (asciiLower spec)
    ["http:", "https:", "git+", "git:", "ssh:", "github:", "gitlab:", "bitbucket:"] ||
      isRepositoryShortcut spec

/-- `^[A-Za-z][A-Za-z0-9._-]*$` -/
def isTag : JsString → Bool
  | [] => false
  | c :: rest => isLetter c && rest.all (isAlphanumericOr "._-")

def isComparator (c : UInt16) : Bool := decide (c ∈ js "<>=~^*")

def isRangeUnit (c : UInt16) : Bool := isAlphanumericOr " *<>=~^|.+-" c

/-- `^(?:[vV]?\d|[<>=~^*]|[xX])[ \dA-Za-z*<>=~^|.+-]*$` -/
def hasRangeShape : JsString → Bool
  | [] => false
  | c :: rest =>
    if c = 0x76 ∨ c = 0x56 then rest.head?.any isDigit && rest.all isRangeUnit
    else (isDigit c || isComparator c || decide (c = 0x78 ∨ c = 0x58)) && rest.all isRangeUnit

/-- `(?:\d|[xX*])` -/
def hasVersionUnit (s : JsString) : Bool := s.any fun c ↦ isDigit c || decide (c ∈ js "xX*")

def isRegistryVersionOrTag (spec : JsString) : Bool :=
  decide (spec ≠ [] ∧ trim spec = spec) && !spec.any (fun c ↦ decide (c ∈ js "\\/:@")) &&
    !namesArchive spec && (isTag spec || hasRangeShape spec && hasVersionUnit spec)

def isNameUnit (c : UInt16) : Bool := isAlphanumericOr "._-" c

/-- `[a-z0-9][a-z0-9._-]*`, in any case, as a whole text. -/
def isNamePart : JsString → Bool
  | [] => false
  | c :: rest => isAlphanumeric c && rest.all isNameUnit

structure AliasParts where
  name : JsString
  versionOrTag : JsString

/-- The text before the first `@`, and the text behind it. -/
def splitAt (s : JsString) : JsString × Option JsString :=
  (s.takeWhile (decide <| · ≠ 0x40), (s.dropWhile (decide <| · ≠ 0x40)).tail?)

def npmAliasParts : JsString → Option AliasParts
  | [] => none
  | c :: rest =>
    if c = 0x40 then
      let scope := rest.takeWhile (decide <| · ≠ 0x2f)
      match rest.dropWhile (decide <| · ≠ 0x2f) with
      | [] => none
      | _ :: behind =>
        if scope = [] then none
        else if isNamePart scope = true ∧ isNamePart (splitAt behind).1 = true then
          some ⟨c :: scope ++ 0x2f :: (splitAt behind).1, (splitAt behind).2.getD (js "latest")⟩
        else none
    else if isNamePart (splitAt (c :: rest)).1 = true then
      some ⟨(splitAt (c :: rest)).1, (splitAt (c :: rest)).2.getD (js "latest")⟩
    else none

def isControl (c : UInt16) : Bool := decide (c.toNat ≤ 0x1f ∨ c = 0x7f)

def isSlash (c : UInt16) : Bool := decide (c = 0x2f ∨ c = 0x5c)

/-- `^(?:\.{1,2}[\\/]|[\\/]|~[\\/]|[A-Za-z]:[\\/])` -/
def startsWithPath (spec : JsString) : Bool :=
  startsWithAny spec ["./", ".\\", "../", "..\\", "/", "\\", "~/", "~\\"] ||
    match spec with
    | letter :: colon :: slash :: _ => isLetter letter && decide (colon = 0x3a) && isSlash slash
    | _ => false

def isOfficialRegistryDependencySpec (spec : JsString) : Bool :=
  if spec = [] ∨ trim spec ≠ spec ∨ spec.any isControl = true then false
  else if namesArchive spec = true then false
  else if startsWithAny (asciiLower spec)
      ["file:", "link:", "workspace:", "portal:", "patch:", "catalog:"] = true then false
  else if startsWithPath spec = true then false
  else if isDirectNetworkDependency spec = true then false
  else if startsWith spec "npm:" = true then
    match npmAliasParts (spec.drop 4) with
    | none => false
    | some parts => isRegistryVersionOrTag parts.versionOrTag
  else isRegistryVersionOrTag spec

/-! ### npm-package-arg -/

end ApiMigrator.Engine.DependencyTrust
