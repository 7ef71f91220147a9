import ApiMigrator.Foundation.Pattern

/-!
The names of Git hosting: owners, repositories and branches.
-/

set_option autoImplicit false
set_option relaxedAutoImplicit false

namespace Foundation.GitNames

open Text Number Pattern

/-- `^[A-Za-z0-9](?:[A-Za-z0-9-]{0,37}[A-Za-z0-9])?$` -/
def isOwnerName (s : JsString) : Bool :=
  match s, s.getLast? with
  | first :: _, some last =>
    isAlphanumeric first && isAlphanumeric last && s.all (isAlphanumericOr "-") &&
      decide (s.length ≤ 39)
  | _, _ => false

/-- `^[A-Za-z0-9_.-]{1,100}$` -/
def isRepositoryName (s : JsString) : Bool :=
  decide (1 ≤ s.length ∧ s.length ≤ 100) && s.all (isAlphanumericOr "_.-")

/-- `[\x00-\x20\x7f~^:?*[\\]` -/
def isForbiddenInBranch (c : UInt16) : Bool :=
  decide (c.toNat ≤ 0x20 ∨ c.toNat = 0x7f ∨ c ∈ js "~^:?*[" ∨ c = 0x5c)

/-- A branch name of at most 240 code units that `git check-ref-format` takes. -/
def isBranchName (s : JsString) : Bool :=
  !decide (s.length = 0 ∨ 240 < s.length ∨ s ≠ trim s ∨ s = js "@" ∨ startsWith s "-" = true ∨
    startsWith s "/" = true ∨ endsWith s "/" = true ∨ endsWith s "." = true ∨
    endsWith s ".lock" = true ∨ includes s ".." = true ∨ includes s "@\x7b" = true ∨
    s.any isForbiddenInBranch = true ∨
    (splitSlash s).any (fun part ↦
      decide (part.length = 0) || startsWith part "." || endsWith part ".") = true)

end Foundation.GitNames
