import ApiMigrator.Foundation.JsonText
import ApiMigrator.Foundation.Redaction

/-!
`repo.ts`: the texts that are kept about a publication. Control characters give way to blanks and
secrets to markers before a text is cut to its length.
-/

set_option autoImplicit false
set_option relaxedAutoImplicit false

namespace ApiMigrator.Publishing.AuditText

open Foundation Foundation.Text Foundation.Number Foundation.Json Foundation.Outcome
open Foundation.Pattern Foundation.Regex

/-! ### The patterns -/

/-- `[\u0000-\u001f\u007f]` -/
def isControl (c : UInt16) : Bool := decide (c.toNat ≤ 0x1f ∨ c.toNat = 0x7f)

def among (members : String) (c : UInt16) : Bool := decide (c ∈ js members)

def except (others : String) (c : UInt16) : Bool := decide (c ∉ js others)

/-- `[^\s...]` -/
def solid (others : String) (c : UInt16) : Bool := !isSpace c && except others c

def isLetterOrLine (c : UInt16) : Bool := isLowerLetter c || isUpperLetter c || among "_" c

/-- `p*` -/
def anyOf (p : UInt16 → Bool) : Regex := .many p 0 none true

/-- `p+` -/
def someOf (p : UInt16 → Bool) : Regex := .many p 1 none true

/-- `p?` -/
def maybe (p : UInt16 → Bool) : Regex := .many p 0 (some 1) true

def keyEnd (first : String) : Regex :=
  sequence [lit false first, anyOf (except "-\r\n"), lit false "PRIVATE KEY-----"]

def controlRun : Rule where
  keep := .empty
  drop := someOf isControl
  tail := .empty
  marker := js " "
  tailText := []

def privateKeyBlock : Rule where
  keep := .empty
  drop := sequence
    [keyEnd "-----BEGIN ", .many (fun _ ↦ true) 0 none false, keyEnd "-----END "]
  tail := .empty
  marker := js "[REDACTED PRIVATE KEY]"
  tailText := []

def accessToken : Rule where
  keep := .empty
  drop := sequence [.boundary,
    choice [sequence [lit false "gh", .unit (among "pousr"), lit false "_",
        .many isWord 8 none true],
      sequence [lit false "github_pat_", .many isWord 8 none true]],
    .boundary]
  tail := .empty
  marker := js "[REDACTED]"
  tailText := []

def authorizationHeader : Rule where
  keep := sequence [lit true "authorization", anyOf isSpace, .unit (among ":="), anyOf isSpace,
    choice [lit true "bearer", lit true "token"], someOf isSpace]
  drop := someOf (solid ",;")
  tail := .empty
  marker := js "[REDACTED]"
  tailText := []

def environmentSecret : Rule where
  keep := sequence [.boundary, .unit isLetterOrLine, anyOf isWord,
    choice [lit true "TOKEN", lit true "SECRET", lit true "PASSWORD", lit true "PASSWD",
      lit true "API_KEY", lit true "PRIVATE_KEY", lit true "ACCESS_KEY"],
    anyOf isWord, anyOf isSpace, lit false "=", anyOf isSpace]
  drop := choice [sequence [lit false "\"", anyOf (except "\""), lit false "\""],
    sequence [lit false "'", anyOf (except "'"), lit false "'"], someOf (solid ",;")]
  tail := .empty
  marker := js "[REDACTED]"
  tailText := []

def querySecret : Rule where
  keep := sequence [.unit (among "?&"),
    choice [lit true "token", lit true "password", lit true "secret",
      sequence [lit true "api", maybe (among "-_"), lit true "key"],
      sequence [lit true "access", maybe (among "-_"), lit true "key"]],
    lit false "="]
  drop := someOf (solid "&#")
  tail := .empty
  marker := js "[REDACTED]"
  tailText := []

def urlUser : Rule where
  keep := sequence [lit true "http", maybe (among "sS"), lit false "://"]
  drop := someOf (solid "/@")
  tail := lit false "@"
  marker := js "[REDACTED]"
  tailText := js "@"

def secretRules : List Rule :=
  [privateKeyBlock, accessToken, authorizationHeader, environmentSecret, querySecret, urlUser]

/-! ### The audit -/

def safeAuditText (value : JsString) (maxLength : ℕ) : JsString :=
  (trim (secretRules.foldl (fun text rule ↦ rule.replaceAll text)
    (controlRun.replaceAll value))).take maxLength

structure PublicationBlockerAudit where
  code : JsString
  message : JsString

def auditBlocker (index : ℕ) (blocker : PublicationBlockerAudit) :
    Except String PublicationBlockerAudit := do
  let code := safeAuditText blocker.code 100
  let message := safeAuditText blocker.message 1000
  reject (code = [] ∨ message = []) s!"publication blocker {index + 1} is empty"
  return ⟨code, message⟩

def blockerJson (blocker : PublicationBlockerAudit) : JsValue :=
  .obj [(js "code", .str blocker.code), (js "message", .str blocker.message)]

def serializePublicationBlockers (blockers : List PublicationBlockerAudit) :
    Except String JsString := do
  reject (100 < blockers.length) "publication blocker audit exceeds 100 entries"
  let audited ← mapEach (fun e ↦ auditBlocker e.2 e.1) blockers.zipIdx
  return compactText (.arr (audited.map blockerJson))

/-- `^(?:sha256:)?[a-f0-9]{64}$` -/
def auditDigest (value : JsString) : Except String JsString := do
  reject (isHexOfLength 64 value = false ∧ isDigestText value = false)
    "invalid artifact digest audit value"
  return value

def auditCommit (value : JsString) : Except String JsString := do
  reject (isHexOfLength 40 value = false ∧ isHexOfLength 64 value = false)
    "invalid base commit audit value"
  return value

def auditBranch (value : JsString) : Except String JsString := do
  reject (value = [] ∨ 240 < value.length ∨ value ≠ trim value ∨ value.any isControl = true)
    "invalid base branch audit value"
  return value

def sanitizeOverrideReason (value : JsString) : Except String JsString := do
  let safe := safeAuditText value 500
  reject (safe = []) "override reason audit value is empty"
  return safe

end ApiMigrator.Publishing.AuditText
