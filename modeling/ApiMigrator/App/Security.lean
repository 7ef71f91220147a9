import ApiMigrator.Foundation.Redaction

/-!
The redaction of secrets in texts that leave the application, and the bounded message of a failure.
Known secrets give way to a marker first, then seven patterns are replaced one after the other.
-/

set_option autoImplicit false
set_option relaxedAutoImplicit false

namespace ApiMigrator.App.Security

open Foundation Foundation.Text Foundation.Pattern Foundation.Number Foundation.Regex

/-! ### The patterns -/

private def oneOf (members : String) (c : UInt16) : Bool := decide (c ∈ js members)

private def noneOf (others : String) (c : UInt16) : Bool := decide (c ∉ js others)

private def noSpaceNor (others : String) (c : UInt16) : Bool := !isSpace c && noneOf others c

private def isUpperOrDigit (c : UInt16) : Bool := isUpperLetter c || isDigit c

/-- `p*` -/
private def star (p : UInt16 → Bool) : Regex := .many p 0 none true

/-- `p+` -/
private def plus (p : UInt16 → Bool) : Regex := .many p 1 none true

/-- `p?` -/
private def optional (p : UInt16 → Bool) : Regex := .many p 0 (some 1) true

/-- The text of a marker between `-----BEGIN` and `PRIVATE KEY-----`, or after `-----END`. -/
private def keyLine (first : String) : Regex :=
  sequence [lit false first, star (noneOf "-\r\n"), lit false "PRIVATE KEY-----"]

def redactedMarker : JsString := js "[REDACTED]"

def privateKey : Rule where
  keep := .empty
  drop := sequence
    [keyLine "-----BEGIN ", .many (fun _ ↦ true) 0 none false, keyLine "-----END "]
  tail := .empty
  marker := js "[REDACTED PRIVATE KEY]"
  tailText := []

def authorization : Rule where
  keep := sequence [lit true "authorization", star isSpace, .unit (oneOf ":="), star isSpace,
    choice [lit true "bearer", lit true "token"], plus isSpace]
  drop := plus (noSpaceNor ",;")
  tail := .empty
  marker := redactedMarker
  tailText := []

def assignment : Rule where
  keep := sequence [.boundary,
    choice [sequence [lit true "api", optional (oneOf "_-"), lit true "key"],
      sequence [lit true "access", optional (oneOf "_-"), lit true "key"],
      sequence [lit true "client", optional (oneOf "_-"), lit true "secret"],
      lit true "password", lit true "passwd", lit true "secret", lit true "token"],
    .boundary, star isSpace, .unit (oneOf ":="), star isSpace]
  drop := choice [sequence [lit false "\"", star (noneOf "\"\r\n"), lit false "\""],
    sequence [lit false "'", star (noneOf "'\r\n"), lit false "'"],
    plus (noSpaceNor ",;")]
  tail := .empty
  marker := redactedMarker
  tailText := []

def githubToken : Rule where
  keep := .empty
  drop := sequence [.boundary,
    choice [sequence [lit false "gh", .unit (oneOf "pousr"), lit false "_",
        .many isWord 8 none true],
      sequence [lit false "github_pat_", .many isWord 8 none true]],
    .boundary]
  tail := .empty
  marker := js "[REDACTED GITHUB TOKEN]"
  tailText := []

def accessKey : Rule where
  keep := .empty
  drop := sequence [.boundary, lit false "AKIA", .many isUpperOrDigit 16 (some 16) true, .boundary]
  tail := .empty
  marker := js "[REDACTED ACCESS KEY]"
  tailText := []

def urlCredentials : Rule where
  keep := sequence [lit true "http", optional (oneOf "sS"), lit false "://"]
  drop := sequence [plus (noSpaceNor "/@:"), lit false ":", plus (noSpaceNor "/@")]
  tail := lit false "@"
  marker := redactedMarker
  tailText := js "@"

/-- The host is written in lower case, however the text spelled it. -/
def githubUrl : Rule where
  keep := lit true "https://"
  drop := plus (noSpaceNor "/@")
  tail := lit true "@github.com"
  marker := redactedMarker
  tailText := js "@github.com"

def rules : List Rule :=
  [privateKey, authorization, assignment, githubToken, accessKey, urlCredentials, githubUrl]

def markers : List JsString := rules.map Rule.marker

/-! ### Redaction -/

def redactSecrets (text : JsString) (secrets : List JsString) : JsString :=
  secrets.foldl (fun text secret ↦
    if secret = [] then text else splitJoin secret redactedMarker text) text

def redactText (text : JsString) (secrets : List JsString) : JsString :=
  rules.foldl (fun text rule ↦ rule.replaceAll text) (redactSecrets text secrets)

/-- A property of a thrown value. -/
inductive Detail
  | string (text : JsString)
  | buffer (bytes : Bytes)
  | other

def Detail.string? : Detail → Option JsString
  | string text => some text
  | buffer _ => none
  | other => none

def bufferText : Detail → Option JsString
  | .string text => some text
  | .buffer bytes => some (utf8Decode bytes)
  | .other => none

/-- What a failure says about itself; a property that is absent is of no other use than one of
another type. -/
structure Failure where
  message : Detail
  responseMessage : Detail
  stderr : Detail
  stdout : Detail

def Failure.pieces (error : Failure) : List JsString :=
  ([error.message.string?, error.responseMessage.string?, bufferText error.stderr,
    bufferText error.stdout].filterMap id).filter fun part ↦ decide (0 < (trim part).length)

def Failure.combined (error : Failure) : JsString :=
  let text := trim (List.intercalate [0x0a] error.pieces)
  if text = [] then js "Unexpected operation failure" else text

def safeErrorMessage (error : Failure) (secrets : List JsString) : JsString :=
  (redactText error.combined secrets).take 2000

/-! ### What the rules insert -/

end ApiMigrator.App.Security
