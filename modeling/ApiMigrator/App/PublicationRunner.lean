import ApiMigrator.App.SourceBundleHeader
import Mathlib.Data.List.Sort

/-!
`publication-runner.ts`: the plan of an isolated runner job. A caller supplies identities, digests
and the addresses of the registry; every isolation control of the plan is fixed here, and the job
id is a digest of what the caller supplied. Reading a plan back rebuilds it from these inputs and
compares the canonical texts, so that no control can be left out or weakened.
-/

set_option autoImplicit false
set_option relaxedAutoImplicit false

namespace ApiMigrator.App.PublicationRunner

open Foundation.Text Foundation.Number Foundation.Json Foundation.Outcome Foundation.Pattern
open Foundation.Binary Foundation.GitNames GitTree
open CanonicalJson (canonicalJson)
open SourceBundle (RepositoryIdentity field sha256 isSchemaVersion)

/-- What the runtime provides: its hash functions and its reading of network addresses, `isIP` and
the host name of the URL made of a bracketed address. -/
structure Platform where
  hashes : Hashes
  isIP : JsString → ℕ
  urlHostname : JsString → Option JsString

def publicationRunnerProfile : JsString := js "disposable-egress-filtered-pilot-v1"

def publicationRunnerPlanMinTtlMs : ℕ := 60000

def publicationRunnerPlanMaxTtlMs : ℕ := 900000

def resolutionMaxAgeMs : ℕ := 300000

def resolutionMaxTtlMs : ℕ := 1800000

def maxTimestamp : ℕ := 8640000000000000

def migrationHosts : List JsString := [js "registry.npmjs.org"]

/-! ### Reading fields -/

def record (value : JsValue) (label : String) : Except String (List Member) :=
  match value with
  | .obj ms => do
    let _ ← canonicalJson value
    return ms
  | _ => .error s!"{label} is invalid"

/-- The expected keys are given in their order. -/
def exactKeys (root : List Member) (expected : List String) (label : String) :
    Except String Unit :=
  reject ((sortByKey root).map Prod.fst ≠ expected.map js)
    s!"{label} contains missing or unexpected fields"

def digest (value : JsValue) (label : String) : Except String JsString :=
  match value with
  | .str s => do
    reject (isDigestText s = false) s!"{label} is invalid"
    return s
  | _ => .error s!"{label} is invalid"

def boundedString (value : JsValue) (label : String) (maxBytes : ℕ) : Except String JsString :=
  match value with
  | .str s => do
    reject (s = [] ∨ s ≠ trim s ∨ maxBytes < byteLength s) s!"{label} is invalid"
    let _ ← canonicalJson value
    return s
  | _ => .error s!"{label} is invalid"

def positiveInteger (value : JsValue) (label : String) : Except String JsNumber :=
  match value with
  | .num n => do
    let i ← orThrow (safeInteger n) s!"{label} is invalid"
    reject (i ≤ 0) s!"{label} is invalid"
    return n
  | _ => .error s!"{label} is invalid"

/-- The integer of a legal timestamp. -/
def timestampOf (n : JsNumber) : Option ℕ :=
  match safeInteger n with
  | some i => if 0 < i ∧ i ≤ maxTimestamp then some i.toNat else none
  | none => none

def timestamp (value : JsValue) (label : String) : Except String ℕ :=
  match value with
  | .num n => orThrow (timestampOf n) s!"{label} is invalid"
  | _ => .error s!"{label} is invalid"

def isText (value : JsValue) (expected : String) : Bool :=
  match value with
  | .str s => decide (s = js expected)
  | _ => false

def isTrue (value : JsValue) : Bool := value matches .bool true

/-- `^[a-f0-9]{40}$` or `^[a-f0-9]{64}$` -/
def isGitSha (s : JsString) : Bool := isHexOfLength 40 s || isHexOfLength 64 s

/-- `^pf_[a-f0-9]{64}$` -/
def isPreflightId (s : JsString) : Bool := startsWith s "pf_" && isHexOfLength 64 (s.drop 3)

/-- `^pilot_[A-Za-z0-9_-]{6,80}$` -/
def isPilotId (s : JsString) : Bool :=
  startsWith s "pilot_" && (s.drop 6).all (isAlphanumericOr "_-") &&
    decide (6 ≤ (s.drop 6).length ∧ (s.drop 6).length ≤ 80)

/-! ### Repositories -/

/-- `validateRepositorySlug`, of which only the slug is used. -/
def validateRepositorySlug (value : JsValue) : Except String JsString :=
  match value with
  | .str slug => do
    reject (slug = [] ∨ slug ≠ trim slug) "Repository must be an exact owner/repo slug"
    match splitSlash slug with
    | [owner, repo] => do
      reject (isOwnerName owner = false ∨ includes owner "--" = true)
        "Repository owner contains unsupported characters"
      reject (isRepositoryName repo = false ∨ repo = js "." ∨ repo = js ".." ∨
        endsWith repo ".git" = true) "Repository name contains unsupported characters"
      return slug
    | _ => .error "Repository must be an exact owner/repo slug"
  | _ => .error "Repository must be an exact owner/repo slug"

def validateRepositoryBranch (value : JsValue) : Except String JsString :=
  match value with
  | .str branch => do
    reject (isBranchName branch = false) "Invalid git branch name"
    return branch
  | _ => .error "Invalid git branch name"

/-! ### Command scope -/

def textList (texts : List String) : JsValue := .arr (texts.map fun text ↦ .str (js text))

@[simp]
theorem canonical_textList (texts : List String) : Canonical (textList texts) := by
  refine canonical_arr fun x hx ↦ ?_
  obtain ⟨text, -, rfl⟩ := List.mem_map.mp hx
  exact canonical_str _

def scopePhase (name network : String) (repositoryScripts : Bool) : JsValue :=
  .obj [(js "name", .str (js name)), (js "network", .str (js network)),
    (js "repositoryScripts", .bool repositoryScripts)]

def requiredChecks : JsValue := textList ["install", "typecheck", "test", "lint", "runtime"]

def publicationRunnerCommandScope : JsValue :=
  .obj [(js "entrypoint", .str (js "/usr/local/bin/api-migrator-runner")),
    (js "packageManagers", textList ["npm"]),
    (js "phases", .arr [scopePhase "prepare" "none" false,
      scopePhase "install" "forced_static_sni_gateway" false, scopePhase "migrate" "none" false,
      scopePhase "verify" "none" true]),
    (js "requiredChecks", requiredChecks), (js "schemaVersion", .num (.int 1)),
    (js "transformSets", textList ["inngest-v3-to-v4"])]

/-- `sha256` of the canonical text of a value. -/
def canonicalDigest (P : Platform) (value : JsValue) : Except String JsString := do
  let text ← canonicalJson value
  return sha256 P.hashes (utf8Encode text)

/-! ### Subjects, inputs and outputs -/

structure PlanSubject where
  pilotId : JsString
  repository : RepositoryIdentity
  branch : JsString
  sha : JsString
  deriving DecidableEq

def PlanSubject.toJson (s : PlanSubject) : JsValue :=
  .obj [(js "base", .obj [(js "branch", .str s.branch), (js "sha", .str s.sha)]),
    (js "pilotId", .str s.pilotId), (js "repository", s.repository.toJson)]

@[simp]
theorem canonical_repository (r : RepositoryIdentity) : Canonical r.toJson :=
  canonical_obj (by simp only [List.map_cons, List.map_nil]; decide) (by simp)

theorem repository_injective {r r' : RepositoryIdentity} (h : r.toJson = r'.toJson) : r = r' := by
  cases r
  cases r'
  simp only [RepositoryIdentity.toJson, JsValue.obj.injEq, JsValue.str.injEq, JsValue.num.injEq,
    List.cons.injEq, Prod.mk.injEq, true_and, and_true] at h
  obtain ⟨rfl, rfl, rfl⟩ := h
  rfl

@[simp]
theorem PlanSubject.canonical_toJson (s : PlanSubject) : Canonical s.toJson := by
  have hbase : Canonical (.obj [(js "branch", .str s.branch), (js "sha", .str s.sha)]) :=
    canonical_obj (by simp only [List.map_cons, List.map_nil]; decide) (by simp)
  exact canonical_obj (by simp only [List.map_cons, List.map_nil]; decide) (by simpa using hbase)

theorem PlanSubject.toJson_injective {s s' : PlanSubject} (h : s.toJson = s'.toJson) : s = s' := by
  cases s
  cases s'
  simp only [PlanSubject.toJson, JsValue.obj.injEq, JsValue.str.injEq, List.cons.injEq,
    Prod.mk.injEq, true_and, and_true] at h
  obtain ⟨⟨rfl, rfl⟩, rfl, hrepository⟩ := h
  rw [repository_injective hrepository]

def validateSubject (value : JsValue) : Except String PlanSubject := do
  let root ← record value "runner subject"
  exactKeys root ["base", "pilotId", "repository"] "runner subject"
  let pilotId ← boundedString (field root "pilotId") "pilot id" 86
  reject (isPilotId pilotId = false) "Publication runner pilot id is invalid"
  let repositoryRoot ← record (field root "repository") "runner repository"
  exactKeys repositoryRoot ["id", "ownerId", "slug"] "runner repository"
  let bounded ← boundedString (field repositoryRoot "slug") "runner repository slug" 140
  let slug ← validateRepositorySlug (.str bounded)
  reject (slug ≠ asciiLower slug) "Publication runner repository slug must be canonical lowercase"
  let baseRoot ← record (field root "base") "runner base"
  exactKeys baseRoot ["branch", "sha"] "runner base"
  let sha ← boundedString (field baseRoot "sha") "runner base commit" 64
  reject (isGitSha sha = false) "Publication runner base commit is invalid"
  let id ← positiveInteger (field repositoryRoot "id") "runner repository id"
  let ownerId ← positiveInteger (field repositoryRoot "ownerId") "runner repository owner id"
  let branch ← boundedString (field baseRoot "branch") "runner base branch" 240
  let branch ← validateRepositoryBranch (.str branch)
  return { pilotId, repository := { slug, id, ownerId }, branch, sha }

structure PlanInputs where
  sourceArchiveDigest : JsString
  manifestDigest : JsString
  commandScopeDigest : JsString
  deriving DecidableEq

def PlanInputs.toJson (i : PlanInputs) : JsValue :=
  .obj [(js "commandScopeDigest", .str i.commandScopeDigest),
    (js "manifestDigest", .str i.manifestDigest),
    (js "sourceArchiveDigest", .str i.sourceArchiveDigest)]

@[simp]
theorem PlanInputs.canonical_toJson (i : PlanInputs) : Canonical i.toJson :=
  canonical_obj (by simp only [List.map_cons, List.map_nil]; decide) (by simp)

theorem PlanInputs.toJson_injective {i i' : PlanInputs} (h : i.toJson = i'.toJson) : i = i' := by
  cases i
  cases i'
  simp only [PlanInputs.toJson, JsValue.obj.injEq, JsValue.str.injEq, List.cons.injEq,
    Prod.mk.injEq, true_and, and_true] at h
  obtain ⟨rfl, rfl, rfl⟩ := h
  rfl

def validateInputs (P : Platform) (value : JsValue) : Except String PlanInputs := do
  let root ← record value "runner immutable inputs"
  exactKeys root ["commandScopeDigest", "manifestDigest", "sourceArchiveDigest"]
    "runner immutable inputs"
  let commandScopeDigest ← digest (field root "commandScopeDigest") "command scope digest"
  let expected ← canonicalDigest P publicationRunnerCommandScope
  reject (commandScopeDigest ≠ expected)
    "Publication runner command scope is not the code-owned v1 scope"
  let sourceArchiveDigest ← digest (field root "sourceArchiveDigest") "source archive digest"
  let manifestDigest ← digest (field root "manifestDigest") "manifest digest"
  return { sourceArchiveDigest, manifestDigest, commandScopeDigest }

structure PublicationRunnerOutput where
  preflightId : JsString
  artifactDigest : JsString
  candidateTreeSha : JsString
  deriving DecidableEq

def PublicationRunnerOutput.toJson (o : PublicationRunnerOutput) : JsValue :=
  .obj [(js "artifactDigest", .str o.artifactDigest),
    (js "candidateTreeSha", .str o.candidateTreeSha), (js "preflightId", .str o.preflightId)]

@[simp]
theorem PublicationRunnerOutput.canonical_toJson (o : PublicationRunnerOutput) :
    Canonical o.toJson :=
  canonical_obj (by simp only [List.map_cons, List.map_nil]; decide) (by simp)

theorem PublicationRunnerOutput.toJson_injective {o o' : PublicationRunnerOutput}
    (h : o.toJson = o'.toJson) : o = o' := by
  cases o
  cases o'
  simp only [PublicationRunnerOutput.toJson, JsValue.obj.injEq, JsValue.str.injEq,
    List.cons.injEq, Prod.mk.injEq, true_and, and_true] at h
  obtain ⟨rfl, rfl, rfl⟩ := h
  rfl

def validateRunnerOutput (value : JsValue) : Except String PublicationRunnerOutput := do
  let root ← record value "runner reviewed output"
  exactKeys root ["artifactDigest", "candidateTreeSha", "preflightId"] "runner reviewed output"
  let preflightId ← boundedString (field root "preflightId") "runner preflight id" 67
  let candidateTreeSha ← boundedString (field root "candidateTreeSha") "candidate tree commit" 64
  reject (isPreflightId preflightId = false ∨ isGitSha candidateTreeSha = false)
    "Publication runner reviewed output identity is invalid"
  let artifactDigest ← digest (field root "artifactDigest") "artifact digest"
  return { preflightId, artifactDigest, candidateTreeSha }

/-! ### Addresses -/

/-- `^[a-z0-9](?:[a-z0-9.-]{0,251}[a-z0-9])?$` -/
def isHostName (s : JsString) : Bool :=
  match s, s.getLast? with
  | first :: _, some last =>
    (isLowerLetter first || isDigit first) && (isLowerLetter last || isDigit last) &&
      s.all (fun c ↦ isLowerLetter c || isDigit c || decide (c ∈ js ".-")) &&
      decide (s.length ≤ 253)
  | _, _ => false

def canonicalIpLiteral (P : Platform) (value : JsString) : JsString :=
  if P.isIP value = 4 then
    List.intercalate (js ".") ((value.splitOn 0x2e).map fun part ↦
      decimalDigits (digitsValue part))
  else if P.isIP value ≠ 6 then []
  else
    match P.urlHostname value with
    | some hostname =>
      if startsWith hostname "[" = true ∧ endsWith hostname "]" = true then
        (hostname.drop 1).dropLast
      else []
    | none => []

/-- `Number.parseInt(part, 16)`: the value of the leading hexadecimal digits, `none` for `NaN`. -/
def parseHexWord (part : JsString) : Option ℕ :=
  match (part.takeWhile fun c ↦ (hexValue c).isSome).filterMap hexValue with
  | [] => none
  | digits => some (digits.foldl (fun acc d ↦ acc * 16 + d) 0)

/-- The eight words of an address in which `::` stands for the zeros it leaves out. -/
def ipv6Words (value : JsString) : Option (List (Option ℕ)) :=
  let words (half : JsString) : List (Option ℕ) :=
    if half = [] then [] else (half.splitOn 0x3a).map parseHexWord
  let position := (List.range value.length).find? fun i ↦ startsWith (value.drop i) "::"
  match position with
  | none => if (words value).length = 8 then some (words value) else none
  | some i =>
    let left := words (value.take i)
    let right := words (value.drop (i + 2))
    if includes (value.drop (i + 2)) "::" = true ∨ 8 < left.length + right.length then none
    else some (left ++ List.replicate (8 - left.length - right.length) (some 0) ++ right)

def isGlobalIpv4 (value : JsString) : Bool :=
  match (value.splitOn 0x2e).map digitsValue with
  | first :: second :: third :: _ =>
    !decide (first = 0 ∨ first = 10 ∨ first = 127 ∨ first = 100 ∧ 64 ≤ second ∧ second ≤ 127 ∨
      first = 169 ∧ second = 254 ∨ first = 172 ∧ 16 ≤ second ∧ second ≤ 31 ∨
      first = 192 ∧ second = 0 ∧ third = 0 ∨ first = 192 ∧ second = 0 ∧ third = 2 ∨
      first = 192 ∧ second = 168 ∨ first = 198 ∧ (second = 18 ∨ second = 19) ∨
      first = 198 ∧ second = 51 ∧ third = 100 ∨ first = 203 ∧ second = 0 ∧ third = 113 ∨
      224 ≤ first)
  | _ => false

/-- No comparison holds of `NaN`. -/
def isGlobalIpv6 (words : List (Option ℕ)) : Bool :=
  match words with
  | first :: second :: third :: _ =>
    first.any (fun w ↦ decide (0x2000 ≤ w ∧ w ≤ 0x3ffe)) &&
      !(decide (first = some 0x2001) && second.any fun w ↦ decide (w ≤ 0x01ff)) &&
      !decide (first = some 0x2001 ∧ second = some 0x0db8) &&
      !decide (first = some 0x2001 ∧ second = some 0x0002 ∧ third = some 0) &&
      decide (first ≠ some 0x2002)
  | _ => false

def isGlobalUnicastLiteral (P : Platform) (value : JsString) : Bool :=
  if P.isIP value = 4 then isGlobalIpv4 value
  else if P.isIP value ≠ 6 ∨ includes value "." = true then false
  else
    match ipv6Words value with
    | some words => isGlobalIpv6 words
    | none => false

/-! ### Egress -/

structure RunnerEgressDestination where
  host : JsString
  addresses : List JsString
  resolutionEvidenceDigest : JsString
  resolutionObservedAt : ℕ
  resolutionExpiresAt : ℕ
  deriving DecidableEq

def RunnerEgressDestination.toJson (d : RunnerEgressDestination) : JsValue :=
  .obj [(js "addresses", .arr (d.addresses.map .str)), (js "host", .str d.host),
    (js "port", .num (.int 443)), (js "protocol", .str (js "tcp")),
    (js "resolutionEvidenceDigest", .str d.resolutionEvidenceDigest),
    (js "resolutionExpiresAt", .num (.int d.resolutionExpiresAt)),
    (js "resolutionObservedAt", .num (.int d.resolutionObservedAt)), (js "tls", .bool true)]

@[simp]
theorem RunnerEgressDestination.canonical_toJson (d : RunnerEgressDestination) :
    Canonical d.toJson := by
  refine canonical_obj (by simp only [List.map_cons, List.map_nil]; decide) ?_
  have haddresses : Canonical (.arr (d.addresses.map .str)) := by
    refine canonical_arr fun x hx ↦ ?_
    obtain ⟨address, -, rfl⟩ := List.mem_map.mp hx
    exact canonical_str _
  simpa using haddresses

theorem RunnerEgressDestination.toJson_injective {d d' : RunnerEgressDestination}
    (h : d.toJson = d'.toJson) : d = d' := by
  cases d
  cases d'
  have hstr : Function.Injective JsValue.str := fun _ _ ↦ JsValue.str.inj
  simp only [RunnerEgressDestination.toJson, JsValue.obj.injEq, JsValue.str.injEq,
    JsValue.num.injEq, JsValue.arr.injEq, JsNumber.int.injEq, Nat.cast_inj, List.cons.injEq,
    Prod.mk.injEq, true_and, and_true, hstr.list_map.eq_iff] at h
  obtain ⟨rfl, rfl, rfl, rfl, rfl⟩ := h
  rfl

def validateAddress (P : Platform) (address : JsValue) : Except String JsString := do
  let literal ← boundedString address "installation egress address" 64
  reject (literal ≠ asciiLower literal ∨ includes literal "%" = true ∨ P.isIP literal = 0 ∨
    canonicalIpLiteral P literal ≠ literal ∨ isGlobalUnicastLiteral P literal = false)
    "Publication runner installation egress address must be an exact global-unicast IP"
  return literal

def addressEntries (value : JsValue) : Except String (List JsValue) :=
  match value with
  | .arr entries => do
    reject (entries.length < 1 ∨ 32 < entries.length)
      "Publication runner installation egress addresses are missing or excessive"
    return entries
  | _ => .error "Publication runner installation egress addresses are missing or excessive"

def isPort443 (value : JsValue) : Bool :=
  match value with
  | .num n => decide (n = .int 443)
  | _ => false

def validateDestination (P : Platform) (createdAt planExpiresAt : ℕ) (value : JsValue) :
    Except String RunnerEgressDestination := do
  let root ← record value "installation egress destination"
  exactKeys root ["addresses", "host", "port", "protocol", "resolutionEvidenceDigest",
    "resolutionExpiresAt", "resolutionObservedAt", "tls"] "installation egress destination"
  let host ← boundedString (field root "host") "installation egress host" 253
  reject (host ≠ asciiLower host ∨ isHostName host = false ∨ P.isIP host ≠ 0 ∨
    isText (field root "protocol") "tcp" = false ∨ isPort443 (field root "port") = false ∨
    isTrue (field root "tls") = false)
    "Publication runner installation egress requires a canonical TLS host on TCP 443"
  let entries ← addressEntries (field root "addresses")
  let literals ← mapEach (validateAddress P) entries
  let addresses := literals.insertionSort (· ≤ ·)
  reject (¬ addresses.Nodup)
    "Publication runner installation egress contains duplicate addresses"
  let resolutionObservedAt ← timestamp (field root "resolutionObservedAt")
    "resolution observation time"
  let resolutionExpiresAt ← timestamp (field root "resolutionExpiresAt") "resolution expiry"
  reject (createdAt < resolutionObservedAt ∨
    resolutionMaxAgeMs < createdAt - resolutionObservedAt ∨ resolutionExpiresAt < planExpiresAt ∨
    resolutionExpiresAt ≤ resolutionObservedAt ∨
    resolutionMaxTtlMs < resolutionExpiresAt - resolutionObservedAt)
    "Publication runner DNS resolution evidence is stale or unbounded"
  let resolutionEvidenceDigest ← digest (field root "resolutionEvidenceDigest")
    "resolution evidence digest"
  return { host, addresses, resolutionEvidenceDigest, resolutionObservedAt, resolutionExpiresAt }

/-- There is one destination, so sorting by host leaves it where it is. -/
def normalizeAndValidateDestinations (P : Platform) (value : JsValue)
    (createdAt planExpiresAt : ℕ) : Except String (List RunnerEgressDestination) :=
  match value with
  | .arr entries => do
    reject (entries.length ≠ migrationHosts.length)
      "Publication runner installation egress must contain the exact destination set"
    let destinations ← mapEach (validateDestination P createdAt planExpiresAt) entries
    reject (destinations.map RunnerEgressDestination.host ≠ migrationHosts)
      "Publication runner installation egress destination is not allowlisted"
    return destinations
  | _ => .error "Publication runner installation egress must contain the exact destination set"

def destinationsJson (destinations : List RunnerEgressDestination) : JsValue :=
  .arr (destinations.map RunnerEgressDestination.toJson)

@[simp]
theorem canonical_destinationsJson (ds : List RunnerEgressDestination) :
    Canonical (destinationsJson ds) := by
  refine canonical_arr fun x hx ↦ ?_
  obtain ⟨d, -, rfl⟩ := List.mem_map.mp hx
  exact d.canonical_toJson

theorem destinationsJson_injective {ds ds' : List RunnerEgressDestination}
    (h : destinationsJson ds = destinationsJson ds') : ds = ds' :=
  List.map_injective_iff.mpr (fun _ _ ↦ RunnerEgressDestination.toJson_injective)
    (JsValue.arr.inj h)

def canonicalInstallEgressPolicy (destinations : List RunnerEgressDestination) : JsValue :=
  .obj [(js "applicationLayerEnforcement", .str (js "external_l7_gateway_required")),
    (js "destinations", destinationsJson destinations), (js "dnsInsideJob", .str (js "disabled")),
    (js "enforcement", .str (js "host_nftables_output_exact_ip_tcp443")),
    (js "phase", .str (js "dependency_install")), (js "schemaVersion", .num (.int 1))]

/-! ### Plans -/

/-- What varies between plans. -/
structure PublicationRunnerPlan where
  jobId : JsString
  nonceDigest : JsString
  createdAt : ℕ
  expiresAt : ℕ
  subject : PlanSubject
  inputs : PlanInputs
  imageDigest : JsString
  destinations : List RunnerEgressDestination
  policyDigest : JsString
  deriving DecidableEq

def planStorage : JsValue :=
  .obj [(js "enforcement", .str (js "bounded_tmpfs")),
    (js "maxLogBytesPerPhase", .num (.int 10485760)),
    (js "maxOutputBytes", .num (.int 536870912)), (js "maxOutputDepth", .num (.int 64)),
    (js "maxOutputEntries", .num (.int 50000)), (js "maxOutputFileBytes", .num (.int 268435456)),
    (js "maxRunnerEvidenceBytes", .num (.int 98304)),
    (js "workspaceBytes", .num (.int 1073741824)), (js "workspaceInodes", .num (.int 200000))]

def planEgress (p : PublicationRunnerPlan) : JsValue :=
  .obj [(js "checks", .obj [(js "network", .str (js "none"))]),
    (js "dnsInsideJob", .str (js "disabled")),
    (js "enforcement", .str (js "host_nftables_output_exact_ip_tcp443")),
    (js "install", .obj [
      (js "applicationLayerEnforcement", .str (js "external_l7_gateway_required")),
      (js "destinations", destinationsJson p.destinations),
      (js "policyDigest", .str p.policyDigest)])]

def planExecution (p : PublicationRunnerPlan) : JsValue :=
  .obj [(js "capabilities", .str (js "none")), (js "checksNetwork", .str (js "none")),
    (js "credentials", .str (js "none")),
    (js "dependencyLifecycleScripts", .str (js "disabled")),
    (js "identity", .str (p.jobId ++ js ":migration")),
    (js "installEgressPolicyDigest", .str p.policyDigest), (js "noNewPrivileges", .bool true),
    (js "onlinePhase", .str (js "dependency_install_only")),
    (js "outputBinding", .str (js "signed_attestation_reviewed_output")),
    (js "phaseOrder", textList ["offline_preparation", "dependency_install", "migration",
      "verification"]),
    (js "proxyEnvironment", .str (js "absent")), (js "readOnlyRoot", .bool true),
    (js "repositoryCodeExecution", .bool true), (js "requiredChecks", requiredChecks),
    (js "rootlessContainer", .bool true), (js "sourceReadOnly", .bool true),
    (js "storage", planStorage),
    (js "writableOutput", .str (js "bounded_tmpfs_then_root_sealed_transfer"))]

def planTeardown : JsValue :=
  .obj [(js "destroyContainer", .bool true), (js "destroyNetworkNamespace", .bool true),
    (js "destroyWorkspace", .bool true), (js "evidenceRequired", .bool true),
    (js "removeNftablesPolicy", .bool true)]

def planJob (p : PublicationRunnerPlan) : JsValue :=
  .obj [(js "createdAt", .num (.int p.createdAt)), (js "disposable", .bool true),
    (js "expiresAt", .num (.int p.expiresAt)), (js "id", .str p.jobId),
    (js "nonceDigest", .str p.nonceDigest)]

/-- The plan with every control. -/
def PublicationRunnerPlan.toJson (p : PublicationRunnerPlan) : JsValue :=
  .obj [(js "egress", planEgress p), (js "execution", planExecution p),
    (js "imageDigest", .str p.imageDigest), (js "inputs", p.inputs.toJson), (js "job", planJob p),
    (js "profile", .str publicationRunnerProfile), (js "schemaVersion", .num (.int 1)),
    (js "subject", p.subject.toJson), (js "teardown", planTeardown)]

@[simp]
theorem canonical_planEgress (p : PublicationRunnerPlan) : Canonical (planEgress p) := by
  have hchecks : Canonical (.obj [(js "network", .str (js "none"))]) :=
    canonical_obj (by decide) (by simp)
  have hinstall : Canonical (.obj [
      (js "applicationLayerEnforcement", .str (js "external_l7_gateway_required")),
      (js "destinations", destinationsJson p.destinations),
      (js "policyDigest", .str p.policyDigest)]) :=
    canonical_obj (by simp only [List.map_cons, List.map_nil]; decide) (by simp)
  exact canonical_obj (by simp only [List.map_cons, List.map_nil]; decide)
    (by simpa using ⟨hchecks, hinstall⟩)

@[simp]
theorem canonical_planStorage : Canonical planStorage := canonical_obj (by decide) (by simp)

@[simp]
theorem canonical_planExecution (p : PublicationRunnerPlan) : Canonical (planExecution p) :=
  canonical_obj (by simp only [List.map_cons, List.map_nil]; decide) (by simp [requiredChecks])

@[simp]
theorem canonical_planTeardown : Canonical planTeardown := canonical_obj (by decide) (by simp)

@[simp]
theorem canonical_planJob (p : PublicationRunnerPlan) : Canonical (planJob p) :=
  canonical_obj (by simp only [List.map_cons, List.map_nil]; decide) (by simp)

@[simp]
theorem PublicationRunnerPlan.canonical_toJson (p : PublicationRunnerPlan) : Canonical p.toJson :=
  canonical_obj (by simp only [List.map_cons, List.map_nil]; decide) (by simp)

/-- A plan is determined by its job, subject, inputs, image and egress. -/
theorem PublicationRunnerPlan.toJson_injective {p p' : PublicationRunnerPlan}
    (h : p.toJson = p'.toJson) : p = p' := by
  cases p
  cases p'
  simp only [PublicationRunnerPlan.toJson, planEgress, planJob, JsValue.obj.injEq,
    JsValue.str.injEq, JsValue.num.injEq, JsNumber.int.injEq, Nat.cast_inj, List.cons.injEq,
    Prod.mk.injEq, true_and, and_true] at h
  obtain ⟨⟨hdestinations, rfl⟩, -, rfl, hinputs, ⟨rfl, rfl, rfl, rfl⟩, hsubject⟩ := h
  rw [destinationsJson_injective hdestinations, PlanInputs.toJson_injective hinputs,
    PlanSubject.toJson_injective hsubject]

structure PublicationRunnerPlanRecord where
  plan : PublicationRunnerPlan
  canonicalJson : JsString
  digest : JsString
  deriving DecidableEq

def PublicationRunnerPlanRecord.toJson (r : PublicationRunnerPlanRecord) : JsValue :=
  .obj [(js "canonicalJson", .str r.canonicalJson), (js "digest", .str r.digest),
    (js "plan", r.plan.toJson)]

@[simp]
theorem PublicationRunnerPlanRecord.canonical_toJson (r : PublicationRunnerPlanRecord) :
    Canonical r.toJson :=
  canonical_obj (by simp only [List.map_cons, List.map_nil]; decide) (by simp)

theorem PublicationRunnerPlanRecord.toJson_injective {r r' : PublicationRunnerPlanRecord}
    (h : r.toJson = r'.toJson) : r = r' := by
  cases r
  cases r'
  simp only [PublicationRunnerPlanRecord.toJson, JsValue.obj.injEq, JsValue.str.injEq,
    List.cons.injEq, Prod.mk.injEq, true_and, and_true] at h
  obtain ⟨rfl, rfl, hplan⟩ := h
  rw [PublicationRunnerPlan.toJson_injective hplan]

def assertPlanLifetime (createdAt expiresAt : ℕ) : Except String Unit :=
  reject (expiresAt - createdAt < publicationRunnerPlanMinTtlMs ∨
    publicationRunnerPlanMaxTtlMs < expiresAt - createdAt)
    "Publication runner plan lifetime must be between 1 and 15 minutes"

/-- What a plan is made of, but for its nonce. -/
structure NormalizedPlanInput where
  createdAt : ℕ
  expiresAt : ℕ
  subject : PlanSubject
  inputs : PlanInputs
  imageDigest : JsString
  destinations : List RunnerEgressDestination

def deriveJobId (P : Platform) (nonceDigest : JsString) (n : NormalizedPlanInput) :
    Except String JsString := do
  let text ← canonicalJson (.obj [(js "createdAt", .num (.int n.createdAt)),
    (js "expiresAt", .num (.int n.expiresAt)), (js "imageDigest", .str n.imageDigest),
    (js "inputs", n.inputs.toJson),
    (js "installEgressPolicy", canonicalInstallEgressPolicy n.destinations),
    (js "nonceDigest", .str nonceDigest), (js "subject", n.subject.toJson)])
  return js "previewjob_" ++ P.hashes.sha256.hex (utf8Encode text)

def buildPlan (P : Platform) (jobId nonceDigest : JsString) (n : NormalizedPlanInput) :
    Except String PublicationRunnerPlan := do
  let policyDigest ← canonicalDigest P (canonicalInstallEgressPolicy n.destinations)
  return {
    jobId, nonceDigest, createdAt := n.createdAt, expiresAt := n.expiresAt, subject := n.subject,
    inputs := n.inputs, imageDigest := n.imageDigest, destinations := n.destinations, policyDigest }

def recordForPlan (P : Platform) (plan : PublicationRunnerPlan) :
    Except String PublicationRunnerPlanRecord := do
  let canonical ← canonicalJson plan.toJson
  return { plan, canonicalJson := canonical, digest := sha256 P.hashes (utf8Encode canonical) }

/-- The values a caller plans with, unread. -/
structure CreatePublicationRunnerPlanInput where
  pilotId : JsValue
  repository : JsValue
  base : JsValue
  sourceArchiveDigest : JsString
  manifestDigest : JsString
  imageDigest : JsValue
  migrationInstallEgress : JsValue
  expiresAt : JsValue
  now : JsValue

def normalizePublicationRunnerPlanInput (P : Platform) (input : CreatePublicationRunnerPlanInput) :
    Except String NormalizedPlanInput := do
  let createdAt ← timestamp input.now "plan creation time"
  let expiresAt ← timestamp input.expiresAt "plan expiry"
  assertPlanLifetime createdAt expiresAt
  let subject ← validateSubject (.obj [(js "pilotId", input.pilotId),
    (js "repository", input.repository), (js "base", input.base)])
  let commandScopeDigest ← canonicalDigest P publicationRunnerCommandScope
  let inputs ← validateInputs P (.obj [
    (js "sourceArchiveDigest", .str input.sourceArchiveDigest),
    (js "manifestDigest", .str input.manifestDigest),
    (js "commandScopeDigest", .str commandScopeDigest)])
  let imageDigest ← digest input.imageDigest "migration image digest"
  let destinations ← normalizeAndValidateDestinations P input.migrationInstallEgress createdAt
    expiresAt
  return { createdAt, expiresAt, subject, inputs, imageDigest, destinations }

def createPublicationRunnerPlan (P : Platform) (input : CreatePublicationRunnerPlanInput)
    (randomBytes : Bytes) : Except String PublicationRunnerPlanRecord := do
  let normalized ← normalizePublicationRunnerPlanInput P input
  let nonceDigest := sha256 P.hashes randomBytes
  let jobId ← deriveJobId P nonceDigest normalized
  let plan ← buildPlan P jobId nonceDigest normalized
  recordForPlan P plan

def validatePublicationRunnerPlan (P : Platform) (value : JsValue) :
    Except String PublicationRunnerPlanRecord := do
  let root ← record value "publication runner plan"
  exactKeys root ["egress", "execution", "imageDigest", "inputs", "job", "profile",
    "schemaVersion", "subject", "teardown"] "publication runner plan"
  reject (isSchemaVersion (field root "schemaVersion") = false ∨
    isText (field root "profile") "disposable-egress-filtered-pilot-v1" = false)
    "Publication runner plan profile is unsupported"
  let job ← record (field root "job") "runner job"
  exactKeys job ["createdAt", "disposable", "expiresAt", "id", "nonceDigest"] "runner job"
  let jobId ← boundedString (field job "id") "runner job id" 76
  reject (isJobId jobId = false ∨ isTrue (field job "disposable") = false)
    "Publication runner job identity is invalid or not disposable"
  let nonceDigest ← digest (field job "nonceDigest") "runner nonce digest"
  let createdAt ← timestamp (field job "createdAt") "plan creation time"
  let expiresAt ← timestamp (field job "expiresAt") "plan expiry"
  assertPlanLifetime createdAt expiresAt
  let subject ← validateSubject (field root "subject")
  let inputs ← validateInputs P (field root "inputs")
  let imageDigest ← digest (field root "imageDigest") "migration image digest"
  let egress ← record (field root "egress") "runner egress policy"
  exactKeys egress ["checks", "dnsInsideJob", "enforcement", "install"] "runner egress policy"
  let install ← record (field egress "install") "installation egress policy"
  exactKeys install ["applicationLayerEnforcement", "destinations", "policyDigest"]
    "installation egress policy"
  let destinations ← normalizeAndValidateDestinations P (field install "destinations") createdAt
    expiresAt
  let normalized : NormalizedPlanInput :=
    { createdAt, expiresAt, subject, inputs, imageDigest, destinations }
  let expectedJobId ← deriveJobId P nonceDigest normalized
  reject (jobId ≠ expectedJobId) <| "Publication runner job identity does not bind its inputs " ++
    "and installation egress policy"
  let expected ← buildPlan P jobId nonceDigest normalized
  let given ← canonicalJson value
  let canonical ← canonicalJson expected.toJson
  reject (given ≠ canonical) "Publication runner plan contains unsupported or weakened controls"
  recordForPlan P expected

def validatePlanRecord (P : Platform) (value : PublicationRunnerPlanRecord) :
    Except String PublicationRunnerPlanRecord := do
  let validated ← validatePublicationRunnerPlan P value.plan.toJson
  reject (value.canonicalJson ≠ validated.canonicalJson ∨ value.digest ≠ validated.digest)
    "Publication runner plan record digest or canonical bytes do not match"
  return validated

def assertPublicationRunnerPlanCurrent (P : Platform) (value : PublicationRunnerPlanRecord)
    (now : JsValue) : Except String PublicationRunnerPlanRecord := do
  let current ← validatePlanRecord P value
  let observedAt ← timestamp now "runner execution clock"
  reject (observedAt < current.plan.createdAt ∨ current.plan.expiresAt ≤ observedAt)
    "Publication runner plan is not currently valid"
  return current

end ApiMigrator.App.PublicationRunner
