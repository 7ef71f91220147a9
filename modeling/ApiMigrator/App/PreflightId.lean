import ApiMigrator.App.PublicationRunner
import ApiMigrator.App.StableJson

/-!
`createPreflightId` of `publication.ts`: the identity of a previewed result, which is what an owner
approves. The lists of the report are sorted and the output of commands is left out before the text
of the result is hashed. Entries that compare equal in the locale keep their order, so that the
identity depends on the order of such entries and of nothing else.
-/

set_option autoImplicit false
set_option relaxedAutoImplicit false

namespace ApiMigrator.App.Preflight

open Foundation.Text Foundation.Number Foundation.Json Foundation.Outcome Foundation.Pattern
open Foundation.Binary StableJson
open PublicationRunner (validateRepositorySlug validateRepositoryBranch isGitSha)

/-! ### Reports -/

/-- A number of JSON: finite and not `-0`. -/
abbrev JsonNumber := {n : JsNumber // finite n = some n}

structure CheckResult where
  status : JsString
  command : Option JsString
  exitCode : Option JsonNumber
  output : JsString
  reason : Option JsString
  deriving DecidableEq

structure ReportEntry where
  file : JsString
  kind : JsString
  code : JsString
  message : JsString
  line : Option JsonNumber
  deriving DecidableEq

structure TypeError where
  file : JsString
  line : Option JsonNumber
  col : Option JsonNumber
  code : JsString
  message : JsString
  raw : JsString

/-- `checks` is an object: its names are different. -/
structure VerifyResult where
  ok : Bool
  introduced : List TypeError
  skipped : Bool
  skipReason : Option JsString
  runner : JsString
  checks : List (JsString × CheckResult)
  nodup_names : (checks.map Prod.fst).Nodup

structure AppMigrationReport where
  manifest : JsValue
  scannedFiles : List JsString
  changedFiles : List JsString
  entries : List ReportEntry
  verification : VerifyResult
  summary : JsValue
  previewExecution : Option JsValue

structure PreflightInput where
  slug : JsString
  baseBranch : JsString
  baseSha : JsString
  targetBranch : JsString
  candidateTreeSha : JsString
  artifactDigest : JsString
  manifest : JsValue
  report : AppMigrationReport

/-- What the runtime provides: a hash, the writing of numbers, and the comparison of strings in
its locale, which is documented to be a consistent comparison. -/
structure Platform where
  sha256 : HashFunction 32
  numberText : NumberText
  localeCompare : JsString → JsString → ℤ
  compare_total : ∀ a b, localeCompare a b ≤ 0 ∨ localeCompare b a ≤ 0
  compare_trans : ∀ a b c, localeCompare a b ≤ 0 → localeCompare b c ≤ 0 → localeCompare a c ≤ 0

/-! ### Local preview evidence -/

def record (value : JsValue) (label : String) : Except String (List Member) :=
  match value with
  | .obj ms => .ok ms
  | _ => .error s!"{label} must be an object"

def exactKeys (value : List Member) (expected : List String) (label : String) :
    Except String Unit :=
  reject ((sortByKey value).map Prod.fst ≠ (expected.map js).insertionSort (· ≤ ·))
    s!"{label} has unknown or missing fields"

def field (value : List Member) (key : String) : JsValue := getMember value (js key)

def isText (value : JsValue) (expected : String) : Bool :=
  match value with
  | .str s => decide (s = js expected)
  | _ => false

def isOne (value : JsValue) : Bool :=
  match value with
  | .num n => decide (n = .int 1)
  | _ => false

/-- `canonicalGitHubRepositorySlug`: a valid slug has only ASCII characters. -/
def canonicalGitHubRepositorySlug (value : JsValue) : Except String JsString :=
  asciiLower <$> validateRepositorySlug value

def positiveSafeInteger (value : JsValue) (label : String) : Except String ℤ :=
  match value with
  | .num n => do
    let i ← orThrow (safeInteger n) s!"Local preview {label} must be a positive safe integer"
    reject (i ≤ 0) s!"Local preview {label} must be a positive safe integer"
    return i
  | _ => .error s!"Local preview {label} must be a positive safe integer"

def gitOid (value : JsValue) (label : String) : Except String JsString :=
  match value with
  | .str s => do
    reject (isGitSha s = false) s!"Local preview {label} is invalid"
    return s
  | _ => .error s!"Local preview {label} is invalid"

def digest (value : JsValue) (label : String) : Except String JsString :=
  match value with
  | .str s => do
    reject (isDigestText s = false) s!"Local preview {label} is invalid"
    return s
  | _ => .error s!"Local preview {label} is invalid"

def executionJson (rest : List Member) : JsValue :=
  .obj ((js "schemaVersion", .num (.int 1)) :: (js "kind", .str (js "local-preview")) :: rest)

/-- Strict local evidence, returned as a detached copy. -/
def validateLocalPreviewExecution (value : JsValue) : Except String JsValue := do
  let execution ← record value "local preview execution"
  reject (isOne (field execution "schemaVersion") = false)
    "Local preview schema version is unsupported"
  reject (isText (field execution "kind") "local-preview" = false)
    "Local preview kind is unsupported"
  match field execution "source" with
  | .null => do
    exactKeys execution ["kind", "schemaVersion", "source", "unavailableReason"]
      "local preview execution"
    let reason := field execution "unavailableReason"
    reject (isText reason "repository_identity_unavailable" = false ∧
      isText reason "source_bundle_unavailable" = false)
      "Local preview unavailable reason is unsupported"
    return executionJson [(js "source", .null), (js "unavailableReason", reason)]
  | found => do
    exactKeys execution ["kind", "schemaVersion", "source"] "local preview execution"
    let source ← record found "local preview source"
    exactKeys source ["base", "manifestDigest", "repository", "sourceArchiveDigest"]
      "local preview source"
    let repository ← record (field source "repository") "local preview repository"
    exactKeys repository ["id", "ownerId", "slug"] "local preview repository"
    let slug ← canonicalGitHubRepositorySlug (field repository "slug")
    let id ← positiveSafeInteger (field repository "id") "repository id"
    let ownerId ← positiveSafeInteger (field repository "ownerId") "repository owner id"
    let base ← record (field source "base") "local preview base"
    exactKeys base ["branch", "sha", "treeSha"] "local preview base"
    let branch ← validateRepositoryBranch (field base "branch")
    let sha ← gitOid (field base "sha") "base commit object id"
    let treeSha ← gitOid (field base "treeSha") "base tree object id"
    reject (sha.length ≠ treeSha.length) "Local preview base object ids use different formats"
    let manifestDigest ← digest (field source "manifestDigest") "manifest digest"
    let sourceArchiveDigest ← digest (field source "sourceArchiveDigest") "source archive digest"
    return executionJson [(js "source", .obj [
      (js "repository", .obj [(js "slug", .str slug), (js "id", .num (.int id)),
        (js "ownerId", .num (.int ownerId))]),
      (js "base", .obj [(js "branch", .str branch), (js "sha", .str sha),
        (js "treeSha", .str treeSha)]),
      (js "manifestDigest", .str manifestDigest),
      (js "sourceArchiveDigest", .str sourceArchiveDigest)])]

/-! ### The stable input -/

/-- A property that may be `undefined`. -/
def optionalString : Option JsString → JsValue
  | some s => .str s
  | none => .exotic .undefined

def nullableString : Option JsString → JsValue
  | some s => .str s
  | none => .null

def nullableNumber : Option JsonNumber → JsValue
  | some n => .num n
  | none => .null

def ReportEntry.json (e : ReportEntry) : JsValue :=
  .obj [(js "file", .str e.file), (js "kind", .str e.kind), (js "code", .str e.code),
    (js "message", .str e.message), (js "line", nullableNumber e.line)]

/-- A check without its output. -/
def CheckResult.stableJson (c : CheckResult) : JsValue :=
  .obj [(js "status", .str c.status), (js "command", nullableString c.command),
    (js "exitCode", nullableNumber c.exitCode), (js "reason", optionalString c.reason)]

/-- An introduced error without the raw line of the compiler. -/
def TypeError.stableJson (e : TypeError) : JsValue :=
  .obj [(js "file", .str e.file), (js "line", nullableNumber e.line),
    (js "col", nullableNumber e.col), (js "code", .str e.code), (js "message", .str e.message)]

/-- `[...files].sort()`, by code units. -/
def sortedFiles (files : List JsString) : JsValue :=
  .arr ((files.insertionSort (· ≤ ·)).map .str)

variable (P : Platform)

/-- `${entry.line ?? 0}` -/
def lineText (line : Option JsonNumber) : JsString :=
  match line with
  | some n => P.numberText.text n
  | none => P.numberText.text (.int 0)

/-- The text that entries are ordered by. -/
def entryKey (e : ReportEntry) : JsString :=
  e.file ++ js ":" ++ lineText P e.line ++ js ":" ++ e.kind ++ js ":" ++ e.code ++ js ":" ++
    e.message

/-- The first entry may stand before the second. -/
def entryLe (a b : ReportEntry) : Prop := P.localeCompare (entryKey P a) (entryKey P b) ≤ 0

instance : DecidableRel (entryLe P) := fun a b ↦
  inferInstanceAs (Decidable (P.localeCompare (entryKey P a) (entryKey P b) ≤ 0))

/-- The entries in the order of their keys. The sort is stable. -/
def sortedEntries (entries : List ReportEntry) : JsValue :=
  .arr ((entries.insertionSort (entryLe P)).map ReportEntry.json)

def verificationJson (v : VerifyResult) : JsValue :=
  .obj [(js "ok", .bool v.ok), (js "skipped", .bool v.skipped),
    (js "skipReason", optionalString v.skipReason), (js "runner", .str v.runner),
    (js "introduced", .arr (v.introduced.map TypeError.stableJson)),
    (js "checks", .obj (v.checks.map fun c ↦ (c.1, c.2.stableJson)))]

/-- The execution provenance of a report, as it is validated. -/
def provenance (report : AppMigrationReport) : Except String (Option JsValue) :=
  match report.previewExecution with
  | none => .ok none
  | some value => some <$> validateLocalPreviewExecution value

def reportJson (report : AppMigrationReport) (previewExecution : Option JsValue) : JsValue :=
  .obj ([(js "manifest", report.manifest), (js "scannedFiles", sortedFiles report.scannedFiles),
    (js "changedFiles", sortedFiles report.changedFiles),
    (js "entries", sortedEntries P report.entries),
    (js "verification", verificationJson report.verification), (js "summary", report.summary)] ++
      (previewExecution.map fun value ↦ (js "previewExecution", value)).toList)

def stableInput (input : PreflightInput) : Except String JsValue := do
  let previewExecution ← provenance input.report
  return .obj [(js "slug", .str input.slug), (js "baseBranch", .str input.baseBranch),
    (js "baseSha", .str input.baseSha), (js "targetBranch", .str input.targetBranch),
    (js "candidateTreeSha", .str input.candidateTreeSha),
    (js "artifactDigest", .str input.artifactDigest), (js "manifest", input.manifest),
    (js "report", reportJson P input.report previewExecution)]

/-- The bytes that are hashed. -/
def stableBytes (value : JsValue) : Bytes := utf8Encode (stableStringify P.numberText value)

def createPreflightId (input : PreflightInput) : Except String JsString := do
  let value ← stableInput P input
  return js "pf_" ++ P.sha256.hex (stableBytes P value)

/-! ### Order -/

instance : Std.Total (entryLe P) := ⟨fun _ _ ↦ P.compare_total _ _⟩

instance : IsTrans ReportEntry (entryLe P) := ⟨fun _ _ _ ↦ P.compare_trans _ _ _⟩

/-- The same input with the lists of its report in another order. -/
def PreflightInput.reorder (input : PreflightInput) (scannedFiles changedFiles : List JsString)
    (entries : List ReportEntry) : PreflightInput :=
  { input with report := { input.report with scannedFiles, changedFiles, entries } }

/-- No two different entries compare equal. -/
def NoTies (entries : List ReportEntry) : Prop :=
  ∀ a ∈ entries, ∀ b ∈ entries, entryLe P a b → entryLe P b a → a = b

theorem sortedFiles_eq_of_perm {files files' : List JsString} (h : files.Perm files') :
    sortedFiles files = sortedFiles files' := by
  have hsorted : files.insertionSort (· ≤ ·) = files'.insertionSort (· ≤ ·) :=
    List.Perm.eq_of_pairwise (fun a b _ _ hab hba ↦ List.le_antisymm hab hba)
      (List.pairwise_insertionSort (· ≤ ·) files) (List.pairwise_insertionSort (· ≤ ·) files')
      (((List.perm_insertionSort _ _).trans h).trans (List.perm_insertionSort _ _).symm)
  rw [sortedFiles, sortedFiles, hsorted]

theorem sortedEntries_eq_of_perm {entries entries' : List ReportEntry} (h : entries.Perm entries')
    (hties : NoTies P entries) : sortedEntries P entries = sortedEntries P entries' := by
  have hmem : ∀ e ∈ entries'.insertionSort (entryLe P), e ∈ entries := fun e he ↦
    h.mem_iff.mpr ((List.perm_insertionSort _ _).mem_iff.mp he)
  have hsorted : entries.insertionSort (entryLe P) = entries'.insertionSort (entryLe P) :=
    List.Perm.eq_of_pairwise
      (fun a b ha hb ↦ hties a ((List.perm_insertionSort _ _).mem_iff.mp ha) b (hmem b hb))
      (List.pairwise_insertionSort _ _) (List.pairwise_insertionSort _ _)
      (((List.perm_insertionSort _ _).trans h).trans (List.perm_insertionSort _ _).symm)
  rw [sortedEntries, sortedEntries, hsorted]

/-- **Order independence** of the files. -/
theorem stableInput_reorderFiles (input : PreflightInput)
    {scannedFiles changedFiles : List JsString}
    (hscanned : scannedFiles.Perm input.report.scannedFiles)
    (hchanged : changedFiles.Perm input.report.changedFiles) :
    stableInput P (input.reorder scannedFiles changedFiles input.report.entries) =
      stableInput P input := by
  simp only [stableInput, provenance, reportJson, PreflightInput.reorder,
    sortedFiles_eq_of_perm hscanned, sortedFiles_eq_of_perm hchanged]

/-- **Order independence** of the entries, where no two of them tie. -/
theorem stableInput_reorderEntries (input : PreflightInput) {entries : List ReportEntry}
    (hentries : entries.Perm input.report.entries) (hties : NoTies P input.report.entries) :
    stableInput P (input.reorder input.report.scannedFiles input.report.changedFiles entries) =
      stableInput P input := by
  simp only [stableInput, provenance, reportJson, PreflightInput.reorder,
    sortedEntries_eq_of_perm P hentries.symm hties]

theorem createPreflightId_congr {x y : PreflightInput} (h : stableInput P x = stableInput P y) :
    createPreflightId P x = createPreflightId P y := by
  rw [createPreflightId, h, createPreflightId]

/-! ### Identification -/

/-- What a check says, its output left out. -/
def CheckResult.verdict (c : CheckResult) :
    JsString × Option JsString × Option JsonNumber × Option JsString :=
  (c.status, c.command, c.exitCode, c.reason)

/-- What an error says, the raw line left out. -/
def TypeError.location (e : TypeError) :
    JsString × Option JsonNumber × Option JsonNumber × JsString × JsString :=
  (e.file, e.line, e.col, e.code, e.message)

@[simp]
theorem settle_str (s : JsString) : settle (.str s) = .str s := rfl

@[simp]
theorem settle_bool (b : Bool) : settle (.bool b) = .bool b := rfl

theorem settle_nullableString_injective {s t : Option JsString}
    (h : settle (nullableString s) = settle (nullableString t)) : s = t := by
  cases s <;> cases t <;> simp_all [nullableString, settle]

theorem settle_optionalString_injective {s t : Option JsString}
    (h : settle (optionalString s) = settle (optionalString t)) : s = t := by
  cases s <;> cases t <;> simp_all [optionalString, settle]

theorem settle_nullableNumber_injective {n m : Option JsonNumber}
    (h : settle (nullableNumber n) = settle (nullableNumber m)) : n = m := by
  have hnum : ∀ k : JsonNumber, settle (.num k.1) = .num k.1 := by
    intro k
    simp only [settle, k.2]
  cases n with
  | none =>
    cases m with
    | none => rfl
    | some k => rw [nullableNumber, nullableNumber, hnum] at h; cases h
  | some k =>
    cases m with
    | none => rw [nullableNumber, nullableNumber, hnum] at h; cases h
    | some l =>
      rw [nullableNumber, nullableNumber, hnum, hnum] at h
      rw [Subtype.ext (JsValue.num.inj h)]

theorem eq_of_map_eq {α β : Type} {f : α → β} (hf : ∀ a b, f a = f b → a = b) {xs ys : List α}
    (h : xs.map f = ys.map f) : xs = ys :=
  List.map_injective_iff.mpr (fun a b ↦ hf a b) h

/-- Objects with the same keys that say the same say the same under every key. -/
private theorem settle_field {ms ns : List Member} (keys : List String)
    (hkeys : (keys.map js).Nodup) (hms : ms.map Prod.fst = keys.map js)
    (hns : ns.map Prod.fst = keys.map js) (h : settle (.obj ms) = settle (.obj ns)) :
    ∀ key ∈ keys, settle (field ms key) = settle (field ns key) := fun _ hkey ↦
  (settle_getMember (hms ▸ hkeys) (hns ▸ hkeys) h (hms ▸ List.mem_map_of_mem hkey)).2

theorem entry_injective (a b : ReportEntry) (h : settle a.json = settle b.json) : a = b := by
  have hfield := settle_field ["file", "kind", "code", "message", "line"] (by decide) rfl rfl h
  have hfile : a.file = b.file := JsValue.str.inj (hfield "file" (by decide))
  have hkind : a.kind = b.kind := JsValue.str.inj (hfield "kind" (by decide))
  have hcode : a.code = b.code := JsValue.str.inj (hfield "code" (by decide))
  have hmessage : a.message = b.message := JsValue.str.inj (hfield "message" (by decide))
  have hline : a.line = b.line := settle_nullableNumber_injective (hfield "line" (by decide))
  cases a
  cases b
  simp_all

theorem verdict_of_settle {c d : CheckResult} (h : settle c.stableJson = settle d.stableJson) :
    c.verdict = d.verdict := by
  have hfield := settle_field ["status", "command", "exitCode", "reason"] (by decide) rfl rfl h
  have hstatus : c.status = d.status := JsValue.str.inj (hfield "status" (by decide))
  have hcommand : c.command = d.command :=
    settle_nullableString_injective (hfield "command" (by decide))
  have hexit : c.exitCode = d.exitCode :=
    settle_nullableNumber_injective (hfield "exitCode" (by decide))
  have hreason : c.reason = d.reason :=
    settle_optionalString_injective (hfield "reason" (by decide))
  simp only [CheckResult.verdict, hstatus, hcommand, hexit, hreason]

theorem location_of_settle {e f : TypeError} (h : settle e.stableJson = settle f.stableJson) :
    e.location = f.location := by
  have hfield := settle_field ["file", "line", "col", "code", "message"] (by decide) rfl rfl h
  have hfile : e.file = f.file := JsValue.str.inj (hfield "file" (by decide))
  have hline : e.line = f.line := settle_nullableNumber_injective (hfield "line" (by decide))
  have hcol : e.col = f.col := settle_nullableNumber_injective (hfield "col" (by decide))
  have hcode : e.code = f.code := JsValue.str.inj (hfield "code" (by decide))
  have hmessage : e.message = f.message := JsValue.str.inj (hfield "message" (by decide))
  simp only [TypeError.location, hfile, hline, hcol, hcode, hmessage]

private theorem map_settle_of_arr {α : Type} {f : α → JsValue} {xs ys : List α}
    (h : settle (.arr (xs.map f)) = settle (.arr (ys.map f))) :
    xs.map (fun x ↦ settle (f x)) = ys.map fun x ↦ settle (f x) := by
  simp only [settle, settleElements_eq_map, List.map_map, JsValue.arr.injEq] at h
  exact h

theorem perm_of_sortedFiles {files files' : List JsString}
    (h : settle (sortedFiles files) = settle (sortedFiles files')) : files.Perm files' := by
  have hsorted := eq_of_map_eq (fun a b ↦ JsValue.str.inj) (map_settle_of_arr h)
  exact ((List.perm_insertionSort _ files).symm.trans (List.Perm.of_eq hsorted)).trans
    (List.perm_insertionSort _ files')

theorem perm_of_sortedEntries {entries entries' : List ReportEntry}
    (h : settle (sortedEntries P entries) = settle (sortedEntries P entries')) :
    entries.Perm entries' := by
  have hsorted := eq_of_map_eq entry_injective (map_settle_of_arr h)
  exact ((List.perm_insertionSort _ entries).symm.trans (List.Perm.of_eq hsorted)).trans
    (List.perm_insertionSort _ entries')

theorem map_location_of_settle {es fs : List TypeError}
    (h : settle (.arr (es.map TypeError.stableJson)) = settle (.arr (fs.map TypeError.stableJson))) :
    es.map TypeError.location = fs.map TypeError.location := by
  have hmap := map_settle_of_arr h
  induction es generalizing fs with
  | nil =>
    cases fs with
    | nil => rfl
    | cons f fs => cases hmap
  | cons e es ih =>
    cases fs with
    | nil => cases hmap
    | cons f fs =>
      rw [List.map_cons, List.map_cons, List.cons.injEq] at hmap
      have hrest : settle (.arr (es.map TypeError.stableJson)) =
          settle (.arr (fs.map TypeError.stableJson)) := by
        simp only [settle, settleElements_eq_map, List.map_map, JsValue.arr.injEq]
        exact hmap.2
      rw [List.map_cons, List.map_cons, location_of_settle hmap.1, ih hrest hmap.2]

/-- Checks of one report that say the same under the same names are the same up to order. -/
theorem perm_verdicts_of_settle {cs ds : List (JsString × CheckResult)}
    (hcs : (cs.map Prod.fst).Nodup) (hds : (ds.map Prod.fst).Nodup)
    (h : settle (.obj (cs.map fun c ↦ (c.1, c.2.stableJson))) =
      settle (.obj (ds.map fun c ↦ (c.1, c.2.stableJson)))) :
    (cs.map fun c ↦ (c.1, c.2.verdict)).Perm (ds.map fun c ↦ (c.1, c.2.verdict)) := by
  have hone : ∀ {cs ds : List (JsString × CheckResult)}, (cs.map Prod.fst).Nodup →
      (ds.map Prod.fst).Nodup →
      settle (.obj (cs.map fun c ↦ (c.1, c.2.stableJson))) =
        settle (.obj (ds.map fun c ↦ (c.1, c.2.stableJson))) →
      ∀ c ∈ cs, ∃ d ∈ ds, (d.1, d.2.verdict) = (c.1, c.2.verdict) := by
    intro cs ds hcs hds h c hc
    have hkeys : ∀ es : List (JsString × CheckResult),
        (es.map fun c ↦ (c.1, c.2.stableJson)).map Prod.fst = es.map Prod.fst :=
      fun es ↦ by rw [List.map_map]; rfl
    have hmem : (c.1, c.2.stableJson) ∈ cs.map fun c ↦ (c.1, c.2.stableJson) :=
      List.mem_map_of_mem (f := fun c : JsString × CheckResult ↦ (c.1, c.2.stableJson)) hc
    obtain ⟨hkey, hvalue⟩ := settle_getMember (by rwa [hkeys]) (by rwa [hkeys]) h
      (List.mem_map_of_mem (f := Prod.fst) hmem)
    rw [hkeys] at hkey
    obtain ⟨d, hd, hname⟩ := List.mem_map.mp hkey
    have hmem' : (d.1, d.2.stableJson) ∈ ds.map fun c ↦ (c.1, c.2.stableJson) :=
      List.mem_map_of_mem (f := fun c : JsString × CheckResult ↦ (c.1, c.2.stableJson)) hd
    rw [getMember_of_mem (by rwa [hkeys]) hmem] at hvalue
    rw [show (c.1, c.2.stableJson).1 = (d.1, d.2.stableJson).1 from hname.symm,
      getMember_of_mem (by rwa [hkeys]) hmem'] at hvalue
    exact ⟨d, hd, by rw [hname, verdict_of_settle hvalue]⟩
  have hnodup : ∀ {es : List (JsString × CheckResult)}, (es.map Prod.fst).Nodup →
      (es.map fun c ↦ (c.1, c.2.verdict)).Nodup := by
    intro es hes
    refine List.Nodup.of_map Prod.fst ?_
    rw [List.map_map]
    exact hes
  rw [List.perm_ext_iff_of_nodup (hnodup hcs) (hnodup hds)]
  intro v
  simp only [List.mem_map]
  constructor
  · rintro ⟨c, hc, rfl⟩
    exact hone hcs hds h c hc
  · rintro ⟨d, hd, rfl⟩
    exact hone hds hcs h.symm d hd

/-- Everything a preflight id stands for is equal: values as JSON, and the execution provenance as
it is validated. -/
structure SameResult (x y : PreflightInput) : Prop where
  slug : x.slug = y.slug
  baseBranch : x.baseBranch = y.baseBranch
  baseSha : x.baseSha = y.baseSha
  targetBranch : x.targetBranch = y.targetBranch
  candidateTreeSha : x.candidateTreeSha = y.candidateTreeSha
  artifactDigest : x.artifactDigest = y.artifactDigest
  manifest : settle x.manifest = settle y.manifest
  reportManifest : settle x.report.manifest = settle y.report.manifest
  scannedFiles : x.report.scannedFiles.Perm y.report.scannedFiles
  changedFiles : x.report.changedFiles.Perm y.report.changedFiles
  entries : x.report.entries.Perm y.report.entries
  ok : x.report.verification.ok = y.report.verification.ok
  skipped : x.report.verification.skipped = y.report.verification.skipped
  skipReason : x.report.verification.skipReason = y.report.verification.skipReason
  runner : x.report.verification.runner = y.report.verification.runner
  introduced : x.report.verification.introduced.map TypeError.location =
    y.report.verification.introduced.map TypeError.location
  checks : (x.report.verification.checks.map fun c ↦ (c.1, c.2.verdict)).Perm
    (y.report.verification.checks.map fun c ↦ (c.1, c.2.verdict))
  summary : settle x.report.summary = settle y.report.summary
  execution : (provenance x.report).map (Option.map settle) =
    (provenance y.report).map (Option.map settle)

private theorem report_keys (report : AppMigrationReport) (execution : Option JsValue) :
    ∃ ms, reportJson P report execution = .obj ms ∧ (ms.map Prod.fst).Nodup ∧
      (∀ key ∈ ["manifest", "scannedFiles", "changedFiles", "entries", "verification", "summary"],
        js key ∈ ms.map Prod.fst) ∧
      (js "previewExecution" ∈ ms.map Prod.fst ↔ execution.isSome = true) ∧
      field ms "manifest" = report.manifest ∧
      field ms "scannedFiles" = sortedFiles report.scannedFiles ∧
      field ms "changedFiles" = sortedFiles report.changedFiles ∧
      field ms "entries" = sortedEntries P report.entries ∧
      field ms "verification" = verificationJson report.verification ∧
      field ms "summary" = report.summary ∧
      ∀ value, execution = some value → field ms "previewExecution" = value := by
  cases execution with
  | none =>
    refine ⟨_, rfl, ?_, ?_, ?_, rfl, rfl, rfl, rfl, rfl, rfl, fun value h ↦ nomatch h⟩
    · change (["manifest", "scannedFiles", "changedFiles", "entries", "verification",
        "summary"].map js).Nodup
      decide
    · exact fun key hkey ↦ List.mem_map_of_mem (f := js) hkey
    · change js "previewExecution" ∈ ["manifest", "scannedFiles", "changedFiles", "entries",
        "verification", "summary"].map js ↔ false = true
      decide
  | some found =>
    refine ⟨_, rfl, ?_, ?_, ?_, rfl, rfl, rfl, rfl, rfl, rfl, ?_⟩
    · change (["manifest", "scannedFiles", "changedFiles", "entries", "verification",
        "summary", "previewExecution"].map js).Nodup
      decide
    · intro key hkey
      change js key ∈ (["manifest", "scannedFiles", "changedFiles", "entries", "verification",
        "summary"] ++ ["previewExecution"]).map js
      exact List.mem_map_of_mem (List.mem_append_left _ hkey)
    · change js "previewExecution" ∈ ["manifest", "scannedFiles", "changedFiles", "entries",
        "verification", "summary", "previewExecution"].map js ↔ true = true
      decide
    · rintro value ⟨⟩
      rfl

/-- **Identification.** Inputs with one id have the same result, when the hash tells their texts
apart. -/
theorem sameResult_of_preflightId {x y : PreflightInput} {v w : JsValue}
    (hx : stableInput P x = .ok v) (hy : stableInput P y = .ok w)
    (hcollision : P.sha256.digest (stableBytes P v) = P.sha256.digest (stableBytes P w) →
      stableBytes P v = stableBytes P w)
    (hid : createPreflightId P x = createPreflightId P y) : SameResult x y := by
  have hsettle : settle v = settle w := by
    simp only [createPreflightId, hx, hy, ok_bind, pure, Except.pure, Except.ok.injEq] at hid
    exact settle_eq_of_bytes_eq P.numberText
      (hcollision (hexText_injective (List.append_cancel_left hid)))
  simp only [stableInput, bind_eq_ok, pure_eq_ok] at hx hy
  obtain ⟨ex, hex, rfl⟩ := hx
  obtain ⟨ey, hey, rfl⟩ := hy
  have htop := settle_field ["slug", "baseBranch", "baseSha", "targetBranch", "candidateTreeSha",
    "artifactDigest", "manifest", "report"] (by decide) rfl rfl hsettle
  obtain ⟨ms, hms, hmsNodup, hmsKeys, hmsExecution, hmanifest, hscanned, hchanged, hentries,
    hverification, hsummary, hexecution⟩ := report_keys P x.report ex
  obtain ⟨ns, hns, hnsNodup, hnsKeys, hnsExecution, hmanifest', hscanned', hchanged', hentries',
    hverification', hsummary', hexecution'⟩ := report_keys P y.report ey
  have hreport : settle (.obj ms) = settle (.obj ns) := by
    rw [← hms, ← hns]
    exact htop "report" (by decide)
  have hinner : ∀ key ∈ ["manifest", "scannedFiles", "changedFiles", "entries", "verification",
      "summary"], settle (field ms key) = settle (field ns key) := fun key hkey ↦
    (settle_getMember hmsNodup hnsNodup hreport (hmsKeys key hkey)).2
  have hverify : settle (verificationJson x.report.verification) =
      settle (verificationJson y.report.verification) := by
    rw [← hverification, ← hverification']
    exact hinner "verification" (by decide)
  have hchecks := settle_field ["ok", "skipped", "skipReason", "runner", "introduced", "checks"]
    (by decide) rfl rfl hverify
  exact {
    slug := JsValue.str.inj (htop "slug" (by decide))
    baseBranch := JsValue.str.inj (htop "baseBranch" (by decide))
    baseSha := JsValue.str.inj (htop "baseSha" (by decide))
    targetBranch := JsValue.str.inj (htop "targetBranch" (by decide))
    candidateTreeSha := JsValue.str.inj (htop "candidateTreeSha" (by decide))
    artifactDigest := JsValue.str.inj (htop "artifactDigest" (by decide))
    manifest := htop "manifest" (by decide)
    reportManifest := by
      rw [← hmanifest, ← hmanifest']
      exact hinner "manifest" (by decide)
    scannedFiles := perm_of_sortedFiles (by
      rw [← hscanned, ← hscanned']
      exact hinner "scannedFiles" (by decide))
    changedFiles := perm_of_sortedFiles (by
      rw [← hchanged, ← hchanged']
      exact hinner "changedFiles" (by decide))
    entries := perm_of_sortedEntries P (by
      rw [← hentries, ← hentries']
      exact hinner "entries" (by decide))
    ok := JsValue.bool.inj (hchecks "ok" (by decide))
    skipped := JsValue.bool.inj (hchecks "skipped" (by decide))
    skipReason := settle_optionalString_injective (hchecks "skipReason" (by decide))
    runner := JsValue.str.inj (hchecks "runner" (by decide))
    introduced := map_location_of_settle (hchecks "introduced" (by decide))
    checks := perm_verdicts_of_settle x.report.verification.nodup_names
      y.report.verification.nodup_names (hchecks "checks" (by decide))
    summary := by
      rw [← hsummary, ← hsummary']
      exact hinner "summary" (by decide)
    execution := by
      rw [hex, hey]
      refine congrArg Except.ok ?_
      cases ex with
      | none =>
        cases ey with
        | none => rfl
        | some b =>
          have hkey := (settle_getMember hnsNodup hmsNodup hreport.symm
            (hnsExecution.mpr rfl)).1
          exact absurd (hmsExecution.mp hkey) (by decide)
      | some a =>
        obtain ⟨hkey, hvalue⟩ := settle_getMember hmsNodup hnsNodup hreport (hmsExecution.mpr rfl)
        obtain ⟨b, rfl⟩ := Option.isSome_iff_exists.mp (hnsExecution.mp hkey)
        have ha : getMember ms (js "previewExecution") = a := hexecution a rfl
        have hb : getMember ns (js "previewExecution") = b := hexecution' b rfl
        rw [ha, hb] at hvalue
        exact congrArg some hvalue }

/-- **A preflight id identifies the reviewed result.** It does not depend on the order of the files,
nor on the order of entries among which none tie; and inputs with one id have the same result. -/
theorem preflight_id_identifies_result (P : Platform) (x : PreflightInput) :
    (∀ scannedFiles changedFiles, scannedFiles.Perm x.report.scannedFiles →
      changedFiles.Perm x.report.changedFiles →
      createPreflightId P (x.reorder scannedFiles changedFiles x.report.entries) =
        createPreflightId P x) ∧
    (∀ entries, entries.Perm x.report.entries → NoTies P x.report.entries →
      createPreflightId P (x.reorder x.report.scannedFiles x.report.changedFiles entries) =
        createPreflightId P x) ∧
    ∀ y id, createPreflightId P x = .ok id → createPreflightId P y = .ok id →
      (∀ v w, stableInput P x = .ok v → stableInput P y = .ok w →
        P.sha256.digest (stableBytes P v) = P.sha256.digest (stableBytes P w) →
        stableBytes P v = stableBytes P w) →
      SameResult x y := by
  refine ⟨fun _ _ hscanned hchanged ↦
      createPreflightId_congr P (stableInput_reorderFiles P x hscanned hchanged),
    fun _ hentries hties ↦
      createPreflightId_congr P (stableInput_reorderEntries P x hentries hties), ?_⟩
  intro y id hx hy hcollision
  have hid := hx.trans hy.symm
  simp only [createPreflightId, bind_eq_ok] at hx hy
  obtain ⟨v, hv, -⟩ := hx
  obtain ⟨w, hw, -⟩ := hy
  exact sameResult_of_preflightId P hv hw (hcollision v w hv hw) hid

/-! ### A platform -/

/-- The parts of a fraction in one number. -/
def fractionCode (negative : Bool) (numerator exponent : ℕ) : ℕ :=
  Nat.pair (Nat.pair negative.toNat numerator) exponent

/-- Integers in decimal; a fraction as its code after a point. -/
def sampleText : JsNumber → JsString
  | .int i => integerText i
  | .fraction negative numerator exponent =>
    js "-." ++ decimalDigits (fractionCode negative numerator exponent)
  | _ => js "0"

private theorem mem_sampleText {n : JsNumber} {c : UInt16} (hc : c ∈ sampleText n) :
    isDigit c = true ∨ c ∈ js "-." := by
  have hinteger : ∀ {i : ℤ}, c ∈ integerText i → isDigit c = true ∨ c ∈ js "-." := by
    intro i hi
    unfold integerText at hi
    split_ifs at hi
    · rcases List.mem_cons.mp hi with rfl | hi
      · exact Or.inr (by decide)
      · exact Or.inl (isDigit_of_mem_decimalDigits hi)
    · exact Or.inl (isDigit_of_mem_decimalDigits hi)
  cases n with
  | int i => exact hinteger hc
  | fraction negative numerator exponent =>
    rcases List.mem_append.mp hc with hc | hc
    · exact Or.inr hc
    · exact Or.inl (isDigit_of_mem_decimalDigits hc)
  | negZero | infinite | nan =>
    have hzero : c ∈ [(0x30 : UInt16)] := hc
    rw [List.mem_singleton] at hzero
    exact Or.inl (hzero ▸ by decide)

private theorem integerText_inj {i j : ℤ} (h : integerText i = integerText j) : i = j := by
  have hminus : ∀ n : ℕ, (0x2d : UInt16) ∉ decimalDigits n := fun n hn ↦
    absurd (isDigit_of_mem_decimalDigits hn) (by decide)
  unfold integerText at h
  split_ifs at h with hi hj hj
  · have hdigits := decimalDigits_injective (List.cons.inj h).2
    omega
  · exact absurd (h ▸ List.mem_cons_self) (hminus j.natAbs)
  · exact absurd (h ▸ List.mem_cons_self) (hminus i.natAbs)
  · have hdigits := decimalDigits_injective h
    omega

private theorem point_notMem_integerText (i : ℤ) : (0x2e : UInt16) ∉ integerText i := by
  have hdigits : ∀ n : ℕ, (0x2e : UInt16) ∉ decimalDigits n := fun n hn ↦
    absurd (isDigit_of_mem_decimalDigits hn) (by decide)
  unfold integerText
  split_ifs
  · exact List.not_mem_cons_of_ne_of_not_mem (by decide) (hdigits _)
  · exact hdigits _

def sampleNumberText : NumberText where
  text := sampleText
  units n _ c hc := by
    rcases mem_sampleText hc with hdigit | hmem
    · simp [isNumberUnit, hdigit]
    · have hunit : c ∈ js "-+.e" := by
        have hcases : c = 0x2d ∨ c = 0x2e := by simpa [js, scalarUnits] using hmem
        rcases hcases with rfl | rfl <;> decide
      simp [isNumberUnit, hunit]
  start n hn := by
    have hdecimal : ∀ m : ℕ, ∃ c rest, decimalDigits m = c :: rest ∧ isDigit c = true := by
      intro m
      obtain ⟨c, rest, hcons⟩ := List.exists_cons_of_ne_nil (decimalDigits_ne_nil m)
      exact ⟨c, rest, hcons, isDigit_of_mem_decimalDigits (hcons ▸ List.mem_cons_self)⟩
    cases n with
    | int i =>
      rw [sampleText, integerText]
      split_ifs
      · exact ⟨_, _, rfl, by decide⟩
      · obtain ⟨c, rest, hcons, hdigit⟩ := hdecimal i.natAbs
        exact ⟨c, rest, hcons, by simp [hdigit]⟩
    | fraction negative numerator exponent => exact ⟨0x2d, _, rfl, by decide⟩
    | negZero | infinite | nan => cases hn
  injective n m hn hm h := by
    cases n with
    | negZero | infinite | nan => cases hn
    | int i =>
      cases m with
      | negZero | infinite | nan => cases hm
      | int j => exact congrArg JsNumber.int (integerText_inj h)
      | fraction negative numerator exponent =>
        have hmem : (0x2e : UInt16) ∈ sampleText (.int i) := by
          rw [h]
          exact List.mem_append_left _ (by decide)
        exact absurd hmem (point_notMem_integerText i)
    | fraction negative numerator exponent =>
      cases m with
      | negZero | infinite | nan => cases hm
      | int j =>
        have hmem : (0x2e : UInt16) ∈ sampleText (.int j) := by
          rw [← h]
          exact List.mem_append_left _ (by decide)
        exact absurd hmem (point_notMem_integerText j)
      | fraction negative' numerator' exponent' =>
        have hcode := decimalDigits_injective (List.append_cancel_left h)
        simp only [fractionCode, Nat.pair_eq_pair] at hcode
        obtain ⟨⟨hnegative, rfl⟩, rfl⟩ := hcode
        cases negative <;> cases negative' <;> first | rfl | cases hnegative

/-- Strings compared by code units. -/
def unitCompare (a b : JsString) : ℤ := if a ≤ b then if b ≤ a then 0 else -1 else 1

theorem unitCompare_le_zero {a b : JsString} : unitCompare a b ≤ 0 ↔ a ≤ b := by
  unfold unitCompare
  split_ifs with hab hba <;> simp [hab]

def samplePlatform : Platform where
  sha256 := HashFunction.polynomial
  numberText := sampleNumberText
  localeCompare := unitCompare
  compare_total a b := by
    rw [unitCompare_le_zero, unitCompare_le_zero]
    exact List.le_total a b
  compare_trans a b c hab hbc := by
    rw [unitCompare_le_zero] at hab hbc ⊢
    exact List.le_trans hab hbc

def sampleEntry (line : Option JsonNumber) : ReportEntry where
  file := js "src/a.ts"
  kind := js "todo"
  code := js "C1"
  message := js "m"
  line := line

def lineNumber (i : ℤ) : Option JsonNumber := some ⟨.int i, rfl⟩

/-- A preview of two files with these entries. -/
def samplePreview (entries : List ReportEntry) : PreflightInput where
  slug := js "o/r"
  baseBranch := js "main"
  baseSha := js "ba5e"
  targetBranch := js "next"
  candidateTreeSha := js "7ree"
  artifactDigest := js "d1"
  manifest := .obj [(js "name", .str (js "p"))]
  report := {
    manifest := .obj [(js "name", .str (js "p"))]
    scannedFiles := [js "src/b.ts", js "src/a.ts"]
    changedFiles := [js "src/a.ts"]
    entries
    verification := {
      ok := true
      introduced := []
      skipped := false
      skipReason := none
      runner := js "tsc"
      checks := []
      nodup_names := List.nodup_nil }
    summary := .null
    previewExecution := none }

set_option maxRecDepth 100000 in
private theorem samplePreview_swapped :
    createPreflightId samplePlatform (samplePreview [sampleEntry (lineNumber 0), sampleEntry none]) ≠
      createPreflightId samplePlatform
        (samplePreview [sampleEntry none, sampleEntry (lineNumber 0)]) := by
  decide +kernel

/-- An entry without a line and the same entry on line 0 tie: the id depends on their order, also
where the hash tells the two texts apart. -/
theorem preflight_id_depends_on_tied_order :
    ¬ ∀ (P : Platform) (x : PreflightInput) (entries : List ReportEntry),
      entries.Perm x.report.entries →
      (∀ v w, stableInput P (x.reorder x.report.scannedFiles x.report.changedFiles entries) = .ok v →
        stableInput P x = .ok w →
        P.sha256.digest (stableBytes P v) = P.sha256.digest (stableBytes P w) →
        stableBytes P v = stableBytes P w) →
      createPreflightId P (x.reorder x.report.scannedFiles x.report.changedFiles entries) =
        createPreflightId P x := by
  intro h
  refine samplePreview_swapped (h samplePlatform
    (samplePreview [sampleEntry none, sampleEntry (lineNumber 0)])
    [sampleEntry (lineNumber 0), sampleEntry none] (List.Perm.swap _ _ _) ?_)
  intro v w hv hw hdigest
  refine absurd ?_ samplePreview_swapped
  have hid : ∀ {x : PreflightInput} {u : JsValue}, stableInput samplePlatform x = .ok u →
      createPreflightId samplePlatform x =
        .ok (js "pf_" ++ hexText (samplePlatform.sha256.digest (stableBytes samplePlatform u))) := by
    intro x u hx
    rw [createPreflightId, hx]
    rfl
  rw [hid hw]
  exact (hid hv).trans (by rw [hdigest])

/-- A preview and the same preview with its files and entries the other way around: one id. -/
theorem preflight_id_identifies_result_sample :
    ∃ id, createPreflightId samplePlatform
        (samplePreview [sampleEntry (lineNumber 3), sampleEntry (lineNumber 2)]) = .ok id ∧
      createPreflightId samplePlatform ((samplePreview [sampleEntry (lineNumber 3),
        sampleEntry (lineNumber 2)]).reorder [js "src/a.ts", js "src/b.ts"] [js "src/a.ts"]
          [sampleEntry (lineNumber 3), sampleEntry (lineNumber 2)]) = .ok id ∧
      createPreflightId samplePlatform
        (samplePreview [sampleEntry (lineNumber 2), sampleEntry (lineNumber 3)]) = .ok id ∧
      SameResult (samplePreview [sampleEntry (lineNumber 3), sampleEntry (lineNumber 2)])
        (samplePreview [sampleEntry (lineNumber 2), sampleEntry (lineNumber 3)]) := by
  obtain ⟨hfiles, hentries, hsame⟩ := preflight_id_identifies_result samplePlatform
    (samplePreview [sampleEntry (lineNumber 3), sampleEntry (lineNumber 2)])
  have hties : NoTies samplePlatform [sampleEntry (lineNumber 3), sampleEntry (lineNumber 2)] := by
    unfold NoTies
    decide +kernel
  have hswapped := hentries [sampleEntry (lineNumber 2), sampleEntry (lineNumber 3)]
    (List.Perm.swap _ _ _) hties
  refine ⟨_, rfl, hfiles _ _ (List.Perm.swap _ _ _) (List.Perm.refl _), hswapped, ?_⟩
  refine hsame _ _ rfl hswapped ?_
  rintro v w ⟨⟩ hw -
  have hstable := stableInput_reorderEntries samplePlatform
    (samplePreview [sampleEntry (lineNumber 3), sampleEntry (lineNumber 2)])
    (List.Perm.swap (sampleEntry (lineNumber 3)) (sampleEntry (lineNumber 2)) []) hties
  exact congrArg (stableBytes samplePlatform) (Except.ok.inj (hstable.symm.trans hw))

end ApiMigrator.App.Preflight
