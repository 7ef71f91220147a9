import ApiMigrator.App.GitTree
import ApiMigrator.App.SourceBundleJson
import ApiMigrator.Foundation.GitNames

/-!
The header of a source bundle in `runner-source-bundle.ts`: which repository, base commit and
manifest the bundle carries, and how many entries of how many bytes follow. A header is read from a
JSON value field by field, under exact key sets, so that it determines the value up to the order of
its members.
-/

set_option autoImplicit false
set_option relaxedAutoImplicit false

namespace ApiMigrator.App.SourceBundle

open Foundation.Text Foundation.Number Foundation.Json Foundation.Outcome Foundation.Pattern
open Foundation.Binary Foundation.GitNames GitTree

def maxSourceEntries : ℕ := 50000

def maxSourceTotalBytes : ℕ := 536870912

def maxSourceFileBytes : ℕ := 268435456

def maxCanonicalManifestBytes : ℕ := 262144

/-! ### Reading fields -/

def record (value : JsValue) (label : String) : Except String (List Member) :=
  match value with
  | .obj ms => .ok ms
  | _ => .error s!"{label} must be an object"

@[simp]
theorem record_eq_ok {value : JsValue} {label : String} {ms : List Member} :
    record value label = .ok ms ↔ value = .obj ms := by
  cases value <;> simp [record]

/-- The expected keys are given in their order. -/
def exactKeys (ms : List Member) (expected : List String) (label : String) : Except String Unit :=
  reject ((sortByKey ms).map Prod.fst ≠ expected.map js)
    s!"{label} contains missing or unsupported fields"

@[simp]
theorem exactKeys_eq_ok {ms : List Member} {expected : List String} {label : String} {u : Unit} :
    exactKeys ms expected label = .ok u ↔ (sortByKey ms).map Prod.fst = expected.map js := by
  simp [exactKeys]

def field (ms : List Member) (key : String) : JsValue := getMember ms (js key)

/-- `Number(value)` of a safe integer, positive or at least not negative. -/
def positiveInteger (value : JsValue) (label : String) (allowZero : Bool) :
    Except String JsNumber :=
  match value with
  | .num n => do
    let i ← orThrow (safeInteger n) s!"Source bundle {label} is invalid"
    reject (if allowZero then i < 0 else i ≤ 0) s!"Source bundle {label} is invalid"
    return n
  | _ => .error s!"Source bundle {label} is invalid"

theorem positiveInteger_eq_ok {value : JsValue} {label : String} {allowZero : Bool} {n : JsNumber}
    (h : positiveInteger value label allowZero = .ok n) : value = .num n := by
  unfold positiveInteger at h
  split at h
  · simp only [bind_eq_ok, pure_eq_ok] at h
    obtain ⟨_, -, _, -, rfl⟩ := h
    rfl
  · cases h

def validDigest (value : JsValue) (label : String) : Except String JsString :=
  match value with
  | .str s => do
    reject (isDigestText s = false) s!"Source bundle {label} is invalid"
    return s
  | _ => .error s!"Source bundle {label} is invalid"

theorem validDigest_eq_ok {value : JsValue} {label : String} {s : JsString} :
    validDigest value label = .ok s ↔ value = .str s ∧ isDigestText s = true := by
  unfold validDigest
  split
  · simp only [bind_eq_ok, reject_eq_ok, exists_unit, pure_eq_ok, JsValue.str.injEq,
      Bool.not_eq_false]
    constructor
    · rintro ⟨h, rfl⟩
      exact ⟨rfl, h⟩
    · rintro ⟨rfl, h⟩
      exact ⟨h, rfl⟩
  · simp_all

/-- `sha256` of the module: the digest with its prefix. -/
def sha256 (H : Hashes) (bytes : Bytes) : JsString := js "sha256:" ++ H.sha256.hex bytes

theorem isDigestText_sha256 (H : Hashes) (bytes : Bytes) :
    isDigestText (sha256 H bytes) = true := by
  have hdrop : (sha256 H bytes).drop 7 = H.sha256.hex bytes :=
    List.drop_left' (show (js "sha256:").length = 7 by decide)
  have hstarts : startsWith (sha256 H bytes) "sha256:" = true :=
    List.isPrefixOf_iff_prefix.mpr (List.prefix_append _ _)
  rw [isDigestText, hdrop, hstarts, Bool.true_and]
  exact H.sha256.isHexOfLength_hex bytes

/-! ### Identities -/

structure RepositoryIdentity where
  slug : JsString
  id : JsNumber
  ownerId : JsNumber
  deriving DecidableEq

structure BaseIdentity where
  branch : JsString
  sha : JsString
  treeSha : JsString
  deriving DecidableEq

structure ManifestIdentity where
  canonicalJson : JsString
  byteLength : JsNumber
  digest : JsString
  deriving DecidableEq

structure SourceBundleHeader where
  repository : RepositoryIdentity
  base : BaseIdentity
  objectFormat : GitObjectFormat
  manifest : ManifestIdentity
  entryCount : JsNumber
  totalFileBytes : JsNumber
  entriesDigest : JsString
  deriving DecidableEq

def formatName : GitObjectFormat → JsString
  | .sha1 => js "sha1"
  | .sha256 => js "sha256"

/-! The JSON of a header, members in the order of their keys. -/

def RepositoryIdentity.toJson (r : RepositoryIdentity) : JsValue :=
  .obj [(js "id", .num r.id), (js "ownerId", .num r.ownerId), (js "slug", .str r.slug)]

def baseJson (base : BaseIdentity) (format : GitObjectFormat) : JsValue :=
  .obj [(js "branch", .str base.branch), (js "objectFormat", .str (formatName format)),
    (js "sha", .str base.sha), (js "treeSha", .str base.treeSha)]

def ManifestIdentity.toJson (m : ManifestIdentity) : JsValue :=
  .obj [(js "byteLength", .num m.byteLength), (js "canonicalJson", .str m.canonicalJson),
    (js "digest", .str m.digest)]

def SourceBundleHeader.toJson (h : SourceBundleHeader) : JsValue :=
  .obj [(js "base", baseJson h.base h.objectFormat), (js "entriesDigest", .str h.entriesDigest),
    (js "entryCount", .num h.entryCount), (js "manifest", h.manifest.toJson),
    (js "repository", h.repository.toJson), (js "schemaVersion", .num (.int 1)),
    (js "totalFileBytes", .num h.totalFileBytes)]

/-! ### Validation -/

def repositorySlug (value : JsValue) : Except String JsString :=
  match value with
  | .str slug => do
    reject (slug ≠ asciiLower slug)
      "Source repository slug must be canonical lowercase owner/repo"
    match splitSlash slug with
    | [owner, repo] => do
      reject (isOwnerName owner = false ∨ includes owner "--" = true ∨
        isRepositoryName repo = false ∨ repo = js "." ∨ repo = js ".." ∨
        endsWith repo ".git" = true) "Source repository slug is invalid"
      return slug
    | _ => .error "Source repository slug is invalid"
  | _ => .error "Source repository slug must be canonical lowercase owner/repo"

def repositoryOf (slug id ownerId : JsValue) : Except String RepositoryIdentity := do
  let slug ← repositorySlug slug
  let id ← positiveInteger id "repository id" false
  let ownerId ← positiveInteger ownerId "repository owner id" false
  return { slug, id, ownerId }

def validateRepository (value : JsValue) : Except String RepositoryIdentity := do
  let root ← record value "source repository"
  exactKeys root ["id", "ownerId", "slug"] "source repository"
  repositoryOf (field root "slug") (field root "id") (field root "ownerId")

def validateBranch (value : JsValue) : Except String JsString :=
  match value with
  | .str branch => do
    reject (isBranchName branch = false) "Source base branch is invalid"
    return branch
  | _ => .error "Source base branch is invalid"

def baseOf (branch sha treeSha : JsValue) : Except String BaseIdentity := do
  let branch ← validateBranch branch
  match sha, treeSha with
  | .str sha, .str treeSha => do
    let objectFormat ← gitObjectFormatFromOid sha
    let treeFormat ← gitObjectFormatFromOid treeSha
    reject (treeFormat ≠ objectFormat) "Source base commit and tree use different object formats"
    return { branch, sha, treeSha }
  | _, _ => .error "Source base object ids are invalid"

def requireKey (ms : List Member) (key : String) : Except String Unit :=
  reject (js key ∉ ms.map Prod.fst) s!"Source base is missing {key}"

def validateBase (value : JsValue) : Except String BaseIdentity := do
  let root ← record value "source base"
  forEach (requireKey root) ["branch", "sha", "treeSha"]
  baseOf (field root "branch") (field root "sha") (field root "treeSha")

def objectFormatOf (value : JsValue) : Except String GitObjectFormat :=
  match value with
  | .str s =>
    if s = js "sha1" then .ok .sha1
    else if s = js "sha256" then .ok .sha256
    else .error "Source base object format is unsupported"
  | _ => .error "Source base object format is unsupported"

def validateCanonicalManifest (value : JsValue) : Except String JsString :=
  match value with
  | .str text => do
    reject (text = [] ∨ maxCanonicalManifestBytes < byteLength text)
      "Source manifest is missing or exceeds its byte limit"
    let parsed ← parseCanonicalJson text "source manifest"
    match parsed with
    | .obj _ => return text
    | _ => .error "Source manifest must be a canonical JSON object"
  | _ => .error "Source manifest is missing or exceeds its byte limit"

def manifestOf (H : Hashes) (canonicalJson byteLength digest : JsValue) :
    Except String ManifestIdentity := do
  let manifestJson ← validateCanonicalManifest canonicalJson
  let manifestByteLength ← positiveInteger byteLength "manifest byte length" true
  let manifestDigest ← validDigest digest "manifest digest"
  reject (safeInteger manifestByteLength ≠ some (Foundation.Text.byteLength manifestJson : ℤ) ∨
    manifestDigest ≠ sha256 H (utf8Encode manifestJson))
    "Source manifest byte length or digest does not match its canonical bytes"
  return {
    canonicalJson := manifestJson
    byteLength := manifestByteLength
    digest := manifestDigest }

/-- A count of the header as a natural number; `-0` counts as zero. -/
def count (n : JsNumber) : ℕ := ((safeInteger n).getD 0).toNat

def validateBaseRoot (value : JsValue) : Except String (BaseIdentity × GitObjectFormat) := do
  let baseRoot ← record value "source base"
  exactKeys baseRoot ["branch", "objectFormat", "sha", "treeSha"] "source base"
  let base ← validateBase value
  let objectFormat ← objectFormatOf (field baseRoot "objectFormat")
  let commitFormat ← gitObjectFormatFromOid base.sha
  reject (objectFormat ≠ commitFormat)
    "Source base object format does not match its commit id"
  return (base, objectFormat)

def validateManifestRoot (H : Hashes) (value : JsValue) : Except String ManifestIdentity := do
  let manifestRoot ← record value "source manifest"
  exactKeys manifestRoot ["byteLength", "canonicalJson", "digest"] "source manifest"
  manifestOf H (field manifestRoot "canonicalJson") (field manifestRoot "byteLength")
    (field manifestRoot "digest")

/-- `SOURCE_BUNDLE_SCHEMA_VERSION` is 1. -/
def isSchemaVersion : JsValue → Bool
  | .num n => decide (n = .int 1)
  | _ => false

def validateHeader (H : Hashes) (value : JsValue) : Except String SourceBundleHeader := do
  let root ← record value "source bundle header"
  exactKeys root ["base", "entriesDigest", "entryCount", "manifest", "repository",
    "schemaVersion", "totalFileBytes"] "source bundle header"
  reject (isSchemaVersion (field root "schemaVersion") = false)
    "Source bundle schema version is unsupported"
  let repository ← validateRepository (field root "repository")
  let (base, objectFormat) ← validateBaseRoot (field root "base")
  let manifest ← validateManifestRoot H (field root "manifest")
  let entryCount ← positiveInteger (field root "entryCount") "entry count" true
  let totalFileBytes ← positiveInteger (field root "totalFileBytes") "total file bytes" true
  reject (maxSourceEntries < count entryCount ∨ maxSourceTotalBytes < count totalFileBytes)
    "Source bundle header exceeds entry or byte limits"
  let entriesDigest ← validDigest (field root "entriesDigest") "entries digest"
  return { repository, base, objectFormat, manifest, entryCount, totalFileBytes, entriesDigest }

/-! ### What validation determines -/

theorem repositorySlug_eq_ok {value : JsValue} {slug : JsString}
    (h : repositorySlug value = .ok slug) : value = .str slug := by
  unfold repositorySlug at h
  split at h
  · simp only [bind_eq_ok] at h
    obtain ⟨_, -, h⟩ := h
    split at h
    · simp only [bind_eq_ok, pure_eq_ok] at h
      obtain ⟨_, -, rfl⟩ := h
      rfl
    · cases h
  · cases h

theorem repositoryOf_eq_ok {slug id ownerId : JsValue} {r : RepositoryIdentity}
    (h : repositoryOf slug id ownerId = .ok r) :
    slug = .str r.slug ∧ id = .num r.id ∧ ownerId = .num r.ownerId := by
  simp only [repositoryOf, bind_eq_ok, pure_eq_ok] at h
  obtain ⟨s, hslug, i, hid, o, howner, rfl⟩ := h
  exact ⟨repositorySlug_eq_ok hslug, positiveInteger_eq_ok hid, positiveInteger_eq_ok howner⟩

theorem baseOf_eq_ok {branch sha treeSha : JsValue} {base : BaseIdentity}
    (h : baseOf branch sha treeSha = .ok base) :
    branch = .str base.branch ∧ sha = .str base.sha ∧ treeSha = .str base.treeSha := by
  simp only [baseOf, bind_eq_ok] at h
  obtain ⟨b, hbranch, h⟩ := h
  split at h
  · simp only [bind_eq_ok, pure_eq_ok] at h
    obtain ⟨_, -, _, -, _, -, rfl⟩ := h
    refine ⟨?_, rfl, rfl⟩
    unfold validateBranch at hbranch
    split at hbranch
    · simp only [bind_eq_ok, pure_eq_ok] at hbranch
      obtain ⟨_, -, rfl⟩ := hbranch
      rfl
    · cases hbranch
  · cases h

theorem objectFormatOf_eq_ok {value : JsValue} {format : GitObjectFormat} :
    objectFormatOf value = .ok format ↔ value = .str (formatName format) := by
  constructor
  · intro h
    unfold objectFormatOf at h
    split at h
    · split_ifs at h with h1 h256
      · cases h
        exact congrArg JsValue.str h1
      · cases h
        exact congrArg JsValue.str h256
    · cases h
  · rintro rfl
    cases format <;> rfl

theorem validateCanonicalManifest_eq_ok {value : JsValue} {text : JsString}
    (h : validateCanonicalManifest value = .ok text) : value = .str text := by
  unfold validateCanonicalManifest at h
  split at h
  · simp only [bind_eq_ok] at h
    obtain ⟨_, -, parsed, -, h⟩ := h
    cases parsed with
    | obj ms => rw [pure_eq_ok.mp h]
    | null | bool | num | str | arr | exotic => cases h
  · cases h

theorem manifestOf_eq_ok {H : Hashes} {canonicalJson byteLength digest : JsValue}
    {m : ManifestIdentity} (h : manifestOf H canonicalJson byteLength digest = .ok m) :
    canonicalJson = .str m.canonicalJson ∧ byteLength = .num m.byteLength ∧
      digest = .str m.digest := by
  simp only [manifestOf, bind_eq_ok, pure_eq_ok] at h
  obtain ⟨text, htext, n, hn, d, hd, _, -, rfl⟩ := h
  exact ⟨validateCanonicalManifest_eq_ok htext, positiveInteger_eq_ok hn,
    (validDigest_eq_ok.mp hd).1⟩

/-! ### Valid headers -/

def RepositoryIdentity.Valid (r : RepositoryIdentity) : Prop :=
  repositoryOf (.str r.slug) (.num r.id) (.num r.ownerId) = .ok r

def BaseIdentity.Valid (base : BaseIdentity) : Prop :=
  baseOf (.str base.branch) (.str base.sha) (.str base.treeSha) = .ok base

def ManifestIdentity.Valid (H : Hashes) (m : ManifestIdentity) : Prop :=
  manifestOf H (.str m.canonicalJson) (.num m.byteLength) (.str m.digest) = .ok m

structure SourceBundleHeader.Valid (H : Hashes) (h : SourceBundleHeader) : Prop where
  repository : h.repository.Valid
  base : h.base.Valid
  objectFormat : gitObjectFormatFromOid h.base.sha = .ok h.objectFormat
  manifest : h.manifest.Valid H
  entryCount : positiveInteger (.num h.entryCount) "entry count" true = .ok h.entryCount
  totalFileBytes :
    positiveInteger (.num h.totalFileBytes) "total file bytes" true = .ok h.totalFileBytes
  entryLimit : count h.entryCount ≤ maxSourceEntries
  totalLimit : count h.totalFileBytes ≤ maxSourceTotalBytes
  entriesDigest : isDigestText h.entriesDigest = true

theorem validateRepository_eq_ok {value : JsValue} {r : RepositoryIdentity}
    (h : validateRepository value = .ok r) : value.sorted = r.toJson ∧ r.Valid := by
  simp only [validateRepository, bind_eq_ok, record_eq_ok, exactKeys_eq_ok, exists_unit] at h
  obtain ⟨ms, rfl, hkeys, hfields⟩ := h
  obtain ⟨hslug, hid, howner⟩ := repositoryOf_eq_ok hfields
  refine ⟨?_, by rwa [hslug, hid, howner] at hfields⟩
  rw [sorted_obj_of_keys (by decide) hkeys]
  simp only [List.map_cons, List.map_nil, ← field.eq_1, hslug, hid, howner, JsValue.sorted,
    RepositoryIdentity.toJson]

theorem validateBaseRoot_eq_ok {value : JsValue} {base : BaseIdentity} {format : GitObjectFormat}
    (h : validateBaseRoot value = .ok (base, format)) :
    value.sorted = baseJson base format ∧ base.Valid ∧
      gitObjectFormatFromOid base.sha = .ok format := by
  simp only [validateBaseRoot, validateBase, bind_eq_ok, record_eq_ok, exactKeys_eq_ok,
    exists_unit, reject_eq_ok, pure_eq_ok, not_not, Prod.mk.injEq] at h
  obtain ⟨ms, rfl, hkeys, base', ⟨ms', hms', -, hfields⟩, format', hformat, commit, hcommit, rfl,
    rfl, rfl⟩ := h
  obtain rfl := JsValue.obj.inj hms'
  obtain ⟨hbranch, hsha, htree⟩ := baseOf_eq_ok hfields
  have hformat := objectFormatOf_eq_ok.mp hformat
  refine ⟨?_, by rwa [hbranch, hsha, htree] at hfields, hcommit⟩
  rw [sorted_obj_of_keys (by decide) hkeys]
  simp only [List.map_cons, List.map_nil, ← field.eq_1, hbranch, hsha, htree, hformat,
    JsValue.sorted, baseJson]

theorem validateManifestRoot_eq_ok {H : Hashes} {value : JsValue} {m : ManifestIdentity}
    (h : validateManifestRoot H value = .ok m) : value.sorted = m.toJson ∧ m.Valid H := by
  simp only [validateManifestRoot, bind_eq_ok, record_eq_ok, exactKeys_eq_ok, exists_unit] at h
  obtain ⟨ms, rfl, hkeys, hfields⟩ := h
  obtain ⟨htext, hlength, hdigest⟩ := manifestOf_eq_ok hfields
  refine ⟨?_, by rwa [htext, hlength, hdigest] at hfields⟩
  rw [sorted_obj_of_keys (by decide) hkeys]
  simp only [List.map_cons, List.map_nil, ← field.eq_1, htext, hlength, hdigest, JsValue.sorted,
    ManifestIdentity.toJson]

theorem isSchemaVersion_eq_true {value : JsValue} (h : isSchemaVersion value = true) :
    value = .num (.int 1) := by
  cases value with
  | num n => exact congrArg JsValue.num (of_decide_eq_true h)
  | null | bool | str | arr | obj | exotic => cases h

/-- A header is read from its own JSON, up to the order of members, and from nothing else. -/
theorem validateHeader_eq_ok {H : Hashes} {value : JsValue} {h : SourceBundleHeader}
    (hv : validateHeader H value = .ok h) : value.sorted = h.toJson ∧ h.Valid H := by
  simp only [validateHeader, bind_eq_ok, record_eq_ok, exactKeys_eq_ok, exists_unit, reject_eq_ok,
    pure_eq_ok, not_or, not_lt, Prod.exists, Bool.not_eq_false] at hv
  obtain ⟨ms, rfl, hkeys, hversion, repository, hrepository, base, format, hbase, manifest,
    hmanifest, entryCount, hcount, total, htotal, ⟨hcountLimit, htotalLimit⟩, digest, hdigest,
    rfl⟩ := hv
  obtain ⟨hrepository, hrepositoryValid⟩ := validateRepository_eq_ok hrepository
  obtain ⟨hbase, hbaseValid, hformat⟩ := validateBaseRoot_eq_ok hbase
  obtain ⟨hmanifest, hmanifestValid⟩ := validateManifestRoot_eq_ok hmanifest
  have hcountField := positiveInteger_eq_ok hcount
  have htotalField := positiveInteger_eq_ok htotal
  obtain ⟨hdigestField, hdigestText⟩ := validDigest_eq_ok.mp hdigest
  have hversionField := isSchemaVersion_eq_true hversion
  refine ⟨?_, ⟨hrepositoryValid, hbaseValid, hformat, hmanifestValid, hcountField ▸ hcount,
    htotalField ▸ htotal, hcountLimit, htotalLimit, hdigestText⟩⟩
  rw [sorted_obj_of_keys (by decide) hkeys]
  simp only [List.map_cons, List.map_nil, ← field.eq_1, hrepository, hbase, hmanifest,
    hcountField, htotalField, hdigestField, hversionField, JsValue.sorted,
    SourceBundleHeader.toJson]

theorem RepositoryIdentity.Valid.validate {r : RepositoryIdentity} (h : r.Valid) :
    validateRepository r.toJson = .ok r := h

theorem validateBaseRoot_baseJson {base : BaseIdentity} {format : GitObjectFormat}
    (hbase : base.Valid) (hformat : gitObjectFormatFromOid base.sha = .ok format) :
    validateBaseRoot (baseJson base format) = .ok (base, format) := by
  have hread : validateBase (baseJson base format) = .ok base := hbase
  have hname : objectFormatOf (.str (formatName format)) = .ok format :=
    objectFormatOf_eq_ok.mpr rfl
  simp only [validateBaseRoot, bind_eq_ok, record_eq_ok, exactKeys_eq_ok, exists_unit,
    reject_eq_ok, pure_eq_ok]
  exact ⟨_, rfl, rfl, base, hread, format, hname, format, hformat, by simp, rfl⟩

theorem ManifestIdentity.Valid.validate {H : Hashes} {m : ManifestIdentity} (h : m.Valid H) :
    validateManifestRoot H m.toJson = .ok m := h

theorem SourceBundleHeader.Valid.validate {H : Hashes} {h : SourceBundleHeader} (hv : h.Valid H) :
    validateHeader H h.toJson = .ok h := by
  simp only [validateHeader, bind_eq_ok, record_eq_ok, exactKeys_eq_ok, exists_unit, reject_eq_ok,
    pure_eq_ok, Prod.exists]
  refine ⟨_, rfl, rfl, fun hversion ↦ Bool.false_ne_true hversion.symm, h.repository,
    hv.repository.validate, h.base, h.objectFormat,
    validateBaseRoot_baseJson hv.base hv.objectFormat, h.manifest, hv.manifest.validate,
    h.entryCount, hv.entryCount, h.totalFileBytes, hv.totalFileBytes, ?_, h.entriesDigest,
    validDigest_eq_ok.mpr ⟨rfl, hv.entriesDigest⟩, rfl⟩
  exact not_or.mpr ⟨not_lt.mpr hv.entryLimit, not_lt.mpr hv.totalLimit⟩

theorem RepositoryIdentity.distinctKeys_toJson (r : RepositoryIdentity) :
    DistinctKeys r.toJson := by
  refine .obj (show [js "id", js "ownerId", js "slug"].Nodup by decide) ?_
  simp only [List.forall_mem_cons, List.not_mem_nil, false_implies, implies_true, and_true]
  exact ⟨.num _, .num _, .str _⟩

theorem distinctKeys_baseJson (base : BaseIdentity) (format : GitObjectFormat) :
    DistinctKeys (baseJson base format) := by
  refine .obj (show [js "branch", js "objectFormat", js "sha", js "treeSha"].Nodup by decide) ?_
  simp only [List.forall_mem_cons, List.not_mem_nil, false_implies, implies_true, and_true]
  exact ⟨.str _, .str _, .str _, .str _⟩

theorem ManifestIdentity.distinctKeys_toJson (m : ManifestIdentity) : DistinctKeys m.toJson := by
  refine .obj (show [js "byteLength", js "canonicalJson", js "digest"].Nodup by decide) ?_
  simp only [List.forall_mem_cons, List.not_mem_nil, false_implies, implies_true, and_true]
  exact ⟨.num _, .str _, .str _⟩

theorem SourceBundleHeader.distinctKeys_toJson (h : SourceBundleHeader) :
    DistinctKeys h.toJson := by
  refine .obj (show [js "base", js "entriesDigest", js "entryCount", js "manifest",
    js "repository", js "schemaVersion", js "totalFileBytes"].Nodup by decide) ?_
  simp only [List.forall_mem_cons, List.not_mem_nil, false_implies, implies_true, and_true]
  exact ⟨distinctKeys_baseJson _ _, .str _, .num _, h.manifest.distinctKeys_toJson,
    h.repository.distinctKeys_toJson, .num _, .num _⟩

theorem sorted_toJson (h : SourceBundleHeader) : h.toJson.sorted = h.toJson := by
  rfl

end ApiMigrator.App.SourceBundle
