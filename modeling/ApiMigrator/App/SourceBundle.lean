import ApiMigrator.App.SourceBundleHeader

/-!
The source bundle of `runner-source-bundle.ts`. The encoder reads the tracked files of a clean
checkout and frames them behind a canonical header; the decoder takes the frames apart again,
checking every limit, the byte order of the paths, the digests and the Git tree id on the way.
-/

set_option autoImplicit false
set_option relaxedAutoImplicit false

namespace ApiMigrator.App.SourceBundle

open Foundation.Text Foundation.Number Foundation.Json Foundation.Outcome Foundation.Pattern
open Foundation.Binary GitTree

def maxHeaderBytes : ℕ := 524288

def maxPathBytes : ℕ := 4096

def framePrefixBytes : ℕ := 13

def magic : Bytes := utf8Encode (js "API-MIGRATOR-SOURCE-BUNDLE\x00V1\n")

def footer : Bytes := utf8Encode (js "\nAPI-MIGRATOR-SOURCE-BUNDLE-END\x00V1")

def maxBundleBytes : ℕ :=
  maxSourceTotalBytes + maxSourceEntries * (maxPathBytes + framePrefixBytes) + maxHeaderBytes +
    magic.length + footer.length + 4

def decodeUtf8 (value : Bytes) (label : String) : Except String JsString := do
  reject (utf8Encode (utf8Decode value) ≠ value) s!"{label} is not valid UTF-8"
  assertValidUnicode (utf8Decode value) label
  return utf8Decode value

/-! ### Encoding -/

def modeByte : GitFileMode → UInt8
  | .regular => 0
  | .executable => 1

/-- The frame of one entry: lengths and mode, then the path, then the content. -/
def encodeEntry (entry : GitTreeEntry) : Except String Bytes := do
  let path ← validateGitPath entry.path
  let pathBytes := utf8Encode path
  reject (pathBytes.length = 0 ∨ maxPathBytes < pathBytes.length)
    "Source entry path exceeds its byte limit"
  reject (maxSourceFileBytes < entry.content.length) "Source entry exceeds its file byte limit"
  return bigEndian 4 pathBytes.length ++ modeByte entry.mode ::
    bigEndian 8 entry.content.length ++ pathBytes ++ entry.content

structure EncodedEntries where
  frames : List Bytes
  digest : JsString
  totalFileBytes : ℕ

/-- The frames of the entries, after `total` bytes of content. -/
def encodeFrames : List GitTreeEntry → ℕ → Except String (List Bytes × ℕ)
  | [], total => .ok ([], total)
  | entry :: entries, total => do
    let frame ← encodeEntry entry
    reject (maxSourceTotalBytes < total + entry.content.length)
      "Source bundle exceeds its total file byte limit"
    let (frames, total) ← encodeFrames entries (total + entry.content.length)
    return (frame :: frames, total)

def encodeEntries (H : Hashes) (entries : List GitTreeEntry) : Except String EncodedEntries := do
  let (frames, totalFileBytes) ← encodeFrames entries 0
  return { frames, digest := sha256 H frames.flatten, totalFileBytes }

def encodeHeader (header : SourceBundleHeader) : Except String Bytes := do
  let text ← canonicalJson header.toJson
  let headerBytes := utf8Encode text
  reject (headerBytes.length = 0 ∨ maxHeaderBytes < headerBytes.length)
    "Source bundle header exceeds its byte limit"
  return headerBytes

/-- The framing: magic, length-prefixed header, frames, footer. -/
def bundleBytes (headerBytes : Bytes) (frames : List Bytes) : Bytes :=
  magic ++ bigEndian 4 headerBytes.length ++ headerBytes ++ frames.flatten ++ footer

def encodeBundle (header : SourceBundleHeader) (frames : List Bytes) : Except String Bytes := do
  let headerBytes ← encodeHeader header
  let bytes := bundleBytes headerBytes frames
  reject (maxBundleBytes < bytes.length) "Source bundle exceeds its byte limit"
  return bytes

/-- The encoder's tail on a given header and entries. -/
def encodeSourceBundle (H : Hashes) (header : SourceBundleHeader) (entries : List GitTreeEntry) :
    Except String Bytes := do
  let encoded ← encodeEntries H entries
  encodeBundle header encoded.frames

/-! ### The checkout -/

/-- A tracked path opened without following links. -/
structure TrackedFile where
  isFile : Bool
  links : ℕ
  mode : ℕ
  content : Bytes
  unchanged : Bool

/-- What Git and the file system say about the checkout. -/
structure Checkout where
  isDirectory : Bool
  isTopLevel : Bool
  status : Bytes
  head : JsString
  tree : JsString
  objectFormat : Option GitObjectFormat
  index : Bytes
  traversesSymlink : JsString → Bool
  file : JsString → Option TrackedFile

def validateCleanCheckout (checkout : Checkout) (base : BaseIdentity) : Except String Unit := do
  reject (checkout.isDirectory = false) "Source bundle checkout must be a real directory"
  reject (checkout.isTopLevel = false) "Source bundle checkout must be the Git top level"
  reject (checkout.status ≠ [])
    "Source bundle checkout must have a clean tracked and untracked working tree"
  reject (checkout.head ≠ base.sha ∨ checkout.tree ≠ base.treeSha)
    "Source bundle checkout does not match the approved base commit and tree"
  let headFormat ← gitObjectFormatFromOid checkout.head
  let baseFormat ← gitObjectFormatFromOid base.sha
  reject (checkout.objectFormat.getD headFormat ≠ baseFormat)
    "Source bundle checkout Git object format does not match the approved base"

def splitNul (value : Bytes) : Except String (List Bytes) := do
  if value = [] then return []
  reject (value.getLast? ≠ some 0) "Git index output is not NUL terminated"
  let records := (value.splitOn 0).dropLast
  reject ([] ∈ records) "Git index output contains an empty entry"
  return records

structure IndexRecord where
  mode : GitFileMode
  oid : JsString
  path : JsString

def indexMode (mode : JsString) : Except String GitFileMode :=
  if mode = js "100644" then .ok .regular
  else if mode = js "100755" then .ok .executable
  else .error "Source bundle rejects symlinks, submodules, and non-regular Git modes"

def parseIndexRecord (record : Bytes) (objectFormat : GitObjectFormat) :
    Except String IndexRecord := do
  let metadata := (record.takeWhile (· ≠ 0x09)).map fun b ↦ UInt16.ofNat (b.toNat % 0x80)
  let rest := record.dropWhile (· ≠ 0x09)
  reject (metadata = [] ∨ rest.length ≤ 1) "Git returned a malformed index entry"
  match metadata.splitOn 0x20 with
  | [mode, oid, stage] => do
    reject (mode ∉ [js "100644", js "100755", js "120000", js "160000"] ∨
      (isHexOfLength 40 oid = false ∧ isHexOfLength 64 oid = false) ∨
      stage ∉ [js "0", js "1", js "2", js "3"]) "Git returned an unsupported index entry"
    reject (stage ≠ js "0") "Source bundle rejects unmerged index stages"
    let mode ← indexMode mode
    let format ← gitObjectFormatFromOid oid
    reject (format ≠ objectFormat) "Git index object format is inconsistent"
    let path ← decodeUtf8 (rest.drop 1) "Git index path"
    let path ← validateGitPath path
    return { mode, oid, path }
  | _ => .error "Git returned an unsupported index entry"

def readTrackedFile (checkout : Checkout) (path : JsString) (mode : GitFileMode) :
    Except String Bytes := do
  reject (checkout.traversesSymlink path = true) "Tracked source traverses a symlink"
  let file ← orThrow (checkout.file path) "Tracked source cannot be opened"
  reject (file.isFile = false ∨ file.links ≠ 1) "Tracked source must be a one-link regular file"
  reject (file.mode &&& 0o7000 ≠ 0 ∨ maxSourceFileBytes < file.content.length)
    "Tracked source has unsupported mode or size"
  reject ((if file.mode &&& 0o111 = 0 then GitFileMode.regular else .executable) ≠ mode)
    "Tracked source mode differs from the Git index"
  reject (file.unchanged = false) "Tracked source changed while it was read"
  return file.content

/-- The entries of the index records, with the paths seen so far and the bytes read so far. -/
def readRecords (H : Hashes) (checkout : Checkout) (objectFormat : GitObjectFormat) :
    List Bytes → List JsString → ℕ → Except String (List GitTreeEntry)
  | [], _, _ => .ok []
  | record :: records, seen, total => do
    let index ← parseIndexRecord record objectFormat
    reject (index.path ∈ seen) "Source bundle contains duplicate tracked path"
    let content ← readTrackedFile checkout index.path index.mode
    reject (gitBlobOid H content objectFormat ≠ index.oid)
      "Tracked file changed after clean-checkout validation"
    reject (maxSourceTotalBytes < total + content.length)
      "Source bundle exceeds its total file byte limit"
    let entries ← readRecords H checkout objectFormat records (index.path :: seen)
      (total + content.length)
    return { path := index.path, mode := index.mode, content } :: entries

/-- What `Buffer.compare` orders entries by. -/
def pathKey (entry : GitTreeEntry) : Bytes := utf8Encode entry.path

def pathLe (left right : GitTreeEntry) : Prop := pathKey left ≤ pathKey right

instance : DecidableRel pathLe := fun left right ↦
  inferInstanceAs (Decidable (pathKey left ≤ pathKey right))

def readTrackedEntries (H : Hashes) (checkout : Checkout) (objectFormat : GitObjectFormat) :
    Except String (List GitTreeEntry) := do
  let records ← splitNul checkout.index
  reject (maxSourceEntries < records.length) "Source bundle exceeds 50000 tracked entries"
  let entries ← readRecords H checkout objectFormat records [] 0
  return entries.insertionSort pathLe

structure CreateSourceBundleInput where
  repository : JsValue
  base : JsValue
  manifestJson : JsValue

structure SourceBundleRecord where
  bytes : Bytes
  digest : JsString
  header : SourceBundleHeader

def createSourceBundle (H : Hashes) (checkout : Checkout) (input : CreateSourceBundleInput) :
    Except String SourceBundleRecord := do
  let repository ← validateRepository input.repository
  let base ← validateBase input.base
  let manifestJson ← validateCanonicalManifest input.manifestJson
  validateCleanCheckout checkout base
  let objectFormat ← gitObjectFormatFromOid base.sha
  let entries ← readTrackedEntries H checkout objectFormat
  let calculatedTree ← gitTreeOid H entries objectFormat
  reject (calculatedTree ≠ base.treeSha)
    "Tracked checkout bytes and modes do not match the approved base tree"
  let encoded ← encodeEntries H entries
  let header : SourceBundleHeader := {
    repository, base, objectFormat
    manifest := {
      canonicalJson := manifestJson
      byteLength := .int (byteLength manifestJson)
      digest := sha256 H (utf8Encode manifestJson) }
    entryCount := .int entries.length
    totalFileBytes := .int encoded.totalFileBytes
    entriesDigest := encoded.digest }
  let bytes ← encodeBundle header encoded.frames
  return { bytes, digest := sha256 H bytes, header }

/-! ### Decoding -/

/-- `checkedEnd` and the slice it bounds: the next `length` bytes and what follows them. -/
def takeBytes (length : ℕ) (label : String) (rest : Bytes) : Except String (Bytes × Bytes) := do
  reject (rest.length < length) s!"{label} is truncated"
  return (rest.take length, rest.drop length)

def expectBytes (expected : Bytes) (label : String) (rest : Bytes) : Except String Bytes := do
  let (front, rest) ← takeBytes expected.length label rest
  reject (front ≠ expected) s!"{label} is invalid"
  return rest

/-- What the loop over the entries has read: the entries, the bytes it has hashed, the bytes of
content, and the path it read last. -/
structure EntryState where
  entries : List GitTreeEntry
  hashed : Bytes
  totalFileBytes : ℕ
  previousPath : Option Bytes

def EntryState.start : EntryState := ⟨[], [], 0, none⟩

def modeOfByte (b : UInt8) : Except String GitFileMode :=
  if b = 0 then .ok .regular
  else if b = 1 then .ok .executable
  else .error "Source entry mode is unsupported"

def parseEntry (state : EntryState) (rest : Bytes) : Except String (EntryState × Bytes) := do
  let (prefixBytes, afterPrefix) ← takeBytes framePrefixBytes "source entry prefix" rest
  let pathLength := readBigEndian (prefixBytes.take 4)
  let contentLength := readBigEndian (prefixBytes.drop 5)
  reject (pathLength = 0 ∨ maxPathBytes < pathLength) "Source entry path length is invalid"
  let mode ← modeOfByte (prefixBytes.getD 4 0)
  reject (maxSourceFileBytes < contentLength) "Source entry exceeds its file byte limit"
  let (pathBytes, afterPath) ← takeBytes pathLength "source entry path" afterPrefix
  let path ← decodeUtf8 pathBytes "source entry path"
  let path ← validateGitPath path
  reject (∃ previous ∈ state.previousPath, ¬ previous < pathBytes)
    "Source entries are duplicated or not in canonical byte order"
  let (content, afterContent) ← takeBytes contentLength "source entry content" afterPath
  reject (maxSourceTotalBytes < state.totalFileBytes + content.length)
    "Source bundle exceeds its total file byte limit"
  return ({
    entries := state.entries ++ [{ path, mode, content }]
    hashed := state.hashed ++ (prefixBytes ++ pathBytes ++ content)
    totalFileBytes := state.totalFileBytes + content.length
    previousPath := some pathBytes }, afterContent)

def parseEntries : ℕ → EntryState → Bytes → Except String (EntryState × Bytes)
  | 0, state, rest => .ok (state, rest)
  | n + 1, state, rest => do
    let (state, rest) ← parseEntry state rest
    parseEntries n state rest

structure ParsedSourceBundle where
  header : SourceBundleHeader
  entries : List GitTreeEntry
  digest : JsString
  deriving DecidableEq

def parseSourceBundle (H : Hashes) (bytes : Bytes) : Except String ParsedSourceBundle := do
  reject (bytes.length < magic.length + 4 + footer.length ∨ maxBundleBytes < bytes.length)
    "Source bundle is truncated or exceeds its byte limit"
  let rest ← expectBytes magic "source bundle magic" bytes
  let headerLength := readBigEndian (rest.take 4)
  let rest := rest.drop 4
  reject (headerLength = 0 ∨ maxHeaderBytes < headerLength)
    "Source bundle header length is invalid"
  let (headerBytes, rest) ← takeBytes headerLength "source bundle header" rest
  let headerText ← decodeUtf8 headerBytes "source bundle header"
  let headerJson ← parseCanonicalJson headerText "source bundle header"
  let header ← validateHeader H headerJson
  let (state, rest) ← parseEntries (count header.entryCount) .start rest
  let rest ← expectBytes footer "source bundle footer" rest
  reject (rest ≠ []) "Source bundle has trailing bytes"
  reject (state.entries.length ≠ count header.entryCount ∨
    state.totalFileBytes ≠ count header.totalFileBytes)
    "Source bundle entry count or byte total does not match its header"
  reject (sha256 H state.hashed ≠ header.entriesDigest)
    "Source bundle entry digest does not match its header"
  let treeSha ← gitTreeOid H state.entries header.objectFormat
  reject (treeSha ≠ header.base.treeSha)
    "Source bundle entries do not match the approved Git tree"
  return { header, entries := state.entries, digest := sha256 H bytes }

end ApiMigrator.App.SourceBundle
