import ApiMigrator.App.SourceBundleCodec

/-!
The already-parsed way into bundle extraction. `extractSourceBundle` takes bytes or a parsed
bundle; the parsed one is validated again, field by field, but its digest is only looked at for its
form, where the decoder of bytes computes it. An accepted parsed bundle is one the decoder returns
for some bytes exactly when the encoder can frame its header and entries and its digest is that of
the framed bytes.
-/

set_option autoImplicit false
set_option relaxedAutoImplicit false

namespace ApiMigrator.App.SourceBundle

open Foundation.Text Foundation.Number Foundation.Json Foundation.Outcome Foundation.Pattern
open Foundation.Binary GitTree

/-- An entry as a caller hands it over. Without content it is not an entry with bytes at all. -/
structure RawEntry where
  path : JsValue
  mode : JsValue
  content : Option Bytes

/-- A parsed bundle as a caller hands it over. Without entries they are not an array. -/
structure RawBundle where
  header : JsValue
  entries : Option (List RawEntry)
  digest : JsValue

def rawPath : JsValue → Except String JsString
  | .str path => validateGitPath path
  | _ => .error "Git tree path is empty, oversized, absolute, or non-portable"

def rawMode : JsValue → Except String GitFileMode
  | .str mode =>
    if mode = js "100644" then .ok .regular
    else if mode = js "100755" then .ok .executable
    else .error "Parsed source bundle entry mode is unsupported"
  | _ => .error "Parsed source bundle entry mode is unsupported"

def readRawEntries : List RawEntry → Option Bytes → Except String (List GitTreeEntry)
  | [], _ => .ok []
  | raw :: rest, previous => do
    let content ← orThrow raw.content "Parsed source bundle entry is invalid"
    let path ← rawPath raw.path
    let pathBytes := utf8Encode path
    reject (∃ p ∈ previous, ¬ p < pathBytes)
      "Parsed source entries are duplicated or not in canonical byte order"
    let mode ← rawMode raw.mode
    let entries ← readRawEntries rest (some pathBytes)
    return { path, mode, content } :: entries

def validateParsedSourceBundle (H : Hashes) (value : Option RawBundle) :
    Except String ParsedSourceBundle := do
  let value ← orThrow value "Parsed source bundle is invalid"
  let header ← validateHeader H value.header
  let raw ← orThrow value.entries "Parsed source bundle entries are invalid"
  let entries ← readRawEntries raw none
  let encoded ← encodeEntries H entries
  reject (entries.length ≠ count header.entryCount ∨
    encoded.totalFileBytes ≠ count header.totalFileBytes ∨ encoded.digest ≠ header.entriesDigest)
    "Parsed source bundle does not match its header"
  let treeSha ← gitTreeOid H entries header.objectFormat
  reject (treeSha ≠ header.base.treeSha) "Parsed source bundle does not match its header"
  let digest ← validDigest value.digest "parsed bundle digest"
  return { header, entries, digest }

/-! ### What a parsed bundle denotes -/

def rawEntry (entry : GitTreeEntry) : RawEntry :=
  ⟨.str entry.path, .str entry.mode.text, some entry.content⟩

/-- The value carries exactly this header and these entries. -/
def RawBundle.Denotes (raw : RawBundle) (header : SourceBundleHeader)
    (entries : List GitTreeEntry) : Prop :=
  raw.header.sorted = header.toJson ∧ raw.entries = some (entries.map rawEntry)

private theorem text_injective {m m' : GitFileMode} (h : m.text = m'.text) : m = m' := by
  revert h
  cases m <;> cases m' <;> decide

private theorem rawEntry_injective : Function.Injective rawEntry := by
  rintro ⟨path, mode, content⟩ ⟨path', mode', content'⟩ h
  simp only [rawEntry, RawEntry.mk.injEq, JsValue.str.injEq, Option.some.injEq] at h
  obtain ⟨rfl, hmode, rfl⟩ := h
  rw [text_injective hmode]

private theorem formatName_injective {f f' : GitObjectFormat} (h : formatName f = formatName f') :
    f = f' := by
  revert h
  cases f <;> cases f' <;> decide

theorem toJson_injective {h h' : SourceBundleHeader} (heq : h.toJson = h'.toJson) : h = h' := by
  obtain ⟨⟨slug, id, owner⟩, ⟨branch, sha, tree⟩, format, ⟨text, length, digest⟩, n, total, d⟩ := h
  obtain ⟨⟨slug', id', owner'⟩, ⟨branch', sha', tree'⟩, format', ⟨text', length', digest'⟩, n',
    total', d'⟩ := h'
  simp only [SourceBundleHeader.toJson, RepositoryIdentity.toJson, ManifestIdentity.toJson,
    baseJson, JsValue.obj.injEq, JsValue.str.injEq, JsValue.num.injEq, List.cons.injEq,
    Prod.mk.injEq, true_and, and_true] at heq
  obtain ⟨⟨rfl, hformat, rfl, rfl⟩, rfl, rfl, ⟨rfl, rfl, rfl⟩, ⟨rfl, rfl, rfl⟩, rfl⟩ := heq
  rw [formatName_injective hformat]

theorem RawBundle.Denotes.unique {raw : RawBundle} {header header' : SourceBundleHeader}
    {entries entries' : List GitTreeEntry} (h : raw.Denotes header entries)
    (h' : raw.Denotes header' entries') : header = header' ∧ entries = entries' :=
  ⟨toJson_injective (h.1.symm.trans h'.1),
    List.map_injective_iff.mpr rawEntry_injective (Option.some.inj (h.2.symm.trans h'.2))⟩

private theorem rawPath_eq_ok {value : JsValue} {path : JsString} (h : rawPath value = .ok path) :
    value = .str path := by
  cases value with
  | str s =>
    obtain ⟨rfl, -⟩ := validateGitPath_eq_ok h
    rfl
  | null | bool | num | arr | obj | exotic => cases h

private theorem rawMode_eq_ok {value : JsValue} {mode : GitFileMode}
    (h : rawMode value = .ok mode) : value = .str mode.text := by
  cases value with
  | str s =>
    simp only [rawMode] at h
    split_ifs at h with hregular hexecutable
    · cases h
      exact congrArg JsValue.str hregular
    · cases h
      exact congrArg JsValue.str hexecutable
  | null | bool | num | arr | obj | exotic => cases h

theorem readRawEntries_eq_ok {raw : List RawEntry} {previous : Option Bytes}
    {entries : List GitTreeEntry} (h : readRawEntries raw previous = .ok entries) :
    raw = entries.map rawEntry ∧ Ordered previous entries := by
  induction raw generalizing previous entries with
  | nil =>
    cases h
    refine ⟨rfl, ?_⟩
    cases previous <;> simp [Ordered]
  | cons first rest ih =>
    simp only [readRawEntries, bind_eq_ok, orThrow_eq_ok, reject_eq_ok, exists_unit, pure_eq_ok,
      not_exists, not_and, not_not] at h
    obtain ⟨content, hcontent, path, hpath, horder, mode, hmode, entries, hentries, rfl⟩ := h
    obtain ⟨rfl, hordered⟩ := ih hentries
    refine ⟨?_, ordered_cons.mpr ⟨horder, hordered⟩⟩
    obtain ⟨rawPathValue, rawModeValue, rawContent⟩ := first
    simp only at hcontent hpath hmode
    rw [List.map_cons, rawEntry, hcontent, rawPath_eq_ok hpath, rawMode_eq_ok hmode]

/-- What validation determines: the header and entries the value denotes, which agree, and the
digest it carries, which need only have the form of a digest. -/
theorem validateParsedSourceBundle_eq_ok {H : Hashes} {raw : RawBundle} {p : ParsedSourceBundle}
    (h : validateParsedSourceBundle H (some raw) = .ok p) :
    raw.Denotes p.header p.entries ∧ Agrees H p.header p.entries ∧ raw.digest = .str p.digest := by
  simp only [validateParsedSourceBundle, bind_eq_ok, orThrow_eq_ok, Option.some.injEq,
    reject_eq_ok, exists_unit, pure_eq_ok, not_or, not_not] at h
  obtain ⟨_, rfl, header, hheader, rawEntries, hraw, entries, hentries, encoded, hencoded,
    ⟨hcount, htotal, hdigest⟩, tree, htree, rfl, digest, hform, rfl⟩ := h
  obtain ⟨hvalue, hvalid⟩ := validateHeader_eq_ok hheader
  obtain ⟨rfl, hordered⟩ := readRawEntries_eq_ok hentries
  exact ⟨⟨hvalue, hraw⟩, ⟨hvalid, hordered, hcount, htree, encoded, hencoded, htotal, hdigest⟩,
    (validDigest_eq_ok.mp hform).1⟩

/-- The value carries the identity of the bytes the encoder makes of it: it denotes a header and
entries the encoder can frame, and its digest is that of the framed bytes. -/
def RawBundle.CarriesItsDigest (H : Hashes) (raw : RawBundle) : Prop :=
  ∃ header entries bytes, raw.Denotes header entries ∧
    encodeSourceBundle H header entries = .ok bytes ∧ raw.digest = .str (sha256 H bytes)

/-- **When the two ways in agree.** An accepted parsed bundle is one the decoder of bytes returns
exactly when it carries the digest of its own framing. -/
theorem parsedBundle_decodable_iff {H : Hashes} {raw : RawBundle} {p : ParsedSourceBundle}
    (h : validateParsedSourceBundle H (some raw) = .ok p) :
    (∃ bytes, parseSourceBundle H bytes = .ok p) ↔ raw.CarriesItsDigest H := by
  obtain ⟨hdenotes, hagrees, hdigest⟩ := validateParsedSourceBundle_eq_ok h
  constructor
  · rintro ⟨bytes, hparse⟩
    obtain ⟨-, hencode, hsha⟩ := parseSourceBundle_eq_ok.mp hparse
    exact ⟨p.header, p.entries, bytes, hdenotes, hencode, by rw [hdigest, hsha]⟩
  · rintro ⟨header, entries, bytes, hdenotes', hencode, hsha⟩
    obtain ⟨rfl, rfl⟩ := hdenotes'.unique hdenotes
    rw [hdigest] at hsha
    exact ⟨bytes, parseSourceBundle_eq_ok.mpr ⟨hagrees, hencode, JsValue.str.inj hsha⟩⟩

/-! ### The empty bundle -/

def sampleHeader : SourceBundleHeader where
  repository := ⟨js "acme/api", .int 1, .int 2⟩
  base := ⟨js "main", List.replicate 40 (js "a") |>.flatten,
    js "4b825dc642cb6eb9a060e54bf8d69288fbee4904"⟩
  objectFormat := .sha1
  manifest := ⟨js "\x7b\x7d", .int 2,
    js "sha256:44136fa355b3678a1146ad16f7e8649e94fb4fc21fe77e8310c060f61caaff8a"⟩
  entryCount := .int 0
  totalFileBytes := .int 0
  entriesDigest := js "sha256:e3b0c44298fc1c149afbf4c8996fb92427ae41e4649b934ca495991b7852b855"

def sampleBytes : Bytes := bundleBytes (utf8Encode (compactText sampleHeader.toJson)) []

/-- The two hash functions, at the four byte strings that come up. -/
def sampleHashes : Hashes where
  sha1 := ⟨fun bytes ↦ bigEndian 20
    (if bytes = utf8Encode (js "tree 0") ++ [0] then 0x4b825dc642cb6eb9a060e54bf8d69288fbee4904
      else 0), fun _ ↦ length_bigEndian _ _⟩
  sha256 := ⟨fun bytes ↦ bigEndian 32
    (if bytes = [] then 0xe3b0c44298fc1c149afbf4c8996fb92427ae41e4649b934ca495991b7852b855
      else if bytes = utf8Encode (js "\x7b\x7d") then
        0x44136fa355b3678a1146ad16f7e8649e94fb4fc21fe77e8310c060f61caaff8a
      else if bytes = sampleBytes then
        0xc47a68389d12881c546adcd3f74e28cf4a166ad5f47f40dc830b455b9d625c58
      else 0), fun _ ↦ length_bigEndian _ _⟩

/-- A parsed form of the empty bundle under some digest. -/
def sampleRaw (digest : JsString) : RawBundle := ⟨sampleHeader.toJson, some [], .str digest⟩

def sampleDigest : JsString :=
  js "sha256:c47a68389d12881c546adcd3f74e28cf4a166ad5f47f40dc830b455b9d625c58"

def zeroDigest : JsString := js "sha256:" ++ (List.replicate 64 (js "0")).flatten

private theorem ok_of_toOption {α : Type} {outcome : Except String α} {a : α}
    (h : outcome.toOption = some a) : outcome = .ok a := by
  cases outcome with
  | error => cases h
  | ok b => exact congrArg Except.ok (Option.some.inj h)

/-- What the sample bundle comes to, all of it evaluated. -/
private theorem sample_evaluated :
    (encodeSourceBundle sampleHashes sampleHeader []).toOption = some sampleBytes ∧
      sha256 sampleHashes sampleBytes = sampleDigest ∧
      (validateHeader sampleHashes sampleHeader.toJson).toOption = some sampleHeader ∧
      sha256 sampleHashes [] = sampleHeader.entriesDigest ∧
      (gitTreeOid sampleHashes [] .sha1).toOption = some sampleHeader.base.treeSha := by
  decide +kernel

private theorem sample_encode :
    encodeSourceBundle sampleHashes sampleHeader [] = .ok sampleBytes :=
  ok_of_toOption sample_evaluated.1

private theorem sample_digest : sha256 sampleHashes sampleBytes = sampleDigest :=
  sample_evaluated.2.1

private theorem sample_header :
    validateHeader sampleHashes sampleHeader.toJson = .ok sampleHeader :=
  ok_of_toOption sample_evaluated.2.2.1

/-- Any text of the form of a digest will do. -/
private theorem sample_accepted {digest : JsString} (h : isDigestText digest = true) :
    validateParsedSourceBundle sampleHashes (some (sampleRaw digest)) =
      .ok ⟨sampleHeader, [], digest⟩ := by
  have hentries : sha256 sampleHashes [] = sampleHeader.entriesDigest := sample_evaluated.2.2.2.1
  have htree : gitTreeOid sampleHashes [] .sha1 = .ok sampleHeader.base.treeSha :=
    ok_of_toOption sample_evaluated.2.2.2.2
  have hform : validDigest (.str digest) "parsed bundle digest" = .ok digest :=
    validDigest_eq_ok.mpr ⟨rfl, h⟩
  have hcounts : ([] : List GitTreeEntry).length = count sampleHeader.entryCount ∧
      0 = count sampleHeader.totalFileBytes := by
    decide
  simp only [validateParsedSourceBundle, bind_eq_ok, orThrow_eq_ok, reject_eq_ok, exists_unit,
    pure_eq_ok, not_or, not_not]
  exact ⟨_, rfl, sampleHeader, sample_header, [], rfl, [], rfl, ⟨[], _, 0⟩, rfl,
    ⟨hcounts.1, hcounts.2, hentries⟩, _, htree, rfl, digest, hform, rfl⟩

/-- The empty bundle under its own digest is one the decoder returns. -/
theorem parsedBundle_decodable_sample :
    ∃ bytes, parseSourceBundle sampleHashes bytes = .ok ⟨sampleHeader, [], sampleDigest⟩ :=
  (parsedBundle_decodable_iff (sample_accepted (by decide))).mpr
    ⟨sampleHeader, [], sampleBytes, ⟨sorted_toJson _, rfl⟩, sample_encode,
      congrArg JsValue.str sample_digest.symm⟩

/-- Under the digest of no bundle, the parsed form of the empty bundle is accepted and no bytes
decode to it. -/
theorem parsedBundle_accepted_not_decodable :
    ¬ ∀ (H : Hashes) (raw : RawBundle) (p : ParsedSourceBundle),
      validateParsedSourceBundle H (some raw) = .ok p →
        ∃ bytes, parseSourceBundle H bytes = .ok p := by
  intro hall
  obtain ⟨bytes, hparse⟩ := hall sampleHashes (sampleRaw zeroDigest) _ (sample_accepted (by decide))
  obtain ⟨-, hencode, hdigest⟩ := parseSourceBundle_eq_ok.mp hparse
  obtain rfl : sampleBytes = bytes := Except.ok.inj (sample_encode.symm.trans hencode)
  rw [sample_digest] at hdigest
  revert hdigest
  decide

end ApiMigrator.App.SourceBundle
