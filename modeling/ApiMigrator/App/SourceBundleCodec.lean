import ApiMigrator.App.SourceBundle
import Mathlib.Data.List.GetD

/-!
The source bundle codec is lossless and canonical. The decoder accepts a byte string exactly when
it is what the encoder's framing makes of a header and entries that agree with each other, and then
it returns them; the encoder only ever frames such a header and entries.
-/

set_option autoImplicit false
set_option relaxedAutoImplicit false

namespace ApiMigrator.App.SourceBundle

open Foundation.Text Foundation.Number Foundation.Json Foundation.Outcome Foundation.Pattern
open Foundation.Binary GitTree

/-! ### Pieces of bytes -/

theorem decodeUtf8_eq_ok {bytes : Bytes} {label : String} {s : JsString} :
    decodeUtf8 bytes label = .ok s ↔ bytes = utf8Encode s ∧ isWellFormed s = true := by
  simp only [decodeUtf8, bind_eq_ok, reject_eq_ok, exists_unit, pure_eq_ok, assertValidUnicode,
    rejectUnpaired_eq_ok, not_not]
  constructor
  · rintro ⟨hbytes, hunicode, rfl⟩
    exact ⟨hbytes.symm, hunicode⟩
  · rintro ⟨rfl, hunicode⟩
    have hdecode := utf8Decode_utf8Encode s hunicode
    rw [hdecode]
    exact ⟨rfl, hunicode, rfl⟩

theorem takeBytes_eq_ok {length : ℕ} {label : String} {rest front tail : Bytes} :
    takeBytes length label rest = .ok (front, tail) ↔
      rest = front ++ tail ∧ front.length = length := by
  simp only [takeBytes, bind_eq_ok, reject_eq_ok, exists_unit, pure_eq_ok, not_lt, Prod.mk.injEq]
  constructor
  · rintro ⟨hlength, rfl, rfl⟩
    exact ⟨(List.take_append_drop length rest).symm, List.length_take_of_le hlength⟩
  · rintro ⟨rfl, rfl⟩
    refine ⟨?_, List.take_left, List.drop_left⟩
    rw [List.length_append]
    exact Nat.le_add_right _ _

theorem expectBytes_eq_ok {expected rest tail : Bytes} {label : String} :
    expectBytes expected label rest = .ok tail ↔ rest = expected ++ tail := by
  simp only [expectBytes, bind_eq_ok, Prod.exists, takeBytes_eq_ok, reject_eq_ok, exists_unit,
    pure_eq_ok, not_not]
  constructor
  · rintro ⟨front, _, ⟨rfl, -⟩, rfl, rfl⟩
    rfl
  · rintro rfl
    exact ⟨expected, tail, ⟨rfl, rfl⟩, rfl, rfl⟩

theorem modeOfByte_eq_ok {b : UInt8} {mode : GitFileMode} :
    modeOfByte b = .ok mode ↔ b = modeByte mode := by
  unfold modeOfByte
  split_ifs with h0 h1
  · subst h0
    cases mode <;> simp [modeByte]
  · subst h1
    cases mode <;> simp [modeByte]
  · cases mode <;> simp [modeByte, h0, h1]

/-! ### Entries -/

/-- The fixed-size front of an entry's frame. -/
def entryPrefix (entry : GitTreeEntry) : Bytes :=
  bigEndian 4 (pathKey entry).length ++ modeByte entry.mode :: bigEndian 8 entry.content.length

theorem length_entryPrefix (entry : GitTreeEntry) :
    (entryPrefix entry).length = framePrefixBytes := by
  simp [entryPrefix, framePrefixBytes]

theorem encodeEntry_eq_ok {entry : GitTreeEntry} {frame : Bytes} :
    encodeEntry entry = .ok frame ↔
      validateGitPath entry.path = .ok entry.path ∧ (pathKey entry).length ≠ 0 ∧
        (pathKey entry).length ≤ maxPathBytes ∧ entry.content.length ≤ maxSourceFileBytes ∧
        frame = entryPrefix entry ++ pathKey entry ++ entry.content := by
  simp only [encodeEntry, bind_eq_ok, reject_eq_ok, exists_unit, pure_eq_ok, not_or, not_lt]
  constructor
  · rintro ⟨path, hpath, ⟨hne, hle⟩, hcontent, rfl⟩
    obtain ⟨rfl, -⟩ := validateGitPath_eq_ok hpath
    exact ⟨hpath, hne, hle, hcontent, rfl⟩
  · rintro ⟨hpath, hne, hle, hcontent, rfl⟩
    exact ⟨_, hpath, ⟨hne, hle⟩, hcontent, rfl⟩

def EntryState.push (state : EntryState) (entry : GitTreeEntry) (frame : Bytes) : EntryState where
  entries := state.entries ++ [entry]
  hashed := state.hashed ++ frame
  totalFileBytes := state.totalFileBytes + entry.content.length
  previousPath := some (pathKey entry)

private theorem splitPrefix {front : Bytes} (hlength : front.length = framePrefixBytes) :
    front = bigEndian 4 (readBigEndian (front.take 4)) ++
      front.getD 4 0 :: bigEndian 8 (readBigEndian (front.drop 5)) := by
  have hfour : (front.take 4).length = 4 := by
    rw [List.length_take, hlength]
    rfl
  have height : (front.drop 5).length = 8 := by
    rw [List.length_drop, hlength]
    rfl
  have hhead := bigEndian_readBigEndian (front.take 4)
  have hlast := bigEndian_readBigEndian (front.drop 5)
  rw [hfour] at hhead
  rw [height] at hlast
  have hindex : 4 < front.length := by
    rw [hlength]
    decide
  rw [hhead, hlast, List.getD_eq_getElem _ _ hindex, ← List.drop_eq_getElem_cons hindex,
    List.take_append_drop]

/-- The decoder reads one entry exactly where the encoder has written one that may follow. -/
theorem parseEntry_eq_ok {state state' : EntryState} {bytes rest : Bytes} :
    parseEntry state bytes = .ok (state', rest) ↔
      ∃ entry frame, encodeEntry entry = .ok frame ∧ bytes = frame ++ rest ∧
        (∀ previous ∈ state.previousPath, previous < pathKey entry) ∧
        state.totalFileBytes + entry.content.length ≤ maxSourceTotalBytes ∧
        state' = state.push entry frame := by
  simp only [parseEntry, bind_eq_ok, Prod.exists, takeBytes_eq_ok, reject_eq_ok, exists_unit,
    pure_eq_ok, modeOfByte_eq_ok, decodeUtf8_eq_ok, not_or, not_lt, not_exists, not_and, not_not,
    Prod.mk.injEq]
  constructor
  · rintro ⟨front, _, ⟨rfl, hfront⟩, ⟨hne, hle⟩, mode, hmode, hlimit, pathBytes, _,
      ⟨rfl, hpathLength⟩, path, ⟨rfl, -⟩, _, hpath, horder, content, _, ⟨rfl, hcontentLength⟩,
      htotal, rfl, rfl⟩
    obtain ⟨rfl, -⟩ := validateGitPath_eq_ok hpath
    have hsplit := splitPrefix hfront
    rw [hmode, ← hpathLength, ← hcontentLength] at hsplit
    rw [← hpathLength] at hne hle
    rw [← hcontentLength] at hlimit
    refine ⟨⟨_, mode, content⟩, front ++ utf8Encode _ ++ content, ?_, ?_, horder, htotal, rfl⟩
    · exact encodeEntry_eq_ok.mpr ⟨hpath, hne, hle, hlimit, by rw [hsplit]; rfl⟩
    · simp only [List.append_assoc]
  · rintro ⟨entry, frame, hencode, rfl, horder, htotal, rfl⟩
    obtain ⟨hpath, hne, hle, hcontent, rfl⟩ := encodeEntry_eq_ok.mp hencode
    have hpathBound : (pathKey entry).length < 256 ^ 4 := hle.trans_lt (by decide)
    have hcontentBound : entry.content.length < 256 ^ 8 := hcontent.trans_lt (by decide)
    have htake : (entryPrefix entry).take 4 = bigEndian 4 (pathKey entry).length :=
      List.take_left' (length_bigEndian 4 _)
    have hdrop : (entryPrefix entry).drop 4 =
        modeByte entry.mode :: bigEndian 8 entry.content.length :=
      List.drop_left' (length_bigEndian 4 _)
    have hlast : (entryPrefix entry).drop 5 = bigEndian 8 entry.content.length := by
      rw [← List.drop_drop (i := 1) (j := 4), hdrop]
      rfl
    have hmode : (entryPrefix entry).getD 4 0 = modeByte entry.mode := by
      rw [List.getD_eq_getElem?_getD, ← List.head?_drop, hdrop]
      rfl
    refine ⟨entryPrefix entry, pathKey entry ++ entry.content ++ rest,
      ⟨by simp only [List.append_assoc], length_entryPrefix entry⟩, ?_, entry.mode, hmode, ?_,
      pathKey entry, entry.content ++ rest, ⟨by rw [List.append_assoc], ?_⟩, entry.path,
      ⟨rfl, (validateGitPath_eq_ok hpath).2.2.1⟩, entry.path, hpath, horder, entry.content, rest,
      ⟨rfl, ?_⟩, htotal, rfl, rfl⟩
    · rw [htake, readBigEndian_bigEndian hpathBound]
      exact ⟨hne, hle⟩
    · rw [hlast, readBigEndian_bigEndian hcontentBound]
      exact hcontent
    · rw [htake, readBigEndian_bigEndian hpathBound]
    · rw [hlast, readBigEndian_bigEndian hcontentBound]

theorem encodeFrames_cons_eq_ok {entry : GitTreeEntry} {entries : List GitTreeEntry} {total : ℕ}
    {frames : List Bytes} {total' : ℕ} :
    encodeFrames (entry :: entries) total = .ok (frames, total') ↔
      ∃ frame rest, frames = frame :: rest ∧ encodeEntry entry = .ok frame ∧
        total + entry.content.length ≤ maxSourceTotalBytes ∧
        encodeFrames entries (total + entry.content.length) = .ok (rest, total') := by
  simp only [encodeFrames, bind_eq_ok, reject_eq_ok, exists_unit, pure_eq_ok, not_lt, Prod.exists,
    Prod.mk.injEq]
  constructor
  · rintro ⟨frame, hframe, hle, rest, _, hrest, rfl, rfl⟩
    exact ⟨frame, rest, rfl, hframe, hle, hrest⟩
  · rintro ⟨frame, rest, rfl, hframe, hle, hrest⟩
    exact ⟨frame, hframe, hle, rest, total', hrest, rfl, rfl⟩

/-- The keys of the entries still to come, after the path read last, are in strict byte order. -/
def Ordered (previous : Option Bytes) (entries : List GitTreeEntry) : Prop :=
  (previous.toList ++ entries.map pathKey).IsChain (· < ·)

theorem ordered_cons {previous : Option Bytes} {entry : GitTreeEntry}
    {entries : List GitTreeEntry} :
    Ordered previous (entry :: entries) ↔
      (∀ p ∈ previous, p < pathKey entry) ∧ Ordered (some (pathKey entry)) entries := by
  cases previous with
  | none => simp [Ordered]
  | some p => simp [Ordered]

/-- What the loop has read is what the encoder frames. -/
theorem parseEntries_sound {n : ℕ} {state state' : EntryState} {bytes rest : Bytes}
    (h : parseEntries n state bytes = .ok (state', rest)) :
    ∃ entries frames, entries.length = n ∧ Ordered state.previousPath entries ∧
      encodeFrames entries state.totalFileBytes = .ok (frames, state'.totalFileBytes) ∧
      bytes = frames.flatten ++ rest ∧ state'.entries = state.entries ++ entries ∧
      state'.hashed = state.hashed ++ frames.flatten := by
  induction n generalizing state bytes with
  | zero =>
    cases h
    refine ⟨[], [], rfl, ?_, rfl, rfl, by rw [List.append_nil], by simp⟩
    cases hprevious : state'.previousPath <;> simp [Ordered]
  | succ n ih =>
    simp only [parseEntries, bind_eq_ok, Prod.exists, parseEntry_eq_ok] at h
    obtain ⟨_, _, ⟨entry, frame, hencode, rfl, horder, htotal, rfl⟩, h⟩ := h
    obtain ⟨entries, frames, rfl, hordered, hframes, rfl, hentries, hhashed⟩ := ih h
    refine ⟨entry :: entries, frame :: frames, rfl, ordered_cons.mpr ⟨horder, hordered⟩,
      encodeFrames_cons_eq_ok.mpr ⟨frame, frames, rfl, hencode, htotal, hframes⟩, ?_, ?_, ?_⟩
    · rw [List.flatten_cons, List.append_assoc]
    · rw [hentries, EntryState.push, List.append_assoc, List.singleton_append]
    · rw [hhashed, EntryState.push, List.flatten_cons, List.append_assoc]

/-- Whatever the encoder frames in order, the loop reads back. -/
theorem parseEntries_complete {entries : List GitTreeEntry} {frames : List Bytes}
    {state : EntryState} {total : ℕ}
    (hframes : encodeFrames entries state.totalFileBytes = .ok (frames, total))
    (hordered : Ordered state.previousPath entries) (rest : Bytes) :
    ∃ state', parseEntries entries.length state (frames.flatten ++ rest) = .ok (state', rest) ∧
      state'.entries = state.entries ++ entries ∧
      state'.hashed = state.hashed ++ frames.flatten ∧ state'.totalFileBytes = total := by
  induction entries generalizing state frames with
  | nil =>
    cases hframes
    exact ⟨state, rfl, by simp, by simp, rfl⟩
  | cons entry entries ih =>
    obtain ⟨frame, frames, rfl, hencode, htotal, hframes⟩ := encodeFrames_cons_eq_ok.mp hframes
    obtain ⟨horder, hordered⟩ := ordered_cons.mp hordered
    have hrest : encodeFrames entries (state.push entry frame).totalFileBytes =
        .ok (frames, total) := hframes
    obtain ⟨state', hparse, hentries, hhashed, htotal'⟩ := ih hrest hordered
    refine ⟨state', ?_, ?_, ?_, htotal'⟩
    · rw [List.length_cons, parseEntries, List.flatten_cons, List.append_assoc,
        parseEntry_eq_ok.mpr ⟨entry, frame, hencode, rfl, horder, htotal, rfl⟩, ok_bind]
      exact hparse
    · rw [hentries, EntryState.push, List.append_assoc, List.singleton_append]
    · rw [hhashed, EntryState.push, List.flatten_cons, List.append_assoc]

/-! ### Bundles -/

/-- A header and entries that agree: valid, in strict byte order, with the counts, the digest and
the tree id of the header. -/
structure Agrees (H : Hashes) (header : SourceBundleHeader) (entries : List GitTreeEntry) :
    Prop where
  valid : header.Valid H
  ordered : Ordered none entries
  entryCount : entries.length = count header.entryCount
  tree : gitTreeOid H entries header.objectFormat = .ok header.base.treeSha
  encoded : ∃ encoded, encodeEntries H entries = .ok encoded ∧
    encoded.totalFileBytes = count header.totalFileBytes ∧ encoded.digest = header.entriesDigest

theorem encodeHeader_eq_ok {header : SourceBundleHeader} {headerBytes : Bytes} :
    encodeHeader header = .ok headerBytes ↔
      IJson header.toJson ∧ headerBytes = utf8Encode (compactText header.toJson) ∧
        headerBytes.length ≠ 0 ∧ headerBytes.length ≤ maxHeaderBytes := by
  have hdistinct : DistinctKeys header.toJson := header.distinctKeys_toJson
  simp only [encodeHeader, bind_eq_ok, canonicalJson_eq_ok hdistinct, sorted_toJson, reject_eq_ok,
    exists_unit, pure_eq_ok, not_or, not_lt]
  constructor
  · rintro ⟨_, ⟨hdata, rfl⟩, ⟨hne, hle⟩, rfl⟩
    exact ⟨hdata, rfl, hne, hle⟩
  · rintro ⟨hdata, rfl, hne, hle⟩
    exact ⟨_, ⟨hdata, rfl⟩, ⟨hne, hle⟩, rfl⟩

theorem encodeSourceBundle_eq_ok {H : Hashes} {header : SourceBundleHeader}
    {entries : List GitTreeEntry} {bytes : Bytes} :
    encodeSourceBundle H header entries = .ok bytes ↔
      ∃ frames total headerBytes, encodeFrames entries 0 = .ok (frames, total) ∧
        encodeHeader header = .ok headerBytes ∧ bytes = bundleBytes headerBytes frames ∧
        bytes.length ≤ maxBundleBytes := by
  simp only [encodeSourceBundle, encodeEntries, encodeBundle, bind_eq_ok, Prod.exists,
    reject_eq_ok, exists_unit, pure_eq_ok, not_lt]
  constructor
  · rintro ⟨_, ⟨frames, total, hframes, rfl⟩, headerBytes, hheader, hlength, rfl⟩
    exact ⟨frames, total, headerBytes, hframes, hheader, rfl, hlength⟩
  · rintro ⟨frames, total, headerBytes, hframes, hheader, rfl, hlength⟩
    exact ⟨_, ⟨frames, total, hframes, rfl⟩, headerBytes, hheader, hlength, rfl⟩

theorem encodeEntries_eq_ok {H : Hashes} {entries : List GitTreeEntry} {encoded : EncodedEntries} :
    encodeEntries H entries = .ok encoded ↔
      ∃ frames total, encodeFrames entries 0 = .ok (frames, total) ∧
        encoded = ⟨frames, sha256 H frames.flatten, total⟩ := by
  simp only [encodeEntries, bind_eq_ok, Prod.exists, pure_eq_ok, eq_comm (a := encoded)]

private theorem readHeader {H : Hashes} {headerBytes : Bytes} {text : JsString} {json : JsValue}
    {header : SourceBundleHeader} (htext : headerBytes = utf8Encode text)
    (hjson : parseCanonicalJson text "source bundle header" = .ok json)
    (hheader : validateHeader H json = .ok header) :
    header.Valid H ∧ IJson header.toJson ∧ headerBytes = utf8Encode (compactText header.toJson) := by
  obtain ⟨hdata, hsorted, rfl⟩ := parseCanonicalJson_eq_ok.mp hjson
  obtain ⟨hvalue, hvalid⟩ := validateHeader_eq_ok hheader
  obtain rfl : json = header.toJson := hsorted.symm.trans hvalue
  exact ⟨hvalid, hdata, htext⟩

/-- **What the decoder accepts**: the encoder's bytes for a header and entries that agree. -/
theorem parseSourceBundle_eq_ok {H : Hashes} {bytes : Bytes} {p : ParsedSourceBundle} :
    parseSourceBundle H bytes = .ok p ↔
      Agrees H p.header p.entries ∧ encodeSourceBundle H p.header p.entries = .ok bytes ∧
        p.digest = sha256 H bytes := by
  simp only [parseSourceBundle, bind_eq_ok, Prod.exists, takeBytes_eq_ok, expectBytes_eq_ok,
    decodeUtf8_eq_ok, reject_eq_ok, exists_unit, pure_eq_ok, not_or, not_lt, not_not]
  constructor
  · rintro ⟨⟨hlow, hhigh⟩, rest, rfl, ⟨hne, hle⟩, headerBytes, afterHeader, ⟨hsplit, hlength⟩, text,
      ⟨htext, -⟩, json, hjson, header, hheader, state, afterEntries, hentries, _, rfl, rfl,
      ⟨hcount, htotal⟩, hdigest, tree, htree, rfl, rfl⟩
    obtain ⟨entries, frames, hn, hordered, hframes, rfl, hstate, hhashed⟩ :=
      parseEntries_sound hentries
    obtain ⟨hvalid, hdata, hheaderBytes⟩ := readHeader htext hjson hheader
    obtain rfl : state.entries = entries := hstate
    rw [show state.hashed = frames.flatten from hhashed] at hdigest
    have hfour : (rest.take 4).length = 4 := by
      rw [List.length_append] at hlow
      exact List.length_take_of_le (by omega)
    have hstarts : rest.take 4 = bigEndian 4 headerBytes.length := by
      have hread := bigEndian_readBigEndian (rest.take 4)
      rw [hfour, ← hlength] at hread
      exact hread.symm
    have hrest : rest = bigEndian 4 headerBytes.length ++ headerBytes ++ frames.flatten ++
        footer := by
      rw [← List.take_append_drop 4 rest, hsplit, hstarts]
      simp only [List.append_assoc, List.append_nil]
    have hbundle : magic ++ rest = bundleBytes headerBytes frames := by
      rw [hrest, bundleBytes]
      simp only [List.append_assoc]
    refine ⟨⟨hvalid, hordered, hcount, htree, _,
      encodeEntries_eq_ok.mpr ⟨frames, _, hframes, rfl⟩, htotal, hdigest⟩,
      encodeSourceBundle_eq_ok.mpr ⟨frames, _, headerBytes, hframes, encodeHeader_eq_ok.mpr
        ⟨hdata, hheaderBytes, ?_, ?_⟩, hbundle, hhigh⟩, rfl⟩
    · rwa [hlength]
    · rwa [hlength]
  · rintro ⟨⟨hvalid, hordered, hcount, htree, encoded, hencoded, htotal, hdigest⟩, hbytes, hsha⟩
    obtain ⟨frames, total, hframes, rfl⟩ := encodeEntries_eq_ok.mp hencoded
    obtain ⟨frames', total', headerBytes, hframes', hheader, rfl, hhigh⟩ :=
      encodeSourceBundle_eq_ok.mp hbytes
    rw [hframes] at hframes'
    obtain ⟨rfl, rfl⟩ := Prod.mk.inj (Except.ok.inj hframes')
    obtain ⟨hdata, hheaderBytes, hne, hle⟩ := encodeHeader_eq_ok.mp hheader
    have hstart : encodeFrames p.entries EntryState.start.totalFileBytes =
        .ok (frames, total) := hframes
    obtain ⟨state, hparse, hentries, hhashed, hstateTotal⟩ :=
      parseEntries_complete hstart hordered footer
    have hread : readBigEndian ((bigEndian 4 headerBytes.length ++ headerBytes ++ frames.flatten ++
        footer).take 4) = headerBytes.length := by
      rw [List.append_assoc, List.append_assoc, List.take_left' (length_bigEndian 4 _)]
      exact readBigEndian_bigEndian (hle.trans_lt (by decide))
    have hdrop : (bigEndian 4 headerBytes.length ++ headerBytes ++ frames.flatten ++
        footer).drop 4 = headerBytes ++ (frames.flatten ++ footer) := by
      rw [List.append_assoc, List.append_assoc, List.drop_left' (length_bigEndian 4 _)]
    refine ⟨⟨?_, hhigh⟩, bigEndian 4 headerBytes.length ++ headerBytes ++ frames.flatten ++ footer,
      by simp only [bundleBytes, List.append_assoc], ?_, headerBytes, frames.flatten ++ footer,
      ⟨hdrop, hread.symm⟩, compactText p.header.toJson,
      ⟨hheaderBytes, isWellFormed_compactText hdata⟩, p.header.toJson,
      parseCanonicalJson_eq_ok.mpr ⟨hdata, sorted_toJson _, rfl⟩, p.header, hvalid.validate, state,
      footer, ?_, [], by rw [List.append_nil], rfl, ?_, ?_, p.header.base.treeSha, ?_, rfl, ?_⟩
    · simp only [bundleBytes, List.length_append, length_bigEndian]
      omega
    · rw [hread]
      exact ⟨hne, hle⟩
    · rw [← hcount]
      exact hparse
    · rw [hentries, hstateTotal]
      exact ⟨hcount, htotal⟩
    · rw [hhashed]
      exact hdigest
    · rw [hentries]
      exact htree
    · rw [hentries, ← hsha]
      rfl

/-! ### What the encoder frames -/

instance : Std.Total pathLe := ⟨fun left right ↦ List.le_total (pathKey left) (pathKey right)⟩

instance : IsTrans GitTreeEntry pathLe := ⟨fun _ _ _ h₁ h₂ ↦ List.le_trans h₁ h₂⟩

theorem parseIndexRecord_wellFormed {record : Bytes} {format : GitObjectFormat}
    {index : IndexRecord} (h : parseIndexRecord record format = .ok index) :
    isWellFormed index.path = true := by
  simp only [parseIndexRecord, bind_eq_ok, exists_unit] at h
  obtain ⟨-, h⟩ := h
  split at h
  · simp only [bind_eq_ok, pure_eq_ok] at h
    obtain ⟨_, -, _, -, _, -, _, -, _, -, _, -, path, hpath, rfl⟩ := h
    obtain ⟨rfl, -, hunicode, -⟩ := validateGitPath_eq_ok hpath
    exact hunicode
  · cases h

/-- The records give one entry each, with well-formed and distinct paths. -/
theorem readRecords_eq_ok {H : Hashes} {checkout : Checkout} {format : GitObjectFormat}
    {records : List Bytes} {seen : List JsString} {total : ℕ} {entries : List GitTreeEntry}
    (h : readRecords H checkout format records seen total = .ok entries) :
    entries.length = records.length ∧ (∀ e ∈ entries, isWellFormed e.path = true) ∧
      (entries.map GitTreeEntry.path).Nodup ∧ ∀ e ∈ entries, e.path ∉ seen := by
  induction records generalizing seen total entries with
  | nil =>
    cases h
    exact ⟨rfl, by simp, List.nodup_nil, by simp⟩
  | cons record records ih =>
    simp only [readRecords, bind_eq_ok, reject_eq_ok, exists_unit, pure_eq_ok] at h
    obtain ⟨index, hindex, hseen, content, -, -, -, rest, hrest, rfl⟩ := h
    obtain ⟨hlength, hunicode, hnodup, hfresh⟩ := ih hrest
    refine ⟨by rw [List.length_cons, List.length_cons, hlength], ?_, ?_, ?_⟩
    · exact List.forall_mem_cons.mpr ⟨parseIndexRecord_wellFormed hindex, hunicode⟩
    · rw [List.map_cons, List.nodup_cons]
      refine ⟨fun hmem ↦ ?_, hnodup⟩
      obtain ⟨e, he, hpath⟩ := List.mem_map.mp hmem
      exact hfresh e he (hpath ▸ List.mem_cons_self)
    · exact List.forall_mem_cons.mpr ⟨hseen, fun e he hmem ↦
        hfresh e he (List.mem_cons_of_mem _ hmem)⟩

/-- Sorting entries with distinct well-formed paths puts them in strict byte order. -/
theorem ordered_insertionSort {entries : List GitTreeEntry}
    (hunicode : ∀ e ∈ entries, isWellFormed e.path = true)
    (hnodup : (entries.map GitTreeEntry.path).Nodup) :
    Ordered none (entries.insertionSort pathLe) := by
  have hperm := List.perm_insertionSort pathLe entries
  have hdistinct : (entries.insertionSort pathLe).Pairwise fun e e' ↦ e.path ≠ e'.path :=
    List.pairwise_map.mp ((hperm.map GitTreeEntry.path).nodup_iff.mpr hnodup)
  have hsorted := List.pairwise_insertionSort pathLe entries
  have hstrict : (entries.insertionSort pathLe).Pairwise fun e e' ↦ pathKey e < pathKey e' := by
    refine (hsorted.and hdistinct).imp_of_mem fun he he' ⟨hle, hne⟩ ↦ ?_
    refine Std.lt_of_le_of_ne hle fun hkey ↦ hne ?_
    exact utf8Encode_injective (hunicode _ (hperm.mem_iff.mp he))
      (hunicode _ (hperm.mem_iff.mp he')) hkey
  exact (List.pairwise_map.mpr hstrict).isChain

theorem readTrackedEntries_eq_ok {H : Hashes} {checkout : Checkout} {format : GitObjectFormat}
    {entries : List GitTreeEntry} (h : readTrackedEntries H checkout format = .ok entries) :
    Ordered none entries ∧ entries.length ≤ maxSourceEntries := by
  simp only [readTrackedEntries, bind_eq_ok, reject_eq_ok, exists_unit, pure_eq_ok, not_lt] at h
  obtain ⟨records, -, hcount, unsorted, hread, rfl⟩ := h
  obtain ⟨hlength, hunicode, hnodup, -⟩ := readRecords_eq_ok hread
  refine ⟨ordered_insertionSort hunicode hnodup, ?_⟩
  rwa [List.length_insertionSort, hlength]

theorem encodeFrames_total_le {entries : List GitTreeEntry} {total total' : ℕ}
    {frames : List Bytes} (h : encodeFrames entries total = .ok (frames, total'))
    (htotal : total ≤ maxSourceTotalBytes) : total' ≤ maxSourceTotalBytes := by
  induction entries generalizing total frames with
  | nil =>
    cases h
    exact htotal
  | cons entry entries ih =>
    obtain ⟨_, _, _, -, hle, hrest⟩ := encodeFrames_cons_eq_ok.mp h
    exact ih hrest hle

private theorem isSafe_natCast {n : ℕ} (hn : n ≤ maxSourceTotalBytes) : isSafe (n : ℤ) = true := by
  unfold maxSourceTotalBytes at hn
  unfold isSafe maxSafeInteger
  rw [decide_eq_true_eq]
  omega

private theorem safeInteger_natCast {n : ℕ} (hn : n ≤ maxSourceTotalBytes) :
    safeInteger (.int n) = some (n : ℤ) := by
  rw [safeInteger, if_pos (isSafe_natCast hn)]

private theorem positiveInteger_natCast {n : ℕ} (hn : n ≤ maxSourceTotalBytes) (label : String) :
    positiveInteger (.num (.int n)) label true = .ok (.int n) := by
  have hnot : ¬ (n : ℤ) < 0 := by omega
  simp only [positiveInteger, safeInteger_natCast hn, orThrow, ok_bind, if_true, reject,
    if_neg hnot]
  rfl

private theorem count_natCast {n : ℕ} (hn : n ≤ maxSourceTotalBytes) : count (.int n) = n := by
  rw [count, safeInteger_natCast hn, Option.getD_some, Int.toNat_natCast]

theorem validateBase_valid {value : JsValue} {base : BaseIdentity}
    (h : validateBase value = .ok base) : base.Valid := by
  simp only [validateBase, bind_eq_ok, record_eq_ok, exists_unit] at h
  obtain ⟨ms, rfl, -, hfields⟩ := h
  obtain ⟨hbranch, hsha, htree⟩ := baseOf_eq_ok hfields
  rwa [hbranch, hsha, htree] at hfields

theorem validateCanonicalManifest_length {value : JsValue} {text : JsString}
    (h : validateCanonicalManifest value = .ok text) :
    byteLength text ≤ maxCanonicalManifestBytes := by
  obtain rfl := validateCanonicalManifest_eq_ok h
  simp only [validateCanonicalManifest, bind_eq_ok, reject_eq_ok, exists_unit, not_or, not_lt] at h
  exact h.1.2

private theorem manifest_valid {H : Hashes} {value : JsValue} {text : JsString}
    (h : validateCanonicalManifest value = .ok text) :
    ManifestIdentity.Valid H
      ⟨text, .int (byteLength text), sha256 H (utf8Encode text)⟩ := by
  have hlength : byteLength text ≤ maxSourceTotalBytes :=
    (validateCanonicalManifest_length h).trans (by decide)
  obtain rfl := validateCanonicalManifest_eq_ok h
  have hdigest : validDigest (.str (sha256 H (utf8Encode text))) "manifest digest" =
      .ok (sha256 H (utf8Encode text)) :=
    validDigest_eq_ok.mpr ⟨rfl, isDigestText_sha256 H _⟩
  simp only [ManifestIdentity.Valid, manifestOf, h, ok_bind,
    positiveInteger_natCast hlength, hdigest, bind_eq_ok, reject_eq_ok, exists_unit, pure_eq_ok]
  refine ⟨?_, trivial⟩
  simp [safeInteger_natCast hlength]

/-- The encoder frames a header and entries that agree. -/
theorem createSourceBundle_eq_ok {H : Hashes} {checkout : Checkout}
    {input : CreateSourceBundleInput} {r : SourceBundleRecord}
    (h : createSourceBundle H checkout input = .ok r) :
    ∃ entries, readTrackedEntries H checkout r.header.objectFormat = .ok entries ∧
      Agrees H r.header entries ∧ encodeSourceBundle H r.header entries = .ok r.bytes ∧
      r.digest = sha256 H r.bytes := by
  simp only [createSourceBundle, bind_eq_ok, reject_eq_ok, exists_unit, pure_eq_ok, not_not] at h
  obtain ⟨repository, hrepository, base, hbase, manifestJson, hmanifest, -, format, hformat,
    entries, hentries, tree, htree, rfl, encoded, hencoded, bytes, hbytes, rfl⟩ := h
  obtain ⟨hordered, hcount⟩ := readTrackedEntries_eq_ok hentries
  obtain ⟨frames, total, hframes, rfl⟩ := encodeEntries_eq_ok.mp hencoded
  have htotal : total ≤ maxSourceTotalBytes := encodeFrames_total_le hframes (Nat.zero_le _)
  have hcount' : entries.length ≤ maxSourceTotalBytes := hcount.trans (by decide)
  refine ⟨entries, hentries, ⟨⟨(validateRepository_eq_ok hrepository).2, validateBase_valid hbase,
    hformat, manifest_valid hmanifest, positiveInteger_natCast hcount' _,
    positiveInteger_natCast htotal _, ?_, ?_, isDigestText_sha256 H _⟩, hordered, ?_, htree, _,
    hencoded, ?_, rfl⟩, ?_, rfl⟩
  · simpa only [count_natCast hcount'] using hcount
  · simpa only [count_natCast htotal] using htotal
  · exact (count_natCast hcount').symm
  · exact (count_natCast htotal).symm
  · rw [encodeSourceBundle, hencoded]
    exact hbytes

/-- **The codec is lossless and canonical.** What the encoder returns for a checkout parses back
to the header it returned, the tracked entries in strict byte order and the digest of the bytes;
and any accepted byte string is the encoder's framing of what it parses to, so that no two of them
parse to the same header and entries. -/
theorem sourceBundle_codec (H : Hashes) :
    (∀ checkout input r, createSourceBundle H checkout input = .ok r →
      ∃ entries, readTrackedEntries H checkout r.header.objectFormat = .ok entries ∧
        entries.Pairwise (fun e e' ↦ pathKey e < pathKey e') ∧
        parseSourceBundle H r.bytes = .ok ⟨r.header, entries, r.digest⟩ ∧
        r.digest = sha256 H r.bytes) ∧
    (∀ bytes p, parseSourceBundle H bytes = .ok p →
      encodeSourceBundle H p.header p.entries = .ok bytes ∧ p.digest = sha256 H bytes) ∧
    (∀ bytes bytes' p p', parseSourceBundle H bytes = .ok p → parseSourceBundle H bytes' = .ok p' →
      p.header = p'.header → p.entries = p'.entries → bytes = bytes') := by
  refine ⟨?_, ?_, ?_⟩
  · intro checkout input r hcreate
    obtain ⟨entries, hentries, hagrees, hencode, hdigest⟩ := createSourceBundle_eq_ok hcreate
    refine ⟨entries, hentries, ?_, parseSourceBundle_eq_ok.mpr ⟨hagrees, hencode, hdigest⟩, hdigest⟩
    exact List.pairwise_map.mp (List.isChain_iff_pairwise.mp hagrees.ordered)
  · intro bytes p hparse
    exact (parseSourceBundle_eq_ok.mp hparse).2
  · intro bytes bytes' p p' hparse hparse' hheader hentries
    obtain ⟨-, hencode, -⟩ := parseSourceBundle_eq_ok.mp hparse
    obtain ⟨-, hencode', -⟩ := parseSourceBundle_eq_ok.mp hparse'
    rw [hheader, hentries, hencode'] at hencode
    exact (Except.ok.inj hencode).symm

end ApiMigrator.App.SourceBundle
