import ApiMigrator.App.RunnerEvidence
import ApiMigrator.Foundation.Base64
import ApiMigrator.Foundation.JsonSize
import Mathlib.Data.List.Perm.Basic

/-!
`runner-key-registry.ts`: the key that attests a runner's evidence is selected from a registry in
one pass, which reads every entry, refuses duplicates and keeps the active entry of the reviewed
context. What the pass returns depends on the entries of the registry, not on their order.
-/

set_option autoImplicit false
set_option relaxedAutoImplicit false

namespace ApiMigrator.App.RunnerKeyRegistry

open Foundation.Text Foundation.Number Foundation.Json Foundation.Outcome Foundation.Pattern
open Foundation.Binary Foundation.Base64 PublicationRunner RunnerEvidence
open CanonicalJson (canonicalJson parseCanonicalJson parseCanonicalJson_eq_ok)
open SourceBundle (RepositoryIdentity field sha256 isSchemaVersion)

/-- What `node:crypto` does with public keys. A key that does not parse or cannot be exported is
none. -/
structure PublicKeys (PublicKey : Type) where
  createPublicKey : JsString → Option PublicKey
  spkiPem : PublicKey → JsString
  spkiDer : PublicKey → Bytes
  asymmetricKeyType : PublicKey → JsString

variable {PublicKey : Type}

structure RunnerAttestationTrust where
  keyId : JsString
  publicKeyPem : JsString
  fingerprint : JsString
  validFrom : ℕ
  validUntil : ℕ
  revokedAt : Option ℕ
  deriving DecidableEq

structure RunnerKeyEntry extends RunnerAttestationTrust where
  pilotId : JsString
  repository : RepositoryIdentity
  deriving DecidableEq

structure RunnerKeySelection where
  entry : RunnerKeyEntry
  trust : RunnerAttestationTrust
  trustDigest : JsString
  deriving DecidableEq

def maxRegistryBytes : ℤ := 262144

def unavailable : String := "trust_unavailable"

/-! ### The trust of an entry -/

def trustKeys : List String :=
  ["keyId", "algorithm", "publicKeyPem", "fingerprint", "validFrom", "validUntil", "revokedAt"]

def trustFields (raw : List Member) : JsValue :=
  .obj (trustKeys.map fun key ↦ (js key, field raw key))

def boundedMultilineString (value : JsValue) (label : String) (maxBytes : ℕ) :
    Except String JsString :=
  match value with
  | .str s => do
    reject (s = [] ∨ maxBytes < byteLength s) s!"{label} is invalid"
    let _ ← canonicalJson value
    return s
  | _ => .error s!"{label} is invalid"

def identifier (value : JsValue) (label : String) : Except String JsString := do
  let parsed ← boundedString value label 128
  reject (isSignerIdentifier parsed = false) s!"{label} is invalid"
  return parsed

def revocation (value : JsValue) : Except String (Option ℕ) :=
  match value with
  | .null => .ok none
  | value => some <$> timestamp value "runner attestation key revocation"

def validateAttestationTrust (P : Platform) (keys : PublicKeys PublicKey) (value : JsValue) :
    Except String RunnerAttestationTrust := do
  let root ← record value "runner attestation trust"
  exactKeys root ["algorithm", "fingerprint", "keyId", "publicKeyPem", "revokedAt", "validFrom",
    "validUntil"] "runner attestation trust"
  reject (isText (field root "algorithm") "Ed25519" = false)
    "Runner attestation key algorithm is unsupported"
  let validFrom ← timestamp (field root "validFrom") "runner attestation key validFrom"
  let validUntil ← timestamp (field root "validUntil") "runner attestation key validUntil"
  reject (validUntil ≤ validFrom) "Runner attestation key validity window is empty"
  let revokedAt ← revocation (field root "revokedAt")
  let publicKeyPem ←
    boundedMultilineString (field root "publicKeyPem") "runner attestation public key" 16384
  let publicKey ← orThrow (keys.createPublicKey publicKeyPem)
    "Runner attestation public key must be canonical Ed25519 SPKI PEM"
  reject (publicKeyPem ≠ keys.spkiPem publicKey ∨
    keys.asymmetricKeyType publicKey ≠ js "ed25519")
    "Runner attestation public key must be canonical Ed25519 SPKI PEM"
  let fingerprint ← digest (field root "fingerprint") "runner attestation key fingerprint"
  reject (fingerprint ≠ sha256 P.hashes (keys.spkiDer publicKey))
    "Runner attestation key fingerprint does not match"
  let keyId ← identifier (field root "keyId") "runner attestation key id"
  return { keyId, publicKeyPem, fingerprint, validFrom, validUntil, revokedAt }

/-! ### Entries -/

def exactRecord (value : JsValue) (fields : List String) : Except String (List Member) :=
  match value with
  | .obj ms => do
    reject (ms.length ≠ fields.length ∨ ∃ m ∈ ms, m.1 ∉ fields.map js) unavailable
    return ms
  | _ => .error unavailable

def pilotOf (value : JsValue) : Except String JsString :=
  match value with
  | .str s => do
    reject (isPilotId s = false) unavailable
    return s
  | _ => .error unavailable

def slugOf (value : JsValue) : Except String JsString :=
  match value with
  | .str s => do
    reject (140 < s.length ∨ s ≠ asciiLower s) unavailable
    validateRepositorySlug (.str s)
  | _ => .error unavailable

def idOf (value : JsValue) : Except String JsNumber :=
  match value with
  | .num n => do
    let i ← orThrow (safeInteger n) unavailable
    reject (i ≤ 0) unavailable
    return n
  | _ => .error unavailable

/-- What the loop of `selectRunnerKey` reads of one value. -/
def readEntry (P : Platform) (keys : PublicKeys PublicKey) (value : JsValue) :
    Except String RunnerKeyEntry := do
  let raw ← exactRecord value ("pilotId" :: "repository" :: trustKeys)
  let pilotId ← pilotOf (field raw "pilotId")
  let repository ← exactRecord (field raw "repository") ["slug", "id", "ownerId"]
  let slug ← slugOf (field repository "slug")
  let id ← idOf (field repository "id")
  let ownerId ← idOf (field repository "ownerId")
  let trust ← validateAttestationTrust P keys (trustFields raw)
  return { trust with pilotId, repository := { slug, id, ownerId } }

def timeOrNull : Option ℕ → JsValue
  | none => .null
  | some t => .num (.int t)

def RunnerKeyEntry.json (entry : RunnerKeyEntry) : JsValue :=
  .obj [
    (js "algorithm", .str (js "Ed25519")),
    (js "fingerprint", .str entry.fingerprint),
    (js "keyId", .str entry.keyId),
    (js "pilotId", .str entry.pilotId),
    (js "publicKeyPem", .str entry.publicKeyPem),
    (js "repository", entry.repository.toJson),
    (js "revokedAt", timeOrNull entry.revokedAt),
    (js "validFrom", .num (.int entry.validFrom)),
    (js "validUntil", .num (.int entry.validUntil))]

/-! ### The pass -/

/-- The entry is unrevoked and valid. -/
def Active (now : ℤ) (entry : RunnerKeyEntry) : Prop :=
  entry.revokedAt = none ∧ (entry.validFrom : ℤ) ≤ now ∧ now < entry.validUntil

instance (now : ℤ) : DecidablePred (Active now) := fun entry ↦
  inferInstanceAs (Decidable (entry.revokedAt = none ∧ (entry.validFrom : ℤ) ≤ now ∧
    now < entry.validUntil))

/-- The entry is of the pilot and the repository of a reviewed context. -/
def Expected (context : RunnerEvidenceContext) (entry : RunnerKeyEntry) : Prop :=
  entry.pilotId = context.plan.plan.subject.pilotId ∧
    entry.repository.slug = context.source.repository.slug ∧
    entry.repository.id = context.source.repository.id ∧
    entry.repository.ownerId = context.source.repository.ownerId

instance (context : RunnerEvidenceContext) : DecidablePred (Expected context) := fun entry ↦
  inferInstanceAs (Decidable (entry.pilotId = context.plan.plan.subject.pilotId ∧
    entry.repository.slug = context.source.repository.slug ∧
    entry.repository.id = context.source.repository.id ∧
    entry.repository.ownerId = context.source.repository.ownerId))

/-- `JSON.stringify([key.pilotId, slug, key.repository.id, key.repository.ownerId])` -/
def scopeText (entry : RunnerKeyEntry) : JsString :=
  compactText (.arr [.str entry.pilotId, .str entry.repository.slug, .num entry.repository.id,
    .num entry.repository.ownerId])

/-- The sets that the pass fills, and the entry it has kept. -/
structure Pass where
  ids : List JsString
  fingerprints : List JsString
  activeScopes : List JsString
  selected : Option RunnerKeyEntry

def Pass.start : Pass := ⟨[], [], [], none⟩

/-- One entry of the pass, after it was read. -/
def Pass.step (context : RunnerEvidenceContext) (now : ℤ) (pass : Pass) (entry : RunnerKeyEntry) :
    Except String Pass := do
  reject (entry.keyId ∈ pass.ids ∨ entry.fingerprint ∈ pass.fingerprints) unavailable
  let seen := { pass with
    ids := entry.keyId :: pass.ids, fingerprints := entry.fingerprint :: pass.fingerprints }
  if Active now entry then
    reject (scopeText entry ∈ pass.activeScopes) unavailable
    return { seen with
      activeScopes := scopeText entry :: pass.activeScopes
      selected := if Expected context entry then some entry else pass.selected }
  else return seen

/-- The loop of `selectRunnerKey`. -/
def Pass.run (P : Platform) (keys : PublicKeys PublicKey) (context : RunnerEvidenceContext)
    (now : ℤ) : Pass → List JsValue → Except String Pass
  | pass, [] => .ok pass
  | pass, value :: values => do
    let entry ← readEntry P keys value
    let next ← pass.step context now entry
    next.run P keys context now values

/-- The values of the registry's keys. -/
def keysOf (value : JsValue) : Except String (List JsValue) :=
  match value with
  | .arr values => do
    reject (values.length < 1 ∨ 128 < values.length) unavailable
    return values
  | _ => .error unavailable

def clockOf (now : JsNumber) : Except String ℤ := do
  let i ← orThrow (safeInteger now) unavailable
  reject (i < 0) unavailable
  return i

/-- `selectRunnerKey` inside its `try`. -/
def select (P : Platform) (keys : PublicKeys PublicKey) (bytes : Bytes)
    (context : RunnerEvidenceContext) (now : JsNumber) : Except String RunnerKeySelection := do
  let now ← clockOf now
  let parsed ← parseCanonicalJson (.buffer bytes) (.int maxRegistryBytes) "runner key registry"
  let root ← exactRecord parsed ["schemaVersion", "keys"]
  reject (isSchemaVersion (field root "schemaVersion") = false) unavailable
  let values ← keysOf (field root "keys")
  let pass ← Pass.start.run P keys context now values
  let entry ← orThrow pass.selected unavailable
  let trustDigest ← runnerEvidenceDigest P entry.json
  return { entry, trust := entry.toRunnerAttestationTrust, trustDigest }

def selectRunnerKey (P : Platform) (keys : PublicKeys PublicKey) (bytes : Bytes)
    (context : RunnerEvidenceContext) (now : JsNumber) :
    Except RunnerEvidenceFailureCode RunnerKeySelection :=
  rethrow (select P keys bytes context now) .trustUnavailable

/-! ### What the pass has seen -/

/-- No two of the entries share a key id or a fingerprint, and no two active ones a scope. -/
structure Distinct (now : ℤ) (entries : List RunnerKeyEntry) : Prop where
  ids : (entries.map fun entry ↦ entry.keyId).Nodup
  fingerprints : (entries.map fun entry ↦ entry.fingerprint).Nodup
  scopes : ((entries.filter fun entry ↦ decide (Active now entry)).map scopeText).Nodup

theorem Distinct.of_perm {now : ℤ} {entries entries' : List RunnerKeyEntry}
    (h : Distinct now entries) (hperm : entries.Perm entries') : Distinct now entries' where
  ids := (hperm.map _).nodup_iff.mp h.ids
  fingerprints := (hperm.map _).nodup_iff.mp h.fingerprints
  scopes := ((hperm.filter _).map _).nodup_iff.mp h.scopes

theorem Distinct.of_sublist {now : ℤ} {entries entries' : List RunnerKeyEntry}
    (h : Distinct now entries') (hsub : entries.Sublist entries') : Distinct now entries where
  ids := h.ids.sublist (hsub.map _)
  fingerprints := h.fingerprints.sublist (hsub.map _)
  scopes := h.scopes.sublist ((hsub.filter _).map _)

theorem Distinct.nil (now : ℤ) : Distinct now [] := ⟨.nil, .nil, .nil⟩

/-- One more entry is distinct from those before. -/
theorem distinct_cons {now : ℤ} {entry : RunnerKeyEntry} {seen : List RunnerKeyEntry} :
    Distinct now (entry :: seen) ↔ Distinct now seen ∧
      entry.keyId ∉ seen.map (fun entry ↦ entry.keyId) ∧
      entry.fingerprint ∉ seen.map (fun entry ↦ entry.fingerprint) ∧
      (Active now entry →
        scopeText entry ∉ (seen.filter fun entry ↦ decide (Active now entry)).map scopeText) := by
  constructor
  · rintro h
    refine ⟨h.of_sublist (List.sublist_cons_self _ _), (List.nodup_cons.mp h.ids).1,
      (List.nodup_cons.mp h.fingerprints).1, fun hactive ↦ ?_⟩
    have hscopes := h.scopes
    simp only [List.filter_cons, hactive, decide_true, if_true, List.map_cons] at hscopes
    exact (List.nodup_cons.mp hscopes).1
  · rintro ⟨h, hid, hfingerprint, hscope⟩
    refine ⟨List.nodup_cons.mpr ⟨hid, h.ids⟩, List.nodup_cons.mpr ⟨hfingerprint, h.fingerprints⟩,
      ?_⟩
    by_cases hactive : Active now entry
    · simp only [List.filter_cons, hactive, decide_true, if_true, List.map_cons]
      exact List.nodup_cons.mpr ⟨hscope hactive, h.scopes⟩
    · simp only [List.filter_cons, hactive, decide_false, Bool.false_eq_true, if_false]
      exact h.scopes

/-- The entries that may be selected. -/
def candidates (context : RunnerEvidenceContext) (now : ℤ) (entries : List RunnerKeyEntry) :
    List RunnerKeyEntry :=
  entries.filter fun entry ↦ decide (Active now entry ∧ Expected context entry)

/-- The pass after some entries, the latest first. -/
def passOf (context : RunnerEvidenceContext) (now : ℤ) (seen : List RunnerKeyEntry) : Pass where
  ids := seen.map fun entry ↦ entry.keyId
  fingerprints := seen.map fun entry ↦ entry.fingerprint
  activeScopes := (seen.filter fun entry ↦ decide (Active now entry)).map scopeText
  selected := (candidates context now seen).head?

theorem Pass.step_eq_ok {context : RunnerEvidenceContext} {now : ℤ} {seen : List RunnerKeyEntry}
    {entry : RunnerKeyEntry} {next : Pass} (hseen : Distinct now seen) :
    (passOf context now seen).step context now entry = .ok next ↔
      Distinct now (entry :: seen) ∧ next = passOf context now (entry :: seen) := by
  rw [distinct_cons]
  simp only [Pass.step, bind_eq_ok, reject_eq_ok, exists_unit, not_or]
  by_cases hactive : Active now entry
  · have hselected : (candidates context now (entry :: seen)).head? =
        if Expected context entry then some entry else (candidates context now seen).head? := by
      simp only [candidates, List.filter_cons, hactive, true_and, decide_eq_true_eq]
      split_ifs
      · rfl
      · rfl
    have hpass : passOf context now (entry :: seen) = {
        ids := entry.keyId :: (passOf context now seen).ids
        fingerprints := entry.fingerprint :: (passOf context now seen).fingerprints
        activeScopes := scopeText entry :: (passOf context now seen).activeScopes
        selected := if Expected context entry then some entry
          else (passOf context now seen).selected } := by
      simp only [passOf, hselected, List.map_cons, List.filter_cons, hactive, decide_true, if_true]
    rw [if_pos hactive, hpass]
    simp only [bind_eq_ok, reject_eq_ok, exists_unit, pure_eq_ok, hactive, true_implies, hseen,
      true_and, and_assoc, @eq_comm _ next]
    rfl
  · have hpass : passOf context now (entry :: seen) = { passOf context now seen with
        ids := entry.keyId :: (passOf context now seen).ids
        fingerprints := entry.fingerprint :: (passOf context now seen).fingerprints } := by
      simp only [passOf, candidates, List.map_cons, List.filter_cons, hactive, false_and,
        decide_false, Bool.false_eq_true, if_false]
    rw [if_neg hactive, hpass]
    simp only [pure_eq_ok, passOf, hactive, false_implies, hseen, true_and, and_true, and_assoc,
      @eq_comm _ next]

theorem Pass.run_eq_ok {P : Platform} {keys : PublicKeys PublicKey}
    {context : RunnerEvidenceContext} {now : ℤ} {values : List JsValue}
    {seen : List RunnerKeyEntry} {last : Pass} (hseen : Distinct now seen) :
    (passOf context now seen).run P keys context now values = .ok last ↔
      ∃ entries, List.Forall₂ (fun value entry ↦ readEntry P keys value = .ok entry) values entries ∧
        Distinct now (entries.reverse ++ seen) ∧
        last = passOf context now (entries.reverse ++ seen) := by
  induction values generalizing seen with
  | nil =>
    simp only [Pass.run, List.forall₂_nil_left_iff, exists_eq_left, List.reverse_nil,
      List.nil_append, hseen, true_and, Except.ok.injEq, eq_comm]
  | cons value values ih =>
    simp only [Pass.run, bind_eq_ok, List.forall₂_cons_left_iff]
    constructor
    · rintro ⟨entry, hentry, next, hnext, hrun⟩
      obtain ⟨hdistinct, rfl⟩ := (Pass.step_eq_ok hseen).mp hnext
      obtain ⟨entries, hentries, hlast⟩ := (ih hdistinct).mp hrun
      refine ⟨entry :: entries, ⟨entry, entries, hentry, hentries, rfl⟩, ?_⟩
      rwa [List.reverse_cons, List.append_assoc, List.singleton_append]
    · rintro ⟨_, ⟨entry, entries, hentry, hentries, rfl⟩, hdistinct, hlast⟩
      rw [List.reverse_cons, List.append_assoc, List.singleton_append] at hdistinct hlast
      have hnext : Distinct now (entry :: seen) :=
        hdistinct.of_sublist (List.sublist_append_right _ _)
      exact ⟨entry, hentry, _, (Pass.step_eq_ok hseen).mpr ⟨hnext, rfl⟩,
        (ih hnext).mpr ⟨entries, hentries, hdistinct, hlast⟩⟩

/-- At most one of some distinct entries may be selected: they would share their scope. -/
theorem length_candidates_le {context : RunnerEvidenceContext} {now : ℤ}
    {entries : List RunnerKeyEntry} (h : Distinct now entries) :
    (candidates context now entries).length ≤ 1 := by
  have hcandidates : candidates context now entries =
      (entries.filter fun entry ↦ decide (Active now entry)).filter
        fun entry ↦ decide (Expected context entry) := by
    rw [List.filter_filter, candidates]
    refine List.filter_congr fun entry _ ↦ ?_
    rw [Bool.decide_and, Bool.and_comm]
  have hscopes : ((candidates context now entries).map scopeText).Nodup := by
    rw [hcandidates]
    exact h.scopes.sublist (List.filter_sublist.map _)
  have hscope : ∀ entry ∈ candidates context now entries, scopeText entry =
      compactText (.arr [.str context.plan.plan.subject.pilotId,
        .str context.source.repository.slug, .num context.source.repository.id,
        .num context.source.repository.ownerId]) := by
    intro entry hentry
    obtain ⟨-, hexpected⟩ := of_decide_eq_true (List.mem_filter.mp hentry).2
    obtain ⟨hpilot, hslug, hid, howner⟩ := hexpected
    rw [scopeText, hpilot, hslug, hid, howner]
  rcases hfound : candidates context now entries with _ | ⟨first, _ | ⟨second, rest⟩⟩
  · exact Nat.zero_le 1
  · exact le_rfl
  · rw [hfound] at hscopes hscope
    have hsame := (hscope first List.mem_cons_self).trans
      (hscope second (List.mem_cons_of_mem _ List.mem_cons_self)).symm
    simp [hsame] at hscopes

/-- What the pass selects is the one candidate. -/
theorem selected_iff {context : RunnerEvidenceContext} {now : ℤ} {entries : List RunnerKeyEntry}
    {entry : RunnerKeyEntry} (h : Distinct now entries) :
    (candidates context now entries.reverse).head? = some entry ↔
      candidates context now entries = [entry] := by
  have hreverse : candidates context now entries.reverse =
      (candidates context now entries).reverse := List.filter_reverse
  have hlength : (candidates context now entries).length ≤ 1 := length_candidates_le h
  rw [hreverse]
  rcases hfound : candidates context now entries with _ | ⟨first, _ | ⟨second, rest⟩⟩
  · simp
  · simp
  · rw [hfound] at hlength
    simp at hlength

/-! ### Registry texts -/

def registryValue (values : List JsValue) : JsValue :=
  .obj [(js "keys", .arr values), (js "schemaVersion", .num (.int 1))]

/-- The registry of some values, as the exact canonical text. -/
def registryBytes (values : List JsValue) : Bytes := utf8Encode (compactText (registryValue values))

/-- A registry that is read: canonical, small enough and of some keys. -/
structure Readable (values : List JsValue) : Prop where
  json : IJson (registryValue values)
  sorted : (registryValue values).sorted = registryValue values
  size : (byteLength (compactText (registryValue values)) : ℤ) ≤ maxRegistryBytes
  count : 1 ≤ values.length ∧ values.length ≤ 128

theorem members_of_sorted {ms : List Member} (hlength : ms.length = 2)
    (hkeys : ∀ m ∈ ms, m.1 ∈ ["schemaVersion", "keys"].map js)
    (hnodup : (ms.map Prod.fst).Nodup) (hsorted : ms.Pairwise keyLe) :
    ∃ a b, ms = [(js "keys", a), (js "schemaVersion", b)] := by
  obtain ⟨first, second, rfl⟩ := List.length_eq_two.mp hlength
  have hfirst := hkeys first List.mem_cons_self
  have hsecond := hkeys second (List.mem_cons_of_mem _ List.mem_cons_self)
  have hne : first.1 ≠ second.1 := by
    simpa using hnodup
  have hle : first.1 ≤ second.1 := List.rel_of_pairwise_cons hsorted List.mem_cons_self
  simp only [List.map_cons, List.map_nil, List.mem_cons, List.not_mem_nil, or_false]
    at hfirst hsecond
  rcases hfirst with hfirst | hfirst
  · rcases hsecond with hsecond | hsecond
    · exact absurd (hfirst.trans hsecond.symm) hne
    · rw [hfirst, hsecond] at hle
      exact absurd hle (by decide)
  · rcases hsecond with hsecond | hsecond
    · exact ⟨first.2, second.2, by rw [← hfirst, ← hsecond]⟩
    · exact absurd (hfirst.trans hsecond.symm) hne

/-- What is read of a registry before its keys. -/
def readKeys (bytes : Bytes) : Except String (List JsValue) := do
  let parsed ← parseCanonicalJson (.buffer bytes) (.int maxRegistryBytes) "runner key registry"
  let root ← exactRecord parsed ["schemaVersion", "keys"]
  reject (isSchemaVersion (field root "schemaVersion") = false) unavailable
  keysOf (field root "keys")

theorem exactRecord_eq_ok {value : JsValue} {fields : List String} {ms : List Member} :
    exactRecord value fields = .ok ms ↔
      value = .obj ms ∧ ms.length = fields.length ∧ ∀ m ∈ ms, m.1 ∈ fields.map js := by
  cases value with
  | obj ns =>
    simp only [exactRecord, bind_eq_ok, reject_eq_ok, exists_unit, pure_eq_ok, not_or, not_not,
      not_exists, not_and, JsValue.obj.injEq]
    constructor
    · rintro ⟨h, rfl⟩
      exact ⟨rfl, h⟩
    · rintro ⟨rfl, h⟩
      exact ⟨h, rfl⟩
  | null | bool | num | str | arr | exotic => simp [exactRecord]

theorem keysOf_eq_ok {value : JsValue} {values : List JsValue} :
    keysOf value = .ok values ↔
      value = .arr values ∧ 1 ≤ values.length ∧ values.length ≤ 128 := by
  cases value with
  | arr xs =>
    simp only [keysOf, bind_eq_ok, reject_eq_ok, exists_unit, pure_eq_ok, not_or, not_lt,
      JsValue.arr.injEq]
    constructor
    · rintro ⟨h, rfl⟩
      exact ⟨rfl, h⟩
    · rintro ⟨rfl, h⟩
      exact ⟨h, rfl⟩
  | null | bool | num | str | obj | exotic => simp [keysOf]

/-- The readable registries are the exact texts of their keys. -/
theorem readKeys_eq_ok {bytes : Bytes} {values : List JsValue} :
    readKeys bytes = .ok values ↔ bytes = registryBytes values ∧ Readable values := by
  simp only [readKeys, bind_eq_ok, reject_eq_ok, exists_unit, parseCanonicalJson_eq_ok,
    exactRecord_eq_ok, keysOf_eq_ok, Bool.not_eq_false]
  constructor
  · rintro ⟨value, ⟨hjson, hsorted, hcarries, limit, hlimit, -, -, hsize⟩, ms,
      ⟨rfl, hlength, hkeys⟩, hversion, hvalues, hcount⟩
    obtain rfl : maxRegistryBytes = limit := by simpa using hlimit
    have hms : ms.Pairwise keyLe := by
      have h : sortByKey (sortedMembers ms) = ms := by simpa [JsValue.sorted] using hsorted
      exact h ▸ pairwise_sortByKey _
    have hnodup : (ms.map Prod.fst).Nodup := by
      cases hjson with
      | obj hkeys => exact hkeys
    obtain ⟨a, b, rfl⟩ := members_of_sorted hlength hkeys hnodup hms
    obtain rfl : a = .arr values := hvalues
    have hb : isSchemaVersion b = true := hversion
    obtain rfl : b = .num (.int 1) := by
      cases b with
      | num n => exact congrArg JsValue.num (of_decide_eq_true hb)
      | null | bool | str | arr | obj | exotic => cases hb
    exact ⟨hcarries.1, hjson, hsorted, hsize, hcount⟩
  · rintro ⟨rfl, hjson, hsorted, hsize, hcount⟩
    refine ⟨registryValue values, ⟨hjson, hsorted,
      ⟨rfl, hjson.plain.isWellFormed_compactText⟩, maxRegistryBytes, rfl, by decide, by decide,
      hsize⟩, _, ⟨rfl, rfl, ?_⟩, rfl, rfl, hcount⟩
    intro m hm
    simp only [List.mem_cons, List.not_mem_nil, or_false] at hm
    rcases hm with rfl | rfl
    · exact List.mem_cons_of_mem _ List.mem_cons_self
    · exact List.mem_cons_self

/-! ### The order of the keys -/

theorem byteLength_joinComma_cons {t : JsString} {ts : List JsString}
    (ht : isWellFormed t = true) :
    byteLength (joinComma (t :: ts)) =
      byteLength t + if ts = [] then 0 else 1 + byteLength (joinComma ts) := by
  cases ts with
  | nil => simp [joinComma]
  | cons u us =>
    have hjoin : joinComma (t :: u :: us) = t ++ 0x2c :: joinComma (u :: us) := rfl
    rw [hjoin, byteLength_append ht, byteLength_cons (by decide), if_neg (List.cons_ne_nil _ _)]
    rfl

/-- The size of texts between commas does not depend on their order. -/
theorem byteLength_joinComma_perm {ts us : List JsString} (hperm : ts.Perm us)
    (hts : ∀ t ∈ ts, isWellFormed t = true) :
    byteLength (joinComma ts) = byteLength (joinComma us) := by
  induction hperm with
  | nil => rfl
  | @cons t ts us hperm ih =>
    obtain ⟨ht, hts⟩ := List.forall_mem_cons.mp hts
    have hnil : ts = [] ↔ us = [] :=
      ⟨fun h ↦ (h ▸ hperm).nil_eq.symm, fun h ↦ (h ▸ hperm).eq_nil⟩
    simp only [byteLength_joinComma_cons ht, ih hts, hnil]
  | swap t u ts =>
    obtain ⟨hu, hts⟩ := List.forall_mem_cons.mp hts
    obtain ⟨ht, -⟩ := List.forall_mem_cons.mp hts
    simp only [byteLength_joinComma_cons hu, byteLength_joinComma_cons ht, List.cons_ne_nil,
      if_false]
    omega
  | trans hperm hperm' ih ih' =>
    exact (ih hts).trans (ih' fun t ht ↦ hts t (hperm.mem_iff.mpr ht))

/-- The text of a registry before its keys, and after them. -/
def registryOpening : JsString := 0x7b :: (quote (js "keys") ++ [0x3a, 0x5b])

def registryClosing : JsString :=
  [0x5d, 0x2c] ++ quote (js "schemaVersion") ++ [0x3a, 0x31, 0x7d]

theorem compactText_registryValue (values : List JsValue) :
    compactText (registryValue values) =
      registryOpening ++ (joinComma (values.map compactText) ++ registryClosing) := by
  have hversion : integerText 1 = [0x31] := by decide
  simp only [registryValue, compactText, memberTexts, joinComma, elementTexts_eq_map, hversion,
    registryOpening, registryClosing, List.cons_append, List.append_assoc, List.nil_append]

theorem byteLength_registryValue {values : List JsValue} (hvalues : ∀ v ∈ values, IJson v) :
    byteLength (compactText (registryValue values)) =
      byteLength registryOpening +
        (byteLength (joinComma (values.map compactText)) + byteLength registryClosing) := by
  have hwell : isWellFormed (joinComma (values.map compactText)) = true :=
    isWellFormed_joinComma
      (List.forall_mem_map.mpr fun v hv ↦ (hvalues v hv).plain.isWellFormed_compactText)
  rw [compactText_registryValue, byteLength_append (by decide), byteLength_append hwell]

theorem readable_iff {values : List JsValue} :
    Readable values ↔ (∀ v ∈ values, IJson v ∧ v.sorted = v) ∧
      (byteLength (compactText (registryValue values)) : ℤ) ≤ maxRegistryBytes ∧
      1 ≤ values.length ∧ values.length ≤ 128 := by
  have hkeys : ([js "keys", js "schemaVersion"]).Pairwise (· ≤ ·) := by decide
  have hnodup : ([js "keys", js "schemaVersion"]).Nodup := by decide
  have hunicode : isWellFormed (js "keys") = true ∧ isWellFormed (js "schemaVersion") = true := by
    decide
  have hsorted : (registryValue values).sorted = registryValue (values.map JsValue.sorted) := by
    simp only [registryValue, JsValue.sorted, sortedMembers, sortedElements_eq_map]
    exact congrArg JsValue.obj (sortByKey_eq_self_of_keys hkeys)
  constructor
  · rintro ⟨hjson, hsame, hsize, hcount⟩
    refine ⟨fun v hv ↦ ⟨?_, ?_⟩, hsize, hcount⟩
    · cases hjson with
      | obj _ _ hms =>
        have hvalues := hms _ List.mem_cons_self
        cases hvalues with
        | arr hxs => exact hxs v hv
    · have hmap : values.map JsValue.sorted = values.map id := by
        simpa [registryValue] using hsorted.symm.trans hsame
      exact List.map_inj_left.mp hmap v hv
  · rintro ⟨hvalues, hsize, hcount⟩
    refine ⟨.obj hnodup ?_ ?_, ?_, hsize, hcount⟩
    · exact List.forall_mem_cons.mpr ⟨hunicode.1, List.forall_mem_singleton.mpr hunicode.2⟩
    · exact List.forall_mem_cons.mpr ⟨.arr fun v hv ↦ (hvalues v hv).1,
        List.forall_mem_singleton.mpr (.num (by decide))⟩
    · have hmap : values.map JsValue.sorted = values.map id :=
        List.map_inj_left.mpr fun v hv ↦ (hvalues v hv).2
      rw [hsorted, hmap, List.map_id]

theorem Readable.of_perm {values values' : List JsValue} (h : Readable values)
    (hperm : values.Perm values') : Readable values' := by
  obtain ⟨hjson, hsize, hcount⟩ := readable_iff.mp h
  have hjson' : ∀ v ∈ values', IJson v ∧ v.sorted = v :=
    fun v hv ↦ hjson v (hperm.mem_iff.mpr hv)
  refine readable_iff.mpr ⟨hjson', ?_, ?_⟩
  · rw [byteLength_registryValue fun v hv ↦ (hjson v hv).1] at hsize
    rw [byteLength_registryValue fun v hv ↦ (hjson' v hv).1,
      ← byteLength_joinComma_perm (hperm.map _)]
    · exact hsize
    · exact List.forall_mem_map.mpr fun v hv ↦ (hjson v hv).1.plain.isWellFormed_compactText
  · rwa [← hperm.length_eq]

/-! ### Selections -/

/-- The entries that some values are read as. -/
def Registers (P : Platform) (keys : PublicKeys PublicKey) (values : List JsValue)
    (entries : List RunnerKeyEntry) : Prop :=
  List.Forall₂ (fun value entry ↦ readEntry P keys value = .ok entry) values entries

theorem Pass.selected_iff {P : Platform} {keys : PublicKeys PublicKey}
    {context : RunnerEvidenceContext} {now : ℤ} {values : List JsValue} {entry : RunnerKeyEntry} :
    (∃ pass, Pass.start.run P keys context now values = .ok pass ∧ pass.selected = some entry) ↔
      ∃ entries, Registers P keys values entries ∧ Distinct now entries ∧
        candidates context now entries = [entry] := by
  have hstart : Pass.start = passOf context now [] := rfl
  simp only [hstart, Pass.run_eq_ok (Distinct.nil now), List.append_nil]
  constructor
  · rintro ⟨_, ⟨entries, hentries, hdistinct, rfl⟩, hselected⟩
    have hdistinct' := hdistinct.of_perm (List.reverse_perm entries)
    exact ⟨entries, hentries, hdistinct', (RunnerKeyRegistry.selected_iff hdistinct').mp hselected⟩
  · rintro ⟨entries, hentries, hdistinct, hselected⟩
    exact ⟨_, ⟨entries, hentries, hdistinct.of_perm (List.reverse_perm entries).symm, rfl⟩,
      (RunnerKeyRegistry.selected_iff hdistinct).mpr hselected⟩

/-- What a selection is made of. -/
structure SelectsFrom (P : Platform) (keys : PublicKeys PublicKey)
    (context : RunnerEvidenceContext) (now : ℤ) (values : List JsValue)
    (entries : List RunnerKeyEntry) (selection : RunnerKeySelection) : Prop where
  readable : Readable values
  registers : Registers P keys values entries
  distinct : Distinct now entries
  selected : candidates context now entries = [selection.entry]
  trust : selection.trust = selection.entry.toRunnerAttestationTrust
  trustDigest : runnerEvidenceDigest P selection.entry.json = .ok selection.trustDigest

theorem selectRunnerKey_eq_ok {P : Platform} {keys : PublicKeys PublicKey} {bytes : Bytes}
    {context : RunnerEvidenceContext} {now : JsNumber} {selection : RunnerKeySelection} :
    selectRunnerKey P keys bytes context now = .ok selection ↔
      ∃ clock values entries, clockOf now = .ok clock ∧ bytes = registryBytes values ∧
        SelectsFrom P keys context clock values entries selection := by
  have hselect : select P keys bytes context now = (do
      let clock ← clockOf now
      let values ← readKeys bytes
      let pass ← Pass.start.run P keys context clock values
      let entry ← orThrow pass.selected unavailable
      let trustDigest ← runnerEvidenceDigest P entry.json
      return { entry, trust := entry.toRunnerAttestationTrust, trustDigest }) := by
    simp only [select, readKeys, bind_assoc]
  simp only [selectRunnerKey, rethrow_eq_ok, hselect, bind_eq_ok, orThrow_eq_ok, pure_eq_ok,
    readKeys_eq_ok]
  constructor
  · rintro ⟨clock, hclock, values, ⟨hbytes, hreadable⟩, pass, hpass, entry, hentry, digest,
      hdigest, rfl⟩
    obtain ⟨entries, hentries, hdistinct, hselected⟩ := Pass.selected_iff.mp ⟨pass, hpass, hentry⟩
    exact ⟨clock, values, entries, hclock, hbytes,
      ⟨hreadable, hentries, hdistinct, hselected, rfl, hdigest⟩⟩
  · rintro ⟨clock, values, entries, hclock, hbytes,
      ⟨hreadable, hentries, hdistinct, hselected, htrust, hdigest⟩⟩
    obtain ⟨pass, hpass, hentry⟩ := Pass.selected_iff.mpr ⟨entries, hentries, hdistinct, hselected⟩
    refine ⟨clock, hclock, values, ⟨hbytes, hreadable⟩, pass, hpass, _, hentry, _, hdigest, ?_⟩
    rw [← htrust]

/-! ### Unambiguous selection -/

theorem SelectsFrom.of_perm {P : Platform} {keys : PublicKeys PublicKey}
    {context : RunnerEvidenceContext} {now : ℤ} {values values' : List JsValue}
    {entries : List RunnerKeyEntry} {selection : RunnerKeySelection}
    (h : SelectsFrom P keys context now values entries selection) (hperm : values'.Perm values) :
    ∃ entries', SelectsFrom P keys context now values' entries' selection := by
  obtain ⟨entries', hregisters, hentries⟩ := List.perm_comp_forall₂ hperm h.registers
  refine ⟨entries', h.readable.of_perm hperm.symm, hregisters, h.distinct.of_perm hentries.symm, ?_,
    h.trust, h.trustDigest⟩
  have hcandidates : (candidates context now entries').Perm (candidates context now entries) :=
    hentries.filter _
  rw [h.selected] at hcandidates
  exact hcandidates.eq_singleton

/-- The compact text of a registry of these keys. -/
structure RegistryText (bytes : Bytes) (values : List JsValue) : Prop where
  text : bytes = registryBytes values
  parsed : jsonParse (utf8Decode bytes) = some (registryValue values)

theorem Readable.registryText {values : List JsValue} (h : Readable values) :
    RegistryText (registryBytes values) values where
  text := rfl
  parsed := by
    rw [registryBytes, utf8Decode_utf8Encode _ h.json.plain.isWellFormed_compactText,
      jsonParse_compactText h.json]

theorem selectRunnerKey_of_perm {P : Platform} {keys : PublicKeys PublicKey}
    {context : RunnerEvidenceContext} {now : JsNumber} {bytes bytes' : Bytes}
    {values values' : List JsValue} {selection : RunnerKeySelection} (hperm : values'.Perm values)
    (hbytes : RegistryText bytes values) (hbytes' : RegistryText bytes' values')
    (h : selectRunnerKey P keys bytes context now = .ok selection) :
    selectRunnerKey P keys bytes' context now = .ok selection := by
  obtain ⟨clock, read, entries, hclock, hread, hselects⟩ := selectRunnerKey_eq_ok.mp h
  obtain rfl : read = values := by
    have hparsed := hselects.readable.registryText.parsed
    rw [← hread, hbytes.parsed] at hparsed
    simpa [registryValue] using hparsed.symm
  obtain ⟨entries', hselects'⟩ := hselects.of_perm hperm
  exact selectRunnerKey_eq_ok.mpr ⟨clock, values', entries', hclock, hbytes'.text, hselects'⟩

theorem selectRunnerKey_cases (P : Platform) (keys : PublicKeys PublicKey) (bytes : Bytes)
    (context : RunnerEvidenceContext) (now : JsNumber) :
    selectRunnerKey P keys bytes context now = .error .trustUnavailable ∨
      ∃ selection, selectRunnerKey P keys bytes context now = .ok selection := by
  unfold selectRunnerKey
  cases select P keys bytes context now with
  | error e => exact Or.inl rfl
  | ok selection => exact Or.inr ⟨selection, rfl⟩

/-- A value that no registry can take in beside some others: it is malformed, it repeats the key id
or the fingerprint of one of them, or it is active in the scope of an active one. -/
inductive Spoils (P : Platform) (keys : PublicKeys PublicKey) (now : ℤ) (values : List JsValue)
    (value : JsValue) : Prop
  | malformed (h : ∀ entry, readEntry P keys value ≠ .ok entry)
  | duplicate {other : JsValue} {entry entry' : RunnerKeyEntry} (hother : other ∈ values)
    (hread : readEntry P keys value = .ok entry) (hread' : readEntry P keys other = .ok entry')
    (hsame : entry.keyId = entry'.keyId ∨ entry.fingerprint = entry'.fingerprint)
  | active {other : JsValue} {entry entry' : RunnerKeyEntry} (hother : other ∈ values)
    (hread : readEntry P keys value = .ok entry) (hread' : readEntry P keys other = .ok entry')
    (hactive : Active now entry) (hactive' : Active now entry')
    (hpilot : entry.pilotId = entry'.pilotId) (hrepository : entry.repository = entry'.repository)

theorem exists_of_forall₂_left {α β : Type} {R : α → β → Prop} {xs : List α} {ys : List β}
    (h : List.Forall₂ R xs ys) {x : α} (hx : x ∈ xs) : ∃ y ∈ ys, R x y := by
  induction h with
  | nil => cases hx
  | @cons x' y xs ys hxy _ ih =>
    rcases List.mem_cons.mp hx with rfl | hx
    · exact ⟨y, List.mem_cons_self, hxy⟩
    · obtain ⟨y', hy', hR⟩ := ih hx
      exact ⟨y', List.mem_cons_of_mem _ hy', hR⟩

theorem Spoils.not_selectsFrom {P : Platform} {keys : PublicKeys PublicKey}
    {context : RunnerEvidenceContext} {now : ℤ} {values : List JsValue} {value : JsValue}
    {entries : List RunnerKeyEntry} {selection : RunnerKeySelection}
    (hspoils : Spoils P keys now values value) :
    ¬ SelectsFrom P keys context now (value :: values) entries selection := by
  intro h
  obtain ⟨entry, others, hentry, hothers, rfl⟩ := List.forall₂_cons_left_iff.mp h.registers
  obtain ⟨-, hid, hfingerprint, hscope⟩ := distinct_cons.mp h.distinct
  have hmem {other : JsValue} {entry' : RunnerKeyEntry} (hother : other ∈ values)
      (hread : readEntry P keys other = .ok entry') : entry' ∈ others := by
    obtain ⟨found, hfound, hreads⟩ := exists_of_forall₂_left hothers hother
    obtain rfl := Except.ok.inj (hread.symm.trans hreads)
    exact hfound
  cases hspoils with
  | malformed h => exact h entry hentry
  | duplicate hother hread hread' hsame =>
    obtain rfl := Except.ok.inj (hentry.symm.trans hread)
    have hmem := hmem hother hread'
    rcases hsame with hsame | hsame
    · exact hid (hsame ▸ List.mem_map_of_mem hmem)
    · exact hfingerprint (hsame ▸ List.mem_map_of_mem hmem)
  | @active other _ entry' hother hread hread' hactive hactive' hpilot hrepository =>
    obtain rfl := Except.ok.inj (hentry.symm.trans hread)
    have hmem := hmem hother hread'
    have hsame : scopeText entry' = scopeText entry := by
      rw [scopeText, scopeText, hpilot, hrepository]
    exact hscope hactive
      (hsame ▸ List.mem_map_of_mem (List.mem_filter.mpr ⟨hmem, decide_eq_true hactive'⟩))

/-- What a selection shows of the registry, that the order of the keys does not matter, and which
further entries make it fail. -/
structure Unambiguous (P : Platform) (keys : PublicKeys PublicKey)
    (context : RunnerEvidenceContext) (now : JsNumber) : Prop where
  selected : ∀ bytes selection, selectRunnerKey P keys bytes context now = .ok selection →
    ∃ clock values entries, clockOf now = .ok clock ∧ RegistryText bytes values ∧
      Registers P keys values entries ∧
      candidates context clock entries = [selection.entry] ∧
      (entries.map fun entry ↦ entry.keyId).Nodup ∧
      (entries.map fun entry ↦ entry.fingerprint).Nodup ∧
      ((entries.filter fun entry ↦ decide (Active clock entry)).map
        fun entry ↦ (entry.pilotId, entry.repository)).Nodup
  permuted : ∀ bytes bytes' values values', RegistryText bytes values →
    RegistryText bytes' values' → values.Perm values' →
      selectRunnerKey P keys bytes context now = selectRunnerKey P keys bytes' context now
  spoiled : ∀ clock bytes ms before after value, clockOf now = .ok clock →
    jsonParse (utf8Decode bytes) = some (.obj ms) →
    field ms "keys" = .arr (before ++ value :: after) →
    Spoils P keys clock (before ++ after) value →
      selectRunnerKey P keys bytes context now = .error .trustUnavailable

/-- The selection of a runner key is unambiguous, for every registry, context and time. -/
theorem runner_key_selection_unambiguous (P : Platform) (keys : PublicKeys PublicKey)
    (context : RunnerEvidenceContext) (now : JsNumber) : Unambiguous P keys context now where
  selected bytes selection h := by
    obtain ⟨clock, values, entries, hclock, rfl, hselects⟩ := selectRunnerKey_eq_ok.mp h
    refine ⟨clock, values, entries, hclock, hselects.readable.registryText, hselects.registers,
      hselects.selected, hselects.distinct.ids, hselects.distinct.fingerprints, ?_⟩
    -- the text of a scope is made of the scope
    have hscopes := hselects.distinct.scopes
    have htext : scopeText = (fun scope : JsString × RepositoryIdentity ↦
        compactText (.arr [.str scope.1, .str scope.2.slug, .num scope.2.id, .num scope.2.ownerId]))
          ∘ fun entry ↦ (entry.pilotId, entry.repository) := rfl
    rw [htext, ← List.map_map] at hscopes
    exact hscopes.of_map
  permuted bytes bytes' values values' hbytes hbytes' hperm := by
    rcases selectRunnerKey_cases P keys bytes context now with herror | ⟨selection, hok⟩
    · rcases selectRunnerKey_cases P keys bytes' context now with herror' | ⟨selection', hok'⟩
      · rw [herror, herror']
      · rw [hok', selectRunnerKey_of_perm hperm hbytes' hbytes hok']
    · rw [hok, selectRunnerKey_of_perm hperm.symm hbytes hbytes' hok]
  spoiled clock bytes ms before after value hclock hparse hkeys hspoils := by
    rcases selectRunnerKey_cases P keys bytes context now with herror | ⟨selection, hok⟩
    · exact herror
    · obtain ⟨clock', values, entries, hclock', rfl, hselects⟩ := selectRunnerKey_eq_ok.mp hok
      obtain rfl := Except.ok.inj (hclock.symm.trans hclock')
      have hparsed := hselects.readable.registryText.parsed
      rw [hparse, registryValue, Option.some.injEq, JsValue.obj.injEq] at hparsed
      obtain rfl : values = before ++ value :: after := by
        rw [hparsed] at hkeys
        exact JsValue.arr.inj hkeys
      -- the value may as well come first
      obtain ⟨entries', hfirst⟩ := hselects.of_perm List.perm_middle.symm
      exact absurd hfirst hspoils.not_selectsFrom

/-! ### A selection -/

def samplePem : JsString :=
  js "-----BEGIN PUBLIC KEY-----\n" ++
    js "MCowBQYDK2VwAyEAJE/qlnu30PaF/A9XdwRz9BamDS1Zzn9BT7TTW8iM+RM=" ++
    js "\n-----END PUBLIC KEY-----\n"

def sampleDer : Bytes :=
  base64Decode (js "MCowBQYDK2VwAyEAJE_qlnu30PaF_A9XdwRz9BamDS1Zzn9BT7TTW8iM-RM")

/-- The one key of the sample. -/
def sampleKeys : PublicKeys Unit where
  createPublicKey pem := if pem = samplePem then some () else none
  spkiPem _ := samplePem
  spkiDer _ := sampleDer
  asymmetricKeyType _ := js "ed25519"

/-- The digests of the key and, else, of the entry. -/
def sampleSha256 (bytes : Bytes) : Bytes :=
  if bytes = sampleDer then base64Decode (js "JQrDh8DnAhNJ6J_mWCODrWYGZckAZCEQnFFKS0fhDWs")
  else base64Decode (js "RQxM5I1yJjG15NY6MPbzM664XB9OvJZB4xPKRhYl_8Q")

theorem length_sampleSha256 (bytes : Bytes) : (sampleSha256 bytes).length = 32 := by
  unfold sampleSha256
  split_ifs <;> decide +kernel

def samplePlatform : Platform where
  hashes := ⟨⟨fun _ ↦ List.replicate 20 0, fun _ ↦ List.length_replicate⟩,
    ⟨sampleSha256, length_sampleSha256⟩⟩
  isIP _ := 0
  urlHostname _ := none

def sampleEntry : RunnerKeyEntry where
  keyId := js "runner-1"
  publicKeyPem := samplePem
  fingerprint := js "sha256:" ++ hexText (sampleSha256 sampleDer)
  validFrom := 1
  validUntil := 9000
  revokedAt := none
  pilotId := js "pilot_sample"
  repository := ⟨js "owner/repo", .int 1, .int 2⟩

/-- A context of the sample's pilot and repository. -/
def sampleContext : RunnerEvidenceContext where
  campaignId := js "campaign_sample"
  runId := js "run_sample"
  plan := {
    plan := {
      jobId := js "job_sample"
      nonceDigest := js "sha256:0"
      createdAt := 1000
      expiresAt := 2000
      subject := ⟨js "pilot_sample", sampleEntry.repository, js "main", js "0"⟩
      inputs := ⟨js "sha256:0", js "sha256:0", js "sha256:0"⟩
      imageDigest := js "sha256:0"
      destinations := []
      policyDigest := js "sha256:0" }
    canonicalJson := js "null"
    digest := js "sha256:0" }
  source := {
    repository := sampleEntry.repository
    base := ⟨js "main", js "0", js "0"⟩
    manifestDigest := js "sha256:0"
    sourceArchiveDigest := js "sha256:0" }
  reviewedOutput := ⟨js "pf_0", js "sha256:0", js "0"⟩
  previewCompletedAt := 1000

theorem RunnerKeyEntry.canonical_json (entry : RunnerKeyEntry) : Canonical entry.json := by
  have hrepository : Canonical entry.repository.toJson := by
    refine canonical_obj ?_ (by simp)
    change (["id", "ownerId", "slug"].map js).Pairwise (· < ·)
    decide
  have hrevoked : Canonical (timeOrNull entry.revokedAt) := by
    cases entry.revokedAt with
    | none => exact canonical_null
    | some t => exact canonical_num _
  refine canonical_obj ?_ (by simp [hrepository, hrevoked])
  change (["algorithm", "fingerprint", "keyId", "pilotId", "publicKeyPem", "repository",
    "revokedAt", "validFrom", "validUntil"].map js).Pairwise (· < ·)
  decide

/-- What is read and hashed of the sample. -/
structure SampleReads : Prop where
  entry : readEntry samplePlatform sampleKeys sampleEntry.json = .ok sampleEntry
  text : canonicalJson sampleEntry.json = .ok (compactText sampleEntry.json)
  size : (byteLength (compactText (registryValue [sampleEntry.json])) : ℤ) ≤ maxRegistryBytes
  digest : (runnerEvidenceDigest samplePlatform sampleEntry.json).isOk = true

set_option maxRecDepth 100000 in
theorem sampleReads : SampleReads where
  entry := by decide +kernel
  text := by decide +kernel
  size := by decide +kernel
  digest := by decide +kernel

theorem readable_sample : Readable [sampleEntry.json] := by
  have hcanonical := sampleEntry.canonical_json
  refine readable_iff.mpr ⟨List.forall_mem_singleton.mpr ⟨?_, hcanonical.2⟩, sampleReads.size,
    by decide⟩
  exact ((CanonicalJson.canonicalJson_of_canonical hcanonical).mp sampleReads.text).1

theorem exists_selection_sample :
    ∃ selection, selectRunnerKey samplePlatform sampleKeys (registryBytes [sampleEntry.json])
      sampleContext (.int 1000) = .ok selection := by
  have hdigest := sampleReads.digest
  cases htrust : runnerEvidenceDigest samplePlatform sampleEntry.json with
  | error e =>
    rw [htrust] at hdigest
    cases hdigest
  | ok trustDigest =>
    exact ⟨{ entry := sampleEntry, trust := sampleEntry.toRunnerAttestationTrust, trustDigest },
      selectRunnerKey_eq_ok.mpr ⟨1000, [sampleEntry.json], [sampleEntry], by decide, rfl, {
        readable := readable_sample
        registers := .cons sampleReads.entry .nil
        distinct := ⟨List.nodup_singleton _, List.nodup_singleton _, by decide⟩
        selected := (by decide : candidates sampleContext 1000 [sampleEntry] = [sampleEntry])
        trust := rfl
        trustDigest := htrust }⟩⟩

/-- The registry of the one sample key selects it. -/
theorem runner_key_selection_unambiguous_sample :
    ∃ selection, selectRunnerKey samplePlatform sampleKeys (registryBytes [sampleEntry.json])
        sampleContext (.int 1000) = .ok selection ∧
      ∃ clock values entries, clockOf (.int 1000) = .ok clock ∧
        RegistryText (registryBytes [sampleEntry.json]) values ∧
        Registers samplePlatform sampleKeys values entries ∧
        candidates sampleContext clock entries = [selection.entry] ∧
        (entries.map fun entry ↦ entry.keyId).Nodup ∧
        (entries.map fun entry ↦ entry.fingerprint).Nodup ∧
        ((entries.filter fun entry ↦ decide (Active clock entry)).map
          fun entry ↦ (entry.pilotId, entry.repository)).Nodup := by
  obtain ⟨selection, hselection⟩ := exists_selection_sample
  exact ⟨selection, hselection, (runner_key_selection_unambiguous samplePlatform sampleKeys
    sampleContext (.int 1000)).selected _ _ hselection⟩

end ApiMigrator.App.RunnerKeyRegistry
