import ApiMigrator.App.OwnerGrant
import ApiMigrator.Db.OwnerReplay

/-!
A grant of `owner-authorization.ts` and its row in the ledger of `repo.ts`. Both packages check the
fifteen bound fields, each with its own expressions: the ledger takes every value of a verified
grant and stores it without the prefixes of its digests; and what it returns, read as a receipt, is
that value again.
-/

set_option autoImplicit false
set_option relaxedAutoImplicit false

namespace ApiMigrator.App.OwnerAuthorization

open Foundation.Text Foundation.Number Foundation.Json Foundation.Outcome Foundation.Pattern
open Foundation.GitNames Foundation.Binary Foundation.Interaction
open CanonicalJson PublicationRunner

variable {PublicKey PrivateKey : Type}

/-! ### Printable texts -/

/-- The printable characters of ASCII without the space. -/
def Graphic (s : JsString) : Prop := ∀ c ∈ s, 0x20 < c.toNat ∧ c.toNat < 0x7f

theorem Graphic.append {s t : JsString} (hs : Graphic s) (ht : Graphic t) : Graphic (s ++ t) := by
  intro c hc
  exact (List.mem_append.mp hc).elim (hs c) (ht c)

theorem graphic_of_all {s : JsString} (h : s.all (fun c ↦ decide (0x20 < c.toNat ∧ c.toNat < 0x7f))
    = true) : Graphic s :=
  forall_mem_of_all h

theorem Graphic.isWellFormed {s : JsString} (hs : Graphic s) : isWellFormed s = true :=
  isWellFormed_of_ascii fun c hc ↦ lt_trans (hs c hc).2 (by decide)

theorem Graphic.byteLength {s : JsString} (hs : Graphic s) : byteLength s = s.length :=
  byteLength_of_ascii fun c hc ↦ lt_trans (hs c hc).2 (by decide)

theorem Graphic.trim {s : JsString} (hs : Graphic s) : trim s = s := by
  refine trim_of_forall fun c hc ↦ ?_
  obtain ⟨hlow, hhigh⟩ := hs c hc
  simp only [isSpace, decide_eq_false_iff_not, List.mem_cons, List.not_mem_nil, or_false,
    ← UInt16.toNat_inj, UInt16.reduceToNat]
  omega

theorem Graphic.sqlLength {s : JsString} (hs : Graphic s) : Db.sqlLength s = s.length := by
  have hunits : s.takeWhile (fun c ↦ c ≠ 0) = s := by
    refine List.takeWhile_eq_self_iff.mpr fun c hc ↦ ?_
    rw [decide_eq_true_eq]
    rintro rfl
    exact absurd (hs 0 hc).1 (by decide)
  rw [Db.sqlLength, hunits, List.filter_eq_self.mpr]
  intro c hc
  have hhigh := (hs c hc).2
  simp only [isLowSurrogate, Bool.not_eq_true', decide_eq_false_iff_not]
  omega

theorem Graphic.sqlText {s : JsString} (hs : Graphic s) : Db.sqlText s = s :=
  utf8Decode_utf8Encode s hs.isWellFormed

theorem graphic_of_isAlphanumericOr {s : JsString} {others : String}
    (hothers : (js others).all (fun c ↦ decide (0x20 < c.toNat ∧ c.toNat < 0x7f)) = true)
    (hs : s.all (isAlphanumericOr others) = true) : Graphic s := by
  intro c hc
  have h := List.all_eq_true.mp hs c hc
  rw [isAlphanumericOr, Bool.or_eq_true, decide_eq_true_eq] at h
  rcases h with h | h
  · simp only [isAlphanumeric, isLowerLetter, isUpperLetter, isDigit, Bool.or_eq_true,
      decide_eq_true_eq] at h
    omega
  · exact graphic_of_all hothers c h

theorem graphic_of_isHexOfLength {n : ℕ} {s : JsString} (h : isHexOfLength n s = true) :
    Graphic s := by
  intro c hc
  have hhex := List.all_eq_true.mp (Bool.and_eq_true_iff.mp h).2 c hc
  simp only [isLowerHex, isDigit, Bool.or_eq_true, decide_eq_true_eq] at hhex
  omega

/-- A text of a fixed start and hexadecimal digits. -/
theorem graphic_of_hex {n : ℕ} {s : JsString} {p : String} (hp : Graphic (js p))
    (hstart : startsWith s p = true) (hhex : isHexOfLength n (s.drop (js p).length) = true) :
    Graphic s := by
  obtain ⟨rest, rfl⟩ := List.isPrefixOf_iff_prefix.mp hstart
  rw [List.drop_left] at hhex
  exact hp.append (graphic_of_isHexOfLength hhex)

/-! ### What the field checks accept -/

section Fields

variable {value : JsValue} {label : String} {s : JsString} {i : ℤ} {maxBytes : ℕ}

/-- What `validBoundedString` accepts. -/
structure Bounded (maxBytes : ℕ) (s : JsString) : Prop where
  nonempty : s.length ≠ 0
  size : byteLength s ≤ maxBytes
  unicode : isWellFormed s = true

theorem validBoundedString_eq_ok (h : validBoundedString rejected value label maxBytes = .ok s) :
    Bounded maxBytes s := by
  unfold validBoundedString at h
  split at h
  · simp only [bind_eq_ok, reject_eq_ok, exists_unit, pure_eq_ok, not_or, not_lt,
      Bool.not_eq_false] at h
    obtain ⟨⟨hnonempty, hsize⟩, hunicode, rfl⟩ := h
    exact ⟨hnonempty, hsize, hunicode⟩
  · cases h

theorem validBoundedString_of_bounded (h : Bounded maxBytes s) :
    validBoundedString rejected (.str s) label maxBytes = .ok s := by
  simp only [validBoundedString, bind_eq_ok, reject_eq_ok, exists_unit, pure_eq_ok, not_or, not_lt,
    Bool.not_eq_false, and_true]
  exact ⟨⟨h.nonempty, h.size⟩, h.unicode⟩

theorem validIdentifier_eq_ok (h : validIdentifier rejected value label = .ok s) :
    isOwnerIdentifier s = true := by
  simp only [validIdentifier, bind_eq_ok, reject_eq_ok, exists_unit, pure_eq_ok,
    Bool.not_eq_false] at h
  obtain ⟨_, -, hidentifier, rfl⟩ := h
  exact hidentifier

theorem validDigest_eq_ok (h : validDigest rejected value label = .ok s) :
    isDigestText s = true := by
  unfold validDigest at h
  split at h
  · simp only [bind_eq_ok, reject_eq_ok, exists_unit, pure_eq_ok, Bool.not_eq_false] at h
    exact h.2 ▸ h.1
  · cases h

theorem validGitSha_eq_ok (h : validGitSha rejected value label = .ok s) : isGitSha s = true := by
  unfold validGitSha at h
  split at h
  · simp only [bind_eq_ok, reject_eq_ok, exists_unit, pure_eq_ok, Bool.not_eq_false] at h
    exact h.2 ▸ h.1
  · cases h

theorem validPositiveInteger_eq_ok (h : validPositiveInteger rejected value label = .ok i) :
    isSafe i = true ∧ 0 < i := by
  unfold validPositiveInteger at h
  split at h
  · simp only [bind_eq_ok, orThrow_eq_ok, reject_eq_ok, exists_unit, pure_eq_ok, not_le] at h
    obtain ⟨_, hsafe, hpositive, rfl⟩ := h
    exact ⟨isSafe_of_safeInteger hsafe, hpositive⟩
  · cases h

theorem validPositiveInteger_of_pos (hsafe : isSafe i = true) (hpositive : 0 < i) :
    validPositiveInteger rejected (integer i) label = .ok i := by
  simp only [validPositiveInteger, integer, safeInteger, hsafe, if_true, orThrow, bind_eq_ok,
    reject_eq_ok, exists_unit, pure_eq_ok, not_le]
  exact ⟨i, rfl, hpositive, rfl⟩

/-- What `validTimestamp` accepts. -/
structure Timestamp (i : ℤ) : Prop where
  positive : 0 < i
  bounded : i ≤ maxTimestamp

theorem Timestamp.safe (h : Timestamp i) : isSafe i = true := by
  obtain ⟨hpositive, hbounded⟩ := h
  simp only [maxTimestamp] at hbounded
  rw [isSafe, maxSafeInteger, decide_eq_true_eq]
  omega

theorem validTimestamp_eq_ok (h : validTimestamp rejected value label = .ok i) : Timestamp i := by
  simp only [validTimestamp, bind_eq_ok, reject_eq_ok, exists_unit, pure_eq_ok, not_lt] at h
  obtain ⟨_, hinteger, hbounded, rfl⟩ := h
  exact ⟨(validPositiveInteger_eq_ok hinteger).2, hbounded⟩

theorem validTimestamp_of_timestamp (h : Timestamp i) :
    validTimestamp rejected (integer i) label = .ok i := by
  simp only [validTimestamp, bind_eq_ok, reject_eq_ok, exists_unit, pure_eq_ok, not_lt]
  exact ⟨i, validPositiveInteger_of_pos h.safe h.positive, h.bounded, rfl⟩

end Fields

/-! ### Identifiers, digests and slugs -/

theorem graphic_of_isOwnerIdentifier {s : JsString} (h : isOwnerIdentifier s = true) :
    Graphic s ∧ 1 ≤ s.length ∧ s.length ≤ 128 := by
  unfold isOwnerIdentifier at h
  split at h
  · rename_i c rest
    simp only [Bool.and_eq_true, decide_eq_true_eq] at h
    obtain ⟨⟨hfirst, hrest⟩, hlength⟩ := h
    refine ⟨?_, by simp, by simp only [List.length_cons]; omega⟩
    have hall : (c :: rest).all (isAlphanumericOr "._:@+-") = true := by
      rw [List.all_cons, hrest, isAlphanumericOr, hfirst]
      rfl
    exact graphic_of_isAlphanumericOr (by decide) hall
  · cases h

theorem validIdentifier_of_isOwnerIdentifier {s : JsString} {label : String}
    (h : isOwnerIdentifier s = true) : validIdentifier rejected (.str s) label = .ok s := by
  obtain ⟨hgraphic, hnonempty, hlength⟩ := graphic_of_isOwnerIdentifier h
  simp only [validIdentifier, bind_eq_ok, reject_eq_ok, exists_unit, pure_eq_ok, Bool.not_eq_false]
  refine ⟨s, validBoundedString_of_bounded ⟨by omega, ?_, hgraphic.isWellFormed⟩, h, rfl⟩
  rw [hgraphic.byteLength]
  exact hlength

theorem auditIdentifier_of_isOwnerIdentifier {s : JsString} {label : String}
    (h : isOwnerIdentifier s = true) : Db.auditIdentifier (.str s) label = .ok s := by
  obtain ⟨hgraphic, hnonempty, hlength⟩ := graphic_of_isOwnerIdentifier h
  have hidentifier : Db.isIdentifier s = true := by
    cases s with
    | nil => cases h
    | cons c rest => exact (Bool.and_eq_true_iff.mp h).1
  simp only [Db.auditIdentifier, bind_eq_ok, reject_eq_ok, exists_unit, pure_eq_ok, hgraphic.trim,
    hidentifier, not_or, not_lt, and_true]
  exact ⟨hnonempty, hlength, fun hne ↦ hne rfl, by simp⟩

/-- A digest is its prefix and the hexadecimal digits the ledger stores. -/
theorem eq_append_of_isDigestText {s : JsString} (h : isDigestText s = true) :
    s = js "sha256:" ++ s.drop 7 ∧ Db.canonicalDigest s = s.drop 7 ∧
      isHexOfLength 64 (s.drop 7) = true := by
  obtain ⟨hstart, hhex⟩ := Bool.and_eq_true_iff.mp h
  obtain ⟨rest, hrest⟩ := List.isPrefixOf_iff_prefix.mp hstart
  refine ⟨?_, by rw [Db.canonicalDigest, hstart, if_pos rfl], hhex⟩
  rw [← hrest]
  rfl

theorem startsWith_of_isHexOfLength {n : ℕ} {s : JsString} (h : isHexOfLength n s = true) :
    startsWith s "sha256:" = false := by
  rw [Bool.eq_false_iff]
  intro hstart
  obtain ⟨rest, rfl⟩ := List.isPrefixOf_iff_prefix.mp hstart
  -- The first letter of the prefix is no hexadecimal digit.
  have hfirst : isLowerHex 0x73 = true :=
    List.all_eq_true.mp (Bool.and_eq_true_iff.mp h).2 _ (List.mem_append_left _ (by decide))
  exact absurd hfirst (by decide)

theorem normalizeDigest_of_isDigestText {s : JsString} {label : String}
    (h : isDigestText s = true) : normalizeDigest (.str (s.drop 7)) label = .ok s := by
  obtain ⟨happend, -, hhex⟩ := eq_append_of_isDigestText h
  simp only [normalizeDigest, startsWith_of_isHexOfLength hhex, Bool.false_eq_true, if_false,
    ← happend]
  simp only [validDigest, bind_eq_ok, reject_eq_ok, exists_unit, pure_eq_ok, h, Bool.true_eq_false,
    not_false_eq_true, true_and]

theorem auditSha256_of_isDigestText {s : JsString} {label : String} (h : isDigestText s = true) :
    Db.auditSha256 (.str s) label = .ok (s.drop 7) := by
  obtain ⟨-, hcanonical, hhex⟩ := eq_append_of_isDigestText h
  simp only [Db.auditSha256, bind_eq_ok, reject_eq_ok, exists_unit, pure_eq_ok, hcanonical, hhex,
    Bool.true_eq_false, not_false_eq_true, true_and]

theorem graphic_of_isGitSha {s : JsString} (h : isGitSha s = true) :
    Graphic s ∧ s.length ∈ [40, 64] ∧ s.all isLowerHex = true := by
  rcases Bool.or_eq_true_iff.mp h with hhex | hhex <;>
  · refine ⟨graphic_of_isHexOfLength hhex, ?_, (Bool.and_eq_true_iff.mp hhex).2⟩
    rw [of_decide_eq_true (Bool.and_eq_true_iff.mp hhex).1]
    decide

theorem auditGitSha_of_isGitSha {s : JsString} {label : String} (h : isGitSha s = true) :
    Db.auditGitSha (.str s) label = .ok s := by
  simp only [Db.auditGitSha, bind_eq_ok, reject_eq_ok, exists_unit, pure_eq_ok, and_true]
  rintro ⟨hshort, hlong⟩
  rw [isGitSha, hshort, hlong] at h
  cases h

theorem validGitSha_of_isGitSha {s : JsString} {label : String} (h : isGitSha s = true) :
    validGitSha rejected (.str s) label = .ok s := by
  simp only [validGitSha, bind_eq_ok, reject_eq_ok, exists_unit, pure_eq_ok, h, Bool.true_eq_false,
    not_false_eq_true, true_and]

/-- What the checks of a repository slug accept. -/
structure LowerSlug (slug : JsString) : Prop where
  valid : validateRepositorySlug (.str slug) = .ok slug
  lower : asciiLower slug = slug

theorem LowerSlug.parts {slug : JsString} (h : LowerSlug slug) :
    ∃ owner repo, splitSlash slug = [owner, repo] ∧ slug = owner ++ js "/" ++ repo ∧
      slug = trim slug ∧ isOwnerName owner = true ∧ includes owner "--" = false ∧
      isRepositoryName repo = true ∧ repo ≠ js "." ∧ repo ≠ js ".." ∧
      endsWith repo ".git" = false := by
  have hvalid := h.valid
  simp only [validateRepositorySlug, bind_eq_ok, reject_eq_ok, exists_unit, not_or,
    not_not] at hvalid
  obtain ⟨⟨-, htrim⟩, hparts⟩ := hvalid
  split at hparts
  · rename_i owner repo hsplit
    simp only [bind_eq_ok, reject_eq_ok, exists_unit, not_or, Bool.not_eq_false,
      Bool.not_eq_true] at hparts
    obtain ⟨⟨howner, hdashes⟩, ⟨hrepo, hdot, hdots, hgit⟩, -⟩ := hparts
    have hjoin := @List.intercalate_splitOn _ slug _ _ (0x2f : UInt16)
    rw [← splitSlash, hsplit] at hjoin
    refine ⟨owner, repo, hsplit, ?_, htrim, howner, hdashes, hrepo, hdot, hdots, hgit⟩
    rw [← hjoin]
    simp [List.intercalate, List.intersperse, js, scalarUnits]
  · cases hparts

theorem isOwnerName_bounds {s : JsString} (h : isOwnerName s = true) :
    Graphic s ∧ 1 ≤ s.length ∧ s.length ≤ 39 := by
  unfold isOwnerName at h
  split at h
  · simp only [Bool.and_eq_true, decide_eq_true_eq] at h
    exact ⟨graphic_of_isAlphanumericOr (by decide) h.1.2, by simp, h.2⟩
  · cases h

theorem isRepositoryName_bounds {s : JsString} (h : isRepositoryName s = true) :
    Graphic s ∧ 1 ≤ s.length ∧ s.length ≤ 100 := by
  simp only [isRepositoryName, Bool.and_eq_true, decide_eq_true_eq] at h
  exact ⟨graphic_of_isAlphanumericOr (by decide) h.2, h.1⟩

theorem LowerSlug.graphic {slug : JsString} (h : LowerSlug slug) :
    Graphic slug ∧ 3 ≤ slug.length ∧ slug.length ≤ 140 := by
  obtain ⟨owner, repo, -, rfl, -, howner, -, hrepo, -⟩ := h.parts
  obtain ⟨hgraphic, hlow, hhigh⟩ := isOwnerName_bounds howner
  obtain ⟨hgraphic', hlow', hhigh'⟩ := isRepositoryName_bounds hrepo
  refine ⟨(hgraphic.append (graphic_of_all (by decide))).append hgraphic', ?_⟩
  have hslash : (js "/").length = 1 := by decide
  simp only [List.length_append, hslash]
  omega

theorem auditRepositorySlug_of_lowerSlug {slug : JsString} (h : LowerSlug slug) :
    Db.auditRepositorySlug (.str slug) = .ok slug := by
  obtain ⟨owner, repo, hsplit, hslug, htrim, howner, hdashes, hrepo, hdot, hdots, hgit⟩ := h.parts
  have hlower := h.lower
  rw [hslug] at hlower
  have hrepolower : asciiLower repo = repo := by
    simp only [asciiLower, List.map_append] at hlower
    exact (List.append_inj' hlower (by simp)).2
  simp only [Db.auditRepositorySlug, hsplit, bind_eq_ok, reject_eq_ok, exists_unit, pure_eq_ok,
    hrepolower, howner, hdashes, hrepo, hdot, hdots, hgit, hlower]
  refine ⟨fun hne ↦ hne htrim, by simp, hslug.symm⟩

/-! ### The bound fields -/

/-- What the checks of the payload say of the fifteen fields. -/
structure BoundFields (c : OwnerAuthorizationConsumption) : Prop where
  authorizationId : isOwnerIdentifier c.authorizationId = true
  envelopeId : isOwnerIdentifier c.envelopeId = true
  envelopeDigest : isDigestText c.envelopeDigest = true
  nonceDigest : isDigestText c.nonceDigest = true
  signerId : isOwnerIdentifier c.signerId = true
  keyId : isOwnerIdentifier c.keyId = true
  repositorySlug : LowerSlug c.repositorySlug
  repositoryId : isSafe c.repositoryId = true ∧ 0 < c.repositoryId
  baseSha : isGitSha c.baseSha = true
  preflightId : isPreflightId c.preflightId = true
  artifactDigest : isDigestText c.artifactDigest = true
  manifestDigest : isDigestText c.manifestDigest = true
  candidateBranch : Bounded 240 c.candidateBranch ∧ isBranchName c.candidateBranch = true
  candidateTreeSha : isGitSha c.candidateTreeSha = true
  expiresAt : Timestamp c.expiresAt

theorem isDigestText_digest (crypto : Crypto PublicKey PrivateKey) (bytes : Bytes) :
    isDigestText (crypto.digest bytes) = true := by
  have hhex := crypto.sha256.isHexOfLength_hex bytes
  have hdrop : (js "sha256:" ++ crypto.sha256.hex bytes).drop 7 = crypto.sha256.hex bytes := rfl
  rw [Crypto.digest, isDigestText, hdrop, hhex, Bool.and_true, startsWith,
    List.isPrefixOf_iff_prefix]
  exact List.prefix_append _ _

theorem lowerSlug_of_validateRepository {value : JsValue} {r : Repository}
    (h : validateRepository value = .ok r) :
    LowerSlug r.slug ∧ isSafe r.id = true ∧ 0 < r.id := by
  simp only [validateRepository, bind_eq_ok, reject_eq_ok, exists_unit, pure_eq_ok, not_not] at h
  obtain ⟨_, -, -, slug, -, slug', hvalid, hlower, id, hid, _, -, rfl⟩ := h
  refine ⟨⟨?_, hlower.symm⟩, validPositiveInteger_eq_ok hid⟩
  -- The check of a slug returns the slug.
  obtain rfl : slug' = slug := by
    simp only [validateRepositorySlug, bind_eq_ok, reject_eq_ok, exists_unit] at hvalid
    obtain ⟨-, hparts⟩ := hvalid
    split at hparts
    · simp only [bind_eq_ok, reject_eq_ok, exists_unit, pure_eq_ok] at hparts
      exact hparts.2.2.symm
    · cases hparts
  exact hvalid

theorem isBranchName_of_validateRepositoryBranch {s t : JsString}
    (h : validateRepositoryBranch (.str s) = .ok t) : isBranchName s = true := by
  simp only [validateRepositoryBranch, bind_eq_ok, reject_eq_ok, exists_unit,
    Bool.not_eq_false] at h
  exact h.1

theorem bound_of_validatePayload (crypto : Crypto PublicKey PrivateKey) (envelopeJson : JsString)
    {value : JsValue} {payload : OwnerAuthorizationPayload}
    (h : validatePayload value = .ok payload) :
    BoundFields (consumptionOf crypto envelopeJson payload) := by
  simp only [validatePayload, bind_eq_ok, reject_eq_ok, exists_unit, pure_eq_ok] at h
  obtain ⟨_, -, -, -, -, nonce, -, _, -, -, envelopeId, henvelope, authorizationId,
    hauthorization, pilotId, -, signerId, hsigner, keyId, hkey, evidence, -, preRun, -, challenge,
    -, completedAt, -, issuedAt, -, notBefore, -, expiresAt, hexpires, underlying, -, repository,
    hrepository, github, -, base, hbase, engine, -, manifest, hmanifest, preview, hpreview, actions,
    -, number, -, rfl⟩ := h
  obtain ⟨hslug, hid⟩ := lowerSlug_of_validateRepository hrepository
  simp only [validateBase, bind_eq_ok, pure_eq_ok] at hbase
  obtain ⟨_, -, _, -, _, -, _, -, _, hsha, rfl⟩ := hbase
  simp only [validateManifest, bind_eq_ok, pure_eq_ok] at hmanifest
  obtain ⟨_, -, _, -, _, -, _, hmanifest, rfl⟩ := hmanifest
  simp only [validatePreview, bind_eq_ok, reject_eq_ok, exists_unit, pure_eq_ok,
    Bool.not_eq_false] at hpreview
  obtain ⟨_, -, -, _, hbranch, _, hname, _, -, hpreflight, _, hartifact, _, htree, _, -, _, -, _,
    -, _, -, _, -, _, -, rfl⟩ := hpreview
  exact {
    authorizationId := validIdentifier_eq_ok hauthorization
    envelopeId := validIdentifier_eq_ok henvelope
    envelopeDigest := isDigestText_digest crypto _
    nonceDigest := isDigestText_digest crypto _
    signerId := validIdentifier_eq_ok hsigner
    keyId := validIdentifier_eq_ok hkey
    repositorySlug := hslug
    repositoryId := hid
    baseSha := validGitSha_eq_ok hsha
    preflightId := hpreflight
    artifactDigest := validDigest_eq_ok hartifact
    manifestDigest := validDigest_eq_ok hmanifest
    candidateBranch :=
      ⟨validBoundedString_eq_ok hbranch, isBranchName_of_validateRepositoryBranch hname⟩
    candidateTreeSha := validGitSha_eq_ok htree
    expiresAt := validTimestamp_eq_ok hexpires }

theorem openEnvelope_payload {envelopeJson digest : JsString} {envelope : Envelope}
    (h : openEnvelope envelopeJson digest = .ok envelope) :
    ∃ value, validatePayload value = .ok envelope.payload := by
  simp only [openEnvelope, bind_eq_ok, reject_eq_ok, exists_unit, pure_eq_ok] at h
  obtain ⟨_, -, _, -, -, -, _, -, _, -, _, -, _, -, -, _, -, raw, -, payload, hpayload, -, -, _, -,
    -, rfl⟩ := h
  exact ⟨raw, hpayload⟩

/-- The fifteen fields of a verified grant are bound, and its grant is not consumed yet. -/
theorem bound_of_verify {crypto : Crypto PublicKey PrivateKey} {host : Host}
    {envelopeJson : JsString} {input : VerifyOwnerAuthorizationInput} {state : GrantState}
    (h : verifyOwnerAuthorizationEnvelope crypto host envelopeJson input = .ok state) :
    BoundFields state.consumption ∧ state.receipt = none ∧
      state.consumption.expiresAt = state.payload.expiresAt := by
  simp only [verifyOwnerAuthorizationEnvelope, bind_eq_ok, reject_eq_ok, exists_unit, pure_eq_ok]
    at h
  obtain ⟨_, -, _, -, _, -, envelope, hopen, -, -, _, -, _, -, -, rfl⟩ := h
  obtain ⟨value, hpayload⟩ := openEnvelope_payload hopen
  exact ⟨bound_of_validatePayload crypto envelopeJson hpayload, rfl, rfl⟩

/-! ### The ledger takes the fields -/

/-- `ownerAuthorizationConsumption` as an input of `consumeOwnerAuthorization`. -/
def OwnerAuthorizationConsumption.input (c : OwnerAuthorizationConsumption) :
    Db.OwnerAuthorizationConsumptionInput where
  authorizationId := .str c.authorizationId
  envelopeId := .str c.envelopeId
  envelopeDigest := .str c.envelopeDigest
  nonceDigest := .str c.nonceDigest
  signerId := .str c.signerId
  keyId := .str c.keyId
  repositorySlug := .str c.repositorySlug
  repositoryId := integer c.repositoryId
  baseSha := .str c.baseSha
  preflightId := .str c.preflightId
  artifactDigest := .str c.artifactDigest
  manifestDigest := .str c.manifestDigest
  candidateBranch := .str c.candidateBranch
  candidateTreeSha := .str c.candidateTreeSha
  expiresAt := integer c.expiresAt

/-- The row of a consumption: digests without their prefix, the slug in lower case. -/
def OwnerAuthorizationConsumption.ledgerRow (c : OwnerAuthorizationConsumption) :
    Db.LedgerInsert where
  authorizationId := c.authorizationId
  envelopeId := c.envelopeId
  envelopeDigest := c.envelopeDigest.drop 7
  nonceDigest := c.nonceDigest.drop 7
  signerId := c.signerId
  keyId := c.keyId
  repositorySlug := asciiLower c.repositorySlug
  repositoryId := c.repositoryId
  baseSha := c.baseSha
  preflightId := c.preflightId
  artifactDigest := c.artifactDigest.drop 7
  manifestDigest := c.manifestDigest.drop 7
  candidateBranch := c.candidateBranch
  candidateTreeSha := c.candidateTreeSha
  expiresAt := c.expiresAt

theorem auditGitHubId_of_pos {i : ℤ} (h : isSafe i = true ∧ 0 < i) :
    Db.auditGitHubId (integer i) = .ok i := by
  simp only [Db.auditGitHubId, integer, safeInteger, h.1, if_true, orThrow, bind_eq_ok,
    reject_eq_ok, exists_unit, pure_eq_ok, not_le]
  exact ⟨i, rfl, h.2, rfl⟩

theorem auditTimestamp_of_timestamp {i : ℤ} {label : String} (h : Timestamp i) :
    Db.auditTimestamp (integer i) label = .ok i := by
  simp only [Db.auditTimestamp, integer, safeInteger, h.safe, if_true, orThrow, bind_eq_ok,
    reject_eq_ok, exists_unit, pure_eq_ok, not_or, not_le, not_lt]
  exact ⟨i, rfl, ⟨h.positive, h.bounded⟩, rfl⟩

theorem auditPreflightId_of_isPreflightId {s : JsString} (h : isPreflightId s = true) :
    Db.auditPreflightId (.str s) = .ok s := by
  obtain ⟨hstart, hhex⟩ := Bool.and_eq_true_iff.mp h
  simp only [Db.auditPreflightId, hstart, hhex, bind_eq_ok, reject_eq_ok, exists_unit, pure_eq_ok,
    Bool.true_eq_false, or_self, not_false_eq_true, true_and]

theorem auditGitBranch_of_isBranchName {s : JsString} (h : isBranchName s = true) :
    Db.auditGitBranch (.str s) = .ok s := by
  simp only [Db.auditGitBranch, h, bind_eq_ok, reject_eq_ok, exists_unit, pure_eq_ok,
    Bool.true_eq_false, not_false_eq_true, true_and]

/-- Every check of `consumeOwnerAuthorization` takes the fields of a grant. -/
theorem BoundFields.audit {c : OwnerAuthorizationConsumption} (h : BoundFields c) :
    Db.auditConsumption c.input = .ok c.ledgerRow := by
  have hslug : asciiLower c.repositorySlug = c.repositorySlug := h.repositorySlug.lower
  simp only [Db.auditConsumption, OwnerAuthorizationConsumption.input,
    auditTimestamp_of_timestamp h.expiresAt, auditIdentifier_of_isOwnerIdentifier h.authorizationId,
    auditIdentifier_of_isOwnerIdentifier h.envelopeId, auditSha256_of_isDigestText h.envelopeDigest,
    auditSha256_of_isDigestText h.nonceDigest, auditIdentifier_of_isOwnerIdentifier h.signerId,
    auditIdentifier_of_isOwnerIdentifier h.keyId,
    auditRepositorySlug_of_lowerSlug h.repositorySlug, auditGitHubId_of_pos h.repositoryId,
    auditGitSha_of_isGitSha h.baseSha, auditPreflightId_of_isPreflightId h.preflightId,
    auditSha256_of_isDigestText h.artifactDigest, auditSha256_of_isDigestText h.manifestDigest,
    auditGitBranch_of_isBranchName h.candidateBranch.2,
    auditGitSha_of_isGitSha h.candidateTreeSha, ok_bind,
    OwnerAuthorizationConsumption.ledgerRow, hslug]
  rfl

/-! ### The table takes the row -/

theorem isSqlLength_of_isOwnerIdentifier {s : JsString} (h : isOwnerIdentifier s = true) :
    Db.isSqlLength 1 128 s = true := by
  obtain ⟨hgraphic, hlength⟩ := graphic_of_isOwnerIdentifier h
  rw [Db.isSqlLength, hgraphic.sqlLength, decide_eq_true_eq]
  exact hlength

theorem isSqlHex_of_isDigestText {s : JsString} (h : isDigestText s = true) :
    Db.isSqlHex [64] (s.drop 7) = true := by
  obtain ⟨-, -, hhex⟩ := eq_append_of_isDigestText h
  obtain ⟨hlength, hall⟩ := Bool.and_eq_true_iff.mp hhex
  rw [Db.isSqlHex, (graphic_of_isHexOfLength hhex).sqlLength, hall, of_decide_eq_true hlength]
  rfl

theorem isSqlHex_of_isGitSha {s : JsString} (h : isGitSha s = true) :
    Db.isSqlHex [40, 64] s = true := by
  obtain ⟨hgraphic, hlength, hall⟩ := graphic_of_isGitSha h
  rw [Db.isSqlHex, hgraphic.sqlLength, hall, decide_eq_true hlength]
  rfl

theorem graphic_of_isPreflightId {s : JsString} (h : isPreflightId s = true) :
    Graphic s ∧ s.length = 67 := by
  obtain ⟨hstart, hhex⟩ := Bool.and_eq_true_iff.mp h
  refine ⟨graphic_of_hex (p := "pf_") (graphic_of_all (by decide)) hstart hhex, ?_⟩
  have hlength := of_decide_eq_true (Bool.and_eq_true_iff.mp hhex).1
  rw [List.length_drop] at hlength
  omega

theorem isLowSurrogate_head {c : UInt16} {rest : JsString}
    (h : Foundation.Text.isWellFormed (c :: rest) = true) : isLowSurrogate c = false := by
  rw [Bool.eq_false_iff]
  intro hlow
  have hhigh : isHighSurrogate c = false := by
    simp only [isLowSurrogate, decide_eq_true_eq] at hlow
    simp only [isHighSurrogate, decide_eq_false_iff_not]
    omega
  cases rest with
  | nil => simp [Foundation.Text.isWellFormed, hlow] at h
  | cons d rest => simp [Foundation.Text.isWellFormed, hlow, hhigh] at h

/-- A branch name has no NUL, and its first character counts. -/
theorem isSqlLength_of_isBranchName {s : JsString} (hs : Bounded 240 s)
    (h : isBranchName s = true) : Db.isSqlLength 1 240 s = true := by
  simp only [isBranchName, Bool.not_eq_true', decide_eq_false_iff_not, not_or, not_lt,
    Bool.not_eq_true] at h
  obtain ⟨-, hlength, -, -, -, -, -, -, -, -, -, hforbidden, -⟩ := h
  have hunits : s.takeWhile (fun c ↦ c ≠ 0) = s := by
    refine List.takeWhile_eq_self_iff.mpr fun c hc ↦ ?_
    rw [decide_eq_true_eq]
    rintro rfl
    exact absurd (List.any_eq_false.mp hforbidden 0 hc) (by decide)
  rw [Db.isSqlLength, Db.sqlLength, hunits, decide_eq_true_eq]
  refine ⟨?_, (List.length_filter_le _ _).trans hlength⟩
  cases s with
  | nil => exact absurd rfl hs.nonempty
  | cons c rest =>
    rw [List.filter_cons_of_pos (by rw [isLowSurrogate_head hs.unicode]; rfl), List.length_cons]
    omega

/-- The row of a grant, consumed while it is live, reads back as it was written and satisfies every
constraint of the table. -/
theorem BoundFields.stored {c : OwnerAuthorizationConsumption} (h : BoundFields c) {consumedAt : ℤ}
    (hpositive : 0 < consumedAt) (hlive : consumedAt < c.expiresAt) :
    Db.Consumption.stored { c.ledgerRow with consumedAt } = { c.ledgerRow with consumedAt } ∧
      Db.Consumption.satisfiesChecks { c.ledgerRow with consumedAt } = true := by
  have hslug : asciiLower c.repositorySlug = c.repositorySlug := h.repositorySlug.lower
  obtain ⟨hgraphic, hlow, hhigh⟩ := h.repositorySlug.graphic
  obtain ⟨hpreflight, hlength⟩ := graphic_of_isPreflightId h.preflightId
  obtain ⟨hstart, hhex⟩ := Bool.and_eq_true_iff.mp h.preflightId
  have hdigest : ∀ {s : JsString}, isDigestText s = true → Db.sqlText (s.drop 7) = s.drop 7 :=
    fun hs ↦ (graphic_of_isHexOfLength (eq_append_of_isDigestText hs).2.2).sqlText
  constructor
  · simp only [Db.Consumption.stored, OwnerAuthorizationConsumption.ledgerRow, hslug,
      hgraphic.sqlText, hpreflight.sqlText,
      (graphic_of_isOwnerIdentifier h.authorizationId).1.sqlText,
      (graphic_of_isOwnerIdentifier h.envelopeId).1.sqlText,
      (graphic_of_isOwnerIdentifier h.signerId).1.sqlText,
      (graphic_of_isOwnerIdentifier h.keyId).1.sqlText, hdigest h.envelopeDigest,
      hdigest h.nonceDigest, hdigest h.artifactDigest, hdigest h.manifestDigest,
      (graphic_of_isGitSha h.baseSha).1.sqlText, (graphic_of_isGitSha h.candidateTreeSha).1.sqlText,
      show Db.sqlText c.candidateBranch = c.candidateBranch from
        utf8Decode_utf8Encode _ h.candidateBranch.1.unicode]
  · have hsqlslug : Db.isSqlLength 3 140 c.repositorySlug = true := by
      rw [Db.isSqlLength, hgraphic.sqlLength, decide_eq_true_eq]
      exact ⟨hlow, hhigh⟩
    simp only [Db.Consumption.satisfiesChecks, OwnerAuthorizationConsumption.ledgerRow, hslug,
      isSqlLength_of_isOwnerIdentifier h.authorizationId,
      isSqlLength_of_isOwnerIdentifier h.envelopeId, isSqlLength_of_isOwnerIdentifier h.signerId,
      isSqlLength_of_isOwnerIdentifier h.keyId, isSqlHex_of_isDigestText h.envelopeDigest,
      isSqlHex_of_isDigestText h.nonceDigest, isSqlHex_of_isDigestText h.artifactDigest,
      isSqlHex_of_isDigestText h.manifestDigest, hsqlslug, isSqlHex_of_isGitSha h.baseSha,
      isSqlHex_of_isGitSha h.candidateTreeSha, hpreflight.sqlLength, hlength, hstart,
      (Bool.and_eq_true_iff.mp hhex).2,
      isSqlLength_of_isBranchName h.candidateBranch.1 h.candidateBranch.2, h.repositoryId.2,
      hpositive, hlive, decide_true, Bool.and_self, and_self]

/-! ### The row as a receipt -/

/-- The members of a row that `consumeOwnerAuthorization` returns. -/
def rowMembers (r : Db.Consumption) : List Member :=
  [(js "authorizationId", .str r.authorizationId),
    (js "envelopeId", .str r.envelopeId),
    (js "envelopeDigest", .str r.envelopeDigest),
    (js "nonceDigest", .str r.nonceDigest),
    (js "signerId", .str r.signerId),
    (js "keyId", .str r.keyId),
    (js "repositorySlug", .str r.repositorySlug),
    (js "repositoryId", integer r.repositoryId),
    (js "baseSha", .str r.baseSha),
    (js "preflightId", .str r.preflightId),
    (js "artifactDigest", .str r.artifactDigest),
    (js "manifestDigest", .str r.manifestDigest),
    (js "candidateBranch", .str r.candidateBranch),
    (js "candidateTreeSha", .str r.candidateTreeSha),
    (js "expiresAt", integer r.expiresAt),
    (js "consumedAt", integer r.consumedAt)]

/-- The object with the members of the row, in any order. -/
def IsRow (r : Db.Consumption) (receipt : JsValue) : Prop :=
  ∃ ms, receipt = .obj ms ∧ (rowMembers r).Perm ms

theorem keys_rowMembers (r : Db.Consumption) :
    (rowMembers r).map Prod.fst = receiptKeys.map js := rfl

theorem nodup_keys_of_perm {r : Db.Consumption} {ms : List Member} (h : (rowMembers r).Perm ms) :
    (ms.map Prod.fst).Nodup := by
  refine (h.map Prod.fst).nodup_iff.mp ?_
  rw [keys_rowMembers]
  decide

theorem field_of_perm {r : Db.Consumption} {ms : List Member} (h : (rowMembers r).Perm ms)
    {key : String} {value : JsValue} (hmem : (js key, value) ∈ rowMembers r) :
    field ms key = value :=
  getMember_of_mem (nodup_keys_of_perm h) (h.mem_iff.mp hmem)

theorem assertExactKeys_of_perm {r : Db.Consumption} {ms : List Member} {label : String}
    (h : (rowMembers r).Perm ms) : assertExactKeys rejected ms receiptKeys label = .ok () := by
  rw [assertExactKeys, reject_eq_ok, not_not]
  have hperm : ((sortByKey ms).map Prod.fst).Perm
      ((receiptKeys.map js).insertionSort (· ≤ ·)) := by
    rw [← keys_rowMembers r]
    exact (((sortByKey_perm ms).trans h.symm).map Prod.fst).trans (List.perm_insertionSort _ _).symm
  refine List.Perm.eq_of_pairwise (fun a b _ _ ↦ List.le_antisymm)
    (List.pairwise_map.mpr (pairwise_sortByKey ms)) (List.pairwise_insertionSort _ _) hperm

theorem LowerSlug.bounded {slug : JsString} (h : LowerSlug slug) : Bounded 140 slug := by
  obtain ⟨hgraphic, hlow, hhigh⟩ := h.graphic
  exact ⟨by omega, by rwa [hgraphic.byteLength], hgraphic.isWellFormed⟩

theorem bounded_of_isPreflightId {s : JsString} (h : isPreflightId s = true) : Bounded 67 s := by
  obtain ⟨hgraphic, hlength⟩ := graphic_of_isPreflightId h
  exact ⟨by omega, by rw [hgraphic.byteLength, hlength], hgraphic.isWellFormed⟩

/-- Read as a receipt, the row of a grant is its consumption again, with the time. -/
theorem BoundFields.validateReceipt {c : OwnerAuthorizationConsumption} (h : BoundFields c) {consumedAt : ℤ}
    (hconsumed : Timestamp consumedAt) {receipt : JsValue}
    (hrow : IsRow { c.ledgerRow with consumedAt } receipt) :
    OwnerAuthorization.validateReceipt receipt = .ok { c with consumedAt } := by
  obtain ⟨ms, rfl, hperm⟩ := hrow
  have hslug : asciiLower c.repositorySlug = c.repositorySlug := h.repositorySlug.lower
  have hbranch : validateRepositoryBranch (.str c.candidateBranch) = .ok c.candidateBranch := by
    simp only [validateRepositoryBranch, h.candidateBranch.2, bind_eq_ok, reject_eq_ok,
      exists_unit, pure_eq_ok, Bool.true_eq_false, not_false_eq_true, true_and]
  have hfield : ∀ {key : String} {value : JsValue},
      (js key, value) ∈ rowMembers { c.ledgerRow with consumedAt } → field ms key = value :=
    fun hmem ↦ field_of_perm hperm hmem
  have hauthorization : field ms "authorizationId" = .str c.authorizationId :=
    hfield (by simp [rowMembers, OwnerAuthorizationConsumption.ledgerRow])
  have henvelope : field ms "envelopeId" = .str c.envelopeId :=
    hfield (by simp [rowMembers, OwnerAuthorizationConsumption.ledgerRow])
  have hdigest : field ms "envelopeDigest" = .str (c.envelopeDigest.drop 7) :=
    hfield (by simp [rowMembers, OwnerAuthorizationConsumption.ledgerRow])
  have hnonce : field ms "nonceDigest" = .str (c.nonceDigest.drop 7) :=
    hfield (by simp [rowMembers, OwnerAuthorizationConsumption.ledgerRow])
  have hsigner : field ms "signerId" = .str c.signerId :=
    hfield (by simp [rowMembers, OwnerAuthorizationConsumption.ledgerRow])
  have hkey : field ms "keyId" = .str c.keyId :=
    hfield (by simp [rowMembers, OwnerAuthorizationConsumption.ledgerRow])
  have hrepository : field ms "repositorySlug" = .str c.repositorySlug :=
    hfield (by simp [rowMembers, OwnerAuthorizationConsumption.ledgerRow, hslug])
  have hid : field ms "repositoryId" = integer c.repositoryId :=
    hfield (by simp [rowMembers, OwnerAuthorizationConsumption.ledgerRow])
  have hsha : field ms "baseSha" = .str c.baseSha :=
    hfield (by simp [rowMembers, OwnerAuthorizationConsumption.ledgerRow])
  have hpreflight : field ms "preflightId" = .str c.preflightId :=
    hfield (by simp [rowMembers, OwnerAuthorizationConsumption.ledgerRow])
  have hartifact : field ms "artifactDigest" = .str (c.artifactDigest.drop 7) :=
    hfield (by simp [rowMembers, OwnerAuthorizationConsumption.ledgerRow])
  have hmanifest : field ms "manifestDigest" = .str (c.manifestDigest.drop 7) :=
    hfield (by simp [rowMembers, OwnerAuthorizationConsumption.ledgerRow])
  have hcandidate : field ms "candidateBranch" = .str c.candidateBranch :=
    hfield (by simp [rowMembers, OwnerAuthorizationConsumption.ledgerRow])
  have htree : field ms "candidateTreeSha" = .str c.candidateTreeSha :=
    hfield (by simp [rowMembers, OwnerAuthorizationConsumption.ledgerRow])
  have hexpires : field ms "expiresAt" = integer c.expiresAt :=
    hfield (by simp [rowMembers, OwnerAuthorizationConsumption.ledgerRow])
  have htime : field ms "consumedAt" = integer consumedAt :=
    hfield (by simp [rowMembers, OwnerAuthorizationConsumption.ledgerRow])
  have hpreflightId : reject (isPreflightId c.preflightId = false)
      (rejected "invalid receipt preflightId") = .ok () := by
    rw [reject_eq_ok, h.preflightId]
    decide
  simp only [OwnerAuthorization.validateReceipt, asRecord, assertExactKeys_of_perm hperm, ok_bind,
    hrepository, validBoundedString_of_bounded h.repositorySlug.bounded, h.repositorySlug.valid,
    hpreflight, validBoundedString_of_bounded (bounded_of_isPreflightId h.preflightId),
    hpreflightId, hcandidate, validBoundedString_of_bounded h.candidateBranch.1, hbranch,
    hauthorization, validIdentifier_of_isOwnerIdentifier h.authorizationId, henvelope,
    validIdentifier_of_isOwnerIdentifier h.envelopeId, hdigest,
    normalizeDigest_of_isDigestText h.envelopeDigest, hnonce,
    normalizeDigest_of_isDigestText h.nonceDigest, hsigner,
    validIdentifier_of_isOwnerIdentifier h.signerId, hkey,
    validIdentifier_of_isOwnerIdentifier h.keyId, hid,
    validPositiveInteger_of_pos h.repositoryId.1 h.repositoryId.2, hsha,
    validGitSha_of_isGitSha h.baseSha, hartifact, normalizeDigest_of_isDigestText h.artifactDigest,
    hmanifest, normalizeDigest_of_isDigestText h.manifestDigest, htree,
    validGitSha_of_isGitSha h.candidateTreeSha, hexpires, validTimestamp_of_timestamp h.expiresAt,
    htime, validTimestamp_of_timestamp hconsumed, hslug]
  rfl

/-! ### Receipts and grants -/

theorem canonical_consumption (c : OwnerAuthorizationConsumption) : Canonical c.json := by
  refine canonical_obj ?_ (by simp)
  change (["artifactDigest", "authorizationId", "baseSha", "candidateBranch", "candidateTreeSha",
    "envelopeDigest", "envelopeId", "expiresAt", "keyId", "manifestDigest", "nonceDigest",
    "preflightId", "repositoryId", "repositorySlug", "signerId"].map js).Pairwise (· < ·)
  decide

theorem consumption_json_injective {c c' : OwnerAuthorizationConsumption}
    (h : c.json = c'.json) : c = c' := by
  obtain ⟨_, _, _, _, _, _, _, _, _, _, _, _, _, _, _⟩ := c
  obtain ⟨_, _, _, _, _, _, _, _, _, _, _, _, _, _, _⟩ := c'
  simp only [OwnerAuthorizationConsumption.json, integer, JsValue.obj.injEq, List.cons.injEq,
    Prod.mk.injEq, JsValue.str.injEq, JsValue.num.injEq, JsNumber.int.injEq, true_and, and_true]
    at h
  obtain ⟨rfl, rfl, rfl, rfl, rfl, rfl, rfl, rfl, rfl, rfl, rfl, rfl, rfl, rfl, rfl⟩ := h
  rfl

/-- The fields of a grant have a canonical text. -/
theorem BoundFields.text {c : OwnerAuthorizationConsumption} (h : BoundFields c) :
    canonicalJson c.json = .ok (compactText c.json) := by
  refine (canonicalJson_of_canonical (canonical_consumption c)).mpr ⟨?_, rfl⟩
  have hidentifier : ∀ {s : JsString}, isOwnerIdentifier s = true → IJson (.str s) :=
    fun hs ↦ .str (graphic_of_isOwnerIdentifier hs).1.isWellFormed
  have hdigest : ∀ {s : JsString}, isDigestText s = true → IJson (.str s) :=
    fun hs ↦ .str (isWellFormed_of_isDigestText hs)
  have hsha : ∀ {s : JsString}, isGitSha s = true → IJson (.str s) :=
    fun hs ↦ .str (graphic_of_isGitSha hs).1.isWellFormed
  have hdistinct : DistinctKeys c.json := (canonical_consumption c).1
  rw [OwnerAuthorizationConsumption.json] at hdistinct ⊢
  cases hdistinct with | obj hkeys _ =>
  refine .obj hkeys ?_ ?_
  · simp only [List.forall_mem_cons, isWellFormed_js, List.not_mem_nil, IsEmpty.forall_iff,
      implies_true, and_self]
  · simp only [List.forall_mem_cons, List.not_mem_nil, IsEmpty.forall_iff, implies_true, and_true]
    exact ⟨hdigest h.artifactDigest, hidentifier h.authorizationId, hsha h.baseSha,
      .str h.candidateBranch.1.unicode, hsha h.candidateTreeSha, hdigest h.envelopeDigest,
      hidentifier h.envelopeId, .num h.expiresAt.safe, hidentifier h.keyId,
      hdigest h.manifestDigest, hdigest h.nonceDigest,
      .str (graphic_of_isPreflightId h.preflightId).1.isWellFormed, .num h.repositoryId.1,
      .str h.repositorySlug.graphic.1.isWellFormed, hidentifier h.signerId⟩

theorem BoundFields.timestamp {c : OwnerAuthorizationConsumption} (h : BoundFields c) {i : ℤ}
    (hpositive : 0 < i) (hlive : i < c.expiresAt) : Timestamp i :=
  ⟨hpositive, hlive.le.trans h.expiresAt.bounded⟩

section Marking

variable {crypto : Crypto PublicKey PrivateKey} {host : Host} {state : GrantState}
  {c : OwnerAuthorizationConsumption} {consumedAt now : ℤ} {receipt : JsValue}

/-- The row of another grant is refused. -/
theorem markGrantConsumed_of_ne (hstate : BoundFields state.consumption)
    (hunconsumed : state.receipt = none) (hc : BoundFields c) (hconsumed : Timestamp consumedAt)
    (hrow : IsRow { c.ledgerRow with consumedAt } receipt) (hne : c ≠ state.consumption) :
    markGrantConsumed crypto host state receipt now =
      .error (rejected "durable consumption receipt does not match the verified grant") := by
  have htext : compactText c.json ≠ compactText state.consumption.json := by
    intro htext
    have hexpected := hstate.text
    rw [← htext] at hexpected
    exact hne (consumption_json_injective (eq_of_canonicalJson_eq (canonical_consumption _)
      (canonical_consumption _) hc.text hexpected))
  simp only [markGrantConsumed, activeGrantState, bind_eq_error, reject_eq_ok, exists_unit]
  exact Or.inr ⟨fun h ↦ h hunconsumed, Or.inr ⟨_, hc.validateReceipt hconsumed hrow,
    Or.inr ⟨_, hc.text, Or.inr ⟨_, hstate.text, Or.inl (by rw [reject, if_pos htext])⟩⟩⟩⟩

/-- The row of the grant itself is taken, when the time of the consumption is in the window of the
payload and the checks after it pass. -/
theorem markGrantConsumed_of_eq (hstate : BoundFields state.consumption)
    (hunconsumed : state.receipt = none) (hconsumed : Timestamp consumedAt)
    (hrow : IsRow { state.consumption.ledgerRow with consumedAt } receipt)
    (hstarted : max state.payload.notBefore state.payload.issuedAt ≤ consumedAt)
    (hlive : consumedAt < state.payload.expiresAt)
    (hclock : validClock now "post-consumption clock" = .ok now)
    (htimes : assertPayloadTimes state.payload now = .ok ())
    (hregistry : assertRegistryStillAuthorizes crypto host state state.registryPath now = .ok ()) :
    markGrantConsumed crypto host state receipt now =
      .ok { state with receipt := some { state.consumption with consumedAt } } := by
  obtain ⟨hnotBefore, hissued⟩ := max_le_iff.mp hstarted
  have hwindow : ¬ (consumedAt < state.payload.notBefore ∨ consumedAt < state.payload.issuedAt ∨
      state.payload.expiresAt ≤ consumedAt) := by
    omega
  simp only [markGrantConsumed, activeGrantState, bind_eq_ok, reject_eq_ok, exists_unit,
    pure_eq_ok]
  exact ⟨fun h ↦ h hunconsumed, _, hstate.validateReceipt hconsumed hrow, _, hstate.text, _,
    hstate.text, fun h ↦ h rfl, hwindow, now, hclock, htimes, hregistry, rfl⟩

end Marking

/-! ### The round trip -/

section RoundTrip

variable {ι : Type} [DecidableEq ι] {calls : ι → Db.Call} {db : Db.Database} {i : ι}
  {c : OwnerAuthorizationConsumption} {r : Db.Consumption}
  {finish : Config Db.Op (fun op ↦ Except String op.Answer) String Db.Reply (Db.Shared ι) ι}

/-- What a call that consumes a grant returns is the row of the grant, at a time it was live. -/
theorem BoundFields.consumed (h : BoundFields c) (hrun : Config.Run Db.Step (Db.begin db calls) finish)
    (hcall : calls i = .consumeOwnerAuthorization c.input)
    (hdone : (finish.thread i).rest = .done (.ok (.consumed r))) :
    r = { c.ledgerRow with consumedAt := r.consumedAt } ∧ Timestamp r.consumedAt ∧
      r.consumedAt < c.expiresAt := by
  obtain ⟨value, haudit, hvalue, hpositive, hlive⟩ := Db.consumed_of_done hrun hcall hdone
  obtain rfl := Except.ok.inj (h.audit.symm.trans haudit)
  have hexpires : r.consumedAt < c.expiresAt := by
    rwa [show r.expiresAt = c.expiresAt from congrArg Db.LedgerInsert.expiresAt hvalue] at hlive
  exact ⟨by rw [← hvalue], h.timestamp hpositive hexpires, hexpires⟩

end RoundTrip

/-- **The ledger projection.** The consumption of a verified grant passes every check of
`consumeOwnerAuthorization`, and at any time it is live its row reads back as it was written and
satisfies the constraints of the table. In any run of the processes that share the ledger, the row
that consuming the grant returns is that row, and as a receipt, its members in any order, the grant
takes it when the time of the consumption is in the window of the payload and the checks after it
pass. A row a ledger holds for another grant, with any of the fifteen fields different, is
refused. -/
theorem ledger_projection_round_trip {crypto : Crypto PublicKey PrivateKey} {host : Host}
    {envelopeJson : JsString} {input : VerifyOwnerAuthorizationInput} {state : GrantState}
    (hverify : verifyOwnerAuthorizationEnvelope crypto host envelopeJson input = .ok state) :
    Db.auditConsumption state.consumption.input = .ok state.consumption.ledgerRow ∧
    (∀ consumedAt, 0 < consumedAt → consumedAt < state.consumption.expiresAt →
      Db.Consumption.stored { state.consumption.ledgerRow with consumedAt } =
          { state.consumption.ledgerRow with consumedAt } ∧
        Db.Consumption.satisfiesChecks { state.consumption.ledgerRow with consumedAt } = true) ∧
    (∀ (ι : Type) [DecidableEq ι] (calls : ι → Db.Call) (db : Db.Database)
      (finish : Config Db.Op (fun op ↦ Except String op.Answer) String Db.Reply (Db.Shared ι) ι)
      (i : ι) (r : Db.Consumption), Config.Run Db.Step (Db.begin db calls) finish →
      calls i = .consumeOwnerAuthorization state.consumption.input →
      (finish.thread i).rest = .done (.ok (.consumed r)) →
      r.toLedgerInsert = state.consumption.ledgerRow ∧
        ∀ receipt host' now, IsRow r receipt →
          max state.payload.notBefore state.payload.issuedAt ≤ r.consumedAt →
          r.consumedAt < state.payload.expiresAt →
          validClock now "post-consumption clock" = .ok now →
          assertPayloadTimes state.payload now = .ok () →
          assertRegistryStillAuthorizes crypto host' state state.registryPath now = .ok () →
          markGrantConsumed crypto host' state receipt now =
            .ok { state with
              receipt := some { state.consumption with consumedAt := r.consumedAt } }) ∧
    ∀ (crypto' : Crypto PublicKey PrivateKey) (host' : Host) (envelopeJson' : JsString)
      (input' : VerifyOwnerAuthorizationInput) (state' : GrantState),
      verifyOwnerAuthorizationEnvelope crypto' host' envelopeJson' input' = .ok state' →
      state'.consumption ≠ state.consumption →
      ∀ (table : Db.LedgerTable), ∀ r ∈ table.rows,
        r.toLedgerInsert = state'.consumption.ledgerRow →
        ∀ receipt host'' now, IsRow r receipt →
          markGrantConsumed crypto host'' state receipt now =
            .error (rejected "durable consumption receipt does not match the verified grant") := by
  obtain ⟨hbound, hunconsumed, -⟩ := bound_of_verify hverify
  refine ⟨hbound.audit, fun consumedAt hpositive hlive ↦ hbound.stored hpositive hlive, ?_, ?_⟩
  · intro ι _ calls db finish i r hrun hcall hdone
    obtain ⟨hr, htimestamp, -⟩ := hbound.consumed hrun hcall hdone
    refine ⟨by rw [hr], ?_⟩
    intro receipt host' now hrow hstarted hlive hclock htimes hregistry
    rw [hr] at hrow
    exact markGrantConsumed_of_eq hbound hunconsumed htimestamp hrow hstarted hlive hclock htimes
      hregistry
  · intro crypto' host' envelopeJson' input' state' hverify' hne table r hr hinsert receipt host''
      now hrow
    obtain ⟨hbound', -, -⟩ := bound_of_verify hverify'
    obtain ⟨hpositive, hlive⟩ := Db.consumedAt_of_satisfiesChecks (table.checked r hr)
    rw [show r.expiresAt = state'.consumption.expiresAt from
      congrArg Db.LedgerInsert.expiresAt hinsert] at hlive
    have hshape : r = { state'.consumption.ledgerRow with consumedAt := r.consumedAt } := by
      rw [← hinsert]
    rw [hshape] at hrow
    exact markGrantConsumed_of_ne hbound hunconsumed hbound' (hbound'.timestamp hpositive hlive)
      hrow hne

end ApiMigrator.App.OwnerAuthorization
