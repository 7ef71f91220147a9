import ApiMigrator.App.OwnerApproval

/-!
The window of an issued envelope. The signer takes the least of three limits for the expiry, and the
runtime verifies the envelope under limits of its own: while the registry reads as it did at the
signing, the two agree on the whole interval.
-/

set_option autoImplicit false
set_option relaxedAutoImplicit false

namespace ApiMigrator.App.OwnerSigner

open Foundation.Text Foundation.Number Foundation.Json Foundation.Outcome Foundation.Pattern
open Foundation.Binary Foundation.Base64
open CanonicalJson PublicationRunner OwnerAuthorization OwnerChallenge

variable {PublicKey PrivateKey : Type}

/-! ### Checks at another time -/

/-- A timestamp is positive, and no later than the last one. -/
theorem validTimestamp_bounds {refused : String → String} {value : JsValue} {label : String}
    {i : ℤ} (h : validTimestamp refused value label = .ok i) :
    0 < i ∧ i ≤ OwnerAuthorization.maxTimestamp := by
  simp only [validTimestamp, bind_eq_ok, reject_eq_ok, exists_unit, pure_eq_ok, not_lt] at h
  obtain ⟨_, hpositive, hle, rfl⟩ := h
  refine ⟨?_, hle⟩
  unfold validPositiveInteger at hpositive
  split at hpositive
  · simp only [bind_eq_ok, reject_eq_ok, exists_unit, pure_eq_ok, not_le] at hpositive
    obtain ⟨_, -, hlt, rfl⟩ := hpositive
    exact hlt
  · cases hpositive

theorem validClock_of_bounds {t : ℤ} {label : String} (hpos : 0 < t)
    (hle : t ≤ OwnerAuthorization.maxTimestamp) : validClock t label = .ok t := by
  have hsafe : isSafe t = true := by
    refine decide_eq_true ?_
    rw [OwnerAuthorization.maxTimestamp] at hle
    simp only [maxSafeInteger]
    omega
  simp only [validClock, validTimestamp, validPositiveInteger, integer, safeInteger, hsafe,
    bind_eq_ok, reject_eq_ok, exists_unit, pure_eq_ok, orThrow_eq_ok, not_lt, not_le]
  exact ⟨t, ⟨t, rfl, hpos, rfl⟩, hle, rfl⟩

theorem openEnvelope_bounds {envelopeJson digest : JsString} {envelope : Envelope}
    (h : openEnvelope envelopeJson digest = .ok envelope) :
    0 < envelope.payload.notBefore ∧
      envelope.payload.expiresAt ≤ OwnerAuthorization.maxTimestamp := by
  simp only [openEnvelope, bind_eq_ok, reject_eq_ok, exists_unit, pure_eq_ok] at h
  obtain ⟨_, -, _, -, -, -, _, -, _, -, _, -, _, -, -, _, -, _, -, payload, hpayload, -, -, _, -,
    -, rfl⟩ := h
  simp only [validatePayload, bind_eq_ok, reject_eq_ok, exists_unit, pure_eq_ok] at hpayload
  obtain ⟨_, -, -, -, -, _, -, _, -, -, _, -, _, -, _, -, _, -, _, -, _, -, _, -, _, -, _, -, _, -,
    notBefore, hnotBefore, expiresAt, hexpires, _, -, _, -, _, -, _, -, _, -, _, -, _, -, _, -, _, -, rfl⟩ :=
    hpayload
  exact ⟨(validTimestamp_bounds hnotBefore).1, (validTimestamp_bounds hexpires).2⟩

theorem assertPayloadTimes_of_ok {payload : OwnerAuthorizationPayload} {n t : ℤ}
    (h : assertPayloadTimes payload n = .ok ()) (hstarted : payload.notBefore ≤ t)
    (hlive : t < payload.expiresAt) : assertPayloadTimes payload t = .ok () := by
  simp only [assertPayloadTimes, bind_eq_ok, reject_eq_ok, exists_unit, not_lt, not_le, not_or]
    at h ⊢
  obtain ⟨hpreview, hissued, hwindow, hlifetime, hunderlying, -, -, hcreates, hupdates⟩ := h
  exact ⟨hpreview, hissued, hwindow, hlifetime, hunderlying, hstarted,
    ⟨hlive, hlive.trans_le hunderlying⟩, hcreates, hupdates⟩

/-- The key that was selected from a registry is selected again wherever the registry reads the
same, while the payload is live. -/
theorem readAndSelectRegistryKey_of_ok {crypto : Crypto PublicKey PrivateKey} {host host' : Host}
    {path path' : JsString} {payload : OwnerAuthorizationPayload} {n t : ℤ}
    {key : VerifiedRegistryKey PublicKey}
    (h : readAndSelectRegistryKey crypto host path payload n = .ok key)
    (hread : host'.readOwnerOnlyFile path' = host.readOwnerOnlyFile path)
    (hissued : payload.issuedAt ≤ t) (hlive : t < payload.expiresAt) :
    readAndSelectRegistryKey crypto host' path' payload t = .ok key := by
  have hregistry : readRegistry crypto host' path' = readRegistry crypto host path := by
    simp only [readRegistry, hread]
  simp only [readAndSelectRegistryKey, bind_eq_ok, reject_eq_ok, exists_unit, orThrow_eq_ok,
    pure_eq_ok, not_or, not_lt, not_le, hregistry] at h ⊢
  obtain ⟨registry, hregistry, hunrevoked, entry, hfind, hsigner, registered, hregistered, signed,
    hsigned, hsame, hkey, ⟨-, hfrom⟩, ⟨-, houtlives⟩, publicKey, hpublic, rfl⟩ := h
  exact ⟨registry, hregistry, hunrevoked, entry, hfind, hsigner, registered, hregistered, signed,
    hsigned, hsame, hkey, ⟨hfrom.trans hissued, hfrom⟩, ⟨hlive.trans_le houtlives, houtlives⟩,
    publicKey, hpublic, rfl⟩

/-- What a host reads as the registry when a path is asked for. -/
def ReadsRegistry (host : Host) (path : Option JsString) (file : OwnerFile) : Prop :=
  ∃ resolved, resolveRegistryPath host path = .ok resolved ∧
    host.readOwnerOnlyFile resolved = .ok file

/-- The registry file that the oracle of a signing reads, at the real path of the one asked for. -/
def SigningRegistry (signer : Signer) (input : SignOwnerAuthorizationChallengeFileInput)
    (file : OwnerFile) : Prop :=
  ∃ requested, signer.readOwnerOnlyExternalFile input.registryPath maxRegistryBytes
      "owner key registry" = .ok requested ∧
    ReadsRegistry signer.toHost (some requested.canonicalPath) file

/-- What a host reads as the registry of a grant. -/
def ReadsGrantRegistry (host : Host) (state : GrantState) (path : Option JsString)
    (file : OwnerFile) : Prop :=
  ∃ resolved, requestedPath host state path = .ok resolved ∧
    host.readOwnerOnlyFile resolved = .ok file

theorem exists_readsRegistry {crypto : Crypto PublicKey PrivateKey} {host : Host}
    {envelopeJson : JsString} {input : VerifyOwnerAuthorizationInput} {state : GrantState}
    (h : verifyOwnerAuthorizationEnvelope crypto host envelopeJson input = .ok state) :
    ∃ file, ReadsRegistry host input.registryPath file := by
  simp only [verifyOwnerAuthorizationEnvelope, readAndSelectRegistryKey, readRegistry, bind_eq_ok,
    reject_eq_ok, exists_unit, pure_eq_ok] at h
  obtain ⟨_, -, _, -, _, -, _, -, -, -, resolved, hresolved, _, ⟨_, ⟨file, hfile, -⟩, -⟩, -⟩ := h
  exact ⟨file, resolved, hresolved, hfile⟩

/-- An envelope that was verified once makes the same grant wherever the same registry is read,
while its payload is live. -/
theorem verifyOwnerAuthorizationEnvelope_of_ok {crypto : Crypto PublicKey PrivateKey}
    {host host' : Host} {envelopeJson : JsString} {input : VerifyOwnerAuthorizationInput}
    {state : GrantState} {file : OwnerFile} {path : Option JsString} {t : ℤ}
    (h : verifyOwnerAuthorizationEnvelope crypto host envelopeJson input = .ok state)
    (hfile : ReadsRegistry host input.registryPath file) (hread : ReadsRegistry host' path file)
    (hstarted : state.payload.notBefore ≤ t) (hlive : t < state.payload.expiresAt) :
    verifyOwnerAuthorizationEnvelope crypto host' envelopeJson
      { input with registryPath := path, now := t } = .ok state := by
  simp only [verifyOwnerAuthorizationEnvelope, bind_eq_ok, reject_eq_ok, exists_unit, pure_eq_ok]
    at h ⊢
  obtain ⟨now, hnow, expected, hexpected, digest, hdigest, envelope, hopen, htimes, hbindings,
    resolved, hresolved, key, hkey, hverify, rfl⟩ := h
  obtain ⟨resolved', hresolved', hfile⟩ := hfile
  obtain rfl := Except.ok.inj (hresolved.symm.trans hresolved')
  obtain ⟨path', hpath', hread⟩ := hread
  have hwindow := assertPayloadTimes_eq_ok htimes
  obtain ⟨hpos, hle⟩ := openEnvelope_bounds hopen
  have hclock : validClock t "verification clock" = .ok t :=
    validClock_of_bounds (hpos.trans_le hstarted) (hlive.le.trans hle)
  exact ⟨t, hclock, expected, hexpected, digest, hdigest, envelope, hopen,
    assertPayloadTimes_of_ok htimes hstarted hlive, hbindings, path', hpath', key,
    readAndSelectRegistryKey_of_ok hkey (hread.trans hfile.symm)
      (hwindow.issued.trans hstarted) hlive, hverify, rfl⟩

/-- The grant of an envelope is current wherever the same registry is read, while its payload is
live. -/
theorem assertCurrentOwnerGrant_of_verified {crypto : Crypto PublicKey PrivateKey}
    {host host' : Host} {envelopeJson : JsString} {input : VerifyOwnerAuthorizationInput}
    {state : GrantState} {file : OwnerFile} {path : Option JsString} {t : ℤ}
    (h : verifyOwnerAuthorizationEnvelope crypto host envelopeJson input = .ok state)
    (hfile : ReadsRegistry host input.registryPath file)
    (hread : ReadsGrantRegistry host' state path file)
    (hstarted : state.payload.notBefore ≤ t) (hlive : t < state.payload.expiresAt) :
    assertCurrentOwnerGrant crypto host' state
      { expected := input.expected, registryPath := path, now := t } = .ok () := by
  simp only [verifyOwnerAuthorizationEnvelope, bind_eq_ok, reject_eq_ok, exists_unit, pure_eq_ok]
    at h
  obtain ⟨now, -, expected, hexpected, digest, -, envelope, hopen, htimes, hbindings,
    resolved, hresolved, key, hkey, hverify, rfl⟩ := h
  obtain ⟨resolved', hresolved', hfile⟩ := hfile
  obtain rfl := Except.ok.inj (hresolved.symm.trans hresolved')
  obtain ⟨path', hpath', hread⟩ := hread
  have hwindow := assertPayloadTimes_eq_ok htimes
  obtain ⟨hpos, hle⟩ := openEnvelope_bounds hopen
  have hclock : validClock t "verification clock" = .ok t :=
    validClock_of_bounds (hpos.trans_le hstarted) (hlive.le.trans hle)
  have hselected := readAndSelectRegistryKey_of_ok hkey (hread.trans hfile.symm)
    (hwindow.issued.trans hstarted) hlive
  simp only [assertCurrentOwnerGrant, activeGrantState, assertGrantCurrent,
    assertRegistryStillAuthorizes, bind_eq_ok, reject_eq_ok, exists_unit]
  exact ⟨fun hconsumed ↦ hconsumed rfl, t, hclock, expected, hexpected, hbindings,
    assertPayloadTimes_of_ok htimes hstarted hlive, path', hpath', key, hselected,
    fun hchanged ↦ hchanged rfl, fun hchanged ↦ hchanged rfl, hverify⟩

/-! ### The window of an issue -/

/-- The verification of an envelope against the challenge that was signed. -/
def verificationOf (challenge : OwnerAuthorizationChallenge) (path : Option JsString) (t : ℤ) :
    VerifyOwnerAuthorizationInput where
  expected := challenge.bindings.json
  expectedChallengeDigest := .str challenge.challengeDigest
  registryPath := path
  now := t

/-- The oracle of a signing: the grant that the envelope makes before it is written. -/
theorem signOwnerAuthorizationChallengeFile_verified {crypto : Crypto PublicKey PrivateKey}
    {signer : Signer} {input : SignOwnerAuthorizationChallengeFileInput} {issue : Issue}
    (h : signOwnerAuthorizationChallengeFile crypto signer input = .ok issue) :
    ∃ challenge payload, Signs crypto signer input issue challenge payload ∧
      payload.notBefore = input.now ∧
      (∃ requested state, signer.readOwnerOnlyExternalFile input.registryPath maxRegistryBytes
          "owner key registry" = .ok requested ∧
        verifyOwnerAuthorizationEnvelope crypto signer.toHost issue.envelopeJson
          (verificationOf challenge (some requested.canonicalPath) input.now) = .ok state) ∧
      signer.writeNewOwnerOnlyExternalFile input.outputPath issue.envelopeJson =
        .ok issue.receipt.outputPath ∧
      issue.receipt =
        receiptOf crypto challenge payload issue.envelopeJson issue.receipt.outputPath := by
  simp only [signOwnerAuthorizationChallengeFile, bind_eq_ok, reject_eq_ok, exists_unit,
    pure_eq_ok, not_not] at h
  obtain ⟨now, hnow, file, hfile, challenge, hchallenge, happroved, authorizationId, -, signerId,
    -, keyId, hkey, ttlMs, -, -, requested, hrequested, _, -, privateKey, -, -, payloadJson, hpayload, -,
    envelopeJson, henvelope, state, hverified, outputPath, hwritten, rfl⟩ := h
  obtain rfl := positiveSafeInteger_integer hnow
  exact ⟨challenge, _, {
    parsed := ⟨file, hfile, hchallenge⟩
    approved := happroved
    issuedAt := rfl
    bindings := rfl
    digest := rfl
    expires := (min_le_left _ _).trans (min_le_right _ _)
    envelope := ⟨payloadJson, _, hpayload, henvelope⟩ }, rfl,
    ⟨requested, state, hrequested, hverified⟩, hwritten, rfl⟩

/-- Every grant of an issued envelope carries the payload that was signed. -/
theorem Signs.payload_eq {crypto : Crypto PublicKey PrivateKey} {signer : Signer}
    {input : SignOwnerAuthorizationChallengeFileInput} {issue : Issue}
    {challenge : OwnerAuthorizationChallenge} {payload : OwnerAuthorizationPayload} {host : Host}
    {verification : VerifyOwnerAuthorizationInput} {state : GrantState}
    (hsigns : Signs crypto signer input issue challenge payload)
    (h : verifyOwnerAuthorizationEnvelope crypto host issue.envelopeJson verification = .ok state) :
    state.payload = payload := by
  obtain ⟨digest, envelope, hopen, -, hpayload, -⟩ := verifyOwnerAuthorizationEnvelope_eq_ok h
  obtain ⟨payloadJson, signature, hjson, henvelope⟩ := hsigns.envelope
  exact hpayload.trans (openEnvelope_canonicalJson hjson henvelope hopen).1

/-- An issue is usable for the window from the signing to the expiry of its receipt, wherever the
registry reads as it did at the signing. -/
structure UsableWithin (crypto : Crypto PublicKey PrivateKey) (issue : Issue)
    (challenge : OwnerAuthorizationChallenge) (payload : OwnerAuthorizationPayload) (n : ℤ)
    (file : OwnerFile) : Prop where
  verified : ∀ host path, ReadsRegistry host path file → ∀ t,
    (∃ state, verifyOwnerAuthorizationEnvelope crypto host issue.envelopeJson
      (verificationOf challenge path t) = .ok state) ↔ n ≤ t ∧ t < issue.receipt.expiresAt
  granted : ∀ host path t state, ReadsRegistry host path file →
    verifyOwnerAuthorizationEnvelope crypto host issue.envelopeJson
      (verificationOf challenge path t) = .ok state → state.payload = payload ∧
    ∀ host' path' t', ReadsGrantRegistry host' state path' file → n ≤ t' →
      t' < issue.receipt.expiresAt →
      assertCurrentOwnerGrant crypto host' state
        { expected := challenge.bindings.json, registryPath := path', now := t' } = .ok ()

/-- An issued envelope is accepted, under the registry of the signing, from the signing on and until
its receipt's expiry and at no other time, and so is every grant of it. The receipt shows the
payload, and the digest of the text that was written. -/
theorem issue_usable_for_stated_window {crypto : Crypto PublicKey PrivateKey} {signer : Signer}
    {input : SignOwnerAuthorizationChallengeFileInput} {issue : Issue}
    (hsign : signOwnerAuthorizationChallengeFile crypto signer input = .ok issue) :
    ∃ challenge payload file, Signs crypto signer input issue challenge payload ∧
      SigningRegistry signer input file ∧
      UsableWithin crypto issue challenge payload input.now file ∧
      issue.receipt =
        receiptOf crypto challenge payload issue.envelopeJson issue.receipt.outputPath ∧
      issue.receipt.envelopeDigest = crypto.digest (utf8Encode issue.envelopeJson) ∧
      signer.writeNewOwnerOnlyExternalFile input.outputPath issue.envelopeJson =
        .ok issue.receipt.outputPath := by
  obtain ⟨challenge, payload, hsigns, hnotBefore, ⟨requested, state, hrequested, hverified⟩, hwritten,
    hreceipt⟩ :=
    signOwnerAuthorizationChallengeFile_verified hsign
  obtain ⟨file, hfile⟩ := exists_readsRegistry hverified
  have hexpires : issue.receipt.expiresAt = payload.expiresAt :=
    congrArg OwnerAuthorizationSigningReceipt.expiresAt hreceipt
  have hpayload := hsigns.payload_eq hverified
  refine ⟨challenge, payload, file, hsigns, ⟨requested, hrequested, hfile⟩, ?_, hreceipt,
    congrArg OwnerAuthorizationSigningReceipt.envelopeDigest hreceipt, hwritten⟩
  constructor
  · intro host path' hread t
    rw [hexpires]
    constructor
    · rintro ⟨state', hstate'⟩
      obtain ⟨-, -, -, -, -, -, -, hwindow, -⟩ := verifyOwnerAuthorizationEnvelope_eq_ok hstate'
      rw [hsigns.payload_eq hstate'] at hwindow
      exact ⟨hnotBefore ▸ hwindow.started, hwindow.live⟩
    · rintro ⟨hstarted, hlive⟩
      rw [← hnotBefore, ← hpayload] at hstarted
      rw [← hpayload] at hlive
      have hagain := verifyOwnerAuthorizationEnvelope_of_ok hverified hfile hread hstarted hlive
      exact ⟨state, hagain⟩
  · intro host path' t state' hread hstate'
    have hpayload' := hsigns.payload_eq hstate'
    refine ⟨hpayload', fun host' path'' t' hgrant hstarted hlive ↦ ?_⟩
    rw [← hnotBefore, ← hpayload'] at hstarted
    rw [hexpires, ← hpayload'] at hlive
    have hcurrent := assertCurrentOwnerGrant_of_verified hstate' hread hgrant hstarted hlive
    exact hcurrent

/-- The sample is signed, and its envelope usable from 3000 to 8000. -/
theorem issue_usable_for_stated_window_sample :
    ∃ issue, signOwnerAuthorizationChallengeFile sampleCrypto sampleSigner sampleInput =
        .ok issue ∧
      ∃ challenge payload file, Signs sampleCrypto sampleSigner sampleInput issue challenge
          payload ∧ SigningRegistry sampleSigner sampleInput file ∧
        UsableWithin sampleCrypto issue challenge payload 3000 file ∧
        issue.receipt = receiptOf sampleCrypto challenge payload issue.envelopeJson
          issue.receipt.outputPath ∧
        issue.receipt.envelopeDigest = sampleCrypto.digest (utf8Encode issue.envelopeJson) ∧
        sampleSigner.writeNewOwnerOnlyExternalFile sampleInput.outputPath issue.envelopeJson =
          .ok issue.receipt.outputPath := by
  obtain ⟨issue, hsign⟩ := sample_signed
  exact ⟨issue, hsign, issue_usable_for_stated_window hsign⟩

end ApiMigrator.App.OwnerSigner
