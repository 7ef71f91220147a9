import ApiMigrator.Console.ApprovalSafety

/-!
What every run of the ceremony keeps. Each entry of the log is looked at in the state its call was
made in: a token that a call accepts was returned by an earlier call, of the kind it is accepted
as, so an operator approval leads back to one preview receipt and one challenge receipt for it.
-/

set_option autoImplicit false
set_option relaxedAutoImplicit false

namespace ApiMigrator.Console.Approval

open Foundation.Text Foundation.Number Foundation.Json Foundation.Outcome Foundation.Binary
open Foundation.Base64

variable {Execution : Type} {env : Environment Execution} {s : State}

/-! ### Calls in the states they were made in -/

/-- The state in which a call of the run was made, and what it returned there. -/
theorem Reachable.split {before after : List Entry} {entry : Entry} (hs : Reachable env s)
    (hlog : s.log = before ++ entry :: after) :
    ∃ s', Reachable env s' ∧ s'.log = before ∧ Admissible env s' entry.call ∧
      entry.reply = (entry.call.perform env s'.stores).1 := by
  induction hs generalizing after with
  | initial => exact absurd hlog.symm (by simp [State.initial])
  | @call s call hs hcall ih =>
    change s.log ++ [_] = before ++ entry :: after at hlog
    rcases List.eq_nil_or_concat after with rfl | ⟨rest, last, rfl⟩
    · obtain ⟨hbefore, hentry⟩ := List.append_inj' hlog rfl
      cases hentry
      exact ⟨s, hs, hbefore, hcall, rfl⟩
    · rw [List.concat_eq_append, ← List.cons_append, ← List.append_assoc] at hlog
      exact ih (List.append_inj' hlog rfl).1

theorem Reachable.mem {entry : Entry} (hs : Reachable env s) (hentry : entry ∈ s.log) :
    ∃ s', Reachable env s' ∧ s'.log ⊆ s.log ∧ Admissible env s' entry.call ∧
      entry.reply = (entry.call.perform env s'.stores).1 := by
  obtain ⟨before, after, hlog⟩ := List.append_of_mem hentry
  obtain ⟨s', hs', rfl, hcall, hreply⟩ := hs.split hlog
  exact ⟨s', hs', hlog ▸ List.subset_append_left _ _, hcall, hreply⟩

section Performed

variable {stores : Stores}

theorem perform_verify {input : TokenInput} {approval : OperatorApproval}
    (h : ((Call.verifyOperatorApprovalToken input).perform env stores).1 =
      .ok (.verified approval)) :
    verifyOperatorApprovalToken env input = .ok approval := by
  simp only [Call.perform] at h
  cases hcase : verifyOperatorApprovalToken env input with
  | error e => simp [hcase, Except.map] at h
  | ok approval' =>
    rw [hcase] at h
    cases h
    rfl

/-- What a preview receipt without a local execution record is issued for. -/
structure Previews (env : Environment Execution) (input : PreviewInput)
    (reply : PreviewReceiptReply) (payload : PreviewReceiptV1) : Prop where
  token : encodeToken env .previewV1 (compactText payload.json) = .ok reply.previewReceipt
  campaignId : payload.campaignId = input.campaignId
  manifestDigest : payload.manifestDigest = reply.manifestDigest
  repository : payload.repository = reply.repository
  expiresAt : payload.expiresAt = reply.expiresAt
  valid : payload.repository.Valid
  safe : isSafe payload.expiresAt = true

theorem createPreviewReceipt_eq_ok {input : PreviewInput} {reply : PreviewReceiptReply}
    (h : createPreviewReceipt env input = .ok reply) :
    (input.execution = none ∧ ∃ payload, Previews env input reply payload) ∨
      input.execution.isSome = true ∧
        ∃ text, encodeToken env .previewV2 text = .ok reply.previewReceipt := by
  simp only [createPreviewReceipt, bind_eq_ok] at h
  obtain ⟨repository, hrepository, now, hnow, campaignId, hcampaignId, digest, hdigest, h⟩ := h
  cases hexecution : input.execution with
  | none =>
    simp only [hexecution, checkedExpiry, bind_eq_ok, reject_eq_ok, exists_unit, pure_eq_ok] at h
    obtain ⟨expiresAt, ⟨-, hsafe, rfl⟩, token, htoken, rfl⟩ := h
    exact Or.inl ⟨rfl, _, {
      token := htoken
      campaignId := validCampaignId_str hcampaignId
      manifestDigest := rfl
      repository := rfl
      expiresAt := rfl
      valid := valid_of_validateReviewedPreview hrepository
      safe := by simpa using hsafe }⟩
  | some execution =>
    simp only [hexecution, bind_eq_ok, pure_eq_ok] at h
    obtain ⟨payload, -, token, htoken, rfl⟩ := h
    exact Or.inr ⟨rfl, _, htoken⟩

private theorem token_of_map {α : Type} {outcome : Except Failure α} {f : α → Reply} {call : Call}
    {token : JsString} (h : Entry.token ⟨call, outcome.map f⟩ = some token) :
    ∃ a, outcome = .ok a ∧ Entry.token ⟨call, .ok (f a)⟩ = some token := by
  cases outcome with
  | error e => cases h
  | ok a => exact ⟨a, rfl, h⟩

/-- What a call returns is a token of the kind of its function. -/
theorem token_of_perform {entry : Entry} {token : JsString}
    (hreply : entry.reply = (entry.call.perform env stores).1) (htoken : entry.token = some token) :
    ∃ kind text, entry.kind = some kind ∧ encodeToken env kind text = .ok token := by
  obtain ⟨call, reply⟩ := entry
  obtain rfl : reply = (call.perform env stores).1 := hreply
  cases call with
  | createPreviewReceipt input =>
    obtain ⟨reply, hreply, htoken⟩ := token_of_map htoken
    cases htoken
    rcases createPreviewReceipt_eq_ok hreply with
      ⟨hexecution, payload, hpreviews⟩ | ⟨hexecution, text, hencode⟩
    · exact ⟨.previewV1, _, by simp [Entry.kind, hexecution], hpreviews.token⟩
    · exact ⟨.previewV2, _, by simp [Entry.kind, hexecution], hencode⟩
  | createOwnerChallengeReceipt input =>
    obtain ⟨reply, hreply, htoken⟩ := token_of_map htoken
    cases htoken
    obtain ⟨preview, payload, hchallenges⟩ :=
      createOwnerChallengeReceipt_eq_ok (Prod.ext hreply rfl)
    exact ⟨.ownerChallenge, _, rfl, hchallenges.token⟩
  | prepareOperatorApproval input =>
    obtain ⟨reply, hreply, htoken⟩ := token_of_map htoken
    cases htoken
    obtain ⟨preview, challenge, payload, hprepares⟩ :=
      prepareOperatorApproval_eq_ok (Prod.ext hreply rfl)
    exact ⟨.operatorApproval, _, rfl, hprepares.token⟩
  | verifyPreviewReceipt input =>
    obtain ⟨_, -, htoken⟩ := token_of_map htoken
    cases htoken
  | verifyOwnerChallengeReceipt input =>
    obtain ⟨_, -, htoken⟩ := token_of_map htoken
    cases htoken
  | verifyOperatorApprovalToken input =>
    obtain ⟨_, -, htoken⟩ := token_of_map htoken
    cases htoken
  | consumeOperatorApprovalToken token expiresAt now =>
    obtain ⟨_, -, htoken⟩ := token_of_map htoken
    cases htoken

/-- A preview receipt of the first version was returned by `createPreviewReceipt`. -/
theorem preview_of_kind {entry : Entry} {token : JsString}
    (hreply : entry.reply = (entry.call.perform env stores).1) (htoken : entry.token = some token)
    (hkind : entry.kind = some .previewV1) :
    ∃ input reply payload, entry = ⟨.createPreviewReceipt input, .ok (.preview reply)⟩ ∧
      input.execution = none ∧ reply.previewReceipt = token ∧ Previews env input reply payload := by
  obtain ⟨call, reply⟩ := entry
  obtain rfl : reply = (call.perform env stores).1 := hreply
  cases call with
  | createPreviewReceipt input =>
    obtain ⟨reply, hreply, htoken⟩ := token_of_map htoken
    cases htoken
    rcases createPreviewReceipt_eq_ok hreply with
      ⟨hexecution, payload, hpreviews⟩ | ⟨hexecution, text, hencode⟩
    · refine ⟨input, reply, payload, ?_, hexecution, rfl, hpreviews⟩
      simp [Call.perform, hreply, Except.map]
    · simp [Entry.kind, hexecution] at hkind
  | _ => cases hkind

/-- A challenge receipt was returned by `createOwnerChallengeReceipt`. -/
theorem challenge_of_kind {entry : Entry} {token : JsString}
    (hreply : entry.reply = (entry.call.perform env stores).1) (htoken : entry.token = some token)
    (hkind : entry.kind = some .ownerChallenge) :
    ∃ input reply preview payload,
      entry = ⟨.createOwnerChallengeReceipt input, .ok (.challenge reply)⟩ ∧
      reply.ownerChallengeReceipt = token ∧ Challenges env input reply preview payload := by
  obtain ⟨call, reply⟩ := entry
  obtain rfl : reply = (call.perform env stores).1 := hreply
  cases call with
  | createPreviewReceipt input =>
    simp only [Entry.kind] at hkind
    split_ifs at hkind <;> cases hkind
  | createOwnerChallengeReceipt input =>
    obtain ⟨reply, hreply, htoken⟩ := token_of_map htoken
    cases htoken
    obtain ⟨preview, payload, hchallenges⟩ :=
      createOwnerChallengeReceipt_eq_ok (Prod.ext hreply rfl)
    refine ⟨input, reply, preview, payload, ?_, rfl, hchallenges⟩
    simp [Call.perform, Stores.previewing, hreply, Except.map]
  | _ => cases hkind

/-- An operator token was returned by `prepareOperatorApproval`. -/
theorem approval_of_kind {entry : Entry} {token : JsString}
    (hreply : entry.reply = (entry.call.perform env stores).1) (htoken : entry.token = some token)
    (hkind : entry.kind = some .operatorApproval) :
    ∃ input reply preview challenge payload store store',
      entry = ⟨.prepareOperatorApproval input, .ok (.prepared reply)⟩ ∧
      reply.operatorApprovalToken = token ∧
      Prepares env input store reply store' preview challenge payload := by
  obtain ⟨call, reply⟩ := entry
  obtain rfl : reply = (call.perform env stores).1 := hreply
  cases call with
  | createPreviewReceipt input =>
    simp only [Entry.kind] at hkind
    split_ifs at hkind <;> cases hkind
  | prepareOperatorApproval input =>
    obtain ⟨reply, hreply, htoken⟩ := token_of_map htoken
    cases htoken
    obtain ⟨preview, challenge, payload, hprepares⟩ :=
      prepareOperatorApproval_eq_ok (Prod.ext hreply rfl)
    refine ⟨input, reply, preview, challenge, payload, _, _, ?_, rfl, hprepares⟩
    simp [Call.perform, Stores.previewing, hreply, Except.map]
  | _ => cases hkind

end Performed

/-! ### Where an accepted token comes from -/

/-- A token that is decoded was returned by an earlier call, as a token of that kind. -/
theorem Reachable.issuer {kind : Kind} {token : JsValue} {ms : List Member}
    (hs : Reachable env s) (hunforged : Unforged env s.log token)
    (hdecode : decodeToken env kind token = .ok ms) :
    ∃ text, token = .str text ∧ ∃ entry ∈ s.log, entry.token = some text ∧
      entry.kind = some kind := by
  obtain ⟨text, _, _, rfl, -⟩ := decodeToken_eq_ok hdecode
  obtain ⟨entry, hentry, htoken, -⟩ := issued_of_decodeToken hunforged hdecode
  obtain ⟨s', -, -, -, hreply⟩ := hs.mem hentry
  obtain ⟨kind', text', hkind, hencode⟩ := token_of_perform hreply htoken
  obtain rfl := kind_eq_of_decodeToken hencode hdecode
  exact ⟨text, rfl, entry, hentry, htoken, hkind⟩

/-- Whoever returned the token returned it as one of that kind. -/
theorem Reachable.kind_of_decodeToken {kind : Kind} {text : JsString} {ms : List Member}
    {entry : Entry} (hs : Reachable env s) (hentry : entry ∈ s.log)
    (htoken : entry.token = some text) (hdecode : decodeToken env kind (.str text) = .ok ms) :
    entry.kind = some kind := by
  obtain ⟨s', -, -, -, hreply⟩ := hs.mem hentry
  obtain ⟨kind', text', hkind, hencode⟩ := token_of_perform hreply htoken
  rw [hkind, kind_eq_of_decodeToken hencode hdecode]

theorem decodeToken_of_previewPayload {token : JsValue} {preview : PreviewReceipt Execution}
    (h : previewPayload env token = .ok preview) :
    ∃ kind ms, decodeToken env kind token = .ok ms ∧
      (match preview with
        | .v1 _ => kind = .previewV1
        | .v2 _ => kind = .previewV2) := by
  simp only [previewPayload, previewReceiptTokenVersion, bind_eq_ok] at h
  obtain ⟨kind, hkind, ms, hdecode, h⟩ := h
  refine ⟨kind, ms, hdecode, ?_⟩
  split_ifs at h with hversion
  · simp only [bind_eq_ok, pure_eq_ok] at h
    obtain ⟨payload, -, rfl⟩ := h
    exact hversion
  · simp only [bind_eq_ok, pure_eq_ok] at h
    obtain ⟨payload, -, rfl⟩ := h
    split at hkind
    · split_ifs at hkind
      · exact (pure_eq_ok.mp hkind).symm
      · exact absurd (pure_eq_ok.mp hkind).symm hversion
    · cases hkind

/-- A preview receipt without a local execution record that is read was issued by an earlier call,
and is read as what that call issued. -/
theorem Reachable.preview {token : JsValue} {payload : PreviewReceiptV1} (hs : Reachable env s)
    (hunforged : Unforged env s.log token) (h : previewPayload env token = .ok (.v1 payload)) :
    ∃ input reply, ⟨.createPreviewReceipt input, .ok (.preview reply)⟩ ∈ s.log ∧
      input.execution = none ∧ token = .str reply.previewReceipt ∧
      Previews env input reply payload := by
  obtain ⟨kind, ms, hdecode, rfl⟩ := decodeToken_of_previewPayload h
  obtain ⟨text, rfl, entry, hentry, htoken, hkind⟩ := hs.issuer hunforged hdecode
  obtain ⟨s', -, -, -, hreply⟩ := hs.mem hentry
  obtain ⟨input, reply, payload', rfl, hexecution, rfl, hpreviews⟩ :=
    preview_of_kind hreply htoken hkind
  obtain rfl := previewPayload_of_encodeToken hpreviews.valid hpreviews.safe hpreviews.token h
  exact ⟨input, reply, hentry, hexecution, rfl, hpreviews⟩

/-- A challenge receipt that is read was issued by an earlier call, for a preview receipt that an
earlier one had issued. -/
theorem Reachable.challenge {token : JsValue} {payload : OwnerChallengeReceipt}
    (hs : Reachable env s) (hunforged : Unforged env s.log token)
    (h : challengePayload env token = .ok payload) :
    ∃ input reply preview,
      ⟨.createOwnerChallengeReceipt input, .ok (.challenge reply)⟩ ∈ s.log ∧
      token = .str reply.ownerChallengeReceipt ∧ Challenges env input reply preview payload ∧
      preview.repository.Valid := by
  have hraw := h
  simp only [challengePayload, bind_eq_ok] at hraw
  obtain ⟨ms, hdecode, -⟩ := hraw
  obtain ⟨text, rfl, entry, hentry, htoken, hkind⟩ := hs.issuer hunforged hdecode
  obtain ⟨s', hs', -, hcall, hreply⟩ := hs.mem hentry
  obtain ⟨input, reply, preview, payload', rfl, rfl, hchallenges⟩ :=
    challenge_of_kind hreply htoken hkind
  obtain ⟨_, _, -, -, -, hpreviews⟩ :=
    hs'.preview (hcall.unforged _ List.mem_cons_self) hchallenges.read
  obtain rfl := challengePayload_of_encodeToken (hchallenges.repository ▸ hpreviews.valid)
    hchallenges.safe.1 hchallenges.token h
  exact ⟨input, reply, preview, hentry, rfl, hchallenges, hpreviews.valid⟩

/-! ### Approvals -/

/-- Of the tokens presented to the calls no two different ones have one digest. -/
def CollisionFree (env : Environment Execution) (log : List Entry) : Prop :=
  ∀ entry ∈ log, ∀ entry' ∈ log, ∀ text text', JsValue.str text ∈ entry.call.tokens →
    JsValue.str text' ∈ entry'.call.tokens →
    env.sha256.digest (utf8Encode text) = env.sha256.digest (utf8Encode text') →
    utf8Encode text = utf8Encode text'

/-- The calls an operator approval leads back to, and the envelope it was prepared with. -/
structure Sources where
  previewInput : PreviewInput
  previewReply : PreviewReceiptReply
  challengeInput : ChallengeInput
  challengeReply : ChallengeReply
  envelope : JsString

/-- The approval is of the campaign, the manifest and the repository of one preview receipt issued
without a local execution record, of a challenge receipt issued for that receipt, and of the
envelope supplied, and expires with neither receipt outlived. -/
structure Bound (env : Environment Execution) (log : List Entry) (input : ApprovalInput)
    (payload : OperatorApproval) (sources : Sources) : Prop where
  preview : ⟨.createPreviewReceipt sources.previewInput,
    .ok (.preview sources.previewReply)⟩ ∈ log
  execution : sources.previewInput.execution = none
  challenge : ⟨.createOwnerChallengeReceipt sources.challengeInput,
    .ok (.challenge sources.challengeReply)⟩ ∈ log
  challenged : sources.challengeInput.previewReceipt = .str sources.previewReply.previewReceipt
  previewReceipt : input.previewReceipt = .str sources.previewReply.previewReceipt
  challengeReceipt :
    input.ownerChallengeReceipt = .str sources.challengeReply.ownerChallengeReceipt
  envelope : input.ownerAuthorizationEnvelope = .str sources.envelope
  campaignId : payload.campaignId = sources.previewInput.campaignId
  manifestDigest : payload.manifestDigest = sources.previewReply.manifestDigest
  repository : payload.repository = sources.previewReply.repository
  ownerChallengeDigest :
    payload.ownerChallengeDigest = sources.challengeReply.ownerChallengeDigest
  ownerAuthorizationDigest : payload.ownerAuthorizationDigest =
    digestOwnerAuthorizationEnvelope env sources.envelope
  expires : payload.expiresAt ≤ sources.challengeReply.expiresAt ∧
    sources.challengeReply.expiresAt ≤ sources.previewReply.expiresAt

/-- The reply and its token carry the approval. -/
structure PreparedOperatorApproval.Carries (env : Environment Execution)
    (reply : PreparedOperatorApproval) (payload : OperatorApproval) : Prop where
  token : encodeToken env .operatorApproval (compactText payload.json) =
    .ok reply.operatorApprovalToken
  confirmationPhrase : reply.confirmationPhrase = payload.confirmationPhrase
  expiresAt : reply.expiresAt = payload.expiresAt
  ownerChallengeDigest : reply.ownerChallengeDigest = payload.ownerChallengeDigest
  ownerAuthorizationDigest : reply.ownerAuthorizationDigest = payload.ownerAuthorizationDigest
  repository : reply.repository = payload.repository
  manifestDigest : reply.manifestDigest = payload.manifestDigest

theorem sha256Text_injective {text text' : JsString}
    (h : sha256Text env text = sha256Text env text') :
    env.sha256.digest (utf8Encode text) = env.sha256.digest (utf8Encode text') :=
  hexText_injective (List.append_cancel_left h)

/-- Every operator approval is bound to what it was prepared from. -/
theorem Reachable.bound {input : ApprovalInput} {reply : PreparedOperatorApproval}
    {before after : List Entry} (hs : Reachable env s) (hcollision : CollisionFree env s.log)
    (hlog : s.log = before ++ ⟨.prepareOperatorApproval input, .ok (.prepared reply)⟩ :: after) :
    ∃ payload sources, reply.Carries env payload ∧ Bound env before input payload sources := by
  obtain ⟨s', hs', rfl, hcall, hreply⟩ := hs.split hlog
  obtain ⟨preview, challenge, payload, hprepares⟩ := perform_prepare hreply.symm
  obtain ⟨envelope, henvelope, hpayload⟩ := hprepares.envelope
  obtain ⟨previewInput, previewReply, hpreview, hexecution, hpreviewToken, hpreviews⟩ :=
    hs'.preview (hcall.unforged _ List.mem_cons_self) hprepares.readPreview
  obtain ⟨challengeInput, challengeReply, challenged, hchallenge, hchallengeToken, hchallenges, -⟩ :=
    hs'.challenge (hcall.unforged _ (List.mem_cons_of_mem _ List.mem_cons_self))
      hprepares.readChallenge
  -- The challenge was issued for a receipt of the same digest, which is then the same receipt.
  obtain ⟨s'', hs'', -, hcall'', -⟩ := hs'.mem hchallenge
  obtain ⟨_, challengedReply, -, -, hchallengedToken, hchallenged⟩ :=
    hs''.preview (hcall''.unforged _ List.mem_cons_self) hchallenges.read
  have hdigest := hchallenges.previewReceiptDigest.symm.trans hprepares.digest
  rw [hchallengedToken, hpreviewToken] at hdigest
  have hsame : challengedReply.previewReceipt = previewReply.previewReceipt := by
    refine eq_of_utf8Encode_eq (ascii_of_encodeToken hpreviews.token) (hcollision
      ⟨.createOwnerChallengeReceipt challengeInput, .ok (.challenge challengeReply)⟩ ?_
      ⟨.prepareOperatorApproval input, .ok (.prepared reply)⟩ ?_ _ _ ?_ ?_
      (sha256Text_injective hdigest))
    · exact hlog ▸ List.mem_append_left _ hchallenge
    · exact hlog ▸ List.mem_append_right _ List.mem_cons_self
    · exact hchallengedToken ▸ List.mem_cons_self
    · exact hpreviewToken ▸ List.mem_cons_self
  have hpreviewEq : challenged = preview := by
    have hread := hchallenges.read
    rw [hchallengedToken, hsame, ← hpreviewToken, hprepares.readPreview] at hread
    cases hread
    rfl
  subst hpreviewEq
  obtain ⟨hphrase, hexpiry, hchallengeDigest, hauthorization, hrepository, hmanifest⟩ :=
    hprepares.reply
  refine ⟨payload, ⟨previewInput, previewReply, challengeInput, challengeReply, envelope⟩,
    ⟨hprepares.token, hphrase, hexpiry, hchallengeDigest, hauthorization, hrepository, hmanifest⟩,
    {
      preview := hpreview
      execution := hexecution
      challenge := hchallenge
      challenged := hchallengedToken.trans (congrArg JsValue.str hsame)
      previewReceipt := hpreviewToken
      challengeReceipt := hchallengeToken
      envelope := henvelope
      campaignId := ?_
      manifestDigest := ?_
      repository := ?_
      ownerChallengeDigest := ?_
      ownerAuthorizationDigest := ?_
      expires := ?_ }⟩
  · rw [hpayload]
    exact hchallenges.campaignId.trans hpreviews.campaignId
  · rw [hpayload]
    exact hchallenges.manifestDigest.trans hpreviews.manifestDigest
  · rw [hpayload]
    exact hchallenges.repository.trans hpreviews.repository
  · rw [hpayload]
    exact hchallenges.ownerChallengeDigest
  · rw [hpayload]
    rfl
  · rw [← hchallenges.expiresAt, ← hpreviews.expiresAt]
    refine ⟨?_, hchallenges.expires⟩
    rw [hpayload]
    exact min_le_left _ _

/-! ### Operator tokens -/

theorem verifyOperatorApprovalToken_eq_ok {input : TokenInput} {approval : OperatorApproval}
    (h : verifyOperatorApprovalToken env input = .ok approval) :
    operatorPayload env input.operatorApprovalToken = .ok approval ∧
      (∃ envelope, input.ownerAuthorizationEnvelope = .str envelope ∧
        approval.ownerAuthorizationDigest = digestOwnerAuthorizationEnvelope env envelope) ∧
      input.now < approval.expiresAt := by
  simp only [verifyOperatorApprovalToken, bind_eq_ok, reject_eq_ok, exists_unit, pure_eq_ok] at h
  obtain ⟨envelope, henvelope, payload, hpayload, -, hdigest, now, hnow, hfresh, -, rfl⟩ := h
  obtain rfl := validNow_eq_ok hnow
  exact ⟨hpayload, ⟨envelope, validateOwnerAuthorizationEnvelope_eq_ok henvelope,
    not_not.mp hdigest⟩, not_le.mp hfresh⟩

private theorem Prepares.safe {input : ApprovalInput} {store store' : OneShots}
    {reply : PreparedOperatorApproval} {preview : PreviewReceiptV1}
    {challenge : OwnerChallengeReceipt} {payload : OperatorApproval}
    (h : Prepares env input store reply store' preview challenge payload)
    (hchallenge : isSafe challenge.expiresAt = true) : isSafe payload.expiresAt = true := by
  obtain ⟨hfresh, -, hnow⟩ := h.fresh
  obtain ⟨envelope, -, hpayload⟩ := h.envelope
  have hle : payload.expiresAt ≤ challenge.expiresAt := by
    rw [hpayload]
    exact min_le_left _ _
  rw [isSafe, decide_eq_true_eq] at hchallenge ⊢
  have hmax : 0 ≤ maxSafeInteger := by decide
  omega

/-- What a verification returns is the approval that a call before it prepared. -/
theorem Reachable.verified {input : TokenInput} {approval : OperatorApproval}
    {before after : List Entry} (hs : Reachable env s)
    (hlog : s.log = before ++ ⟨.verifyOperatorApprovalToken input, .ok (.verified approval)⟩ ::
      after) :
    (∃ preparation reply, ⟨.prepareOperatorApproval preparation, .ok (.prepared reply)⟩ ∈ before ∧
      input.operatorApprovalToken = .str reply.operatorApprovalToken ∧
      reply.Carries env approval) ∧
    ∃ envelope, input.ownerAuthorizationEnvelope = .str envelope ∧
      approval.ownerAuthorizationDigest = digestOwnerAuthorizationEnvelope env envelope := by
  obtain ⟨s', hs', rfl, hcall, hreply⟩ := hs.split hlog
  obtain ⟨hpayload, henvelope, -⟩ := verifyOperatorApprovalToken_eq_ok (perform_verify hreply.symm)
  refine ⟨?_, henvelope⟩
  have hraw := hpayload
  simp only [operatorPayload, bind_eq_ok] at hraw
  obtain ⟨ms, hdecode, -⟩ := hraw
  obtain ⟨text, htext, entry, hentry, htoken, hkind⟩ :=
    hs'.issuer (hcall.unforged _ List.mem_cons_self) hdecode
  obtain ⟨s'', hs'', -, hcall'', hreply''⟩ := hs'.mem hentry
  obtain ⟨preparation, reply, preview, challenge, payload, _, _, rfl, rfl, hprepares⟩ :=
    approval_of_kind hreply'' htoken hkind
  obtain ⟨_, -, happroval⟩ := hprepares.envelope
  obtain ⟨_, _, _, -, -, hchallenges, hvalid⟩ :=
    hs''.challenge (hcall''.unforged _ (List.mem_cons_of_mem _ List.mem_cons_self))
      hprepares.readChallenge
  rw [htext] at hpayload
  obtain rfl : approval = payload := by
    refine operatorPayload_of_encodeToken ?_ ?_ ?_ hprepares.token hpayload
    · rw [happroval]
      exact (congrArg ReviewedPreview.Valid hchallenges.repository).mpr hvalid
    · exact hprepares.safe hchallenges.safe.1
    · rw [happroval]
      rfl
  obtain ⟨hphrase, hexpiry, hchallengeDigest, hauthorization, hrepository, hmanifest⟩ :=
    hprepares.reply
  exact ⟨preparation, reply, hentry, htext,
    ⟨hprepares.token, hphrase, hexpiry, hchallengeDigest, hauthorization, hrepository, hmanifest⟩⟩

/-! ### Kinds -/

/-- The tokens presented to a call, with the kinds it takes each for. -/
def Call.expects : Call → List (JsValue × List Kind)
  | .createPreviewReceipt _ => []
  | .verifyPreviewReceipt input => [(input.previewReceipt, [.previewV1, .previewV2])]
  | .createOwnerChallengeReceipt input => [(input.previewReceipt, [.previewV1])]
  | .verifyOwnerChallengeReceipt input =>
    [(input.previewReceipt, [.previewV1]), (input.ownerChallengeReceipt, [.ownerChallenge])]
  | .prepareOperatorApproval input =>
    [(input.previewReceipt, [.previewV1]), (input.ownerChallengeReceipt, [.ownerChallenge])]
  | .verifyOperatorApprovalToken input => [(input.operatorApprovalToken, [.operatorApproval])]
  | .consumeOperatorApprovalToken token _ _ => [(.str token, [.operatorApproval])]

theorem Call.mem_tokens_of_mem_expects {call : Call} {use : JsValue × List Kind}
    (huse : use ∈ call.expects) : use.1 ∈ call.tokens := by
  have htokens : call.expects.map Prod.fst = call.tokens := by cases call <;> rfl
  exact htokens ▸ List.mem_map_of_mem huse

/-- The token decodes as one of the kinds. -/
def DecodesAs (env : Environment Execution) (use : JsValue × List Kind) : Prop :=
  ∃ kind ∈ use.2, ∃ ms, decodeToken env kind use.1 = .ok ms

theorem decodesAs_preview {token : JsValue} {preview : PreviewReceipt Execution}
    (h : previewPayload env token = .ok preview) :
    DecodesAs env (token, [.previewV1, .previewV2]) := by
  obtain ⟨kind, ms, hdecode, hkind⟩ := decodeToken_of_previewPayload h
  refine ⟨kind, ?_, ms, hdecode⟩
  cases preview with
  | v1 payload => exact List.mem_cons.mpr (Or.inl hkind)
  | v2 payload => exact List.mem_cons.mpr (Or.inr (List.mem_singleton.mpr hkind))

theorem decodesAs_previewV1 {token : JsValue} {payload : PreviewReceiptV1}
    (h : previewPayload env token = .ok (.v1 payload)) :
    DecodesAs env (token, [.previewV1]) := by
  obtain ⟨kind, ms, hdecode, hkind⟩ := decodeToken_of_previewPayload h
  exact ⟨kind, List.mem_singleton.mpr hkind, ms, hdecode⟩

theorem decodesAs_challenge {token : JsValue} {payload : OwnerChallengeReceipt}
    (h : challengePayload env token = .ok payload) : DecodesAs env (token, [.ownerChallenge]) := by
  simp only [challengePayload, bind_eq_ok] at h
  obtain ⟨ms, hdecode, -⟩ := h
  exact ⟨_, List.mem_cons_self, ms, hdecode⟩

theorem decodesAs_operator {token : JsValue} {payload : OperatorApproval}
    (h : operatorPayload env token = .ok payload) : DecodesAs env (token, [.operatorApproval]) := by
  simp only [operatorPayload, bind_eq_ok] at h
  obtain ⟨ms, hdecode, -⟩ := h
  exact ⟨_, List.mem_cons_self, ms, hdecode⟩

private theorem ok_of_map {α : Type} {outcome : Except Failure α} {f : α → Reply} {reply : Reply}
    (h : outcome.map f = .ok reply) : ∃ a, outcome = .ok a := by
  cases outcome with
  | error e => cases h
  | ok a => exact ⟨a, rfl⟩

/-- A call that does not throw has decoded its tokens as what it takes them for; an operator token
was decoded by the verification that its consumption follows. -/
theorem Reachable.decodesAs {call : Call} {reply : Reply} (hs : Reachable env s)
    (hcall : Admissible env s call) (hreply : (call.perform env s.stores).1 = .ok reply)
    {use : JsValue × List Kind} (huse : use ∈ call.expects) : DecodesAs env use := by
  cases call with
  | createPreviewReceipt input => cases huse
  | verifyPreviewReceipt input =>
    obtain rfl := List.mem_singleton.mp huse
    obtain ⟨preview, hpreview⟩ := ok_of_map hreply
    exact decodesAs_preview
      (readPreviewReceipt_eq_ok (verifyPreviewReceipt_eq_ok (Prod.ext hpreview rfl)).1).1
  | createOwnerChallengeReceipt input =>
    obtain rfl := List.mem_singleton.mp huse
    obtain ⟨reply, hreply⟩ := ok_of_map hreply
    obtain ⟨preview, payload, hchallenges⟩ :=
      createOwnerChallengeReceipt_eq_ok (Prod.ext hreply rfl)
    exact decodesAs_previewV1 hchallenges.read
  | verifyOwnerChallengeReceipt input =>
    obtain ⟨challenge, hchallenge⟩ := ok_of_map hreply
    obtain ⟨hpayload, preview, hpreview, -⟩ :=
      verifyOwnerChallengeReceipt_eq_ok (Prod.ext hchallenge rfl)
    rcases List.mem_pair.mp huse with rfl | rfl
    · exact decodesAs_previewV1 hpreview
    · exact decodesAs_challenge hpayload
  | prepareOperatorApproval input =>
    obtain ⟨reply, hreply⟩ := ok_of_map hreply
    obtain ⟨preview, challenge, payload, hprepares⟩ :=
      prepareOperatorApproval_eq_ok (Prod.ext hreply rfl)
    rcases List.mem_pair.mp huse with rfl | rfl
    · exact decodesAs_previewV1 hprepares.readPreview
    · exact decodesAs_challenge hprepares.readChallenge
  | verifyOperatorApprovalToken input =>
    obtain rfl := List.mem_singleton.mp huse
    obtain ⟨approval, happroval⟩ := ok_of_map hreply
    exact decodesAs_operator (verifyOperatorApprovalToken_eq_ok happroval).1
  | consumeOperatorApprovalToken token expiresAt now =>
    obtain rfl := List.mem_singleton.mp huse
    obtain ⟨input, approval, hverified, htoken, -⟩ := hcall.promised
    obtain ⟨s', -, -, -, hreply'⟩ := hs.mem hverified
    have hpayload := (verifyOperatorApprovalToken_eq_ok (perform_verify hreply'.symm)).1
    rw [htoken] at hpayload
    exact decodesAs_operator hpayload

/-- A token that a call accepts was returned by an earlier call, and only as a token of a kind the
call takes it for. -/
theorem Reachable.kinds {before after : List Entry} {entry : Entry} {reply : Reply}
    (hs : Reachable env s) (hlog : s.log = before ++ entry :: after)
    (hreply : entry.reply = .ok reply) {use : JsValue × List Kind}
    (huse : use ∈ entry.call.expects) :
    ∃ text, use.1 = .str text ∧ (∃ issuer ∈ before, issuer.token = some text) ∧
      ∀ issuer ∈ s.log, issuer.token = some text → ∃ kind ∈ use.2, issuer.kind = some kind := by
  obtain ⟨s', hs', rfl, hcall, hperformed⟩ := hs.split hlog
  obtain ⟨kind, hkind, ms, hdecode⟩ := hs'.decodesAs hcall (hperformed.symm.trans hreply) huse
  obtain ⟨text, htext, issuer, hissuer, htoken, -⟩ :=
    hs'.issuer (hcall.unforged _ (Call.mem_tokens_of_mem_expects huse)) hdecode
  refine ⟨text, htext, ⟨issuer, hissuer, htoken⟩, fun issuer' hissuer' htoken' ↦ ?_⟩
  rw [htext] at hdecode
  exact ⟨kind, hkind, hs.kind_of_decodeToken hissuer' htoken' hdecode⟩

/-! ### A preparation that throws -/

/-- What calls in a row return. -/
def outcomes (env : Environment Execution) : Stores → List Call → List (Except Failure Reply)
  | _, [] => []
  | stores, call :: calls =>
    (call.perform env stores).1 :: outcomes env (call.perform env stores).2 calls

/-- Two maps that differ in what has expired. -/
structure Agree (now : ℤ) (stores stores' : Stores) : Prop where
  previews : purge now stores.consumedPreviewReceipts = purge now stores'.consumedPreviewReceipts
  operators :
    purge now stores.consumedOperatorApprovals = purge now stores'.consumedOperatorApprovals

section Agreement

variable {n now : ℤ} {store store' : OneShots} {stores stores' : Stores}

theorem purge_eq_of_le (hn : n ≤ now) (h : purge n store = purge n store') :
    purge now store = purge now store' := by
  rw [← purge_purge hn store, h, purge_purge hn]

/-- What has expired does not matter to a steady computation. -/
theorem Act.Steady.outcome_eq {α : Type} {x : Act α} (hx : x.Steady now)
    (h : purge now store = purge now store') : (x store).1 = (x store').1 := by
  rw [← hx.outcome now (le_refl now) store, h, hx.outcome now (le_refl now)]

theorem Act.Checks.purge_eq {α : Type} {x : Act α} (hx : x.Checks now) (store : OneShots) :
    purge now (x store).2 = purge now store := by
  rcases hx.store store with hsame | hpurged
  · rw [hsame]
  · rw [hpurged, purge_purge (le_refl now)]

theorem Act.Steady.purge_eq_of_error {α : Type} {x : Act α} {e : Failure} (hx : x.Steady now)
    (h : (x store).1 = .error e) : purge now (x store).2 = purge now store := by
  rcases hx.store store e h with hsame | hpurged
  · rw [hsame]
  · rw [hpurged, purge_purge (le_refl now)]

/-- The preparation leaves maps that differ in what has expired so. -/
theorem purge_prepareOperatorApproval (input : ApprovalInput)
    (h : purge input.now store = purge input.now store') :
    purge input.now (prepareOperatorApproval env input store).2 =
      purge input.now (prepareOperatorApproval env input store').2 := by
  have hsteady : (prepareOperatorApproval env input).Steady input.now :=
    steady_prepareOperatorApproval input
  have houtcome := hsteady.outcome_eq h
  cases hcase : (prepareOperatorApproval env input store).1 with
  | error e =>
    rw [hsteady.purge_eq_of_error hcase, hsteady.purge_eq_of_error (houtcome.symm.trans hcase), h]
  | ok reply =>
    obtain ⟨preview, challenge, payload, hprepares⟩ :=
      prepareOperatorApproval_eq_ok (Prod.ext hcase rfl)
    obtain ⟨preview', challenge', payload', hprepares'⟩ :=
      prepareOperatorApproval_eq_ok (Prod.ext (houtcome.symm.trans hcase) rfl)
    obtain rfl := PreviewReceipt.v1.inj
      (Except.ok.inj (hprepares.readPreview.symm.trans hprepares'.readPreview))
    refine (congrArg (purge _) hprepares.store).trans
      (Eq.trans ?_ (congrArg (purge _) hprepares'.store).symm)
    rw [h]

theorem purge_consumeOneShot (token : JsString) (expiresAt : ℤ) (label : String)
    (h : purge now store = purge now store') :
    purge now (consumeOneShot env token expiresAt now label store).2 =
      purge now (consumeOneShot env token expiresAt now label store').2 := by
  have hsteady : (consumeOneShot env token expiresAt now label).Steady now :=
    steady_consumeOneShot env token expiresAt label
  have houtcome := hsteady.outcome_eq h
  cases hcase : (consumeOneShot env token expiresAt now label store).1 with
  | error e =>
    rw [hsteady.purge_eq_of_error hcase, hsteady.purge_eq_of_error (houtcome.symm.trans hcase), h]
  | ok u =>
    have hstore := (consumeOneShot_eq_ok.mp (Prod.ext hcase rfl)).2
    have hstore' := (consumeOneShot_eq_ok.mp (Prod.ext (houtcome.symm.trans hcase) rfl)).2
    refine (congrArg (purge _) hstore).trans (Eq.trans ?_ (congrArg (purge _) hstore').symm)
    rw [h]

/-- A call returns the same over maps that differ in what has expired, and leaves them so. -/
theorem Agree.perform {call : Call} (h : Agree n stores stores') (hn : n ≤ call.now) :
    (call.perform env stores).1 = (call.perform env stores').1 ∧
      Agree call.now (call.perform env stores).2 (call.perform env stores').2 := by
  have hpreviews := purge_eq_of_le hn h.previews
  have hoperators := purge_eq_of_le hn h.operators
  cases call with
  | createPreviewReceipt input => exact ⟨rfl, hpreviews, hoperators⟩
  | verifyPreviewReceipt input =>
    have hchecks : (verifyPreviewReceipt env input).Checks input.now :=
      checks_verifyPreviewReceipt input
    exact ⟨congrArg (Except.map _) (hchecks.steady.outcome_eq hpreviews),
      (hchecks.purge_eq _).trans (hpreviews.trans (hchecks.purge_eq _).symm), hoperators⟩
  | createOwnerChallengeReceipt input =>
    have hchecks : (createOwnerChallengeReceipt env input).Checks input.now :=
      checks_createOwnerChallengeReceipt input
    exact ⟨congrArg (Except.map _) (hchecks.steady.outcome_eq hpreviews),
      (hchecks.purge_eq _).trans (hpreviews.trans (hchecks.purge_eq _).symm), hoperators⟩
  | verifyOwnerChallengeReceipt input =>
    have hchecks : (verifyOwnerChallengeReceipt env input).Checks input.now :=
      checks_verifyOwnerChallengeReceipt input
    exact ⟨congrArg (Except.map _) (hchecks.steady.outcome_eq hpreviews),
      (hchecks.purge_eq _).trans (hpreviews.trans (hchecks.purge_eq _).symm), hoperators⟩
  | prepareOperatorApproval input =>
    exact ⟨congrArg (Except.map _) ((steady_prepareOperatorApproval input).outcome_eq hpreviews),
      purge_prepareOperatorApproval input hpreviews, hoperators⟩
  | verifyOperatorApprovalToken input => exact ⟨rfl, hpreviews, hoperators⟩
  | consumeOperatorApprovalToken token expiresAt now =>
    exact ⟨congrArg (Except.map _) ((steady_consumeOneShot env token expiresAt _).outcome_eq hoperators),
      hpreviews, purge_consumeOneShot token expiresAt _ hoperators⟩

theorem Agree.outcomes {calls : List Call} (h : Agree n stores stores')
    (hcalls : (n :: calls.map Call.now).Pairwise (· ≤ ·)) :
    outcomes env stores calls = outcomes env stores' calls := by
  induction calls generalizing n stores stores' with
  | nil => rfl
  | cons call calls ih =>
    obtain ⟨hle, hcalls⟩ := List.pairwise_cons.mp hcalls
    obtain ⟨hreply, hagree⟩ : (call.perform env stores).1 = (call.perform env stores').1 ∧
        Agree call.now (call.perform env stores).2 (call.perform env stores').2 :=
      h.perform (hle _ List.mem_cons_self)
    rw [Approval.outcomes, Approval.outcomes, hreply, ih hagree hcalls]

end Agreement

/-! ### The ceremony -/

end ApiMigrator.Console.Approval
