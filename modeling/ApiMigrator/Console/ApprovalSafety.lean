import ApiMigrator.Console.ApprovalProcess

/-!
The ceremony is one-shot and bound. In every run a preview receipt yields at most one operator
approval and an approval is consumed at most once while it is valid; an approval carries what the
preview receipt and the challenge receipt it was prepared from were issued for; and a token is
accepted only as the kind it was issued as.
-/

set_option autoImplicit false
set_option relaxedAutoImplicit false

namespace ApiMigrator.Console.Approval

open Foundation.Text Foundation.Number Foundation.Json Foundation.Outcome Foundation.Pattern
open Foundation.GitNames Foundation.Binary Foundation.Base64

variable {Execution : Type}

/-! ### What the maps remember -/

section Maps

variable {env : Environment Execution} {stores : Stores} {s : State} {call : Call}

/-- The call prepared an operator approval. -/
def Entry.Prepares (entry : Entry) (input : ApprovalInput) : Prop :=
  entry.call = .prepareOperatorApproval input ∧ ∃ reply, entry.reply = .ok (.prepared reply)

/-- The call consumed an operator token. -/
def Entry.Consumes (entry : Entry) (token : JsString) (expiresAt now : ℤ) : Prop :=
  entry.call = .consumeOperatorApprovalToken token expiresAt now ∧
    ∃ reply, entry.reply = .ok reply

theorem perform_prepare {input : ApprovalInput} {reply : PreparedOperatorApproval}
    (h : ((Call.prepareOperatorApproval input).perform env stores).1 = .ok (.prepared reply)) :
    ∃ preview challenge payload, Prepares env input stores.consumedPreviewReceipts reply
      ((Call.prepareOperatorApproval input).perform env stores).2.consumedPreviewReceipts
      preview challenge payload := by
  simp only [Call.perform, Stores.previewing] at h ⊢
  cases hcase : prepareOperatorApproval env input stores.consumedPreviewReceipts with
  | mk outcome store' =>
    rw [hcase] at h
    cases outcome with
    | error e => cases h
    | ok reply' =>
      cases h
      exact prepareOperatorApproval_eq_ok hcase

theorem perform_consume {token : JsString} {expiresAt now : ℤ} {reply : Reply}
    (h : ((Call.consumeOperatorApprovalToken token expiresAt now).perform env stores).1 =
      .ok reply) :
    oneShotKey env token ∉ (purge now stores.consumedOperatorApprovals).map Prod.fst ∧
      ((Call.consumeOperatorApprovalToken token expiresAt now).perform env
        stores).2.consumedOperatorApprovals =
        purge now stores.consumedOperatorApprovals ++ [(oneShotKey env token, expiresAt)] := by
  simp only [Call.perform, consumeOperatorApprovalToken] at h ⊢
  cases hcase : consumeOneShot env token expiresAt now "operator approval"
      stores.consumedOperatorApprovals with
  | mk outcome store' =>
    rw [hcase] at h
    cases outcome with
    | error e => cases h
    | ok u => exact consumeOneShot_eq_ok.mp hcase

private theorem mem_of_checks {α : Type} {now : ℤ} {x : Act α} (hx : x.Checks now)
    {store : OneShots} {used : JsString × ℤ} (hmem : used ∈ store) (hlive : now < used.2) :
    used ∈ (x store).2 := by
  rcases hx.store store with hsame | hpurged
  · rw [hsame]
    exact hmem
  · rw [hpurged, mem_purge]
    exact ⟨hmem, hlive⟩

/-- A used preview receipt stays in the map until it expires. -/
theorem perform_keeps_preview {used : JsString × ℤ} (hmem : used ∈ stores.consumedPreviewReceipts)
    (hlive : call.now < used.2) :
    used ∈ (call.perform env stores).2.consumedPreviewReceipts := by
  cases call with
  | createPreviewReceipt input => exact hmem
  | verifyPreviewReceipt input =>
    exact mem_of_checks (checks_verifyPreviewReceipt input) hmem hlive
  | createOwnerChallengeReceipt input =>
    exact mem_of_checks (checks_createOwnerChallengeReceipt input) hmem hlive
  | verifyOwnerChallengeReceipt input =>
    exact mem_of_checks (checks_verifyOwnerChallengeReceipt input) hmem hlive
  | verifyOperatorApprovalToken input => exact hmem
  | consumeOperatorApprovalToken token expiresAt now => exact hmem
  | prepareOperatorApproval input =>
    change used ∈ (prepareOperatorApproval env input stores.consumedPreviewReceipts).2
    have hsteady := (steady_prepareOperatorApproval input :
      (prepareOperatorApproval env input).Steady input.now).store stores.consumedPreviewReceipts
    cases hcase : prepareOperatorApproval env input stores.consumedPreviewReceipts with
    | mk outcome store' =>
      cases outcome with
      | error e =>
        rw [hcase] at hsteady
        rcases hsteady e rfl with hsame | hpurged
        · exact hsame ▸ hmem
        · exact hpurged ▸ mem_purge.mpr ⟨hmem, hlive⟩
      | ok reply =>
        obtain ⟨preview, challenge, payload, hprepares⟩ := prepareOperatorApproval_eq_ok hcase
        rw [hprepares.store]
        exact List.mem_append_left _ (mem_purge.mpr ⟨hmem, hlive⟩)

/-- A used operator token stays in the map until it expires. -/
theorem perform_keeps_operator {used : JsString × ℤ}
    (hmem : used ∈ stores.consumedOperatorApprovals) (hlive : call.now < used.2) :
    used ∈ (call.perform env stores).2.consumedOperatorApprovals := by
  cases call with
  | consumeOperatorApprovalToken token expiresAt now =>
    change used ∈ (consumeOneShot env token expiresAt now "operator approval"
      stores.consumedOperatorApprovals).2
    have hsteady := (steady_consumeOneShot env token expiresAt "operator approval" :
      (consumeOneShot env token expiresAt now _).Steady now).store stores.consumedOperatorApprovals
    cases hcase : consumeOneShot env token expiresAt now "operator approval"
        stores.consumedOperatorApprovals with
    | mk outcome store' =>
      cases outcome with
      | error e =>
        rw [hcase] at hsteady
        rcases hsteady e rfl with hsame | hpurged
        · exact hsame ▸ hmem
        · exact hpurged ▸ mem_purge.mpr ⟨hmem, hlive⟩
      | ok u =>
        obtain ⟨-, rfl⟩ := consumeOneShot_eq_ok.mp hcase
        exact List.mem_append_left _ (mem_purge.mpr ⟨hmem, hlive⟩)
  | _ => exact hmem

/-- What was used is in its map until it expires, and nothing was used twice before that. -/
structure Remembered (env : Environment Execution) (s : State) : Prop where
  previews : ∀ entry ∈ s.log, ∀ input, entry.Prepares input →
    ∃ preview, previewPayload env input.previewReceipt = .ok (.v1 preview) ∧
      (s.clock < preview.expiresAt →
        (oneShotKey env (tokenText input.previewReceipt), preview.expiresAt) ∈
          s.stores.consumedPreviewReceipts)
  operators : ∀ entry ∈ s.log, ∀ token expiresAt now, entry.Consumes token expiresAt now →
    s.clock < expiresAt →
      (oneShotKey env token, expiresAt) ∈ s.stores.consumedOperatorApprovals
  preparedOnce : s.log.Pairwise fun entry entry' ↦ ∀ input input', entry.Prepares input →
    entry'.Prepares input' → input.previewReceipt ≠ input'.previewReceipt
  consumedOnce : s.log.Pairwise fun entry entry' ↦ ∀ token expiresAt now expiresAt' now',
    entry.Consumes token expiresAt now → entry'.Consumes token expiresAt' now' →
      expiresAt ≤ now'

/-- A call keeps what the maps remember. -/
theorem Remembered.after (hs : Remembered env s) (hcall : Admissible env s call) :
    Remembered env (s.after env call) := by
  have hmem : ∀ {entry}, entry ∈ (s.after env call).log →
      entry ∈ s.log ∨ entry = ⟨call, (call.perform env s.stores).1⟩ := fun h ↦
    (List.mem_append.mp h).imp id List.mem_singleton.mp
  constructor
  · intro entry hentry input hprepares
    rcases hmem hentry with hold | rfl
    · obtain ⟨preview, hpreview, hused⟩ := hs.previews entry hold input hprepares
      refine ⟨preview, hpreview, fun hlive ↦ perform_keeps_preview (hused ?_) hlive⟩
      exact lt_of_le_of_lt hcall.clock hlive
    · obtain ⟨rfl, reply, hreply⟩ := hprepares
      obtain ⟨preview, challenge, payload, hprepared⟩ := perform_prepare hreply
      refine ⟨preview, hprepared.readPreview, fun _ ↦ ?_⟩
      change _ ∈ ((Call.prepareOperatorApproval input).perform env
        s.stores).2.consumedPreviewReceipts
      rw [hprepared.store]
      exact List.mem_append_right _ List.mem_cons_self
  · intro entry hentry token expiresAt now hconsumes hlive
    rcases hmem hentry with hold | rfl
    · refine perform_keeps_operator (hs.operators entry hold token expiresAt now hconsumes ?_) hlive
      exact lt_of_le_of_lt hcall.clock hlive
    · obtain ⟨rfl, reply, hreply⟩ := hconsumes
      change _ ∈ ((Call.consumeOperatorApprovalToken token expiresAt now).perform env
        s.stores).2.consumedOperatorApprovals
      rw [(perform_consume hreply).2]
      exact List.mem_append_right _ List.mem_cons_self
  · refine List.pairwise_append.mpr ⟨hs.preparedOnce, List.pairwise_singleton _ _, ?_⟩
    intro entry hentry entry' hentry' input input' hprepares hprepares' hsame
    obtain rfl := List.mem_singleton.mp hentry'
    obtain ⟨rfl, reply, hreply⟩ := hprepares'
    obtain ⟨preview, challenge, payload, hprepared⟩ := perform_prepare hreply
    obtain ⟨preview', hpreview', hused⟩ := hs.previews entry hentry input hprepares
    rw [hsame, hprepared.readPreview] at hpreview'
    cases hpreview'
    have hlive := hprepared.fresh.2.1
    have hmem := mem_purge.mpr ⟨hused (lt_of_le_of_lt hcall.clock hlive), hlive⟩
    rw [hsame] at hmem
    exact hprepared.unused (List.mem_map_of_mem hmem)
  · refine List.pairwise_append.mpr ⟨hs.consumedOnce, List.pairwise_singleton _ _, ?_⟩
    intro entry hentry entry' hentry' token expiresAt now expiresAt' now' hconsumes hconsumes'
    obtain rfl := List.mem_singleton.mp hentry'
    obtain ⟨rfl, reply, hreply⟩ := hconsumes'
    by_contra hlive
    rw [not_le] at hlive
    have hused := hs.operators entry hentry token expiresAt now hconsumes
      (lt_of_le_of_lt hcall.clock hlive)
    exact (perform_consume hreply).1 (List.mem_map_of_mem (mem_purge.mpr ⟨hused, hlive⟩))

end Maps

/-! ### Tokens -/

section Tokens

variable {env : Environment Execution} {kind kind' : Kind} {s text text' : JsString}
  {ms : List Member}

theorem tag_injective (h : kind.tag = kind'.tag) : kind = kind' := by
  cases kind <;> cases kind' <;> first | rfl | exact absurd h (by decide)

theorem domainName_injective (h : kind.domainName = kind'.domainName) : kind = kind' := by
  cases kind <;> cases kind' <;> first | rfl | exact absurd h (by decide)

theorem domainName_ascii (kind : Kind) : ∀ c ∈ kind.domainName, c.toNat < 0x80 := by
  cases kind <;> exact forall_mem_of_all (by decide)

theorem tag_ascii (kind : Kind) : ∀ c ∈ kind.tag, c.toNat < 0x80 ∧ c ≠ 0x2e := by
  cases kind <;> exact forall_mem_of_all (by decide)

/-- The NUL that ends a domain tells the domains apart, whatever is signed under them. -/
theorem message_injective {encoded encoded' : JsString}
    (h : message kind encoded = message kind' encoded') :
    kind = kind' ∧ utf8Encode encoded = utf8Encode encoded' := by
  have hnul : ∀ k : Kind, ∀ b ∈ utf8Encode k.domainName, decide (b ≠ 0) = true := by
    intro k
    cases k <;> decide +kernel
  have hsplit : ∀ (k : Kind) (e : JsString),
      (message k e).takeWhile (fun b ↦ decide (b ≠ 0)) = utf8Encode k.domainName := by
    intro k e
    rw [message, List.takeWhile_append_of_pos (hnul k), List.takeWhile_cons_of_neg (by decide),
      List.append_nil]
  have hdomain : utf8Encode kind.domainName = utf8Encode kind'.domainName := by
    rw [← hsplit kind encoded, h, hsplit]
  obtain rfl := domainName_injective (eq_of_utf8Encode_eq (domainName_ascii kind') hdomain)
  rw [message, message] at h
  exact ⟨rfl, (List.cons.inj (List.append_cancel_left h)).2⟩

theorem signature_eq_ok {encoded signed : JsString} (h : signature env kind encoded = .ok signed) :
    ∀ c ∈ signed, c.toNat < 0x80 ∧ c ≠ 0x2e := by
  unfold signature at h
  split at h
  · simp only [bind_eq_ok, reject_eq_ok, exists_unit, pure_eq_ok] at h
    obtain ⟨-, rfl⟩ := h
    exact base64url_ascii _
  · cases h

theorem splitDot_assemble {encoded signed : JsString} (hencoded : 0x2e ∉ encoded)
    (hsigned : 0x2e ∉ signed) :
    splitDot (assemble kind encoded signed) = [kind.tag, encoded, signed] := by
  have htag : 0x2e ∉ kind.tag := fun hmem ↦ (tag_ascii kind _ hmem).2 rfl
  rw [splitDot, assemble, List.append_assoc, List.cons_append,
    List.splitOn_append_cons_self_of_not_mem htag,
    List.splitOn_append_cons_self_of_not_mem hencoded, List.splitOn_eq_singleton hsigned]

theorem eq_assemble {tag encoded signed : JsString} (h : splitDot s = [tag, encoded, signed])
    (htag : tag = kind.tag) : s = assemble kind encoded signed := by
  rw [← @List.intercalate_splitOn _ s _ _ 0x2e, show s.splitOn 0x2e = _ from h, htag]
  simp [assemble, List.intercalate]

/-- The parts of a token the process signed. -/
theorem encodeToken_eq_ok (h : encodeToken env kind text = .ok s) :
    ∃ signed, signature env kind (base64url (utf8Encode text)) = .ok signed ∧
      s = assemble kind (base64url (utf8Encode text)) signed ∧
      splitDot s = [kind.tag, base64url (utf8Encode text), signed] := by
  simp only [encodeToken, bind_eq_ok, pure_eq_ok] at h
  obtain ⟨signed, hsigned, rfl⟩ := h
  refine ⟨signed, hsigned, rfl, splitDot_assemble ?_ ?_⟩
  · exact fun hmem ↦ (base64url_ascii _ _ hmem).2 rfl
  · exact fun hmem ↦ (signature_eq_ok hsigned _ hmem).2 rfl

/-- What a token must be to be decoded. -/
theorem decodeToken_eq_ok {token : JsValue} (h : decodeToken env kind token = .ok ms) :
    ∃ s encoded signed, token = .str s ∧ splitDot s = [kind.tag, encoded, signed] ∧
      signature env kind encoded = .ok signed ∧ s = assemble kind encoded signed ∧
      jsonParse (utf8Decode (base64Decode encoded)) = some (.obj ms) := by
  unfold decodeToken at h
  dsimp only at h
  split at h
  · rename_i s
    split at h
    · rename_i tag encoded signed hsplit
      simp only [bind_eq_ok, reject_eq_ok, exists_unit, orThrow_eq_ok] at h
      obtain ⟨hparts, expected, hexpected, hsigned, value, hvalue, hrecord⟩ := h
      rw [not_or, not_not] at hparts
      obtain rfl := eq_of_utf8Encode_eq
        (fun c hc ↦ (signature_eq_ok hexpected c hc).1) (not_not.mp hsigned)
      have hobj : value = .obj ms := by
        unfold asRecord at hrecord
        split at hrecord
        · cases hrecord
          rfl
        · cases hrecord
      exact ⟨s, encoded, signed, rfl, hparts.1 ▸ hsplit, hexpected, eq_assemble hsplit hparts.1,
        hobj ▸ hvalue⟩
    · cases h
  · cases h

/-- A token is decoded only as the kind it was signed as. -/
theorem kind_eq_of_decodeToken (hencode : encodeToken env kind' text = .ok s)
    (hdecode : decodeToken env kind (.str s) = .ok ms) : kind' = kind := by
  obtain ⟨_, -, -, hsplit⟩ := encodeToken_eq_ok hencode
  obtain ⟨s', encoded, signed, hs, hsplit', -⟩ := decodeToken_eq_ok hdecode
  obtain rfl := JsValue.str.inj hs
  rw [hsplit] at hsplit'
  exact tag_injective (List.cons.inj hsplit').1

/-- A token of the process is decoded to the value it was made from. -/
theorem value_eq_of_decodeToken {v : JsValue} (hv : Plain v)
    (hencode : encodeToken env kind (compactText v) = .ok s)
    (hdecode : decodeToken env kind (.str s) = .ok ms) : v = .obj ms := by
  obtain ⟨_, -, -, hsplit⟩ := encodeToken_eq_ok hencode
  obtain ⟨s', encoded, signed, hs, hsplit', -, -, hparse⟩ := decodeToken_eq_ok hdecode
  obtain rfl := JsValue.str.inj hs
  rw [hsplit] at hsplit'
  obtain rfl := (List.cons.inj (List.cons.inj hsplit').2).1
  rw [base64Decode_base64url, utf8Decode_utf8Encode _ hv.isWellFormed_compactText,
    hv.jsonParse_compactText] at hparse
  exact Option.some.inj hparse

/-- A token that is decoded is one the process returned, signed as that kind. -/
theorem issued_of_decodeToken {log : List Entry} (hunforged : Unforged env log (.str s))
    (hdecode : decodeToken env kind (.str s) = .ok ms) :
    ∃ entry ∈ log, entry.token = some s ∧ ∃ text, encodeToken env kind text = .ok s := by
  obtain ⟨s', encoded, signed, hs, hsplit, hsigned, hassemble, -⟩ := decodeToken_eq_ok hdecode
  obtain rfl := JsValue.str.inj hs
  obtain ⟨kind', text, ⟨entry, hentry, token, htoken, hencode⟩, hmessage⟩ :=
    hunforged s kind.tag encoded signed kind signed rfl hsplit hsigned rfl
  obtain ⟨rfl, hencoded⟩ := message_injective hmessage
  obtain rfl := eq_of_utf8Encode_eq (fun c hc ↦ (base64url_ascii _ c hc).1) hencoded.symm
  obtain ⟨signed', hsigned', htext, -⟩ := encodeToken_eq_ok hencode
  obtain rfl := Except.ok.inj (hsigned.symm.trans hsigned')
  rw [← hassemble] at htext
  subst htext
  exact ⟨entry, hentry, htoken, text, hencode⟩

theorem ascii_of_encodeToken (hencode : encodeToken env kind text = .ok s) : ∀ c ∈ s, c.toNat < 0x80 := by
  obtain ⟨signed, hsigned, rfl, -⟩ := encodeToken_eq_ok hencode
  intro c hc
  simp only [assemble, List.mem_append, List.mem_cons] at hc
  rcases hc with (hc | rfl | hc) | rfl | hc
  · exact (tag_ascii kind c hc).1
  · decide
  · exact (base64url_ascii _ c hc).1
  · decide
  · exact (signature_eq_ok hsigned c hc).1

end Tokens

/-! ### Payloads read back -/

section Payloads

variable {env : Environment Execution}

/-- A reviewed preview that passed its validation. -/
structure ReviewedPreview.Valid (r : ReviewedPreview) : Prop where
  slug : trim r.slug = r.slug
  previewCompletedAt : isSafe r.previewCompletedAt = true

private theorem isSpace_of_isAlphanumericOr {others : String}
    (hothers : ∀ c ∈ js others, isSpace c = false) {c : UInt16}
    (hc : isAlphanumericOr others c = true) : isSpace c = false := by
  rw [isAlphanumericOr, Bool.or_eq_true] at hc
  rcases hc with hc | hc
  · simp only [isAlphanumeric, isLowerLetter, isUpperLetter, isDigit, Bool.or_eq_true,
      decide_eq_true_eq] at hc
    simp only [isSpace, decide_eq_false_iff_not, not_or, List.mem_cons, List.not_mem_nil, or_false,
      not_and]
    refine ⟨by omega, by omega, ?_⟩
    refine ⟨?_, ?_, ?_, ?_, ?_, ?_, ?_, ?_, ?_⟩ <;> rintro rfl <;> revert hc <;> decide
  · exact hothers c (by simpa using hc)

theorem normalizeRepoSlug_eq_ok {value : JsValue} {slug : JsString}
    (h : normalizeRepoSlug value = .ok slug) :
    (∃ s, value = .str s ∧ slug = trim s) ∧ trim slug = slug := by
  unfold normalizeRepoSlug at h
  split at h
  · rename_i s
    dsimp only at h
    split at h
    · rename_i owner repo hsplit
      simp only [bind_eq_ok, reject_eq_ok, exists_unit, pure_eq_ok, not_or, Bool.not_eq_false] at h
      obtain ⟨⟨howner, hrepo, -, -⟩, rfl⟩ := h
      refine ⟨⟨s, rfl, rfl⟩, trim_of_forall fun c hc ↦ ?_⟩
      rw [← @List.intercalate_splitOn _ (trim s) _ _ 0x2f, show (trim s).splitOn 0x2f = _ from hsplit]
        at hc
      simp only [List.intercalate, List.intersperse, List.flatten_cons, List.flatten_nil,
        List.append_nil, List.mem_append, List.mem_singleton] at hc
      rcases hc with hc | rfl | hc
      · unfold isOwnerName at howner
        split at howner
        · simp only [Bool.and_eq_true, List.all_eq_true] at howner
          exact isSpace_of_isAlphanumericOr (forall_mem_of_all (by decide)) (howner.1.2 c hc)
        · cases howner
      · decide
      · simp only [isRepositoryName, Bool.and_eq_true, List.all_eq_true] at hrepo
        exact isSpace_of_isAlphanumericOr (forall_mem_of_all (by decide)) (hrepo.2 c hc)
    · cases h
  · cases h

theorem valid_of_validateReviewedPreview {value : JsValue} {r : ReviewedPreview}
    (h : validateReviewedPreview value = .ok r) : r.Valid := by
  simp only [validateReviewedPreview, bind_eq_ok, pure_eq_ok] at h
  obtain ⟨_, -, _, -, slug, hslug, _, -, _, -, _, -, completed, hcompleted, rfl⟩ := h
  exact ⟨(normalizeRepoSlug_eq_ok hslug).2, (validTimestamp_eq_ok hcompleted).1⟩

theorem formed_eq_ok {t s slug : JsString} {form : JsString → Bool} {label : String}
    (h : formed (.str t) form label slug = .ok s) : s = t := by
  simp only [formed, bind_eq_ok, reject_eq_ok, exists_unit, pure_eq_ok] at h
  exact h.2.symm

theorem validTimestamp_integer {i j : ℤ} {label : String}
    (h : validTimestamp (integer i) label = .ok j) : j = i := by
  simp only [integer, validTimestamp, bind_eq_ok, orThrow_eq_ok, reject_eq_ok, exists_unit,
    pure_eq_ok, safeInteger] at h
  obtain ⟨_, hsafe, -, rfl⟩ := h
  split_ifs at hsafe
  exact (Option.some.inj hsafe).symm

theorem validCampaignId_str {t s : JsString} (h : validCampaignId (.str t) = .ok s) : s = t := by
  simp only [validCampaignId, bind_eq_ok, reject_eq_ok, exists_unit, pure_eq_ok] at h
  exact h.2.symm

theorem validDigest_str {t s : JsString} {label : String} (h : validDigest (.str t) label = .ok s) :
    s = t := by
  simp only [validDigest, bind_eq_ok, reject_eq_ok, exists_unit, pure_eq_ok] at h
  exact h.2.symm

theorem validNonce_str {t s : JsString} (h : validNonce (.str t) = .ok s) : s = t := by
  simp only [validNonce, bind_eq_ok, reject_eq_ok, exists_unit, pure_eq_ok] at h
  exact h.2.symm

/-- A valid preview is read back from its JSON value as it was. -/
theorem validateReviewedPreview_json {r r' : ReviewedPreview} (hr : r.Valid)
    (h : validateReviewedPreview r.json = .ok r') : r' = r := by
  obtain ⟨slug, preflightId, artifactDigest, candidateTreeSha, previewCompletedAt⟩ := r
  simp only [validateReviewedPreview, ReviewedPreview.json, asRecord, bind_eq_ok, pure_eq_ok] at h
  obtain ⟨_, hrecord, _, -, slug', hslug, preflightId', hpreflight, artifact', hartifact, tree',
    htree, completed', hcompleted, rfl⟩ := h
  cases hrecord
  obtain ⟨⟨t, ht, rfl⟩, -⟩ := normalizeRepoSlug_eq_ok hslug
  obtain rfl : slug = t := JsValue.str.inj ht
  obtain rfl : preflightId' = preflightId := formed_eq_ok hpreflight
  obtain rfl : artifact' = artifactDigest := formed_eq_ok hartifact
  obtain rfl : tree' = candidateTreeSha := formed_eq_ok htree
  obtain rfl : completed' = previewCompletedAt := validTimestamp_integer hcompleted
  rw [hr.slug]

theorem plain_reviewedPreview {r : ReviewedPreview} (hr : r.Valid) : Plain r.json := by
  refine .obj ?_ fun m hm ↦ ?_
  · change (["slug", "preflightId", "artifactDigest", "candidateTreeSha",
      "previewCompletedAt"].map js).Nodup
    decide
  · simp only [List.mem_cons, List.not_mem_nil, or_false] at hm
    rcases hm with rfl | rfl | rfl | rfl | rfl
    · exact .str _
    · exact .str _
    · exact .str _
    · exact .str _
    · exact .num hr.previewCompletedAt

theorem plain_previewReceipt {p : PreviewReceiptV1} (hr : p.repository.Valid)
    (hexpiresAt : isSafe p.expiresAt = true) : Plain p.json := by
  refine .obj ?_ fun m hm ↦ ?_
  · change (["version", "kind", "campaignId", "manifestDigest", "repository", "expiresAt",
      "nonce"].map js).Nodup
    decide
  · simp only [List.mem_cons, List.not_mem_nil, or_false] at hm
    rcases hm with rfl | rfl | rfl | rfl | rfl | rfl | rfl
    · exact .num (by decide)
    · exact .str _
    · exact .str _
    · exact .str _
    · exact plain_reviewedPreview hr
    · exact .num hexpiresAt
    · exact .str _

theorem plain_ownerChallengeReceipt {p : OwnerChallengeReceipt} (hr : p.repository.Valid)
    (hexpiresAt : isSafe p.expiresAt = true) : Plain p.json := by
  refine .obj ?_ fun m hm ↦ ?_
  · change (["version", "kind", "campaignId", "manifestDigest", "repository",
      "previewReceiptDigest", "ownerChallengeDigest", "expiresAt", "nonce"].map js).Nodup
    decide
  · simp only [List.mem_cons, List.not_mem_nil, or_false] at hm
    rcases hm with rfl | rfl | rfl | rfl | rfl | rfl | rfl | rfl | rfl
    · exact .num (by decide)
    · exact .str _
    · exact .str _
    · exact .str _
    · exact plain_reviewedPreview hr
    · exact .str _
    · exact .str _
    · exact .num hexpiresAt
    · exact .str _

theorem plain_operatorApproval {p : OperatorApproval} (hr : p.repository.Valid)
    (hexpiresAt : isSafe p.expiresAt = true) : Plain p.json := by
  refine .obj ?_ fun m hm ↦ ?_
  · change (["version", "kind", "campaignId", "manifestDigest", "repository",
      "ownerChallengeDigest", "ownerAuthorizationDigest", "confirmationPhrase", "expiresAt",
      "nonce"].map js).Nodup
    decide
  · simp only [List.mem_cons, List.not_mem_nil, or_false] at hm
    rcases hm with rfl | rfl | rfl | rfl | rfl | rfl | rfl | rfl | rfl | rfl
    · exact .num (by decide)
    · exact .str _
    · exact .str _
    · exact .str _
    · exact plain_reviewedPreview hr
    · exact .str _
    · exact .str _
    · exact .str _
    · exact .num hexpiresAt
    · exact .str _

/-- A preview receipt without a local execution record is read back as it was issued. -/
theorem previewPayload_of_encodeToken {p p' : PreviewReceiptV1} {s : JsString}
    (hr : p.repository.Valid) (hexpiresAt : isSafe p.expiresAt = true)
    (hencode : encodeToken env .previewV1 (compactText p.json) = .ok s)
    (h : previewPayload env (.str s) = .ok (.v1 p')) : p' = p := by
  simp only [previewPayload, bind_eq_ok] at h
  obtain ⟨kind, hkind, raw, hdecode, h⟩ := h
  split_ifs at h with hversion
  · simp only [bind_eq_ok, pure_eq_ok] at h
    obtain ⟨_, -, h⟩ := h
    cases h
  · simp only [bind_eq_ok, pure_eq_ok] at h
    obtain ⟨payload, hparse, h⟩ := h
    obtain rfl := PreviewReceipt.v1.inj h
    obtain rfl := kind_eq_of_decodeToken hencode hdecode
    obtain rfl := JsValue.obj.inj (value_eq_of_decodeToken (plain_previewReceipt hr hexpiresAt)
      hencode hdecode)
    simp only [parsePreviewReceiptV1, bind_eq_ok, pure_eq_ok] at hparse
    obtain ⟨_, -, _, -, campaignId, hcampaignId, digest, hdigest, repository, hrepository, expiry,
      hexpiry, nonce, hnonce, rfl⟩ := hparse
    obtain rfl : campaignId = p.campaignId := validCampaignId_str hcampaignId
    obtain rfl : digest = p.manifestDigest := validDigest_str hdigest
    obtain rfl : repository = p.repository := validateReviewedPreview_json hr hrepository
    obtain rfl : expiry = p.expiresAt := validTimestamp_integer hexpiry
    obtain rfl : nonce = p.nonce := validNonce_str hnonce
    rfl

theorem challengePayload_of_encodeToken {p p' : OwnerChallengeReceipt} {s : JsString}
    (hr : p.repository.Valid) (hexpiresAt : isSafe p.expiresAt = true)
    (hencode : encodeToken env .ownerChallenge (compactText p.json) = .ok s)
    (h : challengePayload env (.str s) = .ok p') : p' = p := by
  simp only [challengePayload, bind_eq_ok, pure_eq_ok] at h
  obtain ⟨raw, hdecode, _, -, _, -, campaignId, hcampaignId, digest, hdigest, repository,
    hrepository, preview, hpreview, challenge, hchallenge, expiry, hexpiry, nonce, hnonce, rfl⟩ := h
  obtain rfl := JsValue.obj.inj (value_eq_of_decodeToken
    (plain_ownerChallengeReceipt hr hexpiresAt) hencode hdecode)
  obtain rfl : campaignId = p.campaignId := validCampaignId_str hcampaignId
  obtain rfl : digest = p.manifestDigest := validDigest_str hdigest
  obtain rfl : repository = p.repository := validateReviewedPreview_json hr hrepository
  obtain rfl : preview = p.previewReceiptDigest := validDigest_str hpreview
  obtain rfl : challenge = p.ownerChallengeDigest := validDigest_str hchallenge
  obtain rfl : expiry = p.expiresAt := validTimestamp_integer hexpiry
  obtain rfl : nonce = p.nonce := validNonce_str hnonce
  rfl

theorem operatorPayload_of_encodeToken {p p' : OperatorApproval} {s : JsString}
    (hr : p.repository.Valid) (hexpiresAt : isSafe p.expiresAt = true)
    (hphrase : p.confirmationPhrase =
      confirmationPhrase p.repository.slug p.ownerAuthorizationDigest)
    (hencode : encodeToken env .operatorApproval (compactText p.json) = .ok s)
    (h : operatorPayload env (.str s) = .ok p') : p' = p := by
  simp only [operatorPayload, bind_eq_ok, pure_eq_ok] at h
  obtain ⟨raw, hdecode, _, -, _, -, repository, hrepository, challenge, hchallenge, authorization,
    hauthorization, _, -, campaignId, hcampaignId, digest, hdigest, expiry, hexpiry, nonce, hnonce,
    rfl⟩ := h
  obtain rfl := JsValue.obj.inj (value_eq_of_decodeToken
    (plain_operatorApproval hr hexpiresAt) hencode hdecode)
  obtain rfl : campaignId = p.campaignId := validCampaignId_str hcampaignId
  obtain rfl : digest = p.manifestDigest := validDigest_str hdigest
  obtain rfl : repository = p.repository := validateReviewedPreview_json hr hrepository
  obtain rfl : challenge = p.ownerChallengeDigest := validDigest_str hchallenge
  obtain rfl : authorization = p.ownerAuthorizationDigest := validDigest_str hauthorization
  obtain rfl : expiry = p.expiresAt := validTimestamp_integer hexpiry
  obtain rfl : nonce = p.nonce := validNonce_str hnonce
  rw [← hphrase]

end Payloads

end ApiMigrator.Console.Approval
