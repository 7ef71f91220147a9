import ApiMigrator.Console.Approval

/-!
The ceremony of `approval.ts` in one process: any sequence of its calls, under a clock that does
not go back, with any strings for tokens. A signature that verifies was made by the process, and
what a map remembers of a used token stays until the token expires.
-/

set_option autoImplicit false
set_option relaxedAutoImplicit false

namespace ApiMigrator.Console.Approval

open Foundation.Text Foundation.Number Foundation.Json Foundation.Outcome Foundation.Pattern
open Foundation.GitNames Foundation.Binary Foundation.Base64

variable {Execution : Type}

/-! ### Calls -/

inductive Call
  | createPreviewReceipt (input : PreviewInput)
  | verifyPreviewReceipt (input : ReceiptInput)
  | createOwnerChallengeReceipt (input : ChallengeInput)
  | verifyOwnerChallengeReceipt (input : ChallengeReceiptInput)
  | prepareOperatorApproval (input : ApprovalInput)
  | verifyOperatorApprovalToken (input : TokenInput)
  | consumeOperatorApprovalToken (token : JsString) (expiresAt now : ℤ)

inductive Reply
  | preview (reply : PreviewReceiptReply)
  | challenge (reply : ChallengeReply)
  | prepared (reply : PreparedOperatorApproval)
  | verified (approval : OperatorApproval)
  | checked

/-- The two maps of the process. -/
structure Stores where
  consumedPreviewReceipts : OneShots
  consumedOperatorApprovals : OneShots

/-- A computation over the map of preview receipts. -/
def Stores.previewing {α : Type} (stores : Stores) (act : Act α) (reply : α → Reply) :
    Except Failure Reply × Stores :=
  ((act stores.consumedPreviewReceipts).1.map reply,
    { stores with consumedPreviewReceipts := (act stores.consumedPreviewReceipts).2 })

def Call.perform (env : Environment Execution) (stores : Stores) :
    Call → Except Failure Reply × Stores
  | .createPreviewReceipt input => ((Approval.createPreviewReceipt env input).map .preview, stores)
  | .verifyPreviewReceipt input =>
    stores.previewing (Approval.verifyPreviewReceipt env input) fun _ ↦ .checked
  | .createOwnerChallengeReceipt input =>
    stores.previewing (Approval.createOwnerChallengeReceipt env input) .challenge
  | .verifyOwnerChallengeReceipt input =>
    stores.previewing (Approval.verifyOwnerChallengeReceipt env input) fun _ ↦ .checked
  | .prepareOperatorApproval input =>
    stores.previewing (Approval.prepareOperatorApproval env input) .prepared
  | .verifyOperatorApprovalToken input =>
    ((Approval.verifyOperatorApprovalToken env input).map .verified, stores)
  | .consumeOperatorApprovalToken token expiresAt now =>
    let act := Approval.consumeOperatorApprovalToken env token expiresAt now
    ((act stores.consumedOperatorApprovals).1.map fun _ ↦ .checked,
      { stores with consumedOperatorApprovals := (act stores.consumedOperatorApprovals).2 })

/-- What the clock reads during the call. -/
def Call.now : Call → ℤ
  | .createPreviewReceipt input => input.now
  | .verifyPreviewReceipt input => input.now
  | .createOwnerChallengeReceipt input => input.now
  | .verifyOwnerChallengeReceipt input => input.now
  | .prepareOperatorApproval input => input.now
  | .verifyOperatorApprovalToken input => input.now
  | .consumeOperatorApprovalToken _ _ now => now

/-- The values presented as tokens. -/
def Call.tokens : Call → List JsValue
  | .createPreviewReceipt _ => []
  | .verifyPreviewReceipt input => [input.previewReceipt]
  | .createOwnerChallengeReceipt input => [input.previewReceipt]
  | .verifyOwnerChallengeReceipt input => [input.previewReceipt, input.ownerChallengeReceipt]
  | .prepareOperatorApproval input => [input.previewReceipt, input.ownerChallengeReceipt]
  | .verifyOperatorApprovalToken input => [input.operatorApprovalToken]
  | .consumeOperatorApprovalToken token _ _ => [.str token]

/-- A call with what it returned or threw. -/
structure Entry where
  call : Call
  reply : Except Failure Reply

/-- The token a call returned. -/
def Entry.token (entry : Entry) : Option JsString :=
  match entry.reply with
  | .ok (.preview reply) => some reply.previewReceipt
  | .ok (.challenge reply) => some reply.ownerChallengeReceipt
  | .ok (.prepared reply) => some reply.operatorApprovalToken
  | _ => none

/-- The kind of token the function returns. -/
def Entry.kind (entry : Entry) : Option Kind :=
  match entry.call with
  | .createPreviewReceipt input => some (if input.execution.isSome then .previewV2 else .previewV1)
  | .createOwnerChallengeReceipt _ => some .ownerChallenge
  | .prepareOperatorApproval _ => some .operatorApproval
  | _ => none

/-! ### Runs -/

/-- The maps, the last reading of the clock, and a history variable: every call so far. -/
structure State where
  stores : Stores
  clock : ℤ
  log : List Entry

def State.initial : State := ⟨⟨[], []⟩, 0, []⟩

/-- The text was signed as the payload of a token that the process returned. -/
def Issued (env : Environment Execution) (log : List Entry) (kind : Kind) (text : JsString) :
    Prop :=
  ∃ entry ∈ log, ∃ token, entry.token = some token ∧ encodeToken env kind text = .ok token

/-- No one but the process can sign: a string that carries the signature of a message carries one
the process returned for that message. -/
def Unforged (env : Environment Execution) (log : List Entry) (token : JsValue) : Prop :=
  ∀ s tag encoded signed kind expected, token = .str s → splitDot s = [tag, encoded, signed] →
    signature env kind encoded = .ok expected → utf8Encode signed = utf8Encode expected →
    ∃ kind' text, Issued env log kind' text ∧
      message kind' (base64url (utf8Encode text)) = message kind encoded

/-- A token is consumed under the expiry that its verification returned. -/
def Promised (log : List Entry) : Call → Prop
  | .consumeOperatorApprovalToken token expiresAt _ => ∃ input approval,
    ⟨.verifyOperatorApprovalToken input, .ok (.verified approval)⟩ ∈ log ∧
      input.operatorApprovalToken = .str token ∧ approval.expiresAt = expiresAt
  | _ => True

/-- The calls that may come next. -/
structure Admissible (env : Environment Execution) (s : State) (call : Call) : Prop where
  clock : s.clock ≤ call.now
  unforged : ∀ token ∈ call.tokens, Unforged env s.log token
  promised : Promised s.log call

/-- The state after a call. -/
def State.after (env : Environment Execution) (s : State) (call : Call) : State where
  stores := (call.perform env s.stores).2
  clock := call.now
  log := s.log ++ [⟨call, (call.perform env s.stores).1⟩]

/-- The states of every run. -/
inductive Reachable (env : Environment Execution) : State → Prop
  | initial : Reachable env .initial
  | call {s : State} {call : Call} (hs : Reachable env s) (hcall : Admissible env s call) :
    Reachable env (s.after env call)

/-! ### One-shot maps -/

section OneShotMaps

variable {α β : Type}

theorem Act.bind_apply (x : Act α) (f : α → Act β) (store : OneShots) :
    (x >>= f) store =
      match x store with
      | (.ok a, store) => f a store
      | (.error e, store) => (.error e, store) := rfl

@[simp] theorem Act.lift_apply (outcome : Except Failure α) (store : OneShots) :
    Act.lift outcome store = (outcome, store) := rfl

@[simp] theorem Act.pure_apply (a : α) (store : OneShots) :
    (pure a : Act α) store = (.ok a, store) := rfl

theorem Act.bind_eq_ok {x : Act α} {f : α → Act β} {store store' : OneShots} {b : β} :
    (x >>= f) store = (.ok b, store') ↔
      ∃ a mid, x store = (.ok a, mid) ∧ f a mid = (.ok b, store') := by
  rw [Act.bind_apply]
  constructor
  · intro h
    split at h
    · rename_i a mid hx
      exact ⟨a, mid, hx, h⟩
    · cases h
  · rintro ⟨a, mid, hx, hf⟩
    rw [hx]
    exact hf

theorem Act.lift_ok_bind (a : α) (f : α → Act β) : (Act.lift (.ok a) >>= f) = f a := rfl

theorem Act.lift_bind_eq_ok {outcome : Except Failure α} {f : α → Act β}
    {store store' : OneShots} {b : β} :
    (Act.lift outcome >>= f) store = (.ok b, store') ↔
      ∃ a, outcome = .ok a ∧ f a store = (.ok b, store') := by
  rw [Act.bind_eq_ok]
  constructor
  · rintro ⟨a, mid, hlift, hf⟩
    cases hlift
    exact ⟨a, rfl, hf⟩
  · rintro ⟨a, rfl, hf⟩
    exact ⟨a, store, rfl, hf⟩

theorem purge_purge {n now : ℤ} (hn : n ≤ now) (store : OneShots) :
    purge now (purge n store) = purge now store := by
  rw [purge, purge, purge, List.filter_filter]
  refine List.filter_congr fun entry _ ↦ ?_
  simp only [Bool.and_eq_left_iff_imp, decide_eq_true_eq]
  omega

theorem mem_purge {now : ℤ} {store : OneShots} {entry : JsString × ℤ} :
    entry ∈ purge now store ↔ entry ∈ store ∧ now < entry.2 := by
  simp [purge]

/-- The computation only drops what has expired, and it does not matter to it what else has
expired was dropped before. -/
structure Act.Checks (now : ℤ) (x : Act α) : Prop where
  store : ∀ store, (x store).2 = store ∨ (x store).2 = purge now store
  outcome : ∀ n ≤ now, ∀ store, (x (purge n store)).1 = (x store).1

/-- As `Checks`, but the computation may use the map up when it does not throw. -/
structure Act.Steady (now : ℤ) (x : Act α) : Prop where
  store : ∀ store e, (x store).1 = .error e → (x store).2 = store ∨ (x store).2 = purge now store
  outcome : ∀ n ≤ now, ∀ store, (x (purge n store)).1 = (x store).1

variable {now : ℤ}

theorem Act.checks_lift (outcome : Except Failure α) : (Act.lift outcome).Checks now where
  store _ := Or.inl rfl
  outcome _ _ _ := rfl

theorem Act.Checks.steady {x : Act α} (hx : x.Checks now) : x.Steady now where
  store store _ _ := hx.store store
  outcome := hx.outcome

theorem Act.Steady.bind {x : Act α} {f : α → Act β} (hx : x.Checks now)
    (hf : ∀ a, (f a).Steady now) : (x >>= f).Steady now where
  store store e herror := by
    rw [Act.bind_apply] at herror ⊢
    have hstore := hx.store store
    cases hcase : x store with
    | mk outcome mid =>
      rw [hcase] at herror hstore
      cases outcome with
      | error e' => exact hstore
      | ok a =>
        change (f a mid).2 = store ∨ (f a mid).2 = purge now store
        rcases (hf a).store mid e herror with hmid | hmid
        · rw [hmid]
          exact hstore
        · refine Or.inr ?_
          rw [hmid]
          rcases hstore with hsame | hpurged
          · exact congrArg (purge now) hsame
          · exact (congrArg (purge now) hpurged).trans (purge_purge (le_refl now) store)
  outcome n hn store := by
    rw [Act.bind_apply, Act.bind_apply]
    have houtcome := hx.outcome n hn store
    have hstore := hx.store store
    have hstore' := hx.store (purge n store)
    cases hcase : x store with
    | mk outcome mid =>
      cases hcase' : x (purge n store) with
      | mk outcome' mid' =>
        rw [hcase, hcase'] at houtcome
        rw [hcase] at hstore
        rw [hcase'] at hstore'
        obtain rfl : outcome' = outcome := houtcome
        cases outcome' with
        | error e => rfl
        | ok a =>
          have hmid : (f a mid).1 = (f a store).1 := by
            rcases hstore with hsame | hpurged
            · exact congrArg (fun s ↦ (f a s).1) hsame
            · exact (congrArg (fun s ↦ (f a s).1) hpurged).trans
                ((hf a).outcome now (le_refl now) store)
          have hmid' : (f a mid').1 = (f a store).1 := by
            rcases hstore' with hsame | hpurged
            · exact (congrArg (fun s ↦ (f a s).1) hsame).trans ((hf a).outcome n hn store)
            · refine (congrArg (fun s ↦ (f a s).1)
                (hpurged.trans (purge_purge hn store))).trans ?_
              exact (hf a).outcome now (le_refl now) store
          exact hmid'.trans hmid.symm

/-- What is made of a result does not touch the map. -/
theorem Act.Steady.map {x : Act α} (hx : x.Steady now) (g : α → β) :
    (x >>= fun a ↦ pure (g a)).Steady now where
  store store e herror := by
    have hstore := hx.store store
    rw [Act.bind_apply] at herror ⊢
    cases hcase : x store with
    | mk outcome mid =>
      rw [hcase] at herror hstore
      cases outcome with
      | error e' => exact hstore e' rfl
      | ok a => cases herror
  outcome n hn store := by
    have houtcome := hx.outcome n hn store
    rw [Act.bind_apply, Act.bind_apply]
    cases hcase : x store with
    | mk outcome mid =>
      cases hcase' : x (purge n store) with
      | mk outcome' mid' =>
        rw [hcase, hcase'] at houtcome
        obtain rfl : outcome' = outcome := houtcome
        cases outcome' <;> rfl

theorem Act.Checks.bind {x : Act α} {f : α → Act β} (hx : x.Checks now)
    (hf : ∀ a, (f a).Checks now) : (x >>= f).Checks now where
  store store := by
    have hstore := hx.store store
    rw [Act.bind_apply]
    cases hcase : x store with
    | mk outcome mid =>
      rw [hcase] at hstore
      cases outcome with
      | error e => exact hstore
      | ok a =>
        change (f a mid).2 = store ∨ (f a mid).2 = purge now store
        rcases (hf a).store mid with hmid | hmid
        · rw [hmid]
          exact hstore
        · refine Or.inr ?_
          rw [hmid]
          rcases hstore with hsame | hpurged
          · exact congrArg (purge now) hsame
          · exact (congrArg (purge now) hpurged).trans (purge_purge (le_refl now) store)
  outcome := (Act.Steady.bind hx fun a ↦ (hf a).steady).outcome

theorem checks_assertOneShotUnused (env : Environment Execution) (token : JsString)
    (label : String) : (assertOneShotUnused env token now label).Checks now where
  store store := by
    dsimp only [assertOneShotUnused]
    split_ifs <;> exact Or.inr rfl
  outcome n hn store := by
    simp only [assertOneShotUnused, purge_purge hn]

theorem steady_consumeOneShot (env : Environment Execution) (token : JsString) (expiresAt : ℤ)
    (label : String) : (consumeOneShot env token expiresAt now label).Steady now :=
  .bind (checks_assertOneShotUnused env token label) fun _ ↦ {
    store := fun _ _ herror ↦ absurd herror (by simp [remember])
    outcome := fun _ _ _ ↦ rfl }

/-- A token is consumed once it is found unused, and its key is then in the map. -/
theorem consumeOneShot_eq_ok {env : Environment Execution} {token : JsString} {expiresAt : ℤ}
    {label : String} {store store' : OneShots} {u : Unit} :
    consumeOneShot env token expiresAt now label store = (.ok u, store') ↔
      oneShotKey env token ∉ (purge now store).map Prod.fst ∧
        store' = purge now store ++ [(oneShotKey env token, expiresAt)] := by
  rw [consumeOneShot, Act.bind_eq_ok]
  dsimp only [assertOneShotUnused]
  constructor
  · rintro ⟨key, mid, hkey, hstore⟩
    split_ifs at hkey with hused
    · cases hkey
    · obtain ⟨hkey, rfl⟩ := Prod.mk.inj hkey
      cases hkey
      cases hstore
      exact ⟨hused, rfl⟩
  · rintro ⟨hused, rfl⟩
    exact ⟨_, _, if_neg hused, rfl⟩

end OneShotMaps

/-! ### The functions -/

section Functions

variable {env : Environment Execution}

theorem checks_verifyPreviewReceipt (input : ReceiptInput) :
    (verifyPreviewReceipt env input).Checks input.now :=
  .bind (Act.checks_lift _) fun _ ↦ .bind (checks_assertOneShotUnused env _ _) fun _ ↦
    Act.checks_lift _

theorem checks_createOwnerChallengeReceipt (input : ChallengeInput) :
    (createOwnerChallengeReceipt env input).Checks input.now :=
  .bind (Act.checks_lift _) fun _ ↦ .bind (checks_verifyPreviewReceipt input.toReceiptInput)
    fun _ ↦ .bind (Act.checks_lift _) fun _ ↦ Act.checks_lift _

theorem checks_verifyOwnerChallengeReceipt (input : ChallengeReceiptInput) :
    (verifyOwnerChallengeReceipt env input).Checks input.now :=
  .bind (Act.checks_lift _) fun _ ↦ .bind (Act.checks_lift _) fun _ ↦ .bind (Act.checks_lift _)
    fun _ ↦ .bind (checks_verifyPreviewReceipt input.toReceiptInput) fun _ ↦
    .bind (Act.checks_lift _) fun _ ↦ .bind (Act.checks_lift _) fun _ ↦ Act.checks_lift _

theorem validNow_eq_ok {now i : ℤ} (h : validNow now = .ok i) : i = now := by
  simp only [validNow, integer, validTimestamp, bind_eq_ok, orThrow_eq_ok, reject_eq_ok,
    exists_unit, pure_eq_ok] at h
  obtain ⟨_, hsafe, -, rfl⟩ := h
  simp only [safeInteger] at hsafe
  split_ifs at hsafe
  exact (Option.some.inj hsafe).symm

/-- What the reading of a preview receipt shows. -/
theorem readPreviewReceipt_eq_ok {input : ReceiptInput} {preview : PreviewReceipt Execution}
    (h : readPreviewReceipt env input = .ok preview) :
    previewPayload env input.previewReceipt = .ok preview ∧
      input.now < preview.base.expiresAt ∧ preview.base.campaignId = input.campaignId := by
  simp only [readPreviewReceipt, matchCampaign, bind_eq_ok, reject_eq_ok, exists_unit, pure_eq_ok]
    at h
  obtain ⟨payload, hpayload, ⟨hcampaign, _, -, -⟩, now, hnow, -, hfresh, rfl⟩ := h
  obtain rfl := validNow_eq_ok hnow
  exact ⟨hpayload, not_le.mp hfresh, not_not.mp hcampaign⟩

theorem verifyPreviewReceipt_eq_ok {input : ReceiptInput} {store store' : OneShots}
    {preview : PreviewReceipt Execution}
    (h : verifyPreviewReceipt env input store = (.ok preview, store')) :
    readPreviewReceipt env input = .ok preview ∧
      oneShotKey env (tokenText input.previewReceipt) ∉
        (purge input.now store).map Prod.fst ∧
      store' = purge input.now store := by
  rw [verifyPreviewReceipt, Act.lift_bind_eq_ok] at h
  obtain ⟨payload, hread, h⟩ := h
  rw [Act.bind_eq_ok] at h
  obtain ⟨key, mid, hunused, h⟩ := h
  cases h
  dsimp only [assertOneShotUnused] at hunused
  split_ifs at hunused with hused
  · cases hunused
  · exact ⟨hread, hused, (Prod.mk.inj hunused).2.symm⟩

theorem withoutExecution_eq_ok {preview : PreviewReceipt Execution} {e : Failure}
    {payload : PreviewReceiptV1} (h : withoutExecution preview e = .ok payload) :
    preview = .v1 payload := by
  cases preview with
  | v1 p =>
    cases h
    rfl
  | v2 p => cases h

/-- A challenge receipt is made for a preview receipt without a local execution record, and does
not outlive it. -/
structure Challenges (env : Environment Execution) (input : ChallengeInput) (reply : ChallengeReply)
    (preview : PreviewReceiptV1) (payload : OwnerChallengeReceipt) : Prop where
  read : previewPayload env input.previewReceipt = .ok (.v1 preview)
  token : encodeToken env .ownerChallenge (compactText payload.json) =
    .ok reply.ownerChallengeReceipt
  campaignId : payload.campaignId = preview.campaignId
  manifestDigest : payload.manifestDigest = preview.manifestDigest
  repository : payload.repository = preview.repository
  previewReceiptDigest : payload.previewReceiptDigest =
    sha256Text env (tokenText input.previewReceipt)
  ownerChallengeDigest : payload.ownerChallengeDigest = reply.ownerChallengeDigest
  expiresAt : payload.expiresAt = reply.expiresAt
  expires : payload.expiresAt ≤ preview.expiresAt
  safe : isSafe payload.expiresAt = true ∧ 0 ≤ payload.expiresAt

theorem validTimestamp_eq_ok {value : JsValue} {label : String} {i : ℤ}
    (h : validTimestamp value label = .ok i) : isSafe i = true ∧ 0 ≤ i := by
  unfold validTimestamp at h
  split at h
  · simp only [bind_eq_ok, orThrow_eq_ok, reject_eq_ok, exists_unit, pure_eq_ok] at h
    obtain ⟨_, hsafe, hsign, rfl⟩ := h
    exact ⟨isSafe_of_safeInteger hsafe, not_lt.mp hsign⟩
  · cases h

theorem createOwnerChallengeReceipt_eq_ok {input : ChallengeInput} {store store' : OneShots}
    {reply : ChallengeReply}
    (h : createOwnerChallengeReceipt env input store = (.ok reply, store')) :
    ∃ preview payload, Challenges env input reply preview payload := by
  rw [createOwnerChallengeReceipt, Act.lift_bind_eq_ok] at h
  obtain ⟨now, hnow, h⟩ := h
  rw [Act.bind_eq_ok] at h
  obtain ⟨receipt, mid, hverified, h⟩ := h
  rw [Act.lift_bind_eq_ok] at h
  obtain ⟨preview, hpreview, h⟩ := h
  obtain rfl := withoutExecution_eq_ok hpreview
  have hread := (readPreviewReceipt_eq_ok (verifyPreviewReceipt_eq_ok hverified).1).1
  have h := (Prod.mk.inj h).1
  simp only [bind_eq_ok, reject_eq_ok, exists_unit, pure_eq_ok] at h
  obtain ⟨digest, -, expiresAt, hexpiry, -, hexpires, token, htoken, rfl⟩ := h
  exact ⟨preview, _, {
    read := hread
    token := htoken
    campaignId := rfl
    manifestDigest := rfl
    repository := rfl
    previewReceiptDigest := rfl
    ownerChallengeDigest := rfl
    expiresAt := rfl
    expires := not_lt.mp hexpires
    safe := validTimestamp_eq_ok hexpiry }⟩

/-- A challenge receipt is verified for the very preview receipt it names. -/
theorem verifyOwnerChallengeReceipt_eq_ok {input : ChallengeReceiptInput}
    {store store' : OneShots} {challenge : OwnerChallengeReceipt}
    (h : verifyOwnerChallengeReceipt env input store = (.ok challenge, store')) :
    challengePayload env input.ownerChallengeReceipt = .ok challenge ∧
      ∃ preview, previewPayload env input.previewReceipt = .ok (.v1 preview) ∧
        challenge.previewReceiptDigest = sha256Text env (tokenText input.previewReceipt) ∧
        challenge.expiresAt ≤ preview.expiresAt ∧ store' = purge input.now store := by
  rw [verifyOwnerChallengeReceipt, Act.lift_bind_eq_ok] at h
  obtain ⟨now, hnow, h⟩ := h
  rw [Act.lift_bind_eq_ok] at h
  obtain ⟨payload, hpayload, h⟩ := h
  rw [Act.lift_bind_eq_ok] at h
  obtain ⟨_, -, h⟩ := h
  rw [Act.bind_eq_ok] at h
  obtain ⟨receipt, mid, hverified, h⟩ := h
  rw [Act.lift_bind_eq_ok] at h
  obtain ⟨preview, hpreview, h⟩ := h
  obtain rfl := withoutExecution_eq_ok hpreview
  rw [Act.lift_bind_eq_ok] at h
  obtain ⟨_, hmatches, h⟩ := h
  cases h
  obtain ⟨hread, -, hstore⟩ := verifyPreviewReceipt_eq_ok hverified
  simp only [reject_eq_ok, not_or, not_not, not_lt] at hmatches
  exact ⟨hpayload, preview, (readPreviewReceipt_eq_ok hread).1, hmatches.1, hmatches.2.2, hstore⟩

/-- What an operator approval is prepared from, and that its preview receipt is then used. -/
structure Prepares (env : Environment Execution) (input : ApprovalInput) (store : OneShots)
    (reply : PreparedOperatorApproval) (store' : OneShots) (preview : PreviewReceiptV1)
    (challenge : OwnerChallengeReceipt) (payload : OperatorApproval) : Prop where
  readPreview : previewPayload env input.previewReceipt = .ok (.v1 preview)
  readChallenge : challengePayload env input.ownerChallengeReceipt = .ok challenge
  digest : challenge.previewReceiptDigest = sha256Text env (tokenText input.previewReceipt)
  envelope : ∃ envelope, input.ownerAuthorizationEnvelope = .str envelope ∧
    payload = approvalPayload env challenge envelope input.now input.random
  token : encodeToken env .operatorApproval (compactText payload.json) =
    .ok reply.operatorApprovalToken
  reply : reply.confirmationPhrase = payload.confirmationPhrase ∧
    reply.expiresAt = payload.expiresAt ∧
    reply.ownerChallengeDigest = payload.ownerChallengeDigest ∧
    reply.ownerAuthorizationDigest = payload.ownerAuthorizationDigest ∧
    reply.repository = payload.repository ∧ reply.manifestDigest = payload.manifestDigest
  fresh : input.now < payload.expiresAt ∧ input.now < preview.expiresAt ∧ 0 ≤ input.now
  unused : oneShotKey env (tokenText input.previewReceipt) ∉
    (purge input.now store).map Prod.fst
  store : store' = purge input.now store ++
    [(oneShotKey env (tokenText input.previewReceipt), preview.expiresAt)]

theorem validateOwnerAuthorizationEnvelope_eq_ok {value : JsValue} {envelope : JsString}
    (h : validateOwnerAuthorizationEnvelope value = .ok envelope) : value = .str envelope := by
  unfold validateOwnerAuthorizationEnvelope at h
  split at h
  · simp only [bind_eq_ok, reject_eq_ok, exists_unit, pure_eq_ok] at h
    rw [h.2]
  · cases h

theorem prepareOperatorApproval_eq_ok {input : ApprovalInput} {store store' : OneShots}
    {reply : PreparedOperatorApproval}
    (h : prepareOperatorApproval env input store = (.ok reply, store')) :
    ∃ preview challenge payload, Prepares env input store reply store' preview challenge payload := by
  rw [prepareOperatorApproval, Act.lift_bind_eq_ok] at h
  obtain ⟨now, hnow, h⟩ := h
  have hsign := (validTimestamp_eq_ok hnow).2
  obtain rfl := validNow_eq_ok hnow
  rw [Act.bind_eq_ok] at h
  obtain ⟨challenge, mid, hchallenge, h⟩ := h
  obtain ⟨hpayload, preview, hpreview, hdigest, hexpires, rfl⟩ :=
    verifyOwnerChallengeReceipt_eq_ok hchallenge
  rw [Act.bind_eq_ok] at h
  obtain ⟨receipt, mid', hverified, h⟩ := h
  obtain ⟨hread, hunused, rfl⟩ := verifyPreviewReceipt_eq_ok hverified
  obtain ⟨hread, hfresh, -⟩ := readPreviewReceipt_eq_ok hread
  obtain rfl := Except.ok.inj (hread.symm.trans hpreview)
  rw [Act.lift_bind_eq_ok] at h
  obtain ⟨envelope, henvelope, h⟩ := h
  rw [Act.lift_bind_eq_ok] at h
  obtain ⟨_, hlive, h⟩ := h
  rw [Act.lift_bind_eq_ok] at h
  obtain ⟨token, htoken, h⟩ := h
  rw [Act.bind_eq_ok] at h
  obtain ⟨_, mid'', hconsumed, h⟩ := h
  cases h
  obtain ⟨hunused, hstore⟩ := consumeOneShot_eq_ok.mp hconsumed
  simp only [purge_purge (le_refl _)] at hunused hstore
  rw [reject_eq_ok, not_le] at hlive
  exact ⟨preview, challenge, _, {
    readPreview := hpreview
    readChallenge := hpayload
    digest := hdigest
    envelope := ⟨envelope, validateOwnerAuthorizationEnvelope_eq_ok henvelope, rfl⟩
    token := htoken
    reply := ⟨rfl, rfl, rfl, rfl, rfl, rfl⟩
    fresh := ⟨hlive, hfresh, hsign⟩
    unused := hunused
    store := hstore }⟩

theorem steady_prepareOperatorApproval (input : ApprovalInput) :
    (prepareOperatorApproval env input).Steady input.now := by
  cases hnow : validNow input.now with
  | error e =>
    have hact : prepareOperatorApproval env input = Act.lift (.error e) := by
      rw [prepareOperatorApproval, hnow]
      rfl
    rw [hact]
    exact (Act.checks_lift _).steady
  | ok now =>
    obtain rfl := validNow_eq_ok hnow
    rw [prepareOperatorApproval, hnow, Act.lift_ok_bind]
    exact .bind (checks_verifyOwnerChallengeReceipt input.toChallengeReceiptInput) fun challenge ↦
      .bind (checks_verifyPreviewReceipt input.toReceiptInput) fun preview ↦ .bind
      (Act.checks_lift _) fun envelope ↦ .bind (Act.checks_lift _) fun _ ↦ .bind
      (Act.checks_lift _) fun token ↦ (steady_consumeOneShot env _ _ _).map _

end Functions

end ApiMigrator.Console.Approval
