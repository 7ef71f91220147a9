import ApiMigrator.App.GitHubPublication

/-!
`publication-response.ts` of the console: which answer a publication gets. It is `201` only if the
results and the approvals are paired one to one and every pair has a complete proof of publication.
-/

set_option autoImplicit false
set_option relaxedAutoImplicit false

namespace ApiMigrator.Console.PublishDecision

open Foundation.Text Foundation.Number Foundation.Json Foundation.Outcome Foundation.Pattern
open Foundation.GitNames
open App.PublicationRunner (isGitSha isPreflightId validateRepositorySlug)
open App.OwnerAuthorization (isOwnerIdentifier receiptKeys)
open App.GitHubPublication (Url)
open App.Security (redactText)

/-! ### Fields -/

structure ApprovedPublication where
  slug : JsString
  preflightId : JsString
  artifactDigest : JsString
  candidateTreeSha : JsString
  previewCompletedAt : ℤ
  manifestDigest : JsString
  ownerAuthorizationDigest : JsString

structure CampaignRunSummary where
  /-- The keys of the summary, in any order. -/
  keys : List JsString
  total : JsNumber
  results : List (List Member)

structure PublishHttpDecision where
  status : ℕ
  error : Option JsString

/-- `new URL(..)`, where it does not throw, and `String(..)` of a number. -/
structure Environment where
  parseUrl : JsString → Option Url
  numberText : JsNumber → JsString

def field (value : List Member) (key : String) : JsValue := getMember value (js key)

def textOf : JsValue → Option JsString
  | .str s => some s
  | _ => none

def integerOf : JsValue → Option ℤ
  | .num n => safeInteger n
  | _ => none

/-- The value is the number `n`. -/
def numberIs (value : JsValue) (n : ℤ) : Bool :=
  match value with
  | .num m => decide (m = .int n ∨ n = 0 ∧ m = .negZero)
  | _ => false

def textIs (value : JsValue) (p : JsString → Bool) : Bool := ((textOf value).map p).getD false

def hasOnlyKeys (record : List Member) (allowed : List String) : Bool :=
  record.all fun entry ↦ (allowed.map js).any fun key ↦ decide (entry.1 = key)

def hasExactKeys (record : List Member) (expected : List String) : Bool :=
  decide ((sortByKey record).map Prod.fst = (expected.map js).insertionSort (· ≤ ·))

/-- `^(?:sha256:)?[a-f0-9]{64}$` -/
def isArtifactDigest (s : JsString) : Bool := isDigestText s || isHexOfLength 64 s

def normalizeDigest (value : Option JsString) : Option JsString :=
  value.bind fun s ↦
    if isArtifactDigest s then some (if startsWith s "sha256:" then s else js "sha256:" ++ s)
    else none

def safeRepositorySlug (value : JsValue) : Option JsString :=
  (validateRepositorySlug value).toOption

def validBranch (value : JsValue) : Bool := textIs value isBranchName

/-- `^[A-Za-z0-9][A-Za-z0-9_.@+-]*$`, at most 100 characters -/
def validOperator (s : JsString) : Bool :=
  decide (s.length ≤ 100) &&
    match s with
    | c :: rest => isAlphanumeric c && rest.all (isAlphanumericOr "_.@+-")
    | [] => false

/-- `^[1-9]\d*$` -/
def isPositiveDecimal (s : JsString) : Bool :=
  match s with
  | c :: rest => isDigit c && decide (c ≠ 0x30) && rest.all isDigit
  | [] => false

def isMatchingGitHubPrUrl (env : Environment) (value : Option JsString) (slug : JsString) : Bool :=
  match value.bind fun text ↦ if text = [] then none else env.parseUrl text with
  | none => false
  | some url =>
    decide (url.protocol = js "https:" ∧ asciiLower url.hostname = js "github.com" ∧
      url.port = [] ∧ url.username = [] ∧ url.password = [] ∧ url.search = [] ∧ url.hash = []) &&
    match (splitSlash url.pathname).filter (fun part ↦ !part.isEmpty) with
    | [owner, repo, pull, number] =>
      decide (some (asciiLower owner) = (splitSlash slug)[0]?.map asciiLower ∧
        some (asciiLower repo) = (splitSlash slug)[1]?.map asciiLower ∧ pull = js "pull") &&
        isPositiveDecimal number
    | _ => false

/-! ### The proof of one publication -/

def publicationProofKeys : List String :=
  ["mode", "status", "preflightId", "baseBranch", "baseSha", "branch", "candidateTreeSha",
    "previewCompletedAt", "headSha", "artifactDigest", "blockers", "overridden", "approvedBy",
    "ownerAuthorizationReceipt"]

def ownerAuthorizationReceiptIssue (value : JsValue) (resultSlug : JsString)
    (proof : List Member) (approval : ApprovedPublication) : Except String Unit :=
  match value with
  | .obj receipt => do
    reject (hasExactKeys receipt receiptKeys = false)
      "no unexpected owner authorization receipt fields"
    reject (["authorizationId", "envelopeId", "signerId", "keyId"].any
        (fun key ↦ !textIs (field receipt key) isOwnerIdentifier) = true)
      "valid owner authorization receipt identity"
    reject (¬ (textIs (field receipt "envelopeDigest") isDigestText = true ∧
        textOf (field receipt "envelopeDigest") = some approval.ownerAuthorizationDigest ∧
        textIs (field receipt "nonceDigest") isDigestText = true ∧
        textIs (field receipt "manifestDigest") isDigestText = true ∧
        textOf (field receipt "manifestDigest") = some approval.manifestDigest))
      "matching owner authorization receipt digests"
    let repositoryId ← orThrow (integerOf (field receipt "repositoryId"))
      "matching owner-authorized repository identity"
    reject (¬ ((safeRepositorySlug (field receipt "repositorySlug")).map asciiLower =
        some (asciiLower resultSlug) ∧ 0 < repositoryId))
      "matching owner-authorized repository identity"
    reject (¬ (textOf (field receipt "preflightId") = some approval.preflightId ∧
        textOf (field receipt "preflightId") = textOf (field proof "preflightId") ∧
        textIs (field receipt "baseSha") isGitSha = true ∧
        textOf (field receipt "baseSha") = textOf (field proof "baseSha") ∧
        textIs (field receipt "artifactDigest") isDigestText = true ∧
        normalizeDigest (textOf (field receipt "artifactDigest")) =
          normalizeDigest (textOf (field proof "artifactDigest")) ∧
        validBranch (field receipt "candidateBranch") = true ∧
        textOf (field receipt "candidateBranch") = textOf (field proof "branch") ∧
        textIs (field receipt "candidateTreeSha") isGitSha = true ∧
        textOf (field receipt "candidateTreeSha") = some approval.candidateTreeSha ∧
        textOf (field receipt "candidateTreeSha") = textOf (field proof "candidateTreeSha")))
      "owner receipt bound to publication identity"
    let expiresAt ← orThrow (integerOf (field receipt "expiresAt"))
      "valid owner authorization consumption time"
    let consumedAt ← orThrow (integerOf (field receipt "consumedAt"))
      "valid owner authorization consumption time"
    reject (¬ (0 < expiresAt ∧ 0 < consumedAt ∧ consumedAt < expiresAt))
      "valid owner authorization consumption time"
  | _ => .error "owner authorization receipt"

/-- `result.slug` -/
def resultSlug (result : List Member) : JsString := (textOf (field result "slug")).getD []

/-- A check of `publicationProofIssue`, with what is missing when it fails. -/
def expects (condition : Prop) [Decidable condition] (missing : String) : List String :=
  if condition then [] else [missing]

def receiptIssue (issue : Except String Unit) : List String :=
  match issue with
  | .ok _ => []
  | .error missing => [missing]

/-- What a proof of publication lacks. -/
def missingProof (result proof : List Member)
    (approval : ApprovedPublication) (approvedBy : JsString) : List String :=
  expects (hasExactKeys proof publicationProofKeys = true)
    "no unexpected publication proof fields" ++
  expects (textOf (field proof "mode") = some (js "publish")) "publish mode" ++
  expects (textOf (field proof "status") = some (js "pr_opened")) "publication status" ++
  expects (isPreflightId approval.preflightId = true ∧
    textOf (field result "preflightId") = some approval.preflightId ∧
    textOf (field proof "preflightId") = some approval.preflightId) "approved preflight ID" ++
  expects (textIs (field proof "baseSha") isGitSha = true) "base SHA" ++
  expects (numberIs (field proof "previewCompletedAt") approval.previewCompletedAt = true)
    "approved preview completion time" ++
  expects (textIs (field proof "candidateTreeSha") isGitSha = true ∧
    textOf (field proof "candidateTreeSha") = some approval.candidateTreeSha)
    "approved candidate tree" ++
  expects (textIs (field proof "headSha") isGitSha = true) "approved head SHA" ++
  expects (textIs (field proof "artifactDigest") isArtifactDigest = true ∧
    normalizeDigest (textOf (field proof "artifactDigest")) =
      normalizeDigest (some approval.artifactDigest)) "artifact digest" ++
  expects (validBranch (field proof "baseBranch") = true) "base branch" ++
  expects (validBranch (field proof "branch") = true) "target branch" ++
  expects (validOperator approvedBy = true ∧ textOf (field proof "approvedBy") = some approvedBy)
    "matching operator identity" ++
  expects ((field proof "blockers" matches .arr []) = true) "zero publication blockers" ++
  expects ((field proof "overridden" matches .bool false) = true) "non-overridden publication" ++
  receiptIssue (ownerAuthorizationReceiptIssue (field proof "ownerAuthorizationReceipt")
    (resultSlug result) proof approval)

def runStatuses : List String :=
  ["queued", "scanning", "transforming", "verifying", "preview_ready", "blocked", "pr_opened",
    "merged", "failed", "no_changes"]

/-- What a result lacks, and `none` for one with a complete proof. -/
def publicationProofIssue (env : Environment) (result : List Member)
    (approval : ApprovedPublication) (approvedBy : JsString) : Option JsString :=
  if textOf (field result "status") ≠ some (js "pr_opened") then
    match textOf (field result "status") with
    | some status =>
      if (runStatuses.map js).any (fun known ↦ decide (status = known)) then
        some (js "returned status " ++ status)
      else some (js "returned an invalid status")
    | none => some (js "returned an invalid status")
  else if isMatchingGitHubPrUrl env (textOf (field result "prUrl")) (resultSlug result) =
      false then
    some (js "pr_opened result is missing a matching GitHub PR URL")
  else
    match field result "publication" with
    | .obj proof =>
      if missingProof result proof approval approvedBy = [] then none
      else some (js "pr_opened result has incomplete publication proof (" ++
        List.intercalate (js ", ") ((missingProof result proof approval approvedBy).map js) ++
          js ")")
    | _ => some (js "pr_opened result is missing publication proof")

/-! ### The decision -/

def resultKeys : List String :=
  ["slug", "status", "prUrl", "preflightId", "report", "publication", "error"]

/-- The approvals by key, and what is wrong with them. -/
def approvedOf (approved : List (JsString × ApprovedPublication)) :
    List ApprovedPublication → List JsString × List (JsString × ApprovedPublication)
  | [] => ([], approved)
  | item :: rest =>
    match safeRepositorySlug (.str item.slug) with
    | none =>
      (js "approval contains an invalid repository identity" :: (approvedOf approved rest).1,
        (approvedOf approved rest).2)
    | some slug =>
      if approved.any (fun entry ↦ decide (entry.1 = asciiLower slug)) then
        ((slug ++ js ": duplicate approval entry") :: (approvedOf approved rest).1,
          (approvedOf approved rest).2)
      else approvedOf (approved ++ [(asciiLower slug, { item with slug := slug })]) rest

/-- The key of the result at an index. -/
def resultKey (result : List Member) (index : ℕ) : JsString :=
  match safeRepositorySlug (field result "slug") with
  | some slug => asciiLower slug
  | none => js "invalid-result-" ++ decimalDigits index

def resultLabel (result : List Member) (index : ℕ) : JsString :=
  (safeRepositorySlug (field result "slug")).getD (js "result " ++ decimalDigits (index + 1))

/-- What is wrong with a result in itself. -/
def resultFailures (approved : List (JsString × ApprovedPublication)) (result : List Member)
    (index : ℕ) : List JsString :=
  (if hasOnlyKeys result resultKeys then []
    else [resultLabel result index ++ js ": result contains unexpected fields"]) ++
  if approved.any (fun entry ↦ decide (entry.1 = resultKey result index)) then []
  else [resultLabel result index ++ js ": result was not approved"]

/-- The results by key. -/
def resultsBySlug (results : List (List Member)) : List (JsString × List Member) :=
  results.zipIdx.map fun entry ↦ (resultKey entry.1 entry.2, entry.1)

def matchesOf (results : List (JsString × List Member)) (key : JsString) : List (List Member) :=
  (results.filter fun entry ↦ decide (entry.1 = key)).map Prod.snd

/-- The number of published repositories, and what is wrong with the others. -/
def tally (env : Environment) (results : List (JsString × List Member)) (approvedBy : JsString) :
    List (JsString × ApprovedPublication) → ℕ × List JsString
  | [] => (0, [])
  | (key, approval) :: rest =>
    match matchesOf results key with
    | [] => ((tally env results approvedBy rest).1,
      (approval.slug ++ js ": publication result is missing") ::
        (tally env results approvedBy rest).2)
    | [result] =>
      match publicationProofIssue env result approval approvedBy with
      | some issue => ((tally env results approvedBy rest).1,
        (approval.slug ++ js ": " ++ issue) :: (tally env results approvedBy rest).2)
      | none => ((tally env results approvedBy rest).1 + 1, (tally env results approvedBy rest).2)
    | _ => ((tally env results approvedBy rest).1,
      (approval.slug ++ js ": multiple publication results were returned") ::
        (tally env results approvedBy rest).2)

def summaryKeys : List String := ["campaignId", "results", "total"]

/-- Everything that is wrong, in the order in which it is found. -/
def publicationFailures (env : Environment) (summary : CampaignRunSummary)
    (approvedPreflights : List ApprovedPublication) (approvedBy : JsString) : List JsString :=
  let approvals := approvedOf [] approvedPreflights
  (if summary.keys.insertionSort (· ≤ ·) = summaryKeys.map js then []
    else [js "summary contains unexpected fields"]) ++
  approvals.1 ++
  (if approvals.2 ≠ [] then [] else [js "no approved repositories were recorded"]) ++
  (if numberIs (.num summary.total) summary.results.length then []
    else [js "summary declared " ++ env.numberText summary.total ++
      js " result(s) but included " ++ decimalDigits summary.results.length]) ++
  (summary.results.zipIdx.flatMap fun entry ↦ resultFailures approvals.2 entry.1 entry.2) ++
  (tally env (resultsBySlug summary.results) approvedBy approvals.2).2

def buildPublishHttpDecision (env : Environment) (summary : CampaignRunSummary)
    (approvedPreflights : List ApprovedPublication) (approvedBy : JsString)
    (sensitiveValues : List JsString) : PublishHttpDecision :=
  let approvals := (approvedOf [] approvedPreflights).2
  let published := (tally env (resultsBySlug summary.results) approvedBy approvals).1
  let failures := publicationFailures env summary approvedPreflights approvedBy
  if failures = [] ∧ published = approvals.length ∧
      summary.results.length = approvals.length then ⟨201, none⟩
  else
    let pre :=
      if 0 < published then
        js "Publication partially completed: " ++ decimalDigits published ++ js " of " ++
          decimalDigits approvals.length ++ js " approved repositories returned verified PRs."
      else js "Publication did not complete: none of " ++ decimalDigits approvals.length ++
        js " approved repositories returned a verified PR."
    ⟨409, some ((redactText (pre ++ js " " ++ List.intercalate (js "; ") failures ++
      js ". Summary evidence is included.") sensitiveValues).take 10000)⟩

/-! ### Approvals -/

theorem safeRepositorySlug_eq_some {s slug : JsString}
    (h : safeRepositorySlug (.str s) = some slug) : slug = s := by
  rw [safeRepositorySlug] at h
  cases hok : validateRepositorySlug (.str s) with
  | error e =>
    rw [hok] at h
    cases h
  | ok t =>
    rw [hok] at h
    cases h
    simp only [validateRepositorySlug, bind_eq_ok, reject_eq_ok, exists_unit] at hok
    obtain ⟨-, hok⟩ := hok
    split at hok
    · simp only [bind_eq_ok, reject_eq_ok, exists_unit, pure_eq_ok] at hok
      exact hok.2.2.symm
    · cases hok

/-- The key under which an approval is kept. -/
def approvalKey (approval : ApprovedPublication) : JsString := asciiLower approval.slug

/-- An approval names a repository. -/
def HasSlug (approval : ApprovedPublication) : Prop :=
  (safeRepositorySlug (.str approval.slug)).isSome = true

def approvalEntry (approval : ApprovedPublication) : JsString × ApprovedPublication :=
  (approvalKey approval, approval)

theorem approvedOf_of_valid {approved : List (JsString × ApprovedPublication)}
    {items : List ApprovedPublication} (hvalid : ∀ item ∈ items, HasSlug item)
    (hnodup : (approved.map Prod.fst ++ items.map approvalKey).Nodup) :
    approvedOf approved items = ([], approved ++ items.map approvalEntry) := by
  induction items generalizing approved with
  | nil => rw [approvedOf, List.map_nil, List.append_nil]
  | cons item rest ih =>
    obtain ⟨slug, hslug⟩ := Option.isSome_iff_exists.mp (hvalid item List.mem_cons_self)
    have hsame := safeRepositorySlug_eq_some hslug
    subst hsame
    have hfresh : approved.any (fun entry ↦ decide (entry.1 = asciiLower item.slug)) = false := by
      rw [List.any_eq_false]
      intro entry hentry hkey
      exact (List.nodup_append.mp hnodup).2.2 _ (List.mem_map_of_mem hentry) _
        List.mem_cons_self (of_decide_eq_true hkey)
    rw [approvedOf, hslug]
    simp only [hfresh, Bool.false_eq_true, if_false]
    rw [ih (fun other hother ↦ hvalid other (List.mem_cons_of_mem _ hother)), List.map_cons,
      List.append_assoc]
    · rfl
    · rw [List.map_append, List.append_assoc]
      exact hnodup

theorem valid_of_approvedOf {approved : List (JsString × ApprovedPublication)}
    {items : List ApprovedPublication} (hfailures : (approvedOf approved items).1 = [])
    (hnodup : (approved.map Prod.fst).Nodup) :
    (∀ item ∈ items, HasSlug item) ∧
      (approved.map Prod.fst ++ items.map approvalKey).Nodup := by
  induction items generalizing approved with
  | nil =>
    rw [List.map_nil, List.append_nil]
    exact ⟨fun _ hmem ↦ absurd hmem List.not_mem_nil, hnodup⟩
  | cons item rest ih =>
    rw [approvedOf] at hfailures
    split at hfailures
    · cases hfailures
    · rename_i slug hslug
      split_ifs at hfailures with hany
      have hsame := safeRepositorySlug_eq_some hslug
      subst hsame
      obtain ⟨hvalid, hrest⟩ := ih hfailures (by
        rw [List.map_append, List.nodup_append]
        refine ⟨hnodup, List.nodup_singleton _, ?_⟩
        rintro key hkey other hother rfl
        obtain ⟨entry, hentry, hsame⟩ := List.mem_map.mp hkey
        refine hany (List.any_eq_true.mpr ⟨entry, hentry, decide_eq_true ?_⟩)
        rw [hsame, List.mem_singleton.mp hother])
      refine ⟨fun other hother ↦ ?_, ?_⟩
      · rcases List.mem_cons.mp hother with rfl | hother
        · exact Option.isSome_iff_exists.mpr ⟨_, hslug⟩
        · exact hvalid other hother
      · rw [List.map_append, List.append_assoc] at hrest
        exact hrest

/-! ### Results -/

theorem length_matchesOf (results : List (JsString × List Member)) (key : JsString) :
    (matchesOf results key).length = (results.map Prod.fst).count key := by
  rw [matchesOf, List.length_map, ← List.countP_eq_length_filter, List.count, List.countP_map]
  exact List.countP_congr fun entry _ ↦ by simp

theorem mem_of_matchesOf {results : List (JsString × List Member)} {key : JsString}
    {result : List Member} (h : result ∈ matchesOf results key) : (key, result) ∈ results := by
  obtain ⟨entry, hentry, rfl⟩ := List.mem_map.mp h
  obtain ⟨hmem, hkey⟩ := List.mem_filter.mp hentry
  rw [← of_decide_eq_true hkey]
  exact hmem

section Tally

variable {env : Environment} {results : List (JsString × List Member)} {approvedBy : JsString}

/-- The approval has one result, with a complete proof. -/
def Proved (env : Environment) (results : List (JsString × List Member)) (approvedBy : JsString)
    (entry : JsString × ApprovedPublication) : Prop :=
  ∃ result, matchesOf results entry.1 = [result] ∧
    publicationProofIssue env result entry.2 approvedBy = none

theorem tally_of_proved {entries : List (JsString × ApprovedPublication)}
    (hproved : ∀ entry ∈ entries, Proved env results approvedBy entry) :
    tally env results approvedBy entries = (entries.length, []) := by
  induction entries with
  | nil => rfl
  | cons entry rest ih =>
    obtain ⟨result, hmatches, hissue⟩ := hproved entry List.mem_cons_self
    rw [tally, hmatches]
    simp only [hissue]
    rw [ih fun other hother ↦ hproved other (List.mem_cons_of_mem _ hother)]
    rfl

theorem proved_of_tally {entries : List (JsString × ApprovedPublication)}
    (hfailures : (tally env results approvedBy entries).2 = []) :
    ∀ entry ∈ entries, Proved env results approvedBy entry := by
  induction entries with
  | nil => exact fun _ hmem ↦ absurd hmem List.not_mem_nil
  | cons entry rest ih =>
    rw [tally] at hfailures
    split at hfailures
    · cases hfailures
    · rename_i result hmatches
      split at hfailures
      · cases hfailures
      · rename_i hissue
        intro other hother
        rcases List.mem_cons.mp hother with rfl | hother
        · exact ⟨result, hmatches, hissue⟩
        · exact ih hfailures other hother
    · cases hfailures

end Tally

/-! ### One to one -/

/-- The results and the approvals are paired one to one by repository, and every pair is proved. -/
structure Paired (env : Environment) (summary : CampaignRunSummary)
    (approvals : List ApprovedPublication) (approvedBy : JsString) : Prop where
  keys : summary.keys.insertionSort (· ≤ ·) = summaryKeys.map js
  total : numberIs (.num summary.total) summary.results.length = true
  fields : ∀ result ∈ summary.results, hasOnlyKeys result resultKeys = true
  nonempty : approvals ≠ []
  valid : ∀ approval ∈ approvals, HasSlug approval
  distinct : (approvals.map approvalKey).Nodup
  paired : ((resultsBySlug summary.results).map Prod.fst).Perm (approvals.map approvalKey)
  proved : ∀ entry ∈ resultsBySlug summary.results, ∀ approval ∈ approvals,
    approvalKey approval = entry.1 →
      publicationProofIssue env entry.2 approval approvedBy = none

theorem resultFailures_eq_nil {approved : List (JsString × ApprovedPublication)}
    {result : List Member} {index : ℕ} : resultFailures approved result index = [] ↔
      hasOnlyKeys result resultKeys = true ∧ resultKey result index ∈ approved.map Prod.fst := by
  rw [resultFailures, List.append_eq_nil_iff]
  refine and_congr ?_ ?_
  · split_ifs with hkeys
    · exact iff_of_true rfl hkeys
    · exact iff_of_false not_false hkeys
  · rw [List.mem_map]
    split_ifs with hany
    · obtain ⟨entry, hentry, hkey⟩ := List.any_eq_true.mp hany
      exact iff_of_true rfl ⟨entry, hentry, of_decide_eq_true hkey⟩
    · refine iff_of_false not_false ?_
      rintro ⟨entry, hentry, hkey⟩
      exact hany (List.any_eq_true.mpr ⟨entry, hentry, decide_eq_true hkey⟩)

theorem ite_nil_eq_nil {condition : Prop} [Decidable condition] {text : JsString} :
    (if condition then ([] : List JsString) else [text]) = [] ↔ condition := by
  split_ifs with h
  · exact iff_of_true rfl h
  · exact iff_of_false not_false h

theorem map_approvalEntry (approvals : List ApprovedPublication) :
    (approvals.map approvalEntry).map Prod.fst = approvals.map approvalKey := by
  rw [List.map_map]
  rfl

theorem length_resultsBySlug (results : List (List Member)) :
    (resultsBySlug results).length = results.length := by
  rw [resultsBySlug, List.length_map, List.length_zipIdx]

/-- When the answer is `201`. -/
theorem status_eq {env : Environment} {summary : CampaignRunSummary}
    {approvals : List ApprovedPublication} {approvedBy : JsString}
    {sensitiveValues : List JsString} :
    (buildPublishHttpDecision env summary approvals approvedBy sensitiveValues).status = 201 ↔
      publicationFailures env summary approvals approvedBy = [] ∧
        (tally env (resultsBySlug summary.results) approvedBy (approvedOf [] approvals).2).1 =
          (approvedOf [] approvals).2.length ∧
        summary.results.length = (approvedOf [] approvals).2.length := by
  unfold buildPublishHttpDecision
  by_cases hcomplete : publicationFailures env summary approvals approvedBy = [] ∧
      (tally env (resultsBySlug summary.results) approvedBy (approvedOf [] approvals).2).1 =
        (approvedOf [] approvals).2.length ∧
      summary.results.length = (approvedOf [] approvals).2.length
  · rw [if_pos hcomplete]
    exact iff_of_true rfl hcomplete
  · rw [if_neg hcomplete]
    refine iff_of_false (fun hstatus ↦ ?_) hcomplete
    change 409 = 201 at hstatus
    exact absurd hstatus (by decide)

theorem paired_of_status {env : Environment} {summary : CampaignRunSummary}
    {approvals : List ApprovedPublication} {approvedBy : JsString}
    {sensitiveValues : List JsString}
    (h : (buildPublishHttpDecision env summary approvals approvedBy sensitiveValues).status = 201) :
    Paired env summary approvals approvedBy := by
  obtain ⟨hfailures, -, -⟩ := status_eq.mp h
  simp only [publicationFailures, List.append_eq_nil_iff, ite_nil_eq_nil, List.flatMap_eq_nil_iff,
    resultFailures_eq_nil] at hfailures
  obtain ⟨⟨⟨⟨⟨hkeys, happroved⟩, hempty⟩, htotal⟩, hresults⟩, htally⟩ := hfailures
  obtain ⟨hvalid, hdistinct⟩ := valid_of_approvedOf happroved List.nodup_nil
  rw [List.map_nil, List.nil_append] at hdistinct
  rw [approvedOf_of_valid hvalid (by rwa [List.map_nil, List.nil_append]), List.nil_append]
    at hempty hresults htally
  have hproved := proved_of_tally htally
  have hmember : ∀ entry ∈ resultsBySlug summary.results,
      entry.1 ∈ approvals.map approvalKey := by
    intro entry hentry
    obtain ⟨indexed, hindexed, rfl⟩ := List.mem_map.mp hentry
    exact map_approvalEntry approvals ▸ (hresults indexed hindexed).2
  refine ⟨hkeys, htotal, fun result hresult ↦ ?_, fun hnil ↦ ?_, hvalid, hdistinct, ?_,
    fun entry hentry approval happroval hkey ↦ ?_⟩
  · obtain ⟨index, hindex⟩ := List.mem_iff_getElem?.mp hresult
    exact (hresults _ (List.mk_mem_zipIdx_iff_getElem?.mpr hindex)).1
  · rw [hnil] at hempty
    exact hempty rfl
  · refine List.perm_iff_count.mpr fun key ↦ ?_
    rw [← length_matchesOf]
    by_cases hkey : key ∈ approvals.map approvalKey
    · obtain ⟨approval, happroval, rfl⟩ := List.mem_map.mp hkey
      obtain ⟨result, hmatches, -⟩ := hproved _ (List.mem_map_of_mem happroval)
      rw [List.count_eq_one_of_mem hdistinct hkey]
      exact congrArg List.length hmatches
    · rw [List.count_eq_zero_of_not_mem hkey, length_matchesOf, List.count_eq_zero]
      intro hmem
      obtain ⟨entry, hentry, rfl⟩ := List.mem_map.mp hmem
      exact hkey (hmember entry hentry)
  · obtain ⟨result, hmatches, hissue⟩ := hproved _ (List.mem_map_of_mem happroval)
    have hentry' : entry.2 ∈ matchesOf (resultsBySlug summary.results) (approvalKey approval) :=
      List.mem_map.mpr ⟨entry, List.mem_filter.mpr ⟨hentry, decide_eq_true hkey.symm⟩, rfl⟩
    rw [approvalEntry] at hmatches
    rw [hmatches] at hentry'
    rw [List.mem_singleton.mp hentry']
    exact hissue

theorem status_of_paired {env : Environment} {summary : CampaignRunSummary}
    {approvals : List ApprovedPublication} {approvedBy : JsString}
    (h : Paired env summary approvals approvedBy) (sensitiveValues : List JsString) :
    (buildPublishHttpDecision env summary approvals approvedBy sensitiveValues).status = 201 := by
  have happroved : approvedOf [] approvals = ([], approvals.map approvalEntry) :=
    approvedOf_of_valid h.valid (by rw [List.map_nil, List.nil_append]; exact h.distinct)
  have hlength : summary.results.length = (approvals.map approvalEntry).length := by
    rw [← length_resultsBySlug, List.length_map, ← List.length_map Prod.fst, h.paired.length_eq,
      List.length_map]
  have hproved : ∀ entry ∈ approvals.map approvalEntry,
      Proved env (resultsBySlug summary.results) approvedBy entry := by
    intro entry hentry
    obtain ⟨approval, happroval, rfl⟩ := List.mem_map.mp hentry
    have hone : (matchesOf (resultsBySlug summary.results) (approvalKey approval)).length = 1 := by
      rw [length_matchesOf, h.paired.count_eq,
        List.count_eq_one_of_mem h.distinct (List.mem_map_of_mem happroval)]
    obtain ⟨result, hmatches⟩ := List.length_eq_one_iff.mp hone
    exact ⟨result, hmatches, h.proved _
      (mem_of_matchesOf (hmatches ▸ List.mem_cons_self)) approval happroval rfl⟩
  have htally := tally_of_proved hproved
  rw [status_eq, publicationFailures, happroved, htally]
  simp only [List.append_eq_nil_iff, ite_nil_eq_nil, List.flatMap_eq_nil_iff,
    resultFailures_eq_nil, and_true]
  refine ⟨⟨⟨⟨h.keys, fun hnil ↦ h.nonempty (List.map_eq_nil_iff.mp hnil)⟩, h.total⟩,
    fun entry hentry ↦ ⟨h.fields _ (List.fst_mem_of_mem_zipIdx hentry), ?_⟩⟩, trivial, hlength⟩
  rw [map_approvalEntry]
  refine h.paired.subset (List.mem_map.mpr ⟨_, List.mem_map_of_mem hentry, rfl⟩)

/-- A publication is answered with `201` exactly when its results and its approvals are paired one
to one by repository and every pair has a complete proof. -/
theorem buildPublishHttpDecision_created_iff {env : Environment} {summary : CampaignRunSummary}
    {approvals : List ApprovedPublication} {approvedBy : JsString}
    {sensitiveValues : List JsString} :
    (buildPublishHttpDecision env summary approvals approvedBy sensitiveValues).status = 201 ↔
      Paired env summary approvals approvedBy :=
  ⟨paired_of_status, fun h ↦ status_of_paired h sensitiveValues⟩

/-! ### What a complete proof says -/

/-- The receipt of the owner's grant is for this publication. -/
structure ReceiptOf (receipt proof : List Member) (slug : JsString)
    (approval : ApprovedPublication) : Prop where
  envelopeDigest : textOf (field receipt "envelopeDigest") = some approval.ownerAuthorizationDigest
  manifestDigest : textOf (field receipt "manifestDigest") = some approval.manifestDigest
  repository : (safeRepositorySlug (field receipt "repositorySlug")).map asciiLower =
    some (asciiLower slug)
  preflightId : textOf (field receipt "preflightId") = some approval.preflightId
  baseSha : textOf (field receipt "baseSha") = textOf (field proof "baseSha")
  branch : textOf (field receipt "candidateBranch") = textOf (field proof "branch")
  candidateTreeSha : textOf (field receipt "candidateTreeSha") = some approval.candidateTreeSha
  consumed : ∃ expiresAt consumedAt, integerOf (field receipt "expiresAt") = some expiresAt ∧
    integerOf (field receipt "consumedAt") = some consumedAt ∧ 0 < consumedAt ∧
    consumedAt < expiresAt

/-- A result that was published as approved. -/
structure PublishedAs (env : Environment) (result : List Member) (approval : ApprovedPublication)
    (approvedBy : JsString) : Prop where
  status : textOf (field result "status") = some (js "pr_opened")
  prUrl : isMatchingGitHubPrUrl env (textOf (field result "prUrl")) (resultSlug result) = true
  preflightId : textOf (field result "preflightId") = some approval.preflightId
  publication : ∃ proof, field result "publication" = .obj proof ∧
    textOf (field proof "preflightId") = some approval.preflightId ∧
    textOf (field proof "candidateTreeSha") = some approval.candidateTreeSha ∧
    normalizeDigest (textOf (field proof "artifactDigest")) =
      normalizeDigest (some approval.artifactDigest) ∧
    textOf (field proof "approvedBy") = some approvedBy ∧
    field proof "blockers" = .arr [] ∧ field proof "overridden" = .bool false ∧
    ∃ receipt, field proof "ownerAuthorizationReceipt" = .obj receipt ∧
      ReceiptOf receipt proof (resultSlug result) approval

theorem expects_eq_nil {condition : Prop} [Decidable condition] {missing : String} :
    expects condition missing = [] ↔ condition := by
  unfold expects
  split_ifs with h
  · exact iff_of_true rfl h
  · exact iff_of_false not_false h

theorem receiptIssue_eq_nil {issue : Except String Unit} :
    receiptIssue issue = [] ↔ issue = .ok () := by
  cases issue with
  | ok u => exact iff_of_true rfl rfl
  | error missing => exact iff_of_false (List.cons_ne_nil _ _) nofun

theorem receiptOf_of_ok {value : JsValue} {slug : JsString} {proof : List Member}
    {approval : ApprovedPublication}
    (h : ownerAuthorizationReceiptIssue value slug proof approval = .ok ()) :
    ∃ receipt, value = .obj receipt ∧ ReceiptOf receipt proof slug approval := by
  unfold ownerAuthorizationReceiptIssue at h
  split at h
  · rename_i receipt
    simp only [bind_eq_ok, reject_eq_ok, orThrow_eq_ok, exists_unit, not_not] at h
    obtain ⟨-, -, hdigests, id, -, hrepository, hbound, expiresAt, hexpires, consumedAt, hconsumed,
      htimes⟩ := h
    exact ⟨receipt, rfl,
      { envelopeDigest := hdigests.2.1
        manifestDigest := hdigests.2.2.2.2
        repository := hrepository.1
        preflightId := hbound.1
        baseSha := hbound.2.2.2.1
        branch := hbound.2.2.2.2.2.2.2.1
        candidateTreeSha := hbound.2.2.2.2.2.2.2.2.2.1
        consumed := ⟨expiresAt, consumedAt, hexpires, hconsumed, htimes.2.1, htimes.2.2⟩ }⟩
  · cases h

theorem publishedAs_of_issue {env : Environment} {result : List Member}
    {approval : ApprovedPublication} {approvedBy : JsString}
    (h : publicationProofIssue env result approval approvedBy = none) :
    PublishedAs env result approval approvedBy := by
  unfold publicationProofIssue at h
  split at h
  · split at h
    · split at h <;> cases h
    · cases h
  rename_i hstatus
  rw [ne_eq, not_not] at hstatus
  split at h
  · cases h
  rename_i hurl
  split at h
  · rename_i proof hproof
    split_ifs at h with hmissing
    simp only [missingProof, List.append_eq_nil_iff, expects_eq_nil, receiptIssue_eq_nil]
      at hmissing
    obtain ⟨⟨⟨⟨⟨⟨⟨⟨⟨⟨⟨⟨⟨⟨-, -⟩, -⟩, hpreflight⟩, -⟩, -⟩, htree⟩, -⟩, hdigest⟩, -⟩, -⟩, hoperator⟩,
      hblockers⟩, hoverridden⟩, hreceipt⟩ := hmissing
    refine ⟨hstatus, Bool.eq_true_of_not_eq_false hurl, hpreflight.2.1, proof, hproof,
      hpreflight.2.2, htree.2, hdigest.2, hoperator.2, ?_, ?_, receiptOf_of_ok hreceipt⟩
    · split at hblockers
      · assumption
      · cases hblockers
    · split at hoverridden
      · assumption
      · cases hoverridden
  · cases h

/-- A repository slug has a slash, which no key of an invalid result has. -/
theorem slash_mem_approvalKey {approval : ApprovedPublication} (h : HasSlug approval) :
    (0x2f : UInt16) ∈ approvalKey approval := by
  rw [HasSlug, safeRepositorySlug] at h
  cases hok : validateRepositorySlug (.str approval.slug) with
  | error e =>
    rw [hok] at h
    cases h
  | ok slug =>
    simp only [validateRepositorySlug, bind_eq_ok, reject_eq_ok, exists_unit] at hok
    obtain ⟨-, hok⟩ := hok
    split at hok
    · rename_i owner repo hsplit
      have hslug : approval.slug = owner ++ 0x2f :: repo := by
        have hjoin : List.intercalate [0x2f] (splitSlash approval.slug) = approval.slug :=
          List.intercalate_splitOn _
        rw [hsplit] at hjoin
        rw [← hjoin]
        simp [List.intercalate]
      refine List.mem_map.mpr ⟨0x2f, ?_, rfl⟩
      rw [hslug]
      exact List.mem_append_right _ List.mem_cons_self
    · cases hok

theorem textOf_of_safeRepositorySlug {value : JsValue} {slug : JsString}
    (h : safeRepositorySlug value = some slug) : textOf value = some slug := by
  cases value with
  | str s => rw [safeRepositorySlug_eq_some h, textOf]
  | _ => cases h

/-- A result that is found under the key of an approval is of its repository. -/
theorem resultSlug_of_key {result : List Member} {index : ℕ} {approval : ApprovedPublication}
    (hvalid : HasSlug approval) (hkey : resultKey result index = approvalKey approval) :
    asciiLower (resultSlug result) = approvalKey approval := by
  rw [resultKey] at hkey
  split at hkey
  · rename_i slug hslug
    rw [resultSlug, textOf_of_safeRepositorySlug hslug]
    exact hkey
  · have hslash := slash_mem_approvalKey hvalid
    rw [← hkey] at hslash
    rcases List.mem_append.mp hslash with hmem | hmem
    · exact absurd hmem (by decide)
    · have hdigit := isDigit_of_mem_decimalDigits hmem
      exact absurd hdigit (by decide)

/-- Behind a `201` there is, for every approval, a result of its repository that was published as
approved, under a grant that was made for it. -/
theorem buildPublishHttpDecision_published {env : Environment} {summary : CampaignRunSummary}
    {approvals : List ApprovedPublication} {approvedBy : JsString}
    {sensitiveValues : List JsString}
    (h : (buildPublishHttpDecision env summary approvals approvedBy sensitiveValues).status = 201)
    {approval : ApprovedPublication} (happroval : approval ∈ approvals) :
    ∃ result ∈ summary.results, asciiLower (resultSlug result) = asciiLower approval.slug ∧
      PublishedAs env result approval approvedBy := by
  have hpaired := paired_of_status h
  obtain ⟨entry, hentry, hkey⟩ := List.mem_map.mp
    (hpaired.paired.symm.subset (List.mem_map_of_mem happroval))
  have hpublished := publishedAs_of_issue
    (hpaired.proved entry hentry approval happroval hkey.symm)
  obtain ⟨indexed, hindexed, rfl⟩ := List.mem_map.mp hentry
  exact ⟨indexed.1, List.fst_mem_of_mem_zipIdx hindexed,
    resultSlug_of_key (hpaired.valid approval happroval) hkey, hpublished⟩

/-! ### One approval -/

def sampleText (value : String) : JsValue := .str (js value)

def sampleHex (n : ℕ) (c : UInt16) : JsString := List.replicate n c

def sampleDigest : JsString := js "sha256:" ++ sampleHex 64 0x61

def samplePreflightId : JsString := js "pf_" ++ sampleHex 64 0x61

def sampleApproval : ApprovedPublication where
  slug := js "Acme/shop"
  preflightId := samplePreflightId
  artifactDigest := sampleHex 64 0x61
  candidateTreeSha := sampleHex 40 0x62
  previewCompletedAt := 5
  manifestDigest := sampleDigest
  ownerAuthorizationDigest := sampleDigest

def sampleReceipt : JsValue := .obj [
  (js "authorizationId", sampleText "authorization"), (js "envelopeId", sampleText "envelope"),
  (js "envelopeDigest", .str sampleDigest), (js "nonceDigest", .str sampleDigest),
  (js "signerId", sampleText "signer"), (js "keyId", sampleText "key"),
  (js "repositorySlug", sampleText "acme/shop"), (js "repositoryId", .num (.int 1)),
  (js "baseSha", .str (sampleHex 40 0x61)), (js "preflightId", .str samplePreflightId),
  (js "artifactDigest", .str sampleDigest), (js "manifestDigest", .str sampleDigest),
  (js "candidateBranch", sampleText "codex/stripe"),
  (js "candidateTreeSha", .str (sampleHex 40 0x62)), (js "expiresAt", .num (.int 9)),
  (js "consumedAt", .num (.int 8))]

def sampleProof : JsValue := .obj [
  (js "mode", sampleText "publish"), (js "status", sampleText "pr_opened"),
  (js "preflightId", .str samplePreflightId), (js "baseBranch", sampleText "main"),
  (js "baseSha", .str (sampleHex 40 0x61)), (js "branch", sampleText "codex/stripe"),
  (js "candidateTreeSha", .str (sampleHex 40 0x62)), (js "previewCompletedAt", .num (.int 5)),
  (js "headSha", .str (sampleHex 40 0x63)), (js "artifactDigest", .str sampleDigest),
  (js "blockers", .arr []), (js "overridden", .bool false),
  (js "approvedBy", sampleText "operator"),
  (js "ownerAuthorizationReceipt", sampleReceipt)]

def sampleSummary : CampaignRunSummary where
  keys := [js "total", js "campaignId", js "results"]
  total := .int 1
  results := [[(js "slug", sampleText "acme/shop"), (js "status", sampleText "pr_opened"),
    (js "prUrl", sampleText "https://github.com/acme/shop/pull/7"),
    (js "preflightId", .str samplePreflightId), (js "publication", sampleProof)]]

def sampleEnvironment : Environment where
  parseUrl _ := some ⟨js "https:", js "github.com", [], [], [], [], [], js "/acme/shop/pull/7"⟩
  numberText
    | .int i => integerText i
    | _ => js "0"

theorem buildPublishHttpDecision_published_sample : ∃ result ∈ sampleSummary.results,
    asciiLower (resultSlug result) = asciiLower sampleApproval.slug ∧
      PublishedAs sampleEnvironment result sampleApproval (js "operator") := by
  have h : (buildPublishHttpDecision sampleEnvironment sampleSummary [sampleApproval]
      (js "operator") []).status = 201 := by decide +kernel
  exact buildPublishHttpDecision_published h List.mem_cons_self

end ApiMigrator.Console.PublishDecision
