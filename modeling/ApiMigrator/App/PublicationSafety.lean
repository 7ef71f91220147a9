import ApiMigrator.App.GitHubPublication

/-!
What a publication has done when it ends, however git and GitHub answer. Before the first write
everything is a read: `Reads` says so of each step, and what the answers have shown. A write comes
only after two looks at the remote repository that agree, and what was written is in the outcome.
-/

set_option autoImplicit false
set_option relaxedAutoImplicit false

namespace ApiMigrator.App.GitHubPublication

open Foundation.Text Foundation.Number Foundation.Pattern Foundation.Outcome
open Foundation.Interaction (Prog Event)
open Foundation.Interaction.Prog
open Security (Failure safeErrorMessage)
open PublicationRunner (isGitSha)
open OwnerAuthorization (OwnerAuthorizationReceipt)

/-- The environment answers as it likes; the history has every answer. -/
def Answered (h : History) (op : Op) (answer : Answer op) (after : History) : Prop :=
  after = h ++ [⟨op, answer⟩]

/-- The operations that change the remote repository. -/
def Op.writes : Op → Bool
  | .git args => decide (args.head? = some (js "push"))
  | .updatePull _ _ _ _ _ => true
  | .createPull _ _ _ _ _ => true
  | _ => false

def Quiet (h : History) : Prop := ∀ event ∈ h, event.1.writes = false

theorem quiet_nil : Quiet [] := fun _ hmem ↦ absurd hmem List.not_mem_nil

theorem Quiet.snoc {h : History} (hh : Quiet h) {op : Op} (hop : op.writes = false)
    (answer : Answer op) : Quiet (h ++ [⟨op, answer⟩]) := by
  intro event hmem
  rcases List.mem_append.mp hmem with hmem | hmem
  · exact hh event hmem
  · rw [List.mem_singleton.mp hmem]
    exact hop

section Reading

variable {α β : Type}

/-- A step from the history `start` that writes nothing: it fails with an ordinary error, or `good`
holds of its value. -/
def Reads (start : History) (good : α → History → Prop) : Except Thrown α → History → Prop
  | .ok a, h => Quiet h ∧ start ⊆ h ∧ good a h
  | .error e, h => (∃ failure, e = .failure failure) ∧ Quiet h

abbrev Publishing.Reading (p : Publishing α) (h : History) (good : α → History → Prop) : Prop :=
  p.Ensures Answered (Reads h good) h

variable {good good' : α → History → Prop} {h : History}

theorem Publishing.Reading.mono {p : Publishing α} (hp : Publishing.Reading p h good)
    (himp : ∀ a after, good a after → good' a after) : Publishing.Reading p h good' := by
  refine Ensures.mono (fun result after hresult ↦ ?_) hp
  cases result with
  | ok a => exact ⟨hresult.1, hresult.2.1, himp a after hresult.2.2⟩
  | error e => exact hresult

theorem reading_ask {op : Op} (hop : op.writes = false) (hh : Quiet h) :
    Publishing.Reading (ask op) h fun a after ↦ ⟨op, .ok a⟩ ∈ after := by
  intro answer after hafter
  rw [Answered] at hafter
  subst hafter
  cases answer with
  | ok a =>
    exact ⟨hh.snoc hop _, List.subset_append_left _ _,
      List.mem_append_right _ List.mem_cons_self⟩
  | error e => exact ⟨⟨_, rfl⟩, hh.snoc hop _⟩

theorem reading_lift {outcome : Except Thrown α}
    (herror : ∀ e, outcome = .error e → ∃ failure, e = .failure failure) (hh : Quiet h) :
    Publishing.Reading (.lift outcome) h fun a _ ↦ outcome = .ok a := by
  cases outcome with
  | ok a => exact ⟨hh, List.Subset.refl h, rfl⟩
  | error e => exact ⟨herror e rfl, hh⟩

theorem reading_reject {condition : Prop} [Decidable condition] {message : JsString}
    (hh : Quiet h) :
    Publishing.Reading (.lift (reject condition (Thrown.error message))) h
      fun _ _ ↦ ¬ condition := by
  refine (reading_lift (fun e he ↦ ?_) hh).mono fun u after hu ↦ reject_eq_ok.mp hu
  rw [reject_eq_error] at he
  exact ⟨_, he.2⟩

theorem Publishing.Reading.bind {p : Publishing α} {f : α → Publishing β}
    {good' : β → History → Prop} (hp : Publishing.Reading p h good)
    (hf : ∀ a after, Quiet after → h ⊆ after → good a after →
      Publishing.Reading (f a) after good') :
    Publishing.Reading (p >>= f) h good' := by
  refine Ensures.bind_of hp (fun e after he ↦ he) fun a after ha ↦ ?_
  refine Ensures.mono (fun result last hresult ↦ ?_) (hf a after ha.1 ha.2.1 ha.2.2)
  cases result with
  | ok b => exact ⟨hresult.1, List.Subset.trans ha.2.1 hresult.2.1, hresult.2.2⟩
  | error e => exact hresult

theorem reading_pure {a : α} (hh : Quiet h) (ha : good a h) :
    Publishing.Reading (pure a) h good :=
  ⟨hh, List.Subset.refl h, ha⟩

theorem Publishing.Reading.relabel {p : Publishing α} {label : JsString} {secrets : List JsString}
    (hp : Publishing.Reading p h good) :
    Publishing.Reading (relabel label secrets p) h good := by
  refine Ensures.recover (Ensures.mono (fun result after hresult ↦ ?_) hp)
  cases result with
  | ok a => exact hresult
  | error e => exact ⟨⟨_, rfl⟩, hresult.2⟩

theorem Publishing.Reading.catching {p : Publishing α} {tokens : List JsString}
    (hp : Publishing.Reading p h good) :
    Publishing.Reading (catching tokens p) h good := by
  refine Ensures.recover (Ensures.mono (fun result after hresult ↦ ?_) hp)
  cases result with
  | ok a => exact hresult
  | error e =>
    obtain ⟨⟨failure, rfl⟩, hquiet⟩ := hresult
    exact ⟨⟨_, rfl⟩, hquiet⟩

theorem reading_gitExec {first : JsString} {rest secrets : List JsString}
    (hfirst : first ≠ js "push") (hh : Quiet h) :
    Publishing.Reading (gitExec (first :: rest) secrets) h
      fun text after ↦ ⟨.git (first :: rest), .ok text⟩ ∈ after := by
  refine Publishing.Reading.relabel (reading_ask ?_ hh)
  rw [Op.writes, List.head?_cons, decide_eq_false (fun hsame ↦ hfirst (Option.some.inj hsame))]

end Reading

section Publication

variable {g : Candidate} {h : History}

/-! ### What the remote repository has shown -/

/-- What a look at the remote repository with a token has shown. -/
structure Inspected (g : Candidate) (token : JsString) (remote : RemotePublicationState)
    (h : History) : Prop where
  base : ⟨.getRef token g.baseBranch, .ok g.baseSha⟩ ∈ h
  branch : (remote = .absent ∧ ∃ e : CallFailure, e.status = some 404 ∧
      ⟨.getRef token g.branch, .error e⟩ ∈ h) ∨
    ∃ sha pulls, remote = .present g sha pulls ∧ isGitSha sha = true ∧
      ⟨.getRef token g.branch, .ok sha⟩ ∈ h ∧
      ⟨.getCommit token sha, .ok ⟨sha, [g.baseSha], g.candidateTreeSha⟩⟩ ∈ h ∧
      ⟨.listPulls token g.branch, .ok pulls⟩ ∈ h

theorem Inspected.mono {token : JsString} {remote : RemotePublicationState} {h' : History}
    (hseen : Inspected g token remote h) (hsub : h ⊆ h') : Inspected g token remote h' := by
  refine ⟨hsub hseen.base, ?_⟩
  rcases hseen.branch with ⟨hremote, e, hstatus, hmem⟩ |
    ⟨sha, pulls, hremote, hsha, href, hcommit, hpulls⟩
  · exact .inl ⟨hremote, e, hstatus, hsub hmem⟩
  · exact .inr ⟨sha, pulls, hremote, hsha, hsub href, hsub hcommit, hsub hpulls⟩

theorem assertRemoteBranchMatchesArtifact_eq_ok {sha : JsString} {commit : RemoteCommit} {u : Unit}
    (hok : assertRemoteBranchMatchesArtifact g sha commit = .ok u) :
    isGitSha sha = true ∧ commit = ⟨sha, [g.baseSha], g.candidateTreeSha⟩ := by
  simp only [assertRemoteBranchMatchesArtifact, bind_eq_ok, reject_eq_ok, exists_unit, not_or,
    Bool.not_eq_false, ne_eq, not_not] at hok
  obtain ⟨hsha, -, hparents, hcommit, htree⟩ := hok
  refine ⟨hsha, ?_⟩
  rw [← hcommit, ← hparents, ← htree]

theorem assertRemoteBranchMatchesArtifact_eq_error {sha : JsString} {commit : RemoteCommit}
    {e : Thrown} (herror : assertRemoteBranchMatchesArtifact g sha commit = .error e) :
    ∃ failure, e = .failure failure := by
  simp only [assertRemoteBranchMatchesArtifact, bind_eq_error, reject_eq_error, reject_eq_ok,
    exists_unit] at herror
  rcases herror with ⟨-, rfl⟩ | ⟨-, ⟨-, rfl⟩ | ⟨-, -, rfl⟩⟩
  · exact ⟨_, rfl⟩
  · exact ⟨_, rfl⟩
  · exact ⟨_, rfl⟩

theorem reading_assertRemoteBase (token : JsString) (hh : Quiet h) :
    Publishing.Reading (assertRemoteBaseMatchesApproval g token) h fun _ after ↦
      ⟨.getRef token g.baseBranch, .ok g.baseSha⟩ ∈ after := by
  refine Publishing.Reading.relabel ((reading_ask rfl hh).bind fun sha after hquiet _ hmem ↦ ?_)
  refine Ensures.mono (fun result last hresult ↦ ?_) (reading_reject hquiet)
  cases result with
  | ok u =>
    obtain ⟨hlast, hsub, hsame⟩ := hresult
    rw [ne_eq, not_not] at hsame
    exact ⟨hlast, hsub, hsame ▸ hsub hmem⟩
  | error e => exact hresult

theorem reading_verifyMigrationBranch (token sha : JsString) (hh : Quiet h) :
    Publishing.Reading (verifyMigrationBranch g token sha) h fun remote after ↦
      ∃ pulls, remote = .present g sha pulls ∧ isGitSha sha = true ∧
        ⟨.getCommit token sha, .ok ⟨sha, [g.baseSha], g.candidateTreeSha⟩⟩ ∈ after ∧
        ⟨.listPulls token g.branch, .ok pulls⟩ ∈ after := by
  refine Publishing.Reading.relabel ((reading_ask rfl hh).bind fun commit h₁ hquiet₁ _ hcommit ↦ ?_)
  refine (reading_lift (fun e ↦ assertRemoteBranchMatchesArtifact_eq_error) hquiet₁).bind
    fun u h₂ hquiet₂ hsub₂ hok ↦ ?_
  obtain ⟨hsha, rfl⟩ := assertRemoteBranchMatchesArtifact_eq_ok hok
  refine (reading_ask rfl hquiet₂).bind fun pulls h₃ hquiet₃ hsub₃ hpulls ↦ ?_
  exact reading_pure hquiet₃ ⟨pulls, rfl, hsha, hsub₃ (hsub₂ hcommit), hpulls⟩

theorem reading_inspect (token : JsString) (hh : Quiet h) :
    Publishing.Reading (inspectRemotePublicationState g token) h
      fun remote after ↦ Inspected g token remote after := by
  refine (reading_assertRemoteBase token hh).bind fun u h₁ hquiet₁ _ hbase ↦ ?_
  intro answer h₂ hanswer
  rw [Answered] at hanswer
  subst hanswer
  have hquiet₂ : Quiet (h₁ ++ [⟨.getRef token g.branch, answer⟩]) := hquiet₁.snoc rfl answer
  have hmem : (⟨.getRef token g.branch, answer⟩ : Event Op Answer) ∈
      h₁ ++ [⟨.getRef token g.branch, answer⟩] := List.mem_append_right _ List.mem_cons_self
  have hsub : h₁ ⊆ h₁ ++ [⟨.getRef token g.branch, answer⟩] := List.subset_append_left _ _
  cases answer with
  | ok sha =>
    refine Ensures.mono (fun result last hresult ↦ ?_)
      (reading_verifyMigrationBranch token sha hquiet₂)
    cases result with
    | ok remote =>
      obtain ⟨hlast, hsub₂, pulls, hremote, hsha, hcommit, hpulls⟩ := hresult
      exact ⟨hlast, List.Subset.trans hsub hsub₂, hsub₂ (hsub hbase),
        .inr ⟨sha, pulls, hremote, hsha, hsub₂ hmem, hcommit, hpulls⟩⟩
    | error e => exact hresult
  | error e =>
    change Ensures Answered _ (if e.status = some 404 then
      (pure RemotePublicationState.absent : Publishing RemotePublicationState) else throw _) _
    split
    · rename_i hstatus
      exact ⟨hquiet₂, hsub, hsub hbase, .inl ⟨rfl, e, hstatus, hmem⟩⟩
    · exact ⟨⟨_, rfl⟩, hquiet₂⟩

/-! ### What the review has established -/

/-- The candidate's tree has been committed in the clone. -/
structure Committed (g : Candidate) (sha : JsString) (h : History) : Prop where
  valid : isGitSha sha = true
  head : ∃ text, trim text = sha ∧ ⟨.git [js "rev-parse", js "HEAD"], .ok text⟩ ∈ h
  tree : ∃ text, trim text = g.candidateTreeSha ∧
    ⟨.git [js "rev-parse", js "HEAD^\x7btree\x7d"], .ok text⟩ ∈ h

/-- What stands before the write token is used. -/
structure Authorized (g : Candidate) (reviewed : Reviewed) (write : AuthorizedWriteAuth)
    (h : History) : Prop where
  seen : Inspected g g.readToken reviewed.remote h
  granted : ⟨.ownerGrant reviewed.remote, .ok ()⟩ ∈ h
  committed : Committed g reviewed.localCommitSha h
  capability : ⟨.writeAuth, .ok write⟩ ∈ h

/-- The two looks have shown the same branch and the same pull request. -/
structure Unchanged (reviewed current : RemotePublicationState) : Prop where
  pushRequired : reviewed.pushRequired = current.pushRequired
  sha : reviewed.sha = current.sha
  number : reviewed.pullRequest.map OpenPullRequestIdentity.number =
    current.pullRequest.map OpenPullRequestIdentity.number

/-- Everything that stands before the first write. -/
structure Cleared (g : Candidate) (reviewed : Reviewed) (write : AuthorizedWriteAuth)
    (remote : RemotePublicationState) (headSha : JsString) (h : History) : Prop
    extends Authorized g reviewed write h where
  quiet : Quiet h
  preflight : g.requestedPreflightId = g.preflightId
  blockers : g.blockers = []
  again : Inspected g write.token remote h
  unchanged : Unchanged reviewed.remote remote
  head : (if remote.pushRequired then some reviewed.localCommitSha else remote.sha) = some headSha

theorem reading_commitCandidate (hh : Quiet h) :
    Publishing.Reading (commitCandidate g) h fun sha after ↦ Committed g sha after := by
  refine (reading_gitExec (by decide) hh).bind fun _ h₁ hquiet₁ _ _ ↦ ?_
  refine (reading_gitExec (by decide) hquiet₁).bind fun _ h₂ hquiet₂ _ _ ↦ ?_
  refine (reading_reject hquiet₂).bind fun _ h₃ hquiet₃ _ _ ↦ ?_
  refine (reading_gitExec (by decide) hquiet₃).bind fun _ h₄ hquiet₄ _ _ ↦ ?_
  refine (reading_gitExec (by decide) hquiet₄).bind fun head h₅ hquiet₅ _ hhead ↦ ?_
  refine (reading_reject hquiet₅).bind fun _ h₆ hquiet₆ hsub₆ hvalid ↦ ?_
  refine (reading_gitExec (by decide) hquiet₆).bind fun tree h₇ hquiet₇ hsub₇ htree ↦ ?_
  refine (reading_reject hquiet₇).bind fun _ h₈ hquiet₈ hsub₈ _ ↦ ?_
  refine (reading_reject hquiet₈).bind fun _ h₉ hquiet₉ hsub₉ hsame ↦ ?_
  rw [ne_eq, not_not] at hsame
  exact reading_pure hquiet₉ ⟨Bool.eq_true_of_not_eq_false hvalid,
    ⟨head, rfl, hsub₉ (hsub₈ (hsub₇ (hsub₆ hhead)))⟩, ⟨tree, hsame, hsub₉ (hsub₈ htree)⟩⟩

theorem Committed.mono {sha : JsString} {h' : History} (hc : Committed g sha h) (hsub : h ⊆ h') :
    Committed g sha h' :=
  ⟨hc.valid, hc.head.imp fun _ htext ↦ ⟨htext.1, hsub htext.2⟩,
    hc.tree.imp fun _ htext ↦ ⟨htext.1, hsub htext.2⟩⟩

theorem Authorized.mono {reviewed : Reviewed} {write : AuthorizedWriteAuth} {h' : History}
    (ha : Authorized g reviewed write h) (hsub : h ⊆ h') : Authorized g reviewed write h' :=
  ⟨ha.seen.mono hsub, hsub ha.granted, ha.committed.mono hsub, hsub ha.capability⟩

theorem reading_review (hh : Quiet h) :
    Publishing.Reading (review g) h fun result after ↦ Authorized g result.1 result.2 after := by
  refine (reading_reject hh).bind fun _ h₁ hquiet₁ _ _ ↦ ?_
  have horigin : Publishing.Reading (assertCanonicalRemote g) h₁ fun _ _ ↦ True := by
    refine (reading_gitExec (by decide) hquiet₁).bind fun _ h₂ hquiet₂ _ _ ↦ ?_
    exact (reading_reject hquiet₂).mono fun _ _ _ ↦ trivial
  refine horigin.bind fun _ h₂ hquiet₂ _ _ ↦ ?_
  refine (reading_inspect g.readToken hquiet₂).bind fun remote h₃ hquiet₃ _ hseen ↦ ?_
  refine (reading_ask rfl hquiet₃).bind fun _ h₄ hquiet₄ hsub₄ hgranted ↦ ?_
  refine (reading_commitCandidate hquiet₄).bind fun sha h₅ hquiet₅ hsub₅ hcommitted ↦ ?_
  refine (reading_ask rfl hquiet₅).bind fun write h₆ hquiet₆ hsub₆ hcapability ↦ ?_
  exact reading_pure hquiet₆ ⟨hseen.mono fun _ hmem ↦ hsub₆ (hsub₅ (hsub₄ hmem)),
    hsub₆ (hsub₅ hgranted), hcommitted.mono hsub₆, hcapability⟩

theorem unchanged_of_eq_ok {reviewed current : RemotePublicationState} {u : Unit}
    (hok : assertRemotePublicationStateUnchanged reviewed current = .ok u) :
    Unchanged reviewed current := by
  simp only [assertRemotePublicationStateUnchanged, reject_eq_ok, not_or, ne_eq, not_not] at hok
  exact ⟨hok.1, hok.2.1, hok.2.2.1⟩

theorem reading_reinspect (reviewed : Reviewed) (write : AuthorizedWriteAuth) (hh : Quiet h) :
    Publishing.Reading (reinspect g reviewed write) h fun result after ↦
      Inspected g write.token result.1 after ∧ Unchanged reviewed.remote result.1 ∧
        (if result.1.pushRequired then some reviewed.localCommitSha else result.1.sha) =
          some result.2 := by
  refine (reading_reject hh).bind fun _ h₁ hquiet₁ _ _ ↦ ?_
  refine (reading_inspect write.token hquiet₁).bind fun remote h₂ hquiet₂ _ hseen ↦ ?_
  refine (reading_lift (fun e he ↦ ?_) hquiet₂).bind fun _ h₃ hquiet₃ hsub₃ hsame ↦ ?_
  · rw [assertRemotePublicationStateUnchanged, reject_eq_error] at he
    exact ⟨_, he.2⟩
  refine (reading_lift (fun e he ↦ ?_) hquiet₃).bind fun head h₄ hquiet₄ hsub₄ hhead ↦ ?_
  · rw [orThrow_eq_error] at he
    exact ⟨_, he.2⟩
  rw [orThrow_eq_ok] at hhead
  exact reading_pure hquiet₄ ⟨hseen.mono fun _ hmem ↦ hsub₄ (hsub₃ hmem),
    unchanged_of_eq_ok hsame, hhead⟩

/-! ### The pull request and its record -/

/-- What GitHub has answered about a pull request. -/
def answeredPull : Event Op Answer → Option PullRequestAnswer
  | ⟨.updatePull _ _ _ _ _, .ok data⟩ => some data
  | ⟨.createPull _ _ _ _ _, .ok data⟩ => some data
  | _ => none

/-- The number of a pull request that GitHub says it has made. -/
def createdNumber : Event Op Answer → Option ℤ
  | ⟨.createPull _ _ _ _ _, .ok data⟩ => (safeInteger data.number).filter fun n ↦ decide (0 < n)
  | _ => none

/-- The one call about a pull request. -/
def pullOp (g : Candidate) (token title body : JsString) : Option OpenPullRequestIdentity → Op
  | some pull => .updatePull token pull.number title body g.baseBranch
  | none => .createPull token g.branch g.baseBranch title body

/-- An audit with what is known of the pull request. -/
def PublicationAttemptAudit.withPull (audit : PublicationAttemptAudit) (number : Option ℤ)
    (prUrl : Option JsString) : PublicationAttemptAudit :=
  { audit with pullRequestNumber := number, prUrl := prUrl }

/-- What comes of the call about a pull request: the address of one that is as approved, or the
audit, which names the pull request if one was made. -/
def PullRecorded (g : Candidate) (audit : PublicationAttemptAudit) (event : Event Op Answer) :
    Except Thrown JsString → Prop
  | .ok url => (∃ data, answeredPull event = some data ∧ data.matches g audit.headSha = true) ∧
    ∀ n, createdNumber event = some n → url = pullRequestUrl g n
  | .error e => ∃ message number url, e = .publicationAttempt message (audit.withPull number url) ∧
    ∀ n, createdNumber event = some n → number = some n ∧ url = some (pullRequestUrl g n)

theorem failed_eq (audit : PublicationAttemptAudit) (e : Thrown) :
    ∃ number url, audit.failed e = audit.withPull number url := by
  cases e with
  | failure error => exact ⟨audit.pullRequestNumber, audit.prUrl, rfl⟩
  | createdPullRequestMismatch message number prUrl => exact ⟨some number, some prUrl, rfl⟩
  | publicationAttempt message audit' => exact ⟨audit.pullRequestNumber, audit.prUrl, rfl⟩

theorem updatedPull_eq_ok {data : PullRequestAnswer} {headSha url : JsString}
    (hok : updatedPull g data headSha = .ok url) : data.matches g headSha = true := by
  simp only [updatedPull, bind_eq_ok, reject_eq_ok, exists_unit, Bool.not_eq_false] at hok
  exact hok.1

theorem createdPull_eq_ok {data : PullRequestAnswer} {headSha url : JsString}
    (hok : createdPull g data headSha = .ok url) : data.matches g headSha = true ∧
      ∃ n, safeInteger data.number = some n ∧ url = pullRequestUrl g n := by
  simp only [createdPull, createdPullRequestEvidence, bind_eq_ok, reject_eq_ok, orThrow_eq_ok,
    pure_eq_ok, exists_unit, Bool.not_eq_false] at hok
  obtain ⟨created, ⟨n, hn, -, parsed, -, -, rfl⟩, hmatches, rfl⟩ := hok
  exact ⟨hmatches, n, hn, rfl⟩

/-- A pull request that was made with a number is named by the error. -/
theorem createdPull_eq_error {data : PullRequestAnswer} {headSha : JsString} {e : Thrown} {n : ℤ}
    (hn : safeInteger data.number = some n) (hpos : 0 < n)
    (herror : createdPull g data headSha = .error e) :
    ∃ message, e = .createdPullRequestMismatch message n (pullRequestUrl g n) := by
  have hpositive : ¬ n ≤ 0 := not_le.mpr hpos
  simp only [createdPull, createdPullRequestEvidence, hn, orThrow, ok_bind, bind_eq_error,
    reject_eq_error, reject_eq_ok, pure_eq_ok, pure_eq_error, bind_eq_ok, hpositive, false_and,
    false_or, or_false, not_false_eq_true, true_and, and_false, exists_const] at herror
  rcases herror with hparse | ⟨created, ⟨parsed, -, -, rfl⟩, -, rfl⟩
  · rcases hparse with hparse | ⟨parsed, -, -, rfl⟩
    · cases hurl : g.parseUrl data.htmlUrl with
      | none =>
        rw [hurl] at hparse
        exact ⟨_, (Except.error.inj hparse).symm⟩
      | some url =>
        rw [hurl] at hparse
        cases hparse
    · exact ⟨_, rfl⟩
  · exact ⟨_, rfl⟩

theorem ensures_reconcilePrWithAudit {token title body : JsString}
    {current : Option OpenPullRequestIdentity} (audit : PublicationAttemptAudit)
    (hhead : isGitSha audit.headSha = true) (h : History) :
    (reconcilePrWithAudit g token title body current audit).Ensures Answered (fun result after ↦
      ∃ answer, after = h ++ [⟨pullOp g token title body current, answer⟩] ∧
        PullRecorded g audit ⟨pullOp g token title body current, answer⟩ result) h := by
  have hvalid : reject (isGitSha audit.headSha = false)
      (Thrown.error (js "Invalid expected migration commit id")) = .ok () :=
    reject_eq_ok.mpr (Bool.not_eq_false _ ▸ hhead)
  have hbase : reject (isGitSha g.baseSha = false)
      (Thrown.error (js "Invalid expected base commit id")) = .ok () :=
    reject_eq_ok.mpr (Bool.not_eq_false _ ▸ g.baseSha_valid)
  refine Ensures.recover ?_
  unfold reconcilePr
  rw [hvalid, hbase]
  cases current with
  | some pull =>
    refine Ensures.recover (Ensures.bind ?_)
    intro answer after hafter
    rw [Answered] at hafter
    subst hafter
    cases answer with
    | error e =>
      obtain ⟨number, url, hfailed⟩ := failed_eq audit
        (reconciliationFailure token (.failure e.error))
      exact ⟨_, rfl, _, number, url, congrArg _ hfailed, fun n hn ↦ nomatch hn⟩
    | ok data =>
      change caught (caught _ _) _ (updatedPull g data audit.headSha) _
      cases hupdated : updatedPull g data audit.headSha with
      | ok url => exact ⟨_, rfl, ⟨data, rfl, updatedPull_eq_ok hupdated⟩, fun n hn ↦ nomatch hn⟩
      | error e =>
        obtain ⟨number, url, hfailed⟩ := failed_eq audit (reconciliationFailure token e)
        exact ⟨_, rfl, _, number, url, congrArg _ hfailed, fun n hn ↦ nomatch hn⟩
  | none =>
    refine Ensures.recover (Ensures.bind ?_)
    intro answer after hafter
    rw [Answered] at hafter
    subst hafter
    cases answer with
    | error e =>
      obtain ⟨number, url, hfailed⟩ := failed_eq audit
        (reconciliationFailure token (.failure e.error))
      exact ⟨_, rfl, _, number, url, congrArg _ hfailed, fun n hn ↦ nomatch hn⟩
    | ok data =>
      change caught (caught _ _) _ (createdPull g data audit.headSha) _
      cases hcreated : createdPull g data audit.headSha with
      | ok url =>
        obtain ⟨hmatches, n, hn, rfl⟩ := createdPull_eq_ok hcreated
        refine ⟨_, rfl, ⟨data, rfl, hmatches⟩, fun m hm ↦ ?_⟩
        change (safeInteger data.number).filter _ = some m at hm
        rw [hn, Option.filter_eq_some_iff] at hm
        rw [Option.some.inj hm.1]
      | error e =>
        obtain ⟨number, url, hfailed⟩ := failed_eq audit (reconciliationFailure token e)
        refine ⟨_, rfl, _, number, url, congrArg _ hfailed, fun n hn ↦ ?_⟩
        change (safeInteger data.number).filter _ = some n at hn
        rw [Option.filter_eq_some_iff, decide_eq_true_eq] at hn
        obtain ⟨message, rfl⟩ := createdPull_eq_error hn.1 hn.2 hcreated
        exact ⟨(congrArg PublicationAttemptAudit.pullRequestNumber hfailed).symm,
          (congrArg PublicationAttemptAudit.prUrl hfailed).symm⟩

/-! ### How a publication ends -/

/-- The push, where the branch was absent. -/
def pushOp (g : Candidate) : Op := .git (publicationPushArgs g)

/-- What has been pushed when the pull request is turned to. -/
def Pushed (g : Candidate) (remote : RemotePublicationState) (pushed : History) : Prop :=
  (remote.pushRequired = false ∧ pushed = []) ∨
    remote.pushRequired = true ∧ ∃ text, pushed = [⟨pushOp g, .ok text⟩]

/-- The body of the pull request. -/
def pullBody (g : Candidate) (write : AuthorizedWriteAuth) (headSha : JsString) : JsString :=
  g.markdown ++ publicationAuditFooter g write.githubApp headSha

/-- The call about the pull request that a publication makes. -/
def publicationPullOp (g : Candidate) (write : AuthorizedWriteAuth)
    (remote : RemotePublicationState) (headSha : JsString) : Op :=
  pullOp g write.token (prTitle g) (pullBody g write headSha) remote.pullRequest

/-- The outcome for an opened pull request. -/
def PublicationAttemptAudit.opened (audit : PublicationAttemptAudit) (url : JsString) : Published :=
  ⟨.prOpened, some url, some audit.headSha, some audit.ownerAuthorizationReceipt⟩

/-- The outcome of a publication that has made its call about the pull request. -/
def Recorded (g : Candidate) (audit : PublicationAttemptAudit) (event : Event Op Answer)
    (result : Except Thrown Published) : Prop :=
  (∃ url, result = .ok (audit.opened url) ∧ PullRecorded g audit event (.ok url)) ∨
    ∃ e, result = .error e ∧ PullRecorded g audit event (.error e)

/-- How the writing ends that starts from a history. -/
inductive Delivered (g : Candidate) (write : AuthorizedWriteAuth)
    (remote : RemotePublicationState) (headSha : JsString) (start : History) :
    Except Thrown Published → History → Prop
  | pushFailed {failure : Failure} {e : CallFailure} (hpush : remote.pushRequired = true) :
      Delivered g write remote headSha start (.error (.failure failure))
        (start ++ [⟨pushOp g, .error e⟩])
  | reconciled {pushed : History} {result : Except Thrown Published}
      {answer : Answer (publicationPullOp g write remote headSha)}
      (hpushed : Pushed g remote pushed)
      (hrecorded : Recorded g (attemptAudit g write headSha) ⟨_, answer⟩ result) :
      Delivered g write remote headSha start result (start ++ pushed ++ [⟨_, answer⟩])

theorem PullRecorded.relabel {audit : PublicationAttemptAudit} {event : Event Op Answer}
    {e : Thrown} (hrecorded : PullRecorded g audit event (.error e)) (tokens : List JsString) :
    PullRecorded g audit event (.error (publicationFailure tokens e)) := by
  obtain ⟨message, number, url, rfl, hcreated⟩ := hrecorded
  exact ⟨_, number, url, rfl, hcreated⟩

theorem Delivered.relabel {write : AuthorizedWriteAuth} {remote : RemotePublicationState}
    {headSha : JsString} {start : History} {e : Thrown} {after : History}
    (hdelivered : Delivered g write remote headSha start (.error e) after)
    (tokens : List JsString) :
    Delivered g write remote headSha start (.error (publicationFailure tokens e)) after := by
  cases hdelivered with
  | pushFailed hpush => exact .pushFailed hpush
  | reconciled hpushed hrecorded =>
    refine .reconciled hpushed (.inr ?_)
    rcases hrecorded with ⟨url, heq, -⟩ | ⟨e', heq, hrecorded⟩
    · cases heq
    · cases heq
      exact ⟨_, rfl, hrecorded.relabel tokens⟩

/-- The call about the pull request, after what has been pushed. -/
theorem ensures_openPull (write : AuthorizedWriteAuth) {remote : RemotePublicationState}
    {headSha : JsString} (start : History) {pushed : History} (hhead : isGitSha headSha = true)
    (hpushed : Pushed g remote pushed) :
    (reconcilePrWithAudit g write.token (prTitle g) (pullBody g write headSha) remote.pullRequest
      (attemptAudit g write headSha) >>= fun prUrl ↦
        (pure ⟨.prOpened, some prUrl, some headSha, some write.ownerAuthorizationReceipt⟩ :
          Publishing Published)).Ensures Answered
      (Delivered g write remote headSha start) (start ++ pushed) := by
  refine Ensures.bind (Ensures.mono (fun result after hresult ↦ ?_)
    (ensures_reconcilePrWithAudit (attemptAudit g write headSha) hhead (start ++ pushed)))
  obtain ⟨answer, rfl, hrecorded⟩ := hresult
  cases result with
  | ok url => exact .reconciled hpushed (.inl ⟨url, rfl, hrecorded⟩)
  | error e => exact .reconciled hpushed (.inr ⟨e, rfl, hrecorded⟩)

theorem ensures_deliver (write : AuthorizedWriteAuth) (remote : RemotePublicationState)
    {headSha : JsString} (hhead : isGitSha headSha = true) (start : History) :
    (deliver g write remote headSha).Ensures Answered
      (Delivered g write remote headSha start) start := by
  unfold deliver
  cases hpush : remote.pushRequired with
  | true =>
    rw [if_pos rfl]
    refine Ensures.bind (Ensures.recover ?_)
    intro answer after hafter
    rw [Answered] at hafter
    subst hafter
    cases answer with
    | error e => exact .pushFailed hpush
    | ok text => exact ensures_openPull write start hhead (.inr ⟨hpush, text, rfl⟩)
  | false =>
    rw [if_neg Bool.false_ne_true]
    have hunpushed : Pushed g remote [] := .inl ⟨hpush, rfl⟩
    have hopen := ensures_openPull write start hhead hunpushed
    rw [List.append_nil] at hopen
    exact hopen

/-- How a publication ends, and what its history is then. -/
inductive Ended (g : Candidate) : Except Thrown Published → History → Prop
  | blocked : Ended g (.ok ⟨.blocked, none, none, none⟩) []
  | stopped {failure : Failure} {h : History} (hquiet : Quiet h) :
      Ended g (.error (.failure failure)) h
  | delivered {reviewed : Reviewed} {write : AuthorizedWriteAuth}
      {remote : RemotePublicationState} {headSha : JsString} {start h : History}
      {result : Except Thrown Published}
      (hcleared : Cleared g reviewed write remote headSha start)
      (hdelivered : Delivered g write remote headSha start result h) : Ended g result h

/-- The head that is expected is a commit id. -/
theorem Cleared.head_valid {reviewed : Reviewed} {write : AuthorizedWriteAuth}
    {remote : RemotePublicationState} {headSha : JsString}
    (hc : Cleared g reviewed write remote headSha h) : isGitSha headSha = true := by
  have hhead := hc.head
  rcases hc.again.branch with ⟨rfl, -⟩ | ⟨sha, pulls, rfl, hsha, -⟩
  · rw [RemotePublicationState.absent, if_pos rfl] at hhead
    rw [← Option.some.inj hhead]
    exact hc.committed.valid
  · rw [RemotePublicationState.present, if_neg Bool.false_ne_true] at hhead
    rw [← Option.some.inj hhead]
    exact hsha

theorem assertPublicationAllowed_eq_ok {u : Unit} (hok : assertPublicationAllowed g = .ok u) :
    g.requestedPreflightId = g.preflightId ∧ g.blockers = [] := by
  simpa only [assertPublicationAllowed, bind_eq_ok, reject_eq_ok, exists_unit, ne_eq, not_not]
    using hok

theorem reading_authorize (hh : Quiet h) :
    Publishing.Reading (catching [g.readToken] (do
      .lift (assertPublicationAllowed g)
      review g)) h fun result after ↦ (g.requestedPreflightId = g.preflightId ∧ g.blockers = []) ∧
        Authorized g result.1 result.2 after := by
  refine Publishing.Reading.catching ((reading_lift (fun e he ↦ ?_) hh).bind
    fun _ h₁ hquiet₁ _ hallowed ↦ ?_)
  · simp only [assertPublicationAllowed, bind_eq_error, reject_eq_error] at he
    rcases he with ⟨-, rfl⟩ | ⟨_, -, -, rfl⟩
    · exact ⟨_, rfl⟩
    · exact ⟨_, rfl⟩
  · exact (reading_review hquiet₁).mono
      fun _ _ ha ↦ ⟨assertPublicationAllowed_eq_ok hallowed, ha⟩

theorem ensures_publish : (publish g).Ensures Answered (Ended g) [] := by
  unfold publish
  split
  · exact .blocked
  refine Ensures.bind_of (reading_authorize quiet_nil) (fun e after he ↦ ?_)
    fun result h₁ hresult ↦ ?_
  · obtain ⟨⟨failure, rfl⟩, hquiet⟩ := he
    exact .stopped hquiet
  obtain ⟨reviewed, write⟩ := result
  obtain ⟨hquiet₁, -, ⟨hpreflight, hblockers⟩, hauthorized⟩ := hresult
  refine Ensures.recover (Ensures.bind_of (reading_reinspect reviewed write hquiet₁)
    (fun e after he ↦ ?_) fun result h₂ hresult ↦ ?_)
  · obtain ⟨⟨failure, rfl⟩, hquiet⟩ := he
    exact .stopped hquiet
  obtain ⟨remote, headSha⟩ := result
  obtain ⟨hquiet₂, hsub₂, hagain, hunchanged, hhead⟩ := hresult
  have hcleared : Cleared g reviewed write remote headSha h₂ :=
    { hauthorized.mono hsub₂ with
      quiet := hquiet₂
      preflight := hpreflight
      blockers := hblockers
      again := hagain
      unchanged := hunchanged
      head := hhead }
  refine Ensures.mono (fun result after hdelivered ↦ ?_)
    (ensures_deliver write remote hcleared.head_valid h₂)
  cases result with
  | ok published => exact .delivered hcleared hdelivered
  | error e => exact .delivered hcleared (hdelivered.relabel [g.readToken, write.token])

/-! ### One publication -/

def sampleSha (c : UInt16) : JsString := List.replicate 40 c

def sampleCandidate : Candidate where
  owner := js "acme"
  repo := js "shop"
  baseBranch := js "main"
  baseSha := sampleSha 0x61
  baseSha_valid := by decide +kernel
  branch := js "codex/api-migrator/stripe"
  candidateTreeSha := sampleSha 0x62
  preflightId := js "pf"
  artifactDigest := js "digest"
  blockers := []
  requestedPreflightId := js "pf"
  approvedBy := js "operator"
  manifestName := js "stripe"
  markdown := js "report"
  readToken := js "read"
  actor := js "migrator"
  githubApp := true
  parseUrl _ := some ⟨js "https:", js "github.com", [], [], [], [], [], js "/acme/shop/pull/7"⟩

def sampleReceipt : OwnerAuthorizationReceipt where
  authorizationId := js "authorization"
  envelopeId := js "envelope"
  envelopeDigest := js "digest"
  nonceDigest := js "digest"
  signerId := js "signer"
  keyId := js "key"
  repositorySlug := js "acme/shop"
  repositoryId := 1
  baseSha := sampleSha 0x61
  preflightId := js "pf"
  artifactDigest := js "digest"
  manifestDigest := js "digest"
  candidateBranch := js "codex/api-migrator/stripe"
  candidateTreeSha := sampleSha 0x62
  expiresAt := 2
  consumedAt := 1

/-- What the clone answers. -/
def sampleGit (args : List JsString) : JsString :=
  if args = [js "remote", js "get-url", js "origin"] then js "https://github.com/acme/shop.git\n"
  else if args = [js "rev-parse", js "HEAD"] then sampleSha 0x63
  else if args = [js "rev-parse", js "HEAD^\x7btree\x7d"] then sampleSha 0x62
  else if args = [js "write-tree"] then sampleSha 0x62
  else []

def sampleFailure : CallFailure := ⟨Failure.ofMessage (js "Not Found"), some 404⟩

/-- The pull request, at a head. -/
def samplePull (headSha : Option JsString) : PullRequestAnswer where
  number := .int 7
  htmlUrl := js "https://github.com/acme/shop/pull/7"
  headSha := headSha
  baseRef := some (js "main")
  baseSha := some (sampleSha 0x61)

/-- A repository without the migration branch. -/
def sampleAnswer : (op : Op) → Answer op
  | .git args => .ok (sampleGit args)
  | .getRef _ branch => if branch = js "main" then .ok (sampleSha 0x61) else .error sampleFailure
  | .getCommit _ _ => .error sampleFailure
  | .listPulls _ _ => .ok []
  | .ownerGrant _ => .ok ()
  | .writeAuth => .ok ⟨js "write", true, sampleReceipt⟩
  | .updatePull _ _ _ _ _ => .error sampleFailure
  | .createPull _ _ _ _ _ => .ok (samplePull (some (sampleSha 0x63)))

/-- The publication of the sample, with its history. -/
def sampleRun : Except Thrown Published × History :=
  (publish sampleCandidate).run (fun h op ↦ (sampleAnswer op, h ++ [⟨op, sampleAnswer op⟩])) []

/-- The writes of a publication, in order. -/
theorem Ended.written {result : Except Thrown Published} (hended : Ended g result h)
    {event : Event Op Answer} (hmem : event ∈ h) (hwrites : event.1.writes = true) :
    ∃ reviewed write remote headSha start, Cleared g reviewed write remote headSha start ∧
      Delivered g write remote headSha start result h := by
  cases hended with
  | blocked => cases hmem
  | stopped hquiet =>
    rw [hquiet event hmem] at hwrites
    cases hwrites
  | delivered hcleared hdelivered => exact ⟨_, _, _, _, _, hcleared, hdelivered⟩

/-- The outcome says that something was written. -/
def Announced : Except Thrown Published → Prop
  | .ok published => published.status = .prOpened
  | .error (.publicationAttempt _ _) => True
  | .error _ => False

instance : DecidablePred Announced
  | .ok published => inferInstanceAs (Decidable (published.status = .prOpened))
  | .error (.publicationAttempt _ _) => inferInstanceAs (Decidable True)
  | .error (.failure _) => inferInstanceAs (Decidable False)
  | .error (.createdPullRequestMismatch _ _ _) => inferInstanceAs (Decidable False)

theorem Ended.accounts {result : Except Thrown Published} (hended : Ended g result h)
    (hwrote : Announced result ∨ ∃ event ∈ h, event.1.writes = true ∧
      ∀ e, event ≠ ⟨pushOp g, .error e⟩) :
    ∃ reviewed write remote headSha start pushed answer,
      Cleared g reviewed write remote headSha start ∧ Pushed g remote pushed ∧
        h = start ++ pushed ++ [⟨publicationPullOp g write remote headSha, answer⟩] ∧
        Recorded g (attemptAudit g write headSha)
          ⟨publicationPullOp g write remote headSha, answer⟩ result := by
  cases hended with
  | blocked =>
    rcases hwrote with hannounced | ⟨event, hmem, -⟩
    · cases hannounced
    · cases hmem
  | stopped hquiet =>
    rcases hwrote with hannounced | ⟨event, hmem, hwrites, -⟩
    · cases hannounced
    · rw [hquiet event hmem] at hwrites
      cases hwrites
  | delivered hcleared hdelivered =>
    cases hdelivered with
    | @pushFailed failure e hpush =>
      rcases hwrote with hannounced | ⟨event, hmem, hwrites, hfailed⟩
      · cases hannounced
      · rcases List.mem_append.mp hmem with hmem | hmem
        · rw [hcleared.quiet event hmem] at hwrites
          cases hwrites
        · exact absurd (List.mem_singleton.mp hmem) (hfailed e)
    | reconciled hpushed hrecorded =>
      exact ⟨_, _, _, _, _, _, _, hcleared, hpushed, rfl, hrecorded⟩

end Publication

end ApiMigrator.App.GitHubPublication
