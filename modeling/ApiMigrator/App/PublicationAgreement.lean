import ApiMigrator.App.PublicationSafety

/-!
Publications that run at the same time, in any interleaving, against the same repositories. Others
may change everything but an existing migration branch and the branch of an existing pull request.
A publication that has opened a pull request has its head on the branch, with the approved tree, and
two publications of one branch have the same head.
-/

set_option autoImplicit false
set_option relaxedAutoImplicit false

namespace ApiMigrator.App.GitHubPublication

open Foundation.Text Foundation.Number Foundation.Pattern
open Foundation.Interaction

/-! ### The repositories -/

/-- The heads of the branches, by owner, repository and name, and the head branches of the pull
requests, by owner, repository and number. -/
structure Repositories where
  heads : JsString × JsString × JsString → Option JsString
  pulls : JsString × JsString × JsNumber → Option JsString

def Candidate.ref (g : Candidate) : JsString × JsString × JsString := (g.owner, g.repo, g.branch)

variable {ι : Type}

/-- What any step leaves alone: a migration branch that exists, and the head branch of a pull
request. -/
structure Moves (cand : ι → Candidate) (s s' : Repositories) : Prop where
  heads : ∀ i sha, s.heads (cand i).ref = some sha → s'.heads (cand i).ref = some sha
  pulls : ∀ key branch, s.pulls key = some branch → s'.pulls key = some branch

theorem Moves.refl (cand : ι → Candidate) (s : Repositories) : Moves cand s s :=
  ⟨fun _ _ h ↦ h, fun _ _ h ↦ h⟩

theorem Moves.trans {cand : ι → Candidate} {s s' s'' : Repositories} (h : Moves cand s s')
    (h' : Moves cand s' s'') : Moves cand s s'' :=
  ⟨fun i sha hs ↦ h'.heads i sha (h.heads i sha hs),
    fun key branch hs ↦ h'.pulls key branch (h.pulls key branch hs)⟩

/-- The push with an empty lease: it makes the branch, or it fails. -/
def Creates (g : Candidate) (s s' : Repositories) : Prop :=
  s.heads g.ref = none ∧ ∃ sha, s' = { s with heads := Function.update s.heads g.ref (some sha) }

/-- How git and GitHub perform an operation of a publication. A push that fails may have been made
all the same. -/
def Performs (g : Candidate) (s : Repositories) :
    (op : Op) → Answer op → Repositories → Prop
  | .git args, .ok _, s' => if args = publicationPushArgs g then Creates g s s' else s' = s
  | .git args, .error _, s' => s' = s ∨ args = publicationPushArgs g ∧ Creates g s s'
  | .getRef _ branch, .ok sha, s' => s' = s ∧ s.heads (g.owner, g.repo, branch) = some sha
  | .listPulls _ branch, .ok pulls, s' =>
    s' = s ∧ ∀ pull ∈ pulls, s.pulls (g.owner, g.repo, pull.number) = some branch
  | .updatePull _ number _ _ _, .ok data, s' => s' = s ∧
    ∃ branch, s.pulls (g.owner, g.repo, number) = some branch ∧
      ∀ sha, data.headSha = some sha → s.heads (g.owner, g.repo, branch) = some sha
  | .createPull _ head _ _ _, .ok data, s' =>
    (∀ sha, data.headSha = some sha → s.heads (g.owner, g.repo, head) = some sha) ∧
      s.pulls (g.owner, g.repo, data.number) = none ∧
      s' = { s with pulls := Function.update s.pulls (g.owner, g.repo, data.number) (some head) }
  | .createPull _ head _ _ _, .error _, s' => s' = s ∨ ∃ number,
    s.pulls (g.owner, g.repo, number) = none ∧
      s' = { s with pulls := Function.update s.pulls (g.owner, g.repo, number) (some head) }
  | _, _, s' => s' = s

/-- One operation of a publication, after whatever others have done. -/
def RemoteStep (cand : ι → Candidate) (s : Repositories) (i : ι) (op : Op) (answer : Answer op)
    (s' : Repositories) : Prop :=
  ∃ now, Moves cand s now ∧ Performs (cand i) now op answer s'

def remoteDiscipline (cand : ι → Candidate) : Discipline Repositories where
  inv _ := True
  rel := Moves cand
  rel_refl := Moves.refl cand
  rel_trans h h' := h.trans h'

section Steps

variable {cand : ι → Candidate} {i : ι} {s s' : Repositories}

theorem Creates.moves {g : Candidate} (h : Creates g s s') : Moves cand s s' := by
  obtain ⟨hnone, sha, rfl⟩ := h
  refine ⟨fun j sha' hj ↦ ?_, fun _ _ hkey ↦ hkey⟩
  have hne : (cand j).ref ≠ g.ref := fun hsame ↦ by
    rw [hsame, hnone] at hj
    cases hj
  exact (Function.update_of_ne hne _ _).trans hj

theorem moves_addPull {key : JsString × JsString × JsNumber} {head : JsString}
    (hnone : s.pulls key = none) :
    Moves cand s { s with pulls := Function.update s.pulls key (some head) } := by
  refine ⟨fun _ _ h ↦ h, fun key' branch hkey ↦ ?_⟩
  have hne : key' ≠ key := fun hsame ↦ by
    rw [hsame, hnone] at hkey
    cases hkey
  exact (Function.update_of_ne hne _ _).trans hkey

/-- What git and GitHub do for a publication leaves existing branches alone. -/
theorem Performs.moves {g : Candidate} {op : Op} {answer : Answer op}
    (h : Performs g s op answer s') : Moves cand s s' := by
  have hsame : s' = s → Moves cand s s' := fun heq ↦ heq ▸ Moves.refl cand s
  cases op with
  | git args =>
    cases answer with
    | ok text =>
      rw [Performs] at h
      split at h
      · exact h.moves
      · exact hsame h
    | error e => exact h.elim hsame fun hcreates ↦ hcreates.2.moves
  | getRef token branch => cases answer with
    | ok sha => exact hsame h.1
    | error e => exact hsame h
  | getCommit token sha => cases answer with
    | ok commit => exact hsame h
    | error e => exact hsame h
  | listPulls token branch => cases answer with
    | ok pulls => exact hsame h.1
    | error e => exact hsame h
  | ownerGrant reviewed => cases answer with
    | ok u => exact hsame h
    | error e => exact hsame h
  | writeAuth => cases answer with
    | ok write => exact hsame h
    | error e => exact hsame h
  | updatePull token number title body base => cases answer with
    | ok data => exact hsame h.1
    | error e => exact hsame h
  | createPull token head base title body => cases answer with
    | ok data =>
      obtain ⟨-, hnone, rfl⟩ := h
      exact moves_addPull hnone
    | error e =>
      rcases h with heq | ⟨number, hnone, rfl⟩
      · exact hsame heq
      · exact moves_addPull hnone

theorem RemoteStep.moves {op : Op} {answer : Answer op} (h : RemoteStep cand s i op answer s') :
    Moves cand s s' := by
  obtain ⟨now, hothers, hperforms⟩ := h
  exact hothers.trans hperforms.moves

/-- What holds of a program however it is answered holds of it among others. -/
theorem meets_of_answered {α : Type} {p : Publishing α}
    {post : Except Thrown α → History → Prop} {h : History}
    (hp : p.Ensures Answered post h) (s : Repositories) :
    Meets (RemoteStep cand) (remoteDiscipline cand) i (fun after result _ ↦ post result after)
      p h s := by
  induction p generalizing h s with
  | done result => exact hp
  | call op next ih =>
    intro now _ _ answer after hstep
    exact ⟨trivial, hstep.moves, ih answer (hp answer _ rfl) after⟩

/-! ### What the answers say of the repositories -/

/-- The answers a publication has had about pull requests still stand. -/
structure Standing (g : Candidate) (h : History) (s : Repositories) : Prop where
  listed : ∀ token pulls, ⟨.listPulls token g.branch, .ok pulls⟩ ∈ h → ∀ pull ∈ pulls,
    s.pulls (g.owner, g.repo, pull.number) = some g.branch
  updated : ∀ token number title body base data,
    ⟨.updatePull token number title body base, .ok data⟩ ∈ h →
      ∃ branch, s.pulls (g.owner, g.repo, number) = some branch ∧
        (branch = g.branch → ∀ sha, data.headSha = some sha → s.heads g.ref = some sha)
  created : ∀ token base title body data,
    ⟨.createPull token g.branch base title body, .ok data⟩ ∈ h →
      ∀ sha, data.headSha = some sha → s.heads g.ref = some sha

theorem standing_nil (g : Candidate) (s : Repositories) : Standing g [] s :=
  ⟨fun _ _ hmem ↦ absurd hmem List.not_mem_nil,
    fun _ _ _ _ _ _ hmem ↦ absurd hmem List.not_mem_nil,
    fun _ _ _ _ _ hmem ↦ absurd hmem List.not_mem_nil⟩

theorem Standing.moves {h : History} (hs : Standing (cand i) h s) (hmoves : Moves cand s s') :
    Standing (cand i) h s' := by
  refine ⟨fun token pulls hmem pull hpull ↦
      hmoves.pulls _ _ (hs.listed token pulls hmem pull hpull),
    fun token number title body base data hmem ↦ ?_,
    fun token base title body data hmem sha hsha ↦
      hmoves.heads i sha (hs.created token base title body data hmem sha hsha)⟩
  obtain ⟨branch, hbranch, hhead⟩ := hs.updated token number title body base data hmem
  exact ⟨branch, hmoves.pulls _ _ hbranch,
    fun hsame sha hsha ↦ hmoves.heads i sha (hhead hsame sha hsha)⟩

/-- An operation keeps what its publication has learnt, and adds what it has just been told. -/
theorem Standing.step {h : History} {op : Op} {answer : Answer op} (hs : Standing (cand i) h s)
    (hstep : RemoteStep cand s i op answer s') :
    Standing (cand i) (h ++ [⟨op, answer⟩]) s' := by
  have hbefore := hs.moves hstep.moves
  obtain ⟨now, -, hperforms⟩ := hstep
  refine ⟨fun token pulls hmem ↦ ?_, fun token number title body base data hmem ↦ ?_,
    fun token base title body data hmem ↦ ?_⟩
  · rcases List.mem_append.mp hmem with hmem | hmem
    · exact hbefore.listed token pulls hmem
    · cases List.mem_singleton.mp hmem
      obtain ⟨rfl, hpulls⟩ := hperforms
      exact hpulls
  · rcases List.mem_append.mp hmem with hmem | hmem
    · exact hbefore.updated token number title body base data hmem
    · cases List.mem_singleton.mp hmem
      obtain ⟨rfl, branch, hbranch, hhead⟩ := hperforms
      refine ⟨branch, hbranch, fun hsame sha hsha ↦ ?_⟩
      subst hsame
      exact hhead sha hsha
  · rcases List.mem_append.mp hmem with hmem | hmem
    · exact hbefore.created token base title body data hmem
    · cases List.mem_singleton.mp hmem
      obtain ⟨hhead, -, rfl⟩ := hperforms
      exact hhead

/-- A pull request that is as approved has its head on the migration branch. -/
theorem Standing.head {g : Candidate} {write : AuthorizedWriteAuth} {reviewed : Reviewed}
    {remote : RemotePublicationState} {headSha : JsString} {start h : History}
    {event : Event Op Answer} (hs : Standing g h s)
    (hcleared : Cleared g reviewed write remote headSha start) (hsub : start ⊆ h)
    (hmem : event ∈ h) (hop : event.1 = publicationPullOp g write remote headSha)
    {data : PullRequestAnswer} (hdata : answeredPull event = some data)
    (hmatches : data.matches g headSha = true) : s.heads g.ref = some headSha := by
  rw [PullRequestAnswer.matches, decide_eq_true_eq] at hmatches
  obtain ⟨op, answer⟩ := event
  rw [publicationPullOp] at hop
  cases hcurrent : remote.pullRequest with
  | none =>
    rw [hcurrent] at hop
    subst hop
    cases answer with
    | error e => cases hdata
    | ok created =>
      cases hdata
      exact hs.created _ _ _ _ _ hmem headSha hmatches.1
  | some pull =>
    rw [hcurrent] at hop
    subst hop
    cases answer with
    | error e => cases hdata
    | ok updated =>
      cases hdata
      obtain ⟨branch, hbranch, hhead⟩ := hs.updated _ _ _ _ _ _ hmem
      rcases hcleared.again.branch with ⟨rfl, -⟩ | ⟨sha, pulls, rfl, -, -, -, hpulls⟩
      · cases hcurrent
      · -- the pull request was listed for the branch
        have hlisted := hs.listed _ pulls (hsub hpulls) pull (List.mem_of_find?_eq_some hcurrent)
        rw [hlisted] at hbranch
        exact hhead (Option.some.inj hbranch).symm headSha hmatches.1

/-- A publication among others ends as one alone, with its answers still standing. -/
theorem meets_publish (s : Repositories) :
    Meets (RemoteStep cand) (remoteDiscipline cand) i
      (fun h result s ↦ Ended (cand i) result h ∧ Standing (cand i) h s)
      (publish (cand i)) [] s :=
  Meets.keeping (fun _ _ _ hmoves hs ↦ hs.moves hmoves)
    (fun _ _ _ _ _ _ hstep hs ↦ hs.step hstep) (standing_nil _ s)
    (meets_of_answered ensures_publish s)

/-- The answers that show a commit with the approved tree: git made it here, or GitHub has it on the
approved base. -/
def Approved (g : Candidate) (headSha : JsString) (h : History) : Prop :=
  Committed g headSha h ∨
    ∃ token, ⟨.getCommit token headSha, .ok ⟨headSha, [g.baseSha], g.candidateTreeSha⟩⟩ ∈ h

theorem Cleared.approved {g : Candidate} {reviewed : Reviewed} {write : AuthorizedWriteAuth}
    {remote : RemotePublicationState} {headSha : JsString} {h : History}
    (hc : Cleared g reviewed write remote headSha h) : Approved g headSha h := by
  have hhead := hc.head
  rcases hc.again.branch with ⟨rfl, -⟩ | ⟨sha, pulls, rfl, -, -, hcommit, -⟩
  · rw [RemotePublicationState.absent, if_pos rfl] at hhead
    exact .inl (Option.some.inj hhead ▸ hc.committed)
  · rw [RemotePublicationState.present, if_neg Bool.false_ne_true] at hhead
    cases hhead
    exact .inr ⟨write.token, hcommit⟩

theorem Approved.mono {g : Candidate} {headSha : JsString} {h h' : History}
    (ha : Approved g headSha h) (hsub : h ⊆ h') : Approved g headSha h' :=
  ha.imp (fun hc ↦ hc.mono hsub) fun hcommit ↦ hcommit.imp fun _ hmem ↦ hsub hmem

/-- An opened pull request has its head on the branch. -/
theorem Ended.head {published : Published} {h : History}
    (hended : Ended (cand i) (.ok published) h) (hopened : published.status = .prOpened)
    (hs : Standing (cand i) h s) :
    ∃ headSha, published.headSha = some headSha ∧ s.heads (cand i).ref = some headSha ∧
      Approved (cand i) headSha h := by
  obtain ⟨reviewed, write, remote, headSha, start, pushed, answer, hcleared, -, rfl, hrecorded⟩ :=
    hended.accounts (.inl hopened)
  rcases hrecorded with ⟨url, heq, ⟨data, hdata, hmatches⟩, -⟩ | ⟨e, heq, -⟩
  · cases heq
    have hsub : start ⊆ start ++ pushed ++ [⟨publicationPullOp (cand i) write remote headSha,
        answer⟩] := fun _ hmem ↦ List.mem_append_left _ (List.mem_append_left _ hmem)
    exact ⟨headSha, rfl, hs.head hcleared hsub (List.mem_append_right _ List.mem_cons_self) rfl
      hdata hmatches, hcleared.approved.mono hsub⟩
  · cases heq

end Steps

variable [DecidableEq ι]

theorem head_of_run {cand : ι → Candidate} {s : Repositories}
    {c : Config Op Answer Thrown Published Repositories ι}
    (hrun : Config.Run (RemoteStep cand) (Config.start s fun i ↦ publish (cand i)) c) {i : ι}
    {published : Published} (hdone : (c.thread i).rest = .done (.ok published))
    (hopened : published.status = .prOpened) :
    ∃ headSha, published.headSha = some headSha ∧ c.state.heads (cand i).ref = some headSha ∧
      Approved (cand i) headSha (c.thread i).history := by
  have hstart : Config.Orderly (RemoteStep cand) (remoteDiscipline cand)
      (fun i h result s ↦ Ended (cand i) result h ∧ Standing (cand i) h s)
      (Config.start s fun i ↦ publish (cand i)) :=
    Config.orderly_start trivial fun i ↦ meets_publish s
  obtain ⟨seen, hmoves, hended, hstanding⟩ := (hrun.orderly hstart).1.ended hdone
  exact hended.head hopened (hstanding.moves hmoves)

/-- Publications that run at the same time: the head of each one that has opened a pull request is
on its branch, with the approved tree, and those of one branch have one head. -/
theorem published_heads_agree {cand : ι → Candidate} {s : Repositories}
    {c : Config Op Answer Thrown Published Repositories ι}
    (hrun : Config.Run (RemoteStep cand) (Config.start s fun i ↦ publish (cand i)) c) {i : ι}
    {published : Published} (hdone : (c.thread i).rest = .done (.ok published))
    (hopened : published.status = .prOpened) :
    (∃ headSha, published.headSha = some headSha ∧ c.state.heads (cand i).ref = some headSha ∧
      Approved (cand i) headSha (c.thread i).history) ∧
    ∀ j published', (c.thread j).rest = .done (.ok published') → published'.status = .prOpened →
      (cand j).ref = (cand i).ref → published'.headSha = published.headSha := by
  have hhead := head_of_run hrun hdone hopened
  refine ⟨hhead, fun j published' hdone' hopened' hsame ↦ ?_⟩
  obtain ⟨headSha, hpublished, hbranch, -⟩ := hhead
  obtain ⟨headSha', hpublished', hbranch', -⟩ := head_of_run hrun hdone' hopened'
  rw [hsame, hbranch] at hbranch'
  rw [hpublished, hpublished', hbranch']

/-! ### Two publications of one branch -/

def sampleRepositories : Repositories where
  heads key := if key = (js "acme", js "shop", js "main") then some (sampleSha 0x61) else none
  pulls _ := none

def samplePullKey : JsString × JsString × JsNumber := (js "acme", js "shop", .int 7)

/-- GitHub, with the branches and pull requests it has. -/
def sampleRemote (s : Repositories) : (op : Op) → Answer op × Repositories
  | .git args =>
    if args = publicationPushArgs sampleCandidate then
      if s.heads sampleCandidate.ref = none then
        (.ok [], { s with
          heads := Function.update s.heads sampleCandidate.ref (some (sampleSha 0x63)) })
      else (.error sampleFailure, s)
    else (.ok (sampleGit args), s)
  | .getRef _ branch =>
    match s.heads (js "acme", js "shop", branch) with
    | some sha => (.ok sha, s)
    | none => (.error sampleFailure, s)
  | .getCommit _ sha => (.ok ⟨sha, [sampleSha 0x61], sampleSha 0x62⟩, s)
  | .listPulls _ branch =>
    if s.pulls samplePullKey = some branch then (.ok [⟨.int 7, [], js "main"⟩], s) else (.ok [], s)
  | .ownerGrant _ => (.ok (), s)
  | .writeAuth => (.ok ⟨js "write", true, sampleReceipt⟩, s)
  | .updatePull _ number _ _ _ =>
    match s.pulls (js "acme", js "shop", number) with
    | some branch => (.ok (samplePull (s.heads (js "acme", js "shop", branch))), s)
    | none => (.error sampleFailure, s)
  | .createPull _ head _ _ _ =>
    if s.pulls samplePullKey = none then
      (.ok (samplePull (s.heads (js "acme", js "shop", head))), { s with
        pulls := Function.update s.pulls samplePullKey (some head) })
    else (.error sampleFailure, s)

theorem sampleRemote_performs (s : Repositories) (op : Op) :
    Performs sampleCandidate s op (sampleRemote s op).1 (sampleRemote s op).2 := by
  cases op with
  | git args =>
    rw [sampleRemote]
    split_ifs with hargs hnone
    · rw [Performs, if_pos hargs]
      exact ⟨hnone, _, rfl⟩
    · exact .inl rfl
    · rw [Performs, if_neg hargs]
  | getRef token branch =>
    rw [sampleRemote]
    split
    · rename_i sha hsha
      exact ⟨rfl, hsha⟩
    · rfl
  | getCommit token sha => rfl
  | listPulls token branch =>
    rw [sampleRemote]
    split_ifs with hpull
    · refine ⟨rfl, fun pull hmem ↦ ?_⟩
      rw [List.mem_singleton.mp hmem]
      exact hpull
    · exact ⟨rfl, fun pull hmem ↦ absurd hmem List.not_mem_nil⟩
  | ownerGrant reviewed => rfl
  | writeAuth => rfl
  | updatePull token number title body base =>
    rw [sampleRemote]
    split
    · rename_i branch hbranch
      exact ⟨rfl, branch, hbranch, fun sha hsha ↦ hsha⟩
    · rfl
  | createPull token head base title body =>
    rw [sampleRemote]
    split_ifs with hnone
    · exact ⟨fun sha hsha ↦ hsha, hnone, rfl⟩
    · exact .inl rfl

/-- Two publications of the sample, the second after the first. -/
def sampleConfig : Config Op Answer Thrown Published Repositories Bool :=
  Config.play (fun s _ op ↦ sampleRemote s op)
    (List.replicate 20 true ++ List.replicate 20 false)
    (Config.start sampleRepositories fun _ ↦ publish sampleCandidate)

theorem sampleConfig_run : Config.Run (RemoteStep fun _ ↦ sampleCandidate)
    (Config.start sampleRepositories fun _ ↦ publish sampleCandidate) sampleConfig :=
  Config.run_play
    (fun s _ op ↦ ⟨s, Moves.refl _ s, sampleRemote_performs s op⟩) _ _

/-- The outcome of a publication that has opened its pull request. -/
def openedOf : Publishing Published → Option Published
  | .done (.ok published) => if published.status = .prOpened then some published else none
  | _ => none

theorem openedOf_eq_some {p : Publishing Published} {published : Published}
    (h : openedOf p = some published) :
    p = .done (.ok published) ∧ published.status = .prOpened := by
  cases p with
  | call op next => cases h
  | done result =>
    cases result with
    | error e => cases h
    | ok published' =>
      rw [openedOf] at h
      split_ifs at h with hstatus
      cases h
      exact ⟨rfl, hstatus⟩

theorem published_heads_agree_sample : ∃ published published',
    openedOf (sampleConfig.thread true).rest = some published ∧
      openedOf (sampleConfig.thread false).rest = some published' ∧
      published'.headSha = published.headSha := by
  have htrue : (openedOf (sampleConfig.thread true).rest).isSome = true := by decide +kernel
  have hfalse : (openedOf (sampleConfig.thread false).rest).isSome = true := by decide +kernel
  obtain ⟨published, hpublished⟩ := Option.isSome_iff_exists.mp htrue
  obtain ⟨published', hpublished'⟩ := Option.isSome_iff_exists.mp hfalse
  obtain ⟨hdone, hopened⟩ := openedOf_eq_some hpublished
  obtain ⟨hdone', hopened'⟩ := openedOf_eq_some hpublished'
  exact ⟨published, published', hpublished, hpublished',
    (published_heads_agree sampleConfig_run hdone hopened).2 false published' hdone' hopened' rfl⟩

end ApiMigrator.App.GitHubPublication
