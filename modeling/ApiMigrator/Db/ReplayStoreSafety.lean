import ApiMigrator.Db.ReplayStoreCalls

/-!
The replay store cannot be replaced silently. Any number of processes initialize the store and
consume authorizations in any interleaving, and each may stop for good between any two steps. All
of them read the one anchor, so at most one file is ever taken for the store; and an anchor whose
creator stopped before it committed an identity lets nobody through.
-/

set_option autoImplicit false
set_option relaxedAutoImplicit false

namespace ApiMigrator.Db.ReplayStore

open Foundation.Text Foundation.Number Foundation.Json Foundation.Outcome Foundation.Pattern
open Foundation.Binary Foundation.Interaction

/-! ### The anchor document read back -/

/-- An anchor names one file. -/
theorem ReplayAnchorDocument.Names.unique {document : ReplayAnchorDocument} {id id' : FileId}
    (hid : document.Names id) (hid' : document.Names id') : id = id' := by
  obtain ⟨device, inode⟩ := id
  obtain ⟨device', inode'⟩ := id'
  obtain rfl : device = device' := decimalDigits_injective (hid.device.symm.trans hid'.device)
  obtain rfl : inode = inode' := decimalDigits_injective (hid.inode.symm.trans hid'.inode)
  rfl

private theorem toNat_lt_of_isDigit {c : UInt16} (hc : isDigit c = true) : c.toNat < 0x80 :=
  toNat_lt_of_isAlphanumeric (by rw [isAlphanumeric, hc, Bool.or_true])

private theorem isWellFormed_decimalDigits (n : ℕ) : isWellFormed (decimalDigits n) = true :=
  isWellFormed_of_ascii fun _ hc ↦ toNat_lt_of_isDigit (isDigit_of_mem_decimalDigits hc)

private theorem isWellFormed_hexText (bytes : Bytes) : isWellFormed (hexText bytes) = true := by
  have hhex := isHexOfLength_hexText bytes
  simp only [isHexOfLength, Bool.and_eq_true, List.all_eq_true] at hhex
  refine isWellFormed_of_ascii fun c hc ↦ ?_
  have hc := hhex.2 c hc
  simp only [isLowerHex, isDigit, Bool.or_eq_true, decide_eq_true_eq] at hc
  omega

private theorem isWellFormed_of_isReplayStoreId {s : JsString} (hs : isReplayStoreId s = true) :
    isWellFormed s = true := by
  cases s with
  | nil => rfl
  | cons c rest =>
    simp only [isReplayStoreId, Bool.and_eq_true, List.all_eq_true] at hs
    refine isWellFormed_of_ascii fun d hd ↦ ?_
    rcases List.mem_cons.mp hd with rfl | hd
    · exact toNat_lt_of_isAlphanumeric hs.1.1
    · exact toNat_lt_of_isAlphanumericOr (by decide) (hs.2 d hd)

theorem iJson_document {document : ReplayAnchorDocument} {conn : Connection}
    (hdescribes : Describes document conn) (hpath : isWellFormed conn.databasePath = true) :
    IJson document.json := by
  obtain ⟨hnames, hdatabasePath, hstoreId, hsafe, nonce, hnonce⟩ := hdescribes
  refine .obj ?_ (fun m hm ↦ ?_) fun m hm ↦ ?_
  · change (["version", "storeId", "databasePath", "databaseDevice", "databaseInode",
      "initializedAt", "nonce"].map js).Nodup
    decide
  · have hkeys : ∀ key ∈ ["version", "storeId", "databasePath", "databaseDevice", "databaseInode",
        "initializedAt", "nonce"].map js, isWellFormed key = true := by decide
    exact hkeys m.1 (List.mem_map_of_mem (f := Prod.fst) hm)
  · simp only [List.mem_cons, List.not_mem_nil, or_false] at hm
    rcases hm with rfl | rfl | rfl | rfl | rfl | rfl | rfl
    · exact .num (by decide)
    · exact .str (isWellFormed_of_isReplayStoreId hstoreId)
    · exact .str (hdatabasePath ▸ hpath)
    · exact .str (hnames.device ▸ isWellFormed_decimalDigits _)
    · exact .str (hnames.inode ▸ isWellFormed_decimalDigits _)
    · exact .num hsafe
    · exact .str (hnonce ▸ isWellFormed_hexText nonce)

/-- A text that reads as a document is the document's, with or without its line feed. -/
theorem names_of_jsonParse {document read : ReplayAnchorDocument} {bytes : Bytes} {id : FileId}
    (hnames : document.Names id) (hparse : jsonParse (utf8Decode bytes) = some document.json)
    (hread : documentOf bytes = .ok read) : read.Names id := by
  simp only [documentOf, bind_eq_ok, reject_eq_ok, exists_unit, orThrow_eq_ok, hparse,
    Option.some.injEq, exists_eq_left'] at hread
  obtain ⟨-, hread⟩ := hread
  simp only [ReplayAnchorDocument.json, parseReplayAnchorDocument, bind_eq_ok, reject_eq_ok,
    exists_unit, pure_eq_ok] at hread
  obtain ⟨-, _, -, -, _, -, -, _, -, -, device, hdevice, -, inode, hinode, -, _, -, _, -, -, _, -,
    -, rfl⟩ := hread
  have hdevice : document.databaseDevice = device := Except.ok.inj hdevice
  have hinode : document.databaseInode = inode := Except.ok.inj hinode
  exact ⟨hdevice ▸ hnames.device, hinode ▸ hnames.inode⟩

/-- Whatever a call left of its document in the anchor, nobody reads another file's name in it. -/
theorem names_of_torn {document read : ReplayAnchorDocument} {conn : Connection} {bytes : Bytes}
    (hdescribes : Describes document conn) (hpath : isWellFormed conn.databasePath = true)
    (hbytes : Torn document.bytes bytes) (hread : documentOf bytes = .ok read) :
    read.Names conn.handle := by
  have hjson := iJson_document hdescribes hpath
  have hwell : isWellFormed (compactText document.json) = true := isWellFormed_compactText hjson
  have hfeed : isWellFormed (compactText document.json ++ [0x0a]) = true := by
    rw [isWellFormed_append hwell]
    decide
  have hsplit : utf8Encode (compactText document.json ++ [0x0a]) =
      utf8Encode (compactText document.json) ++ [0x0a] := utf8Encode_append hwell _
  rcases hbytes.2 with rfl | hwritten | hnone
  · refine names_of_jsonParse hdescribes.names ?_ hread
    rw [ReplayAnchorDocument.bytes, utf8Decode_utf8Encode _ hfeed]
    exact hjson.plain.jsonParse_append rfl (endsNumber_cons [] (by decide))
  · refine names_of_jsonParse hdescribes.names ?_ hread
    rw [ReplayAnchorDocument.bytes, hsplit] at hwritten
    rw [List.append_cancel_right hwritten, utf8Decode_utf8Encode _ hwell]
    exact jsonParse_compactText hjson
  · simp only [documentOf, bind_eq_ok, reject_eq_ok, orThrow_eq_ok, hnone,
      reduceCtorEq, false_and, exists_false, and_false] at hread

/-! ### The calls together -/

section Runs

variable {ι : Type} [DecidableEq ι]

abbrev Pool (ι : Type) := Config Op (fun op ↦ Except String op.Answer) String Reply (World ι) ι

/-- Any number of calls at their beginning. -/
def begin (env : Environment) (w : World ι) (calls : ι → Call) : Pool ι :=
  .start w fun i ↦ (calls i).program env

abbrev Pool.Run (c c' : Pool ι) : Prop := Config.Run Step c c'

/-- The file holds a store identity. -/
def Identified (w : World ι) (id : FileId) : Prop :=
  ∃ contents, w.files id = some contents ∧ contents.storeIdentity.isSome = true

/-- What a call wrote is all the anchor may hold. -/
structure HoldsAnchorOf (h : Trace) (i : ι) (a : AnchorFile ι) : Prop where
  writer : a.writer = none ∨ a.writer = some i
  bytes : a.bytes = [] ∨ ∃ conn document, Uses h conn ∧ Describes document conn ∧
    Torn document.bytes a.bytes

/-- What the histories of the calls tell of the files. -/
structure Consistent (c : Pool ι) : Prop where
  read : ∀ i, ∀ e ∈ (c.thread i).history, ∀ bytes, StoreEvent.anchorBytes e = some bytes →
    bytes ≠ [] → ∃ a, c.state.anchor = some a ∧ a.bytes = bytes
  created : ∀ i, CreatedAnchor (c.thread i).history →
    ∃ a, c.state.anchor = some a ∧ HoldsAnchorOf (c.thread i).history i a
  creator : ∀ i j, CreatedAnchor (c.thread i).history → CreatedAnchor (c.thread j).history → i = j
  begun : ∀ i, ∀ e ∈ (c.thread i).history, ∀ id contents,
    StoreEvent.begun e = some (id, contents) → contents.storeIdentity.isSome = true →
      Identified c.state id
  committed : ∀ i, ∀ e ∈ (c.thread i).history, ∀ id contents,
    StoreEvent.committed e = some (id, contents) → Identified c.state id
  opened : ∀ i, ∀ e ∈ (c.thread i).history, ∀ conn, StoreEvent.opened e = some conn →
    isWellFormed conn.databasePath = true

section OneStep

variable {w after : World ι} {i : ι} {op : Op} {answer : Except String op.Answer}

theorem Step.read (h : Step w i op answer after) {bytes : Bytes}
    (hread : StoreEvent.anchorBytes ⟨op, answer⟩ = some bytes) :
    ∃ a, after.anchor = some a ∧ a.bytes = bytes := by
  obtain ⟨now, -, hperform⟩ := h
  unfold StoreEvent.anchorBytes at hread
  split at hread
  · rename_i heq
    cases heq
    cases hread
    obtain ⟨a, ha, hbytes⟩ := Queries.ok hperform
    rw [Queries.after_eq hperform]
    exact ⟨a, ha, hbytes.symm⟩
  · cases hread

theorem Step.creates (h : Step w i op answer after)
    (hcreates : StoreEvent.createsAnchor ⟨op, answer⟩ = true) :
    w.anchor = none ∧ ∃ a ∈ after.anchor, a.bytes = [] ∧ a.writer = some i := by
  obtain ⟨now, hnow, hperform⟩ := h
  unfold StoreEvent.createsAnchor at hcreates
  split at hcreates
  · rename_i heq
    cases heq
    obtain ⟨-, e, he⟩ | ⟨hnone, -, -, hcreated⟩ := hperform
    · cases he
    refine ⟨?_, hcreated⟩
    cases hanchor : w.anchor with
    | none => rfl
    | some a =>
      rw [hnow.anchor a hanchor] at hnone
      cases hnone
  · cases hcreates

theorem Step.begins (h : Step w i op answer after) {id : FileId} {contents : Contents}
    (hbegun : StoreEvent.begun ⟨op, answer⟩ = some (id, contents)) :
    after.files id = some contents := by
  obtain ⟨now, -, hperform⟩ := h
  unfold StoreEvent.begun at hbegun
  split at hbegun
  · rename_i heq
    cases heq
    cases hbegun
    rcases hperform with ⟨-, e, he⟩ | ⟨contents', hfile, -, hanswer, hfiles, -⟩
    · cases he
    · cases hanswer
      rw [hfiles, hfile]
  · cases hbegun

theorem Step.commits (h : Step w i op answer after) {id : FileId} {contents : Contents}
    (hcommitted : StoreEvent.committed ⟨op, answer⟩ = some (id, contents)) :
    after.files id = some contents ∧ ∃ conn, op = .commit conn contents ∧ conn.handle = id := by
  obtain ⟨now, -, hperform⟩ := h
  unfold StoreEvent.committed at hcommitted
  split at hcommitted
  · rename_i heq
    cases heq
    cases hcommitted
    obtain ⟨-, e, he⟩ | ⟨⟨-, -, hfiles, -⟩, -⟩ := hperform
    · cases he
    exact ⟨by rw [hfiles, if_pos rfl], _, rfl, rfl⟩
  · cases hcommitted

theorem Step.opens (h : Step w i op answer after) {conn : Connection}
    (hopened : StoreEvent.opened ⟨op, answer⟩ = some conn) :
    isWellFormed conn.databasePath = true := by
  obtain ⟨now, -, hperform⟩ := h
  unfold StoreEvent.opened at hopened
  split at hopened
  · rename_i heq
    cases heq
    cases hopened
    exact (Queries.ok hperform).2
  · cases hopened

/-- A file that holds an identity keeps one: no call commits contents without it. -/
theorem Step.identified {h : Trace} (hstep : Step w i op answer after) (hadmits : Admits h op)
    {id : FileId} (hid : Identified w id) : Identified after id := by
  obtain ⟨contents, hfile, hidentity⟩ := hid
  rcases hstep.files hfile with hsame | ⟨conn, contents', rfl, -, hcommitted⟩
  · exact ⟨contents, hsame, hidentity⟩
  · exact ⟨contents', hcommitted, MayCommit.identified hadmits⟩

/-- What a call created stays its own. -/
theorem Step.holds {h h' : Trace} {j : ι} (hstep : Step w j op answer after)
    {i : ι} {a : AnchorFile ι} (ha : w.anchor = some a) (hholds : HoldsAnchorOf h i a)
    (hstarts : h <+: h') (hadmits : j = i → Admits h' op) :
    ∃ a', after.anchor = some a' ∧ HoldsAnchorOf h' i a' := by
  obtain ⟨now, hnow, hperform⟩ := hstep
  have hanchor := hnow.anchor a ha
  rcases hperform.anchor with hsame | ⟨-, hnone, -⟩ | ⟨bytes, rfl, a₀, ha₀, hwriter, a', ha', -,
    hidle, hbytes⟩
  · refine ⟨a, by rw [hsame, hanchor], hholds.writer, hholds.bytes.imp id ?_⟩
    rintro ⟨conn, document, huses, hdescribes, htorn⟩
    exact ⟨conn, document, huses.mono hstarts, hdescribes, htorn⟩
  · rw [hanchor] at hnone
    cases hnone
  · rw [hanchor, Option.mem_some_iff] at ha₀
    subst ha₀
    have hji : j = i := by
      rcases hholds.writer with hnone | hsome
      · rw [hnone] at hwriter
        cases hwriter
      · rw [hsome] at hwriter
        exact (Option.some.inj hwriter).symm
    obtain ⟨conn, document, huses, hdescribes, hdocument⟩ := hadmits hji
    refine ⟨a', ha', Or.inl hidle, Or.inr ⟨conn, document, huses, hdescribes, ?_⟩⟩
    rw [← hdocument]
    rcases hbytes with hall | htorn
    · exact hall ▸ ⟨List.prefix_refl _, Or.inl rfl⟩
    · exact htorn

end OneStep

/-- Every admitted step keeps the histories consistent with the files. -/
theorem Consistent.step {c : Pool ι} {i : ι} {op : Op} {answer : Except String op.Answer}
    {after : World ι} {rest : Process Reply} (hstep : Step c.state i op answer after)
    (hadmits : Admits (c.thread i).history op) (hc : Consistent c) :
    Consistent (⟨after, Function.update c.thread i
      ⟨(c.thread i).history ++ [⟨op, answer⟩], rest⟩⟩ : Pool ι) := by
  have hcreates : ∀ j, CreatedAnchor (Function.update c.thread i
      ⟨(c.thread i).history ++ [⟨op, answer⟩], rest⟩ j).history →
      CreatedAnchor (c.thread j).history ∨
        j = i ∧ StoreEvent.createsAnchor ⟨op, answer⟩ = true := by
    rintro j ⟨e, he, hcreates⟩
    rcases mem_history_update he with he | ⟨rfl, rfl⟩
    · exact Or.inl ⟨e, he, hcreates⟩
    · exact Or.inr ⟨rfl, hcreates⟩
  constructor
  · intro j e he bytes hread hbytes
    rcases mem_history_update he with he | ⟨rfl, rfl⟩
    · obtain ⟨a, ha, rfl⟩ := hc.read j e he bytes hread hbytes
      exact ⟨a, hstep.anchor_stays ha hbytes, rfl⟩
    · exact hstep.read hread
  · intro j hcreated
    rcases hcreates j hcreated with hbefore | ⟨rfl, hnow⟩
    · obtain ⟨a, ha, hholds⟩ := hc.created j hbefore
      refine hstep.holds ha hholds (prefix_history_update c i j _ rest) ?_
      rintro rfl
      exact hadmits.mono (prefix_history_update c i i _ rest) op
    · obtain ⟨-, a, ha, hempty, hwriter⟩ := hstep.creates hnow
      exact ⟨a, ha, Or.inr hwriter, Or.inl hempty⟩
  · intro j k hj hk
    rcases hcreates j hj with hbefore | ⟨rfl, hnow⟩
    · rcases hcreates k hk with hbefore' | ⟨rfl, hnow⟩
      · exact hc.creator j k hbefore hbefore'
      · obtain ⟨a, ha, -⟩ := hc.created j hbefore
        rw [(hstep.creates hnow).1] at ha
        cases ha
    · rcases hcreates k hk with hbefore' | ⟨rfl, -⟩
      · obtain ⟨a, ha, -⟩ := hc.created k hbefore'
        rw [(hstep.creates hnow).1] at ha
        cases ha
      · rfl
  · intro j e he id contents hbegun hidentity
    rcases mem_history_update he with he | ⟨rfl, rfl⟩
    · exact hstep.identified hadmits (hc.begun j e he id contents hbegun hidentity)
    · exact ⟨contents, hstep.begins hbegun, hidentity⟩
  · intro j e he id contents hcommitted
    rcases mem_history_update he with he | ⟨rfl, rfl⟩
    · exact hstep.identified hadmits (hc.committed j e he id contents hcommitted)
    · obtain ⟨hfile, conn, rfl, -⟩ := hstep.commits hcommitted
      exact ⟨contents, hfile, MayCommit.identified hadmits⟩
  · intro j e he conn hopened
    rcases mem_history_update he with he | ⟨rfl, rfl⟩
    · exact hc.opened j e he conn hopened
    · exact hstep.opens hopened

/-- A call went as far as committing to a file: it took the file for the store. -/
def Accepts (t : Thread Op (fun op ↦ Except String op.Answer) String Reply) (id : FileId) : Prop :=
  ∃ e ∈ t.history, StoreEvent.attempted e = some id

/-- The anchor names the file. -/
def AnchoredTo (w : World ι) (id : FileId) : Prop :=
  ∃ a ∈ w.anchor, ∃ document, documentOf a.bytes = .ok document ∧ document.Names id

omit [DecidableEq ι] in
theorem AnchoredTo.unique {w : World ι} {id id' : FileId} (hid : AnchoredTo w id)
    (hid' : AnchoredTo w id') : id = id' := by
  obtain ⟨a, ha, document, hdocument, hnames⟩ := hid
  obtain ⟨a', ha', document', hdocument', hnames'⟩ := hid'
  obtain rfl : a = a' := Option.some.inj (ha.symm.trans ha')
  obtain rfl : document = document' := Except.ok.inj (hdocument.symm.trans hdocument')
  exact hnames.unique hnames'

theorem ne_nil_of_documentOf {bytes : Bytes} {document : ReplayAnchorDocument}
    (h : documentOf bytes = .ok document) : bytes ≠ [] := by
  rintro rfl
  cases h

section Reachable

variable {env : Environment} {w : World ι} {calls : ι → Call} {c c' : Pool ι}

/-- What holds of every configuration of a run. -/
structure Reached (c : Pool ι) : Prop where
  guarded : c.Guarded Admits (fun h _ ↦ Commits h)
  performed : ∀ i, ∀ e ∈ (c.thread i).history, Admits (c.thread i).history e.1
  consistent : Consistent c

omit [DecidableEq ι] in
theorem reached_begin (w : World ι) (calls : ι → Call) : Reached (begin env w calls) where
  guarded := Config.guarded_start fun i ↦ guarded_program (calls i)
  performed := fun _ _ he ↦ absurd he List.not_mem_nil
  consistent := {
    read := fun _ _ he ↦ absurd he List.not_mem_nil
    created := fun _ ⟨_, he, _⟩ ↦ absurd he List.not_mem_nil
    creator := fun _ _ ⟨_, he, _⟩ ↦ absurd he List.not_mem_nil
    begun := fun _ _ he ↦ absurd he List.not_mem_nil
    committed := fun _ _ he ↦ absurd he List.not_mem_nil
    opened := fun _ _ he ↦ absurd he List.not_mem_nil }

theorem Reached.run (hc : Reached c) (hrun : Pool.Run c c') : Reached c' where
  guarded := Config.Run.guarded hrun hc.guarded
  performed := Config.Run.performed (fun _ _ op hstarts ↦ Admits.mono hstarts op) hrun hc.guarded
    hc.performed
  consistent := Config.Run.guarded_invariant
    (fun _ _ _ _ _ _ hstep hadmits hc ↦ hc.step hstep hadmits) hrun hc.guarded hc.consistent

omit [DecidableEq ι] in
theorem Reached.mayCommit (hc : Reached c) {i : ι} {id : FileId}
    (haccepts : Accepts (c.thread i) id) :
    ∃ conn contents, MayCommit (c.thread i).history conn contents ∧ conn.handle = id := by
  obtain ⟨⟨op, answer⟩, he, hattempted⟩ := haccepts
  have hadmits := hc.performed i _ he
  cases op with
  | commit conn contents =>
    cases hattempted
    exact ⟨conn, contents, hadmits, rfl⟩
  | _ => cases hattempted

omit [DecidableEq ι] in
/-- A call only takes the file for the store that the anchor names. -/
theorem Reached.anchored (hc : Reached c) {i : ι} {id : FileId}
    (haccepted : Accepted (c.thread i).history id) : AnchoredTo c.state id := by
  obtain ⟨document, ⟨e, he, bytes, hread, hdocument⟩, hnames⟩ := haccepted
  obtain ⟨a, ha, rfl⟩ :=
    hc.consistent.read i e he bytes hread (ne_nil_of_documentOf hdocument)
  exact ⟨a, ha, document, hdocument, hnames⟩

omit [DecidableEq ι] in
theorem Reached.anchored_of_accepts (hc : Reached c) {i : ι} {id : FileId}
    (haccepts : Accepts (c.thread i) id) : AnchoredTo c.state id := by
  obtain ⟨conn, contents, hmay, rfl⟩ := hc.mayCommit haccepts
  exact hc.anchored hmay.accepted

omit [DecidableEq ι] in
/-- A call that has returned took its connection's file for the store, which is identified. -/
theorem Reached.returned (hc : Reached c) {i : ι} {reply : Reply}
    (hdone : (c.thread i).rest = .done (.ok reply)) :
    ∃ conn, Uses (c.thread i).history conn ∧ Accepts (c.thread i) conn.handle ∧
      Identified c.state conn.handle := by
  obtain ⟨⟨op, answer⟩, he, hcommitted⟩ := hc.guarded.returned hdone
  obtain ⟨⟨id, contents⟩, hevent⟩ := Option.isSome_iff_exists.mp hcommitted
  have hidentified := hc.consistent.committed i _ he id contents hevent
  have hadmits := hc.performed i _ he
  cases op with
  | commit conn contents' =>
    have hid : conn.handle = id := by
      cases answer with
      | ok u => exact (Prod.mk.inj (Option.some.inj hevent)).1
      | error e => cases hevent
    subst hid
    exact ⟨conn, MayCommit.uses hadmits, ⟨_, he, rfl⟩, hidentified⟩
  | _ => cases answer <;> cases hevent

theorem accepts_mono (hrun : Pool.Run c c') {i : ι} {id : FileId}
    (haccepts : Accepts (c.thread i) id) : Accepts (c'.thread i) id := by
  obtain ⟨e, he, hattempted⟩ := haccepts
  exact ⟨e, (Config.Run.history_prefix hrun i).subset he, hattempted⟩

/-- A file keeps what it holds until some call takes it for the store. -/
theorem files_kept (hrun : Pool.Run c c') {id : FileId} {contents : Contents}
    (hfile : c.state.files id = some contents) :
    c'.state.files id = some contents ∨ ∃ i, Accepts (c'.thread i) id := by
  induction hrun with
  | refl => exact Or.inl hfile
  | tail _ hlast ih =>
    rcases ih with hkept | ⟨i, haccepts⟩
    · cases hlast with
      | perform i op next answer after hrest hstep =>
        rcases hstep.files hkept with hsame | ⟨conn, contents', rfl, rfl, -⟩
        · exact Or.inl hsame
        · refine Or.inr ⟨i, ⟨.commit conn contents', answer⟩, ?_, rfl⟩
          simp only [Function.update_self]
          exact List.mem_append_right _ List.mem_cons_self
    · exact Or.inr ⟨i, accepts_mono (.single hlast) haccepts⟩

/-- While the call that created the anchor makes no step, the file it meant stays without an
identity. -/
theorem Reached.unidentified (hc : Reached c) {i : ι} (hcreated : CreatedAnchor (c.thread i).history)
    {id : FileId} {contents : Contents} (hfile : c.state.files id = some contents)
    (hidentity : contents.storeIdentity = none) (hrun : Pool.Run c c')
    (hstopped : (c'.thread i).history = (c.thread i).history) :
    c'.state.files id = some contents := by
  induction hrun with
  | refl => exact hfile
  | @tail mid last hfirst hlast ih =>
    have hmid := hc.run hfirst
    have hstarts := Config.Run.history_prefix hfirst i
    have hstarts' := Config.Run.history_prefix (.single hlast) i
    have hsame : (mid.thread i).history = (c.thread i).history :=
      (hstarts.eq_of_length_le (hstopped ▸ hstarts'.length_le)).symm
    have hkept := ih hsame
    cases hlast with
    | perform k op next answer after hrest hstep =>
      rcases hstep.files hkept with hafter | ⟨conn, contents', rfl, rfl, -⟩
      · exact hafter
      · exfalso
        have hadmits := hmid.guarded k
        rw [hrest] at hadmits
        rcases MayCommit.origin hadmits.1 with hcreator | ⟨e, he, snapshot, hbegun, hsome⟩
        · obtain rfl : i = k := hmid.consistent.creator i k (hsame ▸ hcreated) hcreator
          have hlength := congrArg List.length hstopped
          simp only [Function.update_self, List.length_append, List.length_singleton, hsame]
            at hlength
          omega
        · obtain ⟨found, hfound, hidentified⟩ :=
            hmid.consistent.begun k e he conn.handle snapshot hbegun hsome
          rw [hkept] at hfound
          cases hfound
          rw [hidentity] at hidentified
          cases hidentified

omit [DecidableEq ι] in
/-- The document a call meant to write names its own file, however much of it was written. -/
theorem Reached.anchored_of_created (hc : Reached c) {i : ι}
    (hcreated : CreatedAnchor (c.thread i).history) {conn : Connection}
    (huses : Uses (c.thread i).history conn) {id : FileId} (hanchored : AnchoredTo c.state id) :
    id = conn.handle := by
  obtain ⟨a, ha, hholds⟩ := hc.consistent.created i hcreated
  obtain ⟨a', ha', document, hdocument, hnames⟩ := hanchored
  obtain rfl : a = a' := Option.some.inj (ha.symm.trans ha')
  rcases hholds.bytes with hempty | ⟨conn', written, huses', hdescribes, htorn⟩
  · exact absurd hempty (ne_nil_of_documentOf hdocument)
  · obtain rfl : conn = conn' := Option.some.inj (huses.symm.trans huses')
    obtain ⟨e, he, hopened⟩ := List.exists_of_findSome?_eq_some huses
    have hpath := hc.consistent.opened i e he conn hopened
    exact hnames.unique (names_of_torn hdescribes hpath htorn hdocument)

/-- The replay store cannot be replaced silently. At most one file is ever taken for the store, and
a call that returns took its own. A call on any other file fails, and the file keeps what it holds.
When the call that created the anchor stopped before its file had an identity, no call returns
any more. -/
theorem replay_store_not_replaced (hrun : Pool.Run (begin env w calls) c)
    (hlater : Pool.Run c c') :
    (∀ i j id id', Accepts (c.thread i) id → Accepts (c.thread j) id' → id = id') ∧
      (∀ i reply, (c.thread i).rest = .done (.ok reply) →
        ∃ conn, Uses (c.thread i).history conn ∧ Accepts (c.thread i) conn.handle ∧
          AnchoredTo c.state conn.handle) ∧
      (∀ id id', AnchoredTo c'.state id → id' ≠ id →
        (∀ contents, c.state.files id' = some contents → c'.state.files id' = some contents) ∧
          ∀ i conn, Uses (c'.thread i).history conn → conn.handle = id' →
            ∀ outcome, (c'.thread i).rest = .done outcome → ∃ e, outcome = .error e) ∧
      (∀ i conn contents, CreatedAnchor (c.thread i).history → Uses (c.thread i).history conn →
        c.state.files conn.handle = some contents → contents.storeIdentity = none →
        (c'.thread i).history = (c.thread i).history →
        ∀ j outcome, (c'.thread j).rest = .done outcome → ∃ e, outcome = .error e) := by
  have hc : Reached c := (reached_begin w calls).run hrun
  have hc' : Reached c' := hc.run hlater
  refine ⟨?_, ?_, ?_, ?_⟩
  · intro i j id id' hid hid'
    exact (hc.anchored_of_accepts hid).unique (hc.anchored_of_accepts hid')
  · intro i reply hdone
    obtain ⟨conn, huses, haccepts, -⟩ := hc.returned hdone
    exact ⟨conn, huses, haccepts, hc.anchored_of_accepts haccepts⟩
  · intro id id' hid hne
    refine ⟨fun contents hfile ↦ ?_, fun i conn huses hhandle outcome hdone ↦ ?_⟩
    · rcases files_kept hlater hfile with hkept | ⟨i, haccepts⟩
      · exact hkept
      · exact absurd ((hc'.anchored_of_accepts haccepts).unique hid) hne
    · cases outcome with
      | error e => exact ⟨e, rfl⟩
      | ok reply =>
        obtain ⟨conn', huses', haccepts, -⟩ := hc'.returned hdone
        obtain rfl : conn = conn' := Option.some.inj (huses.symm.trans huses')
        exact absurd (hhandle ▸ (hc'.anchored_of_accepts haccepts).unique hid) hne
  · intro i conn contents hcreated huses hfile hidentity hstopped j outcome hdone
    cases outcome with
    | error e => exact ⟨e, rfl⟩
    | ok reply =>
      exfalso
      obtain ⟨conn', -, haccepts, found, hfound, hidentified⟩ := hc'.returned hdone
      have hkept := hc.unidentified hcreated hfile hidentity hlater hstopped
      have hhandle : conn'.handle = conn.handle :=
        hc'.anchored_of_created (hstopped ▸ hcreated) (hstopped ▸ huses)
          (hc'.anchored_of_accepts haccepts)
      rw [hhandle, hkept] at hfound
      cases hfound
      rw [hidentity] at hidentified
      cases hidentified

end Reachable

end Runs

/-! ### A run -/

def sampleEnvironment : Environment where
  storeId := some (js "acme-replay-store")
  anchorPath := some (js "/var/lib/anchors/replay")
  uid := some 501
  sha256 := ⟨fun _ ↦ List.replicate 32 0, fun _ ↦ rfl⟩

def sampleFile : FileId := ⟨64768, 131⟩

def sampleConnection : Connection := ⟨sampleFile, js "/srv/migrator/campaigns.sqlite", true⟩

/-- A migrated database without a store identity. -/
def sampleContents : Contents where
  database := {
    userVersion := 5
    ledger := .exact .empty
    storeIdentity := .exact ()
    triggers := []
    repositoryIndex := .exact ()
    preflightIndex := .exact ()
    providers := none
    campaigns := none
    repos := none
    migrationRuns := none }
  storeIdentity := none

def sampleWorld : World ℕ where
  files := fun id ↦ if id = sampleFile then some sampleContents else none
  path := fun _ ↦ some sampleFile
  lock := fun _ ↦ none
  anchor := none

private def stats (id : FileId) (isFile : Bool) (mode : ℕ) : FileStats :=
  ⟨id, isFile, !isFile, 1, 501, mode, 1⟩

/-- The answers of a machine on which an anchor is created but nothing is written to it. -/
def answers (w : World ℕ) (i : ℕ) : (op : Op) → Except String op.Answer × World ℕ
  | .getDb => (if (w.files sampleFile).isSome then .ok sampleConnection else .error "ENOENT", w)
  | .begin conn =>
    match w.files conn.handle with
    | some contents =>
      (.ok contents, { w with lock := fun id ↦ if id = conn.handle then some i else w.lock id })
    | none => (.error "ENOENT", w)
  | .rollback conn =>
    (.ok (), { w with lock := fun id ↦
      if id = conn.handle ∧ w.lock id = some i then none else w.lock id })
  | .statDatabase conn =>
    (if w.path conn.databasePath = some sampleFile then
      .ok ⟨conn.databasePath, stats sampleFile true 0o600, stats ⟨1, 2⟩ false 0o700⟩
    else .error "ENOENT", w)
  | .statAnchorDirectory => (.ok ⟨js "/var/lib/anchors", stats ⟨1, 3⟩ false 0o700⟩, w)
  | .sqliteClock => (.ok (.int 1000), w)
  | .randomBytes => (.ok (List.replicate 32 0xab), w)
  | .createAnchor =>
    match w.anchor with
    | none => (.ok (), { w with anchor := some ⟨⟨64768, 977⟩, [], some i, fun h ↦ absurd rfl h⟩ })
    | some _ => (.error "EEXIST", w)
  | _ => (.error "EIO", w)

private theorem disturbs_refl (w : World ℕ) : Disturbs w w :=
  ⟨fun _ _ h ↦ h, fun _ h ↦ h, fun _ ↦ Or.inl rfl⟩

/-- The lock of a process that stopped is released. -/
private theorem disturbs_unlock (w : World ℕ) (id : FileId) :
    Disturbs w { w with lock := fun id' ↦ if id' = id then none else w.lock id' } := by
  refine ⟨fun _ _ h ↦ h, fun _ h ↦ h, fun id' ↦ ?_⟩
  by_cases hid : id' = id
  · exact Or.inr (if_pos hid)
  · exact Or.inl (if_neg hid)

theorem step_answers (w : World ℕ) (i : ℕ) (op : Op) :
    Step w i op (answers w i op).1 (answers w i op).2 := by
  cases op with
  | getDb =>
    refine ⟨w, disturbs_refl w, rfl, ?_⟩
    by_cases hfile : (w.files sampleFile).isSome = true
    · exact Or.inr ⟨sampleConnection, if_pos hfile, hfile, by decide +kernel⟩
    · exact Or.inl ⟨"ENOENT", if_neg hfile⟩
  | begin conn =>
    cases hfile : w.files conn.handle with
    | none =>
      refine ⟨w, disturbs_refl w, Or.inl ?_⟩
      simp only [answers, hfile, true_and]
      exact ⟨"ENOENT", rfl⟩
    | some contents =>
      refine ⟨_, disturbs_unlock w conn.handle, ?_⟩
      refine Or.inr ⟨contents, hfile, if_pos rfl, ?_⟩
      simp only [answers, hfile, true_and]
      intro id
      split_ifs <;> rfl
  | rollback conn =>
    exact ⟨w, disturbs_refl w, Or.inr ⟨⟨rfl, rfl, fun _ ↦ rfl⟩, Or.inl rfl⟩⟩
  | statDatabase conn =>
    refine ⟨w, disturbs_refl w, rfl, ?_⟩
    by_cases hpath : w.path conn.databasePath = some sampleFile
    · exact Or.inr ⟨_, if_pos hpath, hpath⟩
    · exact Or.inl ⟨"ENOENT", if_neg hpath⟩
  | createAnchor =>
    refine ⟨w, disturbs_refl w, ?_⟩
    cases hanchor : w.anchor with
    | none =>
      refine Or.inr ?_
      simp only [answers, hanchor, true_and]
      exact ⟨_, rfl, rfl, rfl⟩
    | some a =>
      refine Or.inl ?_
      simp only [answers, hanchor, true_and]
      exact ⟨"EEXIST", rfl⟩
  | commit | writeAnchor => exact ⟨w, disturbs_refl w, Or.inl ⟨rfl, "EIO", rfl⟩⟩
  | read | openDatabase | lstatAnchor | openAnchor | readAnchor =>
    exact ⟨w, disturbs_refl w, rfl, Or.inl ⟨"EIO", rfl⟩⟩
  | randomBytes => exact ⟨w, disturbs_refl w, rfl, Or.inr ⟨_, rfl, rfl⟩⟩
  | sqliteClock | pragmas | sync | statAnchorDirectory => exact ⟨w, disturbs_refl w, rfl⟩

/-- Two processes initialize the store. -/
def sampleCalls : ℕ → Call := fun _ ↦ .initializeOwnerAuthorizationStore

/-- The first process creates the anchor and stops. -/
def sampleStopped : Pool ℕ :=
  (begin sampleEnvironment sampleWorld sampleCalls).play answers (List.replicate 7 0)

/-- The second process runs to its end. -/
def sampleEnded : Pool ℕ := sampleStopped.play answers (List.replicate 10 1)

private def isEnded : Process Reply → Bool
  | .done _ => true
  | .call _ _ => false

private theorem eq_done_of_isEnded {p : Process Reply} (h : isEnded p = true) :
    ∃ outcome, p = .done outcome := by
  cases p with
  | done outcome => exact ⟨outcome, rfl⟩
  | call op next => cases h

/-- The anchor of a process that stopped turns the next one away. -/
theorem replay_store_not_replaced_orphan :
    ∃ e, (sampleEnded.thread 1).rest = .done (.error e) := by
  have hrun : Pool.Run (begin sampleEnvironment sampleWorld sampleCalls) sampleStopped :=
    Config.run_play step_answers _ _
  have hlater : Pool.Run sampleStopped sampleEnded := Config.run_play step_answers _ _
  obtain ⟨outcome, hended⟩ := eq_done_of_isEnded (p := (sampleEnded.thread 1).rest)
    (by decide +kernel)
  have hany : (sampleStopped.thread 0).history.any StoreEvent.createsAnchor = true := by
    decide +kernel
  have hcreated : CreatedAnchor (sampleStopped.thread 0).history := List.any_eq_true.mp hany
  have huses : Uses (sampleStopped.thread 0).history sampleConnection := by
    unfold Uses
    decide +kernel
  obtain ⟨contents, hfile, hidentity⟩ : ∃ contents,
      sampleStopped.state.files sampleConnection.handle = some contents ∧
        contents.storeIdentity = none := by
    have hmap : (sampleStopped.state.files sampleConnection.handle).map Contents.storeIdentity =
        some none := by decide +kernel
    exact Option.map_eq_some_iff.mp hmap
  have hout : (0 : ℕ) ∉ List.replicate 10 1 := by decide
  have hthread : sampleEnded.thread 0 = sampleStopped.thread 0 := by
    rw [sampleEnded, Config.thread_play hout]
  obtain ⟨-, -, -, horphan⟩ := replay_store_not_replaced hrun hlater
  obtain ⟨e, rfl⟩ := horphan 0 sampleConnection contents hcreated huses hfile hidentity
    (congrArg Thread.history hthread) 1 outcome hended
  exact ⟨e, hended⟩

end ApiMigrator.Db.ReplayStore
