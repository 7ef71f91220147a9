import ApiMigrator.Engine.RepositoryDigest

/-!
What the repository digest tells apart. The contents of a file stand in the hashed bytes without
their length, so that a file can hold what reads like further entries: trees with one digest agree
exactly if their files have the same sizes in the order in which they are hashed.
-/

set_option autoImplicit false
set_option relaxedAutoImplicit false

namespace ApiMigrator.Engine.RepositoryDigest

open Foundation.Text Foundation.Number Foundation.Outcome Foundation.Pattern Foundation.Binary
open Foundation.FileTree Foundation.Framing
open App.Artifact (Path IsPath joinSlash pathText pathText_eq mem_joinSlash isName)

/-! ### Entries -/

theorem fileContents_eq_ok {p : Path} {bytes contents : Bytes}
    (h : fileContents p bytes = .ok contents) : contents = bytes := by
  have hread : ∀ {path label maxBytes}, readRepositoryFile path bytes label maxBytes = .ok contents →
      contents = bytes := by
    intro path label maxBytes hread
    simp only [readRepositoryFile, bind_eq_ok, reject_eq_ok, exists_unit, pure_eq_ok] at hread
    exact hread.2.2.2.symm
  unfold fileContents at h
  split_ifs at h
  · exact hread h
  · exact hread h
  · exact (Except.ok.inj h).symm

theorem hashEntry_eq_ok {e : Path × Entry} {bytes : Bytes} (h : hashEntry e = .ok bytes) :
    bytes = entryBytes e := by
  obtain ⟨p, node⟩ := e
  rcases node with ⟨mode, children⟩ | (⟨mode, contents⟩ | target | _)
  · exact (Except.ok.inj h).symm
  · simp only [hashEntry, bind_eq_ok, pure_eq_ok] at h
    obtain ⟨read, hcontents, rfl⟩ := h
    rw [fileContents_eq_ok hcontents]
    rfl
  · exact (Except.ok.inj h).symm
  · exact (Except.ok.inj h).symm

theorem hashEntry_congr {e e' : Path × Entry} (hpath : e.1 = e'.1)
    (hitem : itemOf e.2 = itemOf e'.2) : hashEntry e = hashEntry e' := by
  obtain ⟨p, node⟩ := e
  obtain ⟨q, node'⟩ := e'
  obtain rfl : p = q := hpath
  rcases node with ⟨mode, children⟩ | (⟨mode, contents⟩ | target | _) <;>
    rcases node' with ⟨mode', children'⟩ | (⟨mode', contents'⟩ | target' | _) <;>
    simp only [itemOf, Item.directory.injEq, Item.file.injEq, Item.symlink.injEq,
      reduceCtorEq] at hitem
  · simp only [hashEntry, hitem]
  · obtain ⟨hmode, rfl⟩ := hitem
    simp only [hashEntry, hmode]
  · rw [hitem]
  · rfl

theorem mapEach_hashEntry {es : List (Path × Entry)} {hashed : List Bytes}
    (h : mapEach hashEntry es = .ok hashed) : hashed.flatten = es.flatMap entryBytes := by
  induction es generalizing hashed with
  | nil =>
    obtain rfl := Except.ok.inj h
    rfl
  | cons e es ih =>
    simp only [mapEach, bind_eq_ok, pure_eq_ok] at h
    obtain ⟨bytes, hbytes, rest, hrest, rfl⟩ := h
    rw [List.flatten_cons, List.flatMap_cons, ih hrest, hashEntry_eq_ok hbytes]

theorem mapEach_hashEntry_congr {es es' : List (Path × Entry)}
    (h : List.Forall₂ (fun e e' ↦ hashEntry e = hashEntry e') es es') :
    mapEach hashEntry es = mapEach hashEntry es' := by
  induction h with
  | nil => rfl
  | cons hhead _ ih => simp only [mapEach, hhead, ih]

variable {H : HashFunction 32} {localeCompare : JsString → JsString → ℤ}
  {entries entries' : Directory} {digest : JsString}

theorem repositoryDigest_eq_ok (h : repositoryDigest H localeCompare entries = .ok digest) :
    H.hex (repositoryBytes localeCompare entries) = digest := by
  simp only [repositoryDigest, bind_eq_ok, pure_eq_ok] at h
  obtain ⟨hashed, hhashed, rfl⟩ := h
  rw [mapEach_hashEntry hhashed]
  rfl

/-! ### Reading an entry off the bytes -/

/-- An entry that the walk of a valid tree meets. -/
structure Hashable (e : Path × Entry) : Prop where
  path : IsPath e.1
  wellFormed : ∀ name ∈ e.1, isWellFormed name = true
  plain : ∀ name ∈ e.1, (0x5c : UInt16) ∉ name
  kind : e.2 ≠ .leaf .special
  target : ∀ target, e.2 = .leaf (.symlink target) → (0 : UInt16) ∉ utf8Decode target

theorem hashable (hvalid : Valid entries) {e : Path × Entry}
    (he : e ∈ digested localeCompare entries) : Hashable e := by
  have hkept := mem_walk_root.mp he
  refine ⟨⟨hkept.ne_nil, ?_⟩, ?_, ?_, ?_, ?_⟩
  · exact fun name hname ↦ (hvalid.names _ _ hkept.1 name hname).1
  · exact fun name hname ↦ (hvalid.names _ _ hkept.1 name hname).2.1
  · exact fun name hname ↦ (hvalid.names _ _ hkept.1 name hname).2.2
  · exact fun hspecial ↦ hvalid.plain _ (hspecial ▸ hkept.1)
  · exact fun target htarget ↦ hvalid.targets _ _ (htarget ▸ hkept.1)

theorem isWellFormed_joinSlash {p : Path} (h : ∀ name ∈ p, isWellFormed name = true) :
    isWellFormed (joinSlash p) = true := by
  induction p with
  | nil => rfl
  | cons name rest ih =>
    rw [List.forall_mem_cons] at h
    cases rest with
    | nil =>
      rw [joinSlash, List.intercalate_singleton]
      exact h.1
    | cons next rest =>
      rw [joinSlash, List.intercalate_cons_cons, List.append_assoc, isWellFormed_append h.1,
        List.singleton_append, isWellFormed_cons (by decide)]
      exact ih h.2

theorem entryFields_eq (type : String) (path field : JsString) : entryFields type path field =
    utf8Encode (js type) ++ 0 :: (utf8Encode path ++ 0 :: (utf8Encode field ++ [0])) := by
  have hzero : isSurrogate 0 = false := by decide
  rw [entryFields, utf8Encode_append_cons hzero, utf8Encode_append_cons hzero,
    utf8Encode_append_cons hzero]
  rfl

/-- The fields of an entry end where they end. -/
theorem entryFields_append {type type' : String} (htype : (0 : UInt16) ∉ js type)
    (htype' : (0 : UInt16) ∉ js type') {p q : Path} {node node' : Entry}
    (hp : Hashable (p, node)) (hq : Hashable (q, node')) {field field' : JsString}
    (hfield : (0 : UInt16) ∉ field) (hfield' : (0 : UInt16) ∉ field') {rest rest' : Bytes}
    (h : entryFields type (pathText p) field ++ rest =
      entryFields type' (pathText q) field' ++ rest') :
    utf8Encode (js type) = utf8Encode (js type') ∧ p = q ∧
      utf8Encode field = utf8Encode field' ∧ rest = rest' := by
  have hnul : ∀ {s : JsString}, (0 : UInt16) ∉ s → (0 : UInt8) ∉ utf8Encode s :=
    fun hs ↦ notMem_utf8Encode (by decide) rfl hs
  rw [pathText_eq hp.plain, pathText_eq hq.plain, entryFields_eq, entryFields_eq] at h
  simp only [List.append_assoc, List.cons_append, List.nil_append] at h
  obtain ⟨htypes, h⟩ := append_cons_injective (hnul htype) (hnul htype') h
  obtain ⟨hpaths, h⟩ := append_cons_injective (hnul hp.path.zero_notMem)
    (hnul hq.path.zero_notMem) h
  obtain ⟨hfields, hrest⟩ := append_cons_injective (hnul hfield) (hnul hfield') h
  have htext := utf8Encode_injective (isWellFormed_joinSlash hp.wellFormed)
    (isWellFormed_joinSlash hq.wellFormed) hpaths
  exact ⟨htypes, hp.path.joinSlash_injective hq.path htext, hfields, hrest⟩

/-- What the hash is given of an entry: a target as it is read. -/
def readItem : Entry → Item
  | .leaf (.symlink target) => .symlink (utf8Encode (utf8Decode target))
  | node => itemOf node

/-- Two entries that the same bytes begin with: they are alike, up to the contents of files. -/
theorem entryBytes_append {e e' : Path × Entry} (he : Hashable e) (he' : Hashable e')
    {rest rest' : Bytes} (h : entryBytes e ++ rest = entryBytes e' ++ rest') : e.1 = e'.1 ∧
      (readItem e.2 = readItem e'.2 ∧ (∀ mode bytes, e.2 ≠ .leaf (.file mode bytes)) ∧
          (∀ mode bytes, e'.2 ≠ .leaf (.file mode bytes)) ∧ rest = rest' ∨
        ∃ mode mode' bytes bytes', e.2 = .leaf (.file mode bytes) ∧
          e'.2 = .leaf (.file mode' bytes') ∧ mode &&& 0o777 = mode' &&& 0o777 ∧
            bytes ++ 0 :: rest = bytes' ++ 0 :: rest') := by
  have hdigits : ∀ n, (0 : UInt16) ∉ decimalDigits n := fun n hmem ↦
    absurd (ascii_of_mem_decimalDigits hmem).1 (by decide)
  have htypes : (0 : UInt16) ∉ js "d" ∧ (0 : UInt16) ∉ js "l" ∧ (0 : UInt16) ∉ js "f" := by decide
  have hapart : utf8Encode (js "d") ≠ utf8Encode (js "l") ∧
      utf8Encode (js "d") ≠ utf8Encode (js "f") ∧ utf8Encode (js "l") ≠ utf8Encode (js "f") := by
    decide
  obtain ⟨p, node⟩ := e
  obtain ⟨q, node'⟩ := e'
  rcases node with ⟨mode, children⟩ | (⟨mode, bytes⟩ | target | _) <;>
    rcases node' with ⟨mode', children'⟩ | (⟨mode', bytes'⟩ | target' | _) <;>
    simp only [entryBytes, List.append_assoc, List.cons_append, List.nil_append] at h
  · obtain ⟨-, hpath, hmode, hrest⟩ := entryFields_append htypes.1 htypes.1 he he' (hdigits _)
      (hdigits _) h
    refine ⟨hpath, Or.inl ⟨?_, by simp, by simp, hrest⟩⟩
    rw [readItem, readItem, itemOf, itemOf, digitBytes_injective hmode]
    all_goals simp
  · exact absurd (entryFields_append htypes.1 htypes.2.2 he he' (hdigits _) (hdigits _) h).1
      hapart.2.1
  · exact absurd (entryFields_append htypes.1 htypes.2.1 he he' (hdigits _)
      (he'.target target' rfl) h).1 hapart.1
  · exact absurd rfl he'.kind
  · exact absurd (entryFields_append htypes.2.2 htypes.1 he he' (hdigits _) (hdigits _) h).1
      hapart.2.1.symm
  · obtain ⟨-, hpath, hmode, hrest⟩ := entryFields_append htypes.2.2 htypes.2.2 he he' (hdigits _)
      (hdigits _) h
    exact ⟨hpath, Or.inr ⟨mode, mode', bytes, bytes', rfl, rfl, digitBytes_injective hmode, hrest⟩⟩
  · exact absurd (entryFields_append htypes.2.2 htypes.2.1 he he' (hdigits _)
      (he'.target target' rfl) h).1 hapart.2.2.symm
  · exact absurd rfl he'.kind
  · exact absurd (entryFields_append htypes.2.1 htypes.1 he he' (he.target target rfl) (hdigits _)
      h).1 hapart.1.symm
  · exact absurd (entryFields_append htypes.2.1 htypes.2.2 he he' (he.target target rfl)
      (hdigits _) h).1 hapart.2.2
  · obtain ⟨-, hpath, htarget, hrest⟩ := entryFields_append htypes.2.1 htypes.2.1 he he'
      (he.target target rfl) (he'.target target' rfl) h
    exact ⟨hpath, Or.inl ⟨congrArg Item.symlink htarget, by simp, by simp, hrest⟩⟩
  · exact absurd rfl he'.kind
  all_goals exact absurd rfl he.kind

/-! ### Entries in their order -/

def Item.size : Item → Option ℕ
  | .file _ bytes => some bytes.length
  | _ => none

/-- The size of an entry that is a file. -/
def entrySize (e : Path × Entry) : Option ℕ := (itemOf e.2).size

theorem fileSizes_eq :
    fileSizes localeCompare entries = (digested localeCompare entries).filterMap entrySize := by
  refine List.filterMap_congr fun e _ ↦ ?_
  obtain ⟨p, node⟩ := e
  rcases node with ⟨mode, children⟩ | (⟨mode, bytes⟩ | target | _) <;> rfl

theorem entrySize_of_not_file {e : Path × Entry}
    (h : ∀ mode bytes, e.2 ≠ .leaf (.file mode bytes)) : entrySize e = none := by
  obtain ⟨p, node⟩ := e
  rcases node with ⟨mode, children⟩ | (⟨mode, bytes⟩ | target | _)
  · rfl
  · exact absurd rfl (h mode bytes)
  · rfl
  · rfl

theorem entryBytes_ne_nil {e : Path × Entry} (he : Hashable e) : entryBytes e ≠ [] := by
  have hfields : ∀ type path field, entryFields type path field ≠ [] := by
    intro type path field
    rw [entryFields_eq]
    exact List.append_ne_nil_of_right_ne_nil _ (List.cons_ne_nil _ _)
  obtain ⟨p, node⟩ := e
  rcases node with ⟨mode, children⟩ | (⟨mode, bytes⟩ | target | _)
  · exact hfields _ _ _
  · exact List.append_ne_nil_of_left_ne_nil (hfields _ _ _) _
  · exact hfields _ _ _
  · exact absurd rfl he.kind

/-- Entries from the same bytes are alike one by one where files that meet have one size. -/
theorem eq_of_entryBytes {es es' : List (Path × Entry)} (hes : ∀ e ∈ es, Hashable e)
    (hes' : ∀ e ∈ es', Hashable e)
    (hsizes : es.filterMap entrySize = es'.filterMap entrySize)
    (h : es.flatMap entryBytes = es'.flatMap entryBytes) :
    es.map (fun e ↦ (e.1, readItem e.2)) = es'.map fun e ↦ (e.1, readItem e.2) := by
  induction es generalizing es' with
  | nil =>
    cases es' with
    | nil => rfl
    | cons e' es' =>
      rw [List.flatMap_nil, List.flatMap_cons] at h
      exact absurd (List.append_eq_nil_iff.mp h.symm).1
        (entryBytes_ne_nil (hes' e' List.mem_cons_self))
  | cons e es ih =>
    cases es' with
    | nil =>
      rw [List.flatMap_nil, List.flatMap_cons] at h
      exact absurd (List.append_eq_nil_iff.mp h).1 (entryBytes_ne_nil (hes e List.mem_cons_self))
    | cons e' es' =>
      rw [List.forall_mem_cons] at hes hes'
      rw [List.flatMap_cons, List.flatMap_cons] at h
      rw [List.map_cons, List.map_cons]
      obtain ⟨hpath, ⟨hitem, hfile, hfile', hrest⟩ | ⟨mode, mode', bytes, bytes', hnode, hnode',
        hmode, hbytes⟩⟩ := entryBytes_append hes.1 hes'.1 h
      · rw [List.filterMap_cons_none (entrySize_of_not_file hfile),
          List.filterMap_cons_none (entrySize_of_not_file hfile')] at hsizes
        rw [hpath, hitem, ih hes.2 hes'.2 hsizes hrest]
      · have hsize : entrySize e = some bytes.length := by rw [entrySize, hnode]; rfl
        have hsize' : entrySize e' = some bytes'.length := by rw [entrySize, hnode']; rfl
        rw [List.filterMap_cons_some hsize, List.filterMap_cons_some hsize'] at hsizes
        obtain ⟨hlength, hlater⟩ := List.cons.inj hsizes
        obtain ⟨rfl, hrest⟩ := List.append_inj hbytes hlength
        have hitem : readItem e.2 = readItem e'.2 := by
          rw [hnode, hnode', readItem, readItem, itemOf, itemOf, hmode]
          all_goals simp
        rw [hpath, hitem, ih hes.2 hes'.2 hlater (List.cons.inj hrest).2]

/-- Entries from the same bytes have the same sizes where one path names one item. -/
theorem sizes_of_entryBytes {es es' : List (Path × Entry)} (hes : ∀ e ∈ es, Hashable e)
    (hes' : ∀ e ∈ es', Hashable e)
    (hsame : ∀ e ∈ es, ∀ e' ∈ es', e.1 = e'.1 → itemOf e.2 = itemOf e'.2)
    (h : es.flatMap entryBytes = es'.flatMap entryBytes) :
    es.filterMap entrySize = es'.filterMap entrySize := by
  induction es generalizing es' with
  | nil =>
    cases es' with
    | nil => rfl
    | cons e' es' =>
      rw [List.flatMap_nil, List.flatMap_cons] at h
      exact absurd (List.append_eq_nil_iff.mp h.symm).1
        (entryBytes_ne_nil (hes' e' List.mem_cons_self))
  | cons e es ih =>
    cases es' with
    | nil =>
      rw [List.flatMap_nil, List.flatMap_cons] at h
      exact absurd (List.append_eq_nil_iff.mp h).1 (entryBytes_ne_nil (hes e List.mem_cons_self))
    | cons e' es' =>
      have hitem := fun hpath ↦ hsame e List.mem_cons_self e' List.mem_cons_self hpath
      have hlater : ∀ d ∈ es, ∀ d' ∈ es', d.1 = d'.1 → itemOf d.2 = itemOf d'.2 :=
        fun d hd d' hd' ↦ hsame d (List.mem_cons_of_mem _ hd) d' (List.mem_cons_of_mem _ hd')
      rw [List.forall_mem_cons] at hes hes'
      rw [List.flatMap_cons, List.flatMap_cons] at h
      obtain ⟨hpath, ⟨-, hfile, hfile', hrest⟩ | ⟨mode, mode', bytes, bytes', hnode, hnode',
        -, hbytes⟩⟩ := entryBytes_append hes.1 hes'.1 h
      · rw [List.filterMap_cons, List.filterMap_cons, entrySize, entrySize, hitem hpath,
          ih hes.2 hes'.2 hlater hrest]
      · have hsame := hitem hpath
        rw [hnode, hnode', itemOf, itemOf, Item.file.injEq] at hsame
        obtain ⟨-, rfl⟩ := hsame
        have hrest := (List.cons.inj (List.append_cancel_left hbytes)).2
        rw [List.filterMap_cons, List.filterMap_cons, entrySize, entrySize, hitem hpath,
          ih hes.2 hes'.2 hlater hrest]

/-! ### Digests and trees -/

/-- Reading a target alike is the only way in which different items are read alike. -/
theorem itemOf_of_readItem (hread : TargetsReadApart entries entries') {p : Path}
    {node node' : Entry} (hkept : Kept isDigestedName entries p node)
    (hkept' : Kept isDigestedName entries' p node') (h : readItem node = readItem node') :
    itemOf node = itemOf node' := by
  rcases node with ⟨mode, children⟩ | (⟨mode, bytes⟩ | target | _) <;>
    rcases node' with ⟨mode', children'⟩ | (⟨mode', bytes'⟩ | target' | _) <;>
    simp only [readItem, itemOf, Item.symlink.injEq, reduceCtorEq] at h
  · exact h
  · exact h
  · rw [hread p target target' hkept hkept' h]
  · rfl

theorem sameTree_of_read (hread : TargetsReadApart entries entries')
    (h : (digested localeCompare entries).map (fun e ↦ (e.1, readItem e.2)) =
      (digested localeCompare entries').map fun e ↦ (e.1, readItem e.2)) {p : Path} {item : Item}
    (hitem : ∃ node, Kept isDigestedName entries p node ∧ itemOf node = item) :
    ∃ node, Kept isDigestedName entries' p node ∧ itemOf node = item := by
  obtain ⟨node, hkept, rfl⟩ := hitem
  have hmem : (p, readItem node) ∈
      (digested localeCompare entries).map fun e ↦ (e.1, readItem e.2) :=
    List.mem_map.mpr ⟨(p, node), mem_walk_root.mpr hkept, rfl⟩
  rw [h] at hmem
  obtain ⟨⟨q, node'⟩, hmem', heq⟩ := List.mem_map.mp hmem
  obtain ⟨rfl, hsame⟩ := Prod.mk.inj heq
  have hkept' := mem_walk_root.mp hmem'
  exact ⟨node', hkept', (itemOf_of_readItem hread hkept hkept' hsame.symm).symm⟩

theorem TargetsReadApart.symm (h : TargetsReadApart entries entries') :
    TargetsReadApart entries' entries :=
  fun p target target' hkept hkept' hread ↦ (h p target' target hkept' hkept hread.symm).symm

theorem seesDirectories_itemOf : SeesDirectories (itemOf : Entry → Item) := by
  intro mode children node h
  rcases node with ⟨mode', children'⟩ | (⟨mode', bytes'⟩ | target' | _)
  · exact ⟨mode', children', rfl⟩
  · cases h
  · cases h
  · cases h

/-- A comparison of names by which an array can be sorted. -/
structure Consistent (localeCompare : JsString → JsString → ℤ) : Prop where
  total : ∀ a b, localeCompare a b ≤ 0 ∨ localeCompare b a ≤ 0
  trans : ∀ a b c, localeCompare a b ≤ 0 → localeCompare b c ≤ 0 → localeCompare a c ≤ 0

/-- Trees that agree are hashed alike, however they are listed. -/
theorem repositoryDigest_congr (hconsistent : Consistent localeCompare)
    (hdistinct : Distinct entries) (hdistinct' : Distinct entries')
    (hsame : SameTree entries entries')
    (hties : NoTies isDigestedName (localeBefore localeCompare) entries) :
    repositoryDigest H localeCompare entries = repositoryDigest H localeCompare entries' := by
  have : Std.Total (localeBefore localeCompare) := ⟨hconsistent.total⟩
  have : IsTrans JsString (localeBefore localeCompare) := ⟨hconsistent.trans⟩
  have halike : Alike isDigestedName (localeBefore localeCompare) itemOf entries entries' :=
    ⟨hdistinct, hdistinct', hsame, hties⟩
  have hstack : List.Forall₂ (fun d d' : Pending JsString ℕ Leaf ↦ d.1 = d'.1 ∧
      Alike isDigestedName (localeBefore localeCompare) itemOf d.2 d'.2)
      [([], entries)] [([], entries')] := .cons ⟨rfl, halike⟩ .nil
  have hwalk : (digested localeCompare entries).map (fun e ↦ (e.1, itemOf e.2)) =
      (digested localeCompare entries').map fun e ↦ (e.1, itemOf e.2) :=
    walk_eq_of_alike seesDirectories_itemOf hstack
  have hhashed := mapEach_hashEntry_congr (forall₂_of_map_eq hwalk fun e _ e' _ heq ↦
    hashEntry_congr (Prod.mk.inj heq).1 (Prod.mk.inj heq).2)
  rw [repositoryDigest, repositoryDigest, hhashed]

/-- **The repository digest.** Trees with one digest agree exactly if their files have the same
sizes in the order in which they are hashed, and no link has two targets that are read alike. A
tree has one digest however it is listed, where no two names of a directory compare equal. -/
theorem repository_digest_exact (hconsistent : Consistent localeCompare) (hvalid : Valid entries)
    (hvalid' : Valid entries')
    (hfree : H.digest (repositoryBytes localeCompare entries) =
      H.digest (repositoryBytes localeCompare entries') →
        repositoryBytes localeCompare entries = repositoryBytes localeCompare entries') :
    (∀ digest, repositoryDigest H localeCompare entries = .ok digest →
      repositoryDigest H localeCompare entries' = .ok digest →
        (SameTree entries entries' ↔
          fileSizes localeCompare entries = fileSizes localeCompare entries' ∧
            TargetsReadApart entries entries')) ∧
    (SameTree entries entries' → NoTies isDigestedName (localeBefore localeCompare) entries →
      repositoryDigest H localeCompare entries = repositoryDigest H localeCompare entries') := by
  refine ⟨fun digest hdigest hdigest' ↦ ?_, repositoryDigest_congr hconsistent hvalid.distinct
    hvalid'.distinct⟩
  have hbytes := hfree (hexText_injective
    ((repositoryDigest_eq_ok hdigest).trans (repositoryDigest_eq_ok hdigest').symm))
  have hes : ∀ e ∈ digested localeCompare entries, Hashable e := fun e he ↦ hashable hvalid he
  have hes' : ∀ e ∈ digested localeCompare entries', Hashable e := fun e he ↦ hashable hvalid' he
  rw [fileSizes_eq, fileSizes_eq]
  constructor
  · intro hsame
    refine ⟨sizes_of_entryBytes hes hes' (fun e he e' he' hpath ↦ ?_) hbytes, ?_⟩
    · have hkept := mem_walk_root.mp he
      have hkept' := mem_walk_root.mp he'
      rw [hpath] at hkept
      exact hsame.observe_eq hvalid'.distinct hkept hkept'
    · intro p target target' hkept hkept' _
      exact Item.symlink.inj (hsame.observe_eq hvalid'.distinct hkept hkept')
  · rintro ⟨hsizes, hread⟩ p item
    have halike := eq_of_entryBytes hes hes' hsizes hbytes
    exact ⟨sameTree_of_read hread halike, sameTree_of_read hread.symm halike.symm⟩

/-! ### A file that reads like two -/

/-- Names in the order of their code units. -/
def unitCompare (a b : JsString) : ℤ := if a ≤ b then if b ≤ a then 0 else -1 else 1

theorem unitCompare_le {a b : JsString} : unitCompare a b ≤ 0 ↔ a ≤ b := by
  unfold unitCompare
  split_ifs with hab hba <;> simp [hab]

theorem consistent_unitCompare : Consistent unitCompare := by
  refine ⟨fun a b ↦ ?_, fun a b c ↦ ?_⟩
  · rw [unitCompare_le, unitCompare_le]
    exact List.le_total a b
  · rw [unitCompare_le, unitCompare_le, unitCompare_le]
    exact List.le_trans

/-- A file whose contents hold the fields of another. -/
def oneFile : Directory :=
  [(js "a", .leaf (.file 0o644 (0x78 :: 0 :: entryFields "f" (js "b") (js "420") ++ [0x79])))]

def twoFiles : Directory :=
  [(js "a", .leaf (.file 0o644 [0x78])), (js "b", .leaf (.file 0o644 [0x79]))]

theorem digested_oneFile : digested unitCompare oneFile =
    [([js "a"], .leaf (.file 0o644 (0x78 :: 0 :: entryFields "f" (js "b") (js "420") ++ [0x79])))] :=
  walk_leaf (by decide)

theorem digested_twoFiles : digested unitCompare twoFiles =
    [([js "a"], .leaf (.file 0o644 [0x78])), ([js "b"], .leaf (.file 0o644 [0x79]))] := by
  have hread : readDirectory isDigestedName (localeBefore unitCompare) twoFiles = twoFiles := rfl
  have hpending : twoFiles.filterMap (pending ([] : Path)) = [] := rfl
  rw [digested, walk, hread, hpending, List.reverse_nil, List.nil_append, walk, List.append_nil]
  rfl

theorem repositoryBytes_oneFile :
    repositoryBytes unitCompare oneFile = repositoryBytes unitCompare twoFiles := by
  rw [repositoryBytes, repositoryBytes, digested_oneFile, digested_twoFiles]
  decide

theorem repositoryDigest_oneFile (H : HashFunction 32) :
    repositoryDigest H unitCompare oneFile = .ok (H.hex (repositoryBytes unitCompare oneFile)) := by
  rw [repositoryDigest, repositoryBytes, digested_oneFile]
  rfl

theorem repositoryDigest_twoFiles (H : HashFunction 32) :
    repositoryDigest H unitCompare twoFiles = .ok (H.hex (repositoryBytes unitCompare oneFile)) := by
  rw [repositoryBytes_oneFile, repositoryDigest, repositoryBytes, digested_twoFiles]
  rfl

/-- Files of plain names in one directory make a valid tree. -/
theorem valid_of_files {entries : Directory} (hnodup : (entries.map Prod.fst).Nodup)
    (hfiles : ∀ e ∈ entries, ∃ mode bytes, e.2 = .leaf (.file mode bytes))
    (hnames : ∀ e ∈ entries,
      isName e.1 = true ∧ isWellFormed e.1 = true ∧ (0x5c : UInt16) ∉ e.1) : Valid entries := by
  have hat : ∀ {p node}, At entries p node → ∃ e ∈ entries, p = [e.1] ∧ node = e.2 := by
    intro p node h
    cases h with
    | here hmem => exact ⟨_, hmem, rfl, rfl⟩
    | inside hmem _ =>
      obtain ⟨mode, bytes, hfile⟩ := hfiles _ hmem
      cases hfile
  refine ⟨.mk hnodup fun name data children hmem ↦ ?_, fun p node h ↦ ?_, fun p h ↦ ?_,
    fun p target h ↦ ?_⟩
  · obtain ⟨mode, bytes, hfile⟩ := hfiles _ hmem
    cases hfile
  · obtain ⟨e, he, rfl, -⟩ := hat h
    exact List.forall_mem_singleton.mpr (hnames e he)
  · obtain ⟨e, he, -, hnode⟩ := hat h
    obtain ⟨mode, bytes, hfile⟩ := hfiles e he
    rw [hfile] at hnode
    cases hnode
  · obtain ⟨e, he, -, hnode⟩ := hat h
    obtain ⟨mode, bytes, hfile⟩ := hfiles e he
    rw [hfile] at hnode
    cases hnode

theorem valid_oneFile : Valid oneFile := by
  refine valid_of_files (List.nodup_singleton _) ?_ ?_
  · exact List.forall_mem_singleton.mpr ⟨_, _, rfl⟩
  · exact List.forall_mem_singleton.mpr (by decide)

theorem valid_twoFiles : Valid twoFiles := by
  refine valid_of_files (by decide) ?_ ?_
  · exact List.forall_mem_cons.mpr ⟨⟨_, _, rfl⟩, List.forall_mem_singleton.mpr ⟨_, _, rfl⟩⟩
  · exact List.forall_mem_cons.mpr ⟨by decide, List.forall_mem_singleton.mpr (by decide)⟩

theorem not_sameTree_oneFile : ¬ SameTree oneFile twoFiles := by
  intro hsame
  obtain ⟨node, hkept, -⟩ := (hsame [js "b"] (.file 0o644 [0x79])).mpr
    ⟨_, kept_singleton.mpr ⟨.tail _ List.mem_cons_self, by decide⟩, rfl⟩
  have hname := (Prod.mk.inj (List.mem_singleton.mp (kept_singleton.mp hkept).1)).1
  exact absurd hname (by decide)

theorem repository_digest_exact_oneFile :
    ∃ digest, repositoryDigest .polynomial unitCompare oneFile = .ok digest ∧
      repositoryDigest .polynomial unitCompare twoFiles = .ok digest ∧
        ¬ (fileSizes unitCompare oneFile = fileSizes unitCompare twoFiles ∧
          TargetsReadApart oneFile twoFiles) := by
  have hiff := (repository_digest_exact consistent_unitCompare valid_oneFile valid_twoFiles
    fun _ ↦ repositoryBytes_oneFile).1 _ (repositoryDigest_oneFile .polynomial)
      (repositoryDigest_twoFiles .polynomial)
  exact ⟨_, repositoryDigest_oneFile _, repositoryDigest_twoFiles _,
    fun h ↦ not_sameTree_oneFile (hiff.mpr h)⟩

/-- The contents of a file can stand for a second file. -/
theorem contents_read_as_entries :
    ¬ ∀ (H : HashFunction 32) (localeCompare : JsString → JsString → ℤ)
      (entries entries' : Directory), Consistent localeCompare → Valid entries → Valid entries' →
        (H.digest (repositoryBytes localeCompare entries) =
          H.digest (repositoryBytes localeCompare entries') →
            repositoryBytes localeCompare entries = repositoryBytes localeCompare entries') →
        ∀ digest, repositoryDigest H localeCompare entries = .ok digest →
          repositoryDigest H localeCompare entries' = .ok digest → SameTree entries entries' := by
  intro hall
  exact not_sameTree_oneFile (hall .polynomial unitCompare oneFile twoFiles consistent_unitCompare
    valid_oneFile valid_twoFiles (fun _ ↦ repositoryBytes_oneFile) _
    (repositoryDigest_oneFile .polynomial) (repositoryDigest_twoFiles .polynomial))

end ApiMigrator.Engine.RepositoryDigest
