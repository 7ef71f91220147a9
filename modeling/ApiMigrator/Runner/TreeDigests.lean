import ApiMigrator.Runner.Filesystem

/-!
What the digests of the runner identify. Paths are rewritten before they are checked, so that a
backslash in a name stands for a directory separator: two trees can have one digest. Where no name
has a backslash, the digests identify the trees and the changed paths are exact.
-/

set_option autoImplicit false
set_option relaxedAutoImplicit false

namespace ApiMigrator.Runner.Filesystem

open Foundation.Text Foundation.Number Foundation.Json Foundation.Outcome Foundation.Pattern
open Foundation.Binary Foundation.FileTree Foundation.Framing
open App.GitTree (mapSet mem_mapSet mem_keys_mapSet nodup_keys_mapSet)
open App.Artifact (Path IsPath joinSlash pathText pathText_eq isName lastOf lastOf_eq_some)

/-! ### What trees hold -/

/-- A tree of a POSIX file system: distinct names in every directory, each of them UTF-8 without a
slash or NUL. -/
structure Valid (entries : Directory) : Prop where
  distinct : Distinct entries
  names : ∀ p node, At entries p node → ∀ name ∈ p, isName name = true ∧ isWellFormed name = true

def isExecutable (mode : ℕ) : Bool := decide (mode &&& 0o111 ≠ 0)

/-- A regular file outside Git metadata and installed dependencies. -/
def RegularAt (entries : Directory) (p : Path) (executable : Bool) (bytes : Bytes) : Prop :=
  ∃ mode links, Kept isSourceName entries p (.leaf (.file mode links bytes)) ∧
    executable = isExecutable mode

/-- What is compared of a dependency tree. -/
inductive Item
  | directory (permissions : ℕ)
  | file (permissions : ℕ) (bytes : Bytes)
  | symlink (target : Bytes)

def itemOf : Entry → Option Item
  | .directory mode _ => some (.directory (mode &&& 0o777))
  | .leaf (.file mode _ bytes) => some (.file (mode &&& 0o777) bytes)
  | .leaf (.symlink target) => some (.symlink target)
  | .leaf .special => none

def ItemAt (entries : Directory) (p : Path) (item : Item) : Prop :=
  ∃ node, At entries p node ∧ itemOf node = some item

section Statements

variable (H : HashFunction 32)

/-- What is hashed of a tree: its files and its two streams of records. -/
inductive Hashed (root : Root) : Bytes → Prop
  | content {p : Path} {mode links : ℕ} {bytes : Bytes}
      (h : At root.entries p (.leaf (.file mode links bytes))) : Hashed root bytes
  | source {entries : List (JsString × RegularTreeEntry)}
      (h : collectRegularTree H root = .ok entries) : Hashed root (regularBytes entries)
  | dependencies {records : List JsValue} (h : dependencyRecords H root = .ok records) :
    Hashed root (dependencyBytes records)

/-- No two different inputs of the hash have one digest. -/
def CollisionFree (root root' : Root) : Prop :=
  ∀ x y, Hashed H root x ∨ Hashed H root' x → Hashed H root y ∨ Hashed H root' y →
    H.digest x = H.digest y → x = y

def RegularDigestIdentifies (root root' : Root) : Prop :=
  ∀ digest, regularTreeDigest H root = .ok digest → regularTreeDigest H root' = .ok digest →
    ∀ p executable bytes,
      RegularAt root.entries p executable bytes ↔ RegularAt root'.entries p executable bytes

def DependencyDigestIdentifies (root root' : Root) : Prop :=
  ∀ digest, dependencyTreeDigest H root = .ok digest → dependencyTreeDigest H root' = .ok digest →
    ∀ p item, ItemAt root.entries p item ↔ ItemAt root'.entries p item

/-- The paths at which the trees differ, sorted. -/
def ChangedPathsExact (root root' : Root) : Prop :=
  ∀ changed, changedRegularPaths H root root' = .ok changed →
    changed.Pairwise (· ≤ ·) ∧ changed.Nodup ∧ ∀ path, path ∈ changed ↔
      ∃ p, path = joinSlash p ∧ ∃ executable bytes,
        ¬ (RegularAt root.entries p executable bytes ↔ RegularAt root'.entries p executable bytes)

end Statements

/-- No path of a regular file has a backslash. -/
def PlainFiles (entries : Directory) : Prop :=
  ∀ p executable bytes, RegularAt entries p executable bytes → ∀ name ∈ p, (0x5c : UInt16) ∉ name

/-- No name has a backslash, and every target is UTF-8. -/
structure PlainTree (entries : Directory) : Prop where
  names : ∀ p node, At entries p node → ∀ name ∈ p, (0x5c : UInt16) ∉ name
  targets : ∀ p target, At entries p (.leaf (.symlink target)) →
    utf8Encode (utf8Decode target) = target

theorem Valid.isPath {entries : Directory} (hvalid : Valid entries) {p : Path} {node : Entry}
    (h : At entries p node) : IsPath p :=
  ⟨h.ne_nil, fun name hname ↦ (hvalid.names p node h name hname).1⟩

/-! ### Maps -/

/-- Setting entries of which no two disagree keeps them all. -/
theorem mem_foldl_mapSet {α : Type} {es entries : List (JsString × α)}
    (hagree : ∀ k v v', (k, v) ∈ entries ++ es → (k, v') ∈ entries ++ es → v = v') {k : JsString}
    {v : α} : (k, v) ∈ es.foldl (fun m e ↦ mapSet m e.1 e.2) entries ↔
      (k, v) ∈ entries ∨ (k, v) ∈ es := by
  induction es generalizing entries with
  | nil => simp
  | cons e es ih =>
    obtain ⟨key, value⟩ := e
    have hkey : (key, value) ∈ entries ++ (key, value) :: es :=
      List.mem_append_right _ List.mem_cons_self
    have hset : ∀ {k v}, (k, v) ∈ mapSet entries key value ++ es →
        (k, v) ∈ entries ++ (key, value) :: es := by
      intro k v hmem
      obtain hmem | hmem := List.mem_append.mp hmem
      · obtain ⟨rfl, rfl⟩ | ⟨-, hmem⟩ := mem_mapSet.mp hmem
        · exact hkey
        · exact List.mem_append_left _ hmem
      · exact List.mem_append_right _ (List.mem_cons_of_mem _ hmem)
    rw [List.foldl_cons, ih fun k v v' h h' ↦ hagree k v v' (hset h) (hset h'), mem_mapSet,
      List.mem_cons, Prod.mk.injEq]
    constructor
    · rintro ((hnew | ⟨-, hold⟩) | hlater)
      · exact Or.inr (Or.inl hnew)
      · exact Or.inl hold
      · exact Or.inr (Or.inr hlater)
    · rintro (hold | hnew | hlater)
      · by_cases hsame : k = key
        · subst hsame
          exact Or.inl (Or.inl ⟨rfl, hagree k v value (List.mem_append_left _ hold) hkey⟩)
        · exact Or.inl (Or.inr ⟨hsame, hold⟩)
      · exact Or.inl (Or.inl hnew)
      · exact Or.inr hlater

theorem nodup_keys_foldl_mapSet {α : Type} {es entries : List (JsString × α)}
    (h : (entries.map Prod.fst).Nodup) :
    ((es.foldl (fun m e ↦ mapSet m e.1 e.2) entries).map Prod.fst).Nodup := by
  induction es generalizing entries with
  | nil => exact h
  | cons e es ih => exact ih (nodup_keys_mapSet h)

theorem key_of_foldl_mapSet {α : Type} {es entries : List (JsString × α)} {k : JsString}
    (h : k ∈ (es.foldl (fun m e ↦ mapSet m e.1 e.2) entries).map Prod.fst) :
    k ∈ entries.map Prod.fst ∨ k ∈ es.map Prod.fst := by
  induction es generalizing entries with
  | nil => exact Or.inl h
  | cons e es ih =>
    obtain hset | hlater := ih h
    · obtain rfl | hold := mem_keys_mapSet.mp hset
      · exact Or.inr List.mem_cons_self
      · exact Or.inl hold
    · exact Or.inr (List.mem_cons_of_mem _ hlater)

theorem mem_keys_foldl_mapSet {α : Type} {es entries : List (JsString × α)} {k : JsString}
    (h : k ∈ entries.map Prod.fst ∨ k ∈ es.map Prod.fst) :
    k ∈ (es.foldl (fun m e ↦ mapSet m e.1 e.2) entries).map Prod.fst := by
  induction es generalizing entries with
  | nil => exact h.resolve_right List.not_mem_nil
  | cons e es ih =>
    refine ih ?_
    rw [mem_keys_mapSet]
    obtain hold | hnew := h
    · exact Or.inl (Or.inr hold)
    · obtain rfl | hlater := List.mem_cons.mp hnew
      · exact Or.inl (Or.inl rfl)
      · exact Or.inr hlater

/-! ### Collecting source trees -/

variable {H : HashFunction 32} {root root' : Root}

/-- What a walk adds to the map. -/
def regularOf (H : HashFunction 32) (e : Path × Entry) : Option (JsString × RegularTreeEntry) :=
  match e.2 with
  | .leaf (.file mode _ bytes) =>
    some (pathText e.1, ⟨regularMode mode, bytes.length, sha256 H bytes⟩)
  | _ => none

/-- A file that is collected is not too large. -/
def SmallFile (e : Path × Entry) : Prop :=
  ∀ mode links bytes, e.2 = .leaf (.file mode links bytes) → bytes.length ≤ maxSourceFileBytes

theorem collectEntry_eq_ok {collected next : Collected} {e : Path × Entry}
    (h : collectEntry H collected e = .ok next) : SmallFile e ∧
      next.entries = (regularOf H e).elim collected.entries
        fun entry ↦ mapSet collected.entries entry.1 entry.2 := by
  obtain ⟨p, node⟩ := e
  rcases node with ⟨mode, children⟩ | (⟨mode, links, bytes⟩ | target | _)
  · simp only [collectEntry, bind_eq_ok, reject_eq_ok, exists_unit, pure_eq_ok] at h
    obtain ⟨-, -, rfl⟩ := h
    refine ⟨fun _ _ _ hfile ↦ ?_, rfl⟩
    cases hfile
  · simp only [collectEntry, bind_eq_ok, reject_eq_ok, exists_unit, pure_eq_ok, not_lt] at h
    obtain ⟨-, -, -, hsize, -, rfl⟩ := h
    refine ⟨fun _ _ _ hfile ↦ ?_, rfl⟩
    cases hfile
    exact hsize
  · simp only [collectEntry, bind_eq_ok, throw_eq_ok, and_false, exists_false] at h
  · simp only [collectEntry, bind_eq_ok, throw_eq_ok, and_false, exists_false] at h

theorem foldlM_collectEntry {es : List (Path × Entry)} {collected last : Collected}
    (h : es.foldlM (collectEntry H) collected = .ok last) : (∀ e ∈ es, SmallFile e) ∧
      last.entries = (es.filterMap (regularOf H)).foldl (fun m e ↦ mapSet m e.1 e.2)
        collected.entries := by
  induction es generalizing collected with
  | nil =>
    obtain rfl := Except.ok.inj h
    exact ⟨fun e he ↦ absurd he List.not_mem_nil, rfl⟩
  | cons e es ih =>
    rw [List.foldlM_cons, bind_eq_ok] at h
    obtain ⟨next, hnext, hlast⟩ := h
    obtain ⟨hsmall, hentries⟩ := collectEntry_eq_ok hnext
    obtain ⟨hrest, hfold⟩ := ih hlast
    refine ⟨List.forall_mem_cons.mpr ⟨hsmall, hrest⟩, ?_⟩
    rw [hfold, hentries]
    cases hregular : regularOf H e with
    | none => rw [List.filterMap_cons_none hregular]; rfl
    | some entry => rw [List.filterMap_cons_some hregular]; rfl

/-- The files of a walk, under their rewritten paths. -/
theorem mem_filterMap_regularOf {entries : Directory} {path : JsString}
    {entry : RegularTreeEntry} :
    (path, entry) ∈ (walk isSourceName compareNames [([], entries)]).filterMap (regularOf H) ↔
      ∃ p mode links bytes, Kept isSourceName entries p (.leaf (.file mode links bytes)) ∧
        path = pathText p ∧ entry = ⟨regularMode mode, bytes.length, sha256 H bytes⟩ := by
  rw [List.mem_filterMap]
  constructor
  · rintro ⟨⟨p, node⟩, hmem, hregular⟩
    rcases node with ⟨mode, children⟩ | (⟨mode, links, bytes⟩ | target | _)
    · cases hregular
    · cases hregular
      exact ⟨p, mode, links, bytes, mem_walk_root.mp hmem, rfl, rfl⟩
    · cases hregular
    · cases hregular
  · rintro ⟨p, mode, links, bytes, hkept, rfl, rfl⟩
    exact ⟨(p, .leaf (.file mode links bytes)), mem_walk_root.mpr hkept, rfl⟩

theorem RegularAt.of_kept {entries : Directory} {p : Path} {mode links : ℕ} {bytes : Bytes}
    (h : Kept isSourceName entries p (.leaf (.file mode links bytes))) :
    RegularAt entries p (isExecutable mode) bytes := ⟨mode, links, h, rfl⟩

/-- Paths without backslashes are told apart by their text. -/
theorem pathText_injective {p q : Path} (hp : IsPath p) (hq : IsPath q)
    (hplain : ∀ name ∈ p, (0x5c : UInt16) ∉ name) (hplain' : ∀ name ∈ q, (0x5c : UInt16) ∉ name)
    (h : pathText p = pathText q) : p = q := by
  rw [pathText_eq hplain, pathText_eq hplain'] at h
  exact hp.joinSlash_injective hq h

/-- What the map of a tree without backslashes says. -/
structure Collects (H : HashFunction 32) (root : Root)
    (entries : List (JsString × RegularTreeEntry)) : Prop where
  distinct : (entries.map Prod.fst).Nodup
  mem_iff : ∀ path entry, (path, entry) ∈ entries ↔
    ∃ p mode links bytes, Kept isSourceName root.entries p (.leaf (.file mode links bytes)) ∧
      path = joinSlash p ∧ entry = ⟨regularMode mode, bytes.length, sha256 H bytes⟩
  small : ∀ p mode links bytes, Kept isSourceName root.entries p (.leaf (.file mode links bytes)) →
    bytes.length ≤ maxSourceFileBytes

theorem collects (hvalid : Valid root.entries) (hplain : PlainFiles root.entries)
    {entries : List (JsString × RegularTreeEntry)}
    (h : collectRegularTree H root = .ok entries) : Collects H root entries := by
  simp only [collectRegularTree, assertCanonicalDirectory, bind_eq_ok, reject_eq_ok, exists_unit,
    pure_eq_ok] at h
  obtain ⟨-, collected, hcollected, rfl⟩ := h
  obtain ⟨hsmall, hentries⟩ := foldlM_collectEntry hcollected
  have hagree : ∀ k v v',
      (k, v) ∈ (walk isSourceName compareNames [([], root.entries)]).filterMap (regularOf H) →
      (k, v') ∈ (walk isSourceName compareNames [([], root.entries)]).filterMap (regularOf H) →
        v = v' := by
    intro k v v' hv hv'
    obtain ⟨p, mode, links, bytes, hkept, rfl, rfl⟩ := mem_filterMap_regularOf.mp hv
    obtain ⟨q, mode', links', bytes', hkept', htext, rfl⟩ := mem_filterMap_regularOf.mp hv'
    obtain rfl := pathText_injective (hvalid.isPath hkept.1) (hvalid.isPath hkept'.1)
      (hplain _ _ _ (.of_kept hkept)) (hplain _ _ _ (.of_kept hkept')) htext
    cases hkept.1.unique hvalid.distinct hkept'.1
    rfl
  refine ⟨?_, fun path entry ↦ ?_, fun p mode links bytes hkept ↦ ?_⟩
  · rw [hentries]
    exact nodup_keys_foldl_mapSet List.nodup_nil
  · rw [hentries, mem_foldl_mapSet (by simpa using hagree), mem_filterMap_regularOf]
    constructor
    · rintro (hnil | ⟨p, mode, links, bytes, hkept, rfl, rfl⟩)
      · exact absurd hnil List.not_mem_nil
      · exact ⟨p, mode, links, bytes, hkept, pathText_eq (hplain _ _ _ (.of_kept hkept)), rfl⟩
    · rintro ⟨p, mode, links, bytes, hkept, rfl, rfl⟩
      exact Or.inr ⟨p, mode, links, bytes, hkept,
        (pathText_eq (hplain _ _ _ (.of_kept hkept))).symm, rfl⟩
  · exact hsmall _ (mem_walk_root.mpr hkept) mode links bytes rfl

/-! ### Source tree digests -/

theorem sha256_injective {x y : Bytes} (h : sha256 H x = sha256 H y) : H.digest x = H.digest y :=
  hexText_injective (List.append_cancel_left h)

theorem isExecutable_of_regularMode {mode mode' : ℕ} (h : regularMode mode = regularMode mode') :
    isExecutable mode = isExecutable mode' := by
  unfold regularMode at h
  unfold isExecutable
  split_ifs at h with hmode hmode' hmode'
  · rw [hmode, hmode']
  · exact absurd h (by decide)
  · exact absurd h (by decide)
  · rw [decide_eq_true hmode, decide_eq_true hmode']

theorem regularMode_of_isExecutable {mode mode' : ℕ} (h : isExecutable mode = isExecutable mode') :
    regularMode mode = regularMode mode' := by
  have hiff : mode &&& 0o111 = 0 ↔ mode' &&& 0o111 = 0 :=
    not_iff_not.mp (decide_eq_decide.mp h)
  rw [regularMode, regularMode]
  simp only [hiff]

theorem isSafe_natCast {n : ℕ} (h : n ≤ 0x20000000) : isSafe (n : ℤ) = true := by
  rw [isSafe, decide_eq_true_eq, maxSafeInteger]
  omega

theorem plain_regularRecord {entries : List (JsString × RegularTreeEntry)}
    (hcollects : Collects H root entries) {e : JsString × RegularTreeEntry} (he : e ∈ entries) :
    Plain (regularRecord e) := by
  obtain ⟨p, mode, links, bytes, hkept, -, hentry⟩ := (hcollects.mem_iff e.1 e.2).mp he
  have hmode : regularMode mode ≤ 0x20000000 := by
    unfold regularMode
    split_ifs <;> decide
  have hsize : bytes.length ≤ 0x20000000 :=
    (hcollects.small p mode links bytes hkept).trans (by decide)
  refine .arr ?_
  rw [hentry]
  simp only [List.forall_mem_cons, List.not_mem_nil, false_implies, implies_true, and_true]
  exact ⟨.str _, .num (isSafe_natCast hmode), .num (isSafe_natCast hsize), .str _⟩

theorem regularRecord_injective : Function.Injective regularRecord := by
  rintro ⟨path, mode, size, digest⟩ ⟨path', mode', size', digest'⟩ h
  simp only [regularRecord, JsValue.arr.injEq, List.cons.injEq, JsValue.str.injEq,
    JsValue.num.injEq, JsNumber.int.injEq, Nat.cast_inj, and_true] at h
  obtain ⟨rfl, rfl, rfl, rfl⟩ := h
  rfl

theorem regularBytes_injective {entries entries' : List (JsString × RegularTreeEntry)}
    (hcollects : Collects H root entries) (hcollects' : Collects H root' entries')
    (h : regularBytes entries = regularBytes entries') : entries = entries' := by
  have hrecords := (List.cons.inj (List.append_cancel_left h)).2
  refine List.map_injective_iff.mpr regularRecord_injective (records_injective ?_ ?_ hrecords)
  · exact List.forall_mem_map.mpr fun e he ↦ plain_regularRecord hcollects he
  · exact List.forall_mem_map.mpr fun e he ↦ plain_regularRecord hcollects' he

theorem regularTreeDigest_eq_ok {digest : JsString} : regularTreeDigest H root = .ok digest ↔
    ∃ entries, collectRegularTree H root = .ok entries ∧
      sha256 H (regularBytes entries) = digest := by
  simp only [regularTreeDigest, regularTreeDigestExcluding, bind_eq_ok, reject_eq_ok,
    forEach_eq_ok, exists_unit, pure_eq_ok, List.nodup_nil, not_true_eq_false, not_false_eq_true,
    List.not_mem_nil, false_implies, implies_true, true_and, decide_true, List.filter_true]

section Compared

variable {entries entries' : List (JsString × RegularTreeEntry)} {p : Path} {executable : Bool}
  {bytes : Bytes}

/-- Where the second map has the entry of the first, the second tree has the file of the first. -/
theorem regularAt_of_mem (hvalid : Valid root.entries) (hvalid' : Valid root'.entries)
    (hfree : CollisionFree H root root') (hcollects : Collects H root entries)
    (hcollects' : Collects H root' entries')
    (hmem : ∀ e, (joinSlash p, e) ∈ entries → (joinSlash p, e) ∈ entries')
    (h : RegularAt root.entries p executable bytes) :
    RegularAt root'.entries p executable bytes := by
  obtain ⟨mode, links, hkept, rfl⟩ := h
  have hentry := hmem _ ((hcollects.mem_iff _ _).mpr ⟨p, mode, links, bytes, hkept, rfl, rfl⟩)
  obtain ⟨q, mode', links', bytes', hkept', htext, hsame⟩ := (hcollects'.mem_iff _ _).mp hentry
  obtain rfl := (hvalid.isPath hkept.1).joinSlash_injective (hvalid'.isPath hkept'.1) htext
  obtain ⟨hmode, -, hdigest⟩ := RegularTreeEntry.mk.inj hsame
  obtain rfl := hfree bytes bytes' (Or.inl (.content hkept.1)) (Or.inr (.content hkept'.1))
    (sha256_injective hdigest)
  exact ⟨mode', links', hkept', isExecutable_of_regularMode hmode⟩

theorem mem_of_regularAt (hvalid : Valid root.entries) (hcollects : Collects H root entries)
    (hcollects' : Collects H root' entries') (hp : IsPath p)
    (hregular : ∀ executable bytes, RegularAt root.entries p executable bytes →
      RegularAt root'.entries p executable bytes)
    {e : RegularTreeEntry} (h : (joinSlash p, e) ∈ entries) : (joinSlash p, e) ∈ entries' := by
  obtain ⟨q, mode, links, bytes, hkept, htext, rfl⟩ := (hcollects.mem_iff _ _).mp h
  obtain rfl := hp.joinSlash_injective (hvalid.isPath hkept.1) htext
  obtain ⟨mode', links', hkept', hexecutable⟩ := hregular _ _ (.of_kept hkept)
  rw [regularMode_of_isExecutable hexecutable]
  exact (hcollects'.mem_iff _ _).mpr ⟨p, mode', links', bytes, hkept', rfl, rfl⟩

end Compared

/-- The digest of source trees tells their regular files apart. -/
theorem regularDigestIdentifies (hvalid : Valid root.entries) (hvalid' : Valid root'.entries)
    (hplain : PlainFiles root.entries) (hplain' : PlainFiles root'.entries)
    (hfree : CollisionFree H root root') : RegularDigestIdentifies H root root' := by
  intro digest h h' p executable bytes
  obtain ⟨entries, hcollect, hdigest⟩ := regularTreeDigest_eq_ok.mp h
  obtain ⟨entries', hcollect', hdigest'⟩ := regularTreeDigest_eq_ok.mp h'
  have hcollects := collects hvalid hplain hcollect
  have hcollects' := collects hvalid' hplain' hcollect'
  have hbytes := hfree _ _ (Or.inl (.source hcollect)) (Or.inr (.source hcollect'))
    (sha256_injective (hdigest.trans hdigest'.symm))
  obtain rfl := regularBytes_injective hcollects hcollects' hbytes
  have hfree' : CollisionFree H root' root := fun x y hx hy ↦ hfree x y hx.symm hy.symm
  exact ⟨regularAt_of_mem hvalid hvalid' hfree hcollects hcollects' fun _ ↦ id,
    regularAt_of_mem hvalid' hvalid hfree' hcollects' hcollects fun _ ↦ id⟩

/-! ### Changed paths -/

theorem sameRegularEntry_eq_true {a b : Option RegularTreeEntry} :
    sameRegularEntry a b = true ↔ a = b := by
  rw [sameRegularEntry, decide_eq_true_eq]
  constructor
  · rintro ⟨hmode, hsize, hdigest⟩
    cases a with
    | none =>
      cases b with
      | none => rfl
      | some b => cases hmode
    | some a =>
      cases b with
      | none => cases hmode
      | some b =>
        obtain ⟨mode, size, digest⟩ := a
        obtain rfl := Option.some.inj hmode
        obtain rfl := Option.some.inj hsize
        obtain rfl := Option.some.inj hdigest
        rfl
  · rintro rfl
    exact ⟨rfl, rfl, rfl⟩

/-- The changed paths of trees without backslashes are exact. -/
theorem changedPathsExact (hvalid : Valid root.entries) (hvalid' : Valid root'.entries)
    (hplain : PlainFiles root.entries) (hplain' : PlainFiles root'.entries)
    (hfree : CollisionFree H root root') : ChangedPathsExact H root root' := by
  intro changed h
  simp only [changedRegularPaths, bind_eq_ok, pure_eq_ok] at h
  obtain ⟨entries, hcollect, entries', hcollect', rfl⟩ := h
  have hcollects := collects hvalid hplain hcollect
  have hcollects' := collects hvalid' hplain' hcollect'
  have hfree' : CollisionFree H root' root := fun x y hx hy ↦ hfree x y hx.symm hy.symm
  refine ⟨List.pairwise_insertionSort _ _, ?_, fun path ↦ ?_⟩
  · exact (List.perm_insertionSort _ _).nodup_iff.mpr ((List.nodup_dedup _).filter _)
  have hsame : lastOf entries path = lastOf entries' path ↔
      ∀ e, (path, e) ∈ entries ↔ (path, e) ∈ entries' := by
    rw [Option.ext_iff]
    exact forall_congr' fun e ↦ by
      rw [lastOf_eq_some hcollects.distinct, lastOf_eq_some hcollects'.distinct]
  rw [List.mem_insertionSort, List.mem_filter, List.mem_dedup, List.mem_append,
    Bool.not_eq_true', ← Bool.not_eq_true, sameRegularEntry_eq_true, hsame]
  constructor
  · rintro ⟨hkey, hne⟩
    have hpath : ∃ p, IsPath p ∧ path = joinSlash p := by
      obtain hkey | hkey := hkey
      · obtain ⟨⟨_, e⟩, he, rfl⟩ := List.mem_map.mp hkey
        obtain ⟨p, mode, links, bytes, hkept, hpath, -⟩ := (hcollects.mem_iff _ e).mp he
        exact ⟨p, hvalid.isPath hkept.1, hpath⟩
      · obtain ⟨⟨_, e⟩, he, rfl⟩ := List.mem_map.mp hkey
        obtain ⟨p, mode, links, bytes, hkept, hpath, -⟩ := (hcollects'.mem_iff _ e).mp he
        exact ⟨p, hvalid'.isPath hkept.1, hpath⟩
    obtain ⟨p, hp, rfl⟩ := hpath
    refine ⟨p, rfl, ?_⟩
    by_contra hagree
    simp only [not_exists, not_not] at hagree
    refine hne fun e ↦ ⟨?_, ?_⟩
    · exact mem_of_regularAt hvalid hcollects hcollects' hp fun x b ↦ (hagree x b).mp
    · exact mem_of_regularAt hvalid' hcollects' hcollects hp fun x b ↦ (hagree x b).mpr
  · rintro ⟨p, rfl, executable, bytes, hdiffer⟩
    have hne : ¬ ∀ e, (joinSlash p, e) ∈ entries ↔ (joinSlash p, e) ∈ entries' := fun hmem ↦
      hdiffer
        ⟨regularAt_of_mem hvalid hvalid' hfree hcollects hcollects' fun e ↦ (hmem e).mp,
          regularAt_of_mem hvalid' hvalid hfree' hcollects' hcollects fun e ↦ (hmem e).mpr⟩
    refine ⟨?_, hne⟩
    by_contra hkey
    refine hne fun e ↦ ?_
    constructor
    · intro he
      exact absurd (Or.inl (List.mem_map_of_mem he)) hkey
    · intro he
      exact absurd (Or.inr (List.mem_map_of_mem he)) hkey

/-! ### Dependency tree digests -/

/-- The record of an entry. -/
def recordOf (H : HashFunction 32) (e : Path × Entry) : JsValue :=
  match e.2 with
  | .directory mode _ =>
    .arr [.str (js "directory"), .str (pathText e.1), .num (.int (mode &&& 0o777 : ℕ))]
  | .leaf (.file mode _ bytes) =>
    .arr [.str (js "file"), .str (pathText e.1), .num (.int (mode &&& 0o777 : ℕ)),
      .num (.int bytes.length), .str (sha256 H bytes)]
  | .leaf (.symlink target) =>
    .arr [.str (js "symlink"), .str (pathText e.1), .str (utf8Decode target)]
  | .leaf .special => .null

theorem sealEntry_eq_ok {done next : Sealed} {e : Path × Entry}
    (h : sealEntry H root done e = .ok next) :
    SmallFile e ∧ next.records = done.records ++ [recordOf H e] := by
  obtain ⟨p, node⟩ := e
  rcases node with ⟨mode, children⟩ | (⟨mode, links, bytes⟩ | target | _)
  · simp only [sealEntry, bind_eq_ok, reject_eq_ok, exists_unit, pure_eq_ok] at h
    obtain ⟨-, -, -, rfl⟩ := h
    refine ⟨fun _ _ _ hfile ↦ ?_, rfl⟩
    cases hfile
  · simp only [sealEntry, bind_eq_ok, reject_eq_ok, exists_unit, pure_eq_ok, not_or,
      not_lt] at h
    obtain ⟨-, -, -, -, ⟨hsize, -⟩, rfl⟩ := h
    refine ⟨fun _ _ _ hfile ↦ ?_, rfl⟩
    cases hfile
    exact hsize
  · simp only [sealEntry, bind_eq_ok, reject_eq_ok, exists_unit, pure_eq_ok] at h
    obtain ⟨-, -, -, -, -, -, rfl⟩ := h
    refine ⟨fun _ _ _ hfile ↦ ?_, rfl⟩
    cases hfile
  · simp only [sealEntry, bind_eq_ok, throw_eq_ok, and_false, exists_false] at h

theorem foldlM_sealEntry {es : List (Path × Entry)} {done last : Sealed}
    (h : es.foldlM (sealEntry H root) done = .ok last) :
    (∀ e ∈ es, SmallFile e) ∧ last.records = done.records ++ es.map (recordOf H) := by
  induction es generalizing done with
  | nil =>
    obtain rfl := Except.ok.inj h
    exact ⟨fun e he ↦ absurd he List.not_mem_nil, (List.append_nil _).symm⟩
  | cons e es ih =>
    rw [List.foldlM_cons, bind_eq_ok] at h
    obtain ⟨next, hnext, hlast⟩ := h
    obtain ⟨hsmall, hrecords⟩ := sealEntry_eq_ok hnext
    obtain ⟨hrest, hfold⟩ := ih hlast
    refine ⟨List.forall_mem_cons.mpr ⟨hsmall, hrest⟩, ?_⟩
    rw [hfold, hrecords, List.append_assoc, List.singleton_append, List.map_cons]

theorem plain_recordOf {e : Path × Entry} (h : SmallFile e) : Plain (recordOf H e) := by
  have hmode : ∀ mode, (mode &&& 0o777 : ℕ) ≤ 0x20000000 := fun mode ↦
    Nat.and_le_right.trans (by decide)
  obtain ⟨p, node⟩ := e
  rcases node with ⟨mode, children⟩ | (⟨mode, links, bytes⟩ | target | _)
  · refine .arr ?_
    simp only [List.forall_mem_cons, List.not_mem_nil, false_implies, implies_true, and_true]
    exact ⟨.str _, .str _, .num (isSafe_natCast (hmode mode))⟩
  · refine .arr ?_
    simp only [List.forall_mem_cons, List.not_mem_nil, false_implies, implies_true, and_true]
    exact ⟨.str _, .str _, .num (isSafe_natCast (hmode mode)),
      .num (isSafe_natCast ((h mode links bytes rfl).trans (by decide))), .str _⟩
  · refine .arr ?_
    simp only [List.forall_mem_cons, List.not_mem_nil, false_implies, implies_true, and_true]
    exact ⟨.str _, .str _, .str _⟩
  · exact .null

theorem dependencyTreeDigest_eq_ok {digest : JsString}
    (h : dependencyTreeDigest H root = .ok digest) : ∃ records,
      dependencyRecords H root = .ok records ∧ sha256 H (dependencyBytes records) = digest ∧
        records = (walk (fun _ ↦ true) compareNames [([], root.entries)]).map (recordOf H) ∧
          ∀ v ∈ records, Plain v := by
  simp only [dependencyTreeDigest, bind_eq_ok, pure_eq_ok] at h
  obtain ⟨records, hrecords, hdigest⟩ := h
  refine ⟨records, hrecords, hdigest, ?_⟩
  simp only [dependencyRecords, assertCanonicalDirectory, bind_eq_ok, reject_eq_ok, exists_unit,
    pure_eq_ok] at hrecords
  obtain ⟨-, last, hlast, rfl⟩ := hrecords
  obtain ⟨hsmall, heq⟩ := foldlM_sealEntry hlast
  rw [List.nil_append] at heq
  refine ⟨heq, ?_⟩
  rw [heq]
  exact List.forall_mem_map.mpr fun e he ↦ plain_recordOf (hsmall e he)

/-- A walk that keeps every name meets every node. -/
theorem mem_walk_all {entries : Directory} {p : Path} {node : Entry} :
    (p, node) ∈ walk (fun _ ↦ true) compareNames [([], entries)] ↔ At entries p node :=
  mem_walk_root.trans ⟨And.left, fun h ↦ ⟨h, fun _ _ ↦ rfl⟩⟩

/-- Entries with one record are one item at one path. -/
theorem itemOf_of_recordOf (hvalid : Valid root.entries) (hvalid' : Valid root'.entries)
    (hplain : PlainTree root.entries) (hplain' : PlainTree root'.entries)
    (hfree : CollisionFree H root root') {p q : Path} {node node' : Entry} {item : Item}
    (hat : At root.entries p node) (hat' : At root'.entries q node')
    (h : recordOf H (p, node) = recordOf H (q, node')) (hitem : itemOf node = some item) :
    p = q ∧ itemOf node' = some item := by
  have hpath : pathText p = pathText q → p = q :=
    pathText_injective (hvalid.isPath hat) (hvalid'.isPath hat') (hplain.names p node hat)
      (hplain'.names q node' hat')
  have hdirectory : js "directory" ≠ js "file" ∧ js "directory" ≠ js "symlink" ∧
      js "file" ≠ js "symlink" := by decide
  rcases node with ⟨mode, children⟩ | (⟨mode, links, bytes⟩ | target | _) <;>
    rcases node' with ⟨mode', children'⟩ | (⟨mode', links', bytes'⟩ | target' | _) <;>
    simp only [recordOf, JsValue.arr.injEq, List.cons.injEq, JsValue.str.injEq, JsValue.num.injEq,
      JsNumber.int.injEq, Nat.cast_inj, reduceCtorEq, and_true, and_false, hdirectory.1,
      hdirectory.2.1, hdirectory.2.2, hdirectory.1.symm, hdirectory.2.1.symm,
      hdirectory.2.2.symm, true_and] at h
  · obtain ⟨htext, hmode⟩ := h
    exact ⟨hpath htext, by rw [← hitem, itemOf, itemOf, hmode]⟩
  · obtain ⟨htext, hmode, -, hdigest⟩ := h
    obtain rfl := hfree bytes bytes' (Or.inl (.content hat)) (Or.inr (.content hat'))
      (sha256_injective hdigest)
    exact ⟨hpath htext, by rw [← hitem, itemOf, itemOf, hmode]⟩
  · obtain ⟨htext, htarget⟩ := h
    have hsame : target = target' := by
      rw [← hplain.targets p target hat, htarget, hplain'.targets q target' hat']
    subst hsame
    exact ⟨hpath htext, hitem⟩
  · cases hitem

theorem itemAt_of_records (hvalid : Valid root.entries) (hvalid' : Valid root'.entries)
    (hplain : PlainTree root.entries) (hplain' : PlainTree root'.entries)
    (hfree : CollisionFree H root root')
    (hsame : (walk (fun _ ↦ true) compareNames [([], root.entries)]).map (recordOf H) =
      (walk (fun _ ↦ true) compareNames [([], root'.entries)]).map (recordOf H))
    {p : Path} {item : Item} (h : ItemAt root.entries p item) : ItemAt root'.entries p item := by
  obtain ⟨node, hat, hitem⟩ := h
  have hmem : recordOf H (p, node) ∈
      (walk (fun _ ↦ true) compareNames [([], root.entries)]).map (recordOf H) :=
    List.mem_map_of_mem (mem_walk_all.mpr hat)
  rw [hsame] at hmem
  obtain ⟨⟨q, node'⟩, hmem', hrecord⟩ := List.mem_map.mp hmem
  have hat' := mem_walk_all.mp hmem'
  obtain ⟨rfl, hitem'⟩ :=
    itemOf_of_recordOf hvalid hvalid' hplain hplain' hfree hat hat' hrecord.symm hitem
  exact ⟨node', hat', hitem'⟩

/-- The digest of dependency trees tells their entries apart. -/
theorem dependencyDigestIdentifies (hvalid : Valid root.entries) (hvalid' : Valid root'.entries)
    (hplain : PlainTree root.entries) (hplain' : PlainTree root'.entries)
    (hfree : CollisionFree H root root') : DependencyDigestIdentifies H root root' := by
  intro digest h h' p item
  obtain ⟨records, hrecords, hdigest, heq, hall⟩ := dependencyTreeDigest_eq_ok h
  obtain ⟨records', hrecords', hdigest', heq', hall'⟩ := dependencyTreeDigest_eq_ok h'
  have hbytes := hfree _ _ (Or.inl (.dependencies hrecords)) (Or.inr (.dependencies hrecords'))
    (sha256_injective (hdigest.trans hdigest'.symm))
  have hsame := records_injective hall hall' (List.cons.inj (List.append_cancel_left hbytes)).2
  rw [heq, heq'] at hsame
  have hfree' : CollisionFree H root' root := fun x y hx hy ↦ hfree x y hx.symm hy.symm
  exact ⟨itemAt_of_records hvalid hvalid' hplain hplain' hfree hsame,
    itemAt_of_records hvalid' hvalid hplain' hplain hfree' hsame.symm⟩

/-! ### Backslashes -/

/-- A canonical directory that is empty. -/
def emptyRoot (root : Root) : Root := { root with isCanonical := true, entries := [] }

theorem collectRegularTree_emptyRoot : collectRegularTree H (emptyRoot root) = .ok [] := by
  simp [collectRegularTree, assertCanonicalDirectory, emptyRoot, walk, readDirectory, reject]

theorem notMem_pathText (p : Path) : (0x5c : UInt16) ∉ pathText p := by
  intro h
  obtain ⟨c, -, hc⟩ := List.mem_map.mp h
  split_ifs at hc with hslash
  · exact absurd hc (by decide)
  · exact hslash hc

theorem mem_joinSlash_of_mem {p : Path} {name : JsString} {c : UInt16} (hname : name ∈ p)
    (hc : c ∈ name) : c ∈ joinSlash p := by
  induction p with
  | nil => exact absurd hname List.not_mem_nil
  | cons first rest ih =>
    cases rest with
    | nil =>
      obtain rfl := List.mem_singleton.mp hname
      rwa [joinSlash, List.intercalate_singleton]
    | cons next rest =>
      rw [joinSlash, List.intercalate_cons_cons, List.append_assoc]
      obtain rfl | hname := List.mem_cons.mp hname
      · exact List.mem_append_left _ hc
      · exact List.mem_append_right _ (List.mem_append_right _ (ih hname))

/-- A file whose path has a backslash is missing from the changed paths. -/
theorem not_changedPathsExact {entries : List (JsString × RegularTreeEntry)}
    (hcollect : collectRegularTree H root = .ok entries) (hplain : ¬ PlainFiles root.entries) :
    ¬ ChangedPathsExact H root (emptyRoot root) := by
  intro hexact
  simp only [PlainFiles, not_forall, not_not] at hplain
  obtain ⟨p, executable, bytes, hregular, name, hname, hbackslash⟩ := hplain
  have hchanged := hexact _ (by rw [changedRegularPaths, hcollect, collectRegularTree_emptyRoot]; rfl)
  have hempty : ¬ RegularAt (emptyRoot root).entries p executable bytes := by
    rintro ⟨mode, links, ⟨hat, -⟩, -⟩
    cases hat with
    | here hmem => exact absurd hmem List.not_mem_nil
    | inside hmem _ => exact absurd hmem List.not_mem_nil
  have hmem := (hchanged.2.2 (joinSlash p)).mpr
    ⟨p, rfl, executable, bytes, fun hiff ↦ hempty (hiff.mp hregular)⟩
  rw [List.mem_insertionSort, List.mem_filter, List.mem_dedup, List.map_nil, List.append_nil] at hmem
  obtain ⟨⟨path, entry⟩, hentry, hpath⟩ := List.mem_map.mp hmem.1
  simp only [collectRegularTree, assertCanonicalDirectory, bind_eq_ok, reject_eq_ok, exists_unit,
    pure_eq_ok] at hcollect
  obtain ⟨-, collected, hcollected, rfl⟩ := hcollect
  have hkey : path ∈ collected.entries.map Prod.fst := List.mem_map_of_mem hentry
  rw [(foldlM_collectEntry hcollected).2] at hkey
  obtain hnil | hkey := key_of_foldl_mapSet hkey
  · exact absurd hnil List.not_mem_nil
  obtain ⟨⟨_, e⟩, he, rfl⟩ := List.mem_map.mp hkey
  obtain ⟨q, mode, links, bytes', -, hq, -⟩ := mem_filterMap_regularOf.mp he
  have htext : pathText q = joinSlash p := hq.symm.trans hpath
  exact notMem_pathText q (htext ▸ mem_joinSlash_of_mem hname hbackslash)

/-- **Tree digests.** Where no path has a backslash, and every target is UTF-8, the digests of
source trees and of dependency trees identify what they are taken of, and the changed paths are the
paths at which the source trees differ. A file whose path has a backslash is never among them. -/
theorem tree_digests_identify (hvalid : Valid root.entries) (hvalid' : Valid root'.entries)
    (hfree : CollisionFree H root root') :
    (PlainFiles root.entries → PlainFiles root'.entries →
      RegularDigestIdentifies H root root' ∧ ChangedPathsExact H root root') ∧
    (PlainTree root.entries → PlainTree root'.entries → DependencyDigestIdentifies H root root') ∧
    ∀ entries, collectRegularTree H root = .ok entries → ¬ PlainFiles root.entries →
      ¬ ChangedPathsExact H root (emptyRoot root) := by
  refine ⟨fun hplain hplain' ↦ ⟨?_, ?_⟩, fun hplain hplain' ↦ ?_, fun entries hcollect hplain ↦ ?_⟩
  · exact regularDigestIdentifies hvalid hvalid' hplain hplain' hfree
  · exact changedPathsExact hvalid hvalid' hplain hplain' hfree
  · exact dependencyDigestIdentifies hvalid hvalid' hplain hplain' hfree
  · exact not_changedPathsExact hcollect hplain

/-! ### Two trees with one digest -/

def sampleFile : Entry := .leaf (.file 0o644 1 [0x78])

/-- A file `b` in a directory `a`. -/
def nestedRoot : Root where
  path := [js "work"]
  isCanonical := true
  entries := [(js "a", .directory 0o755 [(js "b", sampleFile)])]
  existsSync := fun _ ↦ true

/-- A file whose name is `a`, a backslash and `b`. -/
def backslashRoot : Root :=
  { nestedRoot with entries := [([0x61, 0x5c, 0x62], sampleFile)] }

/-- The map of both. -/
def sampleEntries : List (JsString × RegularTreeEntry) :=
  [(js "a/b", ⟨0o100644, 1, sha256 .polynomial [0x78]⟩)]

def sampleRecord : JsValue :=
  .arr [.str (js "file"), .str (js "a/b"), .num (.int 420), .num (.int 1),
    .str (sha256 .polynomial [0x78])]

def sampleDirectory : JsValue :=
  .arr [.str (js "directory"), .str (js "a"), .num (.int 493)]

theorem walk_nestedRoot {keep : JsString → Bool} (ha : keep (js "a") = true)
    (hb : keep (js "b") = true) : walk keep compareNames [([], nestedRoot.entries)] =
      [([js "a"], .directory 0o755 [(js "b", sampleFile)]), ([js "a", js "b"], sampleFile)] := by
  refine (walk_directory ha).trans ?_
  rw [sampleFile, walk_leaf hb]
  rfl

theorem walk_backslashRoot {keep : JsString → Bool} (h : keep [0x61, 0x5c, 0x62] = true) :
    walk keep compareNames [([], backslashRoot.entries)] = [([[0x61, 0x5c, 0x62]], sampleFile)] :=
  walk_leaf h

theorem collect_nestedRoot : collectRegularTree .polynomial nestedRoot = .ok sampleEntries := by
  rw [collectRegularTree, walk_nestedRoot (by decide) (by decide)]
  rfl

theorem collect_backslashRoot :
    collectRegularTree .polynomial backslashRoot = .ok sampleEntries := by
  rw [collectRegularTree, walk_backslashRoot (by decide)]
  rfl

theorem records_nestedRoot :
    dependencyRecords .polynomial nestedRoot = .ok [sampleDirectory, sampleRecord] := by
  rw [dependencyRecords, walk_nestedRoot rfl rfl]
  rfl

theorem records_backslashRoot :
    dependencyRecords .polynomial backslashRoot = .ok [sampleRecord] := by
  rw [dependencyRecords, walk_backslashRoot rfl]
  rfl

theorem at_nestedRoot {p : Path} {node : Entry} (h : At nestedRoot.entries p node) :
    p = [js "a"] ∧ node = .directory 0o755 [(js "b", sampleFile)] ∨
      p = [js "a", js "b"] ∧ node = sampleFile := by
  cases h with
  | here hmem =>
    cases List.mem_singleton.mp hmem
    exact Or.inl ⟨rfl, rfl⟩
  | inside hmem hbelow =>
    cases List.mem_singleton.mp hmem
    cases hbelow with
    | here hmem =>
      cases List.mem_singleton.mp hmem
      exact Or.inr ⟨rfl, rfl⟩
    | inside hmem _ => cases List.mem_singleton.mp hmem

theorem at_backslashRoot {p : Path} {node : Entry} (h : At backslashRoot.entries p node) :
    p = [[0x61, 0x5c, 0x62]] ∧ node = sampleFile := by
  cases h with
  | here hmem =>
    cases List.mem_singleton.mp hmem
    exact ⟨rfl, rfl⟩
  | inside hmem _ => cases List.mem_singleton.mp hmem

theorem valid_nestedRoot : Valid nestedRoot.entries := by
  have hchildren : Distinct ([(js "b", sampleFile)] : Directory) := by
    refine .mk (List.nodup_singleton _) fun name data children hmem ↦ ?_
    cases List.mem_singleton.mp hmem
  refine ⟨.mk (List.nodup_singleton _) fun name data children hmem ↦ ?_, fun p node hat ↦ ?_⟩
  · cases List.mem_singleton.mp hmem
    exact hchildren
  · obtain ⟨rfl, -⟩ | ⟨rfl, -⟩ := at_nestedRoot hat
    · exact List.forall_mem_singleton.mpr (by decide)
    · exact List.forall_mem_cons.mpr ⟨by decide, List.forall_mem_singleton.mpr (by decide)⟩

theorem valid_backslashRoot : Valid backslashRoot.entries := by
  refine ⟨.mk (List.nodup_singleton _) fun name data children hmem ↦ ?_, fun p node hat ↦ ?_⟩
  · cases List.mem_singleton.mp hmem
  · obtain ⟨rfl, -⟩ := at_backslashRoot hat
    exact List.forall_mem_singleton.mpr (by decide)

/-- All that is hashed of the two trees. -/
def sampleHashed : List Bytes :=
  [[0x78], regularBytes sampleEntries, dependencyBytes [sampleDirectory, sampleRecord],
    dependencyBytes [sampleRecord]]

theorem mem_sampleHashed {x : Bytes}
    (h : Hashed .polynomial backslashRoot x ∨ Hashed .polynomial nestedRoot x) :
    x ∈ sampleHashed := by
  obtain h | h := h
  · cases h with
    | content hat =>
      cases (at_backslashRoot hat).2
      exact List.mem_cons_self
    | source hcollect =>
      cases collect_backslashRoot.symm.trans hcollect
      exact .tail _ List.mem_cons_self
    | dependencies hrecords =>
      cases records_backslashRoot.symm.trans hrecords
      exact .tail _ (.tail _ (.tail _ List.mem_cons_self))
  · cases h with
    | content hat =>
      obtain ⟨-, hnode⟩ | ⟨-, hnode⟩ := at_nestedRoot hat
      · cases hnode
      · cases hnode
        exact List.mem_cons_self
    | source hcollect =>
      cases collect_nestedRoot.symm.trans hcollect
      exact .tail _ List.mem_cons_self
    | dependencies hrecords =>
      cases records_nestedRoot.symm.trans hrecords
      exact .tail _ (.tail _ List.mem_cons_self)

theorem eq_of_sampleHashed : ∀ x ∈ sampleHashed, ∀ y ∈ sampleHashed,
    HashFunction.polynomial.digest x = HashFunction.polynomial.digest y → x = y := by
  have hnodup : (sampleHashed.map HashFunction.polynomial.digest).Nodup := by decide +kernel
  exact fun x hx y hy h ↦ List.inj_on_of_nodup_map hnodup hx hy h

theorem tree_digests_identify_nested :
    RegularDigestIdentifies .polynomial nestedRoot nestedRoot ∧
      ChangedPathsExact .polynomial nestedRoot nestedRoot ∧
        DependencyDigestIdentifies .polynomial nestedRoot nestedRoot := by
  have hnames : ∀ p node, At nestedRoot.entries p node → ∀ name ∈ p, (0x5c : UInt16) ∉ name := by
    intro p node hat
    obtain ⟨rfl, -⟩ | ⟨rfl, -⟩ := at_nestedRoot hat
    · exact List.forall_mem_singleton.mpr (by decide)
    · exact List.forall_mem_cons.mpr ⟨by decide, List.forall_mem_singleton.mpr (by decide)⟩
  have hfree : CollisionFree .polynomial nestedRoot nestedRoot := fun x y hx hy ↦
    eq_of_sampleHashed x (mem_sampleHashed (Or.inr (or_self_iff.mp hx))) y
      (mem_sampleHashed (Or.inr (or_self_iff.mp hy)))
  have hfiles : PlainFiles nestedRoot.entries := by
    rintro p executable bytes ⟨mode, links, hkept, -⟩
    exact hnames p _ hkept.1
  have htree : PlainTree nestedRoot.entries := by
    refine ⟨hnames, fun p target hat ↦ ?_⟩
    obtain ⟨-, hnode⟩ | ⟨-, hnode⟩ := at_nestedRoot hat <;> cases hnode
  obtain ⟨hsource, hdependencies, -⟩ :=
    tree_digests_identify valid_nestedRoot valid_nestedRoot hfree
  exact ⟨(hsource hfiles hfiles).1, (hsource hfiles hfiles).2, hdependencies htree htree⟩

/-- A backslash in a name is read as a separator: two trees have one digest and no changed path. -/
theorem backslash_trees_not_told_apart :
    ¬ ∀ (H : HashFunction 32) (root root' : Root), Valid root.entries → Valid root'.entries →
      CollisionFree H root root' → RegularDigestIdentifies H root root' ∧
        DependencyDigestIdentifies H root root' ∧ ChangedPathsExact H root root' := by
  intro hall
  have hfree : CollisionFree .polynomial backslashRoot nestedRoot := fun x y hx hy ↦
    eq_of_sampleHashed x (mem_sampleHashed hx) y (mem_sampleHashed hy)
  obtain ⟨hidentifies, -, -⟩ := hall .polynomial backslashRoot nestedRoot valid_backslashRoot
    valid_nestedRoot hfree
  have hfile : RegularAt backslashRoot.entries [[0x61, 0x5c, 0x62]] false [0x78] :=
    ⟨0o644, 1, ⟨.here List.mem_cons_self, List.forall_mem_singleton.mpr (by decide)⟩, by decide⟩
  obtain ⟨mode, links, hkept, -⟩ := (hidentifies _
    (regularTreeDigest_eq_ok.mpr ⟨_, collect_backslashRoot, rfl⟩)
    (regularTreeDigest_eq_ok.mpr ⟨_, collect_nestedRoot, rfl⟩) _ _ _).mp hfile
  obtain ⟨hp, -⟩ | ⟨hp, -⟩ := at_nestedRoot hkept.1
  · exact absurd hp (by decide)
  · exact absurd hp (by decide)

end ApiMigrator.Runner.Filesystem
