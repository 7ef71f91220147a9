import ApiMigrator.Runner.TreeDigests

/-!
Where the symlinks of a sealed dependency tree lead. `dependencyTreeDigest` resolves a target by its
text, the kernel by following links as it meets them: a `..` after a link can leave the tree. Where
every `..` of a target is taken from a real directory of the tree, and nothing but a directory is
followed by a last slash, every symlink ends inside.
-/

set_option autoImplicit false
set_option relaxedAutoImplicit false

namespace ApiMigrator.Runner.Filesystem

open Foundation.Text Foundation.Number Foundation.Json Foundation.Outcome Foundation.Pattern
open Foundation.Binary Foundation.FileTree Foundation.Framing
open App.Artifact (Path isName)

/-! ### Resolution by the kernel -/

def IsDirectory (entries : Directory) (p : Path) : Prop := ∃ children, Holds entries p children

/-- The components that name no entry. -/
def IsSkip (part : JsString) : Prop := part = [] ∨ part = js "."

instance (part : JsString) : Decidable (IsSkip part) := inferInstanceAs (Decidable (_ ∨ _))

/-- POSIX resolution of the components of a path from the directory `p` of the host: each symlink is
followed where it is met, and `..` is taken from the directory reached. Every place on the way
satisfies `within`. -/
inductive Resolves (host : Directory) (within : Path → Prop) : Path → List JsString → Path → Prop
  | done {p : Path} (hp : within p) : Resolves host within p [] p
  | skip {p final : Path} {part : JsString} {rest : List JsString} (hp : within p)
      (hpart : IsSkip part) (hdirectory : IsDirectory host p)
      (h : Resolves host within p rest final) : Resolves host within p (part :: rest) final
  | up {p final : Path} {rest : List JsString} (hp : within p) (hdirectory : IsDirectory host p)
      (h : Resolves host within p.dropLast rest final) :
      Resolves host within p (js ".." :: rest) final
  | enter {p final : Path} {name : JsString} {rest : List JsString} {node : Entry} (hp : within p)
      (hname : isName name = true) (hat : At host (p ++ [name]) node)
      (hnode : ∀ target, node ≠ .leaf (.symlink target))
      (h : Resolves host within (p ++ [name]) rest final) :
      Resolves host within p (name :: rest) final
  | follow {p final : Path} {name : JsString} {rest : List JsString} {target : Bytes}
      (hp : within p) (hname : isName name = true)
      (hat : At host (p ++ [name]) (.leaf (.symlink target)))
      (htext : utf8Encode (utf8Decode target) = target)
      (hrelative : startsWith (utf8Decode target) "/" = false)
      (h : Resolves host within p (splitSlash (utf8Decode target) ++ rest) final) :
      Resolves host within p (name :: rest) final
  | followAbsolute {p final : Path} {name : JsString} {rest : List JsString} {target : Bytes}
      (hp : within p) (hname : isName name = true)
      (hat : At host (p ++ [name]) (.leaf (.symlink target)))
      (htext : utf8Encode (utf8Decode target) = target)
      (habsolute : startsWith (utf8Decode target) "/" = true)
      (h : Resolves host within [] (splitSlash (utf8Decode target) ++ rest) final) :
      Resolves host within p (name :: rest) final

/-- The root is a directory of the host's tree, and a path exists only where the kernel resolves
it. -/
structure Sits (host : Directory) (root : Root) : Prop where
  valid : Valid host
  holds : root.isCanonical = true → Holds host root.path root.entries
  resolves : ∀ p, root.existsSync p = true → ∃ final, Resolves host (fun _ ↦ True) [] p final

/-- The path names a directory or a regular file, itself and not through a link. -/
def Reached (host : Directory) (p : Path) : Prop :=
  IsDirectory host p ∨ ∃ mode links bytes, At host p (.leaf (.file mode links bytes))

/-- Every symlink of the tree leads to a file or directory without leaving the tree on the way. -/
def SelfContained (host : Directory) (root : Root) : Prop :=
  ∀ dir name target, At root.entries (dir ++ [name]) (.leaf (.symlink target)) →
    ∃ final, Resolves host (root.path <+: ·) (root.path ++ dir) [name] final ∧ Reached host final

/-! ### Targets that lead straight -/

/-- Every `..` is taken from a directory below the root, which no link has led to. -/
def Straight (entries : Directory) : Path → List JsString → Prop
  | _, [] => True
  | dir, part :: rest =>
    if IsSkip part then Straight entries dir rest
    else if part = js ".." then dir ≠ [] ∧ Straight entries dir.dropLast rest
    else (IsDirectory entries (dir ++ [part]) ∧ Straight entries (dir ++ [part]) rest) ∨
      js ".." ∉ rest

/-- A target that the kernel reads as `resolve` does. -/
structure Direct (host : Directory) (root : Root) (dir : Path) (target : Bytes) : Prop where
  utf8 : utf8Encode (utf8Decode target) = target
  straight : Straight root.entries dir (splitSlash (utf8Decode target))
  slash : ∀ part ∈ (splitSlash (utf8Decode target)).getLast?, IsSkip part →
    ∃ final, Resolves host (fun _ ↦ True) [] (resolveTarget (root.path ++ dir) (utf8Decode target))
      final ∧ IsDirectory host final

def DirectTargets (host : Directory) (root : Root) : Prop :=
  ∀ dir name target, At root.entries (dir ++ [name]) (.leaf (.symlink target)) →
    Direct host root dir target

variable {entries host : Directory} {root : Root} {within : Path → Prop} {p dir final : Path}

theorem resolveComponent_eq (p : Path) (part : JsString) : resolveComponent p part =
    if IsSkip part then p else if part = js ".." then p.dropLast else p ++ [part] := rfl

theorem not_isSkip_dots : ¬ IsSkip (js "..") := by decide

theorem not_isSkip_of_isName {name : JsString} (h : isName name = true) : ¬ IsSkip name := by
  have hname := of_decide_eq_true h
  rintro (rfl | rfl)
  · exact hname.1 rfl
  · exact hname.2.1 rfl

theorem ne_dots_of_isName {name : JsString} (h : isName name = true) : name ≠ js ".." :=
  (of_decide_eq_true h).2.2.1

theorem isDirectory_of_at {name : JsString} {node : Entry} (h : At entries (p ++ [name]) node) :
    IsDirectory entries p := by
  obtain ⟨children, hholds, -⟩ := h.parent
  exact ⟨children, hholds⟩

/-- A directory is not a symlink. -/
theorem IsDirectory.not_symlink (h : IsDirectory entries p) (hdistinct : Distinct entries)
    {target : Bytes} (hat : At entries p (.leaf (.symlink target))) : False := by
  obtain ⟨children, ⟨rfl, -⟩ | ⟨mode, hdirectory⟩⟩ := h
  · exact hat.ne_nil rfl
  · cases hdirectory.unique hdistinct hat

/-- A path without `..` leads straight from everywhere. -/
theorem straight_of_notMem {parts : List JsString} (h : js ".." ∉ parts) :
    Straight entries dir parts := by
  induction parts generalizing dir with
  | nil => exact True.intro
  | cons part rest ih =>
    have hrest := fun hmem ↦ h (List.mem_cons_of_mem _ hmem)
    rw [Straight]
    by_cases hskip : IsSkip part
    · rw [if_pos hskip]
      exact ih hrest
    · have hup : part ≠ js ".." := by
        rintro rfl
        exact h List.mem_cons_self
      rw [if_neg hskip, if_neg hup]
      exact Or.inr hrest

theorem Straight.append {parts rest : List JsString} (h : Straight entries dir parts)
    (hrest : js ".." ∉ rest) : Straight entries dir (parts ++ rest) := by
  induction parts generalizing dir with
  | nil => exact straight_of_notMem hrest
  | cons part parts ih =>
    rw [Straight] at h
    rw [List.cons_append, Straight]
    by_cases hskip : IsSkip part
    · rw [if_pos hskip] at h ⊢
      exact ih h
    · rw [if_neg hskip] at h ⊢
      by_cases hup : part = js ".."
      · rw [if_pos hup] at h ⊢
        exact ⟨h.1, ih h.2⟩
      · rw [if_neg hup] at h ⊢
        obtain ⟨hdirectory, hparts⟩ | hparts := h
        · exact Or.inl ⟨hdirectory, ih hparts⟩
        · exact Or.inr fun hmem ↦ (List.mem_append.mp hmem).elim hparts hrest

/-- What a name leads on to. -/
theorem Straight.enter {name : JsString} {rest : List JsString} (hname : isName name = true)
    (h : Straight entries dir (name :: rest)) : Straight entries (dir ++ [name]) rest := by
  rw [Straight, if_neg (not_isSkip_of_isName hname), if_neg (ne_dots_of_isName hname)] at h
  obtain ⟨-, hrest⟩ | hrest := h
  · exact hrest
  · exact straight_of_notMem hrest

/-- Nothing goes up behind what is not a directory. -/
theorem Straight.notMem {name : JsString} {rest : List JsString} (hname : isName name = true)
    (h : Straight entries dir (name :: rest)) (hnot : ¬ IsDirectory entries (dir ++ [name])) :
    js ".." ∉ rest := by
  rw [Straight, if_neg (not_isSkip_of_isName hname), if_neg (ne_dots_of_isName hname)] at h
  exact h.resolve_left fun hdirectory ↦ hnot hdirectory.1

/-! ### What sealing checks -/

/-- What `dependencyTreeDigest` has checked of an entry. -/
structure Checked (root : Root) (e : Path × Entry) : Prop where
  special : e.2 ≠ .leaf .special
  relative : ∀ target, e.2 = .leaf (.symlink target) → startsWith (utf8Decode target) "/" = false
  found : ∀ target, e.2 = .leaf (.symlink target) →
    root.existsSync (resolveTarget (root.path ++ e.1.dropLast) (utf8Decode target)) = true

theorem checked_of_sealEntry {H : HashFunction 32} {done next : Sealed} {e : Path × Entry}
    (h : sealEntry H root done e = .ok next) : Checked root e := by
  obtain ⟨p, node⟩ := e
  rcases node with ⟨mode, children⟩ | (⟨mode, links, bytes⟩ | target | _)
  · refine ⟨fun heq ↦ ?_, fun _ heq ↦ ?_, fun _ heq ↦ ?_⟩ <;> cases heq
  · refine ⟨fun heq ↦ ?_, fun _ heq ↦ ?_, fun _ heq ↦ ?_⟩ <;> cases heq
  · simp only [sealEntry, bind_eq_ok, reject_eq_ok, exists_unit, pure_eq_ok, not_or,
      Bool.not_eq_true, Bool.not_eq_false] at h
    obtain ⟨-, -, -, ⟨-, hrelative, -⟩, -, hfound, -⟩ := h
    refine ⟨fun heq ↦ ?_, fun _ heq ↦ ?_, fun _ heq ↦ ?_⟩ <;> cases heq
    · exact hrelative
    · exact hfound
  · simp only [sealEntry, bind_eq_ok, throw_eq_ok, and_false, exists_false] at h

theorem checked_of_foldlM {H : HashFunction 32} {es : List (Path × Entry)} {done last : Sealed}
    (h : es.foldlM (sealEntry H root) done = .ok last) : ∀ e ∈ es, Checked root e := by
  induction es generalizing done with
  | nil => exact fun e he ↦ absurd he List.not_mem_nil
  | cons e es ih =>
    rw [List.foldlM_cons, bind_eq_ok] at h
    obtain ⟨next, hnext, hlast⟩ := h
    exact List.forall_mem_cons.mpr ⟨checked_of_sealEntry hnext, ih hlast⟩

/-- Everything in a sealed tree has been checked. -/
theorem checked_of_digest {H : HashFunction 32} {digest : JsString}
    (h : dependencyTreeDigest H root = .ok digest) : root.isCanonical = true ∧
      ∀ p node, At root.entries p node → Checked root (p, node) := by
  simp only [dependencyTreeDigest, dependencyRecords, assertCanonicalDirectory, bind_eq_ok,
    reject_eq_ok, exists_unit, pure_eq_ok, Bool.not_eq_false] at h
  obtain ⟨-, ⟨hcanonical, last, hlast, -⟩, -⟩ := h
  exact ⟨hcanonical, fun p node hat ↦ checked_of_foldlM hlast _ (mem_walk_all.mpr hat)⟩

/-! ### Resolution inside the tree -/

/-- What leads straight from a place in the tree stays in the tree. -/
theorem stays (hvalid : Valid host) (hholds : Holds host root.path root.entries)
    (hchecked : ∀ p node, At root.entries p node → Checked root (p, node))
    (hdirect : DirectTargets host root) {parts : List JsString}
    (h : Resolves host (fun _ ↦ True) p parts final) : ∀ dir, p = root.path ++ dir →
      Straight root.entries dir parts → Reached host p →
        Resolves host (root.path <+: ·) p parts final ∧ Reached host final := by
  have hinside : ∀ {dir name node}, At host (root.path ++ dir ++ [name]) node →
      At root.entries (dir ++ [name]) node := by
    intro dir name node hat
    rw [List.append_assoc] at hat
    exact hholds.of_at hvalid.distinct (List.append_ne_nil_of_right_ne_nil _ (List.cons_ne_nil _ _))
      hat
  induction h with
  | done _ =>
    rintro dir rfl - hreached
    exact ⟨.done (List.prefix_append _ _), hreached⟩
  | skip _ hpart hdirectory _ ih =>
    rintro dir rfl hstraight hreached
    rw [Straight, if_pos hpart] at hstraight
    obtain ⟨hrest, hfinal⟩ := ih dir rfl hstraight hreached
    exact ⟨.skip (List.prefix_append _ _) hpart hdirectory hrest, hfinal⟩
  | up _ hdirectory _ ih =>
    rintro dir rfl hstraight -
    rw [Straight, if_neg not_isSkip_dots, if_pos rfl] at hstraight
    obtain ⟨children, hdir⟩ := hdirectory
    obtain ⟨hrest, hfinal⟩ := ih dir.dropLast (List.dropLast_append_of_ne_nil hstraight.1)
      hstraight.2 (Or.inl hdir.parent)
    exact ⟨.up (List.prefix_append _ _) ⟨children, hdir⟩ hrest, hfinal⟩
  | enter _ hname hat hnode _ ih =>
    rename_i name rest node _ _
    rintro dir rfl hstraight -
    have hreached : Reached host (root.path ++ dir ++ [name]) := by
      have hspecial := (hchecked _ _ (hinside hat)).special
      rcases node with ⟨mode, children⟩ | (⟨mode, links, bytes⟩ | target | _)
      · exact Or.inl ⟨children, Or.inr ⟨mode, hat⟩⟩
      · exact Or.inr ⟨mode, links, bytes, hat⟩
      · exact absurd rfl (hnode target)
      · exact absurd rfl hspecial
    obtain ⟨hrest, hfinal⟩ := ih (dir ++ [name]) (List.append_assoc _ _ _) (hstraight.enter hname)
      hreached
    exact ⟨.enter (List.prefix_append _ _) hname hat hnode hrest, hfinal⟩
  | follow _ hname hat htext hrelative _ ih =>
    rintro dir rfl hstraight hreached
    have hlink := hinside hat
    have hrest := hstraight.notMem hname fun hdirectory ↦
      hdirectory.not_symlink (hholds.distinct hvalid.distinct) hlink
    obtain ⟨hbelow, hfinal⟩ := ih dir rfl
      ((hdirect dir _ _ hlink).straight.append hrest) hreached
    exact ⟨.follow (List.prefix_append _ _) hname hat htext hrelative hbelow, hfinal⟩
  | followAbsolute _ hname hat htext habsolute _ _ =>
    rintro dir rfl - -
    have hrelative := (hchecked _ _ (hinside hat)).relative _ rfl
    rw [habsolute] at hrelative
    cases hrelative

/-! ### Resolution by text -/

theorem IsDirectory.of_append {q : Path} (h : IsDirectory host (p ++ q)) : IsDirectory host p := by
  induction q using List.reverseRecOn with
  | nil => rwa [List.append_nil] at h
  | append_singleton q name ih =>
    obtain ⟨children, hholds⟩ := h
    have hparent := hholds.parent
    rw [← List.append_assoc, List.dropLast_concat] at hparent
    exact ih hparent

/-- Real directories resolve to themselves. -/
theorem resolves_below (hvalid : Valid host) {q : Path} {rest : List JsString}
    (hdirectory : IsDirectory host (p ++ q)) (h : Resolves host within p (q ++ rest) final) :
    Resolves host within (p ++ q) rest final := by
  induction q generalizing p with
  | nil => rwa [List.append_nil]
  | cons name q ih =>
    have happend : p ++ name :: q = p ++ [name] ++ q := (List.append_cons p name q)
    have hfirst : IsDirectory host (p ++ [name]) := (happend ▸ hdirectory).of_append
    have hname : isName name = true := by
      obtain ⟨children, ⟨hnil, -⟩ | ⟨mode, hat⟩⟩ := hfirst
      · exact absurd hnil (List.append_ne_nil_of_right_ne_nil _ (List.cons_ne_nil _ _))
      · exact (hvalid.names _ _ hat name (List.mem_append_right _ (List.mem_singleton_self _))).1
    rw [happend] at hdirectory ⊢
    cases h with
    | skip _ hpart _ _ => exact absurd hpart (not_isSkip_of_isName hname)
    | up _ _ _ => exact absurd rfl (ne_dots_of_isName hname)
    | enter _ _ _ _ hbelow => exact ih hdirectory hbelow
    | follow _ _ hat _ _ _ => exact (hfirst.not_symlink hvalid.distinct hat).elim
    | followAbsolute _ _ hat _ _ _ => exact (hfirst.not_symlink hvalid.distinct hat).elim

theorem resolves_skips {skips parts : List JsString} (hskips : ∀ part ∈ skips, IsSkip part)
    (hp : within p) (hdirectory : IsDirectory host p) (h : Resolves host within p parts final) :
    Resolves host within p (skips ++ parts) final := by
  induction skips with
  | nil => exact h
  | cons part skips ih =>
    obtain ⟨hpart, hskips⟩ := List.forall_mem_cons.mp hskips
    exact .skip hp hpart hdirectory (ih hskips)

def named (parts : List JsString) : Path := parts.filter fun part ↦ decide (¬ IsSkip part)

/-- The first component of a path of which one end has lost its skips. -/
theorem split_named {x : JsString} {rest a b : List JsString} (h : x :: rest = a ++ named b) :
    ∃ skips a' b', a ++ b = skips ++ x :: (a' ++ b') ∧ rest = a' ++ named b' ∧
      (∀ part ∈ skips, IsSkip part) ∧ ∀ part ∈ b'.getLast?, part ∈ b.getLast? := by
  cases a with
  | nil =>
    obtain ⟨skips, b', rfl, hskips, -, hrest⟩ := List.filter_eq_cons_iff.mp h.symm
    refine ⟨skips, [], b', rfl, hrest.symm, fun part hpart ↦ ?_, fun part hpart ↦ ?_⟩
    · exact not_not.mp fun hnot ↦ hskips part hpart (decide_eq_true hnot)
    · rw [Option.mem_def] at hpart ⊢
      rw [List.getLast?_append, List.getLast?_cons, hpart]
      rfl
  | cons y a' =>
    obtain ⟨rfl, rfl⟩ := List.cons.inj h
    exact ⟨[], a', b, rfl, rfl, fun part hpart ↦ absurd hpart List.not_mem_nil, fun _ ↦ id⟩

/-- Skips that are put back change no resolution, where a last one follows a directory. -/
theorem resolves_of_named {parts : List JsString} (h : Resolves host within p parts final) :
    ∀ a b, parts = a ++ named b → (∀ part ∈ b.getLast?, IsSkip part → IsDirectory host final) →
      Resolves host within p (a ++ b) final := by
  induction h with
  | done hp =>
    rename_i p
    intro a b hparts hlast
    obtain ⟨rfl, hb⟩ := List.append_eq_nil_iff.mp hparts.symm
    have hskips : ∀ part ∈ b, IsSkip part := fun part hpart ↦
      not_not.mp fun hnot ↦ List.filter_eq_nil_iff.mp hb part hpart (decide_eq_true hnot)
    obtain rfl | hne := eq_or_ne b []
    · exact .done hp
    · have hdirectory := hlast _ (List.getLast?_eq_some_getLast hne)
        (hskips _ (List.getLast_mem hne))
      have hresolves := resolves_skips hskips hp hdirectory (.done hp)
      rwa [List.append_nil] at hresolves
  | skip hp hpart hdirectory _ ih =>
    intro a b hparts hlast
    obtain ⟨skips, a', b', hsplit, hrest, hskips, hb⟩ := split_named hparts
    rw [hsplit]
    exact resolves_skips hskips hp hdirectory (.skip hp hpart hdirectory
      (ih a' b' hrest fun part hpart ↦ hlast part (hb part hpart)))
  | up hp hdirectory _ ih =>
    intro a b hparts hlast
    obtain ⟨skips, a', b', hsplit, hrest, hskips, hb⟩ := split_named hparts
    rw [hsplit]
    exact resolves_skips hskips hp hdirectory (.up hp hdirectory
      (ih a' b' hrest fun part hpart ↦ hlast part (hb part hpart)))
  | enter hp hname hat hnode _ ih =>
    intro a b hparts hlast
    obtain ⟨skips, a', b', hsplit, hrest, hskips, hb⟩ := split_named hparts
    rw [hsplit]
    exact resolves_skips hskips hp (isDirectory_of_at hat) (.enter hp hname hat hnode
      (ih a' b' hrest fun part hpart ↦ hlast part (hb part hpart)))
  | follow hp hname hat htext hrelative _ ih =>
    intro a b hparts hlast
    obtain ⟨skips, a', b', hsplit, hrest, hskips, hb⟩ := split_named hparts
    rw [hsplit]
    have hbelow := ih (_ ++ a') b' (by rw [hrest, List.append_assoc]) fun part hpart ↦
      hlast part (hb part hpart)
    rw [List.append_assoc] at hbelow
    exact resolves_skips hskips hp (isDirectory_of_at hat)
      (.follow hp hname hat htext hrelative hbelow)
  | followAbsolute hp hname hat htext habsolute _ ih =>
    intro a b hparts hlast
    obtain ⟨skips, a', b', hsplit, hrest, hskips, hb⟩ := split_named hparts
    rw [hsplit]
    have hbelow := ih (_ ++ a') b' (by rw [hrest, List.append_assoc]) fun part hpart ↦
      hlast part (hb part hpart)
    rw [List.append_assoc] at hbelow
    exact resolves_skips hskips hp (isDirectory_of_at hat)
      (.followAbsolute hp hname hat htext habsolute hbelow)

theorem foldl_resolveComponent {parts : List JsString} (h : js ".." ∉ parts) :
    parts.foldl resolveComponent p = p ++ named parts := by
  induction parts generalizing p with
  | nil => exact (List.append_nil p).symm
  | cons part rest ih =>
    have hrest := fun hmem ↦ h (List.mem_cons_of_mem _ hmem)
    rw [List.foldl_cons, ih hrest, resolveComponent_eq, named, named]
    by_cases hskip : IsSkip part
    · rw [if_pos hskip, List.filter_cons_of_neg (by simpa using hskip)]
    · have hup : part ≠ js ".." := by
        rintro rfl
        exact h List.mem_cons_self
      rw [if_neg hskip, if_neg hup, List.filter_cons_of_pos (by simpa using hskip),
        List.append_assoc, List.singleton_append]

/-- What leads straight to a path that the kernel finds is resolved by the kernel. -/
theorem resolves_of_straight (hvalid : Valid host) (hholds : Holds host root.path root.entries)
    {parts : List JsString} (hdirectory : IsDirectory root.entries dir)
    (hstraight : Straight root.entries dir parts)
    (h : Resolves host (fun _ ↦ True) [] (parts.foldl resolveComponent (root.path ++ dir)) final)
    (hlast : ∀ part ∈ parts.getLast?, IsSkip part → IsDirectory host final) :
    Resolves host (fun _ ↦ True) (root.path ++ dir) parts final := by
  have hhost : ∀ {dir}, IsDirectory root.entries dir → IsDirectory host (root.path ++ dir) := by
    rintro dir ⟨children, hdir⟩
    exact ⟨children, hholds.trans hdir⟩
  have hmem : ∀ {part : JsString} {rest : List JsString}, ∀ last ∈ rest.getLast?,
      last ∈ (part :: rest).getLast? := by
    intro part rest last hrest
    rw [Option.mem_def] at hrest ⊢
    rw [List.getLast?_cons, hrest]
    rfl
  induction parts generalizing dir with
  | nil =>
    rw [List.foldl_nil, ← List.append_nil (root.path ++ dir)] at h
    exact resolves_below hvalid (p := []) (hhost hdirectory) h
  | cons part rest ih =>
    have hrest := fun last hmem' ↦ hlast last (hmem last hmem')
    rw [Straight] at hstraight
    rw [List.foldl_cons, resolveComponent_eq] at h
    by_cases hskip : IsSkip part
    · rw [if_pos hskip] at hstraight h
      exact .skip True.intro hskip (hhost hdirectory) (ih hdirectory hstraight h hrest)
    · rw [if_neg hskip] at hstraight h
      by_cases hup : part = js ".."
      · subst hup
        rw [if_pos rfl] at hstraight h
        have hdrop : (root.path ++ dir).dropLast = root.path ++ dir.dropLast :=
          List.dropLast_append_of_ne_nil hstraight.1
        obtain ⟨children, hdir⟩ := hdirectory
        refine .up True.intro (hhost ⟨children, hdir⟩) ?_
        rw [hdrop] at h ⊢
        exact ih hdir.parent hstraight.2 h hrest
      · rw [if_neg hup] at hstraight h
        by_cases hbelow : IsDirectory root.entries (dir ++ [part])
        · have hnext : Straight root.entries (dir ++ [part]) rest :=
            hstraight.elim And.right straight_of_notMem
          obtain ⟨children, ⟨hnil, -⟩ | ⟨mode, hat⟩⟩ := hhost hbelow
          · exact absurd (List.append_eq_nil_iff.mp (List.append_eq_nil_iff.mp hnil).2).2
              (List.cons_ne_nil _ _)
          · rw [← List.append_assoc] at hat
            have hname := (hvalid.names _ _ hat part
              (List.mem_append_right _ (List.mem_singleton_self _))).1
            refine .enter True.intro hname hat (fun _ hnode ↦ by cases hnode) ?_
            rw [List.append_assoc] at h ⊢
            exact ih hbelow hnext h hrest
        · have hdots := hstraight.resolve_left fun hdir ↦ hbelow hdir.1
          rw [foldl_resolveComponent hdots, List.append_assoc] at h
          have hresolves := resolves_below hvalid (p := []) (hhost hdirectory) h
          exact resolves_of_named hresolves [part] rest rfl hrest

/-- **Sealed trees are self-contained** where every target leads straight. -/
theorem sealed_tree_self_contained {H : HashFunction 32} {digest : JsString}
    (hsits : Sits host root) (hdigest : dependencyTreeDigest H root = .ok digest)
    (hdirect : DirectTargets host root) : SelfContained host root := by
  intro dir name target hlink
  obtain ⟨hcanonical, hchecked⟩ := checked_of_digest hdigest
  have hholds := hsits.holds hcanonical
  have hdirectory := isDirectory_of_at hlink
  have hat : At host (root.path ++ dir ++ [name]) (.leaf (.symlink target)) := by
    rw [List.append_assoc]
    exact hholds.at hlink
  have hname : isName name = true :=
    (hsits.valid.names _ _ hat name (List.mem_append_right _ (List.mem_singleton_self _))).1
  have hchecks := hchecked _ _ hlink
  have hfound := hchecks.found target rfl
  rw [List.dropLast_concat] at hfound
  obtain ⟨hutf8, hstraight, hslash⟩ := hdirect dir name target hlink
  obtain ⟨final, hfinal, hlast⟩ : ∃ final, Resolves host (fun _ ↦ True) []
      (resolveTarget (root.path ++ dir) (utf8Decode target)) final ∧
        ∀ part ∈ (splitSlash (utf8Decode target)).getLast?, IsSkip part → IsDirectory host final := by
    by_cases hskip : ∃ part ∈ (splitSlash (utf8Decode target)).getLast?, IsSkip part
    · obtain ⟨part, hpart, hskip⟩ := hskip
      obtain ⟨final, hfinal, hdir⟩ := hslash part hpart hskip
      exact ⟨final, hfinal, fun _ _ _ ↦ hdir⟩
    · obtain ⟨final, hfinal⟩ := hsits.resolves _ hfound
      exact ⟨final, hfinal, fun part hpart hpart' ↦ absurd ⟨part, hpart, hpart'⟩ hskip⟩
  have htarget := resolves_of_straight hsits.valid hholds hdirectory hstraight hfinal hlast
  have hresolves : Resolves host (fun _ ↦ True) (root.path ++ dir) [name] final :=
    .follow True.intro hname hat hutf8 (hchecks.relative target rfl) (by rwa [List.append_nil])
  have hsingle : Straight root.entries dir [name] := by
    rw [Straight, if_neg (not_isSkip_of_isName hname), if_neg (ne_dots_of_isName hname)]
    exact Or.inr List.not_mem_nil
  have hroot : IsDirectory host (root.path ++ dir) := by
    obtain ⟨children, hdir⟩ := hdirectory
    exact ⟨children, hholds.trans hdir⟩
  exact ⟨final, stays hsits.valid hholds hchecked hdirect hresolves dir rfl hsingle (Or.inl hroot)⟩

/-! ### Trees with an upward link -/

def linkTo (target : String) : Entry := .leaf (.symlink (utf8Encode (js target)))

/-- A directory `a` with a link `l` to its parent. -/
def upwardTree : Directory := [(js "a", .directory 0o755 [(js "l", linkTo "..")])]

/-- Beside it a link that goes up once more behind `l`. -/
def escapingTree : Directory := upwardTree ++ [(js "m", linkTo "a/l/../l")]

def hostOf (entries : Directory) : Directory := [(js "work", .directory 0o755 entries)]

def rootOf (entries : Directory) : Root where
  path := [js "work"]
  isCanonical := true
  entries := entries
  existsSync p := decide (p = [js "work"] ∨ p = [js "work", js "a", js "l"])

theorem valid_of_entries (hnodup : (entries.map Prod.fst).Nodup)
    (hnames : ∀ e ∈ entries, isName e.1 = true ∧ isWellFormed e.1 = true)
    (hchildren : ∀ name mode children, (name, .directory mode children) ∈ entries →
      Valid children) : Valid entries := by
  refine ⟨.mk hnodup fun name mode children hmem ↦ (hchildren name mode children hmem).distinct, ?_⟩
  intro p node hat
  cases hat with
  | here hmem => exact List.forall_mem_singleton.mpr (hnames _ hmem)
  | inside hmem hbelow =>
    exact List.forall_mem_cons.mpr
      ⟨hnames _ hmem, (hchildren _ _ _ hmem).names _ _ hbelow⟩

theorem valid_upwardTree : Valid upwardTree := by
  refine valid_of_entries (by decide) (List.forall_mem_singleton.mpr (by decide)) ?_
  intro name mode children hmem
  cases List.mem_singleton.mp hmem
  refine valid_of_entries (by decide) (List.forall_mem_singleton.mpr (by decide)) ?_
  intro name mode children hmem
  cases List.mem_singleton.mp hmem

theorem valid_escapingTree : Valid escapingTree := by
  refine valid_of_entries (by decide) (List.forall_mem_cons.mpr
    ⟨by decide, List.forall_mem_singleton.mpr (by decide)⟩) ?_
  intro name mode children hmem
  obtain hmem | hmem := List.mem_append.mp hmem
  · exact ⟨valid_upwardTree.distinct.children hmem, fun p node hat part hpart ↦
      valid_upwardTree.names _ _ (.inside hmem hat) part (List.mem_cons_of_mem _ hpart)⟩
  · cases List.mem_singleton.mp hmem

theorem sits_rootOf (hvalid : Valid entries)
    (ha : (js "a", .directory 0o755 [(js "l", linkTo "..")]) ∈ entries) :
    Sits (hostOf entries) (rootOf entries) := by
  have hwork : At (hostOf entries) [js "work"] (.directory 0o755 entries) :=
    .here List.mem_cons_self
  have hbelow : At (hostOf entries) [js "work", js "a"]
      (.directory 0o755 [(js "l", linkTo "..")]) := hwork.append (.here ha)
  have hlink : At (hostOf entries) [js "work", js "a", js "l"] (linkTo "..") :=
    hbelow.append (.here List.mem_cons_self)
  have htext : utf8Decode (utf8Encode (js "..")) = js ".." := utf8Decode_utf8Encode _ (by decide)
  have hname : isName (js "work") = true ∧ isWellFormed (js "work") = true := by decide
  refine ⟨valid_of_entries (List.nodup_singleton _) (List.forall_mem_singleton.mpr hname) ?_,
    fun _ ↦ Or.inr ⟨_, hwork⟩, ?_⟩
  · intro name mode children hmem
    cases List.mem_singleton.mp hmem
    exact hvalid
  · intro p hp
    obtain rfl | rfl := of_decide_eq_true hp
    · exact ⟨_, .enter True.intro (by decide) hwork (fun _ h ↦ by cases h) (.done True.intro)⟩
    · refine ⟨[js "work"], .enter True.intro (by decide) hwork (fun _ h ↦ by cases h)
        (.enter True.intro (by decide) hbelow (fun _ h ↦ by cases h)
          (.follow True.intro (by decide) hlink (by rw [htext]) (by rw [htext]; decide) ?_))⟩
      rw [htext]
      exact .up True.intro ⟨_, Or.inr ⟨_, hbelow⟩⟩ (.done True.intro)

theorem walk_upwardTree : walk (fun _ ↦ true) compareNames [([], (rootOf upwardTree).entries)] =
    [([js "a"], .directory 0o755 [(js "l", linkTo "..")]), ([js "a", js "l"], linkTo "..")] := by
  refine (walk_directory rfl).trans ?_
  rw [linkTo, walk_leaf rfl]
  rfl

theorem walk_escapingTree : walk (fun _ ↦ true) compareNames [([], (rootOf escapingTree).entries)] =
    [([js "a"], .directory 0o755 [(js "l", linkTo "..")]), ([js "m"], linkTo "a/l/../l"),
      ([js "a", js "l"], linkTo "..")] := by
  have hread : readDirectory (fun _ ↦ true) compareNames (rootOf escapingTree).entries =
      escapingTree := rfl
  have hpending : escapingTree.filterMap (pending []) =
      [([js "a"], [(js "l", linkTo "..")])] := rfl
  rw [walk, hread, hpending, linkTo]
  change _ ++ walk _ _ [([js "a"], [(js "l", _)])] = _
  rw [walk_leaf rfl]
  rfl

def directoryRecord : JsValue := .arr [.str (js "directory"), .str (js "a"), .num (.int 493)]

def linkRecord (path target : String) : JsValue :=
  .arr [.str (js "symlink"), .str (js path), .str (js target)]

theorem digest_upwardTree : dependencyTreeDigest .polynomial (rootOf upwardTree) =
    .ok (sha256 .polynomial (dependencyBytes [directoryRecord, linkRecord "a/l" ".."])) := by
  rw [dependencyTreeDigest, dependencyRecords, walk_upwardTree]
  rfl

theorem digest_escapingTree : dependencyTreeDigest .polynomial (rootOf escapingTree) =
    .ok (sha256 .polynomial (dependencyBytes
      [directoryRecord, linkRecord "m" "a/l/../l", linkRecord "a/l" ".."])) := by
  rw [dependencyTreeDigest, dependencyRecords, walk_escapingTree]
  rfl

/-- A link to the parent of its directory is sealed and stays inside. -/
theorem sealed_tree_self_contained_upward :
    SelfContained (hostOf upwardTree) (rootOf upwardTree) := by
  refine sealed_tree_self_contained (sits_rootOf valid_upwardTree List.mem_cons_self)
    digest_upwardTree ?_
  intro dir name target hlink
  have htext : utf8Decode (utf8Encode (js "..")) = js ".." := utf8Decode_utf8Encode _ (by decide)
  have hmem := mem_walk_all.mpr hlink
  rw [walk_upwardTree] at hmem
  obtain hmem | hmem := List.mem_cons.mp hmem
  · cases (Prod.mk.inj hmem).2
  · obtain ⟨hpath, htarget⟩ := Prod.mk.inj (List.mem_singleton.mp hmem)
    have hnames : dir ++ [name] = [js "a"] ++ [js "l"] := hpath
    obtain ⟨rfl, -⟩ := List.append_inj' hnames rfl
    obtain rfl : target = utf8Encode (js "..") := Leaf.symlink.inj (Node.leaf.inj htarget)
    have hsplit : splitSlash (js "..") = [js ".."] := by decide
    refine ⟨by rw [htext], ?_, ?_⟩
    · rw [htext, hsplit, Straight, if_neg not_isSkip_dots, if_pos rfl]
      exact ⟨List.cons_ne_nil _ _, True.intro⟩
    · rw [htext, hsplit]
      intro part hpart hskip
      obtain rfl := Option.some.inj hpart
      exact absurd hskip not_isSkip_dots

theorem Resolves.within_start {parts : List JsString} (h : Resolves host within p parts final) :
    within p := by
  cases h with
  | done hp => exact hp
  | skip hp _ _ _ => exact hp
  | up hp _ _ => exact hp
  | enter hp _ _ _ _ => exact hp
  | follow hp _ _ _ _ _ => exact hp
  | followAbsolute hp _ _ _ _ _ => exact hp

/-- What a relative link stands for. -/
theorem Resolves.of_link (hvalid : Valid host) {name : JsString} {rest : List JsString}
    {target : Bytes} (hat : At host (p ++ [name]) (.leaf (.symlink target)))
    (hrelative : startsWith (utf8Decode target) "/" = false)
    (h : Resolves host within p (name :: rest) final) :
    Resolves host within p (splitSlash (utf8Decode target) ++ rest) final := by
  have hname : isName name = true :=
    (hvalid.names _ _ hat name (List.mem_append_right _ (List.mem_singleton_self _))).1
  cases h with
  | skip _ hpart _ _ => exact absurd hpart (not_isSkip_of_isName hname)
  | up _ _ _ => exact absurd rfl (ne_dots_of_isName hname)
  | enter _ _ hat' hnode _ => exact absurd (hat'.unique hvalid.distinct hat) (hnode target)
  | follow _ _ hat' _ _ hbelow =>
    obtain rfl := Leaf.symlink.inj (Node.leaf.inj (hat'.unique hvalid.distinct hat))
    exact hbelow
  | followAbsolute _ _ hat' _ habsolute _ =>
    obtain rfl := Leaf.symlink.inj (Node.leaf.inj (hat'.unique hvalid.distinct hat))
    rw [hrelative] at habsolute
    cases habsolute

theorem Resolves.of_up {rest : List JsString} (h : Resolves host within p (js ".." :: rest) final) :
    Resolves host within p.dropLast rest final := by
  generalize hparts : js ".." :: rest = parts at h
  cases h with
  | done _ => cases hparts
  | skip _ hpart _ _ =>
    obtain ⟨rfl, rfl⟩ := List.cons.inj hparts
    exact absurd hpart not_isSkip_dots
  | up _ _ hrest =>
    obtain ⟨-, rfl⟩ := List.cons.inj hparts
    exact hrest
  | enter _ hname _ _ _ =>
    obtain ⟨rfl, rfl⟩ := List.cons.inj hparts
    exact absurd rfl (ne_dots_of_isName hname)
  | follow _ hname _ _ _ _ =>
    obtain ⟨rfl, rfl⟩ := List.cons.inj hparts
    exact absurd rfl (ne_dots_of_isName hname)
  | followAbsolute _ hname _ _ _ _ =>
    obtain ⟨rfl, rfl⟩ := List.cons.inj hparts
    exact absurd rfl (ne_dots_of_isName hname)

/-- A sealed tree with a link that leads out of it. -/
theorem sealed_tree_escapes : ¬ ∀ (H : HashFunction 32) (host : Directory) (root : Root) digest,
    Sits host root → dependencyTreeDigest H root = .ok digest → SelfContained host root := by
  intro hall
  have hsits : Sits (hostOf escapingTree) (rootOf escapingTree) :=
    sits_rootOf valid_escapingTree List.mem_cons_self
  have hhost : ∀ {p : Path} {node : Entry}, At escapingTree p node →
      At (hostOf escapingTree) (js "work" :: p) node := fun hat ↦ .inside List.mem_cons_self hat
  obtain ⟨final, hresolves, -⟩ := hall .polynomial _ _ _ hsits digest_escapingTree [] (js "m")
    (utf8Encode (js "a/l/../l")) (.here (List.mem_cons_of_mem _ List.mem_cons_self))
  have htext : utf8Decode (utf8Encode (js "a/l/../l")) = js "a/l/../l" :=
    utf8Decode_utf8Encode _ (by decide)
  have hdots : utf8Decode (utf8Encode (js "..")) = js ".." := utf8Decode_utf8Encode _ (by decide)
  have hm := hresolves.of_link hsits.valid
    (hhost (.here (List.mem_cons_of_mem _ List.mem_cons_self))) (by rw [htext]; decide)
  have hsplit : splitSlash (js "a/l/../l") ++ [] = [js "a"] ++ [js "l", js "..", js "l"] := by decide
  have hdir : At (hostOf escapingTree) [js "work", js "a"]
      (.directory 0o755 [(js "l", linkTo "..")]) := hhost (.here List.mem_cons_self)
  rw [htext, hsplit] at hm
  have ha := resolves_below hsits.valid ⟨_, Or.inr ⟨_, hdir⟩⟩ hm
  have hl := ha.of_link hsits.valid
    (hhost (.inside List.mem_cons_self (.here List.mem_cons_self))) (by rw [hdots]; decide)
  have hsplit : splitSlash (js "..") ++ [js "..", js "l"] = [js "..", js "..", js "l"] := by decide
  rw [hdots, hsplit] at hl
  -- The link leads to the root, and the next component above it.
  have houtside := hl.of_up.of_up.within_start
  exact absurd (List.prefix_nil.mp houtside) (List.cons_ne_nil _ _)

end ApiMigrator.Runner.Filesystem
