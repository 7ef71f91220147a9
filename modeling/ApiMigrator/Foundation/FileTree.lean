import Mathlib.Algebra.Order.Group.Nat
import Mathlib.Data.List.Forall2
import Mathlib.Data.List.Nodup
import Mathlib.Data.List.Sort

/-!
File trees: directories of named nodes, the node that a path names, and the walk that reads the
directories from a stack. A walk leaves some names out, reads each directory in the order of its
names and meets exactly the nodes whose paths are kept. Trees that agree at every kept path are
met alike where the order tells the names of a directory apart.
-/

set_option autoImplicit false
set_option relaxedAutoImplicit false

namespace Foundation.FileTree

/-- A directory with data of its own and named nodes, or a leaf. -/
inductive Node (ν δ κ : Type)
  | directory (data : δ) (entries : List (ν × Node ν δ κ))
  | leaf (value : κ)

/-- What a directory holds, in the order in which it is listed. -/
abbrev Listing (ν δ κ : Type) := List (ν × Node ν δ κ)

variable {ν δ κ : Type} {entries : Listing ν δ κ} {node node' : Node ν δ κ} {path : List ν}

/-! ### Paths -/

/-- The path names the node below the directory. -/
inductive At : Listing ν δ κ → List ν → Node ν δ κ → Prop
  | here {entries : Listing ν δ κ} {name : ν} {node : Node ν δ κ} (h : (name, node) ∈ entries) :
    At entries [name] node
  | inside {entries children : Listing ν δ κ} {name : ν} {data : δ} {path : List ν}
      {node : Node ν δ κ} (h : (name, .directory data children) ∈ entries)
      (hbelow : At children path node) : At entries (name :: path) node

/-- No directory has two nodes of one name. -/
inductive Distinct : Listing ν δ κ → Prop
  | mk {entries : Listing ν δ κ} (names : (entries.map Prod.fst).Nodup)
      (children : ∀ name data children, (name, .directory data children) ∈ entries →
        Distinct children) : Distinct entries

theorem Distinct.names (h : Distinct entries) : (entries.map Prod.fst).Nodup := by
  cases h with
  | mk names _ => exact names

theorem Distinct.children (h : Distinct entries) {name : ν} {data : δ}
    {children : Listing ν δ κ} (hmem : (name, .directory data children) ∈ entries) :
    Distinct children := by
  cases h with
  | mk _ hchildren => exact hchildren name data children hmem

theorem Distinct.eq_of_mem (h : Distinct entries) {name : ν} (hmem : (name, node) ∈ entries)
    (hmem' : (name, node') ∈ entries) : node = node' :=
  (Prod.mk.inj (List.inj_on_of_nodup_map h.names hmem hmem' rfl)).2

theorem At.ne_nil (h : At entries path node) : path ≠ [] := by
  cases h <;> exact List.cons_ne_nil _ _

theorem at_singleton {name : ν} : At entries [name] node ↔ (name, node) ∈ entries := by
  constructor
  · intro h
    cases h with
    | here hmem => exact hmem
    | inside _ hbelow => exact absurd rfl hbelow.ne_nil
  · exact At.here

theorem at_cons {name : ν} (hpath : path ≠ []) : At entries (name :: path) node ↔
    ∃ data children, (name, .directory data children) ∈ entries ∧ At children path node := by
  constructor
  · intro h
    cases h with
    | here _ => exact absurd rfl hpath
    | inside hmem hbelow => exact ⟨_, _, hmem, hbelow⟩
  · rintro ⟨data, children, hmem, hbelow⟩
    exact .inside hmem hbelow

/-- A path names one node. -/
theorem At.unique (h : At entries path node) (hdistinct : Distinct entries)
    (h' : At entries path node') : node = node' := by
  induction h with
  | here hmem => exact hdistinct.eq_of_mem hmem (at_singleton.mp h')
  | inside hmem hbelow ih =>
    obtain ⟨data, children, hmem', hbelow'⟩ := (at_cons hbelow.ne_nil).mp h'
    obtain ⟨-, rfl⟩ := Node.directory.inj (hdistinct.eq_of_mem hmem hmem')
    exact ih (hdistinct.children hmem) hbelow'

/-! ### Directories of a tree -/

section Directories

/-- The path names the directory that holds `children`; the empty path names the whole tree. -/
def Holds (entries : Listing ν δ κ) (path : List ν) (children : Listing ν δ κ) : Prop :=
  (path = [] ∧ children = entries) ∨ ∃ data, At entries path (.directory data children)

variable {children : Listing ν δ κ}

theorem Holds.root (entries : Listing ν δ κ) : Holds entries [] entries := Or.inl ⟨rfl, rfl⟩

theorem At.append {data : δ} {path' : List ν} (h : At entries path (.directory data children))
    (hbelow : At children path' node) : At entries (path ++ path') node := by
  generalize hdirectory : Node.directory data children = directory at h
  induction h with
  | here hmem =>
    subst hdirectory
    exact .inside hmem hbelow
  | inside hmem _ ih => exact .inside hmem (ih hdirectory)

theorem Holds.at (h : Holds entries path children) {path' : List ν}
    (hbelow : At children path' node) : At entries (path ++ path') node := by
  obtain ⟨rfl, rfl⟩ | ⟨data, hat⟩ := h
  · exact hbelow
  · exact hat.append hbelow

theorem Holds.distinct (h : Holds entries path children) (hdistinct : Distinct entries) :
    Distinct children := by
  obtain ⟨rfl, rfl⟩ | ⟨data, hat⟩ := h
  · exact hdistinct
  · generalize hdirectory : Node.directory data children = directory at hat
    induction hat with
    | here hmem =>
      subst hdirectory
      exact hdistinct.children hmem
    | inside hmem _ ih => exact ih (hdistinct.children hmem) hdirectory

theorem Holds.trans {children' : Listing ν δ κ} {path' : List ν} (h : Holds entries path children)
    (h' : Holds children path' children') : Holds entries (path ++ path') children' := by
  obtain ⟨rfl, rfl⟩ | ⟨data, hat⟩ := h'
  · rwa [List.append_nil]
  · exact Or.inr ⟨data, h.at hat⟩

/-- What a path below a directory names is named from the directory. -/
theorem At.of_append {data : δ} {path' : List ν} (h : At entries path (.directory data children))
    (hdistinct : Distinct entries) (hpath' : path' ≠ [])
    (hat : At entries (path ++ path') node) : At children path' node := by
  generalize hdirectory : Node.directory data children = directory at h
  induction h with
  | here hmem =>
    subst hdirectory
    obtain ⟨_, _, hmem', hbelow⟩ := (at_cons hpath').mp hat
    obtain ⟨-, rfl⟩ := Node.directory.inj (hdistinct.eq_of_mem hmem hmem')
    exact hbelow
  | inside hmem hbelow ih =>
    rw [List.cons_append] at hat
    obtain ⟨_, _, hmem', hbelow'⟩ :=
      (at_cons (List.append_ne_nil_of_right_ne_nil _ hpath')).mp hat
    obtain ⟨-, rfl⟩ := Node.directory.inj (hdistinct.eq_of_mem hmem hmem')
    exact ih (hdistinct.children hmem) hbelow' hdirectory

theorem Holds.of_at (h : Holds entries path children) (hdistinct : Distinct entries)
    {path' : List ν} (hpath' : path' ≠ []) (hat : At entries (path ++ path') node) :
    At children path' node := by
  obtain ⟨rfl, rfl⟩ | ⟨data, hdirectory⟩ := h
  · exact hat
  · exact hdirectory.of_append hdistinct hpath' hat

/-- The directory that a path ends in. -/
theorem At.parent {name : ν} (h : At entries (path ++ [name]) node) :
    ∃ children, Holds entries path children ∧ (name, node) ∈ children := by
  induction path generalizing entries with
  | nil => exact ⟨entries, .root entries, at_singleton.mp h⟩
  | cons first path ih =>
    obtain ⟨data, below, hmem, hbelow⟩ :=
      (at_cons (List.append_ne_nil_of_right_ne_nil _ (List.cons_ne_nil _ _))).mp h
    obtain ⟨children, hholds, hname⟩ := ih hbelow
    have hfirst : Holds entries [first] below := Or.inr ⟨data, .here hmem⟩
    exact ⟨children, hfirst.trans hholds, hname⟩

theorem Holds.parent (h : Holds entries path children) :
    ∃ children', Holds entries path.dropLast children' := by
  obtain ⟨rfl, rfl⟩ | ⟨data, hat⟩ := h
  · exact ⟨_, .root _⟩
  · obtain ⟨path, name, rfl⟩ := (List.eq_nil_or_concat' path).resolve_left hat.ne_nil
    obtain ⟨children', hholds, -⟩ := hat.parent
    rw [List.dropLast_concat]
    exact ⟨children', hholds⟩

end Directories

/-! ### Walks -/

mutual

/-- How many directories a walk of the node reads. -/
def nodeSize : Node ν δ κ → ℕ
  | .directory _ entries => entriesSize entries
  | .leaf _ => 0

def entriesSize : List (ν × Node ν δ κ) → ℕ
  | [] => 1
  | (_, node) :: entries => nodeSize node + entriesSize entries

end

/-- A directory still to be read, under its path. -/
abbrev Pending (ν δ κ : Type) := List ν × Listing ν δ κ

/-- What is pushed for an entry of the directory at `path`. -/
def pending (path : List ν) : ν × Node ν δ κ → Option (Pending ν δ κ)
  | (name, .directory _ children) => some (path ++ [name], children)
  | (_, .leaf _) => none

def pendingSize : List (Pending ν δ κ) → ℕ
  | [] => 0
  | d :: stack => entriesSize d.2 + pendingSize stack

theorem pendingSize_append (stack stack' : List (Pending ν δ κ)) :
    pendingSize (stack ++ stack') = pendingSize stack + pendingSize stack' := by
  induction stack with
  | nil => rw [List.nil_append, pendingSize, zero_add]
  | cons d stack ih => rw [List.cons_append, pendingSize, pendingSize, ih, add_assoc]

theorem pendingSize_perm {stack stack' : List (Pending ν δ κ)} (h : stack.Perm stack') :
    pendingSize stack = pendingSize stack' := by
  induction h with
  | nil => rfl
  | cons d _ ih => rw [pendingSize, pendingSize, ih]
  | swap d d' stack => rw [pendingSize, pendingSize, pendingSize, pendingSize, add_left_comm]
  | trans _ _ ih ih' => exact ih.trans ih'

theorem pendingSize_le_of_sublist {stack stack' : List (Pending ν δ κ)}
    (h : stack.Sublist stack') : pendingSize stack ≤ pendingSize stack' := by
  induction h with
  | slnil => exact le_rfl
  | cons d _ ih => exact ih.trans (Nat.le_add_left _ _)
  | cons_cons d _ ih => exact Nat.add_le_add_left ih _

theorem pendingSize_pending (path : List ν) (entries : Listing ν δ κ) :
    pendingSize (entries.filterMap (pending path)) + 1 = entriesSize entries := by
  induction entries with
  | nil => rfl
  | cons e entries ih =>
    obtain ⟨name, node⟩ := e
    cases node with
    | leaf value =>
      rw [List.filterMap_cons_none rfl, ih, entriesSize, nodeSize, zero_add]
    | directory data children =>
      have hcons : (((name, .directory data children) : ν × Node ν δ κ) :: entries).filterMap
          (pending path) = (path ++ [name], children) :: entries.filterMap (pending path) :=
        List.filterMap_cons_some rfl
      rw [hcons, entriesSize, nodeSize, ← ih, pendingSize, add_assoc]

variable (keep : ν → Bool) (before : ν → ν → Prop) [DecidableRel before]

/-- What a walk reads of a directory: the names that it keeps, in their order. -/
def readDirectory (entries : Listing ν δ κ) : Listing ν δ κ :=
  (entries.filter fun e ↦ keep e.1).insertionSort fun a b ↦ before a.1 b.1

theorem mem_readDirectory {e : ν × Node ν δ κ} :
    e ∈ readDirectory keep before entries ↔ e ∈ entries ∧ keep e.1 = true := by
  rw [readDirectory, (List.perm_insertionSort _ _).mem_iff, List.mem_filter]

theorem pendingSize_readDirectory (path : List ν) (entries : Listing ν δ κ) :
    pendingSize ((readDirectory keep before entries).filterMap (pending path)) + 1 ≤
      entriesSize entries := by
  have hperm : pendingSize ((readDirectory keep before entries).filterMap (pending path)) =
      pendingSize ((entries.filter fun e ↦ keep e.1).filterMap (pending path)) :=
    pendingSize_perm ((List.perm_insertionSort _ _).filterMap (pending path))
  have hsub : pendingSize ((entries.filter fun e ↦ keep e.1).filterMap (pending path)) ≤
      pendingSize (entries.filterMap (pending path)) :=
    pendingSize_le_of_sublist (List.filter_sublist.filterMap (pending path))
  rw [← pendingSize_pending path entries, hperm]
  exact Nat.add_le_add_right hsub 1

/-- The nodes of the directories on a stack and of all directories below them, in the order in
which a walk meets them: it reads the directory that was pushed last and pushes the directories
that it finds there. -/
def walk : List (Pending ν δ κ) → List (List ν × Node ν δ κ)
  | [] => []
  | (path, entries) :: stack =>
    (readDirectory keep before entries).map (fun e ↦ (path ++ [e.1], e.2)) ++
      walk (((readDirectory keep before entries).filterMap (pending path)).reverse ++ stack)
termination_by stack => pendingSize stack
decreasing_by
  have hread := pendingSize_readDirectory keep before path entries
  have hreverse : pendingSize ((readDirectory keep before entries).filterMap (pending path)).reverse
      = pendingSize ((readDirectory keep before entries).filterMap (pending path)) :=
    pendingSize_perm (List.reverse_perm _)
  have hcons : pendingSize ((path, entries) :: stack) = entriesSize entries + pendingSize stack :=
    rfl
  rw [pendingSize_append, hreverse, hcons]
  omega

/-- A node that a walk meets: its path names it and is kept throughout. -/
def Kept (entries : Listing ν δ κ) (path : List ν) (node : Node ν δ κ) : Prop :=
  At entries path node ∧ ∀ name ∈ path, keep name = true

variable {keep before}

theorem walk_leaf {path : List ν} {name : ν} {value : κ} (h : keep name = true) :
    walk keep before [(path, [(name, (.leaf value : Node ν δ κ))])] =
      [(path ++ [name], .leaf value)] := by
  have hread : readDirectory keep before [(name, (.leaf value : Node ν δ κ))] =
      [(name, .leaf value)] := by simp [readDirectory, h]
  have hpending : [(name, (.leaf value : Node ν δ κ))].filterMap (pending path) = [] := rfl
  rw [walk, hread, hpending, List.reverse_nil, List.nil_append, walk, List.append_nil]
  rfl

theorem walk_directory {path : List ν} {name : ν} {data : δ} {children : Listing ν δ κ}
    (h : keep name = true) : walk keep before [(path, [(name, .directory data children)])] =
      (path ++ [name], .directory data children) ::
        walk keep before [(path ++ [name], children)] := by
  have hread : readDirectory keep before [(name, .directory data children)] =
      [(name, .directory data children)] := by simp [readDirectory, h]
  have hpending : [(name, Node.directory data children)].filterMap (pending path) =
      [(path ++ [name], children)] := rfl
  rw [walk, hread, hpending]
  rfl

theorem kept_singleton {name : ν} :
    Kept keep entries [name] node ↔ (name, node) ∈ entries ∧ keep name = true := by
  rw [Kept, at_singleton, List.forall_mem_singleton]

theorem kept_cons {name : ν} (hpath : path ≠ []) : Kept keep entries (name :: path) node ↔
    ∃ data children, (name, .directory data children) ∈ entries ∧ keep name = true ∧
      Kept keep children path node := by
  rw [Kept, at_cons hpath, List.forall_mem_cons]
  constructor
  · rintro ⟨⟨data, children, hmem, hbelow⟩, hname, hnames⟩
    exact ⟨data, children, hmem, hname, hbelow, hnames⟩
  · rintro ⟨data, children, hmem, hname, hbelow, hnames⟩
    exact ⟨⟨data, children, hmem, hbelow⟩, hname, hnames⟩

theorem Kept.ne_nil (h : Kept keep entries path node) : path ≠ [] := h.1.ne_nil

theorem mem_pending {path : List ν} {d : Pending ν δ κ} {entries : Listing ν δ κ} :
    d ∈ entries.filterMap (pending path) ↔
      ∃ name data, (name, .directory data d.2) ∈ entries ∧ d.1 = path ++ [name] := by
  rw [List.mem_filterMap]
  constructor
  · rintro ⟨⟨name, node⟩, hmem, hpending⟩
    cases node with
    | leaf value => cases hpending
    | directory data children =>
      cases hpending
      exact ⟨name, data, hmem, rfl⟩
  · rintro ⟨name, data, hmem, hpath⟩
    exact ⟨_, hmem, by rw [pending, ← hpath]⟩

/-- **Walks.** A walk meets exactly the nodes whose paths are kept. -/
theorem mem_walk {stack : List (Pending ν δ κ)} {p : List ν} : (p, node) ∈ walk keep before stack ↔
    ∃ d ∈ stack, ∃ path, p = d.1 ++ path ∧ Kept keep d.2 path node := by
  induction stack using walk.induct keep before with
  | case1 => simp [walk]
  | case2 path entries stack ih =>
    rw [walk, List.mem_append, ih]
    constructor
    · rintro (hown | ⟨d, hd, below, rfl, hkept⟩)
      · obtain ⟨⟨name, node⟩, hmem, heq⟩ := List.mem_map.mp hown
        cases heq
        exact ⟨_, List.mem_cons_self, [name], rfl,
          kept_singleton.mpr ((mem_readDirectory keep before).mp hmem)⟩
      · obtain hd | hd := List.mem_append.mp hd
        · obtain ⟨name, data, hmem, hpath⟩ := mem_pending.mp (List.mem_reverse.mp hd)
          obtain ⟨hmem, hname⟩ := (mem_readDirectory keep before).mp hmem
          refine ⟨_, List.mem_cons_self, name :: below, by rw [hpath, List.append_assoc]; rfl, ?_⟩
          exact (kept_cons hkept.ne_nil).mpr ⟨data, d.2, hmem, hname, hkept⟩
        · exact ⟨d, List.mem_cons_of_mem _ hd, below, rfl, hkept⟩
    · rintro ⟨d, hd, below, rfl, hkept⟩
      obtain rfl | hd := List.mem_cons.mp hd
      · cases below with
        | nil => exact absurd rfl hkept.ne_nil
        | cons name rest =>
          by_cases hrest : rest = []
          · subst hrest
            exact Or.inl (List.mem_map.mpr ⟨(name, node),
              (mem_readDirectory keep before).mpr (kept_singleton.mp hkept), rfl⟩)
          · obtain ⟨data, children, hmem, hname, hbelow⟩ := (kept_cons hrest).mp hkept
            refine Or.inr ⟨(path ++ [name], children), ?_, rest, by rw [List.append_assoc]; rfl,
              hbelow⟩
            refine List.mem_append_left _ (List.mem_reverse.mpr (mem_pending.mpr ?_))
            exact ⟨name, data, (mem_readDirectory keep before).mpr ⟨hmem, hname⟩, rfl⟩
      · exact Or.inr ⟨d, List.mem_append_right _ hd, below, rfl, hkept⟩

/-- Neither path leads to the other. -/
def Apart (path path' : List ν) : Prop := ¬ path <+: path' ∧ ¬ path' <+: path

theorem Apart.concat {path path' : List ν} (h : Apart path path') (name : ν) :
    Apart (path ++ [name]) path' := by
  refine ⟨fun hprefix ↦ h.1 ((List.prefix_append _ _).trans hprefix), fun hprefix ↦ ?_⟩
  obtain heq | hprefix := List.prefix_concat_iff.mp hprefix
  · exact h.1 (heq ▸ List.prefix_append _ _)
  · exact h.2 hprefix

theorem apart_concat {path : List ν} {a b : ν} (h : a ≠ b) : Apart (path ++ [a]) (path ++ [b]) := by
  have hne : ∀ {a b : ν}, a ≠ b → ¬ path ++ [a] <+: path ++ [b] := by
    intro a b hab hprefix
    have heq := hprefix.eq_of_length (by rw [List.length_append, List.length_append]; rfl)
    exact hab (List.singleton_inj.mp (List.append_cancel_left heq))
  exact ⟨hne h, hne h.symm⟩

theorem names_readDirectory (h : Distinct entries) :
    ((readDirectory keep before entries).map Prod.fst).Nodup :=
  (((List.perm_insertionSort _ _).map Prod.fst).nodup_iff).mpr
    (h.names.sublist (List.filter_sublist.map Prod.fst))

/-- A walk meets no path twice. -/
theorem nodup_walk {stack : List (Pending ν δ κ)} (hdistinct : ∀ d ∈ stack, Distinct d.2)
    (hapart : stack.Pairwise fun d d' ↦ Apart d.1 d'.1) :
    ((walk keep before stack).map Prod.fst).Nodup := by
  induction stack using walk.induct keep before with
  | case1 => simp [walk]
  | case2 path entries stack ih =>
    obtain ⟨hentries, hstack⟩ := List.forall_mem_cons.mp hdistinct
    obtain ⟨hhead, htail⟩ := List.pairwise_cons.mp hapart
    have hnames : ((readDirectory keep before entries).map Prod.fst).Nodup :=
      names_readDirectory hentries
    have hpushed : ∀ d ∈ ((readDirectory keep before entries).filterMap (pending path)).reverse,
        ∃ name data, (name, .directory data d.2) ∈ entries ∧ d.1 = path ++ [name] := by
      intro d hd
      obtain ⟨name, data, hmem, hpath⟩ := mem_pending.mp (List.mem_reverse.mp hd)
      exact ⟨name, data, ((mem_readDirectory keep before).mp hmem).1, hpath⟩
    have hbelow : ∀ d ∈ ((readDirectory keep before entries).filterMap (pending path)).reverse ++
        stack, Distinct d.2 := by
      intro d hd
      obtain hd | hd := List.mem_append.mp hd
      · obtain ⟨name, data, hmem, -⟩ := hpushed d hd
        exact hentries.children hmem
      · exact hstack d hd
    have hpending : ((readDirectory keep before entries).filterMap (pending path)).Pairwise
        fun d d' ↦ Apart d'.1 d.1 := by
      refine List.Pairwise.filterMap _ ?_ (List.pairwise_map.mp hnames)
      rintro ⟨a, node⟩ ⟨b, node'⟩ hab d hd d' hd'
      cases node with
      | leaf _ => cases hd
      | directory _ _ =>
        cases node' with
        | leaf _ => cases hd'
        | directory _ _ =>
          obtain rfl := Option.some.inj hd
          obtain rfl := Option.some.inj hd'
          exact apart_concat hab.symm
    have hapart' : (((readDirectory keep before entries).filterMap (pending path)).reverse ++
        stack).Pairwise fun d d' ↦ Apart d.1 d'.1 := by
      refine List.pairwise_append.mpr ⟨List.pairwise_reverse.mpr hpending, htail,
        fun d hd d' hd' ↦ ?_⟩
      obtain ⟨name, data, -, hpath⟩ := hpushed d hd
      rw [hpath]
      exact (hhead d' hd').concat name
    have hown : ((readDirectory keep before entries).map
        (fun e ↦ (path ++ [e.1], e.2))).map Prod.fst =
          ((readDirectory keep before entries).map Prod.fst).map fun name ↦ path ++ [name] := by
      rw [List.map_map, List.map_map]
      rfl
    rw [walk, List.map_append, hown]
    refine List.nodup_append.mpr ⟨hnames.map fun a b hab ↦ ?_, ih hbelow hapart', ?_⟩
    · exact List.singleton_inj.mp (List.append_cancel_left hab)
    · rintro p hp q hq rfl
      obtain ⟨name, -, hname⟩ := List.mem_map.mp hp
      obtain ⟨⟨_, node⟩, hwalk, rfl⟩ := List.mem_map.mp hq
      obtain ⟨d, hd, below, heq, hkept⟩ := mem_walk.mp hwalk
      have hlength : below.length ≠ 0 := fun h ↦ hkept.ne_nil (List.length_eq_zero_iff.mp h)
      obtain hd | hd := List.mem_append.mp hd
      · obtain ⟨other, data, -, hpath⟩ := hpushed d hd
        have hlengths := congrArg List.length (hname.trans heq)
        rw [hpath, List.length_append, List.length_append, List.length_append,
          List.length_singleton, List.length_singleton] at hlengths
        omega
      · have hprefix : d.1 <+: path ++ [name] := ⟨below, (hname.trans heq).symm⟩
        obtain hsame | hprefix := List.prefix_concat_iff.mp hprefix
        · have hlengths := congrArg List.length (hsame.trans (hname.trans heq))
          rw [List.length_append] at hlengths
          omega
        · exact (hhead d hd).2 hprefix

/-- The walk of a whole tree. -/
theorem mem_walk_root {p : List ν} :
    (p, node) ∈ walk keep before [([], entries)] ↔ Kept keep entries p node := by
  rw [mem_walk]
  constructor
  · rintro ⟨d, hd, path, rfl, hkept⟩
    obtain rfl := List.mem_singleton.mp hd
    exact hkept
  · exact fun h ↦ ⟨_, List.mem_singleton_self _, p, rfl, h⟩

/-! ### Walks of trees that agree -/

section Agreement

variable {ω : Type} {observe : Node ν δ κ → ω} {entries' : Listing ν δ κ}

/-- The trees have nodes that look alike at the same kept paths. -/
def Agree (keep : ν → Bool) (observe : Node ν δ κ → ω) (entries entries' : Listing ν δ κ) : Prop :=
  ∀ path seen, (∃ node, Kept keep entries path node ∧ observe node = seen) ↔
    ∃ node, Kept keep entries' path node ∧ observe node = seen

theorem Agree.symm (h : Agree keep observe entries entries') : Agree keep observe entries' entries :=
  fun path seen ↦ (h path seen).symm

/-- The order tells apart the kept names of every directory. -/
def NoTies (keep : ν → Bool) (before : ν → ν → Prop) (entries : Listing ν δ κ) : Prop :=
  ∀ path a b node node', Kept keep entries (path ++ [a]) node →
    Kept keep entries (path ++ [b]) node' → before a b → before b a → a = b

/-- A node is a directory if one that looks like it is. -/
def SeesDirectories (observe : Node ν δ κ → ω) : Prop :=
  ∀ data children node, observe (.directory data children) = observe node →
    ∃ data' children', node = .directory data' children'

theorem Agree.observe_eq (h : Agree keep observe entries entries') (hdistinct : Distinct entries')
    (hkept : Kept keep entries path node) (hkept' : Kept keep entries' path node') :
    observe node = observe node' := by
  obtain ⟨same, hsame, hobserve⟩ := (h path (observe node)).mp ⟨node, hkept, rfl⟩
  rw [← hobserve, hsame.1.unique hdistinct hkept'.1]

/-- Directories of one name agree. -/
theorem Agree.children (h : Agree keep observe entries entries') (hdistinct : Distinct entries)
    (hdistinct' : Distinct entries') {name : ν} {data data' : δ} {children children' : Listing ν δ κ}
    (hname : keep name = true) (hmem : (name, .directory data children) ∈ entries)
    (hmem' : (name, .directory data' children') ∈ entries') :
    Agree keep observe children children' := by
  have hbelow : ∀ {entries : Listing ν δ κ} {data : δ} {children : Listing ν δ κ},
      Distinct entries → (name, .directory data children) ∈ entries → ∀ {path node}, path ≠ [] →
        (Kept keep entries (name :: path) node ↔ Kept keep children path node) := by
    intro entries data children hdistinct hmem path node hpath
    rw [kept_cons hpath]
    constructor
    · rintro ⟨data', children', hmem', -, hkept⟩
      obtain ⟨-, rfl⟩ := Node.directory.inj (hdistinct.eq_of_mem hmem hmem')
      exact hkept
    · exact fun hkept ↦ ⟨data, children, hmem, hname, hkept⟩
  intro path seen
  by_cases hpath : path = []
  · subst hpath
    constructor
    · rintro ⟨_, hkept, -⟩
      exact absurd rfl hkept.ne_nil
    · rintro ⟨_, hkept, -⟩
      exact absurd rfl hkept.ne_nil
  · have hwhole := h (name :: path) seen
    simp only [hbelow hdistinct hmem hpath, hbelow hdistinct' hmem' hpath] at hwhole
    exact hwhole

omit [DecidableRel before] in
theorem NoTies.children (h : NoTies keep before entries) {name : ν} {data : δ}
    {children : Listing ν δ κ} (hname : keep name = true)
    (hmem : (name, .directory data children) ∈ entries) : NoTies keep before children := by
  intro path a b node node' hkept hkept' hab hba
  exact h (name :: path) a b node node'
    ((kept_cons hkept.ne_nil).mpr ⟨data, children, hmem, hname, hkept⟩)
    ((kept_cons hkept'.ne_nil).mpr ⟨data, children, hmem, hname, hkept'⟩) hab hba

theorem forall₂_of_map_eq {α β γ : Type} {f : α → γ} {g : β → γ} {r : α → β → Prop} {xs : List α}
    {ys : List β} (h : xs.map f = ys.map g) (hr : ∀ x ∈ xs, ∀ y ∈ ys, f x = g y → r x y) :
    List.Forall₂ r xs ys := by
  induction xs generalizing ys with
  | nil =>
    obtain rfl := List.map_eq_nil_iff.mp h.symm
    exact .nil
  | cons x xs ih =>
    cases ys with
    | nil => cases h
    | cons y ys =>
      obtain ⟨hxy, hrest⟩ := List.cons.inj h
      exact .cons (hr x List.mem_cons_self y List.mem_cons_self hxy)
        (ih hrest fun x hx y hy ↦ hr x (List.mem_cons_of_mem _ hx) y (List.mem_cons_of_mem _ hy))

/-- Two listings that agree and can be sorted in one way only. -/
structure Alike (keep : ν → Bool) (before : ν → ν → Prop) (observe : Node ν δ κ → ω)
    (entries entries' : Listing ν δ κ) : Prop where
  distinct : Distinct entries
  distinct' : Distinct entries'
  agree : Agree keep observe entries entries'
  noTies : NoTies keep before entries

/-- What is read of two directories that agree, entry by entry. -/
theorem Alike.readDirectory [Std.Total before] [IsTrans ν before]
    (h : Alike keep before observe entries entries') :
    List.Forall₂ (fun e e' ↦ e.1 = e'.1 ∧ observe e.2 = observe e'.2 ∧
      ∀ data children data' children', e.2 = .directory data children →
        e'.2 = .directory data' children' → Alike keep before observe children children')
      (readDirectory keep before entries) (readDirectory keep before entries') := by
  have hmem : ∀ {entries entries' : Listing ν δ κ}, Agree keep observe entries entries' →
      ∀ name, name ∈ (FileTree.readDirectory keep before entries).map Prod.fst →
        name ∈ (FileTree.readDirectory keep before entries').map Prod.fst := by
    intro entries entries' hagree name hname
    obtain ⟨⟨_, node⟩, hread, rfl⟩ := List.mem_map.mp hname
    obtain ⟨node', hkept, -⟩ := (hagree [_] (observe node)).mp
      ⟨node, kept_singleton.mpr ((mem_readDirectory keep before).mp hread), rfl⟩
    exact List.mem_map.mpr ⟨(_, node'),
      (mem_readDirectory keep before).mpr (kept_singleton.mp hkept), rfl⟩
  have hperm := (List.perm_ext_iff_of_nodup (names_readDirectory h.distinct)
    (names_readDirectory h.distinct')).mpr
    fun name ↦ ⟨hmem h.agree name, hmem h.agree.symm name⟩
  have hsorted : ∀ entries : Listing ν δ κ,
      ((FileTree.readDirectory keep before entries).map Prod.fst).Pairwise before := by
    intro entries
    have : Std.Total (fun a b : ν × Node ν δ κ ↦ before a.1 b.1) :=
      ⟨fun a b ↦ Std.Total.total a.1 b.1⟩
    have : IsTrans (ν × Node ν δ κ) (fun a b ↦ before a.1 b.1) :=
      ⟨fun a b c ↦ IsTrans.trans a.1 b.1 c.1⟩
    exact List.pairwise_map.mpr (List.pairwise_insertionSort _ _)
  have hnames : (FileTree.readDirectory keep before entries).map Prod.fst =
      (FileTree.readDirectory keep before entries').map Prod.fst := by
    refine hperm.eq_of_pairwise (fun a b ha hb hab hba ↦ ?_) (hsorted _) (hsorted _)
    obtain ⟨⟨_, node⟩, hread, rfl⟩ := List.mem_map.mp ha
    obtain ⟨⟨_, node'⟩, hread', rfl⟩ := List.mem_map.mp (hperm.mem_iff.mpr hb)
    exact h.noTies [] _ _ node node'
      (kept_singleton.mpr ((mem_readDirectory keep before).mp hread))
      (kept_singleton.mpr ((mem_readDirectory keep before).mp hread')) hab hba
  refine forall₂_of_map_eq hnames ?_
  rintro ⟨name, node⟩ hread ⟨_, node'⟩ hread' rfl
  have hread := (mem_readDirectory keep before).mp hread
  have hread' := (mem_readDirectory keep before).mp hread'
  refine ⟨rfl, h.agree.observe_eq h.distinct' (kept_singleton.mpr hread)
    (kept_singleton.mpr hread'), ?_⟩
  rintro data children data' children' rfl rfl
  exact ⟨h.distinct.children hread.1, h.distinct'.children hread'.1,
    h.agree.children h.distinct h.distinct' hread.2 hread.1 hread'.1,
    h.noTies.children hread.2 hread.1⟩

/-- **Agreement.** Walks of trees that agree meet nodes that look alike at the same paths, in the
same order, whatever the order of their listings. -/
theorem walk_eq_of_alike [Std.Total before] [IsTrans ν before] (hsees : SeesDirectories observe)
    {stack stack' : List (Pending ν δ κ)}
    (h : List.Forall₂ (fun d d' ↦ d.1 = d'.1 ∧ Alike keep before observe d.2 d'.2) stack stack') :
    (walk keep before stack).map (fun e ↦ (e.1, observe e.2)) =
      (walk keep before stack').map (fun e ↦ (e.1, observe e.2)) := by
  induction stack using walk.induct keep before generalizing stack' with
  | case1 =>
    cases h
    rfl
  | case2 path entries stack ih =>
    cases h with
    | cons hhead htail =>
      rename_i d' stack'
      obtain ⟨path', entries'⟩ := d'
      obtain ⟨hpath, halike⟩ := hhead
      obtain rfl : path = path' := hpath
      have hread := halike.readDirectory
      have hown : (readDirectory keep before entries).map (fun e ↦ (path ++ [e.1], observe e.2)) =
          (readDirectory keep before entries').map (fun e ↦ (path ++ [e.1], observe e.2)) := by
        refine List.forall₂_eq_eq_eq ▸ List.forall₂_map_left_iff.mpr
          (List.forall₂_map_right_iff.mpr (hread.imp fun e e' he ↦ ?_))
        rw [he.1, he.2.1]
      have hpushed : List.Forall₂ (fun d d' ↦ d.1 = d'.1 ∧ Alike keep before observe d.2 d'.2)
          ((readDirectory keep before entries).filterMap (pending path))
          ((readDirectory keep before entries').filterMap (pending path)) := by
        refine List.Forall₂.rec .nil (fun {e e' es es'} he _ hes ↦ ?_) hread
        obtain ⟨name, node⟩ := e
        obtain ⟨name', node'⟩ := e'
        obtain ⟨hname, hobserve, hchildren⟩ := he
        obtain rfl : name = name' := hname
        cases node with
        | directory data children =>
          obtain ⟨data', children', rfl⟩ := hsees data children node' hobserve
          exact .cons ⟨rfl, hchildren data children data' children' rfl rfl⟩ hes
        | leaf value =>
          cases node' with
          | directory data' children' =>
            obtain ⟨_, _, hleaf⟩ := hsees data' children' _ hobserve.symm
            cases hleaf
          | leaf value' => exact hes
      have hrest := ih (List.rel_append (List.rel_reverse hpushed) htail)
      rw [walk, walk, List.map_append, List.map_append, hrest, List.map_map, List.map_map]
      exact congrArg (· ++ _) hown

end Agreement

end Foundation.FileTree
