import ApiMigrator.App.GitTreeInsertion
import ApiMigrator.Foundation.Framing
import Mathlib.Data.List.Sort

/-!
Git tree identity: the id of a list of entries is the recursive tree hash of the files it names, in
Git's order of names, and tells apart different sets of files as far as the hash does.
-/

set_option autoImplicit false
set_option relaxedAutoImplicit false

namespace ApiMigrator.App.GitTree

open Foundation.Text Foundation.Number Foundation.Outcome Foundation.Pattern Foundation.Binary
open Foundation.Framing (append_cons_injective notMem_utf8Encode)

/-! ### The order of names -/

/-- The byte that Git compares after the end of a name. -/
def nameTerminator (directory : Bool) : UInt8 := if directory then 0x2f else 0

/-- Git's `base_name_compare`: the common length as bytes, then the next byte of each name, where a
name that has ended has a slash if it is a directory's and NUL otherwise. -/
def compareNames (left right : Bool) : Bytes → Bytes → Ordering
  | [], [] => compare (nameTerminator left).toNat (nameTerminator right).toNat
  | [], y :: _ => compare (nameTerminator left).toNat y.toNat
  | x :: _, [] => compare x.toNat (nameTerminator right).toNat
  | x :: xs, y :: ys => if x = y then compareNames left right xs ys else compare x.toNat y.toNat

def baseNameCompare (left right : EncodedTreeItem) : Ordering :=
  compareNames left.directory right.directory (utf8Encode left.name) (utf8Encode right.name)

/-- The bytes that the code sorts by. -/
def nameKey (directory : Bool) (name : Bytes) : Bytes := if directory then name ++ [0x2f] else name

private theorem nameKey_cons (directory : Bool) (b : UInt8) (name : Bytes) :
    nameKey directory (b :: name) = b :: nameKey directory name := by
  rw [nameKey, nameKey]
  split_ifs <;> rfl

theorem compareNames_lt {left right : Bool} {x y : Bytes}
    (hx : (0 : UInt8) ∉ x ∧ (0x2f : UInt8) ∉ x) (hy : (0 : UInt8) ∉ y ∧ (0x2f : UInt8) ∉ y) :
    compareNames left right x y = .lt ↔ nameKey left x < nameKey right y := by
  induction x generalizing y with
  | nil =>
    cases y with
    | nil => cases left <;> cases right <;> decide
    | cons b y =>
      have hslash : (0x2f : UInt8) ≠ b := fun h ↦ hy.2 (h ▸ List.mem_cons_self)
      rw [compareNames, Nat.compare_eq_lt, ← UInt8.lt_iff_toNat_lt, nameKey_cons]
      cases left with
      | false =>
        have hpos : (0 : UInt8) < b := by
          refine UInt8.lt_iff_toNat_lt.mpr (Nat.pos_of_ne_zero fun hzero ↦ ?_)
          obtain rfl : b = 0 := UInt8.toNat_inj.mp hzero
          exact hy.1 List.mem_cons_self
        exact ⟨fun _ ↦ List.nil_lt_cons _ _, fun _ ↦ hpos⟩
      | true =>
        rw [nameKey, if_pos rfl, List.nil_append, List.cons_lt_cons_iff]
        simp [hslash, nameTerminator]
  | cons a x ih =>
    have hxs : (0 : UInt8) ∉ x ∧ (0x2f : UInt8) ∉ x :=
      ⟨fun h ↦ hx.1 (List.mem_cons_of_mem a h), fun h ↦ hx.2 (List.mem_cons_of_mem a h)⟩
    cases y with
    | nil =>
      have hslash : a ≠ (0x2f : UInt8) := fun h ↦ hx.2 (h ▸ List.mem_cons_self)
      rw [compareNames, Nat.compare_eq_lt, ← UInt8.lt_iff_toNat_lt, nameKey_cons]
      cases right with
      | false =>
        refine iff_of_false (fun h ↦ ?_) (List.not_lt_nil _)
        exact Nat.not_lt_zero _ (UInt8.lt_iff_toNat_lt.mp h)
      | true =>
        rw [nameKey.eq_def true [], if_pos rfl, List.nil_append, List.cons_lt_cons_iff]
        simp [hslash, nameTerminator]
    | cons b y =>
      have hys : (0 : UInt8) ∉ y ∧ (0x2f : UInt8) ∉ y :=
        ⟨fun h ↦ hy.1 (List.mem_cons_of_mem b h), fun h ↦ hy.2 (List.mem_cons_of_mem b h)⟩
      rw [compareNames, nameKey_cons, nameKey_cons, List.cons_lt_cons_iff]
      split_ifs with hsame
      · subst hsame
        rw [ih hxs hys]
        simp
      · rw [Nat.compare_eq_lt, ← UInt8.lt_iff_toNat_lt]
        simp [hsame]

theorem bytes_of_name {name : JsString} (h : IsName name) :
    (0 : UInt8) ∉ utf8Encode name ∧ (0x2f : UInt8) ∉ utf8Encode name := by
  constructor
  · intro hmem
    obtain ⟨c, hc, heq⟩ := mem_of_mem_utf8Encode hmem (by decide)
    obtain rfl : c = 0 := UInt16.toNat_inj.mp heq
    exact h.nul hc
  · intro hmem
    obtain ⟨c, hc, heq⟩ := mem_of_mem_utf8Encode hmem (by decide)
    obtain rfl : c = 0x2f := UInt16.toNat_inj.mp heq
    exact h.slash hc

theorem sortName_eq {item : EncodedTreeItem} (h : IsName item.name) :
    item.sortName = nameKey item.directory (utf8Encode item.name) := by
  rw [EncodedTreeItem.sortName, nameKey]
  split_ifs
  · rw [utf8Encode_append h.wellFormed]
    rfl
  · rfl

/-- The code's order of items is Git's. -/
theorem baseNameCompare_lt {left right : EncodedTreeItem} (hleft : IsName left.name)
    (hright : IsName right.name) :
    baseNameCompare left right = .lt ↔ left.sortName < right.sortName := by
  rw [sortName_eq hleft, sortName_eq hright]
  exact compareNames_lt (bytes_of_name hleft) (bytes_of_name hright)

/-! ### Objects -/

/-- What is hashed of an object. -/
def framed (type : String) (body : Bytes) : Bytes :=
  utf8Encode (js type ++ js " " ++ decimalDigits body.length) ++ 0 :: body

def Hashes.digest (H : Hashes) : GitObjectFormat → Bytes → Bytes
  | .sha1 => H.sha1.digest
  | .sha256 => H.sha256.digest

def GitObjectFormat.size : GitObjectFormat → ℕ
  | .sha1 => 20
  | .sha256 => 32

theorem length_digest (H : Hashes) (format : GitObjectFormat) (bytes : Bytes) :
    (H.digest format bytes).length = format.size := by
  cases format with
  | sha1 => exact H.sha1.length_digest bytes
  | sha256 => exact H.sha256.length_digest bytes

theorem hashGitObject_eq (H : Hashes) (type : String) (body : Bytes) (format : GitObjectFormat) :
    hashGitObject H type body format = H.digest format (framed type body) := by
  cases format <;> rfl

private theorem header_bytes {type : String} (htype : ∀ c ∈ js type ++ js " ", c.toNat < 0x80 ∧ c ≠ 0)
    (n : ℕ) : (0 : UInt8) ∉ utf8Encode (js type ++ js " " ++ decimalDigits n) := by
  intro hmem
  obtain ⟨c, hc, heq⟩ := mem_of_mem_utf8Encode hmem (by decide)
  obtain rfl : c = 0 := UInt16.toNat_inj.mp heq
  obtain hc | hc := List.mem_append.mp hc
  · exact (htype 0 hc).2 rfl
  · have := isDigit_of_mem_decimalDigits hc
    revert this
    decide

theorem framed_injective {body body' : Bytes} {type type' : String}
    (htype : type = "blob" ∨ type = "tree") (htype' : type' = "blob" ∨ type' = "tree")
    (h : framed type body = framed type' body') : type = type' ∧ body = body' := by
  have hascii : ∀ {type : String}, type = "blob" ∨ type = "tree" →
      ∀ c ∈ js type ++ js " ", c.toNat < 0x80 ∧ c ≠ 0 := by
    rintro type (rfl | rfl) <;> exact forall_mem_of_all (by decide)
  obtain ⟨hheader, hbody⟩ := append_cons_injective (header_bytes (hascii htype) _)
    (header_bytes (hascii htype') _) h
  refine ⟨?_, hbody⟩
  have hblob : (utf8Encode (js "blob")).head? = some 0x62 := by decide
  have htree : (utf8Encode (js "tree")).head? = some 0x74 := by decide
  rw [List.append_assoc, utf8Encode_append (isWellFormed_js type), List.append_assoc,
    utf8Encode_append (isWellFormed_js type')] at hheader
  have hhead := congrArg List.head? hheader
  rw [List.head?_append, List.head?_append] at hhead
  obtain rfl | rfl := htype <;> obtain rfl | rfl := htype'
  · rfl
  · rw [hblob, htree] at hhead
    cases hhead
  · rw [hblob, htree] at hhead
    cases hhead
  · rfl

/-! ### Items -/

def directoryItem (name : JsString) (oid : Bytes) : EncodedTreeItem :=
  { name, directory := true, mode := js "40000", oid }

/-- What the items of a tree are. -/
structure IsItem (format : GitObjectFormat) (item : EncodedTreeItem) : Prop where
  name : IsName item.name
  mode : item.directory = true ∧ item.mode = js "40000" ∨
    item.directory = false ∧ ∃ mode : GitFileMode, item.mode = mode.text
  oid : item.oid.length = format.size

private theorem mode_ascii {format : GitObjectFormat} {item : EncodedTreeItem}
    (h : IsItem format item) : ∀ c ∈ item.mode, c.toNat < 0x80 ∧ c ≠ 0x20 ∧ c ≠ 0 := by
  obtain ⟨-, ⟨-, hmode⟩ | ⟨-, mode, hmode⟩, -⟩ := h
  · rw [hmode]
    exact forall_mem_of_all (by decide)
  · rw [hmode]
    cases mode <;> exact forall_mem_of_all (by decide)

private theorem item_bytes_eq (item : EncodedTreeItem) (hmode : ∀ c ∈ item.mode, c.toNat < 0x80) :
    item.bytes = (utf8Encode item.mode ++ 0x20 :: utf8Encode item.name) ++ 0 :: item.oid := by
  have hwell : isWellFormed item.mode = true := isWellFormed_of_forall fun c hc ↦ by
    have := hmode c hc
    simp only [isSurrogate, isHighSurrogate, isLowSurrogate, Bool.or_eq_false_iff,
      decide_eq_false_iff_not]
    omega
  rw [EncodedTreeItem.bytes, utf8Encode_append hwell, List.append_assoc (utf8Encode item.mode)]
  rfl

/-- An item can be read off the bytes that begin with it. -/
private theorem item_injective {format : GitObjectFormat} {item item' : EncodedTreeItem}
    (hitem : IsItem format item) (hitem' : IsItem format item') {rest rest' : Bytes}
    (h : item.bytes ++ rest = item'.bytes ++ rest') : item = item' ∧ rest = rest' := by
  have hmode := mode_ascii hitem
  have hmode' := mode_ascii hitem'
  have hheader : ∀ {item : EncodedTreeItem}, IsItem format item →
      (0 : UInt8) ∉ utf8Encode item.mode ++ 0x20 :: utf8Encode item.name := by
    intro item hitem hmem
    obtain hmem | hmem := List.mem_append.mp hmem
    · exact notMem_utf8Encode (c := 0) (by decide) rfl
        (fun h ↦ (mode_ascii hitem 0 h).2.2 rfl) hmem
    · obtain hmem | hmem := List.mem_cons.mp hmem
      · revert hmem
        decide
      · exact (bytes_of_name hitem.name).1 hmem
  have hspace : ∀ {item : EncodedTreeItem}, IsItem format item →
      (0x20 : UInt8) ∉ utf8Encode item.mode := fun hitem ↦
    notMem_utf8Encode (c := 0x20) (by decide) rfl fun h ↦ (mode_ascii hitem 0x20 h).2.1 rfl
  rw [item_bytes_eq item fun c hc ↦ (hmode c hc).1, item_bytes_eq item' fun c hc ↦ (hmode' c hc).1,
    List.append_assoc _ (0 :: item.oid) rest, List.append_assoc _ (0 :: item'.oid) rest',
    List.cons_append, List.cons_append] at h
  obtain ⟨hnames, htail⟩ := append_cons_injective (hheader hitem) (hheader hitem') h
  obtain ⟨hoid, hrest⟩ := List.append_inj htail (hitem.oid.trans hitem'.oid.symm)
  obtain ⟨hmodes, hnames⟩ := append_cons_injective (hspace hitem) (hspace hitem') hnames
  have hmodes := eq_of_utf8Encode_eq (fun c hc ↦ (hmode' c hc).1) hmodes
  have hnames := utf8Encode_injective hitem.name.wellFormed hitem'.name.wellFormed hnames
  refine ⟨?_, hrest⟩
  have hdirectory : item.directory = item'.directory := by
    have hother : ∀ mode : GitFileMode, mode.text ≠ js "40000" := by
      intro mode
      cases mode <;> decide
    obtain ⟨hd, hm⟩ | ⟨hd, m, hm⟩ := hitem.mode <;>
      obtain ⟨hd', hm'⟩ | ⟨hd', m', hm'⟩ := hitem'.mode
    · rw [hd, hd']
    · exact absurd (hm'.symm.trans (hmodes.symm.trans hm)) (hother m')
    · exact absurd (hm.symm.trans (hmodes.trans hm')) (hother m)
    · rw [hd, hd']
  obtain ⟨name, directory, mode, oid⟩ := item
  obtain ⟨name', directory', mode', oid'⟩ := item'
  simp only at hnames hdirectory hmodes hoid
  rw [hnames, hdirectory, hmodes, hoid]

private theorem bytes_ne_nil (item : EncodedTreeItem) : item.bytes ≠ [] := by
  simp [EncodedTreeItem.bytes]

/-- The items of a body can be read off it. -/
theorem items_injective {format : GitObjectFormat} {items items' : List EncodedTreeItem}
    (hitems : ∀ item ∈ items, IsItem format item) (hitems' : ∀ item ∈ items', IsItem format item)
    (h : items.flatMap EncodedTreeItem.bytes = items'.flatMap EncodedTreeItem.bytes) :
    items = items' := by
  induction items generalizing items' with
  | nil =>
    cases items' with
    | nil => rfl
    | cons item' items' =>
      rw [List.flatMap_nil, List.flatMap_cons] at h
      exact absurd (List.append_eq_nil_iff.mp h.symm).1 (bytes_ne_nil item')
  | cons item items ih =>
    cases items' with
    | nil =>
      rw [List.flatMap_nil, List.flatMap_cons] at h
      exact absurd (List.append_eq_nil_iff.mp h).1 (bytes_ne_nil item)
    | cons item' items' =>
      rw [List.flatMap_cons, List.flatMap_cons] at h
      obtain ⟨rfl, hrest⟩ := item_injective (hitems item List.mem_cons_self)
        (hitems' item' List.mem_cons_self) h
      rw [ih (fun i hi ↦ hitems i (List.mem_cons_of_mem item hi))
        (fun i hi ↦ hitems' i (List.mem_cons_of_mem item hi)) hrest]

/-! ### Tree hashes -/

section Hashing

variable (H : Hashes) (format : GitObjectFormat)

/-- The name of a directory of the contents. -/
def IsDirectoryName (contents : List JsString → FileNode → Prop) (name : JsString) : Prop :=
  ∃ rest file, rest ≠ [] ∧ contents (name :: rest) file

/-- The tree hash of contents: the hash of the items of a directory, strictly in Git's order of
names, where the item of a directory has the tree hash of what is below it. -/
inductive IsTreeOid : (List JsString → FileNode → Prop) → Bytes → Prop
  | mk {contents : List JsString → FileNode → Prop} (items : List EncodedTreeItem)
      (oids : JsString → Bytes)
      (children : ∀ name, IsDirectoryName contents name →
        IsTreeOid (fun rest file ↦ rest ≠ [] ∧ contents (name :: rest) file) (oids name))
      (sorted : items.Pairwise fun left right ↦ baseNameCompare left right = .lt)
      (mem : ∀ item, item ∈ items ↔
        (∃ name file, contents [name] file ∧ item = fileItem H format (name, file)) ∨
          ∃ name, IsDirectoryName contents name ∧ item = directoryItem name (oids name)) :
      IsTreeOid contents (H.digest format (framed "tree" (items.flatMap EncodedTreeItem.bytes)))

private theorem compareNames_swap (left right : Bool) (x y : Bytes) :
    compareNames left right x y = (compareNames right left y x).swap := by
  induction x generalizing y with
  | nil => cases y <;> simp [compareNames, Nat.compare_swap]
  | cons a x ih =>
    cases y with
    | nil => simp [compareNames, Nat.compare_swap]
    | cons b y =>
      rw [compareNames, compareNames]
      by_cases hsame : a = b
      · rw [if_pos hsame, if_pos hsame.symm, ih]
      · rw [if_neg hsame, if_neg (Ne.symm hsame), Nat.compare_swap]

/-- Lists in Git's order are told by their items. -/
theorem eq_of_sorted {items items' : List EncodedTreeItem}
    (h : items.Pairwise fun left right ↦ baseNameCompare left right = .lt)
    (h' : items'.Pairwise fun left right ↦ baseNameCompare left right = .lt)
    (hmem : ∀ item, item ∈ items ↔ item ∈ items') : items = items' := by
  have hasymm : ∀ left right, baseNameCompare left right = .lt →
      baseNameCompare right left ≠ .lt := by
    intro left right hlt
    rw [baseNameCompare, compareNames_swap, ← baseNameCompare, hlt]
    decide
  have hdistinct : ∀ {l : List EncodedTreeItem},
      l.Pairwise (fun left right ↦ baseNameCompare left right = .lt) → l.Nodup := fun hl ↦
    hl.imp fun {left right} hlt (heq : left = right) ↦ hasymm left right hlt (heq ▸ heq ▸ hlt)
  refine ((List.perm_ext_iff_of_nodup (hdistinct h) (hdistinct h')).mpr hmem).eq_of_pairwise ?_ h h'
  intro left right _ _ hlt hgt
  exact absurd hgt (hasymm left right hlt)

/-- Contents have one tree hash. -/
theorem IsTreeOid.unique {contents : List JsString → FileNode → Prop} {oid oid' : Bytes}
    (h : IsTreeOid H format contents oid) (h' : IsTreeOid H format contents oid') : oid = oid' := by
  induction h generalizing oid' with
  | mk items oids _ sorted mem ih =>
    obtain ⟨items', oids', children', sorted', mem'⟩ := h'
    have hoids : ∀ name, IsDirectoryName _ name → oids name = oids' name := fun name hname ↦
      ih name hname (children' name hname)
    have hitems : items = items' := by
      refine eq_of_sorted sorted sorted' fun item ↦ ?_
      rw [mem, mem']
      refine or_congr Iff.rfl (exists_congr fun name ↦ and_congr_right fun hname ↦ ?_)
      rw [hoids name hname]
    rw [hitems]

variable {H format}

theorem directoryItems_eq (directories : List (JsString × DirectoryNode)) :
    directoryItems H format directories = directories.map fun e ↦
      directoryItem e.1 (encodeDirectory H format e.2) := by
  induction directories with
  | nil => rfl
  | cons e directories ih =>
    obtain ⟨name, child⟩ := e
    rw [directoryItems, ih, List.map_cons]
    rfl

/-- The items of a directory, before they are sorted. -/
def itemsOf (H : Hashes) (format : GitObjectFormat) (directories : List (JsString × DirectoryNode))
    (files : List (JsString × FileNode)) : List EncodedTreeItem :=
  directoryItems H format directories ++ files.map (fileItem H format)

def sortItems (items : List EncodedTreeItem) : List EncodedTreeItem :=
  items.insertionSort fun left right ↦ compareTreeItems left right = true

theorem encodeDirectory_eq (directories : List (JsString × DirectoryNode))
    (files : List (JsString × FileNode)) :
    encodeDirectory H format (.mk directories files) = H.digest format (framed "tree"
      ((sortItems (itemsOf H format directories files)).flatMap EncodedTreeItem.bytes)) := by
  rw [encodeDirectory, hashGitObject_eq]
  rfl

variable {directories : List (JsString × DirectoryNode)} {files : List (JsString × FileNode)}

theorem mem_itemsOf {item : EncodedTreeItem} : item ∈ itemsOf H format directories files ↔
    (∃ name child, (name, child) ∈ directories ∧
      item = directoryItem name (encodeDirectory H format child)) ∨
    ∃ name file, (name, file) ∈ files ∧ item = fileItem H format (name, file) := by
  rw [itemsOf, List.mem_append, directoryItems_eq, List.mem_map, List.mem_map]
  simp only [Prod.exists, eq_comm]

theorem length_encodeDirectory (d : DirectoryNode) :
    (encodeDirectory H format d).length = format.size := by
  obtain ⟨directories, files⟩ := d
  rw [encodeDirectory_eq]
  exact length_digest H format _

theorem isItem_itemsOf (hgood : DirectoryNode.Good (.mk directories files)) :
    ∀ item ∈ itemsOf H format directories files, IsItem format item := by
  obtain ⟨-, -, -, hdirectoryNames, hfileNames, -, -⟩ := hgood
  intro item hitem
  obtain ⟨name, child, hmem, rfl⟩ | ⟨name, file, hmem, rfl⟩ := mem_itemsOf.mp hitem
  · exact ⟨hdirectoryNames name (List.mem_map_of_mem hmem), Or.inl ⟨rfl, rfl⟩,
      length_encodeDirectory child⟩
  · refine ⟨hfileNames name (List.mem_map_of_mem hmem), Or.inr ⟨rfl, file.mode, rfl⟩, ?_⟩
    rw [fileItem, hashGitObject_eq]
    exact length_digest H format _

theorem perm_sortItems (items : List EncodedTreeItem) : (sortItems items).Perm items :=
  List.perm_insertionSort _ items

private theorem nodup_names (hgood : DirectoryNode.Good (.mk directories files)) :
    ((itemsOf H format directories files).map EncodedTreeItem.name).Nodup := by
  obtain ⟨hdirectories, hfiles, hapart, -, -, -, -⟩ := hgood
  have hnames : (itemsOf H format directories files).map EncodedTreeItem.name =
      directories.map Prod.fst ++ files.map Prod.fst := by
    rw [itemsOf, directoryItems_eq, List.map_append, List.map_map, List.map_map]
    rfl
  rw [hnames]
  exact List.nodup_append.mpr ⟨hdirectories, hfiles, fun a ha b hb hab ↦
    hapart a ha (hab ▸ hb)⟩

private theorem name_of_sortName {left right : EncodedTreeItem} (hleft : IsName left.name)
    (hright : IsName right.name) (h : left.sortName = right.sortName) : left.name = right.name := by
  rw [sortName_eq hleft, sortName_eq hright, nameKey, nameKey] at h
  have hencoded : utf8Encode left.name = utf8Encode right.name := by
    split_ifs at h with hl hr hr
    · exact List.append_cancel_right h
    · exact absurd (h ▸ List.mem_append_right _ (List.mem_singleton_self _))
        (bytes_of_name hright).2
    · exact absurd (h ▸ List.mem_append_right _ (List.mem_singleton_self _))
        (bytes_of_name hleft).2
    · exact h
  exact utf8Encode_injective hleft.wellFormed hright.wellFormed hencoded

/-- The code sorts the items of a directory in Git's order. -/
theorem sorted_sortItems (hgood : DirectoryNode.Good (.mk directories files)) :
    (sortItems (itemsOf H format directories files)).Pairwise fun left right ↦
      baseNameCompare left right = .lt := by
  let le : EncodedTreeItem → EncodedTreeItem → Prop := fun left right ↦
    compareTreeItems left right = true
  have : Std.Total le := ⟨fun left right ↦ (List.le_total left.sortName right.sortName).imp
    (fun h ↦ decide_eq_true h) fun h ↦ decide_eq_true h⟩
  have : IsTrans EncodedTreeItem le := ⟨fun _ _ _ h₁ h₂ ↦
    decide_eq_true (List.le_trans (of_decide_eq_true h₁) (of_decide_eq_true h₂))⟩
  have hperm := perm_sortItems (itemsOf H format directories files)
  have hdistinct : (sortItems (itemsOf H format directories files)).Pairwise fun left right ↦
      left.name ≠ right.name :=
    List.pairwise_map.mp ((hperm.map EncodedTreeItem.name).nodup_iff.mpr (nodup_names hgood))
  have hsorted := List.pairwise_insertionSort le (itemsOf H format directories files)
  refine (hsorted.and hdistinct).imp_of_mem fun {left right} hleft hright ⟨hle, hne⟩ ↦ ?_
  have hleftName := (isItem_itemsOf hgood left (hperm.mem_iff.mp hleft)).name
  have hrightName := (isItem_itemsOf hgood right (hperm.mem_iff.mp hright)).name
  rw [baseNameCompare_lt hleftName hrightName]
  exact Std.lt_of_le_of_ne (of_decide_eq_true hle) fun h ↦
    hne (name_of_sortName hleftName hrightName h)

namespace DirectoryNode

/-- Induction on a tree of directories. -/
theorem rec_children {motive : DirectoryNode → Prop}
    (mk : ∀ directories files, (∀ name child, (name, child) ∈ directories → motive child) →
      motive (.mk directories files)) : ∀ d, motive d
  | .mk directories files => mk directories files fun name child hmem ↦
    have : sizeOf child < sizeOf directories := by
      have := List.sizeOf_lt_of_mem hmem
      simp only [Prod.mk.sizeOf_spec] at this
      omega
    rec_children mk child
termination_by d => sizeOf d
decreasing_by
  simp only [DirectoryNode.mk.sizeOf_spec]
  omega

/-- What is below a name of a directory. -/
theorem below_eq (hgood : Good (.mk directories files)) (name : JsString) :
    (fun rest file ↦ rest ≠ [] ∧ Holds (name :: rest) (.mk directories files) file) =
      fun rest file ↦ Holds rest (GitTree.childDirectory directories name) file := by
  obtain ⟨hdistinct, -, -, -, -, -, -⟩ := hgood
  funext rest file
  refine propext ⟨fun h ↦ (holds_cons_iff hdistinct h.1).mp h.2, fun h ↦ ?_⟩
  have hrest := ne_nil_of_holds h
  exact ⟨hrest, (holds_cons_iff hdistinct hrest).mpr h⟩

theorem isDirectoryName_iff (hgood : Good (.mk directories files)) (name : JsString) :
    IsDirectoryName (fun path file ↦ Holds path (.mk directories files) file) name ↔
      name ∈ directories.map Prod.fst := by
  obtain ⟨hdistinct, -, -, -, -, -, hinhabited⟩ := hgood
  constructor
  · rintro ⟨rest, file, hrest, hholds⟩
    obtain ⟨child, hchild, -⟩ := (holds_cons hrest).mp hholds
    exact List.mem_map_of_mem hchild
  · intro hname
    obtain ⟨path, file, hholds⟩ := hinhabited _ _ (childDirectory_mem hname)
    have hpath := ne_nil_of_holds hholds
    exact ⟨path, file, hpath, (holds_cons_iff hdistinct hpath).mpr hholds⟩

/-- **The code computes the tree hash** of what a directory holds. -/
theorem Good.isTreeOid {d : DirectoryNode} (hgood : Good d) :
    IsTreeOid H format (fun path file ↦ Holds path d file) (encodeDirectory H format d) := by
  induction d using rec_children with
  | mk directories files ih =>
    have hcopy := hgood
    obtain ⟨hdistinct, -, -, -, -, hchildren, -⟩ := hcopy
    rw [encodeDirectory_eq]
    refine .mk _ (fun name ↦ encodeDirectory H format
      (GitTree.childDirectory directories name)) (fun name hname ↦ ?_) (sorted_sortItems hgood)
      fun item ↦ ?_
    · have hmem := childDirectory_mem ((isDirectoryName_iff hgood name).mp hname)
      rw [below_eq hgood]
      exact ih name _ hmem (hchildren name _ hmem)
    · rw [(perm_sortItems _).mem_iff, mem_itemsOf, or_comm]
      refine or_congr Iff.rfl (exists_congr fun name ↦ ?_)
      rw [isDirectoryName_iff hgood]
      constructor
      · rintro ⟨child, hchild, rfl⟩
        have hname : name ∈ directories.map Prod.fst := List.mem_map_of_mem hchild
        rw [eq_of_mem_entries hdistinct (childDirectory_mem hname) hchild]
        exact ⟨hname, rfl⟩
      · rintro ⟨hname, rfl⟩
        exact ⟨_, childDirectory_mem hname, rfl⟩

end DirectoryNode

/-- Everything that is hashed for a directory. -/
inductive IsHashed (H : Hashes) (format : GitObjectFormat) : DirectoryNode → Bytes → Prop
  | tree (directories : List (JsString × DirectoryNode)) (files : List (JsString × FileNode)) :
      IsHashed H format (.mk directories files) (framed "tree"
        ((sortItems (itemsOf H format directories files)).flatMap EncodedTreeItem.bytes))
  | blob {directories : List (JsString × DirectoryNode)} {files : List (JsString × FileNode)}
      {name : JsString} {file : FileNode} : (name, file) ∈ files →
      IsHashed H format (.mk directories files) (framed "blob" file.content)
  | child {directories : List (JsString × DirectoryNode)} {files : List (JsString × FileNode)}
      {name : JsString} {child : DirectoryNode} {bytes : Bytes} : (name, child) ∈ directories →
      IsHashed H format child bytes → IsHashed H format (.mk directories files) bytes

/-- The hash tells apart what is hashed for the two directories. -/
def TellsApart (H : Hashes) (format : GitObjectFormat) (d d' : DirectoryNode) : Prop :=
  ∀ x y, IsHashed H format d x → IsHashed H format d' y →
    H.digest format x = H.digest format y → x = y

/-- The identity of a directory is the hash of bytes that are hashed for it. -/
theorem encodeDirectory_framed (d : DirectoryNode) : ∃ bytes, IsHashed H format d bytes ∧
    encodeDirectory H format d = H.digest format bytes := by
  obtain ⟨directories, files⟩ := d
  exact ⟨_, .tree directories files, encodeDirectory_eq directories files⟩

namespace DirectoryNode

private theorem mode_of_text {mode mode' : GitFileMode} (h : mode.text = mode'.text) :
    mode = mode' := by
  revert h
  cases mode <;> cases mode' <;> decide

/-- **Trees are told apart by their hashes**, as far as the hash tells apart what it is given. -/
theorem Good.holds_of_eq {d d' : DirectoryNode} (hgood : Good d) (hgood' : Good d')
    (hapart : TellsApart H format d d')
    (h : encodeDirectory H format d = encodeDirectory H format d') {path : List JsString}
    {file : FileNode} (hholds : Holds path d file) : Holds path d' file := by
  induction d using rec_children generalizing d' path with
  | mk directories files ih =>
    obtain ⟨directories', files'⟩ := d'
    rw [encodeDirectory_eq, encodeDirectory_eq] at h
    have hbodies := (framed_injective (Or.inr rfl) (Or.inr rfl)
      (hapart _ _ (.tree directories files) (.tree directories' files') h)).2
    have hitems := items_injective
      (fun item hitem ↦ isItem_itemsOf hgood item ((perm_sortItems _).mem_iff.mp hitem))
      (fun item hitem ↦ isItem_itemsOf hgood' item ((perm_sortItems _).mem_iff.mp hitem)) hbodies
    have hmem : ∀ item, item ∈ itemsOf H format directories files →
        item ∈ itemsOf H format directories' files' := by
      intro item hitem
      rw [← (perm_sortItems (itemsOf H format directories' files')).mem_iff, ← hitems]
      exact (perm_sortItems _).mem_iff.mpr hitem
    cases path with
    | nil => exact absurd rfl (ne_nil_of_holds hholds)
    | cons name rest =>
      by_cases hrest : rest = []
      · subst hrest
        have hfile := hmem _ (mem_itemsOf.mpr (Or.inr ⟨name, file, hholds, rfl⟩))
        obtain ⟨name', child', -, hitem⟩ | ⟨name', file', hfile', hitem⟩ := mem_itemsOf.mp hfile
        · exact absurd (congrArg EncodedTreeItem.directory hitem) Bool.false_ne_true
        · obtain rfl : name = name' := congrArg EncodedTreeItem.name hitem
          have hmode := mode_of_text (congrArg EncodedTreeItem.mode hitem)
          have hoid := congrArg EncodedTreeItem.oid hitem
          rw [fileItem, fileItem, hashGitObject_eq, hashGitObject_eq] at hoid
          have hcontent := (framed_injective (Or.inl rfl) (Or.inl rfl)
            (hapart _ _ (.blob hholds) (.blob hfile') hoid)).2
          obtain ⟨mode, content⟩ := file
          obtain ⟨mode', content'⟩ := file'
          obtain rfl : mode = mode' := hmode
          obtain rfl : content = content' := hcontent
          exact hfile'
      · obtain ⟨child, hchild, hbelow⟩ := (holds_cons hrest).mp hholds
        have hdirectory := hmem _ (mem_itemsOf.mpr (Or.inl ⟨name, child, hchild, rfl⟩))
        obtain ⟨name', child', hchild', hitem⟩ | ⟨name', file', -, hitem⟩ :=
          mem_itemsOf.mp hdirectory
        · obtain rfl : name = name' := congrArg EncodedTreeItem.name hitem
          obtain ⟨-, -, -, -, -, hchildren, -⟩ := hgood
          obtain ⟨-, -, -, -, -, hchildren', -⟩ := hgood'
          refine (holds_cons hrest).mpr ⟨child', hchild', ?_⟩
          exact ih name child hchild (hchildren name child hchild)
            (hchildren' name child' hchild')
            (fun x y hx hy ↦ hapart x y (.child hchild hx) (.child hchild' hy))
            (congrArg EncodedTreeItem.oid hitem) hbelow
        · exact absurd (congrArg EncodedTreeItem.directory hitem).symm Bool.false_ne_true

end DirectoryNode

/-- The files of a list of entries. -/
def filesOf (entries : List UncheckedEntry) : List JsString → FileNode → Prop :=
  fun parts file ↦ ∃ entry ∈ entries, entry.IsFile parts file

private theorem build_spec (entries : List UncheckedEntry) :
    ((∃ tree, buildUncheckedTree entries [] .empty = .ok tree) ↔ Acceptable entries []) ∧
      ∀ tree, buildUncheckedTree entries [] .empty = .ok tree →
        tree.Good ∧ (fun parts file ↦ tree.Holds parts file) = filesOf entries := by
  obtain ⟨hiff, hbuilt⟩ := buildUncheckedTree_spec DirectoryNode.good_empty holdsPaths_empty
  refine ⟨hiff, fun tree htree ↦ ?_⟩
  obtain ⟨hgood, hholds⟩ := hbuilt tree htree
  refine ⟨hgood, ?_⟩
  funext parts file
  refine propext ((hholds parts file).trans ⟨fun h ↦ ?_, Or.inr⟩)
  exact h.resolve_left DirectoryNode.not_holds_empty

theorem gitTreeOidUnchecked_eq_ok {entries : List UncheckedEntry} {oid : JsString} :
    gitTreeOidUnchecked H entries format = .ok oid ↔ ∃ tree,
      buildUncheckedTree entries [] .empty = .ok tree ∧
        oid = hexText (encodeDirectory H format tree) := by
  rw [gitTreeOidUnchecked, bind_eq_ok]
  exact exists_congr fun tree ↦ and_congr_right fun _ ↦ by rw [pure_eq_ok, eq_comm]

theorem acceptable_iff {entries : List UncheckedEntry} : Acceptable entries [] ↔
    (∀ entry ∈ entries, entry.IsValid) ∧ (entries.map UncheckedEntry.path).Nodup ∧
      ∀ entry ∈ entries, ∀ other ∈ entries, ¬ IsDirectoryOf entry.path other.path := by
  constructor
  · rintro ⟨hvalid, hdistinct, -, hcompatible⟩
    exact ⟨hvalid, hdistinct, fun entry hentry other hother ↦
      (hcompatible entry hentry other.path (List.mem_map_of_mem hother)).2⟩
  · rintro ⟨hvalid, hdistinct, hcompatible⟩
    refine ⟨hvalid, hdistinct, fun _ _ ↦ List.not_mem_nil, fun entry hentry path hpath ↦ ?_⟩
    obtain ⟨other, hother, rfl⟩ := List.mem_map.mp hpath
    exact ⟨hcompatible other hother entry hentry, hcompatible entry hentry other hother⟩

private theorem ofText_eq_some {text : JsString} {mode : GitFileMode}
    (h : GitFileMode.ofText? text = some mode) : text = mode.text := by
  rw [GitFileMode.ofText?] at h
  split_ifs at h with hregular hexecutable
  · cases h
    exact hregular
  · cases h
    exact hexecutable

/-- Valid entries are told by the files they are. -/
private theorem mem_of_filesOf {entries entries' : List UncheckedEntry}
    (hvalid : ∀ entry ∈ entries, entry.IsValid)
    (hfiles : ∀ parts file, filesOf entries parts file → filesOf entries' parts file)
    {entry : UncheckedEntry} (hentry : entry ∈ entries) : entry ∈ entries' := by
  obtain ⟨mode, hmode⟩ := Option.isSome_iff_exists.mp (hvalid entry hentry).2
  obtain ⟨entry', hentry', hpath, hmode', hcontent⟩ :=
    hfiles (splitSlash entry.path) ⟨mode, entry.content⟩ ⟨entry, hentry, rfl, hmode, rfl⟩
  have hpath := splitSlash_injective hpath
  have hmodes := (ofText_eq_some hmode).trans (ofText_eq_some hmode').symm
  obtain ⟨path, text, content⟩ := entry
  obtain ⟨path', text', content'⟩ := entry'
  obtain rfl : path = path' := hpath
  obtain rfl : text = text' := hmodes
  obtain rfl : content = content' := hcontent
  exact hentry'

private theorem acceptable_of_gitTreeOid {entries : List UncheckedEntry} {oid : JsString}
    (h : gitTreeOidUnchecked H entries format = .ok oid) : Acceptable entries [] := by
  obtain ⟨tree, htree, -⟩ := gitTreeOidUnchecked_eq_ok.mp h
  exact (build_spec entries).1.mp ⟨tree, htree⟩

end Hashing

/-- **Git tree identity is exact.** The id of an accepted list is the tree hash of its files, in
Git's order of names, whatever the order of the list; lists are told apart by their ids exactly as
they are by their entries, where the hash tells apart what it is given; and a list is rejected, in
whatever order, exactly if it has an invalid path or mode, a path twice, or a path that is a
directory of another. -/
theorem git_tree_identity (H : Hashes) (format : GitObjectFormat) :
    (∀ entries oid, gitTreeOidUnchecked H entries format = .ok oid →
      (∀ entries' : List UncheckedEntry, entries'.Perm entries →
        gitTreeOidUnchecked H entries' format = .ok oid) ∧
      ∃ bytes, oid = hexText bytes ∧
        ∀ bytes', IsTreeOid H format (filesOf entries) bytes' ↔ bytes' = bytes) ∧
    (∀ entries entries' tree tree' oid oid', buildUncheckedTree entries [] .empty = .ok tree →
      buildUncheckedTree entries' [] .empty = .ok tree' → TellsApart H format tree tree' →
      gitTreeOidUnchecked H entries format = .ok oid →
      gitTreeOidUnchecked H entries' format = .ok oid' →
      (oid = oid' ↔ ∀ entry, entry ∈ entries ↔ entry ∈ entries')) ∧
    ∀ entries, (∃ e, gitTreeOidUnchecked H entries format = .error e) ↔
      (∃ entry ∈ entries, ¬ entry.IsValid) ∨ ¬ (entries.map UncheckedEntry.path).Nodup ∨
        ∃ entry ∈ entries, ∃ other ∈ entries, IsDirectoryOf entry.path other.path := by
  refine ⟨fun entries oid hoid ↦ ?_, fun entries entries' tree tree' oid oid' htree htree' hapart
    hoid hoid' ↦ ?_, fun entries ↦ ?_⟩
  · have hacceptable := acceptable_of_gitTreeOid hoid
    obtain ⟨tree, htree, rfl⟩ := gitTreeOidUnchecked_eq_ok.mp hoid
    obtain ⟨hgood, hfiles⟩ := (build_spec entries).2 tree htree
    have htreeOid : IsTreeOid H format (filesOf entries) (encodeDirectory H format tree) :=
      hfiles ▸ hgood.isTreeOid
    refine ⟨fun entries' hperm ↦ ?_, _, rfl, fun bytes' ↦
      ⟨fun h ↦ h.unique H format htreeOid, fun h ↦ h ▸ htreeOid⟩⟩
    have hacceptable' : Acceptable entries' [] := by
      rw [acceptable_iff] at hacceptable ⊢
      obtain ⟨hvalid, hdistinct, hcompatible⟩ := hacceptable
      exact ⟨fun entry hentry ↦ hvalid entry (hperm.mem_iff.mp hentry),
        (hperm.map UncheckedEntry.path).nodup_iff.mpr hdistinct,
        fun entry hentry other hother ↦ hcompatible entry (hperm.mem_iff.mp hentry) other
          (hperm.mem_iff.mp hother)⟩
    obtain ⟨tree', htree'⟩ := (build_spec entries').1.mpr hacceptable'
    obtain ⟨hgood', hfiles'⟩ := (build_spec entries').2 tree' htree'
    have hsame : filesOf entries' = filesOf entries := by
      funext parts file
      exact propext (exists_congr fun entry ↦ and_congr_left fun _ ↦ hperm.mem_iff)
    have htreeOid' : IsTreeOid H format (filesOf entries) (encodeDirectory H format tree') :=
      hsame ▸ hfiles' ▸ hgood'.isTreeOid
    rw [htreeOid.unique H format htreeOid']
    exact gitTreeOidUnchecked_eq_ok.mpr ⟨tree', htree', rfl⟩
  · have hvalid := (acceptable_of_gitTreeOid hoid).valid
    have hvalid' := (acceptable_of_gitTreeOid hoid').valid
    obtain ⟨built, hbuilt, rfl⟩ := gitTreeOidUnchecked_eq_ok.mp hoid
    obtain ⟨built', hbuilt', rfl⟩ := gitTreeOidUnchecked_eq_ok.mp hoid'
    obtain rfl := Except.ok.inj (htree.symm.trans hbuilt)
    obtain rfl := Except.ok.inj (htree'.symm.trans hbuilt')
    obtain ⟨hgood, hfiles⟩ := (build_spec entries).2 tree htree
    obtain ⟨hgood', hfiles'⟩ := (build_spec entries').2 tree' htree'
    constructor
    · intro hsame
      have hsame := hexText_injective hsame
      have hforth : ∀ parts file, filesOf entries parts file → filesOf entries' parts file := by
        rw [← hfiles, ← hfiles']
        exact fun parts file ↦ hgood.holds_of_eq hgood' hapart hsame
      have hback : ∀ parts file, filesOf entries' parts file → filesOf entries parts file := by
        rw [← hfiles, ← hfiles']
        exact fun parts file ↦ hgood'.holds_of_eq hgood
          (fun x y hx hy hxy ↦ (hapart y x hy hx hxy.symm).symm) hsame.symm
      exact fun entry ↦ ⟨mem_of_filesOf hvalid hforth, mem_of_filesOf hvalid' hback⟩
    · intro hsame
      have hfilesSame : filesOf entries' = filesOf entries := by
        funext parts file
        exact propext (exists_congr fun entry ↦ and_congr_left fun _ ↦ (hsame entry).symm)
      have htreeOid : IsTreeOid H format (filesOf entries) (encodeDirectory H format tree) :=
        hfiles ▸ hgood.isTreeOid
      have htreeOid' : IsTreeOid H format (filesOf entries) (encodeDirectory H format tree') :=
        hfilesSame ▸ hfiles' ▸ hgood'.isTreeOid
      rw [htreeOid.unique H format htreeOid']
  · have hok : (∃ oid, gitTreeOidUnchecked H entries format = .ok oid) ↔ Acceptable entries [] := by
      rw [← (build_spec entries).1]
      constructor
      · rintro ⟨oid, hoid⟩
        obtain ⟨tree, htree, -⟩ := gitTreeOidUnchecked_eq_ok.mp hoid
        exact ⟨tree, htree⟩
      · rintro ⟨tree, htree⟩
        exact ⟨_, gitTreeOidUnchecked_eq_ok.mpr ⟨tree, htree, rfl⟩⟩
    have herror : (∃ e, gitTreeOidUnchecked H entries format = .error e) ↔
        ¬ Acceptable entries [] := by
      rw [← hok]
      cases gitTreeOidUnchecked H entries format <;> simp
    rw [herror, acceptable_iff, not_and_or, not_and_or]
    push Not
    exact Iff.rfl

end ApiMigrator.App.GitTree
