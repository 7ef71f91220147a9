import ApiMigrator.Foundation.Text
import Mathlib.Data.List.Basic
import Mathlib.Logic.Function.Basic

/-!
The renames of object keys by `inngest-v3-to-v4.ts` (`migrateServeHost`, `migrateGateway`) and
`knock-v0-to-v1.ts` (`migrateParameters`). A module is a graph of nodes, since the renames change
key nodes in place. Which objects configure a client, and which calls go to one, is decided on
ancestors and callees, which no rename changes: every such choice is allowed here. An object denotes
the definitions that its properties make, in their order.
-/

set_option autoImplicit false
set_option relaxedAutoImplicit false

namespace ApiMigrator.Engine.KeyRenames

open Foundation.Text

/-! ### Modules -/

abbrev NodeId := ℕ

inductive PropertyType
  | objectProperty
  | property
  | objectMethod
  deriving DecidableEq

/-- A node of a syntax tree. A name or value is `none` where it is no string. What is not told apart
here only has its children. -/
inductive Node
  | identifier (name : Option JsString)
  | stringLiteral (value : Option JsString)
  | literal (value : Option JsString)
  | property (type : PropertyType) (computed shorthand : Bool) (key value : NodeId)
  | objectExpression (properties : List NodeId)
  | callExpression (callee : NodeId) (arguments : List NodeId)
  | other (children : List NodeId)
  deriving DecidableEq

/-- The nodes of a module, and the order in which `find` meets them. -/
structure Module where
  node : NodeId → Option Node
  order : List NodeId

def propertyNameOf : Node → Option JsString
  | .identifier name => name
  | .stringLiteral value => value
  | .literal value => value
  | _ => none

/-- `propertyName(node)` -/
def propertyName (m : Module) (id : NodeId) : Option JsString := (m.node id).bind propertyNameOf

/-- `key.name = name` or `key.value = name` -/
def Node.setName (name : Option JsString) : Node → Node
  | .identifier _ => .identifier name
  | .stringLiteral _ => .stringLiteral name
  | .literal _ => .literal name
  | node => node

/-- `replacePropertyName` on a property whose key is the node `key`. -/
def replacePropertyName (m : Module) (key : NodeId) (name : Option JsString) : Module :=
  { m with node := Function.update m.node key ((m.node key).map (Node.setName name)) }

/-- What every object inherits. -/
def objectPrototypeNames : List JsString :=
  [js "constructor", js "__defineGetter__", js "__defineSetter__", js "hasOwnProperty",
    js "__lookupGetter__", js "__lookupSetter__", js "isPrototypeOf", js "propertyIsEnumerable",
    js "toString", js "valueOf", js "__proto__", js "toLocaleString"]

/-- A property that is visited, with what its name is compared with: the names themselves, or the
members of a plain object, which also has the names that every object inherits. -/
structure Site where
  property : NodeId
  renames : List (JsString × JsString)
  inherits : Bool

/-- What a name is replaced by: nothing, a name, or an inherited value that is no string. -/
def Site.target (site : Site) (name : JsString) : Option (Option JsString) :=
  match site.renames.lookup name with
  | some new => some (some new)
  | none => if site.inherits = true ∧ name ∈ objectPrototypeNames then some none else none

def renameProperty (m : Module) (site : Site) : Module :=
  match m.node site.property with
  | some (.property _ _ _ key _) =>
    match (propertyName m key).bind site.target with
    | some name => replacePropertyName m key name
    | none => m
  | _ => m

variable (belongsToConfig : NodeId → List String → Bool) (clientChain : NodeId → Option JsString)

def Node.children : Node → List NodeId
  | .property _ _ _ key value => [key, value]
  | .objectExpression properties => properties
  | .callExpression callee arguments => callee :: arguments
  | .other children => children
  | _ => []

/-- The key of a property as ECMAScript reads it, where it is a name, a string or a computed
string. -/
def staticKey (m : Module) (p : NodeId) : Option JsString :=
  match m.node p with
  | some (.property _ computed _ key _) =>
    match m.node key with
    | some (.identifier name) => if computed = true then none else name
    | some (.stringLiteral value) => value
    | some (.literal value) => value
    | _ => none
  | _ => none

def IsKey (m : Module) (p key : NodeId) : Prop :=
  ∃ type computed shorthand value, m.node p = some (.property type computed shorthand key value)

/-- The site renames the property: its key, the name of the key and what replaces it. -/
def Renames (m : Module) (site : Site) (key : NodeId) (name : JsString) (new : Option JsString) :
    Prop :=
  IsKey m site.property key ∧ propertyName m key = some name ∧ site.target name = some new

/-- The property that the site renames has a name or a string as its key, which is no reference,
no inherited name, and not renamed to the key of another property of its object. -/
structure Plain (m : Module) (site : Site) (key : NodeId) (new : Option JsString) : Prop where
  computed : ∀ type shorthand value,
    m.node site.property = some (.property type true shorthand key value) →
      ∀ name, m.node key ≠ some (.identifier name)
  shorthand : ∀ type computed shorthand,
    m.node site.property ≠ some (.property type computed shorthand key key)
  named : new ≠ none
  free : ∀ object properties, m.node object = some (.objectExpression properties) →
    site.property ∈ properties → ∀ q ∈ properties, ∀ name, new = some name →
      staticKey m q ≠ some name

/-- What the sites of one pass have in common. -/
structure Coherent (sites : List Site) : Prop where
  stable : ∀ site ∈ sites, ∀ name new, site.target name = some (some new) →
    ∀ site' ∈ sites, site'.target new = none
  injective : ∀ site ∈ sites, ∀ site' ∈ sites, ∀ name name' new,
    site.target name = some (some new) → site'.target name' = some (some new) → name = name'
  single : ∀ site ∈ sites, ∀ site' ∈ sites, site.property = site'.property → site = site'

variable {m : Module} {sites : List Site}

/-! ### What a pass changes -/

theorem setName_ne_property {name : Option JsString} {node : Node}
    {type : PropertyType} {computed shorthand : Bool} {key value : NodeId}
    (h : node.setName name = .property type computed shorthand key value) :
    node = .property type computed shorthand key value := by
  cases node <;> first | exact h | cases h

theorem propertyName_setName {name name' : Option JsString} {node : Node} {old : JsString}
    (h : propertyNameOf node = some old) (h' : propertyNameOf (node.setName name) = name') :
    name' = name := by
  cases node <;> first | exact h'.symm | cases h

/-- The key of a property, read by its name, is one kind of key. -/
theorem propertyName_of_isKey_node {id : NodeId} {name : JsString}
    (h : propertyName m id = some name) : ∃ node, m.node id = some node ∧
      propertyNameOf node = some name := Option.bind_eq_some_iff.mp h

theorem node_property_of_propertyName {id key value : NodeId} {name : JsString}
    {type : PropertyType} {computed shorthand : Bool} (h : propertyName m id = some name) :
    m.node id ≠ some (.property type computed shorthand key value) := by
  intro hnode
  rw [propertyName, hnode] at h
  cases h

/-- The state of a pass: every node is as it was, or renamed by a site. -/
def Along (sites : List Site) (m m' : Module) : Prop :=
  ∀ id, m'.node id = m.node id ∨ ∃ site ∈ sites, ∃ name new, Renames m site id name new ∧
    m'.node id = (m.node id).map (Node.setName new)

theorem Along.refl (sites : List Site) (m : Module) : Along sites m m := fun _ ↦ Or.inl rfl

/-- Properties stay as they are. -/
theorem Along.property {m' : Module} (h : Along sites m m') {p key value : NodeId}
    {type : PropertyType} {computed shorthand : Bool} :
    m'.node p = some (.property type computed shorthand key value) ↔
      m.node p = some (.property type computed shorthand key value) := by
  obtain hsame | ⟨site, -, name, new, ⟨-, hname, -⟩, hnode⟩ := h p
  · rw [hsame]
  · constructor
    · intro hproperty
      rw [hnode] at hproperty
      obtain ⟨node, hold, hset⟩ := Option.map_eq_some_iff.mp hproperty
      rw [hold, setName_ne_property hset]
    · exact fun hproperty ↦ absurd hproperty (node_property_of_propertyName hname)

theorem Along.isKey {m' : Module} (h : Along sites m m') {p key : NodeId} :
    IsKey m' p key ↔ IsKey m p key := by
  simp only [IsKey, h.property]

theorem Along.renames {m' : Module} (hcoherent : Coherent sites) (h : Along sites m m')
    {site : Site} (hsite : site ∈ sites) {key : NodeId} {name : JsString} {new : Option JsString}
    (hrenames : Renames m' site key name new) :
    m'.node key = m.node key ∧ Renames m site key name new := by
  obtain ⟨hkey, hname, htarget⟩ := hrenames
  obtain hsame | ⟨site', hsite', name', new', ⟨-, hname', htarget'⟩, hnode⟩ := h key
  · refine ⟨hsame, h.isKey.mp hkey, ?_, htarget⟩
    rw [propertyName, ← hsame]
    exact hname
  · -- A key that has been renamed has a name that no site renames.
    obtain ⟨node, hold, hnodeName⟩ := propertyName_of_isKey_node hname'
    have hnew : some name = new' := by
      rw [propertyName, hnode, hold] at hname
      exact propertyName_setName hnodeName hname
    subst hnew
    cases (hcoherent.stable site' hsite' name' name htarget' site hsite).symm.trans htarget

/-- What one visit does. -/
theorem renameProperty_cases (m : Module) (site : Site) :
    (renameProperty m site = m ∧ ∀ key name new, ¬ Renames m site key name new) ∨
      ∃ key name new, Renames m site key name new ∧
        renameProperty m site = replacePropertyName m key new := by
  rw [renameProperty]
  split
  · rename_i type computed shorthand key value hproperty
    have hunique : ∀ {key'}, IsKey m site.property key' → key' = key := by
      rintro key' ⟨type', computed', shorthand', value', hproperty'⟩
      rw [hproperty] at hproperty'
      cases hproperty'
      rfl
    split
    · rename_i new hnew
      obtain ⟨name, hname, htarget⟩ := Option.bind_eq_some_iff.mp hnew
      exact Or.inr ⟨key, name, new, ⟨⟨type, computed, shorthand, value, hproperty⟩, hname, htarget⟩,
        rfl⟩
    · rename_i hnone
      refine Or.inl ⟨rfl, fun key' name new hrenames ↦ ?_⟩
      obtain ⟨hkey, hname, htarget⟩ := hrenames
      obtain rfl := hunique hkey
      rw [hname, Option.bind_some, htarget] at hnone
      cases hnone
  · rename_i hproperty
    refine Or.inl ⟨rfl, fun key name new hrenames ↦ ?_⟩
    obtain ⟨⟨type, computed, shorthand, value, hkey⟩, -, -⟩ := hrenames
    exact hproperty type computed shorthand key value hkey

theorem replacePropertyName_self {m : Module} {key : NodeId} {new : Option JsString} :
    (replacePropertyName m key new).node key = (m.node key).map (Node.setName new) :=
  Function.update_self _ _ _

theorem replacePropertyName_of_ne {m : Module} {key id : NodeId} {new : Option JsString}
    (h : id ≠ key) : (replacePropertyName m key new).node id = m.node id :=
  Function.update_of_ne h _ _

/-- A site gives a key another name. -/
theorem Renames.ne {site : Site} (hcoherent : Coherent sites) (hsite : site ∈ sites)
    {key : NodeId} {name : JsString} {new : Option JsString} (h : Renames m site key name new) :
    (m.node key).map (Node.setName new) ≠ m.node key := by
  obtain ⟨-, hname, htarget⟩ := h
  obtain ⟨node, hnode, hnodeName⟩ := propertyName_of_isKey_node hname
  intro hsame
  rw [hnode] at hsame
  have hset : node.setName new = node := Option.some.inj hsame
  have hnew : some name = new :=
    propertyName_setName hnodeName (by rw [hset]; exact hnodeName)
  subst hnew
  cases (hcoherent.stable site hsite name name htarget site hsite).symm.trans htarget

theorem Along.step {m' : Module} (hcoherent : Coherent sites) (h : Along sites m m') {site : Site}
    (hsite : site ∈ sites) : Along sites m (renameProperty m' site) ∧
      (∀ id, m'.node id ≠ m.node id → (renameProperty m' site).node id ≠ m.node id) ∧
        ∀ key name new, Renames m site key name new →
          (renameProperty m' site).node key ≠ m.node key := by
  obtain ⟨hstep, hnone⟩ | ⟨key, name, new, hrenames, hstep⟩ := renameProperty_cases m' site
  · rw [hstep]
    refine ⟨h, fun _ hchanged ↦ hchanged, fun key name new hrenames hsame ↦ hnone key name new ?_⟩
    obtain ⟨hkey, hname, htarget⟩ := hrenames
    exact ⟨h.isKey.mpr hkey, by rw [propertyName, hsame]; exact hname, htarget⟩
  · obtain ⟨hsame, hold⟩ := h.renames hcoherent hsite hrenames
    rw [hstep]
    refine ⟨fun id ↦ ?_, fun id hchanged ↦ ?_, fun key' name' new' hrenames' ↦ ?_⟩
    · by_cases hid : id = key
      · subst hid
        refine Or.inr ⟨site, hsite, name, new, hold, ?_⟩
        rw [replacePropertyName_self, hsame]
      · rw [replacePropertyName_of_ne hid]
        exact h id
    · by_cases hid : id = key
      · subst hid
        exact absurd hsame hchanged
      · rwa [replacePropertyName_of_ne hid]
    · obtain ⟨type, computed, shorthand, value, hproperty⟩ := hold.1
      obtain ⟨type', computed', shorthand', value', hproperty'⟩ := hrenames'.1
      rw [hproperty] at hproperty'
      cases hproperty'
      rw [replacePropertyName_self, hsame]
      exact hold.ne hcoherent hsite

theorem Along.changed {m' : Module} (h : Along sites m m') {id : NodeId}
    (hchanged : m'.node id ≠ m.node id) : ∃ site ∈ sites, ∃ name new, Renames m site id name new ∧
      m'.node id = (m.node id).map (Node.setName new) := (h id).resolve_left hchanged

/-! ### Keys before and after -/

variable {belongsToConfig : NodeId → List String → Bool} {clientChain : NodeId → Option JsString}

end ApiMigrator.Engine.KeyRenames
