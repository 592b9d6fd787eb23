import GraphRest.Document.Basic
import GraphRest.Proofs.Data.Tree

/-!
# Schemas in documents

The schemas of an operation and of a document, and the nodes of each of them, wherever they stand. What a
data tree holds besides texts, flags and whole numbers is what the nodes in it say: what they refer to and
the bounds that they set.
-/

namespace GraphRest

/-! ## Fragments -/

namespace Fragment

variable {α : Type} {own : Fragment → List α}

mutual

/-- The nodes of a fragment, at any depth, with the fragment itself behind those inside it. -/
def nodes : Fragment → List Fragment
  | f@⟨_, _, _, properties, _, items, _, _, _, oneOf, _, _, _, _, _⟩ =>
    propertyNodes properties ++ itemNodes items ++ allNodes oneOf ++ [f]

/-- The nodes of properties. -/
def propertyNodes : List (String × Fragment) → List Fragment
  | [] => []
  | (_, f) :: fs => nodes f ++ propertyNodes fs

/-- The nodes of the element of a list, if there is one. -/
def itemNodes : Option Fragment → List Fragment
  | none => []
  | some f => nodes f

/-- The nodes of several fragments. -/
def allNodes : List Fragment → List Fragment
  | [] => []
  | f :: fs => nodes f ++ allNodes fs

end

/-- The fragments that a fragment embeds. -/
def parts (f : Fragment) : List Fragment :=
  f.properties.map Prod.snd ++ f.items.toList ++ f.oneOf

theorem propertyNodes_eq_flatMap (fs : List (String × Fragment)) :
    propertyNodes fs = (fs.map Prod.snd).flatMap nodes := by
  induction fs with
  | nil => rw [propertyNodes, List.map_nil, List.flatMap_nil]
  | cons x fs ih =>
      obtain ⟨_, f⟩ := x
      rw [propertyNodes, ih, List.map_cons, List.flatMap_cons]

theorem itemNodes_eq_flatMap (f : Option Fragment) : itemNodes f = f.toList.flatMap nodes := by
  cases f with
  | none => rw [itemNodes, Option.toList_none, List.flatMap_nil]
  | some f => rw [itemNodes, Option.toList_some, List.flatMap_singleton]

theorem allNodes_eq_flatMap (fs : List Fragment) : allNodes fs = fs.flatMap nodes := by
  induction fs with
  | nil => rw [allNodes, List.flatMap_nil]
  | cons f fs ih => rw [allNodes, ih, List.flatMap_cons]

theorem nodes_eq (f : Fragment) : f.nodes = f.parts.flatMap nodes ++ [f] := by
  rw [parts, List.flatMap_append, List.flatMap_append, ← propertyNodes_eq_flatMap,
    ← itemNodes_eq_flatMap, ← allNodes_eq_flatMap]
  cases f
  rw [nodes]

theorem mem_nodes_self (f : Fragment) : f ∈ f.nodes := by
  rw [nodes_eq]
  exact List.mem_append_right _ (List.mem_singleton_self f)

/-- What the nodes of a fragment have of their own. -/
def gather (own : Fragment → List α) (f : Fragment) : List α := f.nodes.flatMap own

theorem gather_eq (own : Fragment → List α) (f : Fragment) :
    f.gather own = f.parts.flatMap (gather own) ++ own f := by
  rw [gather, nodes_eq, List.flatMap_append, List.flatMap_assoc, List.flatMap_singleton]
  rfl

/-- What the nodes of a fragment refer to. -/
def references (f : Fragment) : List String := f.gather fun n => n.reference.toList

/-- The bounds that a node itself sets. -/
def ownBounds (f : Fragment) : List Double := f.minimum.toList ++ f.maximum.toList

/-- The bounds that the nodes of a fragment set. -/
def bounds (f : Fragment) : List Double := f.gather ownBounds

theorem references_eq (f : Fragment) :
    f.references = f.parts.flatMap references ++ f.reference.toList :=
  gather_eq _ f

theorem bounds_eq (f : Fragment) : f.bounds = f.parts.flatMap bounds ++ f.ownBounds :=
  gather_eq _ f

/-- Two fragments hold the same fragments and refer to the same component. -/
structure SameParts (f f' : Fragment) : Prop where
  reference : f.reference = f'.reference
  properties : f.properties = f'.properties
  items : f.items = f'.items
  oneOf : f.oneOf = f'.oneOf

namespace SameParts

variable {f f' : Fragment}

theorem parts (h : SameParts f f') : f.parts = f'.parts := by
  rw [Fragment.parts, Fragment.parts, h.properties, h.items, h.oneOf]

theorem references_eq (h : SameParts f f') : f.references = f'.references := by
  rw [Fragment.references_eq, Fragment.references_eq f', h.parts, h.reference]

end SameParts

/-- A fragment without its description and what else is noted on it: what it embeds and lists. -/
def skeleton (f : Fragment) : Fragment :=
  { type := f.type
    properties := f.properties
    required := f.required
    items := f.items
    reference := f.reference
    enumValues := f.enumValues
    oneOf := f.oneOf }

theorem parts_skeleton (f : Fragment) : f.skeleton.parts = f.parts := rfl

theorem references_skeleton (f : Fragment) : f.skeleton.references = f.references :=
  SameParts.references_eq ⟨rfl, rfl, rfl, rfl⟩

theorem parts_array (f : Fragment) : (array f).parts = [f] := rfl

theorem references_referTo (n : String) : (referTo n).references = [componentPrefix ++ n] :=
  references_eq _

theorem references_string : string.references = [] := references_eq _

theorem references_array (f : Fragment) : (array f).references = f.references := by
  rw [references_eq, parts_array, List.flatMap_singleton]
  exact List.append_nil _

theorem references_described (f : Fragment) (text : String) :
    (f.described text).references = f.references :=
  SameParts.references_eq ⟨rfl, rfl, rfl, rfl⟩

theorem bounds_referTo (n : String) : (referTo n).bounds = [] := bounds_eq _

theorem bounds_string : string.bounds = [] := bounds_eq _

theorem bounds_array (f : Fragment) : (array f).bounds = f.bounds := by
  rw [bounds_eq, parts_array, List.flatMap_singleton]
  exact List.append_nil _

theorem bounds_described (f : Fragment) (text : String) : (f.described text).bounds = f.bounds := by
  rw [bounds_eq, bounds_eq f]
  rfl

end Fragment

/-! ## Operations -/

/-- The schemas of what a body or a response holds. -/
def contentSchemas (content : OrderedMap MediaType) : List Fragment :=
  content.flatMap fun (_, m) => m.schema.toList

namespace Operation

/-- The schemas of an operation: of its parameters, its body and its responses. -/
def schemas (o : Operation) : List Fragment :=
  (o.parameters.flatMap fun p => p.schema.toList) ++
    (o.requestBody.toList.flatMap fun b => contentSchemas b.content) ++
    o.responses.flatMap fun (_, r) => contentSchemas r.content

/-- What an operation refers to. -/
def references (o : Operation) : List String := o.schemas.flatMap Fragment.references

/-- The bounds that an operation sets. -/
def bounds (o : Operation) : List Double := o.schemas.flatMap Fragment.bounds

end Operation

/-! ## Documents -/

namespace Document

variable {α : Type} {d : Document}

/-- The schemas of a document: of its operations and its components. -/
def schemas (d : Document) : List Fragment :=
  (d.operations.flatMap fun (_, _, o) => o.schemas) ++ d.components.map Prod.snd

/-- The nodes of the schemas in a document. -/
def nodes (d : Document) : List Fragment := d.schemas.flatMap Fragment.nodes

/-- What the schemas in a document refer to. -/
def references (d : Document) : List String := d.schemas.flatMap Fragment.references

/-- The bounds that the schemas in a document set. -/
def bounds (d : Document) : List Double := d.schemas.flatMap Fragment.bounds

theorem mem_flatMap_schemas {own : Fragment → List α} {x : α} : x ∈ d.schemas.flatMap own ↔
    (∃ p m o, (p, m, o) ∈ d.operations ∧ x ∈ o.schemas.flatMap own) ∨
      ∃ y ∈ d.components, x ∈ own y.2 := by
  rw [schemas, List.flatMap_append, List.mem_append, List.flatMap_assoc, List.flatMap_map,
    List.mem_flatMap, List.mem_flatMap]
  refine or_congr_left ⟨?_, ?_⟩
  · rintro ⟨⟨p, m, o⟩, ho, hx⟩
    exact ⟨p, m, o, ho, hx⟩
  · rintro ⟨p, m, o, ho, hx⟩
    exact ⟨(p, m, o), ho, hx⟩

theorem mem_references {r : String} : r ∈ d.references ↔
    (∃ p m o, (p, m, o) ∈ d.operations ∧ r ∈ o.references) ∨
      ∃ y ∈ d.components, r ∈ y.2.references :=
  mem_flatMap_schemas

theorem mem_bounds {b : Double} : b ∈ d.bounds ↔
    (∃ p m o, (p, m, o) ∈ d.operations ∧ b ∈ o.bounds) ∨ ∃ y ∈ d.components, b ∈ y.2.bounds :=
  mem_flatMap_schemas

/-- What the schemas of a document gather from their nodes, its nodes have of their own. -/
theorem flatMap_gather (own : Fragment → List α) :
    d.schemas.flatMap (Fragment.gather own) = d.nodes.flatMap own :=
  List.flatMap_assoc.symm

theorem references_eq : d.references = d.nodes.flatMap fun n => n.reference.toList := flatMap_gather _

theorem bounds_eq : d.bounds = d.nodes.flatMap Fragment.ownBounds := flatMap_gather _

theorem bounds_eq_nil_iff :
    d.bounds = [] ↔ ∀ f ∈ d.nodes, f.minimum = none ∧ f.maximum = none := by
  rw [bounds_eq, List.flatMap_eq_nil_iff]
  simp [Fragment.ownBounds]

end Document

/-! ## Data trees -/

section

open GraphRest.Tree

variable {α : Type} {pick : Option String → Tree → List α} {x : α}

namespace Fragment

/-- What is picked out of the scalars of a node that may be more than texts, flags and whole numbers. -/
def picked (pick : Option String → Tree → List α) (f : Fragment) : List α :=
  collectEntries pick
    (optional "$ref" .text f.reference ++
      optional "minimum" (fun d => .number (.double d)) f.minimum ++
      optional "maximum" (fun d => .number (.double d)) f.maximum)

mutual

theorem mem_collect_tree (h : Sparse pick) : ∀ (f : Fragment) (key : Option String),
    x ∈ f.tree.collect pick key ↔ x ∈ f.nodes.flatMap (picked pick)
  | ⟨type, format, description, properties, required, items, reference, deprecated, enumValues, oneOf,
      minLength, maxLength, minimum, maximum, pattern⟩, key => by
    have hproperties := mem_collect_propertyTrees h properties
    have hitems := mem_collect_itemsField h items
    have honeOf := mem_collect_trees h oneOf
    simp only [tree, collect, collectEntries_append, collectEntries_nonEmptyFields,
      collectEntries_nonEmptyList, h.collectEntries_texts,
      h.collectEntries_flag, h.collectItems_texts, h.collectEntries_whole, nodes, List.flatMap_append,
      List.flatMap_singleton, picked, List.append_nil, List.nil_append, List.mem_append, hproperties,
      hitems, honeOf, ne_eq, String.reduceEq, not_false_eq_true]
    -- a reference stands in front of the alternatives
    simp only [or_assoc, or_left_comm]

theorem mem_collect_propertyTrees (h : Sparse pick) : ∀ fs : List (String × Fragment),
    x ∈ collectEntries pick (propertyTrees fs) ↔ x ∈ (propertyNodes fs).flatMap (picked pick)
  | [] => by simp [propertyTrees, collectEntries, propertyNodes]
  | (name, f) :: fs => by
    rw [propertyTrees, collectEntries, propertyNodes, List.flatMap_append, List.mem_append,
      List.mem_append, mem_collect_tree h f, mem_collect_propertyTrees h fs]

theorem mem_collect_itemsField (h : Sparse pick) : ∀ f : Option Fragment,
    x ∈ collectEntries pick (itemsField f) ↔ x ∈ (itemNodes f).flatMap (picked pick)
  | none => by simp [itemsField, collectEntries, itemNodes]
  | some f => by
    rw [itemsField, collectEntries, collectEntries, List.append_nil, itemNodes, mem_collect_tree h f]

theorem mem_collect_trees (h : Sparse pick) : ∀ fs : List Fragment,
    x ∈ collectItems pick (trees fs) ↔ x ∈ (allNodes fs).flatMap (picked pick)
  | [] => by simp [trees, collectItems, allNodes]
  | f :: fs => by
    rw [trees, collectItems, allNodes, List.flatMap_append, List.mem_append, List.mem_append,
      mem_collect_tree h f, mem_collect_trees h fs]

end

/-- What is picked out of the data tree of a fragment. -/
def collected (pick : Option String → Tree → List α) (f : Fragment) : List α :=
  f.tree.collect pick none

theorem collect_tree (f : Fragment) (key : Option String) :
    f.tree.collect pick key = f.collected pick := by
  cases f
  rw [collected, tree, collect, collect]

theorem mem_collected (h : Sparse pick) (f : Fragment) :
    x ∈ f.collected pick ↔ x ∈ f.gather (picked pick) :=
  mem_collect_tree h f none

theorem collectEntries_propertyTrees (fs : List (String × Fragment)) :
    collectEntries pick (propertyTrees fs) = (fs.map Prod.snd).flatMap (collected pick) := by
  induction fs with
  | nil => rw [propertyTrees, collectEntries, List.map_nil, List.flatMap_nil]
  | cons y fs ih =>
      obtain ⟨_, f⟩ := y
      rw [propertyTrees, collectEntries, collect_tree, ih, List.map_cons, List.flatMap_cons]

end Fragment

theorem Parameter.collect_tree (h : Sparse pick) (p : Parameter) (key : Option String) :
    p.tree.collect pick key = p.schema.toList.flatMap (Fragment.collected pick) := by
  simp [tree, collect, collectEntries_append, h.collectEntries_text, h.collectEntries_texts,
    h.collectEntries_flag, collectEntries_optional, Fragment.collect_tree]

theorem MediaType.collect_tree (m : MediaType) (key : Option String) :
    m.tree.collect pick key = m.schema.toList.flatMap (Fragment.collected pick) := by
  simp [tree, collect, collectEntries_optional, Fragment.collect_tree]

theorem collectEntries_contentTrees (content : OrderedMap MediaType) :
    collectEntries pick (contentTrees content) =
      (contentSchemas content).flatMap (Fragment.collected pick) := by
  rw [contentSchemas, List.flatMap_assoc, contentTrees]
  exact (collectEntries_map pick Prod.fst (fun y : String × MediaType => y.2.tree) content).trans
    (by simp only [MediaType.collect_tree])

theorem RequestBody.collect_tree (h : Sparse pick) (b : RequestBody) (key : Option String) :
    b.tree.collect pick key = (contentSchemas b.content).flatMap (Fragment.collected pick) := by
  simp [tree, collect, collectEntries_append, collectEntries_field, h.collectEntries_texts,
    h.collectEntries_flag, collectEntries_contentTrees]

theorem Response.collect_tree (h : Sparse pick) (r : Response) (key : Option String) :
    r.tree.collect pick key = (contentSchemas r.content).flatMap (Fragment.collected pick) := by
  simp [tree, collect, collectEntries_append, h.collectEntries_text, collectEntries_nonEmptyFields,
    collectEntries_contentTrees]

theorem Operation.collect_tree (h : Sparse pick) (o : Operation) (key : Option String) :
    o.tree.collect pick key = o.schemas.flatMap (Fragment.collected pick) := by
  have hresponses := collectEntries_map pick Prod.fst
    (fun y : String × Response => y.2.tree) o.responses
  simp only [Response.collect_tree h] at hresponses
  simp [tree, schemas, collect, collectEntries_append, collectEntries_field, h.collectEntries_texts,
    h.collectEntries_flag, collectEntries_nonEmptyList, collectEntries_optional,
    collectItems_eq_flatMap, List.flatMap_map, List.flatMap_assoc, Parameter.collect_tree h,
    RequestBody.collect_tree h, hresponses]

theorem PathItem.collect_tree (h : Sparse pick) (item : PathItem) (key : Option String) :
    item.tree.collect pick key =
      item.operations.flatMap fun y => y.2.schemas.flatMap (Fragment.collected pick) := by
  have hmap := collectEntries_map pick (fun y : Method × Operation => y.1.word)
    (fun y => y.2.tree) item.operations
  simp only [Operation.collect_tree h] at hmap
  exact hmap

namespace Document

theorem collectItems_servers (h : Sparse pick) (servers : List Server) :
    collectItems pick (servers.map serverTree) = [] := by
  rw [collectItems_eq_flatMap, List.flatMap_map, List.flatMap_eq_nil_iff]
  intro s _
  simp [serverTree, collect, collectEntries_append, h.collectEntries_text, h.collectEntries_texts]

theorem collect_infoTree (h : Sparse pick) (i : Info) (key : Option String) :
    (infoTree i).collect pick key = [] := by
  simp [infoTree, collect, collectEntries_append, h.collectEntries_text, h.collectEntries_texts]

theorem collectEntries_components (d : Document) :
    collectEntries pick (Tree.optional "components" componentsTree d.componentSection) =
      (d.components.map Prod.snd).flatMap (Fragment.collected pick) := by
  rw [collectEntries_optional, components]
  cases d.componentSection with
  | none => rfl
  | some components =>
      simp [componentsTree, collect, collectEntries_nonEmptyFields,
        Fragment.collectEntries_propertyTrees]

theorem collect_tree (h : Sparse pick) (d : Document) (key : Option String) :
    d.tree.collect pick key = d.schemas.flatMap (Fragment.collected pick) := by
  have hmap := collectEntries_map pick Prod.fst (fun y : String × PathItem => y.2.tree)
    d.paths
  have hpaths : (d.operations.flatMap fun y => y.2.2.schemas.flatMap (Fragment.collected pick)) =
      d.paths.flatMap fun y => y.2.operations.flatMap fun z =>
        z.2.schemas.flatMap (Fragment.collected pick) := by
    rw [operations, List.flatMap_assoc]
    simp only [List.flatMap_map]
  simp only [PathItem.collect_tree h] at hmap
  simp [tree, schemas, collect, collectEntries_append, collectEntries_field, h.collectEntries_text,
    collectEntries_nonEmptyList, collectItems_servers h, collect_infoTree h,
    collectEntries_components, List.flatMap_assoc, hmap, hpaths]

/-- What is picked out of the data tree of a document is picked out of its nodes. -/
theorem mem_collect_tree (h : Sparse pick) (d : Document) (key : Option String) :
    x ∈ d.tree.collect pick key ↔ x ∈ d.nodes.flatMap (Fragment.picked pick) := by
  rw [collect_tree h, ← flatMap_gather, List.mem_flatMap, List.mem_flatMap]
  simp only [Fragment.mem_collected h]

end Document

end

/-! ## References and bounds in data trees -/

theorem Fragment.picked_pickReference (f : Fragment) :
    f.picked Tree.pickReference = f.reference.toList := by
  have hbound : ∀ (key : String) (d : Double),
      (Tree.number (.double d)).collect Tree.pickReference (some key) = [] := fun _ _ => rfl
  have htext : ∀ s : String, (Tree.text s).collect Tree.pickReference (some "$ref") = [s] :=
    fun _ => rfl
  simp [picked, Tree.collectEntries_append, Tree.collectEntries_optional, hbound, htext]

theorem Fragment.picked_pickBound (f : Fragment) :
    f.picked Tree.pickBound = f.ownBounds.map fun b => .number (.double b) := by
  have hbound : ∀ (key : String) (d : Double),
      (Tree.number (.double d)).collect Tree.pickBound (some key) = [.number (.double d)] :=
    fun _ _ => rfl
  have htext : ∀ s : String, (Tree.text s).collect Tree.pickBound (some "$ref") = [] :=
    fun _ => rfl
  simp [picked, ownBounds, Tree.collectEntries_append, Tree.collectEntries_optional, hbound, htext,
    ← List.map_eq_flatMap]

namespace Document

variable {d : Document} {r : String}

/-- The references in the data tree of a document are those of its nodes. -/
theorem mem_refs_tree : r ∈ d.tree.refs ↔ r ∈ d.references := by
  rw [Tree.refs, mem_collect_tree Tree.sparse_pickReference, references_eq,
    funext Fragment.picked_pickReference]

/-- The bounds in the data tree of a document are those that its nodes set. -/
theorem mem_bounds_tree {t : Tree} :
    t ∈ d.tree.bounds ↔ ∃ b ∈ d.bounds, .number (.double b) = t := by
  rw [Tree.bounds, mem_collect_tree Tree.sparse_pickBound, bounds_eq, ← List.mem_map,
    List.map_flatMap, funext Fragment.picked_pickBound]

end Document

end GraphRest
