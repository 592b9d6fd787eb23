import GraphRest.Document.Basic
import GraphRest.Proofs.Conversion.Properties
import GraphRest.Proofs.Decimal.Reading
import GraphRest.Proofs.Endpoint.Schemas
import GraphRest.Proofs.Json.Outside

/-!
# Bounds of properties

The bounds in a document are those that `@constraint` directives give for the members that components
embed. A bound for which there is no number is written as a null, and nothing else is.
-/

namespace GraphRest

open Sdl

/-- The two ends of a range of numbers. -/
inductive RangeEnd where
  | least
  | greatest

namespace RangeEnd

/-- The argument of `@constraint` that sets the end. -/
def argument : RangeEnd → String
  | least => "min"
  | greatest => "max"

def ofConstraint (c : Constraint) : RangeEnd → Option Double
  | least => c.minimum
  | greatest => c.maximum

def ofFragment (f : Fragment) : RangeEnd → Option Double
  | least => f.minimum
  | greatest => f.maximum

/-- What a directive gives for the end: the text of the last argument of its name that has one. -/
def given? (e : RangeEnd) (d : DirectiveUse) : Option String :=
  ((d.arguments.filter (·.name = e.argument)).filterMap (·.value.text?)).getLast?

/-- The text that sets the end for a member: the last that a `@constraint` of the member gives and that is
read as a number. -/
def text? (e : RangeEnd) (ds : List DirectiveUse) : Option String :=
  (((ds.filter (·.name = "constraint")).filterMap e.given?).filter
    fun t => (Decimal.double? t).isSome).getLast?

/-- The bound that is set for a member. -/
def bound? (e : RangeEnd) (ds : List DirectiveUse) : Option Double :=
  (e.text? ds).bind Decimal.double?

end RangeEnd

variable {g : TypeGraph} {rules : InflectionRules} {e : RangeEnd} {f : Fragment} {b : Double}
  {d : TypeDefinition} {m : Member}

theorem Fragment.mem_ownBounds : b ∈ f.ownBounds ↔ ∃ e : RangeEnd, e.ofFragment f = some b := by
  rw [ownBounds, List.mem_append, Option.mem_toList, Option.mem_toList]
  constructor
  · rintro (h | h)
    · exact ⟨.least, h⟩
    · exact ⟨.greatest, h⟩
  · rintro ⟨_ | _, h⟩
    · exact Or.inl h
    · exact Or.inr h

/-! ## Reading directives -/

theorem RangeEnd.ofConstraint_set (e : RangeEnd) (c : Constraint) (a : Argument) :
    e.ofConstraint (c.set a) =
      if a.name = e.argument then a.value.text?.elim (e.ofConstraint c) Decimal.double?
      else e.ofConstraint c := by
  unfold Constraint.set
  cases a.value.text? with
  | none => simp
  | some text =>
      dsimp only
      split <;> cases e <;> simp_all [ofConstraint, argument]

theorem RangeEnd.ofConstraint_ofArguments (e : RangeEnd) (d : DirectiveUse) :
    e.ofConstraint (.ofArguments d.arguments) = (e.given? d).bind Decimal.double? := by
  unfold Constraint.ofArguments given?
  induction d.arguments using List.reverseRecOn with
  | nil => cases e <;> rfl
  | append_singleton as a ih =>
      rw [List.foldl_append, List.foldl_cons, List.foldl_nil, ofConstraint_set, ih, List.filter_append,
        List.filterMap_append, List.getLast?_append]
      by_cases hname : a.name = e.argument
      · cases htext : a.value.text? <;> simp [hname, htext]
      · simp [hname]

/-- The end that a notice sets. -/
def Notice.rangeEnd? (e : RangeEnd) : Notice → Option Double
  | constraint c => e.ofConstraint c
  | _ => none

theorem RangeEnd.ofFragment_note (e : RangeEnd) (key : String) (f : Fragment) (n : Notice) :
    e.ofFragment (Notice.note key f n) = (n.rangeEnd? e).or (e.ofFragment f) := by
  rw [Notice.note_eq]
  cases e <;> cases n <;> rfl

/-- Of the notices that set an end the last one does. -/
theorem RangeEnd.ofFragment_noteAll (e : RangeEnd) (key : String) (ns : List Notice) (f : Fragment) :
    e.ofFragment (Notice.noteAll key ns f) =
      (ns.filterMap (Notice.rangeEnd? e)).getLast?.or (e.ofFragment f) :=
  foldl_eq_getLast?_or e.ofFragment (e.ofFragment_note key) ns f

theorem RangeEnd.ofDirective? (e : RangeEnd) (d : DirectiveUse) :
    (Notice.ofDirective? d).bind (Notice.rangeEnd? e) =
      if d.name = "constraint" then (e.given? d).bind Decimal.double? else none := by
  unfold Notice.ofDirective?
  split
  · rename_i h
    simp [h, Notice.rangeEnd?]
  · rename_i h
    simp [h, Notice.rangeEnd?, ofConstraint_ofArguments]
  · rename_i h
    cases argumentText? d "url" <;> simp [h, Notice.rangeEnd?]
  · rename_i h _
    rw [if_neg h]
    rfl

/-- The last number that is read from texts is read from the last text that can be read as one. -/
theorem getLast?_filterMap_double? (ts : List String) : (ts.filterMap Decimal.double?).getLast? =
    (ts.filter fun t => (Decimal.double? t).isSome).getLast?.bind Decimal.double? := by
  induction ts using List.reverseRecOn with
  | nil => rfl
  | append_singleton ts t ih =>
      rw [List.filterMap_append, List.filter_append, List.getLast?_append, List.getLast?_append, ih]
      cases ht : Decimal.double? t <;> simp [ht]

theorem RangeEnd.getLast?_ofDirectives (e : RangeEnd) (ds : List DirectiveUse) :
    ((Notice.ofDirectives ds).filterMap (Notice.rangeEnd? e)).getLast? = e.bound? ds := by
  rw [bound?, text?, ← getLast?_filterMap_double?, Notice.ofDirectives, List.filterMap_filterMap,
    List.filterMap_filterMap, List.filterMap_filter]
  simp only [ofDirective?, decide_eq_true_eq]

theorem rangeEnd?_specifications (g : TypeGraph) (e : RangeEnd) (n : String) :
    (specifications g n).filterMap (Notice.rangeEnd? e) = [] := by
  unfold specifications
  split
  · rw [List.filterMap_filter, List.filterMap_eq_nil_iff]
    rintro (_ | _ | _) _ <;> rfl
  · rfl

theorem RangeEnd.ofFragment_fragment (e : RangeEnd) (g : TypeGraph) (t : TypeRef) :
    e.ofFragment (g.fragment t) = none := by
  have h := g.bounds_fragment t
  rw [Fragment.bounds_eq] at h
  refine Option.eq_none_iff_forall_not_mem.2 fun b hb => ?_
  have hown := Fragment.mem_ownBounds.2 ⟨e, hb⟩
  rw [(List.append_eq_nil_iff.1 h).2] at hown
  cases hown

/-- Types set no ends, only the constraints on their uses. -/
theorem RangeEnd.ofFragment_embeddedFragment (e : RangeEnd) (g : TypeGraph) (m : Member) :
    e.ofFragment (embeddedFragment g m) = e.bound? m.directives := by
  have htype := e.ofFragment_fragment g m.type
  rw [embeddedFragment, ofFragment_noteAll, List.filterMap_append, rangeEnd?_specifications,
    List.append_nil, getLast?_ofDirectives]
  cases nonEmpty m.description with
  | none =>
      dsimp only
      rw [htype, Option.or_none]
  | some text =>
      have hdescribed (t : String) : e.ofFragment ((g.fragment m.type).described t) = none := by
        cases e <;> exact htype
      dsimp only
      rw [hdescribed, Option.or_none]

/-! ## Bounds of components -/

theorem mem_bounds_embeddedFragment :
    b ∈ (embeddedFragment g m).bounds ↔ ∃ e : RangeEnd, e.bound? m.directives = some b := by
  have hparts : (g.fragment m.type).parts.flatMap Fragment.bounds = [] := by
    have h := g.bounds_fragment m.type
    rw [Fragment.bounds_eq] at h
    exact (List.append_eq_nil_iff.1 h).1
  rw [Fragment.bounds_eq, parts_embeddedFragment, hparts, List.nil_append, Fragment.mem_ownBounds]
  simp only [RangeEnd.ofFragment_embeddedFragment]

theorem mem_bounds_propertyFragment : b ∈ (propertyFragment g rules m).bounds ↔
    (g.role m.type.innermost).isStructured = false ∧
      ∃ e : RangeEnd, e.bound? m.directives = some b := by
  rw [propertyFragment]
  cases (g.role m.type.innermost).isStructured with
  | true => simp [identifierFragment, Fragment.bounds_described, Fragment.bounds_string]
  | false => simp [mem_bounds_embeddedFragment]

/-- A component holds a property for the last member of each key. -/
theorem mem_properties {ms : List Member} {x : String × Fragment} : x ∈ properties g rules ms ↔
    ∃ m, IsLast (fun m => propertyKey g m = x.1) (retained g ms) m ∧
      x.2 = propertyFragment g rules m := by
  have hkeys : (properties g rules ms).keys.Nodup := OrderedMap.nodup_keys_ofList _
  have hmem : x ∈ properties g rules ms ↔ (properties g rules ms).get? x.1 = some x.2 :=
    (OrderedMap.get?_eq_some_iff_mem hkeys).symm
  rw [hmem]
  constructor
  · intro h
    have hkey : x.1 ∈ (properties g rules ms).keys := by
      rw [OrderedMap.mem_keys_iff, h]
      rfl
    rw [keys_properties, List.mem_eraseDups] at hkey
    obtain ⟨m, hm, hkey⟩ := List.mem_map.1 hkey
    obtain ⟨m, hlast⟩ := exists_isLast (P := fun m => propertyKey g m = x.1) hm hkey
    rw [get?_properties hlast] at h
    exact ⟨m, hlast, (Option.some.inj h).symm⟩
  · rintro ⟨m, hlast, heq⟩
    rw [get?_properties hlast, heq]

theorem bounds_component {f : Fragment} (hf : component? g rules d = some f) :
    f.bounds = (properties g rules d.body.members).flatMap fun x => x.2.bounds := by
  rw [Fragment.bounds_eq, (own_component hf).2, List.append_nil, parts_component hf]
  cases d.body with
  | union ms => simp [Body.members, properties, OrderedMap.ofList, Fragment.bounds_referTo]
  | _ => simp only [List.flatMap_map]

theorem exists_component_of_member (rules : InflectionRules) (hm : m ∈ d.body.members) :
    ∃ f, component? g rules d = some f := by
  refine Option.ne_none_iff_exists'.1 fun hnone => ?_
  have hkind := component?_eq_none_iff.1 hnone
  cases hb : d.body with
  | scalar => rw [hb] at hm; cases hm
  | _ => rw [hb] at hkind; cases hkind

/-! ## Bounds of documents -/

/-- A member that a component embeds: no identifier stands for it, and no later member takes its key. -/
structure Embedded (g : TypeGraph) (d : TypeDefinition) (m : Member) : Prop where
  exposed : isExposed g d = true
  plain : (g.role m.type.innermost).isStructured = false
  last : IsLast (fun m' => propertyKey g m' = propertyKey g m) (retained g d.body.members) m

/-- Every bound that a `@constraint` sets for an embedded member is one that there is a number for. -/
def Sdl.TypeGraph.BoundsRepresentable (g : TypeGraph) : Prop :=
  ∀ d ∈ g.types, ∀ m, Embedded g d m → ∀ (e : RangeEnd) text, e.text? m.directives = some text →
    ¬ Decimal.Unbounded text

namespace Conversion

open Json

variable {options : Options} {source : String} {c : Conversion}

theorem isNumber_double_iff {b : Double} (h : ∀ n m e, b = .finite n m e → Double.InRange m e) :
    IsNumber (number (.double b)) ↔ b.isFinite = true := by
  have hnull : ¬ IsNumber ['n', 'u', 'l', 'l'] := fun h =>
    absurd (h.isNumberChar 'n' List.mem_cons_self) (by decide)
  cases b with
  | finite n m e => exact ⟨fun _ => rfl, fun _ => isNumber_finite (h n m e rfl) n⟩
  | infinite _ => exact ⟨fun h => absurd h hnull, nofun⟩
  | nan => exact ⟨fun h => absurd h hnull, nofun⟩

section

variable (hg : TypeGraph.ofSource? source.toList = some g) (hc : convert? options source = some c)

include hg hc

/-- The bounds of a document are those that are set for embedded members. -/
theorem mem_bounds_document : b ∈ c.document.bounds ↔
    ∃ d ∈ g.types, ∃ m, Embedded g d m ∧ ∃ e : RangeEnd, e.bound? m.directives = some b := by
  rw [Document.mem_bounds]
  constructor
  · rintro (⟨p, m, o, ho, hb⟩ | ⟨⟨n, f⟩, hx, hb⟩)
    · obtain ⟨e, he, -, -, -, rfl⟩ := (mem_operations_document hg hc).1 ho
      rw [Endpoint.bounds_of_mem_written (TypeGraph.lawful_of_ofSource? hg) he] at hb
      cases hb
    · rw [components_document hg hc] at hx
      obtain ⟨d, hd, hexposed, hf, -⟩ := mem_components_iff.1 hx
      rw [bounds_component hf] at hb
      obtain ⟨x, hx, hb⟩ := List.mem_flatMap.1 hb
      obtain ⟨m, hlast, hm⟩ := mem_properties.1 hx
      rw [hm] at hb
      obtain ⟨hplain, hbound⟩ := mem_bounds_propertyFragment.1 hb
      exact ⟨d, hd, m, ⟨hexposed, hplain, hlast.prop ▸ hlast⟩, hbound⟩
  · rintro ⟨d, hd, m, hm, hbound⟩
    obtain ⟨f, hf⟩ := exists_component_of_member options.inflection
      (mem_retained_iff.1 hm.last.mem).1
    refine Or.inr ⟨(d.name, f), ?_, ?_⟩
    · rw [components_document hg hc]
      exact mem_components_iff.2 ⟨d, hd, hm.exposed, hf, rfl⟩
    · rw [bounds_component hf]
      exact List.mem_flatMap.2 ⟨(propertyKey g m, _), mem_properties.2 ⟨m, hm.last, rfl⟩,
        mem_bounds_propertyFragment.2 ⟨hm.plain, hbound⟩⟩

theorem inRange_of_mem_bounds {negative : Bool} {n : Nat} {k : Int}
    (h : .finite negative n k ∈ c.document.bounds) : Double.InRange n k := by
  obtain ⟨_, _, _, _, e, hb⟩ := (mem_bounds_document hg hc).1 h
  obtain ⟨text, _, hread⟩ := Option.bind_eq_some_iff.1 hb
  exact Decimal.inRange_of_double? hread

theorem isFinite_bounds_iff :
    (∀ b ∈ c.document.bounds, b.isFinite = true) ↔ g.BoundsRepresentable := by
  constructor
  · intro h d hd m hm e text htext hunbounded
    obtain ⟨b, hread, hfinite⟩ := Decimal.exists_double?_iff_unbounded.2 hunbounded
    have hbound : e.bound? m.directives = some b := by rw [RangeEnd.bound?, htext]; exact hread
    rw [h b ((mem_bounds_document hg hc).2 ⟨d, hd, m, hm, e, hbound⟩)] at hfinite
    cases hfinite
  · intro h b hb
    obtain ⟨d, hd, m, hm, e, hbound⟩ := (mem_bounds_document hg hc).1 hb
    obtain ⟨text, htext, hread⟩ := Option.bind_eq_some_iff.1 hbound
    by_contra hfinite
    exact h d hd m hm e text htext
      (Decimal.exists_double?_iff_unbounded.1 ⟨b, hread, Bool.eq_false_of_not_eq_true hfinite⟩)

theorem hasNull_render_iff :
    HasNull (c.document.render .json) ↔ ∃ b ∈ c.document.bounds, b.isFinite = false := by
  have hrange : BoundsInRange c.document.tree.bounds := by
    intro n m e hmem
    obtain ⟨b, hb, heq⟩ := Document.mem_bounds_tree.1 hmem
    cases heq
    exact inRange_of_mem_bounds hg hc hb
  have hnull : HoldsNull c.document.tree.bounds ↔ ∃ b ∈ c.document.bounds, b.isFinite = false := by
    simp [HoldsNull, Document.mem_bounds_tree, isNull]
  rw [Document.render, OutputFormat.render, hasNull_prettyText_iff hrange, hnull]

end

/-- The text of a document has no null, and all its bounds are written as numbers, just if every bound of
an embedded member is one that there is a number for. -/
theorem render_without_null_iff (hg : TypeGraph.ofSource? source.toList = some g)
    (hc : convert? options source = some c) :
    (¬ HasNull (c.document.render .json) ↔ g.BoundsRepresentable) ∧
      ((∀ b ∈ c.document.bounds, IsNumber (number (.double b))) ↔ g.BoundsRepresentable) := by
  have hfinite := isFinite_bounds_iff hg hc
  constructor
  · rw [hasNull_render_iff hg hc, ← hfinite]
    simp
  · rw [← hfinite]
    refine forall₂_congr fun b hb => isNumber_double_iff ?_
    rintro n m e rfl
    exact inRange_of_mem_bounds hg hc hb

/-- A type with bounds, one of which is given twice and once not as a number. -/
def priced : String :=
  "type Query { product: Product } type Product \x7b " ++
  "price: Float @constraint(min: \"0.5\", max: 1e3) @constraint(min: few, max: -2) \x7d"

theorem priced_without_null : ∃ g c, TypeGraph.ofSource? priced.toList = some g ∧
    convert? {} priced = some c ∧ c.document.bounds ≠ [] ∧ ¬ HasNull (c.document.render .json) := by
  obtain ⟨g, hg, hfinite, hbounds⟩ := exists_graph priced
    (fun g => (∀ d ∈ g.types, ∀ m ∈ d.body.members, ∀ e ∈ [RangeEnd.least, .greatest],
      (e.bound? m.directives).all Double.isFinite = true) ∧
      (ofGraph {} priced g).document.bounds ≠ []) (by decide +kernel)
  have hc := convert?_of_ofSource? {} hg
  refine ⟨g, _, hg, hc, hbounds, (render_without_null_iff hg hc).1.2 ?_⟩
  intro d hd m hm e text htext hunbounded
  obtain ⟨b, hread, hb⟩ := Decimal.exists_double?_iff_unbounded.2 hunbounded
  have hbound : e.bound? m.directives = some b := by rw [RangeEnd.bound?, htext]; exact hread
  have hall := hfinite d hd m (mem_retained_iff.1 hm.last.mem).1 e (by cases e <;> simp)
  rw [hbound, Option.all_some, hb] at hall
  cases hall

/-- A type with a bound beyond all doubles. -/
def overpriced : String :=
  "type Query { product: Product } type Product { price: Float @constraint(max: 1e400) }"

theorem overpriced_has_null : ∃ g c, TypeGraph.ofSource? overpriced.toList = some g ∧
    convert? {} overpriced = some c ∧ HasNull (c.document.render .json) := by
  obtain ⟨g, hg, hbound⟩ := exists_graph overpriced
    (fun g => ∃ b ∈ (ofGraph {} overpriced g).document.bounds, b.isFinite = false) (by decide +kernel)
  have hc := convert?_of_ofSource? {} hg
  exact ⟨g, _, hg, hc, (hasNull_render_iff hg hc).2 hbound⟩

end Conversion

end GraphRest
