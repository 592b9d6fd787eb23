import GraphRest.Conversion.Events
import GraphRest.Proofs.Conversion.Properties

/-!
# What a component depends on

Of the types that its members name, a component reads the role and, of scalars, the directives. Two
schemas that agree on these, on the roots and on the definition of a type make one component of it.
-/

namespace GraphRest

open Sdl

/-- Two schemas give a name the same role, and the same directives if it is that of a scalar. -/
structure Sdl.TypeGraph.Alike (g g' : TypeGraph) (n : String) : Prop where
  role : g.role n = g'.role n
  directives : Conversion.scalarDirectives g n = Conversion.scalarDirectives g' n

variable {g g' : TypeGraph} {rules : InflectionRules} {n : String} {m : Member} {d : TypeDefinition}

theorem Sdl.TypeGraph.Alike.symm (h : g.Alike g' n) : g'.Alike g n :=
  ⟨h.role.symm, h.directives.symm⟩

/-! ## Fragments -/

theorem namedFragment_congr (h : g.role n = g'.role n) : g.namedFragment n = g'.namedFragment n := by
  rw [TypeGraph.namedFragment, TypeGraph.namedFragment, h]

theorem fragment_congr {t : TypeRef} (h : g.role t.innermost = g'.role t.innermost) :
    g.fragment t = g'.fragment t := by
  induction t with
  | named name _ => exact namedFragment_congr h
  | list element _ ih => exact congrArg Fragment.array (ih h)

theorem specifications_eq (g : TypeGraph) (n : String) : specifications g n =
    (Notice.ofDirectives (Conversion.scalarDirectives g n)).filter fun
      | .specifiedBy _ => true
      | _ => false := by
  unfold specifications Conversion.scalarDirectives
  rcases g.type? n with _ | ⟨_, _, _, body⟩
  · rfl
  · cases body <;> rfl

theorem embeddedFragment_congr (h : g.Alike g' m.type.innermost) :
    embeddedFragment g m = embeddedFragment g' m := by
  rw [embeddedFragment, embeddedFragment, fragment_congr h.role, specifications_eq,
    specifications_eq, h.directives]

/-! ## Properties and components -/

theorem property?_congr (h : g.Alike g' m.type.innermost) :
    property? g rules m = property? g' rules m := by
  rw [property?, property?, h.role, embeddedFragment_congr h]

theorem requiredKey?_congr (h : g.Alike g' m.type.innermost) :
    requiredKey? g rules m = requiredKey? g' rules m := by
  rw [requiredKey?, requiredKey?, property?_congr h]

theorem objectComponent_congr {description : Option String} {ms : List Member}
    (h : ∀ m ∈ ms, g.Alike g' m.type.innermost) :
    objectComponent g rules description ms = objectComponent g' rules description ms := by
  have hproperties : ms.filterMap (property? g rules) = ms.filterMap (property? g' rules) :=
    List.filterMap_congr fun m hm => property?_congr (h m hm)
  have hrequired : ms.filterMap (requiredKey? g rules) = ms.filterMap (requiredKey? g' rules) :=
    List.filterMap_congr fun m hm => requiredKey?_congr (h m hm)
  rw [objectComponent, objectComponent, properties, properties, hproperties, hrequired]

theorem component?_congr (h : ∀ m ∈ d.body.members, g.Alike g' m.type.innermost) :
    component? g rules d = component? g' rules d := by
  unfold component?
  cases hb : d.body with
  | scalar => rfl
  | «enum» vs => rfl
  | union ms => rfl
  | interface is fs =>
      rw [hb] at h
      exact congrArg (fun f : Fragment => some { f with required := [] }) (objectComponent_congr h)
  | object is fs =>
      rw [hb] at h
      exact congrArg some (objectComponent_congr h)
  | input fs =>
      rw [hb] at h
      exact congrArg some (objectComponent_congr h)

theorem isExposed_congr (h : g.roots = g'.roots) : isExposed g d = isExposed g' d := by
  rw [isExposed, isExposed, h]

namespace Conversion

variable {options options' : Options} {source source' : String} {c c' : Conversion}

/-- What the component of a type is read from is the same in two schemas. -/
structure SameReading (g g' : TypeGraph) (n : String) : Prop where
  roots : g.roots = g'.roots
  definition : g.type? n = g'.type? n
  named : ∀ d, g.type? n = some d → ∀ m ∈ d.body.members, g.Alike g' m.type.innermost

theorem SameReading.symm (h : SameReading g g' n) : SameReading g' g n :=
  ⟨h.roots.symm, h.definition.symm, fun d hd m hm => (h.named d (h.definition ▸ hd) m hm).symm⟩

/-- A component of the one schema is one of the other. -/
theorem SameReading.mem_components (h : SameReading g g' n) (hg : g.Lawful) (hg' : g'.Lawful)
    {f : Fragment} (hf : (n, f) ∈ components g rules) : (n, f) ∈ components g' rules := by
  obtain ⟨d, hd, hx, hcomponent, rfl⟩ := mem_components_iff.1 hf
  have hknown : g.type? d.name = some d :=
    hg.type?_eq_some_iff.2 ⟨List.mem_append_left _ hd, rfl⟩
  have hdeclared : d ∈ g'.types := hg.mem_types_of_type? hg' hd (h.definition ▸ hknown)
  exact mem_components_iff.2 ⟨d, hdeclared, isExposed_congr h.roots ▸ hx,
    component?_congr (h.named d hknown) ▸ hcomponent, rfl⟩

/-- The component of a type, or that there is none, depends on nothing but the roots, the definition of
the type, and the roles and scalar directives of the types that its members name. -/
theorem components_local (hg : TypeGraph.ofSource? source.toList = some g)
    (hg' : TypeGraph.ofSource? source'.toList = some g') (hc : convert? options source = some c)
    (hc' : convert? options' source' = some c') (hrules : options.inflection = options'.inflection)
    (h : SameReading g g' n) :
    c.document.components.get? n = c'.document.components.get? n := by
  have hlawful := TypeGraph.lawful_of_ofSource? hg
  have hlawful' := TypeGraph.lawful_of_ofSource? hg'
  rw [components_document hg hc, components_document hg' hc', ← hrules]
  apply Option.ext
  intro f
  rw [OrderedMap.get?_eq_some_iff_mem (nodup_components hlawful _),
    OrderedMap.get?_eq_some_iff_mem (nodup_components hlawful' _)]
  exact ⟨h.mem_components hlawful hlawful', h.symm.mem_components hlawful' hlawful⟩

/-- Posts of users, with a date. -/
def dated : String :=
  "scalar Date @specifiedBy(url: \"/date-time\") " ++
  "type Query \x7b post: Post \x7d " ++
  "type Post \x7b id: ID! author: User at: Date \x7d type User \x7b id: ID! \x7d"

/-- The same posts between other queries and other users. -/
def datedOtherwise : String :=
  "type User \x7b posts: [Post!]! at: Date \x7d " ++
  "type Post \x7b id: ID! author: User at: Date \x7d " ++
  "type Query \x7b posts: [Post] user(at: Date): User \x7d " ++
  "scalar Date @specifiedBy(url: \"/date-time\")"

/-- All that the component of the posts is read from. -/
def postReading (g : TypeGraph) : Roots × Option TypeDefinition × List (TypeRole × List DirectiveUse) :=
  (g.roots, g.type? "Post", ["ID", "User", "Date"].map fun n => (g.role n, scalarDirectives g n))

def isDatedPost : Roots × Option TypeDefinition × List (TypeRole × List DirectiveUse) → Bool
  | (⟨some "Query", none, none⟩,
      some ⟨"Post", none, [], .object []
        [⟨"id", none, [], .named "ID" true, []⟩, ⟨"author", none, [], .named "User" false, []⟩,
          ⟨"at", none, [], .named "Date" false, []⟩]⟩,
      [(.builtInScalar, []), (.object, []),
        (.customScalar, [⟨"specifiedBy", [⟨"url", .string "/date-time"⟩]⟩])]) =>
        true
  | _ => false

theorem sameReading_of_isDatedPost (h : isDatedPost (postReading g) = true)
    (h' : isDatedPost (postReading g') = true) : SameReading g g' "Post" := by
  have heq : postReading g = postReading g' := by
    unfold isDatedPost at h h'
    split at h
    · rename_i hg
      split at h'
      · rename_i hg'
        rw [hg, hg']
      · cases h'
    · cases h
  obtain ⟨hroots, hrest⟩ := Prod.mk.inj heq
  obtain ⟨htype, hnames⟩ := Prod.mk.inj hrest
  refine ⟨hroots, htype, fun d hd m hm => ?_⟩
  unfold isDatedPost postReading at h
  split at h
  · rename_i hg
    simp only [Prod.mk.injEq] at hg
    rw [hg.2.1] at hd
    cases hd
    simp only [Body.members, List.map_cons, List.map_nil, List.mem_cons, List.not_mem_nil, or_false]
      at hm
    simp only [List.map_cons, List.map_nil, List.cons.injEq, Prod.mk.injEq] at hnames
    rcases hm with rfl | rfl | rfl
    · exact ⟨hnames.1.1, hnames.1.2⟩
    · exact ⟨hnames.2.1.1, hnames.2.1.2⟩
    · exact ⟨hnames.2.2.1.1, hnames.2.2.1.2⟩
  · cases h

theorem dated_post_local : ∃ g g' c c', TypeGraph.ofSource? dated.toList = some g ∧
    TypeGraph.ofSource? datedOtherwise.toList = some g' ∧
    convert? {} dated = some c ∧ convert? { title := some "Blog" } datedOtherwise = some c' ∧
    SameReading g g' "Post" ∧
    c.document.components.get? "Post" = c'.document.components.get? "Post" := by
  obtain ⟨g, hg, hp⟩ := exists_graph dated (fun g => isDatedPost (postReading g) = true)
    (by decide +kernel)
  obtain ⟨g', hg', hp'⟩ := exists_graph datedOtherwise (fun g => isDatedPost (postReading g) = true)
    (by decide +kernel)
  have hc := convert?_of_ofSource? {} hg
  have hc' := convert?_of_ofSource? { title := some "Blog" } hg'
  have hsame := sameReading_of_isDatedPost hp hp'
  exact ⟨g, g', _, _, hg, hg', hc, hc', hsame, components_local hg hg' hc hc' rfl hsame⟩

end Conversion

end GraphRest
