import GraphRest.Proofs.Conversion.ComponentReferences
import GraphRest.Proofs.Data.Last
import GraphRest.Proofs.Data.Outcome
import GraphRest.Proofs.Document.Writes
import GraphRest.Proofs.Endpoint.Emitted

/-!
# The finished document

What a conversion leaves in its document: the component of each declared type under its name, and in
every slot that endpoints are written to one of them.

Whether a type has a component is decided when components are written, from how the type is declared, and
whether a type is referred to when it is mapped, from what role it plays. The two come to the same.
-/

namespace GraphRest

open Sdl

namespace Endpoint

/-- An endpoint is what a document has in the slot of the endpoint. -/
def StandsIn (options : Options) (d : Document) (e : Endpoint) : Prop :=
  d.operation? (options.path e.route) e.method = some e.operation

variable {options : Options} {d : Document} {e e' : Endpoint}

theorem StandsIn.operation_eq (h : e.StandsIn options d) (h' : e'.StandsIn options d)
    (hs : e.slot = e'.slot) : e.operation = e'.operation := by
  obtain ⟨hroute, hmethod⟩ := Prod.mk.inj hs
  rw [StandsIn, hroute, hmethod, h'] at h
  exact (Option.some.inj h).symm

theorem StandsIn.congr (h : e.StandsIn options d) (hs : e.slot = e'.slot)
    (ho : e.operation = e'.operation) : e'.StandsIn options d := by
  obtain ⟨hroute, hmethod⟩ := Prod.mk.inj hs
  rwa [StandsIn, ← hroute, ← hmethod, ← ho]

/-- An endpoint with no other one of its slot behind it stands in the end. -/
theorem standsIn_writeAll {pre post : List Endpoint}
    (h : ∀ x ∈ post, x.slot = e.slot → x.operation = e.operation) :
    e.StandsIn options (writeAll options (pre ++ e :: post) d) := by
  obtain ⟨pre', e', post', heq, hs, hlast, -⟩ :=
    exists_last (P := fun x => x.slot = e.slot) (List.mem_cons_self : e ∈ e :: post) rfl
  have hop : e'.operation = e.operation := by
    have hmem : e' ∈ e :: post := heq ▸ List.mem_append_right _ List.mem_cons_self
    rcases List.mem_cons.1 hmem with rfl | hpost
    · rfl
    · exact h e' hpost hs
  have hstands : e'.StandsIn options (writeAll options ((pre ++ pre') ++ e' :: post') d) :=
    operation?_writeAll_of_last fun x hx => hs ▸ hlast x hx
  rw [heq, ← List.append_assoc]
  exact hstands.congr hs hop

end Endpoint

namespace Conversion

variable {g : TypeGraph} {options : Options} {source : String} {c : Conversion}

/-! ## The document of a conversion -/

theorem exists_graph (source : String) (P : TypeGraph → Prop) [DecidablePred P]
    (h : (TypeGraph.ofSource? source.toList).any (fun g => P g) = true) :
    ∃ g, TypeGraph.ofSource? source.toList = some g ∧ P g :=
  exists_eq_some_of_any h

theorem convert?_of_ofSource? (options : Options)
    (hg : TypeGraph.ofSource? source.toList = some g) :
    convert? options source = some (ofGraph options source g) := by
  rw [convert?, hg]
  rfl

theorem document_eq (hg : TypeGraph.ofSource? source.toList = some g)
    (hc : convert? options source = some c) :
    c.document = Endpoint.writeAll options (written g options)
      (writeComponents (components g options.inflection)
        (Document.new (Header.info options source) (Header.servers options))) := by
  rw [convert?_of_ofSource? options hg] at hc
  cases hc
  rfl

/-- The document holds the components and the endpoints that are written into it. -/
theorem holds_document (hg : TypeGraph.ofSource? source.toList = some g)
    (hc : convert? options source = some c) :
    Document.Holds (Header.info options source) (Header.servers options)
      ((components g options.inflection).map (fun c => .component c.1 c.2) ++
        (written g options).map (Endpoint.toWrite options)) c.document := by
  rw [document_eq hg hc, Endpoint.writeAll_eq_written, writeComponents_eq_written,
    ← Document.written_append]
  exact Document.holds_written _ _ _

theorem components_document (hg : TypeGraph.ofSource? source.toList = some g)
    (hc : convert? options source = some c) :
    c.document.components = components g options.inflection := by
  rw [document_eq hg hc, Endpoint.components_writeAll, components_writeComponents]
  exact OrderedMap.ofList_of_nodup
    (nodup_components (TypeGraph.lawful_of_ofSource? hg) options.inflection)

/-- The operations of a document are those of the endpoints that stand in it. -/
theorem mem_operations_document (hg : TypeGraph.ofSource? source.toList = some g)
    (hc : convert? options source = some c) {p : String} {m : Method} {o : Operation} :
    (p, m, o) ∈ c.document.operations ↔ ∃ e ∈ written g options, e.StandsIn options c.document ∧
      options.path e.route = p ∧ e.method = m ∧ e.operation = o := by
  rw [Document.mem_operations_iff (holds_document hg hc).distinct_paths]
  constructor
  · intro ho
    have hwritten := ho
    rw [document_eq hg hc] at hwritten
    rcases Endpoint.operation?_writeAll hwritten with ⟨e, he, rfl, rfl, rfl⟩ | hnone
    · exact ⟨e, he, ho, rfl, rfl, rfl⟩
    · rw [Document.operation?, paths_writeComponents] at hnone
      cases hnone
  · rintro ⟨e, -, hstands, rfl, rfl, rfl⟩
    exact hstands

/-- The paths of a document are those of the endpoints that are written into it. -/
theorem mem_paths_document (hg : TypeGraph.ofSource? source.toList = some g)
    (hc : convert? options source = some c) {p : String} :
    p ∈ c.document.paths.keys ↔ ∃ e ∈ written g options, options.path e.route = p := by
  have hnone : (Document.new (Header.info options source) (Header.servers options)).paths.keys = [] :=
    rfl
  rw [document_eq hg hc, Endpoint.mem_paths_writeAll, paths_writeComponents, hnone]
  simp

/-- Of the endpoints that are written to a slot one stands in the document, and it is written last. -/
theorem exists_standsIn (hg : TypeGraph.ofSource? source.toList = some g)
    (hc : convert? options source = some c) {e : Endpoint} (he : e ∈ written g options) :
    ∃ pre e' post, written g options = pre ++ e' :: post ∧ e'.slot = e.slot ∧ (e = e' ∨ e ∈ pre) ∧
      e'.StandsIn options c.document := by
  obtain ⟨pre, e', post, heq, hs, hlast, hpre⟩ :=
    exists_last (P := fun x => x.slot = e.slot) he rfl
  refine ⟨pre, e', post, heq, hs, hpre, ?_⟩
  rw [document_eq hg hc, heq]
  exact Endpoint.standsIn_writeAll fun x hx hxs => absurd (hxs.trans hs) (hlast x hx)

/-- To the place of an endpoint that is written, one that stands in the document is written. -/
theorem exists_emitted_standsIn (hg : TypeGraph.ofSource? source.toList = some g)
    (hc : convert? options source = some c) {s : Endpoint.Stage} {pl : Endpoint.Place} {e : Endpoint}
    (h : Endpoint.Emitted g options s pl e) :
    ∃ s' e', Endpoint.Emitted g options s' pl e' ∧ e'.StandsIn options c.document := by
  have hlawful := TypeGraph.lawful_of_ofSource? hg
  obtain ⟨pre, e', post, heq, hs, -, hstands⟩ :=
    exists_standsIn hg hc ((Endpoint.mem_written_iff hlawful).2 ⟨s, pl, h⟩)
  have hwritten : e' ∈ written g options := heq ▸ List.mem_append_right _ List.mem_cons_self
  obtain ⟨s', pl', h'⟩ := (Endpoint.mem_written_iff hlawful).1 hwritten
  exact ⟨s', e', h'.place_eq hlawful h hs ▸ h', hstands⟩

/-- A slot of the document has an operation if an endpoint is written to it. -/
theorem isSome_operation?_iff (hg : TypeGraph.ofSource? source.toList = some g)
    (hc : convert? options source = some c) {p : String} {m : Method} :
    (c.document.operation? p m).isSome = true ↔
      ∃ e ∈ written g options, options.path e.route = p ∧ e.method = m := by
  rw [Option.isSome_iff_exists]
  constructor
  · rintro ⟨o, ho⟩
    rw [document_eq hg hc] at ho
    rcases Endpoint.operation?_writeAll ho with ⟨e, he, hp, hm, -⟩ | hnone
    · exact ⟨e, he, hp, hm⟩
    · rw [Document.operation?, paths_writeComponents] at hnone
      cases hnone
  · rintro ⟨e, he, rfl, rfl⟩
    obtain ⟨pre, e', post, -, hs, -, hstands⟩ := exists_standsIn hg hc he
    obtain ⟨hroute, hmethod⟩ := Prod.mk.inj hs
    exact ⟨e'.operation, hroute ▸ hmethod ▸ hstands⟩

end Conversion

/-! ## Names of components -/

namespace Sdl.TypeGraph

variable {g : TypeGraph} {n : String}

theorem isSome_reference_namedFragment :
    (g.namedFragment n).reference.isSome = true ↔ (g.role n).isReferenced = true := by
  cases h : (g.role n).isReferenced with
  | true => simp [namedFragment_of_isReferenced h, Fragment.referTo]
  | false => simp [(parts_namedFragment h).reference]

end Sdl.TypeGraph

namespace Conversion

/-- The types that are referred to are those with a component, and they are the declared types, in order,
that are no scalars, no roots and not set apart by their names. -/
theorem referred_iff_component {options : Options} {source : String} {g : TypeGraph} {c : Conversion}
    (hg : TypeGraph.ofSource? source.toList = some g) (hc : convert? options source = some c) :
    (∀ n nonNull, isReservedName n = false →
      ((g.fragment (.named n nonNull)).reference.isSome = true ↔
        n ∈ OrderedMap.keys c.document.components)) ∧
      (∀ n nonNull, n ∈ OrderedMap.keys c.document.components →
        g.fragment (.named n nonNull) = .referTo n) ∧
      OrderedMap.keys c.document.components =
        (g.types.filter fun d => !isReservedName d.name && !g.roots.contains d.name &&
          d.body.kind ≠ .scalar).map TypeDefinition.name ∧
      (OrderedMap.keys c.document.components).Nodup := by
  have hlawful := TypeGraph.lawful_of_ofSource? hg
  rw [components_document hg hc]
  have hreferred : ∀ n, isReservedName n = false →
      (n ∈ OrderedMap.keys (components g options.inflection) ↔ (g.role n).isReferenced = true) :=
    fun n hn => mem_keys_components_iff_isReferenced hlawful hn
  refine ⟨?_, ?_, keys_components, nodup_components hlawful _⟩
  · intro n nonNull hn
    rw [TypeGraph.fragment, TypeGraph.isSome_reference_namedFragment, hreferred n hn]
  · intro n nonNull hmem
    obtain ⟨d, -, hexposed, -, rfl⟩ := mem_keys_components_iff.1 hmem
    have hn : isReservedName d.name = false := by
      simpa using (Bool.and_eq_true_iff.1 hexposed).1
    exact TypeGraph.namedFragment_of_isReferenced ((hreferred d.name hn).1 hmem)

/-- Letters with a scalar, and two roots by other names, one of them an enum. -/
def renamedRoots : String :=
  "schema \x7b query: Post subscription: Bell \x7d type Post \x7b letter: Letter \x7d " ++
  "enum Bell \x7b LOUD \x7d scalar Date type Letter \x7b sent: Date \x7d"

theorem renamedRoots_components : ∃ g c, TypeGraph.ofSource? renamedRoots.toList = some g ∧
    convert? {} renamedRoots = some c ∧
      OrderedMap.keys c.document.components = ["Letter"] ∧
      (g.fragment (.named "Bell" true)).reference.isSome = false ∧
      (g.fragment (.named "Parcel" true)).reference.isSome = false ∧
      g.fragment (.named "Letter" true) = .referTo "Letter" := by
  obtain ⟨g, hg, hkeys⟩ := exists_graph renamedRoots
    (fun g => (g.types.filter fun d => !isReservedName d.name && !g.roots.contains d.name &&
      d.body.kind ≠ .scalar).map TypeDefinition.name = ["Letter"])
    (by decide +kernel)
  have hc := convert?_of_ofSource? {} hg
  obtain ⟨hreferred, hname, hall, -⟩ := referred_iff_component hg hc
  rw [hall, hkeys] at hreferred hname
  refine ⟨g, _, hg, hc, hall.trans hkeys, ?_, ?_, hname "Letter" true (by decide)⟩
  · exact eq_false_of_ne_true ((hreferred "Bell" true (by decide)).not.2 (by decide))
  · exact eq_false_of_ne_true ((hreferred "Parcel" true (by decide)).not.2 (by decide))

end Conversion

end GraphRest
