import GraphRest.Proofs.Document.Schemas
import GraphRest.Document.Basic
import GraphRest.Proofs.Json.Text

/-!
# Documents are told by their texts

Each record of a document is told by its data tree: what stands at the keys of the tree gives the parts of
the record back, also those that are left out when they are empty, unset or absent. Together with the
texts of trees, two documents without bounds are the same if they have the same JSON text.
-/

namespace GraphRest

open GraphRest.Tree

/-! ## Parts of a record -/

theorem PrimitiveType.word_inj {t t' : PrimitiveType} (h : t.word = t'.word) : t = t' := by
  cases t <;> cases t' <;> first | rfl | exact absurd h (by decide)

theorem map_text_inj {a a' : Option String} (h : a.map Tree.text = a'.map Tree.text) : a = a' :=
  Option.map_injective (fun _ _ => Tree.text.inj) h

theorem map_word_inj {a a' : Option PrimitiveType}
    (h : (a.map fun t => Tree.text t.word) = a'.map fun t => Tree.text t.word) : a = a' :=
  Option.map_injective (fun _ _ h => PrimitiveType.word_inj (Tree.text.inj h)) h

theorem map_whole_inj {a a' : Option Nat} (h : a.map Tree.whole = a'.map Tree.whole) : a = a' :=
  Option.map_injective (fun _ _ h => Number.whole.inj (Tree.number.inj h)) h

theorem map_double_inj {a a' : Option Double}
    (h : (a.map fun d => Tree.number (.double d)) = a'.map fun d => Tree.number (.double d)) :
    a = a' :=
  Option.map_injective (fun _ _ h => Number.double.inj (Tree.number.inj h)) h

theorem flag_inj {b b' : Bool}
    (h : (if b then some (Tree.bool true) else none) = if b' then some (Tree.bool true) else none) :
    b = b' :=
  match b, b', h with
  | true, true, _ => rfl
  | false, false, _ => rfl

theorem list_inj {ts ts' : List Tree}
    (h : (if ts = [] then none else some (list ts)) = if ts' = [] then none else some (list ts')) :
    ts = ts' :=
  match ts, ts', h with
  | [], [], _ => rfl
  | _ :: _, _ :: _, h => list.inj (Option.some.inj h)

theorem fields_inj {es es' : List (String × Tree)}
    (h : (if es = [] then none else some (fields es)) =
      if es' = [] then none else some (fields es')) : es = es' :=
  match es, es', h with
  | [], [], _ => rfl
  | _ :: _, _ :: _, h => fields.inj (Option.some.inj h)

theorem ParameterLocation.word_inj {l l' : ParameterLocation} (h : l.word = l'.word) : l = l' := by
  cases l <;> cases l' <;> first | rfl | exact absurd h (by decide)

theorem map_texts_inj {ss ss' : List String} (h : ss.map text = ss'.map text) : ss = ss' :=
  (List.map_inj_right fun _ _ => Tree.text.inj).1 h

/-! ## Fragments -/

namespace Fragment

theorem itemsField_eq (f : Option Fragment) : itemsField f = optional "items" tree f := by
  cases f <;> rfl

/-- A fragment is told by its tree if the fragments inside it are. -/
theorem eq_of_tree_eq {f f' : Fragment} (h : f.tree = f'.tree)
    (hproperties : propertyTrees f.properties = propertyTrees f'.properties →
      f.properties = f'.properties)
    (hitems : f.items.map tree = f'.items.map tree → f.items = f'.items)
    (honeOf : trees f.oneOf = trees f'.oneOf → f.oneOf = f'.oneOf) : f = f' := by
  obtain ⟨type, format, description, properties, required, items, reference, deprecated, enumValues,
    oneOf, minLength, maxLength, minimum, maximum, pattern⟩ := f
  obtain ⟨type', format', description', properties', required', items', reference', deprecated',
    enumValues', oneOf', minLength', maxLength', minimum', maximum', pattern'⟩ := f'
  simp only [tree, Tree.fields.injEq, itemsField_eq] at h
  have hkey := fun key => congrArg (List.lookup key) h
  have htype : type = type' := map_word_inj <| by simpa [List.lookup_append] using hkey "type"
  have hformat : format = format' :=
    map_text_inj <| by simpa [List.lookup_append] using hkey "format"
  have hdescription : description = description' :=
    map_text_inj <| by simpa [List.lookup_append] using hkey "description"
  have hproperties : properties = properties' :=
    hproperties <| fields_inj <| by simpa [List.lookup_append] using hkey "properties"
  have hrequired : required = required' :=
    map_texts_inj <| list_inj <| by
      simpa [List.lookup_append, -List.map_eq_nil_iff] using hkey "required"
  have hitems : items = items' := hitems <| by simpa [List.lookup_append] using hkey "items"
  have hreference : reference = reference' :=
    map_text_inj <| by simpa [List.lookup_append] using hkey "$ref"
  have hdeprecated : deprecated = deprecated' :=
    flag_inj <| by simpa [List.lookup_append] using hkey "deprecated"
  have henumValues : enumValues = enumValues' :=
    map_texts_inj <| list_inj <| by
      simpa [List.lookup_append, -List.map_eq_nil_iff] using hkey "enum"
  have honeOf : oneOf = oneOf' :=
    honeOf <| list_inj <| by simpa [List.lookup_append] using hkey "oneOf"
  have hminLength : minLength = minLength' :=
    map_whole_inj <| by simpa [List.lookup_append] using hkey "minLength"
  have hmaxLength : maxLength = maxLength' :=
    map_whole_inj <| by simpa [List.lookup_append] using hkey "maxLength"
  have hminimum : minimum = minimum' :=
    map_double_inj <| by simpa [List.lookup_append] using hkey "minimum"
  have hmaximum : maximum = maximum' :=
    map_double_inj <| by simpa [List.lookup_append] using hkey "maximum"
  have hpattern : pattern = pattern' :=
    map_text_inj <| by simpa [List.lookup_append] using hkey "pattern"
  rw [htype, hformat, hdescription, hproperties, hrequired, hitems, hreference, hdeprecated,
    henumValues, honeOf, hminLength, hmaxLength, hminimum, hmaximum, hpattern]

mutual

theorem tree_inj : ∀ {f f' : Fragment}, f.tree = f'.tree → f = f'
  | ⟨_, _, _, _, _, _, _, _, _, _, _, _, _, _, _⟩, _, h =>
    eq_of_tree_eq h propertyTrees_inj map_tree_inj trees_inj

theorem propertyTrees_inj : ∀ {fs fs' : List (String × Fragment)},
    propertyTrees fs = propertyTrees fs' → fs = fs'
  | [], [], _ => rfl
  | [], (_, _) :: _, h => by simp [propertyTrees] at h
  | (_, _) :: _, [], h => by simp [propertyTrees] at h
  | (name, f) :: fs, (name', f') :: fs', h => by
    simp only [propertyTrees, List.cons.injEq, Prod.mk.injEq] at h
    obtain ⟨⟨rfl, hf⟩, hfs⟩ := h
    rw [tree_inj hf, propertyTrees_inj hfs]

theorem map_tree_inj : ∀ {f f' : Option Fragment}, f.map tree = f'.map tree → f = f'
  | none, none, _ => rfl
  | none, some _, h => nomatch h
  | some _, none, h => nomatch h
  | some f, some f', h => by rw [tree_inj (Option.some.inj h)]

theorem trees_inj : ∀ {fs fs' : List Fragment}, trees fs = trees fs' → fs = fs'
  | [], [], _ => rfl
  | [], _ :: _, h => by simp [trees] at h
  | _ :: _, [], h => by simp [trees] at h
  | f :: fs, f' :: fs', h => by
    simp only [trees, List.cons.injEq] at h
    rw [tree_inj h.1, trees_inj h.2]

end

end Fragment

/-! ## Operations -/

theorem map_fields_inj {α : Type} {encode : α → Tree} (hencode : ∀ a a', encode a = encode a' → a = a')
    {m m' : OrderedMap α}
    (h : (m.map fun x => (x.1, encode x.2)) = m'.map fun x => (x.1, encode x.2)) : m = m' := by
  refine (List.map_inj_right fun x x' hx => ?_).1 h
  exact Prod.ext (Prod.mk.inj hx).1 (hencode _ _ (Prod.mk.inj hx).2)

theorem Parameter.tree_inj {p p' : Parameter} (h : p.tree = p'.tree) : p = p' := by
  obtain ⟨name, location, description, required, schema, style, explode⟩ := p
  obtain ⟨name', location', description', required', schema', style', explode'⟩ := p'
  have hkey := fun key => congrArg (List.lookup key) (fields.inj h)
  have hname : name = name' := by simpa [List.lookup_append] using hkey "name"
  have hlocation : location = location' :=
    ParameterLocation.word_inj <| by simpa [List.lookup_append] using hkey "in"
  have hdescription : description = description' :=
    map_text_inj <| by simpa [List.lookup_append] using hkey "description"
  have hrequired : required = required' :=
    flag_inj <| by simpa [List.lookup_append] using hkey "required"
  have hschema : schema = schema' :=
    Fragment.map_tree_inj <| by simpa [List.lookup_append] using hkey "schema"
  have hstyle : style = style' := map_text_inj <| by simpa [List.lookup_append] using hkey "style"
  have hexplode : explode = explode' := flag_inj <| by simpa [List.lookup_append] using hkey "explode"
  rw [hname, hlocation, hdescription, hrequired, hschema, hstyle, hexplode]

theorem MediaType.tree_inj {m m' : MediaType} (h : m.tree = m'.tree) : m = m' := by
  obtain ⟨schema⟩ := m
  obtain ⟨schema'⟩ := m'
  have hschema := congrArg (List.lookup "schema") (fields.inj h)
  simp at hschema
  rw [Fragment.map_tree_inj hschema]

theorem contentTrees_inj {content content' : OrderedMap MediaType}
    (h : contentTrees content = contentTrees content') : content = content' :=
  map_fields_inj (fun _ _ => MediaType.tree_inj) h

theorem RequestBody.tree_inj {b b' : RequestBody} (h : b.tree = b'.tree) : b = b' := by
  obtain ⟨description, required, content⟩ := b
  obtain ⟨description', required', content'⟩ := b'
  have hkey := fun key => congrArg (List.lookup key) (fields.inj h)
  have hdescription : description = description' :=
    map_text_inj <| by simpa [List.lookup_append] using hkey "description"
  have hrequired : required = required' :=
    flag_inj <| by simpa [List.lookup_append] using hkey "required"
  have hcontent : content = content' :=
    contentTrees_inj <| by simpa [List.lookup_append] using hkey "content"
  rw [hdescription, hrequired, hcontent]

theorem Response.tree_inj {r r' : Response} (h : r.tree = r'.tree) : r = r' := by
  obtain ⟨description, content⟩ := r
  obtain ⟨description', content'⟩ := r'
  have hkey := fun key => congrArg (List.lookup key) (fields.inj h)
  have hdescription : description = description' :=
    by simpa [List.lookup_append] using hkey "description"
  have hcontent : content = content' :=
    contentTrees_inj <| fields_inj <| by simpa [List.lookup_append] using hkey "content"
  rw [hdescription, hcontent]

theorem Operation.tree_inj {o o' : Operation} (h : o.tree = o'.tree) : o = o' := by
  obtain ⟨operationId, summary, description, parameters, requestBody, responses, deprecated⟩ := o
  obtain ⟨operationId', summary', description', parameters', requestBody', responses',
    deprecated'⟩ := o'
  have hkey := fun key => congrArg (List.lookup key) (fields.inj h)
  have hoperationId : operationId = operationId' :=
    map_text_inj <| by simpa [List.lookup_append] using hkey "operationId"
  have hsummary : summary = summary' :=
    map_text_inj <| by simpa [List.lookup_append] using hkey "summary"
  have hdescription : description = description' :=
    map_text_inj <| by simpa [List.lookup_append] using hkey "description"
  have hparameters : parameters = parameters' :=
    (List.map_inj_right fun _ _ => Parameter.tree_inj).1 <| list_inj <| by
      simpa [List.lookup_append, -List.map_eq_nil_iff] using hkey "parameters"
  have hrequestBody : requestBody = requestBody' :=
    Option.map_injective (fun _ _ => RequestBody.tree_inj) <| by
      simpa [List.lookup_append] using hkey "requestBody"
  have hresponses : responses = responses' :=
    map_fields_inj (fun _ _ => Response.tree_inj) <| by
      simpa [List.lookup_append] using hkey "responses"
  have hdeprecated : deprecated = deprecated' :=
    flag_inj <| by simpa [List.lookup_append] using hkey "deprecated"
  rw [hoperationId, hsummary, hdescription, hparameters, hrequestBody, hresponses, hdeprecated]

/-- What stands at the word of a method is the operation of the method. -/
theorem PathItem.lookup_word (item : PathItem) (m : Method) :
    (item.operations.map fun x => (x.1.word, x.2.tree)).lookup m.word =
      (item.operation? m).map Operation.tree := by
  obtain ⟨get, post, put, delete, patch, options⟩ := item
  cases get <;> cases post <;> cases put <;> cases delete <;> cases patch <;> cases options <;>
    cases m <;> rfl

theorem PathItem.tree_inj {item item' : PathItem} (h : item.tree = item'.tree) : item = item' := by
  have hmethod (m : Method) : item.operation? m = item'.operation? m := by
    refine Option.map_injective (fun _ _ => Operation.tree_inj) ?_
    rw [← lookup_word, ← lookup_word]
    exact congrArg (List.lookup m.word) (fields.inj h)
  obtain ⟨get, post, put, delete, patch, options⟩ := item
  obtain ⟨get', post', put', delete', patch', options'⟩ := item'
  rw [show get = get' from hmethod .get, show post = post' from hmethod .post,
    show put = put' from hmethod .put, show delete = delete' from hmethod .delete,
    show patch = patch' from hmethod .patch, show options = options' from hmethod .options]

/-! ## Documents -/

namespace Document

theorem infoTree_inj {i i' : Info} (h : infoTree i = infoTree i') : i = i' := by
  obtain ⟨title, description, version⟩ := i
  obtain ⟨title', description', version'⟩ := i'
  have hkey := fun key => congrArg (List.lookup key) (fields.inj h)
  have htitle : title = title' := by simpa [List.lookup_append] using hkey "title"
  have hdescription : description = description' :=
    map_text_inj <| by simpa [List.lookup_append] using hkey "description"
  have hversion : version = version' := by simpa [List.lookup_append] using hkey "version"
  rw [htitle, hdescription, hversion]

theorem serverTree_inj {s s' : Server} (h : serverTree s = serverTree s') : s = s' := by
  obtain ⟨url, description⟩ := s
  obtain ⟨url', description'⟩ := s'
  have hkey := fun key => congrArg (List.lookup key) (fields.inj h)
  have hurl : url = url' := by simpa [List.lookup_append] using hkey "url"
  have hdescription : description = description' :=
    map_text_inj <| by simpa [List.lookup_append] using hkey "description"
  rw [hurl, hdescription]

theorem componentsTree_inj {m m' : OrderedMap Fragment} (h : componentsTree m = componentsTree m') :
    m = m' := by
  have hschemas := congrArg (List.lookup "schemas") (fields.inj h)
  simp at hschemas
  exact Fragment.propertyTrees_inj (fields_inj hschemas)

theorem tree_inj {d d' : Document} (h : d.tree = d'.tree) : d = d' := by
  obtain ⟨openApi, info, servers, paths, components⟩ := d
  obtain ⟨openApi', info', servers', paths', components'⟩ := d'
  have hkey := fun key => congrArg (List.lookup key) (fields.inj h)
  have hopenApi : openApi = openApi' := by simpa [List.lookup_append] using hkey "openapi"
  have hinfo : info = info' := infoTree_inj <| by simpa [List.lookup_append] using hkey "info"
  have hservers : servers = servers' :=
    (List.map_inj_right fun _ _ => serverTree_inj).1 <| list_inj <| by
      simpa [List.lookup_append, -List.map_eq_nil_iff] using hkey "servers"
  have hpaths : paths = paths' :=
    map_fields_inj (fun _ _ => PathItem.tree_inj) <| by simpa [List.lookup_append] using hkey "paths"
  have hcomponents : components = components' :=
    Option.map_injective (fun _ _ => componentsTree_inj) <| by
      simpa [List.lookup_append] using hkey "components"
  rw [hopenApi, hinfo, hservers, hpaths, hcomponents]

/-- Documents without bounds are the same if their JSON texts are, with the order of all that they
list. -/
theorem render_json_inj {d d' : Document}
    (hd : ∀ f ∈ d.nodes, f.minimum = none ∧ f.maximum = none)
    (hd' : ∀ f ∈ d'.nodes, f.minimum = none ∧ f.maximum = none)
    (h : d.render .json = d'.render .json) : d = d' := by
  have hbounds {d : Document} (hd : d.bounds = []) : d.tree.bounds = [] := by
    refine List.eq_nil_iff_forall_not_mem.2 fun t ht => ?_
    obtain ⟨b, hb, -⟩ := mem_bounds_tree.1 ht
    rw [hd] at hb
    cases hb
  exact tree_inj (Json.prettyText_inj (hbounds (bounds_eq_nil_iff.2 hd))
    (hbounds (bounds_eq_nil_iff.2 hd')) h)

/-- A document of users, with its path mentioned first. -/
def usersByPath : Document :=
  ((new { title := "Users \"A\"", version := "1" } []).mentionPath "/users").insertComponent "User"
    { properties := [("id", .described .string "Line\nbreak"), ("friends", .array (.referTo "User"))] }

/-- The same document with its component written first. -/
def usersByComponent : Document :=
  ((new { title := "Users \"A\"", version := "1" } []).insertComponent "User"
    { properties := [("id", .described .string "Line\nbreak"),
        ("friends", .array (.referTo "User"))] }).mentionPath "/users"

theorem render_json_inj_users :
    (∀ f ∈ usersByPath.nodes, f.minimum = none ∧ f.maximum = none) ∧
      (∀ f ∈ usersByComponent.nodes, f.minimum = none ∧ f.maximum = none) ∧
      usersByPath.render .json = usersByComponent.render .json ∧ usersByPath = usersByComponent := by
  have hnodes : ∀ f ∈ usersByPath.nodes, f.minimum = none ∧ f.maximum = none := by decide +kernel
  have hnodes' : ∀ f ∈ usersByComponent.nodes, f.minimum = none ∧ f.maximum = none := by
    decide +kernel
  have htexts : usersByPath.render .json = usersByComponent.render .json := rfl
  exact ⟨hnodes, hnodes', htexts, render_json_inj hnodes hnodes' htexts⟩

end Document

end GraphRest
