import GraphRest.Proofs.Conversion.Finished
import GraphRest.Proofs.Endpoint.Collision
import GraphRest.Proofs.Endpoint.Emitted
import GraphRest.Proofs.Endpoint.Operations
import GraphRest.Proofs.Endpoint.Streams
import GraphRest.Proofs.Naming.Plural

/-!
# Paths

A path names in braces what has to be filled in. The key of a path and the parameters of its operations are
made apart from each other, for each kind of endpoint in its own way; both go by the place of the endpoint,
so the names in braces are those of the parameters. The prefix of the options stands in front of every path
and has no other part in a conversion.
-/

namespace GraphRest

open Sdl Text Conversion

/-- The parameters that an operation takes from its path. -/
def Operation.inPath (o : Operation) : List Parameter := o.parameters.filter (·.location = .path)

/-- An operation takes values of some names from its path, in this order. Each of them is required and has
a schema. -/
structure Operation.TakesFromPath (o : Operation) (names : List String) : Prop where
  names_eq : o.inPath.map Parameter.name = names
  complete : ∀ q ∈ o.inPath, q.required = true ∧ q.schema.isSome = true

namespace Endpoint

variable {g : TypeGraph} {options : Options} {s : Stage} {pl : Place} {e : Endpoint}

/-- The parameters that the route of a place has. -/
def Place.parameters : Place → List String
  | atName _ _ => []
  | below _ _ argument => [argument]
  | member _ _ => ["id"]

/-! ## Names in routes -/

theorem braceless_of_isName {n : String} (h : isName n = true) : Braceless n := by
  intro c hc
  have hchar := isNameChar_of_mem h hc
  simp only [isPlain, Bool.and_eq_true, decide_eq_true_eq]
  constructor
  · rintro rfl
    exact absurd hchar (by decide)
  · rintro rfl
    exact absurd hchar (by decide)

theorem braceless_nameRoute {n : String} (h : Braceless n) : Braceless (nameRoute n) :=
  Braceless.append (by decide) h

theorem bracedNames_placeholder {n : String} (h : Braceless n) (t : String) :
    bracedNames (placeholder n ++ t) = n :: bracedNames t := by
  have hlist : (placeholder n ++ t).toList = '{' :: (n.toList ++ '}' :: t.toList) := by
    simp [toList_placeholder]
  rw [bracedNames, hlist, bracedChars_braced h, String.ofList_toList, bracedNames]

/-- A path has no braces, or it has one pair of them, with a name in it and texts without braces around it;
its shape is the same without the name. -/
inductive Place.Filled (options : Options) (pl : Place) : Prop where
  | plain : pl.parameters = [] → Braceless (options.path pl.slot.1) → pl.shape = pl.slot.1 →
      Filled options pl
  | braced {t n t'} : Braceless t → Braceless n → Braceless t' → pl.parameters = [n] →
      options.path pl.slot.1 = t ++ placeholder n ++ t' →
      options.path pl.shape = t ++ placeholder "" ++ t' → Filled options pl

theorem Place.filled (hpre : Braceless options.pathPrefix)
    (hnames : ∀ n ∈ pl.names, Braceless n) (hcollection : ∀ c f, pl = .member c f → Braceless c) :
    pl.Filled options := by
  have hslash : Braceless "/" := by decide
  cases pl with
  | atName m n =>
      exact .plain rfl (hpre.append (braceless_nameRoute (hnames n (by simp [names])))) rfl
  | below m n a =>
      have hn : Braceless (options.pathPrefix ++ (nameRoute n ++ "/")) :=
        hpre.append ((braceless_nameRoute (hnames n (by simp [names]))).append hslash)
      have ha : Braceless a := hnames a (by simp [names])
      have hempty : Braceless "" := by decide
      exact .braced hn ha hempty rfl (by simp [Options.path, slot, String.append_assoc])
        (by simp [Options.path, shape, String.append_assoc])
  | member c f =>
      have hc : Braceless (options.pathPrefix ++ (nameRoute c ++ "/")) :=
        hpre.append ((braceless_nameRoute (hcollection c f rfl)).append hslash)
      have hid : Braceless "id" := by decide
      have hf : Braceless (nameRoute f) := braceless_nameRoute (hnames f (by simp [names]))
      exact .braced hc hid hf rfl (by simp [Options.path, slot, itemRoute, String.append_assoc])
        (by simp [Options.path, shape, String.append_assoc])

theorem Emitted.braceless_collection (hg : g.Lawful)
    (hrules : ∀ t ∈ options.inflection.texts, Braceless t) (h : Emitted g options s pl e)
    {c f : String} (hpl : pl = .member c f) : Braceless c := by
  cases h with
  | @member d _ _ _ hd _ _ _ _ =>
      obtain ⟨rfl, -⟩ := Place.member.inj hpl
      have hname : isName d.name = true :=
        hg.legal_names d (List.mem_append_left _ hd) d.name List.mem_cons_self
      exact InflectionRules.braceless_pluralize hrules
        (braceless_lowerAscii (braceless_of_isName hname))
  | change _ _ _ _ _ => exact absurd hpl ((changePlace_ne_get (a := "id")).2.2 _)
  | stream _ _ => exact absurd hpl streamPlace_ne_member
  | _ => cases hpl

theorem Emitted.filled (hg : g.Lawful) (hpre : Braceless options.pathPrefix)
    (hrules : ∀ t ∈ options.inflection.texts, Braceless t) (h : Emitted g options s pl e) :
    pl.Filled options :=
  Place.filled hpre (fun _ hn => braceless_of_isName (h.isName_of_mem hg _ hn))
    fun _ _ hpl => h.braceless_collection hg hrules hpl

theorem Emitted.route_eq (h : Emitted g options s pl e) : e.route = pl.slot.1 :=
  congrArg Prod.fst h.slot_eq

/-- The names in braces in the path of an endpoint. -/
theorem Emitted.bracedNames_path (hg : g.Lawful) (hpre : Braceless options.pathPrefix)
    (hrules : ∀ t ∈ options.inflection.texts, Braceless t) (h : Emitted g options s pl e) :
    bracedNames (options.path e.route) = pl.parameters := by
  rw [h.route_eq]
  cases h.filled hg hpre hrules with
  | plain hnone hplain _ => rw [bracedNames_of_braceless hplain, hnone]
  | braced ht hn ht' hsingle hpath _ =>
      rw [hpath, String.append_assoc, bracedNames_append ht, bracedNames_placeholder hn,
        bracedNames_of_braceless ht', hsingle]

/-- With nothing in its braces, the path of an endpoint has the shape of its place. -/
theorem Emitted.emptied_path (hg : g.Lawful) (hpre : Braceless options.pathPrefix)
    (hrules : ∀ t ∈ options.inflection.texts, Braceless t) (h : Emitted g options s pl e) :
    emptied (options.path e.route) = options.path pl.shape := by
  rw [h.route_eq]
  cases h.filled hg hpre hrules with
  | plain _ hplain hshape => rw [emptied_of_braceless hplain, hshape]
  | braced ht hn ht' _ hpath hshape => rw [hpath, hshape]; exact emptied_braced ht hn ht'

/-! ## Parameters in the path -/

theorem takesFromPath_nil {o : Operation} (h : o.inPath = []) : o.TakesFromPath [] :=
  ⟨by rw [h]; rfl, by rw [h]; nofun⟩

theorem takesFromPath_single {o : Operation} {q : Parameter} (h : o.inPath = [q])
    (hrequired : q.required = true) (hschema : q.schema.isSome = true) :
    o.TakesFromPath [q.name] := by
  constructor
  · rw [h]
    rfl
  · rw [h]
    intro x hx
    rw [List.mem_singleton.1 hx]
    exact ⟨hrequired, hschema⟩

theorem takesFromPath_id {o : Operation} (h : o.inPath = [.idInPath]) : o.TakesFromPath ["id"] :=
  takesFromPath_single h rfl rfl

theorem takesFromPath_argument {o : Operation} {a : InputValue}
    (h : o.inPath = [parameter g .path a]) : o.TakesFromPath [a.name] :=
  takesFromPath_single h (by simp [parameter]) rfl

theorem filter_queryParameters (as : List InputValue) :
    (as.map (parameter g .query)).filter (·.location = .path) = [] := by
  rw [List.filter_eq_nil_iff]
  intro q hq
  obtain ⟨a, -, rfl⟩ := List.mem_map.1 hq
  simp [parameter]

/-- Of the arguments of a stream the first one that excludes null stands in the path, the same that its
route is made for. -/
theorem filter_streamParameters (as : List InputValue) :
    (streamParameters g false as).filter (·.location = .path) =
      ((as.find? (·.type.isNonNull)).map (parameter g .path)).toList := by
  induction as with
  | nil => rfl
  | cons a as ih =>
      cases ha : a.type.isNonNull with
      | true =>
          rw [streamParameters, ha, if_pos (by decide), streamParameters_of_placed,
            List.filter_cons_of_pos (by simp [parameter]), filter_queryParameters,
            List.find?_cons_of_pos (by simpa using ha)]
          rfl
      | false =>
          rw [streamParameters, ha, if_neg (by decide),
            List.filter_cons_of_neg (by simp [parameter]), ih,
            List.find?_cons_of_neg (by simp [ha])]

theorem takesFromPath_change {p : ResourcePattern} {kind : CrudOperation} {f : Field} :
    (changeResource g p kind f).operation.TakesFromPath (changePlace p kind).parameters := by
  cases kind with
  | update => exact takesFromPath_id (by simp [Operation.inPath, changeResource, atItem,
      parameters_mutationOperation, Parameter.idInPath])
  | delete =>
      refine takesFromPath_id ?_
      simp only [changeResource, deletion]
      split
      · rfl
      · simp [Operation.inPath, atItem, parameters_mutationOperation, Parameter.idInPath]
  | _ => exact takesFromPath_nil (by simp [Operation.inPath, changeResource,
      parameters_mutationOperation])

theorem takesFromPath_stream {f : Field} :
    (subscriptionOperation g f).TakesFromPath (streamPlace f).parameters := by
  have hpath : (subscriptionOperation g f).inPath =
      ((pathArgument? f).map (parameter g .path)).toList := filter_streamParameters f.arguments
  unfold streamPlace
  cases ha : pathArgument? f with
  | none => exact takesFromPath_nil (by rw [hpath, ha]; rfl)
  | some a => exact takesFromPath_argument (by rw [hpath, ha]; rfl)

/-- What an endpoint takes from its path is what its place has. -/
theorem Emitted.takesFromPath (h : Emitted g options s pl e) :
    e.operation.TakesFromPath pl.parameters := by
  cases h with
  | list _ => exact takesFromPath_nil rfl
  | item _ _ => exact takesFromPath_id rfl
  | query _ =>
      refine takesFromPath_nil ?_
      rw [Operation.inPath, queryEndpoint, parameters_queryOperation, filter_queryParameters]
  | member _ _ _ _ _ => exact takesFromPath_id rfl
  | change _ _ _ _ _ => exact takesFromPath_change
  | mutation _ =>
      refine takesFromPath_nil ?_
      rw [Operation.inPath, mutationEndpoint, parameters_mutationOperation]
      rfl
  | stream _ _ => exact takesFromPath_stream

theorem Place.nodup_parameters (pl : Place) : pl.parameters.Nodup := by
  cases pl <;> simp [parameters]

end Endpoint

namespace Conversion

open Endpoint

/-! ## The finished document -/

/-- If neither the prefix of paths nor the rules for plurals have braces, every operation of a document
takes from its path just what stands there in braces. -/
theorem path_templates_filled {options : Options} {source : String} {c : Conversion}
    (hc : convert? options source = some c) (hpre : Braceless options.pathPrefix)
    (hrules : ∀ t ∈ options.inflection.texts, Braceless t) :
    ∀ path method o, (path, method, o) ∈ c.document.operations →
      (bracedNames path).Nodup ∧ o.TakesFromPath (bracedNames path) := by
  obtain ⟨g, hg, -⟩ := Option.map_eq_some_iff.1 hc
  have hlawful := TypeGraph.lawful_of_ofSource? hg
  intro path method o ho
  obtain ⟨e, he, -, rfl, -, rfl⟩ := (mem_operations_document hg hc).1 ho
  obtain ⟨s, pl, hemitted⟩ := (mem_written_iff hlawful).1 he
  rw [hemitted.bracedNames_path hlawful hpre hrules]
  exact ⟨pl.nodup_parameters, hemitted.takesFromPath⟩

/-- Messages that are listed, changed and streamed. -/
def messaging : String :=
  "type Query \x7b messages: [Int] \x7d " ++
  "type Mutation \x7b createMessage: Int updateMessage(text: ID): Int \x7d " ++
  "type Subscription \x7b events(since: Int, channel: ID!): Int \x7d"

theorem messaging_paths_filled : ∃ c, convert? { pathPrefix := "/v1" } messaging = some c ∧
    Braceless "/v1" ∧ (∀ t ∈ ({} : InflectionRules).texts, Braceless t) ∧
    (∃ o, ("/v1/events/\x7bchannel\x7d", .get, o) ∈ c.document.operations ∧
      o.TakesFromPath ["channel"]) ∧
    ∃ o, ("/v1/messages/\x7bid\x7d", .put, o) ∈ c.document.operations ∧ o.TakesFromPath ["id"] := by
  obtain ⟨g, hg, ⟨⟨_, _, o⟩, ho, rfl, rfl⟩, ⟨_, _, o'⟩, ho', rfl, rfl⟩ :=
    exists_graph messaging
      (fun g =>
        (∃ x ∈ (ofGraph { pathPrefix := "/v1" } messaging g).document.operations,
          x.1 = "/v1/events/\x7bchannel\x7d" ∧ x.2.1 = .get) ∧
        ∃ x ∈ (ofGraph { pathPrefix := "/v1" } messaging g).document.operations,
          x.1 = "/v1/messages/\x7bid\x7d" ∧ x.2.1 = .put) (by decide +kernel)
  have hc := convert?_of_ofSource? { pathPrefix := "/v1" } hg
  have hpre : Braceless "/v1" := by decide
  have hrules : ∀ t ∈ ({} : InflectionRules).texts, Braceless t := by decide
  have hfilled := path_templates_filled hc hpre hrules
  refine ⟨_, hc, hpre, hrules, ⟨o, ho, ?_⟩, o', ho', ?_⟩
  · exact (hfilled _ _ o ho).2
  · exact (hfilled _ _ o' ho').2

end Conversion

/-! ## The prefix of paths -/

/-- The options with a text in front of every path. -/
def Options.behind (start : String) (o : Options) : Options := { o with pathPrefix := start }

/-- A document with a text in front of every path. -/
def Document.behind (start : String) (d : Document) : Document :=
  { d with paths := OrderedMap.mapKeys (start ++ ·) d.paths }

/-- A conversion with a text in front of every path of its document. -/
def Conversion.behind (start : String) (c : Conversion) : Conversion :=
  { c with document := c.document.behind start }

variable {options : Options} {start : String} {d : Document}

theorem Options.path_behind (options : Options) (start route : String) :
    (options.behind start).path route = start ++ (options.behind "").path route := by
  simp [path, behind]

/-! ## Writing behind a prefix -/

theorem Document.behind_of_paths_nil (h : d.paths = []) : d.behind start = d := by
  rw [behind, h, OrderedMap.mapKeys, List.map_nil, ← h]

/-- One write. -/
theorem Document.insertOperation_behind (d : Document) (path : String) (m : Method) (o : Operation) :
    (d.behind start).insertOperation (start ++ path) m o =
      (d.insertOperation path m o).behind start := by
  have hinj : Function.Injective (start ++ ·) := fun _ _ => (String.append_right_inj start).1
  simp only [insertOperation, behind, OrderedMap.upsert_mapKeys hinj]

/-- All writes. -/
theorem Endpoint.writeAll_behind (es : List Endpoint) (d : Document) :
    writeAll (options.behind start) es (d.behind start) =
      (writeAll (options.behind "") es d).behind start := by
  induction es generalizing d with
  | nil => rfl
  | cons e es ih =>
      rw [writeAll_cons, writeAll_cons, Options.path_behind, Document.insertOperation_behind, ih]

namespace Conversion

theorem ofGraph_behind (options : Options) (start source : String) (g : TypeGraph) :
    ofGraph (options.behind start) source g = (ofGraph (options.behind "") source g).behind start := by
  -- Components are written before any path, so the document to start from is the same behind a prefix.
  have hempty : ∀ d : Document, d.paths = [] →
      Endpoint.writeAll (options.behind start) (written g options) d =
        (Endpoint.writeAll (options.behind "") (written g options) d).behind start := by
    intro d hd
    rw [← Endpoint.writeAll_behind, Document.behind_of_paths_nil hd]
  exact congrArg (Conversion.mk · (patternsOf g options)) (hempty _ (paths_writeComponents _ _))

/-- To convert behind a prefix is to convert without one and to put the prefix in front of every path.
The same endpoints are written, and two of them share a path just if they share one without the
prefix. -/
theorem convert?_behind (options : Options) (start source : String) :
    convert? (options.behind start) source =
      (convert? (options.behind "") source).map (behind start) ∧
    ∀ g, written g (options.behind start) = written g (options.behind "") ∧
      ∀ e ∈ written g (options.behind start), ∀ e' ∈ written g (options.behind start),
        (options.behind start).path e.route = (options.behind start).path e'.route ↔
          (options.behind "").path e.route = (options.behind "").path e'.route := by
  refine ⟨?_, fun g => ⟨rfl, fun e _ e' _ => ?_⟩⟩
  · rw [convert?, convert?, Option.map_map]
    exact congrArg (Option.map · _) (funext (ofGraph_behind options start source))
  · rw [Options.path_inj, Options.path_inj]

end Conversion

end GraphRest
