import GraphRest.Conversion.Basic
import GraphRest.Proofs.Data.OrderedMap

/-!
# Documents as stores

A document is filled by writes: of components, of paths, and of the operations of methods. What was written
to a place last stands there, keys stand in the order in which they were first mentioned, and a write leaves
everything alone but the place that it writes to.
-/

namespace GraphRest

/-! ## Operations of a document -/

namespace Document

theorem operation?_eq_some_iff {d : Document} {p : String} {m : Method} {o : Operation} :
    d.operation? p m = some o ↔ ∃ item, d.paths.get? p = some item ∧ item.operation? m = some o := by
  rw [operation?, Option.bind_eq_some_iff]

theorem mem_operations_iff {d : Document} (h : d.paths.keys.Nodup) {p : String} {m : Method}
    {o : Operation} : (p, m, o) ∈ d.operations ↔ d.operation? p m = some o := by
  rw [operation?_eq_some_iff, operations, List.mem_flatMap]
  constructor
  · rintro ⟨⟨p', item⟩, hitem, hmem⟩
    obtain ⟨⟨m', o'⟩, hop, heq⟩ := List.mem_map.1 hmem
    obtain ⟨m'', -, ho⟩ := List.mem_filterMap.1 hop
    cases hi : item.operation? m'' with
    | none => simp [hi] at ho
    | some o'' =>
        simp only [hi, Option.map_some, Option.some.injEq, Prod.mk.injEq] at ho heq
        obtain ⟨rfl, rfl⟩ := ho
        obtain ⟨rfl, rfl, rfl⟩ := heq
        exact ⟨item, (OrderedMap.get?_eq_some_iff_mem h).2 hitem, hi⟩
  · rintro ⟨item, hitem, ho⟩
    refine ⟨(p, item), OrderedMap.mem_of_get? hitem, List.mem_map.2 ⟨(m, o), ?_, rfl⟩⟩
    refine List.mem_filterMap.2 ⟨m, ?_, by rw [ho]; rfl⟩
    cases m <;> decide

end Document

/-! ## Paths behind a prefix -/

theorem Options.path_inj {o : Options} {r r' : String} : o.path r = o.path r' ↔ r = r' :=
  String.append_right_inj _

/-! ## Writing endpoints -/

namespace Endpoint

/-- Where an endpoint is written to. -/
def slot (e : Endpoint) : String × Method := (e.route, e.method)

variable {options : Options} {d : Document} {es pre post : List Endpoint} {e : Endpoint}

theorem writeAll_append : writeAll options (pre ++ post) d =
    writeAll options post (writeAll options pre d) :=
  List.foldl_append

theorem writeAll_cons : writeAll options (e :: es) d =
    writeAll options es (d.insertOperation (options.path e.route) e.method e.operation) :=
  rfl

/-- Writing endpoints changes nothing but the paths. -/
theorem exists_writeAll_eq (options : Options) (es : List Endpoint) (d : Document) :
    ∃ paths, writeAll options es d = { d with paths } := by
  induction es generalizing d with
  | nil => exact ⟨d.paths, rfl⟩
  | cons e es ih =>
      obtain ⟨paths, h⟩ := ih (d.insertOperation (options.path e.route) e.method e.operation)
      exact ⟨paths, h⟩

theorem components_writeAll : (writeAll options es d).components = d.components := by
  induction es generalizing d with
  | nil => rfl
  | cons e es ih => rw [writeAll_cons, ih]; rfl

/-- The paths of a document are those that it had and those of the endpoints written into it. -/
theorem mem_paths_writeAll {p : String} : p ∈ (writeAll options es d).paths.keys ↔
    p ∈ d.paths.keys ∨ ∃ e ∈ es, options.path e.route = p := by
  induction es generalizing d with
  | nil => simp [writeAll]
  | cons e es ih =>
      rw [writeAll_cons, ih, Document.insertOperation, OrderedMap.mem_keys_upsert]
      simp only [List.mem_cons, exists_eq_or_imp, eq_comm (a := p), or_assoc]

/-- A slot that no endpoint is written to stays as it is. -/
theorem operation?_writeAll_of_absent {r : String} {m : Method} (h : ∀ e ∈ es, e.slot ≠ (r, m)) :
    (writeAll options es d).operation? (options.path r) m = d.operation? (options.path r) m := by
  induction es generalizing d with
  | nil => rfl
  | cons e es ih =>
      rw [writeAll_cons, ih fun x hx => h x (List.mem_cons_of_mem _ hx),
        Document.operation?_insertOperation, if_neg]
      rintro ⟨hr, hm⟩
      exact h e List.mem_cons_self (by rw [slot, Options.path_inj.1 hr, hm])

/-- The last endpoint that is written to a slot stands there. -/
theorem operation?_writeAll_of_last (h : ∀ x ∈ post, x.slot ≠ e.slot) :
    (writeAll options (pre ++ e :: post) d).operation? (options.path e.route) e.method =
      some e.operation := by
  rw [writeAll_append, writeAll_cons, operation?_writeAll_of_absent h,
    Document.operation?_insertOperation, if_pos ⟨rfl, rfl⟩]

/-- What stands in a document was there before or is the operation of an endpoint. -/
theorem operation?_writeAll {p : String} {m : Method} {o : Operation}
    (h : (writeAll options es d).operation? p m = some o) :
    (∃ e ∈ es, options.path e.route = p ∧ e.method = m ∧ e.operation = o) ∨
      d.operation? p m = some o := by
  induction es generalizing d with
  | nil => exact Or.inr h
  | cons e es ih =>
      rcases ih h with ⟨e', he', h⟩ | h
      · exact Or.inl ⟨e', List.mem_cons_of_mem _ he', h⟩
      · rw [Document.operation?_insertOperation] at h
        split at h
        · rename_i hp
          cases h
          exact Or.inl ⟨e, List.mem_cons_self, hp.1.symm, hp.2.symm, rfl⟩
        · exact Or.inr h

end Endpoint

/-! ## Writing components -/

namespace Conversion

theorem paths_writeComponents (cs : List (String × Fragment)) (d : Document) :
    (writeComponents cs d).paths = d.paths := by
  unfold writeComponents
  induction cs generalizing d with
  | nil => rfl
  | cons c cs ih => rw [List.foldl_cons, ih]; rfl

theorem components_writeComponents (cs : List (String × Fragment)) (d : Document) :
    (writeComponents cs d).components =
      cs.foldl (fun m c => OrderedMap.insert c.1 c.2 m) d.components := by
  unfold writeComponents
  induction cs generalizing d with
  | nil => rfl
  | cons c cs ih => rw [List.foldl_cons, ih]; rfl

end Conversion

/-! ## Writes

Endpoints and components are written by runs of writes of three kinds. -/

namespace Document

/-- A write to a document. -/
inductive Write where
  | component (name : String) (schema : Fragment)
  | mention (path : String)
  | assign (path : String) (method : Method) (operation : Operation)

namespace Write

/-- The document with a write made. -/
def on (d : Document) : Write → Document
  | component name schema => d.insertComponent name schema
  | mention path => d.mentionPath path
  | assign path method operation => d.insertOperation path method operation

/-- The path that a write mentions. -/
def path? : Write → Option String
  | component _ _ => none
  | mention path => some path
  | assign path _ _ => some path

/-- The component that a write mentions. -/
def name? : Write → Option String
  | component name _ => some name
  | _ => none

/-- What a write makes of the component of a name, if it writes to it. -/
def component? (name : String) : Write → Option Fragment
  | component name' schema => if name = name' then some schema else none
  | _ => none

/-- What a write assigns to a method of a path, if it assigns something to it. -/
def operation? (path : String) (method : Method) : Write → Option Operation
  | assign path' method' operation =>
      if path = path' ∧ method = method' then some operation else none
  | _ => none

/-- A write leaves alone what it does not write to, and every key stays in its position. -/
structure Keeps (w : Write) (d d' : Document) : Prop where
  openApi : d'.openApi = d.openApi
  info : d'.info = d.info
  servers : d'.servers = d.servers
  components : ∀ name, w.component? name = none → d'.components.get? name = d.components.get? name
  operations : ∀ path method, w.operation? path method = none →
    d'.operation? path method = d.operation? path method
  names : d.components.keys <+: d'.components.keys
  paths : d.paths.keys <+: d'.paths.keys

end Write

/-- A document after a sequence of writes. -/
def written (ws : List Write) (d : Document) : Document := ws.foldl Write.on d

/-- A document holds what was written last to each place, with its keys in the order of first mention. -/
structure Holds (info : Info) (servers : List Server) (ws : List Write) (d : Document) : Prop where
  openApi : d.openApi = openApiVersion
  info : d.info = info
  servers : d.servers = servers
  names : d.components.keys = (ws.filterMap Write.name?).eraseDups
  distinct_names : d.components.keys.Nodup
  paths : d.paths.keys = (ws.filterMap Write.path?).eraseDups
  distinct_paths : d.paths.keys.Nodup
  components : ∀ name, d.components.get? name = (ws.filterMap (Write.component? name)).getLast?
  operations : ∀ path method,
    d.operation? path method = (ws.filterMap (Write.operation? path method)).getLast?

variable {d : Document} {path path' name : String} {method : Method} {info : Info} {servers : List Server}

/-! ## One write -/

theorem get?_components_on (d : Document) (w : Write) :
    (w.on d).components.get? name = (w.component? name).or (d.components.get? name) := by
  cases w with
  | component name' schema =>
      have hcomponents : (d.insertComponent name' schema).components =
          OrderedMap.insert name' schema d.components := rfl
      rw [Write.on, hcomponents, OrderedMap.insert, Write.component?]
      by_cases h : name = name'
      · rw [if_pos h, h, OrderedMap.get?_upsert_self]
        rfl
      · rw [if_neg h, OrderedMap.get?_upsert_of_ne h]
        rfl
  | _ => rfl

/-- Mentioning a path assigns nothing: a new one has no operations. -/
theorem operation?_mentionPath :
    (d.mentionPath path').operation? path method = d.operation? path method := by
  by_cases h : path = path'
  · subst h
    simp only [operation?, mentionPath, OrderedMap.get?_upsert_self]
    cases d.paths.get? path with
    | none => cases method <;> rfl
    | some item => rfl
  · simp only [operation?, mentionPath, OrderedMap.get?_upsert_of_ne h]

theorem operation?_on (d : Document) (w : Write) :
    (w.on d).operation? path method = (w.operation? path method).or (d.operation? path method) := by
  cases w with
  | component _ _ => rfl
  | mention path' => exact operation?_mentionPath
  | assign path' method' operation =>
      rw [Write.on, operation?_insertOperation, Write.operation?]
      split <;> rfl

theorem keys_components_on (d : Document) (w : Write) :
    (w.on d).components.keys = w.name?.elim d.components.keys fun k =>
      if k ∈ d.components.keys then d.components.keys else d.components.keys ++ [k] := by
  cases w with
  | component name _ => exact OrderedMap.keys_upsert name _ _
  | _ => rfl

theorem keys_paths_on (d : Document) (w : Write) :
    (w.on d).paths.keys = w.path?.elim d.paths.keys fun k =>
      if k ∈ d.paths.keys then d.paths.keys else d.paths.keys ++ [k] := by
  cases w with
  | component _ _ => rfl
  | mention path => exact OrderedMap.keys_upsert path _ _
  | assign path _ _ => exact OrderedMap.keys_upsert path _ _

theorem isPrefix_elim_concat (ks : List String) (key? : Option String) :
    ks <+: key?.elim ks fun k => if k ∈ ks then ks else ks ++ [k] := by
  cases key? with
  | none => exact List.prefix_rfl
  | some k =>
      rw [Option.elim_some]
      split
      · exact List.prefix_rfl
      · exact List.prefix_append ks [k]

theorem Write.keeps_on (w : Write) (d : Document) : w.Keeps d (w.on d) where
  openApi := by cases w <;> rfl
  info := by cases w <;> rfl
  servers := by cases w <;> rfl
  components name h := by rw [get?_components_on, h, Option.none_or]
  operations path method h := by rw [operation?_on, h, Option.none_or]
  names := by
    rw [keys_components_on]
    exact isPrefix_elim_concat _ _
  paths := by
    rw [keys_paths_on]
    exact isPrefix_elim_concat _ _

/-! ## Runs of writes -/

theorem written_append (ws ws' : List Write) (d : Document) :
    written (ws ++ ws') d = written ws' (written ws d) := List.foldl_append

/-- No write changes the metadata. -/
theorem metadata_written (ws : List Write) (d : Document) :
    (written ws d).openApi = d.openApi ∧ (written ws d).info = d.info ∧
      (written ws d).servers = d.servers := by
  induction ws generalizing d with
  | nil => exact ⟨rfl, rfl, rfl⟩
  | cons w ws ih =>
      have hw := w.keeps_on d
      obtain ⟨hopenApi, hinfo, hservers⟩ := ih (w.on d)
      exact ⟨hopenApi.trans hw.openApi, hinfo.trans hw.info, hservers.trans hw.servers⟩

theorem holds_written (info : Info) (servers : List Server) (ws : List Write) :
    Holds info servers ws (written ws (new info servers)) := by
  obtain ⟨hopenApi, hinfo, hservers⟩ := metadata_written ws (new info servers)
  have hnames : (written ws (new info servers)).components.keys = (ws.filterMap Write.name?).eraseDups :=
    OrderedMap.foldl_eq_eraseDups (fun d : Document => d.components.keys) keys_components_on rfl ws
  have hpaths : (written ws (new info servers)).paths.keys = (ws.filterMap Write.path?).eraseDups :=
    OrderedMap.foldl_eq_eraseDups (fun d : Document => d.paths.keys) keys_paths_on rfl ws
  refine ⟨hopenApi, hinfo, hservers, hnames, ?_, hpaths, ?_, fun name => ?_, fun path method => ?_⟩
  · rw [hnames]
    exact OrderedMap.nodup_eraseDups _
  · rw [hpaths]
    exact OrderedMap.nodup_eraseDups _
  · rw [written, foldl_eq_getLast?_or (fun d : Document => d.components.get? name) get?_components_on]
    exact Option.or_none
  · rw [written, foldl_eq_getLast?_or (fun d : Document => d.operation? path method) operation?_on]
    exact Option.or_none

/-- A document that starts empty holds what was written to each place last, with its keys distinct and in
the order of first mention, and no write changes more than the place that it writes to. -/
theorem last_write_stands (info : Info) (servers : List Server) (ws : List Write) :
    Holds info servers ws (written ws (new info servers)) ∧ ∀ d w, Write.Keeps w d (w.on d) :=
  ⟨holds_written info servers ws, fun d w => w.keeps_on d⟩

/-- A later write to a method of a path replaces the earlier one, and the other methods stay. -/
example (first second other : Operation) :
    let d := written [.assign "/users" .get first, .assign "/users" .get second,
      .assign "/users" .post other] (new {} [])
    (d.paths.keys, d.operation? "/users" .get, d.operation? "/users" .post) =
      (["/users"], some second, some other) := rfl

end Document

/-! ## Endpoints and components as writes -/

namespace Endpoint

/-- The write of an endpoint to a document. -/
def toWrite (options : Options) (e : Endpoint) : Document.Write :=
  .assign (options.path e.route) e.method e.operation

theorem writeAll_eq_written (options : Options) (es : List Endpoint) (d : Document) :
    writeAll options es d = Document.written (es.map (toWrite options)) d := by
  rw [Document.written, List.foldl_map]
  rfl

/-- Of endpoints with slots of their own, each one stands in the document. -/
theorem mem_operations_writeAll {options : Options} {es : List Endpoint} {info : Info}
    {servers : List Server} {path : String} {method : Method} {operation : Operation}
    (h : es.Pairwise fun e e' => e.slot ≠ e'.slot) :
    (path, method, operation) ∈ (writeAll options es (.new info servers)).operations ↔
      ∃ e ∈ es, options.path e.route = path ∧ e.method = method ∧ e.operation = operation := by
  have hpaths : (writeAll options es (.new info servers)).paths.keys.Nodup := by
    rw [writeAll_eq_written]
    exact (Document.holds_written _ _ _).distinct_paths
  rw [Document.mem_operations_iff hpaths]
  constructor
  · intro hoperation
    rcases operation?_writeAll hoperation with hwritten | hempty
    · exact hwritten
    · cases hempty
  · rintro ⟨e, he, rfl, rfl, rfl⟩
    obtain ⟨pre, post, rfl⟩ := List.append_of_mem he
    have hlater := (List.pairwise_cons.1 (List.pairwise_append.1 h).2.1).1
    exact operation?_writeAll_of_last fun e' he' => (hlater e' he').symm

end Endpoint

namespace Conversion

theorem writeComponents_eq_written (cs : List (String × Fragment)) (d : Document) :
    writeComponents cs d = Document.written (cs.map fun c => .component c.1 c.2) d := by
  rw [Document.written, List.foldl_map]
  rfl

end Conversion

end GraphRest
