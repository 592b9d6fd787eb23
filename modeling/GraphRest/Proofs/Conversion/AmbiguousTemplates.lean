import GraphRest.Proofs.Conversion.Paths
import GraphRest.Proofs.Endpoint.Collision

/-!
# Templates that cannot be told apart

Two paths that differ in the names of their parameters only are one template. The items of a resource and
a subscription with the name of the resource's list are at such paths, and nothing else is.
-/

namespace GraphRest

open Sdl Text Conversion

namespace Endpoint

variable {g : TypeGraph} {options : Options} {s s' : Stage} {pl pl' : Place} {e e' : Endpoint}

/-- The items of a resource have the template of a subscription with the name of its plural, whose path
has another argument than `id`. -/
inductive SharesTemplate (g : TypeGraph) (options : Options) : String → String → Prop where
  | intro {p m n b} : p ∈ patternsOf g options → p.plural = n → ServesItem g options p m →
      StreamsBelow g n b → b ≠ "id" →
      SharesTemplate g options (options.path (itemRoute n))
        (options.path (nameRoute n ++ "/" ++ placeholder b))

theorem StreamsBelow.eq (hg : g.Lawful) {n a b : String} (h : StreamsBelow g n a)
    (h' : StreamsBelow g n b) : a = b := by
  obtain ⟨f, hf, -, hn, x, hx, rfl⟩ := h
  obtain ⟨f', hf', -, hn', y, hy, rfl⟩ := h'
  obtain rfl := hg.eq_of_name_eq hf hf' (hn.trans hn'.symm)
  rw [hx] at hy
  rw [Option.some.inj hy]

/-- Two endpoints with different parameters below one name are an item of a resource and a stream. -/
theorem sharesTemplate_of_below (hg : g.Lawful) {m m' : Method} {n a b : String}
    (h : Emitted g options s (.below m n a) e) (h' : Emitted g options s' (.below m' n b) e')
    (hne : a ≠ b) :
    SharesTemplate g options (options.path e.route) (options.path e'.route) ∨
      SharesTemplate g options (options.path e'.route) (options.path e.route) := by
  have hroute : e.route = nameRoute n ++ "/" ++ placeholder a := h.route_eq
  have hroute' : e'.route = nameRoute n ++ "/" ++ placeholder b := h'.route_eq
  rw [hroute, hroute']
  rcases exists_emitted_below_iff.1 ⟨s, e, h⟩ with ⟨rfl, p, hp, hn, hserves⟩ | ⟨-, hstream⟩
  · rcases exists_emitted_below_iff.1 ⟨s', e', h'⟩ with ⟨rfl, -⟩ | ⟨-, hstream⟩
    · exact absurd rfl hne
    · exact Or.inl (.intro hp hn hserves hstream (Ne.symm hne))
  · rcases exists_emitted_below_iff.1 ⟨s', e', h'⟩ with ⟨rfl, p, hp, hn, hserves⟩ | ⟨-, hstream'⟩
    · exact Or.inr (.intro hp hn hserves hstream hne)
    · exact absurd (hstream.eq hg hstream') hne

end Endpoint

namespace Conversion

open Endpoint

variable {g : TypeGraph} {options : Options} {source : String} {c : Conversion}

theorem mem_paths_of_emitted (hg : TypeGraph.ofSource? source.toList = some g)
    (hc : convert? options source = some c) {s : Stage} {pl : Place} {e : Endpoint}
    (h : Emitted g options s pl e) : options.path e.route ∈ c.document.paths.keys :=
  (mem_paths_document hg hc).2 ⟨e, (mem_written_iff (TypeGraph.lawful_of_ofSource? hg)).2 ⟨s, pl, h⟩, rfl⟩

/-- Paths that share a template are two paths of the document that differ in the names in braces only. -/
theorem ambiguous_of_sharesTemplate (hg : TypeGraph.ofSource? source.toList = some g)
    (hc : convert? options source = some c) (hpre : Braceless options.pathPrefix)
    (hrules : ∀ t ∈ options.inflection.texts, Braceless t) {path path' : String}
    (h : SharesTemplate g options path path') :
    path ∈ c.document.paths.keys ∧ path' ∈ c.document.paths.keys ∧ path ≠ path' ∧
      emptied path = emptied path' := by
  have hlawful := TypeGraph.lawful_of_ofSource? hg
  obtain @⟨p, m, n, b, hp, hn, hserves, hstream, hne⟩ := h
  obtain ⟨s, e, he⟩ := exists_emitted_below_iff.2 (Or.inl ⟨rfl, p, hp, hn, hserves⟩)
  have hbelow : ∃ s e, Emitted g options s (.below .get n b) e :=
    exists_emitted_below_iff.2 (Or.inr ⟨rfl, hstream⟩)
  obtain ⟨s', e', he'⟩ := hbelow
  have hroute : e.route = itemRoute n := he.route_eq
  have hroute' : e'.route = nameRoute n ++ "/" ++ placeholder b := he'.route_eq
  rw [← hroute, ← hroute']
  refine ⟨mem_paths_of_emitted hg hc he, mem_paths_of_emitted hg hc he', fun heq => ?_, ?_⟩
  · rw [Options.path_inj, hroute, hroute', itemRoute, String.append_right_inj, placeholder, placeholder,
      String.append_left_inj, String.append_right_inj] at heq
    exact hne heq.symm
  · rw [he.emptied_path hlawful hpre hrules, he'.emptied_path hlawful hpre hrules]
    rfl

/-- If neither the prefix of paths nor the rules for plurals have braces, two paths of a document differ
in the names in braces only just if one is that of the items of a resource, and the other one that of a
subscription with the name of its plural. -/
theorem ambiguous_templates_iff {options : Options} {source : String} {g : TypeGraph} {c : Conversion}
    (hg : TypeGraph.ofSource? source.toList = some g) (hc : convert? options source = some c)
    (hpre : Braceless options.pathPrefix) (hrules : ∀ t ∈ options.inflection.texts, Braceless t) :
    ∀ path path', (path ∈ c.document.paths.keys ∧ path' ∈ c.document.paths.keys ∧ path ≠ path' ∧
        emptied path = emptied path') ↔
      SharesTemplate g options path path' ∨ SharesTemplate g options path' path := by
  have hlawful := TypeGraph.lawful_of_ofSource? hg
  intro path path'
  constructor
  · rintro ⟨hpath, hpath', hne, heq⟩
    obtain ⟨e, he, rfl⟩ := (mem_paths_document hg hc).1 hpath
    obtain ⟨e', he', rfl⟩ := (mem_paths_document hg hc).1 hpath'
    obtain ⟨s, pl, he⟩ := (mem_written_iff hlawful).1 he
    obtain ⟨s', pl', he'⟩ := (mem_written_iff hlawful).1 he'
    rw [he.emptied_path hlawful hpre hrules, he'.emptied_path hlawful hpre hrules,
      Options.path_inj] at heq
    rcases Place.eq_or_below_of_shape_eq (he.legal hlawful) (he'.legal hlawful) heq with
      hroute | ⟨m, m', n, a, b, rfl, rfl, hab⟩
    · -- One route makes one path, and these are two.
      have hsame : e.route = e'.route :=
        he.route_eq.trans (hroute.trans he'.route_eq.symm)
      exact absurd (by rw [hsame]) hne
    · exact sharesTemplate_of_below hlawful he he' hab
  · rintro (h | h)
    · exact ambiguous_of_sharesTemplate hg hc hpre hrules h
    · obtain ⟨hpath', hpath, hne, heq⟩ := ambiguous_of_sharesTemplate hg hc hpre hrules h
      exact ⟨hpath, hpath', hne.symm, heq.symm⟩

theorem messaging_templates_differ : ∃ c, convert? { pathPrefix := "/v1" } messaging = some c ∧
    Braceless "/v1" ∧ (∀ t ∈ ({} : InflectionRules).texts, Braceless t) ∧
    ∀ path ∈ c.document.paths.keys, ∀ path' ∈ c.document.paths.keys,
      emptied path = emptied path' → path = path' := by
  obtain ⟨g, hg, hnames⟩ := exists_graph messaging
    (fun g => ∀ p ∈ patternsOf g { pathPrefix := "/v1" }, ∀ f ∈ subscriptionFields g,
      f.name ≠ p.plural) (by decide +kernel)
  have hc := convert?_of_ofSource? { pathPrefix := "/v1" } hg
  have hpre : Braceless "/v1" := by decide
  have hrules : ∀ t ∈ ({} : InflectionRules).texts, Braceless t := by decide
  have hnone : ∀ path path', ¬ SharesTemplate g { pathPrefix := "/v1" } path path' := by
    rintro path path' @⟨p, m, n, b, hp, rfl, hserves, ⟨f, hf, -, hn, ha⟩, hne⟩
    exact hnames p hp f hf hn
  refine ⟨_, hc, hpre, hrules, fun path hpath path' hpath' heq => ?_⟩
  by_contra hne
  rcases (ambiguous_templates_iff hg hc hpre hrules path path').1 ⟨hpath, hpath', hne, heq⟩ with h | h
  · exact hnone _ _ h
  · exact hnone _ _ h

/-- Messages that are changed by their `id`, and streamed by channel under the same name. -/
def channels : String :=
  "type Query \x7b messages: [Int] \x7d " ++
  "type Mutation \x7b createMessage: Int updateMessage(text: ID): Int \x7d " ++
  "type Subscription \x7b messages(channel: ID!): Int \x7d"

/-- Two paths of a document are one template, though neither the prefix nor the rules have braces. -/
theorem channels_templates_equal : ∃ c, convert? {} channels = some c ∧
    Braceless ({} : Options).pathPrefix ∧ (∀ t ∈ ({} : InflectionRules).texts, Braceless t) ∧
    ∃ path ∈ c.document.paths.keys, ∃ path' ∈ c.document.paths.keys,
      path ≠ path' ∧ emptied path = emptied path' := by
  obtain ⟨g, hg, hpaths⟩ := exists_graph channels
    (fun g => ∃ path ∈ (ofGraph {} channels g).document.paths.keys,
      ∃ path' ∈ (ofGraph {} channels g).document.paths.keys,
        path ≠ path' ∧ emptied path = emptied path') (by decide +kernel)
  exact ⟨_, convert?_of_ofSource? {} hg, by decide, by decide, hpaths⟩

end Conversion

end GraphRest
