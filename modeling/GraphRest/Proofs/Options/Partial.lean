import GraphRest.Proofs.Json.Records

/-!
# Options in part

Options that are given in part: from an object that lists some of their fields, or from a list of the first ones. What
is given is taken, at both levels, and every other field has its default.
-/

namespace GraphRest

open Json Json.Decoder

variable {n : Node} {chosen : Finset String}

/-! ## Rules of inflection -/

namespace InflectionRules

/-- The chosen fields of a set of rules; each other field has its default. -/
def only (r : InflectionRules) (chosen : Finset String) : InflectionRules :=
  let default : InflectionRules := {}
  { custom := if "custom" ∈ chosen then r.custom else default.custom
    esSuffixes := if "es_suffixes" ∈ chosen then r.esSuffixes else default.esSuffixes
    iesSuffix := if "ies_suffix" ∈ chosen then r.iesSuffix else default.iesSuffix
    defaultSuffix := if "default_suffix" ∈ chosen then r.defaultSuffix else default.defaultSuffix }

/-- The fields of a set of rules in JSON. -/
def jsonTable (r : InflectionRules) : FieldTable := [
  ("custom", IsTable r.custom),
  ("es_suffixes", IsTexts r.esSuffixes),
  ("ies_suffix", IsText r.iesSuffix),
  ("default_suffix", IsText r.defaultSuffix)]

variable {r : InflectionRules}

theorem fills_jsonTable (r : InflectionRules) : List.Forall₂ (Fills r.only) jsonFields r.jsonTable := by
  refine .cons (fills_of (fun _ => suffixTable_of_isTable) ?_) <|
    .cons (fills_of (fun _ => list_of_isTexts) ?_) <|
    .cons (fills_of (fun _ => string_of_isText) ?_) <|
    .cons (fills_of (fun _ => string_of_isText) ?_) .nil <;>
  · intro seen
    simp [only]

theorem ofJson_of_isObject (h : IsObject r.jsonTable chosen n) : ofJson n = .ok (r.only chosen) :=
  record_of_isObject r.fills_jsonTable h

end InflectionRules

/-! ## Prefixes of mutations -/

namespace MutationPrefixes

/-- The chosen prefixes; each other one has its default. -/
def only (p : MutationPrefixes) (chosen : Finset String) : MutationPrefixes :=
  let default : MutationPrefixes := {}
  { create := if "create" ∈ chosen then p.create else default.create
    update := if "update" ∈ chosen then p.update else default.update
    delete := if "delete" ∈ chosen then p.delete else default.delete }

def jsonTable (p : MutationPrefixes) : FieldTable := [
  ("create", IsText p.create), ("update", IsText p.update), ("delete", IsText p.delete)]

variable {p : MutationPrefixes}

theorem fills_jsonTable (p : MutationPrefixes) : List.Forall₂ (Fills p.only) jsonFields p.jsonTable := by
  refine .cons (fills_of (fun _ => string_of_isText) ?_) <|
    .cons (fills_of (fun _ => string_of_isText) ?_) <|
    .cons (fills_of (fun _ => string_of_isText) ?_) .nil <;>
  · intro seen
    simp [only]

theorem ofJson_of_isObject (h : IsObject p.jsonTable chosen n) : ofJson n = .ok (p.only chosen) :=
  record_of_isObject p.fills_jsonTable h

end MutationPrefixes

/-! ## Options -/

/-- A choice of fields by name: of options, and inside their two records. -/
structure FieldChoice where
  options : Finset String
  inflection : Finset String
  prefixes : Finset String

namespace Options

/-- The chosen fields of some options, of the two records inside only what is chosen there; each other field has its
default. -/
def only (o : Options) (chosen : FieldChoice) : Options :=
  let default : Options := {}
  { title := if "title" ∈ chosen.options then o.title else default.title
    version := if "version" ∈ chosen.options then o.version else default.version
    baseUrl := if "base_url" ∈ chosen.options then o.baseUrl else default.baseUrl
    pathPrefix := if "path_prefix" ∈ chosen.options then o.pathPrefix else default.pathPrefix
    detectResources :=
      if "detect_rest_patterns" ∈ chosen.options then o.detectResources else default.detectResources
    inflection :=
      if "pluralization" ∈ chosen.options then o.inflection.only chosen.inflection
      else default.inflection
    mutationPrefixes :=
      if "crud_prefixes" ∈ chosen.options then o.mutationPrefixes.only chosen.prefixes
      else default.mutationPrefixes }

/-- The fields of options in JSON, with some fields of the two records inside. -/
def jsonTable (o : Options) (inflection prefixes : Finset String) : FieldTable := [
  ("title", IsTextOrNull o.title),
  ("version", IsText o.version),
  ("base_url", IsTextOrNull o.baseUrl),
  ("path_prefix", IsText o.pathPrefix),
  ("detect_rest_patterns", IsFlag o.detectResources),
  ("pluralization", IsObject o.inflection.jsonTable inflection),
  ("crud_prefixes", IsObject o.mutationPrefixes.jsonTable prefixes)]

variable {o : Options} {inflection prefixes : Finset String} {text : String}

theorem fills_jsonTable (o : Options) (inflection prefixes : Finset String) :
    List.Forall₂ (Fills fun chosen => o.only ⟨chosen, inflection, prefixes⟩) jsonFields
      (o.jsonTable inflection prefixes) := by
  refine .cons (fills_of (fun _ => optional_of_isTextOrNull) ?_) <|
    .cons (fills_of (fun _ => string_of_isText) ?_) <|
    .cons (fills_of (fun _ => optional_of_isTextOrNull) ?_) <|
    .cons (fills_of (fun _ => string_of_isText) ?_) <|
    .cons (fills_of (fun _ => bool_of_isFlag) ?_) <|
    .cons (fills_of (fun _ => InflectionRules.ofJson_of_isObject) ?_) <|
    .cons (fills_of (fun _ => MutationPrefixes.ofJson_of_isObject) ?_) .nil <;>
  · intro seen
    simp [only]

theorem ofJson_of_isObject (h : IsObject (o.jsonTable inflection prefixes) chosen n) :
    ofJson n = .ok (o.only ⟨chosen, inflection, prefixes⟩) :=
  record_of_isObject (fills_jsonTable o inflection prefixes) h

theorem ofJson_of_isFront {k : Nat} (h : IsFront (o.jsonTable inflection prefixes) k n) :
    ofJson n =
      .ok (o.only ⟨(o.jsonTable inflection prefixes).front k, inflection, prefixes⟩) :=
  record_of_isFront (fills_jsonTable o inflection prefixes) h

/-- A value is decoded into some options, and so is every text that reads as this value. -/
def DecodedFrom (o : Options) (n : Node) : Prop :=
  ofJson n = .ok o ∧ ∀ text, read text = ⟨n, none⟩ → ofJsonText text = .ok o

theorem decodedFrom_of_ofJson (h : ofJson n = .ok o) : DecodedFrom o n := by
  refine ⟨h, fun text hread => ?_⟩
  rw [ofJsonText, decodeText, hread]
  simp only [h]
  rfl

/-- Whatever fields an object lists, at both levels, in whatever order and with whatever under other names, it is
decoded into the options that have just these fields from it. A list of the first fields is decoded like an object
of these. -/
theorem chosen_fields_decoded (o : Options) (inflection prefixes : Finset String) :
    (∀ chosen n, IsObject (o.jsonTable inflection prefixes) chosen n →
      (o.only ⟨chosen, inflection, prefixes⟩).DecodedFrom n) ∧
    ∀ k n, IsFront (o.jsonTable inflection prefixes) k n →
      (o.only ⟨(o.jsonTable inflection prefixes).front k, inflection, prefixes⟩).DecodedFrom n ∧
      ∀ n', IsObject (o.jsonTable inflection prefixes) ((o.jsonTable inflection prefixes).front k) n' →
        ofJson n = ofJson n' := by
  refine ⟨fun chosen n hn => decodedFrom_of_ofJson (ofJson_of_isObject hn),
    fun k n hn => ⟨decodedFrom_of_ofJson (ofJson_of_isFront hn), fun n' hn' => ?_⟩⟩
  rw [ofJson_of_isFront hn, ofJson_of_isObject hn']

/-- Options of which some fields are given below. -/
def stall : Options where
  version := "2"
  pathPrefix := "/v2"
  mutationPrefixes := { create := "add", update := "change" }

/-- Two fields in an order of their own, and between them a number that is out of range under a name of no field. -/
def stallText : String :=
  "\x7b\"crud_prefixes\":\x7b\"create\":\"add\"\x7d,\"x\":1e999,\"version\":\"2\"\x7d"

def stallPrefixes : List (String × Option Mark × Node) :=
  [("create", some ⟨1, 26⟩, .scalar (some ⟨⟨1, 27⟩, ⟨1, 32⟩⟩) (.string "add"))]

def stallEntries : List (String × Option Mark × Node) := [
  ("crud_prefixes", some ⟨1, 16⟩, .fields (some ⟨⟨1, 17⟩, ⟨1, 33⟩⟩) stallPrefixes none),
  ("x", some ⟨1, 37⟩, .scalar (some ⟨⟨1, 38⟩, ⟨1, 43⟩⟩) (.flawed ⟨.numberOutOfRange, ⟨1, 43⟩⟩)),
  ("version", some ⟨1, 53⟩, .scalar (some ⟨⟨1, 54⟩, ⟨1, 57⟩⟩) (.string "2"))]

def stallObject : Node := .fields (some ⟨⟨1, 0⟩, ⟨1, 58⟩⟩) stallEntries none

/-- The first two fields as a list. -/
def stallList : Node := .list none [.scalar none .null, .scalar none (.string "2")] none

/-- The first two fields as an object. -/
def stallFront : List (String × Option Mark × Node) :=
  [("version", none, .scalar none (.string "2")), ("title", none, .scalar none .null)]

theorem lists_stallPrefixes : Lists stall.mutationPrefixes.jsonTable {"create"} stallPrefixes where
  known := by decide
  given := by decide
  told := by simp [stallPrefixes, MutationPrefixes.jsonTable, stall, IsText]
  once := by decide
  other := by decide

theorem lists_stallEntries :
    Lists (stall.jsonTable ∅ {"create"}) {"crud_prefixes", "version"} stallEntries where
  known := by decide
  given := by decide
  told := by
    have hprefixes : IsObject stall.mutationPrefixes.jsonTable {"create"}
        (.fields (some ⟨⟨1, 17⟩, ⟨1, 33⟩⟩) stallPrefixes none) := ⟨_, _, rfl, lists_stallPrefixes⟩
    have hversion : IsText stall.version (.scalar (some ⟨⟨1, 54⟩, ⟨1, 57⟩⟩) (.string "2")) := ⟨_, rfl⟩
    simp [stallEntries, jsonTable, hprefixes, hversion]
  once := by decide
  other := by simp [stallEntries, jsonTable, Node.fault?]

theorem lists_stallFront :
    Lists (stall.jsonTable ∅ {"create"}) ((stall.jsonTable ∅ {"create"}).front 2) stallFront where
  known := by decide
  given := by decide
  told := by
    have htitle : IsTextOrNull stall.title (.scalar none .null) := ⟨_, rfl⟩
    have hversion : IsText stall.version (.scalar none (.string "2")) := ⟨_, rfl⟩
    simp [stallFront, jsonTable, FieldTable.front, htitle, hversion]
  once := by decide
  other := by decide

theorem stall_decoded_in_part :
    (IsObject (stall.jsonTable ∅ {"create"}) {"crud_prefixes", "version"} stallObject ∧
      read stallText = ⟨stallObject, none⟩ ∧
      ofJsonText stallText = .ok { version := "2", mutationPrefixes := { create := "add" } }) ∧
    IsFront (stall.jsonTable ∅ {"create"}) 2 stallList ∧
      IsObject (stall.jsonTable ∅ {"create"}) ((stall.jsonTable ∅ {"create"}).front 2)
        (.fields none stallFront none) ∧
      ofJson stallList = .ok { version := "2" } ∧ ofJson stallList = ofJson (.fields none stallFront none) := by
  have hobject : IsObject (stall.jsonTable ∅ {"create"}) {"crud_prefixes", "version"} stallObject :=
    ⟨_, _, rfl, lists_stallEntries⟩
  have hread : read stallText = ⟨stallObject, none⟩ := by rfl
  have hitems : IsFront (stall.jsonTable ∅ {"create"}) 2 stallList :=
    ⟨none, _, rfl, .cons ⟨none, rfl⟩ (.cons ⟨none, rfl⟩ .nil)⟩
  have hfront : IsObject (stall.jsonTable ∅ {"create"}) ((stall.jsonTable ∅ {"create"}).front 2)
      (.fields none stallFront none) := ⟨none, _, rfl, lists_stallFront⟩
  obtain ⟨hobjects, hlists⟩ := chosen_fields_decoded stall ∅ {"create"}
  obtain ⟨hlist, hsame⟩ := hlists 2 _ hitems
  exact ⟨⟨hobject, hread, (hobjects _ _ hobject).2 _ hread⟩, hitems, hfront, hlist.1, hsame _ hfront⟩

end Options

end GraphRest
