import GraphRest.Sdl.TypeGraph
import GraphRest.Text.Basic
import GraphRest.Proofs.Sdl.Lawful

/-!
# Names in schemas

A name consists of letters, digits and underscores, so it holds none of the marks that paths are made of.
Where a schema names no reserved type, all fields that a conversion looks at name types of the schema itself.
-/

namespace GraphRest.Sdl

/-! ## Characters of names -/

section

variable {n : String} {c : Char}

theorem isNameChar_of_startsName (h : startsName c = true) : isNameChar c = true := by
  rw [startsName, Bool.or_eq_true] at h
  rw [isNameChar, Bool.or_eq_true, Char.isAlphanum, Bool.or_eq_true]
  exact h.imp_left Or.inl

theorem isNameChar_of_mem (h : isName n = true) (hc : c ∈ n.toList) : isNameChar c = true := by
  rw [isName] at h
  split at h
  · cases h
  · rename_i first rest hn
    rw [hn] at hc
    rw [Bool.and_eq_true, List.all_eq_true] at h
    rcases List.mem_cons.1 hc with rfl | hc
    · exact isNameChar_of_startsName h.1
    · exact h.2 c hc

/-- A character that stands in no name at all is not in this one. -/
theorem not_mem_of_isName (h : isName n = true) (hc : isNameChar c = false) : c ∉ n.toList := by
  intro hmem
  rw [isNameChar_of_mem h hmem] at hc
  cases hc

theorem code_of_isUpper (h : c.isUpper = true) : 65 ≤ c.toNat ∧ c.toNat ≤ 90 := by
  have hc : 'A'.val ≤ c.val ∧ c.val ≤ 'Z'.val := of_decide_eq_true h
  exact hc

theorem code_of_isLower (h : c.isLower = true) : 97 ≤ c.toNat ∧ c.toNat ≤ 122 := by
  obtain ⟨hlow, hhigh⟩ := Bool.and_eq_true_iff.1 h
  exact ⟨of_decide_eq_true hlow, of_decide_eq_true hhigh⟩

theorem code_of_isDigit (h : c.isDigit = true) : 48 ≤ c.toNat ∧ c.toNat ≤ 57 := by
  obtain ⟨hlow, hhigh⟩ := Bool.and_eq_true_iff.1 h
  exact ⟨of_decide_eq_true hlow, of_decide_eq_true hhigh⟩

/-- The codes of letters, digits and the underscore. -/
theorem code_of_isNameChar (h : isNameChar c = true) : (48 ≤ c.toNat ∧ c.toNat ≤ 57) ∨
    (65 ≤ c.toNat ∧ c.toNat ≤ 90) ∨ c.toNat = 95 ∨ (97 ≤ c.toNat ∧ c.toNat ≤ 122) := by
  rw [isNameChar, Bool.or_eq_true, Char.isAlphanum, Bool.or_eq_true] at h
  rcases h with (h | h) | h
  · rcases Bool.or_eq_true_iff.1 h with h | h
    · exact .inr (.inl (code_of_isUpper h))
    · exact .inr (.inr (.inr (code_of_isLower h)))
  · exact .inl (code_of_isDigit h)
  · rw [of_decide_eq_true h]
    exact .inr (.inr (.inl rfl))

theorem isNameChar_lt (h : isNameChar c = true) : c.toNat < 128 := by
  have hcode := code_of_isNameChar h
  omega

theorem isBlank_of_isNameChar (h : isNameChar c = true) : Text.isBlank c = false := by
  have hcode := code_of_isNameChar h
  simp only [Text.isBlank, Bool.or_eq_false_iff, Bool.and_eq_false_iff, decide_eq_false_iff_not,
    beq_eq_false_iff_ne]
  omega

theorem isNameChar_of_isUpper (h : c.isUpper = true) : isNameChar c = true := by
  have halpha : c.isAlpha = true := Bool.or_eq_true_iff.2 (Or.inl h)
  simp [isNameChar, Char.isAlphanum, halpha]

end

/-! ## Types that a schema names

The names of types in the roots and the declared types of a schema. -/

/-- The types that a field names: its own and those of its arguments. -/
def Field.namedTypes (f : Field) : List String :=
  f.type.innermost :: f.arguments.map fun a => a.type.innermost

/-- The types that a body names. -/
def Body.namedTypes : Body → List String
  | .scalar => []
  | .object interfaces fields => interfaces ++ fields.flatMap Field.namedTypes
  | .interface interfaces fields => interfaces ++ fields.flatMap Field.namedTypes
  | .union members => members
  | .enum _ => []
  | .input fields => fields.map fun v => v.type.innermost

namespace TypeGraph

/-- The types that a schema names. -/
def namedTypes (g : TypeGraph) : List String :=
  [g.roots.query, g.roots.mutation, g.roots.subscription].flatMap Option.toList ++
    g.types.flatMap fun d => d.name :: d.body.namedTypes

/-- A schema names no reserved type. -/
def Unreserved (g : TypeGraph) : Prop := ∀ n ∈ g.namedTypes, isReservedName n = false

instance (g : TypeGraph) : Decidable g.Unreserved := by
  unfold Unreserved
  infer_instance

variable {g : TypeGraph} {d : TypeDefinition}

theorem Unreserved.name (h : g.Unreserved) (hd : d ∈ g.types) : isReservedName d.name = false :=
  h _ (List.mem_append_right _ (List.mem_flatMap.2 ⟨d, hd, List.mem_cons_self⟩))

theorem Unreserved.body (h : g.Unreserved) (hd : d ∈ g.types) {n : String}
    (hn : n ∈ d.body.namedTypes) : isReservedName n = false :=
  h _ (List.mem_append_right _ (List.mem_flatMap.2 ⟨d, hd, List.mem_cons_of_mem _ hn⟩))

/-- The fields of an object type name no reserved type, if the schema names none. -/
theorem Unreserved.objectFields (h : g.Unreserved) (hg : g.Lawful) {n : String}
    (hr : isReservedName n = false) {fs : List Field} (hfs : g.objectFields? n = some fs) :
    ∀ f ∈ fs, ∀ m ∈ f.namedTypes, isReservedName m = false := by
  obtain ⟨d, is, hd, hb⟩ := objectFields?_eq_some_iff.1 hfs
  have hdeclared : d ∈ g.types := hg.mem_types hd hr (by rw [hb]; nofun)
  intro f hf m hm
  refine h.body hdeclared ?_
  rw [hb]
  exact List.mem_append_right _ (List.mem_flatMap.2 ⟨f, hf, hm⟩)

/-- Neither do the fields of the roots name one. -/
theorem Unreserved.rootFields (h : g.Unreserved) (hg : g.Lawful) {root : Option String}
    (hroot : root ∈ [g.roots.query, g.roots.mutation, g.roots.subscription]) {f : Field}
    (hf : f ∈ (g.rootFields root).getD []) : ∀ m ∈ f.namedTypes, isReservedName m = false := by
  cases hr : g.rootFields root with
  | none => rw [hr] at hf; cases hf
  | some fs =>
      rw [hr] at hf
      obtain ⟨n, rfl, hfs⟩ := Option.bind_eq_some_iff.1 hr
      have hn : isReservedName n = false :=
        h n (List.mem_append_left _ (List.mem_flatMap.2 ⟨_, hroot, Option.mem_toList.2 rfl⟩))
      exact h.objectFields hg hn hfs f hf

end TypeGraph

end GraphRest.Sdl
