import GraphRest.Conversion.Component
import GraphRest.Proofs.Data.Last
import Mathlib.Data.List.DropRight

/-!
# What notices leave in a fragment

Notices are noted one after another. A bound, a pattern and a format are those of the last notice that sets
them. A deprecation with a reason puts a description in place of the one that was there, and a specification
adds a paragraph to it, so the description is that of the last such deprecation with the paragraphs of the
specifications behind it.
-/

namespace GraphRest

namespace Notice

/-- Whether a notice is a deprecation. -/
def isDeprecation : Notice → Bool
  | deprecated _ => true
  | _ => false

/-- A bound that a notice sets, a pattern among them. -/
def bound? {α : Type} (bound : Constraint → Option α) : Notice → Option α
  | constraint c => bound c
  | _ => none

/-- The format that a notice sets. -/
def format? : Notice → Option String
  | constraint c => c.format
  | specifiedBy url => formatOfUrl? url
  | deprecated _ => none

/-- The description that a notice puts in place of the one that is there. -/
def warning? (fieldName : String) : Notice → Option String
  | deprecated reason => reason.map (Naming.title fieldName ++ " - DEPRECATED: " ++ ·)
  | _ => none

/-- The paragraph that a notice adds to the description. -/
def paragraph? : Notice → Option String
  | specifiedBy url => some ("Spec: " ++ url)
  | _ => none

/-- The paragraphs behind the last notice that puts another description in place; all, if there is no such
notice. -/
def lastParagraphs (fieldName : String) (ns : List Notice) : List String :=
  (ns.rtakeWhile fun n => (n.warning? fieldName).isNone).filterMap paragraph?

/-- A description with paragraphs behind it, each set off by a blank line from the text in front of it if
there is any. -/
def withParagraphs (description : Option String) : List String → Option String
  | [] => description
  | p :: ps => some ("\n\n".intercalate ((nonEmpty description).toList ++ p :: ps))

variable {fieldName : String} {f : Fragment} {ns : List Notice} {n : Notice}

/-! ## Paragraphs -/

theorem withParagraphs_of_ne_nil {description : Option String} {ps : List String} (h : ps ≠ []) :
    withParagraphs description ps =
      some ("\n\n".intercalate ((nonEmpty description).toList ++ ps)) := by
  cases ps with
  | nil => exact absurd rfl h
  | cons p ps => rfl

theorem withParagraphs_singleton (description : Option String) (p : String) :
    withParagraphs description [p] = some (addParagraph description p) := by
  cases description with
  | none => simp [withParagraphs, addParagraph, nonEmpty]
  | some text =>
      by_cases h : text.isEmpty = true <;>
        simp [withParagraphs, addParagraph, nonEmpty, Option.filter, h]

theorem intercalate_concat_ne_empty {sep t : String} {ts : List String} (h : t ≠ "") :
    sep.intercalate (ts ++ [t]) ≠ "" := by
  by_cases hts : ts = []
  · simpa [hts] using h
  · rw [String.intercalate_append_of_ne_nil hts (List.cons_ne_nil _ _), String.intercalate_singleton]
    simp [h]

theorem withParagraphs_append {description : Option String} {ps qs : List String}
    (hps : ∀ p ∈ ps, p ≠ "") :
    withParagraphs (withParagraphs description ps) qs = withParagraphs description (ps ++ qs) := by
  by_cases hqs : qs = []
  · rw [hqs, List.append_nil]
    rfl
  · rcases List.eq_nil_or_concat' ps with rfl | ⟨ps, p, rfl⟩
    · rfl
    · have hne (ts : List String) : ts ++ [p] ≠ [] := by simp
      have hfull : "\n\n".intercalate ((nonEmpty description).toList ++ ps ++ [p]) ≠ "" :=
        intercalate_concat_ne_empty (hps p (List.mem_append_right _ List.mem_cons_self))
      -- The first paragraphs leave some text, so a blank line sets the others off from it.
      have htext : nonEmpty (some ("\n\n".intercalate ((nonEmpty description).toList ++ ps ++ [p]))) =
          some ("\n\n".intercalate ((nonEmpty description).toList ++ ps ++ [p])) :=
        Option.filter_some_pos (by rw [String.isEmpty_eq_false_iff.2 hfull]; rfl)
      rw [withParagraphs_of_ne_nil hqs, withParagraphs_of_ne_nil (hne ps), ← List.append_assoc, htext,
        Option.toList_some, List.singleton_append, String.intercalate_cons_of_ne_nil hqs,
        withParagraphs_of_ne_nil (by simp), ← List.append_assoc, ← List.append_assoc,
        String.intercalate_append_of_ne_nil (hne _) hqs]

theorem ne_empty_of_mem_lastParagraphs {p : String} (h : p ∈ lastParagraphs fieldName ns) : p ≠ "" := by
  obtain ⟨n, -, hp⟩ := List.mem_filterMap.1 h
  cases n with
  | specifiedBy url =>
      cases hp
      simp
  | _ => cases hp

theorem lastParagraphs_concat (fieldName : String) (ns : List Notice) (n : Notice) :
    lastParagraphs fieldName (ns ++ [n]) =
      if (n.warning? fieldName).isSome then []
      else lastParagraphs fieldName ns ++ n.paragraph?.toList := by
  cases hw : n.warning? fieldName with
  | some text =>
      rw [lastParagraphs, List.rtakeWhile_concat_neg _ _ _ (by simp [hw])]
      rfl
  | none =>
      rw [lastParagraphs, List.rtakeWhile_concat_pos _ _ _ (by simp [hw]), List.filterMap_append]
      cases hp : n.paragraph? <;> simp [hp, lastParagraphs]

/-! ## Notes -/

/-- What one notice does to a fragment. -/
theorem note_eq (fieldName : String) (f : Fragment) (n : Notice) :
    note fieldName f n =
      { f with
        deprecated := f.deprecated || n.isDeprecation
        minLength := (n.bound? Constraint.minLength).or f.minLength
        maxLength := (n.bound? Constraint.maxLength).or f.maxLength
        minimum := (n.bound? Constraint.minimum).or f.minimum
        maximum := (n.bound? Constraint.maximum).or f.maximum
        pattern := (n.bound? Constraint.pattern).or f.pattern
        format := n.format?.or f.format
        description :=
          (n.warning? fieldName).or (withParagraphs f.description n.paragraph?.toList) } := by
  cases n with
  | deprecated reason =>
      cases reason <;>
        simp [note, isDeprecation, bound?, format?, warning?, paragraph?, withParagraphs]
  | constraint c =>
      simp [note, noteConstraint, isDeprecation, bound?, format?, warning?, paragraph?, withParagraphs]
  | specifiedBy url =>
      simp [note, isDeprecation, bound?, format?, warning?, paragraph?, withParagraphs_singleton]

/-- The description with one more notice. -/
theorem description_concat (description : Option String) :
    (n.warning? fieldName).or
        (withParagraphs
          (withParagraphs ((ns.filterMap (warning? fieldName)).getLast?.or description)
            (lastParagraphs fieldName ns))
          n.paragraph?.toList) =
      withParagraphs (((ns ++ [n]).filterMap (warning? fieldName)).getLast?.or description)
        (lastParagraphs fieldName (ns ++ [n])) := by
  rw [withParagraphs_append fun _ => ne_empty_of_mem_lastParagraphs, getLast?_filterMap_concat,
    lastParagraphs_concat]
  cases n.warning? fieldName <;> rfl

/-- What notices do to a fragment: it is deprecated if one of them is a deprecation, each bound, the pattern
and the format are those of the last notice that sets them, and the description is that of the last
deprecation with a reason, with the specifications noted after it. The rest of the fragment stays. -/
theorem noteAll_eq (fieldName : String) (ns : List Notice) (f : Fragment) :
    noteAll fieldName ns f =
      { f with
        deprecated := f.deprecated || ns.any isDeprecation
        minLength := (ns.filterMap (bound? Constraint.minLength)).getLast?.or f.minLength
        maxLength := (ns.filterMap (bound? Constraint.maxLength)).getLast?.or f.maxLength
        minimum := (ns.filterMap (bound? Constraint.minimum)).getLast?.or f.minimum
        maximum := (ns.filterMap (bound? Constraint.maximum)).getLast?.or f.maximum
        pattern := (ns.filterMap (bound? Constraint.pattern)).getLast?.or f.pattern
        format := (ns.filterMap format?).getLast?.or f.format
        description :=
          withParagraphs ((ns.filterMap (warning? fieldName)).getLast?.or f.description)
            (lastParagraphs fieldName ns) } := by
  induction ns using List.reverseRecOn with
  | nil =>
      rw [List.any_nil, Bool.or_false]
      cases f
      rfl
  | append_singleton ns n ih =>
      have hstep : noteAll fieldName (ns ++ [n]) f = note fieldName (noteAll fieldName ns f) n := by
        rw [noteAll, List.foldl_append]
        rfl
      rw [hstep, note_eq, ih]
      simp only [getLast?_filterMap_concat, List.any_append, List.any_cons, List.any_nil, Bool.or_false,
        Bool.or_assoc, description_concat]

/-- A specification that is noted before a deprecation with a reason leaves its format, but no paragraph. -/
example : let f := noteAll "refId" [.specifiedBy "https://uuid.org", .deprecated (some "gone"),
      .specifiedBy "https://a.b", .specifiedBy "https://c.d"] Fragment.string
    f.format = some "uuid" ∧
      f.description = some "Ref Id - DEPRECATED: gone\n\nSpec: https://a.b\n\nSpec: https://c.d" := by
  decide +kernel

end Notice

end GraphRest
