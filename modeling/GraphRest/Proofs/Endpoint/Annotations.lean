import GraphRest.Proofs.Conversion.Notices
import GraphRest.Proofs.Endpoint.Operations
import GraphRest.Proofs.Naming.Title

/-!
# What is noted on operations

A deprecation that is noted stays, whatever else is noted after it, so what is annotated with the directives
of a field is deprecated just if the field is. An operation goes by the title of its field, unless the
description of the field says itself what the operation does, or a deprecation puts another summary in place.
-/

namespace GraphRest

open Sdl

/-! ## Deprecations -/

/-- Whether a `@deprecated` directive is among those of a field. -/
def isDeprecated (ds : List DirectiveUse) : Bool := ds.any (·.name = "deprecated")

namespace Notice

/-! ## Notices -/

theorem isDeprecation_of_ofDirective? {d : DirectiveUse} {n : Notice} (h : ofDirective? d = some n) :
    n.isDeprecation = decide (d.name = "deprecated") := by
  unfold ofDirective? at h
  split at h
  · rename_i hd
    cases h
    simp [isDeprecation, hd]
  · rename_i hd
    cases h
    simp [isDeprecation, hd]
  · rename_i hd
    obtain ⟨url, -, rfl⟩ := Option.map_eq_some_iff.1 h
    simp [isDeprecation, hd]
  · cases h

theorem any_isDeprecation_ofDirectives (ds : List DirectiveUse) :
    (ofDirectives ds).any isDeprecation = isDeprecated ds := by
  unfold ofDirectives isDeprecated
  induction ds with
  | nil => rfl
  | cons d ds ih =>
      cases hd : ofDirective? d with
      | none =>
          -- A `@deprecated` directive always says something.
          have hname : d.name ≠ "deprecated" := fun hn => by simp [ofDirective?, hn] at hd
          rw [List.filterMap_cons_none hd, ih, List.any_cons, decide_eq_false hname, Bool.false_or]
      | some n =>
          rw [List.filterMap_cons_some hd, List.any_cons, ih, List.any_cons,
            isDeprecation_of_ofDirective? hd]

theorem deprecated_note (key : String) (f : Fragment) (n : Notice) :
    (note key f n).deprecated = (f.deprecated || n.isDeprecation) := by
  rw [note_eq]

theorem deprecated_noteOperation (o : Operation) (n : Notice) :
    (noteOperation o n).deprecated = (o.deprecated || n.isDeprecation) := by
  cases n with
  | deprecated reason => cases reason <;> simp [noteOperation, isDeprecation]
  | constraint _ => simp [noteOperation, isDeprecation]
  | specifiedBy _ => simp [noteOperation, isDeprecation]

/-- Where each notice keeps a flag and sets it if it is a deprecation, so do all of them. -/
theorem foldl_eq_or_any {β : Type} {flag : β → Bool} {step : β → Notice → β}
    (hstep : ∀ x n, flag (step x n) = (flag x || n.isDeprecation)) (ns : List Notice) (x : β) :
    flag (ns.foldl step x) = (flag x || ns.any isDeprecation) := by
  induction ns generalizing x with
  | nil => simp
  | cons n ns ih => rw [List.foldl_cons, ih, hstep, List.any_cons, Bool.or_assoc]

theorem deprecated_noteAll (key : String) (ns : List Notice) (f : Fragment) :
    (noteAll key ns f).deprecated = (f.deprecated || ns.any isDeprecation) :=
  foldl_eq_or_any (deprecated_note key) ns f

theorem deprecated_noteAllOperation (ns : List Notice) (o : Operation) :
    (noteAllOperation ns o).deprecated = (o.deprecated || ns.any isDeprecation) :=
  foldl_eq_or_any deprecated_noteOperation ns o

/-- Only deprecations show on an operation. -/
theorem noteAllOperation_of_no_deprecation {ns : List Notice} (h : ns.any isDeprecation = false)
    (o : Operation) : noteAllOperation ns o = o := by
  unfold noteAllOperation
  induction ns generalizing o with
  | nil => rfl
  | cons n ns ih =>
      rw [List.any_cons, Bool.or_eq_false_iff] at h
      cases n with
      | deprecated _ => cases h.1
      | _ => exact ih h.2 o

end Notice

/-! ## Operations -/

namespace Endpoint

variable {g : TypeGraph} {f : Field}

theorem deprecated_annotate (f : Field) (o : Operation) :
    (annotate f o).deprecated = (o.deprecated || isDeprecated f.directives) := by
  rw [annotate, Notice.deprecated_noteAllOperation, Notice.any_isDeprecation_ofDirectives]

theorem annotate_of_not_deprecated (h : isDeprecated f.directives = false) (o : Operation) :
    annotate f o = o := by
  rw [← Notice.any_isDeprecation_ofDirectives] at h
  exact Notice.noteAllOperation_of_no_deprecation h o

theorem deprecated_queryOperation :
    (queryOperation g f).deprecated = isDeprecated f.directives :=
  deprecated_annotate f _

theorem deprecated_mutationOperation {fallback : Option String} :
    (mutationOperation g f fallback).deprecated = isDeprecated f.directives :=
  deprecated_annotate f _

theorem deprecated_changeResource {p : ResourcePattern} {kind : CrudOperation} :
    (changeResource g p kind f).operation.deprecated = isDeprecated f.directives := by
  cases kind with
  | delete =>
      simp only [changeResource, deletion]
      split <;> exact deprecated_mutationOperation
  | _ => exact deprecated_mutationOperation

theorem deprecated_subscriptionOperation :
    (subscriptionOperation g f).deprecated = isDeprecated f.directives :=
  deprecated_annotate f _

/-! ## Summaries -/

theorem summary_queryOperation (h : isDeprecated f.directives = false) :
    (queryOperation g f).summary = some (summarised f).summary := by
  rw [queryOperation, annotate_of_not_deprecated h]

end Endpoint

open Endpoint Naming Text

/-- The title in front of a description is its summary, whatever the description says, unless it begins
with an action verb. So a query that is not deprecated has its title for a summary. -/
theorem titled_description_summary {n d : String} (hn : isName n = true)
    (hverb : ∀ v ∈ actionVerbs, beginsWith d v = false) :
    (summarise (titledDescription n d)).summary = title n ∧
    (summarise (titledDescription n d)).description =
      (if d = "" then title n else trim (title n ++ " - " ++ d)) ∧
    ∀ (g : TypeGraph) (f : Field), f.name = n → f.description.getD "" = d →
      isDeprecated f.directives = false → (queryOperation g f).summary = some (title n) := by
  have hsummarise : summarise (titledDescription n d) =
      ⟨title n, if d = "" then title n else trim (title n ++ " - " ++ d)⟩ := by
    by_cases hd : d = ""
    · rw [hd, titledDescription_empty, summarise_title hn, if_pos rfl]
    · rw [titledDescription_of_no_verb hd hverb, summarise_title_append hn, if_neg hd]
  refine ⟨by rw [hsummarise], by rw [hsummarise], ?_⟩
  rintro g f rfl rfl hdeprecated
  rw [summary_queryOperation hdeprecated, summarised, hsummarise]

/-- A query whose description is full of delimiters. -/
def findX1 : Field :=
  { name := "_findX1"
    description := some " - x1. Really: all! "
    arguments := []
    type := .named "String" false
    directives := [] }

theorem findX1_summary : isName findX1.name = true ∧
    (∀ v ∈ actionVerbs, beginsWith " - x1. Really: all! " v = false) ∧
    summarise (titledDescription findX1.name " - x1. Really: all! ") =
      ⟨"_find X1", "_find X1 -  - x1. Really: all!"⟩ ∧
    ∀ g, (queryOperation g findX1).summary = some "_find X1" := by
  have hn : isName findX1.name = true := by decide
  have hverb : ∀ v ∈ actionVerbs, beginsWith " - x1. Really: all! " v = false := by decide +kernel
  obtain ⟨hsummary, hdescription, hquery⟩ := titled_description_summary hn hverb
  have htitle : title findX1.name = "_find X1" := by decide
  have htrim : trim (title findX1.name ++ " - " ++ " - x1. Really: all! ") =
      "_find X1 -  - x1. Really: all!" := by decide +kernel
  rw [if_neg (by decide), htrim] at hdescription
  rw [htitle] at hsummary hquery
  refine ⟨hn, hverb, ?_, fun g => hquery g findX1 rfl rfl rfl⟩
  rw [← hsummary, ← hdescription]

end GraphRest
