import GraphRest.Proofs.Endpoint.Place

/-!
# Arguments of streams

The route of a subscription and its parameters are made in two passes over its arguments. Both pick the
same one for the path: the first that excludes null.
-/

namespace GraphRest.Endpoint

open Sdl

/-- The first argument that excludes null stands at some position. -/
structure FirstRequired (as : List InputValue) (i : Nat) : Prop where
  required : ∃ a, as[i]? = some a ∧ a.type.isNonNull = true
  earlier : ∀ j < i, ∀ b, as[j]? = some b → b.type.isNonNull = false

/-- A parameter declares the argument at some position: in the path if this is the first one that excludes
null, or else in the query, where a list is spread. -/
structure Declares (g : TypeGraph) (as : List InputValue) (i : Nat) (a : InputValue) (q : Parameter) :
    Prop where
  name : q.name = a.name
  schema : q.schema = some (g.fragment a.type)
  inPath : q.location = .path ↔ FirstRequired as i
  inQuery : q.location = .query ↔ ¬ FirstRequired as i
  required : q.required = a.type.isNonNull
  explode : q.explode = true ↔ q.location = .query ∧ a.type.isList = true
  style : q.style = if q.explode then some "form" else none

/-- An endpoint has the first argument of a field that excludes null in its path, if there is one, and
declares each argument by one parameter, in order. -/
structure PlacesFirstRequired (g : TypeGraph) (f : Field) (e : Endpoint) : Prop where
  plain_iff : e.route = nameRoute f.name ↔ ∀ a ∈ f.arguments, a.type.isNonNull = false
  placed_iff : (∃ n, e.route = nameRoute f.name ++ "/" ++ placeholder n) ↔
    ∃ a ∈ f.arguments, a.type.isNonNull = true
  placed_first : ∀ n, e.route = nameRoute f.name ++ "/" ++ placeholder n ↔
    ∃ i a, FirstRequired f.arguments i ∧ f.arguments[i]? = some a ∧ a.name = n
  length : e.operation.parameters.length = f.arguments.length
  declares : ∀ i a, f.arguments[i]? = some a →
    ∃ q, e.operation.parameters[i]? = some q ∧ Declares g f.arguments i a q

variable {g : TypeGraph} {f : Field} {a b : InputValue} {as : List InputValue} {i : Nat}

/-! ## The first required argument -/

theorem firstRequired_zero : FirstRequired (a :: as) 0 ↔ a.type.isNonNull = true := by
  constructor
  · rintro ⟨⟨b, hb, hrequired⟩, -⟩
    cases hb
    exact hrequired
  · intro h
    exact ⟨⟨a, rfl, h⟩, nofun⟩

theorem firstRequired_succ :
    FirstRequired (a :: as) (i + 1) ↔ a.type.isNonNull = false ∧ FirstRequired as i := by
  constructor
  · rintro ⟨hrequired, hearlier⟩
    refine ⟨hearlier 0 (Nat.succ_pos i) a rfl, hrequired, ?_⟩
    intro j hj
    exact hearlier (j + 1) (Nat.succ_lt_succ hj)
  · rintro ⟨ha, hrequired, hearlier⟩
    refine ⟨hrequired, ?_⟩
    intro j hj b hb
    cases j with
    | zero => cases hb; exact ha
    | succ j => exact hearlier j (Nat.lt_of_succ_lt_succ hj) b hb

/-- The argument that the search for a required one finds is the first of them. -/
theorem find?_eq_some_iff_firstRequired :
    as.find? (·.type.isNonNull) = some a ↔ ∃ i, FirstRequired as i ∧ as[i]? = some a := by
  induction as with
  | nil => simp
  | cons b as ih =>
      cases hb : b.type.isNonNull with
      | true =>
          rw [List.find?_cons_of_pos (by exact hb)]
          constructor
          · rintro ⟨⟩
            exact ⟨0, firstRequired_zero.2 hb, rfl⟩
          · rintro ⟨i, hi, ha⟩
            cases i with
            | zero => exact ha
            | succ i => simp [firstRequired_succ, hb] at hi
      | false =>
          rw [List.find?_cons_of_neg (by simp [hb]), ih]
          constructor
          · rintro ⟨i, hi, ha⟩
            exact ⟨i + 1, firstRequired_succ.2 ⟨hb, hi⟩, ha⟩
          · rintro ⟨i, hi, ha⟩
            cases i with
            | zero => simp [firstRequired_zero, hb] at hi
            | succ i => exact ⟨i, (firstRequired_succ.1 hi).2, ha⟩

/-! ## Routes -/

theorem placeholder_inj {n n' : String} (h : placeholder n = placeholder n') : n = n' := by
  rw [placeholder, placeholder, String.append_assoc, String.append_assoc, String.append_right_inj,
    String.append_left_inj] at h
  exact h

/-- A name alone is shorter than one with a placeholder behind it. -/
theorem nameRoute_ne_placed (n n' : String) : nameRoute n ≠ nameRoute n ++ "/" ++ placeholder n' := by
  intro h
  have hlength := congrArg (fun t => t.toList.length) h
  simp [toList_placeholder] at hlength

theorem subscriptionRoute_eq (f : Field) : subscriptionRoute f =
    (pathArgument? f).elim (nameRoute f.name)
      fun a => nameRoute f.name ++ "/" ++ placeholder a.name := by
  rw [subscriptionRoute]
  cases pathArgument? f <;> rfl

theorem subscriptionRoute_plain_iff :
    subscriptionRoute f = nameRoute f.name ↔ ∀ a ∈ f.arguments, a.type.isNonNull = false := by
  have hnone : pathArgument? f = none ↔ ∀ a ∈ f.arguments, a.type.isNonNull = false := by
    simp [pathArgument?]
  rw [← hnone, subscriptionRoute_eq]
  cases pathArgument? f with
  | none => simp
  | some a => simpa using (nameRoute_ne_placed f.name a.name).symm

theorem subscriptionRoute_placed_iff {n : String} :
    subscriptionRoute f = nameRoute f.name ++ "/" ++ placeholder n ↔
      ∃ a, pathArgument? f = some a ∧ a.name = n := by
  rw [subscriptionRoute_eq]
  cases pathArgument? f with
  | none => simpa using nameRoute_ne_placed f.name n
  | some a =>
      simp only [Option.elim_some, String.append_right_inj, Option.some.injEq, exists_eq_left']
      exact ⟨placeholder_inj, congrArg placeholder⟩

/-! ## Parameters -/

theorem streamParameters_of_placed (as : List InputValue) :
    streamParameters g true as = as.map (parameter g .query) := by
  induction as with
  | nil => rfl
  | cons a as ih => simp [streamParameters, ih]

theorem length_streamParameters (placed : Bool) (as : List InputValue) :
    (streamParameters g placed as).length = as.length := by
  induction as generalizing placed with
  | nil => rfl
  | cons a as ih =>
      rw [streamParameters]
      split <;> simp [ih]

/-- What is declared at a position, in the path just if no argument in front of it excludes null, but this
one does. -/
theorem getElem?_streamParameters (ha : as[i]? = some a) :
    (FirstRequired as i ∧ (streamParameters g false as)[i]? = some (parameter g .path a)) ∨
      (¬ FirstRequired as i ∧ (streamParameters g false as)[i]? = some (parameter g .query a)) := by
  induction as generalizing i with
  | nil => cases ha
  | cons b as ih =>
      cases hb : b.type.isNonNull with
      | true =>
          rw [streamParameters, hb, if_pos (by decide), streamParameters_of_placed]
          cases i with
          | zero => cases ha; exact .inl ⟨firstRequired_zero.2 hb, rfl⟩
          | succ i =>
              refine .inr ⟨by simp [firstRequired_succ, hb], ?_⟩
              rw [List.getElem?_cons_succ] at ha ⊢
              rw [List.getElem?_map, ha, Option.map_some]
      | false =>
          rw [streamParameters, hb, if_neg (by decide)]
          cases i with
          | zero => cases ha; exact .inr ⟨by simp [firstRequired_zero, hb], rfl⟩
          | succ i => simpa [firstRequired_succ, hb] using ih ha

theorem declares_parameter_path (h : FirstRequired as i) (ha : as[i]? = some a) :
    Declares g as i a (parameter g .path a) := by
  obtain ⟨b, hb, hrequired⟩ := h.required
  rw [ha] at hb
  cases hb
  exact ⟨rfl, rfl, by simp [parameter, h], by simp [parameter, h], by simp [parameter, hrequired],
    by simp [parameter], rfl⟩

theorem declares_parameter_query (h : ¬ FirstRequired as i) :
    Declares g as i a (parameter g .query a) :=
  ⟨rfl, rfl, by simp [parameter, h], by simp [parameter, h], by simp [parameter], by simp [parameter],
    rfl⟩

theorem placesFirstRequired_subscriptionEndpoint (g : TypeGraph) (f : Field) :
    PlacesFirstRequired g f (subscriptionEndpoint g f) where
  plain_iff := subscriptionRoute_plain_iff
  placed_iff := by
    have hsome : (∃ a, pathArgument? f = some a) ↔ ∃ a ∈ f.arguments, a.type.isNonNull = true := by
      rw [← Option.isSome_iff_exists, pathArgument?, List.find?_isSome]
    rw [← hsome]
    exact (exists_congr fun n => subscriptionRoute_placed_iff).trans (by simp)
  placed_first n := by
    refine subscriptionRoute_placed_iff.trans ?_
    simp only [pathArgument?, find?_eq_some_iff_firstRequired]
    constructor
    · rintro ⟨a, ⟨i, hi, ha⟩, hn⟩
      exact ⟨i, a, hi, ha, hn⟩
    · rintro ⟨i, a, hi, ha, hn⟩
      exact ⟨a, ⟨i, hi, ha⟩, hn⟩
  length := length_streamParameters false f.arguments
  declares i a ha := by
    rcases getElem?_streamParameters ha with ⟨h, hq⟩ | ⟨h, hq⟩
    · exact ⟨_, hq, declares_parameter_path h ha⟩
    · exact ⟨_, hq, declares_parameter_query h⟩

/-- The endpoint of a stream has the first argument that excludes null in its path, and it is this one that
its operation declares there; all others are declared in the query. Every field has such an endpoint, but
for those with a reserved name. -/
theorem streams_place_first_required (g : TypeGraph) (fields : List Field) :
    (∀ f, PlacesFirstRequired g f (subscriptionEndpoint g f)) ∧
    ∀ e, e ∈ subscriptions g fields ↔
      ∃ f ∈ fields, isReservedName f.name = false ∧ e = subscriptionEndpoint g f := by
  refine ⟨placesFirstRequired_subscriptionEndpoint g, fun e => ?_⟩
  simp only [subscriptions, List.mem_map, List.mem_filter, Bool.not_eq_true', and_assoc]
  exact exists_congr fun f => and_congr_right' (and_congr_right' eq_comm)

end GraphRest.Endpoint
