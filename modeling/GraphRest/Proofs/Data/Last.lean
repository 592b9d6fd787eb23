import Mathlib.Data.List.Induction

/-!
# Last members of lists

Where later writes replace earlier ones, it is the last member with some property that counts, and what a
run of writes leaves is its last one.
-/

namespace GraphRest

variable {α : Type} {P : α → Prop} {xs : List α} {x : α}

/-- Of the members of a list with some property there is a last one. -/
theorem exists_last (hx : x ∈ xs) (h : P x) :
    ∃ pre y post, xs = pre ++ y :: post ∧ P y ∧ (∀ z ∈ post, ¬ P z) ∧ (x = y ∨ x ∈ pre) := by
  induction xs using List.reverseRecOn with
  | nil => cases hx
  | append_singleton xs y ih =>
      by_cases hy : P y
      · refine ⟨xs, y, [], rfl, hy, fun z hz => absurd hz List.not_mem_nil, ?_⟩
        rcases List.mem_append.1 hx with hx | hx
        · exact Or.inr hx
        · exact Or.inl (List.mem_singleton.1 hx)
      · have hmem : x ∈ xs := by
          rcases List.mem_append.1 hx with hx | hx
          · exact hx
          · exact absurd (List.mem_singleton.1 hx ▸ h) hy
        obtain ⟨pre, z, post, rfl, hz, hpost, hpre⟩ := ih hmem
        refine ⟨pre, z, post ++ [y], List.append_assoc .., hz, ?_, hpre⟩
        intro w hw
        rcases List.mem_append.1 hw with hw | hw
        · exact hpost w hw
        · exact List.mem_singleton.1 hw ▸ hy

/-- A member of a list is the last one with some property. -/
def IsLast (P : α → Prop) (xs : List α) (x : α) : Prop :=
  ∃ pre post, xs = pre ++ x :: post ∧ P x ∧ ∀ y ∈ post, ¬ P y

theorem IsLast.congr {Q : α → Prop} (hPQ : ∀ x, P x ↔ Q x) (h : IsLast P xs x) : IsLast Q xs x := by
  obtain ⟨pre, post, heq, hx, hpost⟩ := h
  exact ⟨pre, post, heq, (hPQ x).1 hx, fun y hy hq => hpost y hy ((hPQ y).2 hq)⟩

theorem IsLast.map {β : Type} {Q : β → Prop} {f : α → β} (hPQ : ∀ x, P x ↔ Q (f x))
    (h : IsLast P xs x) : IsLast Q (xs.map f) (f x) := by
  obtain ⟨pre, post, rfl, hx, hpost⟩ := h
  refine ⟨pre.map f, post.map f, List.map_append, (hPQ x).1 hx, ?_⟩
  intro b hb
  obtain ⟨y, hy, rfl⟩ := List.mem_map.1 hb
  exact fun hq => hpost y hy ((hPQ y).2 hq)

theorem exists_isLast (hx : x ∈ xs) (h : P x) : ∃ y, IsLast P xs y := by
  obtain ⟨pre, y, post, heq, hy, hpost, -⟩ := exists_last hx h
  exact ⟨y, pre, post, heq, hy, hpost⟩

theorem IsLast.mem (h : IsLast P xs x) : x ∈ xs := by
  obtain ⟨pre, post, rfl, -, -⟩ := h
  exact List.mem_append_right _ List.mem_cons_self

theorem IsLast.prop (h : IsLast P xs x) : P x := by
  obtain ⟨_, _, -, hx, -⟩ := h
  exact hx

theorem IsLast.eq {y : α} (h : IsLast P xs x) (h' : IsLast P xs y) : x = y := by
  obtain ⟨pre, post, rfl, hx, hpost⟩ := h
  obtain ⟨pre', post', heq, hy, hpost'⟩ := h'
  -- Were one of the two further in front, it would have the other one behind it.
  rcases List.append_eq_append_iff.1 heq with ⟨mid, -, hmid⟩ | ⟨mid, -, hmid⟩
  · cases mid with
    | nil => exact (List.cons.inj hmid).1
    | cons z mid =>
        obtain ⟨-, rfl⟩ := List.cons.inj hmid
        exact absurd hy (hpost y (List.mem_append_right _ List.mem_cons_self))
  · cases mid with
    | nil => exact (List.cons.inj hmid).1.symm
    | cons z mid =>
        obtain ⟨-, rfl⟩ := List.cons.inj hmid
        exact absurd hx (hpost' x (List.mem_append_right _ List.mem_cons_self))

/-- Every member with some property is the last one in some order of the list. -/
theorem exists_perm_isLast (hx : x ∈ xs) (h : P x) : ∃ ys, ys.Perm xs ∧ IsLast P ys x := by
  obtain ⟨pre, post, rfl⟩ := List.append_of_mem hx
  refine ⟨pre ++ post ++ [x], ?_, pre ++ post, [], rfl, h, fun y hy => absurd hy List.not_mem_nil⟩
  exact (List.perm_append_singleton x (pre ++ post)).trans List.perm_middle.symm

/-- The last of the values that members of a list have is that of the last member with one. -/
theorem exists_isLast_of_getLast? {β : Type} {f : α → Option β} {b : β}
    (h : (xs.filterMap f).getLast? = some b) :
    ∃ x, IsLast (fun x => (f x).isSome) xs x ∧ f x = some b := by
  obtain ⟨x, hx, hfx⟩ := List.mem_filterMap.1 (List.mem_of_getLast? h)
  obtain ⟨y, pre, post, rfl, hy, hpost⟩ :=
    exists_isLast (P := fun x => (f x).isSome) hx (by simp [hfx])
  refine ⟨y, ⟨pre, post, rfl, hy, hpost⟩, ?_⟩
  have hnone : post.filterMap f = [] :=
    List.filterMap_eq_nil_iff.2 fun z hz => by simpa using hpost z hz
  obtain ⟨b', hb'⟩ := Option.isSome_iff_exists.1 hy
  rw [List.filterMap_append, List.filterMap_cons_some hb', hnone, List.getLast?_concat] at h
  rw [hb', h]

/-! ## Runs of writes -/

theorem getLast?_filterMap_concat {β : Type} (f : α → Option β) (xs : List α) (x : α) (b : Option β) :
    ((xs ++ [x]).filterMap f).getLast?.or b = (f x).or ((xs.filterMap f).getLast?.or b) := by
  rw [List.filterMap_append, List.getLast?_append, Option.or_assoc]
  cases hx : f x with
  | none => rw [List.filterMap_cons_none hx]; rfl
  | some y => rw [List.filterMap_cons_some hx]; rfl

/-- Where each step writes over what was there before, the last write of a run stays. -/
theorem foldl_eq_getLast?_or {σ β : Type} {step : σ → α → σ} {write? : α → Option β}
    (read : σ → Option β) (h : ∀ s x, read (step s x) = (write? x).or (read s))
    (xs : List α) (s : σ) :
    read (xs.foldl step s) = (xs.filterMap write?).getLast?.or (read s) := by
  induction xs using List.reverseRecOn with
  | nil => rfl
  | append_singleton xs x ih =>
      rw [List.foldl_append, List.foldl_cons, List.foldl_nil, h, ih, getLast?_filterMap_concat]

end GraphRest
