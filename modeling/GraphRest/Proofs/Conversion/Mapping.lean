import GraphRest.Conversion.TypeRole
import GraphRest.Proofs.Document.Schemas

/-!
# What types are mapped to

A named type is mapped to a reference to its component or to a plain type, as its role has it, and a list
to an array of what its elements are mapped to. Types set no bounds.
-/

namespace GraphRest

open Sdl

/-- Whether a type of the role is referred to where it is used, rather than written out. -/
def TypeRole.isReferenced : TypeRole → Bool
  | builtInScalar => false
  | customScalar => false
  | root => false
  | _ => true

/-- A type reference that allows null everywhere. -/
def Sdl.TypeRef.shape : TypeRef → TypeRef
  | named name _ => .named name false
  | list element _ => .list element.shape false

namespace Sdl.TypeGraph

variable {g : TypeGraph} {n m : String}

theorem role_of_scalar {f : Fragment} (h : scalarFragment? n = some f) :
    g.role n = .builtInScalar := by
  rw [role, h]
  rfl

theorem isReferenced_iff : (g.role n).isReferenced = true ↔ scalarFragment? n = none ∧
    g.roots.contains n = false ∧ ∃ d, g.type? n = some d ∧ d.body.kind ≠ .scalar := by
  unfold role
  cases scalarFragment? n with
  | some f => simp [TypeRole.isReferenced]
  | none =>
      cases g.roots.contains n with
      | true => simp [TypeRole.isReferenced]
      | false =>
          cases g.type? n with
          | none => simp [TypeRole.isReferenced]
          | some d => cases hk : d.body.kind <;> simp [TypeRole.ofKind, TypeRole.isReferenced, hk]

theorem isScalar_or_isReferenced_ofKind (k : Kind) :
    (TypeRole.ofKind k).isScalar = true ∨ (TypeRole.ofKind k).isReferenced = true := by
  cases k <;> decide

/-- Of the types that are no scalars all but the roots are referred to. -/
theorem isReferenced_iff_not_root (h : (g.role n).isScalar = false) :
    (g.role n).isReferenced = true ↔ g.roots.contains n = false := by
  constructor
  · exact fun href => (isReferenced_iff.1 href).2.1
  · intro hroot
    unfold role at h ⊢
    rw [hroot] at h ⊢
    cases hs : scalarFragment? n with
    | some f => rw [hs] at h; cases h
    | none =>
        rw [hs] at h
        cases ht : g.type? n with
        | none => rw [ht] at h; cases h
        | some d =>
            rw [ht] at h
            exact (isScalar_or_isReferenced_ofKind d.body.kind).resolve_left
              (ne_true_of_eq_false h)

theorem parts_of_scalar {f : Fragment} (h : scalarFragment? n = some f) :
    Fragment.SameParts f {} := by
  unfold scalarFragment? at h
  split at h <;> cases h <;> exact ⟨rfl, rfl, rfl, rfl⟩

theorem namedFragment_of_isReferenced (h : (g.role n).isReferenced = true) :
    g.namedFragment n = .referTo n := by
  unfold namedFragment
  cases hs : scalarFragment? n with
  | some f => rw [role_of_scalar hs] at h; cases h
  | none =>
      dsimp only
      cases hr : g.role n <;> first | rfl | (rw [hr] at h; cases h)

theorem parts_namedFragment (h : (g.role n).isReferenced = false) :
    Fragment.SameParts (g.namedFragment n) {} := by
  unfold namedFragment
  cases hs : scalarFragment? n with
  | some f => exact parts_of_scalar hs
  | none =>
      dsimp only
      cases hr : g.role n <;> first | exact ⟨rfl, rfl, rfl, rfl⟩ | (rw [hr] at h; cases h)

theorem references_namedFragment (g : TypeGraph) (n : String) : (g.namedFragment n).references =
    if (g.role n).isReferenced then [Fragment.componentPrefix ++ n] else [] := by
  cases h : (g.role n).isReferenced with
  | true => rw [namedFragment_of_isReferenced h, Fragment.references_referTo]; rfl
  | false => rw [(parts_namedFragment h).references_eq]; rfl

theorem references_fragment (g : TypeGraph) (t : TypeRef) :
    (g.fragment t).references = (g.namedFragment t.innermost).references := by
  induction t with
  | named n nonNull => rfl
  | list element nonNull ih => rw [fragment, Fragment.references_array, ih, TypeRef.innermost]

/-! ## Bounds -/

theorem ownBounds_of_scalar {f : Fragment} (h : scalarFragment? n = some f) : f.ownBounds = [] := by
  unfold scalarFragment? at h
  split at h <;> cases h <;> rfl

theorem ownBounds_namedFragment (g : TypeGraph) (n : String) : (g.namedFragment n).ownBounds = [] := by
  unfold namedFragment
  cases hs : scalarFragment? n with
  | some f => exact ownBounds_of_scalar hs
  | none => cases g.role n <;> rfl

theorem bounds_namedFragment (g : TypeGraph) (n : String) : (g.namedFragment n).bounds = [] := by
  cases h : (g.role n).isReferenced with
  | true => rw [namedFragment_of_isReferenced h, Fragment.bounds_referTo]
  | false =>
      rw [Fragment.bounds_eq, (parts_namedFragment h).parts, ownBounds_namedFragment]
      rfl

theorem bounds_fragment (g : TypeGraph) (t : TypeRef) : (g.fragment t).bounds = [] := by
  induction t with
  | named n _ => exact g.bounds_namedFragment n
  | list element _ ih => rw [fragment, Fragment.bounds_array, ih]

/-! ## Equal fragments -/

theorem items_namedFragment (g : TypeGraph) (n : String) : (g.namedFragment n).items = none := by
  cases h : (g.role n).isReferenced with
  | true => rw [namedFragment_of_isReferenced h]; rfl
  | false => exact (parts_namedFragment h).items

theorem namedFragment_eq_iff (h : (g.role n).isReferenced = true) :
    g.namedFragment m = g.namedFragment n ↔ m = n := by
  constructor
  · intro heq
    rw [namedFragment_of_isReferenced h] at heq
    cases hm : (g.role m).isReferenced with
    | true =>
        rw [namedFragment_of_isReferenced hm] at heq
        have href := congrArg Fragment.reference heq
        simpa [Fragment.referTo, String.append_right_inj] using href
    | false =>
        have href := congrArg Fragment.reference heq
        rw [(parts_namedFragment hm).reference] at href
        cases href
  · rintro rfl
    rfl

/-- Types with a component are mapped alike just if they differ in what excludes null. -/
theorem fragment_eq_iff {t t' : TypeRef} (h : (g.role t.innermost).isReferenced = true) :
    g.fragment t = g.fragment t' ↔ t.shape = t'.shape := by
  induction t generalizing t' with
  | named n _ =>
      cases t' with
      | named m _ =>
          have hn : g.namedFragment m = g.namedFragment n ↔ m = n := namedFragment_eq_iff h
          rw [fragment, fragment, eq_comm, hn]
          simp only [TypeRef.shape, TypeRef.named.injEq, and_true, eq_comm]
      | list element' _ =>
          constructor
          · intro heq
            have hitems := congrArg Fragment.items heq
            rw [fragment, items_namedFragment] at hitems
            cases hitems
          · intro hshape
            cases hshape
  | list element _ ih =>
      cases t' with
      | named m _ =>
          constructor
          · intro heq
            have hitems := congrArg Fragment.items heq
            rw [fragment, fragment, items_namedFragment] at hitems
            cases hitems
          · intro hshape
            cases hshape
      | list element' _ =>
          have harray : ∀ f f' : Fragment, Fragment.array f = .array f' ↔ f = f' := by
            simp [Fragment.array]
          rw [fragment, fragment, harray, ih h]
          simp only [TypeRef.shape, TypeRef.list.injEq, and_true]

end Sdl.TypeGraph

end GraphRest
