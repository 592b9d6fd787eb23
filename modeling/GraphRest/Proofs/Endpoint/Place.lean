import GraphRest.Conversion.Basic
import GraphRest.Proofs.Document.Writes
import GraphRest.Proofs.Sdl.Lawful
import GraphRest.Proofs.Sdl.Names
import Mathlib.Data.List.Basic

/-!
# Places of endpoints

Routes come in three forms, told apart by how many slashes they have. As names have no slash, the form
and the names in it can be read off a route again.
-/

namespace GraphRest

open Sdl

/-! ## Names in routes -/

section Names

variable {g : TypeGraph} {f : Field}

theorem isName_of_mem_rootFields (hg : g.Lawful) {root : Option String}
    (hf : f ∈ (g.rootFields root).getD []) : isName f.name = true :=
  (hg.rootFields root).2 f hf f.name List.mem_cons_self

theorem isName_of_mem_arguments (hg : g.Lawful) {root : Option String}
    (hf : f ∈ (g.rootFields root).getD []) {a : InputValue} (ha : a ∈ f.arguments) :
    isName a.name = true := by
  refine (hg.rootFields root).2 f hf a.name ?_
  exact List.mem_cons_of_mem _ (List.mem_cons_of_mem _
    (List.mem_flatMap.2 ⟨a, ha, List.mem_cons_self⟩))

theorem isName_of_mem_members (hg : g.Lawful) {d : TypeDefinition} {is : List String}
    {fs : List Field} (hd : d ∈ g.types) (hb : d.body = .object is fs) (hf : f ∈ fs) :
    isName f.name = true := by
  refine hg.legal_names d (List.mem_append_left _ hd) f.name ?_
  rw [hb]
  exact List.mem_cons_of_mem _ (List.mem_append_right _
    (List.mem_flatMap.2 ⟨f, hf, List.mem_cons_self⟩))

end Names

/-! ## Cutting at a character -/

theorem cut_first_inj {c : Char} {x x' y y' : List Char} (hx : c ∉ x) (hx' : c ∉ x')
    (h : x ++ c :: y = x' ++ c :: y') : x = x' ∧ y = y' := by
  induction x generalizing x' with
  | nil =>
      cases x' with
      | nil => exact ⟨rfl, (List.cons.inj h).2⟩
      | cons b x' => exact absurd ((List.cons.inj h).1 ▸ List.mem_cons_self) hx'
  | cons a x ih =>
      cases x' with
      | nil => exact absurd ((List.cons.inj h).1 ▸ List.mem_cons_self) hx
      | cons b x' =>
          obtain ⟨hab, hrest⟩ := List.cons.inj h
          obtain ⟨rfl, hy⟩ := ih (List.not_mem_of_not_mem_cons hx)
            (List.not_mem_of_not_mem_cons hx') hrest
          exact ⟨by rw [hab], hy⟩

theorem cut_last_inj {c : Char} {x x' y y' : List Char} (hy : c ∉ y) (hy' : c ∉ y')
    (h : x ++ c :: y = x' ++ c :: y') : x = x' ∧ y = y' := by
  have hr := congrArg List.reverse h
  simp only [List.reverse_append, List.reverse_cons, List.append_assoc, List.cons_append,
    List.nil_append] at hr
  obtain ⟨h1, h2⟩ := cut_first_inj (by simpa using hy) (by simpa using hy') hr
  exact ⟨List.reverse_inj.1 h2, List.reverse_inj.1 h1⟩

namespace Endpoint

theorem slashMark : "/".toList = ['/'] := rfl

theorem toList_nameRoute (n : String) : (nameRoute n).toList = '/' :: n.toList := by
  simp [nameRoute]

theorem toList_placeholder (n : String) :
    (placeholder n).toList = '{' :: (n.toList ++ ['}']) := by
  simp [placeholder]

/-! ## Places -/

/-- A form of route, with the names in it and the method. -/
inductive Place where
  /-- A name: a query, a mutation or a stream, or the collection of a resource. -/
  | atName (method : Method) (name : String)
  /-- A parameter below a name. -/
  | below (method : Method) (name argument : String)
  /-- A list below an item of the collection of its owner. -/
  | member (collection field : String)

namespace Place

/-- The route and the method of a place. -/
def slot : Place → String × Method
  | atName method name => (nameRoute name, method)
  | below method name argument => (nameRoute name ++ "/" ++ placeholder argument, method)
  | member collection field => (itemRoute collection ++ nameRoute field, .get)

/-- Whether the names of a place have no slash. The collection of an owner may have some, as the rules
for plurals are free to add any text. -/
def Legal : Place → Prop
  | atName _ name => '/' ∉ name.toList
  | below _ name argument => '/' ∉ name.toList ∧ '/' ∉ argument.toList
  | member _ field => '/' ∉ field.toList

/-- The names of fields and arguments in a place. -/
def names : Place → List String
  | atName _ name => [name]
  | below _ name argument => [name, argument]
  | member _ field => [field]

theorem legal_of_names {p : Place} (h : ∀ n ∈ p.names, isName n = true) : p.Legal := by
  have hslash : ∀ n ∈ p.names, '/' ∉ n.toList := fun n hn => not_mem_of_isName (h n hn) (by decide)
  cases p with
  | atName m n => exact hslash n (by simp [names])
  | below m n a => exact ⟨hslash n (by simp [names]), hslash a (by simp [names])⟩
  | member c f => exact hslash f (by simp [names])

/-- How many slashes a route has. -/
def slashes (p : Place) : Nat := p.slot.1.toList.count '/'

theorem slashes_atName {m : Method} {n : String} (h : (atName m n).Legal) :
    (atName m n).slashes = 1 := by
  have h0 : n.toList.count '/' = 0 := List.count_eq_zero.2 h
  simp [slashes, slot, toList_nameRoute, h0]

theorem slashes_below {m : Method} {n a : String} (h : (below m n a).Legal) :
    (below m n a).slashes = 2 := by
  have hn : n.toList.count '/' = 0 := List.count_eq_zero.2 h.1
  have ha : a.toList.count '/' = 0 := List.count_eq_zero.2 h.2
  simp [slashes, slot, toList_nameRoute, toList_placeholder, hn, ha]

theorem slashes_member (c f : String) : 3 ≤ (member c f).slashes := by
  simp [slashes, slot, itemRoute, toList_nameRoute, toList_placeholder]
  omega

theorem below_inj {m m' : Method} {n n' a a' : String} (h : (below m n a).Legal)
    (h' : (below m' n' a').Legal) (heq : (below m n a).slot = (below m' n' a').slot) :
    below m n a = below m' n' a' := by
  simp only [slot, Prod.mk.injEq] at heq
  obtain ⟨hroute, rfl⟩ := heq
  have hl := congrArg String.toList hroute
  simp only [String.toList_append, toList_nameRoute, toList_placeholder, slashMark,
    List.cons_append, List.append_assoc, List.nil_append, List.cons.injEq, true_and] at hl
  obtain ⟨hn, ha⟩ := cut_first_inj h.1 h'.1 hl
  simp only [List.cons.injEq, true_and, List.append_cancel_right_eq] at ha
  rw [String.toList_inj.1 hn, String.toList_inj.1 ha]

theorem member_inj {c c' f f' : String} (h : (member c f).Legal) (h' : (member c' f').Legal)
    (heq : (member c f).slot = (member c' f').slot) : member c f = member c' f' := by
  simp only [slot, Prod.mk.injEq, and_true] at heq
  have hl := congrArg String.toList heq
  rw [String.toList_append, String.toList_append, toList_nameRoute, toList_nameRoute] at hl
  obtain ⟨hc, hf⟩ := cut_last_inj h h' hl
  have hc : itemRoute c = itemRoute c' := String.toList_inj.1 hc
  simp only [itemRoute, nameRoute, String.append_left_inj, String.append_right_inj] at hc
  rw [hc, String.toList_inj.1 hf]

/-- Two places have the same form of route. -/
inductive SameForm : Place → Place → Prop where
  | atName {m m' n n'} : SameForm (atName m n) (atName m' n')
  | below {m m' n n' a a'} : SameForm (below m n a) (below m' n' a')
  | member {c c' f f'} : SameForm (member c f) (member c' f')

/-- The number of slashes tells the forms apart. -/
theorem sameForm_of_slashes_eq {p p' : Place} (h : p.Legal) (h' : p'.Legal)
    (hcount : p.slashes = p'.slashes) : SameForm p p' := by
  cases p with
  | atName m n =>
      rw [slashes_atName h] at hcount
      cases p' with
      | atName m' n' => exact .atName
      | below m' n' a' => rw [slashes_below h'] at hcount; omega
      | member c' f' => have := slashes_member c' f'; omega
  | below m n a =>
      rw [slashes_below h] at hcount
      cases p' with
      | atName m' n' => rw [slashes_atName h'] at hcount; omega
      | below m' n' a' => exact .below
      | member c' f' => have := slashes_member c' f'; omega
  | member c f =>
      have hthree := slashes_member c f
      cases p' with
      | atName m' n' => rw [slashes_atName h'] at hcount; omega
      | below m' n' a' => rw [slashes_below h'] at hcount; omega
      | member c' f' => exact .member

theorem slot_inj {p p' : Place} (h : p.Legal) (h' : p'.Legal) (heq : p.slot = p'.slot) : p = p' := by
  have hcount : p.slashes = p'.slashes := by rw [slashes, slashes, heq]
  cases sameForm_of_slashes_eq h h' hcount with
  | atName =>
      simp only [slot, nameRoute, Prod.mk.injEq, String.append_right_inj] at heq
      rw [heq.1, heq.2]
  | below => exact below_inj h h' heq
  | member => exact member_inj h h' heq

/-! ## Routes of one form -/

/-- Only a parameter `id` below a name has the route of an item. The collection may be any text. -/
theorem eq_below_of_itemRoute {p : Place} {collection : String}
    (hnames : ∀ n ∈ p.names, isName n = true) (h : p.slot.1 = itemRoute collection) :
    ∃ m, p = .below m collection "id" := by
  have hslash : ∀ {n}, isName n = true → '/' ∉ n.toList := fun hn => not_mem_of_isName hn (by decide)
  have hlist := congrArg String.toList h
  simp only [itemRoute, String.toList_append, toList_nameRoute, toList_placeholder, slashMark] at hlist
  -- The collection may have slashes, so the routes are compared from their last one.
  have hid : '/' ∉ '{' :: ("id".toList ++ ['}']) := by decide
  cases p with
  | atName m n =>
      have hcount := congrArg (List.count '/') hlist
      have hn : n.toList.count '/' = 0 :=
        List.count_eq_zero.2 (hslash (hnames n (by simp [names])))
      simp [slot, toList_nameRoute, hn] at hcount
  | below m n a =>
      have ha : '/' ∉ '{' :: (a.toList ++ ['}']) := by
        simpa using hslash (hnames a (by simp [names]))
      simp only [slot, String.toList_append, toList_nameRoute, toList_placeholder, slashMark,
        List.append_assoc, List.singleton_append] at hlist
      obtain ⟨hn, harg⟩ := cut_last_inj ha hid hlist
      simp only [List.cons.injEq, true_and, List.append_cancel_right_eq] at hn harg
      exact ⟨m, by rw [String.toList_inj.1 hn, String.toList_inj.1 harg]⟩
  | member c f =>
      have hf : isName f = true := hnames f (by simp [names])
      simp only [slot, String.toList_append, toList_nameRoute, List.append_assoc,
        List.singleton_append] at hlist
      obtain ⟨-, hfield⟩ := cut_last_inj (hslash hf) hid hlist
      have hbrace : '{' ∉ f.toList := not_mem_of_isName hf (by decide)
      exact absurd (hfield ▸ List.mem_cons_self) hbrace

/-- The route of a place with nothing in its braces. -/
def shape : Place → String
  | atName _ name => nameRoute name
  | below _ name _ => nameRoute name ++ "/" ++ placeholder ""
  | member collection field => nameRoute collection ++ "/" ++ placeholder "" ++ nameRoute field

theorem count_shape {p : Place} (h : p.Legal) : p.shape.toList.count '/' = p.slashes := by
  cases p with
  | atName m n => rfl
  | below m n a =>
      have ha : a.toList.count '/' = 0 := List.count_eq_zero.2 h.2
      simp [slashes, shape, slot, toList_nameRoute, toList_placeholder, ha]
  | member c f => simp [slashes, shape, slot, itemRoute, toList_nameRoute, toList_placeholder]

/-- Two places of one shape have one route, or are parameters of two names below one name. -/
theorem eq_or_below_of_shape_eq {p p' : Place} (h : p.Legal) (h' : p'.Legal)
    (heq : p.shape = p'.shape) : p.slot.1 = p'.slot.1 ∨
      ∃ m m' n a a', p = .below m n a ∧ p' = .below m' n a' ∧ a ≠ a' := by
  have hcount : p.slashes = p'.slashes := by rw [← count_shape h, ← count_shape h', heq]
  cases sameForm_of_slashes_eq h h' hcount with
  | atName => exact Or.inl heq
  | @below m m' n n' a a' =>
      simp only [shape, nameRoute, String.append_left_inj, String.append_right_inj] at heq
      subst heq
      by_cases ha : a = a'
      · exact Or.inl (by rw [ha]; rfl)
      · exact Or.inr ⟨m, m', n, a, a', rfl, rfl, ha⟩
  | @member c c' f f' =>
      have hlist : (nameRoute c ++ "/" ++ placeholder "").toList ++ '/' :: f.toList =
          (nameRoute c' ++ "/" ++ placeholder "").toList ++ '/' :: f'.toList := by
        simpa only [shape, String.toList_append, toList_nameRoute] using congrArg String.toList heq
      obtain ⟨hc, hf⟩ := cut_last_inj h h' hlist
      have hc := String.toList_inj.1 hc
      simp only [nameRoute, String.append_left_inj, String.append_right_inj] at hc
      exact Or.inl (by rw [hc, String.toList_inj.1 hf])

end Place

end Endpoint

end GraphRest
