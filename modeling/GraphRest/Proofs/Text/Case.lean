import GraphRest.Text.Case
import Mathlib

/-!
# Case of the first letter

In a text of ASCII characters the first one has a single form in either case. To go from one case to the
other and back changes nothing but this first letter, and that only where it was in the other case.
-/

namespace GraphRest.Text

variable {s : String}

/-- A text of ASCII characters. -/
def Ascii (s : String) : Prop := ∀ c ∈ s.toList, c.toNat < 128

/-- Whether a text begins with one of the letters `a` to `z`. -/
def beginsLower (s : String) : Bool := s.toList.head?.any Char.isLower

theorem upperChar_of_lt {c : Char} (h : c.toNat < 128) : upperChar c = [c.toUpper] := if_pos h

theorem lowerChar_of_lt {c : Char} (h : c.toNat < 128) : lowerChar c = [c.toLower] := if_pos h

theorem toNat_toUpper_lt {c : Char} (h : c.toNat < 128) : c.toUpper.toNat < 128 := by
  by_cases hc : c.isLower = true
  · rw [Char.toUpper_eq_of_isLower hc]
    exact (Char.toNat_ofNat _).trans_lt (by split <;> omega)
  · rwa [Char.toUpper_eq_of_not_isLower hc]

theorem toNat_toLower_lt {c : Char} (h : c.toNat < 128) : c.toLower.toNat < 128 := by
  by_cases hc : c.isUpper = true
  · have hZ : c.toNat ≤ 90 := by
      simp only [Char.isUpper, decide_eq_true_eq, UInt32.le_iff_toNat_le] at hc
      exact hc.2
    rw [Char.toLower_eq_of_isUpper hc]
    exact (Char.toNat_ofNat _).trans_lt (by split <;> omega)
  · rwa [Char.toLower_eq_of_not_isUpper hc]

theorem toList_capitalize (h : Ascii s) : (capitalize s).toList = s.toList.modifyHead Char.toUpper := by
  unfold capitalize
  cases hs : s.toList with
  | nil => rfl
  | cons c r => simp [upperChar_of_lt (h c (by simp [hs]))]

theorem toList_uncapitalize (h : Ascii s) :
    (uncapitalize s).toList = s.toList.modifyHead Char.toLower := by
  unfold uncapitalize
  cases hs : s.toList with
  | nil => rfl
  | cons c r => simp [lowerChar_of_lt (h c (by simp [hs]))]

/-- A function that answers ASCII characters for such keeps them so at the head of a list. -/
theorem lt_of_mem_modifyHead {f : Char → Char} (hf : ∀ c, c.toNat < 128 → (f c).toNat < 128)
    {l : List Char} (hl : ∀ c ∈ l, c.toNat < 128) : ∀ c ∈ l.modifyHead f, c.toNat < 128 := by
  cases l with
  | nil => exact hl
  | cons a r =>
      intro c hc
      rcases List.mem_cons.1 hc with rfl | hc
      · exact hf a (hl a List.mem_cons_self)
      · exact hl c (List.mem_cons_of_mem _ hc)

theorem Ascii.capitalize (h : Ascii s) : Ascii (capitalize s) := by
  rw [Ascii, toList_capitalize h]
  exact lt_of_mem_modifyHead (fun _ => toNat_toUpper_lt) h

theorem Ascii.uncapitalize (h : Ascii s) : Ascii (uncapitalize s) := by
  rw [Ascii, toList_uncapitalize h]
  exact lt_of_mem_modifyHead (fun _ => toNat_toLower_lt) h

theorem capitalize_uncapitalize (h : Ascii s) : capitalize (uncapitalize s) = capitalize s := by
  have hcase : Char.toUpper ∘ Char.toLower = Char.toUpper :=
    funext Char.toUpper_toLower_eq_toUpper
  rw [← String.toList_inj, toList_capitalize h.uncapitalize, toList_uncapitalize h,
    List.modifyHead_modifyHead, hcase, toList_capitalize h]

theorem uncapitalize_capitalize (h : Ascii s) : uncapitalize (capitalize s) = uncapitalize s := by
  have hcase : Char.toLower ∘ Char.toUpper = Char.toLower :=
    funext Char.toLower_toUpper_eq_toLower
  rw [← String.toList_inj, toList_uncapitalize h.capitalize, toList_capitalize h,
    List.modifyHead_modifyHead, hcase, toList_uncapitalize h]

theorem capitalize_of_not_beginsLower (h : Ascii s) (hs : beginsLower s = false) :
    capitalize s = s := by
  rw [← String.toList_inj, toList_capitalize h]
  unfold beginsLower at hs
  cases hl : s.toList with
  | nil => rfl
  | cons c r =>
      rw [hl, List.head?_cons, Option.any_some] at hs
      rw [List.modifyHead_cons, Char.toUpper_eq_of_not_isLower (by simp [hs])]

theorem uncapitalize_of_beginsLower (h : Ascii s) (hs : beginsLower s = true) :
    uncapitalize s = s := by
  rw [← String.toList_inj, toList_uncapitalize h]
  unfold beginsLower at hs
  cases hl : s.toList with
  | nil => rfl
  | cons c r =>
      rw [hl, List.head?_cons, Option.any_some] at hs
      rw [List.modifyHead_cons, Char.toLower_eq_of_not_isUpper (Char.not_isUpper_of_isLower hs)]

end GraphRest.Text
