import GraphRest.Json.Writer
import GraphRest.Proofs.Decimal.Digits

/-!
# Numbers in JSON

The grammar of JSON numbers, and that whole numbers and finite doubles are written by it.
-/

namespace GraphRest.Json

open Decimal

/-! ## The grammar -/

/-- Decimal digits, one at least. -/
structure IsDigits (w : List Char) : Prop where
  ne_nil : w ≠ []
  isDigit : ∀ c ∈ w, c.isDigit = true

/-- A whole part is zero, or it has no zero in front. -/
def IsWhole (w : List Char) : Prop := w = ['0'] ∨ Leading w

def IsFraction (w : List Char) : Prop := w = [] ∨ ∃ ds, IsDigits ds ∧ w = '.' :: ds

/-- An exponent may have a sign of either kind. -/
def IsExponent (w : List Char) : Prop :=
  w = [] ∨ ∃ sign ds, (sign = [] ∨ sign = ['+'] ∨ sign = ['-']) ∧ IsDigits ds ∧
    ∃ c, (c = 'e' ∨ c = 'E') ∧ w = c :: (sign ++ ds)

/-- An unsigned number has a whole part, and a fraction and an exponent may follow. -/
def IsUnsigned (w : List Char) : Prop :=
  ∃ whole fraction exponent, IsWhole whole ∧ IsFraction fraction ∧ IsExponent exponent ∧
    w = whole ++ (fraction ++ exponent)

/-- A negative number has a minus sign in front. -/
def IsNumber (w : List Char) : Prop := IsUnsigned w ∨ ∃ u, IsUnsigned u ∧ w = '-' :: u

theorem isUnsigned_of_parts {w fraction exponent : List Char} (hwhole : IsWhole w)
    (hfraction : IsFraction fraction) (hexponent : IsExponent exponent) :
    IsUnsigned (w ++ (fraction ++ exponent)) :=
  ⟨_, _, _, hwhole, hfraction, hexponent, rfl⟩

/-! ## Whole numbers and exponents -/

theorem isDigits_toString (n : Nat) : IsDigits (toString n).toList := by
  rw [Nat.toString_eq_ofList_toDigits, String.toList_ofList]
  exact ⟨Nat.toDigits_ne_nil, fun c hc => Nat.isDigit_of_mem_toDigits (by decide) (by decide) hc⟩

theorem isNumber_whole (n : Nat) : IsNumber (number (.whole n)) := by
  have hwhole : IsWhole (toString n).toList := by
    by_cases hn : n = 0
    · subst hn
      exact .inl rfl
    · exact .inr (leading_toString hn)
  exact .inl (by simpa [number] using isUnsigned_of_parts hwhole (.inl rfl) (.inl rfl))

theorem isExponent_exponent (e : Int) : IsExponent (numberStyle.exponent e).toList := by
  unfold Style.exponent
  split
  · exact .inr ⟨['-'], _, .inr (.inr rfl), isDigits_toString _, 'e', .inl rfl, by
      rw [String.toList_append]; rfl⟩
  · exact .inr ⟨['+'], _, .inr (.inl rfl), isDigits_toString _, 'e', .inl rfl, by
      rw [String.toList_append, String.toList_append]; rfl⟩

/-! ## Doubles -/

theorem isDigit_replicate (n : Nat) : ∀ c ∈ List.replicate n '0', c.isDigit = true := by
  intro c hc
  rw [(List.mem_replicate.1 hc).2]
  rfl

theorem isUnsigned_layout {d : Digits} (h : Leading d.digits) :
    IsUnsigned (numberStyle.layout d).toList := by
  unfold Style.layout
  simp only
  split
  · have hfraction : IsFraction ('.' :: (List.replicate (-d.point).toNat '0' ++ d.digits)) :=
      .inr ⟨_, ⟨by simp [h.ne_nil], fun c hc =>
        (List.mem_append.1 hc).elim (isDigit_replicate _ c) (h.isDigit c)⟩, rfl⟩
    simpa using isUnsigned_of_parts (.inl rfl) hfraction (.inl rfl)
  · split
    · split
      · have hwhole : IsWhole (d.digits ++ List.replicate (d.point - d.digits.length).toNat '0') :=
          .inr (h.append (isDigit_replicate _))
        have hfraction : IsFraction ['.', '0'] :=
          .inr ⟨['0'], ⟨by simp, by simp⟩, rfl⟩
        simpa using isUnsigned_of_parts hwhole hfraction (.inl rfl)
      · have hwhole : IsWhole (d.digits.take d.point.toNat) := .inr (h.take (by omega))
        have hfraction : IsFraction ('.' :: d.digits.drop d.point.toNat) :=
          .inr ⟨_, ⟨by simp only [ne_eq, List.drop_eq_nil_iff]; omega,
            fun c hc => h.isDigit c (List.mem_of_mem_drop hc)⟩, rfl⟩
        simpa using isUnsigned_of_parts hwhole hfraction (.inl rfl)
    · split
      · exact absurd (by assumption) h.ne_nil
      · rename_i c hc
        rw [hc] at h
        simpa using isUnsigned_of_parts (.inr h) (.inl rfl) (isExponent_exponent _)
      · rename_i c cs hne hcs
        rw [hcs] at h
        have hwhole : IsWhole [c] := .inr (h.take Nat.one_pos)
        have hfraction : IsFraction ('.' :: cs) :=
          .inr ⟨cs, ⟨fun hnil => hne hnil, fun d hd =>
            h.isDigit d (List.mem_cons_of_mem _ hd)⟩, rfl⟩
        simpa using isUnsigned_of_parts hwhole hfraction (isExponent_exponent _)

/-- A finite double is written as a number. -/
theorem isNumber_finite {m : Nat} {e : Int} (h : Double.InRange m e) (negative : Bool) :
    IsNumber (number (.double (.finite negative m e))) := by
  have hmagnitude : IsUnsigned (if m = 0 then "0.0" else numberStyle.layout (shortest m e)).toList := by
    split
    · exact isUnsigned_of_parts (.inl rfl) (.inr ⟨['0'], ⟨by simp, by simp⟩, rfl⟩) (.inl rfl)
    · exact isUnsigned_layout (leading_shortest h (Nat.pos_of_ne_zero (by assumption)))
  rw [number, Style.finite]
  cases negative with
  | false => exact .inl hmagnitude
  | true => exact .inr ⟨_, hmagnitude, by rw [if_pos rfl, String.toList_append]; rfl⟩

/-! ## Characters of numbers -/

/-- The characters that numbers are made of. -/
def isNumberChar (c : Char) : Bool :=
  c.isDigit || c = '.' || c = '-' || c = '+' || c = 'e' || c = 'E'

theorem isNumberChar_of_isDigit {c : Char} (h : c.isDigit = true) : isNumberChar c = true := by
  simp [isNumberChar, h]

theorem IsUnsigned.isNumberChar {w : List Char} (h : IsUnsigned w) : ∀ c ∈ w, isNumberChar c = true := by
  obtain ⟨whole, fraction, exponent, hwhole, hfraction, hexponent, rfl⟩ := h
  have hdigits {ds : List Char} (h : ∀ c ∈ ds, c.isDigit = true) :
      ∀ c ∈ ds, Json.isNumberChar c = true :=
    fun c hc => isNumberChar_of_isDigit (h c hc)
  have hw : ∀ c ∈ whole, Json.isNumberChar c = true := by
    rcases hwhole with rfl | hwhole
    · simp [Json.isNumberChar]
    · exact hdigits hwhole.isDigit
  have hf : ∀ c ∈ fraction, Json.isNumberChar c = true := by
    rcases hfraction with rfl | ⟨ds, hds, rfl⟩
    · exact nofun
    · exact List.forall_mem_cons.2 ⟨rfl, hdigits hds.isDigit⟩
  have he : ∀ c ∈ exponent, Json.isNumberChar c = true := by
    rcases hexponent with rfl | ⟨sign, ds, hsign, hds, a, ha, rfl⟩
    · exact nofun
    · have hmark : Json.isNumberChar a = true := by rcases ha with rfl | rfl <;> rfl
      have hs : ∀ c ∈ sign, Json.isNumberChar c = true := by
        rcases hsign with rfl | rfl | rfl <;> simp [Json.isNumberChar]
      exact List.forall_mem_cons.2 ⟨hmark, fun c hc =>
        (List.mem_append.1 hc).elim (hs c) (hdigits hds.isDigit c)⟩
  intro c hc
  rcases List.mem_append.1 hc with hc | hc
  · exact hw c hc
  · exact (List.mem_append.1 hc).elim (hf c) (he c)

theorem IsNumber.isNumberChar {w : List Char} (h : IsNumber w) : ∀ c ∈ w, Json.isNumberChar c = true := by
  rcases h with h | ⟨u, hu, rfl⟩
  · exact h.isNumberChar
  · exact List.forall_mem_cons.2 ⟨rfl, hu.isNumberChar⟩

end GraphRest.Json
