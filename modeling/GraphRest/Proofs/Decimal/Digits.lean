import GraphRest.Decimal.Notation
import GraphRest.Proofs.Decimal.Rounding

/-!
# Digits of a double

The shortest digits of a double that is not zero are decimal digits, one at least, and the first of them
is not a zero.
-/

namespace GraphRest.Decimal

open Double Double.Ratio

variable {r : Ratio} {i : RoundingInterval}

/-! ## Digits from a grid -/

theorem value_natural (n : Nat) (scale : Int) :
    ((Ratio.mk n 1).scale 10 scale).value = n * (10 : ℚ) ^ scale := by
  rw [value_scale _ (by decide), value, Nat.cast_one, div_one, Nat.cast_ofNat]

/-- Zero lies in no interval that has a positive lower end. -/
theorem ne_zero_of_holds (hlow : i.low.Positive) {n : Nat} {scale : Int}
    (h : i.holds ((Ratio.mk n 1).scale 10 scale) = true) : n ≠ 0 := by
  have hden := den_scale_pos (r := Ratio.mk n 1) Nat.one_pos (by decide : 0 < 10) scale
  have hle : i.low.value ≤ ((Ratio.mk n 1).scale 10 scale).value := by
    unfold RoundingInterval.holds at h
    split at h
    · exact (le_iff hlow.den hden).1 ((Bool.and_eq_true _ _).mp h).1
    · exact ((lt_iff hlow.den hden).1 ((Bool.and_eq_true _ _).mp h).1).le
  rintro rfl
  rw [value_natural, Nat.cast_zero, zero_mul] at hle
  exact absurd hlow.value_pos (not_lt.2 hle)

theorem ne_zero_of_gridNeighbour? (hlow : i.low.Positive) {scale : Int} {n : Nat}
    (h : gridNeighbour? r i scale = some n) : n ≠ 0 := by
  unfold gridNeighbour? at h
  simp only at h
  split at h
  · cases h
    exact ne_zero_of_holds hlow (by assumption)
  · split at h
    · cases h
      exact ne_zero_of_holds hlow (by assumption)
    · split at h
      · cases h
        exact ne_zero_of_holds hlow (by assumption)
      · cases h

/-- A number that is one unit of a grid at least is not rounded to zero on it. -/
theorem roundHalfEven_ne_zero (hden : 0 < r.den) (h : 1 ≤ r.value) :
    roundHalfEven r.num r.den ≠ 0 := by
  have hle : r.den ≤ r.num := by
    rw [value, one_le_div (Nat.cast_pos.2 hden)] at h
    exact_mod_cast h
  have hquotient : 1 ≤ r.num / r.den := (Nat.le_div_iff_mul_le hden).2 (by omega)
  have hround := div_le_roundHalfEven r.num r.den
  omega

theorem firstGrid_ne_zero (hr : r.Positive) (hlow : i.low.Positive) {point : Int} {fuel n : Nat}
    (h : (10 : ℚ) ^ (point - (n + fuel : Nat)) ≤ r.value) : (firstGrid r i point fuel n).1 ≠ 0 := by
  induction fuel generalizing n with
  | zero =>
      refine roundHalfEven_ne_zero (den_scale_pos hr.den (by decide) _) ?_
      rw [value_scale _ (by decide)]
      have hpower : (0 : ℚ) < (10 : ℚ) ^ (point - (n + 0 : Nat)) := zpow_pos (by norm_num) _
      have hinverse :
          ((10 : Nat) : ℚ) ^ ((n : Int) - point) = ((10 : ℚ) ^ (point - (n + 0 : Nat)))⁻¹ := by
        rw [← zpow_neg, Nat.cast_ofNat]
        congr 1
        omega
      rw [hinverse, ← div_eq_mul_inv, one_le_div hpower]
      exact h
  | succ fuel ih =>
      rw [firstGrid]
      split
      · exact ne_zero_of_gridNeighbour? hlow (by assumption)
      · refine ih ?_
        have hsame : point - ((n + 1 + fuel : Nat) : Int) = point - ((n + (fuel + 1) : Nat) : Int) := by
          omega
        rw [hsame]
        exact h

/-! ## Where the point stands -/

/-- The guess of the number of digits is not more than a few places too high. -/
theorem ten_zpow_guess_le {l : Int} (hlow : -1100 < l) (hhigh : l < 1100) :
    (10 : ℚ) ^ (l * 30103 / 100000 - 19) ≤ (2 : ℚ) ^ l := by
  have hup : ∀ k < 1100, 10 ^ (k * 30103 / 100000) ≤ 2 ^ k * 10 ^ 19 := by decide +kernel
  have hdown : ∀ k < 1100, 2 ^ k ≤ 10 ^ (k * 30103 / 100000) * 10 ^ 19 := by decide +kernel
  have hten : (10 : ℚ) ≠ 0 := by norm_num
  rcases Int.le_total 0 l with hl | hl
  · obtain ⟨k, rfl⟩ := Int.eq_ofNat_of_zero_le hl
    have hk : (10 : ℚ) ^ (k * 30103 / 100000) ≤ 2 ^ k * 10 ^ 19 := by
      exact_mod_cast hup k (by omega)
    have hguess : (k : Int) * 30103 / 100000 = (k * 30103 / 100000 : Nat) := by omega
    rw [hguess, zpow_sub₀ hten, zpow_natCast, zpow_natCast, div_le_iff₀ (by positivity)]
    exact_mod_cast hk
  · obtain ⟨k, rfl⟩ : ∃ k : Nat, l = -(k : Int) := ⟨(-l).toNat, by omega⟩
    have hk : (2 : ℚ) ^ k ≤ 10 ^ (k * 30103 / 100000) * 10 ^ 19 := by
      exact_mod_cast hdown k (by omega)
    have hguess : -(k : Int) * 30103 / 100000 - 19 ≤ -((k * 30103 / 100000 + 19 : Nat) : Int) := by
      omega
    calc (10 : ℚ) ^ (-(k : Int) * 30103 / 100000 - 19)
        ≤ (10 : ℚ) ^ (-((k * 30103 / 100000 + 19 : Nat) : Int)) :=
          zpow_le_zpow_right₀ (by norm_num) hguess
      _ = ((10 : ℚ) ^ (k * 30103 / 100000) * 10 ^ 19)⁻¹ := by rw [zpow_neg, zpow_natCast, pow_add]
      _ ≤ ((2 : ℚ) ^ k)⁻¹ := inv_anti₀ (by positivity) hk
      _ = (2 : ℚ) ^ (-(k : Int)) := by rw [zpow_neg, zpow_natCast]

/-- The number of digits in front of the point is not more than a few too high. -/
theorem ten_zpow_pointOf_le (hr : r.Positive) (hlow : -1100 < r.log2) (hhigh : r.log2 < 1100) :
    (10 : ℚ) ^ (pointOf r - 18) ≤ r.value := by
  have hbelow (k : Int) : r.lt ((Ratio.mk 1 1).scale 10 k) = true ↔ r.value < (10 : ℚ) ^ k := by
    rw [lt_iff hr.den (den_scale_pos Nat.one_pos (by decide) _), value_natural, Nat.cast_one, one_mul]
  have hlift {k : Int} (h : ¬ r.lt ((Ratio.mk 1 1).scale 10 k) = true) {l : Int} (hl : l ≤ k) :
      (10 : ℚ) ^ l ≤ r.value := by
    rw [hbelow, not_lt] at h
    exact (zpow_le_zpow_right₀ (by norm_num) hl).trans h
  unfold pointOf
  simp only
  split
  · have hsame : r.log2 * 30103 / 100000 - 1 - 18 = r.log2 * 30103 / 100000 - 19 := by omega
    rw [hsame]
    exact (ten_zpow_guess_le hlow hhigh).trans (two_zpow_log2_le hr)
  · split
    · exact hlift (by assumption) (by omega)
    · split
      · exact hlift (by assumption) (by omega)
      · exact hlift (by assumption) (by omega)

/-! ## The shortest digits -/

variable {m : Nat} {e : Int}

theorem positive_double (hm : 0 < m) (e : Int) : ((Ratio.mk m 1).scale 2 e).Positive :=
  positive_scale ⟨hm, Nat.one_pos⟩ (by decide) e

theorem log2_double (h : InRange m e) (hm : 0 < m) :
    -1100 < ((Ratio.mk m 1).scale 2 e).log2 ∧ ((Ratio.mk m 1).scale 2 e).log2 < 1100 := by
  have hr := positive_double hm e
  have hvalue : ((Ratio.mk m 1).scale 2 e).value = m * (2 : ℚ) ^ e := by
    rw [value_scale _ (by decide), value, Nat.cast_one, div_one, Nat.cast_ofNat]
  have hpower : (0 : ℚ) < (2 : ℚ) ^ e := zpow_pos (by norm_num) _
  have hexponent := h.le_exponent
  have hexponent' := h.exponent_le
  rw [minExponent] at hexponent
  rw [maxExponent] at hexponent'
  rw [log2_eq hr]
  constructor
  · have hle : ((2 : Nat) : ℚ) ^ e ≤ ((Ratio.mk m 1).scale 2 e).value := by
      rw [hvalue, Nat.cast_ofNat]
      exact le_mul_of_one_le_left hpower.le (by exact_mod_cast hm)
    have := (Int.zpow_le_iff_le_log (by decide) hr.value_pos).1 hle
    omega
  · have hlt : ((Ratio.mk m 1).scale 2 e).value < ((2 : Nat) : ℚ) ^ (53 + e) := by
      rw [hvalue, Nat.cast_ofNat, zpow_add₀ (by norm_num)]
      gcongr
      exact_mod_cast h.mantissa_lt
    have := (Int.lt_zpow_iff_log_lt (by decide) hr.value_pos).1 hlt
    omega

theorem positive_low (hm : 0 < m) (e : Int) : (RoundingInterval.of m e).low.Positive := by
  have hhalf : 0 < 2 * m - 1 := by omega
  have hquarter : 0 < 4 * m - 1 := by omega
  unfold RoundingInterval.of
  dsimp only
  split
  · exact positive_scale ⟨hquarter, Nat.one_pos⟩ (by decide) _
  · exact positive_scale ⟨hhalf, Nat.one_pos⟩ (by decide) _

/-- Digits of a positive number: decimal ones, and no zero in front. -/
structure Leading (ds : List Char) : Prop where
  isDigit : ∀ c ∈ ds, c.isDigit = true
  head : ∃ c ∈ ds.head?, c ≠ '0'

theorem Leading.ne_nil {ds : List Char} (h : Leading ds) : ds ≠ [] := by
  obtain ⟨c, hc, -⟩ := h.head
  rintro rfl
  cases hc

/-- Digits with a first one that is no zero stay so when more follow. -/
theorem Leading.append {ds w : List Char} (h : Leading ds) (hw : ∀ c ∈ w, c.isDigit = true) :
    Leading (ds ++ w) := by
  obtain ⟨c, hc, hne⟩ := h.head
  refine ⟨fun d hd => (List.mem_append.1 hd).elim (h.isDigit d) (hw d), c, ?_, hne⟩
  rw [List.head?_append, Option.mem_def.1 hc]
  rfl

theorem Leading.take {ds : List Char} (h : Leading ds) {n : Nat} (hn : 0 < n) : Leading (ds.take n) := by
  obtain ⟨c, hc, hne⟩ := h.head
  refine ⟨fun d hd => h.isDigit d (List.mem_of_mem_take hd), c, ?_, hne⟩
  rw [List.head?_take, if_neg hn.ne']
  exact hc

/-- Dropping the zeros at the end keeps what is in front of them. -/
theorem leading_dropFinalZeros {ds : List Char} (h : Leading ds) : Leading (dropFinalZeros ds) := by
  obtain ⟨c, hc, hne⟩ := h.head
  obtain ⟨cs, rfl⟩ := List.head?_eq_some_iff.1 hc
  have hdrop : dropFinalZeros (c :: cs) = c :: dropFinalZeros cs := by
    rw [dropFinalZeros, dropFinalZeros, List.reverse_cons, List.dropWhile_append]
    cases hcs : cs.reverse.dropWhile (· = '0') <;> simp [hne]
  have hsublist : (dropFinalZeros cs).Sublist cs :=
    List.reverse_sublist.1 (by
      rw [dropFinalZeros, List.reverse_reverse]
      exact List.dropWhile_sublist _)
  rw [hdrop]
  refine ⟨fun d hd => h.isDigit d ?_, c, rfl, hne⟩
  exact (hsublist.cons_cons c).subset hd

theorem head?_toDigits {n : Nat} (h : n ≠ 0) : ∃ c ∈ (Nat.toDigits 10 n).head?, c ≠ '0' := by
  induction n using Nat.strongRecOn with
  | ind n ih =>
      rw [Nat.toDigits_eq_if (by decide)]
      split
      · rename_i hn
        have hdigit : ∀ k < 10, k ≠ 0 → Nat.digitChar k ≠ '0' := by decide
        exact ⟨_, rfl, hdigit n hn h⟩
      · obtain ⟨c, hc, hne⟩ := ih (n / 10) (by omega) (by omega)
        exact ⟨c, by rw [List.head?_append, Option.mem_def.1 hc]; rfl, hne⟩

theorem leading_toString {n : Nat} (h : n ≠ 0) : Leading (toString n).toList := by
  rw [Nat.toString_eq_ofList_toDigits, String.toList_ofList]
  exact ⟨fun c hc => Nat.isDigit_of_mem_toDigits (by decide) (by decide) hc, head?_toDigits h⟩

theorem leading_shortest (h : InRange m e) (hm : 0 < m) : Leading (shortest m e).digits := by
  have hr := positive_double hm e
  obtain ⟨hlow, hhigh⟩ := log2_double h hm
  have hpoint : (10 : ℚ) ^ (pointOf ((Ratio.mk m 1).scale 2 e) - (1 + 17 : Nat)) ≤
      ((Ratio.mk m 1).scale 2 e).value := ten_zpow_pointOf_le hr hlow hhigh
  exact leading_dropFinalZeros (leading_toString (firstGrid_ne_zero hr (positive_low hm e) hpoint))

end GraphRest.Decimal
