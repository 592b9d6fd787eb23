import GraphRest.Decimal.Double
import Mathlib.Algebra.Order.Field.Power
import Mathlib.Algebra.Order.Floor.Semifield
import Mathlib.Data.Int.Log
import Mathlib.Data.Rat.Floor
import Mathlib.Tactic.FieldSimp
import Mathlib.Tactic.Linarith
import Mathlib.Tactic.NormNum
import Mathlib.Tactic.Positivity
import Mathlib.Tactic.Ring

/-!
# Rounding to doubles

What the operations on ratios do to the rational numbers that ratios stand for: scaling multiplies,
comparing compares, and the binary logarithm is that of the rational number.

A ratio is rounded to a double of at most 53 bits, and it is rounded to infinity exactly from half a unit
beyond the largest finite double on. The short cuts for exponents far out of range agree with that.
-/

namespace GraphRest.Double

/-! ## Ratios as rational numbers -/

namespace Ratio

variable {r s : Ratio} {base : Nat}

/-- The rational number that a ratio stands for. -/
def value (r : Ratio) : ℚ := r.num / r.den

/-- A ratio of positive numbers. -/
structure Positive (r : Ratio) : Prop where
  num : 0 < r.num
  den : 0 < r.den

theorem Positive.value_pos (h : r.Positive) : 0 < r.value :=
  div_pos (Nat.cast_pos.2 h.num) (Nat.cast_pos.2 h.den)

theorem positive_scale (h : r.Positive) (hbase : 0 < base) (e : Int) : (r.scale base e).Positive := by
  unfold scale
  split
  · exact ⟨Nat.mul_pos h.num (Nat.pow_pos hbase), h.den⟩
  · exact ⟨h.num, Nat.mul_pos h.den (Nat.pow_pos hbase)⟩

theorem den_scale_pos (h : 0 < r.den) (hbase : 0 < base) (e : Int) : 0 < (r.scale base e).den := by
  unfold scale
  split
  · exact h
  · exact Nat.mul_pos h (Nat.pow_pos hbase)

theorem value_scale (r : Ratio) (hbase : 0 < base) (e : Int) :
    (r.scale base e).value = r.value * (base : ℚ) ^ e := by
  have hbase' : (base : ℚ) ≠ 0 := Nat.cast_ne_zero.2 hbase.ne'
  unfold scale
  split
  · obtain ⟨n, rfl⟩ := Int.eq_ofNat_of_zero_le ‹0 ≤ e›
    simp only [value, Nat.pow_eq, Int.toNat_natCast, Nat.cast_mul, Nat.cast_pow, zpow_natCast]
    ring
  · obtain ⟨n, rfl⟩ : ∃ n : Nat, e = -(n : Int) := ⟨(-e).toNat, by omega⟩
    simp only [value, Nat.pow_eq, neg_neg, Int.toNat_natCast, Nat.cast_mul, Nat.cast_pow, zpow_neg,
      zpow_natCast]
    field_simp

theorem lt_iff (hr : 0 < r.den) (hs : 0 < s.den) : r.lt s = true ↔ r.value < s.value := by
  rw [lt, decide_eq_true_eq, value, value,
    div_lt_div_iff₀ (Nat.cast_pos.2 hr) (Nat.cast_pos.2 hs), ← Nat.cast_mul, ← Nat.cast_mul,
    Nat.cast_lt]

theorem le_iff (hr : 0 < r.den) (hs : 0 < s.den) : r.le s = true ↔ r.value ≤ s.value := by
  rw [le, decide_eq_true_eq, value, value,
    div_le_div_iff₀ (Nat.cast_pos.2 hr) (Nat.cast_pos.2 hs), ← Nat.cast_mul, ← Nat.cast_mul,
    Nat.cast_le]

theorem value_one : (Ratio.mk 1 1).value = 1 := by simp [value]

/-! ## Binary logarithms -/

theorem zpow_log2_le {n : Nat} (h : 0 < n) : (2 : ℚ) ^ (n.log2 : Int) ≤ n := by
  rw [zpow_natCast]
  exact_mod_cast Nat.log2_self_le h.ne'

theorem lt_zpow_log2 (n : Nat) : (n : ℚ) < (2 : ℚ) ^ ((n.log2 : Int) + 1) := by
  have h : (n : ℚ) < (2 : ℚ) ^ (n.log2 + 1) := by exact_mod_cast Nat.lt_log2_self
  exact_mod_cast h

/-- The logarithms of its parts leave a ratio in one of two binades. -/
theorem binades (h : r.Positive) :
    (2 : ℚ) ^ ((r.num.log2 : Int) - r.den.log2 - 1) < r.value ∧
      r.value < (2 : ℚ) ^ ((r.num.log2 : Int) - r.den.log2 + 1) := by
  have hden : (0 : ℚ) < r.den := Nat.cast_pos.2 h.den
  constructor
  · rw [value, lt_div_iff₀ hden]
    calc (2 : ℚ) ^ ((r.num.log2 : Int) - r.den.log2 - 1) * r.den
        < (2 : ℚ) ^ ((r.num.log2 : Int) - r.den.log2 - 1) * (2 : ℚ) ^ ((r.den.log2 : Int) + 1) := by
          gcongr
          exact lt_zpow_log2 r.den
      _ = (2 : ℚ) ^ (r.num.log2 : Int) := by
          rw [← zpow_add₀ (by norm_num)]
          congr 1
          ring
      _ ≤ r.num := zpow_log2_le h.num
  · rw [value, div_lt_iff₀ hden]
    calc (r.num : ℚ) < (2 : ℚ) ^ ((r.num.log2 : Int) + 1) := lt_zpow_log2 r.num
      _ = (2 : ℚ) ^ ((r.num.log2 : Int) - r.den.log2 + 1) * (2 : ℚ) ^ (r.den.log2 : Int) := by
          rw [← zpow_add₀ (by norm_num)]
          congr 1
          ring
      _ ≤ (2 : ℚ) ^ ((r.num.log2 : Int) - r.den.log2 + 1) * r.den := by
          gcongr
          exact zpow_log2_le h.den

/-- The logarithm of a ratio is that of the number. -/
theorem log2_eq (h : r.Positive) : r.log2 = Int.log 2 r.value := by
  obtain ⟨hlow, hhigh⟩ := binades h
  have hpos := h.value_pos
  have hone : (Ratio.mk 1 1).le (r.scale 2 (-((r.num.log2 : Int) - r.den.log2))) = true ↔
      (2 : ℚ) ^ ((r.num.log2 : Int) - r.den.log2) ≤ r.value := by
    rw [le_iff (by decide) (den_scale_pos h.den (by decide) _), value_one,
      value_scale r (by decide), Nat.cast_ofNat, zpow_neg, ← div_eq_mul_inv,
      one_le_div (zpow_pos (by norm_num) _)]
  have hup : Int.log 2 r.value < (r.num.log2 : Int) - r.den.log2 + 1 :=
    (Int.lt_zpow_iff_log_lt (by decide) hpos).1 (by exact_mod_cast hhigh)
  have hdown : (r.num.log2 : Int) - r.den.log2 - 1 ≤ Int.log 2 r.value :=
    (Int.zpow_le_iff_le_log (by decide) hpos).1 (by exact_mod_cast hlow.le)
  have hmiddle : (2 : ℚ) ^ ((r.num.log2 : Int) - r.den.log2) ≤ r.value ↔
      (r.num.log2 : Int) - r.den.log2 ≤ Int.log 2 r.value := by
    rw [← Int.zpow_le_iff_le_log (by decide) hpos, Nat.cast_ofNat]
  simp only [log2, hone, hmiddle]
  split <;> omega

theorem two_zpow_log2_le (h : r.Positive) : (2 : ℚ) ^ r.log2 ≤ r.value := by
  rw [log2_eq h]
  exact_mod_cast Int.zpow_log_le_self (b := 2) (by decide) h.value_pos

theorem lt_two_zpow_log2 (h : r.Positive) : r.value < (2 : ℚ) ^ (r.log2 + 1) := by
  rw [log2_eq h]
  exact_mod_cast Int.lt_zpow_succ_log_self (b := 2) (by decide) r.value

end Ratio

open Ratio

variable {r : Ratio} {negative : Bool}

/-! ## Rounding a quotient -/

theorem div_le_roundHalfEven (num den : Nat) : num / den ≤ roundHalfEven num den := by
  unfold roundHalfEven
  dsimp only
  split <;> omega

theorem roundHalfEven_le (num den : Nat) : roundHalfEven num den ≤ num / den + 1 := by
  unfold roundHalfEven
  dsimp only
  split <;> omega

/-- Below an even number a quotient is rounded up to it from the middle on. -/
theorem roundHalfEven_eq_iff {num den n : Nat} (hden : 0 < den) (hn : 0 < n) (heven : n % 2 = 0)
    (h : num < n * den) : roundHalfEven num den = n ↔ (2 * n - 1) * den ≤ 2 * num := by
  have hq : num / den < n := (Nat.div_lt_iff_lt_mul hden).2 h
  have hnum := Nat.div_add_mod num den
  have hmod := Nat.mod_lt num hden
  have hsplit : (2 * n - 1) * den = 2 * (den * (n - 1)) + den := by
    obtain ⟨m, rfl⟩ : ∃ m, n = m + 1 := ⟨n - 1, by omega⟩
    have hodd : 2 * (m + 1) - 1 = 2 * m + 1 := by omega
    rw [hodd, Nat.add_sub_cancel]
    ring
  unfold roundHalfEven
  dsimp only
  rw [hsplit]
  by_cases hlast : num / den = n - 1
  · rw [hlast] at hnum ⊢
    have hodd : (n - 1) % 2 = 1 := by omega
    split <;> omega
  · constructor
    · intro heq
      split at heq <;> omega
    · intro hle
      have hsmall : num / den + 1 ≤ n - 1 := by omega
      have hbound : num < (n - 1) * den := (Nat.div_lt_iff_lt_mul hden).1 (by omega)
      rw [Nat.mul_comm] at hbound
      omega

/-! ## Rounding a ratio -/

/-- The exponent of the double that a ratio is rounded to, unless rounding carries. -/
def exponentOf (r : Ratio) : Int := max (r.log2 - 52) minExponent

/-- A ratio in units of the last place of the double that it is rounded to. -/
def inUnits (r : Ratio) : Ratio := r.scale 2 (-exponentOf r)

theorem value_inUnits (r : Ratio) : (inUnits r).value = r.value / (2 : ℚ) ^ exponentOf r := by
  rw [inUnits, value_scale r (by decide), zpow_neg, ← div_eq_mul_inv, Nat.cast_ofNat]

theorem value_inUnits_lt (h : r.Positive) : (inUnits r).value < (2 : ℚ) ^ (53 : Int) := by
  have hexponent : r.log2 + 1 ≤ 53 + exponentOf r := by
    have := le_max_left (r.log2 - 52) minExponent
    rw [exponentOf]
    omega
  rw [value_inUnits, div_lt_iff₀ (zpow_pos (by norm_num) _), ← zpow_add₀ (by norm_num)]
  exact (lt_two_zpow_log2 h).trans_le (zpow_le_zpow_right₀ (by norm_num) hexponent)

theorem positive_inUnits (h : r.Positive) : (inUnits r).Positive := positive_scale h (by decide) _

theorem num_inUnits_lt (h : r.Positive) : (inUnits r).num < 2 ^ 53 * (inUnits r).den := by
  have hden : (0 : ℚ) < (inUnits r).den := Nat.cast_pos.2 (positive_inUnits h).den
  have hlt := value_inUnits_lt h
  rw [value, div_lt_iff₀ hden] at hlt
  exact_mod_cast hlt

/-- The mantissa before rounding has carried. -/
def mantissaOf (r : Ratio) : Nat := roundHalfEven (inUnits r).num (inUnits r).den

theorem mantissaOf_le (h : r.Positive) : mantissaOf r ≤ 2 ^ 53 := by
  have hlt : (inUnits r).num / (inUnits r).den < 2 ^ 53 :=
    (Nat.div_lt_iff_lt_mul (positive_inUnits h).den).2 (num_inUnits_lt h)
  have hle := roundHalfEven_le (inUnits r).num (inUnits r).den
  rw [mantissaOf]
  omega

/-- Rounding carries from half a unit below the next power of two on. -/
theorem mantissaOf_eq_iff (h : r.Positive) :
    mantissaOf r = 2 ^ 53 ↔ (2 ^ 53 - 1 / 2 : ℚ) ≤ r.value / (2 : ℚ) ^ exponentOf r := by
  have hden : (0 : ℚ) < (inUnits r).den := Nat.cast_pos.2 (positive_inUnits h).den
  have hcast : (2 * 2 ^ 53 - 1) * (inUnits r).den ≤ 2 * (inUnits r).num ↔
      (2 * 2 ^ 53 - 1 : ℚ) * (inUnits r).den ≤ 2 * (inUnits r).num := by
    have hone : ((2 * 2 ^ 53 - 1 : Nat) : ℚ) = 2 * 2 ^ 53 - 1 := by norm_num
    rw [← hone]
    exact_mod_cast Iff.rfl
  rw [mantissaOf, roundHalfEven_eq_iff (positive_inUnits h).den (by decide) (by decide)
    (num_inUnits_lt h), hcast, ← value_inUnits, value, le_div_iff₀ hden]
  constructor <;> intro hle <;> linarith

theorem ofRatio_eq (h : r.Positive) : ofRatio negative r =
    if mantissaOf r = 2 ^ 53 then
      if exponentOf r + 1 ≤ maxExponent then finite negative (2 ^ 52) (exponentOf r + 1)
      else infinite negative
    else if exponentOf r ≤ maxExponent then finite negative (mantissaOf r) (exponentOf r)
      else infinite negative := by
  have hnum : ¬ r.num = 0 := h.num.ne'
  simp only [ofRatio, if_neg hnum]
  by_cases hm : mantissaOf r = 2 ^ 53
  · have hm' : roundHalfEven (r.scale 2 (-max (r.log2 - 52) minExponent)).num
        (r.scale 2 (-max (r.log2 - 52) minExponent)).den = Nat.pow 2 53 := hm
    rw [if_pos hm, if_pos hm']
    rfl
  · have hm' : ¬ roundHalfEven (r.scale 2 (-max (r.log2 - 52) minExponent)).num
        (r.scale 2 (-max (r.log2 - 52) minExponent)).den = Nat.pow 2 53 := hm
    rw [if_neg hm, if_neg hm']
    rfl

/-- The finite doubles: a mantissa of at most 53 bits and an exponent in range. -/
structure InRange (mantissa : Nat) (exponent : Int) : Prop where
  mantissa_lt : mantissa < 2 ^ 53
  le_exponent : minExponent ≤ exponent
  exponent_le : exponent ≤ maxExponent

theorem inRange_of_ofRatio {negative' : Bool} {m : Nat} {e : Int}
    (h : ofRatio negative r = finite negative' m e) (hden : 0 < r.den) : InRange m e := by
  by_cases hnum : r.num = 0
  · rw [ofRatio, if_pos hnum] at h
    cases h
    exact ⟨by decide, le_refl _, by decide⟩
  · have hr : r.Positive := ⟨Nat.pos_of_ne_zero hnum, hden⟩
    have hle : minExponent ≤ exponentOf r := le_max_right _ _
    have hmax := mantissaOf_le hr
    rw [ofRatio_eq hr] at h
    split at h
    · split at h
      · cases h
        exact ⟨by decide, by omega, by assumption⟩
      · cases h
    · split at h
      · cases h
        exact ⟨by omega, hle, by assumption⟩
      · cases h

/-- The least number that is rounded to infinity: half a unit beyond the largest finite double. -/
def overflow : ℚ := 2 ^ 1024 - 2 ^ 970

theorem overflow_eq : overflow = (2 ^ 54 - 1) * 2 ^ 970 := by
  rw [overflow, sub_mul, one_mul, ← pow_add]

theorem pow_le_overflow : (2 : ℚ) ^ 1023 ≤ overflow := by
  rw [overflow_eq, pow_add 2 53 970]
  gcongr
  norm_num

theorem overflow_le_pow : overflow ≤ 2 ^ 1024 := sub_le_self _ (by positivity)

theorem overflow_eq_units : overflow = (2 ^ 53 - 1 / 2) * 2 ^ 971 := by
  rw [overflow_eq, pow_succ 2 970]
  generalize (2 : ℚ) ^ 970 = u
  ring

theorem isFinite_ofRatio_iff (h : r.Positive) :
    (ofRatio negative r).isFinite = true ↔ r.value < overflow := by
  have hfinite : (ofRatio negative r).isFinite = true ↔
      exponentOf r + (if mantissaOf r = 2 ^ 53 then 1 else 0) ≤ maxExponent := by
    rw [ofRatio_eq h]
    split
    · split <;> simp_all [isFinite]
    · split <;> simp_all [isFinite]
  rw [hfinite]
  rcases lt_trichotomy r.log2 1023 with hlog | hlog | hlog
  · have hexponent : exponentOf r ≤ 970 := max_le (by omega) (by decide)
    refine iff_of_true ?_ ?_
    · rw [maxExponent]
      split <;> omega
    · calc r.value < (2 : ℚ) ^ (r.log2 + 1) := lt_two_zpow_log2 h
        _ ≤ (2 : ℚ) ^ ((1023 : Nat) : Int) := zpow_le_zpow_right₀ (by norm_num) (by omega)
        _ = (2 : ℚ) ^ 1023 := zpow_natCast _ _
        _ ≤ overflow := pow_le_overflow
  · have hexponent : exponentOf r = 971 := by
      rw [exponentOf, hlog]
      rfl
    have hcarry : mantissaOf r = 2 ^ 53 ↔ overflow ≤ r.value := by
      rw [mantissaOf_eq_iff h, hexponent, le_div_iff₀ (by positivity), overflow_eq_units]
      exact_mod_cast Iff.rfl
    rw [hexponent, maxExponent, ← not_le, ← hcarry]
    split <;> simp_all
  · have hexponent : 972 ≤ exponentOf r := le_max_of_le_left (by omega)
    refine iff_of_false ?_ (not_lt.2 ?_)
    · rw [maxExponent]
      split <;> omega
    · calc overflow ≤ (2 : ℚ) ^ 1024 := overflow_le_pow
        _ = (2 : ℚ) ^ ((1024 : Nat) : Int) := (zpow_natCast _ _).symm
        _ ≤ (2 : ℚ) ^ r.log2 := zpow_le_zpow_right₀ (by norm_num) (by omega)
        _ ≤ r.value := two_zpow_log2_le h

/-! ## Rounding a decimal number -/

theorem two_pow_le_ten_pow (k : Nat) : (2 : ℚ) ^ (3 * k) ≤ 10 ^ k := by
  rw [pow_mul]
  exact pow_le_pow_left₀ (by norm_num) (by norm_num) k

theorem ten_pow_le_two_pow (k : Nat) : (10 : ℚ) ^ k ≤ 2 ^ (4 * k) := by
  rw [pow_mul]
  exact pow_le_pow_left₀ (by norm_num) (by norm_num) k

theorem lt_ten_zpow_log2 (n : Nat) : (n : ℚ) < (10 : ℚ) ^ ((n.log2 / 3 + 1 : Nat) : Int) := by
  calc (n : ℚ) < (2 : ℚ) ^ (n.log2 + 1) := by exact_mod_cast Nat.lt_log2_self
    _ ≤ (2 : ℚ) ^ (3 * (n.log2 / 3 + 1)) := pow_le_pow_right₀ (by norm_num) (by omega)
    _ ≤ (10 : ℚ) ^ (n.log2 / 3 + 1) := two_pow_le_ten_pow _
    _ = (10 : ℚ) ^ ((n.log2 / 3 + 1 : Nat) : Int) := (zpow_natCast _ _).symm

theorem ten_zpow_log2_le {n : Nat} (hn : 0 < n) : (10 : ℚ) ^ ((n.log2 / 4 : Nat) : Int) ≤ n := by
  calc (10 : ℚ) ^ ((n.log2 / 4 : Nat) : Int) = (10 : ℚ) ^ (n.log2 / 4) := zpow_natCast _ _
    _ ≤ (2 : ℚ) ^ (4 * (n.log2 / 4)) := ten_pow_le_two_pow _
    _ ≤ (2 : ℚ) ^ n.log2 := pow_le_pow_right₀ (by norm_num) (by omega)
    _ ≤ n := by exact_mod_cast Nat.log2_self_le hn.ne'

/-- A decimal number is rounded to infinity exactly if it is not below the least such number. -/
theorem isFinite_ofDecimal_iff (negative : Bool) (digits : Nat) (exponent : Int) :
    (ofDecimal negative digits exponent).isFinite = true ↔
      (digits : ℚ) * (10 : ℚ) ^ exponent < overflow := by
  have hone : (1 : ℚ) ≤ overflow := (one_le_pow₀ (by norm_num)).trans pow_le_overflow
  have hpower : (0 : ℚ) < (10 : ℚ) ^ exponent := zpow_pos (by norm_num) _
  unfold ofDecimal
  simp only
  split
  · rename_i hsmall
    refine iff_of_true rfl ?_
    rcases hsmall with rfl | hsmall
    · rw [Nat.cast_zero, zero_mul]
      exact zero_lt_one.trans_le hone
    · have hdigits := lt_ten_zpow_log2 digits
      calc (digits : ℚ) * (10 : ℚ) ^ exponent
          < (10 : ℚ) ^ ((digits.log2 / 3 + 1 : Nat) : Int) * (10 : ℚ) ^ exponent := by gcongr
        _ = (10 : ℚ) ^ (((digits.log2 / 3 + 1 : Nat) : Int) + exponent) :=
            (zpow_add₀ (by norm_num) _ _).symm
        _ ≤ 1 := zpow_le_one_of_nonpos₀ (by norm_num) (by omega)
        _ ≤ overflow := hone
  · rename_i hsmall
    have hdigits : 0 < digits := by omega
    split
    · rename_i hlarge
      refine iff_of_false (by simp [isFinite]) (not_lt.2 ?_)
      have hle := ten_zpow_log2_le hdigits
      calc overflow ≤ (2 : ℚ) ^ 1024 := overflow_le_pow
        _ ≤ (10 : ℚ) ^ 1024 := pow_le_pow_left₀ (by norm_num) (by norm_num) _
        _ = (10 : ℚ) ^ ((1024 : Nat) : Int) := (zpow_natCast _ _).symm
        _ ≤ (10 : ℚ) ^ (((digits.log2 / 4 : Nat) : Int) + exponent) :=
            zpow_le_zpow_right₀ (by norm_num) (by omega)
        _ = (10 : ℚ) ^ ((digits.log2 / 4 : Nat) : Int) * (10 : ℚ) ^ exponent :=
            zpow_add₀ (by norm_num) _ _
        _ ≤ (digits : ℚ) * (10 : ℚ) ^ exponent := by gcongr
    · have hpositive : (Ratio.mk digits 1).Positive := ⟨hdigits, Nat.one_pos⟩
      rw [isFinite_ofRatio_iff (positive_scale hpositive (by decide) exponent),
        value_scale _ (by decide)]
      simp [value]

theorem inRange_of_ofDecimal {negative negative' : Bool} {digits m : Nat} {exponent e : Int}
    (h : ofDecimal negative digits exponent = finite negative' m e) : InRange m e := by
  unfold ofDecimal at h
  simp only at h
  split at h
  · cases h
    exact ⟨by decide, le_refl _, by decide⟩
  · split at h
    · cases h
    · exact inRange_of_ofRatio h (den_scale_pos Nat.one_pos (by decide) _)

end GraphRest.Double
