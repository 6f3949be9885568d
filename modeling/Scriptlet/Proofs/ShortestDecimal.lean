import Mathlib.Algebra.Field.Rat
import Mathlib.Algebra.Order.Field.Power
import Mathlib.Tactic.FieldSimp
import Mathlib.Tactic.Lemma
import Mathlib.Tactic.Linarith
import Mathlib.Tactic.Positivity
import Mathlib.Tactic.Ring
import Scriptlet.Number.Shortest

/-!
# The shortest decimal is in its interval

Of two neighbours on a grid that is finer than an interval is wide, one lies in the interval if the
point between them does. The grids are tried down to one that is finer than the interval, so the
search ends with a decimal of the interval.
-/

namespace Scriptlet.Number

/-- The rational that a decimal stands for. -/
def Decimal.value (d : Decimal) : ℚ := d.coefficient * 10 ^ d.exponent

lemma Decimal.value_trim (coefficient : Nat) (exponent : ℤ) :
    (trim coefficient exponent).value = coefficient * 10 ^ exponent := by
  fun_induction trim coefficient exponent with
  | case1 c p h ih =>
    have hc : (c : ℚ) = ((c / 10 : ℕ) : ℚ) * 10 := by
      exact_mod_cast (Nat.div_mul_cancel (Nat.dvd_of_mod_eq_zero h.2)).symm
    rw [ih, hc, zpow_add_one₀ (by norm_num)]
    ring
  | case2 => rfl

lemma zpow_eq_div {b : ℚ} (hb : b ≠ 0) (p : ℤ) : b ^ p = b ^ p.toNat / b ^ (-p).toNat := by
  rw [← zpow_natCast, ← zpow_natCast, ← zpow_sub₀ hb]
  congr 1
  omega

namespace Interval
variable {i : Interval} {p : ℤ} {c : Nat}

/-- The point of the interval. -/
def center (i : Interval) : ℚ := i.point / i.den

def Contains (i : Interval) (x : ℚ) : Prop :=
  if i.closed then i.lo / i.den ≤ x ∧ x ≤ i.hi / i.den else i.lo / i.den < x ∧ x < i.hi / i.den

lemma contains_of_between {x : ℚ} (hlo : i.lo / i.den < x) (hhi : x < i.hi / i.den) :
    i.Contains x := by
  unfold Contains
  split
  · exact ⟨hlo.le, hhi.le⟩
  · exact ⟨hlo, hhi⟩

lemma onGrid_eq (i : Interval) (p : ℤ) (c : Nat) :
    ((i.onGrid p c).1 : ℚ) = c * 10 ^ p * i.den * (i.onGrid p c).2 ∧
      (0 : ℚ) < (i.onGrid p c).2 := by
  have hpow : (10 : ℚ) ^ (-p).toNat ≠ 0 := by positivity
  have hsnd : ((i.onGrid p c).2 : ℚ) = 10 ^ (-p).toNat := by
    exact_mod_cast (rfl : (i.onGrid p c).2 = 10 ^ (-p).toNat)
  have hfst : ((i.onGrid p c).1 : ℚ) = c * i.den * 10 ^ p.toNat := by
    exact_mod_cast (rfl : (i.onGrid p c).1 = c * i.den * 10 ^ p.toNat)
  rw [hfst, hsnd, zpow_eq_div (by norm_num) p]
  refine ⟨?_, by positivity⟩
  field_simp

lemma holds_iff (hden : 0 < i.den) : i.holds p c = true ↔ i.Contains (c * 10 ^ p) := by
  have hden' : (0 : ℚ) < i.den := by exact_mod_cast hden
  obtain ⟨hfst, hsnd⟩ := i.onGrid_eq p c
  have hle (lo : Nat) : lo * (i.onGrid p c).2 ≤ (i.onGrid p c).1 ↔
      (lo : ℚ) / i.den ≤ c * 10 ^ p := by
    rw [div_le_iff₀ hden', ← mul_le_mul_iff_left₀ hsnd, ← hfst]
    exact_mod_cast Iff.rfl
  have hge (hi : Nat) : (i.onGrid p c).1 ≤ hi * (i.onGrid p c).2 ↔
      c * 10 ^ p ≤ (hi : ℚ) / i.den := by
    rw [le_div_iff₀ hden', ← mul_le_mul_iff_left₀ hsnd, ← hfst]
    exact_mod_cast Iff.rfl
  unfold holds Contains
  dsimp only
  split
  · rw [Bool.and_eq_true, decide_eq_true_eq, decide_eq_true_eq, hle, hge]
  · rw [Bool.and_eq_true, decide_eq_true_eq, decide_eq_true_eq, ← not_le, ← not_le, hge, hle,
      not_le, not_le]

lemma below_le (hden : 0 < i.den) (p : ℤ) :
    i.below p * 10 ^ p ≤ i.center ∧ i.center < ((i.below p + 1 : ℕ) : ℚ) * 10 ^ p := by
  have hden' : (0 : ℚ) < i.den := by exact_mod_cast hden
  have hup : (0 : ℚ) < 10 ^ p.toNat := by positivity
  have hdown : (0 : ℚ) < 10 ^ (-p).toNat := by positivity
  have hbelow : i.below p = i.point * 10 ^ (-p).toNat / (i.den * 10 ^ p.toNat) := rfl
  have hpos : 0 < i.den * 10 ^ p.toNat := by positivity
  have hle : (i.below p : ℚ) * (i.den * 10 ^ p.toNat) ≤ i.point * 10 ^ (-p).toNat := by
    exact_mod_cast hbelow ▸ Nat.div_mul_le_self _ _
  have hlt : (i.point : ℚ) * 10 ^ (-p).toNat < (i.below p + 1 : ℕ) * (i.den * 10 ^ p.toNat) := by
    exact_mod_cast hbelow ▸ Nat.lt_mul_of_div_lt (Nat.lt_succ_self _) hpos
  rw [center, zpow_eq_div (by norm_num) p]
  constructor
  · rw [le_div_iff₀ hden', mul_div_assoc', div_mul_eq_mul_div, div_le_iff₀ hdown]
    linarith
  · rw [div_lt_iff₀ hden', mul_div_assoc', div_mul_eq_mul_div, lt_div_iff₀ hdown]
    linarith

lemma holds_of_onGrid? (h : i.onGrid? p = some c) : i.holds p c = true := by
  unfold onGrid? at h
  dsimp only at h
  split at h
  · cases h
    split <;> assumption
  · cases h
    assumption
  · cases h
    assumption
  · cases h

lemma exists_onGrid? (hden : 0 < i.den) (hlo : i.lo / i.den < i.center)
    (hhi : i.center < i.hi / i.den) (hfine : (10 : ℚ) ^ p < (i.hi - i.lo) / i.den) :
    ∃ c, i.onGrid? p = some c := by
  obtain ⟨hbelow, habove⟩ := below_le hden p
  have hholds : i.holds p (i.below p) = true ∨ i.holds p (i.below p + 1) = true := by
    rw [holds_iff hden, holds_iff hden]
    by_cases hin : i.lo / i.den < i.below p * (10 : ℚ) ^ p
    · exact Or.inl (contains_of_between hin (hbelow.trans_lt hhi))
    · refine Or.inr (contains_of_between (hlo.trans habove) ?_)
      rw [sub_div] at hfine
      push_cast
      linarith
  unfold onGrid?
  dsimp only
  rcases hholds with h | h <;> rw [h] <;> split <;> simp_all

lemma contains_search (hden : 0 < i.den) {tries : Nat}
    (h : ∃ k < tries, ∃ c, i.onGrid? (p - k) = some c) : i.Contains (i.search tries p).value := by
  induction tries generalizing p with
  | zero =>
    obtain ⟨k, hk, -⟩ := h
    exact absurd hk k.not_lt_zero
  | succ tries ih =>
    rw [search]
    split
    · rename_i c hc
      rw [Decimal.value_trim]
      exact (holds_iff hden).mp (holds_of_onGrid? hc)
    · rename_i hnone
      obtain ⟨k, hk, c, hc⟩ := h
      cases k with
      | zero =>
        rw [Nat.cast_zero, sub_zero, hnone] at hc
        cases hc
      | succ k =>
        refine ih ⟨k, Nat.lt_of_succ_lt_succ hk, c, ?_⟩
        rw [← hc]
        congr 1
        push_cast
        ring

lemma pow_topExponent_le (hden : 0 < i.den) (hpoint : 0 < i.point) :
    (10 : ℚ) ^ (i.topExponent - 1) ≤ i.center := by
  have hden' : (0 : ℚ) < i.den := by exact_mod_cast hden
  have hpoint' : (0 : ℚ) < i.point := by exact_mod_cast hpoint
  have hdigits (n : Nat) : ∃ k, (Nat.toDigits 10 n).length = k + 1 ∧ n < 10 ^ (k + 1) ∧
      (0 < n → 10 ^ k ≤ n) := by
    obtain ⟨k, hk⟩ := Nat.exists_eq_succ_of_ne_zero
      (List.length_pos_iff.mpr (Nat.toDigits_ne_nil (b := 10) (n := n))).ne'
    refine ⟨k, hk, (Nat.length_toDigits_le_iff (by decide) (by omega)).mp hk.le, fun _ => ?_⟩
    by_contra hlt
    rcases Nat.eq_zero_or_pos k with rfl | hk'
    · omega
    · have := (Nat.length_toDigits_le_iff (by decide) hk').mpr (not_le.mp hlt)
      omega
  unfold topExponent center
  split
  · rename_i hle
    obtain ⟨k, hk, -, hpow⟩ := hdigits (i.point / i.den)
    have hpow' : 10 ^ k * i.den ≤ i.point :=
      (Nat.le_div_iff_mul_le hden).mp (hpow (Nat.div_pos hle hden))
    rw [hk, Nat.cast_succ, add_sub_cancel_right, zpow_natCast, le_div_iff₀ hden']
    exact_mod_cast hpow'
  · obtain ⟨k, hk, hlt, -⟩ := hdigits (i.den / i.point)
    have hlt' : i.den < 10 ^ (k + 1) * i.point := (Nat.div_lt_iff_lt_mul hpoint).mp hlt
    have hexponent : 1 - ((k + 1 : ℕ) : ℤ) - 1 = -((k + 1 : ℕ) : ℤ) := by ring
    rw [hk, hexponent, zpow_neg, zpow_natCast, inv_le_iff_one_le_mul₀ (by positivity),
      div_mul_eq_mul_div, one_le_div hden', mul_comm]
    exact_mod_cast hlt'.le

/-- Seventeen digits are enough for a decimal of the interval if the point has at most sixteen
digits above the width of the interval. -/
theorem contains_shortest (hden : 0 < i.den) (hlo : i.lo < i.point) (hhi : i.point < i.hi)
    (hwide : i.point < 10 ^ 16 * (i.hi - i.lo)) : i.Contains i.shortest.value := by
  have hden' : (0 : ℚ) < i.den := by exact_mod_cast hden
  have hfine : (10 : ℚ) ^ (i.topExponent - 1 - (16 : ℕ)) < (i.hi - i.lo) / i.den := by
    have hwide' : (i.point : ℚ) < 10 ^ 16 * (i.hi - i.lo) := by
      rw [← Nat.cast_sub (hlo.trans hhi).le]
      exact_mod_cast hwide
    calc (10 : ℚ) ^ (i.topExponent - 1 - (16 : ℕ))
        = 10 ^ (i.topExponent - 1) / 10 ^ 16 := by
          rw [zpow_sub₀ (by norm_num), zpow_natCast]
      _ ≤ i.center / 10 ^ 16 := by
          gcongr
          exact pow_topExponent_le hden (Nat.zero_lt_of_lt hlo)
      _ < (i.hi - i.lo) / i.den := by
          rw [center, div_right_comm, div_lt_div_iff_of_pos_right hden',
            div_lt_iff₀ (by positivity)]
          linarith
  refine contains_search hden ⟨16, by decide, exists_onGrid? hden ?_ ?_ hfine⟩
  · rw [center, div_lt_div_iff_of_pos_right hden']
    exact_mod_cast hlo
  · rw [center, div_lt_div_iff_of_pos_right hden']
    exact_mod_cast hhi

end Interval
end Scriptlet.Number
