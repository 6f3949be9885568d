import Scriptlet.Number.Text
import Scriptlet.Proofs.ShortestDecimal

/-!
# Rounding intervals

The reals that round to one double lie apart from those that round to another one: a greater double
takes greater reals. The shortest decimal of an interval lies in it, so it tells the double.
-/

namespace Scriptlet.Number

/-- The significands and exponents that doubles store. The leading bit may only be missing at the
smallest exponent. -/
structure IsStored (significand : Nat) (exponent : ℤ) : Prop where
  lt : significand < 2 ^ 53
  ge : -1074 ≤ exponent
  leading : exponent = -1074 ∨ 2 ^ 52 ≤ significand

lemma leadingBit_eq : leadingBit = 2 ^ 52 := rfl

lemma isStored_of_ofBits {bits : Nat} {negative : Bool} {significand : Nat} {exponent : ℤ}
    (h : Form.ofBits bits = .finite negative significand exponent) :
    IsStored significand exponent := by
  unfold Form.ofBits at h
  dsimp only at h
  have hlt := Nat.mod_lt bits (y := 2 ^ 52) (by positivity)
  rw [leadingBit_eq] at h
  split at h
  · split at h <;> cases h
  · split at h
    · cases h
      exact ⟨by omega, le_rfl, Or.inl rfl⟩
    · cases h
      refine ⟨by omega, by omega, Or.inr (Nat.le_add_right _ _)⟩

section rounding
variable {s s' : Nat} {e e' : ℤ} {x x' : ℚ}

/-- How far the interval goes below the point, in quarters of the gap above it. -/
def quartersBelow (s : Nat) (e : ℤ) : Nat := if s = leadingBit ∧ -1074 < e then 1 else 2

lemma quartersBelow_cases (s : Nat) (e : ℤ) :
    quartersBelow s e = 2 ∨ quartersBelow s e = 1 ∧ s = 2 ^ 52 := by
  unfold quartersBelow
  split
  · rename_i h
    exact Or.inr ⟨rfl, h.1⟩
  · exact Or.inl rfl

lemma den_rounding_pos (s : Nat) (e : ℤ) : 0 < (rounding s e).den := by
  change 0 < 2 ^ _
  positivity

lemma quarters_rounding (s : Nat) (e : ℤ) :
    ((rounding s e).lo : ℚ) / (rounding s e).den =
        ((4 * s - quartersBelow s e : ℕ) : ℚ) * 2 ^ (e - 2) ∧
      ((rounding s e).hi : ℚ) / (rounding s e).den = ((4 * s + 2 : ℕ) : ℚ) * 2 ^ (e - 2) := by
  have hscale (n : Nat) : ((n * 2 ^ (e - 2).toNat : ℕ) : ℚ) / ((2 ^ (2 - e).toNat : ℕ) : ℚ) =
      n * 2 ^ (e - 2) := by
    rw [zpow_eq_div (by norm_num) (e - 2), neg_sub]
    push_cast
    rw [mul_div_assoc]
  exact ⟨hscale _, hscale _⟩

lemma bounds_of_contains (h : (rounding s e).Contains x) :
    ((4 * s - quartersBelow s e : ℕ) : ℚ) * 2 ^ (e - 2) ≤ x ∧
      x ≤ ((4 * s + 2 : ℕ) : ℚ) * 2 ^ (e - 2) ∧
      (s % 2 = 1 →
        ((4 * s - quartersBelow s e : ℕ) : ℚ) * 2 ^ (e - 2) < x ∧
          x < ((4 * s + 2 : ℕ) : ℚ) * 2 ^ (e - 2)) := by
  obtain ⟨hlo, hhi⟩ := quarters_rounding s e
  unfold Interval.Contains at h
  rw [hlo, hhi] at h
  have hclosed : (rounding s e).closed = (s % 2 == 0) := rfl
  rw [hclosed] at h
  split at h
  · rename_i heven
    exact ⟨h.1, h.2, fun hodd => by rw [hodd] at heven; cases heven⟩
  · exact ⟨h.1.le, h.2.le, fun _ => h⟩

/-- In quarters of its own gap a double ends where a greater one begins or before, and where both
meet one of the two significands is odd. -/
lemma quarters_apart (hs : IsStored s e) (hs' : IsStored s' e')
    (hbefore : e < e' ∨ e = e' ∧ s < s') :
    ∃ k : Nat, (k : ℚ) * 2 ^ (e - 2) ≤ 2 ^ (e' - 2) ∧
      4 * s + 2 ≤ k * (4 * s' - quartersBelow s' e') ∧
      (s % 2 = 1 ∨ s' % 2 = 1 ∨ 4 * s + 2 < k * (4 * s' - quartersBelow s' e')) := by
  obtain ⟨hlt, hge, hleading⟩ := hs
  obtain ⟨-, -, hleading'⟩ := hs'
  unfold quartersBelow
  rw [leadingBit_eq]
  rcases hbefore with hexp | ⟨rfl, hsig⟩
  · refine ⟨2, ?_, by split <;> omega, by split <;> omega⟩
    calc (2 : ℚ) * 2 ^ (e - 2) = 2 ^ (e - 1) := by
          rw [← zpow_one_add₀ (by norm_num)]
          congr 1
          ring
      _ ≤ 2 ^ (e' - 2) := zpow_le_zpow_right₀ (by norm_num) (by omega)
  · exact ⟨1, by rw [Nat.cast_one, one_mul], by split <;> omega, by split <;> omega⟩

lemma lt_of_contains (hs : IsStored s e) (hs' : IsStored s' e')
    (hbefore : e < e' ∨ e = e' ∧ s < s') (h : (rounding s e).Contains x)
    (h' : (rounding s' e').Contains x') : x < x' := by
  obtain ⟨-, hhi, hodd⟩ := bounds_of_contains h
  obtain ⟨hlo', -, hodd'⟩ := bounds_of_contains h'
  obtain ⟨k, hscale, hle, hmeet⟩ := quarters_apart hs hs' hbefore
  generalize hq : 4 * s' - quartersBelow s' e' = q at *
  have hunit : (0 : ℚ) < 2 ^ (e - 2) := by positivity
  have hquarters : ((k * q : ℕ) : ℚ) * 2 ^ (e - 2) ≤ q * 2 ^ (e' - 2) := by
    calc ((k * q : ℕ) : ℚ) * 2 ^ (e - 2) = q * (k * 2 ^ (e - 2)) := by
          push_cast
          ring
      _ ≤ q * 2 ^ (e' - 2) := by gcongr
  have hends : ((4 * s + 2 : ℕ) : ℚ) * 2 ^ (e - 2) ≤ ((k * q : ℕ) : ℚ) * 2 ^ (e - 2) := by
    gcongr
  rcases hmeet with h | h | h
  · linarith [(hodd h).2]
  · linarith [(hodd' h).1]
  · have hapart : ((4 * s + 2 : ℕ) : ℚ) * 2 ^ (e - 2) < ((k * q : ℕ) : ℚ) * 2 ^ (e - 2) := by
      gcongr
    linarith

lemma eq_of_contains (hs : IsStored s e) (hs' : IsStored s' e') (h : (rounding s e).Contains x)
    (h' : (rounding s' e').Contains x) : s = s' ∧ e = e' := by
  rcases lt_trichotomy e e' with hlt | rfl | hlt
  · exact absurd (lt_of_contains hs hs' (Or.inl hlt) h h') (lt_irrefl x)
  · rcases lt_trichotomy s s' with hlt | rfl | hlt
    · exact absurd (lt_of_contains hs hs' (Or.inr ⟨rfl, hlt⟩) h h') (lt_irrefl x)
    · exact ⟨rfl, rfl⟩
    · exact absurd (lt_of_contains hs' hs (Or.inr ⟨rfl, hlt⟩) h' h) (lt_irrefl x)
  · exact absurd (lt_of_contains hs' hs (Or.inl hlt) h' h) (lt_irrefl x)

lemma contains_rounding_shortest (hs : IsStored s e) (hpos : 0 < s) :
    (rounding s e).Contains (rounding s e).shortest.value := by
  have hscale : 0 < 2 ^ (e - 2).toNat := by positivity
  have hlt := hs.lt
  have hpoint : (rounding s e).point = 4 * s * 2 ^ (e - 2).toNat := rfl
  have hlo : (rounding s e).lo = (4 * s - quartersBelow s e) * 2 ^ (e - 2).toNat := rfl
  have hhi : (rounding s e).hi = (4 * s + 2) * 2 ^ (e - 2).toNat := rfl
  have hquarters := quartersBelow_cases s e
  apply Interval.contains_shortest (den_rounding_pos s e)
  · rw [hlo, hpoint]
    exact Nat.mul_lt_mul_of_pos_right (by omega) hscale
  · rw [hhi, hpoint]
    exact Nat.mul_lt_mul_of_pos_right (by omega) hscale
  · rw [hlo, hhi, hpoint, ← Nat.sub_mul, ← Nat.mul_assoc]
    exact Nat.mul_lt_mul_of_pos_right (by omega) hscale

lemma pos_of_contains (hpos : 0 < s) (h : (rounding s e).Contains x) : 0 < x := by
  have hquarters := quartersBelow_cases s e
  have hlo : 0 < ((4 * s - quartersBelow s e : ℕ) : ℚ) * 2 ^ (e - 2) := by
    have : 0 < 4 * s - quartersBelow s e := by omega
    positivity
  exact hlo.trans_le (bounds_of_contains h).1

end rounding
end Scriptlet.Number
