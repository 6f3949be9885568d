import Scriptlet.Number.Text
import Scriptlet.Proofs.MaximalMunch
import Scriptlet.Proofs.ShortestDecimal

/-!
# How numbers are written

A finite number is written as a number lexeme, with a minus before it when it is negative: digits,
on both sides of the point where there is one, and no exponent. The digits have the value of the
decimal that they were made from.
-/

namespace Scriptlet.Number

/-- A double that stands for a real number, zeros included. -/
def IsFinite (x : Float) : Prop :=
  ∃ negative significand exponent, form x = .finite negative significand exponent

/-- The point is left out where no digit is behind it. -/
def joinDigits (whole fraction : List Char) : List Char :=
  if fraction = [] then whole else whole ++ '.' :: fraction

/-- The rational that digits on both sides of a point stand for. -/
def valueOfDigits (whole fraction : List Char) : ℚ :=
  digitsValue (whole ++ fraction) / 10 ^ fraction.length

lemma lexeme_joinDigits {ds fs : List Char} (hne : ds ≠ []) (h : ∀ x ∈ ds ++ fs, IsDigit x) :
    Lexeme .number (joinDigits ds fs) := by
  obtain ⟨hds, hfs⟩ := List.forall_mem_append.mp h
  obtain ⟨d, ds, rfl⟩ := List.exists_cons_of_ne_nil hne
  unfold joinDigits
  split
  · exact Lexeme.whole hds
  · rename_i hne'
    obtain ⟨f, fs, rfl⟩ := List.exists_cons_of_ne_nil hne'
    exact Lexeme.decimal hds hfs

lemma head_ne_minus {d : Char} {ds : List Char} (h : Lexeme .number (d :: ds)) : d ≠ '-' := by
  rintro rfl
  obtain ⟨s, hs, -⟩ := h.of_other (by decide) (by decide) (by decide)
  cases hs

section positional
variable (d : Decimal)

lemma isDigit_of_mem_toDigits {n : Nat} {c : Char} (h : c ∈ Nat.toDigits 10 n) : IsDigit c :=
  isDigit_iff.mp (Nat.isDigit_of_mem_toDigits (by decide) (Nat.le_refl 10) h)

lemma isDigit_of_mem_replicate {n : Nat} {c : Char} (h : c ∈ List.replicate n '0') : IsDigit c := by
  rw [List.eq_of_mem_replicate h]
  decide

lemma Decimal.exists_positional_of_nonneg (h : 0 ≤ d.exponent) :
    ∃ ds : List Char, ds ≠ [] ∧ (∀ x ∈ ds, IsDigit x) ∧ d.positional = ds ∧
      (digitsValue ds : ℚ) = d.value := by
  refine ⟨_, ?_, ?_, if_pos h, ?_⟩
  · exact List.append_ne_nil_of_left_ne_nil Nat.toDigits_ne_nil _
  · intro x hx
    rcases List.mem_append.mp hx with hx | hx
    · exact isDigit_of_mem_toDigits hx
    · exact isDigit_of_mem_replicate hx
  · have hvalue : digitsValue (Nat.toDigits 10 d.coefficient ++
        List.replicate d.exponent.toNat '0') = 10 ^ d.exponent.toNat * d.coefficient := by
      change Nat.ofDigitChars 10 _ 0 = _
      rw [Nat.ofDigitChars_append, Nat.ofDigitChars_ten_toDigits, Nat.ofDigitChars_replicate_zero]
    rw [hvalue, Decimal.value]
    lift d.exponent to Nat using h with n
    push_cast
    rw [Int.toNat_natCast, zpow_natCast, mul_comm]

lemma Decimal.exists_positional_of_neg (h : d.exponent < 0) :
    ∃ ds fs : List Char, ds ≠ [] ∧ fs ≠ [] ∧ (∀ x ∈ ds ++ fs, IsDigit x) ∧
      d.positional = ds ++ '.' :: fs ∧ (fs.length : ℤ) = -d.exponent ∧
      digitsValue (ds ++ fs) = d.coefficient := by
  obtain ⟨n, hn⟩ : ∃ n : Nat, d.exponent = -(n + 1 : ℕ) := ⟨(-d.exponent).toNat - 1, by omega⟩
  have hplaces : (-d.exponent).toNat = n + 1 := by omega
  generalize hpadded : List.replicate (n + 1 + 1 - (Nat.toDigits 10 d.coefficient).length) '0' ++
    Nat.toDigits 10 d.coefficient = padded
  have hlength : n + 2 ≤ padded.length := by
    rw [← hpadded, List.length_append, List.length_replicate]
    omega
  refine ⟨padded.take (padded.length - (n + 1)), padded.drop (padded.length - (n + 1)), ?_, ?_, ?_,
    ?_, ?_, ?_⟩
  · apply List.ne_nil_of_length_pos
    rw [List.length_take]
    omega
  · apply List.ne_nil_of_length_pos
    rw [List.length_drop]
    omega
  · rw [List.take_append_drop, ← hpadded]
    intro x hx
    rcases List.mem_append.mp hx with hx | hx
    · exact isDigit_of_mem_replicate hx
    · exact isDigit_of_mem_toDigits hx
  · unfold Decimal.positional
    rw [if_neg (not_le.mpr h), hplaces]
    dsimp only
    rw [hpadded]
  · rw [List.length_drop]
    omega
  · rw [List.take_append_drop, ← hpadded]
    change Nat.ofDigitChars 10 _ 0 = _
    rw [Nat.ofDigitChars_append, Nat.ofDigitChars_replicate_zero, Nat.mul_zero,
      Nat.ofDigitChars_ten_toDigits]

lemma Decimal.exists_positional :
    ∃ ds fs : List Char, ds ≠ [] ∧ (∀ x ∈ ds ++ fs, IsDigit x) ∧
      d.positional = joinDigits ds fs ∧
      valueOfDigits ds fs = d.value := by
  by_cases h : 0 ≤ d.exponent
  · obtain ⟨ds, hne, hdigits, hd, hvalue⟩ := d.exists_positional_of_nonneg h
    refine ⟨ds, [], hne, ?_, ?_, ?_⟩
    · rwa [List.append_nil]
    · rw [hd, joinDigits, if_pos rfl]
    · rw [valueOfDigits, List.append_nil, hvalue, List.length_nil, pow_zero, div_one]
  · obtain ⟨ds, fs, hne, hne', hdigits, hd, hlength, hvalue⟩ :=
      d.exists_positional_of_neg (not_le.mp h)
    refine ⟨ds, fs, hne, hdigits, ?_, ?_⟩
    · rw [hd, joinDigits, if_neg hne']
    · have hexponent : d.exponent = -(fs.length : ℤ) := by omega
      rw [valueOfDigits, Decimal.value, hvalue, hexponent, zpow_neg, zpow_natCast, div_eq_mul_inv]

end positional

lemma exists_text {x : Float} (h : IsFinite x) :
    ∃ (negative : Bool) (digits : List Char), Lexeme .number digits ∧
      text x = String.ofList (Form.chars.sign negative ++ digits) := by
  obtain ⟨negative, significand, exponent, hform⟩ := h
  refine ⟨negative, _, ?_, by rw [text, hform, Form.chars]⟩
  split
  · exact Lexeme.whole (List.forall_mem_singleton.mpr (by decide))
  · obtain ⟨ds, fs, hne, hdigits, hd, -⟩ :=
      (rounding significand exponent).shortest.exists_positional
    rw [hd]
    exact lexeme_joinDigits hne hdigits

end Scriptlet.Number
