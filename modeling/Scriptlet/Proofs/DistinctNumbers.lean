import Scriptlet.Proofs.NumberText
import Scriptlet.Proofs.RoundingInterval

/-!
# Distinct numbers are written differently

The digits of a finite number have a value that rounds to that number alone, so the text of a number
tells its sign, its significand and its exponent, and these tell its bits.
-/

namespace Scriptlet.Number

section digits
variable {ds fs ds' fs' : List Char}

lemma takeWhile_joinDigits (h : ∀ x ∈ ds ++ fs, IsDigit x) :
    (joinDigits ds fs).takeWhile Char.isDigit = ds := by
  have hds : ∀ x ∈ ds, x.isDigit = true :=
    fun x hx => isDigit_iff.mpr (h x (List.mem_append_left fs hx))
  unfold joinDigits
  split
  · exact List.takeWhile_eq_self_iff.mpr hds
  · exact takeWhile_upTo hds rfl

lemma drop_joinDigits (ds fs : List Char) : (joinDigits ds fs).drop (ds.length + 1) = fs := by
  unfold joinDigits
  split
  · rename_i hfs
    rw [hfs, List.drop_eq_nil_of_le (Nat.le_succ _)]
  · rw [List.drop_length_add_append, List.drop_one, List.tail_cons]

lemma joinDigits_injective (h : ∀ x ∈ ds ++ fs, IsDigit x) (h' : ∀ x ∈ ds' ++ fs', IsDigit x)
    (heq : joinDigits ds fs = joinDigits ds' fs') : ds = ds' ∧ fs = fs' := by
  have hds : ds = ds' := by
    rw [← takeWhile_joinDigits h, heq, takeWhile_joinDigits h']
  subst hds
  exact ⟨rfl, by rw [← drop_joinDigits ds fs, heq, drop_joinDigits]⟩

lemma sign_append_injective {n n' : Bool} {w w' : List Char} (h : Lexeme .number w)
    (h' : Lexeme .number w') (heq : Form.chars.sign n ++ w = Form.chars.sign n' ++ w') :
    n = n' ∧ w = w' := by
  have hhead {v u : List Char} (hv : Lexeme .number v) : v ≠ '-' :: u := by
    rintro rfl
    exact head_ne_minus hv rfl
  cases n <;> cases n'
  · exact ⟨rfl, heq⟩
  · exact absurd heq (hhead h)
  · exact absurd heq.symm (hhead h')
  · exact ⟨rfl, List.tail_eq_of_cons_eq heq⟩

end digits

lemma exists_magnitude {s : Nat} {e : ℤ} (hs : IsStored s e) :
    ∃ ds fs : List Char, ds ≠ [] ∧ (∀ x ∈ ds ++ fs, IsDigit x) ∧
      (if s = 0 then ['0'] else (rounding s e).shortest.positional) = joinDigits ds fs ∧
      (s = 0 → valueOfDigits ds fs = 0) ∧
      (0 < s → (rounding s e).Contains (valueOfDigits ds fs)) := by
  rcases Nat.eq_zero_or_pos s with rfl | hpos
  · refine ⟨['0'], [], List.cons_ne_nil _ _, ?_, rfl, fun _ => zero_div _,
      fun h => absurd h (by decide)⟩
    exact List.forall_mem_singleton.mpr (by decide)
  · obtain ⟨ds, fs, hne, hdigits, hd, hvalue⟩ := (rounding s e).shortest.exists_positional
    refine ⟨ds, fs, hne, hdigits, ?_, fun h => absurd h hpos.ne', fun _ => ?_⟩
    · rw [if_neg hpos.ne', hd]
    · rw [hvalue]
      exact contains_rounding_shortest hs hpos

lemma magnitude_injective {s s' : Nat} {e e' : ℤ} (hs : IsStored s e) (hs' : IsStored s' e')
    (h : (if s = 0 then ['0'] else (rounding s e).shortest.positional) =
      if s' = 0 then ['0'] else (rounding s' e').shortest.positional) :
    s = s' ∧ e = e' := by
  obtain ⟨ds, fs, -, hdigits, hd, hzero, hin⟩ := exists_magnitude hs
  obtain ⟨ds', fs', -, hdigits', hd', hzero', hin'⟩ := exists_magnitude hs'
  obtain ⟨rfl, rfl⟩ := joinDigits_injective hdigits hdigits' (hd.symm.trans (h.trans hd'))
  have hexponent {s : Nat} {e : ℤ} (hs : IsStored s e) (h : s = 0) : e = -1074 := by
    rcases hs.leading with he | hle
    · exact he
    · omega
  rcases Nat.eq_zero_or_pos s with rfl | hpos
  · rcases Nat.eq_zero_or_pos s' with rfl | hpos'
    · exact ⟨rfl, (hexponent hs rfl).trans (hexponent hs' rfl).symm⟩
    · exact absurd (hzero rfl) (pos_of_contains hpos' (hin' hpos')).ne'
  · rcases Nat.eq_zero_or_pos s' with rfl | hpos'
    · exact absurd (hzero' rfl) (pos_of_contains hpos (hin hpos)).ne'
    · exact eq_of_contains hs hs' (hin hpos) (hin' hpos')

lemma ofBits_injective {a b : Nat} {negative : Bool} {s : Nat} {e : ℤ} (ha : a < 2 ^ 64)
    (hb : b < 2 ^ 64) (h : Form.ofBits a = .finite negative s e)
    (h' : Form.ofBits b = .finite negative s e) : a = b := by
  unfold Form.ofBits at h h'
  dsimp only at h h'
  rw [leadingBit_eq] at h h'
  split at h
  · split at h <;> cases h
  split at h'
  · split at h' <;> cases h'
  have hsign {x y : Nat} (hx : (x == 1) = negative) (hy : (y == 1) = negative) : x = 1 ↔ y = 1 := by
    rw [← beq_iff_eq, ← beq_iff_eq (a := y), hx, hy]
  split at h <;> split at h' <;> simp only [Form.finite.injEq] at h h'
  all_goals
    have := hsign h.1 h'.1
    omega

lemma toBits_injective {x y : Float} (h : x.toBits = y.toBits) : x = y := by
  obtain ⟨⟨a, ha⟩⟩ := x
  obtain ⟨⟨b, hb⟩⟩ := y
  cases h
  rfl

/-- Finite numbers with the same text are the same. The two zeros are told apart by the minus. -/
theorem text_injective {x y : Float} (hx : IsFinite x) (hy : IsFinite y) (h : text x = text y) :
    x = y := by
  obtain ⟨n, s, e, hform⟩ := hx
  obtain ⟨n', s', e', hform'⟩ := hy
  have hs : IsStored s e := isStored_of_ofBits hform
  have hs' : IsStored s' e' := isStored_of_ofBits hform'
  unfold text at h
  rw [hform, hform', String.ofList_inj] at h
  obtain ⟨ds, fs, hne, hdigits, hd, -⟩ := exists_magnitude hs
  obtain ⟨ds', fs', hne', hdigits', hd', -⟩ := exists_magnitude hs'
  obtain ⟨rfl, hmagnitude⟩ := sign_append_injective (hd ▸ lexeme_joinDigits hne hdigits)
    (hd' ▸ lexeme_joinDigits hne' hdigits') h
  obtain ⟨rfl, rfl⟩ := magnitude_injective hs hs' hmagnitude
  have hbits := ofBits_injective x.toBits.toNat_lt y.toBits.toNat_lt hform hform'
  exact toBits_injective (UInt64.toNat_inj.mp hbits)

end Scriptlet.Number
