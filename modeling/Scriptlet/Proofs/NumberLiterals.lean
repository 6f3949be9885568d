import Mathlib.Logic.Basic
import Mathlib.Tactic.Lemma
import Scriptlet.Number.Text

/-!
# Digits stand for numbers

The double that is read from digits is never the one that stands for no number: it is a product or a
quotient by a power of ten, which is neither zero nor infinite.
-/

namespace Scriptlet.Number
open Float.Model

section unpacked
variable {u v : UnpackedFloat}

lemma unpack_ne_notANumber {bits : BitVec Format.binary64.numBits}
    (h : UnpackedFloat.unpackExponent bits ≠ -1#11 ∨ UnpackedFloat.unpackMantissa bits = 0#52) :
    UnpackedFloat.unpack Format.binary64 bits ≠ .notANumber := by
  unfold UnpackedFloat.unpack
  by_cases hexponent : UnpackedFloat.unpackExponent bits = -1#11
  · rw [if_pos hexponent, if_pos (h.resolve_left (not_not_intro hexponent))]
    exact UnpackedFloat.noConfusion
  rw [if_neg hexponent]
  by_cases hzero : UnpackedFloat.unpackExponent bits = 0#11
  · by_cases hmantissa : UnpackedFloat.unpackMantissa bits = 0#52
    · rw [if_pos hzero, dif_pos hmantissa]
      exact UnpackedFloat.noConfusion
    · rw [if_pos hzero, dif_neg hmantissa]
      exact UnpackedFloat.noConfusion
  · rw [if_neg hzero]
    exact UnpackedFloat.noConfusion

lemma unpack_pack_ne_notANumber (h : u ≠ .notANumber) : (pack u).unpack ≠ .notANumber := by
  apply unpack_ne_notANumber
  change UnpackedFloat.unpackExponent (UnpackedFloat.pack Format.binary64 u) ≠ _ ∨
    UnpackedFloat.unpackMantissa (UnpackedFloat.pack Format.binary64 u) = _
  cases u with
  | notANumber => exact absurd rfl h
  | infinity s => exact Or.inr UnpackedFloat.unpackMantissa_packComponents
  | zero s => exact Or.inr UnpackedFloat.unpackMantissa_packComponents
  | finite s m e hm =>
    unfold UnpackedFloat.pack
    dsimp only
    split
    · exact Or.inr UnpackedFloat.unpackMantissa_packComponents
    · rename_i hlt
      refine Or.inl ?_
      split <;> rw [UnpackedFloat.unpackExponent_packComponents]
      · intro hexponent
        have hnat := congrArg BitVec.toNat hexponent
        rw [BitVec.toNat_ofNat, Nat.mod_eq_of_lt (by omega)] at hnat
        change _ = 2047 at hnat
        rw [hnat] at hlt
        exact hlt (by decide)
      · decide

lemma roundWithAccuracy_ne_notANumber (spec : Format) (sign : UnpackedFloat.Sign) (mantissa : Nat)
    (exponent : Int) (accuracy : UnpackedFloat.Accuracy) :
    UnpackedFloat.roundWithAccuracy spec sign mantissa exponent accuracy ≠ .notANumber := by
  unfold UnpackedFloat.roundWithAccuracy
  dsimp only
  rw [ne_eq, dite_eq_iff, not_or]
  exact ⟨fun h => UnpackedFloat.noConfusion h.2, fun h => UnpackedFloat.noConfusion h.2⟩

lemma div_finite_ne_notANumber (spec : Format) {sign : UnpackedFloat.Sign} {mantissa : Nat}
    {exponent : Int} {hpos : 0 < mantissa} (h : u ≠ .notANumber) :
    UnpackedFloat.div spec u (.finite sign mantissa exponent hpos) ≠ .notANumber := by
  cases u with
  | notANumber => exact absurd rfl h
  | infinity s => exact UnpackedFloat.noConfusion
  | zero s => exact UnpackedFloat.noConfusion
  | finite s m e hm => exact roundWithAccuracy_ne_notANumber spec _ _ _ _

lemma ofNat_ne_notANumber (spec : Format) (n : Nat) :
    UnpackedFloat.ofNat spec n ≠ .notANumber := by
  unfold UnpackedFloat.ofNat UnpackedFloat.ofInt UnpackedFloat.normalize
  split
  · exact roundWithAccuracy_ne_notANumber _ _ _ _ _
  · exact UnpackedFloat.noConfusion
  · exact roundWithAccuracy_ne_notANumber _ _ _ _ _

lemma ofScientific_ne_notANumber (spec : Format) (m : Nat) (e : Int) :
    UnpackedFloat.ofScientific spec m e ≠ .notANumber := by
  intro h
  unfold UnpackedFloat.ofScientific at h
  rw [dite_eq_iff] at h
  obtain ⟨-, h⟩ | ⟨hm, h⟩ := h
  · exact UnpackedFloat.noConfusion h
  rw [ite_eq_iff, ite_eq_iff, ite_eq_iff] at h
  obtain ⟨-, h⟩ | ⟨-, ⟨-, h⟩ | ⟨-, ⟨-, h⟩ | ⟨-, h⟩⟩⟩ := h
  · exact UnpackedFloat.noConfusion h
  · exact UnpackedFloat.noConfusion h
  · exact roundWithAccuracy_ne_notANumber spec _ _ _ _ h
  · exact div_finite_ne_notANumber spec UnpackedFloat.noConfusion h

end unpacked

lemma unpack_powerOfTen {x : Float} (h : x ∈ Float.exactlyRepresentablePowersOfTen) :
    ∃ sign mantissa exponent hpos, x.toModel.unpack = .finite sign mantissa exponent hpos := by
  have hall : ∀ x ∈ Float.exactlyRepresentablePowersOfTen,
      (x.toModel.unpack matches .finite ..) = true := by decide +kernel
  have hx := hall x h
  cases hunpack : x.toModel.unpack with
  | finite sign mantissa exponent hpos => exact ⟨sign, mantissa, exponent, hpos, rfl⟩
  | _ =>
    rw [hunpack] at hx
    cases hx

lemma form_ne_nan {x : Float} (h : x.toModel.unpack ≠ .notANumber) : form x ≠ .nan := by
  intro hform
  apply h
  unfold form Form.ofBits at hform
  dsimp only at hform
  split at hform
  · split at hform
    · cases hform
    · rename_i hexponent hfraction
      have hexponent' :
          @UnpackedFloat.unpackExponent Format.binary64 x.toBits.toBitVec = -1#11 := by
        apply BitVec.eq_of_toNat_eq
        change x.toBits.toNat >>> 52 % 2 ^ 11 = 2047
        rw [Nat.shiftRight_eq_div_pow]
        exact hexponent
      have hfraction' : @UnpackedFloat.unpackMantissa Format.binary64 x.toBits.toBitVec ≠ 0#52 := by
        intro hzero
        have hnat : x.toBits.toNat >>> 0 % 2 ^ 52 = 0 := congrArg BitVec.toNat hzero
        exact hfraction hnat
      exact (if_pos hexponent').trans (if_neg hfraction')
  · split at hform <;> cases hform

theorem form_ofDigits_ne_nan (whole fraction : List Char) :
    form (ofDigits whole fraction) ≠ .nan := by
  apply form_ne_nan
  unfold ofDigits Float.ofScientific
  split
  · rename_i h
    have hsize : fraction.length < Float.exactlyRepresentablePowersOfTen.size :=
      Nat.lt_succ_of_le h.2
    obtain ⟨sign, mantissa, exponent, hpos, hpower⟩ :=
      unpack_powerOfTen (Array.getElem_mem hsize)
    refine unpack_pack_ne_notANumber ?_
    rw [hpower]
    exact div_finite_ne_notANumber _ (unpack_pack_ne_notANumber (ofNat_ne_notANumber _ _))
  · exact unpack_pack_ne_notANumber (ofScientific_ne_notANumber _ _ _)

end Scriptlet.Number
