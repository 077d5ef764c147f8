import DelaySynth.Spill.Estimate
import Mathlib

/-!
# The sign of the spill estimate

The estimate is computed in floating point, and all that has to be known about it is its sign. Rounding
keeps signs, products of positive numbers are positive, and a number that is not above zero stays so
if a positive number is taken from it or divides it. Where something overflows or is no number, it is
not above zero either.

* `HasSign`, `NotAbove`: signs of unpacked numbers; they survive packing.
* `spillTest_of_le`: a window that does not begin above zero asks for no register.
-/

namespace DelaySynth

open Float.Model (Format UnpackedFloat)
open Float.Model.UnpackedFloat

/-- The number has the sign, unless it is no number. -/
inductive HasSign (s : Sign) : UnpackedFloat → Prop
  | notANumber : HasSign s .notANumber
  | infinity : HasSign s (.infinity s)
  | zero : HasSign s (.zero s)
  | finite (m : Nat) (e : Int) (hm : 0 < m) : HasSign s (.finite s m e hm)

/-- The number is not above zero. -/
inductive NotAbove : UnpackedFloat → Prop
  | negative {u : UnpackedFloat} (h : HasSign .negative u) : NotAbove u
  | zero : NotAbove (.zero .positive)

/-! ## Packing -/

theorem unpackSign_packComponents {spec : Format} (s : Sign) (e : BitVec spec.exponentBits)
    (m : BitVec spec.mantissaBitsWithoutImplicit) :
    unpackSign (packComponents spec s e m) = s.toBitVec := by
  ext i hi
  obtain rfl : i = 0 := by omega
  have hm : ¬ spec.mantissaBitsWithoutImplicit + spec.exponentBits <
    spec.mantissaBitsWithoutImplicit := by omega
  simp [unpackSign, packComponents, BitVec.getLsbD_append, BitVec.getElem_append, hm]

theorem ofBitVec_toBitVec (s : Sign) : Sign.ofBitVec s.toBitVec = s := by
  cases s <;> rfl

theorem hasSign_unpack_packComponents {spec : Format} (s : Sign) (e : BitVec spec.exponentBits)
    (m : BitVec spec.mantissaBitsWithoutImplicit) :
    HasSign s (unpack spec (packComponents spec s e m)) := by
  unfold unpack
  simp only [unpackSign_packComponents, ofBitVec_toBitVec]
  split
  · split
    · exact .infinity
    · exact .notANumber
  · split
    · split
      · exact .zero
      · exact .finite _ _ _
    · exact .finite _ _ _

theorem unpack_packedNaN : unpack Format.binary64 (packedNaN Format.binary64) = .notANumber := by
  rfl

theorem unpack_packedZero (s : Sign) :
    unpack Format.binary64 (packedZero Format.binary64 s) = .zero s := by
  cases s <;> rfl

variable {s : Sign} {u v : UnpackedFloat}

theorem HasSign.unpack_pack (h : HasSign s u) :
    HasSign s (unpack Format.binary64 (pack Format.binary64 u)) := by
  cases h with
  | notANumber =>
    rw [pack, unpack_packedNaN]
    exact .notANumber
  | infinity => exact hasSign_unpack_packComponents _ _ _
  | zero => exact hasSign_unpack_packComponents _ _ _
  | finite m e hm =>
    rw [pack]
    split
    · exact hasSign_unpack_packComponents _ _ _
    split
    · exact hasSign_unpack_packComponents _ _ _
    · exact hasSign_unpack_packComponents _ _ _

theorem NotAbove.unpack_pack (h : NotAbove u) :
    NotAbove (unpack Format.binary64 (pack Format.binary64 u)) := by
  cases h with
  | negative h => exact .negative h.unpack_pack
  | zero =>
    rw [pack, unpack_packedZero]
    exact .zero

/-! ## Operations -/

theorem hasSign_roundWithAccuracy (spec : Format) (s : Sign) (m : Nat) (e : Int) (a : Accuracy) :
    HasSign s (roundWithAccuracy spec s m e a) := by
  unfold roundWithAccuracy
  simp only
  split
  · exact .zero
  · exact .finite _ _ _

theorem hasSign_ofNat (spec : Format) (n : Nat) : HasSign .positive (ofNat spec n) := by
  unfold ofNat ofInt UnpackedFloat.normalize
  cases n with
  | zero => exact .zero
  | succ n =>
    have : compare ((n + 1 : Nat) : Int) 0 = .gt := by
      rw [Int.compare_eq_gt]
      omega
    rw [this]
    exact hasSign_roundWithAccuracy _ _ _ _ _

theorem HasSign.neg (h : HasSign .positive u) : HasSign .negative u.neg := by
  cases h with
  | notANumber => exact .notANumber
  | infinity => exact .infinity
  | zero => exact .zero
  | finite m e hm => exact .finite m e hm

theorem HasSign.mul (spec : Format) (hu : HasSign .positive u) (hv : HasSign .positive v) :
    HasSign .positive (mul spec u v) := by
  cases hu with
  | notANumber => exact .notANumber
  | infinity => cases hv <;> first | exact .notANumber | exact .infinity
  | zero => cases hv <;> first | exact .notANumber | exact .zero
  | finite m e hm =>
    cases hv with
    | notANumber => exact .notANumber
    | infinity => exact .infinity
    | zero => exact .zero
    | finite m' e' hm' => exact hasSign_roundWithAccuracy _ _ _ _ _

theorem notAbove_normalize (spec : Format) {m : Int} (hm : m ≤ 0) (e : Int) :
    NotAbove (UnpackedFloat.normalize spec m e .positive) := by
  unfold UnpackedFloat.normalize
  split
  · exact .negative (hasSign_roundWithAccuracy _ _ _ _ _)
  · exact .zero
  · rename_i h
    rw [Int.compare_eq_gt] at h
    omega

theorem NotAbove.sub (spec : Format) (hu : NotAbove u) (hv : HasSign .positive v) :
    NotAbove (sub spec u v) := by
  cases hu with
  | zero =>
    cases hv with
    | notANumber => exact .negative .notANumber
    | infinity => exact .negative .infinity
    | zero => exact .zero
    | finite m e hm => exact .negative (.finite m e hm)
  | negative hu =>
    cases hu with
    | notANumber => exact .negative .notANumber
    | infinity =>
      cases hv with
      | notANumber => exact .negative .notANumber
      | infinity => exact .negative .infinity
      | zero => exact .negative .infinity
      | finite m e hm => exact .negative .infinity
    | zero =>
      cases hv with
      | notANumber => exact .negative .notANumber
      | infinity => exact .negative .infinity
      | zero => exact .negative .zero
      | finite m e hm => exact .negative (.finite m e hm)
    | finite m e hm =>
      cases hv with
      | notANumber => exact .negative .notANumber
      | infinity => exact .negative .infinity
      | zero => exact .negative (.finite m e hm)
      | finite m' e' hm' =>
        -- Both magnitudes are brought to one exponent, which leaves their signs.
        refine notAbove_normalize spec (Int.sub_nonpos_of_le ?_) _
        exact Int.le_trans (Int.neg_nonpos_of_nonneg (Int.natCast_nonneg _)) (Int.natCast_nonneg _)

theorem NotAbove.div (spec : Format) (hu : NotAbove u) (hv : HasSign .positive v) :
    NotAbove (div spec u v) := by
  cases hu with
  | zero =>
    cases hv with
    | notANumber => exact .negative .notANumber
    | infinity => exact .zero
    | zero => exact .negative .notANumber
    | finite m e hm => exact .zero
  | negative hu =>
    cases hu with
    | notANumber => exact .negative .notANumber
    | infinity =>
      cases hv with
      | notANumber => exact .negative .notANumber
      | infinity => exact .negative .notANumber
      | zero => exact .negative .infinity
      | finite m e hm => exact .negative .infinity
    | zero =>
      cases hv with
      | notANumber => exact .negative .notANumber
      | infinity => exact .negative .zero
      | zero => exact .negative .notANumber
      | finite m e hm => exact .negative .zero
    | finite m e hm =>
      cases hv with
      | notANumber => exact .negative .notANumber
      | infinity => exact .negative .zero
      | zero => exact .negative .infinity
      | finite m' e' hm' => exact .negative (hasSign_roundWithAccuracy _ _ _ _ _)

theorem NotAbove.not_lt (hu : NotAbove u) (hv : HasSign .positive v) : v.lt u = false := by
  cases hu with
  | zero => cases hv <;> rfl
  | negative hu => cases hu <;> cases hv <;> rfl

/-! ## The estimate -/

theorem hasSign_floatOfNat (n : Nat) : HasSign .positive (floatOfNat n).toModel.unpack :=
  (hasSign_ofNat _ _).unpack_pack

theorem notAbove_floatOfInt {i : Int} (hlow : -(bound64 : Int) ≤ 2 * i) (h : i ≤ 0) :
    NotAbove (floatOfInt i).toModel.unpack := by
  have hpos : 0 < bound64 := by decide
  have hword : i.bmod bound64 = i := Int.bmod_eq_of_le (by omega) (by omega)
  unfold floatOfInt
  rw [hword]
  by_cases hneg : i < 0
  · simp only [if_pos hneg]
    exact .negative (hasSign_floatOfNat _).neg.unpack_pack
  · obtain rfl : i = 0 := by omega
    exact .unpack_pack .zero

theorem not_gt_of_signs {x y : Float} (hx : NotAbove x.toModel.unpack)
    (hy : HasSign .positive y.toModel.unpack) : ¬x > y := by
  have hlt : y.toModel.unpack.lt x.toModel.unpack = false := hx.not_lt hy
  intro h
  have hgt : (y.toModel.unpack.lt x.toModel.unpack) = true := of_decide_eq_true h
  rw [hlt] at hgt
  cases hgt

/-- Where there are fillers, a window that does not begin above zero asks for no register. -/
theorem spillTest_of_le {y : Synthesizer} {granted : ResourceSet} {windowMin : Int} {asked : Bool}
    (hfillers : y.machine.catalog.available granted ≠ []) (hlow : -(bound64 : Int) ≤ 2 * windowMin)
    (hmin : windowMin ≤ 0) (h : y.spillTest windowMin granted = .ok asked) : asked = false := by
  unfold Synthesizer.spillTest Machine.spillEstimate at h
  cases hshortest : ((y.machine.catalog.available granted).map Row.duration).min? with
  | none =>
    rw [List.min?_eq_none_iff, List.map_eq_nil_iff] at hshortest
    exact absurd hshortest hfillers
  | some shortest =>
    rw [hshortest] at h
    simp only at h
    cases ho : y.machine.overhead .narrow
        (y.machine.target.narrowCounters.headD y.machine.target.primary) with
    | error e =>
      rw [ho] at h
      cases h
    | ok o =>
      rw [ho] at h
      obtain rfl := Except.ok.inj h
      have hpositive (k n : Nat) : HasSign .positive (floatOfNat k * floatOfNat n).toModel.unpack :=
        ((hasSign_floatOfNat k).mul Format.binary64 (hasSign_floatOfNat n)).unpack_pack
      have hsub : NotAbove (floatOfInt windowMin - floatOfNat o.perIteration *
          floatOfNat (Nat.pow 256 granted.registerCount)).toModel.unpack :=
        ((notAbove_floatOfInt hlow hmin).sub Format.binary64 (hpositive _ _)).unpack_pack
      have hdiv : NotAbove ((floatOfInt windowMin - floatOfNat o.perIteration *
          floatOfNat (Nat.pow 256 granted.registerCount)) /
          (floatOfNat (Nat.pow 256 granted.registerCount) * floatOfNat shortest)).toModel.unpack :=
        (hsub.div Format.binary64 (hpositive _ _)).unpack_pack
      exact decide_eq_false (not_gt_of_signs hdiv (hasSign_floatOfNat _))

end DelaySynth
