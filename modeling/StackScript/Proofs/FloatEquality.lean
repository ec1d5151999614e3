import Mathlib
import StackScript.Decimal.Numeric
import StackScript.Proofs.ExactDecimals

/-!
# Equality of numbers

Equality of floats is an equivalence, but for what is no number, and an integer turns into a float
without loss.

* `Same`: the floats that `==` does not tell apart.
* `floatOfInt_beq`: integers are equal when their floats are.
-/

namespace StackScript.Decimal

open Float.Model Float.Model.UnpackedFloat

/-! ### Floats -/

/-- Floats that are equal as numbers: the two zeros are one number. -/
inductive Same : UnpackedFloat → UnpackedFloat → Prop
  | infinity (s : Sign) : Same (.infinity s) (.infinity s)
  | zero (s t : Sign) : Same (.zero s) (.zero t)
  | finite (s : Sign) (m : Nat) (e : Int) (hm hm' : 0 < m) : Same (.finite s m e hm) (.finite s m e hm')

theorem Same.symm {a b : UnpackedFloat} (h : Same a b) : Same b a := by
  cases h with
  | infinity s => exact .infinity s
  | zero s t => exact .zero t s
  | finite s m e hm hm' => exact .finite s m e hm' hm

theorem Same.trans {a b c : UnpackedFloat} (hab : Same a b) (hbc : Same b c) : Same a c := by
  cases hab with
  | infinity s => exact hbc
  | zero s t =>
    cases hbc with
    | zero _ u => exact .zero s u
  | finite s m e hm hm' => exact hbc

theorem Same.parts {s s' : Sign} {m m' : Nat} {e e' : Int} {hm : 0 < m} {hm' : 0 < m'}
    (h : Same (.finite s m e hm) (.finite s' m' e' hm')) : s = s' ∧ m = m' ∧ e = e' := by
  cases h
  exact ⟨rfl, rfl, rfl⟩

/-- Only exponent and mantissa together tell floats of one sign apart. -/
theorem finite_compare {e e' : Int} {m m' : Nat}
    (h : (compare e e').then (compare m m') = .eq) : e = e' ∧ m = m' := by
  rw [Ordering.then_eq_eq, Int.compare_eq_eq, Nat.compare_eq_eq] at h
  exact h

/-- The comparison finds those floats equal that are equal as numbers. -/
theorem compare_eq_iff {a b : UnpackedFloat} : a.compare b = some .eq ↔ Same a b := by
  constructor
  · intro h
    cases a with
    | notANumber => cases h
    | infinity s =>
      cases b with
      | infinity t => cases s <;> cases t <;> first | exact .infinity _ | cases h
      | _ => cases s <;> cases h
    | zero s =>
      cases b with
      | zero t => exact .zero s t
      | notANumber => cases h
      | infinity t | finite t => cases t <;> cases h
    | finite s m e hm =>
      cases b with
      | finite t m' e' hm' =>
        cases s <;> cases t
        case negative.negative =>
          have hthen := Option.some.inj h
          rw [Ordering.swap_eq_eq] at hthen
          obtain ⟨rfl, rfl⟩ := finite_compare hthen
          exact .finite _ _ _ _ _
        case positive.positive =>
          obtain ⟨rfl, rfl⟩ := finite_compare (Option.some.inj h)
          exact .finite _ _ _ _ _
        all_goals cases h
      | notANumber => cases s <;> cases h
      | zero t => cases s <;> cases h
      -- numbers of different signs are not equal
      | infinity t => cases s <;> cases t <;> cases h
  · intro h
    cases h with
    | infinity s => cases s <;> rfl
    | zero s t => rfl
    | finite s m e hm hm' =>
      have hthen : (compare e e).then (compare m m) = .eq := by
        rw [Ordering.then_eq_eq, Int.compare_eq_eq, Nat.compare_eq_eq]
        exact ⟨rfl, rfl⟩
      cases s with
      | negative => exact congrArg (fun o => some (Ordering.swap o)) hthen
      | positive => exact congrArg some hthen

theorem float_beq_iff {x y : Float} : (x == y) = true ↔ Same x.toModel.unpack y.toModel.unpack := by
  rw [← compare_eq_iff]
  show (UnpackedFloat.compare x.toModel.unpack y.toModel.unpack == some .eq) = true ↔ _
  exact beq_iff_eq

theorem float_beq_comm (x y : Float) : (x == y) = (y == x) := by
  rw [Bool.eq_iff_iff, float_beq_iff, float_beq_iff]
  exact ⟨Same.symm, Same.symm⟩

theorem float_beq_trans {x y z : Float} (hxy : (x == y) = true) (hyz : (y == z) = true) :
    (x == z) = true :=
  float_beq_iff.2 ((float_beq_iff.1 hxy).trans (float_beq_iff.1 hyz))

/-- A float equals itself, unless it is no number. -/
theorem float_beq_self {x : Float} (h : x.isNaN = false) : (x == x) = true := by
  rw [float_beq_iff]
  have hx : x.toModel.unpack.isNaN = false := h
  cases hu : x.toModel.unpack with
  | notANumber =>
    rw [hu] at hx
    cases hx
  | infinity s => exact .infinity s
  | zero s => exact .zero s s
  | finite s m e hm => exact .finite s m e hm hm

/-! ### Integers -/

/-- The parts of a normal float are the ones that it was made of. -/
theorem unpack_normal {s : Sign} {e : BitVec Format.binary64.exponentBits}
    {m : BitVec Format.binary64.mantissaBitsWithoutImplicit} (hzero : e.toNat ≠ 0)
    (hfull : e.toNat ≠ 2047) : UnpackedFloat.unpack .binary64 (packComponents .binary64 s e m) =
      .finite s (2 ^ 52 + m.toNat) (e.toNat - 1075) (by omega) := by
  have hbias : ((Format.binary64.exponentBias : Nat) : Int) = 1023 := rfl
  have hwidth : ((Format.binary64.mantissaBitsWithoutImplicit : Nat) : Int) = 52 := rfl
  have hsign : Sign.ofBitVec (unpackSign (packComponents .binary64 s e m)) = s := sign_packComponents
  have hones : e ≠ -1#_ := fun h => hfull (congrArg BitVec.toNat h)
  have hnull : e ≠ 0#_ := fun h => hzero (congrArg BitVec.toNat h)
  unfold UnpackedFloat.unpack
  simp only [unpackExponent_packComponents, unpackMantissa_packComponents, hsign, if_neg hones,
    if_neg hnull, hbias, hwidth]
  congr 1
  exact toNat_hidden m

/-- A float that uses all bits of its mantissa survives packing. -/
theorem unpack_pack_normal {s : Sign} {m : Nat} {e : Int} (hm : 0 < m) (hlow : 2 ^ 52 ≤ m)
    (hhigh : m < 2 ^ 53) (hleast : -1074 ≤ e) (hmost : e ≤ 971) :
    (Float.Model.pack (.finite s m e hm)).unpack = .finite s m e hm := by
  have hbias : ((Format.binary64.exponentBias : Nat) : Int) = 1023 := rfl
  have hwidth : ((Format.binary64.mantissaBitsWithoutImplicit : Nat) : Int) = 52 := rfl
  have hbits : Format.binary64.mantissaBits = 53 := rfl
  have hfield : 2 ^ Format.binary64.exponentBits = 2 ^ 11 := rfl
  have hpack : UnpackedFloat.pack .binary64 (.finite s m e hm) =
      packComponents .binary64 s (BitVec.ofNat _ (e + 1075).toNat) (BitVec.ofNat _ m) := by
    rw [UnpackedFloat.pack]
    dsimp only
    rw [hbias, hwidth, hbits, hfield, if_neg (by omega), log2_of_normal hlow hhigh, if_pos rfl,
      show e + 1023 + 52 = e + 1075 by omega]
  have hexponent : (BitVec.ofNat Format.binary64.exponentBits (e + 1075).toNat).toNat =
      (e + 1075).toNat := by
    rw [BitVec.toNat_ofNat]
    exact Nat.mod_eq_of_lt (show _ < 2 ^ 11 by omega)
  have hmantissa : (BitVec.ofNat Format.binary64.mantissaBitsWithoutImplicit m).toNat = m - 2 ^ 52 := by
    rw [BitVec.toNat_ofNat]
    show m % 2 ^ 52 = _
    omega
  show UnpackedFloat.unpack .binary64 (UnpackedFloat.pack .binary64 (.finite s m e hm)) = _
  rw [hpack, unpack_normal (by omega) (by omega)]
  congr 1
  · omega
  · omega

/-- The mantissa of an integer, moved up until it uses all bits. -/
def filled (d : Nat) : Nat := d * 2 ^ (52 - d.log2)

section Filled

variable {d : Nat}

theorem log2_small (hd : d < 2 ^ 53) : d.log2 < 53 := by
  by_cases hzero : d = 0
  · subst hzero
    decide
  · exact (Nat.log2_lt hzero).2 hd

theorem log2_filled (hpos : 0 < d) (hd : d < 2 ^ 53) : (filled d).log2 = 52 := by
  have hlog := log2_small hd
  rw [filled, log2_mul_pow hpos]
  omega

theorem filled_bounds (hpos : 0 < d) (hd : d < 2 ^ 53) : 2 ^ 52 ≤ filled d ∧ filled d < 2 ^ 53 := by
  have hne : filled d ≠ 0 := Nat.pos_iff_ne_zero.1 (Nat.mul_pos hpos (Nat.two_pow_pos _))
  have hlog := log2_filled hpos hd
  exact ⟨(Nat.le_log2 hne).1 (Nat.le_of_eq hlog.symm), (Nat.log2_lt hne).1 (by omega)⟩

theorem filled_pos (hpos : 0 < d) : 0 < filled d := Nat.mul_pos hpos (Nat.two_pow_pos _)

theorem canonical_filled (hpos : 0 < d) (hd : d < 2 ^ 53) : Canonical (filled d) (d.log2 - 52) := by
  have hlog := log2_small hd
  obtain ⟨hlow, hhigh⟩ := filled_bounds hpos hd
  exact .inr ⟨hlow, hhigh, by omega, by omega⟩

/-- An integer of 53 bits needs no rounding. -/
theorem ofNat_eq (hpos : 0 < d) (hd : d < 2 ^ 53) : UnpackedFloat.ofNat .binary64 d =
    .finite .positive (filled d) (d.log2 - 52) (filled_pos hpos) := by
  have hbits : ((Format.binary64.mantissaBits : Nat) : Int) = 53 := rfl
  have hmin : Format.binary64.minExponent = -1074 := rfl
  have hlog := log2_small hd
  have htarget : Format.binary64.targetExponent (totalExponent d 0) = d.log2 - 52 := by
    rw [Format.targetExponent, hbits, hmin, totalExponent]
    omega
  have hshift : ((0 : Int) - (d.log2 - 52)).toNat = 52 - d.log2 := by omega
  have hround := round_canonical (n := 0) (s := .positive) (filled_pos hpos) (canonical_filled hpos hd)
  rw [Nat.pow_zero, Nat.mul_one, Int.natCast_zero, Int.sub_zero] at hround
  rw [UnpackedFloat.ofNat, UnpackedFloat.ofInt, UnpackedFloat.normalize,
    Int.compare_eq_gt.2 (Int.natCast_pos.2 hpos)]
  show UnpackedFloat.round .binary64 .positive (d : Int).toNat 0 = _
  unfold UnpackedFloat.round decreaseExponent
  simp only [Int.toNat_natCast, htarget, hshift, Nat.shiftLeft_eq]
  rw [show (0 : Int) - ((52 - d.log2 : Nat) : Int) = d.log2 - 52 by omega]
  exact hround

theorem unpack_ofNat (hpos : 0 < d) (hd : d < 2 ^ 53) : (Float.ofNat d).toModel.unpack =
    .finite .positive (filled d) (d.log2 - 52) (filled_pos hpos) := by
  have hlog := log2_small hd
  obtain ⟨hlow, hhigh⟩ := filled_bounds hpos hd
  have hint : (d.toUInt64.toFloat).toModel.unpack =
      .finite .positive (filled d) (d.log2 - 52) (filled_pos hpos) := by
    have hsmall : d.toUInt64.toNat = d := by
      exact UInt64.toNat_ofNat_of_lt (by rw [UInt64.size]; omega)
    show (Float.Model.pack (UnpackedFloat.ofNat .binary64 d.toUInt64.toNat)).unpack = _
    rw [hsmall, ofNat_eq hpos hd]
    exact unpack_pack_normal _ hlow hhigh (by omega) (by omega)
  have hone : (Float.exactlyRepresentablePowersOfTen[0]).toModel.unpack =
      .finite .positive (2 ^ 52) (-52) (by decide) := by rfl
  have hfew : d < 2 ^ 53 ∧ 0 ≤ 22 := ⟨hd, by decide⟩
  show (Float.ofScientific d false 0).toModel.unpack = _
  rw [Float.ofScientific, dif_pos hfew]
  -- One as a float takes 52 bits, which rounding drops again.
  show (Float.Model.pack (UnpackedFloat.mul .binary64 (d.toUInt64.toFloat).toModel.unpack
    (Float.exactlyRepresentablePowersOfTen[0]).toModel.unpack)).unpack = _
  rw [hint, hone]
  show (Float.Model.pack (roundWithAccuracy .binary64 .positive (filled d * 2 ^ 52)
    (d.log2 - 52 - (52 : Nat)) .exact)).unpack = _
  rw [round_canonical (filled_pos hpos) (canonical_filled hpos hd)]
  exact unpack_pack_normal _ hlow hhigh (by omega) (by omega)

/-- An integer can be read off its filled mantissa. -/
theorem filled_inj {d' : Nat} (h : filled d = filled d') (hlog : d.log2 = d'.log2) : d = d' := by
  rw [filled, filled, hlog] at h
  exact Nat.eq_of_mul_eq_mul_right (Nat.two_pow_pos _) h

end Filled

theorem unpack_ofInt {n : Int} (hne : n ≠ 0) (hn : n.natAbs < 2 ^ 53) :
    (Float.ofInt n).toModel.unpack = .finite (if n < 0 then .negative else .positive)
      (filled n.natAbs) (n.natAbs.log2 - 52) (filled_pos (Int.natAbs_pos.2 hne)) := by
  cases n with
  | ofNat d =>
    have hpos : 0 < d := Nat.pos_of_ne_zero fun h => hne (congrArg Int.ofNat h)
    have hnonneg : ¬Int.ofNat d < 0 := Int.not_lt.2 (Int.natCast_nonneg d)
    rw [if_neg hnonneg]
    exact unpack_ofNat hpos hn
  | negSucc d =>
    have hsmall : d + 1 < 2 ^ 53 := hn
    have hlog := log2_small hsmall
    obtain ⟨hlow, hhigh⟩ := filled_bounds (Nat.succ_pos d) hsmall
    have hneg : (UnpackedFloat.finite .positive (filled (d + 1)) ((d + 1).log2 - 52)
        (filled_pos (Nat.succ_pos d))).neg = .finite .negative (filled (d + 1)) ((d + 1).log2 - 52)
        (filled_pos (Nat.succ_pos d)) := rfl
    rw [if_pos (Int.negSucc_lt_zero d)]
    show (Float.Model.pack (UnpackedFloat.neg (Float.ofNat (d + 1)).toModel.unpack)).unpack = _
    rw [unpack_ofNat (Nat.succ_pos d) hsmall, hneg]
    exact unpack_pack_normal _ hlow hhigh (by omega) (by omega)

/-- Floats of integers are equal when the integers are. -/
theorem ofInt_beq {a b : Int} (ha : a.natAbs < 2 ^ 53) (hb : b.natAbs < 2 ^ 53) :
    (Float.ofInt a == Float.ofInt b) = true ↔ a = b := by
  have hzero : (Float.ofInt 0).toModel.unpack = .zero .positive := by rfl
  rw [float_beq_iff]
  by_cases ha0 : a = 0 <;> by_cases hb0 : b = 0
  · subst ha0 hb0
    exact iff_of_true (hzero ▸ .zero _ _) rfl
  · subst ha0
    rw [hzero, unpack_ofInt hb0 hb]
    exact iff_of_false nofun (Ne.symm hb0)
  · subst hb0
    rw [hzero, unpack_ofInt ha0 ha]
    exact iff_of_false nofun ha0
  · rw [unpack_ofInt ha0 ha, unpack_ofInt hb0 hb]
    constructor
    · intro h
      obtain ⟨hsign, hfilled, hlog⟩ := h.parts
      have habs := filled_inj hfilled (by omega)
      split at hsign <;> split at hsign <;> first | omega | cases hsign
    · rintro rfl
      exact .finite _ _ _ _ _

/-- An integer turns into a float without loss. -/
theorem floatOfInt_beq (a b : Int32) : (floatOfInt a == floatOfInt b) = (a == b) := by
  have hsmall : ∀ n : Int32, n.toInt.natAbs < 2 ^ 53 := fun n => by
    have hlow := n.le_toInt
    have hhigh := n.toInt_lt
    omega
  rw [Bool.eq_iff_iff, floatOfInt, floatOfInt, ofInt_beq (hsmall a) (hsmall b), beq_iff_eq,
    Int32.toInt_inj]

end StackScript.Decimal
