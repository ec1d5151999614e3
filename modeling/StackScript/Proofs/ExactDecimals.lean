import Mathlib
import StackScript.Decimal.Reading
import StackScript.Decimal.Shortest

/-!
# Exact decimals of floats

A finite float is a whole number of units `10 ^ -k` for a `k` that is large enough, since ten is
divisible by two.  `exactly` writes it so, and reading that decimal gives back the float
(`nearest_exactly`): the quotient that is rounded there is one that a float has, so rounding does
nothing.

* `Canonical`: the mantissas and exponents that floats have.
* `round_canonical`: rounding leaves them alone.
* `unsigned_ofDigits`: a decimal is read as a number without a sign.
-/

namespace StackScript.Decimal

open Float.Model Float.Model.UnpackedFloat

/-! ### The bits of a float -/

/-- Is a float a number without the sign of negative ones? -/
def isUnsigned : UnpackedFloat → Bool
  | .infinity s | .zero s | .finite s _ _ _ => s == .positive
  | .notANumber => false

/-- A mantissa and an exponent that a float has. -/
def Canonical (m : Nat) (e : Int) : Prop :=
  (m < 2 ^ 52 ∧ e = -1074) ∨ (2 ^ 52 ≤ m ∧ m < 2 ^ 53 ∧ -1074 ≤ e ∧ e ≤ 971)

theorem toNat_hidden {w : Nat} (v : BitVec w) : (1#1 ++ v).toNat = 2 ^ w + v.toNat := by
  rw [BitVec.toNat_append, ← Nat.shiftLeft_add_eq_or_of_lt v.isLt]
  simp [Nat.shiftLeft_eq]

theorem sign_packComponents {s : Sign} {e : BitVec 11} {m : BitVec 52} :
    Sign.ofBitVec (unpackSign (packComponents .binary64 s e m)) = s := by
  simp only [unpackSign, packComponents, BitVec.extractLsb]
  rw [BitVec.extractLsb'_append_eq_of_le (by omega), BitVec.extractLsb'_append_eq_of_le (by omega)]
  cases s <;> rfl

/-- A word is made of its sign, its exponent and its mantissa. -/
theorem packComponents_self (b : BitVec Format.binary64.numBits) :
    packComponents .binary64 (Sign.ofBitVec (unpackSign b)) (unpackExponent b) (unpackMantissa b) =
      b := by
  have hsign : ∀ v : BitVec 1, (Sign.ofBitVec v).toBitVec = v := by decide
  simp only [packComponents, hsign, unpackSign, unpackExponent, unpackMantissa, BitVec.extractLsb]
  ext i hi
  grind

theorem log2_of_normal {m : Nat} (hlow : 2 ^ 52 ≤ m) (hhigh : m < 2 ^ 53) : m.log2 = 52 := by
  have hge := (Nat.le_log2 (by omega)).2 hlow
  have hlt := (Nat.log2_lt (by omega)).2 hhigh
  omega

/-- What a finite float is made of. -/
theorem canonical_of_unpack {b : BitVec Format.binary64.numBits} {s : Sign} {m : Nat} {e : Int}
    {hm : 0 < m} (h : UnpackedFloat.unpack .binary64 b = .finite s m e hm) :
    Canonical m e ∧ UnpackedFloat.pack .binary64 (.finite s m e hm) = b := by
  have hbias : ((Format.binary64.exponentBias : Nat) : Int) = 1023 := rfl
  have hwidth : ((Format.binary64.mantissaBitsWithoutImplicit : Nat) : Int) = 52 := rfl
  have hbits : Format.binary64.mantissaBits = 53 := rfl
  have hmantissa : (unpackMantissa b).toNat < 2 ^ 52 := (unpackMantissa b).isLt
  have hexponent : (unpackExponent b).toNat < 2 ^ 11 := (unpackExponent b).isLt
  have hfield : 2 ^ Format.binary64.exponentBits = 2 ^ 11 := rfl
  have hself := packComponents_self b
  unfold UnpackedFloat.unpack at h
  dsimp only at h
  split at h
  · split at h <;> cases h
  · next hfull =>
    have hfull : (unpackExponent b).toNat ≠ 2 ^ 11 - 1 := fun he => hfull (BitVec.eq_of_toNat_eq he)
    split at h
    · next hzero =>
      split at h
      · cases h
      · -- Below the first mantissa that fills all bits, the exponent is the least one.
        obtain ⟨rfl, rfl, rfl⟩ := UnpackedFloat.finite.inj h
        have he : ((unpackExponent b).toNat : Int) - ((Format.binary64.exponentBias : Nat) +
            (Format.binary64.mantissaBitsWithoutImplicit : Nat)) + 1 = -1074 := by
          rw [hzero, hbias, hwidth]
          rfl
        refine ⟨.inl ⟨hmantissa, he⟩, ?_⟩
        have hlog : ¬(unpackMantissa b).toNat.log2 + 1 = 53 := fun hl => by
          have hge := (Nat.le_log2 (by omega)).1 (show 52 ≤ (unpackMantissa b).toNat.log2 by omega)
          omega
        rw [UnpackedFloat.pack]
        dsimp only
        rw [he, hbias, hwidth, hbits, if_neg (by decide), if_neg hlog, BitVec.ofNat_toNat,
          BitVec.setWidth_eq]
        rwa [hzero] at hself
    · next hnonzero =>
      have hnonzero : (unpackExponent b).toNat ≠ 0 := fun he => hnonzero (BitVec.eq_of_toNat_eq he)
      -- a normal number: its mantissa has the hidden bit in front
      obtain ⟨rfl, rfl, rfl⟩ := UnpackedFloat.finite.inj h
      have hhidden : (1#1 ++ unpackMantissa b).toNat = 2 ^ 52 + (unpackMantissa b).toNat := toNat_hidden _
      have hlow : 2 ^ 52 ≤ (1#1 ++ unpackMantissa b).toNat := by omega
      have hhigh : (1#1 ++ unpackMantissa b).toNat < 2 ^ 53 := by omega
      refine ⟨.inr ⟨hlow, hhigh, by rw [hbias, hwidth]; omega, by rw [hbias, hwidth]; omega⟩, ?_⟩
      have he : (((unpackExponent b).toNat : Int) - (1023 + 52) + 1023 + 52).toNat =
          (unpackExponent b).toNat := by omega
      have hm : BitVec.ofNat 52 (1#1 ++ unpackMantissa b).toNat = unpackMantissa b := by
        refine BitVec.eq_of_toNat_eq ?_
        rw [BitVec.toNat_ofNat]
        show _ % 2 ^ 52 = _
        omega
      rw [UnpackedFloat.pack]
      dsimp only
      rw [hbias, hwidth, hbits, he, hfield, if_neg (by omega), log2_of_normal hlow hhigh,
        if_pos rfl, BitVec.ofNat_toNat, BitVec.setWidth_eq, hm]
      exact hself

theorem pack_unpack_finite {x : Float} {s : Sign} {m : Nat} {e : Int} {hm : 0 < m}
    (h : x.toModel.unpack = .finite s m e hm) :
    Float.ofModel (Float.Model.pack (.finite s m e hm)) = x := by
  obtain ⟨⟨⟨b⟩, hb⟩⟩ := x
  have hpack : UnpackedFloat.pack .binary64 (.finite s m e hm) = b := (canonical_of_unpack h).2
  simp only [Float.Model.pack, hpack]

/-! ### Rounding a float -/

theorem log2_mul_pow {m : Nat} (hm : 0 < m) (n : Nat) : (m * 2 ^ n).log2 = m.log2 + n := by
  induction n with
  | zero => simp
  | succ n ih =>
    have hpos : m * 2 ^ n ≠ 0 := Nat.pos_iff_ne_zero.1 (Nat.mul_pos hm (Nat.two_pow_pos n))
    rw [Nat.pow_succ, ← Nat.mul_assoc, Nat.mul_comm _ 2, Nat.log2_two_mul hpos, ih, Nat.add_assoc]

/-- Halving takes back what doubling did. -/
theorem shiftRight_double (m n : Nat) :
    (⟨m * 2 ^ n, false, false⟩ : ExtendedMantissa) >>> n = ⟨m, false, false⟩ := by
  show Nat.repeat ExtendedMantissa.shiftRightOne n _ = _
  induction n generalizing m with
  | zero => simp [Nat.repeat]
  | succ n ih =>
    rw [Nat.repeat, show m * 2 ^ (n + 1) = m * 2 * 2 ^ n by rw [Nat.pow_succ]; ac_rfl, ih (m * 2)]
    simp [ExtendedMantissa.shiftRightOne]

/-- The exponent of a float is the one that its size asks for. -/
theorem targetExponent_canonical {m : Nat} {e : Int} (h : Canonical m e) :
    Format.binary64.targetExponent (m.log2 + 1 + e) = e := by
  have hbits : ((Format.binary64.mantissaBits : Nat) : Int) = 53 := rfl
  have hmin : Format.binary64.minExponent = -1074 := rfl
  rw [Format.targetExponent, hbits, hmin]
  rcases h with ⟨hm, rfl⟩ | ⟨hlow, hhigh, he, -⟩
  · have hlog : m.log2 < 53 := by
      by_cases h0 : m = 0
      · subst h0
        decide
      · exact (Nat.log2_lt h0).2 (by omega)
    omega
  · rw [log2_of_normal hlow hhigh]
    omega

/-- A float that is counted in smaller units is shifted back to its own. -/
theorem shift_canonical {m n : Nat} {e : Int} (hm : 0 < m) (h : Canonical m e) :
    shiftToTargetExponent .binary64 (m * 2 ^ n) (e - n) .exact = (⟨m, false, false⟩, e) := by
  have htotal : totalExponent (m * 2 ^ n) (e - n) = m.log2 + 1 + e := by
    rw [totalExponent, log2_mul_pow hm]
    push_cast
    omega
  rw [shiftToTargetExponent, htotal, targetExponent_canonical h, shiftToExponent]
  have hshift : (e - (e - n)).toNat = n := by omega
  simp only [hshift, ExtendedMantissa.ofMantissaAndAccuracy, shiftRight_double]
  exact congrArg _ (by omega)

/-- Rounding does nothing to a float. -/
theorem round_canonical {m n : Nat} {e : Int} {s : Sign} (hm : 0 < m) (h : Canonical m e) :
    roundWithAccuracy .binary64 s (m * 2 ^ n) (e - n) .exact = .finite s m e hm := by
  have hagain := shift_canonical (n := 0) hm h
  rw [Nat.pow_zero, Nat.mul_one, Int.natCast_zero, Int.sub_zero] at hagain
  have hrounded : (⟨m, false, false⟩ : ExtendedMantissa).roundedMantissa = m := rfl
  unfold roundWithAccuracy
  simp only [shift_canonical hm h, hrounded, hagain]
  exact dif_neg (by omega)

/-! ### Dividing by a power of ten -/

/-- Ten units are too few by less than one bit: the size of a quotient by a power of ten, read off the
sizes of its parts. -/
theorem log2_scaled_le {m j k : Nat} (hm : 0 < m) (hbound : m < 2 ^ 53) :
    (m * 2 ^ j * 5 ^ k).log2 + k ≤ 53 + j + (10 ^ k).log2 := by
  have hten : 10 ^ k < 2 ^ ((10 ^ k).log2 + 1) := Nat.lt_log2_self
  have hsplit : 10 ^ k = 5 ^ k * 2 ^ k := by rw [← Nat.mul_pow]
  have hle : k ≤ (10 ^ k).log2 := by
    rw [hsplit, log2_mul_pow (Nat.pow_pos (by decide))]
    omega
  have hfive : 5 ^ k < 2 ^ ((10 ^ k).log2 + 1 - k) := by
    have hpow : 2 ^ ((10 ^ k).log2 + 1) = 2 ^ ((10 ^ k).log2 + 1 - k) * 2 ^ k := by
      rw [← Nat.pow_add]
      congr 1
      omega
    rw [hpow] at hten
    rw [hsplit] at hten ⊢
    exact Nat.lt_of_mul_lt_mul_right hten
  have hpos : m * 2 ^ j * 5 ^ k ≠ 0 := Nat.pos_iff_ne_zero.1
    (Nat.mul_pos (Nat.mul_pos hm (Nat.two_pow_pos j)) (Nat.pow_pos (by decide)))
  have hlt : m * 2 ^ j * 5 ^ k < 2 ^ (53 + j + ((10 ^ k).log2 + 1 - k)) := by
    rw [Nat.pow_add, Nat.pow_add]
    exact Nat.mul_lt_mul'' (Nat.mul_lt_mul_of_pos_right hbound (Nat.two_pow_pos j)) hfive
  have hlog := (Nat.log2_lt hpos).2 hlt
  omega

/-- A float that is counted in units of `10 ^ -k` is divided without a remainder. -/
theorem divCore_exact {m j k : Nat} {e : Int} (hm : 0 < m) (h : Canonical m e) (hj : (j : Int) = e + k) :
    ∃ n : Nat, divCore .binary64 (m * 2 ^ j * 5 ^ k) 0 (10 ^ k) 0 = (m * 2 ^ n, e - n, .exact) := by
  have hbits : ((Format.binary64.mantissaBits : Nat) : Int) = 53 := rfl
  have hmin : Format.binary64.minExponent = -1074 := rfl
  have hbound : m < 2 ^ 53 := by
    rcases h with ⟨hm, -⟩ | ⟨-, hm, -⟩
    · exact Nat.lt_trans hm (by decide)
    · exact hm
  have hleast : -1074 ≤ e := by
    rcases h with ⟨-, rfl⟩ | ⟨-, -, he, -⟩ <;> omega
  have hsize := log2_scaled_le (j := j) (k := k) hm hbound
  unfold divCore
  generalize ht : min ((0 : Int) - 0) (Format.binary64.targetExponent
    (totalExponent (m * 2 ^ j * 5 ^ k) 0 - totalExponent (10 ^ k) 0)) = t
  have hte : t ≤ e ∧ t ≤ 0 := by
    rw [Format.targetExponent, hbits, hmin, totalExponent, totalExponent] at ht
    omega
  obtain ⟨n, hn⟩ : ∃ n : Nat, (n : Int) = e - t := ⟨(e - t).toNat, by omega⟩
  -- the quotient is exact, because the powers of ten cancel
  have hshift : (m * 2 ^ j * 5 ^ k) <<< (0 - 0 - t).toNat = m * 2 ^ n * 10 ^ k := by
    have hsum : j + (0 - 0 - t).toNat = n + k := by omega
    rw [Nat.shiftLeft_eq, show 10 ^ k = 2 ^ k * 5 ^ k by rw [← Nat.mul_pow]]
    calc m * 2 ^ j * 5 ^ k * 2 ^ (0 - 0 - t).toNat = m * 2 ^ (j + (0 - 0 - t).toNat) * 5 ^ k := by ring
      _ = m * 2 ^ n * (2 ^ k * 5 ^ k) := by
          rw [hsum]
          ring
  refine ⟨n, ?_⟩
  have hten : 0 < 10 ^ k := Nat.pow_pos (by decide)
  simp only [hshift, Nat.mul_div_cancel _ hten, Nat.mul_mod_left]
  rw [accuracyOfFraction, if_pos rfl, show t = e - n by omega]

/-! ### The exact decimal -/

/-- The magnitude of a finite float, as a decimal.  There are digits enough behind the point for a
quotient that is rounded once. -/
def exactly (x : Float) : Scaled :=
  match x.toModel.unpack with
  | .finite _ m e _ =>
    let places := max 23 (-e).toNat
    ⟨m * 2 ^ (e + places).toNat * 5 ^ places, -places⟩
  | _ => ⟨0, -23⟩

theorem exactly_exponent (x : Float) : (exactly x).exponent ≤ 0 := by
  unfold exactly
  split
  · exact Int.neg_nonpos_of_nonneg (Int.natCast_nonneg _)
  · decide

/-- Zero has one form without a sign. -/
theorem eq_zero_of_unpack {x : Float} (h : x.toModel.unpack = .zero .positive) : x = 0.0 := by
  obtain ⟨⟨⟨b⟩, hb⟩⟩ := x
  have hself := packComponents_self b
  have hb : Sign.ofBitVec (@unpackSign .binary64 b) = .positive ∧
      @unpackExponent .binary64 b = 0#11 ∧ @unpackMantissa .binary64 b = 0#52 := by
    have h : UnpackedFloat.unpack .binary64 b = .zero .positive := h
    unfold UnpackedFloat.unpack at h
    dsimp only at h
    split at h
    · split at h <;> cases h
    · split at h
      · next he =>
        split at h
        · next hm => exact ⟨UnpackedFloat.zero.inj h, he, hm⟩
        · cases h
      · cases h
  rw [hb.1, hb.2.1, hb.2.2] at hself
  subst hself
  rfl

/-- A number with a power of five has digits enough. -/
theorem digits_of_five {n k w count : Nat} (hk : k ≤ 3 * w) (hn : 5 ^ k ≤ n)
    (hcount : n < 10 ^ count) : k ≤ count + w := by
  by_contra hshort
  have hfour : 2 ^ count ≤ 5 ^ w :=
    calc 2 ^ count ≤ 2 ^ (2 * w) := Nat.pow_le_pow_right (by decide) (by omega)
      _ = 4 ^ w := Nat.pow_mul 2 2 w
      _ ≤ 5 ^ w := Nat.pow_le_pow_left (by decide) w
  have hten : 10 ^ count ≤ 5 ^ k :=
    calc 10 ^ count = 2 ^ count * 5 ^ count := by rw [← Nat.mul_pow]
      _ ≤ 5 ^ w * 5 ^ count := Nat.mul_le_mul_right _ hfour
      _ = 5 ^ (w + count) := (Nat.pow_add 5 w count).symm
      _ ≤ 5 ^ k := Nat.pow_le_pow_right (by decide) (by omega)
  omega

/-- The exact decimal of a float without a sign is read as the float. -/
theorem nearest_exactly {x : Float} (hfinite : x.isFinite = true)
    (hsign : isUnsigned x.toModel.unpack = true) {count : Nat}
    (hcount : (exactly x).digits < 10 ^ count) :
    nearest (exactly x).digits count (exactly x).exponent = x := by
  unfold exactly at hcount ⊢
  have hfinite : x.toModel.unpack.isFinite = true := hfinite
  cases hx : x.toModel.unpack with
  | infinity s => simp [hx, UnpackedFloat.isFinite] at hfinite
  | notANumber => simp [hx, UnpackedFloat.isFinite] at hfinite
  | zero s =>
    cases s with
    | negative =>
      rw [hx] at hsign
      exact absurd hsign (by decide)
    | positive =>
      rw [hx] at hcount
      exact (eq_zero_of_unpack hx).symm
  | finite s m e hm =>
    cases s with
    | negative =>
      rw [hx] at hsign
      exact absurd (show false = true from hsign) nofun
    | positive =>
      rw [hx] at hcount
      dsimp only at hcount ⊢
      -- a positive number: its digits are those of the mantissa, scaled by a power of ten
      have hcanonical := (canonical_of_unpack hx).1
      have hleast : -1074 ≤ e := by
        rcases hcanonical with ⟨-, rfl⟩ | ⟨-, -, he, -⟩ <;> omega
      generalize hk : max 23 (-e).toNat = k at hcount ⊢
      have hj : ((e + k).toNat : Int) = e + k := by omega
      obtain ⟨n, hdiv⟩ := divCore_exact hm hcanonical hj
      have hpos : 0 < m * 2 ^ (e + k).toNat := Nat.mul_pos hm (Nat.two_pow_pos _)
      have hfive : 5 ^ k ≤ m * 2 ^ (e + k).toNat * 5 ^ k := Nat.le_mul_of_pos_left _ hpos
      have hplaces : k ≤ count + 400 := digits_of_five (by omega) hfive hcount
      generalize hd : m * 2 ^ (e + k).toNat * 5 ^ k = d at *
      have hdpos : 0 < d := Nat.lt_of_lt_of_le (Nat.pow_pos (by decide)) hfive
      have hofScientific : Float.ofScientific d true k = x := by
        -- there are too many places for the short way with floats
        have hlarge : ¬(d < 2 ^ 53 ∧ k ≤ 22) := by omega
        rw [Float.ofScientific, dif_neg hlarge]
        refine Eq.trans ?_ (pack_unpack_finite hx)
        show Float.ofModel (Float.Model.pack (UnpackedFloat.ofScientific .binary64 d (Int.negOfNat k))) = _
        have hnegative : Int.negOfNat k = -(k : Int) := Int.negOfNat_eq
        have hfield : (2 : Int) ^ Format.binary64.exponentBits = 2048 := rfl
        rw [UnpackedFloat.ofScientific, hnegative, hfield, dif_neg (by omega), if_neg (by omega),
          if_neg (by omega), if_neg (by omega)]
        have hten : (-(-(k : Int))).toNat = k := by omega
        simp only [UnpackedFloat.div, hten, hdiv]
        exact congrArg _ (congrArg _ (round_canonical hm hcanonical))
      have hexponent : (-(k : Int)).natAbs = k := by omega
      have hinteger : decide (-(k : Int) < 0) = true := decide_eq_true (by omega)
      unfold nearest
      rw [if_neg (by simp; omega), if_neg (by omega), if_neg (by simp only [Int.ofNat_eq_natCast]; omega),
        hexponent, hinteger]
      exact hofScientific

/-! ### Decimals have no sign -/

theorem eq_positive {s : Sign} (h : (s == .positive) = true) : s = .positive := by
  cases s with
  | negative => cases h
  | positive => rfl

/-- The bit of the sign tells negative floats apart, and the mantissa what is no number. -/
theorem unsigned_unpack {b : BitVec Format.binary64.numBits}
    (hsign : Sign.ofBitVec (unpackSign b) = .positive)
    (hnumber : unpackExponent b = (-1#_) → unpackMantissa b = 0#_) :
    isUnsigned (UnpackedFloat.unpack .binary64 b) = true := by
  unfold UnpackedFloat.unpack
  dsimp only
  rw [hsign]
  split
  · next hfull =>
    rw [if_pos (hnumber hfull)]
    rfl
  · split
    · split <;> rfl
    · rfl

theorem unsigned_packComponents {e : BitVec 11} {m : BitVec 52} (h : e = (-1#_) → m = 0#_) :
    isUnsigned (UnpackedFloat.unpack .binary64 (packComponents .binary64 .positive e m)) = true := by
  refine unsigned_unpack sign_packComponents fun hfull => ?_
  rw [unpackExponent_packComponents] at hfull
  rw [unpackMantissa_packComponents]
  exact h hfull

theorem unsigned_pack {u : UnpackedFloat} (h : isUnsigned u = true) :
    isUnsigned (Float.Model.pack u).unpack = true := by
  show isUnsigned (UnpackedFloat.unpack .binary64 (UnpackedFloat.pack .binary64 u)) = true
  cases u with
  | notANumber => cases h
  | infinity s =>
    rw [eq_positive h]
    exact unsigned_packComponents fun _ => rfl
  | zero s =>
    rw [eq_positive h]
    exact unsigned_packComponents fun _ => rfl
  | finite s m e hm =>
    rw [eq_positive h]
    unfold UnpackedFloat.pack
    dsimp only
    split
    · exact unsigned_packComponents fun _ => rfl
    · next hsmall =>
      split
      · refine unsigned_packComponents fun hfull => ?_
        have hvalue := congrArg BitVec.toNat hfull
        rw [BitVec.toNat_ofNat, Nat.mod_eq_of_lt (by omega)] at hvalue
        exact absurd hvalue (by simp; omega)
      · exact unsigned_packComponents fun hfull => absurd hfull (by decide)

theorem unsigned_round (m : Nat) (e : Int) (a : Accuracy) :
    isUnsigned (roundWithAccuracy .binary64 .positive m e a) = true := by
  unfold roundWithAccuracy
  dsimp only
  split <;> rfl

/-- Is a float a number above zero that has an end? -/
def isPositive : UnpackedFloat → Bool
  | .finite s _ _ _ => s == .positive
  | _ => false

theorem unsigned_mul {a b : UnpackedFloat} (ha : isUnsigned a = true) (hb : isPositive b = true) :
    isUnsigned (UnpackedFloat.mul .binary64 a b) = true := by
  cases b with
  | finite t n f hn =>
    rw [eq_positive hb]
    cases a with
    | notANumber => cases ha
    | infinity s => rw [eq_positive ha]; rfl
    | zero s => rw [eq_positive ha]; rfl
    | finite s m e hm =>
      rw [eq_positive ha]
      exact unsigned_round _ _ _
  | _ => cases hb

theorem unsigned_div {a b : UnpackedFloat} (ha : isUnsigned a = true) (hb : isPositive b = true) :
    isUnsigned (UnpackedFloat.div .binary64 a b) = true := by
  cases b with
  | finite t n f hn =>
    rw [eq_positive hb]
    cases a with
    | notANumber => cases ha
    | infinity s => rw [eq_positive ha]; rfl
    | zero s => rw [eq_positive ha]; rfl
    | finite s m e hm =>
      rw [eq_positive ha]
      exact unsigned_round _ _ _
  | _ => cases hb

theorem unsigned_ofNat (n : Nat) : isUnsigned (UnpackedFloat.ofNat .binary64 n) = true := by
  unfold UnpackedFloat.ofNat UnpackedFloat.ofInt UnpackedFloat.normalize
  split
  · next h => exact absurd (Int.compare_eq_lt.1 h) (by omega)
  · rfl
  · exact unsigned_round _ _ _

theorem unsigned_scaled (m : Nat) (e : Int) :
    isUnsigned (UnpackedFloat.ofScientific .binary64 m e) = true := by
  unfold UnpackedFloat.ofScientific
  split
  · rfl
  · split
    · rfl
    · split
      · rfl
      · split
        · exact unsigned_round _ _ _
        · exact unsigned_div rfl rfl

/-- A decimal is read as a number without a sign. -/
theorem unsigned_ofScientific (m : Nat) (s : Bool) (e : Nat) :
    isUnsigned (Float.ofScientific m s e).toModel.unpack = true := by
  unfold Float.ofScientific
  split
  · next h =>
    -- Few digits are divided by, or multiplied with, one of the first powers of ten.
    have hpowers : ∀ i : Fin 23,
        isPositive (Float.exactlyRepresentablePowersOfTen[i]).toModel.unpack = true := by decide
    have hpower := hpowers ⟨e, by omega⟩
    have hdigits := unsigned_pack (unsigned_ofNat m.toUInt64.toNat)
    dsimp only
    split
    · exact unsigned_pack (unsigned_div hdigits hpower)
    · exact unsigned_pack (unsigned_mul hdigits hpower)
  · exact unsigned_pack (unsigned_scaled m _)

/-- What is read from a decimal is a number without a sign. -/
theorem unsigned_ofDigits (whole fraction : List Char) (exponent : Int) :
    isUnsigned (ofDigits whole fraction exponent).toModel.unpack = true := by
  unfold ofDigits nearest
  dsimp only
  split
  · decide
  · split
    · decide
    · split
      · decide
      · exact unsigned_ofScientific _ _ _

end StackScript.Decimal
