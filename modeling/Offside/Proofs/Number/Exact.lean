import Mathlib
import Offside.Number.Binary

/-!
# Integers as doubles

A double keeps fifty-three binary digits, so an integer with no more of them is kept as it is.
The conversions round and pack, but there is nothing to round: the digits are shifted up until
the first of them is in its place, and all that is shifted out again is zeros. Main results:

> `integer?_ofInt`: an integer below two to the fifty-third is the integer that its double is;

> `beq_ofInt_iff`: and the doubles that are this integer are those that are equal to its double.
-/

namespace Offside

open Float.Model UnpackedFloat

variable {s : Sign} {m n j : Nat} {e k : Int} {x : Float}

/-! ## The parts of a double -/

/-- Whether a sign is that of the doubles below zero. -/
def isNegative : Sign → Bool
  | .negative => true
  | .positive => false

/-- The parts of a double, as its model has them. -/
def Binary.ofParts : UnpackedFloat → Binary
  | .notANumber => nan
  | .infinity sign => infinite (isNegative sign)
  | .zero sign => finite (isNegative sign) 0 (-1074)
  | .finite sign mantissa exponent _ => finite (isNegative sign) mantissa exponent

/-- The exponent is the eleven bits behind the sign. -/
theorem toNat_unpackExponent (b : BitVec Format.binary64.numBits) :
    (unpackExponent b).toNat = (b.toNat >>> 52) % (1 <<< 11) := by
  rw [unpackExponent, BitVec.toNat_cast, BitVec.extractLsb_toNat]
  rfl

/-- The mantissa is the lowest fifty-two bits. -/
theorem toNat_unpackMantissa (b : BitVec Format.binary64.numBits) :
    (unpackMantissa b).toNat = b.toNat % (1 <<< 52) := by
  rw [unpackMantissa, BitVec.toNat_cast, BitVec.extractLsb_toNat, Nat.shiftRight_zero]
  rfl

/-- The sign is the highest bit. -/
theorem isNegative_unpackSign (b : BitVec Format.binary64.numBits) :
    isNegative (Sign.ofBitVec (unpackSign b)) = decide (1 <<< 63 ≤ b.toNat) := by
  have hlt : b.toNat < 2 ^ 64 := b.isLt
  have hsign : (unpackSign b).toNat = b.toNat / 2 ^ 63 := by
    have hsmall : b.toNat / 2 ^ 63 < 2 := by omega
    rw [unpackSign, BitVec.toNat_cast, BitVec.extractLsb_toNat]
    show b.toNat >>> 63 % 2 = b.toNat / 2 ^ 63
    rw [Nat.shiftRight_eq_div_pow, Nat.mod_eq_of_lt hsmall]
  have hpositive : unpackSign b = 0#1 ↔ ¬1 <<< 63 ≤ b.toNat := by
    rw [← BitVec.toNat_inj, hsign]
    show b.toNat / 2 ^ 63 = 0 ↔ ¬2 ^ 63 ≤ b.toNat
    omega
  rw [Sign.ofBitVec]
  split
  next h => exact (decide_eq_false (hpositive.mp h)).symm
  next h => exact (decide_eq_true (Decidable.not_not.mp (mt hpositive.mpr h))).symm

theorem toNat_one_append (mantissa : BitVec 52) :
    (1#1 ++ mantissa).toNat = 1 <<< 52 + mantissa.toNat := by
  rw [BitVec.toNat_append, ← Nat.shiftLeft_add_eq_or_of_lt mantissa.isLt]
  rfl

/-- The parts that are read from the bits are those of the model. -/
theorem Binary.ofFloat_eq (x : Float) : ofFloat x = ofParts x.toModel.unpack := by
  let b : BitVec Format.binary64.numBits := x.toModel.toBits.toBitVec
  have hspecial : (unpackExponent b).toNat = 0x7ff ↔ unpackExponent b = -1#11 :=
    BitVec.toNat_inj (y := -1#11)
  have hsubnormal : (unpackExponent b).toNat = 0 ↔ unpackExponent b = 0#11 :=
    BitVec.toNat_inj (y := 0#11)
  have hmantissa : (unpackMantissa b).toNat = 0 ↔ unpackMantissa b = 0#52 :=
    BitVec.toNat_inj (y := 0#52)
  show (let negative := decide (1 <<< 63 ≤ b.toNat)
    let biased : Nat := (b.toNat >>> 52) % (1 <<< 11)
    let fraction : Nat := b.toNat % (1 <<< 52)
    if biased = 0x7ff then if fraction = 0 then infinite negative else nan
    else if biased = 0 then finite negative fraction (-1074)
    else finite negative (1 <<< 52 + fraction) ((biased : Int) - 1075)) =
      ofParts (UnpackedFloat.unpack Format.binary64 b)
  rw [UnpackedFloat.unpack]
  simp only [← isNegative_unpackSign, ← toNat_unpackMantissa, ← toNat_unpackExponent,
    ← toNat_one_append, hspecial, hsubnormal, hmantissa]
  split
  next => split <;> rfl
  next =>
    split
    next hzero =>
      split
      next hnone =>
        rw [hnone]
        rfl
      next =>
        rw [hzero]
        rfl
    next => rfl

/-- A number is its parts: no two of them are taken for the same. -/
theorem Binary.ofParts_injective {u v : UnpackedFloat} (h : ofParts u = ofParts v) : u = v := by
  have hsign {s t : Sign} (hst : isNegative s = isNegative t) : s = t := by
    cases s <;> cases t <;> first | rfl | contradiction
  cases u <;> cases v <;> simp only [ofParts, finite.injEq, infinite.injEq, reduceCtorEq] at h
  case infinity.infinity => rw [hsign h]
  case notANumber.notANumber => rfl
  case zero.zero => rw [hsign h.1]
  case finite.finite s m e hm t n f hn =>
    obtain ⟨hst, rfl, rfl⟩ := h
    rw [hsign hst]
  -- no mantissa is zero but that of zero
  case zero.finite s t n f hn => exact absurd h.2.1 (Nat.ne_of_lt hn)
  case finite.zero s m e hm t => exact absurd h.2.1 (Nat.ne_of_gt hm)

/-- A finite double has all the digits of its mantissa, or it has the least exponent. -/
theorem Binary.log2_of_ofFloat {negative : Bool} (h : ofFloat x = finite negative m e)
    (hm : 0 < m) : m.log2 = 52 ∨ m.log2 < 52 ∧ e = -1074 := by
  have hfraction : x.toBits.toNat % (1 <<< 52) < 2 ^ 52 := Nat.mod_lt _ (Nat.two_pow_pos 52)
  unfold ofFloat at h
  dsimp only at h
  split at h
  next => split at h <;> cases h
  next =>
    split at h
    next =>
      cases h
      exact .inr ⟨(Nat.log2_lt (Nat.ne_of_gt hm)).mpr hfraction, rfl⟩
    next =>
      rw [finite.injEq] at h
      obtain ⟨-, rfl, -⟩ := h
      refine .inl ((Nat.log2_eq_iff (Nat.ne_of_gt hm)).mpr ?_)
      show 2 ^ 52 ≤ 2 ^ 52 + _ ∧ 2 ^ 52 + _ < 2 ^ 53
      omega

/-! ## The integer that a double is -/

/-- A finite double is an integer if its mantissa, shifted as its exponent says, is a whole
number of units. -/
theorem Binary.toInt?_finite_iff {negative : Bool} :
    (finite negative m e).toInt? = some k ↔
      ∃ j, k = signed negative j ∧ m * 2 ^ e.toNat = j * 2 ^ (-e).toNat := by
  rw [toInt?]
  split
  next he =>
    have hback : (-e).toNat = 0 := by omega
    rw [Option.some.injEq, Nat.shiftLeft_eq, hback]
    constructor
    · rintro rfl
      exact ⟨_, rfl, by rw [Nat.pow_zero, Nat.mul_one]⟩
    · rintro ⟨j, rfl, hj⟩
      rw [hj, Nat.pow_zero, Nat.mul_one]
  next he =>
    have hforth : e.toNat = 0 := by omega
    have hunit : 1 <<< (-e).toNat = 2 ^ (-e).toNat := Nat.one_shiftLeft _
    have hpos : 0 < 2 ^ (-e).toNat := Nat.two_pow_pos _
    rw [hunit, hforth, Nat.pow_zero, Nat.mul_one]
    constructor
    · intro h
      dsimp only at h
      split at h
      next hmod =>
        cases h
        exact ⟨_, rfl, (Nat.div_mul_cancel (Nat.dvd_of_mod_eq_zero hmod)).symm⟩
      next => contradiction
    · rintro ⟨j, rfl, rfl⟩
      rw [if_pos (Nat.mul_mod_left _ _), Nat.mul_div_cancel _ hpos]

/-- A power of two adds its exponent to the logarithm. -/
theorem log2_mul_two_pow (hn : 0 < n) (k : Nat) : (n * 2 ^ k).log2 = n.log2 + k := by
  induction k with
  | zero => rw [Nat.pow_zero, Nat.mul_one, Nat.add_zero]
  | succ k ih =>
    have hne : n * 2 ^ k ≠ 0 := Nat.ne_of_gt (Nat.mul_pos hn (Nat.two_pow_pos k))
    rw [Nat.pow_succ', Nat.mul_left_comm, Nat.log2_two_mul hne, ih, Nat.add_assoc]

/-- The parts of the double of an integer, if it is not zero: the first of its digits is the
first of the mantissa. -/
def Binary.ofInteger (k : Int) : Binary :=
  finite (decide (k < 0)) (k.natAbs * 2 ^ (52 - k.natAbs.log2)) (k.natAbs.log2 - 52)

theorem log2_lt_of_small (hn : 0 < n) (hlt : n < 2 ^ 53) : n.log2 < 53 :=
  (Nat.log2_lt (Nat.ne_of_gt hn)).mpr hlt

/-- An integer is its magnitude under its sign. -/
theorem Binary.signed_natAbs (k : Int) : Binary.signed (decide (k < 0)) k.natAbs = k := by
  rw [Binary.signed]
  split
  next h =>
    have := of_decide_eq_true h
    omega
  next h =>
    have := of_decide_eq_false (Bool.eq_false_iff.mpr h)
    omega

theorem Binary.natAbs_signed (negative : Bool) (j : Nat) :
    (Binary.signed negative j).natAbs = j := by
  cases negative with
  | true => exact Int.natAbs_neg _
  | false => rfl

theorem Binary.signed_lt_zero {negative : Bool} (hj : 0 < j) :
    decide (Binary.signed negative j < 0) = negative := by
  cases negative with
  | true => exact decide_eq_true (Int.neg_neg_of_pos (Int.natCast_pos.mpr hj))
  | false => exact decide_eq_false (Int.not_lt.mpr (Int.natCast_nonneg j))

/-- An integer below the precision is read back from its parts. -/
theorem Binary.toInt?_ofInteger (hk : k ≠ 0) (hlt : k.natAbs < 2 ^ 53) :
    (ofInteger k).toInt? = some k := by
  have hlog := log2_lt_of_small (Int.natAbs_pos.mpr hk) hlt
  have hforth : ((k.natAbs.log2 : Int) - 52).toNat = 0 := by omega
  have hback : (-((k.natAbs.log2 : Int) - 52)).toNat = 52 - k.natAbs.log2 := by omega
  rw [ofInteger, toInt?_finite_iff]
  exact ⟨k.natAbs, (signed_natAbs k).symm, by rw [hforth, hback, Nat.pow_zero, Nat.mul_one]⟩

/-- No other double is the integer. -/
theorem Binary.eq_ofInteger (hk : k ≠ 0) (hlt : k.natAbs < 2 ^ 53)
    (h : (ofFloat x).toInt? = some k) : ofFloat x = ofInteger k := by
  cases hx : ofFloat x with
  | nan =>
    rw [hx] at h
    contradiction
  | infinite =>
    rw [hx] at h
    contradiction
  | finite negative m e =>
    rw [hx] at h
    obtain ⟨j, rfl, hj⟩ := toInt?_finite_iff.mp h
    rw [natAbs_signed] at hlt
    have hjpos : 0 < j := Nat.pos_of_ne_zero fun hzero => hk (by rw [hzero]; cases negative <;> rfl)
    have hmpos : 0 < m := Nat.pos_of_ne_zero fun hzero => by
      rw [hzero, Nat.zero_mul] at hj
      exact absurd hj (Nat.ne_of_lt (Nat.mul_pos hjpos (Nat.two_pow_pos _)))
    have hlog := log2_lt_of_small hjpos hlt
    have hdigits := congrArg Nat.log2 hj
    rw [log2_mul_two_pow hmpos, log2_mul_two_pow hjpos] at hdigits
    rcases log2_of_ofFloat hx hmpos with hnormal | ⟨hsmall, hleast⟩
    · have hforth : e.toNat = 0 := by omega
      have hback : (-e).toNat = 52 - j.log2 := by omega
      have he : e = j.log2 - 52 := by omega
      rw [hforth, hback, Nat.pow_zero, Nat.mul_one] at hj
      rw [ofInteger, natAbs_signed, signed_lt_zero hjpos, ← hj, ← he]
    -- with the least exponent a mantissa is less than any integer
    · omega

/-! ## Rounding what needs no rounding -/

/-- A full mantissa keeps its exponent in rounding. -/
theorem targetExponent_normal (hlog : m.log2 = 52) (he : -1074 ≤ e) :
    Format.binary64.targetExponent (totalExponent m e) = e := by
  simp only [Format.targetExponent, totalExponent, hlog, Format.mantissaBits, Format.minExponent]
  omega

/-- Shifting out the zeros at the end of a mantissa loses nothing. -/
theorem shift_exact (m k : Nat) :
    (ExtendedMantissa.ofMantissaAndAccuracy (m * 2 ^ k) .exact >>> k) = ⟨m, false, false⟩ := by
  show k.repeat ExtendedMantissa.shiftRightOne ⟨m * 2 ^ k, false, false⟩ = _
  induction k generalizing m with
  | zero => simp [Nat.repeat]
  | succ k ih =>
    rw [Nat.repeat, Nat.pow_succ', ← Nat.mul_assoc, ih (m * 2)]
    simp [ExtendedMantissa.shiftRightOne]

/-- A mantissa with zeros at its end is rounded to the digits in front of them. -/
theorem roundWithAccuracy_exact (hlog : m.log2 = 52) (he : -1074 ≤ e) (hm : 0 < m) (k : Nat) :
    roundWithAccuracy Format.binary64 s (m * 2 ^ k) (e - k) .exact = .finite s m e hm := by
  have htarget : Format.binary64.targetExponent (totalExponent (m * 2 ^ k) (e - k)) = e := by
    simp only [Format.targetExponent, totalExponent, log2_mul_two_pow hm, hlog,
      Format.mantissaBits, Format.minExponent]
    omega
  have hshift : (e - (e - k)).toNat = k := by omega
  have hback : e - k + k = e := by omega
  have hstay : (ExtendedMantissa.ofMantissaAndAccuracy m .exact >>> 0) = ⟨m, false, false⟩ := rfl
  have hrounded : (⟨m, false, false⟩ : ExtendedMantissa).roundedMantissa = m := rfl
  rw [roundWithAccuracy, shiftToTargetExponent, htarget, shiftToExponent, hshift]
  dsimp only
  -- the second shift is for a mantissa that has grown by rounding, and does nothing here
  rw [shift_exact, hrounded, hback, shiftToTargetExponent, targetExponent_normal hlog he,
    shiftToExponent, Int.sub_self]
  dsimp only
  rw [Int.toNat_zero, hstay, dif_neg (Nat.ne_of_gt hm)]
  simp

/-! ## Packing what fits -/

/-- A full mantissa in range is packed without its leading bit. -/
theorem pack_normal (hlog : m.log2 = 52) (hm : 0 < m) (hhigh : e ≤ 971) :
    UnpackedFloat.pack Format.binary64 (.finite s m e hm) =
      packComponents Format.binary64 s (BitVec.ofNat 11 (e + 1075).toNat) (BitVec.ofNat 52 m) := by
  have hbiased : e + Format.binary64.exponentBias + Format.binary64.mantissaBitsWithoutImplicit =
      e + 1075 := by
    show e + 1023 + 52 = e + 1075
    omega
  have hbits : m.log2 + 1 = Format.binary64.mantissaBits := by
    rw [hlog]
    rfl
  have hfits : ¬2 ^ Format.binary64.exponentBits ≤ (e + 1075).toNat + 1 := by
    show ¬2 ^ 11 ≤ (e + 1075).toNat + 1
    omega
  rw [UnpackedFloat.pack]
  dsimp only
  rw [hbiased, if_neg hfits, if_pos hbits]

theorem finite_congr {f : Int} {hm : 0 < m} {hn : 0 < n} (hmn : m = n) (hef : e = f) :
    UnpackedFloat.finite s m e hm = .finite s n f hn := by
  subst hmn hef
  rfl

/-- A normal double is unpacked as it was packed. -/
theorem unpack_pack (hlog : m.log2 = 52) (hm : 0 < m) (hlow : -1074 ≤ e) (hhigh : e ≤ 971) :
    (Float.Model.pack (.finite s m e hm)).unpack = .finite s m e hm := by
  obtain ⟨hle, hlt⟩ := (Nat.log2_eq_iff (Nat.ne_of_gt hm)).mp hlog
  have hexponent : (BitVec.ofNat 11 (e + 1075).toNat).toNat = (e + 1075).toNat := by
    rw [BitVec.toNat_ofNat, Nat.mod_eq_of_lt (by omega)]
  have hne (reserved : BitVec 11) (h : (e + 1075).toNat ≠ reserved.toNat) :
      BitVec.ofNat 11 (e + 1075).toNat ≠ reserved := by
    rintro rfl
    exact h hexponent.symm
  have hspecial : BitVec.ofNat 11 (e + 1075).toNat ≠ -1#11 := by
    refine hne _ ?_
    show (e + 1075).toNat ≠ 2047
    omega
  have hnormal : BitVec.ofNat 11 (e + 1075).toNat ≠ 0#11 := by
    refine hne _ ?_
    show (e + 1075).toNat ≠ 0
    omega
  have hmantissa : (1#1 ++ BitVec.ofNat 52 m).toNat = m := by
    rw [toNat_one_append, BitVec.toNat_ofNat]
    omega
  have hbias : ((BitVec.ofNat 11 (e + 1075).toNat).toNat : Int) - (1023 + 52) = e := by
    rw [hexponent]
    omega
  show UnpackedFloat.unpack Format.binary64 (UnpackedFloat.pack Format.binary64 _) = _
  rw [pack_normal hlog hm hhigh]
  unfold UnpackedFloat.unpack
  simp only [unpackMantissa_packComponents, unpackExponent_packComponents, if_neg hspecial,
    if_neg hnormal, unpackSign_packComponents, Sign.ofBitVec_toBitVec]
  exact finite_congr hmantissa hbias

/-! ## The conversions -/

/-- The digits of a natural number are shifted up until there are fifty-three of them. -/
theorem log2_scaled (hn : 0 < n) (hlt : n < 2 ^ 53) : (n * 2 ^ (52 - n.log2)).log2 = 52 := by
  have hlog := log2_lt_of_small hn hlt
  rw [log2_mul_two_pow hn]
  omega

/-- A natural number below the precision is rounded to itself. -/
theorem round_natural (hn : 0 < n) (hlt : n < 2 ^ 53) (hm : 0 < n * 2 ^ (52 - n.log2)) :
    UnpackedFloat.round Format.binary64 s n 0 =
      .finite s (n * 2 ^ (52 - n.log2)) (n.log2 - 52) hm := by
  have hlog := log2_lt_of_small hn hlt
  have htarget : Format.binary64.targetExponent (totalExponent n 0) = (n.log2 : Int) - 52 := by
    simp only [Format.targetExponent, totalExponent, Format.mantissaBits, Format.minExponent]
    omega
  have hshift : ((0 : Int) - (n.log2 - 52)).toNat = 52 - n.log2 := by omega
  have hexponent : (0 : Int) - (52 - n.log2 : Nat) = (n.log2 - 52 : Int) - (0 : Nat) := by omega
  have hround := roundWithAccuracy_exact (s := s) (log2_scaled hn hlt)
    (by omega : -1074 ≤ (n.log2 : Int) - 52) hm 0
  rw [Nat.pow_zero, Nat.mul_one] at hround
  rw [UnpackedFloat.round, htarget, decreaseExponent, hshift, Nat.shiftLeft_eq]
  dsimp only
  rw [hexponent, hround]

/-- A conversion converts the digits and multiplies by one. -/
theorem ofNat_eq_mul_one (h : n < 2 ^ 53) :
    Float.ofNat n = n.toUInt64.toFloat * Float.ofBits 0x3FF0000000000000 := by
  rw [Float.ofNat]
  show Float.ofScientific n false 0 = _
  rw [Float.ofScientific, dif_pos ⟨h, by decide⟩]
  rfl

theorem unpack_one : (Float.ofBits 0x3FF0000000000000).toModel.unpack =
    .finite .positive (2 ^ 52) (-52) (Nat.two_pow_pos 52) := rfl

/-- The parts of the double of a natural number. -/
theorem unpack_ofNat (hn : 0 < n) (hlt : n < 2 ^ 53) (hm : 0 < n * 2 ^ (52 - n.log2)) :
    (Float.ofNat n).toModel.unpack =
      .finite .positive (n * 2 ^ (52 - n.log2)) (n.log2 - 52) hm := by
  have hlog := log2_lt_of_small hn hlt
  have hlow : -1074 ≤ (n.log2 : Int) - 52 := by omega
  have hhigh : (n.log2 : Int) - 52 ≤ 971 := by omega
  have hnormal := log2_scaled hn hlt
  have htoNat : n.toUInt64.toNat = n := by
    rw [Nat.toUInt64, UInt64.toNat_ofNat']
    omega
  have hconverted : n.toUInt64.toFloat.toModel.unpack =
      .finite .positive (n * 2 ^ (52 - n.log2)) (n.log2 - 52) hm := by
    show (Float.Model.pack
      (UnpackedFloat.normalize Format.binary64 (n.toUInt64.toNat : Int) 0 .positive)).unpack = _
    rw [htoNat, UnpackedFloat.normalize, Int.compare_eq_gt.mpr (Int.natCast_pos.mpr hn)]
    dsimp only
    rw [Int.toNat_natCast, round_natural hn hlt hm, unpack_pack hnormal hm hlow hhigh]
  have hproduct : roundWithAccuracy Format.binary64 (Sign.positive * Sign.positive)
      (n * 2 ^ (52 - n.log2) * 2 ^ 52) ((n.log2 - 52 : Int) + -52) .exact =
        .finite .positive (n * 2 ^ (52 - n.log2)) (n.log2 - 52) hm :=
    roundWithAccuracy_exact hnormal hlow hm 52
  rw [ofNat_eq_mul_one hlt]
  show (Float.Model.pack (UnpackedFloat.mul Format.binary64 n.toUInt64.toFloat.toModel.unpack
    (Float.ofBits 0x3FF0000000000000).toModel.unpack)).unpack = _
  rw [hconverted, unpack_one, UnpackedFloat.mul, hproduct, unpack_pack hnormal hm hlow hhigh]

/-- An integer below the precision has the parts of an integer. -/
theorem Binary.ofFloat_ofInt (hk : k ≠ 0) (hlt : k.natAbs < 2 ^ 53) :
    ofFloat (Float.ofInt k) = ofInteger k := by
  cases k with
  | ofNat n =>
    have hn : 0 < n := Nat.pos_of_ne_zero fun hzero => hk (congrArg Int.ofNat hzero)
    have hm : 0 < n * 2 ^ (52 - n.log2) := Nat.mul_pos hn (Nat.two_pow_pos _)
    show ofFloat (Float.ofNat n) = _
    rw [ofFloat_eq, unpack_ofNat hn hlt hm]
    rfl
  | negSucc n =>
    have hn : 0 < n + 1 := Nat.succ_pos n
    have hlog := log2_lt_of_small hn hlt
    have hm : 0 < (n + 1) * 2 ^ (52 - (n + 1).log2) := Nat.mul_pos hn (Nat.two_pow_pos _)
    show ofFloat (Float.neg (Float.ofNat (n + 1))) = _
    rw [ofFloat_eq]
    show ofParts (Float.Model.pack (Float.ofNat (n + 1)).toModel.unpack.neg).unpack = _
    rw [unpack_ofNat hn hlt hm, UnpackedFloat.neg, unpack_pack (log2_scaled hn hlt) hm
      (by omega) (by omega), ofInteger, decide_eq_true (Int.negSucc_lt_zero n)]
    rfl

/-- **An integer with up to fifty-three digits is kept** when it is made a double. -/
theorem integer?_ofInt (hlt : k.natAbs < 2 ^ 53) : integer? (Float.ofInt k) = some k := by
  by_cases hk : k = 0
  · rw [hk]
    rfl
  · rw [integer?, Binary.ofFloat_ofInt hk hlt, Binary.toInt?_ofInteger hk hlt]

theorem ofInt_natCast (n : Nat) : Float.ofInt n = Float.ofNat n := rfl

/-! ## The doubles that are an integer -/

/-- Doubles are equal if their parts are the same, or if both are zero. -/
theorem beq_iff_unpack (x y : Float) :
    (x == y) = true ↔ x.toModel.unpack ≠ .notANumber ∧ y.toModel.unpack ≠ .notANumber ∧
      (x.toModel.unpack = y.toModel.unpack ∨
        (x.toModel.unpack = .zero .positive ∧ y.toModel.unpack = .zero .negative) ∨
        (x.toModel.unpack = .zero .negative ∧ y.toModel.unpack = .zero .positive)) :=
  beq_iff_ne_notANumber_and_eq _ _

/-- Both zeros are the integer zero. -/
theorem toInt?_zero (s : Sign) : (Binary.ofParts (.zero s)).toInt? = some 0 := by
  cases s <;> rfl

/-- Only the zeros are the integer zero. -/
theorem eq_zero_of_toInt? {u : UnpackedFloat} (h : (Binary.ofParts u).toInt? = some 0) :
    ∃ s, u = .zero s := by
  cases u with
  | notANumber => cases h
  | infinity s => cases h
  | zero s => exact ⟨s, rfl⟩
  | finite s m e hm =>
    obtain ⟨j, hj, hshifted⟩ := Binary.toInt?_finite_iff.mp h
    have hzero : j = 0 := by rw [← Binary.natAbs_signed (isNegative s) j, ← hj, Int.natAbs_zero]
    rw [hzero, Nat.zero_mul] at hshifted
    exact absurd hshifted (Nat.ne_of_gt (Nat.mul_pos hm (Nat.two_pow_pos _)))

/-- **The doubles that are an integer** with up to fifty-three digits are those that are equal to
its double. -/
theorem beq_ofInt_iff (hlt : k.natAbs < 2 ^ 53) :
    (x == Float.ofInt k) = true ↔ integer? x = some k := by
  rw [beq_iff_unpack]
  constructor
  · rintro ⟨-, -, heq | ⟨hx, hy⟩ | ⟨hx, hy⟩⟩
    all_goals rw [← integer?_ofInt hlt, integer?, integer?, Binary.ofFloat_eq, Binary.ofFloat_eq]
    · rw [heq]
    · rw [hx, hy, toInt?_zero, toInt?_zero]
    · rw [hx, hy, toInt?_zero, toInt?_zero]
  · intro h
    have hinteger : (Binary.ofParts x.toModel.unpack).toInt? = some k := by
      rw [← Binary.ofFloat_eq, ← h, integer?]
    have hnumber : x.toModel.unpack ≠ .notANumber := by
      intro hx
      rw [hx] at hinteger
      cases hinteger
    by_cases hk : k = 0
    · subst hk
      have hzero : (Float.ofInt 0).toModel.unpack = .zero .positive := rfl
      obtain ⟨s, hx⟩ := eq_zero_of_toInt? hinteger
      rw [hzero, hx]
      cases s <;> simp
    · have hparts : x.toModel.unpack = (Float.ofInt k).toModel.unpack := by
        refine Binary.ofParts_injective ?_
        rw [← Binary.ofFloat_eq, ← Binary.ofFloat_eq, Binary.eq_ofInteger hk hlt h,
          Binary.ofFloat_ofInt hk hlt]
      exact ⟨hnumber, hparts ▸ hnumber, .inl hparts⟩

/-- Neither an infinity nor NaN is an integer. -/
theorem integer?_of_not_finite (h : x.isFinite = false) : integer? x = none := by
  rw [integer?, Binary.ofFloat_eq]
  change x.toModel.unpack.isFinite = false at h
  cases hu : x.toModel.unpack with
  | notANumber | infinity => rfl
  | zero | finite =>
    rw [hu] at h
    cases h

end Offside
