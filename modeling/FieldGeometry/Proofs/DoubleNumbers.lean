import Mathlib
import FieldGeometry.Scalar.Double

/-!
# The numbers of double precision

A double that is neither infinite nor undefined stands for a real number: decoded, it is a zero, or
a sign, a mantissa and an exponent in canonical form (`Canonical`).  The mantissa then has its full
length of 53 bits unless the exponent is the least.  Such numbers survive being encoded and decoded
(`unpack_pack`), and of two of them with one sign that of the greater exponent is the greater one,
so that comparing exponents before mantissas is comparing the numbers (`exists_compare`).
-/

namespace FieldGeometry

namespace Double

open Float.Model (Format UnpackedFloat)
open Float.Model.UnpackedFloat (Sign packComponents unpackExponent unpackMantissa unpackSign)

/-- A mantissa and an exponent as the format keeps them. -/
structure Canonical (m : ℕ) (e : ℤ) : Prop where
  lt : m < 2 ^ 53
  least_le : -1074 ≤ e
  le_greatest : e ≤ 971
  full : 2 ^ 52 ≤ m ∨ e = -1074

/-- A decoded double that stands for a real number. -/
def IsNumber : UnpackedFloat → Prop
  | .zero _ => True
  | .finite _ m e _ => Canonical m e
  | _ => False

/-- A number is a zero or has a mantissa and an exponent. -/
@[elab_as_elim]
theorem IsNumber.cases
    {motive : (u : UnpackedFloat) → IsNumber u → Prop}
    (zero : ∀ s, motive (.zero s) trivial)
    (finite : ∀ s m e hm (h : Canonical m e), motive (.finite s m e hm) h) :
    ∀ {u : UnpackedFloat} (h : IsNumber u), motive u h
  | .zero s, _ => zero s
  | .finite s m e hm, h => finite s m e hm h

/-- One, with a sign. -/
def factor : Sign → ℝ
  | .negative => -1
  | .positive => 1

/-- The real number that a decoded double stands for. -/
noncomputable def toReal : UnpackedFloat → ℝ
  | .finite s m e _ => factor s * (m * ((2 : ℕ) : ℝ) ^ e)
  | _ => 0

theorem toReal_finite
    {s : Sign}
    {m : ℕ}
    {e : ℤ}
    (hm : 0 < m) :
    toReal (.finite s m e hm) = factor s * (m * 2 ^ e) := by
  rfl

theorem toReal_zero (s : Sign) : toReal (.zero s) = 0 := by
  rfl

theorem abs_factor (s : Sign) : |factor s| = 1 := by
  cases s <;> simp [factor]

section Encoding

theorem exponentBias_eq : (Format.binary64.exponentBias : ℤ) = 1023 := by
  rfl

theorem toNat_append_one (v : BitVec 52) : (1#1 ++ v).toNat = 2 ^ 52 + v.toNat := by
  rw [BitVec.toNat_append, ← Nat.shiftLeft_add_eq_or_of_lt v.isLt]
  rfl

/-- What is decoded is in canonical form. -/
theorem isNumber_unpack
    (b : BitVec 64)
    (h : (UnpackedFloat.unpack Format.binary64 b).isFinite = true) :
    IsNumber (UnpackedFloat.unpack Format.binary64 b) := by
  revert h
  fun_cases UnpackedFloat.unpack Format.binary64 b with
  | case1 =>
      intro h
      cases h
  | case2 =>
      intro h
      cases h
  | case3 =>
      exact fun _ => trivial
  | case4 mantissa exponent e sign s hfinite hzero hmantissa =>
      -- a mantissa without its leading bit
      have hlt : mantissa.toNat < 2 ^ 52 := mantissa.isLt
      have he : e = -1075 := by
        simp only [e, hzero, exponentBias_eq]
        rfl
      exact fun _ => ⟨by omega, by omega, by omega, Or.inr (by omega)⟩
  | case5 mantissa exponent e sign s hfinite hzero =>
      have hlt : mantissa.toNat < 2 ^ 52 := mantissa.isLt
      have hfull : (1#1 ++ mantissa).toNat = 2 ^ 52 + mantissa.toNat := toNat_append_one mantissa
      have hbound : exponent.toNat < 2 ^ 11 := exponent.isLt
      have hpos : exponent.toNat ≠ 0 := fun h => hzero (BitVec.eq_of_toNat_eq h)
      have hinfinite : exponent.toNat ≠ 2047 := fun h => hfinite (BitVec.eq_of_toNat_eq h)
      have he : e = exponent.toNat - 1075 := by
        simp only [e, exponentBias_eq]
        rfl
      exact fun _ => ⟨by omega, by omega, by omega, Or.inl (by omega)⟩

theorem finite_congr
    {s : Sign}
    {m m' : ℕ}
    {e e' : ℤ}
    {hm : 0 < m}
    {hm' : 0 < m'}
    (hmantissa : m = m')
    (hexponent : e = e') :
    UnpackedFloat.finite s m e hm = .finite s m' e' hm' := by
  subst hmantissa hexponent
  rfl

section Finite

variable {s : Sign} {m : ℕ} {e : ℤ} (hm : 0 < m) (h : Canonical m e)

include h

/-- A number is encoded with the biased exponent, or with none when its mantissa is short. -/
theorem pack_finite :
    UnpackedFloat.pack Format.binary64 (.finite s m e hm) =
      if m.log2 + 1 = 53 then
        packComponents Format.binary64 s (BitVec.ofNat 11 (e + 1075).toNat) (BitVec.ofNat 52 m)
      else packComponents Format.binary64 s 0#11 (BitVec.ofNat 52 m) := by
  have hleast := h.least_le
  have hgreatest := h.le_greatest
  have hbiased : e + Format.binary64.exponentBias + (52 : ℕ) = e + 1075 := by
    rw [exponentBias_eq]
    ring
  have hrange : ¬2 ^ 11 ≤ (e + 1075).toNat + 1 := by omega
  rw [← hbiased] at hrange ⊢
  exact if_neg hrange

/-- A mantissa of full length is encoded without its leading bit. -/
theorem unpack_pack_full (hfull : 2 ^ 52 ≤ m) :
    UnpackedFloat.unpack Format.binary64 (UnpackedFloat.pack Format.binary64 (.finite s m e hm)) =
      .finite s m e hm := by
  have hlt := h.lt
  have hleast := h.least_le
  have hgreatest := h.le_greatest
  have hlog : m.log2 + 1 = 53 := by
    rw [(Nat.log2_eq_iff (by omega)).mpr ⟨hfull, hlt⟩]
  have hexponent : (BitVec.ofNat 11 (e + 1075).toNat).toNat = (e + 1075).toNat := by
    rw [BitVec.toNat_ofNat, Nat.mod_eq_of_lt (by omega)]
  have hfinite : BitVec.ofNat 11 (e + 1075).toNat ≠ -1#11 := by
    intro h
    have hvalue : (e + 1075).toNat = 2047 := by
      rw [← hexponent, h]
      rfl
    omega
  have hzero : BitVec.ofNat 11 (e + 1075).toNat ≠ 0#11 := by
    intro h
    have hvalue : (e + 1075).toNat = 0 := by
      rw [← hexponent, h]
      rfl
    omega
  rw [pack_finite hm h, if_pos hlog]
  unfold UnpackedFloat.unpack
  simp only [UnpackedFloat.unpackMantissa_packComponents,
    UnpackedFloat.unpackExponent_packComponents, UnpackedFloat.unpackSign_packComponents,
    Sign.ofBitVec_toBitVec]
  rw [if_neg hfinite, if_neg hzero]
  refine finite_congr ?_ ?_
  · rw [toNat_append_one, BitVec.toNat_ofNat]
    omega
  · rw [hexponent, exponentBias_eq]
    omega

/-- A shorter mantissa is encoded as it is. -/
theorem unpack_pack_short (hshort : m < 2 ^ 52) :
    UnpackedFloat.unpack Format.binary64 (UnpackedFloat.pack Format.binary64 (.finite s m e hm)) =
      .finite s m e hm := by
  have he : e = -1074 := h.full.resolve_left (by omega)
  have hlog : ¬m.log2 + 1 = 53 := by
    have hbits := (Nat.log2_lt (by omega)).mpr hshort
    omega
  have hmantissa : (BitVec.ofNat 52 m).toNat = m := by
    rw [BitVec.toNat_ofNat, Nat.mod_eq_of_lt hshort]
  have hnonzero : BitVec.ofNat 52 m ≠ 0#52 := by
    intro h
    rw [h] at hmantissa
    exact absurd hmantissa hm.ne
  rw [pack_finite hm h, if_neg hlog]
  unfold UnpackedFloat.unpack
  simp only [UnpackedFloat.unpackMantissa_packComponents,
    UnpackedFloat.unpackExponent_packComponents, UnpackedFloat.unpackSign_packComponents,
    Sign.ofBitVec_toBitVec]
  rw [if_neg (by decide), if_pos trivial, dif_neg hnonzero]
  exact finite_congr hmantissa he.symm

end Finite

/-- Numbers are decoded as they were before they were encoded. -/
theorem unpack_pack
    {u : UnpackedFloat}
    (h : IsNumber u) :
    UnpackedFloat.unpack Format.binary64 (UnpackedFloat.pack Format.binary64 u) = u := by
  cases h using IsNumber.cases with
  | zero s =>
      exact UnpackedFloat.unpack_packedZero
  | finite s m e hm h =>
      rcases Nat.lt_or_ge m (2 ^ 52) with hshort | hfull
      · exact unpack_pack_short hm h hshort
      · exact unpack_pack_full hm h hfull

section Patterns

variable {b : BitVec Format.binary64.numBits}

/-- A bit pattern is put together from its parts. -/
theorem packComponents_of_parts
    {exponent : BitVec Format.binary64.exponentBits}
    {mantissa : BitVec Format.binary64.mantissaBitsWithoutImplicit}
    (hexponent : unpackExponent b = exponent)
    (hmantissa : unpackMantissa b = mantissa) :
    packComponents Format.binary64 (Sign.ofBitVec (unpackSign b)) exponent mantissa = b := by
  have hsign : ∀ v : BitVec 1, (Sign.ofBitVec v).toBitVec = v := by decide
  rw [← hexponent, ← hmantissa, packComponents, hsign]
  simp only [unpackSign, unpackExponent, unpackMantissa, BitVec.extractLsb]
  ext i hi
  grind

/-- What is decoded is encoded as it was, undefined numbers being encoded in one way only. -/
theorem pack_unpack (hb : Format.binary64.Valid b) :
    UnpackedFloat.pack Format.binary64 (UnpackedFloat.unpack Format.binary64 b) = b := by
  have hcanonical := isNumber_unpack b
  revert hcanonical
  fun_cases UnpackedFloat.unpack Format.binary64 b with
  | case1 mantissa exponent v sign hinfinite hmantissa =>
      exact fun _ => packComponents_of_parts hinfinite hmantissa
  | case2 mantissa exponent hinfinite hmantissa =>
      exact fun _ => (hb.eq_packedNaN hinfinite hmantissa).symm
  | case3 mantissa exponent v sign hfinite hzero hmantissa =>
      exact fun _ => packComponents_of_parts hzero hmantissa
  | case4 mantissa exponent e v sign hfinite hzero hmantissa =>
      intro hcanonical
      have hlt : mantissa.toNat < 2 ^ 52 := mantissa.isLt
      have hpos : mantissa.toNat ≠ 0 := fun h => hmantissa (BitVec.eq_of_toNat_eq h)
      have hbits := (Nat.log2_lt hpos).mpr hlt
      have hparts : BitVec.ofNat 52 mantissa.toNat = mantissa := by simp
      rw [pack_finite _ (hcanonical rfl), if_neg (by omega)]
      exact packComponents_of_parts hzero hparts.symm
  | case5 mantissa exponent e v sign hfinite hzero =>
      intro hcanonical
      have hlt : mantissa.toNat < 2 ^ 52 := mantissa.isLt
      have hfull : (1#1 ++ mantissa).toNat = 2 ^ 52 + mantissa.toNat := toNat_append_one mantissa
      have hlog : (1#1 ++ mantissa).toNat.log2 = 52 := by
        rw [Nat.log2_eq_iff (by omega), hfull]
        omega
      have he : (e + 1075).toNat = exponent.toNat := by
        simp only [e, exponentBias_eq]
        omega
      have hbiased : BitVec.ofNat 11 (e + 1075).toNat = exponent := by
        rw [he]
        simp
      have hparts : BitVec.ofNat 52 (1#1 ++ mantissa).toNat = mantissa := by
        rw [hfull]
        apply BitVec.eq_of_toNat_eq
        rw [BitVec.toNat_ofNat]
        omega
      rw [pack_finite _ (hcanonical rfl), if_pos (congrArg (· + 1) hlog)]
      exact packComponents_of_parts hbiased.symm hparts.symm

end Patterns

end Encoding

section Order

variable {m m' : ℕ} {e e' : ℤ}

/-- A number is less than a full mantissa with a greater exponent. -/
theorem magnitude_lt
    (h : Canonical m e)
    (hlt : e < e') :
    (m : ℝ) * 2 ^ e < 2 ^ 52 * 2 ^ e' := by
  have hm : (m : ℝ) < 2 ^ 53 := by exact_mod_cast h.lt
  calc (m : ℝ) * 2 ^ e
      < 2 ^ 53 * 2 ^ e := mul_lt_mul_of_pos_right hm (zpow_pos two_pos e)
    _ = 2 ^ 52 * 2 ^ (e + 1) := by
        rw [zpow_add_one₀ two_ne_zero]
        ring
    _ ≤ 2 ^ 52 * 2 ^ e' := by
        gcongr
        · norm_num
        · omega

/-- The greater exponent makes the greater number, whatever the mantissas are. -/
theorem lt_of_exponent_lt
    (h : Canonical m e)
    (h' : Canonical m' e')
    (hlt : e < e') :
    (m : ℝ) * 2 ^ e < m' * 2 ^ e' := by
  have hleast := h.least_le
  have hfull : (2 : ℝ) ^ 52 ≤ m' := by exact_mod_cast h'.full.resolve_right (by omega)
  exact lt_of_lt_of_le (magnitude_lt h hlt)
    (mul_le_mul_of_nonneg_right hfull (zpow_nonneg zero_le_two e'))

/-- Comparing exponents and then mantissas is comparing the numbers. -/
theorem compares_magnitudes
    (h : Canonical m e)
    (h' : Canonical m' e') :
    ((compare e e').then (compare m m')).Compares ((m : ℝ) * 2 ^ e) (m' * 2 ^ e') := by
  rcases lt_trichotomy e e' with hlt | rfl | hgt
  · rw [compare_lt_iff_lt.mpr hlt]
    exact lt_of_exponent_lt h h' hlt
  · rw [compare_eq_iff_eq.mpr rfl]
    have hpow : (0 : ℝ) < 2 ^ e := zpow_pos two_pos e
    rcases lt_trichotomy m m' with hlt | rfl | hgt
    · rw [compare_lt_iff_lt.mpr hlt]
      exact mul_lt_mul_of_pos_right (Nat.cast_lt.mpr hlt) hpow
    · rw [compare_eq_iff_eq.mpr rfl]
      rfl
    · rw [compare_gt_iff_gt.mpr hgt]
      exact mul_lt_mul_of_pos_right (Nat.cast_lt.mpr hgt) hpow
  · rw [compare_gt_iff_gt.mpr hgt]
    exact lt_of_exponent_lt h' h hgt

theorem compares_neg
    {o : Ordering}
    {x y : ℝ}
    (h : o.Compares x y) :
    o.swap.Compares (-x) (-y) := by
  cases o with
  | lt =>
      exact neg_lt_neg h
  | eq =>
      exact congrArg Neg.neg h
  | gt =>
      exact neg_lt_neg h

theorem toReal_positive (hm : 0 < m) : toReal (.finite .positive m e hm) = m * 2 ^ e := by
  simp [toReal_finite, factor]

theorem toReal_negative (hm : 0 < m) : toReal (.finite .negative m e hm) = -(m * 2 ^ e) := by
  simp [toReal_finite, factor]

theorem magnitude_pos (hm : 0 < m) : (0 : ℝ) < m * 2 ^ e :=
  mul_pos (Nat.cast_pos.mpr hm) (zpow_pos two_pos e)

/-- Decoded numbers compare as the real numbers that they stand for. -/
theorem exists_compare
    {a b : UnpackedFloat}
    (ha : IsNumber a)
    (hb : IsNumber b) :
    ∃ o, a.compare b = some o ∧ o.Compares (toReal a) (toReal b) := by
  cases ha using IsNumber.cases with
  | zero s =>
      cases hb using IsNumber.cases with
      | zero s' =>
          exact ⟨.eq, rfl, rfl⟩
      | finite s' m' e' hm' h' =>
          have hpos := magnitude_pos (e := e') hm'
          cases s' with
          | negative =>
              exact ⟨.gt, rfl, by rw [toReal_negative]; exact neg_neg_of_pos hpos⟩
          | positive =>
              exact ⟨.lt, rfl, by rw [toReal_positive]; exact hpos⟩
  | finite s m e hm h =>
      have hpos := magnitude_pos (e := e) hm
      cases hb using IsNumber.cases with
      | zero s' =>
          cases s with
          | negative =>
              exact ⟨.lt, rfl, by rw [toReal_negative]; exact neg_neg_of_pos hpos⟩
          | positive =>
              exact ⟨.gt, rfl, by rw [toReal_positive]; exact hpos⟩
      | finite s' m' e' hm' h' =>
          have hpos' := magnitude_pos (e := e') hm'
          have hcompares := compares_magnitudes h h'
          cases s with
          | negative =>
              cases s' with
              | negative =>
                  refine ⟨_, rfl, ?_⟩
                  rw [toReal_negative, toReal_negative]
                  exact compares_neg hcompares
              | positive =>
                  refine ⟨.lt, rfl, ?_⟩
                  rw [toReal_negative, toReal_positive]
                  exact lt_trans (neg_neg_of_pos hpos) hpos'
          | positive =>
              cases s' with
              | negative =>
                  refine ⟨.gt, rfl, ?_⟩
                  rw [toReal_negative, toReal_positive]
                  exact lt_trans (neg_neg_of_pos hpos') hpos
              | positive =>
                  refine ⟨_, rfl, ?_⟩
                  rwa [toReal_positive, toReal_positive]

end Order

section Spacing

/-- A number is a multiple of a power of two, unless it is less than a full mantissa of that. -/
theorem multiple_or_lt
    {u : UnpackedFloat}
    (h : IsNumber u)
    (E : ℤ) :
    (∃ k : ℤ, toReal u = k * 2 ^ E) ∨ -1074 < E ∧ |toReal u| < 2 ^ 52 * 2 ^ E := by
  cases h using IsNumber.cases with
  | zero s =>
      exact Or.inl ⟨0, by simp [toReal_zero]⟩
  | finite s m e hm h =>
      rcases le_or_gt E e with hle | hgt
      · left
        have hpow : (2 : ℝ) ^ e = 2 ^ (e - E).toNat * 2 ^ E := by
          rw [← zpow_natCast, ← zpow_add₀ two_ne_zero]
          congr 1
          omega
        cases s with
        | negative =>
            refine ⟨-(m * 2 ^ (e - E).toNat), ?_⟩
            rw [toReal_negative, hpow]
            push_cast
            ring
        | positive =>
            refine ⟨m * 2 ^ (e - E).toNat, ?_⟩
            rw [toReal_positive, hpow]
            push_cast
            ring
      · right
        rw [toReal_finite, abs_mul, abs_factor, one_mul, abs_of_pos (magnitude_pos hm)]
        exact ⟨lt_of_le_of_lt h.least_le hgt, magnitude_lt h hgt⟩

end Spacing

/-- The real number that a finite double stands for. -/
noncomputable def value (x : Float) : ℝ :=
  toReal x.toModel.unpack

/-- The double that is decoded as some number. -/
def ofUnpacked (u : UnpackedFloat) : Float :=
  .ofModel (.pack u)

section Values

variable {x y : Float} {u : UnpackedFloat}

theorem isNumber_of_isFinite (h : x.isFinite = true) : IsNumber x.toModel.unpack :=
  isNumber_unpack x.toModel.toBits.toBitVec h

theorem isFinite_of_isNumber (h : IsNumber u) : u.isFinite = true := by
  cases h using IsNumber.cases with
  | zero s =>
      rfl
  | finite s m e hm h =>
      rfl

theorem unpack_ofUnpacked (h : IsNumber u) : (ofUnpacked u).toModel.unpack = u :=
  unpack_pack h

/-- A double is decoded and encoded without change. -/
theorem ofUnpacked_unpack (x : Float) : ofUnpacked x.toModel.unpack = x := by
  obtain ⟨⟨bits, hvalid⟩⟩ := x
  have hpack : UnpackedFloat.pack Format.binary64
      (UnpackedFloat.unpack Format.binary64 bits.toBitVec) = bits.toBitVec := pack_unpack hvalid
  show Float.ofModel (Float.Model.pack (UnpackedFloat.unpack Format.binary64 bits.toBitVec)) = _
  simp only [Float.Model.pack, hpack]

theorem isFinite_ofUnpacked (h : IsNumber u) : (ofUnpacked u).isFinite = true := by
  show (ofUnpacked u).toModel.unpack.isFinite = true
  rw [unpack_ofUnpacked h]
  exact isFinite_of_isNumber h

theorem value_ofUnpacked (h : IsNumber u) : value (ofUnpacked u) = toReal u := by
  rw [value, unpack_ofUnpacked h]

theorem isNaN_of_isFinite (h : x.isFinite = true) : x.isNaN = false := by
  show x.toModel.unpack.isNaN = false
  have hnumber := isNumber_of_isFinite h
  cases hdecoded : x.toModel.unpack with
  | notANumber =>
      rw [hdecoded] at hnumber
      exact absurd hnumber id
  | _ =>
      rfl

/-- Finite doubles are ordered as the real numbers that they stand for. -/
theorem le_iff_value_le
    (hx : x.isFinite = true)
    (hy : y.isFinite = true) :
    x ≤ y ↔ value x ≤ value y := by
  obtain ⟨o, hcompare, hcompares⟩ :=
    exists_compare (isNumber_of_isFinite hx) (isNumber_of_isFinite hy)
  have hle : x ≤ y ↔ (x.toModel.unpack.compare y.toModel.unpack).any (·.isLE) = true :=
    decide_eq_true_iff
  rw [hle, hcompare, Option.any_some, Ordering.isLE_iff_ne_gt]
  exact hcompares.ne_gt

theorem lt_iff_value_lt
    (hx : x.isFinite = true)
    (hy : y.isFinite = true) :
    x < y ↔ value x < value y := by
  obtain ⟨o, hcompare, hcompares⟩ :=
    exists_compare (isNumber_of_isFinite hx) (isNumber_of_isFinite hy)
  have hlt : x < y ↔ (x.toModel.unpack.compare y.toModel.unpack == some .lt) = true :=
    decide_eq_true_iff
  rw [hlt, hcompare, beq_iff_eq, Option.some_inj]
  exact hcompares.eq_lt

/-- Above one the doubles begin at `1 + 2⁻⁵²`. -/
theorem gap_above_one
    (hx : x.isFinite = true)
    (h : 1 < value x) :
    1 + 1 / 2 ^ 52 ≤ value x := by
  rw [value] at h ⊢
  rcases multiple_or_lt (isNumber_of_isFinite hx) (-52) with ⟨k, hk⟩ | ⟨-, hlt⟩
  · rw [hk] at h ⊢
    norm_num at h ⊢
    have hgreater : (2 : ℝ) ^ 52 < k := by linarith
    have hnext : (2 : ℤ) ^ 52 + 1 ≤ k := by exact_mod_cast hgreater
    have hnext' : (2 : ℝ) ^ 52 + 1 ≤ k := by exact_mod_cast hnext
    linarith
  · have hle := (abs_lt.mp hlt).2
    norm_num at hle
    linarith

end Values

end Double

end FieldGeometry
