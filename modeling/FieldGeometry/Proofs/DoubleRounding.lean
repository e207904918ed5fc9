import FieldGeometry.Proofs.DoubleNumbers
import FieldGeometry.Proofs.RoundedArithmetic

/-!
# Arithmetic in double precision

The operations on doubles round the exact result to a nearest double.  They compute a mantissa with
two more bits, which tell where between two mantissas the exact result lies (`Covers`), and round by
these (`roundsTo_roundWithAccuracy`).  What comes out is the exact result up to half a step, where a
step is the least power of two or small beside the result (`RoundsTo`).  As every double that
matters is a whole number of steps, none is nearer (`RoundsTo.nearest`).

This makes the doubles an instance of rounded arithmetic, in which the laws of `Scalar.Rounded` hold
with the relative error `2⁻⁵³`.
-/

namespace FieldGeometry

namespace Double

open Float.Model (Format UnpackedFloat totalExponent)
open Float.Model.UnpackedFloat (Sign Accuracy ExtendedMantissa shiftToTargetExponent
  decreaseExponent roundWithAccuracy)

section Guards

/-- A mantissa and its two further bits stand for a number: the second of them says that there is
something, but not how much. -/
inductive Covers : ExtendedMantissa → ℝ → Prop
  | exact {m : ℕ} {y : ℝ} (h : y = m) :
      Covers ⟨m, false, false⟩ y
  | belowHalf {m : ℕ} {y : ℝ} (h : m < y) (h' : y < m + 1 / 2) :
      Covers ⟨m, false, true⟩ y
  | half {m : ℕ} {y : ℝ} (h : y = m + 1 / 2) :
      Covers ⟨m, true, false⟩ y
  | aboveHalf {m : ℕ} {y : ℝ} (h : m + 1 / 2 < y) (h' : y < m + 1) :
      Covers ⟨m, true, true⟩ y

variable {em : ExtendedMantissa} {y : ℝ}

theorem Covers.bounds (h : Covers em y) : em.mantissa ≤ y ∧ y < em.mantissa + 1 := by
  cases h with
  | exact h =>
      constructor <;> linarith
  | belowHalf h h' =>
      constructor <;> linarith
  | half h =>
      constructor <;> linarith
  | aboveHalf h h' =>
      constructor <;> linarith

/-- Rounding by the two bits is rounding to nearest. -/
theorem Covers.abs_roundedMantissa_sub_le (h : Covers em y) :
    |em.roundedMantissa - y| ≤ 1 / 2 := by
  rw [abs_le]
  cases h with
  | @exact m y h =>
      have hround : (ExtendedMantissa.mk m false false).roundedMantissa = m := rfl
      rw [hround]
      constructor <;> linarith
  | @belowHalf m y h h' =>
      have hround : (ExtendedMantissa.mk m false true).roundedMantissa = m := rfl
      rw [hround]
      constructor <;> linarith
  | @half m y h =>
      -- a tie goes to the even one of the two mantissas
      have hround : (ExtendedMantissa.mk m true false).roundedMantissa = m + m % 2 := rfl
      rw [hround, h]
      rcases Nat.mod_two_eq_zero_or_one m with heven | hodd
      · rw [heven]
        constructor <;> push_cast <;> linarith
      · rw [hodd]
        constructor <;> push_cast <;> linarith
  | @aboveHalf m y h h' =>
      have hround : (ExtendedMantissa.mk m true true).roundedMantissa = m + 1 := rfl
      rw [hround]
      constructor <;> push_cast <;> linarith

section Halving

variable {m : ℕ}

theorem cast_eq_halves (m : ℕ) : (m : ℝ) = 2 * (m / 2 : ℕ) + (m % 2 : ℕ) := by
  exact_mod_cast (Nat.div_add_mod m 2).symm

theorem covers_half_of_eq (h : y = m) : Covers ⟨m / 2, m % 2 != 0, false⟩ (y / 2) := by
  have hm := cast_eq_halves m
  rcases Nat.mod_two_eq_zero_or_one m with heven | hodd
  · rw [heven] at hm ⊢
    push_cast at hm
    exact .exact (by linarith)
  · rw [hodd] at hm ⊢
    push_cast at hm
    exact .half (by linarith)

theorem covers_half_of_between
    (h : m < y)
    (h' : y < m + 1) :
    Covers ⟨m / 2, m % 2 != 0, true⟩ (y / 2) := by
  have hm := cast_eq_halves m
  rcases Nat.mod_two_eq_zero_or_one m with heven | hodd
  · rw [heven] at hm ⊢
    push_cast at hm
    exact .belowHalf (by linarith) (by linarith)
  · rw [hodd] at hm ⊢
    push_cast at hm
    exact .aboveHalf (by linarith) (by linarith)

end Halving

/-- Dropping a bit of the mantissa halves the number. -/
theorem Covers.shiftRightOne (h : Covers em y) : Covers em.shiftRightOne (y / 2) := by
  cases h with
  | exact h =>
      exact covers_half_of_eq h
  | belowHalf h h' =>
      exact covers_half_of_between (by linarith) (by linarith)
  | half h =>
      exact covers_half_of_between (by linarith) (by linarith)
  | aboveHalf h h' =>
      exact covers_half_of_between (by linarith) (by linarith)

theorem Covers.shiftRight
    (h : Covers em y)
    (n : ℕ) :
    Covers (em >>> n) (y / 2 ^ n) := by
  show Covers (n.repeat ExtendedMantissa.shiftRightOne em) (y / 2 ^ n)
  induction n with
  | zero =>
      rwa [pow_zero, div_one]
  | succ n ih =>
      rw [pow_succ, ← div_div]
      exact ih.shiftRightOne

end Guards

section Steps

/-- A number rounded to whole steps.  The step is the least power of two that the doubles have, or
small beside the number. -/
structure RoundsTo (x : ℝ) (u : UnpackedFloat) : Prop where
  isNumber : IsNumber u
  steps : ∃ k E : ℤ, toReal u = k * 2 ^ E ∧ |toReal u - x| ≤ 2 ^ E / 2 ∧
    (E = -1074 ∨ -1074 ≤ E ∧ 2 ^ 52 * 2 ^ E ≤ |x|)

/-- A whole number of steps that is at most half a step away is a nearest one. -/
theorem nearest_multiple
    {E k : ℤ}
    {x : ℝ}
    (h : |k * 2 ^ E - x| ≤ 2 ^ E / 2)
    (l : ℤ) :
    |k * 2 ^ E - x| ≤ |l * 2 ^ E - x| := by
  rcases eq_or_ne l k with rfl | hne
  · exact le_refl _
  · have hpow : (0 : ℝ) < 2 ^ E := zpow_pos two_pos E
    have hdiff : (1 : ℝ) ≤ |(l : ℝ) - k| := by exact_mod_cast Int.one_le_abs (sub_ne_zero.mpr hne)
    have hapart : (2 : ℝ) ^ E ≤ |(l * 2 ^ E - x) - (k * 2 ^ E - x)| := by
      rw [sub_sub_sub_cancel_right, ← sub_mul, abs_mul, abs_of_pos hpow]
      exact le_mul_of_one_le_left hpow.le hdiff
    have htriangle := abs_sub (l * 2 ^ E - x) (k * 2 ^ E - x)
    linarith

section Laws

variable {x : ℝ} {u v : UnpackedFloat}

/-- Rounding gives a nearest double. -/
theorem RoundsTo.nearest
    (h : RoundsTo x u)
    (hv : IsNumber v) :
    |toReal u - x| ≤ |toReal v - x| := by
  obtain ⟨k, E, hk, hhalf, hstep⟩ := h.steps
  rw [hk] at hhalf ⊢
  rcases multiple_or_lt hv E with ⟨l, hl⟩ | ⟨hleast, hsmall⟩
  · rw [hl]
    exact nearest_multiple hhalf l
  · -- between the other number and the exact one there is a full mantissa of this step
    have hbetween : 2 ^ 52 * 2 ^ E ≤ |x| := (hstep.resolve_left (by omega)).2
    have htriangle := abs_sub_abs_le_abs_sub x (toReal v)
    rw [abs_sub_comm] at htriangle
    rcases abs_cases x with ⟨hx, -⟩ | ⟨hx, -⟩
    · refine le_trans (nearest_multiple hhalf (2 ^ 52)) ?_
      push_cast
      rw [abs_le]
      constructor <;> linarith
    · refine le_trans (nearest_multiple hhalf (-2 ^ 52)) ?_
      push_cast
      rw [abs_le]
      constructor <;> linarith

theorem RoundsTo.error (h : RoundsTo x u) :
    |toReal u - x| ≤ 1 / 2 ^ 53 * max |x| (1 / 1024) := by
  obtain ⟨k, E, -, hhalf, rfl | ⟨-, hstep⟩⟩ := h.steps
  · have hleast : (2 : ℝ) ^ (-1074 : ℤ) ≤ 2 ^ (-62 : ℤ) :=
      zpow_le_zpow_right₀ one_le_two (by norm_num)
    calc |toReal u - x|
        ≤ 2 ^ (-1074 : ℤ) / 2 := hhalf
      _ ≤ 2 ^ (-62 : ℤ) / 2 := by gcongr
      _ = 1 / 2 ^ 53 * (1 / 1024) := by norm_num
      _ ≤ 1 / 2 ^ 53 * max |x| (1 / 1024) := by
          gcongr
          exact le_max_right _ _
  · calc |toReal u - x|
        ≤ 2 ^ E / 2 := hhalf
      _ ≤ 1 / 2 ^ 53 * |x| := by linarith
      _ ≤ 1 / 2 ^ 53 * max |x| (1 / 1024) := by
          gcongr
          exact le_max_left _ _

/-- A number is its own rounding. -/
theorem roundsTo_self (h : IsNumber u) : RoundsTo (toReal u) u := by
  refine ⟨h, ?_⟩
  rw [sub_self, abs_zero]
  cases h using IsNumber.cases with
  | zero s =>
      exact ⟨0, -1074, by simp [toReal_zero], by positivity, Or.inl rfl⟩
  | finite s m e hm h =>
      have hstep : e = -1074 ∨ -1074 ≤ e ∧ 2 ^ 52 * 2 ^ e ≤ |toReal (.finite s m e hm)| := by
        rcases h.full with hfull | hleast
        · right
          refine ⟨h.least_le, ?_⟩
          rw [toReal_finite, abs_mul, abs_factor, one_mul, abs_of_pos (magnitude_pos hm)]
          gcongr
          exact_mod_cast hfull
        · exact Or.inl hleast
      cases s with
      | negative =>
          exact ⟨-m, e, by rw [toReal_negative]; push_cast; ring, by positivity, hstep⟩
      | positive =>
          exact ⟨m, e, by rw [toReal_positive]; push_cast; ring, by positivity, hstep⟩

theorem roundsTo_zero (s : Sign) : RoundsTo 0 (.zero s) :=
  roundsTo_self (u := .zero s) trivial

end Laws

end Steps

section Rounding

variable {s : Sign} {m : ℕ} {e : ℤ}

theorem targetExponent_eq (t : ℤ) : Format.binary64.targetExponent t = max (t - 53) (-1074) := by
  rfl

/-- A decoded double from its parts; a mantissa of zero makes a zero. -/
def ofParts (s : Sign) (m : ℕ) (e : ℤ) : UnpackedFloat :=
  if h : m = 0 then .zero s else .finite s m e (Nat.pos_of_ne_zero h)

theorem toReal_ofParts : toReal (ofParts s m e) = factor s * (m * 2 ^ e) := by
  unfold ofParts
  split_ifs with h
  · simp [toReal_zero, h]
  · rfl

theorem isNumber_ofParts (h : Canonical m e) : IsNumber (ofParts s m e) := by
  unfold ofParts
  split_ifs
  · trivial
  · exact h

/-- A rounded mantissa as a decoded double: one that has grown by a bit is halved. -/
def carry (s : Sign) (r : ℕ) (E : ℤ) : UnpackedFloat :=
  ofParts s (shiftToTargetExponent Format.binary64 r E .exact).1.mantissa
    (shiftToTargetExponent Format.binary64 r E .exact).2

theorem roundWithAccuracy_eq (accuracy : Accuracy) :
    roundWithAccuracy Format.binary64 s m e accuracy =
      carry s (shiftToTargetExponent Format.binary64 m e accuracy).1.roundedMantissa
        (shiftToTargetExponent Format.binary64 m e accuracy).2 := by
  rfl

section Carry

variable {r : ℕ} {E : ℤ} (hr : r ≤ 2 ^ 53) (hE : -1074 ≤ E)

include hr hE

theorem carry_eq :
    carry s r E = if r < 2 ^ 53 then ofParts s r E else ofParts s (2 ^ 52) (E + 1) := by
  rw [carry, shiftToTargetExponent, targetExponent_eq, totalExponent]
  split_ifs with hlt
  · have hlog : r.log2 < 53 := by
      rcases Nat.eq_zero_or_pos r with rfl | hpos
      · decide
      · exact (Nat.log2_lt hpos.ne').mpr hlt
    have hshift : (max (r.log2 + 1 + E - 53) (-1074) - E).toNat = 0 := by omega
    rw [UnpackedFloat.shiftToExponent, hshift]
    show ofParts s r (E + 0) = ofParts s r E
    rw [add_zero]
  · obtain rfl : r = 2 ^ 53 := by omega
    have hshift : (max (((2 ^ 53 : ℕ).log2 : ℤ) + 1 + E - 53) (-1074) - E).toNat = 1 := by
      rw [Nat.log2_two_pow]
      omega
    rw [UnpackedFloat.shiftToExponent, hshift]
    show ofParts s (2 ^ 53 / 2) (E + 1) = ofParts s (2 ^ 52) (E + 1)
    norm_num

theorem toReal_carry : toReal (carry s r E) = factor s * (r * 2 ^ E) := by
  rw [carry_eq hr hE]
  split_ifs with hlt
  · exact toReal_ofParts
  · obtain rfl : r = 2 ^ 53 := by omega
    rw [toReal_ofParts, zpow_add_one₀ two_ne_zero]
    push_cast
    ring

theorem isNumber_carry
    (hgreatest : E ≤ 970)
    (hfull : 2 ^ 52 ≤ r ∨ E = -1074) :
    IsNumber (carry s r E) := by
  rw [carry_eq hr hE]
  split_ifs with hlt
  · exact isNumber_ofParts ⟨hlt, hE, by omega, hfull⟩
  · exact isNumber_ofParts ⟨by norm_num, by omega, by omega, Or.inl le_rfl⟩

end Carry

/-- A nonnegative number and a step that is right for it: the number has between 52 and 53 bits
above the step, or fewer when the step is the least one. -/
structure FitsStep (x : ℝ) (E : ℤ) : Prop where
  nonneg : 0 ≤ x
  below : x < 2 ^ 53 * 2 ^ E
  step : E = -1074 ∨ -1074 ≤ E ∧ 2 ^ 52 * 2 ^ E ≤ x

theorem FitsStep.least_le
    {x : ℝ}
    {E : ℤ}
    (h : FitsStep x E) :
    -1074 ≤ E :=
  h.step.elim (fun hleast => hleast.ge) (fun hstep => hstep.1)

/-- Rounded to whole steps, such a number keeps its bits or gains one. -/
theorem FitsStep.rounded
    {x : ℝ}
    {E : ℤ}
    {r : ℕ}
    (h : FitsStep x E)
    (hr : |(r : ℝ) - x / 2 ^ E| ≤ 1 / 2) :
    r ≤ 2 ^ 53 ∧ (2 ^ 52 ≤ r ∨ E = -1074) := by
  have hpow : (0 : ℝ) < 2 ^ E := zpow_pos two_pos E
  obtain ⟨hlower, hupper⟩ := abs_le.mp hr
  constructor
  · have hquotient : x / 2 ^ E < 2 ^ 53 := (div_lt_iff₀ hpow).mpr h.below
    have hlt : (r : ℝ) < 2 ^ 53 + 1 := by linarith
    exact Nat.lt_succ_iff.mp (by exact_mod_cast hlt)
  · rcases h.step with hleast | ⟨-, hstep⟩
    · exact Or.inr hleast
    · have hquotient : 2 ^ 52 ≤ x / 2 ^ E := (le_div_iff₀ hpow).mpr hstep
      have hlt : (2 : ℝ) ^ 52 < r + 1 := by linarith
      exact Or.inl (Nat.lt_succ_iff.mp (by exact_mod_cast hlt))

theorem FitsStep.roundsTo_carry
    {x : ℝ}
    {E : ℤ}
    {r : ℕ}
    (h : FitsStep x E)
    (hgreatest : E ≤ 970)
    (hr : |(r : ℝ) - x / 2 ^ E| ≤ 1 / 2) :
    RoundsTo (factor s * x) (carry s r E) := by
  have hpow : (0 : ℝ) < 2 ^ E := zpow_pos two_pos E
  obtain ⟨hle, hfull⟩ := h.rounded hr
  have hvalue : toReal (carry s r E) = factor s * (r * 2 ^ E) := toReal_carry hle h.least_le
  refine ⟨isNumber_carry hle h.least_le hgreatest hfull, (s.apply r : ℤ), E, ?_, ?_, ?_⟩
  · rw [hvalue]
    cases s <;> simp [Sign.apply, factor]
  · have hscale : (r : ℝ) * 2 ^ E - x = (r - x / 2 ^ E) * 2 ^ E := by
      rw [sub_mul, div_mul_cancel₀ _ hpow.ne']
    rw [hvalue, ← mul_sub, abs_mul, abs_factor, one_mul, hscale, abs_mul, abs_of_pos hpow]
    linarith [mul_le_mul_of_nonneg_right hr hpow.le]
  · rw [abs_mul, abs_factor, one_mul, abs_of_nonneg h.nonneg]
    exact h.step

theorem two_pow_mul_zpow (n : ℕ) (e : ℤ) : (2 : ℝ) ^ n * 2 ^ e = 2 ^ (n + e) := by
  rw [zpow_add₀ two_ne_zero, zpow_natCast]

theorem FitsStep.exponent_le
    {x : ℝ}
    {E : ℤ}
    (h : FitsStep x E)
    (hbound : x ≤ 2 ^ 64) :
    E ≤ 12 := by
  rcases h.step with hleast | ⟨-, hstep⟩
  · omega
  · have hle : (2 : ℝ) ^ ((52 : ℕ) + E) ≤ 2 ^ (64 : ℤ) := by
      rw [← two_pow_mul_zpow]
      exact le_trans hstep (by exact_mod_cast hbound)
    have hexponents := (zpow_le_zpow_iff_right₀ one_lt_two).mp hle
    omega

/-- The length of the mantissa decides the step. -/
theorem fitsStep_of_length
    {y : ℝ}
    {E : ℤ}
    (hE : E = max (m.log2 + 1 + e - 53) (-1074 : ℤ))
    (hlong : 52 ≤ m.log2 ∨ e ≤ -1074)
    (hlower : m ≤ y)
    (hupper : y < m + 1) :
    FitsStep (y * 2 ^ e) E := by
  have hpow : (0 : ℝ) < 2 ^ e := zpow_pos two_pos e
  refine ⟨mul_nonneg (le_trans (Nat.cast_nonneg m) hlower) hpow.le, ?_, ?_⟩
  · have hlength : (m : ℝ) + 1 ≤ 2 ^ (m.log2 + 1) := by exact_mod_cast Nat.lt_log2_self
    calc y * 2 ^ e
        < (m + 1) * 2 ^ e := mul_lt_mul_of_pos_right hupper hpow
      _ ≤ 2 ^ (m.log2 + 1) * 2 ^ e := mul_le_mul_of_nonneg_right hlength hpow.le
      _ ≤ 2 ^ 53 * 2 ^ E := by
          rw [two_pow_mul_zpow, two_pow_mul_zpow]
          exact zpow_le_zpow_right₀ one_le_two (by push_cast; omega)
  · rcases eq_or_ne E (-1074) with h | hne
    · exact Or.inl h
    · have hpos : m ≠ 0 := by
        rintro rfl
        rw [Nat.log2_zero] at hE hlong
        omega
      have hlength : (2 : ℝ) ^ m.log2 ≤ m := by exact_mod_cast Nat.log2_self_le hpos
      refine Or.inr ⟨by omega, ?_⟩
      calc (2 : ℝ) ^ 52 * 2 ^ E
          = 2 ^ m.log2 * 2 ^ e := by
            rw [two_pow_mul_zpow, two_pow_mul_zpow]
            congr 1
            push_cast
            omega
        _ ≤ y * 2 ^ e := mul_le_mul_of_nonneg_right (le_trans hlength hlower) hpow.le

/-- The guard bits of a shifted mantissa round it to a nearest whole number of steps. -/
theorem Covers.abs_rounded_sub_le
    {em : ExtendedMantissa}
    {y : ℝ}
    {E : ℤ}
    (hcovers : Covers em y)
    (he : e ≤ E) :
    |((em >>> (E - e).toNat).roundedMantissa : ℝ) - y * 2 ^ e / 2 ^ E| ≤ 1 / 2 := by
  have hexponent : e + (E - e).toNat = E := by omega
  have hquotient : y / 2 ^ (E - e).toNat = y * 2 ^ e / 2 ^ E := by
    rw [← hexponent, add_comm, ← two_pow_mul_zpow, mul_div_mul_right _ _ (by positivity)]
    congr 3
    omega
  rw [← hquotient]
  exact (hcovers.shiftRight (E - e).toNat).abs_roundedMantissa_sub_le

/-- A mantissa that has been computed to full length or to the least exponent is shifted to its step
and rounded. -/
theorem roundWithAccuracy_eq_carry
    {accuracy : Accuracy}
    {E : ℤ}
    (hE : E = max (m.log2 + 1 + e - 53) (-1074 : ℤ))
    (he : e ≤ E) :
    roundWithAccuracy Format.binary64 s m e accuracy =
      carry s (ExtendedMantissa.ofMantissaAndAccuracy m accuracy >>>
        (E - e).toNat).roundedMantissa E := by
  have hexponent : e + (E - e).toNat = E := by omega
  have hshift : shiftToTargetExponent Format.binary64 m e accuracy =
      (ExtendedMantissa.ofMantissaAndAccuracy m accuracy >>> (E - e).toNat, E) := by
    rw [shiftToTargetExponent, targetExponent_eq, totalExponent, ← hE]
    exact Prod.ext rfl hexponent
  rw [roundWithAccuracy_eq, hshift]

/-- What is rounded has a step that is right for it, and is carried at most half a step away. -/
theorem exists_carry
    {accuracy : Accuracy}
    {y : ℝ}
    (hcovers : Covers (ExtendedMantissa.ofMantissaAndAccuracy m accuracy) y)
    (hlong : 52 ≤ m.log2 ∨ e ≤ -1074) :
    ∃ (r : ℕ) (E : ℤ), roundWithAccuracy Format.binary64 s m e accuracy = carry s r E ∧
      FitsStep (y * 2 ^ e) E ∧ |(r : ℝ) - y * 2 ^ e / 2 ^ E| ≤ 1 / 2 := by
  have hmantissa : (ExtendedMantissa.ofMantissaAndAccuracy m accuracy).mantissa = m := by
    rcases accuracy with _ | _ | _ | _ <;> rfl
  obtain ⟨hlower, hupper⟩ := hcovers.bounds
  rw [hmantissa] at hlower hupper
  obtain ⟨E, hE⟩ : ∃ E, E = max (m.log2 + 1 + e - 53) (-1074 : ℤ) := ⟨_, rfl⟩
  have he : e ≤ E := by omega
  exact ⟨_, E, roundWithAccuracy_eq_carry hE he, fitsStep_of_length hE hlong hlower hupper,
    hcovers.abs_rounded_sub_le he⟩

/-- **Rounding.**  A mantissa with its guard bits is rounded to a double, when it has been computed
to full length or to the least exponent. -/
theorem roundsTo_roundWithAccuracy
    {accuracy : Accuracy}
    {y : ℝ}
    (hcovers : Covers (ExtendedMantissa.ofMantissaAndAccuracy m accuracy) y)
    (hlong : 52 ≤ m.log2 ∨ e ≤ -1074)
    (hbound : y * 2 ^ e ≤ 2 ^ 64) :
    RoundsTo (factor s * (y * 2 ^ e)) (roundWithAccuracy Format.binary64 s m e accuracy) := by
  obtain ⟨r, E, hcarry, hfits, hrounded⟩ := exists_carry hcovers hlong
  have hgreatest := hfits.exponent_le hbound
  rw [hcarry]
  exact hfits.roundsTo_carry (by omega) hrounded

theorem covers_exact (m : ℕ) : Covers (ExtendedMantissa.ofMantissaAndAccuracy m .exact) m :=
  .exact rfl

theorem log2_shiftLeft
    (hm : m ≠ 0)
    (k : ℕ) :
    (m <<< k).log2 = m.log2 + k := by
  have hlower := Nat.mul_le_mul_right (2 ^ k) (Nat.log2_self_le hm)
  have hupper := Nat.mul_lt_mul_of_pos_right (Nat.lt_log2_self (n := m)) (Nat.two_pow_pos k)
  rw [← Nat.pow_add] at hlower hupper
  rw [Nat.shiftLeft_eq, Nat.log2_eq_iff (Nat.mul_ne_zero hm (Nat.two_pow_pos k).ne')]
  exact ⟨hlower, by rwa [Nat.add_right_comm]⟩

theorem shiftLeft_mul_zpow (m k : ℕ) (e : ℤ) : ((m <<< k : ℕ) : ℝ) * 2 ^ (e - k) = m * 2 ^ e := by
  rw [Nat.shiftLeft_eq]
  push_cast
  rw [mul_assoc, two_pow_mul_zpow, add_sub_cancel]

/-- Before it is rounded a mantissa gets its full length or the least exponent. -/
theorem exists_round_eq (hm : 0 < m) :
    ∃ k : ℕ, UnpackedFloat.round Format.binary64 s m e =
        roundWithAccuracy Format.binary64 s (m <<< k) (e - k) .exact ∧
      (52 ≤ (m <<< k).log2 ∨ e - k ≤ -1074) := by
  rw [UnpackedFloat.round, targetExponent_eq, totalExponent, decreaseExponent]
  refine ⟨_, rfl, ?_⟩
  rw [log2_shiftLeft hm.ne']
  omega

theorem roundsTo_round
    (hm : 0 < m)
    (hbound : m * 2 ^ e ≤ (2 : ℝ) ^ 64) :
    RoundsTo (factor s * (m * 2 ^ e)) (UnpackedFloat.round Format.binary64 s m e) := by
  obtain ⟨k, hround, hlong⟩ := exists_round_eq (s := s) (e := e) hm
  rw [← shiftLeft_mul_zpow m k e] at hbound ⊢
  rw [hround]
  exact roundsTo_roundWithAccuracy (covers_exact _) hlong hbound

theorem roundsTo_normalize
    {M : ℤ}
    (hbound : |(M : ℝ) * 2 ^ e| ≤ 2 ^ 64) :
    RoundsTo ((M : ℝ) * 2 ^ e) (UnpackedFloat.normalize Format.binary64 M e s) := by
  rw [abs_mul, abs_of_pos (zpow_pos two_pos e : (0 : ℝ) < 2 ^ e)] at hbound
  unfold UnpackedFloat.normalize
  rcases lt_trichotomy M 0 with hneg | rfl | hpos
  · have hcast : ((-M).toNat : ℝ) = -M := by
      exact_mod_cast Int.toNat_of_nonneg (by omega : 0 ≤ -M)
    rw [abs_of_neg (by exact_mod_cast hneg), ← hcast] at hbound
    have hround := roundsTo_round (s := .negative) (by omega : 0 < (-M).toNat) hbound
    rw [hcast, factor, neg_one_mul, neg_mul, neg_neg] at hround
    rw [compare_lt_iff_lt.mpr hneg]
    exact hround
  · rw [compare_eq_iff_eq.mpr rfl, Int.cast_zero, zero_mul]
    exact roundsTo_self (u := .zero s) trivial
  · have hcast : (M.toNat : ℝ) = M := by
      exact_mod_cast Int.toNat_of_nonneg hpos.le
    rw [abs_of_pos (by exact_mod_cast hpos), ← hcast] at hbound
    have hround := roundsTo_round (s := .positive) (by omega : 0 < M.toNat) hbound
    rw [hcast, factor, one_mul] at hround
    rw [compare_gt_iff_gt.mpr hpos]
    exact hround

end Rounding

section Operations

variable {a b : UnpackedFloat}

theorem factor_mul (s t : Sign) : factor (s * t) = factor s * factor t := by
  cases s <;> cases t
  · exact (show (1 : ℝ) = -1 * -1 by norm_num)
  · exact (show (-1 : ℝ) = -1 * 1 by norm_num)
  · exact (show (-1 : ℝ) = 1 * -1 by norm_num)
  · exact (show (1 : ℝ) = 1 * 1 by norm_num)

theorem factor_div (s t : Sign) : factor (s / t) = factor s / factor t := by
  cases s <;> cases t
  · exact (show (1 : ℝ) = -1 / -1 by norm_num)
  · exact (show (-1 : ℝ) = -1 / 1 by norm_num)
  · exact (show (-1 : ℝ) = 1 / -1 by norm_num)
  · exact (show (1 : ℝ) = 1 / 1 by norm_num)

theorem abs_factor_mul (s : Sign) (x : ℝ) : |factor s * x| = |x| := by
  rw [abs_mul, abs_factor, one_mul]

theorem cast_apply (s : Sign) (n : ℤ) : ((s.apply n : ℤ) : ℝ) = factor s * n := by
  cases s <;> simp [Sign.apply, factor]

theorem toReal_neg (a : UnpackedFloat) : toReal a.neg = -toReal a := by
  cases a with
  | finite s m e hm =>
      cases s
      · exact (show toReal (.finite .positive m e hm) = _ by
          rw [toReal_positive, toReal_negative, neg_neg])
      · exact (show toReal (.finite .negative m e hm) = _ by
          rw [toReal_positive, toReal_negative])
  | _ =>
      exact neg_zero.symm

theorem isNumber_neg (ha : IsNumber a) : IsNumber a.neg := by
  cases a with
  | finite s m e hm =>
      exact ha
  | _ =>
      exact ha

/-- A number with its mantissa at a lesser exponent. -/
theorem toReal_eq_shifted
    {s : Sign}
    {m : ℕ}
    {e t : ℤ}
    (hm : 0 < m)
    (ht : t ≤ e) :
    toReal (.finite s m e hm) = ((s.apply (m <<< (e - t).toNat : ℕ) : ℤ) : ℝ) * 2 ^ t := by
  have hexponent : e - (e - t).toNat = t := by omega
  have hshift := shiftLeft_mul_zpow m (e - t).toNat e
  rw [hexponent] at hshift
  rw [cast_apply, Int.cast_natCast, mul_assoc, hshift, toReal_finite]

/-- Mantissas are added at the lesser of the two exponents. -/
theorem roundsTo_add
    (ha : IsNumber a)
    (hb : IsNumber b)
    (hbound : |toReal a + toReal b| ≤ 2 ^ 64) :
    RoundsTo (toReal a + toReal b) (UnpackedFloat.add Format.binary64 a b) := by
  cases ha using IsNumber.cases with
  | zero s =>
      rw [toReal_zero, zero_add]
      cases hb using IsNumber.cases with
      | zero s' =>
          cases s <;> cases s' <;> exact roundsTo_zero _
      | finite s' m' e' hm' h' =>
          exact roundsTo_self h'
  | finite s m e hm h =>
      cases hb using IsNumber.cases with
      | zero s' =>
          rw [toReal_zero, add_zero]
          exact roundsTo_self h
      | finite s' m' e' hm' h' =>
          rw [toReal_eq_shifted hm (min_le_left e e'), toReal_eq_shifted hm' (min_le_right e e'),
            ← add_mul, ← Int.cast_add] at hbound ⊢
          exact roundsTo_normalize hbound

theorem sub_eq_add (a b : UnpackedFloat) :
    UnpackedFloat.sub Format.binary64 a b = UnpackedFloat.add Format.binary64 a b.neg := by
  cases a with
  | finite s m e hm =>
      cases b with
      | finite s' m' e' hm' =>
          have happly : ∀ n : ℤ, (-s').apply n = -s'.apply n := by
            intro n
            cases s'
            · exact (neg_neg n).symm
            · rfl
          show UnpackedFloat.normalize _ (_ - _) _ _ = UnpackedFloat.normalize _ (_ + _) _ _
          rw [happly, sub_eq_add_neg]
      | _ =>
          rfl
  | _ =>
      cases b <;> rfl

theorem roundsTo_sub
    (ha : IsNumber a)
    (hb : IsNumber b)
    (hbound : |toReal a - toReal b| ≤ 2 ^ 64) :
    RoundsTo (toReal a - toReal b) (UnpackedFloat.sub Format.binary64 a b) := by
  rw [sub_eq_add_neg, ← toReal_neg] at hbound ⊢
  rw [sub_eq_add]
  exact roundsTo_add ha (isNumber_neg hb) hbound

/-- The product of two mantissas is long enough to be rounded. -/
theorem product_long
    {m m' : ℕ}
    {e e' : ℤ}
    (hm : 0 < m)
    (hm' : 0 < m')
    (h : Canonical m e)
    (h' : Canonical m' e') :
    52 ≤ (m * m').log2 ∨ e + e' ≤ -1074 := by
  have hpos : m * m' ≠ 0 := Nat.mul_ne_zero hm.ne' hm'.ne'
  rcases h.full with hfull | hleast
  · left
    exact (Nat.le_log2 hpos).mpr (le_trans hfull (Nat.le_mul_of_pos_right m hm'))
  · rcases h'.full with hfull' | hleast'
    · left
      exact (Nat.le_log2 hpos).mpr (le_trans hfull' (Nat.le_mul_of_pos_left m' hm))
    · right
      omega

theorem roundsTo_mul
    (ha : IsNumber a)
    (hb : IsNumber b)
    (hbound : |toReal a * toReal b| ≤ 2 ^ 64) :
    RoundsTo (toReal a * toReal b) (UnpackedFloat.mul Format.binary64 a b) := by
  cases ha using IsNumber.cases with
  | zero s =>
      rw [toReal_zero, zero_mul]
      cases hb using IsNumber.cases with
      | zero s' =>
          exact roundsTo_zero _
      | finite s' m' e' hm' h' =>
          exact roundsTo_zero _
  | finite s m e hm h =>
      cases hb using IsNumber.cases with
      | zero s' =>
          rw [toReal_zero, mul_zero]
          exact roundsTo_zero _
      | finite s' m' e' hm' h' =>
          have hproduct : toReal (.finite s m e hm) * toReal (.finite s' m' e' hm') =
              factor (s * s') * ((m * m' : ℕ) * 2 ^ (e + e')) := by
            rw [toReal_finite, toReal_finite, factor_mul, zpow_add₀ two_ne_zero]
            push_cast
            ring
          rw [hproduct] at hbound ⊢
          rw [abs_factor_mul] at hbound
          exact roundsTo_roundWithAccuracy (covers_exact _) (product_long hm hm' h h')
            (le_trans (le_abs_self _) hbound)

/-- The guard bits of a quotient tell where between two mantissas it lies. -/
theorem covers_quotient
    {d : ℕ}
    (hd : 0 < d)
    (M : ℕ) :
    Covers (ExtendedMantissa.ofMantissaAndAccuracy (M / d)
      (UnpackedFloat.accuracyOfFraction (M % d) d)) ((M : ℝ) / d) := by
  have hd' : (0 : ℝ) < d := Nat.cast_pos.mpr hd
  have hsplit : (M : ℝ) / d = (M / d : ℕ) + (M % d : ℕ) / d := by
    have hdivision : (M : ℝ) = d * (M / d : ℕ) + (M % d : ℕ) := by
      exact_mod_cast (Nat.div_add_mod M d).symm
    rw [div_eq_iff hd'.ne', add_mul, div_mul_cancel₀ _ hd'.ne']
    linarith
  have hlt : ((M % d : ℕ) : ℝ) / d < 1 := (div_lt_one hd').mpr (by exact_mod_cast Nat.mod_lt M hd)
  rw [hsplit]
  unfold UnpackedFloat.accuracyOfFraction
  split_ifs with hzero
  · rw [hzero, Nat.cast_zero, zero_div, add_zero]
    exact covers_exact _
  · have hpos : 0 < ((M % d : ℕ) : ℝ) / d :=
      div_pos (Nat.cast_pos.mpr (Nat.pos_of_ne_zero hzero)) hd'
    rcases lt_trichotomy (2 * (M % d)) d with hbelow | hmiddle | habove
    · have hcast : 2 * ((M % d : ℕ) : ℝ) < d := by exact_mod_cast hbelow
      have hhalf : ((M % d : ℕ) : ℝ) / d < 1 / 2 := (div_lt_iff₀ hd').mpr (by linarith)
      rw [compare_lt_iff_lt.mpr hbelow]
      exact .belowHalf (by linarith) (by linarith)
    · have hcast : 2 * ((M % d : ℕ) : ℝ) = d := by exact_mod_cast hmiddle
      have hhalf : ((M % d : ℕ) : ℝ) / d = 1 / 2 := (div_eq_iff hd'.ne').mpr (by linarith)
      rw [compare_eq_iff_eq.mpr hmiddle, hhalf]
      exact .half rfl
    · have hcast : (d : ℝ) < 2 * ((M % d : ℕ) : ℝ) := by exact_mod_cast habove
      have hhalf : 1 / 2 < ((M % d : ℕ) : ℝ) / d := (lt_div_iff₀ hd').mpr (by linarith)
      rw [compare_gt_iff_gt.mpr habove]
      exact .aboveHalf (by linarith) (by linarith)

/-- A quotient is computed to full length. -/
theorem quotient_long
    {m m' : ℕ}
    {e e' t : ℤ}
    (hm : 0 < m)
    (hm' : 0 < m')
    (ht : t = min (e - e') (max (m.log2 + 1 + e - (m'.log2 + 1 + e') - 53) (-1074))) :
    52 ≤ (m <<< (e - e' - t).toNat / m').log2 ∨ t ≤ -1074 := by
  rcases le_or_gt t (-1074) with hleast | hgt
  · exact Or.inr hleast
  · left
    have hlength := Nat.log2_self_le hm.ne'
    have hlength' := (Nat.lt_log2_self (n := m')).le
    have hfull : 2 ^ 52 ≤ m <<< (e - e' - t).toNat / m' := by
      rw [Nat.le_div_iff_mul_le hm', Nat.shiftLeft_eq]
      calc 2 ^ 52 * m'
          ≤ 2 ^ 52 * 2 ^ (m'.log2 + 1) := Nat.mul_le_mul_left _ hlength'
        _ ≤ 2 ^ m.log2 * 2 ^ (e - e' - t).toNat := by
            rw [← Nat.pow_add, ← Nat.pow_add]
            exact Nat.pow_le_pow_right two_pos (by omega)
        _ ≤ m * 2 ^ (e - e' - t).toNat := Nat.mul_le_mul_right _ hlength
    exact (Nat.le_log2 (by omega)).mpr hfull

theorem roundsTo_div
    (ha : IsNumber a)
    (hb : IsNumber b)
    (hne : toReal b ≠ 0)
    (hbound : |toReal a / toReal b| ≤ 2 ^ 64) :
    RoundsTo (toReal a / toReal b) (UnpackedFloat.div Format.binary64 a b) := by
  cases hb using IsNumber.cases with
  | zero s' =>
      exact absurd (toReal_zero s') hne
  | finite s' m' e' hm' h' =>
      cases ha using IsNumber.cases with
      | zero s =>
          rw [toReal_zero, zero_div]
          exact roundsTo_zero _
      | finite s m e hm h =>
          obtain ⟨t, ht⟩ : ∃ t, t = min (e - e')
              (max (m.log2 + 1 + e - (m'.log2 + 1 + e') - 53) (-1074 : ℤ)) := ⟨_, rfl⟩
          have hdiv : UnpackedFloat.div Format.binary64 (.finite s m e hm) (.finite s' m' e' hm') =
              roundWithAccuracy Format.binary64 (s / s') (m <<< (e - e' - t).toNat / m') t
                (UnpackedFloat.accuracyOfFraction (m <<< (e - e' - t).toNat % m') m') := by
            rw [ht]
            rfl
          have hquotient : toReal (.finite s m e hm) / toReal (.finite s' m' e' hm') =
              factor (s / s') * (((m <<< (e - e' - t).toNat : ℕ) : ℝ) / m' * 2 ^ t) := by
            have hexponent : e - e' - (e - e' - t).toNat = t := by omega
            have hshift := shiftLeft_mul_zpow m (e - e' - t).toNat (e - e')
            rw [hexponent] at hshift
            have hscale : ((m <<< (e - e' - t).toNat : ℕ) : ℝ) / m' * 2 ^ t =
                m * 2 ^ e / (m' * 2 ^ e') := by
              rw [div_mul_eq_mul_div, hshift, zpow_sub₀ two_ne_zero, ← mul_div_assoc, div_div,
                mul_comm (2 ^ e')]
            rw [hscale, toReal_finite, toReal_finite, factor_div, mul_div_mul_comm]
          rw [hquotient] at hbound ⊢
          rw [abs_factor_mul] at hbound
          rw [hdiv]
          exact roundsTo_roundWithAccuracy (covers_quotient hm' _) (quotient_long hm hm' ht)
            (le_trans (le_abs_self _) hbound)

end Operations

section Counts

/-- The greatest relative error of an operation on doubles. -/
noncomputable def unit : ℝ :=
  1 / (2 ^ 53 : ℕ)

theorem unit_eq : unit = 1 / 2 ^ 53 := by
  norm_num [unit]

theorem rounds_ofUnpacked
    {x : ℝ}
    {u : UnpackedFloat}
    (h : RoundsTo x u) :
    Scalar.Rounds value unit x (ofUnpacked u) where
  finite := isFinite_ofUnpacked h.isNumber
  nearest c hc := by
    rw [value_ofUnpacked h.isNumber]
    exact h.nearest (isNumber_of_isFinite hc)
  error := by
    rw [value_ofUnpacked h.isNumber, unit_eq]
    exact h.error

/-- A count of at most 53 bits is a double. -/
theorem toReal_eq_of_count
    {n : ℕ}
    {u : UnpackedFloat}
    (hn : n < 2 ^ 53)
    (h : RoundsTo n u) :
    toReal u = n := by
  obtain ⟨k, E, hk, hhalf, hstep⟩ := h.steps
  have hE : E ≤ 0 := by
    rcases hstep with hleast | ⟨-, hstep⟩
    · omega
    · rw [Nat.abs_cast, two_pow_mul_zpow] at hstep
      have hlt : (2 : ℝ) ^ ((52 : ℕ) + E) < 2 ^ (53 : ℤ) :=
        lt_of_le_of_lt hstep (by exact_mod_cast hn)
      have hexponents := (zpow_lt_zpow_iff_right₀ one_lt_two).mp hlt
      omega
  -- the count itself is a whole number of steps
  have hcount : ((n * 2 ^ (-E).toNat : ℕ) : ℤ) * (2 : ℝ) ^ E = n := by
    have hexponent : ((-E).toNat : ℤ) + E = 0 := by omega
    push_cast
    rw [mul_assoc, two_pow_mul_zpow, hexponent, zpow_zero, mul_one]
  rw [hk] at hhalf ⊢
  have hnearest := nearest_multiple hhalf (n * 2 ^ (-E).toNat : ℕ)
  rw [hcount, sub_self, abs_zero] at hnearest
  exact sub_eq_zero.mp (abs_nonpos_iff.mp hnearest)

/-- One, as it is decoded. -/
def unpackedOne : UnpackedFloat :=
  .finite .positive (2 ^ 52) (-52) (by decide)

theorem isNumber_unpackedOne : IsNumber unpackedOne :=
  ⟨by norm_num, by norm_num, by norm_num, Or.inl le_rfl⟩

theorem toReal_unpackedOne : toReal unpackedOne = 1 := by
  rw [unpackedOne, toReal_positive]
  norm_num

theorem ofUnpacked_mul
    {u v : UnpackedFloat}
    (hu : IsNumber u)
    (hv : IsNumber v) :
    ofUnpacked u * ofUnpacked v = ofUnpacked (UnpackedFloat.mul Format.binary64 u v) := by
  have hmul : ofUnpacked u * ofUnpacked v = ofUnpacked (UnpackedFloat.mul Format.binary64
      (ofUnpacked u).toModel.unpack (ofUnpacked v).toModel.unpack) := rfl
  rw [hmul, unpack_ofUnpacked hu, unpack_ofUnpacked hv]

/-- A short count is converted and multiplied by one. -/
theorem ofNat_short
    {n : ℕ}
    (hn : n < 2 ^ 53) :
    Float.ofNat n = ofUnpacked (UnpackedFloat.normalize Format.binary64 n 0 .positive) *
      ofUnpacked unpackedOne := by
  have hcount : n.toUInt64.toNat = n := Nat.mod_eq_of_lt (by omega)
  have hconvert : n.toUInt64.toFloat =
      ofUnpacked (UnpackedFloat.normalize Format.binary64 n.toUInt64.toNat 0 .positive) := rfl
  have hscientific : Float.ofNat n = n.toUInt64.toFloat * ofUnpacked unpackedOne :=
    dif_pos (⟨hn, by decide⟩ : n < 2 ^ 53 ∧ 0 ≤ 22)
  rw [hscientific, hconvert, hcount]

/-- A longer count is rounded from a mantissa with as many bits more. -/
theorem ofNat_long
    {n : ℕ}
    (hn : 2 ^ 53 ≤ n) :
    Float.ofNat n =
      ofUnpacked (roundWithAccuracy Format.binary64 .positive (n <<< 53) (-53) .exact) := by
  have hpos : n ≠ 0 := by omega
  have hscientific : Float.ofNat n = ofUnpacked (UnpackedFloat.ofScientific Format.binary64 n 0) :=
    dif_neg (fun h => by omega : ¬(n < 2 ^ 53 ∧ 0 ≤ 22))
  have hrange : (0 : ℤ) < 2 ^ Format.binary64.exponentBits := by positivity
  have hmul : UnpackedFloat.ofScientific Format.binary64 n 0 =
      roundWithAccuracy Format.binary64 .positive (n <<< 53 * 1) (-53 + 0) .exact := by
    rw [UnpackedFloat.ofScientific, dif_neg hpos, if_neg (by omega), if_neg (by omega),
      if_pos le_rfl, UnpackedFloat.mul]
    rfl
  rw [hscientific, hmul, mul_one, add_zero]

/-- A count within 64 bits becomes a nearest double. -/
theorem rounds_ofNat
    {n : ℕ}
    (hn : n < 2 ^ 64) :
    Scalar.Rounds value unit n (Float.ofNat n) := by
  have hbound : (n : ℝ) ≤ 2 ^ 64 := by exact_mod_cast hn.le
  rcases Nat.lt_or_ge n (2 ^ 53) with hshort | hlong
  · have hconverted := roundsTo_normalize (s := .positive) (M := n) (e := 0)
      (by rwa [zpow_zero, mul_one, Int.cast_natCast, Nat.abs_cast])
    rw [zpow_zero, mul_one, Int.cast_natCast] at hconverted
    have hvalue := toReal_eq_of_count hshort hconverted
    have hproduct := roundsTo_mul hconverted.isNumber isNumber_unpackedOne
      (by rwa [hvalue, toReal_unpackedOne, mul_one, Nat.abs_cast])
    rw [hvalue, toReal_unpackedOne, mul_one] at hproduct
    rw [ofNat_short hshort, ofUnpacked_mul hconverted.isNumber isNumber_unpackedOne]
    exact rounds_ofUnpacked hproduct
  · have hvalue := shiftLeft_mul_zpow n 53 0
    rw [zpow_zero, mul_one] at hvalue
    have hlog : 52 ≤ (n <<< 53).log2 := by
      rw [log2_shiftLeft (by omega)]
      omega
    have hrounds := roundsTo_roundWithAccuracy (s := .positive) (covers_exact (n <<< 53))
      (Or.inl hlog) (le_of_eq_of_le hvalue hbound)
    rw [factor, one_mul] at hrounds
    rw [ofNat_long hlong, ← hvalue]
    exact rounds_ofUnpacked hrounds

end Counts

end Double

/-- The doubles are rounded arithmetic. -/
noncomputable instance : Scalar.Rounded Float where
  value := Double.value
  unit := Double.unit
  unit_nonneg := by
    rw [Double.unit_eq]
    positivity
  unit_small := by
    norm_num [Double.unit]
  gap a ha h := by
    have hgap := Double.gap_above_one ha h
    rw [Double.unit_eq]
    norm_num at hgap ⊢
    exact hgap
  le_iff _ _ := Double.le_iff_value_le
  lt_iff _ _ := Double.lt_iff_value_lt
  isNaN_of_isFinite _ := Double.isNaN_of_isFinite
  isFinite_zero := rfl
  isFinite_one := rfl
  value_zero := rfl
  value_one := Double.toReal_unpackedOne
  natCast _ := Double.rounds_ofNat
  add _ _ ha hb hbound := Double.rounds_ofUnpacked
    (Double.roundsTo_add (Double.isNumber_of_isFinite ha) (Double.isNumber_of_isFinite hb)
      (by exact_mod_cast hbound))
  sub _ _ ha hb hbound := Double.rounds_ofUnpacked
    (Double.roundsTo_sub (Double.isNumber_of_isFinite ha) (Double.isNumber_of_isFinite hb)
      (by exact_mod_cast hbound))
  mul _ _ ha hb hbound := Double.rounds_ofUnpacked
    (Double.roundsTo_mul (Double.isNumber_of_isFinite ha) (Double.isNumber_of_isFinite hb)
      (by exact_mod_cast hbound))
  div _ _ ha hb hne hbound := Double.rounds_ofUnpacked
    (Double.roundsTo_div (Double.isNumber_of_isFinite ha) (Double.isNumber_of_isFinite hb) hne
      (by exact_mod_cast hbound))

end FieldGeometry
