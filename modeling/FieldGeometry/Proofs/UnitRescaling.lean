import FieldGeometry.Proofs.DoubleRounding
import FieldGeometry.Proofs.Exact

/-!
# Rescaling to the unit interval

A parameter `t` is rescaled to the interval from `a` to `b` as `a + t * (b - a)`.  Rescaling to the
interval from `0` to `1` leaves almost every number as it is (`Scalar.Unchanged`), and
`Scalar.UnitRescaling` says which operations give such numbers.

Of the doubles the negative zero alone is changed, infinite and undefined ones are not
(`unchanged_iff`): a product with one is rounded from a mantissa that fits already
(`roundWithAccuracy_shifted`), and a positive zero in front of a sum adds nothing.  A quotient of
counts is no negative zero because no sign in it is negative (`Unsigned`).  A sum is a negative zero
only if its first summand is: what does not vanish at the step of the summands is not rounded to
zero (`unpack_pack_add_ne`).
-/

namespace FieldGeometry

namespace Double

open Float.Model (Format UnpackedFloat)
open Float.Model.UnpackedFloat (Accuracy ExtendedMantissa Sign packComponents roundWithAccuracy)

section Decoded

/-- What decoding gives: anything, but with a mantissa and an exponent as the format keeps them. -/
def IsDecoded : UnpackedFloat → Prop
  | .finite _ m e _ => Canonical m e
  | _ => True

variable {u v : UnpackedFloat} {s : Sign} {m : ℕ} {e : ℤ}

theorem isDecoded_unpack (x : Float) : IsDecoded x.toModel.unpack := by
  cases hu : x.toModel.unpack with
  | finite s m e hm =>
      have hfinite : x.isFinite = true := by
        change x.toModel.unpack.isFinite = true
        rw [hu]
        rfl
      have hnumber := isNumber_of_isFinite hfinite
      rw [hu] at hnumber
      exact hnumber
  | _ =>
      trivial

theorem isDecoded_neg (hu : IsDecoded u) : IsDecoded u.neg := by
  cases u with
  | finite s m e hm =>
      exact hu
  | _ =>
      trivial

/-- What was decoded is encoded and decoded without change. -/
theorem unpack_pack_of_isDecoded (hu : IsDecoded u) :
    UnpackedFloat.unpack Format.binary64 (UnpackedFloat.pack Format.binary64 u) = u := by
  cases u with
  | finite s m e hm =>
      exact unpack_pack (u := .finite s m e hm) hu
  | zero s =>
      exact unpack_pack (u := .zero s) trivial
  | infinity s =>
      cases s <;> rfl
  | notANumber =>
      rfl

theorem unpack_pack_ne
    (hu : IsDecoded u)
    (hne : u ≠ .zero .negative) :
    UnpackedFloat.unpack Format.binary64 (UnpackedFloat.pack Format.binary64 u) ≠
      .zero .negative := by
  rwa [unpack_pack_of_isDecoded hu]

/-- Two whole numbers at most a half apart are the same. -/
theorem eq_of_abs_sub_le
    {k l : ℕ}
    (h : |(k : ℝ) - l| ≤ 1 / 2) :
    k = l := by
  have hlt : |(k : ℤ) - l| < 1 := by
    have hcast : |(k : ℝ) - l| < 1 := by linarith
    exact_mod_cast hcast
  exact Int.natCast_inj.mp (sub_eq_zero.mp (Int.abs_lt_one_iff.mp hlt))

/-- A mantissa that fits is given back when it is rounded after a shift. -/
theorem roundWithAccuracy_shifted
    (hm : 0 < m)
    (h : Canonical m e) :
    roundWithAccuracy Format.binary64 s (m * 2 ^ 52) (e + -52) .exact = .finite s m e hm := by
  have hlog : (m * 2 ^ 52).log2 = m.log2 + 52 := by
    rw [← Nat.shiftLeft_eq, log2_shiftLeft hm.ne']
  have hbits := (Nat.log2_lt hm.ne').mpr h.lt
  have hleast := h.least_le
  have hstep : e = max ((m * 2 ^ 52).log2 + 1 + (e + -52) - 53) (-1074 : ℤ) := by
    rw [hlog]
    rcases h.full with hfull | hshort
    · have hlong := (Nat.le_log2 hm.ne').mpr hfull
      omega
    · omega
  have hvalue : ((m * 2 ^ 52 : ℕ) : ℝ) * 2 ^ (e + -52) / 2 ^ e = m := by
    have hshift := shiftLeft_mul_zpow m 52 e
    rw [Nat.shiftLeft_eq] at hshift
    rw [div_eq_iff (by positivity), ← hshift]
    rfl
  have hrounded := (covers_exact (m * 2 ^ 52)).abs_rounded_sub_le (by omega : e + -52 ≤ e)
  rw [hvalue] at hrounded
  have hmantissa : (ExtendedMantissa.ofMantissaAndAccuracy (m * 2 ^ 52) .exact >>>
      (e - (e + -52)).toNat).roundedMantissa = m := eq_of_abs_sub_le hrounded
  rw [roundWithAccuracy_eq_carry hstep (by omega), hmantissa, carry_eq h.lt.le hleast,
    if_pos h.lt, ofParts, dif_neg hm.ne']

/-- Multiplying by one gives a decoded number back. -/
theorem mul_unpackedOne (hu : IsDecoded u) :
    UnpackedFloat.mul Format.binary64 u unpackedOne = u := by
  have hsign : ∀ s : Sign, s * .positive = s := by
    intro s
    cases s <;> rfl
  cases u with
  | finite s m e hm =>
      change roundWithAccuracy Format.binary64 (s * .positive) (m * 2 ^ 52) (e + -52) .exact = _
      rw [hsign, roundWithAccuracy_shifted hm hu]
  | zero s =>
      exact congrArg UnpackedFloat.zero (hsign s)
  | infinity s =>
      exact congrArg UnpackedFloat.infinity (hsign s)
  | notANumber =>
      rfl

theorem zero_add_of_ne (hu : u ≠ .zero .negative) :
    UnpackedFloat.add Format.binary64 (.zero .positive) u = u := by
  cases u with
  | zero s =>
      cases s with
      | negative =>
          exact absurd rfl hu
      | positive =>
          rfl
  | _ =>
      rfl

end Decoded

section Vanishing

variable {s : Sign} {m : ℕ} {e : ℤ}

/-- A mantissa that is not zero is encoded as a number or, with too great an exponent, as an
infinite one. -/
theorem unpack_pack_ofParts_ne
    (hm : 0 < m)
    (hlt : m < 2 ^ 53)
    (hleast : -1074 ≤ e)
    (hfull : 2 ^ 52 ≤ m ∨ e = -1074)
    (t : Sign) :
    UnpackedFloat.unpack Format.binary64 (UnpackedFloat.pack Format.binary64 (ofParts s m e)) ≠
      .zero t := by
  rw [ofParts, dif_neg hm.ne']
  rcases le_or_gt e 971 with hle | hgt
  · have hcanonical : IsNumber (.finite s m e hm) := ⟨hlt, hleast, hle, hfull⟩
    rw [unpack_pack hcanonical]
    exact nofun
  · have hpack : UnpackedFloat.pack Format.binary64 (.finite s m e hm) =
        UnpackedFloat.packedInfinity Format.binary64 s := by
      have hbiased : e + Format.binary64.exponentBias + (52 : ℕ) = e + 1075 := by
        rw [exponentBias_eq]
        ring
      have hrange : 2 ^ 11 ≤ (e + 1075).toNat + 1 := by omega
      rw [← hbiased] at hrange
      exact if_pos hrange
    have hinfinite : UnpackedFloat.unpack Format.binary64
        (UnpackedFloat.packedInfinity Format.binary64 s) = .infinity s := by
      cases s <;> rfl
    rw [hpack, hinfinite]
    exact nofun

/-- A number of at least the least step does not vanish when it is rounded. -/
theorem unpack_pack_round_ne
    (hm : 0 < m)
    (he : -1074 ≤ e)
    (t : Sign) :
    UnpackedFloat.unpack Format.binary64 (UnpackedFloat.pack Format.binary64
      (UnpackedFloat.round Format.binary64 s m e)) ≠ .zero t := by
  obtain ⟨k, hround, hlong⟩ := exists_round_eq (s := s) (e := e) hm
  obtain ⟨r, E, hcarry, hfits, hrounded⟩ := exists_carry (s := s) (covers_exact (m <<< k)) hlong
  obtain ⟨hle, hfull⟩ := hfits.rounded hrounded
  have hpos : 0 < r := by
    rcases hfull with hfull | rfl
    · omega
    · have hone : (1 : ℝ) ≤ ((m <<< k : ℕ) : ℝ) * 2 ^ (e - k) / 2 ^ (-1074 : ℤ) := by
        rw [shiftLeft_mul_zpow, one_le_div (by positivity)]
        calc (2 : ℝ) ^ (-1074 : ℤ)
            ≤ 2 ^ e := zpow_le_zpow_right₀ one_le_two he
          _ ≤ m * 2 ^ e := le_mul_of_one_le_left (by positivity) (by exact_mod_cast hm)
      have hlower := (abs_le.mp hrounded).1
      have hcast : (0 : ℝ) < r := by linarith
      exact_mod_cast hcast
  rw [hround, hcarry, carry_eq hle hfits.least_le]
  have hleast := hfits.least_le
  split_ifs with hlt
  · exact unpack_pack_ofParts_ne hpos hlt hleast hfull t
  · exact unpack_pack_ofParts_ne (by norm_num) (by norm_num) (by omega) (Or.inl le_rfl) t

/-- What normalising a mantissa encodes is no negative zero. -/
theorem unpack_pack_normalize_ne
    {M : ℤ}
    (he : -1074 ≤ e) :
    UnpackedFloat.unpack Format.binary64 (UnpackedFloat.pack Format.binary64
      (UnpackedFloat.normalize Format.binary64 M e .positive)) ≠ .zero .negative := by
  unfold UnpackedFloat.normalize
  rcases lt_trichotomy M 0 with hneg | rfl | hpos
  · rw [compare_lt_iff_lt.mpr hneg]
    exact unpack_pack_round_ne (by omega) he .negative
  · rw [compare_eq_iff_eq.mpr rfl]
    exact unpack_pack_ne trivial nofun
  · rw [compare_gt_iff_gt.mpr hpos]
    exact unpack_pack_round_ne (by omega) he .negative

/-- A sum that does not begin with a negative zero is no negative zero. -/
theorem unpack_pack_add_ne
    {u v : UnpackedFloat}
    (hu : IsDecoded u)
    (hv : IsDecoded v)
    (hne : u ≠ .zero .negative) :
    UnpackedFloat.unpack Format.binary64 (UnpackedFloat.pack Format.binary64
      (UnpackedFloat.add Format.binary64 u v)) ≠ .zero .negative := by
  cases u with
  | finite s m e hm =>
      have hcanonical : Canonical m e := hu
      cases v with
      | finite s' m' e' hm' =>
          have hcanonical' : Canonical m' e' := hv
          exact unpack_pack_normalize_ne (le_min hcanonical.least_le hcanonical'.least_le)
      | zero s' =>
          exact unpack_pack_ne (u := .finite s m e hm) hu nofun
      | infinity s' =>
          exact unpack_pack_ne (u := .infinity s') trivial nofun
      | notANumber =>
          exact unpack_pack_ne (u := .notANumber) trivial nofun
  | zero s =>
      cases s with
      | negative =>
          exact absurd rfl hne
      | positive =>
          cases v with
          | finite s' m' e' hm' =>
              exact unpack_pack_ne (u := .finite s' m' e' hm') hv nofun
          | zero s' =>
              cases s' <;> exact unpack_pack_ne (u := .zero .positive) trivial nofun
          | infinity s' =>
              exact unpack_pack_ne (u := .infinity s') trivial nofun
          | notANumber =>
              exact unpack_pack_ne (u := .notANumber) trivial nofun
  | infinity s =>
      cases v with
      | infinity s' =>
          cases s <;> cases s' <;> exact unpack_pack_ne trivial nofun
      | notANumber =>
          exact unpack_pack_ne (u := .notANumber) trivial nofun
      | _ =>
          exact unpack_pack_ne (u := .infinity s) trivial nofun
  | notANumber =>
      exact unpack_pack_ne (u := .notANumber) trivial nofun

end Vanishing

section Signs

/-- No sign, or the positive one. -/
inductive Unsigned : UnpackedFloat → Prop
  | finite {m : ℕ} {e : ℤ} (hm : 0 < m) : Unsigned (.finite .positive m e hm)
  | zero : Unsigned (.zero .positive)
  | infinity : Unsigned (.infinity .positive)
  | notANumber : Unsigned .notANumber

variable {u v : UnpackedFloat}

theorem Unsigned.ne (hu : Unsigned u) : u ≠ .zero .negative := by
  rintro rfl
  cases hu

theorem unsigned_roundWithAccuracy (m : ℕ) (e : ℤ) (accuracy : Accuracy) :
    Unsigned (roundWithAccuracy Format.binary64 .positive m e accuracy) := by
  rw [roundWithAccuracy_eq, carry, ofParts]
  split_ifs with h
  · exact .zero
  · exact .finite (Nat.pos_of_ne_zero h)

/-- Encoding keeps the sign. -/
theorem unsigned_ofUnpacked (hu : Unsigned u) : Unsigned (ofUnpacked u).toModel.unpack := by
  have hpositive : ∀ exponent mantissa, Unsigned (UnpackedFloat.unpack Format.binary64
      (packComponents Format.binary64 .positive exponent mantissa)) := by
    intro exponent mantissa
    unfold UnpackedFloat.unpack
    simp only [UnpackedFloat.unpackMantissa_packComponents,
      UnpackedFloat.unpackExponent_packComponents, UnpackedFloat.unpackSign_packComponents,
      Sign.ofBitVec_toBitVec]
    split_ifs <;> constructor
  change Unsigned (UnpackedFloat.unpack Format.binary64 (UnpackedFloat.pack Format.binary64 u))
  cases hu with
  | finite hm =>
      unfold UnpackedFloat.pack
      dsimp only
      split_ifs <;> exact hpositive _ _
  | _ =>
      exact hpositive _ _

theorem Unsigned.mul
    (hu : Unsigned u)
    (hv : Unsigned v) :
    Unsigned (UnpackedFloat.mul Format.binary64 u v) := by
  cases hu with
  | finite hm =>
      cases hv with
      | finite hm' =>
          exact unsigned_roundWithAccuracy _ _ _
      | _ =>
          constructor
  | _ =>
      cases hv <;> constructor

theorem Unsigned.div
    (hu : Unsigned u)
    (hv : Unsigned v) :
    Unsigned (UnpackedFloat.div Format.binary64 u v) := by
  cases hu with
  | finite hm =>
      cases hv with
      | finite hm' =>
          exact unsigned_roundWithAccuracy _ _ _
      | _ =>
          constructor
  | _ =>
      cases hv <;> constructor

theorem unsigned_normalize (n : ℕ) :
    Unsigned (UnpackedFloat.normalize Format.binary64 n 0 .positive) := by
  unfold UnpackedFloat.normalize
  rcases Nat.eq_zero_or_pos n with rfl | hpos
  · exact .zero
  · rw [compare_gt_iff_gt.mpr (Int.natCast_pos.mpr hpos)]
    obtain ⟨k, hround, -⟩ :=
      exists_round_eq (s := .positive) (m := (n : ℤ).toNat) (e := 0) (by omega)
    rw [hround]
    exact unsigned_roundWithAccuracy _ _ _

/-- A count becomes a double without a negative sign. -/
theorem unsigned_ofNat (n : ℕ) : Unsigned (Float.ofNat n).toModel.unpack := by
  rcases Nat.lt_or_ge n (2 ^ 53) with hshort | hlong
  · have hone : Unsigned unpackedOne := .finite _
    rw [ofNat_short hshort]
    exact unsigned_ofUnpacked
      ((unsigned_ofUnpacked (unsigned_normalize n)).mul (unsigned_ofUnpacked hone))
  · rw [ofNat_long hlong]
    exact unsigned_ofUnpacked (unsigned_roundWithAccuracy _ _ _)

end Signs

section Unchanged

variable {x y : Float}

/-- A double that is not the negative zero, which `Float` counts as equal to the positive one. -/
def IsOrdinary (x : Float) : Prop :=
  x.toModel.unpack ≠ .zero .negative

theorem isOrdinary_add (hx : IsOrdinary x) : IsOrdinary (x + y) :=
  unpack_pack_add_ne (isDecoded_unpack x) (isDecoded_unpack y) hx

theorem isOrdinary_sub (hx : IsOrdinary x) : IsOrdinary (x - y) := by
  have hsub : x - y = ofUnpacked (UnpackedFloat.add Format.binary64 x.toModel.unpack
      y.toModel.unpack.neg) :=
    congrArg ofUnpacked (sub_eq_add _ _)
  rw [hsub]
  exact unpack_pack_add_ne (isDecoded_unpack x) (isDecoded_neg (isDecoded_unpack y)) hx

/-- Of the two zeros only the positive one is ordinary. -/
theorem eq_zero_of_value_eq_zero
    (hfinite : x.isFinite = true)
    (hx : IsOrdinary x)
    (hvalue : value x = 0) :
    x = 0 := by
  rw [← ofUnpacked_unpack x]
  cases hu : x.toModel.unpack with
  | finite s m e hm =>
      have hfactor : factor s ≠ 0 := abs_pos.mp (by rw [abs_factor]; exact one_pos)
      rw [value, hu, toReal_finite hm] at hvalue
      exact absurd hvalue (mul_ne_zero hfactor (magnitude_pos hm).ne')
  | zero s =>
      cases s with
      | negative =>
          exact absurd hu hx
      | positive =>
          rfl
  | _ =>
      have hnumber := isNumber_of_isFinite hfinite
      rw [hu] at hnumber
      exact hnumber.elim

theorem isOrdinary_quotient (m n : ℕ) : IsOrdinary (Float.ofNat m / Float.ofNat n) :=
  (unsigned_ofUnpacked ((unsigned_ofNat m).div (unsigned_ofNat n))).ne

end Unchanged

end Double

namespace Scalar

open Float.Model (Format UnpackedFloat)

/-- Rescaling to the interval from `0` to `1` leaves the number as it is. -/
def Unchanged {α : Type} [Scalar α] (x : α) : Prop :=
  0 + x * (1 - 0) = x

/-- Zero, quotients of counts, and sums and differences that begin with a number that rescaling to
the interval from `0` to `1` leaves as it is are numbers that it leaves as they are. -/
class UnitRescaling (α : Type) [Scalar α] : Prop where
  zero : Unchanged (0 : α)
  quotient : ∀ m n : ℕ, n ≠ 0 → Unchanged ((m : α) / (n : α))
  add : ∀ a b : α, Unchanged a → Unchanged (a + b)
  sub : ∀ a b : α, Unchanged a → Unchanged (a - b)

/-- Of the doubles the negative zero alone is changed: it becomes the positive one. -/
theorem unchanged_iff {x : Float} : Unchanged x ↔ Double.IsOrdinary x := by
  have hrescaled : Unchanged x ↔ Double.ofUnpacked (UnpackedFloat.add Format.binary64
      (.zero .positive) (Double.ofUnpacked (UnpackedFloat.mul Format.binary64 x.toModel.unpack
        Double.unpackedOne)).toModel.unpack) = x := Iff.rfl
  rw [hrescaled, Double.mul_unpackedOne (Double.isDecoded_unpack x), Double.ofUnpacked_unpack]
  constructor
  · intro h hnegative
    have hdecoded := congrArg (fun y : Float => y.toModel.unpack) h
    simp only [hnegative] at hdecoded
    cases hdecoded
  · intro h
    rw [Double.zero_add_of_ne h, Double.ofUnpacked_unpack]

instance : UnitRescaling Float where
  zero := unchanged_iff.mpr nofun
  quotient m n _ := unchanged_iff.mpr (Double.isOrdinary_quotient m n)
  add _ _ ha := unchanged_iff.mpr (Double.isOrdinary_add (unchanged_iff.mp ha))
  sub _ _ ha := unchanged_iff.mpr (Double.isOrdinary_sub (unchanged_iff.mp ha))

/-- In exact arithmetic every number is left as it is. -/
theorem unchanged_exact (x : ℝ) : Unchanged x := by
  simp [Unchanged]

instance : UnitRescaling ℝ :=
  ⟨unchanged_exact _, fun _ _ _ => unchanged_exact _, fun _ _ _ => unchanged_exact _,
    fun _ _ _ => unchanged_exact _⟩

end Scalar

end FieldGeometry
