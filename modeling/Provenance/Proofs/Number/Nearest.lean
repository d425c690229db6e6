import Mathlib.Algebra.Order.Field.Power
import Mathlib.Algebra.Order.Field.Rat
import Mathlib.Algebra.Order.Ring.Abs
import Mathlib.Tactic.FieldSimp
import Mathlib.Tactic.Linarith
import Mathlib.Tactic.NormNum
import Mathlib.Tactic.Positivity
import Mathlib.Tactic.Ring
import Provenance.Proofs.Number

/-!
# The nearest double

A quotient is rounded to a double once: it is scaled to a whole number of units in the last place,
that number is rounded, and the bits are put together. What this comes to is told with rational
numbers, apart from how it is computed.

* `Double.value?` — the number that a double stands for, if it is finite.
* `Double.IsNearest` — no finite double is nearer to a number, and one that is as near leaves the
  last digit even.
* `Double.two_zpow_binaryExponent_le`, `Double.lt_two_zpow_binaryExponent` — the binary exponent of
  a quotient.
* `Double.nearest_on_grid` — the nearest multiple of the unit is nearest among all doubles: those
  with a smaller unit lie below the power of two that the quotient has reached.

Main result:

* `Double.isNearest_ofRatio` — a quotient within the range of doubles is rounded to the nearest.
-/

namespace Provenance

/-!
## Rounding to a whole number

A quotient is rounded to a whole number that is no further than a half away, and to an even one
where two are equally near.
-/

section Whole

variable {num den : Nat}

/-- A rounded quotient is at most half a unit away. -/
theorem abs_roundDiv_sub_le (num : Nat) (h : 0 < den) :
    |(roundDiv num den : ℚ) - num / den| ≤ 1 / 2 := by
  obtain ⟨hlow, hhigh⟩ : 2 * num ≤ (2 * roundDiv num den + 1) * den
      ∧ 2 * roundDiv num den * den ≤ 2 * num + den := roundDiv_within_half h
  -- the same over the rationals, where the quotient is exact
  have hden : (0 : ℚ) < den := by exact_mod_cast h
  have hlow : (2 * num : ℚ) ≤ (2 * roundDiv num den + 1) * den := by exact_mod_cast hlow
  have hhigh : (2 * roundDiv num den * den : ℚ) ≤ 2 * num + den := by exact_mod_cast hhigh
  rw [abs_le]
  constructor
  · have hquot : (num : ℚ) / den ≤ roundDiv num den + 1 / 2 := by
      rw [div_le_iff₀ hden]
      linarith
    linarith
  · have hquot : (roundDiv num den : ℚ) - 1 / 2 ≤ num / den := by
      rw [le_div_iff₀ hden]
      linarith
    linarith

/-- A quotient half-way between two whole numbers goes to the even one. -/
theorem roundDiv_even_of_half (h : 0 < den)
    (hhalf : |(roundDiv num den : ℚ) - num / den| = 1 / 2) : roundDiv num den % 2 = 0 := by
  have hden : (0 : ℚ) < den := by exact_mod_cast h
  -- the quotient is half a unit above the rounded one, or half a unit below
  have hends : 2 * num = 2 * (roundDiv num den * den) + den
      ∨ 2 * (roundDiv num den * den) = 2 * num + den := by
    rcases eq_or_eq_neg_of_abs_eq hhalf with habove | hbelow
    · right
      field_simp at habove
      exact_mod_cast (show (2 * (roundDiv num den * den) : ℚ) = 2 * num + den by linarith)
    · left
      field_simp at hbelow
      exact_mod_cast (show (2 * num : ℚ) = 2 * (roundDiv num den * den) + den by linarith)
  have hdiv := Nat.div_add_mod num den
  have hlt := Nat.mod_lt num h
  rw [Nat.mul_comm] at hdiv
  -- the remainder is half the divisor, and which way it goes is told by the parity
  unfold roundDiv at hends ⊢
  simp only at hends ⊢
  split at hends
  next hdown =>
    rw [if_pos hdown]
    omega
  next hup =>
    have hsucc : (num / den + 1) * den = num / den * den + den := Nat.succ_mul _ _
    rw [if_neg hup]
    omega

/-- Of two whole numbers one is at least half a unit away. -/
theorem half_le_abs_sub {r k : ℤ} {x : ℚ} (h : |(r : ℚ) - x| ≤ 1 / 2) (hne : k ≠ r) :
    1 / 2 ≤ |(k : ℚ) - x| := by
  have hone : (1 : ℚ) ≤ |(k : ℚ) - r| := by
    have := Int.one_le_abs (sub_ne_zero.mpr hne)
    exact_mod_cast this
  have hsum := abs_sub_le (k : ℚ) x r
  rw [abs_sub_comm x] at hsum
  linarith

/-- No whole number is nearer to a quotient than the rounded one. -/
theorem roundDiv_nearest (h : 0 < den) (k : ℤ) :
    |(roundDiv num den : ℚ) - num / den| ≤ |(k : ℚ) - num / den| := by
  by_cases hk : k = (roundDiv num den : ℤ)
  · rw [hk]
    exact le_refl _
  · have hhalf := abs_roundDiv_sub_le num h
    exact le_trans hhalf (half_le_abs_sub (r := roundDiv num den) hhalf hk)

/-- Another whole number that is as near makes the rounded one even. -/
theorem roundDiv_even_of_tie (h : 0 < den) {k : ℤ}
    (htie : |(k : ℚ) - num / den| = |(roundDiv num den : ℚ) - num / den|)
    (hne : k ≠ (roundDiv num den : ℤ)) : roundDiv num den % 2 = 0 := by
  have hhalf := abs_roundDiv_sub_le num h
  have hother := half_le_abs_sub (r := roundDiv num den) hhalf hne
  exact roundDiv_even_of_half h (le_antisymm hhalf (htie ▸ hother))

end Whole

namespace Double

/-!
## What a double stands for

A finite double stands for a rational number, a whole number of units in the last place. Nearness is
told among all such numbers.
-/

/-- The number that a double stands for, if it is finite. -/
def value? (d : Double) : Option ℚ :=
  match d.magnitude with
  | .finite m e => some ((if d.isNegative then -1 else 1) * (m * 2 ^ e))
  | _ => none

/-- A double is the one nearest to a number. It has the sign of the number, no finite double is
nearer, and where another one is as near, its own last digit is even. -/
structure IsNearest (d : Double) (q : ℚ) : Prop where
  sign : d.isNegative = decide (q < 0)
  finite : d.value?.isSome
  nearest : ∀ r ∈ d.value?, ∀ other : Double, ∀ r' ∈ other.value?, |r - q| ≤ |r' - q|
  even : ∀ r ∈ d.value?, ∀ other : Double, ∀ r' ∈ other.value?,
    |r' - q| = |r - q| → r' ≠ r → d.bits.toNat % 2 = 0

/-- A finite double is a whole number below `2 ^ 53` of some unit, and no unit is below
`2 ^ -1074`. -/
theorem exists_units {d : Double} {r : ℚ} (h : d.value? = some r) :
    ∃ n e : ℤ, r = n * 2 ^ e ∧ n < 2 ^ 53 ∧ -1074 ≤ e := by
  -- the mantissa is below the next power of two, whether it has the leading bit or not
  have hunits : ∀ m e, d.magnitude = .finite m e → m < 2 ^ 53 ∧ -1074 ≤ e := by
    intro m e hfinite
    have hfraction : d.bits.toNat % signBit % leadingBit < 2 ^ 52 := Nat.mod_lt _ (by decide)
    have hbit : leadingBit = 2 ^ 52 := rfl
    unfold magnitude at hfinite
    simp only at hfinite
    generalize d.bits.toNat % signBit / leadingBit = exponent at hfinite
    generalize d.bits.toNat % signBit % leadingBit = fraction at hfinite hfraction
    split at hfinite
    next => split at hfinite <;> cases hfinite
    next =>
      split at hfinite
      next =>
        cases hfinite
        omega
      next =>
        cases hfinite
        omega
  unfold value? at h
  split at h
  next m e hmagnitude =>
    obtain ⟨hm, he⟩ := hunits m e hmagnitude
    cases h
    cases d.isNegative with
    | false => exact ⟨m, e, by simp, by exact_mod_cast hm, he⟩
    | true => exact ⟨-m, e, by simp, by omega, he⟩
  next => cases h

/-! ## Bits -/

section Bits

variable {negative : Bool} {below : Nat}

/-- The sign of a double is the bit in front of the others. -/
theorem isNegative_ofSign (h : below < signBit) :
    (ofSign negative below).isNegative = negative := by
  rw [isNegative, toNat_ofSign h]
  cases negative with
  | false => simpa using h
  | true => simp

/-- The exponent and the fraction of a double are what its bits below the sign are divided into. -/
theorem magnitude_ofSign {exponent fraction : Nat} (hfraction : fraction < leadingBit)
    (hexponent : exponent < 0x7FF) :
    (ofSign negative (exponent * leadingBit + fraction)).magnitude =
      if exponent = 0 then .finite fraction (-1074)
      else .finite (fraction + leadingBit) (exponent - 1075) := by
  have hbelow : exponent * leadingBit + fraction < signBit := by
    unfold leadingBit at *
    unfold signBit
    omega
  have hdiv : (exponent * leadingBit + fraction) / leadingBit = exponent := by
    unfold leadingBit at *
    omega
  have hmod : (exponent * leadingBit + fraction) % leadingBit = fraction := by
    unfold leadingBit at *
    omega
  rw [magnitude]
  -- of the two exponents that are left, zero stands for numbers without the leading bit
  simp only [mod_signBit_ofSign hbelow, hdiv, hmod]
  rw [if_neg (by omega)]

/-- So many units in the last place have these bits. A whole number of units that is short of the
leading bit is there only for the smallest unit, and one with a digit too many takes the next
unit. -/
theorem value?_ofSign {place digits : Nat} (hdigits : digits ≤ 2 * leadingBit)
    (hfull : place = 0 ∨ leadingBit ≤ digits) (hrange : place + 2 < 0x7FF) :
    (ofSign false (place * leadingBit + digits)).value?
      = some ((digits : ℚ) * 2 ^ ((place : ℤ) - 1074)) := by
  have hbelow : place * leadingBit + digits < signBit := by
    unfold leadingBit at *
    unfold signBit
    omega
  rw [value?, isNegative_ofSign hbelow]
  by_cases hshort : digits < leadingBit
  · have hplace : place = 0 := by omega
    subst hplace
    rw [magnitude_ofSign hshort (by omega)]
    simp
  by_cases hcarry : digits = 2 * leadingBit
  · -- the digits are a power of two, and one place further on the leading bit alone
    have hbits : place * leadingBit + digits = (place + 2) * leadingBit + 0 := by
      rw [hcarry, Nat.add_zero, Nat.add_mul]
    have hunit : ((place + 2 : Nat) : ℤ) - 1075 = (place : ℤ) - 1074 + 1 := by
      push_cast
      ring
    rw [hbits, magnitude_ofSign (by decide) hrange, if_neg (by omega)]
    simp only [hunit, hcarry, Nat.zero_add, Bool.false_eq_true, if_false, one_mul, Nat.cast_mul]
    rw [zpow_add_one₀ two_ne_zero]
    push_cast
    ring_nf
  -- between the two the leading bit goes into the exponent
  · have hbits : place * leadingBit + digits
        = (place + 1) * leadingBit + (digits - leadingBit) := by
      rw [Nat.succ_mul]
      omega
    have hunit : ((place + 1 : Nat) : ℤ) - 1075 = (place : ℤ) - 1074 := by
      push_cast
      ring
    rw [hbits, magnitude_ofSign (by omega) (by omega), if_neg (by omega)]
    simp only [hunit, Nat.sub_add_cancel (Nat.not_lt.mp hshort), Bool.false_eq_true, if_false,
      one_mul]

end Bits

/-!
## The unit in the last place

The exponent is told by the places of the highest digits of numerator and denominator, and is
corrected by one where these are not enough.
-/

section Unit

variable {num den : Nat}

/-- A quotient counted in units of a power of two. -/
theorem shifted_div (num den : Nat) (e : ℤ) :
    ((num <<< (-e).toNat : Nat) : ℚ) / (den <<< e.toNat : Nat) = num / den / 2 ^ e := by
  -- one of the two shifts is by nothing, which one depends on the sign of the exponent
  rcases Int.le_total 0 e with he | he
  · obtain ⟨k, rfl⟩ := Int.eq_ofNat_of_zero_le he
    have hneg : (-(k : ℤ)).toNat = 0 := by omega
    rw [hneg, Int.toNat_natCast, Nat.shiftLeft_zero, Nat.shiftLeft_eq, zpow_natCast]
    push_cast
    rw [div_div]
  · obtain ⟨k, hk⟩ := Int.eq_ofNat_of_zero_le (Int.neg_nonneg.mpr he)
    have he' : e = -(k : ℤ) := by omega
    have hneg : (-(k : ℤ)).toNat = 0 := by omega
    rw [he', neg_neg, hneg, Int.toNat_natCast, Nat.shiftLeft_zero, Nat.shiftLeft_eq, zpow_neg,
      zpow_natCast]
    push_cast
    rw [div_inv_eq_mul]
    ring

/-- A shifted numerator has reached the denominator when the quotient has reached the power of two.
-/
theorem shiftLeft_le_shiftLeft_iff (hden : 0 < den) (e : ℤ) :
    den <<< e.toNat ≤ num <<< (-e).toNat ↔ (2 : ℚ) ^ e ≤ num / den := by
  have hpos : (0 : ℚ) < (den <<< e.toNat : Nat) := by
    exact_mod_cast Nat.shiftLeft_pos_iff.mpr hden
  have hunit : (0 : ℚ) < 2 ^ e := by positivity
  rw [← one_le_div hunit, ← shifted_div, one_le_div hpos, Nat.cast_le]

/-- Numbers of some binary digits have a quotient of about the difference of digits. -/
theorem quotient_bounds (hnum : 0 < num) (hden : 0 < den) :
    (2 : ℚ) ^ ((num.log2 : ℤ) - den.log2 - 1) ≤ num / den
      ∧ (num : ℚ) / den < 2 ^ ((num.log2 : ℤ) - den.log2 + 1) := by
  -- numerator and denominator each lie between two neighbouring powers of two
  have hnumLow : ((2 : ℚ) ^ num.log2) ≤ num := by
    exact_mod_cast Nat.log2_self_le hnum.ne'
  have hnumHigh : (num : ℚ) < 2 ^ (num.log2 + 1) := by exact_mod_cast Nat.lt_log2_self
  have hdenLow : ((2 : ℚ) ^ den.log2) ≤ den := by
    exact_mod_cast Nat.log2_self_le hden.ne'
  have hdenHigh : (den : ℚ) < 2 ^ (den.log2 + 1) := by exact_mod_cast Nat.lt_log2_self
  have hpos : (0 : ℚ) < den := by exact_mod_cast hden
  constructor
  -- the least quotient has the least numerator over the greatest denominator
  · rw [le_div_iff₀ hpos]
    calc (2 : ℚ) ^ ((num.log2 : ℤ) - den.log2 - 1) * den
        ≤ 2 ^ ((num.log2 : ℤ) - den.log2 - 1) * 2 ^ (den.log2 + 1) := by gcongr
      _ = 2 ^ num.log2 := by
        rw [← zpow_natCast, ← zpow_natCast, ← zpow_add₀ two_ne_zero]
        congr 1
        push_cast
        ring
      _ ≤ num := hnumLow
  · rw [div_lt_iff₀ hpos]
    calc (num : ℚ) < 2 ^ (num.log2 + 1) := hnumHigh
      _ = 2 ^ ((num.log2 : ℤ) - den.log2 + 1) * 2 ^ den.log2 := by
        rw [← zpow_natCast, ← zpow_natCast, ← zpow_add₀ two_ne_zero]
        congr 1
        push_cast
        ring
      _ ≤ 2 ^ ((num.log2 : ℤ) - den.log2 + 1) * den := by gcongr

/-- A quotient has reached the power of two of its exponent. -/
theorem two_zpow_binaryExponent_le (hnum : 0 < num) (hden : 0 < den) :
    (2 : ℚ) ^ binaryExponent num den ≤ num / den := by
  rw [binaryExponent]
  split
  next hreached => exact (shiftLeft_le_shiftLeft_iff hden _).mp hreached
  next => exact (quotient_bounds hnum hden).1

/-- A quotient is below the next power of two. -/
theorem lt_two_zpow_binaryExponent (hnum : 0 < num) (hden : 0 < den) :
    (num : ℚ) / den < 2 ^ (binaryExponent num den + 1) := by
  rw [binaryExponent]
  split
  next => exact (quotient_bounds hnum hden).2
  next hshort =>
    rw [shiftLeft_le_shiftLeft_iff hden, not_le] at hshort
    rwa [sub_add_cancel]

/-- A part of a whole has no positive exponent. -/
theorem binaryExponent_nonpos (hnum : 0 < num) (hle : num ≤ den) : binaryExponent num den ≤ 0 := by
  have hden : 0 < den := Nat.lt_of_lt_of_le hnum hle
  have hone : (num : ℚ) / den ≤ 1 :=
    div_le_one_of_le₀ (by exact_mod_cast hle) (by positivity)
  by_contra hpositive
  have htwo : (2 : ℚ) ^ (1 : ℤ) ≤ 2 ^ binaryExponent num den :=
    zpow_le_zpow_right₀ one_le_two (by omega)
  have hreached := two_zpow_binaryExponent_le hnum hden
  rw [zpow_one] at htwo
  linarith

end Unit

/-!
## The nearest double

A quotient is rounded to a number of units. The doubles with a greater unit are among these numbers,
and those with a smaller one are all further away, since the unit was chosen as small as 53 digits
allow.
-/

theorem abs_mul_sub (x q : ℚ) (step : ℤ) :
    |x * 2 ^ step - q| = 2 ^ step * |x - q / 2 ^ step| := by
  have hunit : (0 : ℚ) < 2 ^ step := by positivity
  rw [← abs_of_pos hunit, ← abs_mul, abs_of_pos hunit, mul_sub, mul_div_cancel₀ _ hunit.ne',
    mul_comm x]

/-- The nearest multiple of a unit is nearest among the doubles too, if the number has reached the
power of two that the smaller units end at. -/
theorem nearest_on_grid {q : ℚ} {step : ℤ} {digits : Nat}
    (hnear : ∀ k : ℤ, |(digits : ℚ) - q / 2 ^ step| ≤ |(k : ℚ) - q / 2 ^ step|)
    (htie : ∀ k : ℤ, |(k : ℚ) - q / 2 ^ step| = |(digits : ℚ) - q / 2 ^ step| →
      k ≠ (digits : ℤ) → digits % 2 = 0)
    (hreached : -1074 < step → (2 : ℚ) ^ (step + 52) ≤ q) {n e : ℤ} (hn : n < 2 ^ 53)
    (he : -1074 ≤ e) :
    |digits * 2 ^ step - q| ≤ |n * 2 ^ e - q|
      ∧ (|n * 2 ^ e - q| = |digits * 2 ^ step - q| → (n * 2 ^ e : ℚ) ≠ digits * 2 ^ step →
        digits % 2 = 0) := by
  have hunit : (0 : ℚ) < 2 ^ step := by positivity
  by_cases hcoarse : step ≤ e
  · -- a number of greater units is a number of these units
    have hmultiple : (n * 2 ^ e : ℚ) = ((n * 2 ^ (e - step).toNat : ℤ) : ℚ) * 2 ^ step := by
      push_cast
      rw [← zpow_natCast, Int.toNat_of_nonneg (by omega), mul_assoc, ← zpow_add₀ two_ne_zero,
        sub_add_cancel]
    rw [hmultiple, abs_mul_sub, abs_mul_sub]
    refine ⟨mul_le_mul_of_nonneg_left (hnear _) hunit.le, fun heq hne => ?_⟩
    refine htie _ (mul_left_cancel₀ hunit.ne' heq) fun hsame => hne ?_
    rw [hsame]
    push_cast
    rfl
  · -- a number of smaller units is below the power of two, which is a number of these units
    have hq := hreached (by omega)
    have hsmall : (n * 2 ^ e : ℚ) < 2 ^ (step + 52) := by
      have hn' : (n : ℚ) < 2 ^ (53 : ℤ) := by
        rw [zpow_ofNat]
        exact_mod_cast hn
      calc (n * 2 ^ e : ℚ) < 2 ^ (53 : ℤ) * 2 ^ e := by gcongr
        _ = 2 ^ (53 + e) := (zpow_add₀ two_ne_zero _ _).symm
        _ ≤ 2 ^ (step + 52) := zpow_le_zpow_right₀ one_le_two (by omega)
    -- the digits are nearer than the power, and the power is nearer than what lies below it
    have hpower : ((2 ^ 52 : ℤ) : ℚ) * 2 ^ step = 2 ^ (step + 52) := by
      rw [add_comm, zpow_add₀ two_ne_zero]
      norm_num
    have hgrid := mul_le_mul_of_nonneg_left (hnear (2 ^ 52)) hunit.le
    rw [← abs_mul_sub, ← abs_mul_sub, hpower,
      abs_of_nonpos (show (2 : ℚ) ^ (step + 52) - q ≤ 0 by linarith)] at hgrid
    have hfar : |digits * 2 ^ step - q| < |n * 2 ^ e - q| := by
      rw [abs_of_nonpos (show (n * 2 ^ e : ℚ) - q ≤ 0 by linarith)]
      linarith
    exact ⟨hfar.le, fun heq => absurd heq hfar.ne'⟩

/-- The unit in the last place of a double near a quotient, as a power of two. -/
def step (num den : Nat) : ℤ := max (binaryExponent num den - 52) (-1074)

/-- A quotient in units of its last place, rounded. -/
def digits (num den : Nat) : Nat :=
  roundDiv (num <<< (-step num den).toNat) (den <<< (step num den).toNat)

section Digits

variable {num den : Nat}

/-- No other whole number of units is nearer to a quotient than its digits. -/
theorem digits_nearest (num : Nat) (hden : 0 < den) (k : ℤ) :
    |(digits num den : ℚ) - num / den / 2 ^ step num den|
      ≤ |(k : ℚ) - num / den / 2 ^ step num den| := by
  rw [← shifted_div]
  exact roundDiv_nearest (Nat.shiftLeft_pos_iff.mpr hden) k

/-- If another one is as near, the digits are even. -/
theorem digits_even_of_tie (hden : 0 < den) {k : ℤ}
    (htie : |(k : ℚ) - num / den / 2 ^ step num den|
      = |(digits num den : ℚ) - num / den / 2 ^ step num den|)
    (hne : k ≠ (digits num den : ℤ)) : digits num den % 2 = 0 := by
  rw [← shifted_div] at htie
  exact roundDiv_even_of_tie (Nat.shiftLeft_pos_iff.mpr hden) htie hne

/-- Above the smallest unit a quotient has 53 digits at least. -/
theorem reached_of_step (hnum : 0 < num) (hden : 0 < den) (h : -1074 < step num den) :
    (2 : ℚ) ^ (step num den + 52) ≤ num / den := by
  have hstep : step num den + 52 = binaryExponent num den := by
    unfold step at h ⊢
    omega
  rw [hstep]
  exact two_zpow_binaryExponent_le hnum hden

/-- There are at most 53 digits, and rounding up gives at most a power of two. -/
theorem digits_le (hnum : 0 < num) (hden : 0 < den) : digits num den ≤ 2 ^ 53 := by
  have hunit : (0 : ℚ) < 2 ^ step num den := by positivity
  have hunits : (num : ℚ) / den / 2 ^ step num den < 2 ^ 53 := by
    rw [div_lt_iff₀ hunit, ← zpow_natCast, ← zpow_add₀ two_ne_zero]
    refine lt_of_lt_of_le (lt_two_zpow_binaryExponent hnum hden) ?_
    refine zpow_le_zpow_right₀ one_le_two ?_
    unfold step
    omega
  -- the power of two is a whole number of units, and so no nearer than the digits
  have hnear := digits_nearest num hden (2 ^ 53)
  rw [Int.cast_pow, Int.cast_ofNat,
    abs_of_nonneg (show (0 : ℚ) ≤ 2 ^ 53 - num / den / 2 ^ step num den by linarith)] at hnear
  have habove := le_abs_self ((digits num den : ℚ) - num / den / 2 ^ step num den)
  have hle : (digits num den : ℚ) ≤ 2 ^ 53 := by linarith
  exact_mod_cast hle

/-- Short of 53 digits there is only the smallest unit. -/
theorem le_digits (hnum : 0 < num) (hden : 0 < den) (h : -1074 < step num den) :
    2 ^ 52 ≤ digits num den := by
  have hunit : (0 : ℚ) < 2 ^ step num den := by positivity
  have hunits : (2 : ℚ) ^ 52 ≤ num / den / 2 ^ step num den := by
    have hreached := reached_of_step hnum hden h
    rw [add_comm, zpow_add₀ two_ne_zero] at hreached
    rw [le_div_iff₀ hunit]
    exact hreached
  -- here too the power of two is a whole number of units
  have hnear := digits_nearest num hden (2 ^ 52)
  rw [Int.cast_pow, Int.cast_ofNat,
    abs_of_nonpos (show (2 : ℚ) ^ 52 - num / den / 2 ^ step num den ≤ 0 by linarith)] at hnear
  have hbelow := neg_abs_le ((digits num den : ℚ) - num / den / 2 ^ step num den)
  have hle : (2 : ℚ) ^ 52 ≤ digits num den := by linarith
  exact_mod_cast hle

end Digits

/-- **A quotient is rounded to the nearest double**, if it is within their range. -/
theorem isNearest_ofRatio {num den : Nat} (hnum : 0 < num) (hden : 0 < den)
    (hrange : binaryExponent num den < 1023) : (ofRatio false num den).IsNearest (num / den) := by
  obtain ⟨place, hplace⟩ : ∃ place : Nat, (place : ℤ) = step num den + 1074 :=
    ⟨(step num den + 1074).toNat, Int.toNat_of_nonneg (by unfold step; omega)⟩
  have hroom : place + 2 < 0x7FF := by
    unfold step at hplace
    omega
  have hdigits := digits_le hnum hden
  have hbit : leadingBit = 2 ^ 52 := rfl
  have hfield : place * leadingBit = place * 2 ^ 52 := rfl
  have hinfinite : infinityBits = 0x7FF * 2 ^ 52 := rfl
  have hsign : signBit = 2 ^ 63 := rfl
  have hfull : place = 0 ∨ leadingBit ≤ digits num den := by
    by_cases hsmallest : -1074 < step num den
    · exact .inr (le_digits hnum hden hsmallest)
    · exact .inl (by omega)
  -- the bits are those of so many units, and short of infinity
  have hratio : ofRatio false num den = ofSign false (place * leadingBit + digits num den) := by
    rw [ofRatio, if_neg hnum.ne']
    show ofSign false (min ((step num den + 1074).toNat * leadingBit + digits num den)
      infinityBits) = _
    rw [← hplace, Int.toNat_natCast, Nat.min_eq_left]
    omega
  have hvalue : (ofRatio false num den).value?
      = some ((digits num den : ℚ) * 2 ^ step num den) := by
    rw [hratio, value?_ofSign (by omega) hfull hroom, hplace, add_sub_cancel_right]
  have hbits : (ofRatio false num den).bits.toNat = place * leadingBit + digits num den := by
    rw [hratio, toNat_ofSign (by omega)]
    simp
  have hpositive : ¬ (num : ℚ) / den < 0 := not_lt.mpr (by positivity)
  -- every finite double is a number of some unit
  have hgrid : ∀ other : Double, ∀ r ∈ other.value?,
      |(digits num den : ℚ) * 2 ^ step num den - num / den| ≤ |r - num / den|
        ∧ (|r - num / den| = |(digits num den : ℚ) * 2 ^ step num den - num / den| →
          r ≠ (digits num den : ℚ) * 2 ^ step num den → digits num den % 2 = 0) := by
    intro other r hr
    obtain ⟨n, e, rfl, hn, he⟩ := exists_units hr
    exact nearest_on_grid (digits_nearest num hden) (fun k => digits_even_of_tie hden)
      (reached_of_step hnum hden) hn he
  refine ⟨?_, ?_, ?_, ?_⟩
  · rw [hratio, isNegative_ofSign (by omega), decide_eq_false hpositive]
  · rw [hvalue]
    rfl
  · intro r hr other r' hr'
    rw [hvalue] at hr
    cases hr
    exact (hgrid other r' hr').1
  · intro r hr other r' hr' htie hne
    rw [hvalue] at hr
    cases hr
    have heven := (hgrid other r' hr').2 htie hne
    rw [hbits]
    omega

end Double

end Provenance
