import Provenance.Number.Double

/-!
# Integers as doubles

A double has no room for every integer, and an integer past its range is refused. The integers of 64
bits, signed or unsigned, are far from that end: one of them has at most 65 binary digits, and a
double has exponents for more than a thousand.

Main result:

* `Double.exists_ofInt?` — an integer of at most 64 bits has a double.
-/

namespace Provenance

theorem roundDiv_le (num den : Nat) : roundDiv num den ≤ num / den + 1 := by
  rw [roundDiv]
  split
  · exact Nat.le_succ _
  · exact Nat.le_refl _

namespace Double

section Bits

variable {negative : Bool} {below : Nat}

/-- The bits of a double are those below the sign, and that of the sign. -/
theorem toNat_ofSign (h : below < signBit) :
    (ofSign negative below).bits.toNat = below + if negative then signBit else 0 := by
  have htwo : signBit + signBit = 2 ^ 64 := rfl
  refine UInt64.toNat_ofNat_of_lt' ?_
  show below + (if negative then signBit else 0) < 2 ^ 64
  cases negative <;> simp only [if_true, Bool.false_eq_true, if_false] <;> omega

/-- The sign takes nothing from the bits below it. -/
theorem mod_signBit_ofSign (h : below < signBit) :
    (ofSign negative below).bits.toNat % signBit = below := by
  rw [toNat_ofSign h]
  cases negative with
  | false => exact Nat.mod_eq_of_lt h
  | true =>
    rw [if_pos rfl, Nat.add_mod_right]
    exact Nat.mod_eq_of_lt h

/-- The bits below the sign decide whether a double is infinite. -/
theorem magnitude_ofSign_ne_infinite (h : below < infinityBits) :
    (ofSign negative below).magnitude ≠ .infinite := by
  have hbelow : (ofSign negative below).bits.toNat % signBit = below :=
    mod_signBit_ofSign (Nat.lt_trans h (by decide))
  -- an exponent of all ones is what makes a double infinite
  have hexponent : below / leadingBit < 0x7FF := Nat.div_lt_of_lt_mul (by
    rw [Nat.mul_comm]
    exact h)
  unfold magnitude
  simp only [hbelow]
  rw [if_neg (Nat.ne_of_lt hexponent)]
  split
  · exact nofun
  · exact nofun

end Bits

/-- The exponent of a natural number is the place of its highest digit. -/
theorem binaryExponent_one {num : Nat} (h : num ≠ 0) : binaryExponent num 1 = num.log2 := by
  have hlog : ((num.log2 : Int) - (Nat.log2 1 : Nat)) = num.log2 := by
    rw [show Nat.log2 1 = 0 by decide]
    omega
  have hself : 1 <<< num.log2 ≤ num := by
    rw [Nat.one_shiftLeft]
    exact Nat.log2_self_le h
  rw [binaryExponent]
  simp only [hlog]
  rw [if_pos]
  rw [Int.toNat_natCast, show (-(num.log2 : Int)).toNat = 0 by omega]
  exact hself

/-- A number is scaled to 53 digits before it is rounded. -/
theorem scaled_lt {num place : Nat} (h : num.log2 = place) :
    (num <<< (52 - place)) / (1 <<< (place - 52)) < 0x20000000000000 := by
  have hlt : num < 2 ^ (place + 1) := h ▸ Nat.lt_log2_self
  rw [show 0x20000000000000 = 2 ^ 53 by decide]
  rw [Nat.shiftLeft_eq, Nat.one_shiftLeft]
  refine Nat.div_lt_of_lt_mul ?_
  rw [← Nat.pow_add]
  have hscaled : num * 2 ^ (52 - place) < 2 ^ (place + 1) * 2 ^ (52 - place) :=
    Nat.mul_lt_mul_of_pos_right hlt (Nat.two_pow_pos _)
  rw [← Nat.pow_add] at hscaled
  exact Nat.lt_of_lt_of_le hscaled (Nat.pow_le_pow_right (by decide) (by omega))

/-- A natural number of at most 65 digits has a finite double. -/
theorem magnitude_ofRatio_ne_infinite {negative : Bool} {num : Nat}
    (h : num ≤ 0x10000000000000000) : (ofRatio negative num 1).magnitude ≠ .infinite := by
  by_cases hzero : num = 0
  · rw [ofRatio, if_pos hzero]
    exact magnitude_ofSign_ne_infinite (by decide)
  -- a number of 65 digits has its highest one at the place 64
  have hplace : num.log2 ≤ 64 := by
    have := (Nat.log2_lt hzero).mpr (show num < 2 ^ 65 by omega)
    omega
  have hstep : max ((num.log2 : Int) - 52) (-1074) = (num.log2 : Int) - 52 := by omega
  have hround := roundDiv_le (num <<< (52 - num.log2)) (1 <<< (num.log2 - 52))
  have hscaled : (num <<< (52 - num.log2)) / (1 <<< (num.log2 - 52)) < 0x20000000000000 :=
    scaled_lt rfl
  rw [ofRatio, if_neg hzero]
  simp only [binaryExponent_one hzero, hstep]
  rw [show (-((num.log2 : Int) - 52)).toNat = 52 - num.log2 by omega,
    show ((num.log2 : Int) - 52).toNat = num.log2 - 52 by omega]
  refine magnitude_ofSign_ne_infinite ?_
  -- the exponent field is at most that of the step 12, and the digits are 53
  have hfield : ((num.log2 : Int) - 52 + 1074).toNat ≤ 1086 := by omega
  have hproduct : ((num.log2 : Int) - 52 + 1074).toNat * leadingBit ≤ 1086 * leadingBit :=
    Nat.mul_le_mul_right _ hfield
  have hroom : 1086 * leadingBit + (0x20000000000000 + 1) < infinityBits := by decide
  omega

/-- **An integer of at most 64 bits has a double.** -/
theorem exists_ofInt? {n : Int} (hlow : -0x8000000000000000 ≤ n) (hhigh : n < 0x10000000000000000) :
    ∃ d, ofInt? n = some d := by
  have hfinite : (ofRatio (n < 0) n.natAbs 1).magnitude ≠ .infinite :=
    magnitude_ofRatio_ne_infinite (by omega)
  exact ⟨ofRatio (n < 0) n.natAbs 1, if_neg hfinite⟩

end Double

end Provenance
