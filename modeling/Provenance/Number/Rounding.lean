/-!
# Rounding a quotient

* `roundDiv` — the natural number nearest to a quotient; of two equally near ones, the even one.
-/

namespace Provenance

/-- The natural number nearest to `num / den`; a quotient half-way goes to the even neighbour. -/
def roundDiv (num den : Nat) : Nat :=
  let low := num / den
  let rest := num % den
  if 2 * rest < den ∨ (2 * rest = den ∧ low % 2 = 0) then low else low + 1

/-- The rounded quotient is at most half a unit away from the quotient. -/
theorem roundDiv_within_half {num den : Nat} (h : 0 < den) :
    2 * num ≤ (2 * roundDiv num den + 1) * den ∧ 2 * roundDiv num den * den ≤ 2 * num + den := by
  have hdiv := Nat.div_add_mod num den
  have hlt := Nat.mod_lt num h
  have hcomm : num / den * den = den * (num / den) := Nat.mul_comm ..
  simp only [roundDiv]
  split
  · constructor <;> simp only [Nat.add_mul, Nat.mul_assoc, hcomm] <;> omega
  · constructor <;> simp only [Nat.add_mul, Nat.mul_add, Nat.mul_assoc, hcomm] <;> omega

end Provenance
