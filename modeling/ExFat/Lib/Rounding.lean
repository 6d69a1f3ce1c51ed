import Mathlib.Tactic.Common
import Mathlib.Tactic.Ring

namespace ExFat

/-!
# Rounding up

Division and rounding upwards by a positive number, characterised by `divRoundUp_le_iff`: the
quotient is the least number of parts that cover the whole.
-/

/-- `x / d`, rounded upwards. -/
def divRoundUp (x d : Nat) : Nat := (x + d - 1) / d

/-- `x` rounded upwards to a multiple of `d`. -/
def roundUp (x d : Nat) : Nat := divRoundUp x d * d

variable {x d k : Nat}

/-- The units cover what is rounded. -/
theorem le_divRoundUp_mul (x : Nat) {d : Nat} (hd : 0 < d) : x ≤ divRoundUp x d * d := by
  have h := Nat.lt_div_mul_add (a := x + d - 1) hd
  unfold divRoundUp
  omega

/-- The units exceed what is rounded by less than one. -/
theorem divRoundUp_mul_lt (hd : 0 < d) : divRoundUp x d * d < x + d := by
  have h := Nat.div_mul_le_self (x + d - 1) d
  unfold divRoundUp
  omega

/-- A number of units is enough when they cover what is rounded. -/
theorem divRoundUp_le_iff (hd : 0 < d) : divRoundUp x d ≤ k ↔ x ≤ k * d := by
  constructor
  · intro h
    exact (le_divRoundUp_mul x hd).trans (Nat.mul_le_mul_right d h)
  · intro h
    by_contra hlt
    have h1 := divRoundUp_mul_lt (x := x) hd
    have h2 : (k + 1) * d ≤ divRoundUp x d * d := Nat.mul_le_mul_right d (by omega)
    rw [Nat.add_mul, Nat.one_mul] at h2
    omega

/-- A number of units is too small when they do not cover what is rounded. -/
theorem lt_divRoundUp_iff (hd : 0 < d) : k < divRoundUp x d ↔ k * d < x := by
  rw [← not_le, divRoundUp_le_iff hd, not_le]

/-- The quotient is determined by what it covers. -/
theorem divRoundUp_eq (hd : 0 < d) (h1 : x ≤ k * d) (h2 : ∀ j, x ≤ j * d → k ≤ j) :
    divRoundUp x d = k :=
  Nat.le_antisymm ((divRoundUp_le_iff hd).mpr h1) (h2 _ (le_divRoundUp_mul x hd))

/-- Rounding in two steps is rounding in one. -/
theorem divRoundUp_divRoundUp {a b : Nat} (ha : 0 < a) (hb : 0 < b) :
    divRoundUp (divRoundUp x a) b = divRoundUp x (a * b) := by
  symm
  apply divRoundUp_eq (Nat.mul_pos ha hb)
  · have h1 := (divRoundUp_le_iff hb).mp (Nat.le_refl (divRoundUp (divRoundUp x a) b))
    have h2 := (divRoundUp_le_iff ha).mp h1
    rwa [Nat.mul_assoc, Nat.mul_comm b a] at h2
  · intro j hj
    rw [divRoundUp_le_iff hb, divRoundUp_le_iff ha, Nat.mul_assoc, Nat.mul_comm b a]
    exact hj

/-- Whole parts add to the quotient. -/
theorem divRoundUp_mul_add (hd : 0 < d) (m x : Nat) :
    divRoundUp (m * d + x) d = m + divRoundUp x d := by
  apply divRoundUp_eq hd
  · have := le_divRoundUp_mul x hd
    rw [Nat.add_mul]
    omega
  · intro j hj
    have hmj : m ≤ j := by
      by_contra hlt
      have : (j + 1) * d ≤ m * d := Nat.mul_le_mul_right d (by omega)
      rw [Nat.add_mul, Nat.one_mul] at this
      omega
    have : divRoundUp x d ≤ j - m := by
      rw [divRoundUp_le_iff hd, Nat.sub_mul]
      omega
    omega

/-- Whole units are rounded to themselves. -/
theorem roundUp_mul_add (hd : 0 < d) (m x : Nat) :
    roundUp (m * d + x) d = (m + divRoundUp x d) * d := by
  unfold roundUp
  rw [divRoundUp_mul_add hd]

/-- Rounding up does not make smaller. -/
theorem le_roundUp (x : Nat) (hd : 0 < d) : x ≤ roundUp x d := le_divRoundUp_mul x hd

/-- What is a multiple is rounded to itself. -/
theorem roundUp_of_dvd (hd : 0 < d) (h : d ∣ x) : roundUp x d = x := by
  obtain ⟨m, rfl⟩ := h
  rw [Nat.mul_comm]
  have h := roundUp_mul_add hd m 0
  have h0 : divRoundUp 0 d = 0 := Nat.le_zero.mp ((divRoundUp_le_iff hd).mpr (by omega))
  rwa [Nat.add_zero, h0, Nat.add_zero] at h

/-- What is not empty needs a unit. -/
theorem divRoundUp_pos (hd : 0 < d) (hx : 0 < x) : 0 < divRoundUp x d :=
  (lt_divRoundUp_iff hd).mpr (by omega)

end ExFat
