import Mathlib.Data.Nat.Basic

namespace words

/-- A sum of digits in base `B` with its carries added at the lower end, in two steps. -/
def endAround (B s : Nat) : Nat := (s / B + s % B + (s / B + s % B) / B) % B

section

variable {m s : Nat}

/-- The digit that stands for the sum modulo `m`. Of the two digits for 0 it is the second one, but for an empty sum. -/
theorem endAround_eq (hs : s < (m + 1) * (m + 1)) :
    endAround (m + 1) s = if s = 0 then 0 else (s - 1) % m + 1 := by
  have hq : s / (m + 1) < m + 1 := Nat.div_lt_of_lt_mul hs
  have hr : s % (m + 1) < m + 1 := Nat.mod_lt _ (Nat.succ_pos m)
  have hsum : (m + 1) * (s / (m + 1)) + s % (m + 1) = s := Nat.div_add_mod s (m + 1)
  rw [endAround]
  generalize s / (m + 1) = q at *
  generalize s % (m + 1) = r at *
  rw [Nat.add_mul, Nat.one_mul] at hsum
  by_cases hzero : s = 0
  · have hqr : q + r = 0 := by omega
    rw [if_pos hzero, hqr, Nat.zero_div, Nat.zero_mod]
  · rw [if_neg hzero]
    have hpos : 0 < q + r := by
      by_contra hnot
      obtain rfl : q = 0 := by omega
      omega
    have hmod : (s - 1) % m = (q + r - 1) % m := by
      have hs1 : s - 1 = q + r - 1 + m * q := by omega
      rw [hs1, Nat.add_mul_mod_self_left]
    rw [hmod]
    rcases Nat.lt_or_ge (q + r) (m + 1) with hlt | hge
    · rw [Nat.div_eq_of_lt hlt, Nat.add_zero, Nat.mod_eq_of_lt hlt, Nat.mod_eq_of_lt (by omega)]
      omega
    · have hdiv : (q + r) / (m + 1) = 1 := Nat.div_eq_of_lt_le (by omega) (by omega)
      have hone : (q + r + 1) % (m + 1) = q + r - m := by
        rw [Nat.mod_eq_sub_mod (by omega), Nat.mod_eq_of_lt (by omega)]
        omega
      rw [hdiv, hone, Nat.mod_eq_sub_mod (by omega), Nat.mod_eq_of_lt (by omega)]
      omega

theorem mul_sub_one_mod (hm : 0 < m) (k : Nat) : (m * (k + 1) - 1) % m + 1 = m := by
  have hsub : m * (k + 1) - 1 = m - 1 + m * k := by
    rw [Nat.mul_succ]
    omega
  rw [hsub, Nat.add_mul_mod_self_left, Nat.mod_eq_of_lt (by omega)]
  omega

/-- The complement of the sum makes the sum the digit with all bits set. -/
theorem endAround_complement (hm : 0 < m) (hs : s + m < (m + 1) * (m + 1)) :
    endAround (m + 1) (s + (m - endAround (m + 1) s)) = m := by
  have hmultiple : ∃ k, s + (m - endAround (m + 1) s) = m * (k + 1) := by
    rw [endAround_eq (by omega)]
    split
    next hzero => exact ⟨0, by omega⟩
    next hzero =>
      have hlt : (s - 1) % m < m := Nat.mod_lt _ hm
      have hdiv : m * ((s - 1) / m) + (s - 1) % m = s - 1 := Nat.div_add_mod _ _
      refine ⟨(s - 1) / m, ?_⟩
      rw [Nat.mul_succ]
      omega
  have hbound : s + (m - endAround (m + 1) s) < (m + 1) * (m + 1) := by omega
  obtain ⟨k, hk⟩ := hmultiple
  have hpos : m * (k + 1) ≠ 0 := Nat.mul_ne_zero (by omega) (by omega)
  rw [hk] at hbound ⊢
  rw [endAround_eq hbound, if_neg hpos, mul_sub_one_mod hm]

end

end words
