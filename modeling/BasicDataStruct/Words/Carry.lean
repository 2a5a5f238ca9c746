import Mathlib.Data.Nat.Digits.Defs

namespace words

variable (B : Nat)

/-- Add `c` to a number in base `B`, of which the lowest digit comes first. The carry out of
the highest digit is lost. -/
def addDigits : List Nat → Nat → List Nat
  | [], _ => []
  | d :: ds, c => (d + c) % B :: addDigits ds ((d + c) / B)

variable {B}

@[simp] theorem length_addDigits (ds : List Nat) (c : Nat) : (addDigits B ds c).length = ds.length := by
  induction ds generalizing c with
  | nil => rfl
  | cons d ds ih => rw [addDigits, List.length_cons, List.length_cons, ih]

/-- The addition is one modulo the first power of the base that the digits do not reach. -/
theorem ofDigits_addDigits (hB : 0 < B) (ds : List Nat) (c : Nat) :
    Nat.ofDigits B (addDigits B ds c) = (Nat.ofDigits B ds + c) % B ^ ds.length := by
  induction ds generalizing c with
  | nil => rw [addDigits, List.length_nil, pow_zero, Nat.mod_one, Nat.ofDigits_nil]
  | cons d ds ih =>
    have hsum : d + B * Nat.ofDigits B ds + c = (d + c) + B * Nat.ofDigits B ds := by omega
    have hdiv : (d + c + B * Nat.ofDigits B ds) / B = Nat.ofDigits B ds + (d + c) / B := by
      rw [Nat.add_mul_div_left _ _ hB, Nat.add_comm]
    rw [addDigits, Nat.ofDigits_cons, ih, Nat.ofDigits_cons, hsum, List.length_cons, pow_succ', Nat.mod_mul,
      Nat.add_mul_mod_self_left, hdiv]

/-- Nothing is added. -/
theorem addDigits_zero {ds : List Nat} (hds : ∀ d ∈ ds, d < B) : addDigits B ds 0 = ds := by
  induction ds with
  | nil => rfl
  | cons d ds ih =>
    obtain ⟨hd, hds⟩ := List.forall_mem_cons.mp hds
    rw [addDigits, Nat.add_zero, Nat.mod_eq_of_lt hd, Nat.div_eq_of_lt hd, ih hds]

end words
