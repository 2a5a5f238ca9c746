import Mathlib.Logic.Function.Iterate
import Mathlib.Data.Nat.Find

namespace orbit

variable {α : Type}

/-- The orbit of `x` under `f` enters a cycle of length `k` at the index `i`: the
first value that comes back is the one at `i`, and it comes back at `i + k`. -/
structure Rho (f : α → α) (x : α) (i k : Nat) : Prop where
  pos : 0 < k
  closes : f^[i + k] x = f^[i] x
  distinct : ∀ a b, a < b → b < i + k → f^[a] x ≠ f^[b] x

variable {f : α → α} {x : α} {i k : Nat}

/-- A value that comes back comes back again after every further period. -/
theorem iterate_add_mul (hclose : f^[i + k] x = f^[i] x) {m : Nat} (hm : i ≤ m) (n : Nat) :
    f^[m + n * k] x = f^[m] x := by
  have hshift : ∀ l, f^[i + l + k] x = f^[i + l] x := by
    intro l
    induction l with
    | zero => exact hclose
    | succ l ih =>
      have hnext : i + (l + 1) + k = i + l + k + 1 := by omega
      rw [hnext, Function.iterate_succ_apply', ih, ← Function.iterate_succ_apply' f,
        Nat.succ_eq_add_one, Nat.add_assoc]
  induction n with
  | zero => rw [Nat.zero_mul, Nat.add_zero]
  | succ n ih =>
    have hsplit : m + (n + 1) * k = i + (m - i + n * k) + k := by
      rw [Nat.succ_mul]
      omega
    have hback : i + (m - i + n * k) = m + n * k := by omega
    rw [hsplit, hshift, hback, ih]

/-- Two walkers, one twice as fast as the other, meet on the cycle. -/
theorem exists_meet (hk : 0 < k) (hclose : f^[i + k] x = f^[i] x) :
    ∃ m, 0 < m ∧ f^[2 * m] x = f^[m] x := by
  refine ⟨(i + 1) * k, Nat.mul_pos (Nat.succ_pos i) hk, ?_⟩
  have hle : i ≤ (i + 1) * k := Nat.le_trans (Nat.le_succ i) (Nat.le_mul_of_pos_right _ hk)
  have hmeet := iterate_add_mul hclose hle (i + 1)
  rwa [← Nat.two_mul] at hmeet

/-- An orbit with a repeated value has a first value that comes back. -/
theorem exists_rho (hk : 0 < k) (hclose : f^[i + k] x = f^[i] x) : ∃ i k, Rho f x i k := by
  have hrep : ∃ b, ∃ a, a < b ∧ f^[a] x = f^[b] x := ⟨i + k, i, by omega, hclose.symm⟩
  classical
  obtain ⟨a, hab, heq⟩ := Nat.find_spec hrep
  have hback : a + (Nat.find hrep - a) = Nat.find hrep := by omega
  refine ⟨a, Nat.find hrep - a, by omega, ?_, fun c d hcd hd hsame => ?_⟩
  · rw [hback, heq]
  · rw [hback] at hd
    exact Nat.find_min hrep hd ⟨c, hcd, hsame⟩

/-- Where an orbit closes for the first time is determined by the orbit. -/
theorem Rho.end_le {i' k' : Nat} (hr : Rho f x i k) (hr' : Rho f x i' k') : i + k ≤ i' + k' := by
  by_contra hlt
  have hpos := hr'.pos
  exact hr.distinct i' (i' + k') (by omega) (by omega) hr'.closes.symm

theorem Rho.length_le {i' k' : Nat} (hr : Rho f x i k) (hr' : Rho f x i' k') : k ≤ k' := by
  have hend := Nat.le_antisymm (hr.end_le hr') (hr'.end_le hr)
  have hpos' := hr'.pos
  by_contra hlt
  have hsame : f^[i] x = f^[i'] x := by rw [← hr.closes, hend, hr'.closes]
  exact hr.distinct i i' (by omega) (by omega) hsame

/-- From the entry of the cycle on the value at `n` occurs first at the index
below `i + k` that is congruent to `n`. -/
theorem Rho.first_occurrence (hr : Rho f x i k) {n : Nat} (hn : i ≤ n) :
    f^[i + (n - i) % k] x = f^[n] x ∧ ∀ j, j < i + (n - i) % k → f^[j] x ≠ f^[n] x := by
  have hmod := Nat.mod_lt (n - i) hr.pos
  have heq : f^[i + (n - i) % k] x = f^[n] x := by
    have hdiv := Nat.mod_add_div (n - i) k
    have hsplit : i + (n - i) % k + (n - i) / k * k = n := by
      rw [Nat.mul_comm] at hdiv
      omega
    have hback := iterate_add_mul hr.closes (Nat.le_add_right i ((n - i) % k)) ((n - i) / k)
    rw [hsplit] at hback
    exact hback.symm
  refine ⟨heq, fun j hj hsame => ?_⟩
  rw [← heq] at hsame
  exact hr.distinct j _ hj (by omega) hsame

end orbit
