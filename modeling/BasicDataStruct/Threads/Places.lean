import Mathlib.Algebra.BigOperators.Group.Finset.Piecewise
import Mathlib.Algebra.Order.BigOperators.Group.Finset

namespace threads

variable {τ π : Type} {place : τ → π} {t : τ} {x : π}

/-- When one thread moves, the others stay where they are. -/
theorem forall_update [DecidableEq τ] {P : τ → π → Prop} (ht : P t x) (hother : ∀ u, P u (place u)) (u : τ) :
    P u (Function.update place t x u) := by
  by_cases hut : u = t
  · subst hut
    rwa [Function.update_self]
  · rw [Function.update_of_ne hut]
    exact hother u

/-- A thread stands inside the critical section exactly when it holds the lock. -/
def Exclusive (inside : π → Prop) (place : τ → π) (lock : Option τ) : Prop := ∀ t, inside (place t) ↔ lock = some t

namespace Exclusive

variable {inside : π → Prop} {lock : Option τ}

theorem eq_of_inside {u : τ} (h : Exclusive inside place lock) (ht : inside (place t)) (hu : inside (place u)) :
    t = u :=
  Option.some.inj (((h t).mp ht).symm.trans ((h u).mp hu))

/-- A thread moves and stays inside, or stays outside. -/
theorem move [DecidableEq τ] (h : Exclusive inside place lock) (hx : inside x ↔ inside (place t)) :
    Exclusive inside (Function.update place t x) lock := by
  intro u
  by_cases hut : u = t
  · subst hut
    rw [Function.update_self, hx, h]
  · rw [Function.update_of_ne hut, h]

theorem acquire [DecidableEq τ] (h : Exclusive inside place none) (hx : inside x) :
    Exclusive inside (Function.update place t x) (some t) := by
  intro u
  by_cases hut : u = t
  · subst hut
    rw [Function.update_self]
    exact iff_of_true hx rfl
  · rw [Function.update_of_ne hut, h]
    exact iff_of_false (Option.some_ne_none u).symm fun heq => hut (Option.some.inj heq).symm

theorem release [DecidableEq τ] (h : Exclusive inside place lock) (ht : inside (place t)) (hx : ¬ inside x) :
    Exclusive inside (Function.update place t x) none := by
  intro u
  by_cases hut : u = t
  · subst hut
    rw [Function.update_self]
    exact iff_of_false hx (Option.some_ne_none u).symm
  · rw [Function.update_of_ne hut]
    exact iff_of_false (fun hu => hut (h.eq_of_inside hu ht)) (Option.some_ne_none u).symm

end Exclusive

/-- A thread moves and comes to hold nothing that another one holds: no two threads hold
the same. -/
theorem owner_update [DecidableEq τ] {ρ : Type} {held : π → Option ρ}
    (hown : ∀ u v r, held (place u) = some r → held (place v) = some r → u = v)
    (hx : ∀ u, u ≠ t → ∀ r, held (place u) = some r → held x ≠ some r) (u v : τ) (r : ρ)
    (hu : held (Function.update place t x u) = some r) (hv : held (Function.update place t x v) = some r) : u = v := by
  by_cases hut : u = t
  · by_cases hvt : v = t
    · rw [hut, hvt]
    · rw [hut, Function.update_self] at hu
      rw [Function.update_of_ne hvt] at hv
      exact absurd hu (hx v hvt r hv)
  · rw [Function.update_of_ne hut] at hu
    by_cases hvt : v = t
    · rw [hvt, Function.update_self] at hv
      exact absurd hv (hx u hut r hu)
    · rw [Function.update_of_ne hvt] at hv
      exact hown u v r hu hv

section Total

variable [Fintype τ] (weight : π → Nat)

/-- The weights of the places of all threads. -/
def total (place : τ → π) : Nat := ∑ t, weight (place t)

/-- A move of one thread changes the total by the weights of its two places. -/
theorem total_update [DecidableEq τ] (place : τ → π) (t : τ) (x : π) :
    total weight (Function.update place t x) + weight (place t) = total weight place + weight x := by
  have hnew : (fun u => weight (Function.update place t x u)) =
      Function.update (fun u => weight (place u)) t (weight x) := Function.comp_update weight place t x
  rw [total, hnew, Finset.sum_update_of_mem (Finset.mem_univ t), total,
    Finset.sum_eq_sum_sdiff_singleton_add (Finset.mem_univ t)]
  omega

theorem weight_le_total (place : τ → π) (t : τ) : weight (place t) ≤ total weight place :=
  Finset.single_le_sum (f := fun u => weight (place u)) (fun _ _ => Nat.zero_le _) (Finset.mem_univ t)

end Total

section Holding

variable {ρ : Type} [DecidableEq ρ] [Fintype τ] (held : π → Option ρ) (r : ρ)

/-- Whether a place holds the resource. -/
def holds (x : π) : Nat := if held x = some r then 1 else 0

/-- The number of threads that hold the resource. -/
def holding (place : τ → π) : Nat := total (holds held r) place

variable {held r}

theorem holding_pos (h : held (place t) = some r) : 0 < holding held r place := by
  refine Nat.lt_of_lt_of_le ?_ (weight_le_total (holds held r) place t)
  rw [holds, if_pos h]
  exact Nat.one_pos

theorem exists_of_holding_ne_zero (h : holding held r place ≠ 0) : ∃ t, held (place t) = some r := by
  by_contra hnone
  refine h (Finset.sum_eq_zero fun t _ => if_neg fun ht => hnone ⟨t, ht⟩)

/-- Where at most one thread holds the resource, two that hold it are the same. -/
theorem eq_of_holding_le_one [DecidableEq τ] {u : τ} (hone : holding held r place ≤ 1) (ht : held (place t) = some r)
    (hu : held (place u) = some r) : t = u := by
  by_contra hne
  have hsum : holds held r (place t) + holds held r (place u) ≤ holding held r place := by
    rw [← Finset.sum_pair (f := fun v => holds held r (place v)) hne]
    exact Finset.sum_le_sum_of_subset (Finset.subset_univ _)
  rw [holds, holds, if_pos ht, if_pos hu] at hsum
  omega

end Holding

end threads
