import Mathlib.Order.Lattice

namespace selection

variable {ι β : Type} [LinearOrder ι] [LinearOrder β] (f : ι → β)

/-- The candidate that a scan of `l` keeps: it starts with `a` and changes only to a
strictly smaller value. -/
def firstLeast (a : ι) (l : List ι) : ι := l.foldl (fun k i => if f i < f k then i else k) a

/-- What the scan keeps is the first one of the least value. -/
structure FirstLeast (k : ι) (l : List ι) : Prop where
  mem : k ∈ l
  least : ∀ j ∈ l, f k ≤ f j
  first : ∀ j ∈ l, f j ≤ f k → k ≤ j

variable {f}

/-- A candidate in front of the others replaces the first of them, or not. -/
theorem FirstLeast.cons {k a i : ι} {l : List ι} (h : FirstLeast f k ((if f i < f a then i else a) :: l))
    (hai : a ≤ i) : FirstLeast f k (a :: i :: l) := by
  by_cases hlt : f i < f a
  · rw [if_pos hlt] at h
    have hka : f k < f a := lt_of_le_of_lt (h.least i List.mem_cons_self) hlt
    refine ⟨List.mem_cons_of_mem a h.mem, ?_, ?_⟩
    · exact List.forall_mem_cons.mpr ⟨hka.le, h.least⟩
    · exact List.forall_mem_cons.mpr ⟨fun hle => absurd hka (not_lt.mpr hle), h.first⟩
  · rw [if_neg hlt] at h
    have hia : f a ≤ f i := not_lt.mp hlt
    obtain ⟨hleast, hrest⟩ := List.forall_mem_cons.mp h.least
    obtain ⟨hfirst, hfirstRest⟩ := List.forall_mem_cons.mp h.first
    refine ⟨?_, ?_, ?_⟩
    · rcases List.mem_cons.mp h.mem with rfl | hmem
      · exact List.mem_cons_self
      · exact List.mem_cons_of_mem _ (List.mem_cons_of_mem _ hmem)
    · exact List.forall_mem_cons.mpr ⟨hleast, List.forall_mem_cons.mpr ⟨hleast.trans hia, hrest⟩⟩
    · refine List.forall_mem_cons.mpr ⟨hfirst, List.forall_mem_cons.mpr ⟨fun hle => ?_, hfirstRest⟩⟩
      exact (hfirst (hia.trans hle)).trans hai

/-- A scan in increasing order finds the first one of the least value. -/
theorem firstLeast_spec {a : ι} {l : List ι} (hle : ∀ i ∈ l, a ≤ i) (hsorted : l.Pairwise (· ≤ ·)) :
    FirstLeast f (firstLeast f a l) (a :: l) := by
  induction l generalizing a with
  | nil =>
    refine ⟨List.mem_singleton_self a, fun j hj => ?_, fun j hj _ => ?_⟩
    · rw [List.mem_singleton.mp hj]
      exact le_refl _
    · rw [List.mem_singleton.mp hj]
      exact le_refl _
  | cons i l ih =>
    obtain ⟨hil, hsorted⟩ := List.pairwise_cons.mp hsorted
    obtain ⟨hai, hal⟩ := List.forall_mem_cons.mp hle
    have hnext : ∀ j ∈ l, (if f i < f a then i else a) ≤ j := by
      intro j hj
      split
      · exact hil j hj
      · exact hal j hj
    exact FirstLeast.cons (ih hnext hsorted) hai

end selection
