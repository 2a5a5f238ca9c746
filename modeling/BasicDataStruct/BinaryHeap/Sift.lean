import Mathlib.Logic.Equiv.Basic
import Mathlib.Order.Lattice

namespace binary_heap

variable {i j : Nat}

/-- The place above the place `i` of a binary heap that is stored level by level. -/
def parent (i : Nat) : Nat := (i - 1) / 2

theorem parent_lt (hi : 0 < i) : parent i < i := by
  rw [parent]
  omega

theorem parent_eq_iff (hi : 0 < i) : parent i = j ↔ i = 2 * j + 1 ∨ i = 2 * j + 2 := by
  rw [parent]
  omega

section Order

variable {κ : Type} [LinearOrder κ] {n s hole child : Nat} {k : Nat → κ}

/-- The order of a heap with the keys `k` at the places below `n`, between the places from `s` on and those below
them. -/
def OrderedFrom (s n : Nat) (k : Nat → κ) : Prop := ∀ i, 0 < i → i < n → s ≤ parent i → k (parent i) ≤ k i

/-- The order of a whole heap. -/
def Ordered (n : Nat) (k : Nat → κ) : Prop := OrderedFrom 0 n k

/-- A heap in order has a smallest key at its root. -/
theorem Ordered.root_le (hk : Ordered n k) (hi : i < n) : k 0 ≤ k i := by
  induction i using Nat.strongRecOn with
  | ind i ih =>
    rcases Nat.eq_zero_or_pos i with rfl | hpos
    · exact le_refl _
    · have hlt := parent_lt hpos
      exact (ih (parent i) hlt (hlt.trans hi)).trans (hk i hpos hi (Nat.zero_le _))

/-- The order of a heap while the key at the place `hole` moves up: it may be smaller than the one above it. -/
structure Rising (n : Nat) (k : Nat → κ) (hole : Nat) : Prop where
  off : ∀ i, 0 < i → i < n → i ≠ hole → k (parent i) ≤ k i
  grand : ∀ i, 0 < i → i < n → parent i = hole → 0 < hole → k (parent hole) ≤ k i

/-- A key smaller than its parent changes places with it: the hole moves up. -/
theorem Rising.move (hk : Rising n k hole) (hpos : 0 < hole) (hlt : hole < n) (hless : k hole < k (parent hole)) :
    Rising n (k ∘ Equiv.swap hole (parent hole)) (parent hole) := by
  have hup := parent_lt hpos
  have hold : ∀ i, i ≠ hole → i ≠ parent hole → (k ∘ Equiv.swap hole (parent hole)) i = k i := by
    intro i hne hne'
    rw [Function.comp_apply, Equiv.swap_apply_of_ne_of_ne hne hne']
  have hdown : (k ∘ Equiv.swap hole (parent hole)) hole = k (parent hole) := by
    rw [Function.comp_apply, Equiv.swap_apply_left]
  have hraised : (k ∘ Equiv.swap hole (parent hole)) (parent hole) = k hole := by
    rw [Function.comp_apply, Equiv.swap_apply_right]
  constructor
  · intro i hi hin hne
    by_cases hhole : i = hole
    · subst hhole
      rw [hdown, hraised]
      exact hless.le
    · rw [hold i hhole hne]
      by_cases hchild : parent i = hole
      · rw [hchild, hdown]
        exact hk.grand i hi hin hchild hpos
      · by_cases hsibling : parent i = parent hole
        · rw [hsibling, hraised]
          exact hless.le.trans (hsibling ▸ hk.off i hi hin hhole)
        · rw [hold _ hchild hsibling]
          exact hk.off i hi hin hhole
  · intro i hi hin hparent hpos'
    have hup' := parent_lt hpos'
    have htop : k (parent (parent hole)) ≤ k (parent hole) := hk.off _ hpos' (hup.trans hlt) hup.ne
    rw [hold _ (hup'.trans hup).ne hup'.ne]
    by_cases hhole : i = hole
    · subst hhole
      rw [hdown]
      exact htop
    · have hne : i ≠ parent hole := fun heq => (parent_lt hi).ne (hparent.trans heq.symm)
      rw [hold i hhole hne]
      exact htop.trans (hparent ▸ hk.off i hi hin hhole)

theorem Rising.finish (hk : Rising n k hole) (hstop : 0 < hole → k (parent hole) ≤ k hole) : Ordered n k := by
  intro i hi hin _
  by_cases hhole : i = hole
  · subst hhole
    exact hstop hi
  · exact hk.off i hi hin hhole

/-- The order of a heap while the key at the place `hole` moves down: it may be larger than those below it. -/
structure Sinking (s n : Nat) (k : Nat → κ) (hole : Nat) : Prop where
  off : ∀ i, 0 < i → i < n → s ≤ parent i → parent i ≠ hole → k (parent i) ≤ k i
  grand : ∀ i, 0 < i → i < n → parent i = hole → 0 < hole → s ≤ parent hole → k (parent hole) ≤ k i

/-- A key larger than its least child changes places with it: the hole moves down. -/
theorem Sinking.move (hk : Sinking s n k hole) (hs : s ≤ hole) (hpos : 0 < child) (hchild : parent child = hole)
    (hlt : child < n) (hleast : ∀ i, 0 < i → i < n → parent i = hole → k child ≤ k i) (hless : k child < k hole) :
    Sinking s n (k ∘ Equiv.swap hole child) child := by
  have hup : hole < child := hchild ▸ parent_lt hpos
  have hold : ∀ i, i ≠ hole → i ≠ child → (k ∘ Equiv.swap hole child) i = k i := by
    intro i hne hne'
    rw [Function.comp_apply, Equiv.swap_apply_of_ne_of_ne hne hne']
  have hraised : (k ∘ Equiv.swap hole child) hole = k child := by
    rw [Function.comp_apply, Equiv.swap_apply_left]
  have hsunk : (k ∘ Equiv.swap hole child) child = k hole := by
    rw [Function.comp_apply, Equiv.swap_apply_right]
  constructor
  · intro i hi hin hsi hne
    by_cases hic : i = child
    · subst hic
      rw [hchild, hraised, hsunk]
      exact hless.le
    · by_cases hhole : i = hole
      · subst hhole
        rw [hraised, hold _ (parent_lt hi).ne hne]
        exact hk.grand child hpos hlt hchild hi hsi
      · rw [hold i hhole hic]
        by_cases hsibling : parent i = hole
        · rw [hsibling, hraised]
          exact hleast i hi hin hsibling
        · rw [hold _ hsibling hne]
          exact hk.off i hi hin hsi hsibling
  · intro i hi hin hparent _ _
    have hup' : child < i := hparent ▸ parent_lt hi
    rw [hchild, hraised, hold i (hup.trans hup').ne' hup'.ne']
    exact hparent ▸ hk.off i hi hin (hparent ▸ hs.trans hup.le) (hparent ▸ hup.ne')

theorem Sinking.finish (hk : Sinking s n k hole) (hstop : ∀ i, 0 < i → i < n → parent i = hole → k hole ≤ k i) :
    OrderedFrom s n k := by
  intro i hi hin hsi
  by_cases hhole : parent i = hole
  · rw [hhole]
    exact hstop i hi hin hhole
  · exact hk.off i hi hin hsi hhole

/-- A heap that is in order from below a place is in order from that place on, apart from the key there. -/
theorem OrderedFrom.sinking (hk : OrderedFrom (hole + 1) n k) : Sinking hole n k hole where
  off i hi hin hsi hne := hk i hi hin (Nat.lt_of_le_of_ne hsi (Ne.symm hne))
  grand _ _ _ _ hpos hs := absurd (parent_lt hpos) (Nat.not_lt.mpr hs)

/-- Below the last parent there is nothing to be in order. -/
theorem orderedFrom_last (n : Nat) (k : Nat → κ) : OrderedFrom ((n - 1) / 2 + 1) n k := by
  intro i hi hin hs
  rw [parent] at hs
  omega

/-- A new key at the end of a heap. -/
theorem Ordered.rising {k' : Nat → κ} (hk : Ordered n k) (hsame : ∀ i < n, k' i = k i) : Rising (n + 1) k' n where
  off i hi hin hne := by
    have hlt : i < n := by omega
    rw [hsame i hlt, hsame _ ((parent_lt hi).trans hlt)]
    exact hk i hi hlt (Nat.zero_le _)
  grand i hi hin hparent _ := by
    have hlt := parent_lt hi
    omega

/-- Another key at the root of a heap that has lost its last one. -/
theorem Ordered.sinking {k' : Nat → κ} (hk : Ordered (n + 1) k) (hsame : ∀ i < n, 0 < i → k' i = k i) :
    Sinking 0 n k' 0 where
  off i hi hin _ hne := by
    rw [hsame i hin hi, hsame _ ((parent_lt hi).trans hin) (Nat.pos_of_ne_zero hne)]
    exact hk i hi (by omega) (Nat.zero_le _)
  grand _ _ _ _ hpos _ := absurd hpos (Nat.lt_irrefl 0)

end Order

section Rearranged

variable {α : Type} {n : Nat} {a b c : Nat → α}

/-- The places below `n` hold the same things in another order. -/
def Rearranged (n : Nat) (a b : Nat → α) : Prop := ∃ σ : Equiv.Perm Nat, (∀ i, σ i < n ↔ i < n) ∧ b = a ∘ σ

theorem Rearranged.refl (n : Nat) (a : Nat → α) : Rearranged n a a := ⟨Equiv.refl Nat, fun _ => Iff.rfl, rfl⟩

theorem Rearranged.trans (hab : Rearranged n a b) (hbc : Rearranged n b c) : Rearranged n a c := by
  obtain ⟨σ, hσ, rfl⟩ := hab
  obtain ⟨τ, hτ, rfl⟩ := hbc
  exact ⟨τ.trans σ, fun i => (hσ (τ i)).trans (hτ i), rfl⟩

theorem rearranged_swap (hi : i < n) (hj : j < n) (a : Nat → α) : Rearranged n a (a ∘ Equiv.swap i j) := by
  refine ⟨Equiv.swap i j, fun x => ?_, rfl⟩
  by_cases hxi : x = i
  · subst hxi
    rw [Equiv.swap_apply_left]
    exact iff_of_true hj hi
  · by_cases hxj : x = j
    · subst hxj
      rw [Equiv.swap_apply_right]
      exact iff_of_true hi hj
    · rw [Equiv.swap_apply_of_ne_of_ne hxi hxj]

theorem Rearranged.exists_iff (hab : Rearranged n a b) (P : α → Prop) : (∃ i < n, P (b i)) ↔ ∃ i < n, P (a i) := by
  obtain ⟨σ, hσ, rfl⟩ := hab
  constructor
  · rintro ⟨i, hi, hP⟩
    exact ⟨σ i, (hσ i).mpr hi, hP⟩
  · rintro ⟨i, hi, hP⟩
    refine ⟨σ.symm i, (hσ _).mp ?_, ?_⟩
    · rwa [Equiv.apply_symm_apply]
    · rwa [Function.comp_apply, Equiv.apply_symm_apply]

theorem Rearranged.forall_of (hab : Rearranged n a b) (P : α → Prop) (ha : ∀ i < n, P (a i)) (i : Nat) (hi : i < n) :
    P (b i) := by
  obtain ⟨σ, hσ, rfl⟩ := hab
  exact ha (σ i) ((hσ i).mpr hi)

/-- Different places hold different things. -/
def Distinct (n : Nat) (a : Nat → α) : Prop := ∀ i < n, ∀ j < n, a i = a j → i = j

theorem Rearranged.distinct (hab : Rearranged n a b) (ha : Distinct n a) : Distinct n b := by
  obtain ⟨σ, hσ, rfl⟩ := hab
  exact fun i hi j hj heq => σ.injective (ha _ ((hσ i).mpr hi) _ ((hσ j).mpr hj) heq)

theorem Distinct.concat {x : α} (ha : Distinct n a) (hx : ∀ i < n, a i ≠ x) :
    Distinct (n + 1) (Function.update a n x) := by
  intro i hi j hj heq
  by_cases hin : i = n
  · by_cases hjn : j = n
    · rw [hin, hjn]
    · rw [hin, Function.update_self, Function.update_of_ne hjn] at heq
      exact absurd heq.symm (hx j (by omega))
  · by_cases hjn : j = n
    · rw [hjn, Function.update_self, Function.update_of_ne hin] at heq
      exact absurd heq (hx i (by omega))
    · rw [Function.update_of_ne hin, Function.update_of_ne hjn] at heq
      exact ha i (by omega) j (by omega) heq

/-- What is below the last place is what is not there. -/
theorem Distinct.exists_init_iff {x : α} (ha : Distinct (n + 1) a) :
    (∃ i < n, a i = x) ↔ x ≠ a n ∧ ∃ i < n + 1, a i = x := by
  constructor
  · rintro ⟨i, hi, rfl⟩
    exact ⟨fun heq => hi.ne (ha i (by omega) n (by omega) heq), i, by omega, rfl⟩
  · rintro ⟨hne, i, hi, rfl⟩
    have hin : i ≠ n := fun heq => hne (by rw [heq])
    exact ⟨i, by omega, rfl⟩

theorem Distinct.init (ha : Distinct (n + 1) a) : Distinct n a :=
  fun i hi j hj => ha i (by omega) j (by omega)

theorem exists_concat_iff {x y : α} : (∃ i < n + 1, Function.update a n x i = y) ↔ y = x ∨ ∃ i < n, a i = y := by
  constructor
  · rintro ⟨i, hi, rfl⟩
    by_cases hin : i = n
    · exact .inl (by rw [hin, Function.update_self])
    · exact .inr ⟨i, by omega, by rw [Function.update_of_ne hin]⟩
  · rintro (rfl | ⟨i, hi, rfl⟩)
    · exact ⟨n, Nat.lt_succ_self n, Function.update_self _ _ _⟩
    · exact ⟨i, by omega, Function.update_of_ne hi.ne _ _⟩

end Rearranged

end binary_heap
