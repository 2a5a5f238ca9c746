import Mathlib.Algebra.BigOperators.Fin

namespace ranges

variable {ι κ : Type} {start len : ι → Nat} {s : Set Nat}

variable {gone : ι → Nat} {n : Nat}

/-- The ranges of `len i` numbers from `start i` on cover a set, and each number once. -/
structure Partitions (start len : ι → Nat) (s : Set Nat) : Prop where
  covered (b : Nat) : b ∈ s ↔ ∃ i, b ∈ Set.Ico (start i) (start i + len i)
  once {b : Nat} {i j : ι} : b ∈ Set.Ico (start i) (start i + len i) → b ∈ Set.Ico (start j) (start j + len j) → i = j

/-- The numbers that are gone when the first `gone i` numbers of each range are. -/
def front (start gone : ι → Nat) : Set Nat := ⋃ i, Set.Ico (start i) (start i + gone i)

theorem mem_front {b : Nat} : b ∈ front start gone ↔ ∃ i, b ∈ Set.Ico (start i) (start i + gone i) :=
  Set.mem_iUnion

/-- The ranges that are left cover what is left of the set. -/
theorem Partitions.advance (h : Partitions start len s) (hle : ∀ i, gone i ≤ len i) :
    Partitions (fun i => start i + gone i) (fun i => len i - gone i) (s \ front start gone) := by
  have hpart : ∀ i b, b ∈ Set.Ico (start i + gone i) (start i + gone i + (len i - gone i)) ↔
      b ∈ Set.Ico (start i) (start i + len i) ∧ b ∉ Set.Ico (start i) (start i + gone i) := by
    intro i b
    have hi := hle i
    simp only [Set.mem_Ico]
    omega
  refine ⟨fun b => ?_, fun {b i j} hi hj => h.once ((hpart i b).mp hi).1 ((hpart j b).mp hj).1⟩
  rw [Set.mem_sdiff, h.covered, mem_front]
  constructor
  · rintro ⟨⟨i, hi⟩, hgone⟩
    exact ⟨i, (hpart i b).mpr ⟨hi, fun hfront => hgone ⟨i, hfront⟩⟩⟩
  · rintro ⟨i, hi⟩
    obtain ⟨hmem, hleft⟩ := (hpart i b).mp hi
    refine ⟨⟨i, hmem⟩, ?_⟩
    rintro ⟨j, hj⟩
    -- a number that is gone from another range would lie in both
    obtain rfl : i = j := h.once hmem (Set.Ico_subset_Ico_right (Nat.add_le_add_left (hle j) _) hj)
    exact hleft hj

/-- The same ranges in another numbering. -/
theorem Partitions.reindex (h : Partitions start len s) (e : κ ≃ ι) :
    Partitions (fun k => start (e k)) (fun k => len (e k)) s where
  covered b := by
    rw [h.covered b]
    exact (e.surjective.exists (p := fun i => b ∈ Set.Ico (start i) (start i + len i)))
  once hi hj := e.injective (h.once hi hj)

/-- Blocks of one size, where the last takes what is left over. -/
def blockLen (size extra : Nat) {n : Nat} (i : Fin n) : Nat := if i.val + 1 = n then size + extra else size

theorem sum_blockLen (size extra : Nat) (hn : 0 < n) : ∑ i : Fin n, blockLen size extra i = size * n + extra := by
  obtain ⟨m, rfl⟩ := Nat.exists_eq_succ_of_ne_zero (Nat.ne_of_gt hn)
  have hfront : ∀ i : Fin m, blockLen size extra i.castSucc = size := fun i =>
    if_neg fun heq => Nat.ne_of_lt i.isLt (Nat.succ.inj heq)
  have hlast : blockLen size extra (Fin.last m) = size + extra := if_pos rfl
  rw [Fin.sum_univ_castSucc]
  simp only [hfront, hlast, Finset.sum_const, Finset.card_univ, Fintype.card_fin, smul_eq_mul]
  rw [Nat.mul_comm m size, Nat.mul_succ, Nat.add_assoc]

/-- A block before another ends before it. -/
theorem block_end_le (size extra : Nat) {i j : Fin n} (hlt : i < j) :
    size * i + blockLen size extra i ≤ size * j := by
  have hne : i.val + 1 ≠ n := by omega
  have hsucc : size * (i.val + 1) ≤ size * j.val := Nat.mul_le_mul_left size hlt
  rwa [blockLen, if_neg hne, ← Nat.mul_succ]

/-- No block goes past the end. -/
theorem block_end_le_total (size extra : Nat) (i : Fin n) : size * i + blockLen size extra i ≤ size * n + extra := by
  have hsucc : size * (i.val + 1) ≤ size * n := Nat.mul_le_mul_left size i.isLt
  rw [Nat.mul_succ] at hsucc
  rw [blockLen]
  split <;> omega

/-- Such blocks cover an initial segment. -/
theorem partitions_blocks (size extra : Nat) (hn : 0 < n) :
    Partitions (fun i : Fin n => size * i) (blockLen size extra) {b | b < size * n + extra} where
  covered b := by
    obtain ⟨m, rfl⟩ := Nat.exists_eq_succ_of_ne_zero (Nat.ne_of_gt hn)
    constructor
    · intro hb
      by_cases hfront : b < size * m
      · have hpos : 0 < size := Nat.pos_of_mul_pos_right (Nat.zero_lt_of_lt hfront)
        have hlt : b / size < m := (Nat.div_lt_iff_lt_mul hpos).mpr (by rwa [Nat.mul_comm])
        refine ⟨⟨b / size, Nat.lt_succ_of_lt hlt⟩, Nat.mul_div_le b size, ?_⟩
        rw [blockLen, if_neg fun heq => Nat.ne_of_lt hlt (Nat.succ.inj heq), ← Nat.mul_succ]
        exact Nat.lt_mul_div_succ b hpos
      · refine ⟨Fin.last m, Nat.le_of_not_lt hfront, ?_⟩
        have hlast : blockLen size extra (Fin.last m) = size + extra := if_pos rfl
        rw [hlast, ← Nat.add_assoc, Fin.val_last, ← Nat.mul_succ]
        exact hb
    · rintro ⟨i, -, hb⟩
      exact Nat.lt_of_lt_of_le hb (block_end_le_total size extra i)
  once {b i j} hi hj := by
    rcases lt_trichotomy i j with hlt | heq | hgt
    · exact absurd (Nat.lt_of_lt_of_le hi.2 (block_end_le size extra hlt)) (Nat.not_lt.mpr hj.1)
    · exact heq
    · exact absurd (Nat.lt_of_lt_of_le hj.2 (block_end_le size extra hgt)) (Nat.not_lt.mpr hi.1)

end ranges
