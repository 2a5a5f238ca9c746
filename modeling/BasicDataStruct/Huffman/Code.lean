import Mathlib.Data.Finset.Max
import Mathlib.Tactic.FieldSimp
import Mathlib.Tactic.Linarith
import Mathlib.Tactic.Positivity
import Mathlib.Tactic.Ring

namespace huffman

variable {P : Code} {a b : Nat} {M : Multiset Nat}

/-- A code: the weights of the symbols, each with the length of its code word. -/
abbrev Code := Multiset (Nat × Nat)

namespace Code

/-- The total length of the words, weighted. -/
def cost (P : Code) : Nat := (P.map fun p => p.1 * p.2).sum

/-- The sum that is at most 1 for the word lengths of a prefix code. -/
def kraft (P : Code) : ℚ := (P.map fun p => (1 / 2 : ℚ) ^ p.2).sum

@[simp] theorem cost_cons (p : Nat × Nat) (P : Code) : cost (p ::ₘ P) = p.1 * p.2 + cost P := by
  simp [cost]

@[simp] theorem kraft_zero : kraft 0 = 0 := rfl

@[simp] theorem kraft_cons (p : Nat × Nat) (P : Code) : kraft (p ::ₘ P) = (1 / 2 : ℚ) ^ p.2 + kraft P := by
  simp [kraft]

theorem cost_add (P Q : Code) : cost (P + Q) = cost P + cost Q := by
  simp [cost]

theorem kraft_add (P Q : Code) : kraft (P + Q) = kraft P + kraft Q := by
  simp [kraft]

theorem kraft_nonneg (P : Code) : 0 ≤ kraft P := by
  induction P using Multiset.induction_on with
  | empty => exact le_refl _
  | cons p P ih =>
    rw [kraft_cons]
    positivity

/-- The sum depends on the word lengths only. -/
theorem kraft_congr {Q : Code} (h : P.map Prod.snd = Q.map Prod.snd) : kraft P = kraft Q := by
  have hlen : ∀ R : Code, kraft R = ((R.map Prod.snd).map fun d => (1 / 2 : ℚ) ^ d).sum := by
    intro R
    rw [Multiset.map_map]
    rfl
  rw [hlen, hlen, h]

/-- Words of length at most `N` make the sum a multiple of `1 / 2 ^ N`. -/
theorem exists_kraft_eq {N : Nat} (hP : ∀ p ∈ P, p.2 ≤ N) : ∃ s : Nat, kraft P = s / 2 ^ N := by
  induction P using Multiset.induction_on with
  | empty => exact ⟨0, by simp⟩
  | cons p P ih =>
    obtain ⟨s, hs⟩ := ih fun q hq => hP q (Multiset.mem_cons_of_mem hq)
    have hp : p.2 ≤ N := hP p (Multiset.mem_cons_self _ _)
    refine ⟨2 ^ (N - p.2) + s, ?_⟩
    have hpow : (2 : ℚ) ^ N = 2 ^ (N - p.2) * 2 ^ p.2 := by
      rw [← pow_add]
      congr 1
      omega
    rw [kraft_cons, hs, Nat.cast_add, Nat.cast_pow, Nat.cast_ofNat, add_div, one_div, inv_pow, hpow]
    congr 1
    field_simp

/-- The lightest symbol can take over a longest word: exchanging its word with a
longer one does not make the code more expensive. -/
theorem exists_lightest_longest (a d : Nat) (Q : Code) (ha : ∀ q ∈ Q, a ≤ q.1) :
    ∃ D Q', Q'.map Prod.fst = Q.map Prod.fst ∧
      ((a, D) ::ₘ Q').map Prod.snd = ((a, d) ::ₘ Q).map Prod.snd ∧ (∀ q ∈ Q', q.2 ≤ D) ∧
      cost ((a, D) ::ₘ Q') ≤ cost ((a, d) ::ₘ Q) := by
  by_cases hlong : ∀ q ∈ Q, q.2 ≤ d
  · exact ⟨d, Q, rfl, rfl, hlong, le_refl _⟩
  · have hne : Q ≠ 0 := by
      rintro rfl
      simp at hlong
    obtain ⟨⟨x, e⟩, hxe, hmax⟩ := Multiset.exists_max_image Prod.snd hne
    obtain ⟨R, rfl⟩ := Multiset.exists_cons_of_mem hxe
    have hde : d < e := by
      by_contra hle
      exact hlong fun q hq => (hmax q hq).trans (by simpa using hle)
    refine ⟨e, (x, d) ::ₘ R, by simp, by simp [Multiset.cons_swap], ?_, ?_⟩
    · intro q hq
      rcases Multiset.mem_cons.mp hq with rfl | hq
      · exact hde.le
      · exact hmax q (Multiset.mem_cons_of_mem hq)
    · have hax : a ≤ x := ha (x, e) hxe
      simp only [cost_cons]
      nlinarith [Nat.mul_le_mul hax hde.le]

/-- A word can be cut to the length of a longest one among the others: the sum of
the others is a multiple of what that takes. -/
theorem kraft_level {d e : Nat} {R : Code} (hR : ∀ q ∈ R, q.2 ≤ e)
    (hkraft : kraft ((a, d) ::ₘ (b, e) ::ₘ R) ≤ 1) : kraft ((a, e) ::ₘ (b, e) ::ₘ R) ≤ 1 := by
  have hbound : ∀ q ∈ (b, e) ::ₘ R, q.2 ≤ e := by
    intro q hq
    rcases Multiset.mem_cons.mp hq with rfl | hq
    · exact le_refl _
    · exact hR q hq
  obtain ⟨s, hs⟩ := exists_kraft_eq hbound
  rw [kraft_cons, hs] at hkraft ⊢
  have hpos : (0 : ℚ) < (1 / 2) ^ d := by positivity
  have hpow : (0 : ℚ) < 2 ^ e := by positivity
  have hlt : (s : ℚ) < 2 ^ e := by
    have hdiv : (s : ℚ) / 2 ^ e < 1 := by linarith
    rwa [div_lt_one hpow] at hdiv
  have hsucc : (s : ℚ) + 1 ≤ 2 ^ e := by exact_mod_cast hlt
  have hunit : (1 / 2 : ℚ) ^ e = 1 / 2 ^ e := by rw [div_pow, one_pow]
  rw [hunit, ← add_div, div_le_one hpow]
  linarith

theorem exists_eq_cons (hP : P.map Prod.fst = a ::ₘ M) : ∃ d Q, P = (a, d) ::ₘ Q ∧ Q.map Prod.fst = M := by
  obtain ⟨⟨_, d⟩, hmem, rfl, hQ⟩ := (Multiset.map_eq_cons _ _ _ _).mpr hP
  exact ⟨d, P.erase _, (Multiset.cons_erase hmem).symm, hQ⟩

/-- Merging the two lightest symbols: for every code there is one for the merged
symbols that is cheaper by at least their weights. -/
theorem exists_merge (hP : P.map Prod.fst = a ::ₘ b ::ₘ M)
    (hkraft : kraft P ≤ 1) (hab : a ≤ b) (hM : ∀ m ∈ M, b ≤ m) :
    ∃ P' : Code, P'.map Prod.fst = (a + b) ::ₘ M ∧ kraft P' ≤ 1 ∧ cost P' + (a + b) ≤ cost P := by
  obtain ⟨d, Q, rfl, hQ⟩ := exists_eq_cons hP
  have ha : ∀ q ∈ Q, a ≤ q.1 := by
    intro q hq
    have hmem : q.1 ∈ b ::ₘ M := hQ ▸ Multiset.mem_map_of_mem Prod.fst hq
    rcases Multiset.mem_cons.mp hmem with heq | hmem
    · rw [heq]
      exact hab
    · exact hab.trans (hM _ hmem)
  obtain ⟨D, Q', hfst, hsnd, hmax, hcost⟩ := exists_lightest_longest a d Q ha
  obtain ⟨e, R, rfl, hR⟩ := exists_eq_cons (hfst.trans hQ)
  have hb : ∀ q ∈ R, b ≤ q.1 := fun q hq => hM _ (hR ▸ Multiset.mem_map_of_mem Prod.fst hq)
  obtain ⟨E, R', hfst', hsnd', hmax', hcost'⟩ := exists_lightest_longest b e R hb
  have hED : E ≤ D := by
    have hmem : E ∈ ((b, e) ::ₘ R).map Prod.snd := by
      rw [← hsnd']
      simp
    obtain ⟨q, hq, rfl⟩ := Multiset.mem_map.mp hmem
    exact hmax q hq
  have hlevel : kraft ((a, E) ::ₘ (b, E) ::ₘ R') ≤ 1 := by
    have hsame : kraft ((a, D) ::ₘ (b, E) ::ₘ R') = kraft ((a, d) ::ₘ Q) := by
      refine kraft_congr ?_
      rw [Multiset.map_cons, hsnd', ← Multiset.map_cons, hsnd]
    rw [← hsame] at hkraft
    exact kraft_level hmax' hkraft
  have hE : E ≠ 0 := by
    rintro rfl
    have hpos := kraft_nonneg R'
    simp only [kraft_cons, pow_zero] at hlevel
    linarith
  obtain ⟨E, rfl⟩ := Nat.exists_eq_succ_of_ne_zero hE
  refine ⟨(a + b, E) ::ₘ R', ?_, ?_, ?_⟩
  · rw [Multiset.map_cons, hfst', hR]
  · simp only [kraft_cons, pow_succ] at hlevel ⊢
    linarith
  · simp only [cost_cons] at hcost hcost' ⊢
    have hcut := Nat.mul_le_mul_left a hED
    nlinarith

end Code

end huffman
