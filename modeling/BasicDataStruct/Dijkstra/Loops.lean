import BasicDataStruct.Dijkstra.Load

open machine machine.Exec

namespace basic_data_struct.dijkstra

/-- The vertices of a graph with `n` vertices. -/
def Vertex (n v : Nat) : Prop := 1 ≤ v ∧ v ≤ n

instance (n v : Nat) : Decidable (Vertex n v) := inferInstanceAs (Decidable (_ ∧ _))

theorem toInt_MAX : MAX.toInt = 9999999 := by decide

theorem toInt_MAX_nonneg : 0 ≤ MAX.toInt := by
  rw [toInt_MAX]
  decide

/-- The result of the search for the nearest vertex that is not marked. -/
def Nearest (n : Nat) (g : Globals) (locals : Int32 × Option Nat) : Prop :=
  locals.1 = MAX ∧ (∀ v, Vertex n v → g.mark v = 0 → MAX ≤ g.dist v) ∨
  locals.1 < MAX ∧ ∃ p, locals.2 = some p ∧ Vertex n p ∧ g.mark p = 0 ∧ g.dist p = locals.1 ∧
    ∀ v, Vertex n v → g.mark v = 0 → g.dist p ≤ g.dist v

/-- One round of the search extends the range that has been looked at by one. -/
theorem nearest_step {j : Nat} {g : Globals} {locals : Int32 × Option Nat} (hj : j + 1 < LEN)
    (hnear : Nearest j g locals) :
    ∃ locals', (min_body (j + 1) locals).run g = .ok (locals', g) ∧ Nearest (j + 1) g locals' := by
  have hsplit : ∀ v, Vertex (j + 1) v → v = j + 1 ∨ Vertex j v := by
    intro v hv
    unfold Vertex at hv ⊢
    omega
  have hgrow : ∀ v, Vertex j v → Vertex (j + 1) v := by
    intro v hv
    unfold Vertex at hv ⊢
    omega
  have hlast : Vertex (j + 1) (j + 1) := by
    unfold Vertex
    omega
  simp only [min_body, run_bind, run_readMark g hj, run_ite, run_readDist g hj, run_pure]
  by_cases hmark : g.mark (j + 1) = 0
  · rw [if_pos hmark]
    by_cases hlt : g.dist (j + 1) < locals.1
    · rw [if_pos hlt]
      refine ⟨_, rfl, .inr ?_⟩
      rcases hnear with ⟨hmin, hall⟩ | ⟨hmin, p, _, _, _, hdist, hall⟩
      · rw [hmin] at hlt
        refine ⟨hlt, j + 1, rfl, hlast, hmark, rfl, fun v hv hfree => ?_⟩
        rcases hsplit v hv with rfl | hv
        · exact Int32.le_refl _
        · exact Int32.le_trans (Int32.le_of_lt hlt) (hall v hv hfree)
      · refine ⟨Int32.lt_trans hlt hmin, j + 1, rfl, hlast, hmark, rfl, fun v hv hfree => ?_⟩
        rcases hsplit v hv with rfl | hv
        · exact Int32.le_refl _
        · exact Int32.le_trans (Int32.le_of_lt hlt) (hdist ▸ hall v hv hfree)
    · rw [if_neg hlt]
      refine ⟨_, rfl, ?_⟩
      rcases hnear with ⟨hmin, hall⟩ | ⟨hmin, p, hpos, hp, hpm, hdist, hall⟩
      · left
        refine ⟨hmin, fun v hv hfree => ?_⟩
        rcases hsplit v hv with rfl | hv
        · exact hmin ▸ Int32.not_lt.mp hlt
        · exact hall v hv hfree
      · right
        refine ⟨hmin, p, hpos, hgrow p hp, hpm, hdist, fun v hv hfree => ?_⟩
        rcases hsplit v hv with rfl | hv
        · exact hdist ▸ Int32.not_lt.mp hlt
        · exact hall v hv hfree
  · rw [if_neg hmark]
    refine ⟨_, rfl, ?_⟩
    have hskip : ∀ v, Vertex (j + 1) v → g.mark v = 0 → Vertex j v := by
      intro v hv hfree
      rcases hsplit v hv with rfl | hv
      · exact absurd hfree hmark
      · exact hv
    rcases hnear with ⟨hmin, hall⟩ | ⟨hmin, p, hpos, hp, hpm, hdist, hall⟩
    · exact .inl ⟨hmin, fun v hv hfree => hall v (hskip v hv hfree) hfree⟩
    · exact .inr ⟨hmin, p, hpos, hgrow p hp, hpm, hdist, fun v hv hfree => hall v (hskip v hv hfree) hfree⟩

theorem run_min {n : Nat} (hn : n < LEN) (g : Globals) (pos : Option Nat) :
    ∃ locals, (forRange min_body 1 n (MAX, pos)).run g = .ok (locals, g) ∧ Nearest n g locals := by
  have hbody : ∀ j locals g₁, 1 ≤ j → j < 1 + n → (g₁ = g ∧ Nearest (j - 1) g locals) →
      ∃ locals' g₂, (min_body j locals).run g₁ = .ok (locals', g₂) ∧
        (g₂ = g ∧ Nearest (j + 1 - 1) g locals') := by
    rintro j locals g₁ hj hjn ⟨rfl, hnear⟩
    obtain ⟨j, rfl⟩ : ∃ k, j = k + 1 := ⟨j - 1, by omega⟩
    obtain ⟨locals', hrun, hnear'⟩ := nearest_step (by omega) hnear
    exact ⟨locals', g₁, hrun, rfl, hnear'⟩
  have hinit : Nearest 0 g (MAX, pos) := by
    left
    refine ⟨rfl, fun v hv => ?_⟩
    unfold Vertex at hv
    omega
  obtain ⟨locals, g', hrun, rfl, hnear⟩ := forRange_total _ hbody ⟨rfl, hinit⟩
  rw [Nat.add_sub_cancel_left] at hnear
  exact ⟨locals, hrun, hnear⟩

/-- The edges from `p` to the vertices below `j` have been relaxed. -/
def Relaxed (n p : Nat) (g : Globals) (j : Nat) (g₁ : Globals) : Prop :=
  g₁.map = g.map ∧ g₁.mark = g.mark ∧ ∀ v, Vertex n v → (g₁.dist v).toInt =
    if v < j ∧ g.mark v = 0 then min (g.dist v).toInt ((g.dist p).toInt + (g.map p v).toInt) else (g.dist v).toInt

section Relax

variable {n p : Nat} {g : Globals} (hn : n < LEN) (hp : Vertex n p) (hmark : g.mark p ≠ 0)
  (hdist : ∀ v, Vertex n v → 0 ≤ (g.dist v).toInt ∧ (g.dist v).toInt ≤ MAX.toInt)
  (hmap : ∀ v, Vertex n v → 0 ≤ (g.map p v).toInt ∧ (g.map p v).toInt ≤ MAX.toInt)
include hn hp hmark hdist hmap

/-- One round relaxes one edge. Sums of two entries stay below 2^31. -/
theorem relaxed_step {j : Nat} {g₁ : Globals} (hj : Vertex n j) (hinv : Relaxed n p g j g₁) :
    ∃ g₂, (relax_body p j).run g₁ = .ok ((), g₂) ∧ Relaxed n p g (j + 1) g₂ := by
  obtain ⟨hmap₁, hmark₁, hdist₁⟩ := hinv
  have hjlen : j < LEN := by
    unfold Vertex at hj
    omega
  have hplen : p < LEN := by
    unfold Vertex at hp
    omega
  have hdistp : (g₁.dist p).toInt = (g.dist p).toInt := by
    rw [hdist₁ p hp, if_neg fun h => hmark h.2]
  have hdistj : (g₁.dist j).toInt = (g.dist j).toInt := by
    rw [hdist₁ j hj, if_neg fun h => Nat.lt_irrefl j h.1]
  have hsum : (g₁.dist p + g₁.map p j).toInt = (g.dist p).toInt + (g.map p j).toInt := by
    have hboundp := hdist p hp
    have hboundj := hmap j hj
    rw [toInt_MAX] at hboundp hboundj
    rw [Int32.toInt_add, hdistp, hmap₁]
    apply Int.bmod_eq_of_le <;> omega
  have hbelow : ∀ v, v ≠ j → (v < j + 1 ∧ g.mark v = 0 ↔ v < j ∧ g.mark v = 0) := by
    intro v hv
    have hlt : v < j + 1 ↔ v < j := by omega
    rw [hlt]
  simp only [relax_body, run_bind, run_readMark _ hjlen, run_ite, run_readDist _ hjlen, run_readDist _ hplen,
    run_readMap _ hplen hjlen, run_writeDist _ hjlen, run_pure, hmark₁]
  by_cases hfree : g.mark j = 0
  · rw [if_pos hfree]
    by_cases hlt : g₁.dist j > g₁.dist p + g₁.map p j
    · rw [if_pos hlt]
      refine ⟨_, rfl, hmap₁, hmark₁, fun v hv => ?_⟩
      have hle := Int32.lt_iff_toInt_lt.mp hlt
      rw [hsum, hdistj] at hle
      by_cases hvj : v = j
      · subst hvj
        rw [if_pos ⟨by omega, hfree⟩]
        simp only [Globals.setDist, if_pos, hsum]
        omega
      · simp only [Globals.setDist, if_neg hvj, hbelow v hvj]
        exact hdist₁ v hv
    · rw [if_neg hlt]
      refine ⟨_, rfl, hmap₁, hmark₁, fun v hv => ?_⟩
      have hle := Int32.le_iff_toInt_le.mp (Int32.not_lt.mp hlt)
      rw [hsum, hdistj] at hle
      by_cases hvj : v = j
      · subst hvj
        rw [if_pos ⟨by omega, hfree⟩, hdistj]
        omega
      · simp only [hbelow v hvj]
        exact hdist₁ v hv
  · rw [if_neg hfree]
    refine ⟨_, rfl, hmap₁, hmark₁, fun v hv => ?_⟩
    by_cases hvj : v = j
    · subst hvj
      rw [if_neg fun h => hfree h.2, hdistj]
    · simp only [hbelow v hvj]
      exact hdist₁ v hv

/-- The relaxation loop, from a vertex that is marked. -/
theorem run_relax :
    ∃ g', (forRange (fun j _ => relax_body p j) 1 n ()).run g = .ok ((), g') ∧ Relaxed n p g (1 + n) g' := by
  have hbody : ∀ j (b : Unit) g₁, 1 ≤ j → j < 1 + n → Relaxed n p g j g₁ →
      ∃ b' g₂, (relax_body p j).run g₁ = .ok (b', g₂) ∧ Relaxed n p g (j + 1) g₂ := by
    intro j _ g₁ hlo hhi hinv
    have hj : Vertex n j := by
      unfold Vertex
      omega
    obtain ⟨g₂, hrun, hinv'⟩ := relaxed_step hn hp hmark hdist hmap hj hinv
    exact ⟨(), g₂, hrun, hinv'⟩
  have hinit : Relaxed n p g 1 g := by
    refine ⟨rfl, rfl, fun v hv => ?_⟩
    rw [if_neg]
    unfold Vertex at hv
    omega
  obtain ⟨_, g', hrun, hinv⟩ := forRange_total (b := ()) _ hbody hinit
  exact ⟨g', hrun, hinv⟩

end Relax

end basic_data_struct.dijkstra
