import BasicDataStruct.Btree.Slots

open machine machine.Exec huffman

namespace basic_data_struct.btree

variable {n : Nat} {h : Heap BT} {b : Nat → Ptr} {f : Nat → Option FullTree}

/-- What the search for the first two trees has found below the index `j`. -/
def FirstInv (n : Nat) (f : Nat → Option FullTree) (j : Nat) (ks : Int × Option Int) : Prop :=
  ks = (-1, none) ∧ (∀ l ∈ filled n f, j ≤ l) ∨
  ∃ k : Nat, ks = ((k : Int), none) ∧ k ∈ filled n f ∧ k < j ∧ ∀ l ∈ filled n f, l < j → l = k

/-- The first two trees of the array. -/
def FirstPost (n : Nat) (f : Nat → Option FullTree) (ks : Int × Option Int) : Prop :=
  ∃ k1 k2 : Nat, ks = ((k1 : Int), some (k2 : Int)) ∧ k1 ∈ filled n f ∧ k2 ∈ filled n f ∧ k1 < k2 ∧
    ∀ l ∈ filled n f, l < k2 → l = k1

theorem firstInv_step (hb : Holds n h b f) {j : Nat} (hj : j < n) {ks : Int × Option Int}
    (hinv : FirstInv n f j ks) :
    (∃ ks', (first_body n b j ks).run h = .ok (.inl ks', h) ∧ FirstInv n f (j + 1) ks') ∨
    ∃ ks', (first_body n b j ks).run h = .ok (.inr ks', h) ∧ FirstPost n f ks' := by
  have hentry : (entry n b j).run h = .ok (b j, h) := run_entry hj
  simp only [first_body, run_bind, hentry, run_ite, run_pure, hb.ne_none_iff hj]
  by_cases hfill : j ∈ filled n f
  · rcases hinv with ⟨rfl, hnone⟩ | ⟨k, rfl, hk, hkj, honly⟩
    · left
      refine ⟨((j : Int), none), by simp [hfill], .inr ⟨j, rfl, hfill, by omega, fun l hl hlt => ?_⟩⟩
      have hge := hnone l hl
      omega
    · right
      have hset : ¬ ((k : Int) = -1) := by omega
      exact ⟨((k : Int), some (j : Int)), by simp [hfill, hset], k, j, rfl, hk, hfill, hkj, honly⟩
  · left
    refine ⟨ks, by simp [hfill], ?_⟩
    have hother : ∀ l ∈ filled n f, l ≠ j := by
      rintro l hl rfl
      exact hfill hl
    rcases hinv with ⟨rfl, hnone⟩ | ⟨k, rfl, hk, hkj, honly⟩
    · left
      refine ⟨rfl, fun l hl => ?_⟩
      have hge := hnone l hl
      have hne := hother l hl
      omega
    · right
      refine ⟨k, rfl, hk, by omega, fun l hl hlt => honly l hl ?_⟩
      have hne := hother l hl
      omega

/-- With two trees in the array the first search finds the first two. -/
theorem run_first (hb : Holds n h b f) (hcard : 2 ≤ (filled n f).card) :
    ∃ ks, (forBreak (first_body n b) 0 n (-1, none)).run h = .ok (ks, h) ∧ FirstPost n f ks := by
  have hbody : ∀ j ks h₁, 0 ≤ j → j < 0 + n → (h₁ = h ∧ FirstInv n f j ks) →
      (∃ ks' h₂, (first_body n b j ks).run h₁ = .ok (.inl ks', h₂) ∧ (h₂ = h ∧ FirstInv n f (j + 1) ks')) ∨
      ∃ ks' h₂, (first_body n b j ks).run h₁ = .ok (.inr ks', h₂) ∧ (h₂ = h ∧ FirstPost n f ks') := by
    rintro j ks h₁ _ hj ⟨rfl, hinv⟩
    rcases firstInv_step hb (by omega : j < n) hinv with ⟨ks', hrun, hinv'⟩ | ⟨ks', hrun, hpost⟩
    · exact .inl ⟨ks', h₁, hrun, rfl, hinv'⟩
    · exact .inr ⟨ks', h₁, hrun, rfl, hpost⟩
  have hinit : FirstInv n f 0 (-1, none) := .inl ⟨rfl, fun l _ => Nat.zero_le l⟩
  obtain ⟨ks, h', hrun, hend⟩ :=
    forBreak_total _ (fun ks h' => h' = h ∧ FirstPost n f ks) hbody ⟨rfl, hinit⟩
  rcases hend with ⟨rfl, hpost⟩ | ⟨rfl, hinv⟩
  · exact ⟨ks, hrun, hpost⟩
  · have hsmall : ∃ k, filled n f ⊆ {k} := by
      rcases hinv with ⟨_, hnone⟩ | ⟨k, _, _, _, honly⟩
      · refine ⟨0, fun l hl => ?_⟩
        have hge := hnone l hl
        have hlt := (mem_filled.mp hl).1
        omega
      · refine ⟨k, fun l hl => ?_⟩
        have hlt := (mem_filled.mp hl).1
        rw [Finset.mem_singleton]
        exact honly l hl (by omega)
    obtain ⟨k, hsub⟩ := hsmall
    have hle := Finset.card_le_card hsub
    rw [Finset.card_singleton] at hle
    omega

/-- The two lightest trees below the index `j`. At the index `s`, where the search
starts, they are the first two trees, and their order is not settled yet. -/
structure LeastInv (n : Nat) (f : Nat → Option FullTree) (s j k1 k2 : Nat) : Prop where
  filled₁ : k1 ∈ filled n f
  filled₂ : k2 ∈ filled n f
  below : k1 < j
  ne : k1 ≠ k2
  start : j = s → k2 = s ∧ ∀ l ∈ filled n f, l < s → l = k1
  ordered : s < j → weightAt f k1 ≤ weightAt f k2
  least : ∀ l ∈ filled n f, l < j → l ≠ k1 → l ≠ k2 → weightAt f k2 ≤ weightAt f l

/-- One comparison of the search, in terms of the weights. -/
theorem run_least_body (hb : Holds n h b f) {j k1 k2 : Nat} (hj : j < n) (h₁ : k1 ∈ filled n f)
    (h₂ : k2 ∈ filled n f) :
    (least_body n b j ((k1 : Int), (k2 : Int))).run h = .ok
      (if j ∈ filled n f then
        if weightAt f j < weightAt f k1 then ((j : Int), (k1 : Int))
        else if weightAt f j < weightAt f k2 then ((k1 : Int), (j : Int)) else ((k1 : Int), (k2 : Int))
      else ((k1 : Int), (k2 : Int)), h) := by
  have hentry : (entry n b j).run h = .ok (b j, h) := run_entry hj
  have hentry₁ : (entry n b k1).run h = .ok (b k1, h) := run_entry (mem_filled.mp h₁).1
  have hentry₂ : (entry n b k2).run h = .ok (b k2, h) := run_entry (mem_filled.mp h₂).1
  obtain ⟨node₁, hload₁, hdata₁⟩ := hb.run_load h₁
  obtain ⟨node₂, hload₂, hdata₂⟩ := hb.run_load h₂
  by_cases hfill : j ∈ filled n f
  · obtain ⟨node, hload, hdata⟩ := hb.run_load hfill
    have hlt₁ : node.data < node₁.data ↔ weightAt f j < weightAt f k1 := by
      rw [Int8.lt_iff_toInt_lt, hdata, hdata₁]
      omega
    have hlt₂ : node.data < node₂.data ↔ weightAt f j < weightAt f k2 := by
      rw [Int8.lt_iff_toInt_lt, hdata, hdata₂]
      omega
    simp only [least_body, run_bind, hentry, hentry₁, hentry₂, run_ite, run_pure, (hb.ne_none_iff hj).mpr hfill,
      hload, hload₁, hload₂, hlt₁, hlt₂, hfill, if_true, ne_eq, not_false_eq_true]
    split_ifs <;> rfl
  · have hnull : b j = none := by
      by_contra hne
      exact hfill ((hb.ne_none_iff hj).mp hne)
    simp [least_body, run_bind, hentry, hnull, hfill]

/-- A round of the search, with the tree at the index `j`. -/
theorem leastInv_step {s j k1 k2 : Nat} (hsj : s ≤ j) (hinv : LeastInv n f s j k1 k2) :
    ∃ k1' k2' : Nat, (if j ∈ filled n f then
        if weightAt f j < weightAt f k1 then ((j : Int), (k1 : Int))
        else if weightAt f j < weightAt f k2 then ((k1 : Int), (j : Int)) else ((k1 : Int), (k2 : Int))
      else ((k1 : Int), (k2 : Int))) = ((k1' : Int), (k2' : Int)) ∧ LeastInv n f s (j + 1) k1' k2' := by
  obtain ⟨h₁, h₂, hbelow, hne, hstart, hordered, hleast⟩ := hinv
  by_cases hfill : j ∈ filled n f
  · rw [if_pos hfill]
    by_cases hlt₁ : weightAt f j < weightAt f k1
    · rw [if_pos hlt₁]
      refine ⟨j, k1, rfl, hfill, h₁, by omega, by omega, by omega, fun _ => by omega, fun l hl hlj hne₁ hne₂ => ?_⟩
      rcases Nat.eq_or_lt_of_le hsj with rfl | hsj
      · exact absurd ((hstart rfl).2 l hl (by omega)) hne₂
      · have hle := hordered hsj
        by_cases hlk : l = k2
        · rw [hlk]
          exact hle
        · exact hle.trans (hleast l hl (by omega) hne₂ hlk)
    · rw [if_neg hlt₁]
      by_cases hlt₂ : weightAt f j < weightAt f k2
      · rw [if_pos hlt₂]
        refine ⟨k1, j, rfl, h₁, hfill, by omega, by omega, by omega, fun _ => by omega, fun l hl hlj hne₁ hne₂ => ?_⟩
        by_cases hlk : l = k2
        · rw [hlk]
          omega
        · have hle := hleast l hl (by omega) hne₁ hlk
          omega
      · rw [if_neg hlt₂]
        refine ⟨k1, k2, rfl, h₁, h₂, by omega, hne, by omega, fun _ => ?_, fun l hl hlj hne₁ hne₂ => ?_⟩
        · rcases Nat.eq_or_lt_of_le hsj with rfl | hsj
          · rw [(hstart rfl).1]
            omega
          · exact hordered hsj
        · by_cases hlj' : l = j
          · rw [hlj']
            omega
          · exact hleast l hl (by omega) hne₁ hne₂
  · rw [if_neg hfill]
    have hsj' : s < j := by
      rcases Nat.eq_or_lt_of_le hsj with rfl | hsj
      · exact absurd ((hstart rfl).1 ▸ h₂) hfill
      · exact hsj
    refine ⟨k1, k2, rfl, h₁, h₂, by omega, hne, by omega, fun _ => hordered hsj', fun l hl hlj hne₁ hne₂ => ?_⟩
    have hlj' : l ≠ j := by
      rintro rfl
      exact hfill hl
    exact hleast l hl (by omega) hne₁ hne₂

/-- The two searches of a round find two lightest trees. -/
theorem run_select (hb : Holds n h b f) (hcard : 2 ≤ (filled n f).card) :
    ∃ k1 k2 : Nat, (select n b).run h = .ok (((k1 : Int), (k2 : Int)), h) ∧ k1 ∈ filled n f ∧ k2 ∈ filled n f ∧
      k1 ≠ k2 ∧ weightAt f k1 ≤ weightAt f k2 ∧
      ∀ l ∈ filled n f, l ≠ k1 → l ≠ k2 → weightAt f k2 ≤ weightAt f l := by
  obtain ⟨ks, hfirst, i, s, rfl, hi, hs, his, honly⟩ := run_first hb hcard
  have hsn : s < n := (mem_filled.mp hs).1
  have hbody : ∀ j ks h₁, s ≤ j → j < s + (n - s) →
      (h₁ = h ∧ ∃ k1 k2 : Nat, ks = ((k1 : Int), (k2 : Int)) ∧ LeastInv n f s j k1 k2) →
      ∃ ks' h₂, (least_body n b j ks).run h₁ = .ok (ks', h₂) ∧
        (h₂ = h ∧ ∃ k1 k2 : Nat, ks' = ((k1 : Int), (k2 : Int)) ∧ LeastInv n f s (j + 1) k1 k2) := by
    rintro j ks h₁ hsj hj ⟨rfl, k1, k2, rfl, hinv⟩
    have hrun := run_least_body hb (by omega : j < n) hinv.filled₁ hinv.filled₂
    obtain ⟨k1', k2', heq, hinv'⟩ := leastInv_step hsj hinv
    rw [heq] at hrun
    exact ⟨_, h₁, hrun, rfl, k1', k2', rfl, hinv'⟩
  have hinit : LeastInv n f s s i s :=
    ⟨hi, hs, his, by omega, fun _ => ⟨rfl, honly⟩, by omega, fun l hl hlt hne _ => absurd (honly l hl hlt) hne⟩
  obtain ⟨ks', h', hrun, rfl, k1, k2, rfl, hinv⟩ := forRange_total _ hbody ⟨rfl, i, s, rfl, hinit⟩
  refine ⟨k1, k2, ?_, hinv.filled₁, hinv.filled₂, hinv.ne, hinv.ordered (by omega), fun l hl hne₁ hne₂ => ?_⟩
  · simp only [select, run_bind, hfirst, assigned_some, run_pure, Int.toNat_natCast, hrun]
  · have hlt := (mem_filled.mp hl).1
    exact hinv.least l hl (by omega) hne₁ hne₂

end basic_data_struct.btree
