import BasicDataStruct.Huffman.Code

namespace huffman

variable {W : Multiset Nat} {F : Multiset FullTree} {t u : FullTree}

/-- A full binary tree with weights at its leaves. -/
inductive FullTree where
  | leaf (w : Nat)
  | node (l r : FullTree)
deriving DecidableEq

namespace FullTree

def leaves : FullTree → Multiset Nat
  | .leaf w => {w}
  | .node l r => l.leaves + r.leaves

def weight : FullTree → Nat
  | .leaf w => w
  | .node l r => l.weight + r.weight

/-- The weighted external path length of a tree whose root has depth `d`. -/
def pathLength : FullTree → (d : Nat) → Nat
  | .leaf w, d => w * d
  | .node l r, d => l.pathLength (d + 1) + r.pathLength (d + 1)

/-- The weights of the leaves with their depths. -/
def code : FullTree → (d : Nat) → Code
  | .leaf w, d => {(w, d)}
  | .node l r, d => l.code (d + 1) + r.code (d + 1)

theorem pathLength_succ (t : FullTree) (d : Nat) : t.pathLength (d + 1) = t.pathLength d + t.weight := by
  induction t generalizing d with
  | leaf w => rw [pathLength, pathLength, weight, Nat.mul_succ]
  | node l r ihl ihr =>
    rw [pathLength, pathLength, ihl, ihr, weight]
    omega

theorem code_map_fst (t : FullTree) (d : Nat) : (t.code d).map Prod.fst = t.leaves := by
  induction t generalizing d with
  | leaf w => rfl
  | node l r ihl ihr => rw [code, Multiset.map_add, ihl, ihr, leaves]

/-- The depths of the leaves of a full tree fill the code space. -/
theorem kraft_code (t : FullTree) (d : Nat) : (t.code d).kraft = (1 / 2 : ℚ) ^ d := by
  induction t generalizing d with
  | leaf w => simp [code, Code.kraft]
  | node l r ihl ihr =>
    rw [code, Code.kraft_add, ihl, ihr, pow_succ]
    ring

theorem cost_code (t : FullTree) (d : Nat) : (t.code d).cost = t.pathLength d := by
  induction t generalizing d with
  | leaf w => simp [code, Code.cost, pathLength]
  | node l r ihl ihr => rw [code, Code.cost_add, ihl, ihr, pathLength]

theorem weight_eq_sum (t : FullTree) : t.weight = t.leaves.sum := by
  induction t with
  | leaf w => simp [weight, leaves]
  | node l r ihl ihr => rw [weight, leaves, Multiset.sum_add, ihl, ihr]

end FullTree

/-- A forest on the way from the leaves `W` to an optimal tree: whatever tree `S`
is built from the leaves, some code for the weights of the forest is at least as
cheap, together with what the trees of the forest have cost already. -/
structure Forest (W : Multiset Nat) (F : Multiset FullTree) : Prop where
  leaves : (F.map FullTree.leaves).sum = W
  cheap : ∀ S : FullTree, S.leaves = W → ∃ P : Code, P.map Prod.fst = F.map FullTree.weight ∧ P.kraft ≤ 1 ∧
    P.cost + (F.map (·.pathLength 0)).sum ≤ S.pathLength 0

/-- Two trees of a forest weigh no more than all its leaves together. -/
theorem Forest.weight_le (hF : Forest W (t ::ₘ u ::ₘ F)) : t.weight + u.weight ≤ W.sum := by
  have hleaves := congrArg Multiset.sum hF.leaves
  simp only [Multiset.map_cons, Multiset.sum_cons, Multiset.sum_add] at hleaves
  rw [t.weight_eq_sum, u.weight_eq_sum]
  omega

/-- The leaves alone. -/
theorem Forest.init (W : Multiset Nat) : Forest W (W.map FullTree.leaf) where
  leaves := by
    rw [Multiset.map_map]
    exact Multiset.sum_map_singleton W
  cheap := by
    intro S hS
    refine ⟨S.code 0, ?_, ?_, ?_⟩
    · rw [S.code_map_fst, hS, Multiset.map_map]
      exact (Multiset.map_id W).symm
    · rw [S.kraft_code, pow_zero]
    · rw [S.cost_code, Multiset.map_map]
      simp [Function.comp_def, FullTree.pathLength]

/-- Joining two trees of least weight. -/
theorem Forest.join (hF : Forest W (t ::ₘ u ::ₘ F))
    (htu : t.weight ≤ u.weight) (hmin : ∀ v ∈ F, u.weight ≤ v.weight) : Forest W (.node t u ::ₘ F) where
  leaves := by
    have hleaves := hF.leaves
    simp only [Multiset.map_cons, Multiset.sum_cons] at hleaves ⊢
    rw [FullTree.leaves, add_assoc, hleaves]
  cheap := by
    intro S hS
    obtain ⟨P, hP, hkraft, hcost⟩ := hF.cheap S hS
    simp only [Multiset.map_cons] at hP
    have hM : ∀ m ∈ F.map FullTree.weight, u.weight ≤ m := by
      intro m hm
      obtain ⟨v, hv, rfl⟩ := Multiset.mem_map.mp hm
      exact hmin v hv
    obtain ⟨P', hP', hkraft', hcost'⟩ := Code.exists_merge hP hkraft htu hM
    refine ⟨P', ?_, hkraft', ?_⟩
    · rw [hP', Multiset.map_cons, FullTree.weight]
    · simp only [Multiset.map_cons, Multiset.sum_cons] at hcost ⊢
      rw [FullTree.pathLength, FullTree.pathLength_succ, FullTree.pathLength_succ]
      omega

/-- A single tree that is left has the leaves it started from, and no tree with
these leaves has a smaller weighted path length. -/
theorem Forest.optimal (hF : Forest W {t}) :
    t.leaves = W ∧ ∀ S : FullTree, S.leaves = W → t.pathLength 0 ≤ S.pathLength 0 := by
  refine ⟨by simpa using hF.leaves, fun S hS => ?_⟩
  obtain ⟨P, _, _, hcost⟩ := hF.cheap S hS
  simp only [Multiset.map_singleton, Multiset.sum_singleton] at hcost
  omega

end huffman
