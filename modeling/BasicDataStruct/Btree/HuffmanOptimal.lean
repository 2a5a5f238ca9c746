import Mathlib.Algebra.BigOperators.Ring.Finset
import BasicDataStruct.Btree.Select

open machine machine.Exec huffman

namespace basic_data_struct.btree

variable {t : FullTree} {a : Nat → Int32} {W : Multiset Nat}

/-- The tree at an index, as a multiset. -/
def slot : Option FullTree → Multiset FullTree
  | none => 0
  | some t => {t}

/-- The trees of the array. -/
def forestOf (n : Nat) (f : Nat → Option FullTree) : Multiset FullTree := ∑ j ∈ Finset.range n, slot (f j)

/-- The trees after those at `k1` and `k2` have been joined. -/
def joined (f : Nat → Option FullTree) (k1 k2 : Nat) (t u : FullTree) : Nat → Option FullTree :=
  Function.update (Function.update f k1 (some (.node t u))) k2 none

variable {n : Nat} {h : Heap BT} {b : Nat → Ptr} {f : Nat → Option FullTree}

section Joined

variable {k1 k2 : Nat} {t u : FullTree} (h₁ : k1 < n) (h₂ : k2 < n) (hne : k1 ≠ k2)
include h₁ h₂ hne

theorem forestOf_eq (f : Nat → Option FullTree) : forestOf n f =
    slot (f k1) + (slot (f k2) + ∑ j ∈ ((Finset.range n).erase k1).erase k2, slot (f j)) := by
  have hmem₂ : k2 ∈ (Finset.range n).erase k1 := Finset.mem_erase.mpr ⟨hne.symm, Finset.mem_range.mpr h₂⟩
  rw [forestOf, Finset.add_sum_erase _ (fun j => slot (f j)) hmem₂,
    Finset.add_sum_erase _ (fun j => slot (f j)) (Finset.mem_range.mpr h₁)]

/-- The trees before and after a join have all but the joined trees in common. -/
theorem exists_forestOf (ht : f k1 = some t) (hu : f k2 = some u) :
    ∃ F, forestOf n f = t ::ₘ u ::ₘ F ∧ forestOf n (joined f k1 k2 t u) = .node t u ::ₘ F ∧
      ∀ v ∈ F, ∃ l ∈ filled n f, l ≠ k1 ∧ l ≠ k2 ∧ f l = some v := by
  refine ⟨∑ j ∈ ((Finset.range n).erase k1).erase k2, slot (f j), ?_, ?_, ?_⟩
  · rw [forestOf_eq h₁ h₂ hne, ht, hu]
    rfl
  · have hrest : ∀ j ∈ ((Finset.range n).erase k1).erase k2, slot (joined f k1 k2 t u j) = slot (f j) := by
      intro j hj
      simp only [Finset.mem_erase] at hj
      rw [joined, Function.update_of_ne hj.1, Function.update_of_ne hj.2.1]
    have hleft : joined f k1 k2 t u k1 = some (.node t u) := by
      rw [joined, Function.update_of_ne hne, Function.update_self]
    have hright : joined f k1 k2 t u k2 = none := Function.update_self ..
    rw [forestOf_eq h₁ h₂ hne, hleft, hright, Finset.sum_congr rfl hrest, slot, slot, zero_add]
    rfl
  · intro v hv
    obtain ⟨l, hl, hvl⟩ := Multiset.mem_sum.mp hv
    simp only [Finset.mem_erase, Finset.mem_range] at hl
    cases hf : f l with
    | none => simp [hf, slot] at hvl
    | some w =>
      rw [hf, slot, Multiset.mem_singleton] at hvl
      exact ⟨l, mem_filled.mpr ⟨hl.2.2, w, hf⟩, hl.2.1, hl.1, by rw [hvl, hf]⟩

end Joined

theorem filled_joined {k1 k2 : Nat} {u : FullTree} (hne : k1 ≠ k2) (ht : f k1 = some t) :
    filled n (joined f k1 k2 t u) = (filled n f).erase k2 := by
  ext j
  rw [Finset.mem_erase, mem_filled, mem_filled, joined]
  by_cases hj₂ : j = k2
  · simp [hj₂]
  · rw [Function.update_of_ne hj₂]
    by_cases hj₁ : j = k1
    · simp [hj₁, ht, hne]
    · simp [Function.update_of_ne hj₁, hj₂]

/-- The heap with one more node. -/
def grown (h : Heap BT) (data : Int8) (left right : Ptr) : Heap BT :=
  ((h.extend.alter h.next (·.setData data)).alter h.next (·.setLeft left)).alter h.next (·.setRight right)

theorem grown_cells_same (data : Int8) (left right : Ptr) :
    (grown h data left right).cells h.next = some ⟨data, left, right⟩ := by
  simp [grown, Heap.extend_cells, BT.setData, BT.setLeft, BT.setRight]

theorem grown_cells {data : Int8} {left right : Ptr} {a : Nat} {node : BT} (ha : h.cells a = some node) :
    (grown h data left right).cells a = some node := by
  have hne : a ≠ h.next := Heap.next_ne_of_some ha
  simp [grown, Heap.alter_cells, Heap.extend_cells, hne, ha]

/-- The state of the main loop in the round `i`: the trees of the array are a
forest on the way to an optimal tree. -/
structure Round (W : Multiset Nat) (n i : Nat) (h : Heap BT) (b : Nat → Ptr) (f : Nat → Option FullTree) : Prop where
  holds : Holds n h b f
  forest : Forest W (forestOf n f)
  count : (filled n f).card + i = n + 1

/-- A round joins two lightest trees and stores the result in the array. -/
theorem Round.step {i : Nat} (hr : Round W n i h b f) (hi : i < n) (hW : W.sum ≤ 127) :
    ∃ b' q h' f' k, (join_body n b).run h = .ok ((b', q), h') ∧ Round W n (i + 1) h' b' f' ∧
      k ∈ filled n f' ∧ q = b' k := by
  have hcount := hr.count
  obtain ⟨k1, k2, hselect, hk1, hk2, hne, hle, hleast⟩ := run_select hr.holds (by omega)
  obtain ⟨h₁, t, ht⟩ := mem_filled.mp hk1
  obtain ⟨h₂, u, hu⟩ := mem_filled.mp hk2
  obtain ⟨F, hforest, hjoined, hrest⟩ := exists_forestOf h₁ h₂ hne ht hu
  have hF := hr.forest
  rw [hforest] at hF
  have hbound := hF.weight_le
  have hext : ∀ a node, h.cells a = some node → h.extend.cells a = some node := by
    intro a node ha
    rw [Heap.extend_cells, if_neg (Heap.next_ne_of_some ha), ha]
  obtain ⟨node₁, hload₁, hdata₁⟩ := (hr.holds.mono hext).run_load hk1
  obtain ⟨node₂, hload₂, hdata₂⟩ := (hr.holds.mono hext).run_load hk2
  rw [weightAt_eq ht] at hdata₁ hle
  rw [weightAt_eq hu] at hdata₂ hle
  have hsum : (node₁.data + node₂.data).toInt = (FullTree.node t u).weight := by
    rw [Int8.toInt_add, hdata₁, hdata₂, FullTree.weight, Nat.cast_add]
    apply Int.bmod_eq_of_le <;> omega
  refine ⟨Function.update (Function.update b k1 (some h.next)) k2 none, some h.next,
    grown h (node₁.data + node₂.data) (b k1) (b k2), joined f k1 k2 t u, k1, ?_, ⟨?_, ?_, ?_⟩, ?_, ?_⟩
  · simp only [join_body, run_bind, hselect, run_malloc, run_entry h₁, run_entry h₂, hload₁, hload₂,
      run_store_of_isSome, Heap.alter_cells_same, Heap.extend_cells, if_true, Option.isSome_some, Option.isSome_map,
      run_setEntry h₁, run_setEntry h₂, run_pure]
    rfl
  · have hgrown : Holds n (grown h (node₁.data + node₂.data) (b k1) (b k2)) b f :=
      hr.holds.mono fun a node ha => grown_cells ha
    have hnode : Denotes (grown h (node₁.data + node₂.data) (b k1) (b k2)) (.node t u) (some h.next) :=
      ⟨h.next, _, _, _, rfl, grown_cells_same .., hsum, hgrown.denotes k1 t h₁ ht, hgrown.denotes k2 u h₂ hu⟩
    exact (hgrown.update hnode).clear k2
  · rw [hjoined]
    refine hF.join hle fun v hv => ?_
    obtain ⟨l, hl, hl₁, hl₂, hfl⟩ := hrest v hv
    have hmin := hleast l hl hl₁ hl₂
    rwa [weightAt_eq hu, weightAt_eq hfl] at hmin
  · rw [filled_joined hne ht, Finset.card_erase_of_mem hk2]
    omega
  · rw [filled_joined hne ht]
    exact Finset.mem_erase.mpr ⟨hne, hk1⟩
  · rw [Function.update_of_ne hne, Function.update_self]

/-- The weights of the input. -/
def weights (a : Nat → Int32) (n : Nat) : Multiset Nat := (Multiset.range n).map fun i => (a i).toInt.toNat

/-- The first loop makes a leaf of each weight. -/
theorem run_leaves (hpos : ∀ i, i < n → 0 < a i) (hsmall : ∀ i, i < n → (a i).toInt ≤ 127)
    (b : Nat → Ptr) (h : Heap BT) :
    ∃ b' h', (forRange (leaf_body a n) 0 n b).run h = .ok (b', h') ∧
      Holds n h' b' fun i => some (.leaf (a i).toInt.toNat) := by
  have hbody : ∀ i b h, 0 ≤ i → i < 0 + n → (Holds i h b fun i => some (.leaf (a i).toInt.toNat)) →
      ∃ b' h', (leaf_body a n i b).run h = .ok (b', h') ∧
        Holds (i + 1) h' b' fun i => some (.leaf (a i).toInt.toNat) := by
    intro i b h _ hi hb
    have hi' : i < n := by omega
    have hlow : 0 < (a i).toInt := Int32.lt_iff_toInt_lt.mp (hpos i hi')
    have hhigh := hsmall i hi'
    have hdata : (a i).toInt8.toInt = (a i).toInt.toNat := by
      rw [Int32.toInt_toInt8, Int.toNat_of_nonneg (by omega)]
      apply Int.bmod_eq_of_le <;> omega
    obtain ⟨h', hnew, hcell, hother, _⟩ := run_newNode h (a i).toInt8
    refine ⟨Function.update b i (some h.next), h', ?_,
      ⟨fun j hj hf => absurd hf (Option.some_ne_none _), fun j t hj hf => ?_⟩⟩
    · simp only [leaf_body, run_bind, hnew, run_setEntry hi']
    · by_cases hji : j = i
      · subst hji
        cases hf
        rw [Function.update_self]
        exact ⟨h.next, _, rfl, hcell, hdata⟩
      · rw [Function.update_of_ne hji]
        refine (hb.denotes j t (by omega) hf).mono fun p node hp => ?_
        rw [hother p (Heap.next_ne_of_some hp), hp]
  have hinit : Holds 0 h b fun i => some (.leaf (a i).toInt.toNat) :=
    ⟨fun j hj => absurd hj (by omega), fun j t hj => absurd hj (by omega)⟩
  obtain ⟨b', h', hrun, hb⟩ := forRange_total _ hbody hinit
  rw [Nat.zero_add] at hb
  exact ⟨b', h', hrun, hb⟩

/-- The leaves are the forest with which the main loop starts. -/
theorem round_of_leaves (hb : Holds n h b fun i => some (.leaf (a i).toInt.toNat)) :
    Round (weights a n) n 1 h b fun i => some (.leaf (a i).toInt.toNat) where
  holds := hb
  forest := by
    have hleaves : (forestOf n fun i => some (.leaf (a i).toInt.toNat)) = (weights a n).map .leaf := by
      rw [weights, Multiset.map_map, ← Multiset.sum_map_singleton (Multiset.map _ _), Multiset.map_map]
      rfl
    rw [hleaves]
    exact Forest.init (weights a n)
  count := by
    have hall : (filled n fun i => some (.leaf (a i).toInt.toNat)) = Finset.range n := by
      ext j
      rw [mem_filled, Finset.mem_range]
      simp
    rw [hall, Finset.card_range]

/-- When one tree is left, the forest is this tree. -/
theorem forestOf_single {k : Nat} (hk : k < n) (hf : f k = some t) (hcard : (filled n f).card = 1) :
    forestOf n f = {t} := by
  have hmem : k ∈ filled n f := mem_filled.mpr ⟨hk, t, hf⟩
  obtain ⟨k', hsingle⟩ := Finset.card_eq_one.mp hcard
  obtain rfl : k = k' := Finset.mem_singleton.mp (hsingle ▸ hmem)
  rw [forestOf, Finset.sum_eq_single k]
  · rw [hf]
    rfl
  · intro j hj hjk
    cases hfj : f j with
    | none => rfl
    | some u =>
      have hj' : j ∈ filled n f := mem_filled.mpr ⟨Finset.mem_range.mp hj, u, hfj⟩
      rw [hsingle, Finset.mem_singleton] at hj'
      exact absurd hj' hjk
  · intro hout
    exact absurd (Finset.mem_range.mpr hk) hout

/-- The main loop ends with one tree, which is `q`, when there are two weights or
more. -/
theorem run_joins (hn : 2 ≤ n) (hW : W.sum ≤ 127) (hr : Round W n 1 h b f) :
    ∃ b' q h' t, (forRange (fun _ s => round_body n s) 1 (n - 1) (b, none)).run h = .ok ((b', some q), h') ∧
      Denotes h' t q ∧ Forest W {t} := by
  have hbody : ∀ i (s : Locals) h₁, 1 ≤ i → i < 1 + (n - 1) →
      (∃ f, Round W n i h₁ s.1 f ∧ (i = 1 ∨ ∃ k ∈ filled n f, s.2 = some (s.1 k))) →
      ∃ s' h₂, (round_body n s).run h₁ = .ok (s', h₂) ∧
        ∃ f, Round W n (i + 1) h₂ s'.1 f ∧ (i + 1 = 1 ∨ ∃ k ∈ filled n f, s'.2 = some (s'.1 k)) := by
    rintro i s h₁ _ hi ⟨f, hround, _⟩
    obtain ⟨b', q, h₂, f', k, hrun, hround', hk, hq⟩ := hround.step (by omega) hW
    refine ⟨(b', some q), h₂, ?_, f', hround', .inr ⟨k, hk, ?_⟩⟩
    · rw [round_body, run_bind_of_ok hrun, run_pure]
    · rw [hq]
  have hinit : ∃ f, Round W n 1 h (b, (none : Option Ptr)).1 f ∧
      (1 = 1 ∨ ∃ k ∈ filled n f, (b, (none : Option Ptr)).2 = some (b k)) := ⟨f, hr, .inl rfl⟩
  obtain ⟨⟨b', q⟩, h', hrun, f', hround, hq⟩ := forRange_total _ hbody hinit
  rw [Nat.add_sub_cancel' (by omega : 1 ≤ n)] at hround hq
  obtain ⟨k, hk, hqk⟩ := hq.resolve_left (by omega)
  have hqk' : q = some (b' k) := hqk
  subst hqk'
  obtain ⟨hkn, t, hf⟩ := mem_filled.mp hk
  have hcount := hround.count
  have hforest := hround.forest
  rw [forestOf_single hkn hf (by omega)] at hforest
  exact ⟨b', b' k, h', t, hrun, hround.holds.denotes k t hkn hf, hforest⟩

/-- The weights of the input add up to the total of the `int` values. -/
theorem sum_weights (hpos : ∀ i, i < n → 0 < a i) :
    ((weights a n).sum : Int) = ∑ i ∈ Finset.range n, (a i).toInt := by
  have hsum : (weights a n).sum = ∑ i ∈ Finset.range n, (a i).toInt.toNat := rfl
  rw [hsum]
  push_cast
  refine Finset.sum_congr rfl fun i hi => Int.toNat_of_nonneg ?_
  exact (Int32.lt_iff_toInt_lt.mp (hpos i (Finset.mem_range.mp hi))).le

/-- A run on two or more positive weights whose total fits the `char` field. -/
theorem run_CreateHuffman (hn : 2 ≤ n) (hpos : ∀ i, i < n → 0 < a i)
    (htotal : ∑ i ∈ Finset.range n, (a i).toInt ≤ 127) (b : Nat → Ptr) (h : Heap BT) :
    ∃ q h' t, (CreateHuffman a n b).run h = .ok (q, h') ∧ Denotes h' t q ∧ Forest (weights a n) {t} := by
  have hnonneg : ∀ i ∈ Finset.range n, 0 ≤ (a i).toInt := fun i hi =>
    (Int32.lt_iff_toInt_lt.mp (hpos i (Finset.mem_range.mp hi))).le
  have hsmall : ∀ i, i < n → (a i).toInt ≤ 127 := fun i hi =>
    (Finset.single_le_sum hnonneg (Finset.mem_range.mpr hi)).trans htotal
  have hW : (weights a n).sum ≤ 127 := by
    have := sum_weights hpos
    omega
  obtain ⟨b₁, h₁, hleaves, hb⟩ := run_leaves hpos hsmall b h
  obtain ⟨b', q, h', t, hjoins, ht, hforest⟩ := run_joins hn hW (round_of_leaves hb)
  refine ⟨q, h', t, ?_, ht, hforest⟩
  rw [CreateHuffman, run_bind_of_ok hleaves, run_bind_of_ok hjoins, assigned_some, run_pure]

/-- For two or more positive weights whose total fits the `char` field,
`CreateHuffman` returns a full binary tree with exactly these weights at its
leaves, and its weighted external path length is minimal. -/
theorem CreateHuffman_optimal (a : Nat → Int32) (n : Nat) (hn : 2 ≤ n) (hpos : ∀ i, i < n → 0 < a i)
    (htotal : ∑ i ∈ Finset.range n, (a i).toInt ≤ 127) (b : Nat → Ptr) (h : Heap BT) :
    ∃ q h' t, (CreateHuffman a n b).run h = .ok (q, h') ∧ Denotes h' t q ∧ t.leaves = weights a n ∧
      ∀ S : FullTree, S.leaves = weights a n → t.pathLength 0 ≤ S.pathLength 0 := by
  obtain ⟨q, h', t, hrun, ht, hforest⟩ := run_CreateHuffman hn hpos htotal b h
  obtain ⟨hlist, hopt⟩ := hforest.optimal
  exact ⟨q, h', t, hrun, ht, hlist, hopt⟩

/-- The weights of `main`. -/
theorem CreateHuffman_optimal_example :
    ∃ q h' t, (CreateHuffman (fun i => [3, 9, 5, 12, 6, 15].getD i 0) 6 fun _ => none).run
        (.empty fun _ => default) = .ok (q, h') ∧ Denotes h' t q ∧
      t.leaves = weights (fun i => [3, 9, 5, 12, 6, 15].getD i 0) 6 ∧
      ∀ S : FullTree, S.leaves = weights (fun i => [3, 9, 5, 12, 6, 15].getD i 0) 6 →
        t.pathLength 0 ≤ S.pathLength 0 :=
  CreateHuffman_optimal _ 6 (by decide) (by decide) (by decide) _ _

end basic_data_struct.btree
