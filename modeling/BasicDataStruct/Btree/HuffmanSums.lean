import BasicDataStruct.Btree.HuffmanOptimal

open machine machine.Exec huffman

namespace basic_data_struct.btree

/-- The pointer `p` leads to a full tree as it lies in the heap: its root stores
`data`, its leaves store `leaves`, and every internal node stores the sum of what
its two children store. -/
inductive SumTree (h : Heap BT) : Ptr → Int8 → Multiset Int → Prop where
  | leaf {a : Nat} {data : Int8} (hcell : h.cells a = some ⟨data, none, none⟩) :
      SumTree h (some a) data {data.toInt}
  | node {a : Nat} {data dataL dataR : Int8} {left right : Ptr} {leavesL leavesR : Multiset Int}
      (hcell : h.cells a = some ⟨data, left, right⟩) (hleft : SumTree h left dataL leavesL)
      (hright : SumTree h right dataR leavesR) (hsum : data.toInt = dataL.toInt + dataR.toInt) :
      SumTree h (some a) data (leavesL + leavesR)

variable {h : Heap BT}

/-- The sums of the children carry the total of the leaves up to the root. -/
theorem SumTree.data_eq_sum {p : Ptr} {data : Int8} {leaves : Multiset Int} (ht : SumTree h p data leaves) :
    data.toInt = leaves.sum := by
  induction ht with
  | leaf _ => rw [Multiset.sum_singleton]
  | node _ _ _ hsum ihl ihr => rw [hsum, ihl, ihr, Multiset.sum_add]

/-- A tree whose nodes store their weights is one of sums. -/
theorem Denotes.sumTree {t : FullTree} {p : Ptr} (ht : Denotes h t p) :
    ∃ data : Int8, data.toInt = t.weight ∧ SumTree h p data (t.leaves.map fun w : Nat => (w : Int)) := by
  induction t generalizing p with
  | leaf w =>
    obtain ⟨a, data, rfl, hcell, hdata⟩ := ht
    refine ⟨data, hdata, ?_⟩
    rw [FullTree.leaves, Multiset.map_singleton, ← hdata]
    exact .leaf hcell
  | node l r ihl ihr =>
    obtain ⟨a, data, left, right, rfl, hcell, hdata, hl, hr⟩ := ht
    obtain ⟨dataL, hdataL, hleft⟩ := ihl hl
    obtain ⟨dataR, hdataR, hright⟩ := ihr hr
    refine ⟨data, hdata, ?_⟩
    rw [FullTree.leaves, Multiset.map_add]
    refine .node hcell hleft hright ?_
    rw [hdata, FullTree.weight, hdataL, hdataR, Nat.cast_add]

/-- The variable `q` has a value after the main loop only when there was a round. -/
theorem two_le_of_run {a : Nat → Int32} {n : Nat} {b : Nat → Ptr} {q : Ptr} {h' : Heap BT}
    (hrun : (CreateHuffman a n b).run h = .ok (q, h')) : 2 ≤ n := by
  by_contra hn
  have hnone : n - 1 = 0 := by omega
  rw [CreateHuffman, hnone] at hrun
  obtain ⟨b₁, h₁, _, hrest⟩ := run_bind_eq_ok_iff.mp hrun
  cases hrest

/-- For positive weights, `CreateHuffman` returns a tree with the `n` weights at
its leaves, in whose internal nodes the sums of the children stand and the total
in its root, when there are two weights or more and the `char` field of a node
can hold their total; in no other case does it. -/
theorem CreateHuffman_sums_iff (a : Nat → Int32) (n : Nat) (hpos : ∀ i, i < n → 0 < a i) (b : Nat → Ptr)
    (h : Heap BT) :
    (∃ q h' data leaves, (CreateHuffman a n b).run h = .ok (q, h') ∧ SumTree h' q data leaves ∧
      leaves.card = n ∧ (leaves = (Multiset.range n).map fun i => (a i).toInt) ∧
      data.toInt = ∑ i ∈ Finset.range n, (a i).toInt) ↔
    2 ≤ n ∧ ∑ i ∈ Finset.range n, (a i).toInt ≤ 127 := by
  constructor
  · rintro ⟨q, h', data, leaves, hrun, _, _, _, hdata⟩
    have hmax := data.toInt_lt
    exact ⟨two_le_of_run hrun, by omega⟩
  · rintro ⟨hn, htotal⟩
    obtain ⟨q, h', t, hrun, ht, hforest⟩ := run_CreateHuffman hn hpos htotal b h
    obtain ⟨hlist, _⟩ := hforest.optimal
    obtain ⟨data, _, hsum⟩ := ht.sumTree
    have hleaves : (t.leaves.map fun w : Nat => (w : Int)) = (Multiset.range n).map fun i => (a i).toInt := by
      rw [hlist, weights, Multiset.map_map]
      refine Multiset.map_congr rfl fun i hi => Int.toNat_of_nonneg ?_
      exact (Int32.lt_iff_toInt_lt.mp (hpos i (Multiset.mem_range.mp hi))).le
    rw [hleaves] at hsum
    exact ⟨q, h', data, _, hrun, hsum, by rw [Multiset.card_map, Multiset.card_range], rfl, hsum.data_eq_sum⟩

/-- The weights of `main`. -/
theorem CreateHuffman_sums_iff_main :
    ∃ q h' data leaves, (CreateHuffman (fun i => [3, 9, 5, 12, 6, 15].getD i 0) 6 fun _ => none).run
        (.empty fun _ => default) = .ok (q, h') ∧ SumTree h' q data leaves ∧ leaves.card = 6 ∧
      (leaves = (Multiset.range 6).map fun i => ([3, 9, 5, 12, 6, 15].getD i (0 : Int32)).toInt) ∧
      data.toInt = ∑ i ∈ Finset.range 6, ([3, 9, 5, 12, 6, 15].getD i (0 : Int32)).toInt :=
  (CreateHuffman_sums_iff (fun i => [3, 9, 5, 12, 6, 15].getD i 0) 6 (by decide) _ _).mpr ⟨by decide, by decide⟩

/-- For the one weight 1 the value of `q` is read before it was ever assigned. For
the two weights 100 the root of the tree stores -56, though 200 fits an `int`. -/
theorem CreateHuffman_sums_wrong :
    (CreateHuffman (fun _ => 1) 1 fun _ => none).run (.empty fun _ => default) = .error .uninit ∧
    ∃ a h' root, (CreateHuffman (fun _ => 100) 2 fun _ => none).run (.empty fun _ => default) = .ok (some a, h') ∧
      h'.cells a = some root ∧ root.data.toInt = -56 ∧ ∑ _i ∈ Finset.range 2, (100 : Int32).toInt = 200 :=
  ⟨rfl, _, _, _, rfl, rfl, rfl, rfl⟩

end basic_data_struct.btree
