import BasicDataStruct.Huffman.Greedy
import BasicDataStruct.Btree.HuffmanTree

open machine machine.Exec huffman

namespace basic_data_struct.btree

variable {h h' : Heap BT} {t : FullTree} {p : Ptr} {j k : Nat}

/-- The nodes at and below `p` spell a full tree. The weight of the tree stands in
the `data` field of its root. -/
def Denotes (h : Heap BT) : FullTree → Ptr → Prop
  | .leaf w, p => ∃ a data, p = some a ∧ h.cells a = some ⟨data, none, none⟩ ∧ data.toInt = w
  | .node l r, p => ∃ a data left right, p = some a ∧ h.cells a = some ⟨data, left, right⟩ ∧
      data.toInt = (FullTree.node l r).weight ∧ Denotes h l left ∧ Denotes h r right

theorem Denotes.root (ht : Denotes h t p) :
    ∃ a node, p = some a ∧ h.cells a = some node ∧ node.data.toInt = t.weight := by
  cases t with
  | leaf w =>
    obtain ⟨a, data, hp, hcell, hdata⟩ := ht
    exact ⟨a, _, hp, hcell, hdata⟩
  | node l r =>
    obtain ⟨a, data, left, right, hp, hcell, hdata, _⟩ := ht
    exact ⟨a, _, hp, hcell, hdata⟩

/-- Building further nodes does not change a tree. -/
theorem Denotes.mono (ht : Denotes h t p)
    (hext : ∀ a node, h.cells a = some node → h'.cells a = some node) : Denotes h' t p := by
  induction t generalizing p with
  | leaf w =>
    obtain ⟨a, data, hp, hcell, hdata⟩ := ht
    exact ⟨a, data, hp, hext _ _ hcell, hdata⟩
  | node l r ihl ihr =>
    obtain ⟨a, data, left, right, hp, hcell, hdata, hl, hr⟩ := ht
    exact ⟨a, data, left, right, hp, hext _ _ hcell, hdata, ihl hl, ihr hr⟩

/-- The array `b` holds the trees `f`, with NULL where there is none. -/
structure Holds (n : Nat) (h : Heap BT) (b : Nat → Ptr) (f : Nat → Option FullTree) : Prop where
  null : ∀ j, j < n → f j = none → b j = none
  denotes : ∀ j t, j < n → f j = some t → Denotes h t (b j)

/-- The indices at which there is a tree. -/
def filled (n : Nat) (f : Nat → Option FullTree) : Finset Nat := (Finset.range n).filter fun j => (f j).isSome

theorem mem_filled {n : Nat} {f : Nat → Option FullTree} : j ∈ filled n f ↔ j < n ∧ ∃ t, f j = some t := by
  simp [filled, Option.isSome_iff_exists]

/-- The weight at an index. -/
def weightAt (f : Nat → Option FullTree) (j : Nat) : Nat := ((f j).map FullTree.weight).getD 0

variable {n : Nat} {h : Heap BT} {b : Nat → Ptr} {f : Nat → Option FullTree}

theorem weightAt_eq (hf : f k = some t) : weightAt f k = t.weight := by
  rw [weightAt, hf]
  rfl

theorem run_entry (hk : k < n) : (entry n b k).run h = .ok (b k, h) := by
  rw [entry, if_pos ⟨by omega, by omega⟩, run_pure, Int.toNat_natCast]

theorem Holds.ne_none_iff (hb : Holds n h b f) (hj : j < n) : b j ≠ none ↔ j ∈ filled n f := by
  rw [mem_filled]
  cases hf : f j with
  | none => simp [hb.null j hj hf]
  | some t =>
    obtain ⟨a, node, hp, _⟩ := (hb.denotes j t hj hf).root
    simp [hp, hj]

/-- The statement `b[k]->data` reads the weight at an index with a tree. -/
theorem Holds.run_load (hb : Holds n h b f) (hk : k ∈ filled n f) :
    ∃ node, (load (b k)).run h = .ok (node, h) ∧ node.data.toInt = weightAt f k := by
  obtain ⟨hkn, t, hf⟩ := mem_filled.mp hk
  obtain ⟨a, node, hp, hcell, hdata⟩ := (hb.denotes k t hkn hf).root
  refine ⟨node, ?_, ?_⟩
  · rw [hp, Exec.run_load hcell]
  · rw [hdata, weightAt_eq hf]

theorem Holds.mono (hb : Holds n h b f)
    (hext : ∀ a node, h.cells a = some node → h'.cells a = some node) : Holds n h' b f :=
  ⟨hb.null, fun j t hj hf => (hb.denotes j t hj hf).mono hext⟩

theorem run_setEntry (hk : k < n) (p : Ptr) : (setEntry n b k p).run h = .ok (Function.update b k p, h) := by
  rw [setEntry, if_pos ⟨by omega, by omega⟩, run_pure, Int.toNat_natCast]

/-- Storing a new tree at an index. -/
theorem Holds.update (hb : Holds n h b f) (ht : Denotes h t p) :
    Holds n h (Function.update b k p) (Function.update f k (some t)) := by
  refine ⟨fun j hj hf => ?_, fun j u hj hf => ?_⟩
  · by_cases hjk : j = k
    · rw [hjk, Function.update_self] at hf
      cases hf
    · rw [Function.update_of_ne hjk] at hf ⊢
      exact hb.null j hj hf
  · by_cases hjk : j = k
    · rw [hjk, Function.update_self] at hf ⊢
      cases hf
      exact ht
    · rw [Function.update_of_ne hjk] at hf ⊢
      exact hb.denotes j u hj hf

/-- Emptying an index. -/
theorem Holds.clear (hb : Holds n h b f) (k : Nat) :
    Holds n h (Function.update b k none) (Function.update f k none) := by
  refine ⟨fun j hj hf => ?_, fun j u hj hf => ?_⟩
  · by_cases hjk : j = k
    · rw [hjk, Function.update_self]
    · rw [Function.update_of_ne hjk] at hf ⊢
      exact hb.null j hj hf
  · by_cases hjk : j = k
    · rw [hjk, Function.update_self] at hf
      cases hf
    · rw [Function.update_of_ne hjk] at hf ⊢
      exact hb.denotes j u hj hf

end basic_data_struct.btree
