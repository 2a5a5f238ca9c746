import Mathlib.Algebra.Group.Nat.Defs
import BasicDataStruct.RbTree.Links

open machine machine.Exec red_black

namespace basic_data_struct.rbtree

variable {a b key : key_t} {ctx : Ctx Cell} {c : Color} {l r t : RBTree Cell} {x : Cell} {h : Heap rb_node_t}
  {root : Ptr}

/-- Two keys whose 32-bit difference does not wrap, whichever is subtracted. -/
def Agree (a b : key_t) : Prop := (a.toInt - b.toInt).natAbs < 2 ^ 31

instance (a b : key_t) : Decidable (Agree a b) := inferInstanceAs (Decidable (_ < _))

/-- Symmetric order is strictly increasing in the keys. -/
def Sorted (t : RBTree Cell) : Prop := t.toList.Pairwise fun x y => x.key < y.key

theorem toInt_sub_of_agree (h : Agree a b) : (a - b).toInt = a.toInt - b.toInt := by
  rw [Int32.toInt_sub]
  unfold Agree at h
  apply Int.bmod_eq_of_le <;> omega

/-- The sign of the difference decides as a direct comparison does. -/
theorem sub_pos_iff_of_agree (h : Agree a b) : 0 < a - b ↔ b < a := by
  rw [Int32.lt_iff_toInt_lt, Int32.lt_iff_toInt_lt, toInt_sub_of_agree h, Int32.toInt_zero]
  omega

theorem sub_neg_iff_of_agree (h : Agree a b) : a - b < 0 ↔ a < b := by
  rw [Int32.lt_iff_toInt_lt, Int32.lt_iff_toInt_lt, toInt_sub_of_agree h, Int32.toInt_zero]
  omega

/-- A position at which a key belongs: the keys before it are smaller and the
keys after it are larger. -/
def Placed (ctx : Ctx Cell) (key : key_t) : Prop :=
  (∀ x ∈ ctx.before, x.key < key) ∧ ∀ x ∈ ctx.after, key < x.key

theorem Placed.left (hp : Placed ctx key) (hs : Sorted (ctx.plug (.node c l x r))) (hlt : key < x.key) :
    Placed (⟨.left, c, x, r⟩ :: ctx) key := by
  refine ⟨by simpa [Ctx.before] using hp.1, fun y hy => ?_⟩
  simp only [Ctx.after, List.cons_append, List.mem_cons, List.mem_append] at hy
  rcases hy with rfl | hy | hy
  · exact hlt
  · rw [Sorted, Ctx.toList_plug, RBTree.toList] at hs
    simp only [List.pairwise_append, List.pairwise_cons] at hs
    exact Int32.lt_trans hlt (hs.2.1.1.2.1.1 y hy)
  · exact hp.2 y hy

theorem Placed.right (hp : Placed ctx key) (hs : Sorted (ctx.plug (.node c l x r))) (hlt : x.key < key) :
    Placed (⟨.right, c, x, l⟩ :: ctx) key := by
  refine ⟨fun y hy => ?_, by simpa [Ctx.after] using hp.2⟩
  simp only [Ctx.before, List.mem_append, List.mem_singleton] at hy
  rcases hy with hy | hy | rfl
  · exact hp.1 y hy
  · rw [Sorted, Ctx.toList_plug, RBTree.toList] at hs
    simp only [List.pairwise_append, List.pairwise_cons] at hs
    exact Int32.lt_trans (hs.2.1.1.2.2 y hy x (by simp)) hlt
  · exact hlt

/-- A key whose place is free does not occur in the tree. -/
theorem Placed.notMem (hp : Placed ctx key) : ¬ ∃ x ∈ (ctx.plug .nil).toList, x.key = key := by
  rintro ⟨x, hx, rfl⟩
  rw [Ctx.toList_plug] at hx
  simp only [RBTree.toList, List.nil_append, List.mem_append] at hx
  rcases hx with hx | hx
  · exact absurd (hp.1 x hx) Int32.lt_irrefl
  · exact absurd (hp.2 x hx) Int32.lt_irrefl

/-- One round of the search at a node: the sign of the difference of the keys
decides between the two children and the end. -/
theorem Spells.run_search_node {p : Ptr} (hs : Spells h p (.node c l x r)) (key : key_t) (save parent : Ptr) :
    (rb_search_auxiliary_body key save (some x.addr, parent)).run h =
      .ok (if 0 < x.key - key then .inl (ptr l, some x.addr)
        else if x.key - key < 0 then .inl (ptr r, some x.addr) else .inr (some x.addr, save), h) := by
  simp only [rb_search_auxiliary_body, reduceCtorEq, if_false, run_bind, run_load hs.1, record_key]
  split_ifs <;> rfl

/-- Where a search for a key in a tree ends. -/
inductive Found (t : RBTree Cell) (key : key_t) (save : Ptr) : Ptr × Ptr → Prop where
  | hit {ctx : Ctx Cell} {c : Color} {l r : RBTree Cell} {x : Cell}
      (htree : t = ctx.plug (.node c l x r)) (hkey : x.key = key) : Found t key save (some x.addr, save)
  | miss {ctx : Ctx Cell} (htree : t = ctx.plug .nil) (hplaced : Placed ctx key) :
      Found t key save (none, ctxPtr ctx)

/-- The descent is at the root of a subtree in which the key belongs. -/
def SearchInv (h : Heap rb_node_t) (t : RBTree Cell) (key : key_t) (n : Nat) (locals : Ptr × Ptr)
    (h' : Heap rb_node_t) : Prop :=
  h' = h ∧ ∃ ctx u, t = Ctx.plug ctx u ∧ locals = (ptr u, ctxPtr ctx) ∧ Placed ctx key ∧ u.toList.length = n

/-- One round of the search goes down one level or ends. -/
theorem searchInv_step (hr : Repr h root t) (hs : Sorted t) (hagree : ∀ x ∈ t.toList, Agree x.key key) (save : Ptr)
    (n : Nat) (locals : Ptr × Ptr) (h' : Heap rb_node_t) (hinv : SearchInv h t key n locals h') :
    (∃ m next h'', m < n ∧ (rb_search_auxiliary_body key save locals).run h' = .ok (.inl next, h'') ∧
      SearchInv h t key m next h'') ∨
    ∃ res h'', (rb_search_auxiliary_body key save locals).run h' = .ok (.inr res, h'') ∧
      h'' = h ∧ Found t key save res := by
  obtain ⟨rfl, ctx, u, rfl, rfl, hp, rfl⟩ := hinv
  cases u with
  | nil => exact .inr ⟨_, _, rfl, rfl, .miss rfl hp⟩
  | node c l x r =>
    have hxk : Agree x.key key := hagree x (by simp [Ctx.toList_plug, RBTree.toList])
    rw [ptr_node, (spells_plug.mp hr.spells).2.run_search_node]
    simp only [sub_pos_iff_of_agree hxk, sub_neg_iff_of_agree hxk]
    by_cases hlt : key < x.key
    · rw [if_pos hlt]
      exact .inl ⟨_, _, _, by simp [RBTree.toList], rfl, rfl, _, l, rfl, rfl, hp.left hs hlt, rfl⟩
    · rw [if_neg hlt]
      by_cases hgt : x.key < key
      · rw [if_pos hgt]
        exact .inl ⟨_, _, _, by simp [RBTree.toList]; omega, rfl, rfl, _, r, rfl, rfl, hp.right hs hgt, rfl⟩
      · rw [if_neg hgt]
        have hkey : x.key = key := Int32.le_antisymm (Int32.not_lt.mp hlt) (Int32.not_lt.mp hgt)
        exact .inr ⟨_, _, rfl, rfl, .hit rfl hkey⟩

/-- A search ends within as many rounds as the tree has nodes, leaves the heap
alone, and finds the key or the place where it belongs. -/
theorem run_rb_search_auxiliary (hr : Repr h root t)
    (hs : Sorted t) (hagree : ∀ x ∈ t.toList, Agree x.key key) (save : Ptr) :
    ∃ res, (∀ fuel, t.toList.length < fuel →
        (rb_search_auxiliary fuel key root save).run h = .ok (res, h)) ∧ Found t key save res := by
  have hinit : SearchInv h t key t.toList.length (root, none) h :=
    ⟨rfl, [], t, rfl, by rw [hr.root_eq]; rfl, by simp [Placed, Ctx.before, Ctx.after], rfl⟩
  obtain ⟨res, h', hrun, rfl, hfound⟩ := loop_total (SearchInv h t key) (fun res h' => h' = h ∧ Found t key save res)
    (searchInv_step hr hs hagree save) hinit
  exact ⟨res, hrun, hfound⟩

/-- The descent is at the root of some subtree. -/
def DescentInv (h : Heap rb_node_t) (t : RBTree Cell) (n : Nat) (locals : Ptr × Ptr) (h' : Heap rb_node_t) : Prop :=
  h' = h ∧ ∃ ctx u, t = Ctx.plug ctx u ∧ locals.1 = ptr u ∧ u.toList.length = n

/-- In a tree without the key, in any order, a round goes one level down or leaves with null. -/
theorem descentInv_step (hr : Repr h root t)
    (hmem : ¬ ∃ x ∈ t.toList, x.key = key) (save : Ptr) (n : Nat) (locals : Ptr × Ptr) (h' : Heap rb_node_t)
    (hinv : DescentInv h t n locals h') :
    (∃ m next h'', m < n ∧ (rb_search_auxiliary_body key save locals).run h' = .ok (.inl next, h'') ∧
      DescentInv h t m next h'') ∨
    ∃ res h'', (rb_search_auxiliary_body key save locals).run h' = .ok (.inr res, h'') ∧ h'' = h ∧ res.1 = none := by
  obtain ⟨node, parent⟩ := locals
  obtain ⟨rfl, ctx, u, rfl, hnode, rfl⟩ := hinv
  simp only at hnode
  subst hnode
  cases u with
  | nil => exact .inr ⟨_, _, rfl, rfl, rfl⟩
  | node c l x r =>
    rw [ptr_node, (spells_plug.mp hr.spells).2.run_search_node]
    by_cases hpos : 0 < x.key - key
    · rw [if_pos hpos]
      exact .inl ⟨_, _, _, by simp [RBTree.toList], rfl, rfl, ⟨.left, c, x, r⟩ :: ctx, l, rfl, rfl, rfl⟩
    · rw [if_neg hpos]
      by_cases hneg : x.key - key < 0
      · rw [if_pos hneg]
        exact .inl ⟨_, _, _, by simp [RBTree.toList]; omega, rfl, rfl, ⟨.right, c, x, l⟩ :: ctx, r, rfl, rfl, rfl⟩
      · have hzero : x.key - key = 0 := Int32.le_antisymm (Int32.not_lt.mp hpos) (Int32.not_lt.mp hneg)
        have hkey : x.key = key := by grind
        exact absurd ⟨x, by simp [Ctx.toList_plug, RBTree.toList], hkey⟩ hmem

/-- A key that no node has is not found, whatever the keys of the nodes are: the
search stops at a node only when the difference of the keys is zero. -/
theorem run_rb_search_auxiliary_of_notMem (hr : Repr h root t) (hmem : ¬ ∃ x ∈ t.toList, x.key = key) (save : Ptr) :
    ∃ save', ∀ fuel, t.toList.length < fuel →
      (rb_search_auxiliary fuel key root save).run h = .ok ((none, save'), h) := by
  have hinit : DescentInv h t t.toList.length (root, none) h := ⟨rfl, [], t, rfl, hr.root_eq, rfl⟩
  obtain ⟨⟨node, save'⟩, h', hrun, rfl, hnone⟩ :=
    loop_total (DescentInv h t) (fun (res : Ptr × Ptr) h' => h' = h ∧ res.1 = none)
      (descentInv_step hr hmem save) hinit
  simp only at hnone
  subst hnone
  exact ⟨save', hrun⟩

end basic_data_struct.rbtree
