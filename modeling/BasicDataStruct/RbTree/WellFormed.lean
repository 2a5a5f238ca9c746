import BasicDataStruct.RedBlack.Balance
import BasicDataStruct.RbTree.Links

open machine machine.Exec red_black

namespace basic_data_struct.rbtree

variable {p : Ptr} {c : Color} {k n a : Nat}

/-- The nodes at and below `p`, in the order of an in-order walk along the child
links of the stored nodes. -/
inductive Inorder (h : Heap rb_node_t) : Ptr → List rb_node_t → Prop where
  | null : Inorder h none []
  | node {a : Nat} {n : rb_node_t} {before after : List rb_node_t} (hn : h.cells a = some n)
      (hleft : Inorder h n.left before) (hright : Inorder h n.right after) :
      Inorder h (some a) (before ++ n :: after)

/-- Some way down the child links from `p` to NULL crosses `k` black nodes. -/
inductive BlackPath (h : Heap rb_node_t) : Ptr → Nat → Prop where
  | null : BlackPath h none 0
  | node {a k : Nat} {n : rb_node_t} (s : Side) (hn : h.cells a = some n) (hpath : BlackPath h (n.child s) k) :
      BlackPath h (some a) (k + if n.color = BLACK then 1 else 0)

/-- The stored nodes form a red-black tree. All conditions are on the nodes as
they lie in the heap, and every allocated node is held to them. -/
structure WellFormed (h : Heap rb_node_t) (root : Ptr) : Prop where
  ordered : ∃ nodes, Inorder h root nodes ∧ nodes.Pairwise fun m n => m.key < n.key
  root_black : ∀ a n, root = some a → h.cells a = some n → n.color = BLACK ∧ n.parent = none
  red_child : ∀ a n s b child, h.cells a = some n → n.color = RED → n.child s = some b →
    h.cells b = some child → child.color = BLACK
  black_paths : ∃ k, ∀ j, BlackPath h root j → j = k
  parent_link : ∀ a n s b, h.cells a = some n → n.child s = some b →
    ∃ child, h.cells b = some child ∧ child.parent = some a

variable {h : Heap rb_node_t} {root : Ptr} {t : RBTree Cell}

/-- The walk meets the keys and the data in the order of the spelled tree. -/
theorem Spells.inorder (hs : Spells h p t) :
    ∃ nodes, Inorder h (ptr t) nodes ∧
      nodes.map (fun n => (n.key, n.data)) = t.toList.map fun x => (x.key, x.data) := by
  induction t generalizing p with
  | nil => exact ⟨[], .null, rfl⟩
  | node c l x r ihl ihr =>
    obtain ⟨hx, hl, hr⟩ := hs
    obtain ⟨before, hbefore, hmapl⟩ := ihl hl
    obtain ⟨after, hafter, hmapr⟩ := ihr hr
    refine ⟨_, .node hx hbefore hafter, ?_⟩
    simp only [List.map_append, List.map_cons, RBTree.toList, hmapl, hmapr]
    rfl

/-- A walk determines its nodes. -/
theorem Inorder.unique {nodes nodes' : List rb_node_t} (hw : Inorder h p nodes)
    (hw' : Inorder h p nodes') : nodes = nodes' := by
  induction hw generalizing nodes' with
  | null =>
    cases hw'
    rfl
  | node hn _ _ ihl ihr =>
    cases hw' with
    | node hn' hleft hright =>
      obtain rfl := Option.some.inj (hn.symm.trans hn')
      rw [ihl hleft, ihr hright]

/-- A way down from a spelled node goes on below one of its children. -/
theorem Spells.blackPath_node {l r : RBTree Cell} {x : Cell}
    (hs : Spells h p (.node c l x r)) (hpath : BlackPath h (some x.addr) k) :
    ∃ j, k = j + (if c = BLACK then 1 else 0) ∧ (BlackPath h (ptr l) j ∨ BlackPath h (ptr r) j) := by
  cases hpath with
  | node s hn hpath =>
    obtain rfl := Option.some.inj (hs.1.symm.trans hn)
    rw [record_color]
    cases s with
    | left => exact ⟨_, rfl, .inl hpath⟩
    | right => exact ⟨_, rfl, .inr hpath⟩

theorem Spells.blackPath (hs : Spells h p t) (hbal : Balanced t c n) (hpath : BlackPath h (ptr t) k) : k = n := by
  induction hbal generalizing p k with
  | nil =>
    cases hpath
    rfl
  | red x hl hr ihl ihr =>
    obtain ⟨j, rfl, hleft | hright⟩ := hs.blackPath_node hpath
    · exact ihl hs.2.1 hleft
    · exact ihr hs.2.2 hright
  | black x hl hr ihl ihr =>
    obtain ⟨j, rfl, hleft | hright⟩ := hs.blackPath_node hpath
    · exact congrArg (· + 1) (ihl hs.2.1 hleft)
    · exact congrArg (· + 1) (ihr hs.2.2 hright)

/-- Every allocated node is the root of a subtree of the spelled tree. -/
theorem Repr.exists_focus {n : rb_node_t} (hr : Repr h root t) (ha : h.cells a = some n) (s : Side) :
    ∃ ctx c x near far, t = Ctx.plug ctx (.mk s c x near far) ∧ a = x.addr ∧
      n = x.record s c (ptr near) (ptr far) (ctxPtr ctx) := by
  have hmem : a ∈ addrs t := by
    by_contra hout
    rw [hr.exact a hout] at ha
    cases ha
  obtain ⟨ctx, c, x, near, far, rfl, rfl⟩ := exists_plug_mk hmem s
  exact ⟨ctx, c, x, near, far, rfl, rfl, Option.some.inj (ha.symm.trans hr.cells_focus)⟩

/-- The child of an allocated node, with its colour and its link back. -/
theorem Repr.child_focus {b : Nat} {n : rb_node_t} {s : Side} (hr : Repr h root t) (ha : h.cells a = some n)
    (hb : n.child s = some b) :
    ∃ ctx x near far child, t = Ctx.plug ctx (.mk s n.color x near far) ∧ h.cells b = some child ∧
      child.parent = some a ∧ child.color = near.rootColor := by
  obtain ⟨ctx, c, x, near, far, rfl, rfl, rfl⟩ := hr.exists_focus ha s
  obtain ⟨_, ht⟩ := spells_plug.mp hr.spells
  obtain ⟨_, hnear, _⟩ := spells_mk.mp ht
  rw [record_child] at hb
  rw [record_color]
  cases near with
  | nil => cases hb
  | node d l y r =>
    cases hb
    exact ⟨ctx, x, _, far, _, rfl, hnear.1, rfl, rfl⟩

/-- A stored tree that is balanced and sorted is well formed node by node. -/
theorem Repr.wellFormed (hr : Repr h root t) (hbal : Balanced t .black n)
    (hs : t.toList.Pairwise fun x y => x.key < y.key) : WellFormed h root where
  ordered := by
    obtain ⟨nodes, hwalk, hmap⟩ := hr.spells.inorder
    have hkeys : nodes.map (·.key) = t.toList.map (·.key) := by
      simpa [Function.comp_def] using congrArg (List.map Prod.fst) hmap
    refine ⟨nodes, hr.root_eq ▸ hwalk, ?_⟩
    rw [← List.pairwise_map (f := fun n : rb_node_t => n.key) (R := (· < ·)), hkeys, List.pairwise_map]
    exact hs
  root_black := by
    intro a v ha hv
    rw [hr.root_eq] at ha
    cases t with
    | nil => cases ha
    | node c l x r =>
      cases ha
      obtain rfl := Option.some.inj (hv.symm.trans hr.spells.1)
      exact ⟨hbal.rootColor_eq, rfl⟩
  red_child := by
    intro a v s b child ha hred hb hchild
    obtain ⟨ctx, x, near, far, child', rfl, hchild', _, hcolor⟩ := hr.child_focus ha hb
    obtain rfl := Option.some.inj (hchild.symm.trans hchild')
    obtain ⟨k, hsub, _⟩ := Fits.of_plug hbal
    rw [hred, RBTree.rootColor_mk] at hsub
    rw [hcolor, hsub.red_children.2.1.rootColor_eq]
  black_paths := by
    refine ⟨n, fun k hpath => ?_⟩
    rw [hr.root_eq] at hpath
    exact hr.spells.blackPath hbal hpath
  parent_link := by
    intro a v s b ha hb
    obtain ⟨_, _, _, _, child, _, hchild, hparent, _⟩ := hr.child_focus ha hb
    exact ⟨child, hchild, hparent⟩

end basic_data_struct.rbtree
