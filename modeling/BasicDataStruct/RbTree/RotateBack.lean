import BasicDataStruct.RbTree.Rotate

open machine machine.Exec red_black

namespace basic_data_struct.rbtree

variable {h : Heap rb_node_t} {root : Ptr}

/-- The links that a rotation of `x` with its child `y` to the side `s` may
change. The nodes were `nx` and `ny`; of the others only the inner subtree's
root and the node above `x` get one new link each. -/
structure RotatedLinks (s : Side) (x y : Nat) (nx ny : rb_node_t) (h h' : Heap rb_node_t) : Prop where
  sunk : h'.cells x = some ((nx.setChild s.flip (ny.child s)).setParent (some y))
  risen : h'.cells y = some ((ny.setChild s (some x)).setParent nx.parent)
  inner : ∀ b, ny.child s = some b → h'.cells b = (h.cells b).map (·.setParent (some x))
  above : ∀ p, nx.parent = some p →
    h'.cells p = (h.cells p).map fun n => n.setChild (n.sideOf (some x)) (some y)
  others : ∀ q, q ≠ x → q ≠ y → ny.child s ≠ some q → nx.parent ≠ some q → h'.cells q = h.cells q

/-- What a rotation of `x` with its child `y` in the tree `t` has to achieve. -/
structure Rotation (s : Side) (x y : Nat) (t : RBTree Cell) (h : Heap rb_node_t) (root : Ptr)
    (h' : Heap rb_node_t) (root' : Ptr) : Prop where
  linked : ∃ t', Linked h' root' t' ∧ t'.toList = t.toList
  root_eq : root' = if root = some x then some y else root
  links : ∃ nx ny, h.cells x = some nx ∧ h.cells y = some ny ∧ RotatedLinks s x y nx ny h h'

section Rotated

variable {ctx : Ctx Cell} {s : Side} {cx cy : Color} {x y : Cell} {a b e : RBTree Cell}

theorem rotated_cells_of_ne {q : Nat} (hx : q ≠ x.addr) (hy : q ≠ y.addr) (hb : ptr b ≠ some q)
    (hctx : ctxPtr ctx ≠ some q) : (rotated h s ctx x y b).cells q = h.cells q := by
  rw [rotated, Heap.alter_cells_of_ne _ _ hx, relinked_cells_of_ne hctx, turned, Heap.alter_cells_of_ne _ _ hy,
    Heap.alter_cells_of_ne _ _ hy, reparented_cells_of_ne hb, Heap.alter_cells_of_ne _ _ hx]

theorem rotated_next : (rotated h s ctx x y b).next = h.next := by
  cases ctx <;> cases b <;> rfl

theorem rotated_raw : (rotated h s ctx x y b).raw = h.raw := by
  cases ctx <;> cases b <;> rfl

/-- Only nodes of the tree are changed. -/
theorem rotated_cells_of_notMem {q : Nat} (hq : q ∉ addrs (ctx.plug (.mk s cx x a (.mk s cy y b e)))) :
    (rotated h s ctx x y b).cells q = h.cells q := by
  simp only [mem_addrs_plug, mem_addrs_mk, not_or] at hq
  obtain ⟨⟨hx, _, hy, hb, _⟩, hctx⟩ := hq
  exact rotated_cells_of_ne hx hy (fun heq => hb (ptr_mem_addrs heq)) fun heq => hctx (ctxPtr_mem_ctxAddrs heq)

/-- The risen node with its child seen from the other side. -/
theorem mk_rotate_flip : RBTree.mk s cy y (.mk s cx x a b) e = .mk s.flip cy y e (.mk s.flip cx x b a) := by
  simp only [RBTree.mk_flip]

/-- The opposite rotation of the risen child puts every link back. -/
theorem rotated_rotated (hl : Linked h root (ctx.plug (.mk s cx x a (.mk s cy y b e)))) :
    rotated (rotated h s ctx x y b) s.flip ctx y x b = h := by
  have hl' := hl.rotated
  rw [mk_rotate_flip] at hl'
  have hback := hl'.rotated.spells
  rw [mk_rotate_flip, Side.flip_flip] at hback
  refine Heap.ext (funext fun q => ?_) (rotated_next.trans rotated_next) (rotated_raw.trans rotated_raw)
  by_cases hq : q ∈ addrs (ctx.plug (.mk s cx x a (.mk s cy y b e)))
  · exact hback.cells_eq hl.spells hq
  · have hq' := hq
    rw [← addrs_rotate, mk_rotate_flip] at hq'
    rw [rotated_cells_of_notMem hq', rotated_cells_of_notMem hq]

/-- The nodes of the rotated tree, read off the two heaps. -/
theorem rotatedLinks (hl : Linked h root (ctx.plug (.mk s cx x a (.mk s cy y b e)))) :
    RotatedLinks s x.addr y.addr (x.record s cx (ptr a) (some y.addr) (ctxPtr ctx))
      (y.record s cy (ptr b) (ptr e) (some x.addr)) h (rotated h s ctx x y b) := by
  have hd := rotateDistinct_of_nodup hl.nodup
  obtain ⟨hctx, ht⟩ := spells_plug.mp hl.spells
  obtain ⟨hctx', ht'⟩ := spells_plug.mp hl.rotated.spells
  obtain ⟨hy', hsub', he'⟩ := spells_mk.mp ht'
  obtain ⟨hx', ha', hb'⟩ := spells_mk.mp hsub'
  obtain ⟨-, -, hsub⟩ := spells_mk.mp ht
  obtain ⟨-, hb, -⟩ := spells_mk.mp hsub
  refine ⟨by simpa using hx', by simpa using hy', fun q hq => ?_, fun p hp => ?_, fun q hqx hqy hqb hqp => ?_⟩
  · rw [record_child] at hq
    cases b with
    | nil => simp at hq
    | node c l z r =>
      obtain rfl := Option.some.inj hq
      rw [hb'.1, hb.1, Option.map_some, record_setParent]
  · rw [record_parent] at hp
    cases ctx with
    | nil => simp at hp
    | cons f ctx =>
      obtain rfl := Option.some.inj hp
      -- the sibling of `x` is another node, so the test of the parent's link finds `x`
      have hne : some x.addr ≠ ptr f.sibling := fun heq => hd.above.1 (by simp [ptr_mem_addrs heq.symm])
      rw [ptr_mk] at hctx hctx'
      rw [hctx'.1, hctx.1, Option.map_some, record_sideOf _ _ _ _ _ _ hne, record_setChild]
  · rw [record_child] at hqb
    rw [record_parent] at hqp
    exact rotated_cells_of_ne hqx hqy hqb hqp

/-- Inside a tree, the place of the rotated node decides which root is returned. -/
theorem Linked.root_eq_focus (hl : Linked h root (ctx.plug (.mk s cx x a b))) : ctx = [] ↔ root = some x.addr := by
  rw [hl.root_eq]
  cases ctx with
  | nil => simp
  | cons f ctx =>
    have hne := ptr_ne_ptr_plug hl.nodup
    rw [ptr_mk] at hne
    simpa using hne.symm

end Rotated

/-- A rotation and the opposite rotation of the risen child, on any linked tree. -/
theorem Linked.rb_rotate {t : RBTree Cell} {s : Side} {x y : Nat} {nx : rb_node_t} (hl : Linked h root t)
    (hx : x ∈ addrs t) (hnx : h.cells x = some nx) (hy : nx.child s.flip = some y) :
    ∃ root' h', (rbtree.rb_rotate s (some x) root).run h = .ok (root', h') ∧
      Rotation s x y t h root h' root' ∧
      (rbtree.rb_rotate s.flip (some y) root').run h' = .ok (root, h) := by
  obtain ⟨ctx, cx, x, a, far, rfl, rfl⟩ := exists_plug_mk hx s
  have hcell := (spells_mk.mp (spells_plug.mp hl.spells).2).1
  obtain rfl := Option.some.inj (hnx.symm.trans hcell)
  rw [record_child_flip] at hy
  have hfar : far ≠ .nil := by
    rintro rfl
    simp at hy
  obtain ⟨cy, y, b, e, rfl⟩ := far.eq_mk_of_ne_nil hfar s
  obtain rfl := Option.some.inj ((ptr_mk ..).symm.trans hy)
  have hroot := hl.root_eq_focus
  have hycell := (spells_mk.mp (spells_mk.mp (spells_plug.mp hl.spells).2).2.2).1
  have hl' := hl.rotated
  refine ⟨_, _, run_rb_rotate hl.spells (rotateDistinct_of_nodup hl.nodup) root, ⟨?_, ?_, ?_⟩, ?_⟩
  · exact ⟨_, hl', (Ctx.toList_plug_congr ctx (RBTree.toList_rotate s cx cy cy cx x y a b e)).symm⟩
  · simp only [hroot]
  · exact ⟨_, _, hcell, hycell, by rw [ptr_mk]; exact rotatedLinks hl⟩
  · rw [mk_rotate_flip] at hl'
    rw [run_rb_rotate hl'.spells (rotateDistinct_of_nodup hl'.nodup), rotated_rotated hl]
    split
    · next hnil => rw [hroot.mp hnil]
    · rfl

/-- A rotation at any node of a linked tree, whatever its colours and keys, changes the links as it should, and the
opposite one at the node that rose gives back the heap and the root as they were. -/
theorem rb_rotate_restores {t : RBTree Cell} {x : Nat} (hl : Linked h root t) (hx : x ∈ addrs t) :
    ∃ nx, h.cells x = some nx ∧
      (∀ y, nx.right = some y → ∃ root' h', (rb_rotate_left (some x) root).run h = .ok (root', h') ∧
        Rotation .left x y t h root h' root' ∧
        (rb_rotate_right (some y) root').run h' = .ok (root, h)) ∧
      (∀ y, nx.left = some y → ∃ root' h', (rb_rotate_right (some x) root).run h = .ok (root', h') ∧
        Rotation .right x y t h root h' root' ∧
        (rb_rotate_left (some y) root').run h' = .ok (root, h)) := by
  obtain ⟨nx, hnx⟩ := Option.ne_none_iff_exists'.mp (hl.spells.allocated hx)
  refine ⟨nx, hnx, fun y hy => ?_, fun y hy => ?_⟩
  · exact hl.rb_rotate (s := .left) hx hnx hy
  · exact hl.rb_rotate (s := .right) hx hnx hy

/-- Four nodes in the order 3, 0, 2, 1: both children of the root can rise, and
the right one has an inner subtree. -/
def fourNodes : Heap rb_node_t where
  cells a := [⟨some 3, some 1, none, 20, 0, BLACK⟩, ⟨some 2, none, some 0, 40, 0, RED⟩,
    ⟨none, none, some 1, 30, 0, BLACK⟩, ⟨none, none, some 0, 10, 0, RED⟩][a]?
  next := 4
  raw _ := default
  fresh _ ha := List.getElem?_eq_none ha

def fourTree : RBTree Cell :=
  .node .black (.node .red .nil ⟨3, 10, 0⟩ .nil) ⟨0, 20, 0⟩
    (.node .red (.node .black .nil ⟨2, 30, 0⟩ .nil) ⟨1, 40, 0⟩ .nil)

theorem fourNodes_linked : Linked fourNodes (some 0) fourTree where
  spells := ⟨rfl, ⟨rfl, trivial, trivial⟩, rfl, ⟨rfl, trivial, trivial⟩, trivial⟩
  root_eq := rfl
  nodup := by decide

theorem rb_rotate_restores_four :
    (∃ root' h', (rb_rotate_left (some 0) (some 0)).run fourNodes = .ok (root', h') ∧
      Rotation .left 0 1 fourTree fourNodes (some 0) h' root' ∧
      (rb_rotate_right (some 1) root').run h' = .ok (some 0, fourNodes)) ∧
    (∃ root' h', (rb_rotate_right (some 0) (some 0)).run fourNodes = .ok (root', h') ∧
      Rotation .right 0 3 fourTree fourNodes (some 0) h' root' ∧
      (rb_rotate_left (some 3) root').run h' = .ok (some 0, fourNodes)) := by
  obtain ⟨nx, hnx, hleft, hright⟩ := rb_rotate_restores fourNodes_linked (x := 0) (by decide)
  obtain rfl := Option.some.inj hnx
  exact ⟨hleft 1 rfl, hright 3 rfl⟩

end basic_data_struct.rbtree
