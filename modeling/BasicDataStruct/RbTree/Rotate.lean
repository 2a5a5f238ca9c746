import BasicDataStruct.RbTree.Links

open machine machine.Exec red_black

namespace basic_data_struct.rbtree

variable {h : Heap rb_node_t} {root : Ptr}

variable {s : Side} {x y : Cell} {b a e : RBTree Cell} {q : Nat} {ctx : Ctx Cell} {cx cy : Color}

/-- The heap after the first assignments of a rotation at `x`: the inner subtree
`b` has moved over to `x`, and `x` hangs below its risen child `y`. -/
def turned (h : Heap rb_node_t) (s : Side) (parent : Ptr) (x y : Cell) (b : RBTree Cell) : Heap rb_node_t :=
  let h' := reparented (h.alter x.addr (·.setChild s.flip (ptr b))) b (some x.addr)
  (h'.alter y.addr (·.setChild s (some x.addr))).alter y.addr (·.setParent parent)

/-- The heap after a whole rotation. -/
def rotated (h : Heap rb_node_t) (s : Side) (ctx : Ctx Cell) (x y : Cell) (b : RBTree Cell) : Heap rb_node_t :=
  (relinked (turned h s (ctxPtr ctx) x y b) ctx (some y.addr)).alter x.addr (·.setParent (some y.addr))

theorem turned_cells {p : Ptr}
    (hx : q ≠ x.addr) (hy : q ≠ y.addr) (hb : q ∉ addrs b) : (turned h s p x y b).cells q = h.cells q := by
  rw [turned, Heap.alter_cells_of_ne _ _ hy, Heap.alter_cells_of_ne _ _ hy, reparented_cells hb,
    Heap.alter_cells_of_ne _ _ hx]

theorem rotated_cells (hx : q ≠ x.addr) (hctx : q ∉ ctxAddrs ctx) :
    (rotated h s ctx x y b).cells q = (turned h s (ctxPtr ctx) x y b).cells q := by
  rw [rotated, Heap.alter_cells_of_ne _ _ hx, relinked_cells hctx]

/-- The nodes taking part in a rotation are pairwise different. -/
structure RotateDistinct (ctx : Ctx Cell) (x y : Cell) (a b e : RBTree Cell) : Prop where
  ne : x.addr ≠ y.addr
  outer : ∀ q ∈ addrs a ++ addrs e, q ≠ x.addr ∧ q ≠ y.addr ∧ q ∉ addrs b ∧ q ∉ ctxAddrs ctx
  inner : x.addr ∉ addrs b ∧ y.addr ∉ addrs b ∧ (addrs b).Nodup
  above : x.addr ∉ ctxAddrs ctx ∧ y.addr ∉ ctxAddrs ctx ∧ (ctxAddrs ctx).Nodup
  apart : ∀ q ∈ addrs b, q ∉ ctxAddrs ctx

theorem rotateDistinct_of_nodup (hnd : (addrs (ctx.plug (.mk s cx x a (.mk s cy y b e)))).Nodup) :
    RotateDistinct ctx x y a b e := by
  rw [nodup_plug, List.nodup_append, nodup_addrs_mk, List.nodup_cons, List.nodup_append, nodup_addrs_mk,
    List.nodup_cons, List.nodup_append] at hnd
  simp only [mem_addrs_mk, List.mem_append, not_or] at hnd
  constructor <;> grind

/-- A rotation keeps the nodes in their order. -/
theorem addrs_rotate (ctx : Ctx Cell) (s : Side) (cx cy : Color) (x y : Cell) (a b e : RBTree Cell) :
    addrs (ctx.plug (.mk s cy y (.mk s cx x a b) e)) = addrs (ctx.plug (.mk s cx x a (.mk s cy y b e))) := by
  simp only [addrs, Ctx.toList_plug_congr ctx (RBTree.toList_rotate s cx cy cy cx x y a b e)]

section Turned

variable {ctx : Ctx Cell} {s : Side} {cx cy : Color} {x y : Cell} {a b e : RBTree Cell}

/-- The inner subtree while its old parent has already lost it. -/
theorem spells_inner (hb : Spells h (some y.addr) b) (hd : RotateDistinct ctx x y a b e) :
    Spells (h.alter x.addr (·.setChild s.flip (ptr b))) (some y.addr) b := by
  refine hb.congr fun q hq => ?_
  apply Heap.alter_cells_of_ne
  rintro rfl
  exact hd.inner.1 hq

theorem spellsCtx_turned (hctx : SpellsCtx h (some x.addr) ctx) (hd : RotateDistinct ctx x y a b e) (p : Ptr) :
    SpellsCtx (turned h s p x y b) (some x.addr) ctx := by
  obtain ⟨hxctx, hyctx, _⟩ := hd.above
  refine hctx.congr fun q hq => turned_cells ?_ ?_ fun hqb => hd.apart q hqb hq
  · rintro rfl
    exact hxctx hq
  · rintro rfl
    exact hyctx hq

/-- The heap run of a rotation, assignment by assignment. -/
theorem run_rb_rotate (hs : Spells h none (ctx.plug (.mk s cx x a (.mk s cy y b e))))
    (hd : RotateDistinct ctx x y a b e) (root : Ptr) :
    (rb_rotate s (some x.addr) root).run h =
      .ok (if ctx = [] then some y.addr else root, rotated h s ctx x y b) := by
  obtain ⟨hctx, ht⟩ := spells_plug.mp hs
  obtain ⟨hx, _, hy⟩ := spells_mk.mp ht
  obtain ⟨hy, hb, _⟩ := spells_mk.mp hy
  rw [ptr_mk] at hctx hx
  obtain ⟨hxb, hyb, _⟩ := hd.inner
  obtain ⟨hxctx, hyctx, _⟩ := hd.above
  have hx₁ : (h.alter x.addr (·.setChild s.flip (ptr b))).cells x.addr =
      some (x.record s cx (ptr a) (ptr b) (ctxPtr ctx)) := by simp [hx]
  have hy₂ : (reparented (h.alter x.addr (·.setChild s.flip (ptr b))) b (some x.addr)).cells y.addr =
      some (y.record s cy (ptr b) (ptr e) (some x.addr)) := by
    rw [reparented_cells hyb, Heap.alter_cells_of_ne _ _ hd.ne.symm, hy]
  have hx₃ : ((reparented (h.alter x.addr (·.setChild s.flip (ptr b))) b (some x.addr)).alter y.addr
      (·.setChild s (some x.addr))).cells x.addr = some (x.record s cx (ptr a) (ptr b) (ctxPtr ctx)) := by
    rw [Heap.alter_cells_of_ne _ _ hd.ne, reparented_cells hxb, hx₁]
  have hy₃ : ((reparented (h.alter x.addr (·.setChild s.flip (ptr b))) b (some x.addr)).alter y.addr
      (·.setChild s (some x.addr))).cells y.addr = some (y.record s cy (some x.addr) (ptr e) (some x.addr)) := by
    simp [hy₂]
  have hx₄ : (relinked (turned h s (ctxPtr ctx) x y b) ctx (some y.addr)).cells x.addr =
      some (x.record s cx (ptr a) (ptr b) (ctxPtr ctx)) := by
    rw [relinked_cells hxctx, turned, Heap.alter_cells_of_ne _ _ hd.ne, hx₃]
  have hrelink := run_relink (spellsCtx_turned (s := s) hctx hd (ctxPtr ctx)) hxctx .right (some y.addr) root
  rw [turned] at hrelink hx₄
  simp only [rb_rotate, setChild, setParent, run_bind, run_load hx, run_load hy, record_child, record_child_flip,
    run_store hx, run_setParentIf (spells_inner hb hd), run_store hy₂, run_load hx₃, record_parent,
    run_store hy₃, hrelink, run_store hx₄, run_pure]
  rfl

end Turned

/-- The stored nodes after a rotation spell the rotated tree. -/
theorem spells_rotated
    (hs : Spells h none (ctx.plug (.mk s cx x a (.mk s cy y b e)))) (hd : RotateDistinct ctx x y a b e) :
    Spells (rotated h s ctx x y b) none (ctx.plug (.mk s cy y (.mk s cx x a b) e)) := by
  obtain ⟨hctx, ht⟩ := spells_plug.mp hs
  obtain ⟨hx, ha, hy⟩ := spells_mk.mp ht
  obtain ⟨hy, hb, he⟩ := spells_mk.mp hy
  obtain ⟨hxb, hyb, hbnd⟩ := hd.inner
  obtain ⟨hxctx, hyctx, hctxnd⟩ := hd.above
  have hsame : ∀ q ∈ addrs a ++ addrs e, (rotated h s ctx x y b).cells q = h.cells q := by
    intro q hq
    obtain ⟨hqx, hqy, hqb, hqctx⟩ := hd.outer q hq
    rw [rotated_cells hqx hqctx, turned_cells hqx hqy hqb]
  rw [spells_plug, spells_mk, spells_mk]
  simp only [ptr_mk]
  refine ⟨?_, ?_, ⟨?_, ?_, ?_⟩, ?_⟩
  · rw [ptr_mk] at hctx
    have hturned := spellsCtx_turned (s := s) hctx hd (ctxPtr ctx)
    refine (spellsCtx_relinked hturned hctxnd (some y.addr)).congr fun q hq => ?_
    apply Heap.alter_cells_of_ne
    rintro rfl
    exact hxctx hq
  · rw [rotated_cells hd.ne.symm hyctx, turned, Heap.alter_cells_same,
      Heap.alter_cells_same, reparented_cells hyb, Heap.alter_cells_of_ne _ _ hd.ne.symm, hy]
    simp
  · rw [rotated, Heap.alter_cells_same, relinked_cells hxctx, turned, Heap.alter_cells_of_ne _ _ hd.ne,
      Heap.alter_cells_of_ne _ _ hd.ne, reparented_cells hxb, Heap.alter_cells_same, hx]
    simp
  · exact ha.congr fun q hq => hsame q (List.mem_append_left _ hq)
  · have hinner := spells_inner (s := s) hb hd
    refine (spells_reparented hinner hbnd (some x.addr)).congr fun q hq => ?_
    have hqx : q ≠ x.addr := by
      rintro rfl
      exact hxb hq
    have hqy : q ≠ y.addr := by
      rintro rfl
      exact hyb hq
    rw [rotated_cells hqx (hd.apart q hq), turned, Heap.alter_cells_of_ne _ _ hqy, Heap.alter_cells_of_ne _ _ hqy]
  · exact he.congr fun q hq => hsame q (List.mem_append_right _ hq)

/-- A rotation turns a linked tree into its rotation, whether the node is the
root or hangs on either side of its parent, and whether or not there is an inner
subtree. The risen child becomes the root exactly when the node was the root. -/
theorem Linked.rotated (hl : Linked h root (ctx.plug (.mk s cx x a (.mk s cy y b e)))) :
    Linked (rotated h s ctx x y b) (if ctx = [] then some y.addr else root)
      (ctx.plug (.mk s cy y (.mk s cx x a b) e)) := by
  have hd := rotateDistinct_of_nodup hl.nodup
  refine ⟨spells_rotated hl.spells hd, ?_, by rw [addrs_rotate]; exact hl.nodup⟩
  rw [hl.root_eq, ← ptr_plug_replace ctx _ (.mk s cy y (.mk s cx x a b) e), ptr_mk]

/-- Rotations turn a represented tree into its rotation. -/
theorem Repr.rb_rotate (hr : Repr h root (ctx.plug (.mk s cx x a (.mk s cy y b e)))) :
    ∃ root' h', (rb_rotate s (some x.addr) root).run h = .ok (root', h') ∧
      Repr h' root' (ctx.plug (.mk s cy y (.mk s cx x a b) e)) := by
  have hd := rotateDistinct_of_nodup hr.nodup
  have hl := hr.linked.rotated
  refine ⟨_, _, run_rb_rotate hr.spells hd root, hl.spells, hl.root_eq, hl.nodup, fun q hq => ?_⟩
  rw [addrs_rotate] at hq
  simpa [rotated, turned] using hr.exact q hq

/-- The same rotation seen from the side of the rising child. -/
theorem Repr.rb_rotate_flip (hr : Repr h root (ctx.plug (.mk s cx x (.mk s cy y e b) a))) :
    ∃ root' h', (rbtree.rb_rotate s.flip (some x.addr) root).run h = .ok (root', h') ∧
      Repr h' root' (ctx.plug (.mk s cy y e (.mk s cx x b a))) := by
  have hflip : RBTree.mk s cx x (.mk s cy y e b) a = .mk s.flip cx x a (.mk s.flip cy y b e) := by
    simp only [RBTree.mk_flip]
  rw [hflip] at hr
  obtain ⟨root', h', hrun, hr'⟩ := hr.rb_rotate
  simp only [RBTree.mk_flip] at hr'
  exact ⟨root', h', hrun, hr'⟩

end basic_data_struct.rbtree
