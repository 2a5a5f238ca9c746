import BasicDataStruct.RbTree.EraseRepair

open machine machine.Exec red_black

namespace basic_data_struct.rbtree

variable {h : Heap rb_node_t} {root : Ptr}

variable {ctx : Ctx Cell} {u : RBTree Cell} {a : Nat} {s : Side} {c : Color} {x : Cell}

/-- The heap after the only subtree `u` of a node has taken the node's place. -/
def unlinked (h : Heap rb_node_t) (ctx : Ctx Cell) (u : RBTree Cell) : Heap rb_node_t :=
  relinked (reparented h u (ctxPtr ctx)) ctx (ptr u)

theorem unlinked_cells (ha : a ∉ addrs (ctx.plug u)) : (unlinked h ctx u).cells a = h.cells a := by
  rw [mem_addrs_plug, not_or] at ha
  rw [unlinked, relinked_cells ha.2, reparented_cells ha.1]

@[simp] theorem unlinked_cells_eq_none : (unlinked h ctx u).cells a = none ↔ h.cells a = none := by
  simp [unlinked]

/-- The places of a node with at most one child. -/
theorem nodup_only_child (hnd : (addrs (ctx.plug (.mk s c x .nil u))).Nodup) :
    x.addr ∉ addrs (ctx.plug u) ∧ (addrs (ctx.plug u)).Nodup := by
  rw [nodup_plug, List.nodup_append, nodup_addrs_mk, List.nodup_cons] at hnd
  rw [nodup_plug, List.nodup_append, mem_addrs_plug, not_or]
  simp only [addrs_nil, List.nil_append, mem_addrs_mk] at hnd
  grind

/-- Taking out a node with at most one child leaves the tree without that node.
The node itself stays allocated and unchanged. -/
theorem Repr.run_unlink (hr : Repr h root (ctx.plug (.mk s c x .nil u))) :
    (unlink (some x.addr) (ptr u) (ctxPtr ctx) root).run h = .ok (ptr (ctx.plug u), unlinked h ctx u) ∧
      Spells (unlinked h ctx u) none (ctx.plug u) := by
  obtain ⟨hctx, ht⟩ := spells_plug.mp hr.spells
  obtain ⟨_, _, hu⟩ := spells_mk.mp ht
  obtain ⟨hxout, hnd⟩ := nodup_only_child hr.nodup
  rw [mem_addrs_plug, not_or] at hxout
  rw [nodup_plug, List.nodup_append] at hnd
  rw [ptr_mk] at hctx
  have hkept : SpellsCtx (reparented h u (ctxPtr ctx)) (some x.addr) ctx :=
    hctx.congr fun a ha => reparented_cells fun hau => hnd.2.2 a hau a ha rfl
  have hrelink := run_relink hkept hxout.2 .left (ptr u) root
  constructor
  · simp only [unlink, run_bind, run_setParentIf hu, hrelink]
    rw [hr.root_eq, ptr_plug_replace, unlinked]
  · rw [spells_plug]
    refine ⟨spellsCtx_relinked hkept hnd.2.1 (ptr u), ?_⟩
    exact (spells_reparented hu hnd.1 (ctxPtr ctx)).congr fun a ha =>
      relinked_cells fun hactx => hnd.2.2 a ha a hactx rfl

/-- Releasing the only node that is not part of the tree. -/
theorem repr_release {t : RBTree Cell} (hs : Spells h none t) (hnd : (addrs t).Nodup) (ha : a ∉ addrs t)
    (hexact : ∀ q, q ∉ addrs t → q ≠ a → h.cells q = none) : Repr (h.release a) (ptr t) t where
  spells := hs.congr fun q hq => Heap.release_cells_of_ne _ (by rintro rfl; exact ha hq)
  root_eq := rfl
  nodup := hnd
  exact q hq := by
    by_cases hqa : q = a
    · simp [hqa, Heap.release_cells]
    · rw [Heap.release_cells_of_ne _ hqa]
      exact hexact q hq hqa

/-- The state between the removal of the node `x` and the repair. The subtree `u`
stands where a node of colour `color` went missing, and `x` is still allocated. -/
structure Removed (h : Heap rb_node_t) (x : Cell) (ctx : Ctx Cell) (u : RBTree Cell) (color : color_t) : Prop where
  spells : Spells h none (ctx.plug u)
  nodup : (addrs (ctx.plug u)).Nodup
  apart : x.addr ∉ addrs (ctx.plug u)
  live : h.cells x.addr ≠ none
  exact : ∀ q, q ∉ addrs (ctx.plug u) → q ≠ x.addr → h.cells q = none
  balance : (color = .black → ∃ k, EraseInv ctx u k) ∧ (color = .red → ∃ m, Balanced (ctx.plug u) .black m)

/-- A node without a left child gives its place to the right one. -/
theorem Repr.run_rb_erase_one {m : Nat}
    (hr : Repr h root (ctx.plug (.mk s c x .nil u))) (hbal : Balanced (ctx.plug (.mk s c x .nil u)) .black m) :
    ∃ h', (rb_erase_one (some x.addr) root).run h = .ok ((ptr u, ctxPtr ctx, c, ptr (ctx.plug u)), h') ∧
      Removed h' x ctx u c := by
  have hx := hr.cells_focus
  obtain ⟨hrun, hs⟩ := hr.run_unlink
  obtain ⟨hxout, hnd⟩ := nodup_only_child hr.nodup
  obtain ⟨hu, hred, hblack⟩ := Fits.of_only_child hbal
  have hchild : (if (x.record s c none (ptr u) (ctxPtr ctx)).left = none
      then (x.record s c none (ptr u) (ctxPtr ctx)).right
      else (x.record s c none (ptr u) (ctxPtr ctx)).left) = ptr u := by
    cases s with
    | left => simp [Cell.record]
    | right => cases u <;> simp [Cell.record]
  refine ⟨unlinked h ctx u, ?_, hs, hnd, hxout, ?_, ?_, EraseInv.of_only_child hu hred hblack⟩
  · rw [ptr_nil] at hx
    simp only [rb_erase_one, run_bind, run_load hx, hchild, record_parent, record_color, hrun, run_pure]
  · simp [hx]
  · intro q hq hqx
    rw [unlinked_cells hq]
    refine hr.exact q fun hmem => ?_
    rw [mem_addrs_plug, mem_addrs_mk] at hmem
    rw [mem_addrs_plug, not_or] at hq
    rcases hmem with (rfl | hnil | hqu) | hqctx
    · exact hqx rfl
    · simp at hnil
    · exact hq.1 hqu
    · exact hq.2 hqctx

end basic_data_struct.rbtree
