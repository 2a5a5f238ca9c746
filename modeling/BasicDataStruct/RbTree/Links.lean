import BasicDataStruct.RbTree.Repr

open machine machine.Exec red_black

namespace basic_data_struct.rbtree

variable {h : Heap rb_node_t} {root : Ptr}

variable {f : Frame Cell} {ctx : Ctx Cell} {t near far : RBTree Cell} {s : Side} {c : Color} {x : Cell}
  {p hole q : Ptr} {a : Nat}

/-- The pointer to a tree leads above every position below its root. -/
theorem exists_ptr_plug_cons (f : Frame Cell) (ctx : Ctx Cell) (t : RBTree Cell) :
    ∃ a ∈ ctxAddrs (f :: ctx), ptr (Ctx.plug (f :: ctx) t) = some a := by
  induction ctx generalizing f t with
  | nil => exact ⟨f.elem.addr, by simp, by simp⟩
  | cons g ctx ih =>
    obtain ⟨a, ha, heq⟩ := ih g (f.fill t)
    refine ⟨a, ?_, heq⟩
    rw [ctxAddrs_cons]
    exact List.mem_cons_of_mem _ (List.mem_append_right _ ha)

theorem ptr_ne_ptr_plug (hnd : (addrs (Ctx.plug (f :: ctx) t)).Nodup) : ptr t ≠ ptr (Ctx.plug (f :: ctx) t) := by
  obtain ⟨a, ha, heq⟩ := exists_ptr_plug_cons f ctx t
  rw [nodup_plug, List.nodup_append] at hnd
  intro hptr
  exact hnd.2.2 a (ptr_mem_addrs (hptr.trans heq)) a ha rfl

namespace Repr

/-- The stored node at a position inside the tree. -/
theorem cells_focus (hr : Repr h root (ctx.plug (.mk s c x near far))) :
    h.cells x.addr = some (x.record s c (ptr near) (ptr far) (ctxPtr ctx)) :=
  (spells_mk.mp (spells_plug.mp hr.spells).2).1

/-- The stored node directly above a position. -/
theorem cells_frame (hr : Repr h root (ctx.plug (f.fill t))) :
    h.cells f.elem.addr = some (f.elem.record f.side f.color (ptr t) (ptr f.sibling) (ctxPtr ctx)) :=
  hr.cells_focus

theorem isRed_focus (hr : Repr h root (ctx.plug t)) :
    (isRed (ptr t)).run h = .ok (decide (t.rootColor = .red), h) := by
  cases t with
  | nil => rfl
  | node c l x r =>
    have hx := hr.cells_focus (s := .left)
    simp only [ptr_node, isRed, run_bind, run_load hx, run_pure, record_color, RBTree.rootColor]
    cases c <;> rfl

theorem isRed_parent (hr : Repr h root (ctx.plug t)) :
    (isRed (ctxPtr ctx)).run h = .ok (decide (ctx.head?.map Frame.color = some .red), h) := by
  cases ctx with
  | nil => simp [isRed]
  | cons f rest =>
    have hfocus : Repr h root (Ctx.plug rest (f.fill t)) := hr
    have hred := hfocus.isRed_focus
    simpa [Frame.fill] using hred

/-- Colour assignments keep the tree and change the colour of one node. -/
theorem setColor_focus (hr : Repr h root (ctx.plug (.mk s c x near far))) (d : Color) :
    ∃ h', (setColor (some x.addr) d).run h = .ok ((), h') ∧ Repr h' root (ctx.plug (.mk s d x near far)) := by
  have hx := hr.cells_focus
  have hlist : addrs (ctx.plug (.mk s d x near far)) = addrs (ctx.plug (.mk s c x near far)) := by
    simp only [addrs, Ctx.toList_plug_congr ctx (RBTree.toList_mk_congr s d c x rfl rfl)]
  obtain ⟨hctx, ht⟩ := spells_plug.mp hr.spells
  obtain ⟨_, hnear, hfar⟩ := spells_mk.mp ht
  have hnd := nodup_plug.mp hr.nodup
  rw [List.nodup_append, nodup_addrs_mk, List.nodup_cons] at hnd
  obtain ⟨⟨hxout, _⟩, _, hdisj⟩ := hnd
  refine ⟨_, run_store hx _, ?_, ?_, by rw [hlist]; exact hr.nodup, fun a ha => ?_⟩
  · rw [spells_plug, spells_mk, ptr_mk]
    rw [ptr_mk] at hctx
    refine ⟨hctx.congr fun a ha => ?_, by simp [hx], hnear.congr fun a ha => ?_, hfar.congr fun a ha => ?_⟩
    all_goals
      apply Heap.alter_cells_of_ne
      rintro rfl
    · exact hdisj _ (mem_addrs_mk.mpr (.inl rfl)) _ ha rfl
    · exact hxout (List.mem_append_left _ ha)
    · exact hxout (List.mem_append_right _ ha)
  · rw [hr.root_eq]
    exact ptr_plug_congr fun _ => by simp
  · rw [hlist] at ha
    simpa using hr.exact a ha

/-- A colour assignment at the root of a subtree. -/
theorem setColor_root (hr : Repr h root (ctx.plug t)) (hne : t ≠ .nil) (d : Color) :
    ∃ h', (setColor (ptr t) d).run h = .ok ((), h') ∧ Repr h' root (ctx.plug (t.paint d)) := by
  obtain ⟨c, x, l, r, rfl⟩ := t.eq_mk_of_ne_nil hne .left
  rw [ptr_mk, RBTree.paint_mk]
  exact hr.setColor_focus d

theorem setColorIf_root (hr : Repr h root (ctx.plug t)) (d : Color) :
    ∃ h', (setColorIf (ptr t) d).run h = .ok ((), h') ∧ Repr h' root (ctx.plug (t.paint d)) := by
  cases t with
  | nil => exact ⟨h, rfl, hr⟩
  | node c l x r => exact hr.setColor_root (by simp) d

variable {ctx : Ctx Cell} {s : Side} {c : Color} {x : Cell} {near far : RBTree Cell}

/-- Move the attention to the child opposite to side `s`. -/
theorem focus_far : Repr h root (ctx.plug (.mk s c x near far)) ↔
    Repr h root (Ctx.plug (⟨s.flip, c, x, near⟩ :: ctx) far) := by
  rw [Ctx.plug_cons, Frame.fill, RBTree.mk_flip]

section

variable (hr : Repr h root (ctx.plug (.mk s c x near far)))
include hr

theorem focus_near : Repr h root (Ctx.plug (⟨s, c, x, far⟩ :: ctx) near) := hr

/-- A colour assignment at the child on side `s`. -/
theorem setColor_near (hne : near ≠ .nil) (d : Color) :
    ∃ h', (setColor (ptr near) d).run h = .ok ((), h') ∧
      Repr h' root (ctx.plug (.mk s c x (near.paint d) far)) :=
  hr.focus_near.setColor_root hne d

theorem setColor_far (hne : far ≠ .nil) (d : Color) :
    ∃ h', (setColor (ptr far) d).run h = .ok ((), h') ∧
      Repr h' root (ctx.plug (.mk s c x near (far.paint d))) := by
  simp only [focus_far] at hr ⊢
  exact hr.setColor_root hne d

theorem setColorIf_near (d : Color) :
    ∃ h', (setColorIf (ptr near) d).run h = .ok ((), h') ∧
      Repr h' root (ctx.plug (.mk s c x (near.paint d) far)) :=
  hr.focus_near.setColorIf_root d

theorem setColorIf_far (d : Color) :
    ∃ h', (setColorIf (ptr far) d).run h = .ok ((), h') ∧
      Repr h' root (ctx.plug (.mk s c x near (far.paint d))) := by
  simp only [focus_far] at hr ⊢
  exact hr.setColorIf_root d

theorem isRed_near : (isRed (ptr near)).run h = .ok (decide (near.rootColor = .red), h) :=
  hr.focus_near.isRed_focus

theorem isRed_far : (isRed (ptr far)).run h = .ok (decide (far.rootColor = .red), h) :=
  (focus_far.mp hr).isRed_focus

/-- The two children of a node are different subtrees. -/
theorem ptr_near_ne_far (hne : near ≠ .nil) : ptr near ≠ ptr far := by
  obtain ⟨d, y, l, r, rfl⟩ := near.eq_mk_of_ne_nil hne .left
  have hnd := nodup_plug.mp hr.nodup
  rw [List.nodup_append, nodup_addrs_mk, List.nodup_cons, List.nodup_append] at hnd
  intro heq
  rw [ptr_mk] at heq
  exact hnd.1.2.2.2 y.addr (mem_addrs_mk.mpr (.inl rfl)) y.addr (ptr_mem_addrs heq.symm) rfl

theorem ptr_far_ne_near (hne : far ≠ .nil) : ptr far ≠ ptr near := by
  rw [← RBTree.mk_flip] at hr
  exact hr.ptr_near_ne_far hne

end

/-- Below the root, no subtree starts at the root. -/
theorem ptr_ne_root (hr : Repr h root (Ctx.plug (f :: ctx) t)) : ptr t ≠ root := by
  rw [hr.root_eq]
  exact ptr_ne_ptr_plug hr.nodup

end Repr

/-- The heap after the root of a subtree has been given a new parent link. -/
def reparented (h : Heap rb_node_t) (t : RBTree Cell) (p : Ptr) : Heap rb_node_t :=
  match t with
  | .nil => h
  | .node _ _ x _ => h.alter x.addr (·.setParent p)

/-- The heap after the node above a position has been given a new link to it. -/
def relinked (h : Heap rb_node_t) (ctx : Ctx Cell) (hole : Ptr) : Heap rb_node_t :=
  match ctx with
  | [] => h
  | f :: _ => h.alter f.elem.addr (·.setChild f.side hole)

/-- The new parent link is the only change. -/
theorem reparented_cells_of_ne (ha : ptr t ≠ some a) : (reparented h t p).cells a = h.cells a := by
  cases t with
  | nil => rfl
  | node c l x r =>
    apply Heap.alter_cells_of_ne
    rintro rfl
    exact ha rfl

theorem reparented_cells (ha : a ∉ addrs t) : (reparented h t p).cells a = h.cells a :=
  reparented_cells_of_ne fun heq => ha (ptr_mem_addrs heq)

/-- The new link of the node above is the only change. -/
theorem relinked_cells_of_ne (ha : ctxPtr ctx ≠ some a) : (relinked h ctx hole).cells a = h.cells a := by
  cases ctx with
  | nil => rfl
  | cons f ctx =>
    apply Heap.alter_cells_of_ne
    rintro rfl
    exact ha rfl

theorem ctxPtr_mem_ctxAddrs (h : ctxPtr ctx = some a) : a ∈ ctxAddrs ctx := by
  cases ctx with
  | nil => simp at h
  | cons f ctx =>
    simp only [ctxPtr_cons, Option.some.injEq] at h
    simp [h]

theorem relinked_cells (ha : a ∉ ctxAddrs ctx) : (relinked h ctx hole).cells a = h.cells a :=
  relinked_cells_of_ne fun heq => ha (ctxPtr_mem_ctxAddrs heq)

@[simp] theorem reparented_cells_eq_none : (reparented h t p).cells a = none ↔ h.cells a = none := by
  cases t with
  | nil => rfl
  | node c l x r => exact Heap.alter_cells_eq_none ..

@[simp] theorem relinked_cells_eq_none : (relinked h ctx hole).cells a = none ↔ h.cells a = none := by
  cases ctx with
  | nil => rfl
  | cons f ctx => exact Heap.alter_cells_eq_none ..

theorem run_setParentIf (hs : Spells h q t) (p : Ptr) :
    (setParentIf (ptr t) p).run h = .ok ((), reparented h t p) := by
  cases t with
  | nil => rfl
  | node c l x r => exact run_store hs.1 _

theorem run_setParent (hs : Spells h q t) (hne : t ≠ .nil) (p : Ptr) :
    (setParent (ptr t) p).run h = .ok ((), reparented h t p) := by
  cases t with
  | nil => exact absurd rfl hne
  | node c l x r => exact run_store hs.1 _

theorem spells_reparented (hs : Spells h q t) (hnd : (addrs t).Nodup) (p : Ptr) : Spells (reparented h t p) p t := by
  cases t with
  | nil => trivial
  | node c l x r =>
    obtain ⟨hx, hl, hr⟩ := hs
    have hout : x.addr ∉ addrs l ++ addrs r := (List.nodup_cons.mp (nodup_addrs_mk (s := .left).mp hnd)).1
    refine ⟨by simp [reparented, hx], hl.congr fun a ha => ?_, hr.congr fun a ha => ?_⟩
    all_goals
      apply Heap.alter_cells_of_ne
      rintro rfl
    · exact hout (List.mem_append_left _ ha)
    · exact hout (List.mem_append_right _ ha)

/-- Both ways of testing the parent's links find the right one, because the
other link leads to a different node. -/
theorem run_relink (hs : SpellsCtx h (some a) ctx) (ha : a ∉ ctxAddrs ctx) (t : Side) (new root : Ptr) :
    (relink t (ctxPtr ctx) (some a) new root).run h =
      .ok (if ctx = [] then new else root, relinked h ctx new) := by
  cases ctx with
  | nil => rfl
  | cons f ctx =>
    obtain ⟨hf, -, -⟩ := hs
    have hsib : ptr f.sibling ≠ some a := fun heq => ha (by simp [ptr_mem_addrs heq])
    have hside : (if (f.elem.record f.side f.color (some a) (ptr f.sibling) (ctxPtr ctx)).child t = some a
        then t else t.flip) = f.side := by
      by_cases ht : t = f.side
      · simp [ht]
      · have hflip := Side.eq_flip_of_ne ht
        simp [hflip, hsib]
    simp only [relink, ctxPtr_cons, run_bind, run_load hf, hside, setChild, run_store hf, run_pure]
    rfl

theorem spellsCtx_relinked (hs : SpellsCtx h hole ctx)
    (hnd : (ctxAddrs ctx).Nodup) (new : Ptr) : SpellsCtx (relinked h ctx new) new ctx := by
  cases ctx with
  | nil => trivial
  | cons f ctx =>
    obtain ⟨hf, hsib, hctx⟩ := hs
    rw [ctxAddrs_cons, List.nodup_cons] at hnd
    refine ⟨by simp [relinked, hf], hsib.congr fun a ha => ?_, hctx.congr fun a ha => ?_⟩
    all_goals
      apply Heap.alter_cells_of_ne
      rintro rfl
    · exact hnd.1 (List.mem_append_left _ ha)
    · exact hnd.1 (List.mem_append_right _ ha)

end basic_data_struct.rbtree
