import BasicDataStruct.RbTree.Rotate
import BasicDataStruct.RbTree.Search
import BasicDataStruct.RedBlack.Insert

open machine machine.Exec red_black

namespace basic_data_struct.rbtree

variable {h : Heap rb_node_t} {root : Ptr}

variable {f g : Frame Cell} {rest ctx : Ctx Cell} {t : RBTree Cell} {key : key_t} {fuel : Nat}

/-- The preliminary rotation brings a node on the inner side to the outer side.
Afterwards the lower red node hangs below the upper one on side `s`, as it does
when no rotation is needed. -/
theorem Repr.run_rb_insert_rebalance_inner
    (hr : Repr h root (Ctx.plug (g :: rest) (f.fill t))) (hinv : InsertInv (f :: g :: rest) t)
    (hf : f.color = .red) (huncle : g.sibling.rootColor = .black) (s : Side) :
    ∃ p u v root' h',
      (rb_insert_rebalance_inner s (ptr t) (some f.elem.addr) root).run h =
        .ok ((ptr u, some p.addr, root'), h') ∧
      Repr h' root' (Ctx.plug (g :: rest) (.mk s .red p u v)) ∧
      InsertInv (⟨s, .black, p, .mk s .red g.elem v g.sibling⟩ :: rest) u ∧
      (RBTree.mk s .red p u v).toList = (f.fill t).toList := by
  have hparent := hr.cells_frame
  have hne : t ≠ .nil := by
    rintro rfl
    simpa [RBTree.rootColor] using hinv.rootColor_eq
  by_cases hside : f.side = s
  · have hchild : (f.elem.record f.side f.color (ptr t) (ptr f.sibling) (ctxPtr (g :: rest))).child s.flip ≠ ptr t := by
      rw [hside, record_child_flip]
      exact (hr.ptr_near_ne_far hne).symm
    refine ⟨f.elem, t, f.sibling, root, h, ?_, ?_, hinv.outer hf huncle s, ?_⟩
    · simp only [rb_insert_rebalance_inner, run_bind, run_load hparent, if_neg hchild, run_pure]
    · rw [← hside, ← hf]
      exact hr
    · rw [← hside, ← hf]
      rfl
  · have hflip := Side.eq_flip_of_ne hside
    obtain ⟨c, x, a, b, rfl⟩ := t.eq_mk_of_ne_nil hne s
    have hc : c = .red := by simpa using hinv.rootColor_eq
    have hfill : f.fill (.mk s c x a b) = .mk s .red f.elem f.sibling (.mk s .red x a b) := by
      rw [Frame.fill, hflip, hf, hc, RBTree.mk_flip]
    rw [hfill] at hr
    obtain ⟨root', h', hrun, hr'⟩ := hr.rb_rotate
    refine ⟨x, .mk s .red f.elem f.sibling a, b, root', h', ?_, hr', hinv.inner hf huncle, ?_⟩
    · simp only [rb_insert_rebalance_inner, run_bind, run_load hparent, hflip, record_child, if_true, hrun,
        run_pure, ptr_mk]
    · rw [hfill]
      exact (RBTree.toList_rotate s ..).symm

/-- One branch of the repair loop on a represented tree: the two red nodes are
repaired by one or two rotations, or the conflict moves up two levels. -/
theorem Repr.run_rb_insert_rebalance_case
    (hr : Repr h root (Ctx.plug rest (g.fill (f.fill t)))) (hinv : InsertInv (f :: g :: rest) t)
    (hf : f.color = .red) :
    ∃ ctx' u root' h',
      (rb_insert_rebalance_case g.side (ptr t) (some f.elem.addr) (some g.elem.addr) root).run h =
        .ok ((ptr u, root'), h') ∧
      Repr h' root' (Ctx.plug ctx' u) ∧ InsertInv ctx' u ∧ ctx'.length < rest.length + 2 ∧
      (Ctx.plug ctx' u).toList = (Ctx.plug rest (g.fill (f.fill t))).toList := by
  have hgparent := hr.cells_frame
  have huncle := hr.isRed_far
  by_cases hred : g.sibling.rootColor = .red
  · have hne : g.sibling ≠ .nil := by
      intro hnil
      simp [hnil, RBTree.rootColor] at hred
    obtain ⟨h₁, hrun₁, hr₁⟩ := hr.setColor_far hne .black
    obtain ⟨h₂, hrun₂, hr₂⟩ := hr₁.setColor_near (by cases hs : f.side <;> simp [Frame.fill, hs, RBTree.mk]) .black
    obtain ⟨h₃, hrun₃, hr₃⟩ := hr₂.setColor_focus .red
    rw [Frame.fill, RBTree.paint_mk] at hr₃
    rw [ptr_fill] at hrun₂
    refine ⟨rest, _, root, h₃, ?_, hr₃, hinv.recolor hf hred, by omega, ?_⟩
    · simp only [rb_insert_rebalance_case, run_bind, run_load hgparent, record_child_flip, huncle, hred,
        decide_true, if_true, hrun₁, hrun₂, hrun₃, run_pure, ptr_mk]
    · apply Ctx.toList_plug_congr
      exact RBTree.toList_mk_congr _ _ _ _ (RBTree.toList_mk_congr _ _ _ _ rfl rfl) (RBTree.toList_paint _ _)
  · have hblack : g.sibling.rootColor = .black := by
      cases hc : g.sibling.rootColor with
      | red => exact absurd hc hred
      | black => rfl
    obtain ⟨p, u, v, root₁, h₁, hrun₁, hr₁, hinv₁, hlist⟩ :=
      Repr.run_rb_insert_rebalance_inner hr hinv hf hblack g.side
    obtain ⟨h₂, hrun₂, hr₂⟩ := hr₁.setColor_focus .black
    have hfocus : Repr h₂ root₁ (Ctx.plug rest (.mk g.side g.color g.elem (.mk g.side .black p u v) g.sibling)) := hr₂
    obtain ⟨h₃, hrun₃, hr₃⟩ := hfocus.setColor_focus .red
    obtain ⟨root₄, h₄, hrun₄, hr₄⟩ := hr₃.rb_rotate_flip
    refine ⟨_, u, root₄, h₄, ?_, hr₄, hinv₁, by simp, ?_⟩
    · simp only [rb_insert_rebalance_case, run_bind, run_load hgparent, record_child_flip, huncle, hred,
        decide_false, Bool.false_eq_true, if_false, hrun₁, hrun₂, hrun₃, hrun₄, run_pure]
    · rw [Ctx.plug_cons]
      apply Ctx.toList_plug_congr
      calc (RBTree.mk g.side .black p u (.mk g.side .red g.elem v g.sibling)).toList
        _ = (RBTree.mk g.side g.color g.elem (.mk g.side .red p u v) g.sibling).toList :=
          (RBTree.toList_rotate_flip g.side ..).symm
        _ = (g.fill (f.fill t)).toList := RBTree.toList_mk_congr _ _ _ _ hlist rfl

/-- The repair loop stands at a red node `node` of a represented tree in which
only this node and its parent can both be red. -/
def InsertLoopInv (elems : List Cell) (n : Nat) (locals : Ptr × Ptr) (h : Heap rb_node_t) : Prop :=
  ∃ ctx t, Repr h locals.2 (Ctx.plug ctx t) ∧ locals.1 = ptr t ∧ InsertInv ctx t ∧
    (Ctx.plug ctx t).toList = elems ∧ ctx.length = n

/-- What the repair loop leaves behind: a red root is the only possible defect. -/
def InsertLoopPost (elems : List Cell) (root : Ptr) (h : Heap rb_node_t) : Prop :=
  ∃ t m, Repr h root t ∧ t ≠ .nil ∧ Balanced (t.paint .black) .black m ∧ t.toList = elems

/-- A round of the repair keeps the elements, and the violation rises or is gone. -/
theorem insertLoopInv_step (elems : List Cell) (n : Nat) (locals : Ptr × Ptr) (h : Heap rb_node_t)
    (hinv : InsertLoopInv elems n locals h) :
    (∃ m next h', m < n ∧ (rb_insert_rebalance_body locals).run h = .ok (.inl next, h') ∧
      InsertLoopInv elems m next h') ∨
    ∃ root h', (rb_insert_rebalance_body locals).run h = .ok (.inr root, h') ∧ InsertLoopPost elems root h' := by
  obtain ⟨ctx, t, hr, hnode, hinv, helems, rfl⟩ := hinv
  obtain ⟨node, root⟩ := locals
  simp only at hr hnode
  have hne : t ≠ .nil := by
    rintro rfl
    simpa [RBTree.rootColor] using hinv.rootColor_eq
  obtain ⟨c, x, l, r, rfl⟩ := t.eq_mk_of_ne_nil hne .left
  have hload := hr.cells_focus
  have hparent := hr.isRed_parent
  rw [ptr_mk] at hnode
  subst hnode
  simp only [rb_insert_rebalance_body, run_bind, run_load hload, record_parent, hparent]
  by_cases hred : ctx.head?.map Frame.color = some .red
  · left
    cases ctx with
    | nil => simp at hred
    | cons f ctx =>
      have hf : f.color = .red := by simpa using hred
      obtain ⟨g, rest, rfl, _⟩ := hinv.gparent hf
      have hfill : Repr h root (Ctx.plug rest (g.fill (f.fill (.mk .left c x l r)))) := hr
      have hinner : Repr h root (Ctx.plug (g :: rest) (f.fill (.mk .left c x l r))) := hr
      have hloadp := hinner.cells_frame
      have hloadg := hfill.cells_frame
      have hside := record_sideOf g.elem g.side g.color _ _ (ctxPtr rest)
        (hfill.ptr_near_ne_far (by cases hs : f.side <;> simp [Frame.fill, hs, RBTree.mk]))
      obtain ⟨ctx', u, root', h', hrun, hr', hinv', hlen, hlist⟩ := hfill.run_rb_insert_rebalance_case hinv hf
      have hdepth : ctx'.length < (f :: g :: rest).length := by
        rw [List.length_cons, List.length_cons]
        omega
      refine ⟨ctx'.length, (ptr u, root'), h', hdepth, ?_, ctx', u, hr', rfl, hinv', hlist.trans helems, rfl⟩
      simp only [ptr_fill, ptr_mk] at hside hrun
      simp only [hred, decide_true, if_true, ctxPtr_cons, run_bind, run_load hloadp, record_parent,
        run_load hloadg, ptr_fill, hside, hrun, run_pure]
  · right
    obtain ⟨m, hm⟩ := hinv.finish fun f rest hctx => by
      cases hc : f.color with
      | red => simp [hctx, hc] at hred
      | black => rfl
    refine ⟨root, h, by simp [hred], _, m, hr, ?_, hm, helems⟩
    intro hnil
    have hlen := Ctx.length_le_toList_plug ctx (.mk .left c x l r)
    rw [hnil] at hlen
    simp [RBTree.mk, RBTree.toList] at hlen

/-- The repair of an insertion ends within as many rounds as the inserted node
is deep, and leaves a red-black tree with the same nodes. -/
theorem Repr.run_rb_insert_rebalance (hr : Repr h root (Ctx.plug ctx t)) (hinv : InsertInv ctx t) :
    ∃ root' h' t' m, (∀ fuel, ctx.length < fuel →
        (rb_insert_rebalance fuel (ptr t) root).run h = .ok (root', h')) ∧
      Repr h' root' t' ∧ Balanced t' .black m ∧ t'.toList = (Ctx.plug ctx t).toList := by
  obtain ⟨root', h₁, hrun, t₁, m, hr₁, hne, hm, hlist⟩ := loop_total _ _ (insertLoopInv_step (Ctx.plug ctx t).toList)
    (i := (ptr t, root)) ⟨ctx, t, hr, rfl, hinv, rfl, rfl⟩
  have htop : Repr h₁ root' (Ctx.plug [] t₁) := hr₁
  obtain ⟨h₂, hrun₂, hr₂⟩ := htop.setColor_root hne .black
  refine ⟨root', h₂, t₁.paint .black, m, fun fuel hfuel => ?_, hr₂, hm, by simpa using hlist⟩
  rw [← hr₁.root_eq] at hrun₂
  simp only [rb_insert_rebalance, run_bind, hrun fuel hfuel, hrun₂, run_pure]

/-- The heap with a new red leaf in it, before the leaf is hung below its parent. -/
def planted (h : Heap rb_node_t) (key : key_t) (data : data_t) (parent : Ptr) : Heap rb_node_t :=
  ((((h.extend.alter h.next fun n => { n with key := key, data := data }).alter h.next
    (·.setParent parent)).alter h.next (·.setChild .right none)).alter h.next (·.setChild .left none)).alter h.next
    (·.setColor RED)

theorem planted_cells_same (key : key_t) (data : data_t) (parent : Ptr) :
    (planted h key data parent).cells h.next = some ⟨none, none, parent, key, data, RED⟩ := by
  simp [planted, Heap.extend_cells, rb_node_t.setParent, rb_node_t.setChild, rb_node_t.setColor]

theorem planted_cells_of_ne {data : data_t} {parent : Ptr} {a : Nat} (ha : a ≠ h.next) :
    (planted h key data parent).cells a = h.cells a := by
  simp [planted, Heap.alter_cells, Heap.extend_cells, ha]

/-- The comparison of the parent's key with the new key hangs the new node on
the side on which the search had found no subtree. -/
theorem run_attach (hs : SpellsCtx h none ctx) (hp : Placed ctx key) (node root : Ptr) :
    (attach key (ctxPtr ctx) node root).run h = .ok (if ctx = [] then node else root, relinked h ctx node) := by
  cases ctx with
  | nil => rfl
  | cons f ctx =>
    have hload := hs.1
    have hside : (if f.elem.key > key then Side.left else Side.right) = f.side := by
      cases hf : f.side with
      | left =>
        have hlt := hp.2 f.elem (by simp [Ctx.after, hf])
        simp [hlt]
      | right =>
        have hlt := hp.1 f.elem (by simp [Ctx.before, hf])
        simp [Int32.not_lt.mpr (Int32.le_of_lt hlt)]
    simp only [attach, ctxPtr_cons, run_bind, run_load hload, record_key, hside, setChild, run_store hload, run_pure]
    rfl

/-- The new leaf lies outside the tree it is about to be hung into. -/
theorem Repr.spellsCtx_planted (hr : Repr h root (Ctx.plug ctx .nil)) (key : key_t)
    (data : data_t) : h.next ∉ ctxAddrs ctx ∧ SpellsCtx (planted h key data (ctxPtr ctx)) none ctx := by
  have hnew : h.next ∉ ctxAddrs ctx := fun hmem =>
    hr.spells.allocated (mem_addrs_plug.mpr (.inr hmem)) (h.fresh h.next (Nat.le_refl _))
  refine ⟨hnew, (spells_plug.mp hr.spells).1.congr fun a ha => planted_cells_of_ne ?_⟩
  rintro rfl
  exact hnew ha

/-- Hanging the new leaf where the key belongs gives the tree with that leaf. -/
theorem Repr.plant (hr : Repr h root (Ctx.plug ctx .nil)) (key : key_t) (data : data_t) :
    Repr (relinked (planted h key data (ctxPtr ctx)) ctx (some h.next)) (if ctx = [] then some h.next else root)
      (Ctx.plug ctx (.node .red .nil ⟨h.next, key, data⟩ .nil)) := by
  obtain ⟨hctx, hkept⟩ := hr.spellsCtx_planted key data
  have hnd : (ctxAddrs ctx).Nodup := by simpa using nodup_plug.mp hr.nodup
  refine ⟨?_, ?_, ?_, fun a ha => ?_⟩
  · rw [spells_plug]
    refine ⟨spellsCtx_relinked hkept hnd _, ?_, trivial, trivial⟩
    rw [relinked_cells hctx, planted_cells_same]
    rfl
  · rw [hr.root_eq]
    exact ptr_plug_replace ctx .nil (.node .red .nil ⟨h.next, key, data⟩ .nil)
  · rw [nodup_plug]
    simpa [addrs, RBTree.toList] using ⟨hctx, hnd⟩
  · rw [mem_addrs_plug, not_or] at ha
    simp only [addrs, RBTree.toList, List.nil_append, List.map_cons, List.map_nil, List.mem_singleton] at ha
    rw [relinked_cells ha.2, planted_cells_of_ne ha.1]
    exact hr.exact a (by simpa [mem_addrs_plug] using ha.2)

/-- Once the search has ended at a place where the key belongs, an insertion is
the repair of the tree with the new leaf. -/
theorem Repr.run_rb_insert_at (hr : Repr h root (Ctx.plug ctx .nil)) (hp : Placed ctx key) (data : data_t)
    (hsearch : (rb_search_auxiliary fuel key root none).run h = .ok ((none, ctxPtr ctx), h)) :
    (rb_insert fuel key data root).run h =
      (rb_insert_rebalance fuel (some h.next) (if ctx = [] then some h.next else root)).run
        (relinked (planted h key data (ctxPtr ctx)) ctx (some h.next)) := by
  have hattach := run_attach (hr.spellsCtx_planted key data).2 hp (some h.next) root
  simp only [rb_insert, rb_new_node, setParent, setChild, setColor, run_bind, hsearch, ne_eq,
    not_true_eq_false, if_false, run_malloc, reduceCtorEq]
  simp only [run_store_of_isSome, Heap.extend_cells, Heap.alter_cells_same, Option.isSome_map,
    if_true, Option.isSome_some, run_pure]
  rw [← planted, hattach]

/-- Inserting a present key changes nothing at all. -/
theorem Repr.run_rb_insert_of_mem (hr : Repr h root t) (hs : Sorted t)
    (hagree : ∀ x ∈ t.toList, Agree x.key key) (hmem : ∃ x ∈ t.toList, x.key = key) (data : data_t)
    (hfuel : t.toList.length < fuel) : (rb_insert fuel key data root).run h = .ok (root, h) := by
  obtain ⟨res, hrun, hfound⟩ := run_rb_search_auxiliary hr hs hagree none
  cases hfound with
  | hit htree hkey => simp [rb_insert, run_bind, hrun fuel hfuel]
  | miss htree hp => exact absurd (htree ▸ hmem) hp.notMem

/-- Inserting an absent key adds exactly one node, at its place in the order, and
leaves a red-black tree. -/
theorem Repr.run_rb_insert_of_notMem (hr : Repr h root t) (hs : Sorted t) {n : Nat}
    (hbal : Balanced t .black n) (hagree : ∀ x ∈ t.toList, Agree x.key key)
    (hmem : ¬ ∃ x ∈ t.toList, x.key = key) (data : data_t) :
    ∃ root' h' t' m pre post, (∀ fuel, t.toList.length < fuel →
        (rb_insert fuel key data root).run h = .ok (root', h')) ∧
      Repr h' root' t' ∧ Balanced t' .black m ∧ t.toList = pre ++ post ∧
      t'.toList = pre ++ ⟨h.next, key, data⟩ :: post ∧
      (∀ x ∈ pre, x.key < key) ∧ ∀ x ∈ post, key < x.key := by
  obtain ⟨res, hrun, hfound⟩ := run_rb_search_auxiliary hr hs hagree none
  cases hfound with
  | hit htree hkey => exact absurd ⟨_, by rw [htree, Ctx.toList_plug]; simp [RBTree.toList], hkey⟩ hmem
  | @miss ctx htree hp =>
    subst htree
    have hplant := hr.plant key data
    obtain ⟨root', h', t', m, hfix, hr', hbal', hlist⟩ :=
      hplant.run_rb_insert_rebalance (InsertInv.of_leaf hbal ⟨h.next, key, data⟩)
    refine ⟨root', h', t', m, ctx.before, ctx.after, fun fuel hfuel => ?_, hr', hbal', ?_, ?_, hp.1, hp.2⟩
    · have hdepth := Ctx.length_le_toList_plug ctx .nil
      rw [hr.run_rb_insert_at hp data (hrun fuel hfuel)]
      exact hfix fuel (by omega)
    · simp [Ctx.toList_plug, RBTree.toList]
    · rw [hlist]
      simp [Ctx.toList_plug, RBTree.toList]

end basic_data_struct.rbtree
