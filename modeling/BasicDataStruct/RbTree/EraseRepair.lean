import BasicDataStruct.RbTree.Rotate
import BasicDataStruct.RedBlack.Erase

open machine machine.Exec red_black

namespace basic_data_struct.rbtree

variable {h : Heap rb_node_t} {root : Ptr}

variable {f : Frame Cell} {rest ctx : Ctx Cell} {t near far : RBTree Cell} {n k : Nat} {s : Side} {c : Color}
  {y x : Cell}

/-- The first step of a round: a red sibling is replaced by a black one. The
parent is red afterwards, so the distance left to go does not grow. -/
theorem Repr.run_rb_erase_rebalance_red
    (hr : Repr h root (Ctx.plug rest (f.fill t))) (hinv : EraseInv (f :: rest) t n) :
    ∃ c y near far rest' root' h',
      (rb_erase_rebalance_red f.side (some f.elem.addr) (ptr f.sibling) root).run h = .ok ((some y.addr, root'), h') ∧
      Repr h' root' (Ctx.plug rest' (.mk f.side c f.elem t (.mk f.side .black y near far))) ∧
      EraseInv (⟨f.side, c, f.elem, .mk f.side .black y near far⟩ :: rest') t n ∧
      rest'.length + (if c = .red then 0 else 1) ≤ rest.length + 1 ∧
      (Ctx.plug rest' (.mk f.side c f.elem t (.mk f.side .black y near far))).toList =
        (Ctx.plug rest (f.fill t)).toList := by
  obtain ⟨s, c, x, sib⟩ := f
  obtain ⟨d, y, near, far, rfl⟩ := sib.eq_mk_of_ne_nil hinv.sibling_ne_nil s
  have hother := (Repr.focus_far.mp hr).cells_focus
  simp only [rb_erase_rebalance_red, ptr_mk, run_bind, run_load hother, record_color]
  cases d with
  | black =>
    refine ⟨c, y, near, far, rest, root, h, by simp, hr, hinv, ?_, rfl⟩
    split <;> omega
  | red =>
    obtain ⟨hnear, hinv'⟩ := hinv.red_sibling
    obtain ⟨h₁, hrun₁, hr₁⟩ := (Repr.focus_far.mp hr).setColor_focus .black
    obtain ⟨h₂, hrun₂, hr₂⟩ := (Repr.focus_far.mpr hr₁).setColor_focus .red
    obtain ⟨root₃, h₃, hrun₃, hr₃⟩ := hr₂.rb_rotate
    have hfocus : Repr h₃ root₃ (Ctx.plug (⟨s, .black, y, far⟩ :: rest) (.mk s .red x t near)) := hr₃
    obtain ⟨e, z, a, b, rfl⟩ := near.eq_mk_of_ne_nil hinv'.sibling_ne_nil s
    rw [RBTree.rootColor_mk] at hnear
    subst hnear
    have hparent := hfocus.cells_focus
    refine ⟨.red, z, a, b, ⟨s, .black, y, far⟩ :: rest, root₃, h₃, ?_, hfocus, hinv', by simp, ?_⟩
    · simp only [if_true, run_bind, hrun₁, hrun₂, hrun₃, run_load hparent, record_child_flip, ptr_mk, run_pure]
    · rw [Ctx.plug_cons]
      exact Ctx.toList_plug_congr rest (RBTree.toList_rotate s ..).symm

theorem Repr.run_blackChildren (hr : Repr h root (ctx.plug (.mk s c y near far))) :
    (blackChildren (some y.addr)).run h =
      .ok (decide (near.rootColor = .black ∧ far.rootColor = .black), h) := by
  have hother := hr.cells_focus
  have hnear := hr.isRed_near
  have hfar := hr.isRed_far
  cases s with
  | left =>
    simp only [blackChildren, run_bind, run_ite, run_load hother, Cell.record, hnear, hfar, run_pure]
    cases near.rootColor <;> cases far.rootColor <;> rfl
  | right =>
    simp only [blackChildren, run_bind, run_ite, run_load hother, Cell.record, hnear, hfar, run_pure]
    cases near.rootColor <;> cases far.rootColor <;> rfl

/-- The second step of a round that does not go on: the sibling gets a red child
on the outer side. -/
theorem Repr.run_rb_erase_rebalance_inner (hr : Repr h root (Ctx.plug rest (.mk s c x t (.mk s .black y near far))))
    (hinv : EraseInv (⟨s, c, x, .mk s .black y near far⟩ :: rest) t n)
    (hred : ¬ (near.rootColor = .black ∧ far.rootColor = .black)) :
    ∃ y' near' far' root' h',
      (rb_erase_rebalance_inner s (some x.addr) (some y.addr) root).run h = .ok ((some y'.addr, root'), h') ∧
      Repr h' root' (Ctx.plug rest (.mk s c x t (.mk s .black y' near' far'))) ∧
      EraseInv (⟨s, c, x, .mk s .black y' near' far'⟩ :: rest) t n ∧ far'.rootColor = .red ∧
      (RBTree.mk s .black y' near' far').toList = (RBTree.mk s .black y near far).toList := by
  have hfocus := Repr.focus_far.mp hr
  have hother := hfocus.cells_focus
  have hisRed := hfocus.isRed_far
  by_cases hfar : far.rootColor = .red
  · refine ⟨y, near, far, root, h, ?_, hr, hinv, hfar, rfl⟩
    simp only [rb_erase_rebalance_inner, run_bind, run_load hother, record_child_flip, hisRed, hfar, decide_true,
      if_true, run_pure]
  · have hfarBlack : far.rootColor = .black := by
      cases hc : far.rootColor with
      | red => exact absurd hc hfar
      | black => rfl
    have hnearRed : near.rootColor = .red := by
      cases hc : near.rootColor with
      | red => rfl
      | black => exact absurd ⟨hc, hfarBlack⟩ hred
    have hne : near ≠ .nil := by
      rintro rfl
      simp [RBTree.rootColor] at hnearRed
    obtain ⟨e, z, a, b, rfl⟩ := near.eq_mk_of_ne_nil hne s
    rw [RBTree.rootColor_mk] at hnearRed
    obtain ⟨h₁, hrun₁, hr₁⟩ := hfocus.setColorIf_near .black
    rw [RBTree.paint_mk] at hr₁
    rw [ptr_mk] at hrun₁
    obtain ⟨h₂, hrun₂, hr₂⟩ := hr₁.setColor_focus .red
    obtain ⟨root₃, h₃, hrun₃, hr₃⟩ := hr₂.rb_rotate_flip
    have hr₄ := Repr.focus_far.mpr hr₃
    have hparent := hr₄.cells_focus
    refine ⟨z, a, .mk s .red y b far, root₃, h₃, ?_, hr₄, hinv.near_red hnearRed hfarBlack, by simp, ?_⟩
    · simp only [rb_erase_rebalance_inner, run_bind, run_load hother, record_child, record_child_flip, hisRed, hfar,
        decide_false, Bool.false_eq_true, if_false, hrun₁, hrun₂, hrun₃, run_load hparent, ptr_mk, run_pure]
    · exact (RBTree.toList_rotate_flip s ..).symm

/-- The last rotation moves the red outer child's black level to the short side. -/
theorem Repr.run_rb_erase_rebalance_last (hr : Repr h root (Ctx.plug rest (.mk s c x t (.mk s .black y near far)))) :
    ∃ root' h', (rb_erase_rebalance_last s (some x.addr) (some y.addr) root).run h = .ok (root', h') ∧
      Repr h' root' (Ctx.plug rest (.mk s c y (.mk s .black x t near) (far.paint .black))) := by
  have hparent := hr.cells_focus
  obtain ⟨h₁, hrun₁, hr₁⟩ := (Repr.focus_far.mp hr).setColor_focus c
  obtain ⟨h₂, hrun₂, hr₂⟩ := (Repr.focus_far.mpr hr₁).setColor_focus .black
  have hfocus := Repr.focus_far.mp hr₂
  have hother := hfocus.cells_focus
  obtain ⟨h₃, hrun₃, hr₃⟩ := hfocus.setColorIf_far .black
  obtain ⟨root₄, h₄, hrun₄, hr₄⟩ := (Repr.focus_far.mpr hr₃).rb_rotate
  refine ⟨root₄, h₄, ?_, hr₄⟩
  simp only [rb_erase_rebalance_last, run_bind, run_load hparent, record_color, hrun₁, hrun₂, run_load hother,
    record_child_flip, hrun₃, hrun₄]

/-- The repair loop stands at a subtree that is one black node short. -/
def EraseLoopInv (elems : List Cell) (n : Nat) (locals : Ptr × Ptr × Ptr) (h : Heap rb_node_t) : Prop :=
  ∃ ctx t k, Repr h locals.2.2 (Ctx.plug ctx t) ∧ locals.1 = ptr t ∧ locals.2.1 = ctxPtr ctx ∧
    EraseInv ctx t k ∧ (Ctx.plug ctx t).toList = elems ∧ ctx.length + (if t.rootColor = .red then 0 else 1) ≤ n

/-- What the repair loop leaves behind: painting `node` black ends the repair. -/
def EraseLoopPost (elems : List Cell) (res : Ptr × Ptr) (h : Heap rb_node_t) : Prop :=
  ∃ ctx t m, Repr h res.2 (Ctx.plug ctx t) ∧ res.1 = ptr t ∧ Balanced (Ctx.plug ctx (t.paint .black)) .black m ∧
    (Ctx.plug ctx t).toList = elems

/-- A round at a black node below the root. -/
theorem Repr.run_rb_erase_rebalance_case
    (hr : Repr h root (Ctx.plug rest (f.fill t))) (hinv : EraseInv (f :: rest) t k) (ht : t.rootColor = .black) :
    (∃ m next h', m < rest.length + 2 ∧
      (rb_erase_rebalance_case f.side (some f.elem.addr) root).run h = .ok (.inl next, h') ∧
      EraseLoopInv (Ctx.plug rest (f.fill t)).toList m next h') ∨
    ∃ res h', (rb_erase_rebalance_case f.side (some f.elem.addr) root).run h = .ok (.inr res, h') ∧
      EraseLoopPost (Ctx.plug rest (f.fill t)).toList res h' := by
  have hparent := hr.cells_frame
  obtain ⟨c, y, near, far, rest₁, root₁, h₁, hrun₁, hr₁, hinv₁, hlen, hlist⟩ := hr.run_rb_erase_rebalance_red hinv
  have hblack := (Repr.focus_far.mp hr₁).run_blackChildren
  rw [← hlist]
  by_cases hchildren : near.rootColor = .black ∧ far.rootColor = .black
  · left
    obtain ⟨k', hinv'⟩ := hinv₁.black_sibling ht hchildren.1 hchildren.2
    obtain ⟨h₂, hrun₂, hr₂⟩ := (Repr.focus_far.mp hr₁).setColor_focus .red
    have hr₃ := Repr.focus_far.mpr hr₂
    have hload := hr₃.cells_focus
    refine ⟨_, (some f.elem.addr, ctxPtr rest₁, root₁), h₂, Nat.lt_succ_of_le hlen, ?_, rest₁, _, k', hr₃, by simp,
      rfl, hinv', ?_, by simp⟩
    · simp only [rb_erase_rebalance_case, run_bind, run_load hparent, record_child_flip, hrun₁, hblack, hchildren,
        and_self, decide_true, if_true, hrun₂, run_load hload, record_parent, run_pure]
    · exact Ctx.toList_plug_congr rest₁ (RBTree.toList_mk_congr _ _ _ _ rfl (RBTree.toList_mk_congr _ _ _ _ rfl rfl))
  · right
    obtain ⟨y', near', far', root₂, h₂, hrun₂, hr₂, hinv₂, hfar, hlist₂⟩ :=
      hr₁.run_rb_erase_rebalance_inner hinv₁ hchildren
    obtain ⟨root₃, h₃, hrun₃, hr₃⟩ := hr₂.run_rb_erase_rebalance_last
    obtain ⟨m, hm⟩ := hinv₂.far_red ht hfar
    have hpaint := RBTree.paint_rootColor (Ctx.plug rest₁ (.mk f.side c y' (.mk f.side .black f.elem t near')
      (far'.paint .black)))
    rw [hm.rootColor_eq] at hpaint
    refine ⟨(root₃, root₃), h₃, ?_, [], _, m, hr₃, hr₃.root_eq, by rw [Ctx.plug_nil, hpaint]; exact hm, ?_⟩
    · simp only [rb_erase_rebalance_case, run_bind, run_load hparent, record_child_flip, hrun₁, hblack, hchildren,
        decide_false, Bool.false_eq_true, if_false, hrun₂, hrun₃, run_pure]
    · rw [Ctx.plug_nil]
      apply Ctx.toList_plug_congr
      calc (RBTree.mk f.side c y' (.mk f.side .black f.elem t near') (far'.paint .black)).toList
        _ = (RBTree.mk f.side c y' (.mk f.side .black f.elem t near') far').toList :=
          RBTree.toList_mk_congr _ _ _ _ rfl (RBTree.toList_paint _ _)
        _ = (RBTree.mk f.side c f.elem t (.mk f.side .black y' near' far')).toList :=
          (RBTree.toList_rotate f.side ..).symm
        _ = (RBTree.mk f.side c f.elem t (.mk f.side .black y near far)).toList :=
          RBTree.toList_mk_congr _ _ _ _ rfl hlist₂

/-- A round of the repair keeps the elements, and the missing black rises or is made up for. -/
theorem eraseLoopInv_step (elems : List Cell) (n : Nat) (locals : Ptr × Ptr × Ptr) (h : Heap rb_node_t)
    (hinv : EraseLoopInv elems n locals h) :
    (∃ m next h', m < n ∧ (rb_erase_rebalance_body locals).run h = .ok (.inl next, h') ∧
      EraseLoopInv elems m next h') ∨
    ∃ res h', (rb_erase_rebalance_body locals).run h = .ok (.inr res, h') ∧ EraseLoopPost elems res h' := by
  obtain ⟨ctx, t, k, hr, hnode, hparent, hinv, rfl, hn⟩ := hinv
  obtain ⟨node, parent, root⟩ := locals
  simp only at hr hnode hparent
  subst hnode hparent
  have hisRed := hr.isRed_focus
  simp only [rb_erase_rebalance_body, run_bind, hisRed]
  by_cases hstop : ctx = [] ∨ t.rootColor = .red
  · right
    obtain ⟨m, hm⟩ := hinv.finish hstop
    refine ⟨(ptr t, root), h, ?_, ctx, t, m, hr, rfl, hm, rfl⟩
    rcases hstop with rfl | hred
    · simp [hr.root_eq]
    · simp [hred]
  · rw [not_or] at hstop
    obtain ⟨hctx, hred⟩ := hstop
    cases ctx with
    | nil => exact absurd rfl hctx
    | cons f rest =>
      have hblack : t.rootColor = .black := by
        cases hc : t.rootColor with
        | red => exact absurd hc hred
        | black => rfl
      have hfill : Repr h root (Ctx.plug rest (f.fill t)) := hr
      have hload := hfill.cells_frame
      have hside := record_sideOf f.elem f.side f.color _ _ (ctxPtr rest)
        (hfill.ptr_far_ne_near hinv.sibling_ne_nil).symm
      have hbody : (rb_erase_rebalance_body (ptr t, ctxPtr (f :: rest), root)).run h =
          (rb_erase_rebalance_case f.side (some f.elem.addr) root).run h := by
        simp only [rb_erase_rebalance_body, run_bind, hisRed, hred, decide_false, Bool.false_eq_true, hr.ptr_ne_root,
          or_self, if_false, ctxPtr_cons, run_load hload, hside]
      simp only [rb_erase_rebalance_body, run_bind, hisRed] at hbody
      rw [hbody]
      rcases hfill.run_rb_erase_rebalance_case hinv hblack with ⟨m, next, h', hlt, hrun, hnext⟩ | hdone
      · simp only [List.length_cons, hred, if_false] at hn
        exact .inl ⟨m, next, h', by omega, hrun, hnext⟩
      · exact .inr hdone

/-- The repair of an erasure ends within one round more than the position is
deep, and leaves a red-black tree with the same nodes. -/
theorem Repr.run_rb_erase_rebalance (hr : Repr h root (Ctx.plug ctx t)) (hinv : EraseInv ctx t k) :
    ∃ root' h' t' m, (∀ fuel, ctx.length + 1 < fuel →
        (rb_erase_rebalance fuel (ptr t) (ctxPtr ctx) root).run h = .ok (root', h')) ∧
      Repr h' root' t' ∧ Balanced t' .black m ∧ t'.toList = (Ctx.plug ctx t).toList := by
  have hinit : EraseLoopInv (Ctx.plug ctx t).toList (ctx.length + 1) (ptr t, ctxPtr ctx, root) h :=
    ⟨ctx, t, k, hr, rfl, rfl, hinv, rfl, by split <;> omega⟩
  obtain ⟨⟨node, root'⟩, h₁, hrun, ctx₁, t₁, m, hr₁, hnode, hm, hlist⟩ :=
    loop_total _ _ (eraseLoopInv_step (Ctx.plug ctx t).toList) hinit
  simp only at hr₁ hnode
  obtain ⟨h₂, hrun₂, hr₂⟩ := hr₁.setColorIf_root .black
  rw [← hnode] at hrun₂
  refine ⟨root', h₂, _, m, fun fuel hfuel => ?_, hr₂, hm, ?_⟩
  · simp only [rb_erase_rebalance, run_bind, hrun fuel hfuel, hrun₂, run_pure]
  · rw [← hlist]
    exact Ctx.toList_plug_congr ctx₁ (RBTree.toList_paint _ _)

end basic_data_struct.rbtree
