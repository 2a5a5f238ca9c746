import BasicDataStruct.RbTree.Search
import BasicDataStruct.RbTree.Successor

open machine machine.Exec red_black

namespace basic_data_struct.rbtree

variable {h : Heap rb_node_t} {root : Ptr}

variable {ctx : Ctx Cell} {x : Cell} {t : RBTree Cell} {key : key_t}

/-- Taking out a node removes exactly its element, whatever children it has. -/
theorem Repr.run_rb_erase_remove {c : Color} {l r : RBTree Cell} {m : Nat}
    (hr : Repr h root (ctx.plug (.node c l x r))) (hbal : Balanced (ctx.plug (.node c l x r)) .black m) :
    ∃ ctx' u color h', (∀ fuel, (ctx.plug (.node c l x r)).toList.length < fuel →
        (rb_erase_remove fuel (some x.addr) root).run h =
          .ok ((ptr u, ctxPtr ctx', color, ptr (ctx'.plug u)), h')) ∧
      Removed h' x ctx' u color ∧
      (ctx'.plug u).toList = ctx.before ++ (l.toList ++ r.toList ++ ctx.after) := by
  have hx := hr.cells_focus (s := .left)
  have hone : ¬ (ptr l ≠ none ∧ ptr r ≠ none) → ∀ fuel, (rb_erase_remove fuel (some x.addr) root).run h =
      (rb_erase_one (some x.addr) root).run h := by
    intro hnot fuel
    simp only [rb_erase_remove, run_bind, run_load hx]
    rw [if_neg]
    exact hnot
  by_cases hl : l = .nil
  · subst hl
    have hmk : RBTree.node c .nil x r = .mk .left c x .nil r := rfl
    rw [hmk] at hr hbal
    obtain ⟨h', hrun, hrem⟩ := hr.run_rb_erase_one hbal
    refine ⟨ctx, r, c, h', fun fuel _ => ?_, hrem, Ctx.toList_plug ctx r⟩
    rw [hone (by simp), hrun]
  by_cases hright : r = .nil
  · subst hright
    have hmk : RBTree.node c l x .nil = .mk .right c x .nil l := rfl
    rw [hmk] at hr hbal
    obtain ⟨h', hrun, hrem⟩ := hr.run_rb_erase_one hbal
    refine ⟨ctx, l, c, h', fun fuel _ => ?_, hrem, by simp [Ctx.toList_plug, RBTree.toList]⟩
    rw [hone (by simp), hrun]
  obtain ⟨ctx', u, color, h', hrun, hrem, hlist⟩ := hr.run_rb_erase_two hbal hl hright
  refine ⟨ctx', u, color, h', fun fuel hfuel => ?_, hrem, hlist⟩
  have hlen : r.toList.length < fuel := by
    simp only [Ctx.toList_plug, RBTree.toList, List.length_append, List.length_cons] at hfuel
    omega
  simp only [rb_erase_remove, run_bind, run_load hx]
  rw [if_pos, hrun fuel hlen]
  exact ⟨ptr_eq_none.not.mpr hl, ptr_eq_none.not.mpr hright⟩

/-- Erasing an absent key changes nothing. -/
theorem Repr.run_rb_erase_of_notMem (hr : Repr h root t) (hs : Sorted t)
    (hagree : ∀ x ∈ t.toList, Agree x.key key) (hmem : ¬ ∃ x ∈ t.toList, x.key = key)
    {fuel : Nat} (hfuel : t.toList.length < fuel) : (rb_erase fuel key root).run h = .ok (root, h) := by
  obtain ⟨res, hrun, hfound⟩ := run_rb_search_auxiliary hr hs hagree none
  cases hfound with
  | hit htree hkey => exact absurd ⟨_, by rw [htree, Ctx.toList_plug]; simp [RBTree.toList], hkey⟩ hmem
  | miss htree hp => simp [rb_erase, run_bind, hrun fuel hfuel]

/-- The end of an erasure, after the node has been taken out: its memory is
released, and the tree is repaired if a black node went missing. -/
theorem Removed.run_finish {u : RBTree Cell} {color : color_t} (hrem : Removed h x ctx u color) :
    ∃ root' h' t' m, (∀ fuel, ctx.length + 1 < fuel →
        (do free (some x.addr)
            if color = BLACK then rb_erase_rebalance fuel (ptr u) (ctxPtr ctx) (ptr (ctx.plug u))
            else return (ptr (ctx.plug u)) : Prog Ptr).run h = .ok (root', h')) ∧
      Repr h' root' t' ∧ Balanced t' .black m ∧ t'.toList = (ctx.plug u).toList := by
  obtain ⟨v, hv⟩ := Option.ne_none_iff_exists'.mp hrem.live
  have hr := repr_release hrem.spells hrem.nodup hrem.apart hrem.exact
  cases color with
  | red =>
    obtain ⟨m, hm⟩ := hrem.balance.2 rfl
    refine ⟨_, _, _, m, fun fuel _ => ?_, hr, hm, rfl⟩
    simp [run_bind, run_free hv]
  | black =>
    obtain ⟨k, hinv⟩ := hrem.balance.1 rfl
    obtain ⟨root', h', t', m, hrun, hr', hbal, hlist⟩ := hr.run_rb_erase_rebalance hinv
    refine ⟨root', h', t', m, fun fuel hfuel => ?_, hr', hbal, hlist⟩
    simp [run_bind, run_free hv, hrun fuel hfuel]

/-- Erasing a present key removes exactly the node with that key and leaves a
red-black tree. -/
theorem Repr.run_rb_erase_of_mem (hr : Repr h root t) (hs : Sorted t) {n : Nat}
    (hbal : Balanced t .black n) (hagree : ∀ x ∈ t.toList, Agree x.key key)
    (hmem : ∃ x ∈ t.toList, x.key = key) :
    ∃ root' h' t' m pre x post, (∀ fuel, t.toList.length < fuel →
        (rb_erase fuel key root).run h = .ok (root', h')) ∧
      Repr h' root' t' ∧ Balanced t' .black m ∧ x.key = key ∧ t.toList = pre ++ x :: post ∧
      t'.toList = pre ++ post := by
  obtain ⟨res, hrun, hfound⟩ := run_rb_search_auxiliary hr hs hagree none
  cases hfound with
  | miss htree hp => exact absurd (htree ▸ hmem) hp.notMem
  | @hit ctx c l r x htree hkey =>
    subst htree
    obtain ⟨ctx', u, color, h₁, hremove, hrem, hlist⟩ := hr.run_rb_erase_remove hbal
    obtain ⟨root', h', t', m, hfinish, hr', hbal', hlist'⟩ := hrem.run_finish
    refine ⟨root', h', t', m, ctx.before ++ l.toList, x, r.toList ++ ctx.after, fun fuel hfuel => ?_, hr', hbal',
      hkey, by simp [Ctx.toList_plug, RBTree.toList], by simp [hlist', hlist]⟩
    have hdepth := Ctx.length_le_toList_plug ctx' u
    have hlen : ctx'.length + 1 < fuel := by
      rw [hlist] at hdepth
      simp only [Ctx.toList_plug, RBTree.toList, List.length_append, List.length_cons] at hfuel hdepth
      omega
    rw [← hfinish fuel hlen]
    simp [rb_erase, run_bind, hrun fuel hfuel, hremove fuel hfuel]

end basic_data_struct.rbtree
