import BasicDataStruct.RedBlack.Balance

namespace red_black

variable {α : Type}

variable {ctx rest : Ctx α} {t : RBTree α} {f g : Frame α}

/-- The state of an insertion that is still being repaired: the subtree at the
position is red-black with a red root, and a black tree of its height would fit
there. Only the position and the node above it can both be red. -/
def InsertInv (ctx : Ctx α) (t : RBTree α) : Prop :=
  ∃ n, Balanced t .red n ∧ Fits ctx .black n

namespace InsertInv

/-- A new red leaf may replace any empty subtree of a red-black tree. -/
theorem of_leaf {m : Nat} (h : Balanced (ctx.plug .nil) .black m) (x : α) :
    InsertInv ctx (.node .red .nil x .nil) := by
  obtain ⟨n, hnil, hctx⟩ := Fits.of_plug h
  cases hnil
  exact ⟨0, .red x .nil .nil, hctx⟩

theorem rootColor_eq (h : InsertInv ctx t) : t.rootColor = .red := by
  obtain ⟨n, ht, _⟩ := h
  exact ht.rootColor_eq

/-- A red parent is not the root, and the grandparent is black. -/
theorem gparent (h : InsertInv (f :: ctx) t)
    (hf : f.color = .red) : ∃ g rest, ctx = g :: rest ∧ g.color = .black := by
  obtain ⟨n, _, hctx⟩ := h
  cases hctx with
  | black => simp at hf
  | red _ _ _ hctx =>
    cases hctx with
    | black s x _ _ _ => exact ⟨_, _, rfl, rfl⟩

/-- The parts around a red parent below its black grandparent. -/
private theorem parts {f g : Frame α} {rest : Ctx α} {t : RBTree α} (h : InsertInv (f :: g :: rest) t)
    (hf : f.color = .red) : ∃ n, Balanced t .red n ∧ Balanced f.sibling .black n ∧
      Balanced g.sibling g.sibling.rootColor n ∧ Fits rest .black (n + 1) := by
  obtain ⟨n, ht, hctx⟩ := h
  cases hctx with
  | black => simp at hf
  | red _ _ hsib hctx =>
    cases hctx with
    | black _ _ _ huncle hrest => exact ⟨n, ht, hsib, huncle.at_rootColor, hrest⟩

/-- Red uncle: parent and uncle turn black, the grandparent turns red and takes
the place of the inserted node. -/
theorem recolor (h : InsertInv (f :: g :: rest) t) (hf : f.color = .red) (huncle : g.sibling.rootColor = .red) :
    InsertInv rest (.mk g.side .red g.elem (.mk f.side .black f.elem t f.sibling) (g.sibling.paint .black)) := by
  obtain ⟨n, ht, hsib, hu, hrest⟩ := parts h hf
  rw [huncle] at hu
  exact ⟨n + 1, .mk_red _ _ (ht.mk_black _ _ hsib) hu.paint_black_of_red, hrest⟩

/-- Black uncle, node on the outer side: one rotation at the grandparent. -/
theorem outer (h : InsertInv (f :: g :: rest) t)
    (hf : f.color = .red) (huncle : g.sibling.rootColor = .black) (s : Side) :
    InsertInv (⟨s, .black, f.elem, .mk s .red g.elem f.sibling g.sibling⟩ :: rest) t := by
  obtain ⟨n, ht, hsib, hu, hrest⟩ := parts h hf
  rw [huncle] at hu
  exact ⟨n, ht, .black s f.elem .black (hsib.mk_red s g.elem hu) hrest⟩

/-- Black uncle, node on the inner side: a rotation at the parent comes first,
after which the former parent is the lower of the two red nodes. -/
theorem inner {s : Side} {c : Color} {x : α} {a b : RBTree α} (h : InsertInv (f :: g :: rest) (.mk s c x a b))
    (hf : f.color = .red) (huncle : g.sibling.rootColor = .black) :
    InsertInv (⟨s, .black, x, .mk s .red g.elem b g.sibling⟩ :: rest) (.mk s .red f.elem f.sibling a) := by
  obtain ⟨n, ht, hsib, hu, hrest⟩ := parts h hf
  rw [huncle] at hu
  obtain ⟨_, ha, hb⟩ := ht.red_children
  exact ⟨n, hsib.mk_red s f.elem ha, .black s x .black (hb.mk_red s g.elem hu) hrest⟩

/-- Without a red parent the repair is over: painting the root black leaves a
red-black tree. -/
theorem finish (h : InsertInv ctx t) (hstop : ∀ f rest, ctx = f :: rest → f.color = .black) :
    ∃ m, Balanced ((ctx.plug t).paint .black) .black m := by
  obtain ⟨n, ht, hctx⟩ := h
  cases ctx with
  | nil => exact ⟨n + 1, ht.paint_black_of_red⟩
  | cons f rest =>
    obtain ⟨m, hm⟩ := (hctx.of_black_frame (hstop f rest rfl) .red).plug ht
    have hpaint := (Ctx.plug (f :: rest) t).paint_rootColor
    rw [hm.rootColor_eq] at hpaint
    rw [hpaint]
    exact ⟨m, hm⟩

end InsertInv

end red_black
