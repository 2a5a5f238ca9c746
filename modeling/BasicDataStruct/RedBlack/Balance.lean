import BasicDataStruct.RedBlack.Tree

namespace red_black

variable {α : Type}

variable {near far t : RBTree α} {n m : Nat} {c d e : Color} {s : Side} {x : α} {ctx : Ctx α}

/-- A red-black tree with root colour `c` and black height `n`: no red node has
a red child and all paths to the leaves cross `n` black nodes. -/
inductive Balanced : RBTree α → Color → Nat → Prop where
  | nil : Balanced .nil .black 0
  | red {l r : RBTree α} {n : Nat} (x : α) (hl : Balanced l .black n) (hr : Balanced r .black n) :
      Balanced (.node .red l x r) .red n
  | black {l r : RBTree α} {c d : Color} {n : Nat} (x : α) (hl : Balanced l c n) (hr : Balanced r d n) :
      Balanced (.node .black l x r) .black (n + 1)

namespace Balanced

theorem mk_red (s : Side) (x : α) (hn : Balanced near .black n) (hf : Balanced far .black n) :
    Balanced (RBTree.mk s .red x near far) .red n := by
  cases s with
  | left => exact .red x hn hf
  | right => exact .red x hf hn

theorem mk_black (s : Side) (x : α) (hn : Balanced near c n) (hf : Balanced far d n) :
    Balanced (RBTree.mk s .black x near far) .black (n + 1) := by
  cases s with
  | left => exact .black x hn hf
  | right => exact .black x hf hn

theorem rootColor_eq (h : Balanced t c n) : t.rootColor = c := by
  cases h <;> rfl

theorem at_rootColor (h : Balanced t c n) : Balanced t t.rootColor n := by
  rw [h.rootColor_eq]
  exact h

theorem ne_nil_of_succ (h : Balanced t c (n + 1)) : t ≠ .nil := by
  rintro rfl
  cases h

/-- A red root has two black subtrees of the same height, seen from any side. -/
theorem red_children (h : Balanced (RBTree.mk s e x near far) .red n) :
    e = .red ∧ Balanced near .black n ∧ Balanced far .black n := by
  cases s <;> cases h <;> exact ⟨rfl, by assumption, by assumption⟩

/-- A black root has two subtrees of the next smaller height. -/
theorem black_children (h : Balanced (RBTree.mk s e x near far) .black (n + 1)) :
    e = .black ∧ Balanced near near.rootColor n ∧ Balanced far far.rootColor n := by
  cases s with
  | left => cases h with | black _ hl hr => exact ⟨rfl, hl.at_rootColor, hr.at_rootColor⟩
  | right => cases h with | black _ hl hr => exact ⟨rfl, hr.at_rootColor, hl.at_rootColor⟩

/-- Painting a red root black raises the black height by one. -/
theorem paint_black_of_red (h : Balanced t .red n) : Balanced (t.paint .black) .black (n + 1) := by
  cases h with
  | red x hl hr => exact .black x hl hr

/-- Painting a black root red is safe when both subtrees are black. -/
theorem paint_red (h : Balanced (RBTree.mk s e x near far) .black (n + 1))
    (hn : near.rootColor = .black) (hf : far.rootColor = .black) :
    Balanced (RBTree.mk s .red x near far) .red n := by
  obtain ⟨_, hnear, hfar⟩ := h.black_children
  exact mk_red s x (hn ▸ hnear) (hf ▸ hfar)

end Balanced

/-- The surroundings of a position into which a red-black tree with root colour
`c` and black height `n` fits so that the whole is a red-black tree with a black
root. -/
inductive Fits : Ctx α → Color → Nat → Prop where
  | root (n : Nat) : Fits [] .black n
  | red {ctx : Ctx α} {sib : RBTree α} {n : Nat} (s : Side) (x : α)
      (hsib : Balanced sib .black n) (hctx : Fits ctx .red n) : Fits (⟨s, .red, x, sib⟩ :: ctx) .black n
  | black {ctx : Ctx α} {sib : RBTree α} {d : Color} {n : Nat} (s : Side) (x : α) (c : Color)
      (hsib : Balanced sib d n) (hctx : Fits ctx .black (n + 1)) : Fits (⟨s, .black, x, sib⟩ :: ctx) c n

namespace Fits

/-- Where a red tree fits, a black one of the same height fits as well. -/
theorem to_black (h : Fits ctx c n) : Fits ctx .black n := by
  cases h with
  | root => exact .root n
  | red s x hsib hctx => exact .red s x hsib hctx
  | black s x _ hsib hctx => exact .black s x .black hsib hctx

/-- Below a black node every colour fits. -/
theorem of_black_frame {f : Frame α}
    (h : Fits (f :: ctx) c n) (hf : f.color = .black) (d : Color) : Fits (f :: ctx) d n := by
  cases h with
  | red => simp at hf
  | black s x _ hsib hctx => exact .black s x d hsib hctx

theorem plug (h : Fits ctx c n) (ht : Balanced t c n) : ∃ m, Balanced (ctx.plug t) .black m := by
  induction h generalizing t with
  | root n => exact ⟨n, ht⟩
  | red s x hsib _ ih => exact ih (ht.mk_red s x hsib)
  | black s x _ hsib _ ih => exact ih (ht.mk_black s x hsib)

/-- A position inside a red-black tree: the subtree there is red-black, and its
surroundings accept exactly its colour and height. -/
theorem of_plug (h : Balanced (ctx.plug t) .black m) : ∃ n, Balanced t t.rootColor n ∧ Fits ctx t.rootColor n := by
  induction ctx generalizing t with
  | nil =>
    have hroot : t.rootColor = .black := h.rootColor_eq
    rw [hroot]
    exact ⟨m, h, .root m⟩
  | cons f ctx ih =>
    obtain ⟨s, c, x, sib⟩ := f
    obtain ⟨n, hfill, hctx⟩ := ih h
    simp only [Frame.fill, RBTree.rootColor_mk] at hfill hctx
    cases c with
    | red =>
      obtain ⟨_, ht, hsib⟩ := hfill.red_children
      rw [ht.rootColor_eq]
      exact ⟨n, ht, .red s x hsib hctx⟩
    | black =>
      cases n with
      | zero => cases s <;> cases hfill
      | succ n =>
        obtain ⟨_, ht, hsib⟩ := hfill.black_children
        exact ⟨n, ht, .black s x _ hsib hctx⟩

/-- The elements do not matter for the balance. -/
theorem congr_elem {inner : Ctx α} {sib : RBTree α}
    (h : Fits (inner ++ ⟨s, c, x, sib⟩ :: ctx) d n) (y : α) : Fits (inner ++ ⟨s, c, y, sib⟩ :: ctx) d n := by
  induction inner generalizing d n with
  | nil =>
    cases h with
    | red _ _ hsib hctx => exact .red s y hsib hctx
    | black _ _ _ hsib hctx => exact .black s y d hsib hctx
  | cons f inner ih =>
    cases h with
    | red t z hsib hctx => exact .red t z hsib (ih hctx)
    | black t z _ hsib hctx => exact .black t z d hsib (ih hctx)

/-- The two parts of a node with at most one child: the child and the place it
moves to. -/
theorem of_only_child {u : RBTree α} (h : Balanced (ctx.plug (.mk s c x .nil u)) .black m) :
    Balanced u u.rootColor 0 ∧ (c = .red → u.rootColor = .black ∧ Fits ctx .black 0) ∧
      (c = .black → Fits ctx .black 1) := by
  obtain ⟨n, hnode, hctx⟩ := of_plug h
  rw [RBTree.rootColor_mk] at hnode hctx
  cases c with
  | red =>
    obtain ⟨_, hnil, hu⟩ := hnode.red_children
    cases hnil
    exact ⟨hu.at_rootColor, fun _ => ⟨hu.rootColor_eq, hctx.to_black⟩, by simp⟩
  | black =>
    cases n with
    | zero => cases s <;> cases hnode
    | succ n =>
      obtain ⟨_, hnil, hu⟩ := hnode.black_children
      cases hnil
      exact ⟨hu, by simp, fun _ => hctx⟩

end Fits

end red_black
