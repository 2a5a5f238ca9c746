import BasicDataStruct.RedBlack.Balance

namespace red_black

variable {α : Type}

variable {ctx rest : Ctx α} {t near far : RBTree α} {c : Color} {n : Nat} {f : Frame α} {s : Side} {x y : α}

/-- The state of an erasure that is still being repaired: the subtree at the
position is one black node short of the height `n + 1` its surroundings expect.
A red root may have a red child here, because it is about to be painted black. -/
structure EraseInv (ctx : Ctx α) (t : RBTree α) (n : Nat) : Prop where
  short : t.rootColor = .black → Balanced t .black n
  repairable : t.rootColor = .red → Balanced (t.paint .black) .black (n + 1)
  fits : Fits ctx .black (n + 1)

namespace EraseInv

/-- Removing a black node leaves its only subtree one black node short. -/
theorem of_balanced (ht : Balanced t c n) (hctx : Fits ctx .black (n + 1)) : EraseInv ctx t n where
  short hc := by
    have hself := ht.at_rootColor
    rwa [hc] at hself
  repairable hc := by
    have hself := ht.at_rootColor
    rw [hc] at hself
    exact hself.paint_black_of_red
  fits := hctx

/-- Taking out a node with at most one child: a black node leaves a short
position behind, a red one leaves a red-black tree. -/
theorem of_only_child {u : RBTree α} (hu : Balanced u u.rootColor 0)
    (hred : c = .red → u.rootColor = .black ∧ Fits ctx .black 0) (hblack : c = .black → Fits ctx .black 1) :
    (c = .black → ∃ k, EraseInv ctx u k) ∧ (c = .red → ∃ m, Balanced (ctx.plug u) .black m) := by
  constructor
  · intro hc
    exact ⟨0, of_balanced hu (hblack hc)⟩
  · intro hc
    obtain ⟨hroot, hctx⟩ := hred hc
    rw [hroot] at hu
    exact hctx.plug hu

/-- The sibling has at least one black level, so it is not empty. -/
theorem sibling (h : EraseInv (f :: rest) t n) : Balanced f.sibling f.sibling.rootColor (n + 1) := by
  cases h.fits with
  | red _ _ hsib _ => exact hsib.at_rootColor
  | black _ _ _ hsib _ => exact hsib.at_rootColor

theorem sibling_ne_nil (h : EraseInv (f :: rest) t n) : f.sibling ≠ .nil :=
  h.sibling.ne_nil_of_succ

/-- Red sibling: after the rotation at the parent the position has a black
sibling and a red parent, and is as short as before. -/
theorem red_sibling (h : EraseInv (⟨s, c, x, .mk s .red y near far⟩ :: rest) t n) :
    near.rootColor = .black ∧ EraseInv (⟨s, .red, x, near⟩ :: ⟨s, .black, y, far⟩ :: rest) t n := by
  have hred := h.sibling
  rw [RBTree.rootColor_mk] at hred
  obtain ⟨_, hnear, hfar⟩ := hred.red_children
  refine ⟨hnear.rootColor_eq, h.short, h.repairable, ?_⟩
  cases h.fits with
  | red _ _ hsib _ =>
    have hcolor := hsib.rootColor_eq
    simp at hcolor
  | black _ _ _ _ hrest => exact .red s x hnear (.black s y .red hfar hrest)

/-- Black sibling without red children: it turns red and the parent's subtree is
short in its turn. -/
theorem black_sibling (h : EraseInv (⟨s, c, x, .mk s .black y near far⟩ :: rest) t n) (ht : t.rootColor = .black)
    (hn : near.rootColor = .black) (hf : far.rootColor = .black) :
    ∃ m, EraseInv rest (.mk s c x t (.mk s .red y near far)) m := by
  have hsib := h.sibling
  rw [RBTree.rootColor_mk] at hsib
  have hred := hsib.paint_red hn hf
  have hparent := (h.short ht).mk_black s x hred
  cases h.fits with
  | red _ _ _ hrest =>
    exact ⟨n, fun hc => by simp at hc, fun _ => by simpa using hparent, hrest.to_black⟩
  | black _ _ _ _ hrest =>
    exact ⟨n + 1, fun _ => hparent, fun hc => by simp at hc, hrest⟩

/-- Black sibling with a red outer child: one rotation at the parent restores
the missing black level. -/
theorem far_red (h : EraseInv (⟨s, c, x, .mk s .black y near far⟩ :: rest) t n) (ht : t.rootColor = .black)
    (hf : far.rootColor = .red) :
    ∃ m, Balanced (Ctx.plug rest (.mk s c y (.mk s .black x t near) (far.paint .black))) .black m := by
  have hsib := h.sibling
  rw [RBTree.rootColor_mk] at hsib
  obtain ⟨_, hnear, hfar⟩ := hsib.black_children
  rw [hf] at hfar
  have hinner := (h.short ht).mk_black s x hnear
  have houter := hfar.paint_black_of_red
  cases h.fits with
  | red _ _ _ hrest => exact hrest.plug (hinner.mk_red s y houter)
  | black _ _ _ _ hrest => exact hrest.plug (hinner.mk_black s y houter)

/-- Black sibling with a red inner child only: a rotation at the sibling turns
this into the case of a red outer child. -/
theorem near_red {a b : RBTree α} {e : Color} {z : α}
    (h : EraseInv (⟨s, c, x, .mk s .black y (.mk s e z a b) far⟩ :: rest) t n)
    (he : e = .red) (hf : far.rootColor = .black) :
    EraseInv (⟨s, c, x, .mk s .black z a (.mk s .red y b far)⟩ :: rest) t n := by
  have hsib := h.sibling
  rw [RBTree.rootColor_mk] at hsib
  obtain ⟨_, hnear, hfar⟩ := hsib.black_children
  rw [hf] at hfar
  rw [RBTree.rootColor_mk, he] at hnear
  obtain ⟨_, ha, hb⟩ := hnear.red_children
  have hnew := ha.mk_black s z (hb.mk_red s y hfar)
  refine ⟨h.short, h.repairable, ?_⟩
  cases h.fits with
  | red _ _ _ hrest => exact .red s x hnew hrest
  | black _ _ _ _ hrest => exact .black s x .black hnew hrest

/-- At the root, or at a red node, painting the subtree black ends the repair. -/
theorem finish (h : EraseInv ctx t n)
    (hstop : ctx = [] ∨ t.rootColor = .red) : ∃ m, Balanced (ctx.plug (t.paint .black)) .black m := by
  by_cases hred : t.rootColor = .red
  · exact h.fits.plug (h.repairable hred)
  · have hblack : t.rootColor = .black := by
      cases hc : t.rootColor with
      | red => exact absurd hc hred
      | black => rfl
    have hnil : ctx = [] := hstop.resolve_right hred
    subst hnil
    have hpaint := t.paint_rootColor
    rw [hblack] at hpaint
    rw [hpaint]
    exact ⟨n, h.short hblack⟩

end EraseInv

end red_black
