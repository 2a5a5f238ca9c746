import Mathlib.Data.List.Basic

namespace red_black

inductive Color where
  | red
  | black
deriving DecidableEq, Inhabited

/-- The two directions of a binary tree. Mirrored cases are stated once, for an
arbitrary side and its opposite. -/
inductive Side where
  | left
  | right
deriving DecidableEq, Repr

def Side.flip : Side → Side
  | .left => .right
  | .right => .left

@[simp] theorem Side.flip_flip (s : Side) : s.flip.flip = s := by cases s <;> rfl

theorem Side.eq_flip_of_ne {s r : Side} (h : r ≠ s) : r = s.flip := by
  cases s <;> cases r <;> simp_all [Side.flip]

/-- A binary tree with coloured nodes. -/
inductive RBTree (α : Type) where
  | nil
  | node (color : Color) (left : RBTree α) (elem : α) (right : RBTree α)

namespace RBTree

variable {α : Type}

/-- The elements in symmetric order. -/
def toList : RBTree α → List α
  | nil => []
  | node _ l x r => l.toList ++ x :: r.toList

/-- The colour of the root; an empty tree counts as black. -/
def rootColor : RBTree α → Color
  | nil => .black
  | node c _ _ _ => c

/-- Paint the root; an empty tree stays empty. -/
def paint (c : Color) : RBTree α → RBTree α
  | nil => nil
  | node _ l x r => node c l x r

/-- A node given by the subtree on side `s` and the subtree opposite to it. -/
def mk (s : Side) (c : Color) (x : α) (near far : RBTree α) : RBTree α :=
  match s with
  | .left => node c near x far
  | .right => node c far x near

theorem mk_flip (s : Side) (c : Color) (x : α) (near far : RBTree α) :
    mk s.flip c x near far = mk s c x far near := by
  cases s <;> rfl

/-- Every nonempty tree is a node seen from either side. -/
theorem eq_mk_of_ne_nil {t : RBTree α} (h : t ≠ nil) (s : Side) :
    ∃ c x near far, t = mk s c x near far := by
  cases t with
  | nil => exact absurd rfl h
  | node c l x r =>
    cases s with
    | left => exact ⟨c, x, l, r, rfl⟩
    | right => exact ⟨c, x, r, l, rfl⟩

@[simp] theorem rootColor_mk (s : Side) (c : Color) (x : α) (near far : RBTree α) :
    (mk s c x near far).rootColor = c := by
  cases s <;> rfl

@[simp] theorem paint_mk (s : Side) (c d : Color) (x : α) (near far : RBTree α) :
    (mk s c x near far).paint d = mk s d x near far := by
  cases s <;> rfl

@[simp] theorem paint_rootColor (t : RBTree α) : t.paint t.rootColor = t := by
  cases t <;> rfl

theorem eq_nil_of_length {t : RBTree α} (h : t.toList.length = 0) : t = .nil := by
  cases t with
  | nil => rfl
  | node c l x r => simp [toList] at h

@[simp] theorem toList_paint (c : Color) (t : RBTree α) : (t.paint c).toList = t.toList := by
  cases t <;> rfl

/-- The elements depend on the shape only, not on the colours. -/
theorem toList_mk_congr (s : Side) (c d : Color) (x : α) {near near' far far' : RBTree α}
    (hn : near.toList = near'.toList) (hf : far.toList = far'.toList) :
    (mk s c x near far).toList = (mk s d x near' far').toList := by
  cases s <;> simp [mk, toList, hn, hf]

/-- Rotating a node with its child on the opposite side keeps symmetric order. -/
theorem toList_rotate (s : Side) (c₁ c₂ d₁ d₂ : Color) (x y : α) (a b e : RBTree α) :
    (mk s c₁ x a (mk s c₂ y b e)).toList = (mk s d₁ y (mk s d₂ x a b) e).toList := by
  cases s <;> simp [mk, toList]

theorem toList_rotate_flip (s : Side) (c₁ c₂ d₁ d₂ : Color) (x y : α) (a b e : RBTree α) :
    (mk s c₁ x (mk s c₂ y e b) a).toList = (mk s d₁ y e (mk s d₂ x b a)).toList := by
  cases s <;> simp [mk, toList]

end RBTree

/-- One step of the way from a position to the root: the node above it, the side
on which the position hangs, and the subtree on the other side. -/
structure Frame (α : Type) where
  side : Side
  color : Color
  elem : α
  sibling : RBTree α

namespace Frame

variable {α : Type}

def fill (f : Frame α) (t : RBTree α) : RBTree α := RBTree.mk f.side f.color f.elem t f.sibling

def toList (f : Frame α) : List α := f.elem :: f.sibling.toList

end Frame

/-- The way from a position to the root, innermost node first. -/
abbrev Ctx (α : Type) := List (Frame α)

namespace Ctx

variable {α : Type}

/-- Put a subtree at the position and rebuild the whole tree. -/
def plug : Ctx α → RBTree α → RBTree α
  | [], t => t
  | f :: ctx, t => plug ctx (f.fill t)

/-- The elements around the position, in no particular order. -/
def elems (ctx : Ctx α) : List α := ctx.flatMap Frame.toList

/-- The elements that precede the position in symmetric order. -/
def before : Ctx α → List α
  | [] => []
  | f :: ctx => before ctx ++ (match f.side with
    | .left => []
    | .right => f.sibling.toList ++ [f.elem])

/-- The elements that follow the position in symmetric order. -/
def after : Ctx α → List α
  | [] => []
  | f :: ctx => (match f.side with
    | .left => f.elem :: f.sibling.toList
    | .right => []) ++ after ctx

@[simp] theorem plug_nil (t : RBTree α) : plug [] t = t := rfl

@[simp] theorem plug_cons (f : Frame α) (ctx : Ctx α) (t : RBTree α) :
    plug (f :: ctx) t = plug ctx (f.fill t) := rfl

@[simp] theorem elems_nil : elems ([] : Ctx α) = [] := rfl

@[simp] theorem elems_cons (f : Frame α) (ctx : Ctx α) :
    elems (f :: ctx) = f.elem :: (f.sibling.toList ++ elems ctx) := rfl

theorem plug_append (ctx ctx' : Ctx α) (t : RBTree α) : plug (ctx ++ ctx') t = plug ctx' (plug ctx t) := by
  induction ctx generalizing t with
  | nil => rfl
  | cons f ctx ih => simp [ih]

theorem toList_plug (ctx : Ctx α) (t : RBTree α) :
    (plug ctx t).toList = before ctx ++ (t.toList ++ after ctx) := by
  induction ctx generalizing t with
  | nil => simp [before, after]
  | cons f ctx ih =>
    rw [plug_cons, ih]
    cases hs : f.side <;> simp [Frame.fill, hs, RBTree.mk, RBTree.toList, before, after]

/-- Trees with the same elements are interchangeable at a position. -/
theorem toList_plug_congr (ctx : Ctx α) {t u : RBTree α} (h : t.toList = u.toList) :
    (plug ctx t).toList = (plug ctx u).toList := by
  rw [toList_plug, toList_plug, h]

/-- Every element of a tree is the root of a subtree. -/
theorem exists_plug_of_mem {t : RBTree α} {x : α} (hx : x ∈ t.toList) :
    ∃ ctx c l r, t = plug ctx (.node c l x r) := by
  induction t with
  | nil => simp [RBTree.toList] at hx
  | node c l y r ihl ihr =>
    simp only [RBTree.toList, List.mem_append, List.mem_cons] at hx
    rcases hx with hx | rfl | hx
    · obtain ⟨ctx, d, l', r', rfl⟩ := ihl hx
      exact ⟨ctx ++ [⟨.left, c, y, r⟩], d, l', r', by rw [plug_append]; rfl⟩
    · exact ⟨[], c, l, r, rfl⟩
    · obtain ⟨ctx, d, l', r', rfl⟩ := ihr hx
      exact ⟨ctx ++ [⟨.right, c, y, l⟩], d, l', r', by rw [plug_append]; rfl⟩

theorem toList_plug_perm (ctx : Ctx α) (t : RBTree α) :
    (plug ctx t).toList.Perm (t.toList ++ elems ctx) := by
  induction ctx generalizing t with
  | nil => simp
  | cons f ctx ih =>
    refine (ih (f.fill t)).trans ?_
    cases hs : f.side with
    | left => simp [Frame.fill, hs, RBTree.mk, RBTree.toList]
    | right =>
      simp only [Frame.fill, hs, RBTree.mk, RBTree.toList, elems_cons]
      rw [List.append_assoc, List.cons_append]
      exact List.perm_middle.trans (((List.perm_append_comm_assoc _ _ _).cons _).trans List.perm_middle.symm)

/-- A position is at most as deep as the tree has elements. -/
theorem length_le_toList_plug (ctx : Ctx α) (t : RBTree α) :
    ctx.length + t.toList.length ≤ (plug ctx t).toList.length := by
  have hlen : ctx.length ≤ (elems ctx).length := by
    induction ctx with
    | nil => simp
    | cons f ctx ih =>
      simp only [elems_cons, List.length_cons, List.length_append]
      omega
  have hperm := (toList_plug_perm ctx t).length_eq
  simp only [List.length_append] at hperm
  omega

end Ctx

end red_black
