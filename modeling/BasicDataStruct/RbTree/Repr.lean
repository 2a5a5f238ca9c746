import BasicDataStruct.RbTree.Model

open machine machine.Exec red_black

namespace basic_data_struct.rbtree

variable {t near far : RBTree Cell} {s : Side} {c : Color} {x : Cell} {a : Nat} {h h' : Heap rb_node_t}
  {parent : Ptr} {ctx : Ctx Cell}

/-- What a tree node is apart from its colour and its links. -/
structure Cell where
  addr : Nat
  key : key_t
  data : data_t
deriving DecidableEq

/-- The stored node of a cell: the link on side `s`, the opposite link and the
parent link are given. -/
def Cell.record (x : Cell) (s : Side) (c : color_t) (near far parent : Ptr) : rb_node_t :=
  match s with
  | .left => ⟨near, far, parent, x.key, x.data, c⟩
  | .right => ⟨far, near, parent, x.key, x.data, c⟩

section Record

variable (x : Cell) (s : Side) (c : color_t) (near far parent p : Ptr)

@[simp] theorem record_child : (x.record s c near far parent).child s = near := by cases s <;> rfl

@[simp] theorem record_child_flip : (x.record s c near far parent).child s.flip = far := by cases s <;> rfl

@[simp] theorem record_left : (x.record .left c near far parent).left = near := rfl

@[simp] theorem record_right : (x.record .left c near far parent).right = far := rfl

@[simp] theorem record_setChild :
    (x.record s c near far parent).setChild s p = x.record s c p far parent := by cases s <;> rfl

@[simp] theorem record_setChild_flip :
    (x.record s c near far parent).setChild s.flip p = x.record s c near p parent := by cases s <;> rfl

@[simp] theorem record_parent : (x.record s c near far parent).parent = parent := by cases s <;> rfl

@[simp] theorem record_color : (x.record s c near far parent).color = c := by cases s <;> rfl

@[simp] theorem record_key : (x.record s c near far parent).key = x.key := by cases s <;> rfl

@[simp] theorem record_setParent :
    (x.record s c near far parent).setParent p = x.record s c near far p := by cases s <;> rfl

@[simp] theorem record_setColor (d : color_t) :
    (x.record s c near far parent).setColor d = x.record s d near far parent := by cases s <;> rfl

theorem record_sideOf (hne : near ≠ far) : (x.record s c near far parent).sideOf near = s := by
  cases s with
  | left => simp [Cell.record, rb_node_t.sideOf]
  | right => simp [Cell.record, rb_node_t.sideOf, hne.symm]

end Record

/-- The pointer to a tree: the address of its root. -/
def ptr : RBTree Cell → Ptr
  | .nil => none
  | .node _ _ x _ => some x.addr

/-- The pointer to the node above a position. -/
def ctxPtr : Ctx Cell → Ptr
  | [] => none
  | f :: _ => some f.elem.addr

def addrs (t : RBTree Cell) : List Nat := t.toList.map Cell.addr

def ctxAddrs (ctx : Ctx Cell) : List Nat := ctx.elems.map Cell.addr

@[simp] theorem ptr_nil : ptr .nil = none := rfl

@[simp] theorem ptr_node (c : Color) (l r : RBTree Cell) (x : Cell) : ptr (.node c l x r) = some x.addr := rfl

theorem ptr_eq_none : ptr t = none ↔ t = .nil := by cases t <;> simp

@[simp] theorem ptr_mk (s : Side) (c : Color) (x : Cell) (near far : RBTree Cell) :
    ptr (.mk s c x near far) = some x.addr := by cases s <;> rfl

@[simp] theorem ptr_fill (f : Frame Cell) (t : RBTree Cell) : ptr (f.fill t) = some f.elem.addr := by
  simp [Frame.fill]

@[simp] theorem ctxPtr_nil : ctxPtr [] = none := rfl

@[simp] theorem ctxPtr_cons (f : Frame Cell) (ctx : Ctx Cell) : ctxPtr (f :: ctx) = some f.elem.addr := rfl

@[simp] theorem addrs_nil : addrs .nil = [] := rfl

@[simp] theorem ctxAddrs_cons (f : Frame Cell) (ctx : Ctx Cell) :
    ctxAddrs (f :: ctx) = f.elem.addr :: (addrs f.sibling ++ ctxAddrs ctx) := by
  simp [ctxAddrs, addrs]

theorem mem_addrs_mk : a ∈ addrs (.mk s c x near far) ↔ a = x.addr ∨ a ∈ addrs near ∨ a ∈ addrs far := by
  cases s <;> simp only [addrs, RBTree.mk, RBTree.toList, List.map_append, List.map_cons, List.mem_append,
    List.mem_cons] <;> tauto

theorem nodup_addrs_mk : (addrs (.mk s c x near far)).Nodup ↔ (x.addr :: (addrs near ++ addrs far)).Nodup := by
  apply List.Perm.nodup_iff
  cases s with
  | left => simp [addrs, RBTree.mk, RBTree.toList]
  | right =>
    simp only [addrs, RBTree.mk, RBTree.toList, List.map_append, List.map_cons]
    exact List.perm_middle.trans (List.perm_append_comm.cons _)

theorem ptr_mem_addrs (h : ptr t = some a) : a ∈ addrs t := by
  cases t with
  | nil => simp at h
  | node c l x r =>
    simp only [ptr_node, Option.some.injEq] at h
    simp [addrs, RBTree.toList, h]

/-- Every node of a tree is the root of a subtree, seen from either side. -/
theorem exists_plug_mk (ha : a ∈ addrs t) (s : Side) :
    ∃ ctx c x near far, x.addr = a ∧ t = Ctx.plug ctx (.mk s c x near far) := by
  obtain ⟨x, hx, rfl⟩ := List.mem_map.mp ha
  obtain ⟨ctx, c, l, r, rfl⟩ := Ctx.exists_plug_of_mem hx
  cases s with
  | left => exact ⟨ctx, c, x, l, r, rfl, rfl⟩
  | right => exact ⟨ctx, c, x, r, l, rfl, rfl⟩

/-- The heap holds the tree with all its child and parent links; `parent` is the
parent link of the root. -/
def Spells (h : Heap rb_node_t) (parent : Ptr) : RBTree Cell → Prop
  | .nil => True
  | .node c l x r => h.cells x.addr = some (x.record .left c (ptr l) (ptr r) parent) ∧
      Spells h (some x.addr) l ∧ Spells h (some x.addr) r

/-- The heap holds the surroundings of a position whose subtree starts at `hole`. -/
def SpellsCtx (h : Heap rb_node_t) (hole : Ptr) : Ctx Cell → Prop
  | [] => True
  | f :: ctx => h.cells f.elem.addr = some (f.elem.record f.side f.color hole (ptr f.sibling) (ctxPtr ctx)) ∧
      Spells h (some f.elem.addr) f.sibling ∧ SpellsCtx h (some f.elem.addr) ctx

theorem spells_mk
    :
    Spells h parent (.mk s c x near far) ↔ h.cells x.addr = some (x.record s c (ptr near) (ptr far) parent) ∧
      Spells h (some x.addr) near ∧ Spells h (some x.addr) far := by
  cases s with
  | left => rfl
  | right => exact and_congr_right fun _ => and_comm

/-- A heap holds a whole tree exactly when it holds a subtree and what is around it. -/
theorem spells_plug : Spells h none (ctx.plug t) ↔ SpellsCtx h (ptr t) ctx ∧ Spells h (ctxPtr ctx) t := by
  induction ctx generalizing t with
  | nil => simp [SpellsCtx]
  | cons f ctx ih =>
    rw [Ctx.plug_cons, ih, ptr_fill, Frame.fill, spells_mk]
    simp only [SpellsCtx, ctxPtr_cons]
    tauto

theorem Spells.congr (hs : Spells h parent t) (heq : ∀ a ∈ addrs t, h'.cells a = h.cells a) : Spells h' parent t := by
  induction t generalizing parent with
  | nil => trivial
  | node c l x r ihl ihr =>
    obtain ⟨hx, hl, hr⟩ := hs
    simp only [addrs, RBTree.toList, List.map_append, List.map_cons, List.mem_append, List.mem_cons] at heq
    exact ⟨(heq _ (.inr (.inl rfl))).trans hx, ihl hl fun a ha => heq a (.inl ha),
      ihr hr fun a ha => heq a (.inr (.inr ha))⟩

theorem SpellsCtx.congr {hole : Ptr} (hs : SpellsCtx h hole ctx)
    (heq : ∀ a ∈ ctxAddrs ctx, h'.cells a = h.cells a) : SpellsCtx h' hole ctx := by
  induction ctx generalizing hole with
  | nil => trivial
  | cons f ctx ih =>
    obtain ⟨hf, hsib, hctx⟩ := hs
    simp only [ctxAddrs_cons, List.mem_cons, List.mem_append] at heq
    exact ⟨(heq _ (.inl rfl)).trans hf, hsib.congr fun a ha => heq a (.inr (.inl ha)),
      ih hctx fun a ha => heq a (.inr (.inr ha))⟩

/-- Every node of a tree held by the heap is allocated. -/
theorem Spells.allocated (hs : Spells h parent t) (ha : a ∈ addrs t) : h.cells a ≠ none := by
  induction t generalizing parent with
  | nil => simp at ha
  | node c l x r ihl ihr =>
    obtain ⟨hx, hl, hr⟩ := hs
    rcases mem_addrs_mk (s := .left).mp ha with rfl | ha | ha
    · simp [hx]
    · exact ihl hl ha
    · exact ihr hr ha

/-- Two heaps that hold the same tree agree on its nodes. -/
theorem Spells.cells_eq (hs : Spells h parent t)
    (hs' : Spells h' parent t) (ha : a ∈ addrs t) : h.cells a = h'.cells a := by
  induction t generalizing parent with
  | nil => simp at ha
  | node c l x r ihl ihr =>
    obtain ⟨hx, hl, hr⟩ := hs
    obtain ⟨hx', hl', hr'⟩ := hs'
    rcases mem_addrs_mk (s := .left).mp ha with rfl | ha | ha
    · exact hx.trans hx'.symm
    · exact ihl hl hl' ha
    · exact ihr hr hr' ha

theorem ptr_plug_congr {u : RBTree Cell} (h : ctx = [] → ptr t = ptr u) : ptr (ctx.plug t) = ptr (ctx.plug u) := by
  induction ctx generalizing t u with
  | nil => exact h rfl
  | cons f ctx ih => exact ih fun _ => by simp

/-- The root changes only when the subtree that is replaced was at the root. -/
theorem ptr_plug_replace (ctx : Ctx Cell) (t u : RBTree Cell) :
    (if ctx = [] then ptr u else ptr (ctx.plug t)) = ptr (ctx.plug u) := by
  split
  next hnil => rw [hnil, Ctx.plug_nil]
  next hcons => exact ptr_plug_congr fun hnil => absurd hnil hcons

/-- `root` points to a tree of nodes at different addresses whose child and
parent links agree. The heap may hold other nodes. -/
structure Linked (h : Heap rb_node_t) (root : Ptr) (t : RBTree Cell) : Prop where
  spells : Spells h none t
  root_eq : root = ptr t
  nodup : (addrs t).Nodup

/-- The heap consists of exactly the nodes of the tree, each at its own address,
and `root` points to it. -/
structure Repr (h : Heap rb_node_t) (root : Ptr) (t : RBTree Cell) : Prop where
  spells : Spells h none t
  root_eq : root = ptr t
  nodup : (addrs t).Nodup
  exact : ∀ a, a ∉ addrs t → h.cells a = none

theorem Repr.linked {root : Ptr} (hr : Repr h root t) : Linked h root t :=
  ⟨hr.spells, hr.root_eq, hr.nodup⟩

theorem addrs_plug_perm (ctx : Ctx Cell) (t : RBTree Cell) : (addrs (ctx.plug t)).Perm (addrs t ++ ctxAddrs ctx) := by
  simpa [addrs, ctxAddrs] using (Ctx.toList_plug_perm ctx t).map Cell.addr

theorem mem_addrs_plug : a ∈ addrs (ctx.plug t) ↔ a ∈ addrs t ∨ a ∈ ctxAddrs ctx := by
  rw [(addrs_plug_perm ctx t).mem_iff, List.mem_append]

theorem nodup_plug : (addrs (ctx.plug t)).Nodup ↔ (addrs t ++ ctxAddrs ctx).Nodup :=
  (addrs_plug_perm ctx t).nodup_iff

end basic_data_struct.rbtree
