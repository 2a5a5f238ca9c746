import BasicDataStruct.RbTree.Unlink

open machine machine.Exec red_black

namespace basic_data_struct.rbtree

variable {h : Heap rb_node_t} {root : Ptr}

variable {ctx : Ctx Cell} {c d : Color} {l r : RBTree Cell} {y x : Cell} {parent p q e : Ptr} {a m : Nat}

/-- The descent to the successor: `node` is the root of a subtree that contains
the first element of the right subtree. -/
def LeftmostInv (h : Heap rb_node_t) (t : RBTree Cell) (n : Nat) (node : Ptr) (h' : Heap rb_node_t) : Prop :=
  h' = h ∧ ∃ inner c l y r, t = Ctx.plug inner (.node c l y r) ∧ node = some y.addr ∧ Ctx.before inner = [] ∧
    l.toList.length = n

theorem leftmostInv_step {t : RBTree Cell} (hr : Repr h root (ctx.plug t)) (n : Nat) (node : Ptr)
    (h' : Heap rb_node_t) (hinv : LeftmostInv h t n node h') :
    (∃ m next h'', m < n ∧ (leftmost_body node).run h' = .ok (.inl next, h'') ∧ LeftmostInv h t m next h'') ∨
    ∃ res h'', (leftmost_body node).run h' = .ok (.inr res, h'') ∧ h'' = h ∧
      ∃ inner c y r, t = Ctx.plug inner (.node c .nil y r) ∧ res = some y.addr ∧ Ctx.before inner = [] := by
  obtain ⟨rfl, inner, c, l, y, r, rfl, rfl, hbefore, rfl⟩ := hinv
  rw [← Ctx.plug_append] at hr
  have hy := hr.cells_focus (s := .left)
  simp only [leftmost_body, run_bind, run_load hy, run_ite, run_pure]
  cases l with
  | nil => exact .inr ⟨_, _, by simp [Cell.record], rfl, inner, c, y, r, rfl, rfl, hbefore⟩
  | node d ll z lr =>
    left
    refine ⟨ll.toList.length, some z.addr, h', by simp [RBTree.toList], by simp [Cell.record], rfl,
      ⟨.left, c, y, r⟩ :: inner, d, ll, z, lr, rfl, rfl, by simp [Ctx.before, hbefore], rfl⟩

/-- The inner loop of an erasure finds the first node of the right subtree. -/
theorem Repr.run_leftmost (hr : Repr h root (ctx.plug (.node c l y r))) :
    ∃ inner d z e, (∀ fuel, l.toList.length < fuel →
        (loop leftmost_body fuel (some y.addr)).run h = .ok (some z.addr, h)) ∧
      RBTree.node c l y r = Ctx.plug inner (.node d .nil z e) ∧ Ctx.before inner = [] := by
  obtain ⟨_, _, hrun, rfl, inner, d, z, e, htree, rfl, hbefore⟩ := loop_total _ _ (leftmostInv_step hr)
    ⟨rfl, [], c, l, y, r, rfl, rfl, rfl, rfl⟩
  exact ⟨inner, d, z, e, hrun, htree, hbefore⟩

/-- The heap after the fields of `old` have been copied to `node`. -/
def copied (h : Heap rb_node_t) (parent : Ptr) (c : Color) (l r : RBTree Cell) (y : Cell) : Heap rb_node_t :=
  (((h.alter y.addr (·.setParent parent)).alter y.addr (·.setColor c)).alter y.addr
    (·.setChild .right (ptr r))).alter y.addr (·.setChild .left (ptr l))

/-- The heap after the links of the neighbours have been turned to `node` as well. -/
def substituted (h : Heap rb_node_t) (ctx : Ctx Cell) (c : Color) (l r : RBTree Cell) (y : Cell) : Heap rb_node_t :=
  reparented (reparented (relinked (copied h (ctxPtr ctx) c l r y) ctx (some y.addr)) l (some y.addr)) r (some y.addr)

theorem copied_cells (hy : a ≠ y.addr) : (copied h parent c l r y).cells a = h.cells a := by
  simp [copied, Heap.alter_cells, hy]

theorem copied_cells_same (hy : h.cells y.addr = some (y.record .left d p q e)) :
    (copied h parent c l r y).cells y.addr = some (y.record .left c (ptr l) (ptr r) parent) := by
  simp [copied, hy, Cell.record, rb_node_t.setParent, rb_node_t.setColor, rb_node_t.setChild]

theorem substituted_cells (hy : a ≠ y.addr) (hctx : a ∉ ctxAddrs ctx) (hl : a ∉ addrs l) (hr : a ∉ addrs r) :
    (substituted h ctx c l r y).cells a = h.cells a := by
  rw [substituted, reparented_cells hr, reparented_cells hl, relinked_cells hctx, copied_cells hy]

/-- The nodes involved in putting `y` into the place of `x` are pairwise different. -/
structure SubstDistinct (ctx : Ctx Cell) (l r : RBTree Cell) (x y : Cell) : Prop where
  ne : x.addr ≠ y.addr
  outer : x.addr ∉ ctxAddrs ctx ∧ x.addr ∉ addrs l ∧ x.addr ∉ addrs r
  moved : y.addr ∉ ctxAddrs ctx ∧ y.addr ∉ addrs l ∧ y.addr ∉ addrs r
  parts : (ctxAddrs ctx).Nodup ∧ (addrs l).Nodup ∧ (addrs r).Nodup
  apart : (∀ a ∈ addrs l, a ∉ ctxAddrs ctx ∧ a ∉ addrs r) ∧ ∀ a ∈ addrs r, a ∉ ctxAddrs ctx

theorem substDistinct_of_nodup
    (hnd : (addrs (ctx.plug (.node c l x r))).Nodup) (hout : y.addr ∉ addrs (ctx.plug (.node c l x r))) :
    SubstDistinct ctx l r x y := by
  have hmk : RBTree.node c l x r = .mk .left c x l r := rfl
  rw [hmk, nodup_plug, List.nodup_append, nodup_addrs_mk, List.nodup_cons, List.nodup_append] at hnd
  rw [hmk, mem_addrs_plug, mem_addrs_mk] at hout
  simp only [mem_addrs_mk, List.mem_append, not_or] at hnd hout
  constructor <;> grind

theorem mem_addrs_plug_node :
    a ∈ addrs (ctx.plug (.node c l x r)) ↔ a = x.addr ∨ a ∈ addrs l ∨ a ∈ addrs r ∨ a ∈ ctxAddrs ctx := by
  have hmk : RBTree.node c l x r = .mk .left c x l r := rfl
  rw [hmk, mem_addrs_plug, mem_addrs_mk]
  tauto

theorem SubstDistinct.nodup (hd : SubstDistinct ctx l r x y)
    (c : Color) : (addrs (ctx.plug (.node c l y r))).Nodup := by
  have hmk : RBTree.node c l y r = .mk .left c y l r := rfl
  obtain ⟨_, _, hmoved, hparts, hapart⟩ := hd
  rw [hmk, nodup_plug, List.nodup_append, nodup_addrs_mk, List.nodup_cons, List.nodup_append]
  simp only [mem_addrs_mk, List.mem_append, not_or]
  grind

/-- The neighbours of `x` at the moments at which their links are turned. -/
theorem spells_neighbours (hs : Spells h none (ctx.plug (.node c l x r))) (hd : SubstDistinct ctx l r x y) :
    SpellsCtx (copied h (ctxPtr ctx) c l r y) (some x.addr) ctx ∧
    Spells (relinked (copied h (ctxPtr ctx) c l r y) ctx (some y.addr)) (some x.addr) l ∧
    Spells (reparented (relinked (copied h (ctxPtr ctx) c l r y) ctx (some y.addr)) l (some y.addr))
      (some x.addr) r := by
  obtain ⟨hctx, _, hl, hr⟩ := spells_plug.mp hs
  obtain ⟨hyctx, hyl, hyr⟩ := hd.moved
  have hne : ∀ {as : List Nat}, y.addr ∉ as → ∀ a ∈ as, a ≠ y.addr := by
    rintro as hya a ha rfl
    exact hya ha
  refine ⟨hctx.congr fun a ha => copied_cells (hne hyctx a ha), hl.congr fun a ha => ?_,
    hr.congr fun a ha => ?_⟩
  · rw [relinked_cells (hd.apart.1 a ha).1, copied_cells (hne hyl a ha)]
  · rw [reparented_cells fun hal => (hd.apart.1 a hal).2 ha, relinked_cells (hd.apart.2 a ha),
      copied_cells (hne hyr a ha)]

/-- The stored nodes after the substitution spell the tree with `y` in the place
of `x`. -/
theorem spells_substituted
    (hs : Spells h none (ctx.plug (.node c l x r))) (hy : h.cells y.addr = some (y.record .left d p q e))
    (hd : SubstDistinct ctx l r x y) :
    Spells (substituted h ctx c l r y) none (ctx.plug (.node c l y r)) := by
  obtain ⟨hctx, hl, hr⟩ := spells_neighbours hs hd
  obtain ⟨hyctx, hyl, hyr⟩ := hd.moved
  obtain ⟨hctxnd, hlnd, hrnd⟩ := hd.parts
  rw [spells_plug]
  refine ⟨?_, ?_, ?_, ?_⟩
  · refine (spellsCtx_relinked hctx hctxnd (some y.addr)).congr fun a ha => ?_
    rw [substituted, reparented_cells fun har => hd.apart.2 a har ha,
      reparented_cells fun hal => (hd.apart.1 a hal).1 ha]
  · rw [substituted, reparented_cells hyr, reparented_cells hyl, relinked_cells hyctx, copied_cells_same hy]
  · exact (spells_reparented hl hlnd (some y.addr)).congr fun a ha => reparented_cells (hd.apart.1 a ha).2
  · exact spells_reparented hr hrnd (some y.addr)

theorem run_copyLinks
    (hx : h.cells x.addr = some (x.record .left c (ptr l) (ptr r) parent)) (hy : (h.cells y.addr).isSome)
    (hne : x.addr ≠ y.addr) :
    (copyLinks (some x.addr) (some y.addr)).run h = .ok ((), copied h parent c l r y) := by
  have hkept : ∀ (h' : Heap rb_node_t) f, (h'.alter y.addr f).cells x.addr = h'.cells x.addr :=
    fun h' f => Heap.alter_cells_of_ne h' f hne
  simp [copyLinks, setParent, setColor, setChild, run_bind, load, store, hkept, hx, hy, copied, Cell.record]

/-- `y` takes the place, the colour and the links of `x`, and `x` keeps its own. -/
theorem run_substitute
    (hs : Spells h none (ctx.plug (.node c l x r))) (hy : h.cells y.addr = some (y.record .left d p q e))
    (hd : SubstDistinct ctx l r x y) (hl : l ≠ .nil) (root : Ptr) :
    (substitute (some x.addr) (some y.addr) root).run h =
      .ok (if ctx = [] then some y.addr else root, substituted h ctx c l r y) := by
  obtain ⟨hctx, hx, hleft, hright⟩ := spells_plug.mp hs
  obtain ⟨hxctx, hxl, hxr⟩ := hd.outer
  obtain ⟨hctx₁, hleft₁, hright₁⟩ := spells_neighbours hs hd
  have hcopy := run_copyLinks hx (by simp [hy]) hd.ne
  have hx₁ : (copied h (ctxPtr ctx) c l r y).cells x.addr = some (x.record .left c (ptr l) (ptr r) (ctxPtr ctx)) := by
    rw [copied_cells hd.ne, hx]
  have hx₂ : (relinked (copied h (ctxPtr ctx) c l r y) ctx (some y.addr)).cells x.addr =
      some (x.record .left c (ptr l) (ptr r) (ctxPtr ctx)) := by
    rw [relinked_cells hxctx, hx₁]
  have hx₃ : (reparented (relinked (copied h (ctxPtr ctx) c l r y) ctx (some y.addr)) l (some y.addr)).cells x.addr =
      some (x.record .left c (ptr l) (ptr r) (ctxPtr ctx)) := by
    rw [reparented_cells hxl, hx₂]
  have hrelink := run_relink hctx₁ hxctx .left (some y.addr) root
  have hsetLeft := run_setParent hleft₁ hl (some y.addr)
  have hsetRight := run_setParentIf hright₁ (some y.addr)
  simp only [substitute, run_bind, hcopy, run_load hx₁, record_parent, hrelink, run_load hx₂, record_left, hsetLeft,
    run_load hx₃, record_right, hsetRight, run_pure, substituted]

/-- The `parent` with which the repair starts is the node above the place that
the successor left, in the tree with the successor in its new place. -/
theorem ctxPtr_substituted {inner : Ctx Cell} (ctx : Ctx Cell) (c : Color) (l : RBTree Cell) (y : Cell)
    (hx : x.addr ∉ ctxAddrs inner) :
    (if ctxPtr (inner ++ ⟨.right, c, x, l⟩ :: ctx) = some x.addr then some y.addr
      else ctxPtr (inner ++ ⟨.right, c, x, l⟩ :: ctx)) = ctxPtr (inner ++ ⟨.right, c, y, l⟩ :: ctx) := by
  cases inner with
  | nil => simp
  | cons f inner =>
    have hne : f.elem.addr ≠ x.addr := by
      intro heq
      exact hx (by simp [← heq])
    simp [hne]

theorem plug_inner (inner ctx : Ctx Cell) (c : Color) (l t : RBTree Cell) (x : Cell) :
    Ctx.plug (inner ++ ⟨.right, c, x, l⟩ :: ctx) t = ctx.plug (.node c l x (Ctx.plug inner t)) :=
  Ctx.plug_append ..

section Successor

variable {inner ctx : Ctx Cell} {c d : Color} {x y : Cell} {l u : RBTree Cell}

/-- The heap after the successor `y` of `x` has taken the place of `x`. -/
def succeeded (h : Heap rb_node_t) (inner ctx : Ctx Cell) (c : Color) (x y : Cell) (l u : RBTree Cell) :
    Heap rb_node_t :=
  substituted (unlinked h (inner ++ ⟨.right, c, x, l⟩ :: ctx) u) ctx c l (Ctx.plug inner u) y

section

variable (hr : Repr h root (Ctx.plug (inner ++ ⟨.right, c, x, l⟩ :: ctx) (.mk .left d y .nil u)))
include hr

/-- The tree without its successor is spelled by the unlinked heap, with the
successor's node still allocated beside it. -/
theorem Repr.spells_without_successor :
    Spells (unlinked h (inner ++ ⟨.right, c, x, l⟩ :: ctx) u) none (ctx.plug (.node c l x (Ctx.plug inner u))) ∧
    (unlinked h (inner ++ ⟨.right, c, x, l⟩ :: ctx) u).cells y.addr =
      some (y.record .left d none (ptr u) (ctxPtr (inner ++ ⟨.right, c, x, l⟩ :: ctx))) ∧
    SubstDistinct ctx l (Ctx.plug inner u) x y := by
  obtain ⟨_, hs⟩ := hr.run_unlink
  obtain ⟨hyout, hnd⟩ := nodup_only_child hr.nodup
  have hy := (unlinked_cells hyout).trans hr.cells_focus
  rw [plug_inner] at hs hyout hnd
  exact ⟨hs, hy, substDistinct_of_nodup hnd hyout⟩

theorem Repr.removed_successor
    (hbal : Balanced (Ctx.plug (inner ++ ⟨.right, c, x, l⟩ :: ctx) (.mk .left d y .nil u)) .black m) :
    Removed (succeeded h inner ctx c x y l u) x (inner ++ ⟨.right, c, y, l⟩ :: ctx) u d := by
  obtain ⟨hs, hy, hd⟩ := hr.spells_without_successor
  obtain ⟨hxctx, hxl, hxr⟩ := hd.outer
  obtain ⟨hu, hred, hblack⟩ := Fits.of_only_child hbal
  refine ⟨?_, ?_, ?_, ?_, ?_, EraseInv.of_only_child hu (fun hc => ?_) fun hc => (hblack hc).congr_elem y⟩
  · rw [plug_inner]
    exact spells_substituted hs hy hd
  · rw [plug_inner]
    exact hd.nodup c
  · rw [plug_inner, mem_addrs_plug_node]
    rintro (heq | hmem | hmem | hmem)
    · exact hd.ne heq
    · exact hxl hmem
    · exact hxr hmem
    · exact hxctx hmem
  · obtain ⟨-, hx, -⟩ := spells_plug.mp hs
    rw [succeeded, substituted_cells hd.ne hxctx hxl hxr, hx]
    exact Option.some_ne_none _
  · intro q hq hqx
    rw [plug_inner, mem_addrs_plug_node] at hq
    simp only [not_or] at hq
    obtain ⟨hqy, hql, hqr, hqctx⟩ := hq
    have hout : q ∉ addrs (Ctx.plug (inner ++ ⟨.right, c, x, l⟩ :: ctx) u) := by
      rw [plug_inner, mem_addrs_plug_node]
      simp [hqx, hql, hqr, hqctx]
    rw [succeeded, substituted_cells hqy hqctx hql hqr, unlinked_cells hout]
    refine hr.exact q fun hmem => hout ?_
    rw [mem_addrs_plug, mem_addrs_mk] at hmem
    rw [mem_addrs_plug]
    simpa [hqy] using hmem
  · exact ⟨(hred hc).1, (hred hc).2.congr_elem y⟩

/-- The statements of the two-children branch after the descent. -/
theorem Repr.run_rb_erase_two_of_leftmost {fuel : Nat} (hl : l ≠ .nil)
    (hx : h.cells x.addr = some (x.record .left c (ptr l) (ptr r) (ctxPtr ctx)))
    (hleftmost : (loop leftmost_body fuel (ptr r)).run h = .ok (some y.addr, h)) :
    (rb_erase_two fuel (some x.addr) root).run h =
      .ok ((ptr u, ctxPtr (inner ++ ⟨.right, c, y, l⟩ :: ctx), d,
        ptr (Ctx.plug (inner ++ ⟨.right, c, y, l⟩ :: ctx) u)), succeeded h inner ctx c x y l u) := by
  obtain ⟨hs, hy₁, hd⟩ := hr.spells_without_successor
  have hy := hr.cells_focus
  obtain ⟨hunlink, _⟩ := hr.run_unlink
  have hsubst := run_substitute hs hy₁ hd hl (ptr (Ctx.plug (inner ++ ⟨.right, c, x, l⟩ :: ctx) u))
  have hparent := ctxPtr_substituted ctx c l y fun hmem =>
    hd.outer.2.2 (mem_addrs_plug.mpr (.inr hmem))
  have hroot : (if ctx = [] then some y.addr else ptr (Ctx.plug (inner ++ ⟨.right, c, x, l⟩ :: ctx) u)) =
      ptr (Ctx.plug (inner ++ ⟨.right, c, y, l⟩ :: ctx) u) := by
    rw [plug_inner, plug_inner]
    exact ptr_plug_replace ctx _ (.node c l y (inner.plug u))
  rw [← hparent, ← hroot]
  simp only [rb_erase_two, run_bind, run_load hx, record_right, hleftmost, run_load hy, record_parent, record_color,
    hunlink, run_load hy₁, hsubst, run_pure, succeeded]

end

end Successor

/-- Erasing a node with two children moves its successor into its place. -/
theorem Repr.run_rb_erase_two
    (hr : Repr h root (ctx.plug (.node c l x r))) (hbal : Balanced (ctx.plug (.node c l x r)) .black m)
    (hl : l ≠ .nil) (hright : r ≠ .nil) :
    ∃ ctx' u color h', (∀ fuel, r.toList.length < fuel →
        (rb_erase_two fuel (some x.addr) root).run h =
          .ok ((ptr u, ctxPtr ctx', color, ptr (ctx'.plug u)), h')) ∧
      Removed h' x ctx' u color ∧
      (ctx'.plug u).toList = ctx.before ++ (l.toList ++ r.toList ++ ctx.after) := by
  obtain ⟨c₀, l₀, y₀, r₀, rfl⟩ : ∃ c₀ l₀ y₀ r₀, r = .node c₀ l₀ y₀ r₀ := by
    cases r with
    | nil => exact absurd rfl hright
    | node c₀ l₀ y₀ r₀ => exact ⟨c₀, l₀, y₀, r₀, rfl⟩
  have hinner : Repr h root (Ctx.plug (⟨.right, c, x, l⟩ :: ctx) (.node c₀ l₀ y₀ r₀)) := hr
  obtain ⟨inner, d, y, u, hleftmost, htree, hbefore⟩ := hinner.run_leftmost
  have hwhole : ctx.plug (.node c l x (.node c₀ l₀ y₀ r₀)) =
      Ctx.plug (inner ++ ⟨.right, c, x, l⟩ :: ctx) (.mk .left d y .nil u) := by
    rw [plug_inner, htree]
    rfl
  have hx := hr.cells_focus (s := .left)
  rw [hwhole] at hr hbal
  refine ⟨_, u, d, _, fun fuel hfuel => hr.run_rb_erase_two_of_leftmost hl hx (hleftmost fuel ?_),
    hr.removed_successor hbal, ?_⟩
  · simp only [RBTree.toList, List.length_append, List.length_cons] at hfuel
    omega
  · rw [plug_inner, Ctx.toList_plug, htree]
    simp [RBTree.toList, Ctx.toList_plug, hbefore]

end basic_data_struct.rbtree
