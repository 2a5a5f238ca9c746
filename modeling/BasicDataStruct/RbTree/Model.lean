import BasicDataStruct.Machine.Heap
import BasicDataStruct.RedBlack.Tree

open machine machine.Exec red_black

namespace basic_data_struct.rbtree

abbrev key_t := Int32

abbrev data_t := Int32

abbrev color_t := Color

abbrev RED : color_t := .red

abbrev BLACK : color_t := .black

structure rb_node_t where
  left : Ptr
  right : Ptr
  parent : Ptr
  key : key_t
  data : data_t
  color : color_t
deriving DecidableEq, Inhabited

/-- `node->left` or `node->right`. -/
def rb_node_t.child (node : rb_node_t) : Side → Ptr
  | .left => node.left
  | .right => node.right

/-- The assignment to `node->left` or `node->right`. -/
def rb_node_t.setChild (node : rb_node_t) (s : Side) (p : Ptr) : rb_node_t :=
  match s with
  | .left => { node with left := p }
  | .right => { node with right := p }

/-- The side on which `p` hangs below a node, by the test `node->left == p`. -/
def rb_node_t.sideOf (node : rb_node_t) (p : Ptr) : Side :=
  if node.left = p then .left else .right

def rb_node_t.setParent (node : rb_node_t) (p : Ptr) : rb_node_t := { node with parent := p }

def rb_node_t.setColor (node : rb_node_t) (c : color_t) : rb_node_t := { node with color := c }

/-- A computation on the heap of tree nodes. -/
abbrev Prog := Exec (Heap rb_node_t)

/-- The test `p && p->color == RED`; its negation is `!p || p->color == BLACK`. -/
def isRed (p : Ptr) : Prog Bool :=
  match p with
  | none => pure false
  | some a => do return (← load (some a)).color == RED

def setColor (p : Ptr) (c : color_t) : Prog Unit := store p (·.setColor c)

def setParent (p q : Ptr) : Prog Unit := store p (·.setParent q)

def setChild (s : Side) (p q : Ptr) : Prog Unit := store p (·.setChild s q)

/-- The statement `if (p) p->color = c;`. -/
def setColorIf (p : Ptr) (c : color_t) : Prog Unit :=
  match p with
  | none => pure ()
  | some a => setColor (some a) c

/-- The statement `if (p) p->parent = q;`. -/
def setParentIf (p q : Ptr) : Prog Unit :=
  match p with
  | none => pure ()
  | some a => setParent (some a) q

/-- Let `new` take the place of `old` below `parent`, or become the root when
there is no parent. The source tests one of the two links of the parent and
assumes the other when the test fails; `t` is the link it tests. Returns the
root. -/
def relink (t : Side) (parent old new root : Ptr) : Prog Ptr :=
  match parent with
  | none => pure new
  | some a => do
    let side := if (← load (some a)).child t = old then t else t.flip
    setChild side (some a) new
    return root

def rb_new_node (key : key_t) (data : data_t) : Prog Ptr := do
  let node ← malloc
  if node = none then fail (.exit "malloc error!\n" (-1))
  else
    store node fun n => { n with key := key, data := data }
    return node

/-- `rb_rotate_left` and `rb_rotate_right` are mirror images: `node` sinks to
the side `s` and its child on the opposite side rises. -/
def rb_rotate (s : Side) (node root : Ptr) : Prog Ptr := do
  let child := (← load node).child s.flip
  let inner := (← load child).child s
  setChild s.flip node inner
  setParentIf inner node
  setChild s child node
  let parent := (← load node).parent
  setParent child parent
  let root ← relink .right parent node child root
  setParent node child
  return root

def rb_rotate_left : Ptr → Ptr → Prog Ptr := rb_rotate .left

def rb_rotate_right : Ptr → Ptr → Prog Ptr := rb_rotate .right

/-- The rotation that moves a node on the inner side out, after which `node` and
`parent` have changed places. Returns the new `node`, `parent` and root. -/
def rb_insert_rebalance_inner (s : Side) (node parent root : Ptr) : Prog (Ptr × Ptr × Ptr) := do
  if (← load parent).child s.flip = node then
    let root ← rb_rotate s parent root
    return (parent, node, root)
  else return (node, parent, root)

/-- The branch of the repair loop taken when `parent` is the child of `gparent`
on side `s`; the source writes it out once for each side. -/
def rb_insert_rebalance_case (s : Side) (node parent gparent root : Ptr) : Prog (Ptr × Ptr) := do
  let uncle := (← load gparent).child s.flip
  if ← isRed uncle then
    setColor uncle BLACK
    setColor parent BLACK
    setColor gparent RED
    return (gparent, root)
  else
    let (node, parent, root) ← rb_insert_rebalance_inner s node parent root
    setColor parent BLACK
    setColor gparent RED
    let root ← rb_rotate s.flip gparent root
    return (node, root)

def rb_insert_rebalance_body (locals : Ptr × Ptr) : Prog ((Ptr × Ptr) ⊕ Ptr) := do
  let (node, root) := locals
  let parent := (← load node).parent
  if ← isRed parent then
    let gparent := (← load parent).parent
    let side := (← load gparent).sideOf parent
    return .inl (← rb_insert_rebalance_case side node parent gparent root)
  else return .inr root

def rb_insert_rebalance (fuel : Nat) (node root : Ptr) : Prog Ptr := do
  let root ← loop rb_insert_rebalance_body fuel (node, root)
  setColor root BLACK
  return root

/-- The rotation that replaces a red sibling `other` by a black one. Returns the
new `other` and root. -/
def rb_erase_rebalance_red (s : Side) (parent other root : Ptr) : Prog (Ptr × Ptr) := do
  if (← load other).color = RED then
    setColor other BLACK
    setColor parent RED
    let root ← rb_rotate s parent root
    return ((← load parent).child s.flip, root)
  else return (other, root)

/-- The test that neither child of `other` is red. -/
def blackChildren (other : Ptr) : Prog Bool := do
  if ← isRed (← load other).left then return false
  else return !(← isRed (← load other).right)

/-- The rotation that gives `other` a red child on the outer side. Returns the
new `other` and root. -/
def rb_erase_rebalance_inner (s : Side) (parent other root : Ptr) : Prog (Ptr × Ptr) := do
  if ← isRed ((← load other).child s.flip) then return (other, root)
  else
    setColorIf ((← load other).child s) BLACK
    setColor other RED
    let root ← rb_rotate s.flip other root
    return ((← load parent).child s.flip, root)

/-- The last rotation of the repair. Returns the root. -/
def rb_erase_rebalance_last (s : Side) (parent other root : Ptr) : Prog Ptr := do
  setColor other (← load parent).color
  setColor parent BLACK
  setColorIf ((← load other).child s.flip) BLACK
  rb_rotate s parent root

/-- The branch of the repair loop taken when `node` is the child of `parent` on
side `s`. The loop goes round with a new `node`, `parent` and `root`, or breaks
with the final `node` and `root`. -/
def rb_erase_rebalance_case (s : Side) (parent root : Ptr) :
    Prog ((Ptr × Ptr × Ptr) ⊕ (Ptr × Ptr)) := do
  let (other, root) ← rb_erase_rebalance_red s parent ((← load parent).child s.flip) root
  if ← blackChildren other then
    setColor other RED
    return .inl (parent, (← load parent).parent, root)
  else
    let (other, root) ← rb_erase_rebalance_inner s parent other root
    let root ← rb_erase_rebalance_last s parent other root
    return .inr (root, root)

def rb_erase_rebalance_body (locals : Ptr × Ptr × Ptr) : Prog ((Ptr × Ptr × Ptr) ⊕ (Ptr × Ptr)) := do
  let (node, parent, root) := locals
  if (← isRed node) ∨ node = root then return .inr (node, root)
  else
    let side := (← load parent).sideOf node
    rb_erase_rebalance_case side parent root

def rb_erase_rebalance (fuel : Nat) (node parent root : Ptr) : Prog Ptr := do
  let (node, root) ← loop rb_erase_rebalance_body fuel (node, parent, root)
  setColorIf node BLACK
  return root

/-- One round of the descent: the difference of the keys, with the wrap of a
32-bit subtraction, decides the direction. -/
def rb_search_auxiliary_body (key : key_t) (save : Ptr) (locals : Ptr × Ptr) :
    Prog ((Ptr × Ptr) ⊕ (Ptr × Ptr)) := do
  let (node, parent) := locals
  if node = none then return .inr (none, parent)
  else
    let n ← load node
    let ret := n.key - key
    if 0 < ret then return .inl (n.left, node)
    else if ret < 0 then return .inl (n.right, node)
    else return .inr (node, save)

/-- Returns the node found and the new value of `*save`. The source changes
`*save` only when the key is absent. -/
def rb_search_auxiliary (fuel : Nat) (key : key_t) (root save : Ptr) : Prog (Ptr × Ptr) :=
  loop (rb_search_auxiliary_body key save) fuel (root, none)

/-- Hang a new node below `parent`, or make it the root. Returns the root. -/
def attach (key : key_t) (parent node root : Ptr) : Prog Ptr :=
  match parent with
  | none => pure node
  | some a => do
    let side := if (← load (some a)).key > key then Side.left else Side.right
    setChild side (some a) node
    return root

def rb_insert (fuel : Nat) (key : key_t) (data : data_t) (root : Ptr) : Prog Ptr := do
  let (node, parent) ← rb_search_auxiliary fuel key root none
  if node ≠ none then return root
  else
    let node ← rb_new_node key data
    setParent node parent
    setChild .right node none
    setChild .left node none
    setColor node RED
    let root ← attach key parent node root
    rb_insert_rebalance fuel node root

def rb_search (fuel : Nat) (key : key_t) (root : Ptr) : Prog Ptr := do
  return (← rb_search_auxiliary fuel key root none).1

/-- Take `node` out of the tree: its only child moves up to `parent`. -/
def unlink (node child parent root : Ptr) : Prog Ptr := do
  setParentIf child parent
  relink .left parent node child root

def leftmost_body (node : Ptr) : Prog (Ptr ⊕ Ptr) := do
  let left := (← load node).left
  if left ≠ none then return .inl left else return .inr node

/-- The node `node` takes over the links and the colour of `old`. -/
def copyLinks (old node : Ptr) : Prog Unit := do
  setParent node (← load old).parent
  setColor node (← load old).color
  setChild .right node (← load old).right
  setChild .left node (← load old).left

/-- Put `node` into the place of `old` and link the neighbours of `old` to it.
Returns the root. -/
def substitute (old node root : Ptr) : Prog Ptr := do
  copyLinks old node
  let root ← relink .left (← load old).parent old node root
  setParent (← load old).left node
  setParentIf (← load old).right node
  return root

/-- The branch of `rb_erase` for a node with two children: the successor is
taken out of its place and put into that of `old`. Returns the `child`, the
`parent` and the colour with which the repair starts, and the root. -/
def rb_erase_two (fuel : Nat) (old root : Ptr) : Prog (Ptr × Ptr × color_t × Ptr) := do
  let node ← loop leftmost_body fuel (← load old).right
  let child := (← load node).right
  let parent := (← load node).parent
  let color := (← load node).color
  let root ← unlink node child parent root
  let parent := if (← load node).parent = old then node else parent
  let root ← substitute old node root
  return (child, parent, color, root)

/-- The branch of `rb_erase` for a node with at most one child. -/
def rb_erase_one (node root : Ptr) : Prog (Ptr × Ptr × color_t × Ptr) := do
  let n ← load node
  let child := if n.left = none then n.right else n.left
  let parent := (← load node).parent
  let color := (← load node).color
  let root ← unlink node child parent root
  return (child, parent, color, root)

/-- Take the node `old` out of the tree. Returns the `child`, the `parent` and
the colour of the node that went missing, and the root. -/
def rb_erase_remove (fuel : Nat) (old root : Ptr) : Prog (Ptr × Ptr × color_t × Ptr) := do
  let n ← load old
  if n.left ≠ none ∧ n.right ≠ none then rb_erase_two fuel old root else rb_erase_one old root

def rb_erase (fuel : Nat) (key : key_t) (root : Ptr) : Prog Ptr := do
  let (old, _) ← rb_search_auxiliary fuel key root none
  if old = none then return root
  else
    let (child, parent, color, root) ← rb_erase_remove fuel old root
    free old
    if color = BLACK then rb_erase_rebalance fuel child parent root else return root

end basic_data_struct.rbtree
