import BasicDataStruct.Machine.Heap

open machine machine.Exec

namespace basic_data_struct.btree

/-- `typedef struct BT`. A plain `char` is signed and has 8 bits. -/
structure BT where
  data : Int8
  left : Ptr
  right : Ptr
deriving DecidableEq, Inhabited

def BT.setData (node : BT) (data : Int8) : BT := { node with data := data }

def BT.setLeft (node : BT) (p : Ptr) : BT := { node with left := p }

def BT.setRight (node : BT) (p : Ptr) : BT := { node with right := p }

abbrev Prog := Exec (Heap BT)

/-- `p = (BT*)malloc(sizeof(BT)); p->data = data; p->left = p->right = NULL;` -/
def newNode (data : Int8) : Prog Ptr := do
  let p ← malloc
  store p (·.setData data)
  store p (·.setRight none)
  store p (·.setLeft none)
  return p

/-- A new node lies outside of all allocated nodes and has no children. -/
theorem run_newNode (h : Heap BT) (data : Int8) :
    ∃ h', (newNode data).run h = .ok (some h.next, h') ∧ h'.cells h.next = some ⟨data, none, none⟩ ∧
      (∀ a, a ≠ h.next → h'.cells a = h.cells a) ∧ h'.next = h.next + 1 := by
  refine ⟨((h.extend.alter h.next (·.setData data)).alter h.next (·.setRight none)).alter h.next (·.setLeft none),
    ?_, ?_, fun a ha => ?_, rfl⟩
  · simp only [newNode, run_bind, run_malloc, run_store_of_isSome, Heap.alter_cells_same, Heap.extend_cells, if_true,
      Option.isSome_some, Option.isSome_map, run_pure]
  · simp [Heap.extend_cells, BT.setData, BT.setLeft, BT.setRight]
  · simp [Heap.alter_cells, Heap.extend_cells, ha]

end basic_data_struct.btree
