import BasicDataStruct.Machine.Heap

open machine machine.Exec

namespace basic_data_struct.linked_list

structure node where
  val : Int8
  next : Ptr
deriving DecidableEq, Inhabited

abbrev Prog := Exec (Heap node)

/-- The inner loop of `has_loop`. It leaves with `true` for the statement
`return 1;` and with `false` otherwise. -/
def search_body (cur1 : Ptr) (pos1 : Int32) (locals : Ptr × Int32) : Prog ((Ptr × Int32) ⊕ Bool) := do
  let (cur2, pos2) := locals
  if cur2 = none then return .inr false
  else
    let pos2 := pos2 + 1
    if cur2 = cur1 then
      if pos1 = pos2 then return .inr false else return .inr true
    else return .inl ((← load cur2).next, pos2)

/-- The outer loop of `has_loop`. -/
def has_loop_body (fuel : Nat) (head : Ptr) (locals : Ptr × Int32) : Prog ((Ptr × Int32) ⊕ Int32) := do
  let (cur1, pos1) := locals
  if cur1 = none then return .inr 0
  else
    let pos1 := pos1 + 1
    if ← loop (search_body cur1 pos1) fuel (head, 0) then return .inr 1
    else return .inl ((← load cur1).next, pos1)

def has_loop (fuel : Nat) (head : Ptr) : Prog Int32 := loop (has_loop_body fuel head) fuel (head, 0)

/-- The statements `q = q->next; if (q != NULL) q = q->next;`. -/
def twoSteps (q : Ptr) : Prog Ptr := do
  let q := (← load q).next
  if q ≠ none then return (← load q).next else return q

def has_loop2_body (locals : Ptr × Ptr) : Prog ((Ptr × Ptr) ⊕ Int32) := do
  let (p, q) := locals
  if p ≠ none ∧ q ≠ none then
    let p := (← load p).next
    let q ← twoSteps q
    if p ≠ none ∧ p = q then return .inr 1 else return .inl (p, q)
  else return .inr 0

def has_loop2 (fuel : Nat) (head : Ptr) : Prog Int32 := loop has_loop2_body fuel (head, head)

end basic_data_struct.linked_list
