import BasicDataStruct.Machine.Range
import BasicDataStruct.Btree.Node

open machine machine.Exec

namespace basic_data_struct.btree

/-- `b[k]` for an `int` index into an array with `n` entries. -/
def entry (n : Nat) (b : Nat → Ptr) (k : Int) : Prog Ptr :=
  if 0 ≤ k ∧ k < n then return b k.toNat else fail .bounds

/-- `b[k] = p`. -/
def setEntry (n : Nat) (b : Nat → Ptr) (k : Int) (p : Ptr) : Prog (Nat → Ptr) :=
  if 0 ≤ k ∧ k < n then return Function.update b k.toNat p else fail .bounds

/-- The body of the first loop: a leaf for each weight. -/
def leaf_body (a : Nat → Int32) (n i : Nat) (b : Nat → Ptr) : Prog (Nat → Ptr) := do
  let p ← newNode (a i).toInt8
  setEntry n b i p

/-- The search for the first two trees. The variable `k2` has no value before a
second tree is found, and finding it leaves the loop. -/
def first_body (n : Nat) (b : Nat → Ptr) (j : Nat) (ks : Int × Option Int) :
    Prog ((Int × Option Int) ⊕ (Int × Option Int)) := do
  if (← entry n b j) ≠ none ∧ ks.1 = -1 then return .inl (j, ks.2)
  else if (← entry n b j) ≠ none then return .inr (ks.1, some j)
  else return .inl ks

/-- The search for the two lightest trees, `k1` and `k2`. -/
def least_body (n : Nat) (b : Nat → Ptr) (j : Nat) (ks : Int × Int) : Prog (Int × Int) := do
  if (← entry n b j) ≠ none then
    if (← load (← entry n b j)).data < (← load (← entry n b ks.1)).data then return (j, ks.1)
    else if (← load (← entry n b j)).data < (← load (← entry n b ks.2)).data then return (ks.1, j)
    else return ks
  else return ks

/-- The two searches of a round. -/
def select (n : Nat) (b : Nat → Ptr) : Prog (Int × Int) := do
  let (k1, k2) ← forBreak (first_body n b) 0 n (-1, none)
  let k2 ← assigned k2
  forRange (least_body n b) k2.toNat (n - k2.toNat) (k1, k2)

/-- The body of the main loop: two lightest trees are joined. Returns the array
and the new tree `q`. -/
def join_body (n : Nat) (b : Nat → Ptr) : Prog ((Nat → Ptr) × Ptr) := do
  let (k1, k2) ← select n b
  let q ← malloc
  let data1 := (← load (← entry n b k1)).data
  let data2 := (← load (← entry n b k2)).data
  store q (·.setData (data1 + data2))
  let left ← entry n b k1
  store q (·.setLeft left)
  let right ← entry n b k2
  store q (·.setRight right)
  let b ← setEntry n b k1 q
  let b ← setEntry n b k2 none
  return (b, q)

/-- The locals of the main loop: the array `b` and the variable `q`, which has no
value before the first round. -/
abbrev Locals := (Nat → Ptr) × Option Ptr

def round_body (n : Nat) (s : Locals) : Prog Locals := do
  let (b, q) ← join_body n s.1
  return (b, some q)

/-- The array `b` is memory from `malloc`, with any contents. -/
def CreateHuffman (a : Nat → Int32) (n : Nat) (b : Nat → Ptr) : Prog Ptr := do
  let b ← forRange (leaf_body a n) 0 n b
  let s ← forRange (fun _ s => round_body n s) 1 (n - 1) (b, none)
  assigned s.2

end basic_data_struct.btree
