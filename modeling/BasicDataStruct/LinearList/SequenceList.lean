import BasicDataStruct.Machine.Heap
import BasicDataStruct.Machine.Range

open machine machine.Exec

namespace basic_data_struct.linear_list

variable {i x subscript result : Int32} {u : Unit} {fuel : Nat} {et : Option Int32}

abbrev SEQUENCE_LIST_MAX_SIZE : Nat := 100

structure SqList where
  data : Vector Int32 SEQUENCE_LIST_MAX_SIZE
  length : Int32
  maxsize : Int32

/-- A list after `memset`. -/
def SqList.zero : SqList where
  data := Vector.replicate SEQUENCE_LIST_MAX_SIZE 0
  length := 0
  maxsize := 0

abbrev Prog := Exec (Heap SqList)

def List_Init (List : Ptr) : Prog Int32 := do
  if List = none then return -1
  else
    store List fun _ => SqList.zero
    return 0

/-- The element `List->data[i]`. -/
def readData (List : Ptr) (i : Int32) : Prog Int32 := do
  let l ← load List
  if 0 ≤ i then
    match l.data[i.toInt.toNat]? with
    | some x => return x
    | none => fail .bounds
  else fail .bounds

/-- The assignment `List->data[i] = x`. -/
def writeData (List : Ptr) (i x : Int32) : Prog Unit :=
  if 0 ≤ i ∧ i < Int32.ofNat SEQUENCE_LIST_MAX_SIZE then
    store List fun l => { l with data := l.data.setIfInBounds i.toInt.toNat x }
  else fail .bounds

/-- The element that `et` points at. -/
def deref (et : Option Int32) : Prog Int32 :=
  match et with
  | some x => pure x
  | none => fail .null

/-- The loop of `List_LocateElem`. With `_COMPARE_SIMPLE_` an element that is equal ends
it, and otherwise one for which `memcmp` is not zero. -/
def locate_body (simple : Bool) (List : Ptr) (et : Option Int32) (i : Int32) : Prog (Int32 ⊕ Int32) := do
  if i < (← load List).length then
    let x ← readData List i
    let y ← deref et
    if if simple then x = y else x ≠ y then return .inr i else return .inl (i + 1)
  else return .inr (-2)

def List_LocateElem (simple : Bool) (fuel : Nat) (List : Ptr) (et : Option Int32) : Prog Int32 :=
  if List = none then return -1 else loop (locate_body simple List et) fuel 0

/-- The result, and the subscript of the element whose address is stored in `*et`. -/
def List_GetElem (List : Ptr) (subscript : Int32) (et : Bool) : Prog (Int32 × Option Int32) := do
  if List = none ∨ subscript < 0 ∨ !et then return (-1, none)
  else if subscript > (← load List).maxsize - 1 then return (-2, none)
  else return (0, some subscript)

/-- The loop of `List_Insert`. The element is copied twice in either variant. -/
def shift_body (List : Ptr) (subscript i : Int32) : Prog (Int32 ⊕ Unit) := do
  if i > subscript then
    writeData List i (← readData List (i - 1))
    writeData List i (← readData List (i - 1))
    return .inl (i + 1)
  else return .inr ()

def List_Insert (fuel : Nat) (List : Ptr) (subscript : Int32) (et : Option Int32) : Prog Int32 := do
  if List = none ∨ subscript < 0 then return -1
  else if subscript > (← load List).length then return -2
  else
    loop (shift_body List subscript) fuel (← load List).length
    writeData List subscript (← deref et)
    store List fun l => { l with length := l.length + 1 }
    return 0

/-- Nothing is deleted. -/
def List_Delete (List : Ptr) : Prog Int32 := if List = none then return -1 else return 0

def List_IsEmpty (List : Ptr) : Prog Int32 := do
  if List = none then return -1 else return (← load List).length

def List_IsFull (List : Ptr) : Prog Int32 := do
  if List = none then return -1
  else
    let l ← load List
    if l.length = l.maxsize then return 1 else return 0

def List_Destroy (List : Ptr) : Prog Int32 := do
  if List = none then return -1
  else
    store List fun _ => SqList.zero
    return 0

/-- Nothing is reversed. -/
def List_Reverse (List : Ptr) : Prog Int32 := if List = none then return -1 else return 0

/-- The calls that may change a list. -/
inductive Op where
  | Insert (subscript : Int32) (et : Option Int32)
  | Delete
  | Reverse
  | Destroy
  | Init

def exec (fuel : Nat) (List : Ptr) : Op → Prog Int32
  | .Insert subscript et => List_Insert fuel List subscript et
  | .Delete => List_Delete List
  | .Reverse => List_Reverse List
  | .Destroy => List_Destroy List
  | .Init => List_Init List

/-- A new list at `p`, and then a sequence of calls. -/
def execAll (fuel : Nat) (p : Ptr) : List Op → Prog Unit
  | [] => return
  | op :: ops => do
    let _ ← exec fuel p op
    execAll fuel p ops

/-- What holds of every list that a sequence of calls leaves behind. -/
structure Reachable (l : SqList) : Prop where
  length_nonneg : 0 ≤ l.length.toInt
  length_le : l.length.toInt ≤ SEQUENCE_LIST_MAX_SIZE
  maxsize_eq : l.maxsize = 0

section Calls

variable {h h' : Heap SqList} {a : Nat} {l : SqList}

theorem Reachable.zero : Reachable SqList.zero := ⟨by decide, by decide, rfl⟩

/-- An element that is written leaves the counters alone. -/
theorem writeData_ok (hcell : h.cells a = some l) (hrun : (writeData (some a) i x).run h = .ok (u, h')) :
    0 ≤ i.toInt ∧ i.toInt < SEQUENCE_LIST_MAX_SIZE ∧ ∃ data, h'.cells a = some { l with data } := by
  rw [writeData] at hrun
  split at hrun
  next hin =>
    rw [run_store hcell] at hrun
    cases hrun
    rw [Int32.le_iff_toInt_le, Int32.lt_iff_toInt_lt] at hin
    exact ⟨hin.1, hin.2, _, by rw [Heap.alter_cells_same, hcell, Option.map_some]⟩
  next => cases hrun

theorem readData_ok (hcell : h.cells a = some l) (hrun : (readData (some a) i).run h = .ok (x, h')) : h' = h := by
  rw [readData, run_bind_of_ok (run_load hcell)] at hrun
  split at hrun
  · split at hrun <;> cases hrun
    rfl
  · cases hrun

/-- Counting up within the array. -/
theorem toInt_succ (hlow : 0 ≤ i.toInt) (hhigh : i.toInt < SEQUENCE_LIST_MAX_SIZE) : (i + 1).toInt = i.toInt + 1 := by
  have hmax : SEQUENCE_LIST_MAX_SIZE = 100 := rfl
  rw [Int32.toInt_add, Int32.toInt_one]
  exact Int.bmod_eq_of_le (by omega) (by omega)

/-- A round of the loop of `List_Insert` writes one element. -/
theorem shift_body_ok {r : Int32 ⊕ Unit} (hcell : h.cells a = some l) (hgt : subscript < i)
    (hrun : (shift_body (some a) subscript i).run h = .ok (r, h')) :
    r = .inl (i + 1) ∧ 0 ≤ i.toInt ∧ i.toInt < SEQUENCE_LIST_MAX_SIZE ∧ ∃ l', h'.cells a = some l' := by
  rw [shift_body, if_pos hgt] at hrun
  obtain ⟨x, h1, hread, hrun⟩ := run_bind_eq_ok_iff.mp hrun
  obtain ⟨_, h2, hwrite, hrun⟩ := run_bind_eq_ok_iff.mp hrun
  obtain ⟨y, h3, hread', hrun⟩ := run_bind_eq_ok_iff.mp hrun
  obtain ⟨_, h4, hwrite', hrun⟩ := run_bind_eq_ok_iff.mp hrun
  cases hrun
  rw [readData_ok hcell hread] at hwrite
  obtain ⟨hlow, hhigh, data, hcell2⟩ := writeData_ok hcell hwrite
  rw [readData_ok hcell2 hread'] at hwrite'
  obtain ⟨-, -, data', hcell4⟩ := writeData_ok hcell2 hwrite'
  exact ⟨rfl, hlow, hhigh, _, hcell4⟩

/-- The loop of `List_Insert` does not start at the end of the list. -/
theorem run_shift_body_done (hdone : ¬subscript < i) :
    (shift_body (some a) subscript i).run h = .ok (.inr (), h) := by
  rw [shift_body, if_neg hdone, run_pure]

/-- The loop of `List_Insert` counts up, so it never returns once it has started: it
goes on until it leaves the array. -/
theorem shift_loop_ne_ok (hcell : h.cells a = some l) (hgt : subscript < i) :
    (loop (shift_body (some a) subscript) fuel i).run h ≠ .ok ((), h') := by
  induction fuel generalizing h l i with
  | zero => exact fun hrun => by cases hrun
  | succ fuel ih =>
    intro hrun
    rw [loop] at hrun
    obtain ⟨r, h1, hbody, hrest⟩ := run_bind_eq_ok_iff.mp hrun
    obtain ⟨rfl, hlow, hhigh, l', hcell'⟩ := shift_body_ok hcell hgt hbody
    refine ih hcell' ?_ hrest
    rw [Int32.lt_iff_toInt_lt] at hgt ⊢
    rw [toInt_succ hlow hhigh]
    omega

/-- `List_Insert` returns only at the end of the list or with an error. -/
theorem List_Insert_eq_ok (hcell : h.cells a = some l)
    (hrun : (List_Insert fuel (some a) subscript et).run h = .ok (result, h')) :
    subscript < 0 ∧ result = -1 ∧ h' = h ∨ l.length < subscript ∧ result = -2 ∧ h' = h ∨
      subscript = l.length ∧ subscript.toInt < SEQUENCE_LIST_MAX_SIZE ∧ result = 0 ∧
        ∃ data, h'.cells a = some { l with data, length := l.length + 1 } := by
  rw [List_Insert] at hrun
  by_cases hneg : subscript < 0
  · rw [if_pos (.inr hneg)] at hrun
    cases hrun
    exact .inl ⟨hneg, rfl, rfl⟩
  rw [if_neg (by simp [hneg]), run_bind_of_ok (run_load hcell)] at hrun
  by_cases hfar : subscript > l.length
  · rw [if_pos hfar] at hrun
    cases hrun
    exact .inr (.inl ⟨hfar, rfl, rfl⟩)
  rw [if_neg hfar, run_bind_of_ok (run_load hcell)] at hrun
  obtain ⟨_, h1, hloop, hinsert⟩ := run_bind_eq_ok_iff.mp hrun
  by_cases hbefore : subscript < l.length
  · exact absurd hloop (shift_loop_ne_ok hcell hbefore)
  -- at the end of the list the loop does not start
  obtain rfl : h1 = h := by
    cases fuel with
    | zero => cases hloop
    | succ fuel =>
      rw [run_loop_done (run_shift_body_done hbefore)] at hloop
      cases hloop
      rfl
  obtain ⟨x, h2, hderef, hassign⟩ := run_bind_eq_ok_iff.mp hinsert
  obtain rfl : h2 = h1 := by
    cases et with
    | none => cases hderef
    | some y => cases hderef; rfl
  obtain ⟨_, h3, hwrite, hcount⟩ := run_bind_eq_ok_iff.mp hassign
  obtain ⟨-, hhigh, data, hcell3⟩ := writeData_ok hcell hwrite
  rw [run_bind_of_ok (run_store hcell3 _)] at hcount
  cases hcount
  have hend : subscript = l.length := Int32.le_antisymm (Int32.not_lt.mp hfar) (Int32.not_lt.mp hbefore)
  exact .inr (.inr ⟨hend, hhigh, rfl, data, by rw [Heap.alter_cells_same, hcell3, Option.map_some]⟩)

theorem run_List_Insert (hcell : h.cells a = some l)
    (hl : Reachable l) (hrun : (List_Insert fuel (some a) subscript et).run h = .ok (result, h')) :
    ∃ l', h'.cells a = some l' ∧ Reachable l' := by
  obtain ⟨-, -, rfl⟩ | ⟨-, -, rfl⟩ | ⟨hend, hhigh, -, data, hcell'⟩ := List_Insert_eq_ok hcell hrun
  · exact ⟨l, hcell, hl⟩
  · exact ⟨l, hcell, hl⟩
  · rw [hend] at hhigh
    have hlow := hl.length_nonneg
    have hsucc := toInt_succ hlow hhigh
    exact ⟨_, hcell', by rw [hsucc]; omega, by rw [hsucc]; omega, hl.maxsize_eq⟩

/-- Every call keeps a reachable list reachable. -/
theorem run_exec (op : Op) (hcell : h.cells a = some l) (hl : Reachable l)
    (hrun : (exec fuel (some a) op).run h = .ok (result, h')) : ∃ l', h'.cells a = some l' ∧ Reachable l' := by
  cases op with
  | Insert subscript et => exact run_List_Insert hcell hl hrun
  | Delete =>
    cases hrun
    exact ⟨l, hcell, hl⟩
  | Reverse =>
    cases hrun
    exact ⟨l, hcell, hl⟩
  | Destroy =>
    rw [exec, List_Destroy, if_neg (Option.some_ne_none a), run_bind_of_ok (run_store hcell _)] at hrun
    cases hrun
    exact ⟨SqList.zero, by rw [Heap.alter_cells_same, hcell, Option.map_some], .zero⟩
  | Init =>
    rw [exec, List_Init, if_neg (Option.some_ne_none a), run_bind_of_ok (run_store hcell _)] at hrun
    cases hrun
    exact ⟨SqList.zero, by rw [Heap.alter_cells_same, hcell, Option.map_some], .zero⟩

/-- A sequence of calls keeps a reachable list reachable. -/
theorem run_execAll (ops : List Op) (hcell : h.cells a = some l) (hl : Reachable l)
    (hrun : (execAll fuel (some a) ops).run h = .ok (u, h')) : ∃ l', h'.cells a = some l' ∧ Reachable l' := by
  induction ops generalizing h l with
  | nil =>
    cases hrun
    exact ⟨l, hcell, hl⟩
  | cons op ops ih =>
    obtain ⟨result, h1, hop, hrest⟩ := run_bind_eq_ok_iff.mp hrun
    obtain ⟨l', hcell', hl'⟩ := run_exec op hcell hl hop
    exact ih hcell' hl' hrest

end Calls

end basic_data_struct.linear_list
