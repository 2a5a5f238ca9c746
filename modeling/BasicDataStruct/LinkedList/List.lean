import BasicDataStruct.Machine.Range
import BasicDataStruct.Machine.Spine

open machine machine.Exec

namespace basic_data_struct.linked_list.list

variable {m n a k : Nat} {v : Node} {front back : List (Nat × Node)} {pos x : Int32}

structure Node where
  element : Int32
  next : Ptr
deriving DecidableEq, Inhabited

abbrev Prog := Exec (Heap Node)

/-- The head pointer after `initList`. -/
def initList : Ptr := none

def sizeList_body : Ptr × Int32 → Prog ((Ptr × Int32) ⊕ Int32)
  | (pHead, size) => do
    if pHead ≠ none then return .inl ((← load pHead).next, size + 1) else return .inr size

def sizeList (fuel : Nat) (pHead : Ptr) : Prog Int32 := loop sizeList_body fuel (pHead, 0)

/-- The loop that `getElement` and `modifyElem` share: it stops at the node number
`pos` or behind the last one. -/
def seek_body (pos : Int32) : Ptr × Int32 → Prog ((Ptr × Int32) ⊕ (Ptr × Int32))
  | (pHead, i) => do
    if pHead ≠ none then
      let i := i + 1
      if i = pos then return .inr (pHead, i) else return .inl ((← load pHead).next, i)
    else return .inr (pHead, i)

def getElement (fuel : Nat) (pHead : Ptr) (pos : Int32) : Prog Int32 := do
  if pos < 1 then return 0
  else if pHead = none then return 0
  else
    let (pHead, i) ← loop (seek_body pos) fuel (pHead, 0)
    if i < pos then return 0 else return (← load pHead).element

def getElemAddr_body (x : Int32) (pHead : Ptr) : Prog (Ptr ⊕ Ptr) := do
  let v ← load pHead
  if v.element ≠ x ∧ v.next ≠ none then return .inl v.next else return .inr pHead

/-- The address of an element is that of its node, of which it is the first field. -/
def getElemAddr (fuel : Nat) (pHead : Ptr) (x : Int32) : Prog Ptr := do
  if pHead = none then return none
  else if x < 0 then return none
  else
    let pHead ← loop (getElemAddr_body x) fuel pHead
    if (← load pHead).element ≠ x then return none else return pHead

def modifyElem (fuel : Nat) (pNode : Ptr) (pos x : Int32) : Prog Int32 := do
  if pos < 1 then return 0
  else
    let (pHead, i) ← loop (seek_body pos) fuel (pNode, 0)
    if i < pos then return 0
    else
      store pHead fun v => { v with element := x }
      return 1

/-- A new node after `malloc`, `memset` and the assignment of its element. -/
def newNode (insertElem : Int32) : Prog Ptr := do
  let pInsert ← malloc
  store pInsert fun _ => { element := 0, next := none }
  store pInsert fun v => { v with element := insertElem }
  return pInsert

/-- The result and the new head pointer. -/
def insertHeadList (pNode : Ptr) (insertElem : Int32) : Prog (Int32 × Ptr) := do
  let pInsert ← newNode insertElem
  store pInsert fun v => { v with next := pNode }
  return (1, pInsert)

def last_body (pHead : Ptr) : Prog (Ptr ⊕ Ptr) := do
  let v ← load pHead
  if v.next ≠ none then return .inl v.next else return .inr pHead

def insertLastList (fuel : Nat) (pNode : Ptr) (insertElem : Int32) : Prog (Int32 × Ptr) := do
  let pInsert ← newNode insertElem
  let pHead ← loop last_body fuel pNode
  store pHead fun v => { v with next := pInsert }
  return (1, pNode)

/-- The nodes of a list. -/
abbrev Nodes := Spine Node.next

section

variable {h : Heap Node} {p : Ptr} {nodes : List (Nat × Node)} {fuel : Nat}

theorem run_sizeList_loop (hnodes : Nodes h p nodes) (hfuel : nodes.length < fuel) (k : Nat) :
    (loop sizeList_body fuel (p, Int32.ofNat k)).run h = .ok (Int32.ofNat (k + nodes.length), h) := by
  induction nodes generalizing p fuel k with
  | nil =>
    obtain rfl : p = none := hnodes
    obtain ⟨fuel, rfl⟩ := exists_fuel hfuel
    exact run_loop_done (by simp [sizeList_body]) fuel
  | cons node nodes ih =>
    obtain ⟨a, v⟩ := node
    obtain ⟨rfl, hcell, htail⟩ := hnodes
    obtain ⟨fuel, rfl⟩ := exists_fuel hfuel
    have hbody : (sizeList_body (some a, Int32.ofNat k)).run h = .ok (.inl (v.next, Int32.ofNat (k + 1)), h) := by
      rw [sizeList_body, if_pos (Option.some_ne_none a), run_bind_of_ok (run_load hcell), run_pure, ofNat_succ]
    rw [run_loop_next hbody, ih htail (Nat.lt_of_succ_lt_succ hfuel), List.length_cons, Nat.add_right_comm,
      Nat.add_assoc]

/-- `sizeList` counts in an `int`. -/
theorem run_sizeList (hnodes : Nodes h p nodes) (hfuel : nodes.length < fuel) :
    (sizeList fuel p).run h = .ok (Int32.ofNat nodes.length, h) := by
  have hloop := run_sizeList_loop hnodes hfuel 0
  rwa [Nat.zero_add] at hloop

theorem ofNat_inj_of_lt (hm : m < 2 ^ 31) (hn : n < 2 ^ 31) (heq : Int32.ofNat m = Int32.ofNat n) : m = n := by
  have hmod := (ofNat_eq_ofNat_iff m n).mp heq
  omega

theorem ofNat_lt_ofNat (hlt : m < n) (hn : n < 2 ^ 31) : Int32.ofNat m < Int32.ofNat n := by
  rw [Int32.lt_iff_toInt_lt, Int32.toInt_ofNat_of_lt hn, Int32.toInt_ofNat_of_lt (by omega)]
  omega

/-- One round of the search before the node number `n`. -/
theorem run_seek_body (hcell : h.cells a = some v) (hlt : k + 1 < n) (hn : n < 2 ^ 31) :
    (seek_body (Int32.ofNat n) (some a, Int32.ofNat k)).run h = .ok (.inl (v.next, Int32.ofNat (k + 1)), h) := by
  have hne : Int32.ofNat (k + 1) ≠ Int32.ofNat n := fun heq =>
    Nat.ne_of_lt hlt (ofNat_inj_of_lt (Nat.lt_trans hlt hn) hn heq)
  rw [seek_body, if_pos (Option.some_ne_none a), ofNat_succ, if_neg hne, run_bind_of_ok (run_load hcell), run_pure]

theorem run_seek_loop_found
    (hnodes : Nodes h p (front ++ (a, v) :: back)) (hfuel : front.length < fuel) (hpos : k + front.length + 1 = n)
    (hn : n < 2 ^ 31) :
    (loop (seek_body (Int32.ofNat n)) fuel (p, Int32.ofNat k)).run h = .ok ((some a, Int32.ofNat n), h) := by
  obtain ⟨fuel, rfl⟩ := exists_fuel hfuel
  induction front generalizing p fuel k with
  | nil =>
    obtain ⟨rfl, hcell, -⟩ := hnodes
    subst hpos
    have hbody : (seek_body (Int32.ofNat (k + 1)) (some a, Int32.ofNat k)).run h =
        .ok (.inr (some a, Int32.ofNat (k + 1)), h) := by
      rw [seek_body, if_pos (Option.some_ne_none a), ofNat_succ, if_pos rfl, run_pure]
    exact run_loop_done hbody fuel
  | cons node front ih =>
    obtain ⟨b, w⟩ := node
    obtain ⟨rfl, hcell, htail⟩ := hnodes
    rw [List.length_cons] at hpos hfuel
    rw [run_loop_next (run_seek_body hcell (by omega) hn)]
    obtain ⟨fuel, rfl⟩ := exists_fuel (Nat.lt_of_succ_lt_succ hfuel)
    exact ih htail (by omega) fuel (by omega)

theorem run_seek_loop_missing (hnodes : Nodes h p nodes) (hfuel : nodes.length < fuel)
    (hpos : k + nodes.length < n) (hn : n < 2 ^ 31) :
    (loop (seek_body (Int32.ofNat n)) fuel (p, Int32.ofNat k)).run h =
      .ok ((none, Int32.ofNat (k + nodes.length)), h) := by
  obtain ⟨fuel, rfl⟩ := exists_fuel hfuel
  induction nodes generalizing p fuel k with
  | nil =>
    obtain rfl : p = none := hnodes
    exact run_loop_done (by simp [seek_body]) fuel
  | cons node nodes ih =>
    obtain ⟨a, v⟩ := node
    obtain ⟨rfl, hcell, htail⟩ := hnodes
    rw [List.length_cons] at hpos hfuel
    have hlength : k + (nodes.length + 1) = k + 1 + nodes.length := by omega
    rw [run_loop_next (run_seek_body hcell (by omega) hn), List.length_cons, hlength]
    obtain ⟨fuel, rfl⟩ := exists_fuel (Nat.lt_of_succ_lt_succ hfuel)
    exact ih htail (by omega) fuel (by omega)

/-- The search for a position behind the list. -/
theorem run_seek_missing (hnodes : Nodes h p nodes) (hfuel : nodes.length < fuel) (hpos : nodes.length < n)
    (hn : n < 2 ^ 31) :
    (loop (seek_body (Int32.ofNat n)) fuel (p, 0)).run h = .ok ((none, Int32.ofNat nodes.length), h) := by
  have hloop := run_seek_loop_missing (k := 0) hnodes hfuel (by omega) hn
  rwa [Nat.zero_add] at hloop

/-- A position from 1 on. -/
theorem exists_ofNat (hpos : ¬pos < 1) : ∃ n, 0 < n ∧ n < 2 ^ 31 ∧ pos = Int32.ofNat n ∧ pos.toInt = n := by
  have hlow : 1 ≤ pos.toInt := by
    have hle := Int32.not_lt.mp hpos
    rwa [Int32.le_iff_toInt_le] at hle
  have hhigh := pos.toInt_lt
  have hcast : (pos.toInt.toNat : Int) = pos.toInt := Int.toNat_of_nonneg (by omega)
  refine ⟨pos.toInt.toNat, by omega, by omega, ?_, hcast.symm⟩
  rw [← Int32.toInt_inj, Int32.toInt_ofNat_of_lt (by omega), hcast]

theorem not_ofNat_lt_one (hpos : 0 < n) (hn : n < 2 ^ 31) : ¬Int32.ofNat n < 1 := by
  rw [Int32.lt_iff_toInt_lt, Int32.toInt_ofNat_of_lt hn, Int32.toInt_one]
  omega

section

variable (hnodes : Nodes h p (front ++ (a, v) :: back)) (hfuel : (front ++ (a, v) :: back).length < fuel)
  (hpos : front.length + 1 = n) (hn : n < 2 ^ 31)
include hnodes hfuel hpos hn

/-- The search for a position in the list. -/
theorem run_seek_found : (loop (seek_body (Int32.ofNat n)) fuel (p, 0)).run h = .ok ((some a, Int32.ofNat n), h) := by
  rw [List.length_append] at hfuel
  exact run_seek_loop_found (k := 0) hnodes (by omega) (by omega) hn

theorem run_getElement : (getElement fuel p (Int32.ofNat n)).run h = .ok (v.element, h) := by
  have hp : p ≠ none := by
    rintro rfl
    cases front <;> exact absurd hnodes.1 (by simp)
  rw [getElement, if_neg (not_ofNat_lt_one (by omega) hn), if_neg hp, run_bind_of_ok
    (run_seek_found hnodes hfuel hpos hn)]
  dsimp only
  rw [if_neg Int32.lt_irrefl, run_bind_of_ok (run_load hnodes.cell), run_pure]

/-- `modifyElem` at a position of the list changes that node. -/
theorem run_modifyElem (x : Int32) : ∃ h', (modifyElem fuel p (Int32.ofNat n) x).run h = .ok (1, h') ∧
      Nodes h' p (front ++ (a, { v with element := x }) :: back) := by
  refine ⟨h.alter a fun v => { v with element := x }, ?_, ?_⟩
  · rw [modifyElem, if_neg (not_ofNat_lt_one (by omega) hn), run_bind_of_ok (run_seek_found hnodes hfuel hpos hn)]
    dsimp only
    rw [if_neg Int32.lt_irrefl, run_bind_of_ok (run_store hnodes.cell _), run_pure]
  · have hnodup := hnodes.nodup
    rw [addresses, List.map_append, List.map_cons, List.nodup_append] at hnodup
    exact hnodes.alter_at _ hnodes.rest (List.nodup_cons.mp hnodup.2.1).1

end

/-- At any other position it changes nothing. -/
theorem run_modifyElem_missing (x : Int32) (hnodes : Nodes h p nodes) (hfuel : nodes.length < fuel)
    (hpos : ¬(1 ≤ pos.toInt ∧ pos.toInt ≤ nodes.length)) : (modifyElem fuel p pos x).run h = .ok (0, h) := by
  rw [modifyElem]
  by_cases hvalid : pos < 1
  · rw [if_pos hvalid, run_pure]
  · obtain ⟨n, hn0, hn, rfl, hint⟩ := exists_ofNat hvalid
    have hlt : nodes.length < n := by omega
    rw [if_neg hvalid, run_bind_of_ok (run_seek_missing hnodes hfuel hlt hn)]
    dsimp only
    rw [if_pos (ofNat_lt_ofNat hlt hn), run_pure]

/-- The loop of `getElemAddr` stops at the first node with the element, or at the last
node. -/
theorem run_getElemAddr_loop (x : Int32) (hnodes : Nodes h p ((a, v) :: nodes))
    (hfuel : nodes.length < fuel) : ∃ b w, (loop (getElemAddr_body x) fuel p).run h = .ok (some b, h) ∧
      h.cells b = some w ∧
      ((a, v) :: nodes).find? (fun node => node.2.element = x) = if w.element = x then some (b, w) else none := by
  obtain ⟨fuel, rfl⟩ := exists_fuel hfuel
  induction nodes generalizing p fuel a v with
  | nil =>
    obtain ⟨rfl, hcell, hend⟩ := hnodes
    have hend : v.next = none := hend
    refine ⟨a, v, run_loop_done ?_ fuel, hcell, ?_⟩
    · simp [getElemAddr_body, run_bind_of_ok (run_load hcell), hend]
    · by_cases hx : v.element = x <;> simp [hx]
  | cons node nodes ih =>
    obtain ⟨b, w⟩ := node
    obtain ⟨rfl, hcell, htail⟩ := hnodes
    have hnext : v.next = some b := htail.1
    by_cases hx : v.element = x
    · refine ⟨a, v, run_loop_done ?_ fuel, hcell, by simp [hx]⟩
      simp [getElemAddr_body, run_bind_of_ok (run_load hcell), hx]
    · have hbody : (getElemAddr_body x (some a)).run h = .ok (.inl v.next, h) := by
        simp [getElemAddr_body, run_bind_of_ok (run_load hcell), hx, hnext]
      rw [List.length_cons] at hfuel
      obtain ⟨fuel, rfl⟩ := exists_fuel (Nat.lt_of_succ_lt_succ hfuel)
      rw [run_loop_next hbody, List.find?_cons_of_neg (by simpa using hx)]
      exact ih htail fuel (by omega)

/-- `getElemAddr` finds the first node with an element that is not negative. -/
theorem run_getElemAddr (hx : ¬x < 0) (hnodes : Nodes h p nodes) (hfuel : nodes.length < fuel) :
    (getElemAddr fuel p x).run h = .ok ((nodes.find? fun node => node.2.element = x).map Prod.fst, h) := by
  cases nodes with
  | nil =>
    obtain rfl : p = none := hnodes
    rfl
  | cons node nodes =>
    obtain ⟨a, v⟩ := node
    have hp : p ≠ none := by
      rw [hnodes.1]
      exact Option.some_ne_none a
    obtain ⟨b, w, hloop, hcell, hfind⟩ := run_getElemAddr_loop x hnodes (Nat.lt_of_succ_lt hfuel)
    rw [getElemAddr, if_neg hp, if_neg hx, run_bind_of_ok hloop, run_bind_of_ok (run_load hcell), run_ite, hfind]
    by_cases hw : w.element = x
    · rw [if_neg (not_not_intro hw), if_pos hw, run_pure, Option.map_some]
    · rw [if_pos hw, if_neg hw, run_pure, Option.map_none]

/-- A negative element is not searched for. -/
theorem run_getElemAddr_of_neg (hx : x < 0) : (getElemAddr fuel p x).run h = .ok (none, h) := by
  rw [getElemAddr, if_pos hx, ite_self, run_pure]

/-- A new node is no part of the list. -/
theorem run_newNode (x : Int32) (hnodes : Nodes h p nodes) : ∃ a h', (newNode x).run h = .ok (some a, h') ∧
    h'.cells a = some { element := x, next := none } ∧ Nodes h' p nodes ∧ a ∉ addresses nodes := by
  have hnew : h.extend.cells h.next = some (h.raw h.next) := if_pos rfl
  have hcleared : (h.extend.alter h.next fun _ => { element := 0, next := none }).cells h.next =
      some { element := 0, next := none } := by
    rw [Heap.alter_cells_same, hnew, Option.map_some]
  refine ⟨h.next, (h.extend.alter h.next fun _ => { element := 0, next := none }).alter h.next
    fun v => { v with element := x }, ?_, ?_, ?_, hnodes.next_notMem⟩
  · rw [newNode, run_bind_of_ok (run_malloc h), run_bind_of_ok (run_store hnew _), run_bind_of_ok
      (run_store hcleared _), run_pure]
  · rw [Heap.alter_cells_same, hcleared, Option.map_some]
  · exact (hnodes.extend.alter _ hnodes.next_notMem).alter _ hnodes.next_notMem

theorem run_insertHeadList (x : Int32) (hnodes : Nodes h p nodes) : ∃ a h',
    (insertHeadList p x).run h = .ok ((1, some a), h') ∧
      Nodes h' (some a) ((a, { element := x, next := p }) :: nodes) := by
  obtain ⟨a, h', hrun, hcell, hlist, hfresh⟩ := run_newNode x hnodes
  refine ⟨a, h'.alter a fun v => { v with next := p }, ?_, rfl, ?_, hlist.alter _ hfresh⟩
  · rw [insertHeadList, run_bind_of_ok hrun, run_bind_of_ok (run_store hcell _), run_pure]
  · rw [Heap.alter_cells_same, hcell, Option.map_some]

theorem run_last_loop (hnodes : Nodes h p (front ++ [(a, v)]))
    (hfuel : front.length < fuel) : (loop last_body fuel p).run h = .ok (some a, h) := by
  obtain ⟨fuel, rfl⟩ := exists_fuel hfuel
  induction front generalizing p fuel with
  | nil =>
    obtain ⟨rfl, hcell, hend⟩ := hnodes
    have hend : v.next = none := hend
    exact run_loop_done (by simp [last_body, run_bind_of_ok (run_load hcell), hend]) fuel
  | cons node front ih =>
    obtain ⟨b, w⟩ := node
    obtain ⟨rfl, hcell, htail⟩ := hnodes
    have hnext : w.next ≠ none := by
      intro hnone
      rw [hnone] at htail
      cases front <;> exact absurd htail.1 (by simp)
    have hbody : (last_body (some b)).run h = .ok (.inl w.next, h) := by
      rw [last_body, run_bind_of_ok (run_load hcell), if_pos hnext, run_pure]
    rw [List.length_cons] at hfuel
    obtain ⟨fuel, rfl⟩ := exists_fuel (Nat.lt_of_succ_lt_succ hfuel)
    rw [run_loop_next hbody]
    exact ih htail fuel (by omega)

/-- `insertLastList` links a new node behind the last one. -/
theorem run_insertLastList (x : Int32) {b : Nat} {w : Node}
    (hnodes : Nodes h p (front ++ [(b, w)])) (hfuel : (front ++ [(b, w)]).length < fuel) : ∃ a h',
    (insertLastList fuel p x).run h = .ok ((1, p), h') ∧
      Nodes h' p (front ++ (b, { w with next := some a }) :: [(a, { element := x, next := none })]) := by
  obtain ⟨a, h', hrun, hcell, hlist, hfresh⟩ := run_newNode x hnodes
  have hlast : (loop last_body fuel p).run h' = .ok (some b, h') := by
    rw [List.length_append] at hfuel
    exact run_last_loop hlist (by omega)
  have hne : b ∉ addresses [(a, ({ element := x, next := none } : Node))] := by
    simp only [addresses, List.map_append, List.map_cons, List.map_nil, List.mem_append, List.mem_singleton, not_or]
      at hfresh ⊢
    exact Ne.symm hfresh.2
  refine ⟨a, h'.alter b fun v => { v with next := some a }, ?_, hlist.alter_at _ ⟨rfl, hcell, rfl⟩ hne⟩
  rw [insertLastList, run_bind_of_ok hrun, run_bind_of_ok hlast, run_bind_of_ok (run_store hlist.cell _), run_pure]

/-- Without a last node it dereferences `NULL`. -/
theorem run_insertLastList_empty (x : Int32) (hfuel : 0 < fuel) :
    (insertLastList fuel none x).run h = .error .null := by
  have hempty : Nodes h none [] := rfl
  obtain ⟨a, h', hrun, -⟩ := run_newNode x hempty
  obtain ⟨fuel, rfl⟩ := exists_fuel hfuel
  rw [insertLastList, run_bind_of_ok hrun]
  rfl

end

end basic_data_struct.linked_list.list
