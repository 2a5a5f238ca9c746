import BasicDataStruct.LinkedList.List

open machine machine.Exec

namespace basic_data_struct.linked_list.list

/-- The calls that build a list. -/
inductive Op where
  | insertHeadList (x : Int32)
  | insertLastList (x : Int32)
  | modifyElem (pos x : Int32)

/-- A call on the list at `p`, with its result and the head pointer it leaves. -/
def exec (fuel : Nat) (p : Ptr) : Op → Prog (Int32 × Ptr)
  | .insertHeadList x => insertHeadList p x
  | .insertLastList x => insertLastList fuel p x
  | .modifyElem pos x => do
    let result ← modifyElem fuel p pos x
    return (result, p)

/-- A sequence of calls, with their results. -/
def execAll (fuel : Nat) : Ptr → List Op → Prog (List Int32 × Ptr)
  | p, [] => return ([], p)
  | p, op :: ops => do
    let (result, p) ← exec fuel p op
    let (results, p) ← execAll fuel p ops
    return (result :: results, p)

/-- The positions of a sequence, counted from 1. -/
def Within (xs : List Int32) (pos : Int32) : Prop := 1 ≤ pos.toInt ∧ pos.toInt ≤ xs.length

instance (xs : List Int32) (pos : Int32) : Decidable (Within xs pos) := inferInstanceAs (Decidable (_ ∧ _))

/-- What a call does to the sequence that the list stands for. -/
def Op.apply (xs : List Int32) : Op → List Int32
  | .insertHeadList x => x :: xs
  | .insertLastList x => xs ++ [x]
  | .modifyElem pos x => if Within xs pos then xs.set (pos.toInt.toNat - 1) x else xs

/-- What a call returns. -/
def Op.result (xs : List Int32) : Op → Int32
  | .insertHeadList _ => 1
  | .insertLastList _ => 1
  | .modifyElem pos _ => if Within xs pos then 1 else 0

def contents (xs : List Int32) (ops : List Op) : List Int32 := ops.foldl Op.apply xs

def results : List Int32 → List Op → List Int32
  | _, [] => []
  | xs, op :: ops => op.result xs :: results (op.apply xs) ops

/-- No call of `insertLastList` meets the empty list. -/
def Guarded : List Int32 → List Op → Prop
  | _, [] => True
  | xs, .insertLastList x :: ops => xs ≠ [] ∧ Guarded (xs ++ [x]) ops
  | xs, op :: ops => Guarded (op.apply xs) ops

/-- The elements of a list. -/
def elements (nodes : List (Nat × Node)) : List Int32 := nodes.map fun node => node.2.element

section

variable {h : Heap Node} {p : Ptr} {nodes : List (Nat × Node)} {fuel : Nat}

theorem length_elements : (elements nodes).length = nodes.length := List.length_map _

/-- A position of the list splits its nodes. -/
theorem exists_split {pos : Int32} (hpos : Within (elements nodes) pos) : ∃ front a v back,
    nodes = front ++ (a, v) :: back ∧ pos = Int32.ofNat (front.length + 1) ∧ front.length + 1 < 2 ^ 31 ∧
      pos.toInt.toNat - 1 = front.length := by
  obtain ⟨hlow, hhigh⟩ := hpos
  rw [length_elements] at hhigh
  have hvalid : ¬pos < 1 := by
    rw [Int32.lt_iff_toInt_lt, Int32.toInt_one]
    omega
  obtain ⟨n, hn0, hn, rfl, hint⟩ := exists_ofNat hvalid
  have hindex : n - 1 < nodes.length := by omega
  have hfront : (nodes.take (n - 1)).length = n - 1 := List.length_take_of_le (Nat.le_of_lt hindex)
  refine ⟨nodes.take (n - 1), nodes[n - 1].1, nodes[n - 1].2, nodes.drop (n - 1 + 1), ?_, ?_, by omega, by omega⟩
  · rw [Prod.eta, List.getElem_cons_drop, List.take_append_drop]
  · rw [hfront, Nat.sub_add_cancel hn0]

/-- The step lemma of the refinement. -/
theorem exec_refines (op : Op) (hnodes : Nodes h p nodes) (hfuel : nodes.length < fuel)
    (hguard : ∀ x, op = .insertLastList x → nodes ≠ []) : ∃ p' h' nodes',
      (exec fuel p op).run h = .ok ((op.result (elements nodes), p'), h') ∧ Nodes h' p' nodes' ∧
        elements nodes' = op.apply (elements nodes) := by
  cases op with
  | insertHeadList x =>
    obtain ⟨a, h', hrun, hlist⟩ := run_insertHeadList x hnodes
    exact ⟨some a, h', _, hrun, hlist, rfl⟩
  | insertLastList x =>
    obtain ⟨front, ⟨b, w⟩, rfl⟩ := (List.eq_nil_or_concat' nodes).resolve_left (hguard x rfl)
    obtain ⟨a, h', hrun, hlist⟩ := run_insertLastList x hnodes hfuel
    exact ⟨p, h', _, hrun, hlist, by simp [elements, Op.apply]⟩
  | modifyElem pos x =>
    by_cases hpos : Within (elements nodes) pos
    · obtain ⟨front, a, v, back, rfl, rfl, hn, hindex⟩ := exists_split hpos
      obtain ⟨h', hrun, hlist⟩ := run_modifyElem hnodes hfuel rfl hn x
      refine ⟨p, h', _, ?_, hlist, ?_⟩
      · rw [exec, run_bind_of_ok hrun, Op.result, if_pos hpos, run_pure]
      · rw [Op.apply, if_pos hpos, hindex]
        simp [elements]
    · have hmissing : ¬(1 ≤ pos.toInt ∧ pos.toInt ≤ nodes.length) := by rwa [← length_elements]
      refine ⟨p, h, nodes, ?_, hnodes, by rw [Op.apply, if_neg hpos]⟩
      rw [exec, run_bind_of_ok (run_modifyElem_missing x hnodes hfuel hmissing), Op.result, if_neg hpos, run_pure]

theorem guarded_cons {xs : List Int32} {op : Op} {ops : List Op} :
    Guarded xs (op :: ops) ↔ (∀ x, op = .insertLastList x → xs ≠ []) ∧ Guarded (op.apply xs) ops := by
  cases op <;> simp [Guarded, Op.apply]

/-- A call adds at most one node. -/
theorem length_le_of_apply {nodes' : List (Nat × Node)} {op : Op}
    (helems : elements nodes' = op.apply (elements nodes)) : nodes'.length ≤ nodes.length + 1 := by
  rw [← length_elements, ← @length_elements nodes, helems]
  cases op with
  | insertHeadList x => exact Nat.le_refl _
  | insertLastList x => simp [Op.apply]
  | modifyElem pos x =>
    rw [Op.apply]
    split <;> simp

/-- The run lemma: guarded calls carry out the calls on sequences. -/
theorem execAll_refines (ops : List Op) (hnodes : Nodes h p nodes) (hfuel : nodes.length + ops.length < fuel)
    (hguard : Guarded (elements nodes) ops) : ∃ p' h' nodes',
      (execAll fuel p ops).run h = .ok ((results (elements nodes) ops, p'), h') ∧ Nodes h' p' nodes' ∧
        elements nodes' = contents (elements nodes) ops ∧ nodes'.length < fuel := by
  induction ops generalizing h p nodes with
  | nil => exact ⟨p, h, nodes, rfl, hnodes, rfl, hfuel⟩
  | cons op ops ih =>
    rw [List.length_cons] at hfuel
    obtain ⟨hhead, htail⟩ := guarded_cons.mp hguard
    have hroom : nodes.length < fuel := by omega
    obtain ⟨q, h', nodes', hrun, hlist, helems⟩ := exec_refines op hnodes hroom
      fun x hx hnil => hhead x hx (by rw [hnil]; rfl)
    have hlength := length_le_of_apply helems
    rw [← helems] at htail
    obtain ⟨r, h'', nodes'', hrest, hlist', helems', hlength'⟩ := ih hlist (by omega) htail
    refine ⟨r, h'', nodes'', ?_, hlist', by rw [helems', helems, contents, contents, List.foldl_cons], hlength'⟩
    rw [execAll, run_bind_of_ok hrun, run_bind_of_ok hrest, run_pure, results, helems]

/-- A run that is not guarded stops at a dereference of `NULL`. -/
theorem execAll_null (ops : List Op) (hnodes : Nodes h p nodes) (hfuel : nodes.length + ops.length < fuel)
    (hguard : ¬Guarded (elements nodes) ops) : (execAll fuel p ops).run h = .error .null := by
  induction ops generalizing h p nodes with
  | nil => exact absurd trivial hguard
  | cons op ops ih =>
    rw [List.length_cons] at hfuel
    have hroom : nodes.length < fuel := by omega
    by_cases hhead : ∀ x, op = .insertLastList x → nodes ≠ []
    · obtain ⟨q, h', nodes', hrun, hlist, helems⟩ := exec_refines op hnodes hroom hhead
      have hlength := length_le_of_apply helems
      have htail : ¬Guarded (elements nodes') ops := by
        intro htail
        rw [helems] at htail
        refine hguard (guarded_cons.mpr ⟨fun x hx hnil => hhead x hx ?_, htail⟩)
        exact List.map_eq_nil_iff.mp hnil
      rw [execAll, run_bind_of_ok hrun, run_bind, ih hlist (by omega) htail]
    · push Not at hhead
      obtain ⟨x, rfl, rfl⟩ := hhead
      obtain rfl : p = none := hnodes
      rw [execAll, run_bind, exec, run_insertLastList_empty x (Nat.zero_lt_of_lt hroom)]

/-- A counter in an `int` is right below `2 ^ 31`. -/
theorem toInt_ofNat_eq_iff (n : Nat) : (Int32.ofNat n).toInt = n ↔ n < 2 ^ 31 := by
  refine ⟨fun heq => ?_, Int32.toInt_ofNat_of_lt⟩
  have hlt := (Int32.ofNat n).toInt_lt
  omega

/-- The query `sizeList`. -/
theorem sizeList_iff (hnodes : Nodes h p nodes) (hfuel : nodes.length < fuel) :
    (∃ n, (sizeList fuel p).run h = .ok (n, h) ∧ n.toInt = (elements nodes).length) ↔
      (elements nodes).length < 2 ^ 31 := by
  rw [run_sizeList hnodes hfuel, length_elements, ← toInt_ofNat_eq_iff]
  constructor
  · rintro ⟨n, heq, hn⟩
    cases heq
    exact hn
  · exact fun hn => ⟨_, rfl, hn⟩

/-- The query `getElement`. -/
theorem getElement_eq {pos y : Int32} (hnodes : Nodes h p nodes) (hfuel : nodes.length < fuel)
    (hpos : Within (elements nodes) pos) (hy : (elements nodes)[pos.toInt.toNat - 1]? = some y) :
    (getElement fuel p pos).run h = .ok (y, h) := by
  obtain ⟨front, a, v, back, rfl, rfl, hn, hindex⟩ := exists_split hpos
  obtain rfl : v.element = y := by
    rw [hindex] at hy
    simpa [elements] using hy
  exact run_getElement hnodes hfuel rfl hn

/-- The query `getElemAddr`. -/
theorem getElemAddr_iff {x : Int32} (hnodes : Nodes h p nodes) (hfuel : nodes.length < fuel) :
    (getElemAddr fuel p x).run h = .ok ((nodes.find? fun node => node.2.element = x).map Prod.fst, h) ↔
      (x < 0 → x ∉ elements nodes) := by
  by_cases hx : x < 0
  · rw [run_getElemAddr_of_neg hx, Except.ok.injEq, Prod.mk.injEq, eq_comm, Option.map_eq_none_iff, List.find?_eq_none]
    simp [hx, elements]
  · exact iff_of_true (run_getElemAddr hx hnodes hfuel) fun hneg => absurd hneg hx

end

/-- After `initList` and the calls `ops` the list stands for the sequence that the calls
describe, every call has returned what it should, and the queries answer for that
sequence: its length, the element at `pos`, and the first node with the element `x`. -/
def Refines (fuel : Nat) (h : Heap Node) (ops : List Op) (pos x : Int32) : Prop :=
  ∃ p h' nodes, (execAll fuel initList ops).run h = .ok ((results [] ops, p), h') ∧
    Nodes h' p nodes ∧ elements nodes = contents [] ops ∧
    (∃ n, (sizeList fuel p).run h' = .ok (n, h') ∧ n.toInt = (contents [] ops).length) ∧
    (∀ y, Within (contents [] ops) pos → (contents [] ops)[pos.toInt.toNat - 1]? = some y →
      (getElement fuel p pos).run h' = .ok (y, h')) ∧
    (getElemAddr fuel p x).run h' = .ok ((nodes.find? fun node => node.2.element = x).map Prod.fst, h')

/-- The list refines a sequence exactly where no `insertLastList` meets the empty list,
the length is an `int`, and no negative element that occurs is searched for. -/
theorem list_refines_iff (fuel : Nat) (h : Heap Node) (ops : List Op) (pos x : Int32) (hfuel : ops.length < fuel) :
    Refines fuel h ops pos x ↔
      Guarded [] ops ∧ (contents [] ops).length < 2 ^ 31 ∧ (x < 0 → x ∉ contents [] ops) := by
  have hempty : Nodes h initList [] := rfl
  have hroom : ([] : List (Nat × Node)).length + ops.length < fuel := by simpa using hfuel
  by_cases hguard : Guarded [] ops
  · obtain ⟨p, h', nodes, hrun, hnodes, helems, hlength⟩ := execAll_refines ops hempty hroom hguard
    have hcontents : elements nodes = contents [] ops := helems
    constructor
    · rintro ⟨q, h'', nodes', -, hnodes', helems', hsize, -, haddr⟩
      have hlength' : nodes'.length < fuel := by rwa [← length_elements, helems', ← hcontents, length_elements]
      rw [← helems'] at hsize ⊢
      exact ⟨hguard, (sizeList_iff hnodes' hlength').mp hsize, (getElemAddr_iff hnodes' hlength').mp haddr⟩
    · rintro ⟨-, hsize, haddr⟩
      rw [← hcontents] at hsize haddr
      refine ⟨p, h', nodes, hrun, hnodes, hcontents, ?_, ?_, (getElemAddr_iff hnodes hlength).mpr haddr⟩
      · rw [← hcontents]
        exact (sizeList_iff hnodes hlength).mpr hsize
      · intro y hpos hy
        rw [← hcontents] at hpos hy
        exact getElement_eq hnodes hlength hpos hy
  · refine iff_of_false ?_ fun hcond => hguard hcond.1
    rintro ⟨p, h', nodes, hrun, -⟩
    have hnull := execAll_null ops hempty hroom hguard
    rw [hnull] at hrun
    cases hrun

/-- A heap in which nothing has been allocated yet. -/
def emptyHeap : Heap Node := Heap.empty fun _ => default

theorem list_refines_inserts :
    Refines 4 emptyHeap [.insertHeadList 5, .insertLastList (-2), .modifyElem 1 7] 2 7 :=
  (list_refines_iff 4 emptyHeap [.insertHeadList 5, .insertLastList (-2), .modifyElem 1 7] 2 7 (by decide)).mpr
    ⟨⟨by decide, trivial⟩, by decide, by decide⟩

/-- The first call on a new list is `insertLastList`. -/
theorem not_refines_insertLast_empty : ¬Refines 2 emptyHeap [.insertLastList 5] 1 5 := by
  rintro ⟨p, h', nodes, hrun, -⟩
  rw [execAll, run_bind, exec, initList, run_insertLastList_empty 5 (by decide)] at hrun
  cases hrun

end basic_data_struct.linked_list.list
