import BasicDataStruct.LinearList.SequenceList

open machine machine.Exec

namespace basic_data_struct.linear_list

variable {k fuel : Nat}

/-- The elements of a list. -/
def SqList.elems (l : SqList) : List Int32 := l.data.toList.take l.length.toInt.toNat

/-- The element at which `List_LocateElem` stops. -/
def Stops (simple : Bool) (x y : Int32) : Bool := if simple then y = x else y ≠ x

section Queries

variable {h : Heap SqList} {a : Nat} {l : SqList}

theorem Reachable.length_elems (hl : Reachable l) : (l.elems.length : Int) = l.length.toInt := by
  have hlow := hl.length_nonneg
  have hhigh := hl.length_le
  rw [SqList.elems, List.length_take, Vector.length_toList]
  omega

theorem run_readData {y : Int32} (hcell : h.cells a = some l) (hk : k < SEQUENCE_LIST_MAX_SIZE)
    (hy : l.elems[k]? = some y) : (readData (some a) (Int32.ofNat k)).run h = .ok (y, h) := by
  have hint : (Int32.ofNat k).toInt = k := Int32.toInt_ofNat_of_lt (Nat.lt_trans hk (by decide))
  have hlow : (0 : Int32) ≤ Int32.ofNat k := by
    rw [Int32.le_iff_toInt_le, hint]
    exact Int.natCast_nonneg k
  have hdata : l.data[(Int32.ofNat k).toInt.toNat]? = some y := by
    rw [SqList.elems, List.getElem?_take] at hy
    split at hy
    · rw [hint, Int.toNat_natCast, ← Vector.getElem?_toList, hy]
    · cases hy
  rw [readData, run_bind_of_ok (run_load hcell), if_pos hlow, hdata, run_pure]

/-- The search from a subscript on. -/
theorem run_locate_loop (simple : Bool) (x : Int32) (hcell : h.cells a = some l) (hl : Reachable l)
    (hk : k ≤ l.elems.length) (hfuel : l.elems.length < k + fuel) :
    (loop (locate_body simple (some a) (some x)) fuel (Int32.ofNat k)).run h =
      .ok (((l.elems.drop k).findIdx? (Stops simple x)).elim (-2) fun j => Int32.ofNat (k + j), h) := by
  have hlen := hl.length_elems
  have hmax := hl.length_le
  have hnum : SEQUENCE_LIST_MAX_SIZE = 100 := rfl
  induction fuel generalizing k with
  | zero => omega
  | succ fuel ih =>
    have hint : (Int32.ofNat k).toInt = k := Int32.toInt_ofNat_of_lt (by omega)
    by_cases hend : k < l.elems.length
    · have hlt : Int32.ofNat k < l.length := by
        rw [Int32.lt_iff_toInt_lt, hint]
        omega
      have hread := run_readData hcell (by omega) (List.getElem?_eq_getElem hend)
      have hstops : (if simple then l.elems[k] = x else l.elems[k] ≠ x) ↔ Stops simple x l.elems[k] := by
        cases simple <;> simp [Stops]
      rw [List.drop_eq_getElem_cons hend, List.findIdx?_cons]
      by_cases hstop : Stops simple x l.elems[k]
      · have hbody : (locate_body simple (some a) (some x) (Int32.ofNat k)).run h = .ok (.inr (Int32.ofNat k), h) := by
          rw [locate_body, run_bind_of_ok (run_load hcell), if_pos hlt, run_bind_of_ok hread, deref, run_pure_bind,
            if_pos (hstops.mpr hstop), run_pure]
        rw [run_loop_done hbody, if_pos hstop]
        rfl
      · have hbody : (locate_body simple (some a) (some x) (Int32.ofNat k)).run h =
            .ok (.inl (Int32.ofNat (k + 1)), h) := by
          rw [locate_body, run_bind_of_ok (run_load hcell), if_pos hlt, run_bind_of_ok hread, deref, run_pure_bind,
            if_neg (mt hstops.mp hstop), run_pure, ofNat_succ]
        rw [run_loop_next hbody, ih (by omega) (by omega), if_neg hstop]
        cases (l.elems.drop (k + 1)).findIdx? (Stops simple x) with
        | none => rfl
        | some j =>
          have hsum : k + 1 + j = k + (j + 1) := by omega
          rw [Option.map_some, Option.elim_some, Option.elim_some, hsum]
    · have hbody : (locate_body simple (some a) (some x) (Int32.ofNat k)).run h = .ok (.inr (-2), h) := by
        have hge : ¬Int32.ofNat k < l.length := by
          rw [Int32.lt_iff_toInt_lt, hint]
          omega
        rw [locate_body, run_bind_of_ok (run_load hcell), if_neg hge, run_pure]
      rw [run_loop_done hbody, List.drop_eq_nil_of_le (by omega)]
      rfl

theorem run_List_LocateElem (simple : Bool) (x : Int32) (hcell : h.cells a = some l) (hl : Reachable l)
    (hfuel : SEQUENCE_LIST_MAX_SIZE < fuel) : (List_LocateElem simple fuel (some a) (some x)).run h =
      .ok ((l.elems.findIdx? (Stops simple x)).elim (-2) Int32.ofNat, h) := by
  have hlen := hl.length_elems
  have hmax := hl.length_le
  have hloop := run_locate_loop simple x (k := 0) hcell hl (by omega) (by omega : _ < 0 + fuel)
  rw [List_LocateElem, if_neg (Option.some_ne_none a)]
  simpa using hloop

/-- `List_GetElem` never succeeds: `maxsize` is 0. -/
theorem run_List_GetElem (i : Int32) (hcell : h.cells a = some l) (hl : Reachable l) :
    (List_GetElem (some a) i true).run h = .ok ((if i < 0 then -1 else -2, none), h) := by
  rw [List_GetElem]
  by_cases hi : i < 0
  · rw [if_pos (.inr (.inl hi)), if_pos hi, run_pure]
  · have hfar : i > l.maxsize - 1 := by
      rw [Int32.lt_iff_toInt_lt] at hi
      rw [hl.maxsize_eq, gt_iff_lt, Int32.lt_iff_toInt_lt]
      change -1 < i.toInt
      rw [Int32.toInt_zero] at hi
      omega
    rw [if_neg (by simp [hi]), run_bind_of_ok (run_load hcell), if_pos hfar, if_neg hi, run_pure]

end Queries

def BoundsLaw (l : SqList) : Prop :=
  0 ≤ l.length.toInt ∧ l.length.toInt ≤ l.maxsize.toInt ∧ l.maxsize.toInt = SEQUENCE_LIST_MAX_SIZE

/-- An element is addressed exactly at the subscripts of the list. -/
def GetElemLaw (h : Heap SqList) (p : Ptr) (l : SqList) (i : Int32) : Prop :=
  (List_GetElem p i true).run h = .ok ((0, some i), h) ↔ 0 ≤ i.toInt ∧ i.toInt < l.length.toInt

/-- The smallest subscript of an element is returned, or a negative code. -/
def LocateElemLaw (simple : Bool) (fuel : Nat) (h : Heap SqList) (p : Ptr) (l : SqList) (x : Int32) : Prop :=
  ∃ r, (List_LocateElem simple fuel p (some x)).run h = .ok (r, h) ∧
    match l.elems.findIdx? (· = x) with
    | some i => r.toInt = i
    | none => r.toInt < 0

/-- A result other than 0 stands for true. -/
def IsEmptyLaw (h : Heap SqList) (p : Ptr) (l : SqList) : Prop :=
  ∃ r, (List_IsEmpty p).run h = .ok (r, h) ∧ (r ≠ 0 ↔ l.length.toInt = 0)

def IsFullLaw (h : Heap SqList) (p : Ptr) (l : SqList) : Prop :=
  ∃ r, (List_IsFull p).run h = .ok (r, h) ∧ (r = 1 ↔ l.length.toInt = SEQUENCE_LIST_MAX_SIZE)

/-- A list as a bounded sequence. -/
structure Law (simple : Bool) (fuel : Nat) (h : Heap SqList) (p : Ptr) (l : SqList) : Prop where
  bounds : BoundsLaw l
  getElem (i : Int32) : GetElemLaw h p l i
  locateElem (x : Int32) : LocateElemLaw simple fuel h p l x
  isEmpty : IsEmptyLaw h p l
  isFull : IsFullLaw h p l

section Laws

variable {h : Heap SqList} {a : Nat} {l : SqList}

theorem not_boundsLaw (hl : Reachable l) : ¬BoundsLaw l := by
  rintro ⟨-, -, hmax⟩
  rw [hl.maxsize_eq] at hmax
  exact absurd hmax (by decide)

theorem getElemLaw_iff (i : Int32) (hcell : h.cells a = some l) (hl : Reachable l) :
    GetElemLaw h (some a) l i ↔ ¬(0 ≤ i.toInt ∧ i.toInt < l.length.toInt) := by
  have hfail : (List_GetElem (some a) i true).run h ≠ .ok ((0, some i), h) := by
    rw [run_List_GetElem i hcell hl]
    simp
  rw [GetElemLaw, iff_false_left hfail]

theorem not_isEmptyLaw (hcell : h.cells a = some l) : ¬IsEmptyLaw h (some a) l := by
  have hrun : (List_IsEmpty (some a)).run h = .ok (l.length, h) := by
    rw [List_IsEmpty, if_neg (Option.some_ne_none a), run_bind_of_ok (run_load hcell), run_pure]
  rintro ⟨r, hr, hlaw⟩
  rw [hrun] at hr
  cases hr
  rw [← Int32.toInt_inj.ne, Int32.toInt_zero] at hlaw
  exact not_iff_self hlaw

theorem isFullLaw_iff (hcell : h.cells a = some l) (hl : Reachable l) :
    IsFullLaw h (some a) l ↔ 0 < l.length.toInt ∧ l.length.toInt < SEQUENCE_LIST_MAX_SIZE := by
  have hlow := hl.length_nonneg
  have hhigh := hl.length_le
  have hmax : SEQUENCE_LIST_MAX_SIZE = 100 := rfl
  have hzero : l.length = 0 ↔ l.length.toInt = 0 := by rw [← Int32.toInt_inj, Int32.toInt_zero]
  have hrun : (List_IsFull (some a)).run h = .ok (if l.length.toInt = 0 then 1 else 0, h) := by
    rw [List_IsFull, if_neg (Option.some_ne_none a), run_bind_of_ok (run_load hcell), hl.maxsize_eq, run_ite]
    by_cases hlen : l.length = 0
    · rw [if_pos hlen, if_pos (hzero.mp hlen), run_pure]
    · rw [if_neg hlen, if_neg (mt hzero.mpr hlen), run_pure]
  constructor
  · rintro ⟨r, hr, hlaw⟩
    rw [hrun] at hr
    cases hr
    by_cases hlen : l.length.toInt = 0
    · have hfull := hlaw.mp (if_pos hlen)
      omega
    · refine ⟨by omega, by_contra fun hge => ?_⟩
      have hone := hlaw.mpr (by omega)
      rw [if_neg hlen] at hone
      exact absurd hone (by decide)
  · rintro ⟨hpos, hlt⟩
    refine ⟨_, hrun, ?_⟩
    rw [if_neg (by omega)]
    exact iff_of_false (by decide) (by omega)

/-- An element other than `x` that is found first is no occurrence of `x`. -/
theorem findIdx_ne {xs : List Int32} {x : Int32} {i j : Nat} (hi : xs.findIdx? (· = x) = some i)
    (hj : xs.findIdx? (· ≠ x) = some j) : i ≠ j := by
  rintro rfl
  obtain ⟨hlt, heq, -⟩ := List.findIdx?_eq_some_iff_getElem.mp hi
  obtain ⟨_, hne, -⟩ := List.findIdx?_eq_some_iff_getElem.mp hj
  exact absurd (of_decide_eq_true heq) (of_decide_eq_true hne)

/-- With `memcmp` the first element that differs is returned, so the result is right
only for the empty list. -/
theorem locateElemLaw_iff (simple : Bool) (x : Int32) (hcell : h.cells a = some l) (hl : Reachable l)
    (hfuel : SEQUENCE_LIST_MAX_SIZE < fuel) :
    LocateElemLaw simple fuel h (some a) l x ↔ simple ∨ l.elems = [] := by
  have hlen := hl.length_elems
  have hhigh := hl.length_le
  have hmax : SEQUENCE_LIST_MAX_SIZE = 100 := rfl
  have hint : ∀ {q : Int32 → Bool} {j : Nat}, l.elems.findIdx? q = some j → (Int32.ofNat j).toInt = j := by
    intro q j hj
    have hlt := (List.findIdx?_eq_some_iff_getElem.mp hj).1
    exact Int32.toInt_ofNat_of_lt (by omega)
  have hrun := run_List_LocateElem simple x hcell hl hfuel
  rw [LocateElemLaw, hrun]
  cases simple with
  | true =>
    refine iff_of_true ⟨_, rfl, ?_⟩ (.inl rfl)
    have hstops : Stops true x = fun y => decide (y = x) := by ext y; simp [Stops]
    rw [hstops]
    cases hfind : l.elems.findIdx? (· = x) with
    | none => decide
    | some i => exact hint hfind
  | false =>
    have hstops : Stops false x = fun y => decide (y ≠ x) := by ext y; simp [Stops]
    rw [hstops]
    by_cases hnil : l.elems = []
    · rw [hnil]
      exact iff_of_true ⟨-2, rfl, by rw [List.findIdx?_nil]; decide⟩ (.inr rfl)
    · refine iff_of_false ?_ (by simp [hnil])
      rintro ⟨r, hr, hlaw⟩
      cases hr
      cases hother : l.elems.findIdx? (· ≠ x) with
      | none =>
        -- every element is x, and -2 is returned
        obtain ⟨y, hy⟩ := List.exists_mem_of_ne_nil _ hnil
        have hx : y = x := by simpa using List.findIdx?_eq_none_iff.mp hother y hy
        cases hfind : l.elems.findIdx? (· = x) with
        | none =>
          have hne := List.findIdx?_eq_none_iff.mp hfind y hy
          simp [hx] at hne
        | some i =>
          rw [hother, hfind] at hlaw
          change (-2 : Int) = i at hlaw
          omega
      | some j =>
        rw [hother, Option.elim_some, hint hother] at hlaw
        cases hfind : l.elems.findIdx? (· = x) with
        | none =>
          rw [hfind] at hlaw
          omega
        | some i =>
          rw [hfind] at hlaw
          exact findIdx_ne hfind hother (Int.ofNat.inj hlaw.symm)

end Laws

/-- Whatever is called after `List_Init`, the list that is left is no bounded sequence.
`List_GetElem` is right only outside the list, `List_LocateElem` is right with
`_COMPARE_SIMPLE_` or on the empty list, `List_IsEmpty` is never right, and
`List_IsFull` is right between the empty and the full list. -/
theorem sqlist_never_bounded_sequence (simple : Bool) (fuel : Nat) (h h' : Heap SqList) (a : Nat) (l : SqList)
    (ops : List Op) (hfuel : SEQUENCE_LIST_MAX_SIZE < fuel) (hcell : h.cells a = some l)
    (hrun : (execAll fuel (some a) (.Init :: ops)).run h = .ok ((), h')) :
    ∃ l', h'.cells a = some l' ∧ ¬Law simple fuel h' (some a) l' ∧
      (∀ i, GetElemLaw h' (some a) l' i ↔ ¬(0 ≤ i.toInt ∧ i.toInt < l'.length.toInt)) ∧
      (∀ x, LocateElemLaw simple fuel h' (some a) l' x ↔ simple ∨ l'.elems = []) ∧
      ¬IsEmptyLaw h' (some a) l' ∧
      (IsFullLaw h' (some a) l' ↔ 0 < l'.length.toInt ∧ l'.length.toInt < SEQUENCE_LIST_MAX_SIZE) := by
  have hinit : (exec fuel (some a) .Init).run h = .ok (0, h.alter a fun _ => SqList.zero) := by
    rw [exec, List_Init, if_neg (Option.some_ne_none a), run_bind_of_ok (run_store hcell _), run_pure]
  have hzero : (h.alter a fun _ => SqList.zero).cells a = some SqList.zero := by
    rw [Heap.alter_cells_same, hcell, Option.map_some]
  rw [execAll, run_bind_of_ok hinit] at hrun
  obtain ⟨l', hcell', hl'⟩ := run_execAll ops hzero .zero hrun
  exact ⟨l', hcell', fun hlaw => not_boundsLaw hl' hlaw.bounds, fun i => getElemLaw_iff i hcell' hl',
    fun x => locateElemLaw_iff simple x hcell' hl' hfuel, not_isEmptyLaw hcell', isFullLaw_iff hcell' hl'⟩

/-- The heap of a caller with one list of its own. -/
def callerHeap : Heap SqList := (Heap.empty fun _ => SqList.zero).extend

theorem sqlist_never_bounded_sequence_insert : ∃ h' l',
    (execAll 101 (some 0) [.Init, .Insert 0 (some 5)]).run callerHeap = .ok ((), h') ∧ h'.cells 0 = some l' ∧
      ¬Law false 101 h' (some 0) l' := by
  have hrun : (execAll 101 (some 0) [.Init, .Insert 0 (some 5)]).run callerHeap = .ok ((), _) := rfl
  obtain ⟨l', hcell, hlaw, -⟩ := sqlist_never_bounded_sequence false 101 callerHeap _ 0 SqList.zero [.Insert 0 (some 5)]
    (by decide) rfl hrun
  exact ⟨_, l', hrun, hcell, hlaw⟩

/-- Right after `List_Init` the capacity is 0. -/
theorem not_law_after_init : ∃ h', (execAll 101 (some 0) [.Init]).run callerHeap = .ok ((), h') ∧
    h'.cells 0 = some SqList.zero ∧ ¬Law false 101 h' (some 0) SqList.zero :=
  ⟨callerHeap.alter 0 fun _ => SqList.zero, rfl, rfl, fun hlaw => absurd hlaw.bounds.2.2 (by decide)⟩

end basic_data_struct.linear_list
