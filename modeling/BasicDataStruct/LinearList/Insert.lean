import BasicDataStruct.LinearList.Laws

open machine machine.Exec

namespace basic_data_struct.linear_list

variable {h h' : Heap SqList} {a : Nat} {l : SqList} {subscript e : Int32}

/-- There is room, and the subscript is one of the list or its end. -/
def Insertable (l : SqList) (subscript : Int32) : Prop :=
  0 ≤ subscript ∧ subscript ≤ l.length ∧ l.length.toInt < SEQUENCE_LIST_MAX_SIZE

/-- What an insertion is for: it returns, with 0 and the element in its place, or with a
negative number and the list as it was. -/
def Inserts (h : Heap SqList) (a : Nat) (l : SqList) (subscript e : Int32) : Prop :=
  ∃ bound result h', (∀ fuel ≥ bound, (List_Insert fuel (some a) subscript (some e)).run h = .ok (result, h')) ∧
    (Insertable l subscript → result = 0 ∧ ∃ l', h'.cells a = some l' ∧ l'.length.toInt = l.length.toInt + 1 ∧
      l'.elems = l.elems.take subscript.toInt.toNat ++ e :: l.elems.drop subscript.toInt.toNat) ∧
    (¬Insertable l subscript → result < 0 ∧ h'.cells a = some l)

theorem run_writeData {i x : Int32} (hcell : h.cells a = some l) (hlow : 0 ≤ i.toInt)
    (hhigh : i.toInt < SEQUENCE_LIST_MAX_SIZE) :
    (writeData (some a) i x).run h =
      .ok ((), h.alter a fun l => { l with data := l.data.setIfInBounds i.toInt.toNat x }) := by
  have hin : 0 ≤ i ∧ i < Int32.ofNat SEQUENCE_LIST_MAX_SIZE := by
    rw [Int32.le_iff_toInt_le, Int32.lt_iff_toInt_lt]
    exact ⟨hlow, hhigh⟩
  rw [writeData, if_pos hin, run_store hcell]

theorem inserts_negative (hcell : h.cells a = some l) (hneg : subscript < 0) : Inserts h a l subscript e := by
  refine ⟨0, -1, h, fun fuel _ => ?_, fun hin => absurd hin.1 (Int32.not_le.mpr hneg), fun _ => ⟨by decide, hcell⟩⟩
  rw [List_Insert, if_pos (.inr hneg), run_pure]

theorem inserts_far (hcell : h.cells a = some l) (hneg : ¬subscript < 0) (hfar : l.length < subscript) :
    Inserts h a l subscript e := by
  refine ⟨0, -2, h, fun fuel _ => ?_, fun hin => absurd hin.2.1 (Int32.not_le.mpr hfar), fun _ => ⟨by decide, hcell⟩⟩
  rw [List_Insert, if_neg (by simp [hneg]), run_bind_of_ok (run_load hcell), if_pos hfar, run_pure]

/-- The elements after the element behind the last one is written. -/
theorem elems_snoc (hlow : 0 ≤ l.length.toInt) (hroom : l.length.toInt < SEQUENCE_LIST_MAX_SIZE) (x : Int32) :
    SqList.elems { l with data := l.data.setIfInBounds l.length.toInt.toNat x, length := l.length + 1 } =
      l.elems ++ [x] := by
  have hlen : l.length.toInt.toNat < l.data.toList.length := by
    rw [Vector.length_toList]
    omega
  rw [SqList.elems, SqList.elems, toInt_succ hlow hroom, Int.toNat_add hlow (by decide), Vector.toList_setIfInBounds,
    Int.toNat_one, List.take_add_one, List.getElem?_set_self hlen, List.take_set_of_le (Nat.le_refl _),
    Option.toList_some]

/-- At the end of a list with room the loop does not start. -/
theorem run_insert_end (hcell : h.cells a = some l) (hlow : 0 ≤ l.length.toInt)
    (hroom : l.length.toInt < SEQUENCE_LIST_MAX_SIZE) : ∃ h',
    (∀ fuel ≥ 1, (List_Insert fuel (some a) l.length (some e)).run h = .ok (0, h')) ∧
      h'.cells a =
        some { l with data := l.data.setIfInBounds l.length.toInt.toNat e, length := l.length + 1 } := by
  have hneg : ¬l.length < 0 := by
    rw [Int32.lt_iff_toInt_lt]
    exact Int.not_lt.mpr hlow
  have hirrefl : ¬l.length < l.length := Int32.lt_irrefl
  let written := h.alter a fun m => { m with data := m.data.setIfInBounds l.length.toInt.toNat e }
  have hcell' : written.cells a = some { l with data := l.data.setIfInBounds l.length.toInt.toNat e } := by
    rw [Heap.alter_cells_same, hcell, Option.map_some]
  refine ⟨written.alter a fun m => { m with length := m.length + 1 }, fun fuel hfuel => ?_, ?_⟩
  · obtain ⟨fuel, rfl⟩ : ∃ k, fuel = k + 1 := ⟨fuel - 1, by omega⟩
    rw [List_Insert, if_neg (by simp [hneg]), run_bind_of_ok (run_load hcell), if_neg hirrefl,
      run_bind_of_ok (run_load hcell), run_bind_of_ok (run_loop_done (run_shift_body_done hirrefl) fuel), deref,
      run_pure_bind, run_bind_of_ok (run_writeData hcell hlow hroom), run_bind_of_ok (run_store hcell' _), run_pure]
  · rw [Heap.alter_cells_same, hcell', Option.map_some]

theorem inserts_end (hcell : h.cells a = some l) (hlow : 0 ≤ l.length.toInt)
    (hroom : l.length.toInt < SEQUENCE_LIST_MAX_SIZE) : Inserts h a l l.length e := by
  have hin : Insertable l l.length := by
    refine ⟨?_, Int32.not_lt.mp Int32.lt_irrefl, hroom⟩
    rw [Int32.le_iff_toInt_le]
    exact hlow
  have hlength : l.elems.length ≤ l.length.toInt.toNat := by
    rw [SqList.elems, List.length_take]
    exact Nat.min_le_left _ _
  obtain ⟨h', hrun, hcell'⟩ := run_insert_end (e := e) hcell hlow hroom
  refine ⟨1, 0, h', hrun, fun _ => ⟨rfl, _, hcell', toInt_succ hlow hroom, ?_⟩, fun hout => absurd hin hout⟩
  rw [List.take_of_length_le hlength, List.drop_of_length_le hlength, elems_snoc hlow hroom]

/-- An insertion does what it is for exactly at the end of a list with room, and for a
subscript that is refused: everywhere else its loop runs out of the array, and at the end of
a full list the element is written behind the array. -/
theorem List_Insert_inserts_iff (hcell : h.cells a = some l) (hlow : 0 ≤ l.length.toInt)
    (subscript e : Int32) :
    Inserts h a l subscript e ↔
      subscript < 0 ∨ l.length < subscript ∨
        subscript = l.length ∧ l.length.toInt < SEQUENCE_LIST_MAX_SIZE := by
  constructor
  · rintro ⟨bound, result, h', hrun, -⟩
    obtain ⟨hneg, -⟩ | ⟨hfar, -⟩ | ⟨rfl, hroom, -⟩ := List_Insert_eq_ok hcell (hrun bound (Nat.le_refl bound))
    · exact .inl hneg
    · exact .inr (.inl hfar)
    · exact .inr (.inr ⟨rfl, hroom⟩)
  · by_cases hneg : subscript < 0
    · exact fun _ => inserts_negative hcell hneg
    rintro (hneg' | hfar | ⟨rfl, hroom⟩)
    · exact absurd hneg' hneg
    · exact inserts_far hcell hneg hfar
    · exact inserts_end hcell hlow hroom

/-- A list with the element 7. -/
def single : SqList := { SqList.zero with data := SqList.zero.data.set 0 7, length := 1 }

def singleHeap : Heap SqList := callerHeap.alter 0 fun _ => single

theorem List_Insert_inserts_one : Inserts singleHeap 0 single 1 8 :=
  (List_Insert_inserts_iff rfl (by decide) 1 8).mpr (.inr (.inr ⟨rfl, by decide⟩))

/-- In front of the element 7 nothing can be inserted. -/
theorem List_Insert_front_fails : single.elems = [7] ∧ ¬Inserts singleHeap 0 single 0 8 := by
  refine ⟨by decide, ?_⟩
  rintro ⟨bound, result, h', hrun, -⟩
  obtain ⟨hneg, -⟩ | ⟨hfar, -⟩ | ⟨hend, -⟩ := List_Insert_eq_ok rfl (hrun bound (Nat.le_refl bound))
  · exact absurd hneg (by decide)
  · exact absurd hfar (by decide)
  · exact absurd hend (by decide)

end basic_data_struct.linear_list
