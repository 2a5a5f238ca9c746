import BasicDataStruct.LinkedList.Sequence

open machine machine.Exec

namespace basic_data_struct.linked_list.list

variable {p2 : Ptr} {h' : Heap Node} {locals : Locals} {fuel : Nat} {x : Int32}

/-- `scanf` to an element. At the end of the input it leaves the element as it is. -/
def scanf (p : Ptr) : List Int32 → Prog Unit
  | [] => return
  | x :: _ => store p fun v => { v with element := x }

/-- The statements that allocate and read a node, with the input that is left. -/
def readNode (input : List Int32) : Prog (Ptr × List Int32) := do
  let p1 ← malloc
  store p1 fun _ => { element := 0, next := none }
  scanf p1 input
  store p1 fun v => { v with next := none }
  return (p1, input.tail)

/-- The variables of `creatList` and the input that is left. -/
structure Locals where
  pHead : Ptr
  p1 : Ptr
  p2 : Ptr
  input : List Int32

/-- A node becomes the head, or the node behind `p2`. -/
def link (pHead p1 p2 : Ptr) : Prog Ptr := do
  if pHead = none then return p1
  else
    store p2 fun v => { v with next := p1 }
    return pHead

def creatList_body (locals : Locals) : Prog (Locals ⊕ Ptr) := do
  let ⟨pHead, p1, p2, input⟩ := locals
  if (← load p1).element > 0 then
    let pHead ← link pHead p1 p2
    let (p, input) ← readNode input
    return .inl { pHead, p1 := p, p2 := p1, input }
  else return .inr pHead

def creatList (fuel : Nat) (pHead : Ptr) (input : List Int32) : Prog Ptr := do
  let (p1, input) ← readNode input
  loop creatList_body fuel { pHead, p1, p2 := p1, input }

section

variable {h : Heap Node} {p : Ptr} {nodes : List (Nat × Node)} {a b : Nat} {w : Node} {input : List Int32}

theorem run_scanf (hcell : h.cells a = some { element := 0, next := none }) (input : List Int32) : ∃ h',
    (scanf (some a) input).run h = .ok ((), h') ∧ h'.cells a = some { element := input.headD 0, next := none } ∧
      ∀ c ≠ a, h'.cells c = h.cells c := by
  cases input with
  | nil => exact ⟨h, rfl, hcell, fun _ _ => rfl⟩
  | cons x input =>
    refine ⟨h.alter a fun v => { v with element := x }, run_store hcell _, ?_,
      fun c hne => Heap.alter_cells_of_ne h _ hne⟩
    rw [Heap.alter_cells_same, hcell, Option.map_some, List.headD_cons]

/-- What was allocated before is not touched when a node is read. -/
theorem run_readNode (h : Heap Node) (input : List Int32) : ∃ h',
    (readNode input).run h = .ok ((some h.next, input.tail), h') ∧
      h'.cells h.next = some { element := input.headD 0, next := none } ∧
      ∀ c v, h.cells c = some v → h'.cells c = some v := by
  have hnew : h.extend.cells h.next = some (h.raw h.next) := if_pos rfl
  have hcleared : (h.extend.alter h.next fun _ => { element := 0, next := none }).cells h.next =
      some { element := 0, next := none } := by
    rw [Heap.alter_cells_same, hnew, Option.map_some]
  obtain ⟨h', hscan, hcell, hothers⟩ := run_scanf hcleared input
  refine ⟨h'.alter h.next fun v => { v with next := none }, ?_, ?_, fun c v hc => ?_⟩
  · rw [readNode, run_bind_of_ok (run_malloc h), run_bind_of_ok (run_store hnew _), run_bind_of_ok hscan,
      run_bind_of_ok (run_store hcell _), run_pure]
  · rw [Heap.alter_cells_same, hcell, Option.map_some]
  · have hne : c ≠ h.next := Heap.next_ne_of_some hc
    rw [Heap.alter_cells_of_ne _ _ hne, hothers c hne, Heap.alter_cells_of_ne _ _ hne, Heap.extend_cells,
      if_neg hne, hc]

theorem run_body_stop (hcell : h.cells a = some w) (hstop : ¬w.element > 0) :
    (creatList_body ⟨p, some a, p2, input⟩).run h = .ok (.inr p, h) := by
  rw [creatList_body, run_bind_of_ok (run_load hcell), if_neg hstop, run_pure]

/-- A round of the loop: the node `p1` is linked and the next one is read. -/
theorem run_body_link (input : List Int32) {p' : Ptr} (hcell : h.cells a = some w) (hgo : w.element > 0)
    (hlink : (link p (some a) p2).run h = .ok (p', h')) : ∃ h'',
    (creatList_body ⟨p, some a, p2, input⟩).run h = .ok (.inl ⟨p', some h'.next, some a, input.tail⟩, h'') ∧
      h''.cells h'.next = some { element := input.headD 0, next := none } ∧
      ∀ c v, h'.cells c = some v → h''.cells c = some v := by
  obtain ⟨h'', hread, hnew, hold⟩ := run_readNode h' input
  refine ⟨h'', ?_, hnew, hold⟩
  rw [creatList_body, run_bind_of_ok (run_load hcell), if_pos hgo, run_bind_of_ok hlink, run_bind_of_ok hread, run_pure]

theorem run_link_some (hp : p ≠ none) (hcell : h.cells b = some w) (p1 : Ptr) :
    (link p p1 (some b)).run h = .ok (p, h.alter b fun v => { v with next := p1 }) := by
  rw [link, if_neg hp, run_bind_of_ok (run_store hcell _), run_pure]

theorem run_loop_stop (hbody : (creatList_body locals).run h = .ok (.inr p, h))
    (hfuel : 0 < fuel) : (loop creatList_body fuel locals).run h = .ok (p, h) := by
  obtain ⟨fuel, rfl⟩ := exists_fuel hfuel
  exact run_loop_done hbody fuel

theorem run_loop_go {locals' : Locals} {h1 : Heap Node} {k : Nat}
    (hbody : (creatList_body locals).run h = .ok (.inl locals', h1)) (hfuel : k + 1 < fuel)
    (hrest : ∀ fuel > k, (loop creatList_body fuel locals').run h1 = .ok (p, h')) :
    (loop creatList_body fuel locals).run h = .ok (p, h') := by
  obtain ⟨fuel, rfl⟩ := exists_fuel hfuel
  rw [run_loop_next hbody, hrest fuel (Nat.lt_of_succ_lt_succ hfuel)]

/-- The positive numbers that an input begins with. -/
def positives (input : List Int32) : List Int32 := input.takeWhile (0 < ·)

/-- From a list with a head on, the loop links the positive numbers behind the node `p2`
and changes nothing else. Induction on the input, of which the node `p1` holds the first
number. -/
theorem run_creat_loop (hp : p ≠ none) (hne : a ≠ b)
    (hcell : h.cells a = some { element := input.headD 0, next := none }) (hlast : h.cells b = some w) :
    ∃ h' q new,
      (∀ fuel > input.length, (loop creatList_body fuel ⟨p, some a, some b, input.tail⟩).run h = .ok (p, h')) ∧
        h'.cells b = some { w with next := q } ∧ (w.next = none → Nodes h' q new) ∧
        elements new = positives input ∧ ∀ c v, c ≠ a → c ≠ b → h.cells c = some v → h'.cells c = some v := by
  induction input generalizing h a b w with
  | nil =>
    refine ⟨h, w.next, [], fun fuel hfuel => ?_, hlast, fun hend => hend, rfl, fun c v _ _ hc => hc⟩
    exact run_loop_stop (run_body_stop hcell (by decide)) hfuel
  | cons x input ih =>
    by_cases hgo : x > 0
    · obtain ⟨h1, hbody, hnew, hold⟩ := run_body_link input hcell hgo (run_link_some hp hlast (some a))
      have hfirst : h1.cells a = some { element := x, next := none } :=
        hold a _ (by rw [Heap.alter_cells_of_ne _ _ hne, hcell, List.headD_cons])
      have hlinked : h1.cells b = some { w with next := some a } :=
        hold b _ (by rw [Heap.alter_cells_same, hlast, Option.map_some])
      obtain ⟨h', q, new, hrun, hcell', hspine, helems, hothers⟩ :=
        ih (Ne.symm (Heap.next_ne_of_some hcell)) hnew hfirst
      refine ⟨h', some a, (a, { element := x, next := q }) :: new, fun fuel hfuel => ?_, ?_,
        fun _ => ⟨rfl, hcell', hspine rfl⟩, ?_, ?_⟩
      · exact run_loop_go hbody hfuel hrun
      · exact hothers b _ (Heap.next_ne_of_some hlast) (Ne.symm hne) hlinked
      · rw [elements, List.map_cons, positives, List.takeWhile_cons_of_pos (by simpa using hgo)]
        exact congrArg (x :: ·) helems
      · intro c v ha hb hc
        exact hothers c v (Heap.next_ne_of_some hc) ha (hold c v (by rw [Heap.alter_cells_of_ne _ _ hb, hc]))
    · refine ⟨h, w.next, [], fun fuel hfuel => ?_, hlast, fun hend => hend, ?_, fun c v _ _ hc => hc⟩
      · exact run_loop_stop (run_body_stop hcell hgo) (Nat.zero_lt_of_lt hfuel)
      · simp [positives, elements, hgo]

/-- What `creatList` is for. -/
def Appends (h : Heap Node) (pHead : Ptr) (nodes : List (Nat × Node)) (input : List Int32) : Prop :=
  ∃ bound p h' nodes', (∀ fuel ≥ bound, (creatList fuel pHead input).run h = .ok (p, h')) ∧ Nodes h' p nodes' ∧
    elements nodes' = elements nodes ++ positives input

/-- Without a positive number at its beginning the input changes no list. -/
theorem creatList_nothing (hnodes : Nodes h p nodes) (hstop : ¬input.headD 0 > 0) : ∃ h',
    (∀ fuel ≥ 1, (creatList fuel p input).run h = .ok (p, h')) ∧ Nodes h' p nodes := by
  obtain ⟨h', hread, hnew, hold⟩ := run_readNode h input
  refine ⟨h', fun fuel hfuel => ?_, hnodes.of_cells fun c v _ => hold c v⟩
  obtain ⟨fuel, rfl⟩ := exists_fuel hfuel
  rw [creatList, run_bind_of_ok hread]
  exact run_loop_done (run_body_stop hnew hstop) fuel

/-- The first node becomes the head of an empty list. -/
theorem creatList_empty (h : Heap Node) (input : List Int32) (hgo : x > 0) : ∃ p h' nodes',
    (∀ fuel > input.length + 1, (creatList fuel none (x :: input)).run h = .ok (p, h')) ∧ Nodes h' p nodes' ∧
      elements nodes' = positives (x :: input) := by
  obtain ⟨h1, hread, hfirst, -⟩ := run_readNode h (x :: input)
  have hlink : (link none (some h.next) (some h.next)).run h1 = .ok (some h.next, h1) := rfl
  obtain ⟨h2, hbody, hnew, hold⟩ := run_body_link input hfirst hgo hlink
  obtain ⟨h', q, new, hrun, hcell, hspine, helems, -⟩ :=
    run_creat_loop (Option.some_ne_none h.next) (Ne.symm (Heap.next_ne_of_some hfirst)) hnew (hold _ _ hfirst)
  refine ⟨some h.next, h', (h.next, { element := x, next := q }) :: new, fun fuel hfuel => ?_,
    ⟨rfl, hcell, hspine rfl⟩, ?_⟩
  · rw [creatList, run_bind_of_ok hread]
    exact run_loop_go hbody hfuel hrun
  · rw [elements, List.map_cons, positives, List.takeWhile_cons_of_pos (by simpa using hgo)]
    exact congrArg (x :: ·) helems

/-- Beside a list the first node becomes the node behind itself, and the list ends where it
ended. -/
theorem creatList_lost (input : List Int32) (hgo : x > 0) (hp : p ≠ none) (hnodes : Nodes h p nodes) : ∃ h',
    (∀ fuel > input.length + 1, (creatList fuel p (x :: input)).run h = .ok (p, h')) ∧ Nodes h' p nodes := by
  obtain ⟨h1, hread, hfirst, hold⟩ := run_readNode h (x :: input)
  obtain ⟨h2, hbody, hnew, hold2⟩ := run_body_link input hfirst hgo (run_link_some hp hfirst (some h.next))
  have hlooped : h2.cells h.next = some { element := x, next := some h.next } :=
    hold2 _ _ (by rw [Heap.alter_cells_same, hfirst, Option.map_some, List.headD_cons])
  obtain ⟨h', q, new, hrun, -, -, -, hothers⟩ :=
    run_creat_loop hp (Ne.symm (Heap.next_ne_of_some hfirst)) hnew hlooped
  refine ⟨h', fun fuel hfuel => ?_, hnodes.of_cells fun c v _ hc => ?_⟩
  · rw [creatList, run_bind_of_ok hread]
    exact run_loop_go hbody hfuel hrun
  · have hc1 := hold c v hc
    have hne : c ≠ h.next := Heap.next_ne_of_some hc
    exact hothers c v (Heap.next_ne_of_some hc1) hne (hold2 c v (by rw [Heap.alter_cells_of_ne _ _ hne, hc1]))

theorem positives_ne_nil (input : List Int32) (hgo : x > 0) : positives (x :: input) ≠ [] := by
  rw [positives, List.takeWhile_cons_of_pos (by simpa using hgo)]
  exact List.cons_ne_nil _ _

theorem not_appends (input : List Int32) (hgo : x > 0) (hp : p ≠ none) (hnodes : Nodes h p nodes) :
    ¬Appends h p nodes (x :: input) := by
  rintro ⟨bound, p', h', nodes', hrun, hnodes', helems⟩
  obtain ⟨h1, hlost, hkept⟩ := creatList_lost input hgo hp hnodes
  have hsame := (hrun (bound + input.length + 2) (by omega)).symm.trans (hlost (bound + input.length + 2) (by omega))
  cases hsame
  rw [hnodes'.unique hkept] at helems
  exact positives_ne_nil input hgo (List.self_eq_append_right.mp helems)

/-- The numbers are appended exactly to an empty list, or if there are none. -/
theorem creatList_appends_iff (hnodes : Nodes h p nodes) (input : List Int32) :
    Appends h p nodes input ↔ nodes = [] ∨ positives input = [] := by
  by_cases hgo : input.headD 0 > 0
  · obtain ⟨x, rest, rfl⟩ : ∃ x rest, input = x :: rest := by
      cases input with
      | nil => exact absurd hgo (by decide)
      | cons x rest => exact ⟨x, rest, rfl⟩
    rw [List.headD_cons] at hgo
    rw [or_iff_left (positives_ne_nil rest hgo)]
    constructor
    · intro happends
      by_contra hne
      exact not_appends rest hgo (fun hp => hne ((hp ▸ hnodes).unique rfl)) hnodes happends
    · rintro rfl
      obtain rfl : p = none := hnodes
      obtain ⟨p', h', nodes', hrun, hnodes', helems⟩ := creatList_empty h rest hgo
      exact ⟨rest.length + 2, p', h', nodes', hrun, hnodes', helems⟩
  · have hnone : positives input = [] := by
      cases input with
      | nil => rfl
      | cons x rest => exact List.takeWhile_cons_of_neg (by simpa using hgo)
    obtain ⟨h', hrun, hkept⟩ := creatList_nothing hnodes hgo
    exact iff_of_true ⟨1, p, h', nodes, hrun, hkept, by rw [hnone, List.append_nil]⟩ (.inr hnone)

/-- An empty list and the input 5, 6, 0. -/
theorem creatList_appends_two : Appends emptyHeap none [] [5, 6, 0] :=
  (creatList_appends_iff (show Nodes emptyHeap none [] from rfl) [5, 6, 0]).mpr (.inl rfl)

/-- A list with the element 1. -/
def oneHeap : Heap Node := emptyHeap.extend.alter 0 fun _ => { element := 1, next := none }

/-- The input 5, 0 is not appended to it: the list that is returned has the element 1 only. -/
theorem creatList_loses_five : Nodes oneHeap (some 0) [(0, { element := 1, next := none })] ∧
    ¬Appends oneHeap (some 0) [(0, { element := 1, next := none })] [5, 0] := by
  have hnodes : Nodes oneHeap (some 0) [(0, { element := 1, next := none })] := ⟨rfl, rfl, rfl⟩
  exact ⟨hnodes, not_appends [0] (by decide) (Option.some_ne_none 0) hnodes⟩

end

end basic_data_struct.linked_list.list
