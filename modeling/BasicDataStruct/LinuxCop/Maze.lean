import BasicDataStruct.Machine.Exec
import BasicDataStruct.Search.Marking

open machine machine.Exec search

namespace basic_data_struct.linux_c_o_p

variable {s : Memory} {inside : Prop}

structure Point where
  row : Int
  col : Int
deriving DecidableEq

/-- What the program prints: the maze after a round, a point, or that there is no path. -/
inductive Line where
  | maze (cells : List (List Int))
  | point (p : Point)
  | noPath
deriving DecidableEq

/-- The stack has its top first. -/
structure Memory where
  maze : Point → Int
  predecessor : Point → Point
  stack : List Point
  out : List Line

/-- The sizes of the arrays: the maze, and `stack[512]`. -/
structure Sizes where
  MAX_ROW : Nat
  MAX_COL : Nat
  STACK : Nat

abbrev Program := Exec Memory

/-- The entry of the maze. -/
def Point.start : Point := ⟨0, 0⟩

/-- Before `main`. A wall is a 1. -/
def Memory.init (wall : Point → Bool) : Memory where
  maze p := if wall p then 1 else 0
  predecessor _ := ⟨-1, -1⟩
  stack := []
  out := []

section Source

variable (m : Sizes)

/-- An index of the arrays of the maze. -/
def Sizes.Inside (p : Point) : Prop := 0 ≤ p.row ∧ p.row < m.MAX_ROW ∧ 0 ≤ p.col ∧ p.col < m.MAX_COL

instance (p : Point) : Decidable (m.Inside p) := inferInstanceAs (Decidable (_ ∧ _))

def Sizes.goal : Point := ⟨m.MAX_ROW - 1, m.MAX_COL - 1⟩

def checkIndex (p : Point) : Program Unit := if m.Inside p then pure () else fail .bounds

def push (p : Point) : Program Unit := do
  let s ← get
  inBounds s.stack.length m.STACK
  modify fun s => { s with stack := p :: s.stack }

def pop : Program Point := do
  let s ← get
  match s.stack with
  | [] => fail .bounds
  | p :: stack =>
    modify fun s => { s with stack }
    return p

def is_empty : Program Bool := do
  let s ← get
  return s.stack.isEmpty

def print (line : Line) : Program Unit := modify fun s => { s with out := s.out ++ [line] }

def print_maze : Program Unit := do
  let s ← get
  print (.maze ((List.range m.MAX_ROW).map fun (i : Nat) => (List.range m.MAX_COL).map fun (j : Nat) => s.maze ⟨i, j⟩))

def visit (q pre : Point) : Program Unit := do
  checkIndex m q
  modify fun s => { s with maze := Function.update s.maze q 2 }
  modify fun s => { s with predecessor := Function.update s.predecessor q pre }
  push m q

/-- One of the four directions: a test of the index, and then of the cell. -/
def look (inside : Prop) [Decidable inside] (q p : Point) : Program Unit :=
  if inside then do
    checkIndex m q
    let s ← get
    if s.maze q = 0 then visit m q p
  else pure ()

def lookAround (p : Point) : Program Unit := do
  look m (p.col + 1 < m.MAX_COL) ⟨p.row, p.col + 1⟩ p
  look m (p.row + 1 < m.MAX_ROW) ⟨p.row + 1, p.col⟩ p
  look m (p.col - 1 ≥ 0) ⟨p.row, p.col - 1⟩ p
  look m (p.row - 1 ≥ 0) ⟨p.row - 1, p.col⟩ p

/-- A round of the search. -/
def searchRound (p : Point) : Program (Point ⊕ Point) := do
  if ← is_empty then return .inr p
  else
    let p ← pop
    if p = m.goal then return .inr p
    else
      lookAround m p
      print_maze m
      return .inl p

/-- A round of the loop that prints the predecessors. -/
def printRound (p : Point) : Program (Point ⊕ Unit) := do
  checkIndex m p
  let s ← get
  if (s.predecessor p).row ≠ -1 then
    let p := s.predecessor p
    print (.point p)
    return .inl p
  else return .inr ()

/-- The end of `main`, for the last point that was taken from the stack. -/
def report (fuel : Nat) (p : Point) : Program Unit :=
  if p = m.goal then do
    print (.point p)
    loop (printRound m) fuel p
  else print .noPath

def main (fuel : Nat) : Program Unit := do
  checkIndex m Point.start
  modify fun s => { s with maze := Function.update s.maze Point.start 2 }
  push m Point.start
  let p ← loop (searchRound m) fuel Point.start
  report m fuel p

end Source

/-- The four neighbours of a point, in the order of the search. -/
def neighbours (p : Point) : List Point :=
  [⟨p.row, p.col + 1⟩, ⟨p.row + 1, p.col⟩, ⟨p.row, p.col - 1⟩, ⟨p.row - 1, p.col⟩]

section Specification

variable (m : Sizes) (wall : Point → Bool)

/-- A cell of the maze that is no wall. -/
def Open (p : Point) : Prop := m.Inside p ∧ wall p = false

instance (p : Point) : Decidable (Open m wall p) := inferInstanceAs (Decidable (_ ∧ _))

/-- The way leads from the entry over open cells to the goal. Whether the entry is open does not matter. -/
def Leads : Prop := Relation.ReflTransGen (fun p q => q ∈ neighbours p ∧ Open m wall q) Point.start m.goal

/-- The goal can be reached from the entry over open cells. -/
def Connected : Prop := Open m wall Point.start ∧ Leads m wall

/-- A path of adjacent open cells from the goal back to the entry. -/
structure IsPath (path : List Point) : Prop where
  nodup : path.Nodup
  head : path.head? = some m.goal
  last : path.getLast? = some Point.start
  adjacent : path.IsChain fun q p => q ∈ neighbours p
  opened : ∀ p ∈ path, Open m wall p

/-- The program ends, and prints the right thing behind the mazes of its rounds. -/
def Meets : Prop :=
  ∃ n s, (∀ fuel, n < fuel → (main m fuel).run (.init wall) = .ok ((), s)) ∧
    ∃ mazes : List (List (List Int)),
      (Connected m wall ∧ ∃ path, IsPath m wall path ∧ s.out = mazes.map .maze ++ path.map .point) ∨
      (¬Connected m wall ∧ s.out = mazes.map .maze ++ [.noPath])

end Specification

section Simulation

variable {m : Sizes} {wall : Point → Bool} {s : Memory} {a : State Point} {p q : Point}

/-- The open neighbours of a cell, as the vertices that follow it in the search. -/
def next (m : Sizes) (wall : Point → Bool) (p : Point) : List Point := (neighbours p).filter fun q => Open m wall q

theorem mem_next_iff : q ∈ next m wall p ↔ q ∈ neighbours p ∧ Open m wall q := by
  rw [next, List.mem_filter, decide_eq_true_iff]

/-- The arrays hold the state of a search. -/
structure Simulates (m : Sizes) (wall : Point → Bool) (s : Memory) (a : State Point) : Prop where
  maze : ∀ q, m.Inside q → s.maze q = if q ∈ a.seen then 2 else if wall q then 1 else 0
  predecessor : ∀ q, m.Inside q → s.predecessor q = (a.pred q).getD ⟨-1, -1⟩
  stack : s.stack = a.stack

theorem Simulates.cell_zero_iff (h : Simulates m wall s a) (hq : m.Inside q) :
    s.maze q = 0 ↔ Open m wall q ∧ q ∉ a.seen := by
  rw [h.maze q hq, Open]
  by_cases hseen : q ∈ a.seen <;> by_cases hwall : wall q = true <;> simp [hseen, hwall, hq]

theorem run_checkIndex (hp : m.Inside p) (s : Memory) : (checkIndex m p).run s = .ok ((), s) := by
  rw [checkIndex, if_pos hp, run_pure]

theorem run_push (hroom : s.stack.length < m.STACK) (p : Point) :
    (push m p).run s = .ok ((), { s with stack := p :: s.stack }) := by
  rw [push, run_bind_of_ok (run_get s), run_bind_of_ok (run_inBounds hroom s), run_modify]

/-- A cell is marked, gets its predecessor, and goes on the stack. -/
theorem Simulates.run_visit (h : Simulates m wall s a) (hq : m.Inside q) (hseen : q ∉ a.seen)
    (hroom : a.stack.length < m.STACK) :
    ∃ s', (visit m q p).run s = .ok ((), s') ∧ Simulates m wall s' (a.visit p q) ∧ s'.out = s.out := by
  refine ⟨⟨Function.update s.maze q 2, Function.update s.predecessor q p, q :: s.stack, s.out⟩, ?_, ?_, rfl⟩
  · rw [visit, run_bind_of_ok (run_checkIndex hq s), run_bind_of_ok (run_modify _ _), run_bind_of_ok (run_modify _ _),
      run_push (h.stack ▸ hroom)]
  · rw [State.visit, if_neg hseen]
    refine ⟨fun r hr => ?_, fun r hr => ?_, congrArg (q :: ·) h.stack⟩
    · by_cases hrq : r = q
      · simp [hrq]
      · simp [hrq, h.maze r hr]
    · by_cases hrq : r = q
      · simp [hrq]
      · simp [hrq, h.predecessor r hr]

/-- The state of the search after a look at `q`. -/
def looked (m : Sizes) (wall : Point → Bool) (p : Point) (a : State Point) (q : Point) : State Point :=
  if Open m wall q then a.visit p q else a

theorem Simulates.run_look (h : Simulates m wall s a) [Decidable inside] (hinside : inside ↔ m.Inside q)
    (hroom : Open m wall q → q ∉ a.seen → a.stack.length < m.STACK) :
    ∃ s', (look m inside q p).run s = .ok ((), s') ∧ Simulates m wall s' (looked m wall p a q) ∧ s'.out = s.out := by
  by_cases hq : m.Inside q
  · rw [look, if_pos (hinside.mpr hq), run_bind_of_ok (run_checkIndex hq s), run_bind_of_ok (run_get s)]
    by_cases hzero : s.maze q = 0
    · obtain ⟨hopen, hseen⟩ := (h.cell_zero_iff hq).mp hzero
      rw [if_pos hzero, looked, if_pos hopen]
      exact h.run_visit hq hseen (hroom hopen hseen)
    · refine ⟨s, by rw [if_neg hzero, run_pure], ?_, rfl⟩
      rw [looked]
      split
      next hopen =>
        -- an open cell that is not 0 is marked
        have hseen : q ∈ a.seen := by
          by_contra hseen
          exact hzero ((h.cell_zero_iff hq).mpr ⟨hopen, hseen⟩)
        rw [State.visit, if_pos hseen]
        exact h
      next => exact h
  · refine ⟨s, by rw [look, if_neg (mt hinside.mp hq), run_pure], ?_, rfl⟩
    rw [looked, if_neg fun hopen => hq hopen.1]
    exact h

theorem expand_eq (m : Sizes) (wall : Point → Bool) (p : Point) (a : State Point) :
    a.expand (next m wall) p = (neighbours p).foldl (looked m wall p) a := by
  rw [State.expand, next, List.foldl_filter]
  simp only [decide_eq_true_eq]
  rfl

end Simulation

section Round

variable {m : Sizes} {wall : Point → Bool} {s : Memory} {a : State Point} {p q : Point}

/-- All cells of the maze. -/
def cells (m : Sizes) : List Point :=
  (List.range m.MAX_ROW).flatMap fun (i : Nat) => (List.range m.MAX_COL).map fun (j : Nat) => ⟨i, j⟩

theorem length_cells (m : Sizes) : (cells m).length = m.MAX_ROW * m.MAX_COL := by
  simp [cells, List.length_flatMap]

theorem mem_cells_iff : p ∈ cells m ↔ m.Inside p := by
  simp only [cells, List.mem_flatMap, List.mem_map, List.mem_range, Sizes.Inside]
  constructor
  · rintro ⟨i, hi, j, hj, rfl⟩
    dsimp only
    omega
  · rintro ⟨hrow, hrowlt, hcol, hcollt⟩
    refine ⟨p.row.toNat, by omega, p.col.toNat, by omega, ?_⟩
    rw [Int.toNat_of_nonneg hrow, Int.toNat_of_nonneg hcol]

theorem next_mem_cells : ∀ p ∈ cells m, ∀ q ∈ next m wall p, q ∈ cells m :=
  fun _ _ _ hq => mem_cells_iff.mpr (mem_next_iff.mp hq).2.1

/-- The search while the neighbours of `p` are looked at. -/
structure Expanding (m : Sizes) (wall : Point → Bool) (p : Point) (s : Memory) (a : State Point) : Prop where
  simulates : Simulates m wall s a
  invariant : Invariant (next m wall) Point.start m.goal (some p) a
  current_seen : p ∈ a.seen
  current_popped : p ∉ a.stack

/-- A neighbour is looked at. The stack has room for it, since there are no more cells than entries. -/
theorem Expanding.look (h : Expanding m wall p s a) (hentry : m.Inside Point.start)
    (hstack : m.MAX_ROW * m.MAX_COL ≤ m.STACK) (hq : q ∈ neighbours p) [Decidable inside]
    (hinside : inside ↔ m.Inside q) :
    ∃ s', (look m inside q p).run s = .ok ((), s') ∧ Expanding m wall p s' (looked m wall p a q) ∧ s'.out = s.out := by
  have hvisit (hopen : Open m wall q) := h.invariant.visit h.current_seen h.current_popped
    (mem_next_iff.mpr ⟨hq, hopen⟩)
  have hroom : Open m wall q → q ∉ a.seen → a.stack.length < m.STACK := by
    intro hopen hseen
    have hlength := ((hvisit hopen).1.length_le (mem_cells_iff.mpr hentry) next_mem_cells).2
    rw [length_cells, State.visit, if_neg hseen, List.length_cons] at hlength
    omega
  obtain ⟨s', hrun, hsimulates, hout⟩ := h.simulates.run_look hinside hroom
  refine ⟨s', hrun, ?_, hout⟩
  rw [looked] at hsimulates ⊢
  split at hsimulates
  next hopen =>
    obtain ⟨hinvariant, hseen, hpopped, -⟩ := hvisit hopen
    rw [if_pos hopen]
    exact ⟨hsimulates, hinvariant, hseen, hpopped⟩
  next hopen =>
    rw [if_neg hopen]
    exact ⟨hsimulates, h.invariant, h.current_seen, h.current_popped⟩

/-- The four looks around a point are one expansion of the search. -/
theorem Expanding.lookAround (h : Expanding m wall p s a) (hentry : m.Inside Point.start)
    (hstack : m.MAX_ROW * m.MAX_COL ≤ m.STACK) (hp : m.Inside p) :
    ∃ s', (lookAround m p).run s = .ok ((), s') ∧ Simulates m wall s' (a.expand (next m wall) p) ∧ s'.out = s.out := by
  obtain ⟨hrow, hrowlt, hcol, hcollt⟩ := hp
  obtain ⟨s1, hrun1, h1, hout1⟩ := h.look (q := ⟨p.row, p.col + 1⟩) hentry hstack (by simp [neighbours])
    (show p.col + 1 < m.MAX_COL ↔ _ by simp only [Sizes.Inside]; omega)
  obtain ⟨s2, hrun2, h2, hout2⟩ := h1.look (q := ⟨p.row + 1, p.col⟩) hentry hstack (by simp [neighbours])
    (show p.row + 1 < m.MAX_ROW ↔ _ by simp only [Sizes.Inside]; omega)
  obtain ⟨s3, hrun3, h3, hout3⟩ := h2.look (q := ⟨p.row, p.col - 1⟩) hentry hstack (by simp [neighbours])
    (show p.col - 1 ≥ 0 ↔ _ by simp only [Sizes.Inside]; omega)
  obtain ⟨s4, hrun4, h4, hout4⟩ := h3.look (q := ⟨p.row - 1, p.col⟩) hentry hstack (by simp [neighbours])
    (show p.row - 1 ≥ 0 ↔ _ by simp only [Sizes.Inside]; omega)
  refine ⟨s4, ?_, expand_eq m wall p a ▸ h4.simulates, ?_⟩
  · rw [linux_c_o_p.lookAround, run_bind_of_ok hrun1, run_bind_of_ok hrun2, run_bind_of_ok hrun3, hrun4]
  · rw [hout4, hout3, hout2, hout1]

theorem inside_of_seen {current : Option Point} (h : Invariant (next m wall) Point.start m.goal current a)
    (hentry : m.Inside Point.start) (hp : p ∈ a.seen) : m.Inside p :=
  mem_cells_iff.mp (h.grown.subset (mem_cells_iff.mpr hentry) next_mem_cells hp)

/-- The loop of the search: `n` rounds are left at most. -/
structure Searching (m : Sizes) (wall : Point → Bool) (n : Nat) (p : Point) (s : Memory) (a : State Point) : Prop where
  simulates : Simulates m wall s a
  invariant : Invariant (next m wall) Point.start m.goal none a
  ended : a.stack = [] → p ≠ m.goal
  mazes : ∃ mazes : List (List (List Int)), s.out = mazes.map .maze
  weight : a.weight (cells m).length = n

/-- The loop has ended: with the goal, or without a way to it. -/
structure Ended (m : Sizes) (wall : Point → Bool) (p : Point) (s : Memory) (a : State Point) : Prop where
  simulates : Simulates m wall s a
  grown : Grown (next m wall) Point.start a.pred a.seen
  mazes : ∃ mazes : List (List (List Int)), s.out = mazes.map .maze
  result : p = m.goal ∧ p ∈ a.seen ∨ p ≠ m.goal ∧ ¬Leads m wall

theorem leads_iff : Relation.ReflTransGen (fun p q => q ∈ next m wall p) Point.start m.goal ↔ Leads m wall := by
  simp only [mem_next_iff]
  rfl

theorem run_pop {stack : List Point} (hs : s.stack = p :: stack) : pop.run s = .ok (p, { s with stack }) := by
  rw [pop, run_bind_of_ok (run_get s)]
  simp only [hs]
  rfl

theorem run_print_maze (m : Sizes) (s : Memory) :
    ∃ cells, (print_maze m).run s = .ok ((), { s with out := s.out ++ [.maze cells] }) :=
  ⟨_, rfl⟩

theorem run_is_empty (s : Memory) : is_empty.run s = .ok (s.stack.isEmpty, s) := rfl

/-- A round of the search refines one of the abstract search, or ends it. -/
theorem Searching.round {n : Nat} (h : Searching m wall n p s a) (hentry : m.Inside Point.start)
    (hstack : m.MAX_ROW * m.MAX_COL ≤ m.STACK) :
    (∃ k q s' a', k < n ∧ (searchRound m p).run s = .ok (.inl q, s') ∧ Searching m wall k q s' a') ∨
      ∃ q s' a', (searchRound m p).run s = .ok (.inr q, s') ∧ Ended m wall q s' a' := by
  have hempty := h.simulates.stack
  rw [searchRound, run_bind_of_ok (run_is_empty s)]
  cases hs : a.stack with
  | nil =>
    rw [hs] at hempty
    have hnot : ¬Leads m wall := mt leads_iff.mpr (h.invariant.not_reachable hs)
    refine .inr ⟨p, s, a, ?_, h.simulates, h.invariant.grown, h.mazes, .inr ⟨h.ended hs, hnot⟩⟩
    rw [hempty]
    rfl
  | cons q stack =>
    rw [hs] at hempty
    have hseen : q ∈ a.seen := h.invariant.stack_seen q (hs ▸ List.mem_cons_self)
    have hnonempty : ¬s.stack.isEmpty = true := by simp [hempty]
    have hpopped : Simulates m wall { s with stack } { a with stack } :=
      ⟨h.simulates.maze, h.simulates.predecessor, rfl⟩
    rw [if_neg hnonempty, run_bind_of_ok (run_pop hempty)]
    by_cases hgoal : q = m.goal
    · refine .inr ⟨q, { s with stack }, { a with stack }, ?_, hpopped, h.invariant.grown, h.mazes, .inl ⟨hgoal, hseen⟩⟩
      rw [if_pos hgoal, run_pure]
    · obtain ⟨hinvariant, -, hstacked⟩ := h.invariant.pop hs hgoal
      obtain ⟨s', hrun, hsimulates, hout⟩ := Expanding.lookAround ⟨hpopped, hinvariant, hseen, hstacked⟩ hentry hstack
        (inside_of_seen h.invariant hentry hseen)
      obtain ⟨cells', hprint⟩ := run_print_maze m s'
      obtain ⟨mazes, hmazes⟩ := h.mazes
      have hnext := hinvariant.expand hseen hstacked
      refine .inl ⟨_, q, { s' with out := s'.out ++ [.maze cells'] }, _, ?_, ?_,
        ⟨⟨hsimulates.maze, hsimulates.predecessor, hsimulates.stack⟩, hnext, fun _ => hgoal,
        ⟨mazes ++ [cells'], ?_⟩, rfl⟩⟩
      · have hlength := (hnext.length_le (mem_cells_iff.mpr hentry) next_mem_cells).1
        have hweight := weight_foldl_visit_le (next m wall q) { a with stack } hlength
        rw [← h.weight]
        refine Nat.lt_of_le_of_lt hweight ?_
        simp only [State.weight, hs, List.length_cons]
        omega
      · rw [if_neg hgoal, run_bind_of_ok hrun, run_bind_of_ok hprint, run_pure]
      · simp [hout, hmazes]

end Round

section Print

variable {m : Sizes} {wall : Point → Bool} {s : Memory} {a : State Point} {p : Point}

theorem run_printRound (hp : m.Inside p) (s : Memory) : (printRound m p).run s =
    if (s.predecessor p).row ≠ -1 then
      .ok (.inl (s.predecessor p), { s with out := s.out ++ [.point (s.predecessor p)] })
    else .ok (.inr (), s) := by
  rw [printRound, run_bind_of_ok (run_checkIndex hp s), run_bind_of_ok (run_get s)]
  split <;> rfl

/-- The way back is printed. -/
theorem Simulates.run_print (h : Simulates m wall s a) {path : List Point} (hback : Back a.pred p path)
    (hinside : ∀ q ∈ path, m.Inside q) :
    ∃ s', (∀ fuel, path.length ≤ fuel → (loop (printRound m) fuel p).run s = .ok ((), s')) ∧
      s'.out = s.out ++ path.tail.map .point := by
  induction hback generalizing s with
  | @stop v hv =>
    have hpred : (s.predecessor v).row = -1 := by
      rw [h.predecessor v (hinside v List.mem_cons_self), hv]
      rfl
    refine ⟨s, fun fuel hfuel => ?_, (List.append_nil _).symm⟩
    obtain ⟨fuel, rfl⟩ := exists_fuel hfuel
    refine run_loop_done ?_ fuel
    rw [run_printRound (hinside v List.mem_cons_self), if_neg (not_not.mpr hpred)]
  | @step v u path hv hpath ih =>
    obtain ⟨hv_inside, hpath_inside⟩ := List.forall_mem_cons.mp hinside
    have hu : u ∈ path := List.mem_of_mem_head? hpath.head
    have hpred : s.predecessor v = u := by
      rw [h.predecessor v hv_inside, hv]
      rfl
    have hrow : u.row ≠ -1 := by
      have := (hpath_inside u hu).1
      omega
    have hround : (printRound m v).run s = .ok (.inl u, { s with out := s.out ++ [.point u] }) := by
      rw [run_printRound hv_inside, hpred, if_pos hrow]
    obtain ⟨s', hloop, hout⟩ := ih (s := { s with out := s.out ++ [.point u] })
      ⟨h.maze, h.predecessor, h.stack⟩ hpath_inside
    refine ⟨s', fun fuel hfuel => ?_, ?_⟩
    · obtain ⟨fuel, rfl⟩ := Nat.exists_eq_succ_of_ne_zero (Nat.ne_of_gt (Nat.lt_of_lt_of_le (Nat.succ_pos _) hfuel))
      rw [run_loop_next hround]
      exact hloop fuel (Nat.le_of_succ_le_succ hfuel)
    · obtain ⟨rest, rfl⟩ := List.head?_eq_some_iff.mp hpath.head
      rw [hout]
      simp

end Print

section Main

variable {m : Sizes} {wall : Point → Bool}

/-- The memory when the search begins. -/
def Memory.begun (wall : Point → Bool) : Memory :=
  { Memory.init wall with maze := Function.update (Memory.init wall).maze Point.start 2, stack := [Point.start] }

theorem searching_begun (m : Sizes) (wall : Point → Bool) :
    Searching m wall ((State.start Point.start).weight (cells m).length) Point.start (.begun wall)
      (.start Point.start) where
  simulates := by
    refine ⟨fun q _ => ?_, fun _ _ => rfl, rfl⟩
    by_cases hq : q = Point.start
    · simp [Memory.begun, State.start, hq]
    · simp [Memory.begun, State.start, Memory.init, hq]
  invariant := .start
  ended := nofun
  mazes := ⟨[], rfl⟩
  weight := rfl

theorem run_main_begun (hentry : m.Inside Point.start) (hstack : 0 < m.STACK) (fuel : Nat) :
    (main m fuel).run (.init wall) = (loop (searchRound m) fuel Point.start >>= report m fuel).run (.begun wall) := by
  have hpush := run_push (m := m) (s := { Memory.begun wall with stack := [] }) hstack Point.start
  rw [main, run_bind_of_ok (run_checkIndex hentry _), run_bind_of_ok (run_modify _ _)]
  exact run_bind_of_ok hpush _

/-- The search ends. -/
theorem run_search (wall : Point → Bool) (hentry : m.Inside Point.start) (hstack : m.MAX_ROW * m.MAX_COL ≤ m.STACK) :
    ∃ p s, (∀ fuel, (State.start Point.start).weight (cells m).length < fuel →
      (loop (searchRound m) fuel Point.start).run (.begun wall) = .ok (p, s)) ∧ ∃ a, Ended m wall p s a := by
  refine loop_total (fun n p s => ∃ a, Searching m wall n p s a) (fun p s => ∃ a, Ended m wall p s a) ?_
    ⟨_, searching_begun m wall⟩
  rintro n p s ⟨a, ha⟩
  rcases ha.round hentry hstack with ⟨k, q, s', a', hlt, hrun, ha'⟩ | ⟨q, s', a', hrun, ha'⟩
  · exact .inl ⟨k, q, s', hlt, hrun, a', ha'⟩
  · exact .inr ⟨q, s', hrun, a', ha'⟩

/-- A way from the goal back to the entry, over cells that are open but for the entry. -/
structure IsWay (m : Sizes) (wall : Point → Bool) (path : List Point) : Prop where
  nodup : path.Nodup
  head : path.head? = some m.goal
  last : path.getLast? = some Point.start
  adjacent : path.IsChain fun q p => q ∈ neighbours p
  opened : ∀ p ∈ path, p = Point.start ∨ Open m wall p

/-- What is printed behind the mazes when the search has ended. -/
theorem Ended.run_report {p : Point} {a : State Point} (h : Ended m wall p s a)
    (hentry : m.Inside Point.start) : ∃ n s', (∀ fuel, n < fuel → (report m fuel p).run s = .ok ((), s')) ∧
      ((Leads m wall ∧ ∃ path, IsWay m wall path ∧ s'.out = s.out ++ path.map .point) ∨
        (¬Leads m wall ∧ s'.out = s.out ++ [.noPath])) := by
  rcases h.result with ⟨hp, hseen⟩ | ⟨hp, hnot⟩
  · obtain ⟨path, hback, hnodup, hsub, hlast, hchain⟩ := h.grown.back hseen
    have hopened : ∀ q ∈ path, q = Point.start ∨ Open m wall q := fun q hq =>
      (h.grown.root_or_next (hsub q hq)).imp id fun ⟨_, hnext⟩ => (mem_next_iff.mp hnext).2
    have hinside : ∀ q ∈ path, m.Inside q := fun q hq => (hopened q hq).elim (fun heq => heq ▸ hentry) And.left
    have hsimulates : Simulates m wall { s with out := s.out ++ [.point p] } a :=
      ⟨h.simulates.maze, h.simulates.predecessor, h.simulates.stack⟩
    obtain ⟨s', hloop, hout⟩ := hsimulates.run_print hback hinside
    refine ⟨path.length, s', fun fuel hfuel => ?_, .inl ⟨leads_iff.mp (hp ▸ h.grown.reachable hseen), path,
      ⟨hnodup, hp ▸ hback.head, hlast, hchain.imp fun _ _ hnext => (mem_next_iff.mp hnext).1, hopened⟩, ?_⟩⟩
    · rw [report, if_pos hp]
      exact (run_bind_of_ok (run_modify _ _) _).trans (hloop fuel (Nat.le_of_lt hfuel))
    · obtain ⟨rest, rfl⟩ := List.head?_eq_some_iff.mp hback.head
      rw [hout]
      simp
  · exact ⟨0, { s with out := s.out ++ [.noPath] }, fun fuel _ => by rw [report, if_neg hp]; rfl, .inr ⟨hnot, rfl⟩⟩

/-- What the program prints. -/
theorem run_main (wall : Point → Bool) (hentry : m.Inside Point.start) (hstack : m.MAX_ROW * m.MAX_COL ≤ m.STACK) :
    ∃ n s, (∀ fuel, n < fuel → (main m fuel).run (.init wall) = .ok ((), s)) ∧
      ∃ mazes : List (List (List Int)),
        (Leads m wall ∧ ∃ path, IsWay m wall path ∧ s.out = mazes.map .maze ++ path.map .point) ∨
        (¬Leads m wall ∧ s.out = mazes.map .maze ++ [.noPath]) := by
  obtain ⟨p, s, hsearch, a, hended⟩ := run_search wall hentry hstack
  obtain ⟨n, s', hreport, hout⟩ := hended.run_report hentry
  obtain ⟨mazes, hmazes⟩ := hended.mazes
  have hpos : 0 < m.STACK := by
    have hcell := List.length_pos_of_mem (mem_cells_iff.mpr hentry)
    rw [length_cells] at hcell
    omega
  refine ⟨max n ((State.start Point.start).weight (cells m).length), s', fun fuel hfuel => ?_, mazes, hmazes ▸ hout⟩
  rw [run_main_begun hentry hpos, run_bind_of_ok (hsearch fuel (by omega)), hreport fuel (by omega)]

end Main

/-- The program reports what it should exactly if the entry is open or no way leads to the goal. It needs a stack of no
more entries than there are cells. -/
theorem main_meets_iff (m : Sizes) (hrow : 0 < m.MAX_ROW) (hcol : 0 < m.MAX_COL)
    (hstack : m.MAX_ROW * m.MAX_COL ≤ m.STACK) (wall : Point → Bool) :
    Meets m wall ↔ wall Point.start = false ∨ ¬Leads m wall := by
  have hentry : m.Inside Point.start := by
    simp only [Sizes.Inside, Point.start]
    omega
  obtain ⟨n, s, hrun, mazes, hout⟩ := run_main wall hentry hstack
  constructor
  · rintro ⟨n', s', hrun', mazes', hright⟩
    cases eq_of_fuel hrun hrun'
    rcases hout with ⟨-, path, hway, hpath⟩ | ⟨hnot, -⟩
    · rcases hright with ⟨hconnected, -⟩ | ⟨-, hnone⟩
      · exact .inl hconnected.1.2
      · -- a way was printed, and its last point is no message
        have hlast := congrArg List.getLast? (hpath.symm.trans hnone)
        simp [hway.last] at hlast
    · exact .inr hnot
  · intro hgood
    refine ⟨n, s, hrun, mazes, ?_⟩
    rcases hout with ⟨hleads, path, hway, hpath⟩ | ⟨hnot, hnone⟩
    · have hopen : Open m wall Point.start := ⟨hentry, hgood.resolve_right (not_not.mpr hleads)⟩
      have hopened : ∀ p ∈ path, Open m wall p := fun p hp => (hway.opened p hp).elim (fun heq => heq ▸ hopen) id
      exact .inl ⟨⟨hopen, hleads⟩, path, ⟨hway.nodup, hway.head, hway.last, hway.adjacent, hopened⟩, hpath⟩
    · exact .inr ⟨fun hconnected => hnot hconnected.2, hnone⟩

theorem main_meets_two_rows : Meets ⟨2, 2, 4⟩ fun _ => false :=
  (main_meets_iff ⟨2, 2, 4⟩ (by decide) (by decide) (by decide) fun _ => false).mpr (.inl rfl)

/-- A wall at the entry: the program prints a path over it. -/
theorem main_passes_wall : ¬Open ⟨1, 2, 512⟩ (fun p => p = Point.start) Point.start ∧
    ((main ⟨1, 2, 512⟩ 3).run (.init fun p => p = Point.start)).map (fun r => r.2.out) =
      .ok [.maze [[2, 2]], .point ⟨0, 1⟩, .point ⟨0, 0⟩] := by
  decide

end basic_data_struct.linux_c_o_p
