import BasicDataStruct.Runs.Deterministic
import BasicDataStruct.Timer.SortedList

open machine machine.Exec runs

namespace basic_data_struct.lst_timer

variable {fuel : Nat}

/-- What a caller does with the list: it adds a new timer, which may get the address of a deleted one, it raises the
expiry time of a timer and adjusts the list, it deletes a timer, or its clock ticks. -/
inductive Op where
  | add (a : Nat) (data : timer_data)
  | adjust (a : Nat) (expire : Int)
  | del (a : Nat)
  | tick (cur : Int)
deriving DecidableEq

/-- The new list, and the timers whose callbacks are called. -/
def Op.exec (fuel : Nat) (lst : sort_timer_lst) : Op → Prog (sort_timer_lst × List (Ptr × timer_data))
  | .add a data => do
    modify fun h => h.place a ⟨data, none, none⟩
    return (← lst.add_timer fuel (some a), [])
  | .adjust a expire => do
    store (some a) fun v => { v with data := { v.data with expire := expire } }
    return (← lst.adjust_timer fuel (some a), [])
  | .del a => return (← lst.del_timer (some a), [])
  | .tick cur => lst.tick fuel cur

def execAll (fuel : Nat) : List Op → sort_timer_lst → Prog sort_timer_lst
  | [], lst => return lst
  | op :: ops, lst => do
    let (lst, _) ← op.exec fuel lst
    execAll fuel ops lst

/-- What the list is for: the timers that have been added and not yet removed. -/
abbrev Members := Nat → Option timer_data

def Members.apply (m : Members) : Op → Members
  | .add a data => Function.update m a (some data)
  | .adjust a expire => Function.update m a ((m a).map fun data => { data with expire := expire })
  | .del a => Function.update m a none
  | .tick cur => fun a => (m a).filter fun data => cur < data.expire

/-- Added timers are new, and the others are in the list. -/
def Permitted (m : Members) : Op → Prop
  | .add a _ => m a = none
  | .adjust a expire => ∃ data, m a = some data ∧ data.expire ≤ expire
  | .del a => m a ≠ none
  | .tick _ => True

/-- The calls of callbacks that an operation should make: `tick` calls those of the timers that are due, each once
and in the order of their expiry times. -/
def Due (m : Members) : Op → List (Ptr × timer_data) → Prop
  | .tick cur, calls => (calls.map Prod.fst).Nodup ∧ (calls.Pairwise fun x y => x.2.expire ≤ y.2.expire) ∧
      ∀ p data, (p, data) ∈ calls ↔ ∃ a, p = some a ∧ m a = some data ∧ data.expire ≤ cur
  | _, calls => calls = []

/-- The list in the heap is correctly linked, sorted, and holds the timers `m`; there are no other timers in the
heap. -/
structure Holds (h : Heap util_timer) (lst : sort_timer_lst) (items : List (Nat × timer_data)) (m : Members) :
    Prop where
  linked : Linked h lst items
  sorted : Sorted items
  mem_iff : ∀ a data, (a, data) ∈ items ↔ m a = some data
  live : ∀ a, (h.cells a).isSome ↔ a ∈ places items

variable {h : Heap util_timer} {lst : sort_timer_lst} {items front back : List (Nat × timer_data)} {m : Members}
  {a : Nat} {d : timer_data}

theorem Holds.empty (raw : Nat → util_timer) : Holds (.empty raw) .empty [] fun _ => none where
  linked := ⟨trivial, List.nodup_nil, rfl, fun hne => absurd rfl hne⟩
  sorted := .nil
  mem_iff _ _ := iff_of_false List.not_mem_nil (fun h => nomatch h)
  live _ := iff_of_false (fun h => nomatch h) List.not_mem_nil

theorem Holds.mem_places_iff (hold : Holds h lst items m) (a : Nat) : a ∈ places items ↔ m a ≠ none := by
  rw [Option.ne_none_iff_exists', places, List.mem_map]
  constructor
  · rintro ⟨⟨b, data⟩, hmem, rfl⟩
    exact ⟨data, (hold.mem_iff b data).mp hmem⟩
  · rintro ⟨data, hdata⟩
    exact ⟨(a, data), (hold.mem_iff a data).mpr hdata, rfl⟩

/-- The timers other than one. -/
theorem Holds.mem_rest_iff (hold : Holds h lst (front ++ (a, d) :: back) m) (b : Nat) (data : timer_data) :
    (b, data) ∈ front ++ back ↔ b ≠ a ∧ m b = some data := by
  rw [machine.mem_rest_iff hold.linked.nodup, hold.mem_iff]

/-- A timer is inserted into the list of the others. -/
theorem Inserted.holds {rest : List (Nat × timer_data)} {run : Except Fault (sort_timer_lst × Heap util_timer)}
    (hinserted : Inserted h rest a d run) (hlive : ∀ x, (h.cells x).isSome ↔ x = a ∨ x ∈ places rest)
    (hrest : ∀ b data, (b, data) ∈ rest ↔ b ≠ a ∧ m b = some data) :
    ∃ lst' h' items', run = .ok (lst', h') ∧ Holds h' lst' items' (Function.update m a (some d)) ∧
      items'.length = rest.length + 1 := by
  obtain ⟨lst', h', items', hrun, hl, hsorted, hperm, hkeep⟩ := hinserted
  refine ⟨lst', h', items', hrun, ⟨hl, hsorted, fun b data => ?_, fun x => ?_⟩, hperm.length_eq⟩
  · rw [hperm.mem_iff, List.mem_cons, hrest, Prod.mk.injEq]
    by_cases hb : b = a
    · simp [hb, eq_comm]
    · simp [hb]
  · rw [hkeep, hlive, ← List.mem_cons]
    exact (hperm.map Prod.fst).symm.mem_iff

/-- What an operation leaves: the list for the timers that there should be, at most one more than before, and the
calls that it should make. -/
def Done (m : Members) (size : Nat) (op : Op)
    (run : Except Fault ((sort_timer_lst × List (Ptr × timer_data)) × Heap util_timer)) : Prop :=
  ∃ lst' calls h' items', run = .ok ((lst', calls), h') ∧ Holds h' lst' items' (m.apply op) ∧ Due m op calls ∧
    items'.length ≤ size + 1

theorem Holds.add (hold : Holds h lst items m) (hfree : m a = none) (hfuel : items.length < fuel) :
    Done m items.length (.add a d) (((Op.add a d).exec fuel lst).run h) := by
  have hnew : a ∉ places items := fun hmem => (hold.mem_places_iff a).mp hmem hfree
  have hl : Linked (h.place a ⟨d, none, none⟩) lst items :=
    ⟨hold.linked.chain.place hnew, hold.linked.nodup, hold.linked.head, hold.linked.tail⟩
  have hcell : (h.place a ⟨d, none, none⟩).cells a = some ⟨d, none, none⟩ := if_pos rfl
  have hlive : ∀ x, ((h.place a ⟨d, none, none⟩).cells x).isSome ↔ x = a ∨ x ∈ places items := by
    intro x
    rw [Heap.place_cells, ← hold.live x]
    split
    next hx => exact iff_of_true rfl (.inl hx)
    next hx => exact (or_iff_right hx).symm
  have hrest : ∀ b data, (b, data) ∈ items ↔ b ≠ a ∧ m b = some data := by
    intro b data
    rw [hold.mem_iff, iff_and_self]
    rintro hdata rfl
    rw [hfree] at hdata
    cases hdata
  obtain ⟨lst', h', items', hrun, hold', hlen⟩ := (hl.add_timer hold.sorted hcell hnew hfuel).holds hlive hrest
  refine ⟨lst', [], h', items', ?_, hold', rfl, Nat.le_of_eq hlen⟩
  rw [Op.exec, run_bind_of_ok (run_modify _ _), run_bind_of_ok hrun]
  rfl

theorem Holds.adjust {expire : Int} (hold : Holds h lst items m) (ha : m a = some d)
    (hle : d.expire ≤ expire) (hfuel : items.length < fuel) :
    Done m items.length (.adjust a expire) (((Op.adjust a expire).exec fuel lst).run h) := by
  obtain ⟨front, back, rfl⟩ := List.append_of_mem ((hold.mem_iff a d).mpr ha)
  have hcell := hold.linked.chain.cell
  have hl : Linked (h.alter a fun v => { v with data := { v.data with expire := expire } }) lst
      (front ++ (a, { d with expire := expire }) :: back) := hold.linked.setData fun d => { d with expire := expire }
  have hlive : ∀ x, ((h.alter a fun v => { v with data := { v.data with expire := expire } }).cells x).isSome ↔
      x = a ∨ x ∈ places (front ++ back) := by
    intro x
    rw [Heap.isSome_alter, hold.live, mem_places_middle]
  have hfront : ∀ x ∈ front, x.2.expire ≤ expire :=
    fun x hx => Int.le_trans ((List.pairwise_append.mp hold.sorted).2.2 x hx _ List.mem_cons_self) hle
  have hback : back.length < fuel := by
    rw [List.length_append, List.length_cons] at hfuel
    omega
  obtain ⟨lst', h', items', hrun, hold', hlen⟩ :=
    (hl.adjust_timer hold.sorted.of_insert hfront hback).holds hlive hold.mem_rest_iff
  refine ⟨lst', [], h', items', ?_, ?_, rfl, ?_⟩
  · rw [Op.exec, run_bind_of_ok (run_store hcell _), run_bind_of_ok hrun]
    rfl
  · rw [Members.apply, ha, Option.map_some]
    exact hold'
  · simp only [List.length_append, List.length_cons] at hlen ⊢
    omega

theorem Holds.del (hold : Holds h lst items m) (ha : m a ≠ none) :
    Done m items.length (.del a) (((Op.del a).exec fuel lst).run h) := by
  obtain ⟨d, hd⟩ := Option.ne_none_iff_exists'.mp ha
  obtain ⟨front, back, rfl⟩ := List.append_of_mem ((hold.mem_iff a d).mpr hd)
  have hremove := hold.linked.remove
  have hnew := hold.linked.notMem
  refine ⟨_, [], _, front ++ back, ?_, ⟨⟨hremove.chain.release hnew, hremove.nodup, hremove.head, hremove.tail⟩,
    hold.sorted.of_insert, fun b data => ?_, fun x => ?_⟩, rfl, ?_⟩
  · rw [Op.exec, run_bind_of_ok hold.linked.run_del_timer]
    rfl
  · rw [hold.mem_rest_iff, Members.apply]
    by_cases hb : b = a
    · simp [hb]
    · simp [hb]
  · rw [Heap.release_cells]
    split
    next hx => exact iff_of_false (fun h => nomatch h) (hx ▸ hnew)
    next hx => rw [Heap.isSome_unlink, hold.live, mem_places_middle, or_iff_right hx]
  · simp only [List.length_append, List.length_cons]
    omega

/-- The timers that are due are the ones at the front. -/
theorem Sorted.mem_takeWhile_iff (hsorted : Sorted items) (cur : Int) (x : Nat × timer_data) :
    x ∈ items.takeWhile (due cur) ↔ x ∈ items ∧ x.2.expire ≤ cur := by
  induction items with
  | nil => simp
  | cons item items ih =>
    obtain ⟨hfirst, hrest⟩ := List.pairwise_cons.mp hsorted
    by_cases hdue : due cur item
    · rw [List.takeWhile_cons_of_pos hdue, List.mem_cons, List.mem_cons, ih hrest, or_and_right]
      exact or_congr_left (iff_self_and.mpr fun heq => heq ▸ due_iff.mp hdue)
    · rw [List.takeWhile_cons_of_neg hdue]
      refine iff_of_false List.not_mem_nil fun ⟨hmem, hle⟩ => hdue (due_iff.mpr ?_)
      rcases List.mem_cons.mp hmem with rfl | hmem
      · exact hle
      · exact Int.le_trans (hfirst x hmem) hle

theorem Sorted.mem_dropWhile_iff (hsorted : Sorted items) (cur : Int) (x : Nat × timer_data) :
    x ∈ items.dropWhile (due cur) ↔ x ∈ items ∧ cur < x.2.expire := by
  induction items with
  | nil => simp
  | cons item items ih =>
    obtain ⟨hfirst, hrest⟩ := List.pairwise_cons.mp hsorted
    by_cases hdue : due cur item
    · rw [List.dropWhile_cons_of_pos hdue, ih hrest, List.mem_cons, or_and_right, or_iff_right]
      rintro ⟨rfl, hlt⟩
      exact Int.not_le.mpr hlt (due_iff.mp hdue)
    · rw [List.dropWhile_cons_of_neg hdue, iff_self_and]
      have hlt := Int.not_le.mp (due_iff.not.mp hdue)
      intro hmem
      rcases List.mem_cons.mp hmem with rfl | hmem
      · exact hlt
      · exact Int.lt_of_lt_of_le hlt (hfirst x hmem)

section

variable (hold : Holds h lst items m)
include hold

/-- The callbacks that `tick` calls. -/
theorem Holds.due_called (cur : Int) : Due m (.tick cur) (called (items.takeWhile (due cur))) := by
  have hfirst : (called (items.takeWhile (due cur))).map Prod.fst = (places (items.takeWhile (due cur))).map some := by
    rw [called, places, List.map_map, List.map_map]
    rfl
  refine ⟨?_, ?_, fun p data => ?_⟩
  · rw [hfirst]
    exact (hold.linked.nodup.sublist ((List.takeWhile_sublist _).map _)).map fun _ _ => Option.some.inj
  · exact List.pairwise_map.mpr (hold.sorted.sublist (List.takeWhile_sublist _))
  · rw [called, List.mem_map]
    constructor
    · rintro ⟨x, hx, heq⟩
      cases heq
      obtain ⟨hmem, hle⟩ := (hold.sorted.mem_takeWhile_iff cur x).mp hx
      exact ⟨x.1, rfl, (hold.mem_iff _ _).mp hmem, hle⟩
    · rintro ⟨a, rfl, hdata, hle⟩
      exact ⟨(a, data), (hold.sorted.mem_takeWhile_iff cur _).mpr ⟨(hold.mem_iff _ _).mpr hdata, hle⟩, rfl⟩

theorem Holds.tick (hfuel : items.length < fuel) (cur : Int) :
    Done m items.length (.tick cur) (((Op.tick cur).exec fuel lst).run h) := by
  obtain ⟨lst', h', hrun, hl, hlive⟩ := hold.linked.tick hfuel cur
  have hsplit : places items = places (items.takeWhile (due cur)) ++ places (items.dropWhile (due cur)) := by
    rw [← places_append, List.takeWhile_append_dropWhile]
  have hdisjoint := hold.linked.nodup
  rw [hsplit, List.nodup_append] at hdisjoint
  refine ⟨lst', _, h', _, hrun, ⟨hl, hold.sorted.sublist (List.dropWhile_sublist _), fun a data => ?_, fun x => ?_⟩,
    hold.due_called cur, ?_⟩
  · rw [hold.sorted.mem_dropWhile_iff, hold.mem_iff, Members.apply, Option.filter_eq_some_iff, decide_eq_true_iff]
  · rw [hlive, hold.live, hsplit, List.mem_append, or_and_right, and_not_self_iff, false_or, and_iff_left_iff_imp]
    exact fun hx hmem => hdisjoint.2.2 x hmem x hx rfl
  · exact Nat.le_succ_of_le (List.dropWhile_sublist _).length_le

/-- Every operation keeps the list correct. -/
theorem Holds.exec (op : Op) (hop : Permitted m op)
    (hfuel : items.length < fuel) : Done m items.length op ((op.exec fuel lst).run h) := by
  cases op with
  | add a data => exact hold.add hop hfuel
  | adjust a expire =>
    obtain ⟨data, ha, hle⟩ := hop
    exact hold.adjust ha hle hfuel
  | del a => exact hold.del hop
  | tick cur => exact hold.tick hfuel cur

theorem Holds.execAll (ops : List Op) (hops : Each Members.apply Permitted m ops)
    (hfuel : items.length + ops.length < fuel) :
    ∃ lst' h' items', (execAll fuel ops lst).run h = .ok (lst', h') ∧ Holds h' lst' items' (ops.foldl Members.apply m) ∧
      items'.length ≤ items.length + ops.length := by
  induction ops generalizing h lst items m with
  | nil => exact ⟨lst, h, items, rfl, hold, Nat.le_refl _⟩
  | cons op ops ih =>
    rw [List.length_cons] at hfuel ⊢
    obtain ⟨lst₁, calls, h₁, items₁, hrun₁, hold₁, _, hlen₁⟩ := hold.exec op hops.1 (by omega : _ < fuel)
    obtain ⟨lst₂, h₂, items₂, hrun₂, hold₂, hlen₂⟩ := ih hold₁ hops.2 (by omega)
    refine ⟨lst₂, h₂, items₂, ?_, hold₂, by omega⟩
    rw [lst_timer.execAll, run_bind_of_ok hrun₁]
    exact hrun₂

end

/-- After every sequence of operations the list is correctly linked and sorted, and holds exactly the timers added and
not yet removed; and the next operation keeps it so, where `tick` calls the callbacks of exactly the timers that are
due, each once, in the order of their expiry times. -/
theorem list_correct (raw : Nat → util_timer) (ops : List Op) (hops : Each Members.apply Permitted (fun _ => none) ops)
    (op : Op) (hop : Permitted (ops.foldl Members.apply fun _ => none) op) (fuel : Nat) (hfuel : ops.length < fuel) :
    ∃ lst h items, (execAll fuel ops .empty).run (.empty raw) = .ok (lst, h) ∧
      Holds h lst items (ops.foldl Members.apply fun _ => none) ∧
      ∃ lst' calls h' items', (op.exec fuel lst).run h = .ok ((lst', calls), h') ∧
        Holds h' lst' items' ((ops.foldl Members.apply fun _ => none).apply op) ∧
        Due (ops.foldl Members.apply fun _ => none) op calls := by
  have hempty := Holds.empty raw
  obtain ⟨lst, h, items, hrun, hold, hlen⟩ := hempty.execAll ops hops (by simpa using hfuel)
  have hbound : items.length < fuel := by
    rw [List.length_nil] at hlen
    omega
  obtain ⟨lst', calls, h', items', hrun', hold', hdue, _⟩ := hold.exec op hop hbound
  exact ⟨lst, h, items, hrun, hold, lst', calls, h', items', hrun', hold', hdue⟩

/-- Two timers, the second of which is moved behind the first; then the first is due. -/
theorem list_correct_tick : ∃ lst h items,
    (execAll 4 [.add 0 ⟨5, 0⟩, .add 1 ⟨3, 1⟩, .adjust 1 7] .empty).run (.empty fun _ => ⟨⟨0, 0⟩, none, none⟩) =
        .ok (lst, h) ∧
      Holds h lst items ([Op.add 0 ⟨5, 0⟩, .add 1 ⟨3, 1⟩, .adjust 1 7].foldl Members.apply fun _ => none) ∧
      ∃ lst' calls h' items', ((Op.tick 5).exec 4 lst).run h = .ok ((lst', calls), h') ∧
        Holds h' lst' items'
          (([Op.add 0 ⟨5, 0⟩, .add 1 ⟨3, 1⟩, .adjust 1 7].foldl Members.apply fun _ => none).apply (.tick 5)) ∧
        Due ([Op.add 0 ⟨5, 0⟩, .add 1 ⟨3, 1⟩, .adjust 1 7].foldl Members.apply fun _ => none) (.tick 5) calls :=
  list_correct _ [.add 0 ⟨5, 0⟩, .add 1 ⟨3, 1⟩, .adjust 1 7] ⟨rfl, rfl, ⟨⟨3, 1⟩, rfl, by decide⟩, trivial⟩ (.tick 5)
    trivial 4 (by decide)

end basic_data_struct.lst_timer
