import BasicDataStruct.Timer.TimeHeapOps

open machine machine.Exec binary_heap

namespace basic_data_struct.min_heap

variable {init_array : List Ptr} {fuel : Nat}

/-- A call of a function of the heap: a new timer is added, the first one is popped, a timer is deleted lazily, or the
clock ticks. -/
inductive Op where
  | add (x : Nat) (timer : heap_timer)
  | pop
  | del (timer : Ptr)
  | tick (cur : Int)
deriving DecidableEq

/-- The new heap, the timers that are removed and deleted, and those whose callbacks are called. -/
def Op.exec (fuel : Nat) (t : time_heap) :
    Op → Prog (time_heap × List (Ptr × heap_timer) × List (Ptr × heap_timer))
  | .add x timer => do
    modify fun h => h.place x timer
    return (← t.add_timer fuel (some x), [], [])
  | .pop => do
    let top ← t.top
    if top = none then return (← t.pop_timer fuel, [], [])
    else
      let timer ← load top
      return (← t.pop_timer fuel, [(top, timer)], [])
  | .del timer => do
    del_timer timer
    return (t, [], [])
  | .tick cur => t.tick fuel cur

/-- What the heap is for: the timers that have been added and not yet removed. -/
abbrev Members := Nat → Option heap_timer

def Members.without (m : Members) (removed : List (Ptr × heap_timer)) : Members :=
  fun y => if some y ∈ removed.map Prod.fst then none else m y

def Members.apply (m : Members) : Op → List (Ptr × heap_timer) → Members
  | .add x timer, _ => fun y => if y = x then some timer else m y
  | .del timer, _ => fun y => if timer = some y then (m y).map fun v => { v with cb_func := none } else m y
  | .pop, removed => m.without removed
  | .tick _, removed => m.without removed

/-- Added timers are new, and deleted ones are in the heap. -/
def Permitted (m : Members) : Op → Prop
  | .add x _ => m x = none
  | .del timer => ∀ x, timer = some x → m x ≠ none
  | _ => True

/-- A call that leaves at most `2 ^ 30` timers. -/
def Small (t : time_heap) : Op → Prop
  | .add _ _ => t.cur_size < 2 ^ 30
  | _ => True

/-- What a call should remove and call: `pop_timer` removes a timer that no other expires before, and `tick` removes
those that are due, each once and in the order of their expiry times, and calls the callbacks of those that have not
been deleted lazily. -/
def Meets (m : Members) : Op → List (Ptr × heap_timer) → List (Ptr × heap_timer) → Prop
  | .pop, removed, calls => calls = [] ∧ ((removed = [] ∧ ∀ x, m x = none) ∨
      ∃ x v, removed = [(some x, v)] ∧ m x = some v ∧ ∀ y u, m y = some u → v.expire ≤ u.expire)
  | .tick cur, removed, calls => (removed.map Prod.fst).Nodup ∧
      (removed.Pairwise fun x y => x.2.expire ≤ y.2.expire) ∧
      (∀ p v, (p, v) ∈ removed ↔ ∃ x, p = some x ∧ m x = some v ∧ v.expire ≤ cur) ∧
      calls = removed.filter fun x => x.2.cb_func ≠ none
  | _, removed, calls => removed = [] ∧ calls = []

/-- The array holds exactly the timers `m`, in the order of a heap. -/
def HeapFor (h : Heap heap_timer) (t : time_heap) (m : Members) : Prop := ∃ n a, Good h t n a ∧ h.cells = m

/-- An array with `n` different timers, which are all that there are. -/
structure Timers (h : Heap heap_timer) (init_array : List Ptr) (n : Nat) (a : Nat → Nat) : Prop where
  entry : ∀ i < n, init_array[i]? = some (some (a i))
  distinct : Distinct n a
  members : ∀ x, (h.cells x).isSome ↔ ∃ i < n, a i = x

/-- The states that a constructor and a sequence of calls lead to, with at most `2 ^ 30` timers at any time. -/
inductive Reachable : Heap heap_timer → time_heap → Members → Prop where
  | init {raw : Nat → heap_timer} {cap : Int} {t : time_heap} : 0 < cap → cap < 2 ^ 31 →
      (time_heap.init cap).run (.empty raw) = .ok (t, .empty raw) → Reachable (.empty raw) t fun _ => none
  | build {h : Heap heap_timer} {init_array : List Ptr} {n fuel : Nat} {a : Nat → Nat} {cap : Int} {t : time_heap} :
      Timers h init_array n a → n ≤ 2 ^ 30 → n ≤ cap → 0 < cap → cap < 2 ^ 31 → n < fuel →
      (time_heap.build fuel init_array n cap).run h = .ok (some t, h) → Reachable h t h.cells
  | step {h h' : Heap heap_timer} {t t' : time_heap} {m : Members} {op : Op} {fuel : Nat}
      {removed calls : List (Ptr × heap_timer)} :
      Reachable h t m → Permitted m op → Small t op → t.cur_size < fuel →
      (op.exec fuel t).run h = .ok ((t', removed, calls), h') → Reachable h' t' (m.apply op removed)

variable {h : Heap heap_timer} {t : time_heap} {a : Nat → Nat} {n : Nat} {m : Members}

section Constructors

variable {cap : Int} (hpos : 0 < cap) (hlt : cap < 2 ^ 31)
include hpos

theorem run_new_array (h : Heap heap_timer) : (new_array cap).run h = .ok (List.replicate cap.toNat none, h) := by
  rw [new_array, if_neg (by omega)]
  rfl

include hlt

/-- A heap without timers. -/
theorem good_empty (hnone : ∀ x, h.cells x = none) (a : Nat → Nat) :
    Good h { array := List.replicate cap.toNat none, capacity := cap, cur_size := 0 } 0 a := by
  refine ⟨⟨?_, Nat.zero_le _, ?_⟩, rfl, ?_, hpos, hlt, Nat.zero_le _, ?_, fun x => ?_, ?_⟩
  · exact fun i hi => absurd hi (Nat.not_lt_zero i)
  · exact fun i hi => absurd hi (Nat.not_lt_zero i)
  · dsimp only
    rw [List.length_replicate]
    omega
  · exact fun i hi => absurd hi (Nat.not_lt_zero i)
  · rw [hnone x]
    exact iff_of_false (fun h => nomatch h) fun ⟨i, hi, _⟩ => Nat.not_lt_zero i hi
  · exact fun i _ hi => absurd hi (Nat.not_lt_zero i)

theorem run_init (raw : Nat → heap_timer) :
    ∃ t, (time_heap.init cap).run (.empty raw) = .ok (t, .empty raw) ∧ HeapFor (.empty raw) t fun _ => none :=
  ⟨_, run_bind_of_ok (run_new_array hpos _) _, 0, id, good_empty hpos hlt (fun _ => rfl) id, rfl⟩

omit hlt

/-- The constructor copies the timers and puts them in order. -/
theorem run_build_eq (ht : Timers h init_array n a) (hcap : n ≤ cap) (hsize : 0 < n) (fuel : Nat) :
    (time_heap.build fuel init_array n cap).run h = (do
      let t ← (⟨init_array.take n ++ (List.replicate cap.toNat none).drop n, cap, n⟩ : time_heap).heapify fuel
        ((n - 1) / 2)
      return some t : Prog (Option time_heap)).run h := by
  have hlast : n - 1 < init_array.length := (List.getElem?_eq_some_iff.mp (ht.entry (n - 1) (by omega))).1
  have hhalf : (((n : Int) - 1) / 2).toNat = (n - 1) / 2 := by omega
  rw [time_heap.build, if_neg (by omega), run_bind_of_ok (run_new_array hpos h), if_pos (by omega), Int.toNat_natCast,
    run_bind_of_ok (run_inBounds hlast _), hhalf]

theorem Timers.length_copy (ht : Timers h init_array n a) (hcap : n ≤ cap) :
    (init_array.take n ++ (List.replicate cap.toNat none).drop n).length = cap.toNat := by
  have hlen : n ≤ init_array.length := by
    rcases Nat.eq_zero_or_pos n with rfl | hsize
    · exact Nat.zero_le _
    · have hlast := (List.getElem?_eq_some_iff.mp (ht.entry (n - 1) (by omega))).1
      omega
  rw [List.length_append, List.length_take, List.length_drop, List.length_replicate]
  omega

theorem Timers.stored (ht : Timers h init_array n a) (hcap : n ≤ cap) :
    Stored h ⟨init_array.take n ++ (List.replicate cap.toNat none).drop n, cap, n⟩ n a := by
  refine ⟨fun i hi => ?_, ?_, fun i hi => (ht.members _).mpr ⟨i, hi, rfl⟩⟩
  · have hentry := ht.entry i hi
    have hlen := (List.getElem?_eq_some_iff.mp hentry).1
    rw [List.getElem?_append_left (by rw [List.length_take]; omega), List.getElem?_take_of_lt hi, hentry]
  · dsimp only
    rw [ht.length_copy hpos hcap]
    omega

include hlt

theorem run_build (ht : Timers h init_array n a) (hn : n ≤ 2 ^ 30) (hcap : n ≤ cap) (hfuel : n < fuel) :
    ∃ t, (time_heap.build fuel init_array n cap).run h = .ok (some t, h) ∧ HeapFor h t h.cells := by
  rcases Nat.eq_zero_or_pos n with rfl | hsize
  · have hnone : ∀ x, h.cells x = none := by
      intro x
      rw [← Option.not_isSome_iff_eq_none, ht.members]
      exact fun ⟨i, hi, _⟩ => Nat.not_lt_zero i hi
    refine ⟨_, ?_, 0, a, good_empty hpos hlt hnone a, rfl⟩
    rw [time_heap.build, if_neg (by omega), run_bind_of_ok (run_new_array hpos h)]
    rfl
  · obtain ⟨t, a', hrun, hs, hordered, hrearranged, hshape⟩ :=
      (ht.stored hpos hcap).heapify (by omega : (n - 1) / 2 < n) rfl hn (orderedFrom_last n _) hfuel
    refine ⟨t, ?_, n, a', ⟨hs, hshape.cur_size, ?_, ?_, ?_, hn, hrearranged.distinct ht.distinct, fun x => ?_,
      hordered⟩, rfl⟩
    · rw [run_build_eq hpos ht hcap hsize, run_bind_of_ok hrun]
      rfl
    · rw [hshape.capacity, hshape.length, ht.length_copy hpos hcap]
      dsimp only
      omega
    · rw [hshape.capacity]
      exact hpos
    · rw [hshape.capacity]
      exact hlt
    · rw [hrearranged.exists_iff (· = x)]
      exact ht.members x

end Constructors

/-- The timers that are left are those that are not removed. -/
theorem Expired.filter_eq {cur : Int} {log : List (Ptr × heap_timer)} (hlog : Expired h cur log) (y : Nat) :
    ((h.cells y).filter fun d => cur < d.expire) = if some y ∈ log.map Prod.fst then none else h.cells y := by
  by_cases hmem : some y ∈ log.map Prod.fst
  · obtain ⟨⟨_, d⟩, hin, rfl⟩ := List.mem_map.mp hmem
    obtain ⟨x, heq, hd, hle⟩ := (hlog.mem_iff _ d).mp hin
    cases heq
    rw [if_pos hmem, hd]
    exact if_neg (by simpa using hle)
  · rw [if_neg hmem]
    cases hy : h.cells y with
    | none => rfl
    | some d =>
      refine if_pos (decide_eq_true (Int.not_le.mp fun hle => hmem (List.mem_map.mpr ⟨(some y, d), ?_, rfl⟩)))
      exact (hlog.mem_iff _ d).mpr ⟨y, rfl, hy, hle⟩

/-- Every call keeps the heap. -/
theorem HeapFor.exec (hf : HeapFor h t m) (op : Op) (hop : Permitted m op) (hsmall : Small t op)
    (hfuel : t.cur_size < fuel) :
    ∃ t' removed calls h', (op.exec fuel t).run h = .ok ((t', removed, calls), h') ∧
      HeapFor h' t' (m.apply op removed) ∧ Meets m op removed calls := by
  obtain ⟨n, a, hg, rfl⟩ := hf
  have hfuel : n < fuel := by
    have hsize := hg.size
    omega
  cases op with
  | add x timer =>
    have hsmall : n < 2 ^ 30 := by
      rw [Small, hg.size] at hsmall
      omega
    obtain ⟨t', a', hrun, hg'⟩ := hg.add hop hsmall hfuel
    refine ⟨t', [], [], _, ?_, ⟨n + 1, a', hg', rfl⟩, rfl, rfl⟩
    rw [Op.exec, run_bind_of_ok (run_modify _ _), run_bind_of_ok hrun]
    rfl
  | pop =>
    cases n with
    | zero =>
      have hzero : t.cur_size = 0 := hg.size
      refine ⟨t, [], [], h, ?_, ⟨0, a, hg, rfl⟩, rfl, .inl ⟨rfl, hg.cells_of_empty⟩⟩
      rw [Op.exec, time_heap.top, if_pos hzero, run_pure_bind, if_pos rfl, run_bind_of_ok (hg.run_pop_empty fuel)]
      rfl
    | succ n =>
      obtain ⟨v, hv⟩ := hg.exists_root
      obtain ⟨t', a', hrun, hg'⟩ := hg.pop (Nat.lt_of_succ_lt hfuel)
      refine ⟨t', [(some (a 0), v)], [], _, ?_, ⟨n, a', hg', funext fun y => ?_⟩, rfl,
        .inr ⟨a 0, v, rfl, hv, fun y u => hg.root_le hv⟩⟩
      · rw [Op.exec, time_heap.top, if_neg hg.size_ne, run_bind_of_ok (hg.run_read_root h),
          if_neg (Option.some_ne_none _), run_bind_of_ok (run_load hv), run_bind_of_ok hrun]
        rfl
      · rw [Heap.release_cells, Members.apply, Members.without]
        simp
  | del timer =>
    cases timer with
    | none => exact ⟨t, [], [], h, rfl, ⟨n, a, hg, rfl⟩, rfl, rfl⟩
    | some x =>
      have hx := Option.isSome_iff_ne_none.mpr (hop x rfl)
      refine ⟨t, [], [], _, run_bind_of_ok (run_store_of_isSome hx _) _, ⟨n, a, hg.del x, funext fun y => ?_⟩, rfl, rfl⟩
      rw [Heap.alter_cells, Members.apply]
      by_cases hy : y = x
      · simp [hy]
      · simp [hy, Ne.symm hy]
  | tick cur =>
    obtain ⟨t', h', n', a', log, hrun, hg', hexpired, hremaining⟩ := hg.tick hfuel cur
    refine ⟨t', log, _, h', hrun, ⟨n', a', hg', funext fun y => ?_⟩, hexpired.nodup, hexpired.sorted, hexpired.mem_iff,
      rfl⟩
    exact (hremaining y).trans (hexpired.filter_eq y)

theorem Reachable.heapFor (hr : Reachable h t m) : HeapFor h t m := by
  induction hr with
  | init hpos hlt hrun =>
    obtain ⟨t, hrun', hf⟩ := run_init hpos hlt _
    cases hrun.symm.trans hrun'
    exact hf
  | build ht hn hcap hpos hlt hfuel hrun =>
    obtain ⟨t, hrun', hf⟩ := run_build hpos hlt ht hn hcap hfuel
    cases hrun.symm.trans hrun'
    exact hf
  | step _ hop hsmall hfuel hrun ih =>
    obtain ⟨t', removed, calls, h', hrun', hf, _⟩ := ih.exec _ hop hsmall hfuel
    cases hrun.symm.trans hrun'
    exact hf

/-- As long as there are at most `2 ^ 30` timers, both constructors return, the array is a heap with exactly the timers
that have been added and not yet removed in every state that calls lead to, and every call returns and does what it
should. -/
theorem heap_correct (h : Heap heap_timer) (t : time_heap) (m : Members) :
    (∀ (raw : Nat → heap_timer) (cap : Int), 0 < cap → cap < 2 ^ 31 →
      ∃ t, (time_heap.init cap).run (.empty raw) = .ok (t, .empty raw)) ∧
    (∀ init_array n a (cap : Int) fuel, Timers h init_array n a → n ≤ 2 ^ 30 → n ≤ cap → 0 < cap → cap < 2 ^ 31 →
      n < fuel → ∃ t, (time_heap.build fuel init_array n cap).run h = .ok (some t, h)) ∧
    (Reachable h t m → HeapFor h t m ∧
      ∀ op, Permitted m op → Small t op → ∀ fuel : Nat, t.cur_size < fuel →
        ∃ t' removed calls h', (op.exec fuel t).run h = .ok ((t', removed, calls), h') ∧
          HeapFor h' t' (m.apply op removed) ∧ Meets m op removed calls) := by
  refine ⟨fun raw cap hpos hlt => ?_, fun init_array n a cap fuel ht hn hcap hpos hlt hfuel => ?_,
    fun hr => ⟨hr.heapFor, fun op hop hsmall fuel hfuel => hr.heapFor.exec op hop hsmall hfuel⟩⟩
  · obtain ⟨t, hrun, _⟩ := run_init hpos hlt raw
    exact ⟨t, hrun⟩
  · obtain ⟨t, hrun, _⟩ := run_build hpos hlt ht hn hcap hfuel
    exact ⟨t, hrun⟩

/-- Three timers are added to an array for one, the second one above the first, and the third
is deleted lazily; the tick removes the second and the third and calls the second. -/
theorem heap_correct_three :
    ∃ h m t' h', Reachable h ⟨[some 1, some 0, some 2, none], 4, 3⟩ m ∧
      ((Op.tick 4).exec 4 ⟨[some 1, some 0, some 2, none], 4, 3⟩).run h =
        .ok ((t', [(some 1, ⟨3, some 8, 0⟩), (some 2, ⟨4, none, 0⟩)], [(some 1, ⟨3, some 8, 0⟩)]), h') ∧
      HeapFor h' t' (m.apply (.tick 4) [(some 1, ⟨3, some 8, 0⟩), (some 2, ⟨4, none, 0⟩)]) ∧
      Meets m (.tick 4) [(some 1, ⟨3, some 8, 0⟩), (some 2, ⟨4, none, 0⟩)] [(some 1, ⟨3, some 8, 0⟩)] := by
  have hinit : Reachable (.empty fun _ => ⟨0, none, 0⟩) ⟨[none], 1, 0⟩ _ :=
    .init (by decide : (0 : Int) < 1) (by decide) rfl
  have hfirst : Reachable _ ⟨[some 0], 1, 1⟩ _ :=
    @Reachable.step _ _ _ _ _ (.add 0 ⟨5, some 7, 0⟩) 1 _ _ hinit rfl (by decide : (0 : Int) < 2 ^ 30) (by decide) rfl
  have hsecond : Reachable _ ⟨[some 1, some 0], 2, 2⟩ _ :=
    @Reachable.step _ _ _ _ _ (.add 1 ⟨3, some 8, 0⟩) 2 _ _ hfirst rfl (by decide : (1 : Int) < 2 ^ 30) (by decide) rfl
  have hthird : Reachable _ ⟨[some 1, some 0, some 2, none], 4, 3⟩ _ :=
    @Reachable.step _ _ _ _ _ (.add 2 ⟨4, some 9, 0⟩) 3 _ _ hsecond rfl (by decide : (2 : Int) < 2 ^ 30) (by decide) rfl
  have hlazy := @Reachable.step _ _ _ _ _ (.del (some 2)) 4 _ _ hthird (by rintro _ ⟨⟩; exact nofun) trivial
    (by decide) rfl
  obtain ⟨t', removed, calls, h', hrun, hheap, hmeets⟩ :=
    ((heap_correct _ _ _).2.2 hlazy).2 (.tick 4) trivial trivial 4 (by decide)
  have hticked : Except.ok ((t', removed, calls), h') =
      .ok ((_, [(some 1, ⟨3, some 8, 0⟩), (some 2, ⟨4, none, 0⟩)], [(some 1, ⟨3, some 8, 0⟩)]), _) :=
      hrun.symm.trans rfl
  cases hticked
  exact ⟨_, _, _, _, hlazy, hrun, hheap, hmeets⟩

section Overflow

variable {k fuel : Nat} {v₀ v₁ v₂ : heap_timer}

/-- With `2 ^ 30 + 1` timers, the hole can reach the last place, and the place of its child is no `int`. -/
theorem run_percolate_down_overflow (hs : Stored h t (2 * k + 3) a) (hsize : t.cur_size = (2 * k + 3 : Nat))
    (hk : k + 1 = 2 ^ 29) (h₀ : h.cells (a k) = some v₀) (h₁ : h.cells (a (2 * k + 1)) = some v₁)
    (h₂ : h.cells (a (2 * k + 2)) = some v₂) (hsmaller : v₂.expire < v₁.expire) (hless : v₂.expire < v₀.expire) :
    (t.percolate_down (fuel + 2) k).run h = .error .bounds := by
  have hnext : ((2 * k + 1 : Nat) : Int) + 1 = (2 * k + 2 : Nat) := by omega
  have hread₂ := time_heap.run_read (hs.entry (2 * k + 2) (by omega)) h
  have hfirst : (percolate_body (some (a k)) (t, (k : Int))).run h =
      .ok (.inl ({ t with array := t.array.set k (some (a (2 * k + 2))) }, ((2 * k + 2 : Nat) : Int)), h) := by
    have hsmall : (t.smaller (2 * k + 1 : Nat)).run h = .ok (((2 * k + 2 : Nat) : Int), h) := by
      rw [time_heap.smaller, if_pos (by omega), hnext, run_bind_of_ok hread₂, run_bind_of_ok (run_load h₂),
        run_bind_of_ok (time_heap.run_read (hs.entry (2 * k + 1) (by omega)) h), run_bind_of_ok (run_load h₁),
        if_pos hsmaller]
      rfl
    have hlen := hs.len
    rw [run_percolate_body (by omega) (by omega) (by omega) hsmall (hs.entry _ (by omega)) h₂ h₀, if_pos hless]
  have hover : wrap (((2 * k + 2 : Nat) : Int) * 2 + 1) = -2147483647 := by
    have hval : ((2 * k + 2 : Nat) : Int) * 2 + 1 = 2147483649 := by omega
    rw [hval]
    decide
  have hsecond : (percolate_body (some (a k)) ({ t with array := t.array.set k (some (a (2 * k + 2))) },
      ((2 * k + 2 : Nat) : Int))).run h = .error .bounds := by
    have hnegative : ∀ t : time_heap, (t.read (-2147483647 + 1)).run h = .error .bounds := fun _ => rfl
    rw [percolate_body, hover, if_pos (by dsimp only; omega), run_bind, time_heap.smaller,
      if_pos (by dsimp only; omega), run_bind, hnegative]
  rw [time_heap.percolate_down, run_bind_of_ok (time_heap.run_read (hs.entry k (by omega)) h), run_bind,
    run_loop_next hfirst, loop, run_bind, hsecond]

theorem run_heapify_error {e : Fault} (hrun : (t.percolate_down fuel k).run h = .error e) :
    (t.heapify fuel k).run h = .error e := by
  cases k with
  | zero => exact hrun
  | succ k => rw [time_heap.heapify, run_bind, hrun]

/-- The first call of `percolate_down` finds no child, and the second one overflows. -/
theorem run_heapify_overflow (hs : Stored h t (2 * k + 3) a) (hsize : t.cur_size = (2 * k + 3 : Nat))
    (hk : k + 1 = 2 ^ 29) (h₀ : h.cells (a k) = some v₀) (h₁ : h.cells (a (2 * k + 1)) = some v₁)
    (h₂ : h.cells (a (2 * k + 2)) = some v₂) (hsmaller : v₂.expire < v₁.expire) (hless : v₂.expire < v₀.expire) :
    (t.heapify (fuel + 2) (k + 1)).run h = .error .bounds := by
  have hfirst : (t.percolate_down (fuel + 2) (k + 1 : Nat)).run h =
      .ok ({ t with array := t.array.set (k + 1) (some (a (k + 1))) }, h) := by
    have hlen := hs.len
    rw [time_heap.percolate_down, run_bind_of_ok (time_heap.run_read (hs.entry (k + 1) (by omega)) h),
      run_bind_of_ok (run_loop_done (run_percolate_body_leaf (by omega) (by omega) _) _)]
    exact time_heap.run_write (by omega) _ _
  have hfill := (hs.holed (k + 1)).fill (by omega : k + 1 < 2 * k + 3)
  rw [time_heap.heapify, run_bind_of_ok hfirst]
  exact run_heapify_error (run_percolate_down_overflow hfill hsize hk h₀ h₁ h₂ hsmaller hless)

/-- The last of `n` timers expires before the others. -/
def lastFirst (n : Nat) : Heap heap_timer where
  cells x := if x < n then some ⟨if x + 1 = n then 0 else 1, none, 0⟩ else none
  next := n
  raw _ := ⟨0, none, 0⟩
  fresh _ hx := if_neg (Nat.not_lt.mpr hx)

theorem lastFirst_cells {n x : Nat} (hx : x < n) :
    (lastFirst n).cells x = some ⟨if x + 1 = n then 0 else 1, none, 0⟩ := if_pos hx

theorem timers_lastFirst (n : Nat) : Timers (lastFirst n) ((List.range n).map some) n id where
  entry i hi := by rw [List.getElem?_map, List.getElem?_range hi, Option.map_some, id]
  distinct _ _ _ _ heq := heq
  members x := by
    by_cases hx : x < n
    · rw [lastFirst_cells hx]
      exact iff_of_true rfl ⟨x, hx, rfl⟩
    · rw [(lastFirst n).fresh x (Nat.not_lt.mp hx)]
      refine iff_of_false (fun h => nomatch h) ?_
      rintro ⟨i, hi, rfl⟩
      exact hx hi

/-- The constructor reads outside of its array when it is given `2 ^ 30 + 1` timers, the last of which expires first. -/
theorem build_out_of_bounds : ∃ h init_array a, Timers h init_array (2 ^ 30 + 1) a ∧ ∀ fuel,
    (time_heap.build (fuel + 2) init_array (2 ^ 30 + 1 : Nat) (2 ^ 30 + 1)).run h = .error .bounds := by
  obtain ⟨k, hk⟩ : ∃ k, k + 1 = 2 ^ 29 := ⟨2 ^ 29 - 1, rfl⟩
  have hn : 2 ^ 30 + 1 = 2 * k + 3 := by omega
  rw [hn]
  have ht := timers_lastFirst (2 * k + 3)
  have hcap : ((2 * k + 3 : Nat) : Int) ≤ 2 ^ 30 + 1 := by omega
  have hs := ht.stored (by decide) hcap
  refine ⟨_, _, _, ht, fun fuel => ?_⟩
  have hhalf : (2 * k + 3 - 1) / 2 = k + 1 := by omega
  rw [run_build_eq (by decide) ht hcap (by omega), run_bind, hhalf, run_heapify_overflow hs rfl hk
    (lastFirst_cells (by simp only [id]; omega)) (lastFirst_cells (by simp only [id]; omega))
    (lastFirst_cells (by simp only [id]; omega))]
  · simp
  · have hother : k ≠ 2 * k + 2 := by omega
    simp [hother]

end Overflow

end basic_data_struct.min_heap
