import BasicDataStruct.Timer.TimeHeap

open machine machine.Exec binary_heap

namespace basic_data_struct.min_heap

variable {i fuel inner : Nat} {tmp : Ptr}

/-- The heap object holds the `n` timers `a` in the order of a heap: they are different, they are all the timers that
there are, and there is room for them. -/
structure Good (h : Heap heap_timer) (t : time_heap) (n : Nat) (a : Nat → Nat) : Prop where
  stored : Stored h t n a
  size : t.cur_size = n
  capacity : t.capacity = t.array.length
  cap_pos : 0 < t.capacity
  cap_lt : t.capacity < 2 ^ 31
  small : n ≤ 2 ^ 30
  distinct : Distinct n a
  members : ∀ x, (h.cells x).isSome ↔ ∃ i < n, a i = x
  ordered : Ordered n (keys h a)

variable {h h' : Heap heap_timer} {t t' : time_heap} {a a' : Nat → Nat} {n x : Nat} {v : heap_timer}

/-- The keys depend on the expiry times of the timers only. -/
theorem keys_congr (hsame : ∀ i < n, h'.cells (a i) = h.cells (a i)) (hi : i < n) : keys h' a i = keys h a i := by
  rw [keys, keys, expireOf, expireOf, hsame i hi]

/-- There is room for one more timer, and the array holds the same timers. -/
structure Room (t : time_heap) (n : Nat) (a : Nat → Nat) : Prop where
  entry : ∀ i < n, t.array[i]? = some (some (a i))
  size : t.cur_size = n
  capacity : t.capacity = t.array.length
  room : (n : Int) < t.capacity
  cap_lt : t.capacity < 2 ^ 31

/-- `resize` doubles a full array and keeps the timers in it. -/
theorem Good.run_resize (hg : Good h t n a) (hfull : t.cur_size ≥ t.capacity) (hn : n < 2 ^ 30) (h' : Heap heap_timer) :
    ∃ t', t.resize.run h' = .ok (t', h') ∧ Room t' n a := by
  have hcap : t.capacity = n := by
    have hlen := hg.stored.len
    have hsize := hg.size
    have hcap := hg.capacity
    omega
  have hlen : t.array.length = n := by
    have hcap' := hg.capacity
    omega
  have hwrap : wrap (2 * t.capacity) = (2 * n : Nat) := by
    rw [hcap, ← wrap_of_lt (by omega : 2 * n < 2 ^ 31)]
    exact congrArg wrap (by omega)
  have hnew : (new_array (wrap (2 * t.capacity))).run h' = .ok (List.replicate (2 * n) none, h') := by
    rw [hwrap, new_array, if_neg (Int.not_lt.mpr (Int.natCast_nonneg _)), Int.toNat_natCast]
    rfl
  have hpos := hg.cap_pos
  refine ⟨⟨t.array.take n ++ (List.replicate (2 * n) none).drop n, wrap (2 * t.capacity), n⟩, ?_, fun i hi => ?_, rfl,
    ?_, ?_, ?_⟩
  · rw [time_heap.resize, run_bind_of_ok hnew, hg.size, Int.toNat_natCast, List.length_replicate, hlen,
      if_pos (by omega : n ≤ min n (2 * n))]
    rfl
  · rw [List.getElem?_append_left (by rw [List.length_take]; omega), List.getElem?_take_of_lt hi]
    exact hg.stored.entry i hi
  · dsimp only
    rw [hwrap, List.length_append, List.length_take, List.length_drop, List.length_replicate, hlen]
    omega
  · dsimp only
    rw [hwrap]
    omega
  · dsimp only
    rw [hwrap]
    omega

theorem Good.run_make_room (hg : Good h t n a) (hn : n < 2 ^ 30) (h' : Heap heap_timer) :
    ∃ t', t.make_room.run h' = .ok (t', h') ∧ Room t' n a := by
  rw [time_heap.make_room]
  by_cases hfull : t.cur_size ≥ t.capacity
  · rw [if_pos hfull]
    exact hg.run_resize hfull hn h'
  · rw [if_neg hfull]
    exact ⟨t, rfl, hg.stored.entry, hg.size, hg.capacity, hg.size ▸ Int.not_le.mp hfull, hg.cap_lt⟩

/-- The new timer is taken for the last one, with a hole in its place. -/
theorem Room.holed (hr : Room t n a) (hlive : ∀ i < n, (h.cells (a i)).isSome) (hx : (h.cells x).isSome) :
    Holed h { t with cur_size := t.cur_size + 1 } (n + 1) (Function.update a n x) n where
  entry i hi hne := by
    rw [Function.update_of_ne hne]
    exact hr.entry i (by omega)
  len := by
    have hroom := hr.room
    have hcap := hr.capacity
    dsimp only
    omega
  live i hi := by
    by_cases hin : i = n
    · rwa [hin, Function.update_self]
    · rw [Function.update_of_ne hin]
      exact hlive i (by omega)

theorem Good.add (hg : Good h t n a) (hfree : h.cells x = none) (hn : n < 2 ^ 30) (hfuel : n < fuel) :
    ∃ t' a', (t.add_timer fuel (some x)).run (h.place x v) = .ok (t', h.place x v) ∧
      Good (h.place x v) t' (n + 1) a' := by
  obtain ⟨t₁, hroom, hr⟩ := hg.run_make_room hn (h.place x v)
  have hne : ∀ i < n, a i ≠ x := by
    intro i hi heq
    have hlive := hg.stored.live i hi
    rw [heq, hfree] at hlive
    cases hlive
  have hcells : ∀ i < n, (h.place x v).cells (a i) = h.cells (a i) := by
    intro i hi
    rw [Heap.place_cells, if_neg (hne i hi)]
  have hx : ((h.place x v).cells x).isSome := by rw [Heap.place_cells, if_pos rfl, Option.isSome_some]
  have hh := hr.holed (fun i hi => (hcells i hi).symm ▸ hg.stored.live i hi) hx
  have hk : Rising (n + 1) (keys (h.place x v) (Function.update a n x)) n := by
    refine hg.ordered.rising fun i hi => ?_
    rw [← keys_congr hcells hi, keys, keys, Function.update_of_ne hi.ne]
  obtain ⟨t₂, a₂, hole, hrun, hm, hordered⟩ := run_rise hh (Nat.lt_succ_self n) hk hfuel
  have hfill := hm.holed.fill hm.hole_lt
  rw [hm.moving] at hfill
  rw [Function.update_self] at hrun hfill
  refine ⟨{ t₂ with array := t₂.array.set hole (some x) }, a₂, ?_, hfill, ?_, ?_, ?_, ?_, hn, ?_, ?_, hordered⟩
  · rw [time_heap.add_timer, if_neg (Option.some_ne_none x), run_bind_of_ok hroom]
    dsimp only
    rw [hr.size] at hrun ⊢
    rw [run_bind_of_ok hrun]
    exact time_heap.run_write (Nat.lt_of_lt_of_le hm.hole_lt hm.holed.len) _ _
  · rw [hm.shape.cur_size, hr.size]
    rfl
  · rw [hm.shape.capacity, hr.capacity, List.length_set, hm.shape.length]
  · rw [hm.shape.capacity]
    exact Int.lt_of_le_of_lt (Int.natCast_nonneg n) hr.room
  · rw [hm.shape.capacity]
    exact hr.cap_lt
  · exact hm.rearranged.distinct (hg.distinct.concat hne)
  · intro y
    rw [hm.rearranged.exists_iff (· = y), exists_concat_iff, Heap.place_cells, ← hg.members]
    split
    next hy => exact iff_of_true rfl (.inl hy)
    next hy => exact (or_iff_right hy).symm

/-- After the last timer has been moved to the root, the entry of the root is read and written also if there is no
timer left: it is a pointer to the one that has been deleted, which is not dereferenced. -/
theorem run_percolate_root (hs : Stored h t n a) (hsize : t.cur_size = n) (hn : n ≤ 2 ^ 30)
    (hroot : t.array[0]? = some (some x)) (hk : Sinking 0 n (keys h a) 0) (hfuel : n < fuel) :
    Percolated h t 0 n a ((t.percolate_down fuel 0).run h) := by
  rcases Nat.eq_zero_or_pos n with rfl | hpos
  · have hlen : 0 < t.array.length := (List.getElem?_eq_some_iff.mp hroot).1
    have hread : (t.read 0).run h = .ok (some x, h) := time_heap.run_read hroot h
    have hwrite : (t.write 0 (some x)).run h = .ok ({ t with array := t.array.set 0 (some x) }, h) :=
      time_heap.run_write hlen _ _
    have hbody : (percolate_body (some x) (t, 0)).run h = .ok (.inr (t, 0), h) := by
      rw [percolate_body, hsize, if_neg (by decide)]
      rfl
    obtain ⟨fuel, rfl⟩ := exists_fuel hfuel
    refine ⟨{ t with array := t.array.set 0 (some x) }, a, ?_, ⟨?_, Nat.zero_le _, ?_⟩, ?_, .refl 0 a,
      sameShape_set t 0 _⟩
    · rw [time_heap.percolate_down, run_bind_of_ok hread, run_bind_of_ok (run_loop_done hbody fuel)]
      exact hwrite
    · exact fun i hi => absurd hi (Nat.not_lt_zero i)
    · exact fun i hi => absurd hi (Nat.not_lt_zero i)
    · exact fun i _ hi => absurd hi (Nat.not_lt_zero i)
  · exact hs.percolate_down hpos hsize hn (Nat.le_refl 0) hk hfuel

section

variable (hg : Good h t (n + 1) a)
include hg

theorem Good.size_ne : t.cur_size ≠ 0 := by
  have hsize := hg.size
  omega

theorem Good.run_read_root (h' : Heap heap_timer) :
    (t.read 0).run h' = .ok (some (a 0), h') := time_heap.run_read (hg.stored.entry 0 (Nat.succ_pos n)) h'

theorem Good.exists_root : ∃ v, h.cells (a 0) = some v :=
  Option.isSome_iff_exists.mp (hg.stored.live 0 (Nat.succ_pos n))

/-- The timers that stay when the first one is removed, with the last one in its place. -/
theorem Good.release_cells (hi : i < n) :
    (h.release (a 0)).cells ((a ∘ Equiv.swap 0 n) i) = h.cells ((a ∘ Equiv.swap 0 n) i) := by
  have hdistinct := (rearranged_swap (by omega : 0 < n + 1) (Nat.lt_succ_self n) a).distinct hg.distinct
  refine Heap.release_cells_of_ne _ fun heq => hi.ne (hdistinct i (by omega) n (by omega) ?_)
  rw [heq, Function.comp_apply, Equiv.swap_apply_right]

theorem Good.stored_pop :
    Stored (h.release (a 0)) { t with array := t.array.set 0 (some (a n)), cur_size := n } n (a ∘ Equiv.swap 0 n) := by
  have hlen := hg.stored.len
  have hlive := (rearranged_swap (by omega : 0 < n + 1) (Nat.lt_succ_self n) a).forall_of
    (fun x => (h.cells x).isSome) hg.stored.live
  refine ⟨fun i hi => ?_, ?_, fun i hi => ?_⟩
  · dsimp only [Function.comp_apply]
    rcases Nat.eq_zero_or_pos i with rfl | hpos
    · rw [Equiv.swap_apply_left, List.getElem?_set_self (by omega)]
    · rw [Equiv.swap_apply_of_ne_of_ne hpos.ne' hi.ne, List.getElem?_set_ne hpos.ne]
      exact hg.stored.entry i (by omega)
  · dsimp only
    rw [List.length_set]
    omega
  · rw [hg.release_cells hi]
    exact hlive i (by omega)

/-- The root is removed. -/
theorem Good.pop (hfuel : n < fuel) :
    ∃ t' a', (t.pop_timer fuel).run h = .ok (t', h.release (a 0)) ∧ Good (h.release (a 0)) t' n a' := by
  have hswap := rearranged_swap (by omega : 0 < n + 1) (Nat.lt_succ_self n) a
  have hdistinct := hswap.distinct hg.distinct
  have hlast : (a ∘ Equiv.swap 0 n) n = a 0 := by rw [Function.comp_apply, Equiv.swap_apply_right]
  have hlen : 0 < t.array.length := Nat.lt_of_lt_of_le (Nat.succ_pos n) hg.stored.len
  have hsize : t.cur_size - 1 = n := by
    have hsize := hg.size
    omega
  have hk : Sinking 0 n (keys (h.release (a 0)) (a ∘ Equiv.swap 0 n)) 0 := by
    refine hg.ordered.sinking fun i hi hpos => ?_
    rw [keys_congr (fun i hi => hg.release_cells hi) hi, keys, keys, Function.comp_apply,
      Equiv.swap_apply_of_ne_of_ne hpos.ne' hi.ne]
  obtain ⟨t', a', hrun, hs, hordered, hrearranged, hshape⟩ := run_percolate_root hg.stored_pop rfl
    (Nat.le_of_succ_le hg.small) (List.getElem?_set_self hlen) hk hfuel
  refine ⟨t', a', ?_, hs, hshape.cur_size, ?_, ?_, ?_, Nat.le_of_succ_le hg.small,
    hrearranged.distinct hdistinct.init, fun y => ?_, hordered⟩
  · obtain ⟨v, hv⟩ := hg.exists_root
    have hnext : (t.read n).run (h.release (a 0)) = .ok (some (a n), h.release (a 0)) :=
      time_heap.run_read (hg.stored.entry n (Nat.lt_succ_self n)) _
    have hwrite : ({ t with cur_size := (n : Int) }.write 0 (some (a n))).run (h.release (a 0)) =
        .ok ({ t with array := t.array.set 0 (some (a n)), cur_size := n }, h.release (a 0)) :=
      time_heap.run_write (t := { t with cur_size := (n : Int) }) hlen _ _
    rw [time_heap.pop_timer, if_neg hg.size_ne, run_bind_of_ok (hg.run_read_root h), if_pos (Option.some_ne_none _),
      run_bind_of_ok (run_free hv), hsize, run_bind_of_ok hnext, run_bind_of_ok hwrite]
    exact hrun
  · rw [hshape.capacity, hshape.length, List.length_set]
    exact hg.capacity
  · rw [hshape.capacity]
    exact hg.cap_pos
  · rw [hshape.capacity]
    exact hg.cap_lt
  · rw [hrearranged.exists_iff (· = y), hdistinct.exists_init_iff, hlast, hswap.exists_iff (· = y), ← hg.members,
      Heap.release_cells]
    split
    next hy => exact iff_of_false (fun h => nomatch h) fun hne => hne.1 hy
    next hy => exact (and_iff_right hy).symm

end

theorem Good.run_pop_empty (hg : Good h t 0 a) (fuel : Nat) : (t.pop_timer fuel).run h = .ok (t, h) := by
  have hzero : t.cur_size = 0 := hg.size
  rw [time_heap.pop_timer, if_pos hzero]
  rfl

/-- A timer is deleted lazily: only its callback is forgotten. -/
theorem Good.del (hg : Good h t n a) (x : Nat) :
    Good (h.alter x fun v => { v with cb_func := none }) t n a := by
  have hkeys : keys (h.alter x fun v => { v with cb_func := none }) a = keys h a := by
    funext i
    rw [keys, keys, expireOf, expireOf, Heap.alter_cells]
    split
    next heq => rw [heq, Option.map_map]; rfl
    next => rfl
  refine ⟨⟨hg.stored.entry, hg.stored.len, fun i hi => ?_⟩, hg.size, hg.capacity, hg.cap_pos, hg.cap_lt, hg.small,
    hg.distinct, fun y => ?_, ?_⟩
  · rw [Heap.isSome_alter]
    exact hg.stored.live i hi
  · rw [Heap.isSome_alter]
    exact hg.members y
  · rw [hkeys]
    exact hg.ordered

/-- No timer expires before the one at the root. -/
theorem Good.root_le (hg : Good h t (n + 1) a) {d : heap_timer} (hv : h.cells (a 0) = some v)
    (hd : h.cells x = some d) : v.expire ≤ d.expire := by
  obtain ⟨i, hi, rfl⟩ := (hg.members x).mp (Option.isSome_of_eq_some hd)
  have hle := hg.ordered.root_le hi
  rwa [keys, keys, expireOf_eq hv, expireOf_eq hd] at hle

theorem Good.cells_of_empty (hg : Good h t 0 a) (x : Nat) : h.cells x = none := by
  rw [← Option.not_isSome_iff_eq_none, hg.members]
  rintro ⟨i, hi, _⟩
  exact Nat.not_lt_zero i hi

/-- The timers that `tick` should remove: those that are due, each once, in the order of their expiry times. -/
structure Expired (h : Heap heap_timer) (cur : Int) (log : List (Ptr × heap_timer)) : Prop where
  nodup : (log.map Prod.fst).Nodup
  sorted : log.Pairwise fun x y => x.2.expire ≤ y.2.expire
  mem_iff : ∀ p d, (p, d) ∈ log ↔ ∃ x, p = some x ∧ h.cells x = some d ∧ d.expire ≤ cur

/-- The timers with callbacks. -/
def called (log : List (Ptr × heap_timer)) : List (Ptr × heap_timer) := log.filter fun x => x.2.cb_func ≠ none

theorem called_cons (p : Ptr) (v : heap_timer) (log : List (Ptr × heap_timer)) :
    called ((p, v) :: log) = if v.cb_func = none then called log else (p, v) :: called log := by
  rw [called, List.filter_cons]
  by_cases hnone : v.cb_func = none
  · simp [hnone, called]
  · simp [hnone, called]

variable {cur : Int}

theorem Expired.of_none_due (hnone : ∀ x d, h.cells x = some d → cur < d.expire) : Expired h cur [] where
  nodup := List.nodup_nil
  sorted := .nil
  mem_iff p d := by
    refine iff_of_false List.not_mem_nil ?_
    rintro ⟨x, _, hd, hle⟩
    exact Int.not_le.mpr (hnone x d hd) hle

/-- The timer at the root is due, and then the others are removed. -/
theorem Expired.cons {log : List (Ptr × heap_timer)} (hlog : Expired (h.release x) cur log) (hv : h.cells x = some v)
    (hdue : v.expire ≤ cur) (hroot : ∀ y d, h.cells y = some d → v.expire ≤ d.expire) :
    Expired h cur ((some x, v) :: log) := by
  have hmem := hlog.mem_iff
  simp only [Heap.release_cells_eq_some] at hmem
  refine ⟨?_, ?_, fun p d => ?_⟩
  · rw [List.map_cons, List.nodup_cons]
    refine ⟨fun hx => ?_, hlog.nodup⟩
    obtain ⟨⟨_, d⟩, hin, rfl⟩ := List.mem_map.mp hx
    obtain ⟨y, heq, ⟨hne, _⟩, _⟩ := (hmem _ d).mp hin
    exact hne (Option.some.inj heq).symm
  · refine List.pairwise_cons.mpr ⟨fun y hy => ?_, hlog.sorted⟩
    obtain ⟨z, _, ⟨_, hz⟩, _⟩ := (hmem y.1 y.2).mp hy
    exact hroot z y.2 hz
  · rw [List.mem_cons, hmem, Prod.mk.injEq]
    constructor
    · rintro (⟨rfl, rfl⟩ | ⟨y, rfl, ⟨_, hy⟩, hle⟩)
      · exact ⟨x, rfl, hv, hdue⟩
      · exact ⟨y, rfl, hy, hle⟩
    · rintro ⟨y, rfl, hy, hle⟩
      by_cases hyx : y = x
      · subst hyx
        rw [hv, Option.some.injEq] at hy
        exact .inl ⟨rfl, hy.symm⟩
      · exact .inr ⟨y, rfl, ⟨hyx, hy⟩, hle⟩

/-- The timers that are left after `tick`. -/
def Remaining (h : Heap heap_timer) (cur : Int) (h' : Heap heap_timer) : Prop :=
  ∀ x, h'.cells x = (h.cells x).filter fun d => cur < d.expire

theorem Remaining.of_none_due (hnone : ∀ x d, h.cells x = some d → cur < d.expire) : Remaining h cur h := by
  intro x
  cases hx : h.cells x with
  | none => rfl
  | some d => exact (if_pos (decide_eq_true (hnone x d hx))).symm

theorem Remaining.of_release (hrest : Remaining (h.release x) cur h') (hv : h.cells x = some v)
    (hdue : v.expire ≤ cur) : Remaining h cur h' := by
  intro y
  rw [hrest, Heap.release_cells]
  split
  next hy =>
    subst hy
    rw [hv]
    exact (if_neg (by simpa using hdue)).symm
  next => rfl

/-- The array is never empty: its first entry is read also if there is no timer. -/
theorem Good.exists_entry (hg : Good h t n a) : ∃ tmp, t.array[0]? = some tmp := by
  have hpos := hg.cap_pos
  have hcap := hg.capacity
  exact ⟨_, List.getElem?_eq_getElem (by omega)⟩

theorem Good.run_tick_body_stop (hg : Good h t n a) (htmp : t.array[0]? = some tmp)
    (hnone : ∀ x d, h.cells x = some d → cur < d.expire) (removed calls : List (Ptr × heap_timer)) :
    (tick_body inner cur (t, tmp, removed, calls)).run h = .ok (.inr (t, removed, calls), h) := by
  cases n with
  | zero =>
    have hzero : t.cur_size = 0 := hg.size
    rw [tick_body, if_pos hzero]
    rfl
  | succ n =>
    obtain ⟨v, hv⟩ := hg.exists_root
    obtain rfl : some (a 0) = tmp := Option.some.inj ((hg.stored.entry 0 (Nat.succ_pos n)).symm.trans htmp)
    rw [tick_body, if_neg hg.size_ne, if_neg (Option.some_ne_none _), run_bind_of_ok (run_load hv),
      if_pos (hnone _ v hv)]
    rfl

/-- The body of the loop removes the timer at the root if it is due. -/
theorem Good.run_tick_body_next (hg : Good h t (n + 1) a) (htmp : t.array[0]? = some tmp)
    (hv : h.cells (a 0) = some v) (hdue : v.expire ≤ cur) (hinner : n < inner)
    (removed calls : List (Ptr × heap_timer)) :
    ∃ t' a' tmp', (tick_body inner cur (t, tmp, removed, calls)).run h =
        .ok (.inl (t', tmp', removed ++ [(some (a 0), v)],
          if v.cb_func = none then calls else calls ++ [(some (a 0), v)]), h.release (a 0)) ∧
      Good (h.release (a 0)) t' n a' ∧ t'.array[0]? = some tmp' := by
  obtain ⟨t', a', hpop, hg'⟩ := hg.pop hinner
  obtain ⟨tmp', htmp'⟩ := hg'.exists_entry
  have hread : (t'.read 0).run (h.release (a 0)) = .ok (tmp', h.release (a 0)) := time_heap.run_read htmp' _
  obtain rfl : some (a 0) = tmp := Option.some.inj ((hg.stored.entry 0 (Nat.succ_pos n)).symm.trans htmp)
  refine ⟨t', a', tmp', ?_, hg', htmp'⟩
  rw [tick_body, if_neg hg.size_ne, if_neg (Option.some_ne_none _), run_bind_of_ok (run_load hv),
    if_neg (Int.not_lt.mpr hdue), run_bind_of_ok (hg.run_read_root h), run_bind_of_ok (run_load hv),
    run_bind_of_ok hpop, run_bind_of_ok hread]
  rfl

/-- What the loop of `tick` leaves when it has begun with the timers `removed` and the calls `calls`. -/
def Ticked (h : Heap heap_timer) (cur : Int) (removed calls : List (Ptr × heap_timer))
    (run : Except Fault ((time_heap × List (Ptr × heap_timer) × List (Ptr × heap_timer)) × Heap heap_timer)) : Prop :=
  ∃ t' h' n' a' log, run = .ok ((t', removed ++ log, calls ++ called log), h') ∧ Good h' t' n' a' ∧
    Expired h cur log ∧ Remaining h cur h'

theorem Good.tick_loop_stop (hg : Good h t n a) (htmp : t.array[0]? = some tmp)
    (hnone : ∀ x d, h.cells x = some d → cur < d.expire) (fuel : Nat) (removed calls : List (Ptr × heap_timer)) :
    Ticked h cur removed calls ((loop (tick_body inner cur) (fuel + 1) (t, tmp, removed, calls)).run h) := by
  refine ⟨t, h, n, a, [], ?_, hg, .of_none_due hnone, .of_none_due hnone⟩
  rw [called, List.filter_nil, List.append_nil, List.append_nil]
  exact run_loop_done (hg.run_tick_body_stop htmp hnone removed calls) fuel

theorem Good.tick_loop (hg : Good h t n a) (htmp : t.array[0]? = some tmp)
    (hfuel : n < fuel) (hinner : n < inner) (removed calls : List (Ptr × heap_timer)) :
    Ticked h cur removed calls ((loop (tick_body inner cur) fuel (t, tmp, removed, calls)).run h) := by
  obtain ⟨fuel, rfl⟩ := exists_fuel hfuel
  induction n generalizing h t a fuel tmp removed calls with
  | zero =>
    refine hg.tick_loop_stop htmp (fun x d hd => ?_) fuel removed calls
    rw [hg.cells_of_empty x] at hd
    cases hd
  | succ n ih =>
    obtain ⟨v, hv⟩ := hg.exists_root
    by_cases hdue : v.expire ≤ cur
    · obtain ⟨t₁, a₁, tmp₁, hbody, hg₁, htmp₁⟩ :=
        hg.run_tick_body_next htmp hv hdue (Nat.lt_of_succ_lt hinner) removed calls
      obtain ⟨fuel, rfl⟩ := exists_fuel (Nat.lt_of_succ_lt_succ hfuel)
      obtain ⟨t', h', n', a', log, hrun, hg', hexpired, hremaining⟩ :=
        ih hg₁ htmp₁ (Nat.lt_of_succ_lt hinner) _ _ fuel (Nat.lt_of_succ_lt_succ hfuel)
      refine ⟨t', h', n', a', (some (a 0), v) :: log, ?_, hg', hexpired.cons hv hdue fun y d => hg.root_le hv,
        hremaining.of_release hv hdue⟩
      rw [run_loop_next hbody, hrun, List.append_assoc, List.singleton_append, called_cons]
      split
      next => rfl
      next => rw [List.append_assoc, List.singleton_append]
    · refine hg.tick_loop_stop htmp (fun x d hd => ?_) fuel removed calls
      exact Int.lt_of_lt_of_le (Int.not_le.mp hdue) (hg.root_le hv hd)

theorem Good.tick (hg : Good h t n a) (hfuel : n < fuel) (cur : Int) :
    Ticked h cur [] [] ((t.tick fuel cur).run h) := by
  obtain ⟨tmp, htmp⟩ := hg.exists_entry
  have hread : (t.read 0).run h = .ok (tmp, h) := time_heap.run_read htmp h
  rw [time_heap.tick, run_bind_of_ok hread]
  exact hg.tick_loop htmp hfuel hfuel [] []

end basic_data_struct.min_heap
