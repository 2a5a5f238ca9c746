import BasicDataStruct.Machine.Chain

open machine machine.Exec

namespace basic_data_struct.wheel

variable {fuel x : Nat} {timeout : Int}

def N : Nat := 60

def TI : Nat := 1

/-- The fields of a timer that say when it fires. Timers are told apart by their addresses, and the callback does not
touch the wheel. -/
structure timer_data where
  rotation : Nat
  time_slot : Nat
deriving DecidableEq

abbrev tw_timer := Link timer_data

structure time_wheel where
  slots : Nat → Ptr
  cur_slot : Nat

abbrev Prog := Exec (Heap tw_timer)

/-- The constructor. -/
def time_wheel.init : time_wheel where
  slots _ := none
  cur_slot := 0

def time_wheel.setSlot (w : time_wheel) (ts : Nat) (p : Ptr) : time_wheel :=
  { w with slots := fun s => if s = ts then p else w.slots s }

/-- The call of `add_timer` in which `new` returns the address `a`. -/
def time_wheel.add_timer (w : time_wheel) (a : Nat) (timeout : Int) : Prog (Ptr × time_wheel) := do
  if timeout < 0 then return (none, w)
  else
    let ticks := if timeout < TI then 1 else timeout.toNat / TI
    let rotation := ticks / N
    let ts := (w.cur_slot + ticks % N) % N
    modify fun h => h.place a ⟨⟨rotation, ts⟩, none, none⟩
    inBounds ts N
    if w.slots ts = none then return (some a, w.setSlot ts (some a))
    else
      store (some a) fun v => { v with next := w.slots ts }
      store (w.slots ts) fun v => { v with prev := some a }
      return (some a, w.setSlot ts (some a))

def time_wheel.del_timer (w : time_wheel) (timer : Ptr) : Prog time_wheel := do
  if timer = none then return w
  else
    let t ← load timer
    let ts := t.data.time_slot
    inBounds ts N
    if timer = w.slots ts then
      let slot := (← load (w.slots ts)).next
      resetPrev slot none
      free timer
      return w.setSlot ts slot
    else
      store t.prev fun v => { v with next := t.next }
      resetPrev t.next t.prev
      free timer
      return w

/-- One round of the loop of `tick`, with the current slot, the local `tmp` and the calls so far. -/
def tick_body : Ptr × Ptr × List Ptr → Prog ((Ptr × Ptr × List Ptr) ⊕ (Ptr × List Ptr))
  | (slot, tmp, calls) => do
    if tmp = none then return .inr (slot, calls)
    else
      let t ← load tmp
      if t.data.rotation > 0 then
        store tmp fun v => { v with data := { v.data with rotation := v.data.rotation - 1 } }
        return .inl (slot, t.next, calls)
      else
        let calls := calls ++ [tmp]
        if tmp = slot then
          let slot := t.next
          free tmp
          resetPrev slot none
          return .inl (slot, slot, calls)
        else
          store t.prev fun v => { v with next := t.next }
          resetPrev t.next t.prev
          free tmp
          return .inl (slot, t.next, calls)

/-- The function `tick`, with the timers whose callbacks it calls. -/
def time_wheel.tick (fuel : Nat) (w : time_wheel) : Prog (time_wheel × List Ptr) := do
  inBounds w.cur_slot N
  let (slot, calls) ← loop tick_body fuel (w.slots w.cur_slot, w.slots w.cur_slot, [])
  return ({ w.setSlot w.cur_slot slot with cur_slot := (w.cur_slot + 1) % N }, calls)

variable {h : Heap tw_timer} {slot n : Ptr} {calls : List Ptr} {a : Nat} {d : timer_data} {v : tw_timer}
  {front back items : List (Nat × timer_data)}

/-- What a tick of its slot makes of a timer: one rotation less, or nothing if it fires. -/
def turn (x : Nat × timer_data) : Option (Nat × timer_data) :=
  if x.2.rotation > 0 then some (x.1, { x.2 with rotation := x.2.rotation - 1 }) else none

/-- The addresses of the timers that fire in a tick of their slot. -/
def firing (items : List (Nat × timer_data)) : List Nat := places (items.filter fun x => x.2.rotation = 0)

theorem turn_of_zero (hzero : d.rotation = 0) : turn (a, d) = none := if_neg (by simp [hzero])

theorem turn_of_pos (hpos : d.rotation > 0) : turn (a, d) = some (a, { d with rotation := d.rotation - 1 }) :=
  if_pos hpos

theorem firing_cons_of_zero (hzero : d.rotation = 0) : firing ((a, d) :: items) = a :: firing items := by
  simp [firing, hzero]

theorem firing_cons_of_pos (hpos : d.rotation > 0) : firing ((a, d) :: items) = firing items := by
  simp [firing, Nat.ne_of_gt hpos]

theorem run_tick_body_of_pos (ha : h.cells a = some ⟨d, slot, n⟩) (hpos : d.rotation > 0) (slot' : Ptr) :
    (tick_body (slot', some a, calls)).run h = .ok (.inl (slot', n, calls),
      h.alter a fun v => { v with data := { v.data with rotation := v.data.rotation - 1 } }) := by
  rw [tick_body, if_neg (Option.some_ne_none a), run_bind_of_ok (run_load ha), if_pos hpos,
    run_bind_of_ok (run_store ha _)]
  rfl

/-- A timer that fires is taken out of the list and released, from the head of the list or from behind it. -/
theorem run_tick_body_of_zero (hchain : Chain h none (front ++ (a, d) :: back) none)
    (hnodup : (places (front ++ (a, d) :: back)).Nodup) (hzero : d.rotation = 0) :
    (tick_body (first (front ++ (a, d) :: back) none, some a, calls)).run h =
      .ok (.inl (first (front ++ back) none, first back none, calls ++ [some a]),
        (h.unlink (last none front) (first back none)).release a) := by
  have ha := hchain.cell
  have hhead := eq_first_iff hnodup none
  rw [tick_body, if_neg (Option.some_ne_none a), run_bind_of_ok (run_load ha),
    if_neg (Nat.not_lt.mpr (Nat.le_of_eq hzero))]
  dsimp only
  by_cases hfront : front = []
  · subst hfront
    have hlive := ((Chain.append_iff.mp hchain).2.2.release (nodup_places_middle.mp hnodup).1).isSome_of_first
    rw [if_pos (hhead.mpr rfl), run_bind_of_ok (run_free ha), run_bind_of_ok (run_resetPrev hlive none),
      Heap.release_setPrev_comm]
    rfl
  · rw [if_neg (hhead.not.mpr hfront), first_append_of_ne_nil hfront _ back none none]
    exact hchain.run_takeOut hfront _

/-- The loop of `tick`, behind the timers `front` of the slot: it takes a rotation from every timer that has one left,
and takes out the others. -/
theorem run_tick_loop (hchain : Chain h none (front ++ items) none)
    (hnodup : (places (front ++ items)).Nodup) (hfuel : items.length < fuel) (calls : List Ptr) :
    ∃ h', (loop tick_body fuel (first (front ++ items) none, first items none, calls)).run h =
        .ok ((first (front ++ items.filterMap turn) none, calls ++ (firing items).map some), h') ∧
      Chain h' none (front ++ items.filterMap turn) none ∧
      (∀ x ∉ places (front ++ items), h'.cells x = h.cells x) ∧
      ∀ x, (h'.cells x).isSome ↔ (h.cells x).isSome ∧ x ∉ firing items := by
  obtain ⟨fuel, rfl⟩ := exists_fuel hfuel
  induction items generalizing h front fuel calls with
  | nil =>
    refine ⟨h, ?_, hchain, fun _ _ => rfl, by simp [firing]⟩
    simp only [firing, List.filter_nil, List.filterMap_nil, places_nil, List.map_nil, List.append_nil]
    exact run_loop_done rfl fuel
  | cons item items ih =>
    obtain ⟨a, d⟩ := item
    obtain ⟨fuel, rfl⟩ := exists_fuel (Nat.lt_of_succ_lt_succ hfuel)
    rw [List.length_cons] at hfuel
    by_cases hzero : d.rotation = 0
    · obtain ⟨hnotMem, hrest⟩ := nodup_places_middle.mp hnodup
      obtain ⟨h', hrun, hchain', hother, hlive⟩ :=
        ih ((hchain.unlink hnodup).release hnotMem) hrest (calls ++ [some a]) fuel (by omega)
      rw [List.filterMap_cons_none (turn_of_zero hzero), firing_cons_of_zero hzero]
      refine ⟨h', ?_, hchain', fun x hx => ?_, fun x => ?_⟩
      · rw [first_cons, run_loop_next (run_tick_body_of_zero hchain hnodup hzero), hrun, List.append_assoc]
        rfl
      · rw [mem_places_middle, not_or] at hx
        rw [hother x hx.2, Heap.release_cells_of_ne _ hx.1]
        rw [places_append, List.mem_append, not_or] at hx
        exact Heap.unlink_cells_of_ne (fun heq => hx.2.1 (mem_of_last heq)) fun heq => hx.2.2 (mem_of_first heq)
      · rw [hlive, Heap.release_cells, List.mem_cons, not_or]
        by_cases hx : x = a
        · simp [hx]
        · simp only [hx, if_false, not_false_eq_true, true_and, Heap.isSome_unlink]
    · have hpos : d.rotation > 0 := Nat.pos_of_ne_zero hzero
      have hset := hchain.setData hnodup fun d => { d with rotation := d.rotation - 1 }
      rw [List.append_cons] at hset
      obtain ⟨h', hrun, hchain', hother, hlive⟩ := ih hset (by simpa using hnodup) calls fuel (by omega)
      rw [List.append_assoc, List.append_assoc, List.singleton_append, List.singleton_append] at hrun
      rw [List.append_assoc, List.singleton_append] at hchain' hother
      have hfirst : first (front ++ (a, d) :: items) none =
          first (front ++ (a, { d with rotation := d.rotation - 1 }) :: items) none := by
        simp only [first_append, first_cons]
      rw [List.filterMap_cons_some (turn_of_pos hpos), firing_cons_of_pos hpos]
      refine ⟨h', ?_, hchain', fun x hx => ?_, fun x => ?_⟩
      · rw [first_cons, run_loop_next (run_tick_body_of_pos hchain.cell hpos _), hfirst]
        exact hrun
      · rw [mem_places_middle, not_or] at hx
        rw [hother x (by rw [mem_places_middle, not_or]; exact hx), Heap.alter_cells_of_ne _ _ hx.1]
      · rw [hlive, Heap.isSome_alter]

/-- Every slot of the wheel is a doubly linked list of timers that know their slot, and there are no other timers in
the heap. -/
structure Slots (h : Heap tw_timer) (w : time_wheel) (lists : Nat → List (Nat × timer_data)) : Prop where
  cur_lt : w.cur_slot < N
  chain : ∀ s, Chain h none (lists s) none
  nodup : ∀ s, (places (lists s)).Nodup
  head : ∀ s, w.slots s = first (lists s) none
  own : ∀ s, ∀ x ∈ lists s, x.2.time_slot = s ∧ s < N
  live : ∀ a, (h.cells a).isSome ↔ ∃ s, a ∈ places (lists s)

variable {w : time_wheel} {lists : Nat → List (Nat × timer_data)} {h' : Heap tw_timer} {s ts : Nat}

theorem Slots.init (raw : Nat → tw_timer) : Slots (.empty raw) .init fun _ => [] where
  cur_lt := by decide
  chain _ := trivial
  nodup _ := List.nodup_nil
  head _ := rfl
  own _ _ hx := absurd hx List.not_mem_nil
  live _ := iff_of_false (fun h => nomatch h) fun ⟨_, hx⟩ => List.not_mem_nil hx

/-- A timer is in one slot only: the one that it knows. -/
theorem Slots.unique (hs : Slots h w lists) (hmem : a ∈ places (lists s)) (hmem' : a ∈ places (lists ts)) : s = ts := by
  obtain ⟨⟨_, d⟩, hx, rfl⟩ := List.mem_map.mp hmem
  obtain ⟨⟨_, d'⟩, hx', heq⟩ := List.mem_map.mp hmem'
  cases heq
  obtain ⟨front, back, hsplit⟩ := List.append_of_mem hx
  obtain ⟨front', back', hsplit'⟩ := List.append_of_mem hx'
  have hchain := hs.chain s
  have hchain' := hs.chain ts
  rw [hsplit] at hchain
  rw [hsplit'] at hchain'
  have hcell := hchain'.cell
  rw [hchain.cell, Option.some.injEq, Link.mk.injEq] at hcell
  rw [← (hs.own s _ hx).1, ← (hs.own ts _ hx').1, hcell.1]

/-- The list of one slot changes, and the objects of the others stay. -/
theorem Slots.replace (hs : Slots h w lists) (hchain : Chain h' none items none) (hnodup : (places items).Nodup)
    (hown : ∀ x ∈ items, x.2.time_slot = ts ∧ ts < N)
    (hother : ∀ s ≠ ts, ∀ x ∈ places (lists s), h'.cells x = h.cells x)
    (hlive : ∀ x, (h'.cells x).isSome ↔ x ∈ places items ∨ ∃ s ≠ ts, x ∈ places (lists s)) :
    Slots h' (w.setSlot ts (first items none)) (Function.update lists ts items) := by
  refine ⟨hs.cur_lt, ?_, ?_, fun s => ?_, ?_, fun a => ?_⟩
  · exact (Function.forall_update_iff lists fun _ items => Chain h' none items none).mpr
      ⟨hchain, fun s hst => (hs.chain s).congr (hother s hst)⟩
  · exact (Function.forall_update_iff lists fun _ items => (places items).Nodup).mpr ⟨hnodup, fun s _ => hs.nodup s⟩
  · by_cases hst : s = ts
    · subst hst
      rw [Function.update_self]
      exact if_pos rfl
    · rw [Function.update_of_ne hst]
      exact (if_neg hst).trans (hs.head s)
  · exact (Function.forall_update_iff lists fun s items => ∀ x ∈ items, x.2.time_slot = s ∧ s < N).mpr
      ⟨hown, fun s _ => hs.own s⟩
  · rw [hlive, Function.exists_update_iff lists fun _ items => a ∈ places items]

/-- The timers of other slots are not among those of a slot. -/
theorem Slots.ne_of_mem_other (hs : Slots h w lists) (hst : s ≠ ts) (hx : x ∈ places (lists s)) :
    x ∉ places (lists ts) := fun hx' => hst (hs.unique hx hx')

/-- The timers of a slot and the others. -/
theorem Slots.live_split (hs : Slots h w lists) (ts x : Nat) :
    (h.cells x).isSome ↔ x ∈ places (lists ts) ∨ ∃ s ≠ ts, x ∈ places (lists s) := by
  rw [hs.live]
  constructor
  · rintro ⟨s, hx⟩
    by_cases hst : s = ts
    · exact .inl (hst ▸ hx)
    · exact .inr ⟨s, hst, hx⟩
  · rintro (hx | ⟨s, _, hx⟩)
    · exact ⟨ts, hx⟩
    · exact ⟨s, hx⟩

/-- The slot and the rotation of a new timer. -/
def time_wheel.entry (w : time_wheel) (timeout : Int) : timer_data where
  rotation := max timeout.toNat 1 / N
  time_slot := (w.cur_slot + max timeout.toNat 1 % N) % N

theorem ticks_eq (ht : 0 ≤ timeout) : (if timeout < TI then 1 else timeout.toNat / TI) = max timeout.toNat 1 := by
  rw [TI, Nat.div_one]
  split <;> omega

/-- A new timer becomes the first of its slot. -/
theorem Slots.run_add_timer (hs : Slots h w lists) (hfree : h.cells a = none) (ht : 0 ≤ timeout) :
    (w.add_timer a timeout).run h = .ok ((some a, w.setSlot (w.entry timeout).time_slot (some a)),
      (h.place a ⟨w.entry timeout, none, none⟩).link none a (first (lists (w.entry timeout).time_slot) none)) := by
  have hslot : (w.cur_slot + max timeout.toNat 1 % N) % N < N := Nat.mod_lt _ (by decide)
  have hcell : (h.place a ⟨w.entry timeout, none, none⟩).cells a = some ⟨w.entry timeout, none, none⟩ := if_pos rfl
  have hne : first (lists (w.entry timeout).time_slot) none ≠ some a := by
    intro heq
    have hlive := (hs.chain _).isSome_of_first a heq
    rw [hfree] at hlive
    cases hlive
  have hhead := hs.head (w.entry timeout).time_slot
  rw [time_wheel.add_timer, if_neg (Int.not_lt.mpr ht)]
  dsimp only
  rw [ticks_eq ht, run_bind_of_ok (run_modify _ _), run_bind_of_ok (run_inBounds hslot _), Heap.link_none hcell rfl hne]
  change (ite (w.slots (w.entry timeout).time_slot = none) _ _ : Prog _).run
    (h.place a ⟨w.entry timeout, none, none⟩) = _
  rw [hhead]
  cases hfirst : first (lists (w.entry timeout).time_slot) none with
  | none =>
    rw [if_pos rfl]
    exact congrArg (fun h' => Except.ok (_, h')) (Heap.alterAt_eq_self hcell rfl).symm
  | some b =>
    have hb := (hs.chain _).isSome_of_first b hfirst
    have hb' : ((h.place a ⟨w.entry timeout, none, none⟩).cells b).isSome := by
      rw [Heap.place_cells, if_neg]
      · exact hb
      · rintro rfl
        exact hne hfirst
    have hslot_b : w.slots ((w.cur_slot + max timeout.toNat 1 % N) % N) = some b := hhead.trans hfirst
    rw [if_neg (Option.some_ne_none b), hslot_b, run_bind_of_ok (run_store_next (Option.isSome_of_eq_some hcell) _),
      run_bind_of_ok (run_store_prev (by rwa [Heap.isSome_alterAt]) _)]
    rfl

/-- A new timer is put before the others of its slot. -/
theorem Slots.push (hs : Slots h w lists) (hfree : h.cells a = none) (hd : d.time_slot < N) :
    Slots ((h.place a ⟨d, none, none⟩).link none a (first (lists d.time_slot) none)) (w.setSlot d.time_slot (some a))
      (Function.update lists d.time_slot ((a, d) :: lists d.time_slot)) := by
  have hnew : ∀ s, a ∉ places (lists s) := by
    intro s hmem
    have hlive := (hs.live a).mpr ⟨s, hmem⟩
    rw [hfree] at hlive
    cases hlive
  have hcell : (h.place a ⟨d, none, none⟩).cells a = some ⟨d, none, none⟩ := if_pos rfl
  have hchain : Chain (h.place a ⟨d, none, none⟩) none ([] ++ lists d.time_slot) none := (hs.chain _).place (hnew _)
  have hlinked : Chain ((h.place a ⟨d, none, none⟩).link none a (first (lists d.time_slot) none)) none
      ((a, d) :: lists d.time_slot) none := hchain.link (hs.nodup _) hcell (hnew _)
  refine hs.replace hlinked (List.nodup_cons.mpr ⟨hnew _, hs.nodup _⟩) ?_ ?_ ?_
  · rw [List.forall_mem_cons]
    exact ⟨⟨rfl, hd⟩, hs.own _⟩
  · intro s hst x hx
    have hxa : x ≠ a := fun heq => hnew s (heq ▸ hx)
    have hfirst : first (lists d.time_slot) none ≠ some x :=
      fun heq => hs.ne_of_mem_other hst hx (mem_of_first heq)
    rw [Heap.link_cells_of_ne (Option.some_ne_none x).symm hxa hfirst, Heap.place_cells, if_neg hxa]
  · intro x
    rw [Heap.isSome_link, Heap.place_cells, places_cons, List.mem_cons, or_assoc]
    split
    next hx => exact iff_of_true rfl (.inl hx)
    next hx => rw [hs.live_split d.time_slot, or_iff_right hx]

theorem time_wheel.setSlot_self (w : time_wheel) (ts : Nat) : w.setSlot ts (w.slots ts) = w := by
  have hslots : (fun s => if s = ts then w.slots ts else w.slots s) = w.slots := by
    funext s
    split
    next heq => rw [heq]
    next => rfl
  rw [time_wheel.setSlot, hslots]

/-- A timer is taken out of its slot, from the head of the list or from behind it, and released. -/
theorem Slots.run_del_timer (hs : Slots h w lists) (hsplit : lists ts = front ++ (a, d) :: back) :
    (w.del_timer (some a)).run h =
      .ok (w.setSlot ts (first (front ++ back) none), (h.unlink (last none front) (first back none)).release a) := by
  have hchain := hs.chain ts
  have hnodup := hs.nodup ts
  have hhead := hs.head ts
  obtain ⟨hslot, hlt⟩ := hs.own ts (a, d) (by rw [hsplit]; exact List.mem_append_right _ List.mem_cons_self)
  rw [hsplit] at hchain hnodup hhead
  have ha := hchain.cell
  have hfirst := eq_first_iff hnodup none
  rw [time_wheel.del_timer, if_neg (Option.some_ne_none a), run_bind_of_ok (run_load ha)]
  dsimp only at hslot ⊢
  rw [hslot, run_bind_of_ok (run_inBounds hlt _), hhead]
  by_cases hfront : front = []
  · subst hfront
    have hlive := (Chain.append_iff.mp hchain).2.2.isSome_of_first
    rw [if_pos (hfirst.mpr rfl), ← hfirst.mpr rfl, run_bind_of_ok (run_load ha),
      run_bind_of_ok (run_resetPrev hlive none)]
    refine run_bind_of_ok (run_free_of_isSome ?_) _
    rw [Heap.isSome_alterAt]
    exact Option.isSome_of_eq_some ha
  · rw [if_neg (hfirst.not.mpr hfront), first_append_of_ne_nil hfront back ((a, d) :: back) none none, ← hhead,
      time_wheel.setSlot_self]
    exact hchain.run_takeOut hfront _

/-- Unlinking a timer takes it out of its own slot's list and leaves the others. -/
theorem Slots.remove (hs : Slots h w lists) (hsplit : lists ts = front ++ (a, d) :: back) :
    Slots ((h.unlink (last none front) (first back none)).release a) (w.setSlot ts (first (front ++ back) none))
      (Function.update lists ts (front ++ back)) := by
  have hchain := hs.chain ts
  have hnodup := hs.nodup ts
  have hown := hs.own ts
  rw [hsplit] at hchain hnodup hown
  obtain ⟨hnew, hrest⟩ := nodup_places_middle.mp hnodup
  have hmem : ∀ {x}, x ∈ places (lists ts) ↔ x = a ∨ x ∈ places (front ++ back) := by
    intro x
    rw [hsplit, mem_places_middle]
  refine hs.replace ((hchain.unlink hnodup).release hnew) hrest ?_ ?_ ?_
  · intro x hx
    exact hown x (((List.sublist_cons_self _ back).append_left front).subset hx)
  · intro s hst x hx
    have hx' := hmem.not.mp (hs.ne_of_mem_other hst hx)
    rw [places_append, List.mem_append, not_or, not_or] at hx'
    rw [Heap.release_cells_of_ne _ hx'.1, Heap.unlink_cells_of_ne]
    · exact fun heq => hx'.2.1 (mem_of_last heq)
    · exact fun heq => hx'.2.2 (mem_of_first heq)
  · intro x
    rw [Heap.release_cells]
    split
    next hx =>
      refine iff_of_false (fun h => nomatch h) ?_
      rintro (hmem' | ⟨s, hst, hmem'⟩)
      · exact hnew (hx ▸ hmem')
      · exact hs.ne_of_mem_other hst hmem' (hmem.mpr (.inl hx))
    next hx => rw [Heap.isSome_unlink, hs.live_split ts, hmem, or_iff_right hx]

/-- A tick takes out the timers that fire, and no timer moves. -/
theorem places_filterMap_turn (items : List (Nat × timer_data)) :
    places (items.filterMap turn) = places (items.filter fun x => x.2.rotation > 0) := by
  induction items with
  | nil => rfl
  | cons item items ih =>
    obtain ⟨a, d⟩ := item
    by_cases hpos : d.rotation > 0
    · rw [List.filterMap_cons_some (turn_of_pos hpos), List.filter_cons_of_pos (by simpa using hpos), places_cons,
        places_cons, ih]
    · rw [List.filterMap_cons_none (turn_of_zero (Nat.eq_zero_of_not_pos hpos)),
        List.filter_cons_of_neg (by simpa using hpos), ih]

theorem mem_filterMap_turn {x : Nat × timer_data} :
    x ∈ items.filterMap turn ↔ (x.1, { x.2 with rotation := x.2.rotation + 1 }) ∈ items := by
  rw [List.mem_filterMap]
  constructor
  · rintro ⟨⟨a, d⟩, hmem, hturn⟩
    rw [turn] at hturn
    split at hturn
    next hpos =>
      cases hturn
      rwa [Nat.sub_add_cancel hpos]
    next => cases hturn
  · exact fun hmem => ⟨_, hmem, if_pos (Nat.succ_pos _)⟩

theorem mem_places_filterMap_turn (hnodup : (places items).Nodup) :
    x ∈ places (items.filterMap turn) ↔ x ∈ places items ∧ x ∉ firing items := by
  rw [places_filterMap_turn]
  simp only [firing, places, List.mem_map, List.mem_filter, decide_eq_true_eq]
  constructor
  · rintro ⟨y, ⟨hy, hpos⟩, rfl⟩
    refine ⟨⟨y, hy, rfl⟩, ?_⟩
    rintro ⟨z, ⟨hz, hzero⟩, heq⟩
    rw [List.inj_on_of_nodup_map hnodup hz hy heq] at hzero
    exact Nat.ne_of_gt hpos hzero
  · rintro ⟨⟨y, hy, rfl⟩, hnot⟩
    exact ⟨y, ⟨hy, Nat.pos_of_ne_zero fun hzero => hnot ⟨y, ⟨hy, hzero⟩, rfl⟩⟩, rfl⟩

theorem Slots.tick (hs : Slots h w lists) (hfuel : (lists w.cur_slot).length < fuel) :
    ∃ h', (w.tick fuel).run h =
        .ok (({ w.setSlot w.cur_slot (first ((lists w.cur_slot).filterMap turn) none) with
          cur_slot := (w.cur_slot + 1) % N }, (firing (lists w.cur_slot)).map some), h') ∧
      Slots h' { w.setSlot w.cur_slot (first ((lists w.cur_slot).filterMap turn) none) with
        cur_slot := (w.cur_slot + 1) % N } (Function.update lists w.cur_slot ((lists w.cur_slot).filterMap turn)) := by
  have hchain : Chain h none ([] ++ lists w.cur_slot) none := hs.chain _
  have hnodup := hs.nodup w.cur_slot
  obtain ⟨h', hrun, hchain', hother, hlive⟩ := run_tick_loop hchain hnodup hfuel []
  refine ⟨h', ?_, ?_⟩
  · rw [time_wheel.tick, run_bind_of_ok (run_inBounds hs.cur_lt _), hs.head]
    exact run_bind_of_ok hrun _
  · have hreplace : Slots h' (w.setSlot w.cur_slot (first ((lists w.cur_slot).filterMap turn) none))
        (Function.update lists w.cur_slot ((lists w.cur_slot).filterMap turn)) := by
      refine hs.replace hchain' ?_ (fun x hx => ?_) (fun s hst x hx => ?_) fun x => ?_
      · rw [places_filterMap_turn]
        exact hnodup.sublist (List.filter_sublist.map _)
      · exact hs.own w.cur_slot (x.1, { x.2 with rotation := x.2.rotation + 1 }) (mem_filterMap_turn.mp hx)
      · exact hother x (hs.ne_of_mem_other hst hx)
      · rw [hlive, hs.live_split w.cur_slot, mem_places_filterMap_turn hnodup, or_and_right]
        refine or_congr_right (and_iff_left_of_imp ?_)
        rintro ⟨s, hst, hx⟩ hfiring
        exact hs.ne_of_mem_other hst hx ((List.filter_sublist.map _).subset hfiring)
    exact ⟨Nat.mod_lt _ (by decide), hreplace.chain, hreplace.nodup, hreplace.head, hreplace.own, hreplace.live⟩

end basic_data_struct.wheel
