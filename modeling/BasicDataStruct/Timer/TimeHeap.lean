import Mathlib.Algebra.Group.Int.Defs
import Mathlib.Algebra.Group.Nat.Defs
import BasicDataStruct.BinaryHeap.Sift
import BasicDataStruct.Machine.Heap

open machine machine.Exec binary_heap

namespace basic_data_struct.min_heap

variable {i x fuel : Nat} {t' : time_heap}

/-- A timer. The callback is `none` for `NULL`, and does not touch the heap of timers. -/
structure heap_timer where
  expire : Int
  cb_func : Option Nat
  user_data : Nat
deriving DecidableEq

abbrev Prog := Exec (Heap heap_timer)

/-- The value of an `int` expression that may overflow. -/
def wrap (x : Int) : Int := x.bmod 4294967296

/-- The class `time_heap`, with the array that its pointer points to. -/
structure time_heap where
  array : List Ptr
  capacity : Int
  cur_size : Int
deriving DecidableEq

/-- The expression `array[i]`. -/
def time_heap.read (t : time_heap) (i : Int) : Prog Ptr :=
  if i < 0 then fail .bounds
  else match t.array[i.toNat]? with
    | some p => pure p
    | none => fail .bounds

/-- The assignment `array[i] = p`. -/
def time_heap.write (t : time_heap) (i : Int) (p : Ptr) : Prog time_heap :=
  if 0 ≤ i ∧ i.toNat < t.array.length then pure { t with array := t.array.set i.toNat p } else fail .bounds

/-- The expression `new heap_timer* [length]` and the loop that clears the array; a negative length is refused. -/
def new_array (length : Int) : Prog (List Ptr) :=
  if length < 0 then fail .bounds else pure (List.replicate length.toNat none)

/-- The constructor of an empty heap. -/
def time_heap.init (cap : Int) : Prog time_heap := do
  return { array := ← new_array cap, capacity := cap, cur_size := 0 }

/-- The choice of the smaller child in `percolate_down`. -/
def time_heap.smaller (t : time_heap) (child : Int) : Prog Int := do
  if child < t.cur_size - 1 then
    if (← load (← t.read (child + 1))).expire < (← load (← t.read child)).expire then return child + 1
    else return child
  else return child

/-- One round of the loop of `percolate_down`. -/
def percolate_body (temp : Ptr) : time_heap × Int → Prog ((time_heap × Int) ⊕ (time_heap × Int))
  | (t, hole) => do
    if wrap (hole * 2 + 1) ≤ t.cur_size - 1 then
      let child ← t.smaller (wrap (hole * 2 + 1))
      let p ← t.read child
      if (← load p).expire < (← load temp).expire then return .inl (← t.write hole p, child)
      else return .inr (t, hole)
    else return .inr (t, hole)

def time_heap.percolate_down (fuel : Nat) (t : time_heap) (hole : Int) : Prog time_heap := do
  let temp ← t.read hole
  let (t, hole) ← loop (percolate_body temp) fuel (t, hole)
  t.write hole temp

/-- The loop that calls `percolate_down` for `i`, `i - 1`, …, `0`. -/
def time_heap.heapify (fuel : Nat) (t : time_heap) : Nat → Prog time_heap
  | 0 => t.percolate_down fuel 0
  | i + 1 => do
    let t ← t.percolate_down fuel (i + 1 : Nat)
    t.heapify fuel i

/-- The constructor of a heap from an array; `none` stands for the exception. -/
def time_heap.build (fuel : Nat) (init_array : List Ptr) (size capacity : Int) : Prog (Option time_heap) := do
  if capacity < size then return none
  else
    let array ← new_array capacity
    -- for a negative size the loops over the timers do nothing
    if size > 0 then
      inBounds (size.toNat - 1) init_array.length
      let t : time_heap :=
        { array := init_array.take size.toNat ++ array.drop size.toNat, capacity := capacity, cur_size := size }
      return some (← t.heapify fuel ((size - 1) / 2).toNat)
    else return some { array := array, capacity := capacity, cur_size := size }

def time_heap.resize (t : time_heap) : Prog time_heap := do
  let temp ← new_array (wrap (2 * t.capacity))
  if t.cur_size.toNat ≤ min t.array.length temp.length then
    return { t with
      array := t.array.take t.cur_size.toNat ++ temp.drop t.cur_size.toNat
      capacity := wrap (2 * t.capacity) }
  else fail .bounds

/-- The statement `if( cur_size >= capacity ) { resize(); }`. -/
def time_heap.make_room (t : time_heap) : Prog time_heap :=
  if t.cur_size ≥ t.capacity then t.resize else pure t

/-- One round of the loop of `add_timer`. -/
def add_body (timer : Ptr) : time_heap × Int → Prog ((time_heap × Int) ⊕ (time_heap × Int))
  | (t, hole) => do
    if hole > 0 then
      let p ← t.read ((hole - 1) / 2)
      if (← load p).expire ≤ (← load timer).expire then return .inr (t, hole)
      else return .inl (← t.write hole p, (hole - 1) / 2)
    else return .inr (t, hole)

def time_heap.add_timer (fuel : Nat) (t : time_heap) (timer : Ptr) : Prog time_heap := do
  if timer = none then return t
  else
    let t ← t.make_room
    let (t, hole) ← loop (add_body timer) fuel ({ t with cur_size := t.cur_size + 1 }, t.cur_size)
    t.write hole timer

def del_timer (timer : Ptr) : Prog Unit := do
  if timer ≠ none then store timer fun v => { v with cb_func := none }

def time_heap.top (t : time_heap) : Prog Ptr := do
  if t.cur_size = 0 then return none
  else t.read 0

def time_heap.pop_timer (fuel : Nat) (t : time_heap) : Prog time_heap := do
  if t.cur_size = 0 then return t
  else
    let top ← t.read 0
    if top ≠ none then
      free top
      let t ← { t with cur_size := t.cur_size - 1 }.write 0 (← t.read (t.cur_size - 1))
      t.percolate_down fuel 0
    else return t

/-- One round of the loop of `tick`, with the local `tmp`, the timers that it has removed and those whose callbacks it
has called. -/
def tick_body (fuel : Nat) (cur : Int) : time_heap × Ptr × List (Ptr × heap_timer) × List (Ptr × heap_timer) →
    Prog ((time_heap × Ptr × List (Ptr × heap_timer) × List (Ptr × heap_timer)) ⊕
      (time_heap × List (Ptr × heap_timer) × List (Ptr × heap_timer)))
  | (t, tmp, removed, calls) => do
    if t.cur_size = 0 then return .inr (t, removed, calls)
    else if tmp = none then return .inr (t, removed, calls)
    else if (← load tmp).expire > cur then return .inr (t, removed, calls)
    else
      let top ← t.read 0
      let timer ← load top
      let t ← t.pop_timer fuel
      return .inl (t, ← t.read 0, removed ++ [(top, timer)],
        if timer.cb_func = none then calls else calls ++ [(top, timer)])

def time_heap.tick (fuel : Nat) (t : time_heap) (cur : Int) :
    Prog (time_heap × List (Ptr × heap_timer) × List (Ptr × heap_timer)) := do
  loop (tick_body fuel cur) fuel (t, ← t.read 0, [], [])

variable {h : Heap heap_timer} {t : time_heap} {a : Nat → Nat} {n s hole j : Nat} {p : Ptr} {v : heap_timer}

theorem time_heap.run_read (hi : t.array[i]? = some p) (h : Heap heap_timer) : (t.read i).run h = .ok (p, h) := by
  rw [time_heap.read, if_neg (Int.not_lt.mpr (Int.natCast_nonneg i)), Int.toNat_natCast, hi]
  rfl

theorem time_heap.run_write (hi : i < t.array.length) (p : Ptr) (h : Heap heap_timer) :
    (t.write i p).run h = .ok ({ t with array := t.array.set i p }, h) := by
  rw [time_heap.write, Int.toNat_natCast, if_pos ⟨Int.natCast_nonneg i, hi⟩]
  rfl

theorem wrap_of_lt (hx : x < 2 ^ 31) : wrap x = x :=
  Int.bmod_eq_of_le (by omega) (by omega)

/-- When the timer at an address expires. -/
def expireOf (h : Heap heap_timer) (x : Nat) : Int := ((h.cells x).map heap_timer.expire).getD 0

theorem expireOf_eq (hx : h.cells x = some v) : expireOf h x = v.expire := by
  rw [expireOf, hx]
  rfl

/-- The keys of a heap with the timers `a`. -/
def keys (h : Heap heap_timer) (a : Nat → Nat) (i : Nat) : Int := expireOf h (a i)

/-- A heap object that differs in the contents of its array only. -/
structure SameShape (t t' : time_heap) : Prop where
  capacity : t'.capacity = t.capacity
  cur_size : t'.cur_size = t.cur_size
  length : t'.array.length = t.array.length

theorem SameShape.refl (t : time_heap) : SameShape t t := ⟨rfl, rfl, rfl⟩

theorem SameShape.trans {t'' : time_heap} (h₁ : SameShape t t') (h₂ : SameShape t' t'') : SameShape t t'' where
  capacity := h₂.capacity.trans h₁.capacity
  cur_size := h₂.cur_size.trans h₁.cur_size
  length := h₂.length.trans h₁.length

theorem sameShape_set (t : time_heap) (i : Nat) (p : Ptr) : SameShape t { t with array := t.array.set i p } :=
  ⟨rfl, rfl, List.length_set⟩

/-- The first `n` entries of the array point to the live timers `a`, apart from what is in the entry `hole`. -/
structure Holed (h : Heap heap_timer) (t : time_heap) (n : Nat) (a : Nat → Nat) (hole : Nat) : Prop where
  entry : ∀ i < n, i ≠ hole → t.array[i]? = some (some (a i))
  len : n ≤ t.array.length
  live : ∀ i < n, (h.cells (a i)).isSome

/-- The first `n` entries of the array point to the live timers `a`. -/
structure Stored (h : Heap heap_timer) (t : time_heap) (n : Nat) (a : Nat → Nat) : Prop where
  entry : ∀ i < n, t.array[i]? = some (some (a i))
  len : n ≤ t.array.length
  live : ∀ i < n, (h.cells (a i)).isSome

theorem Stored.holed (hs : Stored h t n a) (hole : Nat) : Holed h t n a hole :=
  ⟨fun i hi _ => hs.entry i hi, hs.len, hs.live⟩

/-- Another timer is moved into the hole. -/
theorem Holed.move (hh : Holed h t n a hole) (hhole : hole < n) (hj : j < n) :
    Holed h { t with array := t.array.set hole (some (a j)) } n (a ∘ Equiv.swap hole j) j := by
  refine ⟨fun i hi hne => ?_, ?_, ?_⟩
  · dsimp only [Function.comp_apply]
    by_cases hih : i = hole
    · subst hih
      rw [Equiv.swap_apply_left, List.getElem?_set_self (Nat.lt_of_lt_of_le hi hh.len)]
    · rw [Equiv.swap_apply_of_ne_of_ne hih hne, List.getElem?_set_ne (Ne.symm hih)]
      exact hh.entry i hi hih
  · rw [(sameShape_set t hole _).length]
    exact hh.len
  · exact (rearranged_swap hhole hj a).forall_of (fun x => (h.cells x).isSome) hh.live

/-- The timer that was taken out is put into the hole. -/
theorem Holed.fill (hh : Holed h t n a hole) (hhole : hole < n) :
    Stored h { t with array := t.array.set hole (some (a hole)) } n a := by
  refine ⟨fun i hi => ?_, ?_, hh.live⟩
  · by_cases hih : i = hole
    · subst hih
      exact List.getElem?_set_self (Nat.lt_of_lt_of_le hi hh.len)
    · exact (List.getElem?_set_ne (Ne.symm hih)).trans (hh.entry i hi hih)
  · rw [(sameShape_set t hole _).length]
    exact hh.len

theorem Holed.exists_cell (hh : Holed h t n a hole) (hi : i < n) :
    ∃ v, h.cells (a i) = some v ∧ keys h a i = v.expire := by
  obtain ⟨v, hv⟩ := Option.isSome_iff_exists.mp (hh.live i hi)
  exact ⟨v, hv, expireOf_eq hv⟩

/-- What a loop with a hole leaves: the same timers in another order, with the moving one next to the hole. -/
structure Moved (h : Heap heap_timer) (t : time_heap) (n : Nat) (a : Nat → Nat) (x : Nat) (t' : time_heap)
    (a' : Nat → Nat) (hole' : Nat) : Prop where
  holed : Holed h t' n a' hole'
  hole_lt : hole' < n
  moving : a' hole' = x
  rearranged : Rearranged n a a'
  shape : SameShape t t'

/-- A loop from a hole on leaves the same timers, with keys that satisfy `P`. -/
def Settles (h : Heap heap_timer) (n : Nat) (P : (Nat → Int) → Prop)
    (body : Ptr → time_heap × Int → Prog ((time_heap × Int) ⊕ (time_heap × Int))) (fuel : Nat) (t : time_heap)
    (a : Nat → Nat) (hole : Nat) : Prop :=
  ∃ t' a', ∃ hole' : Nat, (loop (body (some (a hole))) fuel (t, (hole : Int))).run h = .ok ((t', (hole' : Int)), h) ∧
    Moved h t n a (a hole) t' a' hole' ∧ P (keys h a')

section

variable {P : (Nat → Int) → Prop} {body : Ptr → time_heap × Int → Prog ((time_heap × Int) ⊕ (time_heap × Int))}

theorem Holed.settles (hh : Holed h t n a hole) (hhole : hole < n)
    (hbody : (body (some (a hole)) (t, (hole : Int))).run h = .ok (.inr (t, (hole : Int)), h)) (hP : P (keys h a)) :
    Settles h n P body (fuel + 1) t a hole :=
  ⟨t, a, hole, run_loop_done hbody fuel, ⟨hh, hhole, rfl, .refl n a, .refl t⟩, hP⟩

/-- A loop goes on after one move. -/
theorem Settles.after_move (hhole : hole < n) (hj : j < n) (hbody : (body (some (a hole)) (t, (hole : Int))).run h =
      .ok (.inl ({ t with array := t.array.set hole (some (a j)) }, (j : Int)), h))
    (hnext : Settles h n P body fuel { t with array := t.array.set hole (some (a j)) } (a ∘ Equiv.swap hole j) j) :
    Settles h n P body (fuel + 1) t a hole := by
  obtain ⟨t', a', hole', hrun, hm, hP⟩ := hnext
  rw [Function.comp_apply, Equiv.swap_apply_right] at hrun hm
  exact ⟨t', a', hole', (run_loop_next hbody fuel).trans hrun, ⟨hm.holed, hm.hole_lt, hm.moving,
    (rearranged_swap hhole hj a).trans hm.rearranged, (sameShape_set t hole _).trans hm.shape⟩, hP⟩

end

/-- The loop of `add_timer` moves the hole up to where the new timer belongs. -/
theorem run_rise (hh : Holed h t n a hole) (hhole : hole < n) (hk : Rising n (keys h a) hole) (hfuel : hole < fuel) :
    Settles h n (Ordered n) add_body fuel t a hole := by
  induction hole using Nat.strongRecOn generalizing t a fuel with
  | ind hole ih =>
    obtain ⟨fuel, rfl⟩ := exists_fuel hfuel
    rcases Nat.eq_zero_or_pos hole with rfl | hpos
    · exact hh.settles hhole rfl (hk.finish fun hpos => absurd hpos (Nat.lt_irrefl 0))
    · have hup := parent_lt hpos
      have hparent : ((hole : Int) - 1) / 2 = (parent hole : Nat) := by
        rw [parent]
        omega
      obtain ⟨v, hv, hvk⟩ := hh.exists_cell hhole
      obtain ⟨u, hu, huk⟩ := hh.exists_cell (hup.trans hhole)
      have hread := time_heap.run_read (hh.entry _ (hup.trans hhole) hup.ne) h
      have hgt : (hole : Int) > 0 := Int.natCast_pos.mpr hpos
      by_cases hle : u.expire ≤ v.expire
      · refine hh.settles hhole ?_ (hk.finish fun _ => by rwa [hvk, huk])
        rw [add_body, if_pos hgt, hparent, run_bind_of_ok hread, run_bind_of_ok (run_load hu),
          run_bind_of_ok (run_load hv), if_pos hle]
        rfl
      · have hless : keys h a hole < keys h a (parent hole) := by
          rw [hvk, huk]
          exact Int.not_le.mp hle
        refine .after_move hhole (hup.trans hhole) ?_ (ih (parent hole) hup (hh.move hhole (hup.trans hhole))
          (hup.trans hhole) (hk.move hpos hhole hless) (by omega))
        rw [add_body, if_pos hgt, hparent, run_bind_of_ok hread, run_bind_of_ok (run_load hu),
          run_bind_of_ok (run_load hv), if_neg hle,
          run_bind_of_ok (time_heap.run_write (Nat.lt_of_lt_of_le hhole hh.len) _ _)]
        rfl

/-- The choice of a child with the smallest key. -/
theorem run_smaller (hh : Holed h t n a hole) (hsize : t.cur_size = n) (hchild : 2 * hole + 1 < n) :
    ∃ c : Nat, (t.smaller (2 * hole + 1 : Nat)).run h = .ok ((c : Int), h) ∧ 0 < c ∧ parent c = hole ∧ c < n ∧
      ∀ i, 0 < i → i < n → parent i = hole → keys h a c ≤ keys h a i := by
  obtain ⟨u, hu, huk⟩ := hh.exists_cell hchild
  have hread := time_heap.run_read (hh.entry _ hchild (by omega)) h
  by_cases hright : 2 * hole + 2 < n
  · obtain ⟨v, hv, hvk⟩ := hh.exists_cell hright
    have hread' := time_heap.run_read (hh.entry _ hright (by omega)) h
    have hnext : ((2 * hole + 1 : Nat) : Int) + 1 = (2 * hole + 2 : Nat) := by omega
    have hrun : (t.smaller (2 * hole + 1 : Nat)).run h =
        .ok (if v.expire < u.expire then ((2 * hole + 2 : Nat) : Int) else (2 * hole + 1 : Nat), h) := by
      rw [time_heap.smaller, if_pos (by omega), hnext, run_bind_of_ok hread', run_bind_of_ok (run_load hv),
        run_bind_of_ok hread, run_bind_of_ok (run_load hu), run_ite]
      split <;> rfl
    by_cases hlt : v.expire < u.expire
    · rw [if_pos hlt] at hrun
      refine ⟨_, hrun, by omega, (parent_eq_iff (by omega)).mpr (.inr rfl), hright, fun i hi _ hp => ?_⟩
      rcases (parent_eq_iff hi).mp hp with rfl | rfl
      · rw [huk, hvk]
        exact hlt.le
      · exact le_refl _
    · rw [if_neg hlt] at hrun
      refine ⟨_, hrun, by omega, (parent_eq_iff (by omega)).mpr (.inl rfl), hchild, fun i hi _ hp => ?_⟩
      rcases (parent_eq_iff hi).mp hp with rfl | rfl
      · exact le_refl _
      · rw [huk, hvk]
        exact not_lt.mp hlt
  · have hrun : (t.smaller (2 * hole + 1 : Nat)).run h = .ok (((2 * hole + 1 : Nat) : Int), h) := by
      rw [time_heap.smaller, if_neg (by omega)]
      rfl
    refine ⟨_, hrun, by omega, (parent_eq_iff (by omega)).mpr (.inl rfl), hchild, fun i hi hin hp => ?_⟩
    rcases (parent_eq_iff hi).mp hp with rfl | rfl
    · exact le_refl _
    · exact absurd hin hright

theorem wrap_child (hlt : 2 * hole + 1 < 2 ^ 31) : wrap ((hole : Int) * 2 + 1) = (2 * hole + 1 : Nat) := by
  rw [← wrap_of_lt hlt]
  exact congrArg wrap (by omega)

/-- A round of the loop of `percolate_down` where the smaller child is at `c`. -/
theorem run_percolate_body {c y : Nat} {u v : heap_timer} (hlt : 2 * hole + 1 < 2 ^ 31)
    (hchild : (2 * hole + 1 : Nat) ≤ t.cur_size - 1) (hlen : hole < t.array.length)
    (hsmaller : (t.smaller (2 * hole + 1 : Nat)).run h = .ok ((c : Int), h)) (hc : t.array[c]? = some (some y))
    (hu : h.cells y = some u) (hv : h.cells x = some v) :
    (percolate_body (some x) (t, (hole : Int))).run h = .ok (if u.expire < v.expire then
      .inl ({ t with array := t.array.set hole (some y) }, (c : Int)) else .inr (t, (hole : Int)), h) := by
  rw [percolate_body, wrap_child hlt, if_pos hchild, run_bind_of_ok hsmaller, run_bind_of_ok (time_heap.run_read hc h),
    run_bind_of_ok (run_load hu), run_bind_of_ok (run_load hv)]
  split
  · rw [run_bind_of_ok (time_heap.run_write hlen _ _)]
    rfl
  · rfl

theorem run_percolate_body_leaf (hlt : 2 * hole + 1 < 2 ^ 31) (hchild : ¬ (2 * hole + 1 : Nat) ≤ t.cur_size - 1)
    (p : Ptr) : (percolate_body p (t, (hole : Int))).run h = .ok (.inr (t, (hole : Int)), h) := by
  rw [percolate_body, wrap_child hlt, if_neg hchild]
  rfl

/-- The loop of `percolate_down` moves the hole down to where the timer belongs, if the places of the children are
numbers that fit into an `int`. -/
theorem run_sink (hh : Holed h t n a hole) (hhole : hole < n) (hsize : t.cur_size = n) (hn : n ≤ 2 ^ 30)
    (hs : s ≤ hole) (hk : Sinking s n (keys h a) hole) (hfuel : n - hole < fuel) :
    Settles h n (OrderedFrom s n) percolate_body fuel t a hole := by
  induction hrest : n - hole using Nat.strongRecOn generalizing t a hole fuel with
  | ind rest ih =>
    subst hrest
    obtain ⟨fuel, rfl⟩ := exists_fuel hfuel
    by_cases hchild : 2 * hole + 1 < n
    · obtain ⟨v, hv, hvk⟩ := hh.exists_cell hhole
      obtain ⟨c, hrun, hpos, hparent, hlt, hleast⟩ := run_smaller hh hsize hchild
      obtain ⟨u, hu, huk⟩ := hh.exists_cell hlt
      have hup : hole < c := hparent ▸ parent_lt hpos
      have hbody := run_percolate_body (by omega) (by omega) (Nat.lt_of_lt_of_le hhole hh.len) hrun
        (hh.entry c hlt hup.ne') hu hv
      by_cases hless : u.expire < v.expire
      · rw [if_pos hless] at hbody
        have hsink := hk.move hs hpos hparent hlt hleast (by rwa [hvk, huk])
        exact .after_move hhole hlt hbody (ih (n - c) (by omega) (hh.move hhole hlt) hlt hsize (hs.trans hup.le) hsink
          (by omega) rfl)
      · rw [if_neg hless] at hbody
        refine hh.settles hhole hbody (hk.finish fun i hi hin hp => le_trans ?_ (hleast i hi hin hp))
        rw [hvk, huk]
        exact not_lt.mp hless
    · refine hh.settles hhole (run_percolate_body_leaf (by omega) (by omega) _) (hk.finish fun i hi hin hp => ?_)
      rcases (parent_eq_iff hi).mp hp with rfl | rfl <;> omega

/-- What `percolate_down` leaves: the same timers, in order from the place `s` on. -/
def Percolated (h : Heap heap_timer) (t : time_heap) (s n : Nat) (a : Nat → Nat)
    (run : Except Fault (time_heap × Heap heap_timer)) : Prop :=
  ∃ t' a', run = .ok (t', h) ∧ Stored h t' n a' ∧ OrderedFrom s n (keys h a') ∧ Rearranged n a a' ∧ SameShape t t'

theorem Stored.percolate_down (hs : Stored h t n a) (hhole : hole < n) (hsize : t.cur_size = n)
    (hn : n ≤ 2 ^ 30) (hle : s ≤ hole) (hk : Sinking s n (keys h a) hole) (hfuel : n < fuel) :
    Percolated h t s n a ((t.percolate_down fuel hole).run h) := by
  obtain ⟨t', a', hole', hrun, hm, hordered⟩ :=
    run_sink (hs.holed hole) hhole hsize hn hle hk (by omega : n - hole < fuel)
  have hfill := hm.holed.fill hm.hole_lt
  rw [hm.moving] at hfill
  refine ⟨_, a', ?_, hfill, hordered, hm.rearranged, hm.shape.trans (sameShape_set t' hole' _)⟩
  rw [time_heap.percolate_down, run_bind_of_ok (time_heap.run_read (hs.entry hole hhole) h), run_bind_of_ok hrun]
  exact time_heap.run_write (Nat.lt_of_lt_of_le hm.hole_lt hm.holed.len) _ _

/-- The array is put in order from the last parent on down to the root. -/
theorem Stored.heapify (hs : Stored h t n a) (hi : i < n) (hsize : t.cur_size = n) (hn : n ≤ 2 ^ 30)
    (hk : OrderedFrom (i + 1) n (keys h a)) (hfuel : n < fuel) :
    Percolated h t 0 n a ((t.heapify fuel i).run h) := by
  induction i generalizing t a with
  | zero => exact hs.percolate_down hi hsize hn (Nat.le_refl 0) hk.sinking hfuel
  | succ i ih =>
    obtain ⟨t₁, a₁, hrun₁, hs₁, hk₁, hrearranged₁, hshape₁⟩ :=
      hs.percolate_down hi hsize hn (Nat.le_refl _) hk.sinking hfuel
    obtain ⟨t₂, a₂, hrun₂, hs₂, hk₂, hrearranged₂, hshape₂⟩ :=
      ih hs₁ (by omega) (hshape₁.cur_size.trans hsize) hk₁
    refine ⟨t₂, a₂, ?_, hs₂, hk₂, hrearranged₁.trans hrearranged₂, hshape₁.trans hshape₂⟩
    rw [time_heap.heapify, run_bind_of_ok hrun₁]
    exact hrun₂

end basic_data_struct.min_heap
