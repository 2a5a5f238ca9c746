import BasicDataStruct.Machine.Chain

open machine machine.Exec

namespace basic_data_struct.lst_timer

variable {fuel : Nat}

/-- The fields of a timer that the list does not change. The callback is called with `user_data` and does not
touch the list. -/
structure timer_data where
  expire : Int
  user_data : Nat
deriving DecidableEq

abbrev util_timer := Link timer_data

structure sort_timer_lst where
  head : Ptr
  tail : Ptr
deriving DecidableEq

abbrev Prog := Exec (Heap util_timer)

/-- The constructor. -/
def sort_timer_lst.empty : sort_timer_lst where
  head := none
  tail := none

/-- One round of the loop of the private `add_timer`, with the locals `prev` and `tmp`. -/
def insert_body (timer : Ptr) : Ptr × Ptr → Prog ((Ptr × Ptr) ⊕ (Ptr × Ptr))
  | (prev, tmp) => do
    if tmp = none then return .inr (prev, tmp)
    else if (← load timer).data.expire < (← load tmp).data.expire then
      store prev fun v => { v with next := timer }
      store timer fun v => { v with next := tmp }
      store tmp fun v => { v with prev := timer }
      store timer fun v => { v with prev := prev }
      return .inr (prev, tmp)
    else return .inl (tmp, (← load tmp).next)

/-- The private `add_timer`. -/
def sort_timer_lst.add_timer_from (fuel : Nat) (lst : sort_timer_lst) (timer lst_head : Ptr) : Prog sort_timer_lst := do
  let (prev, tmp) ← loop (insert_body timer) fuel (lst_head, (← load lst_head).next)
  if tmp = none then
    store prev fun v => { v with next := timer }
    store timer fun v => { v with prev := prev }
    store timer fun v => { v with next := none }
    return { lst with tail := timer }
  else return lst

def sort_timer_lst.add_timer (fuel : Nat) (lst : sort_timer_lst) (timer : Ptr) : Prog sort_timer_lst := do
  if timer = none then return lst
  else if lst.head = none then return { head := timer, tail := timer }
  else if (← load timer).data.expire < (← load lst.head).data.expire then
    store timer fun v => { v with next := lst.head }
    store lst.head fun v => { v with prev := timer }
    return { lst with head := timer }
  else lst.add_timer_from fuel timer lst.head

def sort_timer_lst.adjust_timer (fuel : Nat) (lst : sort_timer_lst) (timer : Ptr) : Prog sort_timer_lst := do
  if timer = none then return lst
  else
    let t ← load timer
    if t.next = none then return lst
    else if t.data.expire < (← load t.next).data.expire then return lst
    else if timer = lst.head then
      let head := t.next
      store head fun v => { v with prev := none }
      store timer fun v => { v with next := none }
      { lst with head := head }.add_timer_from fuel timer head
    else
      store t.prev fun v => { v with next := t.next }
      store t.next fun v => { v with prev := t.prev }
      lst.add_timer_from fuel timer t.next

def sort_timer_lst.del_timer (lst : sort_timer_lst) (timer : Ptr) : Prog sort_timer_lst := do
  if timer = none then return lst
  else if timer = lst.head ∧ timer = lst.tail then
    free timer
    return { head := none, tail := none }
  else if timer = lst.head then
    let head := (← load lst.head).next
    store head fun v => { v with prev := none }
    free timer
    return { lst with head := head }
  else if timer = lst.tail then
    let tail := (← load lst.tail).prev
    store tail fun v => { v with next := none }
    free timer
    return { lst with tail := tail }
  else
    let t ← load timer
    store t.prev fun v => { v with next := t.next }
    store t.next fun v => { v with prev := t.prev }
    free timer
    return lst

/-- One round of the loop of `tick`, with `head`, the local `tmp` and the calls so far. -/
def tick_body (cur : Int) : Ptr × Ptr × List (Ptr × timer_data) →
    Prog ((Ptr × Ptr × List (Ptr × timer_data)) ⊕ (Ptr × List (Ptr × timer_data)))
  | (head, tmp, calls) => do
    if tmp = none then return .inr (head, calls)
    else
      let t ← load tmp
      if cur < t.data.expire then return .inr (head, calls)
      else
        let calls := calls ++ [(tmp, t.data)]
        let head := t.next
        resetPrev head none
        free tmp
        return .inl (head, head, calls)

/-- The function `tick` at the time `cur`, with the timers whose callback it calls. -/
def sort_timer_lst.tick (fuel : Nat) (lst : sort_timer_lst) (cur : Int) :
    Prog (sort_timer_lst × List (Ptr × timer_data)) := do
  if lst.head = none then return (lst, [])
  else
    let (head, calls) ← loop (tick_body cur) fuel (lst.head, lst.head, [])
    return ({ lst with head := head }, calls)

/-- The list in the heap is linked in both directions, `head` is its first timer, and `tail` its last if there is
one: `tick` leaves `tail` behind when it empties the list. -/
structure Linked (h : Heap util_timer) (lst : sort_timer_lst) (items : List (Nat × timer_data)) : Prop where
  chain : Chain h none items none
  nodup : (places items).Nodup
  head : lst.head = first items none
  tail : items ≠ [] → lst.tail = last none items

/-- The order of the list. -/
def Sorted (items : List (Nat × timer_data)) : Prop := items.Pairwise fun x y => x.2.expire ≤ y.2.expire

variable {h : Heap util_timer} {lst : sort_timer_lst} {front back items : List (Nat × timer_data)} {a p : Nat}
  {d dp : timer_data} {v : util_timer}

theorem Sorted.insert (hsorted : Sorted (front ++ back)) (hfront : ∀ x ∈ front, x.2.expire ≤ d.expire)
    (hback : ∀ x ∈ back.head?, d.expire ≤ x.2.expire) (a : Nat) : Sorted (front ++ (a, d) :: back) := by
  obtain ⟨hsorted_front, hsorted_back, hcross⟩ := List.pairwise_append.mp hsorted
  have hle : ∀ x ∈ back, d.expire ≤ x.2.expire := by
    cases back with
    | nil => simp
    | cons item back =>
      have hitem : d.expire ≤ item.2.expire := hback item rfl
      rw [List.forall_mem_cons]
      exact ⟨hitem, fun x hx => Int.le_trans hitem ((List.pairwise_cons.mp hsorted_back).1 x hx)⟩
  refine List.pairwise_append.mpr ⟨hsorted_front, List.pairwise_cons.mpr ⟨hle, hsorted_back⟩, fun x hx => ?_⟩
  rw [List.forall_mem_cons]
  exact ⟨hfront x hx, hcross x hx⟩

theorem Sorted.of_insert (hsorted : Sorted (front ++ (a, d) :: back)) : Sorted (front ++ back) :=
  hsorted.sublist ((List.sublist_cons_self _ back).append_left front)

/-- A timer is put between two parts of the list. -/
theorem Linked.insert (hl : Linked h lst (front ++ back)) (ha : h.cells a = some v)
    (hnew : a ∉ places (front ++ back)) : Linked (h.link (last none front) a (first back none))
      { head := if front = [] then some a else lst.head, tail := if back = [] then some a else lst.tail }
      (front ++ (a, v.data) :: back) where
  chain := hl.chain.link hl.nodup ha hnew
  nodup := nodup_places_middle.mpr ⟨hnew, hl.nodup⟩
  head := by
    cases front with
    | nil => rfl
    | cons item front =>
      rw [if_neg (List.cons_ne_nil _ _)]
      exact hl.head
  tail _ := by
    rw [last_append, last_cons]
    cases back with
    | nil => rfl
    | cons item back =>
      rw [if_neg (List.cons_ne_nil _ _), hl.tail (by simp), last_append]
      exact last_eq_of_ne_nil (List.cons_ne_nil _ _) _ _

/-- A timer is taken out of the list. -/
theorem Linked.remove (hl : Linked h lst (front ++ (a, d) :: back)) :
    Linked (h.unlink (last none front) (first back none))
      { head := if front = [] then first back none else lst.head,
        tail := if back = [] then last none front else lst.tail } (front ++ back) where
  chain := hl.chain.unlink hl.nodup
  nodup := (nodup_places_middle.mp hl.nodup).2
  head := by
    cases front with
    | nil => rfl
    | cons item front =>
      rw [if_neg (List.cons_ne_nil _ _)]
      exact hl.head
  tail hne := by
    cases back with
    | nil => rw [if_pos rfl, List.append_nil]
    | cons item back =>
      rw [if_neg (List.cons_ne_nil _ _), hl.tail (by simp), last_append, last_append, last_cons]
      exact last_eq_of_ne_nil (List.cons_ne_nil _ _) _ _

/-- The data of a timer change. -/
theorem Linked.setData (hl : Linked h lst (front ++ (a, d) :: back)) (f : timer_data → timer_data) :
    Linked (h.alter a fun v => { v with data := f v.data }) lst (front ++ (a, f d) :: back) where
  chain := hl.chain.setData hl.nodup f
  nodup := by simpa using hl.nodup
  head := by
    rw [hl.head, first_append, first_append]
    rfl
  tail _ := by
    rw [hl.tail (by simp), last_append, last_append]
    rfl

section Insert

variable {t : Nat} {dt : timer_data} {n : Ptr}

theorem run_insert_body_of_lt (ha : h.cells a = some v) (ht : h.cells t = some ⟨dt, some p, n⟩)
    (hp : (h.cells p).isSome) (hlt : v.data.expire < dt.expire) :
    (insert_body (some a) (some p, some t)).run h = .ok (.inr (some p, some t), h.link (some p) a (some t)) := by
  have hsome : ∀ x, (h.cells x).isSome →
      (((h.setNext (some p) (some a)).setNext (some a) (some t)).cells x).isSome := by
    intro x hx
    rwa [Heap.isSome_alterAt, Heap.isSome_alterAt]
  have ha' := Option.isSome_of_eq_some ha
  rw [insert_body, if_neg (Option.some_ne_none t), run_bind_of_ok (run_load ha), run_bind_of_ok (run_load ht),
    if_pos hlt, run_bind_of_ok (run_store_next hp _),
    run_bind_of_ok (run_store_next (by rwa [Heap.isSome_alterAt]) _),
    run_bind_of_ok (run_store_prev (hsome t (Option.isSome_of_eq_some ht)) _),
    run_bind_of_ok (run_store_prev (by rw [Heap.isSome_alterAt]; exact hsome a ha') _)]
  rfl

theorem run_insert_body_of_le (ha : h.cells a = some v) (ht : h.cells t = some ⟨dt, some p, n⟩)
    (hle : dt.expire ≤ v.data.expire) :
    (insert_body (some a) (some p, some t)).run h = .ok (.inl (some t, n), h) := by
  rw [insert_body, if_neg (Option.some_ne_none t), run_bind_of_ok (run_load ha), run_bind_of_ok (run_load ht),
    if_neg (Int.not_lt.mpr hle), run_bind_of_ok (run_load ht)]
  rfl

/-- The loop of the private `add_timer`, entered behind the timer `p`, goes past the timers that do not expire later
than the new one, and puts it before the first that does. -/
theorem run_insert (hchain : Chain h none (front ++ (p, dp) :: back) none) (ha : h.cells a = some v)
    (hfuel : back.length < fuel) :
    ∃ mid rest, back = mid ++ rest ∧ (∀ x ∈ mid, x.2.expire ≤ v.data.expire) ∧
      (∀ x ∈ rest.head?, v.data.expire < x.2.expire) ∧
      (loop (insert_body (some a)) fuel (some p, first back none)).run h =
        .ok ((last (some p) mid, first rest none),
          if rest = [] then h else h.link (last (some p) mid) a (first rest none)) := by
  induction back generalizing front p dp fuel with
  | nil =>
    obtain ⟨fuel, rfl⟩ := exists_fuel hfuel
    exact ⟨[], [], rfl, by simp, by simp, run_loop_done rfl fuel⟩
  | cons item back ih =>
    obtain ⟨t, dt⟩ := item
    obtain ⟨fuel, rfl⟩ := exists_fuel hfuel
    have hp := Option.isSome_of_eq_some hchain.cell
    rw [List.append_cons] at hchain
    have ht : h.cells t = some ⟨dt, some p, first back none⟩ := by
      simpa only [last_concat] using hchain.cell
    by_cases hlt : v.data.expire < dt.expire
    · exact ⟨[], (t, dt) :: back, rfl, by simp, by simpa using hlt,
        run_loop_done (run_insert_body_of_lt ha ht hp hlt) fuel⟩
    · rw [Int.not_lt] at hlt
      rw [List.length_cons] at hfuel
      obtain ⟨mid, rest, rfl, hmid, hrest, hrun⟩ := ih hchain (by omega : back.length < fuel)
      refine ⟨(t, dt) :: mid, rest, rfl, ?_, hrest, ?_⟩
      · rw [List.forall_mem_cons]
        exact ⟨hlt, hmid⟩
      · exact (run_loop_next (run_insert_body_of_le ha ht hlt) fuel).trans hrun

/-- The private `add_timer` puts the new timer into the list behind `p`. -/
theorem run_add_timer_from (hchain : Chain h none (front ++ (p, dp) :: back) none)
    (ha : h.cells a = some v) (hfuel : back.length < fuel) (lst : sort_timer_lst) :
    ∃ mid rest, back = mid ++ rest ∧ (∀ x ∈ mid, x.2.expire ≤ v.data.expire) ∧
      (∀ x ∈ rest.head?, v.data.expire < x.2.expire) ∧
      (lst.add_timer_from fuel (some a) (some p)).run h =
        .ok (if rest = [] then { lst with tail := some a } else lst, h.link (last (some p) mid) a
          (first rest none)) := by
  obtain ⟨mid, rest, rfl, hmid, hrest, hrun⟩ := run_insert hchain ha hfuel
  refine ⟨mid, rest, rfl, hmid, hrest, ?_⟩
  rw [sort_timer_lst.add_timer_from, run_bind_of_ok (run_load hchain.cell), run_bind_of_ok hrun]
  cases rest with
  | nil =>
    rw [List.append_nil] at hchain
    obtain ⟨b, hlast, hb⟩ := (Chain.append_iff.mp hchain).2.exists_last (List.cons_ne_nil _ _)
    rw [last_cons] at hlast
    have ha' : ((h.setNext (some b) (some a)).cells a).isSome := by
      rw [Heap.isSome_alterAt]
      exact Option.isSome_of_eq_some ha
    rw [hlast]
    dsimp only
    rw [if_pos first_nil, if_pos rfl, if_pos rfl, run_bind_of_ok (run_store_next hb _), run_bind_of_ok
      (run_store_prev ha' _),
      run_bind_of_ok (run_store_next (by rwa [Heap.isSome_alterAt]) _), Heap.setNext_setPrev_comm]
    rfl
  | cons item rest => rfl

/-- The timer `a`, which is in the heap, is put into the sorted list. -/
def Inserted (h : Heap util_timer) (items : List (Nat × timer_data)) (a : Nat) (d : timer_data)
    (run : Except Fault (sort_timer_lst × Heap util_timer)) : Prop :=
  ∃ lst' h' items', run = .ok (lst', h') ∧ Linked h' lst' items' ∧ Sorted items' ∧ items'.Perm ((a, d) :: items) ∧
    ∀ x, (h'.cells x).isSome = (h.cells x).isSome

theorem Linked.add_timer_from (hl : Linked h lst (front ++ (p, dp) :: back))
    (hsorted : Sorted (front ++ (p, dp) :: back)) (ha : h.cells a = some v)
    (hnew : a ∉ places (front ++ (p, dp) :: back)) (hle : dp.expire ≤ v.data.expire) (hfuel : back.length < fuel) :
    Inserted h (front ++ (p, dp) :: back) a v.data ((lst.add_timer_from fuel (some a) (some p)).run h) := by
  obtain ⟨mid, rest, rfl, hmid, hrest, hrun⟩ := run_add_timer_from hl.chain ha hfuel lst
  have hassoc : front ++ (p, dp) :: (mid ++ rest) = front ++ (p, dp) :: mid ++ rest := by simp
  rw [hassoc] at hl hsorted hnew ⊢
  refine ⟨_, _, front ++ (p, dp) :: mid ++ (a, v.data) :: rest, hrun, ?_, ?_, List.perm_middle,
    Heap.isSome_link _ _ _ _⟩
  · have hlast : last none (front ++ (p, dp) :: mid) = last (some p) mid := by rw [last_append, last_cons]
    have hinsert := hl.insert ha hnew
    rw [hlast, if_neg (by simp : front ++ (p, dp) :: mid ≠ [])] at hinsert
    cases rest with
    | nil => exact hinsert
    | cons item rest => exact hinsert
  · refine hsorted.insert ?_ (fun x hx => Int.le_of_lt (hrest x hx)) a
    have hfront := (List.pairwise_append.mp (List.pairwise_append.mp hsorted).1).2.2
    intro x hx
    rcases List.mem_append.mp hx with hx | hx
    · exact Int.le_trans (hfront x hx _ List.mem_cons_self) hle
    · rcases List.mem_cons.mp hx with rfl | hx
      · exact hle
      · exact hmid x hx

/-- `add_timer` keeps a sorted list sorted. -/
theorem Linked.add_timer (hl : Linked h lst items) (hsorted : Sorted items)
    (ha : h.cells a = some ⟨d, none, none⟩) (hnew : a ∉ places items) (hfuel : items.length < fuel) :
    Inserted h items a d ((lst.add_timer fuel (some a)).run h) := by
  cases items with
  | nil =>
    have hhead : lst.head = none := hl.head
    rw [sort_timer_lst.add_timer, if_neg (Option.some_ne_none a), if_pos hhead]
    exact ⟨_, _, [(a, d)], rfl, ⟨⟨ha, trivial⟩, List.nodup_singleton a, rfl, fun _ => rfl⟩, List.pairwise_singleton _ _,
      .refl _, fun _ => rfl⟩
  | cons item items =>
    obtain ⟨p, dp⟩ := item
    have hp := hl.chain.1
    have hhead : lst.head = some p := hl.head
    -- the new timer goes to the front or behind the first one
    have hl' : Linked h lst ([] ++ (p, dp) :: items) := hl
    have hsorted' : Sorted ([] ++ (p, dp) :: items) := hsorted
    rw [sort_timer_lst.add_timer, if_neg (Option.some_ne_none a), hhead, if_neg (Option.some_ne_none p),
      run_bind_of_ok (run_load ha), run_bind_of_ok (run_load hp), run_ite]
    split
    next hlt =>
      have hpa : (some p : Ptr) ≠ some a := fun heq => hnew (Option.some.inj heq ▸ List.mem_cons_self)
      refine ⟨_, _, (a, d) :: (p, dp) :: items, ?_, hl'.insert ha hnew, ?_, .refl _, Heap.isSome_link _ _ _ _⟩
      · rw [run_bind_of_ok (run_store_next (Option.isSome_of_eq_some ha) _), run_bind_of_ok (run_store_prev
          (by rw [Heap.isSome_alterAt, hp]; rfl) _), ← Heap.link_none ha rfl hpa]
        rfl
      · exact hsorted'.insert (by simp) (by simpa using Int.le_of_lt hlt) a
    next hlt =>
      exact hl'.add_timer_from hsorted' ha hnew (Int.not_lt.mp hlt) (Nat.lt_of_succ_lt hfuel)

end Insert

section Remove

section

variable (hl : Linked h lst (front ++ (a, d) :: back))
include hl

theorem Linked.notMem : a ∉ places (front ++ back) :=
  (nodup_places_middle.mp hl.nodup).1

theorem Linked.head_eq_iff : some a = lst.head ↔ front = [] := by
  rw [hl.head]
  exact eq_first_iff hl.nodup none

theorem Linked.tail_eq_iff : some a = lst.tail ↔ back = [] := by
  rw [hl.tail (by simp), last_append, last_cons]
  cases back with
  | nil => exact iff_of_true rfl rfl
  | cons item back =>
    refine iff_of_false (fun heq => hl.notMem ?_) (List.cons_ne_nil _ _)
    rw [places_append]
    exact List.mem_append_right _ (mem_of_last ((last_eq_of_ne_nil (List.cons_ne_nil _ _) _ _).trans heq.symm))

/-- The timer before a timer other than the first. -/
theorem Linked.exists_before (hne : front ≠ []) :
    ∃ b, last none front = some b ∧ (h.cells b).isSome := (Chain.append_iff.mp hl.chain).1.exists_last hne

/-- The timer behind a timer other than the last. -/
theorem Linked.exists_behind (hne : back ≠ []) :
    ∃ b, first back none = some b ∧ (h.cells b).isSome := (Chain.append_iff.mp hl.chain).2.2.exists_first hne none

/-- All four cases of `del_timer` take the timer out of the list and release it. -/
theorem Linked.run_del_timer : (lst.del_timer (some a)).run h =
      .ok ({ head := if front = [] then first back none else lst.head,
             tail := if back = [] then last none front else lst.tail },
        (h.unlink (last none front) (first back none)).release a) := by
  have ha := hl.chain.cell
  have ha' := Option.isSome_of_eq_some ha
  rw [sort_timer_lst.del_timer, if_neg (Option.some_ne_none a)]
  by_cases hfront : front = []
  · have hhead := hl.head_eq_iff.mpr hfront
    by_cases hback : back = []
    · have htail := hl.tail_eq_iff.mpr hback
      rw [if_pos ⟨hhead, htail⟩, run_bind_of_ok (run_free ha), if_pos hfront, if_pos hback, hfront, hback]
      rfl
    · have htail := hl.tail_eq_iff.not.mpr hback
      obtain ⟨t, hfirst, ht⟩ := hl.exists_behind hback
      rw [if_neg fun hc => htail hc.2, if_pos hhead, ← hhead, run_bind_of_ok (run_load ha), if_pos hfront, if_neg hback,
        hfirst, run_bind_of_ok (run_store_prev ht _),
        run_bind_of_ok (run_free_of_isSome (by rwa [Heap.isSome_alterAt])), hfront]
      rfl
  · have hhead := hl.head_eq_iff.not.mpr hfront
    obtain ⟨b, hlast, hb⟩ := hl.exists_before hfront
    rw [if_neg fun hc => hhead hc.1, if_neg hhead, if_neg hfront]
    by_cases hback : back = []
    · have htail := hl.tail_eq_iff.mpr hback
      rw [if_pos htail, ← htail, run_bind_of_ok (run_load ha), if_pos hback, hlast,
        run_bind_of_ok (run_store_next hb _),
        run_bind_of_ok (run_free_of_isSome (by rwa [Heap.isSome_alterAt])), hback]
      rfl
    · have htail := hl.tail_eq_iff.not.mpr hback
      obtain ⟨t, hfirst, ht⟩ := hl.exists_behind hback
      rw [if_neg htail, run_bind_of_ok (run_load ha), if_neg hback, hlast, hfirst, run_bind_of_ok (run_store_next hb _),
        run_bind_of_ok (run_store_prev (by rwa [Heap.isSome_alterAt]) _)]
      exact run_bind_of_ok (run_free_of_isSome ((Heap.isSome_unlink h (some b) (some t) a).trans ha')) _

end

theorem Inserted.of_isSome {h' : Heap util_timer} {run : Except Fault (sort_timer_lst × Heap util_timer)}
    (hsame : ∀ x, (h'.cells x).isSome = (h.cells x).isSome) (hrun : Inserted h' items a d run) :
    Inserted h items a d run := by
  obtain ⟨lst', h'', items', hok, hl, hsorted, hperm, hkeep⟩ := hrun
  exact ⟨lst', h'', items', hok, hl, hsorted, hperm, fun x => (hkeep x).trans (hsame x)⟩

/-- A store to a timer outside of the list. -/
theorem Linked.setNext_of_notMem (hl : Linked h lst items) (ha : a ∉ places items) (q : Ptr) :
    Linked (h.setNext (some a) q) lst items where
  chain := hl.chain.alterAt_of_notMem (fun x hx heq => ha ((Option.some.inj heq : a = x) ▸ hx)) _
  nodup := hl.nodup
  head := hl.head
  tail := hl.tail

/-- A timer that is taken out of the list keeps its own links. -/
theorem Linked.unlink_cells (hl : Linked h lst (front ++ (a, d) :: back)) :
    (h.unlink (last none front) (first back none)).cells a = h.cells a := by
  have hnew := hl.notMem
  rw [places_append, List.mem_append, not_or] at hnew
  exact Heap.unlink_cells_of_ne (fun heq => hnew.1 (mem_of_last heq)) fun heq => hnew.2 (mem_of_first heq)

/-- A timer whose expiry time has been raised is moved to its new place. The timers before it are not looked at. -/
theorem Linked.adjust_timer (hl : Linked h lst (front ++ (a, d) :: back)) (hsorted : Sorted (front ++ back))
    (hfront : ∀ x ∈ front, x.2.expire ≤ d.expire) (hfuel : back.length < fuel) :
    Inserted h (front ++ back) a d ((lst.adjust_timer fuel (some a)).run h) := by
  rw [sort_timer_lst.adjust_timer, if_neg (Option.some_ne_none a)]
  cases back with
  | nil =>
    have ha : h.cells a = some ⟨d, last none front, none⟩ := hl.chain.cell
    rw [run_bind_of_ok (run_load ha), if_pos rfl]
    exact ⟨lst, h, _, rfl, hl, hsorted.insert hfront (by simp) a, List.perm_middle, fun _ => rfl⟩
  | cons item back =>
    obtain ⟨t, dt⟩ := item
    have ha : h.cells a = some ⟨d, last none front, some t⟩ := hl.chain.cell
    have ht := (Chain.append_iff.mp hl.chain).2.2.1
    have ht' := Option.isSome_of_eq_some ht
    have hnew := hl.notMem
    rw [run_bind_of_ok (run_load ha), if_neg (Option.some_ne_none t), run_bind_of_ok (run_load ht), run_ite]
    split
    next hlt =>
      refine ⟨lst, h, _, rfl, hl, hsorted.insert hfront ?_ a, List.perm_middle, fun _ => rfl⟩
      simpa using Int.le_of_lt hlt
    next hlt =>
      rw [Int.not_lt] at hlt
      have hremove := hl.remove
      have hcell := hl.unlink_cells.trans ha
      rw [List.length_cons] at hfuel
      by_cases hempty : front = []
      · subst hempty
        rw [if_pos (hl.head_eq_iff.mpr rfl), run_bind_of_ok (run_store_prev ht' _),
          run_bind_of_ok (run_store_next (by rw [Heap.isSome_alterAt, ha]; rfl) _)]
        refine Inserted.of_isSome (fun x => ?_) ((hremove.setNext_of_notMem hnew none).add_timer_from hsorted
          (Heap.alterAt_cells_same hcell _) hnew hlt (Nat.lt_of_succ_lt hfuel))
        rw [Heap.isSome_alterAt, Heap.isSome_unlink]
      · obtain ⟨b, hlast, hb⟩ := hl.exists_before hempty
        rw [if_neg (hl.head_eq_iff.not.mpr hempty), hlast, run_bind_of_ok (run_store_next hb _),
          run_bind_of_ok (run_store_prev (by rwa [Heap.isSome_alterAt]) _)]
        rw [if_neg hempty, hlast] at hremove
        rw [hlast] at hcell
        exact .of_isSome (Heap.isSome_unlink h _ _)
          (hremove.add_timer_from hsorted hcell hnew hlt (Nat.lt_of_succ_lt hfuel))

end Remove

section Tick

variable {cur : Int} {calls : List (Ptr × timer_data)}

/-- The timers that are due at the time `cur`. -/
def due (cur : Int) (x : Nat × timer_data) : Bool := x.2.expire ≤ cur

theorem due_iff {x : Nat × timer_data} : due cur x = true ↔ x.2.expire ≤ cur := decide_eq_true_iff

/-- The log of calls for timers. -/
def called (items : List (Nat × timer_data)) : List (Ptr × timer_data) := items.map fun x => (some x.1, x.2)

theorem run_tick_body_of_due (hchain : Chain h none ((a, d) :: items) none) (hdue : d.expire ≤ cur) :
    (tick_body cur (some a, some a, calls)).run h =
      .ok (.inl (first items none, first items none, calls ++ [(some a, d)]),
        (h.unlink none (first items none)).release a) := by
  have ha := hchain.1
  rw [tick_body, if_neg (Option.some_ne_none a), run_bind_of_ok (run_load ha), if_neg (Int.not_lt.mpr hdue)]
  exact (run_bind_of_ok (run_resetPrev hchain.2.isSome_of_first none) _).trans
    (run_bind_of_ok (run_free_of_isSome (by rw [Heap.isSome_alterAt, ha]; rfl)) _)

theorem run_tick_body_of_not_due (ha : h.cells a = some v) (hdue : cur < v.data.expire) :
    (tick_body cur (some a, some a, calls)).run h = .ok (.inr (some a, calls), h) := by
  rw [tick_body, if_neg (Option.some_ne_none a), run_bind_of_ok (run_load ha), if_pos hdue]
  rfl

/-- The loop of `tick` takes the timers from the front of the list as long as they are due. -/
theorem run_tick_loop (hchain : Chain h none items none) (hnodup : (places items).Nodup)
    (hfuel : items.length < fuel) (cur : Int) (calls : List (Ptr × timer_data)) :
    ∃ h', (loop (tick_body cur) fuel (first items none, first items none, calls)).run h =
        .ok ((first (items.dropWhile (due cur)) none, calls ++ called (items.takeWhile (due cur))), h') ∧
      Chain h' none (items.dropWhile (due cur)) none ∧
      ∀ x, (h'.cells x).isSome ↔ (h.cells x).isSome ∧ x ∉ places (items.takeWhile (due cur)) := by
  obtain ⟨fuel, rfl⟩ := exists_fuel hfuel
  induction items generalizing h fuel calls with
  | nil =>
    refine ⟨h, ?_, trivial, by simp⟩
    rw [List.takeWhile_nil, called, List.map_nil, List.append_nil]
    exact run_loop_done rfl fuel
  | cons item items ih =>
    obtain ⟨a, d⟩ := item
    by_cases hdue : due cur (a, d)
    · have hwhole : Chain h none ([] ++ (a, d) :: items) none := hchain
      have hremove : Chain (h.unlink none (first items none)) none items none := hwhole.unlink hnodup
      rw [places_cons, List.nodup_cons] at hnodup
      obtain ⟨fuel, rfl⟩ := exists_fuel (Nat.lt_of_succ_lt_succ hfuel)
      obtain ⟨h', hrun, hchain', hlive⟩ := ih (hremove.release hnodup.1) hnodup.2 (calls ++ [(some a, d)]) fuel
        (Nat.lt_of_succ_lt_succ hfuel)
      rw [List.takeWhile_cons_of_pos hdue, List.dropWhile_cons_of_pos hdue]
      refine ⟨h', ?_, hchain', fun x => ?_⟩
      · rw [first_cons, run_loop_next (run_tick_body_of_due hchain (due_iff.mp hdue)), hrun, List.append_assoc]
        rfl
      · rw [hlive, Heap.release_cells, places_cons, List.mem_cons, not_or]
        by_cases hx : x = a
        · simp [hx]
        · simp only [hx, if_false, not_false_eq_true, true_and]
          exact and_congr_left' (iff_of_eq (congrArg (· = true) (Heap.isSome_unlink h none _ x)))
    · rw [List.takeWhile_cons_of_neg hdue, List.dropWhile_cons_of_neg hdue]
      refine ⟨h, ?_, hchain, by simp⟩
      rw [called, List.map_nil, List.append_nil]
      exact run_loop_done (run_tick_body_of_not_due hchain.1 (Int.not_le.mp (due_iff.not.mp hdue))) fuel

theorem Linked.tick (hl : Linked h lst items) (hfuel : items.length < fuel) (cur : Int) :
    ∃ lst' h', (lst.tick fuel cur).run h = .ok ((lst', called (items.takeWhile (due cur))), h') ∧
      Linked h' lst' (items.dropWhile (due cur)) ∧
      ∀ x, (h'.cells x).isSome ↔ (h.cells x).isSome ∧ x ∉ places (items.takeWhile (due cur)) := by
  by_cases hempty : items = []
  · subst hempty
    have hhead : lst.head = none := hl.head
    refine ⟨lst, h, ?_, hl, by simp⟩
    rw [sort_timer_lst.tick, if_pos hhead]
    rfl
  · obtain ⟨h', hrun, hchain, hlive⟩ := run_tick_loop hl.chain hl.nodup hfuel cur []
    have hhead : lst.head ≠ none := by rwa [hl.head, Ne, first_eq_none_iff]
    refine ⟨{ lst with head := first (items.dropWhile (due cur)) none }, h', ?_,
      ⟨hchain, ?_, rfl, fun hne => ?_⟩, hlive⟩
    · rw [sort_timer_lst.tick, if_neg hhead, hl.head, run_bind_of_ok hrun]
      rfl
    · exact hl.nodup.sublist ((List.dropWhile_sublist _).map _)
    · have hlast : last none items = last (last none (items.takeWhile (due cur))) (items.dropWhile (due cur)) := by
        rw [← last_append, List.takeWhile_append_dropWhile]
      rw [hl.tail hempty, hlast]
      exact last_eq_of_ne_nil hne _ _

end Tick

end basic_data_struct.lst_timer
